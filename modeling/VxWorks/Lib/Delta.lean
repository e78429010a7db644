import Mathlib.Data.List.Basic
import Mathlib.Tactic.Linarith

/-!
# Delta lists

A list of things to be done in the future, each with its distance from the one
before it. What is meant is a list of absolute times, and `due` gives it back,
reckoning from the time the first distance counts from. The two operations that
touch distances, putting an entry where it belongs and taking one out, are
stated here in terms of the times that are meant; the distances themselves show
up again only where a program looks at the first one.
-/

namespace VxWorks.Lib

variable {α : Type*}

/-- The entries with the times they are due, counting from `t`. -/
def due (t : Int) : List (Int × α) → List (Int × α)
  | [] => []
  | (d, a) :: l => (t + d, a) :: due (t + d) l

/-- Put an entry `d` away from now behind all that are due no later. -/
def insertDelta (d : Int) (a : α) : List (Int × α) → List (Int × α)
  | [] => [(d, a)]
  | (e, b) :: l =>
      if e ≤ d then (e, b) :: insertDelta (d - e) a l else (d, a) :: (e - d, b) :: l

/-- The entry in front is gone, and its distance with it. -/
def addFront (d : Int) : List (Int × α) → List (Int × α)
  | [] => []
  | (e, b) :: l => (e + d, b) :: l

/-- Take out the first entry that passes the test. -/
def removeDelta (test : α → Bool) : List (Int × α) → List (Int × α)
  | [] => []
  | (d, a) :: l => if test a then addFront d l else (d, a) :: removeDelta test l

/-- No distance is negative. -/
def Ascending (l : List (Int × α)) : Prop := ∀ x ∈ l, 0 ≤ x.1

section

variable {t d : Int} {a : α} {l : List (Int × α)}

theorem ascending_cons {x : Int × α} : Ascending (x :: l) ↔ 0 ≤ x.1 ∧ Ascending l := by
  simp [Ascending]

theorem due_addFront : due t (addFront d l) = due (t + d) l := by
  cases l with
  | nil => rfl
  | cons x l =>
      have ht : t + (x.1 + d) = t + d + x.1 := by omega
      show (t + (x.1 + d), x.2) :: due (t + (x.1 + d)) l = _
      rw [ht]
      rfl

/-- An entry that is put in is due when it was meant to be, and the others are
due when they were. -/
theorem mem_due_insertDelta {x : Int × α} :
    x ∈ due t (insertDelta d a l) ↔ x = (t + d, a) ∨ x ∈ due t l := by
  induction l generalizing t d with
  | nil => simp [insertDelta, due]
  | cons y l ih =>
      obtain ⟨e, b⟩ := y
      rw [insertDelta]
      split
      · have ht : t + e + (d - e) = t + d := by omega
        simp only [due, List.mem_cons, ih, ht]
        tauto
      · have ht : t + d + (e - d) = t + e := by omega
        simp only [due, List.mem_cons, ht]

theorem due_add (t e : Int) (l : List (Int × α)) :
    due (t + e) l = (due t l).map fun x => (x.1 + e, x.2) := by
  induction l generalizing t with
  | nil => rfl
  | cons y l ih =>
      have ht : t + e + y.1 = t + y.1 + e := by omega
      show (t + e + y.1, y.2) :: due (t + e + y.1) l = _
      rw [ht, ih]
      rfl

theorem Ascending.le_due (hl : Ascending l) {x : Int × α} (hx : x ∈ due t l) : t ≤ x.1 := by
  induction l generalizing t with
  | nil => cases hx
  | cons y l ih =>
      obtain ⟨hy, hl'⟩ := ascending_cons.mp hl
      rcases List.mem_cons.mp hx with rfl | hx
      · show t ≤ t + y.1
        omega
      · have hle := ih hl' hx
        omega

/-- Where the new entry stands. -/
theorem due_insertDelta (hl : Ascending l) (t d : Int) (a : α) :
    ∃ before after, due t l = before ++ after ∧
      due t (insertDelta d a l) = before ++ (t + d, a) :: after ∧
      (∀ x ∈ before, x.1 ≤ t + d) ∧ ∀ x ∈ after, t + d < x.1 := by
  induction l generalizing t d with
  | nil =>
      refine ⟨[], [], rfl, rfl, ?_, ?_⟩ <;> intro x hx <;> cases hx
  | cons y l ih =>
      obtain ⟨e, b⟩ := y
      obtain ⟨he, hl'⟩ := ascending_cons.mp hl
      rw [insertDelta]
      split
      · next hed =>
          obtain ⟨before, after, hdue, hins, hbefore, hafter⟩ := ih hl' (t + e) (d - e)
          have ht : t + e + (d - e) = t + d := by omega
          rw [ht] at hins hbefore hafter
          refine ⟨(t + e, b) :: before, after, ?_, ?_, ?_, hafter⟩
          · rw [due, hdue, List.cons_append]
          · rw [due, hins, List.cons_append]
          · refine List.forall_mem_cons.mpr ⟨?_, hbefore⟩
            show t + e ≤ t + d
            omega
      · next hed =>
          have ht : t + d + (e - d) = t + e := by omega
          refine ⟨[], (t + e, b) :: due (t + e) l, rfl, ?_, ?_, ?_⟩
          · rw [due, due, ht, List.nil_append]
          · intro x hx
            cases hx
          · have hlt : t + d < t + e := by omega
            exact List.forall_mem_cons.mpr
              ⟨hlt, fun x hx => Int.lt_of_lt_of_le hlt (hl'.le_due hx)⟩

/-- Taking an entry out does not change when the others are due. -/
theorem due_removeDelta (t : Int) (test : α → Bool) (l : List (Int × α)) :
    due t (removeDelta test l) = (due t l).eraseP fun x => test x.2 := by
  induction l generalizing t with
  | nil => rfl
  | cons y l ih =>
      obtain ⟨e, b⟩ := y
      rw [removeDelta, due]
      cases htest : test b with
      | true =>
          rw [if_pos rfl, due_addFront,
            List.eraseP_cons_of_pos (p := fun x : Int × α => test x.2) htest]
      | false =>
          rw [if_neg Bool.false_ne_true, due, ih, List.eraseP_cons_of_neg
            (p := fun x : Int × α => test x.2) (by rw [htest]; exact Bool.false_ne_true)]

theorem mem_due_of_removeDelta {test : α → Bool} {x : Int × α}
    (h : x ∈ due t (removeDelta test l)) : x ∈ due t l := by
  rw [due_removeDelta] at h
  exact List.mem_of_mem_eraseP h

theorem Ascending.insertDelta (hl : Ascending l) (hd : 0 ≤ d) :
    Ascending (insertDelta d a l) := by
  induction l generalizing d with
  | nil => simpa [Lib.insertDelta, Ascending] using hd
  | cons y l ih =>
      obtain ⟨hy, hl'⟩ := ascending_cons.mp hl
      rw [Lib.insertDelta]
      split
      · next he => exact ascending_cons.mpr ⟨hy, ih hl' (by omega)⟩
      · next he =>
          exact ascending_cons.mpr ⟨hd, ascending_cons.mpr ⟨by show 0 ≤ y.1 - d; omega, hl'⟩⟩

theorem Ascending.addFront (hl : Ascending l) (hd : 0 ≤ d) : Ascending (addFront d l) := by
  cases l with
  | nil => exact hl
  | cons y l =>
      obtain ⟨hy, hl'⟩ := ascending_cons.mp hl
      exact ascending_cons.mpr ⟨by show 0 ≤ y.1 + d; omega, hl'⟩

theorem Ascending.removeDelta (hl : Ascending l) (test : α → Bool) :
    Ascending (removeDelta test l) := by
  induction l with
  | nil => exact hl
  | cons y l ih =>
      obtain ⟨hy, hl'⟩ := ascending_cons.mp hl
      rw [Lib.removeDelta]
      split
      · exact hl'.addFront hy
      · exact ascending_cons.mpr ⟨hy, ih hl'⟩

/-- The entries in front that are no distance away are due at the start. -/
theorem mem_due_takeWhile {x : Int × α} (h : x ∈ l.takeWhile fun y => y.1 == 0) :
    (t, x.2) ∈ due t l := by
  induction l with
  | nil => cases h
  | cons y l ih =>
      rw [List.takeWhile_cons] at h
      split at h
      · next hy =>
          have ht : t + y.1 = t := by rw [beq_iff_eq.mp hy]; omega
          show (t, x.2) ∈ (t + y.1, y.2) :: due (t + y.1) l
          rw [ht]
          rcases List.mem_cons.mp h with rfl | h
          · exact List.mem_cons_self
          · exact List.mem_cons_of_mem _ (ih h)
      · cases h

/-- Leaving them out does not change when the others are due. -/
theorem mem_due_of_dropWhile {x : Int × α} (h : x ∈ due t (l.dropWhile fun y => y.1 == 0)) :
    x ∈ due t l := by
  induction l with
  | nil => exact h
  | cons y l ih =>
      rw [List.dropWhile_cons] at h
      split at h
      · next hy =>
          have ht : t + y.1 = t := by rw [beq_iff_eq.mp hy]; omega
          show x ∈ (t + y.1, y.2) :: due (t + y.1) l
          rw [ht]
          exact List.mem_cons_of_mem _ (ih h)
      · exact h

/-- The payloads, for properties that do not care about time. -/
theorem map_insertDelta_perm : (insertDelta d a l).map Prod.snd |>.Perm (a :: l.map Prod.snd) := by
  induction l generalizing d with
  | nil => exact List.Perm.refl _
  | cons y l ih =>
      rw [insertDelta]
      split
      · exact (ih.cons y.2).trans (List.Perm.swap a y.2 _)
      · exact List.Perm.refl _

theorem map_removeDelta (test : α → Bool) :
    (removeDelta test l).map Prod.snd = (l.map Prod.snd).eraseP test := by
  induction l with
  | nil => rfl
  | cons y l ih =>
      rw [removeDelta]
      split
      · next h =>
          rw [List.map_cons, List.eraseP_cons_of_pos h]
          cases l <;> rfl
      · next h => rw [List.map_cons, List.map_cons, List.eraseP_cons_of_neg h, ih]

end

end VxWorks.Lib
