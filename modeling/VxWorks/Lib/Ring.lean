import Mathlib.Data.List.Nodup
import Mathlib.Logic.Function.Basic

/-!
# Rings of cells

A singly linked ring is a function `next` on cells, and a list says in which
order it visits them: `Visits next l z` that following `next` from the first
cell of `l` visits exactly `l` and then arrives at `z`, `Circuit next l` that it
arrives back at the first one. A ring that is kept in order of use is changed in
two ways only. The cell at the end becomes the first by moving the pointer that
marks the end, which links nothing anew; a cell from the middle becomes the
first by three assignments. Both are here, with the linear search that finds
the cell and the cell before it.

The order of use itself is `byUse`, computed from the record of what was used;
whoever comes earlier in it was used more recently.
-/

namespace VxWorks.Lib

variable {α : Type*} {next : α → α}

/-- Following `next` visits `l` in order and arrives at `z`. -/
def Visits (next : α → α) : List α → α → Prop
  | [], _ => True
  | a :: l, z => next a = l.headD z ∧ Visits next l z

def Circuit (next : α → α) (l : List α) : Prop := l.Nodup ∧ ∀ c ∈ l.head?, Visits next l c

theorem visits_append {l m : List α} {z : α} :
    Visits next (l ++ m) z ↔ Visits next l (m.headD z) ∧ Visits next m z := by
  induction l with
  | nil => simp [Visits]
  | cons a l ih =>
      have hd : (l ++ m).headD z = l.headD (m.headD z) := by cases l <;> rfl
      rw [List.cons_append, Visits, Visits, ih, hd, and_assoc]

theorem circuit_cons {c : α} {l : List α} :
    Circuit next (c :: l) ↔ (c :: l).Nodup ∧ Visits next (c :: l) c := by
  simp [Circuit]

/-- The last cell becomes the first. -/
theorem Circuit.rotate {l : List α} {z : α} (h : Circuit next (l ++ [z])) :
    Circuit next (z :: l) := by
  obtain ⟨hnd, hv⟩ := h
  refine circuit_cons.mpr ⟨(List.perm_append_singleton z l).nodup_iff.mp hnd, ?_⟩
  cases l with
  | nil => exact hv z rfl
  | cons a l =>
      obtain ⟨hl, hz, _⟩ := visits_append.mp (hv a rfl)
      exact ⟨hz, hl⟩

section

variable [DecidableEq α]

/-- Relinking a cell that is not on the way does not matter. -/
theorem visits_update {l : List α} {z k v : α} (hk : k ∉ l) :
    Visits (Function.update next k v) l z ↔ Visits next l z := by
  induction l with
  | nil => simp [Visits]
  | cons a l ih =>
      rw [List.mem_cons, not_or] at hk
      rw [Visits, Visits, ih hk.2, Function.update_of_ne (Ne.symm hk.1)]

/-- The three assignments that put the cell `x`, which comes after `p`, between
the last cell and the first. -/
def moveFront (next : α → α) (p x z : α) : α → α :=
  let next := Function.update next p (next x)
  let next := Function.update next x (next z)
  Function.update next z x

theorem visits_moveFront {l : List α} {p x z w : α} (hp : p ∉ l) (hx : x ∉ l) (hz : z ∉ l) :
    Visits (moveFront next p x z) l w ↔ Visits next l w := by
  rw [moveFront, visits_update hz, visits_update hx, visits_update hp]

/-- A cell from the middle becomes the first. -/
theorem Circuit.moveFront {a b : List α} {p x z : α}
    (h : Circuit next (a ++ p :: x :: (b ++ [z]))) :
    Circuit (moveFront next p x z) (x :: (a ++ p :: (b ++ [z]))) := by
  obtain ⟨hnd, hv⟩ := h
  have hperm : List.Perm (a ++ p :: x :: (b ++ [z])) (x :: (a ++ p :: (b ++ [z]))) := by
    have hsplit : a ++ p :: x :: (b ++ [z]) = (a ++ [p]) ++ x :: (b ++ [z]) := by simp
    rw [hsplit]
    exact List.perm_middle.trans (by simp)
  refine circuit_cons.mpr ⟨hperm.nodup_iff.mp hnd, ?_⟩
  -- the three cells are different from each other and from all the rest
  have hpx : p ≠ x := by rintro rfl; simp [List.nodup_append] at hnd
  have hpz : p ≠ z := by rintro rfl; simp [List.nodup_append] at hnd
  have hxz : x ≠ z := by rintro rfl; simp [List.nodup_append] at hnd
  have hout : ∀ k, k = p ∨ k = x ∨ k = z → k ∉ a ∧ k ∉ b := by
    intro k hk
    simp only [List.nodup_append, List.nodup_cons, List.mem_cons, List.mem_append] at hnd
    grind
  have hsame : ∀ l w, (∀ k, k = p ∨ k = x ∨ k = z → k ∉ l) →
      (Visits (Lib.moveFront next p x z) l w ↔ Visits next l w) :=
    fun l w hl => visits_moveFront (hl p (.inl rfl)) (hl x (.inr (.inl rfl)))
      (hl z (.inr (.inr rfl)))
  have hc : a.headD p ∈ (a ++ p :: x :: (b ++ [z])).head? := by cases a <;> simp
  obtain ⟨ha, _, hx, hb⟩ := visits_append.mp (hv _ hc)
  obtain ⟨hb, hz, _⟩ := visits_append.mp hb
  refine ⟨?_, visits_append.mpr ⟨?_, ?_, visits_append.mpr ⟨?_, ?_, trivial⟩⟩⟩
  · have hhead : (a ++ p :: (b ++ [z])).headD x = a.headD p := by cases a <;> rfl
    have hx' : Lib.moveFront next p x z x = next z := by simp [Lib.moveFront, hxz, hpz.symm]
    rw [hhead, hx', hz]
    rfl
  · exact (hsame a _ fun k hk => (hout k hk).1).mpr ha
  · have hhead : (b ++ [z]).headD x = (b ++ [z]).headD (a.headD p) := by cases b <;> rfl
    have hp' : Lib.moveFront next p x z p = next x := by simp [Lib.moveFront, hpx, hpz]
    rw [hhead, hp', hx]
  · exact (hsame b _ fun k hk => (hout k hk).2).mpr hb
  · simp [Lib.moveFront]

/-- The search of a `do`-loop: from the cell `lcs` on, the first cell that
passes the test, or else the last cell, with the cell before it. It runs out of
fuel when the last cell is not among those ahead. -/
def ringSearch (next : α → α) (test : α → Bool) (last : α) : Nat → α → Option (Bool × α × α)
  | 0, _ => none
  | fuel + 1, lcs =>
      let cs := next lcs
      if test cs then some (true, lcs, cs)
      else if cs = last then some (false, lcs, cs)
      else ringSearch next test last fuel cs

/-- What the search ends with: the cells ahead of `lcs` are split at the cell
that was found, or `cs` is the last of them and none was. -/
inductive Found (test : α → Bool) (lcs : α) (l : List α) : Bool × α × α → Prop
  | hit {a b : List α} {p x : α} (hl : lcs :: l = a ++ p :: x :: b) (hx : test x = true) :
      Found test lcs l (true, p, x)
  | miss {a : List α} {p z : α} (hl : lcs :: l = a ++ [p, z])
      (ha : ∀ y ∈ l, test y = false) : Found test lcs l (false, p, z)

/-- With fuel for all cells ahead, the search ends. -/
theorem ringSearch_found (test : α → Bool) {last : α} {l : List α} {lcs c : α} {fuel : Nat}
    (hv : Visits next (lcs :: (l ++ [last])) c) (hl : last ∉ l) (hf : l.length < fuel) :
    ∃ r, ringSearch next test last fuel lcs = some r ∧ Found test lcs (l ++ [last]) r := by
  induction l generalizing lcs fuel with
  | nil =>
      obtain ⟨fuel, rfl⟩ : ∃ n, fuel = n + 1 := ⟨fuel - 1, by simp at hf; omega⟩
      have hn : next lcs = last := hv.1
      cases ht : test last with
      | true =>
          exact ⟨(true, lcs, last), by simp [ringSearch, hn, ht],
            .hit (a := []) (b := []) rfl ht⟩
      | false =>
          exact ⟨(false, lcs, last), by simp [ringSearch, hn, ht],
            .miss (a := []) rfl (by simp [ht])⟩
  | cons d l ih =>
      obtain ⟨fuel, rfl⟩ : ∃ n, fuel = n + 1 := ⟨fuel - 1, by simp at hf; omega⟩
      have hn : next lcs = d := hv.1
      rw [List.mem_cons, not_or] at hl
      cases ht : test d with
      | true =>
          exact ⟨(true, lcs, d), by simp [ringSearch, hn, ht],
            .hit (a := []) rfl ht⟩
      | false =>
          have hf' : l.length < fuel := by simp at hf; omega
          obtain ⟨r, hr, hfound⟩ := ih hv.2 hl.2 hf'
          refine ⟨r, ?_, ?_⟩
          · rw [ringSearch, hn]
            simp [ht, Ne.symm hl.1, hr]
          · cases hfound with
            | @hit a b p x he hx =>
                exact .hit (a := lcs :: a) (b := b) (congrArg (lcs :: ·) he) hx
            | @miss a p z he ha =>
                refine .miss (a := lcs :: a) (congrArg (lcs :: ·) he) ?_
                intro y hy
                rcases List.mem_cons.mp hy with rfl | hy
                · exact ht
                · exact ha y hy

/-- The cells in order of use, most recent first, given the order they were in
before anything was used and what was used since, most recent first. -/
def byUse (start : List α) : List α → List α
  | [] => start
  | x :: uses => x :: (byUse start uses).erase x

theorem byUse_perm {start uses : List α} (h : ∀ x ∈ uses, x ∈ start) :
    (byUse start uses).Perm start := by
  induction uses with
  | nil => exact List.Perm.refl _
  | cons x uses ih =>
      have ih' := ih fun y hy => h y (List.mem_cons_of_mem _ hy)
      have hx : x ∈ byUse start uses := ih'.mem_iff.mpr (h x List.mem_cons_self)
      exact (List.perm_cons_erase hx).symm.trans ih'

theorem pairwise_idxOf {l : List α} (h : l.Nodup) :
    l.Pairwise fun a b => l.idxOf a < l.idxOf b := by
  rw [List.pairwise_iff_getElem]
  intro i j hi hj hij
  rw [h.idxOf_getElem, h.idxOf_getElem]
  exact hij

/-- Earlier in the order means used more recently, where a cell that was not used
keeps the place it had at the start. -/
theorem byUse_pairwise {start uses : List α} (hnd : start.Nodup) (h : ∀ x ∈ uses, x ∈ start) :
    (byUse start uses).Pairwise fun a b =>
      (uses ++ start).idxOf a < (uses ++ start).idxOf b := by
  induction uses with
  | nil => exact pairwise_idxOf hnd
  | cons x uses ih =>
      have hmem : ∀ y ∈ uses, y ∈ start := fun y hy => h y (List.mem_cons_of_mem _ hy)
      have hnd' : (byUse start uses).Nodup := (byUse_perm hmem).nodup_iff.mpr hnd
      have hne : ∀ y ∈ (byUse start uses).erase x, x ≠ y := by
        intro y hy hxy
        rw [hnd'.mem_erase_iff] at hy
        exact hy.1 hxy.symm
      rw [byUse, List.pairwise_cons]
      refine ⟨?_, ?_⟩
      · intro y hy
        rw [List.cons_append, List.idxOf_cons_self, List.idxOf_cons_ne _ (hne y hy)]
        omega
      · refine ((ih hmem).sublist List.erase_sublist).imp_of_mem ?_
        intro a b ha hb hab
        rw [List.cons_append, List.idxOf_cons_ne _ (hne a ha), List.idxOf_cons_ne _ (hne b hb)]
        omega

end

end VxWorks.Lib
