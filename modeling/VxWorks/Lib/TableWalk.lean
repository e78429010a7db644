import Mathlib.Data.List.Basic
import Mathlib.Data.List.Find

/-!
# Walks through a table

A table is read by asking for the row after a row, again and again, until there is none.
The table may answer from a fresh copy of itself each time, so the answer may depend on
which question it is. A walk through a list that is in the order of the questions meets
every row; and whatever the table answers from, the rows of a walk stand in an order that
each answer respects.
-/

namespace VxWorks.Lib

variable {α ι : Type*} {next : Nat → ι → Option α} {back : α → ι}

/-- The walk that asks its `k`th question at `i` visits these rows and comes to an end. -/
def Walks (next : Nat → ι → Option α) (back : α → ι) : Nat → ι → List α → Prop
  | k, i, [] => next k i = none
  | k, i, x :: xs => next k i = some x ∧ Walks next back (k + 1) (back x) xs

theorem find?_eq_head? {p : α → Bool} {xs : List α} (h : ∀ x ∈ xs, p x = true) :
    xs.find? p = xs.head? := by
  cases xs with
  | nil => rfl
  | cons x xs => rw [List.find?_cons, h x List.mem_cons_self, List.head?_cons]

/-- What a search finds among rows that are all there. -/
theorem find?_contains [DecidableEq α] (p : α → Bool) {xs live : List α}
    (h : ∀ x ∈ xs, x ∈ live) :
    (xs.find? fun x => p x && live.contains x) = xs.find? p := by
  refine List.find?_congr fun x hx => ?_
  rw [List.contains_iff_mem.mpr (h x hx), Bool.and_true]

theorem find?_after {after : α → α → Bool} (hasymm : ∀ a b, after a b = true → after b a = false)
    {pre suf : List α} {x : α} (h : (pre ++ x :: suf).Pairwise fun a b => after a b = true) :
    (pre ++ x :: suf).find? (after x) = suf.head? := by
  obtain ⟨-, hsuf, hcross⟩ := List.pairwise_append.mp h
  have hself : after x x = false := by
    cases hx : after x x with
    | false => rfl
    | true => exact hx.symm.trans (hasymm x x hx)
  have hpre : pre.find? (after x) = none := by
    refine List.find?_eq_none.mpr fun p hp => ?_
    rw [hasymm p x (hcross p hp x List.mem_cons_self)]
    exact Bool.false_ne_true
  rw [List.find?_append, hpre, Option.none_or, List.find?_cons, hself]
  cases suf with
  | nil => rfl
  | cons y suf =>
      have hy := (List.pairwise_cons.mp hsuf).1 y List.mem_cons_self
      simp [hy]

/-- A table that answers from a list in the order of the questions is walked to its end. -/
theorem walks_of_pairwise {after : α → α → Bool}
    (hasymm : ∀ a b, after a b = true → after b a = false) {ys : List α}
    (hys : ys.Pairwise fun a b => after a b = true)
    (hnext : ∀ k a, next k (back a) = ys.find? (after a)) {k : Nat} {i : ι}
    (hstart : next k i = ys.head?) : Walks next back k i ys := by
  have hall : ∀ suf pre k i, pre ++ suf = ys → next k i = suf.head? →
      Walks next back k i suf := by
    intro suf
    induction suf with
    | nil => exact fun _ _ _ _ hhead => hhead
    | cons x suf ih =>
        intro pre k i heq hhead
        refine ⟨hhead, ih (pre ++ [x]) (k + 1) (back x) ?_ ?_⟩
        · rw [List.append_assoc]
          exact heq
        · rw [← heq] at hys
          rw [hnext, ← heq]
          exact find?_after hasymm hys
  exact hall ys [] k i rfl hstart

/-- What holds of the first row and passes to the row after a row holds of all rows. -/
theorem Walks.forall {P : α → Prop} {k : Nat} {i : ι} {ys : List α}
    (h : Walks next back k i ys) (hstart : ∀ x, next k i = some x → P x)
    (hnext : ∀ j a b, P a → next j (back a) = some b → P b) : ∀ y ∈ ys, P y := by
  induction ys generalizing k i with
  | nil => exact fun y hy => absurd hy (List.not_mem_nil)
  | cons x ys ih =>
      obtain ⟨hx, hrest⟩ := h
      have hPx := hstart x hx
      intro y hy
      rcases List.mem_cons.mp hy with rfl | hy
      · exact hPx
      · exact ih hrest (fun z hz => hnext _ x z hPx hz) y hy

theorem Walks.pairwise {R : α → α → Prop} (htrans : ∀ a b c, R a b → R b c → R a c)
    (hnext : ∀ j a b, next j (back a) = some b → R a b) {k : Nat} {i : ι} {ys : List α}
    (h : Walks next back k i ys) : ys.Pairwise R := by
  induction ys generalizing k i with
  | nil => exact .nil
  | cons x ys ih =>
      refine .cons ?_ (ih h.2)
      exact h.2.forall (fun z hz => hnext _ x z hz)
        (fun j a b ha hab => htrans x a b ha (hnext j a b hab))

end VxWorks.Lib
