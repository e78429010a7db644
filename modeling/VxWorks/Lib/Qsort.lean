import Mathlib.Data.List.Basic
import Mathlib.Data.List.Nodup

/-!
# Sorting by a comparison function

A sort that is given a comparison function can be held to something only where the
function is an order on what is sorted. Where it is one, all sorts agree, on a list
without repetitions; where it is none, a sort may do as it likes as long as it returns
what it was given.
-/

namespace VxWorks.Lib

variable {α : Type*} {cmp : α → α → Int} {xs : List α}

/-- The comparison function is a strict total order on the elements of the list. -/
structure StrictTotalOn (cmp : α → α → Int) (xs : List α) : Prop where
  asymm : ∀ a ∈ xs, ∀ b ∈ xs, cmp a b < 0 → ¬ cmp b a < 0
  trans : ∀ a ∈ xs, ∀ b ∈ xs, ∀ c ∈ xs, cmp a b < 0 → cmp b c < 0 → cmp a c < 0
  total : ∀ a ∈ xs, ∀ b ∈ xs, a ≠ b → cmp a b < 0 ∨ cmp b a < 0

/-- What can be relied on of a sort. -/
structure Sorts (qsort : (α → α → Int) → List α → List α) : Prop where
  perm : ∀ cmp xs, (qsort cmp xs).Perm xs
  sorted : ∀ cmp xs, StrictTotalOn cmp xs → (qsort cmp xs).Pairwise fun a b => ¬ cmp b a < 0

theorem StrictTotalOn.perm {ys : List α} (h : StrictTotalOn cmp xs) (hp : ys.Perm xs) :
    StrictTotalOn cmp ys where
  asymm a ha b hb := h.asymm a (hp.subset ha) b (hp.subset hb)
  trans a ha b hb c hc := h.trans a (hp.subset ha) b (hp.subset hb) c (hp.subset hc)
  total a ha b hb := h.total a (hp.subset ha) b (hp.subset hb)

theorem Sorts.pairwise_lt {qsort : (α → α → Int) → List α → List α} (h : Sorts qsort)
    (ht : StrictTotalOn cmp xs) (hnodup : xs.Nodup) :
    (qsort cmp xs).Pairwise fun a b => cmp a b < 0 := by
  have hp := h.perm cmp xs
  have hne : (qsort cmp xs).Pairwise fun a b => a ≠ b := (hp.nodup_iff).mpr hnodup
  refine ((h.sorted cmp xs ht).and hne).imp_of_mem ?_
  intro a b ha hb hab
  exact (ht.total a (hp.subset ha) b (hp.subset hb) hab.2).resolve_right hab.1

theorem StrictTotalOn.exists_sorted (h : StrictTotalOn cmp xs) :
    ∃ ys : List α, ys.Perm xs ∧ ys.Pairwise fun a b => ¬ cmp b a < 0 := by
  let le : { x // x ∈ xs } → { x // x ∈ xs } → Bool := fun a b => !decide (cmp b.1 a.1 < 0)
  have htrans : ∀ a b c, le a b = true → le b c = true → le a c = true := by
    intro a b c hab hbc
    simp only [le, Bool.not_eq_true', decide_eq_false_iff_not] at hab hbc ⊢
    intro hca
    by_cases heq : a.1 = b.1
    · exact hbc (heq ▸ hca)
    · rcases h.total a.1 a.2 b.1 b.2 heq with hlt | hlt
      · exact hbc (h.trans c.1 c.2 a.1 a.2 b.1 b.2 hca hlt)
      · exact hab hlt
  have htotal : ∀ a b, (le a b || le b a) = true := by
    intro a b
    simp only [le, Bool.or_eq_true, Bool.not_eq_true', decide_eq_false_iff_not]
    by_cases hlt : cmp b.1 a.1 < 0
    · exact .inr (h.asymm b.1 b.2 a.1 a.2 hlt)
    · exact .inl hlt
  refine ⟨(xs.attach.mergeSort le).map Subtype.val, ?_, ?_⟩
  · have hp := (List.mergeSort_perm xs.attach le).map Subtype.val
    rwa [List.attach_map_subtype_val] at hp
  · refine List.Pairwise.map _ ?_ (List.pairwise_mergeSort htrans htotal xs.attach)
    intro a b hab
    simpa only [le, Bool.not_eq_true', decide_eq_false_iff_not] using hab

/-- There is a sort that does what one likes where nothing can be relied on. -/
theorem exists_sorts (other : List α → List α) (hother : ∀ xs, (other xs).Perm xs) :
    ∃ qsort : (α → α → Int) → List α → List α, Sorts qsort ∧
      ∀ cmp xs, ¬ StrictTotalOn cmp xs → qsort cmp xs = other xs := by
  classical
  refine ⟨fun cmp xs => if h : StrictTotalOn cmp xs then h.exists_sorted.choose else other xs,
    ⟨?_, ?_⟩, fun cmp xs h => dif_neg h⟩
  · intro cmp xs
    split
    · exact (StrictTotalOn.exists_sorted ‹_›).choose_spec.1
    · exact hother xs
  · intro cmp xs h
    rw [dif_pos h]
    exact h.exists_sorted.choose_spec.2

end VxWorks.Lib
