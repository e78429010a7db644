import Mathlib.Data.List.TakeWhile

/-!
# Scanning

A string is read up to where a predicate stops, and again from there, and with another
predicate. Where one of the two holds whenever the other does, the scans can be taken in
either order, or one of them left out.
-/

namespace VxWorks.Lib

variable {α : Type*} {p q : α → Bool} {l : List α}

/-- What has been passed over before need not be passed over again. -/
theorem dropWhile_drop {k : Nat} (h : k ≤ (l.takeWhile p).length) :
    (l.drop k).dropWhile p = l.dropWhile p := by
  induction l generalizing k with
  | nil => rw [List.drop_nil]
  | cons a l ih =>
      cases k with
      | zero => rfl
      | succ k =>
          rw [List.takeWhile_cons] at h
          split at h
          · next ha =>
              rw [List.drop_succ_cons, List.dropWhile_cons_of_pos ha]
              exact ih (Nat.le_of_succ_le_succ h)
          · exact absurd h (Nat.not_succ_le_zero k)

theorem dropWhile_dropWhile_of_imp (h : ∀ a, q a = true → p a = true) :
    (l.dropWhile q).dropWhile p = l.dropWhile p := by
  induction l with
  | nil => rfl
  | cons a l ih =>
      cases hq : q a with
      | true => rw [List.dropWhile_cons_of_pos hq, List.dropWhile_cons_of_pos (h a hq), ih]
      | false => rw [List.dropWhile_cons_of_neg (by rw [hq]; decide)]

/-- A search that stops at what `p` stops at does not see what lies behind. -/
theorem dropWhile_takeWhile_comm (h : ∀ a, q a = true → p a = true) :
    (l.takeWhile p).dropWhile q = (l.dropWhile q).takeWhile p := by
  induction l with
  | nil => rfl
  | cons a l ih =>
      cases hq : q a with
      | true =>
          rw [List.takeWhile_cons_of_pos (h a hq), List.dropWhile_cons_of_pos hq,
            List.dropWhile_cons_of_pos hq, ih]
      | false =>
          rw [List.dropWhile_cons_of_neg (by rw [hq]; decide), List.takeWhile_cons]
          split
          · rw [List.dropWhile_cons_of_neg (by rw [hq]; decide)]
          · rfl

theorem takeWhile_takeWhile_of_imp (h : ∀ a, q a = true → p a = true) :
    (l.takeWhile p).takeWhile q = l.takeWhile q := by
  induction l with
  | nil => rfl
  | cons a l ih =>
      cases hq : q a with
      | true =>
          rw [List.takeWhile_cons_of_pos (h a hq), List.takeWhile_cons_of_pos hq,
            List.takeWhile_cons_of_pos hq, ih]
      | false =>
          rw [List.takeWhile_cons_of_neg (p := q) (by rw [hq]; decide), List.takeWhile_cons]
          split
          · rw [List.takeWhile_cons_of_neg (by rw [hq]; decide)]
          · rfl

/-- What lies behind an element that stops the scan is not seen. -/
theorem takeWhile_append_stop {c : α} (h : p c = false) (l m : List α) :
    (l ++ c :: m).takeWhile p = l.takeWhile p := by
  induction l with
  | nil => exact List.takeWhile_cons_of_neg (by rw [h]; decide)
  | cons a l ih =>
      rw [List.cons_append, List.takeWhile_cons, List.takeWhile_cons, ih]

end VxWorks.Lib
