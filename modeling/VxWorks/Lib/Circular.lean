import Mathlib.Data.List.Basic
import Mathlib.Data.Nat.ModEq
import Mathlib.Logic.Function.Basic

/-!
# A queue in a circular array

A queue lies in `n` cells that are used in a circle: its first message in the cell
`first`, the others in the cells that follow, and after the last cell comes the first
one. `Circular cells n first l` says that the queue is `l`. There are two ways to change
it. A message written into the cell behind the last one touches none of the others and
lengthens the queue, as long as there is a cell free; taking the first one moves `first`.
-/

namespace VxWorks.Lib

variable {α : Type*} {cells : Nat → α} {n first : Nat} {l : List α} {a : α}

/-- The cells from `first` on, in a circle of `n`, hold `l`. -/
structure Circular (cells : Nat → α) (n first : Nat) (l : List α) : Prop where
  fits : l.length ≤ n
  holds : ∀ i a, l[i]? = some a → cells ((first + i) % n) = a

theorem circular_nil (cells : Nat → α) (n first : Nat) : Circular cells n first [] :=
  ⟨Nat.zero_le n, fun _ _ h => by cases h⟩

/-- Less than a circle apart, no two of the cells are the same. -/
theorem circle_ne {i j : Nat} (hij : i < j) (hj : j < n) : (first + i) % n ≠ (first + j) % n := by
  intro h
  have hmod : i % n = j % n := Nat.ModEq.add_left_cancel' first h
  rw [Nat.mod_eq_of_lt (hij.trans hj), Nat.mod_eq_of_lt hj] at hmod
  exact absurd hmod hij.ne

/-- The cell behind the queue is none of its own. -/
theorem Circular.write (h : Circular cells n first l) (hfree : l.length < n) (a : α) :
    Circular (Function.update cells ((first + l.length) % n) a) n first l where
  fits := h.fits
  holds i b hb := by
    obtain ⟨hi, -⟩ := List.getElem?_eq_some_iff.mp hb
    rw [Function.update_of_ne (circle_ne hi hfree)]
    exact h.holds i b hb

theorem Circular.push (h : Circular cells n first l) (hfree : l.length < n)
    (ha : cells ((first + l.length) % n) = a) : Circular cells n first (l ++ [a]) where
  fits := by
    rw [List.length_append]
    exact hfree
  holds i b hb := by
    rw [List.getElem?_append] at hb
    split at hb
    · exact h.holds i b hb
    · next hge =>
        obtain ⟨hi, rfl⟩ := List.getElem?_eq_some_iff.mp hb
        have hi' : i - l.length < 1 := hi
        obtain rfl : i = l.length := by omega
        simpa using ha

theorem Circular.head (h : Circular cells n first (a :: l)) (hfirst : first < n) :
    cells first = a := by
  have hcell := h.holds 0 a rfl
  rwa [Nat.add_zero, Nat.mod_eq_of_lt hfirst] at hcell

theorem Circular.pop (h : Circular cells n first (a :: l)) :
    Circular cells n ((first + 1) % n) l where
  fits := (Nat.le_succ _).trans h.fits
  holds i b hb := by
    have hcell := h.holds (i + 1) b hb
    rwa [Nat.mod_add_mod, Nat.add_assoc, Nat.add_comm 1 i]

/-- The cell behind the queue, when the first message is gone. -/
theorem circle_tail (n first k : Nat) : ((first + 1) % n + k) % n = (first + (k + 1)) % n := by
  rw [Nat.mod_add_mod, Nat.add_assoc, Nat.add_comm 1 k]

end VxWorks.Lib
