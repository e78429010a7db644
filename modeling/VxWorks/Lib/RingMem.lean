import Mathlib.Data.List.Basic
import Mathlib.Data.Nat.ModEq

/-!
# A memory region used as a ring

Cells `lo` to `hi - 1` of a memory, where the cell after the last one is the
first. A block is written or read cell by cell from any place and may run over
the end. Positions are counted without wrapping, so that a block written later
has the larger position; `cellAt` says which cell a position is. Two positions
less than one turn apart are different cells, and that is all a reader needs:
what it reads is untouched by whatever is written within the turn that starts
where it reads.
-/

namespace VxWorks.Lib

variable {α : Type*} {lo hi : Nat}

/-- The cell after `a`. -/
def nextCell (lo hi a : Nat) : Nat := if a + 1 = hi then lo else a + 1

def setCell (m : Nat → α) (a : Nat) (x : α) : Nat → α := fun b => if b = a then x else m b

def readRing (lo hi : Nat) (m : Nat → α) : Nat → Nat → List α
  | _, 0 => []
  | a, n + 1 => m a :: readRing lo hi m (nextCell lo hi a) n

def writeRing (lo hi : Nat) (m : Nat → α) : Nat → List α → Nat → α
  | _, [] => m
  | a, x :: xs => writeRing lo hi (setCell m a x) (nextCell lo hi a) xs

/-- The cell at position `v`, counted from `lo` on without wrapping. -/
def cellAt (lo hi v : Nat) : Nat := lo + v % (hi - lo)

theorem nextCell_cellAt (h : lo < hi) (v : Nat) :
    nextCell lo hi (cellAt lo hi v) = cellAt lo hi (v + 1) := by
  have hlt : v % (hi - lo) < hi - lo := Nat.mod_lt v (by omega)
  unfold nextCell cellAt
  by_cases hlast : v % (hi - lo) + 1 = hi - lo
  · have hzero : (v + 1) % (hi - lo) = 0 := by
      rw [← Nat.mod_add_mod, hlast, Nat.mod_self]
    rw [hzero, if_pos (by omega), Nat.add_zero]
  · have hsucc : (v + 1) % (hi - lo) = v % (hi - lo) + 1 := by
      rw [← Nat.mod_add_mod, Nat.mod_eq_of_lt (by omega)]
    rw [hsucc, if_neg (by omega), Nat.add_assoc]

/-- Positions less than a turn apart are different cells. -/
theorem cellAt_ne {v w : Nat} (hlt : v < w) (hturn : w < v + (hi - lo)) :
    cellAt lo hi w ≠ cellAt lo hi v := by
  intro heq
  have hmod : v % (hi - lo) = w % (hi - lo) := by
    simp only [cellAt] at heq
    omega
  have hdvd : hi - lo ∣ w - v := (Nat.modEq_iff_dvd' hlt.le).mp hmod
  have := Nat.le_of_dvd (by omega) hdvd
  omega

@[simp] theorem readRing_length (m : Nat → α) (a n : Nat) :
    (readRing lo hi m a n).length = n := by
  induction n generalizing a with
  | zero => rfl
  | succ n ih => simp [readRing, ih]

theorem readRing_add (m : Nat → α) (h : lo < hi) (v n k : Nat) :
    readRing lo hi m (cellAt lo hi v) (n + k) =
      readRing lo hi m (cellAt lo hi v) n ++ readRing lo hi m (cellAt lo hi (v + n)) k := by
  induction n generalizing v with
  | zero => simp [readRing]
  | succ n ih =>
      rw [Nat.add_right_comm, readRing, readRing, nextCell_cellAt h, ih, List.cons_append,
        Nat.add_right_comm v 1 n, Nat.add_assoc v n 1]

/-- What is read is what the cells along the way hold. -/
theorem readRing_congr (h : lo < hi) {m m' : Nat → α} {v n : Nat}
    (hm : ∀ i < n, m (cellAt lo hi (v + i)) = m' (cellAt lo hi (v + i))) :
    readRing lo hi m (cellAt lo hi v) n = readRing lo hi m' (cellAt lo hi v) n := by
  induction n generalizing v with
  | zero => rfl
  | succ n ih =>
      rw [readRing, readRing, nextCell_cellAt h]
      congr 1
      · exact hm 0 (by omega)
      · apply ih
        intro i hi
        have := hm (i + 1) (by omega)
        rwa [show v + (i + 1) = v + 1 + i by omega] at this

theorem writeRing_apart (h : lo < hi) {m : Nat → α} {v b : Nat} {xs : List α}
    (hb : ∀ i < xs.length, b ≠ cellAt lo hi (v + i)) :
    writeRing lo hi m (cellAt lo hi v) xs b = m b := by
  induction xs generalizing m v with
  | nil => rfl
  | cons x xs ih =>
      rw [writeRing, nextCell_cellAt h, ih]
      · exact if_neg (hb 0 (by simp))
      · intro i hi
        have := hb (i + 1) (by simpa using hi)
        rwa [show v + (i + 1) = v + 1 + i by omega] at this

/-- A block that fits into one turn reads back. -/
theorem readRing_writeRing (h : lo < hi) {m : Nat → α} {v : Nat} {xs : List α}
    (hfit : xs.length ≤ hi - lo) :
    readRing lo hi (writeRing lo hi m (cellAt lo hi v) xs) (cellAt lo hi v) xs.length = xs := by
  induction xs generalizing m v with
  | nil => rfl
  | cons x xs ih =>
      rw [List.length_cons] at hfit
      rw [List.length_cons, readRing, writeRing, nextCell_cellAt h, ih (by omega),
        writeRing_apart h]
      · simp [setCell]
      · intro i hi
        exact (cellAt_ne (by omega) (by omega)).symm

/-- A block survives what is written behind it within the same turn. -/
theorem readRing_writeRing_behind (h : lo < hi) {m : Nat → α} {v w n : Nat} {xs : List α}
    (hbehind : v + n ≤ w) (hturn : w + xs.length ≤ v + (hi - lo)) :
    readRing lo hi (writeRing lo hi m (cellAt lo hi w) xs) (cellAt lo hi v) n =
      readRing lo hi m (cellAt lo hi v) n := by
  apply readRing_congr h
  intro i hi
  apply writeRing_apart h
  intro j hj
  exact (cellAt_ne (by omega) (by omega)).symm

end VxWorks.Lib
