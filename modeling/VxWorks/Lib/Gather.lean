import Mathlib.Data.BitVec

/-!
# Bits gathered from a word

A table of bit positions, counted from one, says for each bit of a word which bit of
another word it is; where it has zero the bit is zero. `gather` is the word it makes.
Gathering is linear, and the tables of two gatherings one after the other compose.
-/

namespace VxWorks.Lib

variable {n m l : Nat}

/-- The word with these bits. -/
def ofBits (n : Nat) (f : Nat → Bool) : BitVec n :=
  (BitVec.ofBoolListLE ((List.range n).map f)).setWidth n

theorem getLsbD_ofBits (f : Nat → Bool) (i : Nat) :
    (ofBits n f).getLsbD i = (decide (i < n) && f i) := by
  rw [ofBits, BitVec.getLsbD_setWidth, BitVec.getLsbD_ofBoolListLE, List.getD_eq_getElem?_getD,
    List.getElem?_map]
  by_cases hi : i < n
  · rw [List.getElem?_range hi]
    rfl
  · rw [decide_eq_false hi]
    rfl

theorem getLsbD_ofBits_lt (f : Nat → Bool) {i : Nat} (hi : i < n) :
    (ofBits n f).getLsbD i = f i := by
  rw [getLsbD_ofBits, decide_eq_true hi, Bool.true_and]

/-- A word is these bits when they are its own. -/
theorem eq_ofBits {x : BitVec n} {f : Nat → Bool} (h : ∀ i < n, x.getLsbD i = f i) :
    x = ofBits n f := by
  apply BitVec.eq_of_getLsbD_eq
  intro i hi
  rw [h i hi, getLsbD_ofBits_lt f hi]

theorem ofBits_congr {f g : Nat → Bool} (h : ∀ i < n, f i = g i) : ofBits n f = ofBits n g := by
  apply eq_ofBits
  intro i hi
  rw [getLsbD_ofBits_lt f hi, h i hi]

theorem ofBits_xor (f g : Nat → Bool) :
    ofBits n f ^^^ ofBits n g = ofBits n fun i => f i ^^ g i := by
  apply eq_ofBits
  intro i hi
  rw [BitVec.getLsbD_xor, getLsbD_ofBits_lt f hi, getLsbD_ofBits_lt g hi]

/-- The bit at a position counted from one. -/
def bitAt (x : BitVec n) (k : Nat) : Bool := decide (k ≠ 0) && x.getLsbD (k - 1)

theorem bitAt_zero (x : BitVec n) : bitAt x 0 = false := rfl

theorem bitAt_succ (x : BitVec n) (k : Nat) : bitAt x (k + 1) = x.getLsbD k := by
  rw [bitAt, decide_eq_true (Nat.succ_ne_zero k), Bool.true_and, Nat.add_sub_cancel]

theorem bitAt_of_ne (x : BitVec n) {k : Nat} (hk : k ≠ 0) : bitAt x k = x.getLsbD (k - 1) := by
  rw [bitAt, decide_eq_true hk, Bool.true_and]

def gather (m : Nat) (p : Nat → Nat) (x : BitVec n) : BitVec m := ofBits m fun i => bitAt x (p i)

theorem getLsbD_gather (p : Nat → Nat) (x : BitVec n) (i : Nat) :
    (gather m p x).getLsbD i = (decide (i < m) && bitAt x (p i)) := getLsbD_ofBits _ i

theorem getLsbD_gather_lt (p : Nat → Nat) (x : BitVec n) {i : Nat} (hi : i < m) :
    (gather m p x).getLsbD i = bitAt x (p i) := getLsbD_ofBits_lt _ hi

theorem bitAt_xor (x y : BitVec n) (k : Nat) : bitAt (x ^^^ y) k = (bitAt x k ^^ bitAt y k) := by
  rw [bitAt, bitAt, bitAt, BitVec.getLsbD_xor, Bool.and_xor_distrib_left]

theorem gather_xor (p : Nat → Nat) (x y : BitVec n) :
    gather m p (x ^^^ y) = gather m p x ^^^ gather m p y := by
  rw [gather, gather, gather, ofBits_xor]
  apply ofBits_congr
  intro i _
  exact bitAt_xor x y (p i)

theorem gather_zero (p : Nat → Nat) : gather m p 0#n = 0#m := by
  apply BitVec.eq_of_getLsbD_eq
  intro i _
  rw [getLsbD_gather, bitAt, BitVec.getLsbD_zero, BitVec.getLsbD_zero, Bool.and_false,
    Bool.and_false]

theorem bitAt_gather {p : Nat → Nat} {k : Nat} (hk : k ≤ m) (x : BitVec n) :
    bitAt (gather m p x) k = if k = 0 then false else bitAt x (p (k - 1)) := by
  split
  · next hzero => rw [hzero, bitAt_zero]
  · next hne => rw [bitAt_of_ne _ hne, getLsbD_gather_lt p x (by omega)]

/-- One gathering after another: no position of the second is past the first word. -/
theorem gather_gather {p q : Nat → Nat} (hq : ∀ i < l, q i ≤ m) (x : BitVec n) :
    gather l q (gather m p x) = gather l (fun i => if q i = 0 then 0 else p (q i - 1)) x := by
  apply ofBits_congr
  intro i hi
  show bitAt (gather m p x) (q i) = bitAt x (if q i = 0 then 0 else p (q i - 1))
  rw [bitAt_gather (hq i hi)]
  split
  · rfl
  · rfl

end VxWorks.Lib
