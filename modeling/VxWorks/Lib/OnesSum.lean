import Mathlib.Data.Nat.ModEq
import Mathlib.Tactic.Ring

/-!
# One's-complement sums

Adding 16-bit words with the carry brought round is adding modulo 65535, but for
one thing: a sum of words that are not all zero is never zero, it is 65535. So
two numbers stand for the same sum when they leave the same rest and are zero
together. The relation is kept by addition, by folding a large number to its two
halves and by exchanging the octets of a word, which is multiplication by 256;
and it determines a number that is at most 65535. A program that puts the folds
and exchanges off, in whatever order, is proved right by it.
-/

namespace VxWorks.Lib

/-- The two numbers stand for the same one's-complement sum. -/
def OnesEq (x y : Nat) : Prop := x % 65535 = y % 65535 ∧ (x = 0 ↔ y = 0)

/-- Addition with the carry brought round. -/
def onesAdd (x y : Nat) : Nat := if 65535 < x + y then x + y - 65535 else x + y

/-- The sum of a list of words. -/
def onesSum (l : List Nat) : Nat := l.foldl onesAdd 0

/-- The octets of a word exchanged. -/
def swap16 (x : Nat) : Nat := x % 256 * 256 + x / 256

section

variable {x y z x' y' : Nat}

@[refl] theorem OnesEq.refl (x : Nat) : OnesEq x x := ⟨rfl, Iff.rfl⟩

@[symm] theorem OnesEq.symm (h : OnesEq x y) : OnesEq y x := ⟨h.1.symm, h.2.symm⟩

theorem OnesEq.trans (h : OnesEq x y) (h' : OnesEq y z) : OnesEq x z :=
  ⟨h.1.trans h'.1, h.2.trans h'.2⟩

theorem OnesEq.add (h : OnesEq x x') (h' : OnesEq y y') : OnesEq (x + y) (x' + y') := by
  obtain ⟨hmod, hzero⟩ := h
  obtain ⟨hmod', hzero'⟩ := h'
  exact ⟨Nat.ModEq.add hmod hmod', by omega⟩

theorem OnesEq.mul_left (h : OnesEq x y) (k : Nat) : OnesEq (k * x) (k * y) := by
  refine ⟨Nat.ModEq.mul_left k h.1, ?_⟩
  rw [Nat.mul_eq_zero, Nat.mul_eq_zero, h.2]

/-- A sum is determined once it is a word. -/
theorem OnesEq.eq (h : OnesEq x y) (hx : x ≤ 65535) (hy : y ≤ 65535) : x = y := by
  obtain ⟨hmod, hzero⟩ := h
  omega

/-- Two exchanges of the octets. -/
theorem onesEq_mul_65536 (x : Nat) : OnesEq (65536 * x) x := ⟨by omega, by omega⟩

/-- The two halves of a number. -/
theorem onesEq_fold (x : Nat) : OnesEq (x % 65536 + x / 65536) x := ⟨by omega, by omega⟩

theorem onesEq_carry (h : 65535 < x) : OnesEq (x - 65535) x := ⟨by omega, by omega⟩

theorem onesEq_onesAdd (x y : Nat) : OnesEq (onesAdd x y) (x + y) := by
  rw [onesAdd]
  split_ifs with h
  · exact onesEq_carry h
  · exact .refl _

theorem onesAdd_le (hx : x ≤ 65535) (hy : y ≤ 65535) : onesAdd x y ≤ 65535 := by
  rw [onesAdd]
  split_ifs <;> omega

theorem swap16_le (h : x ≤ 65535) : swap16 x ≤ 65535 := by
  rw [swap16]
  omega

theorem onesEq_swap16 (x : Nat) : OnesEq (swap16 x) (256 * x) := by
  rw [swap16]
  exact ⟨by omega, by omega⟩

/-- The complement of a word with its octets exchanged. -/
theorem swap16_sub (h : x ≤ 65535) : swap16 (65535 - x) = 65535 - swap16 x := by
  rw [swap16, swap16]
  omega

end

theorem foldl_onesAdd (l : List Nat) (x : Nat) : OnesEq (l.foldl onesAdd x) (x + l.sum) := by
  induction l generalizing x with
  | nil => exact .refl x
  | cons y l ih =>
      rw [List.foldl_cons, List.sum_cons, ← Nat.add_assoc]
      exact (ih _).trans ((onesEq_onesAdd x y).add (.refl _))

theorem onesEq_onesSum (l : List Nat) : OnesEq (onesSum l) l.sum := by
  have h := foldl_onesAdd l 0
  rwa [Nat.zero_add] at h

theorem onesSum_le {l : List Nat} (h : ∀ x ∈ l, x ≤ 65535) : onesSum l ≤ 65535 := by
  have hfold : ∀ (l : List Nat) (x : Nat), x ≤ 65535 → (∀ y ∈ l, y ≤ 65535) →
      l.foldl onesAdd x ≤ 65535 := by
    intro l
    induction l with
    | nil => exact fun x hx _ => hx
    | cons y l ih =>
        intro x hx hl
        exact ih _ (onesAdd_le hx (hl y List.mem_cons_self)) fun z hz =>
          hl z (List.mem_cons_of_mem y hz)
  exact hfold l 0 (Nat.zero_le _) h

end VxWorks.Lib
