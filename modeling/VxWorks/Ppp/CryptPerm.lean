import Mathlib.Data.Nat.Bitwise
import Mathlib.Tactic.IntervalCases
import VxWorks.Ppp.Crypt

/-!
# Permutations by chunks (crypt.c)

What `permute` makes of a table that `init_perm` has made is the gathering of the bits
that the table was made from, whatever that is (`permute_initPerm`). `init_perm` goes by
the bits of the output, and each of its steps is about one of them; `permute` goes by the
bytes of the input, and each of its steps adds the output bits that come from one of them.
-/

namespace VxWorks.Ppp.Crypt

open VxWorks.Lib

/-- Output bit `k` comes from chunk `i`, from a bit that the value `j` has. -/
def fromChunk (p : Nat → Nat) (k i j : Nat) : Bool :=
  decide (p k ≠ 0) && decide (i = (p k - 1) / 4) && j.testBit ((p k - 1) % 4)

theorem and_one_shiftLeft (j l : Nat) : j &&& 1 <<< l ≠ 0 ↔ j.testBit l = true := by
  rw [Nat.one_shiftLeft, Nat.and_two_pow]
  cases j.testBit l with
  | true => simp
  | false => simp

theorem getLsbD_or_bit (x : CBlock) (n : Nat) {k : Nat} (hk : k < 64) :
    (x ||| 1#64 <<< n).getLsbD k = (x.getLsbD k || decide (k = n)) := by
  rw [BitVec.getLsbD_or, BitVec.getLsbD_shiftLeft, decide_eq_true hk, Bool.true_and,
    BitVec.getLsbD_one]
  congr 1
  by_cases hkn : k = n
  · subst hkn
    simp
  · rw [decide_eq_false hkn]
    by_cases hlt : k < n
    · rw [decide_eq_true hlt]
      rfl
    · rw [decide_eq_false hlt, decide_eq_false (by omega : ¬ k - n = 0), Bool.and_false]
      rfl

theorem getLsbD_initPermStep (p : Nat → Nat) (perm : Nat → Nat → CBlock) (n i j : Nat) {k : Nat}
    (hk : k < 64) :
    (initPermStep p perm n i j).getLsbD k =
      ((perm i j).getLsbD k || (decide (k = n) && fromChunk p n i j)) := by
  rw [initPermStep, fromChunk]
  by_cases hzero : p n = 0
  · rw [if_pos hzero, decide_eq_false (not_not.mpr hzero), Bool.false_and, Bool.false_and,
      Bool.and_false, Bool.or_false]
  · rw [if_neg hzero, decide_eq_true hzero, Bool.true_and]
    have hmask : (p n - 1) &&& 3 = (p n - 1) % 4 := Nat.and_two_pow_sub_one_eq_mod _ 2
    have hshift : (p n - 1) >>> 2 = (p n - 1) / 4 := Nat.shiftRight_eq_div_pow _ 2
    simp only [hmask, hshift, and_one_shiftLeft]
    by_cases hchunk : i = (p n - 1) / 4
    · rw [decide_eq_true hchunk, Bool.true_and]
      cases hbit : j.testBit ((p n - 1) % 4) with
      | true => rw [if_pos ⟨hchunk, rfl⟩, getLsbD_or_bit _ _ hk, Bool.and_true]
      | false =>
          rw [if_neg fun hin => Bool.false_ne_true hin.2, Bool.and_false, Bool.or_false]
    · rw [if_neg fun hin => hchunk hin.1, decide_eq_false hchunk, Bool.false_and, Bool.and_false,
        Bool.or_false]

theorem getLsbD_foldl_initPermStep (p : Nat → Nat) (n i j : Nat) {k : Nat} (hk : k < 64) :
    ((List.range n).foldl (initPermStep p) (fun _ _ => 0#64) i j).getLsbD k =
      (decide (k < n) && fromChunk p k i j) := by
  induction n with
  | zero => simp
  | succ n ih =>
      rw [List.range_succ, List.foldl_append, List.foldl_cons, List.foldl_nil,
        getLsbD_initPermStep _ _ _ _ _ hk, ih]
      by_cases hkn : k = n
      · subst hkn
        simp
      · rw [decide_eq_false hkn, Bool.false_and, Bool.or_false]
        congr 1
        exact decide_eq_decide.mpr ⟨fun h => by omega, fun h => by omega⟩

theorem getLsbD_initPerm (p : Nat → Nat) (i j : Nat) {k : Nat} (hk : k < 64) :
    (initPerm p 8 i j).getLsbD k = fromChunk p k i j := by
  rw [initPerm, getLsbD_foldl_initPermStep p _ i j hk, decide_eq_true hk, Bool.true_and]

/-- The bit that output bit `k` is, in the bytes of the input. -/
def sourceBit (cp : Nat → BitVec 8) (k : Nat) : Bool :=
  decide (k ≠ 0) && (cp ((k - 1) / 8)).getLsbD ((k - 1) % 8)

theorem testBit_lowChunk (t : BitVec 8) {i : Nat} (hi : i < 4) :
    (t &&& 0xf).toNat.testBit i = t.getLsbD i := by
  rw [BitVec.testBit_toNat, BitVec.getLsbD_and]
  interval_cases i <;> simp

theorem testBit_highChunk (t : BitVec 8) (i : Nat) :
    (t >>> 4).toNat.testBit i = t.getLsbD (4 + i) := by
  rw [BitVec.testBit_toNat, BitVec.getLsbD_ushiftRight]

/-- The two chunks of a byte have its bits. -/
theorem fromChunk_byte (p : Nat → Nat) (k c : Nat) (t : BitVec 8) :
    (fromChunk p k (2 * c) (t &&& 0xf).toNat || fromChunk p k (2 * c + 1) (t >>> 4).toNat) =
      (decide (p k ≠ 0) && (decide ((p k - 1) / 8 = c) && t.getLsbD ((p k - 1) % 8))) := by
  rw [fromChunk, fromChunk, testBit_lowChunk t (Nat.mod_lt _ (by decide)), testBit_highChunk]
  generalize p k - 1 = l
  by_cases hc : l / 8 = c
  · rw [decide_eq_true hc, Bool.true_and]
    by_cases hlow : 2 * c = l / 4
    · have hbit : l % 8 = l % 4 := by omega
      rw [decide_eq_true hlow, decide_eq_false (by omega : ¬ 2 * c + 1 = l / 4), hbit]
      simp
    · have hbit : l % 8 = 4 + l % 4 := by omega
      rw [decide_eq_false hlow, decide_eq_true (by omega : 2 * c + 1 = l / 4), hbit]
      simp
  · rw [decide_eq_false hc, decide_eq_false (by omega : ¬ 2 * c = l / 4),
      decide_eq_false (by omega : ¬ 2 * c + 1 = l / 4)]
    simp

theorem getLsbD_permute (p : Nat → Nat) (cp : Nat → BitVec 8) (n : Nat) {k : Nat} (hk : k < 64) :
    (permute cp (initPerm p 8) n).getLsbD k =
      (decide ((p k - 1) / 8 < n) && sourceBit cp (p k)) := by
  induction n with
  | zero => simp [permute]
  | succ n ih =>
      rw [permute, List.range_succ, List.foldl_append, List.foldl_cons, List.foldl_nil, ← permute,
        BitVec.getLsbD_or, BitVec.getLsbD_or, getLsbD_initPerm _ _ _ hk, getLsbD_initPerm _ _ _ hk,
        ih, Bool.or_assoc, fromChunk_byte, sourceBit]
      by_cases hn : (p k - 1) / 8 = n
      · subst hn
        simp
      · rw [decide_eq_false hn, Bool.false_and, Bool.and_false, Bool.or_false]
        congr 1
        exact decide_eq_decide.mpr ⟨fun h => by omega, fun h => by omega⟩

/-- Where no position is past the bytes of the input, `permute` is the gathering that the
table was made for. -/
theorem permute_initPerm {p : Nat → Nat} (cp : Nat → BitVec 8) {n : Nat}
    (hp : ∀ k < 64, p k ≤ 8 * n) (hn : 0 < n) :
    permute cp (initPerm p 8) n = ofBits 64 fun k => sourceBit cp (p k) := by
  apply eq_ofBits
  intro k hk
  have hle := hp k hk
  rw [getLsbD_permute p cp n hk, decide_eq_true (by omega : (p k - 1) / 8 < n), Bool.true_and]

theorem getLsbD_blockB (x : CBlock) (j : Nat) {i : Nat} (hi : i < 8) :
    (blockB x j).getLsbD i = x.getLsbD (8 * j + i) := by
  rw [blockB, BitVec.getLsbD_extractLsb', decide_eq_true hi, Bool.true_and]

theorem sourceBit_blockB (x : CBlock) (k : Nat) : sourceBit (blockB x) k = bitAt x k := by
  rw [sourceBit, bitAt, getLsbD_blockB _ _ (Nat.mod_lt _ (by decide)), Nat.div_add_mod]

/-- On the bytes of a block. -/
theorem permute_block {p : Nat → Nat} (hp : ∀ k < 64, p k ≤ 64) (x : CBlock) :
    permute (blockB x) (initPerm p 8) 8 = gather 64 p x := by
  rw [permute_initPerm (blockB x) hp (by decide)]
  apply ofBits_congr
  intro k _
  exact sourceBit_blockB x (p k)

end VxWorks.Ppp.Crypt
