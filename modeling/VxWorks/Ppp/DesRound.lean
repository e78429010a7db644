import Mathlib.Tactic.IntervalCases
import VxWorks.Ppp.CryptPerm
import VxWorks.Ppp.Des

/-!
# One round of DES (crypt.c)

`six` spreads 48 bits over eight bytes, above two bits that are zero, and a half of a block
is kept as the spread of its expansion. Everything in a round is linear in this form but
the S boxes. An entry of `SPE` is the spread of the expansion of what one S box leaves in
the permutation P (`store_spe`), so the eight entries that a round adds up are that of all
S boxes (`foldl_doxor`), and a `CRUNCH` is a round of the plain cipher (`crunch_eq`).
-/

namespace VxWorks.Ppp.Crypt

open VxWorks.Lib

/-- 48 bits in 8*(6+2) form. -/
def six (x : BitVec 48) : CBlock :=
  ofBits 64 fun k => decide (2 ≤ k % 8) && x.getLsbD (6 * (k / 8) + (k % 8 - 2))

theorem getLsbD_six (x : BitVec 48) {k : Nat} (hk : k < 64) :
    (six x).getLsbD k = (decide (2 ≤ k % 8) && x.getLsbD (6 * (k / 8) + (k % 8 - 2))) :=
  getLsbD_ofBits_lt _ hk

theorem six_xor (x y : BitVec 48) : six (x ^^^ y) = six x ^^^ six y := by
  rw [six, six, six, ofBits_xor]
  apply ofBits_congr
  intro k _
  rw [BitVec.getLsbD_xor, Bool.and_xor_distrib_left]

theorem store_blocks (x : CBlock) : store (blockI0 x) (blockI1 x) = x :=
  @BitVec.extractLsb'_append_extractLsb' 32 32 x

theorem getLsbD_blockI0 (x : CBlock) {k : Nat} (hk : k < 32) :
    (blockI0 x).getLsbD k = x.getLsbD k := by
  rw [blockI0, BitVec.getLsbD_extractLsb', decide_eq_true hk, Bool.true_and, Nat.zero_add]

theorem getLsbD_blockI1 (x : CBlock) {k : Nat} (hk : k < 32) :
    (blockI1 x).getLsbD k = x.getLsbD (32 + k) := by
  rw [blockI1, BitVec.getLsbD_extractLsb', decide_eq_true hk, Bool.true_and]

theorem getLsbD_store (a b : BitVec 32) (k : Nat) :
    (store a b).getLsbD k = if k < 32 then a.getLsbD k else b.getLsbD (k - 32) := by
  rw [store, BitVec.getLsbD_append]

/-- Two blocks are the same when their integers are. -/
theorem store_eq {a b : BitVec 32} {x : CBlock} (h0 : ∀ k < 32, a.getLsbD k = x.getLsbD k)
    (h1 : ∀ k < 32, b.getLsbD k = x.getLsbD (32 + k)) : store a b = x := by
  apply BitVec.eq_of_getLsbD_eq
  intro k hk
  rw [getLsbD_store]
  split
  · next hlow => exact h0 k hlow
  · next hhigh => rw [h1 _ (by omega), Nat.add_sub_cancel' (by omega)]

theorem store_xor (a b c d : BitVec 32) : store a b ^^^ store c d = store (a ^^^ c) (b ^^^ d) := by
  symm
  apply store_eq
  · intro k hk
    rw [BitVec.getLsbD_xor, BitVec.getLsbD_xor, getLsbD_store, getLsbD_store, if_pos hk, if_pos hk]
  · intro k hk
    rw [BitVec.getLsbD_xor, BitVec.getLsbD_xor, getLsbD_store, getLsbD_store,
      if_neg (by omega), if_neg (by omega), Nat.add_sub_cancel_left]

/-! ## Six bits to a byte -/

theorem sixMask_bit : ∀ k < 32, (0x3f3f3f3f : BitVec 32).getLsbD k = decide (k % 8 < 6) := by
  decide

theorem getLsbD_append_low {n m : Nat} (x : BitVec n) (y : BitVec m) {k : Nat} (hk : k < m) :
    (x ++ y).getLsbD k = y.getLsbD k := by
  rw [BitVec.getLsbD_append, if_pos hk]

theorem getLsbD_append_high {n m : Nat} (x : BitVec n) (y : BitVec m) (k : Nat) :
    (x ++ y).getLsbD (m + k) = x.getLsbD k := by
  rw [BitVec.getLsbD_append, if_neg (by omega), Nat.add_sub_cancel_left]

/-- The bytes of an integer, from the low end. -/
theorem getLsbD_bytes (b : Nat → BitVec 8) {j r : Nat} (hj : j < 4) (hr : r < 8) :
    (b 3 ++ b 2 ++ b 1 ++ b 0 : BitVec 32).getLsbD (8 * j + r) = (b j).getLsbD r := by
  interval_cases j
  · rw [Nat.mul_zero, Nat.zero_add, getLsbD_append_low _ _ hr]
  · rw [getLsbD_append_high, getLsbD_append_low _ _ hr]
  · rw [show 8 * 2 + r = 8 + (8 + r) by omega, getLsbD_append_high, getLsbD_append_high,
      getLsbD_append_low _ _ hr]
  · rw [show 8 * 3 + r = 8 + (8 + (8 + r)) by omega, getLsbD_append_high, getLsbD_append_high,
      getLsbD_append_high]

/-- Byte `j` of the bytes that `TO_SIX_BIT` fills in. -/
def cvtB (src : BitVec 32) (j : Nat) : BitVec 8 := (src.sshiftRight (6 * j)).setWidth 8

theorem getLsbD_cvtB (src : BitVec 32) {j r : Nat} (hj : j < 4) (hr : r < 8) :
    (cvtB src j).getLsbD r = src.getLsbD (6 * j + r) := by
  rw [cvtB, BitVec.getLsbD_setWidth, decide_eq_true hr, Bool.true_and, BitVec.getLsbD_sshiftRight,
    decide_eq_false (by omega), if_pos (by omega)]
  rfl

theorem toSixBit_cvtB (src : BitVec 32) :
    toSixBit src =
      ((cvtB src 3 ++ cvtB src 2 ++ cvtB src 1 ++ cvtB src 0 : BitVec 32) &&&
        0x3f3f3f3f) <<< 2 := by
  simp only [toSixBit, cvtB, ← BitVec.sshiftRight_add, Nat.mul_zero, BitVec.sshiftRight_zero]

theorem getLsbD_toSixBit (src : BitVec 32) {k : Nat} (hk : k < 32) :
    (toSixBit src).getLsbD k =
      (decide (2 ≤ k % 8) && src.getLsbD (6 * (k / 8) + (k % 8 - 2))) := by
  rw [toSixBit_cvtB, BitVec.getLsbD_shiftLeft, decide_eq_true hk, Bool.true_and]
  by_cases hlow : k < 2
  · rw [decide_eq_true hlow, decide_eq_false (by omega)]
    rfl
  · rw [decide_eq_false hlow, BitVec.getLsbD_and, sixMask_bit _ (by omega)]
    by_cases hsix : 2 ≤ k % 8
    · rw [decide_eq_true hsix, decide_eq_true (by omega), Bool.and_true,
        show k - 2 = 8 * (k / 8) + (k % 8 - 2) by omega,
        getLsbD_bytes (cvtB src) (by omega) (by omega), getLsbD_cvtB src (by omega) (by omega)]
      rfl
    · rw [decide_eq_false hsix, decide_eq_false (by omega), Bool.and_false, Bool.and_false,
        Bool.false_and]

/-! ## The tables `SPE` -/

theorem getLsbD_ofNat_bit {b : Nat} (hb : b < 2) (i : Nat) :
    (BitVec.ofNat 32 b).getLsbD i = (decide (i = 0) && decide (b = 1)) := by
  obtain rfl | rfl : b = 0 ∨ b = 1 := by omega
  · rw [BitVec.getLsbD_zero]
    simp
  · rw [BitVec.getLsbD_one]
    simp

/-- What the loop over the bits of an entry leaves, from the last bit to the first. -/
theorem getLsbD_foldr_bits (f : Nat → Nat) (hf : ∀ i, f i < 2) {n : Nat} (hn : n ≤ 32) (m : Nat) :
    BitVec.getLsbD ((List.range n).foldr (fun i k => k <<< 1 ||| BitVec.ofNat 32 (f i)) 0#32) m =
      (decide (m < n) && decide (f m = 1)) := by
  induction n generalizing f m with
  | zero => simp
  | succ n ih =>
      rw [List.range_succ_eq_map, List.foldr_cons, List.foldr_map, BitVec.getLsbD_or,
        getLsbD_ofNat_bit (hf 0), BitVec.getLsbD_shiftLeft,
        ih (fun i => f (i + 1)) (fun i => hf (i + 1)) (by omega)]
      cases m with
      | zero => simp
      | succ m =>
          rw [decide_eq_false (by omega : ¬ m + 1 < 1), decide_eq_false (by omega : ¬ m + 1 = 0),
            Nat.add_sub_cancel, Bool.false_and, Bool.or_false, Bool.not_false, Bool.and_true]
          by_cases hm : m < n
          · rw [decide_eq_true hm, decide_eq_true (by omega : m + 1 < 32),
              decide_eq_true (by omega : m + 1 < n + 1), Bool.true_and]
          · rw [decide_eq_false hm, decide_eq_false (by omega : ¬ m + 1 < n + 1), Bool.false_and,
              Bool.and_false]

theorem tmp32_lt (tableno j m : Nat) : tmp32 tableno j m < 2 := by
  rw [tmp32]
  split
  · rw [Nat.and_one_is_mod]
    exact Nat.mod_lt _ (by decide)
  · decide

/-- What one S box leaves, in the place of the box. -/
def sWord (tableno j : Nat) : BitVec 32 := ofBits 32 fun m => decide (tmp32 tableno j m = 1)

theorem expandTr_range : ∀ q < 48, expandTr.getD q 0 ≠ 0 ∧ expandTr.getD q 0 - 1 < 32 := by decide

theorem p32Tr_range : ∀ i < 32, p32Tr.getD i 0 ≠ 0 ∧ p32Tr.getD i 0 - 1 < 32 := by decide

theorem getLsbD_expansion (x : BitVec 32) {q : Nat} (hq : q < 48) :
    (expansion x).getLsbD q = x.getLsbD (expandTr.getD q 0 - 1) := by
  rw [expansion, getLsbD_gather_lt _ _ hq, bitAt_of_ne _ (expandTr_range q hq).1]

theorem getLsbD_p32 (x : BitVec 32) {i : Nat} (hi : i < 32) :
    (gather 32 (fun i => p32Tr.getD i 0) x).getLsbD i = x.getLsbD (p32Tr.getD i 0 - 1) := by
  rw [getLsbD_gather_lt _ _ hi, bitAt_of_ne _ (p32Tr_range i hi).1]

theorem getLsbD_spe (h tableno j : Nat) {k : Nat} (hk : k < 32) (hh : h < 2) :
    (spe h tableno j).getLsbD k =
      (six (expansion (gather 32 (fun i => p32Tr.getD i 0) (sWord tableno j)))).getLsbD
        (32 * h + k) := by
  have hmod : (32 * h + k) % 8 = k % 8 := by omega
  have hdiv : (32 * h + k) / 8 = 4 * h + k / 8 := by omega
  rw [spe, getLsbD_toSixBit _ hk, getLsbD_six _ (by omega), hmod, hdiv,
    getLsbD_foldr_bits _ (fun i => tmp32_lt _ _ _) (by decide)]
  by_cases hsix : 2 ≤ k % 8
  · have hq : 6 * (4 * h + k / 8) + (k % 8 - 2) = 6 * (k / 8) + (k % 8 - 2) + 24 * h := by omega
    obtain ⟨-, hE⟩ := expandTr_range (6 * (k / 8) + (k % 8 - 2) + 24 * h) (by omega)
    obtain ⟨-, hP⟩ := p32Tr_range _ hE
    rw [hq, getLsbD_expansion _ (by omega), getLsbD_p32 _ hE, sWord, getLsbD_ofBits_lt _ hP,
      decide_eq_true (by omega : 6 * (k / 8) + (k % 8 - 2) < 24), Bool.true_and]
  · rw [decide_eq_false hsix, Bool.false_and, Bool.false_and]

/-- The entries of both halves of `SPE` are the spread of the expansion of what one S box
leaves in P. -/
theorem store_spe (tableno j : Nat) :
    store (spe 0 tableno j) (spe 1 tableno j) =
      six (expansion (gather 32 (fun i => p32Tr.getD i 0) (sWord tableno j))) := by
  apply store_eq
  · intro k hk
    rw [getLsbD_spe 0 _ _ hk (by decide), Nat.mul_zero, Nat.zero_add]
  · intro k hk
    rw [getLsbD_spe 1 _ _ hk (by decide)]

theorem shiftRight_and_one (v k : Nat) : (v >>> k) &&& 1 = (v.testBit k).toNat := by
  rw [Nat.testBit_eq_decide_div_mod_eq, Nat.and_one_is_mod, Nat.shiftRight_eq_div_pow]
  rcases Nat.mod_two_eq_zero_or_one (v / 2 ^ k) with h | h
  · simp [h]
  · simp [h]

/-- The order of bits into the box is that of the standard. -/
theorem sIndex_eq (j : Nat) :
    ((j >>> 0) &&& 1) <<< 5 ||| ((j >>> 1) &&& 1) <<< 3 ||| ((j >>> 2) &&& 1) <<< 2 |||
        ((j >>> 3) &&& 1) <<< 1 ||| ((j >>> 4) &&& 1) <<< 0 ||| ((j >>> 5) &&& 1) <<< 4 =
      (2 * (j.testBit 0).toNat + (j.testBit 5).toNat) * 16 +
        (8 * (j.testBit 1).toNat + 4 * (j.testBit 2).toNat + 2 * (j.testBit 3).toNat +
          (j.testBit 4).toNat) := by
  have hall : ∀ a b c d e f : Bool, a.toNat <<< 5 ||| b.toNat <<< 3 ||| c.toNat <<< 2 |||
      d.toNat <<< 1 ||| e.toNat <<< 0 ||| f.toNat <<< 4 =
        (2 * a.toNat + f.toNat) * 16 + (8 * b.toNat + 4 * c.toNat + 2 * d.toNat + e.toNat) := by
    decide
  simp only [shiftRight_and_one]
  exact hall _ _ _ _ _ _

/-- And so is the order of bits out of it. -/
theorem sReversed_eq (v : Nat) : ∀ i < 4,
    ((((v >>> 3) &&& 1) <<< 0 ||| ((v >>> 2) &&& 1) <<< 1 ||| ((v >>> 1) &&& 1) <<< 2 |||
      ((v >>> 0) &&& 1) <<< 3) >>> i) &&& 1 = (v.testBit (3 - i)).toNat := by
  have hall : ∀ a b c d : Bool, ∀ i < 4, ((a.toNat <<< 0 ||| b.toNat <<< 1 ||| c.toNat <<< 2 |||
      d.toNat <<< 3) >>> i) &&& 1 = ([a, b, c, d].getD i false).toNat := by
    decide
  intro i hi
  rw [shiftRight_and_one v 3, shiftRight_and_one v 2, shiftRight_and_one v 1,
    shiftRight_and_one v 0, hall _ _ _ _ i hi]
  obtain rfl | rfl | rfl | rfl : i = 0 ∨ i = 1 ∨ i = 2 ∨ i = 3 := by omega
  · rfl
  · rfl
  · rfl
  · rfl

theorem sOut_sBox : ∀ t < 8, ∀ j < 64, ∀ i < 4,
    (sOut t j >>> i) &&& 1 = ((sBox t j.testBit).testBit (3 - i)).toNat := by
  intro t _ j _ i hi
  rw [sOut, sBox, ← sIndex_eq j]
  exact sReversed_eq _ i hi

theorem tmp32_sBox {t j : Nat} (ht : t < 8) (hj : j < 64) (m : Nat) :
    decide (tmp32 t j m = 1) = (decide (m / 4 = t) && (sBox t j.testBit).testBit (3 - m % 4)) := by
  rw [tmp32]
  by_cases hm : m / 4 = t
  · have hi : m - 4 * t = m % 4 := by omega
    rw [if_pos (by omega), decide_eq_true hm, Bool.true_and, hi,
      sOut_sBox t ht j hj _ (Nat.mod_lt _ (by decide))]
    cases (sBox t j.testBit).testBit (3 - m % 4) with
    | true => rfl
    | false => rfl
  · rw [if_neg (by omega), decide_eq_false hm]
    rfl

/-! ## The sum over the boxes -/

/-- The entry that a byte of a spread word selects. -/
theorem testBit_entry (x : BitVec 48) {t j : Nat} (ht : t < 8) (hj : j < 6) :
    ((blockB (six x) t).toNat / 4).testBit j = x.getLsbD (6 * t + j) := by
  have hmod : (8 * t + (j + 2)) % 8 = j + 2 := by omega
  have hdiv : (8 * t + (j + 2)) / 8 = t := by omega
  rw [show (4 : Nat) = 2 ^ 2 from rfl, Nat.testBit_div_two_pow, BitVec.testBit_toNat,
    getLsbD_blockB _ _ (by omega), getLsbD_six _ (by omega), hmod, hdiv,
    decide_eq_true (by omega), Bool.true_and, Nat.add_sub_cancel]

theorem sBox_congr (t : Nat) {b c : Nat → Bool} (h : ∀ j < 6, b j = c j) : sBox t b = sBox t c := by
  rw [sBox, sBox, h 0 (by decide), h 1 (by decide), h 2 (by decide), h 3 (by decide),
    h 4 (by decide), h 5 (by decide)]

/-- The first `n` S boxes. -/
def substitutionUpto (n : Nat) (x : BitVec 48) : BitVec 32 :=
  ofBits 32 fun i => decide (i / 4 < n) && (substitution x).getLsbD i

theorem substitutionUpto_succ {n : Nat} (hn : n < 8) (x : BitVec 48) :
    substitutionUpto (n + 1) x =
      substitutionUpto n x ^^^ sWord n ((blockB (six x) n).toNat / 4) := by
  have hj : (blockB (six x) n).toNat / 4 < 64 := by
    have := (blockB (six x) n).isLt
    omega
  rw [substitutionUpto, substitutionUpto, sWord, ofBits_xor]
  apply ofBits_congr
  intro m hm
  rw [tmp32_sBox hn hj]
  by_cases hbox : m / 4 = n
  · rw [decide_eq_true (by omega), decide_eq_false (by omega), decide_eq_true hbox, Bool.true_and,
      Bool.true_and, Bool.false_and, Bool.false_xor, substitution, getLsbD_ofBits_lt _ hm, hbox,
      sBox_congr n fun j hj6 => (testBit_entry x hn hj6).symm]
  · rw [decide_eq_false hbox, Bool.false_and, Bool.xor_false]
    congr 1
    exact decide_eq_decide.mpr ⟨fun h => by omega, fun h => by omega⟩

theorem substitutionUpto_zero (x : BitVec 48) : substitutionUpto 0 x = 0#32 := by
  apply BitVec.eq_of_getLsbD_eq
  intro i hi
  rw [substitutionUpto, getLsbD_ofBits_lt _ hi, decide_eq_false (Nat.not_lt_zero _),
    Bool.false_and, BitVec.getLsbD_zero]

theorem substitutionUpto_all (x : BitVec 48) : substitutionUpto 8 x = substitution x := by
  apply BitVec.eq_of_getLsbD_eq
  intro i hi
  rw [substitutionUpto, getLsbD_ofBits_lt _ hi, decide_eq_true (by omega), Bool.true_and]

theorem expansion_xor (x y : BitVec 32) : expansion (x ^^^ y) = expansion x ^^^ expansion y :=
  gather_xor _ x y

theorem doxor_eq (b p : CBlock) (t : Nat) :
    doxor b p t =
      p ^^^ store (spe 0 t ((blockB b t).toNat / 4)) (spe 1 t ((blockB b t).toNat / 4)) := by
  conv_rhs => rw [← store_blocks p, store_xor]
  rfl

theorem foldl_doxor (x : BitVec 48) (l : BitVec 32) {n : Nat} (hn : n ≤ 8) :
    (List.range n).foldl (doxor (six x)) (six (expansion l)) =
      six (expansion (l ^^^ gather 32 (fun i => p32Tr.getD i 0) (substitutionUpto n x))) := by
  induction n with
  | zero =>
      rw [substitutionUpto_zero, gather_zero, BitVec.xor_zero]
      rfl
  | succ n ih =>
      rw [List.range_succ, List.foldl_append, List.foldl_cons, List.foldl_nil, ih (by omega),
        doxor_eq, store_spe, ← six_xor, ← expansion_xor, BitVec.xor_assoc, ← gather_xor,
        substitutionUpto_succ (by omega)]

/-! ## A round -/

theorem and_distrib_left : ∀ a b c : Bool, (a && (b && c)) = ((a && b) && (a && c)) := by decide

/-- The selection that the two exclusive ors make. -/
theorem xor_and_xor (a b s : Bool) : (((a ^^ b) && s) ^^ a) = if s = true then b else a := by
  cases s with
  | true => rw [Bool.and_true, if_pos rfl, Bool.xor_comm a b, Bool.xor_assoc, Bool.xor_self,
      Bool.xor_false]
  | false => rw [Bool.and_false, Bool.false_xor, if_neg Bool.false_ne_true]

theorem getLsbD_six_low (x : BitVec 48) {k : Nat} (hk : k < 32) :
    (six x).getLsbD k = (decide (2 ≤ k % 8) && x.getLsbD (6 * (k / 8) + (k % 8 - 2))) :=
  getLsbD_six x (by omega)

theorem getLsbD_six_high (x : BitVec 48) {k : Nat} (hk : k < 32) :
    (six x).getLsbD (32 + k) =
      (decide (2 ≤ k % 8) && x.getLsbD (24 + (6 * (k / 8) + (k % 8 - 2)))) := by
  have hmod : (32 + k) % 8 = k % 8 := by omega
  have hdiv : 6 * ((32 + k) / 8) = 24 + 6 * (k / 8) := by omega
  rw [getLsbD_six x (by omega), hmod, hdiv, Nat.add_assoc]

theorem getLsbD_saltSwap (salt : BitVec 32) (y : BitVec 48) {q : Nat} (hq : q < 24) :
    (saltSwap salt y).getLsbD q = (((y.getLsbD q ^^ y.getLsbD (24 + q)) && salt.getLsbD q) ^^
      y.getLsbD q) ∧
    (saltSwap salt y).getLsbD (24 + q) = (((y.getLsbD q ^^ y.getLsbD (24 + q)) &&
      salt.getLsbD q) ^^ y.getLsbD (24 + q)) := by
  have hmod : (24 + q) % 24 = q := by omega
  have hmod' : (24 + q + 24) % 48 = q := by omega
  constructor
  · rw [saltSwap, getLsbD_ofBits_lt _ (by omega), xor_and_xor, Nat.mod_eq_of_lt hq,
      Nat.mod_eq_of_lt (by omega : q + 24 < 48), Nat.add_comm q 24]
  · rw [saltSwap, getLsbD_ofBits_lt _ (by omega), hmod, hmod', Bool.xor_comm (y.getLsbD q),
      xor_and_xor]

/-- What a `CRUNCH` looks up: salted, and with the key added. -/
theorem salt_crunch (salt : BitVec 32) (y k : BitVec 48) :
    store
        ((blockI0 (six y) ^^^ blockI1 (six y)) &&& toSixBit salt ^^^ blockI0 (six y) ^^^
          blockI0 (six k))
        ((blockI0 (six y) ^^^ blockI1 (six y)) &&& toSixBit salt ^^^ blockI1 (six y) ^^^
          blockI1 (six k)) =
      six (saltSwap salt y ^^^ k) := by
  apply store_eq
  · intro m hm
    obtain ⟨hsalt, -⟩ := getLsbD_saltSwap salt y (by omega : 6 * (m / 8) + (m % 8 - 2) < 24)
    rw [BitVec.getLsbD_xor, BitVec.getLsbD_xor, BitVec.getLsbD_and, BitVec.getLsbD_xor,
      getLsbD_blockI0 _ hm, getLsbD_blockI0 _ hm, getLsbD_blockI1 _ hm, getLsbD_toSixBit _ hm,
      getLsbD_six_low _ hm, getLsbD_six_low _ hm, getLsbD_six_low _ hm, getLsbD_six_high _ hm,
      BitVec.getLsbD_xor, hsalt, ← Bool.and_xor_distrib_left, ← and_distrib_left,
      ← Bool.and_xor_distrib_left, ← Bool.and_xor_distrib_left]
  · intro m hm
    obtain ⟨-, hsalt⟩ := getLsbD_saltSwap salt y (by omega : 6 * (m / 8) + (m % 8 - 2) < 24)
    rw [BitVec.getLsbD_xor, BitVec.getLsbD_xor, BitVec.getLsbD_and, BitVec.getLsbD_xor,
      getLsbD_blockI0 _ hm, getLsbD_blockI1 _ hm, getLsbD_blockI1 _ hm, getLsbD_toSixBit _ hm,
      getLsbD_six_low _ hm, getLsbD_six_high _ hm, getLsbD_six_high _ hm, getLsbD_six_high _ hm,
      BitVec.getLsbD_xor, hsalt, ← Bool.and_xor_distrib_left, ← and_distrib_left,
      ← Bool.and_xor_distrib_left, ← Bool.and_xor_distrib_left]

theorem crunch_eq (salt : BitVec 32) (k : BitVec 48) (l r : BitVec 32) :
    crunch (toSixBit salt) (six k) (six (expansion l)) (six (expansion r)) =
      six (expansion (l ^^^ desF salt k r)) := by
  simp only [crunch]
  rw [salt_crunch, foldl_doxor _ _ (Nat.le_refl 8), substitutionUpto_all, desF]

/-! ## All rounds -/

/-- The two halves as the code keeps them. -/
def spread (s : BitVec 32 × BitVec 32) : CBlock × CBlock :=
  (six (expansion s.1), six (expansion s.2))

theorem crunch_spread (salt : BitVec 32) (k : BitVec 48) (s : BitVec 32 × BitVec 32) :
    crunch (toSixBit salt) (six k) (spread s).1 (spread s).2 =
      (spread (feistelRound (desF salt) s k)).2 :=
  crunch_eq salt k s.1 s.2

/-- Two rounds in each pass of the inner loop. -/
theorem foldl_rounds (salt : BitVec 32) {kp : Nat → CBlock} {K : Nat → BitVec 48}
    (hkp : ∀ i < 16, kp i = six (K i)) (s : BitVec 32 × BitVec 32) {n : Nat} (hn : n ≤ 8) :
    (List.range n).foldl (fun s i =>
        let l := crunch (toSixBit salt) (kp (2 * i)) s.1 s.2
        let r := crunch (toSixBit salt) (kp (2 * i + 1)) s.2 l
        (l, r)) (spread s) =
      spread (((List.range (2 * n)).map K).foldl (feistelRound (desF salt)) s) := by
  induction n with
  | zero => rfl
  | succ n ih =>
      have htwo : List.range (2 * (n + 1)) = List.range (2 * n) ++ [2 * n, 2 * n + 1] := by
        rw [Nat.mul_succ, List.range_succ, List.range_succ, List.append_assoc]
        rfl
      rw [List.range_succ, List.foldl_append, List.foldl_cons, List.foldl_nil, ih (by omega), htwo,
        List.map_append, List.foldl_append]
      generalize ((List.range (2 * n)).map K).foldl (feistelRound (desF salt)) s = t
      have hsnd : crunch (toSixBit salt) (six (K (2 * n + 1))) (spread t).2
          (spread (feistelRound (desF salt) t (K (2 * n)))).2 =
          (spread (feistelRound (desF salt) (feistelRound (desF salt) t (K (2 * n)))
            (K (2 * n + 1)))).2 :=
        crunch_spread salt (K (2 * n + 1)) (feistelRound (desF salt) t (K (2 * n)))
      simp only [hkp _ (by omega : 2 * n < 16), hkp _ (by omega : 2 * n + 1 < 16), crunch_spread,
        hsnd]
      rfl

theorem rounds_eq (salt : BitVec 32) {kp : Nat → CBlock} {K : Nat → BitVec 48}
    (hkp : ∀ i < 16, kp i = six (K i)) (s : BitVec 32 × BitVec 32) :
    rounds (toSixBit salt) kp (spread s) =
      spread (((List.range 16).map K).foldl (feistelRound (desF salt)) s) :=
  foldl_rounds salt hkp s (Nat.le_refl 8)

theorem swapLR_eq (s : CBlock × CBlock) : swapLR s = s.swap := by
  obtain ⟨l, r⟩ := s
  have hr : r ^^^ (l ^^^ r) = l := by
    rw [BitVec.xor_comm l r, ← BitVec.xor_assoc, BitVec.xor_self, BitVec.zero_xor]
  have hl : l ^^^ r ^^^ l = r := by rw [BitVec.xor_comm l r, BitVec.xor_assoc, BitVec.xor_self,
    BitVec.xor_zero]
  simp only [swapLR, hr, hl, Prod.swap_prod_mk]

theorem iterate_rounds (salt : BitVec 32) {kp : Nat → CBlock} {K : Nat → BitVec 48}
    (hkp : ∀ i < 16, kp i = six (K i)) (n : Nat) (s : BitVec 32 × BitVec 32) :
    (fun s => swapLR (rounds (toSixBit salt) kp s))^[n] (spread s) =
      spread ((feistel (desF salt) ((List.range 16).map K))^[n] s) := by
  induction n with
  | zero => rfl
  | succ n ih =>
      rw [Function.iterate_succ_apply', ih, rounds_eq salt hkp, swapLR_eq,
        Function.iterate_succ_apply']
      rfl

end VxWorks.Ppp.Crypt
