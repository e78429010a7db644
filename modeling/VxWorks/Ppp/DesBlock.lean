import VxWorks.Ppp.DesKeys

/-!
# The optimised cipher and the plain one (crypt.c)

On the way in, the even and the odd bits of the block go through one table, which turns
them around, permutes and expands them: they become the two spread halves that the rounds
are about (`loadLR_eq`). On the way out four bits of each byte are gathered and permuted
(`storeLR_spread`). So `des_cipher` on the schedule of `des_setkey` is the plain cipher as
often as it is told to, and with the number negated it goes back (`desCipher_eq`).
-/

namespace VxWorks.Ppp.Crypt

open VxWorks.Lib

theorem evenMask_bit : ∀ k < 32, (0x55555555 : BitVec 32).getLsbD k = decide (k % 2 = 0) := by
  decide

theorem oddMask_bit : ∀ k < 32, (0xaaaaaaaa : BitVec 32).getLsbD k = decide (k % 2 = 1) := by
  decide

theorem lowMask_bit : ∀ k < 32, (0x0f0f0f0f#32).getLsbD k = decide (k % 8 < 4) := by decide

theorem highMask_bit : ∀ k < 32, (0xf0f0f0f0#32).getLsbD k = decide (4 ≤ k % 8) := by decide

/-! ## The way in -/

/-- Where bit `q` of the even bits comes from (`h` = 0), or of the odd bits (`h` = 1). -/
def pairIdx (h q : Nat) : Nat := (if q % 2 = 1 then q - 1 else 32 + q) + h

theorem getLsbD_evenBits (b : CBlock) {q : Nat} (hq : q < 32) :
    (evenBits b).getLsbD q = b.getLsbD (pairIdx 0 q) := by
  rw [evenBits, pairIdx, BitVec.getLsbD_or, BitVec.getLsbD_shiftLeft, decide_eq_true hq,
    Bool.true_and, BitVec.getLsbD_and, BitVec.getLsbD_and, evenMask_bit q hq,
    evenMask_bit (q - 1) (by omega), getLsbD_blockI1 _ hq, getLsbD_blockI0 _ (by omega)]
  by_cases hodd : q % 2 = 1
  · rw [if_pos hodd, decide_eq_false (by omega), decide_eq_true (by omega),
      decide_eq_false (by omega), Bool.and_false, Bool.or_false, Bool.and_true]
    rfl
  · rw [if_neg hodd, decide_eq_true (by omega : q % 2 = 0), Bool.and_true]
    by_cases hzero : q = 0
    · rw [hzero]
      rfl
    · rw [decide_eq_false (by omega : ¬ (q - 1) % 2 = 0), Bool.and_false, Bool.and_false,
        Bool.false_or]
      rfl

theorem getLsbD_oddBits (b : CBlock) {q : Nat} (hq : q < 32) :
    (oddBits b).getLsbD q = b.getLsbD (pairIdx 1 q) := by
  rw [oddBits, pairIdx, BitVec.getLsbD_or, BitVec.getLsbD_and, BitVec.getLsbD_and,
    oddMask_bit q hq, evenMask_bit q hq, getLsbD_blockI0 _ hq]
  by_cases hodd : q % 2 = 1
  · rw [if_pos hodd, decide_eq_true hodd, decide_eq_false (by omega), Bool.and_true,
      Bool.and_false, Bool.or_false, Nat.sub_add_cancel (by omega)]
  · have hsum : 32 + (1 + q) = 32 + q + 1 := by omega
    rw [if_neg hodd, decide_eq_false hodd, decide_eq_true (by omega), Bool.and_false,
      Bool.false_or, Bool.and_true, BitVec.getLsbD_sshiftRight, decide_eq_false (by omega),
      if_pos (by omega), getLsbD_blockI1 _ (by omega), hsum]
    rfl

/-- The bit of the block that the spread of half `h` asks for in bit `k`. -/
def inputBit (h k : Nat) : Nat :=
  ipTab.getD (32 * h + (expandTr.getD (6 * (k / 8) + (k % 8 - 2)) 0 - 1)) 0

/-- `IE3264` looks it up, from the other end of its byte. -/
theorem iePerm_table : ∀ k < 64,
    iePerm k ≤ 32 ∧ (¬ 2 ≤ k % 8 → iePerm k = 0) ∧
      (2 ≤ k % 8 → iePerm k ≠ 0 ∧ ∀ h < 2, inputBit h k ≠ 0 ∧ inputBit h k ≤ 64 ∧
        pairIdx h (iePerm k - 1) =
          8 * ((inputBit h k - 1) / 8) + (7 - (inputBit h k - 1) % 8)) := by
  decide +kernel

/-- A half of the permuted block. -/
def inputHalf (input : CBlock) (h : Nat) : BitVec 32 :=
  (initialPerm (msbFirst input)).extractLsb' (32 * h) 32

theorem permute_ie3264 (input : CBlock) {h : Nat} (hh : h < 2) {cp : Nat → BitVec 8}
    (hcp : ∀ q < 32, (cp (q / 8)).getLsbD (q % 8) = input.getLsbD (pairIdx h q)) :
    permute cp ie3264 4 = six (expansion (inputHalf input h)) := by
  rw [ie3264, permute_initPerm cp (fun k hk => (iePerm_table k hk).1) (by decide)]
  apply ofBits_congr
  intro k hk
  obtain ⟨hle, hpad, hsix⟩ := iePerm_table k hk
  by_cases hk2 : 2 ≤ k % 8
  · obtain ⟨hne, hsrc⟩ := hsix hk2
    obtain ⟨hpos, hle64, hidx⟩ := hsrc h hh
    obtain ⟨-, hE⟩ := expandTr_range (6 * (k / 8) + (k % 8 - 2)) (by omega)
    rw [sourceBit, decide_eq_true hne, Bool.true_and, hcp _ (by omega), decide_eq_true hk2,
      Bool.true_and, getLsbD_expansion _ (by omega), inputHalf, BitVec.getLsbD_extractLsb',
      decide_eq_true hE, Bool.true_and, initialPerm, getLsbD_gather_lt _ _ (by omega), ← inputBit,
      bitAt_of_ne _ hpos, getLsbD_msbFirst _ (by omega), hidx]
  · rw [hpad hk2, decide_eq_false hk2, Bool.false_and]
    rfl

theorem loadLR_eq (input : CBlock) :
    loadLR input = spread (splitHalves (initialPerm (msbFirst input))) := by
  have heven : permute (blockB (store (evenBits input) (oddBits input))) ie3264 4 =
      six (expansion (inputHalf input 0)) := by
    apply permute_ie3264 input (by decide)
    intro q hq
    rw [getLsbD_blockB _ _ (Nat.mod_lt _ (by decide)), Nat.div_add_mod, getLsbD_store, if_pos hq,
      getLsbD_evenBits _ hq]
  have hodd : permute (fun j => blockB (store (evenBits input) (oddBits input)) (j + 4)) ie3264 4 =
      six (expansion (inputHalf input 1)) := by
    apply permute_ie3264 input (by decide)
    intro q hq
    have hidx : 8 * (q / 8 + 4) + q % 8 = 32 + q := by omega
    rw [getLsbD_blockB _ _ (Nat.mod_lt _ (by decide)), hidx, getLsbD_store, if_neg (by omega),
      Nat.add_sub_cancel_left, getLsbD_oddBits _ hq]
  exact Prod.ext heven hodd

/-! ## The way out -/

/-- The four bits of each byte that are kept, two from either integer. -/
theorem getLsbD_compress (x : CBlock) {m : Nat} (hm : m < 32) :
    (compress (blockI0 x) (blockI1 x)).getLsbD m =
      x.getLsbD (if m % 8 < 4 then m + 3 else 31 + m) := by
  rw [compress, BitVec.getLsbD_or, BitVec.getLsbD_and, BitVec.getLsbD_and, lowMask_bit m hm,
    highMask_bit m hm]
  by_cases hlow : m % 8 < 4
  · rw [if_pos hlow, decide_eq_true hlow, decide_eq_false (by omega), Bool.and_true,
      Bool.and_false, Bool.or_false, BitVec.getLsbD_sshiftRight, decide_eq_false (by omega),
      if_pos (by omega), getLsbD_blockI0 _ (by omega), Nat.add_comm 3 m]
    rfl
  · have hidx : 32 + (m - 1) = 31 + m := by omega
    rw [if_neg hlow, decide_eq_false hlow, decide_eq_true (by omega), Bool.and_false,
      Bool.false_or, Bool.and_true, BitVec.getLsbD_shiftLeft, decide_eq_true hm,
      decide_eq_false (by omega), getLsbD_blockI1 _ (by omega), hidx]
    rfl

/-- `CIFP` numbers the bits that are kept. -/
theorem cifp_table : ∀ m < 32,
    let k := if m % 8 < 4 then m + 3 else 31 + m
    2 ≤ k % 8 ∧ k < 64 ∧ cifp.getD m 0 - 1 = expandTr.getD (6 * (k / 8) + (k % 8 - 2)) 0 - 1 ∧
      cifp.getD (32 + m) 0 - 1 = 32 + (cifp.getD m 0 - 1) := by
  decide

theorem getLsbD_compress_six (x : BitVec 32) {m : Nat} (hm : m < 32) :
    (compress (blockI0 (six (expansion x))) (blockI1 (six (expansion x)))).getLsbD m =
      x.getLsbD (cifp.getD m 0 - 1) := by
  obtain ⟨hsix, hlt, hidx, -⟩ := cifp_table m hm
  rw [getLsbD_compress _ hm, getLsbD_six _ hlt, decide_eq_true hsix, Bool.true_and,
    getLsbD_expansion _ (by omega), hidx]

/-- `CF6464` looks up what `CIFP` has put where the last permutation takes it from. -/
theorem cfPerm_table : ∀ k < 64, cfPerm k ≠ 0 ∧ cfPerm k ≤ 64 ∧
    cifp.getD (cfPerm k - 1) 0 - 1 = ipTab.idxOf (8 * (k / 8) + (7 - k % 8) + 1) := by
  have hall : ∀ k < 64, cfPerm k ≠ 0 ∧ cfPerm k ≤ 64 ∧
      cifp.getD (cfPerm k - 1) 0 - 1 = ipPlace (8 * (k / 8) + (7 - k % 8)) := by
    decide +kernel
  intro k hk
  rw [idxOf_ipTab (by omega)]
  exact hall k hk

theorem storeLR_spread (s : BitVec 32 × BitVec 32) :
    storeLR (spread s) = msbFirst (finalPerm (joinHalves s)) := by
  have hjoin : ∀ m < 64, (store
      (compress (blockI0 (spread s).1) (blockI1 (spread s).1))
      (compress (blockI0 (spread s).2) (blockI1 (spread s).2))).getLsbD m =
        (joinHalves s).getLsbD (cifp.getD m 0 - 1) := by
    intro m hm
    have hE : ∀ m < 32, cifp.getD m 0 - 1 < 32 := by decide
    rw [getLsbD_store, joinHalves, BitVec.getLsbD_append]
    split
    · next hlow =>
        rw [if_pos (hE m hlow)]
        exact getLsbD_compress_six s.1 hlow
    · next hhigh =>
        obtain ⟨-, -, -, hidx⟩ := cifp_table (m - 32) (by omega)
        rw [Nat.add_sub_cancel' (by omega)] at hidx
        rw [hidx, if_neg (by omega), Nat.add_sub_cancel_left]
        exact getLsbD_compress_six s.2 (by omega)
  rw [storeLR, cf6464, permute_block fun k hk => (cfPerm_table k hk).2.1]
  apply BitVec.eq_of_getLsbD_eq
  intro k hk
  obtain ⟨hne, hle, hidx⟩ := cfPerm_table k hk
  rw [getLsbD_gather_lt _ _ hk, bitAt_of_ne _ hne, hjoin _ (by omega), hidx, getLsbD_msbFirst _ hk,
    getLsbD_finalPerm _ (by omega)]

/-! ## The cipher -/

/-- On keys that are the spread of round keys, the code is plain DES with these keys. -/
theorem desCipher_spread {ks : Nat → CBlock} {K : Nat → BitVec 48} (input : CBlock)
    (salt : BitVec 32) (numIter : Int)
    (hks : ∀ i < 16, (if 0 ≤ numIter then ks i else ks (15 - i)) = six (K i)) :
    desCipher ks input salt numIter =
      (des salt ((List.range 16).map K))^[numIter.natAbs] input := by
  rw [desCipher, loadLR_eq, iterate_rounds salt hks, storeLR_spread, iterate_des]

theorem desCipher_forward (key input : CBlock) (salt : BitVec 32) (n : Nat) :
    desCipher (desSetkey key) input salt n = (des salt (roundKeys (msbFirst key)))^[n] input := by
  apply desCipher_spread input salt n
  intro i hi
  rw [if_pos (Int.natCast_nonneg n), desSetkey_eq key hi]

theorem desCipher_backward (key input : CBlock) (salt : BitVec 32) {n : Nat} (hn : 0 < n) :
    desCipher (desSetkey key) input salt (-n) =
      (des salt (roundKeys (msbFirst key)).reverse)^[n] input := by
  have hkeys : (roundKeys (msbFirst key)).reverse =
      (List.range 16).map fun i => roundKey (msbFirst key) (15 - i) := by
    rw [roundKeys, ← List.map_reverse, List.range_eq_range', List.reverse_range', List.map_map,
      List.range_eq_range']
    rfl
  have hks : ∀ i < 16, (if 0 ≤ -(n : Int) then desSetkey key i else desSetkey key (15 - i)) =
      six (roundKey (msbFirst key) (15 - i)) := by
    intro i hi
    rw [if_neg (by omega), desSetkey_eq key (by omega)]
  rw [desCipher_spread input salt (-n) hks, hkeys, Int.natAbs_neg, Int.natAbs_natCast]

/-- `des_setkey` and `des_cipher` compute plain DES as often as they are told to, and the
number negated takes the result back. -/
theorem desCipher_eq (key input : CBlock) (salt : BitVec 32) (n : Nat) :
    desCipher (desSetkey key) input salt n =
        (des salt (roundKeys (msbFirst key)))^[n] input ∧
      desCipher (desSetkey key) ((des salt (roundKeys (msbFirst key)))^[n] input) salt (-n) =
        input := by
  refine ⟨desCipher_forward key input salt n, ?_⟩
  obtain rfl | hpos := Nat.eq_zero_or_pos n
  · exact desCipher_forward key input salt 0
  · rw [desCipher_backward key _ salt hpos, iterate_des_reverse]

end VxWorks.Ppp.Crypt
