import VxWorks.Ppp.DesRound

/-!
# The key schedule (crypt.c)

The register of `des_setkey` holds PC2 of the halves of the key as far as they have been
rotated, with the eight bits that PC2 drops in the low bits of its first four bytes. What
the tables `PC1ROT` and `PC2ROT` have to be for this is a fact about each of their 64
entries (`pc1RotPerm_table`, `pc2RotPerm_table`), and an induction over the rounds gives
that each key in the schedule is the spread of the round key (`desSetkey_eq`).
-/

namespace VxWorks.Ppp.Crypt

open VxWorks.Lib

/-- Where bit `c` of the halves comes from in a rotation by `n`. -/
def rotateIdx (n c : Nat) : Nat := c / 28 * 28 + (c % 28 + n) % 28

theorem getLsbD_rotateHalves (n : Nat) (cd : BitVec 56) {c : Nat} (hc : c < 56) :
    (rotateHalves n cd).getLsbD c = cd.getLsbD (rotateIdx n c) := getLsbD_ofBits_lt _ hc

/-! ## The tables -/

theorem pc2_table : ∀ k < 64, pc2.getD k 0 ≤ 56 ∧ (32 ≤ k → k % 8 < 2 → pc2.getD k 0 = 0) := by
  decide

/-- The bit of the key that PC2 asks for behind the first rotation. -/
def firstBit (k : Nat) : Nat := pc1.getD (rotateIdx 1 (pc2.getD k 0 - 1)) 0

/-- `PC1ROT` looks it up from the other end of its byte. -/
theorem pc1RotPerm_table : ∀ k < 64,
    pc1RotPerm k ≤ 64 ∧ (pc2.getD k 0 = 0 → pc1RotPerm k = 0) ∧
      (pc2.getD k 0 ≠ 0 → firstBit k ≠ 0 ∧ firstBit k ≤ 64 ∧
        pc1RotPerm k = 8 * ((firstBit k - 1) / 8) + (7 - (firstBit k - 1) % 8) + 1) := by
  decide +kernel

/-- `PC2ROT` looks up what PC2 has put where the rotation takes it from. -/
theorem pc2RotPerm_table : ∀ j < 2, ∀ k < 64,
    pc2RotPerm j k ≤ 64 ∧ (pc2.getD k 0 = 0 → pc2RotPerm j k = 0) ∧
      (pc2.getD k 0 ≠ 0 → pc2RotPerm j k ≠ 0 ∧
        pc2.getD (pc2RotPerm j k - 1) 0 = rotateIdx (j + 1) (pc2.getD k 0 - 1) + 1) := by
  decide +kernel

theorem rotates_range : ∀ i < 16, rotates.getD i 0 = 1 ∨ rotates.getD i 0 = 2 := by decide

/-! ## The register -/

theorem keyReg_zero (key : CBlock) :
    keyReg key 0 = gather 64 (fun k => pc2.getD k 0) (keyHalves (msbFirst key) 0) := by
  rw [keyReg, pc1Rot, permute_block fun k hk => (pc1RotPerm_table k hk).1]
  apply ofBits_congr
  intro k hk
  show bitAt key (pc1RotPerm k) = bitAt (keyHalves (msbFirst key) 0) (pc2.getD k 0)
  obtain ⟨-, hzero, hsome⟩ := pc1RotPerm_table k hk
  obtain ⟨hle, -⟩ := pc2_table k hk
  by_cases hpc2 : pc2.getD k 0 = 0
  · rw [hzero hpc2, hpc2, bitAt_zero, bitAt_zero]
  · obtain ⟨hne, hs, hperm⟩ := hsome hpc2
    have hidx : rotateIdx 1 (pc2.getD k 0 - 1) < 56 := by
      rw [rotateIdx]
      omega
    rw [hperm, bitAt_succ, bitAt_of_ne _ hpc2, keyHalves,
      getLsbD_rotateHalves _ _ (by omega), show rotates.getD 0 0 = 1 from rfl,
      getLsbD_gather_lt _ _ hidx, ← firstBit, bitAt_of_ne _ hne, getLsbD_msbFirst _ (by omega)]

/-- One entry of `PC2ROT` undoes PC2, rotates and does PC2 again. -/
theorem permute_pc2Rot {j : Nat} (hj : j < 2) (cd : BitVec 56) :
    permute (blockB (gather 64 (fun k => pc2.getD k 0) cd)) (pc2Rot j) 8 =
      gather 64 (fun k => pc2.getD k 0) (rotateHalves (j + 1) cd) := by
  have hle : ∀ k < 64, pc2RotPerm j k ≤ 64 := fun k hk => (pc2RotPerm_table j hj k hk).1
  rw [pc2Rot, permute_block hle, gather_gather hle]
  apply ofBits_congr
  intro k hk
  show bitAt cd (if pc2RotPerm j k = 0 then 0 else pc2.getD (pc2RotPerm j k - 1) 0) =
    bitAt (rotateHalves (j + 1) cd) (pc2.getD k 0)
  obtain ⟨-, hzero, hsome⟩ := pc2RotPerm_table j hj k hk
  obtain ⟨hle, -⟩ := pc2_table k hk
  by_cases hpc2 : pc2.getD k 0 = 0
  · rw [hzero hpc2, hpc2, if_pos rfl, bitAt_zero, bitAt_zero]
  · obtain ⟨hne, hperm⟩ := hsome hpc2
    rw [if_neg hne, hperm, bitAt_succ, bitAt_of_ne _ hpc2,
      getLsbD_rotateHalves _ _ (by omega)]

theorem keyReg_eq (key : CBlock) {i : Nat} (hi : i < 16) :
    keyReg key i = gather 64 (fun k => pc2.getD k 0) (keyHalves (msbFirst key) i) := by
  induction i with
  | zero => exact keyReg_zero key
  | succ i ih =>
      have hrot : rotates.getD (i + 1) 0 - 1 < 2 ∧
          rotates.getD (i + 1) 0 - 1 + 1 = rotates.getD (i + 1) 0 := by
        have := rotates_range (i + 1) hi
        omega
      rw [keyReg, ih (by omega), permute_pc2Rot hrot.1, hrot.2]
      rfl

/-! ## The schedule -/

theorem clearMask_bit : ∀ k < 32, (~~~0x03030303 : BitVec 32).getLsbD k = decide (2 ≤ k % 8) := by
  decide

theorem getLsbD_roundKey (key : BitVec 64) (i : Nat) {k : Nat} (hk : k < 64) (hsix : 2 ≤ k % 8) :
    (roundKey key i).getLsbD (6 * (k / 8) + (k % 8 - 2)) =
      bitAt (keyHalves key i) (pc2.getD k 0) := by
  have hidx : 8 * ((6 * (k / 8) + (k % 8 - 2)) / 6) + 2 + (6 * (k / 8) + (k % 8 - 2)) % 6 = k := by
    omega
  rw [roundKey, getLsbD_gather_lt _ _ (by omega), pc2Choice, hidx]

theorem getLsbD_six_roundKey (key : BitVec 64) (i : Nat) {k : Nat} (hk : k < 64) :
    (six (roundKey key i)).getLsbD k =
      (decide (2 ≤ k % 8) && bitAt (keyHalves key i) (pc2.getD k 0)) := by
  rw [getLsbD_six _ hk]
  by_cases hsix : 2 ≤ k % 8
  · rw [getLsbD_roundKey key i hk hsix]
  · rw [decide_eq_false hsix, Bool.false_and, Bool.false_and]

theorem desSetkey_eq (key : CBlock) {i : Nat} (hi : i < 16) :
    desSetkey key i = six (roundKey (msbFirst key) i) := by
  apply store_eq
  · intro k hk
    rw [BitVec.getLsbD_and, clearMask_bit k hk, getLsbD_blockI0 _ hk, keyReg_eq key hi,
      getLsbD_gather_lt _ _ (by omega), getLsbD_six_roundKey _ _ (by omega), Bool.and_comm]
  · intro k hk
    rw [getLsbD_blockI1 _ hk, keyReg_eq key hi, getLsbD_gather_lt _ _ (by omega),
      getLsbD_six_roundKey _ _ (by omega)]
    by_cases hsix : 2 ≤ (32 + k) % 8
    · rw [decide_eq_true hsix, Bool.true_and]
    · rw [(pc2_table (32 + k) (by omega)).2 (by omega) (by omega), bitAt_zero, Bool.and_false]

end VxWorks.Ppp.Crypt
