import VxWorks.Lib.Feistel
import VxWorks.Ppp.Crypt

/-!
# Plain DES

The cipher bit by bit, as the tables of the standard in `crypt.c` say: the bits of a block
are counted from the high bit of its first byte, sixteen rounds stand between the initial
permutation and its inverse, and the key of a round is a choice from the two halves of the
key as far as they have been rotated. The salt exchanges bits of the expansion.
-/

namespace VxWorks.Ppp.Crypt

open VxWorks.Lib

/-- The bits of a block in the order of the standard, and back. -/
def msbFirst (x : CBlock) : BitVec 64 := ofBits 64 fun i => x.getLsbD (8 * (i / 8) + (7 - i % 8))

def initialPerm (x : BitVec 64) : BitVec 64 := gather 64 (fun i => ipTab.getD i 0) x

/-- The inverse of the initial permutation. -/
def finalPerm (x : BitVec 64) : BitVec 64 := ofBits 64 fun i => x.getLsbD (ipTab.idxOf (i + 1))

def expansion (r : BitVec 32) : BitVec 48 := gather 48 (fun i => expandTr.getD i 0) r

/-- A bit of the salt exchanges two bits of the expansion. -/
def saltSwap (salt : BitVec 32) (x : BitVec 48) : BitVec 48 :=
  ofBits 48 fun i => if salt.getLsbD (i % 24) then x.getLsbD ((i + 24) % 48) else x.getLsbD i

/-- S box `t` at six bits: the outer two are the row and the inner four the column. -/
def sBox (t : Nat) (b : Nat → Bool) : Nat :=
  (sTab.getD t []).getD ((2 * (b 0).toNat + (b 5).toNat) * 16 +
    (8 * (b 1).toNat + 4 * (b 2).toNat + 2 * (b 3).toNat + (b 4).toNat)) 0

/-- The eight S boxes side by side, the high bit of each first. -/
def substitution (x : BitVec 48) : BitVec 32 :=
  ofBits 32 fun i => (sBox (i / 4) fun j => x.getLsbD (6 * (i / 4) + j)).testBit (3 - i % 4)

def desF (salt : BitVec 32) (k : BitVec 48) (r : BitVec 32) : BitVec 32 :=
  gather 32 (fun i => p32Tr.getD i 0) (substitution (saltSwap salt (expansion r) ^^^ k))

/-- Both halves of 28 bits, rotated to the left. -/
def rotateHalves (n : Nat) (cd : BitVec 56) : BitVec 56 :=
  ofBits 56 fun i => cd.getLsbD (i / 28 * 28 + (i % 28 + n) % 28)

/-- C and D behind round `i`. -/
def keyHalves (key : BitVec 64) : Nat → BitVec 56
  | 0 => rotateHalves (rotates.getD 0 0) (gather 56 (fun i => pc1.getD i 0) key)
  | i + 1 => rotateHalves (rotates.getD (i + 1) 0) (keyHalves key i)

/-- PC2, without what pads its rows. -/
def pc2Choice (i : Nat) : Nat := pc2.getD (8 * (i / 6) + 2 + i % 6) 0

def roundKey (key : BitVec 64) (i : Nat) : BitVec 48 := gather 48 pc2Choice (keyHalves key i)

def roundKeys (key : BitVec 64) : List (BitVec 48) := (List.range 16).map (roundKey key)

def splitHalves (x : BitVec 64) : BitVec 32 × BitVec 32 := (x.extractLsb' 0 32, x.extractLsb' 32 32)

def joinHalves (s : BitVec 32 × BitVec 32) : BitVec 64 := s.2 ++ s.1

/-- DES of a block, with these round keys. -/
def des (salt : BitVec 32) (ks : List (BitVec 48)) (x : CBlock) : CBlock :=
  msbFirst (finalPerm (joinHalves
    (feistel (desF salt) ks (splitHalves (initialPerm (msbFirst x))))))

/-! ## The way in and the way out -/

theorem getLsbD_msbFirst (x : CBlock) {i : Nat} (hi : i < 64) :
    (msbFirst x).getLsbD i = x.getLsbD (8 * (i / 8) + (7 - i % 8)) := getLsbD_ofBits_lt _ hi

theorem getLsbD_finalPerm (x : BitVec 64) {i : Nat} (hi : i < 64) :
    (finalPerm x).getLsbD i = x.getLsbD (ipTab.idxOf (i + 1)) := getLsbD_ofBits_lt _ hi

theorem msbFirst_msbFirst (x : CBlock) : msbFirst (msbFirst x) = x := by
  apply BitVec.eq_of_getLsbD_eq
  intro i hi
  rw [getLsbD_msbFirst _ hi, getLsbD_msbFirst _ (by omega)]
  congr 1
  omega

/-- An entry of the table, and the place of a bit in it. -/
def ipEntry (j : Nat) : Nat := 58 + 2 * (j / 8 % 4) - j / 32 - 8 * (j % 8)

def ipPlace (i : Nat) : Nat := 8 * (i % 8 / 2 + 4 * ((i + 1) % 2)) + (7 - i / 8)

theorem ipPlace_ipEntry : ∀ j < 64,
    ipPlace (ipEntry j - 1) = j ∧ 0 < ipEntry j ∧ ipEntry j ≤ 64 := by
  decide

theorem ipEntry_ipPlace : ∀ i < 64, ipEntry (ipPlace i) = i + 1 ∧ ipPlace i < 64 := by
  decide

theorem ipTab_eq : ipTab = (List.range 64).map ipEntry := by
  decide

theorem getD_ipTab {j : Nat} (hj : j < 64) : ipTab.getD j 0 = ipEntry j := by
  rw [ipTab_eq, List.getD_eq_getElem?_getD, List.getElem?_map, List.getElem?_range hj]
  rfl

theorem idxOf_ipTab {i : Nat} (hi : i < 64) : ipTab.idxOf (i + 1) = ipPlace i := by
  obtain ⟨hentry, hlt⟩ := ipEntry_ipPlace i hi
  have hnodup : ipTab.Nodup := by
    rw [ipTab_eq]
    refine List.Nodup.map_on ?_ List.nodup_range
    intro a ha b hb heq
    rw [← (ipPlace_ipEntry a (List.mem_range.mp ha)).1, heq,
      (ipPlace_ipEntry b (List.mem_range.mp hb)).1]
  have hplace : ipPlace i < ipTab.length := hlt
  have hidx := hnodup.idxOf_getElem _ hplace
  have hget : ipTab[ipPlace i] = i + 1 := by
    simp only [ipTab_eq, List.getElem_map, List.getElem_range]
    exact hentry
  rwa [hget] at hidx

theorem initialPerm_table : ∀ i < 64, ipTab.getD (ipTab.idxOf (i + 1)) 0 = i + 1 ∧
    ipTab.idxOf (i + 1) < 64 ∧ ipTab.idxOf (ipTab.getD i 0) = i ∧ 0 < ipTab.getD i 0 ∧
    ipTab.getD i 0 ≤ 64 := by
  intro i hi
  obtain ⟨hentry, hlt⟩ := ipEntry_ipPlace i hi
  obtain ⟨hplace, hpos, hle⟩ := ipPlace_ipEntry i hi
  rw [idxOf_ipTab hi, getD_ipTab hlt, getD_ipTab hi]
  refine ⟨hentry, hlt, ?_, hpos, hle⟩
  rw [← Nat.sub_add_cancel hpos, idxOf_ipTab (by omega), hplace]

theorem initialPerm_finalPerm (x : BitVec 64) : initialPerm (finalPerm x) = x := by
  apply BitVec.eq_of_getLsbD_eq
  intro i hi
  obtain ⟨-, -, hidx, hpos, hle⟩ := initialPerm_table i hi
  rw [initialPerm, getLsbD_gather_lt _ _ hi, bitAt_of_ne _ (Nat.ne_of_gt hpos),
    getLsbD_finalPerm _ (by omega), Nat.sub_add_cancel hpos, hidx]

theorem finalPerm_initialPerm (x : BitVec 64) : finalPerm (initialPerm x) = x := by
  apply BitVec.eq_of_getLsbD_eq
  intro i hi
  obtain ⟨htab, hlt, -⟩ := initialPerm_table i hi
  rw [getLsbD_finalPerm _ hi, initialPerm, getLsbD_gather_lt _ _ hlt, htab, bitAt_succ]

theorem joinHalves_splitHalves (x : BitVec 64) : joinHalves (splitHalves x) = x :=
  @BitVec.extractLsb'_append_extractLsb' 32 32 x

theorem splitHalves_joinHalves (s : BitVec 32 × BitVec 32) : splitHalves (joinHalves s) = s :=
  Prod.ext BitVec.extractLsb'_append_eq_right BitVec.extractLsb'_append_eq_left

/-- The permutations at the ends of two iterations fall out. -/
theorem iterate_des (salt : BitVec 32) (ks : List (BitVec 48)) (n : Nat) (x : CBlock) :
    (des salt ks)^[n] x = msbFirst (finalPerm (joinHalves
      ((feistel (desF salt) ks)^[n] (splitHalves (initialPerm (msbFirst x)))))) := by
  induction n with
  | zero =>
      rw [Function.iterate_zero_apply, Function.iterate_zero_apply, joinHalves_splitHalves,
        finalPerm_initialPerm, msbFirst_msbFirst]
  | succ n ih =>
      rw [Function.iterate_succ_apply', ih, des, msbFirst_msbFirst, initialPerm_finalPerm,
        splitHalves_joinHalves, Function.iterate_succ_apply']

/-- The keys in reverse order undo the cipher. -/
theorem iterate_des_reverse (salt : BitVec 32) (ks : List (BitVec 48)) (n : Nat) (x : CBlock) :
    (des salt ks.reverse)^[n] ((des salt ks)^[n] x) = x := by
  rw [iterate_des salt ks, iterate_des, msbFirst_msbFirst, initialPerm_finalPerm,
    splitHalves_joinHalves, iterate_feistel_reverse, joinHalves_splitHalves, finalPerm_initialPerm,
    msbFirst_msbFirst]

end VxWorks.Ppp.Crypt
