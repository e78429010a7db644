import VxWorks.Lib.Crc
import VxWorks.Ppp.Framing

/-!
# The frame check sequence (`if_ppp.c`)

`pppfcs` takes eight steps of a shift register at once from a table. That the table has
been made from the register is looked up here, entry by entry (`fcstab_eq`); the rest is
the algebra of the register, and with it the two things a receiver relies on: the good
value after a frame that came through, and another value after one that was damaged in a
burst. The bits of a frame stand in the order they are sent, the low bit of an octet first.
-/

namespace VxWorks.Ppp

open VxWorks.Lib

/-- x^16 + x^12 + x^5 + 1, the lowest power in the highest bit. -/
def fcsPoly : BitVec 16 := 0x8408

def octetBits (c : UInt8) : List Bool := (List.range 8).map c.toBitVec.getLsbD

def stringBits (cp : List UInt8) : List Bool := cp.flatMap octetBits

theorem map_toNat_fcstab : fcstab.map UInt16.toNat =
    (List.range 256).map fun i => ((crcStep fcsPoly)^[8] (BitVec.ofNat 16 i)).toNat := by
  decide +kernel

theorem fcstab_eq : ∀ i : Fin 256,
    (fcstab.getD i 0).toBitVec = (crcStep fcsPoly)^[8] (BitVec.ofNat 16 i) := by
  intro i
  have hentry : (fcstab.map UInt16.toNat)[i.val]? = _ := congrArg (·[i.val]?) map_toNat_fcstab
  rw [List.getElem?_map, List.getElem?_map, List.getElem?_range i.isLt] at hentry
  obtain ⟨v, hv, heq⟩ := Option.map_eq_some_iff.mp hentry
  rw [List.getD_eq_getElem?_getD, hv]
  exact BitVec.eq_of_toNat_eq heq

theorem packBits_octetBits (c : UInt8) : packBits 16 (octetBits c) = c.toBitVec.setWidth 16 := by
  refine BitVec.eq_of_getLsbD_eq ?_
  intro i hi
  rw [getLsbD_packBits, BitVec.getLsbD_setWidth, octetBits, List.getD_eq_getElem?_getD,
    List.getElem?_map]
  by_cases h8 : i < 8
  · rw [List.getElem?_range h8]
    rfl
  · rw [List.getElem?_eq_none (by rw [List.length_range]; omega),
      BitVec.getLsbD_of_ge _ _ (Nat.not_lt.mp h8)]
    rfl

theorem split_octets (x : BitVec 16) : x = x &&& 0xff#16 ^^^ x >>> 8 <<< 8 := by
  ext i hi
  simp only [← BitVec.getLsbD_eq_getElem]
  interval_cases i <;> simp

/-- Eight steps at once: the low octet is looked up, and the high one comes down. -/
theorem pppFcs_eq (fcs : UInt16) (c : UInt8) :
    (pppFcs fcs c).toBitVec = (crcStep fcsPoly)^[8] (fcs.toBitVec ^^^ c.toBitVec.setWidth 16) := by
  have hindex : ((fcs ^^^ c.toUInt16) &&& 0xff).toBitVec =
      (fcs.toBitVec ^^^ c.toBitVec.setWidth 16) &&& 0xff#16 := by
    rw [UInt16.toBitVec_and, UInt16.toBitVec_xor, UInt8.toBitVec_toUInt16]
    rfl
  have hhigh : (fcs.toBitVec ^^^ c.toBitVec.setWidth 16) >>> 8 = fcs.toBitVec >>> 8 := by
    ext i hi
    simp only [← BitVec.getLsbD_eq_getElem]
    simp
  generalize fcs.toBitVec ^^^ c.toBitVec.setWidth 16 = x at hindex hhigh ⊢
  have hlt : (x &&& 0xff#16).toNat < 256 := by
    rw [BitVec.toNat_and]
    exact Nat.lt_of_le_of_lt Nat.and_le_right (by decide)
  have hentry := fcstab_eq ⟨_, hlt⟩
  rw [BitVec.ofNat_toNat, BitVec.setWidth_eq] at hentry
  have hdown : (crcStep fcsPoly)^[8] (x >>> 8 <<< 8) = x >>> 8 := by
    refine iterate_crcStep_shiftLeft fcsPoly ?_
    intro i hi
    rw [BitVec.getLsbD_ushiftRight]
    exact BitVec.getLsbD_of_ge _ _ (by omega)
  rw [split_octets x, iterate_crcStep_xor, hdown, hhigh, ← hentry, BitVec.xor_comm, pppFcs,
    UInt16.toBitVec_xor, UInt16.toNat, hindex]
  rfl

theorem pppfcs_eq (fcs : UInt16) (cp : List UInt8) :
    (pppfcs fcs cp).toBitVec = crcBits fcsPoly fcs.toBitVec (stringBits cp) := by
  induction cp generalizing fcs with
  | nil => rfl
  | cons c cp ih =>
      have hlen : (octetBits c).length = 8 := by rw [octetBits, List.length_map, List.length_range]
      have hoctet : crcBits fcsPoly fcs.toBitVec (octetBits c) = (pppFcs fcs c).toBitVec := by
        rw [crcBits_eq fcsPoly (by rw [hlen]; decide), hlen, packBits_octetBits, pppFcs_eq]
      show (pppfcs (pppFcs fcs c) cp).toBitVec = _
      rw [ih, ← hoctet, ← crcBits_append]
      rfl

theorem length_octetBits (c : UInt8) : (octetBits c).length = 8 := by
  rw [octetBits, List.length_map, List.length_range]

theorem octetBits_inj {c d : UInt8} (h : octetBits c = octetBits d) : c = d := by
  refine UInt8.toBitVec_inj.mp (BitVec.eq_of_getLsbD_eq ?_)
  intro i hi
  exact List.map_inj_left.mp h i (List.mem_range.mpr hi)

theorem stringBits_inj {x y : List UInt8} (h : stringBits x = stringBits y) : x = y := by
  induction x generalizing y with
  | nil =>
      cases y with
      | nil => rfl
      | cons d y => cases h
  | cons c x ih =>
      cases y with
      | nil => cases h
      | cons d y =>
          rw [stringBits, List.flatMap_cons, stringBits, List.flatMap_cons] at h
          obtain ⟨hc, htail⟩ := List.append_inj h (by rw [length_octetBits, length_octetBits])
          rw [octetBits_inj hc, ih htail]

theorem length_stringBits (x : List UInt8) : (stringBits x).length = 8 * x.length := by
  induction x with
  | nil => rfl
  | cons c x ih =>
      rw [stringBits, List.flatMap_cons, List.length_append, length_octetBits, ← stringBits, ih,
        List.length_cons]
      omega

/-- Two frames that differ in a burst no longer than the check sequence. -/
theorem burst_found {x y : List UInt8} {k : Nat} (hlen : x.length = y.length)
    (hwindow : ∀ i, (stringBits x)[i]? ≠ (stringBits y)[i]? → k ≤ i ∧ i < k + 16)
    {fcs : UInt16} (h : pppfcs fcs x = pppfcs fcs y) : x = y := by
  have hbits : (stringBits x).length = (stringBits y).length := by
    rw [length_stringBits, length_stringBits, hlen]
  have hzero : crcBits fcsPoly 0#16 (List.zipWith bne (stringBits x) (stringBits y)) = 0#16 := by
    have hsame := congrArg UInt16.toBitVec h
    rw [pppfcs_eq, pppfcs_eq] at hsame
    have hdiff := crcBits_xor fcsPoly hbits fcs.toBitVec fcs.toBitVec
    rw [hsame, BitVec.xor_self, BitVec.xor_self] at hdiff
    exact hdiff.symm
  have hall : ∀ b ∈ List.zipWith bne (stringBits x) (stringBits y), b = false := by
    refine burst_detected (by decide) (fun i hi => hwindow i ?_) hzero
    intro hsame
    rw [List.getElem?_zipWith, hsame] at hi
    cases hy : (stringBits y)[i]? with
    | none => simp [hy] at hi
    | some b => simp [hy] at hi
  refine stringBits_inj (List.ext_getElem hbits ?_)
  intro i hx hy
  have hbit := hall _ (List.getElem_mem (by rw [List.length_zipWith]; omega : i < _))
  rw [List.getElem_zipWith, bne_eq_false_iff_eq] at hbit
  exact hbit

/-- The table driven check sequence is the shift register's, what is sent after a frame
makes it good, and a burst as long as the sequence does not leave it good. -/
theorem fcs_correct :
    (∀ fcs cp, (pppfcs fcs cp).toBitVec = crcBits fcsPoly fcs.toBitVec (stringBits cp)) ∧
    (∀ d, pppfcs pppInitfcs (d ++
        [(~~~ pppfcs pppInitfcs d).toUInt8, (~~~ pppfcs pppInitfcs d >>> 8).toUInt8]) =
      pppGoodfcs) ∧
    ∀ (x y : List UInt8) (k : Nat), x.length = y.length → x ≠ y →
      (∀ i, (stringBits x)[i]? ≠ (stringBits y)[i]? → k ≤ i ∧ i < k + 16) →
      ¬ (pppfcs pppInitfcs x = pppGoodfcs ∧ pppfcs pppInitfcs y = pppGoodfcs) := by
  refine ⟨pppfcs_eq, ?_, ?_⟩
  · intro d
    rw [pppfcs_append]
    exact pppFcs_good (pppfcs pppInitfcs d)
  · intro x y k hlen hne hwindow hgood
    exact hne (burst_found hlen hwindow (hgood.1.trans hgood.2.symm))

theorem fcs_correct_pair :
    ¬ (pppfcs pppInitfcs [0xff, 0x03] = pppGoodfcs ∧
      pppfcs pppInitfcs [0xff, 0x43] = pppGoodfcs) := by
  refine fcs_correct.2.2 _ _ 0 rfl (by decide) ?_
  intro i hne
  by_cases hi : i < 16
  · exact ⟨Nat.zero_le i, by omega⟩
  · have hx : (stringBits [0xff, 0x03])[i]? = none := List.getElem?_eq_none (Nat.not_lt.mp hi)
    have hy : (stringBits [0xff, 0x43])[i]? = none := List.getElem?_eq_none (Nat.not_lt.mp hi)
    exact absurd (hx.trans hy.symm) hne

end VxWorks.Ppp
