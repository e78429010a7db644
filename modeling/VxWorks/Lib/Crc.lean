import Mathlib.Data.BitVec
import Mathlib.Data.List.Basic
import Mathlib.Logic.Function.Iterate

/-!
# Cyclic redundancy checks

A shift register that loses its lowest bit at each step and takes the polynomial in when
that bit was one, with the bits of the message added at the low end. Everything about it
follows from two facts: a step is linear, and when the polynomial has its highest bit
set, no state but zero steps to zero. Bits that are shifted down without having reached
the low end are only shifted; so what the register does to as many bits as it is wide is
the same whether they come one after the other or all at once (`crcBits_eq`).
-/

namespace VxWorks.Lib

variable {w : Nat} {p : BitVec w}

def crcStep (p v : BitVec w) : BitVec w := if v.getLsbD 0 then v >>> 1 ^^^ p else v >>> 1

/-- The bit at the low end. -/
def lowBit (w : Nat) (b : Bool) : BitVec w := (BitVec.ofBool b).setWidth w

/-- The register after the bits `bs`. -/
def crcBits (p : BitVec w) (v : BitVec w) (bs : List Bool) : BitVec w :=
  bs.foldl (fun v b => crcStep p (v ^^^ lowBit w b)) v

/-- Bits in a word, the first one lowest. -/
def packBits (w : Nat) : List Bool → BitVec w
  | [] => 0#w
  | b :: bs => lowBit w b ^^^ packBits w bs <<< 1

@[simp] theorem crcBits_nil (p v : BitVec w) : crcBits p v [] = v := rfl

theorem crcBits_cons (p v : BitVec w) (b : Bool) (bs : List Bool) :
    crcBits p v (b :: bs) = crcBits p (crcStep p (v ^^^ lowBit w b)) bs := rfl

theorem crcBits_append (p v : BitVec w) (bs cs : List Bool) :
    crcBits p v (bs ++ cs) = crcBits p (crcBits p v bs) cs := List.foldl_append

theorem xor_swap (a b c d : BitVec w) : a ^^^ b ^^^ (c ^^^ d) = a ^^^ c ^^^ (b ^^^ d) := by
  rw [BitVec.xor_assoc, BitVec.xor_assoc, ← BitVec.xor_assoc b, BitVec.xor_comm b,
    BitVec.xor_assoc c]

theorem crcStep_xor (p u v : BitVec w) : crcStep p (u ^^^ v) = crcStep p u ^^^ crcStep p v := by
  rw [crcStep, crcStep, crcStep, BitVec.getLsbD_xor, BitVec.ushiftRight_xor_distrib]
  cases u.getLsbD 0 <;> cases v.getLsbD 0
  · rfl
  · exact BitVec.xor_assoc _ _ _
  · show u >>> 1 ^^^ v >>> 1 ^^^ p = u >>> 1 ^^^ p ^^^ v >>> 1
    rw [BitVec.xor_assoc, BitVec.xor_comm (v >>> 1), BitVec.xor_assoc]
  · show u >>> 1 ^^^ v >>> 1 = u >>> 1 ^^^ p ^^^ (v >>> 1 ^^^ p)
    rw [xor_swap, BitVec.xor_self, BitVec.xor_zero]

theorem iterate_crcStep_xor (p : BitVec w) (n : Nat) (u v : BitVec w) :
    (crcStep p)^[n] (u ^^^ v) = (crcStep p)^[n] u ^^^ (crcStep p)^[n] v := by
  induction n generalizing u v with
  | zero => rfl
  | succ n ih => rw [Function.iterate_succ_apply, crcStep_xor, ih]; rfl

theorem lowBit_xor (b c : Bool) : lowBit w (b != c) = lowBit w b ^^^ lowBit w c := by
  cases b <;> cases c <;> simp [lowBit]

/-- Two messages of one length: the difference of the registers is the register of the
difference. -/
theorem crcBits_xor (p : BitVec w) {bs cs : List Bool} (h : bs.length = cs.length)
    (u v : BitVec w) :
    crcBits p u bs ^^^ crcBits p v cs = crcBits p (u ^^^ v) (List.zipWith bne bs cs) := by
  induction bs generalizing cs u v with
  | nil =>
      rw [List.length_eq_zero_iff.mp h.symm]
      rfl
  | cons b bs ih =>
      cases cs with
      | nil => cases h
      | cons c cs =>
          rw [crcBits_cons, crcBits_cons, ih (Nat.succ.inj h), List.zipWith_cons_cons,
            crcBits_cons, ← crcStep_xor, lowBit_xor, xor_swap]

theorem crcStep_zero (p : BitVec w) : crcStep p 0#w = 0#w := by
  rw [crcStep, BitVec.getLsbD_zero, if_neg Bool.false_ne_true, BitVec.zero_ushiftRight]

theorem crcStep_eq_zero (hp : p.msb = true) {v : BitVec w} (h : crcStep p v = 0#w) : v = 0#w := by
  rw [crcStep] at h
  split at h
  · -- the polynomial has a bit that a word shifted down cannot have
    have hshift : v >>> 1 = p := BitVec.xor_eq_zero_iff.mp h
    rw [← hshift, BitVec.msb_ushiftRight] at hp
    cases hp
  · next hlow =>
      refine BitVec.eq_of_getLsbD_eq ?_
      intro i hi
      rw [BitVec.getLsbD_zero]
      cases i with
      | zero => exact Bool.eq_false_of_not_eq_true hlow
      | succ i =>
          have hbit := congrArg (fun x : BitVec w => x.getLsbD i) h
          rw [BitVec.getLsbD_ushiftRight, BitVec.getLsbD_zero] at hbit
          rwa [Nat.add_comm]

theorem iterate_crcStep_eq_zero (hp : p.msb = true) {n : Nat} {v : BitVec w}
    (h : (crcStep p)^[n] v = 0#w) : v = 0#w := by
  induction n generalizing v with
  | zero => exact h
  | succ n ih => exact crcStep_eq_zero hp (ih h)

/-- A bit that has not come down to the low end is only shifted. -/
theorem crcStep_shiftLeft {v : BitVec w} (h : v <<< 1 >>> 1 = v) (p : BitVec w) :
    crcStep p (v <<< 1) = v := by
  have hlow : (v <<< 1).getLsbD 0 = false := by simp
  rw [crcStep, hlow, if_neg Bool.false_ne_true, h]

theorem iterate_crcStep_shiftLeft (p : BitVec w) {n : Nat} {v : BitVec w}
    (h : ∀ i, w ≤ i + n → v.getLsbD i = false) : (crcStep p)^[n] (v <<< n) = v := by
  induction n with
  | zero => exact BitVec.shiftLeft_zero v
  | succ n ih =>
      have hshift : v <<< n <<< 1 >>> 1 = v <<< n := by
        refine BitVec.eq_of_getLsbD_eq ?_
        intro i hi
        rw [BitVec.getLsbD_ushiftRight, BitVec.getLsbD_shiftLeft, BitVec.getLsbD_shiftLeft]
        by_cases hlast : 1 + i < w
        · simp [hlast]
        · -- the highest bit of the word is one that has been clear before
          have htop : v.getLsbD (i - n) = false ∨ i < n := by
            by_cases hin : i < n
            · exact .inr hin
            · exact .inl (h _ (by omega))
          rcases htop with htop | htop <;> simp [hlast, htop]
      have hnext : ∀ i, w ≤ i + n → v.getLsbD i = false := fun i hi => h i (by omega)
      rw [Function.iterate_succ_apply, BitVec.shiftLeft_add, crcStep_shiftLeft hshift, ih hnext]

theorem getLsbD_lowBit (b : Bool) (i : Nat) :
    (lowBit w b).getLsbD i = (decide (i = 0) && decide (i < w) && b) := by
  rw [lowBit, BitVec.getLsbD_setWidth]
  cases b <;> cases i <;> simp

theorem getLsbD_packBits (bs : List Bool) (i : Nat) :
    (packBits w bs).getLsbD i = (decide (i < w) && bs.getD i false) := by
  induction bs generalizing i with
  | nil => simp [packBits]
  | cons b bs ih =>
      rw [packBits, BitVec.getLsbD_xor, BitVec.getLsbD_shiftLeft, getLsbD_lowBit]
      cases i with
      | zero => simp
      | succ i =>
          by_cases hi : i + 1 < w
          · have hi' : i < w := by omega
            have htail := ih i
            simp only [decide_eq_true hi', Bool.true_and] at htail
            simp only [decide_eq_true hi, Bool.true_and, List.getD_cons_succ, ← htail]
            simp
          · simp [hi]

theorem packBits_shift {bs : List Bool} (h : bs.length < w) :
    packBits w bs <<< 1 >>> 1 = packBits w bs := by
  refine BitVec.eq_of_getLsbD_eq ?_
  intro i hi
  rw [BitVec.getLsbD_ushiftRight, BitVec.getLsbD_shiftLeft, getLsbD_packBits, getLsbD_packBits]
  by_cases hlast : 1 + i < w
  · simp [hlast, hi]
  · -- the bit that the shift loses is behind the message
    have hout : bs.length ≤ i := by omega
    simp [hlast, List.getD_eq_getElem?_getD, List.getElem?_eq_none hout]

/-- As many bits as the register is wide can be added at once. -/
theorem crcBits_eq (p : BitVec w) {bs : List Bool} (h : bs.length ≤ w) (v : BitVec w) :
    crcBits p v bs = (crcStep p)^[bs.length] (v ^^^ packBits w bs) := by
  induction bs generalizing v with
  | nil => rw [packBits, BitVec.xor_zero]; rfl
  | cons b bs ih =>
      have hlen : bs.length < w := h
      rw [crcBits_cons, ih (Nat.le_of_lt hlen), List.length_cons, Function.iterate_succ_apply,
        packBits, ← BitVec.xor_assoc, crcStep_xor p (v ^^^ lowBit w b),
        crcStep_shiftLeft (packBits_shift hlen)]

/-- Over bits that are all zero the register only steps. -/
theorem crcBits_false (p : BitVec w) {bs : List Bool} (h : ∀ b ∈ bs, b = false) (v : BitVec w) :
    crcBits p v bs = (crcStep p)^[bs.length] v := by
  induction bs generalizing v with
  | nil => rfl
  | cons b bs ih =>
      obtain ⟨rfl, hbs⟩ := List.forall_mem_cons.mp h
      have hzero : lowBit w false = 0#w := by simp [lowBit]
      rw [crcBits_cons, hzero, BitVec.xor_zero, ih hbs]
      rfl

theorem iterate_crcStep_zero (p : BitVec w) (n : Nat) : (crcStep p)^[n] 0#w = 0#w :=
  Function.iterate_fixed (crcStep_zero p) n

/-- A difference that lies within as many consecutive bits as the register is wide does
not go unnoticed. -/
theorem burst_detected (hp : p.msb = true) {d : List Bool} {k : Nat}
    (hwindow : ∀ i, d[i]? = some true → k ≤ i ∧ i < k + w) (h : crcBits p 0#w d = 0#w) :
    ∀ b ∈ d, b = false := by
  have hbit : ∀ i b, d[i]? = some b → i < k ∨ k + w ≤ i → b = false := by
    intro i b hi hout
    cases b with
    | false => rfl
    | true =>
        have hin := hwindow i hi
        omega
  have hbefore : ∀ b ∈ d.take k, b = false := by
    intro b hb
    obtain ⟨i, hi⟩ := List.mem_iff_getElem?.mp hb
    rw [List.getElem?_take] at hi
    split at hi
    · exact hbit i b hi (.inl ‹i < k›)
    · cases hi
  have hafter : ∀ b ∈ (d.drop k).drop w, b = false := by
    intro b hb
    obtain ⟨i, hi⟩ := List.mem_iff_getElem?.mp hb
    rw [List.drop_drop, List.getElem?_drop] at hi
    exact hbit (k + w + i) b hi (.inr (Nat.le_add_right _ _))
  have hsplit : d = d.take k ++ ((d.drop k).take w ++ (d.drop k).drop w) := by
    rw [List.take_append_drop, List.take_append_drop]
  have hwidth : ((d.drop k).take w).length ≤ w := List.length_take_le _ _
  rw [hsplit, crcBits_append, crcBits_append, crcBits_false p hbefore, iterate_crcStep_zero,
    crcBits_false p hafter] at h
  have hpack := iterate_crcStep_eq_zero hp h
  rw [crcBits_eq p hwidth, BitVec.zero_xor] at hpack
  have hzero := iterate_crcStep_eq_zero hp hpack
  have hinside : ∀ b ∈ (d.drop k).take w, b = false := by
    intro b hb
    obtain ⟨i, hi⟩ := List.mem_iff_getElem?.mp hb
    have hlt : i < w := Nat.lt_of_lt_of_le (List.getElem?_eq_some_iff.mp hi).1 hwidth
    have hget := congrArg (fun x : BitVec w => x.getLsbD i) hzero
    rw [getLsbD_packBits, decide_eq_true hlt, Bool.true_and, List.getD_eq_getElem?_getD, hi,
      BitVec.getLsbD_zero] at hget
    exact hget
  rw [hsplit]
  exact List.forall_mem_append.mpr ⟨hbefore, List.forall_mem_append.mpr ⟨hinside, hafter⟩⟩

end VxWorks.Lib
