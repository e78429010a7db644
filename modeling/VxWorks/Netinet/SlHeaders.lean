import VxWorks.Netinet.SlCompress

/-!
# From one header to the next

The receiver's half of one compressed packet, against the sender's. Both start
from the same saved header; the sender puts down which fields changed and by how
much, the receiver applies that. The statement to arrive at is
`slApply_changes`: what the receiver ends up with is its saved header with the
sender's fields written over it, one after the other, whether or not the change
of a field was sent. The octets that are never written are those that
`sameConn` and `sameTemplate` compared.

One thing is different where one of the two special encodings was used. They
replace the list of changed fields, and the receiver then leaves the urgent flag
as the last packet had it.
-/

namespace VxWorks.Netinet

open VxWorks.Lib

/-! ## Numbers -/

section

variable {b : Buf} {cp : Nat} {n : UInt16}

theorem decode_long (h : b.Holds cp [0, (n >>> 8).toUInt8, n.toUInt8]) :
    decode b cp = (n, cp + 3) := by
  have h₀ : b cp = 0 := h 0 (by simp)
  have h₁ : b (cp + 1) = (n >>> 8).toUInt8 := h 1 (by simp)
  have h₂ : b (cp + 1 + 1) = n.toUInt8 := h 2 (by simp)
  simp [decode, h₀, Buf.u16, h₁, h₂]

theorem decode_short (h : b.Holds cp [n.toUInt8]) (hlt : n < 256) (hn : n ≠ 0) :
    decode b cp = (n, cp + 1) := by
  have h₀ : b cp = n.toUInt8 := h 0 (by simp)
  have hnat : n.toNat < 256 := UInt16.lt_iff_toNat_lt.mp hlt
  have hn' : n.toUInt8.toNat = n.toNat := by
    rw [UInt16.toNat_toUInt8]
    omega
  have hne : n.toUInt8 ≠ 0 := by
    intro h
    rw [h] at hn'
    exact hn (UInt16.toNat_inj.mp hn'.symm)
  rw [decode, h₀, if_neg hne]
  congr 1
  apply UInt16.toNat_inj.mp
  rw [UInt8.toNat_toUInt16, hn']

theorem decode_encode (h : b.Holds cp (encode n)) (hn : n ≠ 0) :
    decode b cp = (n, cp + (encode n).length) := by
  rw [encode] at h ⊢
  split at h
  · next hge =>
      rw [if_pos hge]
      exact decode_long h
  · next hlt =>
      rw [if_neg hlt]
      exact decode_short h (UInt16.not_le.mp hlt) hn

theorem decode_encodez (h : b.Holds cp (encodez n)) :
    decode b cp = (n, cp + (encodez n).length) := by
  rw [encodez] at h ⊢
  split at h
  · next hge =>
      rw [if_pos hge]
      exact decode_long h
  · next hlt =>
      rw [if_neg hlt]
      rw [not_or] at hlt
      exact decode_short h (UInt16.not_le.mp hlt.1) hlt.2

/-! Applying a change that may not have been sent. -/

theorem decodes_opt {f : Nat} {hdr : Buf}
    (h : b.Holds cp (if n != 0 then encode n else [])) :
    (if n != 0 then decodes b f (hdr, cp) else (hdr, cp)) =
      (hdr.set16 f (hdr.u16 f + n), cp + (if n != 0 then encode n else []).length) := by
  by_cases hn : n = 0
  · subst hn
    simp [Buf.set16_self]
  · have hb : (n != 0) = true := by simpa using hn
    rw [if_pos hb] at h ⊢
    rw [if_pos hb, decodes, decode_encode h hn]

theorem toUInt16_of_le {d : UInt32} (hd : ¬ 0xffff < d) : d.toUInt16.toUInt32 = d := by
  have hnat : d.toNat ≤ 65535 := by
    have := UInt32.not_lt.mp hd
    exact UInt32.le_iff_toNat_le.mp this
  apply UInt32.toNat_inj.mp
  rw [UInt16.toNat_toUInt32, UInt32.toNat_toUInt16]
  omega

theorem decodel_opt {d : UInt32} {f : Nat} {hdr : Buf} (hd : ¬ 0xffff < d)
    (h : b.Holds cp (if d != 0 then encode d.toUInt16 else [])) :
    (if d != 0 then decodel b f (hdr, cp) else (hdr, cp)) =
      (hdr.set32 f (hdr.u32 f + d),
        cp + (if d != 0 then encode d.toUInt16 else []).length) := by
  by_cases hn : d = 0
  · subst hn
    simp [Buf.set32_self]
  · have hb : (d != 0) = true := by simpa using hn
    have hn' : d.toUInt16 ≠ 0 := by
      intro hz
      have := toUInt16_of_le hd
      rw [hz] at this
      exact hn this.symm
    rw [if_pos hb] at h ⊢
    rw [if_pos hb, decodel, decode_encode h hn', toUInt16_of_le hd]

end

/-! ## The mask -/

/-- The mask that says which of the changing fields changed. -/
def fieldBits (u w a s : Bool) : UInt8 :=
  bit u newU ||| bit w newW ||| bit a newA ||| bit s newS

/-- The whole first octet. -/
def maskBits (u w a s i p c : Bool) : UInt8 :=
  fieldBits u w a s ||| bit i newI ||| bit p tcpPushBit ||| bit c newC

theorem maskBits_test (u w a s i p c : Bool) :
    (maskBits u w a s i p c &&& newU ≠ 0 ↔ u = true) ∧
    (maskBits u w a s i p c &&& newW ≠ 0 ↔ w = true) ∧
    (maskBits u w a s i p c &&& newA ≠ 0 ↔ a = true) ∧
    (maskBits u w a s i p c &&& newS ≠ 0 ↔ s = true) ∧
    (maskBits u w a s i p c &&& newI ≠ 0 ↔ i = true) ∧
    (maskBits u w a s i p c &&& tcpPushBit ≠ 0 ↔ p = true) ∧
    (maskBits u w a s i p c &&& newC ≠ 0 ↔ c = true) ∧
    maskBits u w a s i p c &&& specialsMask = fieldBits u w a s := by
  revert u w a s i p c
  decide

theorem fieldBits_inj {u w a s u' w' a' s' : Bool}
    (h : fieldBits u w a s = fieldBits u' w' a' s') : u = u' ∧ w = w' ∧ a = a' ∧ s = s' := by
  revert u w a s u' w' a' s'
  decide

theorem specialI_bits : specialI = fieldBits true true false true := rfl

theorem specialD_bits : specialD = fieldBits true true true true := rfl

/-! ## The sender's choice -/

/-- The urgent flag is set. -/
def urgent (b : Buf) (t : Nat) : Bool := thFlags b t &&& thUrg != 0

/-- By how much the window, the ack and the seq changed. -/
def deltaW (old ip : Buf) : UInt16 := ip.u16 (tcpAt ip + 14) - old.u16 (tcpAt ip + 14)

def deltaA (old ip : Buf) : UInt32 := ip.u32 (tcpAt ip + 8) - old.u32 (tcpAt ip + 8)

def deltaS (old ip : Buf) : UInt32 := ip.u32 (tcpAt ip + 4) - old.u32 (tcpAt ip + 4)

/-- How much data the saved packet had, if its header is as long as this
one. -/
def dataLen (old ip : Buf) : UInt32 := (old.u16 2).toUInt32 - UInt32.ofNat (hdrLen ip)

/-- By how much the identification did. -/
def deltaI (old ip : Buf) : UInt32 := (ip.u16 4).toUInt32 - (old.u16 4).toUInt32

/-- What is put down when no special encoding is used. -/
def fieldSeq (old ip : Buf) : List UInt8 :=
  (if urgent ip (tcpAt ip) then encodez (ip.u16 (tcpAt ip + 18)) else []) ++
    ((if deltaW old ip != 0 then encode (deltaW old ip) else []) ++
    ((if deltaA old ip != 0 then encode (deltaA old ip).toUInt16 else []) ++
    (if deltaS old ip != 0 then encode (deltaS old ip).toUInt16 else [])))

/-- What is put down about the identification. -/
def idSeq (old ip : Buf) : List UInt8 :=
  if deltaI old ip != 1 then encodez (deltaI old ip).toUInt16 else []

/-- What the sender says about the changing fields: the fields themselves, or
that the packet follows on the saved one, with the data of both directions
acknowledged or of none. -/
inductive Said (old ip : Buf) : UInt8 → List UInt8 → Prop
  | fields
      (hi : fieldBits (urgent ip (tcpAt ip)) (deltaW old ip != 0) (deltaA old ip != 0)
        (deltaS old ip != 0) ≠ specialI)
      (hd : fieldBits (urgent ip (tcpAt ip)) (deltaW old ip != 0) (deltaA old ip != 0)
        (deltaS old ip != 0) ≠ specialD) :
      Said old ip (fieldBits (urgent ip (tcpAt ip)) (deltaW old ip != 0)
        (deltaA old ip != 0) (deltaS old ip != 0)) (fieldSeq old ip)
  | echo (hu : urgent ip (tcpAt ip) = false) (hw : deltaW old ip = 0)
      (ha : deltaA old ip = dataLen old ip) (hs : deltaS old ip = dataLen old ip)
      (h0 : deltaS old ip ≠ 0) : Said old ip specialI []
  | data (hu : urgent ip (tcpAt ip) = false) (hw : deltaW old ip = 0)
      (ha : deltaA old ip = 0) (hs : deltaS old ip = dataLen old ip)
      (h0 : deltaS old ip ≠ 0) : Said old ip specialD []

theorem Said.bits {old ip : Buf} {changes : UInt8} {newSeq : List UInt8}
    (h : Said old ip changes newSeq) : ∃ u w a s, changes = fieldBits u w a s := by
  cases h with
  | fields => exact ⟨_, _, _, _, rfl⟩
  | echo => exact ⟨_, _, _, _, specialI_bits⟩
  | data => exact ⟨_, _, _, _, specialD_bits⟩

theorem slSwitch_said {old ip : Buf} {changes : UInt8} {newSeq : List UInt8}
    (h : slSwitch old ip
      (fieldBits (urgent ip (tcpAt ip)) (deltaW old ip != 0) (deltaA old ip != 0)
        (deltaS old ip != 0)) (fieldSeq old ip) (deltaA old ip) (deltaS old ip) =
      some (changes, newSeq)) : Said old ip changes newSeq := by
  have plain : ∀ {x : UInt8 × List UInt8}, some x = some (changes, newSeq) →
      x.1 = changes ∧ x.2 = newSeq := by
    rintro x ⟨⟩
    exact ⟨rfl, rfl⟩
  unfold slSwitch at h
  dsimp only at h
  split at h
  · next h0 =>
      split at h
      · obtain ⟨rfl, rfl⟩ := plain h
        exact .fields (by rw [h0]; decide) (by rw [h0]; decide)
      · cases h
  split at h
  · cases h
  next hsp =>
  rw [not_or] at hsp
  split at h
  · next hsa =>
      obtain ⟨hu, hw, ha, hs⟩ := fieldBits_inj
        (hsa.trans (show newS ||| newA = fieldBits false false true true from rfl))
      split at h
      · next hd =>
          obtain ⟨rfl, rfl⟩ := plain h
          exact .echo hu (by simpa using hw) (hd.1 ▸ hd.2) hd.2 (by simpa using hs)
      · obtain ⟨rfl, rfl⟩ := plain h
        exact .fields hsp.1 hsp.2
  split at h
  · next hns =>
      obtain ⟨hu, hw, ha, hs⟩ := fieldBits_inj
        (hns.trans (show newS = fieldBits false false false true from rfl))
      split at h
      · next hd =>
          obtain ⟨rfl, rfl⟩ := plain h
          exact .data hu (by simpa using hw) (by simpa using ha) hd (by simpa using hs)
      · obtain ⟨rfl, rfl⟩ := plain h
        exact .fields hsp.1 hsp.2
  · obtain ⟨rfl, rfl⟩ := plain h
    exact .fields hsp.1 hsp.2

/-- The sender's choice, and the bounds it checked before making it. -/
theorem slChanges_said {old ip : Buf} {changes : UInt8} {newSeq : List UInt8}
    (h : slChanges old ip = some (changes, newSeq)) :
    (urgent ip (tcpAt ip) = true ∨ ip.u16 (tcpAt ip + 18) = old.u16 (tcpAt ip + 18)) ∧
      ¬ 0xffff < deltaA old ip ∧ ¬ 0xffff < deltaS old ip ∧ Said old ip changes newSeq := by
  unfold slChanges at h
  dsimp only at h
  split at h
  · cases h
  next hu =>
  split at h
  · cases h
  next hA =>
  split at h
  · cases h
  next hS =>
  refine ⟨?_, hA, hS, slSwitch_said h⟩
  by_cases hurg : urgent ip (tcpAt ip) = true
  · exact .inl hurg
  · exact .inr (not_not.mp fun hne => hu ⟨hurg, hne⟩)

/-- The packet follows on the saved one: no urgent data, the same window and
urgent pointer, the seq advanced by the data of the saved packet, and the ack by
nothing or by as much. -/
structure Follows (old ip : Buf) : Prop where
  quiet : urgent ip (tcpAt ip) = false
  urp : ip.u16 (tcpAt ip + 18) = old.u16 (tcpAt ip + 18)
  win : deltaW old ip = 0
  seq : deltaS old ip = dataLen old ip
  some : deltaS old ip ≠ 0
  ack : deltaA old ip = 0 ∨ deltaA old ip = dataLen old ip

def isSpecial (changes : UInt8) : Bool := changes == specialI || changes == specialD

/-- The special encodings are used for just these packets. -/
theorem slChanges_special {old ip : Buf} (hdata : ¬ 0xffff < dataLen old ip) :
    (∃ r, slChanges old ip = some r ∧ isSpecial r.1 = true) ↔ Follows old ip := by
  constructor
  · rintro ⟨⟨changes, newSeq⟩, hc, hsp⟩
    obtain ⟨hurp, -, -, hsaid⟩ := slChanges_said hc
    cases hsaid with
    | fields hi hd => simp [isSpecial, hi, hd] at hsp
    | echo hu hw ha hs h0 =>
        exact ⟨hu, hurp.resolve_left (by simp [hu]), hw, hs, h0, .inr ha⟩
    | data hu hw ha hs h0 =>
        exact ⟨hu, hurp.resolve_left (by simp [hu]), hw, hs, h0, .inl ha⟩
  · intro h
    have hA : ¬ 0xffff < deltaA old ip := by
      rcases h.ack with ha | ha
      · rw [ha]; decide
      · rw [ha]; exact hdata
    have hS : ¬ 0xffff < deltaS old ip := by rw [h.seq]; exact hdata
    have hu : ¬ (¬ urgent ip (tcpAt ip) = true ∧
        ip.u16 (tcpAt ip + 18) ≠ old.u16 (tcpAt ip + 18)) := fun hne => hne.2 h.urp
    have hsw : slChanges old ip = slSwitch old ip
        (fieldBits (urgent ip (tcpAt ip)) (deltaW old ip != 0) (deltaA old ip != 0)
          (deltaS old ip != 0)) (fieldSeq old ip) (deltaA old ip) (deltaS old ip) := by
      exact (if_neg hu).trans ((if_neg hA).trans (if_neg hS))
    have hs : (deltaS old ip != 0) = true := by simpa using h.some
    rw [hsw, h.quiet, h.win, hs]
    by_cases ha0 : deltaA old ip = 0
    · refine ⟨(specialD, []), ?_, rfl⟩
      rw [ha0]
      exact if_pos h.seq
    · have ha : deltaA old ip = dataLen old ip := h.ack.resolve_left ha0
      have hb : (deltaA old ip != 0) = true := by simpa using ha0
      refine ⟨(specialI, []), ?_, rfl⟩
      rw [hb]
      exact if_pos ⟨h.seq.trans ha.symm, h.seq⟩

/-! ## The receiver's header -/

/-- The saved header with the fields of the packet written over it. -/
def rebuilt (hdr ip : Buf) (t : Nat) (flags : UInt8) : Buf :=
  ((((((hdr.set16 (t + 16) (ip.u16 (t + 16))).set8 (t + 13) flags).set16 (t + 18)
    (ip.u16 (t + 18))).set16 (t + 14) (ip.u16 (t + 14))).set32 (t + 8)
    (ip.u32 (t + 8))).set32 (t + 4) (ip.u32 (t + 4))).set16 4 (ip.u16 4)

/-- The flags after the push bit was looked at. -/
def pushFlags (saved flags : UInt8) : UInt8 :=
  if flags &&& thPush != 0 then saved ||| thPush else saved &&& ~~~ thPush

/-- What the receiver's slot has to have in common with the sender's for the
changes to mean the same to both. -/
structure SameFields (hdr old : Buf) (t : Nat) : Prop where
  at20 : 20 ≤ t
  len : hdr.u16 2 = old.u16 2
  id : hdr.u16 4 = old.u16 4
  seq : hdr.u32 (t + 4) = old.u32 (t + 4)
  ack : hdr.u32 (t + 8) = old.u32 (t + 8)
  win : hdr.u16 (t + 14) = old.u16 (t + 14)
  urp : hdr.u16 (t + 18) = old.u16 (t + 18)

section

variable {b hdr old ip : Buf} {t cp : Nat}

theorem u16_add_sub (x y : UInt16) : x + (y - x) = y := by
  rw [UInt16.add_comm, UInt16.sub_add_cancel]

theorem u32_add_sub (x y : UInt32) : x + (y - x) = y := by
  rw [UInt32.add_comm, UInt32.sub_add_cancel]

/-- The urgent flag and pointer. A pointer that was not sent has not changed. -/
theorem urgent_spec {fl : UInt8} (hurp : urgent ip t = true ∨ ip.u16 (t + 18) = hdr.u16 (t + 18))
    (hb : b.Holds cp (if urgent ip t then encodez (ip.u16 (t + 18)) else [])) :
    (if urgent ip t then
        decodeu b (t + 18) (hdr.set8 (t + 13) (fl ||| thUrg), cp)
      else (hdr.set8 (t + 13) (fl &&& ~~~ thUrg), cp)) =
      ((hdr.set8 (t + 13) (if urgent ip t then fl ||| thUrg else fl &&& ~~~ thUrg)).set16
        (t + 18) (ip.u16 (t + 18)),
        cp + (if urgent ip t then encodez (ip.u16 (t + 18)) else []).length) := by
  by_cases hu : urgent ip t = true
  · rw [if_pos hu] at hb
    simp only [if_pos hu, decodeu, decode_encodez hb]
  · simp only [if_neg hu]
    have hself : ip.u16 (t + 18) = (hdr.set8 (t + 13) (fl &&& ~~~ thUrg)).u16 (t + 18) := by
      rw [Buf.u16_set8_of_ne _ (by omega)]
      exact hurp.resolve_left hu
    rw [hself, Buf.set16_self]
    rfl

/-- The four fields one after the other. -/
theorem slFields_spec {i p c : Bool} {fl : UInt8} (ht : tcpAt ip = t)
    (hf : SameFields hdr old t)
    (hurp : urgent ip t = true ∨ ip.u16 (t + 18) = old.u16 (t + 18))
    (hA : ¬ 0xffff < deltaA old ip) (hS : ¬ 0xffff < deltaS old ip)
    (hb : b.Holds cp (fieldSeq old ip)) :
    slFields b (maskBits (urgent ip t) (deltaW old ip != 0) (deltaA old ip != 0)
        (deltaS old ip != 0) i p c) t (hdr.set8 (t + 13) fl, cp) =
      ((((((hdr.set8 (t + 13) (if urgent ip t then fl ||| thUrg else fl &&& ~~~ thUrg)).set16
        (t + 18) (ip.u16 (t + 18))).set16 (t + 14) (ip.u16 (t + 14))).set32 (t + 8)
        (ip.u32 (t + 8))).set32 (t + 4) (ip.u32 (t + 4))),
        cp + (fieldSeq old ip).length) := by
  obtain ⟨tu, tw, ta, ts, -, -, -, -⟩ := maskBits_test (urgent ip t) (deltaW old ip != 0)
    (deltaA old ip != 0) (deltaS old ip != 0) i p c
  rw [fieldSeq] at hb ⊢
  rw [ht] at hb ⊢
  rw [Buf.holds_append, Buf.holds_append, Buf.holds_append] at hb
  obtain ⟨hbu, hbw, hba, hbs⟩ := hb
  have hflags : thFlags (hdr.set8 (t + 13) fl) t = fl := Buf.set8_same fl
  rw [← hf.urp] at hurp
  rw [slFields]
  simp only [tu, tw, ta, ts, hflags, Buf.set8_set8]
  rw [urgent_spec hurp hbu, decodes_opt hbw, decodel_opt hA hba, decodel_opt hS hbs]
  have hw : hdr.u16 (t + 14) + deltaW old ip = ip.u16 (t + 14) := by
    rw [deltaW, ht, hf.win, u16_add_sub]
  have ha : hdr.u32 (t + 8) + deltaA old ip = ip.u32 (t + 8) := by
    rw [deltaA, ht, hf.ack, u32_add_sub]
  have hs : hdr.u32 (t + 4) + deltaS old ip = ip.u32 (t + 4) := by
    rw [deltaS, ht, hf.seq, u32_add_sub]
  simp (disch := omega) only [Buf.u16_set16_of_ne, Buf.u16_set8_of_ne, Buf.u32_set8_of_ne,
    Buf.u32_set16_of_ne, Buf.u32_set32_of_ne, hw, ha, hs, List.length_append, Nat.add_assoc]

/-- The identification: an increment of one is not sent. -/
theorem decodeId_spec (hid : hdr.u16 4 = old.u16 4) (hb : b.Holds cp (idSeq old ip)) :
    (if (deltaI old ip != 1) = true then decodes b 4 (hdr, cp)
      else (hdr.set16 4 (hdr.u16 4 + 1), cp)) =
      (hdr.set16 4 (ip.u16 4), cp + (idSeq old ip).length) := by
  have hsub : hdr.u16 4 + (deltaI old ip).toUInt16 = ip.u16 4 := by
    apply UInt16.toNat_inj.mp
    have h₁ := (old.u16 4).toNat_lt
    have h₂ := (ip.u16 4).toNat_lt
    simp only [hid, deltaI, UInt16.toNat_add, UInt32.toNat_toUInt16, UInt32.toNat_sub,
      UInt16.toNat_toUInt32]
    omega
  rw [idSeq] at hb ⊢
  by_cases hd : (deltaI old ip != 1) = true
  · rw [if_pos hd] at hb
    simp only [if_pos hd, decodes, decode_encodez hb, hsub]
  · simp only [if_neg hd]
    have h1 : deltaI old ip = 1 := by simpa using hd
    rw [h1] at hsub
    rw [show hdr.u16 4 + 1 = ip.u16 4 from hsub]
    rfl

/-- The flags after the switch: the special encodings leave the urgent flag as it
was. -/
def switchFlags (special : Bool) (ip : Buf) (t : Nat) (fl : UInt8) : UInt8 :=
  if special then fl else if urgent ip t then fl ||| thUrg else fl &&& ~~~ thUrg

/-- The switch, whichever branch it takes. -/
theorem slRecvSwitch_spec {changes : UInt8} {newSeq : List UInt8} {hl : UInt16} {fl : UInt8}
    {u w a s i p c : Bool} (hc : changes = fieldBits u w a s)
    (ht : tcpAt ip = t) (hf : SameFields hdr old t)
    (hlen : hl.toUInt32 = UInt32.ofNat (hdrLen ip))
    (hurp : urgent ip t = true ∨ ip.u16 (t + 18) = old.u16 (t + 18))
    (hA : ¬ 0xffff < deltaA old ip) (hS : ¬ 0xffff < deltaS old ip)
    (hsaid : Said old ip changes newSeq) (hb : b.Holds cp newSeq) :
    slRecvSwitch b (maskBits u w a s i p c) hl t (hdr.set8 (t + 13) fl) cp =
      ((((((hdr.set8 (t + 13) (switchFlags (isSpecial changes) ip t fl)).set16
        (t + 18) (ip.u16 (t + 18))).set16 (t + 14) (ip.u16 (t + 14))).set32 (t + 8)
        (ip.u32 (t + 8))).set32 (t + 4) (ip.u32 (t + 4))), cp + newSeq.length) := by
  have h20 := hf.at20
  have hmask := (maskBits_test u w a s i p c).2.2.2.2.2.2.2
  -- in the special encodings the urgent pointer and the window stay as they are
  have quiet : urgent ip t = false → deltaW old ip = 0 →
      ((hdr.set8 (t + 13) fl).set16 (t + 18) (ip.u16 (t + 18))).set16 (t + 14)
        (ip.u16 (t + 14)) = hdr.set8 (t + 13) fl := by
    intro hu hw
    have h₁ : ip.u16 (t + 18) = (hdr.set8 (t + 13) fl).u16 (t + 18) := by
      rw [Buf.u16_set8_of_ne _ (by omega), hf.urp]
      exact hurp.resolve_left (by simp [hu])
    have h₂ : ip.u16 (t + 14) = (hdr.set8 (t + 13) fl).u16 (t + 14) := by
      rw [Buf.u16_set8_of_ne _ (by omega), hf.win, ← u16_add_sub (old.u16 (t + 14)) (ip.u16 (t + 14))]
      rw [deltaW, ht] at hw
      rw [hw, UInt16.add_zero]
    rw [h₁, Buf.set16_self, h₂, Buf.set16_self]
  have hdata : ((hdr.set8 (t + 13) fl).u16 2).toUInt32 - hl.toUInt32 = dataLen old ip := by
    rw [Buf.u16_set8_of_ne _ (by omega), hf.len, hlen, dataLen]
  have hseq : deltaS old ip = dataLen old ip → hdr.u32 (t + 4) + dataLen old ip = ip.u32 (t + 4) := by
    intro hs
    rw [← hs, deltaS, ht, hf.seq, u32_add_sub]
  rw [slRecvSwitch]
  rw [hmask, ← hc]
  dsimp only
  cases hsaid with
  | fields hi hd =>
      rw [ht] at hc hi hd
      obtain ⟨rfl, rfl, rfl, rfl⟩ := fieldBits_inj hc
      rw [ht, if_neg hi, if_neg hd, slFields_spec ht hf hurp hA hS hb]
      simp [switchFlags, isSpecial, hi, hd]
  | echo hu hw ha hs _ =>
      rw [ht] at hu
      have hack : hdr.u32 (t + 8) + dataLen old ip = ip.u32 (t + 8) := by
        rw [← ha, deltaA, ht, hf.ack, u32_add_sub]
      rw [if_pos rfl, show switchFlags (isSpecial specialI) ip t fl = fl from rfl, quiet hu hw, hdata]
      simp (disch := omega) only [Buf.u32_set8_of_ne, Buf.u32_set32_of_ne, hack, hseq hs,
        List.length_nil, Nat.add_zero]
  | data hu hw ha hs _ =>
      rw [ht] at hu
      have hack : ip.u32 (t + 8) = (hdr.set8 (t + 13) fl).u32 (t + 8) := by
        rw [Buf.u32_set8_of_ne _ (by omega), hf.ack, ← u32_add_sub (old.u32 (t + 8)) (ip.u32 (t + 8))]
        rw [deltaA, ht] at ha
        rw [ha, UInt32.add_zero]
      rw [if_neg (by decide), if_pos rfl, show switchFlags (isSpecial specialD) ip t fl = fl from rfl,
        quiet hu hw, hdata, hack, Buf.set32_self]
      simp (disch := omega) only [Buf.u32_set8_of_ne, hseq hs, List.length_nil, Nat.add_zero]

/-- Octet by octet: what is not written stays. -/
theorem rebuilt_octet {fl : UInt8} {i : Nat} (ht : 20 ≤ t) :
    rebuilt hdr ip t fl i =
      if i = t + 13 then fl
      else if 4 ≤ i ∧ i < 6 ∨ t + 4 ≤ i ∧ i < t + 12 ∨ t + 14 ≤ i ∧ i < t + 20 then ip i
      else hdr i := by
  rw [rebuilt]
  simp only [Buf.set16_u16, Buf.set32_u32, Buf.set8]
  split_ifs <;> first | rfl | omega

theorem SameFields.set16 {v : UInt16} (hf : SameFields hdr old t) :
    SameFields (hdr.set16 (t + 16) v) old t := by
  have h20 := hf.at20
  constructor
  · exact h20
  · rw [Buf.u16_set16_of_ne _ (by omega), hf.len]
  · rw [Buf.u16_set16_of_ne _ (by omega), hf.id]
  · rw [Buf.u32_set16_of_ne _ (by omega), hf.seq]
  · rw [Buf.u32_set16_of_ne _ (by omega), hf.ack]
  · rw [Buf.u16_set16_of_ne _ (by omega), hf.win]
  · rw [Buf.u16_set16_of_ne _ (by omega), hf.urp]

/-- The whole of what the receiver does to its saved header. -/
theorem slApply_said {cs : CState} {changes : UInt8} {newSeq : List UInt8} {c : Bool}
    {sum : List UInt8} (ht : tcpAt ip = t) (htcs : tcpAt cs.csHdr = t)
    (hf : SameFields cs.csHdr old t) (hlen : cs.csHlen.toUInt32 = UInt32.ofNat (hdrLen ip))
    (hsum : sum = put16 (ip.u16 (t + 16)))
    (hurp : urgent ip t = true ∨ ip.u16 (t + 18) = old.u16 (t + 18))
    (hA : ¬ 0xffff < deltaA old ip) (hS : ¬ 0xffff < deltaS old ip)
    (hsaid : Said old ip changes newSeq) (hb : b.Holds cp (sum ++ (newSeq ++ idSeq old ip))) :
    slApply b (changes ||| bit (deltaI old ip != 1) newI |||
        bit (thFlags ip t &&& thPush != 0) tcpPushBit ||| bit c newC) cs cp =
      (rebuilt cs.csHdr ip t (switchFlags (isSpecial changes) ip t
        (pushFlags (thFlags cs.csHdr t) (thFlags ip t))),
        cp + 2 + (newSeq ++ idSeq old ip).length) := by
  have h20 := hf.at20
  obtain ⟨u, w, a, s, hc⟩ := hsaid.bits
  have hmask : changes ||| bit (deltaI old ip != 1) newI |||
      bit (thFlags ip t &&& thPush != 0) tcpPushBit ||| bit c newC =
      maskBits u w a s (deltaI old ip != 1) (thFlags ip t &&& thPush != 0) c := by
    rw [hc, maskBits]
  obtain ⟨-, -, -, -, ti, tp, -, -⟩ := maskBits_test u w a s (deltaI old ip != 1)
    (thFlags ip t &&& thPush != 0) c
  rw [hmask]
  rw [Buf.holds_append, Buf.holds_append] at hb
  obtain ⟨hbsum, hbseq, hbid⟩ := hb
  have h2 : sum.length = 2 := by rw [hsum]; rfl
  rw [h2] at hbseq hbid
  have hu16 : b.u16 cp = ip.u16 (t + 16) := Buf.u16_of_holds (hsum ▸ hbsum)
  have hpush : slPush (maskBits u w a s (deltaI old ip != 1) (thFlags ip t &&& thPush != 0) c) t
      (cs.csHdr.set16 (t + 16) (b.u16 cp)) =
      (cs.csHdr.set16 (t + 16) (ip.u16 (t + 16))).set8 (t + 13)
        (pushFlags (thFlags cs.csHdr t) (thFlags ip t)) := by
    have hfl : thFlags (cs.csHdr.set16 (t + 16) (ip.u16 (t + 16))) t = thFlags cs.csHdr t :=
      Buf.set16_of_ne _ (by omega)
    simp only [slPush, tp, hu16, hfl, pushFlags]
    split <;> rfl
  rw [slApply]
  simp only [htcs, hpush, ti]
  rw [slRecvSwitch_spec hc ht hf.set16 hlen hurp hA hS hsaid hbseq]
  rw [decodeId_spec _ hbid]
  · simp only [rebuilt, List.length_append, Nat.add_assoc]
  · simp (disch := omega) only [Buf.u16_set32_of_ne, Buf.u16_set16_of_ne, Buf.u16_set8_of_ne]
    exact hf.id

end

end VxWorks.Netinet
