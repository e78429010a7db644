import VxWorks.Lib.Run
import VxWorks.Netinet.SlHeaders
import VxWorks.Netinet.SlSlots

/-!
# The link with compressed headers

Two ends start from `slCompressInit` and every packet gets across. What has to
hold between them is that each slot of the receiver is the slot of the sender
with the checksum cleared, and that the receiver's idea of the last connection is
the sender's; `Sync` says so, and a packet that gets across unchanged leaves it
so. What can go wrong is one flag. A packet without urgent data that follows on
one that had some is sent in one of the special encodings, which do not mention
the flag, and the receiver then delivers it with the flag still set.
`roundTrip_iff_no_stale_urgent` says that this is all that can go wrong.
-/

namespace VxWorks.Netinet

open VxWorks.Lib

/-! ## Packets -/

/-- A TCP/IP packet, not fragmented and with its reserved bits zero. The IP
checksum is the complement of the sum of the other words. -/
structure TcpIpPacket where
  octets : List UInt8
  ipWords : 5 ≤ ipHl (.of octets)
  tcpWords : 5 ≤ thOff (.of octets) (tcpAt (.of octets))
  headers : hdrLen (.of octets) ≤ octets.length
  ipLen : ((Buf.of octets).u16 2).toNat = octets.length
  proto : Buf.of octets 9 = ipprotoTcp
  ipSum : (Buf.of octets).u16 10 = ipCksum ((Buf.of octets).set16 10 0) (tcpAt (.of octets))
  notFrag : (Buf.of octets).u16 6 &&& 0x3fff = 0
  thX2 : (Buf.of octets (tcpAt (.of octets) + 12)).toNat % 16 = 0
  reserved : thFlags (.of octets) (tcpAt (.of octets)) &&& 0xc0 = 0

/-- A packet handed to the sender, with the length of its first mbuf. -/
structure Handed where
  pkt : TcpIpPacket
  mLen : Nat
  first : hdrLen (.of pkt.octets) ≤ mLen
  compressCid : Bool

/-- What the sender made of a packet reaches the receiver; plain IP passes it
by. -/
def carry (rx : SlCompress) (s : PktType × List UInt8 × SlCompress) :
    Option (List UInt8) × SlCompress × SlCompress :=
  match s.1 with
  | .ip => (some s.2.1, s.2.2, rx)
  | type =>
      let r := slUncompressTcp type s.2.1 rx
      (r.1, s.2.2, r.2)

/-- A packet goes through both ends. -/
def exchange (tx rx : SlCompress) (e : Handed) :
    Option (List UInt8) × SlCompress × SlCompress :=
  match slCompressTcp e.mLen e.pkt.octets tx e.compressCid with
  | none => (none, tx, rx)
  | some s => carry rx s

/-- The two ends, what went in and what came out. -/
structure Link where
  tx : SlCompress
  rx : SlCompress
  sent : List (List UInt8)
  got : List (Option (List UInt8))

def Link.init : Link := ⟨slCompressInit, slCompressInit, [], []⟩

def Link.step (l : Link) (e : Handed) : Link :=
  let r := exchange l.tx l.rx e
  ⟨r.2.1, r.2.2, l.sent ++ [e.pkt.octets], l.got ++ [r.1]⟩

/-! ## Flags -/

/-- The flags of a packet that can be compressed. -/
def ackFlags (push urg : Bool) : UInt8 := thAck ||| bit push thPush ||| bit urg thUrg

/-- The packet is an ordinary one: no connection is being set up or torn down. -/
def ordinary (flags : UInt8) : Prop := flags &&& (thSyn ||| thFin ||| thRst ||| thAck) = thAck

theorem flags_eq_ackFlags : ∀ f : UInt8, ordinary f → f &&& 0xc0 = 0 →
    f = ackFlags (f &&& thPush != 0) (f &&& thUrg != 0) := by
  unfold ordinary
  refine forall_octet ?_
  decide +kernel

theorem pushFlags_ackFlags (p u p' u' : Bool) :
    pushFlags (ackFlags p u) (ackFlags p' u') = ackFlags p' u := by
  revert p u p' u'
  decide

/-- What the switch of the receiver makes of the flags; a special encoding is
used for packets without urgent data. -/
theorem switch_ackFlags {special u' : Bool} (p u : Bool) (hq : special = true → u' = false) :
    ((if special then ackFlags p u
      else if u' then ackFlags p u ||| thUrg else ackFlags p u &&& ~~~ thUrg) =
        ackFlags p u') ↔ ¬ (special = true ∧ u = true) := by
  revert special u' p u
  decide

/-! ## Two slots -/

/-- A header that can be the saved one of a slot. -/
structure Saved (old : Buf) : Prop where
  ipWords : 5 ≤ ipHl old
  tcpWords : 5 ≤ thOff old (tcpAt old)
  len : hdrLen old ≤ (old.u16 2).toNat
  thX2 : (old (tcpAt old + 12)).toNat % 16 = 0
  flags : ∃ push, thFlags old (tcpAt old) = ackFlags push (urgent old (tcpAt old))

/-- The receiver's slot is the sender's, with the checksum cleared. -/
structure Synced (old : Buf) (cs : CState) : Prop extends Saved old where
  hlen : cs.csHlen.toNat = hdrLen old
  sum : cs.csHdr.u16 10 = 0
  same : ∀ i < hdrLen old, i ≠ 10 → i ≠ 11 → cs.csHdr i = old i

theorem tcpAt_eq (b : Buf) : tcpAt b = 4 * ipHl b := rfl

theorem hdrLen_eq (b : Buf) : hdrLen b = tcpAt b + 4 * thOff b (tcpAt b) := by
  rw [hdrLen, tcpAt]
  omega

section

variable {old ip b c : Buf}

/-- Two headers that agree as far as one of them says it goes. -/
theorem hdrLen_congr (hip : 5 ≤ ipHl b) (htcp : 5 ≤ thOff b (tcpAt b))
    (h : ∀ i < hdrLen b, i ≠ 10 → i ≠ 11 → c i = b i) :
    ipHl c = ipHl b ∧ tcpAt c = tcpAt b ∧ hdrLen c = hdrLen b := by
  have ht := tcpAt_eq b
  have hl := hdrLen_eq b
  have h₀ : ipHl c = ipHl b := by rw [ipHl, h 0 (by omega) (by decide) (by decide), ipHl]
  have h₁ : tcpAt c = tcpAt b := by rw [tcpAt, h₀, tcpAt]
  have h₂ : thOff c (tcpAt b) = thOff b (tcpAt b) := by
    rw [thOff, h _ (by omega) (by omega) (by omega), thOff]
  exact ⟨h₀, h₁, by rw [hdrLen_eq c, hl, h₁, h₂]⟩

/-- The octets that the sender compares. -/
theorem octet_of_sameTemplate {cs : CState} (hc : sameConn cs ip = true)
    (ht : sameTemplate cs.csHdr ip = true) (hip : 5 ≤ ipHl ip)
    (hx : (cs.csHdr (tcpAt ip + 12)).toNat % 16 = (ip (tcpAt ip + 12)).toNat % 16)
    {i : Nat} (hi : i < hdrLen ip) (h₁ : i < 2 ∨ 6 ≤ i) (h₂ : i ≠ 10 ∧ i ≠ 11)
    (h₃ : i < tcpAt ip + 4 ∨ i = tcpAt ip + 12 ∨ tcpAt ip + 20 ≤ i) : cs.csHdr i = ip i := by
  have hat := tcpAt_eq ip
  have hl := hdrLen_eq ip
  simp only [sameConn, Bool.and_eq_true, beq_iff_eq] at hc
  simp only [sameTemplate, Bool.and_eq_true, beq_iff_eq, decide_eq_true_eq] at ht
  obtain ⟨⟨hsrc, hdst⟩, hports⟩ := hc
  obtain ⟨⟨⟨⟨⟨w0, w3⟩, w4⟩, hoff⟩, hipopt⟩, htcpopt⟩ := ht
  have o0 := Buf.octets_of_u16 w0
  have o3 := Buf.octets_of_u16 w3
  have o4 := Buf.octets_of_u16 w4
  have hatc : tcpAt cs.csHdr = tcpAt ip := by rw [tcpAt, ipHl, ← o0.1, tcpAt, ipHl]
  rw [hatc] at hports
  rcases (show i = 0 ∨ i = 1 ∨ i = 6 ∨ i = 7 ∨ i = 8 ∨ i = 9 ∨ 12 ≤ i by omega) with
    rfl | rfl | rfl | rfl | rfl | rfl | h12
  · exact o0.1.symm
  · exact o0.2.symm
  · exact o3.1.symm
  · exact o3.2.symm
  · exact o4.1.symm
  · exact o4.2.symm
  by_cases hs : i < 16
  · exact (Buf.octets_of_u32 hsrc h12 hs).symm
  by_cases hd : i < 20
  · exact (Buf.octets_of_u32 hdst (by omega) hd).symm
  by_cases ho : i < tcpAt ip
  · obtain ⟨k, rfl⟩ : ∃ k, i = 20 + k := ⟨i - 20, by omega⟩
    exact (hipopt k (by omega)).symm
  by_cases hp : i < tcpAt ip + 4
  · exact (Buf.octets_of_u32 hports (by omega) hp).symm
  rcases h₃ with h₃ | rfl | h₃
  · omega
  · apply UInt8.toNat_inj.mp
    unfold thOff at hoff
    omega
  · obtain ⟨k, rfl⟩ : ∃ k, i = tcpAt ip + 20 + k := ⟨i - tcpAt ip - 20, by omega⟩
    exact (htcpopt k (by omega)).symm

theorem Saved.congr (h : Saved b) (hc : ∀ i < hdrLen b, c i = b i) : Saved c := by
  have ht := tcpAt_eq b
  have hl := hdrLen_eq b
  have hip := h.ipWords
  have htcp := h.tcpWords
  obtain ⟨e₁, e₂, e₃⟩ := hdrLen_congr hip htcp fun i hi _ _ => hc i hi
  have hlen : c.u16 2 = b.u16 2 := Buf.u16_congr (hc 2 (by omega)) (hc 3 (by omega))
  have hoff : c (tcpAt b + 12) = b (tcpAt b + 12) := hc _ (by omega)
  have hfl : c (tcpAt b + 13) = b (tcpAt b + 13) := hc _ (by omega)
  constructor
  · rw [e₁]; exact hip
  · rw [e₂, thOff, hoff]; exact htcp
  · rw [e₃, hlen]; exact h.len
  · rw [e₂, hoff]; exact h.thX2
  · rw [e₂, urgent, thFlags, hfl]; exact h.flags

theorem wordSum_congr {n : Nat} (h : ∀ i < 2 * n, b i = c i) : wordSum b n = wordSum c n := by
  induction n with
  | zero => rfl
  | succ n ih =>
      rw [wordSum, wordSum, ih fun i hi => h i (by omega),
        Buf.u16_congr (h _ (by omega)) (h _ (by omega))]

theorem ipCksum_congr {n : Nat} (h : ∀ i < n, b i = c i) : ipCksum b n = ipCksum c n := by
  rw [ipCksum, wordSum_congr fun i hi => h i (by omega), ipCksum]

end

section

variable (p : TcpIpPacket)

/-- The packet as the header that its slots will have. -/
theorem TcpIpPacket.saved (h : ordinary (thFlags (.of p.octets) (tcpAt (.of p.octets)))) :
    Saved (.of p.octets) where
  ipWords := p.ipWords
  tcpWords := p.tcpWords
  len := by rw [p.ipLen]; exact p.headers
  thX2 := p.thX2
  flags := ⟨_, flags_eq_ackFlags _ h p.reserved⟩

end

/-! ## One compressed packet -/

/-- The flags that the receiver arrives at. -/
def flagsAfter (special : Bool) (old ip : Buf) : UInt8 :=
  switchFlags special ip (tcpAt ip)
    (pushFlags (thFlags old (tcpAt ip)) (thFlags ip (tcpAt ip)))

/-- The receiver's slot after the packet. -/
def slotAfter (hdr : Buf) (special : Bool) (old ip : Buf) : Buf :=
  (rebuilt hdr ip (tcpAt ip) (flagsAfter special old ip)).set16 2 (ip.u16 2)

section

variable {old ip : Buf} {cs : CState}

theorem flagsAfter_eq_iff (hold : Saved old) (hip : Saved ip) (ht : tcpAt old = tcpAt ip)
    {special : Bool} (hq : special = true → urgent ip (tcpAt ip) = false) :
    flagsAfter special old ip = thFlags ip (tcpAt ip) ↔
      ¬ (special = true ∧ urgent old (tcpAt ip) = true) := by
  obtain ⟨p₁, h₁⟩ := hold.flags
  obtain ⟨p₂, h₂⟩ := hip.flags
  rw [ht] at h₁
  rw [flagsAfter, switchFlags]
  rw [h₁, h₂, pushFlags_ackFlags]
  exact switch_ackFlags p₂ _ hq

/-- A packet that the sender may compress: its connection has the slots `tcs` at
the sender and `cs` at the receiver. -/
structure Resumes (tcs cs : CState) (ip : Buf) : Prop where
  sync : Synced tcs.csHdr cs
  conn : sameConn tcs ip = true
  template : sameTemplate tcs.csHdr ip = true
  saved : Saved ip

variable {tcs : CState}

theorem Resumes.tcpAt_eq (h : Resumes tcs cs ip) : tcpAt tcs.csHdr = tcpAt ip := by
  have ht := h.template
  simp only [sameTemplate, Bool.and_eq_true, beq_iff_eq] at ht
  rw [tcpAt, ipHl, ← (Buf.octets_of_u16 ht.1.1.1.1.1).1, tcpAt, ipHl]

theorem Resumes.hdrLen_eq (h : Resumes tcs cs ip) : hdrLen tcs.csHdr = hdrLen ip := by
  have ht := h.template
  simp only [sameTemplate, Bool.and_eq_true, beq_iff_eq] at ht
  rw [Netinet.hdrLen_eq, h.tcpAt_eq, ← ht.1.1.2, Netinet.hdrLen_eq ip]

theorem Resumes.same (h : Resumes tcs cs ip) {i : Nat} (hi : i < hdrLen ip) (h₁₀ : i ≠ 10)
    (h₁₁ : i ≠ 11) : cs.csHdr i = tcs.csHdr i :=
  h.sync.same i (h.hdrLen_eq ▸ hi) h₁₀ h₁₁

theorem Resumes.dataLen_le (h : Resumes tcs cs ip) : ¬ 0xffff < dataLen tcs.csHdr ip := by
  have hlen := h.sync.len
  have hL := hdrLen_le ip
  have h16 := (tcs.csHdr.u16 2).toNat_lt
  have hnat : (UInt32.ofNat (hdrLen ip)).toNat = hdrLen ip :=
    UInt32.toNat_ofNat_of_lt' (by simp only [UInt32.size]; omega)
  rw [h.hdrLen_eq] at hlen
  rw [UInt32.lt_iff_toNat_lt, dataLen, UInt32.toNat_sub, hnat, UInt16.toNat_toUInt32]
  simp only [UInt32.reduceToNat]
  omega

/-- The slot, octet by octet. -/
theorem slotAfter_octet (special : Bool) (h : Resumes tcs cs ip) {i : Nat} (hi : i < hdrLen ip) :
    slotAfter cs.csHdr special tcs.csHdr ip i =
      if i = tcpAt ip + 13 then flagsAfter special tcs.csHdr ip
      else if i = 10 ∨ i = 11 then 0 else ip i := by
  have hat := Netinet.tcpAt_eq ip
  have hw := h.saved.ipWords
  have hx₁ := h.sync.thX2
  have hx₂ := h.saved.thX2
  rw [h.tcpAt_eq] at hx₁
  rw [slotAfter]
  rw [Buf.set16_u16, rebuilt_octet (by omega)]
  by_cases h₁₃ : i = tcpAt ip + 13
  · rw [if_neg (by omega), if_pos h₁₃, if_pos h₁₃]
  rw [if_neg h₁₃, if_neg h₁₃]
  by_cases hsum : i = 10 ∨ i = 11
  · have hzero := Buf.octets_of_u16 (b := cs.csHdr) (c := fun _ => 0) (i := 10) h.sync.sum
    rw [if_neg (by omega), if_neg (by omega), if_pos hsum]
    rcases hsum with rfl | rfl
    · exact hzero.1
    · exact hzero.2
  rw [if_neg hsum]
  split_ifs
  · rfl
  · rfl
  · rw [h.same hi (by omega) (by omega)]
    exact octet_of_sameTemplate h.conn h.template hw (by omega) hi (by omega) (by omega)
      (by omega)

/-- The fields that changes are added to. -/
theorem Resumes.fields (h : Resumes tcs cs ip) : SameFields cs.csHdr tcs.csHdr (tcpAt ip) := by
  have hat := Netinet.tcpAt_eq ip
  have hl := Netinet.hdrLen_eq ip
  have hw := h.saved.ipWords
  have ho := h.saved.tcpWords
  constructor
  · omega
  · exact Buf.u16_congr (h.same (by omega) (by omega) (by omega))
      (h.same (by omega) (by omega) (by omega))
  · exact Buf.u16_congr (h.same (by omega) (by omega) (by omega))
      (h.same (by omega) (by omega) (by omega))
  · exact Buf.u32_congr fun j _ _ => h.same (by omega) (by omega) (by omega)
  · exact Buf.u32_congr fun j _ _ => h.same (by omega) (by omega) (by omega)
  · exact Buf.u16_congr (h.same (by omega) (by omega) (by omega))
      (h.same (by omega) (by omega) (by omega))
  · exact Buf.u16_congr (h.same (by omega) (by omega) (by omega))
      (h.same (by omega) (by omega) (by omega))

/-- What is sent of a compressed packet after the mask and the id. -/
def changesOf (old ip : Buf) (newSeq : List UInt8) : List UInt8 :=
  put16 (ip.u16 (tcpAt ip + 16)) ++ (newSeq ++ idSeq old ip)

/-- The first octet of a compressed packet. -/
def maskOf (old ip : Buf) (changes : UInt8) (c : Bool) : UInt8 :=
  changes ||| bit (deltaI old ip != 1) newI |||
    bit (thFlags ip (tcpAt ip) &&& thPush != 0) tcpPushBit ||| bit c newC

/-- The receiver of a compressed packet with the data `data`. -/
theorem slRecvChanges_spec {rx : SlCompress} {pre newSeq data : List UInt8} {changes : UInt8}
    {c : Bool} (h : Resumes tcs (rx.rstate rx.lastRecv.toNat) ip)
    (hch : slChanges tcs.csHdr ip = some (changes, newSeq))
    (hlen : (ip.u16 2).toNat = data.length + hdrLen ip)
    (hmask : Buf.of (pre ++ (changesOf tcs.csHdr ip newSeq ++ data)) 0 =
      maskOf tcs.csHdr ip changes c) :
    slRecvChanges (pre ++ (changesOf tcs.csHdr ip newSeq ++ data)) rx pre.length =
      let cs := rx.rstate rx.lastRecv.toNat
      let hdr := slotAfter cs.csHdr (isSpecial changes) tcs.csHdr ip
      (some ((hdr.set16 10 (ipCksum hdr (tcpAt ip))).take (hdrLen ip) ++ data),
        setSlot rx rx.lastRecv.toNat { cs with csHdr := hdr }) := by
  obtain ⟨hurp, hA, hS, hsaid⟩ := slChanges_said hch
  have hat := Netinet.tcpAt_eq ip
  have hl := Netinet.hdrLen_eq ip
  have hw := h.saved.ipWords
  have ho := h.saved.tcpWords
  have hhlen : (rx.rstate rx.lastRecv.toNat).csHlen.toNat = hdrLen ip := by
    rw [h.sync.hlen, h.hdrLen_eq]
  have htcs : tcpAt (rx.rstate rx.lastRecv.toNat).csHdr = tcpAt ip := by
    rw [← h.tcpAt_eq, tcpAt, ipHl, h.same (by omega) (by decide) (by decide), tcpAt, ipHl]
  have hlen32 : (rx.rstate rx.lastRecv.toNat).csHlen.toUInt32 = UInt32.ofNat (hdrLen ip) := by
    apply UInt32.toNat_inj.mp
    have := hdrLen_le ip
    rw [UInt16.toNat_toUInt32, hhlen, UInt32.toNat_ofNat_of_lt' (by
      simp only [UInt32.size]; omega)]
  have hfl : thFlags (rx.rstate rx.lastRecv.toNat).csHdr (tcpAt ip) =
      thFlags tcs.csHdr (tcpAt ip) := h.same (by omega) (by omega) (by omega)
  have hsize : (changesOf tcs.csHdr ip newSeq).length =
      2 + (newSeq ++ idSeq tcs.csHdr ip).length := by
    rw [changesOf, List.length_append, length_put16]
  have happly := slApply_said (c := c) rfl htcs h.fields hlen32 rfl hurp hA hS hsaid
    (Buf.holds_of pre (changesOf tcs.csHdr ip newSeq) data)
  have hend : pre.length + 2 + (newSeq ++ idSeq tcs.csHdr ip).length =
      (pre ++ changesOf tcs.csHdr ip newSeq).length := by
    simp only [List.length_append] at hsize ⊢
    omega
  rw [hend] at happly
  have hdrop : (pre ++ (changesOf tcs.csHdr ip newSeq ++ data)).drop
      (pre ++ changesOf tcs.csHdr ip newSeq).length = data := by
    rw [← List.append_assoc, List.drop_left]
  have htot : (pre ++ (changesOf tcs.csHdr ip newSeq ++ data)).length =
      (pre ++ changesOf tcs.csHdr ip newSeq).length + data.length := by
    simp only [List.length_append, Nat.add_assoc]
  have hiplen : UInt16.ofNat (data.length + hdrLen ip) = ip.u16 2 := by
    rw [← hlen, UInt16.ofNat_toNat]
  rw [slRecvChanges]
  dsimp only
  rw [hmask, maskOf, happly, hfl]
  dsimp only
  rw [if_neg (by omega), hdrop, htot, Nat.add_sub_cancel_left, hhlen, hiplen, htcs]
  rfl

/-- The header that is delivered is the packet's, if the flags are. -/
theorem delivered_eq {special : Bool} (h : Resumes tcs cs ip)
    (hsum : ip.u16 10 = ipCksum (ip.set16 10 0) (tcpAt ip))
    (hf : flagsAfter special tcs.csHdr ip = thFlags ip (tcpAt ip)) :
    ((slotAfter cs.csHdr special tcs.csHdr ip).set16 10
      (ipCksum (slotAfter cs.csHdr special tcs.csHdr ip) (tcpAt ip))).take (hdrLen ip) =
      ip.take (hdrLen ip) := by
  have hl := Netinet.hdrLen_eq ip
  have hslot : ∀ i < hdrLen ip, slotAfter cs.csHdr special tcs.csHdr ip i = ip.set16 10 0 i := by
    intro i hi
    rw [slotAfter_octet special h hi, hf]
    by_cases h₁₃ : i = tcpAt ip + 13
    · have hat := Netinet.tcpAt_eq ip
      have hw := h.saved.ipWords
      rw [if_pos h₁₃, Buf.set16_of_ne _ (by omega), h₁₃]
      rfl
    · rw [if_neg h₁₃, Buf.set16]
      split_ifs <;> first | rfl | omega
  rw [ipCksum_congr fun i hi => hslot i (by omega), ← hsum]
  apply Buf.take_congr
  intro i hi
  rw [Buf.set16_u16]
  split_ifs with h₁₀
  · rfl
  · rw [hslot i hi, Buf.set16_of_ne _ (by omega)]

/-- And it is not if they are not. -/
theorem delivered_ne {special : Bool} (h : Resumes tcs cs ip) {v : UInt16}
    (hf : flagsAfter special tcs.csHdr ip ≠ thFlags ip (tcpAt ip)) :
    ((slotAfter cs.csHdr special tcs.csHdr ip).set16 10 v).take (hdrLen ip) ≠
      ip.take (hdrLen ip) := by
  intro heq
  have hl := Netinet.hdrLen_eq ip
  have hat := Netinet.tcpAt_eq ip
  have hw := h.saved.ipWords
  have ho := h.saved.tcpWords
  have hi : tcpAt ip + 13 < hdrLen ip := by omega
  have hoct := Buf.take_inj heq hi
  rw [Buf.set16_of_ne _ (by omega), slotAfter_octet special h hi, if_pos rfl] at hoct
  exact hf hoct

/-- The two slots after a packet that got across. -/
theorem Resumes.synced {special : Bool} (h : Resumes tcs cs ip) (dst : Buf)
    (hf : flagsAfter special tcs.csHdr ip = thFlags ip (tcpAt ip)) :
    Synced (Buf.copy ip dst (hdrLen ip))
      { cs with csHdr := slotAfter cs.csHdr special tcs.csHdr ip } := by
  have hcopy : ∀ i < hdrLen ip, Buf.copy ip dst (hdrLen ip) i = ip i := fun i hi => Buf.copy_lt hi
  have hl := Netinet.hdrLen_eq ip
  have hat := Netinet.tcpAt_eq ip
  have hw := h.saved.ipWords
  have ho := h.saved.tcpWords
  have hlen := (hdrLen_congr hw ho fun i hi _ _ => hcopy i hi).2.2
  refine ⟨h.saved.congr hcopy, ?_, ?_, ?_⟩
  · rw [hlen, ← h.hdrLen_eq]
    exact h.sync.hlen
  · have h₁₀ := slotAfter_octet special h (i := 10) (by omega)
    have h₁₁ := slotAfter_octet special h (i := 11) (by omega)
    rw [if_neg (by omega), if_pos (by decide)] at h₁₀ h₁₁
    exact (Buf.u16_congr (c := fun _ => 0) h₁₀ h₁₁).trans rfl
  · intro i hi h₁₀ h₁₁
    rw [hlen] at hi
    rw [hcopy i hi]
    show slotAfter cs.csHdr special tcs.csHdr ip i = ip i
    rw [slotAfter_octet special h hi, hf]
    split_ifs with h₁₃ hs
    · rw [h₁₃]
      rfl
    · omega
    · rfl

end

/-! ## The two ends -/

/-- The two ends agree. A slot that was never used has no header yet. -/
structure Sync (tx rx : SlCompress) : Prop where
  ring : ∃ order, Slots tx order
  ids : ∀ i, (tx.tstate i).csId = UInt8.ofNat i
  slots : ∀ i < maxStates,
    (tx.tstate i).csHdr 0 = 0 ∨ Synced (tx.tstate i).csHdr (rx.rstate i)
  last : tx.lastXmit ≠ 255 → rx.lastRecv = tx.lastXmit ∧ rx.toss = false

theorem Sync.init : Sync slCompressInit slCompressInit where
  ring := ⟨_, Slots.init⟩
  ids _ := rfl
  slots _ _ := .inl rfl
  last h := absurd rfl h

section

variable {tx tx' rx : SlCompress} {cs : Nat} {order : List Nat} {ip : Buf}

/-- Moving slots around changes nothing for the receiver. -/
theorem Sync.relink (h : Sync tx rx) (hr : Slots tx' order) (hs : SameSlots tx tx') :
    Sync tx' rx where
  ring := ⟨order, hr⟩
  ids i := by rw [hs.id, h.ids]
  slots i hi := by rw [hs.hdr]; exact h.slots i hi
  last hne := by rw [hs.lastXmit] at hne ⊢; exact h.last hne

theorem ofNat_toNat_of_lt (hcs : cs < maxStates) : (UInt8.ofNat cs).toNat = cs := by
  apply UInt8.toNat_ofNat_of_lt'
  simp only [maxStates, UInt8.size] at hcs ⊢
  omega

theorem ofNat_ne_255 (hcs : cs < maxStates) : UInt8.ofNat cs ≠ 255 := by
  intro h
  have h₁ := ofNat_toNat_of_lt hcs
  rw [h] at h₁
  simp only [maxStates] at hcs
  simp at h₁
  omega

/-- Both ends save the header and remember the connection. -/
theorem Sync.save (h : Sync tx rx) {rcs : CState}
    (hnew : Synced (Buf.copy ip (tx.tstate cs).csHdr (hdrLen ip)) rcs) :
    Sync { saveHdr tx cs ip with lastXmit := UInt8.ofNat cs }
      { setSlot rx cs rcs with lastRecv := UInt8.ofNat cs, toss := false } where
  ring := by
    obtain ⟨order, hr⟩ := h.ring
    have hnext : ringNext { saveHdr tx cs ip with lastXmit := UInt8.ofNat cs } = ringNext tx := by
      funext i
      simp only [ringNext, saveHdr]
      split <;> rfl
    exact ⟨order, by rw [hnext]; exact hr.circuit, hr.perm, hr.last⟩
  ids i := by
    rw [← h.ids i]
    simp only [saveHdr]
    split <;> rfl
  slots i hi := by
    by_cases hics : i = cs
    · right
      simp only [saveHdr, setSlot, if_pos hics]
      rw [hics]
      exact hnew
    · simp only [saveHdr, setSlot, if_neg hics]
      exact h.slots i hi
  last _ := ⟨rfl, rfl⟩

/-- A packet that is sent whole gets across. -/
theorem uncompressed_across (h : Sync tx rx) (hcs : cs < maxStates) (p : TcpIpPacket)
    (hord : ordinary (thFlags (.of p.octets) (tcpAt (.of p.octets)))) :
    let s := slUncompressed tx cs p.octets
    let r := slUncompressTcp s.1 s.2.1 rx
    r.1 = some p.octets ∧ Sync s.2.2 r.2 := by
  have hsaved := p.saved hord
  have hl := hdrLen_eq (.of p.octets)
  have hat := tcpAt_eq (.of p.octets)
  have hw := p.ipWords
  have ho := p.tcpWords
  have hlen := p.headers
  have hL := hdrLen_le (.of p.octets)
  have h9 : 9 < p.octets.length := by omega
  have hid : Buf.of (p.octets.set 9 (UInt8.ofNat cs)) 9 = UInt8.ofNat cs := by
    rw [Buf.of_lt (by simpa using h9)]
    simp
  have hback : (p.octets.set 9 (UInt8.ofNat cs)).set 9 ipprotoTcp = p.octets := by
    rw [List.set_set, ← p.proto, Buf.of_lt h9, List.set_getElem_self]
  have hcopy : ∀ (dst : Buf), ∀ i < hdrLen (.of p.octets),
      Buf.copy (.of p.octets) dst (hdrLen (.of p.octets)) i = Buf.of p.octets i :=
    fun _ i hi => Buf.copy_lt hi
  have hsync : Synced (Buf.copy (.of p.octets) (tx.tstate cs).csHdr (hdrLen (.of p.octets)))
      { rx.rstate cs with
        csHdr := (Buf.copy (.of p.octets) (rx.rstate cs).csHdr (hdrLen (.of p.octets))).set16 10 0
        csHlen := UInt16.ofNat (hdrLen (.of p.octets)) } := by
    have hlen' := (hdrLen_congr hw ho fun i hi _ _ => hcopy (tx.tstate cs).csHdr i hi).2.2
    refine ⟨hsaved.congr (hcopy _), ?_, Buf.u16_set16_same 0, ?_⟩
    · rw [hlen']
      exact UInt16.toNat_ofNat_of_lt' (by simp only [UInt16.size]; omega)
    · intro i hi h₁₀ h₁₁
      rw [hlen'] at hi
      rw [hcopy _ i hi]
      show (Buf.set16 _ 10 0) i = _
      rw [Buf.set16_of_ne _ ⟨h₁₀, h₁₁⟩, hcopy _ i hi]
  simp only [slUncompressed, slUncompressTcp, slRecvUncompressed, h.ids cs, hid, hback,
    ofNat_toNat_of_lt hcs, if_neg (Nat.not_le.mpr hcs)]
  exact ⟨trivial, h.save hsync⟩

/-- With the id or without, the receiver applies the changes to the right
slot. -/
theorem slCompressed_recv (h : Sync tx rx) (hcs : cs < maxStates) (p : TcpIpPacket)
    (compressCid : Bool) {changes : UInt8} {newSeq : List UInt8}
    (hch : slChanges (tx.tstate cs).csHdr (.of p.octets) = some (changes, newSeq)) :
    ∃ pre c out, slCompressed tx compressCid cs p.octets changes newSeq =
        (.compressedTcp, out,
          { saveHdr tx cs (.of p.octets) with lastXmit := UInt8.ofNat cs }) ∧
      out = pre ++ (changesOf (tx.tstate cs).csHdr (.of p.octets) newSeq ++
        p.octets.drop (hdrLen (.of p.octets))) ∧
      Buf.of out 0 = maskOf (tx.tstate cs).csHdr (.of p.octets) changes c ∧
      slUncompressTcp .compressedTcp out rx =
        slRecvChanges out { rx with toss := false, lastRecv := UInt8.ofNat cs } pre.length := by
  obtain ⟨-, -, -, hsaid⟩ := slChanges_said hch
  obtain ⟨u, w, a, s, hbits⟩ := hsaid.bits
  have hC : ∀ c, maskOf (tx.tstate cs).csHdr (.of p.octets) changes c &&& newC ≠ 0 ↔ c = true := by
    intro c
    rw [maskOf, hbits]
    exact (maskBits_test u w a s _ _ c).2.2.2.2.2.2.1
  have hid : (UInt8.ofNat cs).toNat < maxStates := by rw [ofNat_toNat_of_lt hcs]; exact hcs
  rw [slCompressed]
  dsimp only
  rw [h.ids cs]
  split
  · refine ⟨[maskOf (tx.tstate cs).csHdr (.of p.octets) changes true, UInt8.ofNat cs], true, _,
      rfl, ?_, rfl, ?_⟩
    · simp only [changesOf, List.append_assoc, List.cons_append, List.nil_append]
      rfl
    · have hC' := (hC true).mpr rfl
      exact (if_pos hC').trans (if_neg (Nat.not_le.mpr hid))
  · next hne =>
      rw [not_or, not_not] at hne
      have hx : tx.lastXmit = UInt8.ofNat cs := hne.2
      obtain ⟨hrecv, htoss⟩ := h.last (by rw [hx]; exact ofNat_ne_255 hcs)
      have hmask : maskOf (tx.tstate cs).csHdr (.of p.octets) changes false =
          changes ||| bit (deltaI (tx.tstate cs).csHdr (.of p.octets) != 1) newI |||
            bit (thFlags (.of p.octets) (tcpAt (.of p.octets)) &&& thPush != 0) tcpPushBit := by
        simp only [maskOf, bit]
        exact UInt8.or_zero
      refine ⟨[maskOf (tx.tstate cs).csHdr (.of p.octets) changes false], false, _, ?_, rfl, rfl, ?_⟩
      · have hsave : { saveHdr tx cs (.of p.octets) with lastXmit := UInt8.ofNat cs } =
            saveHdr tx cs (.of p.octets) := by
          rw [← hx]
          rfl
        rw [hmask, hsave]
        simp only [changesOf, List.append_assoc, List.cons_append, List.nil_append]
        rfl
      · have hC' := mt (hC false).mp (by decide)
        have hrx : rx = { rx with toss := false, lastRecv := UInt8.ofNat cs } := by
          rw [← hx, ← hrecv, ← htoss]
        refine (if_neg hC').trans ((if_neg (by simp [htoss])).trans ?_)
        rw [← hrx]
        rfl

/-- A slot that the packet matches has been used. -/
theorem Sync.resumes (h : Sync tx rx) (hcs : cs < maxStates) (p : TcpIpPacket)
    (hord : ordinary (thFlags (.of p.octets) (tcpAt (.of p.octets))))
    (hconn : sameConn (tx.tstate cs) (.of p.octets) = true)
    (htm : sameTemplate (tx.tstate cs).csHdr (.of p.octets) = true) :
    Resumes (tx.tstate cs) (rx.rstate cs) (.of p.octets) := by
  refine ⟨(h.slots cs hcs).resolve_left ?_, hconn, htm, p.saved hord⟩
  intro h0
  have hw := p.ipWords
  simp only [sameTemplate, Bool.and_eq_true, beq_iff_eq] at htm
  rw [ipHl, (Buf.octets_of_u16 htm.1.1.1.1.1).1, h0] at hw
  simp at hw

/-- A compressed packet gets across, unless it is one that follows on urgent
data. -/
theorem compressed_across (h : Sync tx rx) (hcs : cs < maxStates) (p : TcpIpPacket)
    (hord : ordinary (thFlags (.of p.octets) (tcpAt (.of p.octets)))) (compressCid : Bool)
    (hconn : sameConn (tx.tstate cs) (.of p.octets) = true)
    (htm : sameTemplate (tx.tstate cs).csHdr (.of p.octets) = true)
    {changes : UInt8} {newSeq : List UInt8}
    (hch : slChanges (tx.tstate cs).csHdr (.of p.octets) = some (changes, newSeq)) :
    let s := slCompressed tx compressCid cs p.octets changes newSeq
    let r := slUncompressTcp s.1 s.2.1 rx
    let stale := Follows (tx.tstate cs).csHdr (.of p.octets) ∧
      urgent (tx.tstate cs).csHdr (tcpAt (.of p.octets)) = true
    (r.1 = some p.octets ↔ ¬ stale) ∧ (¬ stale → Sync s.2.2 r.2) ∧ s.1 = .compressedTcp := by
  have hres := h.resumes hcs p hord hconn htm
  have hspecial : isSpecial changes = true ↔ Follows (tx.tstate cs).csHdr (.of p.octets) := by
    rw [← slChanges_special hres.dataLen_le]
    refine ⟨fun hs => ⟨_, hch, hs⟩, ?_⟩
    rintro ⟨r, hr, hs⟩
    rw [hch] at hr
    cases hr
    exact hs
  have hfl := flagsAfter_eq_iff hres.sync.toSaved hres.saved hres.tcpAt_eq
    (fun hs => (hspecial.mp hs).quiet)
  obtain ⟨pre, c, out, hs, hout, hmask, hrecv⟩ := slCompressed_recv h hcs p compressCid hch
  have hid := ofNat_toNat_of_lt hcs
  rw [hout] at hmask hrecv
  have hres' : Resumes (tx.tstate cs)
      (({ rx with toss := false, lastRecv := UInt8.ofNat cs } : SlCompress).rstate
        (UInt8.ofNat cs).toNat) (.of p.octets) := by
    rw [hid]
    exact hres
  have hsize : ((Buf.of p.octets).u16 2).toNat =
      (p.octets.drop (hdrLen (.of p.octets))).length + hdrLen (.of p.octets) := by
    have := p.headers
    rw [p.ipLen, List.length_drop]
    omega
  have hwhole : p.octets = (Buf.of p.octets).take (hdrLen (.of p.octets)) ++
      p.octets.drop (hdrLen (.of p.octets)) := by
    rw [Buf.take_of p.headers, List.take_append_drop]
  rw [slRecvChanges_spec hres' hch hsize hmask] at hrecv
  dsimp only
  rw [hs]
  dsimp only
  rw [hout, hrecv]
  dsimp only
  rw [hid, ← hspecial]
  refine ⟨⟨fun heq => hfl.mp ?_, ?_⟩, ?_, rfl⟩
  · by_contra hne
    have hhdr := Option.some.inj (heq.trans (congrArg some hwhole))
    exact delivered_ne hres hne (List.append_cancel_right hhdr)
  · intro hns
    rw [delivered_eq hres p.ipSum (hfl.mpr hns), ← hwhole]
  · intro hns
    exact h.save (hres.synced _ (hfl.mpr hns))

/-- The packet has no urgent data and follows on the packet in the slot of its
connection, which had some. -/
def StaleUrgent (tx : SlCompress) (ip : Buf) : Prop :=
  ordinary (thFlags ip (tcpAt ip)) ∧
    ∃ cs tx', slLocate tx ip = some (true, cs, tx') ∧
      sameTemplate (tx.tstate cs).csHdr ip = true ∧ Follows (tx.tstate cs).csHdr ip ∧
      urgent (tx.tstate cs).csHdr (tcpAt ip) = true

/-- What the sender can make of a packet. -/
inductive Sends (tx rx : SlCompress) (e : Handed) : PktType × List UInt8 × SlCompress → Prop
  | plain (hord : ¬ ordinary (thFlags (.of e.pkt.octets) (tcpAt (.of e.pkt.octets)))) :
      Sends tx rx e (.ip, e.pkt.octets, tx)
  | whole (cs : Nat) (tx' : SlCompress)
      (hord : ordinary (thFlags (.of e.pkt.octets) (tcpAt (.of e.pkt.octets))))
      (hsync : Sync tx' rx) (hcs : cs < maxStates) (hns : ¬ StaleUrgent tx (.of e.pkt.octets)) :
      Sends tx rx e (slUncompressed tx' cs e.pkt.octets)
  | changes (cs : Nat) (tx' : SlCompress) (changes : UInt8) (newSeq : List UInt8)
      (hord : ordinary (thFlags (.of e.pkt.octets) (tcpAt (.of e.pkt.octets))))
      (hsync : Sync tx' rx) (hcs : cs < maxStates)
      (hconn : sameConn (tx'.tstate cs) (.of e.pkt.octets) = true)
      (htm : sameTemplate (tx'.tstate cs).csHdr (.of e.pkt.octets) = true)
      (hch : slChanges (tx'.tstate cs).csHdr (.of e.pkt.octets) = some (changes, newSeq))
      (hst : StaleUrgent tx (.of e.pkt.octets) ↔
        Follows (tx'.tstate cs).csHdr (.of e.pkt.octets) ∧
          urgent (tx'.tstate cs).csHdr (tcpAt (.of e.pkt.octets)) = true) :
      Sends tx rx e (slCompressed tx' e.compressCid cs e.pkt.octets changes newSeq)

/-- The sender always sends something. -/
theorem slCompressTcp_sends (h : Sync tx rx) (e : Handed) :
    ∃ s, slCompressTcp e.mLen e.pkt.octets tx e.compressCid = some s ∧ Sends tx rx e s := by
  have hl := hdrLen_eq (.of e.pkt.octets)
  have hat := tcpAt_eq (.of e.pkt.octets)
  have hw := e.pkt.ipWords
  have ho := e.pkt.tcpWords
  have hm := e.first
  unfold slCompressTcp
  dsimp only
  rw [if_neg (not_or.mpr ⟨not_not.mpr e.pkt.notFrag, by omega⟩)]
  split
  · next hord => exact ⟨_, rfl, .plain hord⟩
  next hord =>
  rw [not_not] at hord
  obtain ⟨order, hr⟩ := h.ring
  obtain ⟨found, cs, tx', hloc, hr', hsame, hmem, hfound, -⟩ :=
    slLocate_spec hr (.of e.pkt.octets)
  have hcs : cs < maxStates := hr.lt hmem
  have h' := h.relink hr' hsame
  rw [hloc, Option.map_some]
  refine ⟨_, rfl, ?_⟩
  cases found with
  | false =>
      refine .whole cs tx' hord h' hcs ?_
      rintro ⟨-, _, _, hloc', -⟩
      rw [hloc] at hloc'
      cases hloc'
  | true =>
      have hst : StaleUrgent tx (.of e.pkt.octets) ↔
          sameTemplate (tx'.tstate cs).csHdr (.of e.pkt.octets) = true ∧
            Follows (tx'.tstate cs).csHdr (.of e.pkt.octets) ∧
            urgent (tx'.tstate cs).csHdr (tcpAt (.of e.pkt.octets)) = true := by
        rw [hsame.hdr]
        constructor
        · rintro ⟨-, _, _, hloc', hrest⟩
          rw [hloc] at hloc'
          cases hloc'
          exact hrest
        · exact fun hrest => ⟨hord, cs, tx', hloc, hrest⟩
      have hconn : sameConn (tx'.tstate cs) (.of e.pkt.octets) = true := by
        have hconn := hfound rfl
        rw [sameConn] at hconn ⊢
        rw [hsame.hdr]
        exact hconn
      dsimp only
      split
      · next htm =>
          have hres := h'.resumes hcs e.pkt hord hconn htm
          split
          · next hch =>
              refine .whole cs tx' hord h' hcs ?_
              intro hs
              obtain ⟨r, hr, -⟩ := (slChanges_special hres.dataLen_le).mpr (hst.mp hs).2.1
              rw [hch] at hr
              cases hr
          · next changes newSeq hch =>
              refine .changes cs tx' changes newSeq hord h' hcs hconn htm hch ?_
              rw [hst]
              exact and_iff_right htm
      · next htm => exact .whole cs tx' hord h' hcs fun hs => htm (hst.mp hs).1

/-- One packet. -/
theorem exchange_spec (h : Sync tx rx) (e : Handed) :
    ((exchange tx rx e).1 = some e.pkt.octets ↔ ¬ StaleUrgent tx (.of e.pkt.octets)) ∧
      (¬ StaleUrgent tx (.of e.pkt.octets) →
        Sync (exchange tx rx e).2.1 (exchange tx rx e).2.2) := by
  obtain ⟨s, hs, hsends⟩ := slCompressTcp_sends h e
  unfold exchange
  rw [hs]
  dsimp only
  cases hsends with
  | plain hord =>
      have hns : ¬ StaleUrgent tx (.of e.pkt.octets) := fun hst => hord hst.1
      exact ⟨iff_of_true rfl hns, fun _ => h⟩
  | whole cs tx' hord hsync hcs hns =>
      obtain ⟨hgot, hsync'⟩ := uncompressed_across hsync hcs e.pkt hord
      exact ⟨iff_of_true hgot hns, fun _ => hsync'⟩
  | changes cs tx' changes newSeq hord hsync hcs hconn htm hch hst =>
      obtain ⟨hgot, hsync', htype⟩ :=
        compressed_across hsync hcs e.pkt hord e.compressCid hconn htm hch
      unfold carry
      rw [htype] at hgot hsync' ⊢
      rw [hst]
      exact ⟨hgot, hsync'⟩

end

/-! ## Runs -/

/-- Every packet comes out as it went in, all along a run, just when no packet of
it follows on urgent data of its connection without having any itself. -/
theorem roundTrip_iff_no_stale_urgent (es : List Handed) :
    Always Link.step (fun l => l.got = l.sent.map some) Link.init es ↔
      Guarded Link.step (fun l e => ¬ StaleUrgent l.tx (.of e.pkt.octets)) Link.init es := by
  have hP : ∀ l e, l.got = l.sent.map some →
      ((Link.step l e).got = (Link.step l e).sent.map some ↔
        (exchange l.tx l.rx e).1 = some e.pkt.octets) := by
    intro l e hl
    simp only [Link.step, hl, List.map_append, List.map_cons, List.map_nil,
      List.append_cancel_left_eq, List.cons.injEq, and_true]
  refine always_iff_guarded (fun l : Link => Sync l.tx l.rx ∧ l.got = l.sent.map some)
    (fun _ _ => True) ⟨Sync.init, rfl⟩ (fun l hl => hl.2) ?_ ?_ (fun _ _ _ => trivial)
  · intro l e hl _ hg
    obtain ⟨hgot, hsync⟩ := exchange_spec hl.1 e
    exact ⟨hsync hg, (hP l e hl.2).mpr (hgot.mpr hg)⟩
  · intro l e hl _ hg hbad
    exact hg ((exchange_spec hl.1 e).1.mp ((hP l e hl.2).mp hbad))

/-- Three octets of data from 10.0.0.1 port 1 to 10.0.0.2 port 2, urgent. -/
def urgentPkt : TcpIpPacket where
  octets := [0x45, 0, 0, 43, 0, 1, 0, 0, 64, 6, 0x66, 0xca, 10, 0, 0, 1, 10, 0, 0, 2,
    0, 1, 0, 2, 0, 0, 0, 0, 0, 0, 0, 0, 0x50, 0x30, 1, 0, 0xab, 0xcd, 0, 5, 1, 2, 3]
  ipWords := by decide
  tcpWords := by decide
  headers := by decide
  ipLen := by decide
  proto := by decide
  ipSum := by decide +kernel
  notFrag := by decide
  thX2 := by decide
  reserved := by decide

/-- The next four octets, not urgent. -/
def nextPkt : TcpIpPacket where
  octets := [0x45, 0, 0, 44, 0, 2, 0, 0, 64, 6, 0x66, 0xc8, 10, 0, 0, 1, 10, 0, 0, 2,
    0, 1, 0, 2, 0, 0, 0, 3, 0, 0, 0, 0, 0x50, 0x10, 1, 0, 0xab, 0xcd, 0, 5, 1, 2, 3, 4]
  ipWords := by decide
  tcpWords := by decide
  headers := by decide
  ipLen := by decide
  proto := by decide
  ipSum := by decide +kernel
  notFrag := by decide
  thX2 := by decide
  reserved := by decide

/-- The second packet arrives with the urgent flag of the first. -/
theorem roundTrip_fails :
    ¬ Always Link.step (fun l => l.got = l.sent.map some) Link.init
      [⟨urgentPkt, 43, by decide, true⟩, ⟨nextPkt, 44, by decide, true⟩] := by
  intro h
  have hlast := h _ (List.prefix_refl _)
  revert hlast
  decide +kernel

end VxWorks.Netinet
