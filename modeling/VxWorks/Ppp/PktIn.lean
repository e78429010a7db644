import VxWorks.Netinet.SlHeaders
import VxWorks.Ppp.IfPpp

/-!
# From the line to IP (`ppppktin`)

A frame comes as a chain of mbufs, and a TCP packet in it may have its header
compressed. `sl_uncompress_tcp` is given the first mbuf and its length. It puts
the header in front of what it is given, writes the length of the two into the
header, and returns it. `ppppktin` then sets the length of the first mbuf as if
what is returned were the length of the packet, so that the octets of the other
mbufs are taken off the first one. With one mbuf there is nothing to take off.

For the comparison with the whole frame in one mbuf it has to be known that the
changes are read in the same way there. A reader is `Local` if it looks at
nothing behind the place it stops at, and the readers of the receiver are put
together from two that are.
-/

namespace VxWorks.Netinet

open VxWorks.Lib

/-! ## What is read of a compressed header -/

/-- The reader goes on from where it is, and what is behind the place where it stops does not
matter. -/
def Local (f : Buf → Buf × Nat → Buf × Nat) : Prop :=
  ∀ b r, r.2 ≤ (f b r).2 ∧ ∀ c : Buf, (∀ i < (f b r).2, c i = b i) → f c r = f b r

section

variable {f g : Buf → Buf × Nat → Buf × Nat}

theorem Local.comp (hf : Local f) (hg : Local g) : Local fun b r => g b (f b r) := by
  intro b r
  obtain ⟨hle, hsame⟩ := hf b r
  obtain ⟨hle', hsame'⟩ := hg b (f b r)
  refine ⟨hle.trans hle', ?_⟩
  intro c hc
  show g c (f c r) = g b (f b r)
  rw [hsame c fun i hi => hc i (Nat.lt_of_lt_of_le hi hle')]
  exact hsame' c hc

theorem Local.ite (p : Prop) [Decidable p] (hf : Local f) (hg : Local g) :
    Local fun b r => if p then f b r else g b r := by
  by_cases hp : p
  · simpa [hp] using hf
  · simpa [hp] using hg

theorem local_hdr (φ : Buf → Buf) : Local fun _ r => (φ r.1, r.2) :=
  fun _ _ => ⟨Nat.le_refl _, fun _ _ => rfl⟩

theorem decode_local {b c : Buf} {cp : Nat} (h : ∀ i < (decode b cp).2, c i = b i) :
    decode c cp = decode b cp := by
  rw [decode] at h ⊢
  rw [decode]
  by_cases h0 : b cp = 0
  · rw [if_pos h0] at h ⊢
    rw [h cp (by simp), if_pos h0, Buf.u16, Buf.u16, h (cp + 1) (by simp), h (cp + 1 + 1) (by simp)]
  · rw [if_neg h0] at h ⊢
    rw [h cp (by simp), if_neg h0]

theorem le_decode (b : Buf) (cp : Nat) : cp ≤ (decode b cp).2 := by
  rw [decode]
  split_ifs
  · exact Nat.le_add_right ..
  · exact Nat.le_add_right ..

/-- A number is read and goes into the header. -/
theorem local_number (φ : Buf → UInt16 → Buf) :
    Local fun b r => (φ r.1 (decode b r.2).1, (decode b r.2).2) := by
  intro b r
  refine ⟨le_decode b r.2, ?_⟩
  intro c hc
  simp only [decode_local hc]

theorem slFields_local (changes : UInt8) (t : Nat) : Local fun b r => slFields b changes t r := by
  have hu : Local fun b r => if changes &&& newU ≠ 0 then
      decodeu b (t + 18) (r.1.set8 (t + 13) (thFlags r.1 t ||| thUrg), r.2)
      else (r.1.set8 (t + 13) (thFlags r.1 t &&& ~~~ thUrg), r.2) :=
    .ite _ (local_number fun hdr d => (hdr.set8 (t + 13) (thFlags hdr t ||| thUrg)).set16 (t + 18) d)
      (local_hdr fun hdr => hdr.set8 (t + 13) (thFlags hdr t &&& ~~~ thUrg))
  have hs : ∀ k, Local fun b r => decodes b k r := fun k =>
    local_number fun hdr d => hdr.set16 k (hdr.u16 k + d)
  have hl : ∀ k, Local fun b r => decodel b k r := fun k =>
    local_number fun hdr d => hdr.set32 k (hdr.u32 k + d.toUInt32)
  have hid : Local fun _ r => r := local_hdr id
  exact ((hu.comp (.ite (changes &&& newW ≠ 0) (hs (t + 14)) hid)).comp
    (.ite (changes &&& newA ≠ 0) (hl (t + 8)) hid)).comp
    (.ite (changes &&& newS ≠ 0) (hl (t + 4)) hid)

theorem slRecvSwitch_local (changes : UInt8) (hlen : UInt16) (t : Nat) :
    Local fun b r => slRecvSwitch b changes hlen t r.1 r.2 := by
  let data : Buf → UInt32 := fun hdr => (hdr.u16 2).toUInt32 - hlen.toUInt32
  have hI : Local fun _ r =>
      ((r.1.set32 (t + 8) (r.1.u32 (t + 8) + data r.1)).set32 (t + 4)
        ((r.1.set32 (t + 8) (r.1.u32 (t + 8) + data r.1)).u32 (t + 4) + data r.1), r.2) :=
    local_hdr fun hdr => (hdr.set32 (t + 8) (hdr.u32 (t + 8) + data hdr)).set32 (t + 4)
      ((hdr.set32 (t + 8) (hdr.u32 (t + 8) + data hdr)).u32 (t + 4) + data hdr)
  have hD : Local fun _ r => (r.1.set32 (t + 4) (r.1.u32 (t + 4) + data r.1), r.2) :=
    local_hdr fun hdr => hdr.set32 (t + 4) (hdr.u32 (t + 4) + data hdr)
  exact .ite (changes &&& specialsMask = specialI) hI
    (.ite (changes &&& specialsMask = specialD) hD (slFields_local changes t))

/-- The checksum of TCP, the switch and the id. -/
theorem slApply_local (changes : UInt8) (cs : CState) :
    Local fun b r => slApply b changes cs r.2 := by
  have hsum : Local fun b r =>
      (slPush changes (tcpAt cs.csHdr) (cs.csHdr.set16 (tcpAt cs.csHdr + 16) (b.u16 r.2)),
        r.2 + 2) := by
    intro b r
    refine ⟨Nat.le_add_right .., ?_⟩
    intro c hc
    simp only [Buf.u16, hc r.2 (by simp), hc (r.2 + 1) (by simp)]
  have hid : Local fun b r => if changes &&& newI ≠ 0 then decodes b 4 r
      else (r.1.set16 4 (r.1.u16 4 + 1), r.2) :=
    .ite _ (local_number fun hdr d => hdr.set16 4 (hdr.u16 4 + d))
      (local_hdr fun hdr => hdr.set16 4 (hdr.u16 4 + 1))
  exact (hsum.comp (slRecvSwitch_local changes cs.csHlen (tcpAt cs.csHdr))).comp hid

theorem of_append_left {x y : List UInt8} {i : Nat} (hi : i < x.length) :
    Buf.of (x ++ y) i = Buf.of x i := by
  simp [Buf.of, List.getD_eq_getElem?_getD, List.getElem?_append_left hi]

theorem le_of_slRecvChanges {x out : List UInt8} {comp : SlCompress} {cp : Nat}
    (h : (slRecvChanges x comp cp).1 = some out) : cp ≤ x.length := by
  rw [slRecvChanges] at h
  dsimp only at h
  split_ifs at h with hlen
  · cases h
  · have hle := (slApply_local (Buf.of x 0) (comp.rstate comp.lastRecv.toNat) (.of x) (.of x, cp)).1
    simp only at hle
    omega

/-- A packet whose changes are in its front part: what is behind it is data. -/
theorem slRecvChanges_append {x y out : List UInt8} {comp : SlCompress} {cp : Nat}
    (hcp : 0 < cp) (h : (slRecvChanges x comp cp).1 = some out) :
    ∃ out', (slRecvChanges (x ++ y) comp cp).1 = some out' ∧
      out'.length = out.length + y.length := by
  rw [slRecvChanges] at h ⊢
  dsimp only at h ⊢
  by_cases hlen : x.length < (slApply (.of x) (Buf.of x 0) (comp.rstate comp.lastRecv.toNat) cp).2
  · rw [if_pos hlen] at h
    cases h
  · rw [if_neg hlen] at h
    obtain rfl := Option.some.inj h
    obtain ⟨hle, hsame⟩ :=
      slApply_local (Buf.of x 0) (comp.rstate comp.lastRecv.toNat) (.of x) (.of x, cp)
    have hpos : 0 < x.length := by
      simp only at hle
      omega
    have hfront : slApply (.of (x ++ y)) (Buf.of x 0) (comp.rstate comp.lastRecv.toNat) cp =
        slApply (.of x) (Buf.of x 0) (comp.rstate comp.lastRecv.toNat) cp :=
      hsame (.of (x ++ y)) fun i hi => of_append_left (by simp only at hi; omega)
    rw [of_append_left hpos, hfront, if_neg (by rw [List.length_append]; omega)]
    refine ⟨_, rfl, ?_⟩
    simp only [List.length_append, List.length_drop, Buf.length_take]
    omega

/-- Where a compressed packet is taken apart at all, more data makes it longer by as much. -/
theorem slUncompressTcp_append {x y out : List UInt8} {comp : SlCompress}
    (h : (slUncompressTcp .compressedTcp x comp).1 = some out) :
    ∃ out', (slUncompressTcp .compressedTcp (x ++ y) comp).1 = some out' ∧
      out'.length = out.length + y.length := by
  unfold slUncompressTcp at h ⊢
  dsimp only at h ⊢
  by_cases hnew : Buf.of x 0 &&& newC ≠ 0
  · rw [if_pos hnew] at h
    by_cases hid : Netinet.maxStates ≤ (Buf.of x 1).toNat
    · rw [if_pos hid] at h
      cases h
    · rw [if_neg hid] at h
      have hlen := le_of_slRecvChanges h
      rw [of_append_left (show 0 < x.length by omega), of_append_left (show 1 < x.length by omega),
        if_pos hnew, if_neg hid]
      exact slRecvChanges_append (by decide) h
  · rw [if_neg hnew] at h
    by_cases htoss : comp.toss = true
    · rw [if_pos htoss] at h
      cases h
    · rw [if_neg htoss] at h
      have hlen := le_of_slRecvChanges h
      rw [of_append_left (show 0 < x.length by omega), if_neg hnew, if_neg htoss]
      exact slRecvChanges_append (by decide) h

end

end VxWorks.Netinet

namespace VxWorks.Ppp

open VxWorks.Lib VxWorks.Netinet

/-! ## `ppppktin` -/

/-- `MAX_HDR`. -/
def maxHdr : Nat := 128

/-- A chain: the octets from `m_data` of the first mbuf on, its `m_len`, the other mbufs, and
`m_pkthdr.len`. -/
structure Chain where
  m : List UInt8
  len : Int
  next : Mbufs
  pktlen : Int
deriving DecidableEq

/-- The sum of the `m_len`. -/
def Chain.total (c : Chain) : Int := c.len + c.next.flatten.length

/-- What a reader of the chain finds. -/
def Chain.octets (c : Chain) : List UInt8 := c.m.take c.len.toNat ++ c.next.flatten

/-- The queues a packet may be put on. -/
inductive Inq where
  | ipintrq
  | scInq
deriving DecidableEq

/-- What `ppppktin` goes by. `etherInputHookRtn` is the hook, if there is one, and says whether
it keeps the frame. -/
structure PktIn where
  rejCompTcp : Bool
  ifUp : Bool
  enableIp : Bool
  qfull : Inq → Bool
  etherInputHookRtn : Option (Chain → Bool)
  comp : SlCompress

/-- `COMPTYPE`. -/
def comptype (proto : UInt16) : PktType :=
  if proto = pppVjcComp then .compressedTcp else .uncompressedTcp

/-- Uncompress the header of a TCP packet. `lead` is how much room there is in front of the
first mbuf; none is for a packet that is dropped. -/
def ppppktinVj (sc : PktIn) (lead : Nat) (proto : UInt16) (c : Chain) :
    Option Chain × SlCompress :=
  if sc.rejCompTcp then (none, sc.comp)
  else if proto = pppVjcComp ∧ lead < maxHdr then (none, sc.comp)
  else
    let ilen := c.total - pppHdrlen
    let len := c.len - pppHdrlen
    match slUncompressTcp (comptype proto) ((c.m.drop pppHdrlen).take len.toNat) sc.comp with
    | (none, comp) => (none, comp)
    | (some out, comp) =>
        if out = [] then (none, comp)
        else
          -- adjust the first mbuf by the decompressed amt
          let xlen : Int := out.length + pppHdrlen
          (some { c with
            m := [c.m.getD 0 0, c.m.getD 1 0, 0, pppIp.toUInt8] ++ out
            len := len + (xlen - ilen)
            pktlen := xlen }, comp)

/-- Where the packet goes. -/
def ppppktinPut (sc : PktIn) (proto : UInt16) (c : Chain) : Option (Inq × Chain) :=
  if sc.etherInputHookRtn.any fun hook => hook c then none
  else if proto = pppIp then
    if ¬ sc.ifUp ∨ ¬ sc.enableIp ∨ sc.qfull .ipintrq then none
    else
      some (.ipintrq, { c with
        m := c.m.drop pppHdrlen, len := c.len - pppHdrlen, pktlen := c.pktlen - pppHdrlen })
  else if sc.qfull .scInq then none
  else some (.scInq, c)

/-- `ppppktin`, for the chain that `pppinput` has cut off: the queue the packet is put on and
the packet as it stands there. -/
def ppppktin (sc : PktIn) (lead : Nat) (m : List UInt8) (next : Mbufs) :
    Option (Inq × Chain) × SlCompress :=
  let proto := get16 (m.getD 2 0) (m.getD 3 0)
  let c : Chain := ⟨m, m.length, next, m.length + next.flatten.length⟩
  if proto = pppVjcComp ∨ proto = pppVjcUncomp then
    match ppppktinVj sc lead proto c with
    | (none, comp) => (none, comp)
    | (some c, comp) => (ppppktinPut sc pppIp c, comp)
  else (ppppktinPut sc proto c, sc.comp)

/-! ## What IP gets -/

/-- The packet behind the header of the frame, by itself. -/
def vjPacket (m : List UInt8) (next : Mbufs) : List UInt8 := m.drop pppHdrlen ++ next.flatten

/-- A packet of one of the two kinds: one that was left as it was has its length in its header,
one that was compressed has a slot with a header to be expanded from and is not longer than a
datagram can be. -/
def VjPacket (type : PktType) (pkt : List UInt8) (comp : SlCompress) : Prop :=
  match type with
  | .uncompressedTcp => 20 ≤ pkt.length ∧ ((Buf.of pkt).u16 2).toNat = pkt.length
  | .compressedTcp =>
      let id := if Buf.of pkt 0 &&& newC ≠ 0 then Buf.of pkt 1 else comp.lastRecv
      20 ≤ (comp.rstate id.toNat).csHlen.toNat ∧
        (comp.rstate id.toNat).csHlen.toNat + pkt.length < 65536
  | .ip | .error => False

/-- The chain is the datagram: it holds what the packet stands for, its length field is the
number of octets in it, and the lengths of the mbufs add up to that. -/
structure Chain.Holds (c : Chain) (datagram : Option (List UInt8)) : Prop where
  octets : datagram = some c.octets
  ipLen : (((Buf.of c.octets).u16 2).toNat : Int) = c.octets.length
  lens : 0 ≤ c.len ∧ c.total = c.octets.length ∧ c.pktlen = c.octets.length

section

variable {sc : PktIn} {lead : Nat} {m : List UInt8} {next : Mbufs} {q : Inq} {c : Chain}

/-- The protocol field. -/
def protoOf (m : List UInt8) : UInt16 := get16 (m.getD 2 0) (m.getD 3 0)

/-- What is queued of a TCP packet: the first mbuf by itself, expanded, and shortened by what is
in the other mbufs. -/
theorem ppppktin_vj (h4 : pppHdrlen ≤ m.length)
    (hproto : protoOf m = pppVjcComp ∨ protoOf m = pppVjcUncomp)
    (hq : (ppppktin sc lead m next).1 = some (q, c)) :
    ∃ out, (slUncompressTcp (comptype (protoOf m)) (m.drop pppHdrlen) sc.comp).1 = some out ∧
      c = ⟨out, out.length - (next.flatten.length : Int), next, out.length⟩ := by
  have hfirst : (m.drop pppHdrlen).take ((m.length : Int) - pppHdrlen).toNat = m.drop pppHdrlen :=
    List.take_of_length_le (by rw [List.length_drop]; omega)
  unfold ppppktin ppppktinVj at hq
  dsimp only at hq
  rw [← protoOf, if_pos hproto, hfirst] at hq
  generalize hr : slUncompressTcp (comptype (protoOf m)) (m.drop pppHdrlen) sc.comp = r at hq ⊢
  obtain ⟨out, comp⟩ := r
  by_cases hrej : sc.rejCompTcp = true
  · simp [hrej] at hq
  by_cases hroom : protoOf m = pppVjcComp ∧ lead < maxHdr
  · simp [hroom] at hq
  rw [if_neg hrej, if_neg hroom] at hq
  cases out with
  | none => cases hq
  | some out =>
      dsimp only at hq
      by_cases hnil : out = []
      · simp [hnil] at hq
      rw [if_neg hnil] at hq
      simp only [ppppktinPut, if_true] at hq
      split_ifs at hq with hhook hdown
      simp only [Option.some.injEq, Prod.mk.injEq] at hq
      obtain ⟨-, rfl⟩ := hq
      refine ⟨out, rfl, ?_⟩
      simp only [Chain.mk.injEq, Chain.total, pppHdrlen]
      refine ⟨rfl, ?_, trivial, ?_⟩ <;> omega

/-- A compressed packet grows by as much as it would if the rest were not there. -/
theorem slUncompressTcp_length {type : PktType} {x y out : List UInt8} {comp : SlCompress}
    (h : (slUncompressTcp type x comp).1 = some out) {all : List UInt8}
    (hall : (slUncompressTcp type (x ++ y) comp).1 = some all) :
    all.length = out.length + y.length := by
  cases type with
  | uncompressedTcp =>
      have hlen : ∀ {l o}, (slUncompressTcp .uncompressedTcp l comp).1 = some o →
          o.length = l.length := by
        intro l o ho
        simp only [slUncompressTcp, slRecvUncompressed] at ho
        split_ifs at ho with hid
        · cases ho
        · rw [← Option.some.inj ho, List.length_set]
      rw [hlen hall, hlen h, List.length_append]
  | compressedTcp =>
      obtain ⟨all', hall', hlen⟩ := slUncompressTcp_append (y := y) h
      rw [hall] at hall'
      rw [Option.some.inj hall', hlen]
  | ip => cases h
  | error => cases h

theorem of_take_append {b : Buf} {n i : Nat} (hi : i < n) (l : List UInt8) :
    Buf.of (b.take n ++ l) i = b i := by
  rw [of_append_left (by rwa [Buf.length_take]), Buf.of_lt (by rwa [Buf.length_take])]
  simp [Buf.take]

/-- The length field of what a packet is expanded to. -/
theorem uncompressed_ipLen {type : PktType} {pkt out : List UInt8} {comp : SlCompress}
    (hpkt : VjPacket type pkt comp) (h : (slUncompressTcp type pkt comp).1 = some out) :
    ((Buf.of out).u16 2).toNat = out.length := by
  have hchanges : ∀ {comp' : SlCompress} {cp : Nat},
      20 ≤ (comp'.rstate comp'.lastRecv.toNat).csHlen.toNat →
      (comp'.rstate comp'.lastRecv.toNat).csHlen.toNat + pkt.length < 65536 →
      (slRecvChanges pkt comp' cp).1 = some out → ((Buf.of out).u16 2).toNat = out.length := by
    intro comp' cp hslot hlong ho
    simp only [slRecvChanges] at ho
    split_ifs at ho with hend
    · cases ho
    · obtain rfl := Option.some.inj ho
      rw [Buf.u16_congr (c := _) (of_take_append (by omega) _) (of_take_append (by omega) _),
        Buf.u16_set16_of_ne _ (by omega), Buf.u16_set16_same, UInt16.toNat_ofNat',
        List.length_append, List.length_drop, Buf.length_take, Nat.mod_eq_of_lt (by omega)]
      omega
  cases type with
  | uncompressedTcp =>
      obtain ⟨hlong, hlen⟩ := hpkt
      simp only [slUncompressTcp, slRecvUncompressed] at h
      split_ifs at h with hid
      · cases h
      · obtain rfl := Option.some.inj h
        have hsame : ∀ i, i ≠ 9 → Buf.of (pkt.set 9 ipprotoTcp) i = Buf.of pkt i := by
          intro i hi
          simp only [Buf.of, List.getD_eq_getElem?_getD, List.getElem?_set_ne (Ne.symm hi)]
        rw [Buf.u16_congr (hsame 2 (by decide)) (hsame 3 (by decide)), hlen, List.length_set]
  | compressedTcp =>
      simp only [slUncompressTcp] at h
      simp only [VjPacket] at hpkt
      by_cases hnew : Buf.of pkt 0 &&& newC ≠ 0
      · rw [if_pos hnew] at h hpkt
        by_cases hid : Netinet.maxStates ≤ (Buf.of pkt 1).toNat
        · rw [if_pos hid] at h
          cases h
        · rw [if_neg hid] at h
          exact hchanges hpkt.1 hpkt.2 h
      · rw [if_neg hnew] at h hpkt
        by_cases htoss : comp.toss = true
        · rw [if_pos htoss] at h
          cases h
        · rw [if_neg htoss] at h
          exact hchanges hpkt.1 hpkt.2 h
  | ip => cases h
  | error => cases h

/-- What is queued for IP of a frame with a TCP packet is the datagram if and only if the whole
frame is in its first mbuf. -/
theorem vj_chain_iff (sc : PktIn) (lead : Nat) (m : List UInt8) (next : Mbufs) (q : Inq) (c : Chain)
    (h4 : pppHdrlen ≤ m.length)
    (hproto : protoOf m = pppVjcComp ∨ protoOf m = pppVjcUncomp)
    (hpkt : VjPacket (comptype (protoOf m)) (vjPacket m next) sc.comp)
    (hq : (ppppktin sc lead m next).1 = some (q, c)) :
    c.Holds (slUncompressTcp (comptype (protoOf m)) (vjPacket m next) sc.comp).1 ↔
      next.flatten = [] := by
  obtain ⟨out, hout, rfl⟩ := ppppktin_vj h4 hproto hq
  constructor
  · rintro ⟨hoctets, -, hnonneg, htotal, -⟩
    have hlen := slUncompressTcp_length hout hoctets
    simp only [Chain.octets, List.length_append, List.length_take] at hnonneg hlen
    exact List.length_eq_zero_iff.mp (by omega)
  · intro hnil
    have hoctets : (⟨out, out.length - (next.flatten.length : Int), next, out.length⟩ :
        Chain).octets = out := by
      simp [Chain.octets, hnil]
    have hall : vjPacket m next = m.drop pppHdrlen := by
      simp [vjPacket, hnil]
    rw [hall] at hpkt ⊢
    refine ⟨?_, ?_, ?_, ?_, ?_⟩
    · rw [hoctets, hout]
    · rw [hoctets, uncompressed_ipLen hpkt hout]
    · simp [hnil]
    · rw [hoctets]
      simp [Chain.total, hnil]
    · rw [hoctets]

/-- An interface that is up. -/
def PktIn.up : PktIn where
  rejCompTcp := false
  ifUp := true
  enableIp := true
  qfull _ := false
  etherInputHookRtn := none
  comp := slCompressInit

/-- A packet of 132 octets for connection 0, 40 of them its header. -/
def firstPkt : List UInt8 :=
  [0x45, 0, 0, 0x84, 0, 1, 0, 0, 0x40, 0, 0, 0, 10, 0, 0, 1, 10, 0, 0, 2,
    0x04, 0, 0, 0x15, 0, 0, 0, 1, 0, 0, 0, 1, 0x50, 0x10, 0x20, 0, 0, 0, 0, 0] ++
    List.replicate 92 0x61

theorem vj_chain_one_mbuf :
    Chain.Holds ⟨firstPkt.set 9 6, 132, [], 132⟩
      (slUncompressTcp .uncompressedTcp firstPkt slCompressInit).1 := by
  have htype : comptype (protoOf ([0xff, 0x03, 0x00, 0x2f] ++ firstPkt)) = .uncompressedTcp := by
    decide +kernel
  have hall : vjPacket ([0xff, 0x03, 0x00, 0x2f] ++ firstPkt) [] = firstPkt := by
    simp [vjPacket, pppHdrlen]
  have h := vj_chain_iff .up 128 ([0xff, 0x03, 0x00, 0x2f] ++ firstPkt) [] .ipintrq
    ⟨firstPkt.set 9 6, 132, [], 132⟩ (by decide +kernel) (by decide +kernel)
  rw [htype, hall] at h
  exact (h ⟨by decide +kernel, by decide +kernel⟩ (by decide +kernel)).mpr rfl

/-- The same packet when the first mbuf takes 128 octets of the frame: the last eight of the
packet stand where the eight before them should be. -/
theorem vj_chain_cut :
    (ppppktin .up 128 ([0xff, 0x03, 0x00, 0x2f] ++ firstPkt.take 124) [firstPkt.drop 124]).1 =
        some (.ipintrq, ⟨(firstPkt.take 124).set 9 6, 116, [firstPkt.drop 124], 124⟩) ∧
      ¬ Chain.Holds ⟨(firstPkt.take 124).set 9 6, 116, [firstPkt.drop 124], 124⟩
        (slUncompressTcp .uncompressedTcp firstPkt slCompressInit).1 := by
  refine ⟨by decide +kernel, ?_⟩
  intro h
  have hlen := congrArg (Option.map List.length) h.octets
  exact absurd hlen (by decide +kernel)

end

end VxWorks.Ppp
