import VxWorks.Ppp.PppOutput
import VxWorks.Ppp.Receive
import VxWorks.Ppp.Transmit

/-!
# A packet on its way through both ends (`if_ppp.c`)

`ppp_dequeue` takes a packet off a queue and hands what may be a TCP packet to `sl_compress_tcp`,
which looks at the body of the packet from the first mbuf that has any of it. What `ppppktin` makes
of the frame is the packet again, unless the flag for urgent data was forgotten: `crosses`.
-/

namespace VxWorks.Ppp

open VxWorks.Lib VxWorks.Netinet

/-! ## Packets -/

/-- What is behind the header. -/
def datagram (m : Mbufs) : List UInt8 := m.flatten.drop pppHdrlen

/-- The first mbuf with something behind the header, from there on. -/
def firstBody (m : Mbufs) : List UInt8 :=
  if (m.headD []).length ≤ pppHdrlen then m.tail.headD [] else (m.headD []).drop pppHdrlen

def isFragment (pkt : List UInt8) : Prop := (Buf.of pkt).u16 6 &&& 0x3fff ≠ 0

/-- A packet that gets across. What is taken for a TCP packet is a fragment or has both headers, in
one mbuf. -/
structure Passable (compTcp : Bool) (mru : Int) (m : Mbufs) : Prop extends WellFormed mru m where
  proto : protoOf (m.headD []) ≠ pppVjcComp ∧ protoOf (m.headD []) ≠ pppVjcUncomp
  tcp : compTcp = true → protoOf (m.headD []) = pppIp →
    Buf.of (firstBody m) 9 = ipprotoTcp → isFragment (datagram m) ∨
      ∃ p : TcpIpPacket, p.octets = datagram m ∧ hdrLen (.of p.octets) ≤ (firstBody m).length

/-- Where a packet ends up, and what is there of it. -/
def arrived (m : Mbufs) : Inq × List UInt8 :=
  if protoOf (m.headD []) = pppIp then (.ipintrq, datagram m) else (.scInq, m.flatten)

/-- A TCP packet that the sender gets wrong. -/
def StalePacket (sc : Out) (m : Mbufs) : Prop :=
  sc.compTcp = true ∧ protoOf (m.headD []) = pppIp ∧ Buf.of (firstBody m) 9 = ipprotoTcp ∧
    ¬ isFragment (datagram m) ∧ StaleUrgent sc.comp (.of (datagram m))

/-! ## Off a queue -/

/-- The low octet of the protocol. -/
def vjProtocol : PktType → UInt8
  | .uncompressedTcp => 0x2f
  | .compressedTcp => 0x2d
  | _ => 0x21

/-- A packet is taken off a queue with what it has for a header, and `out` behind that. -/
def Off (sc : Out) (m : Mbufs) (hi lo : UInt8) (out : List UInt8) (comp : SlCompress) : Prop :=
  ∃ hs tl next, Shrunk hi lo hs ∧ tl ++ next.flatten = out ∧
    pppDequeued sc m = ((hs ++ tl) :: next, { sc with comp })

section

variable {sc : Out} {hi lo : UInt8} {tl out : List UInt8} {next : Mbufs} {mru : Int}
  {comp' : SlCompress} {type : PktType}

theorem off_of_vjc {m m' : List UInt8} {next' : Mbufs} {protocol : UInt16}
    (hvjc : pppVjc sc m next protocol =
      ⟨pppAllstations :: pppUi :: hi :: lo :: m', next', get16 hi lo, comp'⟩)
    (hproto : protoOf m = protocol) : Off sc (m :: next) hi lo (m' ++ next'.flatten) comp' := by
  obtain ⟨hs, hshrunk, hshrink⟩ := shrink_shrunk sc hi lo m' next'
  refine ⟨hs, m', next', hshrunk, rfl, ?_⟩
  rw [pppDequeued]
  show (pppCompress sc (pppVjc sc m next (protoOf m)).m (pppVjc sc m next (protoOf m)).protocol ::
      (pppVjc sc m next (protoOf m)).next,
    { sc with comp := (pppVjc sc m next (protoOf m)).comp }) = _
  rw [hproto, hvjc, ← hshrink]
  rfl

theorem firstBody_short : firstBody ([pppAllstations, pppUi, hi, lo] :: next) = next.headD [] := rfl

theorem firstBody_long {c : UInt8} :
    firstBody ((pppAllstations :: pppUi :: hi :: lo :: c :: tl) :: next) = c :: tl :=
  if_neg (by simp [pppHdrlen])

/-- A packet that is not for `sl_compress_tcp`. -/
theorem off_plain
    (h : get16 hi lo ≠ pppIp ∨ sc.compTcp = false ∨
      Buf.of (firstBody ((pppAllstations :: pppUi :: hi :: lo :: tl) :: next)) 9 ≠ ipprotoTcp) :
    Off sc ((pppAllstations :: pppUi :: hi :: lo :: tl) :: next) hi lo (tl ++ next.flatten)
      sc.comp := by
  refine @off_of_vjc _ _ _ _ _ _ _ _ (get16 hi lo) ?_ rfl
  unfold pppVjc
  by_cases hip : get16 hi lo ≠ pppIp ∨ sc.compTcp = false
  · simp only [if_pos hip]
  have htcp := (h.resolve_left fun hne => hip (.inl hne)).resolve_left fun hno => hip (.inr hno)
  simp only [if_neg hip]
  cases tl with
  | nil =>
      have hle : [pppAllstations, pppUi, hi, lo].length ≤ pppHdrlen := Nat.le_refl _
      rw [firstBody_short] at htcp
      simp only [if_pos hle, if_pos htcp, ite_self]
  | cons c tl =>
      have hle : ¬ (pppAllstations :: pppUi :: hi :: lo :: c :: tl).length ≤ pppHdrlen := by
        simp [pppHdrlen]
      have hno : ¬ ((pppAllstations :: pppUi :: hi :: lo :: c :: tl).length ≤ pppHdrlen ∧
        next = []) := fun hand => hle hand.1
      rw [firstBody_long] at htcp
      simp only [if_neg hno, if_neg hle]
      exact if_pos htcp

theorem take_front (front rest : List UInt8) :
    (front ++ rest).take ((front ++ rest).length - rest.length) = front := by
  rw [List.length_append, Nat.add_sub_cancel, List.take_left]

/-- A TCP packet, which `sl_compress_tcp` makes `out` of. -/
theorem off_vjc {m0 : List UInt8} (hm0 : m0 = pppAllstations :: pppUi :: 0 :: 0x21 :: tl)
    (hcomp : sc.compTcp = true) (htcp : Buf.of (firstBody (m0 :: next)) 9 = ipprotoTcp) :
    ∃ mLen rest, (firstBody (m0 :: next)).length ≤ mLen ∧
      datagram (m0 :: next) = firstBody (m0 :: next) ++ rest ∧
      ∀ type front comp', slCompressTcp mLen (datagram (m0 :: next)) sc.comp (!sc.noTcpCcid) =
        some (type, front ++ rest, comp') →
        Off sc (m0 :: next) 0 (vjProtocol type) (front ++ rest) comp' := by
  have hip : ¬ (pppIp ≠ pppIp ∨ sc.compTcp = false) := by simp [hcomp]
  subst hm0
  cases tl with
  | nil =>
      have hle : [pppAllstations, pppUi, 0, 0x21].length ≤ pppHdrlen := Nat.le_refl _
      cases next with
      | nil => exact absurd htcp (by decide)
      | cons body next =>
          rw [firstBody_short, List.headD_cons] at htcp ⊢
          refine ⟨body.length, next.flatten, Nat.le_refl _, rfl, ?_⟩
          intro type front comp' hs
          have hvjc : pppVjc sc [pppAllstations, pppUi, 0, 0x21] (body :: next) pppIp =
              ⟨pppAllstations :: pppUi :: 0 :: vjProtocol type :: [], front :: next,
                get16 0 (vjProtocol type), comp'⟩ := by
            have hs' : slCompressTcp body.length (body ++ next.flatten) sc.comp (!sc.noTcpCcid) =
                some (type, front ++ next.flatten, comp') := hs
            unfold pppVjc
            simp only [if_neg hip, if_pos hle, List.headD_cons, List.tail_cons, reduceCtorEq,
              and_false, if_false]
            rw [if_neg (not_not.mpr htcp), hs']
            dsimp only
            rw [take_front]
            cases type <;> rfl
          have hoff : Off sc _ 0 _ ([] ++ (front :: next).flatten) comp' := off_of_vjc hvjc rfl
          exact hoff
  | cons c tl =>
      have hle : ¬ (pppAllstations :: pppUi :: 0 :: 0x21 :: c :: tl).length ≤ pppHdrlen := by
        simp [pppHdrlen]
      have hno : ¬ ((pppAllstations :: pppUi :: 0 :: 0x21 :: c :: tl).length ≤ pppHdrlen ∧
        next = []) := fun hand => hle hand.1
      rw [firstBody_long] at htcp ⊢
      refine ⟨(pppAllstations :: pppUi :: 0 :: 0x21 :: c :: tl).length, next.flatten,
        by simp only [List.length_cons]; omega, rfl, ?_⟩
      intro type front comp' hs
      have hvjc : pppVjc sc (pppAllstations :: pppUi :: 0 :: 0x21 :: c :: tl) next pppIp =
          ⟨pppAllstations :: pppUi :: 0 :: vjProtocol type :: front, next,
            get16 0 (vjProtocol type), comp'⟩ := by
        have hs' : slCompressTcp (pppAllstations :: pppUi :: 0 :: 0x21 :: c :: tl).length
            (c :: tl ++ next.flatten) sc.comp (!sc.noTcpCcid) =
              some (type, front ++ next.flatten, comp') := hs
        have hdrop : (pppAllstations :: pppUi :: 0 :: 0x21 :: c :: tl).drop pppHdrlen = c :: tl :=
          rfl
        unfold pppVjc
        simp only [if_neg hip, if_neg hno, if_neg hle]
        rw [hdrop, if_neg (not_not.mpr htcp), hs']
        dsimp only
        rw [take_front]
        cases type <;> rfl
      exact off_of_vjc hvjc (show get16 0 0x21 = pppIp by decide)

/-! ## Into a queue -/

/-- The receiver takes in whatever comes, with room for the headers of TCP packets in front of
them. -/
structure Takes (pkt : PktIn) : Prop where
  rejCompTcp : pkt.rejCompTcp = false
  ifUp : pkt.ifUp = true
  enableIp : pkt.enableIp = true
  qfull : ∀ q, pkt.qfull q = false
  hook : ∀ c, pkt.etherInputHookRtn.any (fun hook => hook c) = false

/-- What is put on a queue of a frame in one mbuf. -/
def queued (pkt : PktIn) (rx : SlCompress) (lead : Nat) (hi lo : UInt8) (out : List UInt8) :
    Option (Inq × List UInt8) :=
  ((ppppktin { pkt with comp := rx } lead (pppAllstations :: pppUi :: hi :: lo :: out) []).1).map
    fun p => (p.1, p.2.octets)

variable {pkt : PktIn} {rx : SlCompress} {lead : Nat} {s : PktType × List UInt8 × SlCompress}
  {m : Mbufs}

theorem queued_plain (ht : Takes pkt)
    (hproto : ¬ (get16 hi lo = pppVjcComp ∨ get16 hi lo = pppVjcUncomp)) :
    queued pkt rx lead hi lo out = some (if get16 hi lo = pppIp then (.ipintrq, out) else
        (.scInq, pppAllstations :: pppUi :: hi :: lo :: out)) ∧
      (ppppktin { pkt with comp := rx } lead (pppAllstations :: pppUi :: hi :: lo :: out) []).2 =
        rx := by
  have hin : ppppktin { pkt with comp := rx } lead (pppAllstations :: pppUi :: hi :: lo :: out) [] =
      (ppppktinPut { pkt with comp := rx } (get16 hi lo)
        ⟨pppAllstations :: pppUi :: hi :: lo :: out, out.length + 4, [], out.length + 4⟩, rx) :=
    if_neg hproto
  have hlen : ((out.length : Int) + 4 - (4 : Nat)).toNat = out.length := by omega
  refine ⟨?_, congrArg Prod.snd hin⟩
  rw [queued, hin]
  dsimp only
  rw [ppppktinPut, if_neg (by simp [ht.hook])]
  split
  · rw [if_neg (by simp [ht.ifUp, ht.enableIp, ht.qfull])]
    simp only [Option.map_some, Chain.octets, pppHdrlen, hlen, List.flatten_nil, List.append_nil]
    exact congrArg (fun l => some (Inq.ipintrq, l)) (List.take_length)
  · rw [if_neg (by simp [ht.qfull])]
    simp only [Option.map_some, Chain.octets, List.flatten_nil, List.append_nil]
    refine congrArg (fun l => some (Inq.scInq, l)) (List.take_of_length_le ?_)
    simp only [List.length_cons]
    omega

/-- A frame of one of the two kinds. -/
theorem queued_header (ht : Takes pkt) (hlead : maxHdr ≤ lead)
    (htype : comptype (get16 0 (vjProtocol type)) = type)
    (hkind : get16 0 (vjProtocol type) = pppVjcComp ∨ get16 0 (vjProtocol type) = pppVjcUncomp)
    {p : List UInt8} (hp : p ≠ []) :
    (queued pkt rx lead 0 (vjProtocol type) out = some (.ipintrq, p) ↔
        (slUncompressTcp type out rx).1 = some p) ∧
      (ppppktin { pkt with comp := rx } lead
        (pppAllstations :: pppUi :: 0 :: vjProtocol type :: out) []).2 =
          (slUncompressTcp type out rx).2 := by
  have hlen : ((pppAllstations :: pppUi :: 0 :: vjProtocol type :: out).length : Int) =
      out.length + 4 := by
    simp only [List.length_cons]
    omega
  have hbody : ((pppAllstations :: pppUi :: 0 :: vjProtocol type :: out).drop pppHdrlen).take
      ((out.length : Int) + 4 - pppHdrlen).toNat = out := by
    refine List.take_of_length_le ?_
    simp only [List.length_cons, pppHdrlen, List.length_drop]
    omega
  have hroom : ¬ (get16 0 (vjProtocol type) = pppVjcComp ∧ lead < maxHdr) :=
    fun hand => Nat.not_lt.mpr hlead hand.2
  have hproto : get16 ((pppAllstations :: pppUi :: 0 :: vjProtocol type :: out).getD 2 0)
      ((pppAllstations :: pppUi :: 0 :: vjProtocol type :: out).getD 3 0) =
        get16 0 (vjProtocol type) := rfl
  unfold queued ppppktin ppppktinVj
  dsimp only
  rw [hproto, if_pos hkind, if_neg (by simp [ht.rejCompTcp]), if_neg hroom, htype, hlen, hbody]
  rcases slUncompressTcp type out rx with ⟨_ | all, comp⟩
  · exact ⟨by simp, rfl⟩
  dsimp only
  by_cases hnil : all = []
  · rw [if_pos hnil]
    refine ⟨iff_of_false (by simp) ?_, rfl⟩
    rintro heq
    exact hp ((Option.some.inj heq).symm.trans hnil)
  rw [if_neg hnil]
  dsimp only
  rw [ppppktinPut, if_neg (by simp [ht.hook]), if_pos rfl,
    if_neg (by simp [ht.ifUp, ht.enableIp, ht.qfull])]
  have hshort : ((out.length : Int) + 4 - pppHdrlen + ((all.length : Int) + pppHdrlen -
      (((out.length : Int) + 4 + (([] : Mbufs).flatten.length : Int)) - pppHdrlen)) -
        pppHdrlen).toNat = all.length := by
    simp only [pppHdrlen, List.flatten_nil, List.length_nil]
    omega
  refine ⟨?_, rfl⟩
  simp only [Option.map_some, Chain.octets, Chain.total]
  rw [hshort]
  simp [pppHdrlen]

/-- A packet that went through `sl_compress_tcp`. -/
theorem queued_vj (ht : Takes pkt) (hlead : maxHdr ≤ lead) (htype : s.1 ≠ .error)
    {p : List UInt8} (hp : p ≠ []) :
    (queued pkt rx lead 0 (vjProtocol s.1) s.2.1 = some (.ipintrq, p) ↔
        (carry rx s).1 = some p) ∧
      (ppppktin { pkt with comp := rx } lead
        (pppAllstations :: pppUi :: 0 :: vjProtocol s.1 :: s.2.1) []).2 = (carry rx s).2.2 := by
  obtain ⟨type, out, comp'⟩ := s
  dsimp only at htype ⊢
  cases type with
  | ip =>
      obtain ⟨hq, hsame⟩ := @queued_plain 0 0x21 out pkt rx lead ht (by decide)
      refine ⟨?_, hsame⟩
      show queued pkt rx lead 0 0x21 out = some (.ipintrq, p) ↔ some out = some p
      rw [hq, if_pos (by decide)]
      simp
  | uncompressedTcp => exact queued_header ht hlead (by decide) (.inr (by decide)) hp
  | compressedTcp => exact queued_header ht hlead (by decide) (.inl (by decide)) hp
  | error => exact absurd rfl htype

theorem ip_of_get16 (h : get16 hi lo = pppIp) : hi = 0 ∧ lo = 0x21 := by
  have hnat := congrArg UInt16.toNat h
  rw [toNat_get16] at hnat
  have hip : pppIp.toNat = 33 := rfl
  have hlt := lo.toNat_lt
  constructor
  · exact UInt8.toNat_inj.mp (show hi.toNat = 0 by omega)
  · exact UInt8.toNat_inj.mp (show lo.toNat = 33 by omega)

/-- A packet goes through both ends. -/
structure Crosses (sc : Out) (rx : SlCompress) (pkt : PktIn) (lead : Nat) (mru : Int) (m : Mbufs)
    (hi lo : UInt8) (out : List UInt8) (comp : SlCompress) : Prop where
  even : hi &&& 1 = 0
  odd : lo &&& 1 = 1
  fits : (out.length : Int) ≤ mru
  off : Off sc m hi lo out comp
  arrives : queued pkt rx lead hi lo out = some (arrived m) ↔ ¬ StalePacket sc m
  sync : ¬ StalePacket sc m → Sync comp
    (ppppktin { pkt with comp := rx } lead (pppAllstations :: pppUi :: hi :: lo :: out) []).2

theorem sends_type_ne {tx : SlCompress} {e : Handed} (h : Sends tx rx e s) : s.1 ≠ .error := by
  cases h with
  | plain hord => exact PktType.noConfusion
  | whole cs tx' hord hsync hcs hns => exact PktType.noConfusion
  | changes cs tx' changes newSeq hord hsync hcs hconn htm hch hst =>
      rw [slCompressed]
      split
      · exact PktType.noConfusion
      · exact PktType.noConfusion

/-- A packet that `sl_compress_tcp` gets. -/
theorem crosses_tcp (hsync : Sync sc.comp rx) (ht : Takes pkt) (hlead : maxHdr ≤ lead)
    (hip : protoOf (m.headD []) = pppIp) (hcomp : sc.compTcp = true)
    (hbyte : Buf.of (firstBody m) 9 = ipprotoTcp) (hfits : ((datagram m).length : Int) ≤ mru)
    {mLen : Nat} {rest : List UInt8} (hfirst : (firstBody m).length ≤ mLen)
    (hwhole : datagram m = firstBody m ++ rest)
    (hoff : ∀ type front comp', slCompressTcp mLen (datagram m) sc.comp (!sc.noTcpCcid) =
      some (type, front ++ rest, comp') → Off sc m 0 (vjProtocol type) (front ++ rest) comp')
    (hpkt : isFragment (datagram m) ∨
      ∃ p : TcpIpPacket, p.octets = datagram m ∧ hdrLen (.of p.octets) ≤ (firstBody m).length) :
    ∃ hi lo out comp, Crosses sc rx pkt lead mru m hi lo out comp := by
  have harrived : arrived m = (.ipintrq, datagram m) := if_pos hip
  by_cases hfrag : isFragment (datagram m)
  · have hslc : slCompressTcp mLen (datagram m) sc.comp (!sc.noTcpCcid) =
        some (.ip, datagram m, sc.comp) := if_pos (.inl hfrag)
    have hstale : ¬ StalePacket sc m := fun h => h.2.2.2.1 hfrag
    obtain ⟨hplain, hsame⟩ := @queued_plain 0 0x21 (datagram m) pkt rx lead ht (by decide)
    refine ⟨0, 0x21, datagram m, sc.comp, by decide, by decide, hfits, ?_, ?_, ?_⟩
    · have hoff' := hoff .ip (firstBody m) sc.comp
      rw [← hwhole] at hoff'
      exact hoff' hslc
    · rw [hplain, harrived, if_pos (by decide)]
      exact iff_of_true rfl hstale
    · intro _
      rwa [hsame]
  obtain ⟨p, hp, hhdr⟩ := hpkt.resolve_left hfrag
  obtain ⟨e, rfl, hmLen, hcid⟩ : ∃ e : Handed, e.pkt = p ∧ e.mLen = mLen ∧
      e.compressCid = !sc.noTcpCcid := ⟨⟨p, mLen, hhdr.trans hfirst, _⟩, rfl, rfl, rfl⟩
  have hstale : StalePacket sc m ↔ StaleUrgent sc.comp (.of e.pkt.octets) := by
    rw [hp]
    exact ⟨fun h => h.2.2.2.2, fun h => ⟨hcomp, hip, hbyte, hfrag, h⟩⟩
  obtain ⟨⟨type, out, comp'⟩, hmade, hsends⟩ := slCompressTcp_sends hsync e
  obtain ⟨hgot, hsync'⟩ := exchange_spec hsync e
  rw [exchange, hmade] at hgot hsync'
  dsimp only at hgot hsync'
  have htype : type ≠ .error := sends_type_ne hsends
  have hl := hdrLen_eq (.of e.pkt.octets)
  have hat := tcpAt_eq (.of e.pkt.octets)
  have hw := e.pkt.ipWords
  have ho := e.pkt.tcpWords
  have hlong := e.pkt.headers
  obtain ⟨⟨front, hsplit⟩, hle⟩ := slCompressTcp_shortens (hp.trans hwhole) (by omega) hhdr hmade
  subst hsplit
  rw [hp] at hle
  rw [hp, hmLen, hcid] at hmade
  have hne : e.pkt.octets ≠ [] := List.ne_nil_of_length_pos (by omega)
  obtain ⟨hqueued, hrx⟩ := queued_vj (s := (type, front ++ rest, comp')) ht hlead htype hne
  refine ⟨0, vjProtocol type, front ++ rest, comp', rfl, ?_, by omega, hoff _ _ _ hmade, ?_, ?_⟩
  · cases type <;> decide
  · rw [harrived, ← hp, hqueued, hgot, hstale]
  · intro hfresh
    have htx : (carry rx (type, front ++ rest, comp')).2.1 = comp' := by cases type <;> rfl
    have hboth := hsync' (mt hstale.mpr hfresh)
    rwa [htx, ← hrx] at hboth

theorem crosses (hsync : Sync sc.comp rx) (hpass : Passable sc.compTcp mru m) (ht : Takes pkt)
    (hlead : maxHdr ≤ lead) : ∃ hi lo out comp, Crosses sc rx pkt lead mru m hi lo out comp := by
  obtain ⟨⟨⟨hi, lo, tl, next, rfl, hhi, hlo⟩, hfits, -⟩, hproto, htcp⟩ := hpass
  have hlen : ((pppAllstations :: pppUi :: hi :: lo :: tl) :: next).flatten.length =
      (tl ++ next.flatten).length + 4 := by
    simp only [List.flatten_cons, List.length_append, List.length_cons]
    omega
  rw [hlen] at hfits
  have hno : ¬ (get16 hi lo = pppVjcComp ∨ get16 hi lo = pppVjcUncomp) := not_or.mpr hproto
  obtain ⟨hplain, hsame⟩ := @queued_plain hi lo (tl ++ next.flatten) pkt rx lead ht hno
  by_cases hvj : get16 hi lo = pppIp ∧ sc.compTcp = true ∧
      Buf.of (firstBody ((pppAllstations :: pppUi :: hi :: lo :: tl) :: next)) 9 = ipprotoTcp
  swap
  · have hstale : ¬ StalePacket sc ((pppAllstations :: pppUi :: hi :: lo :: tl) :: next) :=
      fun h => hvj ⟨h.2.1, h.1, h.2.2.1⟩
    refine ⟨hi, lo, tl ++ next.flatten, sc.comp, hhi, hlo, by omega, off_plain ?_, ?_, ?_⟩
    · by_contra hall
      simp only [not_or, not_not] at hall
      exact hvj ⟨hall.1, by simpa using hall.2.1, hall.2.2⟩
    · exact iff_of_true hplain hstale
    · intro _
      rwa [hsame]
  obtain ⟨hip, hcomp, hbyte⟩ := hvj
  obtain ⟨rfl, rfl⟩ := ip_of_get16 hip
  obtain ⟨mLen, rest, hfirst, hwhole, hoff⟩ := @off_vjc sc tl next _ rfl hcomp hbyte
  have hfits' : ((datagram ((pppAllstations :: pppUi :: 0 :: 0x21 :: tl) :: next)).length : Int) ≤
      mru := by
    show ((tl ++ next.flatten).length : Int) ≤ mru
    omega
  exact crosses_tcp hsync ht hlead hip hcomp hbyte hfits' hfirst hwhole hoff (htcp hcomp hip hbyte)

end

end VxWorks.Ppp
