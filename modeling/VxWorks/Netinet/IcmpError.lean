import VxWorks.Netinet.InCksum
import VxWorks.Netinet.IpOptions

/-!
# The header that an ICMP error quotes (ip_icmp.c, ip_input.c)

`ipintr` converts `ip_len`, `ip_id` and `ip_off` where they lie, and on the way up takes the length
of the header off `ip_len`. `icmp_error` adds it again, converts `ip_len` back and copies the rest
of the header as it finds it. What else there is to undo is left to its callers.

What `ipintr` and `ip_dooptions` check besides, and drop a packet for without an error, is left out.
A header is here as it lies in memory, with the shorts that the machine reads there. What the tables
of routes, the interfaces and the buffers answer on the way is a parameter of that way, and so is
what `ip_dooptions` makes of the destination and the options. The input routine of UDP is not here;
it is a function from the header it is given to the one it hands on to `icmp_error`.
-/

namespace VxWorks.Netinet

open VxWorks.Lib

/-! ## icmp_error -/

/-- `struct ip` in memory. -/
structure MemIp where
  hl : Fin 16
  tos : UInt8
  len : UInt16
  id : UInt16
  off : UInt16
  ttl : UInt8
  p : UInt8
  sum : UInt16
  src : UInt32
  dst : UInt32
deriving DecidableEq, Repr

/-- `ip_hl << 2` -/
def MemIp.hlen (ip : MemIp) : Nat := 4 * ip.hl.val

/-- The first mbuf of a packet: the header, the memory behind its first twenty octets, `m_len`, and
`M_BCAST` and `M_MCAST`. -/
structure ErrMbuf where
  ip : MemIp
  after : Nat → UInt8
  mlen : Nat
  bcast : Bool
  mcast : Bool

/-- `ntohs` and `htons` -/
def ByteOrder.ntohs (bo : ByteOrder) (x : UInt16) : UInt16 := UInt16.ofNat (bo.htons x.toNat)

def icmpUnreach : UInt8 := 3

def icmpSourcequench : UInt8 := 4

def icmpRedirect : UInt8 := 5

def icmpTimxceed : UInt8 := 11

def icmpParamprob : UInt8 := 12

def icmpUnreachPort : Nat := 3

def icmpUnreachNeedfrag : Nat := 4

def icmpRedirectHost : Nat := 1

/-- `ICMP_INFOTYPE` -/
def icmpInfotype (type : UInt8) : Bool := type ∈ [0, 8, 9, 10, 13, 14, 15, 16, 17, 18]

/-- What `icmp_hun` is set to. -/
inductive IcmpHun where
  | void
  | gwaddr (dest : UInt32)
  | pptr (n : UInt8)
  | nextmtu (mtu : UInt16)
deriving DecidableEq, Repr

/-- The message: the header in front of it, its own fields, the header it quotes, and the octets it
quotes behind that. -/
structure IcmpError where
  outer : MemIp
  type : UInt8
  code : UInt8
  hun : IcmpHun
  ip : MemIp
  data : List UInt8

/-- `icmp_hun` and `icmp_code`; `mtu` is that of `destifp`, where there is one. -/
def icmpCode (bo : ByteOrder) (type : UInt8) (code : Nat) (dest : UInt32) (mtu : Option UInt16) :
    IcmpHun × UInt8 :=
  if type = icmpRedirect then (.gwaddr dest, UInt8.ofNat code)
  else if type = icmpParamprob then (.pptr (UInt8.ofNat code), 0)
  else if type = icmpUnreach ∧ code = icmpUnreachNeedfrag then
    (mtu.elim .void fun mtu => .nextmtu (bo.ntohs mtu), UInt8.ofNat code)
  else (.void, UInt8.ofNat code)

/-- `icmp_error`; `mbuf` is whether `mHdrClGet` has one. -/
def icmpError (bo : ByteOrder) (mbuf : Bool) (n : ErrMbuf) (type : UInt8) (code : Nat)
    (dest : UInt32) (mtu : Option UInt16) : Option IcmpError :=
  let oip := n.ip
  let oiplen := oip.hlen
  if oip.off &&& ~~~ 0x6000 ≠ 0 then none
  else if oip.p = 1 ∧ type ≠ icmpRedirect ∧ oiplen + 8 ≤ n.mlen ∧
      icmpInfotype (n.after (oiplen - 20)) = false then none
  else if n.bcast ∨ n.mcast then none
  else if mbuf = false then none
  else
    let icmplen := oiplen + min 8 oip.len.toNat
    some
      { outer := { oip with len := UInt16.ofNat (icmplen + 28), hl := 5, p := 1, tos := 0 }
        type
        code := (icmpCode bo type code dest mtu).2
        hun := (icmpCode bo type code dest mtu).1
        ip := { oip with len := bo.ntohs (oip.len + UInt16.ofNat oiplen) }
        data := (List.range (icmplen - 20)).map n.after }

/-! ## ip_forward -/

/-- What `ip_output` answers for a packet that is forwarded. -/
inductive OutputError where
  | emsgsize
  | enobufs
  | other
deriving DecidableEq, Repr

/-- What `ip_output` meets: an error of the routing and of the rules for broadcasts, the source it
fills in, `if_mtu`, whether the fragments can be made, the checksum, and what `if_output`
answers. -/
structure OutputAnswers where
  routing : Option OutputError
  src : UInt32
  mtu : Nat
  frags : Bool
  sum : UInt16
  ifOutput : Option OutputError

/-- `ip_output` with `IP_FORWARDING`: the error, and the header as it is in memory then. -/
def forwardOutput (bo : ByteOrder) (a : OutputAnswers) (ip : MemIp) : Option OutputError × MemIp :=
  if a.routing.isSome then (a.routing, ip)
  else
    let ip := { ip with src := a.src }
    if ip.len.toNat ≤ a.mtu then
      (a.ifOutput, { ip with len := bo.ntohs ip.len, off := bo.ntohs ip.off, sum := a.sum })
    else if ip.off &&& 0x4000 ≠ 0 then (some .emsgsize, ip)
    else
      let len := (a.mtu - ip.hlen) / 8 * 8
      if len < 8 then (some .emsgsize, ip)
      else if a.frags = false then (some .enobufs, ip)
      else
        (a.ifOutput, { ip with
          len := bo.ntohs (UInt16.ofNat (ip.hlen + len))
          off := bo.ntohs (ip.off ||| 0x2000)
          sum := a.sum })

/-- What `m_copy` makes of the packet: whether it shares the memory of the packet, and the memory
behind the header if it does not. -/
structure ErrCopy where
  shared : Bool
  after : Nat → UInt8

/-- What `ip_forward` meets: `in_canforward` and the hook, whether there is a route, the copy, the
gateway of a redirect that is due, `ip_output`, and the `if_mtu` of the route it leaves. -/
structure ForwardAnswers where
  canforward : Bool
  route : Bool
  copy : Option ErrCopy
  redirect : Option UInt32
  output : OutputAnswers
  mtu : Option UInt16

/-- `mcopy` once `ip_output` has left the header as `ip`. -/
def ErrCopy.mbuf (c : ErrCopy) (m : ErrMbuf) (ip : MemIp) : ErrMbuf :=
  { m with
    ip := if c.shared then ip else m.ip
    after := if c.shared then m.after else c.after
    mlen := min m.mlen (min m.ip.len.toNat 64) }

/-- The `switch` on what `ip_output` answers: `type`, `code` and the `if_mtu` of `destifp`. Without
an error there is only the redirect. -/
def forwardCode (a : ForwardAnswers) : Option OutputError → Option (UInt8 × Nat × Option UInt16)
  | none => a.redirect.map fun _ => (icmpRedirect, icmpRedirectHost, none)
  | some .emsgsize => some (icmpUnreach, icmpUnreachNeedfrag, a.mtu)
  | some .enobufs => some (icmpSourcequench, 0, none)
  | some .other => some (icmpUnreach, icmpUnreachHost, none)

/-- `ip_forward` -/
def ipForward (bo : ByteOrder) (mbuf : Bool) (a : ForwardAnswers) (m : ErrMbuf) :
    Option IcmpError :=
  if m.bcast ∨ a.canforward = false then none
  else
    let m : ErrMbuf := { m with ip := { m.ip with id := bo.ntohs m.ip.id } }
    if m.ip.ttl ≤ 1 then
      let ip := { m.ip with len := bo.ntohs m.ip.len }
      icmpError bo mbuf { m with ip } icmpTimxceed 0 0 none
    else
      let m : ErrMbuf := { m with ip := { m.ip with ttl := m.ip.ttl - 1 } }
      if a.route = false then icmpError bo mbuf m icmpUnreach icmpUnreachHost 0 none
      else
        let (error, ip) := forwardOutput bo a.output m.ip
        a.copy.bind fun c =>
          (forwardCode a error).bind fun (type, code, mtu) =>
            icmpError bo mbuf (c.mbuf m ip) type code (a.redirect.getD 0) mtu

/-! ## ipintr -/

/-- A packet for this host, up to the input routine of its protocol. A fragment is delivered if it
is the first of a datagram that has been put together, of which `total` is the length. -/
def ipDeliver (total : Option UInt16) (ip : MemIp) : Option MemIp :=
  if ip.off &&& ~~~ 0x4000 = 0 then some { ip with len := ip.len - UInt16.ofNat ip.hlen }
  else
    let tos := ip.tos &&& 0xfe
    if ip.off <<< 3 ≠ 0 then none
    else if ip.off &&& 0x2000 = 0 then
      some { ip with len := ip.len - UInt16.ofNat ip.hlen, off := 0, tos }
    else total.map fun len => { ip with len, off := 0, tos }

/-- Where a packet goes that ends in an error: the label `bad` of `ip_dooptions`, `ip_forward`, or
the input routine of UDP, for a port that nobody has. -/
inductive ErrExit where
  | bad (type : IcmpType) (code : Nat)
  | forward (a : ForwardAnswers)
  | port (total : Option UInt16)

/-- `dst` and `after` are what `ip_dooptions` has made of the destination and of the options. -/
structure ErrPath where
  dst : UInt32
  after : Nat → UInt8
  exit : ErrExit

/-- `type` of `ip_dooptions`. -/
def IcmpType.number : IcmpType → UInt8
  | .unreach => icmpUnreach
  | .paramprob => icmpParamprob

/-- The packet in host order, to its exit. -/
def ErrExit.run (bo : ByteOrder) (mbuf : Bool) (udp : MemIp → MemIp) (m : ErrMbuf) :
    ErrExit → Option IcmpError
  | .bad type code =>
      let ip := { m.ip with len := m.ip.len - UInt16.ofNat m.ip.hlen }
      icmpError bo mbuf { m with ip } type.number code 0 none
  | .forward a => ipForward bo mbuf a m
  | .port total =>
      (ipDeliver total m.ip).bind fun ip =>
        icmpError bo mbuf { m with ip := udp ip } icmpUnreach icmpUnreachPort 0 none

/-- `ipintr`, from the packet as it was received to the error. -/
def ipintrError (bo : ByteOrder) (mbuf : Bool) (udp : MemIp → MemIp) (path : ErrPath)
    (m : ErrMbuf) : Option IcmpError :=
  let hlen := m.ip.hlen
  if hlen < 20 then none
  else
    let len := bo.ntohs m.ip.len
    if len.toNat < hlen then none
    else
      let ip := { m.ip with
        len, id := bo.ntohs m.ip.id, off := bo.ntohs m.ip.off, dst := path.dst }
      path.exit.run bo mbuf udp { m with ip, after := path.after }

/-! ## What is quoted -/

/-- The three fields are what they were when the packet was received. -/
structure Quotes (ip quoted : MemIp) : Prop where
  len : quoted.len = ip.len
  id : quoted.id = ip.id
  off : quoted.off = ip.off

/-- The input routine of UDP puts the header back as it was given to it. -/
structure RestoresIp (udp : MemIp → MemIp) : Prop where
  hl : ∀ ip, (udp ip).hl = ip.hl
  len : ∀ ip, (udp ip).len = ip.len
  id : ∀ ip, (udp ip).id = ip.id
  off : ∀ ip, (udp ip).off = ip.off

/-- The length of the first fragment. -/
def OutputAnswers.firstLen (a : OutputAnswers) (hlen : Nat) : Nat := hlen + (a.mtu - hlen) / 8 * 8

/-- `ip_output` sends fragments; `len` and `off` are in host order. -/
structure OutputAnswers.Fragments (a : OutputAnswers) (hlen : Nat) (len off : UInt16) : Prop where
  routing : a.routing = none
  large : a.mtu < len.toNat
  df : off &&& 0x4000 = 0
  room : 8 ≤ (a.mtu - hlen) / 8 * 8
  frags : a.frags = true

/-- The packet is forwarded in fragments, and its copy is its own memory. -/
structure ForwardAnswers.Fragments (a : ForwardAnswers) (ttl : UInt8) (hlen : Nat)
    (len off : UInt16) : Prop where
  ttl : ¬ ttl ≤ 1
  route : a.route = true
  copy : ∃ c, a.copy = some c ∧ c.shared = true
  output : a.output.Fragments hlen len off

/-- The header that was received comes out by accident: it is that of the first fragment of a
fragment, which is shorter by the length of a header. -/
structure Coincides (bo : ByteOrder) (a : ForwardAnswers) (ip : MemIp) : Prop where
  fragments : a.Fragments ip.ttl ip.hlen (bo.ntohs ip.len) (bo.ntohs ip.off)
  len : bo.ntohs (UInt16.ofNat (a.output.firstLen ip.hlen)) + UInt16.ofNat ip.hlen =
    bo.ntohs ip.len
  off : bo.ntohs ip.off ||| 0x2000 = bo.ntohs ip.off

/-- Nothing is left to undo on this way. -/
def Undone (bo : ByteOrder) (ip : MemIp) : ErrExit → Prop
  | .bad _ _ => bo.ntohs ip.id = ip.id ∧ bo.ntohs ip.off = ip.off
  | .forward a => Coincides bo a ip
  | .port _ =>
      bo.ntohs ip.id = ip.id ∧ bo.ntohs ip.off = ip.off ∧ bo.ntohs ip.off &&& ~~~ 0x4000 = 0

section

variable {bo : ByteOrder} {mbuf : Bool} {x y : UInt16} {n : Nat}

theorem toNat_ntohs (bo : ByteOrder) (x : UInt16) : (bo.ntohs x).toNat = bo.htons x.toNat := by
  have hx := x.toNat_lt
  rw [ByteOrder.ntohs, UInt16.toNat_ofNat']
  cases bo with
  | big => exact Nat.mod_eq_of_lt hx
  | little =>
      have hle := swap16_le (x := x.toNat) (by omega)
      rw [ByteOrder.htons]
      omega

@[simp] theorem ntohs_ntohs (bo : ByteOrder) (x : UInt16) : bo.ntohs (bo.ntohs x) = x := by
  apply UInt16.toNat_inj.mp
  rw [toNat_ntohs, toNat_ntohs]
  cases bo with
  | big => rfl
  | little =>
      have hx := x.toNat_lt
      rw [ByteOrder.htons, ByteOrder.htons, swap16, swap16]
      omega

theorem ntohs_eq_iff : bo.ntohs x = y ↔ x = bo.ntohs y := by
  constructor
  · rintro rfl
    exact (ntohs_ntohs bo x).symm
  · rintro rfl
    exact ntohs_ntohs bo y

theorem add_hlen_ne (hn : 20 ≤ n) (hn' : n ≤ 60) : x + UInt16.ofNat n ≠ x := by
  intro h
  have hx := x.toNat_lt
  have hnat := congrArg UInt16.toNat h
  rw [UInt16.toNat_add, UInt16.toNat_ofNat'] at hnat
  omega

/-- A length is not what it is in the other order less the length of a header. -/
theorem ntohs_add_hlen_ne (hn : 20 ≤ n) (hn' : n ≤ 60) : bo.ntohs (x + UInt16.ofNat n) ≠ x := by
  rw [Ne, ntohs_eq_iff]
  intro h
  cases bo with
  | big => exact add_hlen_ne hn hn' (h.trans (UInt16.ofNat_toNat))
  | little =>
      have hx := x.toNat_lt
      have hnat := congrArg UInt16.toNat h
      rw [toNat_ntohs, UInt16.toNat_add, UInt16.toNat_ofNat', ByteOrder.htons, swap16] at hnat
      -- 255 does not divide the length of a header, nor what is missing from it to 65536
      have hparts := Nat.div_add_mod x.toNat 256
      have hlow : x.toNat % 256 < 256 := Nat.mod_lt _ (by decide)
      generalize x.toNat % 256 = lo at hnat hparts hlow
      generalize x.toNat / 256 = hi at hnat hparts
      rw [← hparts] at hnat hx
      have hcarry : 256 * hi + lo + n = lo * 256 + hi ∨
          256 * hi + lo + n = lo * 256 + hi + 65536 := by omega
      rcases hcarry with hcarry | hcarry
      · omega
      · omega

theorem MemIp.hlen_le (ip : MemIp) : ip.hlen ≤ 60 := by
  have hhl := ip.hl.isLt
  rw [MemIp.hlen]
  omega

/-- `icmp_error` touches `ip_len` alone. -/
theorem icmpError_ip {m : ErrMbuf} {type : UInt8} {code : Nat} {dest : UInt32} {mtu : Option UInt16}
    {msg : IcmpError} (h : icmpError bo mbuf m type code dest mtu = some msg) :
    msg.ip = { m.ip with len := bo.ntohs (m.ip.len + UInt16.ofNat m.ip.hlen) } := by
  rw [icmpError] at h
  dsimp only at h
  split at h
  · exact absurd h (by simp)
  split at h
  · exact absurd h (by simp)
  split at h
  · exact absurd h (by simp)
  split at h
  · exact absurd h (by simp)
  · rw [← Option.some.inj h]

theorem icmpError_quotes {m : ErrMbuf} {type : UInt8} {code : Nat} {dest : UInt32}
    {mtu : Option UInt16} {msg : IcmpError}
    (h : icmpError bo mbuf m type code dest mtu = some msg) (ip : MemIp) :
    Quotes ip msg.ip ↔
      m.ip.len + UInt16.ofNat m.ip.hlen = bo.ntohs ip.len ∧ m.ip.id = ip.id ∧
        m.ip.off = ip.off := by
  rw [icmpError_ip h, ← ntohs_eq_iff]
  exact ⟨fun hq => ⟨hq.len, hq.id, hq.off⟩, fun hq => ⟨hq.1, hq.2.1, hq.2.2⟩⟩

/-- What `ip_output` makes of the header: nothing, or the header of the packet as it is sent, or the
one of its first fragment. -/
theorem forwardOutput_cases (bo : ByteOrder) (a : OutputAnswers) (ip : MemIp) :
    (forwardOutput bo a ip).2.hl = ip.hl ∧ (forwardOutput bo a ip).2.id = ip.id ∧
      (a.Fragments ip.hlen ip.len ip.off ∧
          (forwardOutput bo a ip).2.len = bo.ntohs (UInt16.ofNat (a.firstLen ip.hlen)) ∧
          (forwardOutput bo a ip).2.off = bo.ntohs (ip.off ||| 0x2000) ∨
        ¬ a.Fragments ip.hlen ip.len ip.off ∧
          ((forwardOutput bo a ip).2.len = ip.len ∨
            (forwardOutput bo a ip).2.len = bo.ntohs ip.len)) := by
  rw [forwardOutput]
  dsimp only
  split
  · next hrouting =>
      refine ⟨rfl, rfl, .inr ⟨?_, .inl rfl⟩⟩
      intro h
      rw [h.routing] at hrouting
      exact absurd hrouting (by decide)
  split
  · next hsmall => exact ⟨rfl, rfl, .inr ⟨fun h => absurd h.large (by omega), .inr rfl⟩⟩
  split
  · next hdf => exact ⟨rfl, rfl, .inr ⟨fun h => hdf h.df, .inl rfl⟩⟩
  split
  · next hroom =>
      refine ⟨rfl, rfl, .inr ⟨fun h => absurd h.room ?_, .inl rfl⟩⟩
      exact Nat.not_le_of_lt hroom
  split
  · next hfrags =>
      refine ⟨rfl, rfl, .inr ⟨?_, .inl rfl⟩⟩
      intro h
      rw [h.frags] at hfrags
      exact absurd hfrags (by decide)
  · next hrouting hlarge hdf hroom hfrags =>
      refine ⟨rfl, rfl, .inl ⟨⟨?_, ?_, ?_, ?_, ?_⟩, rfl, rfl⟩⟩
      · simpa using hrouting
      · omega
      · simpa using hdf
      · exact Nat.le_of_not_lt hroom
      · simpa using hfrags

/-- The header that is handed to `icmp_error` for a packet that is not forwarded, or not only. -/
theorem ipForward_cases {a : ForwardAnswers} {m : ErrMbuf} {msg : IcmpError}
    (h : ipForward bo mbuf a m = some msg) :
    ∃ n type code dest mtu, icmpError bo mbuf n type code dest mtu = some msg ∧
      n.ip.hl = m.ip.hl ∧ n.ip.id = bo.ntohs m.ip.id ∧
      (a.Fragments m.ip.ttl m.ip.hlen m.ip.len m.ip.off ∧
          n.ip.len = bo.ntohs (UInt16.ofNat (a.output.firstLen m.ip.hlen)) ∧
          n.ip.off = bo.ntohs (m.ip.off ||| 0x2000) ∨
        ¬ a.Fragments m.ip.ttl m.ip.hlen m.ip.len m.ip.off ∧
          (n.ip.len = m.ip.len ∨ n.ip.len = bo.ntohs m.ip.len)) := by
  rw [ipForward] at h
  split at h
  · exact absurd h (by simp)
  dsimp only at h
  split at h
  · next httl =>
      exact ⟨_, _, _, _, _, h, rfl, rfl, .inr ⟨fun hf => hf.ttl httl, .inr rfl⟩⟩
  split at h
  · next hroute =>
      refine ⟨_, _, _, _, _, h, rfl, rfl, .inr ⟨?_, .inl rfl⟩⟩
      intro hf
      rw [hf.route] at hroute
      exact absurd hroute (by decide)
  · next httl hroute =>
      obtain ⟨c, hcopy, h⟩ := Option.bind_eq_some_iff.mp h
      obtain ⟨⟨type, code, mtu⟩, _, h⟩ := Option.bind_eq_some_iff.mp h
      refine ⟨_, _, _, _, _, h, ?_⟩
      rw [ErrCopy.mbuf]
      dsimp only
      obtain ⟨hhl, hid, hout⟩ := forwardOutput_cases bo a.output
        { m.ip with id := bo.ntohs m.ip.id, ttl := m.ip.ttl - 1 }
      cases hshared : c.shared with
      | false =>
          refine ⟨rfl, rfl, .inr ⟨?_, .inl rfl⟩⟩
          intro hf
          obtain ⟨c', hcopy', hshared'⟩ := hf.copy
          rw [Option.some.inj (hcopy.symm.trans hcopy'), hshared'] at hshared
          exact absurd hshared (by decide)
      | true =>
          refine ⟨hhl, hid, ?_⟩
          rcases hout with ⟨hfrag, hlen, hoff⟩ | ⟨hfrag, hlen⟩
          · exact .inl ⟨⟨httl, by simpa using hroute, ⟨c, hcopy, hshared⟩, hfrag⟩, hlen, hoff⟩
          · exact .inr ⟨fun hf => hfrag hf.output, hlen⟩

/-- The header as `ipintr` has converted it. -/
def MemIp.toHost (bo : ByteOrder) (ip : MemIp) (dst : UInt32) : MemIp :=
  { ip with len := bo.ntohs ip.len, id := bo.ntohs ip.id, off := bo.ntohs ip.off, dst }

variable {udp : MemIp → MemIp} {ip : MemIp} {dst : UInt32} {m : ErrMbuf} {msg : IcmpError}

theorem ipForward_quotes (hhlen : 20 ≤ ip.hlen) (hm : m.ip = ip.toHost bo dst)
    {a : ForwardAnswers} (h : ipForward bo mbuf a m = some msg) :
    Quotes ip msg.ip ↔ Coincides bo a ip := by
  have hhlen' := ip.hlen_le
  obtain ⟨n, type, code, dest, mtu, herror, hhl, hid, hcases⟩ := ipForward_cases h
  rw [hm] at hhl hid hcases
  have hnlen : n.ip.hlen = ip.hlen := by
    rw [MemIp.hlen, hhl]
    rfl
  rw [icmpError_quotes herror, hnlen]
  rcases hcases with ⟨hfrag, hlen, hoff⟩ | ⟨hfrag, hlen⟩
  · constructor
    · rintro ⟨hqlen, _, hqoff⟩
      rw [hlen] at hqlen
      rw [hoff, ntohs_eq_iff] at hqoff
      exact ⟨hfrag, hqlen, hqoff⟩
    · intro hc
      rw [hlen, hoff, ntohs_eq_iff]
      exact ⟨hc.len, hid.trans (ntohs_ntohs bo ip.id), hc.off⟩
  · constructor
    · rintro ⟨hqlen, _⟩
      rcases hlen with hlen | hlen
      · rw [hlen] at hqlen
        exact absurd hqlen (add_hlen_ne hhlen hhlen')
      · rw [hlen, MemIp.toHost, ntohs_ntohs, ← ntohs_eq_iff] at hqlen
        exact absurd hqlen (ntohs_add_hlen_ne hhlen hhlen')
    · exact fun hc => absurd hc.fragments hfrag

theorem bad_quotes (hm : m.ip = ip.toHost bo dst) {type : UInt8} {code : Nat}
    (h : icmpError bo mbuf
      { m with ip := { m.ip with len := m.ip.len - UInt16.ofNat m.ip.hlen } } type code 0 none =
        some msg) :
    Quotes ip msg.ip ↔ bo.ntohs ip.id = ip.id ∧ bo.ntohs ip.off = ip.off := by
  rw [icmpError_quotes h, hm]
  have hlen : bo.ntohs ip.len - UInt16.ofNat ip.hlen + UInt16.ofNat ip.hlen = bo.ntohs ip.len :=
    UInt16.sub_add_cancel ..
  exact ⟨fun hq => hq.2, fun hq => ⟨hlen, hq⟩⟩

theorem ipDeliver_cases {total : Option UInt16} {ip' : MemIp} (h : ipDeliver total ip = some ip') :
    ip'.hl = ip.hl ∧ ip'.id = ip.id ∧
      (ip.off &&& ~~~ 0x4000 = 0 ∧ ip'.len = ip.len - UInt16.ofNat ip.hlen ∧ ip'.off = ip.off ∨
        ip.off &&& ~~~ 0x4000 ≠ 0 ∧ ip'.off = 0) := by
  rw [ipDeliver] at h
  split at h
  · next hoff =>
      rw [← Option.some.inj h]
      exact ⟨rfl, rfl, .inl ⟨hoff, rfl, rfl⟩⟩
  · next hoff =>
      dsimp only at h
      split at h
      · exact absurd h (by simp)
      split at h
      · rw [← Option.some.inj h]
        exact ⟨rfl, rfl, .inr ⟨hoff, rfl⟩⟩
      · obtain ⟨len, _, h⟩ := Option.map_eq_some_iff.mp h
        rw [← h]
        exact ⟨rfl, rfl, .inr ⟨hoff, rfl⟩⟩

theorem port_quotes (hudp : RestoresIp udp) (hm : m.ip = ip.toHost bo dst) {total : Option UInt16}
    {ip' : MemIp} (hip : ipDeliver total m.ip = some ip')
    (h : icmpError bo mbuf { m with ip := udp ip' } icmpUnreach icmpUnreachPort 0 none =
      some msg) :
    Quotes ip msg.ip ↔
      bo.ntohs ip.id = ip.id ∧ bo.ntohs ip.off = ip.off ∧ bo.ntohs ip.off &&& ~~~ 0x4000 = 0 := by
  obtain ⟨hhl, hid, hcases⟩ := ipDeliver_cases hip
  rw [hm] at hhl hid hcases
  rw [icmpError_quotes h]
  dsimp only
  have hhlen : (udp ip').hlen = ip.hlen := by
    rw [MemIp.hlen, hudp.hl, hhl]
    rfl
  rw [hhlen, hudp.len, hudp.id, hudp.off, hid]
  rcases hcases with ⟨hoff, hlen, hsame⟩ | ⟨hoff, hzero⟩
  · rw [hlen, hsame]
    have hadd : bo.ntohs ip.len - UInt16.ofNat ip.hlen + UInt16.ofNat ip.hlen = bo.ntohs ip.len :=
      UInt16.sub_add_cancel ..
    exact ⟨fun hq => ⟨hq.2.1, hq.2.2, hoff⟩, fun hq => ⟨hadd, hq.1, hq.2.1⟩⟩
  · constructor
    · rintro ⟨_, _, hqoff⟩
      rw [hzero] at hqoff
      have hnone : bo.ntohs 0 = 0 := by
        cases bo with
        | big => rfl
        | little => rfl
      refine absurd ?_ hoff
      rw [MemIp.toHost, ← hqoff]
      dsimp only
      rw [hnone]
      rfl
    · exact fun hq => absurd hq.2.2 hoff

end

/-! ## Every error -/

/-- An error quotes the header that was received if and only if its way leaves nothing to undo. -/
theorem icmp_error_quotes_iff {bo : ByteOrder} {mbuf : Bool} {udp : MemIp → MemIp}
    (hudp : RestoresIp udp) {path : ErrPath} {m : ErrMbuf} {msg : IcmpError}
    (h : ipintrError bo mbuf udp path m = some msg) :
    Quotes m.ip msg.ip ↔ Undone bo m.ip path.exit := by
  unfold ipintrError at h
  dsimp only at h
  split at h
  · exact absurd h (by simp)
  · next hhlen =>
      split at h
      · exact absurd h (by simp)
      · unfold ErrExit.run at h
        split at h
        · next type code hexit =>
            rw [hexit]
            exact bad_quotes rfl h
        · next a hexit =>
            rw [hexit]
            exact ipForward_quotes (by omega) rfl h
        · next total hexit =>
            obtain ⟨ip', hip, h⟩ := Option.bind_eq_some_iff.mp h
            rw [hexit]
            exact port_quotes hudp rfl hip h

theorem restoresIp_id : RestoresIp id := ⟨fun _ => rfl, fun _ => rfl, fun _ => rfl, fun _ => rfl⟩

/-- A datagram of 84 octets in network order, as a big-endian machine reads it, with one hop to go
and four octets of options. -/
def lastHop : ErrMbuf where
  ip := ⟨6, 0, 84, 7, 0, 1, 17, 0, 0x0a000001, 0x0b000001⟩
  after := fun _ => 0
  mlen := 84
  bcast := false
  mcast := false

def overland : ErrPath :=
  ⟨0x0b000001, fun _ => 0, .forward
    ⟨true, true, none, none, ⟨none, 0, 1500, true, 0, none⟩, none⟩⟩

/-- An option that is too long. -/
def overlong : ErrPath := ⟨0x0b000001, fun _ => 9, .bad .paramprob 21⟩

theorem icmp_error_quotes_overlong :
    ∃ msg, ipintrError .big true id overlong lastHop = some msg ∧ Quotes lastHop.ip msg.ip :=
  ⟨_, rfl, (@icmp_error_quotes_iff .big true id restoresIp_id overlong lastHop _ rfl).mpr
    ⟨rfl, rfl⟩⟩

/-- The time of a packet is up, on a machine where nothing is to be converted. The error says that
the packet was longer by its header. -/
theorem icmp_error_ttl :
    ∃ msg, ipintrError .big true id overland lastHop = some msg ∧
      msg.type = icmpTimxceed ∧ lastHop.ip.len = 84 ∧ msg.ip.len = 108 ∧
      ¬ Quotes lastHop.ip msg.ip :=
  ⟨_, rfl, rfl, rfl, rfl, fun h => absurd h.len (by decide)⟩

end VxWorks.Netinet
