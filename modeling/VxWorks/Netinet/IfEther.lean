import Mathlib.Algebra.Ring.Int.Defs
import Mathlib.Algebra.Ring.Nat
import Mathlib.Data.List.Basic
import Mathlib.Logic.Function.Basic

/-!
# ARP and the Ethernet output routine (if_ether.c, if_subr.c)

An ARP entry is a route with a link-level address for gateway and an `llinfo_arp`. One
field, `rt_expire`, has four meanings: 0 is an entry that never expires, of a resolved
entry it is the tick it is good until, of one that is being asked for it is the tick of
the last request, and with the reject flag set it is the tick until which nothing is
asked. The tick counter has 32 bits, and all of these are compared with it as they are.

`in_arpinput` hands the packet an entry holds to `if_output`, which is `ether_output`,
which calls `arpresolve` for the same entry, still holding the packet. An entry here is
one `arplookup` accepts, with `RTF_LLINFO` and an `AF_LINK` gateway, and in the routing
table, so `RTF_UP`.
-/

namespace VxWorks.Netinet

/-- What is read of an `mbuf`: which one it is, and its flags. -/
structure EtherMbuf where
  id : Nat
  bcast : Bool
  mcast : Bool
deriving DecidableEq, Repr

/-- A packet for one host. Only these are held. -/
structure UnicastMbuf where
  mbuf : EtherMbuf
  bcast : mbuf.bcast = false
  mcast : mbuf.mcast = false
deriving DecidableEq

/-- An `rtentry` with its `llinfo_arp`. -/
structure ArpEntry where
  /-- `rt_expire` -/
  expire : UInt32
  /-- `LLADDR`, as far as `sdl_alen` goes -/
  lladdr : List UInt8
  /-- `RTF_REJECT` -/
  reject : Bool
  refcnt : Nat
  hold : Option UnicastMbuf
  asked : Nat
deriving DecidableEq

/-- The variables of if_ether.c and the clock rate. The products are computed as `int`. -/
structure ArpConfig where
  sysClkRate : Nat
  arptKeep : Nat
  arptDown : Nat
  arpRxmitTicks : Int
  arpMaxtries : Nat
  keep_pos : 0 < sysClkRate * arptKeep
  keep_int : sysClkRate * arptKeep < 2 ^ 31
  down_int : sysClkRate * arptDown < 2 ^ 31
  rate_int : sysClkRate < 2 ^ 31
  rxmit_int : arpRxmitTicks < 2 ^ 31

/-- `arpt_keep` in ticks. -/
def ArpConfig.keepTicks (cfg : ArpConfig) : Nat := cfg.sysClkRate * cfg.arptKeep

/-- `arpt_down` in ticks. -/
def ArpConfig.downTicks (cfg : ArpConfig) : Nat := cfg.sysClkRate * cfg.arptDown

/-- `arpRxmitTicks`, which `arpresolve` sets where it is negative. -/
def ArpConfig.rxmitTicks (cfg : ArpConfig) : Nat :=
  if cfg.arpRxmitTicks < 0 then cfg.sysClkRate else cfg.arpRxmitTicks.toNat

structure InIfaddr where
  ifp : Nat
  addr : UInt32
  net : UInt32
  subnetmask : UInt32
deriving DecidableEq, Repr

/-- The interface, and the addresses of all interfaces. -/
structure Arpcom where
  ifp : Nat
  enaddr : List UInt8
  noarp : Bool
  simplex : Bool
  inIfaddr : List InIfaddr

inductive ArpEffect where
  | freed (m : EtherMbuf)
  /-- on the send queue of the interface, with its header -/
  | queued (dst : List UInt8) (m : EtherMbuf)
  /-- a copy given to `looutput` -/
  | looped (m : EtherMbuf)
  | request (addr : UInt32)
  | reply (sha tha : List UInt8) (spa tpa : UInt32)
deriving DecidableEq, Repr

/-! ## arpresolve -/

def etherbroadcastaddr : List UInt8 := [0xff, 0xff, 0xff, 0xff, 0xff, 0xff]

/-- `ETHER_MAP_IP_MULTICAST`. -/
def etherMapIpMulticast (addr : UInt32) : List UInt8 :=
  [0x01, 0x00, 0x5e, (addr >>> 16).toUInt8 &&& 0x7f, (addr >>> 8).toUInt8, addr.toUInt8]

/-- `in_lnaof`. -/
def inLnaof (inIfaddr : List InIfaddr) (i : UInt32) : UInt32 :=
  let subnet (net host : UInt32) : UInt32 :=
    match inIfaddr.find? (fun ia => ia.net == net) with
    | some ia => host &&& ~~~ ia.subnetmask
    | none => host
  if i &&& 0x80000000 = 0 then subnet (i &&& 0xff000000) (i &&& 0x00ffffff)
  else if i &&& 0xc0000000 = 0x80000000 then subnet (i &&& 0xffff0000) (i &&& 0x0000ffff)
  else if i &&& 0xe0000000 = 0xc0000000 then subnet (i &&& 0xffffff00) (i &&& 0x000000ff)
  else if i &&& 0xf0000000 = 0xe0000000 then subnet (i &&& 0xf0000000) (i &&& 0x0fffffff)
  else i

/-- The address `arpresolve` makes up on an `IFF_NOARP` interface. -/
def noarpAddress (ac : Arpcom) (alen : Nat) (dst : UInt32) : List UInt8 :=
  let lna := inLnaof ac.inIfaddr dst
  ac.enaddr.take (alen - 3) ++
    [(lna >>> 16).toUInt8 &&& 0x7f, (lna >>> 8).toUInt8, lna.toUInt8]

/-- The entry has an address that is still good. -/
def ArpEntry.resolved (la : ArpEntry) (tick : UInt32) : Bool :=
  (la.expire = 0 ∨ tick < la.expire) ∧ la.lladdr ≠ []

/-- The end of `arpresolve`, for an entry that is not resolved and holds the packet. -/
def arpAsk (cfg : ArpConfig) (tick : UInt32) (la : ArpEntry) (dst : UInt32) :
    ArpEntry × List ArpEffect :=
  if la.expire = 0 then (la, [])
  else
    let la := { la with reject := false }
    if la.asked = 0 ∨ UInt32.ofNat cfg.rxmitTicks ≤ tick - la.expire then
      if la.asked < cfg.arpMaxtries then
        ({ la with expire := tick, asked := la.asked + 1 }, [.request dst])
      else
        ({ la with expire := tick + UInt32.ofNat cfg.downTicks, reject := true, asked := 0 }, [])
    else (la, [])

/-- `arpresolve` for a packet to one host, or without a packet: the address where it
returns 1. -/
def arpresolveEntry (cfg : ArpConfig) (ac : Arpcom) (tick : UInt32) (la : ArpEntry)
    (m : Option UnicastMbuf) (dst : UInt32) : ArpEntry × List ArpEffect × Option (List UInt8) :=
  if la.resolved tick then (la, [], some la.lladdr)
  else if ac.noarp then
    let la := if la.expire = 0 then { la with expire := tick } else la
    let alen := if 0 < la.lladdr.length then la.lladdr.length else 6
    if alen < 3 then (la, [], none)
    else (la, [], some (noarpAddress ac alen dst))
  else
    let freed := la.hold.toList.map fun h => ArpEffect.freed h.mbuf
    let (la, effects) := arpAsk cfg tick { la with hold := m } dst
    (la, freed ++ effects, none)

/-- `arpresolve`, for the entry it is given or finds. -/
def arpresolve (cfg : ArpConfig) (ac : Arpcom) (tick : UInt32) (la : ArpEntry) (m : EtherMbuf)
    (dst : UInt32) : ArpEntry × List ArpEffect × Option (List UInt8) :=
  if hb : m.bcast = true then (la, [], some etherbroadcastaddr)
  else if hm : m.mcast = true then (la, [], some (etherMapIpMulticast dst))
  else arpresolveEntry cfg ac tick la (some ⟨m, by simpa using hb, by simpa using hm⟩) dst

/-! ## ether_output -/

/-- What `ether_output` meets: `IFF_UP` and `IFF_RUNNING`, memory for the header, and
room in the send queue. -/
structure LinkAnswers where
  up : Bool
  prepend : Bool
  room : Bool
deriving DecidableEq, Repr

def LinkAnswers.ready (link : LinkAnswers) : Bool := link.up && link.prepend && link.room

inductive EtherError where
  | enetdown | ehostdown | ehostunreach | enobufs
deriving DecidableEq, Repr

/-- `ether_output` behind the choice of the address. -/
def enqueue (link : LinkAnswers) (edst : List UInt8) (m : EtherMbuf) :
    List ArpEffect × Option EtherError :=
  if link.prepend = false then ([.freed m], some .enobufs)
  else if link.room = false then ([.freed m], some .enobufs)
  else ([.queued edst m], none)

/-- `ether_output` for an `AF_INET` address with the entry as route, or, where `gateway`,
with a route whose `rt_gwroute` it is. -/
def etherOutput (cfg : ArpConfig) (ac : Arpcom) (tick : UInt32) (link : LinkAnswers) (m : EtherMbuf)
    (dst : UInt32) (gateway : Bool) (la : ArpEntry) :
    ArpEntry × List ArpEffect × Option EtherError :=
  if link.up = false then (la, [.freed m], some .enetdown)
  else if la.reject ∧ (la.expire = 0 ∨ tick < la.expire) then
    (la, [.freed m], some (if gateway then .ehostunreach else .ehostdown))
  else
    match arpresolve cfg ac tick la m dst with
    | (la, effects, none) => (la, effects, none)
    | (la, effects, some edst) =>
        let copy := if m.bcast ∧ ac.simplex then [ArpEffect.looped m] else []
        let (sent, error) := enqueue link edst m
        (la, effects ++ copy ++ sent, error)

section

variable {cfg : ArpConfig} {ac : Arpcom} {tick : UInt32} {link : LinkAnswers} {dst : UInt32}
  {gateway : Bool} {la la' : ArpEntry} {effects : List ArpEffect}

theorem arpresolve_unicast (m : UnicastMbuf) (dst : UInt32) :
    arpresolve cfg ac tick la m.mbuf dst = arpresolveEntry cfg ac tick la (some m) dst := by
  rw [arpresolve]
  rw [dif_neg (by simp [m.bcast]), dif_neg (by simp [m.mcast])]

theorem etherOutput_held {m : UnicastMbuf} (hup : link.up = true)
    (hrej : ¬ (la.reject = true ∧ (la.expire = 0 ∨ tick < la.expire)))
    (h : arpresolveEntry cfg ac tick la (some m) dst = (la', effects, none)) :
    etherOutput cfg ac tick link m.mbuf dst gateway la = (la', effects, none) := by
  unfold etherOutput
  rw [if_neg (by simp [hup]), if_neg hrej, arpresolve_unicast, h]

theorem etherOutput_sent {m : UnicastMbuf} {edst : List UInt8} (hup : link.up = true)
    (hrej : ¬ (la.reject = true ∧ (la.expire = 0 ∨ tick < la.expire)))
    (h : arpresolveEntry cfg ac tick la (some m) dst = (la', effects, some edst)) :
    etherOutput cfg ac tick link m.mbuf dst gateway la =
      (la', effects ++ (enqueue link edst m.mbuf).1, (enqueue link edst m.mbuf).2) := by
  unfold etherOutput
  rw [if_neg (by simp [hup]), if_neg hrej, arpresolve_unicast, h]
  simp [m.bcast]

end

/-! ## in_arpinput -/

def arpopRequest : UInt16 := 1

structure ArpMessage where
  op : UInt16
  sha : List UInt8
  spa : UInt32
  tpa : UInt32
  sha_length : sha.length = 6

/-- The entries, those with `SIN_PROXY`, and what `rtalloc1` clones for an address. -/
structure ArpTable where
  entries : UInt32 → Option ArpEntry
  proxies : UInt32 → Option ArpEntry
  clone : UInt32 → Option ArpEntry

/-- `arplookup`, not for a proxy. -/
def arplookup (t : ArpTable) (addr : UInt32) (create : Bool) : Option ArpEntry :=
  match t.entries addr with
  | some la => some la
  | none => if create then t.clone addr else none

/-- `myaddr`: the first address of the interface that is sender or target, else the last
one there is. -/
def arpMyaddr (ac : Arpcom) (msg : ArpMessage) : Option UInt32 :=
  let own := (ac.inIfaddr.filter fun ia => ia.ifp == ac.ifp).map InIfaddr.addr
  match own.find? (fun addr => msg.tpa == addr || msg.spa == addr) with
  | some addr => some addr
  | none => own.getLast?

/-- The update of the entry of the sender, with the packet it holds. -/
def arpLearn (cfg : ArpConfig) (ac : Arpcom) (tick : UInt32) (link : LinkAnswers)
    (msg : ArpMessage) (la : ArpEntry) : ArpEntry × List ArpEffect :=
  let la := { la with
    lladdr := msg.sha
    expire := if la.expire = 0 then 0 else tick + UInt32.ofNat cfg.keepTicks
    reject := false
    asked := 0 }
  match la.hold with
  | none => (la, [])
  | some m =>
      let (la, effects, _) := etherOutput cfg ac tick link m.mbuf msg.spa false la
      ({ la with hold := none }, effects)

/-- The reply to a request, for an own address or a proxied one. -/
def arpReply (ac : Arpcom) (t : ArpTable) (link : LinkAnswers) (msg : ArpMessage)
    (itaddr myaddr : UInt32) : List ArpEffect :=
  if msg.op ≠ arpopRequest then []
  else
    let send (sha : List UInt8) : List ArpEffect :=
      if link.ready then [.reply sha msg.sha itaddr msg.spa] else []
    if itaddr = myaddr then send ac.enaddr
    else
      match t.proxies itaddr with
      | none => []
      | some la => send la.lladdr

/-- `in_arpinput`; `link` is what the held packet meets, `link'` what the reply meets. -/
def inArpinput (cfg : ArpConfig) (ac : Arpcom) (tick : UInt32) (link link' : LinkAnswers)
    (msg : ArpMessage) (t : ArpTable) : ArpTable × List ArpEffect :=
  match arpMyaddr ac msg with
  | none => (t, [])
  | some myaddr =>
      if msg.sha = ac.enaddr then (t, [])
      else if msg.sha = etherbroadcastaddr then (t, [])
      else if msg.spa = myaddr then (t, arpReply ac t link' msg myaddr myaddr)
      else
        match arplookup t msg.spa (msg.tpa == myaddr) with
        | none => (t, arpReply ac t link' msg msg.tpa myaddr)
        | some la =>
            let (la, effects) := arpLearn cfg ac tick link msg la
            let t := { t with entries := Function.update t.entries msg.spa (some la) }
            (t, effects ++ arpReply ac t link' msg msg.tpa myaddr)

/-! ## Time -/

/-- `arptfree`, for the entry that `arptimer` finds expired; without a reference the
route is deleted. -/
def arptfree (la : ArpEntry) : Option ArpEntry :=
  if 0 < la.refcnt then some { la with lladdr := [], asked := 0, reject := false } else none

def ArpEntry.expired (la : ArpEntry) (tick : UInt32) : Bool := la.expire ≠ 0 ∧ la.expire ≤ tick

/-- `arptimer`, as far as it is about one entry. -/
def arptimer (tick : UInt32) (la : ArpEntry) : Option ArpEntry :=
  if la.expired tick then arptfree la else some la

/-- What happens to an entry while no ARP packet for it arrives. -/
inductive ArpEvent where
  | tick
  | timer
  | resolve (m : Option UnicastMbuf)
  | output (m : UnicastMbuf) (link : LinkAnswers) (gateway : Bool)

structure ArpState where
  tick : UInt32
  entry : ArpEntry
deriving DecidableEq

/-- One event, for the entry of address `addr`, with what it does and what `ether_output`
returns. -/
def arpEvent (cfg : ArpConfig) (ac : Arpcom) (addr : UInt32) (s : ArpState) :
    ArpEvent → Option ArpState × List ArpEffect × Option EtherError
  | .tick => (some { s with tick := s.tick + 1 }, [], none)
  | .timer => ((arptimer s.tick s.entry).map fun la => { s with entry := la }, [], none)
  | .resolve m =>
      let (la, effects, _) := arpresolveEntry cfg ac s.tick s.entry m addr
      (some { s with entry := la }, effects, none)
  | .output m link gateway =>
      let (la, effects, error) := etherOutput cfg ac s.tick link m.mbuf addr gateway s.entry
      (some { s with entry := la }, effects, error)

/-- The state goes with the entry. -/
def arpStep (cfg : ArpConfig) (ac : Arpcom) (addr : UInt32) (s : Option ArpState)
    (e : ArpEvent) : Option ArpState :=
  s.bind fun s => (arpEvent cfg ac addr s e).1

end VxWorks.Netinet
