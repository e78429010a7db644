import Mathlib.Logic.Function.Iterate
import VxWorks.Lib.Chains
import VxWorks.Lib.Run

/-!
# Protocol control blocks (in_pcb.c)

Every socket of a protocol has a control block with the two ends of its
connection. The blocks of a protocol hang in one list and in one hash table,
filed there under foreign address and the two ports; the local address is not
part of the key. A call is given a block by its address, so a block here is a
number, `pcb` is the memory and `live` says which of it is allocated.

What the interfaces and the routing table answer while a call runs is its
`IfNet`. Ports and addresses are in network order, which is the order of the
big-endian targets. The loop that looks for a local port has no end when all of
them are taken; a call that does not return has no state after it, and so runs
are over `Option`.
-/

namespace VxWorks.Netinet

open VxWorks.Lib

def inaddrAny : UInt32 := 0

def inaddrBroadcast : UInt32 := 0xffffffff

def inMulticast (i : UInt32) : Bool := i &&& 0xf0000000 == 0xe0000000

def afInet : UInt8 := 2

def ipportReserved : UInt16 := 1024

def ipportUserreserved : UInt16 := 5000

def soAcceptconn : UInt16 := 0x0002

def soReuseaddr : UInt16 := 0x0004

def soDontroute : UInt16 := 0x0010

def soReuseport : UInt16 := 0x0200

inductive Errno where
  | enobufs | einval | eopnotsupp | eafnosupport | eaddrinuse | eaddrnotavail
deriving DecidableEq, Repr

/-- What the control block's functions read of its socket: `so_options`, whether
the protocol has `PR_CONNREQUIRED`, whether `SS_NOFDREF` is set. -/
structure Socket where
  soOptions : UInt16
  connRequired : Bool
  nofdref : Bool
deriving DecidableEq, Repr

structure Inpcb where
  faddr : UInt32
  fport : UInt16
  laddr : UInt32
  lport : UInt16
  socket : Socket
deriving DecidableEq, Repr

/-- The mbuf `nam` and the `sockaddr_in` in it. -/
structure SockaddrIn where
  mLen : Nat
  family : UInt8
  port : UInt16
  addr : UInt32
deriving DecidableEq, Repr

structure IfNet where
  /-- `in_ifaddr`: the primary address, and its broadcast address when the
  interface has `IFF_BROADCAST` -/
  inIfaddr : Option (UInt32 × Option UInt32)
  ifaIfwithaddr : UInt32 → Bool
  /-- the address that goes with the route to a destination, unless the route
  leads to the loopback interface -/
  route : UInt32 → Option UInt32
  ifaIfwithdstaddr : UInt32 → Option UInt32
  ifaIfwithnet : UInt32 → Option UInt32
  /-- `imo_multicast_ifp` of the block's multicast options, as the address that
  interface has -/
  multicastIf : Option (Option UInt32)

structure InpcbInfo where
  pcb : Nat → Inpcb
  live : Nat → Bool
  /-- `listhead` -/
  list : List Nat
  /-- `hashbase` -/
  hash : UInt32 → List Nat
  hashmask : UInt32
  lastport : UInt16

/-- `INP_PCBHASH`. -/
def inpPcbhash (faddr : UInt32) (lport fport : UInt16) (mask : UInt32) : UInt32 :=
  (faddr ^^^ (faddr >>> 16) ^^^ lport.toUInt32 ^^^ fport.toUInt32) &&& mask

namespace InpcbInfo

def chainOf (s : InpcbInfo) (i : Nat) : UInt32 :=
  inpPcbhash (s.pcb i).faddr (s.pcb i).lport (s.pcb i).fport s.hashmask

/-- An assignment to fields of block `i`. -/
def set (s : InpcbInfo) (i : Nat) (f : Inpcb → Inpcb) : InpcbInfo :=
  { s with pcb := Function.update s.pcb i (f (s.pcb i)) }

end InpcbInfo

/-! ## Looking a block up -/

/-- The wildcard at the foreign end of a match, or `none` where the loop
continues with the next block. -/
def foreignWild (inp : Inpcb) (faddr : UInt32) (fport : UInt16) : Option Nat :=
  if inp.faddr ≠ inaddrAny then
    if faddr = inaddrAny then some 1
    else if inp.faddr ≠ faddr ∨ inp.fport ≠ fport then none
    else some 0
  else if faddr ≠ inaddrAny then some 1
  else some 0

/-- The one at the local end. -/
def hereWild (inp : Inpcb) (laddr : UInt32) : Option Nat :=
  if inp.laddr ≠ inaddrAny then
    if laddr = inaddrAny then some 1
    else if inp.laddr ≠ laddr then none
    else some 0
  else if laddr ≠ inaddrAny then some 1
  else some 0

/-- `wildcard` as one round of the loop in `in_pcblookup` counts it. -/
def wildcard (inp : Inpcb) (faddr : UInt32) (fport : UInt16) (laddr : UInt32) (lport : UInt16) :
    Option Nat :=
  if inp.lport ≠ lport then none
  else (foreignWild inp faddr fport).bind fun foreign =>
    (hereWild inp laddr).map fun here => foreign + here

/-- The loop of `in_pcblookup`, with `match` and `matchwild`. -/
def inPcblookupLoop (score : Nat → Option Nat) (wildOkay : Bool) :
    List Nat → Option Nat → Nat → Option Nat
  | [], found, _ => found
  | i :: l, found, matchwild =>
      match score i with
      | none => inPcblookupLoop score wildOkay l found matchwild
      | some w =>
          if w ≠ 0 ∧ wildOkay = false then inPcblookupLoop score wildOkay l found matchwild
          else if w < matchwild then
            if w = 0 then some i
            else inPcblookupLoop score wildOkay l (some i) w
          else inPcblookupLoop score wildOkay l found matchwild

def inPcblookup (s : InpcbInfo) (faddr : UInt32) (fport : UInt16) (laddr : UInt32)
    (lport : UInt16) (wildOkay : Bool) : Option Nat :=
  inPcblookupLoop (fun i => wildcard (s.pcb i) faddr fport laddr lport) wildOkay s.list none 3

/-- A block that was found comes to the head of its hash chain. -/
def moveToHead (s : InpcbInfo) (head : UInt32) (i : Nat) : InpcbInfo :=
  if (s.hash head).head? = some i then s
  else { s with hash := chainInsert (chainRemove s.hash i) head i }

def exactMatch (inp : Inpcb) (faddr : UInt32) (fport : UInt16) (laddr : UInt32)
    (lport : UInt16) : Bool :=
  inp.faddr = faddr ∧ inp.fport = fport ∧ inp.lport = lport ∧ inp.laddr = laddr

/-- The second loop of `in_pcblookuphash`, with `local_wild`. -/
def localWildLoop (pcb : Nat → Inpcb) (laddr : UInt32) (lport : UInt16) :
    List Nat → Option Nat → Option Nat
  | [], localWild => localWild
  | i :: l, localWild =>
      if (pcb i).faddr = inaddrAny ∧ (pcb i).fport = 0 ∧ (pcb i).lport = lport then
        if (pcb i).laddr = laddr then some i
        else if (pcb i).laddr = inaddrAny then localWildLoop pcb laddr lport l (some i)
        else localWildLoop pcb laddr lport l localWild
      else localWildLoop pcb laddr lport l localWild

def inPcblookuphash (s : InpcbInfo) (faddr : UInt32) (fport : UInt16) (laddr : UInt32)
    (lport : UInt16) (wild : Bool) : Option Nat × InpcbInfo :=
  let head := inpPcbhash faddr lport fport s.hashmask
  match (s.hash head).find? fun i => exactMatch (s.pcb i) faddr fport laddr lport with
  | some i => (some i, moveToHead s head i)
  | none =>
      if wild then
        let head := inpPcbhash inaddrAny lport 0 s.hashmask
        match localWildLoop s.pcb laddr lport (s.hash head) none with
        | some i => (some i, moveToHead s head i)
        | none => (none, s)
      else (none, s)

def inPcbrehash (s : InpcbInfo) (i : Nat) : InpcbInfo :=
  { s with hash := chainInsert (chainRemove s.hash i) (s.chainOf i) i }

/-! ## The life of a block -/

/-- `in_pcballoc` with the memory that was found for it. -/
def inPcballoc (s : InpcbInfo) (so : Socket) : Option Nat → Option Errno × InpcbInfo
  | none => (some .enobufs, s)
  | some i =>
      let s := { s with
        pcb := Function.update s.pcb i ⟨0, 0, 0, 0, so⟩
        live := Function.update s.live i true
        list := i :: s.list }
      (none, { s with hash := chainInsert s.hash (s.chainOf i) i })

/-- `INPLOOKUP_WILDCARD` unless the socket shares its address, or listens. -/
def bindWild (so : Socket) : Bool :=
  so.soOptions &&& (soReuseaddr ||| soReuseport) = 0 ∧
    (so.connRequired = false ∨ so.soOptions &&& soAcceptconn = 0)

/-- The options of which the other socket must have one, for both to have the
same address: for a multicast address `SO_REUSEADDR` is as good as
`SO_REUSEPORT`. -/
def reuseport (so : Socket) (addr : UInt32) : UInt16 :=
  if inMulticast addr ∧ so.soOptions &&& soReuseaddr ≠ 0 then soReuseaddr ||| soReuseport
  else so.soOptions &&& soReuseport

/-- One more port of the loop in `in_pcbbind`. -/
def nextPort (lastport : UInt16) : UInt16 :=
  if lastport + 1 < ipportReserved ∨ lastport + 1 > ipportUserreserved then ipportReserved
  else lastport + 1

/-- The loop itself. A budget of one round through the ports is as good as any:
the next round finds the same ones taken. -/
def pickPort (taken : UInt16 → Bool) : Nat → UInt16 → Option UInt16
  | 0, _ => none
  | fuel + 1, lastport =>
      if taken (nextPort lastport) then pickPort taken fuel (nextPort lastport)
      else some (nextPort lastport)

def portRound : Nat := 3977

/-- The end of `in_pcbbind` when no port was asked for. -/
def bindEphemeral (s : InpcbInfo) (i : Nat) (wild : Bool) : Option (Option Errno × InpcbInfo) :=
  (pickPort (fun p => (inPcblookup s inaddrAny 0 (s.pcb i).laddr p wild).isSome) portRound
    s.lastport).map fun p =>
      (none, inPcbrehash ({ s with lastport := p }.set i ({ · with lport := p })) i)

def inPcbbind (net : IfNet) (s : InpcbInfo) (i : Nat) (nam : Option SockaddrIn) :
    Option (Option Errno × InpcbInfo) :=
  let inp := s.pcb i
  let wild := bindWild inp.socket
  if net.inIfaddr.isNone then some (some .eaddrnotavail, s)
  else if inp.lport ≠ 0 ∨ inp.laddr ≠ inaddrAny then some (some .einval, s)
  else match nam with
    | none => bindEphemeral s i wild
    | some sin =>
        if sin.mLen ≠ 16 then some (some .einval, s)
        else if ¬ inMulticast sin.addr ∧ sin.addr ≠ inaddrAny ∧ ¬ net.ifaIfwithaddr sin.addr then
          some (some .eaddrnotavail, s)
        else if sin.port = 0 then bindEphemeral (s.set i ({ · with laddr := sin.addr })) i wild
        else if (inPcblookup s inaddrAny 0 sin.addr sin.port wild).any
            fun t => reuseport inp.socket sin.addr &&& (s.pcb t).socket.soOptions = 0 then
          some (some .eaddrinuse, s)
        else
          some (none, inPcbrehash (s.set i ({ · with laddr := sin.addr, lport := sin.port })) i)

/-- The destination a connection gets and the address it has here. Where the
block has a local address already, the source leaves `plocal_sin` alone and the
caller goes on with the one the block has. -/
def inPcbladdr (net : IfNet) (inp : Inpcb) (sin : SockaddrIn) : Except Errno (UInt32 × UInt32) :=
  let addr :=
    match net.inIfaddr with
    | none => sin.addr
    | some (primary, broadaddr) =>
        if sin.addr = inaddrAny then primary
        else if sin.addr = inaddrBroadcast then broadaddr.getD sin.addr
        else sin.addr
  let route := if inp.socket.soOptions &&& soDontroute = 0 then net.route addr else none
  let ia := route <|> net.ifaIfwithdstaddr addr <|> net.ifaIfwithnet addr <|>
    net.inIfaddr.map (·.1)
  if sin.mLen ≠ 16 then .error .einval
  else if sin.family ≠ afInet then .error .eafnosupport
  else if sin.port = 0 then .error .eaddrnotavail
  else if inp.laddr ≠ inaddrAny then .ok (addr, inp.laddr)
  else match ia with
    | none => .error .eaddrnotavail
    | some ia =>
        if inMulticast addr then
          match net.multicastIf with
          | none => .ok (addr, ia)
          | some none => .error .eaddrnotavail
          | some (some ia) => .ok (addr, ia)
        else .ok (addr, ia)

/-- The part of `in_pcbconnect` that gives the block its local end. What
`in_pcbbind` returns is not looked at. -/
def connectLocal (net : IfNet) (s : InpcbInfo) (i : Nat) (laddr : UInt32) : Option InpcbInfo :=
  if (s.pcb i).laddr = inaddrAny then
    let bound := if (s.pcb i).lport = 0 then (inPcbbind net s i none).map (·.2) else some s
    bound.map fun s => s.set i ({ · with laddr := laddr })
  else some s

def inPcbconnect (net : IfNet) (s : InpcbInfo) (i : Nat) (sin : SockaddrIn) :
    Option (Option Errno × InpcbInfo) :=
  match inPcbladdr net (s.pcb i) sin with
  | .error e => some (some e, s)
  | .ok (faddr, laddr) =>
      match inPcblookuphash s faddr sin.port laddr (s.pcb i).lport false with
      | (some _, s) => some (some .eaddrinuse, s)
      | (none, s) =>
          (connectLocal net s i laddr).map fun s =>
            (none, inPcbrehash (s.set i ({ · with faddr := faddr, fport := sin.port })) i)

def inPcbdetach (s : InpcbInfo) (i : Nat) : InpcbInfo :=
  { s with
    hash := chainRemove s.hash i
    list := s.list.erase i
    live := Function.update s.live i false }

def inPcbdisconnect (s : InpcbInfo) (i : Nat) : InpcbInfo :=
  let s := inPcbrehash (s.set i ({ · with faddr := inaddrAny, fport := 0 })) i
  if (s.pcb i).socket.nofdref then inPcbdetach s i else s

/-! ## Runs -/

/-- The four numbers of a packet, or of a connection. -/
structure FourTuple where
  faddr : UInt32
  fport : UInt16
  laddr : UInt32
  lport : UInt16
deriving DecidableEq, Repr

inductive PcbCall where
  | alloc (so : Socket) (mem : Option Nat)
  | bind (net : IfNet) (i : Nat) (nam : Option SockaddrIn)
  | connect (net : IfNet) (i : Nat) (sin : SockaddrIn)
  | disconnect (i : Nat)
  | detach (i : Nat)
  /-- the socket layer sets options and state -/
  | sockopt (i : Nat) (so : Socket)
  | lookup (q : FourTuple) (wild : Bool)
  | lookuphash (q : FourTuple) (wild : Bool)

/-- A call made on a table. The allocator never hands out a block in use, and
the others are only made on a block that is. -/
def pcbCall (s : InpcbInfo) : PcbCall → Option InpcbInfo
  | .alloc so mem =>
      if mem.any s.live then some s else some (inPcballoc s so mem).2
  | .bind net i nam => if s.live i then (inPcbbind net s i nam).map (·.2) else some s
  | .connect net i sin => if s.live i then (inPcbconnect net s i sin).map (·.2) else some s
  | .disconnect i => some (if s.live i then inPcbdisconnect s i else s)
  | .detach i => some (if s.live i then inPcbdetach s i else s)
  | .sockopt i so => some (if s.live i then s.set i ({ · with socket := so }) else s)
  | .lookup _ _ => some s
  | .lookuphash q wild => some (inPcblookuphash s q.faddr q.fport q.laddr q.lport wild).2

def pcbStep (s : Option InpcbInfo) (e : PcbCall) : Option InpcbInfo := s.bind (pcbCall · e)

/-- The table of a protocol before its first socket. -/
def pcbInit (hashmask : UInt32) : InpcbInfo where
  pcb := fun _ => ⟨0, 0, 0, 0, 0, false, false⟩
  live := fun _ => false
  list := []
  hash := fun _ => []
  hashmask := hashmask
  lastport := 0

end VxWorks.Netinet
