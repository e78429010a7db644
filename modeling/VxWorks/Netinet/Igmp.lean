import Mathlib.Data.List.Basic
import VxWorks.Lib.Chains

/-!
# Multicast groups and their report timers (in.c, igmp.c)

The groups the host belongs to are kept in one hash table for all interfaces. A
search brings what it found to the head of its chain, and so does everything
that searches, sending a packet to the group among it.

IGMP has a timer in every entry. A query starts the timers of an interface, a
report heard from another host stops the group's timer, and `igmp_fasttimo`
counts them down and sends the reports. Sending goes through `ip_output`, of
which the part a report takes is here.
-/

namespace VxWorks.Netinet

open VxWorks.Lib

structure InMulti where
  addr : UInt32
  /-- the address of the `ifnet` -/
  ifp : UInt32
  refcount : UInt32
  timer : Nat
  /-- the blocks in the chain `pInPcbMblk` -/
  pcbs : List Nat
deriving DecidableEq, Repr

/-- A membership report on its way out. -/
structure Report where
  group : UInt32
  ifp : UInt32
deriving DecidableEq, Repr

structure Mcast where
  /-- memory, and which of it is allocated to entries -/
  inm : Nat → InMulti
  live : Nat → Bool
  /-- `mCastHashInfo.hashBase` -/
  hash : Nat → List Nat
  /-- the address of `loif` -/
  loif : UInt32
  /-- `igmp_timers_are_running` -/
  running : Bool
  /-- the reports handed to the interfaces -/
  out : List Report

/-- What a call meets: whether there is a buffer for an entry's report, and the
interfaces' `IFF_MULTICAST` and `if_mtu`. -/
structure McastNet where
  mbuf : Nat → Bool
  multicast : UInt32 → Bool
  mtu : UInt32 → Nat

def Mcast.setTimer (s : Mcast) (i : Nat) (n : Nat) : Mcast :=
  { s with inm := Function.update s.inm i { s.inm i with timer := n } }

/-! ## The hash table -/

/-- `mCastHashInfo.hashMask`, of a table of `mCastHashTblSize` chains. -/
def hashMask : UInt32 := 63

/-- `MCAST_HASH` of an `s_addr`. -/
def mcastHash (addr ifp : UInt32) : Nat := ((addr ^^^ (addr >>> 16) ^^^ ifp) &&& hashMask).toNat

/-- `MCAST_HASH` of an `int`, where the shift brings in the sign. -/
def mcastHashInt (addr ifp : UInt32) : Nat :=
  ((addr ^^^ (addr.toInt32 >>> 16).toUInt32 ^^^ ifp) &&& hashMask).toNat

def mcastHashTblInsert (s : Mcast) (i : Nat) : Mcast :=
  { s with hash := chainInsert s.hash (mcastHash (s.inm i).addr (s.inm i).ifp) i }

def mcastHashTblDelete (s : Mcast) (i : Nat) : Mcast := { s with hash := chainRemove s.hash i }

def mcastHashTblLookup (s : Mcast) (mcastAddr pIf : UInt32) : Option Nat × Mcast :=
  let head := mcastHashInt mcastAddr pIf
  match (s.hash head).find? fun i => (s.inm i).addr = mcastAddr ∧ (s.inm i).ifp = pIf with
  | none => (none, s)
  | some i =>
      (some i,
        if (s.hash head).head? = some i then s
        else { s with hash := chainInsert (chainRemove s.hash i) head i })

/-! ## IGMP -/

/-- `INADDR_ALLHOSTS_GROUP`. -/
def allHostsGroup : UInt32 := 0xe0000001

/-- The report is 28 octets with its IP header, has no options and a time to
live of 1. `ip_output` gives up before it has looked the group up where the
interface knows no multicast, and after it where the report is for the loopback
interface or too long to go out. -/
def igmpSendreport (net : McastNet) (s : Mcast) (i : Nat) : Mcast :=
  let ifp := (s.inm i).ifp
  if net.mbuf i ∧ net.multicast ifp then
    let s' := (mcastHashTblLookup s (s.inm i).addr ifp).2
    if ifp = s.loif ∨ net.mtu ifp < 28 then s'
    else { s' with out := s'.out ++ [⟨(s.inm i).addr, ifp⟩] }
  else s

/-- `IGMP_RANDOM_DELAY`, given the random number in its range. -/
def igmpRandomDelay (random : Nat) : Nat := random + 1

def igmpJoingroup (net : McastNet) (random : Nat) (s : Mcast) (i : Nat) : Mcast :=
  if (s.inm i).addr = allHostsGroup ∨ (s.inm i).ifp = s.loif then s.setTimer i 0
  else { (igmpSendreport net s i).setTimer i (igmpRandomDelay random) with running := true }

/-- What `igmp_input` reads of a message: the lengths and the checksum, the type,
the IP destination and the interface it came in on. -/
structure IgmpMsg where
  len : Nat
  /-- whether `m_pullup` succeeded -/
  pulled : Bool
  sumOk : Bool
  type : UInt8
  dst : UInt32
  group : UInt32
  rcvif : UInt32

/-- The loop of a query over one chain. -/
def queryLoop (random : Nat → Nat) (ifp : UInt32) : List Nat → Mcast → Mcast
  | [], s => s
  | i :: l, s =>
      if (s.inm i).ifp = ifp ∧ (s.inm i).timer = 0 ∧ (s.inm i).addr ≠ allHostsGroup then
        queryLoop random ifp l
          { s.setTimer i (igmpRandomDelay (random i)) with running := true }
      else queryLoop random ifp l s

/-- The chains in the order of the table. -/
def buckets : List Nat := List.range (hashMask.toNat + 1)

def igmpInput (random : Nat → Nat) (s : Mcast) (m : IgmpMsg) : Mcast :=
  if m.len < 8 ∨ ¬ m.pulled ∨ ¬ m.sumOk then s
  else if m.type = 0x11 then
    if m.rcvif = s.loif ∨ m.dst ≠ allHostsGroup then s
    else buckets.foldl (fun s b => queryLoop random m.rcvif (s.hash b) s) s
  else if m.type = 0x12 then
    if m.rcvif = s.loif ∨ m.group &&& 0xf0000000 ≠ 0xe0000000 ∨ m.group ≠ m.dst then s
    else match mcastHashTblLookup s m.group m.rcvif with
      | (some i, s) => s.setTimer i 0
      | (none, s) => s
  else s

/-- The body of the loop in `igmp_fasttimo`. -/
def fasttimoBody (net : McastNet) (s : Mcast) (i : Nat) : Mcast :=
  if (s.inm i).timer = 0 then s
  else
    let s := s.setTimer i ((s.inm i).timer - 1)
    if (s.inm i).timer = 0 then igmpSendreport net s i else { s with running := true }

/-- The loop, standing on the first of the entries it is given. It goes on to
the entry that is behind it when the body is done. -/
def fasttimoLoop (net : McastNet) (b : Nat) : Nat → List Nat → Mcast → Mcast
  | 0, _, s => s
  | _ + 1, [], s => s
  | fuel + 1, i :: _, s =>
      fasttimoLoop net b fuel (after ((fasttimoBody net s i).hash b) i) (fasttimoBody net s i)

/-- One chain. An entry starts the loop over at most once, so the fuel is never
used up. -/
def fasttimoChain (net : McastNet) (s : Mcast) (b : Nat) : Mcast :=
  fasttimoLoop net b (((s.hash b).length + 1) * ((s.hash b).length + 1)) (s.hash b) s

def igmpFasttimo (net : McastNet) (s : Mcast) : Mcast :=
  if s.running then buckets.foldl (fasttimoChain net) { s with running := false } else s

/-! ## Runs -/

inductive IgmpEvent where
  /-- a socket or an interface joins; memory `i` is there if the group is new -/
  | join (net : McastNet) (random : Nat) (i : Nat) (addr ifp : UInt32)
  | leave (i : Nat)
  /-- a search for delivery or output -/
  | lookup (addr ifp : UInt32)
  | input (random : Nat → Nat) (m : IgmpMsg)
  | tick (net : McastNet)

/-- A group that is there already is only searched for; a new one is put into
the table and announced. -/
def joinGroup (net : McastNet) (random : Nat) (s : Mcast) (i : Nat) (addr ifp : UInt32) : Mcast :=
  match mcastHashTblLookup s addr ifp with
  | (some _, s) => s
  | (none, s) =>
      if s.live i then s
      else
        let s := { s with
          inm := Function.update s.inm i ⟨addr, ifp, 1, 0, []⟩
          live := Function.update s.live i true }
        igmpJoingroup net random (mcastHashTblInsert s i) i

def igmpStep (s : Mcast) : IgmpEvent → Mcast
  | .join net random i addr ifp => joinGroup net random s i addr ifp
  | .leave i =>
      if s.live i then { mcastHashTblDelete s i with live := Function.update s.live i false } else s
  | .lookup addr ifp => (mcastHashTblLookup s addr ifp).2
  | .input random m => igmpInput random s m
  | .tick net => igmpFasttimo net s

end VxWorks.Netinet
