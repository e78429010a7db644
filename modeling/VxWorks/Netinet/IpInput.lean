import Mathlib.Algebra.Ring.Int.Defs
import Mathlib.Algebra.Ring.Nat
import Mathlib.Data.List.Basic

/-!
# IP input and the reassembly queues (ip_input.c)

`ipintr` from its length checks on, `ipReAssemble` with the queues it keeps, and
the two routines that throw queues away. What stands between the length checks
and the address match (version, checksum, filter hook, options, addresses)
decides only whether a packet is for this host, and the packet brings that
answer along.

A fragment waits in its own mbuf chain, with its header in front. The header is
read where it lies, as a `struct ip` or a `struct ipasfrag`; the chain's lengths
are all that `m_adj` knows of it. So a packet here is its header, the number of
header octets the chain still counts, and the octets behind them.
-/

namespace VxWorks.Netinet

/-! ## Headers and chains -/

/-- What a queue is found by: `ip_id`, `ip_p`, `ip_src` and `ip_dst`. -/
structure IpKey where
  id : UInt16
  p : UInt8
  src : UInt32
  dst : UInt32
deriving DecidableEq, Repr

/-- `struct ip`, in host order; `len` and `off` are sixteen bits wide. -/
structure Ip where
  hl : Nat
  /-- the low bit of `ip_tos`, which is `ipf_mff` in a `struct ipasfrag` -/
  mff : Bool
  len : Nat
  off : Nat
  key : IpKey
  /-- the octets of the header from the twentieth on -/
  opts : List UInt8
deriving DecidableEq, Repr

def Ip.hlen (ip : Ip) : Nat := 4 * ip.hl

/-- An mbuf chain; the header octets are an `int` like every `m_len`. -/
structure Mbuf where
  hdr : Int
  data : List UInt8
deriving DecidableEq, Repr

/-- `m_pkthdr.len`. -/
def Mbuf.len (m : Mbuf) : Int := m.hdr + m.data.length

/-- `m_adj` of `-n`: off the tail, and never below nothing. -/
def mAdj (m : Mbuf) (n : Nat) : Mbuf :=
  if n ≤ m.data.length then { m with data := m.data.take (m.data.length - n) }
  else { hdr := max 0 (m.hdr - (n - m.data.length : Nat)), data := [] }

structure Packet where
  ip : Ip
  m : Mbuf
deriving DecidableEq, Repr

def ipDF : Nat := 0x4000

def ipMF : Nat := 0x2000

/-- `x & bit`, `x & ~bit` and `x | bit`. -/
def hasBit (x bit : Nat) : Bool := x / bit % 2 = 1

def clearBit (x bit : Nat) : Nat := if hasBit x bit then x - bit else x

def setBit (x bit : Nat) : Nat := if hasBit x bit then x else x + bit

/-- `a -= b` on a `u_short`. -/
def sub16 (a : Nat) (b : Int) : Nat := ((a - b) % 65536).toNat

/-- A `u_short` read as a `short`. -/
def toShort (n : Nat) : Int := if n < 32768 then n else n - 65536

/-- One past the last octet. -/
def Ip.stop (ip : Ip) : Nat := ip.off + ip.len

/-- `ip_len -= n` and `m_adj (m, -n)`. -/
def Packet.trim (p : Packet) (n : Nat) : Packet :=
  { ip := { p.ip with len := sub16 p.ip.len n }, m := mAdj p.m n }

/-! ## ipReAssemble -/

/-- The loop over complete overlaps, then the partial one. The offset the partial
one is measured from lacks the cast to `USHORT` that the others have. -/
def insertBefore (new : Packet) : List Packet → List Packet
  | [] => [new]
  | frag :: rest =>
      if frag.ip.stop ≤ new.ip.stop then insertBefore new rest
      else
        let len : Int := new.ip.stop - toShort frag.ip.off
        (if 0 < len then new.trim len.toNat else new) :: frag :: rest

/-- The loop over the fragments. `false` is `goto dropFrag`. -/
def insertFrag (new : Packet) : List Packet → Bool × List Packet
  | [] => (true, [])
  | frag :: rest =>
      if frag.ip.off < new.ip.off then
        let len : Int := frag.ip.stop - new.ip.off
        if 0 < len ∧ (new.ip.len : Int) ≤ len then (false, frag :: rest)
        else
          let frag' := if 0 < len then frag.trim len.toNat else frag
          match rest with
          | [] => (true, [frag', new])
          | _ :: _ =>
              let r := insertFrag new rest
              (r.1, frag' :: r.2)
      else (true, insertBefore new (frag :: rest))

/-- The length of the fragments when each starts where the one before ends. -/
def contiguous : Nat → List Packet → Option Nat
  | len, [] => some len
  | len, frag :: rest => if frag.ip.off ≠ len then none else contiguous (len + frag.ip.len) rest

/-- `m_cat` of the later fragments, each less its header. -/
def catFrags (m : Mbuf) (rest : List Packet) : Mbuf :=
  { hdr := m.hdr + (rest.map fun frag => frag.m.hdr - (frag.ip.hlen : Int)).sum,
    data := m.data ++ rest.flatMap fun frag => frag.m.data }

/-- From the label `ipChkReAssembly` on. -/
def ipChkReAssembly (frags : List Packet) : Option Packet :=
  match contiguous 0 frags, frags.getLast?, frags with
  | some len, some last, first :: rest =>
      if last.ip.mff then none
      else some { ip := { first.ip with len := len % 65536, mff := false },
                  m := catFrags first.m rest }
  | _, _, _ => none

/-- What becomes of the queue's fragments, `none` when there is no queue, and the
datagram if it is complete. `mbuf` is whether `mBufClGet` has a queue to give. -/
def ipReAssemble (mbuf : Bool) (new : Packet) (fp : Option (List Packet)) :
    Option (List Packet) × Option Packet :=
  let check (frags : List Packet) :=
    match ipChkReAssembly frags with
    | some d => (none, some d)
    | none => (some frags, none)
  match fp with
  | none => if mbuf then check [new] else (none, none)
  | some frags =>
      let r := insertFrag new frags
      if r.1 then check r.2 else (some r.2, none)

/-! ## The queues -/

structure Ipq where
  key : IpKey
  ttl : Nat
  frags : List Packet
deriving DecidableEq, Repr

/-- A call of `pr_input`, of the protocol that the header of the packet that came in
last names. -/
structure Delivery where
  /-- that header's -/
  key : IpKey
  pkt : Packet
  hlen : Nat
deriving DecidableEq, Repr

structure IpInput where
  ipfragttl : Nat
  ipq : List Ipq
  /-- what went up, in order -/
  out : List Delivery
deriving DecidableEq, Repr

/-- As `ip_init` leaves it. -/
def IpInput.init (ipfragttl : Nat) : IpInput := ⟨ipfragttl, [], []⟩

/-- The fragments a key has waiting. -/
def queued (ipq : List Ipq) (k : IpKey) : Option (List Packet) :=
  (ipq.find? fun q => q.key = k).map (·.frags)

/-- The queue of a key is given these fragments, or unlinked and freed. -/
def requeue (k : IpKey) (frags : Option (List Packet)) : List Ipq → List Ipq
  | [] => []
  | q :: qs =>
      if q.key = k then (frags.map fun l => { q with frags := l }).toList ++ qs
      else q :: requeue k frags qs

/-- `insque` of a new queue, a change to one that is there, or nothing. -/
def store (s : IpInput) (k : IpKey) (frags : Option (List Packet)) : IpInput :=
  if (queued s.ipq k).isSome then { s with ipq := requeue k frags s.ipq }
  else { s with ipq := (frags.map fun l => ⟨k, s.ipfragttl % 256, l⟩).toList ++ s.ipq }

def IpInput.deliver (s : IpInput) (ip : Ip) (pkt : Packet) : IpInput :=
  { s with out := s.out ++ [⟨ip.key, pkt, ip.hlen⟩] }

/-! ## ipintr -/

/-- The header of a fragment once `ipintr` has been over it. -/
def Packet.asFrag (p : Packet) : Packet :=
  { p with ip := { p.ip with len := sub16 p.ip.len p.ip.hlen, mff := hasBit p.ip.off ipMF,
                             off := p.ip.off * 8 % 65536 } }

/-- From the label `ours` on. -/
def ipintrOurs (mbuf : Bool) (s : IpInput) (p : Packet) : IpInput :=
  if clearBit p.ip.off ipDF ≠ 0 then
    let frag := p.asFrag
    if frag.ip.mff ∨ frag.ip.off ≠ 0 then
      let r := ipReAssemble mbuf frag (queued s.ipq p.ip.key)
      let s' := store s p.ip.key r.1
      match r.2 with
      | none => s'
      | some d => s'.deliver p.ip d
    else (store s p.ip.key none).deliver p.ip frag
  else s.deliver p.ip { p with ip := { p.ip with len := sub16 p.ip.len p.ip.hlen } }

/-- A packet on the input queue. Its fields have the widths they have on the
wire, and its chain is counted as header up to the header length. -/
structure Arrival extends Packet where
  /-- whether it passes the checks on anything but lengths, and is for this host -/
  ours : Bool
  /-- whether there is an mbuf for a new queue -/
  mbuf : Bool
  hl_lt : ip.hl < 16
  len_lt : ip.len < 65536
  off_lt : ip.off < 65536
  hdr_nonneg : 0 ≤ m.hdr
  hdr_le : m.hdr ≤ ip.hlen
  short : m.hdr < ip.hlen → m.data = []

/-- `m_pullup` fails on a chain shorter than the header. -/
def Packet.passes (p : Packet) : Bool :=
  20 ≤ p.m.len ∧ 20 ≤ p.ip.hlen ∧ p.ip.hlen ≤ p.m.len ∧ p.ip.hlen ≤ p.ip.len ∧ p.ip.len ≤ p.m.len

/-- The chain less what is behind the datagram. -/
def Packet.trimmed (p : Packet) : Packet := { p with m := mAdj p.m (p.m.len - p.ip.len).toNat }

def ipintr (s : IpInput) (a : Arrival) : IpInput :=
  if a.ours ∧ a.passes then ipintrOurs a.mbuf s a.trimmed else s

/-! ## Timers -/

def ipSlowtimo (s : IpInput) : IpInput :=
  { s with ipq := s.ipq.filterMap fun q =>
      let ttl := (q.ttl + 255) % 256
      if ttl = 0 then none else some { q with ttl := ttl } }

def ipDrain (s : IpInput) : IpInput := { s with ipq := [] }

inductive IpEvent where
  | intr (a : Arrival)
  | slowtimo
  | drain

def ipStep (s : IpInput) : IpEvent → IpInput
  | .intr a => ipintr s a
  | .slowtimo => ipSlowtimo s
  | .drain => ipDrain s

end VxWorks.Netinet
