import Mathlib.Data.List.Basic
import Mathlib.Logic.Function.Basic
import VxWorks.Lib.Buffer
import VxWorks.Lib.Run

/-!
# The backplane network (if_bp.c)

Processors on one backplane send each other packets through memory they share. The memory
holds a ring of free buffers, an input ring for each processor, and the buffers. A sender
takes a buffer off the free ring, copies its packet into it and puts the buffer on the
input ring of the processor that the packet is for; that one takes the buffer off, reads
the packet and puts the buffer back on the free ring. A packet for everybody is copied
into one more buffer for each processor that is there.

The rings hold the offsets of the buffers, and an offset of zero is no buffer. `ringput`
and `ringget` lock their ring with a test-and-set, which is tried `DELAY_COUNT` times.
What is a task here is any task of any processor. Its step is one access to what is
shared, so that a buffer is filled and read octet by octet, and which task is next is
nobody's choice: a run is any list of events. The test-and-set is that of the hardware,
and the octets of the index fields are in the order of the processor.

Whether a hook takes a packet and whether there are mbufs for one is answered anew each
time, and a hook writes into no buffer. Interrupts are left out, all statistics but what
became of each packet that was read, and the heartbeat: a task may begin to read an input
ring at any time.
-/

namespace VxWorks.Drv.Bp

open VxWorks.Lib

/-- `MAXCPU`. -/
def maxcpu : Nat := 32

/-- `MINPKTSIZE`. -/
def minpktsize : Nat := 60

/-- `BP_BUFSIZ`: an MTU of 2176, and an Ethernet header. -/
def bpBufsiz : Nat := 2192

/-- `DELAY_COUNT`. -/
def delayCount : Nat := 5000

/-- The free ring, and the input ring of each processor. -/
inductive RingId where
  | free
  | input (cpu : Nat)
deriving DecidableEq, Repr

/-- `struct ring`. -/
structure Ring where
  rdidx : Nat
  wrtidx : Nat
  size : Nat
  tas : Bool
  slot : Nat → Nat

/-- `BUF_NODE`, with the buffer at its `b_addr`. -/
structure BufNode where
  len : Nat
  data : Buf

/-- The octets of a packet, which `if_mtu` keeps no longer than a buffer. -/
structure Packet where
  octets : List UInt8
  fits : octets.length ≤ bpBufsiz

/-! ## The rings -/

inductive RingOp where
  | get
  | put (v : Nat)
deriving DecidableEq, Repr

/-- Where a task is in `ringput` or `ringget`, with its `x`. -/
inductive RingPc where
  | lock (x : Nat)
  | test
  | store (x : Nat)
  | index (x : Nat)
  | count (x : Nat)
  | unlock (x : Nat)
deriving DecidableEq, Repr

/-- `(index + 1) & (size - 1)`. -/
def Ring.next (r : Ring) (i : Nat) : Nat := (i + 1) &&& (r.size - 1)

/-- One access of `ringput` or `ringget`, which goes on or returns. -/
def ringStep (r : Ring) : RingOp → RingPc → Ring × (RingPc ⊕ Nat)
  | _, .lock x =>
      if r.tas = false then ({ r with tas := true }, .inl .test)
      else if x - 1 = 0 then (r, .inr 0)
      else (r, .inl (.lock (x - 1)))
  | .put _, .test =>
      let x := r.next r.wrtidx
      if x ≠ r.rdidx then (r, .inl (.store x)) else (r, .inl (.count x))
  | .put v, .store x => ({ r with slot := Function.update r.slot r.wrtidx v }, .inl (.index x))
  | .put _, .index x => ({ r with wrtidx := x }, .inl (.count x))
  | .put _, .count x =>
      -- `x -= r_rdidx`, and the size if that is negative
      (r, .inl (.unlock (if x < r.rdidx then x + r.size - r.rdidx else x - r.rdidx)))
  | .get, .test => if r.rdidx ≠ r.wrtidx then (r, .inl (.store 0)) else (r, .inl (.unlock 0))
  | .get, .store _ => (r, .inl (.index (r.slot r.rdidx)))
  | .get, .index x => ({ r with rdidx := r.next r.rdidx }, .inl (.unlock x))
  | .get, .count x => (r, .inl (.unlock x))
  | _, .unlock x => ({ r with tas := false }, .inr x)

/-! ## The tasks -/

/-- The calls of `ringput` and `ringget`, with what their caller still needs: the buffer
`n` it holds, the number `c` of its call of `bpPut`, the processor `p`. -/
inductive RingCall where
  | putGet (m : Packet) (c : Nat)
  | drop (n : Nat)
  | xmitPut (n c p : Nat)
  | bcastGet (n c p : Nat)
  | bcastPut (n c p n0 : Nat)
  | bcastBack (n c p n0 : Nat)
  | readGet (p : Nat)
  | readPut (p n : Nat)
  | resetGet (p : Nat)
  | resetPut (p n : Nat)

def RingCall.ring : RingCall → RingId
  | .xmitPut _ _ p | .bcastPut _ _ p _ | .readGet p | .resetGet p => .input p
  | .putGet _ _ | .drop _ | .bcastGet _ _ _ | .bcastBack _ _ _ _ | .readPut _ _
  | .resetPut _ _ => .free

def RingCall.op : RingCall → RingOp
  | .putGet _ _ | .bcastGet _ _ _ | .readGet _ | .resetGet _ => .get
  | .drop n | .xmitPut n _ _ | .bcastPut _ _ _ n | .bcastBack _ _ _ n | .readPut _ n
  | .resetPut _ n => .put n

/-- Where a task is: in no call, in `ringput` or `ringget`, or before another access in
`bpPut`, `bpXmit` or `bpRead`. -/
inductive Ctl where
  | idle
  | call (k : RingCall)
  | copyIn (n : Nat) (m : Packet) (c j : Nat)
  | hook (n c : Nat)
  | dest (n c : Nat)
  | bcast (n c p : Nat)
  | copyLen (n c p n0 : Nat)
  | copyNode (n c p n0 len j : Nat)
  | readLen (p n : Nat)
  | inHook (p n len : Nat)
  | mbufs (p n len : Nat)
  | read (p n len : Nat) (acc : List UInt8)

/-- What is done with the result of `ringput` or `ringget`. -/
def RingCall.resume : RingCall → Nat → Ctl
  | .putGet m c, x => if x = 0 then .idle else .copyIn x m c 0
  | .drop _, _ => .idle
  | .xmitPut n _ _, x => if x = 0 then .call (.drop n) else .idle
  | .bcastGet n c p, x => if x = 0 then .call (.drop n) else .copyLen n c p x
  | .bcastPut n c p n0, x => if x = 0 then .call (.bcastBack n c p n0) else .bcast n c p
  | .bcastBack n c p _, _ => .bcast n c p
  | .readGet p, x => if x = 0 then .idle else .readLen p x
  | .readPut p _, _ => .call (.readGet p)
  | .resetGet p, x => if x = 0 then .idle else .call (.resetPut p x)
  | .resetPut p _, _ => .call (.resetGet p)

/-- A packet on an input ring: the call of `bpPut` it comes from, and its octets. -/
structure Queued where
  call : Nat
  octets : List UInt8
deriving DecidableEq, Repr

/-- What `bpRead` does with a packet: the input hook has it, there are no mbufs for it and
`if_ierrors` counts it, or `do_protocol` gets it. -/
inductive Fate where
  | hooked
  | dropped
  | passed
deriving DecidableEq, Repr

/-- The buffers and the `cd_active`; and on record the packets of the calls of `bpPut`, the
packets that were put on each input ring, and those that `bpRead` has read, with what became
of them. -/
structure Mem where
  node : Nat → BufNode
  active : Nat → Bool
  sent : List Packet
  queued : Nat → List Queued
  read : Nat → List (Fate × List UInt8)

/-- What `do_protocol` has got. -/
def Mem.delivered (s : Mem) (p : Nat) : List (List UInt8) :=
  ((s.read p).filter fun r => r.1 = .passed).map Prod.snd

def BufNode.octets (b : BufNode) : List UInt8 := b.data.take b.len

def Mem.setOctet (s : Mem) (n j : Nat) (v : UInt8) : Mem :=
  { s with node := Function.update s.node n ⟨(s.node n).len, (s.node n).data.set8 j v⟩ }

def Mem.setLen (s : Mem) (n len : Nat) : Mem :=
  { s with node := Function.update s.node n ⟨len, (s.node n).data⟩ }

/-- A packet has been read. -/
def Mem.leave (s : Mem) (p : Nat) (f : Fate) (l : List UInt8) : Mem :=
  { s with read := Function.update s.read p (s.read p ++ [(f, l)]) }

/-- One access outside of the rings; `yes` is the answer of a hook that takes the packet, and
of `copy_to_mbufs` when there are mbufs. -/
def Mem.access (s : Mem) (yes : Bool) : Ctl → Mem × Ctl
  | .idle => (s, .idle)
  | .call k => (s, .call k)
  | .copyIn n m c j =>
      if j < m.octets.length then (s.setOctet n j (m.octets.getD j 0), .copyIn n m c (j + 1))
      else (s.setLen n (max minpktsize m.octets.length), .hook n c)
  | .hook n c => if yes then (s, .idle) else (s, .dest n c)
  | .dest n c =>
      let p := ((s.node n).data 5).toNat
      if maxcpu ≤ p then (s, .bcast n c maxcpu)
      else if s.active p then (s, .call (.xmitPut n c p))
      else (s, .call (.drop n))
  | .bcast n _ 0 => (s, .call (.drop n))
  | .bcast n c (p + 1) => if s.active p then (s, .call (.bcastGet n c p)) else (s, .bcast n c p)
  | .copyLen n c p n0 => (s.setLen n0 (s.node n).len, .copyNode n c p n0 (s.node n).len 0)
  | .copyNode n c p n0 len j =>
      if j < len then (s.setOctet n0 j ((s.node n).data j), .copyNode n c p n0 len (j + 1))
      else (s, .call (.bcastPut n c p n0))
  | .readLen p n => (s, .inHook p n (s.node n).len)
  | .inHook p n len =>
      if yes then (s.leave p .hooked (s.node n).octets, .call (.readPut p n))
      else (s, .mbufs p n len)
  | .mbufs p n len =>
      if yes then (s, .read p n len [])
      else (s.leave p .dropped (s.node n).octets, .call (.readPut p n))
  | .read p n len acc =>
      if acc.length < len then (s, .read p n len (acc ++ [(s.node n).data acc.length]))
      else (s.leave p .passed acc, .call (.readPut p n))

def Mem.enter (s : Mem) (p : Nat) (e : Queued) : Mem :=
  { s with queued := Function.update s.queued p (s.queued p ++ [e]) }

/-- The record of a buffer that is now on an input ring. -/
def Mem.record (s : Mem) : RingCall → Mem
  | .xmitPut n c p | .bcastPut _ c p n => s.enter p ⟨c, (s.node n).octets⟩
  | _ => s

/-! ## The system -/

/-- The tasks: `tNetTask` of each processor, which alone reads its input ring, and others. -/
inductive TaskId where
  | net (cpu : Nat)
  | other (i : Nat)
deriving DecidableEq, Repr

structure Task where
  ctl : Ctl
  pc : RingPc

structure Backplane where
  mem : Mem
  ring : RingId → Ring
  task : TaskId → Task

/-- Before an access, or at the beginning of `ringput` or `ringget`. -/
def Task.at (c : Ctl) : Task := ⟨c, .lock delayCount⟩

def Backplane.goto (s : Backplane) (t : TaskId) (c : Task) : Backplane :=
  { s with task := Function.update s.task t c }

/-- A step of a task that is in `ringput` or `ringget`. The buffer is on the ring when the
write index is stored. -/
def Backplane.inRing (s : Backplane) (t : TaskId) (k : RingCall) : Backplane :=
  match ringStep (s.ring k.ring) k.op (s.task t).pc with
  | (ring, .inr x) => { s with ring := Function.update s.ring k.ring ring }.goto t (.at (k.resume x))
  | (ring, .inl pc) =>
      let s := { s with ring := Function.update s.ring k.ring ring }
      match (s.task t).pc with
      | .index _ => { s with mem := s.mem.record k }.goto t ⟨.call k, pc⟩
      | _ => s.goto t ⟨.call k, pc⟩

inductive Event where
  /-- `bpPut` is called -/
  | put (t : TaskId) (m : Packet)
  /-- `bpReadAll` is called -/
  | readAll (cpu : Nat)
  /-- `bpReset` is called -/
  | reset (t : TaskId) (cpu : Nat)
  /-- the end of `bpIfInit` -/
  | attach (cpu : Nat)
  | advance (t : TaskId) (yes : Bool)

/-- A task makes a call only when it is in none. -/
def Backplane.begin (s : Backplane) (t : TaskId) (k : RingCall) (mem : Mem) : Backplane :=
  match (s.task t).ctl with
  | .idle => { s with mem := mem }.goto t (.at (.call k))
  | _ => s

def Backplane.step (s : Backplane) : Event → Backplane
  | .put t m => s.begin t (.putGet m s.mem.sent.length) { s.mem with sent := s.mem.sent ++ [m] }
  | .readAll cpu => s.begin (.net cpu) (.readGet cpu) s.mem
  | .reset t cpu =>
      s.begin t (.resetGet cpu)
        { s.mem with active := Function.update s.mem.active cpu false }
  | .attach cpu =>
      { s with mem := { s.mem with active := Function.update s.mem.active cpu true } }
  | .advance t yes =>
      match (s.task t).ctl with
      | .call k => s.inRing t k
      | c => { s with mem := (s.mem.access yes c).1 }.goto t (.at (s.mem.access yes c).2)

/-! ## The beginning -/

end VxWorks.Drv.Bp
