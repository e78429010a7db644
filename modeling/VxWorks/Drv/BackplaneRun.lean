import VxWorks.Drv.BackplaneLock

/-!
# Runs of the backplane network (if_bp.c)

A run begins behind `bpInit`, which puts the buffers on the free ring, and the input rings
are empty. The tasks take their steps in any order.
-/

namespace VxWorks.Drv.Bp

open VxWorks.Lib

def Backplane.held (s : Backplane) : Place → List Nat
  | .ring r => (s.ring r).nodes
  | .task t => ((s.task t).after s.ring).holds

/-- A step in which the output hook takes nothing and no lock is given up. -/
def Backplane.Keeps (s : Backplane) (e : Event) : Prop :=
  s.stuck e = false ∧ ∀ t, e = .advance t true → ∀ n c, (s.task t).ctl ≠ .hook n c

/-- The record of input ring `p` is what was taken off the ring, and what is on it. What was
taken off was read in that order, and if `whole`, all of it but for one packet; and of that
`do_protocol` gets what no hook takes and there are mbufs for. -/
def Backplane.Reads (s : Backplane) (whole : Prop) (p : Nat) : Prop :=
  ∃ gone, (s.mem.queued p).map Queued.octets =
      gone ++ (s.ring (.input p)).nodes.map (fun n => (s.mem.node n).octets) ∧
    ((s.mem.read p).map Prod.snd).Sublist gone ∧
    (whole → (s.mem.read p).map Prod.snd <+: gone ∧ gone.length ≤ (s.mem.read p).length + 1) ∧
    (s.mem.delivered p).Sublist gone ∧
    (whole → (∀ r ∈ s.mem.read p, r.1 = .passed) →
      s.mem.delivered p <+: gone ∧ gone.length ≤ (s.mem.delivered p).length + 1)

/-- What input ring `p` took: the packets of different calls of `bpPut`, whole, and for this
processor or for everybody. -/
def Backplane.Takes (s : Backplane) (p : Nat) : Prop :=
  ((s.mem.queued p).map Queued.call).Nodup ∧
    ∀ e ∈ s.mem.queued p, ∃ m, s.mem.sent[e.call]? = some m ∧ Arrives m e.octets ∧
      (dstCpu e.octets = p ∨ maxcpu ≤ dstCpu e.octets)

section

variable {s : Backplane} {a : Net} {pool : List Nat}

theorem Refines.nodes (h : Refines s a) (r : RingId) : (s.ring r).nodes = a.queue r :=
  (h.ring r).nodes_eq

theorem Refines.held (h : Refines s a) : s.held = a.held := by
  funext p
  cases p with
  | ring r => exact h.nodes r
  | task t => rw [Backplane.held, ← (h.task t).after, Net.held]

theorem resume_ne_hook (k : RingCall) (x n c : Nat) : k.resume x ≠ .hook n c := by
  cases k with
  | putGet | xmitPut | bcastGet | bcastPut | readGet | resetGet =>
      rw [RingCall.resume]
      split <;> exact Ctl.noConfusion
  | drop | bcastBack | readPut | resetPut => exact Ctl.noConfusion

theorem Refines.keeps (h : Refines s a) {e : Event} (he : s.Keeps e) : a.Keeps e (s.stuck e) := by
  refine ⟨he.1, fun t ht n c hc => he.2 t ht n c ?_⟩
  cases hctl : (s.task t).ctl with
  | call k =>
      have hout := (h.task t).outcome hctl
      rw [hc] at hout
      cases hx : (s.ring k.ring).outcome (s.task t).pc with
      | none =>
          rw [hx] at hout
          cases hout
      | some x =>
          rw [hx] at hout
          exact absurd hout.symm (resume_ne_hook k x n c)
  | _ =>
      have hafter := (h.task t).after
      rw [hc, Task.after, hctl] at hafter
      exact hafter.symm

variable {node : Nat → BufNode} {pMem npackets : Nat}

end

end VxWorks.Drv.Bp
