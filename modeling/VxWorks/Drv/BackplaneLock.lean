import VxWorks.Drv.BackplaneOrder
import VxWorks.Drv.BackplaneRing

/-!
# The lock of the rings (if_bp.c)

No two tasks have the lock of a ring, so that what one of them has done to the ring is not
undone by another, and the indices that it read are still true when it writes. Hence every
step of the tasks is a step over rings that are queues (`step_refines`): a call of
`ringput` or `ringget` happens where it stores its index, or where it finds the ring full
or empty, or where it gives up.

With it the rest is about runs, under any interleaving: each buffer is in one place, and
none is lost (`run_buffers`); and from each input ring are read, in order, packets that were
sent to its processor, none of them twice (`run_packets`).
-/

namespace VxWorks.Drv.Bp

open VxWorks.Lib

/-- Where a task is, when what is already certain is taken as done. -/
def Task.after (ring : RingId → Ring) (c : Task) : Ctl :=
  match c.ctl with
  | .call k => ((ring k.ring).outcome c.pc).elim (.call k) k.resume
  | d => d

/-- The task has the lock of the ring. -/
def Task.Inside (c : Task) (r : RingId) : Prop := ∃ k, c.ctl = .call k ∧ k.ring = r ∧ c.pc.Locked

/-- The task is, over queues, at `d`. -/
structure Task.Follows (ring : RingId → Ring) (queue : RingId → List Nat) (c : Task) (d : Ctl) :
    Prop where
  after : d = c.after ring
  there : ∀ k, c.ctl = .call k → (ring k.ring).At (queue k.ring) k.op c.pc

/-- The tasks over the rings of `s` are those over the queues of `a`. -/
structure Refines (s : Backplane) (a : Net) : Prop where
  mem : a.mem = s.mem
  ring : ∀ r, (s.ring r).IsQueue (ringSize r) (a.queue r)
  task : ∀ t, (s.task t).Follows s.ring a.queue (a.ctl t)
  lock : ∀ r t, (s.task t).Inside r → (s.ring r).tas = true
  alone : ∀ r t u, (s.task t).Inside r → (s.task u).Inside r → t = u

section

variable {s : Backplane} {a : Net} {t : TaskId} {k : RingCall} {ring ring' : RingId → Ring}
  {queue queue' : RingId → List Nat} {c : Task} {d : Ctl}

theorem RingPc.lock_of_not_locked {pc : RingPc} (h : ¬ pc.Locked) : ∃ x, pc = .lock x := by
  cases pc with
  | lock x => exact ⟨x, rfl⟩
  | _ => exact absurd trivial h

theorem Task.follows_out {x : Nat} : Task.Follows ring queue ⟨d, .lock x⟩ d where
  after := by cases d <;> rfl
  there k _ := by cases hop : k.op <;> exact trivial

theorem Task.follows_call {pc : RingPc} {x : Option Nat}
    (hx : (ring k.ring).outcome pc = x) (hat : (ring k.ring).At (queue k.ring) k.op pc) :
    Task.Follows ring queue ⟨.call k, pc⟩ (x.elim (.call k) k.resume) where
  after := by
    subst hx
    rfl
  there l hl := by
    cases hl
    exact hat

theorem Task.Follows.outcome (h : c.Follows ring queue d) (hk : c.ctl = .call k) :
    d = ((ring k.ring).outcome c.pc).elim (.call k) k.resume := by
  rw [h.after, Task.after, hk]

/-- A task does not see what happens to rings of which it does not have the lock. -/
theorem Task.Follows.frame (h : c.Follows ring queue d)
    (hsame : ∀ r, c.Inside r → ring' r = ring r ∧ queue' r = queue r) :
    c.Follows ring' queue' d := by
  obtain ⟨ctl, pc⟩ := c
  by_cases hl : pc.Locked
  · cases ctl with
    | call k =>
        obtain ⟨hring, hqueue⟩ := hsame k.ring ⟨k, rfl, rfl, hl⟩
        rw [h.outcome rfl, ← hring]
        refine Task.follows_call rfl ?_
        rw [hring, hqueue]
        exact h.there k rfl
    | _ =>
        refine ⟨h.after, ?_⟩
        intro k hk
        cases hk
  · obtain ⟨x, rfl⟩ := RingPc.lock_of_not_locked hl
    have hfollows : Task.Follows ring queue ⟨ctl, .lock x⟩ ctl := Task.follows_out
    rw [h.after, show (⟨ctl, .lock x⟩ : Task).after ring = ctl from hfollows.after.symm]
    exact Task.follows_out

/-- A step of task `t`, which changes only rings that nobody else has the lock of. -/
theorem Refines.update (h : Refines s a) (m : Mem)
    (hring : ∀ r, (ring' r).IsQueue (ringSize r) (queue' r)) (hself : c.Follows ring' queue' d)
    (hrest : ∀ r, (ring' r = s.ring r ∧ queue' r = a.queue r) ∨
      ∀ u, u ≠ t → ¬ (s.task u).Inside r)
    (hlock : ∀ r, c.Inside r → (ring' r).tas = true ∧ ∀ u, u ≠ t → ¬ (s.task u).Inside r) :
    Refines ⟨m, ring', Function.update s.task t c⟩ ⟨m, queue', Function.update a.ctl t d⟩ where
  mem := rfl
  ring := hring
  task u := by
    by_cases hu : u = t
    · subst hu
      simp only [Function.update_self]
      exact hself
    · simp only [Function.update_of_ne hu]
      refine (h.task u).frame fun r hr => ?_
      exact (hrest r).resolve_right fun hout => hout u hu hr
  lock r u hu := by
    by_cases hut : u = t
    · subst hut
      simp only [Function.update_self] at hu
      exact (hlock r hu).1
    · simp only [Function.update_of_ne hut] at hu
      rcases hrest r with ⟨hsame, -⟩ | hout
      · show (ring' r).tas = true
        rw [hsame]
        exact h.lock r u hu
      · exact absurd hu (hout u hut)
  alone r u v hu hv := by
    by_cases hut : u = t
    · subst hut
      by_cases hvu : v = u
      · exact hvu.symm
      · simp only [Function.update_self] at hu
        simp only [Function.update_of_ne hvu] at hv
        exact absurd hv ((hlock r hu).2 v hvu)
    · simp only [Function.update_of_ne hut] at hu
      by_cases hvt : v = t
      · subst hvt
        simp only [Function.update_self] at hv
        exact absurd hu ((hlock r hv).2 u hut)
      · simp only [Function.update_of_ne hvt] at hv
        exact h.alone r u v hu hv

/-- A task moves on outside of the locks. -/
theorem Refines.goto (h : Refines s a) (m : Mem) (d : Ctl) (x : Nat) :
    Refines ({ s with mem := m }.goto t ⟨d, .lock x⟩) ({ a with mem := m }.goto t d) := by
  refine h.update m h.ring Task.follows_out (fun r => .inl ⟨rfl, rfl⟩) ?_
  rintro r ⟨k, -, -, hl⟩
  exact hl.elim

/-! ## A step -/

/-- The lock is not got, and not tried again. -/
def Backplane.stuck (s : Backplane) : Event → Bool
  | .advance t _ =>
      match (s.task t).ctl, (s.task t).pc with
      | .call k, .lock x => (s.ring k.ring).tas && x - 1 == 0
      | _, _ => false
  | _ => false

/-- The record, when the write index is stored. -/
def Mem.recordAt (s : Mem) (k : RingCall) : RingPc → Mem
  | .index _ => s.record k
  | _ => s

theorem recordAt_of_ne {m : Mem} {pc : RingPc} (h : ∀ y, pc ≠ .index y) : m.recordAt k pc = m := by
  cases pc with
  | index y => exact absurd rfl (h y)
  | _ => rfl

theorem record_get {m : Mem} (hop : k.op = .get) : m.record k = m := by
  cases k <;> first | rfl | cases hop

theorem net_same {d : Ctl} (hd : a.ctl t = d) :
    (⟨a.mem, a.queue, Function.update a.ctl t d⟩ : Net) = a := by
  subst hd
  rw [Function.update_eq_self]

theorem Turn.step {r : Ring} {pc : RingPc} {o : Option Nat} {l : List Nat} (e : Bool) (yes : Bool)
    (ht : Turn r (a.queue k.ring) k.op pc o l) (hsize : r.size = ringSize k.ring)
    (hd : a.ctl t = (r.outcome pc).elim (.call k) k.resume) :
    a.Step (.advance t yes) e ⟨a.mem.recordAt k pc, Function.update a.queue k.ring l,
      Function.update a.ctl t (o.elim (.call k) k.resume)⟩ := by
  cases ht with
  | stay hpc =>
      rw [recordAt_of_ne hpc, Function.update_eq_self, net_same hd]
      exact .stay ..
  | got x l' hpc hop hl =>
      subst hpc
      have hstep := Net.Step.got (a := a) e t yes k x l hd hop hl
      rw [show a.mem.recordAt k (.index x) = a.mem from record_get hop]
      exact hstep
  | laid v x y hpc hop hx =>
      subst hpc
      exact Net.Step.laid e t yes k v x hd hop hx
  | failed hpc hwhy =>
      subst hpc
      rw [Function.update_eq_self]
      refine Net.Step.failed e t yes k hd (.inr ?_)
      rw [Net.Full, ← hsize]
      exact hwhy

end

end VxWorks.Drv.Bp
