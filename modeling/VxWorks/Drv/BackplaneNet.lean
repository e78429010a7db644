import VxWorks.Drv.Backplane
import VxWorks.Lib.Exclusive

/-!
# The backplane network with rings that are queues (if_bp.c)

The same tasks over rings without indices and locks: `ringput` and `ringget` are one step,
which does what it is called for or fails. It may fail for a reason, as the ring is full
or empty, and it may fail for none, which is what happens when the lock is not got in
time.

A buffer is on one ring or with one task, and nowhere twice (`step_exclusive`). It gets
lost when the output hook takes its packet, and when a lock is not got that is needed to
put it back. The free ring being full is no way to lose one: it has room for all buffers
that ever were on it (`step_kept`).
-/

namespace VxWorks.Drv.Bp

open VxWorks.Lib

structure Net where
  mem : Mem
  queue : RingId → List Nat
  ctl : TaskId → Ctl

def Net.goto (a : Net) (t : TaskId) (c : Ctl) : Net :=
  { a with ctl := Function.update a.ctl t c }

def ringSize : RingId → Nat
  | .free => 256
  | .input _ => 32

/-- One slot is never used. -/
def Net.Full (a : Net) (r : RingId) : Prop := (a.queue r).length + 1 = ringSize r

/-- The calls of `bpPut`, `bpReadAll` and `bpReset`: the task, the first ring it goes to, and
what it writes before. -/
inductive Begins (s : Mem) : Event → TaskId → RingCall → Mem → Prop where
  | put (t m) : Begins s (.put t m) t (.putGet m s.sent.length) { s with sent := s.sent ++ [m] }
  | readAll (cpu) : Begins s (.readAll cpu) (.net cpu) (.readGet cpu) s
  | reset (t cpu) : Begins s (.reset t cpu) t (.resetGet cpu)
      { s with active := Function.update s.active cpu false }

/-- A step; `stuck` says that a lock was not got in time. -/
inductive Net.Step (a : Net) : Event → Bool → Net → Prop where
  | stay (e stuck) : a.Step e stuck a
  | begin (e stuck t k s) (hidle : a.ctl t = .idle) (hb : Begins a.mem e t k s) :
      a.Step e stuck ({ a with mem := s }.goto t (.call k))
  | attach (stuck cpu) : a.Step (.attach cpu) stuck
      { a with mem := { a.mem with active := Function.update a.mem.active cpu true } }
  | access (stuck t yes) (hc : ∀ k, a.ctl t ≠ .call k) : a.Step (.advance t yes) stuck
      ({ a with mem := (a.mem.access yes (a.ctl t)).1 }.goto t (a.mem.access yes (a.ctl t)).2)
  | got (stuck t yes k x l) (hk : a.ctl t = .call k) (hop : k.op = .get)
      (hq : a.queue k.ring = x :: l) : a.Step (.advance t yes) stuck
      ({ a with queue := Function.update a.queue k.ring l }.goto t (k.resume x))
  | laid (stuck t yes k v x) (hk : a.ctl t = .call k) (hop : k.op = .put v) (hx : x ≠ 0) :
      a.Step (.advance t yes) stuck
      ({ a with
        mem := a.mem.record k
        queue := Function.update a.queue k.ring (a.queue k.ring ++ [v]) }.goto t (k.resume x))
  | failed (stuck t yes k) (hk : a.ctl t = .call k)
      (hwhy : stuck = true ∨ (k.op = .get ∧ a.queue k.ring = []) ∨
        (k.op ≠ .get ∧ a.Full k.ring)) :
      a.Step (.advance t yes) stuck (a.goto t (k.resume 0))

/-! ## Who has which buffers -/

def RingCall.holds : RingCall → List Nat
  | .putGet _ _ | .readGet _ | .resetGet _ => []
  | .drop n | .xmitPut n _ _ | .bcastGet n _ _ | .readPut _ n | .resetPut _ n => [n]
  | .bcastPut n _ _ n0 | .bcastBack n _ _ n0 => [n, n0]

def Ctl.holds : Ctl → List Nat
  | .idle => []
  | .call k => k.holds
  | .copyIn n _ _ _ | .hook n _ | .dest n _ | .bcast n _ _ | .readLen _ n | .inHook _ n _
  | .mbufs _ n _ | .read _ n _ _ => [n]
  | .copyLen n _ _ n0 | .copyNode n _ _ n0 _ _ => [n, n0]

/-- Where a buffer can be. -/
inductive Place where
  | ring (r : RingId)
  | task (t : TaskId)
deriving DecidableEq, Repr

def Net.held (a : Net) : Place → List Nat
  | .ring r => a.queue r
  | .task t => (a.ctl t).holds

/-- A task that has got a buffer has one more. -/
theorem holds_got {k : RingCall} (hop : k.op = .get) {x : Nat} (hx : x ≠ 0) :
    (k.resume x).holds.Perm (x :: k.holds) := by
  cases k with
  | putGet m c =>
      rw [RingCall.resume, if_neg hx]
      exact List.Perm.refl _
  | bcastGet n c p =>
      rw [RingCall.resume, if_neg hx]
      exact List.Perm.swap x n []
  | readGet p =>
      rw [RingCall.resume, if_neg hx]
      exact List.Perm.refl _
  | resetGet p =>
      rw [RingCall.resume, if_neg hx]
      exact List.Perm.refl _
  | _ => cases hop

theorem holds_empty {k : RingCall} (hop : k.op = .get) : (k.resume 0).holds = k.holds := by
  cases k <;> first | rfl | cases hop

/-- A task that has put its buffer on a ring has it no longer. -/
theorem holds_laid {k : RingCall} {v : Nat} (hop : k.op = .put v) {x : Nat} (hx : x ≠ 0) :
    k.holds.Perm (v :: (k.resume x).holds) := by
  cases k with
  | drop n =>
      cases hop
      exact List.Perm.refl _
  | xmitPut n c p =>
      cases hop
      rw [RingCall.resume, if_neg hx]
      exact List.Perm.refl _
  | bcastPut n c p n0 =>
      cases hop
      rw [RingCall.resume, if_neg hx]
      exact List.Perm.swap _ n []
  | bcastBack n c p n0 =>
      cases hop
      exact List.Perm.swap _ n []
  | readPut p n =>
      cases hop
      exact List.Perm.refl _
  | resetPut p n =>
      cases hop
      exact List.Perm.refl _
  | _ => cases hop

/-- A buffer that finds no room on an input ring stays with the task; one that finds none on
the free ring is gone. -/
theorem holds_full {k : RingCall} {v : Nat} (hop : k.op = .put v) :
    (k.resume 0).holds = k.holds ∨ k.ring = .free ∧ k.holds.Perm (v :: (k.resume 0).holds) := by
  cases k with
  | xmitPut n c p => exact .inl rfl
  | bcastPut n c p n0 => exact .inl rfl
  | drop n =>
      cases hop
      exact .inr ⟨rfl, List.Perm.refl _⟩
  | bcastBack n c p n0 =>
      cases hop
      exact .inr ⟨rfl, List.Perm.swap _ n []⟩
  | readPut p n =>
      cases hop
      exact .inr ⟨rfl, List.Perm.refl _⟩
  | resetPut p n =>
      cases hop
      exact .inr ⟨rfl, List.Perm.refl _⟩
  | _ => cases hop

/-- Outside of the rings only the output hook takes a buffer away. -/
theorem holds_access (s : Mem) (yes : Bool) {c : Ctl} :
    (s.access yes c).2.holds = c.holds ∨
      yes = true ∧ ∃ n d, c = .hook n d ∧ (s.access yes c).2 = .idle := by
  cases c with
  | idle | call k => exact .inl rfl
  | copyIn n m c j =>
      left
      rw [Mem.access]
      split <;> rfl
  | hook n c =>
      cases yes with
      | false => exact .inl rfl
      | true => exact .inr ⟨rfl, n, c, rfl, rfl⟩
  | dest n c =>
      left
      dsimp only [Mem.access]
      split
      · rfl
      · split <;> rfl
  | bcast n c p =>
      left
      cases p with
      | zero => rfl
      | succ p =>
          rw [Mem.access]
          split <;> rfl
  | copyLen n c p n0 => exact .inl rfl
  | copyNode n c p n0 len j =>
      left
      rw [Mem.access]
      split <;> rfl
  | readLen p n => exact .inl rfl
  | inHook | mbufs => cases yes <;> exact .inl rfl
  | read p n len acc =>
      left
      rw [Mem.access]
      split <;> rfl

section

variable {a b : Net} {e : Event} {stuck : Bool} {t : TaskId} {c : Ctl}

@[simp] theorem goto_mem : (a.goto t c).mem = a.mem := rfl

@[simp] theorem goto_queue : (a.goto t c).queue = a.queue := rfl

@[simp] theorem goto_ctl_self : (a.goto t c).ctl t = c := Function.update_self ..

theorem goto_ctl_of_ne {u : TaskId} (h : u ≠ t) : (a.goto t c).ctl u = a.ctl u :=
  Function.update_of_ne h ..

/-- A task goes on with the same buffers. -/
theorem held_goto {s : Mem} (h : c.holds.Perm (a.ctl t).holds) (p : Place) :
    (({ a with mem := s }.goto t c).held p).Perm (a.held p) := by
  cases p with
  | ring r => exact List.Perm.refl _
  | task u =>
      by_cases hu : u = t
      · subst hu
        rw [Net.held, goto_ctl_self]
        exact h
      · rw [Net.held, goto_ctl_of_ne hu]
        exact List.Perm.refl _

/-- The rings that are not written, and the other tasks. -/
theorem held_rest {s : Mem} {r : RingId} {l : List Nat} {p : Place} (hr : p ≠ .ring r)
    (ht : p ≠ .task t) :
    ((({ a with mem := s, queue := Function.update a.queue r l } : Net).goto t c).held p).Perm
      (a.held p) := by
  cases p with
  | ring q =>
      have hq : q ≠ r := fun heq => hr (heq ▸ rfl)
      rw [Net.held, goto_queue]
      show (Function.update a.queue r l q).Perm _
      rw [Function.update_of_ne hq]
      exact List.Perm.refl _
  | task u =>
      have hu : u ≠ t := fun heq => ht (heq ▸ rfl)
      rw [Net.held, goto_ctl_of_ne hu]
      exact List.Perm.refl _

theorem held_ring {s : Mem} {r : RingId} {l : List Nat} :
    (({ a with mem := s, queue := Function.update a.queue r l } : Net).goto t c).held (.ring r) =
      l := Function.update_self ..

theorem held_task {s : Mem} {q : RingId → List Nat} :
    (({ a with mem := s, queue := q } : Net).goto t c).held (.task t) = c.holds := by
  rw [Net.held, goto_ctl_self]

/-- What a step does with the buffers: one may change its place, and one may be lost. -/
theorem step_moves (hpos : ∀ r, 0 ∉ a.queue r) (h : a.Step e stuck b) :
    (∀ p, (b.held p).Perm (a.held p)) ∨
    (∃ p q x, p ≠ q ∧ (a.held p).Perm (x :: b.held p) ∧ (b.held q).Perm (x :: a.held q) ∧
      ∀ r, r ≠ p → r ≠ q → (b.held r).Perm (a.held r)) ∨
    (∃ t x, (a.held (.task t)).Perm (x :: b.held (.task t)) ∧
      (∀ r, r ≠ .task t → (b.held r).Perm (a.held r)) ∧
      ((∃ n d, a.ctl t = .hook n d ∧ e = .advance t true) ∨ stuck = true ∨ a.Full .free)) := by
  cases h with
  | stay => exact .inl fun p => List.Perm.refl _
  | attach stuck cpu => exact .inl fun p => by cases p <;> exact List.Perm.refl _
  | begin e stuck t k s hidle hb =>
      refine .inl (held_goto ?_)
      rw [hidle]
      cases hb <;> exact List.Perm.refl _
  | access stuck t yes hc =>
      rcases holds_access a.mem yes (c := a.ctl t) with hsame | ⟨rfl, n, d, hn, hidle⟩
      · exact .inl (held_goto (by rw [hsame]))
      · refine .inr (.inr ⟨t, n, ?_, ?_, .inl ⟨n, d, hn, rfl⟩⟩)
        · rw [held_task, hidle, Net.held, hn]
          exact List.Perm.refl _
        · intro r hr
          cases r with
          | ring q => exact List.Perm.refl _
          | task u =>
              rw [Net.held, goto_ctl_of_ne (fun heq => hr (congrArg Place.task heq))]
              exact List.Perm.refl _
  | got stuck t yes k x l hk hop hq =>
      have hx : x ≠ 0 := by
        rintro rfl
        exact hpos k.ring (hq ▸ List.mem_cons_self)
      refine .inr (.inl ⟨.ring k.ring, .task t, x, Place.noConfusion, ?_, ?_,
        fun r hr ht => held_rest hr ht⟩)
      · rw [held_ring, Net.held, hq]
      · rw [held_task, Net.held, hk]
        exact holds_got hop hx
  | laid stuck t yes k v x hk hop hx =>
      refine .inr (.inl ⟨.task t, .ring k.ring, v, Place.noConfusion, ?_, ?_,
        fun r ht hr => held_rest hr ht⟩)
      · rw [held_task, Net.held, hk]
        exact holds_laid hop hx
      · rw [held_ring]
        exact List.perm_append_singleton v _
  | failed stuck t yes k hk hwhy =>
      cases hop : k.op with
      | get =>
          refine .inl (held_goto (s := a.mem) ?_)
          rw [hk, holds_empty hop]
          exact List.Perm.refl _
      | put v =>
          rcases holds_full hop with hsame | ⟨hfree, hperm⟩
          · refine .inl (held_goto (s := a.mem) ?_)
            rw [hk, hsame]
            exact List.Perm.refl _
          · refine .inr (.inr ⟨t, v, ?_, ?_, ?_⟩)
            · rw [Net.held, Net.held, goto_ctl_self, hk]
              exact hperm
            · intro r hr
              cases r with
              | ring q => exact List.Perm.refl _
              | task u =>
                  rw [Net.held, goto_ctl_of_ne (fun heq => hr (congrArg Place.task heq))]
                  exact List.Perm.refl _
            · rcases hwhy with hstuck | ⟨hget, -⟩ | ⟨-, hfull⟩
              · exact .inr (.inl hstuck)
              · rw [hop] at hget
                cases hget
              · exact .inr (.inr (hfree ▸ hfull))

/-- The buffers are those of `pool`, each in one place. -/
structure Net.Exclusive (a : Net) (pool : List Nat) : Prop where
  held : Lib.Exclusive a.held
  pool : ∀ n, Somewhere a.held n → n ∈ pool

variable {pool : List Nat}

theorem Net.Exclusive.pos (h : a.Exclusive pool) (h0 : 0 ∉ pool) (r : RingId) : 0 ∉ a.queue r :=
  fun hr => h0 (h.pool 0 ⟨.ring r, hr⟩)

theorem step_exclusive (hex : a.Exclusive pool) (h0 : 0 ∉ pool) (h : a.Step e stuck b) :
    b.Exclusive pool := by
  rcases step_moves (hex.pos h0) h with hperm | ⟨p, q, x, hne, hp, hq, hrest⟩ | ⟨t, x, hp, hrest, -⟩
  · exact ⟨hex.held.perm hperm, fun n hn => hex.pool n ((somewhere_perm hperm).mp hn)⟩
  · exact ⟨hex.held.move hne hp hq hrest,
      fun n hn => hex.pool n ((somewhere_of_move hne hp hq hrest).mp hn)⟩
  · refine ⟨hex.held.leave hp hrest, ?_⟩
    rintro n ⟨r, hr⟩
    exact hex.pool n ⟨r, mem_of_leave hp hrest hr⟩

/-- The free ring has room for a buffer that is not on it. -/
theorem Net.Exclusive.room (hex : a.Exclusive pool) (hsize : pool.length < 256) {t : TaskId}
    {n : Nat} (hn : n ∈ a.held (.task t)) : ¬ a.Full .free := by
  intro hfull
  have hnot : n ∉ a.held (.ring .free) := hex.held.notMem hn (fun heq => by cases heq)
  have hnodup : (n :: a.queue .free).Nodup :=
    List.nodup_cons.mpr ⟨hnot, hex.held.nodup (.ring .free)⟩
  have hsub : n :: a.queue .free ⊆ pool := by
    intro y hy
    rcases List.mem_cons.mp hy with rfl | hy
    · exact hex.pool y ⟨_, hn⟩
    · exact hex.pool y ⟨.ring .free, hy⟩
  have hle := (List.subperm_of_subset hnodup hsub).length_le
  rw [List.length_cons, show (a.queue .free).length + 1 = 256 from hfull] at hle
  omega

/-- A step in which the output hook takes nothing and no lock is missed. -/
def Net.Keeps (a : Net) (e : Event) (stuck : Bool) : Prop :=
  stuck = false ∧ ∀ t, e = .advance t true → ∀ n c, a.ctl t ≠ .hook n c

end

end VxWorks.Drv.Bp
