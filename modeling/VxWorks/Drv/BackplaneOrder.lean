import VxWorks.Drv.BackplanePackets

/-!
# The order of packets on the backplane (if_bp.c)

A call of `bpPut` that is under way has put its packet on none of the input rings that it
may still put it on (`Net.Numbers`); so the calls on the record of an input ring are all
different. The record is what has been taken off the ring and what is on it, in order, and
what `bpRead` has read is in order what was taken off, but for what `bpReset` took
(`Net.Line`).
-/

namespace VxWorks.Drv.Bp

open VxWorks.Lib

/-- The number of the call of `bpPut` that the task is in, and a bound for the input rings it
may still use. -/
def RingCall.pending : RingCall → Option (Nat × Nat)
  | .putGet _ c | .xmitPut _ c _ => some (c, maxcpu)
  | .bcastGet _ c p | .bcastPut _ c p _ => some (c, p + 1)
  | .bcastBack _ c p _ => some (c, p)
  | .drop _ | .readGet _ | .readPut _ _ | .resetGet _ | .resetPut _ _ => none

def Ctl.pending : Ctl → Option (Nat × Nat)
  | .call k => k.pending
  | .copyIn _ _ c _ | .hook _ c | .dest _ c => some (c, maxcpu)
  | .bcast _ c p => some (c, p)
  | .copyLen _ c p _ | .copyNode _ c p _ _ _ => some (c, p + 1)
  | .idle | .readLen _ _ | .inHook _ _ _ | .mbufs _ _ _ | .read _ _ _ _ => none

/-- The input ring that a task reads. -/
def Ctl.reads : Ctl → Option Nat
  | .call (.readGet p) | .call (.readPut p _) | .readLen p _ | .inHook p _ _ | .mbufs p _ _
  | .read p _ _ _ => some p
  | _ => none

/-- The input ring that a task empties. -/
def Ctl.resets : Ctl → Option Nat
  | .call (.resetGet p) | .call (.resetPut p _) => some p
  | _ => none

/-- The packet that is being read. -/
def Ctl.reading (s : Mem) : Ctl → List (List UInt8)
  | .readLen _ n | .inHook _ n _ | .mbufs _ n _ | .read _ n _ _ => [(s.node n).octets]
  | _ => []

structure Net.Numbers (a : Net) : Prop where
  lt : ∀ t c b, (a.ctl t).pending = some (c, b) → c < a.mem.sent.length
  fresh : ∀ t c b q, (a.ctl t).pending = some (c, b) → q < b →
    c ∉ (a.mem.queued q).map Queued.call
  apart : ∀ t t' c b b', (a.ctl t).pending = some (c, b) → (a.ctl t').pending = some (c, b') →
    t = t'
  once : ∀ q, ((a.mem.queued q).map Queued.call).Nodup

/-- What an input ring took. -/
def Net.Accepts (a : Net) : Prop :=
  ∀ p, ∀ e ∈ a.mem.queued p, ∃ m, a.mem.sent[e.call]? = some m ∧ Arrives m e.octets ∧
    (dstCpu e.octets = p ∨ maxcpu ≤ dstCpu e.octets)

/-- What has been read of input ring `p`, and what is being read. -/
def Net.readBy (a : Net) (p : Nat) : List (List UInt8) :=
  (a.mem.read p).map Prod.snd ++ (a.ctl (.net p)).reading a.mem

/-- The record of input ring `p`: what is gone, and what is on the ring. -/
structure Net.Line (a : Net) (whole : Prop) (p : Nat) (gone : List (List UInt8)) : Prop where
  queued : (a.mem.queued p).map Queued.octets =
    gone ++ (a.queue (.input p)).map fun n => (a.mem.node n).octets
  read : (a.readBy p).Sublist gone
  whole : whole → a.readBy p = gone

structure Net.Inv (a : Net) (pool : List Nat) : Prop where
  exclusive : a.Exclusive pool
  knows : ∀ t, (a.ctl t).Knows a.mem
  numbers : a.Numbers
  accepts : a.Accepts
  reads : ∀ t p, (a.ctl t).reads = some p → t = .net p

section

variable {s : Mem} {c : Ctl} {k : RingCall} {yes : Bool}

/-! ## What a task does to its call -/

theorem access_pending {d b : Nat} (h : (s.access yes c).2.pending = some (d, b)) :
    ∃ b', c.pending = some (d, b') ∧ b ≤ b' := by
  cases c with
  | idle | call k | copyLen n d' p n0 | readLen p n => exact ⟨b, h, le_rfl⟩
  | copyIn n m d' j =>
      rw [Mem.access] at h
      split at h <;> exact ⟨b, h, le_rfl⟩
  | hook n d' =>
      cases yes with
      | true => cases h
      | false => exact ⟨b, h, le_rfl⟩
  | dest n d' =>
      dsimp only [Mem.access] at h
      split at h
      · exact ⟨b, h, le_rfl⟩
      · split at h
        · exact ⟨b, h, le_rfl⟩
        · cases h
  | bcast n d' p =>
      cases p with
      | zero => cases h
      | succ p =>
          rw [Mem.access] at h
          split at h
          · exact ⟨b, h, le_rfl⟩
          · cases h
            exact ⟨b + 1, rfl, Nat.le_succ b⟩
  | copyNode n d' p n0 len j =>
      rw [Mem.access] at h
      split at h <;> exact ⟨b, h, le_rfl⟩
  | inHook | mbufs => cases yes <;> cases h
  | read p n len acc =>
      rw [Mem.access] at h
      split at h <;> cases h

theorem resume_pending {x d b : Nat} (h : (k.resume x).pending = some (d, b)) :
    ∃ b', k.pending = some (d, b') ∧ b ≤ b' := by
  cases k with
  | putGet | bcastGet =>
      rw [RingCall.resume] at h
      split at h
      · cases h
      · exact ⟨b, h, le_rfl⟩
  | bcastPut n c p n0 =>
      rw [RingCall.resume] at h
      split at h
      · cases h
        exact ⟨b + 1, rfl, Nat.le_succ b⟩
      · cases h
        exact ⟨b + 1, rfl, Nat.le_succ b⟩
  | bcastBack => exact ⟨b, h, le_rfl⟩
  | xmitPut | readGet | resetGet =>
      rw [RingCall.resume] at h
      split at h <;> cases h
  | drop | readPut | resetPut => cases h

theorem access_reads {p : Nat} (h : (s.access yes c).2.reads = some p) : c.reads = some p := by
  cases c with
  | idle | call | copyLen | readLen => exact h
  | copyIn | copyNode =>
      rw [Mem.access] at h
      split at h <;> cases h
  | hook => cases yes <;> cases h
  | inHook | mbufs => cases yes <;> exact h
  | dest =>
      dsimp only [Mem.access] at h
      split at h
      · cases h
      · split at h <;> cases h
  | bcast n d q =>
      cases q with
      | zero => cases h
      | succ q =>
          rw [Mem.access] at h
          split at h <;> cases h
  | read =>
      rw [Mem.access] at h
      split at h <;> exact h

theorem resume_reads {x p : Nat} (h : (k.resume x).reads = some p) :
    (Ctl.call k).reads = some p := by
  cases k with
  | readPut => exact h
  | readGet =>
      rw [RingCall.resume] at h
      split at h
      · cases h
      · exact h
  | putGet | bcastGet | bcastPut | xmitPut | resetGet =>
      rw [RingCall.resume] at h
      split at h <;> cases h
  | drop | bcastBack | resetPut => cases h

/-- A packet is put on the free ring, where no record is kept, or on an input ring, where the
call is not on record yet; and it will not use that ring again. -/
theorem record_cases {v : Nat} (hop : k.op = .put v) (hk : k.Knows s) :
    (k.ring = .free ∧ s.record k = s) ∨
    ∃ p d b m, k.ring = .input p ∧ k.pending = some (d, b) ∧ p < b ∧
      s.record k = s.enter p ⟨d, (s.node v).octets⟩ ∧
      (∀ x d' b', x ≠ 0 → (k.resume x).pending = some (d', b') → b' ≤ p) ∧
      s.sent[d]? = some m ∧ Arrives m (s.node v).octets ∧
      (dstCpu (s.node v).octets = p ∨ maxcpu ≤ dstCpu (s.node v).octets) := by
  cases k with
  | xmitPut n d p =>
      cases hop
      obtain ⟨⟨m, hm, harr⟩, hdst, hp⟩ := hk
      refine .inr ⟨p, d, maxcpu, m, rfl, rfl, hp, rfl, ?_, hm, harr, .inl hdst⟩
      intro x d' b' hx h
      rw [RingCall.resume, if_neg hx] at h
      cases h
  | bcastPut n d p n0 =>
      cases hop
      obtain ⟨⟨⟨m, hm, harr⟩, hall⟩, hsame⟩ := hk
      refine .inr ⟨p, d, p + 1, m, rfl, rfl, Nat.lt_succ_self p, rfl, ?_, hm, hsame ▸ harr,
        .inr (hsame ▸ hall)⟩
      intro x d' b' hx h
      rw [RingCall.resume, if_neg hx] at h
      cases h
      exact le_rfl
  | drop | bcastBack | readPut | resetPut => exact .inl ⟨rfl, rfl⟩
  | putGet | bcastGet | readGet | resetGet => cases hop

end

section

variable {a b : Net} {e : Event} {stuck : Bool} {t : TaskId} {c : Ctl} {pool : List Nat}

@[simp] theorem enter_queued {s : Mem} {p : Nat} {q : Queued} :
    (s.enter p q).queued p = s.queued p ++ [q] := Function.update_self ..

theorem enter_queued_of_ne {s : Mem} {p r : Nat} {q : Queued} (h : r ≠ p) :
    (s.enter p q).queued r = s.queued r := Function.update_of_ne h ..

/-! ## The numbers of calls -/

/-- A task goes on with its call, or ends it. -/
theorem Net.Numbers.goto (h : a.Numbers) {s : Mem} (hsent : s.sent = a.mem.sent)
    (hqueued : s.queued = a.mem.queued)
    (hc : ∀ d b, c.pending = some (d, b) → ∃ b', (a.ctl t).pending = some (d, b') ∧ b ≤ b') :
    ({ a with mem := s }.goto t c).Numbers := by
  have hold : ∀ u d b, (({ a with mem := s }.goto t c).ctl u).pending = some (d, b) →
      ∃ b', (a.ctl u).pending = some (d, b') ∧ b ≤ b' := by
    intro u d b hu
    by_cases hut : u = t
    · subst hut
      rw [goto_ctl_self] at hu
      exact hc d b hu
    · rw [goto_ctl_of_ne hut] at hu
      exact ⟨b, hu, le_rfl⟩
  constructor
  · intro u d b hu
    obtain ⟨b', hb', -⟩ := hold u d b hu
    rw [goto_mem, hsent]
    exact h.lt u d b' hb'
  · intro u d b q hu hq
    obtain ⟨b', hb', hle⟩ := hold u d b hu
    rw [goto_mem, hqueued]
    exact h.fresh u d b' q hb' (hq.trans_le hle)
  · intro u u' d b b' hu hu'
    obtain ⟨b₁, hb₁, -⟩ := hold u d b hu
    obtain ⟨b₂, hb₂, -⟩ := hold u' d b' hu'
    exact h.apart u u' d b₁ b₂ hb₁ hb₂
  · intro q
    rw [goto_mem, hqueued]
    exact h.once q

/-- A task begins a new call of `bpPut`. -/
theorem Net.Numbers.put (h : a.Numbers) (hacc : a.Accepts) (m : Packet) :
    ({ a with mem := { a.mem with sent := a.mem.sent ++ [m] } }.goto t
      (.call (.putGet m a.mem.sent.length))).Numbers := by
  have hnew : ∀ q, a.mem.sent.length ∉ (a.mem.queued q).map Queued.call := by
    intro q hq
    obtain ⟨e, he, hlen⟩ := List.mem_map.mp hq
    obtain ⟨m', hm', -⟩ := hacc q e he
    have hlt := (List.getElem?_eq_some_iff.mp hm').1
    omega
  have hold : ∀ u d b, (({ a with mem := { a.mem with sent := a.mem.sent ++ [m] } }.goto t
      (.call (.putGet m a.mem.sent.length))).ctl u).pending = some (d, b) →
      (u = t ∧ d = a.mem.sent.length) ∨ (u ≠ t ∧ (a.ctl u).pending = some (d, b)) := by
    intro u d b hu
    by_cases hut : u = t
    · subst hut
      rw [goto_ctl_self] at hu
      cases hu
      exact .inl ⟨rfl, rfl⟩
    · rw [goto_ctl_of_ne hut] at hu
      exact .inr ⟨hut, hu⟩
  constructor
  · intro u d b hu
    rw [goto_mem, List.length_append, List.length_singleton]
    rcases hold u d b hu with ⟨-, rfl⟩ | ⟨-, hu'⟩
    · omega
    · have hlt := h.lt u d b hu'
      omega
  · intro u d b q hu hq
    rcases hold u d b hu with ⟨-, rfl⟩ | ⟨-, hu'⟩
    · exact hnew q
    · exact h.fresh u d b q hu' hq
  · intro u u' d b b' hu hu'
    rcases hold u d b hu with ⟨rfl, rfl⟩ | ⟨-, hu₁⟩
    · rcases hold u' _ b' hu' with ⟨rfl, -⟩ | ⟨-, hu₂⟩
      · rfl
      · exact absurd (h.lt u' _ b' hu₂) (Nat.lt_irrefl _)
    · rcases hold u' d b' hu' with ⟨-, rfl⟩ | ⟨-, hu₂⟩
      · exact absurd (h.lt u _ b hu₁) (Nat.lt_irrefl _)
      · exact h.apart u u' d b b' hu₁ hu₂
  · exact h.once

/-- A packet is put on an input ring. -/
theorem Net.Numbers.record (h : a.Numbers) {p d b : Nat} {l : List UInt8}
    {q : RingId → List Nat} (ht : (a.ctl t).pending = some (d, b)) (hp : p < b)
    (hc : ∀ d' b', c.pending = some (d', b') → d' = d ∧ b' ≤ p) :
    ({ a with mem := a.mem.enter p ⟨d, l⟩, queue := q }.goto t c).Numbers := by
  have hcalls : ∀ r, ((a.mem.enter p ⟨d, l⟩).queued r).map Queued.call =
      (a.mem.queued r).map Queued.call ++ if r = p then [d] else [] := by
    intro r
    by_cases hr : r = p
    · subst hr
      rw [enter_queued, if_pos rfl, List.map_append]
      rfl
    · rw [enter_queued_of_ne hr, if_neg hr, List.append_nil]
  have hold : ∀ u d' b', (Function.update a.ctl t c u).pending = some (d', b') →
      (u = t ∧ d' = d ∧ b' ≤ p) ∨ (u ≠ t ∧ (a.ctl u).pending = some (d', b')) := by
    intro u d' b' hu
    by_cases hut : u = t
    · subst hut
      rw [Function.update_self] at hu
      exact .inl ⟨rfl, hc d' b' hu⟩
    · rw [Function.update_of_ne hut] at hu
      exact .inr ⟨hut, hu⟩
  constructor
  · intro u d' b' hu
    rcases hold u d' b' hu with ⟨-, rfl, -⟩ | ⟨-, hu'⟩
    · exact h.lt t d' b ht
    · exact h.lt u d' b' hu'
  · intro u d' b' r hu hr
    show d' ∉ ((a.mem.enter p ⟨d, l⟩).queued r).map Queued.call
    rw [hcalls r, List.mem_append, not_or]
    rcases hold u d' b' hu with ⟨-, rfl, hle⟩ | ⟨hut, hu'⟩
    · rw [if_neg (by omega)]
      exact ⟨h.fresh t d' b r ht (by omega), List.not_mem_nil⟩
    · refine ⟨h.fresh u d' b' r hu' hr, ?_⟩
      split
      · intro hmem
        obtain rfl := List.mem_singleton.mp hmem
        exact hut (h.apart u t d' b' b hu' ht)
      · exact List.not_mem_nil
  · intro u u' d' b₁ b₂ hu hu'
    rcases hold u d' b₁ hu with ⟨rfl, rfl, -⟩ | ⟨-, h₁⟩
    · rcases hold u' d' b₂ hu' with ⟨rfl, -⟩ | ⟨-, h₂⟩
      · rfl
      · exact h.apart u u' d' b b₂ ht h₂
    · rcases hold u' d' b₂ hu' with ⟨rfl, rfl, -⟩ | ⟨-, h₂⟩
      · exact h.apart u u' d' b₁ b h₁ ht
      · exact h.apart u u' d' b₁ b₂ h₁ h₂
  · intro r
    show (((a.mem.enter p ⟨d, l⟩).queued r).map Queued.call).Nodup
    rw [hcalls r]
    split
    · next hr =>
        subst hr
        rw [List.nodup_append_comm]
        exact List.nodup_cons.mpr ⟨h.fresh t d b r ht hp, h.once r⟩
    · rw [List.append_nil]
      exact h.once r

/-! ## What is on the input rings -/

/-- A step that changes no buffer of the ring, and the queue not at all. -/
theorem Net.Line.frame {whole : Prop} {p : Nat} {gone : List (List UInt8)}
    (h : a.Line whole p gone) (hqueue : b.queue (.input p) = a.queue (.input p))
    (hqueued : b.mem.queued p = a.mem.queued p)
    (hnode : ∀ n ∈ a.queue (.input p), b.mem.node n = a.mem.node n)
    (hread : b.readBy p = a.readBy p) : b.Line whole p gone where
  queued := by
    rw [hqueued, hqueue, h.queued]
    congr 1
    exact List.map_congr_left fun n hn => by rw [hnode n hn]
  read := hread ▸ h.read
  whole hw := hread.trans (h.whole hw)

/-- A task that reads nothing before and after. -/
theorem readBy_goto {s : Mem} {q : RingId → List Nat} {p : Nat}
    (hread : s.read p = a.mem.read p)
    (hnode : ∀ n ∈ a.held (.task (.net p)), t ≠ .net p → s.node n = a.mem.node n)
    (hbefore : t = .net p → (a.ctl t).reading a.mem = []) (hafter : t = .net p → c.reading s = []) :
    (({ a with mem := s, queue := q } : Net).goto t c).readBy p = a.readBy p := by
  rw [Net.readBy, Net.readBy, goto_mem, hread]
  congr 1
  by_cases ht : t = .net p
  · subst ht
    rw [goto_ctl_self, hbefore rfl, hafter rfl]
  · rw [goto_ctl_of_ne (fun heq => ht heq.symm)]
    show (a.ctl (.net p)).reading s = _
    have hheld : ∀ n ∈ (a.ctl (.net p)).holds, s.node n = a.mem.node n := fun n hn =>
      hnode n hn ht
    cases hctl : a.ctl (.net p) with
    | readLen q n | inHook q n len | mbufs q n len | read q n len acc =>
        rw [hctl] at hheld
        rw [Ctl.reading, Ctl.reading, hheld n List.mem_cons_self]
    | _ => rfl

/-! ## A step -/

theorem record_node (s : Mem) (k : RingCall) : (s.record k).node = s.node ∧
    (s.record k).sent = s.sent ∧ (s.record k).read = s.read := by
  cases k <;> exact ⟨rfl, rfl, rfl⟩

/-- A task moves on; the others know what they knew. -/
theorem knows_goto {s : Mem} {q : RingId → List Nat} (h : ∀ u, (a.ctl u).Knows a.mem)
    (hsent : a.mem.sent <+: s.sent)
    (hnode : ∀ u, u ≠ t → ∀ n ∈ (a.ctl u).holds, s.node n = a.mem.node n) (hc : c.Knows s)
    (u : TaskId) : ((({ a with mem := s, queue := q } : Net).goto t c).ctl u).Knows s := by
  by_cases hu : u = t
  · subst hu
    rw [goto_ctl_self]
    exact hc
  · rw [goto_ctl_of_ne hu]
    exact (h u).frame hsent (hnode u hu)

/-- The buffers of other tasks are not written by this one. -/
theorem access_other (h : a.Exclusive pool) (yes : Bool) {p : Place} (hp : p ≠ .task t) {n : Nat}
    (hn : n ∈ a.held p) : (a.mem.access yes (a.ctl t)).1.node n = a.mem.node n := by
  have hnot : n ∉ a.held (.task t) := h.held.notMem hn fun heq => hp heq.symm
  exact access_node hnot

theorem reads_goto {s : Mem} {q : RingId → List Nat}
    (h : ∀ u p, (a.ctl u).reads = some p → u = .net p)
    (hc : ∀ p, c.reads = some p → t = .net p) (u : TaskId) (p : Nat)
    (hu : ((({ a with mem := s, queue := q } : Net).goto t c).ctl u).reads = some p) :
    u = .net p := by
  by_cases hut : u = t
  · subst hut
    rw [goto_ctl_self] at hu
    exact hc p hu
  · rw [goto_ctl_of_ne hut] at hu
    exact h u p hu

theorem Net.Accepts.more (h : a.Accepts) (hsent : a.mem.sent <+: b.mem.sent)
    (hqueued : b.mem.queued = a.mem.queued) : b.Accepts := by
  intro p e he
  rw [hqueued] at he
  obtain ⟨m, hm, hrest⟩ := h p e he
  exact ⟨m, nth_of_extends hm hsent, hrest⟩

theorem Net.Numbers.congr (h : a.Numbers) (hsent : b.mem.sent = a.mem.sent)
    (hqueued : b.mem.queued = a.mem.queued) (hctl : b.ctl = a.ctl) : b.Numbers := by
  constructor
  · rw [hsent, hctl]
    exact h.lt
  · rw [hqueued, hctl]
    exact h.fresh
  · rw [hctl]
    exact h.apart
  · rw [hqueued]
    exact h.once

theorem step_knows (h : a.Inv pool) (hs : a.Step e stuck b) (u : TaskId) :
    (b.ctl u).Knows b.mem := by
  cases hs with
  | stay => exact h.knows u
  | attach stuck cpu => exact (h.knows u).frame (List.prefix_refl _) fun _ _ => rfl
  | begin e stuck t k s hidle hb =>
      cases hb with
      | put t m =>
          refine knows_goto (s := { a.mem with sent := a.mem.sent ++ [m] }) (q := a.queue) h.knows
            (List.prefix_append _ _) (fun _ _ _ _ => rfl) ?_ u
          show (a.mem.sent ++ [m])[a.mem.sent.length]? = some m
          rw [List.getElem?_append_right le_rfl, Nat.sub_self]
          rfl
      | readAll cpu =>
          exact knows_goto (q := a.queue) (c := .call (.readGet cpu)) h.knows (List.prefix_refl _)
            (fun _ _ _ _ => rfl) trivial u
      | reset t cpu =>
          exact knows_goto (q := a.queue) (c := .call (.resetGet cpu)) h.knows (List.prefix_refl _)
            (fun _ _ _ _ => rfl) trivial u
  | access stuck t yes hc =>
      refine knows_goto (q := a.queue) h.knows (by rw [access_sent.1]) ?_
        (knows_access (h.knows t) hc (h.exclusive.held.nodup (.task t))) u
      intro v hv n hn
      exact access_other h.exclusive yes (p := .task v) (fun heq => hv (Place.task.inj heq)) hn
  | got stuck t yes k x l hk hop hq =>
      refine knows_goto h.knows (List.prefix_refl _) (fun _ _ _ _ => rfl) (knows_resume ?_ x) u
      have hkn := h.knows t
      rw [hk] at hkn
      exact hkn
  | laid stuck t yes k v x hk hop hx =>
      obtain ⟨hnode, hsent, -⟩ := record_node a.mem k
      have hkn := h.knows t
      rw [hk] at hkn
      refine knows_goto h.knows (by rw [hsent]) (fun _ _ n _ => congrFun hnode n) ?_ u
      exact (knows_resume (k := k) hkn x).frame (by rw [hsent]) fun n _ => congrFun hnode n
  | failed stuck t yes k hk hwhy =>
      refine knows_goto (s := a.mem) (q := a.queue) h.knows (List.prefix_refl _)
        (fun _ _ _ _ => rfl) (knows_resume ?_ 0) u
      have hkn := h.knows t
      rw [hk] at hkn
      exact hkn

theorem step_numbers (h : a.Inv pool) (hs : a.Step e stuck b) : b.Numbers ∧ b.Accepts := by
  cases hs with
  | stay => exact ⟨h.numbers, h.accepts⟩
  | attach stuck cpu =>
      exact ⟨h.numbers.congr rfl rfl rfl, h.accepts.more (List.prefix_refl _) rfl⟩
  | begin e stuck t k s hidle hb =>
      cases hb with
      | put t m => exact ⟨h.numbers.put h.accepts m, h.accepts.more (List.prefix_append _ _) rfl⟩
      | readAll cpu =>
          refine ⟨h.numbers.goto rfl rfl ?_, h.accepts.more (List.prefix_refl _) rfl⟩
          intro d b hd
          cases hd
      | reset t cpu =>
          refine ⟨h.numbers.goto rfl rfl ?_, h.accepts.more (List.prefix_refl _) rfl⟩
          intro d b hd
          cases hd
  | access stuck t yes hc =>
      obtain ⟨hsent, hqueued⟩ := @access_sent a.mem (a.ctl t) yes
      exact ⟨h.numbers.goto hsent hqueued fun d b hd => access_pending hd,
        h.accepts.more (by rw [goto_mem, hsent]) hqueued⟩
  | got stuck t yes k x l hk hop hq =>
      refine ⟨?_, h.accepts.more (List.prefix_refl _) rfl⟩
      have hgoto : (({ a with mem := a.mem } : Net).goto t (k.resume x)).Numbers := by
        refine h.numbers.goto rfl rfl ?_
        intro d b hd
        rw [hk]
        exact resume_pending hd
      exact hgoto.congr rfl rfl rfl
  | laid stuck t yes k v x hk hop hx =>
      have hkn := h.knows t
      rw [hk] at hkn
      have hpend : (a.ctl t).pending = k.pending := by rw [hk]; rfl
      rcases record_cases hop hkn with ⟨-, hsame⟩ |
        ⟨p, d, b, m, hring, hd, hp, hrec, hless, hm, harr, hdst⟩
      · have hgoto : (({ a with mem := a.mem } : Net).goto t (k.resume x)).Numbers := by
          refine h.numbers.goto rfl rfl ?_
          intro d b hd
          rw [hk]
          exact resume_pending hd
        rw [hsame]
        exact ⟨hgoto.congr rfl rfl rfl, h.accepts.more (List.prefix_refl _) rfl⟩
      · rw [hrec]
        refine ⟨h.numbers.record (hpend.trans hd) hp ?_, ?_⟩
        · intro d' b' hd'
          obtain ⟨b₀, hb₀, -⟩ := resume_pending hd'
          rw [hd] at hb₀
          cases hb₀
          exact ⟨rfl, hless x d b' hx hd'⟩
        · intro r q hq
          by_cases hr : r = p
          · subst hr
            have hq' : q ∈ a.mem.queued r ++ [⟨d, (a.mem.node v).octets⟩] := by
              rw [← enter_queued]
              exact hq
            rcases List.mem_append.mp hq' with hold | hnew
            · exact h.accepts r q hold
            · obtain rfl := List.mem_singleton.mp hnew
              exact ⟨m, hm, harr, hdst⟩
          · have hq' : q ∈ a.mem.queued r := by
              rw [← enter_queued_of_ne (s := a.mem) (q := ⟨d, (a.mem.node v).octets⟩) hr]
              exact hq
            exact h.accepts r q hq'
  | failed stuck t yes k hk hwhy =>
      refine ⟨h.numbers.goto (s := a.mem) rfl rfl ?_, h.accepts.more (List.prefix_refl _) rfl⟩
      intro d b hd
      rw [hk]
      exact resume_pending hd

theorem step_reads (h : a.Inv pool) (hs : a.Step e stuck b) (u : TaskId) (p : Nat)
    (hu : (b.ctl u).reads = some p) : u = .net p := by
  have hcall : ∀ {t k x}, a.ctl t = .call k → ∀ p, (k.resume x).reads = some p → t = .net p := by
    intro t k x hk p hp
    refine h.reads t p ?_
    rw [hk]
    exact resume_reads hp
  cases hs with
  | stay => exact h.reads u p hu
  | attach stuck cpu => exact h.reads u p hu
  | begin e stuck t k s hidle hb =>
      refine reads_goto (q := a.queue) h.reads ?_ u p hu
      intro p hp
      cases hb with
      | put t m => cases hp
      | readAll cpu =>
          cases hp
          rfl
      | reset t cpu => cases hp
  | access stuck t yes hc =>
      exact reads_goto (q := a.queue) h.reads (fun p hp => h.reads t p (access_reads hp)) u p hu
  | got stuck t yes k x l hk hop hq => exact reads_goto h.reads (hcall hk) u p hu
  | laid stuck t yes k v x hk hop hx => exact reads_goto h.reads (hcall hk) u p hu
  | failed stuck t yes k hk hwhy =>
      exact reads_goto (s := a.mem) (q := a.queue) h.reads (hcall hk) u p hu

theorem step_inv (h : a.Inv pool) (h0 : 0 ∉ pool) (hs : a.Step e stuck b) : b.Inv pool :=
  ⟨step_exclusive h.exclusive h0 hs, step_knows h hs, (step_numbers h hs).1, (step_numbers h hs).2,
    step_reads h hs⟩

/-! ## The record of an input ring -/

theorem reading_resume {s : Mem} {k : RingCall} {x : Nat} (h : ∀ p, k ≠ .readGet p) :
    (k.resume x).reading s = [] := by
  cases k with
  | readGet p => exact absurd rfl (h p)
  | putGet | xmitPut | bcastGet | bcastPut | resetGet =>
      rw [RingCall.resume]
      split <;> rfl
  | drop | bcastBack | readPut | resetPut => rfl

variable {whole : Prop} {p : Nat} {gone : List (List UInt8)}

/-- A packet is taken off input ring `p`, to be read or thrown away. -/
theorem Net.Line.got (h : a.Inv pool) (h0 : 0 ∉ pool) (hl : a.Line whole p gone)
    (hw : whole → ∀ u, (a.ctl u).resets ≠ some p) {x : Nat} {l : List Nat} (hk : a.ctl t = .call k)
    (hop : k.op = .get) (hring : k.ring = .input p) (hq : a.queue (.input p) = x :: l) :
    ({ a with queue := Function.update a.queue (.input p) l }.goto t (k.resume x)).Line whole p
      (gone ++ [(a.mem.node x).octets]) := by
  have hx : x ≠ 0 := by
    rintro rfl
    exact h.exclusive.pos h0 (.input p) (hq ▸ List.mem_cons_self)
  have hqueued : (a.mem.queued p).map Queued.octets = gone ++ [(a.mem.node x).octets] ++
      (Function.update a.queue (.input p) l (.input p)).map fun n => (a.mem.node n).octets := by
    rw [hl.queued, hq, Function.update_self, List.append_assoc]
    rfl
  cases k with
  | readGet q =>
      cases hring
      obtain rfl : t = .net p := h.reads t p (by rw [hk]; rfl)
      have hnone : (a.ctl (.net p)).reading a.mem = [] := by
        rw [hk]
        rfl
      have hread : (({ a with queue := Function.update a.queue (.input p) l }.goto (.net p)
          ((RingCall.readGet p).resume x)).ctl (.net p)).reading a.mem =
          [(a.mem.node x).octets] := by
        rw [goto_ctl_self, RingCall.resume, if_neg hx]
        rfl
      refine ⟨hqueued, ?_, fun hwhole => ?_⟩
      · have hsub := hl.read
        rw [Net.readBy, hnone, List.append_nil] at hsub
        rw [Net.readBy, goto_mem, hread]
        exact List.Sublist.append hsub (List.Sublist.refl _)
      · have heq := hl.whole hwhole
        rw [Net.readBy, hnone, List.append_nil] at heq
        rw [Net.readBy, goto_mem, hread, heq]
  | resetGet q =>
      cases hring
      have hread := readBy_goto (a := a) (t := t) (c := (RingCall.resetGet p).resume x)
        (s := a.mem) (q := Function.update a.queue (.input p) l) (p := p) rfl (fun _ _ _ => rfl)
        (fun _ => by rw [hk]; rfl) (fun _ => reading_resume fun q => RingCall.noConfusion)
      refine ⟨hqueued, ?_, fun hwhole => ?_⟩
      · rw [hread]
        exact hl.read.trans (List.sublist_append_left ..)
      · exact absurd (by rw [hk]; rfl) (hw hwhole t)
  | putGet | bcastGet => cases hring
  | _ => cases hop

/-- A packet is put on input ring `p`. -/
theorem Net.Line.laid (hl : a.Line whole p gone) (d v : Nat) (hk : a.ctl t = .call k)
    (hget : ∀ q, k ≠ .readGet q) (x : Nat) :
    ({ a with
      mem := a.mem.enter p ⟨d, (a.mem.node v).octets⟩
      queue := Function.update a.queue (.input p) (a.queue (.input p) ++ [v]) }.goto t
        (k.resume x)).Line whole p gone := by
  have hread := readBy_goto (a := a) (t := t) (c := k.resume x)
    (s := a.mem.enter p ⟨d, (a.mem.node v).octets⟩)
    (q := Function.update a.queue (.input p) (a.queue (.input p) ++ [v])) (p := p) rfl
    (fun _ _ _ => rfl) (fun _ => by rw [hk]; rfl) (fun _ => reading_resume hget)
  refine ⟨?_, hread ▸ hl.read, fun hwhole => hread.trans (hl.whole hwhole)⟩
  show ((a.mem.enter p ⟨d, (a.mem.node v).octets⟩).queued p).map Queued.octets =
    gone ++ (Function.update a.queue (.input p) (a.queue (.input p) ++ [v]) (.input p)).map
      fun n => (a.mem.node n).octets
  rw [enter_queued, Function.update_self, List.map_append, List.map_append, hl.queued,
    List.append_assoc]
  rfl

end

end VxWorks.Drv.Bp
