import Mathlib.Data.List.GetD
import VxWorks.Drv.BackplaneNet

/-!
# Packets on the backplane (if_bp.c)

A task knows what is in the buffers it holds, and nobody writes into them but the task
itself; so what a task knows stays true until it puts the buffer on a ring, and then it is
true of the ring. In this way the octets of a packet get from `bpPut` to `bpRead`: first
those of the mbufs, filled up to the least size with what the buffer held before.

A call of `bpPut` has a number, and no input ring gets the packet of one call twice: the
loop over the processors goes down. What is taken off an input ring is read in that order,
unless `bpReset` takes it.
-/

namespace VxWorks.Drv.Bp

open VxWorks.Lib

/-- The packet as it arrives. -/
def Arrives (m : Packet) (l : List UInt8) : Prop :=
  l.take m.octets.length = m.octets ∧ l.length = max minpktsize m.octets.length

/-- `ether_dhost[5]`. -/
def dstCpu (l : List UInt8) : Nat := (l.getD 5 0).toNat

/-- The buffer holds the packet of a call of `bpPut`. -/
def Mem.Carries (s : Mem) (c n : Nat) : Prop :=
  ∃ m, s.sent[c]? = some m ∧ Arrives m (s.node n).octets

/-- The buffer holds a packet for everybody. -/
def Mem.Broadcast (s : Mem) (c n : Nat) : Prop :=
  s.Carries c n ∧ maxcpu ≤ dstCpu (s.node n).octets

def RingCall.Knows (s : Mem) : RingCall → Prop
  | .putGet m c => s.sent[c]? = some m
  | .xmitPut n c p => s.Carries c n ∧ dstCpu (s.node n).octets = p ∧ p < maxcpu
  | .bcastGet n c _ | .bcastBack n c _ _ => s.Broadcast c n
  | .bcastPut n c _ n0 => s.Broadcast c n ∧ (s.node n0).octets = (s.node n).octets
  | .drop _ | .readGet _ | .readPut _ _ | .resetGet _ | .resetPut _ _ => True

/-- What a task knows of the buffers it holds. -/
def Ctl.Knows (s : Mem) : Ctl → Prop
  | .idle | .readLen _ _ => True
  | .call k => k.Knows s
  | .copyIn n m c j => s.sent[c]? = some m ∧ j ≤ m.octets.length ∧
      ∀ i < j, (s.node n).data i = m.octets.getD i 0
  | .hook n c | .dest n c => s.Carries c n
  | .bcast n c _ | .copyLen n c _ _ => s.Broadcast c n
  | .copyNode n c _ n0 len j => s.Broadcast c n ∧ len = (s.node n).len ∧ (s.node n0).len = len ∧
      j ≤ len ∧ ∀ i < j, (s.node n0).data i = (s.node n).data i
  | .inHook _ n len | .mbufs _ n len => len = (s.node n).len
  | .read _ n len acc => len = (s.node n).len ∧ acc.length ≤ len ∧
      acc = (s.node n).data.take acc.length

/-! ## What an access changes -/

section

variable {s s' : Mem} {c : Ctl} {k : RingCall} {n j : Nat} {yes : Bool}

theorem setOctet_of_ne {i : Nat} (h : i ≠ n) (v : UInt8) : (s.setOctet n j v).node i = s.node i :=
  Function.update_of_ne h ..

theorem setLen_of_ne {i len : Nat} (h : i ≠ n) : (s.setLen n len).node i = s.node i :=
  Function.update_of_ne h ..

@[simp] theorem setOctet_data (v : UInt8) :
    ((s.setOctet n j v).node n).data = (s.node n).data.set8 j v := by
  simp [Mem.setOctet]

@[simp] theorem setOctet_len (v : UInt8) : ((s.setOctet n j v).node n).len = (s.node n).len := by
  simp [Mem.setOctet]

@[simp] theorem setLen_data (len : Nat) : ((s.setLen n len).node n).data = (s.node n).data := by
  simp [Mem.setLen]

@[simp] theorem setLen_len (len : Nat) : ((s.setLen n len).node n).len = len := by
  simp [Mem.setLen]

/-- Only the buffers of the task are written. -/
theorem access_node (h : n ∉ c.holds) : (s.access yes c).1.node n = s.node n := by
  cases c with
  | copyIn i m d j =>
      have hne : n ≠ i := fun heq => h (List.mem_singleton.mpr heq)
      rw [Mem.access]
      split
      · exact setOctet_of_ne hne _
      · exact setLen_of_ne hne
  | hook | inHook | mbufs => cases yes <;> rfl
  | dest i d =>
      dsimp only [Mem.access]
      split
      · rfl
      · split <;> rfl
  | bcast i d p =>
      cases p with
      | zero => rfl
      | succ p =>
          rw [Mem.access]
          split <;> rfl
  | copyLen i d p i0 =>
      have hne : n ≠ i0 := by
        rintro rfl
        exact h (List.mem_cons_of_mem i List.mem_cons_self)
      exact setLen_of_ne hne
  | copyNode i d p i0 len j =>
      have hne : n ≠ i0 := by
        rintro rfl
        exact h (List.mem_cons_of_mem i List.mem_cons_self)
      rw [Mem.access]
      split
      · exact setOctet_of_ne hne _
      · rfl
  | read p i len acc =>
      rw [Mem.access]
      split <;> rfl
  | idle | call k | readLen p i => rfl

theorem access_sent : (s.access yes c).1.sent = s.sent ∧
    (s.access yes c).1.queued = s.queued := by
  cases c with
  | copyIn | copyNode | read =>
      rw [Mem.access]
      split <;> exact ⟨rfl, rfl⟩
  | hook | inHook | mbufs => cases yes <;> exact ⟨rfl, rfl⟩
  | dest n d =>
      dsimp only [Mem.access]
      split
      · exact ⟨rfl, rfl⟩
      · split <;> exact ⟨rfl, rfl⟩
  | bcast n d p =>
      cases p with
      | zero => exact ⟨rfl, rfl⟩
      | succ p =>
          rw [Mem.access]
          split <;> exact ⟨rfl, rfl⟩
  | idle | call | copyLen | readLen => exact ⟨rfl, rfl⟩

/-! ## What a task knows -/

theorem Mem.Carries.frame (h : s.Carries j n) (hsent : s.sent <+: s'.sent)
    (hnode : s'.node n = s.node n) : s'.Carries j n := by
  obtain ⟨m, hm, harr⟩ := h
  refine ⟨m, ?_, hnode ▸ harr⟩
  obtain ⟨l, hl⟩ := hsent
  rw [← hl, List.getElem?_append_left (List.getElem?_eq_some_iff.mp hm).1]
  exact hm

theorem Mem.Broadcast.frame (h : s.Broadcast j n) (hsent : s.sent <+: s'.sent)
    (hnode : s'.node n = s.node n) : s'.Broadcast j n :=
  ⟨h.1.frame hsent hnode, hnode ▸ h.2⟩

theorem nth_of_extends {l l' : List Packet} {m : Packet} (h : l[j]? = some m) (hl : l <+: l') :
    l'[j]? = some m := by
  obtain ⟨r, rfl⟩ := hl
  rw [List.getElem?_append_left (List.getElem?_eq_some_iff.mp h).1]
  exact h

/-- What others do does not matter. -/
theorem RingCall.Knows.frame (h : k.Knows s) (hsent : s.sent <+: s'.sent)
    (hnode : ∀ n ∈ k.holds, s'.node n = s.node n) : k.Knows s' := by
  cases k with
  | putGet m d => exact nth_of_extends h hsent
  | xmitPut n d p =>
      have hn := hnode n List.mem_cons_self
      exact ⟨h.1.frame hsent hn, hn ▸ h.2⟩
  | bcastGet n d p => exact Mem.Broadcast.frame h hsent (hnode n List.mem_cons_self)
  | bcastBack n d p n0 => exact Mem.Broadcast.frame h hsent (hnode n List.mem_cons_self)
  | bcastPut n d p n0 =>
      have hn := hnode n List.mem_cons_self
      have hn0 := hnode n0 (List.mem_cons_of_mem n List.mem_cons_self)
      exact ⟨h.1.frame hsent hn, by rw [hn, hn0]; exact h.2⟩
  | drop | readGet | readPut | resetGet | resetPut => trivial

theorem Ctl.Knows.frame (h : c.Knows s) (hsent : s.sent <+: s'.sent)
    (hnode : ∀ n ∈ c.holds, s'.node n = s.node n) : c.Knows s' := by
  cases c with
  | idle | readLen => trivial
  | call k => exact RingCall.Knows.frame h hsent hnode
  | copyIn n m d j =>
      have hn := hnode n List.mem_cons_self
      exact ⟨nth_of_extends h.1 hsent, h.2.1, hn ▸ h.2.2⟩
  | hook n d => exact Mem.Carries.frame h hsent (hnode n List.mem_cons_self)
  | dest n d => exact Mem.Carries.frame h hsent (hnode n List.mem_cons_self)
  | bcast n d p => exact Mem.Broadcast.frame h hsent (hnode n List.mem_cons_self)
  | copyLen n d p n0 => exact Mem.Broadcast.frame h hsent (hnode n List.mem_cons_self)
  | copyNode n d p n0 len j =>
      have hn := hnode n List.mem_cons_self
      have hn0 := hnode n0 (List.mem_cons_of_mem n List.mem_cons_self)
      obtain ⟨hb, hlen, hlen0, hj, hdata⟩ := h
      refine ⟨hb.frame hsent hn, ?_, ?_, hj, ?_⟩
      · rw [hn]
        exact hlen
      · rw [hn0]
        exact hlen0
      · rw [hn, hn0]
        exact hdata
  | inHook p n len =>
      have hn := hnode n List.mem_cons_self
      show len = (s'.node n).len
      rw [hn]
      exact h
  | mbufs p n len =>
      have hn := hnode n List.mem_cons_self
      show len = (s'.node n).len
      rw [hn]
      exact h
  | read p n len acc =>
      have hn := hnode n List.mem_cons_self
      show len = (s'.node n).len ∧ _ ∧ acc = (s'.node n).data.take acc.length
      rw [hn]
      exact h

theorem length_octets (b : BufNode) : b.octets.length = b.len := Buf.length_take _ _

theorem octets_getD (b : BufNode) {i : Nat} (h : i < b.len) : b.octets.getD i 0 = b.data i := by
  rw [BufNode.octets, Buf.take, List.getD_eq_getElem?_getD, List.getElem?_map,
    List.getElem?_range h]
  rfl

/-- The buffer, when all of the packet is in it and its length is set. -/
theorem arrives_copied {m : Packet} {b : BufNode}
    (h : ∀ i < m.octets.length, b.data i = m.octets.getD i 0)
    (hlen : b.len = max minpktsize m.octets.length) : Arrives m b.octets := by
  refine ⟨?_, by rw [length_octets, hlen]⟩
  apply List.ext_getElem
  · rw [List.length_take, length_octets, hlen]
    exact Nat.min_eq_left (le_max_right _ _)
  · intro i hi hi'
    have hlt : i < b.len := by
      rw [hlen]
      exact lt_of_lt_of_le hi' (le_max_right _ _)
    rw [List.getElem_take, ← List.getD_eq_getElem _ 0, octets_getD b hlt, h i hi',
      List.getD_eq_getElem _ 0 hi']

theorem Arrives.dst {m : Packet} {b : BufNode} (h : Arrives m b.octets) :
    dstCpu b.octets = (b.data 5).toNat := by
  have hlen : 60 ≤ b.len := by
    rw [← length_octets, h.2]
    exact le_max_left _ _
  rw [dstCpu, octets_getD b (by omega)]

/-- The task knows what it has done itself. -/
theorem knows_access (h : c.Knows s) (hc : ∀ k, c ≠ .call k) (hnodup : c.holds.Nodup) :
    (s.access yes c).2.Knows (s.access yes c).1 := by
  cases c with
  | idle => trivial
  | call k => exact absurd rfl (hc k)
  | copyIn n m d j =>
      obtain ⟨hm, hj, hdata⟩ := h
      rw [Mem.access]
      split
      · next hlt =>
          refine ⟨hm, hlt, ?_⟩
          intro i hi
          rw [setOctet_data]
          by_cases hij : i = j
          · subst hij
            exact Buf.set8_same _
          · rw [Buf.set8_of_ne _ hij]
            exact hdata i (by omega)
      · next hge =>
          refine ⟨m, hm, arrives_copied ?_ (setLen_len _)⟩
          intro i hi
          rw [setLen_data]
          exact hdata i (by omega)
  | hook n d =>
      cases yes with
      | true => trivial
      | false => exact h
  | dest n d =>
      obtain ⟨m, hm, harr⟩ := h
      dsimp only [Mem.access]
      split
      · next hall => exact ⟨⟨m, hm, harr⟩, harr.dst ▸ hall⟩
      · next hone =>
          split
          · exact ⟨⟨m, hm, harr⟩, harr.dst, by omega⟩
          · trivial
  | bcast n d p =>
      cases p with
      | zero => trivial
      | succ p =>
          rw [Mem.access]
          split
          · exact h
          · exact h
  | copyLen n d p n0 =>
      have hne : n ≠ n0 := by
        rintro rfl
        exact (List.nodup_cons.mp hnodup).1 List.mem_cons_self
      have hb : s.Broadcast d n := h
      show (Mem.setLen s n0 (s.node n).len).Broadcast d n ∧ _
      refine ⟨hb.frame (List.prefix_refl _) (setLen_of_ne hne), ?_, setLen_len _, Nat.zero_le _, ?_⟩
      · rw [Mem.access, setLen_of_ne hne]
      · intro i hi
        exact absurd hi (Nat.not_lt_zero i)
  | copyNode n d p n0 len j =>
      have hne : n ≠ n0 := by
        rintro rfl
        exact (List.nodup_cons.mp hnodup).1 List.mem_cons_self
      obtain ⟨hb, hlen, hlen0, hj, hdata⟩ := h
      rw [Mem.access]
      split
      · next hlt =>
          refine ⟨hb.frame (List.prefix_refl _) (setOctet_of_ne hne _), ?_, ?_, hlt, ?_⟩
          · rw [setOctet_of_ne hne]
            exact hlen
          · rw [setOctet_len]
            exact hlen0
          · intro i hi
            rw [setOctet_data, setOctet_of_ne hne]
            by_cases hij : i = j
            · subst hij
              exact Buf.set8_same _
            · rw [Buf.set8_of_ne _ hij]
              exact hdata i (by omega)
      · next hge =>
          refine ⟨hb, ?_⟩
          rw [BufNode.octets, BufNode.octets, hlen0, hlen]
          exact Buf.take_congr fun i hi => hdata i (by omega)
  | readLen p n => rfl
  | inHook p n len =>
      cases yes with
      | true => trivial
      | false => exact h
  | mbufs p n len =>
      cases yes with
      | true => exact ⟨h, Nat.zero_le _, rfl⟩
      | false => trivial
  | read p n len acc =>
      obtain ⟨hlen, hle, hacc⟩ := h
      rw [Mem.access]
      split
      · next hlt =>
          refine ⟨hlen, by rw [List.length_append]; exact hlt, ?_⟩
          rw [List.length_append, List.length_singleton, Buf.take, List.range_succ, List.map_append]
          exact congrArg (· ++ [(s.node n).data acc.length]) hacc
      · trivial

/-- What is known behind a call. -/
theorem knows_resume (h : k.Knows s) (x : Nat) : (k.resume x).Knows s := by
  cases k with
  | putGet m d =>
      rw [RingCall.resume]
      split
      · trivial
      · exact ⟨h, Nat.zero_le _, fun i hi => absurd hi (Nat.not_lt_zero i)⟩
  | xmitPut n d p =>
      rw [RingCall.resume]
      split <;> trivial
  | bcastGet n d p =>
      rw [RingCall.resume]
      split
      · trivial
      · exact h
  | bcastPut n d p n0 =>
      rw [RingCall.resume]
      split
      · exact h.1
      · exact h.1
  | bcastBack n d p n0 => exact h
  | readGet p =>
      rw [RingCall.resume]
      split <;> trivial
  | resetGet p =>
      rw [RingCall.resume]
      split <;> trivial
  | drop | readPut | resetPut => trivial

end

end VxWorks.Drv.Bp
