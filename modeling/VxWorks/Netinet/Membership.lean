import VxWorks.Netinet.IgmpTimers
import VxWorks.Netinet.InPcb

/-!
# Who is in which group (in.c, ip_output.c)

A socket joins a group through `ip_setmoptions`, which keeps the entries of the
groups it is in with the socket's options, and `in_addmulti`, which keeps the
table. An interface joins with `in_addmulti` alone and never leaves.

`held` is what the table is an account of: a membership is held from the call
that reported success until it is dropped or the socket is closed. The accounts
are right in every run in which `in_addmulti` only ever meets groups that are
new to their interface, since for a group that is there it counts the new
member, and then reports failure because it has no mBlk to return.
-/

namespace VxWorks.Netinet

open VxWorks.Lib

/-! ## The code -/

/-- `struct ip_moptions`; an mBlk in the chain `pInmMblk` is the one of its
entry. -/
structure Moptions where
  multicastIfp : Option UInt32
  multicastTtl : UInt8
  multicastLoop : UInt8
  numMemberships : UInt16
  pInmMblk : List Nat
deriving DecidableEq, Repr

/-- A membership; the holder is a socket's block, or none for an interface. -/
structure Membership where
  holder : Option Nat
  group : UInt32
  ifp : UInt32
deriving DecidableEq, Repr

structure MembState where
  mcast : Mcast
  moptions : Nat → Option Moptions
  held : List Membership

/-- What a call meets besides: routes and interfaces, whether the allocations
succeed and what memory an entry gets, whether the driver takes the address, and
the random delay. -/
structure MembNet extends McastNet where
  rtIfp : UInt32 → Option UInt32
  inaddrToIfp : UInt32 → Option UInt32
  imoMem : Bool
  inmMem : Option Nat
  pcbMblk : Bool
  ioctl : Bool
  random : Nat

/-- An assignment to fields of entry `i`. -/
def Mcast.set (s : Mcast) (i : Nat) (f : InMulti → InMulti) : Mcast :=
  { s with inm := Function.update s.inm i (f (s.inm i)) }

/-- `m_free` of an entry's mBlk. It is the only one that refers to the entry, so
the entry goes with it. -/
def Mcast.free (s : Mcast) (i : Nat) : Mcast := { s with live := Function.update s.live i false }

/-- The block, if there is one, is linked into the entry. -/
def linkPcb (net : MembNet) (s : Mcast) (i : Nat) : Option Nat → Option Mcast
  | none => some s
  | some p => if net.pcbMblk then some (s.set i fun e => { e with pcbs := p :: e.pcbs }) else none

/-- What is returned is the entry whose mBlk it is. The allocator never hands out
memory in use. -/
def inAddmulti (net : MembNet) (s : Mcast) (addr ifp : UInt32) (pcb : Option Nat) :
    Option Nat × Mcast :=
  match mcastHashTblLookup s addr ifp with
  | (some i, s) =>
      -- `pInmMblk` is still NULL
      let s := s.set i fun e => { e with refcount := e.refcount + 1 }
      (none, (linkPcb net s i pcb).getD s)
  | (none, s) =>
      match net.inmMem.filter (fun i => !s.live i) with
      | none => (none, s)
      | some i =>
          let s := mcastHashTblInsert { s with
            inm := Function.update s.inm i ⟨addr, ifp, 1, 0, []⟩
            live := Function.update s.live i true } i
          if net.ioctl then
            let s := igmpJoingroup net.toMcastNet net.random s i
            match linkPcb net s i pcb with
            | none => (none, s.free i)
            | some s => (some i, s)
          else (none, (mcastHashTblDelete s i).free i)

/-- For a socket's block; nothing calls it without one. -/
def inDelmulti (s : Mcast) (i p : Nat) : Mcast :=
  let s := s.set i fun e => { e with pcbs := e.pcbs.erase p, refcount := e.refcount - 1 }
  if (s.inm i).refcount = 0 then (mcastHashTblDelete s i).free i else s.free i

/-- The group and interface of an `ip_mreq`. -/
structure IpMreq where
  multiaddr : UInt32
  interface : UInt32
deriving DecidableEq, Repr

/-- The options, each with its argument where that has the right length. -/
inductive MoptName where
  | multicastIf (addr : Option UInt32)
  | multicastTtl (ttl : Option UInt8)
  | multicastLoop (loop : Option UInt8)
  | addMembership (mreq : Option IpMreq)
  | dropMembership (mreq : Option IpMreq)
  | other

/-- The checks of `IP_ADD_MEMBERSHIP` up to the interface. -/
def addTarget (net : MembNet) : Option IpMreq → Except Errno (UInt32 × UInt32)
  | none => .error .einval
  | some mreq =>
      if ¬ inMulticast mreq.multiaddr then .error .einval
      else
        let ifp :=
          if mreq.interface = inaddrAny then net.rtIfp mreq.multiaddr
          else net.inaddrToIfp mreq.interface
        match ifp with
        | none => .error .eaddrnotavail
        | some ifp => if net.multicast ifp then .ok (mreq.multiaddr, ifp) else .error .eaddrnotavail

/-- The checks of `IP_DROP_MEMBERSHIP`; without an interface address there is no
interface. -/
def dropTarget (net : MembNet) : Option IpMreq → Except Errno (UInt32 × Option UInt32)
  | none => .error .einval
  | some mreq =>
      if ¬ inMulticast mreq.multiaddr then .error .einval
      else if mreq.interface = inaddrAny then .ok (mreq.multiaddr, none)
      else match net.inaddrToIfp mreq.interface with
        | none => .error .eaddrnotavail
        | some ifp => .ok (mreq.multiaddr, some ifp)

/-- The search in the socket's own chain. -/
def ownEntry (s : Mcast) (imo : Moptions) (addr : UInt32) (ifp : Option UInt32) : Option Nat :=
  imo.pInmMblk.find? fun i => some (s.inm i).ifp = ifp ∧ (s.inm i).addr = addr

/-- The `switch` of `ip_setmoptions`. -/
def setMoption (net : MembNet) (s : Mcast) (held : List Membership) (p : Nat) (imo : Moptions) :
    MoptName → Option Errno × Moptions × Mcast × List Membership
  | .multicastIf none => (some .einval, imo, s, held)
  | .multicastIf (some addr) =>
      if addr = inaddrAny then (none, { imo with multicastIfp := none }, s, held)
      else match (net.inaddrToIfp addr).filter net.multicast with
        | none => (some .eaddrnotavail, imo, s, held)
        | some ifp => (none, { imo with multicastIfp := some ifp }, s, held)
  | .multicastTtl none => (some .einval, imo, s, held)
  | .multicastTtl (some ttl) => (none, { imo with multicastTtl := ttl }, s, held)
  | .multicastLoop loop =>
      match loop.filter (· ≤ 1) with
      | none => (some .einval, imo, s, held)
      | some loop => (none, { imo with multicastLoop := loop }, s, held)
  | .addMembership mreq =>
      match addTarget net mreq with
      | .error e => (some e, imo, s, held)
      | .ok (addr, ifp) =>
          if (ownEntry s imo addr (some ifp)).isSome then (some .eaddrinuse, imo, s, held)
          else match inAddmulti net s addr ifp (some p) with
            | (none, s) => (some .enobufs, imo, s, held)
            | (some i, s) =>
                (none,
                  { imo with
                    pInmMblk := imo.pInmMblk ++ [i]
                    numMemberships := imo.numMemberships + 1 },
                  s, ⟨some p, addr, ifp⟩ :: held)
  | .dropMembership mreq =>
      match dropTarget net mreq with
      | .error e => (some e, imo, s, held)
      | .ok (addr, ifp) =>
          match ownEntry s imo addr ifp with
          | none => (some .eaddrnotavail, imo, s, held)
          | some i =>
              (none,
                { imo with
                  pInmMblk := imo.pInmMblk.erase i
                  numMemberships := imo.numMemberships - 1 },
                inDelmulti s i p, held.erase ⟨some p, (s.inm i).addr, (s.inm i).ifp⟩)
  | .other => (some .eopnotsupp, imo, s, held)

def moptionsDefault : Moptions := ⟨none, 1, 1, 0, []⟩

/-- Whether the options are all at their defaults, so that they need not be
kept. -/
def Moptions.isDefault (imo : Moptions) : Bool :=
  imo.multicastIfp = none ∧ imo.multicastTtl = 1 ∧ imo.multicastLoop = 1 ∧ imo.numMemberships = 0

/-- The options the call goes on with, allocated now if there were none. -/
def ownMoptions (net : MembNet) (s : MembState) (p : Nat) : Option Moptions :=
  if (s.moptions p).isNone ∧ net.imoMem then some moptionsDefault else s.moptions p

def ipSetmoptions (net : MembNet) (s : MembState) (p : Nat) (opt : MoptName) :
    Option Errno × MembState :=
  match ownMoptions net s p with
  | none => (some .enobufs, s)
  | some imo =>
      match setMoption net s.mcast s.held p imo opt with
      | (error, imo, mcast, held) =>
          (error, { s with
            mcast := mcast
            moptions := Function.update s.moptions p (if imo.isDefault then none else some imo)
            held := held })

/-- `ip_freemoptions`, when the socket is closed. -/
def ipFreemoptions (s : MembState) (p : Nat) : MembState where
  mcast := (((s.moptions p).map (·.pInmMblk)).getD []).foldl (fun s i => inDelmulti s i p) s.mcast
  moptions := Function.update s.moptions p none
  held := s.held.filter fun m => m.holder ≠ some p

inductive MembEvent where
  | setsockopt (net : MembNet) (p : Nat) (opt : MoptName)
  | close (p : Nat)
  /-- an interface joins -/
  | ifJoin (net : MembNet) (addr ifp : UInt32)

def membStep (s : MembState) : MembEvent → MembState
  | .setsockopt net p opt => (ipSetmoptions net s p opt).2
  | .close p => ipFreemoptions s p
  | .ifJoin net addr ifp =>
      match inAddmulti net s.mcast addr ifp none with
      | (none, mcast) => { s with mcast := mcast }
      | (some _, mcast) => { s with mcast := mcast, held := ⟨none, addr, ifp⟩ :: s.held }

/-! ## The accounts -/

/-- The memberships held at an entry's group and interface. -/
def heldAt (held : List Membership) (e : InMulti) : List Membership :=
  held.filter fun m => m.group = e.addr ∧ m.ifp = e.ifp

/-- Every entry in the table counts and lists the members there are. -/
def Accounted (s : MembState) : Prop :=
  ∀ b, ∀ i ∈ s.mcast.hash b,
    (s.mcast.inm i).refcount.toNat = (heldAt s.held (s.mcast.inm i)).length ∧
      (s.mcast.inm i).pcbs.Perm ((heldAt s.held (s.mcast.inm i)).filterMap (·.holder))

/-- The table, the counts and the lists of blocks are as they were; chains may
be in another order. -/
def Untouched (s s' : Mcast) : Prop :=
  ∀ b, (s'.hash b).Perm (s.hash b) ∧
    ∀ i ∈ s.hash b, (s'.inm i).refcount = (s.inm i).refcount ∧ (s'.inm i).pcbs = (s.inm i).pcbs

/-- The group is new to the interface, and an mBlk for the block can be had if
the rest goes well. -/
def FreshJoin (net : MembNet) (s : Mcast) (addr ifp : UInt32) (pcb : Option Nat) : Prop :=
  (∀ b, ∀ i ∈ s.hash b, ¬ ((s.inm i).addr = addr ∧ (s.inm i).ifp = ifp)) ∧
    (pcb.isSome → net.inmMem.isSome → net.ioctl = true → net.pcbMblk = true)

/-- What the entries and the memberships have in common: each entry is one
membership, its only one. -/
structure Core (s : Mcast) (held : List Membership) : Prop where
  table : GroupTable s
  entry : ∀ i, s.live i → ∃ h, heldAt held (s.inm i) = [⟨h, (s.inm i).addr, (s.inm i).ifp⟩] ∧
    (s.inm i).refcount = 1 ∧ (s.inm i).pcbs = h.toList
  backed : ∀ m ∈ held, ∃ i, s.live i ∧ (s.inm i).addr = m.group ∧ (s.inm i).ifp = m.ifp

/-- `l` are the entries of the memberships of block `p`. -/
structure Owns (s : Mcast) (held : List Membership) (p : Nat) (l : List Nat) : Prop where
  nodup : l.Nodup
  mem : ∀ i, i ∈ l ↔ s.live i ∧ ⟨some p, (s.inm i).addr, (s.inm i).ifp⟩ ∈ held

section

variable {s s' : Mcast} {held : List Membership} {i p : Nat}

theorem set_inm_self {f : InMulti → InMulti} : (s.set i f).inm i = f (s.inm i) :=
  Function.update_self ..

theorem set_inm_of_ne {j : Nat} {f : InMulti → InMulti} (hj : j ≠ i) :
    (s.set i f).inm j = s.inm j := Function.update_of_ne hj ..

theorem mem_heldAt {m : Membership} {e : InMulti} :
    m ∈ heldAt held e ↔ m ∈ held ∧ m.group = e.addr ∧ m.ifp = e.ifp := by
  simp [heldAt]

theorem heldAt_erase (m : Membership) (e : InMulti) :
    heldAt (held.erase m) e = (heldAt held e).erase m := List.erase_filter.symm

/-- The table does not depend on what is in memory that is not in use. -/
theorem GroupTable.congr (ht : GroupTable s) (hlive : s'.live = s.live) (hhash : s'.hash = s.hash)
    (hinm : ∀ j, s.live j → (s'.inm j).addr = (s.inm j).addr ∧ (s'.inm j).ifp = (s.inm j).ifp) :
    GroupTable s' := by
  refine ⟨?_, ?_⟩
  · rw [hhash, hlive]
    refine ht.filed.congr (fun _ => Iff.rfl) ?_
    intro j hj
    unfold bucket
    rw [(hinm j hj).1, (hinm j hj).2]
  · intro a b ha hb haddr hifp
    rw [hlive] at ha hb
    rw [(hinm a ha).1, (hinm b hb).1] at haddr
    rw [(hinm a ha).2, (hinm b hb).2] at hifp
    exact ht.unique a b ha hb haddr hifp

theorem igmpJoingroup_same (net : McastNet) (random : Nat) (ht : GroupTable s) (hi : s.live i) :
    SameGroups s (igmpJoingroup net random s i) ∧
      ∀ j, j ≠ i → (igmpJoingroup net random s i).inm j = s.inm j := by
  rw [igmpJoingroup]
  split
  · exact ⟨sameGroups_setTimer s i 0, fun j hj => setTimer_timer_of_ne hj 0⟩
  · have heq := (igmpSendreport_spec net ht hi).2
    rw [heq]
    refine ⟨⟨?_, rfl, rfl⟩, fun j hj => Function.update_of_ne hj ..⟩
    intro j
    rw [Mcast.setTimer]
    rcases eq_or_ne j i with rfl | hj
    · simp
    · simp [hj]

theorem mcastHashTblLookup_absent {addr ifp : UInt32}
    (h : ∀ b, ∀ i ∈ s.hash b, ¬ ((s.inm i).addr = addr ∧ (s.inm i).ifp = ifp)) :
    mcastHashTblLookup s addr ifp = (none, s) := by
  have hfind : (s.hash (mcastHashInt addr ifp)).find?
      (fun i => (s.inm i).addr = addr ∧ (s.inm i).ifp = ifp) = none :=
    List.find?_eq_none.mpr fun i hi => by simpa using h _ i hi
  unfold mcastHashTblLookup
  dsimp only
  rw [hfind]

/-- A join of a group that is new either fails and has changed nothing in use,
or makes one entry. -/
theorem inAddmulti_fresh {net : MembNet} {addr ifp : UInt32} {pcb : Option Nat}
    (ht : GroupTable s) (hf : FreshJoin net s addr ifp pcb) :
    (∃ s', inAddmulti net s addr ifp pcb = (none, s') ∧ s'.live = s.live ∧ s'.hash = s.hash ∧
      ∀ j, s.live j → s'.inm j = s.inm j) ∨
    ∃ i s', inAddmulti net s addr ifp pcb = (some i, s') ∧ ¬ s.live i ∧
      s'.live = Function.update s.live i true ∧ GroupTable s' ∧
      (∀ j, s.live j → s'.inm j = s.inm j) ∧ ∃ t, s'.inm i = ⟨addr, ifp, 1, t, pcb.toList⟩ := by
  obtain ⟨habsent, hmblk⟩ := hf
  unfold inAddmulti
  rw [mcastHashTblLookup_absent habsent]
  dsimp only
  split
  · exact .inl ⟨s, rfl, rfl, rfl, fun _ _ => rfl⟩
  next i hmem =>
  obtain ⟨hmem, hdead⟩ := Option.filter_eq_some_iff.mp hmem
  have hdead : ¬ s.live i := by simpa using hdead
  have hout : ∀ b, i ∉ s.hash b := fun b hi => hdead ((ht.filed.mem b i).mp hi).1
  have hne : ∀ {j}, s.live j → j ≠ i := fun hj heq => hdead (heq ▸ hj)
  have htable := ht.insert hdead ⟨addr, ifp, 1, 0, []⟩ fun j hj =>
    habsent _ j ((ht.filed.mem _ j).mpr ⟨hj, rfl⟩)
  -- the new entry is in the table; from here on it is a state with that entry
  have hhash : chainRemove (mcastHashTblInsert { s with
      inm := Function.update s.inm i ⟨addr, ifp, 1, 0, []⟩
      live := Function.update s.live i true } i).hash i = s.hash := chainRemove_insert hout _
  have hnew : (mcastHashTblInsert { s with
      inm := Function.update s.inm i ⟨addr, ifp, 1, 0, []⟩
      live := Function.update s.live i true } i).inm =
      Function.update s.inm i ⟨addr, ifp, 1, 0, []⟩ := rfl
  have hlive : (mcastHashTblInsert { s with
      inm := Function.update s.inm i ⟨addr, ifp, 1, 0, []⟩
      live := Function.update s.live i true } i).live = Function.update s.live i true := rfl
  revert htable hhash hnew hlive
  generalize mcastHashTblInsert _ i = s₁
  intro htable hhash hnew hlive
  have hi : s₁.live i := by rw [hlive, Function.update_self]
  have hold : ∀ j, s.live j → s₁.inm j = s.inm j := by
    intro j hj
    rw [hnew, Function.update_of_ne (hne hj)]
  split
  · next hioctl =>
      obtain ⟨hsame, hother⟩ := igmpJoingroup_same net.toMcastNet net.random htable hi
      have htable' := igmpJoingroup_table net.toMcastNet net.random htable hi
      revert hsame hother htable'
      generalize igmpJoingroup net.toMcastNet net.random s₁ i = s₂
      intro hsame hother htable'
      have hself : s₂.inm i = ⟨addr, ifp, 1, (s₂.inm i).timer, []⟩ := by
        rw [hsame.inm i, hnew, Function.update_self]
      have hkeep : ∀ j, s.live j → s₂.inm j = s.inm j := fun j hj =>
        (hother j (hne hj)).trans (hold j hj)
      right
      cases pcb with
      | none => exact ⟨i, s₂, rfl, hdead, hsame.live.trans hlive, htable', hkeep, _, hself⟩
      | some p =>
          have hm : net.pcbMblk = true := hmblk rfl (by simp [hmem]) hioctl
          rw [linkPcb, if_pos hm]
          refine ⟨i, _, rfl, hdead, hsame.live.trans hlive, htable'.congr rfl rfl ?_,
            ?_, (s₂.inm i).timer, ?_⟩
          · intro j hj
            rcases eq_or_ne j i with rfl | hj
            · rw [set_inm_self]
              exact ⟨rfl, rfl⟩
            · rw [set_inm_of_ne hj]
              exact ⟨rfl, rfl⟩
          · intro j hj
            exact (Function.update_of_ne (hne hj) ..).trans (hkeep j hj)
          · rw [set_inm_self, hself]
            rfl
  · left
    refine ⟨_, rfl, ?_, hhash, hold⟩
    funext j
    show Function.update s₁.live i false j = s.live j
    rw [hlive]
    rcases eq_or_ne j i with rfl | hj
    · simpa using hdead
    · simp [hj]

/-- A join that failed. -/
theorem Core.keep (hc : Core s held) (hlive : s'.live = s.live) (hhash : s'.hash = s.hash)
    (hinm : ∀ j, s.live j → s'.inm j = s.inm j) : Core s' held := by
  refine ⟨hc.table.congr hlive hhash fun j hj => by rw [hinm j hj]; exact ⟨rfl, rfl⟩,
    fun j hj => ?_, fun m hm => ?_⟩
  · rw [hlive] at hj
    rw [hinm j hj]
    exact hc.entry j hj
  · obtain ⟨j, hj, hkey⟩ := hc.backed m hm
    refine ⟨j, by rwa [hlive], ?_⟩
    rwa [hinm j hj]

theorem Owns.keep {l : List Nat} (ho : Owns s held p l) (hlive : s'.live = s.live)
    (hinm : ∀ j, s.live j → s'.inm j = s.inm j) : Owns s' held p l := by
  refine ⟨ho.nodup, ?_⟩
  intro j
  rw [ho.mem, hlive]
  refine and_congr_right ?_
  intro hj
  rw [hinm j hj]

theorem untouched_keep (ht : GroupTable s) (hhash : s'.hash = s.hash)
    (hinm : ∀ j, s.live j → s'.inm j = s.inm j) : Untouched s s' := by
  intro b
  refine ⟨by rw [hhash], ?_⟩
  intro i hi
  rw [hinm i ((ht.filed.mem b i).mp hi).1]
  exact ⟨rfl, rfl⟩

/-- A join that made an entry. -/
theorem Core.add (hc : Core s held) {h : Option Nat} {addr ifp : UInt32} {t : Nat}
    (hdead : ¬ s.live i) (hlive : s'.live = Function.update s.live i true) (ht : GroupTable s')
    (hinm : ∀ j, s.live j → s'.inm j = s.inm j) (hnew : s'.inm i = ⟨addr, ifp, 1, t, h.toList⟩) :
    Core s' (⟨h, addr, ifp⟩ :: held) := by
  have hi : s'.live i := by rw [hlive, Function.update_self]
  have hcase : ∀ {j}, s'.live j → j ≠ i → s.live j := by
    intro j hj hne
    rwa [hlive, Function.update_of_ne hne] at hj
  have hlive' : ∀ {j}, s.live j → s'.live j := by
    intro j hj
    rw [hlive, Function.update_of_ne fun heq : j = i => hdead (heq ▸ hj)]
    exact hj
  -- nobody held the group before
  have hnone : ∀ m ∈ held, ¬ (m.group = addr ∧ m.ifp = ifp) := by
    rintro m hm ⟨rfl, rfl⟩
    obtain ⟨j, hj, hkey⟩ := hc.backed m hm
    rw [← hinm j hj] at hkey
    obtain rfl := ht.unique j i (hlive' hj) hi (by rw [hkey.1, hnew]) (by rw [hkey.2, hnew])
    exact hdead hj
  refine ⟨ht, ?_, ?_⟩
  · intro j hj
    rcases eq_or_ne j i with rfl | hne
    · refine ⟨h, ?_, by rw [hnew], by rw [hnew]⟩
      rw [hnew]
      rw [heldAt]
      rw [List.filter_cons_of_pos (by simp), List.filter_eq_nil_iff.mpr]
      exact fun m hm => by simpa using hnone m hm
    · have hj' := hcase hj hne
      obtain ⟨h', hat, hrest⟩ := hc.entry j hj'
      rw [hinm j hj']
      refine ⟨h', ?_, hrest⟩
      rw [heldAt] at hat ⊢
      rw [List.filter_cons_of_neg, hat]
      simp only [decide_eq_true_eq]
      rintro ⟨ha, hb⟩
      refine hne (ht.unique j i hj hi ?_ ?_)
      · rw [hinm j hj', hnew, ← ha]
      · rw [hinm j hj', hnew, ← hb]
  · refine List.forall_mem_cons.mpr ⟨⟨i, hi, by rw [hnew]; exact ⟨rfl, rfl⟩⟩, fun m hm => ?_⟩
    obtain ⟨j, hj, hkey⟩ := hc.backed m hm
    refine ⟨j, hlive' hj, ?_⟩
    rwa [hinm j hj]

/-- The new entry is its holder's. -/
theorem Owns.add {l : List Nat} (ho : Owns s held p l) (hc : Core s held) {h : Option Nat}
    {addr ifp : UInt32} {t : Nat} (hdead : ¬ s.live i)
    (hlive : s'.live = Function.update s.live i true) (ht : GroupTable s')
    (hinm : ∀ j, s.live j → s'.inm j = s.inm j) (hnew : s'.inm i = ⟨addr, ifp, 1, t, h.toList⟩) :
    Owns s' (⟨h, addr, ifp⟩ :: held) p (if h = some p then l ++ [i] else l) := by
  have hil : i ∉ l := fun hmem => hdead ((ho.mem i).mp hmem).1
  have hi : s'.live i := by rw [hlive, Function.update_self]
  -- an old entry is another group, so that the new membership is not at it
  have hold : ∀ j, j ≠ i → (s'.live j ∧
      ⟨some p, (s'.inm j).addr, (s'.inm j).ifp⟩ ∈ (⟨h, addr, ifp⟩ :: held : List Membership) ↔
        j ∈ l) := by
    intro j hj
    rw [ho.mem, hlive, Function.update_of_ne hj]
    refine and_congr_right ?_
    intro hlj
    rw [hinm j hlj, List.mem_cons, or_iff_right]
    intro heq
    obtain ⟨-, ha, hb⟩ := Membership.mk.inj heq
    refine hj (ht.unique j i ?_ hi ?_ ?_)
    · rwa [hlive, Function.update_of_ne hj]
    · rw [hinm j hlj, hnew, ha]
    · rw [hinm j hlj, hnew, hb]
  have hself : ⟨some p, addr, ifp⟩ ∈ (⟨h, addr, ifp⟩ :: held : List Membership) ↔ h = some p := by
    rw [List.mem_cons]
    constructor
    · rintro (heq | hmem)
      · exact (Membership.mk.inj heq).1.symm
      · obtain ⟨j, hj, ha, hb⟩ := hc.backed _ hmem
        have hji : j ≠ i := fun heq => hdead (heq ▸ hj)
        refine absurd (ht.unique j i ?_ hi ?_ ?_) hji
        · rwa [hlive, Function.update_of_ne hji]
        · rw [hinm j hj, hnew, ha]
        · rw [hinm j hj, hnew, hb]
    · intro heq
      rw [heq]
      exact .inl rfl
  split
  · next hp =>
      refine ⟨List.nodup_append.mpr ⟨ho.nodup, List.nodup_singleton i, ?_⟩, ?_⟩
      · intro a ha b hb heq
        obtain rfl : b = i := by simpa using hb
        exact hil (heq ▸ ha)
      · intro j
        rw [List.mem_append, List.mem_singleton]
        rcases eq_or_ne j i with rfl | hj
        · rw [hnew, hself]
          simp [hi, hp]
        · rw [or_iff_left hj, hold j hj]
  · next hp =>
      refine ⟨ho.nodup, ?_⟩
      intro j
      rcases eq_or_ne j i with rfl | hj
      · rw [hnew, hself]
        simp [hil, hp]
      · rw [hold j hj]

/-- An entry is taken out. -/
theorem GroupTable.remove (ht : GroupTable s) (hlive : s'.live = Function.update s.live i false)
    (hhash : s'.hash = chainRemove s.hash i) (hinm : ∀ j, j ≠ i → s'.inm j = s.inm j) :
    GroupTable s' := by
  have hlive : ∀ j, s'.live j = true ↔ s.live j ∧ j ≠ i := by
    intro j
    rw [hlive]
    rcases eq_or_ne j i with rfl | hj
    · simp
    · simp [hj]
  refine ⟨?_, ?_⟩
  · rw [hhash]
    refine (ht.filed.remove i).congr hlive ?_
    intro j hj
    unfold bucket
    rw [hinm j hj.2]
  · intro a b ha hb haddr hifp
    obtain ⟨ha, hai⟩ := (hlive a).mp ha
    obtain ⟨hb, hbi⟩ := (hlive b).mp hb
    rw [hinm a hai, hinm b hbi] at haddr hifp
    exact ht.unique a b ha hb haddr hifp

/-- The last member that goes takes the entry along. -/
theorem inDelmulti_one (hone : (s.inm i).refcount = 1) (p : Nat) :
    (inDelmulti s i p).live = Function.update s.live i false ∧
      (inDelmulti s i p).hash = chainRemove s.hash i ∧
      ∀ j, j ≠ i → (inDelmulti s i p).inm j = s.inm j := by
  have hzero : (s.inm i).refcount - 1 = 0 := by rw [hone]; rfl
  unfold inDelmulti
  dsimp only
  rw [set_inm_self, if_pos hzero]
  exact ⟨rfl, rfl, fun j hj => Function.update_of_ne hj ..⟩

/-- The one membership there is at an entry. -/
theorem Core.count_one (hc : Core s held) (hi : s.live i)
    (hm : ⟨some p, (s.inm i).addr, (s.inm i).ifp⟩ ∈ held) :
    heldAt held (s.inm i) = [⟨some p, (s.inm i).addr, (s.inm i).ifp⟩] ∧
      (s.inm i).refcount = 1 := by
  obtain ⟨h, hat, hone, -⟩ := hc.entry i hi
  have hmem := mem_heldAt.mpr ⟨hm, rfl, rfl⟩
  rw [hat] at hmem
  rw [hat, List.mem_singleton.mp hmem]
  exact ⟨rfl, hone⟩

theorem Core.drop (hc : Core s held) (hi : s.live i)
    (hm : ⟨some p, (s.inm i).addr, (s.inm i).ifp⟩ ∈ held) :
    Core (inDelmulti s i p) (held.erase ⟨some p, (s.inm i).addr, (s.inm i).ifp⟩) := by
  obtain ⟨hat, hone⟩ := hc.count_one hi hm
  obtain ⟨hlive, hhash, hinm⟩ := inDelmulti_one hone p
  have hcase : ∀ {j}, (inDelmulti s i p).live j → s.live j ∧ j ≠ i := by
    intro j hj
    rw [hlive] at hj
    rcases eq_or_ne j i with rfl | hji
    · exact absurd hj (by simp)
    · exact ⟨by simpa [hji] using hj, hji⟩
  refine ⟨hc.table.remove hlive hhash hinm, ?_, ?_⟩
  · intro j hj
    obtain ⟨hj, hji⟩ := hcase hj
    obtain ⟨h, hatj, hrest⟩ := hc.entry j hj
    rw [hinm j hji]
    refine ⟨h, ?_, hrest⟩
    -- the membership that goes was not at this entry
    have hnot : ¬ ((s.inm i).addr = (s.inm j).addr ∧ (s.inm i).ifp = (s.inm j).ifp) := fun heq =>
      hji (hc.table.unique j i hj hi heq.1.symm heq.2.symm)
    rw [heldAt_erase, List.erase_of_not_mem fun hmem => hnot (mem_heldAt.mp hmem).2, hatj]
  · intro m hmem
    obtain ⟨j, hj, hkey⟩ := hc.backed m (List.mem_of_mem_erase hmem)
    have hji : j ≠ i := by
      rintro rfl
      have hmj := mem_heldAt.mpr ⟨hmem, hkey.1.symm, hkey.2.symm⟩
      rw [heldAt_erase, hat, List.erase_cons_head] at hmj
      exact absurd hmj (by simp)
    refine ⟨j, ?_, ?_⟩
    · rw [hlive, Function.update_of_ne hji]
      exact hj
    · rwa [hinm j hji]

theorem Owns.drop {l : List Nat} {q : Nat} (hc : Core s held) (hi : s.live i)
    (hm : ⟨some p, (s.inm i).addr, (s.inm i).ifp⟩ ∈ held) (ho : Owns s held q l) :
    Owns (inDelmulti s i p) (held.erase ⟨some p, (s.inm i).addr, (s.inm i).ifp⟩) q (l.erase i) := by
  obtain ⟨hat, hone⟩ := hc.count_one hi hm
  obtain ⟨hlive, -, hinm⟩ := inDelmulti_one hone p
  refine ⟨ho.nodup.erase i, ?_⟩
  intro j
  rw [ho.nodup.mem_erase_iff, ho.mem, hlive]
  rcases eq_or_ne j i with rfl | hji
  · simp
  · rw [Function.update_of_ne hji, hinm j hji]
    refine ⟨fun h => ⟨h.2.1, ?_⟩, fun h => ⟨hji, h.1, List.mem_of_mem_erase h.2⟩⟩
    refine (List.mem_erase_of_ne fun heq => hji ?_).mpr h.2.2
    obtain ⟨-, ha, hb⟩ := Membership.mk.inj heq
    exact hc.table.unique j i h.2.1 hi ha hb

theorem Core.notMem_other {l : List Nat} {q : Nat} (hc : Core s held) (hi : s.live i)
    (hm : ⟨some p, (s.inm i).addr, (s.inm i).ifp⟩ ∈ held) (hq : q ≠ p) (ho : Owns s held q l) :
    i ∉ l := by
  intro hmem
  have hq' := mem_heldAt.mpr ⟨((ho.mem i).mp hmem).2, rfl, rfl⟩
  rw [(hc.count_one hi hm).1] at hq'
  exact hq (Option.some.inj (Membership.mk.inj (List.mem_singleton.mp hq')).1)

/-- All of a socket's memberships, when it is closed. -/
theorem Core.close {l : List Nat} (hc : Core s held) (ho : Owns s held p l) :
    Core (l.foldl (fun s i => inDelmulti s i p) s) (held.filter fun m => m.holder ≠ some p) ∧
      ∀ q l', q ≠ p → Owns s held q l' →
        Owns (l.foldl (fun s i => inDelmulti s i p) s) (held.filter fun m => m.holder ≠ some p) q
          l' := by
  induction l generalizing s held with
  | nil =>
      have hnone : held.filter (fun m => m.holder ≠ some p) = held := by
        refine List.filter_eq_self.mpr ?_
        intro m hm
        simp only [ne_eq, decide_eq_true_eq]
        intro hp
        obtain ⟨i, hi, ha, hb⟩ := hc.backed m hm
        refine absurd ((ho.mem i).mpr ⟨hi, ?_⟩) (by simp)
        rw [ha, hb, ← hp]
        exact hm
      rw [hnone]
      exact ⟨hc, fun q l' _ hq => hq⟩
  | cons i l ih =>
      obtain ⟨hi, hm⟩ := (ho.mem i).mp List.mem_cons_self
      have hfilter : (held.erase ⟨some p, (s.inm i).addr, (s.inm i).ifp⟩).filter
          (fun m => m.holder ≠ some p) = held.filter fun m => m.holder ≠ some p := by
        rw [← List.erase_filter]
        exact List.erase_of_not_mem (by simp)
      have ho' := Owns.drop hc hi hm ho
      rw [List.erase_cons_head] at ho'
      obtain ⟨hcore, howns⟩ := ih (hc.drop hi hm) ho'
      rw [hfilter] at hcore howns
      refine ⟨hcore, fun q l' hq hl' => howns q l' hq ?_⟩
      have hkeep := Owns.drop hc hi hm hl'
      rwa [List.erase_of_not_mem (hc.notMem_other hi hm hq hl')] at hkeep

/-- What a call for socket `p` leaves behind. -/
structure SocketKept (s : Mcast) (held : List Membership) (p : Nat) (imo : Moptions) (s' : Mcast)
    (held' : List Membership) (imo' : Moptions) : Prop where
  core : Core s' held'
  owns : Owns s' held' p imo'.pInmMblk
  count : imo'.numMemberships.toNat = imo'.pInmMblk.length
  others : ∀ q l, q ≠ p → Owns s held q l → Owns s' held' q l

theorem setMoption_kept (net : MembNet) {imo : Moptions} (opt : MoptName) (hc : Core s held)
    (ho : Owns s held p imo.pInmMblk) (hn : imo.numMemberships.toNat = imo.pInmMblk.length)
    (hf : ∀ mreq addr ifp, opt = .addMembership mreq → addTarget net mreq = .ok (addr, ifp) →
      ownEntry s imo addr (some ifp) = none →
        FreshJoin net s addr ifp (some p) ∧ imo.numMemberships ≠ 65535) :
    SocketKept s held p imo (setMoption net s held p imo opt).2.2.1
      (setMoption net s held p imo opt).2.2.2 (setMoption net s held p imo opt).2.1 := by
  -- where nothing but the other options changes
  have hrest : ∀ imo' : Moptions, imo'.pInmMblk = imo.pInmMblk →
      imo'.numMemberships = imo.numMemberships → SocketKept s held p imo s held imo' := by
    intro imo' hl hm
    exact ⟨hc, by rwa [hl], by rw [hl, hm, hn], fun q l _ hq => hq⟩
  have hsame := hrest imo rfl rfl
  cases opt with
  | multicastIf addr =>
      cases addr with
      | none => exact hsame
      | some addr =>
          rw [setMoption]
          split
          · exact hrest _ rfl rfl
          split
          · exact hsame
          · exact hrest _ rfl rfl
  | multicastTtl ttl =>
      cases ttl with
      | none => exact hsame
      | some ttl => exact hrest _ rfl rfl
  | multicastLoop loop =>
      rw [setMoption]
      split
      · exact hsame
      · exact hrest _ rfl rfl
  | addMembership mreq =>
      rw [setMoption]
      split
      · exact hsame
      next addr ifp htarget =>
      split
      · exact hsame
      next hown =>
      obtain ⟨hfresh, hroom⟩ := hf mreq addr ifp rfl htarget (by simpa using hown)
      rcases inAddmulti_fresh hc.table hfresh with
        ⟨s', heq, hlive, hhash, hinm⟩ | ⟨i, s', heq, hdead, hlive, ht, hinm, t, hnew⟩
      · rw [heq]
        exact ⟨hc.keep hlive hhash hinm, ho.keep hlive hinm, hn, fun q l _ hq => hq.keep hlive hinm⟩
      · rw [heq]
        have howns := ho.add hc hdead hlive ht hinm hnew
        rw [if_pos rfl] at howns
        refine ⟨hc.add hdead hlive ht hinm hnew, howns, ?_, ?_⟩
        · have hlt : imo.numMemberships.toNat < 65535 := by
            have hle := imo.numMemberships.toNat_lt
            have hne : imo.numMemberships.toNat ≠ 65535 := fun h =>
              hroom (UInt16.toNat_inj.mp h)
            omega
          rw [List.length_append, List.length_singleton, ← hn, UInt16.toNat_add]
          exact Nat.mod_eq_of_lt (show imo.numMemberships.toNat + 1 < 65536 by omega)
        · intro q l hq hl
          have hother := hl.add hc hdead hlive ht hinm hnew
          rwa [if_neg fun heq => hq (Option.some.inj heq).symm] at hother
  | dropMembership mreq =>
      rw [setMoption]
      split
      · exact hsame
      next addr ifp htarget =>
      split
      · exact hsame
      · next i hown =>
          have hmem := List.mem_of_find?_eq_some hown
          obtain ⟨hi, hm⟩ := (ho.mem i).mp hmem
          refine ⟨hc.drop hi hm, Owns.drop hc hi hm ho, ?_, ?_⟩
          · have hpos := List.length_pos_of_mem hmem
            rw [List.length_erase_of_mem hmem, ← hn]
            rw [← hn] at hpos
            exact UInt16.toNat_sub_of_le _ _ (UInt16.le_iff_toNat_le.mpr hpos)
          · intro q l hq hl
            have hkeep := Owns.drop hc hi hm hl
            rwa [List.erase_of_not_mem (hc.notMem_other hi hm hq hl)] at hkeep
  | other => exact hsame

end

/-! ## Every run -/

/-- The call of `in_addmulti` an event makes, if it makes one: its surroundings,
group, interface and block. -/
def addCall (s : MembState) : MembEvent → Option (MembNet × UInt32 × UInt32 × Option Nat)
  | .setsockopt net p (.addMembership mreq) =>
      match ownMoptions net s p, addTarget net mreq with
      | some imo, .ok (addr, ifp) =>
          if (ownEntry s.mcast imo addr (some ifp)).isSome then none
          else some (net, addr, ifp, some p)
      | _, _ => none
  | .ifJoin net addr ifp => some (net, addr, ifp, none)
  | _ => none

/-- `in_addmulti` is called for a group that is new to its interface, with an
mBlk for the block when it comes to that, and not by a socket whose count of
memberships is at its end. -/
structure JoinsFresh (s : MembState) (e : MembEvent) : Prop where
  fresh : ∀ net addr ifp pcb, addCall s e = some (net, addr, ifp, pcb) →
    FreshJoin net s.mcast addr ifp pcb
  room : ∀ net addr ifp p, addCall s e = some (net, addr, ifp, some p) →
    ∀ imo, s.moptions p = some imo → imo.numMemberships ≠ 65535

structure Kept (s : MembState) : Prop where
  core : Core s.mcast s.held
  owns : ∀ p, Owns s.mcast s.held p (((s.moptions p).map (·.pInmMblk)).getD [])
  count : ∀ p imo, s.moptions p = some imo → imo.numMemberships.toNat = imo.pInmMblk.length

section

variable {s : MembState}

theorem Kept.accounted (h : Kept s) : Accounted s := by
  intro b i hi
  obtain ⟨holder, hat, hone, hpcbs⟩ := h.core.entry i ((h.core.table.filed.mem b i).mp hi).1
  rw [hat, hone, hpcbs]
  cases holder with
  | none => exact ⟨rfl, List.Perm.refl _⟩
  | some p => exact ⟨rfl, List.Perm.refl _⟩

theorem Kept.setsockopt (h : Kept s) (net : MembNet) (p : Nat) (opt : MoptName)
    (hg : JoinsFresh s (.setsockopt net p opt)) : Kept (ipSetmoptions net s p opt).2 := by
  unfold ipSetmoptions
  split
  · exact h
  next imo himo =>
  -- options that are allocated now have no memberships, and there were none
  have hlist : imo.pInmMblk = ((s.moptions p).map (·.pInmMblk)).getD [] ∧
      imo.numMemberships.toNat = imo.pInmMblk.length ∧
      (imo.numMemberships = 65535 → s.moptions p = some imo) := by
    rw [ownMoptions] at himo
    split at himo
    · next hnone =>
        obtain rfl : moptionsDefault = imo := by simpa using himo
        rw [Option.isNone_iff_eq_none.mp hnone.1]
        exact ⟨rfl, rfl, fun h => absurd h (by decide)⟩
    · rw [himo]
      exact ⟨rfl, h.count p imo himo, fun _ => rfl⟩
  have hkept := setMoption_kept net opt h.core (hlist.1 ▸ h.owns p) hlist.2.1 ?_
  · dsimp only
    refine ⟨hkept.core, ?_, ?_⟩
    · intro q
      dsimp only
      rcases eq_or_ne q p with rfl | hq
      · rw [Function.update_self]
        split
        · next hdef =>
            -- they are thrown away only when there are no memberships in them
            simp only [Moptions.isDefault, decide_eq_true_eq] at hdef
            have hzero := hkept.count
            rw [hdef.2.2.2] at hzero
            have hnil := List.length_eq_zero_iff.mp hzero.symm
            have howns := hkept.owns
            rwa [hnil] at howns
        · exact hkept.owns
      · rw [Function.update_of_ne hq]
        exact hkept.others q _ hq (h.owns q)
    · intro q imo' himo'
      dsimp only at himo'
      rcases eq_or_ne q p with rfl | hq
      · rw [Function.update_self] at himo'
        split at himo'
        · exact absurd himo' (by simp)
        · obtain rfl := Option.some.inj himo'
          exact hkept.count
      · rw [Function.update_of_ne hq] at himo'
        exact h.count q imo' himo'
  · rintro mreq addr ifp rfl htarget hown
    have hcall : addCall s (.setsockopt net p (.addMembership mreq)) =
        some (net, addr, ifp, some p) := by
      unfold addCall
      simp [himo, htarget, hown]
    exact ⟨hg.fresh net addr ifp (some p) hcall, fun hfull =>
      hg.room net addr ifp p hcall imo (hlist.2.2 hfull) hfull⟩

theorem Kept.close (h : Kept s) (p : Nat) : Kept (ipFreemoptions s p) := by
  obtain ⟨hcore, howns⟩ := h.core.close (h.owns p)
  refine ⟨hcore, ?_, ?_⟩
  · intro q
    show Owns _ _ q (((Function.update s.moptions p none q).map (·.pInmMblk)).getD [])
    rcases eq_or_ne q p with rfl | hq
    · rw [Function.update_self]
      refine ⟨List.nodup_nil, ?_⟩
      intro i
      simp [ipFreemoptions]
    · rw [Function.update_of_ne hq]
      exact howns q _ hq (h.owns q)
  · intro q imo himo
    replace himo : Function.update s.moptions p none q = some imo := himo
    rcases eq_or_ne q p with rfl | hq
    · rw [Function.update_self] at himo
      exact absurd himo (by simp)
    · rw [Function.update_of_ne hq] at himo
      exact h.count q imo himo

theorem Kept.ifJoin (h : Kept s) (net : MembNet) (addr ifp : UInt32)
    (hg : FreshJoin net s.mcast addr ifp none) : Kept (membStep s (.ifJoin net addr ifp)) := by
  rw [membStep]
  rcases inAddmulti_fresh h.core.table hg with
    ⟨s', heq, hlive, hhash, hinm⟩ | ⟨i, s', heq, hdead, hlive, ht, hinm, t, hnew⟩
  · rw [heq]
    exact ⟨h.core.keep hlive hhash hinm, fun p => (h.owns p).keep hlive hinm, h.count⟩
  · rw [heq]
    refine ⟨h.core.add hdead hlive ht hinm hnew, ?_, h.count⟩
    intro p
    have howns := (h.owns p).add h.core hdead hlive ht hinm hnew
    rwa [if_neg (by simp)] at howns

theorem Kept.step (h : Kept s) (e : MembEvent) (hg : JoinsFresh s e) : Kept (membStep s e) := by
  cases e with
  | setsockopt net p opt => exact h.setsockopt net p opt hg
  | close p => exact h.close p
  | ifJoin net addr ifp => exact h.ifJoin net addr ifp (hg.fresh net addr ifp none rfl)

end

/-- No socket, no group. -/
def membInit : MembState := ⟨mcastInit, fun _ => none, []⟩

theorem Kept.init : Kept membInit := by
  have hdead : ∀ i, ¬ mcastInit.live i := by simp [mcastInit]
  refine ⟨⟨mcastInit_table, fun i hi => absurd hi (hdead i),
      fun m hm => absurd hm (by simp [membInit])⟩,
    fun p => ⟨List.nodup_nil, ?_⟩, fun p imo himo => absurd himo (by simp [membInit])⟩
  intro i
  simp [membInit]

/-- In every run in which `in_addmulti` only meets groups that are new to their
interface (and an mBlk for the block when it needs one), every entry in the table
counts and lists exactly the memberships held, and a call of `in_addmulti` that
reports failure has left the table, the counts and the lists alone. -/
theorem memberships_accounted (es : List MembEvent)
    (hg : Guarded membStep JoinsFresh membInit es) :
    Always membStep Accounted membInit es ∧
      ∀ pre e, pre ++ [e] <+: es → ∀ net addr ifp pcb,
        addCall (run membStep membInit pre) e = some (net, addr, ifp, pcb) →
        (inAddmulti net (run membStep membInit pre).mcast addr ifp pcb).1 = none →
        Untouched (run membStep membInit pre).mcast
          (inAddmulti net (run membStep membInit pre).mcast addr ifp pcb).2 := by
  have hall : Always membStep Kept membInit es :=
    always_of_guarded Kept .init (fun _ e h hg => h.step e hg) hg
  refine ⟨fun pre hpre => (hall pre hpre).accounted, ?_⟩
  intro pre e hpre net addr ifp pcb hcall hnone
  have hkept := hall pre ((List.prefix_append pre [e]).trans hpre)
  rcases inAddmulti_fresh hkept.core.table ((hg pre e hpre).fresh net addr ifp pcb hcall) with
    ⟨s', heq, -, hhash, hinm⟩ | ⟨i, s', heq, -⟩
  · rw [heq]
    exact untouched_keep hkept.core.table hhash hinm
  · rw [heq] at hnone
    exact absurd hnone (by simp)

/-- One interface, memory at `i` and enough of everything else. -/
def roomyNet (i : Nat) : MembNet where
  toMcastNet := wellNet
  rtIfp := fun _ => some 0x2000
  inaddrToIfp := fun _ => some 0x2000
  imoMem := true
  inmMem := some i
  pcbMblk := true
  ioctl := true
  random := 0

/-- A socket joins 224.0.1.2, leaves it and is closed. -/
def joinAndLeave : List MembEvent :=
  [.setsockopt (roomyNet 0) 7 (.addMembership (some ⟨0xe0000102, 0⟩)),
    .setsockopt (roomyNet 0) 7 (.dropMembership (some ⟨0xe0000102, 0x0a000001⟩)), .close 7]

theorem memberships_accounted_leave : Always membStep Accounted membInit joinAndLeave := by
  refine (memberships_accounted joinAndLeave ?_).1
  refine guarded_cons ⟨?_, ?_⟩ (guarded_cons
    ⟨fun _ _ _ _ h => (nomatch h), fun _ _ _ _ h => (nomatch h)⟩
    (guarded_cons ⟨fun _ _ _ _ h => (nomatch h), fun _ _ _ _ h => (nomatch h)⟩ guarded_nil))
  · intro net addr ifp pcb hcall
    obtain ⟨rfl, -⟩ : roomyNet 0 = net ∧ _ := by simpa using Prod.mk.inj (Option.some.inj hcall)
    exact ⟨fun b i hi => absurd hi (by simp [membInit, mcastInit]), fun _ _ _ => rfl⟩
  · intro net addr ifp p _ imo himo
    exact absurd himo (by simp [membInit])

/-- Two sockets join 224.0.1.2 on the same interface. -/
def joinTwice : List MembEvent :=
  [.setsockopt (roomyNet 0) 7 (.addMembership (some ⟨0xe0000102, 0⟩)),
    .setsockopt (roomyNet 1) 8 (.addMembership (some ⟨0xe0000102, 0⟩))]

/-- The second is refused, and counted. -/
theorem memberships_leaked : ¬ ∀ es : List MembEvent, Always membStep Accounted membInit es := by
  intro h
  have hend := h joinTwice joinTwice (List.prefix_refl _) (mcastHash 0xe0000102 0x2000) 0
    (by decide +kernel)
  exact absurd hend.1 (by decide +kernel)

end VxWorks.Netinet
