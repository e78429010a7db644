import VxWorks.Netinet.Membership

/-!
# Joining a group and leaving it again (ip_output.c)

`IP_ADD_MEMBERSHIP` without an interface takes the interface of the route to the group, and
`IP_DROP_MEMBERSHIP` without an interface looks for a membership on no interface, which there
is not. With an interface the two find the same one, and leaving undoes what joining did: the
socket has the memberships it had, and every group has the count and the blocks it had.

The count of a socket's memberships has 16 bits. Where it comes round to 0 and the other
options are at their defaults they are thrown away, with the memberships in them.
-/

namespace VxWorks.Netinet

open VxWorks.Lib

/-- The memberships of a socket's block. -/
def memberships (s : MembState) (p : Nat) : List Nat := ((s.moptions p).map (·.pInmMblk)).getD []

/-- The count and the blocks of a group, if the interface is in it. -/
def groupAt (s : Mcast) (addr ifp : UInt32) : Option (UInt32 × List Nat) :=
  (mcastHashTblLookup s addr ifp).1.map fun i => ((s.inm i).refcount, (s.inm i).pcbs)

/-- The socket's memberships and all groups are as they were. -/
structure Restored (s s' : MembState) (p : Nat) : Prop where
  own : memberships s' p = memberships s p
  groups : ∀ addr ifp, groupAt s'.mcast addr ifp = groupAt s.mcast addr ifp

/-- The table is one, the socket's entries are in use, and options at their defaults have no
memberships in them. -/
structure Unspoilt (s : MembState) (p : Nat) : Prop where
  table : GroupTable s.mcast
  own : ∀ i ∈ memberships s p, s.mcast.live i
  default : ∀ imo, s.moptions p = some imo → imo.isDefault = true → imo.pInmMblk = []

/-- The options with one more membership, and with one less. -/
def Moptions.joined (imo : Moptions) (i : Nat) : Moptions :=
  { imo with pInmMblk := imo.pInmMblk ++ [i], numMemberships := imo.numMemberships + 1 }

def Moptions.left (imo : Moptions) (i : Nat) : Moptions :=
  { imo with pInmMblk := imo.pInmMblk.erase i, numMemberships := imo.numMemberships - 1 }

/-- One more membership, and the options look as if they were at their defaults. -/
def ComesRound (s : MembState) (p : Nat) : Prop :=
  ∃ imo, s.moptions p = some imo ∧
    ({ imo with numMemberships := imo.numMemberships + 1 } : Moptions).isDefault = true

section

variable {s s' : Mcast}

/-- What a group has does not depend on the order in its chain. -/
theorem groupAt_congr (ht : GroupTable s) (ht' : GroupTable s') (hlive : s'.live = s.live)
    (hinm : ∀ j, s.live j → s'.inm j = s.inm j) (addr ifp : UInt32) :
    groupAt s' addr ifp = groupAt s addr ifp := by
  unfold groupAt
  cases hfound : (mcastHashTblLookup s addr ifp).1 with
  | none =>
      cases hfound' : (mcastHashTblLookup s' addr ifp).1 with
      | none => rfl
      | some j =>
          obtain ⟨hj, hkey⟩ := mcastHashTblLookup_some ht' hfound'
          rw [hlive] at hj
          rw [hinm j hj] at hkey
          exact absurd hkey (mcastHashTblLookup_none ht hfound j hj)
  | some j =>
      obtain ⟨hj, rfl, rfl⟩ := mcastHashTblLookup_some ht hfound
      have hj' : s'.live j := by rwa [hlive]
      have hfound' := (mcastHashTblLookup_live ht' hj').1
      rw [hinm j hj] at hfound'
      rw [hfound', Option.map_some, Option.map_some, hinm j hj]

/-- Joining reports success only for a group that is new to the interface. -/
theorem freshJoin_of_inAddmulti {net : MembNet} {addr ifp : UInt32} {pcb : Option Nat} {i : Nat}
    (ht : GroupTable s) (h : inAddmulti net s addr ifp pcb = (some i, s')) :
    FreshJoin net s addr ifp pcb := by
  unfold inAddmulti at h
  split at h
  · cases h
  · next s₁ hnone =>
      have habsent := mcastHashTblLookup_none ht (congrArg Prod.fst hnone)
      refine ⟨fun b j hj => habsent j ((ht.filed.mem b j).mp hj).1, ?_⟩
      intro hpcb _ hioctl
      obtain ⟨p, rfl⟩ := Option.isSome_iff_exists.mp hpcb
      split at h
      · cases h
      · rw [if_pos hioctl] at h
        by_contra hno
        dsimp only at h
        rw [linkPcb, if_neg hno] at h
        cases h

end

section

variable {s : MembState} {net net' : MembNet} {p : Nat} {mreq : IpMreq}

theorem ownMoptions_some {imo : Moptions} (h : ownMoptions net s p = some imo) :
    s.moptions p = some imo ∨ s.moptions p = none ∧ imo = moptionsDefault := by
  rw [ownMoptions] at h
  split at h
  · next hnone => exact .inr ⟨Option.isNone_iff_eq_none.mp hnone.1, (Option.some.inj h).symm⟩
  · exact .inl h

/-- What a join that succeeded did. -/
theorem addMembership_ok
    (h : (ipSetmoptions net s p (.addMembership (some mreq))).1 = none) :
    ∃ imo addr ifp i mcast, ownMoptions net s p = some imo ∧
      addTarget net (some mreq) = .ok (addr, ifp) ∧ ownEntry s.mcast imo addr (some ifp) = none ∧
      inAddmulti net s.mcast addr ifp (some p) = (some i, mcast) ∧
      (ipSetmoptions net s p (.addMembership (some mreq))).2.mcast = mcast ∧
      (ipSetmoptions net s p (.addMembership (some mreq))).2.moptions p =
        if (imo.joined i).isDefault then none else some (imo.joined i) := by
  unfold ipSetmoptions at h ⊢
  split at h
  · cases h
  · next imo himo =>
      rw [setMoption] at h ⊢
      cases htarget : addTarget net (some mreq) with
      | error e =>
          rw [htarget] at h
          cases h
      | ok target =>
          obtain ⟨addr, ifp⟩ := target
          rw [htarget] at h
          dsimp only at h ⊢
          cases hown : ownEntry s.mcast imo addr (some ifp) with
          | some j =>
              rw [hown, Option.isSome_some, if_pos rfl] at h
              cases h
          | none =>
              rw [hown] at h
              cases hadd : inAddmulti net s.mcast addr ifp (some p) with
              | mk r mcast =>
                  rw [hadd] at h
                  cases r with
                  | none => cases h
                  | some i =>
                      exact ⟨imo, addr, ifp, i, mcast, himo, rfl, hown, hadd, rfl,
                        Function.update_self ..⟩

/-- What leaving does where it goes as it should. -/
theorem dropMembership_ok {imo : Moptions} {addr ifp : UInt32} {i : Nat}
    (himo : s.moptions p = some imo) (htarget : dropTarget net (some mreq) = .ok (addr, some ifp))
    (hown : ownEntry s.mcast imo addr (some ifp) = some i) :
    (ipSetmoptions net s p (.dropMembership (some mreq))).1 = none ∧
      (ipSetmoptions net s p (.dropMembership (some mreq))).2.mcast = inDelmulti s.mcast i p ∧
      (ipSetmoptions net s p (.dropMembership (some mreq))).2.moptions p =
        if (imo.left i).isDefault then none else some (imo.left i) := by
  have hkept : ownMoptions net s p = some imo := by
    rw [ownMoptions, himo, if_neg (by simp)]
  have hswitch : setMoption net s.mcast s.held p imo (.dropMembership (some mreq)) =
      (none, imo.left i, inDelmulti s.mcast i p,
        s.held.erase ⟨some p, (s.mcast.inm i).addr, (s.mcast.inm i).ifp⟩) := by
    rw [setMoption, htarget]
    dsimp only
    rw [hown]
    rfl
  have hcall : ipSetmoptions net s p (.dropMembership (some mreq)) =
      (none, { s with
        mcast := inDelmulti s.mcast i p
        moptions := Function.update s.moptions p
          (if (imo.left i).isDefault then none else some (imo.left i))
        held := s.held.erase ⟨some p, (s.mcast.inm i).addr, (s.mcast.inm i).ifp⟩ }) := by
    unfold ipSetmoptions
    rw [hkept]
    dsimp only
    rw [hswitch]
  rw [hcall]
  exact ⟨rfl, rfl, Function.update_self ..⟩

/-- Leaving fails where there is no such membership. -/
theorem dropMembership_fails {addr : UInt32} {ifp : Option UInt32}
    (htarget : dropTarget net (some mreq) = .ok (addr, ifp))
    (hown : ∀ imo, ownMoptions net s p = some imo → ownEntry s.mcast imo addr ifp = none) :
    (ipSetmoptions net s p (.dropMembership (some mreq))).1 ≠ none := by
  unfold ipSetmoptions
  split
  · simp
  · next imo himo =>
      rw [setMoption, htarget]
      dsimp only
      rw [hown imo himo]
      simp

theorem dropTarget_any (hmulti : inMulticast mreq.multiaddr) (hany : mreq.interface = inaddrAny) :
    dropTarget net (some mreq) = .ok (mreq.multiaddr, none) := by
  rw [dropTarget, if_neg (not_not.mpr hmulti), if_pos hany]

theorem addTarget_ok {addr ifp : UInt32} (h : addTarget net (some mreq) = .ok (addr, ifp)) :
    addr = mreq.multiaddr ∧ inMulticast mreq.multiaddr ∧
      (mreq.interface ≠ inaddrAny → net.inaddrToIfp mreq.interface = some ifp) := by
  rw [addTarget] at h
  split at h
  · cases h
  · next hmulti =>
      dsimp only at h
      split at h
      · cases h
      · next ifp' hifp =>
          split at h
          · cases h
            refine ⟨rfl, not_not.mp hmulti, ?_⟩
            intro hexplicit
            rwa [if_neg hexplicit] at hifp
          · cases h

theorem dropTarget_explicit {ifp : UInt32} (hmulti : inMulticast mreq.multiaddr)
    (hexplicit : mreq.interface ≠ inaddrAny)
    (hifp : net.inaddrToIfp mreq.interface = some ifp) :
    dropTarget net (some mreq) = .ok (mreq.multiaddr, some ifp) := by
  rw [dropTarget, if_neg (not_not.mpr hmulti), if_neg hexplicit, hifp]

theorem ownEntry_none {m : Mcast} {imo : Moptions} {addr : UInt32} :
    ownEntry m imo addr none = none :=
  List.find?_eq_none.mpr fun _ _ => by simp

/-- The new membership is the only one that leaving can mean. -/
theorem ownEntry_joined {m m' : Mcast} {imo : Moptions} {addr ifp : UInt32} {i : Nat}
    (hlive : ∀ j ∈ imo.pInmMblk, m.live j) (hown : ownEntry m imo addr (some ifp) = none)
    (hkept : ∀ j, m.live j → m'.inm j = m.inm j) (haddr : (m'.inm i).addr = addr)
    (hifp : (m'.inm i).ifp = ifp) : ownEntry m' (imo.joined i) addr (some ifp) = some i := by
  rw [ownEntry] at hown ⊢
  have hnone : imo.pInmMblk.find? (fun j => some (m'.inm j).ifp = some ifp ∧
      (m'.inm j).addr = addr) = none := by
    refine List.find?_eq_none.mpr fun j hj => ?_
    rw [hkept j (hlive j hj)]
    exact List.find?_eq_none.mp hown j hj
  rw [Moptions.joined, List.find?_append, hnone, Option.none_or, List.find?_cons_of_pos]
  simp [haddr, hifp]

theorem left_joined {imo : Moptions} {i : Nat} (hi : i ∉ imo.pInmMblk) :
    (imo.joined i).left i = imo := by
  rw [Moptions.left, Moptions.joined]
  simp only [List.erase_append_right _ hi, List.erase_cons_head, List.append_nil,
    UInt16.add_sub_cancel]

/-- A new entry that is taken away again leaves all groups as they were. -/
theorem groupAt_restored {m m' : Mcast} {i : Nat} (ht : GroupTable m) (hdead : ¬ m.live i)
    (hlive : m'.live = Function.update m.live i true) (ht' : GroupTable m')
    (hkept : ∀ j, m.live j → m'.inm j = m.inm j) (hone : (m'.inm i).refcount = 1)
    (addr ifp : UInt32) : groupAt (inDelmulti m' i p) addr ifp = groupAt m addr ifp := by
  obtain ⟨hgone, hhash, hinm⟩ := inDelmulti_one hone p
  refine groupAt_congr ht (ht'.remove hgone hhash hinm) ?_ ?_ addr ifp
  · rw [hgone, hlive, Function.update_idem]
    exact Function.update_eq_self_iff.mpr (by simpa using hdead)
  · intro j hj
    rw [hinm j fun heq => hdead (heq ▸ hj)]
    exact hkept j hj

/-- A socket that has joined a group leaves it again with the same request, and everything is as it
was, just when the request says which interface, and the options are not thrown away because the
count has come round. -/
theorem join_leave_iff (hs : Unspoilt s p)
    (hadd : (ipSetmoptions net s p (.addMembership (some mreq))).1 = none)
    (hsame : net'.inaddrToIfp = net.inaddrToIfp) :
    ((ipSetmoptions net' (ipSetmoptions net s p (.addMembership (some mreq))).2 p
        (.dropMembership (some mreq))).1 = none ∧
      Restored s (ipSetmoptions net' (ipSetmoptions net s p (.addMembership (some mreq))).2 p
        (.dropMembership (some mreq))).2 p) ↔
      mreq.interface ≠ inaddrAny ∧ ¬ ComesRound s p := by
  obtain ⟨imo, addr, ifp, i, mcast, himo, htarget, hown, hjoin, hmcast, hmoptions⟩ :=
    addMembership_ok hadd
  obtain ⟨rfl, hmulti, hifp⟩ := addTarget_ok htarget
  revert hmcast hmoptions
  generalize (ipSetmoptions net s p (.addMembership (some mreq))).2 = s₁
  rintro rfl hmoptions
  by_cases hany : mreq.interface = inaddrAny
  · refine iff_of_false ?_ fun hcon => hcon.1 hany
    intro hcon
    exact dropMembership_fails (dropTarget_any hmulti hany) (fun _ _ => ownEntry_none) hcon.1
  have hdrop : dropTarget net' (some mreq) = .ok (mreq.multiaddr, some ifp) :=
    dropTarget_explicit hmulti hany (by rw [hsame]; exact hifp hany)
  have hlive : ∀ j ∈ imo.pInmMblk, s.mcast.live j := by
    rcases ownMoptions_some himo with hstored | ⟨-, rfl⟩
    · refine fun j hj => hs.own j ?_
      rwa [memberships, hstored]
    · exact fun j hj => absurd hj List.not_mem_nil
  rcases inAddmulti_fresh hs.table (freshJoin_of_inAddmulti hs.table hjoin) with
    ⟨m', hfailed, -⟩ | ⟨i', m', hjoined, hdead, hlive', htable, hkept, t, hnew⟩
  · rw [hjoin] at hfailed
    cases hfailed
  obtain ⟨rfl, rfl⟩ : i = i' ∧ s₁.mcast = m' := by
    rw [hjoin] at hjoined
    exact ⟨Option.some.inj (congrArg Prod.fst hjoined), congrArg Prod.snd hjoined⟩
  by_cases hround : (imo.joined i).isDefault = true
  · -- the options are gone, and with them the new membership
    rw [if_pos hround] at hmoptions
    rcases ownMoptions_some himo with hstored | ⟨-, rfl⟩
    · refine iff_of_false ?_ fun hcon => hcon.2 ⟨imo, hstored, hround⟩
      intro hcon
      refine dropMembership_fails hdrop ?_ hcon.1
      intro imo' himo'
      rcases ownMoptions_some himo' with hstored' | ⟨-, rfl⟩
      · rw [hmoptions] at hstored'
        cases hstored'
      · rfl
    · exact absurd hround (by simp [Moptions.isDefault, Moptions.joined, moptionsDefault])
  · rw [if_neg hround] at hmoptions
    have hfound : ownEntry s₁.mcast (imo.joined i) mreq.multiaddr (some ifp) = some i :=
      ownEntry_joined hlive hown hkept (by rw [hnew]) (by rw [hnew])
    obtain ⟨hok, hmcast, hback⟩ := dropMembership_ok hmoptions hdrop hfound
    rw [left_joined fun hi => hdead (hlive i hi)] at hback
    refine iff_of_true ⟨hok, ?_, ?_⟩ ⟨hany, ?_⟩
    · rw [memberships, memberships, hback]
      rcases ownMoptions_some himo with hstored | ⟨hnone, rfl⟩
      · rw [hstored]
        split
        · next hdefault => exact (hs.default imo hstored hdefault).symm
        · rfl
      · rw [hnone]
        rfl
    · intro addr ifp
      rw [hmcast]
      exact groupAt_restored hs.table hdead hlive' htable hkept (by rw [hnew]) addr ifp
    · rintro ⟨imo', hstored, hcon⟩
      rcases ownMoptions_some himo with hsame' | ⟨hnone, -⟩
      · obtain rfl : imo' = imo := Option.some.inj (hstored.symm.trans hsame')
        exact hround hcon
      · rw [hnone] at hstored
        cases hstored

end

/-- What holds in every run in which groups are only joined that are new to their interfaces. -/
theorem Kept.unspoilt {s : MembState} (h : Kept s) (p : Nat) : Unspoilt s p := by
  refine ⟨h.core.table, fun i hi => (((h.owns p).mem i).mp hi).1, ?_⟩
  intro imo himo hdefault
  have hcount := h.count p imo himo
  simp only [Moptions.isDefault, decide_eq_true_eq] at hdefault
  rw [hdefault.2.2.2] at hcount
  exact List.length_eq_zero_iff.mp hcount.symm

theorem join_leave_first :
    (ipSetmoptions (roomyNet 0) (ipSetmoptions (roomyNet 0) membInit 7
        (.addMembership (some ⟨0xe0000102, 0x0a000001⟩))).2 7
        (.dropMembership (some ⟨0xe0000102, 0x0a000001⟩))).1 = none ∧
      Restored membInit (ipSetmoptions (roomyNet 0) (ipSetmoptions (roomyNet 0) membInit 7
        (.addMembership (some ⟨0xe0000102, 0x0a000001⟩))).2 7
        (.dropMembership (some ⟨0xe0000102, 0x0a000001⟩))).2 7 := by
  refine (join_leave_iff (Kept.init.unspoilt 7) (by decide +kernel) rfl).mpr ⟨by decide, ?_⟩
  rintro ⟨imo, himo, -⟩
  cases himo

/-- Without an interface the socket stays in the group. -/
theorem join_leave_any :
    (ipSetmoptions (roomyNet 0) membInit 7 (.addMembership (some ⟨0xe0000102, 0⟩))).1 = none ∧
      (ipSetmoptions (roomyNet 0) (ipSetmoptions (roomyNet 0) membInit 7
        (.addMembership (some ⟨0xe0000102, 0⟩))).2 7
        (.dropMembership (some ⟨0xe0000102, 0⟩))).1 = some .eaddrnotavail := by
  constructor
  · decide +kernel
  · decide +kernel

end VxWorks.Netinet
