import VxWorks.Netinet.IgmpTimers
import VxWorks.Netinet.InPcb

/-!
# Membership reports on a LAN (igmp.c)

Hosts on one LAN, each with its own table of groups. A query is heard by all of them and
starts their timers; a report is heard by all the others, and whoever hears a report of its
own group stops its timer and is silent. So the LAN carries one report for each group and
not one for each host: whatever the hosts do, a group is reported at most once for every
query, and twice for every time a host joins it (`reports_bounded`). And it is reported:
when a member's timer has run out after a query, and there was an mbuf for its report, somebody
has sent one, and only one (`query_answered`).

A report is heard before anything else happens; nothing is said about when the timers of
the hosts run, nor about what else they do.
-/

namespace VxWorks.Netinet

open VxWorks.Lib

/-! ## What one tick sends -/

section

variable {net : McastNet} {s : Mcast} {i : Nat}

theorem fasttimoChain_sends (net : McastNet) (ht : GroupTable s) (b : Nat) :
    ∃ l : List Nat, (fasttimoChain net s b).out = s.out ++ (l.filter (sends net s)).map (report s) ∧
      l.Nodup ∧ ∀ i, i ∈ l ↔ s.live i ∧ bucket s i = b ∧ (s.inm i).timer ≠ 0 ∧
        ((fasttimoChain net s b).inm i).timer = 0 := by
  have htracks := fasttimoChain_tracks net ht b
  have hnodup : (clockOf s b).chain.Nodup := ht.filed.nodup b
  obtain ⟨l, hrang, hl, hmem⟩ := @Clock.tick_rang _ _ (looks net s) _ hnodup
  refine ⟨l, ?_, hl, fun i => ?_⟩
  · rw [htracks.out, hrang]
    rfl
  · rw [hmem i, htracks.timer]
    refine ⟨fun h => ?_, fun h => h.2.2⟩
    have hchain : i ∈ s.hash b := by
      by_contra hnot
      have hsame := (fasttimoChain_outcome net ht b).onward.same i hnot
      exact h.1 (hsame ▸ h.2)
    obtain ⟨hlive, hb⟩ := (ht.filed.mem b i).mp hchain
    exact ⟨hlive, hb, h⟩

theorem chains_sends (ht : GroupTable s) {bs : List Nat} (hbs : bs.Nodup) :
    ∃ l : List Nat, (bs.foldl (fasttimoChain net) s).out =
        s.out ++ (l.filter (sends net s)).map (report s) ∧ l.Nodup ∧
      ∀ i, i ∈ l ↔ s.live i ∧ bucket s i ∈ bs ∧ (s.inm i).timer ≠ 0 ∧
        ((bs.foldl (fasttimoChain net) s).inm i).timer = 0 := by
  induction bs generalizing s with
  | nil => exact ⟨[], by simp, List.nodup_nil, by simp⟩
  | cons b bs ih =>
      obtain ⟨hnb, hbs⟩ := List.nodup_cons.mp hbs
      have hlater := fasttimoChain_later net ht b
      obtain ⟨l, hout, hl, hmem⟩ := fasttimoChain_sends net ht b
      obtain ⟨l', hout', hl', hmem'⟩ := ih hlater.table hbs
      rw [hlater.groups.sends, hlater.groups.report] at hout'
      rw [hlater.groups.live, hlater.groups.bucket] at hmem'
      rw [List.foldl_cons]
      refine ⟨l ++ l', ?_, ?_, fun i => ?_⟩
      · rw [hout', hout, List.append_assoc, List.filter_append, List.map_append]
      · refine List.nodup_append.mpr ⟨hl, hl', ?_⟩
        rintro i hi j hj rfl
        exact hnb (((hmem i).mp hi).2.1 ▸ ((hmem' i).mp hj).2.1)
      · rw [List.mem_append, hmem i, hmem' i, List.mem_cons]
        constructor
        · rintro (⟨hlive, hb, hnz, hz⟩ | ⟨hlive, hb, hnz, hz⟩)
          · have hstill := @chains_other net _ bs i hlater.table
              (by rwa [hlater.groups.live]) (by rwa [hlater.groups.bucket, hb])
            exact ⟨hlive, .inl hb, hnz, hstill.trans hz⟩
          · have hne : bucket s i ≠ b := fun heq => hnb (heq ▸ hb)
            rw [(fasttimoChain_other net ht hne).2] at hnz
            exact ⟨hlive, .inr hb, hnz, hz⟩
        · rintro ⟨hlive, hb | hb, hnz, hz⟩
          · rw [chains_other hlater.table (by rwa [hlater.groups.live])
              (by rwa [hlater.groups.bucket, hb])] at hz
            exact .inl ⟨hlive, hb, hnz, hz⟩
          · have hne : bucket s i ≠ b := fun heq => hnb (heq ▸ hb)
            rw [← (fasttimoChain_other net ht hne).2] at hnz
            exact .inr ⟨hlive, hb, hnz, hz⟩

theorem chains_counted (ht : GroupTable s) {bs : List Nat} (hi : s.live i)
    (hb : bucket s i ∈ bs) :
    ((bs.foldl (fasttimoChain net) s).inm i).timer ≤ (s.inm i).timer - 1 := by
  induction bs generalizing s with
  | nil => cases hb
  | cons b bs ih =>
      have hlater := fasttimoChain_later net ht b
      rw [List.foldl_cons]
      rcases List.mem_cons.mp hb with hb | hb
      · have hmem : i ∈ s.hash b := (ht.filed.mem b i).mpr ⟨hi, hb⟩
        have hcount := (fasttimoChain_outcome net ht b).counted i hmem
        have hle := (chains_later net hlater.table bs).le i
        rw [(fasttimoChain_tracks net ht b).timer] at hle
        exact hle.trans hcount
      · have hrest := ih hlater.table (by rwa [hlater.groups.live]) (by rwa [hlater.groups.bucket])
        have hle := hlater.le i
        omega

/-- One call counts, and sends a report for what runs out, and one only. -/
theorem igmpFasttimo_sends (net : McastNet) (ht : GroupTable s) (hr : TimersRun s) :
    SameGroups s (igmpFasttimo net s) ∧
    (∀ i, s.live i → ((igmpFasttimo net s).inm i).timer ≤ (s.inm i).timer - 1) ∧
    ∃ l : List Nat, (igmpFasttimo net s).out = s.out ++ (l.filter (sends net s)).map (report s) ∧ l.Nodup ∧
      ∀ i, i ∈ l ↔ s.live i ∧ (s.inm i).timer ≠ 0 ∧ ((igmpFasttimo net s).inm i).timer = 0 := by
  by_cases hrun : s.running
  · have ht' : GroupTable { s with running := false } := ⟨ht.filed, ht.unique⟩
    obtain ⟨l, hout, hl, hmem⟩ := @chains_sends net _ ht' _ buckets_nodup
    rw [show igmpFasttimo net s = buckets.foldl (fasttimoChain net) { s with running := false } from
      if_pos hrun]
    refine ⟨?_, fun i hi => chains_counted ht' hi (mcastHash_mem_buckets _ _), l, hout, hl, ?_⟩
    · have hgroups := (chains_later net ht' buckets).groups
      exact ⟨hgroups.inm, hgroups.live, hgroups.loif⟩
    · intro i
      rw [hmem i]
      exact ⟨fun h => ⟨h.1, h.2.2⟩, fun h => ⟨h.1, mcastHash_mem_buckets _ _, h.2⟩⟩
  · have hzero : ∀ i, s.live i → (s.inm i).timer = 0 := by
      intro i hi
      by_contra hnz
      exact hrun (hr i hi hnz)
    rw [show igmpFasttimo net s = s from if_neg hrun]
    refine ⟨.refl s, fun i hi => by rw [hzero i hi], [], by simp,
      List.nodup_nil, fun i => ?_⟩
    simp only [List.not_mem_nil, false_iff]
    rintro ⟨hi, hnz, -⟩
    exact hnz (hzero i hi)

end

/-! ## A host -/

/-- A query, as it comes in on interface `ifp`. -/
def queryMsg (ifp : UInt32) : IgmpMsg := ⟨8, true, true, 0x11, allHostsGroup, 0, ifp⟩

/-- A report. -/
def reportMsg (group ifp : UInt32) : IgmpMsg := ⟨8, true, true, 0x12, group, group, ifp⟩

structure Mcast.Sound (s : Mcast) : Prop where
  table : GroupTable s
  run : TimersRun s
  multicast : ∀ i, s.live i → inMulticast (s.inm i).addr

/-- The host has a report of the group to send. -/
def Mcast.Waits (s : Mcast) (g f : UInt32) : Prop :=
  ∃ i, s.live i ∧ (s.inm i).addr = g ∧ (s.inm i).ifp = f ∧ (s.inm i).timer ≠ 0

/-- The groups of the reports between `s` and `s'` on interface `f`. -/
def reported (f : UInt32) (s s' : Mcast) : List UInt32 :=
  ((s'.out.drop s.out.length).filter fun r => r.ifp = f).map Report.group

section

variable {s s' : Mcast} {f g : UInt32} {i : Nat}

theorem reported_of_out {l : List Report} (h : s'.out = s.out ++ l) :
    reported f s s' = (l.filter fun r => r.ifp = f).map Report.group := by
  rw [reported, h, List.drop_left]

theorem notMem_reported (h : s'.out = s.out) : g ∉ reported f s s' := by
  rw [reported_of_out (l := []) (by rw [h, List.append_nil])]
  exact List.not_mem_nil

/-- A report from another host stops the timer of its group, and nothing else. -/
theorem igmpInput_report (hs : s.Sound) (hf : f ≠ s.loif) (hg : inMulticast g)
    (random : Nat → Nat) :
    SameGroups s (igmpInput random s (reportMsg g f)) ∧
      (igmpInput random s (reportMsg g f)).out = s.out ∧
      ∀ i, s.live i → ((igmpInput random s (reportMsg g f)).inm i).timer =
        if (s.inm i).addr = g ∧ (s.inm i).ifp = f then 0 else (s.inm i).timer := by
  obtain ⟨-, hash, hsame⟩ := mcastHashTblLookup_table hs.table g f
  unfold igmpInput
  rw [if_neg (by simp [reportMsg]), if_neg (by simp [reportMsg]),
    if_pos (c := (reportMsg g f).type = 0x12) rfl,
    if_neg (by simp only [reportMsg, not_or, not_not, ne_eq]; exact ⟨hf, eq_of_beq hg, trivial⟩)]
  dsimp only [reportMsg]
  rcases hl : mcastHashTblLookup s g f with ⟨_ | j, s'⟩
  · rw [hl] at hsame
    obtain rfl : s' = _ := hsame
    refine ⟨⟨fun _ => rfl, rfl, rfl⟩, rfl, fun i hi => ?_⟩
    rw [if_neg (mcastHashTblLookup_none hs.table (by rw [hl]) i hi)]
  · rw [hl] at hsame
    obtain rfl : s' = _ := hsame
    obtain ⟨hlive, hgroup⟩ := mcastHashTblLookup_some hs.table (i := j) (by rw [hl])
    refine ⟨?_, rfl, fun i hi => ?_⟩
    · have hset := sameGroups_setTimer s j 0
      exact ⟨hset.inm, hset.live, hset.loif⟩
    · by_cases hi' : (s.inm i).addr = g ∧ (s.inm i).ifp = f
      · obtain rfl := hs.table.unique i j hi hlive (hi'.1.trans hgroup.1.symm)
          (hi'.2.trans hgroup.2.symm)
        rw [if_pos hi']
        exact setTimer_timer s i 0
      · have hne : i ≠ j := fun heq => hi' (heq ▸ hgroup)
        rw [if_neg hi']
        exact congrArg InMulti.timer (setTimer_timer_of_ne hne 0)

/-- The timers that were started are of interface `f`, and stood. -/
structure Queried (f : UInt32) (s s' : Mcast) : Prop where
  groups : SameGroups s s'
  hash : s'.hash = s.hash
  out : s'.out = s.out
  timer : ∀ i, (s'.inm i).timer = (s.inm i).timer ∨
    ((s.inm i).ifp = f ∧ (s.inm i).timer = 0)

theorem Queried.refl (f : UInt32) (s : Mcast) : Queried f s s :=
  ⟨.refl s, rfl, rfl, fun _ => .inl rfl⟩

theorem Queried.trans {s'' : Mcast} (h : Queried f s s') (h' : Queried f s' s'') : Queried f s s'' := by
  refine ⟨h.groups.trans h'.groups, h'.hash.trans h.hash, h'.out.trans h.out, fun i => ?_⟩
  have hifp : (s'.inm i).ifp = (s.inm i).ifp := by rw [h.groups.inm i]
  rcases h.timer i with heq | hstood
  · rcases h'.timer i with heq' | ⟨hf, hz⟩
    · exact .inl (heq'.trans heq)
    · exact .inr ⟨hifp ▸ hf, heq ▸ hz⟩
  · exact .inr hstood

theorem Queried.started (h : Queried f s s') (hnz : (s.inm i).timer ≠ 0) : (s'.inm i).timer ≠ 0 := by
  rcases h.timer i with heq | ⟨-, hz⟩
  · rwa [heq]
  · exact absurd hz hnz

theorem queryLoop_asked (random : Nat → Nat) (f : UInt32) (l : List Nat) (s : Mcast) :
    Queried f s (queryLoop random f l s) ∧ ∀ i ∈ l, (s.inm i).ifp = f →
      (s.inm i).addr ≠ allHostsGroup → ((queryLoop random f l s).inm i).timer ≠ 0 := by
  induction l generalizing s with
  | nil => exact ⟨.refl f s, by simp⟩
  | cons j l ih =>
      rw [queryLoop]
      split
      · next hcond =>
          have hset := sameGroups_setTimer s j (igmpRandomDelay (random j))
          have hask : Queried f s
              { s.setTimer j (igmpRandomDelay (random j)) with running := true } := by
            refine ⟨⟨hset.inm, hset.live, hset.loif⟩, rfl, rfl, fun i => ?_⟩
            rcases eq_or_ne i j with rfl | hij
            · exact .inr ⟨hcond.1, hcond.2.1⟩
            · exact .inl (congrArg InMulti.timer (setTimer_timer_of_ne hij _))
          obtain ⟨hrest, hstarted⟩ :=
            ih { s.setTimer j (igmpRandomDelay (random j)) with running := true }
          refine ⟨hask.trans hrest, fun i hi hf ha => ?_⟩
          rcases List.mem_cons.mp hi with rfl | hi
          · refine hrest.started ?_
            rw [show (({ s.setTimer i (igmpRandomDelay (random i)) with running := true } :
              Mcast).inm i).timer = igmpRandomDelay (random i) from setTimer_timer s i _]
            exact Nat.succ_ne_zero _
          · refine hstarted i hi ?_ ?_
            · rw [hask.groups.inm i]
              exact hf
            · rw [hask.groups.inm i]
              exact ha
      · next hcond =>
          obtain ⟨hrest, hstarted⟩ := ih s
          refine ⟨hrest, fun i hi hf ha => ?_⟩
          rcases List.mem_cons.mp hi with rfl | hi
          · exact hrest.started fun hz => hcond ⟨hf, hz, ha⟩
          · exact hstarted i hi hf ha

theorem queryLoops_asked (random : Nat → Nat) (f : UInt32) (bs : List Nat) (s : Mcast) :
    Queried f s (bs.foldl (fun s b => queryLoop random f (s.hash b) s) s) ∧
      ∀ i b, b ∈ bs → i ∈ s.hash b → (s.inm i).ifp = f → (s.inm i).addr ≠ allHostsGroup →
        ((bs.foldl (fun s b => queryLoop random f (s.hash b) s) s).inm i).timer ≠ 0 := by
  induction bs generalizing s with
  | nil => exact ⟨.refl f s, by simp⟩
  | cons b bs ih =>
      obtain ⟨hask, hstarted⟩ := queryLoop_asked random f (s.hash b) s
      obtain ⟨hrest, hstarted'⟩ := ih (queryLoop random f (s.hash b) s)
      rw [List.foldl_cons]
      refine ⟨hask.trans hrest, fun i c hc hi hf ha => ?_⟩
      rcases List.mem_cons.mp hc with rfl | hc
      · exact hrest.started (hstarted i hi hf ha)
      · refine hstarted' i c hc ?_ ?_ ?_
        · rw [hask.hash]
          exact hi
        · rw [hask.groups.inm i]
          exact hf
        · rw [hask.groups.inm i]
          exact ha

/-- After a query the timer of every group of the interface is running. -/
theorem igmpInput_query (ht : GroupTable s) (hf : f ≠ s.loif) (random : Nat → Nat) :
    Queried f s (igmpInput random s (queryMsg f)) ∧ ∀ i, s.live i → (s.inm i).ifp = f →
      (s.inm i).addr ≠ allHostsGroup →
      ((igmpInput random s (queryMsg f)).inm i).timer ≠ 0 := by
  have hdef : igmpInput random s (queryMsg f) =
      buckets.foldl (fun s b => queryLoop random f (s.hash b) s) s := by
    unfold igmpInput
    rw [if_neg (by simp [queryMsg]), if_pos (c := (queryMsg f).type = 0x11) rfl,
      if_neg (by simp only [queryMsg, not_or, not_not, ne_eq]; exact ⟨hf, trivial⟩)]
    rfl
  obtain ⟨hask, hstarted⟩ := queryLoops_asked random f buckets s
  rw [hdef]
  refine ⟨hask, fun i hi => ?_⟩
  exact hstarted i (bucket s i) (mcastHash_mem_buckets _ _) ((ht.filed.mem _ i).mpr ⟨hi, rfl⟩)

/-- What comes in on another interface leaves the groups of this one alone. -/
theorem igmpInput_other (hs : s.Sound) (random : Nat → Nat) {m : IgmpMsg} (hm : m.rcvif ≠ f) :
    SameGroups s (igmpInput random s m) ∧ (igmpInput random s m).out = s.out ∧
      ∀ i, (s.inm i).ifp = f → ((igmpInput random s m).inm i).timer = (s.inm i).timer := by
  have hstill : SameGroups s s ∧ s.out = s.out ∧
      ∀ i, (s.inm i).ifp = f → (s.inm i).timer = (s.inm i).timer :=
    ⟨.refl s, rfl, fun _ _ => rfl⟩
  unfold igmpInput
  split
  · exact hstill
  split
  · split
    · exact hstill
    · obtain ⟨hask, -⟩ := queryLoops_asked random m.rcvif buckets s
      refine ⟨hask.groups, hask.out, fun i hi => ?_⟩
      exact (hask.timer i).resolve_right fun h => hm (h.1.symm.trans hi)
  split
  · split
    · exact hstill
    · obtain ⟨-, hash, hsame⟩ := mcastHashTblLookup_table hs.table m.group m.rcvif
      rcases hl : mcastHashTblLookup s m.group m.rcvif with ⟨_ | j, s'⟩
      · rw [hl] at hsame
        obtain rfl : s' = _ := hsame
        exact ⟨⟨fun _ => rfl, rfl, rfl⟩, rfl, fun _ _ => rfl⟩
      · rw [hl] at hsame
        obtain rfl : s' = _ := hsame
        obtain ⟨-, -, hj⟩ := mcastHashTblLookup_some hs.table (i := j) (by rw [hl])
        have hset := sameGroups_setTimer s j 0
        refine ⟨⟨hset.inm, hset.live, hset.loif⟩, rfl, fun i hi => ?_⟩
        have hij : i ≠ j := by
          rintro rfl
          exact hm (hj.symm.trans hi)
        exact congrArg InMulti.timer (setTimer_timer_of_ne hij 0)
  · exact hstill

theorem igmpJoingroup_spec (ht : GroupTable s) (net : McastNet) (random : Nat) (hi : s.live i) :
    (∃ l, (igmpJoingroup net random s i).out = s.out ++ l ∧ (l = [] ∨ l = [report s i])) ∧
      SameGroups s (igmpJoingroup net random s i) ∧
      ∀ j, j ≠ i → (igmpJoingroup net random s i).inm j = s.inm j := by
  rw [igmpJoingroup]
  split
  · exact ⟨⟨[], (List.append_nil _).symm, .inl rfl⟩, sameGroups_setTimer s i 0,
      fun j hj => setTimer_timer_of_ne hj 0⟩
  · obtain ⟨-, heq⟩ := igmpSendreport_spec net ht hi
    have hset := sameGroups_setTimer (igmpSendreport net s i) i (igmpRandomDelay random)
    rw [heq] at hset ⊢
    refine ⟨⟨if sends net s i then [report s i] else [], rfl, ?_⟩,
      ⟨hset.inm, hset.live, hset.loif⟩, fun j hj => setTimer_timer_of_ne hj _⟩
    split
    · exact .inr rfl
    · exact .inl rfl

/-- A host that joins a group may say so; its other groups stay as they are. -/
theorem joinGroup_spec (ht : GroupTable s) (net : McastNet) (random i : Nat) (addr ifp : UInt32) :
    (∃ l, (joinGroup net random s i addr ifp).out = s.out ++ l ∧
      (l = [] ∨ l = [⟨addr, ifp⟩])) ∧
    (∀ j, s.live j → (joinGroup net random s i addr ifp).live j ∧
      (joinGroup net random s i addr ifp).inm j = s.inm j) ∧
    (∀ j, (joinGroup net random s i addr ifp).live j → ¬ s.live j →
      ((joinGroup net random s i addr ifp).inm j).addr = addr ∧
        ((joinGroup net random s i addr ifp).inm j).ifp = ifp) ∧
    (joinGroup net random s i addr ifp).loif = s.loif := by
  obtain ⟨-, hash, hsame⟩ := mcastHashTblLookup_table ht addr ifp
  unfold joinGroup
  rcases hl : mcastHashTblLookup s addr ifp with ⟨_ | j, s'⟩
  · rw [hl] at hsame
    have ht' := (mcastHashTblLookup_table ht addr ifp).1
    have hnone := @mcastHashTblLookup_none _ ht addr ifp (by rw [hl])
    rw [hl] at ht'
    obtain rfl : s' = _ := hsame
    dsimp only
    split
    · exact ⟨⟨[], (List.append_nil _).symm, .inl rfl⟩, fun k hk => ⟨hk, rfl⟩,
        fun k hk hnk => absurd hk hnk, rfl⟩
    next hdead =>
    have hins := ht'.insert hdead ⟨addr, ifp, 1, 0, []⟩ hnone
    obtain ⟨hout, hgroups, hother⟩ := igmpJoingroup_spec hins net random (i := i)
      (Function.update_self ..)
    have hself : (mcastHashTblInsert { { s with hash := hash } with
        inm := Function.update s.inm i ⟨addr, ifp, 1, 0, []⟩
        live := Function.update s.live i true } i).inm i = ⟨addr, ifp, 1, 0, []⟩ :=
      Function.update_self ..
    refine ⟨?_, fun k hk => ?_, fun k hk hnk => ?_, hgroups.loif⟩
    · rw [report, hself] at hout
      exact hout
    · have hki : k ≠ i := fun heq => hdead (heq ▸ hk)
      refine ⟨?_, ?_⟩
      · rw [hgroups.live]
        exact (Function.update_of_ne hki ..).trans hk
      · rw [hother k hki]
        exact Function.update_of_ne hki ..
    · have hki : k = i := by
        by_contra hne
        rw [hgroups.live] at hk
        exact hnk ((Function.update_of_ne hne ..).symm.trans hk)
      subst hki
      rw [hgroups.inm k, hself]
      exact ⟨rfl, rfl⟩
  · rw [hl] at hsame
    obtain rfl : s' = _ := hsame
    exact ⟨⟨[], (List.append_nil _).symm, .inl rfl⟩, fun k hk => ⟨hk, rfl⟩,
      fun k hk hnk => absurd hk hnk, rfl⟩

/-! ## Whatever a host does -/

/-- Reports from the LAN come from its hosts; and a group that is joined is one. -/
def IgmpEvent.Local (f : UInt32) : IgmpEvent → Prop
  | .join _ _ _ addr _ => inMulticast addr
  | .input _ m => m.rcvif ≠ f
  | _ => True

def IgmpEvent.joins (g f : UInt32) : IgmpEvent → Bool
  | .join _ _ _ addr ifp => addr = g ∧ ifp = f
  | _ => false

theorem SameGroups.sound (h : SameGroups s s') (hs : s.Sound) (ht : GroupTable s')
    (hr : TimersRun s') : s'.Sound := by
  refine ⟨ht, hr, fun i hi => ?_⟩
  rw [h.inm i]
  exact hs.multicast i (h.live ▸ hi)

theorem igmpStep_sound (hs : s.Sound) {e : IgmpEvent} (he : e.Local f) : (igmpStep s e).Sound := by
  obtain ⟨ht, hr⟩ := igmpStep_table e hs.table hs.run
  cases e with
  | join net random i addr ifp =>
      obtain ⟨-, hold, hnew, -⟩ := joinGroup_spec hs.table net random i addr ifp
      refine ⟨ht, hr, fun j hj => ?_⟩
      by_cases hlive : s.live j
      · rw [show (igmpStep s (.join net random i addr ifp)).inm j = s.inm j from (hold j hlive).2]
        exact hs.multicast j hlive
      · rw [show ((igmpStep s (.join net random i addr ifp)).inm j).addr = addr from
          (hnew j hj hlive).1]
        exact he
  | leave i =>
      refine ⟨ht, hr, fun j hj => ?_⟩
      rw [igmpStep] at hj ⊢
      split at hj
      · next hi =>
          rw [if_pos hi]
          refine hs.multicast j ?_
          by_contra hnot
          rcases eq_or_ne j i with rfl | hji
          · exact hnot hi
          · exact hnot ((Function.update_of_ne hji ..).symm.trans hj)
      · next hi =>
          rw [if_neg hi]
          exact hs.multicast j hj
  | lookup addr ifp =>
      obtain ⟨hash, hsame⟩ := (mcastHashTblLookup_table hs.table addr ifp).2
      refine SameGroups.sound ?_ hs ht hr
      rw [igmpStep, hsame]
      exact ⟨fun _ => rfl, rfl, rfl⟩
  | input random m => exact (igmpInput_other hs random he).1.sound hs ht hr
  | tick net => exact (igmpFasttimo_sends net hs.table hs.run).1.sound hs ht hr

theorem mem_reported {l : List Report} (h : s'.out = s.out ++ l) :
    g ∈ reported f s s' ↔ ∃ r ∈ l, r.ifp = f ∧ r.group = g := by
  rw [reported_of_out h, List.mem_map]
  simp only [List.mem_filter, decide_eq_true_eq, and_assoc]

theorem igmpStep_loif (hs : s.Sound) {e : IgmpEvent} (he : e.Local f) :
    (igmpStep s e).loif = s.loif := by
  cases e with
  | join net random i addr ifp =>
      obtain ⟨-, -, -, hloif⟩ := joinGroup_spec hs.table net random i addr ifp
      exact hloif
  | leave i =>
      rw [igmpStep]
      split <;> rfl
  | lookup addr ifp =>
      obtain ⟨hash, hsame⟩ := (mcastHashTblLookup_table hs.table addr ifp).2
      rw [igmpStep, hsame]
  | input random m => exact (igmpInput_other hs random he).1.loif
  | tick net => exact (igmpFasttimo_sends net hs.table hs.run).1.loif

/-- The reports go out for groups. -/
theorem igmpStep_out (hs : s.Sound) {e : IgmpEvent} (he : e.Local f) :
    ∃ l, (igmpStep s e).out = s.out ++ l ∧ ∀ r ∈ l, inMulticast r.group := by
  cases e with
  | join net random i addr ifp =>
      obtain ⟨⟨l, hout, hl⟩, -⟩ := joinGroup_spec hs.table net random i addr ifp
      refine ⟨l, hout, fun r hr => ?_⟩
      rcases hl with rfl | rfl
      · cases hr
      · obtain rfl := List.mem_singleton.mp hr
        exact he
  | leave i =>
      refine ⟨[], ?_, by simp⟩
      rw [igmpStep, List.append_nil]
      split <;> rfl
  | lookup addr ifp =>
      obtain ⟨hash, hsame⟩ := (mcastHashTblLookup_table hs.table addr ifp).2
      refine ⟨[], ?_, by simp⟩
      rw [igmpStep, hsame, List.append_nil]
  | input random m =>
      exact ⟨[], (igmpInput_other hs random he).2.1.trans (List.append_nil _).symm, by simp⟩
  | tick net =>
      obtain ⟨-, -, l, hout, -, hmem⟩ := igmpFasttimo_sends net hs.table hs.run
      refine ⟨_, hout, fun r hr => ?_⟩
      obtain ⟨i, hi, rfl⟩ := List.mem_map.mp hr
      exact hs.multicast i ((hmem i).mp (List.mem_of_mem_filter hi)).1

/-- A tick sends one report of a group, when a timer of it runs out, or none. -/
theorem tick_reports (hs : s.Sound) (net : McastNet) :
    (g ∉ reported f s (igmpFasttimo net s) ∧ ((igmpFasttimo net s).Waits g f → s.Waits g f)) ∨
      ((reported f s (igmpFasttimo net s)).count g = 1 ∧ s.Waits g f ∧
        ¬ (igmpFasttimo net s).Waits g f) := by
  obtain ⟨hgroups, hcount, l, hout, hl, hmem⟩ := igmpFasttimo_sends net hs.table hs.run
  by_cases hg : g ∈ reported f s (igmpFasttimo net s)
  · right
    obtain ⟨r, hr, hf, hgr⟩ := (mem_reported hout).mp hg
    obtain ⟨i, hi, rfl⟩ := List.mem_map.mp hr
    obtain ⟨hlive, hnz, hz⟩ := (hmem i).mp (List.mem_of_mem_filter hi)
    refine ⟨?_, ⟨i, hlive, hgr, hf, hnz⟩, ?_⟩
    · refine List.count_eq_one_of_mem ?_ hg
      rw [reported_of_out hout, List.filter_map, List.map_map]
      refine List.Nodup.map_on ?_ ((hl.filter _).filter _)
      intro a ha b hb heq
      simp only [List.mem_filter, Function.comp_apply, decide_eq_true_eq] at ha hb
      exact hs.table.unique a b ((hmem a).mp ha.1.1).1 ((hmem b).mp hb.1.1).1 heq
        (ha.2.trans hb.2.symm)
    · rintro ⟨j, hj, hgj, hfj, hnzj⟩
      rw [hgroups.live] at hj
      rw [hgroups.inm j] at hgj hfj
      obtain rfl := hs.table.unique j i hj hlive (hgj.trans hgr.symm) (hfj.trans hf.symm)
      exact hnzj hz
  · left
    refine ⟨hg, ?_⟩
    rintro ⟨j, hj, hgj, hfj, hnzj⟩
    rw [hgroups.live] at hj
    rw [hgroups.inm j] at hgj hfj
    have hle := hcount j hj
    exact ⟨j, hj, hgj, hfj, by omega⟩

/-- No step but a join sends a report of a group that has no timer, or gives it one. -/
theorem igmpStep_reports (hs : s.Sound) {e : IgmpEvent} (he : e.Local f) (g : UInt32) :
    (g ∉ reported f s (igmpStep s e) ∧ ((igmpStep s e).Waits g f → s.Waits g f)) ∨
    ((reported f s (igmpStep s e)).count g = 1 ∧ s.Waits g f ∧ ¬ (igmpStep s e).Waits g f) ∨
    (e.joins g f = true ∧ (reported f s (igmpStep s e)).count g ≤ 1) := by
  cases e with
  | join net random i addr ifp =>
      obtain ⟨⟨l, hout, hl⟩, hold, hnew, -⟩ := joinGroup_spec hs.table net random i addr ifp
      by_cases hjoin : addr = g ∧ ifp = f
      · refine .inr (.inr ⟨decide_eq_true hjoin, ?_⟩)
        rw [igmpStep, reported_of_out hout]
        refine List.count_le_length.trans ?_
        rw [List.length_map]
        refine (List.length_filter_le _ _).trans ?_
        rcases hl with rfl | rfl <;> simp
      · refine .inl ⟨?_, ?_⟩
        · rw [igmpStep, mem_reported hout]
          rintro ⟨r, hr, hf, hg⟩
          rcases hl with rfl | rfl
          · cases hr
          · obtain rfl := List.mem_singleton.mp hr
            exact hjoin ⟨hg, hf⟩
        · rintro ⟨j, hj, hg, hf, hnz⟩
          by_cases hlive : s.live j
          · have hsame : (igmpStep s (.join net random i addr ifp)).inm j = s.inm j :=
              (hold j hlive).2
            rw [hsame] at hg hf hnz
            exact ⟨j, hlive, hg, hf, hnz⟩
          · obtain ⟨ha, hi⟩ := hnew j hj hlive
            exact absurd ⟨ha.symm.trans hg, hi.symm.trans hf⟩ hjoin
  | leave i =>
      have hout : (igmpStep s (.leave i)).out = s.out := by
        rw [igmpStep]
        split <;> rfl
      refine .inl ⟨notMem_reported hout, ?_⟩
      rintro ⟨j, hj, hg, hf, hnz⟩
      rw [igmpStep] at hj hg hf hnz
      split at hj
      · next hi =>
          rw [if_pos hi] at hg hf hnz
          refine ⟨j, ?_, hg, hf, hnz⟩
          rcases eq_or_ne j i with rfl | hji
          · exact hi
          · exact (Function.update_of_ne hji ..).symm.trans hj
      · next hi =>
          rw [if_neg hi] at hg hf hnz
          exact ⟨j, hj, hg, hf, hnz⟩
  | lookup addr ifp =>
      obtain ⟨hash, hsame⟩ := (mcastHashTblLookup_table hs.table addr ifp).2
      rw [igmpStep, hsame]
      exact .inl ⟨notMem_reported rfl, id⟩
  | input random m =>
      obtain ⟨hgroups, hout, htimer⟩ := igmpInput_other hs random he
      refine .inl ⟨notMem_reported hout, ?_⟩
      rintro ⟨j, hj, hg, hf, hnz⟩
      rw [igmpStep] at hj hg hf hnz
      rw [hgroups.live] at hj
      rw [hgroups.inm j] at hg hf
      rw [htimer j hf] at hnz
      exact ⟨j, hj, hg, hf, hnz⟩
  | tick net =>
      rcases tick_reports (g := g) (f := f) hs net with hquiet | hsent
      · exact .inl hquiet
      · exact .inr (.inl hsent)

/-- An entry stays while its group is not left; its timer is counted by ticks only, and the
report goes out when it has run out. -/
theorem igmpStep_member (hs : s.Sound) {e : IgmpEvent} (he : e.Local f) (hleave : e ≠ .leave i)
    (hi : s.live i) (hf : (s.inm i).ifp = f) :
    (igmpStep s e).live i ∧ ((igmpStep s e).inm i).addr = (s.inm i).addr ∧
      ((igmpStep s e).inm i).ifp = f ∧
      ((∀ net, e ≠ .tick net) → ((igmpStep s e).inm i).timer = (s.inm i).timer) ∧
      ∀ net, e = .tick net → ((igmpStep s e).inm i).timer ≤ (s.inm i).timer - 1 ∧
        ((s.inm i).timer ≠ 0 → ((igmpStep s e).inm i).timer = 0 → sends net s i = true →
          (s.inm i).addr ∈ reported f s (igmpStep s e)) := by
  cases e with
  | join net random j addr ifp =>
      obtain ⟨-, hold, -⟩ := joinGroup_spec hs.table net random j addr ifp
      obtain ⟨hlive, hsame⟩ := hold i hi
      rw [igmpStep, hsame]
      exact ⟨hlive, rfl, hf, fun _ => rfl, fun net h => by cases h⟩
  | leave j =>
      have hij : i ≠ j := fun heq => hleave (heq ▸ rfl)
      rw [igmpStep]
      split
      · exact ⟨(Function.update_of_ne hij ..).trans hi, rfl, hf, fun _ => rfl,
          fun net h => by cases h⟩
      · exact ⟨hi, rfl, hf, fun _ => rfl, fun net h => by cases h⟩
  | lookup addr ifp =>
      obtain ⟨hash, hsame⟩ := (mcastHashTblLookup_table hs.table addr ifp).2
      rw [igmpStep, hsame]
      exact ⟨hi, rfl, hf, fun _ => rfl, fun net h => by cases h⟩
  | input random m =>
      obtain ⟨hgroups, -, htimer⟩ := igmpInput_other hs random he
      rw [igmpStep, hgroups.live, hgroups.inm i]
      exact ⟨hi, rfl, hf, fun _ => htimer i hf, fun net h => by cases h⟩
  | tick net =>
      obtain ⟨hgroups, hcount, l, hout, -, hmem⟩ := igmpFasttimo_sends net hs.table hs.run
      rw [igmpStep, hgroups.live, hgroups.inm i]
      refine ⟨hi, rfl, hf, fun h => absurd rfl (h net), ?_⟩
      rintro net' ⟨⟩
      refine ⟨hcount i hi, fun hnz hz hsend => ?_⟩
      refine (mem_reported hout).mpr ⟨report s i, ?_, hf, rfl⟩
      exact List.mem_map.mpr ⟨i, List.mem_filter.mpr ⟨(hmem i).mpr ⟨hi, hnz, hz⟩, hsend⟩, rfl⟩

end

/-! ## The LAN -/

/-- The hosts, and the groups of the reports that were on the LAN. -/
structure Lan (ι : Type*) where
  host : ι → Mcast
  wire : List UInt32

inductive LanEvent (ι : Type*) where
  /-- a query from a router, and the random numbers of each host -/
  | query (random : ι → Nat → Nat)
  | host (h : ι) (e : IgmpEvent)

section

variable {ι : Type*} [DecidableEq ι]

/-- A report of host `h` on the LAN. -/
def Lan.hear (lan : ι → UInt32) (h : ι) (s : Lan ι) (g : UInt32) : Lan ι where
  host k := if k = h then s.host k else igmpInput (fun _ => 0) (s.host k) (reportMsg g (lan k))
  wire := s.wire ++ [g]

/-- `lan` is the address of the interface by which a host is on the LAN. -/
def Lan.step (lan : ι → UInt32) (s : Lan ι) : LanEvent ι → Lan ι
  | .query random =>
      { s with host := fun k => igmpInput (random k) (s.host k) (queryMsg (lan k)) }
  | .host h e =>
      (reported (lan h) (s.host h) (igmpStep (s.host h) e)).foldl (Lan.hear lan h)
        { s with host := Function.update s.host h (igmpStep (s.host h) e) }

def LanEvent.Local (lan : ι → UInt32) : LanEvent ι → Prop
  | .query _ => True
  | .host h e => e.Local (lan h)

def LanEvent.asks : LanEvent ι → Bool
  | .query _ => true
  | .host _ _ => false

def LanEvent.joins (lan : ι → UInt32) (g : UInt32) : LanEvent ι → Bool
  | .query _ => false
  | .host h e => e.joins g (lan h)

def LanEvent.ticks (h : ι) : LanEvent ι → Bool
  | .host k (.tick _) => k = h
  | _ => false

def Lan.Sound (lan : ι → UInt32) (s : Lan ι) : Prop :=
  ∀ k, (s.host k).Sound ∧ lan k ≠ (s.host k).loif

/-- What the other hosts make of the reports of host `h`. -/
structure Heard (lan : ι → UInt32) (h : ι) (gs : List UInt32) (s s' : Lan ι) : Prop where
  sound : s'.Sound lan
  wire : s'.wire = s.wire ++ gs
  self : s'.host h = s.host h
  groups : ∀ k, SameGroups (s.host k) (s'.host k)
  timer : ∀ k, k ≠ h → ∀ i, (s.host k).live i → ((s'.host k).inm i).timer =
    if ((s.host k).inm i).addr ∈ gs ∧ ((s.host k).inm i).ifp = lan k then 0
      else ((s.host k).inm i).timer

variable {lan : ι → UInt32} {s s' : Lan ι} {h : ι} {g : UInt32}

theorem hear_heard (hs : s.Sound lan) (hg : inMulticast g) (h : ι) :
    Heard lan h [g] s (s.hear lan h g) := by
  have hother : ∀ k, k ≠ h → (s.hear lan h g).host k =
      igmpInput (fun _ => 0) (s.host k) (reportMsg g (lan k)) := fun k hk => if_neg hk
  have hself : (s.hear lan h g).host h = s.host h := if_pos rfl
  have hsame : ∀ k, SameGroups (s.host k) ((s.hear lan h g).host k) := by
    intro k
    rcases eq_or_ne k h with rfl | hk
    · rw [hself]
      exact .refl _
    · rw [hother k hk]
      exact (igmpInput_report (hs k).1 (hs k).2 hg _).1
  refine ⟨fun k => ⟨?_, ?_⟩, rfl, hself, hsame, fun k hk i hi => ?_⟩
  · rcases eq_or_ne k h with rfl | hk
    · rw [hself]
      exact (hs k).1
    · have ht := igmpInput_table (fun _ => 0) (reportMsg g (lan k)) (hs k).1.table (hs k).1.run
      rw [← hother k hk] at ht
      exact (hsame k).sound (hs k).1 ht.1 ht.2
  · rw [(hsame k).loif]
    exact (hs k).2
  · rw [hother k hk, (igmpInput_report (hs k).1 (hs k).2 hg _).2.2 i hi]
    simp only [List.mem_singleton]

theorem hears_heard (hs : s.Sound lan) (h : ι) {gs : List UInt32} (hgs : ∀ g ∈ gs, inMulticast g) :
    Heard lan h gs s (gs.foldl (Lan.hear lan h) s) := by
  induction gs generalizing s with
  | nil => exact ⟨hs, (List.append_nil _).symm, rfl, fun _ => .refl _, fun k _ i _ => by simp⟩
  | cons g gs ih =>
      have hfirst := hear_heard hs (hgs g List.mem_cons_self) h
      have hrest := ih hfirst.sound fun g' hg' => hgs g' (List.mem_cons_of_mem g hg')
      rw [List.foldl_cons]
      refine ⟨hrest.sound, ?_, hrest.self.trans hfirst.self,
        fun k => (hfirst.groups k).trans (hrest.groups k), fun k hk i hi => ?_⟩
      · rw [hrest.wire, hfirst.wire, List.append_assoc]
        rfl
      · rw [hrest.timer k hk i ((hfirst.groups k).live ▸ hi), hfirst.timer k hk i hi,
          (hfirst.groups k).inm i]
        dsimp only
        simp only [List.mem_cons, List.not_mem_nil, or_false]
        split
        · next hin => rw [if_pos ⟨.inr hin.1, hin.2⟩]
        · next hout =>
            by_cases hg : ((s.host k).inm i).addr = g ∧ ((s.host k).inm i).ifp = lan k
            · rw [if_pos hg, if_pos ⟨.inl hg.1, hg.2⟩]
            · rw [if_neg hg, if_neg]
              rintro ⟨hin | hin, hf⟩
              · exact hg ⟨hin, hf⟩
              · exact hout ⟨hin, hf⟩

/-- A host does something, and the others hear its reports. -/
theorem host_heard (hs : s.Sound lan) {e : IgmpEvent} (he : e.Local (lan h)) :
    Heard lan h (reported (lan h) (s.host h) (igmpStep (s.host h) e))
      { s with host := Function.update s.host h (igmpStep (s.host h) e) }
      (s.step lan (.host h e)) := by
  have hsound : ({ s with host := Function.update s.host h (igmpStep (s.host h) e) } :
      Lan ι).Sound lan := by
    intro k
    rcases eq_or_ne k h with rfl | hk
    · dsimp only
      rw [Function.update_self]
      refine ⟨igmpStep_sound (hs k).1 he, ?_⟩
      rw [igmpStep_loif (hs k).1 he]
      exact (hs k).2
    · dsimp only
      rw [Function.update_of_ne hk]
      exact hs k
  obtain ⟨l, hout, hl⟩ := igmpStep_out (hs h).1 he
  refine hears_heard hsound h fun g hg => ?_
  obtain ⟨r, hr, -, rfl⟩ := (mem_reported hout).mp hg
  exact hl r hr

omit [DecidableEq ι] in
theorem Heard.waits {gs : List UInt32} (hh : Heard lan h gs s s') {k : ι} (hk : k ≠ h)
    (hw : (s'.host k).Waits g (lan k)) : (s.host k).Waits g (lan k) ∧ g ∉ gs := by
  obtain ⟨i, hi, hg, hf, hnz⟩ := hw
  rw [(hh.groups k).live] at hi
  rw [(hh.groups k).inm i] at hg hf
  rw [hh.timer k hk i hi] at hnz
  split at hnz
  · exact absurd rfl hnz
  · next hout => exact ⟨⟨i, hi, hg, hf, hnz⟩, fun hin => hout ⟨hg ▸ hin, hf⟩⟩

theorem lan_sound (hs : s.Sound lan) {e : LanEvent ι} (he : e.Local lan) :
    (s.step lan e).Sound lan := by
  cases e with
  | query random =>
      intro k
      obtain ⟨hask, -⟩ := igmpInput_query (hs k).1.table (hs k).2 (random k)
      have ht := igmpInput_table (random k) (queryMsg (lan k)) (hs k).1.table (hs k).1.run
      refine ⟨hask.groups.sound (hs k).1 ht.1 ht.2, ?_⟩
      rw [show ((s.step lan (.query random)).host k).loif = (s.host k).loif from hask.groups.loif]
      exact (hs k).2
  | host h e => exact (host_heard hs he).sound

/-! ## How many reports there are -/

/-- So many reports of the group there were, and one more if anybody has one to send. -/
def Lan.Bounded (lan : ι → UInt32) (g : UInt32) (s : Lan ι) (b : Nat) : Prop :=
  s.wire.count g ≤ b ∧ ((∃ k, (s.host k).Waits g (lan k)) → s.wire.count g + 1 ≤ b)

theorem step_bounded (hs : s.Sound lan) {e : LanEvent ι} (he : e.Local lan) {b : Nat}
    (hb : s.Bounded lan g b) :
    (s.step lan e).Bounded lan g
      (b + (if e.asks then 1 else 0) + 2 * if e.joins lan g then 1 else 0) := by
  cases e with
  | query random =>
      have hle := hb.1
      rw [LanEvent.asks, LanEvent.joins, if_pos rfl, if_neg Bool.false_ne_true]
      exact ⟨show s.wire.count g ≤ _ by omega, fun _ => show s.wire.count g + 1 ≤ _ by omega⟩
  | host h e =>
      have hh := host_heard hs he
      have hself : (s.step lan (.host h e)).host h = igmpStep (s.host h) e :=
        hh.self.trans (Function.update_self ..)
      have hwaits : ∀ k, ((s.step lan (.host h e)).host k).Waits g (lan k) →
          (k = h ∧ (igmpStep (s.host h) e).Waits g (lan h)) ∨
            ((s.host k).Waits g (lan k) ∧
              g ∉ reported (lan h) (s.host h) (igmpStep (s.host h) e)) := by
        intro k hk
        rcases eq_or_ne k h with rfl | hne
        · exact .inl ⟨rfl, hself ▸ hk⟩
        · have hbefore := hh.waits hne hk
          dsimp only at hbefore
          rw [Function.update_of_ne hne] at hbefore
          exact .inr hbefore
      obtain ⟨hle, hone⟩ := hb
      rw [Lan.Bounded, hh.wire, List.count_append, LanEvent.asks, LanEvent.joins,
        if_neg Bool.false_ne_true]
      dsimp only
      rcases igmpStep_reports (hs h).1 he g with ⟨hno, hstill⟩ | ⟨hcount, hwait, hdone⟩ |
        ⟨hjoin, hcount⟩
      · rw [List.count_eq_zero_of_not_mem hno]
        refine ⟨by omega, ?_⟩
        rintro ⟨k, hk⟩
        have hbefore : ∃ k, (s.host k).Waits g (lan k) := by
          rcases hwaits k hk with ⟨-, hk'⟩ | ⟨hk', -⟩
          · exact ⟨h, hstill hk'⟩
          · exact ⟨k, hk'⟩
        have hlt := hone hbefore
        omega
      · have hlt := hone ⟨h, hwait⟩
        refine ⟨by omega, ?_⟩
        rintro ⟨k, hk⟩
        rcases hwaits k hk with ⟨-, hk'⟩ | ⟨-, hno⟩
        · exact absurd hk' hdone
        · rw [List.count_eq_zero_of_not_mem hno] at hcount
          cases hcount
      · rw [if_pos hjoin]
        exact ⟨by omega, fun _ => by omega⟩

theorem run_bounded {es : List (LanEvent ι)} (hs : s.Sound lan)
    (he : ∀ e ∈ es, e.Local lan) {b : Nat} (hb : s.Bounded lan g b) :
    (run (Lan.step lan) s es).Sound lan ∧
      (run (Lan.step lan) s es).Bounded lan g
        (b + es.countP LanEvent.asks + 2 * es.countP (LanEvent.joins lan g)) := by
  induction es generalizing s b with
  | nil => exact ⟨hs, hb⟩
  | cons e es ih =>
      have hfirst := he e List.mem_cons_self
      have hrest := ih (lan_sound hs hfirst) (fun e' he' => he e' (List.mem_cons_of_mem e he'))
        (step_bounded hs hfirst hb)
      rw [run_cons, List.countP_cons, List.countP_cons]
      refine ⟨hrest.1, ?_⟩
      have hsum : b + (es.countP LanEvent.asks + if e.asks then 1 else 0) +
          2 * (es.countP (LanEvent.joins lan g) + if e.joins lan g then 1 else 0) =
          b + (if e.asks then 1 else 0) + 2 * (if e.joins lan g then 1 else 0) +
            es.countP LanEvent.asks + 2 * es.countP (LanEvent.joins lan g) := by
        omega
      rw [hsum]
      exact hrest.2

/-- Nobody is in a group, and nothing was on the LAN. -/
structure Lan.Empty (lan : ι → UInt32) (s : Lan ι) : Prop where
  sound : s.Sound lan
  none : ∀ k i, (s.host k).live i = false
  wire : s.wire = []

/-- However many hosts there are, a group is reported once for every query, and twice for
every time that a host joins it, and not more often. -/
theorem reports_bounded (lan : ι → UInt32) (s : Lan ι) (hs : s.Empty lan) (g : UInt32)
    (es : List (LanEvent ι)) (he : ∀ e ∈ es, e.Local lan) :
    (run (Lan.step lan) s es).wire.count g ≤
      es.countP LanEvent.asks + 2 * es.countP (LanEvent.joins lan g) := by
  have hzero : s.Bounded lan g 0 := by
    refine ⟨by rw [hs.wire]; exact Nat.le_refl _, ?_⟩
    rintro ⟨k, i, hi, -⟩
    rw [hs.none k i] at hi
    cases hi
  have hbound := (run_bounded hs.sound he hzero).2.1
  omega

/-! ## That there is one -/

/-- Member `i` of host `h`, which waits no longer than `n` ticks, or has been heard. -/
structure Lan.Member (lan : ι → UInt32) (h : ι) (i : Nat) (g : UInt32) (before : List UInt32)
    (s : Lan ι) (n : Nat) : Prop where
  live : (s.host h).live i
  addr : ((s.host h).inm i).addr = g
  ifp : ((s.host h).inm i).ifp = lan h
  wire : ∃ new, s.wire = before ++ new ∧
    (g ∈ new ∨ ((s.host h).inm i).timer ≠ 0 ∧ ((s.host h).inm i).timer ≤ n)

/-- The report of entry `i` can be sent in every tick of its host. -/
def LanEvent.Sends (lan : ι → UInt32) (h : ι) (i : Nat) (e : LanEvent ι) : Prop :=
  ∀ net, e = .host h (.tick net) → net.mbuf i ∧ net.multicast (lan h) ∧ 28 ≤ net.mtu (lan h)

theorem step_member {e : LanEvent ι} {i n : Nat} {before : List UInt32} (hs : s.Sound lan)
    (he : e.Local lan) (hleave : e ≠ .host h (.leave i)) (hsend : e.Sends lan h i)
    (hm : s.Member lan h i g before n) :
    (s.step lan e).Member lan h i g before (n - if e.ticks h then 1 else 0) := by
  obtain ⟨new, hwire, hnew⟩ := hm.wire
  cases e with
  | query random =>
      obtain ⟨hask, -⟩ := igmpInput_query (hs h).1.table (hs h).2 (random h)
      have hhost : (s.step lan (.query random)).host h =
          igmpInput (random h) (s.host h) (queryMsg (lan h)) := rfl
      refine ⟨?_, ?_, ?_, new, hwire, ?_⟩
      · rw [hhost, hask.groups.live]
        exact hm.live
      · rw [hhost, hask.groups.inm i]
        exact hm.addr
      · rw [hhost, hask.groups.inm i]
        exact hm.ifp
      · refine hnew.imp_right fun hwait => ?_
        have hsame := (hask.timer i).resolve_right fun hz => hwait.1 hz.2
        rw [hhost, hsame]
        exact hwait
  | host k e =>
      have hh := host_heard hs he
      rcases eq_or_ne h k with rfl | hne
      · have hself : (s.step lan (.host h e)).host h = igmpStep (s.host h) e :=
          hh.self.trans (Function.update_self ..)
        obtain ⟨hlive, haddr, hifp, hstill, htick⟩ := igmpStep_member (hs h).1 he
          (fun heq => hleave (heq ▸ rfl)) hm.live hm.ifp
        refine ⟨hself ▸ hlive, ?_, hself ▸ hifp, _, by rw [hh.wire, hwire, List.append_assoc], ?_⟩
        · rw [hself, haddr]
          exact hm.addr
        rcases hnew with hin | ⟨hnz, hle⟩
        · exact .inl (List.mem_append_left _ hin)
        rw [hself]
        by_cases ht : ∃ net, e = .tick net
        · obtain ⟨net, rfl⟩ := ht
          obtain ⟨hdown, hout⟩ := htick net rfl
          obtain ⟨hbuf, hmulti, hmtu⟩ := hsend net rfl
          rw [LanEvent.ticks, decide_eq_true rfl, if_pos rfl]
          by_cases hz : ((igmpStep (s.host h) (.tick net)).inm i).timer = 0
          · refine .inl (List.mem_append_right _ (hm.addr ▸ hout hnz hz ?_))
            simp [sends, looks, hm.ifp, hbuf, hmulti, hmtu, (hs h).2]
          · exact .inr ⟨hz, by omega⟩
        · have hsame := hstill fun net heq => ht ⟨net, heq⟩
          have hno : (LanEvent.host h e).ticks h = false := by
            cases e with
            | tick net => exact absurd ⟨net, rfl⟩ ht
            | _ => rfl
          rw [hno, if_neg Bool.false_ne_true, hsame]
          exact .inr ⟨hnz, hle⟩
      · have hgroups := hh.groups h
        have htimer := hh.timer h hne i
        simp only [Function.update_of_ne hne] at hgroups htimer
        have htimer := htimer hm.live
        have hno : (LanEvent.host k e).ticks h = false := by
          cases e with
          | tick net => exact decide_eq_false fun heq => hne heq.symm
          | _ => rfl
        refine ⟨?_, ?_, ?_, _, by rw [hh.wire, hwire, List.append_assoc], ?_⟩
        · rw [hgroups.live]
          exact hm.live
        · rw [hgroups.inm i]
          exact hm.addr
        · rw [hgroups.inm i]
          exact hm.ifp
        · rcases hnew with hin | ⟨hnz, hle⟩
          · exact .inl (List.mem_append_left _ hin)
          · rw [hno, if_neg Bool.false_ne_true, htimer]
            split
            · next hin => exact .inl (List.mem_append_right _ (hm.addr ▸ hin.1))
            · exact .inr ⟨hnz, hle⟩

theorem run_member {es : List (LanEvent ι)} {i n : Nat} {before : List UInt32} (hs : s.Sound lan)
    (he : ∀ e ∈ es, e.Local lan ∧ e ≠ .host h (.leave i) ∧ e.Sends lan h i)
    (hm : s.Member lan h i g before n) :
    (run (Lan.step lan) s es).Member lan h i g before (n - es.countP (LanEvent.ticks h)) := by
  induction es generalizing s n with
  | nil => exact hm
  | cons e es ih =>
      obtain ⟨hlocal, hleave, hsend⟩ := he e List.mem_cons_self
      have hrest := ih (lan_sound hs hlocal) (fun e' he' => he e' (List.mem_cons_of_mem e he'))
        (step_member hs hlocal hleave hsend hm)
      rw [run_cons, List.countP_cons]
      rwa [Nat.sub_sub, Nat.add_comm] at hrest

/-- After a query and until somebody asks again or joins a group is reported once at the most,
whatever else happens; and once it is, by whomever, when a member has stayed, has had what it takes
to send a report whenever it ticked, and has ticked until its timer was at its end. -/
theorem query_answered (lan : ι → UInt32) (s : Lan ι) (hs : s.Sound lan) (random : ι → Nat → Nat)
    (g : UInt32) (es : List (LanEvent ι)) (he : ∀ e ∈ es, e.Local lan)
    (hquiet : ∀ e ∈ es, e.asks = false ∧ e.joins lan g = false) :
    (run (Lan.step lan) (s.step lan (.query random)) es).wire.count g ≤ s.wire.count g + 1 ∧
    ∀ h i, (s.host h).live i → ((s.host h).inm i).addr = g → ((s.host h).inm i).ifp = lan h →
      g ≠ allHostsGroup → (∀ e ∈ es, e ≠ .host h (.leave i) ∧ e.Sends lan h i) →
      (((s.step lan (.query random)).host h).inm i).timer ≤ es.countP (LanEvent.ticks h) →
      (run (Lan.step lan) (s.step lan (.query random)) es).wire.count g = s.wire.count g + 1 := by
  have hs' : (s.step lan (.query random)).Sound lan := lan_sound hs trivial
  have hatmost : (run (Lan.step lan) (s.step lan (.query random)) es).wire.count g ≤
      s.wire.count g + 1 := by
    -- no query and no join, so that the bound does not grow
    have hb : (s.step lan (.query random)).Bounded lan g (s.wire.count g + 1) :=
      ⟨Nat.le_succ _, fun _ => Nat.le_refl _⟩
    have hbound := (run_bounded hs' he hb).2.1
    rwa [List.countP_eq_zero.mpr fun e hmem => by rw [(hquiet e hmem).1]; exact Bool.false_ne_true,
      List.countP_eq_zero.mpr fun e hmem => by rw [(hquiet e hmem).2]; exact Bool.false_ne_true]
      at hbound
  refine ⟨hatmost, ?_⟩
  intro h i hi haddr hifp hg hmember hticks
  obtain ⟨hask, hstarted⟩ := igmpInput_query (hs h).1.table (hs h).2 (random h)
  have hhost : (s.step lan (.query random)).host h =
      igmpInput (random h) (s.host h) (queryMsg (lan h)) := rfl
  refine Nat.le_antisymm hatmost ?_
  have hm : (s.step lan (.query random)).Member lan h i g s.wire
      (((s.step lan (.query random)).host h).inm i).timer := by
    refine ⟨?_, ?_, ?_, [], (List.append_nil _).symm, .inr ⟨?_, Nat.le_refl _⟩⟩
    · rw [hhost, hask.groups.live]
      exact hi
    · rw [hhost, hask.groups.inm i]
      exact haddr
    · rw [hhost, hask.groups.inm i]
      exact hifp
    · exact hstarted i hi hifp (haddr.trans_ne hg)
  have hrun := run_member hs' (fun e hmem => ⟨he e hmem, hmember e hmem⟩) hm
  obtain ⟨new, hwire, hnew⟩ := hrun.wire
  rw [hwire, List.count_append]
  rcases hnew with hin | ⟨hnz, hle⟩
  · have hpos := List.count_pos_iff.mpr hin
    omega
  · omega

end

/-! ## Two hosts -/

/-- Two hosts that are in no group yet. -/
def lanInit : Lan Bool := ⟨fun _ => mcastInit, []⟩

/-- The interface of either. -/
def lanPort : Bool → UInt32 := fun _ => 0x2000

theorem lanInit_sound : lanInit.Sound lanPort := by
  intro k
  refine ⟨⟨mcastInit_table, mcastInit_timersRun, fun i hi => ?_⟩, ?_⟩
  · cases hi
  · show (0x2000 : UInt32) ≠ 0x1000
    decide

/-- Both join 224.0.1.2. -/
def bothJoin : List (LanEvent Bool) :=
  [.host false (.join wellNet 0 0 0xe0000102 0x2000), .host true (.join wellNet 3 0 0xe0000102 0x2000)]

theorem bothJoin_local : ∀ e ∈ bothJoin, e.Local lanPort := by
  intro e he
  rcases List.mem_cons.mp he with rfl | he
  · show inMulticast 0xe0000102 = true
    decide
  · obtain rfl := List.mem_singleton.mp he
    show inMulticast 0xe0000102 = true
    decide

theorem reports_bounded_both :
    (run (Lan.step lanPort) lanInit bothJoin).wire.count 0xe0000102 ≤
      bothJoin.countP LanEvent.asks + 2 * bothJoin.countP (LanEvent.joins lanPort 0xe0000102) :=
  reports_bounded lanPort lanInit ⟨lanInit_sound, fun _ _ => rfl, rfl⟩ 0xe0000102 bothJoin
    bothJoin_local

/-- The ticks in which the second one waits. -/
def fourTicks : List (LanEvent Bool) := List.replicate 4 (.host true (.tick wellNet))

theorem query_answered_both :
    (run (Lan.step lanPort) ((run (Lan.step lanPort) lanInit bothJoin).step lanPort
      (.query fun _ _ => 0)) fourTicks).wire.count 0xe0000102 =
    (run (Lan.step lanPort) lanInit bothJoin).wire.count 0xe0000102 + 1 := by
  have hzero : lanInit.Bounded lanPort 0xe0000102 0 := by
    refine ⟨Nat.le_refl _, ?_⟩
    rintro ⟨k, i, hi, -⟩
    cases hi
  have hs := (run_bounded lanInit_sound bothJoin_local hzero).1
  have hmem : ∀ e ∈ fourTicks, e = .host true (.tick wellNet) :=
    fun e he => List.eq_of_mem_replicate he
  refine (query_answered lanPort _ hs (fun _ _ => 0) 0xe0000102 fourTicks ?_ ?_).2 true 0 rfl ?_ ?_
    (by decide) ?_ ?_
  · intro e he
    rw [hmem e he]
    exact trivial
  · intro e he
    rw [hmem e he]
    exact ⟨rfl, rfl⟩
  · decide +kernel
  · decide +kernel
  · intro e he
    rw [hmem e he]
    refine ⟨?_, ?_⟩
    · intro heq
      cases heq
    · rintro net ⟨⟩
      exact ⟨rfl, rfl, by decide⟩
  · decide +kernel

end VxWorks.Netinet
