import VxWorks.Lib.Countdown
import VxWorks.Lib.Run
import VxWorks.Netinet.Igmp

/-!
# Counting the report timers down

The loop of `igmp_fasttimo` over a chain is a `Clock`: its timers are those of
the entries, and an entry that runs out is brought to the head of its chain by
the search `ip_output` makes for the report. So one call counts every timer once
and sends what is due exactly if no timer that runs out stands behind one that
does not, and every report can be sent.

That the call is made at all when there is something to count is the other half:
`igmp_timers_are_running` is set whenever a timer is, after every event.
-/

namespace VxWorks.Netinet

open VxWorks.Lib

/-- The chain an entry belongs in. -/
def bucket (s : Mcast) (i : Nat) : Nat := mcastHash (s.inm i).addr (s.inm i).ifp

/-- The table is one: every entry in its own chain, no group twice on an
interface. -/
structure GroupTable (s : Mcast) : Prop where
  filed : Filed s.hash (bucket s) (fun i => s.live i)
  unique : ∀ i j, s.live i → s.live j → (s.inm i).addr = (s.inm j).addr →
    (s.inm i).ifp = (s.inm j).ifp → i = j

/-- Whoever has a timer is heard. -/
def TimersRun (s : Mcast) : Prop := ∀ i, s.live i → (s.inm i).timer ≠ 0 → s.running = true

theorem mcastHashInt_eq (addr ifp : UInt32) : mcastHashInt addr ifp = mcastHash addr ifp := by
  have h : (addr ^^^ (addr.toInt32 >>> 16).toUInt32 ^^^ ifp) &&& hashMask =
      (addr ^^^ (addr >>> 16) ^^^ ifp) &&& hashMask := by
    apply UInt32.toBitVec_inj.mp
    simp [hashMask]
    ext i hi
    -- the sign reaches the bits from 16 on, and those are masked
    have hmask : ∀ i (hi : i < 32), 16 ≤ i → (63#32)[i] = false := by decide
    by_cases h16 : 16 ≤ i
    · simp [hmask i hi h16]
    · simp only [BitVec.getElem_and, BitVec.getElem_xor, BitVec.getElem_ushiftRight]
      rw [BitVec.getElem_sshiftRight, dif_pos (by omega)]
      rfl
  rw [mcastHashInt, mcastHash]
  rw [h]

theorem mcastHash_mem_buckets (addr ifp : UInt32) : mcastHash addr ifp ∈ buckets := by
  have hle : (((addr ^^^ (addr >>> 16) ^^^ ifp) &&& hashMask).toNat) ≤ hashMask.toNat := by
    rw [UInt32.toNat_and]
    exact Nat.and_le_right
  exact List.mem_range.mpr (Nat.lt_succ_of_le hle)

theorem buckets_nodup : buckets.Nodup := List.nodup_range

/-! ## Searches -/

section

variable {s s' : Mcast} {i : Nat}

/-- A search changes the order in a chain and nothing else. -/
theorem mcastHashTblLookup_table (ht : GroupTable s) (addr ifp : UInt32) :
    GroupTable (mcastHashTblLookup s addr ifp).2 ∧
      ∃ hash, (mcastHashTblLookup s addr ifp).2 = { s with hash := hash } := by
  unfold mcastHashTblLookup
  dsimp only
  split
  · exact ⟨ht, s.hash, rfl⟩
  · next i hi =>
      dsimp only
      split
      · exact ⟨ht, s.hash, rfl⟩
      · exact ⟨⟨ht.filed.toFront (List.mem_of_find?_eq_some hi), ht.unique⟩, _, rfl⟩

/-- The search for a group finds its entry and brings it to the head. -/
theorem mcastHashTblLookup_live (ht : GroupTable s) (hi : s.live i) :
    (mcastHashTblLookup s (s.inm i).addr (s.inm i).ifp).1 = some i ∧
      (mcastHashTblLookup s (s.inm i).addr (s.inm i).ifp).2.hash =
        chainInsert (chainRemove s.hash i) (bucket s i) i := by
  have hmem : i ∈ s.hash (bucket s i) := (ht.filed.mem _ i).mpr ⟨hi, rfl⟩
  have hfind : (s.hash (bucket s i)).find?
      (fun j => (s.inm j).addr = (s.inm i).addr ∧ (s.inm j).ifp = (s.inm i).ifp) = some i := by
    cases hf : (s.hash (bucket s i)).find?
        (fun j => (s.inm j).addr = (s.inm i).addr ∧ (s.inm j).ifp = (s.inm i).ifp) with
    | none => exact absurd (List.find?_eq_none.mp hf i hmem) (by simp)
    | some j =>
        have hj := List.find?_some hf
        have hlive := ((ht.filed.mem _ j).mp (List.mem_of_find?_eq_some hf)).1
        obtain ⟨haddr, hifp⟩ : (s.inm j).addr = (s.inm i).addr ∧ (s.inm j).ifp = (s.inm i).ifp := by
          simpa using hj
        rw [ht.unique j i hlive hi haddr hifp]
  unfold mcastHashTblLookup
  rw [mcastHashInt_eq]
  dsimp only
  rw [← bucket, hfind]
  refine ⟨rfl, ?_⟩
  dsimp only
  split
  · next hhead =>
      exact (toFront_head ht.filed hhead).symm
  · rfl

end

/-! ## A call counts as the clock does -/

def report (s : Mcast) (i : Nat) : Report := ⟨(s.inm i).addr, (s.inm i).ifp⟩

/-- The report of entry `i` gets as far as the search for its group. -/
def looks (net : McastNet) (s : Mcast) (i : Nat) : Bool :=
  net.mbuf i ∧ net.multicast (s.inm i).ifp

/-- It is sent. -/
def sends (net : McastNet) (s : Mcast) (i : Nat) : Bool :=
  looks net s i ∧ (s.inm i).ifp ≠ s.loif ∧ 28 ≤ net.mtu (s.inm i).ifp

/-- All but the timers, the chains, the flag and the reports is the same. -/
structure SameGroups (s s' : Mcast) : Prop where
  inm : ∀ i, s'.inm i = { s.inm i with timer := (s'.inm i).timer }
  live : s'.live = s.live
  loif : s'.loif = s.loif

section

variable {net : McastNet} {s s' s'' : Mcast} {i : Nat}

theorem SameGroups.refl (s : Mcast) : SameGroups s s := ⟨fun _ => rfl, rfl, rfl⟩

theorem SameGroups.trans (h : SameGroups s s') (h' : SameGroups s' s'') : SameGroups s s'' := by
  refine ⟨?_, h'.live.trans h.live, h'.loif.trans h.loif⟩
  intro i
  rw [h'.inm i, h.inm i]

theorem SameGroups.bucket (h : SameGroups s s') : bucket s' = bucket s := by
  funext i
  unfold Netinet.bucket
  rw [h.inm i]

theorem SameGroups.report (h : SameGroups s s') : report s' = report s := by
  funext i
  unfold Netinet.report
  rw [h.inm i]

theorem SameGroups.looks (h : SameGroups s s') : looks net s' = looks net s := by
  funext i
  unfold Netinet.looks
  rw [h.inm i]

theorem SameGroups.sends (h : SameGroups s s') : sends net s' = sends net s := by
  funext i
  unfold Netinet.sends
  rw [h.looks, h.inm i, h.loif]

/-- The table is a matter of the groups and the chains. -/
theorem GroupTable.same (ht : GroupTable s) (h : SameGroups s s')
    (hf : Filed s'.hash (bucket s) (fun i => s.live i)) : GroupTable s' := by
  refine ⟨?_, ?_⟩
  · rw [h.bucket, h.live]
    exact hf
  · intro i j hi hj
    rw [h.live] at hi hj
    rw [h.inm i, h.inm j]
    exact ht.unique i j hi hj

theorem sameGroups_setTimer (s : Mcast) (i n : Nat) : SameGroups s (s.setTimer i n) := by
  refine ⟨?_, rfl, rfl⟩
  intro j
  rw [Mcast.setTimer]
  rcases eq_or_ne j i with rfl | hj
  · simp
  · simp [hj]

@[simp] theorem setTimer_timer (s : Mcast) (i n : Nat) :
    ((s.setTimer i n).inm i).timer = n := by simp [Mcast.setTimer]

theorem setTimer_timer_of_ne {j : Nat} (hj : j ≠ i) (n : Nat) :
    (s.setTimer i n).inm j = s.inm j := Function.update_of_ne hj ..

theorem GroupTable.setTimer (ht : GroupTable s) (i n : Nat) : GroupTable (s.setTimer i n) :=
  ht.same (sameGroups_setTimer s i n) ht.filed

theorem igmpSendreport_spec (net : McastNet) (ht : GroupTable s) (hi : s.live i) :
    GroupTable (igmpSendreport net s i) ∧
      igmpSendreport net s i =
        { s with
          hash := if looks net s i then chainInsert (chainRemove s.hash i) (bucket s i) i
            else s.hash
          out := s.out ++ if sends net s i then [report s i] else [] } := by
  obtain ⟨htable, hash, heq⟩ := mcastHashTblLookup_table ht (s.inm i).addr (s.inm i).ifp
  have hhash := (mcastHashTblLookup_live ht hi).2
  rw [heq] at htable hhash
  dsimp only at hhash
  rw [igmpSendreport]
  dsimp only
  rw [heq]
  by_cases hlook : net.mbuf i = true ∧ net.multicast (s.inm i).ifp = true
  · have hl : looks net s i = true := by simpa [looks] using hlook
    rw [if_pos hlook, hl, if_pos rfl, ← hhash]
    by_cases hno : (s.inm i).ifp = s.loif ∨ net.mtu (s.inm i).ifp < 28
    · have hs : sends net s i = false := by
        simp only [sends, hl, decide_eq_false_iff_not, true_and, not_and, Nat.not_le]
        exact fun hne => hno.resolve_left hne
      rw [if_pos hno, hs]
      exact ⟨htable, by simp⟩
    · have hs : sends net s i = true := by simpa [sends, hl, not_or] using hno
      rw [if_neg hno, hs]
      exact ⟨⟨htable.filed, htable.unique⟩, rfl⟩
  · have hl : looks net s i = false := by simpa [looks] using hlook
    have hs : sends net s i = false := by simp [sends, hl]
    rw [if_neg hlook, hl, hs]
    exact ⟨ht, by simp⟩

end

/-- What the loop over chain `b` has done to `s₀`, when the clock stands at `c`. -/
structure Tracks (net : McastNet) (s₀ : Mcast) (b : Nat) (s : Mcast) (c : Clock Nat) : Prop where
  groups : SameGroups s₀ s
  table : GroupTable s
  timer : ∀ i, (s.inm i).timer = c.timer i
  chain : s.hash b = c.chain
  others : ∀ d, d ≠ b → s.hash d = s₀.hash d
  running : s.running = c.running
  out : s.out = s₀.out ++ (c.rang.filter (sends net s₀)).map (report s₀)

section

variable {net : McastNet} {s₀ s : Mcast} {b : Nat} {c : Clock Nat}

theorem Tracks.start (ht : GroupTable s) (b : Nat) :
    Tracks net s b s ⟨fun i => (s.inm i).timer, s.hash b, [], s.running⟩ :=
  ⟨.refl s, ht, fun _ => rfl, rfl, fun _ _ => rfl, rfl, by simp⟩

theorem Tracks.setTimer (h : Tracks net s₀ b s c) (i n : Nat) :
    Tracks net s₀ b (s.setTimer i n) { c with timer := Function.update c.timer i n } := by
  refine ⟨h.groups.trans (sameGroups_setTimer s i n), h.table.setTimer i n, ?_, h.chain,
    h.others, h.running, h.out⟩
  intro j
  rcases eq_or_ne j i with rfl | hj
  · rw [setTimer_timer]
    dsimp only
    rw [Function.update_self]
  · rw [setTimer_timer_of_ne hj, h.timer]
    exact (Function.update_of_ne hj ..).symm

theorem Tracks.bucket (h : Tracks net s₀ b s c) {i : Nat} (hi : i ∈ c.chain) :
    s.live i ∧ bucket s i = b := by
  rw [← h.chain] at hi
  exact (h.table.filed.mem b i).mp hi

/-- One round of the loop is one visit of the clock. -/
theorem Tracks.body (h : Tracks net s₀ b s c) {i : Nat} (hi : i ∈ c.chain) :
    Tracks net s₀ b (fasttimoBody net s i) (c.visit (looks net s₀) i) := by
  obtain ⟨hlive, hbucket⟩ := h.bucket hi
  unfold fasttimoBody Clock.visit
  dsimp only
  rw [h.timer i]
  split
  · exact h
  next hzero =>
  rw [setTimer_timer]
  split
  · next hone =>
      rw [if_pos (by omega), hone]
      have hset := h.setTimer i 0
      have hlive' : (s.setTimer i 0).live i := hlive
      obtain ⟨htable, heq⟩ := igmpSendreport_spec net hset.table hlive'
      rw [heq] at htable ⊢
      have hb : Netinet.bucket (s.setTimer i 0) i = b := by
        rw [(sameGroups_setTimer s i 0).bucket, hbucket]
      refine ⟨⟨hset.groups.inm, hset.groups.live, hset.groups.loif⟩, htable, hset.timer, ?_,
        ?_, hset.running, ?_⟩
      · dsimp only
        rw [hset.groups.looks, hb]
        split
        · unfold chainInsert chainRemove
          rw [Function.update_self, hset.chain]
        · exact hset.chain
      · intro d hd
        dsimp only
        rw [hb]
        split
        · unfold chainInsert chainRemove
          rw [Function.update_of_ne hd]
          have hnot : i ∉ (s.setTimer i 0).hash d := by
            intro hmem
            exact hd (((h.table.filed.mem d i).mp hmem).2.symm.trans hbucket)
          rw [List.erase_of_not_mem hnot]
          exact hset.others d hd
        · exact hset.others d hd
      · dsimp only
        rw [hset.out, hset.groups.sends, hset.groups.report, List.filter_append, List.map_append,
          List.append_assoc, List.filter_cons, List.filter_nil]
        split <;> rfl
  · next hone =>
      rw [if_neg (by omega)]
      have hset := h.setTimer i (c.timer i - 1)
      exact ⟨⟨hset.groups.inm, hset.groups.live, hset.groups.loif⟩,
        ⟨hset.table.filed, hset.table.unique⟩, hset.timer, hset.chain, hset.others, rfl, hset.out⟩

theorem Tracks.loop (h : Tracks net s₀ b s c) {rest : List Nat} (hat : Clock.At c rest)
    (fuel : Nat) :
    Tracks net s₀ b (fasttimoLoop net b fuel rest s) (Clock.walk (looks net s₀) fuel rest c) := by
  induction fuel generalizing s c rest with
  | zero => exact h
  | succ fuel ih =>
      cases rest with
      | nil => exact h
      | cons i rest =>
          have hbody := h.body hat.mem
          have hv : Clock.Visit (looks net s₀) c i rest _ _ := hat.visit
          rw [fasttimoLoop, Clock.walk, hbody.chain]
          exact ih hbody (hv.at hat)

/-- The clock of a chain. -/
def clockOf (s : Mcast) (b : Nat) : Clock Nat := ⟨fun i => (s.inm i).timer, s.hash b, [], s.running⟩

theorem fasttimoChain_tracks (net : McastNet) (ht : GroupTable s) (b : Nat) :
    Tracks net s b (fasttimoChain net s b) ((clockOf s b).tick (looks net s)) :=
  (Tracks.start ht b).loop ⟨ht.filed.nodup b, List.suffix_refl _⟩ _

end

/-! ## All chains -/

/-- Whatever the loops met, the timers only go down, and reports are only sent
that can be. -/
structure Later (net : McastNet) (s s' : Mcast) : Prop where
  groups : SameGroups s s'
  table : GroupTable s'
  le : ∀ i, (s'.inm i).timer ≤ (s.inm i).timer
  running : s.running = true → s'.running = true
  out : ∃ new, s'.out = s.out ++ new ∧
    ∀ r ∈ new, ∃ i, s.live i ∧ sends net s i = true ∧ report s i = r

section

variable {net : McastNet} {s s' s'' : Mcast} {l : List Nat} {i : Nat}

theorem Later.refl (ht : GroupTable s) : Later net s s :=
  ⟨.refl s, ht, fun _ => Nat.le_refl _, id, [], by simp, by simp⟩

theorem Later.trans (h : Later net s s') (h' : Later net s' s'') : Later net s s'' := by
  obtain ⟨new, hout, hnew⟩ := h.out
  obtain ⟨new', hout', hnew'⟩ := h'.out
  refine ⟨h.groups.trans h'.groups, h'.table, fun i => Nat.le_trans (h'.le i) (h.le i),
    fun hr => h'.running (h.running hr), new ++ new', by rw [hout', hout, List.append_assoc],
    fun r hr => ?_⟩
  rcases List.mem_append.mp hr with hr | hr
  · exact hnew r hr
  · obtain ⟨i, hlive, hsend, hrep⟩ := hnew' r hr
    rw [h.groups.live] at hlive
    rw [h.groups.sends] at hsend
    rw [h.groups.report] at hrep
    exact ⟨i, hlive, hsend, hrep⟩

theorem fasttimoChain_outcome (net : McastNet) (ht : GroupTable s) (b : Nat) :
    Clock.Outcome (looks net s) (clockOf s b) (s.hash b) ((clockOf s b).tick (looks net s)) :=
  Clock.tick_outcome (ht.filed.nodup b)

theorem fasttimoChain_later (net : McastNet) (ht : GroupTable s) (b : Nat) :
    Later net s (fasttimoChain net s b) := by
  have hf := fasttimoChain_tracks net ht b
  have hon := (fasttimoChain_outcome net ht b).onward
  obtain ⟨rang, hrang, hmem⟩ := hon.rang
  refine ⟨hf.groups, hf.table, ?_, ?_, _, hf.out, ?_⟩
  · intro i
    rw [hf.timer]
    exact hon.le i
  · intro hr
    rw [hf.running]
    exact hon.running hr
  · intro r hr
    obtain ⟨i, hi, rfl⟩ := List.mem_map.mp hr
    obtain ⟨hi, hsend⟩ := List.mem_filter.mp hi
    obtain rfl : _ = rang := hrang
    exact ⟨i, ((ht.filed.mem b i).mp (hmem i hi)).1, hsend, rfl⟩

/-- A chain that is not walked, and the timers in it, stay. -/
theorem fasttimoChain_other (net : McastNet) (ht : GroupTable s) {b : Nat} (hb : bucket s i ≠ b) :
    (fasttimoChain net s b).hash (bucket s i) = s.hash (bucket s i) ∧
      ((fasttimoChain net s b).inm i).timer = (s.inm i).timer := by
  have hf := fasttimoChain_tracks net ht b
  refine ⟨hf.others _ hb, ?_⟩
  rw [hf.timer]
  refine (fasttimoChain_outcome net ht b).onward.same i fun hmem => hb ?_
  exact ((ht.filed.mem b i).mp hmem).2

theorem chains_later (net : McastNet) (ht : GroupTable s) (l : List Nat) :
    Later net s (l.foldl (fasttimoChain net) s) := by
  induction l generalizing s with
  | nil => exact .refl ht
  | cons b l ih =>
      have hlater := fasttimoChain_later net ht b
      exact hlater.trans (ih hlater.table)

theorem chains_other (ht : GroupTable s) (hi : s.live i) (hb : bucket s i ∉ l) :
    ((l.foldl (fasttimoChain net) s).inm i).timer = (s.inm i).timer := by
  induction l generalizing s with
  | nil => rfl
  | cons b l ih =>
      obtain ⟨hne, hnl⟩ := not_or.mp (fun h => hb (List.mem_cons.mpr h))
      have hlater := fasttimoChain_later net ht b
      rw [List.foldl_cons, ih hlater.table (by rwa [hlater.groups.live])
        (by rwa [hlater.groups.bucket])]
      exact (fasttimoChain_other net ht hne).2

/-- A timer that is not zero at the end was seen. -/
theorem chains_running (ht : GroupTable s) (hi : s.live i) (hb : bucket s i ∈ l)
    (hnz : ((l.foldl (fasttimoChain net) s).inm i).timer ≠ 0) :
    (l.foldl (fasttimoChain net) s).running = true := by
  induction l generalizing s with
  | nil => exact absurd hb (by simp)
  | cons b l ih =>
      have hlater := fasttimoChain_later net ht b
      have hrest := chains_later net hlater.table l
      rcases List.mem_cons.mp hb with hb | hb
      · refine hrest.running ?_
        have hf := fasttimoChain_tracks net ht b
        have hle := hrest.le i
        rw [hf.timer] at hle
        rw [hf.running]
        have hmem : i ∈ s.hash b := (ht.filed.mem b i).mpr ⟨hi, hb⟩
        refine (fasttimoChain_outcome net ht b).stays i hmem ?_
        rw [List.foldl_cons] at hnz
        omega
      · exact ih hlater.table (by rwa [hlater.groups.live]) (by rwa [hlater.groups.bucket]) hnz

/-- An entry that stays is counted twice where one that runs out is behind it. -/
theorem chains_twice (net : McastNet) (ht : GroupTable s) (hl : l.Nodup) {a c : Nat} (ha : s.live a)
    (hb : bucket s a ∈ l) (hsub : [a, c].Sublist (s.hash (bucket s a)))
    (ha2 : 2 ≤ (s.inm a).timer) (hc1 : (s.inm c).timer = 1) (hlook : looks net s c = true) :
    ((l.foldl (fasttimoChain net) s).inm a).timer ≤ (s.inm a).timer - 2 := by
  induction l generalizing s with
  | nil => exact absurd hb (by simp)
  | cons b l ih =>
      obtain ⟨hnl, hl⟩ := List.nodup_cons.mp hl
      have hlater := fasttimoChain_later net ht b
      rcases List.mem_cons.mp hb with hb | hb
      · have htwice := (fasttimoChain_outcome net ht b).twice a c (hb ▸ hsub) ha2 hc1 hlook
        have hle := (chains_later net hlater.table l).le a
        rw [(fasttimoChain_tracks net ht b).timer] at hle
        exact Nat.le_trans hle htwice
      · have hne : bucket s a ≠ b := fun heq => hnl (heq ▸ hb)
        obtain ⟨hhash, htimer⟩ := fasttimoChain_other net ht hne
        have hc := (ht.filed.mem _ c).mp (hsub.subset (by simp))
        have htimer' := (fasttimoChain_other net ht (hc.2 ▸ hne)).2
        rw [List.foldl_cons, ← htimer]
        refine ih hlater.table hl (by rwa [hlater.groups.live]) (by rwa [hlater.groups.bucket]) ?_
          (by rwa [htimer]) (by rwa [htimer']) (by rwa [hlater.groups.looks])
        rw [hlater.groups.bucket, hhash]
        exact hsub

/-- What is due in a chain. -/
def due (s : Mcast) (b : Nat) : List Nat := (s.hash b).filter fun i => (s.inm i).timer = 1

/-- With no such entry anywhere, every timer is counted once and what is due is
reported. -/
theorem chains_exact (net : McastNet) (ht : GroupTable s) (hl : l.Nodup)
    (hclear : ∀ b ∈ l, (clockOf s b).Clear (looks net s)) :
    (∀ i, s.live i → bucket s i ∈ l →
      ((l.foldl (fasttimoChain net) s).inm i).timer = (s.inm i).timer - 1) ∧
    (l.foldl (fasttimoChain net) s).out =
      s.out ++ ((l.flatMap (due s)).filter (sends net s)).map (report s) := by
  induction l generalizing s with
  | nil => exact ⟨fun i _ hb => absurd hb (by simp), by simp⟩
  | cons b l ih =>
      obtain ⟨hnl, hl⟩ := List.nodup_cons.mp hl
      have hf := fasttimoChain_tracks net ht b
      have hexact := Clock.tick_exact (ht.filed.nodup b) (hclear b List.mem_cons_self)
      -- the chains still to come are as they were
      have hsame : ∀ d ∈ l, ∀ j ∈ s.hash d, ((fasttimoChain net s b).inm j).timer =
          (s.inm j).timer := by
        intro d hd j hj
        refine (fasttimoChain_other net ht ?_).2
        rw [((ht.filed.mem d j).mp hj).2]
        exact fun heq => hnl (heq ▸ hd)
      have hhash : ∀ d ∈ l, (fasttimoChain net s b).hash d = s.hash d := fun d hd =>
        hf.others d fun heq => hnl (heq ▸ hd)
      have hdue : l.flatMap (due (fasttimoChain net s b)) = l.flatMap (due s) := by
        refine List.flatMap_congr ?_
        intro d hd
        unfold due
        rw [hhash d hd]
        refine List.filter_congr ?_
        intro j hj
        rw [hsame d hd j hj]
      obtain ⟨htimer, hout⟩ := ih hf.table hl (by
        intro d hd a c hsub ha2 hc1
        rw [hf.groups.looks]
        replace hsub : [a, c].Sublist (s.hash d) := by rw [← hhash d hd]; exact hsub
        refine hclear d (List.mem_cons_of_mem b hd) a c hsub ?_ ?_
        · have heq := hsame d hd a (hsub.subset (by simp))
          exact Nat.le_trans ha2 (Nat.le_of_eq heq)
        · exact (hsame d hd c (hsub.subset (by simp))).symm.trans hc1)
      refine ⟨?_, ?_⟩
      · intro i hi hb
        rcases List.mem_cons.mp hb with hb | hb
        · have hmem : i ∈ s.hash b := (ht.filed.mem b i).mpr ⟨hi, hb⟩
          rw [List.foldl_cons, chains_other hf.table (by rwa [hf.groups.live])
            (by rwa [hf.groups.bucket, hb]), hf.timer]
          exact hexact.ahead i hmem
        · have hmem : i ∈ s.hash (bucket s i) := (ht.filed.mem _ i).mpr ⟨hi, rfl⟩
          rw [List.foldl_cons, htimer i (by rwa [hf.groups.live]) (by rwa [hf.groups.bucket]),
            hsame _ hb i hmem]
      · have hrang : ((clockOf s b).tick (looks net s)).rang = due s b := hexact.rang
        rw [List.foldl_cons, hout, hf.out, hf.groups.sends, hf.groups.report, hdue, hrang,
          List.flatMap_cons, List.filter_append, List.map_append, List.append_assoc]

end

/-! ## One call -/

/-- What one call is to do: count each timer that is not zero once, send one
report for each group whose timer runs out and none else, and have the flag set
if anything is left to count. -/
structure TickOk (s s' : Mcast) : Prop where
  timer : ∀ i, s.live i → (s'.inm i).timer = (s.inm i).timer - 1
  out : ∃ new, s'.out = s.out ++ new ∧ new.Nodup ∧
    ∀ r, r ∈ new ↔ ∃ i, s.live i ∧ (s.inm i).timer = 1 ∧ report s i = r
  running : TimersRun s'

/-- Every report that is due can be sent, and in no chain does a timer that runs
out stand behind one that does not. -/
structure TickFine (net : McastNet) (s : Mcast) : Prop where
  sends : ∀ i, s.live i → (s.inm i).timer = 1 → sends net s i = true
  behind : ∀ b a c, [a, c].Sublist (s.hash b) → 2 ≤ (s.inm a).timer → (s.inm c).timer ≠ 1

section

variable {net : McastNet} {s : Mcast}

theorem igmpFasttimo_running (ht : GroupTable s) (hr : TimersRun s) (net : McastNet) :
    TimersRun (igmpFasttimo net s) := by
  rw [igmpFasttimo]
  split
  · have ht' : GroupTable { s with running := false } := ⟨ht.filed, ht.unique⟩
    intro i hi hnz
    rw [(chains_later net ht' buckets).groups.live] at hi
    exact chains_running ht' hi (mcastHash_mem_buckets _ _) hnz
  · exact hr

theorem tickOk_of_fine (ht : GroupTable s) (hr : TimersRun s) (hfine : TickFine net s) :
    TickOk s (igmpFasttimo net s) := by
  have hrun := igmpFasttimo_running ht hr net
  rw [igmpFasttimo] at hrun ⊢
  split at hrun
  · next hrunning =>
      rw [if_pos hrunning]
      have ht' : GroupTable { s with running := false } := ⟨ht.filed, ht.unique⟩
      obtain ⟨htimer, hout⟩ := chains_exact net ht' buckets_nodup
        fun b _ a c hsub ha hc => absurd hc (hfine.behind b a c hsub ha)
      have hmem : ∀ i, i ∈ buckets.flatMap (due s) ↔ s.live i ∧ (s.inm i).timer = 1 := by
        intro i
        simp only [List.mem_flatMap, due, List.mem_filter, ht.filed.mem, decide_eq_true_eq]
        constructor
        · rintro ⟨b, -, ⟨hi, -⟩, h1⟩
          exact ⟨hi, h1⟩
        · rintro ⟨hi, h1⟩
          exact ⟨bucket s i, mcastHash_mem_buckets _ _, ⟨hi, rfl⟩, h1⟩
      have hnodup : (buckets.flatMap (due s)).Nodup := by
        refine List.nodup_flatMap.mpr ⟨fun b _ => (ht.filed.nodup b).filter _, ?_⟩
        refine buckets_nodup.imp fun {b d} hbd i hb hd => hbd ?_
        rw [← ((ht.filed.mem b i).mp (List.mem_of_mem_filter hb)).2]
        exact ((ht.filed.mem d i).mp (List.mem_of_mem_filter hd)).2
      have hinj : ∀ i ∈ (buckets.flatMap (due s)).filter (Netinet.sends net s),
          ∀ j ∈ (buckets.flatMap (due s)).filter (Netinet.sends net s),
          report s i = report s j → i = j := by
        intro i hi j hj heq
        have hi := ((hmem i).mp (List.mem_of_mem_filter hi)).1
        have hj := ((hmem j).mp (List.mem_of_mem_filter hj)).1
        exact ht.unique i j hi hj (congrArg Report.group heq) (congrArg Report.ifp heq)
      refine ⟨fun i hi => htimer i hi (mcastHash_mem_buckets _ _),
        ⟨_, hout, (hnodup.filter _).map_on hinj, ?_⟩, hrun⟩
      intro r
      constructor
      · intro hr
        obtain ⟨i, hi, rfl⟩ := List.mem_map.mp hr
        obtain ⟨hi, h1⟩ := (hmem i).mp (List.mem_of_mem_filter hi)
        exact ⟨i, hi, h1, rfl⟩
      · rintro ⟨i, hi, h1, rfl⟩
        refine List.mem_map.mpr ⟨i, List.mem_filter.mpr ⟨(hmem i).mpr ⟨hi, h1⟩, ?_⟩, rfl⟩
        exact hfine.sends i hi h1
  · next hstill =>
      rw [if_neg hstill]
      -- nothing is running, and so there is nothing to do
      have hzero : ∀ i, s.live i → (s.inm i).timer = 0 := by
        intro i hi
        by_contra hne
        exact hstill (hr i hi hne)
      refine ⟨fun i hi => by rw [hzero i hi], ⟨[], by simp, by simp, fun r => ?_⟩, hr⟩
      simp only [List.not_mem_nil, false_iff]
      rintro ⟨i, hi, h1, -⟩
      exact absurd (hzero i hi) (by omega)

theorem fine_of_tickOk (ht : GroupTable s) (hr : TimersRun s)
    (hok : TickOk s (igmpFasttimo net s)) : TickFine net s := by
  have ht' : GroupTable { s with running := false } := ⟨ht.filed, ht.unique⟩
  have hsends : ∀ i, s.live i → (s.inm i).timer = 1 → Netinet.sends net s i = true := by
    intro i hi h1
    have hrun : s.running = true := hr i hi (by omega)
    obtain ⟨new, hout, -, hnew⟩ := hok.out
    obtain ⟨sent, hsent, hcan⟩ := (chains_later net ht' buckets).out
    -- the report that is due was sent, and what was sent could be
    rw [igmpFasttimo] at hout
    rw [if_pos hrun] at hout
    obtain rfl : sent = new := List.append_cancel_left (hsent.symm.trans hout)
    obtain ⟨j, hj, hsend, hrep⟩ := hcan _ ((hnew _).mpr ⟨i, hi, h1, rfl⟩)
    obtain rfl := ht.unique j i hj hi (congrArg Report.group hrep) (congrArg Report.ifp hrep)
    exact hsend
  refine ⟨hsends, ?_⟩
  intro b a c hsub ha2 hc1
  obtain ⟨ha, hab⟩ := (ht.filed.mem b a).mp (hsub.subset (by simp))
  obtain ⟨hc, -⟩ := (ht.filed.mem b c).mp (hsub.subset (by simp))
  have hrun : s.running = true := hr a ha (by omega)
  have hlook : looks net s c = true := by
    have hsend := hsends c hc hc1
    simp only [Netinet.sends, decide_eq_true_eq] at hsend
    exact hsend.1
  have htwice := chains_twice net ht' buckets_nodup ha (mcastHash_mem_buckets _ _)
    (hab ▸ hsub) ha2 hc1 hlook
  have honce := hok.timer a ha
  rw [igmpFasttimo] at honce
  rw [if_pos hrun] at honce
  dsimp only at htwice
  omega

end

/-! ## Every run -/

section

variable {s : Mcast}

/-- A search that finds nothing means that the group is not there. -/
theorem mcastHashTblLookup_none (ht : GroupTable s) {addr ifp : UInt32}
    (h : (mcastHashTblLookup s addr ifp).1 = none) (j : Nat) (hj : s.live j) :
    ¬ ((s.inm j).addr = addr ∧ (s.inm j).ifp = ifp) := by
  rintro ⟨rfl, rfl⟩
  rw [(mcastHashTblLookup_live ht hj).1] at h
  exact absurd h (by simp)

theorem mcastHashTblLookup_some (ht : GroupTable s) {addr ifp : UInt32} {i : Nat}
    (h : (mcastHashTblLookup s addr ifp).1 = some i) :
    s.live i ∧ (s.inm i).addr = addr ∧ (s.inm i).ifp = ifp := by
  unfold mcastHashTblLookup at h
  dsimp only at h
  split at h
  · cases h
  · next j hj =>
      obtain rfl := Option.some.inj h
      have hkey := List.find?_some hj
      exact ⟨((ht.filed.mem _ j).mp (List.mem_of_find?_eq_some hj)).1, by simpa using hkey⟩

theorem mcastHashTblLookup_timersRun (ht : GroupTable s) (hr : TimersRun s) (addr ifp : UInt32) :
    TimersRun (mcastHashTblLookup s addr ifp).2 := by
  obtain ⟨hash, heq⟩ := (mcastHashTblLookup_table ht addr ifp).2
  rw [heq]
  exact hr

theorem TimersRun.stop (hr : TimersRun s) (i : Nat) : TimersRun (s.setTimer i 0) := by
  intro j hj hnz
  rcases eq_or_ne j i with rfl | hne
  · exact absurd (setTimer_timer s j 0) hnz
  · rw [setTimer_timer_of_ne hne] at hnz
    exact hr j hj hnz

theorem queryLoop_table (random : Nat → Nat) (ifp : UInt32) (l : List Nat) (ht : GroupTable s)
    (hr : TimersRun s) :
    GroupTable (queryLoop random ifp l s) ∧ TimersRun (queryLoop random ifp l s) := by
  induction l generalizing s with
  | nil => exact ⟨ht, hr⟩
  | cons i l ih =>
      rw [queryLoop]
      split
      · have ht' := ht.setTimer i (igmpRandomDelay (random i))
        exact ih ⟨ht'.filed, ht'.unique⟩ fun _ _ _ => rfl
      · exact ih ht hr

theorem igmpInput_table (random : Nat → Nat) (m : IgmpMsg) (ht : GroupTable s) (hr : TimersRun s) :
    GroupTable (igmpInput random s m) ∧ TimersRun (igmpInput random s m) := by
  have hquery : ∀ (l : List Nat) {s : Mcast}, GroupTable s → TimersRun s →
      GroupTable (l.foldl (fun s b => queryLoop random m.rcvif (s.hash b) s) s) ∧
        TimersRun (l.foldl (fun s b => queryLoop random m.rcvif (s.hash b) s) s) := by
    intro l
    induction l with
    | nil => exact fun ht hr => ⟨ht, hr⟩
    | cons b l ih =>
        intro s ht hr
        obtain ⟨ht', hr'⟩ := queryLoop_table random m.rcvif (s.hash b) ht hr
        exact ih ht' hr'
  unfold igmpInput
  split
  · exact ⟨ht, hr⟩
  split
  · split
    · exact ⟨ht, hr⟩
    · exact hquery buckets ht hr
  split
  · split
    · exact ⟨ht, hr⟩
    · have ht' := (mcastHashTblLookup_table ht m.group m.rcvif).1
      have hr' := mcastHashTblLookup_timersRun ht hr m.group m.rcvif
      split
      · next i s' heq =>
          rw [heq] at ht' hr'
          exact ⟨ht'.setTimer i 0, hr'.stop i⟩
      · next s' heq =>
          rw [heq] at ht' hr'
          exact ⟨ht', hr'⟩
  · exact ⟨ht, hr⟩

theorem igmpJoingroup_table (net : McastNet) (random : Nat) {i : Nat} (ht : GroupTable s)
    (hi : s.live i) : GroupTable (igmpJoingroup net random s i) := by
  rw [igmpJoingroup]
  split
  · exact ht.setTimer i 0
  · have ht' := (igmpSendreport_spec net ht hi).1.setTimer i (igmpRandomDelay random)
    exact ⟨ht'.filed, ht'.unique⟩

theorem igmpJoingroup_timersRun (net : McastNet) (random i : Nat) (hr : TimersRun s) :
    TimersRun (igmpJoingroup net random s i) := by
  rw [igmpJoingroup]
  split
  · exact hr.stop i
  · exact fun _ _ _ => rfl

/-- A new entry for a group that is not there. -/
theorem GroupTable.insert (ht : GroupTable s) {i : Nat} (hdead : ¬ s.live i) (e : InMulti)
    (hnew : ∀ j, s.live j → ¬ ((s.inm j).addr = e.addr ∧ (s.inm j).ifp = e.ifp)) :
    GroupTable (mcastHashTblInsert { s with
      inm := Function.update s.inm i e
      live := Function.update s.live i true } i) := by
  have hlive : ∀ j, Function.update s.live i true j = true ↔ j = i ∨ s.live j := by
    intro j
    rcases eq_or_ne j i with rfl | hj
    · simp
    · simp [hj]
  have hkey : ∀ j, j ≠ i →
      bucket { s with inm := Function.update s.inm i e } j = bucket s j := by
    intro j hj
    unfold bucket
    simp [hj]
  have hfiled := ht.filed.insert hdead hkey hlive
  refine ⟨hfiled, ?_⟩
  intro a b ha hb haddr hifp
  replace ha := (hlive a).mp ha
  replace hb := (hlive b).mp hb
  dsimp only [mcastHashTblInsert] at haddr hifp
  rcases eq_or_ne a i with rfl | hai
  · rcases eq_or_ne b a with rfl | hba
    · rfl
    · rw [Function.update_self, Function.update_of_ne hba] at haddr hifp
      exact absurd ⟨haddr.symm, hifp.symm⟩ (hnew b (hb.resolve_left hba))
  · rcases eq_or_ne b i with rfl | hbi
    · rw [Function.update_self, Function.update_of_ne hai] at haddr hifp
      exact absurd ⟨haddr, hifp⟩ (hnew a (ha.resolve_left hai))
    · rw [Function.update_of_ne hai, Function.update_of_ne hbi] at haddr hifp
      exact ht.unique a b (ha.resolve_left hai) (hb.resolve_left hbi) haddr hifp

theorem joinGroup_table (net : McastNet) (random i : Nat) (addr ifp : UInt32) (ht : GroupTable s)
    (hr : TimersRun s) :
    GroupTable (joinGroup net random s i addr ifp) ∧
      TimersRun (joinGroup net random s i addr ifp) := by
  have ht' := (mcastHashTblLookup_table ht addr ifp).1
  have hr' := mcastHashTblLookup_timersRun ht hr addr ifp
  unfold joinGroup
  split
  · next s' heq =>
      rw [heq] at ht' hr'
      exact ⟨ht', hr'⟩
  next s' heq =>
  have hnone : (mcastHashTblLookup s addr ifp).1 = none := by rw [heq]
  have hsame : s' = s := by
    have hs : (mcastHashTblLookup s addr ifp).2 = s := by
      unfold mcastHashTblLookup at hnone ⊢
      dsimp only at hnone ⊢
      split at hnone
      · rfl
      · exact absurd hnone (by simp)
    rw [heq] at hs
    exact hs
  subst hsame
  split
  · exact ⟨ht, hr⟩
  next hdead =>
  have hnew := mcastHashTblLookup_none ht hnone
  refine ⟨igmpJoingroup_table net random (ht.insert hdead ⟨addr, ifp, 1, 0, []⟩ hnew)
    (Function.update_self ..), igmpJoingroup_timersRun net random i ?_⟩
  intro j hj hnz
  rcases eq_or_ne j i with rfl | hji
  · exact absurd hnz (by simp [mcastHashTblInsert])
  · refine hr j ?_ ?_
    · simpa [mcastHashTblInsert, hji] using hj
    · simpa [mcastHashTblInsert, hji] using hnz

theorem igmpStep_table (e : IgmpEvent) (ht : GroupTable s) (hr : TimersRun s) :
    GroupTable (igmpStep s e) ∧ TimersRun (igmpStep s e) := by
  cases e with
  | join net random i addr ifp => exact joinGroup_table net random i addr ifp ht hr
  | leave i =>
      rw [igmpStep]
      split
      · have hlive : ∀ j, Function.update s.live i false j = true ↔ s.live j ∧ j ≠ i := by
          intro j
          rcases eq_or_ne j i with rfl | hj
          · simp
          · simp [hj]
        refine ⟨⟨(ht.filed.remove i).congr hlive fun _ _ => rfl, ?_⟩, ?_⟩
        · intro a b ha hb
          exact ht.unique a b ((hlive a).mp ha).1 ((hlive b).mp hb).1
        · intro j hj
          exact hr j ((hlive j).mp hj).1
      · exact ⟨ht, hr⟩
  | lookup addr ifp =>
      exact ⟨(mcastHashTblLookup_table ht addr ifp).1, mcastHashTblLookup_timersRun ht hr addr ifp⟩
  | input random m => exact igmpInput_table random m ht hr
  | tick net =>
      refine ⟨?_, igmpFasttimo_running ht hr net⟩
      show GroupTable (igmpFasttimo net s)
      rw [igmpFasttimo]
      split
      · have ht' : GroupTable { s with running := false } := ⟨ht.filed, ht.unique⟩
        exact (chains_later net ht' buckets).table
      · exact ht

end

/-- From any table, whatever its timers and chains are, and after every sequence
of joins, leaves, searches, queries, reports and calls: the flag is set whenever
a timer is, and a call of `igmp_fasttimo` does what it is to do if and only if
every report that is due can be sent and in no chain a timer that runs out
stands behind one that does not. -/
theorem igmp_tick_iff (s : Mcast) (ht : GroupTable s) (hr : TimersRun s) (es : List IgmpEvent) :
    Always igmpStep TimersRun s es ∧
      ∀ pre net, pre ++ [.tick net] <+: es →
        (TickOk (run igmpStep s pre) (igmpFasttimo net (run igmpStep s pre)) ↔
          TickFine net (run igmpStep s pre)) := by
  have hall : Always igmpStep (fun s => GroupTable s ∧ TimersRun s) s es :=
    always_of_guarded (G := fun _ _ => True) _ ⟨ht, hr⟩
      (fun _ e h _ => igmpStep_table e h.1 h.2) (fun _ _ _ => trivial)
  refine ⟨fun pre hpre => (hall pre hpre).2, ?_⟩
  intro pre net hpre
  obtain ⟨ht', hr'⟩ := hall pre ((List.prefix_append pre [_]).trans hpre)
  exact ⟨fine_of_tickOk ht' hr', tickOk_of_fine ht' hr'⟩

/-- No group joined yet. -/
def mcastInit : Mcast where
  inm := fun _ => ⟨0, 0, 0, 0, []⟩
  live := fun _ => false
  hash := fun _ => []
  loif := 0x1000
  running := false
  out := []

theorem mcastInit_table : GroupTable mcastInit :=
  ⟨(filed_empty _).congr (fun i => by simp [mcastInit]) fun _ _ => rfl,
    fun i j hi => absurd hi (by simp [mcastInit])⟩

theorem mcastInit_timersRun : TimersRun mcastInit := fun _ _ hnz => absurd rfl hnz

/-- Buffers enough, and interfaces that take multicasts. -/
def wellNet : McastNet := ⟨fun _ => true, fun _ => true, fun _ => 1500⟩

/-- 224.0.1.2 is joined on an interface. -/
def oneGroup : List IgmpEvent := [.join wellNet 0 0 0xe0000102 0x2000]

/-- Its timer stands at 1, and the next call sends the report. -/
theorem igmp_tick_one : TickOk (run igmpStep mcastInit oneGroup)
    (igmpFasttimo wellNet (run igmpStep mcastInit oneGroup)) := by
  have hiff := (igmp_tick_iff mcastInit mcastInit_table mcastInit_timersRun
    (oneGroup ++ [.tick wellNet])).2 oneGroup wellNet (List.prefix_refl _)
  have hfree : Guarded igmpStep (fun _ _ => True) mcastInit oneGroup := fun _ _ _ => trivial
  have hall := always_of_guarded
    (fun s => GroupTable s ∧ TimersRun s) ⟨mcastInit_table, mcastInit_timersRun⟩
    (fun _ e h _ => igmpStep_table e h.1 h.2) hfree oneGroup (List.prefix_refl _)
  -- there is one entry, so that no entry is behind another
  have hone : ∀ i, (run igmpStep mcastInit oneGroup).live i = true → i = 0 := by
    intro i hi
    by_contra hne
    have hupd : Function.update (fun _ => false) 0 true i = true := hi
    rw [Function.update_of_ne hne] at hupd
    exact absurd hupd (by simp)
  refine hiff.mpr ⟨?_, ?_⟩
  · intro i hi _
    rw [hone i hi]
    decide +kernel
  · intro b a c hsub _ _
    have ha := hone a ((hall.1.filed.mem b a).mp (hsub.subset (by simp))).1
    have hc := hone c ((hall.1.filed.mem b c).mp (hsub.subset (by simp))).1
    have hnd := hsub.nodup (hall.1.filed.nodup b)
    rw [ha, hc] at hnd
    exact absurd hnd (by decide)

/-- 224.0.1.2, then 224.0.1.66, which goes into the same chain before it. Their
timers stand at 1 and 2. -/
def twoGroups : List IgmpEvent :=
  [.join wellNet 0 0 0xe0000102 0x2000, .join wellNet 1 1 0xe0000142 0x2000]

/-- One call takes both to zero. -/
theorem igmp_tick_twice : ¬ ∀ (es pre : List IgmpEvent) (net : McastNet),
    pre ++ [.tick net] <+: es →
      TickOk (run igmpStep mcastInit pre) (igmpFasttimo net (run igmpStep mcastInit pre)) := by
  intro h
  have hok := (h (twoGroups ++ [.tick wellNet]) twoGroups wellNet (List.prefix_refl _)).timer 1
    (by decide +kernel)
  exact absurd hok (by decide +kernel)

end VxWorks.Netinet
