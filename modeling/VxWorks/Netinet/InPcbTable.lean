import VxWorks.Netinet.InPcb

/-!
# The table of control blocks stays a table

Every call files the blocks it changed again, so that at any time each live
block hangs once in the list and once in the hash table, in the chain of the
addresses and ports it has now. That much needs no condition.

That no two connections are the same does. `in_pcbconnect` looks for a
connection equal to the one it is about to make with the local port the block
has at that time; when it has none, the port is picked afterwards, and a socket
that shares its address is content with a port that no unconnected block has.
`PortsApart` is what has to hold of the port then.
-/

namespace VxWorks.Netinet

open VxWorks.Lib

structure Consistent (s : InpcbInfo) : Prop where
  nodup : s.list.Nodup
  mem : ∀ i, i ∈ s.list ↔ s.live i
  filed : Filed s.hash s.chainOf (fun i => s.live i)

/-- Everything but the hash chains, block `i` and `lastport` is as it was. -/
structure Frame (s s' : InpcbInfo) (i : Nat) : Prop where
  pcb : ∀ j, j ≠ i → s'.pcb j = s.pcb j
  live : s'.live = s.live
  list : s'.list = s.list

section

variable {s s' s'' : InpcbInfo} {i : Nat} {f : Inpcb → Inpcb}

@[simp] theorem set_pcb_self : (s.set i f).pcb i = f (s.pcb i) := Function.update_self ..

theorem set_pcb_of_ne {j : Nat} (hj : j ≠ i) : (s.set i f).pcb j = s.pcb j :=
  Function.update_of_ne hj ..

@[simp] theorem rehash_pcb : (inPcbrehash s i).pcb = s.pcb := rfl

theorem Frame.refl (s : InpcbInfo) (i : Nat) : Frame s s i := ⟨fun _ _ => rfl, rfl, rfl⟩

theorem Frame.trans (h : Frame s s' i) (h' : Frame s' s'' i) : Frame s s'' i :=
  ⟨fun j hj => (h'.pcb j hj).trans (h.pcb j hj), h'.live.trans h.live, h'.list.trans h.list⟩

theorem frame_set : Frame s (s.set i f) i := ⟨fun _ hj => set_pcb_of_ne hj, rfl, rfl⟩

theorem frame_rehash : Frame s (inPcbrehash s i) i := ⟨fun _ _ => rfl, rfl, rfl⟩

theorem frame_lastport {p : UInt16} : Frame s { s with lastport := p } i :=
  ⟨fun _ _ => rfl, rfl, rfl⟩

theorem chainOf_set_of_ne {j : Nat} (hj : j ≠ i) : (s.set i f).chainOf j = s.chainOf j := by
  rw [InpcbInfo.chainOf]
  rw [set_pcb_of_ne hj]
  rfl

/-- An assignment that leaves the key alone. -/
theorem Consistent.set (h : Consistent s) (hf : (s.set i f).chainOf i = s.chainOf i) :
    Consistent (s.set i f) := by
  refine ⟨h.nodup, h.mem, h.filed.congr (fun _ => Iff.rfl) ?_⟩
  intro j _
  rcases eq_or_ne j i with rfl | hj
  · exact hf
  · exact chainOf_set_of_ne hj

/-- Any assignment, when the block is filed again after it. -/
theorem Consistent.rehash (h : Consistent s) (hi : s.live i) (f : Inpcb → Inpcb) :
    Consistent (inPcbrehash (s.set i f) i) :=
  ⟨h.nodup, h.mem, h.filed.refile hi fun _ hj => chainOf_set_of_ne hj⟩

theorem Consistent.lastport (h : Consistent s) (p : UInt16) : Consistent { s with lastport := p } :=
  ⟨h.nodup, h.mem, h.filed⟩

theorem Consistent.moveToHead (h : Consistent s) {b : UInt32} (hi : i ∈ s.hash b) :
    Consistent (moveToHead s b i) := by
  rw [Netinet.moveToHead]
  split
  · exact h
  · exact ⟨h.nodup, h.mem, h.filed.toFront hi⟩

theorem Consistent.detach (h : Consistent s) (i : Nat) : Consistent (inPcbdetach s i) := by
  have hlive : ∀ j, (inPcbdetach s i).live j ↔ s.live j ∧ j ≠ i := by
    intro j
    rw [inPcbdetach]
    rcases eq_or_ne j i with rfl | hj
    · simp
    · simp [hj]
  refine ⟨h.nodup.erase i, ?_, (h.filed.remove i).congr hlive fun _ _ => rfl⟩
  intro j
  rw [hlive, ← h.mem]
  exact h.nodup.mem_erase_iff.trans and_comm

theorem Consistent.alloc (h : Consistent s) (so : Socket) (hi : ¬ s.live i) :
    Consistent (inPcballoc s so (some i)).2 := by
  have hlive : ∀ j, (inPcballoc s so (some i)).2.live j ↔ j = i ∨ s.live j := by
    intro j
    unfold inPcballoc
    rcases eq_or_ne j i with rfl | hj
    · simp
    · simp [hj]
  refine ⟨?_, ?_, h.filed.insert hi ?_ hlive⟩
  · exact List.nodup_cons.mpr ⟨fun hmem => hi ((h.mem i).mp hmem), h.nodup⟩
  · intro j
    rw [hlive, ← h.mem]
    exact List.mem_cons
  · intro j hj
    unfold InpcbInfo.chainOf
    simp [hj]

end

/-! ## What each call does to the table -/

/-- The first port after `lastport`, going round the ephemeral ones, that is
not taken. -/
def FirstFree (taken : UInt16 → Bool) (lastport p : UInt16) : Prop :=
  ∃ n, p = nextPort^[n + 1] lastport ∧ taken p = false ∧
    ∀ m < n, taken (nextPort^[m + 1] lastport) = true

/-- The local port a block without one is bound to: the one that is asked for,
or the first free one. -/
def Picks (s : InpcbInfo) (i : Nat) : Option SockaddrIn → UInt16 → Prop
  | some sin, p =>
      if sin.port ≠ 0 then p = sin.port
      else FirstFree (fun q => (inPcblookup (s.set i ({ · with laddr := sin.addr })) inaddrAny 0
        sin.addr q (bindWild (s.pcb i).socket)).isSome) s.lastport p
  | none, p =>
      FirstFree (fun q => (inPcblookup s inaddrAny 0 (s.pcb i).laddr q
        (bindWild (s.pcb i).socket)).isSome) s.lastport p

/-- A block without a foreign end, at the port. -/
def unconnected (inp : Inpcb) (lport : UInt16) : Prop :=
  inp.faddr = inaddrAny ∧ inp.fport = 0 ∧ inp.lport = lport

/-- The local address that goes with it. -/
def boundAddr (inp : Inpcb) (nam : Option SockaddrIn) : UInt32 :=
  (nam.map (·.addr)).getD inp.laddr

section

variable {s s' : InpcbInfo} {i : Nat}

theorem pickPort_firstFree {taken : UInt16 → Bool} {fuel : Nat} {lastport p : UInt16}
    (h : pickPort taken fuel lastport = some p) : FirstFree taken lastport p := by
  induction fuel generalizing lastport with
  | zero => exact absurd h (by simp [pickPort])
  | succ fuel ih =>
      rw [pickPort] at h
      split at h
      · next htaken =>
          obtain ⟨n, hp, hfree, hbefore⟩ := ih h
          refine ⟨n + 1, hp, hfree, ?_⟩
          intro m hm
          cases m with
          | zero => exact htaken
          | succ m => exact hbefore m (by omega)
      · next hfree =>
          obtain rfl : nextPort lastport = p := by simpa using h
          exact ⟨0, rfl, by simpa using hfree, fun m hm => absurd hm (by omega)⟩

/-- What `in_pcblookup` looks for: the blocks that match, with their wildcards,
of which it takes the best. `r` is one of those in `l`, or `found` when `l` has
none better than `matchwild`. -/
def BestOf (score : Nat → Option Nat) (wild : Bool) (l : List Nat) (found : Option Nat)
    (matchwild : Nat) (r : Option Nat) : Prop :=
  (r = found ∧ ∀ j ∈ l, ∀ w, score j = some w → (w = 0 ∨ wild = true) → matchwild ≤ w) ∨
    ∃ k ∈ l, r = some k ∧ ∃ w, score k = some w ∧ (w = 0 ∨ wild = true) ∧ w < matchwild ∧
      ∀ j ∈ l, ∀ w', score j = some w' → (w' = 0 ∨ wild = true) → w ≤ w'

/-- A block that is no better changes nothing. -/
theorem BestOf.skip {score : Nat → Option Nat} {wild : Bool} {l : List Nat} {found r : Option Nat}
    {matchwild a : Nat} (h : BestOf score wild l found matchwild r)
    (ha : ∀ w, score a = some w → (w = 0 ∨ wild = true) → matchwild ≤ w) :
    BestOf score wild (a :: l) found matchwild r := by
  rcases h with ⟨hr, hl⟩ | ⟨k, hk, hr, w, hw, hok, hlt, hl⟩
  · refine .inl ⟨hr, ?_⟩
    intro j hj
    rcases List.mem_cons.mp hj with rfl | hj
    · exact ha
    · exact hl j hj
  · refine .inr ⟨k, List.mem_cons_of_mem a hk, hr, w, hw, hok, hlt, ?_⟩
    intro j hj
    rcases List.mem_cons.mp hj with rfl | hj
    · exact fun w' hw' hok' => Nat.le_trans (Nat.le_of_lt hlt) (ha w' hw' hok')
    · exact hl j hj

/-- One that is better takes the place of what was found. -/
theorem BestOf.take {score : Nat → Option Nat} {wild : Bool} {l : List Nat} {found r : Option Nat}
    {matchwild a w : Nat} (h : BestOf score wild l (some a) w r) (hw : score a = some w)
    (hok : w = 0 ∨ wild = true) (hlt : w < matchwild) :
    BestOf score wild (a :: l) found matchwild r := by
  have hself : ∀ w', score a = some w' → w' = w := fun w' hw' => by simpa [hw] using hw'.symm
  rcases h with ⟨hr, hl⟩ | ⟨k, hk, hr, v, hv, hok', hlt', hl⟩
  · refine .inr ⟨a, List.mem_cons_self, hr, w, hw, hok, hlt, ?_⟩
    intro j hj
    rcases List.mem_cons.mp hj with rfl | hj
    · exact fun w' hw' _ => Nat.le_of_eq (hself w' hw').symm
    · exact hl j hj
  · refine .inr ⟨k, List.mem_cons_of_mem a hk, hr, v, hv, hok', Nat.lt_trans hlt' hlt, ?_⟩
    intro j hj
    rcases List.mem_cons.mp hj with rfl | hj
    · intro w' hw' _
      rw [hself w' hw']
      exact Nat.le_of_lt hlt'
    · exact hl j hj

theorem inPcblookupLoop_best (score : Nat → Option Nat) (wild : Bool) (l : List Nat)
    (found : Option Nat) (matchwild : Nat) :
    BestOf score wild l found matchwild (inPcblookupLoop score wild l found matchwild) := by
  induction l generalizing found matchwild with
  | nil => exact .inl ⟨rfl, fun j hj => absurd hj (by simp)⟩
  | cons a l ih =>
      rw [inPcblookupLoop]
      cases hw : score a with
      | none => exact (ih found matchwild).skip fun w hw' => absurd hw' (by simp [hw])
      | some w =>
          have hself : ∀ w', score a = some w' → w' = w := by
            intro w' hw'
            simpa [hw] using hw'.symm
          dsimp only
          split
          · next hno =>
              refine (ih found matchwild).skip ?_
              intro w' hw' hok
              rw [hself w' hw'] at hok
              exact absurd hok (by simp [hno])
          next hok =>
          have hok : w = 0 ∨ wild = true := by simpa [or_iff_not_imp_left] using hok
          split
          · next hlt =>
              split
              · next hzero =>
                  refine .inr ⟨a, List.mem_cons_self, rfl, w, hw, hok, hlt, ?_⟩
                  intro _ _ _ _ _
                  omega
              · exact (ih (some a) w).take hw hok hlt
          · next hge =>
              refine (ih found matchwild).skip ?_
              intro w' hw' _
              rw [hself w' hw']
              exact Nat.not_lt.mp hge

theorem foreignWild_le {inp : Inpcb} {faddr : UInt32} {fport : UInt16} {w : Nat}
    (h : foreignWild inp faddr fport = some w) : w ≤ 1 := by
  unfold foreignWild at h
  repeat' split at h
  all_goals simp at h
  all_goals omega

theorem hereWild_le {inp : Inpcb} {laddr : UInt32} {w : Nat} (h : hereWild inp laddr = some w) :
    w ≤ 1 := by
  rw [hereWild] at h
  repeat' split at h
  all_goals simp at h
  all_goals omega

theorem wildcard_le {inp : Inpcb} {faddr laddr : UInt32} {fport lport : UInt16} {w : Nat}
    (h : wildcard inp faddr fport laddr lport = some w) : w ≤ 2 := by
  rw [wildcard] at h
  split at h
  · exact absurd h (by simp)
  · obtain ⟨a, ha, hb⟩ := Option.bind_eq_some_iff.mp h
    obtain ⟨b, hb', rfl⟩ := Option.map_eq_some_iff.mp hb
    have := foreignWild_le ha
    have := hereWild_le hb'
    omega

/-- A search that allows wildcards and gives none of the addresses finds any
block with the port. -/
theorem inPcblookup_any {p : UInt16} (h : inPcblookup s inaddrAny 0 inaddrAny p true = none) :
    ∀ j ∈ s.list, (s.pcb j).lport ≠ p := by
  intro j hj hport
  have hmatch : ∃ w, wildcard (s.pcb j) inaddrAny 0 inaddrAny p = some w := by
    unfold wildcard foreignWild hereWild
    rw [if_neg (by simpa using hport)]
    by_cases hf : (s.pcb j).faddr = inaddrAny <;> by_cases hl : (s.pcb j).laddr = inaddrAny <;>
      simp [hf, hl]
  obtain ⟨w, hw⟩ := hmatch
  rcases inPcblookupLoop_best (fun i => wildcard (s.pcb i) inaddrAny 0 inaddrAny p) true s.list
    none 3 with ⟨-, hl⟩ | ⟨k, -, hk, -⟩
  · have := hl j hj w hw (.inr rfl)
    have := wildcard_le hw
    omega
  · rw [inPcblookup, hk] at h
    exact absurd h (by simp)

/-- A call that is refused leaves every block as it was, one that succeeds
binds the block. -/
theorem inPcbbind_spec {net : IfNet} {nam : Option SockaddrIn} {err : Option Errno}
    (h : inPcbbind net s i nam = some (err, s')) (hc : Consistent s) (hi : s.live i) :
    Consistent s' ∧ Frame s s' i ∧
      (s'.pcb i = s.pcb i ∨
        (s.pcb i).lport = 0 ∧ (s.pcb i).laddr = inaddrAny ∧
          ∃ p, Picks s i nam p ∧
            s'.pcb i = { s.pcb i with laddr := boundAddr (s.pcb i) nam, lport := p }) := by
  have hrefused : ∀ e, some (some e, s) = some (err, s') → Consistent s' ∧ Frame s s' i ∧
      (s'.pcb i = s.pcb i ∨
        (s.pcb i).lport = 0 ∧ (s.pcb i).laddr = inaddrAny ∧
          ∃ p, Picks s i nam p ∧
            s'.pcb i = { s.pcb i with laddr := boundAddr (s.pcb i) nam, lport := p }) := by
    intro e he
    obtain ⟨-, rfl⟩ : some e = err ∧ s = s' := by simpa using he
    exact ⟨hc, .refl s i, .inl rfl⟩
  unfold inPcbbind at h
  dsimp only at h
  split at h
  · exact hrefused _ h
  split at h
  · exact hrefused _ h
  next hunbound =>
  obtain ⟨hlport, hladdr⟩ : (s.pcb i).lport = 0 ∧ (s.pcb i).laddr = inaddrAny := by
    simpa using hunbound
  cases nam with
  | none =>
      unfold bindEphemeral at h
      obtain ⟨p, hp, heq⟩ := Option.map_eq_some_iff.mp h
      obtain ⟨-, rfl⟩ := Prod.mk.inj heq
      refine ⟨(hc.lastport p).rehash hi _, ?_, .inr ⟨hlport, hladdr, p, ?_, ?_⟩⟩
      · exact frame_lastport.trans (frame_set.trans frame_rehash)
      · exact pickPort_firstFree hp
      · rw [rehash_pcb, set_pcb_self]
        rfl
  | some sin =>
      dsimp only at h
      split at h
      · exact hrefused _ h
      split at h
      · exact hrefused _ h
      split at h
      · next hport =>
          unfold bindEphemeral at h
          obtain ⟨p, hp, heq⟩ := Option.map_eq_some_iff.mp h
          obtain ⟨-, rfl⟩ := Prod.mk.inj heq
          have hset : Consistent (s.set i ({ · with laddr := sin.addr })) := by
            refine hc.set ?_
            unfold InpcbInfo.chainOf
            rw [set_pcb_self]
            rfl
          refine ⟨(hset.lastport p).rehash hi _, ?_, .inr ⟨hlport, hladdr, p, ?_, ?_⟩⟩
          · exact frame_set.trans (frame_lastport.trans (frame_set.trans frame_rehash))
          · rw [Picks, if_neg (by simpa using hport)]
            have hfree := pickPort_firstFree hp
            rw [set_pcb_self] at hfree
            exact hfree
          · rw [rehash_pcb, set_pcb_self]
            simp [boundAddr]
      next hport =>
      split at h
      · exact hrefused _ h
      · obtain ⟨-, rfl⟩ := Prod.mk.inj (Option.some.inj h)
        refine ⟨hc.rehash hi _, frame_set.trans frame_rehash,
          .inr ⟨hlport, hladdr, sin.port, ?_, by rw [rehash_pcb, set_pcb_self]; rfl⟩⟩
        rw [Picks, if_pos (by simpa using hport)]

/-- The answer of the loop over `l`: a block with the local address, or where there is
none a block with the wildcard address, or where there is neither what there was
before. -/
def WildAnswer (pcb : Nat → Inpcb) (laddr : UInt32) (lport : UInt16) (l : List Nat)
    (before answer : Option Nat) : Prop :=
  (∃ k ∈ l, answer = some k ∧ unconnected (pcb k) lport ∧ (pcb k).laddr = laddr) ∨
    (∀ j ∈ l, unconnected (pcb j) lport → (pcb j).laddr ≠ laddr) ∧
      ((∃ k ∈ l, answer = some k ∧ unconnected (pcb k) lport ∧ (pcb k).laddr = inaddrAny) ∨
        answer = before ∧ ∀ j ∈ l, unconnected (pcb j) lport → (pcb j).laddr ≠ inaddrAny)

/-- A block that is passed over. -/
theorem WildAnswer.skip {pcb : Nat → Inpcb} {laddr : UInt32} {lport : UInt16} {l : List Nat}
    {before answer : Option Nat} {a : Nat} (h : WildAnswer pcb laddr lport l before answer)
    (ha : unconnected (pcb a) lport → (pcb a).laddr ≠ laddr ∧ (pcb a).laddr ≠ inaddrAny) :
    WildAnswer pcb laddr lport (a :: l) before answer := by
  rcases h with ⟨k, hk, h⟩ | ⟨hl, ⟨k, hk, h⟩ | ⟨h, hno⟩⟩
  · exact .inl ⟨k, List.mem_cons_of_mem a hk, h⟩
  · refine .inr ⟨?_, .inl ⟨k, List.mem_cons_of_mem a hk, h⟩⟩
    exact List.forall_mem_cons.mpr ⟨fun hun => (ha hun).1, hl⟩
  · refine .inr ⟨?_, .inr ⟨h, ?_⟩⟩
    · exact List.forall_mem_cons.mpr ⟨fun hun => (ha hun).1, hl⟩
    · exact List.forall_mem_cons.mpr ⟨fun hun => (ha hun).2, hno⟩

/-- The second loop of `in_pcblookuphash` takes a block that is bound to the
address, if there is one, and else one that is bound to any. -/
theorem localWildLoop_spec (pcb : Nat → Inpcb) (laddr : UInt32) (lport : UInt16) (l : List Nat)
    (localWild : Option Nat) :
    WildAnswer pcb laddr lport l localWild (localWildLoop pcb laddr lport l localWild) := by
  induction l generalizing localWild with
  | nil => exact .inr ⟨by simp, .inr ⟨rfl, by simp⟩⟩
  | cons a l ih =>
      rw [localWildLoop]
      split
      · next hun =>
          split
          · next hladdr => exact .inl ⟨a, List.mem_cons_self, rfl, hun, hladdr⟩
          next hladdr =>
          split
          · next hany =>
              rcases ih (some a) with ⟨k, hk, h⟩ | ⟨hl, ⟨k, hk, h⟩ | ⟨h, hno⟩⟩
              · exact .inl ⟨k, List.mem_cons_of_mem a hk, h⟩
              · refine .inr ⟨?_, .inl ⟨k, List.mem_cons_of_mem a hk, h⟩⟩
                exact List.forall_mem_cons.mpr ⟨fun _ => hladdr, hl⟩
              · refine .inr ⟨?_, .inl ⟨a, List.mem_cons_self, h, hun, hany⟩⟩
                exact List.forall_mem_cons.mpr ⟨fun _ => hladdr, hl⟩
          · next hany => exact (ih localWild).skip fun _ => ⟨hladdr, hany⟩
      · next hun => exact (ih localWild).skip fun ha => absurd ha hun

theorem localWildLoop_mem {pcb : Nat → Inpcb} {laddr : UInt32} {lport : UInt16} {l : List Nat}
    (h : localWildLoop pcb laddr lport l none = some i) : i ∈ l := by
  rcases localWildLoop_spec pcb laddr lport l none with
    ⟨k, hk, hr, -⟩ | ⟨-, ⟨k, hk, hr, -⟩ | ⟨hr, -⟩⟩
  · obtain rfl : k = i := by simpa [hr] using h
    exact hk
  · obtain rfl : k = i := by simpa [hr] using h
    exact hk
  · exact absurd h (by simp [hr])

/-- A search in the hash table moves a block within its chain, nothing else. -/
theorem inPcblookuphash_table (hc : Consistent s) (faddr : UInt32) (fport : UInt16)
    (laddr : UInt32) (lport : UInt16) (wild : Bool) :
    Consistent (inPcblookuphash s faddr fport laddr lport wild).2 ∧
      ∃ hash, (inPcblookuphash s faddr fport laddr lport wild).2 = { s with hash := hash } := by
  have hmove : ∀ b j, j ∈ s.hash b →
      Consistent (moveToHead s b j) ∧ ∃ hash, moveToHead s b j = { s with hash := hash } := by
    intro b j hj
    refine ⟨hc.moveToHead hj, ?_⟩
    rw [moveToHead]
    split
    · exact ⟨s.hash, rfl⟩
    · exact ⟨_, rfl⟩
  unfold inPcblookuphash
  dsimp only
  split
  · next j hj => exact hmove _ j (List.mem_of_find?_eq_some hj)
  split
  · split
    · next j hj => exact hmove _ j (localWildLoop_mem hj)
    · exact ⟨hc, s.hash, rfl⟩
  · exact ⟨hc, s.hash, rfl⟩

/-- Without wildcards it finds nothing only where there is nothing to find. -/
theorem inPcblookuphash_exact (hc : Consistent s) {faddr laddr : UInt32} {fport lport : UInt16}
    (h : (inPcblookuphash s faddr fport laddr lport false).1 = none) {j : Nat} (hj : s.live j) :
    ¬ ((s.pcb j).faddr = faddr ∧ (s.pcb j).fport = fport ∧ (s.pcb j).lport = lport ∧
      (s.pcb j).laddr = laddr) := by
  rintro ⟨rfl, rfl, rfl, rfl⟩
  unfold inPcblookuphash at h
  dsimp only at h
  split at h
  · exact absurd h (by simp)
  · next hnone =>
      have hmem : j ∈ s.hash (s.chainOf j) := (hc.filed.mem _ j).mpr ⟨hj, rfl⟩
      exact List.find?_eq_none.mp hnone j hmem (by simp [exactMatch])

theorem inPcblookuphash_none {faddr laddr : UInt32} {fport lport : UInt16} {wild : Bool}
    (h : (inPcblookuphash s faddr fport laddr lport wild).1 = none) :
    (inPcblookuphash s faddr fport laddr lport wild).2 = s := by
  unfold inPcblookuphash at h ⊢
  dsimp only at h ⊢
  split
  · next hj => exact absurd h (by simp [hj])
  next hnone =>
  split
  · next hwild =>
      split
      · next hj => exact absurd h (by simp [hnone, hwild, hj])
      · rfl
  · rfl

theorem inPcbladdr_local {net : IfNet} {inp : Inpcb} {sin : SockaddrIn} {faddr laddr : UInt32}
    (h : inPcbladdr net inp sin = .ok (faddr, laddr)) (hl : inp.laddr ≠ inaddrAny) :
    laddr = inp.laddr := by
  unfold inPcbladdr at h
  dsimp only at h
  rw [if_pos hl] at h
  split at h <;> try cases h
  split at h <;> try cases h
  split at h <;> cases h
  rfl

theorem connectLocal_spec {net : IfNet} {laddr : UInt32} (h : connectLocal net s i laddr = some s')
    (hc : Consistent s) (hi : s.live i)
    (hl : (s.pcb i).laddr ≠ inaddrAny → laddr = (s.pcb i).laddr) :
    Consistent s' ∧ Frame s s' i ∧
      ∃ p, s'.pcb i = { s.pcb i with laddr := laddr, lport := p } ∧
        (p = (s.pcb i).lport ∨
          (s.pcb i).lport = 0 ∧ (s.pcb i).laddr = inaddrAny ∧ Picks s i none p) := by
  -- once the block has its port, the address is put in; it is no part of the key
  have hset : ∀ t : InpcbInfo, Consistent t → Frame s t i →
      (∃ p, t.pcb i = { s.pcb i with lport := p } ∧
        (p = (s.pcb i).lport ∨
          (s.pcb i).lport = 0 ∧ (s.pcb i).laddr = inaddrAny ∧ Picks s i none p)) →
      Consistent (t.set i ({ · with laddr := laddr })) ∧
        Frame s (t.set i ({ · with laddr := laddr })) i ∧
        ∃ p, (t.set i ({ · with laddr := laddr })).pcb i =
            { s.pcb i with laddr := laddr, lport := p } ∧
          (p = (s.pcb i).lport ∨
            (s.pcb i).lport = 0 ∧ (s.pcb i).laddr = inaddrAny ∧ Picks s i none p) := by
    intro t ht hframe ⟨p, hpcb, hp⟩
    refine ⟨ht.set ?_, hframe.trans frame_set, p, ?_, hp⟩
    · rw [InpcbInfo.chainOf]
      rw [set_pcb_self]
      rfl
    · rw [set_pcb_self, hpcb]
  rw [connectLocal] at h
  split at h
  · next hany =>
      obtain ⟨t, ht, rfl⟩ := Option.map_eq_some_iff.mp h
      split at ht
      · obtain ⟨⟨err, t'⟩, hbind, rfl⟩ := Option.map_eq_some_iff.mp ht
        obtain ⟨htc, hframe, hsame | ⟨hport, -, p, hp, hpcb⟩⟩ := inPcbbind_spec hbind hc hi
        · exact hset t' htc hframe ⟨_, hsame, .inl rfl⟩
        · exact hset t' htc hframe ⟨p, hpcb, .inr ⟨hport, hany, hp⟩⟩
      · obtain rfl : s = t := by simpa using ht
        exact hset s hc (.refl s i) ⟨_, rfl, .inl rfl⟩
  · next hbound =>
      obtain rfl : s = s' := by simpa using h
      exact ⟨hc, .refl s i, _, by rw [hl hbound], .inl rfl⟩

/-- A connection that is made has the addresses `in_pcbladdr` found, is new under
the port the block came with, and keeps that port unless it was none. -/
theorem inPcbconnect_spec {net : IfNet} {sin : SockaddrIn} {err : Option Errno}
    (h : inPcbconnect net s i sin = some (err, s')) (hc : Consistent s) (hi : s.live i) :
    Consistent s' ∧ Frame s s' i ∧
      (s'.pcb i = s.pcb i ∨
        ∃ faddr laddr p, inPcbladdr net (s.pcb i) sin = .ok (faddr, laddr) ∧
          s'.pcb i =
            { s.pcb i with faddr := faddr, fport := sin.port, laddr := laddr, lport := p } ∧
          (inPcblookuphash s faddr sin.port laddr (s.pcb i).lport false).1 = none ∧
          (p = (s.pcb i).lport ∨
            (s.pcb i).lport = 0 ∧ (s.pcb i).laddr = inaddrAny ∧ Picks s i none p)) := by
  unfold inPcbconnect at h
  split at h
  · obtain ⟨-, rfl⟩ := Prod.mk.inj (Option.some.inj h)
    exact ⟨hc, .refl s i, .inl rfl⟩
  next faddr laddr haddr =>
  split at h
  · next t hfound =>
      obtain ⟨-, rfl⟩ := Prod.mk.inj (Option.some.inj h)
      obtain ⟨htc, hash, heq⟩ := inPcblookuphash_table hc faddr sin.port laddr (s.pcb i).lport false
      rw [hfound] at htc heq
      dsimp only at htc heq
      subst heq
      exact ⟨htc, ⟨fun _ _ => rfl, rfl, rfl⟩, .inl rfl⟩
  · next t hnone =>
      have hnone' : (inPcblookuphash s faddr sin.port laddr (s.pcb i).lport false).1 = none := by
        rw [hnone]
      obtain rfl : t = s := by
        have hsame := inPcblookuphash_none hnone'
        rw [hnone] at hsame
        exact hsame
      obtain ⟨t', ht', heq⟩ := Option.map_eq_some_iff.mp h
      obtain ⟨-, rfl⟩ := Prod.mk.inj heq
      obtain ⟨htc, hframe, p, hpcb, hp⟩ := connectLocal_spec ht' hc hi (inPcbladdr_local haddr)
      have hlive : t'.live i := by rw [hframe.live]; exact hi
      refine ⟨htc.rehash hlive _, hframe.trans (frame_set.trans frame_rehash),
        .inr ⟨faddr, laddr, p, haddr, ?_, hnone', hp⟩⟩
      rw [rehash_pcb, set_pcb_self, hpcb]

end

/-! ## Every run -/

/-- Each live block once in the list, once in the hash table and there in its
own chain, and nothing else in either. -/
def EachOnce (s : InpcbInfo) : Prop :=
  (∀ i, s.live i → s.list.count i = 1 ∧
      ∀ b, (s.hash b).count i = if b = s.chainOf i then 1 else 0) ∧
    ∀ i, ¬ s.live i → i ∉ s.list ∧ ∀ b, i ∉ s.hash b

def fourTuple (inp : Inpcb) : FourTuple := ⟨inp.faddr, inp.fport, inp.laddr, inp.lport⟩

/-- No two connections are the same. -/
def OneEach (s : InpcbInfo) : Prop :=
  ∀ i j, s.live i → s.live j → (s.pcb i).faddr ≠ inaddrAny →
    fourTuple (s.pcb i) = fourTuple (s.pcb j) → i = j

/-- Another block than `i` is at that connection. -/
def Held (s : InpcbInfo) (i : Nat) (q : FourTuple) : Prop :=
  ∃ j, j ≠ i ∧ s.live j ∧ fourTuple (s.pcb j) = q

/-- A block that has a foreign address when it is given a port is not given the
one that makes it the same as another. -/
def PortsApart (s : InpcbInfo) : PcbCall → Prop
  | .bind _ i nam =>
      (s.pcb i).faddr ≠ inaddrAny → (s.pcb i).lport = 0 → (s.pcb i).laddr = inaddrAny →
        ∀ p, Picks s i nam p →
          ¬ Held s i ⟨(s.pcb i).faddr, (s.pcb i).fport, boundAddr (s.pcb i) nam, p⟩
  | .connect net i sin =>
      (s.pcb i).lport = 0 → (s.pcb i).laddr = inaddrAny →
        ∀ faddr laddr, inPcbladdr net (s.pcb i) sin = .ok (faddr, laddr) → faddr ≠ inaddrAny →
          ∀ p, Picks s i none p → ¬ Held s i ⟨faddr, sin.port, laddr, p⟩
  | _ => True

section

variable {s s' : InpcbInfo} {e : PcbCall}

theorem Consistent.eachOnce (h : Consistent s) : EachOnce s := by
  refine ⟨fun i hi => ⟨?_, ?_⟩, fun i hi => ⟨?_, ?_⟩⟩
  · exact List.count_eq_one_of_mem h.nodup ((h.mem i).mpr hi)
  · intro b
    exact h.filed.count hi b
  · rwa [h.mem]
  · intro b hmem
    exact hi ((h.filed.mem b i).mp hmem).1

theorem Consistent.init (mask : UInt32) : Consistent (pcbInit mask) :=
  ⟨List.nodup_nil, fun i => by simp [pcbInit],
    (filed_empty _).congr (fun i => by simp [pcbInit]) fun _ _ => rfl⟩

/-- A call on a block that is not in use does nothing. -/
theorem live_call {i : Nat} {o : Option (Option Errno × InpcbInfo)}
    (h : (if s.live i then o.map (·.2) else some s) = some s') :
    s' = s ∨ s.live i ∧ ∃ err, o = some (err, s') := by
  split at h
  · next hi =>
      obtain ⟨⟨err, t⟩, ht, rfl⟩ := Option.map_eq_some_iff.mp h
      exact .inr ⟨hi, err, ht⟩
  · exact .inl (Option.some.inj h).symm

theorem pcbCall_consistent (h : pcbCall s e = some s') (hc : Consistent s) : Consistent s' := by
  cases e with
  | alloc so mem =>
      rw [pcbCall] at h
      split at h
      · cases h; exact hc
      · next hfree =>
          cases h
          cases mem with
          | none => exact hc
          | some i => exact hc.alloc so (by simpa using hfree)
  | bind net i nam =>
      rcases live_call h with rfl | ⟨hi, err, ht⟩
      · exact hc
      · exact (inPcbbind_spec ht hc hi).1
  | connect net i sin =>
      rcases live_call h with rfl | ⟨hi, err, ht⟩
      · exact hc
      · exact (inPcbconnect_spec ht hc hi).1
  | disconnect i =>
      cases h
      split
      · next hi =>
          unfold inPcbdisconnect
          dsimp only
          split
          · exact (hc.rehash hi _).detach i
          · exact hc.rehash hi _
      · exact hc
  | detach i =>
      cases h
      split
      · exact hc.detach i
      · exact hc
  | sockopt i so =>
      cases h
      split
      · refine hc.set ?_
        unfold InpcbInfo.chainOf
        rw [set_pcb_self]
        rfl
      · exact hc
  | lookup q wild =>
      cases h
      exact hc
  | lookuphash q wild =>
      cases h
      exact (inPcblookuphash_table hc ..).1

theorem OneEach.not_held (h : OneEach s) {i : Nat} (hi : s.live i) :
    (s.pcb i).faddr = inaddrAny ∨ ¬ Held s i (fourTuple (s.pcb i)) := by
  by_cases hf : (s.pcb i).faddr = inaddrAny
  · exact .inl hf
  · refine .inr fun ⟨j, hji, hj, heq⟩ => hji ?_
    exact (h i j hi hj hf heq.symm).symm

/-- A call that changes one block keeps the connections apart if it keeps that
block's apart from the others. -/
theorem OneEach.step (h : OneEach s) {i : Nat} (hpcb : ∀ j, j ≠ i → s'.pcb j = s.pcb j)
    (hlive : ∀ j, j ≠ i → s'.live j → s.live j)
    (hi : (s'.pcb i).faddr = inaddrAny ∨ ¬ Held s i (fourTuple (s'.pcb i))) : OneEach s' := by
  intro a b ha hb hf heq
  rcases eq_or_ne a i with rfl | hai
  · rcases eq_or_ne b a with rfl | hba
    · rfl
    · refine absurd ⟨b, hba, hlive b hba hb, ?_⟩ (hi.resolve_left hf)
      rw [← hpcb b hba, heq]
  · rcases eq_or_ne b i with rfl | hbi
    · have hsame : (s'.pcb a).faddr = (s'.pcb b).faddr := congrArg FourTuple.faddr heq
      have hfb : (s'.pcb b).faddr ≠ inaddrAny := by rwa [← hsame]
      refine absurd ⟨a, hai, hlive a hai ha, ?_⟩ (hi.resolve_left hfb)
      rw [← hpcb a hai, heq]
    · rw [hpcb a hai] at hf heq
      rw [hpcb b hbi] at heq
      exact h a b (hlive a hai ha) (hlive b hbi hb) hf heq

theorem OneEach.frame (h : OneEach s) {i : Nat} (hframe : Frame s s' i)
    (hi : (s'.pcb i).faddr = inaddrAny ∨ ¬ Held s i (fourTuple (s'.pcb i))) : OneEach s' :=
  h.step hframe.pcb (fun j _ hj => by rwa [hframe.live] at hj) hi

theorem detach_oneEach (h : OneEach s) (i : Nat) : OneEach (inPcbdetach s i) := by
  intro a b ha hb
  have hold : ∀ j, (inPcbdetach s i).live j → s.live j := by
    intro j hj
    rcases eq_or_ne j i with rfl | hji
    · exact absurd hj (by simp [inPcbdetach])
    · simpa [inPcbdetach, hji] using hj
  exact h a b (hold a ha) (hold b hb)

theorem pcbCall_oneEach (h : pcbCall s e = some s') (hc : Consistent s) (ho : OneEach s)
    (hg : PortsApart s e) : OneEach s' := by
  cases e with
  | alloc so mem =>
      rw [pcbCall] at h
      split at h
      · cases h; exact ho
      cases h
      cases mem with
      | none => exact ho
      | some i =>
          refine ho.step (i := i) ?_ ?_ (.inl ?_)
          · intro j hj
            exact Function.update_of_ne hj ..
          · intro j hj hlive
            simpa [inPcballoc, hj] using hlive
          · simp [inPcballoc, inaddrAny]
  | bind net i nam =>
      rcases live_call h with rfl | ⟨hi, err, ht⟩
      · exact ho
      · obtain ⟨-, hframe, hsame | ⟨hport, haddr, p, hp, hpcb⟩⟩ := inPcbbind_spec ht hc hi
        · refine ho.frame hframe ?_
          rw [hsame]
          exact ho.not_held hi
        · refine ho.frame hframe ?_
          rw [hpcb, or_iff_not_imp_left]
          intro hf
          exact hg hf hport haddr p hp
  | connect net i sin =>
      rcases live_call h with rfl | ⟨hi, err, ht⟩
      · exact ho
      · obtain ⟨-, hframe, hsame | ⟨faddr, laddr, p, haddr, hpcb, hnew, hp⟩⟩ :=
          inPcbconnect_spec ht hc hi
        · refine ho.frame hframe ?_
          rw [hsame]
          exact ho.not_held hi
        · refine ho.frame hframe ?_
          rw [hpcb, or_iff_not_imp_left]
          intro hf
          rcases hp with rfl | ⟨hport, hany, hp⟩
          · -- the port the block came with is the one that was looked for
            rintro ⟨j, -, hj, heq⟩
            obtain ⟨h1, h2, h3, h4⟩ : _ ∧ _ ∧ _ ∧ _ := by simpa [fourTuple] using heq
            exact inPcblookuphash_exact hc hnew hj ⟨h1, h2, h4, h3⟩
          · exact hg hport hany faddr laddr haddr hf p hp
  | disconnect i =>
      cases h
      split
      · next hi =>
          have hstep :
              OneEach (inPcbrehash (s.set i ({ · with faddr := inaddrAny, fport := 0 })) i) :=
            ho.frame (frame_set.trans frame_rehash) (.inl (by rw [rehash_pcb, set_pcb_self]))
          unfold inPcbdisconnect
          dsimp only
          split
          · exact detach_oneEach hstep i
          · exact hstep
      · exact ho
  | detach i =>
      cases h
      split
      · exact detach_oneEach ho i
      · exact ho
  | sockopt i so =>
      cases h
      split
      · next hi =>
          refine ho.frame frame_set ?_
          rw [set_pcb_self]
          exact ho.not_held hi
      · exact ho
  | lookup q wild =>
      cases h
      exact ho
  | lookuphash q wild =>
      cases h
      obtain ⟨hash, heq⟩ := (inPcblookuphash_table hc q.faddr q.fport q.laddr q.lport wild).2
      rw [heq]
      exact ho

end

theorem pcbStep_some {o : Option InpcbInfo} {e : PcbCall} {s' : InpcbInfo}
    (h : s' ∈ pcbStep o e) : ∃ s ∈ o, pcbCall s e = some s' :=
  Option.bind_eq_some_iff.mp h

theorem pcb_consistent (mask : UInt32) (es : List PcbCall) :
    Always pcbStep (fun o => ∀ s ∈ o, Consistent s) (some (pcbInit mask)) es := by
  refine always_of_guarded (G := fun _ _ => True) _ ?_ ?_ (fun _ _ _ => trivial)
  · intro s hs
    obtain rfl : pcbInit mask = s := by simpa using hs
    exact Consistent.init mask
  · intro o e h _ s' hs'
    obtain ⟨s, hs, hcall⟩ := pcbStep_some hs'
    exact pcbCall_consistent hcall (h s hs)

/-- Whatever calls are made, in whatever order and with whatever options and
interfaces, the list and the hash table hold each live block once, and the hash
table in the chain of its current addresses and ports. The connections are all
different in every run in which no call gives a block with a foreign address a
local port that another has at the same connection. -/
theorem pcb_table (mask : UInt32) (es : List PcbCall) :
    Always pcbStep (fun o => ∀ s ∈ o, EachOnce s) (some (pcbInit mask)) es ∧
      (Guarded pcbStep (fun o e => ∀ s ∈ o, PortsApart s e) (some (pcbInit mask)) es →
        Always pcbStep (fun o => ∀ s ∈ o, EachOnce s ∧ OneEach s) (some (pcbInit mask)) es) := by
  have hcons := pcb_consistent mask es
  constructor
  · exact fun pre hpre s hs => (hcons pre hpre s hs).eachOnce
  · intro hg
    have hinit : ∀ s ∈ some (pcbInit mask), Consistent s ∧ OneEach s := by
      intro s hs
      obtain rfl : pcbInit mask = s := by simpa using hs
      exact ⟨Consistent.init mask, fun i j hi => absurd hi (by simp [pcbInit])⟩
    have hall : Always pcbStep (fun o => ∀ s ∈ o, Consistent s ∧ OneEach s)
        (some (pcbInit mask)) es := by
      refine always_of_guarded _ hinit ?_ hg
      intro o e h hg s' hs'
      obtain ⟨s, hs, hcall⟩ := pcbStep_some hs'
      obtain ⟨hc, ho⟩ := h s hs
      exact ⟨pcbCall_consistent hcall hc, pcbCall_oneEach hcall hc ho (hg s hs)⟩
    exact fun pre hpre s hs => ⟨(hcons pre hpre s hs).eachOnce, (hall pre hpre s hs).2⟩

/-- A socket that neither shares its address nor listens is connected, and
nothing that is connected is bound. -/
def Unshared (s : InpcbInfo) : PcbCall → Prop
  | .bind _ i _ => (s.pcb i).faddr = inaddrAny
  | .connect _ i _ => bindWild (s.pcb i).socket = true
  | _ => True

/-- Such a socket gets a port that no block has. -/
theorem portsApart_of_unshared {s : InpcbInfo} {e : PcbCall} (hc : Consistent s)
    (hu : Unshared s e) : PortsApart s e := by
  cases e with
  | bind net i nam => exact fun hf => absurd hu hf
  | connect net i sin =>
      rintro hport hany faddr laddr haddr hf p ⟨n, hn, hfree, -⟩ ⟨j, -, hj, heq⟩
      rw [hany, show bindWild (s.pcb i).socket = true from hu, Option.isSome_eq_false_iff,
        Option.isNone_iff_eq_none] at hfree
      exact inPcblookup_any hfree j ((hc.mem j).mpr hj) (congrArg FourTuple.lport heq)
  | _ => trivial

theorem guarded_of_unshared {mask : UInt32} {es : List PcbCall}
    (h : Guarded pcbStep (fun o e => ∀ s ∈ o, Unshared s e) (some (pcbInit mask)) es) :
    Guarded pcbStep (fun o e => ∀ s ∈ o, PortsApart s e) (some (pcbInit mask)) es := by
  intro pre e hpre s hs
  exact portsApart_of_unshared
    (pcb_consistent mask es pre ((List.prefix_append pre [e]).trans hpre) s hs) (h pre e hpre s hs)

/-- One interface, 10.0.0.1. -/
def oneIf : IfNet where
  inIfaddr := some (0x0a000001, none)
  ifaIfwithaddr := fun a => a = 0x0a000001
  route := fun _ => none
  ifaIfwithdstaddr := fun _ => none
  ifaIfwithnet := fun _ => none
  multicastIf := none

/-- Port 80 of 10.0.0.2, as `connect` is given it. -/
def peer : SockaddrIn := ⟨16, afInet, 80, 0x0a000002⟩

/-- Two blocks are connected to it without being bound. -/
def twoPorts : List PcbCall :=
  [.alloc ⟨0, true, false⟩ (some 0), .connect oneIf 0 peer, .alloc ⟨0, true, false⟩ (some 1),
    .connect oneIf 1 peer]

theorem pcb_table_two : ∀ s ∈ run pcbStep (some (pcbInit 127)) twoPorts,
    EachOnce s ∧ OneEach s := by
  refine (pcb_table 127 twoPorts).2 (guarded_of_unshared ?_) twoPorts (List.prefix_refl _)
  refine guarded_cons (fun _ _ => trivial) (guarded_cons ?_
    (guarded_cons (fun _ _ => trivial) (guarded_cons ?_ guarded_nil)))
  · intro s hs
    exact (Option.all_eq_true (fun s => bindWild (s.pcb 0).socket) _).mp (by decide +kernel) s hs
  · intro s hs
    exact (Option.all_eq_true (fun s => bindWild (s.pcb 1).socket) _).mp (by decide +kernel) s hs

/-- The first block is bound to port 1024 and connected; the second shares its
address and is connected without being bound. -/
def sharedPort : List PcbCall :=
  [.alloc ⟨0, true, false⟩ (some 0), .bind oneIf 0 (some ⟨16, afInet, 1024, 0⟩),
    .connect oneIf 0 peer, .alloc ⟨soReuseaddr, true, false⟩ (some 1), .connect oneIf 1 peer]

/-- Both get port 1024. -/
theorem pcb_table_shared : ¬ ∀ (mask : UInt32) (es : List PcbCall),
    Always pcbStep (fun o => ∀ s ∈ o, EachOnce s ∧ OneEach s) (some (pcbInit mask)) es := by
  intro h
  have hend : (run pcbStep (some (pcbInit 127)) sharedPort).map
      (fun s => (s.live 0, s.live 1, fourTuple (s.pcb 0), fourTuple (s.pcb 1))) =
        some (true, true, ⟨0x0a000002, 80, 0x0a000001, 1024⟩,
          ⟨0x0a000002, 80, 0x0a000001, 1024⟩) := by
    decide +kernel
  obtain ⟨s, hs, heq⟩ := Option.map_eq_some_iff.mp hend
  obtain ⟨hl0, hl1, h0, h1⟩ : s.live 0 = true ∧ s.live 1 = true ∧
      fourTuple (s.pcb 0) = ⟨0x0a000002, 80, 0x0a000001, 1024⟩ ∧
      fourTuple (s.pcb 1) = ⟨0x0a000002, 80, 0x0a000001, 1024⟩ := by simpa using heq
  have hone := (h 127 sharedPort sharedPort (List.prefix_refl _) s hs).2
  have hf : (s.pcb 0).faddr = 0x0a000002 := congrArg FourTuple.faddr h0
  exact absurd (hone 0 1 hl0 hl1 (by rw [hf]; decide) (h0.trans h1.symm)) (by decide)

end VxWorks.Netinet
