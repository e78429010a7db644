import Mathlib.Data.List.Basic
import VxWorks.Lib.Run
import VxWorks.Netinet.IfEther

/-!
# An ARP answer delivers what was held

An answer gives the entry an address and `arpt_keep` seconds. Whether the packet that
was waiting goes out depends on the comparison `arpresolve` makes a moment later, on the
way through `ether_output`: the sum of the tick counter and `arpt_keep` has to come out
above the counter. It does until the counter is within `arpt_keep` seconds of wrapping.
From then on the entry has expired before it was good, the re-entered `arpresolve` frees
the packet it is asked to send, and a new request goes out for an address just learned.

The one value of the counter at which the sum is exactly 0 is harmless: 0 says that the
entry never expires.
-/

namespace VxWorks.Netinet

open VxWorks.Lib

/-- The effect is about the packet. -/
def ArpEffect.concerns (m : EtherMbuf) : ArpEffect → Bool
  | .freed n => n == m
  | .queued _ n => n == m
  | .looped n => n == m
  | _ => false

def ArpEvent.isTick : ArpEvent → Bool
  | .tick => true
  | _ => false

/-- The number of clock ticks in a run. -/
def ticksOf (es : List ArpEvent) : Nat := es.countP ArpEvent.isTick

/-- Less than `arpt_keep` seconds, in which the entry is not aged out. -/
structure ArpWindow (cfg : ArpConfig) (ac : Arpcom) (addr : UInt32) (s : ArpState)
    (es : List ArpEvent) : Prop where
  ticks : ticksOf es < cfg.keepTicks
  kept : ∀ pre, pre ++ [.timer] <+: es → ∀ st,
    run (arpStep cfg ac addr) (some s) pre = some st → st.entry.expired st.tick = false

/-- The packet the entry of the sender held is on the send queue, once, with the sender's
hardware address, and not held any more; and for `arpt_keep` seconds the address resolves
to it. -/
structure ArpDelivers (cfg : ArpConfig) (ac : Arpcom) (tick : UInt32) (link link' : LinkAnswers)
    (msg : ArpMessage) (t : ArpTable) (la : ArpEntry) : Prop where
  held : ∀ h, la.hold = some h →
    (∃ la', (inArpinput cfg ac tick link link' msg t).1.entries msg.spa = some la' ∧
      la'.hold = none) ∧
    (inArpinput cfg ac tick link link' msg t).2.filter (ArpEffect.concerns h.mbuf) =
      [.queued msg.sha h.mbuf]
  resolves : ∀ la', (inArpinput cfg ac tick link link' msg t).1.entries msg.spa = some la' →
    ∀ es, ArpWindow cfg ac msg.spa ⟨tick, la'⟩ es → ∀ m,
      ∃ st, run (arpStep cfg ac msg.spa) (some ⟨tick, la'⟩) es = some st ∧
        (arpresolveEntry cfg ac st.tick st.entry m msg.spa).2.2 = some msg.sha

/-- The message is one whose sender `in_arpinput` looks up, and `la` is what it finds. -/
structure ArpMatches (ac : Arpcom) (t : ArpTable) (msg : ArpMessage) (la : ArpEntry) : Prop where
  enaddr : msg.sha ≠ ac.enaddr
  broadcast : msg.sha ≠ etherbroadcastaddr
  lookup : ∃ myaddr, arpMyaddr ac msg = some myaddr ∧ msg.spa ≠ myaddr ∧
    arplookup t msg.spa (msg.tpa == myaddr) = some la

/-- The sum of the tick counter and `arpt_keep` does not wrap past 0, or does not matter. -/
def KeepFits (cfg : ArpConfig) (ac : Arpcom) (tick : UInt32) (msg : ArpMessage) (la : ArpEntry) :
    Prop :=
  la.expire = 0 ∨ tick.toNat + cfg.keepTicks ≤ 2 ^ 32 ∨
    ac.noarp = true ∧ noarpAddress ac 6 msg.spa = msg.sha

/-- The entry with the sender's address, before the held packet is sent. -/
def learned (cfg : ArpConfig) (tick : UInt32) (msg : ArpMessage) (la : ArpEntry) : ArpEntry :=
  { la with
    lladdr := msg.sha
    expire := if la.expire = 0 then 0 else tick + UInt32.ofNat cfg.keepTicks
    reject := false
    asked := 0 }

section

variable {cfg : ArpConfig} {ac : Arpcom} {tick : UInt32} {link link' : LinkAnswers}
  {msg : ArpMessage} {t : ArpTable} {la : ArpEntry}

theorem sha_ne_nil : msg.sha ≠ [] := by
  intro h
  have := msg.sha_length
  simp [h] at this

theorem keep_toNat : (UInt32.ofNat cfg.keepTicks).toNat = cfg.keepTicks := by
  have := cfg.keep_int
  exact UInt32.toNat_ofNat_of_lt' (show cfg.sysClkRate * cfg.arptKeep < 2 ^ 32 by omega)

/-- While less than `arpt_keep` seconds have passed, the sum is 0 or above the counter. -/
theorem expire_above {n : Nat} (hfit : tick.toNat + cfg.keepTicks ≤ 2 ^ 32)
    (hn : n < cfg.keepTicks) :
    tick + UInt32.ofNat cfg.keepTicks = 0 ∨
      tick + UInt32.ofNat n < tick + UInt32.ofNat cfg.keepTicks := by
  have hk := @keep_toNat cfg
  have hnn : (UInt32.ofNat n).toNat = n :=
    UInt32.toNat_ofNat_of_lt' (show n < 2 ^ 32 by omega)
  rcases Nat.lt_or_eq_of_le hfit with hlt | heq
  · right
    rw [UInt32.lt_iff_toNat_lt, UInt32.toNat_add, UInt32.toNat_add, hk, hnn,
      Nat.mod_eq_of_lt (by omega), Nat.mod_eq_of_lt hlt]
    omega
  · left
    apply UInt32.toNat_inj.mp
    rw [UInt32.toNat_add, hk, heq]
    rfl

/-- Within `arpt_keep` seconds of wrapping, the sum is below the counter, and not 0. -/
theorem expire_below (hwrap : 2 ^ 32 < tick.toNat + cfg.keepTicks) :
    tick + UInt32.ofNat cfg.keepTicks ≠ 0 ∧ ¬ tick < tick + UInt32.ofNat cfg.keepTicks := by
  have hk := @keep_toNat cfg
  have hint : cfg.keepTicks < 2 ^ 31 := cfg.keep_int
  have htick := tick.toNat_lt
  have hsum : (tick + UInt32.ofNat cfg.keepTicks).toNat = tick.toNat + cfg.keepTicks - 2 ^ 32 := by
    rw [UInt32.toNat_add, hk]
    omega
  constructor
  · intro h0
    rw [h0] at hsum
    simp at hsum
    omega
  · rw [UInt32.lt_iff_toNat_lt, hsum]
    omega

/-! ## The two outcomes of the comparison -/

/-- The address resolves, now and for `arpt_keep` seconds, whatever the entry holds. -/
theorem resolve_learned {n : Nat} (hfit : KeepFits cfg ac tick msg la) (hn : n < cfg.keepTicks)
    (hold m : Option UnicastMbuf) :
    arpresolveEntry cfg ac (tick + UInt32.ofNat n)
        { learned cfg tick msg la with hold := hold } m msg.spa =
      ({ learned cfg tick msg la with hold := hold }, [], some msg.sha) := by
  by_cases hres : ArpEntry.resolved { learned cfg tick msg la with hold := hold }
      (tick + UInt32.ofNat n) = true
  · rw [arpresolveEntry, if_pos hres]
    rfl
  · have hne : (learned cfg tick msg la).expire ≠ 0 ∧
        ¬ tick + UInt32.ofNat n < (learned cfg tick msg la).expire := by
      have hsha : (learned cfg tick msg la).lladdr ≠ [] := sha_ne_nil
      simpa [ArpEntry.resolved, hsha] using hres
    rcases hfit with h0 | hfit | ⟨hnoarp, haddr⟩
    · exact absurd (by simp [learned, h0]) hne.1
    · have hz : la.expire ≠ 0 := fun h0 => hne.1 (by simp [learned, h0])
      simp only [learned, if_neg hz] at hne
      rcases expire_above hfit hn with h0 | habove
      · exact absurd h0 hne.1
      · exact absurd habove hne.2
    · have hlen : (learned cfg tick msg la).lladdr.length = 6 := msg.sha_length
      rw [arpresolveEntry, if_neg hres, if_pos hnoarp]
      simp only [if_neg hne.1, hlen]
      simp [haddr]

/-- The address does not resolve, not even at once. -/
theorem resolve_not_learned (hfit : ¬ KeepFits cfg ac tick msg la) (m : Option UnicastMbuf) :
    (arpresolveEntry cfg ac tick (learned cfg tick msg la) m msg.spa).2.2 ≠ some msg.sha := by
  obtain ⟨hz, hwrap, hnoarp⟩ : la.expire ≠ 0 ∧ 2 ^ 32 < tick.toNat + cfg.keepTicks ∧
      (ac.noarp = true → noarpAddress ac 6 msg.spa ≠ msg.sha) := by
    simpa [KeepFits, not_or] using hfit
  obtain ⟨hne, hlt⟩ := expire_below hwrap
  have hexp : (learned cfg tick msg la).expire = tick + UInt32.ofNat cfg.keepTicks := if_neg hz
  have hres : ¬ (learned cfg tick msg la).resolved tick = true := by
    simp [ArpEntry.resolved, hexp, hne, hlt]
  have hlen : (learned cfg tick msg la).lladdr.length = 6 := msg.sha_length
  rw [arpresolveEntry, if_neg hres]
  by_cases harp : ac.noarp = true
  · have hexp' : ¬ (learned cfg tick msg la).expire = 0 := by
      rw [hexp]
      exact hne
    simp only [if_pos harp, if_neg hexp', hlen]
    simpa using hnoarp harp
  · simp [if_neg harp]

/-! ## What is queued -/

theorem arpAsk_queued {dst : UInt32} {d : List UInt8} {n : EtherMbuf} :
    .queued d n ∉ (arpAsk cfg tick la dst).2 := by
  rw [arpAsk]
  split
  · simp
  · dsimp only
    split
    · split <;> simp
    · simp

theorem arpresolveEntry_queued {m : Option UnicastMbuf} {dst : UInt32} {d : List UInt8}
    {n : EtherMbuf} : .queued d n ∉ (arpresolveEntry cfg ac tick la m dst).2.1 := by
  rw [arpresolveEntry]
  split
  · simp
  · split
    · dsimp only
      generalize (if la.expire = 0 then { la with expire := tick } else la : ArpEntry) = la'
      split_ifs <;> exact List.not_mem_nil
    · have := @arpAsk_queued cfg tick { la with hold := m } dst d n
      simpa using this

/-- What goes on the queue goes to the address `arpresolve` has returned. -/
theorem etherOutput_queued {m : UnicastMbuf} {dst : UInt32} {gateway : Bool} {d : List UInt8}
    {n : EtherMbuf}
    (h : .queued d n ∈ (etherOutput cfg ac tick link m.mbuf dst gateway la).2.1) :
    link.ready = true ∧ (arpresolveEntry cfg ac tick la (some m) dst).2.2 = some d := by
  unfold etherOutput at h
  by_cases hup : link.up = false
  · simp [hup] at h
  rw [if_neg hup] at h
  split at h
  · simp at h
  rw [arpresolve_unicast] at h
  have hnot := @arpresolveEntry_queued cfg ac tick la (some m) dst d n
  rcases hr : arpresolveEntry cfg ac tick la (some m) dst with ⟨la', effects, edst⟩
  rw [hr] at h hnot
  cases edst with
  | none => exact absurd h hnot
  | some edst =>
      simp only [m.bcast, Bool.false_eq_true, false_and, if_false, List.append_nil,
        List.mem_append] at h
      rcases h with h | h
      · exact absurd h hnot
      · rw [enqueue] at h
        split at h
        · simp at h
        · split at h
          · simp at h
          · simp_all [LinkAnswers.ready]

theorem arpReply_concerns {itaddr myaddr : UInt32} {m : EtherMbuf} :
    ∀ e ∈ arpReply ac t link' msg itaddr myaddr, e.concerns m = false := by
  unfold arpReply
  grind [ArpEffect.concerns]

/-! ## Delivery -/

/-- What `in_arpinput` does with a message that matches. -/
theorem inArpinput_matches (hm : ArpMatches ac t msg la) :
    ∃ t' reply, inArpinput cfg ac tick link link' msg t =
        (t', (arpLearn cfg ac tick link msg la).2 ++ reply) ∧
      t'.entries msg.spa = some (arpLearn cfg ac tick link msg la).1 ∧
      ∀ m, ∀ e ∈ reply, e.concerns m = false := by
  obtain ⟨myaddr, hmy, hspa, hlook⟩ := hm.lookup
  unfold inArpinput
  simp only [hmy, if_neg hm.enaddr, if_neg hm.broadcast, if_neg hspa, hlook]
  exact ⟨_, _, rfl, Function.update_self .., fun m => arpReply_concerns⟩

theorem arpLearn_none (hhold : la.hold = none) :
    arpLearn cfg ac tick link msg la = (learned cfg tick msg la, []) := by
  unfold arpLearn
  simp only [hhold, learned]

theorem arpLearn_some {h : UnicastMbuf} (hhold : la.hold = some h) :
    arpLearn cfg ac tick link msg la =
      ({ (etherOutput cfg ac tick link h.mbuf msg.spa false (learned cfg tick msg la)).1 with
          hold := none },
        (etherOutput cfg ac tick link h.mbuf msg.spa false (learned cfg tick msg la)).2.1) := by
  unfold arpLearn
  simp only [hhold, learned]

/-- The packet goes out, and the entry is as before. -/
theorem etherOutput_learned {n : Nat} {hold : Option UnicastMbuf} {m : UnicastMbuf}
    {gateway : Bool} (hfit : KeepFits cfg ac tick msg la) (hn : n < cfg.keepTicks) :
    (etherOutput cfg ac (tick + UInt32.ofNat n) link m.mbuf msg.spa gateway
        { learned cfg tick msg la with hold := hold }).1 =
      { learned cfg tick msg la with hold := hold } ∧
    (link.ready = true →
      (etherOutput cfg ac (tick + UInt32.ofNat n) link m.mbuf msg.spa gateway
        { learned cfg tick msg la with hold := hold }).2.1 = [.queued msg.sha m.mbuf]) := by
  unfold etherOutput
  by_cases hup : link.up = false
  · simp [hup, LinkAnswers.ready]
  · have hrej : ¬ ((learned cfg tick msg la).reject = true ∧
        ((learned cfg tick msg la).expire = 0 ∨
          tick + UInt32.ofNat n < (learned cfg tick msg la).expire)) := by
      simp [learned]
    rw [if_neg hup, if_neg hrej, arpresolve_unicast, resolve_learned hfit hn]
    refine ⟨rfl, ?_⟩
    intro hready
    obtain ⟨⟨-, hprep⟩, hroom⟩ : (link.up = true ∧ link.prepend = true) ∧ link.room = true := by
      simpa [LinkAnswers.ready] using hready
    simp [m.bcast, enqueue, hprep, hroom]

theorem learned_hold : { learned cfg tick msg la with hold := la.hold } =
    learned cfg tick msg la := rfl

theorem tick_add_zero : tick + UInt32.ofNat 0 = tick := by simp

/-- The entry behind `in_arpinput`, where the sum fits. -/
theorem arpLearn_fits (hfit : KeepFits cfg ac tick msg la) :
    (arpLearn cfg ac tick link msg la).1 = { learned cfg tick msg la with hold := none } := by
  cases hhold : la.hold with
  | none =>
      rw [arpLearn_none hhold]
      simp [learned, hhold]
  | some h =>
      have hsame := (@etherOutput_learned cfg ac tick link msg la 0 la.hold h false hfit
        cfg.keep_pos).1
      rw [tick_add_zero, learned_hold] at hsame
      rw [arpLearn_some hhold, hsame]

/-- A run of less than `arpt_keep` seconds leaves the entry alone. -/
theorem run_learned (hfit : KeepFits cfg ac tick msg la) (es : List ArpEvent)
    (hwin : ArpWindow cfg ac msg.spa ⟨tick, { learned cfg tick msg la with hold := none }⟩ es) :
    run (arpStep cfg ac msg.spa) (some ⟨tick, { learned cfg tick msg la with hold := none }⟩) es =
      some ⟨tick + UInt32.ofNat (ticksOf es), { learned cfg tick msg la with hold := none }⟩ := by
  induction es using List.reverseRecOn with
  | nil => simp [ticksOf]
  | append_singleton es e ih =>
      have hticks : ticksOf (es ++ [e]) = ticksOf es + if e.isTick then 1 else 0 := by
        simp [ticksOf, List.countP_singleton]
      have hlt := hwin.ticks
      rw [hticks] at hlt ⊢
      have hes : ticksOf es < cfg.keepTicks := by omega
      have hrun := ih ⟨hes, fun pre hpre =>
        hwin.kept pre (hpre.trans (List.prefix_append es [e]))⟩
      rw [run_concat, hrun]
      cases e with
      | tick =>
          simp only [arpStep, arpEvent, Option.bind_some, ArpEvent.isTick, if_true]
          rw [UInt32.add_assoc, ← UInt32.ofNat_one, ← UInt32.ofNat_add]
      | timer =>
          have hkept := hwin.kept es (List.prefix_refl _) _ hrun
          simp [arpStep, arpEvent, arptimer, hkept, ArpEvent.isTick]
      | resolve m =>
          simp [arpStep, arpEvent, resolve_learned hfit hes, ArpEvent.isTick]
      | output m link gateway =>
          have hsame := (@etherOutput_learned cfg ac tick link msg la _ none m gateway hfit hes).1
          simp [arpStep, arpEvent, hsame, ArpEvent.isTick]

/-- The held packet reaches the queue and the address resolves exactly where the link
takes the packet and the sum of the tick counter and `arpt_keep` does not wrap. -/
theorem arp_delivers_iff (cfg : ArpConfig) (ac : Arpcom) (tick : UInt32) (link link' : LinkAnswers)
    (msg : ArpMessage) (t : ArpTable) (la : ArpEntry) (hm : ArpMatches ac t msg la) :
    ArpDelivers cfg ac tick link link' msg t la ↔
      (la.hold ≠ none → link.ready = true) ∧ KeepFits cfg ac tick msg la := by
  obtain ⟨t', reply, hin, hentry, hreply⟩ := @inArpinput_matches cfg ac tick link link' msg t la hm
  constructor
  · intro h
    by_contra hnot
    cases hhold : la.hold with
    | none =>
        have hfit : ¬ KeepFits cfg ac tick msg la := fun hfit => hnot ⟨by simp [hhold], hfit⟩
        have hla : t'.entries msg.spa = some (learned cfg tick msg la) := by
          rw [hentry, arpLearn_none hhold]
        obtain ⟨st, hrun, hres⟩ := h.resolves _ (by rw [hin]; exact hla) []
          ⟨cfg.keep_pos, fun pre hpre => absurd (List.prefix_nil.mp hpre) (by simp)⟩ none
        obtain rfl := Option.some.inj hrun
        exact resolve_not_learned hfit none hres
    | some m =>
        obtain ⟨-, hsent⟩ := h.held m hhold
        have hmem : .queued msg.sha m.mbuf ∈ (arpLearn cfg ac tick link msg la).2 ++ reply := by
          have hin' : ArpEffect.queued msg.sha m.mbuf ∈
              (inArpinput cfg ac tick link link' msg t).2.filter (ArpEffect.concerns m.mbuf) := by
            simp [hsent]
          rw [hin] at hin'
          exact (List.mem_filter.mp hin').1
        rcases List.mem_append.mp hmem with hmem | hmem
        · rw [arpLearn_some hhold] at hmem
          obtain ⟨hready, hres⟩ := etherOutput_queued hmem
          exact hnot ⟨fun _ => hready, by_contra fun hfit => resolve_not_learned hfit _ hres⟩
        · exact absurd (hreply m.mbuf _ hmem) (by simp [ArpEffect.concerns])
  · rintro ⟨hready, hfit⟩
    have hla := hentry
    rw [arpLearn_fits hfit] at hla
    refine ⟨fun h hhold => ⟨⟨_, by rw [hin]; exact hla, rfl⟩, ?_⟩, ?_⟩
    · have hsent := (@etherOutput_learned cfg ac tick link msg la 0 la.hold h false hfit
        cfg.keep_pos).2 (hready (by simp [hhold]))
      rw [tick_add_zero, learned_hold] at hsent
      rw [hin, arpLearn_some hhold]
      have hnone : reply.filter (ArpEffect.concerns h.mbuf) = [] :=
        List.filter_eq_nil_iff.mpr fun e he => by simp [hreply h.mbuf e he]
      simp only [hsent, List.filter_append, hnone]
      simp [ArpEffect.concerns]
    · intro la' hla' es hwin m
      obtain rfl : { learned cfg tick msg la with hold := none } = la' := by
        rw [hin] at hla'
        exact Option.some.inj (hla.symm.trans hla')
      refine ⟨_, run_learned hfit es hwin, ?_⟩
      rw [resolve_learned hfit hwin.ticks]

end

/-- The defaults of if_ether.c, with 60 ticks a second. -/
def arpDefaults : ArpConfig :=
  ⟨60, 20 * 60, 20, -1, 5, by decide, by decide, by decide, by decide, by decide⟩

/-- An interface with address 10.0.0.1. -/
def ether0 : Arpcom :=
  ⟨0, [0x00, 0xa0, 0x1e, 0x00, 0x00, 0x01], false, true, [⟨0, 0x0a000001, 0x0a000000, 0xff000000⟩]⟩

def waiting : UnicastMbuf := ⟨⟨0, false, false⟩, rfl, rfl⟩

/-- An entry for 10.0.0.2, asked for at tick `since`, with a packet. -/
def asking (since : UInt32) : ArpEntry := ⟨since, [], false, 1, some waiting, 1⟩

def oneEntry (la : ArpEntry) : ArpTable :=
  ⟨fun addr => if addr = 0x0a000002 then some la else none, fun _ => none, fun _ => none⟩

/-- The answer from 10.0.0.2. -/
def answer : ArpMessage :=
  ⟨2, [0x00, 0xa0, 0x1e, 0x00, 0x00, 0x02], 0x0a000002, 0x0a000001, rfl⟩

def linkUp : LinkAnswers := ⟨true, true, true⟩

theorem arp_delivers_early :
    ArpDelivers arpDefaults ether0 1010 linkUp linkUp answer (oneEntry (asking 1000))
      (asking 1000) := by
  have hm : ArpMatches ether0 (oneEntry (asking 1000)) answer (asking 1000) :=
    ⟨by decide, by decide, 0x0a000001, by decide, by decide, by decide⟩
  exact (arp_delivers_iff _ _ _ _ _ _ _ _ hm).mpr ⟨fun _ => rfl, .inr (.inl (by decide))⟩

/-- Ten seconds before the counter wraps, the answer frees the packet. -/
theorem arp_frees_late :
    ¬ ArpDelivers arpDefaults ether0 4294966696 linkUp linkUp answer
      (oneEntry (asking 4294966690)) (asking 4294966690) := by
  intro h
  obtain ⟨-, hsent⟩ := h.held waiting rfl
  revert hsent
  decide

end VxWorks.Netinet
