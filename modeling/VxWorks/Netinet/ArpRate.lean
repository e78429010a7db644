import Mathlib.Data.List.Basic
import VxWorks.Lib.Run
import VxWorks.Netinet.IfEther
import VxWorks.Netinet.ArpDelivery

/-!
# How often an address is asked for

`la_asked` counts the requests, `rt_expire` is the tick of the last one, and both are
all there is to keep the requests `arpRxmitTicks` apart and to stop them after
`arp_maxtries`. The one thing that takes them away too early is `arptimer`: an entry
that is being asked for has its `rt_expire` in the past, so the pass takes it for one
that has expired and clears the count, and the next packet asks at once.

The host is not declared down by the last request but by the first packet that would
have made one more. From there the reject flag makes `ether_output` refuse, until the
tick in `rt_expire`, and no pass of the timer finds the entry expired before that.
-/

namespace VxWorks.Netinet

open VxWorks.Lib

def ArpEffect.isRequest : ArpEffect → Bool
  | .request _ => true
  | _ => false

/-- The event sends an ARP request. -/
def asks (cfg : ArpConfig) (ac : Arpcom) (addr : UInt32) (s : ArpState) (e : ArpEvent) : Bool :=
  (arpEvent cfg ac addr s e).2.1.any ArpEffect.isRequest

/-- The number of requests in a run. -/
def requestsOf (cfg : ArpConfig) (ac : Arpcom) (addr : UInt32) :
    Option ArpState → List ArpEvent → Nat
  | _, [] => 0
  | s, e :: es =>
      (s.any fun s => asks cfg ac addr s e).toNat +
        requestsOf cfg ac addr (arpStep cfg ac addr s e) es

/-- The run goes on through `ether_output` only, behind the first tick and with the end
of a down period not past the wrap of the counter, and no pass of the timer clears the
count of an entry that is being asked for. -/
def Undisturbed (cfg : ArpConfig) : Option ArpState → ArpEvent → Prop
  | none, _ => True
  | some s, .tick => s.tick.toNat + 1 < 2 ^ 32
  | some s, .timer => s.entry.asked = 0 ∨ s.entry.expired s.tick = false
  | some _, .resolve _ => False
  | some s, .output _ _ _ => 0 < s.tick.toNat ∧ s.tick.toNat + cfg.downTicks < 2 ^ 32

/-- Any two requests are `arpRxmitTicks` apart. -/
def RequestsSpaced (cfg : ArpConfig) (ac : Arpcom) (addr : UInt32) (s : ArpState)
    (es : List ArpEvent) : Prop :=
  ∀ pre a mid b s₁ s₂, pre ++ a :: mid ++ [b] <+: es →
    run (arpStep cfg ac addr) (some s) pre = some s₁ → asks cfg ac addr s₁ a = true →
    run (arpStep cfg ac addr) (some s) (pre ++ a :: mid) = some s₂ →
    asks cfg ac addr s₂ b = true → s₁.tick.toNat + cfg.rxmitTicks ≤ s₂.tick.toNat

/-! ## One call -/

section

variable {cfg : ArpConfig} {ac : Arpcom} {tick : UInt32} {la : ArpEntry} {dst : UInt32}

theorem down_toNat : (UInt32.ofNat cfg.downTicks).toNat = cfg.downTicks := by
  have := cfg.down_int
  exact UInt32.toNat_ofNat_of_lt' (show cfg.sysClkRate * cfg.arptDown < 2 ^ 32 by omega)

theorem rxmit_toNat : (UInt32.ofNat cfg.rxmitTicks).toNat = cfg.rxmitTicks := by
  have hrate := cfg.rate_int
  have hrx := cfg.rxmit_int
  apply UInt32.toNat_ofNat_of_lt'
  rw [ArpConfig.rxmitTicks]
  split <;> show _ < 2 ^ 32 <;> omega

/-- Everything `arpAsk` can do to an entry that does not expire at 0. -/
theorem arpAsk_cases (hexp : la.expire ≠ 0) :
    (arpAsk cfg tick la dst = ({ la with reject := false }, []) ∧ la.asked ≠ 0 ∧
      ¬ UInt32.ofNat cfg.rxmitTicks ≤ tick - la.expire) ∨
    (arpAsk cfg tick la dst =
        ({ la with reject := false, expire := tick, asked := la.asked + 1 }, [.request dst]) ∧
      la.asked < cfg.arpMaxtries ∧
      (la.asked = 0 ∨ UInt32.ofNat cfg.rxmitTicks ≤ tick - la.expire)) ∨
    (arpAsk cfg tick la dst =
        ({ la with reject := true, expire := tick + UInt32.ofNat cfg.downTicks, asked := 0 }, []) ∧
      cfg.arpMaxtries ≤ la.asked ∧
      (la.asked = 0 ∨ UInt32.ofNat cfg.rxmitTicks ≤ tick - la.expire)) := by
  rw [arpAsk]
  rw [if_neg hexp]
  by_cases hdue : la.asked = 0 ∨ UInt32.ofNat cfg.rxmitTicks ≤ tick - la.expire
  · right
    by_cases hmax : la.asked < cfg.arpMaxtries
    · left
      simp [hdue, hmax]
    · right
      simp [hdue, hmax, Nat.le_of_not_lt hmax]
  · left
    have := not_or.mp hdue
    simp [this]

theorem arpAsk_permanent (hexp : la.expire = 0) : arpAsk cfg tick la dst = (la, []) :=
  if_pos hexp

end

section

variable {cfg : ArpConfig} {ac : Arpcom} {addr : UInt32} {s : ArpState}

theorem enqueue_asks (link : LinkAnswers) (edst : List UInt8) (m : EtherMbuf) :
    (enqueue link edst m).1.any ArpEffect.isRequest = false := by
  rw [enqueue]
  split
  · rfl
  · split <;> rfl

theorem arpresolveEntry_noarp (hnoarp : ac.noarp = true) (hres : ¬ s.entry.resolved s.tick = true)
    (m : Option UnicastMbuf) (dst : UInt32) :
    ∃ la edst, arpresolveEntry cfg ac s.tick s.entry m dst = (la, [], edst) ∧
      la.asked = s.entry.asked := by
  rw [arpresolveEntry]
  rw [if_neg hres, if_pos hnoarp]
  have hasked : (if s.entry.expire = 0 then { s.entry with expire := s.tick } else s.entry :
      ArpEntry).asked = s.entry.asked := by
    split <;> rfl
  dsimp only at hasked ⊢
  generalize (if s.entry.expire = 0 then { s.entry with expire := s.tick } else s.entry :
    ArpEntry) = la at hasked ⊢
  split_ifs <;> exact ⟨_, _, rfl, hasked⟩

/-- What `ether_output` does to the entry. Either the packet does not get to the request,
or the interface makes up addresses, or the entry holds the packet and asks. -/
theorem output_cases (cfg : ArpConfig) (ac : Arpcom) (addr : UInt32) (s : ArpState)
    (m : UnicastMbuf) (link : LinkAnswers) (gateway : Bool) :
    (asks cfg ac addr s (.output m link gateway) = false ∧
      (arpEvent cfg ac addr s (.output m link gateway)).1 = some s ∧
      (link.up = true → s.entry.resolved s.tick = true ∨
        s.entry.reject = true ∧ (s.entry.expire = 0 ∨ s.tick < s.entry.expire) ∧
          (arpEvent cfg ac addr s (.output m link gateway)).2.2 =
            some (if gateway then .ehostunreach else .ehostdown))) ∨
    (asks cfg ac addr s (.output m link gateway) = false ∧ ac.noarp = true ∧
      ∃ la, (arpEvent cfg ac addr s (.output m link gateway)).1 = some ⟨s.tick, la⟩ ∧
        la.asked = s.entry.asked) ∨
    (ac.noarp = false ∧ link.up = true ∧ s.entry.resolved s.tick = false ∧
      (s.entry.reject = true → s.entry.expire ≠ 0 ∧ ¬ s.tick < s.entry.expire) ∧
      asks cfg ac addr s (.output m link gateway) =
        (arpAsk cfg s.tick { s.entry with hold := some m } addr).2.any ArpEffect.isRequest ∧
      (arpEvent cfg ac addr s (.output m link gateway)).1 =
        some ⟨s.tick, (arpAsk cfg s.tick { s.entry with hold := some m } addr).1⟩) := by
  have hevent : ∀ la effects error,
      etherOutput cfg ac s.tick link m.mbuf addr gateway s.entry = (la, effects, error) →
      arpEvent cfg ac addr s (.output m link gateway) =
        (some ⟨s.tick, la⟩, effects, error) := by
    intro la effects error h
    simp only [arpEvent, h]
  by_cases hup : link.up = true
  · by_cases hrej : s.entry.reject = true ∧ (s.entry.expire = 0 ∨ s.tick < s.entry.expire)
    · left
      have hout : etherOutput cfg ac s.tick link m.mbuf addr gateway s.entry =
          (s.entry, [.freed m.mbuf], some (if gateway then .ehostunreach else .ehostdown)) := by
        simp [etherOutput, hup, hrej]
      simp [asks, hevent _ _ _ hout, hrej, ArpEffect.isRequest]
    · by_cases hres : s.entry.resolved s.tick = true
      · left
        have hout : etherOutput cfg ac s.tick link m.mbuf addr gateway s.entry = _ :=
          etherOutput_sent hup hrej (if_pos hres)
        simp [asks, hevent _ _ _ hout, enqueue_asks, hres]
      · right
        by_cases hnoarp : ac.noarp = true
        · left
          obtain ⟨la, edst, hask, hla⟩ := arpresolveEntry_noarp hnoarp hres (some m) addr
          cases edst with
          | none =>
              have hout : etherOutput cfg ac s.tick link m.mbuf addr gateway s.entry = _ :=
                etherOutput_held hup hrej hask
              simp [asks, hevent _ _ _ hout, hnoarp, hla]
          | some edst =>
              have hout : etherOutput cfg ac s.tick link m.mbuf addr gateway s.entry = _ :=
                etherOutput_sent hup hrej hask
              simp [asks, hevent _ _ _ hout, hnoarp, hla, enqueue_asks]
        · right
          have hask : arpresolveEntry cfg ac s.tick s.entry (some m) addr =
              ((arpAsk cfg s.tick { s.entry with hold := some m } addr).1,
                (s.entry.hold.toList.map fun h => ArpEffect.freed h.mbuf) ++
                  (arpAsk cfg s.tick { s.entry with hold := some m } addr).2, none) := by
            rw [arpresolveEntry, if_neg hres, if_neg hnoarp]
          have hout : etherOutput cfg ac s.tick link m.mbuf addr gateway s.entry = _ :=
            etherOutput_held hup hrej hask
          have hfreed : (s.entry.hold.toList.map fun h => ArpEffect.freed h.mbuf).any
              ArpEffect.isRequest = false := by
            cases s.entry.hold <;> rfl
          refine ⟨by simpa using hnoarp, hup, by simpa using hres, fun hr => ?_, ?_, ?_⟩
          · exact not_or.mp fun h => hrej ⟨hr, h⟩
          · rw [asks, hevent _ _ _ hout, List.any_append, hfreed]
            rfl
          · rw [hevent _ _ _ hout]
  · left
    have hout : etherOutput cfg ac s.tick link m.mbuf addr gateway s.entry =
        (s.entry, [.freed m.mbuf], some .enetdown) := by
      simp [etherOutput, hup]
    simp [asks, hevent _ _ _ hout, hup, ArpEffect.isRequest]

/-- A request is one more, and its tick is kept. -/
structure Asked (cfg : ArpConfig) (ac : Arpcom) (s s' : ArpState) : Prop where
  arp : ac.noarp = false
  expire : s'.entry.expire = s.tick
  asked : s'.entry.asked = s.entry.asked + 1
  reject : s'.entry.reject = false
  tick : s'.tick = s.tick
  left : s.entry.asked < cfg.arpMaxtries
  due : s.entry.asked = 0 ∨ UInt32.ofNat cfg.rxmitTicks ≤ s.tick - s.entry.expire

theorem asked_of_asks {e : ArpEvent} (hg : Undisturbed cfg (some s) e)
    (h : asks cfg ac addr s e = true) :
    ∃ s', arpStep cfg ac addr (some s) e = some s' ∧ Asked cfg ac s s' := by
  cases e with
  | tick => simp [asks, arpEvent] at h
  | timer => simp [asks, arpEvent] at h
  | resolve m => exact absurd hg id
  | output m link gateway =>
      rcases output_cases cfg ac addr s m link gateway with
        ⟨hno, -⟩ | ⟨hno, -⟩ | ⟨hnoarp, -, -, -, hasks, hstep⟩
      · exact absurd h (by simp [hno])
      · exact absurd h (by simp [hno])
      · refine ⟨_, hstep, ?_⟩
        rw [hasks] at h
        by_cases hexp : s.entry.expire = 0
        · rw [arpAsk_permanent (show ({ s.entry with hold := some m } : ArpEntry).expire = 0
            from hexp)] at h
          simp at h
        · rcases @arpAsk_cases cfg s.tick { s.entry with hold := some m } addr hexp with
            ⟨heq, -⟩ | ⟨heq, hleft, hdue⟩ | ⟨heq, -⟩
          · rw [heq] at h
            simp at h
          · rw [heq]
            exact ⟨hnoarp, rfl, rfl, rfl, rfl, hleft, hdue⟩
          · rw [heq] at h
            simp at h

/-! ## Requests are apart -/

/-- The entry was last asked for at tick `last`. -/
structure Asking (s : ArpState) (last : Nat) : Prop where
  asked : s.entry.asked ≠ 0
  expire : s.entry.expire.toNat = last
  after : last ≤ s.tick.toNat

/-- Either enough time has passed since tick `last`, or the entry still knows of it. -/
def SpacedFrom (cfg : ArpConfig) (s : ArpState) (last : Nat) : Prop :=
  last + cfg.rxmitTicks ≤ s.tick.toNat ∨ Asking s last

theorem Asking.due {last : Nat} (h : Asking s last)
    (hdue : s.entry.asked = 0 ∨ UInt32.ofNat cfg.rxmitTicks ≤ s.tick - s.entry.expire) :
    last + cfg.rxmitTicks ≤ s.tick.toNat := by
  rcases hdue with h0 | hdue
  · exact absurd h0 h.asked
  · have hle : s.entry.expire ≤ s.tick := by
      rw [UInt32.le_iff_toNat_le, h.expire]
      exact h.after
    rw [UInt32.le_iff_toNat_le, rxmit_toNat, UInt32.toNat_sub_of_le _ _ hle, h.expire] at hdue
    have := h.after
    omega

theorem asks_spaced {last : Nat} {e : ArpEvent} (h : SpacedFrom cfg s last)
    (hg : Undisturbed cfg (some s) e) (hasks : asks cfg ac addr s e = true) :
    last + cfg.rxmitTicks ≤ s.tick.toNat := by
  rcases h with h | h
  · exact h
  · obtain ⟨s', -, hasked⟩ := asked_of_asks hg hasks
    exact h.due hasked.due

theorem tick_toNat (hg : Undisturbed cfg (some s) .tick) :
    (s.tick + 1).toNat = s.tick.toNat + 1 := by
  have : s.tick.toNat + 1 < 2 ^ 32 := hg
  rw [UInt32.toNat_add]
  exact Nat.mod_eq_of_lt this

/-- Time does not go back. -/
theorem tick_le {e : ArpEvent} {s' : ArpState} (hg : Undisturbed cfg (some s) e)
    (hstep : arpStep cfg ac addr (some s) e = some s') : s.tick.toNat ≤ s'.tick.toNat := by
  cases e with
  | tick =>
      obtain rfl := Option.some.inj hstep
      have := tick_toNat hg
      simp only
      omega
  | timer =>
      obtain ⟨la, -, rfl⟩ := Option.map_eq_some_iff.mp hstep
      exact Nat.le_refl _
  | resolve m => exact absurd hg id
  | output m link gateway =>
      obtain rfl := Option.some.inj hstep
      exact Nat.le_refl _

theorem spaced_step {last : Nat} {e : ArpEvent} {s' : ArpState} (harp : ac.noarp = false)
    (h : SpacedFrom cfg s last) (hg : Undisturbed cfg (some s) e)
    (hstep : arpStep cfg ac addr (some s) e = some s') : SpacedFrom cfg s' last := by
  rcases h with hpast | h
  · exact .inl (Nat.le_trans hpast (tick_le hg hstep))
  cases e with
  | tick =>
      obtain rfl := Option.some.inj hstep
      refine .inr ⟨h.asked, h.expire, ?_⟩
      have := tick_toNat hg
      have := h.after
      simp only
      omega
  | timer =>
      rcases hg with h0 | hkept
      · exact absurd h0 h.asked
      · have : arpStep cfg ac addr (some s) .timer = some s := by
          simp [arpStep, arpEvent, arptimer, hkept]
        obtain rfl := Option.some.inj (this.symm.trans hstep)
        exact .inr h
  | resolve m => exact absurd hg id
  | output m link gateway =>
      rcases output_cases cfg ac addr s m link gateway with
        ⟨-, hsame, -⟩ | ⟨-, hnoarp, -⟩ | ⟨-, -, -, -, -, hnew⟩
      · obtain rfl := Option.some.inj (hsame.symm.trans hstep)
        exact .inr h
      · exact absurd hnoarp (by simp [harp])
      · obtain rfl := Option.some.inj (hnew.symm.trans hstep)
        by_cases hexp : s.entry.expire = 0
        · rw [arpAsk_permanent (show ({ s.entry with hold := some m } : ArpEntry).expire = 0
            from hexp)]
          exact .inr ⟨h.asked, h.expire, h.after⟩
        · rcases @arpAsk_cases cfg s.tick { s.entry with hold := some m } addr hexp with
            ⟨heq, -⟩ | ⟨-, -, hdue⟩ | ⟨-, -, hdue⟩
          · rw [heq]
            exact .inr ⟨h.asked, h.expire, h.after⟩
          · exact .inl (h.due hdue)
          · exact .inl (h.due hdue)

theorem spaced_run {last : Nat} {es : List ArpEvent} {s' : ArpState} (harp : ac.noarp = false)
    (h : SpacedFrom cfg s last)
    (hg : Guarded (arpStep cfg ac addr) (Undisturbed cfg) (some s) es)
    (hrun : run (arpStep cfg ac addr) (some s) es = some s') : SpacedFrom cfg s' last := by
  have hinv := always_of_guarded (fun o => ∀ s, o = some s → SpacedFrom cfg s last)
    (fun _ heq => Option.some.inj heq ▸ h)
    (fun o e hi hge s' hs' => by
      cases o with
      | none => cases hs'
      | some s => exact spaced_step harp (hi s rfl) hge hs')
    hg es (List.prefix_refl _)
  exact hinv s' hrun

theorem requests_spaced {es : List ArpEvent}
    (hg : Guarded (arpStep cfg ac addr) (Undisturbed cfg) (some s) es) :
    RequestsSpaced cfg ac addr s es := by
  intro pre a mid b s₁ s₂ hpre hrun₁ hasks₁ hrun₂ hasks₂
  have hall := hg.of_prefix hpre
  have hmid : Guarded (arpStep cfg ac addr) (Undisturbed cfg) (some s₁) (a :: mid ++ [b]) := by
    rw [List.append_assoc] at hall
    have := hall.append_right
    rwa [hrun₁] at this
  obtain ⟨s', hstep, hasked⟩ := asked_of_asks hmid.head hasks₁
  have htail : Guarded (arpStep cfg ac addr) (Undisturbed cfg) (some s') (mid ++ [b]) := by
    have := hmid.tail
    rwa [hstep] at this
  have hrun' : run (arpStep cfg ac addr) (some s') mid = some s₂ := by
    rw [run_append, hrun₁, run_cons, hstep] at hrun₂
    exact hrun₂
  have hstart : SpacedFrom cfg s' s₁.tick.toNat := by
    refine .inr ⟨?_, ?_, ?_⟩
    · simp [hasked.asked]
    · rw [hasked.expire]
    · exact hasked.tick ▸ Nat.le_refl _
  have hend := spaced_run hasked.arp hstart (htail.of_prefix (List.prefix_append _ _)) hrun'
  have hb : Undisturbed cfg (some s₂) b := by
    have := htail mid b (List.prefix_refl _)
    rwa [hrun'] at this
  exact asks_spaced hend hb hasks₂

/-! ## And they stop -/

/-- All requests have been sent, the last at tick `last`. -/
structure AwaitingDown (cfg : ArpConfig) (s : ArpState) (last : Nat) : Prop where
  tries : 0 < cfg.arpMaxtries
  asked : s.entry.asked = cfg.arpMaxtries
  expire : s.entry.expire.toNat = last
  reject : s.entry.reject = false
  pos : 0 < last
  after : last ≤ s.tick.toNat

/-- The host was declared down at tick `down`. -/
structure Rejecting (cfg : ArpConfig) (s : ArpState) (down : Nat) : Prop where
  reject : s.entry.reject = true
  expire : s.entry.expire.toNat = down + cfg.downTicks

theorem AwaitingDown.asking {last : Nat} (h : AwaitingDown cfg s last) : Asking s last :=
  ⟨by rw [h.asked]; exact Nat.pos_iff_ne_zero.mp h.tries, h.expire, h.after⟩

theorem AwaitingDown.expire_ne {last : Nat} (h : AwaitingDown cfg s last) : s.entry.expire ≠ 0 := by
  intro h0
  have := h.expire
  have := h.pos
  simp [h0] at *
  omega

theorem AwaitingDown.unresolved {last : Nat} (h : AwaitingDown cfg s last) :
    s.entry.resolved s.tick = false := by
  have hle : ¬ s.tick < s.entry.expire := by
    rw [UInt32.lt_iff_toNat_lt, h.expire]
    exact Nat.not_lt.mpr h.after
  simp [ArpEntry.resolved, h.expire_ne, hle]

/-- No `ether_output` on the way gets as far as to declare the host down. -/
def Early (cfg : ArpConfig) (last : Nat) : Option ArpState → ArpEvent → Prop
  | some s, .output _ link _ => link.up = true → s.tick.toNat < last + cfg.rxmitTicks
  | _, _ => True

/-- What can happen to an entry whose requests have all been sent. -/
theorem waiting_step {last : Nat} {e : ArpEvent} {s' : ArpState} (harp : ac.noarp = false)
    (h : AwaitingDown cfg s last) (hg : Undisturbed cfg (some s) e)
    (hstep : arpStep cfg ac addr (some s) e = some s') :
    asks cfg ac addr s e = false ∧
      (AwaitingDown cfg s' last ∧ Early cfg last (some s) e ∨
        Rejecting cfg s' s.tick.toNat ∧ ¬ Early cfg last (some s) e) := by
  cases e with
  | tick =>
      obtain rfl := Option.some.inj hstep
      refine ⟨by simp [asks, arpEvent],
        .inl ⟨⟨h.tries, h.asked, h.expire, h.reject, h.pos, ?_⟩, trivial⟩⟩
      have := tick_toNat hg
      have := h.after
      simp only
      omega
  | timer =>
      rcases hg with h0 | hkept
      · exact absurd h0 h.asking.asked
      · have : arpStep cfg ac addr (some s) .timer = some s := by
          simp [arpStep, arpEvent, arptimer, hkept]
        obtain rfl := Option.some.inj (this.symm.trans hstep)
        exact ⟨by simp [asks, arpEvent], .inl ⟨h, trivial⟩⟩
  | resolve m => exact absurd hg id
  | output m link gateway =>
      rcases output_cases cfg ac addr s m link gateway with
        ⟨hno, hsame, hup⟩ | ⟨-, hnoarp, -⟩ | ⟨-, hup, -, -, hasks, hnew⟩
      · obtain rfl := Option.some.inj (hsame.symm.trans hstep)
        refine ⟨hno, .inl ⟨h, ?_⟩⟩
        intro hu
        rcases hup hu with hres | ⟨hrej, -⟩
        · exact absurd hres (by simp [h.unresolved])
        · exact absurd hrej (by simp [h.reject])
      · exact absurd hnoarp (by simp [harp])
      · obtain rfl := Option.some.inj (hnew.symm.trans hstep)
        rw [hasks]
        rcases @arpAsk_cases cfg s.tick { s.entry with hold := some m } addr h.expire_ne with
          ⟨heq, -, hdue⟩ | ⟨-, hleft, -⟩ | ⟨heq, -, hdue⟩
        · rw [heq]
          refine ⟨rfl, .inl ⟨⟨h.tries, h.asked, h.expire, rfl, h.pos, h.after⟩, ?_⟩⟩
          intro _
          by_contra hlate
          apply hdue
          have hle : s.entry.expire ≤ s.tick := by
            rw [UInt32.le_iff_toNat_le, h.expire]
            exact h.after
          rw [UInt32.le_iff_toNat_le, rxmit_toNat, UInt32.toNat_sub_of_le _ _ hle, h.expire]
          omega
        · exact absurd hleft (by rw [h.asked]; exact Nat.lt_irrefl _)
        · rw [heq]
          refine ⟨rfl, .inr ⟨⟨rfl, ?_⟩, ?_⟩⟩
          · rw [UInt32.toNat_add, down_toNat]
            exact Nat.mod_eq_of_lt hg.2
          · intro hearly
            exact absurd (hearly hup) (Nat.not_lt.mpr (h.asking.due hdue))

theorem output_rejected (hrej : s.entry.reject = true) (htick : s.tick < s.entry.expire)
    (m : UnicastMbuf) (link : LinkAnswers) (gateway : Bool) :
    asks cfg ac addr s (.output m link gateway) = false ∧
      (arpEvent cfg ac addr s (.output m link gateway)).1 = some s ∧
      (link.up = true → (arpEvent cfg ac addr s (.output m link gateway)).2.2 =
        some (if gateway then .ehostunreach else .ehostdown)) := by
  by_cases hup : link.up = true
  · simp [asks, arpEvent, etherOutput, hup, hrej, htick, ArpEffect.isRequest]
  · simp [asks, arpEvent, etherOutput, hup, ArpEffect.isRequest]

/-- What can happen to an entry of a host that is down. -/
theorem rejecting_step {down : Nat} {e : ArpEvent} {s' : ArpState} (h : Rejecting cfg s down)
    (hlt : s.tick.toNat < down + cfg.downTicks) (hg : Undisturbed cfg (some s) e)
    (hstep : arpStep cfg ac addr (some s) e = some s') :
    asks cfg ac addr s e = false ∧ Rejecting cfg s' down := by
  have htick : s.tick < s.entry.expire := by
    rw [UInt32.lt_iff_toNat_lt, h.expire]
    exact hlt
  cases e with
  | tick =>
      obtain rfl := Option.some.inj hstep
      exact ⟨by simp [asks, arpEvent], h.reject, h.expire⟩
  | timer =>
      have hkept : s.entry.expired s.tick = false := by
        simp [ArpEntry.expired, htick]
      have : arpStep cfg ac addr (some s) .timer = some s := by
        simp [arpStep, arpEvent, arptimer, hkept]
      obtain rfl := Option.some.inj (this.symm.trans hstep)
      exact ⟨by simp [asks, arpEvent], h⟩
  | resolve m => exact absurd hg id
  | output m link gateway =>
      obtain ⟨hno, hsame, -⟩ := @output_rejected cfg ac addr s h.reject htick m link gateway
      obtain rfl := Option.some.inj (hsame.symm.trans hstep)
      exact ⟨hno, h⟩

/-! ## The count -/

/-- Without a request the count stays, or the host is declared down. -/
theorem asked_of_not_asks {e : ArpEvent} {s' : ArpState} (hg : Undisturbed cfg (some s) e)
    (hno : asks cfg ac addr s e = false) (hstep : arpStep cfg ac addr (some s) e = some s') :
    s'.entry.asked = s.entry.asked ∨ cfg.arpMaxtries ≤ s.entry.asked := by
  cases e with
  | tick =>
      obtain rfl := Option.some.inj hstep
      exact .inl rfl
  | timer =>
      left
      obtain ⟨la, hla, rfl⟩ := Option.map_eq_some_iff.mp hstep
      by_cases hexp : s.entry.expired s.tick = true
      · have h0 : s.entry.asked = 0 := hg.resolve_right (by simp [hexp])
        rw [arptimer, if_pos hexp, arptfree] at hla
        split at hla
        · obtain rfl := Option.some.inj hla
          exact h0.symm
        · cases hla
      · rw [arptimer, if_neg hexp] at hla
        obtain rfl := Option.some.inj hla
        rfl
  | resolve m => exact absurd hg id
  | output m link gateway =>
      rcases output_cases cfg ac addr s m link gateway with
        ⟨-, hsame, -⟩ | ⟨-, -, la, hnew, hla⟩ | ⟨-, -, -, -, hasks, hnew⟩
      · obtain rfl := Option.some.inj (hsame.symm.trans hstep)
        exact .inl rfl
      · obtain rfl := Option.some.inj (hnew.symm.trans hstep)
        exact .inl hla
      · obtain rfl := Option.some.inj (hnew.symm.trans hstep)
        by_cases hexp : s.entry.expire = 0
        · rw [arpAsk_permanent (show ({ s.entry with hold := some m } : ArpEntry).expire = 0
            from hexp)]
          exact .inl rfl
        · rcases @arpAsk_cases cfg s.tick { s.entry with hold := some m } addr hexp with
            ⟨heq, -⟩ | ⟨heq, -⟩ | ⟨-, hmax, -⟩
          · rw [heq]
            exact .inl rfl
          · rw [heq] at hasks
            exact absurd (hno.symm.trans hasks) (by simp [ArpEffect.isRequest])
          · exact .inr hmax

theorem requestsOf_concat (o : Option ArpState) (es : List ArpEvent) (e : ArpEvent) :
    requestsOf cfg ac addr o (es ++ [e]) = requestsOf cfg ac addr o es +
      ((run (arpStep cfg ac addr) o es).any fun s => asks cfg ac addr s e).toNat := by
  induction es generalizing o with
  | nil => simp [requestsOf]
  | cons a es ih =>
      simp only [List.cons_append, requestsOf, run_cons, ih]
      omega

/-- Until all requests have been sent, `la_asked` is their number. -/
theorem asked_eq_requests {es : List ArpEvent} (h0 : s.entry.asked = 0)
    (hg : Guarded (arpStep cfg ac addr) (Undisturbed cfg) (some s) es) :
    requestsOf cfg ac addr (some s) es < cfg.arpMaxtries → ∀ s',
      run (arpStep cfg ac addr) (some s) es = some s' →
      s'.entry.asked = requestsOf cfg ac addr (some s) es := by
  induction es using List.reverseRecOn with
  | nil =>
      intro _ s' hrun
      obtain rfl := Option.some.inj hrun
      exact h0
  | append_singleton es e ih =>
      intro hlt s' hrun
      rw [run_concat] at hrun
      cases hmid : run (arpStep cfg ac addr) (some s) es with
      | none =>
          rw [hmid] at hrun
          cases hrun
      | some s₁ =>
          rw [hmid] at hrun
          rw [requestsOf_concat, hmid, Option.any_some] at hlt ⊢
          have hasked := ih (hg.of_prefix (List.prefix_append es [e])) (by omega) s₁ hmid
          have hge : Undisturbed cfg (some s₁) e := by
            have := hg es e (List.prefix_refl _)
            rwa [hmid] at this
          cases hasks : asks cfg ac addr s₁ e with
          | true =>
              obtain ⟨s₂, hstep, ha⟩ := asked_of_asks hge hasks
              obtain rfl := Option.some.inj (hstep.symm.trans hrun)
              rw [ha.asked, hasked]
              rfl
          | false =>
              rw [hasks] at hlt
              rcases asked_of_not_asks hge hasks hrun with hsame | hmax
              · rw [hsame, hasked]
                rfl
              · rw [hasked] at hmax
                exact absurd hlt (Nat.not_lt.mpr hmax)

/-- The entry behind the last request. -/
theorem waiting_of_last {pre : List ArpEvent} {a : ArpEvent} {s₁ : ArpState}
    (h0 : s.entry.asked = 0)
    (hg : Guarded (arpStep cfg ac addr) (Undisturbed cfg) (some s) (pre ++ [a]))
    (hrun : run (arpStep cfg ac addr) (some s) pre = some s₁)
    (hasks : asks cfg ac addr s₁ a = true)
    (hcount : requestsOf cfg ac addr (some s) (pre ++ [a]) = cfg.arpMaxtries) :
    ac.noarp = false ∧ ∃ s', arpStep cfg ac addr (some s₁) a = some s' ∧
      AwaitingDown cfg s' s₁.tick.toNat := by
  have hga : Undisturbed cfg (some s₁) a := by
    have := hg pre a (List.prefix_refl _)
    rwa [hrun] at this
  rw [requestsOf_concat, hrun, Option.any_some, hasks, Bool.toNat_true] at hcount
  have hasked := asked_eq_requests h0 (hg.of_prefix (List.prefix_append pre [a])) (by omega) s₁ hrun
  obtain ⟨s', hstep, ha⟩ := asked_of_asks hga hasks
  refine ⟨ha.arp, s', hstep, by omega, by rw [ha.asked]; omega, by rw [ha.expire], ha.reject, ?_, ?_⟩
  · cases a with
    | output m link gateway => exact hga.1
    | tick => simp [asks, arpEvent] at hasks
    | timer => simp [asks, arpEvent] at hasks
    | resolve m => exact absurd hga id
  · exact ha.tick ▸ Nat.le_refl _

/-- Until `arpt_down` seconds behind the last request, the entry waits or rejects. -/
theorem quiet_run {last : Nat} {q : List ArpEvent} {s' : ArpState} (harp : ac.noarp = false)
    (h : AwaitingDown cfg s last)
    (hg : Guarded (arpStep cfg ac addr) (Undisturbed cfg) (some s) q)
    (hrun : run (arpStep cfg ac addr) (some s) q = some s')
    (hlt : s'.tick.toNat < last + cfg.downTicks) :
    AwaitingDown cfg s' last ∨ ∃ down, last ≤ down ∧ Rejecting cfg s' down := by
  have hinv := always_of_guarded
    (fun o => ∀ s, o = some s → s.tick.toNat < last + cfg.downTicks →
      AwaitingDown cfg s last ∨ ∃ down, last ≤ down ∧ Rejecting cfg s down)
    (fun _ heq _ => .inl (Option.some.inj heq ▸ h))
    (fun o e hi hge s' hs' hlt => by
      cases o with
      | none => cases hs'
      | some s =>
          have hle := tick_le hge hs'
          rcases hi s rfl (by omega) with hw | ⟨down, hdown, hr⟩
          · rcases (waiting_step harp hw hge hs').2 with ⟨hw', -⟩ | ⟨hr, -⟩
            · exact .inl hw'
            · exact .inr ⟨_, hw.after, hr⟩
          · exact .inr ⟨down, hdown, (rejecting_step hr (by omega) hge hs').2⟩)
    hg q (List.prefix_refl _)
  exact hinv s' hrun hlt

/-- With no call that would declare the host down, the entry waits. -/
theorem waiting_run {last : Nat} {q : List ArpEvent} {s' : ArpState} (harp : ac.noarp = false)
    (h : AwaitingDown cfg s last)
    (hg : Guarded (arpStep cfg ac addr) (Undisturbed cfg) (some s) q)
    (hearly : Guarded (arpStep cfg ac addr) (Early cfg last) (some s) q)
    (hrun : run (arpStep cfg ac addr) (some s) q = some s') : AwaitingDown cfg s' last := by
  have hinv := always_of_guarded (fun o => ∀ s, o = some s → AwaitingDown cfg s last)
    (fun _ heq => Option.some.inj heq ▸ h)
    (fun o e hi (hge : Undisturbed cfg o e ∧ Early cfg last o e) s' hs' => by
      cases o with
      | none => cases hs'
      | some s =>
          rcases (waiting_step harp (hi s rfl) hge.1 hs').2 with ⟨hw, -⟩ | ⟨-, hlate⟩
          · exact hw
          · exact absurd hge.2 hlate)
    (fun pre e hpre => ⟨hg pre e hpre, hearly pre e hpre⟩) q (List.prefix_refl _)
  exact hinv s' hrun

/-- A host that is down stays so for `arpt_down` seconds. -/
theorem rejecting_run {down : Nat} {q : List ArpEvent} {s' : ArpState}
    (h : Rejecting cfg s down)
    (hg : Guarded (arpStep cfg ac addr) (Undisturbed cfg) (some s) q)
    (hrun : run (arpStep cfg ac addr) (some s) q = some s')
    (hlt : s'.tick.toNat < down + cfg.downTicks) : Rejecting cfg s' down := by
  have hinv := always_of_guarded
    (fun o => ∀ s, o = some s → s.tick.toNat < down + cfg.downTicks → Rejecting cfg s down)
    (fun _ heq _ => Option.some.inj heq ▸ h)
    (fun o e hi hge s' hs' hlt => by
      cases o with
      | none => cases hs'
      | some s =>
          have hlt' : s.tick.toNat < down + cfg.downTicks :=
            Nat.lt_of_le_of_lt (tick_le hge hs') hlt
          exact (rejecting_step (hi s rfl hlt') hlt' hge hs').2)
    hg q (List.prefix_refl _)
  exact hinv s' hrun hlt

end

/-- What the limit says about a run that starts with an entry that was not asked for yet:
after `arp_maxtries` requests, the last by `a`, nothing is asked for `arpt_down` seconds;
and for `arpt_down` seconds behind the first call that comes `arpRxmitTicks` after the
last request, nothing is asked and every call is refused. -/
structure RequestLimit (cfg : ArpConfig) (ac : Arpcom) (addr : UInt32) (s : ArpState)
    (pre : List ArpEvent) (s₁ : ArpState) (a : ArpEvent) (rest : List ArpEvent) : Prop where
  silent : ∀ q b s₂, q ++ [b] <+: rest →
    run (arpStep cfg ac addr) (some s) (pre ++ a :: q) = some s₂ →
    s₂.tick.toNat < s₁.tick.toNat + cfg.downTicks → asks cfg ac addr s₂ b = false
  refused : ∀ q m link gateway q' m' link' gateway' sd s₂,
    q ++ .output m link gateway :: q' ++ [.output m' link' gateway'] <+: rest →
    Guarded (arpStep cfg ac addr) (Early cfg s₁.tick.toNat)
      (run (arpStep cfg ac addr) (some s) (pre ++ [a])) q →
    run (arpStep cfg ac addr) (some s) (pre ++ a :: q) = some sd →
    link.up = true → s₁.tick.toNat + cfg.rxmitTicks ≤ sd.tick.toNat →
    run (arpStep cfg ac addr) (some s) (pre ++ a :: q ++ .output m link gateway :: q') = some s₂ →
    link'.up = true → s₂.tick.toNat < sd.tick.toNat + cfg.downTicks →
    asks cfg ac addr s₂ (.output m' link' gateway') = false ∧
      (arpEvent cfg ac addr s₂ (.output m' link' gateway')).2.2 =
        some (if gateway' then .ehostunreach else .ehostdown)

/-- In a run that nothing disturbs, requests are `arpRxmitTicks` apart and stop for
`arpt_down` seconds after `arp_maxtries`. -/
theorem arp_request_limit (cfg : ArpConfig) (ac : Arpcom) (addr : UInt32) (s : ArpState)
    (es : List ArpEvent)
    (hg : Guarded (arpStep cfg ac addr) (Undisturbed cfg) (some s) es) :
    RequestsSpaced cfg ac addr s es ∧
      (s.entry.asked = 0 → ∀ pre s₁ a rest, es = pre ++ a :: rest →
        run (arpStep cfg ac addr) (some s) pre = some s₁ → asks cfg ac addr s₁ a = true →
        requestsOf cfg ac addr (some s) (pre ++ [a]) = cfg.arpMaxtries →
        RequestLimit cfg ac addr s pre s₁ a rest) := by
  refine ⟨requests_spaced hg, ?_⟩
  rintro h0 pre s₁ a rest rfl hrun hasks hcount
  have hsplit : pre ++ a :: rest = (pre ++ [a]) ++ rest := by simp
  rw [hsplit] at hg
  obtain ⟨harp, s', hstep, hw⟩ :=
    waiting_of_last h0 (hg.of_prefix (List.prefix_append _ _)) hrun hasks hcount
  have hfrom : run (arpStep cfg ac addr) (some s) (pre ++ [a]) = some s' := by
    rw [run_concat, hrun, hstep]
  have hrest : Guarded (arpStep cfg ac addr) (Undisturbed cfg) (some s') rest := by
    have := hg.append_right
    rwa [hfrom] at this
  have hcut : ∀ q, run (arpStep cfg ac addr) (some s) (pre ++ a :: q) =
      run (arpStep cfg ac addr) (some s') q := by
    intro q
    rw [show pre ++ a :: q = (pre ++ [a]) ++ q by simp, run_append, hfrom]
  constructor
  · intro q b s₂ hq hrun₂ hlt
    rw [hcut] at hrun₂
    have hgq := hrest.of_prefix hq
    have hgb : Undisturbed cfg (some s₂) b := by
      have := hgq q b (List.prefix_refl _)
      rwa [hrun₂] at this
    by_contra hb
    obtain ⟨s₃, hstep₃, -⟩ := asked_of_asks hgb (by simpa using hb)
    rcases quiet_run harp hw (hgq.of_prefix (List.prefix_append _ _)) hrun₂ hlt with
      hw₂ | ⟨down, hle, hr⟩
    · exact hb (waiting_step harp hw₂ hgb hstep₃).1
    · exact hb (rejecting_step hr (by omega) hgb hstep₃).1
  · intro q m link gateway q' m' link' gateway' sd s₂ hq hearly hrund hup hlate hrun₂ hup' hlt
    rw [hfrom] at hearly
    rw [hcut] at hrund
    rw [List.append_assoc, List.cons_append, hcut, run_append, hrund, run_cons] at hrun₂
    have hgq := hrest.of_prefix hq
    rw [List.append_assoc] at hgq
    have hwd := waiting_run harp hw (hgq.of_prefix (List.prefix_append _ _)) hearly hrund
    have hgd : Guarded (arpStep cfg ac addr) (Undisturbed cfg) (some sd)
        (.output m link gateway :: q' ++ [.output m' link' gateway']) := by
      have := hgq.append_right
      rwa [hrund] at this
    obtain ⟨sr, hstepd⟩ : ∃ sr, arpStep cfg ac addr (some sd) (.output m link gateway) = some sr :=
      ⟨_, rfl⟩
    rw [hstepd] at hrun₂
    rcases (waiting_step harp hwd hgd.head hstepd).2 with ⟨-, hnot⟩ | ⟨hr, -⟩
    · exact absurd (hnot hup) (Nat.not_lt.mpr hlate)
    · have htail := hgd.tail
      rw [hstepd] at htail
      have hr₂ := rejecting_run hr (htail.of_prefix (List.prefix_append _ _)) hrun₂ hlt
      have htick : s₂.tick < s₂.entry.expire := by
        rw [UInt32.lt_iff_toNat_lt, hr₂.expire]
        exact hlt
      obtain ⟨hno, -, herr⟩ := @output_rejected cfg ac addr s₂ hr₂.reject htick m' link' gateway'
      exact ⟨hno, herr hup'⟩

/-- One request, and two ticks of silence. -/
def oneTry : ArpConfig := ⟨1, 1, 2, 1, 1, by decide, by decide, by decide, by decide, by decide⟩

/-- An entry that was not asked for yet, at tick 1000. -/
def unasked : ArpState := ⟨1000, ⟨1, [], false, 1, none, 0⟩⟩

def sendOne : ArpEvent := .output waiting linkUp false

theorem arp_request_limit_one :
    RequestsSpaced oneTry ether0 0x0a000002 unasked [sendOne, .tick, sendOne, .tick, sendOne] ∧
      RequestLimit oneTry ether0 0x0a000002 unasked [] unasked sendOne
        [.tick, sendOne, .tick, sendOne] := by
  have hg : Guarded (arpStep oneTry ether0 0x0a000002) (Undisturbed oneTry) (some unasked)
      [sendOne, .tick, sendOne, .tick, sendOne] := by
    refine guarded_cons ?_ (guarded_cons ?_ (guarded_cons ?_ (guarded_cons ?_ (guarded_cons ?_
      guarded_nil))))
    · exact ⟨by decide, by decide⟩
    · exact show (1000 : UInt32).toNat + 1 < 2 ^ 32 by decide
    · exact ⟨by decide, by decide⟩
    · exact show (1001 : UInt32).toNat + 1 < 2 ^ 32 by decide
    · exact ⟨by decide, by decide⟩
  obtain ⟨hspaced, hlimit⟩ := arp_request_limit oneTry ether0 0x0a000002 unasked _ hg
  exact ⟨hspaced, hlimit rfl [] _ _ _ rfl rfl (by decide) (by decide)⟩

/-- Five calls, a second apart. -/
def fiveCalls : List ArpEvent :=
  (List.replicate 4 (sendOne :: List.replicate 60 .tick)).flatten ++ [sendOne, .tick]

/-- The entry that was not asked for yet, at tick 0. -/
def unaskedAtStart : ArpState := { unasked with tick := 0 }

/-- All requests were sent, and the counter is about to wrap. -/
def askedBeforeWrap : ArpState := ⟨4294967290, ⟨4294967200, [], false, 1, none, 5⟩⟩

/-- A pass of the timer between two calls at one tick makes two requests of them. Behind
the fifth request of five, `ether_output` does not refuse yet. A host declared down just
before the counter wraps is asked for at once, and one asked for at tick 0 is never
declared down. -/
theorem arp_asks_twice :
    (¬ RequestsSpaced arpDefaults ether0 0x0a000002 unasked [sendOne, .timer, sendOne]) ∧
    requestsOf arpDefaults ether0 0x0a000002 (some unasked) fiveCalls =
      arpDefaults.arpMaxtries ∧
    (run (arpStep arpDefaults ether0 0x0a000002) (some unasked) fiveCalls).map
      (fun s => (arpEvent arpDefaults ether0 0x0a000002 s sendOne).2.2) = some none ∧
    (run (arpStep arpDefaults ether0 0x0a000002) (some askedBeforeWrap) [sendOne]).map
      (fun s => (s.entry.reject, asks arpDefaults ether0 0x0a000002 s sendOne)) =
        some (true, true) ∧
    requestsOf oneTry ether0 0x0a000002 (some unaskedAtStart) [sendOne] = oneTry.arpMaxtries ∧
    (run (arpStep oneTry ether0 0x0a000002) (some unaskedAtStart)
      [sendOne, .tick, sendOne, .tick]).map
      (fun s => (arpEvent oneTry ether0 0x0a000002 s sendOne).2.2) = some none := by
  refine ⟨fun h => ?_, by decide +kernel, by decide +kernel, by decide, by decide, by decide⟩
  have := h [] sendOne [.timer] sendOne _ _ (List.prefix_refl _) rfl (by decide) rfl (by decide)
  revert this
  decide

end VxWorks.Netinet
