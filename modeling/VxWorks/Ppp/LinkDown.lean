import VxWorks.Ppp.Session

/-!
# What LCP does to the layers above it

Short of coming up, nothing LCP does can move IPCP anywhere but down. That holds
for every function of `fsm.c` on the record of LCP, for every packet that does not
open the link, for the echo timer and for `die`, and `Falls` is the relation that
says it. It also says that what the phases are judged by is left alone: who has
to authenticate, whether the peer refused to, and whether IPCP has spoken.

The two halves of `Falls` are the two ways a function of LCP can end. Either LCP
is as open as it was and IPCP was not touched, or `lcp_down` was called on the
way, or IPCP was down before, and then it does not matter where LCP ends up. The
Terminate-Ack that leaves LCP in `OPENED` is of the second kind.
-/

namespace VxWorks.Ppp

open VxWorks.Lib

variable {σ : Type}

/-- The lower layer is down. -/
def FsmState.low : FsmState → Bool
  | .initial | .starting => true
  | _ => false

/-- Waiting to be opened, or down. -/
def FsmState.calm : FsmState → Bool
  | .initial | .starting | .closed => true
  | _ => false

theorem FsmState.calm_of_low {st : FsmState} (h : st.low = true) : st.calm = true := by
  cases st <;> first | rfl | exact absurd h (by decide)

/-! ## What the helpers of LCP touch -/

namespace Stack

variable (a : Stack σ) (s : Session σ)

@[simp] theorem lcpPort_state : a.lcpPort.state s = s.lcp.state := rfl

@[simp] theorem ipcpPort_state : a.ipcpPort.state s = s.ipcp.state := rfl

@[simp] theorem lcp_setState (st : FsmState) :
    a.lcpPort.setState st s = { s with lcp := { s.lcp with state := st } } := rfl

@[simp] theorem ipcp_setState (st : FsmState) :
    a.ipcpPort.setState st s = { s with ipcp := { s.ipcp with state := st } } := rfl

@[simp] theorem lcp_modify (g : Fsm → Fsm) : a.lcpPort.modify g s = { s with lcp := g s.lcp } := rfl

@[simp] theorem ipcp_modify (g : Fsm → Fsm) :
    a.ipcpPort.modify g s = { s with ipcp := g s.ipcp } := rfl

@[simp] theorem lcp_timeout : a.lcpPort.timeout s = s := rfl

@[simp] theorem lcp_untimeout : a.lcpPort.untimeout s = s := rfl

@[simp] theorem ipcp_timeout : a.ipcpPort.timeout s = s := rfl

@[simp] theorem ipcp_untimeout : a.ipcpPort.untimeout s = s := rfl

@[simp] theorem lcp_fsm : a.lcpPort.fsm s = s.lcp := rfl

@[simp] theorem ipcp_fsm : a.ipcpPort.fsm s = s.ipcp := rfl

@[simp] theorem lcp_sdata (code id : UInt8) (data : List UInt8) :
    fsmSdata a.lcpPort code id data s = s := rfl

@[simp] theorem lcp_goDown : goDown a.lcpPort a.lcpLower s = a.lcpDown s := rfl

@[simp] theorem ipcp_goDown : goDown a.ipcpPort ipcpLower s = s := rfl

/-- What LCP's requests may do: change the record of LCP, less its control state
and its flags, and its options. -/
def OnLink (s t : Session σ) : Prop :=
  ∃ f l, f.state = s.lcp.state ∧ f.flags = s.lcp.flags ∧ t = { s with lcp := f, link := l }

theorem lcp_keeps : a.lcpPort.Keeps a.lcpLower (OnLink s) where
  put {t f} hst hfl h := by
    obtain ⟨g, l, hgst, hgfl, rfl⟩ := h
    exact ⟨f, l, hst.trans hgst, hfl.trans hgfl, rfl⟩
  timeout h := h
  client h := h
  sconfreq _ _ h := h
  sent _ _ h := h
  resetci h := by
    obtain ⟨g, l, hgst, hgfl, rfl⟩ := h
    exact ⟨g, _, hgst, hgfl, rfl⟩
  addci _ hc h := by
    obtain rfl := Option.some.inj hc
    exact h

theorem lcp_sconfreq (retransmit : Bool) :
    OnLink s (fsmSconfreq a.lcpPort a.lcpLower retransmit s) :=
  (a.lcp_keeps s).fsmSconfreq retransmit ⟨_, _, rfl, rfl, rfl⟩

theorem lcp_stermreq : OnLink s (fsmStermreq a.lcpPort s) :=
  (a.lcp_keeps s).fsmStermreq ⟨_, _, rfl, rfl, rfl⟩

/-- What IPCP's requests may do. -/
def OnNet (s t : Session σ) : Prop :=
  ∃ f n b, f.state = s.ipcp.state ∧ f.flags = s.ipcp.flags ∧
    t = { s with ipcp := f, net := n, said := b }

theorem ipcp_keeps : a.ipcpPort.Keeps ipcpLower (OnNet s) where
  put {t f} hst hfl h := by
    obtain ⟨g, n, b, hgst, hgfl, rfl⟩ := h
    exact ⟨f, n, b, hst.trans hgst, hfl.trans hgfl, rfl⟩
  timeout h := h
  client h := h
  sconfreq _ _ h := by
    obtain ⟨g, n, b, hgst, hgfl, rfl⟩ := h
    exact ⟨g, n, true, hgst, hgfl, rfl⟩
  sent p hp h := by
    have hne : p.code ≠ confack := by
      rcases hp with hp | hp <;> rw [hp] <;> decide
    obtain ⟨g, n, b, hgst, hgfl, rfl⟩ := h
    exact ⟨g, n, b, hgst, hgfl, if_neg hne⟩
  resetci h := by
    obtain ⟨g, n, b, hgst, hgfl, rfl⟩ := h
    exact ⟨g, _, b, hgst, hgfl, rfl⟩
  addci _ hc h := by
    obtain rfl := Option.some.inj hc
    obtain ⟨g, n, b, hgst, hgfl, rfl⟩ := h
    exact ⟨g, _, b, hgst, hgfl, rfl⟩

theorem ipcp_sconfreq (retransmit : Bool) :
    OnNet s (fsmSconfreq a.ipcpPort ipcpLower retransmit s) :=
  (a.ipcp_keeps s).fsmSconfreq retransmit ⟨_, _, _, rfl, rfl, rfl⟩

theorem ipcp_stermreq : OnNet s (fsmStermreq a.ipcpPort s) :=
  (a.ipcp_keeps s).fsmStermreq ⟨_, _, _, rfl, rfl, rfl⟩

/-- What CHAP does without a report stays in its own record. -/
def OnChap (s t : Session σ) : Prop := ∃ c n, t = { s with chap := c, chapDrawn := n }

theorem OnChap.refl : OnChap s s := ⟨s.chap, s.chapDrawn, rfl⟩

theorem chap_keeps : a.chapQuiet.Keeps (OnChap s) where
  put c h := by
    obtain ⟨_, n, rfl⟩ := h
    exact ⟨c, n, rfl⟩
  timeout _ h := h
  untimeout _ h := h
  note _ h := h
  random h := by
    obtain ⟨c, n, rfl⟩ := h
    exact ⟨c, n + 1, rfl⟩
  peerSuccess h := h
  peerFail h := h
  withpeerSuccess h := h
  withpeerFail h := h

end Stack

/-! ## LCP, short of coming up -/

/-- What the phases are judged by is the same, and IPCP is where it was, with
LCP as open as it was, or is down. -/
structure Falls (s t : Session σ) : Prop where
  authPending : t.authPending = s.authPending
  refused : t.refused = s.refused
  said : t.said = s.said
  ipcp : t.ipcp.state = s.ipcp.state ∧ (t.lcp.state = .opened ↔ s.lcp.state = .opened) ∨
    t.ipcp.state.low = true

namespace Falls

variable {s t u : Session σ}

theorem refl (s : Session σ) : Falls s s := ⟨rfl, rfl, rfl, .inl ⟨rfl, Iff.rfl⟩⟩

theorem trans (h : Falls s t) (h' : Falls t u) : Falls s u := by
  refine ⟨h'.authPending.trans h.authPending, h'.refused.trans h.refused,
    h'.said.trans h.said, ?_⟩
  rcases h'.ipcp with ⟨he, hl⟩ | hlow
  · rcases h.ipcp with ⟨he', hl'⟩ | hlow
    · exact .inl ⟨he.trans he', hl.trans hl'⟩
    · exact .inr (he ▸ hlow)
  · exact .inr hlow

/-- IPCP that is down stays down. -/
theorem low (h : Falls s t) (hs : s.ipcp.state.low = true) : t.ipcp.state.low = true := by
  rcases h.ipcp with ⟨he, _⟩ | hlow
  · exact he ▸ hs
  · exact hlow

end Falls

namespace Stack

variable (a : Stack σ) {s : Session σ}

/-- A change of LCP and its options that does not open or close it, or that
comes when IPCP is down already. -/
theorem falls_link (f : Fsm) (l : Lcp)
    (h : s.ipcp.state.low = true ∨ (f.state = .opened ↔ s.lcp.state = .opened)) :
    Falls s { s with lcp := f, link := l } := by
  refine ⟨rfl, rfl, rfl, ?_⟩
  rcases h with hlow | hl
  · exact .inr hlow
  · exact .inl ⟨rfl, hl⟩

/-- LCP leaves a state other than `OPENED` for another one. -/
theorem falls_idle {f : Fsm} (l : Lcp) (hs : s.lcp.state ≠ .opened) (hf : f.state ≠ .opened) :
    Falls s { s with lcp := f, link := l } :=
  falls_link f l (.inr (iff_of_false hf hs))

theorem ipcpLowerdown_eq (s : Session σ) :
    ∃ f : Fsm, f.state.low = true ∧ a.ipcpLowerdown s = { s with ipcp := f } := by
  unfold ipcpLowerdown fsmLowerdown
  simp only [ipcpPort_state, ipcp_setState, ipcp_untimeout, ipcp_goDown]
  cases h : s.ipcp.state <;>
    first
      | exact ⟨s.ipcp, by rw [h]; rfl, rfl⟩
      | exact ⟨_, by rfl, rfl⟩

theorem lcpDown_eq (s : Session σ) :
    (a.lcpDown s).lcp = s.lcp ∧ (a.lcpDown s).ipcp.state.low = true ∧
      Falls s (a.lcpDown s) := by
  obtain ⟨f, hf, he⟩ := a.ipcpLowerdown_eq (lcpEchoLowerdown s)
  obtain ⟨c, n, hc⟩ :=
    (a.chap_keeps _).lowerDown (OnChap.refl (a.ipcpLowerdown (lcpEchoLowerdown s)))
  rw [lcpDown]
  rw [hc, he]
  exact ⟨rfl, hf, rfl, rfl, rfl, .inr hf⟩

/-- LCP leaves `OPENED` by going down first. -/
theorem falls_down {t : Session σ} (h : Falls (a.lcpDown s) t) : Falls s t :=
  (a.lcpDown_eq s).2.2.trans h

theorem sconfreq_falls (retransmit : Bool) (st : FsmState)
    (h : s.ipcp.state.low = true ∨ (st = .opened ↔ s.lcp.state = .opened)) :
    Falls s (a.lcpPort.setState st (fsmSconfreq a.lcpPort a.lcpLower retransmit s)) := by
  obtain ⟨f, l, _, _, he⟩ := a.lcp_sconfreq s retransmit
  rw [he]
  exact falls_link _ _ h

theorem lcp_lowerup_falls (s : Session σ) : Falls s (fsmLowerup a.lcpPort a.lcpLower s) := by
  unfold fsmLowerup
  simp only [lcpPort_state]
  cases h : s.lcp.state
  case initial => exact falls_idle _ (by rw [h]; decide) nofun
  case starting =>
    dsimp only
    split
    · exact falls_idle _ (by rw [h]; decide) nofun
    · exact a.sconfreq_falls _ _ (.inr (by rw [h]; decide))
  all_goals exact .refl s

theorem lcp_lowerdown_falls (s : Session σ) : Falls s (fsmLowerdown a.lcpPort a.lcpLower s) := by
  unfold fsmLowerdown
  simp only [lcpPort_state]
  cases h : s.lcp.state
  case initial => exact .refl s
  case starting => exact .refl s
  case opened => exact a.falls_down (falls_link _ _ (.inl (a.lcpDown_eq s).2.1))
  all_goals exact falls_idle _ (by rw [h]; decide) nofun

theorem lcp_open_falls (s : Session σ) : Falls s (fsmOpen a.lcpPort a.lcpLower s) := by
  have hrestart : ∀ t : Session σ, Falls t
      (if t.lcp.flags.restart then
        fsmLowerup a.lcpPort a.lcpLower (fsmLowerdown a.lcpPort a.lcpLower t) else t) := by
    intro t
    split
    · exact (a.lcp_lowerdown_falls t).trans (a.lcp_lowerup_falls _)
    · exact .refl t
  unfold fsmOpen
  simp only [lcpPort_state]
  cases h : s.lcp.state
  case initial => exact falls_idle _ (by rw [h]; decide) nofun
  case closed =>
    dsimp only
    split
    · exact falls_idle _ (by rw [h]; decide) nofun
    · exact a.sconfreq_falls _ _ (.inr (by rw [h]; decide))
  case closing =>
    have hstop : Falls s { s with lcp := { s.lcp with state := .stopping } } :=
      falls_idle _ (by rw [h]; decide) nofun
    exact hstop.trans (hrestart _)
  case stopped => exact hrestart s
  case opened => exact hrestart s
  all_goals exact .refl s

theorem lcp_close_falls (s : Session σ) : Falls s (fsmClose a.lcpPort a.lcpLower s) := by
  have hterm : ∀ t : Session σ, t.lcp.state ≠ .opened ∨ t.ipcp.state.low = true →
      Falls t (a.lcpPort.setState .closing (fsmStermreq a.lcpPort
        (a.lcpPort.modify (fun f => { f with retransmits := f.maxtermtransmits }) t))) := by
    intro t ht
    obtain ⟨f, l, _, _, he⟩ := a.lcp_stermreq
      (a.lcpPort.modify (fun f => { f with retransmits := f.maxtermtransmits }) t)
    rw [he]
    rcases ht with ht | ht
    · exact falls_idle _ ht fun hf => by cases hf
    · exact falls_link _ _ (.inl ht)
  cases h : s.lcp.state <;> simp only [fsmClose, lcpPort_state, h]
  case initial => exact .refl s
  case closed => exact .refl s
  case closing => exact .refl s
  case opened => exact a.falls_down (hterm _ (.inr (a.lcpDown_eq s).2.1))
  case starting => exact falls_idle _ (by rw [h]; decide) fun hf => by cases hf
  case stopped => exact falls_idle _ (by rw [h]; decide) fun hf => by cases hf
  case stopping => exact falls_idle _ (by rw [h]; decide) fun hf => by cases hf
  all_goals exact hterm s (.inl (by rw [h]; decide))

/-- A link that is closed is closed for IPCP too. -/
theorem lcp_close_low (s : Session σ) (h : s.lcp.state ≠ .opened → s.ipcp.state.low = true) :
    (fsmClose a.lcpPort a.lcpLower s).ipcp.state.low = true := by
  by_cases ho : s.lcp.state = .opened
  · obtain ⟨f, l, _, _, he⟩ := a.lcp_stermreq
      (a.lcpPort.modify (fun f => { f with retransmits := f.maxtermtransmits }) (a.lcpDown s))
    have hlow := (a.lcpDown_eq s).2.1
    simp only [fsmClose, lcpPort_state, ho, ne_eq, not_true_eq_false, if_false, lcp_goDown]
    rw [he]
    exact hlow
  · exact (a.lcp_close_falls s).low (h ho)

theorem lcpFinished_falls (s : Session σ) : Falls s (a.lcpFinished s) := by
  rw [lcpFinished]
  split
  · exact a.lcp_open_falls s
  · exact ⟨rfl, rfl, rfl, .inl ⟨rfl, Iff.rfl⟩⟩

theorem lcpClose_falls (s : Session σ) : Falls s (a.lcpClose s) := by
  rw [lcpClose]
  split
  next h =>
    have hclosed : Falls s { s with lcp := { s.lcp with state := .closed } } :=
      falls_idle _ (by rw [h.1]; decide) nofun
    exact hclosed.trans (a.lcpFinished_falls _)
  next => exact a.lcp_close_falls s

theorem lcpClose_low (s : Session σ) (h : s.lcp.state ≠ .opened → s.ipcp.state.low = true) :
    (a.lcpClose s).ipcp.state.low = true := by
  by_cases hs : s.lcp.state = .stopped ∧ (s.lcp.flags.passive ∨ s.lcp.flags.silent)
  · exact (a.lcpClose_falls s).low (h (by rw [hs.1]; decide))
  · rw [lcpClose, if_neg hs]
    exact a.lcp_close_low s h

theorem die_falls (s : Session σ) : Falls s (a.die s) := by
  have h := a.lcpClose_falls s
  unfold die
  dsimp only
  split
  · exact h
  · exact ⟨h.authPending, h.refused, h.said, h.ipcp⟩

theorem die_low (s : Session σ) (h : s.lcp.state ≠ .opened → s.ipcp.state.low = true) :
    (a.die s).ipcp.state.low = true := by
  have hlow := a.lcpClose_low s h
  unfold die
  dsimp only
  split
  · exact hlow
  · exact hlow

theorem OnLink.falls {t : Session σ} (h : OnLink s t) : Falls s t := by
  obtain ⟨f, l, hf, _, rfl⟩ := h
  exact falls_link f l (.inr (by rw [hf]))

/-- The Terminate-Request of a link that has just gone down. -/
theorem terminate_falls (st : FsmState) (s : Session σ) :
    Falls s (a.lcpPort.setState st (fsmStermreq a.lcpPort
      (a.lcpPort.modify (fun f => { f with retransmits := f.maxtermtransmits })
        (a.lcpDown s)))) := by
  obtain ⟨f, l, _, _, he⟩ := a.lcp_stermreq
    (a.lcpPort.modify (fun f => { f with retransmits := f.maxtermtransmits }) (a.lcpDown s))
  rw [he]
  exact a.falls_down (falls_link _ _ (.inl (a.lcpDown_eq s).2.1))

/-- LCP is done with the lower layer. -/
theorem finished_falls {st : FsmState} (hs : s.lcp.state ≠ .opened) (hst : st ≠ .opened) :
    Falls s (a.lcpFinished (a.lcpPort.setState st s)) := by
  have hset : Falls s (a.lcpPort.setState st s) := falls_idle _ hs hst
  exact hset.trans (a.lcpFinished_falls _)

theorem lcp_protreject_falls (s : Session σ) :
    Falls s (fsmProtreject a.lcpPort a.lcpCallbacks₀ s) := by
  unfold fsmProtreject
  simp only [lcpPort_state]
  cases h : s.lcp.state
  case initial => exact .refl s
  case starting => exact .refl s
  case opened => exact a.terminate_falls _ s
  all_goals exact a.finished_falls (by rw [h]; decide) nofun

theorem lcp_timeout_falls (s : Session σ) : Falls s (fsmTimeout a.lcpPort a.lcpCallbacks s) := by
  have hterm : s.lcp.state ≠ .opened → ∀ st, st ≠ .opened → Falls s
      (if s.lcp.retransmits ≤ 0 then a.lcpFinished (a.lcpPort.setState st s)
        else fsmStermreq a.lcpPort s) := by
    intro hs st hst
    split
    · exact a.finished_falls hs hst
    · exact (a.lcp_stermreq s).falls
  have hreq : s.lcp.state ≠ .opened → Falls s
      (if s.lcp.retransmits ≤ 0 then
        (if s.lcp.flags.passive then a.lcpPort.setState .stopped s
          else a.lcpFinished (a.lcpPort.setState .stopped s))
      else
        let t := fsmSconfreq a.lcpPort a.lcpLower true s
        if t.lcp.state = .ackrcvd then a.lcpPort.setState .reqsent t else t) := by
    intro hs
    split
    · split
      · exact falls_idle _ hs nofun
      · exact a.finished_falls hs nofun
    · dsimp only
      split
      · exact a.sconfreq_falls _ _ (.inr (iff_of_false nofun hs))
      · exact (a.lcp_sconfreq s true).falls
  cases h : s.lcp.state <;> simp only [fsmTimeout, lcpPort_state, h]
  case closing => exact hterm (by rw [h]; decide) _ nofun
  case stopping => exact hterm (by rw [h]; decide) _ nofun
  case reqsent => exact hreq (by rw [h]; decide)
  case ackrcvd => exact hreq (by rw [h]; decide)
  case acksent => exact hreq (by rw [h]; decide)
  all_goals exact .refl s

/-! ### Echo requests -/

theorem falls_of_eq {t : Session σ} (hlcp : t.lcp.state = s.lcp.state) (hipcp : t.ipcp = s.ipcp)
    (ha : t.authPending = s.authPending) (hr : t.refused = s.refused) (hd : t.said = s.said) :
    Falls s t :=
  ⟨ha, hr, hd, .inl ⟨by rw [hipcp], by rw [hlcp]⟩⟩

theorem lcpEchoFailure_falls (s : Session σ) : Falls s (a.lcpEchoFailure s) := by
  rw [lcpEchoFailure]
  split
  · have hcount : Falls s { s with echosPending := s.echosPending + 1 } :=
      falls_of_eq rfl rfl rfl rfl rfl
    have hfail : Falls { s with echosPending := s.echosPending + 1 }
        (a.lcpLinkFailure { s with echosPending := s.echosPending + 1 }) := by
      rw [lcpLinkFailure]
      split
      · have h := a.lcp_lowerdown_falls { s with echosPending := s.echosPending + 1 }
        exact ⟨h.authPending, h.refused, h.said, h.ipcp⟩
      · exact .refl _
    dsimp only
    split
    · refine (hcount.trans hfail).trans (Falls.trans ?_ (a.die_falls _))
      exact falls_of_eq rfl rfl rfl rfl rfl
    · exact hcount
  · exact .refl s

theorem lcpEchoCheck_falls (s : Session σ) : Falls s (a.lcpEchoCheck s) := by
  have h := a.lcpEchoFailure_falls s
  rw [lcpEchoCheck, lcpSendEchoRequest]
  dsimp only
  split
  · exact ⟨h.authPending, h.refused, h.said, h.ipcp⟩
  · exact ⟨h.authPending, h.refused, h.said, h.ipcp⟩

theorem lcpEchoTimeout_falls (s : Session σ) : Falls s (a.lcpEchoTimeout s) := by
  rw [lcpEchoTimeout]
  split
  · have h : Falls s { s with echoTimerRunning := false } := falls_of_eq rfl rfl rfl rfl rfl
    exact h.trans (a.lcpEchoCheck_falls _)
  · exact .refl s

/-! ### Packets for LCP -/

/-- The options with which a packet opens the link, if it does: an acknowledgment
that completes the negotiation, or a request that does when it is
acknowledged. -/
def lcpOpens (s : Session σ) (p : CpPacket) : Option Lcp :=
  if s.lcp.state = .acksent ∧ p.code = confack then
    if p.id = s.lcp.reqid ∧ lcpAckci s.link.got p.data then some s.link else none
  else if s.lcp.state = .ackrcvd ∧ p.code = confreq then
    let r := lcpReqci a.magic s.link p.data (decide (s.lcp.maxnakloops ≤ s.lcp.nakloops))
    if r.1 = .ack then some r.2.2 else none
  else none

/-- The record as `lcp_up` finds it. -/
def raised (s : Session σ) (f : Fsm) (o : Lcp) : Session σ :=
  { s with lcp := f, link := o, refused := false, said := false }

theorem reply_falls (id : UInt8) (inp : List UInt8) (t : Session σ)
    (h : t.ipcp.state.low = true ∨ t.lcp.state ≠ .opened)
    (hno : t.lcp.state = .ackrcvd → (lcpReqci a.magic t.link inp
      (decide (t.lcp.maxnakloops ≤ t.lcp.nakloops))).1 ≠ .ack) :
    Falls t (rconfreqReply a.lcpPort a.lcpCallbacks id inp t) := by
  have hmove : ∀ (f : Fsm) (l : Lcp), f.state ≠ .opened →
      Falls t { t with lcp := f, link := l } := by
    intro f l hf
    rcases h with hlow | hne
    · exact falls_link f l (.inl hlow)
    · exact falls_idle l hne hf
  have hstay : ∀ (f : Fsm) (l : Lcp), f.state = t.lcp.state →
      Falls t { t with lcp := f, link := l } := by
    intro f l hf
    exact falls_link f l (.inr (by rw [hf]))
  show Falls t (rconfreqMove a.lcpPort a.lcpCallbacks (lcpReqci a.magic t.link inp
    (decide (t.lcp.maxnakloops ≤ t.lcp.nakloops))).1 { t with link := _ })
  generalize lcpReqci a.magic t.link inp (decide (t.lcp.maxnakloops ≤ t.lcp.nakloops)) = r at hno
  unfold rconfreqMove
  by_cases hack : r.1 = .ack
  · have hst : ¬ t.lcp.state = .ackrcvd := fun hst => hno hst hack
    simp only [if_pos hack, lcpPort_state, hst, if_false]
    exact hmove _ _ nofun
  · by_cases hst : t.lcp.state = .ackrcvd
    · simp only [if_neg hack, lcpPort_state, hst, ne_eq, not_true_eq_false, if_false]
      split
      · exact hstay _ _ rfl
      · exact hstay _ _ rfl
    · simp only [if_neg hack, lcpPort_state, ne_eq, hst, not_false_eq_true, if_true]
      split
      · exact hmove _ _ nofun
      · exact hmove _ _ nofun

theorem reply_opens (id : UInt8) (inp : List UInt8) (hst : s.lcp.state = .ackrcvd)
    (hack : (lcpReqci a.magic s.link inp
      (decide (s.lcp.maxnakloops ≤ s.lcp.nakloops))).1 = .ack) :
    Falls (a.lcpUp (raised s { s.lcp with state := .opened } (lcpReqci a.magic s.link inp
        (decide (s.lcp.maxnakloops ≤ s.lcp.nakloops))).2.2))
      (rconfreqReply a.lcpPort a.lcpCallbacks id inp s) := by
  have hreset : ∀ u : Session σ,
      Falls u (a.lcpPort.modify (fun f => { f with nakloops := 0 }) u) :=
    fun _ => falls_of_eq rfl rfl rfl rfl rfl
  have hup : ∀ t : Session σ, goUp a.lcpPort a.lcpCallbacks (a.lcpPort.setState .opened t) =
      a.lcpUp (raised t { t.lcp with state := .opened } t.link) := fun _ => rfl
  show Falls _ (rconfreqMove a.lcpPort a.lcpCallbacks (lcpReqci a.magic s.link inp
    (decide (s.lcp.maxnakloops ≤ s.lcp.nakloops))).1 { s with link := _ })
  rw [rconfreqMove]
  simp only [if_pos hack, lcpPort_state, hst, if_true, lcp_untimeout, hup]
  exact hreset _

theorem rconfreq_falls (p : CpPacket) (hp : p.code = confreq) (hno : a.lcpOpens s p = none) :
    Falls s (fsmRconfreq a.lcpPort a.lcpCallbacks p.id p.data s) := by
  have hreply : s.lcp.state ≠ .opened →
      Falls s (rconfreqReply a.lcpPort a.lcpCallbacks p.id p.data s) := by
    intro hs
    refine a.reply_falls _ _ s (.inr hs) ?_
    intro hst hack
    simp [lcpOpens, hst, hp, hack] at hno
  have hcb : a.lcpCallbacks.toLowerCallbacks = a.lcpLower := rfl
  cases h : s.lcp.state <;> simp only [fsmRconfreq, lcpPort_state, h, hcb]
  case closed => exact .refl s
  case closing => exact .refl s
  case stopping => exact .refl s
  case opened =>
    obtain ⟨f, l, hf, _, he⟩ := a.lcp_sconfreq (a.lcpDown s) false
    have hlow := (a.lcpDown_eq s).2.1
    have hst : f.state = .opened := by rw [hf, (a.lcpDown_eq s).1, h]
    rw [lcp_goDown, he]
    refine a.falls_down (Falls.trans (falls_link f l (.inl hlow)) ?_)
    exact a.reply_falls _ _ _ (.inl hlow) (fun hs => absurd (hst.symm.trans hs) (by decide))
  case stopped =>
    obtain ⟨f, l, _, _, he⟩ := a.lcp_sconfreq s false
    rw [he]
    have hreq : Falls s { s with lcp := { f with state := .reqsent }, link := l } :=
      falls_idle l (by rw [h]; decide) nofun
    refine hreq.trans ?_
    exact a.reply_falls _ _ _ (.inr nofun) nofun
  all_goals exact hreply (by rw [h]; decide)

theorem rconfack_falls (p : CpPacket) (hp : p.code = confack) (hno : a.lcpOpens s p = none) :
    Falls s (fsmRconfack a.lcpPort a.lcpCallbacks p.id p.data s) := by
  have hcheck : checkAck a.lcpCallbacks p.data s = (lcpAckci s.link.got p.data, s) := rfl
  have hcb : a.lcpCallbacks.toLowerCallbacks = a.lcpLower := rfl
  unfold fsmRconfack
  by_cases hid : p.id = s.lcp.reqid
  · by_cases hgood : lcpAckci s.link.got p.data = true
    · have hne : s.lcp.state ≠ .acksent := by
        intro hst
        simp [lcpOpens, hst, hp, hid, hgood] at hno
      simp only [lcp_fsm, hid, ne_eq, not_true_eq_false, if_false, hcheck, hgood, Bool.not_true,
        Bool.false_eq_true, hcb]
      generalize hT : a.lcpPort.modify (fun f => { f with reqid := noReqid }) _ = t
      have ht : Falls s t := by
        rw [← hT]
        exact falls_of_eq rfl rfl rfl rfl rfl
      have hstate : t.lcp.state = s.lcp.state := by
        rw [← hT]
        rfl
      split
      iterate 2 exact ht
      · next hs =>
          have hs : t.lcp.state = _ := hs
          exact ht.trans (falls_idle _ (by rw [hs]; decide) fun hf => by cases hf)
      · next hs =>
          have hs : t.lcp.state = _ := hs
          exact ht.trans (a.sconfreq_falls _ _ (.inr (by rw [hs]; decide)))
      · next hs => exact absurd (hstate.symm.trans hs) hne
      · exact ht.trans (a.falls_down (a.sconfreq_falls _ _ (.inl (a.lcpDown_eq t).2.1)))
      all_goals exact ht
    · simp only [lcp_fsm, hid, ne_eq, not_true_eq_false, if_false, hcheck, hgood, Bool.not_false,
        if_true]
      exact .refl s
  · simp only [lcp_fsm, ne_eq, hid, not_false_eq_true, if_true]
    exact .refl s

/-- The checks of LCP change its options and nothing else, unless they do not
return. -/
theorem lcp_checkNakrej (code : UInt8) (inp : List UInt8) (s : Session σ) :
    ∃ good l k,
      checkNakrej a.lcpCallbacks code inp s = (good, { s with link := l, stuck := k }) := by
  unfold checkNakrej
  by_cases hn : code = confnak
  · simp only [if_pos hn]
    show ∃ good l k, a.lcpNaked s inp = (good, { s with link := l, stuck := k })
    unfold lcpNaked
    dsimp only
    split
    · exact ⟨_, _, s.stuck, rfl⟩
    · exact ⟨_, _, true, rfl⟩
  · simp only [if_neg hn]
    exact ⟨_, _, s.stuck, rfl⟩

theorem rconfnakrej_falls (code id : UInt8) (inp : List UInt8) (s : Session σ) :
    Falls s (fsmRconfnakrej a.lcpPort a.lcpCallbacks code id inp s) := by
  obtain ⟨good, l, k, hcheck⟩ := a.lcp_checkNakrej code inp s
  have hcb : a.lcpCallbacks.toLowerCallbacks = a.lcpLower := rfl
  have hread : Falls s { s with link := l, stuck := k } := falls_of_eq rfl rfl rfl rfl rfl
  unfold fsmRconfnakrej
  by_cases hid : id = s.lcp.reqid
  · cases good with
    | false =>
        simp only [lcp_fsm, hid, ne_eq, not_true_eq_false, if_false, hcheck, Bool.not_false,
          if_true]
        exact hread
    | true =>
        simp only [lcp_fsm, hid, ne_eq, not_true_eq_false, if_false, hcheck, Bool.not_true,
          Bool.false_eq_true, hcb]
        generalize hT : a.lcpPort.modify (fun f => { f with reqid := noReqid }) _ = t
        have ht : Falls s t := by
          rw [← hT]
          exact falls_of_eq rfl rfl rfl rfl rfl
        split
        iterate 2 exact ht
        iterate 2 exact ht.trans (a.lcp_sconfreq t false).falls
        · next hs =>
            have hs : t.lcp.state = _ := hs
            exact ht.trans (a.sconfreq_falls _ _ (.inr (by rw [hs]; decide)))
        · exact ht.trans (a.falls_down (a.sconfreq_falls _ _ (.inl (a.lcpDown_eq t).2.1)))
        all_goals exact ht
  · simp only [lcp_fsm, ne_eq, hid, not_false_eq_true, if_true]
    exact .refl s

theorem rtermreq_falls (id : UInt8) (s : Session σ) :
    Falls s (fsmRtermreq a.lcpPort a.lcpCallbacks id s) := by
  cases h : s.lcp.state <;> simp only [fsmRtermreq, lcpPort_state, h]
  case ackrcvd => exact falls_idle _ (by rw [h]; decide) nofun
  case acksent => exact falls_idle _ (by rw [h]; decide) nofun
  case opened => exact a.falls_down (falls_link _ _ (.inl (a.lcpDown_eq s).2.1))
  all_goals exact .refl s

theorem rtermack_falls (s : Session σ) : Falls s (fsmRtermack a.lcpPort a.lcpCallbacks s) := by
  cases h : s.lcp.state <;> simp only [fsmRtermack, lcpPort_state, h]
  case closing => exact a.finished_falls (by rw [h]; decide) nofun
  case stopping => exact a.finished_falls (by rw [h]; decide) nofun
  case ackrcvd => exact falls_idle _ (by rw [h]; decide) nofun
  -- the control state stays `OPENED`, but the layers above are told
  case opened => exact a.falls_down (a.lcp_sconfreq (a.lcpDown s) false).falls
  all_goals exact .refl s

theorem rcoderej_falls (inp : List UInt8) (s : Session σ) :
    Falls s (fsmRcoderej a.lcpPort inp s) := by
  unfold fsmRcoderej
  split
  · exact .refl s
  · split
    next h =>
      have hs : s.lcp.state = .ackrcvd := h
      exact falls_idle _ (by rw [hs]; decide) nofun
    next => exact .refl s

end Stack

end VxWorks.Ppp
