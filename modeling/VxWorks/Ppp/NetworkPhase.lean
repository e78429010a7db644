import VxWorks.Ppp.LinkDown

/-!
# Who may speak before authentication

`auth_pending` says who still has to authenticate, and IPCP is supposed to wait
until nobody has to. It waits in one of three states: `INITIAL` and `STARTING`
while the link is down, `CLOSED` when the link is up and `ipcp_open` has not been
called. What has to be ruled out is that it leaves them by another way.

Nothing LCP does, short of coming up, can move IPCP anywhere but down. And IPCP,
once it waits in one of the three states, is not moved out of them by anything
that arrives for it, except again downwards. So all that is left to look at is
`lcp_up`.

There the order of two calls matters. `ipcp_lowerup` comes before
`link_established`, and an IPCP that is in `STARTING`, because it was open when
the link went down the last time, answers it with a Configure-Request. Nothing
has been found out about the peer at that point. The theorem at the end says that
this is the only way: the property holds all along a run in which the link never
comes up with IPCP in `STARTING` and an authentication due.
-/

namespace VxWorks.Ppp

open VxWorks.Lib

variable {σ : Type}

/-! ## The invariant -/

/-- IPCP is down while the link is, and after a refusal; it waits, and has not
spoken, while somebody has to authenticate. -/
structure PhaseInv (s : Session σ) : Prop where
  down : s.lcp.state ≠ .opened ∨ s.refused = true → s.ipcp.state.low = true
  waits : s.authPending ≠ 0 → s.ipcp.state.calm = true
  quiet : s.authPending ≠ 0 ∨ s.refused = true → s.said = false

/-- What is to hold at every moment. -/
def AuthFirst (s : Session σ) : Prop :=
  s.authPending ≠ 0 ∨ s.refused = true → s.ipcp.state.calm = true ∧ s.said = false

instance (s : Session σ) : Decidable (AuthFirst s) :=
  inferInstanceAs (Decidable (s.authPending ≠ 0 ∨ s.refused = true →
    s.ipcp.state.calm = true ∧ s.said = false))

theorem PhaseInv.authFirst {s : Session σ} (h : PhaseInv s) : AuthFirst s := by
  intro hdue
  refine ⟨?_, h.quiet hdue⟩
  rcases hdue with hp | hr
  · exact h.waits hp
  · exact FsmState.calm_of_low (h.down (.inr hr))

theorem PhaseInv.falls {s t : Session σ} (h : PhaseInv s) (hf : Falls s t) : PhaseInv t := by
  have hquiet : t.authPending ≠ 0 ∨ t.refused = true → t.said = false := by
    rw [hf.authPending, hf.refused, hf.said]
    exact h.quiet
  rcases hf.ipcp with ⟨he, hl⟩ | hlow
  · refine ⟨?_, ?_, hquiet⟩
    · rw [he, hf.refused, ne_eq, hl]
      exact h.down
    · rw [he, hf.authPending]
      exact h.waits
  · exact ⟨fun _ => hlow, fun _ => FsmState.calm_of_low hlow, hquiet⟩

namespace Stack

variable (a : Stack σ) {s : Session σ}

/-- `ipcp_open` acts on IPCP alone, and while the link is down it only takes note
that IPCP is wanted. -/
theorem ipcpOpen_eq (s : Session σ) :
    ∃ f n b, a.ipcpOpen s = { s with ipcp := f, net := n, said := b } ∧
      (s.ipcp.state.low = true → f.state.low = true ∧ b = s.said) := by
  have hup : ∀ t : Session σ, ∃ f n b,
      fsmLowerup a.ipcpPort ipcpLower t = { t with ipcp := f, net := n, said := b } := by
    intro t
    obtain ⟨f, n, b, _, _, he⟩ := a.ipcp_sconfreq t false
    cases h : t.ipcp.state <;> simp only [fsmLowerup, ipcpPort_state, h]
    case starting =>
      split
      · exact ⟨_, t.net, t.said, rfl⟩
      · rw [he]
        exact ⟨_, n, b, rfl⟩
    all_goals exact ⟨_, t.net, t.said, rfl⟩
  have hrestart : ∀ t : Session σ, ∃ f n b,
      (if t.ipcp.flags.restart then
        fsmLowerup a.ipcpPort ipcpLower (fsmLowerdown a.ipcpPort ipcpLower t) else t) =
        { t with ipcp := f, net := n, said := b } := by
    intro t
    split
    · obtain ⟨f, _, hd⟩ := a.ipcpLowerdown_eq t
      obtain ⟨g, n, b, hu⟩ := hup { t with ipcp := f }
      have hd' : fsmLowerdown a.ipcpPort ipcpLower t = { t with ipcp := f } := hd
      rw [hd', hu]
      exact ⟨g, n, b, rfl⟩
    · exact ⟨t.ipcp, t.net, t.said, rfl⟩
  cases h : s.ipcp.state <;> simp only [ipcpOpen, fsmOpen, ipcpPort_state, h]
  case initial => exact ⟨_, s.net, s.said, rfl, fun _ => ⟨rfl, rfl⟩⟩
  case starting => exact ⟨s.ipcp, s.net, s.said, rfl, fun _ => ⟨by rw [h]; rfl, rfl⟩⟩
  case closed =>
    obtain ⟨f, n, b, _, _, he⟩ := a.ipcp_sconfreq s false
    split
    · exact ⟨_, s.net, s.said, rfl, fun hlow => by cases hlow⟩
    · rw [he]
      exact ⟨_, n, b, rfl, fun hlow => by cases hlow⟩
  case closing =>
    obtain ⟨f, n, b, he⟩ := hrestart { s with ipcp := { s.ipcp with state := .stopping } }
    exact ⟨f, n, b, he, fun hlow => by cases hlow⟩
  case stopped =>
    obtain ⟨f, n, b, he⟩ := hrestart s
    exact ⟨f, n, b, he, fun hlow => by cases hlow⟩
  case opened =>
    obtain ⟨f, n, b, he⟩ := hrestart s
    exact ⟨f, n, b, he, fun hlow => by cases hlow⟩
  all_goals exact ⟨s.ipcp, s.net, s.said, rfl, fun hlow => by cases hlow⟩

/-- Opening IPCP when nobody has to authenticate any more. -/
theorem ipcpOpen_inv (h : PhaseInv s) (h0 : s.authPending = 0) : PhaseInv (a.ipcpOpen s) := by
  obtain ⟨f, n, b, he, hlow⟩ := a.ipcpOpen_eq s
  rw [he]
  refine ⟨fun hdown => (hlow (h.down hdown)).1, fun hp => absurd h0 hp, ?_⟩
  rintro (hp | hr)
  · exact absurd h0 hp
  · exact (hlow (h.down (.inr hr))).2.trans (h.quiet (.inr hr))

/-- A bit less in `auth_pending` asks for less. -/
theorem authSuccess_inv (bit : UInt8) (h : PhaseInv s) : PhaseInv (a.authSuccess bit s) := by
  have hless : s.authPending &&& ~~~ bit ≠ 0 → s.authPending ≠ 0 := by
    intro hb h0
    exact hb (by rw [h0, UInt8.zero_and])
  have hs : ∀ ph, PhaseInv { s with authPending := s.authPending &&& ~~~ bit, phase := ph } := by
    intro ph
    refine ⟨h.down, fun hp => h.waits (hless hp), ?_⟩
    rintro (hp | hr)
    · exact h.quiet (.inl (hless hp))
    · exact h.quiet (.inr hr)
  rw [authSuccess]
  dsimp only
  split
  next h0 => exact a.ipcpOpen_inv (hs .network) h0
  next => exact hs s.phase

theorem authPeerSuccess_inv (protocol : UInt16) (h : PhaseInv s) :
    PhaseInv (a.authPeerSuccess protocol s) := by
  rw [authPeerSuccess]
  split
  · exact a.authSuccess_inv _ h
  · split
    · exact a.authSuccess_inv _ h
    · exact h

theorem authWithpeerSuccess_inv (protocol : UInt16) (h : PhaseInv s) :
    PhaseInv (a.authWithpeerSuccess protocol s) := by
  rw [authWithpeerSuccess]
  split
  · exact a.authSuccess_inv _ h
  · split
    · exact a.authSuccess_inv _ h
    · exact a.authSuccess_inv _ h

theorem die_inv (h : PhaseInv s) : PhaseInv (a.die s) := h.falls (a.die_falls s)

/-- CHAP can do nothing to the phases but through its reports. -/
theorem chap_inv : a.chapPort.Keeps PhaseInv where
  put _ h := ⟨h.down, h.waits, h.quiet⟩
  timeout _ h := h
  untimeout _ h := h
  note _ h := h
  random h := ⟨h.down, h.waits, h.quiet⟩
  peerSuccess h := a.authPeerSuccess_inv chapProto h
  peerFail h := a.die_inv h
  withpeerSuccess h := a.authWithpeerSuccess_inv chapProto h
  withpeerFail h := h

theorem lcpRprotrej_inv (inp : List UInt8) (h : PhaseInv s) : PhaseInv (a.lcpRprotrej inp s) := by
  rw [lcpRprotrej]
  split
  · exact h
  · split
    · exact h
    · rw [demuxprotrej]
      split
      · exact h.falls (a.lcp_protreject_falls s)
      · split
        · obtain ⟨f, hf, he⟩ := a.ipcpLowerdown_eq s
          rw [he]
          exact h.falls ⟨rfl, rfl, rfl, .inr hf⟩
        · split
          · exact a.chap_inv.protocolReject h
          · exact h

/-- A packet for LCP that does not open the link. -/
theorem lcp_dispatch_inv (p : CpPacket) (hno : a.lcpOpens s p = none) (h : PhaseInv s) :
    PhaseInv (fsmDispatch a.lcpPort a.lcpCallbacks p s) := by
  rw [fsmDispatch]
  split
  next hp => exact h.falls (a.rconfreq_falls p hp hno)
  next =>
    split
    next hp => exact h.falls (a.rconfack_falls p hp hno)
    next =>
      split
      · exact h.falls (a.rconfnakrej_falls _ _ _ s)
      · split
        · exact h.falls (a.rtermreq_falls _ s)
        · split
          · exact h.falls (a.rtermack_falls s)
          · split
            · exact h.falls (a.rcoderej_falls _ s)
            · have hext : PhaseInv (a.lcpExtcode s p).2 := by
                rw [lcpExtcode]
                split
                · exact a.lcpRprotrej_inv _ h
                · split
                  · exact h
                  · split
                    · rw [lcpReceivedEchoReply]
                      dsimp only
                      split
                      · exact h
                      · exact ⟨h.down, h.waits, h.quiet⟩
                    · split <;> exact h
              show PhaseInv (if (a.lcpExtcode s p).1 then (a.lcpExtcode s p).2 else _)
              split
              · exact hext
              · exact ⟨hext.down, hext.waits, hext.quiet⟩

end Stack

/-! ## IPCP, speaking

An IPCP that has left the three states is on an open link with nothing due, and
what it does there is not judged. It must not change what is due, and if it takes
the link down it must go down with it. -/

/-- IPCP acts on its own record and its own options. -/
def NetOnly (s t : Session σ) : Prop := ∃ f n b, t = { s with ipcp := f, net := n, said := b }

structure Within (s t : Session σ) : Prop where
  authPending : t.authPending = s.authPending
  refused : t.refused = s.refused
  lcp : t.lcp.state = s.lcp.state ∨ t.ipcp.state.low = true

namespace NetOnly

variable {s t u : Session σ}

theorem refl (s : Session σ) : NetOnly s s := ⟨s.ipcp, s.net, s.said, rfl⟩

theorem trans (h : NetOnly s t) (h' : NetOnly t u) : NetOnly s u := by
  obtain ⟨f, n, b, rfl⟩ := h
  obtain ⟨f', n', b', rfl⟩ := h'
  exact ⟨f', n', b', rfl⟩

theorem setIpcp (h : NetOnly s t) (f : Fsm) : NetOnly s { t with ipcp := f } :=
  h.trans ⟨f, t.net, t.said, rfl⟩

theorem setNet (h : NetOnly s t) (n : Ipcp) : NetOnly s { t with net := n } :=
  h.trans ⟨t.ipcp, n, t.said, rfl⟩

theorem within (h : NetOnly s t) : Within s t := by
  obtain ⟨f, n, b, rfl⟩ := h
  exact ⟨rfl, rfl, .inl rfl⟩

theorem then_within (h : NetOnly s t) (h' : Within t u) : Within s u := by
  obtain ⟨f, n, b, rfl⟩ := h
  exact ⟨h'.authPending, h'.refused, h'.lcp⟩

end NetOnly

theorem Within.inv {s t : Session σ} (h : PhaseInv s) (hs : s.ipcp.state.calm = false)
    (hw : Within s t) : PhaseInv t := by
  have hlow : s.ipcp.state.low ≠ true := by
    intro hl
    rw [FsmState.calm_of_low hl] at hs
    exact absurd hs (by decide)
  have hr : t.refused ≠ true := by
    rw [hw.refused]
    exact fun hr => hlow (h.down (.inr hr))
  have hp : t.authPending = 0 := by
    rw [hw.authPending]
    by_contra hp
    rw [h.waits hp] at hs
    exact absurd hs (by decide)
  refine ⟨?_, fun hp' => absurd hp hp', ?_⟩
  · rintro (ho | hr')
    · rcases hw.lcp with he | hl
      · rw [he] at ho
        exact absurd (h.down (.inl ho)) hlow
      · exact hl
    · exact absurd hr' hr
  · rintro (hp' | hr')
    · exact absurd hp hp'
    · exact absurd hr' hr

namespace Stack

variable (a : Stack σ) {s : Session σ}

theorem OnNet.netOnly {t : Session σ} (h : OnNet s t) : NetOnly s t := by
  obtain ⟨f, n, b, _, _, rfl⟩ := h
  exact ⟨f, n, b, rfl⟩

theorem ipcp_sdata (code id : UInt8) (data : List UInt8) (s : Session σ) :
    NetOnly s (fsmSdata a.ipcpPort code id data s) := by
  show NetOnly s (if code = confack then { s with said := true } else s)
  split
  · exact ⟨s.ipcp, s.net, true, rfl⟩
  · exact .refl s

/-- Nothing but an acknowledgment is worth noting among the answers. -/
theorem ipcp_sdata_other {code : UInt8} (h : code ≠ confack) (id : UInt8) (data : List UInt8)
    (s : Session σ) : fsmSdata a.ipcpPort code id data s = s := if_neg h

theorem die_within (h : s.lcp.state = .opened) : Within s (a.die s) :=
  ⟨(a.die_falls s).authPending, (a.die_falls s).refused,
    .inr (a.die_low s (fun hne => absurd h hne))⟩

theorem ipcp_close_netOnly (s : Session σ) : NetOnly s (fsmClose a.ipcpPort ipcpLower s) := by
  have hterm : NetOnly s (a.ipcpPort.setState .closing (fsmStermreq a.ipcpPort
      (a.ipcpPort.modify (fun f => { f with retransmits := f.maxtermtransmits }) s))) := by
    refine NetOnly.setIpcp ?_ _
    exact ((NetOnly.refl s).setIpcp _).trans (a.ipcp_stermreq _).netOnly
  cases h : s.ipcp.state <;> simp only [fsmClose, ipcpPort_state, h]
  case starting => exact (NetOnly.refl s).setIpcp _
  case stopped => exact (NetOnly.refl s).setIpcp _
  case stopping => exact (NetOnly.refl s).setIpcp _
  case reqsent => exact hterm
  case ackrcvd => exact hterm
  case acksent => exact hterm
  case opened => exact hterm
  all_goals exact .refl s

theorem ipcpClose_within (h : s.lcp.state = .opened) : Within s (a.ipcpClose s) := by
  have hn := a.ipcp_close_netOnly s
  refine hn.then_within (a.die_within ?_)
  obtain ⟨f, n, b, he⟩ := hn
  rw [he]
  exact h

theorem ipcpUp_within (h : s.lcp.state = .opened) : Within s (a.ipcpUp s) := by
  have hnet : ∀ n : Ipcp, Within s
      (if n.his.hisaddr = 0 then a.ipcpClose { s with net := n }
      else if n.got.ouraddr = 0 then a.ipcpClose { s with net := n }
      else if (a.ipUp n s.env).1 then { s with net := n, env := (a.ipUp n s.env).2 }
      else a.ipcpClose { s with net := n, env := (a.ipUp n s.env).2 }) := by
    intro n
    have hset : NetOnly s { s with net := n } := (NetOnly.refl s).setNet n
    split
    · exact hset.then_within (a.ipcpClose_within h)
    · split
      · exact hset.then_within (a.ipcpClose_within h)
      · split
        · exact ⟨rfl, rfl, .inl rfl⟩
        · have hw := a.ipcpClose_within
            (s := { s with net := n, env := (a.ipUp n s.env).2 }) h
          exact ⟨hw.authPending, hw.refused, hw.lcp⟩
  exact hnet _

theorem ipcp_reply_within (id : UInt8) (inp : List UInt8) (h : s.lcp.state = .opened) :
    Within s (rconfreqReply a.ipcpPort a.ipcpCallbacks id inp s) := by
  let r := ipcpReqci s.net inp (decide (s.ipcp.maxnakloops ≤ s.ipcp.nakloops))
  obtain ⟨t, ht, he⟩ : ∃ t, NetOnly s t ∧ rconfreqReply a.ipcpPort a.ipcpCallbacks id inp s =
      rconfreqMove a.ipcpPort a.ipcpCallbacks r.1 t :=
    ⟨_, ((NetOnly.refl s).setNet r.2.2).trans (a.ipcp_sdata r.1.code id r.2.1 _), rfl⟩
  rw [he]
  refine ht.then_within ?_
  have hopen : t.lcp.state = .opened := by
    obtain ⟨f, n, b, rfl⟩ := ht
    exact h
  rw [rconfreqMove]
  by_cases hack : r.1 = .ack
  · simp only [if_pos hack, ipcpPort_state]
    by_cases hst : t.ipcp.state = .ackrcvd
    · have hw : Within t (a.ipcpUp { t with ipcp := { t.ipcp with state := .opened } }) :=
        ((NetOnly.refl t).setIpcp _).then_within (a.ipcpUp_within hopen)
      simp only [hst, if_true]
      exact ⟨hw.authPending, hw.refused, hw.lcp⟩
    · simp only [hst, if_false]
      exact (((NetOnly.refl t).setIpcp _).setIpcp _).within
  · have hback : NetOnly t (if a.ipcpPort.state t ≠ .ackrcvd then
        a.ipcpPort.setState .reqsent t else t) := by
      split
      · exact (NetOnly.refl t).setIpcp _
      · exact .refl t
    simp only [if_neg hack]
    split
    · exact (hback.setIpcp _).within
    · exact hback.within

theorem ipcp_rconfreq_within (id : UInt8) (inp : List UInt8) (h : s.lcp.state = .opened) :
    Within s (fsmRconfreq a.ipcpPort a.ipcpCallbacks id inp s) := by
  have hreply : ∀ t, NetOnly s t →
      Within s (rconfreqReply a.ipcpPort a.ipcpCallbacks id inp t) := by
    intro t ht
    refine ht.then_within (a.ipcp_reply_within id inp ?_)
    obtain ⟨f, n, b, rfl⟩ := ht
    exact h
  have hreq : NetOnly s (fsmSconfreq a.ipcpPort ipcpLower false s) :=
    (a.ipcp_sconfreq s false).netOnly
  cases hst : s.ipcp.state <;> simp only [fsmRconfreq, ipcpPort_state, hst]
  case closed => exact (a.ipcp_sdata _ _ _ s).within
  case closing => exact (NetOnly.refl s).within
  case stopping => exact (NetOnly.refl s).within
  case opened => exact hreply _ hreq
  case stopped => exact hreply _ (hreq.setIpcp _)
  all_goals exact hreply s (.refl s)

theorem ipcp_rconfack_within (id : UInt8) (inp : List UInt8) (h : s.lcp.state = .opened) :
    Within s (fsmRconfack a.ipcpPort a.ipcpCallbacks id inp s) := by
  have hcheck : checkAck a.ipcpCallbacks inp s = (ipcpAckci s.net.got inp, s) := rfl
  have hcb : a.ipcpCallbacks.toLowerCallbacks = ipcpLower := rfl
  unfold fsmRconfack
  by_cases hid : id = s.ipcp.reqid
  · by_cases hgood : ipcpAckci s.net.got inp = true
    · simp only [ipcp_fsm, hid, ne_eq, not_true_eq_false, if_false, hcheck, hgood, Bool.not_true,
        Bool.false_eq_true, hcb]
      generalize hT : a.ipcpPort.modify (fun f => { f with reqid := noReqid }) _ = t
      have ht : NetOnly s t := by
        rw [← hT]
        exact (NetOnly.refl s).setIpcp _
      have hreq : NetOnly s (fsmSconfreq a.ipcpPort ipcpLower false t) :=
        ht.trans (a.ipcp_sconfreq t false).netOnly
      have hlcp : t.lcp.state = .opened := by
        rw [← hT]
        exact h
      split
      iterate 2 exact (ht.trans (a.ipcp_sdata _ _ _ t)).within
      · exact (ht.setIpcp _).within
      · exact (hreq.setIpcp _).within
      · exact (ht.setIpcp _).then_within (a.ipcpUp_within hlcp)
      · exact (hreq.setIpcp _).within
      all_goals exact ht.within
    · simp only [ipcp_fsm, hid, ne_eq, not_true_eq_false, if_false, hcheck, hgood, Bool.not_false,
        if_true]
      exact (NetOnly.refl s).within
  · simp only [ipcp_fsm, ne_eq, hid, not_false_eq_true, if_true]
    exact (NetOnly.refl s).within

/-- What the checks of a Nak and of a Reject may do before the automaton goes
on: change the options, and take the link down. -/
theorem ipcp_checkNakrej (code : UInt8) (inp : List UInt8) (s : Session σ) :
    ∃ good n, checkNakrej a.ipcpCallbacks code inp s = (good, { s with net := n }) ∨
      checkNakrej a.ipcpCallbacks code inp s = (good, { a.die s with net := n }) := by
  unfold checkNakrej
  by_cases hn : code = confnak
  · simp only [if_pos hn]
    exact ⟨_, _, .inl rfl⟩
  · simp only [if_neg hn]
    show ∃ good n, a.ipcpRejected s inp = (good, { s with net := n }) ∨
      a.ipcpRejected s inp = (good, { a.die s with net := n })
    rw [ipcpRejected]
    by_cases hr : ipcpRejAddr s.net.got inp = true
    · simp only [if_pos hr]
      exact ⟨_, _, .inr rfl⟩
    · simp only [if_neg hr]
      exact ⟨_, _, .inl rfl⟩

/-- What `fsm_rconfnakrej` of IPCP does once the checks have passed. -/
def ipcpRetry (id : UInt8) (t : Session σ) : Session σ :=
  match t.ipcp.state with
  | .closed | .stopped => fsmSdata a.ipcpPort termack id [] t
  | .reqsent | .acksent => fsmSconfreq a.ipcpPort ipcpLower false t
  | .ackrcvd | .opened =>
      a.ipcpPort.setState .reqsent (fsmSconfreq a.ipcpPort ipcpLower false t)
  | .initial | .starting | .closing | .stopping => t

theorem ipcpRetry_netOnly (id : UInt8) (t : Session σ) : NetOnly t (a.ipcpRetry id t) := by
  have hreq : NetOnly t (fsmSconfreq a.ipcpPort ipcpLower false t) :=
    (a.ipcp_sconfreq t false).netOnly
  cases hst : t.ipcp.state <;> simp only [ipcpRetry, hst]
  case closed => exact a.ipcp_sdata _ _ _ t
  case stopped => exact a.ipcp_sdata _ _ _ t
  case reqsent => exact hreq
  case acksent => exact hreq
  case ackrcvd => exact hreq.setIpcp _
  case opened => exact hreq.setIpcp _
  all_goals exact .refl t

/-- An automaton that waits does not retry. -/
theorem ipcpRetry_calm (id : UInt8) {t : Session σ} (h : t.ipcp.state.calm = true) :
    a.ipcpRetry id t = t := by
  cases hst : t.ipcp.state <;> simp only [ipcpRetry, hst]
  case closed => exact a.ipcp_sdata_other (by decide) _ _ t
  all_goals
    rw [hst] at h
    exact absurd h (by decide)

theorem ipcp_rconfnakrej_eq (code id : UInt8) (inp : List UInt8) (s u : Session σ) (good : Bool)
    (hcheck : checkNakrej a.ipcpCallbacks code inp s = (good, u)) :
    fsmRconfnakrej a.ipcpPort a.ipcpCallbacks code id inp s =
      if id ≠ s.ipcp.reqid then s
      else if good = false then u
      else a.ipcpRetry id { u with ipcp := { u.ipcp with reqid := noReqid } } := by
  unfold fsmRconfnakrej
  rw [hcheck]
  cases good
  · rfl
  · have hnote : ∀ t, a.ipcpPort.note (.accepted code id) t = t := fun _ => rfl
    have hcb : a.ipcpCallbacks.toLowerCallbacks = ipcpLower := rfl
    cases hst : u.ipcp.state <;>
      simp only [hnote, hcb, ipcp_fsm, ipcp_modify, ipcpPort_state, ipcp_goDown, ipcpRetry, hst,
        Bool.not_true, Bool.false_eq_true, if_false, Bool.true_eq_false] <;> rfl

theorem ipcp_rconfnakrej_within (code id : UInt8) (inp : List UInt8) (h : s.lcp.state = .opened) :
    Within s (fsmRconfnakrej a.ipcpPort a.ipcpCallbacks code id inp s) := by
  obtain ⟨good, n, hcheck | hcheck⟩ := a.ipcp_checkNakrej code inp s
  · rw [a.ipcp_rconfnakrej_eq code id inp s _ good hcheck]
    have hu : NetOnly s { s with net := n } := (NetOnly.refl s).setNet n
    split
    · exact (NetOnly.refl s).within
    · split
      · exact hu.within
      · exact ((hu.setIpcp _).trans (a.ipcpRetry_netOnly id _)).within
  · rw [a.ipcp_rconfnakrej_eq code id inp s _ good hcheck]
    have hw := a.die_within h
    have hlow := a.die_low s (fun hne => absurd h hne)
    split
    · exact (NetOnly.refl s).within
    · split
      · exact ⟨hw.authPending, hw.refused, .inr hlow⟩
      · -- the link went down under the automaton, which stops here
        have hc := a.ipcpRetry_calm id
          (t := { a.die s with net := n, ipcp := { (a.die s).ipcp with reqid := noReqid } })
          (FsmState.calm_of_low hlow)
        show Within s (a.ipcpRetry id
          { a.die s with net := n, ipcp := { (a.die s).ipcp with reqid := noReqid } })
        rw [hc]
        exact ⟨hw.authPending, hw.refused, .inr hlow⟩

theorem ipcp_rtermreq_within (id : UInt8) (s : Session σ) :
    Within s (fsmRtermreq a.ipcpPort a.ipcpCallbacks id s) := by
  unfold fsmRtermreq
  refine NetOnly.within (NetOnly.trans ?_ (a.ipcp_sdata _ _ _ _))
  split
  iterate 3 exact (NetOnly.refl s).setIpcp _
  exact .refl s

/-- A packet for an IPCP that has left the three states. -/
theorem ipcp_dispatch_within (p : CpPacket) (h : s.lcp.state = .opened) :
    Within s (fsmDispatch a.ipcpPort a.ipcpCallbacks p s) := by
  have hreq : NetOnly s (fsmSconfreq a.ipcpPort ipcpLower false s) :=
    (a.ipcp_sconfreq s false).netOnly
  rw [fsmDispatch]
  split
  · exact a.ipcp_rconfreq_within _ _ h
  · split
    · exact a.ipcp_rconfack_within _ _ h
    · split
      · exact a.ipcp_rconfnakrej_within _ _ _ h
      · split
        · exact a.ipcp_rtermreq_within _ s
        · split
          · cases hst : s.ipcp.state <;> simp only [fsmRtermack, ipcpPort_state, hst]
            case closing => exact ((NetOnly.refl s).setIpcp _).within
            case stopping => exact ((NetOnly.refl s).setIpcp _).within
            case ackrcvd => exact ((NetOnly.refl s).setIpcp _).within
            case opened => exact hreq.within
            all_goals exact (NetOnly.refl s).within
          · split
            · rw [fsmRcoderej]
              split
              · exact (NetOnly.refl s).within
              · split
                · exact ((NetOnly.refl s).setIpcp _).within
                · exact (NetOnly.refl s).within
            · exact (((NetOnly.refl s).setIpcp _).trans (a.ipcp_sdata _ _ _ _)).within

/-! ## IPCP, waiting -/

theorem falls_ipcp {f : Fsm} (n : Ipcp) (h : f.state = s.ipcp.state) :
    Falls s { s with ipcp := f, net := n } := ⟨rfl, rfl, rfl, .inl ⟨h, Iff.rfl⟩⟩

theorem ipcp_rconfnakrej_calm (code id : UInt8) (inp : List UInt8)
    (h : s.ipcp.state.calm = true) :
    Falls s (fsmRconfnakrej a.ipcpPort a.ipcpCallbacks code id inp s) := by
  have hcalm : (a.die s).ipcp.state.calm = true := by
    rcases (a.die_falls s).ipcp with ⟨he, _⟩ | hlow
    · rw [he]
      exact h
    · exact FsmState.calm_of_low hlow
  obtain ⟨good, n, hcheck | hcheck⟩ := a.ipcp_checkNakrej code inp s
  · rw [a.ipcp_rconfnakrej_eq code id inp s _ good hcheck]
    split
    · exact .refl s
    · split
      · exact falls_ipcp n rfl
      · have hc := a.ipcpRetry_calm id
          (t := { s with net := n, ipcp := { s.ipcp with reqid := noReqid } }) h
        show Falls s (a.ipcpRetry id { s with net := n, ipcp := { s.ipcp with reqid := noReqid } })
        rw [hc]
        exact falls_ipcp n rfl
  · rw [a.ipcp_rconfnakrej_eq code id inp s _ good hcheck]
    have hset : ∀ f : Fsm, f.state = (a.die s).ipcp.state →
        Falls s { a.die s with ipcp := f, net := n } :=
      fun f hf => (a.die_falls s).trans (falls_ipcp n hf)
    split
    · exact .refl s
    · split
      · exact hset _ rfl
      · have hc := a.ipcpRetry_calm id
          (t := { a.die s with net := n, ipcp := { (a.die s).ipcp with reqid := noReqid } }) hcalm
        show Falls s (a.ipcpRetry id
          { a.die s with net := n, ipcp := { (a.die s).ipcp with reqid := noReqid } })
        rw [hc]
        exact hset _ rfl

theorem ipcp_rconfack_calm (id : UInt8) (inp : List UInt8) (h : s.ipcp.state = .closed) :
    Falls s (fsmRconfack a.ipcpPort a.ipcpCallbacks id inp s) := by
  have hcheck : checkAck a.ipcpCallbacks inp s = (ipcpAckci s.net.got inp, s) := rfl
  unfold fsmRconfack
  by_cases hid : id = s.ipcp.reqid
  · by_cases hgood : ipcpAckci s.net.got inp = true
    · have hnote : ∀ t, a.ipcpPort.note (.accepted confack id) t = t := fun _ => rfl
      simp only [ipcp_fsm, ← hid, ne_eq, not_true_eq_false, if_false, hcheck, hgood, Bool.not_true,
        Bool.false_eq_true, hnote, ipcp_modify, ipcpPort_state, h]
      rw [a.ipcp_sdata_other (by decide)]
      exact falls_ipcp _ h.symm
    · simp only [ipcp_fsm, hid, ne_eq, not_true_eq_false, if_false, hcheck, hgood, Bool.not_false,
        if_true]
      exact .refl s
  · simp only [ipcp_fsm, ne_eq, hid, not_false_eq_true, if_true]
    exact .refl s

/-- A packet for an IPCP that waits to be opened. -/
theorem ipcp_dispatch_calm (p : CpPacket) (h : s.ipcp.state = .closed) :
    Falls s (fsmDispatch a.ipcpPort a.ipcpCallbacks p s) := by
  have hterm : ∀ id, fsmSdata a.ipcpPort termack id [] s = s :=
    fun id => a.ipcp_sdata_other (by decide) id [] s
  rw [fsmDispatch]
  split
  · simp only [fsmRconfreq, ipcpPort_state, h, hterm]
    exact .refl s
  · split
    · exact a.ipcp_rconfack_calm _ _ h
    · split
      · exact a.ipcp_rconfnakrej_calm _ _ _ (by rw [h]; rfl)
      · split
        · simp only [fsmRtermreq, ipcpPort_state, h, hterm]
          exact .refl s
        · split
          · simp only [fsmRtermack, ipcpPort_state, h]
            exact .refl s
          · split
            · rw [fsmRcoderej]
              simp only [ipcpPort_state, h]
              split <;> exact .refl s
            · show Falls s (fsmSdata a.ipcpPort coderej _ _
                { s with ipcp := { s.ipcp with id := s.ipcp.id + 1 } })
              rw [a.ipcp_sdata_other (by decide)]
              exact falls_ipcp _ rfl

theorem ipcp_input_inv (inpacket : List UInt8) (h : PhaseInv s) :
    PhaseInv (fsmInput a.ipcpPort a.ipcpCallbacks inpacket s) := by
  unfold fsmInput
  cases parseHeader inpacket with
  | none => exact h
  | some p =>
      have hnote : a.ipcpPort.note (.rcvd p) s = s := rfl
      simp only [ipcpPort_state, hnote]
      split
      · exact h
      next hlow =>
        by_cases hc : s.ipcp.state = .closed
        · exact h.falls (a.ipcp_dispatch_calm p hc)
        · have hcalm : s.ipcp.state.calm = false := by
            cases hst : s.ipcp.state <;> simp_all [FsmState.calm]
          have hopen : s.lcp.state = .opened := by
            by_contra hne
            have hl := h.down (.inl hne)
            cases hst : s.ipcp.state <;> simp_all [FsmState.low]
          exact Within.inv h hcalm (a.ipcp_dispatch_within p hopen)

theorem ipcp_timeout_inv (h : PhaseInv s) :
    PhaseInv (fsmTimeout a.ipcpPort a.ipcpCallbacks s) := by
  have hterm : ∀ st, NetOnly s
      (if s.ipcp.retransmits ≤ 0 then a.ipcpPort.setState st s else fsmStermreq a.ipcpPort s) := by
    intro st
    split
    · exact (NetOnly.refl s).setIpcp _
    · exact (a.ipcp_stermreq s).netOnly
  have hreq : NetOnly s
      (if s.ipcp.retransmits ≤ 0 then
        (if s.ipcp.flags.passive then a.ipcpPort.setState .stopped s
          else a.ipcpPort.setState .stopped s)
      else
        let t := fsmSconfreq a.ipcpPort ipcpLower true s
        if t.ipcp.state = .ackrcvd then a.ipcpPort.setState .reqsent t else t) := by
    split
    · split <;> exact (NetOnly.refl s).setIpcp _
    · dsimp only
      split
      · exact (a.ipcp_sconfreq s true).netOnly.setIpcp _
      · exact (a.ipcp_sconfreq s true).netOnly
  have hactive : s.ipcp.state.calm = false → ∀ t, NetOnly s t → PhaseInv t :=
    fun hcalm t ht => Within.inv h hcalm ht.within
  cases hst : s.ipcp.state <;> simp only [fsmTimeout, ipcpPort_state, hst]
  case closing => exact hactive (by rw [hst]; rfl) _ (hterm _)
  case stopping => exact hactive (by rw [hst]; rfl) _ (hterm _)
  case reqsent => exact hactive (by rw [hst]; rfl) _ hreq
  case ackrcvd => exact hactive (by rw [hst]; rfl) _ hreq
  case acksent => exact hactive (by rw [hst]; rfl) _ hreq
  all_goals exact h

/-! ## LCP, coming up -/

/-- Somebody has to authenticate on a link with these options, or refused to. -/
def authDue (s : Session σ) (o : Lcp) : Bool :=
  o.got.negChap || o.got.negUpap || o.his.negChap || o.his.negUpap ||
    (s.authRequired && (!o.want.negUpap || !(a.nullLogin s.env).1))

/-- No answers are outstanding when the counting starts, so the peer has not
failed yet. -/
theorem lcpEchoLowerup_eq (s : Session σ) :
    ∃ n m b, a.lcpEchoLowerup s =
      { s with echosPending := n, echoNumber := m, echoTimerRunning := b } := by
  rw [lcpEchoLowerup]
  by_cases hi : s.echoInterval = 0
  · exact ⟨0, 0, false, by simp [hi]⟩
  · have hfail : ∀ t : Session σ, t.echosPending = 0 →
        ∃ n, a.lcpEchoFailure t = { t with echosPending := n } := by
      intro t ht
      rw [lcpEchoFailure]
      by_cases hf : t.echoFails = 0
      · exact ⟨t.echosPending, if_neg (not_not.mpr hf)⟩
      · have hover : ¬ t.echoFails ≤ t.echosPending := by
          rw [ht, UInt32.le_zero_iff]
          exact hf
        exact ⟨t.echosPending + 1, by simp [hf, hover]⟩
    obtain ⟨n, he⟩ :=
      hfail { s with echosPending := 0, echoNumber := 0, echoTimerRunning := false } rfl
    simp only [ne_eq, hi, not_false_eq_true, if_true, lcpEchoCheck, lcpSendEchoRequest, he]
    split
    · exact ⟨n, _, true, rfl⟩
    · exact ⟨n, 0, true, rfl⟩

theorem startPeer_chap (s : Session σ) : OnChap s (a.startPeer s).2 := by
  unfold startPeer
  dsimp only
  split
  · exact (a.chap_keeps s).authPeer _ _ (.refl s)
  · split <;> exact .refl s

theorem startWithpeer_chap (s : Session σ) : OnChap s (a.startWithpeer s).2 := by
  unfold startWithpeer
  dsimp only
  split
  · exact (a.chap_keeps s).authWithPeer _ _ (.refl s)
  · split <;> exact .refl s

/-- `link_established` behind its head: it notes who has to authenticate, and
opens IPCP if nobody has. -/
theorem linkEstablished_eq (s : Session σ) :
    ∃ y auth ph, a.linkEstablished s =
        (if auth = 0 then a.ipcpOpen { y with authPending := auth, phase := .network }
          else { y with authPending := auth, phase := ph }) ∧
      OnChap (a.checkRefusal s) y ∧
      ((a.checkRefusal s).link.got.negChap = false → (a.checkRefusal s).link.got.negUpap = false →
        (a.checkRefusal s).link.his.negChap = false →
        (a.checkRefusal s).link.his.negUpap = false → auth = 0) := by
  let x : Session σ := { a.checkRefusal s with phase := .authenticate }
  obtain ⟨c, n, hp⟩ := a.startPeer_chap x
  obtain ⟨c', n', hw⟩ := a.startWithpeer_chap (a.startPeer x).2
  refine ⟨{ a.checkRefusal s with chap := c', chapDrawn := n' },
    (a.startPeer x).1 ||| (a.startWithpeer (a.startPeer x).2).1, .authenticate, ?_,
    ⟨c', n', rfl⟩, ?_⟩
  · rw [hp] at hw
    show (if (a.startPeer x).1 ||| (a.startWithpeer (a.startPeer x).2).1 = 0 then
      a.ipcpOpen { (a.startWithpeer (a.startPeer x).2).2 with authPending := _, phase := .network }
      else { (a.startWithpeer (a.startPeer x).2).2 with authPending := _ }) = _
    rw [hp, hw]
  · intro h1 h2 h3 h4
    rw [hp]
    simp [startPeer, startWithpeer, x, h1, h2, h3, h4]

/-- The head of `link_established`: either the link goes down with IPCP on it, or
nothing happens. -/
theorem checkRefusal_cases (s : Session σ) :
    (∃ env, a.checkRefusal s = { s with env := env } ∧
      ¬ (s.authRequired = true ∧ s.link.got.negChap = false ∧ s.link.got.negUpap = false ∧
        (s.link.want.negUpap = false ∨ (a.nullLogin s.env).1 = false))) ∨
    (∃ env, a.checkRefusal s = a.die { s with refused := true, env := env } ∧
      s.authRequired = true ∧ s.link.got.negChap = false ∧ s.link.got.negUpap = false ∧
        (s.link.want.negUpap = false ∨ (a.nullLogin s.env).1 = false)) := by
  rw [checkRefusal]
  dsimp only
  split
  next h =>
    have hgot : s.link.got.negChap = false ∧ s.link.got.negUpap = false := by simpa using h.2
    by_cases hw : s.link.want.negUpap = false
    · simp only [hw, Bool.not_false, if_true]
      exact .inr ⟨s.env, rfl, h.1, hgot.1, hgot.2, .inl trivial⟩
    · simp only [hw, Bool.not_true, Bool.false_eq_true, if_false]
      by_cases hn : (a.nullLogin s.env).1 = true
      · simp only [hn, if_true]
        exact .inl ⟨_, rfl, by simp⟩
      · simp only [hn]
        exact .inr ⟨_, rfl, h.1, hgot.1, hgot.2, .inr trivial⟩
  next h =>
    refine .inl ⟨s.env, rfl, ?_⟩
    rintro ⟨ha, hc, hu, _⟩
    exact h ⟨ha, by simp [hc, hu]⟩

/-- `ipcp_lowerup` of an IPCP that is down. -/
theorem ipcpLowerup_eq (s : Session σ) :
    ∃ f n b, a.ipcpLowerup s = { s with ipcp := f, net := n, said := b } ∧
      (s.ipcp.state = .initial → f.state = .closed ∧ b = s.said) := by
  obtain ⟨f, n, b, _, _, he⟩ := a.ipcp_sconfreq s false
  cases h : s.ipcp.state <;> simp only [ipcpLowerup, fsmLowerup, ipcpPort_state, h]
  case initial => exact ⟨_, s.net, s.said, rfl, fun _ => ⟨rfl, rfl⟩⟩
  case starting =>
    split
    · exact ⟨_, s.net, s.said, rfl, nofun⟩
    · rw [he]
      exact ⟨_, n, b, rfl, nofun⟩
  all_goals exact ⟨s.ipcp, s.net, s.said, rfl, nofun⟩

/-- The record before `link_established`. -/
theorem lcpUp_eq (s : Session σ) :
    ∃ w : Session σ, a.lcpUp s = a.linkEstablished w ∧ w.lcp = s.lcp ∧
      w.link = lcpUpOptions s.link ∧ w.authRequired = s.authRequired ∧ w.env = s.env ∧
      w.refused = s.refused ∧
      (s.ipcp.state = .initial → w.ipcp.state = .closed ∧ w.said = s.said) := by
  obtain ⟨c, n, hc⟩ := (a.chap_keeps { s with link := lcpUpOptions s.link }).lowerUp (.refl _)
  obtain ⟨f, m, b, hu, hi⟩ := a.ipcpLowerup_eq
    { s with link := lcpUpOptions s.link, chap := c, chapDrawn := n }
  obtain ⟨e, k, r, he⟩ := a.lcpEchoLowerup_eq
    { s with
      link := lcpUpOptions s.link, chap := c, chapDrawn := n, ipcp := f, net := m, said := b }
  have hc' : chapLowerUp a.chapQuiet { s with link := lcpUpOptions s.link } =
      { s with link := lcpUpOptions s.link, chap := c, chapDrawn := n } := hc
  have hup : a.lcpUp s = a.linkEstablished (a.lcpEchoLowerup (a.ipcpLowerup
      (chapLowerUp a.chapQuiet { s with link := lcpUpOptions s.link }))) := rfl
  rw [hup, hc', hu, he]
  exact ⟨_, rfl, rfl, rfl, rfl, rfl, rfl, hi⟩

/-- LCP comes up on an IPCP that is down, and that is not about to speak while an
authentication is due. -/
theorem lcpUp_inv (hopen : s.lcp.state = .opened) (hr : s.refused = false) (hd : s.said = false)
    (hlow : s.ipcp.state.low = true)
    (hready : s.ipcp.state = .starting → a.authDue s s.link = false) : PhaseInv (a.lcpUp s) := by
  obtain ⟨w, hup, hlcp, hlink, hreq, henv, href, hinit⟩ := a.lcpUp_eq s
  obtain ⟨y, auth, ph, he, ⟨c, n, rfl⟩, hbits⟩ := a.linkEstablished_eq w
  rw [hup, he]
  have hw : w.lcp.state = .opened := by rw [hlcp, hopen]
  have hopts : w.link.got.negChap = s.link.got.negChap ∧ w.link.got.negUpap = s.link.got.negUpap ∧
      w.link.his.negChap = s.link.his.negChap ∧ w.link.his.negUpap = s.link.his.negUpap ∧
      w.link.want = s.link.want := by
    rw [hlink]
    exact ⟨rfl, rfl, rfl, rfl, rfl⟩
  -- it is enough that the state is good whichever bits are set
  have hend : (∀ q, auth = 0 → PhaseInv
        { a.checkRefusal w with chap := c, chapDrawn := n, authPending := auth, phase := q }) →
      (auth ≠ 0 → PhaseInv
        { a.checkRefusal w with chap := c, chapDrawn := n, authPending := auth, phase := ph }) →
      PhaseInv (if auth = 0 then a.ipcpOpen
        { a.checkRefusal w with
          chap := c, chapDrawn := n, authPending := auth, phase := .network }
        else { a.checkRefusal w with
          chap := c, chapDrawn := n, authPending := auth, phase := ph }) := by
    intro h0 h1
    split
    next h => exact a.ipcpOpen_inv (h0 _ h) h
    next h => exact h1 h
  by_cases hst : s.ipcp.state = .starting
  · have hnot := hready hst
    simp only [authDue, Bool.or_eq_false_iff, Bool.and_eq_false_iff, Bool.not_eq_false'] at hnot
    obtain ⟨⟨⟨⟨h1, h2⟩, h3⟩, h4⟩, h5⟩ := hnot
    rcases a.checkRefusal_cases w with ⟨env, hx, _⟩ | ⟨env, _, ha, _, _, hno⟩
    · have hauth : auth = 0 := by
        apply hbits <;> rw [hx]
        · exact hopts.1.trans h1
        · exact hopts.2.1.trans h2
        · exact hopts.2.2.1.trans h3
        · exact hopts.2.2.2.1.trans h4
      refine hend ?_ (fun hne => absurd hauth hne)
      intro q _
      rw [hx]
      refine ⟨?_, fun hp => absurd hauth hp, ?_⟩
      · rintro (hne | hr')
        · exact absurd hw hne
        · exact absurd hr' (by simp [href, hr])
      · rintro (hp | hr')
        · exact absurd hauth hp
        · exact absurd hr' (by simp [href, hr])
    · rw [hreq] at ha
      rw [hopts.2.2.2.2, henv] at hno
      rcases h5 with h5 | ⟨h5, h6⟩
      · rw [h5] at ha
        exact absurd ha (by decide)
      · rw [h5, h6] at hno
        exact absurd hno (by decide)
  · have hi : s.ipcp.state = .initial := by
      cases hs : s.ipcp.state <;> simp_all [FsmState.low]
    obtain ⟨hclosed, hsaid⟩ := hinit hi
    rw [hd] at hsaid
    rcases a.checkRefusal_cases w with ⟨env, hx, _⟩ | ⟨env, hx, _⟩
    · have hany : ∀ m q, PhaseInv
          { w with env := env, chap := c, chapDrawn := n, authPending := m, phase := q } := by
        intro m q
        refine ⟨?_, fun _ => by rw [hclosed]; rfl, fun _ => hsaid⟩
        rintro (hne | hr')
        · exact absurd hw hne
        · exact absurd hr' (by simp [href, hr])
      rw [hx] at hend ⊢
      exact hend (fun q _ => hany auth q) (fun _ => hany auth ph)
    · have hf := a.die_falls { w with refused := true, env := env }
      have hl := a.die_low { w with refused := true, env := env } (fun hne => absurd hw hne)
      have hany : ∀ m q, PhaseInv { a.die { w with refused := true, env := env } with
          chap := c, chapDrawn := n, authPending := m, phase := q } :=
        fun m q => ⟨fun _ => hl, fun _ => FsmState.calm_of_low hl, fun _ => hf.said.trans hsaid⟩
      rw [hx] at hend ⊢
      exact hend (fun q _ => hany auth q) (fun _ => hany auth ph)

/-! ## Runs -/

/-- The link does not come up with IPCP in `STARTING` and an authentication
due. -/
def UpReady (s : Session σ) : SessionEvent → Prop
  | .packet protocol inpacket => protocol = lcpProto → ∀ p o, parseHeader inpacket = some p →
      a.lcpOpens s p = some o → s.ipcp.state = .starting → a.authDue s o = false
  | _ => True

/-- A packet that opens the link. -/
theorem lcp_dispatch_opens (p : CpPacket) (o : Lcp) (ho : a.lcpOpens s p = some o) :
    s.lcp.state ≠ .opened ∧ ∃ f : Fsm, f.state = .opened ∧
      Falls (a.lcpUp (raised s f o)) (fsmDispatch a.lcpPort a.lcpCallbacks p s) := by
  rw [lcpOpens] at ho
  split at ho
  next h =>
    split at ho
    next hid =>
      obtain rfl := Option.some.inj ho
      refine ⟨by rw [h.1]; decide, { s.lcp with
        state := .opened, reqid := noReqid, retransmits := s.lcp.maxconfreqtransmits }, rfl, ?_⟩
      have hne : ¬ p.code = confreq := by
        rw [h.2]
        decide
      have hcheck : checkAck a.lcpCallbacks p.data s = (lcpAckci s.link.got p.data, s) := rfl
      have hnote : ∀ t, a.lcpPort.note (.accepted confack p.id) t = t := fun _ => rfl
      simp only [fsmDispatch, if_neg hne, if_pos h.2, fsmRconfack, lcp_fsm, hid.1, ne_eq,
        not_true_eq_false, if_false, hcheck, hid.2, Bool.not_true, Bool.false_eq_true]
      rw [← hid.1]
      simp only [hnote, lcp_modify, lcpPort_state, h.1]
      exact .refl _
    next => exact absurd ho (by simp)
  next =>
    split at ho
    next h =>
      dsimp only at ho
      split at ho
      next hack =>
        obtain rfl := Option.some.inj ho
        refine ⟨by rw [h.1]; decide, { s.lcp with state := .opened }, rfl, ?_⟩
        simp only [fsmDispatch, if_pos h.2, fsmRconfreq, lcpPort_state, h.1]
        exact a.reply_opens _ _ h.1 hack
      next => exact absurd ho (by simp)
    next => exact absurd ho (by simp)

theorem lcp_input_inv (inpacket : List UInt8) (h : PhaseInv s)
    (hg : a.UpReady s (.packet lcpProto inpacket)) :
    PhaseInv (fsmInput a.lcpPort a.lcpCallbacks inpacket s) := by
  unfold fsmInput
  cases hp : parseHeader inpacket with
  | none => exact h
  | some p =>
      have hnote : a.lcpPort.note (.rcvd p) s = s := rfl
      simp only [hnote]
      split
      · exact h
      · cases ho : a.lcpOpens s p with
        | none => exact a.lcp_dispatch_inv p ho h
        | some o =>
            obtain ⟨hne, f, hf, hup⟩ := a.lcp_dispatch_opens p o ho
            have hinv : PhaseInv (a.lcpUp (raised s f o)) :=
              a.lcpUp_inv hf rfl rfl (h.down (.inl hne)) (hg rfl p o hp ho)
            exact hinv.falls hup

theorem packetIn_inv (protocol : UInt16) (inpacket : List UInt8) (h : PhaseInv s)
    (hg : a.UpReady s (.packet protocol inpacket)) :
    PhaseInv (a.packetIn protocol inpacket s) := by
  rw [packetIn]
  split
  · exact h
  · split
    next hp =>
      subst hp
      exact a.lcp_input_inv inpacket h hg
    next =>
      split
      · exact a.ipcp_input_inv inpacket h
      · split
        · exact h
        · split
          · exact a.chap_inv.input inpacket h
          · exact ⟨h.down, h.waits, h.quiet⟩

theorem handle_inv (e : SessionEvent) (h : PhaseInv s) (hg : a.UpReady s e) :
    PhaseInv (a.handle s e) := by
  cases e with
  | lowerup =>
      have hset : Falls s { s with link := { s.link with
          peerMru := mtu, allow := { s.link.allow with asyncmap := a.xmitAccm } } } :=
        falls_of_eq rfl rfl rfl rfl rfl
      exact h.falls (hset.trans (a.lcp_lowerup_falls _))
  | lowerdown => exact h.falls (a.lcp_lowerdown_falls s)
  | «open» =>
      have hset : ∀ fl, Falls s { s with lcp := { s.lcp with flags := fl } } :=
        fun _ => falls_of_eq rfl rfl rfl rfl rfl
      exact h.falls ((hset _).trans (a.lcp_open_falls _))
  | close => exact h.falls (a.lcpClose_falls s)
  | packet protocol inpacket => exact a.packetIn_inv protocol inpacket h hg
  | lcpTimeout => exact h.falls (a.lcp_timeout_falls s)
  | ipcpTimeout => exact a.ipcp_timeout_inv h
  | chapTimeout t =>
      cases t with
      | challengeTimeout => exact a.chap_inv.challengeTimeout h
      | responseTimeout => exact a.chap_inv.responseTimeout h
      | rechallenge => exact a.chap_inv.rechallenge h
  | echoTimeout => exact h.falls (a.lcpEchoTimeout_falls s)
  | auth call =>
      cases call with
      | peerSuccess protocol => exact a.authPeerSuccess_inv protocol h
      | peerFail => exact a.die_inv h
      | withpeerSuccess protocol => exact a.authWithpeerSuccess_inv protocol h
      | withpeerFail => exact h
  | intr => exact a.die_inv h
  | term =>
      have hset : Falls s { s with lcp := { s.lcp with flags := ⟨false, false, false⟩ } } :=
        falls_of_eq rfl rfl rfl rfl rfl
      exact h.falls (hset.trans (a.die_falls _))

theorem step_inv (e : SessionEvent) (h : PhaseInv s) (hg : a.UpReady s e) :
    PhaseInv (a.step s e) := by
  have hh := a.handle_inv e h hg
  unfold step
  split
  · exact h
  · rw [loop]
    split
    · have hd := a.die_inv hh
      exact ⟨hd.down, hd.waits, hd.quiet⟩
    · exact hh

end Stack

/-- The record after `lcp_init` and `ipcp_init`, with any options. -/
structure Session.Fresh (s : Session σ) : Prop where
  lcp : s.lcp.state = .initial
  ipcp : s.ipcp.state = .initial
  authPending : s.authPending = 0
  refused : s.refused = false

/-- IPCP stays silent while an authentication is due, in every run in which the
link does not come up on an IPCP that was open when it went down. -/
theorem network_after_authentication (a : Stack σ) (s : Session σ) (hs : s.Fresh)
    (es : List SessionEvent) (hg : Guarded a.step a.UpReady s es) :
    Always a.step AuthFirst s es := by
  have h0 : PhaseInv s := by
    refine ⟨fun _ => by rw [hs.ipcp]; rfl, fun hp => absurd hs.authPending hp, ?_⟩
    rintro (hp | hr)
    · exact absurd hs.authPending hp
    · rw [hs.refused] at hr
      exact absurd hr (by decide)
  intro pre hpre
  exact (always_of_guarded PhaseInv h0 (fun _ e h hge => a.step_inv e h hge) hg pre hpre).authFirst

/-! A peer is to authenticate itself with PAP. It does, and then negotiates the
link anew. -/

theorem length_noDigest : (List.replicate 16 (0 : UInt8)).length = 16 := rfl

def papStack : Stack Unit where
  unit := 0
  magic n := UInt32.ofNat n
  rand n := n
  md5 _ := ⟨List.replicate 16 0, length_noDigest⟩
  getSecret _ _ _ := none
  xmitAccm := 0
  client := false
  nullLogin env := (false, env)
  ipUp _ env := (true, env)
  beyond _ := []

def papSession : Session Unit where
  lcp := fsmInit 0 default
  link := {
    want := { LcpOptions.zero with negUpap := true }
    got := LcpOptions.zero
    allow := LcpOptions.zero
    his := LcpOptions.zero
    peerMru := mtu
    drawn := 0 }
  ipcp := fsmInit 0 default
  net := {
    want := IpcpOptions.zero
    got := IpcpOptions.zero
    allow := IpcpOptions.zero
    his := IpcpOptions.zero
    cisReceived := 0 }
  chap := chapInit
  chapDrawn := 0
  authRequired := true
  ourName := []
  authPending := 0
  phase := .establish
  echosPending := 0
  echoNumber := 0
  echoTimerRunning := false
  echoInterval := 0
  echoFails := 0
  exited := false
  stuck := false
  refused := false
  said := false
  env := ()

/-- The link comes up: the peer's request without options is acknowledged, and
the peer acknowledges ours. -/
def papUp : List SessionEvent :=
  [.lowerup, .open, .packet lcpProto [1, 7, 0, 4],
    .packet lcpProto [2, 1, 0, 8, 3, 4, 0xc0, 0x23]]

theorem network_after_authentication_pap :
    Always papStack.step AuthFirst papSession papUp ∧
      (run papStack.step papSession papUp).authPending = upapPeer ∧
      (run papStack.step papSession papUp).ipcp.state = .closed := by
  have hinit : ∀ {s : Session Unit} {protocol inpacket}, s.ipcp.state = .initial →
      papStack.UpReady s (.packet protocol inpacket) := by
    intro s protocol inpacket hi _ p o _ _ hst
    rw [hi] at hst
    exact absurd hst (by decide)
  refine ⟨network_after_authentication papStack papSession ⟨rfl, rfl, rfl, rfl⟩ papUp ?_,
    by decide +kernel, by decide +kernel⟩
  refine guarded_cons trivial (guarded_cons trivial ?_)
  refine guarded_cons (hinit (by decide +kernel)) (guarded_cons (hinit (by decide +kernel)) ?_)
  exact guarded_nil

/-- The peer authenticates itself and negotiates the link anew. -/
def papAgain : List SessionEvent :=
  [.auth (.peerSuccess upapProto), .packet lcpProto [1, 8, 0, 4],
    .packet lcpProto [2, 2, 0, 8, 3, 4, 0xc0, 0x23]]

theorem network_before_authentication :
    papSession.Fresh ∧ ¬ Always papStack.step AuthFirst papSession (papUp ++ papAgain) := by
  refine ⟨⟨rfl, rfl, rfl, rfl⟩, ?_⟩
  intro h
  have hlast := h (papUp ++ papAgain) (List.prefix_refl _)
  revert hlast
  decide +kernel

end VxWorks.Ppp
