import VxWorks.Ppp.FsmTable

/-!
# The restart counter

`retransmits` is set when a request is newly made up, once more when an Ack for
it is accepted, and to another limit when the link is closed; it is counted
down where a packet goes out and tested where the timer expires. The history
says what it should be. `spent` counts the Configure-Requests since the counter
was last set to its limit, `terms` the Terminate-Requests since the last
Configure-Request, and while a negotiation or a termination is going on the
counter is what they leave of the limit.

With no event but expiries of the timer the counter is all there is: each
expiry sends one request more, and the one that finds the counter at zero stops
the automaton. An open link is left out. An expiry there does nothing, and
after a Terminate-Ack on an open link there is one to come.
-/

namespace VxWorks.Ppp

open VxWorks.Lib

/-- The Configure-Requests sent since the counter was set: by a new request, which is one
of them, or by an Ack. -/
@[simp] def spent : List FsmEvent → Nat
  | .sconfreq retransmit _ :: l => if retransmit then spent l + 1 else 1
  | .accepted code _ :: l => if code = confack then 0 else spent l
  | _ :: l => spent l
  | [] => 0

/-- The Terminate-Requests sent since the last Configure-Request. -/
@[simp] def terms : List FsmEvent → Nat
  | .sconfreq _ _ :: _ => 0
  | .sent p :: l => if p.code = termreq then terms l + 1 else terms l
  | _ :: l => terms l
  | [] => 0

/-- A negotiation is going on, or was the last thing to go on. -/
def FsmState.live (st : FsmState) : Bool := st.negotiating || st = .opened

structure Limits {σ : Type} (maxconf maxterm : Nat) (w : World σ) : Prop where
  conf : w.f.maxconfreqtransmits = maxconf
  term : w.f.maxtermtransmits = maxterm

/-- The counter is what the history leaves of the limits. -/
structure Metered {σ : Type} (maxconf maxterm : Nat) (w : World σ) : Prop
    extends Limits maxconf maxterm w where
  live : w.f.state.live = true →
    w.f.retransmits + spent w.log = maxconf ∧ 0 ≤ w.f.retransmits ∧ terms w.log = 0
  ending : w.f.state.terminating = true →
    terms w.log + w.f.retransmits ≤ maxterm ∧ 0 ≤ w.f.retransmits ∧ w.f.retransmits < maxterm

/-- The call leaves the two limits as they are. -/
def FsmCall.KeepsLimits (maxconf maxterm : Nat) : FsmCall → Prop
  | .config _ _ conf term _ => conf = maxconf ∧ term = maxterm
  | _ => True

section

variable {σ : Type} {maxconf maxterm : Nat} {w w' : World σ}

theorem live_of_negotiating {st : FsmState} (h : st.negotiating = true) : st.live = true := by
  simp [FsmState.live, h]

theorem not_live_of_idle {st : FsmState} (h : st.idle = true) : st.live = false := by
  cases st <;> first | rfl | cases h

theorem not_terminating_of_idle {st : FsmState} (h : st.idle = true) :
    st.terminating = false := by
  cases st <;> first | rfl | cases h

theorem not_terminating_of_live {st : FsmState} (h : st.live = true) :
    st.terminating = false := by
  cases st <;> first | rfl | cases h

theorem not_live_of_terminating {st : FsmState} (h : st.terminating = true) :
    st.live = false := by
  cases st <;> first | rfl | cases h

/-! ## What keeps the counter right -/

/-- Nothing is promised of a link at rest. -/
theorem Limits.rest (h : Limits maxconf maxterm w) (hs : w.f.state.idle = true) :
    Metered maxconf maxterm w where
  toLimits := h
  live hl := by rw [not_live_of_idle hs] at hl; cases hl
  ending he := by rw [not_terminating_of_idle hs] at he; cases he

/-- A negotiation has nothing to do with Terminate-Requests. -/
theorem Limits.negotiated (h : Limits maxconf maxterm w) (hs : w.f.state.terminating = false)
    (hr : w.f.retransmits + spent w.log = maxconf) (h0 : 0 ≤ w.f.retransmits)
    (ht : terms w.log = 0) : Metered maxconf maxterm w where
  toLimits := h
  live _ := ⟨hr, h0, ht⟩
  ending he := by rw [hs] at he; cases he

theorem spent_request (pr : Protocol σ) (retransmit : Bool) (w : World σ)
    (l : List FsmEvent) :
    spent (reqEvents pr retransmit w ++ l) = if retransmit then spent l + 1 else 1 := by
  have hhello : spent ((if pr.hello (resetEnv pr w) then [.client] else []) ++ l) = spent l := by
    cases pr.hello (resetEnv pr w) <;> rfl
  simp only [reqEvents, List.cons_append, spent, hhello]

theorem terms_request (pr : Protocol σ) (retransmit : Bool) (w : World σ)
    (l : List FsmEvent) : terms (reqEvents pr retransmit w ++ l) = 0 := rfl

/-- A request is newly started. -/
theorem Limits.request (h : Limits maxconf maxterm w) (hpos : 0 < maxconf) (pr : Protocol σ)
    {st : FsmState} (hst : st.terminating = false) :
    Metered maxconf maxterm (pr.port.setState st (fsmSconfreq pr.port pr.lower false w)) := by
  have hc := h.conf
  rw [fsmSconfreq_eq]
  refine Limits.negotiated ⟨hc, h.term⟩ hst ?_ ?_ (terms_request ..)
  · simp only [port_setState, sentReq, spent_request, Bool.false_eq_true, if_false]
    omega
  · simp only [port_setState, sentReq, Bool.false_eq_true, if_false]
    omega

/-- The same where the control state stays. -/
theorem Limits.rerequest (h : Limits maxconf maxterm w) (hpos : 0 < maxconf)
    (pr : Protocol σ) (hst : w.f.state.terminating = false) :
    Metered maxconf maxterm (fsmSconfreq pr.port pr.lower false w) := by
  have hm := h.request hpos pr hst
  rw [fsmSconfreq_eq] at hm ⊢
  exact hm

namespace Metered

/-- The counter is left alone and nothing counted happens. -/
theorem same (h : Metered maxconf maxterm w) (hlim : Limits maxconf maxterm w')
    (hl : w'.f.state.live = true → w.f.state.live = true)
    (he : w'.f.state.terminating = true → w.f.state.terminating = true)
    (hr : w'.f.retransmits = w.f.retransmits)
    (hspent : spent w'.log = spent w.log) (hterms : terms w'.log = terms w.log) :
    Metered maxconf maxterm w' where
  toLimits := hlim
  live hs := by rw [hr, hspent, hterms]; exact h.live (hl hs)
  ending hs := by rw [hr, hterms]; exact h.ending (he hs)

/-- Only the record and the history count. -/
theorem of_eq (h : Metered maxconf maxterm w) (hf : w'.f = w.f) (hlog : w'.log = w.log) :
    Metered maxconf maxterm w' :=
  h.same ⟨by rw [hf]; exact h.conf, by rw [hf]; exact h.term⟩ (by rw [hf]; exact id)
    (by rw [hf]; exact id) (by rw [hf]) (by rw [hlog]) (by rw [hlog])

/-- An event that is not counted. -/
theorem say (h : Metered maxconf maxterm w) {e : FsmEvent}
    (hspent : spent (e :: w.log) = spent w.log) (hterms : terms (e :: w.log) = terms w.log) :
    Metered maxconf maxterm { w with log := e :: w.log } :=
  h.same ⟨h.conf, h.term⟩ id id rfl hspent hterms

theorem sdata (h : Metered maxconf maxterm w) (pr : Protocol σ) {code : UInt8}
    (hcode : code ≠ termreq) (id : UInt8) (data : List UInt8) :
    Metered maxconf maxterm (fsmSdata pr.port code id data w) :=
  h.say rfl (if_neg hcode)

/-- Between two states of a negotiation, or two of a termination, the counter does not
see a difference. -/
theorem enter (h : Metered maxconf maxterm w) {st : FsmState}
    (hl : st.live = true → w.f.state.live = true)
    (he : st.terminating = true → w.f.state.terminating = true) :
    Metered maxconf maxterm { w with f := { w.f with state := st } } :=
  h.same ⟨h.conf, h.term⟩ hl he rfl rfl rfl

/-- A negotiation is broken off. -/
theorem stop (h : Metered maxconf maxterm w) (hpos : 0 < maxterm) (pr : Protocol σ)
    {st : FsmState} (hl : w.f.state.live = true) (hst : st.terminating = true) :
    Metered maxconf maxterm (pr.port.setState st (fsmStermreq pr.port
      (pr.port.modify (fun f => { f with retransmits := f.maxtermtransmits }) w))) := by
  have ht := h.term
  obtain ⟨-, -, hterms⟩ := h.live hl
  rw [fsmStermreq_eq]
  refine ⟨⟨h.conf, ht⟩, ?_, ?_⟩
  · intro hs
    rw [port_setState, not_live_of_terminating hst] at hs
    cases hs
  · intro _
    simp only [port_setState, port_modify, terms, if_true, hterms]
    omega

/-- A Terminate-Request is repeated. -/
theorem restop (h : Metered maxconf maxterm w) (pr : Protocol σ)
    (hs : w.f.state.terminating = true) (hpos : 0 < w.f.retransmits) :
    Metered maxconf maxterm (fsmStermreq pr.port w) := by
  obtain ⟨hsum, -, hlt⟩ := h.ending hs
  rw [fsmStermreq_eq]
  refine ⟨⟨h.conf, h.term⟩, ?_, ?_⟩
  · intro hl
    rw [not_live_of_terminating hs] at hl
    cases hl
  · intro _
    simp only [terms, if_true]
    omega

/-! ## The functions -/

variable (pr : Protocol σ)

theorem lowerup (h : Metered maxconf maxterm w) (hpos : 0 < maxconf) :
    Metered maxconf maxterm (fsmLowerup pr.port pr.lower w) := by
  unfold fsmLowerup
  split
  · exact Limits.rest ⟨h.conf, h.term⟩ rfl
  · split
    · exact Limits.rest ⟨h.conf, h.term⟩ rfl
    · exact h.toLimits.request hpos pr rfl
  · exact h

theorem lowerdown (h : Metered maxconf maxterm w) :
    Metered maxconf maxterm (fsmLowerdown pr.port pr.lower w) := by
  unfold fsmLowerdown
  split
  iterate 8 exact Limits.rest ⟨h.conf, h.term⟩ rfl
  · exact h
  · exact h

theorem «open» (h : Metered maxconf maxterm w) (hpos : 0 < maxconf) :
    Metered maxconf maxterm (fsmOpen pr.port pr.lower w) := by
  have restart : ∀ {w : World σ}, Metered maxconf maxterm w → Metered maxconf maxterm
      (if (pr.port.fsm w).flags.restart then
        fsmLowerup pr.port pr.lower (fsmLowerdown pr.port pr.lower w) else w) := by
    intro w h
    split
    · exact (h.lowerdown pr).lowerup pr hpos
    · exact h
  unfold fsmOpen
  split
  · exact Limits.rest ⟨h.conf, h.term⟩ rfl
  · split
    · exact Limits.rest ⟨h.conf, h.term⟩ rfl
    · exact h.toLimits.request hpos pr rfl
  · next hs =>
      have hs : w.f.state = .closing := hs
      exact restart (h.enter (fun hl => by cases hl) fun _ => by rw [hs]; rfl)
  · exact restart h
  · exact restart h
  all_goals exact h

theorem close (h : Metered maxconf maxterm w) (hpos : 0 < maxterm) :
    Metered maxconf maxterm (fsmClose pr.port pr.lower w) := by
  unfold fsmClose
  split
  · exact Limits.rest ⟨h.conf, h.term⟩ rfl
  · exact Limits.rest ⟨h.conf, h.term⟩ rfl
  · next hs =>
      have hs : w.f.state = .stopping := hs
      exact h.enter (fun hl => by cases hl) fun _ => by rw [hs]; rfl
  iterate 3
    next hs =>
      rw [if_pos (by rw [hs]; decide)]
      have hs : w.f.state = _ := hs
      have hcancelled : Metered maxconf maxterm (pr.port.untimeout w) := h.of_eq rfl rfl
      exact stop hcancelled hpos pr
        (by rw [port_untimeout, hs]; rfl) rfl
  · next hs =>
      rw [if_neg (by rw [hs]; decide)]
      have hs : w.f.state = _ := hs
      refine stop (w := goDown pr.port pr.lower w) ?_ hpos pr (by rw [goDown_eq, hs]; rfl) rfl
      exact h.same ⟨h.conf, h.term⟩ id id rfl rfl rfl
  all_goals exact h

theorem finished (h : Metered maxconf maxterm w) (hpos : 0 < maxconf) :
    Metered maxconf maxterm (pr.gotFinished w) := by
  have henv : Metered maxconf maxterm { w with env := (pr.finished w.f w.env).2 } :=
    h.of_eq rfl rfl
  simp only [Protocol.gotFinished]
  split
  · exact henv.open pr hpos
  · exact henv

theorem up (h : Metered maxconf maxterm w) (hpos : 0 < maxterm) :
    Metered maxconf maxterm (pr.goneUp w) := by
  have henv : Metered maxconf maxterm { w with env := (pr.up w.f w.env).2 } :=
    h.of_eq rfl rfl
  simp only [Protocol.goneUp]
  split
  · exact henv.close pr hpos
  · exact henv

theorem protreject {cb : Callbacks (World σ)} (hl : cb.toLowerCallbacks = pr.lower)
    (hf : cb.finished = pr.gotFinished) (h : Metered maxconf maxterm w) (hpos : 0 < maxconf)
    (hpos' : 0 < maxterm) : Metered maxconf maxterm (fsmProtreject pr.port cb w) := by
  unfold fsmProtreject
  rw [hl, hf]
  split
  iterate 7 exact Metered.finished pr (Limits.rest ⟨h.conf, h.term⟩ rfl) hpos
  · next hs =>
      have hs : w.f.state = _ := hs
      refine stop (w := goDown pr.port pr.lower w) ?_ hpos' pr (by rw [goDown_eq, hs]; rfl) rfl
      exact h.same ⟨h.conf, h.term⟩ id id rfl rfl rfl
  all_goals exact h

theorem retransmit (h : Metered maxconf maxterm w) (hs : w.f.state.negotiating = true)
    (hpos : 0 < w.f.retransmits) {st : FsmState} (hst : st.negotiating = true) :
    Metered maxconf maxterm (pr.port.setState st (fsmSconfreq pr.port pr.lower true w)) := by
  obtain ⟨hsum, -, -⟩ := h.live (live_of_negotiating hs)
  rw [fsmSconfreq_eq]
  refine Limits.negotiated ⟨h.conf, h.term⟩ (not_terminating_of_live (live_of_negotiating hst))
    ?_ ?_ (terms_request ..)
  · simp only [port_setState, sentReq, spent_request, if_true]
    omega
  · simp only [port_setState, sentReq, if_true]
    omega

theorem timeout (h : Metered maxconf maxterm w) (hpos : 0 < maxconf) :
    Metered maxconf maxterm (fsmTimeout pr.port pr.callbacks w) := by
  unfold fsmTimeout
  split
  iterate 2
    next hs =>
      have hs : w.f.state = _ := hs
      split
      · refine Metered.finished pr (Limits.rest ⟨h.conf, h.term⟩ ?_) hpos
        simp only [port_setState, port_state, hs, reduceCtorEq, if_false]
        rfl
      · next hr => exact h.restop pr (by rw [hs]; rfl) (by rw [port_fsm] at hr; omega)
  iterate 3
    next hs =>
      have hs : w.f.state = _ := hs
      split
      · dsimp only
        split
        · exact Limits.rest ⟨h.conf, h.term⟩ rfl
        · exact Metered.finished pr (Limits.rest ⟨h.conf, h.term⟩ rfl) hpos
      · next hr =>
          have henv : Metered maxconf maxterm (pr.callbacks.retransmit w) := h.of_eq rfl rfl
          have hneg : (pr.callbacks.retransmit w).f.state.negotiating = true := by
            show w.f.state.negotiating = true
            rw [hs]
            rfl
          have hpos : 0 < (pr.callbacks.retransmit w).f.retransmits := by
            rw [port_fsm] at hr
            exact Int.not_le.mp hr
          dsimp only
          split
          · exact henv.retransmit pr hneg hpos rfl
          · have := henv.retransmit pr hneg hpos hneg
            rw [callbacks_lower]
            rw [fsmSconfreq_eq] at this ⊢
            exact this
  · exact h

/-- The answer to the peer's options. -/
theorem reply (h : Metered maxconf maxterm w) (hpos : 0 < maxterm)
    (hs : w.f.state.live = true) (rid : UInt8) (inp : List UInt8) :
    Metered maxconf maxterm (rconfreqReply pr.port pr.callbacks rid inp w) := by
  obtain ⟨c, data, env, hc⟩ := checkReq_eq pr w inp
  have hcode : c.code ≠ termreq := by cases c <;> decide
  have henv : Metered maxconf maxterm { w with env := env } := h.of_eq rfl rfl
  have hsent := henv.sdata pr hcode rid data
  have hlive : (fsmSdata pr.port c.code rid data { w with env := env }).f.state.live = true := hs
  rw [rconfreqReply]
  rw [hc]
  dsimp only
  generalize fsmSdata pr.port c.code rid data { w with env := env } = u at hsent hlive ⊢
  have hnak : ∀ {u : World σ} (n : Int), Metered maxconf maxterm u →
      Metered maxconf maxterm { u with f := { u.f with nakloops := n } } :=
    fun n hu => hu.same ⟨hu.conf, hu.term⟩ id id rfl rfl rfl
  have henter : ∀ {st : FsmState}, st.terminating = false →
      Metered maxconf maxterm (pr.port.setState st u) :=
    fun hst => hsent.enter (fun _ => hlive) fun he => by rw [hst] at he; cases he
  rw [rconfreqMove]
  by_cases hack : c = .ack
  · rw [if_pos hack]
    refine hnak 0 ?_
    by_cases hr : pr.port.state u = .ackrcvd
    · rw [if_pos hr]
      refine Metered.up pr ?_ hpos
      have hopened : Metered maxconf maxterm (pr.port.setState .opened u) := henter rfl
      exact hopened.same ⟨hsent.conf, hsent.term⟩ id id rfl rfl rfl
    · rw [if_neg hr]
      exact henter rfl
  · rw [if_neg hack]
    have hmoved : Metered maxconf maxterm
        (if pr.port.state u ≠ .ackrcvd then pr.port.setState .reqsent u else u) := by
      split
      · exact henter rfl
      · exact hsent
    dsimp only
    split
    · exact hnak _ hmoved
    · exact hmoved

theorem rconfreq (h : Metered maxconf maxterm w) (hpos : 0 < maxconf) (hpos' : 0 < maxterm)
    (hi : w.f.state ≠ .initial) (hs : w.f.state ≠ .starting) (rid : UInt8) (inp : List UInt8) :
    Metered maxconf maxterm (fsmRconfreq pr.port pr.callbacks rid inp w) := by
  unfold fsmRconfreq
  split
  · exact h.sdata pr (by decide) rid []
  · exact h
  · exact h
  · next ho =>
      have ho : w.f.state = .opened := ho
      have hdown : Metered maxconf maxterm (goDown pr.port pr.lower w) :=
        h.same ⟨h.conf, h.term⟩ id id rfl rfl rfl
      refine (hdown.toLimits.rerequest hpos pr ?_).reply pr hpos' ?_ rid inp
      · show w.f.state.terminating = false
        rw [ho]
        rfl
      · rw [fsmSconfreq_eq]
        show w.f.state.live = true
        rw [ho]
        rfl
  · exact (h.toLimits.request hpos pr rfl).reply pr hpos' rfl rid inp
  · next h₁ h₂ h₃ h₄ h₅ =>
      refine h.reply pr hpos' ?_ rid inp
      cases hst : w.f.state with
      | reqsent | ackrcvd | acksent => rfl
      | initial => exact absurd hst hi
      | starting => exact absurd hst hs
      | closed => exact absurd hst h₁
      | closing => exact absurd hst h₂
      | stopping => exact absurd hst h₃
      | opened => exact absurd hst h₄
      | stopped => exact absurd hst h₅

/-- An Ack that is taken has set the count of the requests to zero already when the
control state is looked at, but not yet the counter. -/
theorem rconfack (h : Metered maxconf maxterm w) (hpos : 0 < maxconf) (hpos' : 0 < maxterm)
    {p : CpPacket} (hp : p.code = confack) :
    Metered maxconf maxterm (fsmRconfack pr.port pr.callbacks p.id p.data w) := by
  unfold fsmRconfack
  split
  · exact h
  rw [checkAck_eq pr _ hp]
  dsimp only
  split
  · exact h.of_eq rfl rfl
  generalize hT : pr.port.modify _ _ = T
  have hf : T.f = { w.f with reqid := noReqid } := by rw [← hT]; rfl
  have hlog : T.log = .accepted confack p.id :: w.log := by rw [← hT]; rfl
  have hlim : Limits maxconf maxterm T := ⟨by rw [hf]; exact h.conf, by rw [hf]; exact h.term⟩
  have hterms : terms T.log = terms w.log := by rw [hlog]; rfl
  have hspent : spent T.log = 0 := by rw [hlog]; rfl
  have hstate : T.f.state = w.f.state := by rw [hf]
  -- whatever else changes, the counter is set again
  have hset : ∀ {u : World σ}, Limits maxconf maxterm u → u.f.retransmits = maxconf →
      spent u.log = 0 → terms u.log = terms T.log → u.f.state.terminating = false →
      T.f.state.live = true → Metered maxconf maxterm u := by
    intro u hu hr hspent ht hst hlive
    rw [hstate] at hlive
    obtain ⟨-, -, h0⟩ := h.live hlive
    exact hu.negotiated hst (by omega) (by omega) (by rw [ht, hterms, h0])
  split
  iterate 2
    next hs =>
      have hs : T.f.state = _ := hs
      exact Metered.sdata (Limits.rest hlim (by rw [hs]; rfl)) pr (by decide) p.id []
  · next hs =>
      have hs : T.f.state = _ := hs
      exact hset ⟨hlim.conf, hlim.term⟩ hlim.conf hspent rfl rfl (by rw [hs]; rfl)
  · exact hlim.request hpos pr rfl
  · next hs =>
      have hs : T.f.state = _ := hs
      refine Metered.up pr ?_ hpos'
      exact hset ⟨hlim.conf, hlim.term⟩ hlim.conf hspent rfl rfl (by rw [hs]; rfl)
  · exact Limits.request (w := goDown pr.port pr.lower T) ⟨hlim.conf, hlim.term⟩ hpos pr rfl
  iterate 2
    next hs =>
      have hs : T.f.state = _ := hs
      exact hlim.rest (by rw [hs]; rfl)
  iterate 2
    next hs =>
      have hs : T.f.state = _ := hs
      refine ⟨hlim, ?_, ?_⟩
      · intro hl
        rw [hs] at hl
        cases hl
      · intro he
        rw [hstate] at he
        rw [hterms, hf]
        exact h.ending he

theorem rconfnakrej (h : Metered maxconf maxterm w) (hpos : 0 < maxconf)
    {p : CpPacket} (hp : p.code = confnak ∨ p.code = confrej) :
    Metered maxconf maxterm (fsmRconfnakrej pr.port pr.callbacks p.code p.id p.data w) := by
  have hna : p.code ≠ confack := by rcases hp with hp | hp <;> rw [hp] <;> decide
  unfold fsmRconfnakrej
  split
  · exact h
  rw [checkNakrej_eq pr _ hna]
  dsimp only
  split
  · exact h.of_eq rfl rfl
  generalize hT : pr.port.modify _ _ = T
  have hm : Metered maxconf maxterm T := by
    rw [← hT]
    exact h.same ⟨h.conf, h.term⟩ id id rfl (if_neg hna) rfl
  have hlim := hm.toLimits
  split
  iterate 2 exact hm.sdata pr (by decide) p.id []
  iterate 2
    next hs =>
      have hs : T.f.state = _ := hs
      refine Limits.rerequest (w := pr.port.untimeout T) ⟨hlim.conf, hlim.term⟩ hpos pr ?_
      rw [port_untimeout, hs]
      rfl
  · exact hlim.request hpos pr rfl
  · exact Limits.request (w := goDown pr.port pr.lower T) ⟨hlim.conf, hlim.term⟩ hpos pr rfl
  all_goals exact hm

theorem rtermreq (h : Metered maxconf maxterm w) (hpos : 0 < maxterm) (rid : UInt8) :
    Metered maxconf maxterm (fsmRtermreq pr.port pr.callbacks rid w) := by
  unfold fsmRtermreq
  refine Metered.sdata ?_ pr (by decide) rid []
  split
  iterate 2
    next hs =>
      have hs : w.f.state = _ := hs
      exact h.enter (fun _ => by rw [hs]; rfl) fun he => by cases he
  · next hs =>
      have hs : w.f.state = _ := hs
      obtain ⟨-, -, h0⟩ := h.live (by rw [hs]; rfl)
      have hterms : terms (.down :: w.log) = 0 := h0
      refine ⟨⟨h.conf, h.term⟩, ?_, fun _ => ⟨?_, Int.le_refl 0, ?_⟩⟩
      · intro hl
        cases hl
      · show (terms (.down :: w.log) : Int) + 0 ≤ maxterm
        omega
      · exact Int.ofNat_lt.mpr hpos
  · exact h

theorem rtermack (h : Metered maxconf maxterm w) (hpos : 0 < maxconf) :
    Metered maxconf maxterm (fsmRtermack pr.port pr.callbacks w) := by
  unfold fsmRtermack
  split
  iterate 2 exact Metered.finished pr (Limits.rest ⟨h.conf, h.term⟩ rfl) hpos
  · next hs =>
      have hs : w.f.state = _ := hs
      exact h.enter (fun _ => by rw [hs]; rfl) fun he => by cases he
  · next hs =>
      have hs : w.f.state = _ := hs
      refine Limits.rerequest (w := goDown pr.port pr.lower w) ⟨h.conf, h.term⟩ hpos pr ?_
      rw [goDown_eq, hs]
      rfl
  · exact h

theorem rcoderej (h : Metered maxconf maxterm w) (inp : List UInt8) :
    Metered maxconf maxterm (fsmRcoderej pr.port inp w) := by
  unfold fsmRcoderej
  split
  · exact h
  · split
    · next hs =>
        have hs : w.f.state = _ := hs
        exact h.enter (fun _ => by rw [hs]; rfl) fun he => by cases he
    · exact h

theorem ext (h : Metered maxconf maxterm w) (hpos : 0 < maxconf) (hpos' : 0 < maxterm)
    (p : CpPacket) : Metered maxconf maxterm (checkExt pr.callbacks p w).2 := by
  simp only [checkExt, Protocol.callbacks]
  cases pr.extcode with
  | none => exact h
  | some extcode =>
      have henv : Metered maxconf maxterm { w with env := (extcode w.f w.env p).2 } :=
        h.of_eq rfl rfl
      dsimp only [Option.map]
      split
      · exact henv
      · exact henv
      · exact henv.sdata pr (by decide) _ _
      · exact henv.protreject pr rfl rfl hpos hpos'

theorem dispatch (h : Metered maxconf maxterm w) (hpos : 0 < maxconf) (hpos' : 0 < maxterm)
    (hi : w.f.state ≠ .initial) (hs : w.f.state ≠ .starting) (p : CpPacket) :
    Metered maxconf maxterm (fsmDispatch pr.port pr.callbacks p w) := by
  rw [fsmDispatch]
  split
  · exact h.rconfreq pr hpos hpos' hi hs p.id p.data
  split
  · next hp => exact h.rconfack pr hpos hpos' hp
  split
  · next hp => exact h.rconfnakrej pr hpos hp
  split
  · exact h.rtermreq pr hpos' p.id
  split
  · exact h.rtermack pr hpos
  split
  · exact h.rcoderej pr p.data
  · have hext := h.ext pr hpos hpos' p
    dsimp only
    split
    · exact hext
    · refine Metered.sdata ?_ pr (by decide) _ _
      exact hext.same ⟨hext.conf, hext.term⟩ id id rfl rfl rfl

theorem input (h : Metered maxconf maxterm w) (hpos : 0 < maxconf) (hpos' : 0 < maxterm)
    (inpacket : List UInt8) :
    Metered maxconf maxterm (fsmInput pr.port pr.callbacks inpacket w) := by
  unfold fsmInput
  split
  · exact h
  · split
    · exact h
    · next p _ hst =>
        obtain ⟨hi, hs⟩ : ¬ w.f.state = .initial ∧ ¬ w.f.state = .starting := not_or.mp hst
        refine Metered.dispatch (w := w.hear p) pr ?_ hpos hpos' hi hs p
        exact h.say rfl rfl

theorem step (h : Metered maxconf maxterm w) (hpos : 0 < maxconf) (hpos' : 0 < maxterm)
    {c : FsmCall} (hc : c.KeepsLimits maxconf maxterm) :
    Metered maxconf maxterm (pr.step w c) := by
  cases c with
  | lowerup => exact h.lowerup pr hpos
  | lowerdown => exact h.lowerdown pr
  | «open» => exact h.open pr hpos
  | close => exact h.close pr hpos'
  | timeout => exact Metered.timeout pr (h.of_eq rfl rfl) hpos
  | input inpacket => exact h.input pr hpos hpos' inpacket
  | protreject => exact h.protreject pr rfl rfl hpos hpos'
  | config flags timeouttime conf term maxnak =>
      obtain ⟨hconf, hterm⟩ := hc
      exact h.same ⟨hconf, hterm⟩ id id rfl rfl rfl

theorem run (h : Metered maxconf maxterm w) (hpos : 0 < maxconf) (hpos' : 0 < maxterm)
    {cs : List FsmCall} (hcs : ∀ c ∈ cs, c.KeepsLimits maxconf maxterm) :
    Metered maxconf maxterm (run pr.step w cs) := by
  induction cs generalizing w with
  | nil => exact h
  | cons c cs ih =>
      exact ih (h.step pr hpos hpos' (hcs c List.mem_cons_self))
        fun x hx => hcs x (List.mem_cons_of_mem c hx)

end Metered

/-! ## Nothing but expiries -/

section

/-- The callout is gone by the time it is served. -/
def World.expire (w : World σ) : World σ := { w with pending := w.pending - 1 }

/-- The timer expires `n` times. -/
def expiries (pr : Protocol σ) (w : World σ) (n : Nat) : World σ :=
  run pr.step w (List.replicate n .timeout)

/-- What an expiry does that repeats a Configure-Request. -/
def repeated (pr : Protocol σ) (w : World σ) : World σ :=
  let u := fsmSconfreq pr.port pr.lower true (pr.callbacks.retransmit w.expire)
  if pr.port.state u = .ackrcvd then pr.port.setState .reqsent u else u

/-- What the expiry does that finds the counter at zero. -/
def givenUp (pr : Protocol σ) (w : World σ) : World σ :=
  let u := pr.port.setState .stopped w.expire
  if w.f.flags.passive then u else pr.gotFinished u

/-- What it does when a termination was going on. -/
def ended (pr : Protocol σ) (w : World σ) : World σ :=
  pr.gotFinished (pr.port.setState (if w.f.state = .closing then .closed else .stopped) w.expire)

/-- The packets of one code in the history. -/
def packets (code : UInt8) (l : List FsmEvent) : Nat :=
  l.countP fun
    | .sent p => p.code == code
    | _ => false

theorem expiries_succ (pr : Protocol σ) (w : World σ) (n : Nat) :
    expiries pr w (n + 1) = pr.step (expiries pr w n) .timeout := by
  rw [expiries, List.replicate_succ', run_concat]
  rfl

variable {pr : Protocol σ}

theorem timeout_negotiating (hs : w.f.state.negotiating = true) :
    pr.step w .timeout = if w.f.retransmits ≤ 0 then givenUp pr w else repeated pr w := by
  show fsmTimeout pr.port pr.callbacks w.expire = _
  cases hst : w.f.state <;> rw [hst] at hs
  case reqsent | ackrcvd | acksent =>
    simp only [fsmTimeout, port_state, World.expire, hst]
    rfl
  all_goals cases hs

theorem timeout_terminating (hs : w.f.state.terminating = true) :
    pr.step w .timeout =
      if w.f.retransmits ≤ 0 then ended pr w else fsmStermreq pr.port w.expire := by
  show fsmTimeout pr.port pr.callbacks w.expire = _
  cases hst : w.f.state <;> rw [hst] at hs
  case closing | stopping =>
    simp only [fsmTimeout, port_state, World.expire, hst, ended]
    rfl
  all_goals cases hs

/-- What is still to come of a negotiation or termination of which `k` expiries are over. -/
structure Left (code other : UInt8) (w : World σ) (k : Nat) (u : World σ) : Prop where
  counter : u.f.retransmits = w.f.retransmits - k
  sent : packets code u.log = packets code w.log + k
  others : packets other u.log = packets other w.log

theorem Left.zero (code other : UInt8) (w : World σ) : Left code other w 0 w :=
  ⟨by omega, rfl, rfl⟩

/-- What the counter started from is not used up. -/
theorem Left.not_le {code other : UInt8} {u : World σ} {k : Nat} (h : Left code other w k u)
    (hk : (k : Int) < w.f.retransmits) : ¬ u.f.retransmits ≤ 0 := by
  rw [h.counter]
  omega

/-- A repeated request takes one off the counter. -/
theorem repeated_spec {u : World σ} {k : Nat} (hs : u.f.state.negotiating = true)
    (h : Left confreq termreq w k u) :
    (repeated pr u).f.state.negotiating = true ∧
      Left confreq termreq w (k + 1) (repeated pr u) := by
  obtain ⟨hcount, hsent, hothers⟩ := h
  have hreq : ∀ v : World σ, packets confreq (reqEvents pr true v ++ u.log) =
      packets confreq u.log + 1 ∧
        packets termreq (reqEvents pr true v ++ u.log) = packets termreq u.log := by
    intro v
    cases hh : pr.hello (resetEnv pr v) <;> simp [packets, reqEvents, hh, confreq, termreq]
  simp only [repeated, fsmSconfreq_eq]
  obtain ⟨hone, hnone⟩ := hreq (pr.callbacks.retransmit u.expire)
  have hleft : ∀ st : FsmState, Left confreq termreq w (k + 1)
      (pr.port.setState st
        { f := sentReq true u.f, pending := u.expire.pending + 1,
          log := reqEvents pr true (pr.callbacks.retransmit u.expire) ++ u.log,
          env := (request pr true (pr.callbacks.retransmit u.expire)).1 }) := by
    intro st
    refine ⟨?_, ?_, ?_⟩
    · simp only [port_setState, sentReq, if_true]
      omega
    · rw [port_setState, hone]
      omega
    · rw [port_setState, hnone, hothers]
  split
  · exact ⟨rfl, hleft .reqsent⟩
  · exact ⟨hs, hleft u.f.state⟩

theorem stermreq_spec {u : World σ} {k : Nat} (h : Left termreq confreq w k u) :
    Left termreq confreq w (k + 1) (fsmStermreq pr.port u.expire) := by
  obtain ⟨hcount, hsent, hothers⟩ := h
  rw [fsmStermreq_eq]
  refine ⟨?_, ?_, ?_⟩
  · simp only [World.expire]
    omega
  · simp only [World.expire]
    rw [← Nat.add_assoc, ← hsent]
    simp [packets]
  · rw [← hothers]
    simp [packets, World.expire, termreq, confreq]

theorem expiries_negotiating (hs : w.f.state.negotiating = true) {k : Nat}
    (hk : (k : Int) ≤ w.f.retransmits) :
    (expiries pr w k).f.state.negotiating = true ∧
      Left confreq termreq w k (expiries pr w k) := by
  induction k with
  | zero => exact ⟨hs, Left.zero ..⟩
  | succ k ih =>
      obtain ⟨hstate, hleft⟩ := ih (by omega)
      rw [expiries_succ, timeout_negotiating hstate, if_neg (hleft.not_le (by omega))]
      exact repeated_spec hstate hleft

theorem expiries_terminating (hs : w.f.state.terminating = true) {k : Nat}
    (hk : (k : Int) ≤ w.f.retransmits) :
    (expiries pr w k).f.state = w.f.state ∧ Left termreq confreq w k (expiries pr w k) := by
  induction k with
  | zero => exact ⟨rfl, Left.zero ..⟩
  | succ k ih =>
      obtain ⟨hstate, hleft⟩ := ih (by omega)
      rw [expiries_succ, timeout_terminating (by rw [hstate]; exact hs),
        if_neg (hleft.not_le (by omega))]
      refine ⟨?_, stermreq_spec hleft⟩
      rw [fsmStermreq_eq]
      exact hstate

end

/-- From any state of a negotiation or termination that a run leads to, expiries alone
repeat the request until the limit is used up, and the next one stops the automaton. A
negotiation has used up what it has sent since its last new request or since the Ack for
that; a termination has a limit of its own, and the finished callback is called once, at
the end. -/
theorem retries_bounded (pr : Protocol σ) (random : UInt8) (f : Fsm) (env : σ)
    (flags : FsmFlags) (timeouttime maxnak : Int) (maxconf maxterm : Nat)
    (hpos : 0 < maxconf) (hpos' : 0 < maxterm) (cs : List FsmCall)
    (hcs : ∀ c ∈ cs, c.KeepsLimits maxconf maxterm) :
    let w := run pr.step (World.start random f env)
      (.config flags timeouttime maxconf maxterm maxnak :: cs)
    (w.f.state.negotiating = true →
      ∃ n : Nat, n + spent w.log = maxconf ∧
        (∀ k ≤ n, (expiries pr w k).f.state.negotiating = true ∧
          packets confreq (expiries pr w k).log = packets confreq w.log + k ∧
          packets termreq (expiries pr w k).log = packets termreq w.log) ∧
        (∀ k < n, pr.step (expiries pr w k) .timeout = repeated pr (expiries pr w k)) ∧
        pr.step (expiries pr w n) .timeout = givenUp pr (expiries pr w n)) ∧
    (w.f.state.terminating = true →
      ∃ n : Nat, n + terms w.log ≤ maxterm ∧ n < maxterm ∧
        (∀ k ≤ n, (expiries pr w k).f.state = w.f.state ∧
          packets termreq (expiries pr w k).log = packets termreq w.log + k ∧
          packets confreq (expiries pr w k).log = packets confreq w.log) ∧
        (∀ k < n, pr.step (expiries pr w k) .timeout =
          fsmStermreq pr.port (expiries pr w k).expire) ∧
        pr.step (expiries pr w n) .timeout = ended pr (expiries pr w n)) := by
  intro w
  have hstart : Metered maxconf maxterm
      (pr.step (World.start random f env) (.config flags timeouttime maxconf maxterm maxnak)) :=
    Limits.rest ⟨rfl, rfl⟩ rfl
  have hw : Metered maxconf maxterm w := hstart.run pr hpos hpos' hcs
  constructor
  · intro hs
    obtain ⟨hsum, h0, -⟩ := hw.live (live_of_negotiating hs)
    have hrepeat (k : Nat) (hk : (k : Int) ≤ w.f.retransmits) :
        (expiries pr w k).f.state.negotiating = true ∧
          Left confreq termreq w k (expiries pr w k) := expiries_negotiating hs hk
    refine ⟨w.f.retransmits.toNat, by omega, fun k hk => ?_, fun k hk => ?_, ?_⟩
    · obtain ⟨hstate, hleft⟩ := hrepeat k (by omega)
      exact ⟨hstate, hleft.sent, hleft.others⟩
    · obtain ⟨hstate, hleft⟩ := hrepeat k (by omega)
      rw [timeout_negotiating hstate, if_neg (by rw [hleft.counter]; omega)]
    · obtain ⟨hstate, hleft⟩ := hrepeat w.f.retransmits.toNat (by omega)
      rw [timeout_negotiating hstate, if_pos (by rw [hleft.counter]; omega)]
  · intro hs
    obtain ⟨hsum, h0, hlt⟩ := hw.ending hs
    have hrepeat (k : Nat) (hk : (k : Int) ≤ w.f.retransmits) :
        (expiries pr w k).f.state = w.f.state ∧ Left termreq confreq w k (expiries pr w k) :=
      expiries_terminating hs hk
    refine ⟨w.f.retransmits.toNat, by omega, by omega, fun k hk => ?_, fun k hk => ?_, ?_⟩
    · obtain ⟨hstate, hleft⟩ := hrepeat k (by omega)
      exact ⟨hstate, hleft.sent, hleft.others⟩
    · obtain ⟨hstate, hleft⟩ := hrepeat k (by omega)
      rw [timeout_terminating (by rw [hstate]; exact hs),
        if_neg (by rw [hleft.counter]; omega)]
    · obtain ⟨hstate, hleft⟩ := hrepeat w.f.retransmits.toNat (by omega)
      rw [timeout_terminating (by rw [hstate]; exact hs),
        if_pos (by rw [hleft.counter]; omega)]

theorem retries_bounded_two :
    let w := run Protocol.bare.step (World.start 0 default ())
      [.config ⟨false, false, false⟩ 3 2 2 10, .open, .lowerup]
    ∃ n : Nat, n + spent w.log = 2 ∧
      Protocol.bare.step (expiries Protocol.bare w n) .timeout =
        givenUp Protocol.bare (expiries Protocol.bare w n) := by
  obtain ⟨n, hn, -, -, hlast⟩ := (retries_bounded Protocol.bare 0 default ()
    ⟨false, false, false⟩ 3 10 2 2 (by decide) (by decide) [.open, .lowerup]
    (by simp [FsmCall.KeepsLimits])).1 (by decide)
  exact ⟨n, hn, hlast⟩

/-- The Ack for a request gives the automaton its limit a second time: with a limit of one
request, the expiry after it sends another and stops nothing. -/
theorem retry_after_ack :
    ¬ ∀ cs : List FsmCall, (∀ c ∈ cs, c.KeepsLimits 1 1) →
      let w := run Protocol.bare.step (World.start 0 default ())
        (.config ⟨false, false, false⟩ 3 1 1 10 :: cs)
      w.f.state.negotiating = true →
        ∃ n ≤ 1, (expiries Protocol.bare w n).f.state = .stopped ∨
          (expiries Protocol.bare w n).f.state = .closed := by
  intro h
  obtain ⟨n, hn, hstate⟩ := h [.open, .lowerup, .input [2, 1, 0, 4]]
    (by simp [FsmCall.KeepsLimits]) (by decide)
  obtain rfl | rfl : n = 0 ∨ n = 1 := by omega
  · revert hstate
    decide
  · revert hstate
    decide

end

end VxWorks.Ppp
