import VxWorks.Ppp.FsmRun
import VxWorks.Ppp.Session

/-!
# The echo timer

The layers of `Session` keep no callouts, so LCP is taken once more by itself,
this time with the callouts `LcpEchoTimeout` counted. What lies around it is an
arbitrary `Protocol`: the options, the layers above, and whatever these make of
a packet, including that the up callback closes the link again.

The timer is armed in one place, `LcpEchoCheck`, and the only thing that may go
wrong there is what happens in the middle of it. A link that does not answer is
taken down, and in passive or silent mode `die` returns: the function goes on to
its end and arms the timer of a link that is down. `EchoFit` is the list of the
expiries that do not meet this, and up to them the timer is right in every run.
-/

namespace VxWorks.Ppp

open VxWorks.Lib

/-- The part of the interface record that is about echoes, the callouts, and the rest. -/
structure LcpEcho (σ : Type) where
  timerRunning : Bool
  echosPending : UInt32
  echoNumber : UInt32
  interval : UInt32
  fails : UInt32
  /-- Callouts `LcpEchoTimeout` in the callout list. -/
  callouts : Nat
  /-- The assertion in `LcpEchoCheck` failed. -/
  violated : Bool
  /-- `die` did not return. -/
  exited : Bool
  env : σ

def LcpEcho.start {σ : Type} (interval fails : UInt32) (env : σ) : LcpEcho σ where
  timerRunning := false
  echosPending := 0
  echoNumber := 0
  interval := interval
  fails := fails
  callouts := 0
  violated := false
  exited := false
  env := env

/-- LCP less the echoes. -/
structure LcpLink (σ : Type) extends Protocol σ where
  /-- Our magic number, where one was negotiated. -/
  magic : σ → Option UInt32
  /-- What the buffer holds behind a packet. -/
  beyond : σ → List UInt8
  /-- What a link failure sets besides: the phase. -/
  terminate : σ → σ

variable {σ : Type}

/-- `lcp_echo_lowerdown`: stop the timer for the LCP frame. -/
def lcpEchoLowerdown (e : LcpEcho σ) : LcpEcho σ :=
  if e.timerRunning then { e with callouts := e.callouts - 1, timerRunning := false } else e

namespace LcpLink

variable (a : LcpLink σ)

/-- `lcp_received_echo_reply`: don't count replies from ourselves. -/
def receivedEchoReply (e : LcpEcho σ) (inp : List UInt8) : LcpEcho σ :=
  match a.magic e.env with
  | some magic =>
      if longAt (inp ++ a.beyond e.env) = magic then e else { e with echosPending := 0 }
  | none => { e with echosPending := 0 }

/-- The callbacks of LCP on the larger record, less what coming up does to the timer. -/
def echoing : Protocol (LcpEcho σ) where
  peerMru e := a.peerMru e.env
  hello e := a.hello e.env
  resetci f e := { e with env := a.resetci f e.env }
  ci := a.ci.map fun c =>
    (fun f e => c.1 f e.env,
     fun f e room => ({ e with env := (c.2 f e.env room).1 }, (c.2 f e.env room).2))
  ackci := a.ackci.map fun c f e p => ((c f e.env p).1, { e with env := (c f e.env p).2 })
  nakci := a.nakci.map fun c f e p => ((c f e.env p).1, { e with env := (c f e.env p).2 })
  rejci := a.rejci.map fun c f e p => ((c f e.env p).1, { e with env := (c f e.env p).2 })
  reqci := a.reqci.map fun c f e p reject =>
    ((c f e.env p reject).1, (c f e.env p reject).2.1,
      { e with env := (c f e.env p reject).2.2 })
  up f e := ((a.up f e.env).1, { e with env := (a.up f e.env).2 })
  down f e := { lcpEchoLowerdown e with env := a.down f e.env }
  starting f e := { e with env := a.starting f e.env }
  finished f e := ((a.finished f e.env).1, { e with env := (a.finished f e.env).2 })
  retransmit f e := { e with env := a.retransmit f e.env }
  extcode := some fun f e p =>
    if p.code = echorep then (.done, a.receivedEchoReply e p.data)
    else
      match a.extcode with
      | some extcode =>
          ((extcode f e.env p).1, { e with env := (extcode f e.env p).2 })
      | none => (.unknown, e)

def port : Port (World (LcpEcho σ)) := a.echoing.port

def lower : LowerCallbacks (World (LcpEcho σ)) := a.echoing.lower

/-- `lcp_close`. -/
def lcpClose (w : World (LcpEcho σ)) : World (LcpEcho σ) :=
  if w.f.state = .stopped ∧ (w.f.flags.passive ∨ w.f.flags.silent) then
    a.echoing.gotFinished { w with f := { w.f with state := .closed } }
  else fsmClose a.port a.lower w

/-- `die`: close the connection, and unless the mode is passive or silent clean up and
exit. -/
def die (w : World (LcpEcho σ)) : World (LcpEcho σ) :=
  let w := a.lcpClose w
  if w.f.flags.passive ∨ w.f.flags.silent then w
  else { w with env := { w.env with exited := true } }

/-- `LcpLinkFailure`: shut down the link because there is nothing out there. -/
def lcpLinkFailure (w : World (LcpEcho σ)) : World (LcpEcho σ) :=
  if w.f.state = .opened then
    let w := fsmLowerdown a.port a.lower w
    { w with env := { w.env with env := a.terminate w.env.env } }
  else w

/-- The head of `LcpSendEchoRequest`: detect the failure of the peer. -/
def lcpEchoFailure (w : World (LcpEcho σ)) : World (LcpEcho σ) :=
  if w.env.fails ≠ 0 then
    let failed := decide (w.env.fails ≤ w.env.echosPending)
    let w := { w with env := { w.env with echosPending := w.env.echosPending + 1 } }
    if failed then
      let w := a.lcpLinkFailure w
      a.die { w with env := { w.env with echosPending := 0 } }
    else w
  else w

/-- `LcpSendEchoRequest`. -/
def lcpSendEchoRequest (w : World (LcpEcho σ)) : World (LcpEcho σ) :=
  let w := a.lcpEchoFailure w
  if w.f.state = .opened then
    fsmSdata a.port echoreq w.env.echoNumber.toUInt8 (put32 ((a.magic w.env.env).getD 0))
      { w with env := { w.env with echoNumber := w.env.echoNumber + 1 } }
  else w

/-- `LcpEchoCheck`: send a request and start the timer for the next interval. -/
def lcpEchoCheck (w : World (LcpEcho σ)) : World (LcpEcho σ) :=
  let w := a.lcpSendEchoRequest w
  -- a `die` that ended the task does not come back to here
  if w.env.exited then w
  else
    { w with env := { w.env with
        violated := w.env.violated || w.env.timerRunning
        callouts := w.env.callouts + 1
        timerRunning := true } }

/-- `LcpEchoTimeout`: timer expired on the LCP echo. -/
def lcpEchoTimeout (w : World (LcpEcho σ)) : World (LcpEcho σ) :=
  if w.env.timerRunning then
    a.lcpEchoCheck { w with env := { w.env with timerRunning := false } }
  else w

/-- `lcp_echo_lowerup`: start the timer for the LCP frame. -/
def lcpEchoLowerup (w : World (LcpEcho σ)) : World (LcpEcho σ) :=
  let w := { w with env := { w.env with
    echosPending := 0, echoNumber := 0, timerRunning := false } }
  if w.env.interval ≠ 0 then a.lcpEchoCheck w else w

/-- `lcp_up`: what it does to the layers above, on either side of the echoes, has no part
in them. -/
def lcpUp (w : World (LcpEcho σ)) : World (LcpEcho σ) :=
  a.echoing.goneUp (a.lcpEchoLowerup w)

def callbacks : Callbacks (World (LcpEcho σ)) :=
  { a.echoing.callbacks with up := a.lcpUp }

end LcpLink

inductive EchoCall where
  | fsm (call : FsmCall)
  | lcpClose
  | echoTimeout
deriving DecidableEq, Repr

namespace LcpLink

variable (a : LcpLink σ)

/-- One call of the automaton, with the callbacks above. -/
def fsmStep (w : World (LcpEcho σ)) : FsmCall → World (LcpEcho σ)
  | .lowerup => fsmLowerup a.port a.lower w
  | .lowerdown => fsmLowerdown a.port a.lower w
  | .open => fsmOpen a.port a.lower w
  | .close => fsmClose a.port a.lower w
  | .timeout => fsmTimeout a.port a.callbacks { w with pending := w.pending - 1 }
  | .input inpacket => fsmInput a.port a.callbacks inpacket w
  | .protreject => fsmProtreject a.port a.callbacks w
  | .config flags timeouttime maxconfreq maxterm maxnak =>
      a.echoing.step w (.config flags timeouttime maxconfreq maxterm maxnak)

/-- A callout is gone from the list by the time its function runs. After the end of the
task nothing happens. -/
def step (w : World (LcpEcho σ)) (call : EchoCall) : World (LcpEcho σ) :=
  if w.env.exited then w
  else
    match call with
    | .fsm call => a.fsmStep w call
    | .lcpClose => a.lcpClose w
    | .echoTimeout =>
        a.lcpEchoTimeout { w with env := { w.env with callouts := w.env.callouts - 1 } }

end LcpLink

/-- The timer is what it is said to be. -/
structure EchoRight (w : World (LcpEcho σ)) : Prop where
  callouts : w.env.callouts = if w.env.timerRunning then 1 else 0
  opened : w.env.timerRunning = true → w.f.state = .opened
  asserted : w.env.violated = false

/-- Nothing is armed. -/
def LcpEcho.Off (e : LcpEcho σ) : Prop :=
  e.timerRunning = false ∧ e.callouts = 0 ∧ e.violated = false

def LcpEcho.On (e : LcpEcho σ) : Prop :=
  e.timerRunning = true ∧ e.callouts = 1 ∧ e.violated = false

/-- The timer is off, whatever the automaton does. -/
def EchoQuiet (w : World (LcpEcho σ)) : Prop := w.env.exited = true ∨ w.env.Off

/-- The timer is off, or it is on and the link is open. -/
def EchoKept (w : World (LcpEcho σ)) : Prop :=
  EchoQuiet w ∨ (w.f.state = .opened ∧ w.env.On)

theorem echoKept_iff {w : World (LcpEcho σ)} :
    EchoKept w ↔ (w.env.exited = false → EchoRight w) := by
  rw [EchoKept, EchoQuiet, LcpEcho.Off, LcpEcho.On]
  cases hx : w.env.exited with
  | true => simp
  | false =>
      simp only [Bool.false_eq_true, false_or, forall_const]
      constructor
      · rintro (⟨hr, hc, hv⟩ | ⟨hs, hr, hc, hv⟩)
        · exact ⟨by rw [hc, hr]; rfl, fun h => absurd (hr.symm.trans h) nofun, hv⟩
        · exact ⟨by rw [hc, hr]; rfl, fun _ => hs, hv⟩
      · rintro ⟨hc, hs, hv⟩
        cases hr : w.env.timerRunning with
        | false => exact .inl ⟨rfl, by rw [hc, hr]; rfl, hv⟩
        | true => exact .inr ⟨hs hr, rfl, by rw [hc, hr]; rfl, hv⟩

theorem EchoQuiet.of_env {w w' : World (LcpEcho σ)} (h : EchoQuiet w)
    (hx : w'.env.exited = w.env.exited) (hr : w'.env.timerRunning = w.env.timerRunning)
    (hc : w'.env.callouts = w.env.callouts) (hv : w'.env.violated = w.env.violated) :
    EchoQuiet w' := by
  rw [EchoQuiet, LcpEcho.Off] at *
  rw [hx, hr, hc, hv]
  exact h

theorem lcpEchoLowerdown_off {e : LcpEcho σ} (h : e.Off) : lcpEchoLowerdown e = e := by
  rw [lcpEchoLowerdown]
  rw [h.1]
  rfl

theorem lcpEchoLowerdown_on {e : LcpEcho σ} (h : e.On) : (lcpEchoLowerdown e).Off := by
  obtain ⟨hr, hc, hv⟩ := h
  rw [lcpEchoLowerdown]
  rw [hr]
  exact ⟨rfl, by simp [hc], hv⟩

@[simp] theorem lcpEchoLowerdown_exited (e : LcpEcho σ) :
    (lcpEchoLowerdown e).exited = e.exited := by
  rw [lcpEchoLowerdown]
  split <;> rfl

section

variable (a : LcpLink σ) {w w' : World (LcpEcho σ)}

/-- With the timer off, nothing but coming up has to do with it. -/
theorem quiet_ignores : a.port.Ignores a.lower EchoQuiet where
  put _ _ h := h
  timeout h := h
  client h := h
  sconfreq _ _ h := h
  sent _ _ h := h
  resetci h := h
  addci {s c} room hc h := by
    simp only [LcpLink.lower, Protocol.lower, LcpLink.echoing, Option.map_map] at hc
    cases hci : a.ci with
    | none => rw [hci] at hc; cases hc
    | some ci =>
        rw [hci] at hc
        obtain rfl := Option.some.inj hc
        exact h
  set _ h := h
  untimeout h := h
  down {s} h := by
    rcases h with hx | hoff
    · exact .inl ((lcpEchoLowerdown_exited s.env).trans hx)
    · right
      have hsame := lcpEchoLowerdown_off hoff
      show LcpEcho.Off { lcpEchoLowerdown s.env with env := a.down s.f s.env.env }
      rw [hsame]
      exact hoff
  starting h := h

/-- Going down stops the timer. -/
theorem EchoKept.down (h : EchoKept w) : EchoQuiet (goDown a.port a.lower w) := by
  rcases h with hq | ⟨-, hon⟩
  · exact (quiet_ignores a).down hq
  · exact .inr (lcpEchoLowerdown_on hon)

theorem EchoKept.quiet (h : EchoKept w) (hs : w.f.state ≠ .opened) : EchoQuiet w :=
  h.resolve_right fun ho => hs ho.1

/-- The timer and the control state stay as they are. -/
theorem EchoKept.same (h : EchoKept w) (hs : w'.f.state = w.f.state)
    (hx : w'.env.exited = w.env.exited) (hr : w'.env.timerRunning = w.env.timerRunning)
    (hc : w'.env.callouts = w.env.callouts) (hv : w'.env.violated = w.env.violated) :
    EchoKept w' := by
  rcases h with hq | ⟨ho, hon⟩
  · exact .inl (hq.of_env hx hr hc hv)
  · refine .inr ⟨hs.trans ho, ?_⟩
    rw [LcpEcho.On] at *
    rw [hr, hc, hv]
    exact hon

/-! ## What the functions of the automaton make of the timer -/

namespace EchoKept

theorem lowerup (h : EchoKept w) : EchoKept (fsmLowerup a.port a.lower w) := by
  by_cases hs : w.f.state = .opened
  · have hs' : a.port.state w = .opened := hs
    simp only [fsmLowerup, hs']
    exact h
  · exact .inl ((quiet_ignores a).lowerup (h.quiet hs))

theorem lowerdown (h : EchoKept w) : EchoQuiet (fsmLowerdown a.port a.lower w) := by
  by_cases hs : w.f.state = .opened
  · have hs' : a.port.state w = .opened := hs
    simp only [fsmLowerdown, hs']
    exact h.down a
  · exact (quiet_ignores a).lowerdown (h.quiet hs)

theorem «open» (h : EchoKept w) : EchoKept (fsmOpen a.port a.lower w) := by
  by_cases hs : w.f.state = .opened
  · have hs' : a.port.state w = .opened := hs
    simp only [fsmOpen, hs']
    split
    · exact .inl ((quiet_ignores a).lowerup (h.lowerdown a))
    · exact h
  · exact .inl ((quiet_ignores a).fsmOpen (h.quiet hs))

/-- A link that is broken off from above. -/
theorem stop (h : EchoQuiet w) (st : FsmState) :
    EchoQuiet (a.port.setState st (fsmStermreq a.port
      (a.port.modify (fun f => { f with retransmits := f.maxtermtransmits }) w))) :=
  (quiet_ignores a).set _ ((quiet_ignores a).fsmStermreq ((quiet_ignores a).set _ h))

theorem close (h : EchoKept w) : EchoQuiet (fsmClose a.port a.lower w) := by
  by_cases hs : w.f.state = .opened
  · have hs' : a.port.state w = .opened := hs
    simp only [fsmClose, hs', ne_eq, not_true_eq_false, if_false]
    exact stop a (h.down a) .closing
  · exact (quiet_ignores a).fsmClose (h.quiet hs)

theorem finished (h : EchoKept w) : EchoKept (a.echoing.gotFinished w) := by
  have henv : EchoKept { w with env := (a.echoing.finished w.f w.env).2 } :=
    h.same rfl rfl rfl rfl rfl
  simp only [Protocol.gotFinished]
  split
  · exact henv.open a
  · exact henv

theorem sconfreq (h : EchoQuiet w) (retransmit : Bool) :
    EchoQuiet (fsmSconfreq a.port a.lower retransmit w) :=
  (quiet_ignores a).fsmSconfreq retransmit h

theorem protreject {cb : Callbacks (World (LcpEcho σ))} (hl : cb.toLowerCallbacks = a.lower)
    (hf : cb.finished = a.echoing.gotFinished) (h : EchoKept w) :
    EchoKept (fsmProtreject a.port cb w) := by
  have ended : ∀ {w : World (LcpEcho σ)}, EchoQuiet w →
      EchoKept (a.echoing.gotFinished w) := fun h => EchoKept.finished a (.inl h)
  unfold fsmProtreject
  rw [hl, hf]
  split
  iterate 7
    next hs =>
      have hs : w.f.state = _ := hs
      exact ended (h.quiet (by rw [hs]; nofun))
  · exact .inl (stop a (h.down a) .stopping)
  all_goals exact h

theorem timeout (h : EchoKept w) : EchoKept (fsmTimeout a.port a.callbacks w) := by
  by_cases hs : w.f.state = .opened
  · have hs' : a.port.state w = .opened := hs
    simp only [fsmTimeout, hs']
    exact h
  · have hq := h.quiet hs
    unfold fsmTimeout
    split
    iterate 2
      split
      · exact EchoKept.finished a (.inl hq)
      · exact .inl ((quiet_ignores a).fsmStermreq hq)
    iterate 3
      split
      · dsimp only
        split
        · exact .inl hq
        · exact EchoKept.finished a (.inl hq)
      · have hret : EchoQuiet (a.callbacks.retransmit w) := hq
        have hreq := sconfreq a hret true
        dsimp only
        split
        · exact .inl hreq
        · exact .inl hreq
    · exact h

end EchoKept

/-! ## What the echoes make of it -/

/-- The peer is found to have failed. -/
def LcpEcho.Failing (e : LcpEcho σ) : Prop := e.fails ≠ 0 ∧ e.fails ≤ e.echosPending

theorem echoFailure_of_not (h : ¬ w.env.Failing) :
    ∃ n, a.lcpEchoFailure w = { w with env := { w.env with echosPending := n } } := by
  rw [LcpLink.lcpEchoFailure]
  by_cases hf : w.env.fails = 0
  · exact ⟨w.env.echosPending, if_neg (not_not_intro hf)⟩
  · have hle : ¬ w.env.fails ≤ w.env.echosPending := fun hle => h ⟨hf, hle⟩
    rw [if_pos hf]
    simp only [decide_eq_true_eq, if_neg hle]
    exact ⟨_, rfl⟩

theorem sendEchoRequest_quiet (h : EchoQuiet w) (hs : w.f.state = .opened)
    (hf : ¬ w.env.Failing) :
    EchoQuiet (a.lcpSendEchoRequest w) ∧ (a.lcpSendEchoRequest w).f.state = .opened := by
  obtain ⟨n, hn⟩ := echoFailure_of_not a hf
  rw [LcpLink.lcpSendEchoRequest]
  rw [hn]
  simp only [hs, if_true]
  exact ⟨h, hs⟩

/-- The end of `LcpEchoCheck`, on an open link that has not failed. -/
theorem echoCheck_kept (h : EchoQuiet w) (hs : w.f.state = .opened) (hf : ¬ w.env.Failing) :
    EchoKept (a.lcpEchoCheck w) := by
  obtain ⟨hq, ho⟩ := sendEchoRequest_quiet a h hs hf
  rw [LcpLink.lcpEchoCheck]
  dsimp only
  split
  · exact .inl hq
  · next hx =>
      obtain ⟨hr, hc, hv⟩ := hq.resolve_left hx
      refine .inr ⟨ho, rfl, by simp [hc], by simp [hv, hr]⟩

/-- LCP comes up with no echo outstanding, so it does not find the peer failed. -/
theorem lcpUp_kept (h : EchoQuiet w) (hs : w.f.state = .opened) : EchoKept (a.lcpUp w) := by
  have hup : EchoKept (a.lcpEchoLowerup w) := by
    unfold LcpLink.lcpEchoLowerup
    have hq : EchoQuiet { w with env := { w.env with
        echosPending := 0, echoNumber := 0, timerRunning := false } } := by
      rcases h with hx | ⟨-, hc, hv⟩
      · exact .inl hx
      · exact .inr ⟨rfl, hc, hv⟩
    dsimp only
    split
    · refine echoCheck_kept a hq hs fun ⟨hne, hle⟩ => hne ?_
      have hzero : w.env.fails.toNat ≤ 0 := hle
      exact UInt32.toNat_inj.mp (Nat.le_zero.mp hzero)
    · exact .inl hq
  have henv : EchoKept { a.lcpEchoLowerup w with
      env := (a.echoing.up (a.lcpEchoLowerup w).f (a.lcpEchoLowerup w).env).2 } :=
    hup.same rfl rfl rfl rfl rfl
  unfold LcpLink.lcpUp Protocol.goneUp
  dsimp only
  split
  · exact .inl (henv.close a)
  · exact henv

theorem lcpClose_kept (h : EchoKept w) : EchoKept (a.lcpClose w) := by
  rw [LcpLink.lcpClose]
  split
  · next hst =>
      refine EchoKept.finished a (.inl ?_)
      exact h.quiet (by rw [hst.1]; nofun)
  · exact .inl (h.close a)

/-! ## Packets -/

namespace EchoKept

theorem sdata (h : EchoKept w) (code id : UInt8) (data : List UInt8) :
    EchoKept (fsmSdata a.port code id data w) := h.same rfl rfl rfl rfl rfl

theorem move (h : EchoQuiet w) (code : ConfCode) :
    EchoKept (rconfreqMove a.port a.callbacks code w) := by
  have naks : ∀ {u : World (LcpEcho σ)} (n : Fsm → Int), EchoKept u →
      EchoKept (a.port.modify (fun f => { f with nakloops := n f }) u) :=
    fun _ hu => hu.same rfl rfl rfl rfl rfl
  have refused : ∀ {u : World (LcpEcho σ)}, EchoQuiet u → EchoKept (if code = .nak then
      a.port.modify (fun f => { f with nakloops := f.nakloops + 1 }) u else u) := by
    intro u hu
    split
    · exact naks (fun f => f.nakloops + 1) (.inl hu)
    · exact .inl hu
  rw [rconfreqMove]
  by_cases hc : code = .ack
  · rw [if_pos hc]
    refine naks (fun _ => 0) ?_
    split
    · exact lcpUp_kept a (w := { a.port.setState .opened (a.port.untimeout w) with
        log := .up :: w.log }) h rfl
    · exact .inl h
  · rw [if_neg hc]
    by_cases hs : a.port.state w ≠ .ackrcvd
    · rw [if_pos hs]
      exact refused h
    · rw [if_neg hs]
      exact refused h

theorem reply (h : EchoQuiet w) (id : UInt8) (inp : List UInt8) :
    EchoKept (rconfreqReply a.port a.callbacks id inp w) := by
  have hreq : EchoQuiet (checkReq a.port a.callbacks inp w).2.2 := by
    simp only [checkReq, LcpLink.callbacks, Protocol.callbacks, Protocol.callbacks₀,
      LcpLink.echoing]
    cases a.reqci with
    | none => exact h
    | some reqci => exact h
  rw [rconfreqReply]
  exact move a (w := fsmSdata a.port _ _ _ (checkReq a.port a.callbacks inp w).2.2) hreq _

theorem rconfreq (h : EchoKept w) (id : UInt8) (inp : List UInt8) :
    EchoKept (fsmRconfreq a.port a.callbacks id inp w) := by
  unfold fsmRconfreq
  split
  · exact h.sdata a _ _ _
  · exact h
  · exact h
  · exact reply a (sconfreq a (h.down a) false) id inp
  · next hs =>
      have hs : w.f.state = .stopped := hs
      exact reply a ((quiet_ignores a).set _
        (sconfreq a (h.quiet (by rw [hs]; nofun)) false)) id inp
  · next ho _ =>
      exact reply a (h.quiet (fun hs => ho hs)) id inp

theorem rconfack (h : EchoKept w) (id : UInt8) (inp : List UInt8) :
    EchoKept (fsmRconfack a.port a.callbacks id inp w) := by
  have hack : EchoKept (checkAck a.callbacks inp w).2 := by
    simp only [checkAck, LcpLink.callbacks, Protocol.callbacks, Protocol.callbacks₀,
      LcpLink.echoing]
    cases a.ackci with
    | none => exact h
    | some ackci => exact h.same rfl rfl rfl rfl rfl
  unfold fsmRconfack
  split
  · exact h
  dsimp only
  split
  · exact hack
  generalize hT : a.port.modify _ _ = T
  have hT' : EchoKept T := by
    rw [← hT]
    exact hack.same rfl rfl rfl rfl rfl
  have hquiet : ∀ {st : FsmState}, a.port.state T = st → st ≠ .opened → EchoQuiet T :=
    fun hs hne => hT'.quiet (fun ho => hne (hs.symm.trans ho))
  split
  iterate 2 exact hT'.sdata a _ _ _
  · next hs => exact .inl (hquiet hs (by decide))
  · next hs => exact .inl (sconfreq a (hquiet hs (by decide)) false)
  · next hs =>
      exact lcpUp_kept a (w := { a.port.modify (fun f =>
        { f with state := .opened, retransmits := f.maxconfreqtransmits })
        (a.port.untimeout T) with log := .up :: T.log }) (hquiet hs (by decide)) rfl
  · exact .inl (sconfreq a (hT'.down a) false)
  all_goals exact hT'

theorem rconfnakrej (h : EchoKept w) (code id : UInt8) (inp : List UInt8) :
    EchoKept (fsmRconfnakrej a.port a.callbacks code id inp w) := by
  have hnak : EchoKept (checkNakrej a.callbacks code inp w).2 := by
    simp only [checkNakrej, LcpLink.callbacks, Protocol.callbacks, Protocol.callbacks₀,
      LcpLink.echoing]
    by_cases hc : code = confnak
    · rw [if_pos hc]
      cases a.nakci with
      | none => exact h
      | some nakci => exact h.same rfl rfl rfl rfl rfl
    · rw [if_neg hc]
      cases a.rejci with
      | none => exact h
      | some rejci => exact h.same rfl rfl rfl rfl rfl
  unfold fsmRconfnakrej
  split
  · exact h
  dsimp only
  split
  · exact hnak
  generalize hT : a.port.modify _ _ = T
  have hT' : EchoKept T := by
    rw [← hT]
    exact hnak.same rfl rfl rfl rfl rfl
  have hquiet : ∀ {st : FsmState}, a.port.state T = st → st ≠ .opened → EchoQuiet T :=
    fun hs hne => hT'.quiet (fun ho => hne (hs.symm.trans ho))
  split
  iterate 2 exact hT'.sdata a _ _ _
  iterate 2
    next hs =>
      exact .inl (sconfreq a ((quiet_ignores a).untimeout (hquiet hs (by decide))) false)
  · next hs => exact .inl (sconfreq a (hquiet hs (by decide)) false)
  · exact .inl (sconfreq a (hT'.down a) false)
  all_goals exact hT'

theorem rtermreq (h : EchoKept w) (id : UInt8) :
    EchoKept (fsmRtermreq a.port a.callbacks id w) := by
  unfold fsmRtermreq
  refine EchoKept.sdata a ?_ _ _ _
  split
  iterate 2
    next hs =>
      have hs : w.f.state = _ := hs
      exact .inl (h.quiet (by rw [hs]; nofun))
  · exact .inl (h.down a)
  · exact h

theorem rtermack (h : EchoKept w) : EchoKept (fsmRtermack a.port a.callbacks w) := by
  unfold fsmRtermack
  split
  iterate 2
    next hs =>
      have hs : w.f.state = _ := hs
      exact EchoKept.finished a (.inl (h.quiet (by rw [hs]; nofun)))
  · next hs =>
      have hs : w.f.state = _ := hs
      exact .inl (h.quiet (by rw [hs]; nofun))
  · exact .inl (sconfreq a (h.down a) false)
  · exact h

theorem rcoderej (h : EchoKept w) (inp : List UInt8) :
    EchoKept (fsmRcoderej a.port inp w) := by
  unfold fsmRcoderej
  split
  · exact h
  · split
    · next hs =>
        have hs : w.f.state = _ := hs
        exact .inl (h.quiet (by rw [hs]; nofun))
    · exact h

/-- An Echo-Reply resets a counter, and a Protocol-Reject may be about LCP. -/
theorem ext (h : EchoKept w) (p : CpPacket) : EchoKept (checkExt a.callbacks p w).2 := by
  have henv : EchoKept { w with env := ((fun f e p =>
      if p.code = echorep then (ExtResult.done, a.receivedEchoReply e p.data)
      else
        match a.extcode with
        | some extcode =>
            ((extcode f e.env p).1, { e with env := (extcode f e.env p).2 })
        | none => (.unknown, e)) w.f w.env p).2 } := by
    dsimp only
    split
    · unfold LcpLink.receivedEchoReply
      split
      · split
        · exact h
        · exact h.same rfl rfl rfl rfl rfl
      · exact h.same rfl rfl rfl rfl rfl
    · split
      · exact h.same rfl rfl rfl rfl rfl
      · exact h
  simp only [checkExt, LcpLink.callbacks, Protocol.callbacks, LcpLink.echoing, Option.map]
  split
  · exact henv
  · exact henv
  · exact henv.sdata a _ _ _
  · exact henv.protreject a rfl rfl

theorem dispatch (h : EchoKept w) (p : CpPacket) :
    EchoKept (fsmDispatch a.port a.callbacks p w) := by
  rw [fsmDispatch]
  split
  · exact h.rconfreq a p.id p.data
  split
  · exact h.rconfack a p.id p.data
  split
  · exact h.rconfnakrej a p.code p.id p.data
  split
  · exact h.rtermreq a p.id
  split
  · exact h.rtermack a
  split
  · exact h.rcoderej a p.data
  · have hext := h.ext a p
    dsimp only
    split
    · exact hext
    · refine EchoKept.sdata a ?_ _ _ _
      exact hext.same rfl rfl rfl rfl rfl

theorem input (h : EchoKept w) (inpacket : List UInt8) :
    EchoKept (fsmInput a.port a.callbacks inpacket w) := by
  unfold fsmInput
  split
  · exact h
  · split
    · exact h
    · next p _ _ =>
        refine EchoKept.dispatch a ?_ p
        exact h.same rfl rfl rfl rfl rfl

theorem fsmStep (h : EchoKept w) (call : FsmCall) : EchoKept (a.fsmStep w call) := by
  cases call with
  | lowerup => exact h.lowerup a
  | lowerdown => exact .inl (h.lowerdown a)
  | «open» => exact h.open a
  | close => exact .inl (h.close a)
  | timeout => exact EchoKept.timeout a (h.same rfl rfl rfl rfl rfl)
  | input inpacket => exact h.input a inpacket
  | protreject => exact h.protreject a rfl rfl
  | config flags timeouttime maxconfreq maxterm maxnak => exact h.same rfl rfl rfl rfl rfl

end EchoKept

/-! ## Runs -/

/-- The call does not find the peer failed where `die` returns. -/
def EchoFit (w : World (LcpEcho σ)) (call : EchoCall) : Prop :=
  call = .echoTimeout → w.env.exited = false → w.env.timerRunning = true →
    w.env.Failing → w.f.flags.passive = false ∧ w.f.flags.silent = false

theorem linkFailure_spec (hq : EchoQuiet w) (hs : w.f.state = .opened) :
    (a.lcpLinkFailure w).f = { w.f with state := .starting } ∧
      EchoQuiet (a.lcpLinkFailure w) ∧
      (a.lcpLinkFailure w).env.exited = w.env.exited := by
  have hs' : a.port.state w = .opened := hs
  rw [LcpLink.lcpLinkFailure]
  rw [if_pos hs]
  simp only [fsmLowerdown, hs']
  exact ⟨rfl, (quiet_ignores a).down hq, lcpEchoLowerdown_exited w.env⟩

theorem die_of_starting (hs : w.f.state = .starting) :
    a.die w =
      let w := { w with f := { w.f with state := .initial } }
      if w.f.flags.passive ∨ w.f.flags.silent then w
      else { w with env := { w.env with exited := true } } := by
  have hclose : a.lcpClose w = { w with f := { w.f with state := .initial } } := by
    have hs' : a.port.state w = .starting := hs
    rw [LcpLink.lcpClose]
    rw [if_neg (by rw [hs]; nofun)]
    simp only [fsmClose, hs']
    rfl
  rw [LcpLink.die]
  rw [hclose]

/-- The link of a peer that has failed is down when `die` is done with it, and so is the
task unless the mode is passive or silent. -/
theorem echoFailure_of_failing (hq : EchoQuiet w) (hs : w.f.state = .opened)
    (hf : w.env.Failing) :
    (a.lcpEchoFailure w).f.state = .initial ∧
      (a.lcpEchoFailure w).env.exited =
        (w.env.exited || !(w.f.flags.passive || w.f.flags.silent)) := by
  obtain ⟨hne, hle⟩ := hf
  obtain ⟨u, hu⟩ : ∃ u, u = { w with env :=
    { w.env with echosPending := w.env.echosPending + 1 } } := ⟨_, rfl⟩
  obtain ⟨hfsm, -, hx⟩ := linkFailure_spec a (w := u) (by rw [hu]; exact hq) (by rw [hu]; exact hs)
  have hfail : a.lcpEchoFailure w = a.die { a.lcpLinkFailure u with env :=
      { (a.lcpLinkFailure u).env with echosPending := 0 } } := by
    rw [LcpLink.lcpEchoFailure]
    simp only [hne, hle, ne_eq, not_false_eq_true, if_true, decide_true, hu]
  have hflags : (a.lcpLinkFailure u).f.flags = w.f.flags := by rw [hfsm, hu]
  have hexit : (a.lcpLinkFailure u).env.exited = w.env.exited := by rw [hx, hu]
  rw [hfail, die_of_starting a (by rw [hfsm])]
  dsimp only
  rw [hflags]
  split
  · next hmode =>
      have hmode : (w.f.flags.passive || w.f.flags.silent) = true := by simpa using hmode
      exact ⟨rfl, by rw [hmode, hexit]; simp⟩
  · next hmode =>
      have hmode : (w.f.flags.passive || w.f.flags.silent) = false := by simpa using hmode
      exact ⟨rfl, by rw [hmode]; simp⟩

/-- A peer that has failed leaves an armed timer behind, or no task. -/
theorem echoCheck_failing (hq : EchoQuiet w) (hx : w.env.exited = false)
    (hs : w.f.state = .opened) (hf : w.env.Failing) :
    EchoKept (a.lcpEchoCheck w) ↔ w.f.flags.passive = false ∧ w.f.flags.silent = false := by
  obtain ⟨hstate, hexit⟩ := echoFailure_of_failing a hq hs hf
  rw [hx, Bool.false_or] at hexit
  have hsend : a.lcpSendEchoRequest w = a.lcpEchoFailure w := by
    rw [LcpLink.lcpSendEchoRequest]
    simp only [hstate, reduceCtorEq, if_false]
  rw [LcpLink.lcpEchoCheck]
  rw [hsend]
  dsimp only
  split
  · next hgone =>
      rw [hexit] at hgone
      refine iff_of_true (.inl (.inl (hexit.trans hgone))) ?_
      simpa using hgone
  · next hback =>
      refine iff_of_false ?_ fun hmode => hback ?_
      · rintro ((hgone | hoff) | ⟨ho, -⟩)
        · exact hback hgone
        · cases hoff.1
        · exact absurd (hstate.symm.trans ho) nofun
      · rw [hexit, hmode.1, hmode.2]
        rfl

theorem echoTimeout_kept_iff (h : EchoKept w) :
    EchoKept (a.step w .echoTimeout) ↔ EchoFit w .echoTimeout := by
  unfold LcpLink.step EchoFit
  by_cases hx : w.env.exited = true
  · rw [if_pos hx]
    exact iff_of_true h fun _ hx' => absurd (hx.symm.trans hx') nofun
  rw [if_neg hx]
  dsimp only
  rw [LcpLink.lcpEchoTimeout]
  by_cases hr : w.env.timerRunning = true
  · rw [if_pos hr]
    obtain ⟨hs, -, hc, hv⟩ : w.f.state = .opened ∧ w.env.On := by
      refine h.resolve_left ?_
      intro hq
      obtain ⟨hr', -⟩ := hq.resolve_left hx
      exact absurd (hr.symm.trans hr') nofun
    have hq : EchoQuiet { w with env :=
        { w.env with callouts := w.env.callouts - 1, timerRunning := false } } :=
      .inr ⟨rfl, by simp [hc], hv⟩
    have hx' : w.env.exited = false := Bool.eq_false_iff.mpr hx
    by_cases hf : w.env.Failing
    · refine (echoCheck_failing a hq hx' hs hf).trans ?_
      exact ⟨fun hmode _ _ _ _ => hmode, fun hfit => hfit rfl hx' hr hf⟩
    · exact iff_of_true (echoCheck_kept a hq hs hf) fun _ _ _ hf' => absurd hf' hf
  · rw [if_neg hr]
    refine iff_of_true (.inl ?_) fun _ _ hr' => absurd hr' hr
    obtain ⟨hr', hc, hv⟩ : w.env.Off := by
      rcases h with hq | ⟨-, hon⟩
      · exact hq.resolve_left hx
      · exact absurd hon.1 hr
    exact .inr ⟨hr', by simp [hc], hv⟩

theorem step_kept_iff (h : EchoKept w) (call : EchoCall) :
    EchoKept (a.step w call) ↔ EchoFit w call := by
  have others : EchoKept (a.step w call) → call ≠ .echoTimeout →
      (EchoKept (a.step w call) ↔ EchoFit w call) :=
    fun hkept hne => iff_of_true hkept fun heq => absurd heq hne
  cases call with
  | echoTimeout => exact echoTimeout_kept_iff a h
  | fsm call =>
      refine others ?_ nofun
      unfold LcpLink.step
      split
      · exact h
      · exact h.fsmStep a call
  | lcpClose =>
      refine others ?_ nofun
      unfold LcpLink.step
      split
      · exact h
      · exact lcpClose_kept a h

end

/-- In every run, as long as the task lives, the timer is running exactly while its one
callout is pending, it runs only on an open link, and the assertion holds, exactly if no
expiry finds a failed peer in passive or silent mode. -/
theorem echo_timer_iff (a : LcpLink σ) (random : UInt8) (f : Fsm) (interval fails : UInt32)
    (env : σ) (calls : List EchoCall) :
    Always a.step (fun w => w.env.exited = false → EchoRight w)
        (World.start random f (LcpEcho.start interval fails env)) calls ↔
      Guarded a.step EchoFit
        (World.start random f (LcpEcho.start interval fails env)) calls :=
  always_iff_guarded EchoKept (fun _ _ => True) (.inl (.inr ⟨rfl, rfl, rfl⟩))
    (fun _ h => echoKept_iff.mp h)
    (fun _ call h _ hfit => (step_kept_iff a h call).mpr hfit)
    (fun _ call h _ hfit hright => hfit ((step_kept_iff a h call).mp (echoKept_iff.mpr hright)))
    (fun _ _ _ => trivial)

/-- LCP without options and without layers above it. -/
def LcpLink.bare : LcpLink Unit where
  toProtocol := Protocol.bare
  magic _ := none
  beyond _ := []
  terminate env := env

/-- In passive mode a peer that does not answer once leaves the timer of a closed link
running. -/
theorem passive_peer_silent :
    ¬ ∀ calls, Always LcpLink.bare.step (fun w => w.env.exited = false → EchoRight w)
      (World.start 0 default (LcpEcho.start 1 1 ())) calls := by
  intro h
  have hright := h [.fsm (.config ⟨true, true, false⟩ 3 10 2 10), .fsm .open, .fsm .lowerup,
    .fsm (.input [2, 1, 0, 4]), .fsm (.input [1, 7, 0, 4]), .echoTimeout] _
    (List.prefix_refl _) (by decide)
  have hopened := hright.opened (by decide)
  revert hopened
  decide

end VxWorks.Ppp
