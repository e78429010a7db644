import Mathlib.Logic.Relation
import VxWorks.Ppp.FsmRun

/-!
# The transition table

`fsm.c` spreads its transitions over a dozen functions with a `switch` each.
Here they are collected in one relation, on the part of the state that a
property of the automaton can be about: the control state, the number of
callouts, `reqid` and the history. `Move` has one constructor for each kind of
transition the code can make, and the theorem of this file, `step_path`, says
that every call is a sequence of them. Whatever the table preserves, the code
preserves; no property below unfolds a function of `fsm.c` again.

A call is usually one move. It is two or more where a callback re-enters the
automaton (an up callback that closes, a finished callback that reopens) and
where one function of the source goes through another, as `fsm_open` does when
it restarts a link.

Four kinds of move are set apart by a `Tag`, because what is true of the others
is not always true of them: taking a reply to a request, taking a second one
while waiting only for the peer's own request, and the two ways of receiving a
Terminate-Ack that something depends on.
-/

namespace VxWorks.Ppp

open VxWorks.Lib Relation

/-- States with neither a negotiation nor a termination going on. -/
def FsmState.idle : FsmState → Bool
  | .initial | .starting | .closed | .stopped => true
  | _ => false

/-- A Terminate-Request is waiting for its answer. -/
def FsmState.terminating : FsmState → Bool
  | .closing | .stopping => true
  | _ => false

/-- States in which the restart timer runs. -/
def FsmState.timed (st : FsmState) : Bool := st.negotiating || st.terminating

/-- What the table is about. -/
structure View where
  state : FsmState
  pending : Nat
  reqid : UInt8
  log : List FsmEvent

namespace View

variable (v : View)

@[simp] def enter (st : FsmState) : View := { v with state := st }

@[simp] def arm : View := { v with pending := v.pending + 1 }

@[simp] def cancel : View := { v with pending := v.pending - 1 }

@[simp] def say (e : FsmEvent) : View := { v with log := e :: v.log }

/-- A Configure-Request goes out. -/
@[simp] def request (retransmit : Bool) (id : UInt8) (data : List UInt8) (hello : Bool) : View :=
  { v with
    pending := v.pending + 1
    reqid := id
    log := .sent ⟨confreq, id, data⟩ :: .sconfreq retransmit id ::
      ((if hello then [.client] else []) ++ v.log) }

/-- A Terminate-Request goes out. -/
@[simp] def terminate (id : UInt8) : View :=
  { v with
    pending := v.pending + 1
    reqid := id
    log := .sent ⟨termreq, id, []⟩ :: v.log }

/-- A reply to our request passed both checks. -/
@[simp] def take (p : CpPacket) : View :=
  { v with reqid := noReqid, log := .accepted p.code p.id :: .rcvd p :: v.log }

/-- Where the answer to the peer's request leads. -/
def settle (c : ConfCode) : View :=
  if c = .ack then
    if v.state = .ackrcvd then (v.cancel.enter .opened).say .up else v.enter .acksent
  else
    if v.state = .ackrcvd then v else v.enter .reqsent

def answer (c : ConfCode) (id : UInt8) (data : List UInt8) : View :=
  (v.say (.sent ⟨c.code, id, data⟩)).settle c

/-- `fsm_rconfreq` works out its answer with the control state still `OPENED`,
which makes no difference to where the answer leads. -/
theorem answer_enter {v : View} (h : v.state = .opened) (c : ConfCode) (id : UInt8)
    (data : List UInt8) : (v.enter .reqsent).answer c id data = v.answer c id data := by
  cases c <;> simp [answer, settle, h]

end View

/-- The part of a world the table is about. -/
def World.view {σ : Type} (w : World σ) : View := ⟨w.f.state, w.pending, w.f.reqid, w.log⟩

/-- The codes of a reply to a Configure-Request. -/
def replyCode (code : UInt8) : Prop := code = confack ∨ code = confnak ∨ code = confrej

instance (code : UInt8) : Decidable (replyCode code) := by
  unfold replyCode; infer_instance

inductive Tag where
  | plain
  /-- A timer expired in a state that does not run it. -/
  | stray
  /-- A reply was taken. -/
  | reply
  /-- A reply was taken in `ACKRCVD`. -/
  | extraReply
  /-- A Terminate-Ack came while one was waited for. -/
  | termack
  /-- A Terminate-Ack came while the link was open. -/
  | termackOpened
deriving DecidableEq, Repr

/-- The transitions of the automaton. -/
inductive Move : Tag → View → View → Prop
  | stay {v : View} : Move .plain v v
  | idle {v : View} {st : FsmState} (h : v.state.idle) (h' : st.idle) : Move .plain v (v.enter st)
  /-- Open and close while terminating. -/
  | swap {v : View} {st : FsmState} (h : v.state.terminating) (h' : st.terminating) :
      Move .plain v (v.enter st)
  /-- A negotiation begins. -/
  | start {v : View} {id : UInt8} {data : List UInt8} {hello : Bool} (h : v.state.idle) :
      Move .plain v ((v.request false id data hello).enter .reqsent)
  /-- The restart timer is cancelled, or expires for the last time. -/
  | halt {v : View} {st : FsmState} (h : v.state.timed) (h' : st.idle) :
      Move .plain v (v.cancel.enter st)
  /-- The lower layer goes away under an open link. -/
  | lost {v : View} (h : v.state = .opened) : Move .plain v ((v.say .down).enter .starting)
  | close {v : View} {id : UInt8} (h : v.state.negotiating) :
      Move .plain v ((v.cancel.terminate id).enter .closing)
  /-- An open link is closed, by us or by a Protocol-Reject. -/
  | closeOpened {v : View} {st : FsmState} {id : UInt8} (h : v.state = .opened)
      (h' : st.terminating) : Move .plain v (((v.say .down).terminate id).enter st)
  /-- The restart timer expires, a Terminate-Request is repeated. -/
  | reterminate {v : View} {id : UInt8} (h : v.state.terminating) :
      Move .plain v (v.cancel.terminate id)
  /-- The restart timer expires, a Configure-Request is repeated. -/
  | rerequest {v : View} {st : FsmState} {data : List UInt8} {hello : Bool}
      (h : v.state.negotiating) (h' : st = if v.state = .ackrcvd then .reqsent else v.state) :
      Move .plain v ((v.cancel.request true v.reqid data hello).enter st)
  | stray {v : View} (h : v.state.timed = false) : Move .stray v v.cancel
  /-- A packet that changes nothing. A Configure-Request is one only when we
  are closed or about to be. -/
  | ignore {v : View} {p : CpPacket}
      (h : p.code = confreq → v.state = .closed ∨ v.state.terminating) :
      Move .plain v (v.say (.rcvd p))
  /-- A packet of ours that has no part in the handshake. -/
  | reply {v : View} {q : CpPacket} (h : q.code = termack ∨ q.code = coderej ∨ q.code = echorep) :
      Move .plain v (v.say (.sent q))
  /-- A Configure-Request during the negotiation. -/
  | answer {v : View} {p : CpPacket} {c : ConfCode} {data : List UInt8}
      (hp : p.code = confreq) (h : v.state.negotiating) :
      Move .plain v ((v.say (.rcvd p)).answer c p.id data)
  /-- A Configure-Request restarts the negotiation of an open link. -/
  | renegotiate {v : View} {p : CpPacket} {c : ConfCode} {data : List UInt8}
      {id : UInt8} {data' : List UInt8} {hello : Bool}
      (hp : p.code = confreq) (h : v.state = .opened) :
      Move .plain v
        (((((v.say (.rcvd p)).say .down).request false id data' hello).enter .reqsent).answer
          c p.id data)
  /-- A Configure-Request starts a negotiation. -/
  | invite {v : View} {p : CpPacket} {c : ConfCode} {data : List UInt8}
      {id : UInt8} {data' : List UInt8} {hello : Bool}
      (hp : p.code = confreq) (h : v.state = .stopped) :
      Move .plain v
        ((((v.say (.rcvd p)).request false id data' hello).enter .reqsent).answer c p.id data)
  /-- Start over but keep trying. -/
  | demote {v : View} {p : CpPacket} (hp : p.code ≠ confreq)
      (h : v.state = .ackrcvd ∨ v.state = .acksent) :
      Move .plain v ((v.say (.rcvd p)).enter .reqsent)
  /-- A Terminate-Request takes an open link down. -/
  | terminated {v : View} {p : CpPacket} (hp : p.code ≠ confreq) (h : v.state = .opened) :
      Move .plain v ((((v.say (.rcvd p)).say .down).enter .stopping).arm)
  /-- A reply comes when there is no negotiation. -/
  | late {v : View} {p : CpPacket} (hp : replyCode p.code) (hid : p.id = v.reqid)
      (h : v.state.idle ∨ v.state.terminating) : Move .reply v (v.take p)
  | acked {v : View} {p : CpPacket} (hp : p.code = confack) (hid : p.id = v.reqid)
      (h : v.state = .reqsent) : Move .reply v ((v.take p).enter .ackrcvd)
  | ackedUp {v : View} {p : CpPacket} (hp : p.code = confack) (hid : p.id = v.reqid)
      (h : v.state = .acksent) : Move .reply v ((((v.take p).cancel).enter .opened).say .up)
  | nakked {v : View} {p : CpPacket} {id : UInt8} {data : List UInt8} {hello : Bool}
      (hp : replyCode p.code) (hid : p.id = v.reqid)
      (h : v.state = .reqsent ∨ v.state = .acksent) :
      Move .reply v ((v.take p).cancel.request false id data hello)
  /-- A reply reopens the negotiation of an open link. -/
  | reopen {v : View} {p : CpPacket} {id : UInt8} {data : List UInt8} {hello : Bool}
      (hp : replyCode p.code) (hid : p.id = v.reqid) (h : v.state = .opened) :
      Move .reply v ((((v.take p).say .down).request false id data hello).enter .reqsent)
  /-- "Huh? an extra Ack?": a new request, with the old timer still running. -/
  | extra {v : View} {p : CpPacket} {id : UInt8} {data : List UInt8} {hello : Bool}
      (hp : replyCode p.code) (hid : p.id = v.reqid) (h : v.state = .ackrcvd) :
      Move .extraReply v (((v.take p).request false id data hello).enter .reqsent)
  /-- Termination is acknowledged, with the timer still running. -/
  | done {v : View} {p : CpPacket} {st : FsmState} (hp : p.code = termack)
      (h : v.state.terminating) (h' : st.idle) : Move .termack v ((v.say (.rcvd p)).enter st)
  /-- A Terminate-Ack on an open link: down and a new request, and the control
  state stays. -/
  | slip {v : View} {p : CpPacket} {id : UInt8} {data : List UInt8} {hello : Bool}
      (hp : p.code = termack) (h : v.state = .opened) :
      Move .termackOpened v (((v.say (.rcvd p)).say .down).request false id data hello)

/-- Any number of untagged moves. -/
def Plain : View → View → Prop := ReflTransGen (Move .plain)

/-- A move of the given kind and any number of untagged ones after it. -/
def Path (t : Tag) (v v' : View) : Prop := ∃ v₁, Move t v v₁ ∧ Plain v₁ v'

section

variable {t : Tag} {v v₁ v' v'' : View}

theorem Plain.of_move (h : Move .plain v v') : Plain v v' := .single h

theorem Plain.trans (h : Plain v v') (h' : Plain v' v'') : Plain v v'' :=
  ReflTransGen.trans h h'

theorem Path.of_move (h : Move t v v') : Path t v v' := ⟨v', h, .refl⟩

theorem Path.of_plain (h : Plain v v') : Path .plain v v' := ⟨v, .stay, h⟩

theorem Path.trans (h : Path t v v') (h' : Plain v' v'') : Path t v v'' :=
  let ⟨v₁, hm, hp⟩ := h
  ⟨v₁, hm, hp.trans h'⟩

/-- What untagged moves preserve, a sequence of them preserves. -/
theorem Plain.preserves {I : View → Prop}
    (hI : ∀ v v', Move .plain v v' → I v → I v') (h : Plain v v') (hv : I v) : I v' := by
  induction h with
  | refl => exact hv
  | tail _ hm ih => exact hI _ _ hm ih

end

/-! ## The functions of `fsm.c` in terms of moves -/

section

variable {σ : Type} (pr : Protocol σ) (w : World σ)

@[simp] theorem view_setState (st : FsmState) :
    (pr.port.setState st w).view = w.view.enter st := rfl

@[simp] theorem view_timeout : (pr.port.timeout w).view = w.view.arm := rfl

@[simp] theorem view_untimeout : (pr.port.untimeout w).view = w.view.cancel := rfl

@[simp] theorem view_goDown : (goDown pr.port pr.lower w).view = w.view.say .down := rfl

@[simp] theorem view_note (e : FsmEvent) : (pr.port.note e w).view = w.view.say e := rfl

@[simp] theorem view_sdata (code id : UInt8) (data : List UInt8) :
    (fsmSdata pr.port code id data w).view =
      w.view.say (.sent ⟨code, id, cut pr w data⟩) := rfl

@[simp] theorem view_starting : (pr.lower.starting w).view = w.view := rfl

/-- The octets of a request as they went out. -/
def reqData (retransmit : Bool) : List UInt8 :=
  (request pr retransmit w).2.take
    (pr.peerMru (request pr retransmit w).1 - headerlen).toNat

@[simp] theorem view_sconfreq (retransmit : Bool) :
    (fsmSconfreq pr.port pr.lower retransmit w).view =
      w.view.request retransmit (if retransmit then w.f.reqid else w.f.id + 1)
        (reqData pr w retransmit) (pr.hello (resetEnv pr w)) := by
  rw [fsmSconfreq_eq]
  rfl

@[simp] theorem view_stermreq :
    (fsmStermreq pr.port w).view = w.view.terminate (w.f.id + 1) := by
  rw [fsmStermreq_eq]
  rfl

/-- A test on the control state is decided by the branch we are in. -/
theorem state_of {pr : Protocol σ} {w : World σ} {Q : FsmState → Bool} {st : FsmState}
    (h : pr.port.state w = st) (hQ : Q st = true) : Q w.view.state = true := by
  rw [show w.view.state = st from h, hQ]

theorem fsmLowerup_plain : Plain w.view (fsmLowerup pr.port pr.lower w).view := by
  unfold fsmLowerup
  split
  · next h => exact .of_move (.idle (state_of h rfl) rfl)
  · next h =>
      have hi : w.view.state.idle := state_of h rfl
      split
      · exact .of_move (.idle hi rfl)
      · rw [view_setState, view_sconfreq]
        exact .of_move (.start hi)
  · exact .refl

theorem fsmLowerdown_plain : Plain w.view (fsmLowerdown pr.port pr.lower w).view := by
  unfold fsmLowerdown
  split
  · next h => exact .of_move (.idle (state_of h rfl) rfl)
  · next h => exact .of_move (.idle (state_of h rfl) rfl)
  · next h => exact .of_move (.halt (state_of h rfl) rfl)
  iterate 4
    next h => exact .of_move (.halt (state_of h rfl) rfl)
  · next h => exact .of_move (.lost h)
  · exact .refl
  · exact .refl

theorem fsmOpen_plain : Plain w.view (fsmOpen pr.port pr.lower w).view := by
  have restart : ∀ w : World σ, Plain w.view
      (if (pr.port.fsm w).flags.restart then
        fsmLowerup pr.port pr.lower (fsmLowerdown pr.port pr.lower w) else w).view := by
    intro w
    split
    · exact (fsmLowerdown_plain pr w).trans (fsmLowerup_plain pr _)
    · exact .refl
  unfold fsmOpen
  split
  · next h => exact .of_move (.idle (state_of h rfl) rfl)
  · next h =>
      have hi : w.view.state.idle := state_of h rfl
      split
      · exact .of_move (.idle hi rfl)
      · rw [view_setState, view_sconfreq]
        exact .of_move (.start hi)
  · next h =>
      have hs : Plain w.view (pr.port.setState .stopping w).view :=
        .of_move (.swap (state_of h rfl) rfl)
      exact hs.trans (restart _)
  · exact restart w
  · exact restart w
  all_goals exact .refl

theorem fsmClose_plain : Plain w.view (fsmClose pr.port pr.lower w).view := by
  unfold fsmClose
  split
  · next h => exact .of_move (.idle (state_of h rfl) rfl)
  · next h => exact .of_move (.idle (state_of h rfl) rfl)
  · next h => exact .of_move (.swap (state_of h rfl) rfl)
  iterate 3
    next h =>
      rw [if_pos (by rw [h]; decide), view_setState, view_stermreq]
      exact .of_move (.close (state_of h rfl))
  · next h =>
      rw [if_neg (by rw [h]; decide), view_setState, view_stermreq]
      exact .of_move (.closeOpened h rfl)
  all_goals exact .refl

/-- A callback that may reopen the link runs last. -/
theorem Plain.finished {v : View} (h : Plain v w.view) : Plain v (pr.gotFinished w).view := by
  refine h.trans ?_
  simp only [Protocol.gotFinished]
  split
  · exact fsmOpen_plain pr { w with env := (pr.finished w.f w.env).2 }
  · exact .refl

/-- So does one that may close it. -/
theorem Plain.goneUp {v : View} (h : Plain v w.view) : Plain v (pr.goneUp w).view := by
  refine h.trans ?_
  simp only [Protocol.goneUp]
  split
  · exact fsmClose_plain pr { w with env := (pr.up w.f w.env).2 }
  · exact .refl

/-- Only the finished callback matters to `fsm_protreject`, so that it may be
called from the callback for unknown codes. -/
theorem fsmProtreject_plain {cb : Callbacks (World σ)} (hl : cb.toLowerCallbacks = pr.lower)
    (hf : cb.finished = pr.gotFinished) :
    Plain w.view (fsmProtreject pr.port cb w).view := by
  unfold fsmProtreject
  rw [hl, hf]
  split
  · next h => exact Plain.finished pr _ (.of_move (.halt (state_of h rfl) rfl))
  · next h => exact Plain.finished pr _ (.of_move (.idle (state_of h rfl) rfl))
  iterate 4
    next h => exact Plain.finished pr _ (.of_move (.halt (state_of h rfl) rfl))
  · next h => exact Plain.finished pr _ (.of_move (.idle (state_of h rfl) rfl))
  · next h =>
      rw [view_setState, view_stermreq]
      exact .of_move (.closeOpened h rfl)
  all_goals exact .refl

/-- The request is repeated under its old id. -/
theorem retransmit_plain (hn : w.view.state.negotiating) :
    let u := fsmSconfreq pr.port pr.lower true (pr.callbacks.retransmit
      { w with pending := w.pending - 1 })
    Plain w.view (if pr.port.state u = .ackrcvd then pr.port.setState .reqsent u else u).view := by
  intro u
  have hu : u.view = w.view.cancel.request true w.view.reqid (reqData pr _ true)
      (pr.hello (resetEnv pr _)) := view_sconfreq pr _ true
  have hs : pr.port.state u = w.view.state := congrArg View.state hu
  split
  · next h =>
      rw [view_setState, hu]
      exact .of_move (.rerequest hn (if_pos (hs ▸ h)).symm)
  · next h =>
      rw [hu]
      exact .of_move (.rerequest hn (if_neg (hs ▸ h)).symm)

theorem fsmTimeout_plain (ht : w.view.state.timed) :
    Plain w.view (fsmTimeout pr.port pr.callbacks { w with pending := w.pending - 1 }).view := by
  unfold fsmTimeout
  split
  iterate 2
    next h =>
      replace h : pr.port.state w = _ := h
      split
      · refine Plain.finished pr _ (.of_move (.halt ht ?_))
        rw [port_setState]
        dsimp only
        split <;> rfl
      · rw [view_stermreq]
        exact .of_move (.reterminate (state_of h rfl))
  iterate 3
    next h =>
      replace h : pr.port.state w = _ := h
      split
      · have hm : Move .plain w.view (w.view.cancel.enter .stopped) := .halt ht rfl
        dsimp only
        split
        · exact .of_move hm
        · exact Plain.finished pr _ (.of_move hm)
      · exact retransmit_plain pr w (state_of h rfl)
  · next h₁ h₂ h₃ h₄ h₅ =>
      cases h : w.view.state with
      | closing => exact absurd h h₁
      | stopping => exact absurd h h₂
      | reqsent => exact absurd h h₃
      | ackrcvd => exact absurd h h₄
      | acksent => exact absurd h h₅
      | _ => rw [h] at ht; cases ht

theorem fsmTimeout_stray (ht : w.view.state.timed = false) :
    Move .stray w.view
      (fsmTimeout pr.port pr.callbacks { w with pending := w.pending - 1 }).view := by
  have hw : fsmTimeout pr.port pr.callbacks { w with pending := w.pending - 1 } =
      { w with pending := w.pending - 1 } := by
    unfold fsmTimeout
    split
    iterate 5
      next h => rw [show w.view.state = _ from h] at ht; cases ht
    · rfl
  rw [hw]
  exact .stray ht

/-! ### Packets -/

theorem rconfreqMove_plain {v : View} {c : ConfCode} (h : Plain v (w.view.settle c)) :
    Plain v (rconfreqMove pr.port pr.callbacks c w).view := by
  rw [View.settle] at h
  rw [rconfreqMove]
  by_cases hack : c = .ack
  · rw [if_pos hack] at h ⊢
    by_cases hr : pr.port.state w = .ackrcvd
    · rw [if_pos (show w.view.state = _ from hr)] at h
      rw [if_pos hr]
      exact Plain.goneUp pr _ h
    · rw [if_neg (show ¬ w.view.state = _ from hr)] at h
      rw [if_neg hr]
      exact h
  · rw [if_neg hack] at h ⊢
    by_cases hr : pr.port.state w = .ackrcvd
    · rw [if_pos (show w.view.state = _ from hr)] at h
      rw [if_neg (not_not.mpr hr)]
      dsimp only
      split <;> exact h
    · rw [if_neg (show ¬ w.view.state = _ from hr)] at h
      rw [if_pos hr]
      dsimp only
      split <;> exact h

/-- Answering a Configure-Request, wherever the control state stood when the
answer was worked out. -/
theorem rconfreqReply_plain {v : View} (id : UInt8) (inp : List UInt8)
    (h : ∀ c data, Plain v (w.view.answer c id data)) :
    Plain v (rconfreqReply pr.port pr.callbacks id inp w).view := by
  obtain ⟨c, data, env, hc⟩ := checkReq_eq pr w inp
  rw [rconfreqReply]
  rw [hc]
  exact rconfreqMove_plain pr _ (h c (cut pr { w with env := env } data))

/-- A packet that gets past the header check, on the history. -/
def World.hear (w : World σ) (p : CpPacket) : World σ := { w with log := .rcvd p :: w.log }

theorem fsmRconfreq_plain {p : CpPacket} (hp : p.code = confreq)
    (hi : w.f.state ≠ .initial) (hs : w.f.state ≠ .starting) :
    Plain w.view (fsmRconfreq pr.port pr.callbacks p.id p.data (w.hear p)).view := by
  unfold fsmRconfreq
  split
  · next h =>
      have hm : Plain w.view (w.hear p).view := .of_move (.ignore fun _ => .inl h)
      exact hm.trans (.of_move (.reply (.inl rfl)))
  iterate 2
    next h =>
      replace h : pr.port.state w = _ := h
      exact .of_move (.ignore fun _ => .inr (state_of h rfl))
  · next h =>
      refine rconfreqReply_plain pr _ _ _ ?_
      intro c data
      rw [callbacks_lower, view_sconfreq, ← View.answer_enter (show _ = FsmState.opened from h)]
      exact .of_move (.renegotiate hp h)
  · next h =>
      refine rconfreqReply_plain pr _ _ _ ?_
      intro c data
      rw [callbacks_lower, view_setState, view_sconfreq]
      exact .of_move (.invite hp h)
  · next h₁ h₂ h₃ h₄ h₅ =>
      refine rconfreqReply_plain pr _ _ _ ?_
      intro c data
      refine .of_move (.answer hp ?_)
      cases h : w.f.state with
      | reqsent | ackrcvd | acksent => exact state_of (show pr.port.state w = _ from h) rfl
      | initial => exact absurd h hi
      | starting => exact absurd h hs
      | closed => exact absurd h h₁
      | closing => exact absurd h h₂
      | stopping => exact absurd h h₃
      | opened => exact absurd h h₄
      | stopped => exact absurd h h₅

/-- The call takes the packet as the reply to our request. -/
def accepts (w : World σ) (p : CpPacket) : Bool :=
  decide (replyCode p.code) && p.id == w.f.reqid && (pr.judge p w.f w.env).1

theorem accepts_id {p : CpPacket} (h : accepts pr w p = true) : p.id = w.f.reqid := by
  simp only [accepts, Bool.and_eq_true, beq_iff_eq] at h
  exact h.1.2

theorem accepts_judge {p : CpPacket} (h : accepts pr w p = true) :
    (pr.judge p w.f w.env).1 = true := by
  simp only [accepts, Bool.and_eq_true] at h
  exact h.2

/-- A reply that is not taken is tossed. -/
theorem refused_judge {p : CpPacket} (hp : replyCode p.code) (h : accepts pr w p = false)
    (hid : p.id = w.f.reqid) : (pr.judge p w.f w.env).1 = false := by
  simpa [accepts, hp, hid] using h

theorem fsmRconfack_refused {p : CpPacket} (hp : p.code = confack)
    (h : accepts pr w p = false) :
    Plain w.view (fsmRconfack pr.port pr.callbacks p.id p.data (w.hear p)).view := by
  have hm : Plain w.view (w.hear p).view :=
    .of_move (.ignore fun hq => absurd (hp.symm.trans hq) (by decide))
  unfold fsmRconfack
  split
  · exact hm
  · next hid =>
      have hj := refused_judge pr w (.inl hp) h (not_not.mp hid)
      have hj' : (pr.judge p (w.hear p).f (w.hear p).env).1 = false := hj
      rw [checkAck_eq pr _ hp]
      dsimp only
      rw [hj']
      exact hm

theorem fsmRconfnakrej_refused {p : CpPacket} (hp : p.code = confnak ∨ p.code = confrej)
    (h : accepts pr w p = false) :
    Plain w.view (fsmRconfnakrej pr.port pr.callbacks p.code p.id p.data (w.hear p)).view := by
  have hna : p.code ≠ confack := by rcases hp with hp | hp <;> rw [hp] <;> decide
  have hm : Plain w.view (w.hear p).view := by
    refine .of_move (.ignore fun hq => absurd hq ?_)
    rcases hp with hp | hp <;> rw [hp] <;> decide
  unfold fsmRconfnakrej
  split
  · exact hm
  · next hid =>
      have hj := refused_judge pr w (.inr hp) h (not_not.mp hid)
      have hj' : (pr.judge p (w.hear p).f (w.hear p).env).1 = false := hj
      rw [checkNakrej_eq pr _ hna]
      dsimp only
      rw [hj']
      exact hm

/-- The kind of move a taken reply makes. -/
def replyTag (st : FsmState) : Tag := if st = .ackrcvd then .extraReply else .reply

theorem fsmRconfack_accepted {p : CpPacket} (hp : p.code = confack)
    (h : accepts pr w p = true) :
    Path (replyTag (pr.port.state w)) w.view
      (fsmRconfack pr.port pr.callbacks p.id p.data (w.hear p)).view := by
  have hid : p.id = (pr.port.fsm (w.hear p)).reqid := accepts_id pr w h
  have hj : (pr.judge p (w.hear p).f (w.hear p).env).1 = true := accepts_judge pr w h
  unfold fsmRconfack
  rw [if_neg (not_not.mpr hid), checkAck_eq pr _ hp]
  dsimp only
  rw [hj, if_neg (by decide)]
  generalize hT : pr.port.modify _ _ = T
  have hv : T.view = w.view.take p := by
    rw [← hT, View.take, hp]
    rfl
  have hst : ∀ {st : FsmState}, pr.port.state T = st → pr.port.state w = st :=
    fun hs => (congrArg View.state hv).symm.trans hs
  split
  iterate 2
    next hs =>
      rw [hst hs]
      refine Path.trans ⟨_, .late (.inl hp) hid (.inl (state_of (hst hs) rfl)), .refl⟩ ?_
      rw [view_sdata, hv]
      exact .of_move (.reply (.inl rfl))
  · next hs =>
      rw [hst hs]
      have hm : Move .reply w.view (T.view.enter .ackrcvd) := by
        rw [hv]
        exact .acked hp hid (hst hs)
      exact .of_move hm
  · next hs =>
      rw [hst hs, callbacks_lower, view_setState, view_sconfreq, hv]
      exact .of_move (.extra (.inl hp) hid (hst hs))
  · next hs =>
      rw [hst hs]
      refine ⟨((T.view.cancel).enter .opened).say .up, ?_, Plain.goneUp pr _ .refl⟩
      rw [hv]
      exact .ackedUp hp hid (hst hs)
  · next hs =>
      rw [hst hs, callbacks_lower, view_setState, view_sconfreq, view_goDown, hv]
      exact .of_move (.reopen (.inl hp) hid (hst hs))
  iterate 2
    next hs =>
      rw [hst hs, hv]
      exact .of_move (.late (.inl hp) hid (.inl (state_of (hst hs) rfl)))
  iterate 2
    next hs =>
      rw [hst hs, hv]
      exact .of_move (.late (.inl hp) hid (.inr (state_of (hst hs) rfl)))

theorem fsmRconfnakrej_accepted {p : CpPacket} (hp : p.code = confnak ∨ p.code = confrej)
    (h : accepts pr w p = true) :
    Path (replyTag (pr.port.state w)) w.view
      (fsmRconfnakrej pr.port pr.callbacks p.code p.id p.data (w.hear p)).view := by
  have hna : p.code ≠ confack := by rcases hp with hp | hp <;> rw [hp] <;> decide
  have hid : p.id = (pr.port.fsm (w.hear p)).reqid := accepts_id pr w h
  have hj : (pr.judge p (w.hear p).f (w.hear p).env).1 = true := accepts_judge pr w h
  unfold fsmRconfnakrej
  rw [if_neg (not_not.mpr hid), checkNakrej_eq pr _ hna]
  dsimp only
  rw [hj, if_neg (by decide)]
  generalize hT : pr.port.modify _ _ = T
  have hv : T.view = w.view.take p := by
    rw [← hT]
    rfl
  have hst : ∀ {st : FsmState}, pr.port.state T = st → pr.port.state w = st :=
    fun hs => (congrArg View.state hv).symm.trans hs
  split
  iterate 2
    next hs =>
      rw [hst hs]
      refine Path.trans ⟨_, .late (.inr hp) hid (.inl (state_of (hst hs) rfl)), .refl⟩ ?_
      rw [view_sdata, hv]
      exact .of_move (.reply (.inl rfl))
  · next hs =>
      rw [hst hs, callbacks_lower, view_sconfreq, view_untimeout, hv]
      exact .of_move (.nakked (.inr hp) hid (.inl (hst hs)))
  · next hs =>
      rw [hst hs, callbacks_lower, view_sconfreq, view_untimeout, hv]
      exact .of_move (.nakked (.inr hp) hid (.inr (hst hs)))
  · next hs =>
      rw [hst hs, callbacks_lower, view_setState, view_sconfreq, hv]
      exact .of_move (.extra (.inr hp) hid (hst hs))
  · next hs =>
      rw [hst hs, callbacks_lower, view_setState, view_sconfreq, view_goDown, hv]
      exact .of_move (.reopen (.inr hp) hid (hst hs))
  iterate 2
    next hs =>
      rw [hst hs, hv]
      exact .of_move (.late (.inr hp) hid (.inl (state_of (hst hs) rfl)))
  iterate 2
    next hs =>
      rw [hst hs, hv]
      exact .of_move (.late (.inr hp) hid (.inr (state_of (hst hs) rfl)))

theorem fsmRtermreq_plain {p : CpPacket} (hp : p.code ≠ confreq) :
    Plain w.view (fsmRtermreq pr.port pr.callbacks p.id (w.hear p)).view := by
  have hm : Plain w.view (w.hear p).view := .of_move (.ignore fun hq => absurd hq hp)
  have ha : ∀ u : World σ, Plain u.view (fsmSdata pr.port termack p.id [] u).view :=
    fun u => .of_move (.reply (.inl rfl))
  unfold fsmRtermreq
  refine Plain.trans ?_ (ha _)
  split
  · next h => exact .of_move (.demote hp (.inl h))
  · next h => exact .of_move (.demote hp (.inr h))
  · next h => exact .of_move (.terminated hp h)
  · exact hm

/-- The kind of move a Terminate-Ack makes. -/
def termackTag (st : FsmState) : Tag :=
  if st = .opened then .termackOpened
  else if st.terminating then .termack
  else .plain

theorem fsmRtermack_path {p : CpPacket} (hp : p.code = termack) :
    Path (termackTag (pr.port.state w)) w.view
      (fsmRtermack pr.port pr.callbacks (w.hear p)).view := by
  have hne : p.code ≠ confreq := by rw [hp]; decide
  unfold fsmRtermack
  split
  iterate 2
    next h =>
      replace h : pr.port.state w = _ := h
      rw [h]
      exact ⟨_, .done hp (state_of h rfl) rfl, Plain.finished pr _ .refl⟩
  · next h =>
      replace h : pr.port.state w = _ := h
      rw [h]
      exact .of_move (.demote hne (.inl h))
  · next h =>
      replace h : pr.port.state w = _ := h
      rw [h, callbacks_lower, view_sconfreq]
      exact .of_move (.slip hp h)
  · next h₁ h₂ h₃ h₄ =>
      have ht : termackTag (pr.port.state w) = .plain := by
        cases h : pr.port.state w with
        | closing => exact absurd h h₁
        | stopping => exact absurd h h₂
        | opened => exact absurd h h₄
        | _ => rfl
      rw [ht]
      exact .of_move (.ignore fun hq => absurd hq hne)

theorem fsmRcoderej_plain {p : CpPacket} (hp : p.code ≠ confreq) :
    Plain w.view (fsmRcoderej pr.port p.data (w.hear p)).view := by
  have hm : Plain w.view (w.hear p).view := .of_move (.ignore fun hq => absurd hq hp)
  rw [fsmRcoderej]
  split
  · exact hm
  · split
    · next h => exact .of_move (.demote hp (.inl h))
    · exact hm

theorem checkExt_plain (p : CpPacket) :
    Plain w.view (checkExt pr.callbacks p w).2.view := by
  simp only [checkExt, Protocol.callbacks]
  cases pr.extcode with
  | none => exact .refl
  | some extcode =>
      dsimp only [Option.map]
      split
      · exact .refl
      · exact .refl
      · exact .of_move (.reply (.inr (.inr rfl)))
      · exact fsmProtreject_plain pr { w with env := (extcode w.f w.env p).2 } rfl rfl

/-- The kind of move an accepted packet makes. -/
def packetTag (p : CpPacket) : Tag :=
  if accepts pr w p then replyTag (pr.port.state w)
  else if p.code = termack then termackTag (pr.port.state w)
  else .plain

theorem not_accepts {p : CpPacket} (hp : ¬ replyCode p.code) : accepts pr w p = false := by
  simp [accepts, hp]

theorem packetTag_other {p : CpPacket} (hp : ¬ replyCode p.code) (ht : p.code ≠ termack) :
    packetTag pr w p = .plain := by
  simp [packetTag, not_accepts pr w hp, ht]

theorem fsmDispatch_path {p : CpPacket} (hi : w.f.state ≠ .initial)
    (hs : w.f.state ≠ .starting) :
    Path (packetTag pr w p) w.view (fsmDispatch pr.port pr.callbacks p (w.hear p)).view := by
  rw [fsmDispatch]
  by_cases h₁ : p.code = confreq
  · rw [if_pos h₁, packetTag_other pr w (by rw [h₁]; decide) (by rw [h₁]; decide)]
    exact .of_plain (fsmRconfreq_plain pr w h₁ hi hs)
  rw [if_neg h₁]
  by_cases h₂ : p.code = confack
  · rw [if_pos h₂]
    cases ha : accepts pr w p with
    | true =>
        rw [packetTag, ha, if_pos rfl]
        exact fsmRconfack_accepted pr w h₂ ha
    | false =>
        rw [packetTag, ha, if_neg (by decide), if_neg (by rw [h₂]; decide)]
        exact .of_plain (fsmRconfack_refused pr w h₂ ha)
  rw [if_neg h₂]
  by_cases h₃ : p.code = confnak ∨ p.code = confrej
  · rw [if_pos h₃]
    have hnt : p.code ≠ termack := by rcases h₃ with h | h <;> rw [h] <;> decide
    cases ha : accepts pr w p with
    | true =>
        rw [packetTag, ha, if_pos rfl]
        exact fsmRconfnakrej_accepted pr w h₃ ha
    | false =>
        rw [packetTag, ha, if_neg (by decide), if_neg hnt]
        exact .of_plain (fsmRconfnakrej_refused pr w h₃ ha)
  rw [if_neg h₃]
  have hr : ¬ replyCode p.code := by
    rintro (h | h)
    · exact h₂ h
    · exact h₃ h
  by_cases h₅ : p.code = termack
  · rw [if_neg (by rw [h₅]; decide), if_pos h₅, packetTag, not_accepts pr w hr,
      if_neg (by decide), if_pos h₅]
    exact fsmRtermack_path pr w h₅
  rw [packetTag_other pr w hr h₅]
  apply Path.of_plain
  split
  · exact fsmRtermreq_plain pr w h₁
  split
  · exact fsmRcoderej_plain pr w h₁
  · have hw : Plain w.view (w.hear p).view := .of_move (.ignore fun hq => absurd hq h₁)
    have hm := hw.trans (checkExt_plain pr (w.hear p) p)
    dsimp only
    split
    · exact hm
    · exact hm.trans (.of_move (.reply (.inr (.inl rfl))))

/-! ## The kind of a call -/

/-- The packet a call brings in, if its header is accepted and the lower layer
is up. -/
def arrival : FsmCall → Option CpPacket
  | .input inpacket =>
      if w.f.state = .initial ∨ w.f.state = .starting then none else parseHeader inpacket
  | _ => none

/-- The kind of move a call makes first. -/
def callTag (c : FsmCall) : Tag :=
  match arrival w c with
  | some p => packetTag pr w p
  | none => if c = .timeout ∧ w.view.state.timed = false then .stray else .plain

theorem callTag_none {c : FsmCall} (h : arrival w c = none) (hc : c ≠ .timeout) :
    callTag pr w c = .plain := by
  simp [callTag, h, hc]

theorem callTag_some {c : FsmCall} {p : CpPacket} (h : arrival w c = some p) :
    callTag pr w c = packetTag pr w p := by
  simp [callTag, h]

theorem fsmInput_path (inpacket : List UInt8) :
    Path (callTag pr w (.input inpacket)) w.view
      (fsmInput pr.port pr.callbacks inpacket w).view := by
  by_cases hst : pr.port.state w = .initial ∨ pr.port.state w = .starting
  · have hst' : w.f.state = .initial ∨ w.f.state = .starting := hst
    have ha : arrival w (.input inpacket) = none := by simp only [arrival, if_pos hst']
    rw [callTag_none pr w ha (by simp)]
    unfold fsmInput
    split
    · exact .of_plain .refl
    · rw [if_pos hst]
      exact .of_plain .refl
  · have hst' : ¬ (w.f.state = .initial ∨ w.f.state = .starting) := hst
    have ha : arrival w (.input inpacket) = parseHeader inpacket := by
      simp only [arrival, if_neg hst']
    unfold fsmInput
    cases hp : parseHeader inpacket with
    | none =>
        rw [callTag_none pr w (ha.trans hp) (by simp)]
        exact .of_plain .refl
    | some p =>
        dsimp only
        rw [callTag_some pr w (ha.trans hp), if_neg hst]
        rw [not_or] at hst'
        exact fsmDispatch_path pr w hst'.1 hst'.2

/-- Every call is a move of its kind and untagged moves after it. -/
theorem step_path (c : FsmCall) : Path (callTag pr w c) w.view (pr.step w c).view := by
  cases c with
  | lowerup => exact .of_plain (fsmLowerup_plain pr w)
  | lowerdown => exact .of_plain (fsmLowerdown_plain pr w)
  | «open» => exact .of_plain (fsmOpen_plain pr w)
  | close => exact .of_plain (fsmClose_plain pr w)
  | timeout =>
      cases ht : w.view.state.timed with
      | true =>
          have hc : callTag pr w .timeout = .plain := by simp [callTag, arrival, ht]
          rw [hc]
          exact .of_plain (fsmTimeout_plain pr w ht)
      | false =>
          have hc : callTag pr w .timeout = .stray := by simp [callTag, arrival, ht]
          rw [hc]
          exact .of_move (fsmTimeout_stray pr w ht)
  | input inpacket => exact fsmInput_path pr w inpacket
  | protreject => exact .of_plain (fsmProtreject_plain pr w rfl rfl)
  | config flags timeouttime maxconfreq maxterm maxnak => exact .of_plain .refl

/-- A Terminate-Ack arrives. -/
def termackArrives (c : FsmCall) : Prop := ∃ p, arrival w c = some p ∧ p.code = termack

/-- A reply arrives that is taken as the reply to our request. -/
def replyArrives (c : FsmCall) : Prop := ∃ p, arrival w c = some p ∧ accepts pr w p = true

/-- No packet is both. -/
theorem not_termackArrives {c : FsmCall} (h : replyArrives pr w c) : ¬ termackArrives w c := by
  rintro ⟨q, hq, ht⟩
  obtain ⟨p, hp, ha⟩ := h
  rw [hp] at hq
  obtain rfl : p = q := by simpa using hq
  have hr : ¬ replyCode p.code := by rw [ht]; decide
  rw [not_accepts pr w hr] at ha
  cases ha

theorem callTag_cases (c : FsmCall) :
    (replyArrives pr w c ∧ callTag pr w c = replyTag w.f.state) ∨
    (termackArrives w c ∧ ¬ replyArrives pr w c ∧ callTag pr w c = termackTag w.f.state) ∨
    (¬ replyArrives pr w c ∧ ¬ termackArrives w c ∧
      (callTag pr w c = .plain ∨ callTag pr w c = .stray)) := by
  unfold replyArrives termackArrives callTag
  cases arrival w c with
  | none => by_cases h : c = .timeout ∧ w.view.state.timed = false <;> simp [h]
  | some p =>
      cases ha : accepts pr w p with
      | true => exact .inl ⟨⟨p, rfl, ha⟩, by simp [packetTag, ha]⟩
      | false => by_cases ht : p.code = termack <;> simp [packetTag, ha, ht]

/-- A Terminate-Ack on an open link is a single move: `fsm_rtermack` ends
there. -/
theorem step_slip {c : FsmCall} (hs : w.f.state = .opened) (h : termackArrives w c) :
    Move .termackOpened w.view (pr.step w c).view := by
  obtain ⟨p, ha, hp⟩ := h
  have hns : ¬ (w.f.state = .initial ∨ w.f.state = .starting) := by rw [hs]; decide
  cases c with
  | input inpacket =>
      simp only [arrival, if_neg hns] at ha
      have hd : pr.step w (.input inpacket) = fsmRtermack pr.port pr.callbacks (w.hear p) := by
        simp only [Protocol.step, fsmInput, ha]
        rw [if_neg (show ¬ (pr.port.state w = .initial ∨ pr.port.state w = .starting) from hns)]
        rw [fsmDispatch]
        rw [if_neg (by rw [hp]; decide), if_neg (by rw [hp]; decide), if_neg (by rw [hp]; decide),
          if_neg (by rw [hp]; decide), if_pos hp]
        rfl
      have hst : pr.port.state (w.hear p) = .opened := hs
      rw [hd, fsmRtermack]
      simp only [hst, callbacks_lower, view_sconfreq]
      exact .slip hp hs
  | _ => cases ha

end

end VxWorks.Ppp
