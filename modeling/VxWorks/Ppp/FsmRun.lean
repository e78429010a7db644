import VxWorks.Lib.Run
import VxWorks.Ppp.Fsm

/-!
# The automaton by itself

`World` is the smallest state the automaton can live in: its own record, the
number of `fsm_timeout` callouts pending for it, the history, and whatever the
protocol keeps. `Protocol` is the protocol's half, arbitrary up to what the two
real ones are able to do: every callback sees the record and acts on the
protocol's own options, and on top of that the up callback may close the link
again, the finished callback may reopen it and the callback for unknown codes
may answer or report that the peer rejects the protocol. These re-entries
are the ones of `ipcp_up`, `lcp_finished` and `lcp_extcode`.

`FsmCall` lists what can happen to an automaton from outside, `step` runs one
such call, and a run is a list of them from `fsm_init` on. The `config` call is
not a function of `fsm.c`: it stands for the assignments to the record that its
owners make (`lcp_open` sets the flags, the option parser sets the limits).
-/

namespace VxWorks.Ppp

open VxWorks.Lib

structure World (σ : Type) where
  f : Fsm
  /-- Number of callouts `fsm_timeout (f)` in the callout list. -/
  pending : Nat
  /-- What happened so far, newest first. -/
  log : List FsmEvent
  env : σ

/-- What the callback for unknown codes did with a packet. -/
inductive ExtResult where
  | unknown
  | done
  /-- An Echo-Request was answered. -/
  | reply (id : UInt8) (data : List UInt8)
  | protreject
deriving DecidableEq, Repr

/-- The protocol-specific half of an automaton. -/
structure Protocol (σ : Type) where
  peerMru : σ → Int
  hello : σ → Bool
  resetci : Fsm → σ → σ
  ci : Option ((Fsm → σ → Int) × (Fsm → σ → Int → σ × List UInt8))
  ackci : Option (Fsm → σ → List UInt8 → Bool × σ)
  nakci : Option (Fsm → σ → List UInt8 → Bool × σ)
  rejci : Option (Fsm → σ → List UInt8 → Bool × σ)
  reqci : Option (Fsm → σ → List UInt8 → Bool → ConfCode × List UInt8 × σ)
  /-- The flag says that the callback closes the link again. -/
  up : Fsm → σ → Bool × σ
  down : Fsm → σ → σ
  starting : Fsm → σ → σ
  /-- The flag says that the callback reopens the link. -/
  finished : Fsm → σ → Bool × σ
  retransmit : Fsm → σ → σ
  extcode : Option (Fsm → σ → CpPacket → ExtResult × σ)

variable {σ : Type}

namespace Protocol

variable (pr : Protocol σ)

def port : Port (World σ) where
  fsm w := w.f
  put f w := { w with f := f }
  timeout w := { w with pending := w.pending + 1 }
  untimeout w := { w with pending := w.pending - 1 }
  note e w := { w with log := e :: w.log }
  peerMru w := pr.peerMru w.env
  hello w := pr.hello w.env

def lower : LowerCallbacks (World σ) where
  resetci w := { w with env := pr.resetci w.f w.env }
  ci := pr.ci.map fun c =>
    (fun w => c.1 w.f w.env,
     fun w room => ({ w with env := (c.2 w.f w.env room).1 }, (c.2 w.f w.env room).2))
  down w := { w with env := pr.down w.f w.env }
  starting w := { w with env := pr.starting w.f w.env }

/-- The up callback, and the close it may ask for. -/
def goneUp (w : World σ) : World σ :=
  let r := pr.up w.f w.env
  if r.1 then fsmClose pr.port pr.lower { w with env := r.2 } else { w with env := r.2 }

/-- The finished callback, and the open it may ask for. -/
def gotFinished (w : World σ) : World σ :=
  let r := pr.finished w.f w.env
  if r.1 then fsmOpen pr.port pr.lower { w with env := r.2 } else { w with env := r.2 }

/-- The table without the callback for unknown codes. -/
def callbacks₀ : Callbacks (World σ) where
  toLowerCallbacks := pr.lower
  ackci := pr.ackci.map fun c w p =>
    ((c w.f w.env p).1, { w with env := (c w.f w.env p).2 })
  nakci := pr.nakci.map fun c w p =>
    ((c w.f w.env p).1, { w with env := (c w.f w.env p).2 })
  rejci := pr.rejci.map fun c w p =>
    ((c w.f w.env p).1, { w with env := (c w.f w.env p).2 })
  reqci := pr.reqci.map fun c w p rej =>
    ((c w.f w.env p rej).1, (c w.f w.env p rej).2.1,
      { w with env := (c w.f w.env p rej).2.2 })
  up := pr.goneUp
  finished := pr.gotFinished
  retransmit w := { w with env := pr.retransmit w.f w.env }
  extcode := none

def callbacks : Callbacks (World σ) :=
  { pr.callbacks₀ with
    extcode := pr.extcode.map fun c w p =>
      let w' := { w with env := (c w.f w.env p).2 }
      match (c w.f w.env p).1 with
      | .unknown => (false, w')
      | .done => (true, w')
      | .reply id data => (true, fsmSdata pr.port echorep id data w')
      | .protreject => (true, fsmProtreject pr.port pr.callbacks₀ w') }

end Protocol

/-- Everything that can be done to an automaton from outside. -/
inductive FsmCall where
  | lowerup
  | lowerdown
  | open
  | close
  | timeout
  | input (inpacket : List UInt8)
  | protreject
  | config (flags : FsmFlags) (timeouttime maxconfreq maxterm maxnak : Int)
deriving DecidableEq, Repr

namespace Protocol

variable (pr : Protocol σ)

/-- One call. A timeout is the expiry of a callout, which is gone by the time
`fsm_timeout` runs. -/
def step (w : World σ) : FsmCall → World σ
  | .lowerup => fsmLowerup pr.port pr.lower w
  | .lowerdown => fsmLowerdown pr.port pr.lower w
  | .open => fsmOpen pr.port pr.lower w
  | .close => fsmClose pr.port pr.lower w
  | .timeout => fsmTimeout pr.port pr.callbacks { w with pending := w.pending - 1 }
  | .input inpacket => fsmInput pr.port pr.callbacks inpacket w
  | .protreject => fsmProtreject pr.port pr.callbacks w
  | .config flags timeouttime maxconfreq maxterm maxnak =>
      { w with f := { w.f with
        flags := flags
        timeouttime := timeouttime
        maxconfreqtransmits := maxconfreq
        maxtermtransmits := maxterm
        maxnakloops := maxnak } }

end Protocol

/-- A protocol without options, whose callbacks are all absent. -/
def Protocol.bare : Protocol Unit where
  peerMru _ := 1500
  hello _ := false
  resetci _ env := env
  ci := none
  ackci := none
  nakci := none
  rejci := none
  reqci := none
  up _ env := (false, env)
  down _ env := env
  starting _ env := env
  finished _ env := (false, env)
  retransmit _ env := env
  extcode := none

/-- The automaton right after `fsm_init`: nothing pending and no history. -/
def World.start (random : UInt8) (f : Fsm) (env : σ) : World σ :=
  { f := fsmInit random f, pending := 0, log := [], env := env }

/-! ## What the helpers do to the record, the callouts and the history

Only the fields a caller could have an opinion about are listed. A request
leaves the control state alone, arms one callout and leaves behind its own two
entries in the history, preceded by the `CLIENT` string when that is due. -/

section

variable (pr : Protocol σ) (w : World σ)

@[simp] theorem port_state : pr.port.state w = w.f.state := rfl

@[simp] theorem port_fsm : pr.port.fsm w = w.f := rfl

@[simp] theorem port_setState (st : FsmState) :
    pr.port.setState st w = { w with f := { w.f with state := st } } := rfl

@[simp] theorem port_modify (g : Fsm → Fsm) :
    pr.port.modify g w = { w with f := g w.f } := rfl

@[simp] theorem port_timeout :
    pr.port.timeout w = { w with pending := w.pending + 1 } := rfl

@[simp] theorem port_untimeout :
    pr.port.untimeout w = { w with pending := w.pending - 1 } := rfl

@[simp] theorem port_note (e : FsmEvent) :
    pr.port.note e w = { w with log := e :: w.log } := rfl

@[simp] theorem goDown_eq :
    goDown pr.port pr.lower w =
      { w with log := .down :: w.log, env := pr.down w.f w.env } := rfl

@[simp] theorem starting_eq :
    pr.lower.starting w = { w with env := pr.starting w.f w.env } := rfl

@[simp] theorem goUp_eq :
    goUp pr.port pr.callbacks w = pr.goneUp { w with log := .up :: w.log } := rfl

@[simp] theorem finished_eq : pr.callbacks.finished w = pr.gotFinished w := rfl

@[simp] theorem callbacks_lower : pr.callbacks.toLowerCallbacks = pr.lower := rfl

/-- The data a packet is cut to. -/
def cut (w : World σ) (data : List UInt8) : List UInt8 :=
  data.take (pr.peerMru w.env - headerlen).toNat

@[simp] theorem fsmSdata_eq (code id : UInt8) (data : List UInt8) :
    fsmSdata pr.port code id data w =
      { w with log := .sent ⟨code, id, cut pr w data⟩ :: w.log } := rfl

/-- The record after a request has gone out. -/
def sentReq (retransmit : Bool) (f : Fsm) : Fsm :=
  { f with
    nakloops := if f.state.negotiating then f.nakloops else 0
    retransmits := (if retransmit then f.retransmits else f.maxconfreqtransmits) - 1
    id := if retransmit then f.id else f.id + 1
    reqid := if retransmit then f.reqid else f.id + 1 }

/-- The protocol's options when a request is made up: reset unless a
negotiation is going on. -/
def resetEnv (w : World σ) : σ :=
  if w.f.state.negotiating then w.env else pr.resetci w.f w.env

/-- The record `addci` is called on. -/
def reqFsm (retransmit : Bool) (f : Fsm) : Fsm :=
  { sentReq retransmit f with
    retransmits := if retransmit then f.retransmits else f.maxconfreqtransmits }

/-- The options of a request and the protocol's state after writing them. -/
def request (retransmit : Bool) (w : World σ) : σ × List UInt8 :=
  match pr.ci with
  | some (cilen, addci) =>
      let f := reqFsm retransmit w.f
      let env := resetEnv pr w
      addci f env (min (cilen f env) (pr.peerMru env - headerlen))
  | none => (resetEnv pr w, [])

/-- What a request puts on top of the history. -/
def reqEvents (retransmit : Bool) (w : World σ) : List FsmEvent :=
  .sent ⟨confreq, (sentReq retransmit w.f).reqid,
      (request pr retransmit w).2.take
        (pr.peerMru (request pr retransmit w).1 - headerlen).toNat⟩ ::
    .sconfreq retransmit (sentReq retransmit w.f).reqid ::
    if pr.hello (resetEnv pr w) then [.client] else []

theorem sconfreqReset_eq :
    sconfreqReset pr.port pr.lower w =
      { w with
        f := { w.f with nakloops := if w.f.state.negotiating then w.f.nakloops else 0 }
        env := resetEnv pr w } := by
  by_cases h : w.f.state.negotiating = true
  · have h' : (pr.port.state w).negotiating = true := h
    rw [sconfreqReset, if_pos h', resetEnv, if_pos h, if_pos h]
  · have h' : ¬ (pr.port.state w).negotiating = true := h
    rw [sconfreqReset, if_neg h', resetEnv, if_neg h, if_neg h]
    rfl

theorem sconfreqHello_eq :
    sconfreqHello pr.port w =
      { w with log := (if pr.hello w.env then [.client] else []) ++ w.log } := by
  by_cases h : pr.hello w.env = true
  · have h' : pr.port.hello w = true := h
    rw [sconfreqHello, if_pos h', if_pos h]
    rfl
  · have h' : ¬ pr.port.hello w = true := h
    rw [sconfreqHello, if_neg h', if_neg h]
    rfl

theorem sconfreqCi_eq :
    sconfreqCi pr.port pr.lower w =
      match pr.ci with
      | some (cilen, addci) =>
          let r := addci w.f w.env (min (cilen w.f w.env) (pr.peerMru w.env - headerlen))
          ({ w with env := r.1 }, r.2)
      | none => (w, []) := by
  unfold sconfreqCi Protocol.lower
  cases pr.ci <;> rfl

theorem fsmSconfreq_eq (retransmit : Bool) :
    fsmSconfreq pr.port pr.lower retransmit w =
      { f := sentReq retransmit w.f
        pending := w.pending + 1
        log := reqEvents pr retransmit w ++ w.log
        env := (request pr retransmit w).1 } := by
  have hid : sconfreqId pr.port retransmit (sconfreqReset pr.port pr.lower w) =
      { w with f := reqFsm retransmit w.f, env := resetEnv pr w } := by
    rw [sconfreqReset_eq]
    cases retransmit <;> rfl
  have hci : sconfreqCi pr.port pr.lower
      (sconfreqHello pr.port (sconfreqId pr.port retransmit
        (sconfreqReset pr.port pr.lower w))) =
      ({ w with
          f := reqFsm retransmit w.f
          log := (if pr.hello (resetEnv pr w) then [.client] else []) ++ w.log
          env := (request pr retransmit w).1 },
        (request pr retransmit w).2) := by
    rw [hid, sconfreqHello_eq, sconfreqCi_eq]
    unfold request
    cases pr.ci <;> rfl
  rw [fsmSconfreq]
  rw [hci]
  cases retransmit <;> rfl

theorem fsmStermreq_eq :
    fsmStermreq pr.port w =
      { w with
        f := { w.f with
          id := w.f.id + 1, reqid := w.f.id + 1, retransmits := w.f.retransmits - 1 }
        pending := w.pending + 1
        log := .sent ⟨termreq, w.f.id + 1, []⟩ :: w.log } := by
  simp [fsmStermreq, cut]

/-! The checks of the protocol see the record and change only the protocol's
own state, so what a check answers is a function of the two. -/

/-- The verdict of the protocol on a reply, and its state afterwards. -/
def Protocol.judge (p : CpPacket) (f : Fsm) (env : σ) : Bool × σ :=
  if p.code = confack then
    match pr.ackci with
    | some ackci => ackci f env p.data
    | none => (p.data.length == 0, env)
  else
    match (if p.code = confnak then pr.nakci else pr.rejci) with
    | some proc => proc f env p.data
    | none => (false, env)

theorem checkAck_eq {p : CpPacket} (hp : p.code = confack) :
    checkAck pr.callbacks p.data w =
      ((pr.judge p w.f w.env).1, { w with env := (pr.judge p w.f w.env).2 }) := by
  simp only [checkAck, Protocol.judge, Protocol.callbacks, Protocol.callbacks₀, if_pos hp]
  cases pr.ackci <;> rfl

theorem checkNakrej_eq {p : CpPacket} (hp : p.code ≠ confack) :
    checkNakrej pr.callbacks p.code p.data w =
      ((pr.judge p w.f w.env).1, { w with env := (pr.judge p w.f w.env).2 }) := by
  simp only [checkNakrej, Protocol.judge, Protocol.callbacks, Protocol.callbacks₀, if_neg hp]
  by_cases hn : p.code = confnak
  · simp only [if_pos hn]
    cases pr.nakci <;> rfl
  · simp only [if_neg hn]
    cases pr.rejci <;> rfl

theorem checkReq_eq (inp : List UInt8) :
    ∃ code data env, checkReq pr.port pr.callbacks inp w = (code, data, { w with env := env }) := by
  simp only [checkReq, Protocol.callbacks, Protocol.callbacks₀]
  cases pr.reqci <;> exact ⟨_, _, _, rfl⟩

end

end VxWorks.Ppp
