import VxWorks.Lib.Octets

/-!
# The option negotiation automaton (`fsm.c`)

LCP and IPCP are two instances of one automaton. Its state is a small record,
its protocol-specific half is a table of callbacks, and everything it does to
the outside world goes through five calls: send a packet, arm the restart
timer, cancel it, and the two reads of the interface record it makes
(`peer_mru`, and the test that decides whether the string `CLIENT` goes out
ahead of a request).

The callbacks are free to call back into the automaton, and two of the real
ones do: `lcp_finished` reopens the link, and `ipcp_up` may close it again.
So the functions below are not written over `Fsm` but over any state `S` the
automaton is a part of. A `Port` says where in `S` the record lives and how the
five calls act; a callback is a function on `S`. The functions that a callback
may re-enter, `fsmOpen` and `fsmClose` among them, only use the callbacks of
`LowerCallbacks`, which is what keeps the definitions well founded.

`note` is the one addition to the source. It records what happened, so that a
property of the history can be stated about the state the history led to; a
port that does not care ignores it.
-/

namespace VxWorks.Ppp

open VxWorks.Lib

/-- Link states (`fsm.h`). -/
inductive FsmState where
  | initial | starting | closed | stopped | closing | stopping
  | reqsent | ackrcvd | acksent | opened
deriving DecidableEq, Repr, Inhabited

/-- The option bits `OPT_PASSIVE`, `OPT_RESTART` and `OPT_SILENT`. -/
structure FsmFlags where
  passive : Bool
  restart : Bool
  silent : Bool
deriving DecidableEq, Repr, Inhabited

/-- `struct fsm`, less the unit number and the callback table, which are the
`Port` and the `Callbacks` below. -/
structure Fsm where
  protocol : UInt16
  state : FsmState
  flags : FsmFlags
  id : UInt8
  reqid : UInt8
  timeouttime : Int
  maxconfreqtransmits : Int
  retransmits : Int
  maxtermtransmits : Int
  nakloops : Int
  maxnakloops : Int
deriving Repr, Inhabited

/-- A control packet: code, id, and the data the length field covers. -/
structure CpPacket where
  code : UInt8
  id : UInt8
  data : List UInt8
deriving DecidableEq, Repr

def headerlen : Int := 4

def confreq : UInt8 := 1
def confack : UInt8 := 2
def confnak : UInt8 := 3
def confrej : UInt8 := 4
def termreq : UInt8 := 5
def termack : UInt8 := 6
def coderej : UInt8 := 7

/-- The Echo-Reply of `lcp_extcode`. -/
def echorep : UInt8 := 10

def deftimeout : Int := 3
def defmaxtermreqs : Int := 2
def defmaxconfreqs : Int := 10
def defmaxnakloops : Int := 10

/-- The packet as `fsm_sdata` lays it out behind the link header. -/
def CpPacket.octets (p : CpPacket) : List UInt8 :=
  p.code :: p.id :: put16 (UInt16.ofNat (p.data.length + 4)) ++ p.data

/-- The three answers `reqci` may give to a Configure-Request. -/
inductive ConfCode where
  | ack | nak | rej
deriving DecidableEq, Repr

def ConfCode.code : ConfCode → UInt8
  | .ack => confack
  | .nak => confnak
  | .rej => confrej

/-- What the automaton does that its history is judged by. -/
inductive FsmEvent where
  /-- `fsm_input` accepted the header of a packet and is about to act on it. -/
  | rcvd (p : CpPacket)
  /-- `fsm_sdata` put a packet on the line. -/
  | sent (p : CpPacket)
  /-- `fsm_sconfreq` was called and used this id. -/
  | sconfreq (retransmit : Bool) (id : UInt8)
  /-- A Configure-Ack, -Nak or -Reject passed both the id check and the
  protocol's own check. -/
  | accepted (code id : UInt8)
  /-- The string `CLIENT` went out ahead of a request. -/
  | client
  | up
  | down
deriving DecidableEq, Repr

/-- Where the automaton lives in a larger state, and what it can do there. -/
structure Port (S : Type) where
  fsm : S → Fsm
  put : Fsm → S → S
  /-- `PPP_TIMEOUT (fsm_timeout, f, f->timeouttime)`. -/
  timeout : S → S
  /-- `PPP_UNTIMEOUT (fsm_timeout, f)`. -/
  untimeout : S → S
  note : FsmEvent → S → S
  peerMru : S → Int
  hello : S → Bool

/-- The callbacks the lower-layer and administrative events use. `ci` is the
pair `cilen`, `addci`, which the source uses only together; `addci` is given
the room there is and returns what it wrote. -/
structure LowerCallbacks (S : Type) where
  resetci : S → S
  ci : Option ((S → Int) × (S → Int → S × List UInt8))
  down : S → S
  starting : S → S

/-- The whole table. A callback that may be absent and whose absence the source
gives a meaning of its own is an `Option`; where absence means doing nothing
the function is the identity. -/
structure Callbacks (S : Type) extends LowerCallbacks S where
  ackci : Option (S → List UInt8 → Bool × S)
  nakci : Option (S → List UInt8 → Bool × S)
  rejci : Option (S → List UInt8 → Bool × S)
  reqci : Option (S → List UInt8 → Bool → ConfCode × List UInt8 × S)
  up : S → S
  finished : S → S
  retransmit : S → S
  extcode : Option (S → CpPacket → Bool × S)

variable {S : Type}

namespace Port

variable (P : Port S)

def state (s : S) : FsmState := (P.fsm s).state

def modify (g : Fsm → Fsm) (s : S) : S := P.put (g (P.fsm s)) s

def setState (st : FsmState) (s : S) : S := P.modify (fun f => { f with state := st }) s

end Port

/-- `fsm_init`: the other fields keep what the interface record held. -/
def fsmInit (random : UInt8) (f : Fsm) : Fsm :=
  { f with
    state := .initial
    flags := ⟨false, false, false⟩
    id := random
    timeouttime := deftimeout
    maxconfreqtransmits := defmaxconfreqs
    maxtermtransmits := defmaxtermreqs
    maxnakloops := defmaxnakloops }

section

variable (P : Port S)

/-- `fsm_sdata`: the data is cut to what the peer is able to receive. -/
def fsmSdata (code id : UInt8) (data : List UInt8) (s : S) : S :=
  P.note (.sent ⟨code, id, data.take (P.peerMru s - headerlen).toNat⟩) s

/-- Not currently negotiating, the test at the head of `fsm_sconfreq`. -/
def FsmState.negotiating : FsmState → Bool
  | .reqsent | .ackrcvd | .acksent => true
  | _ => false

/-! `fsm_sconfreq` in its four parts: reset the options unless a negotiation is
going on, take a new id unless this is a retransmission, write the `CLIENT`
string, make up the request. -/

def sconfreqReset (cb : LowerCallbacks S) (s : S) : S :=
  if (P.state s).negotiating then s
  else P.modify (fun f => { f with nakloops := 0 }) (cb.resetci s)

def sconfreqId (retransmit : Bool) (s : S) : S :=
  if retransmit then s
  else P.modify (fun f =>
    { f with retransmits := f.maxconfreqtransmits, id := f.id + 1, reqid := f.id + 1 }) s

def sconfreqHello (s : S) : S := if P.hello s then P.note .client s else s

def sconfreqCi (cb : LowerCallbacks S) (s : S) : S × List UInt8 :=
  match cb.ci with
  | some (cilen, addci) => addci s (min (cilen s) (P.peerMru s - headerlen))
  | none => (s, [])

/-- `fsm_sconfreq`: send a Configure-Request and start the restart timer. -/
def fsmSconfreq (cb : LowerCallbacks S) (retransmit : Bool) (s : S) : S :=
  let r := sconfreqCi P cb
    (sconfreqHello P (sconfreqId P retransmit (sconfreqReset P cb s)))
  let reqid := (P.fsm r.1).reqid
  let s := fsmSdata P confreq reqid r.2 (P.note (.sconfreq retransmit reqid) r.1)
  P.timeout (P.modify (fun f => { f with retransmits := f.retransmits - 1 }) s)

/-- The Terminate-Request that `fsm_close`, `fsm_timeout` and `fsm_protreject`
send: it takes a new id and is stored where request ids are stored. -/
def fsmStermreq (s : S) : S :=
  let s := P.modify (fun f => { f with id := f.id + 1, reqid := f.id + 1 }) s
  let s := P.timeout (fsmSdata P termreq (P.fsm s).reqid [] s)
  P.modify (fun f => { f with retransmits := f.retransmits - 1 }) s

/-- The callback that tells the upper layers we are down. -/
def goDown (cb : LowerCallbacks S) (s : S) : S := cb.down (P.note .down s)

/-- `fsm_lowerup`: the lower layer is up. -/
def fsmLowerup (cb : LowerCallbacks S) (s : S) : S :=
  match P.state s with
  | .initial => P.setState .closed s
  | .starting =>
      if (P.fsm s).flags.silent then P.setState .stopped s
      else P.setState .reqsent (fsmSconfreq P cb false s)
  | _ => s

/-- `fsm_lowerdown`: cancel all timeouts and inform upper layers. -/
def fsmLowerdown (cb : LowerCallbacks S) (s : S) : S :=
  match P.state s with
  | .closed => P.setState .initial s
  | .stopped => cb.starting (P.setState .starting s)
  | .closing => P.untimeout (P.setState .initial s)
  | .stopping | .reqsent | .ackrcvd | .acksent => P.untimeout (P.setState .starting s)
  | .opened => P.setState .starting (goDown P cb s)
  | .initial | .starting => s

/-- `fsm_open`: the link is allowed to come up. -/
def fsmOpen (cb : LowerCallbacks S) (s : S) : S :=
  -- the second open of a link that is already up
  let restart (s : S) : S :=
    if (P.fsm s).flags.restart then fsmLowerup P cb (fsmLowerdown P cb s) else s
  match P.state s with
  | .initial => cb.starting (P.setState .starting s)
  | .closed =>
      if (P.fsm s).flags.silent then P.setState .stopped s
      else P.setState .reqsent (fsmSconfreq P cb false s)
  | .closing => restart (P.setState .stopping s)
  | .stopped | .opened => restart s
  | .starting | .stopping | .reqsent | .ackrcvd | .acksent => s

/-- `fsm_close`: cancel timeouts and either initiate close or go directly to
the closed state. -/
def fsmClose (cb : LowerCallbacks S) (s : S) : S :=
  match P.state s with
  | .starting => P.setState .initial s
  | .stopped => P.setState .closed s
  | .stopping => P.setState .closing s
  | .reqsent | .ackrcvd | .acksent | .opened =>
      let s := if P.state s ≠ .opened then P.untimeout s else goDown P cb s
      let s := P.modify (fun f => { f with retransmits := f.maxtermtransmits }) s
      P.setState .closing (fsmStermreq P s)
  | .initial | .closed | .closing => s

/-- `fsm_protreject`: the peer does not speak this protocol. -/
def fsmProtreject (cb : Callbacks S) (s : S) : S :=
  match P.state s with
  | .closing => cb.finished (P.setState .closed (P.untimeout s))
  | .closed => cb.finished (P.setState .closed s)
  | .stopping | .reqsent | .ackrcvd | .acksent =>
      cb.finished (P.setState .stopped (P.untimeout s))
  | .stopped => cb.finished (P.setState .stopped s)
  | .opened =>
      let s := goDown P cb.toLowerCallbacks s
      let s := P.modify (fun f => { f with retransmits := f.maxtermtransmits }) s
      P.setState .stopping (fsmStermreq P s)
  | .initial | .starting => s

/-- `fsm_timeout`: the restart timer expired. -/
def fsmTimeout (cb : Callbacks S) (s : S) : S :=
  match P.state s with
  | .closing | .stopping =>
      if (P.fsm s).retransmits ≤ 0 then
        cb.finished (P.setState (if P.state s = .closing then .closed else .stopped) s)
      else fsmStermreq P s
  | .reqsent | .ackrcvd | .acksent =>
      if (P.fsm s).retransmits ≤ 0 then
        let s := P.setState .stopped s
        if (P.fsm s).flags.passive then s else cb.finished s
      else
        let s := fsmSconfreq P cb.toLowerCallbacks true (cb.retransmit s)
        if P.state s = .ackrcvd then P.setState .reqsent s else s
  | _ => s

/-- The callback that tells the upper layers we are up. -/
def goUp (cb : Callbacks S) (s : S) : S := cb.up (P.note .up s)

/-- The protocol's answer to the peer's options. Without a `reqci` all options
are rejected. -/
def checkReq (cb : Callbacks S) (inp : List UInt8) (s : S) : ConfCode × List UInt8 × S :=
  match cb.reqci with
  | some reqci => reqci s inp (decide ((P.fsm s).maxnakloops ≤ (P.fsm s).nakloops))
  | none => (if inp.length ≠ 0 then .rej else .ack, inp, s)

/-- What `fsm_rconfreq` does once the answer has gone out. -/
def rconfreqMove (cb : Callbacks S) (code : ConfCode) (s : S) : S :=
  if code = .ack then
    let s :=
      if P.state s = .ackrcvd then goUp P cb (P.setState .opened (P.untimeout s))
      else P.setState .acksent s
    P.modify (fun f => { f with nakloops := 0 }) s
  else
    let s := if P.state s ≠ .ackrcvd then P.setState .reqsent s else s
    if code = .nak then P.modify (fun f => { f with nakloops := f.nakloops + 1 }) s else s

/-- The second half of `fsm_rconfreq`: check the peer's options, answer, and
move. -/
def rconfreqReply (cb : Callbacks S) (id : UInt8) (inp : List UInt8) (s : S) : S :=
  let r := checkReq P cb inp s
  rconfreqMove P cb r.1 (fsmSdata P r.1.code id r.2.1 r.2.2)

/-- `fsm_rconfreq`: receive Configure-Request. -/
def fsmRconfreq (cb : Callbacks S) (id : UInt8) (inp : List UInt8) (s : S) : S :=
  match P.state s with
  | .closed => fsmSdata P termack id [] s
  | .closing | .stopping => s
  | .opened =>
      -- go down and restart negotiation
      let s := goDown P cb.toLowerCallbacks s
      rconfreqReply P cb id inp (fsmSconfreq P cb.toLowerCallbacks false s)
  | .stopped =>
      -- negotiation started by our peer
      rconfreqReply P cb id inp
        (P.setState .reqsent (fsmSconfreq P cb.toLowerCallbacks false s))
  | _ => rconfreqReply P cb id inp s

/-- `f->reqid = -1`, stored in an octet. -/
def noReqid : UInt8 := 255

/-- The protocol's own check of a Configure-Ack. -/
def checkAck (cb : Callbacks S) (inp : List UInt8) (s : S) : Bool × S :=
  match cb.ackci with
  | some ackci => ackci s inp
  | none => (inp.length == 0, s)

/-- The protocol's own check of a Configure-Nak or Configure-Reject. -/
def checkNakrej (cb : Callbacks S) (code : UInt8) (inp : List UInt8) (s : S) : Bool × S :=
  match (if code = confnak then cb.nakci else cb.rejci) with
  | some proc => proc s inp
  | none => (false, s)

/-- `fsm_rconfack`: receive Configure-Ack. -/
def fsmRconfack (cb : Callbacks S) (id : UInt8) (inp : List UInt8) (s : S) : S :=
  if id ≠ (P.fsm s).reqid then s
  else
    let r := checkAck cb inp s
    if !r.1 then r.2
    else
      let s := P.modify (fun f => { f with reqid := noReqid }) (P.note (.accepted confack id) r.2)
      match P.state s with
      | .closed | .stopped => fsmSdata P termack id [] s
      | .reqsent =>
          P.modify (fun f => { f with state := .ackrcvd, retransmits := f.maxconfreqtransmits }) s
      | .ackrcvd =>
          -- huh? an extra Ack? oh well...
          P.setState .reqsent (fsmSconfreq P cb.toLowerCallbacks false s)
      | .acksent =>
          goUp P cb (P.modify
            (fun f => { f with state := .opened, retransmits := f.maxconfreqtransmits })
            (P.untimeout s))
      | .opened =>
          P.setState .reqsent
            (fsmSconfreq P cb.toLowerCallbacks false (goDown P cb.toLowerCallbacks s))
      | .initial | .starting | .closing | .stopping => s

/-- `fsm_rconfnakrej`: receive Configure-Nak or Configure-Reject. -/
def fsmRconfnakrej (cb : Callbacks S) (code id : UInt8) (inp : List UInt8) (s : S) : S :=
  if id ≠ (P.fsm s).reqid then s
  else
    let r := checkNakrej cb code inp s
    if !r.1 then r.2
    else
      let s := P.modify (fun f => { f with reqid := noReqid }) (P.note (.accepted code id) r.2)
      match P.state s with
      | .closed | .stopped => fsmSdata P termack id [] s
      | .reqsent | .acksent =>
          -- they didn't agree to what we wanted: try another request
          fsmSconfreq P cb.toLowerCallbacks false (P.untimeout s)
      | .ackrcvd =>
          -- got a Nak/reject when we had already had an Ack?? oh well...
          P.setState .reqsent (fsmSconfreq P cb.toLowerCallbacks false s)
      | .opened =>
          P.setState .reqsent
            (fsmSconfreq P cb.toLowerCallbacks false (goDown P cb.toLowerCallbacks s))
      | .initial | .starting | .closing | .stopping => s

/-- `fsm_rtermreq`: receive Terminate-Request. -/
def fsmRtermreq (cb : Callbacks S) (id : UInt8) (s : S) : S :=
  let s := match P.state s with
    | .ackrcvd | .acksent => P.setState .reqsent s
    | .opened =>
        P.timeout (P.modify (fun f => { f with retransmits := 0, state := .stopping })
          (goDown P cb.toLowerCallbacks s))
    | _ => s
  fsmSdata P termack id [] s

/-- `fsm_rtermack`: receive Terminate-Ack. -/
def fsmRtermack (cb : Callbacks S) (s : S) : S :=
  match P.state s with
  | .closing => cb.finished (P.setState .closed s)
  | .stopping => cb.finished (P.setState .stopped s)
  | .ackrcvd => P.setState .reqsent s
  | .opened => fsmSconfreq P cb.toLowerCallbacks false (goDown P cb.toLowerCallbacks s)
  | _ => s

/-- `fsm_rcoderej`: receive Code-Reject. -/
def fsmRcoderej (inp : List UInt8) (s : S) : S :=
  if inp.length < 4 then s
  else if P.state s = .ackrcvd then P.setState .reqsent s else s

/-- The header check of `fsm_input`: code, id and a length that is neither too
short for a header nor longer than what arrived. Octets past the length are
padding. -/
def parseHeader : List UInt8 → Option CpPacket
  | code :: id :: l1 :: l0 :: rest =>
      let len := (get16 l1 l0).toNat
      if len < 4 then none
      else if rest.length + 4 < len then none
      else some ⟨code, id, rest.take (len - 4)⟩
  | _ => none

/-- The protocol's own codes, if it has any. -/
def checkExt (cb : Callbacks S) (p : CpPacket) (s : S) : Bool × S :=
  match cb.extcode with
  | some extcode => extcode s p
  | none => (false, s)

/-- The dispatch of `fsm_input` on a packet whose header was accepted. -/
def fsmDispatch (cb : Callbacks S) (p : CpPacket) (s : S) : S :=
  if p.code = confreq then fsmRconfreq P cb p.id p.data s
  else if p.code = confack then fsmRconfack P cb p.id p.data s
  else if p.code = confnak ∨ p.code = confrej then fsmRconfnakrej P cb p.code p.id p.data s
  else if p.code = termreq then fsmRtermreq P cb p.id s
  else if p.code = termack then fsmRtermack P cb s
  else if p.code = coderej then fsmRcoderej P p.data s
  else
    let r := checkExt cb p s
    if r.1 then r.2
    else
      let s := P.modify (fun f => { f with id := f.id + 1 }) r.2
      fsmSdata P coderej (P.fsm s).id p.octets s

/-- `fsm_input`: a packet arrived. Nothing is read before the lower layer is
up. -/
def fsmInput (cb : Callbacks S) (inpacket : List UInt8) (s : S) : S :=
  match parseHeader inpacket with
  | none => s
  | some p =>
      if P.state s = .initial ∨ P.state s = .starting then s
      else fsmDispatch P cb p (P.note (.rcvd p) s)

/-- A Nak or Reject that is accepted while we negotiate is answered by a new request. -/
theorem fsmRconfnakrej_negotiating {cb : Callbacks S} {code : UInt8} {inp : List UInt8} {s t : S}
    (hgood : (checkNakrej cb code inp s).1 = true)
    (ht : t = P.modify (fun f => { f with reqid := noReqid })
      (P.note (.accepted code (P.fsm s).reqid) (checkNakrej cb code inp s).2))
    (hneg : (P.state t).negotiating = true) :
    fsmRconfnakrej P cb code (P.fsm s).reqid inp s =
        fsmSconfreq P cb.toLowerCallbacks false (P.untimeout t) ∨
      fsmRconfnakrej P cb code (P.fsm s).reqid inp s =
        P.setState .reqsent (fsmSconfreq P cb.toLowerCallbacks false t) := by
  unfold fsmRconfnakrej
  rw [if_neg (not_not_intro rfl)]
  dsimp only
  rw [hgood, if_neg (by decide), ← ht]
  cases hs : P.state t with
  | reqsent => exact .inl rfl
  | acksent => exact .inl rfl
  | ackrcvd => exact .inr rfl
  | _ =>
      rw [hs] at hneg
      cases hneg

end

/-! ## What a request touches

The two functions that send a request, and whatever else only counts and sends,
act on the larger state through the port and the option callbacks. A property of
that state that these keep is kept by them. -/

/-- What holds once the options are made up. -/
theorem sconfreq_made_up (P : Port S) {cb : LowerCallbacks S} {I : S → Prop} {retransmit : Bool}
    {s : S} (hreset : I (sconfreqReset P cb s)) (hid : ∀ {t}, I t → I (sconfreqId P retransmit t))
    (hclient : ∀ {t}, I t → I (P.note .client t))
    (haddci : ∀ {t c} room, cb.ci = some c → I t → I (c.2 t room).1) :
    I (sconfreqCi P cb
      (sconfreqHello P (sconfreqId P retransmit (sconfreqReset P cb s)))).1 := by
  have hhello : I (sconfreqHello P (sconfreqId P retransmit (sconfreqReset P cb s))) := by
    rw [sconfreqHello]
    split
    · exact hclient (hid hreset)
    · exact hid hreset
  unfold sconfreqCi
  cases hc : cb.ci with
  | none => exact hhello
  | some c => exact haddci _ hc hhello

/-- A property that can be broken neither by the callbacks of a request nor by a
change of the record that leaves the control state and the flags alone. -/
structure Port.Keeps (P : Port S) (cb : LowerCallbacks S) (I : S → Prop) : Prop where
  put : ∀ {s f}, f.state = (P.fsm s).state → f.flags = (P.fsm s).flags → I s → I (P.put f s)
  timeout : ∀ {s}, I s → I (P.timeout s)
  client : ∀ {s}, I s → I (P.note .client s)
  sconfreq : ∀ {s} retransmit id, I s → I (P.note (.sconfreq retransmit id) s)
  sent : ∀ {s} p, p.code = confreq ∨ p.code = termreq → I s → I (P.note (.sent p) s)
  resetci : ∀ {s}, I s → I (cb.resetci s)
  addci : ∀ {s c} room, cb.ci = some c → I s → I (c.2 s room).1

namespace Port.Keeps

variable {P : Port S} {cb : LowerCallbacks S} {I : S → Prop} {s : S}

theorem fsmSconfreq (k : P.Keeps cb I) (retransmit : Bool) (h : I s) :
    I (fsmSconfreq P cb retransmit s) := by
  have hreset : I (sconfreqReset P cb s) := by
    rw [sconfreqReset]
    split
    · exact h
    · exact k.put rfl rfl (k.resetci h)
  have hid {t : S} (ht : I t) : I (sconfreqId P retransmit t) := by
    rw [sconfreqId]
    split
    · exact ht
    · exact k.put rfl rfl ht
  have hci := sconfreq_made_up P hreset hid k.client k.addci
  exact k.timeout (k.put rfl rfl (k.sent _ (.inl rfl) (k.sconfreq _ _ hci)))

theorem fsmStermreq (k : P.Keeps cb I) (h : I s) : I (fsmStermreq P s) :=
  k.put rfl rfl (k.timeout (k.sent _ (.inr rfl) (k.put rfl rfl h)))

end Port.Keeps

/-- A property that no event of the lower layer and no command from above can break, given
that making up a request does not. Of the record of the automaton the count of Naks and its
limit may have a part in it. -/
structure LowerCallbacks.Keeps (cb : LowerCallbacks S) (P : Port S) (I : S → Prop) : Prop where
  set : ∀ {s f}, f.nakloops = (P.fsm s).nakloops → f.maxnakloops = (P.fsm s).maxnakloops →
    I s → I (P.put f s)
  untimeout : ∀ {s}, I s → I (P.untimeout s)
  down : ∀ {s}, I s → I (goDown P cb s)
  starting : ∀ {s}, I s → I (cb.starting s)
  sconfreq : ∀ {s} retransmit, I s → I (fsmSconfreq P cb retransmit s)
  stermreq : ∀ {s}, I s → I (fsmStermreq P s)

namespace LowerCallbacks.Keeps

variable {P : Port S} {cb : LowerCallbacks S} {I : S → Prop} {s : S}

theorem lowerup (k : cb.Keeps P I) (h : I s) : I (fsmLowerup P cb s) := by
  unfold fsmLowerup
  split
  · exact k.set rfl rfl h
  · split
    · exact k.set rfl rfl h
    · exact k.set rfl rfl (k.sconfreq false h)
  · exact h

theorem lowerdown (k : cb.Keeps P I) (h : I s) : I (fsmLowerdown P cb s) := by
  unfold fsmLowerdown
  split
  · exact k.set rfl rfl h
  · exact k.starting (k.set rfl rfl h)
  · exact k.untimeout (k.set rfl rfl h)
  iterate 4 exact k.untimeout (k.set rfl rfl h)
  · exact k.set rfl rfl (k.down h)
  · exact h
  · exact h

theorem fsmOpen (k : cb.Keeps P I) (h : I s) : I (fsmOpen P cb s) := by
  have hrestart {t : S} (ht : I t) :
      I (if (P.fsm t).flags.restart then fsmLowerup P cb (fsmLowerdown P cb t) else t) := by
    split
    · exact k.lowerup (k.lowerdown ht)
    · exact ht
  cases hst : P.state s <;> simp only [Ppp.fsmOpen, hst]
  case initial => exact k.starting (k.set rfl rfl h)
  case closed =>
    split
    · exact k.set rfl rfl h
    · exact k.set rfl rfl (k.sconfreq false h)
  case closing => exact hrestart (k.set rfl rfl h)
  case stopped => exact hrestart h
  case opened => exact hrestart h
  all_goals exact h

/-- A Terminate-Request under a counter of its own. -/
theorem terminate (k : cb.Keeps P I) (st : FsmState) (h : I s) :
    I (P.setState st (fsmStermreq P
      (P.modify (fun f => { f with retransmits := f.maxtermtransmits }) s))) :=
  k.set rfl rfl (k.stermreq (k.set rfl rfl h))

theorem fsmClose (k : cb.Keeps P I) (h : I s) : I (fsmClose P cb s) := by
  cases hst : P.state s <;> simp only [Ppp.fsmClose, hst]
  case starting => exact k.set rfl rfl h
  case stopped => exact k.set rfl rfl h
  case stopping => exact k.set rfl rfl h
  case opened => exact k.terminate .closing (k.down h)
  case reqsent => exact k.terminate .closing (k.untimeout h)
  case ackrcvd => exact k.terminate .closing (k.untimeout h)
  case acksent => exact k.terminate .closing (k.untimeout h)
  all_goals exact h

end LowerCallbacks.Keeps

/-- A property of what lies around the automaton: its own record, the control state
included, has no part in it. -/
structure Port.Ignores (P : Port S) (cb : LowerCallbacks S) (I : S → Prop) : Prop
    extends P.Keeps cb I where
  set : ∀ {s} f, I s → I (P.put f s)
  untimeout : ∀ {s}, I s → I (P.untimeout s)
  down : ∀ {s}, I s → I (goDown P cb s)
  starting : ∀ {s}, I s → I (cb.starting s)

namespace Port.Ignores

variable {P : Port S} {cb : LowerCallbacks S} {I : S → Prop} {s : S}

theorem lower (k : P.Ignores cb I) : cb.Keeps P I where
  set _ _ h := k.set _ h
  untimeout := k.untimeout
  down := k.down
  starting := k.starting
  sconfreq := k.fsmSconfreq
  stermreq := k.fsmStermreq

theorem lowerup (k : P.Ignores cb I) (h : I s) : I (fsmLowerup P cb s) := k.lower.lowerup h

theorem lowerdown (k : P.Ignores cb I) (h : I s) : I (fsmLowerdown P cb s) :=
  k.lower.lowerdown h

theorem fsmOpen (k : P.Ignores cb I) (h : I s) : I (fsmOpen P cb s) := k.lower.fsmOpen h

theorem fsmClose (k : P.Ignores cb I) (h : I s) : I (fsmClose P cb s) := k.lower.fsmClose h

end Port.Ignores

/-- A property that the callbacks cannot break either, and none of the checks of a reply. -/
structure Callbacks.Keeps (cb : Callbacks S) (P : Port S) (I : S → Prop) : Prop
    extends cb.toLowerCallbacks.Keeps P I where
  timeout : ∀ {s}, I s → I (P.timeout s)
  up : ∀ {s}, I s → I (goUp P cb s)
  finished : ∀ {s}, I s → I (cb.finished s)
  retransmit : ∀ {s}, I s → I (cb.retransmit s)
  rcvd : ∀ {s} p, I s → I (P.note (.rcvd p) s)
  accepted : ∀ {s} id, I s → I (P.note (.accepted confack id) s)
  ack : ∀ {s} inp, I s → I (checkAck cb inp s).2
  nakrej : ∀ {s} code id inp, code = confnak ∨ code = confrej → I s →
    let r := checkNakrej cb code inp s
    if r.1 then I (P.note (.accepted code id) r.2) else I r.2
  termack : ∀ {s} id, I s → I (fsmSdata P termack id [] s)

namespace Callbacks.Keeps

variable {P : Port S} {cb : Callbacks S} {I : S → Prop} {s : S}

theorem protreject (k : cb.Keeps P I) (h : I s) : I (fsmProtreject P cb s) := by
  unfold fsmProtreject
  split
  · exact k.finished (k.set rfl rfl (k.untimeout h))
  · exact k.finished (k.set rfl rfl h)
  iterate 4 exact k.finished (k.set rfl rfl (k.untimeout h))
  · exact k.finished (k.set rfl rfl h)
  · exact k.terminate .stopping (k.down h)
  · exact h
  · exact h

theorem fsmTimeout (k : cb.Keeps P I) (h : I s) : I (fsmTimeout P cb s) := by
  unfold Ppp.fsmTimeout
  split
  iterate 2
    split
    · exact k.finished (k.set rfl rfl h)
    · exact k.stermreq h
  iterate 3
    split
    · dsimp only
      split
      · exact k.set rfl rfl h
      · exact k.finished (k.set rfl rfl h)
    · have hreq := k.sconfreq true (k.retransmit h)
      dsimp only
      split
      · exact k.set rfl rfl hreq
      · exact hreq
  · exact h

theorem rconfack (k : cb.Keeps P I) (id : UInt8) (inp : List UInt8) (h : I s) :
    I (fsmRconfack P cb id inp s) := by
  unfold fsmRconfack
  split
  · exact h
  dsimp only
  split
  · exact k.ack inp h
  have ht : I (P.modify (fun f => { f with reqid := noReqid })
      (P.note (.accepted confack id) (checkAck cb inp s).2)) :=
    k.set rfl rfl (k.accepted id (k.ack inp h))
  split
  iterate 2 exact k.termack id ht
  · exact k.set rfl rfl ht
  · exact k.set rfl rfl (k.sconfreq false ht)
  · exact k.up (k.set rfl rfl (k.untimeout ht))
  · exact k.set rfl rfl (k.sconfreq false (k.down ht))
  all_goals exact ht

theorem rconfnakrej (k : cb.Keeps P I) {code : UInt8} (hcode : code = confnak ∨ code = confrej)
    (id : UInt8) (inp : List UInt8) (h : I s) : I (fsmRconfnakrej P cb code id inp s) := by
  have hproc := k.nakrej code id inp hcode h
  unfold fsmRconfnakrej
  split
  · exact h
  dsimp only at hproc ⊢
  split
  · next hbad =>
      rw [Bool.not_eq_true'] at hbad
      rw [hbad] at hproc
      exact hproc
  next hgood =>
  rw [Bool.not_eq_true', Bool.not_eq_false] at hgood
  rw [if_pos hgood] at hproc
  have ht : I (P.modify (fun f => { f with reqid := noReqid })
      (P.note (.accepted code id) (checkNakrej cb code inp s).2)) := k.set rfl rfl hproc
  split
  iterate 2 exact k.termack id ht
  iterate 2 exact k.sconfreq false (k.untimeout ht)
  · exact k.set rfl rfl (k.sconfreq false ht)
  · exact k.set rfl rfl (k.sconfreq false (k.down ht))
  all_goals exact ht

theorem rtermreq (k : cb.Keeps P I) (id : UInt8) (h : I s) : I (fsmRtermreq P cb id s) := by
  unfold fsmRtermreq
  refine k.termack id ?_
  split
  · exact k.set rfl rfl h
  · exact k.set rfl rfl h
  · exact k.timeout (k.set rfl rfl (k.down h))
  · exact h

theorem rtermack (k : cb.Keeps P I) (h : I s) : I (fsmRtermack P cb s) := by
  unfold fsmRtermack
  split
  · exact k.finished (k.set rfl rfl h)
  · exact k.finished (k.set rfl rfl h)
  · exact k.set rfl rfl h
  · exact k.sconfreq false (k.down h)
  · exact h

theorem rcoderej (k : cb.Keeps P I) (inp : List UInt8) (h : I s) : I (fsmRcoderej P inp s) := by
  unfold fsmRcoderej
  split
  · exact h
  · split
    · exact k.set rfl rfl h
    · exact h

/-- Where an answer leads, once it has gone out, for a property without the count of Naks. -/
theorem move (k : cb.Keeps P I) (hset : ∀ {t} f, I t → I (P.put f t)) (code : ConfCode)
    (h : I s) : I (rconfreqMove P cb code s) := by
  have refused : ∀ {t : S}, I t → I (if code = .nak then
      P.modify (fun f => { f with nakloops := f.nakloops + 1 }) t else t) := by
    intro t ht
    split
    · exact hset _ ht
    · exact ht
  rw [rconfreqMove]
  by_cases hc : code = .ack
  · rw [if_pos hc]
    refine hset _ ?_
    split
    · exact k.up (hset _ (k.untimeout h))
    · exact hset _ h
  · rw [if_neg hc]
    by_cases hs : P.state s ≠ .ackrcvd
    · rw [if_pos hs]
      exact refused (hset _ h)
    · rw [if_neg hs]
      exact refused h

end Callbacks.Keeps

/-- A property that the answers cannot break either. -/
structure Callbacks.KeepsInput (cb : Callbacks S) (P : Port S) (I : S → Prop) : Prop
    extends toCallbacks : cb.Keeps P I where
  reply : ∀ {s} id inp, I s → I (rconfreqReply P cb id inp s)
  ext : ∀ {s} p, I s → I (checkExt cb p s).2
  coderej : ∀ {s} id data, I s → I (fsmSdata P coderej id data s)

namespace Callbacks.KeepsInput

variable {P : Port S} {cb : Callbacks S} {I : S → Prop} {s : S}

theorem rconfreq (k : cb.KeepsInput P I) (id : UInt8) (inp : List UInt8) (h : I s) :
    I (fsmRconfreq P cb id inp s) := by
  unfold fsmRconfreq
  split
  · exact k.termack id h
  · exact h
  · exact h
  · exact k.reply id inp (k.sconfreq false (k.down h))
  · exact k.reply id inp (k.set rfl rfl (k.sconfreq false h))
  · exact k.reply id inp h

theorem dispatch (k : cb.KeepsInput P I) (p : CpPacket) (h : I s) :
    I (fsmDispatch P cb p s) := by
  rw [fsmDispatch]
  split
  · exact k.rconfreq p.id p.data h
  split
  · exact k.rconfack p.id p.data h
  split
  · next hcode => exact k.rconfnakrej hcode p.id p.data h
  split
  · exact k.rtermreq p.id h
  split
  · exact k.rtermack h
  split
  · exact k.rcoderej p.data h
  dsimp only
  split
  · exact k.ext p h
  · exact k.coderej _ _ (k.set rfl rfl (k.ext p h))

theorem input (k : cb.KeepsInput P I) (inpacket : List UInt8) (h : I s) :
    I (fsmInput P cb inpacket s) := by
  unfold fsmInput
  split
  · exact h
  · split
    · exact h
    · exact k.dispatch _ (k.rcvd _ h)

end Callbacks.KeepsInput

end VxWorks.Ppp
