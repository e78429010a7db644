import VxWorks.Lib.Run
import VxWorks.Ppp.Chap
import VxWorks.Ppp.Ipcp

/-!
# The control protocols of one interface

LCP, CHAP and IPCP on top of each other, with `auth.c` between them: the two
automata are two ports into one record, CHAP is a third, and the callbacks of one
call the functions of the others. The order of the definitions is the order in
which they call: what IPCP does by itself, what LCP does to the layers above it
when it goes down, closing the link and `die`, what IPCP does to the link, the
phases of `auth.c`, and last what LCP does when it comes up.

`die` either returns or frees the record and ends the task. In the second case
`exited` is set, and what the code that called `die` goes on to do here it does
to a record that no longer exists. `stuck` is set where `lcp_nakci` does not
return.

Callouts are not kept. `alrm` takes a whole batch of them off its list before it
calls the first, so a callout may run although it was cancelled, and here each
may run at any time. PAP is not part of the sources: it is told when the link
comes up and goes down, which changes nothing here, and calls the functions of
`auth.c` whenever it likes. Nor is the driver: the calls that configure it are
left out where nothing depends on their result.

`refused` and `said` are not in the interface record. They are the part of the
history that the phases are judged by, both since LCP last came up: the peer
refused an authentication that was required, and IPCP sent or acknowledged a
Configure-Request.
-/

namespace VxWorks.Ppp

open VxWorks.Lib

/-- Values for `phase`. -/
inductive Phase where
  | dead | establish | authenticate | network | terminate
deriving DecidableEq, Repr, Inhabited

/-- Bits in `auth_pending`. -/
def upapWithpeer : UInt8 := 1
def upapPeer : UInt8 := 2
def chapWithpeer : UInt8 := 4
def chapPeer : UInt8 := 8

def protrej : UInt8 := 8
def echoreq : UInt8 := 9
def discreq : UInt8 := 11

/-- The interface record. -/
structure Session (σ : Type) where
  lcp : Fsm
  link : Lcp
  ipcp : Fsm
  net : Ipcp
  chap : ChapState
  /-- Number of calls of `random` by CHAP. -/
  chapDrawn : Nat
  authRequired : Bool
  ourName : List UInt8
  authPending : UInt8
  phase : Phase
  echosPending : UInt32
  echoNumber : UInt32
  echoTimerRunning : Bool
  echoInterval : UInt32
  echoFails : UInt32
  exited : Bool
  stuck : Bool
  refused : Bool
  said : Bool
  env : σ

/-- What the layers are given: the functions of other files they call, and the
state these may have. -/
structure Stack (σ : Type) where
  unit : Nat
  magic : Nat → UInt32
  rand : Nat → Nat
  md5 : List UInt8 → Digest
  getSecret : List UInt8 → List UInt8 → Bool → Option (List UInt8)
  /-- `xmit_accm[0]`. -/
  xmitAccm : UInt32
  /-- A one-bit field that is set compares equal to 1. -/
  client : Bool
  nullLogin : σ → Bool × σ
  /-- `auth_ip_addr`, `sifaddr` and `sifup` all succeed. -/
  ipUp : Ipcp → σ → Bool × σ
  /-- What the buffer holds behind a packet. -/
  beyond : σ → List UInt8

variable {σ : Type}

namespace Stack

variable (a : Stack σ)

/-! ## IPCP by itself -/

def ipcpPort : Port (Session σ) where
  fsm s := s.ipcp
  put f s := { s with ipcp := f }
  timeout s := s
  untimeout s := s
  note e s :=
    match e with
    | .sconfreq _ _ => { s with said := true }
    | .sent p => if p.code = confack then { s with said := true } else s
    | _ => s
  peerMru s := s.link.peerMru
  hello s := a.client && (s.link.want.passive || s.link.want.silent)

/-- The callbacks that IPCP does not have, and those that only tell the driver,
do nothing. -/
def ipcpLower : LowerCallbacks (Session σ) where
  resetci s := { s with net := ipcpResetci s.net }
  ci := some
    (fun s => ipcpCilen s.net.got,
     fun s room =>
      ({ s with net := (ipcpAddci s.net room).1 }, (ipcpAddci s.net room).2))
  down s := s
  starting s := s

def ipcpOpen (s : Session σ) : Session σ := fsmOpen a.ipcpPort ipcpLower s

def ipcpLowerup (s : Session σ) : Session σ := fsmLowerup a.ipcpPort ipcpLower s

def ipcpLowerdown (s : Session σ) : Session σ := fsmLowerdown a.ipcpPort ipcpLower s

/-! ## CHAP by itself -/

/-- The port of CHAP, given what its four reports do. -/
def chapPortWith (report : ChapEvent → Session σ → Session σ) : ChapPort (Session σ) where
  cstate s := s.chap
  put c s := { s with chap := c }
  timeout _ s := s
  untimeout _ s := s
  note _ s := s
  random s := (a.rand s.chapDrawn, { s with chapDrawn := s.chapDrawn + 1 })
  unit := a.unit
  md5 := a.md5
  getSecret := a.getSecret
  peerSuccess := report .peerSuccess
  peerFail := report .peerFail
  withpeerSuccess := report .withpeerSuccess
  withpeerFail := report .withpeerFail

/-- The port for the functions that have nothing to report. -/
def chapQuiet : ChapPort (Session σ) := a.chapPortWith fun _ s => s

/-! ## LCP, down -/

/-- `lcp_echo_lowerdown`. -/
def lcpEchoLowerdown (s : Session σ) : Session σ := { s with echoTimerRunning := false }

/-- `link_down`. -/
def linkDown (s : Session σ) : Session σ := { s with phase := .terminate }

/-- `lcp_down`: alert other protocols. -/
def lcpDown (s : Session σ) : Session σ :=
  let s := chapLowerDown a.chapQuiet (a.ipcpLowerdown (lcpEchoLowerdown s))
  linkDown { s with link := { s.link with peerMru := mtu } }

/-- The history of `refused` and `said` begins anew when LCP comes up. -/
def lcpPort : Port (Session σ) where
  fsm s := s.lcp
  put f s := { s with lcp := f }
  timeout s := s
  untimeout s := s
  note e s :=
    match e with
    | .up => { s with refused := false, said := false }
    | _ => s
  peerMru s := s.link.peerMru
  hello s := a.client && (s.link.want.passive || s.link.want.silent)

/-- `lcp_addci` leaves the length it is given as it is, so that is what goes
out. -/
def lcpLower : LowerCallbacks (Session σ) where
  resetci s := { s with link := lcpResetci a.magic s.link }
  ci := some
    (fun s => lcpCilen s.link.got,
     fun s room => (s, (lcpAddci s.link.got).take room.toNat))
  down := a.lcpDown
  starting s := s

/-- `link_terminated`. -/
def linkTerminated (s : Session σ) : Session σ := { s with phase := .dead }

/-- `lcp_finished`: in passive or silent mode reopen the link for the next
connection. -/
def lcpFinished (s : Session σ) : Session σ :=
  if (s.lcp.state = .stopped ∨ s.lcp.state = .closed) ∧ s.lcp.flags.restart then
    fsmOpen a.lcpPort a.lcpLower s
  else linkTerminated s

/-- `lcp_open`. -/
def lcpOpen (s : Session σ) : Session σ :=
  let wo := s.link.want
  fsmOpen a.lcpPort a.lcpLower { s with lcp := { s.lcp with
    flags := ⟨wo.passive, wo.passive || wo.silent, wo.silent⟩ } }

/-- `lcp_close`. The first case makes the program terminate when a connection
hasn't been established in passive or silent mode. -/
def lcpClose (s : Session σ) : Session σ :=
  if s.lcp.state = .stopped ∧ (s.lcp.flags.passive ∨ s.lcp.flags.silent) then
    a.lcpFinished { s with lcp := { s.lcp with state := .closed } }
  else fsmClose a.lcpPort a.lcpLower s

/-- `lcp_lowerup`. -/
def lcpLowerup (s : Session σ) : Session σ :=
  fsmLowerup a.lcpPort a.lcpLower { s with link := { s.link with
    peerMru := mtu
    allow := { s.link.allow with asyncmap := a.xmitAccm } } }

/-- `lcp_lowerdown`. -/
def lcpLowerdown (s : Session σ) : Session σ := fsmLowerdown a.lcpPort a.lcpLower s

/-- `die`: close the connection, and unless the mode is passive or silent clean
up and exit. -/
def die (s : Session σ) : Session σ :=
  let s := a.lcpClose s
  if s.lcp.flags.passive ∨ s.lcp.flags.silent then s else { s with exited := true }

/-! ## IPCP on the link -/

/-- `ipcp_close`: the link is useless without IPCP. -/
def ipcpClose (s : Session σ) : Session σ := a.die (fsmClose a.ipcpPort ipcpLower s)

/-- `ipcp_up`: we must have a non-zero address for both ends of the link, and the
peer must be allowed to use his. -/
def ipcpUp (s : Session σ) : Session σ :=
  let ho := s.net.his
  let s := { s with net := { s.net with
    his := { ho with hisaddr := if ho.negAddr then ho.hisaddr else s.net.want.hisaddr } } }
  if s.net.his.hisaddr = 0 then a.ipcpClose s
  else if s.net.got.ouraddr = 0 then a.ipcpClose s
  else
    let r := a.ipUp s.net s.env
    if r.1 then { s with env := r.2 } else a.ipcpClose { s with env := r.2 }

/-- The rejection of our address brings the link down before anything else. -/
def ipcpRejected (s : Session σ) (p : List UInt8) : Bool × Session σ :=
  let s := if ipcpRejAddr s.net.got p then a.die s else s
  let r := ipcpRejci (s.ipcp.state = .opened) s.net p
  (r.1, { s with net := r.2 })

def ipcpCallbacks : Callbacks (Session σ) where
  toLowerCallbacks := ipcpLower
  ackci := some fun s p => (ipcpAckci s.net.got p, s)
  nakci := some fun s p =>
    let r := ipcpNakci (s.ipcp.state = .opened) s.net p
    (r.1, { s with net := r.2 })
  rejci := some a.ipcpRejected
  reqci := some fun s p reject =>
    let r := ipcpReqci s.net p reject
    (r.1, r.2.1, { s with net := r.2.2 })
  up := a.ipcpUp
  finished s := s
  retransmit s := s
  extcode := none

/-! ## The phases (`auth.c`) -/

/-- The peer was to authenticate itself, and it refused. -/
def linkRefused (s : Session σ) : Session σ := a.die { s with refused := true }

/-- The head of `link_established`: treat a peer that refused as though it
authenticated with PAP using an empty name and an empty password. -/
def checkRefusal (s : Session σ) : Session σ :=
  let go := s.link.got
  if s.authRequired ∧ !(go.negChap || go.negUpap) then
    if !s.link.want.negUpap then a.linkRefused s
    else
      let r := a.nullLogin s.env
      let s := { s with env := r.2 }
      if r.1 then s else a.linkRefused s
  else s

/-- Start to authenticate the peer. -/
def startPeer (s : Session σ) : UInt8 × Session σ :=
  let go := s.link.got
  if go.negChap then (chapPeer, chapAuthPeer a.chapQuiet s.ourName go.chapMdtype s)
  else if go.negUpap then (upapPeer, s)
  else (0, s)

/-- Start to authenticate ourselves. -/
def startWithpeer (s : Session σ) : UInt8 × Session σ :=
  let ho := s.link.his
  if ho.negChap then (chapWithpeer, chapAuthWithPeer a.chapQuiet s.ourName ho.chapMdtype s)
  else if ho.negUpap then (upapWithpeer, s)
  else (0, s)

/-- `link_established`: proceed to the authenticate or network phase. -/
def linkEstablished (s : Session σ) : Session σ :=
  let peer := a.startPeer { a.checkRefusal s with phase := .authenticate }
  let withpeer := a.startWithpeer peer.2
  let auth := peer.1 ||| withpeer.1
  let s := { withpeer.2 with authPending := auth }
  if auth = 0 then a.ipcpOpen { s with phase := .network } else s

/-- The common end of the two success functions: if there is no more
authentication still to be done, proceed to the network phase. -/
def authSuccess (bit : UInt8) (s : Session σ) : Session σ :=
  let s := { s with authPending := s.authPending &&& ~~~ bit }
  if s.authPending = 0 then a.ipcpOpen { s with phase := .network } else s

/-- `auth_peer_success`. -/
def authPeerSuccess (protocol : UInt16) (s : Session σ) : Session σ :=
  if protocol = chapProto then a.authSuccess chapPeer s
  else if protocol = upapProto then a.authSuccess upapPeer s
  else s

/-- `auth_withpeer_success`. An unknown protocol is not the end of it here. -/
def authWithpeerSuccess (protocol : UInt16) (s : Session σ) : Session σ :=
  if protocol = chapProto then a.authSuccess chapWithpeer s
  else if protocol = upapProto then a.authSuccess upapWithpeer s
  else a.authSuccess 0 s

/-- `auth_peer_fail`: take the link down. -/
def authPeerFail (s : Session σ) : Session σ := a.die s

/-- `auth_withpeer_fail`: there's not much we can do. -/
def authWithpeerFail (s : Session σ) : Session σ := s

/-- The port of CHAP, with its reports. -/
def chapPort : ChapPort (Session σ) :=
  { a.chapQuiet with
    peerSuccess := a.authPeerSuccess chapProto
    peerFail := a.authPeerFail
    withpeerSuccess := a.authWithpeerSuccess chapProto
    withpeerFail := authWithpeerFail }

/-! ## LCP, up -/

/-- `LcpLinkFailure`. -/
def lcpLinkFailure (s : Session σ) : Session σ :=
  if s.lcp.state = .opened then { a.lcpLowerdown s with phase := .terminate } else s

/-- The test at the head of `LcpSendEchoRequest`: detect the failure of the
peer. -/
def lcpEchoFailure (s : Session σ) : Session σ :=
  if s.echoFails ≠ 0 then
    let failed := decide (s.echoFails ≤ s.echosPending)
    let s := { s with echosPending := s.echosPending + 1 }
    if failed then a.die { a.lcpLinkFailure s with echosPending := 0 } else s
  else s

/-- `LcpSendEchoRequest`. -/
def lcpSendEchoRequest (s : Session σ) : Session σ :=
  let s := a.lcpEchoFailure s
  if s.lcp.state = .opened then
    let magic := if s.link.got.negMagicnumber then s.link.got.magicnumber else 0
    fsmSdata a.lcpPort echoreq s.echoNumber.toUInt8 (put32 magic)
      { s with echoNumber := s.echoNumber + 1 }
  else s

/-- `LcpEchoCheck`. -/
def lcpEchoCheck (s : Session σ) : Session σ :=
  { a.lcpSendEchoRequest s with echoTimerRunning := true }

/-- `LcpEchoTimeout`. -/
def lcpEchoTimeout (s : Session σ) : Session σ :=
  if s.echoTimerRunning then a.lcpEchoCheck { s with echoTimerRunning := false } else s

/-- `lcp_echo_lowerup`. -/
def lcpEchoLowerup (s : Session σ) : Session σ :=
  let s := { s with echosPending := 0, echoNumber := 0, echoTimerRunning := false }
  if s.echoInterval ≠ 0 then a.lcpEchoCheck s else s

/-- The options as `lcp_up` leaves them. -/
def lcpUpOptions (o : Lcp) : Lcp :=
  let go := o.got
  let ho := o.his
  { o with
    got := { go with magicnumber := if go.negMagicnumber then go.magicnumber else 0 }
    his := { ho with magicnumber := if ho.negMagicnumber then ho.magicnumber else 0 }
    peerMru := if ho.negMru then ho.mru.toNat else o.peerMru }

/-- `lcp_up`: start CHAP, IPCP, etc., and only then find out who has to
authenticate. -/
def lcpUp (s : Session σ) : Session σ :=
  let s := chapLowerUp a.chapQuiet { s with link := lcpUpOptions s.link }
  a.linkEstablished (a.lcpEchoLowerup (a.ipcpLowerup s))

/-- `lcp_nakci`, which may not return. -/
def lcpNaked (s : Session σ) (p : List UInt8) : Bool × Session σ :=
  let r := lcpNakci a.magic (s.lcp.state = .opened) s.link p
  match r.1 with
  | some good => (good, { s with link := r.2 })
  | none => (false, { s with link := r.2, stuck := true })

/-- The table without the callback for the codes of LCP. -/
def lcpCallbacks₀ : Callbacks (Session σ) where
  toLowerCallbacks := a.lcpLower
  ackci := some fun s p => (lcpAckci s.link.got p, s)
  nakci := some a.lcpNaked
  rejci := some fun s p =>
    let r := lcpRejci (s.lcp.state = .opened) s.link p
    (r.1, { s with link := r.2 })
  reqci := some fun s p reject =>
    let r := lcpReqci a.magic s.link p reject
    (r.1, r.2.1, { s with link := r.2.2 })
  up := a.lcpUp
  finished := a.lcpFinished
  retransmit s := s
  extcode := none

/-- `demuxprotrej`. -/
def demuxprotrej (protocol : UInt16) (s : Session σ) : Session σ :=
  if protocol = lcpProto then fsmProtreject a.lcpPort a.lcpCallbacks₀ s
  else if protocol = ipcpProto then a.ipcpLowerdown s
  else if protocol = chapProto then chapProtocolReject a.chapPort s
  else s

/-- `lcp_rprotrej`: figure out which protocol is rejected and inform it. -/
def lcpRprotrej (inp : List UInt8) (s : Session σ) : Session σ :=
  if inp.length < 2 then s
  else if s.lcp.state ≠ .opened then s
  else a.demuxprotrej (shortAt inp) s

/-- `lcp_received_echo_reply`: don't count replies from ourselves. Four octets
are read, whatever the length of the packet. -/
def lcpReceivedEchoReply (inp : List UInt8) (s : Session σ) : Session σ :=
  let go := s.link.got
  if go.negMagicnumber ∧ longAt (inp ++ a.beyond s.env) = go.magicnumber then s
  else { s with echosPending := 0 }

/-- `lcp_extcode`. The answer to an Echo-Request changes nothing here. -/
def lcpExtcode (s : Session σ) (p : CpPacket) : Bool × Session σ :=
  if p.code = protrej then (true, a.lcpRprotrej p.data s)
  else if p.code = echoreq then (true, s)
  else if p.code = echorep then (true, a.lcpReceivedEchoReply p.data s)
  else if p.code = discreq then (true, s)
  else (false, s)

def lcpCallbacks : Callbacks (Session σ) :=
  { a.lcpCallbacks₀ with extcode := some a.lcpExtcode }

/-! ## The task (`pppLib.c`) -/

/-- `lcp_sprotrej`. -/
def lcpSprotrej (p : List UInt8) (s : Session σ) : Session σ :=
  let s := { s with lcp := { s.lcp with id := s.lcp.id + 1 } }
  fsmSdata a.lcpPort protrej s.lcp.id p s

/-- One packet in `io`: all non-LCP packets are tossed unless LCP is open. -/
def packetIn (protocol : UInt16) (inpacket : List UInt8) (s : Session σ) : Session σ :=
  if protocol ≠ lcpProto ∧ s.lcp.state ≠ .opened then s
  else if protocol = lcpProto then fsmInput a.lcpPort a.lcpCallbacks inpacket s
  else if protocol = ipcpProto then fsmInput a.ipcpPort a.ipcpCallbacks inpacket s
  else if protocol = upapProto then s
  else if protocol = chapProto then chapInput a.chapPort inpacket s
  else a.lcpSprotrej (put16 protocol ++ inpacket) s

end Stack

/-- A call that PAP makes. -/
inductive AuthCall where
  | peerSuccess (protocol : UInt16)
  | peerFail
  | withpeerSuccess (protocol : UInt16)
  | withpeerFail
deriving DecidableEq, Repr

inductive SessionEvent where
  | lowerup
  | lowerdown
  | open
  | close
  | packet (protocol : UInt16) (inpacket : List UInt8)
  | lcpTimeout
  | ipcpTimeout
  | chapTimeout (t : ChapTimer)
  | echoTimeout
  | auth (call : AuthCall)
  /-- `SIGHUP` and `SIGINT`. -/
  | intr
  | term
deriving DecidableEq, Repr

namespace Stack

variable (a : Stack σ)

def authCall : AuthCall → Session σ → Session σ
  | .peerSuccess protocol, s => a.authPeerSuccess protocol s
  | .peerFail, s => a.authPeerFail s
  | .withpeerSuccess protocol, s => a.authWithpeerSuccess protocol s
  | .withpeerFail, s => authWithpeerFail s

def chapTimeout : ChapTimer → Session σ → Session σ
  | .challengeTimeout, s => chapChallengeTimeout a.chapPort s
  | .responseTimeout, s => chapResponseTimeout a.chapPort s
  | .rechallenge, s => chapRechallenge a.chapPort s

def handle (s : Session σ) : SessionEvent → Session σ
  | .lowerup => a.lcpLowerup s
  | .lowerdown => a.lcpLowerdown s
  | .open => a.lcpOpen s
  | .close => a.lcpClose s
  | .packet protocol inpacket => a.packetIn protocol inpacket s
  | .lcpTimeout => fsmTimeout a.lcpPort a.lcpCallbacks s
  | .ipcpTimeout => fsmTimeout a.ipcpPort a.ipcpCallbacks s
  | .chapTimeout t => a.chapTimeout t s
  | .echoTimeout => a.lcpEchoTimeout s
  | .auth call => a.authCall call s
  | .intr => a.die s
  -- even in passive or silent mode, force `die` to delete
  | .term => a.die { s with lcp := { s.lcp with flags := ⟨false, false, false⟩ } }

/-- The loop of `ppp_task`: when the link is dead the task ends. -/
def loop (s : Session σ) : Session σ :=
  if s.phase = .dead then { a.die s with exited := true } else s

def step (s : Session σ) (e : SessionEvent) : Session σ :=
  if s.exited ∨ s.stuck then s else a.loop (a.handle s e)

end Stack

end VxWorks.Ppp
