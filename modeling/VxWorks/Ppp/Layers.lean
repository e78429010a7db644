import VxWorks.Ppp.FsmRun
import VxWorks.Ppp.Session

/-!
# LCP and IPCP, each with a history

In `Session` the layers call each other and keep neither callouts nor a record
of what went out. Here each of the two automata is taken by itself, with the
callbacks that act on its own options as they are in the source, and the others
as arbitrary as they have to be: what the layers above do when LCP comes up, or
what a Protocol-Reject does to them, shows in whether the link is closed again
and in nothing else. So every run of a session is a run of each of the two, and
what holds in every run of these holds in a session.

What is done with an event is left to the port. The plain port adds it to the
history; a result that counts something has a port of its own.
-/

namespace VxWorks.Ppp

open VxWorks.Lib

/-- Where an automaton lives by itself. -/
def World.portOf {σ : Type} (peerMru : σ → Int) (hello : σ → Bool)
    (note : FsmEvent → World σ → World σ) : Port (World σ) where
  fsm w := w.f
  put f w := { w with f := f }
  timeout w := { w with pending := w.pending + 1 }
  untimeout w := { w with pending := w.pending - 1 }
  note := note
  peerMru w := peerMru w.env
  hello w := hello w.env

/-- The event goes into the history. -/
def World.record {σ : Type} (e : FsmEvent) (w : World σ) : World σ :=
  { w with log := e :: w.log }

/-- The assignments to the record that its owners make. -/
def World.config {σ : Type} (w : World σ) (flags : FsmFlags)
    (timeouttime maxconfreq maxterm maxnak : Int) : World σ :=
  { w with f := { w.f with
    flags := flags
    timeouttime := timeouttime
    maxconfreqtransmits := maxconfreq
    maxtermtransmits := maxterm
    maxnakloops := maxnak } }

/-! ## LCP -/

structure LcpLayer (σ : Type) where
  link : Lcp
  env : σ

/-- What LCP is given. -/
structure LcpRest (σ : Type) where
  magic : Nat → UInt32
  xmitAccm : UInt32
  client : Bool
  /-- The layers above are told, and the flag says that the link is closed again. -/
  up : Fsm → Lcp → σ → Bool × σ
  down : σ → σ
  terminated : σ → σ
  /-- A Protocol-Reject for one of the other protocols. -/
  demux : UInt16 → σ → σ
  echoReply : List UInt8 → σ → σ
  /-- What the buffer holds behind a packet. -/
  beyond : σ → List UInt8

namespace LcpRest

variable {σ : Type} (a : LcpRest σ)

def portWith (note : FsmEvent → World (LcpLayer σ) → World (LcpLayer σ)) :
    Port (World (LcpLayer σ)) :=
  World.portOf (fun e => e.link.peerMru)
    (fun e => a.client && (e.link.want.passive || e.link.want.silent)) note

/-- The port of a history. -/
def recorded : Port (World (LcpLayer σ)) := a.portWith World.record

def onLink (g : Lcp → Lcp) (w : World (LcpLayer σ)) : World (LcpLayer σ) :=
  { w with env := { w.env with link := g w.env.link } }

def lower : LowerCallbacks (World (LcpLayer σ)) where
  resetci := onLink (lcpResetci a.magic)
  ci := some
    (fun w => lcpCilen w.env.link.got,
     fun w room => (w, (lcpAddci w.env.link.got).take room.toNat))
  down w := { w with env := {
    link := { w.env.link with peerMru := mtu }, env := a.down w.env.env } }
  starting w := w

variable (P : Port (World (LcpLayer σ)))

/-- `lcp_finished`. -/
def finished (w : World (LcpLayer σ)) : World (LcpLayer σ) :=
  if (w.f.state = .stopped ∨ w.f.state = .closed) ∧ w.f.flags.restart then
    fsmOpen P a.lower w
  else { w with env := { w.env with env := a.terminated w.env.env } }

/-- `lcp_close`. -/
def close (w : World (LcpLayer σ)) : World (LcpLayer σ) :=
  if w.f.state = .stopped ∧ (w.f.flags.passive ∨ w.f.flags.silent) then
    a.finished P { w with f := { w.f with state := .closed } }
  else fsmClose P a.lower w

/-- `lcp_up`. -/
def goUp (w : World (LcpLayer σ)) : World (LcpLayer σ) :=
  let w := onLink Stack.lcpUpOptions w
  let r := a.up w.f w.env.link w.env.env
  let w := { w with env := { w.env with env := r.2 } }
  if r.1 then a.close P w else w

/-- The table without the callback for the codes of LCP. Where `lcp_nakci` does not return
nothing comes after it, and here the Nak is refused. -/
def callbacks₀ : Callbacks (World (LcpLayer σ)) where
  toLowerCallbacks := a.lower
  ackci := some fun w p => (lcpAckci w.env.link.got p, w)
  nakci := some fun w p =>
    let r := lcpNakci a.magic (w.f.state = .opened) w.env.link p
    (r.1.getD false, onLink (fun _ => r.2) w)
  rejci := some fun w p =>
    let r := lcpRejci (w.f.state = .opened) w.env.link p
    (r.1, onLink (fun _ => r.2) w)
  reqci := some fun w p reject =>
    let r := lcpReqci a.magic w.env.link p reject
    (r.1, r.2.1, onLink (fun _ => r.2.2) w)
  up := a.goUp P
  finished := a.finished P
  retransmit w := w
  extcode := none

/-- `lcp_rprotrej`. -/
def rprotrej (inp : List UInt8) (w : World (LcpLayer σ)) : World (LcpLayer σ) :=
  if inp.length < 2 then w
  else if w.f.state ≠ .opened then w
  else if shortAt inp = lcpProto then fsmProtreject P (a.callbacks₀ P) w
  else { w with env := { w.env with env := a.demux (shortAt inp) w.env.env } }

/-- The data of an Echo-Reply. The magic number is written over the front of the request
in the buffer, and at least `CILEN_LONG` octets are sent. -/
def echoData (inp : List UInt8) (w : World (LcpLayer σ)) : List UInt8 :=
  (put32 w.env.link.got.magicnumber ++ (inp ++ a.beyond w.env.env).drop 4).take
    (max inp.length cilenLong.toNat)

/-- `lcp_extcode`. -/
def extcode (w : World (LcpLayer σ)) (p : CpPacket) : Bool × World (LcpLayer σ) :=
  if p.code = protrej then (true, a.rprotrej P p.data w)
  else if p.code = echoreq then
    (true, if w.f.state ≠ .opened then w
      else fsmSdata P echorep p.id (a.echoData p.data w) w)
  else if p.code = echorep then
    (true, { w with env := { w.env with env := a.echoReply p.data w.env.env } })
  else if p.code = discreq then (true, w)
  else (false, w)

def callbacks : Callbacks (World (LcpLayer σ)) :=
  { a.callbacks₀ P with extcode := some (a.extcode P) }

/-- `lcp_lowerup`. -/
def lowerup (w : World (LcpLayer σ)) : World (LcpLayer σ) :=
  fsmLowerup P a.lower (onLink (fun o =>
    { o with peerMru := mtu, allow := { o.allow with asyncmap := a.xmitAccm } }) w)

/-- `lcp_sprotrej`, of a packet that `io` has no protocol for: only an open link gets so
far. -/
def sprotrej (p : List UInt8) (w : World (LcpLayer σ)) : World (LcpLayer σ) :=
  if w.f.state ≠ .opened then w
  else
    let w := { w with f := { w.f with id := w.f.id + 1 } }
    fsmSdata P protrej w.f.id p w

end LcpRest

/-- What can happen to LCP. -/
inductive LcpCall where
  | fsm (call : FsmCall)
  /-- A packet of a protocol that nobody knows. -/
  | unknown (protocol : UInt16) (inpacket : List UInt8)
deriving DecidableEq, Repr

namespace LcpRest

variable {σ : Type} (a : LcpRest σ) (P : Port (World (LcpLayer σ)))

def step (w : World (LcpLayer σ)) : LcpCall → World (LcpLayer σ)
  | .fsm .lowerup => a.lowerup P w
  | .fsm .lowerdown => fsmLowerdown P a.lower w
  | .fsm .open => fsmOpen P a.lower w
  | .fsm .close => a.close P w
  | .fsm .timeout => fsmTimeout P (a.callbacks P) { w with pending := w.pending - 1 }
  | .fsm (.input inpacket) => fsmInput P (a.callbacks P) inpacket w
  | .fsm .protreject => fsmProtreject P (a.callbacks P) w
  | .fsm (.config flags timeouttime maxconfreq maxterm maxnak) =>
      w.config flags timeouttime maxconfreq maxterm maxnak
  | .unknown protocol inpacket => sprotrej P (put16 protocol ++ inpacket) w

end LcpRest

/-! A property of LCP that neither the events of the lower layer nor what lies around can
break is kept by the callbacks that close the link again. -/

structure LcpRest.Keeps {σ : Type} (a : LcpRest σ)
    (note : FsmEvent → World (LcpLayer σ) → World (LcpLayer σ))
    (I : World (LcpLayer σ) → Prop) : Prop where
  lower : a.lower.Keeps (a.portWith note) I
  env : ∀ {w} e, I w → I { w with env := { w.env with env := e } }
  upOptions : ∀ {w}, I w → I (LcpRest.onLink Stack.lcpUpOptions w)

namespace LcpRest.Keeps

variable {σ : Type} {a : LcpRest σ} {note : FsmEvent → World (LcpLayer σ) → World (LcpLayer σ)}
  {I : World (LcpLayer σ) → Prop} {w : World (LcpLayer σ)}

theorem finished (k : a.Keeps note I) (h : I w) : I (a.finished (a.portWith note) w) := by
  rw [LcpRest.finished]
  split
  · exact k.lower.fsmOpen h
  · exact k.env _ h

theorem close (k : a.Keeps note I) (h : I w) : I (a.close (a.portWith note) w) := by
  rw [LcpRest.close]
  split
  · exact k.finished (k.lower.set (s := w) rfl rfl h)
  · exact k.lower.fsmClose h

theorem goUp (k : a.Keeps note I) (h : I w) : I (a.goUp (a.portWith note) w) := by
  rw [LcpRest.goUp]
  dsimp only
  split
  · exact k.close (k.env _ (k.upOptions h))
  · exact k.env _ (k.upOptions h)

end LcpRest.Keeps

/-- A property that no step of LCP can break, the assignments to the record apart. -/
structure LcpRest.KeepsRun {σ : Type} (a : LcpRest σ)
    (note : FsmEvent → World (LcpLayer σ) → World (LcpLayer σ))
    (I : World (LcpLayer σ) → Prop) : Prop extends a.Keeps note I where
  callbacks : (a.callbacks₀ (a.portWith note)).Keeps (a.portWith note) I
  reply : ∀ {w} id inp, I w →
    I (rconfreqReply (a.portWith note) (a.callbacks₀ (a.portWith note)) id inp w)
  answer : ∀ {w} code id data, code = coderej ∨ code = echorep ∨ code = protrej → I w →
    I (fsmSdata (a.portWith note) code id data w)
  lowerOptions : ∀ {w}, I w → I (LcpRest.onLink (fun o =>
    { o with peerMru := mtu, allow := { o.allow with asyncmap := a.xmitAccm } }) w)

namespace LcpRest.KeepsRun

variable {σ : Type} {a : LcpRest σ} {note : FsmEvent → World (LcpLayer σ) → World (LcpLayer σ)}
  {I : World (LcpLayer σ) → Prop} {w : World (LcpLayer σ)}

theorem extcode (k : a.KeepsRun note I) (p : CpPacket) (h : I w) :
    I (a.extcode (a.portWith note) w p).2 := by
  rw [LcpRest.extcode]
  split
  · dsimp only
    rw [rprotrej]
    split
    · exact h
    · split
      · exact h
      · split
        · exact k.callbacks.protreject h
        · exact k.env _ h
  · split
    · dsimp only
      split
      · exact h
      · exact k.answer echorep _ _ (.inr (.inl rfl)) h
    · split
      · exact k.env _ h
      · split <;> exact h

theorem input (k : a.KeepsRun note I) :
    (a.callbacks (a.portWith note)).KeepsInput (a.portWith note) I where
  toCallbacks := { k.callbacks with }
  reply id inp h := k.reply id inp h
  ext p h := k.extcode p h
  coderej id data h := k.answer coderej id data (.inl rfl) h

theorem step (k : a.KeepsRun note I) (call : LcpCall)
    (hconfig : ∀ flags timeouttime maxconfreq maxterm maxnak,
      call = .fsm (.config flags timeouttime maxconfreq maxterm maxnak) →
        I (w.config flags timeouttime maxconfreq maxterm maxnak))
    (h : I w) : I (a.step (a.portWith note) w call) := by
  match call with
  | .unknown protocol inpacket =>
      show I (sprotrej (a.portWith note) (put16 protocol ++ inpacket) w)
      rw [sprotrej]
      split
      · exact h
      · exact k.answer protrej _ _ (.inr (.inr rfl)) (k.lower.set (s := w) rfl rfl h)
  | .fsm .lowerup => exact k.lower.lowerup (k.lowerOptions h)
  | .fsm .lowerdown => exact k.lower.lowerdown h
  | .fsm .open => exact k.lower.fsmOpen h
  | .fsm .close => exact k.close h
  | .fsm .timeout => exact k.input.fsmTimeout (k.lower.untimeout h)
  | .fsm (.input inpacket) => exact k.input.input inpacket h
  | .fsm .protreject => exact k.input.protreject h
  | .fsm (.config flags timeouttime maxconfreq maxterm maxnak) =>
      exact hconfig flags timeouttime maxconfreq maxterm maxnak rfl

end LcpRest.KeepsRun

/-- LCP with nothing around it. -/
def LcpRest.bare : LcpRest Unit where
  magic _ := 7
  xmitAccm := 0
  client := false
  up _ _ _ := (false, ())
  down _ := ()
  terminated _ := ()
  demux _ _ := ()
  echoReply _ _ := ()
  beyond _ := []

/-! ## IPCP -/

structure IpcpLayer (σ : Type) where
  net : Ipcp
  peerMru : Int
  /-- What `ipcp_addci` found, newest first: the options, and the room it was given. -/
  asked : List (Ipcp × Int)
  env : σ

/-- What IPCP is given. -/
structure IpcpRest (σ : Type) where
  /-- The string `CLIENT` goes out ahead of a request. -/
  hello : σ → Bool
  /-- `auth_ip_addr`, `sifaddr` and `sifup` all succeed. -/
  ipUp : Ipcp → σ → Bool × σ
  down : σ → σ
  /-- `die`; the flag says that it takes an open link down, and IPCP with it. -/
  die : σ → Bool × σ

namespace IpcpRest

variable {σ : Type} (a : IpcpRest σ)

def portWith (note : FsmEvent → World (IpcpLayer σ) → World (IpcpLayer σ)) :
    Port (World (IpcpLayer σ)) :=
  World.portOf (fun e => e.peerMru) (fun e => a.hello e.env) note

def recorded : Port (World (IpcpLayer σ)) := a.portWith World.record

def onNet (g : Ipcp → Ipcp) (w : World (IpcpLayer σ)) : World (IpcpLayer σ) :=
  { w with env := { w.env with net := g w.env.net } }

def lower : LowerCallbacks (World (IpcpLayer σ)) where
  resetci := onNet ipcpResetci
  ci := some
    (fun w => ipcpCilen w.env.net.got,
     fun w room =>
      ({ w with env := { w.env with
          net := (ipcpAddci w.env.net room).1
          asked := (w.env.net, room) :: w.env.asked } },
        (ipcpAddci w.env.net room).2))
  down w := { w with env := { w.env with env := a.down w.env.env } }
  starting w := w

variable (P : Port (World (IpcpLayer σ)))

/-- `die`, as IPCP sees it. -/
def goDie (w : World (IpcpLayer σ)) : World (IpcpLayer σ) :=
  let r := a.die w.env.env
  let w := { w with env := { w.env with env := r.2 } }
  if r.1 then fsmLowerdown P a.lower w else w

/-- `ipcp_close`. -/
def close (w : World (IpcpLayer σ)) : World (IpcpLayer σ) := a.goDie P (fsmClose P a.lower w)

/-- `ipcp_up`. -/
def goUp (w : World (IpcpLayer σ)) : World (IpcpLayer σ) :=
  let w := onNet (fun o =>
    { o with his := { o.his with
      hisaddr := if o.his.negAddr then o.his.hisaddr else o.want.hisaddr } }) w
  if w.env.net.his.hisaddr = 0 then a.close P w
  else if w.env.net.got.ouraddr = 0 then a.close P w
  else
    let r := a.ipUp w.env.net w.env.env
    let w := { w with env := { w.env with env := r.2 } }
    if r.1 then w else a.close P w

/-- `ipcp_rejci`: the rejection of our address brings the link down. -/
def rejected (w : World (IpcpLayer σ)) (p : List UInt8) : Bool × World (IpcpLayer σ) :=
  let w := if ipcpRejAddr w.env.net.got p then a.goDie P w else w
  let r := ipcpRejci (w.f.state = .opened) w.env.net p
  (r.1, onNet (fun _ => r.2) w)

def callbacks : Callbacks (World (IpcpLayer σ)) where
  toLowerCallbacks := a.lower
  ackci := some fun w p => (ipcpAckci w.env.net.got p, w)
  nakci := some fun w p =>
    let r := ipcpNakci (w.f.state = .opened) w.env.net p
    (r.1, onNet (fun _ => r.2) w)
  rejci := some (a.rejected P)
  reqci := some fun w p reject =>
    let r := ipcpReqci w.env.net p reject
    (r.1, r.2.1, onNet (fun _ => r.2.2) w)
  up := a.goUp P
  finished w := w
  retransmit w := w
  extcode := none

def step (w : World (IpcpLayer σ)) : FsmCall → World (IpcpLayer σ)
  | .lowerup => fsmLowerup P a.lower w
  | .lowerdown => fsmLowerdown P a.lower w
  | .open => fsmOpen P a.lower w
  | .close => a.close P w
  | .timeout => fsmTimeout P (a.callbacks P) { w with pending := w.pending - 1 }
  | .input inpacket => fsmInput P (a.callbacks P) inpacket w
  | .protreject => fsmProtreject P (a.callbacks P) w
  | .config flags timeouttime maxconfreq maxterm maxnak =>
      w.config flags timeouttime maxconfreq maxterm maxnak

end IpcpRest

structure IpcpRest.Keeps {σ : Type} (a : IpcpRest σ)
    (note : FsmEvent → World (IpcpLayer σ) → World (IpcpLayer σ))
    (I : World (IpcpLayer σ) → Prop) : Prop where
  lower : a.lower.Keeps (a.portWith note) I
  env : ∀ {w} e, I w → I { w with env := { w.env with env := e } }
  his : ∀ {w} ho, I w → I (IpcpRest.onNet (fun o => { o with his := ho }) w)

namespace IpcpRest.Keeps

variable {σ : Type} {a : IpcpRest σ}
  {note : FsmEvent → World (IpcpLayer σ) → World (IpcpLayer σ)}
  {I : World (IpcpLayer σ) → Prop} {w : World (IpcpLayer σ)}

theorem goDie (k : a.Keeps note I) (h : I w) : I (a.goDie (a.portWith note) w) := by
  rw [IpcpRest.goDie]
  dsimp only
  split
  · exact k.lower.lowerdown (k.env _ h)
  · exact k.env _ h

theorem close (k : a.Keeps note I) (h : I w) : I (a.close (a.portWith note) w) :=
  k.goDie (k.lower.fsmClose h)

theorem goUp (k : a.Keeps note I) (h : I w) : I (a.goUp (a.portWith note) w) := by
  have hhis := k.his { w.env.net.his with hisaddr :=
    if w.env.net.his.negAddr then w.env.net.his.hisaddr else w.env.net.want.hisaddr } h
  rw [IpcpRest.goUp]
  dsimp only
  split
  · exact k.close hhis
  · split
    · exact k.close hhis
    · split
      · exact k.env _ hhis
      · exact k.close (k.env _ hhis)

end IpcpRest.Keeps

/-- A property that no step of IPCP can break, the assignments to the record apart. -/
structure IpcpRest.KeepsRun {σ : Type} (a : IpcpRest σ)
    (note : FsmEvent → World (IpcpLayer σ) → World (IpcpLayer σ))
    (I : World (IpcpLayer σ) → Prop) : Prop extends a.Keeps note I where
  callbacks : (a.callbacks (a.portWith note)).Keeps (a.portWith note) I
  reply : ∀ {w} id inp, I w →
    I (rconfreqReply (a.portWith note) (a.callbacks (a.portWith note)) id inp w)
  coderej : ∀ {w} id data, I w → I (fsmSdata (a.portWith note) coderej id data w)

namespace IpcpRest.KeepsRun

variable {σ : Type} {a : IpcpRest σ}
  {note : FsmEvent → World (IpcpLayer σ) → World (IpcpLayer σ)}
  {I : World (IpcpLayer σ) → Prop} {w : World (IpcpLayer σ)}

theorem input (k : a.KeepsRun note I) :
    (a.callbacks (a.portWith note)).KeepsInput (a.portWith note) I where
  toCallbacks := k.callbacks
  reply id inp h := k.reply id inp h
  ext _ h := h
  coderej id data h := k.coderej id data h

theorem step (k : a.KeepsRun note I) (call : FsmCall)
    (hconfig : ∀ flags timeouttime maxconfreq maxterm maxnak,
      call = .config flags timeouttime maxconfreq maxterm maxnak →
        I (w.config flags timeouttime maxconfreq maxterm maxnak))
    (h : I w) : I (a.step (a.portWith note) w call) := by
  cases call with
  | lowerup => exact k.lower.lowerup h
  | lowerdown => exact k.lower.lowerdown h
  | «open» => exact k.lower.fsmOpen h
  | close => exact k.close h
  | timeout => exact k.callbacks.fsmTimeout (k.lower.untimeout h)
  | input inpacket => exact k.input.input inpacket h
  | protreject => exact k.callbacks.protreject h
  | config flags timeouttime maxconfreq maxterm maxnak =>
      exact hconfig flags timeouttime maxconfreq maxterm maxnak rfl

end IpcpRest.KeepsRun

def IpcpRest.bare : IpcpRest Unit where
  hello _ := false
  ipUp _ _ := (true, ())
  down _ := ()
  die _ := (false, ())

end VxWorks.Ppp
