import VxWorks.Ppp.FsmHandshake
import VxWorks.Ppp.FsmRetry
import VxWorks.Ppp.NakAccepted

/-!
# One call of LCP, seen from the other end of the line

What the peer can tell of a call is in the history: which packets went out, and
in which use of an id, where a use is a new Configure-Request with its
retransmissions. `Turn` says what there is to know about the history a call
leaves behind, and about the options that go with it. Most of it does not
depend on the control state. What does is about the states in which a
negotiation goes on or has come to its end: these are entered from the others
by a new request only, and while they last `gotoptions` is what every request of
the last use has asked for.
-/

namespace VxWorks.Ppp

open VxWorks.Lib

/-! ## Reading the history -/

/-- Number of uses. -/
@[simp] def uses : List FsmEvent → Nat
  | .sconfreq false _ :: l => uses l + 1
  | _ :: l => uses l
  | [] => 0

/-- The options of the last request of the peer's. -/
@[simp] def lastHeard : List FsmEvent → Option (List UInt8)
  | .rcvd p :: l => if p.code = confreq then some p.data else lastHeard l
  | _ :: l => lastHeard l
  | [] => none

/-- What holds of every packet that went out, and of the history before it. -/
@[simp] def Every (P : CpPacket → List FsmEvent → Prop) : List FsmEvent → Prop
  | .sent q :: l => P q l ∧ Every P l
  | _ :: l => Every P l
  | [] => True

section

variable {P Q : CpPacket → List FsmEvent → Prop} {log : List FsmEvent}

theorem Every.imp (hPQ : ∀ q l, P q l → Q q l) (h : Every P log) : Every Q log := by
  induction log with
  | nil => exact h
  | cons e log ih =>
      cases e with
      | sent q => exact ⟨hPQ q log h.1, ih h.2⟩
      | _ => exact ih h

theorem Every.of_suffix {q : CpPacket} {l : List FsmEvent} (h : Every P log)
    (hl : .sent q :: l <:+ log) : P q l := by
  induction log with
  | nil => cases List.suffix_nil.mp hl
  | cons e log ih =>
      rcases List.suffix_cons_iff.mp hl with heq | hrest
      · cases heq
        exact h.1
      · cases e with
        | sent _ => exact ih h.2 hrest
        | _ => exact ih h hrest

/-- No packet went out before the history began. -/
theorem every_since {n : Nat} (h : log.length ≤ n) :
    Every (fun q l => n ≤ l.length → P q l) log := by
  induction log with
  | nil => trivial
  | cons e log ih =>
      rw [List.length_cons] at h
      have hrest := ih (by omega)
      cases e with
      | sent q => exact ⟨fun hn => by omega, hrest⟩
      | _ => exact hrest

theorem uses_mono {log log' : List FsmEvent} (h : log <:+ log') : uses log ≤ uses log' := by
  induction log' with
  | nil => rw [List.suffix_nil.mp h]
  | cons e log' ih =>
      rcases List.suffix_cons_iff.mp h with rfl | h
      · exact Nat.le_refl _
      · have hle := ih h
        cases e with
        | sconfreq retransmit id =>
            cases retransmit with
            | true => exact hle
            | false => exact Nat.le_succ_of_le hle
        | _ => exact hle

theorem every_uses {n : Nat} (h : uses log ≤ n) : Every (fun _ l => uses l ≤ n) log := by
  induction log with
  | nil => trivial
  | cons e log ih =>
      have hrest := ih (le_trans (uses_mono (List.suffix_cons e log)) h)
      cases e with
      | sent q => exact ⟨h, hrest⟩
      | _ => exact hrest

end

/-! ## What a call leaves behind -/

/-- The packet that comes in has this code. -/
def Hears (inc : Option CpPacket) (code : UInt8) : Prop := inc.map CpPacket.code = some code

/-- The options of the last request of the peer's, what comes in included. -/
def heardWith (inc : Option CpPacket) (log : List FsmEvent) : Option (List UInt8) :=
  match inc with
  | some p => lastHeard (.rcvd p :: log)
  | none => lastHeard log

/-- The record of a request that was acknowledged. -/
def lcpHeard (data : List UInt8) : LcpOptions :=
  { lcpSaid (reqCis data.length data) with negLqr := false }

/-- The peer's options are those of its last request. -/
def Recorded (log : List FsmEvent) (his : LcpOptions) : Prop :=
  ∃ data, lastHeard log = some data ∧ his = lcpHeard data

/-- What the last use of an id is about. -/
structure Asking (log : List FsmEvent) (reqid : UInt8) (got : LcpOptions) (peerMru : Int) :
    Prop where
  begun : 0 < uses log
  data : Every (fun q l => q.code = confreq → uses l = uses log → q.data = lcpAddci got) log
  /-- No Terminate-Request went out after it. -/
  termreq : Every (fun q l => q.code = termreq → uses l < uses log) log
  ids : acked log = true ∨ lastSconfreq log = some reqid
  room : minmru.toNat ≤ peerMru

variable {σ : Type}

/-- What holds between calls. -/
structure Steady (w : World (LcpLayer σ)) : Prop where
  mru : w.env.link.his.negMru = true → minmru ≤ w.env.link.his.mru
  asking : w.f.state.live = true →
    Asking w.log w.f.reqid w.env.link.got w.env.link.peerMru
  theirs : w.f.state = .acksent ∨ w.f.state = .opened → Recorded w.log w.env.link.his
  ours : w.f.state = .ackrcvd → acked w.log = true

section

variable (w₀ : World (LcpLayer σ)) (inc : Option CpPacket)

/-- Where the call began, and what went out since whatever the control state. -/
structure Sofar (log : List FsmEvent) (his : LcpOptions) : Prop where
  grown : w₀.log <:+ log
  heard : lastHeard log = heardWith inc w₀.log
  replies : Every (fun q l => w₀.log.length ≤ l.length → replyCode q.code → Hears inc confreq) log
  mru : his.negMru = true → minmru ≤ his.mru

/-- What went out since, and how the use began, where one goes on. -/
structure Since (log : List FsmEvent) : Prop where
  fresh : uses log = uses w₀.log → w₀.f.state.live = true
  termacks : Every (fun q l => w₀.log.length ≤ l.length → q.code = termack →
    Hears inc termreq ∨ uses l < uses log) log
  acks : acked log = true → uses log = uses w₀.log ∧
    (acked w₀.log = true ∨ ∃ p, inc = some p ∧ p.code = confack ∧ p.id = w₀.f.reqid)

/-- The link was open, and is still, but for another request than was acknowledged. -/
structure Slipped : Prop where
  opened : w₀.f.state = .opened
  noreq : ¬ Hears inc confreq
  termack : acked w₀.log = true → Hears inc termack

/-- The call, and what came in with it, from `w₀` to `w`. -/
structure Turn (w : World (LcpLayer σ)) : Prop where
  sofar : Sofar w₀ inc w.log w.env.link.his
  asking : w.f.state.live = true →
    Asking w.log w.f.reqid w.env.link.got w.env.link.peerMru ∧ Since w₀ inc w.log
  theirs : w.f.state = .acksent ∨ w.f.state = .opened → Recorded w.log w.env.link.his
  ours : w.f.state = .ackrcvd → acked w.log = true
  slips : w.f.state = .opened → acked w.log = true ∨ Slipped w₀ inc

end

section

variable {w₀ w : World (LcpLayer σ)} {inc : Option CpPacket} {log : List FsmEvent}
  {his got : LcpOptions} {reqid : UInt8} {peerMru : Int}

theorem Turn.steady (h : Turn w₀ inc w) : Steady w where
  mru := h.sofar.mru
  asking hl := (h.asking hl).1
  theirs := h.theirs
  ours := h.ours

/-- Nothing else of the instance matters. -/
theorem Turn.frame (h : Turn w₀ inc w) {w' : World (LcpLayer σ)} (hlog : w'.log = w.log)
    (hstate : w'.f.state = w.f.state) (hreqid : w'.f.reqid = w.f.reqid)
    (hlink : w'.env.link = w.env.link) : Turn w₀ inc w' := by
  obtain ⟨hsofar, hasking, htheirs, hours, hslips⟩ := h
  constructor
  · rw [hlog, hlink]
    exact hsofar
  · rw [hlog, hstate, hreqid, hlink]
    exact hasking
  · rw [hlog, hstate, hlink]
    exact htheirs
  · rw [hlog, hstate]
    exact hours
  · rw [hlog, hstate]
    exact hslips

/-! ### The events -/

theorem Sofar.say (h : Sofar w₀ inc log his) {e : FsmEvent} (he : ∀ q, e ≠ .sent q)
    (he' : ∀ p, e ≠ .rcvd p) : Sofar w₀ inc (e :: log) his := by
  have hgrown : w₀.log <:+ e :: log := h.grown.trans (List.suffix_cons e log)
  cases e with
  | sent q => exact absurd rfl (he q)
  | rcvd p => exact absurd rfl (he' p)
  | _ => exact ⟨hgrown, h.heard, h.replies, h.mru⟩

theorem Sofar.sent (h : Sofar w₀ inc log his) {q : CpPacket}
    (hq : replyCode q.code → Hears inc confreq) : Sofar w₀ inc (.sent q :: log) his :=
  ⟨h.grown.trans (List.suffix_cons _ log), h.heard, ⟨fun _ => hq, h.replies⟩, h.mru⟩

/-- Events that have no part in our own request. -/
def aside : FsmEvent → Bool
  | .rcvd _ | .client | .up | .down => true
  | _ => false

theorem Asking.say (h : Asking log reqid got peerMru) {e : FsmEvent} (he : aside e) :
    Asking (e :: log) reqid got peerMru := by
  cases e with
  | rcvd _ | client | up | down => exact ⟨h.begun, h.data, h.termreq, h.ids, h.room⟩
  | _ => cases he

theorem Since.say (h : Since w₀ inc log) {e : FsmEvent} (he : aside e) :
    Since w₀ inc (e :: log) := by
  cases e with
  | rcvd _ | client | up | down => exact ⟨h.fresh, h.termacks, h.acks⟩
  | _ => cases he

theorem Asking.sent (h : Asking log reqid got peerMru) {q : CpPacket} (hreq : q.code ≠ confreq)
    (hterm : q.code ≠ Ppp.termreq) : Asking (.sent q :: log) reqid got peerMru :=
  ⟨h.begun, ⟨fun hq => absurd hq hreq, h.data⟩, ⟨fun hq => absurd hq hterm, h.termreq⟩, h.ids,
    h.room⟩

theorem Since.sent (h : Since w₀ inc log) {q : CpPacket}
    (hq : q.code = termack → Hears inc termreq) : Since w₀ inc (.sent q :: log) :=
  ⟨h.fresh, ⟨fun _ hcode => .inl (hq hcode), h.termacks⟩, h.acks⟩

/-! ### The control state -/

theorem Turn.dead (h : Sofar w₀ inc w.log w.env.link.his) (hd : w.f.state.live = false) :
    Turn w₀ inc w := by
  have hne {st : FsmState} (hst : st.live = true) : w.f.state ≠ st := by
    rintro rfl
    rw [hst] at hd
    cases hd
  refine ⟨h, ?_, ?_, fun hs => absurd hs (hne rfl), fun hs => absurd hs (hne rfl)⟩
  · intro hl
    rw [hd] at hl
    cases hl
  · intro hs
    rcases hs with hs | hs
    · exact absurd hs (hne rfl)
    · exact absurd hs (hne rfl)

theorem Turn.reqsent (h : Sofar w₀ inc w.log w.env.link.his)
    (hask : Asking w.log w.f.reqid w.env.link.got w.env.link.peerMru ∧ Since w₀ inc w.log)
    (hs : w.f.state = .reqsent) : Turn w₀ inc w := by
  refine ⟨h, fun _ => hask, ?_, ?_, ?_⟩
  · rw [hs]
    rintro (h | h) <;> cases h
  · rw [hs]
    nofun
  · rw [hs]
    nofun

end

/-! ## The functions of `fsm.c` -/

section

variable {w₀ w : World (LcpLayer σ)} {inc : Option CpPacket}

theorem Sofar.request {log : List FsmEvent} {his : LcpOptions} (h : Sofar w₀ inc log his)
    (hello retransmit : Bool) (id : UInt8) (data : List UInt8) :
    Sofar w₀ inc (.sent ⟨confreq, id, data⟩ :: .sconfreq retransmit id ::
      ((if hello then [.client] else []) ++ log)) his := by
  have hhello : Sofar w₀ inc ((if hello then [.client] else []) ++ log) his := by
    cases hello with
    | false => exact h
    | true => exact h.say nofun nofun
  refine (hhello.say (e := .sconfreq retransmit id) nofun nofun).sent ?_
  intro hreply
  exact absurd hreply (by decide : ¬ replyCode confreq)

/-- A new use. -/
theorem asking_request {log : List FsmEvent} {his : LcpOptions} (h : Sofar w₀ inc log his)
    (hello : Bool) (id : UInt8) {link : Lcp} (hroom : minmru.toNat ≤ link.peerMru) :
    let log' := .sent ⟨confreq, id, lcpSconfreq link⟩ :: .sconfreq false id ::
      ((if hello then [.client] else []) ++ log)
    Asking log' id link.got link.peerMru ∧ Since w₀ inc log' ∧ acked log' = false := by
  intro log'
  have huses : uses log' = uses log + 1 := by cases hello <;> rfl
  have hold (P : CpPacket → List FsmEvent → Prop) (hP : Every P log) :
      Every P (.sconfreq false id :: ((if hello then [.client] else []) ++ log)) := by
    cases hello <;> exact hP
  have hmono := uses_mono h.grown
  have hevery : Every (fun _ l => uses l ≤ uses log) log := every_uses (Nat.le_refl _)
  refine ⟨⟨by omega, ⟨fun _ _ => ?_, hold _ (hevery.imp fun q l hl _ heq => by omega)⟩,
      ⟨fun hcode => absurd hcode (by decide : confreq ≠ termreq),
        hold _ (hevery.imp fun q l hl _ => by omega)⟩,
      .inr rfl, hroom⟩,
    ⟨fun heq => by omega,
      ⟨fun _ hcode => absurd hcode (by decide : confreq ≠ termack),
        hold _ (hevery.imp fun q l hl _ _ => .inr (by omega))⟩,
      fun hack => by cases hack⟩, rfl⟩
  exact ((lcpSconfreq_eq_iff link).mpr (room_for_options hroom link.got IpcpOptions.zero).1).symm

/-- A new request went out, and the control state is still what it was. -/
structure Requested (w₀ : World (LcpLayer σ)) (inc : Option CpPacket)
    (w w' : World (LcpLayer σ)) : Prop where
  sofar : Sofar w₀ inc w'.log w'.env.link.his
  asking : Asking w'.log w'.f.reqid w'.env.link.got w'.env.link.peerMru ∧ Since w₀ inc w'.log
  fresh : acked w'.log = false
  state : w'.f.state = w.f.state
  heard : lastHeard w'.log = lastHeard w.log
  his : w'.env.link.his = w.env.link.his

end

namespace LcpRest

section

variable (a : LcpRest σ)

/-- A request, seen from outside. -/
theorem sconfreq_record (retransmit : Bool) (w : World (LcpLayer σ)) :
    ∃ (hello : Bool) (link : Lcp),
      link = (if w.f.state.negotiating then w.env.link else lcpResetci a.magic w.env.link) ∧
      fsmSconfreq a.recorded a.lower retransmit w =
        { f := sentReq retransmit w.f
          pending := w.pending + 1
          log := .sent ⟨confreq, (sentReq retransmit w.f).reqid, lcpSconfreq link⟩ ::
            .sconfreq retransmit (sentReq retransmit w.f).reqid ::
            ((if hello then [.client] else []) ++ w.log)
          env := { w.env with link := link } } := by
  refine ⟨a.recorded.hello (sconfreqId a.recorded retransmit (sconfreqReset a.recorded a.lower w)),
    _, rfl, ?_⟩
  have hreset : sconfreqReset a.recorded a.lower w = { w with
      f := { w.f with nakloops := if w.f.state.negotiating then w.f.nakloops else 0 }
      env := { w.env with link :=
        if w.f.state.negotiating then w.env.link else lcpResetci a.magic w.env.link } } := by
    by_cases h : w.f.state.negotiating = true
    · rw [if_pos h, if_pos h]
      exact if_pos h
    · rw [if_neg h, if_neg h]
      exact if_neg h
  rw [fsmSconfreq, sconfreqHello]
  rw [hreset]
  cases a.recorded.hello _ <;> cases retransmit <;> rfl

end

variable {a : LcpRest σ} {w₀ w : World (LcpLayer σ)} {inc : Option CpPacket}

theorem sconfreq_new (h : Sofar w₀ inc w.log w.env.link.his)
    (hroom : w.f.state.negotiating = true → minmru.toNat ≤ w.env.link.peerMru) :
    Requested w₀ inc w (fsmSconfreq a.recorded a.lower false w) := by
  obtain ⟨hello, link, hlink, heq⟩ := a.sconfreq_record false w
  have hhis : link.his = w.env.link.his := by
    rw [hlink]
    split <;> rfl
  have hmru : minmru.toNat ≤ link.peerMru := by
    rw [hlink]
    split
    · next hneg => exact hroom hneg
    · exact (by decide : (minmru.toNat : Int) ≤ mtu)
  obtain ⟨hask, hsince, hfresh⟩ := asking_request h hello (sentReq false w.f).reqid hmru
  rw [heq]
  refine ⟨?_, ⟨hask, hsince⟩, hfresh, rfl, ?_, hhis⟩
  · rw [← hhis] at h
    exact h.request hello false _ _
  · cases hello <;> rfl

/-- The same use goes on. -/
theorem sconfreq_again (h : Turn w₀ inc w) (hneg : w.f.state.negotiating = true) :
    let u := fsmSconfreq a.recorded a.lower true w
    Turn w₀ inc (if a.recorded.state u = .ackrcvd then a.recorded.setState .reqsent u else u) := by
  obtain ⟨hello, link, hlink, heq⟩ := a.sconfreq_record true w
  rw [if_pos hneg] at hlink
  subst hlink
  obtain ⟨hask, hsince⟩ := h.asking (live_of_negotiating hneg)
  have hdata : lcpSconfreq w.env.link = lcpAddci w.env.link.got :=
    ((lcpSconfreq_eq_iff _).mpr (room_for_options hask.room _ IpcpOptions.zero).1).symm
  intro u
  have hsofar : Sofar w₀ inc u.log u.env.link.his := by
    rw [show u = _ from heq]
    exact h.sofar.request hello true _ _
  have hasking : Asking u.log u.f.reqid u.env.link.got u.env.link.peerMru ∧
      Since w₀ inc u.log := by
    have hne : confreq ≠ termreq ∧ confreq ≠ termack := by decide
    rw [show u = _ from heq]
    cases hello with
    | false =>
        exact ⟨⟨hask.begun, ⟨fun _ _ => hdata, hask.data⟩,
            ⟨fun hcode => absurd hcode hne.1, hask.termreq⟩, .inr rfl, hask.room⟩,
          ⟨hsince.fresh, ⟨fun _ hcode => absurd hcode hne.2, hsince.termacks⟩, nofun⟩⟩
    | true =>
        exact ⟨⟨hask.begun, ⟨fun _ _ => hdata, hask.data⟩,
            ⟨fun hcode => absurd hcode hne.1, hask.termreq⟩, .inr rfl, hask.room⟩,
          ⟨hsince.fresh, ⟨fun _ hcode => absurd hcode hne.2, hsince.termacks⟩, nofun⟩⟩
  have hstate : u.f.state = w.f.state := by rw [show u = _ from heq]; rfl
  split
  · exact Turn.reqsent hsofar hasking rfl
  · next hst =>
      have hopened : u.f.state ≠ .opened := by
        rw [hstate]
        intro ho
        rw [ho] at hneg
        cases hneg
      refine ⟨hsofar, fun _ => hasking, ?_, fun hs => absurd hs hst, fun hs => absurd hs hopened⟩
      intro hs
      obtain ⟨data, hheard, hhis⟩ := h.theirs (hstate ▸ hs)
      rw [show u = _ from heq]
      refine ⟨data, ?_, hhis⟩
      cases hello <;> exact hheard

/-- A new request, and `REQSENT`. -/
theorem turn_request (h : Sofar w₀ inc w.log w.env.link.his)
    (hroom : w.f.state.negotiating = true → minmru.toNat ≤ w.env.link.peerMru) :
    Turn w₀ inc (a.recorded.setState .reqsent (fsmSconfreq a.recorded a.lower false w)) :=
  have hreq := a.sconfreq_new h hroom
  Turn.reqsent hreq.sofar hreq.asking rfl

/-- A Terminate-Request, and the state that waits for its answer. -/
theorem turn_terminate (h : Sofar w₀ inc w.log w.env.link.his) (g : Fsm → Fsm) {st : FsmState}
    (hst : st.live = false) :
    Turn w₀ inc (a.recorded.setState st (fsmStermreq a.recorded (a.recorded.modify g w))) :=
  Turn.dead (h.sent fun hreply => absurd hreply (by decide : ¬ replyCode termreq)) hst

/-- A Terminate-Ack in a state that has no request of its own. -/
theorem turn_refuse (h : Sofar w₀ inc w.log w.env.link.his) (hd : w.f.state.live = false)
    (id : UInt8) : Turn w₀ inc (fsmSdata a.recorded termack id [] w) :=
  Turn.dead (h.sent fun hreply => absurd hreply (by decide : ¬ replyCode termack)) hd

theorem lowerup_turn (h : Turn w₀ inc w) : Turn w₀ inc (fsmLowerup a.recorded a.lower w) := by
  unfold fsmLowerup
  split
  · exact Turn.dead h.sofar rfl
  · next hs =>
      split
      · exact Turn.dead h.sofar rfl
      · refine a.turn_request h.sofar ?_
        intro hneg
        rw [show w.f.state = .starting from hs] at hneg
        cases hneg
  · exact h

theorem lowerdown_turn (h : Turn w₀ inc w) :
    Turn w₀ inc (fsmLowerdown a.recorded a.lower w) := by
  unfold fsmLowerdown
  split
  · exact Turn.dead h.sofar rfl
  · exact Turn.dead h.sofar rfl
  · exact Turn.dead h.sofar rfl
  iterate 4 exact Turn.dead h.sofar rfl
  · exact Turn.dead (h.sofar.say nofun nofun) rfl
  · exact h
  · exact h

theorem open_turn (h : Turn w₀ inc w) : Turn w₀ inc (fsmOpen a.recorded a.lower w) := by
  have hrestart {u : World (LcpLayer σ)} (hu : Turn w₀ inc u) :
      Turn w₀ inc (if (a.recorded.fsm u).flags.restart then
        fsmLowerup a.recorded a.lower (fsmLowerdown a.recorded a.lower u) else u) := by
    split
    · exact lowerup_turn (lowerdown_turn hu)
    · exact hu
  unfold fsmOpen
  split
  · exact Turn.dead h.sofar rfl
  · next hs =>
      split
      · exact Turn.dead h.sofar rfl
      · refine a.turn_request h.sofar ?_
        intro hneg
        rw [show w.f.state = .closed from hs] at hneg
        cases hneg
  · exact hrestart (Turn.dead h.sofar rfl)
  · exact hrestart h
  · exact hrestart h
  all_goals exact h

theorem fsmClose_turn (h : Turn w₀ inc w) : Turn w₀ inc (fsmClose a.recorded a.lower w) := by
  unfold fsmClose
  split
  · exact Turn.dead h.sofar rfl
  · exact Turn.dead h.sofar rfl
  · exact Turn.dead h.sofar rfl
  iterate 3
    next hs =>
      rw [if_pos (by rw [hs]; decide)]
      exact turn_terminate (w := a.recorded.untimeout w) h.sofar _ rfl
  · next hs =>
      rw [if_neg (by rw [hs]; decide)]
      exact turn_terminate (w := goDown a.recorded a.lower w) (h.sofar.say nofun nofun) _ rfl
  all_goals exact h

theorem finished_turn (h : Turn w₀ inc w) : Turn w₀ inc (a.finished a.recorded w) := by
  rw [finished]
  split
  · exact open_turn h
  · exact h.frame rfl rfl rfl rfl

theorem close_turn (h : Turn w₀ inc w) : Turn w₀ inc (a.close a.recorded w) := by
  rw [close]
  split
  · exact finished_turn (Turn.dead h.sofar rfl)
  · exact fsmClose_turn h

/-- `lcp_up` sets to zero what is not negotiated. -/
theorem lcpAddci_upOptions (o : Lcp) :
    lcpAddci (Stack.lcpUpOptions o).got = lcpAddci o.got := by
  unfold lcpAddci Stack.lcpUpOptions
  cases h : o.got.negMagicnumber <;> simp [addci, h]

/-- A value that no option has is zero. -/
theorem lastOf_value {α : Type} {t : UInt8} (f : List UInt8 → α) {cis : List ReqCi}
    (h : cis.any (ReqCi.hasType t) = false) : lastOf (ReqCi.value t f) cis = none := by
  rw [lastOf]
  rw [List.getLast?_eq_none_iff, List.filterMap_eq_nil_iff]
  intro ci hci
  have hne := List.any_eq_false.mp h ci hci
  cases ci with
  | tail octets => rfl
  | opt citype cilen body => exact if_neg (by simpa [ReqCi.hasType] using hne)

theorem lcpHeard_upOptions {o : Lcp} {data : List UInt8} (h : o.his = lcpHeard data) :
    (Stack.lcpUpOptions o).his = lcpHeard data := by
  have hzero : (lcpHeard data).negMagicnumber = false → (lcpHeard data).magicnumber = 0 := by
    intro hneg
    show (lastOf (ReqCi.value ciMagicnumber longAt) (reqCis data.length data)).getD 0 = 0
    rw [lastOf_value longAt hneg]
    rfl
  have hmagic : (if (lcpHeard data).negMagicnumber then (lcpHeard data).magicnumber else 0) =
      (lcpHeard data).magicnumber := by
    split
    · rfl
    · next hneg => exact (hzero (Bool.not_eq_true _ ▸ hneg)).symm
  calc (Stack.lcpUpOptions o).his
      = { o.his with magicnumber := if o.his.negMagicnumber then o.his.magicnumber else 0 } := rfl
    _ = { lcpHeard data with magicnumber := (lcpHeard data).magicnumber } := by rw [h, hmagic]
    _ = lcpHeard data := rfl

theorem upOptions_turn (h : Turn w₀ inc w) : Turn w₀ inc (onLink Stack.lcpUpOptions w) where
  sofar := ⟨h.sofar.grown, h.sofar.heard, h.sofar.replies, h.sofar.mru⟩
  asking hl := by
    obtain ⟨hask, hsince⟩ := h.asking hl
    refine ⟨⟨hask.begun, ?_, hask.termreq, hask.ids, ?_⟩, hsince⟩
    · refine hask.data.imp ?_
      intro q l hq hcode huses
      exact (hq hcode huses).trans (lcpAddci_upOptions w.env.link).symm
    · exact lcpUpOptions_peerMru (by decide) hask.room h.sofar.mru
  theirs hs := by
    obtain ⟨data, hheard, hhis⟩ := h.theirs hs
    exact ⟨data, hheard, lcpHeard_upOptions hhis⟩
  ours := h.ours
  slips := h.slips

theorem goUp_turn (h : Turn w₀ inc w) : Turn w₀ inc (a.goUp a.recorded w) := by
  have hup := upOptions_turn h
  rw [goUp]
  dsimp only
  split
  · refine close_turn ?_
    exact hup.frame rfl rfl rfl rfl
  · exact hup.frame rfl rfl rfl rfl

theorem protreject_turn {cb : Callbacks (World (LcpLayer σ))}
    (hl : cb.toLowerCallbacks = a.lower) (hf : cb.finished = a.finished a.recorded)
    (h : Turn w₀ inc w) : Turn w₀ inc (fsmProtreject a.recorded cb w) := by
  unfold fsmProtreject
  rw [hl, hf]
  split
  · exact finished_turn (Turn.dead h.sofar rfl)
  · exact finished_turn (Turn.dead h.sofar rfl)
  iterate 4 exact finished_turn (Turn.dead h.sofar rfl)
  · exact finished_turn (Turn.dead h.sofar rfl)
  · exact turn_terminate (w := goDown a.recorded a.lower w) (h.sofar.say nofun nofun) _ rfl
  all_goals exact h

theorem timeout_turn {cb : Callbacks (World (LcpLayer σ))}
    (hl : cb.toLowerCallbacks = a.lower) (hf : cb.finished = a.finished a.recorded)
    (hr : ∀ w, cb.retransmit w = w) (h : Turn w₀ inc w) :
    Turn w₀ inc (fsmTimeout a.recorded cb w) := by
  have hterm {st : FsmState} (hs : a.recorded.state w = st) (hd : st.live = false) :
      Turn w₀ inc (fsmStermreq a.recorded w) := by
    refine Turn.dead (h.sofar.sent ?_) ?_
    · intro hreply
      exact absurd hreply (by decide : ¬ replyCode termreq)
    · show (a.recorded.state w).live = false
      rw [hs, hd]
  unfold fsmTimeout
  split
  · next hs =>
      split
      · rw [hf]
        exact finished_turn (Turn.dead h.sofar rfl)
      · exact hterm hs rfl
  · next hs =>
      split
      · rw [hf]
        refine finished_turn (Turn.dead h.sofar ?_)
        rw [hs]
        rfl
      · exact hterm hs rfl
  iterate 3
    next hs =>
      replace hs : w.f.state = _ := hs
      split
      · dsimp only
        split
        · exact Turn.dead h.sofar rfl
        · rw [hf]
          exact finished_turn (Turn.dead h.sofar rfl)
      · rw [hl, hr]
        exact sconfreq_again h (by rw [hs]; rfl)
  · exact h

/-! ### Packets -/

theorem sofar_start (h : Steady w) (hinc : ¬ Hears inc confreq) :
    Sofar w inc w.log w.env.link.his where
  grown := List.suffix_refl _
  heard := by
    cases inc with
    | none => rfl
    | some p => exact (if_neg fun hp => hinc (congrArg some hp)).symm
  replies := every_since (Nat.le_refl _)
  mru := h.mru

theorem sofar_hear (h : Steady w) (p : CpPacket) :
    Sofar w (some p) (w.hear p).log w.env.link.his :=
  ⟨List.suffix_cons _ _, rfl, show Every _ w.log from every_since (Nat.le_refl _), h.mru⟩

theorem asking_start (h : Steady w) (inc : Option CpPacket) (hl : w.f.state.live = true) :
    Asking w.log w.f.reqid w.env.link.got w.env.link.peerMru ∧ Since w inc w.log :=
  ⟨h.asking hl, fun _ => hl, every_since (Nat.le_refl _), fun hack => ⟨rfl, .inl hack⟩⟩

/-- The answer to the peer's request, while one of ours is under way. -/
theorem reply_turn {p : CpPacket} (hp : p.code = confreq)
    (hsofar : Sofar w₀ (some p) w.log w.env.link.his)
    (hask : Asking w.log w.f.reqid w.env.link.got w.env.link.peerMru ∧ Since w₀ (some p) w.log)
    (hheard : lastHeard w.log = some p.data) (hours : w.f.state = .ackrcvd → acked w.log = true) :
    Turn w₀ (some p)
      (rconfreqReply a.recorded (a.callbacks a.recorded) p.id p.data w) := by
  have hcode (c : ConfCode) : c.code ≠ confreq ∧ c.code ≠ termreq ∧ c.code ≠ termack := by
    cases c <;> decide
  obtain ⟨reject, hreject⟩ : ∃ b, b = decide (w.f.maxnakloops ≤ w.f.nakloops) := ⟨_, rfl⟩
  obtain ⟨r, hr⟩ : ∃ r, r = lcpReqci a.magic w.env.link p.data reject := ⟨_, rfl⟩
  have hgot : r.2.2.got = w.env.link.got ∧ r.2.2.peerMru = w.env.link.peerMru := by
    rw [hr]
    exact ⟨rfl, rfl⟩
  obtain ⟨u, hu⟩ : ∃ u, u = fsmSdata a.recorded r.1.code p.id r.2.1
      (onLink (fun _ => r.2.2) w) := ⟨_, rfl⟩
  have hreply : rconfreqReply a.recorded (a.callbacks a.recorded) p.id p.data w =
      rconfreqMove a.recorded (a.callbacks a.recorded) r.1 u := by
    rw [hu, hr, hreject]
    rfl
  have hsofar' : Sofar w₀ (some p) u.log u.env.link.his := by
    rw [hu]
    refine Sofar.sent ⟨hsofar.grown, hsofar.heard, hsofar.replies, ?_⟩ fun _ => congrArg some hp
    rw [hr]
    exact lcpReqci_mru a.magic w.env.link p.data reject
  have hask' : Asking u.log u.f.reqid u.env.link.got u.env.link.peerMru ∧
      Since w₀ (some p) u.log := by
    rw [hu]
    refine ⟨?_, hask.2.sent fun h => absurd h (hcode _).2.2⟩
    show Asking _ _ r.2.2.got r.2.2.peerMru
    rw [hgot.1, hgot.2]
    exact hask.1.sent (hcode _).1 (hcode _).2.1
  have hacked : u.f.state = .ackrcvd → acked u.log = true := by
    rw [hu]
    exact hours
  have hrec : r.1 = .ack → Recorded u.log u.env.link.his := by
    intro hack
    rw [hu]
    refine ⟨p.data, hheard, ?_⟩
    rw [hr] at hack ⊢
    exact (lcpReqci_ack hack).2
  rw [hreply]
  unfold rconfreqMove
  by_cases hack : r.1 = .ack
  · rw [if_pos hack]
    dsimp only
    by_cases hst : u.f.state = .ackrcvd
    · rw [if_pos (show a.recorded.state u = _ from hst)]
      have hopened : Turn w₀ (some p)
          (a.recorded.note .up (a.recorded.setState .opened (a.recorded.untimeout u))) :=
        ⟨hsofar'.say nofun nofun, fun _ => ⟨hask'.1.say rfl, hask'.2.say rfl⟩, fun _ => hrec hack,
          fun _ => hacked hst, fun _ => .inl (hacked hst)⟩
      have hup := goUp_turn (a := a) hopened
      exact hup.frame rfl rfl rfl rfl
    · rw [if_neg (show ¬ a.recorded.state u = _ from hst)]
      exact ⟨hsofar', fun _ => hask', fun _ => hrec hack, nofun, nofun⟩
  · rw [if_neg hack]
    have hstay {v : World (LcpLayer σ)} (hv : Turn w₀ (some p) v) : Turn w₀ (some p)
        (if r.1 = .nak then a.recorded.modify (fun f => { f with nakloops := f.nakloops + 1 }) v
          else v) := by
      split
      · exact hv.frame rfl rfl rfl rfl
      · exact hv
    by_cases hst : u.f.state = .ackrcvd
    · rw [if_neg (not_not_intro (show a.recorded.state u = _ from hst))]
      refine hstay ⟨hsofar', fun _ => hask', ?_, hacked, ?_⟩
      · rw [hst]
        rintro (h | h) <;> cases h
      · rw [hst]
        nofun
    · rw [if_pos (show a.recorded.state u ≠ _ from hst)]
      exact hstay (Turn.reqsent hsofar' hask' rfl)

theorem rconfreq_turn {p : CpPacket} (hp : p.code = confreq) (h : Steady w)
    (hs : w.f.state ≠ .initial ∧ w.f.state ≠ .starting) :
    Turn w (some p) (fsmRconfreq a.recorded (a.callbacks a.recorded) p.id p.data (w.hear p)) := by
  have hsofar : Sofar w (some p) (w.hear p).log (w.hear p).env.link.his :=
    sofar_hear h p
  have hheard : lastHeard (w.hear p).log = some p.data := if_pos hp
  unfold fsmRconfreq
  split
  · next hst =>
      refine Turn.dead (hsofar.sent fun _ => congrArg some hp) ?_
      show w.f.state.live = false
      rw [show w.f.state = _ from hst]
      rfl
  · next hst =>
      refine Turn.dead hsofar ?_
      show w.f.state.live = false
      rw [show w.f.state = _ from hst]
      rfl
  · next hst =>
      refine Turn.dead hsofar ?_
      show w.f.state.live = false
      rw [show w.f.state = _ from hst]
      rfl
  · next hst =>
      have hreq := sconfreq_new (a := a) (w := goDown a.recorded a.lower (w.hear p))
        (hsofar.say nofun nofun) fun hneg => by
          rw [show (goDown a.recorded a.lower (w.hear p)).f.state = .opened from hst] at hneg
          cases hneg
      refine reply_turn hp hreq.sofar hreq.asking (hreq.heard.trans hheard) ?_
      intro hack
      have hst' : w.f.state = .ackrcvd := hreq.state.symm.trans hack
      cases hst'.symm.trans hst
  · next hst =>
      have hreq := sconfreq_new (a := a) (w := w.hear p) hsofar fun hneg => by
        rw [show (w.hear p).f.state = .stopped from hst] at hneg
        cases hneg
      exact reply_turn hp hreq.sofar hreq.asking (hreq.heard.trans hheard) nofun
  · next h₁ h₂ h₃ h₄ h₅ =>
      have hlive : w.f.state.live = true := by
        cases hst : w.f.state with
        | reqsent | ackrcvd | acksent | opened => rfl
        | initial => exact absurd hst hs.1
        | starting => exact absurd hst hs.2
        | closed => exact absurd hst h₁
        | closing => exact absurd hst h₂
        | stopping => exact absurd hst h₃
        | stopped => exact absurd hst h₅
      obtain ⟨hask, hsince⟩ := asking_start h (some p) hlive
      exact reply_turn hp hsofar ⟨hask.say rfl, hsince.say rfl⟩ hheard h.ours

/-- A packet that is no request, before anything is done about it. -/
theorem hear_turn {p : CpPacket} (hp : p.code ≠ confreq) (h : Steady w) :
    Turn w (some p) (w.hear p) where
  sofar := sofar_hear h p
  asking hl := by
    obtain ⟨hask, hsince⟩ := asking_start h (some p) hl
    exact ⟨hask.say rfl, hsince.say rfl⟩
  theirs hs := by
    obtain ⟨data, hheard, hhis⟩ := h.theirs hs
    exact ⟨data, (if_neg hp).trans hheard, hhis⟩
  ours := h.ours
  slips hs := by
    cases hack : acked w.log with
    | true => exact .inl hack
    | false =>
        refine .inr ⟨hs, fun hreq => hp (Option.some.inj hreq), ?_⟩
        intro hack'
        cases hack.symm.trans hack'

/-- A packet of ours that is no request. -/
theorem sdata_turn (h : Turn w₀ inc w) {code id : UInt8} {data : List UInt8}
    (hcode : code ≠ confreq ∧ code ≠ termreq ∧ ¬ replyCode code)
    (hterm : code = termack → Hears inc termreq) :
    Turn w₀ inc (fsmSdata a.recorded code id data w) where
  sofar := h.sofar.sent fun hreply => absurd hreply hcode.2.2
  asking hl := by
    obtain ⟨hask, hsince⟩ := h.asking hl
    exact ⟨hask.sent hcode.1 hcode.2.1, hsince.sent hterm⟩
  theirs := h.theirs
  ours := h.ours
  slips := h.slips

/-- The Ack of the last request is taken. -/
theorem asking_acked {p : CpPacket} (hp : p.code = confack) (hid : p.id = w.f.reqid)
    (h : Steady w) (hl : w.f.state.live = true) :
    let log := .accepted confack p.id :: .rcvd p :: w.log
    Asking log noReqid w.env.link.got w.env.link.peerMru ∧ Since w (some p) log ∧
      acked log = true := by
  intro log
  obtain ⟨hask, hsince⟩ := asking_start h (some p) hl
  have hacked : acked log = true := by
    show ((confack == confack && lastSconfreq w.log == some p.id) || acked w.log) = true
    rcases hask.ids with hack | hlast
    · rw [hack, Bool.or_true]
    · rw [hlast, hid]
      simp
  exact ⟨⟨hask.begun, hask.data, hask.termreq, .inl hacked, hask.room⟩,
    ⟨hsince.fresh, hsince.termacks, fun _ => ⟨rfl, .inr ⟨p, rfl, hp, hid⟩⟩⟩, hacked⟩

theorem rconfack_turn {p : CpPacket} (hp : p.code = confack) (h : Steady w) :
    Turn w (some p) (fsmRconfack a.recorded (a.callbacks a.recorded) p.id p.data (w.hear p)) := by
  have hhear := hear_turn (p := p) (by rw [hp]; decide) h
  unfold fsmRconfack
  split
  · exact hhear
  next hid =>
  replace hid : p.id = w.f.reqid := not_not.mp hid
  dsimp only
  split
  · exact hhear
  obtain ⟨t, ht⟩ : ∃ t, t = a.recorded.modify (fun f => { f with reqid := noReqid })
      (a.recorded.note (.accepted confack p.id) (w.hear p)) := ⟨_, rfl⟩
  have hstate : t.f.state = w.f.state := by rw [ht]; rfl
  have hsofar : Sofar w (some p) t.log t.env.link.his := by
    rw [ht]
    exact hhear.sofar.say (e := .accepted confack p.id) nofun nofun
  have hdead (hd : w.f.state.live = false) : Turn w (some p) t := Turn.dead hsofar (hstate ▸ hd)
  have htake (hl : w.f.state.live = true) :
      (Asking t.log t.f.reqid t.env.link.got t.env.link.peerMru ∧ Since w (some p) t.log) ∧
        acked t.log = true := by
    obtain ⟨hask, hsince, hacked⟩ := asking_acked hp hid h hl
    rw [ht]
    exact ⟨⟨hask, hsince⟩, hacked⟩
  have hroom (hl : w.f.state.live = true) : minmru.toNat ≤ t.env.link.peerMru :=
    (htake hl).1.1.room
  rw [show (checkAck (a.callbacks a.recorded) p.data (w.hear p)).2 = w.hear p from rfl, ← ht]
  split
  iterate 2
    next hs => exact turn_refuse hsofar (by rw [show t.f.state = _ from hs]; rfl) _
  · next hs =>
      obtain ⟨hask, hacked⟩ := htake (by rw [← hstate, show t.f.state = _ from hs]; rfl)
      exact ⟨hsofar, fun _ => hask, nofun, fun _ => hacked, nofun⟩
  · next hs =>
      exact turn_request hsofar fun _ => hroom (by rw [← hstate, show t.f.state = _ from hs]; rfl)
  · next hs =>
      replace hs : t.f.state = _ := hs
      obtain ⟨hask, hacked⟩ := htake (by rw [← hstate, hs]; rfl)
      have hrec : Recorded t.log t.env.link.his := by
        obtain ⟨data, hheard, hhis⟩ := hhear.theirs (.inl (hstate ▸ hs))
        rw [ht]
        exact ⟨data, hheard, hhis⟩
      have hopened : Turn w (some p) (a.recorded.note .up (a.recorded.modify
          (fun f => { f with state := .opened, retransmits := f.maxconfreqtransmits })
          (a.recorded.untimeout t))) :=
        ⟨hsofar.say nofun nofun, fun _ => ⟨hask.1.say rfl, hask.2.say rfl⟩, fun _ => hrec,
          fun _ => hacked, fun _ => .inl hacked⟩
      exact goUp_turn hopened
  · next hs =>
      exact turn_request (w := goDown a.recorded a.lower t) (hsofar.say nofun nofun) fun _ =>
        (by decide : (minmru.toNat : Int) ≤ mtu)
  iterate 4
    next hs => exact hdead (by rw [← hstate, show t.f.state = _ from hs]; rfl)

theorem lcpRejci_cases (opened : Bool) (o : Lcp) (p : List UInt8) :
    (lcpRejci opened o p).2 = o ∨ (lcpRejci opened o p).1 = true ∧
      ∃ go, (lcpRejci opened o p).2 = { o with got := go } := by
  unfold lcpRejci
  dsimp only
  split
  · cases opened with
    | true => exact .inl rfl
    | false => exact .inr ⟨rfl, _, rfl⟩
  · exact .inl rfl

/-- What the check of a Nak or a Reject does. -/
theorem checkNakrej_link {code : UInt8} (hcode : code = confnak ∨ code = confrej)
    (inp : List UInt8) (u : World (LcpLayer σ)) :
    ∃ link : Lcp, (checkNakrej (a.callbacks a.recorded) code inp u).2 =
        { u with env := { u.env with link := link } } ∧
      link.his = u.env.link.his ∧ link.peerMru = u.env.link.peerMru ∧
      ((checkNakrej (a.callbacks a.recorded) code inp u).1 = false →
        link.got = u.env.link.got) := by
  rcases hcode with rfl | rfl
  · refine ⟨(lcpNakci a.magic (u.f.state = .opened) u.env.link inp).2, rfl, ?_⟩
    obtain ⟨n, hsame | ⟨hgood, go, hgo⟩⟩ :=
      lcpNakci_cases a.magic (decide (u.f.state = .opened)) u.env.link inp
    · rw [hsame]
      exact ⟨rfl, rfl, fun _ => rfl⟩
    · rw [hgo]
      refine ⟨rfl, rfl, ?_⟩
      intro hbad
      have hgood' : (checkNakrej (a.callbacks a.recorded) confnak inp u).1 = true :=
        congrArg (Option.getD · false) hgood
      cases hbad.symm.trans hgood'
  · refine ⟨(lcpRejci (u.f.state = .opened) u.env.link inp).2, rfl, ?_⟩
    rcases lcpRejci_cases (decide (u.f.state = .opened)) u.env.link inp with
      hsame | ⟨hgood, go, hgo⟩
    · rw [hsame]
      exact ⟨rfl, rfl, fun _ => rfl⟩
    · rw [hgo]
      exact ⟨rfl, rfl, fun hbad => by cases hbad.symm.trans hgood⟩

theorem rconfnakrej_turn {p : CpPacket} (hp : p.code = confnak ∨ p.code = confrej)
    (h : Steady w) : Turn w (some p)
      (fsmRconfnakrej a.recorded (a.callbacks a.recorded) p.code p.id p.data (w.hear p)) := by
  have hhear := hear_turn (p := p) (by rcases hp with hp | hp <;> rw [hp] <;> decide) h
  obtain ⟨link, hlink, hhis, hmru, hsame⟩ := checkNakrej_link (a := a) hp p.data (w.hear p)
  unfold fsmRconfnakrej
  split
  · exact hhear
  dsimp only
  split
  · next hbad =>
      have hgot : link.got = (w.hear p).env.link.got := hsame (by simpa using hbad)
      rw [hlink]
      refine ⟨?_, ?_, ?_, hhear.ours, hhear.slips⟩
      · show Sofar w (some p) _ link.his
        rw [hhis]
        exact hhear.sofar
      · intro hl
        show Asking _ _ link.got link.peerMru ∧ _
        rw [hgot, hmru]
        exact hhear.asking hl
      · intro hs
        show Recorded _ link.his
        rw [hhis]
        exact hhear.theirs hs
  rw [hlink]
  obtain ⟨t, ht⟩ : ∃ t, t = a.recorded.modify (fun f => { f with reqid := noReqid })
      (a.recorded.note (.accepted p.code p.id)
        { w.hear p with env := { (w.hear p).env with link := link } }) := ⟨_, rfl⟩
  have hstate : t.f.state = w.f.state := by rw [ht]; rfl
  have hsofar : Sofar w (some p) t.log t.env.link.his := by
    rw [ht]
    show Sofar w (some p) _ link.his
    rw [hhis]
    exact hhear.sofar.say (e := .accepted p.code p.id) nofun nofun
  have hroom (hneg : w.f.state.live = true) : minmru.toNat ≤ t.env.link.peerMru := by
    rw [ht]
    show _ ≤ link.peerMru
    rw [hmru]
    exact (h.asking hneg).room
  have hanew (hs : t.f.state = .reqsent ∨ t.f.state = .acksent) :
      Turn w (some p) (fsmSconfreq a.recorded a.lower false (a.recorded.untimeout t)) := by
    have hlive : w.f.state.live = true := by
      rw [← hstate]
      rcases hs with hs | hs <;> rw [hs] <;> rfl
    have hreq := sconfreq_new (a := a) (w := a.recorded.untimeout t) hsofar fun _ => hroom hlive
    have hstay : (fsmSconfreq a.recorded a.lower false (a.recorded.untimeout t)).f.state =
        w.f.state := hreq.state.trans hstate
    rw [hstate] at hs
    refine ⟨hreq.sofar, fun _ => hreq.asking, ?_, ?_, ?_⟩
    · intro hs'
      obtain ⟨data, hheard, hhis'⟩ := hhear.theirs (hstay ▸ hs')
      refine ⟨data, hreq.heard.trans ?_, hreq.his.trans ?_⟩
      · rw [ht]
        exact hheard
      · rw [ht]
        exact hhis.trans hhis'
    · intro hs'
      rw [hstay] at hs'
      rcases hs with hs | hs <;> cases hs'.symm.trans hs
    · intro hs'
      rw [hstay] at hs'
      rcases hs with hs | hs <;> cases hs'.symm.trans hs
  rw [← ht]
  split
  iterate 2
    next hs => exact turn_refuse hsofar (by rw [show t.f.state = _ from hs]; rfl) _
  · next hs => exact hanew (.inl hs)
  · next hs => exact hanew (.inr hs)
  · next hs =>
      exact turn_request hsofar fun _ => hroom (by rw [← hstate, show t.f.state = _ from hs]; rfl)
  · next hs =>
      exact turn_request (w := goDown a.recorded a.lower t) (hsofar.say nofun nofun) fun _ =>
        (by decide : (minmru.toNat : Int) ≤ mtu)
  iterate 4
    next hs =>
      refine Turn.dead hsofar ?_
      rw [show t.f.state = _ from hs]
      rfl

/-- Start over but keep trying. -/
theorem demote_turn (h : Turn w₀ inc w) (hl : w.f.state.live = true) :
    Turn w₀ inc (a.recorded.setState .reqsent w) :=
  Turn.reqsent h.sofar (h.asking hl) rfl

theorem rtermreq_turn {p : CpPacket} (hp : p.code = termreq) (h : Steady w) :
    Turn w (some p) (fsmRtermreq a.recorded (a.callbacks a.recorded) p.id (w.hear p)) := by
  have hhear := hear_turn (p := p) (by rw [hp]; decide) h
  unfold fsmRtermreq
  refine sdata_turn ?_ (by decide) fun _ => congrArg some hp
  split
  · next hs => exact demote_turn hhear (by rw [show (w.hear p).f.state = _ from hs]; rfl)
  · next hs => exact demote_turn hhear (by rw [show (w.hear p).f.state = _ from hs]; rfl)
  · exact Turn.dead (hhear.sofar.say nofun nofun) rfl
  · exact hhear

theorem rtermack_turn {p : CpPacket} (hp : p.code = termack) (h : Steady w) :
    Turn w (some p) (fsmRtermack a.recorded (a.callbacks a.recorded) (w.hear p)) := by
  have hhear := hear_turn (p := p) (by rw [hp]; decide) h
  unfold fsmRtermack
  split
  · exact finished_turn (Turn.dead hhear.sofar rfl)
  · exact finished_turn (Turn.dead hhear.sofar rfl)
  · next hs => exact demote_turn hhear (by rw [show (w.hear p).f.state = _ from hs]; rfl)
  · next hs =>
      -- the one place where a new request leaves the link open
      replace hs : w.f.state = .opened := hs
      have hreq := sconfreq_new (a := a) (w := goDown a.recorded a.lower (w.hear p))
        (hhear.sofar.say nofun nofun) fun _ => (by decide : (minmru.toNat : Int) ≤ mtu)
      have hstay : (fsmSconfreq a.recorded a.lower false
          (goDown a.recorded a.lower (w.hear p))).f.state = .opened := hreq.state.trans hs
      refine ⟨hreq.sofar, fun _ => hreq.asking, ?_, ?_, ?_⟩
      · intro _
        obtain ⟨data, hheard, hhis⟩ := hhear.theirs (.inr hs)
        exact ⟨data, hreq.heard.trans hheard, hreq.his.trans hhis⟩
      · intro hs'
        cases hstay.symm.trans hs'
      · intro _
        refine .inr ⟨hs, ?_, fun _ => congrArg some hp⟩
        intro hreq
        cases (Option.some.inj hreq).symm.trans hp
  · exact hhear

theorem rcoderej_turn (inp : List UInt8) (h : Turn w₀ inc w) :
    Turn w₀ inc (fsmRcoderej a.recorded inp w) := by
  rw [fsmRcoderej]
  split
  · exact h
  · split
    · next hs => exact demote_turn h (by rw [show w.f.state = _ from hs]; rfl)
    · exact h

theorem extcode_turn (p : CpPacket) (h : Turn w₀ inc w) :
    Turn w₀ inc (a.extcode a.recorded w p).2 := by
  rw [extcode]
  split
  · dsimp only
    rw [rprotrej]
    split
    · exact h
    · split
      · exact h
      · split
        · exact protreject_turn rfl rfl h
        · exact h.frame rfl rfl rfl rfl
  · split
    · dsimp only
      split
      · exact h
      · exact sdata_turn h (by decide) fun hcode => absurd hcode (by decide)
    · split
      · exact h.frame rfl rfl rfl rfl
      · split <;> exact h

theorem dispatch_turn {p : CpPacket} (h : Steady w)
    (hs : w.f.state ≠ .initial ∧ w.f.state ≠ .starting) :
    Turn w (some p) (fsmDispatch a.recorded (a.callbacks a.recorded) p (w.hear p)) := by
  rw [fsmDispatch]
  split
  · next hp => exact rconfreq_turn hp h hs
  next hreq =>
  have hhear := hear_turn hreq h
  split
  · next hp => exact rconfack_turn hp h
  split
  · next hp => exact rconfnakrej_turn hp h
  split
  · next hp => exact rtermreq_turn hp h
  split
  · next hp => exact rtermack_turn hp h
  split
  · exact rcoderej_turn p.data hhear
  have hext : Turn w (some p) (checkExt (a.callbacks a.recorded) p (w.hear p)).2 :=
    extcode_turn p hhear
  dsimp only
  split
  · exact hext
  · have hid : Turn w (some p) (a.recorded.modify (fun f => { f with id := f.id + 1 })
        (checkExt (a.callbacks a.recorded) p (w.hear p)).2) :=
      hext.frame rfl rfl rfl rfl
    exact sdata_turn hid (by decide) fun hcode => absurd hcode (by decide)

/-- What stays as it is. -/
theorem stay_turn (h : Steady w) (hinc : ¬ Hears inc confreq) : Turn w inc w where
  sofar := sofar_start h hinc
  asking := asking_start h inc
  theirs := h.theirs
  ours := h.ours
  slips hs := by
    cases hack : acked w.log with
    | true => exact .inl rfl
    | false => exact .inr ⟨hs, hinc, fun hack' => by cases hack.symm.trans hack'⟩

/-- A packet that comes in. -/
theorem input_turn (inpacket : List UInt8) (h : Steady w) :
    Turn w (arrival w (.input inpacket))
      (fsmInput a.recorded (a.callbacks a.recorded) inpacket w) := by
  have hstay : Turn w none w := stay_turn h nofun
  have harrival : arrival w (.input inpacket) =
      if w.f.state = .initial ∨ w.f.state = .starting then none else parseHeader inpacket := rfl
  rw [harrival]
  unfold fsmInput
  cases parseHeader inpacket with
  | none =>
      rw [ite_self]
      exact hstay
  | some p =>
      dsimp only
      by_cases hs : w.f.state = .initial ∨ w.f.state = .starting
      · rw [if_pos hs, if_pos (show a.recorded.state w = _ ∨ a.recorded.state w = _ from hs)]
        exact hstay
      · rw [if_neg hs, if_neg (show ¬ (a.recorded.state w = _ ∨ a.recorded.state w = _) from hs)]
        exact dispatch_turn h (not_or.mp hs)

/-- Any other call. -/
theorem step_turn (c : LcpCall) (hc : ∀ inpacket, c ≠ .fsm (.input inpacket)) (h : Steady w) :
    Turn w none (a.step a.recorded w c) := by
  have hstay : Turn w none w := stay_turn h nofun
  match c with
  | .unknown protocol inpacket =>
      show Turn w none (sprotrej a.recorded (put16 protocol ++ inpacket) w)
      rw [sprotrej]
      split
      · exact hstay
      · have hid : Turn w none { w with f := { w.f with id := w.f.id + 1 } } :=
          hstay.frame rfl rfl rfl rfl
        exact sdata_turn hid (by decide) fun hcode => absurd hcode (by decide)
  | .fsm .lowerup =>
      have hlower : Turn w none (onLink (fun o =>
          { o with peerMru := mtu, allow := { o.allow with asyncmap := a.xmitAccm } }) w) := by
        refine ⟨hstay.sofar, ?_, hstay.theirs, hstay.ours, hstay.slips⟩
        intro hl
        obtain ⟨hask, hsince⟩ := hstay.asking hl
        exact ⟨⟨hask.begun, hask.data, hask.termreq, hask.ids,
          (by decide : (minmru.toNat : Int) ≤ mtu)⟩, hsince⟩
      exact lowerup_turn hlower
  | .fsm .lowerdown => exact lowerdown_turn hstay
  | .fsm .open => exact open_turn hstay
  | .fsm .close => exact close_turn hstay
  | .fsm .timeout =>
      have hcancel : Turn w none { w with pending := w.pending - 1 } :=
        hstay.frame rfl rfl rfl rfl
      exact timeout_turn rfl rfl (fun _ => rfl) hcancel
  | .fsm .protreject => exact protreject_turn rfl rfl hstay
  | .fsm (.config flags timeouttime maxconfreq maxterm maxnak) =>
      exact hstay.frame rfl rfl rfl rfl
  | .fsm (.input inpacket) => exact absurd rfl (hc inpacket)

end LcpRest

end VxWorks.Ppp
