import VxWorks.Ppp.FsmLife

/-!
# The handshake

Two requests cross, and each is to be acknowledged. What the control state
remembers of that is two bits: `ACKRCVD` says ours was, `ACKSENT` says theirs
was, `OPENED` says both. The first half of this file relates these bits to the
history, in which every request, reply and acceptance is recorded; the second
half is about the ids that are supposed to tell a reply to the last request
from a reply to an older one.

The relation fails where `fsm_rtermack` sends a new request from `OPENED` and
stays there. The ids fail because `reqid` has two other uses: it holds the ids
of Terminate-Requests, and the value `-1` that is to say "no request is waiting
for a reply" becomes 255 when it is stored, which is an id like any other.
-/

namespace VxWorks.Ppp

open VxWorks.Lib

/-! ## Reading the history -/

/-- The id `fsm_sconfreq` used last. -/
@[simp] def lastSconfreq : List FsmEvent → Option UInt8
  | .sconfreq _ id :: _ => some id
  | _ :: l => lastSconfreq l
  | [] => none

/-- The last request of ours was acknowledged: an Ack with its id was accepted
after it was sent. -/
@[simp] def acked : List FsmEvent → Bool
  | .sconfreq _ _ :: _ => false
  | .accepted code id :: l => (code == confack && lastSconfreq l == some id) || acked l
  | _ :: l => acked l
  | [] => false

/-- The id of the last request of the peer. -/
@[simp] def lastRequest : List FsmEvent → Option UInt8
  | .rcvd p :: l => if p.code = confreq then some p.id else lastRequest l
  | _ :: l => lastRequest l
  | [] => none

/-- What can be an answer to a request: a Terminate-Ack is the one a closed
automaton gives. -/
def answerCode (code : UInt8) : Bool :=
  code == confack || code == confnak || code == confrej || code == termack

/-- The code of the answer to the last request of the peer: of the first packet
after it that has its id and can be an answer. -/
@[simp] def replied : List FsmEvent → Option UInt8
  | .rcvd p :: l => if p.code = confreq then none else replied l
  | .sent q :: l =>
      match replied l with
      | some code => some code
      | none => if lastRequest l = some q.id ∧ answerCode q.code then some q.code else none
  | _ :: l => replied l
  | [] => none

section

variable (b : Bool) (l : List FsmEvent)

@[simp] theorem lastSconfreq_hello :
    lastSconfreq ((if b then [.client] else []) ++ l) = lastSconfreq l := by
  cases b <;> rfl

@[simp] theorem acked_hello : acked ((if b then [.client] else []) ++ l) = acked l := by
  cases b <;> rfl

@[simp] theorem lastRequest_hello :
    lastRequest ((if b then [.client] else []) ++ l) = lastRequest l := by
  cases b <;> rfl

@[simp] theorem replied_hello : replied ((if b then [.client] else []) ++ l) = replied l := by
  cases b <;> rfl

end

/-- What has been said stays said: a packet of ours does not change the answer
that was given. -/
theorem replied_sent {l : List FsmEvent} {code : UInt8} (h : replied l = some code)
    (q : CpPacket) : replied (.sent q :: l) = some code := by
  simp [h]

theorem replied_confreq (l : List FsmEvent) (id : UInt8) (data : List UInt8) :
    replied (.sent ⟨confreq, id, data⟩ :: l) = replied l := by
  cases h : replied l with
  | some code => exact replied_sent h _
  | none => simp [h, show answerCode confreq = false from rfl]

theorem replied_request (v : View) (retransmit : Bool) (id : UInt8) (data : List UInt8)
    (hello : Bool) : replied (v.request retransmit id data hello).log = replied v.log := by
  rw [View.request, replied_confreq]
  simp

theorem replied_answer {l : List FsmEvent} {id : UInt8} (h : replied l = none)
    (hl : lastRequest l = some id) (c : ConfCode) (data : List UInt8) :
    replied (.sent ⟨c.code, id, data⟩ :: l) = some c.code := by
  have ha : answerCode c.code = true := by cases c <;> rfl
  simp [h, hl, ha]

/-! ## Agreement -/

/-- `ids` is what carries the induction: while a request may still be answered,
its id is the one `reqid` holds. -/
structure Agreed (v : View) : Prop where
  ids : v.state.negotiating ∨ v.state = .opened →
    acked v.log = true ∨ lastSconfreq v.log = some v.reqid
  ours : v.state = .ackrcvd ∨ v.state = .opened → acked v.log = true
  theirs : v.state = .acksent ∨ v.state = .opened → replied v.log = some confack

section

variable {t : Tag} {v v' : View}

/-- Outside the negotiation nothing is promised. -/
theorem agreed_outside (hn : v.state.negotiating = false) (ho : v.state ≠ .opened) :
    Agreed v := by
  have hs : ∀ {st : FsmState}, st.negotiating → v.state ≠ st := by
    rintro st h rfl
    rw [hn] at h
    cases h
  refine ⟨?_, ?_, ?_⟩
  · rintro (h | h)
    · rw [hn] at h; cases h
    · exact absurd h ho
  · rintro (h | h)
    · exact absurd h (hs rfl)
    · exact absurd h ho
  · rintro (h | h)
    · exact absurd h (hs rfl)
    · exact absurd h ho

theorem agreed_idle (h : v.state.idle) : Agreed v :=
  agreed_outside (by revert h; cases v.state <;> simp [FsmState.idle, FsmState.negotiating])
    (idle_ne_opened h)

theorem agreed_terminating (h : v.state.terminating) : Agreed v :=
  agreed_outside
    (by revert h; cases v.state <;> simp [FsmState.terminating, FsmState.negotiating])
    (terminating_ne_opened h)

/-- In `REQSENT` only the id matters. -/
theorem agreed_reqsent (hs : v.state = .reqsent)
    (hi : acked v.log = true ∨ lastSconfreq v.log = some v.reqid) : Agreed v :=
  ⟨fun _ => hi, by simp [hs], by simp [hs]⟩

theorem Agreed.same (hv : Agreed v) (hs : v'.state = v.state) (hq : v'.reqid = v.reqid)
    (ha : acked v'.log = acked v.log) (hl : lastSconfreq v'.log = lastSconfreq v.log)
    (hr : ∀ code, replied v.log = some code → replied v'.log = some code) : Agreed v' := by
  refine ⟨?_, ?_, ?_⟩
  · rw [hs, ha, hl, hq]; exact hv.ids
  · rw [hs, ha]; exact hv.ours
  · rw [hs]; exact fun h => hr _ (hv.theirs h)

/-- Answering the peer's request. -/
theorem agreed_answer {id : UInt8} (c : ConfCode) (data : List UInt8)
    (hi : acked v.log = true ∨ lastSconfreq v.log = some v.reqid)
    (ho : v.state = .ackrcvd → acked v.log = true)
    (hr : replied v.log = none) (hl : lastRequest v.log = some id) :
    Agreed (v.answer c id data) := by
  have hans := replied_answer hr hl c data
  unfold View.answer View.settle
  split
  · next hc =>
      subst hc
      split
      · next hs => exact ⟨fun _ => .inl (ho hs), fun _ => ho hs, fun _ => hans⟩
      · exact ⟨fun _ => hi, by simp, fun _ => hans⟩
  · split
    · next hs =>
        refine ⟨fun _ => .inl (ho hs), fun _ => ho hs, ?_⟩
        have hs' : v.state = .ackrcvd := hs
        simp [hs']
    · exact agreed_reqsent rfl hi

/-- Taking an Ack that has the right id. -/
theorem acked_take {p : CpPacket} (hp : p.code = confack) (hid : p.id = v.reqid)
    (hi : acked v.log = true ∨ lastSconfreq v.log = some v.reqid) :
    acked (v.take p).log = true := by
  rcases hi with hi | hi
  · simp [hi]
  · simp [hi, hp, hid]

theorem replyCode_ne_confreq {code : UInt8} (h : replyCode code) : code ≠ confreq := by
  rcases h with h | h | h <;> rw [h] <;> decide

theorem move_agreed (h : Move t v v') (ht : t ≠ .termackOpened) (hv : Agreed v) :
    Agreed v' := by
  cases h with
  | stay => exact hv
  | idle h h' => exact agreed_idle h'
  | swap h h' => exact agreed_terminating h'
  | start h => exact agreed_reqsent rfl (.inr rfl)
  | halt h h' => exact agreed_idle h'
  | lost h => exact agreed_idle rfl
  | close h => exact agreed_terminating rfl
  | closeOpened h h' => exact agreed_terminating h'
  | reterminate h => exact agreed_terminating h
  | rerequest h h' =>
      by_cases hs : v.state = .ackrcvd
      · rw [if_pos hs] at h'
        exact agreed_reqsent h' (.inr rfl)
      · rw [if_neg hs] at h'
        subst h'
        refine ⟨fun _ => .inr rfl, ?_, ?_⟩
        · rintro (h₁ | h₁)
          · exact absurd h₁ hs
          · exact absurd h₁ (negotiating_ne_opened h)
        · intro h₁
          rw [View.enter, replied_request]
          exact hv.theirs h₁
  | stray h => exact hv.same rfl rfl rfl rfl fun _ => id
  | @ignore _ p h =>
      by_cases hp : p.code = confreq
      · rcases h hp with hs | hs
        · exact agreed_idle (by rw [View.say, hs]; rfl)
        · exact agreed_terminating hs
      · exact hv.same rfl rfl rfl rfl fun _ hr => by simpa [hp] using hr
  | reply h => exact hv.same rfl rfl rfl rfl fun _ hr => replied_sent hr _
  | answer hp h =>
      refine agreed_answer _ _ (hv.ids (.inl h)) (fun hs => hv.ours (.inl hs)) ?_ ?_
      · simp [hp]
      · simp [hp]
  | renegotiate hp h =>
      refine agreed_answer _ _ (.inr rfl) (by simp) ?_ ?_
      · rw [View.enter, replied_request]
        simp [hp]
      · simp [hp]
  | invite hp h =>
      refine agreed_answer _ _ (.inr rfl) (by simp) ?_ ?_
      · rw [View.enter, replied_request]
        simp [hp]
      · simp [hp]
  | demote hp h =>
      have hn : v.state.negotiating := by rcases h with h | h <;> rw [h] <;> rfl
      exact agreed_reqsent rfl (hv.ids (.inl hn))
  | terminated hp h => exact agreed_terminating rfl
  | late hp hid h =>
      rcases h with h | h
      · exact agreed_idle h
      · exact agreed_terminating h
  | acked hp hid h =>
      have ha := acked_take hp hid (hv.ids (.inl (by rw [h]; rfl)))
      exact ⟨fun _ => .inl ha, fun _ => ha, by simp⟩
  | ackedUp hp hid h =>
      have ha := acked_take hp hid (hv.ids (.inl (by rw [h]; rfl)))
      refine ⟨fun _ => .inl ha, fun _ => ha, ?_⟩
      intro _
      have hr := hv.theirs (.inl h)
      have hne : confack ≠ confreq := by decide
      simpa [hp, hne] using hr
  | nakked hp hid h =>
      refine ⟨fun _ => .inr rfl, ?_, ?_⟩
      · rcases h with h | h <;> simp [h]
      · intro hs
        rw [replied_request]
        have hr := hv.theirs hs
        have hne := replyCode_ne_confreq hp
        simpa [hne] using hr
  | reopen hp hid h => exact agreed_reqsent rfl (.inr rfl)
  | extra hp hid h => exact agreed_reqsent rfl (.inr rfl)
  | done hp h h' => exact agreed_idle h'
  | slip hp h => exact absurd rfl ht

/-- `fsm_rtermack` has just sent a request that nobody can have acknowledged. -/
theorem slip_not_acked (h : Move .termackOpened v v') :
    v'.state = .opened ∧ acked v'.log = false := by
  cases h with
  | slip hp h => exact ⟨h, rfl⟩

end

section

variable {σ : Type} {pr : Protocol σ} {w : World σ} {c : FsmCall}

theorem step_agreed (hv : Agreed w.view) (h : ¬ (w.f.state = .opened ∧ termackArrives w c)) :
    Agreed (pr.step w c).view := by
  obtain ⟨v₁, hm, hp⟩ := step_path pr w c
  have hv₁ := move_agreed hm (callTag_ne_termackOpened h) hv
  exact hp.preserves (fun _ _ hm hv => move_agreed hm (by decide) hv) hv₁

/-- `ACKRCVD` and `OPENED` mean that our last request was acknowledged, `ACKSENT`
and `OPENED` that the peer's last request was, all along a run, just when no
Terminate-Ack comes in on an open link. -/
theorem agreement_iff_no_termack (pr : Protocol σ) (random : UInt8) (f : Fsm) (env : σ)
    (cs : List FsmCall) :
    Always pr.step
        (fun w =>
          (w.f.state = .ackrcvd ∨ w.f.state = .opened → acked w.log = true) ∧
          (w.f.state = .acksent ∨ w.f.state = .opened → replied w.log = some confack))
        (World.start random f env) cs ↔
      Guarded pr.step (fun w c => ¬ (w.f.state = .opened ∧ termackArrives w c))
        (World.start random f env) cs := by
  have h0 : Agreed (World.start random f env).view := agreed_idle rfl
  refine always_iff_guarded (fun w : World σ => Agreed w.view) (fun _ _ => True) h0
    (fun w hw => ⟨hw.ours, hw.theirs⟩) (fun w c hw _ hg => step_agreed hw hg) ?_
    (fun _ _ _ => trivial)
  intro w c hw _ hg hP
  rw [not_not] at hg
  have hslip := slip_not_acked (step_slip pr w hg.1 hg.2)
  have hack : acked (pr.step w c).view.log = true := hP.1 (.inr hslip.1)
  rw [hslip.2] at hack
  cases hack

/-- Open, up, the peer's request, the peer's Ack, and a Terminate-Ack: a new
request is out, and the state says it was acknowledged. -/
theorem agreement_fails :
    ¬ Always Protocol.bare.step
        (fun w =>
          (w.f.state = .ackrcvd ∨ w.f.state = .opened → acked w.log = true) ∧
          (w.f.state = .acksent ∨ w.f.state = .opened → replied w.log = some confack))
        (World.start 0 default ())
        [.open, .lowerup, .input [1, 9, 0, 4], .input [2, 1, 0, 4], .input [6, 1, 0, 4]] := by
  intro h
  have hack := (h _ (List.prefix_refl _)).1 (.inr (by decide))
  revert hack
  decide

end

/-! ## Ids -/

/-- Our last request has been answered. -/
@[simp] def answered : List FsmEvent → Bool
  | .sconfreq _ _ :: _ => false
  | .accepted _ _ :: _ => true
  | _ :: l => answered l
  | [] => false

/-- Every accepted reply is the first one to the last request and has its id,
and a request that was not answered is repeated under its id. -/
@[simp] def matched : List FsmEvent → Bool
  | .accepted _ id :: l => lastSconfreq l == some id && !answered l && matched l
  | .sconfreq true id :: l => (answered l || lastSconfreq l == some id) && matched l
  | _ :: l => matched l
  | [] => true

/-- The id in `reqid` was put there by `fsm_sconfreq`. Accepting a reply
overwrites it, and so does sending a Terminate-Request. -/
@[simp] def requestHeld : List FsmEvent → Bool
  | .sconfreq _ _ :: _ => true
  | .accepted _ _ :: _ => false
  | .sent p :: l => p.code != termreq && requestHeld l
  | _ :: l => requestHeld l
  | [] => false

section

variable (b : Bool) (l : List FsmEvent)

@[simp] theorem answered_hello :
    answered ((if b then [.client] else []) ++ l) = answered l := by
  cases b <;> rfl

@[simp] theorem matched_hello :
    matched ((if b then [.client] else []) ++ l) = matched l := by
  cases b <;> rfl

end

/-- `held` says what the name of `requestHeld` says; `again` is the same for the
request that a timeout repeats. -/
structure Matched (v : View) : Prop where
  all : matched v.log = true
  held : requestHeld v.log = true → lastSconfreq v.log = some v.reqid ∧ answered v.log = false
  again : v.state.negotiating → answered v.log = true ∨ lastSconfreq v.log = some v.reqid

section

variable {t : Tag} {v v' : View}

/-- Events that have no part in the matching of replies to requests. -/
def neutral : FsmEvent → Bool
  | .rcvd _ | .client | .up | .down => true
  | .sent p => p.code != termreq
  | .sconfreq _ _ | .accepted _ _ => false

theorem Matched.say (hv : Matched v) {e : FsmEvent} (he : neutral e) : Matched (v.say e) := by
  cases e with
  | rcvd p | client | up | down => exact ⟨hv.all, hv.held, hv.again⟩
  | sent p =>
      refine ⟨hv.all, fun h => hv.held ?_, hv.again⟩
      simp only [View.say, requestHeld, Bool.and_eq_true] at h
      exact h.2
  | sconfreq retransmit id => cases he
  | accepted code id => cases he

theorem Matched.enter (hv : Matched v) {st : FsmState}
    (h : st.negotiating → v.state.negotiating) : Matched (v.enter st) :=
  ⟨hv.all, hv.held, fun hn => hv.again (h hn)⟩

theorem Matched.cancel (hv : Matched v) : Matched v.cancel := ⟨hv.all, hv.held, hv.again⟩

theorem Matched.arm (hv : Matched v) : Matched v.arm := ⟨hv.all, hv.held, hv.again⟩

theorem Matched.request (hv : Matched v) (st : FsmState) (id : UInt8) (data : List UInt8)
    (hello : Bool) : Matched ((v.request false id data hello).enter st) :=
  ⟨by simpa using hv.all, fun _ => ⟨rfl, rfl⟩, fun _ => .inr rfl⟩

theorem Matched.rerequest (hv : Matched v) (hn : v.state.negotiating) (st : FsmState)
    (data : List UInt8) (hello : Bool) :
    Matched ((v.request true v.reqid data hello).enter st) := by
  refine ⟨?_, fun _ => ⟨rfl, rfl⟩, fun _ => .inr rfl⟩
  rcases hv.again hn with h | h
  · simp [h, hv.all]
  · simp [h, hv.all]

theorem Matched.terminate (hv : Matched v) {st : FsmState} (hst : st.terminating) (id : UInt8) :
    Matched ((v.terminate id).enter st) := by
  refine ⟨hv.all, ?_, ?_⟩
  · intro h
    simp at h
  · intro h
    revert h hst
    cases st <;> simp [FsmState.terminating, FsmState.negotiating]

/-- Taking a reply while `reqid` holds the id of a request. -/
theorem Matched.take (hv : Matched v) {p : CpPacket} (hid : p.id = v.reqid)
    (hh : requestHeld v.log = true) : Matched (v.take p) := by
  obtain ⟨hl, ha⟩ := hv.held hh
  refine ⟨?_, by simp, fun _ => .inl rfl⟩
  simp [hl, ha, hv.all, hid]

theorem Matched.settle (c : ConfCode) (hv : Matched v) (hn : v.state.negotiating) :
    Matched (v.settle c) := by
  rw [View.settle]
  split
  · split
    · exact (hv.cancel.enter fun h => by cases h).say rfl
    · exact hv.enter fun _ => hn
  · split
    · exact hv
    · exact hv.enter fun _ => hn

theorem Matched.answer {c : ConfCode} {id : UInt8} {data : List UInt8} (hv : Matched v)
    (hn : v.state.negotiating) : Matched (v.answer c id data) :=
  (hv.say (by cases c <;> rfl)).settle c hn

theorem negotiating_of_idle {st : FsmState} (h : st.idle) : ¬ st.negotiating := by
  revert h
  cases st <;> simp [FsmState.idle, FsmState.negotiating]

theorem negotiating_of_terminating {st : FsmState} (h : st.terminating) : ¬ st.negotiating := by
  revert h
  cases st <;> simp [FsmState.terminating, FsmState.negotiating]

theorem move_matched (h : Move t v v')
    (ht : t = .reply ∨ t = .extraReply → requestHeld v.log = true) (hv : Matched v) :
    Matched v' := by
  cases h with
  | stay => exact hv
  | idle h h' => exact hv.enter fun hn => absurd hn (negotiating_of_idle h')
  | swap h h' => exact hv.enter fun hn => absurd hn (negotiating_of_terminating h')
  | start h => exact hv.request _ _ _ _
  | halt h h' => exact hv.cancel.enter fun hn => absurd hn (negotiating_of_idle h')
  | lost h => exact (hv.say rfl).enter fun hn => by cases hn
  | close h => exact hv.cancel.terminate rfl _
  | closeOpened h h' => exact (hv.say rfl).terminate h' _
  | reterminate h => exact hv.cancel.terminate h _
  | rerequest h h' => exact hv.cancel.rerequest h _ _ _
  | stray h => exact hv.cancel
  | ignore h => exact hv.say rfl
  | reply h => exact hv.say (by rcases h with h | h | h <;> simp [neutral, h] <;> decide)
  | answer hp h => exact (hv.say rfl).answer h
  | renegotiate hp h => exact (((hv.say rfl).say rfl).request _ _ _ _).answer rfl
  | invite hp h => exact ((hv.say rfl).request _ _ _ _).answer rfl
  | demote hp h =>
      exact (hv.say rfl).enter fun _ => by rcases h with h | h <;> rw [View.say, h] <;> rfl
  | terminated hp h => exact (((hv.say rfl).say rfl).enter fun hn => by cases hn).arm
  | late hp hid h => exact hv.take hid (ht (.inl rfl))
  | acked hp hid h =>
      exact (hv.take hid (ht (.inl rfl))).enter fun _ => by rw [View.take, h]; rfl
  | ackedUp hp hid h =>
      exact ((hv.take hid (ht (.inl rfl))).cancel.enter fun hn => by cases hn).say rfl
  | nakked hp hid h => exact (hv.take hid (ht (.inl rfl))).cancel.request _ _ _ _
  | reopen hp hid h => exact ((hv.take hid (ht (.inl rfl))).say rfl).request _ _ _ _
  | extra hp hid h => exact (hv.take hid (ht (.inr rfl))).request _ _ _ _
  | done hp h h' => exact (hv.say rfl).enter fun hn => absurd hn (negotiating_of_idle h')
  | slip hp h => exact ((hv.say rfl).say rfl).request _ _ _ _

end

section

variable {σ : Type} {pr : Protocol σ} {w : World σ} {c : FsmCall}

theorem step_matched (hv : Matched w.view)
    (h : replyArrives pr w c → requestHeld w.log = true) : Matched (pr.step w c).view := by
  obtain ⟨v₁, hm, hp⟩ := step_path pr w c
  have hv₁ : Matched v₁ := by
    refine move_matched hm (fun ht => h ?_) hv
    rcases callTag_cases pr w c with ⟨hr, _⟩ | ⟨_, _, ht'⟩ | ⟨_, _, ht' | ht'⟩
    · exact hr
    · rw [ht', termackTag] at ht
      revert ht
      split
      · simp
      · split <;> simp
    · rw [ht'] at ht; simp at ht
    · rw [ht'] at ht; simp at ht
  refine hp.preserves (fun _ _ hm hv => move_matched hm ?_ hv) hv₁
  rintro (ht | ht) <;> cases ht

/-- Every reply taken is the only one to our last request and has its id, and a
request is repeated under its id until it is answered, along every run in which
a reply that passes both checks finds `reqid` as `fsm_sconfreq` left it. -/
theorem replies_matched (pr : Protocol σ) (random : UInt8) (f : Fsm) (env : σ)
    (cs : List FsmCall)
    (h : Guarded pr.step (fun w c => replyArrives pr w c → requestHeld w.log = true)
      (World.start random f env) cs) :
    Always pr.step (fun w => matched w.log = true) (World.start random f env) cs := by
  have h0 : Matched (World.start random f env).view :=
    ⟨rfl, fun h => (nomatch h), fun h => (nomatch h)⟩
  have hall := always_of_guarded (fun w : World σ => Matched w.view) h0
    (fun w c hw hg => step_matched hw hg) h
  exact fun pre hpre => (hall pre hpre).all

/-- The ordinary order: one request, one Ack. -/
theorem replies_matched_one_ack :
    Always Protocol.bare.step (fun w => matched w.log = true) (World.start 0 default ())
      [.open, .lowerup, .input [2, 1, 0, 4]] := by
  refine replies_matched Protocol.bare 0 default () _ ?_
  refine guarded_cons ?_ (guarded_cons ?_ (guarded_cons ?_ guarded_nil))
  · rintro ⟨p, hp, _⟩
    cases hp
  · rintro ⟨p, hp, _⟩
    cases hp
  · intro _
    rfl

/-- An Ack, and another one whose id is the one `-1` is stored as: it passes
the id check, since no request is waiting for a reply. -/
theorem replies_unmatched :
    ¬ Always Protocol.bare.step (fun w => matched w.log = true) (World.start 0 default ())
        [.open, .lowerup, .input [2, 1, 0, 4], .input [2, 255, 0, 4]] := by
  intro h
  have hm := h _ (List.prefix_refl _)
  revert hm
  decide

end

end VxWorks.Ppp
