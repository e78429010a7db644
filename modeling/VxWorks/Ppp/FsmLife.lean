import VxWorks.Ppp.FsmTable

/-!
# Up, down and the restart timer

Two things the layers above and the callout list depend on. The first is that
the up and down callbacks come in turn and that the last of them agrees with
the control state: IPCP configures the interface in the one and unconfigures it
in the other. The second is that the restart timer runs exactly once in the
states that wait for something and not at all in the others.

Neither is true of every run, and both theorems say exactly of which runs it
is. A Terminate-Ack on an open link calls down without leaving `OPENED`, where
the two functions next to it in the source that do the same thing do leave it.
The timer is left running by a Terminate-Ack that ends a termination, and
armed a second time by a reply that comes in `ACKRCVD`.
-/

namespace VxWorks.Ppp

open VxWorks.Lib

/-! ## Up and down -/

/-- Of the up and down callbacks, the last one called was up. -/
@[simp] def isUp : List FsmEvent → Bool
  | .up :: _ => true
  | .down :: _ => false
  | _ :: l => isUp l
  | [] => false

/-- The up and down callbacks alternate, starting with up. -/
@[simp] def alternate : List FsmEvent → Bool
  | .up :: l => !isUp l && alternate l
  | .down :: l => isUp l && alternate l
  | _ :: l => alternate l
  | [] => true

@[simp] theorem isUp_hello (b : Bool) (l : List FsmEvent) :
    isUp ((if b then [.client] else []) ++ l) = isUp l := by
  cases b <;> rfl

@[simp] theorem alternate_hello (b : Bool) (l : List FsmEvent) :
    alternate ((if b then [.client] else []) ++ l) = alternate l := by
  cases b <;> rfl

structure UpDown (v : View) : Prop where
  turns : alternate v.log = true
  last : isUp v.log = true ↔ v.state = .opened

theorem idle_ne_opened {st : FsmState} (h : st.idle) : st ≠ .opened := by
  rintro rfl; cases h

theorem negotiating_ne_opened {st : FsmState} (h : st.negotiating) : st ≠ .opened := by
  rintro rfl; cases h

theorem terminating_ne_opened {st : FsmState} (h : st.terminating) : st ≠ .opened := by
  rintro rfl; cases h

theorem timed_ne_opened {st : FsmState} (h : st.timed) : st ≠ .opened := by
  rintro rfl; cases h

section

variable {t : Tag} {v v' : View}

/-- Nothing is said about up or down, and the link is open neither before nor
after. -/
theorem UpDown.quiet (hv : UpDown v) (ha : alternate v'.log = alternate v.log)
    (hu : isUp v'.log = isUp v.log) (hs : v.state ≠ .opened) (hs' : v'.state ≠ .opened) :
    UpDown v' := by
  refine ⟨ha.trans hv.turns, ?_⟩
  rw [hu, hv.last]
  exact ⟨fun h => absurd h hs, fun h => absurd h hs'⟩

/-- Nothing is said about up or down, and the control state stays. -/
theorem UpDown.still (hv : UpDown v) (ha : alternate v'.log = alternate v.log)
    (hu : isUp v'.log = isUp v.log) (hs : v'.state = v.state) : UpDown v' :=
  ⟨ha.trans hv.turns, by rw [hu, hv.last, hs]⟩

/-- Down is called and the link is left. -/
theorem UpDown.fall (hv : UpDown v) (hs : v.state = .opened)
    (ha : alternate v'.log = (isUp v.log && alternate v.log)) (hu : isUp v'.log = false)
    (hs' : v'.state ≠ .opened) : UpDown v' := by
  refine ⟨?_, by simp [hu, hs']⟩
  rw [ha, hv.turns, hv.last.mpr hs]
  rfl

/-- Up is called and the link is open. -/
theorem UpDown.rise (hv : UpDown v) (hs : v.state ≠ .opened)
    (ha : alternate v'.log = (!isUp v.log && alternate v.log)) (hu : isUp v'.log = true)
    (hs' : v'.state = .opened) : UpDown v' := by
  have hd : isUp v.log = false := by
    cases h : isUp v.log with
    | false => rfl
    | true => exact absurd (hv.last.mp h) hs
  refine ⟨?_, by simp [hu, hs']⟩
  rw [ha, hv.turns, hd]
  rfl

theorem UpDown.settle (c : ConfCode) (hv : UpDown v) (hs : v.state ≠ .opened) :
    UpDown (v.settle c) := by
  rw [View.settle]
  split
  · split
    · exact hv.rise hs rfl rfl rfl
    · exact hv.quiet rfl rfl hs (by simp)
  · split
    · exact hv
    · exact hv.quiet rfl rfl hs (by simp)

theorem UpDown.answer {c : ConfCode} {id : UInt8} {data : List UInt8} (hv : UpDown v)
    (hs : v.state ≠ .opened) : UpDown (v.answer c id data) :=
  (hv.still rfl rfl rfl : UpDown (v.say (.sent ⟨c.code, id, data⟩))).settle c hs

theorem move_upDown (h : Move t v v') (ht : t ≠ .termackOpened) (hv : UpDown v) :
    UpDown v' := by
  cases h with
  | stay => exact hv
  | idle h h' => exact hv.quiet rfl rfl (idle_ne_opened h) (idle_ne_opened h')
  | swap h h' => exact hv.quiet rfl rfl (terminating_ne_opened h) (terminating_ne_opened h')
  | start h => exact hv.quiet (by simp) (by simp) (idle_ne_opened h) (by simp)
  | halt h h' => exact hv.quiet rfl rfl (timed_ne_opened h) (idle_ne_opened h')
  | lost h => exact hv.fall h rfl rfl (by simp)
  | close h => exact hv.quiet rfl rfl (negotiating_ne_opened h) (by simp)
  | closeOpened h h' => exact hv.fall h rfl rfl (terminating_ne_opened h')
  | reterminate h => exact hv.still rfl rfl rfl
  | rerequest h h' =>
      refine hv.quiet (by simp) (by simp) (negotiating_ne_opened h) ?_
      rw [h']
      split
      · simp
      · exact negotiating_ne_opened h
  | stray h => exact hv.still rfl rfl rfl
  | ignore h => exact hv.still rfl rfl rfl
  | reply h => exact hv.still rfl rfl rfl
  | answer hp h =>
      have hs := negotiating_ne_opened h
      exact UpDown.answer (hv.still rfl rfl rfl) hs
  | renegotiate hp h =>
      exact UpDown.answer (hv.fall h (by simp) (by simp) (by simp)) (by simp)
  | invite hp h =>
      exact UpDown.answer (hv.quiet (by simp) (by simp) (by simp [h]) (by simp)) (by simp)
  | demote hp h => exact hv.quiet rfl rfl (by rcases h with h | h <;> simp [h]) (by simp)
  | terminated hp h => exact hv.fall h rfl rfl (by simp)
  | late hp hid h => exact hv.still rfl rfl rfl
  | acked hp hid h => exact hv.quiet rfl rfl (by simp [h]) (by simp)
  | ackedUp hp hid h => exact hv.rise (by simp [h]) rfl rfl rfl
  | nakked hp hid h => exact hv.still (by simp) (by simp) rfl
  | reopen hp hid h => exact hv.fall h (by simp) (by simp) (by simp)
  | extra hp hid h => exact hv.quiet (by simp) (by simp) (by simp [h]) (by simp)
  | done hp h h' => exact hv.quiet rfl rfl (terminating_ne_opened h) (idle_ne_opened h')
  | slip hp h => exact absurd rfl ht

/-- The move the others are spared: the last callback is down, and the state
says the link is open. -/
theorem slip_not_upDown (h : Move .termackOpened v v') : ¬ UpDown v' := by
  cases h with
  | slip hp h =>
      intro hv
      have := hv.last.mpr h
      simp at this

end

section

variable {σ : Type} {pr : Protocol σ} {w : World σ} {c : FsmCall}

theorem replyTag_ne (st : FsmState) : replyTag st ≠ .termackOpened := by
  rw [replyTag]
  split <;> decide

theorem callTag_ne_termackOpened (h : ¬ (w.f.state = .opened ∧ termackArrives w c)) :
    callTag pr w c ≠ .termackOpened := by
  rcases callTag_cases pr w c with ⟨_, ht⟩ | ⟨ha, _, ht⟩ | ⟨_, _, ht | ht⟩
  · rw [ht]
    exact replyTag_ne _
  · rw [ht, termackTag, if_neg fun hs => h ⟨hs, ha⟩]
    split <;> decide
  · rw [ht]; decide
  · rw [ht]; decide

theorem step_upDown (hv : UpDown w.view) (h : ¬ (w.f.state = .opened ∧ termackArrives w c)) :
    UpDown (pr.step w c).view := by
  obtain ⟨v₁, hm, hp⟩ := step_path pr w c
  have hv₁ := move_upDown hm (callTag_ne_termackOpened h) hv
  exact hp.preserves (fun _ _ hm hv => move_upDown hm (by decide) hv) hv₁

/-- The callbacks alternate, and the last of them was up exactly in `OPENED`,
all along a run, just when no Terminate-Ack comes in on an open link. -/
theorem upDown_iff_no_termack (pr : Protocol σ) (random : UInt8) (f : Fsm) (env : σ)
    (cs : List FsmCall) :
    Always pr.step
        (fun w => alternate w.log = true ∧ (isUp w.log = true ↔ w.f.state = .opened))
        (World.start random f env) cs ↔
      Guarded pr.step (fun w c => ¬ (w.f.state = .opened ∧ termackArrives w c))
        (World.start random f env) cs := by
  have h0 : UpDown (World.start random f env).view :=
    ⟨rfl, by simp [World.view, World.start, fsmInit]⟩
  refine always_iff_guarded (fun w => UpDown w.view) (fun _ _ => True) h0
    (fun w hw => ⟨hw.turns, hw.last⟩) (fun w c hw _ hg => step_upDown hw hg) ?_
    (fun _ _ _ => trivial)
  intro w c hw _ hg hP
  rw [not_not] at hg
  exact slip_not_upDown (step_slip pr w hg.1 hg.2) ⟨hP.1, hP.2⟩

/-- Open, up, the peer's request, the peer's Ack, and a Terminate-Ack nobody
asked for. -/
theorem upDown_fails :
    ¬ Always Protocol.bare.step
        (fun w => alternate w.log = true ∧ (isUp w.log = true ↔ w.f.state = .opened))
        (World.start 0 default ())
        [.open, .lowerup, .input [1, 9, 0, 4], .input [2, 1, 0, 4], .input [6, 1, 0, 4]] := by
  intro h
  have hup := (h _ (List.prefix_refl _)).2.mpr
  revert hup
  decide

end

/-! ## The restart timer

How many callouts there are beyond what the control state calls for. Untagged
moves and the ordinary acceptance of a reply keep that number whatever it is;
the three moves the theorem excludes add one to it. -/

/-- The restart timer the control state calls for. -/
def timerDue (st : FsmState) : Nat := if st.timed then 1 else 0

def Excess (k : Nat) (v : View) : Prop := v.pending = timerDue v.state + k

theorem due_timed {st : FsmState} (h : st.timed) : timerDue st = 1 := by simp [timerDue, h]

theorem due_negotiating {st : FsmState} (h : st.negotiating) : timerDue st = 1 :=
  due_timed (by simp [FsmState.timed, h])

theorem due_terminating {st : FsmState} (h : st.terminating) : timerDue st = 1 :=
  due_timed (by simp [FsmState.timed, h])

theorem due_idle {st : FsmState} (h : st.idle) : timerDue st = 0 := by
  cases st <;> first | rfl | cases h

theorem due_opened {st : FsmState} (h : st = .opened) : timerDue st = 0 := by rw [h]; rfl

section

variable {t : Tag} {k : Nat} {v v' : View}

theorem Excess.keep (hv : Excess k v) (hd : timerDue v'.state = timerDue v.state)
    (hp : v'.pending = v.pending) : Excess k v' := by
  rw [Excess, hd, hp]
  exact hv

theorem Excess.arm (hv : Excess k v) (hd : timerDue v.state = 0) (hd' : timerDue v'.state = 1)
    (hp : v'.pending = v.pending + 1) : Excess k v' := by
  rw [Excess] at *
  omega

theorem Excess.cancel (hv : Excess k v) (hd : timerDue v.state = 1)
    (hd' : timerDue v'.state = 0) (hp : v'.pending = v.pending - 1) : Excess k v' := by
  rw [Excess] at *
  omega

theorem Excess.rearm (hv : Excess k v) (hd : timerDue v.state = 1)
    (hd' : timerDue v'.state = 1) (hp : v'.pending = v.pending - 1 + 1) : Excess k v' := by
  rw [Excess] at *
  omega

theorem Excess.settle (c : ConfCode) (hv : Excess k v) (h : v.state.negotiating) :
    Excess k (v.settle c) := by
  have hd := due_negotiating h
  rw [View.settle]
  split
  · split
    · exact hv.cancel hd rfl rfl
    · exact hv.keep hd.symm rfl
  · split
    · exact hv
    · exact hv.keep hd.symm rfl

theorem move_excess (h : Move t v v') (ht : t = .plain ∨ t = .reply) (hv : Excess k v) :
    Excess k v' := by
  cases h with
  | stay => exact hv
  | idle h h' => exact hv.keep ((due_idle h').trans (due_idle h).symm) rfl
  | swap h h' => exact hv.keep ((due_terminating h').trans (due_terminating h).symm) rfl
  | start h => exact hv.arm (due_idle h) rfl rfl
  | halt h h' => exact hv.cancel (due_timed h) (due_idle h') rfl
  | lost h => exact hv.keep (due_opened h).symm rfl
  | close h => exact hv.rearm (due_negotiating h) rfl rfl
  | closeOpened h h' => exact hv.arm (due_opened h) (due_terminating h') rfl
  | reterminate h => exact hv.rearm (due_terminating h) (due_terminating h) rfl
  | rerequest h h' =>
      refine hv.rearm (due_negotiating h) ?_ rfl
      rw [h']
      split
      · rfl
      · exact due_negotiating h
  | stray h => rcases ht with ht | ht <;> cases ht
  | ignore h => exact hv
  | reply h => exact hv
  | answer hp h => exact Excess.settle _ hv h
  | renegotiate hp h => exact Excess.settle _ (hv.arm (due_opened h) rfl rfl) rfl
  | invite hp h => exact Excess.settle _ (hv.arm (due_idle (by rw [h]; rfl)) rfl rfl) rfl
  | demote hp h =>
      have hn : v.state.negotiating := by rcases h with h | h <;> rw [h] <;> rfl
      exact hv.keep (due_negotiating hn).symm rfl
  | terminated hp h => exact hv.arm (due_opened h) rfl rfl
  | late hp hid h => exact hv
  | acked hp hid h => exact hv.keep (due_negotiating (by rw [h]; rfl)).symm rfl
  | ackedUp hp hid h => exact hv.cancel (due_negotiating (by rw [h]; rfl)) rfl rfl
  | nakked hp hid h =>
      have hn : v.state.negotiating := by rcases h with h | h <;> rw [h] <;> rfl
      exact hv.rearm (due_negotiating hn) (due_negotiating hn) rfl
  | reopen hp hid h => exact hv.arm (due_opened h) rfl rfl
  | extra hp hid h => rcases ht with ht | ht <;> cases ht
  | done hp h h' => rcases ht with ht | ht <;> cases ht
  | slip hp h => rcases ht with ht | ht <;> cases ht

/-- A callout more than the two states differ by. -/
theorem Excess.leave (hv : Excess k v)
    (hp : v'.pending + timerDue v.state = v.pending + timerDue v'.state + 1) :
    Excess (k + 1) v' := by
  rw [Excess] at *
  omega

/-- The three moves that leave a callout behind. -/
theorem move_excess_succ (h : Move t v v')
    (ht : t = .extraReply ∨ t = .termack ∨ t = .termackOpened) (hv : Excess k v) :
    Excess (k + 1) v' := by
  cases h with
  | extra hp hid h =>
      refine hv.leave ?_
      rw [h]
      rfl
  | done hp h h' =>
      refine hv.leave ?_
      rw [due_terminating h, View.enter, due_idle h']
      rfl
  | slip hp h =>
      refine hv.leave ?_
      rw [View.request, View.say, View.say, h]
      rfl
  | _ => rcases ht with ht | ht | ht <;> cases ht

/-- An expiry that nobody waits for takes nothing away when there is nothing. -/
theorem stray_excess (h : Move .stray v v') (hv : Excess 0 v) : Excess 0 v' := by
  cases h with
  | stray h =>
      rw [Excess] at *
      rw [timerDue, h] at hv
      rw [View.cancel, timerDue, hv, h]
      rfl

end

section

variable {σ : Type} {pr : Protocol σ} {w : World σ} {c : FsmCall}

/-- The calls that leave a callout behind: a Terminate-Ack that is waited for
or comes in on an open link, and a reply taken in `ACKRCVD`. -/
def leavesTimer (pr : Protocol σ) (w : World σ) (c : FsmCall) : Prop :=
  (termackArrives w c ∧ (w.f.state = .closing ∨ w.f.state = .stopping ∨ w.f.state = .opened)) ∨
    (replyArrives pr w c ∧ w.f.state = .ackrcvd)

theorem callTag_leavesTimer (h : leavesTimer pr w c) :
    callTag pr w c = .extraReply ∨ callTag pr w c = .termack ∨
      callTag pr w c = .termackOpened := by
  rcases callTag_cases pr w c with ⟨hr, ht⟩ | ⟨ha, hr, ht⟩ | ⟨hr, ha, _⟩
  · rcases h with h | h
    · exact absurd h.1 (not_termackArrives pr w hr)
    · rw [ht, h.2]; decide
  · rcases h with ⟨_, hs | hs | hs⟩ | h
    · rw [ht, hs]; decide
    · rw [ht, hs]; decide
    · rw [ht, hs]; decide
    · exact absurd h.1 hr
  · rcases h with h | h
    · exact absurd h.1 ha
    · exact absurd h.1 hr

theorem callTag_not_leavesTimer (h : ¬ leavesTimer pr w c) :
    callTag pr w c = .plain ∨ callTag pr w c = .reply ∨ callTag pr w c = .stray := by
  rcases callTag_cases pr w c with ⟨hr, ht⟩ | ⟨ha, hr, ht⟩ | ⟨_, _, ht | ht⟩
  · rw [ht, replyTag, if_neg fun hs => h (.inr ⟨hr, hs⟩)]
    decide
  · have hst : ∀ st, w.f.state = st → st ≠ .opened ∧ st.terminating = false := by
      rintro st rfl
      refine ⟨fun hs => h (.inl ⟨ha, .inr (.inr hs)⟩), ?_⟩
      cases hs : w.f.state with
      | closing => exact absurd (.inl ⟨ha, .inl hs⟩) h
      | stopping => exact absurd (.inl ⟨ha, .inr (.inl hs)⟩) h
      | _ => rfl
    rw [ht, termackTag, if_neg (hst _ rfl).1, (hst _ rfl).2]
    decide
  · exact .inl ht
  · exact .inr (.inr ht)

theorem step_timer (hv : Excess 0 w.view) (h : ¬ leavesTimer pr w c) :
    Excess 0 (pr.step w c).view := by
  obtain ⟨v₁, hm, hp⟩ := step_path pr w c
  have hv₁ : Excess 0 v₁ := by
    rcases callTag_not_leavesTimer h with ht | ht | ht
    · exact move_excess hm (.inl ht) hv
    · exact move_excess hm (.inr ht) hv
    · exact stray_excess (ht ▸ hm) hv
  exact hp.preserves (fun _ _ hm hv => move_excess hm (.inl rfl) hv) hv₁

theorem step_timer_left (hv : Excess 0 w.view) (h : leavesTimer pr w c) :
    Excess 1 (pr.step w c).view := by
  obtain ⟨v₁, hm, hp⟩ := step_path pr w c
  have hv₁ : Excess 1 v₁ := move_excess_succ hm (callTag_leavesTimer h) hv
  exact hp.preserves (fun _ _ hm hv => move_excess hm (.inl rfl) hv) hv₁

/-- The restart timer runs once in `CLOSING`, `STOPPING`, `REQSENT`, `ACKRCVD`
and `ACKSENT` and not at all elsewhere, all along a run, just when no call of
the run leaves a callout behind. -/
theorem timer_iff_none_left (pr : Protocol σ) (random : UInt8) (f : Fsm) (env : σ)
    (cs : List FsmCall) :
    Always pr.step (fun w => w.pending = timerDue w.f.state) (World.start random f env) cs ↔
      Guarded pr.step (fun w c => ¬ leavesTimer pr w c) (World.start random f env) cs := by
  have h0 : Excess 0 (World.start random f env).view := rfl
  refine always_iff_guarded (fun w : World σ => Excess 0 w.view) (fun _ _ => True) h0
    (fun w hw => hw) (fun w c hw _ hg => step_timer hw hg) ?_ (fun _ _ _ => trivial)
  intro w c hw _ hg hP
  have hleft : Excess 1 (pr.step w c).view := step_timer_left hw (not_not.mp hg)
  rw [Excess] at hP hleft
  omega

/-- Open, up, close, and the peer acknowledges: `CLOSED`, with the timer still
running. -/
theorem timer_fails :
    ¬ Always Protocol.bare.step (fun w => w.pending = timerDue w.f.state)
        (World.start 0 default ())
        [.open, .lowerup, .close, .input [6, 2, 0, 4]] := by
  intro h
  have hp := h _ (List.prefix_refl _)
  revert hp
  decide

end

end VxWorks.Ppp
