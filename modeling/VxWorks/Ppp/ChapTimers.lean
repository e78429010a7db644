import VxWorks.Ppp.ChapRun

/-!
# The three callouts of CHAP

Each callout belongs to a state: a challenge is repeated while an answer to it
is waited for, the next challenge is due while the peer is trusted, and a
response is repeated until it is judged. `TimersRight` says so, and that there
is never more than one of a kind.

The functions agree with it up to one state. A periodic challenge is sent with
the callout for the one after it already set, and whatever leaves `RECHALLENGE`
then (an answer, the last repetition, the lower layer going down) either sets
that callout once more or forgets it. Besides that only the two functions that
start over, `ChapAuthPeer` and `ChapAuthWithPeer`, leave a callout of the state
they find. `Fit` is the list of these steps, and a run keeps the callouts right
exactly as long as it takes none of them.

Every function acts on the six fields of a `ChapClock` alone, so each is first
given as what it does to them.
-/

namespace VxWorks.Ppp

open VxWorks.Lib

/-- What the callouts are judged by. -/
structure ChapClock where
  client : ChapClient
  server : ChapServer
  interval : Int
  /-- Callouts `ChapChallengeTimeout`, and so on. -/
  challenges : Nat
  rechallenges : Nat
  responses : Nat

namespace ChapClock

structure Right (k : ChapClock) : Prop where
  challenges : k.challenges ≤ 1
  challenging : 0 < k.challenges → k.server = .initialChal ∨ k.server = .rechallenge
  rechallenges : k.rechallenges ≤ 1
  rechallenging : 0 < k.rechallenges →
    k.interval ≠ 0 ∧ (k.server = .opened ∨ k.server = .rechallenge)
  responses : k.responses ≤ 1
  responding : 0 < k.responses → k.client = .response

/-- A periodic challenge is out and the next one is already due. -/
def Ahead (k : ChapClock) : Prop := k.server = .rechallenge ∧ 0 < k.rechallenges

/-- `ChapLowerDown`. -/
def down (k : ChapClock) : ChapClock where
  client := .initial
  server := .initial
  interval := k.interval
  challenges :=
    if k.server = .initialChal ∨ k.server = .rechallenge then k.challenges - 1 else k.challenges
  rechallenges :=
    if k.server = .opened ∧ k.interval ≠ 0 then k.rechallenges - 1 else k.rechallenges
  responses := if k.client = .response then k.responses - 1 else k.responses

variable {k : ChapClock}

theorem Right.idle (h : k.Right) (hs : k.server ≠ .initialChal) (hr : k.server ≠ .rechallenge) :
    k.challenges = 0 := by
  have := h.challenging
  by_contra hne
  rcases this (Nat.pos_of_ne_zero hne) with hst | hst
  · exact hs hst
  · exact hr hst

theorem Right.undue (h : k.Right) (ho : k.server ≠ .opened) (hr : k.server ≠ .rechallenge) :
    k.rechallenges = 0 := by
  by_contra hne
  rcases (h.rechallenging (Nat.pos_of_ne_zero hne)).2 with hst | hst
  · exact ho hst
  · exact hr hst

theorem Right.quiet (h : k.Right) (hc : k.client ≠ .response) : k.responses = 0 := by
  by_contra hne
  exact hc (h.responding (Nat.pos_of_ne_zero hne))

theorem Right.no_responses (h : k.Right) : (k.down).responses = 0 := by
  rw [down]
  dsimp only
  split
  · have := h.responses
    omega
  · next hc => exact h.quiet hc

theorem Right.no_challenges (h : k.Right) : (k.down).challenges = 0 := by
  rw [down]
  dsimp only
  split
  · have := h.challenges
    omega
  · next hs =>
      rw [not_or] at hs
      exact h.idle hs.1 hs.2

/-- What is left when the link goes down is the callout that was set ahead. -/
theorem Right.down_rechallenges (h : k.Right) : (k.down).rechallenges = 0 ↔ ¬ k.Ahead := by
  have hle := h.rechallenges
  rw [down, Ahead]
  dsimp only
  split
  · next ho =>
      rw [ho.1]
      simp only [reduceCtorEq, false_and, not_false_eq_true, iff_true]
      omega
  · next ho =>
      by_cases hr : k.server = .rechallenge
      · simp only [hr, true_and]
        omega
      · simp only [hr, false_and, not_false_eq_true, iff_true]
        by_contra hne
        obtain ⟨hi, hst⟩ := h.rechallenging (Nat.pos_of_ne_zero hne)
        exact ho ⟨hst.resolve_right hr, hi⟩

theorem Right.not_ahead_iff (h : k.Right) (ho : k.server ≠ .opened) :
    ¬ k.Ahead ↔ k.rechallenges = 0 := by
  rw [Ahead]
  constructor
  · intro hn
    by_cases hr : k.server = .rechallenge
    · exact Nat.eq_zero_of_not_pos fun hpos => hn ⟨hr, hpos⟩
    · exact h.undue ho hr
  · rintro hd ⟨-, hpos⟩
    omega

/-- With no callout everything is right. -/
theorem right_of_none (hc : k.challenges = 0) (hr : k.rechallenges = 0) (hp : k.responses = 0) :
    k.Right := by
  constructor <;> omega

theorem Right.down_iff (h : k.Right) : k.down.Right ↔ ¬ k.Ahead := by
  constructor
  · intro hd
    exact h.down_rechallenges.mp (hd.undue nofun nofun)
  · intro hn
    exact right_of_none h.no_challenges (h.down_rechallenges.mpr hn) h.no_responses

/-- A link that is down cannot go down. -/
theorem down_down (k : ChapClock) : k.down.down = k.down := by
  simp [down]

/-- Without callouts of its own the server may go anywhere. -/
theorem Right.moveServer (h : k.Right) (hc : k.challenges = 0) (hd : k.rechallenges = 0)
    (st : ChapServer) : ({ k with server := st } : ChapClock).Right :=
  ⟨h.challenges, fun hpos => absurd hc (Nat.ne_of_gt hpos), h.rechallenges,
    fun hpos => absurd hd (Nat.ne_of_gt hpos), h.responses, h.responding⟩

theorem Right.moveClient (h : k.Right) (hp : k.responses = 0) (st : ChapClient) :
    ({ k with client := st } : ChapClock).Right :=
  ⟨h.challenges, h.challenging, h.rechallenges, h.rechallenging, h.responses,
    fun hpos => absurd hp (Nat.ne_of_gt hpos)⟩

end ChapClock

section

variable {σ : Type}

/-- The part of the state that the callouts are judged by. -/
def ChapWorld.clock (w : ChapWorld σ) : ChapClock where
  client := w.c.clientstate
  server := w.c.serverstate
  interval := w.c.chalInterval
  challenges := w.pending .challengeTimeout
  rechallenges := w.pending .rechallenge
  responses := w.pending .responseTimeout

/-- Of every kind at most one callout is pending, and only in its state. -/
def TimersRight (w : ChapWorld σ) : Prop := w.clock.Right

/-! ## What the functions do to the callouts -/

variable (a : ChapSetup σ) (r : ChapEvent → ChapWorld σ → ChapWorld σ) (w : ChapWorld σ)

theorem clock_cancelServer :
    (cancelServer (a.portWith r) w).clock =
      { w.clock with
        challenges := w.clock.down.challenges, rechallenges := w.clock.down.rechallenges } := by
  have hint : ((a.portWith r).cstate w).chalInterval = w.c.chalInterval := rfl
  unfold cancelServer
  rw [hint]
  cases hs : ((a.portWith r).cstate w).serverstate
  all_goals
    have hs : w.c.serverstate = _ := hs
    simp only [ChapClock.down, ChapWorld.clock, hs]
  case opened =>
    by_cases hi : w.c.chalInterval = 0
    · rw [if_neg (not_not_intro hi)]
      simp [hi, hs]
    · rw [if_pos hi]
      simp [hi, hs, ChapSetup.portWith]
  all_goals simp [hs, ChapSetup.portWith]

theorem clock_cancelClient :
    (cancelClient (a.portWith r) w).clock =
      { w.clock with responses := w.clock.down.responses } := by
  unfold cancelClient
  cases hc : ((a.portWith r).cstate w).clientstate
  all_goals
    have hc : w.c.clientstate = _ := hc
    simp [ChapClock.down, ChapWorld.clock, hc, ChapSetup.portWith]

theorem clock_chapLowerDown :
    (chapLowerDown (a.portWith r) w).clock = w.clock.down := by
  have hclock : (chapLowerDown (a.portWith r) w).clock =
      { (cancelClient (a.portWith r) (cancelServer (a.portWith r) w)).clock with
        client := .initial, server := .initial } := rfl
  rw [hclock, clock_cancelClient, clock_cancelServer]
  rfl

theorem clock_reported (e : ChapEvent) :
    (a.reported e w).clock = if (a.report e w.c w.env).1 then w.clock.down else w.clock := by
  unfold ChapSetup.reported
  dsimp only
  split
  · rw [clock_chapLowerDown]
    rfl
  · rfl

theorem clock_sendChallenge :
    (chapSendChallenge a.port w).clock =
      { w.clock with challenges := w.clock.challenges + 1 } := rfl

theorem clock_startChallenge (st : ChapServer) :
    (startChallenge a.port st w).clock =
      { w.clock with server := st, challenges := w.clock.challenges + 1 } := by
  have hclock : (startChallenge a.port st w).clock =
      { (genOctets a.port (a.rand w.drawn % (maxChallengeLength - minChallengeLength) +
          minChallengeLength) { w with drawn := w.drawn + 1 }).2.clock with
        server := st
        challenges := (genOctets a.port (a.rand w.drawn % (maxChallengeLength -
          minChallengeLength) + minChallengeLength)
          { w with drawn := w.drawn + 1 }).2.clock.challenges + 1 } := rfl
  rw [hclock, genOctets_snd]
  rfl

theorem clock_sendResponse :
    (chapSendResponse a.port w).clock =
      { w.clock with client := .response, responses := w.clock.responses + 1 } := rfl

/-! ## What each call makes of callouts that are right -/

variable {w}

theorem reported_right_iff (e : ChapEvent) (h : w.clock.Right) :
    (a.reported e w).clock.Right ↔ (w.clock.Ahead → (a.report e w.c w.env).1 = false) := by
  rw [clock_reported]
  cases (a.report e w.c w.env).1 with
  | false => simpa using h
  | true => simpa using h.down_iff

/-- The first challenge of an authentication. -/
theorem startInitial_right_iff (h : w.clock.Right) :
    (startChallenge a.port .initialChal w).clock.Right ↔
      w.clock.challenges = 0 ∧ w.clock.rechallenges = 0 := by
  rw [clock_startChallenge]
  constructor
  · intro hr
    have hle : w.clock.challenges + 1 ≤ 1 := hr.challenges
    exact ⟨by omega, hr.undue nofun nofun⟩
  · rintro ⟨hc, hd⟩
    exact ⟨by simp [hc], fun _ => .inl rfl, h.rechallenges,
      fun hpos => by simp [hd] at hpos, h.responses, h.responding⟩

theorem authPeer_right_iff (ourName : List UInt8) (digest : UInt8) (h : w.clock.Right) :
    (chapAuthPeer a.port ourName digest w).clock.Right ↔
      w.clock.challenges = 0 ∧ w.clock.rechallenges = 0 := by
  have wait : w.c.serverstate = .initial ∨ w.c.serverstate = .pending →
      ({ w.clock with server := .pending } : ChapClock).Right ∧
        w.clock.challenges = 0 ∧ w.clock.rechallenges = 0 := by
    intro hs
    have hs : w.clock.server = .initial ∨ w.clock.server = .pending := hs
    have hc : w.clock.challenges = 0 := by
      rcases hs with hs | hs <;> exact h.idle (by rw [hs]; nofun) (by rw [hs]; nofun)
    have hd : w.clock.rechallenges = 0 := by
      rcases hs with hs | hs <;> exact h.undue (by rw [hs]; nofun) (by rw [hs]; nofun)
    exact ⟨h.moveServer hc hd .pending, hc, hd⟩
  unfold chapAuthPeer
  dsimp only
  split
  · next hs =>
      obtain ⟨hr, hnone⟩ := wait (.inl hs)
      exact ⟨fun _ => hnone, fun _ => hr⟩
  · next hs =>
      obtain ⟨hr, hnone⟩ := wait (.inr hs)
      exact ⟨fun _ => hnone, fun _ => hr⟩
  · exact startInitial_right_iff a (w := a.port.modify
      (fun c => { c with chalName := ourName, chalType := digest }) w) h

theorem authWithPeer_right_iff (ourName : List UInt8) (digest : UInt8) (h : w.clock.Right) :
    (chapAuthWithPeer a.port ourName digest w).clock.Right ↔ w.clock.responses = 0 := by
  have restart : ∀ st : ChapClient, st ≠ .response →
      (({ w.clock with client := st } : ChapClock).Right ↔ w.clock.responses = 0) := by
    intro st hst
    constructor
    · intro hr
      exact hr.quiet hst
    · intro hp
      exact h.moveClient hp st
  unfold chapAuthWithPeer
  dsimp only
  split
  · exact restart .pending nofun
  · exact restart .pending nofun
  · exact restart .listen nofun

/-- The callout that is served is gone. -/
theorem expire_right (t : ChapTimer) (h : w.clock.Right) : (ChapSetup.expire t w).clock.Right := by
  have hle : ∀ u, (ChapSetup.expire t w).pending u ≤ w.pending u := by
    intro u
    simp only [ChapSetup.expire, Function.update_apply]
    split
    · next hu => rw [hu]; omega
    · exact Nat.le_refl _
  have hc := hle .challengeTimeout
  have hd := hle .rechallenge
  have hp := hle .responseTimeout
  exact ⟨hc.trans h.challenges, fun hpos => h.challenging (lt_of_lt_of_le hpos hc),
    hd.trans h.rechallenges, fun hpos => h.rechallenging (lt_of_lt_of_le hpos hd),
    hp.trans h.responses, fun hpos => h.responding (lt_of_lt_of_le hpos hp)⟩

theorem expire_none (t : ChapTimer) (h : w.clock.Right) : (ChapSetup.expire t w).pending t = 0 := by
  have hle : w.pending t ≤ 1 := by
    cases t with
    | challengeTimeout => exact h.challenges
    | responseTimeout => exact h.responses
    | rechallenge => exact h.rechallenges
  simp only [ChapSetup.expire, Function.update_self]
  omega

/-- The callout behind a challenge or a success. -/
theorem clock_arm (w : ChapWorld σ) :
    (if (a.port.cstate w).chalInterval ≠ 0 then a.port.timeout .rechallenge w else w).clock =
      { w.clock with rechallenges :=
          if w.clock.interval ≠ 0 then w.clock.rechallenges + 1 else w.clock.rechallenges } := by
  have hint : (a.port.cstate w).chalInterval = w.clock.interval := rfl
  rw [hint]
  split <;> rfl

/-- The peer is not believed any more. -/
theorem badauth_right_iff (e : ChapEvent) {u : ChapWorld σ} (h : w.clock.Right)
    (hu : u.clock = { w.clock with server := .badauth }) (hc : w.clock.challenges = 0) :
    (a.reported e u).clock.Right ↔ w.clock.rechallenges = 0 := by
  have hright : w.clock.rechallenges = 0 → u.clock.Right := by
    intro hd
    rw [hu]
    exact h.moveServer hc hd .badauth
  have hrech : u.clock.rechallenges = w.clock.rechallenges := by rw [hu]
  have hserver : u.clock.server = .badauth := by rw [hu]
  rw [clock_reported]
  split
  · constructor
    · intro hr
      have hd : u.clock.down.rechallenges = 0 := hr.undue nofun nofun
      simpa [ChapClock.down, hserver, hrech] using hd
    · intro hd
      refine (hright hd).down_iff.mpr ?_
      intro hahead
      rw [ChapClock.Ahead, hserver] at hahead
      cases hahead.1
  · constructor
    · intro hr
      rw [← hrech]
      exact hr.undue (by rw [hserver]; nofun) (by rw [hserver]; nofun)
    · exact hright

theorem challengeTimeout_right_iff (h : w.clock.Right) (hc : w.clock.challenges = 0) :
    (chapChallengeTimeout a.port w).clock.Right ↔
      (w.clock.Ahead → w.c.chalTransmits < w.c.maxTransmits) := by
  have waiting : w.clock.server = .initialChal ∨ w.clock.server = .rechallenge →
      ((if w.c.maxTransmits ≤ w.c.chalTransmits then
          a.reported .peerFail (a.port.note .peerFail (a.port.setServer .badauth w))
        else chapSendChallenge a.port w).clock.Right ↔
          (w.clock.Ahead → w.c.chalTransmits < w.c.maxTransmits)) := by
    intro hs
    have ho : w.clock.server ≠ .opened := by rcases hs with hs | hs <;> rw [hs] <;> nofun
    split
    · next hle =>
        rw [badauth_right_iff a .peerFail h rfl hc, ← h.not_ahead_iff ho]
        constructor
        · exact fun hn hahead => absurd hahead hn
        · intro hlt hahead
          have := hlt hahead
          omega
    · next hlt =>
        rw [clock_sendChallenge]
        exact ⟨fun _ _ => by omega, fun _ => ⟨by simp [hc], fun _ => hs, h.rechallenges,
          h.rechallenging, h.responses, h.responding⟩⟩
  unfold chapChallengeTimeout
  split
  · next hs => exact waiting (.inl hs)
  · next hs => exact waiting (.inr hs)
  · next hs =>
      refine ⟨fun _ hahead => absurd hahead.1 ?_, fun _ => h⟩
      exact hs

theorem responseTimeout_right (h : w.clock.Right) (hp : w.clock.responses = 0) :
    (chapResponseTimeout a.port w).clock.Right := by
  unfold chapResponseTimeout
  split
  · rw [clock_sendResponse]
    exact ⟨h.challenges, h.challenging, h.rechallenges, h.rechallenging, by simp [hp],
      fun _ => rfl⟩
  · exact h

theorem rechallenge_right (h : w.clock.Right) (hd : w.clock.rechallenges = 0) :
    (chapRechallenge a.port w).clock.Right := by
  unfold chapRechallenge
  split
  · next hs =>
      have hs : w.clock.server = .opened := hs
      have hc : w.clock.challenges = 0 := h.idle (by rw [hs]; nofun) (by rw [hs]; nofun)
      dsimp only
      rw [clock_arm, clock_startChallenge]
      refine ⟨by simp [hc], fun _ => .inr rfl, ?_, ?_, h.responses, h.responding⟩
      · dsimp only
        split <;> omega
      · dsimp only
        split
        · next hi => exact fun _ => ⟨hi, .inr rfl⟩
        · exact fun hpos => by simp [hd] at hpos
  · exact h

/-- Where nobody is authenticated yet nothing is pending. -/
theorem lowerUp_right (h : w.clock.Right) : (chapLowerUp a.port w).clock.Right := by
  have hclient : (clientUp a.port w).clock.Right := by
    unfold clientUp
    split
    · next hc =>
        have hc : w.clock.client = .initial := hc
        exact h.moveClient (h.quiet (by rw [hc]; nofun)) .closed
    · next hc =>
        have hc : w.clock.client = .pending := hc
        exact h.moveClient (h.quiet (by rw [hc]; nofun)) .listen
    · exact h
  unfold chapLowerUp serverUp
  split
  · next hs =>
      have hs : (clientUp a.port w).clock.server = .initial := hs
      have hc := hclient.idle (by rw [hs]; nofun) (by rw [hs]; nofun)
      have hd := hclient.undue (by rw [hs]; nofun) (by rw [hs]; nofun)
      exact hclient.moveServer hc hd .closed
  · next hs =>
      have hs : (clientUp a.port w).clock.server = .pending := hs
      have hc := hclient.idle (by rw [hs]; nofun) (by rw [hs]; nofun)
      have hd := hclient.undue (by rw [hs]; nofun) (by rw [hs]; nofun)
      exact (startInitial_right_iff a hclient).mpr ⟨hc, hd⟩
  · exact hclient

/-- Whatever is reported before, the link goes down in the end. -/
theorem clock_protocolReject (w : ChapWorld σ) :
    (chapProtocolReject a.port w).clock = w.clock.down := by
  have told : ∀ (e : ChapEvent) (u : ChapWorld σ), (a.reported e u).clock.down = u.clock.down := by
    intro e u
    rw [clock_reported]
    split
    · exact ChapClock.down_down _
    · rfl
  have hclient : ∀ u, (rejectClient a.port u).clock.down = u.clock.down := by
    intro u
    unfold rejectClient
    split
    · rfl
    · rfl
    · exact told .withpeerFail (a.port.note .withpeerFail u)
  have hserver : (rejectServer a.port w).clock.down = w.clock.down := by
    unfold rejectServer
    split
    · rfl
    · rfl
    · exact told .peerFail (a.port.note .peerFail w)
  calc (chapProtocolReject a.port w).clock
    _ = (rejectClient a.port (rejectServer a.port w)).clock.down :=
        clock_chapLowerDown a a.reported _
    _ = w.clock.down := (hclient _).trans hserver

/-! ## Packets -/

/-- A Challenge is answered under one callout, whatever was pending. -/
theorem receiveChallenge_right (id : UInt8) (inp : List UInt8) (h : w.clock.Right) :
    (chapReceiveChallenge a.port id inp w).clock.Right := by
  have hcancel : (cancelClient a.port w).clock =
      { w.clock with responses := w.clock.down.responses } := clock_cancelClient a a.reported w
  have hnone : w.clock.down.responses = 0 := h.no_responses
  have hresp : ∀ rchallenge rhostname,
      (respond a.port id rchallenge rhostname w).clock.Right := by
    intro rchallenge rhostname
    unfold respond
    dsimp only
    split
    · have hclock : ∀ u : ChapWorld σ, u.clock = (cancelClient a.port w).clock →
          (chapSendResponse a.port u).clock.Right := by
        intro u hu
        rw [clock_sendResponse, hu, hcancel, hnone]
        exact ⟨h.challenges, h.challenging, h.rechallenges, h.rechallenging, Nat.le_refl 1,
          fun _ => rfl⟩
      exact hclock _ rfl
    · have hright : ({ w.clock with responses := 0 } : ChapClock).Right :=
        ⟨h.challenges, h.challenging, h.rechallenges, h.rechallenging, Nat.zero_le 1, nofun⟩
      have hclock : ∀ u : ChapWorld σ, u.clock = (cancelClient a.port w).clock →
          u.clock.Right := by
        intro u hu
        rw [hu, hcancel, hnone]
        exact hright
      exact hclock _ rfl
  unfold chapReceiveChallenge
  split
  · exact h
  · exact h
  · split
    · exact h
    · exact hresp _ _

/-- The peer is believed, and the next challenge is set. -/
theorem opened_right_iff (h : w.clock.Right) (hc : w.clock.challenges = 0) :
    ({ w.clock with
        server := .opened
        rechallenges := if w.clock.interval ≠ 0 then w.clock.rechallenges + 1
          else w.clock.rechallenges } : ChapClock).Right ↔ w.clock.rechallenges = 0 := by
  by_cases hi : w.clock.interval = 0
  · have hd : w.clock.rechallenges = 0 :=
      Nat.eq_zero_of_not_pos fun hpos => (h.rechallenging hpos).1 hi
    rw [if_neg (not_not_intro hi)]
    exact ⟨fun _ => hd, fun _ => h.moveServer hc hd .opened⟩
  · rw [if_pos hi]
    constructor
    · intro hr
      have hle : w.clock.rechallenges + 1 ≤ 1 := hr.rechallenges
      omega
    · intro hd
      exact ⟨h.challenges, fun hpos => absurd hc (Nat.ne_of_gt hpos), by simp [hd],
        fun _ => ⟨hi, .inl rfl⟩, h.responses, h.responding⟩

/-- A success that takes the link down is followed by the callout all the same. -/
theorem shut_right_iff {k : ChapClock} (h : k.down.Right) :
    ({ k.down with rechallenges := if k.interval ≠ 0 then k.down.rechallenges + 1
        else k.down.rechallenges } : ChapClock).Right ↔ k.interval = 0 := by
  by_cases hi : k.interval = 0
  · rw [if_neg (not_not_intro hi)]
    exact ⟨fun _ => hi, fun _ => h⟩
  · rw [if_pos hi]
    constructor
    · intro hr
      have hnone : k.down.rechallenges + 1 = 0 := hr.undue nofun nofun
      omega
    · exact fun hzero => absurd hzero hi

theorem verdict_right_iff (good : Bool) (h : w.clock.Right) (hc : w.clock.challenges = 0)
    (ho : w.clock.server ≠ .opened) :
    (chapVerdict a.port good w).clock.Right ↔ ¬ w.clock.Ahead ∧
      (w.c.serverstate = .initialChal → w.c.chalInterval ≠ 0 → good = true →
        (a.report .peerSuccess { w.c with serverstate := .opened } w.env).1 = false) := by
  rw [h.not_ahead_iff ho]
  cases good with
  | false =>
      have hbad : (chapVerdict a.port false w).clock.Right ↔ w.clock.rechallenges = 0 :=
        badauth_right_iff a .peerFail h rfl hc
      rw [hbad]
      simp
  | true =>
      obtain ⟨u, hu⟩ : ∃ u, u = a.port.setServer .opened (chapSendStatus a.port chapSuccess w) :=
        ⟨_, rfl⟩
      have huc : u.clock = { w.clock with server := .opened } := by rw [hu]; rfl
      have hverdict : chapVerdict a.port true w =
          (let s := if w.c.serverstate = .initialChal then
              a.reported .peerSuccess (a.port.note .peerSuccess u) else u
            if (a.port.cstate s).chalInterval ≠ 0 then a.port.timeout .rechallenge s else s) := by
        rw [hu]
        rfl
      rw [hverdict]
      dsimp only
      rw [clock_arm]
      by_cases hs : w.c.serverstate = .initialChal
      · have hd : w.clock.rechallenges = 0 := h.undue ho (by rw [ChapWorld.clock, hs]; nofun)
        have hright : u.clock.Right := by
          rw [huc]
          exact h.moveServer hc hd .opened
        have hreport : (a.reported .peerSuccess (a.port.note .peerSuccess u)).clock =
            if (a.report .peerSuccess { w.c with serverstate := .opened } w.env).1
              then u.clock.down else u.clock := by
          rw [clock_reported, hu]
          rfl
        rw [if_pos hs, hreport]
        cases ht : (a.report .peerSuccess { w.c with serverstate := .opened } w.env).1 with
        | false =>
            have hopen := (opened_right_iff h hc).mpr hd
            simpa [hd, huc] using hopen
        | true =>
            have hdown : u.clock.down.Right :=
              hright.down_iff.mpr (by rw [huc]; exact fun hahead => by cases hahead.1)
            have hshut := shut_right_iff hdown
            have hint : u.clock.interval = w.c.chalInterval := by rw [huc]; rfl
            rw [hint] at hshut
            simpa [hd, hs, ChapClock.down, hint] using hshut
      · rw [if_neg hs, huc]
        simpa [hs] using opened_right_iff h hc

/-- A Response that is looked at: an answer to the last challenge, in a state that waits for
one or does not mind. -/
def Answers (w : ChapWorld σ) (p : CpPacket) (value name : List UInt8) : Prop :=
  (w.c.serverstate = .initial ∨ w.c.serverstate = .initialChal ∨
    w.c.serverstate = .rechallenge) ∧
  p.id = w.c.chalId ∧ parseValue p.data = some (value, name)

/-- What a Response may not find: the next challenge set ahead, or a report that takes the
link down before the next challenge is set. -/
def FitResponse (w : ChapWorld σ) (p : CpPacket) : Prop :=
  ∀ value name, Answers w p value name → ¬ w.clock.Ahead ∧
    (w.c.serverstate = .initialChal → w.c.chalInterval ≠ 0 →
      responseGood a.port w.c value name = true →
      (a.report .peerSuccess { w.c with serverstate := .opened } w.env).1 = false)

theorem unjudged_right_iff {p : CpPacket} (h : w.clock.Right)
    (hn : ∀ value name, ¬ Answers w p value name) {u : ChapWorld σ} (hu : u.clock = w.clock) :
    u.clock.Right ↔ FitResponse a w p := by
  rw [hu]
  exact ⟨fun _ value name hj => absurd hj (hn value name), fun _ => h⟩

theorem ignored_right_iff (p : CpPacket) (h : w.clock.Right) (code : UInt8)
    (hs : w.c.serverstate = .opened ∨ w.c.serverstate = .badauth) :
    (if p.id ≠ w.c.chalId then w else chapSendStatus a.port code w).clock.Right ↔
      FitResponse a w p := by
  refine unjudged_right_iff a h (fun value name hj => ?_) (by split <;> rfl)
  have hst := hj.1
  rcases hs with hs | hs <;> simp [hs] at hst

theorem waiting_right_iff (p : CpPacket) (h : w.clock.Right)
    (hs : w.c.serverstate = .initial ∨ w.c.serverstate = .initialChal ∨
      w.c.serverstate = .rechallenge) :
    (if p.id ≠ w.c.chalId then w
      else
        match parseValue p.data with
        | none => w
        | some (remmd, rhostname) =>
            let s := a.port.untimeout .challengeTimeout w
            chapVerdict a.port (responseGood a.port (a.port.cstate s) remmd rhostname)
              s).clock.Right ↔ FitResponse a w p := by
  split
  · next hid => exact unjudged_right_iff a h (fun _ _ hj => hid hj.2.1) rfl
  · next hid =>
      split
      · next hnone =>
          refine unjudged_right_iff a h ?_ rfl
          intro _ _ hj
          rw [hj.2.2] at hnone
          cases hnone
      · next value name hv =>
          have ho : w.clock.server ≠ .opened := by
            show w.c.serverstate ≠ .opened
            rcases hs with hs | hs | hs <;> rw [hs] <;> decide
          have hj : Answers w p value name := ⟨hs, not_not.mp hid, hv⟩
          have hverdict := verdict_right_iff a (responseGood a.port w.c value name)
            (expire_right .challengeTimeout h) (expire_none .challengeTimeout h) ho
          refine hverdict.trans ⟨?_, fun hr => hr value name hj⟩
          intro hr value' name' hj'
          obtain ⟨rfl, rfl⟩ : value = value' ∧ name = name' := by
            simpa using hv.symm.trans hj'.2.2
          exact hr

theorem receiveResponse_right_iff (p : CpPacket) (h : w.clock.Right) :
    (chapReceiveResponse a.port p.id p.data w).clock.Right ↔ FitResponse a w p := by
  have hidle {st : ChapServer} (hst : w.c.serverstate = st)
      (hno : ¬ (st = .initial ∨ st = .initialChal ∨ st = .rechallenge)) :
      w.clock.Right ↔ FitResponse a w p :=
    unjudged_right_iff a h (fun _ _ hj => hno (hst ▸ hj.1)) rfl
  unfold chapReceiveResponse
  split
  · next hs => exact hidle hs (by decide)
  · next hs => exact hidle hs (by decide)
  · next hs => exact ignored_right_iff a p h chapSuccess (.inl hs)
  · next hs => exact ignored_right_iff a p h chapFailure (.inr hs)
  · next hs => exact waiting_right_iff a p h (.inl hs)
  · next hs => exact waiting_right_iff a p h (.inr (.inl hs))
  · next hs => exact waiting_right_iff a p h (.inr (.inr hs))

/-- What a Success or Failure may not find: a report that takes the link down while the
next challenge is set ahead. -/
def FitStatus (w : ChapWorld σ) (p : CpPacket) : Prop :=
  w.c.clientstate = .response → w.clock.Ahead →
    (p.code = chapFailure → (a.report .withpeerFail w.c w.env).1 = false) ∧
    (p.code = chapSuccess →
      (a.report .withpeerSuccess { w.c with clientstate := .opened } w.env).1 = false)

theorem receiveFailure_right_iff (h : w.clock.Right) :
    (chapReceiveFailure a.port w).clock.Right ↔
      (w.c.clientstate = .response → w.clock.Ahead →
        (a.report .withpeerFail w.c w.env).1 = false) := by
  unfold chapReceiveFailure
  split
  · next hc =>
      have hc : w.c.clientstate = .response := hc
      have hreport := reported_right_iff a (w := a.port.note .withpeerFail
        (a.port.untimeout .responseTimeout w)) .withpeerFail (expire_right .responseTimeout h)
      exact hreport.trans ⟨fun hr _ => hr, fun hr => hr hc⟩
  · next hc => exact ⟨fun _ hc' => absurd hc' hc, fun _ => h⟩

theorem receiveSuccess_right_iff (h : w.clock.Right) :
    (chapReceiveSuccess a.port w).clock.Right ↔
      (w.c.clientstate = .response → w.clock.Ahead →
        (a.report .withpeerSuccess { w.c with clientstate := .opened } w.env).1 = false) := by
  unfold chapReceiveSuccess
  split
  · next hc =>
      have hc : w.c.clientstate = .response := hc
      have hright : (a.port.note .withpeerSuccess (a.port.setClient .opened
          (a.port.untimeout .responseTimeout w))).clock.Right :=
        (expire_right .responseTimeout h).moveClient (expire_none .responseTimeout h) .opened
      exact (reported_right_iff a .withpeerSuccess hright).trans
        ⟨fun hr _ => hr, fun hr => hr hc⟩
  · next hc => exact ⟨fun _ hc' => absurd hc' hc, fun _ => h⟩

/-- What a packet may not find. -/
def FitPacket (w : ChapWorld σ) (p : CpPacket) : Prop :=
  (p.code = chapResponse → FitResponse a w p) ∧ FitStatus a w p

theorem dispatch_right_iff (p : CpPacket) (h : w.clock.Right) :
    (chapDispatch a.port p w).clock.Right ↔ FitPacket a w p := by
  unfold chapDispatch FitPacket FitStatus
  by_cases hc : p.code = chapChallenge
  · rw [if_pos hc, hc]
    exact iff_of_true (receiveChallenge_right a p.id p.data h)
      ⟨nofun, fun _ _ => ⟨nofun, nofun⟩⟩
  rw [if_neg hc]
  by_cases hr : p.code = chapResponse
  · rw [if_pos hr, receiveResponse_right_iff a p h, hr]
    exact ⟨fun hfit => ⟨fun _ => hfit, fun _ _ => ⟨nofun, nofun⟩⟩, fun hfit => hfit.1 rfl⟩
  rw [if_neg hr]
  by_cases hf : p.code = chapFailure
  · rw [if_pos hf, receiveFailure_right_iff a h, hf]
    exact ⟨fun hfit => ⟨nofun, fun hc ha => ⟨fun _ => hfit hc ha, nofun⟩⟩,
      fun hfit hc ha => (hfit.2 hc ha).1 rfl⟩
  rw [if_neg hf]
  by_cases hs : p.code = chapSuccess
  · rw [if_pos hs, receiveSuccess_right_iff a h, hs]
    exact ⟨fun hfit => ⟨nofun, fun hc ha => ⟨nofun, fun _ => hfit hc ha⟩⟩,
      fun hfit hc ha => (hfit.2 hc ha).2 rfl⟩
  · rw [if_neg hs]
    exact iff_of_true h ⟨fun hr' => absurd hr' hr,
      fun _ _ => ⟨fun hf' => absurd hf' hf, fun hs' => absurd hs' hs⟩⟩

/-! ## Runs -/

/-- The calls that keep the callouts right. -/
def Fit (w : ChapWorld σ) : ChapCall → Prop
  | .authPeer _ _ => w.pending .challengeTimeout = 0 ∧ w.pending .rechallenge = 0
  | .authWithPeer _ _ => w.pending .responseTimeout = 0
  | .challengeTimeout => w.clock.Ahead → w.c.chalTransmits < w.c.maxTransmits
  | .lowerDown | .protocolReject => ¬ w.clock.Ahead
  | .input inpacket => ∀ p, parseHeader inpacket = some p → FitPacket a w p
  | .config chalInterval _ _ => chalInterval ≠ 0 ∨ w.pending .rechallenge = 0
  | .responseTimeout | .rechallenge | .lowerUp => True

theorem step_right_iff (call : ChapCall) (h : w.clock.Right) :
    (a.step w call).clock.Right ↔ Fit a w call := by
  cases call with
  | authWithPeer ourName digest => exact authWithPeer_right_iff a ourName digest h
  | authPeer ourName digest => exact authPeer_right_iff a ourName digest h
  | challengeTimeout =>
      exact challengeTimeout_right_iff a (expire_right .challengeTimeout h)
        (expire_none .challengeTimeout h)
  | responseTimeout =>
      exact iff_of_true (responseTimeout_right a (expire_right .responseTimeout h)
        (expire_none .responseTimeout h)) trivial
  | rechallenge =>
      exact iff_of_true (rechallenge_right a (expire_right .rechallenge h)
        (expire_none .rechallenge h)) trivial
  | lowerUp => exact iff_of_true (lowerUp_right a h) trivial
  | lowerDown =>
      have hdown : (a.step w .lowerDown).clock = w.clock.down :=
        clock_chapLowerDown a a.reported w
      rw [hdown]
      exact h.down_iff
  | protocolReject =>
      have hdown : (a.step w .protocolReject).clock = w.clock.down := clock_protocolReject a w
      rw [hdown]
      exact h.down_iff
  | input inpacket =>
      show (chapInput a.port inpacket w).clock.Right ↔ _
      unfold chapInput Fit
      cases hp : parseHeader inpacket with
      | none =>
          refine iff_of_true h ?_
          intro p hsome
          rw [hp] at hsome
          cases hsome
      | some p =>
          have hdispatch := dispatch_right_iff a (w := a.port.note (.rcvd p) w) p h
          refine hdispatch.trans ⟨?_, fun hfit => hfit p hp⟩
          intro hfit q hq
          rw [hp] at hq
          cases hq
          exact hfit
  | config chalInterval timeouttime maxTransmits =>
      constructor
      · intro hr
        by_cases hi : chalInterval = 0
        · exact .inr (Nat.eq_zero_of_not_pos fun hpos => (hr.rechallenging hpos).1 hi)
        · exact .inl hi
      · intro hfit
        refine ⟨h.challenges, h.challenging, h.rechallenges, ?_, h.responses, h.responding⟩
        intro hpos
        exact ⟨hfit.resolve_right (Nat.ne_of_gt hpos), (h.rechallenging hpos).2⟩

theorem right_start (env : σ) : (ChapWorld.start env).clock.Right :=
  ChapClock.right_of_none rfl rfl rfl

/-- In every run the callouts are right in each state, and none is pending behind
`ChapLowerDown`, exactly if every call of it is fit for the state it finds. -/
theorem chap_timers_iff (a : ChapSetup σ) (env : σ) (calls : List ChapCall) :
    (Always a.step TimersRight (ChapWorld.start env) calls ∧
      Guarded a.step
        (fun w call => call = .lowerDown → ∀ t, (a.step w call).pending t = 0)
        (ChapWorld.start env) calls) ↔
      Guarded a.step (Fit a) (ChapWorld.start env) calls := by
  have hiff : Always a.step TimersRight (ChapWorld.start env) calls ↔
      Guarded a.step (Fit a) (ChapWorld.start env) calls :=
    always_iff_guarded TimersRight (fun _ _ => True) (right_start env) (fun _ h => h)
      (fun w call h _ hfit => (step_right_iff a call h).mpr hfit)
      (fun w call h _ hfit hr => hfit ((step_right_iff a call h).mp hr))
      (fun _ _ _ => trivial)
  refine ⟨fun h => hiff.mp h.1, fun hg => ⟨hiff.mpr hg, ?_⟩⟩
  intro pre call hpre hdown t
  have h : (run a.step (ChapWorld.start env) pre).clock.Right :=
    hiff.mpr hg pre ((List.prefix_append pre [call]).trans hpre)
  have hfit := hg pre call hpre
  subst hdown
  have hclock : (a.step (run a.step (ChapWorld.start env) pre) .lowerDown).clock =
      (run a.step (ChapWorld.start env) pre).clock.down := clock_chapLowerDown a a.reported _
  cases t with
  | challengeTimeout =>
      exact (congrArg ChapClock.challenges hclock).trans h.no_challenges
  | responseTimeout => exact (congrArg ChapClock.responses hclock).trans h.no_responses
  | rechallenge =>
      exact (congrArg ChapClock.rechallenges hclock).trans (h.down_rechallenges.mpr hfit)

/-- Every digest is zero, everyone has a secret, and no report does anything. -/
def ChapSetup.plain : ChapSetup Unit where
  unit := 0
  md5 _ := ⟨List.replicate 16 0, rfl⟩
  getSecret _ _ _ := some []
  rand _ := 0
  report _ _ env := (false, env)

/-- A periodic challenge that is answered leaves two callouts for the next one. -/
theorem rechallenge_answered :
    ¬ ∀ calls, Always ChapSetup.plain.step TimersRight
      (ChapSetup.plain.step (ChapWorld.start ()) (.config 1 3 10)) calls := by
  intro h
  have hright := h [.lowerUp, .authPeer [] 5,
    .input ([2, 1, 0, 21, 16] ++ List.replicate 16 0), .rechallenge,
    .input ([2, 2, 0, 21, 16] ++ List.replicate 16 0)] _ (List.prefix_refl _)
  have htwo := hright.rechallenges
  revert htwo
  decide +kernel

end

end VxWorks.Ppp
