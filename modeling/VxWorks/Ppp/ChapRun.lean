import VxWorks.Lib.Run
import VxWorks.Ppp.Chap

/-!
# What a successful authentication rests on

CHAP by itself, with `auth.c` and the layers behind it reduced to what they can
do to CHAP: any of the four reports may take the link down, which calls
`ChapLowerDown` before the report returns. MD5, the secrets and the random
numbers are arbitrary functions.

The result is about the history of a whole run. The peer is reported as
authenticated only while a Response is handled whose value is the hash of the
challenge that was made up last and was sent, and no more than once for each
challenge. The state that carries it is `INITIAL_CHAL`: it is entered only
behind a new challenge, and a successful Response leaves it.
-/

namespace VxWorks.Ppp

open VxWorks.Lib

structure ChapWorld (σ : Type) where
  c : ChapState
  pending : ChapTimer → Nat
  /-- Newest first. -/
  log : List ChapEvent
  /-- Number of calls of `random` so far. -/
  drawn : Nat
  env : σ

/-- What CHAP is given: its unit number, the functions of other files it calls,
and the layers above, each of whose reports may take the link down. -/
structure ChapSetup (σ : Type) where
  unit : Nat
  md5 : List UInt8 → Digest
  getSecret : List UInt8 → List UInt8 → Bool → Option (List UInt8)
  rand : Nat → Nat
  report : ChapEvent → ChapState → σ → Bool × σ

variable {σ : Type}

namespace ChapSetup

variable (a : ChapSetup σ)

/-- The port, given what the four reports do. -/
def portWith (report : ChapEvent → ChapWorld σ → ChapWorld σ) : ChapPort (ChapWorld σ) where
  cstate w := w.c
  put c w := { w with c := c }
  timeout t w := { w with pending := Function.update w.pending t (w.pending t + 1) }
  untimeout t w := { w with pending := Function.update w.pending t (w.pending t - 1) }
  note e w := { w with log := e :: w.log }
  random w := (a.rand w.drawn, { w with drawn := w.drawn + 1 })
  unit := a.unit
  md5 := a.md5
  getSecret := a.getSecret
  peerSuccess := report .peerSuccess
  peerFail := report .peerFail
  withpeerSuccess := report .withpeerSuccess
  withpeerFail := report .withpeerFail

/-- A report, and the `ChapLowerDown` it may lead to. -/
def reported (e : ChapEvent) (w : ChapWorld σ) : ChapWorld σ :=
  let r := a.report e w.c w.env
  let w := { w with env := r.2 }
  if r.1 then chapLowerDown (a.portWith fun _ w => w) w else w

def port : ChapPort (ChapWorld σ) := a.portWith a.reported

end ChapSetup

/-- Everything that can be done to CHAP from outside. -/
inductive ChapCall where
  | authWithPeer (ourName : List UInt8) (digest : UInt8)
  | authPeer (ourName : List UInt8) (digest : UInt8)
  | challengeTimeout
  | responseTimeout
  | rechallenge
  | lowerUp
  | lowerDown
  | protocolReject
  | input (inpacket : List UInt8)
  | config (chalInterval timeouttime maxTransmits : Int)
deriving DecidableEq, Repr

namespace ChapSetup

variable (a : ChapSetup σ)

/-- A callout is gone from the list by the time its function runs. -/
def expire (t : ChapTimer) (w : ChapWorld σ) : ChapWorld σ :=
  { w with pending := Function.update w.pending t (w.pending t - 1) }

def step (w : ChapWorld σ) : ChapCall → ChapWorld σ
  | .authWithPeer ourName digest => chapAuthWithPeer a.port ourName digest w
  | .authPeer ourName digest => chapAuthPeer a.port ourName digest w
  | .challengeTimeout => chapChallengeTimeout a.port (expire .challengeTimeout w)
  | .responseTimeout => chapResponseTimeout a.port (expire .responseTimeout w)
  | .rechallenge => chapRechallenge a.port (expire .rechallenge w)
  | .lowerUp => chapLowerUp a.port w
  | .lowerDown => chapLowerDown a.port w
  | .protocolReject => chapProtocolReject a.port w
  | .input inpacket => chapInput a.port inpacket w
  | .config chalInterval timeouttime maxTransmits =>
      { w with c := { w.c with
        chalInterval := chalInterval
        timeouttime := timeouttime
        maxTransmits := maxTransmits } }

end ChapSetup

def ChapWorld.start (env : σ) : ChapWorld σ :=
  { c := chapInit, pending := fun _ => 0, log := [], drawn := 0, env := env }

/-! ## Reading the history -/

/-- The last challenge made up, with its id. -/
@[simp] def lastChallenge : List ChapEvent → Option (UInt8 × List UInt8)
  | .generated id challenge :: _ => some (id, challenge)
  | _ :: l => lastChallenge l
  | [] => none

/-- A packet that carries a challenge. -/
def carries (p : CpPacket) (id : UInt8) (challenge : List UInt8) : Bool :=
  p.code == chapChallenge && p.id == id &&
    (UInt8.ofNat challenge.length :: challenge).isPrefixOf p.data

/-- The last challenge made up was sent. -/
@[simp] def challengeSent : List ChapEvent → Bool
  | .generated _ _ :: _ => false
  | .sent p :: l =>
      (match lastChallenge l with
        | some (id, challenge) => carries p id challenge
        | none => false) || challengeSent l
  | _ :: l => challengeSent l
  | [] => false

/-- How often the peer was reported as authenticated since the last challenge
was made up. -/
@[simp] def successes : List ChapEvent → Nat
  | .generated _ _ :: _ => 0
  | .peerSuccess :: l => successes l + 1
  | _ :: l => successes l
  | [] => 0

/-! ## The invariant -/

structure ChapInv (w : ChapWorld σ) : Prop where
  challenged : w.c.serverstate = .initialChal ∨ w.c.serverstate = .rechallenge →
    lastChallenge w.log = some (w.c.chalId, w.c.challenge) ∧ challengeSent w.log = true
  fresh : w.c.serverstate = .initialChal → successes w.log = 0
  once : successes w.log ≤ 1

/-- The step keeps the invariant and does not report the peer as
authenticated. -/
def Unreported (w w' : ChapWorld σ) : Prop :=
  w'.log.count .peerSuccess = w.log.count .peerSuccess ∧ (ChapInv w → ChapInv w')

section

variable {w w' w'' : ChapWorld σ}

theorem Unreported.refl : Unreported w w := ⟨rfl, id⟩

theorem Unreported.trans (h : Unreported w w') (h' : Unreported w' w'') : Unreported w w'' :=
  ⟨h'.1.trans h.1, fun hi => h'.2 (h.2 hi)⟩

/-- Nothing is recorded and the challenge stays. -/
theorem Unreported.still (hl : w'.log = w.log) (hs : w'.c.serverstate = w.c.serverstate)
    (hid : w'.c.chalId = w.c.chalId) (hc : w'.c.challenge = w.c.challenge) :
    Unreported w w' := by
  refine ⟨by rw [hl], fun hi => ⟨?_, ?_, ?_⟩⟩
  · rw [hl, hs, hid, hc]; exact hi.challenged
  · rw [hl, hs]; exact hi.fresh
  · rw [hl]; exact hi.once

/-- Nothing is recorded and no answer is waited for afterwards. -/
theorem Unreported.leave (hl : w'.log = w.log) (hi : w'.c.serverstate ≠ .initialChal)
    (hr : w'.c.serverstate ≠ .rechallenge) : Unreported w w' := by
  refine ⟨by rw [hl], fun hw => ⟨?_, ?_, ?_⟩⟩
  · rintro (h | h)
    · exact absurd h hi
    · exact absurd h hr
  · exact fun h => absurd h hi
  · rw [hl]; exact hw.once

/-- Events that have no part in the handshake with the peer. -/
def chapNeutral : ChapEvent → Bool
  | .generated _ _ | .peerSuccess => false
  | _ => true

theorem Unreported.note (e : ChapEvent) (he : chapNeutral e) :
    Unreported w { w with log := e :: w.log } := by
  have hc : lastChallenge (e :: w.log) = lastChallenge w.log := by
    cases e <;> first | rfl | cases he
  have hsent : challengeSent w.log = true → challengeSent (e :: w.log) = true := by
    intro h
    cases e with
    | generated id challenge => cases he
    | peerSuccess => cases he
    | sent p => simp [h]
    | _ => exact h
  have hsucc : successes (e :: w.log) = successes w.log := by
    cases e <;> first | rfl | cases he
  refine ⟨?_, fun hi => ⟨?_, ?_, ?_⟩⟩
  · refine List.count_cons_of_ne ?_
    rintro rfl
    cases he
  · intro h
    obtain ⟨h₁, h₂⟩ := hi.challenged h
    exact ⟨hc.trans h₁, hsent h₂⟩
  · exact fun h => hsucc.trans (hi.fresh h)
  · exact hsucc.trans_le hi.once

end

section

variable (a : ChapSetup σ) (r : ChapEvent → ChapWorld σ → ChapWorld σ) (w : ChapWorld σ)

theorem cancelServer_unreported : Unreported w (cancelServer (a.portWith r) w) := by
  unfold cancelServer
  split
  · exact .still rfl rfl rfl rfl
  · exact .still rfl rfl rfl rfl
  · split
    · exact .still rfl rfl rfl rfl
    · exact .refl
  · exact .refl

theorem cancelClient_unreported : Unreported w (cancelClient (a.portWith r) w) := by
  unfold cancelClient
  split
  · exact .still rfl rfl rfl rfl
  · exact .refl

theorem chapLowerDown_unreported : Unreported w (chapLowerDown (a.portWith r) w) :=
  ((cancelServer_unreported a r w).trans (cancelClient_unreported a r _)).trans
    (.leave rfl nofun nofun)

theorem reported_unreported (e : ChapEvent) : Unreported w (a.reported e w) := by
  have h : Unreported w { w with env := (a.report e w.c w.env).2 } := .still rfl rfl rfl rfl
  unfold ChapSetup.reported
  dsimp only
  split
  · exact h.trans (chapLowerDown_unreported a _ _)
  · exact h

/-- Drawing random numbers touches nothing else. -/
theorem genOctets_snd (n : Nat) (w : ChapWorld σ) :
    (genOctets a.port n w).2 = { w with drawn := w.drawn + n } := by
  induction n generalizing w with
  | zero => rfl
  | succ n ih =>
      have hr : (a.port.random w).2 = { w with drawn := w.drawn + 1 } := rfl
      rw [genOctets, hr, ih]
      dsimp only
      rw [Nat.add_right_comm, Nat.add_assoc]

theorem genChallenge_log :
    ∃ challenge, (chapGenChallenge a.port w).log =
        .generated (w.c.id + 1) challenge :: w.log ∧
      (chapGenChallenge a.port w).c.chalId = w.c.id + 1 ∧
      (chapGenChallenge a.port w).c.challenge = challenge := by
  refine ⟨(genOctets a.port (a.rand w.drawn % (maxChallengeLength - minChallengeLength) +
    minChallengeLength) { w with drawn := w.drawn + 1 }).1, ?_⟩
  have hr : a.port.random w = (a.rand w.drawn, { w with drawn := w.drawn + 1 }) := rfl
  simp only [chapGenChallenge, hr, ChapPort.modify, genOctets_snd]
  exact ⟨rfl, rfl, rfl⟩

/-- The packet that goes out carries the challenge the record holds. -/
theorem carries_challengePacket (c : ChapState) :
    carries (challengePacket c) c.chalId c.challenge = true := by
  simp [carries, challengePacket]

/-- A challenge is out: the last one made up, under the id it was given, and
nobody has answered it. -/
theorem startChallenge_unreported (st : ChapServer) :
    Unreported w (startChallenge a.port st w) := by
  obtain ⟨challenge, hl, hid, hc⟩ := genChallenge_log a w
  have hlog : (startChallenge a.port st w).log =
      .sent (challengePacket (chapGenChallenge a.port w).c) ::
        (chapGenChallenge a.port w).log := rfl
  have hid' : (startChallenge a.port st w).c.chalId = w.c.id + 1 := hid
  have hc' : (startChallenge a.port st w).c.challenge = challenge := hc
  have hcar : carries (challengePacket (chapGenChallenge a.port w).c) (w.c.id + 1) challenge := by
    have := carries_challengePacket (chapGenChallenge a.port w).c
    rwa [hid, hc] at this
  refine ⟨?_, fun hi => ⟨fun _ => ⟨?_, ?_⟩, ?_, ?_⟩⟩
  · rw [hlog, hl]
    simp
  · rw [hlog, hl, hid', hc']
    rfl
  · rw [hlog, hl]
    simp [hcar]
  · intro _
    rw [hlog, hl]
    rfl
  · rw [hlog, hl]
    exact Nat.zero_le 1

theorem chapAuthWithPeer_unreported (ourName : List UInt8) (digest : UInt8) :
    Unreported w (chapAuthWithPeer a.port ourName digest w) := by
  unfold chapAuthWithPeer
  dsimp only
  split <;> exact .still rfl rfl rfl rfl

theorem chapAuthPeer_unreported (ourName : List UInt8) (digest : UInt8) :
    Unreported w (chapAuthPeer a.port ourName digest w) := by
  have hm : Unreported w (a.port.modify
      (fun c => { c with chalName := ourName, chalType := digest }) w) := .still rfl rfl rfl rfl
  unfold chapAuthPeer
  dsimp only
  split
  · exact .leave rfl nofun nofun
  · exact .leave rfl nofun nofun
  · exact hm.trans (startChallenge_unreported a _ _)

theorem chapSendChallenge_unreported : Unreported w (chapSendChallenge a.port w) :=
  (Unreported.note (.sent _) rfl).trans (.still rfl rfl rfl rfl)

theorem chapSendStatus_unreported (code : UInt8) :
    Unreported w (chapSendStatus a.port code w) := .note (.sent _) rfl

theorem chapSendResponse_unreported : Unreported w (chapSendResponse a.port w) :=
  (Unreported.note (.sent _) rfl).trans (.still rfl rfl rfl rfl)

/-- A report other than that of the peer's success. -/
theorem report_unreported {w w' : ChapWorld σ} (e : ChapEvent) (he : chapNeutral e)
    (h : Unreported w w') : Unreported w (a.reported e (a.port.note e w')) :=
  (h.trans (.note e he)).trans (reported_unreported a _ e)

theorem chapChallengeTimeout_unreported :
    Unreported w (chapChallengeTimeout a.port w) := by
  unfold chapChallengeTimeout
  split
  iterate 2
    split
    · exact report_unreported a .peerFail rfl (.leave rfl nofun nofun)
    · exact chapSendChallenge_unreported a w
  · exact .refl

theorem chapResponseTimeout_unreported : Unreported w (chapResponseTimeout a.port w) := by
  unfold chapResponseTimeout
  split
  · exact chapSendResponse_unreported a w
  · exact .refl

theorem chapRechallenge_unreported : Unreported w (chapRechallenge a.port w) := by
  unfold chapRechallenge
  split
  · dsimp only
    split
    · exact (startChallenge_unreported a w _).trans (.still rfl rfl rfl rfl)
    · exact startChallenge_unreported a w _
  · exact .refl

theorem clientUp_unreported : Unreported w (clientUp a.port w) := by
  unfold clientUp
  split <;> exact .still rfl rfl rfl rfl

theorem serverUp_unreported : Unreported w (serverUp a.port w) := by
  unfold serverUp
  split
  · exact .leave rfl nofun nofun
  · exact startChallenge_unreported a w _
  · exact .refl

theorem chapLowerUp_unreported : Unreported w (chapLowerUp a.port w) :=
  (clientUp_unreported a w).trans (serverUp_unreported a _)

theorem rejectServer_unreported : Unreported w (rejectServer a.port w) := by
  unfold rejectServer
  split
  · exact .refl
  · exact .refl
  · exact report_unreported a .peerFail rfl .refl

theorem rejectClient_unreported : Unreported w (rejectClient a.port w) := by
  unfold rejectClient
  split
  · exact .refl
  · exact .refl
  · exact report_unreported a .withpeerFail rfl .refl

theorem chapProtocolReject_unreported : Unreported w (chapProtocolReject a.port w) :=
  ((rejectServer_unreported a w).trans (rejectClient_unreported a _)).trans
    (chapLowerDown_unreported a _ _)

theorem respond_unreported (id : UInt8) (rchallenge rhostname : List UInt8) :
    Unreported w (respond a.port id rchallenge rhostname w) := by
  have hm : Unreported w (a.port.modify (fun c => { c with respId := id, respTransmits := 0 })
      (cancelClient a.port w)) :=
    (cancelClient_unreported a _ w).trans (.still rfl rfl rfl rfl)
  unfold respond
  dsimp only
  split
  · refine hm.trans (Unreported.trans ?_ (chapSendResponse_unreported a _))
    exact .still rfl rfl rfl rfl
  · exact hm

theorem chapReceiveChallenge_unreported (id : UInt8) (inp : List UInt8) :
    Unreported w (chapReceiveChallenge a.port id inp w) := by
  unfold chapReceiveChallenge
  split
  · exact .refl
  · exact .refl
  · split
    · exact .refl
    · exact respond_unreported a w _ _ _

theorem chapReceiveSuccess_unreported : Unreported w (chapReceiveSuccess a.port w) := by
  unfold chapReceiveSuccess
  split
  · exact report_unreported a .withpeerSuccess rfl (.still rfl rfl rfl rfl)
  · exact .refl

theorem chapReceiveFailure_unreported : Unreported w (chapReceiveFailure a.port w) := by
  unfold chapReceiveFailure
  split
  · exact report_unreported a .withpeerFail rfl (.still rfl rfl rfl rfl)
  · exact .refl

/-! ## The verdict -/

theorem chapVerdict_bad : Unreported w (chapVerdict a.port false w) :=
  report_unreported a .peerFail rfl ((Unreported.note (.sent _) rfl).trans
    (.leave rfl nofun nofun))

/-- A good answer to a periodic challenge is not reported again. -/
theorem chapVerdict_again (h : w.c.serverstate ≠ .initialChal) :
    Unreported w (chapVerdict a.port true w) := by
  have hs : (a.port.cstate (chapSendStatus a.port chapSuccess w)).serverstate ≠ .initialChal := h
  unfold chapVerdict
  rw [if_pos rfl]
  dsimp only
  rw [if_neg hs]
  have hsent := chapSendStatus_unreported a w chapSuccess
  split <;> exact hsent.trans (.leave rfl nofun nofun)

/-- A good answer to the first challenge is, and the state that would allow a
second report is left. -/
theorem chapVerdict_good (h : w.c.serverstate = .initialChal) (hi : ChapInv w) :
    ChapInv (chapVerdict a.port true w) := by
  have hs : (a.port.cstate (chapSendStatus a.port chapSuccess w)).serverstate = .initialChal := h
  unfold chapVerdict
  rw [if_pos rfl]
  dsimp only
  rw [if_pos hs]
  have hw : ChapInv (a.port.note .peerSuccess
      (a.port.setServer .opened (chapSendStatus a.port chapSuccess w))) := by
    refine ⟨nofun, nofun, ?_⟩
    have hf : successes w.log = 0 := hi.fresh h
    change successes w.log + 1 ≤ 1
    rw [hf]
  have hr := (reported_unreported a _ .peerSuccess).2 hw
  have ht : ∀ u : ChapWorld σ, Unreported u (a.port.timeout .rechallenge u) :=
    fun u => .still rfl rfl rfl rfl
  split
  · exact (ht _).2 hr
  · exact hr

/-- The packet a call brings in. -/
def chapArrival : ChapCall → Option CpPacket
  | .input inpacket => parseHeader inpacket
  | _ => none

/-- What has to be true for the peer to be reported as authenticated: a
Response is being handled, with the id and the hash of the last challenge, which
was sent. -/
def Justified (call : ChapCall) : Prop :=
  ∃ value name secret,
    chapArrival call = some ⟨chapResponse, w.c.chalId, 16 :: (value ++ name)⟩ ∧
    value.length = 16 ∧
    a.getSecret (name.take 255) w.c.chalName true = some secret ∧
    value = (a.md5 (w.c.chalId :: secret ++ w.c.challenge)).1 ∧
    lastChallenge w.log = some (w.c.chalId, w.c.challenge) ∧
    challengeSent w.log = true

theorem parseValue_some {inp value name : List UInt8} (h : parseValue inp = some (value, name)) :
    ∃ len rest, inp = len :: (value ++ rest) ∧ value.length = len.toNat ∧
      name = rest.take 255 := by
  match inp with
  | [] => cases h
  | [_] => cases h
  | len :: b :: rest =>
      simp only [parseValue] at h
      split at h
      · cases h
      · next hlen =>
          simp only [Option.some.injEq, Prod.mk.injEq] at h
          obtain ⟨rfl, rfl⟩ := h
          refine ⟨len, (b :: rest).drop len.toNat, ?_, ?_, rfl⟩
          · rw [List.take_append_drop]
          · rw [List.length_take]
            omega

theorem responseGood_true {c : ChapState} {value name : List UInt8}
    (h : responseGood a.port c value name = true) :
    ∃ secret, a.getSecret name c.chalName true = some secret ∧ value.length = 16 ∧
      value = (a.md5 (c.chalId :: secret ++ c.challenge)).1 := by
  unfold responseGood at h
  split at h
  · cases h
  · next secret hsec =>
      obtain ⟨_, hlen, hval⟩ := of_decide_eq_true h
      exact ⟨secret, hsec, hlen, hval⟩

/-- A call keeps the invariant, and if it reports the peer as authenticated,
then with good reason. -/
def Sound (call : ChapCall) (w' : ChapWorld σ) : Prop :=
  ChapInv w' ∧ (w'.log.count .peerSuccess ≠ w.log.count .peerSuccess → Justified a w call)

theorem Unreported.sound {w w' : ChapWorld σ} (h : Unreported w w') (hi : ChapInv w)
    (call : ChapCall) : Sound a w call w' := ⟨h.2 hi, fun hne => absurd h.1 hne⟩

theorem chapReceiveResponse_sound {inpacket : List UInt8} {p : CpPacket} (hi : ChapInv w)
    (hp : parseHeader inpacket = some p) (hc : p.code = chapResponse) :
    Sound a w (.input inpacket)
      (chapReceiveResponse a.port p.id p.data (a.port.note (.rcvd p) w)) := by
  have hn : Unreported w (a.port.note (.rcvd p) w) := .note (.rcvd p) rfl
  -- everything but a good answer to the first challenge goes unreported
  have hstat : ∀ code, Unreported w
      (chapSendStatus a.port code (a.port.note (.rcvd p) w)) :=
    fun code => hn.trans (chapSendStatus_unreported a _ code)
  have judged : ∀ value name, parseValue p.data = some (value, name) → p.id = w.c.chalId →
      Sound a w (.input inpacket)
        (chapVerdict a.port (responseGood a.port w.c value name)
          (a.port.untimeout .challengeTimeout (a.port.note (.rcvd p) w))) := by
    intro value name hv hid
    have hu : Unreported w
        (a.port.untimeout .challengeTimeout (a.port.note (.rcvd p) w)) :=
      hn.trans (.still rfl rfl rfl rfl)
    cases hg : responseGood a.port w.c value name with
    | false => exact (hu.trans (chapVerdict_bad a _)).sound a hi _
    | true =>
        by_cases hs : w.c.serverstate = .initialChal
        · refine ⟨chapVerdict_good a _ hs (hu.2 hi), ?_⟩
          intro _
          obtain ⟨secret, hsec, hlen, hval⟩ := responseGood_true a hg
          obtain ⟨len, rest, hdata, hlen', rfl⟩ := parseValue_some hv
          obtain ⟨hlast, hsent⟩ := hi.challenged (.inl hs)
          refine ⟨value, rest, secret, ?_, hlen, hsec, hval, hlast, hsent⟩
          have h16 : len = 16 := by
            rw [hlen] at hlen'
            exact UInt8.toNat_inj.mp hlen'.symm
          change parseHeader inpacket = _
          rw [hp, ← hc, ← hid, ← h16, ← hdata]
        · exact (hu.trans (chapVerdict_again a _ hs)).sound a hi _
  unfold chapReceiveResponse
  split
  · exact hn.sound a hi _
  · exact hn.sound a hi _
  · split
    · exact hn.sound a hi _
    · exact (hstat _).sound a hi _
  · split
    · exact hn.sound a hi _
    · exact (hstat _).sound a hi _
  iterate 3
    split
    · exact hn.sound a hi _
    · next hid =>
        split
        · exact hn.sound a hi _
        · next value name hv => exact judged value name hv (not_not.mp hid)

theorem chapInput_sound (hi : ChapInv w) (inpacket : List UInt8) :
    Sound a w (.input inpacket) (chapInput a.port inpacket w) := by
  unfold chapInput
  split
  · exact Unreported.refl.sound a hi _
  · next p hp =>
      have hn : Unreported w (a.port.note (.rcvd p) w) := .note (.rcvd p) rfl
      rw [chapDispatch]
      split
      · exact (hn.trans (chapReceiveChallenge_unreported a _ _ _)).sound a hi _
      split
      · next hc => exact chapReceiveResponse_sound a w hi hp hc
      split
      · exact (hn.trans (chapReceiveFailure_unreported a _)).sound a hi _
      split
      · exact (hn.trans (chapReceiveSuccess_unreported a _)).sound a hi _
      · exact hn.sound a hi _

theorem step_sound (hi : ChapInv w) (call : ChapCall) : Sound a w call (a.step w call) := by
  have he : ∀ t, Unreported w (ChapSetup.expire t w) := fun t => .still rfl rfl rfl rfl
  cases call with
  | authWithPeer ourName digest =>
      exact (chapAuthWithPeer_unreported a w _ _).sound a hi _
  | authPeer ourName digest => exact (chapAuthPeer_unreported a w _ _).sound a hi _
  | challengeTimeout =>
      exact ((he _).trans (chapChallengeTimeout_unreported a _)).sound a hi _
  | responseTimeout =>
      exact ((he _).trans (chapResponseTimeout_unreported a _)).sound a hi _
  | rechallenge => exact ((he _).trans (chapRechallenge_unreported a _)).sound a hi _
  | lowerUp => exact (chapLowerUp_unreported a w).sound a hi _
  | lowerDown => exact (chapLowerDown_unreported a _ w).sound a hi _
  | protocolReject => exact (chapProtocolReject_unreported a w).sound a hi _
  | input inpacket => exact chapInput_sound a w hi inpacket
  | config chalInterval timeouttime maxTransmits =>
      have hs : Unreported w (a.step w (.config chalInterval timeouttime maxTransmits)) :=
        .still rfl rfl rfl rfl
      exact hs.sound a hi _

end

theorem chapInv_start (env : σ) : ChapInv (ChapWorld.start env) :=
  ⟨nofun, nofun, Nat.zero_le 1⟩

/-- In every run the peer is reported as authenticated at most once for each
challenge that was made up, and only in a call that is justified. -/
theorem chap_authenticator_sound (a : ChapSetup σ) (env : σ) (calls : List ChapCall) :
    Always a.step (fun w => successes w.log ≤ 1) (ChapWorld.start env) calls ∧
      Guarded a.step
        (fun w call =>
          (a.step w call).log.count .peerSuccess ≠ w.log.count .peerSuccess →
            Justified a w call)
        (ChapWorld.start env) calls := by
  have hall : Always a.step ChapInv (ChapWorld.start env) calls :=
    always_of_guarded (G := fun _ _ => True) ChapInv (chapInv_start env)
      (fun w call hi _ => (step_sound a w hi call).1) (fun _ _ _ => trivial)
  refine ⟨fun pre hpre => (hall pre hpre).once, ?_⟩
  intro pre call hpre
  have hi := hall pre ((List.prefix_append pre [call]).trans hpre)
  exact (step_sound a _ hi call).2

end VxWorks.Ppp
