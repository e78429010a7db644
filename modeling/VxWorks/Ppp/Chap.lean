import VxWorks.Ppp.Fsm

/-!
# The challenge handshake (`chap.c`)

Both ends of CHAP are in one record: a client that answers challenges and a
server that issues them and judges the answers. As with the option automaton,
the functions are written over any state `S` the record is a part of, because
what they report goes to `auth.c`, and from there a failed authentication takes
the link down, which calls `ChapLowerDown` back. `ChapPort` says where the
record is, what MD5 and `get_secret` are, and what the four reports do.

The digest is a type of its own, so that its length is not an assumption. The
array a challenge is kept in appears as the list of the octets that `chal_len`
says are in use; nothing ever reads the others.
-/

namespace VxWorks.Ppp

open VxWorks.Lib

/-- Client states. -/
inductive ChapClient where
  | initial | closed | pending | listen | response | opened
deriving DecidableEq, Repr, Inhabited

/-- Server states. -/
inductive ChapServer where
  | initial | closed | pending | initialChal | opened | rechallenge | badauth
deriving DecidableEq, Repr, Inhabited

/-- An MD5 signature. -/
def Digest : Type := { octets : List UInt8 // octets.length = 16 }

/-- `struct chap_state`. -/
structure ChapState where
  clientstate : ChapClient
  serverstate : ChapServer
  challenge : List UInt8
  chalId : UInt8
  chalType : UInt8
  id : UInt8
  chalName : List UInt8
  chalInterval : Int
  timeouttime : Int
  maxTransmits : Int
  chalTransmits : Int
  respTransmits : Int
  response : List UInt8
  respId : UInt8
  respType : UInt8
  respName : List UInt8
deriving Inhabited

def chapDigestMd5 : UInt8 := 5
def md5SignatureSize : Nat := 16

def chapChallenge : UInt8 := 1
def chapResponse : UInt8 := 2
def chapSuccess : UInt8 := 3
def chapFailure : UInt8 := 4

def minChallengeLength : Nat := 32
def maxChallengeLength : Nat := 64

def chapDeftimeout : Int := 3
def chapDeftransmits : Int := 10

/-- The three callouts. -/
inductive ChapTimer where
  | challengeTimeout | responseTimeout | rechallenge
deriving DecidableEq, Repr

inductive ChapEvent where
  /-- `ChapInput` accepted the header of a packet. -/
  | rcvd (p : CpPacket)
  | sent (p : CpPacket)
  /-- `ChapGenChallenge` made up a challenge. -/
  | generated (id : UInt8) (challenge : List UInt8)
  | peerSuccess
  | peerFail
  | withpeerSuccess
  | withpeerFail
deriving DecidableEq, Repr

structure ChapPort (S : Type) where
  cstate : S → ChapState
  put : ChapState → S → S
  timeout : ChapTimer → S → S
  untimeout : ChapTimer → S → S
  note : ChapEvent → S → S
  random : S → Nat × S
  unit : Nat
  md5 : List UInt8 → Digest
  /-- `get_secret (unit, client, server, ..)`; the flag is `save_addrs`. -/
  getSecret : List UInt8 → List UInt8 → Bool → Option (List UInt8)
  /-- `auth_peer_success (unit, CHAP)`, and so on. -/
  peerSuccess : S → S
  peerFail : S → S
  withpeerSuccess : S → S
  withpeerFail : S → S

/-- `ChapInit`. -/
def chapInit : ChapState where
  clientstate := .initial
  serverstate := .initial
  challenge := []
  chalId := 0
  chalType := 0
  id := 0
  chalName := []
  chalInterval := 0
  timeouttime := chapDeftimeout
  maxTransmits := chapDeftransmits
  chalTransmits := 0
  respTransmits := 0
  response := []
  respId := 0
  respType := 0
  respName := []

section

variable {S : Type} (P : ChapPort S)

def ChapPort.modify (g : ChapState → ChapState) (s : S) : S := P.put (g (P.cstate s)) s

def ChapPort.setServer (st : ChapServer) (s : S) : S :=
  P.modify (fun c => { c with serverstate := st }) s

def ChapPort.setClient (st : ChapClient) (s : S) : S :=
  P.modify (fun c => { c with clientstate := st }) s

/-- The random octets of a challenge, one call each. -/
def genOctets : Nat → S → List UInt8 × S
  | 0, s => ([], s)
  | n + 1, s =>
      let r := P.random s
      let rest := genOctets n r.2
      (UInt8.ofNat (r.1 % 0xff) :: rest.1, rest.2)

/-- `ChapGenChallenge`: a random string of a random length. -/
def chapGenChallenge (s : S) : S :=
  let r := P.random s
  let chalLen := r.1 % (maxChallengeLength - minChallengeLength) + minChallengeLength
  let g := genOctets P chalLen r.2
  let s := P.modify (fun c =>
    { c with challenge := g.1, id := c.id + 1, chalId := c.id + 1, chalTransmits := 0 }) g.2
  P.note (.generated (P.cstate s).chalId (P.cstate s).challenge) s

/-- The Challenge packet for what the record holds. -/
def challengePacket (c : ChapState) : CpPacket :=
  ⟨chapChallenge, c.chalId,
    UInt8.ofNat c.challenge.length :: c.challenge ++ c.chalName⟩

/-- `ChapSendChallenge`. -/
def chapSendChallenge (s : S) : S :=
  let s := P.timeout .challengeTimeout (P.note (.sent (challengePacket (P.cstate s))) s)
  P.modify (fun c => { c with chalTransmits := c.chalTransmits + 1 }) s

/-- The text of a status packet. -/
def statusMessage (code : UInt8) (unit : Nat) : List UInt8 :=
  let text := if code = chapSuccess then "CHAP authentication success, unit "
    else "CHAP authentication failure, unit "
  (text ++ toString unit).toList.map fun ch => UInt8.ofNat ch.toNat

/-- `ChapSendStatus`. -/
def chapSendStatus (code : UInt8) (s : S) : S :=
  P.note (.sent ⟨code, (P.cstate s).chalId, statusMessage code P.unit⟩) s

/-- `ChapSendResponse`. -/
def chapSendResponse (s : S) : S :=
  let c := P.cstate s
  let s := P.note (.sent ⟨chapResponse, c.respId,
    UInt8.ofNat c.response.length :: c.response ++ c.respName⟩) s
  let s := P.timeout .responseTimeout (P.setClient .response s)
  P.modify (fun c => { c with respTransmits := c.respTransmits + 1 }) s

/-- The three places that start challenging: a new challenge, sent, and the
state that waits for the answer. -/
def startChallenge (st : ChapServer) (s : S) : S :=
  P.setServer st (chapSendChallenge P (chapGenChallenge P s))

/-- `ChapAuthWithPeer`: authenticate us with our peer. -/
def chapAuthWithPeer (ourName : List UInt8) (digest : UInt8) (s : S) : S :=
  let s := P.modify (fun c => { c with respName := ourName, respType := digest }) s
  match (P.cstate s).clientstate with
  | .initial | .pending => P.setClient .pending s
  | _ => P.setClient .listen s

/-- `ChapAuthPeer`: authenticate our peer. -/
def chapAuthPeer (ourName : List UInt8) (digest : UInt8) (s : S) : S :=
  let s := P.modify (fun c => { c with chalName := ourName, chalType := digest }) s
  match (P.cstate s).serverstate with
  | .initial | .pending => P.setServer .pending s
  | _ => startChallenge P .initialChal s

/-- `ChapChallengeTimeout`. -/
def chapChallengeTimeout (s : S) : S :=
  match (P.cstate s).serverstate with
  | .initialChal | .rechallenge =>
      if (P.cstate s).maxTransmits ≤ (P.cstate s).chalTransmits then
        P.peerFail (P.note .peerFail (P.setServer .badauth s))
      else chapSendChallenge P s
  | _ => s

/-- `ChapResponseTimeout`. -/
def chapResponseTimeout (s : S) : S :=
  match (P.cstate s).clientstate with
  | .response => chapSendResponse P s
  | _ => s

/-- `ChapRechallenge`: time to challenge the peer again. -/
def chapRechallenge (s : S) : S :=
  match (P.cstate s).serverstate with
  | .opened =>
      let s := startChallenge P .rechallenge s
      if (P.cstate s).chalInterval ≠ 0 then P.timeout .rechallenge s else s
  | _ => s

/-- The client's half of `ChapLowerUp`. -/
def clientUp (s : S) : S :=
  match (P.cstate s).clientstate with
  | .initial => P.setClient .closed s
  | .pending => P.setClient .listen s
  | _ => s

/-- The server's half of `ChapLowerUp`. -/
def serverUp (s : S) : S :=
  match (P.cstate s).serverstate with
  | .initial => P.setServer .closed s
  | .pending => startChallenge P .initialChal s
  | _ => s

/-- `ChapLowerUp`: the lower layer is up. -/
def chapLowerUp (s : S) : S := serverUp P (clientUp P s)

/-- Cancel the callout of the server's state. -/
def cancelServer (s : S) : S :=
  match (P.cstate s).serverstate with
  | .initialChal | .rechallenge => P.untimeout .challengeTimeout s
  | .opened => if (P.cstate s).chalInterval ≠ 0 then P.untimeout .rechallenge s else s
  | _ => s

/-- Cancel the callout of the client's state. -/
def cancelClient (s : S) : S :=
  match (P.cstate s).clientstate with
  | .response => P.untimeout .responseTimeout s
  | _ => s

/-- `ChapLowerDown`: the lower layer is down. -/
def chapLowerDown (s : S) : S :=
  P.setServer .initial (P.setClient .initial (cancelClient P (cancelServer P s)))

/-- The server's half of `ChapProtocolReject`. -/
def rejectServer (s : S) : S :=
  match (P.cstate s).serverstate with
  | .initial | .closed => s
  | _ => P.peerFail (P.note .peerFail s)

/-- The client's half of `ChapProtocolReject`. -/
def rejectClient (s : S) : S :=
  match (P.cstate s).clientstate with
  | .initial | .closed => s
  | _ => P.withpeerFail (P.note .withpeerFail s)

/-- `ChapProtocolReject`: the peer does not grok CHAP. -/
def chapProtocolReject (s : S) : S := chapLowerDown P (rejectClient P (rejectServer P s))

/-- The value and the name in the data of a Challenge or Response; `rhostname`
has room for 255 octets of the name. -/
def parseValue : List UInt8 → Option (List UInt8 × List UInt8)
  | len :: b :: rest =>
      let body := b :: rest
      if body.length < len.toNat then none
      else some (body.take len.toNat, (body.drop len.toNat).take 255)
  | _ => none

/-- What `ChapReceiveChallenge` does with a challenge. A null secret is assumed
when there is none for the host. -/
def respond (id : UInt8) (rchallenge rhostname : List UInt8) (s : S) : S :=
  let secret := (P.getSecret (P.cstate s).respName rhostname false).getD []
  let s := P.modify (fun c => { c with respId := id, respTransmits := 0 }) (cancelClient P s)
  if (P.cstate s).respType = chapDigestMd5 then
    chapSendResponse P (P.modify (fun c =>
      { c with response := (P.md5 (id :: secret ++ rchallenge)).1 }) s)
  else s

/-- `ChapReceiveChallenge`: receive Challenge and send Response. -/
def chapReceiveChallenge (id : UInt8) (inp : List UInt8) (s : S) : S :=
  match (P.cstate s).clientstate with
  | .closed | .pending => s
  | _ =>
      match parseValue inp with
      | none => s
      | some (rchallenge, rhostname) => respond P id rchallenge rhostname s

/-- The comparison in `ChapReceiveResponse`: find the secret, do the hash
ourselves, and compare the result. -/
def responseGood (c : ChapState) (remmd rhostname : List UInt8) : Bool :=
  match P.getSecret rhostname c.chalName true with
  | none => false
  | some secret =>
      decide (c.chalType = chapDigestMd5 ∧ remmd.length = md5SignatureSize ∧
        remmd = (P.md5 (c.chalId :: secret ++ c.challenge)).1)

/-- What `ChapReceiveResponse` does with a verdict. -/
def chapVerdict (good : Bool) (s : S) : S :=
  if good then
    let s := chapSendStatus P chapSuccess s
    let oldState := (P.cstate s).serverstate
    let s := P.setServer .opened s
    let s := if oldState = .initialChal then P.peerSuccess (P.note .peerSuccess s) else s
    if (P.cstate s).chalInterval ≠ 0 then P.timeout .rechallenge s else s
  else
    let s := chapSendStatus P chapFailure s
    P.peerFail (P.note .peerFail (P.setServer .badauth s))

/-- `ChapReceiveResponse`: receive and process response. A duplicate or bogus
Response gets the answer that the first one got. -/
def chapReceiveResponse (id : UInt8) (inp : List UInt8) (s : S) : S :=
  match (P.cstate s).serverstate with
  | .closed | .pending => s
  | .opened =>
      if id ≠ (P.cstate s).chalId then s else chapSendStatus P chapSuccess s
  | .badauth =>
      if id ≠ (P.cstate s).chalId then s else chapSendStatus P chapFailure s
  | .initial | .initialChal | .rechallenge =>
      if id ≠ (P.cstate s).chalId then s
      else
        match parseValue inp with
        | none => s
        | some (remmd, rhostname) =>
            let s := P.untimeout .challengeTimeout s
            chapVerdict P (responseGood P (P.cstate s) remmd rhostname) s

/-- `ChapReceiveSuccess`. -/
def chapReceiveSuccess (s : S) : S :=
  match (P.cstate s).clientstate with
  | .response =>
      let s := P.setClient .opened (P.untimeout .responseTimeout s)
      P.withpeerSuccess (P.note .withpeerSuccess s)
  | _ => s

/-- `ChapReceiveFailure`. -/
def chapReceiveFailure (s : S) : S :=
  match (P.cstate s).clientstate with
  | .response => P.withpeerFail (P.note .withpeerFail (P.untimeout .responseTimeout s))
  | _ => s

/-- The dispatch of `ChapInput`. -/
def chapDispatch (p : CpPacket) (s : S) : S :=
  if p.code = chapChallenge then chapReceiveChallenge P p.id p.data s
  else if p.code = chapResponse then chapReceiveResponse P p.id p.data s
  else if p.code = chapFailure then chapReceiveFailure P s
  else if p.code = chapSuccess then chapReceiveSuccess P s
  else s

/-- `ChapInput`: a packet arrived. -/
def chapInput (inpacket : List UInt8) (s : S) : S :=
  match parseHeader inpacket with
  | none => s
  | some p => chapDispatch P p (P.note (.rcvd p) s)

end

/-! ## What CHAP leaves alone

CHAP acts on a larger state only through its port. So a property of that state
that the port keeps is kept by every function above, whatever the packets are. -/

/-- A property that nothing the port does can break. -/
structure ChapPort.Keeps {S : Type} (P : ChapPort S) (I : S → Prop) : Prop where
  put : ∀ {s} c, I s → I (P.put c s)
  timeout : ∀ {s} t, I s → I (P.timeout t s)
  untimeout : ∀ {s} t, I s → I (P.untimeout t s)
  note : ∀ {s} e, I s → I (P.note e s)
  random : ∀ {s}, I s → I (P.random s).2
  peerSuccess : ∀ {s}, I s → I (P.peerSuccess s)
  peerFail : ∀ {s}, I s → I (P.peerFail s)
  withpeerSuccess : ∀ {s}, I s → I (P.withpeerSuccess s)
  withpeerFail : ∀ {s}, I s → I (P.withpeerFail s)

namespace ChapPort.Keeps

variable {S : Type} {P : ChapPort S} {I : S → Prop} {s : S}

theorem modify (k : P.Keeps I) (g : ChapState → ChapState) (h : I s) : I (P.modify g s) :=
  k.put _ h

theorem setServer (k : P.Keeps I) (st : ChapServer) (h : I s) : I (P.setServer st s) :=
  k.put _ h

theorem setClient (k : P.Keeps I) (st : ChapClient) (h : I s) : I (P.setClient st s) :=
  k.put _ h

theorem genOctets (k : P.Keeps I) (n : Nat) (h : I s) : I (genOctets P n s).2 := by
  induction n generalizing s with
  | zero => exact h
  | succ n ih => exact ih (k.random h)

theorem genChallenge (k : P.Keeps I) (h : I s) : I (chapGenChallenge P s) :=
  k.note _ (k.modify _ (k.genOctets _ (k.random h)))

theorem sendChallenge (k : P.Keeps I) (h : I s) : I (chapSendChallenge P s) := by
  rw [chapSendChallenge]
  exact k.modify _ (k.timeout _ (k.note _ h))

theorem sendResponse (k : P.Keeps I) (h : I s) : I (chapSendResponse P s) := by
  rw [chapSendResponse]
  exact k.modify _ (k.timeout _ (k.setClient _ (k.note _ h)))

theorem startChallenge (k : P.Keeps I) (st : ChapServer) (h : I s) :
    I (startChallenge P st s) :=
  k.setServer _ (k.sendChallenge (k.genChallenge h))

/-- The callout behind a challenge or a success. -/
theorem armRechallenge (k : P.Keeps I) (h : I s) :
    I (if (P.cstate s).chalInterval ≠ 0 then P.timeout .rechallenge s else s) := by
  split
  · exact k.timeout _ h
  · exact h

theorem cancelServer (k : P.Keeps I) (h : I s) : I (cancelServer P s) := by
  unfold Ppp.cancelServer
  split
  · exact k.untimeout _ h
  · exact k.untimeout _ h
  · split
    · exact k.untimeout _ h
    · exact h
  · exact h

theorem cancelClient (k : P.Keeps I) (h : I s) : I (cancelClient P s) := by
  unfold Ppp.cancelClient
  split
  · exact k.untimeout _ h
  · exact h

theorem lowerDown (k : P.Keeps I) (h : I s) : I (chapLowerDown P s) :=
  k.setServer _ (k.setClient _ (k.cancelClient (k.cancelServer h)))

theorem lowerUp (k : P.Keeps I) (h : I s) : I (chapLowerUp P s) := by
  have hc : I (clientUp P s) := by
    unfold clientUp
    split
    · exact k.modify _ h
    · exact k.modify _ h
    · exact h
  unfold chapLowerUp serverUp
  split
  · exact k.modify _ hc
  · exact k.startChallenge _ hc
  · exact hc

theorem authPeer (k : P.Keeps I) (ourName : List UInt8) (digest : UInt8) (h : I s) :
    I (chapAuthPeer P ourName digest s) := by
  unfold chapAuthPeer
  dsimp only
  split
  · exact k.modify _ (k.modify _ h)
  · exact k.modify _ (k.modify _ h)
  · exact k.startChallenge _ (k.modify _ h)

theorem authWithPeer (k : P.Keeps I) (ourName : List UInt8) (digest : UInt8) (h : I s) :
    I (chapAuthWithPeer P ourName digest s) := by
  unfold chapAuthWithPeer
  dsimp only
  split <;> exact k.modify _ (k.modify _ h)

theorem challengeTimeout (k : P.Keeps I) (h : I s) : I (chapChallengeTimeout P s) := by
  have hsend : I (if (P.cstate s).maxTransmits ≤ (P.cstate s).chalTransmits then
      P.peerFail (P.note .peerFail (P.setServer .badauth s)) else chapSendChallenge P s) := by
    split
    · exact k.peerFail (k.note _ (k.modify _ h))
    · exact k.sendChallenge h
  unfold chapChallengeTimeout
  split
  · exact hsend
  · exact hsend
  · exact h

theorem responseTimeout (k : P.Keeps I) (h : I s) : I (chapResponseTimeout P s) := by
  unfold chapResponseTimeout
  split
  · exact k.sendResponse h
  · exact h

theorem rechallenge (k : P.Keeps I) (h : I s) : I (chapRechallenge P s) := by
  unfold chapRechallenge
  split
  · exact k.armRechallenge (k.startChallenge _ h)
  · exact h

theorem protocolReject (k : P.Keeps I) (h : I s) : I (chapProtocolReject P s) := by
  have hs : I (rejectServer P s) := by
    unfold rejectServer
    split
    · exact h
    · exact h
    · exact k.peerFail (k.note _ h)
  have hc : I (rejectClient P (rejectServer P s)) := by
    unfold rejectClient
    split
    · exact hs
    · exact hs
    · exact k.withpeerFail (k.note _ hs)
  exact k.lowerDown hc

theorem receiveChallenge (k : P.Keeps I) (id : UInt8) (inp : List UInt8) (h : I s) :
    I (chapReceiveChallenge P id inp s) := by
  have hrespond : ∀ rchallenge rhostname, I (respond P id rchallenge rhostname s) := by
    intro rchallenge rhostname
    have hid := k.modify (fun c => { c with respId := id, respTransmits := 0 }) (k.cancelClient h)
    unfold respond
    dsimp only
    split
    · exact k.sendResponse (k.modify _ hid)
    · exact hid
  unfold chapReceiveChallenge
  split
  · exact h
  · exact h
  · split
    · exact h
    · exact hrespond _ _

theorem verdict (k : P.Keeps I) (good : Bool) (h : I s) : I (chapVerdict P good s) := by
  rw [chapVerdict]
  split
  · have hopen := k.setServer .opened
      (k.note (.sent ⟨chapSuccess, (P.cstate s).chalId, statusMessage chapSuccess P.unit⟩) h)
    refine k.armRechallenge ?_
    split
    · exact k.peerSuccess (k.note _ hopen)
    · exact hopen
  · exact k.peerFail (k.note _ (k.setServer _ (k.note _ h)))

theorem receiveResponse (k : P.Keeps I) (id : UInt8) (inp : List UInt8) (h : I s) :
    I (chapReceiveResponse P id inp s) := by
  have hjudge : I (if id ≠ (P.cstate s).chalId then s
      else
        match parseValue inp with
        | none => s
        | some (remmd, rhostname) =>
            let s := P.untimeout .challengeTimeout s
            chapVerdict P (responseGood P (P.cstate s) remmd rhostname) s) := by
    split
    · exact h
    · split
      · exact h
      · exact k.verdict _ (k.untimeout _ h)
  have hagain : ∀ code, I (if id ≠ (P.cstate s).chalId then s else chapSendStatus P code s) := by
    intro code
    split
    · exact h
    · exact k.note _ h
  unfold chapReceiveResponse
  split
  · exact h
  · exact h
  · exact hagain _
  · exact hagain _
  · exact hjudge
  · exact hjudge
  · exact hjudge

theorem receiveSuccess (k : P.Keeps I) (h : I s) : I (chapReceiveSuccess P s) := by
  unfold chapReceiveSuccess
  split
  · exact k.withpeerSuccess (k.note _ (k.modify _ (k.untimeout _ h)))
  · exact h

theorem receiveFailure (k : P.Keeps I) (h : I s) : I (chapReceiveFailure P s) := by
  unfold chapReceiveFailure
  split
  · exact k.withpeerFail (k.note _ (k.untimeout _ h))
  · exact h

theorem input (k : P.Keeps I) (inpacket : List UInt8) (h : I s) : I (chapInput P inpacket s) := by
  unfold chapInput
  cases parseHeader inpacket with
  | none => exact h
  | some p =>
      have hr := k.note (.rcvd p) h
      simp only [chapDispatch]
      split
      · exact k.receiveChallenge _ _ hr
      · split
        · exact k.receiveResponse _ _ hr
        · split
          · exact k.receiveFailure hr
          · split
            · exact k.receiveSuccess hr
            · exact hr

end ChapPort.Keeps

end VxWorks.Ppp
