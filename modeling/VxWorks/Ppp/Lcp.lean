import VxWorks.Lib.Codec
import VxWorks.Ppp.Fsm

/-!
# The options of the link (`lcp.c`)

What LCP adds to the automaton: the options it asks for, what it makes of the
peer's answers to them, and how it judges the options the peer asks for. The
functions act on the part of the interface record that holds options, here
`Lcp`, and see the automaton only where the source does, in the tests for
`OPENED`.

The macros that write, compare and skip one option come in families of five, one
for each length an option can have. Each family is one function of a codec, and
the five codecs are the five lengths.

Two things in this file are not what one would write from a description of the
protocol. `lcp_nakci` does not return from every Configure-Nak: an option of
length 0 that it does not object to is looked at for ever, so its result is an
`Option`. And the octets of a malformed tail that `lcp_reqci` rejects are
counted in a `u_char`.
-/

namespace VxWorks.Ppp

open VxWorks.Lib

def ciMru : UInt8 := 1
def ciAsyncmap : UInt8 := 2
def ciAuthtype : UInt8 := 3
def ciQuality : UInt8 := 4
def ciMagicnumber : UInt8 := 5
def ciPcompression : UInt8 := 7
def ciAccompression : UInt8 := 8

def lcpProto : UInt16 := 0xc021
def ipcpProto : UInt16 := 0x8021
def upapProto : UInt16 := 0xc023
def chapProto : UInt16 := 0xc223
def lqrProto : UInt16 := 0xc025

def mtu : Int := 1500
def defmru : UInt16 := 1500
def minmru : UInt16 := 128
def maxmru : UInt16 := 16384

def cilenVoid : UInt8 := 2
def cilenShort : UInt8 := 4
def cilenChap : UInt8 := 5
def cilenLong : UInt8 := 6
def cilenLqr : UInt8 := 8

/-- `lcp_options`. -/
structure LcpOptions where
  passive : Bool
  silent : Bool
  restart : Bool
  negMru : Bool
  negAsyncmap : Bool
  negUpap : Bool
  negChap : Bool
  negMagicnumber : Bool
  negPcompression : Bool
  negAccompression : Bool
  negLqr : Bool
  mru : UInt16
  chapMdtype : UInt8
  asyncmap : UInt32
  magicnumber : UInt32
  numloops : Int
  lqrPeriod : UInt32
deriving DecidableEq, Repr, Inhabited

/-- `BZERO` of the record. -/
def LcpOptions.zero : LcpOptions where
  passive := false
  silent := false
  restart := false
  negMru := false
  negAsyncmap := false
  negUpap := false
  negChap := false
  negMagicnumber := false
  negPcompression := false
  negAccompression := false
  negLqr := false
  mru := 0
  chapMdtype := 0
  asyncmap := 0
  magicnumber := 0
  numloops := 0
  lqrPeriod := 0

/-- The options in the interface record, and how many numbers `magic` has
returned. -/
structure Lcp where
  want : LcpOptions
  got : LcpOptions
  allow : LcpOptions
  his : LcpOptions
  peerMru : Int
  drawn : Nat
deriving DecidableEq, Repr, Inhabited

/-- `lcp_init`, in a record that is zero before. -/
def lcpInit : Lcp where
  want := { LcpOptions.zero with
    negMru := true, mru := defmru
    chapMdtype := 5 -- CHAP_DIGEST_MD5
    negMagicnumber := true, negPcompression := true, negAccompression := true }
  got := LcpOptions.zero
  allow := { LcpOptions.zero with
    negMru := true, mru := maxmru, negAsyncmap := true, negChap := true, chapMdtype := 5
    negUpap := true, negMagicnumber := true, negPcompression := true, negAccompression := true }
  his := LcpOptions.zero
  peerMru := 0
  drawn := 0

/-! ## The five shapes of an option -/

def ciVoid (opt : UInt8) : Codec Unit := .tagged opt cilenVoid .void
def ciShort (opt : UInt8) : Codec UInt16 := .tagged opt cilenShort .short
def ciChap (opt : UInt8) : Codec (UInt16 × UInt8) :=
  .tagged opt cilenChap (.pair .short .octet)
def ciLong (opt : UInt8) : Codec UInt32 := .tagged opt cilenLong .long
def ciLqr (opt : UInt8) : Codec (UInt16 × UInt32) :=
  .tagged opt cilenLqr (.pair .short .long)

section

variable {α : Type} [DecidableEq α]

/-- `LENCIxxx`. -/
def lenci (neg : Bool) (cilen : UInt8) : Int := if neg then cilen.toNat else 0

/-- `ADDCIxxx`. -/
def addci (neg : Bool) (ci : Codec α) (val : α) : List UInt8 :=
  if neg then ci.put val else []

/-- `ACKCIxxx`: the option must be there, with this value. -/
def ackci (neg : Bool) (ci : Codec α) (val : α) (p : List UInt8) : Option (List UInt8) :=
  if neg then
    match ci.get p with
    | some (v, p) => if v = val then some p else none
    | none => none
  else some p

/-- `NAKCIxxx`: the value in its place, if the option is there. -/
def nakci (neg : Bool) (ci : Codec α) (p : List UInt8) : Option α × List UInt8 :=
  if neg then
    match ci.get p with
    | some (v, p) => (some v, p)
    | none => (none, p)
  else (none, p)

/-- `REJCIxxx`: whether the option is there, which it may be only with the value
that was sent. -/
def rejci (neg : Bool) (ci : Codec α) (val : α) (p : List UInt8) : Option (Bool × List UInt8) :=
  match nakci neg ci p with
  | (some v, p) => if v = val then some (true, p) else none
  | (none, p) => some (false, p)

end

/-! ## Our own options -/

/-- `lcp_resetci`. -/
def lcpResetci (magic : Nat → UInt32) (o : Lcp) : Lcp :=
  let wo := { o.want with magicnumber := magic o.drawn, numloops := 0 }
  { o with want := wo, got := wo, peerMru := mtu, drawn := o.drawn + 1 }

/-- `lcp_cilen`. We only ask for one of CHAP and UPAP, even if we will accept
either. -/
def lcpCilen (go : LcpOptions) : Int :=
  lenci go.negMru cilenShort +
  lenci go.negAsyncmap cilenLong +
  lenci go.negChap cilenChap +
  lenci (!go.negChap && go.negUpap) cilenShort +
  lenci go.negLqr cilenLqr +
  lenci go.negMagicnumber cilenLong +
  lenci go.negPcompression cilenVoid +
  lenci go.negAccompression cilenVoid

/-- `lcp_addci`. The length it is given is compared with what it wrote and is
not changed. -/
def lcpAddci (go : LcpOptions) : List UInt8 :=
  addci go.negMru (ciShort ciMru) go.mru ++
  addci go.negAsyncmap (ciLong ciAsyncmap) go.asyncmap ++
  addci go.negChap (ciChap ciAuthtype) (chapProto, go.chapMdtype) ++
  addci (!go.negChap && go.negUpap) (ciShort ciAuthtype) upapProto ++
  addci go.negLqr (ciLqr ciQuality) (lqrProto, go.lqrPeriod) ++
  addci go.negMagicnumber (ciLong ciMagicnumber) go.magicnumber ++
  addci go.negPcompression (ciVoid ciPcompression) () ++
  addci go.negAccompression (ciVoid ciAccompression) ()

/-- `lcp_ackci`: the options must be in exactly the order we sent them. -/
def lcpAckci (go : LcpOptions) (p : List UInt8) : Bool :=
  (do
    let p ← ackci go.negMru (ciShort ciMru) go.mru p
    let p ← ackci go.negAsyncmap (ciLong ciAsyncmap) go.asyncmap p
    let p ← ackci go.negChap (ciChap ciAuthtype) (chapProto, go.chapMdtype) p
    let p ← ackci (!go.negChap && go.negUpap) (ciShort ciAuthtype) upapProto p
    let p ← ackci go.negLqr (ciLqr ciQuality) (lqrProto, go.lqrPeriod) p
    let p ← ackci go.negMagicnumber (ciLong ciMagicnumber) go.magicnumber p
    let p ← ackci go.negPcompression (ciVoid ciPcompression) () p
    ackci go.negAccompression (ciVoid ciAccompression) () p) == some []

/-- What the last loop of `lcp_nakci` asks of an option we did not include in
our request, given the options that were Nak'd (`no`). -/
def lcpNakExtra (go no : LcpOptions) (citype cilen : UInt8) : Bool :=
  if citype = ciMru then !(go.negMru || no.negMru) && cilen == cilenShort
  else if citype = ciAsyncmap then !(go.negAsyncmap || no.negAsyncmap) && cilen == cilenLong
  else if citype = ciAuthtype then
    -- the one type whose length is not looked at
    !(go.negChap || no.negChap || go.negUpap || no.negUpap)
  else if citype = ciMagicnumber then
    !(go.negMagicnumber || no.negMagicnumber) && cilen == cilenLong
  else if citype = ciPcompression then
    !(go.negPcompression || no.negPcompression) && cilen == cilenVoid
  else if citype = ciAccompression then
    !(go.negAccompression || no.negAccompression) && cilen == cilenVoid
  else if citype = ciQuality then !(go.negLqr || no.negLqr) && cilen == cilenLqr
  else false

/-- The last loop of `lcp_nakci`, with a bound on its rounds. Every round that
passes a positive length gets nearer to the end, so one round more than there
are octets is enough unless the loop never ends. -/
def lcpNakRest (go no : LcpOptions) : Nat → List UInt8 → Option Bool
  | 0, _ => none
  | rounds + 1, p =>
      match p with
      | citype :: cilen :: _ :: _ =>
          if p.length < cilen.toNat then some false
          else if !lcpNakExtra go no citype cilen then some false
          else lcpNakRest go no rounds (p.drop cilen.toNat)
      -- if there is still anything left, this packet is bad
      | p => some (decide (p = []))

/-- `lcp_nakci`; `none` is no return. -/
def lcpNakci (magic : Nat → UInt32) (opened : Bool) (o : Lcp) (p : List UInt8) :
    Option Bool × Lcp :=
  let go := o.got
  let mru := nakci go.negMru (ciShort ciMru) p
  let asyncmap := nakci go.negAsyncmap (ciLong ciAsyncmap) mru.2
  let chap := nakci go.negChap (ciChap ciAuthtype) asyncmap.2
  let upap := nakci (!go.negChap && go.negUpap) (ciShort ciAuthtype) chap.2
  let lqr := nakci go.negLqr (ciLqr ciQuality) upap.2
  let magicnumber := nakci go.negMagicnumber (ciLong ciMagicnumber) lqr.2
  let pcompression := nakci go.negPcompression (ciVoid ciPcompression) magicnumber.2
  let accompression := nakci go.negAccompression (ciVoid ciAccompression) pcompression.2
  let no : LcpOptions := { LcpOptions.zero with
    negMru := mru.1.isSome
    negAsyncmap := asyncmap.1.isSome
    negChap := chap.1.isSome
    negUpap := upap.1.isSome
    negLqr := lqr.1.isSome
    negMagicnumber := magicnumber.1.isSome
    negPcompression := pcompression.1.isSome
    negAccompression := accompression.1.isSome }
  let try' : LcpOptions := { go with
    mru :=
      match mru.1 with
      | some cishort => if cishort ≤ o.want.mru ∨ cishort < defmru then cishort else go.mru
      | none => go.mru
    -- add any characters they want to our (receive-side) asyncmap
    asyncmap :=
      match asyncmap.1 with
      | some cilong => go.asyncmap ||| cilong
      | none => go.asyncmap
    -- we have no other hash algorithm, and a Nak of UPAP is a Reject
    negChap := go.negChap && chap.1.isNone
    negUpap := go.negUpap && upap.1.isNone
    negLqr :=
      match lqr.1 with
      | some (cishort, _) => go.negLqr && cishort == lqrProto
      | none => go.negLqr
    lqrPeriod :=
      match lqr.1 with
      | some (cishort, cilong) => if cishort = lqrProto then cilong else go.lqrPeriod
      | none => go.lqrPeriod
    -- a looped-back line
    magicnumber := if magicnumber.1.isSome then magic o.drawn else go.magicnumber
    numloops := if magicnumber.1.isSome then go.numloops + 1 else go.numloops
    negPcompression := go.negPcompression && pcompression.1.isNone
    negAccompression := go.negAccompression && accompression.1.isNone }
  let o := { o with drawn := if magicnumber.1.isSome then o.drawn + 1 else o.drawn }
  match lcpNakRest go no (accompression.2.length + 1) accompression.2 with
  | none => (none, o)
  | some false => (some false, o)
  | some true => (some true, if opened then o else { o with got := try' })

/-- Whatever the Nak says, a number may have been drawn and our options may be others. -/
theorem lcpNakci_outcome (magic : Nat → UInt32) (opened : Bool) (o : Lcp) (p : List UInt8) :
    ∃ n try' r, lcpNakci magic opened o p = match r with
      | none => (none, { o with drawn := n })
      | some false => (some false, { o with drawn := n })
      | some true =>
          (some true, if opened then { o with drawn := n }
            else { o with drawn := n, got := try' }) := ⟨_, _, _, rfl⟩

/-- `lcp_rejci`. -/
def lcpRejci (opened : Bool) (o : Lcp) (p : List UInt8) : Bool × Lcp :=
  let go := o.got
  let tried : Option (LcpOptions × List UInt8) := do
    let (mru, p) ← rejci go.negMru (ciShort ciMru) go.mru p
    let (asyncmap, p) ← rejci go.negAsyncmap (ciLong ciAsyncmap) go.asyncmap p
    let (chap, p) ← rejci go.negChap (ciChap ciAuthtype) (chapProto, go.chapMdtype) p
    let (upap, p) ← rejci (!go.negChap && go.negUpap) (ciShort ciAuthtype) upapProto p
    let (lqr, p) ← rejci go.negLqr (ciLqr ciQuality) (lqrProto, go.lqrPeriod) p
    let (magicnumber, p) ← rejci go.negMagicnumber (ciLong ciMagicnumber) go.magicnumber p
    let (pcompression, p) ← rejci go.negPcompression (ciVoid ciPcompression) () p
    let (accompression, p) ← rejci go.negAccompression (ciVoid ciAccompression) () p
    some ({ go with
      negMru := go.negMru && !mru
      negAsyncmap := go.negAsyncmap && !asyncmap
      negChap := go.negChap && !chap
      negUpap := go.negUpap && !upap
      negLqr := go.negLqr && !lqr
      negMagicnumber := go.negMagicnumber && !magicnumber
      negPcompression := go.negPcompression && !pcompression
      negAccompression := go.negAccompression && !accompression }, p)
  match tried with
  -- if there are any remaining options, then this packet is bad
  | some (try', []) => (true, if opened then o else { o with got := try' })
  | _ => (false, o)

/-! ## The peer's options -/

/-- An option as the loops of `lcp_reqci` and `ipcp_reqci` find it: its type, its
length octet and what the length covers, or a tail that is no option. -/
inductive ReqCi where
  | opt (citype cilen : UInt8) (body : List UInt8)
  | tail (octets : List UInt8)
deriving DecidableEq, Repr

/-- The options of a request, with a bound on their number. -/
def reqCis : Nat → List UInt8 → List ReqCi
  | rounds + 1, citype :: cilen :: rest =>
      if cilen < 2 ∨ rest.length + 2 < cilen.toNat then [.tail (citype :: cilen :: rest)]
      else .opt citype cilen (rest.take (cilen.toNat - 2)) ::
        reqCis rounds (rest.drop (cilen.toNat - 2))
  | _ + 1, [b] => [.tail [b]]
  | _, _ => []

/-- What `lcp_reqci` has come to: the peer's options as far as they are accepted,
the two replies under construction, and the answer so far. -/
structure LcpReq where
  his : LcpOptions
  nak : List UInt8
  rej : List UInt8
  rc : ConfCode
  drawn : Nat
deriving DecidableEq, Repr

/-- `GETSHORT` and `GETLONG` at the front of an option's body. -/
def shortAt : List UInt8 → UInt16
  | b1 :: b0 :: _ => get16 b1 b0
  | _ => 0

def longAt : List UInt8 → UInt32
  | b3 :: b2 :: b1 :: b0 :: _ => get32 b3 b2 b1 b0
  | _ => 0

/-- Nak an option, with `nak` as the suggestion. -/
def LcpReq.nakWith (r : LcpReq) (nak : List UInt8) : ConfCode × LcpReq :=
  (.nak, { r with nak := r.nak ++ nak })

/-- The `CI_AUTHTYPE` case of `lcp_reqci`. If the peer asks for both CHAP and
UPAP, the second is rejected. -/
def lcpReqAuth (ao : LcpOptions) (r : LcpReq) (cilen : UInt8) (body : List UInt8) :
    ConfCode × LcpReq :=
  let chap := (ciChap ciAuthtype).put (chapProto, ao.chapMdtype)
  let upap := (ciShort ciAuthtype).put upapProto
  if cilen < cilenShort ∨ !(ao.negUpap || ao.negChap) then (.rej, r)
  else if shortAt body = upapProto then
    if r.his.negChap ∨ cilen ≠ cilenShort then (.rej, r)
    else if !ao.negUpap then r.nakWith chap
    else (.ack, { r with his := { r.his with negUpap := true } })
  else if shortAt body = chapProto then
    if r.his.negUpap ∨ cilen ≠ cilenChap then (.rej, r)
    else if !ao.negChap then r.nakWith upap
    else if (body.drop 2).headD 0 ≠ ao.chapMdtype then r.nakWith chap
    else (.ack, { r with his :=
      { r.his with chapMdtype := (body.drop 2).headD 0, negChap := true } })
  else
    -- nak it with something we're willing to do
    r.nakWith (if ao.negChap then chap else upap)

/-- The `switch` of `lcp_reqci`: the verdict on one option. A Nak of the MRU or
of the asyncmap is written over the request, where nothing reads it again. -/
def lcpReqOpt (magic : Nat → UInt32) (go ao : LcpOptions) (r : LcpReq)
    (citype cilen : UInt8) (body : List UInt8) : ConfCode × LcpReq :=
  if citype = ciMru then
    if !ao.negMru ∨ cilen ≠ cilenShort then (.rej, r)
    else if shortAt body < minmru then (.nak, r)
    else (.ack, { r with his := { r.his with negMru := true, mru := shortAt body } })
  else if citype = ciAsyncmap then
    if !ao.negAsyncmap ∨ cilen ≠ cilenLong then (.rej, r)
    else if ao.asyncmap &&& ~~~ (longAt body) ≠ 0 then (.nak, r)
    else (.ack, { r with his := { r.his with negAsyncmap := true, asyncmap := longAt body } })
  else if citype = ciAuthtype then lcpReqAuth ao r cilen body
  else if citype = ciQuality then
    if !ao.negLqr ∨ cilen ≠ cilenLqr then (.rej, r)
    else if shortAt body ≠ lqrProto then
      r.nakWith ((ciLqr ciQuality).put (lqrProto, ao.lqrPeriod))
    else (.ack, r)
  else if citype = ciMagicnumber then
    if !(ao.negMagicnumber || go.negMagicnumber) ∨ cilen ≠ cilenLong then (.rej, r)
    else if go.negMagicnumber ∧ longAt body = go.magicnumber then
      -- he must have a different magic number
      LcpReq.nakWith { r with drawn := r.drawn + 1 }
        ((ciLong ciMagicnumber).put (magic r.drawn))
    else (.ack, { r with his :=
      { r.his with negMagicnumber := true, magicnumber := longAt body } })
  else if citype = ciPcompression then
    if !ao.negPcompression ∨ cilen ≠ cilenVoid then (.rej, r)
    else (.ack, { r with his := { r.his with negPcompression := true } })
  else if citype = ciAccompression then
    if !ao.negAccompression ∨ cilen ≠ cilenVoid then (.rej, r)
    else (.ack, { r with his := { r.his with negAccompression := true } })
  else (.rej, r)

/-- What is done with a verdict. `cip` is what is moved into the reject. -/
def lcpReqDispose (rejectIfDisagree : Bool) (citype : UInt8) (cip : List UInt8)
    (v : ConfCode × LcpReq) : LcpReq :=
  let r := v.2
  let reject : LcpReq := { r with rc := .rej, rej := r.rej ++ cip }
  match v.1 with
  | .ack => r
  | .nak =>
      -- get tough when fed up with sending Naks, but not about a looped line
      if rejectIfDisagree ∧ citype ≠ ciMagicnumber then reject
      else if r.rc = .rej then r
      else { r with rc := .nak }
  | .rej => reject

/-- One round of `lcp_reqci`. The length of a malformed tail is stored in a
`u_char`. -/
def lcpReqRound (magic : Nat → UInt32) (go ao : LcpOptions) (rejectIfDisagree : Bool)
    (r : LcpReq) : ReqCi → LcpReq
  | .opt citype cilen body =>
      lcpReqDispose rejectIfDisagree citype (citype :: cilen :: body)
        (lcpReqOpt magic go ao r citype cilen body)
  | .tail octets =>
      lcpReqDispose rejectIfDisagree 0 (octets.take (octets.length % 256)) (.rej, r)

/-- `lcp_reqci`: check the peer's requested options and make up the response. -/
def lcpReqci (magic : Nat → UInt32) (o : Lcp) (inp : List UInt8) (rejectIfDisagree : Bool) :
    ConfCode × List UInt8 × Lcp :=
  let r := (reqCis inp.length inp).foldl
    (lcpReqRound magic o.got o.allow rejectIfDisagree)
    { his := LcpOptions.zero, nak := [], rej := [], rc := .ack, drawn := o.drawn }
  let data := match r.rc with
    | .ack => inp
    | .nak => r.nak
    | .rej => r.rej
  (r.rc, data, { o with his := r.his, drawn := r.drawn })

end VxWorks.Ppp
