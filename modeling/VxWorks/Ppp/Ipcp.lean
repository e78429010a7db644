import VxWorks.Ppp.Lcp

/-!
# The options of the network layer (`ipcp.c`)

The same five questions as for the link, asked about addresses and header
compression. Both options have an old and a new form, and which of them is sent
next depends on what the peer has answered and asked for so far.

Addresses are kept as numbers. The source keeps them in network byte order and
converts on every read and write, and all it does with one in between is to
compare it with another or with zero. Routes and proxy entries are the driver's
and are left out, with the two flags for them.

`ipcp_rejci` takes the whole link down when the peer rejects our address, before
it has looked at the rest of the packet. Here that is a predicate of its own,
`ipcpRejAddr`; the layer that has a link to take down acts on it.
-/

namespace VxWorks.Ppp

open VxWorks.Lib

def ciAddrs : UInt8 := 1
def ciCompresstype : UInt8 := 2
def ciAddr : UInt8 := 3

def cilenCompress : UInt8 := 4
def cilenVj : UInt8 := 6
def cilenAddr : UInt8 := 6
def cilenAddrs : UInt8 := 10

def ipcpVjComp : UInt16 := 0x002d
def ipcpVjCompOld : UInt16 := 0x0037

def maxStates : UInt8 := 16

/-- `ipcp_options`. -/
structure IpcpOptions where
  negAddr : Bool
  oldAddrs : Bool
  reqAddr : Bool
  negVj : Bool
  oldVj : Bool
  acceptLocal : Bool
  acceptRemote : Bool
  vjProtocol : UInt16
  maxslotindex : UInt8
  cflag : UInt8
  ouraddr : UInt32
  hisaddr : UInt32
deriving DecidableEq, Repr, Inhabited

/-- `BZERO` of the record. -/
def IpcpOptions.zero : IpcpOptions where
  negAddr := false
  oldAddrs := false
  reqAddr := false
  negVj := false
  oldVj := false
  acceptLocal := false
  acceptRemote := false
  vjProtocol := 0
  maxslotindex := 0
  cflag := 0
  ouraddr := 0
  hisaddr := 0

/-- The options in the interface record. -/
structure Ipcp where
  want : IpcpOptions
  got : IpcpOptions
  allow : IpcpOptions
  his : IpcpOptions
  cisReceived : Int
deriving DecidableEq, Repr, Inhabited

/-- `ipcp_init`, in a record that is zero before. -/
def ipcpInit : Ipcp where
  want := { IpcpOptions.zero with
    negAddr := true, negVj := true, vjProtocol := ipcpVjComp, maxslotindex := maxStates - 1
    cflag := 1 }
  got := IpcpOptions.zero
  allow := { IpcpOptions.zero with
    negAddr := true, negVj := true, maxslotindex := maxStates - 1, cflag := 1 }
  his := IpcpOptions.zero
  cisReceived := 0

def ciOneAddr (opt : UInt8) : Codec UInt32 := .tagged opt cilenAddr .long
def ciTwoAddrs (opt : UInt8) : Codec (UInt32 × UInt32) :=
  .tagged opt cilenAddrs (.pair .long .long)
def ciVj : Codec (UInt16 × UInt8 × UInt8) :=
  .tagged ciCompresstype cilenVj (.pair .short (.pair .octet .octet))
def ciOldVj : Codec UInt16 := .tagged ciCompresstype cilenCompress .short

/-! ## Our own options -/

/-- `ipcp_resetci`. -/
def ipcpResetci (o : Ipcp) : Ipcp :=
  let wo := { o.want with
    reqAddr := o.want.negAddr && o.allow.negAddr
    acceptLocal := o.want.acceptLocal || o.want.ouraddr == 0
    acceptRemote := o.want.acceptRemote || o.want.hisaddr == 0 }
  { o with want := wo, got := wo, cisReceived := 0 }

/-- `ipcp_cilen`. -/
def ipcpCilen (go : IpcpOptions) : Int :=
  lenci go.negAddr (if go.oldAddrs then cilenAddrs else cilenAddr) +
  lenci go.negVj (if go.oldVj then cilenCompress else cilenVj)

/-- The head of `ipcp_addci`: change our options to the old forms because we have
received old forms from the peer, or keep trying the new ones. -/
def ipcpFallback (o : Ipcp) : IpcpOptions :=
  let go := o.got
  let go :=
    if o.want.negAddr && !go.negAddr && !go.oldAddrs then
      { go with negAddr := true, oldAddrs := true }
    else go
  if o.want.negVj && !go.negVj && !go.oldVj then
    if o.cisReceived = 0 then { go with negVj := true }
    -- use the old style only if the peer did
    else if o.his.negVj && o.his.oldVj then
      { go with negVj := true, oldVj := true, vjProtocol := o.his.vjProtocol }
    else go
  else go

/-- The octets of our address option. -/
def addrOctets (go : IpcpOptions) : List UInt8 :=
  if go.oldAddrs then (ciTwoAddrs ciAddrs).put (go.ouraddr, go.hisaddr)
  else (ciOneAddr ciAddr).put go.ouraddr

/-- The octets of our compression option. -/
def vjOctets (go : IpcpOptions) : List UInt8 :=
  if go.oldVj then ciOldVj.put go.vjProtocol
  else ciVj.put (go.vjProtocol, go.maxslotindex, go.cflag)

/-- `ipcp_addci`: an option there is no room for is given up. -/
def ipcpAddci (o : Ipcp) (room : Int) : Ipcp × List UInt8 :=
  let go := ipcpFallback o
  let addr := go.negAddr && decide ((addrOctets go).length ≤ room)
  let left := if addr then room - (addrOctets go).length else room
  let vj := go.negVj && decide ((vjOctets go).length ≤ left)
  ({ o with got := { go with negAddr := addr, negVj := vj } },
    (if addr then addrOctets go else []) ++ (if vj then vjOctets go else []))

/-- `ipcp_ackci`. -/
def ipcpAckci (go : IpcpOptions) (p : List UInt8) : Bool :=
  (do
    let p ← ackci (go.negAddr && go.oldAddrs) (ciTwoAddrs ciAddrs) (go.ouraddr, go.hisaddr) p
    let p ← ackci (go.negAddr && !go.oldAddrs) (ciOneAddr ciAddr) go.ouraddr p
    let p ← ackci (go.negVj && go.oldVj) ciOldVj go.vjProtocol p
    ackci (go.negVj && !go.oldVj) ciVj (go.vjProtocol, go.maxslotindex, go.cflag) p) == some []

/-- The options Nak'd so far and the options to request next time. -/
structure IpcpNak where
  no : IpcpOptions
  try' : IpcpOptions
deriving DecidableEq, Repr

/-- Accept the peer's idea of our address and of his. -/
def acceptAddrs (go try' : IpcpOptions) (ciaddr1 ciaddr2 : UInt32) : IpcpOptions :=
  { try' with
    ouraddr := if go.acceptLocal ∧ ciaddr1 ≠ 0 then ciaddr1 else try'.ouraddr
    hisaddr := if go.acceptRemote ∧ ciaddr2 ≠ 0 then ciaddr2 else try'.hisaddr }

/-- The `NAKCIADDR` of `ipcp_nakci`. The type is that of the new form for both
forms; only the length differs. -/
def ipcpNakAddr (go : IpcpOptions) (k : IpcpNak) (p : List UInt8) : IpcpNak × List UInt8 :=
  let two := nakci (go.negAddr && go.oldAddrs) (ciTwoAddrs ciAddr) p
  let one := nakci (go.negAddr && !go.oldAddrs) (ciOneAddr ciAddr) two.2
  match two.1, one.1 with
  | some (ciaddr1, ciaddr2), _ =>
      ({ no := { k.no with negAddr := true, oldAddrs := true }
         try' := acceptAddrs go k.try' ciaddr1 ciaddr2 }, one.2)
  | none, some ciaddr1 =>
      ({ no := { k.no with negAddr := true }
         try' := acceptAddrs go k.try' ciaddr1 0 }, one.2)
  | none, none => (k, one.2)

/-- The `NAKCIVJ` of `ipcp_nakci`. -/
def ipcpNakVj (go : IpcpOptions) (k : IpcpNak) (p : List UInt8) : IpcpNak × List UInt8 :=
  let new := nakci go.negVj ciVj p
  let old := nakci (go.negVj && new.1.isNone) ciOldVj new.2
  let no := { k.no with negVj := true }
  match new.1, old.1 with
  | some (cishort, cimaxslotindex, cicflag), _ =>
      ({ no := no
         try' :=
          if cishort = ipcpVjComp then
            { k.try' with
              oldVj := false
              maxslotindex :=
                if cimaxslotindex < go.maxslotindex then cimaxslotindex
                else k.try'.maxslotindex
              cflag := if cicflag = 0 then 0 else k.try'.cflag }
          else { k.try' with negVj := false } }, old.2)
  | none, some cishort =>
      ({ no := no
         try' :=
          if cishort = ipcpVjComp ∨ cishort = ipcpVjCompOld then
            { k.try' with oldVj := true, vjProtocol := cishort }
          else { k.try' with negVj := false } }, old.2)
  | none, none => (k, old.2)

/-- The `switch` in the last loop of `ipcp_nakci`: an option that we did not
include in our request packet. If they want to negotiate about addresses, we
comply. -/
def ipcpNakExtra (go : IpcpOptions) (k : IpcpNak) (citype cilen : UInt8) (body : List UInt8) :
    Option IpcpNak :=
  if citype = ciCompresstype then
    if go.negVj || k.no.negVj || (cilen != cilenVj && cilen != cilenCompress) then none
    else some { k with no := { k.no with negVj := true } }
  else if citype = ciAddrs then
    if (go.negAddr && go.oldAddrs) || k.no.oldAddrs || cilen != cilenAddrs then none
    else some {
      no := { k.no with oldAddrs := true }
      try' := acceptAddrs go { k.try' with negAddr := true, oldAddrs := true }
        (longAt body) (longAt (body.drop 4)) }
  else if citype = ciAddr then
    if go.negAddr || k.no.negAddr || cilen != cilenAddr then none
    else some {
      no := { k.no with negAddr := true }
      try' := acceptAddrs go { k.try' with negAddr := true, oldAddrs := false }
        (longAt body) 0 }
  else none

/-- The last loop of `ipcp_nakci`, with a bound on its rounds: every option it
passes has a length of 4 or more. -/
def ipcpNakRest (go : IpcpOptions) : Nat → IpcpNak → List UInt8 → Option IpcpNak
  | rounds + 1, k, citype :: cilen :: b :: rest =>
      let p := b :: rest
      if p.length + 2 < cilen.toNat then none
      else
        match ipcpNakExtra go k citype cilen (p.take (cilen.toNat - 2)) with
        | none => none
        | some k => ipcpNakRest go rounds k (p.drop (cilen.toNat - 2))
  -- if there is still anything left, this packet is bad
  | _, k, p => if p = [] then some k else none

/-- `ipcp_nakci`. -/
def ipcpNakci (opened : Bool) (o : Ipcp) (p : List UInt8) : Bool × Ipcp :=
  let addr := ipcpNakAddr o.got { no := IpcpOptions.zero, try' := o.got } p
  let vj := ipcpNakVj o.got addr.1 addr.2
  match ipcpNakRest o.got vj.2.length vj.1 vj.2 with
  | none => (false, o)
  | some k => (true, if opened then o else { o with got := k.try' })

/-- The peer rejects our address: `ipcp_rejci` brings the link down. -/
def ipcpRejAddr (go : IpcpOptions) (p : List UInt8) : Bool :=
  (nakci (go.negAddr && go.oldAddrs) (ciTwoAddrs ciAddrs) p).1.isSome ||
  (nakci (go.negAddr && !go.oldAddrs) (ciOneAddr ciAddr) p).1.isSome

/-- `ipcp_rejci`, less the link it may bring down. -/
def ipcpRejci (opened : Bool) (o : Ipcp) (p : List UInt8) : Bool × Ipcp :=
  let go := o.got
  let tried : Option (IpcpOptions × List UInt8) := do
    let (two, p) ←
      rejci (go.negAddr && go.oldAddrs) (ciTwoAddrs ciAddrs) (go.ouraddr, go.hisaddr) p
    let (one, p) ← rejci (go.negAddr && !go.oldAddrs) (ciOneAddr ciAddr) go.ouraddr p
    let (old, p) ← rejci (go.negVj && go.oldVj) ciOldVj go.vjProtocol p
    let (new, p) ←
      rejci (go.negVj && !go.oldVj) ciVj (go.vjProtocol, go.maxslotindex, go.cflag) p
    some ({ go with
      negAddr := go.negAddr && !(two || one)
      negVj := go.negVj && !(old || new) }, p)
  match tried with
  | some (try', []) => (true, if opened then o else { o with got := try' })
  | _ => (false, o)

/-! ## The peer's options -/

/-- What `ipcp_reqci` has come to. -/
structure IpcpReq where
  go : IpcpOptions
  ho : IpcpOptions
  out : List UInt8
  rc : ConfCode
deriving DecidableEq, Repr

/-- An address of the peer's that we have another idea of: a Nak, with our idea
written over it unless we only reject. -/
def nakAddr (rejectIfDisagree disagree : Bool) (ours theirs : UInt32) : ConfCode × List UInt8 :=
  if disagree then (.nak, put32 (if rejectIfDisagree then theirs else ours))
  else (.ack, put32 theirs)

/-- A Nak of either part is a Nak. -/
def ConfCode.both : ConfCode → ConfCode → ConfCode
  | .ack, c => c
  | c, _ => c

/-- The `switch` of `ipcp_reqci`: the verdict on one option, and the option as it
stands in the packet afterwards. -/
def ipcpReqOpt (wo ao : IpcpOptions) (rejectIfDisagree : Bool) (r : IpcpReq)
    (citype cilen : UInt8) (body : List UInt8) : ConfCode × List UInt8 × IpcpReq :=
  if citype = ciAddrs then
    if !ao.negAddr ∨ cilen ≠ cilenAddrs then (.rej, body, r)
    else
      let ciaddr1 := longAt body
      let ciaddr2 := longAt (body.drop 4)
      let one := nakAddr rejectIfDisagree
        (ciaddr1 != wo.hisaddr && (ciaddr1 == 0 || !wo.acceptRemote)) wo.hisaddr ciaddr1
      let two := nakAddr rejectIfDisagree
        (ciaddr2 != wo.ouraddr && (ciaddr2 == 0 || !wo.acceptLocal)) wo.ouraddr ciaddr2
      (one.1.both two.1, one.2 ++ two.2, { r with
        -- accept peer's idea
        go :=
          if two.1 = .ack ∧ ciaddr2 ≠ wo.ouraddr then { r.go with ouraddr := ciaddr2 } else r.go
        ho := { r.ho with
          negAddr := true, oldAddrs := true, hisaddr := ciaddr1, ouraddr := ciaddr2 } })
  else if citype = ciAddr then
    if !ao.negAddr ∨ cilen ≠ cilenAddr then (.rej, body, r)
    else
      let ciaddr1 := longAt body
      let one := nakAddr rejectIfDisagree
        (ciaddr1 != wo.hisaddr && (ciaddr1 == 0 || !wo.acceptRemote)) wo.hisaddr ciaddr1
      (one.1, one.2, { r with ho := { r.ho with negAddr := true, hisaddr := ciaddr1 } })
  else if citype = ciCompresstype then
    let cishort := shortAt body
    if !ao.negVj ∨ (cilen ≠ cilenVj ∧ cilen ≠ cilenCompress) then (.rej, body, r)
    else if ¬ (cishort = ipcpVjComp ∨ (cishort = ipcpVjCompOld ∧ cilen = cilenCompress)) then
      (.rej, body, r)
    else if cilen = cilenVj then
      let maxslotindex := (body.drop 2).headD 0
      let cflag := (body.drop 3).headD 0
      let slotNak := decide (ao.maxslotindex < maxslotindex)
      let cflagNak := cflag != 0 && ao.cflag == 0
      let slot := if slotNak && !rejectIfDisagree then ao.maxslotindex else maxslotindex
      let flag := if cflagNak && !rejectIfDisagree then wo.cflag else cflag
      (if slotNak || cflagNak then .nak else .ack, put16 cishort ++ [slot, flag], { r with
        ho := { r.ho with
          negVj := true, vjProtocol := cishort, maxslotindex := maxslotindex
          cflag := wo.cflag } })
    else
      (.ack, body, { r with
        ho := { r.ho with
          negVj := true, vjProtocol := cishort, oldVj := true
          maxslotindex := maxStates - 1, cflag := 1 } })
  else (.rej, body, r)

/-- What is done with a verdict: the reply is built over the request, and starts
again at its beginning when the answer gets worse. -/
def ipcpReqDispose (rejectIfDisagree : Bool) (orc : ConfCode) (cip : List UInt8) (r : IpcpReq) :
    IpcpReq :=
  match (if orc = .nak ∧ rejectIfDisagree then ConfCode.rej else orc), r.rc with
  | .ack, .ack => { r with out := r.out ++ cip }
  -- a prior one wasn't good: don't send this one
  | .ack, _ => r
  | .nak, .rej => r
  | .nak, .nak => { r with out := r.out ++ cip }
  | .nak, .ack => { r with rc := .nak, out := cip }
  | .rej, .rej => { r with out := r.out ++ cip }
  | .rej, _ => { r with rc := .rej, out := cip }

/-- One round of `ipcp_reqci`. -/
def ipcpReqRound (wo ao : IpcpOptions) (rejectIfDisagree : Bool) (r : IpcpReq) :
    ReqCi → IpcpReq
  | .opt citype cilen body =>
      let v := ipcpReqOpt wo ao rejectIfDisagree r citype cilen body
      ipcpReqDispose rejectIfDisagree v.1 (citype :: cilen :: v.2.1) v.2.2
  | .tail octets => ipcpReqDispose rejectIfDisagree .rej octets r

/-- The end of `ipcp_reqci`: if we want to negotiate their address and they
didn't send their address, we send a Nak with an address option appended. -/
def ipcpReqAsk (wo : IpcpOptions) (rejectIfDisagree : Bool) (r : IpcpReq) :
    IpcpReq × IpcpOptions :=
  let ask := (ciOneAddr ciAddr).put wo.hisaddr
  if r.rc ≠ .rej ∧ !r.ho.negAddr ∧ wo.reqAddr ∧ !rejectIfDisagree then
    if r.rc = .ack then
      -- don't ask again
      ({ r with rc := .nak, out := ask }, { wo with reqAddr := false })
    else ({ r with out := r.out ++ ask }, wo)
  else (r, wo)

/-- `ipcp_reqci`. -/
def ipcpReqci (o : Ipcp) (inp : List UInt8) (rejectIfDisagree : Bool) :
    ConfCode × List UInt8 × Ipcp :=
  let r := (reqCis inp.length inp).foldl (ipcpReqRound o.want o.allow rejectIfDisagree)
    { go := o.got, ho := IpcpOptions.zero, out := [], rc := .ack }
  let a := ipcpReqAsk o.want rejectIfDisagree r
  (a.1.rc, a.1.out, { o with want := a.2, got := a.1.go, his := a.1.ho })

end VxWorks.Ppp
