import Mathlib.Data.List.Basic
import Mathlib.Data.List.Nodup
import Mathlib.Logic.Function.Basic
import VxWorks.Lib.Run

/-!
# Pipes and endpoints (usbTargLib.c)

A target channel exposes the endpoints of its controller, and a pipe takes one of
them, or two for a control pipe: the OUT and the IN endpoint of one number. The
driver marks an endpoint as used, with its direction and number, when it is assigned,
and clears the mark when it is released. No endpoint may serve two pipes, and no
number may be used twice in one direction.

`usbTargPipeCreate` checks both before it assigns anything, and puts back what it has
taken when something fails later. There are two holes. The number is looked for in
the direction of the first endpoint only, which for a control pipe is OUT. And the
result of the checks of the channel handle and the result pointer is overwritten by
the check of the endpoints, which are those of a `pTcd` that was never set.

A handle stands for a channel or a pipe as in usbHandleLib; memory, handles and the
driver may refuse whenever they are asked, and the answers come with the call. A call
that reads through a pointer that was never set, or that waits for a driver that will
not cancel a transfer, has no state after it.
-/

namespace VxWorks.Usb

open VxWorks.Lib

def usbXfrtypeControl : UInt16 := 1

def usbXfrtypeIsoch : UInt16 := 2

def usbXfrtypeInterrupt : UInt16 := 3

def usbXfrtypeBulk : UInt16 := 4

def usbDirOut : UInt16 := 1

def usbDirIn : UInt16 := 2

def usbDirInout : UInt16 := 3

def usbMaxEndpointNum : UInt16 := 15

/-- What is read of a `USB_TARG_ENDPOINT_INFO`: its id, the capabilities among its flags,
and the direction and number it is in use with. -/
structure EndpointInfo where
  endpointId : UInt16
  inOk : Bool
  outOk : Bool
  ctrlOk : Bool
  bulkOk : Bool
  intOk : Bool
  isochOk : Bool
  inUse : Option (UInt16 × UInt16)
deriving DecidableEq, Repr

/-- A pipe, with the places of its endpoints in the array of the channel. -/
structure Pipe where
  pipeHandle : Nat
  endpoint : Option Nat
  endpoint2 : Option Nat
  /-- it has ERPs outstanding -/
  busy : Bool
deriving DecidableEq, Repr

structure Channel where
  targChannel : Nat
  endpoints : List EndpointInfo
  pipes : List Pipe

/-- What a handle stands for: a channel, or a pipe of a channel. -/
inductive HandleTarget where
  | tcd (channel : Nat)
  | pipe (channel : Nat)
deriving DecidableEq, Repr

structure Targ where
  channels : Nat → Option Channel
  handles : Nat → Option HandleTarget

inductive TargStatus where
  | ok | badHandle | badParam | endpointInUse | outOfMemory | outOfResources | tcdFault | appFault
  | error
deriving DecidableEq, Repr

/-! ## Endpoints -/

/-- `findEndpointById`. -/
def findEndpointById (ch : Channel) (endpointId : UInt16) : Option Nat :=
  ch.endpoints.findIdx? (fun e => e.endpointId == endpointId)

/-- The tests of `validateEndpoint` on the endpoint it has found. -/
def EndpointInfo.supports (e : EndpointInfo) (transferType direction : UInt16) : TargStatus :=
  if e.inUse ≠ none then .endpointInUse
  else if direction = usbDirIn ∧ e.inOk = false then .badParam
  else if direction = usbDirOut ∧ e.outOk = false then .badParam
  else if direction ≠ usbDirIn ∧ direction ≠ usbDirOut then .badParam
  else if transferType = usbXfrtypeControl then if e.ctrlOk then .ok else .badParam
  else if transferType = usbXfrtypeBulk then if e.bulkOk then .ok else .badParam
  else if transferType = usbXfrtypeInterrupt then if e.intOk then .ok else .badParam
  else if transferType = usbXfrtypeIsoch then if e.isochOk then .ok else .badParam
  else .badParam

/-- `validateEndpoint`, with the place of the endpoint. -/
def validateEndpoint (ch : Channel) (endpointId transferType direction : UInt16) :
    Except TargStatus Nat :=
  match findEndpointById ch endpointId with
  | none => .error .badParam
  | some i =>
      match ch.endpoints[i]? with
      | none => .error .badParam
      | some e =>
          match e.supports transferType direction with
          | .ok => .ok i
          | status => .error status

/-- The direction and number an endpoint is in use with. -/
def Channel.use (ch : Channel) (i : Nat) : Option (UInt16 × UInt16) :=
  (ch.endpoints[i]?).bind EndpointInfo.inUse

/-- The driver marks an endpoint, or clears the mark. -/
def Channel.setUse (ch : Channel) (i : Nat) (use : Option (UInt16 × UInt16)) : Channel :=
  { ch with endpoints := ch.endpoints.modify i fun e => { e with inUse := use } }

/-- `usbTcdEndpointRelease`, where there is an endpoint. -/
def Channel.release (ch : Channel) : Option Nat → Channel
  | none => ch
  | some i => ch.setUse i none

/-! ## Pipes -/

def Targ.setChannel (s : Targ) (c : Nat) (ch : Option Channel) : Targ :=
  { s with channels := Function.update s.channels c ch }

def Targ.setHandle (s : Targ) (h : Nat) (target : Option HandleTarget) : Targ :=
  { s with handles := Function.update s.handles h target }

/-- `destroyPipe`, for a pipe of channel `c`. With ERPs outstanding it waits until the
driver cancels them. -/
def destroyPipe (cancel : Bool) (c : Nat) (ch : Channel) (pipe : Pipe) (s : Targ) : Option Targ :=
  if pipe.busy ∧ cancel = false then none
  else
    let ch := { ch with pipes := ch.pipes.erase pipe }
    let ch := (ch.release pipe.endpoint).release pipe.endpoint2
    some ((s.setChannel c (some ch)).setHandle pipe.pipeHandle none)

structure PipeArgs where
  targChannel : Nat
  endpointId : UInt16
  endpointId2 : UInt16
  endpointNum : UInt16
  transferType : UInt16
  direction : UInt16
  /-- `pPipeHandle` is not `NULL` -/
  pPipeHandle : Bool
deriving DecidableEq, Repr

/-- What the call meets. -/
structure PipeAnswers where
  /-- the channel `pTcd` happens to point to before it is set, if it points to one -/
  stack : Option Nat
  calloc : Bool
  /-- the number a new handle gets -/
  handle : Option Nat
  assign : Bool
  assign2 : Bool

/-- `usbHandleCreate`: a number that is not 0 and not in use. -/
def Targ.newHandle (s : Targ) (handle : Option Nat) : Option Nat :=
  handle.filter (fun h => h ≠ 0 ∧ s.handles h = none)

/-- `pTcd` behind `validateTarg`. -/
def Targ.pTcd (s : Targ) (args : PipeArgs) (stack : Option Nat) : Option Nat :=
  if args.pPipeHandle = false then stack
  else
    match s.handles args.targChannel with
    | some (.tcd c) => some c
    | _ => stack

/-- The direction the first endpoint is assigned with. -/
def PipeArgs.firstDirection (args : PipeArgs) : UInt16 :=
  if args.transferType = usbXfrtypeControl then usbDirOut else args.direction

/-- The check of the one or two endpoints. -/
def validateEndpoints (ch : Channel) (args : PipeArgs) : Except TargStatus (Nat × Option Nat) :=
  if args.transferType = usbXfrtypeControl then do
    let i ← validateEndpoint ch args.endpointId usbXfrtypeControl usbDirOut
    let j ← validateEndpoint ch args.endpointId2 usbXfrtypeControl usbDirIn
    pure (i, some j)
  else do
    let i ← validateEndpoint ch args.endpointId args.transferType args.direction
    pure (i, none)

/-- The check of the number, in the direction of the first endpoint. -/
def validateNumber (ch : Channel) (args : PipeArgs) : Except TargStatus Unit :=
  if usbMaxEndpointNum < args.endpointNum then .error .badParam
  else if ∃ e ∈ ch.endpoints, e.inUse = some (args.firstDirection, args.endpointNum) then
    .error .endpointInUse
  else .ok ()

def validateArgs (ch : Channel) (args : PipeArgs) : Except TargStatus (Nat × Option Nat) := do
  let endpoints ← validateEndpoints ch args
  validateNumber ch args
  pure endpoints

/-- `usbTargPipeCreate` from the first `usbTcdEndpointAssign` on, for a pipe with a handle. -/
def assignEndpoints (args : PipeArgs) (env : PipeAnswers) (c : Nat) (ch : Channel)
    (i : Nat) (j : Option Nat) (h : Nat) (s : Targ) : Option (TargStatus × Option Nat × Targ) :=
  if env.assign = false then do
    let s ← destroyPipe true c ch ⟨h, none, none, false⟩ s
    some (.tcdFault, none, s)
  else
    let ch := ch.setUse i (some (args.firstDirection, args.endpointNum))
    match j with
    | none =>
        let ch := { ch with pipes := ch.pipes ++ [⟨h, some i, none, false⟩] }
        if args.pPipeHandle = false then none
        else some (.ok, some h, s.setChannel c (some ch))
    | some j =>
        if env.assign2 = false then do
          let s ← destroyPipe true c ch ⟨h, some i, none, false⟩ s
          some (.tcdFault, none, s)
        else
          let ch := ch.setUse j (some (usbDirIn, args.endpointNum))
          let ch := { ch with pipes := ch.pipes ++ [⟨h, some i, some j, false⟩] }
          if args.pPipeHandle = false then none
          else some (.ok, some h, s.setChannel c (some ch))

/-- `usbTargPipeCreate`, with the handle it stores. -/
def usbTargPipeCreate (args : PipeArgs) (env : PipeAnswers) (s : Targ) :
    Option (TargStatus × Option Nat × Targ) := do
  let c ← s.pTcd args env.stack
  let ch ← s.channels c
  match validateArgs ch args with
  | .error status => some (status, none, s)
  | .ok (i, j) =>
      if env.calloc = false then some (.outOfMemory, none, s)
      else
        match s.newHandle env.handle with
        | none => do
            let s ← destroyPipe true c ch ⟨0, none, none, false⟩ s
            some (.outOfResources, none, s)
        | some h => assignEndpoints args env c ch i j h (s.setHandle h (some (.pipe c)))

/-- `usbTargPipeDestroy`. -/
def usbTargPipeDestroy (pipeHandle : Nat) (cancel : Bool) (s : Targ) :
    Option (TargStatus × Targ) :=
  match s.handles pipeHandle with
  | some (.pipe c) => do
      let ch ← s.channels c
      let pipe ← ch.pipes.find? (fun p => p.pipeHandle == pipeHandle)
      let s ← destroyPipe cancel c ch pipe s
      some (.ok, s)
  | _ => some (.badHandle, s)

/-! ## Channels -/

/-- The loop of `destroyTcd` over the pipes, each the first one left. -/
def destroyPipes (cancel : Bool) (c : Nat) : List Pipe → Targ → Option Targ
  | [], s => some s
  | pipe :: pipes, s => do
      let ch ← s.channels c
      let s ← destroyPipe cancel c ch pipe s
      destroyPipes cancel c pipes s

/-- `destroyTcd`, for a channel whose driver is known. -/
def destroyTcd (cancel : Bool) (c : Nat) (s : Targ) : Option Targ := do
  let ch ← s.channels c
  let s ← destroyPipes cancel c ch.pipes s
  some ((s.setHandle ch.targChannel none).setChannel c none)

/-- What `usbTargTcdAttach` meets. -/
structure AttachAnswers where
  /-- no pointer among the arguments is `NULL` -/
  args : Bool
  /-- the memory for the channel -/
  calloc : Option Nat
  handle : Option Nat
  /-- `usbTcdAttach`, with the endpoints the driver exposes -/
  attach : Option (List EndpointInfo)
  pipe : PipeAnswers
  /-- the driver takes the setup ERP -/
  submit : Bool
  /-- the application takes the channel -/
  app : Bool
  cancel : Bool

def Targ.newChannel (s : Targ) (calloc : Option Nat) : Option Nat :=
  calloc.filter (fun c => (s.channels c).isNone)

/-- An ERP is outstanding on the control pipe. -/
def Pipe.listen (controlPipe : Nat) (p : Pipe) : Pipe :=
  { p with busy := p.busy || p.pipeHandle == controlPipe }

/-- `initSetupErp`, where the driver takes the ERP. -/
def Targ.listen (s : Targ) (c : Nat) (ch : Channel) (controlPipe : Nat) : Targ :=
  s.setChannel c (some { ch with pipes := ch.pipes.map (Pipe.listen controlPipe) })

/-- The default control pipe of a channel. -/
def controlPipeArgs (targChannel : Nat) (out inn : EndpointInfo) : PipeArgs :=
  ⟨targChannel, out.endpointId, inn.endpointId, 0, usbXfrtypeControl, usbDirInout, true⟩

/-- `usbTargTcdAttach` behind `usbTcdAttach`, with the endpoints the driver exposes. -/
def attachControlPipe (env : AttachAnswers) (c h : Nat) (endpoints : List EndpointInfo) (s : Targ) :
    Option (TargStatus × Targ) :=
  match endpoints with
  | out :: inn :: _ => do
      let (status, controlPipe, s) ← usbTargPipeCreate (controlPipeArgs h out inn) env.pipe s
      match controlPipe with
      | none => some (status, s)
      | some controlPipe =>
          if env.submit = false then some (.tcdFault, s)
          else do
            let ch ← s.channels c
            let s := s.listen c ch controlPipe
            if env.app = false then some (.appFault, s)
            else some (.ok, s)
  | _ => some (.tcdFault, s)

/-- The channel behind `usbTcdAttach`, with no endpoint in use. -/
def exposedChannel (env : AttachAnswers) (h : Nat) : Channel :=
  ⟨h, (env.attach.getD []).map fun e => { e with inUse := none }, []⟩

/-- `usbTargTcdAttach`, with the handle it stores. Without a handle, `destroyTcd` calls
the driver through `tcdExecFunc`, which `usbTcdAttach` has not set yet. -/
def usbTargTcdAttach (env : AttachAnswers) (s : Targ) : Option (TargStatus × Option Nat × Targ) :=
  if env.args = false then some (.badParam, none, s)
  else
    match s.newChannel env.calloc with
    | none => some (.outOfMemory, none, s)
    | some c =>
        match s.newHandle env.handle with
        | none => none
        | some h => do
            let ch := exposedChannel env h
            let s := (s.setHandle h (some (.tcd c))).setChannel c (some ch)
            let (status, s) ← attachControlPipe env c h ch.endpoints s
            if status = .ok then some (.ok, some h, s)
            else do
              let s ← destroyTcd env.cancel c s
              some (status, none, s)

/-- `usbTargTcdDetach`. -/
def usbTargTcdDetach (targChannel : Nat) (cancel : Bool) (s : Targ) : Option (TargStatus × Targ) :=
  match s.handles targChannel with
  | some (.tcd c) => do
      let s ← destroyTcd cancel c s
      some (.ok, s)
  | _ => some (.badHandle, s)

inductive TargOp where
  | attach (env : AttachAnswers)
  | create (args : PipeArgs) (env : PipeAnswers)
  | destroy (pipeHandle : Nat) (cancel : Bool)
  | detach (targChannel : Nat) (cancel : Bool)

def targStep (s : Option Targ) (op : TargOp) : Option Targ := do
  let s ← s
  match op with
  | .attach env => return (← usbTargTcdAttach env s).2.2
  | .create args env => return (← usbTargPipeCreate args env s).2.2
  | .destroy pipeHandle cancel => return (← usbTargPipeDestroy pipeHandle cancel s).2
  | .detach targChannel cancel => return (← usbTargTcdDetach targChannel cancel s).2

/-- Before the first channel. -/
def Targ.initial : Targ := ⟨fun _ => none, fun _ => none⟩

/-- The pipe has the endpoint. -/
def Pipe.owns (p : Pipe) (i : Nat) : Bool := p.endpoint == some i || p.endpoint2 == some i

/-- Every endpoint in use belongs to exactly one linked pipe, and no two of them have
the same direction and number. -/
structure Channel.Exclusive (ch : Channel) : Prop where
  owner : ∀ i u, ch.use i = some u → ch.pipes.countP (·.owns i) = 1
  distinct : ∀ i j u, ch.use i = some u → ch.use j = some u → i = j

def Exclusive (s : Option Targ) : Prop :=
  ∃ t, s = some t ∧ ∀ c ch, t.channels c = some ch → ch.Exclusive

/-- The call returns, and when it fails everything is as it was. -/
def CreateLeaves (s : Option Targ) : TargOp → Prop
  | .create args env =>
      ∃ t status h t', s = some t ∧ usbTargPipeCreate args env t = some (status, h, t') ∧
        (status ≠ .ok → t' = t)
  | _ => True

end VxWorks.Usb
