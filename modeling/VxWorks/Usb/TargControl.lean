import Mathlib.Logic.Function.Basic
import Mathlib.Data.List.Basic
import VxWorks.Lib.Run

/-!
# The default control pipe (usbTargLib.c)

A request of the host comes in three phases, and usbTargLib has an ERP for each:
one to wait for the SETUP packet, one for the data of a response, one for the
status packet. They hand the pipe on to each other in their callbacks, and each has
a flag that says that it is pending. Between two requests the setup ERP waits; that
one of the three is outstanding whenever the application does not have a request in
hand is what keeps the device reachable.

The driver below is anything that takes or refuses an ERP and completes what it took
once, with any result; the application is anything that answers a callback, and
answers a request it has taken over. What goes wrong goes wrong in `initErp`: the
flag is set before the ERP is submitted and stays set when the driver refuses it.
The ERP cannot be used again then, the callbacks do not look whether the next phase
was started, and the setup callback cancels what is flagged as pending, the status
ERP through a pointer that the data ERP may never have been given.
-/

namespace VxWorks.Usb

open VxWorks.Lib

/-- `setupErp`, `dataErp` and `statusErp`. -/
inductive ControlErp where
  | setup | data | status
deriving DecidableEq, Repr

/-- `result` of an ERP: `OK`, `S_usbTcdLib_ERP_CANCELED`, or any other error. -/
inductive ErpResult where
  | ok | canceled | error
deriving DecidableEq, Repr

/-- The callbacks of the application that a request can lead to. -/
inductive TargCallback where
  | featureClear | featureSet | configurationGet | configurationSet | descriptorGet
  | descriptorSet | interfaceGet | interfaceSet | statusGet | addressSet | synchFrameGet
  | vendorSpecific
deriving DecidableEq, Repr

/-- What the driver answers during a step: whether it takes an ERP, and whether it
cancels one, with the result the ERP then completes with. -/
structure TcdAnswers where
  submit : ControlErp → Bool
  cancel : ControlErp → Option ErpResult

/-- What the application answers: `none` where it has no such callback, else whether
the callback returns `OK`. -/
abbrev AppAnswers := TargCallback → Option Bool

/-- The control part of a `TARG_TCD`. -/
structure TargTcd where
  /-- `setupErpPending`, `dataErpPending` and `statusErpPending` -/
  pending : ControlErp → Bool
  /-- the control pipe's list -/
  erps : List ControlErp
  /-- `dataErp.targPtr` is not `NULL` -/
  dataTargPtr : Bool
  erpBeingDeleted : Option ControlErp
  erpDeleted : Bool
  /-- the application has taken over a request and not answered it yet -/
  taken : Bool
  /-- the channel is being torn down -/
  torn : Bool

/-- `initErp` with the `usbTargTransfer` at its end; `false` is `ERROR`. -/
def initErp (tcd : TcdAnswers) (erp : ControlErp) (s : TargTcd) : Bool × TargTcd :=
  if s.pending erp then (false, s)
  else
    let s :=
      { s with
        pending := Function.update s.pending erp true
        dataTargPtr := s.dataTargPtr || erp == .data }
    if tcd.submit erp then (true, { s with erps := erp :: s.erps }) else (false, s)

def initSetupErp (tcd : TcdAnswers) (s : TargTcd) : Bool × TargTcd := initErp tcd .setup s

def initDataErpForResponse (tcd : TcdAnswers) (s : TargTcd) : Bool × TargTcd := initErp tcd .data s

def initStatusErp (tcd : TcdAnswers) (s : TargTcd) : Bool × TargTcd := initErp tcd .status s

/-! ## Requests -/

/-- What the requests are told apart by. -/
structure UsbSetup where
  requestType : UInt8
  request : UInt8
deriving DecidableEq, Repr

/-- A request the application must agree to before the library goes on with it. -/
def afterCallback (app : AppAnswers) (cb : TargCallback) (next : TargTcd → Bool × TargTcd)
    (s : TargTcd) : Bool × TargTcd :=
  match app cb with
  | none => (false, s)
  | some false => (false, s)
  | some true => next s

/-- A request the application takes over. -/
def takeOver (s : TargTcd) : Bool × TargTcd := (true, { s with taken := true })

def requestClearFeature (tcd : TcdAnswers) (app : AppAnswers) : TargTcd → Bool × TargTcd :=
  afterCallback app .featureClear (initStatusErp tcd)

def requestSetFeature (tcd : TcdAnswers) (app : AppAnswers) : TargTcd → Bool × TargTcd :=
  afterCallback app .featureSet (initStatusErp tcd)

def requestGetConfiguration (tcd : TcdAnswers) (app : AppAnswers) : TargTcd → Bool × TargTcd :=
  afterCallback app .configurationGet (initDataErpForResponse tcd)

def requestSetConfiguration (tcd : TcdAnswers) (app : AppAnswers) : TargTcd → Bool × TargTcd :=
  afterCallback app .configurationSet (initStatusErp tcd)

def requestGetDescriptor (tcd : TcdAnswers) (app : AppAnswers) : TargTcd → Bool × TargTcd :=
  afterCallback app .descriptorGet (initDataErpForResponse tcd)

def requestSetDescriptor (app : AppAnswers) : TargTcd → Bool × TargTcd :=
  afterCallback app .descriptorSet takeOver

def requestGetInterface (tcd : TcdAnswers) (app : AppAnswers) : TargTcd → Bool × TargTcd :=
  afterCallback app .interfaceGet (initDataErpForResponse tcd)

def requestSetInterface (tcd : TcdAnswers) (app : AppAnswers) : TargTcd → Bool × TargTcd :=
  afterCallback app .interfaceSet (initStatusErp tcd)

def requestGetStatus (tcd : TcdAnswers) (app : AppAnswers) : TargTcd → Bool × TargTcd :=
  afterCallback app .statusGet (initDataErpForResponse tcd)

/-- The answer of `addressSet` does not matter. -/
def requestSetAddress (tcd : TcdAnswers) : TargTcd → Bool × TargTcd := initStatusErp tcd

def requestGetSynchFrame (tcd : TcdAnswers) (app : AppAnswers) : TargTcd → Bool × TargTcd :=
  afterCallback app .synchFrameGet (initDataErpForResponse tcd)

def requestVendorSpecific (app : AppAnswers) : TargTcd → Bool × TargTcd :=
  afterCallback app .vendorSpecific takeOver

/-- `parseSetupPacket`. -/
def parseSetupPacket (tcd : TcdAnswers) (app : AppAnswers) (actLen : Nat) (setup : UsbSetup)
    (s : TargTcd) : Bool × TargTcd :=
  if actLen ≠ 8 then (false, s)
  else if setup.requestType &&& 0x60 = 0 then
    match setup.request.toNat with
    | 1 => requestClearFeature tcd app s
    | 3 => requestSetFeature tcd app s
    | 8 => requestGetConfiguration tcd app s
    | 9 => requestSetConfiguration tcd app s
    | 6 => requestGetDescriptor tcd app s
    | 7 => requestSetDescriptor app s
    | 10 => requestGetInterface tcd app s
    | 11 => requestSetInterface tcd app s
    | 0 => requestGetStatus tcd app s
    | 5 => requestSetAddress tcd s
    | 12 => requestGetSynchFrame tcd app s
    | _ => requestVendorSpecific app s
  else requestVendorSpecific app s

/-! ## Callbacks of the three ERPs -/

/-- The beginning of `usbTargErpCallback`. -/
def unlinkErp (erp : ControlErp) (s : TargTcd) : TargTcd :=
  { s with
    erps := s.erps.erase erp
    erpDeleted := s.erpDeleted || s.erpBeingDeleted == some erp }

/-- Every callback begins by clearing its flag. -/
def clearPending (erp : ControlErp) (s : TargTcd) : TargTcd :=
  { s with pending := Function.update s.pending erp false }

def responseErpCallback (tcd : TcdAnswers) (result : ErpResult) (s : TargTcd) : TargTcd :=
  let s := clearPending .data s
  if result = .ok then (initStatusErp tcd s).2
  else if result ≠ .canceled then (initSetupErp tcd s).2
  else s

def statusErpCallback (tcd : TcdAnswers) (result : ErpResult) (s : TargTcd) : TargTcd :=
  let s := clearPending .status s
  if result ≠ .canceled then (initSetupErp tcd s).2 else s

/-- `usbTcdErpCancel`: the result an ERP that the driver has completes with, on the
spot, unless the driver refuses. -/
def usbTcdErpCancel (tcd : TcdAnswers) (erp : ControlErp) (s : TargTcd) : Option ErpResult :=
  if erp ∈ s.erps then tcd.cancel erp else none

/-- `cancelErp` of the data or the status ERP, on a pipe that is there. -/
def cancelErp (tcd : TcdAnswers) (erp : ControlErp)
    (callback : TcdAnswers → ErpResult → TargTcd → TargTcd) (s : TargTcd) : TargTcd :=
  let s := { s with erpBeingDeleted := some erp, erpDeleted := false }
  match usbTcdErpCancel tcd erp s with
  | none => s
  | some result => callback tcd result (unlinkErp erp s)

/-- `setupErpCallback`. `none` is a reference through the null pointer. -/
def setupErpCallback (tcd : TcdAnswers) (app : AppAnswers) (result : ErpResult) (actLen : Nat)
    (setup : UsbSetup) (s : TargTcd) : Option TargTcd :=
  let s := clearPending .setup s
  let s := if s.pending .data then cancelErp tcd .data responseErpCallback s else s
  if s.pending .status ∧ s.dataTargPtr = false then none
  else
    let s := if s.pending .status then cancelErp tcd .status statusErpCallback s else s
    if result = .ok then
      let (status, s) := parseSetupPacket tcd app actLen setup s
      some (if status then s else (initSetupErp tcd s).2)
    else if result ≠ .canceled then some (initSetupErp tcd s).2
    else some s

/-- `usbTargErpCallback` for an ERP of the control pipe. -/
def controlErpCallback (tcd : TcdAnswers) (app : AppAnswers) (erp : ControlErp)
    (result : ErpResult) (actLen : Nat) (setup : UsbSetup) (s : TargTcd) : Option TargTcd :=
  let s := unlinkErp erp s
  match erp with
  | .setup => setupErpCallback tcd app result actLen setup s
  | .data => some (responseErpCallback tcd result s)
  | .status => some (statusErpCallback tcd result s)

/-- `usbTargControlResponseSend`: no buffer, or the length of one. -/
def usbTargControlResponseSend (tcd : TcdAnswers) (bfr : Option Nat) (s : TargTcd) : TargTcd :=
  match bfr with
  | none => (initStatusErp tcd s).2
  | some bfrLen => if 255 < bfrLen then s else (initDataErpForResponse tcd s).2

/-! ## The channel -/

inductive ControlEvent where
  /-- the driver completes an ERP it has -/
  | complete (erp : ControlErp) (result : ErpResult) (actLen : Nat) (setup : UsbSetup)
      (tcd : TcdAnswers) (app : AppAnswers)
  /-- the application answers the request it has taken over -/
  | respond (bfr : Option Nat) (tcd : TcdAnswers)
  /-- `destroyPipe` cancels the first ERP of the list -/
  | cancelFirst (actLen : Nat) (setup : UsbSetup) (tcd : TcdAnswers) (app : AppAnswers)

def controlStep (s : Option TargTcd) (e : ControlEvent) : Option TargTcd :=
  s.bind fun s =>
    match e with
    | .complete erp result actLen setup tcd app =>
        if erp ∈ s.erps then controlErpCallback tcd app erp result actLen setup s else some s
    | .respond bfr tcd =>
        if s.taken then some (usbTargControlResponseSend tcd bfr { s with taken := false })
        else some s
    | .cancelFirst actLen setup tcd app =>
        match s.erps with
        | [] => some { s with torn := true }
        | erp :: _ =>
            let s := { s with torn := true, erpBeingDeleted := some erp, erpDeleted := false }
            match usbTcdErpCancel tcd erp s with
            | none => some s
            | some result => controlErpCallback tcd app erp result actLen setup s

/-- The channel as `usbTargTcdAttach` leaves it. -/
def attached : TargTcd where
  pending := fun erp => erp == .setup
  erps := [.setup]
  dataTargPtr := false
  erpBeingDeleted := none
  erpDeleted := false
  taken := false
  torn := false

/-- What keeps the device reachable: the library is running; and when no request is in
the hands of the application, the flags are right, and unless the channel goes down
an ERP is outstanding. -/
def PipeAlive (s : Option TargTcd) : Prop :=
  ∃ t, s = some t ∧ (t.taken = false →
    (∀ erp, t.pending erp = true ↔ erp ∈ t.erps) ∧ (t.torn = false → t.erps ≠ []))

/-! ## A driver that takes what it is given -/

/-- The driver takes every ERP, completes none as canceled unless the channel goes
down, and a response fits its buffer. -/
def KeepsPipe (s : Option TargTcd) : ControlEvent → Prop
  | .complete _ result _ _ tcd _ =>
      (∀ erp, tcd.submit erp = true) ∧ (result = .canceled → ∀ t, s = some t → t.torn = true)
  | .respond bfr tcd => (∀ erp, tcd.submit erp = true) ∧ ∀ bfrLen, bfr = some bfrLen → bfrLen ≤ 255
  | .cancelFirst _ _ tcd _ => ∀ erp, tcd.submit erp = true

/-- Nothing is going on. -/
structure Idle (s : TargTcd) : Prop where
  pending : ∀ erp, s.pending erp = false
  erps : s.erps = []
  taken : s.taken = false

/-- One phase of one request is going on, with its ERP or in the application. -/
structure Busy (torn : Bool) (s : TargTcd) : Prop where
  flags : ∀ erp, s.pending erp = true ↔ erp ∈ s.erps
  phase : (s.taken = true ∧ s.erps = []) ∨ (s.taken = false ∧ ∃ erp, s.erps = [erp])
  torn : s.torn = torn

def ControlInv (s : TargTcd) : Prop := Busy s.torn s ∨ s.torn = true ∧ Idle s

section

variable {tcd : TcdAnswers} {app : AppAnswers} {s t : TargTcd} {erp : ControlErp}

theorem initErp_idle (hs : Idle s) (htcd : ∀ erp, tcd.submit erp = true) (erp : ControlErp) :
    ∃ t, initErp tcd erp s = (true, t) ∧ Busy s.torn t := by
  have hinit : initErp tcd erp s = (true,
      { s with
        pending := Function.update s.pending erp true
        dataTargPtr := s.dataTargPtr || erp == .data
        erps := erp :: s.erps }) := by
    rw [initErp, if_neg (by simp [hs.pending erp])]
    simp only [htcd erp, if_true]
  refine ⟨_, hinit, fun e => ?_, .inr ⟨hs.taken, erp, by simp only [hs.erps]⟩, rfl⟩
  simp only [hs.erps, List.mem_singleton]
  rcases eq_or_ne e erp with rfl | hne
  · simp
  · simp [hne, hs.pending e]

theorem afterCallback_idle {cb : TargCallback} {next : TargTcd → Bool × TargTcd}
    (hnext : ∃ t, next s = (true, t) ∧ Busy s.torn t) :
    (∃ t, afterCallback app cb next s = (true, t) ∧ Busy s.torn t) ∨
      afterCallback app cb next s = (false, s) := by
  unfold afterCallback
  split
  · exact .inr rfl
  · exact .inr rfl
  · exact .inl hnext

theorem takeOver_idle (hs : Idle s) : ∃ t, takeOver s = (true, t) ∧ Busy s.torn t := by
  refine ⟨_, rfl, ?_, .inl ⟨rfl, hs.erps⟩, rfl⟩
  intro e
  simp [hs.pending e, hs.erps]

/-- A request starts one phase, or is refused and leaves everything as it was. -/
theorem parseSetupPacket_idle (hs : Idle s) (htcd : ∀ erp, tcd.submit erp = true) (actLen : Nat)
    (setup : UsbSetup) :
    (∃ t, parseSetupPacket tcd app actLen setup s = (true, t) ∧ Busy s.torn t) ∨
      parseSetupPacket tcd app actLen setup s = (false, s) := by
  have hstatus : ∃ t, initStatusErp tcd s = (true, t) ∧ Busy s.torn t :=
    initErp_idle hs htcd .status
  have hdata : ∃ t, initDataErpForResponse tcd s = (true, t) ∧ Busy s.torn t :=
    initErp_idle hs htcd .data
  have htake := takeOver_idle hs
  unfold parseSetupPacket
  split
  · exact .inr rfl
  · split
    · split
      case h_10 => exact .inl hstatus
      all_goals first
        | exact afterCallback_idle hstatus
        | exact afterCallback_idle hdata
        | exact afterCallback_idle htake
    · exact afterCallback_idle htake

theorem Busy.inv {torn : Bool} (h : Busy torn s) : ControlInv s := .inl ⟨h.flags, h.phase, rfl⟩

/-- The end of every callback: the next phase is started, or the channel goes down. -/
theorem initErp_inv (hs : Idle s) (htcd : ∀ erp, tcd.submit erp = true) (erp : ControlErp) :
    ControlInv (initErp tcd erp s).2 := by
  obtain ⟨t, ht, hbusy⟩ := initErp_idle hs htcd erp
  rw [ht]
  exact hbusy.inv

theorem responseErpCallback_inv (hs : Idle (clearPending .data s))
    (htcd : ∀ erp, tcd.submit erp = true) {result : ErpResult}
    (hresult : result = .canceled → s.torn = true) :
    ControlInv (responseErpCallback tcd result s) := by
  cases result with
  | ok => exact initErp_inv hs htcd .status
  | error => exact initErp_inv hs htcd .setup
  | canceled => exact .inr ⟨hresult rfl, hs⟩

theorem statusErpCallback_inv (hs : Idle (clearPending .status s))
    (htcd : ∀ erp, tcd.submit erp = true) {result : ErpResult}
    (hresult : result = .canceled → s.torn = true) :
    ControlInv (statusErpCallback tcd result s) := by
  cases result with
  | ok => exact initErp_inv hs htcd .setup
  | error => exact initErp_inv hs htcd .setup
  | canceled => exact .inr ⟨hresult rfl, hs⟩

theorem setupErpCallback_inv (hs : Idle (clearPending .setup s))
    (htcd : ∀ erp, tcd.submit erp = true) {result : ErpResult} (actLen : Nat) (setup : UsbSetup)
    (hresult : result = .canceled → s.torn = true) :
    ∃ t, setupErpCallback tcd app result actLen setup s = some t ∧ ControlInv t := by
  -- nothing else is pending, so nothing is canceled
  simp only [setupErpCallback, hs.pending, Bool.false_eq_true, if_false, false_and]
  cases result with
  | ok =>
      rw [if_pos rfl]
      rcases parseSetupPacket_idle hs htcd actLen setup with ⟨t, ht, hbusy⟩ | hfail
      · rw [ht]
        exact ⟨t, rfl, hbusy.inv⟩
      · rw [hfail]
        exact ⟨_, rfl, initErp_inv hs htcd .setup⟩
  | error => exact ⟨_, rfl, initErp_inv hs htcd .setup⟩
  | canceled => exact ⟨_, rfl, .inr ⟨hresult rfl, hs⟩⟩

/-- The one ERP that is outstanding completes. -/
theorem controlErpCallback_inv (hflags : ∀ e, s.pending e = true ↔ e ∈ s.erps)
    (herps : s.erps = [erp]) (htaken : s.taken = false) (htcd : ∀ erp, tcd.submit erp = true)
    {result : ErpResult} (actLen : Nat) (setup : UsbSetup)
    (hresult : result = .canceled → s.torn = true) :
    ∃ t, controlErpCallback tcd app erp result actLen setup s = some t ∧ ControlInv t := by
  have hidle : Idle (clearPending erp (unlinkErp erp s)) := by
    refine ⟨fun e => ?_, by simp [clearPending, unlinkErp, herps], htaken⟩
    rcases eq_or_ne e erp with rfl | hne
    · simp [clearPending]
    · have hnot : ¬ s.pending e = true := by
        rw [hflags, herps]
        simp [hne]
      simpa [clearPending, unlinkErp, hne] using hnot
  cases erp with
  | setup => exact setupErpCallback_inv hidle htcd actLen setup hresult
  | data => exact ⟨_, rfl, responseErpCallback_inv hidle htcd hresult⟩
  | status => exact ⟨_, rfl, statusErpCallback_inv hidle htcd hresult⟩

/-- What an ERP on the list says about the state. -/
theorem ControlInv.of_mem (hinv : ControlInv s) (hmem : erp ∈ s.erps) :
    (∀ e, s.pending e = true ↔ e ∈ s.erps) ∧ s.erps = [erp] ∧ s.taken = false := by
  rcases hinv with hbusy | ⟨-, hidle⟩
  · rcases hbusy.phase with ⟨-, hnil⟩ | ⟨htaken, e, he⟩
    · exact absurd hmem (by simp [hnil])
    · obtain rfl : erp = e := by simpa [he] using hmem
      exact ⟨hbusy.flags, he, htaken⟩
  · exact absurd hmem (by simp [hidle.erps])

/-- What a request in the hands of the application says about it. -/
theorem ControlInv.of_taken (hinv : ControlInv s) (htaken : s.taken = true) :
    Idle { s with taken := false } := by
  rcases hinv with hbusy | ⟨-, hidle⟩
  · rcases hbusy.phase with ⟨-, hnil⟩ | ⟨hfree, -⟩
    · refine ⟨?_, hnil, rfl⟩
      intro e
      have hnot : ¬ s.pending e = true := by
        rw [hbusy.flags, hnil]
        simp
      simpa using hnot
    · exact absurd htaken (by simp [hfree])
  · exact absurd htaken (by simp [hidle.taken])

theorem ControlInv.tear (hinv : ControlInv s) (erp : Option ControlErp) (deleted : Bool) :
    ControlInv { s with torn := true, erpBeingDeleted := erp, erpDeleted := deleted } := by
  rcases hinv with hbusy | ⟨-, hidle⟩
  · exact .inl ⟨hbusy.flags, hbusy.phase, rfl⟩
  · exact .inr ⟨rfl, hidle.pending, hidle.erps, hidle.taken⟩

theorem controlStep_inv (hinv : ControlInv s) {e : ControlEvent} (hkeep : KeepsPipe (some s) e) :
    ∃ t, controlStep (some s) e = some t ∧ ControlInv t := by
  cases e with
  | complete erp result actLen setup tcd app =>
      simp only [controlStep, Option.bind_some]
      split
      · next hmem =>
          obtain ⟨hflags, herps, htaken⟩ := hinv.of_mem hmem
          exact controlErpCallback_inv hflags herps htaken hkeep.1 actLen setup
            fun hc => hkeep.2 hc s rfl
      · exact ⟨s, rfl, hinv⟩
  | respond bfr tcd =>
      simp only [controlStep, Option.bind_some]
      split
      · next htaken =>
          have hidle := hinv.of_taken htaken
          refine ⟨_, rfl, ?_⟩
          cases bfr with
          | none => exact initErp_inv hidle hkeep.1 .status
          | some bfrLen =>
              have hfits := hkeep.2 bfrLen rfl
              rw [usbTargControlResponseSend, if_neg (by omega)]
              exact initErp_inv hidle hkeep.1 .data
      · exact ⟨s, rfl, hinv⟩
  | cancelFirst actLen setup tcd app =>
      simp only [controlStep, Option.bind_some]
      split
      · exact ⟨_, rfl, hinv.tear s.erpBeingDeleted s.erpDeleted⟩
      · next erp rest hcons =>
          have hmem : erp ∈ s.erps := by simp [hcons]
          split
          · exact ⟨_, rfl, hinv.tear (some erp) false⟩
          · obtain ⟨hflags, herps, htaken⟩ := (hinv.tear (some erp) false).of_mem hmem
            exact controlErpCallback_inv hflags herps htaken hkeep actLen setup fun _ => rfl

theorem ControlInv.alive (hinv : ControlInv s) : PipeAlive (some s) := by
  refine ⟨s, rfl, ?_⟩
  intro hfree
  rcases hinv with hbusy | ⟨htorn, hidle⟩
  · refine ⟨hbusy.flags, ?_⟩
    intro _
    rcases hbusy.phase with ⟨htaken, -⟩ | ⟨-, erp, herps⟩
    · exact absurd htaken (by simp [hfree])
    · simp [herps]
  · refine ⟨?_, fun h => absurd htorn (by simp [h])⟩
    intro e
    simp [hidle.pending e, hidle.erps]

end

/-- With a driver that takes what it is given, the control pipe never dies. -/
theorem control_pipe_lives (es : List ControlEvent)
    (hg : Guarded controlStep KeepsPipe (some attached) es) :
    Always controlStep PipeAlive (some attached) es := by
  have hinit : ∃ t, some attached = some t ∧ ControlInv t := by
    refine ⟨attached, rfl, .inl ⟨?_, .inr ⟨rfl, .setup, rfl⟩, rfl⟩⟩
    intro e
    simp [attached]
  have hstep : ∀ s e, (∃ t, s = some t ∧ ControlInv t) → KeepsPipe s e →
      ∃ t, controlStep s e = some t ∧ ControlInv t := by
    rintro s e ⟨t, rfl, hinv⟩ hkeep
    exact controlStep_inv hinv hkeep
  intro pre hpre
  obtain ⟨t, ht, hinv⟩ :=
    always_of_guarded (fun s => ∃ t, s = some t ∧ ControlInv t) hinit hstep hg pre hpre
  rw [ht]
  exact hinv.alive

/-- A driver that refuses the ERPs of a list, and an application with all the callbacks. -/
def refusing (refused : List ControlErp) : TcdAnswers := ⟨fun erp => erp ∉ refused, fun _ => none⟩

def agreeable : AppAnswers := fun _ => some true

/-- A SETUP packet with standard request `request`. -/
def standardRequest (request : UInt8) (refused : List ControlErp) : ControlEvent :=
  .complete .setup .ok 8 ⟨0, request⟩ (refusing refused) agreeable

theorem control_pipe_lives_get_descriptor :
    Always controlStep PipeAlive (some attached)
      [standardRequest 6 [], .complete .data .ok 18 ⟨0, 0⟩ (refusing []) agreeable] :=
  control_pipe_lives _ (guarded_cons ⟨fun _ => by simp [refusing], by simp⟩
    (guarded_cons ⟨fun _ => by simp [refusing], by simp⟩ guarded_nil))

/-- The status ERP is refused once: behind GET_DESCRIPTOR nothing is outstanding any
more; behind SET_ADDRESS the flag stays, and the next SETUP packet meets the null
pointer. -/
theorem control_pipe_dies :
    (¬ Always controlStep PipeAlive (some attached)
      [standardRequest 6 [], .complete .data .ok 18 ⟨0, 0⟩ (refusing [.status]) agreeable]) ∧
    ¬ Always controlStep PipeAlive (some attached)
      [standardRequest 5 [.status], standardRequest 5 []] := by
  constructor
  · intro h
    obtain ⟨t, ht, halive⟩ := h _ (List.prefix_refl _)
    obtain rfl := Option.some.inj ht
    exact (halive rfl).2 rfl rfl
  · intro h
    obtain ⟨t, ht, -⟩ := h _ (List.prefix_refl _)
    cases ht

end VxWorks.Usb
