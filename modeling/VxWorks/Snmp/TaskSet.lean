import Mathlib.Data.BitVec
import Mathlib.Data.Finset.Insert
import Mathlib.Data.List.Basic

/-!
# Setting the task table (snmpTask.c)

A SET request on a row of the task table is tested and then made. `taskEntry_test` looks
at every variable and keeps what the task was before in a buffer of the first one.
`taskEntry_set` collects the values asked for and makes the kernel calls, one variable
after the other; for row 0 it spawns a task. Where a call fails it names
`taskEntryUndo` as the procedure to run and reports the error. What there is to undo
stands in `varSet`, of which bits are set and never cleared; what to go back to stands in
the buffer, which has been freed by then.

The kernel is what the calls are documented to do: a task has a priority, is suspended or
not, and has its options, and a call fails for a task that does not exist. Apart from
that each call may fail or not, as it pleases.
-/

namespace VxWorks.Snmp

def taskTblIndexLen : Nat := 1

def displayStrSz : Nat := 255

def vxUnbreakable : BitVec 32 := 0x0002

/-- All options that may be given to a new task. -/
def vxAllOptions : BitVec 32 := 0x0002 ||| 0x0004 ||| 0x0008 ||| 0x0080 ||| 0x0100 ||| 0x0001 |||
  0x0010

def valTaskReady : Int := 1

def valTaskSuspended : Int := 2

def valTaskDelay : Int := 3

def valTaskDeleted : Int := 4

inductive TskFlag where
  | prior
  | statSus
  | statDel
  | statRdy
  | optn
deriving DecidableEq, Repr

inductive SnmpError where
  | noSuchName
  | genErr
  | notWritable
  | wrongValue
  | resourceUnavailable
  | commitFailed
deriving DecidableEq, Repr

/-- A varbind: the column and the value. The row is the same for all of a request. -/
inductive VarBind where
  | taskName (s : List UInt8)
  | taskPriority (v : Int)
  | taskStatus (v : Int)
  | taskOptions (v : BitVec 32)
  | taskMain (s : List UInt8)
  | taskStackSize (v : Int)
  /-- a column that cannot be written -/
  | readOnly
deriving DecidableEq, Repr

/-! ## The kernel -/

structure Task where
  name : List UInt8
  priority : Int
  suspended : Bool
  /-- what else there is in `td_status` -/
  pended : Nat
  options : BitVec 32
  entry : Nat
  stackSize : Int
deriving DecidableEq, Repr

inductive KernelCall where
  | taskPrioritySet (tid : BitVec 32) (newPriority : Int)
  | taskSuspend (tid : BitVec 32)
  | taskResume (tid : BitVec 32)
  | taskDelete (tid : BitVec 32)
  | taskOptionsSet (tid : BitVec 32)
  | taskSpawn (tid : BitVec 32)
deriving DecidableEq, Repr

/-- The tasks, the one the agent is, and on record the calls that have succeeded. -/
structure Kernel where
  tasks : BitVec 32 → Option Task
  self : BitVec 32
  calls : List KernelCall

/-- The task a call is about: 0 is the calling task. -/
def Kernel.tid (k : Kernel) (tid : BitVec 32) : BitVec 32 := if tid = 0 then k.self else tid

/-- A call that changes a task that exists. -/
def Kernel.change (k : Kernel) (tid : BitVec 32) (call : KernelCall) (f : Task → Option Task) :
    Option Kernel :=
  (k.tasks (k.tid tid)).map fun task =>
    { k with
      tasks := fun id => if id = k.tid tid then f task else k.tasks id
      calls := k.calls ++ [call] }

def Kernel.taskPrioritySet (k : Kernel) (tid : BitVec 32) (newPriority : Int) : Option Kernel :=
  if newPriority < 0 ∨ 255 < newPriority then none
  else
    k.change tid (.taskPrioritySet tid newPriority) fun task =>
      some { task with priority := newPriority }

def Kernel.taskSuspend (k : Kernel) (tid : BitVec 32) : Option Kernel :=
  k.change tid (.taskSuspend tid) fun task => some { task with suspended := true }

def Kernel.taskResume (k : Kernel) (tid : BitVec 32) : Option Kernel :=
  k.change tid (.taskResume tid) fun task => some { task with suspended := false }

def Kernel.taskDelete (k : Kernel) (tid : BitVec 32) : Option Kernel :=
  k.change tid (.taskDelete tid) fun _ => none

def Kernel.taskOptionsGet (k : Kernel) (tid : BitVec 32) : Option (BitVec 32) :=
  (k.tasks (k.tid tid)).map Task.options

def Kernel.taskOptionsSet (k : Kernel) (tid mask newOptions : BitVec 32) : Option Kernel :=
  k.change tid (.taskOptionsSet tid) fun task =>
    some { task with options := task.options &&& ~~~mask ||| newOptions &&& mask }

/-- The symbol table. -/
structure SymTbl where
  findByCName : List UInt8 → Option Nat
  findByValue : Nat → Option (List UInt8)

/-! ## The agent -/

/-- `STRUCT_taskEntry`, as far as the routines use it. -/
structure TaskEntry where
  taskId : BitVec 32
  taskName : List UInt8
  taskPriority : Int
  taskStatus : Int
  taskOptions : BitVec 32
  taskMain : List UInt8
  taskStackSize : Int
deriving DecidableEq, Repr

/-- A structure that has been cleared. -/
def TaskEntry.bzero : TaskEntry where
  taskId := 0
  taskName := List.replicate displayStrSz 0
  taskPriority := 0
  taskStatus := 0
  taskOptions := 0
  taskMain := List.replicate displayStrSz 0
  taskStackSize := 0

/-- The string in an array. -/
def cString (s : List UInt8) : List UInt8 := s.takeWhile (· ≠ 0)

def memcpy (dst src : List UInt8) : List UInt8 := src ++ dst.drop src.length

def strcpy (dst src : List UInt8) : List UInt8 := memcpy dst (src ++ [0])

/-- The kernel and the static variables of the agent. -/
structure Agent where
  kernel : Kernel
  varSet : Finset TskFlag
  data : TaskEntry

/-- `td_status` as a `taskStatus`; a status that is none of these leaves it as it is. -/
def taskStatusOf (suspended : Bool) (pended : Nat) (taskStatus : Int) : Int :=
  match suspended, pended with
  | false, 0 => valTaskReady
  | true, 0 => valTaskSuspended
  | false, 2 => valTaskDelay
  | false, 4 => valTaskDelay
  | false, 8 => valTaskDeleted
  | _, _ => taskStatus

def taskInfoFill (sym : SymTbl) (data : TaskEntry) (taskId : BitVec 32) (task : Task) :
    TaskEntry where
  taskId := taskId
  taskName := strcpy data.taskName task.name
  taskPriority := task.priority
  taskStatus := taskStatusOf task.suspended task.pended data.taskStatus
  taskOptions := task.options
  taskMain :=
    match sym.findByValue task.entry with
    | some name => strcpy data.taskMain name
    | none => data.taskMain
  taskStackSize := task.stackSize

/-- What is wrong with a variable. -/
def testVar (taskid : BitVec 32) : VarBind → Option SnmpError
  | .taskName _ => if taskid ≠ 0 then some .notWritable else none
  | .taskPriority v => if v < 0 ∨ 255 < v then some .wrongValue else none
  | .taskStatus v =>
      if taskid = 0 then some .genErr
      else if v = valTaskReady ∨ v = valTaskSuspended ∨ v = valTaskDelay ∨ v = valTaskDeleted then
        none
      else some .wrongValue
  | .taskOptions v =>
      if taskid = 0 ∧ v &&& vxAllOptions = 0 then some .genErr
      else if v ≠ vxUnbreakable then some .wrongValue
      else none
  | .taskMain _ => if taskid ≠ 0 then some .genErr else none
  | .taskStackSize _ => if taskid ≠ 0 then some .genErr else none
  | .readOnly => some .genErr

/-- `taskEntry_test`, with the buffer it leaves to the first varbind; `memory` is whether
there is any for the buffer. -/
def taskEntryTest (sym : SymTbl) (a : Agent) (memory : Bool) (compc : Nat) (compl : BitVec 32)
    (vbs : List VarBind) : Agent × Except SnmpError TaskEntry :=
  if memory = false then (a, .error .resourceUnavailable)
  else if compc ≠ taskTblIndexLen then (a, .error .noSuchName)
  else if compl = 0 then
    (a, match vbs.findSome? (testVar compl) with
      | some errorStatus => .error errorStatus
      | none => .ok { TaskEntry.bzero with taskId := compl })
  else
    match a.kernel.tasks compl with
    | none => (a, .error .noSuchName)
    | some task =>
        let data := taskInfoFill sym a.data compl task
        ({ a with data := data }, match vbs.findSome? (testVar compl) with
          | some errorStatus => .error errorStatus
          | none => .ok data)

inductive Call where
  | taskPrioritySet
  | taskSuspend
  | taskResume
  | taskDelete
  | taskOptionsGet
  | taskOptionsSet
deriving DecidableEq, Repr

/-- What a request meets with: the calls that fail, by the number of the varbind they are
made for; the task `taskSpawn` makes, if it makes one; what stands on the stack where
`taskSet` has its string; and what the buffer of the first varbind holds when it has been
freed. -/
structure Env where
  fails : Nat → Call → Bool
  taskSpawn : Option (BitVec 32)
  tstring : List UInt8
  vbPrivFreed : TaskEntry → TaskEntry

/-- The result of a call, which may fail. -/
def unlessFails (failed : Bool) {α : Type} (result : Option α) : Option α :=
  if failed then none else result

/-- `optionsSet`. -/
def Kernel.optionsSet (k : Kernel) (getFails setFails : Bool) (taskId : BitVec 32) :
    Option Kernel :=
  match unlessFails getFails (k.taskOptionsGet taskId) with
  | none => none
  | some toptions =>
      if toptions &&& vxUnbreakable = 0 then
        unlessFails setFails (k.taskOptionsSet taskId (~~~toptions) (toptions ||| vxUnbreakable))
      else
        unlessFails setFails (k.taskOptionsSet taskId vxUnbreakable (toptions &&& ~~~vxUnbreakable))

/-- The values asked for, up to one more varbind; none when a string is longer than the
array for it. -/
def gatherVar (newVals : TaskEntry) : VarBind → Option TaskEntry
  | .taskName s =>
      if s.length ≤ displayStrSz then
        some { newVals with taskName := memcpy newVals.taskName s }
      else none
  | .taskPriority v => some { newVals with taskPriority := v }
  | .taskStatus v => some { newVals with taskStatus := v }
  | .taskOptions v => some { newVals with taskOptions := v }
  | .taskMain s =>
      if s.length ≤ displayStrSz then
        some { newVals with taskMain := memcpy newVals.taskMain s }
      else none
  | .taskStackSize v => some { newVals with taskStackSize := v }
  | .readOnly => some newVals

def gather (newVals : TaskEntry) (vbs : List VarBind) : Option TaskEntry :=
  vbs.foldlM gatherVar newVals

/-- `taskSet`, with the error it returns; none when a string runs over its array. -/
def taskSet (sym : SymTbl) (env : Env) (k : Kernel) (pData : TaskEntry) :
    Option (Option SnmpError × Kernel) :=
  -- `strcat` appends to what stands in `tstring`, which nothing has been put into
  let tstring := cString env.tstring ++ cString pData.taskMain
  if 0 ∉ pData.taskMain ∨ displayStrSz ≤ tstring.length then none
  else
    match sym.findByCName tstring with
    | none => some (some .noSuchName, k)
    | some entry =>
        if 0 ∉ pData.taskName then none
        else
          match env.taskSpawn with
          | none => some (some .commitFailed, k)
          | some tid =>
              let task : Task :=
                { name := cString pData.taskName
                  priority := pData.taskPriority
                  suspended := false
                  pended := 0
                  options := pData.taskOptions
                  entry := entry
                  stackSize := pData.taskStackSize }
              some (none,
                { k with
                  tasks := fun id => if id = tid then some task else k.tasks id
                  calls := k.calls ++ [.taskSpawn tid] })

/-- One varbind of the second loop of `taskEntry_set`; none for `COMMIT_FAILED`. -/
def setVar (env : Env) (newVals : TaskEntry) (a : Agent) (i : Nat) : VarBind → Option Agent
  | .taskPriority _ =>
      (unlessFails (env.fails i .taskPrioritySet)
          (a.kernel.taskPrioritySet newVals.taskId newVals.taskPriority)).map fun k =>
        { a with kernel := k, varSet := insert .prior a.varSet }
  | .taskStatus _ =>
      let suspend :=
        if newVals.taskStatus = valTaskSuspended then
          unlessFails (env.fails i .taskSuspend) (a.kernel.taskSuspend newVals.taskId)
        else none
      let resume :=
        if newVals.taskStatus = valTaskReady then
          unlessFails (env.fails i .taskResume) (a.kernel.taskResume newVals.taskId)
        else none
      let delete :=
        if newVals.taskStatus = valTaskDeleted then
          unlessFails (env.fails i .taskDelete) (a.kernel.taskDelete newVals.taskId)
        else none
      match suspend, resume, delete with
      | some k, _, _ => some { a with kernel := k, varSet := insert .statSus a.varSet }
      | none, some k, _ => some { a with kernel := k, varSet := insert .statRdy a.varSet }
      | none, none, some k => some { a with kernel := k, varSet := insert .statDel a.varSet }
      | none, none, none => none
  | .taskOptions _ =>
      (a.kernel.optionsSet (env.fails i .taskOptionsGet) (env.fails i .taskOptionsSet)
          newVals.taskId).map fun k =>
        { a with kernel := k, varSet := insert .optn a.varSet }
  | _ => none

/-- The second loop, with whether it came to its end. -/
def setLoop (env : Env) (newVals : TaskEntry) : Agent → Nat → List VarBind → Agent × Bool
  | a, _, [] => (a, true)
  | a, i, vb :: vbs =>
      match setVar env newVals a i vb with
      | some a' => setLoop env newVals a' (i + 1) vbs
      | none => (a, false)

/-- `taskEntry_set`, with whether it reports success; none when a string runs over its
array. An error it reports is always `COMMIT_FAILED`. -/
def taskEntrySet (sym : SymTbl) (env : Env) (a : Agent) (vbPriv : TaskEntry)
    (vbs : List VarBind) : Option (Agent × Bool) :=
  (gather { TaskEntry.bzero with taskId := vbPriv.taskId } vbs).bind fun newVals =>
    if newVals.taskId = 0 then
      (taskSet sym env a.kernel newVals).map fun r =>
        ({ a with kernel := r.2 }, r.1 ≠ some .commitFailed)
    else some (setLoop env newVals a 0 vbs)

/-- One of the calls of `taskEntryUndo`, if it is to be made, with whether `errorStatus` is
still 0. -/
def undoCall (r : Kernel × Bool) (made : Prop) [Decidable made]
    (call : Kernel → Option Kernel) : Kernel × Bool :=
  if made then
    match call r.1 with
    | some k => (k, r.2)
    | none => (r.1, false)
  else r

/-- `taskEntryUndo`, with whether it reports success, when no call fails that can succeed. -/
def taskEntryUndo (a : Agent) (vbPriv : TaskEntry) : Kernel × Bool :=
  let r := (a.kernel, true)
  let r := undoCall r (.prior ∈ a.varSet) fun k =>
    k.taskPrioritySet vbPriv.taskId vbPriv.taskPriority
  let r := undoCall r (.statRdy ∈ a.varSet) fun k => k.taskSuspend vbPriv.taskId
  let r := undoCall r (.statSus ∈ a.varSet) fun k => k.taskResume vbPriv.taskId
  undoCall r (.optn ∈ a.varSet) fun k => k.optionsSet false false vbPriv.taskId

/-! ## Requests -/

/-- A request on one row. -/
structure Request where
  memory : Bool
  compc : Nat
  compl : BitVec 32
  vbs : List VarBind
  env : Env

/-- A request is tested, made, and undone where `taskEntry_set` reports an error; or
anything happens to the tasks that the agent has no part in. -/
inductive SetEvent where
  | request (req : Request)
  | other (kernel : Kernel)

def Agent.step (sym : SymTbl) (a : Agent) : SetEvent → Agent
  | .request req =>
      match taskEntryTest sym a req.memory req.compc req.compl req.vbs with
      | (a, .error _) => a
      | (a, .ok vbPriv) =>
          match taskEntrySet sym req.env a vbPriv req.vbs with
          | none => a
          | some (a, true) => a
          | some (a, false) =>
              { a with kernel := (taskEntryUndo a (req.env.vbPrivFreed vbPriv)).1 }
  | .other kernel => { a with kernel := kernel }

end VxWorks.Snmp
