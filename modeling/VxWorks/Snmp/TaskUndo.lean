import Mathlib.Algebra.Ring.Nat
import Mathlib.Data.Finset.Dedup
import Mathlib.Logic.Function.Basic
import VxWorks.Snmp.TaskSet

/-!
# What a SET request makes and what is undone

Everything a request does to a task is one of five changes, and each change has a bit in
`varSet`. So a request is known by the list of the changes it made before it failed:
`setLoop_eq` gives the task, the calls and the bits from that list. `taskEntryUndo` is
another change of one task, the one the buffer names, chosen by the bits
(`taskEntryUndo_tasks`). The two meet in `undo_right_iff`, which compares them one field
at a time.

The bits stay from one request to the next. `mem_varSet_run` tells them from the history:
a bit is set when some request up to now has made the change.
-/

namespace VxWorks.Snmp

/-! ## Changes of a task -/

/-- What a change does to the task, none if the task is gone. -/
def TskFlag.apply (priority : Int) : TskFlag → Task → Option Task
  | .prior, task => some { task with priority := priority }
  | .statSus, task => some { task with suspended := true }
  | .statDel, _ => none
  | .statRdy, task => some { task with suspended := false }
  | .optn, task => some { task with options := task.options ^^^ vxUnbreakable }

def TskFlag.call (taskId : BitVec 32) (priority : Int) : TskFlag → KernelCall
  | .prior => .taskPrioritySet taskId priority
  | .statSus => .taskSuspend taskId
  | .statDel => .taskDelete taskId
  | .statRdy => .taskResume taskId
  | .optn => .taskOptionsSet taskId

/-- The task after a list of changes. -/
def applyAll (priority : Int) : List TskFlag → Task → Option Task
  | [], task => some task
  | f :: fs, task => (f.apply priority task).bind (applyAll priority fs)

/-- The kernel after a list of changes of one task. -/
def Kernel.changed (k : Kernel) (taskId : BitVec 32) (priority : Int) (fs : List TskFlag) :
    Kernel :=
  { k with
    tasks := Function.update k.tasks taskId ((k.tasks taskId).bind (applyAll priority fs))
    calls := k.calls ++ fs.map (TskFlag.call taskId priority) }

theorem changed_nil (k : Kernel) (taskId : BitVec 32) (priority : Int) :
    k.changed taskId priority [] = k := by
  have hbind : (k.tasks taskId).bind (applyAll priority []) = k.tasks taskId := by
    cases k.tasks taskId <;> rfl
  rw [Kernel.changed, hbind, Function.update_eq_self, List.map_nil, List.append_nil]

theorem changed_changed (k : Kernel) (taskId : BitVec 32) (priority : Int) (f : TskFlag)
    (fs : List TskFlag) :
    (k.changed taskId priority [f]).changed taskId priority fs =
      k.changed taskId priority (f :: fs) := by
  have hbind : ((k.tasks taskId).bind (applyAll priority [f])).bind (applyAll priority fs) =
      (k.tasks taskId).bind (applyAll priority (f :: fs)) := by
    cases k.tasks taskId with
    | none => rfl
    | some task => simp only [Option.bind_some, applyAll, Option.bind_fun_some]
  simp only [Kernel.changed, Function.update_self, Function.update_idem, hbind,
    List.append_assoc, List.map_cons, List.map_nil, List.singleton_append]

/-- A call that changes the task of its row. -/
theorem change_eq {k : Kernel} {taskId : BitVec 32} (hrow : taskId ≠ 0) {task : Task}
    (htask : k.tasks taskId = some task) (priority : Int) (f : TskFlag) :
    k.change taskId (f.call taskId priority) (f.apply priority) =
      some (k.changed taskId priority [f]) := by
  have htid : k.tid taskId = taskId := if_neg hrow
  rw [Kernel.change, htid, htask, Option.map_some, Kernel.changed, htask]
  congr 1
  simp only [Option.bind_some, applyAll, Option.bind_fun_some, List.map_cons, List.map_nil]
  congr 1
  exact funext fun id => (Function.update_apply k.tasks taskId _ id).symm

theorem toggle_set {options : BitVec 32} (h : options &&& vxUnbreakable = 0#32) :
    options &&& ~~~(~~~options) ||| (options ||| vxUnbreakable) &&& ~~~options =
      options ^^^ vxUnbreakable := by
  ext i hi
  have hbit := congrArg (fun x : BitVec 32 => x[i]) h
  simp only [BitVec.getElem_and, BitVec.getElem_zero, BitVec.getElem_or, BitVec.getElem_not,
    BitVec.getElem_xor] at hbit ⊢
  revert hbit
  cases options[i] <;> cases vxUnbreakable[i] <;> simp

theorem toggle_clear {options : BitVec 32} (h : options &&& vxUnbreakable ≠ 0#32) :
    options &&& ~~~vxUnbreakable ||| (options &&& ~~~vxUnbreakable) &&& vxUnbreakable =
      options ^^^ vxUnbreakable := by
  have hone : options &&& vxUnbreakable = vxUnbreakable := by
    have htwo : vxUnbreakable = BitVec.twoPow 32 1 := by decide
    rw [htwo, BitVec.and_twoPow] at h ⊢
    split at h
    · exact if_pos ‹_›
    · exact absurd rfl h
  ext i hi
  have hbit := congrArg (fun x : BitVec 32 => x[i]) hone
  simp only [BitVec.getElem_and, BitVec.getElem_or, BitVec.getElem_not,
    BitVec.getElem_xor] at hbit ⊢
  revert hbit
  cases options[i] <;> cases vxUnbreakable[i] <;> simp

/-- `optionsSet` changes one option into its opposite. -/
theorem optionsSet_eq {k : Kernel} {taskId : BitVec 32} {task : Task}
    (htask : k.tasks (k.tid taskId) = some task) (getFails setFails : Bool) :
    k.optionsSet getFails setFails taskId =
      if getFails = true ∨ setFails = true then none
      else k.change taskId (.taskOptionsSet taskId) fun task =>
        some { task with options := task.options ^^^ vxUnbreakable } := by
  have hchange : ∀ mask newOptions : BitVec 32,
      task.options &&& ~~~mask ||| newOptions &&& mask = task.options ^^^ vxUnbreakable →
      k.taskOptionsSet taskId mask newOptions =
        k.change taskId (.taskOptionsSet taskId) fun task =>
          some { task with options := task.options ^^^ vxUnbreakable } := by
    intro mask newOptions heq
    rw [Kernel.taskOptionsSet, Kernel.change, Kernel.change, htask, Option.map_some,
      Option.map_some, heq]
  rw [Kernel.optionsSet, Kernel.taskOptionsGet, htask, Option.map_some]
  cases getFails with
  | true => rfl
  | false =>
      by_cases hclear : task.options &&& vxUnbreakable = 0
      · simp only [unlessFails, Bool.false_eq_true, if_false, if_pos hclear,
          hchange _ _ (toggle_set hclear), false_or]
      · simp only [unlessFails, Bool.false_eq_true, if_false, if_neg hclear,
          hchange _ _ (toggle_clear hclear), false_or]

/-! ## The changes of a request -/

/-- The change a varbind makes, when `status` is the status asked for. -/
def VarBind.flag (status : Int) : VarBind → TskFlag
  | .taskPriority _ => .prior
  | .taskStatus _ =>
      if status = valTaskSuspended then .statSus
      else if status = valTaskReady then .statRdy
      else .statDel
  | _ => .optn

/-- Whether the change of the varbind fails for a task that exists. -/
def Env.failsAt (env : Env) (status : Int) (i : Nat) : VarBind → Bool
  | .taskPriority _ => env.fails i .taskPrioritySet
  | .taskStatus _ =>
      if status = valTaskSuspended then env.fails i .taskSuspend
      else if status = valTaskReady then env.fails i .taskResume
      else if status = valTaskDeleted then env.fails i .taskDelete
      else true
  | .taskOptions _ => env.fails i .taskOptionsGet || env.fails i .taskOptionsSet
  | _ => true

/-- The changes made before the first that fails. Nothing can be done to a task that has
been deleted. -/
def done (env : Env) (status : Int) : Nat → List VarBind → List TskFlag
  | _, [] => []
  | i, vb :: vbs =>
      if env.failsAt status i vb then []
      else if vb.flag status = .statDel then [.statDel]
      else vb.flag status :: done env status (i + 1) vbs

def Agent.changed (a : Agent) (taskId : BitVec 32) (priority : Int) (fs : List TskFlag) :
    Agent :=
  { a with kernel := a.kernel.changed taskId priority fs, varSet := a.varSet ∪ fs.toFinset }

theorem agent_changed_nil (a : Agent) (taskId : BitVec 32) (priority : Int) :
    a.changed taskId priority [] = a := by
  rw [Agent.changed, changed_nil, List.toFinset_nil, Finset.union_empty]

theorem agent_changed_changed (a : Agent) (taskId : BitVec 32) (priority : Int) (f : TskFlag)
    (fs : List TskFlag) :
    (a.changed taskId priority [f]).changed taskId priority fs =
      a.changed taskId priority (f :: fs) := by
  have hbits : a.varSet ∪ [f].toFinset ∪ fs.toFinset = a.varSet ∪ (f :: fs).toFinset := by
    rw [Finset.union_assoc, ← List.toFinset_append, List.singleton_append]
  simp only [Agent.changed, changed_changed, hbits]

theorem map_unlessFails {α β : Type} (failed : Bool) (result : α) (g : α → β) :
    (unlessFails failed (some result)).map g = if failed then none else some (g result) := by
  cases failed <;> rfl

/-- Only one of the three calls is made. -/
theorem setVar_status (env : Env) (e : TaskEntry) (a : Agent) (i : Nat) (v : Int) :
    setVar env e a i (.taskStatus v) =
      if e.taskStatus = valTaskSuspended then
        (unlessFails (env.fails i .taskSuspend) (a.kernel.taskSuspend e.taskId)).map fun k =>
          { a with kernel := k, varSet := insert .statSus a.varSet }
      else if e.taskStatus = valTaskReady then
        (unlessFails (env.fails i .taskResume) (a.kernel.taskResume e.taskId)).map fun k =>
          { a with kernel := k, varSet := insert .statRdy a.varSet }
      else if e.taskStatus = valTaskDeleted then
        (unlessFails (env.fails i .taskDelete) (a.kernel.taskDelete e.taskId)).map fun k =>
          { a with kernel := k, varSet := insert .statDel a.varSet }
      else none := by
  by_cases hsus : e.taskStatus = valTaskSuspended
  · have hrdy : e.taskStatus ≠ valTaskReady := by rw [hsus]; decide
    have hdel : e.taskStatus ≠ valTaskDeleted := by rw [hsus]; decide
    simp only [setVar, if_pos hsus, if_neg hrdy, if_neg hdel]
    cases unlessFails (env.fails i .taskSuspend) (a.kernel.taskSuspend e.taskId) <;> rfl
  · by_cases hrdy : e.taskStatus = valTaskReady
    · have hdel : e.taskStatus ≠ valTaskDeleted := by rw [hrdy]; decide
      simp only [setVar, if_neg hsus, if_pos hrdy, if_neg hdel]
      cases unlessFails (env.fails i .taskResume) (a.kernel.taskResume e.taskId) <;> rfl
    · by_cases hdel : e.taskStatus = valTaskDeleted
      · simp only [setVar, if_neg hsus, if_neg hrdy, if_pos hdel]
        cases unlessFails (env.fails i .taskDelete) (a.kernel.taskDelete e.taskId) <;> rfl
      · simp only [setVar, if_neg hsus, if_neg hrdy, if_neg hdel]

section

variable {env : Env} {e : TaskEntry} {a : Agent} (hrow : e.taskId ≠ 0)

include hrow

theorem setVar_eq (hprio : 0 ≤ e.taskPriority ∧ e.taskPriority ≤ 255) {task : Task}
    (htask : a.kernel.tasks e.taskId = some task) (i : Nat) (vb : VarBind) :
    setVar env e a i vb =
      if env.failsAt e.taskStatus i vb then none
      else some (a.changed e.taskId e.taskPriority [vb.flag e.taskStatus]) := by
  have hchange := fun f : TskFlag => change_eq hrow htask e.taskPriority f
  have hinsert : ∀ f : TskFlag, insert f a.varSet = a.varSet ∪ [f].toFinset := fun f => by
    rw [List.toFinset_cons, List.toFinset_nil, insert_empty_eq, Finset.union_singleton]
  cases vb with
  | taskName s | taskMain s | taskStackSize v | readOnly => rfl
  | taskPriority v =>
      have hrange : ¬ (e.taskPriority < 0 ∨ 255 < e.taskPriority) := by omega
      have hcall : a.kernel.taskPrioritySet e.taskId e.taskPriority =
          some (a.kernel.changed e.taskId e.taskPriority [.prior]) :=
        (if_neg hrange).trans (hchange .prior)
      rw [setVar, hcall, hinsert, map_unlessFails]
      rfl
  | taskStatus v =>
      have hsuspend : a.kernel.taskSuspend e.taskId =
          some (a.kernel.changed e.taskId e.taskPriority [.statSus]) := hchange .statSus
      have hresume : a.kernel.taskResume e.taskId =
          some (a.kernel.changed e.taskId e.taskPriority [.statRdy]) := hchange .statRdy
      have hdelete : a.kernel.taskDelete e.taskId =
          some (a.kernel.changed e.taskId e.taskPriority [.statDel]) := hchange .statDel
      rw [setVar_status, hsuspend, hresume, hdelete, hinsert, hinsert, hinsert]
      simp only [map_unlessFails, Env.failsAt, VarBind.flag]
      split
      · rfl
      · split
        · rfl
        · split <;> rfl
  | taskOptions v =>
      have htid : a.kernel.tid e.taskId = e.taskId := if_neg hrow
      have hlive : a.kernel.tasks (a.kernel.tid e.taskId) = some task := htid.symm ▸ htask
      have hcall := (optionsSet_eq hlive (env.fails i .taskOptionsGet)
        (env.fails i .taskOptionsSet)).trans (congrArg _ (hchange .optn))
      rw [setVar, hcall, hinsert]
      cases hget : env.fails i .taskOptionsGet <;> cases hset : env.fails i .taskOptionsSet <;>
        simp [Env.failsAt, VarBind.flag, hget, hset, Agent.changed]

/-- Every call fails for a task that does not exist. -/
theorem setVar_dead (hdead : a.kernel.tasks e.taskId = none) (i : Nat) (vb : VarBind) :
    setVar env e a i vb = none := by
  have htid : a.kernel.tid e.taskId = e.taskId := if_neg hrow
  have hchange : ∀ call f, a.kernel.change e.taskId call f = none := fun call f => by
    rw [Kernel.change, htid, hdead, Option.map_none]
  have hfails : ∀ failed, unlessFails failed (none : Option Kernel) = none := fun failed => by
    cases failed <;> rfl
  cases vb with
  | taskName s | taskMain s | taskStackSize v | readOnly => rfl
  | taskPriority v =>
      have hcall : a.kernel.taskPrioritySet e.taskId e.taskPriority = none := by
        rw [Kernel.taskPrioritySet, hchange, ite_self]
      rw [setVar, hcall, hfails, Option.map_none]
  | taskStatus v =>
      simp only [setVar, Kernel.taskSuspend, Kernel.taskResume, Kernel.taskDelete, hchange, hfails,
        ite_self]
  | taskOptions v =>
      have hget : a.kernel.taskOptionsGet e.taskId = none := by
        rw [Kernel.taskOptionsGet, htid, hdead, Option.map_none]
      rw [setVar, Kernel.optionsSet, hget]
      cases env.fails i .taskOptionsGet <;> rfl

theorem setLoop_dead (hdead : a.kernel.tasks e.taskId = none) (i : Nat) (vbs : List VarBind) :
    setLoop env e a i vbs = (a, vbs.isEmpty) := by
  cases vbs with
  | nil => rfl
  | cons vb vbs => rw [setLoop, setVar_dead hrow hdead, List.isEmpty_cons]

/-- The second loop of `taskEntry_set`, by induction on the varbinds: the row is there
until it is deleted. -/
theorem setLoop_eq (hprio : 0 ≤ e.taskPriority ∧ e.taskPriority ≤ 255) {task : Task}
    (htask : a.kernel.tasks e.taskId = some task) (i : Nat) (vbs : List VarBind) :
    setLoop env e a i vbs =
      (a.changed e.taskId e.taskPriority (done env e.taskStatus i vbs),
        (done env e.taskStatus i vbs).length == vbs.length) := by
  induction vbs generalizing a i task with
  | nil => rw [setLoop, done, agent_changed_nil]; rfl
  | cons vb vbs ih =>
      rw [setLoop, setVar_eq hrow hprio htask, done]
      cases hfails : env.failsAt e.taskStatus i vb with
      | true => rw [if_pos rfl, if_pos rfl, agent_changed_nil]; rfl
      | false =>
          rw [if_neg Bool.false_ne_true, if_neg Bool.false_ne_true]
          have hnext : (a.changed e.taskId e.taskPriority [vb.flag e.taskStatus]).kernel.tasks
              e.taskId = (vb.flag e.taskStatus).apply e.taskPriority task := by
            simp only [Agent.changed, Kernel.changed, Function.update_self, htask,
              Option.bind_some, applyAll, Option.bind_fun_some]
          by_cases hdel : vb.flag e.taskStatus = .statDel
          · rw [if_pos hdel, hdel]
            rw [hdel] at hnext
            simp only [setLoop_dead hrow hnext]
            cases vbs <;> rfl
          · rw [if_neg hdel]
            obtain ⟨task', htask'⟩ : ∃ task',
                (vb.flag e.taskStatus).apply e.taskPriority task = some task' := by
              cases hflag : vb.flag e.taskStatus with
              | statDel => exact absurd hflag hdel
              | prior | statSus | statRdy | optn => exact ⟨_, rfl⟩
            simp only [ih (hnext.trans htask') (i + 1), agent_changed_changed]
            simp only [List.length_cons, Nat.add_right_cancel_iff, Bool.beq_eq_decide_eq]

end

theorem mem_done {env : Env} {status : Int} {i : Nat} {vbs : List VarBind} {f : TskFlag}
    (h : f ∈ done env status i vbs) : ∃ vb ∈ vbs, vb.flag status = f := by
  induction vbs generalizing i with
  | nil => cases h
  | cons vb vbs ih =>
      rw [done] at h
      split at h
      · cases h
      · split at h
        · rw [List.mem_singleton] at h
          exact ⟨vb, List.mem_cons_self, h ▸ ‹vb.flag status = .statDel›⟩
        · rcases List.mem_cons.mp h with rfl | htail
          · exact ⟨vb, List.mem_cons_self, rfl⟩
          · obtain ⟨vb', hvb', hflag⟩ := ih htail
            exact ⟨vb', List.mem_cons_of_mem vb hvb', hflag⟩

theorem status_eq_of_flag {status : Int} {vb : VarBind} :
    (vb.flag status = .statSus → status = valTaskSuspended) ∧
      (vb.flag status = .statRdy → status = valTaskReady) := by
  cases vb with
  | taskStatus v =>
      rw [VarBind.flag]
      split
      · exact ⟨fun _ => ‹_›, fun h => absurd h (by decide)⟩
      · split
        · exact ⟨fun h => absurd h (by decide), fun _ => ‹_›⟩
        · exact ⟨fun h => absurd h (by decide), fun h => absurd h (by decide)⟩
  | taskName | taskPriority | taskOptions | taskMain | taskStackSize | readOnly =>
      constructor <;> intro h <;> cases h

/-- The changes of a status are all the same. -/
theorem done_one_status (env : Env) (status : Int) (i : Nat) (vbs : List VarBind) :
    .statSus ∈ done env status i vbs → .statRdy ∉ done env status i vbs := by
  intro hsus hrdy
  obtain ⟨_, -, hflag⟩ := mem_done hsus
  obtain ⟨_, -, hflag'⟩ := mem_done hrdy
  have heq := (status_eq_of_flag.1 hflag).symm.trans (status_eq_of_flag.2 hflag')
  revert heq
  decide

/-- A task after changes that do not delete it. -/
def Task.after (priority : Int) (fs : List TskFlag) (task : Task) : Task :=
  { task with
    priority := if .prior ∈ fs then priority else task.priority
    suspended := if .statSus ∈ fs then true else if .statRdy ∈ fs then false else task.suspended
    options := if fs.count .optn % 2 = 1 then task.options ^^^ vxUnbreakable else task.options }

theorem applyAll_eq (priority : Int) {fs : List TskFlag} (hone : .statSus ∈ fs → .statRdy ∉ fs)
    (task : Task) :
    applyAll priority fs task = if .statDel ∈ fs then none else some (task.after priority fs) := by
  induction fs generalizing task with
  | nil => rfl
  | cons f fs ih =>
      have htail : .statSus ∈ fs → .statRdy ∉ fs := fun hsus hrdy =>
        hone (List.mem_cons_of_mem f hsus) (List.mem_cons_of_mem f hrdy)
      rw [applyAll]
      cases f with
      | statDel => rw [if_pos List.mem_cons_self]; rfl
      | prior =>
          simp only [TskFlag.apply, Option.bind_some, ih htail]
          simp [Task.after]
      | statSus =>
          have hrdy : .statRdy ∉ fs := fun h =>
            hone List.mem_cons_self (List.mem_cons_of_mem _ h)
          simp only [TskFlag.apply, Option.bind_some, ih htail]
          simp [Task.after, hrdy]
      | statRdy =>
          have hsus : .statSus ∉ fs := fun h =>
            hone (List.mem_cons_of_mem _ h) List.mem_cons_self
          simp only [TskFlag.apply, Option.bind_some, ih htail]
          simp [Task.after, hsus]
      | optn =>
          simp only [TskFlag.apply, Option.bind_some, ih htail]
          have hparity : fs.count .optn % 2 = 1 ∨ fs.count .optn % 2 = 0 := by omega
          rcases hparity with hodd | heven
          · have hnext : ¬ (fs.count .optn + 1) % 2 = 1 := by omega
            have hback : task.options ^^^ vxUnbreakable ^^^ vxUnbreakable = task.options := by
              rw [BitVec.xor_assoc, BitVec.xor_self, BitVec.xor_zero]
            simp [Task.after, hodd, hnext, hback]
          · have hnext : (fs.count .optn + 1) % 2 = 1 := by omega
            simp [Task.after, heven, hnext]

/-- The changes made to the task with an id. -/
def changesOf (taskId : BitVec 32) (fs : List TskFlag) (id : BitVec 32) : List TskFlag :=
  if id = taskId then fs else []

theorem changed_tasks (k : Kernel) (taskId : BitVec 32) (priority : Int) {fs : List TskFlag}
    (hone : .statSus ∈ fs → .statRdy ∉ fs) {id : BitVec 32} {task : Task}
    (htask : k.tasks id = some task) :
    (k.changed taskId priority fs).tasks id =
      if .statDel ∈ changesOf taskId fs id then none
      else some (task.after priority (changesOf taskId fs id)) := by
  by_cases hid : id = taskId
  · subst hid
    have hchanges : changesOf id fs id = fs := if_pos rfl
    simp only [hchanges, Kernel.changed, Function.update_self, htask, Option.bind_some,
      applyAll_eq priority hone]
  · have hchanges : changesOf taskId fs id = [] := if_neg hid
    simp only [hchanges, Kernel.changed, Function.update_of_ne hid, htask]
    rfl

/-! ## The undo procedure -/

/-- `k'` is `k` with the task `u` changed by `g`. -/
structure Altered (u : BitVec 32) (g : Task → Task) (k k' : Kernel) : Prop where
  self : k'.self = k.self
  tasks : k'.tasks = Function.update k.tasks u ((k.tasks u).map g)
  calls : k.calls <+: k'.calls

theorem Altered.refl (u : BitVec 32) (k : Kernel) : Altered u id k k where
  self := rfl
  tasks := by rw [Option.map_id_fun, id, Function.update_eq_self]
  calls := List.prefix_rfl

theorem Altered.trans {u : BitVec 32} {g g' : Task → Task} {k k' k'' : Kernel}
    (h : Altered u g k k') (h' : Altered u g' k' k'') : Altered u (g' ∘ g) k k'' where
  self := h'.self.trans h.self
  tasks := by
    rw [h'.tasks, h.tasks, Function.update_self, Function.update_idem, Option.map_map]
  calls := h.calls.trans h'.calls

theorem Altered.live {u : BitVec 32} {g : Task → Task} {k k' : Kernel} (h : Altered u g k k')
    (hlive : (k.tasks u).isSome) : (k'.tasks u).isSome := by
  rw [h.tasks, Function.update_self, Option.isSome_map]
  exact hlive

theorem Altered.tid {u : BitVec 32} {g : Task → Task} {k k' : Kernel} (h : Altered u g k k')
    (taskId : BitVec 32) : k'.tid taskId = k.tid taskId := by
  rw [Kernel.tid, h.self, Kernel.tid]

theorem change_altered {k : Kernel} {taskId : BitVec 32}
    (hlive : (k.tasks (k.tid taskId)).isSome) (call : KernelCall) (g : Task → Task) :
    ∃ k', k.change taskId call (fun task => some (g task)) = some k' ∧
      Altered (k.tid taskId) g k k' := by
  obtain ⟨task, htask⟩ := Option.isSome_iff_exists.mp hlive
  refine ⟨_, congrArg (Option.map _) htask, rfl, ?_, List.prefix_append _ _⟩
  rw [htask, Option.map_some]
  exact funext fun id => (Function.update_apply k.tasks _ _ id).symm

theorem change_dead {k : Kernel} {taskId : BitVec 32} (hdead : k.tasks (k.tid taskId) = none)
    (call : KernelCall) (f : Task → Option Task) : k.change taskId call f = none := by
  rw [Kernel.change, hdead, Option.map_none]

/-- A call of the undo procedure that is to be made and succeeds, or is not to be made. -/
theorem undoCall_altered {u : BitVec 32} {g : Task → Task} {k k' : Kernel}
    (h : Altered u g k k') (made : Prop) [Decidable made] (call : Kernel → Option Kernel)
    (g' : Task → Task) (hcall : made → ∃ k'', call k' = some k'' ∧ Altered u g' k' k'') :
    ∃ k'', undoCall (k', true) made call = (k'', true) ∧
      Altered u ((if made then g' else id) ∘ g) k k'' := by
  by_cases hmade : made
  · obtain ⟨k'', hsome, haltered⟩ := hcall hmade
    refine ⟨k'', ?_, ?_⟩
    · simp only [undoCall, if_pos hmade, hsome]
    · rw [if_pos hmade]
      exact h.trans haltered
  · refine ⟨k', ?_, ?_⟩
    · simp only [undoCall, if_neg hmade]
    · rw [if_neg hmade]
      exact h.trans (.refl u k')

/-- A call that fails leaves the tasks. -/
theorem undoCall_none {k : Kernel} (made : Prop) [Decidable made]
    (call : Kernel → Option Kernel) (hcall : call k = none) (good : Bool) :
    undoCall (k, good) made call = (k, good && !decide made) := by
  by_cases hmade : made
  · simp only [undoCall, if_pos hmade, hcall, decide_eq_true hmade, Bool.not_true, Bool.and_false]
  · simp only [undoCall, if_neg hmade, decide_eq_false hmade, Bool.not_false, Bool.and_true]

/-- What has failed once stays failed. -/
theorem undoCall_snd {r : Kernel × Bool} (hr : r.2 = false) (made : Prop) [Decidable made]
    (call : Kernel → Option Kernel) : (undoCall r made call).2 = false := by
  rw [undoCall]
  split
  · split
    · exact hr
    · rfl
  · exact hr

/-- The task after the undo procedure. -/
def Task.undone (vs : Finset TskFlag) (priority : Int) (task : Task) : Task :=
  { task with
    priority := if .prior ∈ vs then priority else task.priority
    suspended := if .statSus ∈ vs then false else if .statRdy ∈ vs then true else task.suspended
    options := if .optn ∈ vs then task.options ^^^ vxUnbreakable else task.options }

/-- A priority that `taskPrioritySet` takes. -/
def InRange (priority : Int) : Prop := 0 ≤ priority ∧ priority ≤ 255

theorem taskEntryUndo_live {a : Agent} {vbPriv : TaskEntry}
    (hlive : (a.kernel.tasks (a.kernel.tid vbPriv.taskId)).isSome)
    (hrange : .prior ∈ a.varSet → InRange vbPriv.taskPriority) :
    ∃ k, taskEntryUndo a vbPriv = (k, true) ∧
      Altered (a.kernel.tid vbPriv.taskId) (Task.undone a.varSet vbPriv.taskPriority)
        a.kernel k := by
  have hcall : ∀ {g : Task → Task} {k : Kernel},
      Altered (a.kernel.tid vbPriv.taskId) g a.kernel k → ∀ call g', ∃ k',
        k.change vbPriv.taskId call (fun task => some (g' task)) = some k' ∧
          Altered (a.kernel.tid vbPriv.taskId) g' k k' := fun {g k} h call g' => by
    have htid := h.tid vbPriv.taskId
    exact htid ▸ change_altered (htid.symm ▸ h.live hlive) call g'
  obtain ⟨k₁, heq₁, h₁⟩ := undoCall_altered (.refl (a.kernel.tid vbPriv.taskId) a.kernel)
    (.prior ∈ a.varSet) (fun k => k.taskPrioritySet vbPriv.taskId vbPriv.taskPriority)
    (fun task => { task with priority := vbPriv.taskPriority }) fun hprior => by
      have hin := hrange hprior
      rw [Kernel.taskPrioritySet, if_neg (by rw [InRange] at hin; omega)]
      exact hcall (.refl _ _) _ _
  obtain ⟨k₂, heq₂, h₂⟩ := undoCall_altered h₁ (.statRdy ∈ a.varSet)
    (fun k => k.taskSuspend vbPriv.taskId) (fun task => { task with suspended := true })
    fun _ => hcall h₁ _ _
  obtain ⟨k₃, heq₃, h₃⟩ := undoCall_altered h₂ (.statSus ∈ a.varSet)
    (fun k => k.taskResume vbPriv.taskId) (fun task => { task with suspended := false })
    fun _ => hcall h₂ _ _
  obtain ⟨k₄, heq₄, h₄⟩ := undoCall_altered h₃ (.optn ∈ a.varSet)
    (fun k => k.optionsSet false false vbPriv.taskId)
    (fun task => { task with options := task.options ^^^ vxUnbreakable }) fun _ => by
      have hlive₃ := h₃.live hlive
      obtain ⟨task, htask⟩ := Option.isSome_iff_exists.mp (h₃.tid vbPriv.taskId ▸ hlive₃)
      simp only [optionsSet_eq htask, Bool.false_eq_true, or_self, if_false]
      exact hcall h₃ _ _
  refine ⟨k₄, ?_, ?_⟩
  · simp only [taskEntryUndo, heq₁, heq₂, heq₃, heq₄]
  · convert h₄ using 1
    funext task
    simp only [Function.comp_apply, Task.undone]
    split <;> split <;> split <;> split <;> rfl

theorem taskEntryUndo_dead {a : Agent} {vbPriv : TaskEntry}
    (hdead : a.kernel.tasks (a.kernel.tid vbPriv.taskId) = none) :
    taskEntryUndo a vbPriv = (a.kernel, decide (∀ f ∈ a.varSet, f = .statDel)) := by
  have hprio : a.kernel.taskPrioritySet vbPriv.taskId vbPriv.taskPriority = none := by
    rw [Kernel.taskPrioritySet, change_dead hdead, ite_self]
  have hoptn : a.kernel.optionsSet false false vbPriv.taskId = none := by
    rw [Kernel.optionsSet, Kernel.taskOptionsGet, hdead]
    rfl
  have hsus := change_dead hdead (.taskSuspend vbPriv.taskId) fun task =>
    some { task with suspended := true }
  have hrdy := change_dead hdead (.taskResume vbPriv.taskId) fun task =>
    some { task with suspended := false }
  simp only [taskEntryUndo, undoCall_none _ (fun k => k.taskPrioritySet _ _) hprio,
    undoCall_none _ (fun k => k.taskSuspend _) hsus,
    undoCall_none _ (fun k => k.taskResume _) hrdy,
    undoCall_none _ (fun k => k.optionsSet _ _ _) hoptn]
  congr 1
  simp only [Bool.true_and, ← decide_not, ← Bool.decide_and]
  refine decide_eq_decide.mpr ⟨?_, ?_⟩
  · intro h f hf
    cases f with
    | statDel => rfl
    | prior => exact absurd hf h.1.1.1
    | statRdy => exact absurd hf h.1.1.2
    | statSus => exact absurd hf h.1.2
    | optn => exact absurd hf h.2
  · intro h
    have hne : ∀ f : TskFlag, f ≠ .statDel → f ∉ a.varSet := fun f hf hmem => hf (h f hmem)
    exact ⟨⟨⟨hne _ (by decide), hne _ (by decide)⟩, hne _ (by decide)⟩, hne _ (by decide)⟩

theorem taskEntryUndo_range {a : Agent} {vbPriv : TaskEntry} (hprior : .prior ∈ a.varSet)
    (hrange : ¬ InRange vbPriv.taskPriority) : (taskEntryUndo a vbPriv).2 = false := by
  have hprio : a.kernel.taskPrioritySet vbPriv.taskId vbPriv.taskPriority = none := by
    rw [Kernel.taskPrioritySet, if_pos (by rw [InRange] at hrange; omega)]
  simp only [taskEntryUndo, undoCall_none _ (fun k => k.taskPrioritySet _ _) hprio,
    decide_eq_true hprior]
  exact undoCall_snd (undoCall_snd (undoCall_snd rfl _ _) _ _) _ _

end VxWorks.Snmp
