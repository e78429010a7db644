import VxWorks.Snmp.TaskUndo

/-!
# When a SET request is made or undone as a whole

The undo takes back the request exactly when, for the task in the buffer, each field that
stands on record comes back to what it was, and every other task has been left as it was
(`undo_right_iff`). Success tells the truth when the varbinds of one variable all ask for
the same value, since each of them is made with the value of the last. Row 0 is apart:
the symbol is looked up under whatever stands on the stack in front of it, and one that
is not found counts as success.
-/

namespace VxWorks.Snmp

/-- The task is as it was, in what a request can change. -/
structure SameTask (before after : Task) : Prop where
  priority : after.priority = before.priority
  suspended : after.suspended = before.suspended
  options : after.options = before.options

/-- Every task is as it was, or has been deleted since. -/
def Restored (before after : Kernel) : Prop :=
  ∀ id task, before.tasks id = some task →
    after.tasks id = none ∧ .taskDelete id ∈ after.calls.drop before.calls.length ∨
      ∃ task', after.tasks id = some task' ∧ SameTask task task'

/-- The changes leave the task as it is. -/
def Untouched (priority : Int) (fs : List TskFlag) (task : Task) : Prop :=
  (.prior ∈ fs → priority = task.priority) ∧
    (.statSus ∈ fs → task.suspended = true) ∧
    (.statRdy ∈ fs → task.suspended = false) ∧
    fs.count .optn % 2 = 0

/-- What is on record in `vs` takes back the changes `fs`. -/
def TakenBack (vs : Finset TskFlag) (vbPriv : TaskEntry) (fs : List TskFlag) (task : Task) :
    Prop :=
  (.prior ∈ vs → vbPriv.taskPriority = task.priority) ∧
    (.statSus ∈ vs → task.suspended = false) ∧
    (.statRdy ∈ vs → .statSus ∉ vs → task.suspended = true) ∧
    (.optn ∈ vs → fs.count .optn % 2 = 1)

/-- The changes `fs` of the task `taskId` have been made and `vs` is on record: the undo
cannot be made, or takes back what was done. -/
def UndoRight (k : Kernel) (vs : Finset TskFlag) (taskId : BitVec 32) (priority : Int)
    (fs : List TskFlag) (vbPriv : TaskEntry) : Prop :=
  (k.tasks (k.tid vbPriv.taskId)).isSome →
  .statDel ∉ changesOf taskId fs (k.tid vbPriv.taskId) →
  (.prior ∈ vs → InRange vbPriv.taskPriority) →
  ∀ id task, k.tasks id = some task → .statDel ∉ changesOf taskId fs id →
    if id = k.tid vbPriv.taskId then TakenBack vs vbPriv (changesOf taskId fs id) task
    else Untouched priority (changesOf taskId fs id) task

theorem xor_unbreakable_ne (options : BitVec 32) : options ^^^ vxUnbreakable ≠ options := by
  intro h
  have hbit := congrArg (fun x : BitVec 32 => x.getLsbD 1) h
  have hone : vxUnbreakable.getLsbD 1 = true := by decide
  simp only [BitVec.getLsbD_xor, hone, Bool.xor_true, Bool.not_eq_self] at hbit

theorem sameTask_after_iff {priority : Int} {fs : List TskFlag}
    (hone : .statSus ∈ fs → .statRdy ∉ fs) (task : Task) :
    SameTask task (task.after priority fs) ↔ Untouched priority fs task := by
  constructor
  · rintro ⟨hprio, hsus, hopt⟩
    simp only [Task.after] at hprio hsus hopt
    refine ⟨?_, ?_, ?_, ?_⟩
    · intro h
      rwa [if_pos h] at hprio
    · intro h
      rw [if_pos h] at hsus
      exact hsus.symm
    · intro h
      rw [if_neg fun h' => hone h' h, if_pos h] at hsus
      exact hsus.symm
    · by_contra hodd
      rw [if_pos (by omega)] at hopt
      exact xor_unbreakable_ne _ hopt
  · rintro ⟨hprio, hsus, hrdy, hopt⟩
    refine ⟨?_, ?_, ?_⟩ <;> simp only [Task.after]
    · split
      · exact hprio ‹_›
      · rfl
    · split
      · exact (hsus ‹_›).symm
      · split
        · exact (hrdy ‹_›).symm
        · rfl
    · rw [if_neg (by omega)]

theorem sameTask_undone_iff (priority : Int) {fs : List TskFlag} {vs : Finset TskFlag}
    (hsub : ∀ f ∈ fs, f ∈ vs) (vbPriv : TaskEntry) (task : Task) :
    SameTask task ((task.after priority fs).undone vs vbPriv.taskPriority) ↔
      TakenBack vs vbPriv fs task := by
  have hcount : fs.count .optn % 2 = 1 → .optn ∈ vs := fun hodd =>
    hsub _ (List.count_pos_iff.mp (by omega))
  constructor
  · rintro ⟨hprio, hsus, hopt⟩
    simp only [Task.undone, Task.after] at hprio hsus hopt
    refine ⟨?_, ?_, ?_, ?_⟩
    · intro h
      rwa [if_pos h] at hprio
    · intro h
      rw [if_pos h] at hsus
      exact hsus.symm
    · intro h h'
      rw [if_neg h', if_pos h] at hsus
      exact hsus.symm
    · intro h
      by_contra heven
      rw [if_pos h, if_neg heven] at hopt
      exact xor_unbreakable_ne _ hopt
  · rintro ⟨hprio, hsus, hrdy, hopt⟩
    refine ⟨?_, ?_, ?_⟩ <;> simp only [Task.undone, Task.after]
    · split
      · exact hprio ‹_›
      · rw [if_neg fun h => ‹.prior ∉ vs› (hsub _ h)]
    · split
      · exact (hsus ‹_›).symm
      · split
        · exact (hrdy ‹_› ‹_›).symm
        · rw [if_neg fun h => ‹.statSus ∉ vs› (hsub _ h),
            if_neg fun h => ‹.statRdy ∉ vs› (hsub _ h)]
    · split
      · rw [if_pos (hopt ‹_›), BitVec.xor_assoc, BitVec.xor_self, BitVec.xor_zero]
      · rw [if_neg fun h => ‹.optn ∉ vs› (hcount h)]

section

variable {a : Agent} {taskId : BitVec 32} {priority : Int} {fs : List TskFlag}

theorem changed_tasks_none {k : Kernel} {id : BitVec 32} (hnone : k.tasks id = none) :
    (k.changed taskId priority fs).tasks id = none := by
  by_cases hid : id = taskId
  · subst hid
    simp only [Kernel.changed, Function.update_self, hnone, Option.bind_none]
  · simp only [Kernel.changed, Function.update_of_ne hid, hnone]

/-- A task that a request has deleted stands in the calls. -/
theorem taskDelete_mem {k : Kernel} {id : BitVec 32} (hdel : .statDel ∈ changesOf taskId fs id)
    {after : Kernel} (hcalls : (k.changed taskId priority fs).calls <+: after.calls) :
    .taskDelete id ∈ after.calls.drop k.calls.length := by
  have hid : id = taskId := by
    by_contra hne
    rw [changesOf, if_neg hne] at hdel
    cases hdel
  rw [changesOf, if_pos hid] at hdel
  obtain ⟨rest, hrest⟩ := hcalls
  rw [← hrest, Kernel.changed, List.append_assoc, List.drop_left]
  exact List.mem_append_left _ (hid ▸ List.mem_map_of_mem hdel)

theorem mem_changesOf {id : BitVec 32} {f : TskFlag} (h : f ∈ changesOf taskId fs id) :
    f ∈ fs := by
  rw [changesOf] at h
  split at h
  · exact h
  · cases h

/-- A task after the changes of a request and their undo. -/
theorem restored_task_iff (hone : .statSus ∈ fs → .statRdy ∉ fs) {vbPriv : TaskEntry}
    {k : Kernel}
    (haltered : Altered (a.kernel.tid vbPriv.taskId)
      (Task.undone (a.varSet ∪ fs.toFinset) vbPriv.taskPriority)
      (a.kernel.changed taskId priority fs) k)
    {id : BitVec 32} {task : Task} (htask : a.kernel.tasks id = some task) :
    (k.tasks id = none ∧ .taskDelete id ∈ k.calls.drop a.kernel.calls.length ∨
        ∃ task', k.tasks id = some task' ∧ SameTask task task') ↔
      (.statDel ∉ changesOf taskId fs id →
        if id = a.kernel.tid vbPriv.taskId then
          TakenBack (a.varSet ∪ fs.toFinset) vbPriv (changesOf taskId fs id) task
        else Untouched priority (changesOf taskId fs id) task) := by
  have hone' : .statSus ∈ changesOf taskId fs id → .statRdy ∉ changesOf taskId fs id :=
    fun hsus hrdy => hone (mem_changesOf hsus) (mem_changesOf hrdy)
  have hsub : ∀ f ∈ changesOf taskId fs id, f ∈ a.varSet ∪ fs.toFinset := fun f hf =>
    Finset.mem_union_right _ (List.mem_toFinset.mpr (mem_changesOf hf))
  have hchanged := changed_tasks a.kernel taskId priority hone htask
  by_cases hdel : .statDel ∈ changesOf taskId fs id
  · rw [if_pos hdel] at hchanged
    have hgone : k.tasks id = none := by
      rw [haltered.tasks]
      by_cases hu : id = a.kernel.tid vbPriv.taskId
      · rw [← hu, Function.update_self, hchanged, Option.map_none]
      · rw [Function.update_of_ne hu, hchanged]
    exact iff_of_true (.inl ⟨hgone, taskDelete_mem hdel haltered.calls⟩) fun h => absurd hdel h
  · rw [if_neg hdel] at hchanged
    rw [imp_iff_right hdel, haltered.tasks]
    by_cases hu : id = a.kernel.tid vbPriv.taskId
    · rw [if_pos hu, ← hu, Function.update_self, hchanged, Option.map_some,
        ← sameTask_undone_iff priority hsub]
      simp only [reduceCtorEq, false_and, false_or, Option.some.injEq, exists_eq_left']
    · rw [if_neg hu, Function.update_of_ne hu, hchanged, ← sameTask_after_iff hone']
      simp only [reduceCtorEq, false_and, false_or, Option.some.injEq, exists_eq_left']

/-- Where the task in the buffer is there no longer, an undo that reports success had
nothing to do. -/
theorem restored_of_dead (hone : .statSus ∈ fs → .statRdy ∉ fs)
    (hbits : ∀ f ∈ a.varSet ∪ fs.toFinset, f = .statDel) :
    Restored a.kernel (a.kernel.changed taskId priority fs) := by
  intro id task htask
  have hchanged := changed_tasks a.kernel taskId priority hone htask
  by_cases hdel : .statDel ∈ changesOf taskId fs id
  · rw [if_pos hdel] at hchanged
    exact .inl ⟨hchanged, taskDelete_mem hdel List.prefix_rfl⟩
  · rw [if_neg hdel] at hchanged
    have hnil : changesOf taskId fs id = [] := by
      refine List.eq_nil_iff_forall_not_mem.mpr fun f hf => hdel ?_
      have heq := hbits f (Finset.mem_union_right _ (List.mem_toFinset.mpr (mem_changesOf hf)))
      exact heq ▸ hf
    rw [hnil] at hchanged
    exact .inr ⟨task, hchanged, rfl, rfl, rfl⟩

/-- The undo procedure after the changes of a request. -/
theorem undo_right_iff (hone : .statSus ∈ fs → .statRdy ∉ fs) (vbPriv : TaskEntry) :
    ((taskEntryUndo (a.changed taskId priority fs) vbPriv).2 = true →
        Restored a.kernel (taskEntryUndo (a.changed taskId priority fs) vbPriv).1) ↔
      UndoRight a.kernel (a.varSet ∪ fs.toFinset) taskId priority fs vbPriv := by
  have hlive_iff : ((a.kernel.changed taskId priority fs).tasks
        (a.kernel.tid vbPriv.taskId)).isSome ↔
      (a.kernel.tasks (a.kernel.tid vbPriv.taskId)).isSome ∧
        .statDel ∉ changesOf taskId fs (a.kernel.tid vbPriv.taskId) := by
    cases htask : a.kernel.tasks (a.kernel.tid vbPriv.taskId) with
    | none =>
        simp only [changed_tasks_none htask, Option.isSome_none, Bool.false_eq_true, false_and]
    | some task =>
        rw [changed_tasks a.kernel taskId priority hone htask]
        split
        · exact iff_of_false Bool.false_ne_true fun h => h.2 ‹_›
        · exact iff_of_true rfl ⟨rfl, ‹_›⟩
  by_cases hlive : ((a.kernel.changed taskId priority fs).tasks
      (a.kernel.tid vbPriv.taskId)).isSome
  · obtain ⟨hlive₀, hkept⟩ := hlive_iff.mp hlive
    by_cases hrange : .prior ∈ a.varSet ∪ fs.toFinset → InRange vbPriv.taskPriority
    · obtain ⟨k, heq, haltered⟩ := taskEntryUndo_live (a := a.changed taskId priority fs) hlive
        hrange
      rw [heq, UndoRight, imp_iff_right rfl, imp_iff_right hlive₀, imp_iff_right hkept,
        imp_iff_right hrange]
      exact forall_congr' fun id => forall_congr' fun task => forall_congr' fun htask =>
        restored_task_iff hone haltered htask
    · obtain ⟨hprior, hout⟩ := Classical.not_imp.mp hrange
      have hfail := taskEntryUndo_range (a := a.changed taskId priority fs) hprior hout
      exact iff_of_true (fun h => absurd (hfail.symm.trans h) Bool.false_ne_true)
        fun _ _ h => absurd h hrange
  · have hdead := Option.not_isSome_iff_eq_none.mp hlive
    rw [taskEntryUndo_dead (a := a.changed taskId priority fs) hdead]
    refine iff_of_true (fun h => restored_of_dead hone (decide_eq_true_eq.mp h)) ?_
    exact fun hlive₀ hkept => absurd (hlive_iff.mpr ⟨hlive₀, hkept⟩) hlive

end

/-! ## Requests on an existing row -/

def VarBind.nextPriority (priority : Int) : VarBind → Int
  | .taskPriority v => v
  | _ => priority

def VarBind.nextStatus (status : Int) : VarBind → Int
  | .taskStatus v => v
  | _ => status

def lastPriority (vbs : List VarBind) : Int := vbs.foldl VarBind.nextPriority 0

def lastStatus (vbs : List VarBind) : Int := vbs.foldl VarBind.nextStatus 0

/-- What a test that went well says of the request. -/
theorem taskEntryTest_ok {sym : SymTbl} {a a' : Agent} {memory : Bool} {compc : Nat}
    {compl : BitVec 32} {vbs : List VarBind} {vbPriv : TaskEntry}
    (h : taskEntryTest sym a memory compc compl vbs = (a', .ok vbPriv)) :
    vbPriv.taskId = compl ∧ (compl ≠ 0 → (a'.kernel.tasks compl).isSome) ∧
      ∀ vb ∈ vbs, testVar compl vb = none := by
  rw [taskEntryTest] at h
  split at h
  · cases h
  · split at h
    · cases h
    · split at h
      · cases hfind : vbs.findSome? (testVar compl) with
        | some errorStatus => rw [hfind] at h; cases h
        | none =>
            rw [hfind] at h
            cases h
            exact ⟨rfl, fun hne => absurd ‹compl = 0› hne, List.findSome?_eq_none_iff.mp hfind⟩
      · cases htask : a.kernel.tasks compl with
        | none => rw [htask] at h; cases h
        | some task =>
            rw [htask] at h
            cases hfind : vbs.findSome? (testVar compl) with
            | some errorStatus => simp only [hfind] at h; cases h
            | none =>
                simp only [hfind] at h
                cases h
                exact ⟨rfl, fun _ => htask ▸ rfl, List.findSome?_eq_none_iff.mp hfind⟩

theorem taskEntryTest_fst (sym : SymTbl) (a : Agent) (memory : Bool) (compc : Nat)
    (compl : BitVec 32) (vbs : List VarBind) :
    (taskEntryTest sym a memory compc compl vbs).1.kernel = a.kernel ∧
      (taskEntryTest sym a memory compc compl vbs).1.varSet = a.varSet := by
  rw [taskEntryTest]
  split
  · exact ⟨rfl, rfl⟩
  · split
    · exact ⟨rfl, rfl⟩
    · split
      · exact ⟨rfl, rfl⟩
      · split <;> exact ⟨rfl, rfl⟩

section

variable {row : BitVec 32} (hrow : row ≠ 0) {vbs : List VarBind}
  (htest : ∀ vb ∈ vbs, testVar row vb = none)

include hrow htest

theorem gather_row (e : TaskEntry) :
    ∃ newVals, gather e vbs = some newVals ∧ newVals.taskId = e.taskId ∧
      newVals.taskPriority = vbs.foldl VarBind.nextPriority e.taskPriority ∧
      newVals.taskStatus = vbs.foldl VarBind.nextStatus e.taskStatus := by
  induction vbs generalizing e with
  | nil => exact ⟨e, rfl, rfl, rfl, rfl⟩
  | cons vb vbs ih =>
      have htail := fun e => ih (fun vb' hvb' => htest vb' (List.mem_cons_of_mem vb hvb')) e
      have hvb := htest vb List.mem_cons_self
      rw [gather, List.foldlM_cons]
      cases vb with
      | taskName s | taskMain s => rw [testVar, if_pos hrow] at hvb; cases hvb
      | taskPriority v => exact htail { e with taskPriority := v }
      | taskStatus v => exact htail { e with taskStatus := v }
      | taskOptions v => exact htail { e with taskOptions := v }
      | taskStackSize v => exact htail { e with taskStackSize := v }
      | readOnly => exact htail e

omit hrow in
theorem foldl_nextPriority_inRange {priority : Int} (hprio : InRange priority) :
    InRange (vbs.foldl VarBind.nextPriority priority) := by
  induction vbs generalizing priority with
  | nil => exact hprio
  | cons vb vbs ih =>
      refine ih (fun vb' hvb' => htest vb' (List.mem_cons_of_mem vb hvb')) ?_
      have hvb := htest vb List.mem_cons_self
      cases vb with
      | taskPriority v =>
          rw [testVar] at hvb
          split at hvb
          · cases hvb
          · rw [VarBind.nextPriority, InRange]
            omega
      | taskName | taskStatus | taskOptions | taskMain | taskStackSize | readOnly => exact hprio

/-- A request on an existing row that has been tested. -/
theorem taskEntrySet_row (sym : SymTbl) (env : Env) {a : Agent} {vbPriv : TaskEntry}
    (hid : vbPriv.taskId = row) (hlive : (a.kernel.tasks row).isSome) :
    taskEntrySet sym env a vbPriv vbs =
      some (a.changed row (lastPriority vbs) (done env (lastStatus vbs) 0 vbs),
        (done env (lastStatus vbs) 0 vbs).length == vbs.length) := by
  obtain ⟨newVals, hgather, hnewId, hprio, hstatus⟩ :=
    gather_row hrow htest { TaskEntry.bzero with taskId := vbPriv.taskId }
  have hnew : newVals.taskId = row := hnewId.trans hid
  obtain ⟨task, htask⟩ := Option.isSome_iff_exists.mp hlive
  have hzero : InRange 0 := ⟨Int.le_refl 0, by decide⟩
  have hrange : InRange newVals.taskPriority := by
    rw [hprio]
    exact foldl_nextPriority_inRange htest hzero
  rw [taskEntrySet, hgather, Option.bind_some, if_neg (hnew ▸ hrow),
    setLoop_eq (hnew ▸ hrow) hrange (hnew.symm ▸ htask), hnew, hprio, hstatus]
  rfl

end

/-! ## Success -/

/-- The call a varbind asks for. -/
def VarBind.call (taskId : BitVec 32) : VarBind → Option KernelCall
  | .taskPriority v => some (.taskPrioritySet taskId v)
  | .taskStatus v =>
      if v = valTaskSuspended then some (.taskSuspend taskId)
      else if v = valTaskReady then some (.taskResume taskId)
      else if v = valTaskDeleted then some (.taskDelete taskId)
      else none
  | .taskOptions _ => some (.taskOptionsSet taskId)
  | _ => none

/-- Every change asked for has been made. -/
def Made (taskId : BitVec 32) (vbs : List VarBind) (before after : Kernel) : Prop :=
  ∀ vb ∈ vbs, ∃ call ∈ after.calls.drop before.calls.length, vb.call taskId = some call

/-- The varbind asks for the value that is set. -/
def VarBind.Agrees (priority status : Int) : VarBind → Prop
  | .taskPriority v => v = priority
  | .taskStatus v => v = status
  | _ => True

theorem done_complete {env : Env} {status : Int} {i : Nat} {vbs : List VarBind}
    (h : (done env status i vbs).length = vbs.length) :
    done env status i vbs = vbs.map (VarBind.flag status) ∧
      ∀ vb ∈ vbs, ∃ j, env.failsAt status j vb = false := by
  induction vbs generalizing i with
  | nil => exact ⟨rfl, fun vb hvb => absurd hvb List.not_mem_nil⟩
  | cons vb vbs ih =>
      rw [done] at h ⊢
      split at h
      · cases h
      · rename_i hfails
        rw [Bool.not_eq_true] at hfails
        rw [if_neg (by rw [hfails]; exact Bool.false_ne_true)]
        split at h
        · rename_i hdel
          have hnil : vbs = [] := List.length_eq_zero_iff.mp (by
            rw [List.length_singleton, List.length_cons] at h
            omega)
          subst hnil
          refine ⟨?_, fun vb' hvb' => ⟨i, ?_⟩⟩
          · rw [if_pos hdel, List.map_cons, hdel, List.map_nil]
          · rw [List.mem_singleton.mp hvb', hfails]
        · rename_i hdel
          obtain ⟨hmap, hall⟩ := ih (Nat.succ.inj h)
          refine ⟨?_, ?_⟩
          · rw [if_neg hdel, hmap, List.map_cons]
          · intro vb' hvb'
            rcases List.mem_cons.mp hvb' with rfl | htail
            · exact ⟨i, hfails⟩
            · exact hall vb' htail

/-- The statuses that can be set. -/
theorem status_of_flag {env : Env} {status : Int} {i : Nat} {vb : VarBind}
    (hfails : env.failsAt status i vb = false) (hdel : vb.flag status = .statDel) :
    status = valTaskDeleted := by
  cases vb with
  | taskStatus v =>
      by_contra hne
      rw [VarBind.flag] at hdel
      rw [Env.failsAt] at hfails
      split at hdel
      · cases hdel
      · split at hdel
        · cases hdel
        · rw [if_neg ‹_›, if_neg ‹_›, if_neg hne] at hfails
          cases hfails
  | taskName | taskPriority | taskOptions | taskMain | taskStackSize | readOnly => cases hdel

theorem call_of_agrees {env : Env} {taskId : BitVec 32} {priority status : Int} {i : Nat}
    {vb : VarBind} (hfails : env.failsAt status i vb = false) (h : vb.Agrees priority status) :
    vb.call taskId = some ((vb.flag status).call taskId priority) := by
  cases vb with
  | taskPriority v => rw [VarBind.call, show v = priority from h]; rfl
  | taskStatus v =>
      rw [VarBind.call, show v = status from h, VarBind.flag]
      rw [Env.failsAt] at hfails
      split
      · rfl
      · rw [if_neg ‹_›] at hfails
        split
        · rfl
        · rw [if_neg ‹_›] at hfails
          split
          · rfl
          · rw [if_neg ‹_›] at hfails
            cases hfails
  | taskOptions v => rfl
  | taskName | taskMain | taskStackSize | readOnly => cases hfails

/-- A call that has been made for some varbind tells the value that was set. -/
theorem agrees_of_call {env : Env} {taskId : BitVec 32} {priority status : Int} {i : Nat}
    {vb vb' : VarBind} (hfails : env.failsAt status i vb' = false)
    (h : vb.call taskId = some ((vb'.flag status).call taskId priority)) :
    vb.Agrees priority status := by
  cases vb with
  | taskPriority v =>
      cases hflag : vb'.flag status <;> rw [hflag] at h <;> cases h
      rfl
  | taskStatus v =>
      rw [VarBind.call] at h
      split at h
      · cases hflag : vb'.flag status <;> rw [hflag] at h <;> cases h
        exact ‹v = valTaskSuspended›.trans (status_eq_of_flag.1 hflag).symm
      · split at h
        · cases hflag : vb'.flag status <;> rw [hflag] at h <;> cases h
          exact ‹v = valTaskReady›.trans (status_eq_of_flag.2 hflag).symm
        · split at h
          · cases hflag : vb'.flag status <;> rw [hflag] at h <;> cases h
            exact ‹v = valTaskDeleted›.trans (status_of_flag hfails hflag).symm
          · cases h
  | taskName | taskOptions | taskMain | taskStackSize | readOnly => trivial

theorem made_iff {env : Env} {a : Agent} {taskId : BitVec 32} {priority status : Int} {i : Nat}
    {vbs : List VarBind} (h : (done env status i vbs).length = vbs.length) :
    Made taskId vbs a.kernel (a.changed taskId priority (done env status i vbs)).kernel ↔
      ∀ vb ∈ vbs, vb.Agrees priority status := by
  obtain ⟨hmap, hfails⟩ := done_complete h
  have hcalls : (a.changed taskId priority (done env status i vbs)).kernel.calls.drop
      a.kernel.calls.length = vbs.map fun vb => (vb.flag status).call taskId priority := by
    simp only [Agent.changed, Kernel.changed, List.drop_left, hmap, List.map_map,
      Function.comp_def]
  rw [Made, hcalls]
  refine forall_congr' fun vb => forall_congr' fun hvb => ⟨?_, ?_⟩
  · rintro ⟨call, hcall, heq⟩
    obtain ⟨vb', hvb', rfl⟩ := List.mem_map.mp hcall
    obtain ⟨j, hj⟩ := hfails vb' hvb'
    exact agrees_of_call hj heq
  · intro hagrees
    obtain ⟨j, hj⟩ := hfails vb hvb
    exact ⟨_, List.mem_map_of_mem hvb, call_of_agrees hj hagrees⟩

/-! ## The request as a whole -/

/-- The task that the values `newVals` ask for has been spawned. -/
def Spawned (sym : SymTbl) (newVals : TaskEntry) (before after : Kernel) : Prop :=
  ∃ tid task, after.calls = before.calls ++ [.taskSpawn tid] ∧ after.tasks tid = some task ∧
    sym.findByCName (cString newVals.taskMain) = some task.entry ∧
    task.name = cString newVals.taskName ∧ task.priority = newVals.taskPriority ∧
    task.options = newVals.taskOptions ∧ task.stackSize = newVals.taskStackSize

/-- A request that has been tested is made as it was asked for, or it is reported as failed
and the undo, if its calls succeed, takes it back. -/
def SetRight (sym : SymTbl) (env : Env) (a : Agent) (vbPriv : TaskEntry) (vbs : List VarBind) :
    Prop :=
  match taskEntrySet sym env a vbPriv vbs with
  | none => False
  | some (a', true) =>
      if vbPriv.taskId = 0 then
        ∃ newVals, gather { TaskEntry.bzero with taskId := vbPriv.taskId } vbs = some newVals ∧
          Spawned sym newVals a.kernel a'.kernel
      else Made vbPriv.taskId vbs a.kernel a'.kernel
  | some (a', false) =>
      (taskEntryUndo a' (env.vbPrivFreed vbPriv)).2 = true →
        Restored a.kernel (taskEntryUndo a' (env.vbPrivFreed vbPriv)).1

/-- For row 0: the strings fit, the symbol that is looked up exists, and it is the one asked
for if the task can be spawned; else the bits on record do no harm. -/
def NewRowRight (sym : SymTbl) (env : Env) (a : Agent) (vbPriv : TaskEntry)
    (vbs : List VarBind) : Prop :=
  ∃ newVals, gather { TaskEntry.bzero with taskId := vbPriv.taskId } vbs = some newVals ∧
    0 ∈ newVals.taskMain ∧ 0 ∈ newVals.taskName ∧
    (cString env.tstring ++ cString newVals.taskMain).length < displayStrSz ∧
    ∃ entry, sym.findByCName (cString env.tstring ++ cString newVals.taskMain) = some entry ∧
      if env.taskSpawn.isSome then sym.findByCName (cString newVals.taskMain) = some entry
      else UndoRight a.kernel a.varSet 0 0 [] (env.vbPrivFreed vbPriv)

/-- For an existing row: all varbinds of one variable have one value if all calls succeed,
and else the undo is right. -/
def OldRowRight (env : Env) (a : Agent) (vbPriv : TaskEntry) (vbs : List VarBind) : Prop :=
  if (done env (lastStatus vbs) 0 vbs).length = vbs.length then
    ∀ vb ∈ vbs, vb.Agrees (lastPriority vbs) (lastStatus vbs)
  else
    UndoRight a.kernel (a.varSet ∪ (done env (lastStatus vbs) 0 vbs).toFinset) vbPriv.taskId
      (lastPriority vbs) (done env (lastStatus vbs) 0 vbs) (env.vbPrivFreed vbPriv)

theorem setRight_old_iff {sym : SymTbl} {env : Env} {a : Agent} {vbPriv : TaskEntry}
    {vbs : List VarBind} (hrow : vbPriv.taskId ≠ 0)
    (htest : ∀ vb ∈ vbs, testVar vbPriv.taskId vb = none)
    (hlive : (a.kernel.tasks vbPriv.taskId).isSome) :
    SetRight sym env a vbPriv vbs ↔ OldRowRight env a vbPriv vbs := by
  rw [SetRight, taskEntrySet_row hrow htest sym env rfl hlive, OldRowRight]
  by_cases hall : (done env (lastStatus vbs) 0 vbs).length = vbs.length
  · rw [if_pos hall, beq_iff_eq.mpr hall]
    simp only [if_neg hrow]
    exact made_iff hall
  · rw [if_neg hall, beq_eq_false_iff_ne.mpr hall]
    exact undo_right_iff (done_one_status env _ 0 vbs) _

theorem gather_taskId {e newVals : TaskEntry} {vbs : List VarBind}
    (h : gather e vbs = some newVals) : newVals.taskId = e.taskId := by
  induction vbs generalizing e with
  | nil => cases h; rfl
  | cons vb vbs ih =>
      rw [gather, List.foldlM_cons] at h
      obtain ⟨e', he', htail⟩ := Option.bind_eq_some_iff.mp h
      refine (ih htail).trans ?_
      cases vb with
      | taskName s | taskMain s =>
          rw [gatherVar] at he'
          split at he' <;> cases he'
          rfl
      | taskPriority | taskStatus | taskOptions | taskStackSize | readOnly => cases he'; rfl

theorem not_spawned (sym : SymTbl) (newVals : TaskEntry) (k : Kernel) :
    ¬ Spawned sym newVals k k := by
  rintro ⟨tid, task, hcalls, -⟩
  have hlen := congrArg List.length hcalls
  rw [List.length_append, List.length_singleton] at hlen
  omega

/-- What `taskSpawn` makes is what was asked for if the entry is. -/
theorem spawned_iff (sym : SymTbl) (newVals : TaskEntry) (k : Kernel) (tid : BitVec 32)
    {task : Task} (hname : task.name = cString newVals.taskName)
    (hprio : task.priority = newVals.taskPriority) (hopt : task.options = newVals.taskOptions)
    (hsize : task.stackSize = newVals.taskStackSize) :
    Spawned sym newVals k
        { k with
          tasks := fun id => if id = tid then some task else k.tasks id
          calls := k.calls ++ [.taskSpawn tid] } ↔
      sym.findByCName (cString newVals.taskMain) = some task.entry := by
  constructor
  · rintro ⟨tid', task', hcalls, htask, hasked, -⟩
    have hlast := List.append_cancel_left hcalls
    have htid : tid = tid' := KernelCall.taskSpawn.inj (List.cons.inj hlast).1
    subst htid
    simp only [if_true, Option.some.injEq] at htask
    rwa [htask]
  · intro hasked
    exact ⟨tid, task, rfl, if_pos rfl, hasked, hname, hprio, hopt, hsize⟩

theorem setRight_new_iff {sym : SymTbl} {env : Env} {a : Agent} {vbPriv : TaskEntry}
    {vbs : List VarBind} (hrow : vbPriv.taskId = 0) :
    SetRight sym env a vbPriv vbs ↔ NewRowRight sym env a vbPriv vbs := by
  rw [SetRight, taskEntrySet, NewRowRight]
  cases hgather : gather { TaskEntry.bzero with taskId := vbPriv.taskId } vbs with
  | none =>
      refine iff_of_false id ?_
      rintro ⟨newVals, hnone, -⟩
      cases hnone
  | some newVals =>
      have hnew : newVals.taskId = 0 := (gather_taskId hgather).trans hrow
      simp only [Option.bind_some, if_pos hnew, if_pos hrow, Option.some.injEq, exists_eq_left']
      rw [taskSet]
      by_cases hover : 0 ∉ newVals.taskMain ∨
          displayStrSz ≤ (cString env.tstring ++ cString newVals.taskMain).length
      · simp only [if_pos hover, Option.map_none]
        refine iff_of_false id ?_
        rintro ⟨hmain, -, hlen, -⟩
        rcases hover with hover | hover
        · exact hover hmain
        · exact absurd hlen (Nat.not_lt.mpr hover)
      simp only [if_neg hover]
      obtain ⟨hmain, hlen⟩ := not_or.mp hover
      rw [Classical.not_not] at hmain
      have hlen := Nat.lt_of_not_le hlen
      cases hfind : sym.findByCName (cString env.tstring ++ cString newVals.taskMain) with
      | none =>
          -- success is reported, but nothing has been spawned
          refine iff_of_false (not_spawned sym newVals a.kernel) ?_
          rintro ⟨-, -, -, entry, hentry, -⟩
          cases hentry
      | some entry =>
          by_cases hname : 0 ∈ newVals.taskName
          · simp only [hmain, hname, hlen, true_and, Option.some.injEq, exists_eq_left']
            cases hspawn : env.taskSpawn with
            | some tid => exact spawned_iff sym newVals a.kernel tid rfl rfl rfl rfl
            | none =>
                have hundo := @undo_right_iff a 0 0 [] (fun h => absurd h List.not_mem_nil)
                  (env.vbPrivFreed vbPriv)
                rw [agent_changed_nil, List.toFinset_nil, Finset.union_empty] at hundo
                exact hundo
          · simp only [if_pos hname, Option.map_none]
            exact iff_of_false id fun h => hname h.2.1

/-! ## Histories -/

/-- The agent after a history. -/
def Agent.run (sym : SymTbl) (a : Agent) (history : List SetEvent) : Agent :=
  history.foldl (Agent.step sym) a

/-- The changes an event makes to the row it is about. -/
def SetEvent.changes (sym : SymTbl) (a : Agent) : SetEvent → List TskFlag
  | .request req =>
      match (taskEntryTest sym a req.memory req.compc req.compl req.vbs).2 with
      | .error _ => []
      | .ok vbPriv => if vbPriv.taskId = 0 then [] else done req.env (lastStatus req.vbs) 0 req.vbs
  | .other _ => []

/-- A request on row 0 leaves the bits. -/
theorem taskEntrySet_new_varSet {sym : SymTbl} {env : Env} {a : Agent} {vbPriv : TaskEntry}
    {vbs : List VarBind} (hrow : vbPriv.taskId = 0) {a' : Agent} {good : Bool}
    (h : taskEntrySet sym env a vbPriv vbs = some (a', good)) : a'.varSet = a.varSet := by
  rw [taskEntrySet] at h
  obtain ⟨newVals, hgather, hset⟩ := Option.bind_eq_some_iff.mp h
  rw [if_pos ((gather_taskId hgather).trans hrow)] at hset
  obtain ⟨r, -, hr⟩ := Option.map_eq_some_iff.mp hset
  cases hr
  rfl

/-- No bit is ever cleared. -/
theorem step_varSet (sym : SymTbl) (a : Agent) (ev : SetEvent) :
    (a.step sym ev).varSet = a.varSet ∪ (ev.changes sym a).toFinset := by
  cases ev with
  | other kernel => exact (Finset.union_empty _).symm
  | request req =>
      obtain ⟨hkernel, hbits⟩ :=
        taskEntryTest_fst sym a req.memory req.compc req.compl req.vbs
      rw [Agent.step, SetEvent.changes]
      cases htest : taskEntryTest sym a req.memory req.compc req.compl req.vbs with
      | mk a' result =>
          rw [htest] at hbits
          cases result with
          | error errorStatus => exact hbits.trans (Finset.union_empty _).symm
          | ok vbPriv =>
              obtain ⟨hid, hlive, hvbs⟩ := taskEntryTest_ok htest
              by_cases hrow : vbPriv.taskId = 0
              · simp only [if_pos hrow, List.toFinset_nil, Finset.union_empty]
                split
                · exact hbits
                all_goals
                  rename_i hset
                  exact (taskEntrySet_new_varSet hrow hset).trans hbits
              · have hne : req.compl ≠ 0 := hid ▸ hrow
                simp only [if_neg hrow, taskEntrySet_row hne hvbs sym req.env hid (hlive hne)]
                rw [← hbits]
                split
                · cases ‹some _ = none›
                all_goals
                  rename_i hset
                  rw [← (Prod.mk.inj (Option.some.inj hset)).1]
                  rfl

theorem mem_varSet_run (sym : SymTbl) (a : Agent) (history : List SetEvent) (f : TskFlag) :
    f ∈ (a.run sym history).varSet ↔ f ∈ a.varSet ∨
      ∃ past ev rest, history = past ++ ev :: rest ∧ f ∈ ev.changes sym (a.run sym past) := by
  induction history generalizing a with
  | nil =>
      refine ⟨.inl, ?_⟩
      rintro (h | ⟨past, ev, rest, hnil, -⟩)
      · exact h
      · exact absurd hnil (by simp)
  | cons ev history ih =>
      rw [Agent.run, List.foldl_cons, ← Agent.run, ih, step_varSet, Finset.mem_union,
        List.mem_toFinset, or_assoc]
      refine or_congr_right ⟨?_, ?_⟩
      · rintro (h | ⟨past, ev', rest, rfl, hchange⟩)
        · exact ⟨[], ev, history, rfl, h⟩
        · exact ⟨ev :: past, ev', rest, rfl, hchange⟩
      · rintro ⟨past, ev', rest, heq, hchange⟩
        cases past with
        | nil =>
            cases heq
            exact .inl hchange
        | cons ev'' past =>
            cases heq
            exact .inr ⟨past, ev', rest, rfl, hchange⟩

/-- Any request after any history. The last part tells from the history which bits the
request finds. -/
theorem taskEntrySet_right_iff (sym : SymTbl) (kernel : Kernel) (data : TaskEntry)
    (history : List SetEvent) (req : Request) {a : Agent} {vbPriv : TaskEntry}
    (htest : taskEntryTest sym (Agent.run sym ⟨kernel, ∅, data⟩ history) req.memory req.compc
      req.compl req.vbs = (a, .ok vbPriv)) :
    (SetRight sym req.env a vbPriv req.vbs ↔
        if req.compl = 0 then NewRowRight sym req.env a vbPriv req.vbs
        else OldRowRight req.env a vbPriv req.vbs) ∧
      ∀ f, f ∈ a.varSet ↔ ∃ past ev rest, history = past ++ ev :: rest ∧
        f ∈ ev.changes sym (Agent.run sym ⟨kernel, ∅, data⟩ past) := by
  obtain ⟨hid, hlive, hvbs⟩ := taskEntryTest_ok htest
  constructor
  · split
    · exact setRight_new_iff (hid.trans ‹_›)
    · exact setRight_old_iff (hid ▸ ‹_›) (hid ▸ hvbs) (hid ▸ hlive ‹_›)
  · intro f
    have hbits := (taskEntryTest_fst sym (Agent.run sym ⟨kernel, ∅, data⟩ history) req.memory
      req.compc req.compl req.vbs).2
    rw [htest] at hbits
    rw [hbits, mem_varSet_run]
    exact or_iff_right (Finset.notMem_empty f)

/-- One task, with the id 5. -/
def oneTask : Kernel where
  tasks id :=
    if id = 5 then
      some { name := [], priority := 100, suspended := false, pended := 0, options := 0, entry := 0,
             stackSize := 4096 }
    else none
  self := 5
  calls := []

def noSymbols : SymTbl where
  findByCName _ := none
  findByValue _ := none

/-- No call fails, and the buffer is still there when it has been freed. -/
def calm : Env where
  fails _ _ := false
  taskSpawn := none
  tstring := [0]
  vbPrivFreed := id

def rowRequest (vbs : List VarBind) : Request where
  memory := true
  compc := taskTblIndexLen
  compl := 5
  vbs := vbs
  env := calm

/-- The agent after the options of the task have been set. -/
def afterOptions : Agent :=
  Agent.run noSymbols ⟨oneTask, ∅, .bzero⟩ [.request (rowRequest [.taskOptions vxUnbreakable])]

theorem taskEntrySet_right_priority :
    ∃ a vbPriv, taskEntryTest noSymbols afterOptions true taskTblIndexLen 5 [.taskPriority 50] =
        (a, .ok vbPriv) ∧
      SetRight noSymbols calm a vbPriv [.taskPriority 50] := by
  refine ⟨_, _, rfl, ?_⟩
  have hright := taskEntrySet_right_iff noSymbols oneTask .bzero
    [.request (rowRequest [.taskOptions vxUnbreakable])] (rowRequest [.taskPriority 50]) rfl
  have hold : (rowRequest [.taskPriority 50]).compl ≠ 0 := by decide
  refine hright.1.mpr ?_
  rw [if_neg hold, OldRowRight, if_pos (by decide)]
  intro vb hvb
  rw [List.mem_singleton.mp hvb]
  rfl

/-- A status that cannot be set, after the options have been set by a request before. The
undo changes the options again. -/
theorem taskEntrySet_wrong_options :
    ∃ a vbPriv, taskEntryTest noSymbols afterOptions true taskTblIndexLen 5
          [.taskStatus valTaskDelay] = (a, .ok vbPriv) ∧
      ¬ SetRight noSymbols calm a vbPriv [.taskStatus valTaskDelay] := by
  refine ⟨_, _, rfl, ?_⟩
  intro h
  rcases h rfl 5 _ rfl with ⟨hgone, -⟩ | ⟨task, htask, hsame⟩
  · cases hgone
  · cases htask
    exact absurd hsame.options (by decide)

end VxWorks.Snmp
