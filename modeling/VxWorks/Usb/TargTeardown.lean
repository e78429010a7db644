import Mathlib.Data.List.Basic
import Mathlib.Data.List.Infix
import Mathlib.Logic.Function.Basic
import VxWorks.Usb.TargControl
import VxWorks.Usb.TargPipes

/-!
# Tearing a pipe down (usbTargLib.c)

`destroyPipe` cancels the first ERP of the pipe until none is left. The list is
shortened by `usbTargErpCallback` alone, which the driver calls when it completes an
ERP, and `cancelErp` waits for that call. So whether the loop comes to its end is the
driver's affair, and the affair of the callbacks behind it, which may submit to the
pipe and cancel ERPs themselves.

There are four ways for it not to. The driver refuses a cancel and keeps refusing: the
result is not looked at, and the same ERP is cancelled again. The driver leaves the
callback to a task of its own: it blocks on `targMutex`, which the caller holds while
it sleeps. A callback cancels another ERP of the pipe and is refused: `erpDeleted`,
which was set for the outer ERP, has been cleared for the inner one and stays so. And
callbacks may submit as fast as the loop cancels.

What the driver and the callbacks do is a tree for each cancel: the answer, and behind
a completion what the callback does, with the answers to its own cancels. `outstanding`
keeps the account of the ERPs from these trees, `returns` looks for the last cancel on
each pipe, and `Drains` is the condition under which the loop ends.
-/

namespace VxWorks.Usb

mutual

/-- What comes of `usbTcdErpCancel`. -/
inductive CancelAnswer where
  | refused
  /-- the callback is left to another task -/
  | deferred
  /-- the callback is called, and the ERP's own callback from it -/
  | completed (userCallback : UserCallback)

/-- What a callback does to the pipes, in order. -/
inductive UserCallback where
  | ret
  /-- `usbTargTransfer`, with the answer of `usbTcdErpSubmit` -/
  | transfer (pipe erp : Nat) (submit : Bool) (rest : UserCallback)
  /-- `usbTargTransferAbort` of an ERP of the pipe -/
  | abort (pipe erp : Nat) (answer : CancelAnswer) (rest : UserCallback)

end

/-- The pipes by number, each with its ERPs, and what the library and the driver have
done with ERPs: every one the driver has taken has been completed or is still linked. -/
structure TargErps where
  erps : Nat → List Nat
  erpBeingDeleted : Nat → Option Nat
  erpDeleted : Nat → Bool
  /-- the handle of the pipe stands for it -/
  valid : Nat → Bool
  /-- the handle of the channel stands for it -/
  attached : Bool
  taken : List (Nat × Nat)
  completed : List (Nat × Nat)
  linked_le : ∀ p e, (erps p).count e ≤ taken.count (p, e)
  taken_le : ∀ p e, taken.count (p, e) ≤ completed.count (p, e) + (erps p).count e

namespace TargErps

theorem count_update (erps : Nat → List Nat) (p q e : Nat) (l : List Nat) :
    (Function.update erps p l q).count e = if q = p then l.count e else (erps q).count e := by
  rw [Function.update_apply]
  split <;> rfl

theorem count_cons_pair (l : List (Nat × Nat)) (p q e f : Nat) :
    ((p, e) :: l).count (q, f) = l.count (q, f) + if q = p ∧ f = e then 1 else 0 := by
  rw [List.count_cons]
  congr 1
  exact if_congr (by rw [beq_iff_eq, Prod.mk.injEq, eq_comm, @eq_comm _ e f]) rfl rfl

/-- The driver takes an ERP, linked at the head. -/
def link (p e : Nat) (s : TargErps) : TargErps where
  erps := Function.update s.erps p (e :: s.erps p)
  erpBeingDeleted := s.erpBeingDeleted
  erpDeleted := s.erpDeleted
  valid := s.valid
  attached := s.attached
  taken := (p, e) :: s.taken
  completed := s.completed
  linked_le q f := by
    have hle := s.linked_le q f
    rw [count_update, count_cons_pair, List.count_cons]
    split <;> grind
  taken_le q f := by
    have hle := s.taken_le q f
    rw [count_update, count_cons_pair, List.count_cons]
    split <;> grind

/-- The head of `cancelErp`. -/
def mark (p e : Nat) (s : TargErps) : TargErps :=
  { s with
    erpBeingDeleted := Function.update s.erpBeingDeleted p (some e)
    erpDeleted := Function.update s.erpDeleted p false }

/-- `usbTargErpCallback` before the user's callback. -/
def usbTargErpCallback (p e : Nat) (s : TargErps) : TargErps where
  erps := Function.update s.erps p ((s.erps p).erase e)
  erpBeingDeleted := s.erpBeingDeleted
  erpDeleted :=
    if s.erpBeingDeleted p = some e then Function.update s.erpDeleted p true else s.erpDeleted
  valid := s.valid
  attached := s.attached
  taken := s.taken
  completed := (p, e) :: s.completed
  linked_le q f := by
    have hle := s.linked_le q f
    rw [count_update]
    split
    · next h =>
        subst h
        exact ((List.erase_sublist ..).count_le f).trans hle
    · exact hle
  taken_le q f := by
    have hle := s.taken_le q f
    rw [count_update, count_cons_pair, List.count_erase]
    split <;> grind

/-- `usbTargTransfer`. -/
def usbTargTransfer (p e : Nat) (submit : Bool) (s : TargErps) : TargErps :=
  if s.valid p ∧ submit then s.link p e else s

mutual

/-- `cancelErp`, or nothing where it waits for good. -/
def cancelErp (p e : Nat) : CancelAnswer → TargErps → Option TargErps
  | .refused, s => some (s.mark p e)
  | .deferred, _ => none
  | .completed userCallback, s => do
      let s ← runCallback userCallback ((s.mark p e).usbTargErpCallback p e)
      if s.erpDeleted p then some s else none

def runCallback : UserCallback → TargErps → Option TargErps
  | .ret, s => some s
  | .transfer p e submit rest, s => runCallback rest (s.usbTargTransfer p e submit)
  | .abort p e answer rest, s =>
      if s.valid p then do
        let s ← cancelErp p e answer s
        runCallback rest s
      else runCallback rest s

end

/-- The loop of `destroyPipe`, with the answers to its cancels. -/
def cancelErps (p : Nat) : (Nat → CancelAnswer) → Nat → TargErps → Option TargErps
  | _, 0, _ => none
  | answers, fuel + 1, s =>
      match s.erps p with
      | [] => some s
      | e :: _ => do
          let s ← cancelErp p e (answers 0) s
          cancelErps p (fun k => answers (k + 1)) fuel s

/-- The handle of the pipe is released. -/
def release (p : Nat) (s : TargErps) : TargErps :=
  { s with valid := Function.update s.valid p false }

/-- `destroyPipe`, as far as ERPs and the handle go. -/
def destroyPipe (p : Nat) (answers : Nat → CancelAnswer) (fuel : Nat) (s : TargErps) :
    Option TargErps :=
  (s.cancelErps p answers fuel).map (release p)

/-- `usbTargPipeDestroy`. -/
def usbTargPipeDestroy (p : Nat) (answers : Nat → CancelAnswer) (fuel : Nat) (s : TargErps) :
    Option (TargStatus × TargErps) :=
  if s.valid p then (s.destroyPipe p answers fuel).map (.ok, ·) else some (.badHandle, s)

/-- The loop of `destroyTcd`, each pipe the first one left. -/
def destroyPipes (answers : Nat → Nat → CancelAnswer) (fuel : Nat) :
    List Nat → TargErps → Option TargErps
  | [], s => some s
  | p :: pipes, s => do
      let s ← s.destroyPipe p (answers p) fuel
      destroyPipes answers fuel pipes s

/-- `destroyTcd`: the application is told, and the pipes go. -/
def destroyTcd (mngmtFunc : UserCallback) (answers : Nat → Nat → CancelAnswer) (fuel : Nat)
    (pipes : List Nat) (s : TargErps) : Option TargErps := do
  let s ← s.runCallback mngmtFunc
  let s ← s.destroyPipes answers fuel pipes
  some { s with attached := false }

/-- `usbTargTcdDetach`. -/
def usbTargTcdDetach (mngmtFunc : UserCallback) (answers : Nat → Nat → CancelAnswer)
    (fuel : Nat) (pipes : List Nat) (s : TargErps) : Option (TargStatus × TargErps) :=
  if s.attached then (s.destroyTcd mngmtFunc answers fuel pipes).map (.ok, ·)
  else some (.badHandle, s)

end TargErps

/-! ## The callbacks of the control pipe -/

namespace UserCallback

/-- The cancel of a pending ERP of the control pipe. -/
def cancelPending (p : Nat) (pending : Option (Nat × CancelAnswer)) (rest : UserCallback) :
    UserCallback :=
  match pending with
  | none => rest
  | some (erp, answer) => .abort p erp answer rest

/-- What `setupErpCallback` does to the pipe: `parsed` is what a setup packet that can be
parsed leads to. -/
def setupErpCallback (p setupErp : Nat) (data status : Option (Nat × CancelAnswer))
    (result : ErpResult) (parsed : Option UserCallback) (submit : Bool) : UserCallback :=
  cancelPending p data <| cancelPending p status <|
    match result, parsed with
    | .ok, some rest => rest
    | .canceled, _ => .ret
    | _, _ => .transfer p setupErp submit .ret

/-- What `responseErpCallback` does to the pipe. -/
def responseErpCallback (p setupErp statusErp : Nat) (result : ErpResult) (submit : Bool) :
    UserCallback :=
  match result with
  | .ok => .transfer p statusErp submit .ret
  | .canceled => .ret
  | .error => .transfer p setupErp submit .ret

/-- What `statusErpCallback` does to the pipe. -/
def statusErpCallback (p setupErp : Nat) (result : ErpResult) (submit : Bool) : UserCallback :=
  match result with
  | .canceled => .ret
  | _ => .transfer p setupErp submit .ret

end UserCallback

/-! ## The account of the driver's answers -/

mutual

/-- The ERPs of the pipes after an answer. -/
def CancelAnswer.outstanding (valid : Nat → Bool) (p e : Nat) :
    CancelAnswer → (Nat → List Nat) → Nat → List Nat
  | .refused, w => w
  | .deferred, w => w
  | .completed userCallback, w =>
      userCallback.outstanding valid (Function.update w p ((w p).erase e))

def UserCallback.outstanding (valid : Nat → Bool) :
    UserCallback → (Nat → List Nat) → Nat → List Nat
  | .ret, w => w
  | .transfer p e submit rest, w =>
      rest.outstanding valid (if valid p ∧ submit then Function.update w p (e :: w p) else w)
  | .abort p e answer rest, w =>
      rest.outstanding valid (if valid p then answer.outstanding valid p e w else w)

end

mutual

/-- `erpDeleted` of pipe `q` after an answer on pipe `p`: the last cancel on `q` decides. -/
def CancelAnswer.leaves (valid : Nat → Bool) (p q : Nat) : CancelAnswer → Bool → Bool
  | .refused, b => if q = p then false else b
  | .deferred, b => if q = p then false else b
  | .completed userCallback, b => userCallback.leaves valid q (if q = p then true else b)

def UserCallback.leaves (valid : Nat → Bool) (q : Nat) : UserCallback → Bool → Bool
  | .ret, b => b
  | .transfer _ _ _ rest, b => rest.leaves valid q b
  | .abort p _ answer rest, b =>
      rest.leaves valid q (if valid p then answer.leaves valid p q b else b)

end

mutual

/-- The cancel does not wait for good: no callback is left to another task, and behind
every completion the last cancel on the same pipe is not one that was refused. -/
def CancelAnswer.returns (valid : Nat → Bool) (p : Nat) : CancelAnswer → Bool
  | .refused => true
  | .deferred => false
  | .completed userCallback => userCallback.returns valid && userCallback.leaves valid p true

def UserCallback.returns (valid : Nat → Bool) : UserCallback → Bool
  | .ret => true
  | .transfer _ _ _ rest => rest.returns valid
  | .abort p _ answer rest => (!valid p || answer.returns valid p) && rest.returns valid

end

/-- The ERPs after `n` cancels, each of the first ERP of the pipe. -/
def outstandingAfter (valid : Nat → Bool) (p : Nat) :
    (Nat → CancelAnswer) → Nat → (Nat → List Nat) → Nat → List Nat
  | _, 0, w => w
  | answers, n + 1, w =>
      match w p with
      | [] => w
      | e :: _ =>
          outstandingAfter valid p (fun k => answers (k + 1)) n
            ((answers 0).outstanding valid p e w)

/-- After `n` cancels nothing is outstanding on the pipe, and none of them waits for good. -/
def DrainsIn (valid : Nat → Bool) (p : Nat) (answers : Nat → CancelAnswer) (n : Nat)
    (w : Nat → List Nat) : Prop :=
  outstandingAfter valid p answers n w p = [] ∧ ∀ k < n, (answers k).returns valid p = true

def Drains (valid : Nat → Bool) (p : Nat) (answers : Nat → CancelAnswer)
    (w : Nat → List Nat) : Prop :=
  ∃ n, DrainsIn valid p answers n w

/-- The pipes drain one after the other, each of them gone for the next ones. -/
def DrainsAll (answers : Nat → Nat → CancelAnswer) :
    List Nat → (Nat → Bool) → (Nat → List Nat) → Prop
  | [], _, _ => True
  | p :: pipes, valid, w =>
      ∃ n, DrainsIn valid p (answers p) n w ∧
        DrainsAll answers pipes (Function.update valid p false)
          (outstandingAfter valid p (answers p) n w)

/-! ## One cancel -/

/-- `s'` follows from `s` by cancels and callbacks that leave the ERPs `w`. -/
structure TargErps.Follows (s s' : TargErps) (w : Nat → List Nat) : Prop where
  erps : s'.erps = w
  valid : s'.valid = s.valid
  attached : s'.attached = s.attached
  taken : s.taken <:+ s'.taken

namespace TargErps

theorem Follows.rfl {s : TargErps} : s.Follows s s.erps :=
  ⟨.refl _, .refl _, .refl _, List.suffix_refl _⟩

theorem Follows.trans {s s₁ s₂ : TargErps} {w₁ w₂ : Nat → List Nat} (h₁ : s.Follows s₁ w₁)
    (h₂ : s₁.Follows s₂ w₂) : s.Follows s₂ w₂ :=
  ⟨h₂.erps, h₂.valid.trans h₁.valid, h₂.attached.trans h₁.attached, h₁.taken.trans h₂.taken⟩

theorem mark_follows (p e : Nat) (s : TargErps) : s.Follows (s.mark p e) s.erps :=
  ⟨rfl, rfl, rfl, List.suffix_refl _⟩

theorem completed_follows (p e : Nat) (s : TargErps) :
    s.Follows ((s.mark p e).usbTargErpCallback p e)
      (Function.update s.erps p ((s.erps p).erase e)) :=
  ⟨rfl, rfl, rfl, List.suffix_refl _⟩

theorem usbTargTransfer_follows (p e : Nat) (submit : Bool) (s : TargErps) :
    s.Follows (s.usbTargTransfer p e submit)
      (if s.valid p ∧ submit then Function.update s.erps p (e :: s.erps p) else s.erps) := by
  rw [usbTargTransfer]
  split
  · exact ⟨rfl, rfl, rfl, List.suffix_cons _ _⟩
  · exact .rfl

@[simp] theorem mark_erpDeleted (p e q : Nat) (s : TargErps) :
    (s.mark p e).erpDeleted q = if q = p then false else s.erpDeleted q := by
  simp only [mark, Function.update_apply]

/-- The completion of the ERP that is being cancelled raises the flag. -/
@[simp] theorem completed_erpDeleted (p e q : Nat) (s : TargErps) :
    ((s.mark p e).usbTargErpCallback p e).erpDeleted q =
      if q = p then true else s.erpDeleted q := by
  simp only [usbTargErpCallback, mark, Function.update_self, if_true, Function.update_apply]
  split <;> rfl

@[simp] theorem usbTargTransfer_erpDeleted (p e : Nat) (submit : Bool) (s : TargErps) :
    (s.usbTargTransfer p e submit).erpDeleted = s.erpDeleted := by
  rw [usbTargTransfer]
  split <;> rfl

/-- What the account says of a cancel, or of a callback. -/
structure Accounted (s : TargErps) (returns : Bool) (w : Nat → List Nat) (flag : Nat → Bool)
    (r : Option TargErps) : Prop where
  back : returns = true → ∃ s', r = some s' ∧ s.Follows s' w ∧ s'.erpDeleted = flag
  waits : returns = false → r = none

mutual

theorem cancelErp_accounted (p e : Nat) (answer : CancelAnswer) (s : TargErps) :
    s.Accounted (answer.returns s.valid p) (answer.outstanding s.valid p e s.erps)
      (fun q => answer.leaves s.valid p q (s.erpDeleted q)) (s.cancelErp p e answer) := by
  match answer with
  | .refused =>
      rw [cancelErp, CancelAnswer.returns, CancelAnswer.outstanding]
      refine ⟨fun _ => ⟨_, rfl, mark_follows p e s, ?_⟩, fun h => absurd h Bool.noConfusion⟩
      funext q
      rw [mark_erpDeleted, CancelAnswer.leaves]
  | .deferred =>
      rw [cancelErp, CancelAnswer.returns]
      exact ⟨fun h => absurd h Bool.noConfusion, fun _ => rfl⟩
  | .completed userCallback =>
      rw [cancelErp, CancelAnswer.returns, CancelAnswer.outstanding]
      have hfollows := completed_follows p e s
      have ih := runCallback_accounted userCallback ((s.mark p e).usbTargErpCallback p e)
      rw [hfollows.erps, hfollows.valid] at ih
      cases hreturns : userCallback.returns s.valid with
      | false =>
          rw [ih.waits hreturns]
          exact ⟨fun h => absurd h Bool.noConfusion, fun _ => rfl⟩
      | true =>
          obtain ⟨s', hrun, hs', hflag⟩ := ih.back hreturns
          have hp : s'.erpDeleted p = userCallback.leaves s.valid p true := by
            rw [congrFun hflag p, completed_erpDeleted, if_pos rfl]
          rw [hrun, Option.bind_eq_bind, Option.bind_some, hp, Bool.true_and]
          refine ⟨fun h => ⟨s', if_pos h, hfollows.trans hs', ?_⟩, ?_⟩
          · rw [hflag]
            funext q
            rw [completed_erpDeleted, CancelAnswer.leaves]
          · intro h
            rw [h]
            rfl

theorem runCallback_accounted (userCallback : UserCallback) (s : TargErps) :
    s.Accounted (userCallback.returns s.valid) (userCallback.outstanding s.valid s.erps)
      (fun q => userCallback.leaves s.valid q (s.erpDeleted q)) (s.runCallback userCallback) := by
  match userCallback with
  | .ret =>
      rw [runCallback, UserCallback.returns, UserCallback.outstanding]
      exact ⟨fun _ => ⟨s, rfl, .rfl, funext fun q => by rw [UserCallback.leaves]⟩,
        fun h => absurd h Bool.noConfusion⟩
  | .transfer p e submit rest =>
      rw [runCallback, UserCallback.returns, UserCallback.outstanding]
      have hfollows := usbTargTransfer_follows p e submit s
      have ih := runCallback_accounted rest (s.usbTargTransfer p e submit)
      rw [hfollows.erps, hfollows.valid, usbTargTransfer_erpDeleted] at ih
      refine ⟨?_, ih.waits⟩
      intro h
      obtain ⟨s', hrun, hs', hflag⟩ := ih.back h
      refine ⟨s', hrun, hfollows.trans hs', hflag.trans (funext ?_)⟩
      intro q
      rw [UserCallback.leaves]
  | .abort p e answer rest =>
      rw [runCallback, UserCallback.returns, UserCallback.outstanding]
      cases hvalid : s.valid p with
      | false =>
          have ih := runCallback_accounted rest s
          refine ⟨?_, ?_⟩
          · intro h
            obtain ⟨s', hrun, hs', hflag⟩ := ih.back h
            refine ⟨s', hrun, hs', hflag.trans (funext ?_)⟩
            intro q
            rw [UserCallback.leaves, hvalid]
            rfl
          · intro h
            exact ih.waits h
      | true =>
          have hcancel := cancelErp_accounted p e answer s
          simp only [if_true, Bool.not_true, Bool.false_or]
          cases hreturns : answer.returns s.valid p with
          | false =>
              rw [hcancel.waits hreturns]
              exact ⟨fun h => absurd h Bool.noConfusion, fun _ => rfl⟩
          | true =>
              obtain ⟨s₁, hcall, hs₁, hflag₁⟩ := hcancel.back hreturns
              have ih := runCallback_accounted rest s₁
              rw [hs₁.erps, hs₁.valid, hflag₁] at ih
              rw [hcall, Option.bind_eq_bind, Option.bind_some]
              refine ⟨?_, ih.waits⟩
              intro h
              obtain ⟨s', hrun, hs', hflag⟩ := ih.back h
              refine ⟨s', hrun, hs₁.trans hs', hflag.trans (funext ?_)⟩
              intro q
              rw [UserCallback.leaves, hvalid, if_pos rfl]

end

theorem cancelErp_some_iff {p e : Nat} {answer : CancelAnswer} {s s' : TargErps}
    (h : s.cancelErp p e answer = some s') :
    answer.returns s.valid p = true ∧
      s.Follows s' (answer.outstanding s.valid p e s.erps) := by
  have hcancel := cancelErp_accounted p e answer s
  cases hreturns : answer.returns s.valid p with
  | false =>
      rw [hcancel.waits hreturns] at h
      cases h
  | true =>
      obtain ⟨s₁, hcall, hs₁, -⟩ := hcancel.back hreturns
      rw [hcall] at h
      cases h
      exact ⟨rfl, hs₁⟩

/-! ## The loop -/

theorem drainsIn_succ_iff {valid : Nat → Bool} {p e n : Nat} {answers : Nat → CancelAnswer}
    {w : Nat → List Nat} {l : List Nat} (h : w p = e :: l) :
    DrainsIn valid p answers (n + 1) w ↔ (answers 0).returns valid p = true ∧
      DrainsIn valid p (fun k => answers (k + 1)) n ((answers 0).outstanding valid p e w) := by
  rw [DrainsIn]
  rw [outstandingAfter, h]
  refine ⟨fun ⟨hempty, hreturns⟩ => ⟨hreturns 0 n.succ_pos, hempty, ?_⟩,
    fun ⟨hfirst, hempty, hreturns⟩ => ⟨hempty, ?_⟩⟩
  · intro k hk
    exact hreturns (k + 1) (Nat.succ_lt_succ hk)
  · intro k hk
    cases k with
    | zero => exact hfirst
    | succ k => exact hreturns k (Nat.lt_of_succ_lt_succ hk)

/-- The account stays where it is once the pipe is empty. -/
theorem outstandingAfter_of_empty {valid : Nat → Bool} {p : Nat} {w : Nat → List Nat}
    (h : w p = []) (answers : Nat → CancelAnswer) (n : Nat) :
    outstandingAfter valid p answers n w = w := by
  cases n with
  | zero => rfl
  | succ n => rw [outstandingAfter, h]

/-- A loop that comes to its end has drained the pipe. -/
theorem cancelErps_drains {p fuel : Nat} {answers : Nat → CancelAnswer} {s s' : TargErps}
    (h : s.cancelErps p answers fuel = some s') :
    ∃ n, DrainsIn s.valid p answers n s.erps ∧
      s.Follows s' (outstandingAfter s.valid p answers n s.erps) := by
  induction fuel generalizing s answers with
  | zero => cases h
  | succ fuel ih =>
      rw [cancelErps] at h
      split at h
      · next hempty =>
          cases h
          exact ⟨0, ⟨hempty, fun k hk => absurd hk k.not_lt_zero⟩, .rfl⟩
      · next e l hcons =>
          obtain ⟨s₁, hcall, hloop⟩ := Option.bind_eq_some_iff.mp h
          obtain ⟨hreturns, hs₁⟩ := cancelErp_some_iff hcall
          obtain ⟨n, hn, hs'⟩ := ih hloop
          rw [hs₁.erps, hs₁.valid] at hn hs'
          refine ⟨n + 1, (drainsIn_succ_iff hcons).mpr ⟨hreturns, hn⟩, ?_⟩
          rw [outstandingAfter, hcons]
          exact hs₁.trans hs'

/-- A pipe that drains comes to its end, however many rounds beyond it are allowed. -/
theorem cancelErps_of_drains {p n : Nat} {answers : Nat → CancelAnswer} {s : TargErps}
    (h : DrainsIn s.valid p answers n s.erps) :
    ∃ s', (∀ fuel > n, s.cancelErps p answers fuel = some s') ∧
      s.Follows s' (outstandingAfter s.valid p answers n s.erps) := by
  induction n generalizing s answers with
  | zero =>
      have hempty : s.erps p = [] := h.1
      refine ⟨s, ?_, .rfl⟩
      intro fuel hfuel
      obtain ⟨fuel, rfl⟩ := Nat.exists_eq_succ_of_ne_zero hfuel.ne'
      rw [cancelErps, hempty]
  | succ n ih =>
      cases hlist : s.erps p with
      | nil =>
          rw [outstandingAfter_of_empty hlist]
          refine ⟨s, ?_, .rfl⟩
          intro fuel hfuel
          obtain ⟨fuel, rfl⟩ := Nat.exists_eq_succ_of_ne_zero (Nat.zero_lt_of_lt hfuel).ne'
          rw [cancelErps, hlist]
      | cons e l =>
          obtain ⟨hreturns, hrest⟩ := (drainsIn_succ_iff hlist).mp h
          obtain ⟨s₁, hcall, hs₁, -⟩ := (cancelErp_accounted p e (answers 0) s).back hreturns
          rw [← hs₁.erps, ← hs₁.valid] at hrest
          obtain ⟨s', hloop, hs'⟩ := ih hrest
          rw [hs₁.erps, hs₁.valid] at hs'
          refine ⟨s', ?_, ?_⟩
          · intro fuel hfuel
            obtain ⟨fuel, rfl⟩ := Nat.exists_eq_succ_of_ne_zero (Nat.zero_lt_of_lt hfuel).ne'
            rw [cancelErps, hlist]
            simp only [hcall, Option.bind_eq_bind, Option.bind_some]
            exact hloop fuel (Nat.lt_of_succ_lt_succ hfuel)
          · rw [outstandingAfter, hlist]
            exact hs₁.trans hs'

/-! ## The calls -/

/-- What a teardown of the pipes leaves: no handle of theirs is valid, and every ERP the
driver took, before or during the call, has been completed or is linked still. -/
structure Torn (pipes : List Nat) (s s' : TargErps) : Prop where
  invalid : ∀ p ∈ pipes, s'.valid p = false
  taken : s.taken <:+ s'.taken
  settled : ∀ p e, s'.taken.count (p, e) ≤ s'.completed.count (p, e) + (s'.erps p).count e

@[simp] theorem release_valid (p : Nat) (s : TargErps) :
    (s.release p).valid = Function.update s.valid p false := rfl

theorem destroyPipe_some_iff {p fuel : Nat} {answers : Nat → CancelAnswer} {s s' : TargErps} :
    s.destroyPipe p answers fuel = some s' ↔
      ∃ s₁, s.cancelErps p answers fuel = some s₁ ∧ s₁.release p = s' :=
  Option.map_eq_some_iff

theorem destroyPipe_of_drains {p n : Nat} {answers : Nat → CancelAnswer} {s : TargErps}
    (h : DrainsIn s.valid p answers n s.erps) :
    ∃ s', (∀ fuel > n, s.destroyPipe p answers fuel = some s') ∧
      s'.erps = outstandingAfter s.valid p answers n s.erps ∧
      s'.valid = Function.update s.valid p false ∧ s.taken <:+ s'.taken := by
  obtain ⟨s₁, hloop, hs₁⟩ := cancelErps_of_drains h
  refine ⟨s₁.release p, ?_, hs₁.erps, ?_, hs₁.taken⟩
  · intro fuel hfuel
    exact destroyPipe_some_iff.mpr ⟨s₁, hloop fuel hfuel, rfl⟩
  · rw [release_valid, hs₁.valid]

theorem destroyPipe_drains {p fuel : Nat} {answers : Nat → CancelAnswer} {s s' : TargErps}
    (h : s.destroyPipe p answers fuel = some s') :
    ∃ n, DrainsIn s.valid p answers n s.erps ∧
      s'.erps = outstandingAfter s.valid p answers n s.erps ∧
      s'.valid = Function.update s.valid p false := by
  obtain ⟨s₁, hloop, rfl⟩ := destroyPipe_some_iff.mp h
  obtain ⟨n, hn, hs₁⟩ := cancelErps_drains hloop
  exact ⟨n, hn, hs₁.erps, by rw [release_valid, hs₁.valid]⟩

/-- `destroyPipe` comes back exactly if the pipe drains. -/
theorem destroyPipe_returns_iff (p : Nat) (answers : Nat → CancelAnswer) (s : TargErps) :
    (∃ fuel s', s.destroyPipe p answers fuel = some s' ∧ Torn [p] s s') ↔
      Drains s.valid p answers s.erps := by
  constructor
  · rintro ⟨fuel, s', h, -⟩
    obtain ⟨n, hn, -⟩ := destroyPipe_drains h
    exact ⟨n, hn⟩
  · rintro ⟨n, hn⟩
    obtain ⟨s', hdestroy, -, hvalid, htaken⟩ := destroyPipe_of_drains hn
    refine ⟨n + 1, s', hdestroy (n + 1) n.lt_succ_self, ?_, htaken, s'.taken_le⟩
    intro q hq
    rw [List.mem_singleton.mp hq, hvalid, Function.update_self]

theorem destroyPipes_drains {answers : Nat → Nat → CancelAnswer} {pipes : List Nat} {fuel : Nat}
    {s s' : TargErps} (h : s.destroyPipes answers fuel pipes = some s') :
    DrainsAll answers pipes s.valid s.erps := by
  induction pipes generalizing s with
  | nil => exact trivial
  | cons p pipes ih =>
      obtain ⟨s₁, hdestroy, hrest⟩ := Option.bind_eq_some_iff.mp h
      obtain ⟨n, hn, herps, hvalid⟩ := destroyPipe_drains hdestroy
      refine ⟨n, hn, ?_⟩
      rw [← herps, ← hvalid]
      exact ih hrest

/-- The pipes go one after the other, and none comes back. -/
theorem destroyPipes_of_drains {answers : Nat → Nat → CancelAnswer} {pipes : List Nat}
    {s : TargErps} (h : DrainsAll answers pipes s.valid s.erps) :
    ∃ s' least, (∀ fuel > least, s.destroyPipes answers fuel pipes = some s') ∧
      Torn pipes s s' ∧ ∀ p, s.valid p = false → s'.valid p = false := by
  induction pipes generalizing s with
  | nil =>
      refine ⟨s, 0, fun fuel _ => rfl, ⟨?_, List.suffix_refl _, s.taken_le⟩, fun _ => id⟩
      intro p hp
      exact absurd hp List.not_mem_nil
  | cons p pipes ih =>
      obtain ⟨n, hn, hrest⟩ := h
      obtain ⟨s₁, hdestroy, herps, hvalid, htaken⟩ := destroyPipe_of_drains hn
      rw [← herps, ← hvalid] at hrest
      obtain ⟨s', least, hpipes, htorn, hgone⟩ := ih hrest
      have hp : s₁.valid p = false := by rw [hvalid, Function.update_self]
      refine ⟨s', max n least, ?_, ⟨?_, htaken.trans htorn.taken, htorn.settled⟩,
        fun q hq => hgone q ?_⟩
      · intro fuel hfuel
        rw [destroyPipes, hdestroy fuel (lt_of_le_of_lt (le_max_left _ _) hfuel)]
        exact hpipes fuel (lt_of_le_of_lt (le_max_right _ _) hfuel)
      · exact List.forall_mem_cons.mpr ⟨hgone p hp, htorn.invalid⟩
      · rw [hvalid, Function.update_apply]
        split
        · rfl
        · exact hq

theorem destroyTcd_returns_iff (mngmtFunc : UserCallback) (answers : Nat → Nat → CancelAnswer)
    (pipes : List Nat) (s : TargErps) :
    (∃ fuel s', s.destroyTcd mngmtFunc answers fuel pipes = some s' ∧ Torn pipes s s') ↔
      mngmtFunc.returns s.valid = true ∧
        DrainsAll answers pipes s.valid (mngmtFunc.outstanding s.valid s.erps) := by
  have hcall := runCallback_accounted mngmtFunc s
  cases hreturns : mngmtFunc.returns s.valid with
  | false =>
      refine ⟨?_, fun h => absurd h.1 Bool.noConfusion⟩
      rintro ⟨fuel, s', h, _⟩
      rw [destroyTcd, hcall.waits hreturns] at h
      cases h
  | true =>
      obtain ⟨s₁, hrun, hs₁, -⟩ := hcall.back hreturns
      rw [← hs₁.erps, ← hs₁.valid]
      refine ⟨fun ⟨fuel, s', h, _⟩ => ⟨rfl, ?_⟩, ?_⟩
      · rw [destroyTcd, hrun, Option.bind_eq_bind, Option.bind_some] at h
        obtain ⟨s₂, hpipes, -⟩ := Option.bind_eq_some_iff.mp h
        exact destroyPipes_drains hpipes
      · intro h
        obtain ⟨s₂, least, hpipes, htorn, -⟩ := destroyPipes_of_drains h.2
        refine ⟨least + 1, { s₂ with attached := false }, ?_, htorn.invalid,
          hs₁.taken.trans htorn.taken, htorn.settled⟩
        rw [destroyTcd, hrun, Option.bind_eq_bind, Option.bind_some,
          hpipes (least + 1) least.lt_succ_self]
        rfl

end TargErps

open TargErps

/-- Where a call on a handle comes back, it is with what the handle stands for torn down,
or the handle stood for nothing. -/
def Returns (pipes : List Nat) (s : TargErps) (call : Nat → Option (TargStatus × TargErps)) :
    Prop :=
  ∃ fuel status s', call fuel = some (status, s') ∧ (status = .ok → Torn pipes s s')

/-- A call that goes through a handle comes back with what it destroys torn down, exactly if
the call behind it does wherever the handle is valid. -/
theorem returns_through_handle_iff (pipes : List Nat) (s : TargErps) (valid : Bool)
    (destroy : Nat → Option TargErps) :
    Returns pipes s (fun fuel =>
        if valid then (destroy fuel).map (.ok, ·) else some (.badHandle, s)) ↔
      (valid = true → ∃ fuel s', destroy fuel = some s' ∧ Torn pipes s s') := by
  cases valid with
  | false =>
      refine ⟨fun _ h => absurd h Bool.noConfusion, fun _ => ⟨0, .badHandle, s, rfl, ?_⟩⟩
      intro h
      cases h
  | true =>
      refine ⟨?_, ?_⟩
      · rintro ⟨fuel, status, s', hcall, htorn⟩ _
        obtain ⟨s₁, hdestroy, hpair⟩ := Option.map_eq_some_iff.mp hcall
        cases hpair
        exact ⟨fuel, s', hdestroy, htorn rfl⟩
      · intro h
        obtain ⟨fuel, s', hdestroy, htorn⟩ := h rfl
        exact ⟨fuel, .ok, s', Option.map_eq_some_iff.mpr ⟨s', hdestroy, rfl⟩, fun _ => htorn⟩

/-- A pipe is torn down exactly if it drains: by `destroyPipe` itself, by
`usbTargPipeDestroy` for its handle, and one after the other with the pipes of its channel
by `usbTargTcdDetach`. -/
theorem teardown_returns_iff (mngmtFunc : UserCallback) (answers : Nat → Nat → CancelAnswer)
    (p : Nat) (pipes : List Nat) (s : TargErps) :
    ((∃ fuel s', s.destroyPipe p (answers p) fuel = some s' ∧ Torn [p] s s') ↔
        Drains s.valid p (answers p) s.erps) ∧
      (Returns [p] s (fun fuel => s.usbTargPipeDestroy p (answers p) fuel) ↔
        (s.valid p = true → Drains s.valid p (answers p) s.erps)) ∧
      (Returns pipes s (fun fuel => s.usbTargTcdDetach mngmtFunc answers fuel pipes) ↔
        (s.attached = true → mngmtFunc.returns s.valid = true ∧
          DrainsAll answers pipes s.valid (mngmtFunc.outstanding s.valid s.erps))) := by
  refine ⟨destroyPipe_returns_iff p (answers p) s, ?_, ?_⟩
  · exact (returns_through_handle_iff [p] s (s.valid p) _).trans
      (imp_congr_right fun _ => destroyPipe_returns_iff p (answers p) s)
  · exact (returns_through_handle_iff pipes s s.attached _).trans
      (imp_congr_right fun _ => destroyTcd_returns_iff mngmtFunc answers pipes s)

/-! ## Drivers -/

/-- A pipe without ERPs drains, whatever the driver would answer. -/
theorem drains_of_empty {valid : Nat → Bool} {p : Nat} {w : Nat → List Nat} (h : w p = [])
    (answers : Nat → CancelAnswer) : Drains valid p answers w :=
  ⟨0, h, fun k hk => absurd hk k.not_lt_zero⟩

/-- A driver that completes what it is asked to cancel drains a pipe whose callbacks do
nothing. -/
theorem drains_of_completed (valid : Nat → Bool) (p : Nat) (w : Nat → List Nat) :
    Drains valid p (fun _ => .completed .ret) w := by
  refine ⟨(w p).length, ?_, fun k _ => rfl⟩
  induction hn : (w p).length generalizing w with
  | zero => exact List.length_eq_zero_iff.mp hn
  | succ n ih =>
      cases hlist : w p with
      | nil =>
          rw [hlist] at hn
          cases hn
      | cons e l =>
          rw [outstandingAfter, hlist]
          refine ih _ ?_
          rw [CancelAnswer.outstanding, UserCallback.outstanding, Function.update_self, hlist,
            List.erase_cons_head]
          rw [hlist] at hn
          exact Nat.succ.inj hn

/-- The setup ERP is cancelled while the data ERP is pending, whose cancel the driver
refuses: the flag raised for the one has been cleared for the other. -/
theorem setup_waits_of_refused {valid : Nat → Bool} {p : Nat} (h : valid p = true)
    (setupErp dataErp : Nat) (parsed : Option UserCallback) (submit : Bool) :
    (CancelAnswer.completed
      (.setupErpCallback p setupErp (some (dataErp, .refused)) none .canceled parsed
        submit)).returns valid p = false := by
  simp only [UserCallback.setupErpCallback, UserCallback.cancelPending, CancelAnswer.returns,
    UserCallback.leaves, CancelAnswer.leaves, h, if_true, Bool.and_false]

/-- The answer `cancel` of the calls on endpoints stands for a pipe that drains. -/
theorem destroyPipe_isSome_iff {p : Nat} {answers : Nat → CancelAnswer} {s : TargErps}
    {cancel : Bool} {pipe : Pipe} (hbusy : pipe.busy = true ↔ s.erps p ≠ [])
    (hcancel : cancel = true ↔ Drains s.valid p answers s.erps) (c : Nat) (ch : Channel)
    (t : Targ) :
    (VxWorks.Usb.destroyPipe cancel c ch pipe t).isSome ↔
      ∃ fuel s', s.destroyPipe p answers fuel = some s' ∧ Torn [p] s s' := by
  rw [destroyPipe_returns_iff, ← hcancel, VxWorks.Usb.destroyPipe]
  split
  · next h => exact ⟨fun hsome => absurd hsome Bool.noConfusion, fun ht => by simp [ht] at h⟩
  · next h =>
      refine ⟨?_, fun _ => rfl⟩
      intro _
      cases hb : pipe.busy with
      | true =>
          rw [hb] at h
          simpa using h
      | false =>
          rw [hcancel]
          refine drains_of_empty ?_ answers
          by_contra hne
          rw [hbusy.mpr hne] at hb
          cases hb

/-- One ERP is outstanding, on pipe 1. -/
def oneOutstanding : TargErps where
  erps := fun p => if p = 1 then [7] else []
  erpBeingDeleted := fun _ => none
  erpDeleted := fun _ => false
  valid := fun p => p == 1
  attached := true
  taken := [(1, 7)]
  completed := []
  linked_le p e := by
    rw [TargErps.count_cons_pair]
    split <;> grind
  taken_le p e := by
    rw [TargErps.count_cons_pair]
    split <;> grind

/-- A driver that refuses to cancel is asked for good. -/
theorem TargErps.cancelErps_refused {p : Nat} {s : TargErps} (h : s.erps p ≠ []) (fuel : Nat) :
    s.cancelErps p (fun _ => .refused) fuel = none := by
  induction fuel generalizing s with
  | zero => rfl
  | succ fuel ih =>
      cases hlist : s.erps p with
      | nil => exact absurd hlist h
      | cons e l =>
          rw [cancelErps, hlist]
          simp only [cancelErp, Option.bind_eq_bind, Option.bind_some]
          exact ih (s := s.mark p e) h

/-- The driver refuses to cancel the one ERP of a pipe. -/
theorem teardown_refused :
    ¬ ∀ (answers : Nat → CancelAnswer) (p : Nat) (s : TargErps),
      ∃ fuel s', s.destroyPipe p answers fuel = some s' ∧ Torn [p] s s' := by
  intro h
  obtain ⟨fuel, s', hdestroy, -⟩ := h (fun _ => .refused) 1 oneOutstanding
  have hlist : oneOutstanding.erps 1 ≠ [] := by decide
  rw [TargErps.destroyPipe, TargErps.cancelErps_refused hlist] at hdestroy
  cases hdestroy

end VxWorks.Usb
