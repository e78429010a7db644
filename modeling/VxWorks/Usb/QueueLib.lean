import Mathlib.Algebra.Ring.Nat
import Mathlib.Data.List.Basic
import VxWorks.Lib.Circular
import VxWorks.Lib.Run

/-!
# Message queues (usbQueueLib.c)

A queue is an array of `depth` messages used in a circle, with the index of the next
free slot and of the next message. Two counting semaphores say how many slots are empty
and how many messages are in use, and a mutex guards the indices and the array. A put
takes one empty slot before it takes the mutex, and gives one message after the index
has moved; a get does the same the other way round.

A task is at one of the operations on semaphores, mutex and array, and which task is
next is the scheduler's choice; so a run is any list of events. Only the holder of the
mutex touches the array and the indices, and those steps are as fine as the statements
of the source. Semaphores count, and a task that may wait no longer gives up.

The array is part of the one allocation for the queue, whose size is computed in 32
bits and kept in 16. A queue of more than 8189 messages gets less memory than it has
slots.
-/

namespace VxWorks.Usb

open VxWorks.Lib

structure UsbMessage where
  msg : UInt16
  wParam : UInt16
  lParam : UInt32
deriving DecidableEq, Repr

inductive QueueStatus where
  | ok | badHandle | badParameter | outOfMemory | outOfResources | qNotAvailable
deriving DecidableEq, Repr

/-- Where a task is: outside the calls, with what the last one returned, or before one of
the operations of `usbQueuePut` or `usbQueueGet`. -/
inductive QueueTask where
  | idle (last : QueueStatus)
  | putTake (m : UsbMessage)
  | putLock (m : UsbMessage)
  | putStore (m : UsbMessage)
  | putIndex (m : UsbMessage)
  | putGive (m : UsbMessage)
  | putRelease (m : UsbMessage)
  | getTake
  | getLock
  | getCopy
  | getIndex (m : UsbMessage)
  | getGive (m : UsbMessage)
  | getRelease (m : UsbMessage)
deriving DecidableEq, Repr

/-- A queue, with the bytes allocated for it, the tasks that use it, the messages put and
got by calls that have returned, in that order, and the slots that have been written. -/
structure Queue where
  len : UInt16
  max : UInt16
  inn : UInt16
  out : UInt16
  inUse : Nat
  empty : Nat
  mutex : Option Nat
  messages : Nat → UsbMessage
  tasks : List QueueTask
  puts : List UsbMessage
  gets : List UsbMessage
  stores : List Nat

/-! ## Creation -/

def sizeofUsbMessage : Nat := 8

/-- The offset of `messages` in `USB_QUEUE`: three 16-bit fields, and three handles. -/
def messagesOffset : Nat := 20

def sizeofUsbQueue : Nat := messagesOffset + sizeofUsbMessage

/-- `len` of `usbQueueCreate`, cut to 16 bits. -/
def queueLen (depth : UInt16) : UInt16 :=
  UInt16.ofNat (sizeofUsbQueue + sizeofUsbMessage * (depth.toNat - 1))

/-- What `usbQueueCreate` meets. -/
structure QueueAnswers where
  calloc : Bool
  semInUse : Bool
  semEmpty : Bool
  mutex : Bool
deriving DecidableEq, Repr

/-- The queue in cleared memory, with its semaphores. -/
def Queue.created (depth : UInt16) : Queue where
  len := queueLen depth
  max := depth
  inn := 0
  out := 0
  inUse := 0
  empty := depth.toNat
  mutex := none
  messages := fun _ => ⟨0, 0, 0⟩
  tasks := []
  puts := []
  gets := []
  stores := []

/-- `usbQueueCreate`. -/
def usbQueueCreate (depth : UInt16) (pQueueHandle : Bool) (env : QueueAnswers) :
    Except QueueStatus Queue :=
  if depth < 1 ∨ pQueueHandle = false then .error .badParameter
  else if env.calloc = false then .error .outOfMemory
  else if env.semInUse = false ∨ env.semEmpty = false ∨ env.mutex = false then
    .error .outOfResources
  else .ok (.created depth)

/-! ## Steps -/

/-- `if (++index == max) index = 0`. -/
def wrapIndex (max index : UInt16) : UInt16 := if index + 1 = max then 0 else index + 1

namespace Queue

def goto (q : Queue) (i : Nat) (t : QueueTask) : Queue := { q with tasks := q.tasks.set i t }

/-- The next operation of task `i`, which is at `t`; a task that has to wait stays where
it is. -/
def advance (q : Queue) (i : Nat) : QueueTask → Queue
  | .idle _ => q
  | .putTake m =>
      if q.empty = 0 then q else { q with empty := q.empty - 1 }.goto i (.putLock m)
  | .putLock m =>
      if q.mutex = none then { q with mutex := some i }.goto i (.putStore m) else q
  | .putStore m =>
      { q with
        messages := Function.update q.messages q.inn.toNat m
        stores := q.inn.toNat :: q.stores }.goto i (.putIndex m)
  | .putIndex m => { q with inn := wrapIndex q.max q.inn }.goto i (.putGive m)
  | .putGive m => { q with inUse := q.inUse + 1 }.goto i (.putRelease m)
  | .putRelease m => { q with mutex := none, puts := q.puts ++ [m] }.goto i (.idle .ok)
  | .getTake => if q.inUse = 0 then q else { q with inUse := q.inUse - 1 }.goto i .getLock
  | .getLock => if q.mutex = none then { q with mutex := some i }.goto i .getCopy else q
  | .getCopy => q.goto i (.getIndex (q.messages q.out.toNat))
  | .getIndex m => { q with out := wrapIndex q.max q.out }.goto i (.getGive m)
  | .getGive m => { q with empty := q.empty + 1 }.goto i (.getRelease m)
  | .getRelease m => { q with mutex := none, gets := q.gets ++ [m] }.goto i (.idle .ok)

/-- The wait for a semaphore is over without it. -/
def giveUp (q : Queue) (i : Nat) : QueueTask → Queue
  | .putTake _ => q.goto i (.idle .qNotAvailable)
  | .getTake => q.goto i (.idle .qNotAvailable)
  | _ => q

/-- A call, by a task that is in none. -/
def call (q : Queue) (i : Nat) (t : QueueTask) : QueueTask → Queue
  | .idle _ => q.goto i t
  | _ => q

end Queue

inductive QueueEvent where
  /-- a new task -/
  | spawn
  /-- `usbQueuePut` is called -/
  | put (i : Nat) (m : UsbMessage)
  /-- `usbQueueGet` is called, with a `pMsg` that may be `NULL` -/
  | get (i : Nat) (pMsg : Bool)
  | giveUp (i : Nat)
  | advance (i : Nat)

def queueStep (q : Queue) : QueueEvent → Queue
  | .spawn => { q with tasks := q.tasks ++ [.idle .ok] }
  | .put i m => q.call i (.putTake m) (q.tasks.getD i (.idle .ok))
  | .get i pMsg =>
      q.call i (if pMsg then .getTake else .idle .badParameter) (q.tasks.getD i (.idle .ok))
  | .giveUp i => q.giveUp i (q.tasks.getD i (.idle .ok))
  | .advance i => q.advance i (q.tasks.getD i (.idle .ok))

/-! ## The property -/

/-- Slot `k` lies in the allocated memory. -/
def Queue.Within (q : Queue) (k : Nat) : Prop :=
  messagesOffset + sizeofUsbMessage * (k + 1) ≤ q.len.toNat

/-- The task has taken an empty slot that no put has filled, or emptied one it has not
given. -/
def QueueTask.ownsEmpty : QueueTask → Bool
  | .putLock _ | .putStore _ | .putIndex _ | .getGive _ => true
  | _ => false

/-- The task has taken a message that is still in the array, or put one it has not given. -/
def QueueTask.ownsInUse : QueueTask → Bool
  | .getLock | .getCopy | .getIndex _ | .putGive _ => true
  | _ => false

/-- A bounded queue: what has been got is what has been put, from the first on, and what
has not been got is at most `max` messages, all of them in the array when nobody is
changing it, each with a count of `inUse` or a task that has taken it. -/
structure Queue.Bounded (q : Queue) : Prop where
  order : q.gets <+: q.puts
  bound : q.puts.length ≤ q.gets.length + q.max.toNat
  kept : q.mutex = none →
    Circular q.messages q.max.toNat q.out.toNat (q.puts.drop q.gets.length) ∧
      q.inUse + q.tasks.countP QueueTask.ownsInUse = (q.puts.drop q.gets.length).length
  within : ∀ k ∈ q.stores, q.Within k

/-! ## The invariant -/

/-- The task holds the mutex. -/
def QueueTask.locked : QueueTask → Bool
  | .putStore _ | .putIndex _ | .putGive _ | .putRelease _ => true
  | .getCopy | .getIndex _ | .getGive _ | .getRelease _ => true
  | _ => false

/-- What the holder of the mutex knows of the queue `l` in the array: a message is put
or got when the call returns, and in the array before or after that. -/
def QueueTask.Records (q : Queue) (l : List UsbMessage) : QueueTask → Prop
  | .putIndex m =>
      q.puts = q.gets ++ l ∧ q.messages ((q.out.toNat + l.length) % q.max.toNat) = m
  | .putGive m | .putRelease m => ∃ l', l = l' ++ [m] ∧ q.puts = q.gets ++ l'
  | .getIndex m => q.puts = q.gets ++ l ∧ ∃ l', l = m :: l'
  | .getGive m | .getRelease m => q.puts = q.gets ++ m :: l ∧ l.length < q.max.toNat
  | _ => q.puts = q.gets ++ l

namespace Queue

structure RingInv (q : Queue) (l : List UsbMessage) : Prop where
  circular : Circular q.messages q.max.toNat q.out.toNat l
  out_lt : q.out.toNat < q.max.toNat
  inn : q.inn.toNat = (q.out.toNat + l.length) % q.max.toNat
  stores : ∀ k ∈ q.stores, k < q.max.toNat

structure CountInv (q : Queue) (l : List UsbMessage) : Prop where
  empty : q.empty + q.tasks.countP QueueTask.ownsEmpty + l.length = q.max.toNat
  inUse : q.inUse + q.tasks.countP QueueTask.ownsInUse = l.length

structure LockInv (q : Queue) (l : List UsbMessage) : Prop where
  locked : ∀ i t, q.tasks[i]? = some t → (t.locked = true ↔ q.mutex = some i)
  holder : ∀ i, q.mutex = some i → ∃ t, q.tasks[i]? = some t ∧ t.Records q l
  free : q.mutex = none → q.puts = q.gets ++ l

structure Inv (q : Queue) (l : List UsbMessage) : Prop where
  ring : q.RingInv l
  count : q.CountInv l
  lock : q.LockInv l

@[simp] theorem goto_tasks (q : Queue) (i : Nat) (t : QueueTask) :
    (q.goto i t).tasks = q.tasks.set i t := rfl

/-- A task that moves moves its own count, and no other. -/
theorem countP_goto {tasks : List QueueTask} {i : Nat} {t : QueueTask} (h : tasks[i]? = some t)
    (p : QueueTask → Bool) (t' : QueueTask) :
    (tasks.set i t').countP p + (p t).toNat = tasks.countP p + (p t').toNat := by
  obtain ⟨hi, rfl⟩ := List.getElem?_eq_some_iff.mp h
  have hle := List.boole_getElem_le_countP (p := p) hi
  rw [List.countP_set hi]
  cases hp : p tasks[i] <;> cases hp' : p t' <;>
    simp only [hp, Bool.toNat_true, Bool.toNat_false, if_true, Bool.false_eq_true, if_false]
      at hle ⊢ <;>
    omega

variable {q q' : Queue} {l l' : List UsbMessage} {i : Nat} {t t' : QueueTask}

/-- The counts stay right when what a task gains or loses is what a semaphore or the
queue loses or gains. -/
theorem CountInv.move (h : q.CountInv l) (ht : q.tasks[i]? = some t)
    (htasks : q'.tasks = q.tasks.set i t') (hmax : q'.max = q.max)
    (hempty : q'.empty + t'.ownsEmpty.toNat + l'.length = q.empty + t.ownsEmpty.toNat + l.length)
    (hinUse : q'.inUse + t'.ownsInUse.toNat + l.length = q.inUse + t.ownsInUse.toNat + l'.length) :
    q'.CountInv l' := by
  have he := countP_goto ht QueueTask.ownsEmpty t'
  have hu := countP_goto ht QueueTask.ownsInUse t'
  have hempty' := h.empty
  have hinUse' := h.inUse
  constructor
  · rw [htasks, hmax]
    omega
  · rw [htasks]
    omega

/-- A task that holds an empty slot keeps the array from being full. -/
theorem CountInv.room (h : q.CountInv l) (ht : q.tasks[i]? = some t)
    (hown : t.ownsEmpty = true) : l.length < q.max.toNat := by
  obtain ⟨hi, rfl⟩ := List.getElem?_eq_some_iff.mp ht
  have hpos : 0 < q.tasks.countP QueueTask.ownsEmpty :=
    List.countP_pos_iff.mpr ⟨_, List.getElem_mem hi, hown⟩
  have hempty := h.empty
  omega

/-- A task that has taken a message keeps the array from being empty. -/
theorem CountInv.some_left (h : q.CountInv l) (ht : q.tasks[i]? = some t)
    (hown : t.ownsInUse = true) : ∃ m l', l = m :: l' := by
  obtain ⟨hi, rfl⟩ := List.getElem?_eq_some_iff.mp ht
  have hpos : 0 < q.tasks.countP QueueTask.ownsInUse :=
    List.countP_pos_iff.mpr ⟨_, List.getElem_mem hi, hown⟩
  have hinUse := h.inUse
  exact List.exists_cons_of_length_pos (by omega)

theorem getElem?_goto (ht : q.tasks[i]? = some t) (t' : QueueTask) (j : Nat) :
    (q.tasks.set i t')[j]? = if i = j then some t' else q.tasks[j]? := by
  obtain ⟨hi, -⟩ := List.getElem?_eq_some_iff.mp ht
  rw [List.getElem?_set, if_pos hi]

/-- What the holder of the mutex knows is not touched by the semaphores. -/
theorem records_congr (hmessages : q'.messages = q.messages) (hout : q'.out = q.out)
    (hmax : q'.max = q.max) (hputs : q'.puts = q.puts) (hgets : q'.gets = q.gets) :
    t.Records q' l ↔ t.Records q l := by
  cases t <;> simp only [QueueTask.Records, hmessages, hout, hmax, hputs, hgets]

/-- A task moves outside the mutex. -/
theorem LockInv.outside (h : q.LockInv l) (ht : q.tasks[i]? = some t)
    (htasks : q'.tasks = q.tasks.set i t') (hmutex : q'.mutex = q.mutex)
    (hrecords : ∀ u : QueueTask, u.Records q' l ↔ u.Records q l)
    (hputs : q'.puts = q.puts) (hgets : q'.gets = q.gets) (hl : t.locked = false)
    (hl' : t'.locked = false) : q'.LockInv l := by
  have hi : q.mutex ≠ some i := by
    intro hm
    rw [(h.locked i t ht).mpr hm] at hl
    cases hl
  refine ⟨?_, ?_, ?_⟩
  · intro j u hj
    rw [htasks, getElem?_goto ht] at hj
    rw [hmutex]
    split at hj
    · next heq =>
        subst heq
        cases hj
        rw [hl']
        exact ⟨fun hf => absurd hf Bool.noConfusion, fun hm => absurd hm hi⟩
    · exact h.locked j u hj
  · intro j hj
    rw [hmutex] at hj
    obtain ⟨u, hu, hrec⟩ := h.holder j hj
    refine ⟨u, ?_, (hrecords u).mpr hrec⟩
    have hne : i ≠ j := fun heq => hi (by rw [heq, hj])
    rw [htasks, getElem?_goto ht, if_neg hne]
    exact hu
  · intro hfree
    rw [hputs, hgets]
    exact h.free (hmutex ▸ hfree)

/-- A task takes the mutex, or moves on with it. -/
theorem LockInv.inside (h : q.LockInv l) (ht : q.tasks[i]? = some t)
    (htasks : q'.tasks = q.tasks.set i t') (hbefore : q.mutex = none ∨ q.mutex = some i)
    (hmutex : q'.mutex = some i) (hl' : t'.locked = true) (hrecords : t'.Records q' l') :
    q'.LockInv l' := by
  refine ⟨?_, ?_, ?_⟩
  · intro j u hj
    rw [htasks, getElem?_goto ht] at hj
    rw [hmutex]
    split at hj
    · next heq =>
        cases hj
        rw [hl', heq]
        exact ⟨fun _ => rfl, fun _ => rfl⟩
    · next hne =>
        refine (h.locked j u hj).trans ⟨?_, fun hm => absurd (Option.some.inj hm) hne⟩
        intro hm
        rcases hbefore with hb | hb <;> rw [hb] at hm <;> cases hm
        exact absurd rfl hne
  · intro j hj
    rw [hmutex] at hj
    cases hj
    exact ⟨t', by rw [htasks, getElem?_goto ht, if_pos rfl], hrecords⟩
  · intro hfree
    rw [hmutex] at hfree
    cases hfree

/-- The holder of the mutex gives it back. -/
theorem LockInv.release (h : q.LockInv l) (ht : q.tasks[i]? = some t)
    (htasks : q'.tasks = q.tasks.set i t') (hbefore : q.mutex = some i) (hmutex : q'.mutex = none)
    (hl' : t'.locked = false) (hfree : q'.puts = q'.gets ++ l) : q'.LockInv l := by
  refine ⟨?_, ?_, fun _ => hfree⟩
  · intro j u hj
    rw [htasks, getElem?_goto ht] at hj
    rw [hmutex]
    refine ⟨fun hu => ?_, fun hm => by cases hm⟩
    split at hj
    · cases hj
      rw [hl'] at hu
      cases hu
    · next hne =>
        have hm := (h.locked j u hj).mp hu
        rw [hbefore] at hm
        exact absurd (Option.some.inj hm) hne
  · intro j hj
    rw [hmutex] at hj
    cases hj

theorem wrapIndex_toNat {max index : UInt16} (h : index.toNat < max.toNat) :
    (wrapIndex max index).toNat = (index.toNat + 1) % max.toNat := by
  have hmax := max.toNat_lt
  have hnext : (index + 1).toNat = index.toNat + 1 := by
    rw [UInt16.toNat_add, UInt16.toNat_one, Nat.mod_eq_of_lt]
    omega
  rw [wrapIndex]
  split
  · next heq =>
      have hlast : max.toNat = index.toNat + 1 := by rw [← heq, hnext]
      rw [hlast, Nat.mod_self, UInt16.toNat_zero]
  · next hne =>
      have hlt : index.toNat + 1 ≠ max.toNat := fun heq =>
        hne (UInt16.toNat_inj.mp (hnext.trans heq))
      rw [hnext, Nat.mod_eq_of_lt]
      omega

theorem RingInv.inn_lt (h : q.RingInv l) : q.inn.toNat < q.max.toNat := by
  rw [h.inn]
  exact Nat.mod_lt _ (Nat.zero_lt_of_lt h.out_lt)

/-- A task outside the mutex takes a semaphore, waits on, or gives up. -/
theorem Inv.outside (h : q.Inv l) (ht : q.tasks[i]? = some t) {empty inUse : Nat}
    (hempty : empty + t'.ownsEmpty.toNat = q.empty + t.ownsEmpty.toNat)
    (hinUse : inUse + t'.ownsInUse.toNat = q.inUse + t.ownsInUse.toNat)
    (hl : t.locked = false) (hl' : t'.locked = false) :
    ({ q with empty := empty, inUse := inUse }.goto i t').Inv l where
  ring := ⟨h.ring.circular, h.ring.out_lt, h.ring.inn, h.ring.stores⟩
  count := h.count.move ht rfl rfl (congrArg (· + l.length) hempty) (congrArg (· + l.length) hinUse)
  lock := h.lock.outside ht rfl rfl (fun _ => records_congr rfl rfl rfl rfl rfl) rfl rfl hl hl'

/-- A task takes the mutex. -/
theorem Inv.acquire (h : q.Inv l) (ht : q.tasks[i]? = some t) (hfree : q.mutex = none)
    (hempty : t'.ownsEmpty = t.ownsEmpty) (hinUse : t'.ownsInUse = t.ownsInUse)
    (hl' : t'.locked = true)
    (hrecords : q.puts = q.gets ++ l → t'.Records ({ q with mutex := some i }.goto i t') l) :
    ({ q with mutex := some i }.goto i t').Inv l where
  ring := ⟨h.ring.circular, h.ring.out_lt, h.ring.inn, h.ring.stores⟩
  count := h.count.move ht rfl rfl (by rw [hempty]; rfl) (by rw [hinUse]; rfl)
  lock := h.lock.inside ht rfl (.inl hfree) rfl hl' (hrecords (h.lock.free hfree))

/-- What the task that holds the mutex knows. -/
theorem Inv.records (h : q.Inv l) (ht : q.tasks[i]? = some t) (hl : t.locked = true) :
    q.mutex = some i ∧ t.Records q l := by
  have hmutex := (h.lock.locked i t ht).mp hl
  obtain ⟨u, hu, hrec⟩ := h.lock.holder i hmutex
  rw [ht] at hu
  cases hu
  exact ⟨hmutex, hrec⟩

section

variable {m : UsbMessage}

theorem advance_putStore (h : q.Inv l) (ht : q.tasks[i]? = some (.putStore m)) :
    (q.advance i (.putStore m)).Inv l := by
  obtain ⟨hmutex, hrec⟩ := h.records ht rfl
  have hroom := h.count.room ht rfl
  refine ⟨⟨?_, h.ring.out_lt, h.ring.inn, ?_⟩, h.count.move ht rfl rfl rfl rfl,
    h.lock.inside ht rfl (.inr hmutex) hmutex rfl ⟨hrec, ?_⟩⟩
  · show Circular (Function.update q.messages q.inn.toNat m) _ _ l
    rw [h.ring.inn]
    exact h.ring.circular.write hroom m
  · exact List.forall_mem_cons.mpr ⟨h.ring.inn_lt, h.ring.stores⟩
  · show Function.update q.messages q.inn.toNat m ((q.out.toNat + l.length) % q.max.toNat) = m
    rw [h.ring.inn, Function.update_self]

theorem advance_putIndex (h : q.Inv l) (ht : q.tasks[i]? = some (.putIndex m)) :
    (q.advance i (.putIndex m)).Inv (l ++ [m]) := by
  obtain ⟨hmutex, hputs, hstored⟩ := h.records ht rfl
  have hroom := h.count.room ht rfl
  have hlen : (l ++ [m]).length = l.length + 1 := List.length_append
  refine ⟨⟨h.ring.circular.push hroom hstored, h.ring.out_lt, ?_, h.ring.stores⟩,
    h.count.move ht rfl rfl ?_ ?_,
    h.lock.inside ht rfl (.inr hmutex) hmutex rfl ⟨l, rfl, hputs⟩⟩
  · show (wrapIndex q.max q.inn).toNat = _
    rw [wrapIndex_toNat h.ring.inn_lt, h.ring.inn, Nat.mod_add_mod, hlen, Nat.add_assoc]
    rfl
  · show q.empty + 0 + _ = q.empty + 1 + l.length
    omega
  · show q.inUse + 1 + l.length = q.inUse + 0 + _
    omega

theorem advance_putGive (h : q.Inv l) (ht : q.tasks[i]? = some (.putGive m)) :
    (q.advance i (.putGive m)).Inv l := by
  obtain ⟨hmutex, hrec⟩ := h.records ht rfl
  exact ⟨⟨h.ring.circular, h.ring.out_lt, h.ring.inn, h.ring.stores⟩, h.count.move ht rfl rfl rfl rfl,
    h.lock.inside ht rfl (.inr hmutex) hmutex rfl hrec⟩

theorem advance_putRelease (h : q.Inv l) (ht : q.tasks[i]? = some (.putRelease m)) :
    (q.advance i (.putRelease m)).Inv l := by
  obtain ⟨hmutex, l', rfl, hputs⟩ := h.records ht rfl
  refine ⟨⟨h.ring.circular, h.ring.out_lt, h.ring.inn, h.ring.stores⟩,
    h.count.move ht rfl rfl rfl rfl, h.lock.release ht rfl hmutex rfl rfl ?_⟩
  show q.puts ++ [m] = q.gets ++ (l' ++ [m])
  rw [hputs, List.append_assoc]

theorem advance_getCopy (h : q.Inv l) (ht : q.tasks[i]? = some .getCopy) :
    (q.advance i .getCopy).Inv l := by
  obtain ⟨hmutex, hrec⟩ := h.records ht rfl
  obtain ⟨m, l', rfl⟩ := h.count.some_left ht rfl
  have hhead := h.ring.circular.head h.ring.out_lt
  refine ⟨⟨h.ring.circular, h.ring.out_lt, h.ring.inn, h.ring.stores⟩,
    h.count.move ht rfl rfl rfl rfl, h.lock.inside ht rfl (.inr hmutex) hmutex rfl
      ⟨hrec, l', ?_⟩⟩
  rw [hhead]

theorem advance_getIndex (h : q.Inv l) (ht : q.tasks[i]? = some (.getIndex m)) :
    (q.advance i (.getIndex m)).Inv l.tail := by
  obtain ⟨hmutex, hputs, l', rfl⟩ := h.records ht rfl
  have hout : (wrapIndex q.max q.out).toNat = (q.out.toNat + 1) % q.max.toNat :=
    wrapIndex_toNat h.ring.out_lt
  refine ⟨⟨?_, ?_, ?_, h.ring.stores⟩, h.count.move ht rfl rfl ?_ ?_,
    h.lock.inside ht rfl (.inr hmutex) hmutex rfl ⟨hputs, h.ring.circular.fits⟩⟩
  · show Circular _ _ (wrapIndex q.max q.out).toNat l'
    rw [hout]
    exact h.ring.circular.pop
  · show (wrapIndex q.max q.out).toNat < q.max.toNat
    rw [hout]
    exact Nat.mod_lt _ (Nat.zero_lt_of_lt h.ring.out_lt)
  · show q.inn.toNat = ((wrapIndex q.max q.out).toNat + l'.length) % q.max.toNat
    rw [hout, circle_tail, h.ring.inn]
    rfl
  · show q.empty + 1 + l'.length = q.empty + 0 + (l'.length + 1)
    omega
  · show q.inUse + 0 + (l'.length + 1) = q.inUse + 1 + l'.length
    omega

theorem advance_getGive (h : q.Inv l) (ht : q.tasks[i]? = some (.getGive m)) :
    (q.advance i (.getGive m)).Inv l := by
  obtain ⟨hmutex, hrec⟩ := h.records ht rfl
  exact ⟨⟨h.ring.circular, h.ring.out_lt, h.ring.inn, h.ring.stores⟩,
    h.count.move ht rfl rfl rfl rfl, h.lock.inside ht rfl (.inr hmutex) hmutex rfl hrec⟩

theorem advance_getRelease (h : q.Inv l) (ht : q.tasks[i]? = some (.getRelease m)) :
    (q.advance i (.getRelease m)).Inv l := by
  obtain ⟨hmutex, hputs, -⟩ := h.records ht rfl
  refine ⟨⟨h.ring.circular, h.ring.out_lt, h.ring.inn, h.ring.stores⟩,
    h.count.move ht rfl rfl rfl rfl, h.lock.release ht rfl hmutex rfl rfl ?_⟩
  show q.puts = q.gets ++ [m] ++ l
  rw [hputs, List.append_assoc]
  rfl

end

/-- One operation of one task. -/
theorem advance_inv (h : q.Inv l) (ht : q.tasks[i]? = some t) :
    ∃ l', (q.advance i t).Inv l' := by
  cases t with
  | idle last => exact ⟨l, h⟩
  | putTake m =>
      refine ⟨l, ?_⟩
      rw [advance]
      split
      · exact h
      · next hne => exact h.outside ht (Nat.succ_pred hne) rfl rfl rfl
  | putLock m =>
      refine ⟨l, ?_⟩
      rw [advance]
      split
      · next hfree => exact h.acquire ht hfree rfl rfl rfl id
      · exact h
  | putStore m => exact ⟨l, advance_putStore h ht⟩
  | putIndex m => exact ⟨_, advance_putIndex h ht⟩
  | putGive m => exact ⟨l, advance_putGive h ht⟩
  | putRelease m => exact ⟨l, advance_putRelease h ht⟩
  | getTake =>
      refine ⟨l, ?_⟩
      rw [advance]
      split
      · exact h
      · next hne => exact h.outside ht rfl (Nat.succ_pred hne) rfl rfl
  | getLock =>
      refine ⟨l, ?_⟩
      rw [advance]
      split
      · next hfree => exact h.acquire ht hfree rfl rfl rfl id
      · exact h
  | getCopy => exact ⟨l, advance_getCopy h ht⟩
  | getIndex m => exact ⟨_, advance_getIndex h ht⟩
  | getGive m => exact ⟨l, advance_getGive h ht⟩
  | getRelease m => exact ⟨l, advance_getRelease h ht⟩

/-- A task that is not there does nothing. -/
theorem goto_of_none (h : q.tasks[i]? = none) (t : QueueTask) : q.goto i t = q := by
  rw [goto, List.set_eq_of_length_le (List.getElem?_eq_none_iff.mp h)]

theorem Inv.goto (h : q.Inv l) (ht : q.tasks[i]? = some t)
    (hempty : t'.ownsEmpty = t.ownsEmpty) (hinUse : t'.ownsInUse = t.ownsInUse)
    (hl : t.locked = false) (hl' : t'.locked = false) : (q.goto i t').Inv l := by
  have hempty' : q.empty + t'.ownsEmpty.toNat = q.empty + t.ownsEmpty.toNat := by rw [hempty]
  have hinUse' : q.inUse + t'.ownsInUse.toNat = q.inUse + t.ownsInUse.toNat := by rw [hinUse]
  exact h.outside ht hempty' hinUse' hl hl'

theorem spawn_inv (h : q.Inv l) : (queueStep q .spawn).Inv l := by
  refine ⟨⟨h.ring.circular, h.ring.out_lt, h.ring.inn, h.ring.stores⟩, ⟨?_, ?_⟩,
    ⟨?_, ?_, h.lock.free⟩⟩
  · show q.empty + (q.tasks ++ [QueueTask.idle .ok]).countP QueueTask.ownsEmpty + l.length = _
    rw [List.countP_append]
    exact h.count.empty
  · show q.inUse + (q.tasks ++ [QueueTask.idle .ok]).countP QueueTask.ownsInUse = _
    rw [List.countP_append]
    exact h.count.inUse
  · intro j u hj
    have hj' : (q.tasks ++ [.idle .ok])[j]? = some u := hj
    rw [List.getElem?_append] at hj'
    split at hj'
    · exact h.lock.locked j u hj'
    · next hge =>
        obtain rfl : u = .idle .ok := by
          obtain ⟨hlen, rfl⟩ := List.getElem?_eq_some_iff.mp hj'
          exact List.getElem_singleton hlen
        refine ⟨fun hf => absurd hf Bool.noConfusion, ?_⟩
        intro hm
        obtain ⟨v, hv, -⟩ := h.lock.holder j hm
        exact absurd (List.getElem?_eq_some_iff.mp hv).1 hge
  · intro j hj
    obtain ⟨u, hu, hrec⟩ := h.lock.holder j hj
    refine ⟨u, ?_, (records_congr rfl rfl rfl rfl rfl).mpr hrec⟩
    show (q.tasks ++ [.idle .ok])[j]? = some u
    rw [List.getElem?_append_left (List.getElem?_eq_some_iff.mp hu).1]
    exact hu

theorem call_inv (h : q.Inv l) (hcall : t'.ownsEmpty = false ∧ t'.ownsInUse = false ∧
    t'.locked = false) : (q.call i t' (q.tasks.getD i (.idle .ok))).Inv l := by
  rw [List.getD_eq_getElem?_getD]
  cases ht : q.tasks[i]? with
  | none =>
      rw [Option.getD_none, call, goto_of_none ht]
      exact h
  | some t =>
      rw [Option.getD_some]
      cases t with
      | idle last => exact h.goto ht hcall.1 hcall.2.1 rfl hcall.2.2
      | _ => exact h

theorem giveUp_inv (h : q.Inv l) : (q.giveUp i (q.tasks.getD i (.idle .ok))).Inv l := by
  rw [List.getD_eq_getElem?_getD]
  cases ht : q.tasks[i]? with
  | none => exact h
  | some t =>
      rw [Option.getD_some]
      cases t with
      | putTake m => exact h.goto ht rfl rfl rfl rfl
      | getTake => exact h.goto ht rfl rfl rfl rfl
      | _ => exact h

theorem queueStep_inv (h : ∃ l, q.Inv l) (e : QueueEvent) : ∃ l, (queueStep q e).Inv l := by
  obtain ⟨l, h⟩ := h
  cases e with
  | spawn => exact ⟨l, spawn_inv h⟩
  | put i m => exact ⟨l, call_inv h ⟨rfl, rfl, rfl⟩⟩
  | get i pMsg =>
      refine ⟨l, call_inv h ?_⟩
      cases pMsg <;> exact ⟨rfl, rfl, rfl⟩
  | giveUp i => exact ⟨l, giveUp_inv h⟩
  | advance i =>
      rw [queueStep, List.getD_eq_getElem?_getD]
      cases ht : q.tasks[i]? with
      | none => exact ⟨l, h⟩
      | some t => exact advance_inv h ht

/-- No step changes the size of the queue. -/
theorem queueStep_size (q : Queue) (e : QueueEvent) :
    (queueStep q e).max = q.max ∧ (queueStep q e).len = q.len := by
  cases e with
  | spawn => exact ⟨rfl, rfl⟩
  | put i m =>
      rw [queueStep]
      cases q.tasks.getD i (.idle .ok) <;> exact ⟨rfl, rfl⟩
  | get i pMsg =>
      rw [queueStep]
      cases q.tasks.getD i (.idle .ok) <;> exact ⟨rfl, rfl⟩
  | giveUp i =>
      rw [queueStep]
      cases q.tasks.getD i (.idle .ok) <;> exact ⟨rfl, rfl⟩
  | advance i =>
      rw [queueStep]
      cases q.tasks.getD i (.idle .ok) <;> rw [Queue.advance] <;> first | exact ⟨rfl, rfl⟩ | skip
      all_goals split <;> exact ⟨rfl, rfl⟩

theorem run_size (q : Queue) (es : List QueueEvent) :
    (run queueStep q es).max = q.max ∧ (run queueStep q es).len = q.len := by
  induction es generalizing q with
  | nil => exact ⟨rfl, rfl⟩
  | cons e es ih =>
      obtain ⟨hmax, hlen⟩ := ih (queueStep q e)
      obtain ⟨hmax', hlen'⟩ := queueStep_size q e
      exact ⟨hmax.trans hmax', hlen.trans hlen'⟩

/-! ## Runs -/

/-- What has been put and not got, while a task holds the mutex. -/
theorem held_of_records (hrec : t.Records q l) (hfits : l.length ≤ q.max.toNat) :
    ∃ held, q.puts = q.gets ++ held ∧ held.length ≤ q.max.toNat := by
  cases t with
  | putIndex m => exact ⟨l, hrec.1, hfits⟩
  | putGive m | putRelease m =>
      obtain ⟨l', rfl, hputs⟩ := hrec
      rw [List.length_append] at hfits
      exact ⟨l', hputs, (Nat.le_add_right _ _).trans hfits⟩
  | getIndex m => exact ⟨l, hrec.1, hfits⟩
  | getGive m | getRelease m => exact ⟨m :: l, hrec.1, hrec.2⟩
  | _ => exact ⟨l, hrec, hfits⟩

theorem Inv.held (h : q.Inv l) : ∃ held, q.puts = q.gets ++ held ∧ held.length ≤ q.max.toNat := by
  cases hmutex : q.mutex with
  | none => exact ⟨l, h.lock.free hmutex, h.ring.circular.fits⟩
  | some i =>
      obtain ⟨t, -, hrec⟩ := h.lock.holder i hmutex
      exact held_of_records hrec h.ring.circular.fits

/-- Where the memory is as large as the slots need, the queue is a bounded one. -/
theorem Inv.bounded (h : q.Inv l)
    (hlen : messagesOffset + sizeofUsbMessage * q.max.toNat ≤ q.len.toNat) : q.Bounded := by
  obtain ⟨held, hputs, hheld⟩ := h.held
  refine ⟨⟨held, hputs.symm⟩, ?_, ?_, ?_⟩
  · rw [hputs, List.length_append]
    exact Nat.add_le_add_left hheld _
  · intro hfree
    rw [h.lock.free hfree, List.drop_left]
    exact ⟨h.ring.circular, h.count.inUse⟩
  · intro k hk
    have hlt := h.ring.stores k hk
    refine le_trans ?_ hlen
    exact Nat.add_le_add_left (Nat.mul_le_mul_left _ hlt) _

theorem run_inv {es : List QueueEvent} (h : ∃ l, q.Inv l) : ∃ l, (run queueStep q es).Inv l := by
  induction es generalizing q with
  | nil => exact h
  | cons e es ih => exact ih (queueStep_inv h e)

end Queue

/-! ## The size of the memory -/

theorem usbQueueCreate_ok {depth : UInt16} {pQueueHandle : Bool} {env : QueueAnswers} {q : Queue}
    (h : usbQueueCreate depth pQueueHandle env = .ok q) : 1 ≤ depth.toNat ∧ q = .created depth := by
  rw [usbQueueCreate] at h
  split at h
  · cases h
  · next hparam =>
      split at h
      · cases h
      · split at h
        · cases h
        · cases h
          refine ⟨?_, rfl⟩
          by_contra hlt
          exact hparam (.inl (UInt16.lt_iff_toNat_lt.mpr (Nat.lt_of_not_le hlt)))

theorem usbQueueCreate_inv {depth : UInt16} {pQueueHandle : Bool} {env : QueueAnswers} {q : Queue}
    (h : usbQueueCreate depth pQueueHandle env = .ok q) : q.Inv [] := by
  obtain ⟨hpos, rfl⟩ := usbQueueCreate_ok h
  refine ⟨⟨circular_nil _ _ _, hpos, (Nat.zero_mod _).symm, ?_⟩, ⟨rfl, rfl⟩, ⟨?_, ?_, fun _ => rfl⟩⟩
  · intro k hk
    exact absurd hk List.not_mem_nil
  · intro i t ht
    cases ht
  · intro i hi
    cases hi

theorem queueLen_toNat {depth : UInt16} (h : 1 ≤ depth.toNat) :
    (queueLen depth).toNat = (messagesOffset + sizeofUsbMessage * depth.toNat) % 65536 := by
  rw [queueLen, sizeofUsbQueue]
  rw [UInt16.toNat_ofNat']
  congr 1
  simp only [sizeofUsbMessage]
  omega

/-- The memory holds all slots exactly if its size fits in 16 bits. -/
theorem queueLen_enough_iff {depth : UInt16} (h : 1 ≤ depth.toNat) :
    messagesOffset + sizeofUsbMessage * depth.toNat ≤ (queueLen depth).toNat ↔
      depth.toNat ≤ 8189 := by
  rw [queueLen_toNat h]
  simp only [messagesOffset, sizeofUsbMessage]
  omega

/-- One put by the only task, from the call to the return. -/
def putOnce (m : UsbMessage) : List QueueEvent :=
  [.put 0 m, .advance 0, .advance 0, .advance 0, .advance 0, .advance 0, .advance 0]

/-- One task has put `k` messages. -/
structure Queue.Filled (q : Queue) (k : Nat) : Prop where
  tasks : q.tasks = [.idle .ok]
  mutex : q.mutex = none
  empty : q.empty + k = q.max.toNat
  inn : q.inn.toNat = k % q.max.toNat
  stores : ∀ j < k, j ∈ q.stores

theorem Queue.Filled.put {q : Queue} {k : Nat} (h : q.Filled k) (hk : k < q.max.toNat)
    (m : UsbMessage) : (run queueStep q (putOnce m)).Filled (k + 1) := by
  have hempty := h.empty
  have hne : q.empty ≠ 0 := by omega
  have hinn : q.inn.toNat = k := by rw [h.inn, Nat.mod_eq_of_lt hk]
  have hrun : run queueStep q (putOnce m) =
      { q with
        empty := q.empty - 1
        messages := Function.update q.messages q.inn.toNat m
        stores := q.inn.toNat :: q.stores
        inn := wrapIndex q.max q.inn
        inUse := q.inUse + 1
        puts := q.puts ++ [m]
        mutex := none
        tasks := [.idle .ok] } := by
    simp only [putOnce, run_cons, run_nil, queueStep, h.tasks, List.getD_cons_zero, Queue.call,
      Queue.goto, List.set_cons_zero, Queue.advance, if_neg hne, h.mutex, if_true]
  rw [hrun]
  refine ⟨rfl, rfl, ?_, ?_, ?_⟩
  · show q.empty - 1 + (k + 1) = q.max.toNat
    omega
  · show (wrapIndex q.max q.inn).toNat = (k + 1) % q.max.toNat
    rw [Queue.wrapIndex_toNat (hinn ▸ hk), hinn]
  · intro j hj
    rcases Nat.lt_succ_iff_lt_or_eq.mp hj with hlt | rfl
    · exact List.mem_cons_of_mem _ (h.stores j hlt)
    · rw [← hinn]
      exact List.mem_cons_self

/-- The only task fills the queue. -/
theorem Queue.Filled.fill {q : Queue} (h : q.Filled 0) {k : Nat} (hk : k ≤ q.max.toNat) :
    ∃ es, (run queueStep q es).Filled k := by
  induction k with
  | zero => exact ⟨[], h⟩
  | succ k ih =>
      obtain ⟨es, hes⟩ := ih (Nat.le_of_succ_le hk)
      refine ⟨es ++ putOnce ⟨0, 0, 0⟩, ?_⟩
      rw [run_append]
      exact hes.put (by rw [(Queue.run_size q es).1]; exact hk) _

/-- A queue of more slots than its memory holds is written past its end. -/
theorem large_unbounded {depth : UInt16} {pQueueHandle : Bool} {env : QueueAnswers} {q : Queue}
    (h : usbQueueCreate depth pQueueHandle env = .ok q) (hlarge : ¬ depth.toNat ≤ 8189) :
    ¬ ∀ es, Always queueStep Queue.Bounded q es := by
  intro hall
  obtain ⟨hpos, rfl⟩ := usbQueueCreate_ok h
  have hfilled : (queueStep (.created depth) .spawn).Filled 0 :=
    ⟨rfl, rfl, rfl, (Nat.zero_mod _).symm, fun j hj => absurd hj j.not_lt_zero⟩
  obtain ⟨es, hes⟩ := hfilled.fill (k := depth.toNat) le_rfl
  obtain ⟨-, hlen⟩ := Queue.run_size (.created depth) (.spawn :: es)
  have hlast := (hall (.spawn :: es) _ (List.prefix_refl _)).within (depth.toNat - 1)
    (hes.stores _ (Nat.sub_lt hpos Nat.one_pos))
  unfold Queue.Within at hlast
  rw [hlen, Nat.sub_add_cancel hpos] at hlast
  exact hlarge ((queueLen_enough_iff hpos).mp hlast)

/-- A queue is a bounded queue, in every run of any number of tasks, exactly if its depth
is at most 8189. -/
theorem usbQueue_bounded_iff {depth : UInt16} {pQueueHandle : Bool} {env : QueueAnswers}
    {q : Queue} (h : usbQueueCreate depth pQueueHandle env = .ok q) :
    (∀ es, Always queueStep Queue.Bounded q es) ↔ depth.toNat ≤ 8189 := by
  constructor
  · intro hall
    by_contra hlarge
    exact large_unbounded h hlarge hall
  · intro hdepth es pre _
    obtain ⟨l, hl⟩ : ∃ l, (run queueStep q pre).Inv l :=
      Queue.run_inv ⟨[], usbQueueCreate_inv h⟩
    obtain ⟨hmax, hlen⟩ := Queue.run_size q pre
    refine hl.bounded ?_
    obtain ⟨hpos, rfl⟩ := usbQueueCreate_ok h
    rw [hmax, hlen]
    exact (queueLen_enough_iff hpos).mpr hdepth

/-- A queue of four messages. -/
theorem usbQueue_bounded_four :
    (∀ es, Always queueStep Queue.Bounded (.created 4) es) ↔ (4 : UInt16).toNat ≤ 8189 :=
  usbQueue_bounded_iff
    (show usbQueueCreate 4 true ⟨true, true, true, true⟩ = .ok (.created 4) from rfl)

/-- A queue of 8190 messages, in 4 bytes. -/
theorem usbQueue_overrun :
    ¬ ∀ (depth : UInt16) (pQueueHandle : Bool) (env : QueueAnswers) (q : Queue),
      usbQueueCreate depth pQueueHandle env = .ok q →
        ∀ es, Always queueStep Queue.Bounded q es := by
  intro h
  have hcreate : usbQueueCreate 8190 true ⟨true, true, true, true⟩ = .ok (.created 8190) := rfl
  exact large_unbounded hcreate (by decide) (h _ _ _ _ hcreate)

end VxWorks.Usb
