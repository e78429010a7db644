import Mathlib.Data.List.Basic
import Mathlib.Algebra.BigOperators.Group.List.Basic
import Mathlib.Algebra.Ring.Nat
import VxWorks.Lib.Run

/-!
# Data toggles (usbTargLib.c)

The packets of a bulk or interrupt pipe are numbered modulo two, and each end drops
a packet whose number is not the one it waits for. The numbering goes on from one
transfer to the next: a pipe keeps the number of its next packet in `dataToggle`,
`usbTargTransfer` puts it into the ERP for the driver to begin with, and when the
driver has completed the ERP `usbTargErpCallback` counts the packets it took.

The toggle is read when an ERP is submitted and moved on when it completes, so an
ERP that is submitted while another is outstanding starts with the toggle of the
other one. And the count is a count of 16 bits, of quotients of 32 bits; an overflow
costs nothing in a number modulo two except where the count is compared with zero.

A history of a pipe is kept beside it: which ERPs were submitted since when, with
which toggle, and how many packets they exchanged in the end. The driver completes
ERPs in the order it got them.
-/

namespace VxWorks.Usb

open VxWorks.Lib

inductive XfrType where
  | control | isoch | interrupt | bulk
deriving DecidableEq, Repr

/-- `USB_DATA0` and `USB_DATA1`. -/
inductive DataToggle where
  | data0 | data1
deriving DecidableEq, Repr

def DataToggle.other : DataToggle → DataToggle
  | .data0 => .data1
  | .data1 => .data0

/-- What a transfer reads of the endpoint a pipe is on. -/
structure TargEndpoint where
  transferType : XfrType
  maxPacketSize : UInt16
  pos : 0 < maxPacketSize.toNat

/-- What a transfer reads and writes of a pipe; of an ERP, that is its toggle. -/
structure TargPipe where
  endpoint : TargEndpoint
  dataToggle : DataToggle
  /-- the last one submitted first -/
  erps : List DataToggle

/-- `usbTargTransfer` on a valid pipe: `toggle` is what the caller has put into the
ERP, `accepted` what the driver answers. -/
def usbTargTransfer (toggle : DataToggle) (accepted : Bool) (p : TargPipe) :
    DataToggle × TargPipe :=
  let erp := if p.endpoint.transferType ≠ .control then p.dataToggle else toggle
  (erp, if accepted then { p with erps := erp :: p.erps } else p)

/-- The packets of one buffer, on a `UINT32`. -/
def bfrPackets (maxPacketSize : UInt16) (actLen : UInt32) : UInt32 :=
  (actLen + maxPacketSize.toUInt32 - 1) / maxPacketSize.toUInt32

/-- `packets`, a `UINT16`. -/
def erpPackets (maxPacketSize : UInt16) (ok : Bool) (bfrList : List UInt32) : UInt16 :=
  let packets := bfrList.foldl
    (fun packets actLen => packets + (bfrPackets maxPacketSize actLen).toUInt16) 0
  if ok ∧ packets < 1 then 1 else packets

/-- `usbTargErpCallback` for the ERP that was submitted first, up to the callback of the
user. -/
def usbTargErpCallback (ok : Bool) (bfrList : List UInt32) (p : TargPipe) : TargPipe :=
  let p := { p with erps := p.erps.dropLast }
  if p.endpoint.transferType = .interrupt ∨ p.endpoint.transferType = .bulk then
    if erpPackets p.endpoint.maxPacketSize ok bfrList &&& 1 ≠ 0 then
      { p with dataToggle := p.dataToggle.other }
    else p
  else p

/-- `resetDataToggle` on a pipe it concerns. -/
def resetDataToggle (p : TargPipe) : TargPipe := { p with dataToggle := .data0 }

/-! ## What was exchanged -/

/-- The packets an ERP exchanges: as many as its buffers take, and one at least when it
succeeds. -/
def exchanged (maxPacketSize : Nat) (ok : Bool) (bfrList : List UInt32) : Nat :=
  let packets := (bfrList.map fun actLen => (actLen.toNat + maxPacketSize - 1) / maxPacketSize).sum
  if ok then max packets 1 else packets

/-- An ERP in the history of its pipe: the reset it came after, its toggle, and the
packets it exchanged when it is complete. -/
structure Submitted where
  epoch : Nat
  toggle : DataToggle
  packets : Option Nat
deriving DecidableEq, Repr

/-- A pipe with its history, the last ERP first. -/
structure PipeHistory where
  pipe : TargPipe
  epoch : Nat
  log : List Submitted

inductive PipeEvent where
  | submit (toggle : DataToggle) (accepted : Bool)
  | complete (ok : Bool) (bfrList : List UInt32)
  | reset

/-- The packets of the first ERP that is still outstanding. -/
def completeFirst (packets : Nat) : List Submitted → List Submitted
  | [] => []
  | e :: earlier =>
      if ∃ x ∈ earlier, x.packets = none then e :: completeFirst packets earlier
      else if e.packets = none then { e with packets := some packets } :: earlier
      else e :: earlier

def pipeStep (h : PipeHistory) : PipeEvent → PipeHistory
  | .submit toggle accepted =>
      let (erp, p) := usbTargTransfer toggle accepted h.pipe
      { h with pipe := p, log := if accepted then ⟨h.epoch, erp, none⟩ :: h.log else h.log }
  | .complete ok bfrList =>
      if h.pipe.erps = [] then h
      else
        { h with
          pipe := usbTargErpCallback ok bfrList h.pipe
          log := completeFirst (exchanged h.pipe.endpoint.maxPacketSize.toNat ok bfrList) h.log }
  | .reset => { h with pipe := resetDataToggle h.pipe, epoch := h.epoch + 1 }

/-- The toggle behind a number of packets. -/
def toggleAfter (packets : Nat) : DataToggle := if packets % 2 = 0 then .data0 else .data1

/-- The packets exchanged since a reset, if all the ERPs submitted since are complete. -/
def packetsSince (epoch : Nat) : List Submitted → Option Nat
  | [] => some 0
  | e :: earlier =>
      if e.epoch = epoch then
        match e.packets, packetsSince epoch earlier with
        | some k, some n => some (n + k)
        | _, _ => none
      else packetsSince epoch earlier

/-- Every ERP starts with the toggle behind the packets of the ones before it. -/
def TogglesContinue : List Submitted → Prop
  | [] => True
  | e :: earlier =>
      (∀ n, packetsSince e.epoch earlier = some n → e.toggle = toggleAfter n) ∧
        TogglesContinue earlier

/-! ## The count -/

/-- No buffer is so long that its packets overflow, and a transfer that succeeds does
not take a multiple of 65536 packets. -/
def CountsRight (maxPacketSize : Nat) (ok : Bool) (bfrList : List UInt32) : Prop :=
  (∀ actLen ∈ bfrList, actLen.toNat + maxPacketSize - 1 < 0x100000000) ∧
    (ok = true → exchanged maxPacketSize false bfrList = 0 ∨
      exchanged maxPacketSize false bfrList % 65536 ≠ 0)

theorem toNat_bfrPackets {maxPacketSize : UInt16} {actLen : UInt32} (hpos : 0 < maxPacketSize.toNat)
    (h : actLen.toNat + maxPacketSize.toNat - 1 < 0x100000000) :
    (bfrPackets maxPacketSize actLen).toNat =
      (actLen.toNat + maxPacketSize.toNat - 1) / maxPacketSize.toNat := by
  have hmax := maxPacketSize.toNat_lt
  rw [bfrPackets, UInt32.toNat_div, UInt32.toNat_sub, UInt32.toNat_add, UInt16.toNat_toUInt32]
  congr 1
  have h1 : (1 : UInt32).toNat = 1 := rfl
  rw [h1]
  omega

theorem toNat_foldl_packets (maxPacketSize : UInt16) (bfrList : List UInt32) (n : UInt16) :
    (bfrList.foldl (fun packets actLen => packets + (bfrPackets maxPacketSize actLen).toUInt16)
      n).toNat =
      (n.toNat + (bfrList.map fun actLen => (bfrPackets maxPacketSize actLen).toNat).sum) %
        65536 := by
  induction bfrList generalizing n with
  | nil =>
      have := n.toNat_lt
      simp only [List.foldl_nil, List.map_nil, List.sum_nil]
      omega
  | cons actLen rest ih =>
      rw [List.foldl_cons, ih, List.map_cons, List.sum_cons, UInt16.toNat_add,
        UInt32.toNat_toUInt16]
      omega

/-- Where the count is right, it is odd when the number of packets is. -/
theorem erpPackets_odd {maxPacketSize : UInt16} {ok : Bool} {bfrList : List UInt32}
    (hpos : 0 < maxPacketSize.toNat) (h : CountsRight maxPacketSize.toNat ok bfrList) :
    erpPackets maxPacketSize ok bfrList &&& 1 ≠ 0 ↔
      exchanged maxPacketSize.toNat ok bfrList % 2 = 1 := by
  obtain ⟨hlen, hwrap⟩ := h
  have hlow : ∀ k : UInt16, k &&& 1 ≠ 0 ↔ k.toNat % 2 = 1 := by
    intro k
    rw [ne_eq, ← UInt16.toNat_inj, UInt16.toNat_and]
    show ¬ k.toNat &&& 1 = 0 ↔ k.toNat % 2 = 1
    rw [Nat.and_one_is_mod]
    omega
  have hmap : (bfrList.map fun actLen => (bfrPackets maxPacketSize actLen).toNat) =
      bfrList.map fun actLen =>
        (actLen.toNat + maxPacketSize.toNat - 1) / maxPacketSize.toNat :=
    List.map_congr_left fun actLen hmem => toNat_bfrPackets hpos (hlen actLen hmem)
  have hfold := toNat_foldl_packets maxPacketSize bfrList 0
  rw [hmap, UInt16.toNat_zero, Nat.zero_add] at hfold
  rw [hlow]
  cases ok with
  | false =>
      simp only [erpPackets, exchanged, Bool.false_eq_true, false_and, if_false, hfold]
      omega
  | true =>
      have hlt : ∀ k : UInt16, k < 1 ↔ k.toNat = 0 := by
        intro k
        rw [UInt16.lt_iff_toNat_lt]
        show k.toNat < 1 ↔ k.toNat = 0
        omega
      simp only [erpPackets, exchanged, true_and, if_true, Bool.false_eq_true, if_false, hlt,
        hfold, forall_const] at hwrap ⊢
      split
      · show 1 % 2 = 1 ↔ _
        rcases hwrap with h0 | h0 <;> omega
      · rw [hfold]
        rcases hwrap with h0 | h0 <;> omega

/-! ## Runs -/

theorem toggleAfter_add (n k : Nat) :
    toggleAfter (n + k) = if k % 2 = 1 then (toggleAfter n).other else toggleAfter n := by
  unfold toggleAfter
  split <;> split <;> split <;> first | rfl | omega

theorem packetsSince_none {epoch : Nat} {log : List Submitted} (h : ∀ x ∈ log, x.epoch < epoch) :
    packetsSince epoch log = some 0 := by
  induction log with
  | nil => rfl
  | cons e earlier ih =>
      have he := h e List.mem_cons_self
      rw [packetsSince, if_neg (by omega)]
      exact ih fun x hx => h x (List.mem_cons_of_mem _ hx)

/-- ERPs are submitted one at a time, toggles are reset between them, and they are
counted right. -/
def OneAtATime (h : PipeHistory) : PipeEvent → Prop
  | .submit _ accepted => accepted = true → h.pipe.erps = []
  | .complete ok bfrList => CountsRight h.pipe.endpoint.maxPacketSize.toNat ok bfrList
  | .reset => h.pipe.erps = []

/-- Everything before is complete, and the pipe has the toggle behind it. -/
structure CaughtUp (h : PipeHistory) (log : List Submitted) : Prop where
  complete : ∀ x ∈ log, x.packets ≠ none
  epoch : ∀ x ∈ log, x.epoch ≤ h.epoch
  toggle : ∃ n, packetsSince h.epoch log = some n ∧ h.pipe.dataToggle = toggleAfter n

structure ToggleInv (h : PipeHistory) : Prop where
  type : h.pipe.endpoint.transferType = .interrupt ∨ h.pipe.endpoint.transferType = .bulk
  continues : TogglesContinue h.log
  outstanding : (h.pipe.erps = [] ∧ CaughtUp h h.log) ∨
    ∃ t e earlier, h.pipe.erps = [t] ∧ h.log = e :: earlier ∧ e.packets = none ∧
      e.epoch = h.epoch ∧ CaughtUp h earlier

section

variable {h : PipeHistory}

theorem ToggleInv.submit (hi : ToggleInv h) (toggle : DataToggle) {accepted : Bool}
    (hg : OneAtATime h (.submit toggle accepted)) :
    ToggleInv (pipeStep h (.submit toggle accepted)) := by
  have hcontrol : h.pipe.endpoint.transferType ≠ .control := by
    rcases hi.type with h1 | h1 <;> simp [h1]
  simp only [pipeStep, usbTargTransfer, if_pos hcontrol]
  cases accepted with
  | false => exact hi
  | true =>
      have hempty : h.pipe.erps = [] := hg rfl
      have hcaught : CaughtUp h h.log := by
        rcases hi.outstanding with ⟨-, hc⟩ | ⟨t, e, earlier, herps, -⟩
        · exact hc
        · exact absurd (herps.symm.trans hempty) (by simp)
      obtain ⟨n, hn, htog⟩ := hcaught.toggle
      simp only [hempty, if_true]
      refine ⟨hi.type, ⟨?_, hi.continues⟩, .inr ⟨_, _, h.log, rfl, rfl, rfl, rfl, ?_⟩⟩
      · intro m hm
        obtain rfl : n = m := Option.some.inj (hn.symm.trans hm)
        exact htog
      · exact ⟨hcaught.complete, hcaught.epoch, n, hn, htog⟩

theorem ToggleInv.complete (hi : ToggleInv h) {ok : Bool} {bfrList : List UInt32}
    (hg : OneAtATime h (.complete ok bfrList)) :
    ToggleInv (pipeStep h (.complete ok bfrList)) := by
  rcases hi.outstanding with ⟨hempty, hc⟩ | ⟨t, e, earlier, herps, hlog, hnone, hepoch, hc⟩
  · simp only [pipeStep, hempty, if_true]
    exact hi
  · obtain ⟨n, hn, htog⟩ := hc.toggle
    obtain ⟨k, hk⟩ : ∃ k, exchanged h.pipe.endpoint.maxPacketSize.toNat ok bfrList = k := ⟨_, rfl⟩
    have hfinish : completeFirst k h.log = { e with packets := some k } :: earlier := by
      have hno : ¬ ∃ x ∈ earlier, x.packets = none := fun ⟨x, hx, hxn⟩ => hc.complete x hx hxn
      rw [hlog, completeFirst, if_neg hno, if_pos hnone]
    have hcallback : usbTargErpCallback ok bfrList h.pipe =
        { h.pipe with erps := [], dataToggle := toggleAfter (n + k) } := by
      have hodd := erpPackets_odd h.pipe.endpoint.pos hg
      rw [hk] at hodd
      simp only [usbTargErpCallback, if_pos hi.type, herps, List.dropLast_singleton]
      rw [toggleAfter_add, ← htog]
      by_cases hodd' : k % 2 = 1
      · rw [if_pos (hodd.mpr hodd'), if_pos hodd']
      · rw [if_neg (fun hne => hodd' (hodd.mp hne)), if_neg hodd']
    simp only [pipeStep, herps, hk, hfinish, hcallback]
    rw [if_neg (by simp)]
    have hcont := hi.continues
    rw [hlog] at hcont
    refine ⟨hi.type, ⟨hcont.1, hcont.2⟩, .inl ⟨rfl, ?_, ?_, n + k, ?_, rfl⟩⟩
    · intro x hx
      rcases List.mem_cons.mp hx with rfl | hx
      · simp
      · exact hc.complete x hx
    · intro x hx
      rcases List.mem_cons.mp hx with rfl | hx
      · exact Nat.le_of_eq hepoch
      · exact hc.epoch x hx
    · simp only [packetsSince, hepoch, if_true, hn]

theorem ToggleInv.reset (hi : ToggleInv h) (hg : OneAtATime h .reset) :
    ToggleInv (pipeStep h .reset) := by
  have hcaught : CaughtUp h h.log := by
    rcases hi.outstanding with ⟨-, hc⟩ | ⟨t, e, earlier, herps, -⟩
    · exact hc
    · exact absurd (herps.symm.trans hg) (by simp)
  refine ⟨hi.type, hi.continues, .inl ⟨hg, hcaught.complete, ?_, 0, ?_, rfl⟩⟩
  · intro x hx
    exact Nat.le_succ_of_le (hcaught.epoch x hx)
  · exact packetsSince_none fun x hx => Nat.lt_succ_of_le (hcaught.epoch x hx)

end

/-- A pipe as `usbTargPipeCreate` leaves it. -/
def newPipe (endpoint : TargEndpoint) : PipeHistory := ⟨⟨endpoint, .data0, []⟩, 0, []⟩

/-- As long as there is one ERP at a time, every one of them goes on where the last
one stopped. -/
theorem toggles_continue (endpoint : TargEndpoint)
    (htype : endpoint.transferType = .interrupt ∨ endpoint.transferType = .bulk)
    (es : List PipeEvent) (hg : Guarded pipeStep OneAtATime (newPipe endpoint) es) :
    Always pipeStep (fun h => TogglesContinue h.log) (newPipe endpoint) es := by
  have hinit : ToggleInv (newPipe endpoint) :=
    ⟨htype, trivial, .inl ⟨rfl, by simp [newPipe], by simp [newPipe], 0, rfl, rfl⟩⟩
  have hstep : ∀ h e, ToggleInv h → OneAtATime h e → ToggleInv (pipeStep h e) := by
    intro h e hi he
    cases e with
    | submit toggle accepted => exact hi.submit toggle he
    | complete ok bfrList => exact hi.complete he
    | reset => exact hi.reset he
  intro pre hpre
  exact (always_of_guarded ToggleInv hinit hstep hg pre hpre).continues

/-- A bulk endpoint with packets of 64 octets. -/
def bulk64 : TargEndpoint := ⟨.bulk, 64, by decide⟩

theorem toggles_continue_bulk :
    Always pipeStep (fun h => TogglesContinue h.log) (newPipe bulk64)
      [.submit .data0 true, .complete true [100], .submit .data0 true] := by
  refine toggles_continue bulk64 (.inr rfl) _ ?_
  refine guarded_cons (fun _ => rfl) (guarded_cons ⟨?_, fun _ => .inr (by decide)⟩
    (guarded_cons (fun _ => rfl) guarded_nil))
  intro actLen hmem
  obtain rfl := List.mem_singleton.mp hmem
  decide

/-- Two ERPs outstanding at once start with the same toggle; and 65536 packets are
counted as one. -/
theorem toggles_break :
    (¬ Always pipeStep (fun h => TogglesContinue h.log) (newPipe bulk64)
      [.submit .data0 true, .submit .data0 true, .complete true [64], .complete true [64]]) ∧
    ¬ Always pipeStep (fun h => TogglesContinue h.log) (newPipe bulk64)
      [.submit .data0 true, .complete true [0x400000], .submit .data0 true] := by
  constructor
  · intro h
    have hlast := (h _ (List.prefix_refl _)).1 1 (by decide)
    exact absurd hlast (by decide)
  · intro h
    have hlast := (h _ (List.prefix_refl _)).1 65536 (by decide)
    exact absurd hlast (by decide)

end VxWorks.Usb
