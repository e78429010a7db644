import Mathlib.Data.List.Forall2
import Mathlib.Tactic.IntervalCases
import VxWorks.Lib.Run
import VxWorks.Drv.Ax88796Send

/-!
# What a short packet is padded with (ax88796end.c)

A packet shorter than `ETHERSMALL` is sent as that many bytes all the same. The length is
raised after the packet has been copied into the buffer, and the buffer is the one that all
packets went through: cleared once, when the device was loaded, and since then written over
from the front, by each packet as far as it reaches. So what stands behind a packet is, at
each place, from the last packet before it that reached there.

To compare two runs, a run is anything that may happen to the device between sends; of all
that, the buffer shows only the packets that were copied.
-/

namespace VxWorks.Drv

open VxWorks.Lib

/-! ## The bytes written to the chip -/

/-- The bytes of a long in the order of the buffer. -/
def bytesOf (temp : UInt32) : List UInt8 :=
  [(temp >>> 16).toUInt8, (temp >>> 24).toUInt8, temp.toUInt8, (temp >>> 8).toUInt8]

/-- The first `skb.len` bytes that `axend_block_output` wrote. -/
def Queued.bytes (f : Queued) : List UInt8 := (f.longs.flatMap bytesOf).take f.count

theorem uint8_eq_of_bits {a b : UInt8}
    (h : ∀ i < 8, a.toBitVec.getLsbD i = b.toBitVec.getLsbD i) : a = b := by
  apply UInt8.toBitVec_inj.mp
  ext i hi
  rw [← BitVec.getLsbD_eq_getElem, ← BitVec.getLsbD_eq_getElem]
  exact h i hi

theorem bytesOf_join (a b c d : UInt8) :
    bytesOf (b.toUInt32 <<< 24 ||| a.toUInt32 <<< 16 ||| d.toUInt32 <<< 8 ||| c.toUInt32) =
      [a, b, c, d] := by
  rw [bytesOf, List.cons.injEq, List.cons.injEq, List.cons.injEq, List.cons.injEq]
  refine ⟨uint8_eq_of_bits fun i hi => ?_, uint8_eq_of_bits fun i hi => ?_,
    uint8_eq_of_bits fun i hi => ?_, uint8_eq_of_bits fun i hi => ?_, rfl⟩
  all_goals
    simp only [UInt32.toBitVec_toUInt8, UInt32.toBitVec_or, UInt32.toBitVec_shiftLeft,
      UInt32.toBitVec_shiftRight, UInt8.toBitVec_toUInt32]
    interval_cases i <;> simp

theorem longs_bytes (pData : Nat → UInt8) (len n : Nat) :
    ((List.range n).map fun k => Pkt.temp { len := len, pData := pData } (4 * k)).flatMap bytesOf =
      (List.range (4 * n)).map pData := by
  induction n with
  | zero => rfl
  | succ n ih =>
      rw [List.range_succ, List.map_append, List.flatMap_append, ih, Nat.mul_succ]
      rw [List.range_succ, List.range_succ, List.range_succ, List.range_succ]
      simp [Pkt.temp, bytesOf_join]

/-- What is written for a frame is the buffer, as far as the frame reaches. -/
theorem queued_bytes (skb : Pkt) (page : Nat) :
    Queued.bytes { page := page, count := skb.len, longs := skb.longs } =
      (List.range skb.len).map skb.pData := by
  have hlen : skb.len ≤ 4 * ((skb.len + 3) / 4) := by omega
  rw [Queued.bytes, Pkt.longs, longs_bytes, ← List.map_take, List.take_range,
    Nat.min_eq_left hlen]

/-! ## Runs -/

/-- What may happen to the device. -/
inductive SendEvent where
  | send (pMblk : MBlkChain)
  | pollSend (pMblk : MBlkChain)
  /-- anything else, of which nothing is known but that it leaves the buffer alone -/
  | other (d : EndDevice)

/-- The device, and on record the packets copied to its buffer, the last one first. -/
structure SendRun where
  dev : EndDevice
  copied : List MBlkChain

/-- The device is loaded, with a buffer that is cleared. -/
def SendRun.loaded (d : EndDevice) : SendRun :=
  { dev := { d with txBuf := fun _ => 0 }, copied := [] }

/-- The device is busy, says `ax88796PollSend`. -/
def EndDevice.Busy (d : EndDevice) : Prop :=
  d.ax88796StatusRead &&& (ax88796Tint ||| ax88796Tfull) = 0

instance EndDevice.decidableBusy (d : EndDevice) : Decidable d.Busy :=
  inferInstanceAs (Decidable (_ = _))

/-- The byte at place `i` of the buffer: of the last packet copied that reaches there. -/
def residue (copied : List MBlkChain) (i : Nat) : UInt8 :=
  ((copied.find? fun pMblk => i < pMblk.bytes.length).bind fun pMblk => pMblk.bytes[i]?).getD 0

/-- What `netMblkToBufCopy` is documented to do. -/
structure Copies (netMblkToBufCopy : MBlkChain → (Nat → UInt8) → Nat × (Nat → UInt8)) : Prop where
  len : ∀ pMblk buf, (netMblkToBufCopy pMblk buf).1 = pMblk.bytes.length
  data : ∀ pMblk buf i (h : i < pMblk.bytes.length),
    (netMblkToBufCopy pMblk buf).2 i = pMblk.bytes[i]
  rest : ∀ pMblk buf i, pMblk.bytes.length ≤ i → (netMblkToBufCopy pMblk buf).2 i = buf i

section

variable (netMblkToBufCopy : MBlkChain → (Nat → UInt8) → Nat × (Nat → UInt8))

def SendRun.step (r : SendRun) : SendEvent → SendRun
  | .send pMblk =>
      { dev := (r.dev.ax88796Send netMblkToBufCopy pMblk).2, copied := pMblk :: r.copied }
  | .pollSend pMblk =>
      { dev := (r.dev.ax88796PollSend netMblkToBufCopy pMblk).2
        copied := if r.dev.Busy then r.copied else pMblk :: r.copied }
  | .other d => { r with dev := { d with txBuf := r.dev.txBuf } }

/-- The packet is sent, by one routine or the other. -/
def EndDevice.sendBy (d : EndDevice) (poll : Bool) (pMblk : MBlkChain) : Status × EndDevice :=
  if poll then d.ax88796PollSend netMblkToBufCopy pMblk
  else d.ax88796Send netMblkToBufCopy pMblk

/-- The first `skb.len` bytes written to the chip for the packet, if it is handed over. -/
def EndDevice.written (d : EndDevice) (poll : Bool) (pMblk : MBlkChain) : Option (List UInt8) :=
  (d.sendBy netMblkToBufCopy poll pMblk).2.chip.queue[d.chip.queue.length]?.map Queued.bytes

/-- The packet is handed over. -/
def EndDevice.Accepts (d : EndDevice) (poll : Bool) (pMblk : MBlkChain) : Prop :=
  (poll = true → ¬ d.Busy) ∧ ¬ d.Refuses (d.toBuf netMblkToBufCopy pMblk)

end

/-! ## One call -/

theorem axendStartTransmit_txBuf (d : EndDevice) (skb : Pkt) :
    (d.axendStartTransmit skb).2.txBuf = d.txBuf := by
  by_cases hlen : skb.len = 0
  · rw [EndDevice.axendStartTransmit, if_pos hlen]
  by_cases hrefuses : d.Refuses skb
  · by_cases hfull : d.chip.ctepr &&& encteprtTxcqf = 0
    · rw [axendStartTransmit_of_pages d hlen hfull hrefuses]
    · rw [axendStartTransmit_of_full d hlen hfull]
  · rw [axendStartTransmit_of_queued d hlen hrefuses]
    rfl

theorem axendStartTransmit_queue (d : EndDevice) {skb : Pkt} (hlen : skb.len ≠ 0) :
    (d.axendStartTransmit skb).2.chip.queue =
      if d.Refuses skb then d.chip.queue
      else d.chip.queue ++
        [{ page := d.pageInfo.txCurrPage, count := skb.len, longs := skb.longs }] := by
  by_cases hrefuses : d.Refuses skb
  · rw [if_pos hrefuses]
    by_cases hfull : d.chip.ctepr &&& encteprtTxcqf = 0
    · rw [axendStartTransmit_of_pages d hlen hfull hrefuses]
    · rw [axendStartTransmit_of_full d hlen hfull]
  · rw [if_neg hrefuses, axendStartTransmit_of_queued d hlen hrefuses]
    rfl

/-- What the routines look at to decide, apart from the packet. -/
structure Control where
  isr : UInt8
  rsr : UInt8
  ctepr : UInt8
  pageInfo : PageInfo
  polling : Bool
  txPktCnt : Int

def EndDevice.control (d : EndDevice) : Control where
  isr := d.chip.isr
  rsr := d.chip.rsr
  ctepr := d.chip.ctepr
  pageInfo := d.pageInfo
  polling := d.polling
  txPktCnt := d.txPktCnt

/-- Two devices agree on what the routines have left in the buffer and done to the chip. -/
structure EndDevice.SameEnd (d t : EndDevice) : Prop where
  txBuf : d.txBuf = t.txBuf
  chip : d.chip = t.chip
  control : d.control = t.control

theorem ended_same (d : EndDevice) (oldLevel : Bool) (pMblk : MBlkChain) (rtnval : Nat) :
    (d.ended oldLevel pMblk rtnval).2.SameEnd d := by
  by_cases hone : rtnval = 1
  · rw [hone, ended_one]
    exact ⟨rfl, rfl, rfl⟩
  · rw [ended_of_ne_one _ _ _ hone]
    exact ⟨rfl, rfl, rfl⟩

section

variable {netMblkToBufCopy : MBlkChain → (Nat → UInt8) → Nat × (Nat → UInt8)}
  {d : EndDevice} {pMblk : MBlkChain} {poll : Bool}

theorem sendBy_of_busy (hbusy : d.Busy) :
    d.sendBy netMblkToBufCopy true pMblk = (.eagain, d) := by
  have hpoll : d.sendBy netMblkToBufCopy true pMblk =
      d.ax88796PollSend netMblkToBufCopy pMblk := rfl
  rw [hpoll, EndDevice.ax88796PollSend]
  exact if_pos hbusy

/-- Both routines hand the packet to `axend_start_transmit` in the same way. -/
theorem sendBy_eq (hready : poll = true → ¬ d.Busy) :
    ∃ e : EndDevice, e.chip = d.chip ∧ e.control = d.control ∧
      e.txBuf = (d.toBuf netMblkToBufCopy pMblk).pData ∧
      (d.sendBy netMblkToBufCopy poll pMblk).2.SameEnd
        (e.axendStartTransmit (d.toBuf netMblkToBufCopy pMblk)).2 := by
  cases poll with
  | true =>
      refine ⟨{ d with
        intLocked := true
        txBuf := (d.toBuf netMblkToBufCopy pMblk).pData }, rfl, rfl, rfl, ?_⟩
      have hpoll : d.sendBy netMblkToBufCopy true pMblk =
          d.ax88796PollSend netMblkToBufCopy pMblk := rfl
      rw [hpoll, EndDevice.ax88796PollSend]
      split
      · exact absurd ‹_› (hready rfl)
      · exact ⟨rfl, rfl, rfl⟩
  | false =>
      refine ⟨d.begun netMblkToBufCopy pMblk, ?_, ?_, ?_, ended_same _ _ _ _⟩
      · rw [begun_eq]
      · rw [begun_eq]
        rfl
      · rw [begun_eq]

theorem EndDevice.refuses_congr {e : EndDevice} {skb skb' : Pkt} (h : e.control = d.control)
    (hlen : skb'.len = skb.len) : e.Refuses skb' ↔ d.Refuses skb := by
  have hctepr : e.chip.ctepr = d.chip.ctepr := congrArg Control.ctepr h
  have hpageInfo : e.pageInfo = d.pageInfo := congrArg Control.pageInfo h
  have hneed : needPages skb' = needPages skb := by rw [needPages, needPages, hlen]
  rw [EndDevice.Refuses, EndDevice.Refuses, hctepr, hpageInfo, hneed]

theorem EndDevice.busy_congr {e : EndDevice} (h : e.control = d.control) : e.Busy ↔ d.Busy := by
  have hisr : e.chip.isr = d.chip.isr := congrArg Control.isr h
  have hrsr : e.chip.rsr = d.chip.rsr := congrArg Control.rsr h
  have hpolling : e.polling = d.polling := congrArg Control.polling h
  have hcnt : e.txPktCnt = d.txPktCnt := congrArg Control.txPktCnt h
  rw [EndDevice.Busy, EndDevice.Busy, EndDevice.ax88796StatusRead, EndDevice.ax88796StatusRead,
    hisr, hrsr, hpolling, hcnt]

/-- The packet is in the buffer after the call, whether it was handed over or refused. -/
theorem sendBy_txBuf (hready : poll = true → ¬ d.Busy) :
    (d.sendBy netMblkToBufCopy poll pMblk).2.txBuf =
      (d.toBuf netMblkToBufCopy pMblk).pData := by
  obtain ⟨e, -, -, htxBuf, hsame⟩ :=
    sendBy_eq hready
  rw [hsame.txBuf, axendStartTransmit_txBuf, htxBuf]

theorem written_of_accepts (h : d.Accepts netMblkToBufCopy poll pMblk) :
    d.written netMblkToBufCopy poll pMblk =
      some ((List.range (d.toBuf netMblkToBufCopy pMblk).len).map
        (d.toBuf netMblkToBufCopy pMblk).pData) := by
  obtain ⟨e, hchip, hcontrol, -, hsame⟩ :=
    sendBy_eq h.1
  have hnot := mt (EndDevice.refuses_congr hcontrol rfl).mp h.2
  rw [EndDevice.written, hsame.chip,
    axendStartTransmit_queue e (toBuf_len_ne_zero netMblkToBufCopy d pMblk), if_neg hnot, hchip]
  simp [queued_bytes]

theorem written_of_not_accepts (h : ¬ d.Accepts netMblkToBufCopy poll pMblk) :
    d.written netMblkToBufCopy poll pMblk = none := by
  by_cases hready : poll = true → ¬ d.Busy
  · obtain ⟨e, hchip, hcontrol, -, hsame⟩ :=
      sendBy_eq hready
    have hrefuses : d.Refuses (d.toBuf netMblkToBufCopy pMblk) := by
      by_contra hnot
      exact h ⟨hready, hnot⟩
    have hrefuses' := (EndDevice.refuses_congr hcontrol rfl).mpr hrefuses
    rw [EndDevice.written, hsame.chip,
      axendStartTransmit_queue e (toBuf_len_ne_zero netMblkToBufCopy d pMblk),
      if_pos hrefuses', hchip]
    simp
  · obtain ⟨rfl, hbusy⟩ := Classical.not_imp.mp hready
    rw [EndDevice.written, sendBy_of_busy (not_not.mp hbusy)]
    simp

end

/-! ## The buffer -/

theorem residue_of_lt {pMblk : MBlkChain} {i : Nat} (h : i < pMblk.bytes.length)
    (copied : List MBlkChain) : residue (pMblk :: copied) i = pMblk.bytes[i] := by
  rw [residue, List.find?_cons_of_pos (by simpa using h)]
  simp [h]

theorem residue_of_le {pMblk : MBlkChain} {i : Nat} (h : pMblk.bytes.length ≤ i)
    (copied : List MBlkChain) : residue (pMblk :: copied) i = residue copied i := by
  rw [residue, List.find?_cons_of_neg (by simpa using h)]
  rfl

/-- The buffer holds what the packets copied have left there. -/
def SendRun.Filled (r : SendRun) : Prop := ∀ i, r.dev.txBuf i = residue r.copied i

section

variable {netMblkToBufCopy : MBlkChain → (Nat → UInt8) → Nat × (Nat → UInt8)}

theorem toBuf_len (hcopies : Copies netMblkToBufCopy) (d : EndDevice) (pMblk : MBlkChain) :
    (d.toBuf netMblkToBufCopy pMblk).len = max pMblk.bytes.length ethersmall := by
  rw [← hcopies.len pMblk d.txBuf]
  rfl

/-- What the packet leaves in the buffer. -/
theorem SendRun.Filled.toBuf {r : SendRun} (h : r.Filled) (hcopies : Copies netMblkToBufCopy)
    (pMblk : MBlkChain) (i : Nat) :
    (r.dev.toBuf netMblkToBufCopy pMblk).pData i = residue (pMblk :: r.copied) i := by
  have hpData : (r.dev.toBuf netMblkToBufCopy pMblk).pData =
      (netMblkToBufCopy pMblk r.dev.txBuf).2 := rfl
  rw [hpData]
  by_cases hi : i < pMblk.bytes.length
  · rw [hcopies.data _ _ _ hi, residue_of_lt hi]
  · rw [hcopies.rest _ _ _ (not_lt.mp hi), residue_of_le (not_lt.mp hi), h i]

theorem SendRun.Filled.step {r : SendRun} (h : r.Filled) (hcopies : Copies netMblkToBufCopy)
    (e : SendEvent) : (r.step netMblkToBufCopy e).Filled := by
  intro i
  cases e with
  | send pMblk =>
      show (r.dev.sendBy netMblkToBufCopy false pMblk).2.txBuf i = residue (pMblk :: r.copied) i
      rw [sendBy_txBuf fun h => absurd h Bool.false_ne_true]
      exact h.toBuf hcopies pMblk i
  | pollSend pMblk =>
      show (r.dev.sendBy netMblkToBufCopy true pMblk).2.txBuf i =
        residue (if r.dev.Busy then r.copied else pMblk :: r.copied) i
      by_cases hbusy : r.dev.Busy
      · rw [sendBy_of_busy hbusy, if_pos hbusy]
        exact h i
      · rw [sendBy_txBuf fun _ => hbusy, if_neg hbusy]
        exact h.toBuf hcopies pMblk i
  | other d => exact h i

theorem filled_run (hcopies : Copies netMblkToBufCopy) (d : EndDevice) (es : List SendEvent) :
    (run (SendRun.step netMblkToBufCopy) (.loaded d) es).Filled :=
  always_of_guarded (G := fun _ _ => True) SendRun.Filled (fun _ => rfl)
    (fun _ e h _ => h.step hcopies e) (fun _ _ _ => trivial) es (List.prefix_refl es)

/-- What is written for an accepted packet: its bytes, and then what others have left. -/
theorem SendRun.Filled.written {r : SendRun} (h : r.Filled) (hcopies : Copies netMblkToBufCopy)
    {poll : Bool} {pMblk : MBlkChain} (haccepts : r.dev.Accepts netMblkToBufCopy poll pMblk) :
    r.dev.written netMblkToBufCopy poll pMblk =
      some ((List.range (max pMblk.bytes.length ethersmall)).map
        (residue (pMblk :: r.copied))) := by
  rw [written_of_accepts haccepts, toBuf_len hcopies]
  congr 1
  exact List.map_congr_left fun i _ => h.toBuf hcopies pMblk i

/-- The two calls write the same where they both hand the packet over and find the same
behind it, or neither does. -/
theorem written_eq_iff {r r' : SendRun} (h : r.Filled) (h' : r'.Filled)
    (hcopies : Copies netMblkToBufCopy) (poll : Bool) (pMblk : MBlkChain) :
    r.dev.written netMblkToBufCopy poll pMblk = r'.dev.written netMblkToBufCopy poll pMblk ↔
      (r.dev.Accepts netMblkToBufCopy poll pMblk ↔ r'.dev.Accepts netMblkToBufCopy poll pMblk) ∧
        (r.dev.Accepts netMblkToBufCopy poll pMblk → ∀ i, pMblk.bytes.length ≤ i →
          i < ethersmall → residue r.copied i = residue r'.copied i) := by
  by_cases ha : r.dev.Accepts netMblkToBufCopy poll pMblk
  · by_cases ha' : r'.dev.Accepts netMblkToBufCopy poll pMblk
    · rw [h.written hcopies ha, h'.written hcopies ha', Option.some.injEq, List.map_inj_left]
      constructor
      · refine fun hall => ⟨iff_of_true ha ha', ?_⟩
        intro _ i hle hlt
        rw [← residue_of_le hle, hall i (List.mem_range.mpr (lt_max_of_lt_right hlt)),
          residue_of_le hle]
      · intro hall i hi
        by_cases hlen : i < pMblk.bytes.length
        · rw [residue_of_lt hlen, residue_of_lt hlen]
        · have hsmall : i < ethersmall :=
            (lt_max_iff.mp (List.mem_range.mp hi)).resolve_left hlen
          rw [residue_of_le (not_lt.mp hlen), residue_of_le (not_lt.mp hlen)]
          exact hall.2 ha i (not_lt.mp hlen) hsmall
    · rw [h.written hcopies ha, written_of_not_accepts ha']
      exact iff_of_false (Option.some_ne_none _) fun hboth => ha' (hboth.1.mp ha)
  · by_cases ha' : r'.dev.Accepts netMblkToBufCopy poll pMblk
    · rw [h'.written hcopies ha', written_of_not_accepts ha]
      exact iff_of_false (Option.some_ne_none _).symm fun hboth => ha (hboth.1.mpr ha')
    · rw [written_of_not_accepts ha, written_of_not_accepts ha']
      exact iff_of_true rfl ⟨iff_of_false ha ha', fun hacc => absurd hacc ha⟩

end

/-! ## Runs that differ in the contents of packets -/

/-- The same event, but for what is in the packet. -/
inductive SendEvent.Alike : SendEvent → SendEvent → Prop
  | send {pMblk pMblk' : MBlkChain} (h : pMblk'.bytes.length = pMblk.bytes.length) :
      Alike (.send pMblk) (.send pMblk')
  | pollSend {pMblk pMblk' : MBlkChain} (h : pMblk'.bytes.length = pMblk.bytes.length) :
      Alike (.pollSend pMblk) (.pollSend pMblk')
  | other (d : EndDevice) : Alike (.other d) (.other d)

theorem axendStartTransmit_control {d e : EndDevice} {skb skb' : Pkt}
    (h : e.control = d.control) (hlen : skb'.len = skb.len) (hpos : skb.len ≠ 0) :
    (e.axendStartTransmit skb').2.control = (d.axendStartTransmit skb).2.control := by
  have hpos' : skb'.len ≠ 0 := hlen ▸ hpos
  have hneed : needPages skb' = needPages skb := by rw [needPages, needPages, hlen]
  obtain ⟨hisr, hrsr, hctepr, hpageInfo, hpolling, hcnt⟩ := Control.mk.inj h
  by_cases hfull : d.chip.ctepr &&& encteprtTxcqf = 0
  · have hfull' : e.chip.ctepr &&& encteprtTxcqf = 0 := by rwa [hctepr]
    by_cases hrefuses : d.Refuses skb
    · have hrefuses' := (EndDevice.refuses_congr h hlen).mpr hrefuses
      rw [axendStartTransmit_of_pages d hpos hfull hrefuses,
        axendStartTransmit_of_pages e hpos' hfull' hrefuses']
      simp only [EndDevice.control, hisr, hrsr, hctepr, hpageInfo, hpolling, hcnt]
    · have hqueued' := mt (EndDevice.refuses_congr h hlen).mp hrefuses
      rw [axendStartTransmit_of_queued d hpos hrefuses,
        axendStartTransmit_of_queued e hpos' hqueued']
      simp only [EndDevice.control, EndDevice.axendBlockOutput, hisr, hrsr, hctepr, hpageInfo,
        hpolling, hcnt, hneed]
  · have hfull' : ¬ e.chip.ctepr &&& encteprtTxcqf = 0 := by rwa [hctepr]
    rw [axendStartTransmit_of_full d hpos hfull, axendStartTransmit_of_full e hpos' hfull']
    simp only [EndDevice.control, hisr, hrsr, hctepr, hpageInfo, hpolling, hcnt]

section

variable {netMblkToBufCopy : MBlkChain → (Nat → UInt8) → Nat × (Nat → UInt8)}

theorem sendBy_control (hcopies : Copies netMblkToBufCopy) {d e : EndDevice}
    {pMblk pMblk' : MBlkChain} (poll : Bool) (h : e.control = d.control)
    (hlen : pMblk'.bytes.length = pMblk.bytes.length) :
    (e.sendBy netMblkToBufCopy poll pMblk').2.control =
      (d.sendBy netMblkToBufCopy poll pMblk).2.control := by
  by_cases hready : poll = true → ¬ d.Busy
  · have hready' : poll = true → ¬ e.Busy := by rwa [EndDevice.busy_congr h]
    obtain ⟨t, -, ht, -, hsame⟩ := sendBy_eq hready
    obtain ⟨u, -, hu, -, hsame'⟩ := sendBy_eq hready'
    rw [hsame.control, hsame'.control]
    refine axendStartTransmit_control ?_ ?_ (toBuf_len_ne_zero _ _ _)
    · rw [hu, ht, h]
    · rw [toBuf_len hcopies, toBuf_len hcopies, hlen]
  · obtain ⟨rfl, hbusy⟩ := Classical.not_imp.mp hready
    rw [sendBy_of_busy (not_not.mp hbusy),
      sendBy_of_busy ((EndDevice.busy_congr h).mpr (not_not.mp hbusy))]
    exact h

/-- Such runs decide in the same way. -/
theorem control_run (hcopies : Copies netMblkToBufCopy) {es es' : List SendEvent}
    (halike : List.Forall₂ SendEvent.Alike es es') {r r' : SendRun}
    (h : r'.dev.control = r.dev.control) :
    (run (SendRun.step netMblkToBufCopy) r' es').dev.control =
      (run (SendRun.step netMblkToBufCopy) r es).dev.control := by
  induction halike generalizing r r' with
  | nil => exact h
  | cons he _ ih =>
      refine ih ?_
      cases he with
      | send hlen => exact sendBy_control hcopies false h hlen
      | pollSend hlen => exact sendBy_control hcopies true h hlen
      | other d => rfl

theorem accepts_congr (hcopies : Copies netMblkToBufCopy) {d e : EndDevice}
    (h : e.control = d.control) (poll : Bool) (pMblk : MBlkChain) :
    e.Accepts netMblkToBufCopy poll pMblk ↔ d.Accepts netMblkToBufCopy poll pMblk := by
  have hlen : (e.toBuf netMblkToBufCopy pMblk).len = (d.toBuf netMblkToBufCopy pMblk).len := by
    rw [toBuf_len hcopies, toBuf_len hcopies]
  rw [EndDevice.Accepts, EndDevice.Accepts, EndDevice.busy_congr h,
    EndDevice.refuses_congr h hlen]

/-- Of any two runs: the same is written for the next packet exactly when both hand it over
or both do not, and, if they do, at every place behind it up to the minimum the last packet
that reached there has left the same. Runs that differ only in the contents of the packets
sent earlier both hand it over or both do not. -/
theorem padding_same_iff (hcopies : Copies netMblkToBufCopy) (d : EndDevice)
    (es es' : List SendEvent) (poll : Bool) (pMblk : MBlkChain) :
    ((run (SendRun.step netMblkToBufCopy) (.loaded d) es).dev.written
          netMblkToBufCopy poll pMblk =
        (run (SendRun.step netMblkToBufCopy) (.loaded d) es').dev.written
          netMblkToBufCopy poll pMblk ↔
      ((run (SendRun.step netMblkToBufCopy) (.loaded d) es).dev.Accepts
            netMblkToBufCopy poll pMblk ↔
          (run (SendRun.step netMblkToBufCopy) (.loaded d) es').dev.Accepts
            netMblkToBufCopy poll pMblk) ∧
        ((run (SendRun.step netMblkToBufCopy) (.loaded d) es).dev.Accepts
            netMblkToBufCopy poll pMblk →
          ∀ i, pMblk.bytes.length ≤ i → i < ethersmall →
            residue (run (SendRun.step netMblkToBufCopy) (.loaded d) es).copied i =
              residue (run (SendRun.step netMblkToBufCopy) (.loaded d) es').copied i)) ∧
      (List.Forall₂ SendEvent.Alike es es' →
        ((run (SendRun.step netMblkToBufCopy) (.loaded d) es).dev.Accepts
            netMblkToBufCopy poll pMblk ↔
          (run (SendRun.step netMblkToBufCopy) (.loaded d) es').dev.Accepts
            netMblkToBufCopy poll pMblk)) := by
  refine ⟨written_eq_iff (filled_run hcopies d es) (filled_run hcopies d es') hcopies poll pMblk,
    ?_⟩
  intro halike
  exact (accepts_congr hcopies (control_run hcopies halike rfl) poll pMblk).symm

end

theorem copies_copyChain : Copies copyChain where
  len _ _ := rfl
  data _ _ _ h := by simp [copyChain, h]
  rest _ _ _ h := by simp [copyChain, h]

/-- A packet of the minimum length, with one byte all over. -/
def fullChain (b : UInt8) : MBlkChain := { id := 0, mBlks := [List.replicate ethersmall b] }

/-- Two runs with another packet first and the same one after it: what is written behind a packet of
16 bytes is the end of the same packet. -/
theorem padding_same_hello :
    (run (SendRun.step copyChain) (.loaded (resetDevice 0))
          [.send (fullChain 1), .send (fullChain 3)]).dev.written copyChain false helloChain =
      (run (SendRun.step copyChain) (.loaded (resetDevice 0))
          [.send (fullChain 2), .send (fullChain 3)]).dev.written copyChain false helloChain := by
  refine (padding_same_iff copies_copyChain (resetDevice 0) _ _ false helloChain).1.mpr ⟨?_, ?_⟩
  · exact (padding_same_iff copies_copyChain (resetDevice 0)
      [.send (fullChain 1), .send (fullChain 3)] [.send (fullChain 2), .send (fullChain 3)] false
      helloChain).2 (.cons (.send rfl) (.cons (.send rfl) .nil))
  · intro _ i _ hlt
    have hcopied : ∀ b, (run (SendRun.step copyChain) (.loaded (resetDevice 0))
        [.send (fullChain b), .send (fullChain 3)]).copied = [fullChain 3, fullChain b] :=
      fun b => rfl
    have hlast : i < (fullChain 3).bytes.length := hlt
    rw [hcopied, hcopied, residue_of_lt hlast, residue_of_lt hlast]

/-- Behind a packet of 16 bytes the one before it goes out again. -/
theorem padding_same_leak :
    List.Forall₂ SendEvent.Alike [.send (fullChain 1)] [.send (fullChain 2)] ∧
      (run (SendRun.step copyChain) (.loaded (resetDevice 0)) [.send (fullChain 1)]).dev.written
          copyChain false helloChain =
        some (helloChain.bytes ++ List.replicate 44 1) ∧
      (run (SendRun.step copyChain) (.loaded (resetDevice 0)) [.send (fullChain 2)]).dev.written
          copyChain false helloChain =
        some (helloChain.bytes ++ List.replicate 44 2) ∧
      (run (SendRun.step copyChain) (.loaded (resetDevice 0)) [.send (fullChain 1)]).dev.written
          copyChain false helloChain ≠
        (run (SendRun.step copyChain) (.loaded (resetDevice 0)) [.send (fullChain 2)]).dev.written
          copyChain false helloChain := by
  have hone : (run (SendRun.step copyChain) (.loaded (resetDevice 0))
      [.send (fullChain 1)]).dev.written copyChain false helloChain =
        some (helloChain.bytes ++ List.replicate 44 1) := by decide +kernel
  have htwo : (run (SendRun.step copyChain) (.loaded (resetDevice 0))
      [.send (fullChain 2)]).dev.written copyChain false helloChain =
        some (helloChain.bytes ++ List.replicate 44 2) := by decide +kernel
  refine ⟨.cons (.send rfl) .nil, hone, htwo, ?_⟩
  rw [hone, htwo]
  decide

end VxWorks.Drv
