import Mathlib.Data.List.Basic
import VxWorks.Lib.Run
import VxWorks.Drv.Ax88796Tx

/-!
# The send routines of the AX88796 (ax88796end.c)

`ax88796Send` copies a packet into the one buffer that all packets go through, hands the
buffer to `axend_start_transmit`, and turns what that returns into what the stack is told.
There are three ways `axend_start_transmit` comes back. It has written the frame and given
the transmit command, 0; it has found too few free pages, 1; or the chip says that its
queue of commands is full, 2. The caller knows two: 1 is `END_ERR_BLOCK`, everything else
is `OK`. So a packet that met a full queue is reported as sent, and the routine that found
the queue full left with the interrupts of the chip masked. A packet that was refused for
lack of pages is reported as refused, and freed as if it had been sent.

A call runs with the interrupts locked, so it is one step here. What it does to the chip
is what `axend_start_transmit` does step by step in the model of the transmit ring.
-/

namespace VxWorks.Drv

open VxWorks.Lib

def e8390Imrall : UInt8 := 0x7F

/-- The interrupts the driver enables. -/
def enisrAll : UInt8 :=
  enisrRx ||| enisrTx ||| enisrRxErr ||| enisrTxErr ||| enisrOver ||| 0x20

def enisrRdc : UInt8 := 0x40

def encteprtTxcqf : UInt8 := 0x80

def encteprtCtepr : UInt8 := 0x7F

def ethersmall : Nat := 60

def ax88796Rint : UInt8 := 0x1

def ax88796Tint : UInt8 := 0x2

def ax88796Rxon : UInt8 := 0x4

def ax88796Tfull : UInt8 := 0x8

def ax88796Rxrdy : UInt8 := 0x10

inductive Status where
  | ok
  | endErrBlock
  | eagain
deriving DecidableEq, Repr

/-- A chain of mBlks: which one it is, and what is in its parts. -/
structure MBlkChain where
  id : Nat
  mBlks : List (List UInt8)
deriving DecidableEq, Repr

def MBlkChain.bytes (pMblk : MBlkChain) : List UInt8 := pMblk.mBlks.flatten

/-- What was given back to the pool, and how. -/
inductive FreeCall where
  | netMblkClChainFree (id : Nat)
  | netMblkClFree (id : Nat)
deriving DecidableEq, Repr

/-- A frame handed to the chip: the transmit command, and what went through the data port
before it. -/
structure Queued where
  page : Nat
  count : Nat
  longs : List UInt32
deriving DecidableEq, Repr

def Queued.frame (f : Queued) : TxFrame := { page := f.page, count := f.count }

/-- The registers a call looks at, and on record all the frames handed to the chip. -/
structure SendChip where
  imr : UInt8
  isr : UInt8
  rsr : UInt8
  ctepr : UInt8
  queue : List Queued

/-- `END_DEVICE`, with the chip and what of the system the send routines use. -/
structure EndDevice where
  chip : SendChip
  pageInfo : PageInfo
  /-- `AX88796_POLLING` in `flags` -/
  polling : Bool
  txPktCnt : Int
  txBuf : Nat → UInt8
  txSem : Bool
  intLocked : Bool
  outUcast : Nat
  freed : List FreeCall

/-- `END_TX_SEM_TAKE`, when it has waited. -/
def EndDevice.endTxSemTake (d : EndDevice) : EndDevice := { d with txSem := false }

def EndDevice.endTxSemGive (d : EndDevice) : EndDevice := { d with txSem := true }

def EndDevice.free (d : EndDevice) (call : FreeCall) : EndDevice :=
  { d with freed := d.freed ++ [call] }

/-- The long that follows `i` longs in the loop of `axend_block_output`. -/
def Pkt.longs (skb : Pkt) : List UInt32 :=
  (List.range ((skb.len + 3) / 4)).map fun k => skb.temp (4 * k)

def EndDevice.axendBlockOutput (d : EndDevice) (skb : Pkt) (startPage : Nat) : EndDevice :=
  { d with
    chip :=
      { d.chip with
        queue := d.chip.queue ++ [{ page := startPage, count := skb.len, longs := skb.longs }]
        isr := d.chip.isr &&& ~~~enisrRdc } }

/-- The variables when the frame is queued. -/
def PageInfo.sent (p : PageInfo) (curPage freePages needPages : Nat) : PageInfo :=
  { p with
    txFull := if freePages = needPages then true else p.txFull
    txPrevCtepr := curPage
    txCurrPage :=
      if p.txCurrPage + needPages < p.txStopPage then uchar (p.txCurrPage + needPages)
      else uchar (needPages - (p.txStopPage - p.txCurrPage) + p.txStartPage) }

/-- `axend_start_transmit`, with what it returns. -/
def EndDevice.axendStartTransmit (d : EndDevice) (skb : Pkt) : Nat × EndDevice :=
  if skb.len = 0 then (2, d)
  else
    let d := { d with chip.imr := 0 }
    let data := d.chip.ctepr
    if data &&& encteprtTxcqf ≠ 0 then (2, d)
    else
      let curPage := (data &&& encteprtCtepr).toNat
      let freePages := d.pageInfo.freePages curPage
      if freePages < needPages skb + 1 then
        (1, { d with pageInfo.txFull := true, chip.imr := enisrAll })
      else
        let d := d.axendBlockOutput skb d.pageInfo.txCurrPage
        (0, { d with
          pageInfo := d.pageInfo.sent curPage freePages (needPages skb)
          chip.imr := e8390Imrall })

section

variable (netMblkToBufCopy : MBlkChain → (Nat → UInt8) → Nat × (Nat → UInt8))

/-- The packet in the buffer: what is in the buffer then, and the length of the frame. -/
def EndDevice.toBuf (d : EndDevice) (pMblk : MBlkChain) : Pkt :=
  let (len, txBuf) := netMblkToBufCopy pMblk d.txBuf
  { len := max len ethersmall, pData := txBuf }

/-- The device when `axend_start_transmit` is called. -/
def EndDevice.begun (d : EndDevice) (pMblk : MBlkChain) : EndDevice :=
  let txBuf := (d.toBuf netMblkToBufCopy pMblk).pData
  let d := if d.polling then d else d.endTxSemTake
  { d with intLocked := true, txBuf := txBuf }

/-- What the routine makes of the result of `axend_start_transmit`. -/
def EndDevice.ended (d : EndDevice) (oldLevel : Bool) (pMblk : MBlkChain) (rtnval : Nat) :
    Status × EndDevice :=
  let d := { d with intLocked := oldLevel }
  if rtnval = 1 then
    let d := d.free (.netMblkClChainFree pMblk.id)
    (.endErrBlock, if d.polling then d else d.endTxSemGive)
  else
    let d := if d.polling then d else d.endTxSemGive
    let d := { d with outUcast := d.outUcast + 1 }
    -- `freeNow`, which is set to `FALSE` only on the way that has returned already
    (.ok, d.free (.netMblkClChainFree pMblk.id))

def EndDevice.ax88796Send (d : EndDevice) (pMblk : MBlkChain) : Status × EndDevice :=
  let r := (d.begun netMblkToBufCopy pMblk).axendStartTransmit (d.toBuf netMblkToBufCopy pMblk)
  r.2.ended d.intLocked pMblk r.1

def EndDevice.ax88796StatusRead (d : EndDevice) : UInt8 :=
  (if d.polling then 0 else ax88796Rxon) |||
    (if d.chip.isr &&& 0x01 ≠ 0 then ax88796Rint else 0) |||
    (if d.chip.isr &&& 0x02 ≠ 0 then ax88796Tint else 0) |||
    (if 2 < d.txPktCnt then ax88796Tfull else 0) |||
    (if d.chip.rsr &&& enrsrRxok = 0x01 then ax88796Rxrdy else 0)

def EndDevice.ax88796PollSend (d : EndDevice) (pMblk : MBlkChain) : Status × EndDevice :=
  if d.ax88796StatusRead &&& (ax88796Tint ||| ax88796Tfull) = 0 then (.eagain, d)
  else
    let skb := d.toBuf netMblkToBufCopy pMblk
    let oldv := d.intLocked
    let d := ({ d with intLocked := true, txBuf := skb.pData }.axendStartTransmit skb).2
    let d := { d with intLocked := oldv, outUcast := d.outUcast + 1 }
    (.ok, d.free (.netMblkClFree pMblk.id))

end

/-! ## What `axend_start_transmit` does -/

/-- The frame is refused: the chip's queue of commands is full, or too few pages are free. -/
def EndDevice.Refuses (d : EndDevice) (skb : Pkt) : Prop :=
  d.chip.ctepr &&& encteprtTxcqf ≠ 0 ∨
    d.pageInfo.freePages (d.chip.ctepr &&& encteprtCtepr).toNat < needPages skb + 1

instance EndDevice.decidableRefuses (d : EndDevice) (skb : Pkt) : Decidable (d.Refuses skb) :=
  inferInstanceAs (Decidable (_ ∨ _))

theorem axendStartTransmit_of_full (d : EndDevice) {skb : Pkt} (hlen : skb.len ≠ 0)
    (hfull : d.chip.ctepr &&& encteprtTxcqf ≠ 0) :
    d.axendStartTransmit skb = (2, { d with chip.imr := 0 }) := by
  rw [EndDevice.axendStartTransmit, if_neg hlen]
  exact if_pos hfull

theorem axendStartTransmit_of_pages (d : EndDevice) {skb : Pkt} (hlen : skb.len ≠ 0)
    (hfull : d.chip.ctepr &&& encteprtTxcqf = 0) (hrefuses : d.Refuses skb) :
    d.axendStartTransmit skb =
      (1, { d with pageInfo.txFull := true, chip.imr := enisrAll }) := by
  have hpages := hrefuses.resolve_left (not_not.mpr hfull)
  rw [EndDevice.axendStartTransmit, if_neg hlen]
  simp only [if_neg (not_not.mpr hfull), if_pos hpages]

theorem axendStartTransmit_of_queued (d : EndDevice) {skb : Pkt} (hlen : skb.len ≠ 0)
    (hqueued : ¬ d.Refuses skb) :
    d.axendStartTransmit skb =
      (0, { d.axendBlockOutput skb d.pageInfo.txCurrPage with
        pageInfo := d.pageInfo.sent (d.chip.ctepr &&& encteprtCtepr).toNat
          (d.pageInfo.freePages (d.chip.ctepr &&& encteprtCtepr).toNat) (needPages skb)
        chip.imr := e8390Imrall }) := by
  obtain ⟨hfull, hpages⟩ := not_or.mp hqueued
  rw [EndDevice.axendStartTransmit, if_neg hlen]
  simp only [if_neg hfull, if_neg hpages]
  rfl

/-! ## The steps of `axend_start_transmit` -/

/-- A device of this model and one of the transmit ring's, between two calls. -/
structure EndDevice.SameTx (d : EndDevice) (t : TxDev) : Prop where
  pageInfo : t.pageInfo = d.pageInfo
  ctepr : t.chip.ctepr = (d.chip.ctepr &&& encteprtCtepr).toNat
  pc : t.pc = .idle

theorem drive_writing {skb : Pkt} {curPage freePages : Nat} :
    ∀ (n i : Nat) (t : TxDev), t.pc = .writing skb curPage freePages i →
      (n = 0 ∨ i + 4 * (n - 1) < skb.len) →
      run TxDev.step t (List.replicate n .drive) =
        { t with
          chip := ((List.range n).map fun k => skb.temp (i + 4 * k)).foldl TxChip.outLong t.chip
          pc := .writing skb curPage freePages (i + 4 * n) }
  | 0, i, t, hpc, _ => by
      cases t
      simp only at hpc
      simp [hpc]
  | n + 1, i, t, hpc, hlen => by
      have hlt : i < skb.len := by omega
      have hstep : t.step .drive =
          { t with
            chip := t.chip.outLong (skb.temp i)
            pc := .writing skb curPage freePages (i + 4) } := by
        rw [TxDev.step, TxDev.drive, hpc]
        exact if_pos hlt
      rw [List.replicate_succ, run_cons, hstep, drive_writing n (i + 4) _ rfl (by omega)]
      simp [List.range_succ_eq_map, Function.comp_def, Nat.mul_add, Nat.add_assoc,
        Nat.add_comm 4]

theorem outLongs_queue (ls : List UInt32) (c : TxChip) :
    (ls.foldl TxChip.outLong c).queue = c.queue := by
  induction ls generalizing c with
  | nil => rfl
  | cons l ls ih => exact ih _

theorem outLongs_ctepr (ls : List UInt32) (c : TxChip) :
    (ls.foldl TxChip.outLong c).ctepr = c.ctepr := by
  induction ls generalizing c with
  | nil => rfl
  | cons l ls ih => exact ih _

/-- The drives of a call that queues its frame: the decision, the longs, the command and
the variables. -/
theorem drive_queued {skb : Pkt} {curPage : Nat} {t : TxDev} (hpc : t.pc = .looked skb curPage)
    (hpages : ¬ t.pageInfo.freePages curPage < needPages skb + 1) :
    run TxDev.step t (List.replicate ((skb.len + 3) / 4 + 2 + 1) .drive) =
      { t with
        chip :=
          { skb.longs.foldl TxChip.outLong { t.chip with rsar := 64 * t.pageInfo.txCurrPage } with
            queue := t.chip.queue ++ [⟨t.pageInfo.txCurrPage, skb.len⟩]
            ctepr := t.chip.ctepr }
        pageInfo :=
          t.pageInfo.sent curPage (t.pageInfo.freePages curPage) (needPages skb)
        pc := .idle } := by
  have hstep : t.step .drive =
      { t with
        chip := { t.chip with rsar := 64 * t.pageInfo.txCurrPage }
        pc := .writing skb curPage (t.pageInfo.freePages curPage) 0 } := by
    rw [TxDev.step, TxDev.drive, hpc]
    exact if_neg hpages
  have hdone : ¬ 0 + 4 * ((skb.len + 3) / 4) < skb.len := by omega
  rw [List.replicate_succ, run_cons, hstep, List.replicate_add, run_append,
    drive_writing ((skb.len + 3) / 4) 0 _ rfl (by omega)]
  simp only [List.replicate_succ, List.replicate_zero, run_cons, run_nil, TxDev.step, TxDev.drive,
    if_neg hdone]
  simp only [Pkt.longs, Nat.zero_add]
  rw [outLongs_queue, outLongs_ctepr]
  rfl

/-- The steps the transmit ring takes for one call that finds the bit `ENCTEPRT_TXCQF` as it
is on the device. -/
def EndDevice.txSteps (d : EndDevice) (skb : Pkt) (n : Nat) : List TxEvent :=
  .transmit skb (decide (d.chip.ctepr &&& encteprtTxcqf ≠ 0)) :: List.replicate n .drive

/-- The routine does in one step what it does step by step beside the chip: the variables,
the queue and the memory of the chip come out the same. -/
theorem axendStartTransmit_steps {d : EndDevice} {t : TxDev} (h : d.SameTx t) {skb : Pkt}
    (hlen : skb.len ≠ 0) :
    ∃ n q, (d.axendStartTransmit skb).2.chip.queue = d.chip.queue ++ q ∧
      (d.axendStartTransmit skb).2.SameTx (run TxDev.step t (d.txSteps skb n)) ∧
      (run TxDev.step t (d.txSteps skb n)).chip.queue =
        t.chip.queue ++ q.map Queued.frame ∧
      (run TxDev.step t (d.txSteps skb n)).chip.mem =
        ((q.flatMap Queued.longs).foldl TxChip.outLong
          { t.chip with rsar := 64 * d.pageInfo.txCurrPage }).mem := by
  by_cases hfull : d.chip.ctepr &&& encteprtTxcqf = 0
  · have hlooked : t.step (.transmit skb (decide (d.chip.ctepr &&& encteprtTxcqf ≠ 0))) =
        { t with pc := .looked skb t.chip.ctepr } := by
      rw [TxDev.step, TxDev.axendStartTransmit, h.pc]
      simp [hlen, hfull]
    have hfree : t.pageInfo.freePages t.chip.ctepr =
        d.pageInfo.freePages (d.chip.ctepr &&& encteprtCtepr).toNat := by
      rw [h.pageInfo, h.ctepr]
    by_cases hrefuses : d.Refuses skb
    · have hpages := hrefuses.resolve_left (not_not.mpr hfull)
      refine ⟨1, [], ?_⟩
      rw [EndDevice.txSteps, run_cons, hlooked, axendStartTransmit_of_pages d hlen hfull hrefuses]
      have hdrive : ({ t with pc := .looked skb t.chip.ctepr } : TxDev).step .drive =
          { t with pageInfo.txFull := true, pc := .idle } := by
        rw [TxDev.step, TxDev.drive]
        exact if_pos (by rwa [hfree])
      rw [List.replicate_one, run_cons, run_nil, hdrive]
      exact ⟨by simp, ⟨by rw [h.pageInfo], h.ctepr, rfl⟩, by simp, rfl⟩
    · obtain ⟨-, hpages⟩ := not_or.mp hrefuses
      rw [axendStartTransmit_of_queued d hlen hrefuses]
      refine ⟨(skb.len + 3) / 4 + 2 + 1, _, rfl, ?_⟩
      rw [EndDevice.txSteps, run_cons, hlooked, drive_queued rfl (by rwa [hfree])]
      refine ⟨⟨?_, h.ctepr, rfl⟩, ?_, ?_⟩
      · rw [h.pageInfo, h.ctepr]
      · rw [h.pageInfo]
        rfl
      · rw [h.pageInfo, List.flatMap_singleton]
  · refine ⟨0, [], ?_⟩
    have hstay : t.step (.transmit skb (decide (d.chip.ctepr &&& encteprtTxcqf ≠ 0))) = t := by
      rw [TxDev.step, TxDev.axendStartTransmit, h.pc]
      simp [hfull]
    rw [EndDevice.txSteps, run_cons, hstay, axendStartTransmit_of_full d hlen hfull]
    exact ⟨by simp, ⟨h.pageInfo, h.ctepr, h.pc⟩, by simp, rfl⟩

/-! ## What the stack is told -/

/-- What a call for the frame `skb` that ended as `r` did about the packet, and how it left
the device. -/
structure EndDevice.Truthful (d : EndDevice) (skb : Pkt) (pMblk : MBlkChain)
    (r : Status × EndDevice) : Prop where
  queued : r.1 = .ok ↔ ∃ page, r.2.chip.queue = d.chip.queue ++
    [{ page := page, count := skb.len, longs := skb.longs }]
  notQueued : r.1 ≠ .ok ↔ r.2.chip.queue = d.chip.queue
  freed : r.1 = .ok → r.2.freed = d.freed ++ [.netMblkClChainFree pMblk.id]
  kept : r.1 ≠ .ok → r.2.freed = d.freed
  imr : r.2.chip.imr &&& enisrAll = enisrAll
  txSem : d.polling = false → r.2.txSem = true

section

variable (netMblkToBufCopy : MBlkChain → (Nat → UInt8) → Nat × (Nat → UInt8))
  (d : EndDevice) (pMblk : MBlkChain)

theorem toBuf_len_ne_zero : (d.toBuf netMblkToBufCopy pMblk).len ≠ 0 := by
  have hmin : ethersmall ≤ (d.toBuf netMblkToBufCopy pMblk).len := le_max_right _ _
  have hpos : 0 < ethersmall := by decide
  omega

/-- The semaphore after a call. -/
def EndDevice.txSemAfter (d : EndDevice) : Bool := if d.polling then d.txSem else true

theorem begun_eq : d.begun netMblkToBufCopy pMblk =
    { d with
      intLocked := true
      txBuf := (d.toBuf netMblkToBufCopy pMblk).pData
      txSem := if d.polling then d.txSem else false } := by
  cases hpolling : d.polling
  · simp [EndDevice.begun, hpolling, EndDevice.endTxSemTake]
  · simp [EndDevice.begun, hpolling]

theorem ended_one (oldLevel : Bool) :
    d.ended oldLevel pMblk 1 =
      (.endErrBlock, { d with
        intLocked := oldLevel
        txSem := d.txSemAfter
        freed := d.freed ++ [.netMblkClChainFree pMblk.id] }) := by
  cases hpolling : d.polling
  · simp [EndDevice.ended, EndDevice.txSemAfter, hpolling, EndDevice.free, EndDevice.endTxSemGive]
  · simp [EndDevice.ended, EndDevice.txSemAfter, hpolling, EndDevice.free]

theorem ended_of_ne_one (oldLevel : Bool) {rtnval : Nat} (hne : rtnval ≠ 1) :
    d.ended oldLevel pMblk rtnval =
      (.ok, { d with
        intLocked := oldLevel
        txSem := d.txSemAfter
        outUcast := d.outUcast + 1
        freed := d.freed ++ [.netMblkClChainFree pMblk.id] }) := by
  cases hpolling : d.polling
  · simp [EndDevice.ended, EndDevice.txSemAfter, hpolling, EndDevice.free,
      EndDevice.endTxSemGive, hne]
  · simp [EndDevice.ended, EndDevice.txSemAfter, hpolling, EndDevice.free, hne]

theorem txSemAfter_begun : (d.begun netMblkToBufCopy pMblk).txSemAfter = d.txSemAfter := by
  rw [begun_eq, EndDevice.txSemAfter, EndDevice.txSemAfter]
  split_ifs <;> rfl

/-- The queue of commands is full: the packet is dropped, and the mask stays as it is. -/
theorem ax88796Send_of_full (hfull : d.chip.ctepr &&& encteprtTxcqf ≠ 0) :
    d.ax88796Send netMblkToBufCopy pMblk =
      (.ok, { d with
        chip.imr := 0
        txBuf := (d.toBuf netMblkToBufCopy pMblk).pData
        txSem := d.txSemAfter
        outUcast := d.outUcast + 1
        freed := d.freed ++ [.netMblkClChainFree pMblk.id] }) := by
  have hlen := toBuf_len_ne_zero netMblkToBufCopy d pMblk
  have hafter := txSemAfter_begun netMblkToBufCopy d pMblk
  rw [begun_eq] at hafter
  have hstart := axendStartTransmit_of_full (d.begun netMblkToBufCopy pMblk) hlen
    (by rwa [begun_eq])
  rw [EndDevice.ax88796Send, hstart, ended_of_ne_one _ _ _ (by decide : 2 ≠ 1), begun_eq, ← hafter]
  rfl

/-- Too few pages are free: the packet is refused, and freed. -/
theorem ax88796Send_of_pages (hfull : d.chip.ctepr &&& encteprtTxcqf = 0)
    (hrefuses : d.Refuses (d.toBuf netMblkToBufCopy pMblk)) :
    d.ax88796Send netMblkToBufCopy pMblk =
      (.endErrBlock, { d with
        chip.imr := enisrAll
        pageInfo.txFull := true
        txBuf := (d.toBuf netMblkToBufCopy pMblk).pData
        txSem := d.txSemAfter
        freed := d.freed ++ [.netMblkClChainFree pMblk.id] }) := by
  have hlen := toBuf_len_ne_zero netMblkToBufCopy d pMblk
  have hafter := txSemAfter_begun netMblkToBufCopy d pMblk
  rw [begun_eq] at hafter
  have hstart := axendStartTransmit_of_pages (d.begun netMblkToBufCopy pMblk) hlen
    (by rwa [begun_eq]) (by rwa [begun_eq])
  rw [EndDevice.ax88796Send, hstart, ended_one, begun_eq, ← hafter]
  rfl

/-- The frame is handed to the chip. -/
theorem ax88796Send_of_queued (hqueued : ¬ d.Refuses (d.toBuf netMblkToBufCopy pMblk)) :
    ∃ pageInfo, d.ax88796Send netMblkToBufCopy pMblk =
      (.ok, { d.axendBlockOutput (d.toBuf netMblkToBufCopy pMblk) d.pageInfo.txCurrPage with
        chip.imr := e8390Imrall
        pageInfo := pageInfo
        txBuf := (d.toBuf netMblkToBufCopy pMblk).pData
        txSem := d.txSemAfter
        outUcast := d.outUcast + 1
        freed := d.freed ++ [.netMblkClChainFree pMblk.id] }) := by
  have hlen := toBuf_len_ne_zero netMblkToBufCopy d pMblk
  have hafter := txSemAfter_begun netMblkToBufCopy d pMblk
  rw [begun_eq] at hafter
  have hstart := axendStartTransmit_of_queued (d.begun netMblkToBufCopy pMblk) hlen
    (by rwa [begun_eq])
  rw [EndDevice.ax88796Send, hstart, ended_of_ne_one _ _ _ (by decide : 0 ≠ 1), begun_eq, ← hafter]
  exact ⟨_, rfl⟩

/-- What the stack is told is the truth, the packet is freed as it has to be and the device
is ready for the next one, exactly when the frame is handed to the chip. -/
theorem send_truthful_iff :
    d.Truthful (d.toBuf netMblkToBufCopy pMblk) pMblk (d.ax88796Send netMblkToBufCopy pMblk) ↔
      ¬ d.Refuses (d.toBuf netMblkToBufCopy pMblk) := by
  constructor
  · intro h hrefuses
    by_cases hfull : d.chip.ctepr &&& encteprtTxcqf = 0
    · have hkept := h.kept
      rw [ax88796Send_of_pages netMblkToBufCopy d pMblk hfull hrefuses] at hkept
      simpa using hkept Status.noConfusion
    · have himr := h.imr
      rw [ax88796Send_of_full netMblkToBufCopy d pMblk hfull] at himr
      exact absurd himr (by decide : ¬ (0 : UInt8) &&& enisrAll = enisrAll)
  · intro hqueued
    obtain ⟨pageInfo, hsend⟩ := ax88796Send_of_queued netMblkToBufCopy d pMblk hqueued
    rw [hsend]
    exact {
      queued := iff_of_true rfl ⟨_, rfl⟩
      notQueued := iff_of_false (fun hne => hne rfl) (by simp [EndDevice.axendBlockOutput])
      freed := fun _ => rfl
      kept := fun hne => absurd rfl hne
      imr := (by decide : e8390Imrall &&& enisrAll = enisrAll)
      txSem := fun hpolling => by rw [EndDevice.txSemAfter, hpolling]; rfl }

end

/-- What `netMblkToBufCopy` does. -/
def copyChain (pMblk : MBlkChain) (buf : Nat → UInt8) : Nat × (Nat → UInt8) :=
  (pMblk.bytes.length, fun i => pMblk.bytes[i]?.getD (buf i))

/-- The device after a reset, with what the chip says of its queue. -/
def resetDevice (ctepr : UInt8) : EndDevice where
  chip := { imr := e8390Imrall, isr := 0, rsr := 0, ctepr := ctepr, queue := [] }
  pageInfo :=
    { txCurrPage := nesmStartPg
      txStartPage := nesmStartPg
      txStopPage := nesmStartPg + txPages + 1
      txPrevCtepr := 0
      txFull := false }
  polling := false
  txPktCnt := 0
  txBuf := fun _ => 0
  txSem := true
  intLocked := false
  outUcast := 0
  freed := []

def helloChain : MBlkChain := { id := 1, mBlks := [List.replicate 14 0xff, [0x68, 0x69]] }

/-- A packet that meets a full queue is gone, reported as sent, and the chip is masked. -/
theorem send_truthful_full :
    ¬ (resetDevice encteprtTxcqf).Truthful
        ((resetDevice encteprtTxcqf).toBuf copyChain helloChain) helloChain
        ((resetDevice encteprtTxcqf).ax88796Send copyChain helloChain) ∧
      ((resetDevice encteprtTxcqf).ax88796Send copyChain helloChain).1 = .ok ∧
      ((resetDevice encteprtTxcqf).ax88796Send copyChain helloChain).2.chip.queue = [] ∧
      ((resetDevice encteprtTxcqf).ax88796Send copyChain helloChain).2.chip.imr = 0 := by
  have hsend := ax88796Send_of_full copyChain (resetDevice encteprtTxcqf) helloChain
    (by decide)
  rw [hsend]
  refine ⟨?_, rfl, rfl, rfl⟩
  intro h
  exact absurd h.imr (by decide : ¬ (0 : UInt8) &&& enisrAll = enisrAll)

end VxWorks.Drv
