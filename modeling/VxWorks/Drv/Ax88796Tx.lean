import Mathlib.Data.Finset.Card
import Mathlib.Order.Interval.Finset.Nat
import VxWorks.Drv.Ax88796

/-!
# The transmit ring of the AX88796 (ax88796end.c)

The pages before the receive ring are a ring too. `axend_start_transmit` writes a frame
from `tx_curr_page` on and queues it, and the chip sends what is queued in order. All the
chip says about it is `EN0_CTEPR`, the last page of the frame it has sent last, which is 0
as long as it has sent none. How many pages are free the driver concludes from that and
from `tx_curr_page`, in five cases. The two pages do not tell a ring that is full from one
that is empty, but the driver never fills it: a frame is refused unless one page is left
over. So when the two meet, the ring is empty, and a flag `tx_full` that some other frame's
interrupt has cleared does no harm.

The chip may complete a frame, and `ax88796Int` may run, before each step of
`axend_start_transmit`; a step is the read of `EN0_CTEPR`, the decision, each long that
goes through the data port, the transmit command, and the update of the variables. An
interrupt for a damaged frame resets the chip, between two calls.
-/

namespace VxWorks.Drv

open VxWorks.Lib

def enisrTx : UInt8 := 0x02

def enisrTxErr : UInt8 := 0x08

/-- An `int` stored in an `unsigned char`. -/
def uchar (x : Int) : Nat := (x % 256).toNat

/-- The transmit part of `dm_page_info`. -/
structure PageInfo where
  txCurrPage : Nat
  txStartPage : Nat
  txStopPage : Nat
  txPrevCtepr : Nat
  txFull : Bool
deriving DecidableEq, Repr

structure Pkt where
  len : Nat
  pData : Nat → UInt8

/-- A queued frame: `EN0_TPSR` and `EN0_TBCR`. -/
structure TxFrame where
  page : Nat
  count : Nat
deriving DecidableEq, Repr

/-- The memory is in longs, as it is written; `rsar` is the next one of the remote DMA. -/
structure TxChip where
  mem : Nat → UInt32
  rsar : Nat
  queue : List TxFrame
  ctepr : Nat

/-- The page at position `k` of the transmit ring. -/
def txPage (k : Nat) : Nat := cellAt nesmStartPg nesmRxStartPg k

/-- The long at position `k` of the transmit ring. -/
def txLong (k : Nat) : Nat := cellAt (64 * nesmStartPg) (64 * nesmRxStartPg) k

/-- The pages that hold a part of the frame. -/
def TxFrame.pages (f : TxFrame) : List Nat :=
  (List.range ((f.count + 255) / 256)).map fun i => txPage (f.page - nesmStartPg + i)

/-- The chip has sent the frame at the head of the queue. -/
def TxChip.complete (c : TxChip) : TxChip :=
  match c.queue with
  | [] => c
  | f :: queue => { c with queue := queue, ctepr := f.pages.getLastD 0 }

/-- The pages that hold no part of a queued frame. -/
def TxChip.freePages (c : TxChip) : Nat :=
  ((Finset.Ico nesmStartPg nesmRxStartPg).filter fun p => ∀ f ∈ c.queue, p ∉ f.pages).card

/-- A long through the data port. -/
def TxChip.outLong (c : TxChip) (temp : UInt32) : TxChip :=
  { c with
    mem := setCell c.mem c.rsar temp
    rsar := nextCell (64 * nesmStartPg) (64 * nesmRxStartPg) c.rsar }

/-! ## The driver -/

/-- Where `axend_start_transmit` is. -/
inductive TxPc where
  | idle
  /-- `EN0_CTEPR` has been read -/
  | looked (skb : Pkt) (curPage : Nat)
  /-- the loop of `axend_block_output` -/
  | writing (skb : Pkt) (curPage freePages i : Nat)
  /-- the transmit command has been given -/
  | queued (skb : Pkt) (curPage freePages : Nat)

structure TxDev where
  chip : TxChip
  pageInfo : PageInfo
  pc : TxPc

/-- `axend_reset`. It says nothing about `tx_full`. -/
def TxDev.axendReset (d : TxDev) : TxDev :=
  { d with
    chip := { d.chip with queue := [], ctepr := 0 }
    pageInfo :=
      { d.pageInfo with
        txPrevCtepr := 0
        txCurrPage := nesmStartPg
        txStartPage := nesmStartPg
        txStopPage := nesmStartPg + txPages + 1 } }

def needPages (skb : Pkt) : Nat := uchar ((skb.len + 255) / 256)

/-- The free pages, as the driver sees them. -/
def PageInfo.freePages (p : PageInfo) (curPage : Nat) : Nat :=
  if curPage = 0 then
    if p.txCurrPage = p.txStartPage ∧ p.txPrevCtepr = 0 then uchar (p.txStopPage - p.txStartPage)
    else uchar (p.txStopPage - p.txCurrPage)
  else if (curPage : Int) < p.txCurrPage - 1 then
    uchar (p.txStopPage - p.txCurrPage + curPage - p.txStartPage + 1)
  else if (curPage : Int) > p.txCurrPage - 1 then
    uchar (curPage + 1 - p.txCurrPage)
  else if p.txFull then 0
  else uchar (p.txStopPage - p.txStartPage)

/-- The call, up to the read of `EN0_CTEPR`; `txcqf` is its bit `ENCTEPRT_TXCQF`. -/
def TxDev.axendStartTransmit (d : TxDev) (skb : Pkt) (txcqf : Bool) : TxDev :=
  match d.pc with
  | .idle =>
      if skb.len = 0 then d
      else if txcqf then d
      else { d with pc := .looked skb d.chip.ctepr }
  | _ => d

/-- The four bytes of a long. -/
def Pkt.temp (skb : Pkt) (i : Nat) : UInt32 :=
  (skb.pData (i + 1)).toUInt32 <<< 24 ||| (skb.pData i).toUInt32 <<< 16 |||
    (skb.pData (i + 3)).toUInt32 <<< 8 ||| (skb.pData (i + 2)).toUInt32

/-- What `axend_start_transmit` does next. -/
def TxDev.drive (d : TxDev) : TxDev :=
  match d.pc with
  | .idle => d
  | .looked skb curPage =>
      let freePages := d.pageInfo.freePages curPage
      if freePages < needPages skb + 1 then
        { d with pageInfo := { d.pageInfo with txFull := true }, pc := .idle }
      else
        { d with
          chip := { d.chip with rsar := 64 * d.pageInfo.txCurrPage }
          pc := .writing skb curPage freePages 0 }
  | .writing skb curPage freePages i =>
      if i < skb.len then
        { d with
          chip := d.chip.outLong (skb.temp i)
          pc := .writing skb curPage freePages (i + 4) }
      else
        { d with
          chip := { d.chip with queue := d.chip.queue ++ [⟨d.pageInfo.txCurrPage, skb.len⟩] }
          pc := .queued skb curPage freePages }
  | .queued skb curPage freePages =>
      let p := d.pageInfo
      let needPages := needPages skb
      { d with
        pageInfo :=
          { p with
            txFull := if freePages = needPages then true else p.txFull
            txPrevCtepr := curPage
            txCurrPage :=
              if p.txCurrPage + needPages < p.txStopPage then uchar (p.txCurrPage + needPages)
              else uchar (needPages - (p.txStopPage - p.txCurrPage) + p.txStartPage) }
        pc := .idle }

/-- A frame received with an error makes `ax88796HandleRcvInt` reset the chip. -/
def TxDev.handleRcvInt (d : TxDev) (damaged : Bool) : TxDev :=
  match d.pc with
  | .idle => if damaged then d.axendReset else d
  | _ => d

/-- `axend_tx_err`. -/
def TxDev.axendTxErr (d : TxDev) : TxDev := { d with pageInfo.txFull := false }

/-- `ax88796Int`, as far as it is about sending. -/
def TxDev.ax88796Int (d : TxDev) (isrStatus : UInt8) (damaged : Bool) : TxDev :=
  let d := d.handleRcvInt damaged
  let d := if isrStatus &&& enisrTx ≠ 0 then { d with pageInfo.txFull := false } else d
  if isrStatus &&& enisrTxErr ≠ 0 then d.axendTxErr else d

inductive TxEvent where
  | transmit (skb : Pkt) (txcqf : Bool)
  | drive
  | complete
  | int (isrStatus : UInt8) (damaged : Bool)

def TxDev.step (d : TxDev) : TxEvent → TxDev
  | .transmit skb txcqf => d.axendStartTransmit skb txcqf
  | .drive => d.drive
  | .complete => { d with chip := d.chip.complete }
  | .int isrStatus damaged => d.ax88796Int isrStatus damaged

/-- The page the next step writes to, if it writes. -/
def TxDev.writesPage (d : TxDev) : Option Nat :=
  match d.pc with
  | .writing skb _ _ i => if i < skb.len then some (d.chip.rsar / 64) else none
  | _ => none

/-- The `free_pages` the driver works with, or will find. -/
def TxDev.freePages (d : TxDev) : Option Nat :=
  match d.pc with
  | .looked _ curPage => some (d.pageInfo.freePages curPage)
  | .writing _ _ freePages _ => some freePages
  | _ => none

/-- Only frames of at most 1536 bytes. -/
def TxEvent.legal : TxEvent → Prop
  | .transmit skb _ => skb.len ≤ 1536
  | _ => True

end VxWorks.Drv
