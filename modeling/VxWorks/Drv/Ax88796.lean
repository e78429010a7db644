import Mathlib.Data.List.Basic
import VxWorks.Lib.RingMem
import VxWorks.Lib.Run

/-!
# The receive ring of the AX88796 (ax88796end.c)

The chip has the pages `NESM_RX_START_PG` to `NESM_STOP_PG - 1` for the frames it
receives. A frame is stored from the page `CURPAG` on, behind four bytes that give its
status, the page of the frame after it and its size; the page of the frame after it is
the new `CURPAG`. `BNRY` is the last page that the driver has released, and the chip
does not write on pages that are not released.

`ax88796HandleRcvInt` takes the frames out again. It knows where the next one is in two
ways, from `BNRY` in the chip and from `rx_curr_page` of its own; a frame that is read
moves both. The other paths do not. A frame of a wrong length moves `BNRY` only, and to
where `CURPAG` was when the receive routine began. Setting the multicast filter moves
`CURPAG` only, and to the first page, where a reset has it on the second.

The chip works while the driver does. A frame may arrive, and another task may call the
driver, before each of the steps the driver takes: to see whether there is a packet, to
get a buffer and look at `CURPAG`, and to read a frame. Memory may be short whenever it
asks for a buffer.
-/

namespace VxWorks.Drv

open VxWorks.Lib

def txPages : Nat := 0x1f

def nesmStartPg : Nat := 0x40

def nesmRxStartPg : Nat := nesmStartPg + txPages + 1

def nesmStopPg : Nat := 0x80

def enrsrRxok : UInt8 := 0x01

def enrsrCrcerr : UInt8 := 0x02

def enrsrAlignerr : UInt8 := 0x04

def enisrRx : UInt8 := 0x01

def enisrRxErr : UInt8 := 0x04

def enisrOver : UInt8 := 0x10

/-! ## The chip -/

structure Frame where
  status : UInt8
  data : List UInt8
deriving DecidableEq, Repr

structure Chip where
  mem : Nat → UInt8
  bnry : Nat
  curpag : Nat
  isr : UInt8

/-- `dm_pkt_hdr`, what stands before a frame in the ring. -/
structure DmPktHdr where
  status : UInt8
  next : Nat
  count : Nat
deriving DecidableEq, Repr

def readDma (mem : Nat → UInt8) : Nat → Nat → List UInt8 :=
  readRing (256 * nesmRxStartPg) (256 * nesmStopPg) mem

def writeDma (mem : Nat → UInt8) : Nat → List UInt8 → Nat → UInt8 :=
  writeRing (256 * nesmRxStartPg) (256 * nesmStopPg) mem

/-- The pages a frame takes, with its header. -/
def Frame.pages (f : Frame) : Nat := (f.data.length + 4 + 255) / 256

/-- The page `n` pages after `p`. -/
def pageAfter (p n : Nat) : Nat :=
  nesmRxStartPg + (p - nesmRxStartPg + n) % (nesmStopPg - nesmRxStartPg)

/-- The pages from `CURPAG` up to the last one released. -/
def Chip.freePages (c : Chip) : Nat := (c.bnry + 256 - c.curpag) % (nesmStopPg - nesmRxStartPg)

/-- A frame as it stands in the ring, header first. -/
def Frame.stored (f : Frame) (next : Nat) : List UInt8 :=
  let count := f.data.length + 4
  f.status :: UInt8.ofNat next :: UInt8.ofNat count :: UInt8.ofNat (count / 256) :: f.data

/-- A frame comes in. One that does not fit is lost and reported as an overrun. -/
def Chip.receive (c : Chip) (f : Frame) : Chip :=
  if f.pages ≤ c.freePages then
    let next := pageAfter c.curpag f.pages
    { c with
      mem := writeDma c.mem (256 * c.curpag) (f.stored next)
      curpag := next
      isr := c.isr ||| if f.status &&& 0x0F = enrsrRxok then enisrRx else enisrRxErr }
  else { c with isr := c.isr ||| enisrOver }

/-- A write to `EN0_ISR` clears the bits written. -/
def Chip.writeIsr (c : Chip) (bits : UInt8) : Chip := { c with isr := c.isr &&& ~~~bits }

/-! ## The frames to pass up -/

/-- Received intact and of a legal length. -/
def Frame.Good (f : Frame) : Prop :=
  f.status &&& 0x0F = enrsrRxok ∧ 60 ≤ f.data.length ∧ f.data.length ≤ 1518

instance (f : Frame) : Decidable f.Good :=
  inferInstanceAs (Decidable (_ ∧ _ ∧ _))

/-- Received with an error of checksum or alignment. -/
def damaged (status : UInt8) : Prop := status &&& enrsrCrcerr ≠ 0 ∨ status &&& enrsrAlignerr ≠ 0

instance (status : UInt8) : Decidable (damaged status) :=
  inferInstanceAs (Decidable (_ ∨ _))

/-- What is passed up: the bytes the mBlk holds and the length in its packet header. -/
structure MBlk where
  mData : List UInt8
  len : Nat
deriving DecidableEq, Repr

/-- A frame as it is to be passed up, an ARP frame cut to 42 bytes. -/
def Frame.mBlk (f : Frame) : MBlk :=
  { mData := if f.data[12]? = some 0x08 ∧ f.data[13]? = some 0x06 then f.data.take 42 else f.data
    len := f.data.length }

/-! ## The driver -/

/-- Where `ax88796Int` is. An overrun that the interrupt reported is handled after the
frames, by a second run over the ring. -/
inductive Pc where
  | idle
  /-- `ax88796HandleRcvInt`, before it asks for a packet -/
  | handling (overrun : Bool)
  /-- `ax88796Recv`, before it has a buffer -/
  | receiving (overrun : Bool)
  /-- the loop of `axend_packet_receive`, with the `CURPAG` it has read and the buffer -/
  | reading (overrun : Bool) (writePoint : Nat) (pData : Nat → UInt8)

/-- The chip, the driver, and on record what was passed up and which of the good frames
stored no reset has discarded. -/
structure Dev where
  chip : Chip
  rxCurrPage : Nat
  rxHandling : Bool
  pc : Pc
  passedUp : List MBlk
  kept : List Frame

/-- `axend_reset`. The frames not yet passed up are discarded. -/
def Dev.axendReset (d : Dev) : Dev :=
  { d with
    chip := { d.chip with bnry := nesmRxStartPg, isr := 0, curpag := nesmRxStartPg + 1 }
    rxCurrPage := nesmRxStartPg + 1
    kept := d.kept.take d.passedUp.length }

/-- The device when it is loaded, whatever its memory holds. -/
def Dev.loaded (mem : Nat → UInt8) : Dev :=
  Dev.axendReset
    { chip := { mem := mem, bnry := 0, curpag := 0, isr := 0 }
      rxCurrPage := 0
      rxHandling := false
      pc := .idle
      passedUp := []
      kept := [] }

/-- The page after the last one released. -/
def Chip.readPoint (c : Chip) : Nat :=
  let readPoint := (c.bnry + 1) % 256
  if readPoint = nesmStopPg then nesmRxStartPg else readPoint

/-- Release the pages before `next`. -/
def Chip.releaseTo (c : Chip) (next : Nat) : Chip :=
  { c with bnry := if next = nesmRxStartPg then nesmStopPg - 1 else (next + 255) % 256 }

/-- `ax88796PacketGet`. -/
def Chip.packetGet (c : Chip) : Bool := c.readPoint != c.curpag

/-- The header, read through the data port as two words. -/
def Chip.rxFrame (c : Chip) (readPoint : Nat) : DmPktHdr :=
  let at' := fun i => c.mem (256 * readPoint + i)
  { status := at' 0, next := (at' 1).toNat, count := (at' 2).toNat + 256 * (at' 3).toNat }

/-- `axend_block_input`. It reads words: of an odd count, one byte more. -/
def Chip.blockInput (c : Chip) (count : Nat) (pData : Nat → UInt8) (readpage : Nat) :
    Nat → UInt8 :=
  let bytes := readDma c.mem (256 * readpage + 4) (2 * ((count + 1) / 2))
  fun i => bytes[i]?.getD (pData i)

/-- The end of `ax88796HandleRcvInt`, and the beginning of the next for an overrun. -/
def Dev.handled (d : Dev) (overrun : Bool) : Dev :=
  if overrun then { d with rxHandling := true, pc := .handling false }
  else { d with rxHandling := false, pc := .idle }

/-- The end of `ax88796Recv`, with `len` bytes in the buffer. -/
def Dev.passUp (d : Dev) (overrun : Bool) (pData : Nat → UInt8) (len : Nat) : Dev :=
  let mLen := if pData 12 = 0x08 ∧ pData 13 = 0x06 then 42 else len
  { d with
    pc := .handling overrun
    passedUp := d.passedUp ++ [{ mData := (List.range mLen).map pData, len := len }] }

/-- One turn of the loop of `axend_packet_receive`. -/
def Dev.readFrame (d : Dev) (overrun : Bool) (writePoint : Nat) (pData : Nat → UInt8) : Dev :=
  -- the loop is left without a frame, and `skb.len` is still 0
  if writePoint = d.rxCurrPage then d.passUp overrun pData 0
  else
    let readPoint := d.chip.readPoint
    let chip := d.chip.writeIsr enisrRx
    let rxFrame := chip.rxFrame readPoint
    if damaged rxFrame.status then d.axendReset.handled overrun
    else
      let pktLen := (rxFrame.count + 2 ^ 32 - 4) % 2 ^ 32
      -- `continue`: neither `rx_curr_page` nor `write_point` has changed
      if pktLen < 60 ∨ 1518 < pktLen then { d with chip := chip.releaseTo writePoint }
      else
        let d' := { d with chip := chip.releaseTo rxFrame.next, rxCurrPage := rxFrame.next }
        if rxFrame.status &&& 0x0F = enrsrRxok then
          d'.passUp overrun (chip.blockInput pktLen pData readPoint) pktLen
        else d'.passUp overrun pData 0

/-- What `ax88796Int` does next; `cluster` is the buffer, when there is one to be had. -/
def Dev.drive (d : Dev) (cluster : Option (Nat → UInt8)) : Dev :=
  match d.pc with
  | .idle => d
  | .handling overrun =>
      if d.chip.packetGet then { d with pc := .receiving overrun } else d.handled overrun
  | .receiving overrun =>
      match cluster with
      | none => d.handled overrun
      | some pData =>
          if d.chip.readPoint = d.chip.curpag then d.handled overrun
          else { d with pc := .reading overrun d.chip.curpag pData }
  | .reading overrun writePoint pData => d.readFrame overrun writePoint pData

/-- `ax88796Int` is called; the task that calls it does one call after the other. -/
def Dev.ax88796Int (d : Dev) : Dev :=
  match d.pc with
  | .idle =>
      let isrStatus := d.chip.isr
      let d := { d with chip := d.chip.writeIsr isrStatus }
      let overrun : Bool := isrStatus &&& enisrOver ≠ 0
      if isrStatus &&& (enisrRx ||| enisrRxErr) ≠ 0 ∧ d.rxHandling = false then
        { d with rxHandling := true, pc := .handling overrun }
      else if overrun then { d with rxHandling := true, pc := .handling false }
      else d
  | _ => d

/-- `ax88796AddrFilterSet`. -/
def Dev.ax88796AddrFilterSet (d : Dev) : Dev :=
  { d with chip := { d.chip with curpag := nesmStartPg + txPages + 1 } }

inductive Event where
  | arrive (f : Frame)
  | int
  | drive (cluster : Option (Nat → UInt8))
  /-- `ax88796MCastAdd`, with whether `etherMultiAdd` says `ENETRESET` -/
  | mCastAdd (enetreset : Bool)
  /-- `ax88796MCastDel`, with whether `etherMultiDel` says `ENETRESET` -/
  | mCastDel (enetreset : Bool)
  | reset

def Dev.step (d : Dev) : Event → Dev
  | .arrive f =>
      { d with
        chip := d.chip.receive f
        kept := if f.pages ≤ d.chip.freePages ∧ f.Good then d.kept ++ [f] else d.kept }
  | .int => d.ax88796Int
  | .drive cluster => d.drive cluster
  | .mCastAdd enetreset => if enetreset then d.ax88796AddrFilterSet else d
  | .mCastDel enetreset => if enetreset then d.ax88796AddrFilterSet else d
  | .reset => d.axendReset

end VxWorks.Drv
