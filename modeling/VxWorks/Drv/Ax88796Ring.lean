import Mathlib.Data.List.Basic
import VxWorks.Drv.Ax88796

/-!
# Every frame once, in order (ax88796end.c)

The ring is a queue laid out in memory. `Ring d r q` says that the frames `q` stand in
it one behind the other from position `r` on, that `BNRY` and `rx_curr_page` both know
where the first of them is and `CURPAG` where the next will be. A frame that arrives is
put at the end, one that is read is taken from the front, and as long as nothing else
moves the three registers, what is passed up is what came in.

Positions are pages counted without wrapping. What keeps the frames apart is that all of
them lie within one turn of the ring, less the page at `BNRY`.
-/

namespace VxWorks.Drv

open VxWorks.Lib

/-! ## Pages -/

/-- The page at position `k`. -/
def page (k : Nat) : Nat := nesmRxStartPg + k % (nesmStopPg - nesmRxStartPg)

theorem page_eq (k : Nat) : page k = 96 + k % 32 := rfl

theorem page_mul_add_eq_cellAt (k i : Nat) (hi : i < 256) :
    256 * page k + i = cellAt (256 * nesmRxStartPg) (256 * nesmStopPg) (256 * k + i) := by
  show 256 * (96 + k % 32) + i = 24576 + (256 * k + i) % 8192
  omega

theorem page_mul_eq_cellAt (k : Nat) :
    256 * page k = cellAt (256 * nesmRxStartPg) (256 * nesmStopPg) (256 * k) :=
  page_mul_add_eq_cellAt k 0 (by omega)

@[simp] theorem pageAfter_page (k n : Nat) : pageAfter (page k) n = page (k + n) := by
  show 96 + (96 + k % 32 - 96 + n) % 32 = 96 + (k + n) % 32
  omega

theorem page_add_ne {k n : Nat} (hpos : 0 < n) (hlt : n < 32) : page (k + n) ≠ page k := by
  rw [page_eq, page_eq]
  omega

@[simp] theorem toNat_ofNat_page (k : Nat) : (UInt8.ofNat (page k)).toNat = page k := by
  rw [UInt8.toNat_ofNat', page_eq]
  omega

theorem Chip.readPoint_of_bnry {c : Chip} {r : Nat} (h : c.bnry = page (r + 31)) :
    c.readPoint = page r := by
  have hcase : c.readPoint = if (c.bnry + 1) % 256 = 128 then 96 else (c.bnry + 1) % 256 := rfl
  rw [hcase, h, page_eq, page_eq]
  split_ifs <;> omega

theorem Chip.releaseTo_page (c : Chip) (k : Nat) :
    (c.releaseTo (page k)).bnry = page (k + 31) := by
  have hcase : (c.releaseTo (page k)).bnry =
      if page k = 96 then 127 else (page k + 255) % 256 := rfl
  rw [hcase, page_eq, page_eq]
  split_ifs <;> omega

/-- One page of the ring is never written. -/
theorem Chip.freePages_of_ring {c : Chip} {r t : Nat} (hb : c.bnry = page (r + 31))
    (hc : c.curpag = page (r + t)) (ht : t ≤ 31) : c.freePages = 31 - t := by
  have hcase : c.freePages = (c.bnry + 256 - c.curpag) % 32 := rfl
  rw [hcase, hb, hc, page_eq, page_eq]
  omega

theorem Frame.pages_pos (f : Frame) : 0 < f.pages := by
  rw [Frame.pages]
  omega

theorem Frame.stored_length (f : Frame) (next : Nat) :
    (f.stored next).length = f.data.length + 4 := rfl

theorem Frame.stored_length_le (f : Frame) : f.data.length + 4 ≤ 256 * f.pages := by
  rw [Frame.pages]
  omega

/-! ## Frames in memory -/

def pagesOf (q : List Frame) : Nat := (q.map Frame.pages).sum

@[simp] theorem pagesOf_nil : pagesOf [] = 0 := rfl

@[simp] theorem pagesOf_cons (f : Frame) (q : List Frame) :
    pagesOf (f :: q) = f.pages + pagesOf q := rfl

@[simp] theorem pagesOf_append (q p : List Frame) :
    pagesOf (q ++ p) = pagesOf q + pagesOf p := by
  simp [pagesOf]

/-- The frames stand in memory from position `k` on, one behind the other. -/
def Holds (mem : Nat → UInt8) : Nat → List Frame → Prop
  | _, [] => True
  | k, f :: q =>
      readDma mem (256 * page k) (f.data.length + 4) = f.stored (page (k + f.pages)) ∧
        Holds mem (k + f.pages) q

theorem ring_bounds : 256 * nesmRxStartPg < 256 * nesmStopPg := by decide

theorem ring_size : 256 * nesmStopPg - 256 * nesmRxStartPg = 8192 := rfl

/-- Frames that stand in one turn with the block written behind them stay. -/
theorem Holds.write_behind {mem : Nat → UInt8} {k w : Nat} {q : List Frame} {bs : List UInt8}
    (h : Holds mem k q) (hq : k + pagesOf q ≤ w) (hturn : 256 * w + bs.length ≤ 256 * k + 8192) :
    Holds (writeDma mem (256 * page w) bs) k q := by
  induction q generalizing k with
  | nil => trivial
  | cons f q ih =>
      obtain ⟨hf, hrest⟩ := h
      rw [pagesOf_cons] at hq
      have hlen := f.stored_length_le
      refine ⟨?_, ih hrest (by omega) (by omega)⟩
      rw [← hf, readDma, readDma, writeDma, page_mul_eq_cellAt k, page_mul_eq_cellAt w]
      exact readRing_writeRing_behind ring_bounds (by omega) (by rw [ring_size]; omega)

theorem Holds.append {mem : Nat → UInt8} {k : Nat} {q p : List Frame} (h : Holds mem k q)
    (hp : Holds mem (k + pagesOf q) p) : Holds mem k (q ++ p) := by
  induction q generalizing k with
  | nil => simpa using hp
  | cons f q ih =>
      refine ⟨h.1, ih h.2 ?_⟩
      rwa [pagesOf_cons, ← Nat.add_assoc] at hp

/-- The frame just stored stands at the end. -/
theorem Holds.write_frame (mem : Nat → UInt8) (k : Nat) {f : Frame} (hf : f.pages ≤ 31) :
    Holds (writeDma mem (256 * page k) (f.stored (page (k + f.pages)))) k [f] := by
  have hlen := f.stored_length_le
  refine ⟨?_, trivial⟩
  rw [← f.stored_length (page (k + f.pages)), readDma, writeDma, page_mul_eq_cellAt k]
  exact readRing_writeRing ring_bounds (by rw [ring_size, f.stored_length]; omega)

theorem readDma_page_add (mem : Nat → UInt8) (k n j : Nat) (hn : n < 256) :
    readDma mem (256 * page k) (n + j) =
      readDma mem (256 * page k) n ++ readDma mem (256 * page k + n) j := by
  rw [readDma, page_mul_add_eq_cellAt k n hn, page_mul_eq_cellAt k]
  exact readRing_add mem ring_bounds (256 * k) n j

theorem readDma_header (mem : Nat → UInt8) (k : Nat) :
    readDma mem (256 * page k) 4 =
      [mem (256 * page k), mem (256 * page k + 1), mem (256 * page k + 2),
        mem (256 * page k + 3)] := by
  have hnext : ∀ i < 255, nextCell (256 * nesmRxStartPg) (256 * nesmStopPg) (256 * page k + i) =
      256 * page k + (i + 1) := by
    intro i hi
    refine if_neg ?_
    show 256 * (96 + k % 32) + i + 1 ≠ 32768
    omega
  have h0 := hnext 0 (by omega)
  rw [Nat.add_zero] at h0
  simp only [readDma, readRing, h0, hnext 1 (by omega), hnext 2 (by omega)]

/-- What the driver finds of the first frame: the header, and the bytes behind it. -/
theorem Holds.front {c : Chip} {k : Nat} {f : Frame} {q : List Frame}
    (h : Holds c.mem k (f :: q)) (hf : f.pages ≤ 31) :
    c.rxFrame (page k) =
        { status := f.status, next := page (k + f.pages), count := f.data.length + 4 } ∧
      readDma c.mem (256 * page k + 4) f.data.length = f.data := by
  have hread := h.1
  rw [Nat.add_comm f.data.length 4, readDma_page_add c.mem k 4 _ (by omega),
    readDma_header] at hread
  obtain ⟨h0, h1, h2, h3, hdata⟩ : c.mem (256 * page k) = f.status ∧
      c.mem (256 * page k + 1) = UInt8.ofNat (page (k + f.pages)) ∧
      c.mem (256 * page k + 2) = UInt8.ofNat (f.data.length + 4) ∧
      c.mem (256 * page k + 3) = UInt8.ofNat ((f.data.length + 4) / 256) ∧
      readDma c.mem (256 * page k + 4) f.data.length = f.data := by
    simpa [Frame.stored] using hread
  have hlen := f.stored_length_le
  have hcount : (UInt8.ofNat (f.data.length + 4)).toNat +
      256 * (UInt8.ofNat ((f.data.length + 4) / 256)).toNat = f.data.length + 4 := by
    rw [UInt8.toNat_ofNat', UInt8.toNat_ofNat']
    omega
  refine ⟨?_, hdata⟩
  simp only [Chip.rxFrame, Nat.add_zero, h0, h1, h2, h3, toNat_ofNat_page, hcount]

/-- The buffer after the frame is copied, however much of it was read. -/
theorem blockInput_eq {c : Chip} {k : Nat} {bs : List UInt8}
    (h : readDma c.mem (256 * page k + 4) bs.length = bs) (pData : Nat → UInt8) {i : Nat}
    (hi : i < bs.length) : c.blockInput bs.length pData (page k) i = bs[i] := by
  obtain ⟨extra, hextra⟩ : ∃ extra, 2 * ((bs.length + 1) / 2) = bs.length + extra :=
    ⟨2 * ((bs.length + 1) / 2) - bs.length, by omega⟩
  have hsplit : readDma c.mem (256 * page k + 4) (bs.length + extra) =
      bs ++ readDma c.mem (cellAt (256 * nesmRxStartPg) (256 * nesmStopPg)
        (256 * k + 4 + bs.length)) extra := by
    have hadd := readRing_add c.mem ring_bounds (256 * k + 4) bs.length extra
    rw [← page_mul_add_eq_cellAt k 4 (by omega)] at hadd
    rw [readDma] at h
    rw [readDma, hadd, h]
  simp only [Chip.blockInput, hextra, hsplit]
  rw [List.getElem?_append_left hi, List.getElem?_eq_getElem hi, Option.getD_some]

/-- A buffer that begins with the bytes of a frame is passed up as the frame. -/
theorem mBlk_of_buffer {f : Frame} (pData : Nat → UInt8) (hlen : 42 ≤ f.data.length)
    (hdata : ∀ i (hi : i < f.data.length), pData i = f.data[i]) :
    { mData := (List.range
        (if pData 12 = 0x08 ∧ pData 13 = 0x06 then 42 else f.data.length)).map pData,
      len := f.data.length } = f.mBlk := by
  have htake : ∀ n ≤ f.data.length, (List.range n).map pData = f.data.take n := by
    intro n hn
    apply List.ext_getElem
    · simpa using hn
    · intro i hi _
      rw [List.length_map, List.length_range] at hi
      rw [List.getElem_map, List.getElem_range, List.getElem_take, hdata i (by omega)]
  rw [hdata 12 (by omega), hdata 13 (by omega), Frame.mBlk,
    List.getElem?_eq_getElem (show 12 < f.data.length by omega),
    List.getElem?_eq_getElem (show 13 < f.data.length by omega)]
  simp only [Option.some_inj]
  congr 1
  split_ifs
  · exact htake 42 hlen
  · rw [htake _ le_rfl, List.take_length]

/-! ## The ring as a queue -/

/-- The frames `q` stand in the ring from position `r` on, the chip and the driver agree
on where, and they are what is left to pass up. -/
structure Ring (d : Dev) (r : Nat) (q : List Frame) : Prop where
  bnry : d.chip.bnry = page (r + 31)
  curpag : d.chip.curpag = page (r + pagesOf q)
  rxCurrPage : d.rxCurrPage = page r
  room : pagesOf q ≤ 31
  holds : Holds d.chip.mem r q
  kinds : ∀ f ∈ q, f.Good ∨ damaged f.status
  kept : d.kept.map Frame.mBlk = d.passedUp ++ (q.filter fun f => f.Good).map Frame.mBlk

/-- In the loop of `axend_packet_receive` there is a frame to read, and the loop will
read it. -/
def Ready (d : Dev) (q : List Frame) : Prop :=
  ∀ overrun writePoint pData, d.pc = .reading overrun writePoint pData →
    q ≠ [] ∧ writePoint ≠ d.rxCurrPage

theorem Frame.Good.not_damaged {f : Frame} (h : f.Good) : ¬ damaged f.status := by
  have hall : ∀ s : BitVec 8, s &&& 0x0F#8 = 1#8 → s &&& 2#8 = 0#8 ∧ s &&& 4#8 = 0#8 := by decide
  have hbits := hall f.status.toBitVec (congrArg UInt8.toBitVec h.1)
  rintro (hcrc | halign)
  · exact hcrc (UInt8.toBitVec_inj.mp hbits.1)
  · exact halign (UInt8.toBitVec_inj.mp hbits.2)

section

variable {d : Dev} {r : Nat} {q : List Frame}

theorem Ring.readPoint (h : Ring d r q) : d.chip.readPoint = page r :=
  Chip.readPoint_of_bnry h.bnry

/-- The driver sees an empty ring when it is empty, and then only. -/
theorem Ring.readPoint_eq_curpag (h : Ring d r q) :
    d.chip.readPoint = d.chip.curpag ↔ q = [] := by
  rw [h.readPoint, h.curpag]
  cases q with
  | nil => simp
  | cons f q =>
      have hpos := f.pages_pos
      have hroom := h.room
      rw [pagesOf_cons] at hroom ⊢
      have hne : page (r + (f.pages + pagesOf q)) ≠ page r := page_add_ne (by omega) (by omega)
      simp [hne.symm]

theorem Ring.packetGet_eq_false (h : Ring d r q) : d.chip.packetGet = false ↔ q = [] := by
  rw [← h.readPoint_eq_curpag, Chip.packetGet, bne_eq_false_iff_eq]

theorem Ring.axendReset (h : Ring d r q) : Ring d.axendReset 1 [] where
  bnry := rfl
  curpag := rfl
  rxCurrPage := rfl
  room := Nat.zero_le _
  holds := trivial
  kinds := by simp
  kept := by
    show (d.kept.take d.passedUp.length).map Frame.mBlk = d.passedUp ++ []
    rw [List.map_take, h.kept, List.take_left, List.append_nil]

/-- A frame that fits goes to the end of the queue. -/
theorem Ring.receive {f : Frame} (h : Ring d r q) (hfit : f.pages ≤ d.chip.freePages)
    (hkind : f.Good ∨ damaged f.status) : Ring (d.step (.arrive f)) r (q ++ [f]) := by
  have hfree := Chip.freePages_of_ring h.bnry h.curpag h.room
  have hroom := h.room
  have hlen := f.stored_length_le
  have hchip : (d.step (.arrive f)).chip = d.chip.receive f := rfl
  have hafter : pageAfter d.chip.curpag f.pages = page (r + pagesOf q + f.pages) := by
    rw [h.curpag, pageAfter_page]
  refine ⟨?_, ?_, h.rxCurrPage, ?_, ?_, ?_, ?_⟩
  · rw [hchip, Chip.receive, if_pos hfit]
    exact h.bnry
  · rw [hchip, Chip.receive, if_pos hfit, pagesOf_append, pagesOf_cons, pagesOf_nil,
      Nat.add_zero, ← Nat.add_assoc]
    exact hafter
  · rw [pagesOf_append, pagesOf_cons, pagesOf_nil]
    omega
  · rw [hchip, Chip.receive, if_pos hfit]
    show Holds (writeDma d.chip.mem (256 * d.chip.curpag)
      (f.stored (pageAfter d.chip.curpag f.pages))) r (q ++ [f])
    rw [hafter, h.curpag]
    refine Holds.append (h.holds.write_behind le_rfl ?_) (Holds.write_frame _ _ (by omega))
    rw [f.stored_length]
    omega
  · intro g hg
    rcases List.mem_append.mp hg with hq | hf
    · exact h.kinds g hq
    · obtain rfl := List.mem_singleton.mp hf
      exact hkind
  · show (if f.pages ≤ d.chip.freePages ∧ f.Good then d.kept ++ [f] else d.kept).map Frame.mBlk =
      d.passedUp ++ ((q ++ [f]).filter fun f => f.Good).map Frame.mBlk
    by_cases hg : f.Good
    · simp [hfit, hg, h.kept]
    · simp [hg, h.kept]

/-- A frame that does not fit changes nothing. -/
theorem Ring.lost {f : Frame} (h : Ring d r q) (hfit : ¬ f.pages ≤ d.chip.freePages) :
    Ring (d.step (.arrive f)) r q := by
  have hstep : d.step (.arrive f) =
      { d with chip := { d.chip with isr := d.chip.isr ||| enisrOver } } := by
    simp only [Dev.step, Chip.receive, hfit, false_and, if_false]
  rw [hstep]
  exact ⟨h.bnry, h.curpag, h.rxCurrPage, h.room, h.holds, h.kinds, h.kept⟩

/-! ## The driver goes on -/

theorem Ring.handled (h : Ring d r q) (overrun : Bool) : Ring (d.handled overrun) r q := by
  cases overrun <;>
    exact ⟨h.bnry, h.curpag, h.rxCurrPage, h.room, h.holds, h.kinds, h.kept⟩

/-- The frame at the front of the queue is passed up. -/
theorem Ring.readFrame_good {f : Frame} {writePoint : Nat} (h : Ring d r (f :: q))
    (hwp : writePoint ≠ d.rxCurrPage) (hgood : f.Good) (overrun : Bool) (pData : Nat → UInt8) :
    Ring (d.readFrame overrun writePoint pData) (r + f.pages) q ∧
      (d.readFrame overrun writePoint pData).pc = .handling overrun := by
  obtain ⟨_, hmin, hmax⟩ := id hgood
  have hroom := h.room
  rw [pagesOf_cons] at hroom
  obtain ⟨hhdr, hdata⟩ := Holds.front (c := d.chip.writeIsr enisrRx) h.holds (by omega)
  have hlen : (f.data.length + 4 + 2 ^ 32 - 4) % 2 ^ 32 = f.data.length := by omega
  have hmblk := mBlk_of_buffer
    ((d.chip.writeIsr enisrRx).blockInput f.data.length pData (page r)) (by omega)
    (fun i hi => blockInput_eq hdata pData hi)
  have hread : d.readFrame overrun writePoint pData =
      { d with
        chip := (d.chip.writeIsr enisrRx).releaseTo (page (r + f.pages))
        rxCurrPage := page (r + f.pages)
        pc := .handling overrun
        passedUp := d.passedUp ++ [f.mBlk] } := by
    rw [← hmblk]
    simp only [Dev.readFrame, if_neg hwp, h.readPoint, hhdr, if_neg hgood.not_damaged, hlen,
      if_neg (show ¬ (f.data.length < 60 ∨ 1518 < f.data.length) by omega), if_pos hgood.1,
      Dev.passUp]
  rw [hread]
  refine ⟨⟨Chip.releaseTo_page _ _, ?_, rfl, by omega, h.holds.2, ?_, ?_⟩, rfl⟩
  · rw [Nat.add_assoc]
    exact h.curpag
  · exact fun g hg => h.kinds g (List.mem_cons_of_mem f hg)
  · have hkept := h.kept
    rw [List.filter_cons_of_pos (by simpa using hgood), List.map_cons] at hkept
    rw [hkept, List.append_assoc]
    rfl

/-- A damaged frame resets the ring. -/
theorem Ring.readFrame_damaged {f : Frame} {overrun : Bool} {writePoint : Nat}
    {pData : Nat → UInt8} (h : Ring d r (f :: q)) (hwp : writePoint ≠ d.rxCurrPage)
    (hbad : damaged f.status) :
    d.readFrame overrun writePoint pData = d.axendReset.handled overrun := by
  have hroom := h.room
  rw [pagesOf_cons] at hroom
  obtain ⟨hhdr, _⟩ := Holds.front (c := d.chip.writeIsr enisrRx) h.holds (by omega)
  simp only [Dev.readFrame, if_neg hwp, h.readPoint, hhdr, if_pos hbad]

/-- How many steps the driver has before it, at most, with `n` frames in the ring. -/
def Pc.weight (n : Nat) : Pc → Nat
  | .idle => 0
  | .handling overrun => 3 * n + 2 + 3 * overrun.toNat
  | .receiving overrun => 3 * n + 1 + 3 * overrun.toNat
  | .reading overrun _ _ => 3 * n + 3 * overrun.toNat

/-- The ring is in order, the driver has fewer than `n` steps to go, and it does not go
without need: where memory was to be had, it leaves the ring empty. -/
def Onward (n : Nat) (alloc : Bool) (d : Dev) : Prop :=
  ∃ r q, Ring d r q ∧ Ready d q ∧ d.pc.weight q.length < n ∧
    (alloc = true → d.pc = .idle → q = [])

theorem Ring.onward_handled {n : Nat} {alloc overrun : Bool} (h : Ring d r q)
    (halloc : alloc = true → q = []) (hn : 3 * q.length + 1 + 3 * overrun.toNat ≤ n) :
    Onward n alloc (d.handled overrun) := by
  refine ⟨r, q, h.handled overrun, ?_, ?_, fun ha _ => halloc ha⟩
  · intro overrun' writePoint pData hpc
    cases overrun <;> cases hpc
  · cases overrun with
    | false =>
        show 0 < n
        omega
    | true =>
        show 3 * q.length + 2 + 0 < n
        rw [Bool.toNat_true] at hn
        omega

theorem Ring.onward_handling {overrun : Bool} (h : Ring d r q) (hpc : d.pc = .handling overrun)
    (cluster : Option (Nat → UInt8)) :
    Onward (d.pc.weight q.length) cluster.isSome (d.drive cluster) := by
  simp only [Dev.drive, hpc, Pc.weight]
  cases hget : d.chip.packetGet with
  | false =>
      exact h.onward_handled (fun _ => h.packetGet_eq_false.mp hget) (by omega)
  | true =>
      refine ⟨r, q, ⟨h.bnry, h.curpag, h.rxCurrPage, h.room, h.holds, h.kinds, h.kept⟩, ?_, ?_, ?_⟩
      · intro _ _ _ hread
        cases hread
      · show 3 * q.length + 1 + 3 * overrun.toNat < _
        omega
      · intro _ hidle
        cases hidle

theorem Ring.onward_receiving {overrun : Bool} (h : Ring d r q) (hpc : d.pc = .receiving overrun)
    (cluster : Option (Nat → UInt8)) :
    Onward (d.pc.weight q.length) cluster.isSome (d.drive cluster) := by
  simp only [Dev.drive, hpc, Pc.weight]
  cases cluster with
  | none =>
      exact h.onward_handled (fun hnone => by cases hnone) (by omega)
  | some pData =>
      dsimp only
      by_cases hempty : d.chip.readPoint = d.chip.curpag
      · rw [if_pos hempty]
        exact h.onward_handled (fun _ => h.readPoint_eq_curpag.mp hempty) (by omega)
      · rw [if_neg hempty]
        refine ⟨r, q, ⟨h.bnry, h.curpag, h.rxCurrPage, h.room, h.holds, h.kinds, h.kept⟩,
          ?_, ?_, ?_⟩
        · intro overrun' writePoint' pData' hread
          obtain ⟨-, rfl, -⟩ := Pc.reading.inj hread
          refine ⟨fun hq => hempty (h.readPoint_eq_curpag.mpr hq), fun hwp => hempty ?_⟩
          rw [h.readPoint, ← h.rxCurrPage]
          exact hwp.symm
        · show 3 * q.length + 3 * overrun.toNat < _
          omega
        · intro _ hidle
          cases hidle

theorem Ring.onward_reading {overrun : Bool} {writePoint : Nat} {pData : Nat → UInt8}
    (h : Ring d r q) (hready : Ready d q) (hpc : d.pc = .reading overrun writePoint pData)
    (cluster : Option (Nat → UInt8)) :
    Onward (d.pc.weight q.length) cluster.isSome (d.drive cluster) := by
  obtain ⟨hq, hwp⟩ := hready overrun writePoint pData hpc
  simp only [Dev.drive, hpc, Pc.weight]
  cases q with
  | nil => exact absurd rfl hq
  | cons f q =>
      rw [List.length_cons]
      rcases h.kinds f List.mem_cons_self with hgood | hbad
      · obtain ⟨hring, hnext⟩ := h.readFrame_good hwp hgood overrun pData
        refine ⟨r + f.pages, q, hring, ?_, ?_, ?_⟩
        · intro _ _ _ hread
          rw [hnext] at hread
          cases hread
        · rw [hnext]
          show 3 * q.length + 2 + 3 * overrun.toNat < _
          omega
        · intro _ hidle
          rw [hnext] at hidle
          cases hidle
      · rw [h.readFrame_damaged hwp hbad]
        refine h.axendReset.onward_handled (fun _ => rfl) ?_
        rw [List.length_nil]
        omega

/-- A step of the driver while it has something to do. -/
theorem Ring.onward (h : Ring d r q) (hready : Ready d q) (hpc : d.pc ≠ .idle)
    (cluster : Option (Nat → UInt8)) :
    Onward (d.pc.weight q.length) cluster.isSome (d.drive cluster) := by
  cases hcase : d.pc with
  | idle => exact absurd hcase hpc
  | handling overrun => exact hcase ▸ h.onward_handling hcase cluster
  | receiving overrun => exact hcase ▸ h.onward_receiving hcase cluster
  | reading overrun writePoint pData => exact hcase ▸ h.onward_reading hready hcase cluster

/-- With a buffer for every frame, the driver empties the ring and is done. -/
theorem Ring.drained (h : Ring d r q) (hready : Ready d q) (hidle : d.pc = .idle → q = [])
    {clusters : List (Nat → UInt8)} (hn : d.pc.weight q.length ≤ clusters.length) :
    (run Dev.step d (clusters.map fun c => .drive (some c))).pc = .idle ∧
      (run Dev.step d (clusters.map fun c => .drive (some c))).passedUp =
        (run Dev.step d (clusters.map fun c => .drive (some c))).kept.map Frame.mBlk := by
  induction clusters generalizing d r q with
  | nil =>
      have hpc : d.pc = .idle := by
        rw [List.length_nil] at hn
        cases hcase : d.pc with
        | idle => rfl
        | handling overrun => simp [hcase, Pc.weight] at hn
        | receiving overrun => simp [hcase, Pc.weight] at hn
        | reading overrun writePoint pData =>
            have hq := (hready overrun writePoint pData hcase).1
            simp [hcase, Pc.weight, hq] at hn
      refine ⟨hpc, ?_⟩
      have hkept := h.kept
      rw [hidle hpc] at hkept
      simpa using hkept.symm
  | cons c clusters ih =>
      rw [List.map_cons, run_cons]
      by_cases hpc : d.pc = .idle
      · have hstay : d.step (.drive (some c)) = d := by simp [Dev.step, Dev.drive, hpc]
        rw [hstay]
        refine ih h hready hidle ?_
        rw [hpc]
        exact Nat.zero_le _
      · obtain ⟨r', q', hring, hready', hless, hempty⟩ := h.onward hready hpc (some c)
        rw [List.length_cons] at hn
        have hleft : (d.drive (some c)).pc.weight q'.length ≤ clusters.length := by omega
        exact ih hring hready' (hempty rfl) hleft

end

/-! ## Runs -/

/-- Whoever calls the driver now finds it outside the loop of `axend_packet_receive`. -/
def Pc.isReading : Pc → Bool
  | .reading _ _ _ => true
  | _ => false

/-- A frame that is stored is good, or its damage makes the driver reset the chip; the
multicast filter is set when `CURPAG` is on the first page already; and no one resets the
chip while a frame is read. -/
def KeepsPlace (d : Dev) : Event → Prop
  | .arrive f => f.pages ≤ d.chip.freePages → f.Good ∨ damaged f.status
  | .mCastAdd enetreset => enetreset = true → d.chip.curpag = nesmRxStartPg
  | .mCastDel enetreset => enetreset = true → d.chip.curpag = nesmRxStartPg
  | .reset => d.pc.isReading = false
  | .int => True
  | .drive _ => True

/-- What has been passed up is what came in, each frame once and in order; nothing is
left out of it when the ring is empty; and a driver at work that gets its buffers goes on
until nothing is left out. -/
structure Delivers (d : Dev) : Prop where
  inOrder : d.passedUp <+: d.kept.map Frame.mBlk
  emptied : d.chip.packetGet = false → d.passedUp = d.kept.map Frame.mBlk
  goesOn : d.pc ≠ .idle → ∃ n, ∀ clusters : List (Nat → UInt8), n ≤ clusters.length →
    (run Dev.step d (clusters.map fun c => .drive (some c))).pc = .idle ∧
      (run Dev.step d (clusters.map fun c => .drive (some c))).passedUp =
        (run Dev.step d (clusters.map fun c => .drive (some c))).kept.map Frame.mBlk

def InPlace (d : Dev) : Prop := ∃ r q, Ring d r q ∧ Ready d q

theorem InPlace.delivers {d : Dev} (h : InPlace d) : Delivers d := by
  obtain ⟨r, q, hring, hready⟩ := h
  refine ⟨⟨_, hring.kept.symm⟩, ?_, fun hpc => ⟨d.pc.weight q.length, ?_⟩⟩
  · intro hget
    have hkept := hring.kept
    rw [hring.packetGet_eq_false.mp hget] at hkept
    simpa using hkept.symm
  · intro clusters hn
    exact hring.drained hready (fun hidle => absurd hidle hpc) hn

theorem inPlace_loaded (mem : Nat → UInt8) : InPlace (Dev.loaded mem) := by
  refine ⟨1, [], ⟨rfl, rfl, rfl, Nat.zero_le _, trivial, by simp, rfl⟩, ?_⟩
  intro overrun writePoint pData hpc
  cases hpc

theorem InPlace.arrive {d : Dev} (h : InPlace d) {f : Frame}
    (hkind : f.pages ≤ d.chip.freePages → f.Good ∨ damaged f.status) :
    InPlace (d.step (.arrive f)) := by
  obtain ⟨r, q, hring, hready⟩ := h
  by_cases hfit : f.pages ≤ d.chip.freePages
  · refine ⟨r, q ++ [f], hring.receive hfit (hkind hfit), ?_⟩
    intro overrun writePoint pData hpc
    exact ⟨by simp, (hready overrun writePoint pData hpc).2⟩
  · exact ⟨r, q, hring.lost hfit, hready⟩

/-- A call acknowledges what the chip has reported and begins to work, or does not. -/
theorem ax88796Int_of_idle {d : Dev} (hpc : d.pc = .idle) :
    ∃ rxHandling pc, pc.isReading = false ∧ d.ax88796Int =
      { d with chip := d.chip.writeIsr d.chip.isr, rxHandling := rxHandling, pc := pc } := by
  simp only [Dev.ax88796Int, hpc]
  split_ifs
  · exact ⟨true, .handling _, rfl, rfl⟩
  · exact ⟨true, .handling false, rfl, rfl⟩
  · exact ⟨d.rxHandling, .idle, rfl, rfl⟩

theorem InPlace.int {d : Dev} (h : InPlace d) : InPlace d.ax88796Int := by
  obtain ⟨r, q, hring, hready⟩ := h
  cases hpc : d.pc with
  | idle =>
      obtain ⟨rxHandling, pc, hnot, hint⟩ := ax88796Int_of_idle hpc
      rw [hint]
      refine ⟨r, q, ⟨hring.bnry, hring.curpag, hring.rxCurrPage, hring.room, hring.holds,
        hring.kinds, hring.kept⟩, ?_⟩
      intro overrun writePoint pData hread
      obtain rfl : pc = .reading overrun writePoint pData := hread
      cases hnot
  | handling overrun => simpa only [Dev.ax88796Int, hpc] using ⟨r, q, hring, hready⟩
  | receiving overrun => simpa only [Dev.ax88796Int, hpc] using ⟨r, q, hring, hready⟩
  | reading overrun writePoint pData =>
      simpa only [Dev.ax88796Int, hpc] using ⟨r, q, hring, hready⟩

theorem InPlace.drive {d : Dev} (h : InPlace d) (cluster : Option (Nat → UInt8)) :
    InPlace (d.drive cluster) := by
  obtain ⟨r, q, hring, hready⟩ := h
  by_cases hpc : d.pc = .idle
  · have hstay : d.drive cluster = d := by simp [Dev.drive, hpc]
    rw [hstay]
    exact ⟨r, q, hring, hready⟩
  · obtain ⟨r', q', hring', hready', _⟩ := hring.onward hready hpc cluster
    exact ⟨r', q', hring', hready'⟩

theorem InPlace.mCast {d : Dev} (h : InPlace d) {enetreset : Bool}
    (hcur : enetreset = true → d.chip.curpag = nesmRxStartPg) :
    InPlace (if enetreset then d.ax88796AddrFilterSet else d) := by
  cases enetreset with
  | false => exact h
  | true =>
      have hsame : d.ax88796AddrFilterSet = d := by
        have hcurpag : nesmStartPg + txPages + 1 = d.chip.curpag := (hcur rfl).symm
        rw [Dev.ax88796AddrFilterSet, hcurpag]
      rw [hsame]
      exact h

theorem InPlace.reset {d : Dev} (h : InPlace d) (hpc : d.pc.isReading = false) :
    InPlace d.axendReset := by
  obtain ⟨r, q, hring, _⟩ := h
  refine ⟨1, [], hring.axendReset, ?_⟩
  intro overrun writePoint pData hread
  have hread' : d.pc = .reading overrun writePoint pData := hread
  rw [hread'] at hpc
  cases hpc

theorem InPlace.step {d : Dev} {e : Event} (h : InPlace d) (he : KeepsPlace d e) :
    InPlace (d.step e) := by
  cases e with
  | arrive f => exact h.arrive he
  | int => exact h.int
  | drive cluster => exact h.drive cluster
  | mCastAdd enetreset => exact h.mCast he
  | mCastDel enetreset => exact h.mCast he
  | reset => exact h.reset he

/-- In every run whose steps leave the three registers where they belong, what is passed
up is what came in. -/
theorem ring_delivers (mem : Nat → UInt8) (es : List Event)
    (hg : Guarded Dev.step KeepsPlace (Dev.loaded mem) es) :
    Always Dev.step Delivers (Dev.loaded mem) es := by
  have halways := always_of_guarded InPlace (inPlace_loaded mem) (fun d e => InPlace.step) hg
  exact fun pre hpre => (halways pre hpre).delivers

/-- A good frame of the shortest length, with the type field of its bytes. -/
def shortFrame (b0 b1 : UInt8) : Frame :=
  { status := enrsrRxok, data := List.replicate 12 0xff ++ [b0, b1] ++ List.replicate 46 0 }

/-- An ARP frame waits for a buffer until the next frame comes, which a reset discards. -/
def arpRun : List Event :=
  [.arrive (shortFrame 0x08 0x06), .int, .drive none, .drive none,
    .arrive (shortFrame 0x08 0x00), .int, .drive none, .drive (some fun _ => 0), .drive none,
    .mCastAdd false, .reset]

theorem ring_delivers_arp :
    Always Dev.step Delivers (Dev.loaded fun _ => 0) arpRun ∧
      (run Dev.step (Dev.loaded fun _ => 0) arpRun).passedUp = [(shortFrame 0x08 0x06).mBlk] := by
  refine ⟨ring_delivers _ _ ?_, by decide +kernel⟩
  refine guarded_cons (fun _ => .inl (by decide)) ?_
  refine guarded_cons trivial (guarded_cons trivial (guarded_cons trivial ?_))
  refine guarded_cons (fun _ => .inl (by decide)) ?_
  refine guarded_cons trivial (guarded_cons trivial (guarded_cons trivial ?_))
  refine guarded_cons trivial (guarded_cons (fun hfalse => by cases hfalse) ?_)
  exact guarded_cons (by show Pc.isReading _ = false; decide +kernel) guarded_nil

/-- A multicast address is added after the first frame. `CURPAG` goes back to the first
page and the second frame is stored there. -/
def staleRun : List Event :=
  [.arrive (shortFrame 0x08 0x00), .int, .drive none, .drive (some fun _ => 0), .drive none,
    .drive none, .mCastAdd true, .arrive (shortFrame 0x86 0xdd), .int, .drive none,
    .drive (some fun _ => 0), .drive none, .drive none]

/-- What the driver passes up then is the first frame again. -/
theorem ring_delivers_stale :
    (run Dev.step (Dev.loaded fun _ => 0) staleRun).passedUp =
        [(shortFrame 0x08 0x00).mBlk, (shortFrame 0x08 0x00).mBlk] ∧
      (run Dev.step (Dev.loaded fun _ => 0) staleRun).kept =
        [shortFrame 0x08 0x00, shortFrame 0x86 0xdd] ∧
      ¬ Always Dev.step Delivers (Dev.loaded fun _ => 0) staleRun := by
  refine ⟨by decide +kernel, by decide +kernel, fun h => ?_⟩
  have hprefix := (h _ (List.prefix_refl _)).inOrder
  revert hprefix
  decide +kernel

end VxWorks.Drv
