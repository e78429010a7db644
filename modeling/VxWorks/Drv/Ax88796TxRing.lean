import Mathlib.Data.Finset.Card
import Mathlib.Order.Interval.Finset.Nat
import VxWorks.Drv.Ax88796Tx

/-!
# No queued frame is written over (ax88796end.c)

Positions are pages counted from the reset on without wrapping. The queued frames lie one
behind the other from position `h`, where all the pages before have been sent, and
`tx_curr_page` is the position behind them. What `EN0_CTEPR` shows is `h` alone, and a
driver that has read it a while ago has read an earlier `h`, which makes the ring look
fuller than it is. One page always stays free, so the positions from `h` to the end of a
frame that is being written are less than one turn, and different positions are different
pages.
-/

namespace VxWorks.Drv

open VxWorks.Lib

/-! ## Pages -/

theorem txPage_eq (k : Nat) : txPage k = 64 + k % 32 := rfl

theorem txLong_eq (k : Nat) : txLong k = 4096 + k % 2048 := rfl

theorem txLong_page (k : Nat) : txLong k / 64 = txPage (k / 64) := by
  rw [txLong_eq, txPage_eq]
  omega

theorem mul_txPage (k : Nat) : 64 * txPage k = txLong (64 * k) := by
  rw [txLong_eq, txPage_eq]
  omega

theorem txPage_ne {j k : Nat} (hlt : j < k) (hturn : k < j + 32) : txPage k ≠ txPage j :=
  cellAt_ne hlt hturn

@[simp] theorem uchar_of_lt {n : Nat} (h : n < 256) : uchar n = n := by
  rw [uchar]
  omega

theorem needPages_eq {skb : Pkt} (h : skb.len ≤ 1536) : needPages skb = (skb.len + 255) / 256 := by
  rw [needPages, uchar]
  omega

/-! ## The queue in the ring -/

def TxFrame.size (f : TxFrame) : Nat := (f.count + 255) / 256

def txPagesOf (q : List TxFrame) : Nat := (q.map TxFrame.size).sum

@[simp] theorem txPagesOf_nil : txPagesOf [] = 0 := rfl

@[simp] theorem txPagesOf_cons (f : TxFrame) (q : List TxFrame) :
    txPagesOf (f :: q) = f.size + txPagesOf q := rfl

@[simp] theorem txPagesOf_append (q p : List TxFrame) :
    txPagesOf (q ++ p) = txPagesOf q + txPagesOf p := by
  simp [txPagesOf]

/-- The frames lie from position `k` on, one behind the other; none is empty. -/
def Laid : Nat → List TxFrame → Prop
  | _, [] => True
  | k, f :: q => f.page = txPage k ∧ 0 < f.count ∧ Laid (k + f.size) q

theorem Laid.append {k : Nat} {q : List TxFrame} {f : TxFrame} (h : Laid k q)
    (hpage : f.page = txPage (k + txPagesOf q)) (hcount : 0 < f.count) : Laid k (q ++ [f]) := by
  induction q generalizing k with
  | nil => exact ⟨hpage, hcount, trivial⟩
  | cons g q ih =>
      refine ⟨h.1, h.2.1, ih h.2.2 ?_⟩
      rw [hpage, txPagesOf_cons, Nat.add_assoc]

theorem TxFrame.mem_pages {f : TxFrame} {k p : Nat} (hpage : f.page = txPage k) :
    p ∈ f.pages ↔ ∃ i < f.size, p = txPage (k + i) := by
  have hshift : ∀ i, txPage (f.page - nesmStartPg + i) = txPage (k + i) := by
    intro i
    rw [hpage]
    show 64 + (64 + k % 32 - 64 + i) % 32 = 64 + (k + i) % 32
    omega
  simp only [TxFrame.pages, hshift, List.mem_map, List.mem_range, TxFrame.size]
  exact exists_congr fun i => and_congr_right fun _ => eq_comm

theorem Laid.mem_pages {k p : Nat} {q : List TxFrame} {f : TxFrame} (h : Laid k q) (hf : f ∈ q)
    (hp : p ∈ f.pages) : ∃ i < txPagesOf q, p = txPage (k + i) := by
  induction q generalizing k with
  | nil => exact absurd hf List.not_mem_nil
  | cons g q ih =>
      rcases List.mem_cons.mp hf with rfl | hf
      · obtain ⟨i, hi, rfl⟩ := (TxFrame.mem_pages h.1).mp hp
        exact ⟨i, by rw [txPagesOf_cons]; omega, rfl⟩
      · obtain ⟨i, hi, rfl⟩ := ih h.2.2 hf
        exact ⟨g.size + i, by rw [txPagesOf_cons]; omega, by rw [Nat.add_assoc]⟩

theorem TxFrame.getLastD_pages {f : TxFrame} {k : Nat} (hpage : f.page = txPage k)
    (hcount : 0 < f.count) : f.pages.getLastD 0 = txPage (k + f.size - 1) ∧ 0 < f.size := by
  have hsize : 0 < f.size := by
    rw [TxFrame.size]
    omega
  obtain ⟨n, hn⟩ : ∃ n, (f.count + 255) / 256 = n + 1 := ⟨f.size - 1, by unfold TxFrame.size; omega⟩
  have hlast : f.pages.getLastD 0 = txPage (f.page - nesmStartPg + n) := by
    rw [TxFrame.pages, hn, List.range_succ, List.map_append]
    simp
  refine ⟨?_, hsize⟩
  rw [hlast, hpage]
  rw [TxFrame.size]
  rw [hn]
  show 64 + (64 + k % 32 - 64 + n) % 32 = 64 + (k + (n + 1) - 1) % 32
  omega

/-- At least the pages that the queue does not need are free. -/
theorem Laid.freePages_ge {c : TxChip} {k : Nat} (h : Laid k c.queue) :
    32 - txPagesOf c.queue ≤ c.freePages := by
  let used := (Finset.range (txPagesOf c.queue)).image fun i => txPage (k + i)
  have hused : used.card ≤ txPagesOf c.queue := by
    simpa using Finset.card_image_le (s := Finset.range (txPagesOf c.queue))
      (f := fun i => txPage (k + i))
  have hsub : Finset.Ico nesmStartPg nesmRxStartPg \ used ⊆
      (Finset.Ico nesmStartPg nesmRxStartPg).filter fun p => ∀ f ∈ c.queue, p ∉ f.pages := by
    intro p hp
    obtain ⟨hin, hnot⟩ := Finset.mem_sdiff.mp hp
    refine Finset.mem_filter.mpr ⟨hin, fun f hf hpf => hnot ?_⟩
    obtain ⟨i, hi, rfl⟩ := h.mem_pages hf hpf
    exact Finset.mem_image.mpr ⟨i, Finset.mem_range.mpr hi, rfl⟩
  have hall : (Finset.Ico nesmStartPg nesmRxStartPg).card = 32 := rfl
  calc 32 - txPagesOf c.queue
      ≤ (Finset.Ico nesmStartPg nesmRxStartPg).card - used.card := by omega
    _ ≤ (Finset.Ico nesmStartPg nesmRxStartPg \ used).card := Finset.le_card_sdiff _ _
    _ ≤ c.freePages := Finset.card_le_card hsub

/-! ## What the driver concludes -/

/-- `EN0_CTEPR` when the pages before position `h` have been sent. -/
def Shows (curPage h : Nat) : Prop := curPage = 0 ∧ h = 0 ∨ 0 < h ∧ curPage = txPage (h - 1)

/-- The variables with `tx_curr_page` at position `k`. -/
structure PageInfo.Points (p : PageInfo) (k : Nat) : Prop where
  curr : p.txCurrPage = txPage k
  start : p.txStartPage = 64
  stop : p.txStopPage = 96

/-- With at most 31 pages in use the five cases are right, and the flag only ever makes the
result smaller. -/
theorem PageInfo.Points.freePages_le {p : PageInfo} {curPage h n : Nat} (hp : p.Points (h + n))
    (hcur : Shows curPage h) (hn : n ≤ 31) : p.freePages curPage ≤ 32 - n := by
  have hcurr := hp.curr
  rw [txPage_eq] at hcurr
  unfold PageInfo.freePages
  rw [hp.start, hp.stop, hcurr]
  rcases hcur with ⟨rfl, rfl⟩ | ⟨hpos, rfl⟩
  · unfold uchar
    split_ifs <;> omega
  · rw [txPage_eq]
    unfold uchar
    split_ifs <;> omega

/-! ## The invariant -/

def Pkt.Legal (skb : Pkt) : Prop := 0 < skb.len ∧ skb.len ≤ 1536

/-- The variables, with `n` pages queued from position `h` on. -/
def TxPc.Good (p : PageInfo) (rsar h n : Nat) : TxPc → Prop
  | .idle => p.Points (h + n)
  | .looked skb curPage =>
      -- what was read is from an earlier time
      skb.Legal ∧ p.Points (h + n) ∧ ∃ h₀ n₀, h₀ + n₀ = h + n ∧ n ≤ n₀ ∧ n₀ ≤ 31 ∧ Shows curPage h₀
  | .writing skb _ freePages i =>
      skb.Legal ∧ p.Points (h + n) ∧ needPages skb + 1 ≤ freePages ∧ freePages ≤ 32 - n ∧
        rsar = txLong (64 * (h + n) + i / 4)
  | .queued skb _ _ => skb.Legal ∧ ∃ k, p.Points k ∧ k + needPages skb = h + n

structure TxDev.Inv (d : TxDev) (h : Nat) : Prop where
  laid : Laid h d.chip.queue
  shows : Shows d.chip.ctepr h
  room : txPagesOf d.chip.queue ≤ 31
  good : d.pc.Good d.pageInfo d.chip.rsar h (txPagesOf d.chip.queue)

/-- A frame that is sent only moves the beginning of the queue. -/
theorem TxPc.Good.advance {p : PageInfo} {rsar h n h' n' : Nat} {pc : TxPc}
    (hg : pc.Good p rsar h n) (hsum : h' + n' = h + n) (hle : n' ≤ n) : pc.Good p rsar h' n' := by
  cases pc with
  | idle =>
      show p.Points (h' + n')
      rw [hsum]
      exact hg
  | looked skb curPage =>
      obtain ⟨hlegal, hp, h₀, n₀, hsum₀, hn₀, hroom, hshow⟩ := hg
      exact ⟨hlegal, hsum ▸ hp, h₀, n₀, hsum₀.trans hsum.symm, hle.trans hn₀, hroom, hshow⟩
  | writing skb curPage freePages i =>
      obtain ⟨hlegal, hp, hneed, hfree, hrsar⟩ := hg
      exact ⟨hlegal, hsum ▸ hp, hneed, by omega, hsum ▸ hrsar⟩
  | queued skb curPage freePages =>
      obtain ⟨hlegal, k, hp, hk⟩ := hg
      exact ⟨hlegal, k, hp, hk.trans hsum.symm⟩

/-- Nothing depends on the flag. -/
theorem TxPc.Good.of_pageInfo {p p' : PageInfo} {rsar h n : Nat} {pc : TxPc}
    (hg : pc.Good p rsar h n) (hp : ∀ k, p.Points k → p'.Points k) : pc.Good p' rsar h n := by
  cases pc with
  | idle => exact hp _ hg
  | looked skb curPage => exact ⟨hg.1, hp _ hg.2.1, hg.2.2⟩
  | writing skb curPage freePages i => exact ⟨hg.1, hp _ hg.2.1, hg.2.2⟩
  | queued skb curPage freePages =>
      obtain ⟨hlegal, k, hk, hsum⟩ := hg
      exact ⟨hlegal, k, hp k hk, hsum⟩

theorem PageInfo.Points.txFull {p : PageInfo} {k : Nat} (hp : p.Points k) (b : Bool) :
    { p with txFull := b }.Points k := ⟨hp.curr, hp.start, hp.stop⟩

section

variable {d : TxDev} {h : Nat}

theorem axendReset_inv (hidle : d.pc = .idle) : d.axendReset.Inv 0 where
  laid := trivial
  shows := .inl ⟨rfl, rfl⟩
  room := Nat.zero_le _
  good := by
    show d.pc.Good _ _ _ _
    rw [hidle]
    exact ⟨rfl, rfl, rfl⟩

theorem complete_inv (hi : d.Inv h) :
    ∃ h', TxDev.Inv { d with chip := d.chip.complete } h' := by
  unfold TxChip.complete
  cases hq : d.chip.queue with
  | nil => exact ⟨h, hi⟩
  | cons f queue =>
      have hlaid := hq ▸ hi.laid
      have hroom := hq ▸ hi.room
      rw [txPagesOf_cons] at hroom
      obtain ⟨hlast, hsize⟩ := TxFrame.getLastD_pages hlaid.1 hlaid.2.1
      refine ⟨h + f.size, hlaid.2.2, .inr ⟨by omega, hlast⟩, show txPagesOf queue ≤ 31 by omega,
        hi.good.advance ?_ ?_⟩
      · show h + f.size + txPagesOf queue = _
        rw [hq, txPagesOf_cons, Nat.add_assoc]
      · show txPagesOf queue ≤ _
        rw [hq, txPagesOf_cons]
        exact Nat.le_add_left _ _

theorem axendStartTransmit_inv {skb : Pkt} {txcqf : Bool} (hi : d.Inv h)
    (hlen : skb.len ≤ 1536) : (d.axendStartTransmit skb txcqf).Inv h := by
  have hgood := hi.good
  unfold TxDev.axendStartTransmit
  cases hpc : d.pc with
  | idle =>
      rw [hpc] at hgood
      by_cases h0 : skb.len = 0
      · simpa [h0] using hi
      · cases txcqf with
        | true => simpa [h0] using hi
        | false =>
            simp only [h0, if_false, Bool.false_eq_true]
            exact ⟨hi.laid, hi.shows, hi.room, ⟨Nat.pos_of_ne_zero h0, hlen⟩, hgood,
              h, _, rfl, Nat.le_refl _, hi.room, hi.shows⟩
  | looked => simpa [hpc] using hi
  | writing => simpa [hpc] using hi
  | queued => simpa [hpc] using hi

theorem handleRcvInt_inv {damaged : Bool} (hi : d.Inv h) :
    ∃ h', (d.handleRcvInt damaged).Inv h' := by
  unfold TxDev.handleRcvInt
  split
  · next hidle =>
      split
      · exact ⟨0, axendReset_inv hidle⟩
      · exact ⟨h, hi⟩
  · exact ⟨h, hi⟩

theorem axendTxErr_inv (hi : d.Inv h) : d.axendTxErr.Inv h :=
  ⟨hi.laid, hi.shows, hi.room, hi.good.of_pageInfo fun _ hp => hp.txFull false⟩

theorem ax88796Int_inv {isrStatus : UInt8} {damaged : Bool} (hi : d.Inv h) :
    ∃ h', (d.ax88796Int isrStatus damaged).Inv h' := by
  obtain ⟨h', hi'⟩ := @handleRcvInt_inv d h damaged hi
  refine ⟨h', ?_⟩
  unfold TxDev.ax88796Int
  dsimp only
  by_cases htx : isrStatus &&& enisrTx ≠ 0
  · rw [if_pos htx]
    split
    · exact axendTxErr_inv (axendTxErr_inv hi')
    · exact axendTxErr_inv hi'
  · rw [if_neg htx]
    split
    · exact axendTxErr_inv hi'
    · exact hi'

/-- The position behind a frame, wrapped by hand. -/
theorem PageInfo.Points.next {p : PageInfo} {k n : Nat} (hp : p.Points k) (hn : n ≤ 31) :
    (if p.txCurrPage + n < p.txStopPage then uchar (p.txCurrPage + n)
      else uchar (n - (p.txStopPage - p.txCurrPage) + p.txStartPage)) = txPage (k + n) := by
  have hcurr := hp.curr
  rw [txPage_eq] at hcurr ⊢
  rw [hp.stop, hp.start, hcurr]
  unfold uchar
  split_ifs <;> omega

theorem drive_inv (hi : d.Inv h) : d.drive.Inv h := by
  obtain ⟨hlaid, hshows, hroom, hgood⟩ := hi
  unfold TxDev.drive
  cases hpc : d.pc with
  | idle => exact ⟨hlaid, hshows, hroom, by simpa [hpc] using hgood⟩
  | looked skb curPage =>
      rw [hpc] at hgood
      obtain ⟨hlegal, hp, h₀, n₀, hsum, hn, hn₀, hshow⟩ := hgood
      have hfree : d.pageInfo.freePages curPage ≤ 32 - txPagesOf d.chip.queue :=
        ((hsum ▸ hp).freePages_le hshow hn₀).trans (Nat.sub_le_sub_left hn 32)
      by_cases hneed : d.pageInfo.freePages curPage < needPages skb + 1
      · simp only [hneed, if_true]
        exact ⟨hlaid, hshows, hroom, hp.txFull true⟩
      · simp only [hneed, if_false]
        refine ⟨hlaid, hshows, hroom, hlegal, hp, Nat.not_lt.mp hneed, hfree, ?_⟩
        show 64 * d.pageInfo.txCurrPage = _
        rw [hp.curr, mul_txPage]
        rfl
  | writing skb curPage freePages i =>
      rw [hpc] at hgood
      obtain ⟨hlegal, hp, hneed, hfree, hrsar⟩ := hgood
      by_cases hlt : i < skb.len
      · simp only [hlt, if_true]
        refine ⟨hlaid, hshows, hroom, hlegal, hp, hneed, hfree, ?_⟩
        show nextCell _ _ d.chip.rsar = _
        rw [hrsar, show (i + 4) / 4 = i / 4 + 1 by omega]
        exact nextCell_cellAt (by decide) _
      · simp only [hlt, if_false]
        have hsize : TxFrame.size ⟨d.pageInfo.txCurrPage, skb.len⟩ = needPages skb :=
          (needPages_eq hlegal.2).symm
        refine ⟨hlaid.append hp.curr hlegal.1, hshows, ?_, hlegal, _, hp, ?_⟩
        · show txPagesOf (_ ++ _) ≤ 31
          simp only [txPagesOf_append, txPagesOf_cons, txPagesOf_nil, hsize]
          omega
        · show _ = h + txPagesOf (_ ++ _)
          simp only [txPagesOf_append, txPagesOf_cons, txPagesOf_nil, hsize]
          omega
  | queued skb curPage freePages =>
      rw [hpc] at hgood
      obtain ⟨hlegal, k, hp, hsum⟩ := hgood
      have hneed : needPages skb ≤ 31 := by
        rw [needPages_eq hlegal.2]
        have := hlegal.2
        omega
      refine ⟨hlaid, hshows, hroom, ?_, hp.start, hp.stop⟩
      rw [← hsum]
      exact hp.next hneed

theorem step_inv {e : TxEvent} (hi : d.Inv h) (hlegal : e.legal) : ∃ h', (d.step e).Inv h' := by
  cases e with
  | transmit skb txcqf => exact ⟨h, axendStartTransmit_inv hi hlegal⟩
  | drive => exact ⟨h, drive_inv hi⟩
  | complete => exact complete_inv hi
  | int isrStatus damaged => exact ax88796Int_inv hi

end

/-! ## Runs -/

/-- `tx_curr_page` is in the ring, `free_pages` is not too large, and the page that is
written next holds no part of a queued frame. -/
structure TxDev.Safe (d : TxDev) : Prop where
  curr : d.pageInfo.txStartPage ≤ d.pageInfo.txCurrPage ∧
    d.pageInfo.txCurrPage < d.pageInfo.txStopPage
  free : ∀ freePages, d.freePages = some freePages → freePages ≤ d.chip.freePages
  writes : ∀ p, d.writesPage = some p → ∀ f ∈ d.chip.queue, p ∉ f.pages

theorem TxPc.Good.points {p : PageInfo} {rsar h n : Nat} {pc : TxPc} (hg : pc.Good p rsar h n) :
    ∃ k, p.Points k := by
  cases pc with
  | idle => exact ⟨_, hg⟩
  | looked skb curPage => exact ⟨_, hg.2.1⟩
  | writing skb curPage freePages i => exact ⟨_, hg.2.1⟩
  | queued skb curPage freePages =>
      obtain ⟨-, k, hk, -⟩ := hg
      exact ⟨k, hk⟩

theorem inv_free {d : TxDev} {h freePages : Nat} (hi : d.Inv h)
    (hfree : d.freePages = some freePages) : freePages ≤ d.chip.freePages := by
  refine Nat.le_trans ?_ hi.laid.freePages_ge
  have hgood := hi.good
  unfold TxDev.freePages at hfree
  cases hpc : d.pc with
  | idle => simp [hpc] at hfree
  | looked skb curPage =>
      rw [hpc] at hgood hfree
      obtain ⟨-, hp, h₀, n₀, hsum, hn, hn₀, hshow⟩ := hgood
      obtain rfl : _ = freePages := Option.some.inj hfree
      exact ((hsum ▸ hp).freePages_le hshow hn₀).trans (Nat.sub_le_sub_left hn 32)
  | writing skb curPage free i =>
      rw [hpc] at hgood hfree
      obtain rfl : free = freePages := Option.some.inj hfree
      exact hgood.2.2.2.1
  | queued => simp [hpc] at hfree

theorem inv_writes {d : TxDev} {h p : Nat} (hi : d.Inv h) (hwrites : d.writesPage = some p) :
    ∀ f ∈ d.chip.queue, p ∉ f.pages := by
  intro f hf hp
  obtain ⟨j, hj, rfl⟩ := hi.laid.mem_pages hf hp
  have hgood := hi.good
  unfold TxDev.writesPage at hwrites
  cases hpc : d.pc with
  | idle => simp [hpc] at hwrites
  | looked => simp [hpc] at hwrites
  | queued => simp [hpc] at hwrites
  | writing skb curPage free i =>
      rw [hpc] at hgood hwrites
      obtain ⟨hlegal, -, hneed, hfree, hrsar⟩ := hgood
      by_cases hlt : i < skb.len
      · simp only [hlt, if_true, Option.some.injEq] at hwrites
        rw [hrsar, txLong_page] at hwrites
        rw [needPages_eq hlegal.2] at hneed
        exact txPage_ne (by omega) (by omega) hwrites
      · simp [hlt] at hwrites

theorem TxDev.Inv.safe {d : TxDev} {h : Nat} (hi : d.Inv h) : d.Safe where
  curr := by
    obtain ⟨k, hp⟩ := hi.good.points
    rw [hp.start, hp.stop, hp.curr, txPage_eq]
    omega
  free := fun _ hfree => inv_free hi hfree
  writes := fun _ hwrites => inv_writes hi hwrites

end VxWorks.Drv
