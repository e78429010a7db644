import Mathlib.Data.List.Basic
import VxWorks.Lib.Inevitable
import VxWorks.Lib.Run
import VxWorks.Drv.Ax88796

/-!
# When the receive loops end (ax88796end.c)

The chip is quiet: no frame comes in while the driver takes out what is there. Then
nothing moves but `BNRY` and `rx_curr_page`, and where they move to is written in the
headers of the ring, so whether the loops end is a matter of the headers alone.

A call of `axend_packet_receive` looks at two of them at most. A header of a wrong length
sends it to the page `CURPAG`, and a wrong length there sends it to that page again,
which is the loop that does not end. Otherwise the call ends on a header that resets the
chip or names the page where the next call begins. The loop of `ax88796HandleRcvInt`
follows these pages. It ends at the page `CURPAG` or by a reset, and where the pages lead
to neither it goes round for good, as it does when `rx_curr_page` has `CURPAG` already
and no page is released at all.

Nothing is assumed of the headers. Whatever the ring holds may have been put there by an
overrun, at any time.
-/

namespace VxWorks.Drv

open VxWorks.Lib

/-! ## Where the headers lead -/

/-- `pkt_len`, which is unsigned. -/
def DmPktHdr.pktLen (h : DmPktHdr) : Nat := (h.count + 2 ^ 32 - 4) % 2 ^ 32

/-- The header makes the loop `continue`. -/
def DmPktHdr.BadLength (h : DmPktHdr) : Prop :=
  ¬ damaged h.status ∧ (h.pktLen < 60 ∨ 1518 < h.pktLen)

instance DmPktHdr.decidableBadLength (h : DmPktHdr) : Decidable h.BadLength :=
  inferInstanceAs (Decidable (_ ∧ _))

/-- The header on which a call ends that begins at page `p`, if it ends. -/
def Chip.found (c : Chip) (p : Nat) : DmPktHdr :=
  if (c.rxFrame p).BadLength then c.rxFrame c.curpag else c.rxFrame p

/-- Where the driver reads when it has released the pages before `next`. -/
def nextPage (next : Nat) : Nat := if next = nesmStopPg then nesmRxStartPg else next

/-- From page `p` on, call by call, the driver comes to the page `CURPAG` or to a reset. -/
inductive Chip.LeadsOut (c : Chip) : Nat → Prop
  | empty : LeadsOut c c.curpag
  | reset {p : Nat} (h : damaged (c.found p).status) : LeadsOut c p
  | frame {p : Nat} (hlen : ¬ (c.found p).BadLength)
      (hnext : LeadsOut c (nextPage (c.found p).next)) : LeadsOut c p

/-- The same of a call that has begun: it ends, and leads out. -/
def Chip.ReadsOut (c : Chip) (p : Nat) : Prop :=
  damaged (c.found p).status ∨ ¬ (c.found p).BadLength ∧ c.LeadsOut (nextPage (c.found p).next)

theorem Chip.ReadsOut.leadsOut {c : Chip} {p : Nat} (h : c.ReadsOut p) : c.LeadsOut p := by
  rcases h with hdamaged | ⟨hlen, hnext⟩
  · exact .reset hdamaged
  · exact .frame hlen hnext

theorem Chip.LeadsOut.not_of_badLength {c : Chip} {p : Nat} (h : c.LeadsOut p)
    (hne : p ≠ c.curpag) (hbad : (c.found p).BadLength) : False := by
  cases h with
  | empty => exact hne rfl
  | reset hdamaged => exact hbad.1 hdamaged
  | frame hlen => exact hlen hbad

@[simp] theorem Chip.found_curpag (c : Chip) : c.found c.curpag = c.rxFrame c.curpag := by
  rw [Chip.found, ite_self]

theorem Chip.found_of_not_badLength {c : Chip} {p : Nat} (h : ¬ (c.rxFrame p).BadLength) :
    c.found p = c.rxFrame p := if_neg h

theorem Chip.found_of_badLength {c : Chip} {p : Nat} (h : (c.rxFrame p).BadLength) :
    c.found p = c.rxFrame c.curpag := if_pos h

theorem Chip.found_badLength_iff {c : Chip} {p : Nat} :
    (c.found p).BadLength ↔ (c.rxFrame p).BadLength ∧ (c.rxFrame c.curpag).BadLength := by
  by_cases h : (c.rxFrame p).BadLength
  · rw [Chip.found_of_badLength h]
    exact (and_iff_right h).symm
  · rw [Chip.found_of_not_badLength h]
    exact ⟨fun hp => absurd hp h, fun hp => absurd hp.1 h⟩

theorem not_badLength_of_damaged {h : DmPktHdr} (hd : damaged h.status) : ¬ h.BadLength :=
  fun hbad => hbad.1 hd

/-! ## The chip while nothing comes in -/

/-- Two states of the chip between which no frame has come in. -/
structure SameRing (c c' : Chip) : Prop where
  mem : c'.mem = c.mem
  curpag : c'.curpag = c.curpag

theorem SameRing.refl (c : Chip) : SameRing c c := ⟨rfl, rfl⟩

theorem SameRing.rxFrame {c c' : Chip} (h : SameRing c c') (p : Nat) :
    c'.rxFrame p = c.rxFrame p := by
  rw [Chip.rxFrame, Chip.rxFrame, h.mem]

theorem SameRing.release {c c' : Chip} (h : SameRing c c') (bits : UInt8) (next : Nat) :
    SameRing c ((c'.writeIsr bits).releaseTo next) := ⟨h.mem, h.curpag⟩

@[simp] theorem Chip.readPoint_releaseTo (c : Chip) {next : Nat} (h : next < 256) :
    (c.releaseTo next).readPoint = nextPage next := by
  have hbnry : (c.releaseTo next).bnry = if next = 96 then 127 else (next + 255) % 256 := rfl
  have hcase : (c.releaseTo next).readPoint =
      if ((c.releaseTo next).bnry + 1) % 256 = 128 then 96
      else ((c.releaseTo next).bnry + 1) % 256 := rfl
  have hnext : nextPage next = if next = 128 then 96 else next := rfl
  rw [hcase, hbnry, hnext]
  split_ifs <;> omega

theorem Chip.next_lt (c : Chip) (p : Nat) : (c.rxFrame p).next < 256 := UInt8.toNat_lt _

/-- What one turn of the inner loop does. -/
theorem readFrame_cases (d : Dev) (overrun : Bool) (writePoint : Nat) (pData : Nat → UInt8) :
    writePoint = d.rxCurrPage ∧
        d.readFrame overrun writePoint pData = d.passUp overrun pData 0 ∨
      writePoint ≠ d.rxCurrPage ∧
        (damaged (d.chip.rxFrame d.chip.readPoint).status ∧
            d.readFrame overrun writePoint pData = d.axendReset.handled overrun ∨
          (d.chip.rxFrame d.chip.readPoint).BadLength ∧
            d.readFrame overrun writePoint pData =
              { d with chip := (d.chip.writeIsr enisrRx).releaseTo writePoint } ∨
          ¬ (d.chip.rxFrame d.chip.readPoint).BadLength ∧
            ¬ damaged (d.chip.rxFrame d.chip.readPoint).status ∧
            ∃ passedUp, d.readFrame overrun writePoint pData =
              { d with
                chip := (d.chip.writeIsr enisrRx).releaseTo
                  (d.chip.rxFrame d.chip.readPoint).next
                rxCurrPage := (d.chip.rxFrame d.chip.readPoint).next
                pc := .handling overrun
                passedUp := passedUp }) := by
  by_cases hrx : writePoint = d.rxCurrPage
  · exact .inl ⟨hrx, by rw [Dev.readFrame, if_pos hrx]⟩
  refine .inr ⟨hrx, ?_⟩
  have hread : (d.chip.writeIsr enisrRx).rxFrame d.chip.readPoint =
      d.chip.rxFrame d.chip.readPoint := rfl
  rw [Dev.readFrame, if_neg hrx]
  simp only [hread]
  by_cases hdamaged : damaged (d.chip.rxFrame d.chip.readPoint).status
  · exact .inl ⟨hdamaged, by rw [if_pos hdamaged]⟩
  refine .inr ?_
  rw [if_neg hdamaged]
  by_cases hlen : (d.chip.rxFrame d.chip.readPoint).pktLen < 60 ∨
      1518 < (d.chip.rxFrame d.chip.readPoint).pktLen
  · exact .inl ⟨⟨hdamaged, hlen⟩, if_pos hlen⟩
  refine .inr ⟨fun hbad => hlen hbad.2, hdamaged, ?_⟩
  rw [DmPktHdr.pktLen] at hlen
  rw [if_neg hlen]
  split_ifs
  · exact ⟨_, rfl⟩
  · exact ⟨_, rfl⟩

/-! ## `axend_packet_receive` -/

/-- Within `ax88796Recv`. -/
def Pc.InReceive : Pc → Prop
  | .idle => False
  | .handling _ => False
  | .receiving _ => True
  | .reading _ _ _ => True

/-- `axend_packet_receive` returns, whether or not there is memory for a packet. -/
def Dev.ReceiveReturns (d : Dev) : Prop :=
  Inevitable Dev.drive (fun t => ¬ t.pc.InReceive) d

@[simp] theorem handled_not_inReceive (d : Dev) (overrun : Bool) :
    ¬ (d.handled overrun).pc.InReceive := by
  cases overrun
  · exact id
  · exact id

section

variable {c : Chip} {d : Dev} {overrun : Bool} {pData : Nat → UInt8}

theorem drive_reading {writePoint : Nat} (h : d.pc = .reading overrun writePoint pData)
    (cluster : Option (Nat → UInt8)) :
    d.drive cluster = d.readFrame overrun writePoint pData := by
  rw [Dev.drive, h]

theorem drive_receiving_none (h : d.pc = .receiving overrun) :
    d.drive none = d.handled overrun := by
  rw [Dev.drive, h]

theorem drive_receiving_empty (h : d.pc = .receiving overrun)
    (hempty : d.chip.readPoint = d.chip.curpag) (cluster : Option (Nat → UInt8)) :
    d.drive cluster = d.handled overrun := by
  rw [Dev.drive, h]
  cases cluster with
  | none => rfl
  | some pData => exact if_pos hempty

theorem drive_receiving_some (h : d.pc = .receiving overrun)
    (hne : d.chip.readPoint ≠ d.chip.curpag) (pData : Nat → UInt8) :
    d.drive (some pData) = { d with pc := .reading overrun d.chip.curpag pData } := by
  rw [Dev.drive, h]
  exact if_neg hne

theorem drive_handling (h : d.pc = .handling overrun) (hne : d.chip.readPoint ≠ d.chip.curpag)
    (cluster : Option (Nat → UInt8)) :
    d.drive cluster = { d with pc := .receiving overrun } := by
  have hget : d.chip.packetGet = true := by simpa [Chip.packetGet] using hne
  rw [Dev.drive, h]
  exact if_pos hget

theorem drive_handling_empty (h : d.pc = .handling overrun)
    (hempty : d.chip.readPoint = d.chip.curpag) (cluster : Option (Nat → UInt8)) :
    d.drive cluster = d.handled overrun := by
  have hget : ¬ d.chip.packetGet = true := by simp [Chip.packetGet, hempty]
  rw [Dev.drive, h]
  exact if_neg hget

/-- A turn that does not find a wrong length is the last. -/
theorem receiveReturns_of_frame {writePoint : Nat} (h : d.pc = .reading overrun writePoint pData)
    (hlen : ¬ (d.chip.rxFrame d.chip.readPoint).BadLength) : d.ReceiveReturns := by
  refine Inevitable.back fun cluster => Inevitable.here ?_
  rw [drive_reading h]
  rcases readFrame_cases d overrun writePoint pData with
    ⟨-, hread⟩ | ⟨-, ⟨-, hread⟩ | ⟨hbad, -⟩ | ⟨-, hok, passedUp, hread⟩⟩
  · rw [hread]
    exact id
  · rw [hread]
    exact handled_not_inReceive _ _
  · exact absurd hbad hlen
  · rw [hread]
    exact id

theorem receiveReturns_of_reading (hcur : d.chip.curpag < nesmStopPg)
    (h : d.pc = .reading overrun d.chip.curpag pData)
    (hends : d.rxCurrPage = d.chip.curpag ∨ ¬ (d.chip.found d.chip.readPoint).BadLength) :
    d.ReceiveReturns := by
  by_cases hlen : (d.chip.rxFrame d.chip.readPoint).BadLength
  · refine Inevitable.back ?_
    intro cluster
    rw [drive_reading h]
    rcases readFrame_cases d overrun d.chip.curpag pData with
      ⟨-, hread⟩ | ⟨hrx, ⟨hdamaged, -⟩ | ⟨-, hread⟩ | ⟨hnot, -⟩⟩
    · rw [hread]
      exact Inevitable.here id
    · exact absurd hlen (not_badLength_of_damaged hdamaged)
    · rw [hread]
      have hfound := hends.resolve_left fun heq => hrx heq.symm
      rw [Chip.found_of_badLength hlen] at hfound
      refine receiveReturns_of_frame (by exact h) ?_
      rw [Chip.readPoint_releaseTo _ (Nat.lt_trans hcur (by decide)), nextPage,
        if_neg (Nat.ne_of_lt hcur)]
      exact hfound
    · exact absurd hlen hnot
  · exact receiveReturns_of_frame h hlen

/-- On its way to the loop that does not end, or in it. -/
structure Looping (c : Chip) (d : Dev) : Prop where
  ring : SameRing c d.chip
  rxCurrPage : d.rxCurrPage ≠ c.curpag
  badLength : (c.found d.chip.readPoint).BadLength
  pc : (∃ overrun, d.pc = .receiving overrun ∧ d.chip.readPoint ≠ c.curpag) ∨
    ∃ overrun pData, d.pc = .reading overrun c.curpag pData

theorem Looping.inReceive (h : Looping c d) : d.pc.InReceive := by
  rcases h.pc with ⟨overrun, hpc, -⟩ | ⟨overrun, pData, hpc⟩
  · rw [hpc]
    trivial
  · rw [hpc]
    trivial

theorem Looping.drive (hcur : c.curpag < nesmStopPg) (h : Looping c d) :
    Looping c (d.drive (some fun _ => 0)) := by
  rcases h.pc with ⟨overrun, hpc, hne⟩ | ⟨overrun, pData, hpc⟩
  · rw [drive_receiving_some hpc (by rwa [h.ring.curpag])]
    refine ⟨h.ring, h.rxCurrPage, h.badLength, .inr ⟨overrun, fun _ => 0, ?_⟩⟩
    rw [← h.ring.curpag]
  · rw [drive_reading hpc]
    have hbad := Chip.found_badLength_iff.mp h.badLength
    rw [← h.ring.rxFrame] at hbad
    rcases readFrame_cases d overrun c.curpag pData with
      ⟨hrx, -⟩ | ⟨-, ⟨hdamaged, -⟩ | ⟨-, hread⟩ | ⟨hnot, -⟩⟩
    · exact absurd hrx.symm h.rxCurrPage
    · exact absurd hbad.1 (not_badLength_of_damaged hdamaged)
    · rw [hread]
      refine ⟨h.ring.release _ _, h.rxCurrPage, ?_, .inr ⟨overrun, pData, hpc⟩⟩
      rw [Chip.readPoint_releaseTo _ (Nat.lt_trans hcur (by decide)), nextPage,
        if_neg (Nat.ne_of_lt hcur), Chip.found_curpag]
      exact hbad.2
    · exact absurd hbad.1 hnot

/-- A call returns unless both pages it may look at have a wrong length. -/
theorem receiveReturns_iff (hcur : d.chip.curpag < nesmStopPg) (hpc : d.pc = .receiving overrun) :
    d.ReceiveReturns ↔ d.chip.readPoint = d.chip.curpag ∨ d.rxCurrPage = d.chip.curpag ∨
      ¬ (d.chip.found d.chip.readPoint).BadLength := by
  constructor
  · intro h
    by_contra hnot
    rw [not_or, not_or, not_not] at hnot
    obtain ⟨hne, hrx, hbad⟩ := hnot
    refine Inevitable.not_of_invariant (Looping d.chip) ?_ ?_ ?_ h
    · exact ⟨.refl _, hrx, hbad, .inl ⟨overrun, hpc, hne⟩⟩
    · exact fun t ht hout => hout ht.inReceive
    · exact fun t ht => ⟨_, ht.drive hcur⟩
  · intro h
    refine Inevitable.back ?_
    intro cluster
    by_cases hempty : d.chip.readPoint = d.chip.curpag
    · rw [drive_receiving_empty hpc hempty]
      exact Inevitable.here (handled_not_inReceive _ _)
    · cases cluster with
      | none =>
          rw [drive_receiving_none hpc]
          exact Inevitable.here (handled_not_inReceive _ _)
      | some pData =>
          rw [drive_receiving_some hpc hempty]
          exact receiveReturns_of_reading hcur rfl (h.resolve_left hempty)

end

/-! ## The loop of `ax88796HandleRcvInt` -/

/-- Within one call of `ax88796HandleRcvInt`; the run over the ring that follows an
overrun is another. -/
def Pc.InLoop (overrun : Bool) : Pc → Prop
  | .idle => False
  | .handling ov => ov = overrun
  | .receiving ov => ov = overrun
  | .reading ov _ _ => ov = overrun

def Dev.LoopReturns (d : Dev) (overrun : Bool) : Prop :=
  Inevitable Dev.drive (fun t => ¬ t.pc.InLoop overrun) d

theorem handled_not_inLoop (d : Dev) (overrun : Bool) :
    ¬ (d.handled overrun).pc.InLoop overrun := by
  cases overrun
  · exact id
  · exact Bool.false_ne_true

section

variable {c : Chip} {d : Dev} {overrun : Bool} {pData : Nat → UInt8}

/-- A turn with a header that resets the chip or names the next page. -/
theorem loopReturns_of_frame (ring : SameRing c d.chip) {writePoint : Nat}
    (h : d.pc = .reading overrun writePoint pData) (hrx : d.rxCurrPage ≠ writePoint)
    (hlen : ¬ (c.rxFrame d.chip.readPoint).BadLength)
    (hnext : ¬ damaged (c.rxFrame d.chip.readPoint).status →
      ∀ t : Dev, SameRing c t.chip → t.pc = .handling overrun →
        t.rxCurrPage = (c.rxFrame d.chip.readPoint).next →
        t.chip.readPoint = nextPage (c.rxFrame d.chip.readPoint).next → t.LoopReturns overrun) :
    d.LoopReturns overrun := by
  rw [← ring.rxFrame] at hlen hnext
  refine Inevitable.back ?_
  intro cluster
  rw [drive_reading h]
  rcases readFrame_cases d overrun writePoint pData with
    ⟨heq, -⟩ | ⟨-, ⟨-, hread⟩ | ⟨hbad, -⟩ | ⟨-, hok, passedUp, hread⟩⟩
  · exact absurd heq.symm hrx
  · rw [hread]
    exact Inevitable.here (handled_not_inLoop _ _)
  · exact absurd hbad hlen
  · rw [hread]
    exact hnext hok _ (ring.release _ _) rfl rfl
      (Chip.readPoint_releaseTo _ (Chip.next_lt _ _))

theorem readPoint_of_release (hcur : c.curpag < nesmStopPg) (chip : Chip) :
    (chip.releaseTo c.curpag).readPoint = c.curpag := by
  rw [Chip.readPoint_releaseTo _ (Nat.lt_trans hcur (by decide)), nextPage,
    if_neg (Nat.ne_of_lt hcur)]

theorem loopReturns_of_reading (hcur : c.curpag < nesmStopPg) (ring : SameRing c d.chip)
    (h : d.pc = .reading overrun c.curpag pData) (hrx : d.rxCurrPage ≠ c.curpag)
    (hlen : ¬ (c.found d.chip.readPoint).BadLength)
    (hnext : ¬ damaged (c.found d.chip.readPoint).status →
      ∀ t : Dev, SameRing c t.chip → t.pc = .handling overrun →
        t.rxCurrPage = (c.found d.chip.readPoint).next →
        t.chip.readPoint = nextPage (c.found d.chip.readPoint).next → t.LoopReturns overrun) :
    d.LoopReturns overrun := by
  by_cases hbad : (c.rxFrame d.chip.readPoint).BadLength
  · rw [Chip.found_of_badLength hbad] at hlen hnext
    refine Inevitable.back ?_
    intro cluster
    rw [drive_reading h]
    rw [← ring.rxFrame] at hbad
    rcases readFrame_cases d overrun c.curpag pData with
      ⟨heq, -⟩ | ⟨-, ⟨hdamaged, -⟩ | ⟨-, hread⟩ | ⟨hnot, -⟩⟩
    · exact absurd heq.symm hrx
    · exact absurd hbad (not_badLength_of_damaged hdamaged)
    · have hpoint := readPoint_of_release hcur (d.chip.writeIsr enisrRx)
      rw [hread]
      refine loopReturns_of_frame (c := c) (ring.release _ _) h hrx ?_ ?_
      · rwa [hpoint]
      · rwa [hpoint]
    · exact absurd hbad hnot
  · rw [Chip.found_of_not_badLength hbad] at hlen hnext
    exact loopReturns_of_frame ring h hrx hlen hnext

/-- The loop asks for a packet, then for a buffer, and then reads. -/
theorem loopReturns_of_handling (ring : SameRing c d.chip) (h : d.pc = .handling overrun)
    (hread : d.chip.readPoint ≠ c.curpag → ∀ pData,
      Dev.LoopReturns { d with pc := .reading overrun c.curpag pData } overrun) :
    d.LoopReturns overrun := by
  rw [← ring.curpag] at hread
  refine Inevitable.back ?_
  intro cluster
  by_cases hempty : d.chip.readPoint = d.chip.curpag
  · rw [drive_handling_empty h hempty]
    exact Inevitable.here (handled_not_inLoop _ _)
  rw [drive_handling h hempty]
  refine Inevitable.back ?_
  intro cluster
  cases cluster with
  | none =>
      rw [drive_receiving_none rfl]
      exact Inevitable.here (handled_not_inLoop _ _)
  | some pData =>
      have hsome := drive_receiving_some (d := { d with pc := .receiving overrun }) rfl hempty
      rw [hsome pData]
      exact hread hempty pData

theorem loopReturns_of_leadsOut (hcur : c.curpag < nesmStopPg) {p : Nat} (hp : c.LeadsOut p) :
    ∀ d : Dev, SameRing c d.chip → d.pc = .handling overrun → d.chip.readPoint = p →
      (p ≠ c.curpag → d.rxCurrPage ≠ c.curpag) → d.LoopReturns overrun := by
  induction hp with
  | empty =>
      intro d ring h hpoint _
      exact loopReturns_of_handling ring h fun hne => absurd hpoint hne
  | @reset p hdamaged =>
      intro d ring h hpoint hrx
      refine loopReturns_of_handling ring h ?_
      intro hne pData
      rw [← hpoint] at hdamaged
      exact loopReturns_of_reading hcur ring rfl (hrx (hpoint ▸ hne))
        (not_badLength_of_damaged hdamaged) fun hok => absurd hdamaged hok
  | @frame p hlen hnext ih =>
      intro d ring h hpoint hrx
      refine loopReturns_of_handling ring h ?_
      intro hne pData
      rw [← hpoint] at hlen ih
      refine loopReturns_of_reading hcur ring rfl (hrx (hpoint ▸ hne)) hlen ?_
      intro _ t hring ht hcurr hread
      refine ih t hring ht hread ?_
      intro hleft
      -- `rx_curr_page` is the page that is read next, or no page of the ring
      rw [hcurr]
      rw [nextPage] at hleft
      split_ifs at hleft with hstop
      · rw [hstop]
        exact Nat.ne_of_gt hcur
      · exact hleft

/-- In the loop, with no way out of it. -/
structure Circling (c : Chip) (overrun : Bool) (d : Dev) : Prop where
  ring : SameRing c d.chip
  pc : (d.pc = .handling overrun ∨ d.pc = .receiving overrun) ∧ d.chip.readPoint ≠ c.curpag ∧
      (d.rxCurrPage ≠ c.curpag → ¬ c.LeadsOut d.chip.readPoint) ∨
    ∃ pData, d.pc = .reading overrun c.curpag pData ∧
      (d.rxCurrPage = c.curpag → d.chip.readPoint ≠ c.curpag) ∧
      (d.rxCurrPage ≠ c.curpag → ¬ c.ReadsOut d.chip.readPoint)

theorem Circling.inLoop (h : Circling c overrun d) : d.pc.InLoop overrun := by
  rcases h.pc with ⟨hpc | hpc, -⟩ | ⟨pData, hpc, -⟩
  · rw [hpc]
    rfl
  · rw [hpc]
    rfl
  · rw [hpc]
    rfl

theorem Circling.readFrame (hcur : c.curpag < nesmStopPg) (ring : SameRing c d.chip)
    (h : d.pc = .reading overrun c.curpag pData)
    (hfull : d.rxCurrPage = c.curpag → d.chip.readPoint ≠ c.curpag)
    (hout : d.rxCurrPage ≠ c.curpag → ¬ c.ReadsOut d.chip.readPoint) :
    Circling c overrun (d.readFrame overrun c.curpag pData) := by
  rcases readFrame_cases d overrun c.curpag pData with
    ⟨hrx, hread⟩ | ⟨hrx, hrest⟩
  · rw [hread]
    exact ⟨ring, .inl ⟨.inl rfl, hfull hrx.symm, fun hne => absurd hrx.symm hne⟩⟩
  have hno := hout fun heq => hrx heq.symm
  rcases hrest with ⟨hdamaged, -⟩ | ⟨hbad, hread⟩ | ⟨hlen, hok, passedUp, hread⟩
  · refine absurd (.inl ?_) hno
    rwa [Chip.found_of_not_badLength, ← ring.rxFrame]
    rw [← ring.rxFrame]
    exact not_badLength_of_damaged hdamaged
  · have hpoint := readPoint_of_release hcur (d.chip.writeIsr enisrRx)
    rw [ring.rxFrame] at hbad
    rw [hread]
    refine ⟨ring.release _ _, .inr ⟨pData, h, fun heq => absurd heq.symm hrx, ?_⟩⟩
    intro _
    show ¬ c.ReadsOut ((d.chip.writeIsr enisrRx).releaseTo c.curpag).readPoint
    rw [hpoint, Chip.ReadsOut, Chip.found_curpag, ← Chip.found_of_badLength hbad]
    exact hno
  · rw [ring.rxFrame] at hlen hok hread
    have hnot : ¬ c.LeadsOut (nextPage (c.rxFrame d.chip.readPoint).next) := by
      intro hlead
      refine hno (.inr ?_)
      rw [Chip.found_of_not_badLength hlen]
      exact ⟨hlen, hlead⟩
    have hpoint := Chip.readPoint_releaseTo (d.chip.writeIsr enisrRx)
      (Chip.next_lt c d.chip.readPoint)
    rw [hread]
    refine ⟨ring.release _ _, .inl ⟨.inl rfl, ?_, ?_⟩⟩
    · show ((d.chip.writeIsr enisrRx).releaseTo _).readPoint ≠ c.curpag
      rw [hpoint]
      intro heq
      rw [heq] at hnot
      exact hnot .empty
    · intro _
      show ¬ c.LeadsOut ((d.chip.writeIsr enisrRx).releaseTo _).readPoint
      rwa [hpoint]

theorem Circling.drive (hcur : c.curpag < nesmStopPg) (h : Circling c overrun d) :
    Circling c overrun (d.drive (some fun _ => 0)) := by
  have ring := h.ring
  rcases h.pc with ⟨hpc | hpc, hne, hout⟩ | ⟨pData, hpc, hfull, hout⟩
  · rw [drive_handling hpc (by rwa [ring.curpag])]
    exact ⟨ring, .inl ⟨.inr rfl, hne, hout⟩⟩
  · rw [drive_receiving_some hpc (by rwa [ring.curpag])]
    refine ⟨ring, .inr ⟨fun _ => 0, by rw [← ring.curpag], fun _ => hne, fun hrx hreads => ?_⟩⟩
    exact hout hrx hreads.leadsOut
  · rw [drive_reading hpc]
    exact Circling.readFrame hcur ring hpc hfull hout

/-- The loop ends where the pages lead out, unless it has read them all before it begins. -/
theorem loopReturns_iff (hcur : d.chip.curpag < nesmStopPg) (hpc : d.pc = .handling overrun) :
    d.LoopReturns overrun ↔ d.chip.readPoint = d.chip.curpag ∨
      d.rxCurrPage ≠ d.chip.curpag ∧ d.chip.LeadsOut d.chip.readPoint := by
  constructor
  · intro h
    by_contra hnot
    rw [not_or, not_and] at hnot
    refine Inevitable.not_of_invariant (Circling d.chip overrun) ?_ ?_ ?_ h
    · exact ⟨.refl _, .inl ⟨.inl hpc, hnot⟩⟩
    · exact fun t ht hout => hout ht.inLoop
    · exact fun t ht => ⟨_, ht.drive hcur⟩
  · rintro (hempty | ⟨hrx, hlead⟩)
    · exact loopReturns_of_handling (.refl _) hpc fun hne => absurd hempty hne
    · exact loopReturns_of_leadsOut hcur hlead d (.refl _) hpc rfl fun _ => hrx

end

/-! ## Runs -/

/-- What may happen to the ring. -/
inductive RingEvent where
  | call (e : Event)
  /-- the ring is overrun, and holds whatever it holds -/
  | overrun (mem : Nat → UInt8)

def Dev.ringStep (d : Dev) : RingEvent → Dev
  | .call e => d.step e
  | .overrun mem => { d with chip := { d.chip with mem := mem } }

theorem pageAfter_lt (p n : Nat) : pageAfter p n < nesmStopPg := by
  have hlt : (p - nesmRxStartPg + n) % 32 < 32 := Nat.mod_lt _ (by decide)
  show 96 + (p - nesmRxStartPg + n) % 32 < 128
  omega

theorem curpag_axendReset (d : Dev) : d.axendReset.chip.curpag < nesmStopPg :=
  (by decide : nesmRxStartPg + 1 < nesmStopPg)

theorem curpag_handled {d : Dev} (h : d.chip.curpag < nesmStopPg) (overrun : Bool) :
    (d.handled overrun).chip.curpag < nesmStopPg := by
  cases overrun
  · exact h
  · exact h

theorem curpag_readFrame {d : Dev} (h : d.chip.curpag < nesmStopPg) (overrun : Bool)
    (writePoint : Nat) (pData : Nat → UInt8) :
    (d.readFrame overrun writePoint pData).chip.curpag < nesmStopPg := by
  rcases readFrame_cases d overrun writePoint pData with
    ⟨-, hread⟩ | ⟨-, ⟨-, hread⟩ | ⟨-, hread⟩ | ⟨-, -, passedUp, hread⟩⟩
  · rw [hread]
    exact h
  · rw [hread]
    exact curpag_handled (curpag_axendReset d) overrun
  · rw [hread]
    exact h
  · rw [hread]
    exact h

theorem curpag_drive {d : Dev} (h : d.chip.curpag < nesmStopPg)
    (cluster : Option (Nat → UInt8)) : (d.drive cluster).chip.curpag < nesmStopPg := by
  cases hpc : d.pc with
  | idle => rwa [Dev.drive, hpc]
  | handling overrun =>
      by_cases hempty : d.chip.readPoint = d.chip.curpag
      · rw [drive_handling_empty hpc hempty]
        exact curpag_handled h overrun
      · rwa [drive_handling hpc hempty]
  | receiving overrun =>
      by_cases hempty : d.chip.readPoint = d.chip.curpag
      · rw [drive_receiving_empty hpc hempty]
        exact curpag_handled h overrun
      · cases cluster with
        | none =>
            rw [drive_receiving_none hpc]
            exact curpag_handled h overrun
        | some pData => rwa [drive_receiving_some hpc hempty]
  | reading overrun writePoint pData =>
      rw [drive_reading hpc]
      exact curpag_readFrame h overrun writePoint pData

theorem curpag_int {d : Dev} (h : d.chip.curpag < nesmStopPg) :
    d.ax88796Int.chip.curpag < nesmStopPg := by
  rw [Dev.ax88796Int]
  cases d.pc with
  | idle =>
      dsimp only
      split_ifs
      · exact h
      · exact h
      · exact h
  | handling overrun => exact h
  | receiving overrun => exact h
  | reading overrun writePoint pData => exact h

/-- `CURPAG` stays on the pages of the ring, whatever the headers say. -/
theorem curpag_ringStep {d : Dev} (h : d.chip.curpag < nesmStopPg) (e : RingEvent) :
    (d.ringStep e).chip.curpag < nesmStopPg := by
  have hfilter : ∀ enetreset : Bool,
      (if enetreset then d.ax88796AddrFilterSet else d).chip.curpag < nesmStopPg := by
    intro enetreset
    cases enetreset
    · exact h
    · exact (by decide : nesmStartPg + txPages + 1 < nesmStopPg)
  cases e with
  | overrun mem => exact h
  | call e =>
      cases e with
      | arrive f =>
          show (d.chip.receive f).curpag < nesmStopPg
          by_cases hfit : f.pages ≤ d.chip.freePages
          · rw [Chip.receive, if_pos hfit]
            exact pageAfter_lt _ _
          · rwa [Chip.receive, if_neg hfit]
      | int => exact curpag_int h
      | drive cluster => exact curpag_drive h cluster
      | mCastAdd enetreset => exact hfilter enetreset
      | mCastDel enetreset => exact hfilter enetreset
      | reset => exact curpag_axendReset d

theorem curpag_run (mem : Nat → UInt8) (es : List RingEvent) :
    (run Dev.ringStep (Dev.loaded mem) es).chip.curpag < nesmStopPg :=
  always_of_guarded (G := fun _ _ => True) (fun d : Dev => d.chip.curpag < nesmStopPg)
    (curpag_axendReset _) (fun _ e h _ => curpag_ringStep h e) (fun _ _ _ => trivial) es
    (List.prefix_refl es)

/-- One of the two pages a call may look at has a header that ends it, or it has nothing
to look at. -/
def Dev.ReceiveEnds (d : Dev) : Prop :=
  d.chip.readPoint = d.chip.curpag ∨ d.rxCurrPage = d.chip.curpag ∨
    ¬ (d.chip.rxFrame d.chip.readPoint).BadLength ∨ ¬ (d.chip.rxFrame d.chip.curpag).BadLength

/-- There is nothing to read, or the pages lead out and the first call looks at them. -/
def Dev.LoopEnds (d : Dev) : Prop :=
  d.chip.readPoint = d.chip.curpag ∨
    d.rxCurrPage ≠ d.chip.curpag ∧ d.chip.LeadsOut d.chip.readPoint

/-- In every state that the chip and the driver come to, and whatever is in the ring. -/
theorem rx_returns_iff (mem : Nat → UInt8) (es : List RingEvent) (overrun : Bool) :
    (Dev.ReceiveReturns
          { run Dev.ringStep (Dev.loaded mem) es with pc := .receiving overrun } ↔
        (run Dev.ringStep (Dev.loaded mem) es).ReceiveEnds) ∧
      (Dev.LoopReturns
          { run Dev.ringStep (Dev.loaded mem) es with pc := .handling overrun } overrun ↔
        (run Dev.ringStep (Dev.loaded mem) es).LoopEnds) := by
  have hcur := curpag_run mem es
  generalize run Dev.ringStep (Dev.loaded mem) es = d at hcur
  constructor
  · rw [receiveReturns_iff (d := { d with pc := .receiving overrun }) hcur rfl,
      Chip.found_badLength_iff, not_and_or]
    rfl
  · exact loopReturns_iff (d := { d with pc := .handling overrun }) hcur rfl

/-- A frame one byte short, the first since the chip was reset. -/
def runtRun : List RingEvent :=
  [.call (.arrive { status := enrsrRxok, data := List.replicate 59 0 })]

/-- The driver looks for a better header at the page `CURPAG`, where there is none. -/
theorem rx_returns_runt :
    ¬ Dev.ReceiveReturns
        { run Dev.ringStep (Dev.loaded fun _ => 0) runtRun with pc := .receiving false } ∧
      ¬ Dev.LoopReturns
        { run Dev.ringStep (Dev.loaded fun _ => 0) runtRun with pc := .handling false } false := by
  have hcur := curpag_run (fun _ => 0) runtRun
  have hne : (run Dev.ringStep (Dev.loaded fun _ => 0) runtRun).chip.readPoint ≠
      (run Dev.ringStep (Dev.loaded fun _ => 0) runtRun).chip.curpag := by decide +kernel
  have hrx : (run Dev.ringStep (Dev.loaded fun _ => 0) runtRun).rxCurrPage ≠
      (run Dev.ringStep (Dev.loaded fun _ => 0) runtRun).chip.curpag := by decide +kernel
  have hbad : ((run Dev.ringStep (Dev.loaded fun _ => 0) runtRun).chip.found
      (run Dev.ringStep (Dev.loaded fun _ => 0) runtRun).chip.readPoint).BadLength := by
    decide +kernel
  generalize run Dev.ringStep (Dev.loaded fun _ => 0) runtRun = d at hcur hne hrx hbad
  constructor
  · rw [receiveReturns_iff (d := { d with pc := .receiving false }) hcur rfl]
    rintro (hempty | hfull | hlen)
    · exact hne hempty
    · exact hrx hfull
    · exact hlen hbad
  · rw [loopReturns_iff (d := { d with pc := .handling false }) hcur rfl]
    rintro (hempty | ⟨-, hlead⟩)
    · exact hne hempty
    · exact hlead.not_of_badLength hne hbad

end VxWorks.Drv
