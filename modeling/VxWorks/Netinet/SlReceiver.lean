import VxWorks.Lib.Run
import VxWorks.Netinet.SlCompress

/-!
# The receiver after an error

A receiver that lost a packet may hold a header that is no longer the sender's.
It has one bit to remember that by, `SLF_TOSS`: set by every error, cleared by a
packet that names its connection, and while it is set a packet that does not
name one is thrown away.

What the receiver did is recorded here packet by packet, with the slot each
packet ended up at and the header length of that slot, and the record is what
the theorem is about. The bit does its work. That the slot a packet names has
ever been filled is another matter: `sl_uncompress_tcp` checks that the id is in
range, and not that anything was received under it, nor that what was received
had a header.
-/

namespace VxWorks.Netinet

open VxWorks.Lib

/-- A packet and what became of it. -/
structure Receipt where
  type : PktType
  pkt : List UInt8
  /-- `sl_uncompress_tcp` returned a length, not 0. -/
  accepted : Bool
  /-- `last_recv` afterwards. -/
  slot : Nat
  /-- `cs_hlen` of that slot. -/
  hlen : Nat

/-- The receiver and its record, newest first. -/
structure Receiver where
  comp : SlCompress
  log : List Receipt

def Receiver.init : Receiver := ⟨slCompressInit, []⟩

def receive (s : Receiver) (e : PktType × List UInt8) : Receiver :=
  let r := slUncompressTcp e.1 e.2 s.comp
  let slot := r.2.lastRecv.toNat
  { comp := r.2
    log :=
      { type := e.1, pkt := e.2, accepted := r.1.any fun out => !out.isEmpty, slot := slot,
        hlen := (r.2.rstate slot).csHlen.toNat } :: s.log }

/-- The packet names its connection, by an id that is in range. -/
def namesConn (type : PktType) (pkt : List UInt8) : Bool :=
  match type with
  | .uncompressedTcp => decide ((Buf.of pkt 9).toNat < maxStates)
  | .compressedTcp => Buf.of pkt 0 &&& newC != 0 && decide ((Buf.of pkt 1).toNat < maxStates)
  | .ip | .error => false

/-- There was no error since a packet named its connection. -/
@[simp] def inStep : List Receipt → Bool
  | [] => false
  | r :: l => r.accepted && (namesConn r.type r.pkt || inStep l)

/-- An uncompressed packet filled the slot. -/
def Filled (l : List Receipt) (i : Nat) : Prop :=
  ∃ r ∈ l, r.accepted = true ∧ r.type = .uncompressedTcp ∧ r.slot = i

/-- Every compressed packet that was accepted named its connection or came when
there had been no error since one that did, and was expanded from a slot that
holds a TCP/IP header received for it. -/
@[simp] def Safe : List Receipt → Prop
  | [] => True
  | r :: l => Safe l ∧ (r.accepted = true → r.type = .compressedTcp →
      (namesConn r.type r.pkt = true ∨ inStep l = true) ∧ Filled l r.slot ∧ 40 ≤ r.hlen)

/-- Packets a well-behaved line delivers: a compressed one names a slot that was
filled, an uncompressed one has a header. -/
def wellFormed (s : Receiver) (e : PktType × List UInt8) : Prop :=
  namesConn e.1 e.2 = true →
    (e.1 = .compressedTcp → Filled s.log (Buf.of e.2 1).toNat) ∧
    (e.1 = .uncompressedTcp → 40 ≤ hdrLen (.of e.2))

/-- What the bit and the slots say about the record. -/
structure Receiving (s : Receiver) : Prop where
  safe : Safe s.log
  step : s.comp.toss = false → inStep s.log = true ∧ Filled s.log s.comp.lastRecv.toNat
  hlen : ∀ i, Filled s.log i → 40 ≤ (s.comp.rstate i).csHlen.toNat

section

variable {l : List Receipt} {r : Receipt} {i : Nat}

theorem Filled.cons (h : Filled l i) : Filled (r :: l) i := by
  obtain ⟨u, hu, h⟩ := h
  exact ⟨u, List.mem_cons_of_mem _ hu, h⟩

/-- Only an uncompressed packet that was accepted fills a slot. -/
theorem filled_cons (hr : r.accepted = true → r.type = .uncompressedTcp → False) :
    Filled (r :: l) i → Filled l i := by
  rintro ⟨u, hu, ha, ht, hi⟩
  rcases List.mem_cons.mp hu with rfl | hu
  · exact (hr ha ht).elim
  · exact ⟨u, hu, ha, ht, hi⟩

end

section

variable {pkt : List UInt8} {comp : SlCompress} {cp : Nat}

/-- Applying changes: the slot keeps its header length, and the packet is either
an error or at least as long as the header. -/
theorem slRecvChanges_keeps (pkt : List UInt8) (comp : SlCompress) (cp : Nat) :
    let r := slRecvChanges pkt comp cp
    r.2.lastRecv = comp.lastRecv ∧ (∀ i, (r.2.rstate i).csHlen = (comp.rstate i).csHlen) ∧
      ((r.1 = none ∧ r.2.toss = true) ∨
        ∃ out, r.1 = some out ∧ (comp.rstate comp.lastRecv.toNat).csHlen.toNat ≤ out.length ∧
          r.2.toss = comp.toss) := by
  have hslot : ∀ (hdr : Buf) (i : Nat),
      ((setSlot comp comp.lastRecv.toNat
        { comp.rstate comp.lastRecv.toNat with csHdr := hdr }).rstate i).csHlen =
        (comp.rstate i).csHlen := by
    intro hdr i
    rw [setSlot]
    dsimp only
    split
    · next h => rw [h]
    · rfl
  rw [slRecvChanges]
  dsimp only
  split
  · exact ⟨rfl, hslot _, .inl ⟨rfl, rfl⟩⟩
  · refine ⟨rfl, hslot _, .inr ⟨_, rfl, ?_, rfl⟩⟩
    rw [List.length_append, Buf.length_take]
    omega

theorem of_set_of_ne {v : UInt8} {k i : Nat} (h : i ≠ k) :
    Buf.of (pkt.set k v) i = Buf.of pkt i := by
  simp only [Buf.of, List.getD_eq_getElem?_getD]
  rw [List.getElem?_set_ne (Ne.symm h)]

/-- The octet the id is in is not one the header lengths are read from. -/
theorem hdrLen_set (v : UInt8) : hdrLen (.of (pkt.set 9 v)) = hdrLen (.of pkt) := by
  have h0 : Buf.of (pkt.set 9 v) 0 = Buf.of pkt 0 := of_set_of_ne (by decide)
  have hl : ipHl (.of (pkt.set 9 v)) = ipHl (.of pkt) := by rw [ipHl, ipHl, h0]
  have ht : tcpAt (.of (pkt.set 9 v)) = tcpAt (.of pkt) := by rw [tcpAt, tcpAt, hl]
  have ho : thOff (.of (pkt.set 9 v)) (tcpAt (.of pkt)) = thOff (.of pkt) (tcpAt (.of pkt)) := by
    unfold thOff
    rw [of_set_of_ne (by unfold tcpAt; omega)]
  rw [hdrLen, hdrLen, hl, ht, ho]

end

section

variable {s : Receiver} {comp : SlCompress} {r : Receipt}

/-- A packet that is not accepted leaves the bit set and the header lengths
alone. -/
theorem Receiving.refuse (h : Receiving s) (hr : r.accepted = false) (ht : comp.toss = true)
    (hl : ∀ i, (comp.rstate i).csHlen = (s.comp.rstate i).csHlen) :
    Receiving ⟨comp, r :: s.log⟩ := by
  refine ⟨⟨h.safe, ?_⟩, ?_, ?_⟩
  · intro ha
    rw [hr] at ha
    cases ha
  · intro hf
    rw [show comp.toss = false from hf] at ht
    cases ht
  · intro i hi
    have hi' := filled_cons (fun ha => by rw [hr] at ha; cases ha) hi
    show 40 ≤ (comp.rstate i).csHlen.toNat
    rw [hl]
    exact h.hlen i hi'

/-- A compressed packet that is accepted. -/
theorem Receiving.accept (h : Receiving s) (ha : r.accepted = true) (ht : r.type = .compressedTcp)
    (hn : namesConn r.type r.pkt = true ∨ inStep s.log = true)
    (hslot : r.slot = comp.lastRecv.toNat) (hlen : r.hlen = (comp.rstate r.slot).csHlen.toNat)
    (hf : Filled s.log comp.lastRecv.toNat)
    (hl : ∀ i, (comp.rstate i).csHlen = (s.comp.rstate i).csHlen) :
    Receiving ⟨comp, r :: s.log⟩ := by
  have h40 : 40 ≤ (comp.rstate comp.lastRecv.toNat).csHlen.toNat := by
    rw [hl]
    exact h.hlen _ hf
  refine ⟨⟨h.safe, fun _ _ => ⟨hn, ?_, ?_⟩⟩, fun _ => ⟨?_, hf.cons⟩, ?_⟩
  · rw [hslot]; exact hf
  · rw [hlen, hslot]; exact h40
  · rcases hn with hn | hn <;> simp [ha, hn]
  · intro i hi
    have hi' := filled_cons (fun _ hu => by rw [ht] at hu; cases hu) hi
    show 40 ≤ (comp.rstate i).csHlen.toNat
    rw [hl]
    exact h.hlen i hi'

theorem receiving_uncompressed (h : Receiving s) {pkt : List UInt8}
    (hw : wellFormed s (.uncompressedTcp, pkt)) :
    Receiving (receive s (.uncompressedTcp, pkt)) := by
  unfold receive slUncompressTcp slRecvUncompressed
  dsimp only
  split
  · exact h.refuse rfl rfl fun _ => rfl
  · next hid =>
      have hn : namesConn .uncompressedTcp pkt = true := by simpa [namesConn] using hid
      have h40 : 40 ≤ hdrLen (.of pkt) := (hw hn).2 rfl
      have hne : pkt ≠ [] := by
        rintro rfl
        revert h40
        decide
      have hhl : (UInt16.ofNat (hdrLen (.of (pkt.set 9 ipprotoTcp)))).toNat =
          hdrLen (.of pkt) := by
        rw [hdrLen_set]
        have := hdrLen_le (.of pkt)
        exact Nat.mod_eq_of_lt (by omega)
      refine ⟨⟨h.safe, fun _ ht => (by cases ht)⟩, fun _ => ⟨?_, ?_⟩, ?_⟩
      · simp [hn, hne]
      · exact ⟨_, List.mem_cons_self, by simp [hne], rfl, rfl⟩
      · intro i hi
        show 40 ≤ ((setSlot s.comp (Buf.of pkt 9).toNat _).rstate i).csHlen.toNat
        rw [setSlot]
        dsimp only
        split
        · show 40 ≤ (UInt16.ofNat _).toNat
          rw [hhl]
          exact h40
        · next hne' =>
            obtain ⟨u, hu, ha, ht, hs⟩ := hi
            rcases List.mem_cons.mp hu with rfl | hu
            · exact absurd hs.symm hne'
            · exact h.hlen i ⟨u, hu, ha, ht, hs⟩

/-- The changes of a packet, applied to a slot that was filled. -/
theorem receiving_changes (h : Receiving s) {pkt : List UInt8} {comp : SlCompress} {cp : Nat}
    (hn : namesConn .compressedTcp pkt = true ∨ inStep s.log = true)
    (hf : Filled s.log comp.lastRecv.toNat) (hr : comp.rstate = s.comp.rstate) :
    let r := slRecvChanges pkt comp cp
    Receiving
      { comp := r.2
        log :=
          { type := .compressedTcp, pkt := pkt,
            accepted := r.1.any fun out => !out.isEmpty, slot := r.2.lastRecv.toNat,
            hlen := (r.2.rstate r.2.lastRecv.toNat).csHlen.toNat } :: s.log } := by
  obtain ⟨hlast, hl, hcase⟩ := slRecvChanges_keeps pkt comp cp
  have hl' : ∀ i, ((slRecvChanges pkt comp cp).2.rstate i).csHlen =
      (s.comp.rstate i).csHlen := by
    intro i
    rw [hl, hr]
  dsimp only
  rcases hcase with ⟨hnone, ht⟩ | ⟨out, hout, hlen, -⟩
  · exact h.refuse (by rw [hnone]; rfl) ht hl'
  · refine h.accept ?_ rfl hn rfl rfl (by rw [hlast]; exact hf) hl'
    have h40 := h.hlen _ hf
    rw [← hr] at h40
    have hne : out ≠ [] := by
      rintro rfl
      rw [List.length_nil] at hlen
      omega
    rw [hout]
    simpa using hne

theorem receiving_compressed (h : Receiving s) {pkt : List UInt8}
    (hw : wellFormed s (.compressedTcp, pkt)) : Receiving (receive s (.compressedTcp, pkt)) := by
  unfold receive slUncompressTcp
  dsimp only
  split
  · next hc =>
      split
      · exact h.refuse rfl rfl fun _ => rfl
      · next hid =>
          have hn : namesConn .compressedTcp pkt = true := by
            simp only [namesConn, Bool.and_eq_true, bne_iff_ne, decide_eq_true_eq]
            exact ⟨hc, by omega⟩
          exact receiving_changes h (.inl hn) ((hw hn).1 rfl) rfl
  · split
    · next ht => exact h.refuse rfl ht fun _ => rfl
    · next ht =>
        have hstep := h.step (Bool.eq_false_iff.mpr ht)
        exact receiving_changes h (.inr hstep.1) hstep.2 rfl

theorem receiving_step (h : Receiving s) {e : PktType × List UInt8} (hw : wellFormed s e) :
    Receiving (receive s e) := by
  obtain ⟨type, pkt⟩ := e
  cases type with
  | ip => exact h.refuse rfl rfl fun _ => rfl
  | uncompressedTcp => exact receiving_uncompressed h hw
  | compressedTcp => exact receiving_compressed h hw
  | error => exact h.refuse rfl rfl fun _ => rfl

end

/-- After an error no packet is expanded until one names its connection, and
every packet is expanded from a header received for its slot, along every run in
which compressed packets name slots that were filled and uncompressed ones have a
header. -/
theorem receiver_safe (es : List (PktType × List UInt8))
    (h : Guarded receive wellFormed Receiver.init es) :
    Always receive (fun s => Safe s.log) Receiver.init es := by
  have h0 : Receiving Receiver.init := by
    refine ⟨trivial, fun ht => (nomatch ht), ?_⟩
    rintro i ⟨u, hu, -⟩
    cases hu
  have hall := always_of_guarded Receiving h0 (fun _ _ hs he => receiving_step hs he) h
  exact fun pre hpre => (hall pre hpre).safe

/-- An error, a packet with the two headers, and changes to it. -/
theorem receiver_safe_three :
    Always receive (fun s => Safe s.log) Receiver.init
      [(.error, []), (.uncompressedTcp, 0x45 :: List.replicate 31 0 ++ 0x50 :: List.replicate 7 0),
        (.compressedTcp, [0, 0, 0])] := by
  refine receiver_safe _ ?_
  refine guarded_cons ?_ (guarded_cons ?_ (guarded_cons ?_ guarded_nil))
  · intro hn
    cases hn
  · intro _
    exact ⟨fun ht => (nomatch ht), fun _ => by decide⟩
  · intro hn
    exact absurd hn (by decide)

/-- The first packet of all has changes to a slot nothing was received for, and
it is expanded, with a header of no octets. -/
theorem receiver_unsafe :
    ¬ Always receive (fun s => Safe s.log) Receiver.init
        [(.compressedTcp, [0x40, 0, 0, 0, 7])] := by
  intro h
  have hs := h _ (List.prefix_refl _)
  obtain ⟨-, ⟨u, hu, -⟩, -⟩ := hs.2 (by decide) rfl
  cases hu

end VxWorks.Netinet
