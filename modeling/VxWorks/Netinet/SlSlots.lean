import VxWorks.Lib.Run
import VxWorks.Netinet.SlCompress

/-!
# The sender's slots

The slots are linked in a ring, and `last_cs` marks the one that was used
longest ago. `Slots comp order` says that the ring visits the slots in the given
order, most recently used first; locating a connection moves one slot to the
front of that order and finds it after going round at most once. Besides the
links, a search changes nothing: the headers, the ids and the receiver's half
are as they were.
-/

namespace VxWorks.Netinet

open VxWorks.Lib

/-- The ring visits all slots in this order and ends at `last_cs`. -/
structure Slots (comp : SlCompress) (order : List Nat) : Prop where
  circuit : Circuit (ringNext comp) order
  perm : order.Perm (List.range maxStates)
  last : order.getLast? = some comp.lastCs

/-- Two states that differ at most in how the slots are linked. -/
structure SameSlots (comp comp' : SlCompress) : Prop where
  hdr : ∀ i, (comp'.tstate i).csHdr = (comp.tstate i).csHdr
  id : ∀ i, (comp'.tstate i).csId = (comp.tstate i).csId
  recv : comp'.rstate = comp.rstate
  lastRecv : comp'.lastRecv = comp.lastRecv
  lastXmit : comp'.lastXmit = comp.lastXmit
  toss : comp'.toss = comp.toss

theorem SameSlots.refl (comp : SlCompress) : SameSlots comp comp :=
  ⟨fun _ => rfl, fun _ => rfl, rfl, rfl, rfl, rfl⟩

theorem Slots.init : Slots slCompressInit (List.range maxStates).reverse where
  circuit := by
    have hr : (List.range maxStates).reverse =
        [15, 14, 13, 12, 11, 10, 9, 8, 7, 6, 5, 4, 3, 2, 1, 0] := by decide
    rw [hr, circuit_cons]
    exact ⟨by decide, by simp [Visits, ringNext, slCompressInit, maxStates]⟩
  perm := List.reverse_perm _
  last := rfl

section

variable {comp : SlCompress} {order : List Nat} {ip : Buf}

/-- The order with its two ends showing. -/
theorem Slots.split (h : Slots comp order) :
    ∃ c l, order = c :: (l ++ [comp.lastCs]) ∧ l.length = 14 := by
  have hlen : order.length = 16 := by rw [h.perm.length_eq]; rfl
  obtain ⟨m, hm⟩ := List.getLast?_eq_some_iff.mp h.last
  cases m with
  | nil => rw [hm] at hlen; cases hlen
  | cons c l =>
      refine ⟨c, l, by simpa using hm, ?_⟩
      rw [hm] at hlen
      simp at hlen
      omega

theorem Slots.head (h : Slots comp order) {c : Nat} {l : List Nat}
    (ho : order = c :: (l ++ [comp.lastCs])) : ringNext comp comp.lastCs = c := by
  subst ho
  have hv := (circuit_cons.mp h.circuit).2
  rw [← List.cons_append, visits_append] at hv
  exact hv.2.1

theorem Slots.lt (h : Slots comp order) {i : Nat} (hi : i ∈ order) : i < maxStates :=
  List.mem_range.mp (h.perm.mem_iff.mp hi)

/-- The oldest slot becomes the newest. -/
theorem Slots.rotate {a : List Nat} {p z : Nat} (h : Slots comp (a ++ [p, z])) :
    Slots { comp with lastCs := p } (z :: (a ++ [p])) := by
  have hsplit : a ++ [p, z] = (a ++ [p]) ++ [z] := by simp
  refine ⟨?_, ?_, List.getLast?_eq_some_iff.mpr ⟨z :: a, rfl⟩⟩
  · have hc := h.circuit
    rw [hsplit] at hc
    exact hc.rotate
  · refine List.Perm.trans ?_ h.perm
    rw [hsplit]
    exact (List.perm_append_singleton z (a ++ [p])).symm

/-- A slot from the middle becomes the newest. -/
theorem Slots.toFront {a b : List Nat} {p x z : Nat} (hz : comp.lastCs = z)
    (h : Slots comp (a ++ p :: x :: (b ++ [z]))) :
    Slots (toFront comp p x) (x :: (a ++ p :: (b ++ [z]))) := by
  subst hz
  have hlast : x :: (a ++ p :: (b ++ [comp.lastCs])) =
      (x :: (a ++ p :: b)) ++ [comp.lastCs] := by simp
  refine ⟨h.circuit.moveFront, ?_, List.getLast?_eq_some_iff.mpr ⟨_, hlast⟩⟩
  refine List.Perm.trans ?_ h.perm
  have hsplit : a ++ p :: x :: (b ++ [comp.lastCs]) =
      (a ++ [p]) ++ x :: (b ++ [comp.lastCs]) := by simp
  rw [hsplit]
  refine List.Perm.trans ?_ List.perm_middle.symm
  simp

theorem sameSlots_toFront (comp : SlCompress) (p x : Nat) :
    SameSlots comp (toFront comp p x) := ⟨fun _ => rfl, fun _ => rfl, rfl, rfl, rfl, rfl⟩

theorem erase_middle {a b : List Nat} {x : Nat} (h : (a ++ x :: b).Nodup) :
    (a ++ x :: b).erase x = a ++ b := by
  have hx : x ∉ a := by
    intro hx
    exact (List.nodup_append.mp h).2.2 x hx x List.mem_cons_self rfl
  rw [List.erase_append_right _ hx, List.erase_cons_head]

/-- Locating a connection comes to an end, with a slot, which becomes the most
recently used one, and with nothing else changed. A slot that was found is the
connection's; otherwise no slot is, and it is the oldest one that is taken. -/
theorem slLocate_spec (h : Slots comp order) (ip : Buf) :
    ∃ found cs comp', slLocate comp ip = some (found, cs, comp') ∧
      Slots comp' (cs :: order.erase cs) ∧ SameSlots comp comp' ∧ cs ∈ order ∧
      (found = true → sameConn (comp.tstate cs) ip = true) ∧
      (found = false →
        order.getLast? = some cs ∧ ∀ i ∈ order, sameConn (comp.tstate i) ip = false) := by
  obtain ⟨c, l, ho, hlen⟩ := h.split
  have hc := h.head ho
  unfold slLocate
  dsimp only
  rw [hc]
  split
  · next hs =>
      have herase : c :: order.erase c = order := by rw [ho, List.erase_cons_head]
      refine ⟨true, c, comp, rfl, ?_, .refl comp, by simp [ho], fun _ => hs, by simp⟩
      rw [herase]
      exact h
  · next hs =>
    have hcirc := h.circuit
    rw [ho, circuit_cons] at hcirc
    have hnd := hcirc.1
    have hout : comp.lastCs ∉ l := by
      intro hm
      simp [List.nodup_append] at hnd
      exact hnd.2.2 _ hm rfl
    obtain ⟨r, hr, hfound⟩ := ringSearch_found (fun i => sameConn (comp.tstate i) ip)
      hcirc.2 hout (show l.length < maxStates by rw [hlen]; decide)
    rw [hr]
    rw [ho] at h
    rw [ho]
    cases hfound with
    | @miss a p z hl hnone =>
        rw [hl] at h hnd
        have hsplit : a ++ [p, z] = (a ++ [p]) ++ z :: [] := by simp
        have herase : (a ++ [p, z]).erase z = a ++ [p] := by
          rw [hsplit] at hnd ⊢
          rw [erase_middle hnd, List.append_nil]
        have hlast : (a ++ [p, z]).getLast? = some z :=
          List.getLast?_eq_some_iff.mpr ⟨a ++ [p], hsplit⟩
        refine ⟨false, z, _, rfl, ?_, ⟨fun _ => rfl, fun _ => rfl, rfl, rfl, rfl, rfl⟩, ?_,
          by simp, fun _ => ⟨?_, ?_⟩⟩
        · rw [hl, herase]
          exact h.rotate
        · rw [hl]; simp
        · rw [hl]; exact hlast
        · intro i hi
          rcases List.mem_cons.mp hi with rfl | hi
          · exact Bool.eq_false_iff.mpr hs
          · exact hnone i hi
    | @hit a b p x hl hx =>
        rw [hl] at h hnd
        rcases List.eq_nil_or_concat' b with rfl | ⟨b, z, rfl⟩
        · -- the slot that was found is the oldest one
          have hxl : x = comp.lastCs := by simpa using h.last
          have hsplit : a ++ [p, x] = (a ++ [p]) ++ x :: [] := by simp
          have herase : (a ++ [p, x]).erase x = a ++ [p] := by
            rw [hsplit] at hnd ⊢
            rw [erase_middle hnd, List.append_nil]
          refine ⟨true, x, { comp with lastCs := p }, ?_, ?_,
            ⟨fun _ => rfl, fun _ => rfl, rfl, rfl, rfl, rfl⟩, ?_, fun _ => hx, by simp⟩
          · simp [hxl]
          · rw [hl, herase]
            exact h.rotate
          · rw [hl]; simp
        · have hz : comp.lastCs = z := by
            obtain ⟨m, hm⟩ := List.getLast?_eq_some_iff.mp h.last
            have hsplit : a ++ p :: x :: (b ++ [z]) = (a ++ p :: x :: b) ++ [z] := by simp
            rw [hsplit] at hm
            exact (List.append_inj_right' hm rfl |> List.cons.inj).1.symm
          have hxz : x ≠ comp.lastCs := by
            rw [hz]
            rintro rfl
            simp [List.nodup_append] at hnd
          have herase : (a ++ p :: x :: (b ++ [z])).erase x = a ++ p :: (b ++ [z]) := by
            have hsplit : a ++ p :: x :: (b ++ [z]) = (a ++ [p]) ++ x :: (b ++ [z]) := by simp
            rw [hsplit] at hnd ⊢
            rw [erase_middle hnd, List.append_assoc]
            rfl
          refine ⟨true, x, toFront comp p x, ?_, ?_, sameSlots_toFront comp p x, ?_, fun _ => hx,
            by simp⟩
          · simp [hxz]
          · rw [hl, herase]
            exact h.toFront hz
          · rw [hl]; simp

end

/-! ## Any number of packets -/

/-- The slot a packet is given, and whether it was the connection's already. A
packet that is sent as it is has none. -/
def slSlot (mLen : Nat) (pkt : List UInt8) (comp : SlCompress) : Option (Bool × Nat) :=
  let ip := Buf.of pkt
  if ip.u16 6 &&& 0x3fff ≠ 0 ∨ mLen < 40 then none
  else if thFlags ip (tcpAt ip) &&& (thSyn ||| thFin ||| thRst ||| thAck) ≠ thAck then none
  else (slLocate comp ip).map fun r => (r.1, r.2.1)

/-- A packet handed to the sender: its first mbuf, its octets, and whether ids
may be left out. -/
structure SlCall where
  mLen : Nat
  pkt : List UInt8
  compressCid : Bool

/-- The sender together with the slots it has used, most recent first. -/
def slSend (s : SlCompress × List Nat) (e : SlCall) : SlCompress × List Nat :=
  match slCompressTcp e.mLen e.pkt s.1 e.compressCid with
  | none => s
  | some r => (r.2.2, ((slSlot e.mLen e.pkt s.1).map (·.2)).toList ++ s.2)

/-- The order the slots are in before any was used. -/
def startOrder : List Nat := (List.range maxStates).reverse

/-- The ring visits the slots in order of use, and each still has its id. -/
structure SlotsByUse (s : SlCompress × List Nat) : Prop where
  slots : Slots s.1 (byUse startOrder s.2)
  used : ∀ i ∈ s.2, i ∈ startOrder
  ids : ∀ i, (s.1.tstate i).csId = UInt8.ofNat i

section

variable {comp comp' : SlCompress} {order : List Nat}

theorem Slots.saveHdr (h : Slots comp order) (cs : Nat) (ip : Buf) :
    Slots (saveHdr comp cs ip) order := by
  have hnext : ringNext (Netinet.saveHdr comp cs ip) = ringNext comp := by
    funext i
    rw [ringNext, Netinet.saveHdr]
    dsimp only
    split <;> rfl
  exact ⟨by rw [hnext]; exact h.circuit, h.perm, h.last⟩

theorem saveHdr_csId (comp : SlCompress) (cs : Nat) (ip : Buf) (i : Nat) :
    ((saveHdr comp cs ip).tstate i).csId = (comp.tstate i).csId := by
  rw [saveHdr]
  dsimp only
  split <;> rfl

theorem Slots.lastXmit (h : Slots comp order) (id : UInt8) :
    Slots { comp with lastXmit := id } order := ⟨h.circuit, h.perm, h.last⟩

/-! What is sent for a slot does not touch the ring. -/

theorem slUncompressed_slots (h : Slots comp order) (cs : Nat) (pkt : List UInt8) :
    Slots (slUncompressed comp cs pkt).2.2 order ∧
      ∀ i, ((slUncompressed comp cs pkt).2.2.tstate i).csId = (comp.tstate i).csId :=
  ⟨(h.saveHdr cs (.of pkt)).lastXmit _, saveHdr_csId comp cs _⟩

theorem slCompressed_slots (h : Slots comp order) (cs : Nat) (pkt : List UInt8) (cid : Bool)
    (changes : UInt8) (newSeq : List UInt8) :
    Slots (slCompressed comp cid cs pkt changes newSeq).2.2 order ∧
      ∀ i, ((slCompressed comp cid cs pkt changes newSeq).2.2.tstate i).csId =
        (comp.tstate i).csId := by
  have hsave := h.saveHdr cs (.of pkt)
  unfold slCompressed
  dsimp only
  split
  · exact ⟨hsave.lastXmit _, saveHdr_csId comp cs _⟩
  · exact ⟨hsave, saveHdr_csId comp cs _⟩

/-- One packet: something is sent, and the slot it was given is the most
recently used one. -/
theorem slCompressTcp_slots (h : Slots comp order) (mLen : Nat) (pkt : List UInt8) (cid : Bool) :
    ∃ r, slCompressTcp mLen pkt comp cid = some r ∧
      (∀ i, (r.2.2.tstate i).csId = (comp.tstate i).csId) ∧
      match slSlot mLen pkt comp with
      | none => Slots r.2.2 order
      | some (found, cs) =>
          Slots r.2.2 (cs :: order.erase cs) ∧ cs ∈ order ∧
            (found = false → order.getLast? = some cs) := by
  unfold slCompressTcp slSlot
  dsimp only
  split
  · exact ⟨_, rfl, fun _ => rfl, h⟩
  split
  · exact ⟨_, rfl, fun _ => rfl, h⟩
  obtain ⟨found, cs, comp', hloc, hslots, hsame, hcs, -, hmiss⟩ := slLocate_spec h (.of pkt)
  rw [hloc, Option.map_some, Option.map_some]
  refine ⟨_, rfl, ?_⟩
  -- in every case the packet goes out whole or as changes
  have hsent : ∀ r : PktType × List UInt8 × SlCompress,
      Slots r.2.2 (cs :: order.erase cs) ∧
        (∀ i, (r.2.2.tstate i).csId = (comp'.tstate i).csId) →
      (∀ i, (r.2.2.tstate i).csId = (comp.tstate i).csId) ∧
        Slots r.2.2 (cs :: order.erase cs) ∧ cs ∈ order ∧
          (found = false → order.getLast? = some cs) := by
    intro r hr
    exact ⟨fun i => (hr.2 i).trans (hsame.id i), hr.1, hcs, fun hf => (hmiss hf).1⟩
  cases found with
  | false => exact hsent _ (slUncompressed_slots hslots cs pkt)
  | true =>
      refine hsent _ ?_
      dsimp only
      split
      · split
        · exact slUncompressed_slots hslots cs pkt
        · exact slCompressed_slots hslots cs pkt cid _ _
      · exact slUncompressed_slots hslots cs pkt

end

theorem SlotsByUse.init : SlotsByUse (slCompressInit, []) := ⟨Slots.init, by simp, fun _ => rfl⟩

theorem slotsByUse_step {s : SlCompress × List Nat} (h : SlotsByUse s) (e : SlCall) :
    SlotsByUse (slSend s e) := by
  obtain ⟨r, hr, hid, hslot⟩ := slCompressTcp_slots h.slots e.mLen e.pkt e.compressCid
  have hids : ∀ i, (r.2.2.tstate i).csId = UInt8.ofNat i := fun i => (hid i).trans (h.ids i)
  unfold slSend
  rw [hr]
  dsimp only
  cases hs : slSlot e.mLen e.pkt s.1 with
  | none =>
      rw [hs] at hslot
      exact ⟨hslot, h.used, hids⟩
  | some x =>
      obtain ⟨found, cs⟩ := x
      rw [hs] at hslot
      have hcs : cs ∈ startOrder := (byUse_perm h.used).mem_iff.mp hslot.2.1
      refine ⟨hslot.1, ?_, hids⟩
      intro i hi
      rcases List.mem_cons.mp hi with rfl | hi
      · exact hcs
      · exact h.used i hi

/-- Whatever packets the sender is given, its slots form one ring that visits
all of them, each under its own id, from the one used last to the one used
longest ago, where `last_cs` is; every packet is sent, and a connection that has
no slot gets the one used longest ago. -/
theorem slots_in_order_of_use (es : List SlCall) :
    Always slSend
      (fun s => ∃ order, Circuit (ringNext s.1) order ∧ order.Perm (List.range maxStates) ∧
        (List.range maxStates).map (fun i => (s.1.tstate i).csId.toNat) = List.range maxStates ∧
        order.head? = some (ringNext s.1 s.1.lastCs) ∧ order.getLast? = some s.1.lastCs ∧
        order.Pairwise (fun a b =>
          (s.2 ++ startOrder).idxOf a < (s.2 ++ startOrder).idxOf b) ∧
        ∀ e : SlCall, (slCompressTcp e.mLen e.pkt s.1 e.compressCid).isSome ∧
          ∀ cs, slSlot e.mLen e.pkt s.1 = some (false, cs) → order.getLast? = some cs)
      (slCompressInit, []) es := by
  have hfree : Guarded slSend (fun _ _ => True) (slCompressInit, []) es := fun _ _ _ => trivial
  have hall := always_of_guarded SlotsByUse .init (fun _ e h _ => slotsByUse_step h e) hfree
  intro pre hpre
  have h := hall pre hpre
  refine ⟨_, h.slots.circuit, h.slots.perm, ?_, ?_, h.slots.last, ?_, ?_⟩
  · simp only [h.ids]
    decide
  · obtain ⟨c, l, ho, -⟩ := h.slots.split
    rw [h.slots.head ho, ho]
    rfl
  · exact byUse_pairwise (by decide) h.used
  · intro e
    obtain ⟨r, hr, -, hslot⟩ := slCompressTcp_slots h.slots e.mLen e.pkt e.compressCid
    refine ⟨by rw [hr]; rfl, ?_⟩
    intro cs hcs
    rw [hcs] at hslot
    exact hslot.2.2 rfl

end VxWorks.Netinet
