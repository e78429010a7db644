import Mathlib.Tactic.Common
import VxWorks.Lib.Pieces
import VxWorks.Lib.Run
import VxWorks.Netinet.IpInput

/-!
# The reassembly queues stay sorted and counted

A waiting fragment is a piece of its datagram, and `ipReAssemble` places it as
`place` does, with one exception. The offset of the fragment that a new one ends
in is read as a `short` where every other offset is cast to `USHORT` first, so
from 32768 on it is 65536 too small: the new fragment is found to overlap by
that much, its chain is cut to nothing and its length is set to reach the other
fragment. `ReadsUnsigned` says that a fragment does not meet this.

What `ipReAssemble` does not look at is the length of what it puts together.
Each fragment's own length is sixteen bits and so is its offset, and the sum of
both is not. `Fitting` says that a fragment does not complete a datagram that is
too long.

Apart from these two, every queue is sorted, free of overlaps and counts the
octets it has, whatever the fragments that come in, and what is put together is
as long as its header says.
-/

namespace VxWorks.Netinet

open VxWorks.Lib

/-! ## A waiting fragment as a piece -/

/-- The piece of the datagram a waiting fragment is, with the two header fields
that outlive the fragment. -/
def Packet.piece (p : Packet) : Piece (Nat × Bool) UInt8 :=
  ⟨p.ip.off, p.m.data, (p.ip.hl, p.ip.mff)⟩

/-- The chain is as long as the header says. -/
structure Packet.Counted (p : Packet) : Prop where
  hdr : p.m.hdr = p.ip.hlen
  data : p.m.data.length = p.ip.len
  len_lt : p.ip.len < 65536
  off_lt : p.ip.off < 65536

/-- A waiting fragment that starts before the new one has all of it. -/
def FragHeld (new : Packet) (frags : List Packet) : Prop :=
  ∃ f ∈ frags, f.ip.off < new.ip.off ∧ new.ip.off < f.ip.stop ∧ new.ip.stop ≤ f.ip.stop

/-- The new fragment is dropped, or the first one it would have to go before reads
the same as a `short` and as a `USHORT`. -/
def ReadsUnsigned (new : Packet) (frags : List Packet) : Prop :=
  FragHeld new frags ∨
    ∀ g ∈ frags.find? (fun g => new.ip.off ≤ g.ip.off ∧ new.ip.stop < g.ip.stop), g.ip.off < 32768

instance (new : Packet) (frags : List Packet) : Decidable (ReadsUnsigned new frags) :=
  inferInstanceAs (Decidable ((∃ f ∈ frags, _) ∨ ∀ g ∈ frags.find? _, _))

/-- The fragment whose header a datagram gets, if the new one completes it. -/
def leader (new : Packet) (frags : List Packet) : Option Packet :=
  if new.ip.off = 0 then some new else frags.head?

/-- If nothing is missing any more up to a fragment that no more is to follow, then
what there is fits into a datagram. -/
def Fitting (new : Packet) (frags : List Packet) : Prop :=
  ∀ f ∈ new :: frags, f.ip.mff = false → (∀ g ∈ new :: frags, g.ip.stop ≤ f.ip.stop) →
    (∀ i < f.ip.stop, ∃ g ∈ new :: frags, g.ip.off ≤ i ∧ i < g.ip.stop) →
      ∀ h ∈ leader new frags, h.ip.hlen + f.ip.stop ≤ 65535

instance (new : Packet) (frags : List Packet) : Decidable (Fitting new frags) :=
  inferInstanceAs (Decidable (∀ f ∈ new :: frags, _))

/-- What a queue is when nothing has gone wrong. -/
structure FragsKept (frags : List Packet) : Prop where
  counted : ∀ p ∈ frags, p.Counted
  apart : Apart (frags.map Packet.piece)
  nonempty : frags ≠ []

/-- The chain is as long as the header says, less the header, and a datagram. -/
structure Whole (d : Packet) : Prop where
  hdr : d.m.hdr = d.ip.hlen
  data : d.m.data.length = d.ip.len
  fits : d.ip.hlen + d.ip.len ≤ 65535

section

variable {p new frag : Packet} {l rest : List Packet} {ps : List (Piece (Nat × Bool) UInt8)}

theorem Packet.Counted.stop (h : p.Counted) : p.piece.stop = p.ip.stop := by
  rw [Piece.stop, Ip.stop, ← h.data]
  rfl

theorem sub16_of_le {a n : Nat} (ha : a < 65536) (hn : n ≤ a) : sub16 a n = a - n := by
  rw [sub16]
  omega

theorem toShort_of_lt {n : Nat} (h : n < 32768) : toShort n = n := if_pos h

/-- Trimming within the data is cutting the piece. -/
theorem Packet.Counted.trim (h : p.Counted) {n : Nat} (hn : n ≤ p.ip.len) :
    (p.trim n).Counted ∧ (p.trim n).piece = p.piece.upto (p.ip.stop - n) := by
  have hlen := sub16_of_le h.len_lt hn
  have hadj : mAdj p.m n = { p.m with data := p.m.data.take (p.ip.len - n) } := by
    rw [mAdj, if_pos (h.data ▸ hn), h.data]
  constructor
  · constructor
    · show (mAdj p.m n).hdr = _
      rw [hadj]
      exact h.hdr
    · show (mAdj p.m n).data.length = sub16 p.ip.len n
      rw [hadj, hlen, List.length_take, h.data]
      omega
    · show sub16 p.ip.len n < 65536
      have := h.len_lt
      omega
    · exact h.off_lt
  · show Piece.mk _ (mAdj p.m n).data _ = Piece.mk _ (p.m.data.take _) _
    have hcut : p.ip.stop - n - p.ip.off = p.ip.len - n := by
      rw [Ip.stop]
      omega
    rw [hadj, show p.piece.start = p.ip.off from rfl, hcut]
    rfl

/-- Where a trim is by what lies behind `n`, if anything does. -/
theorem Packet.Counted.cut (h : p.Counted) {n : Nat} (hn : p.ip.off ≤ n) {len : Int}
    (hlen : len = p.ip.stop - (n : Int)) :
    (if 0 < len then p.trim len.toNat else p).Counted ∧
      (if 0 < len then p.trim len.toNat else p).piece = p.piece.upto n := by
  split
  · next hpos =>
      have hle : len.toNat ≤ p.ip.len := by
        rw [Ip.stop] at hlen
        omega
      have hstop : p.ip.stop - len.toNat = n := by omega
      have := h.trim hle
      rwa [hstop] at this
  · next hneg =>
      refine ⟨h, (p.piece.upto_eq_self ?_).symm⟩
      rw [h.stop]
      omega

/-! ## Inserting is placing -/

theorem insertBefore_absorb (hnew : new.Counted) (hl : ∀ p ∈ l, p.Counted)
    (hoff : ∀ p ∈ l, new.ip.off ≤ p.ip.off)
    (hshort : ∀ g ∈ l.find? (fun g => new.ip.off ≤ g.ip.off ∧ new.ip.stop < g.ip.stop),
      g.ip.off < 32768) :
    (insertBefore new l).map Packet.piece = absorb new.piece (l.map Packet.piece) ∧
      ∀ p ∈ insertBefore new l, p.Counted := by
  induction l with
  | nil => exact ⟨rfl, by simpa [insertBefore] using hnew⟩
  | cons frag rest ih =>
      have hfrag := hl frag List.mem_cons_self
      rw [List.map_cons, absorb, insertBefore, hfrag.stop, hnew.stop]
      by_cases hle : frag.ip.stop ≤ new.ip.stop
      · rw [if_pos hle, if_pos hle]
        refine ih (fun p hp => hl p (List.mem_cons_of_mem frag hp))
          (fun p hp => hoff p (List.mem_cons_of_mem frag hp)) ?_
        rwa [List.find?_cons_of_neg (by simpa using fun _ => hle)] at hshort
      · rw [if_neg hle, if_neg hle]
        have hfirst := hoff frag List.mem_cons_self
        have hlow : frag.ip.off < 32768 := by
          apply hshort
          rw [List.find?_cons_of_pos (by simpa using ⟨hfirst, not_le.mp hle⟩)]
          rfl
        have hlen : (new.ip.stop : Int) - toShort frag.ip.off =
            new.ip.stop - (frag.ip.off : Int) := by
          rw [toShort_of_lt hlow]
        have hcut := hnew.cut hfirst hlen
        refine ⟨?_, ?_⟩
        · rw [List.map_cons, List.map_cons, hcut.2]
          rfl
        · intro p hp
          rcases List.mem_cons.mp hp with rfl | hp
          · exact hcut.1
          · exact hl p hp

theorem ReadsUnsigned.tail (h : ReadsUnsigned new (frag :: rest)) (hlt : frag.ip.off < new.ip.off)
    (hover : new.ip.off < frag.ip.stop → frag.ip.stop < new.ip.stop) :
    ReadsUnsigned new rest := by
  rcases h with ⟨f, hf, hheld⟩ | h
  · rcases List.mem_cons.mp hf with rfl | hf
    · exact absurd (hover hheld.2.1) hheld.2.2.not_gt
    · exact .inl ⟨f, hf, hheld⟩
  · rw [List.find?_cons_of_neg (by simp; omega)] at h
    exact .inr h

theorem insertFrag_held (hnew : new.Counted) (hl : ∀ p ∈ l, p.Counted)
    (hap : Apart (l.map Packet.piece)) (h : place new.piece (l.map Packet.piece) = none) :
    insertFrag new l = (false, l) := by
  induction l with
  | nil => cases h
  | cons frag rest ih =>
      have hfrag := hl frag List.mem_cons_self
      rw [List.map_cons, place, hfrag.stop, hnew.stop] at h
      split at h
      · next hlt =>
          have hlt : frag.ip.off < new.ip.off := hlt
          have hstop : new.ip.stop = new.ip.off + new.ip.len := rfl
          rw [insertFrag.eq_def]
          simp only [if_pos hlt]
          split at h
          · next hheld =>
              have hheld : new.ip.off < frag.ip.stop ∧ new.ip.stop ≤ frag.ip.stop := hheld
              rw [if_pos (by omega)]
          · next hheld =>
              have hheld : ¬ (new.ip.off < frag.ip.stop ∧ new.ip.stop ≤ frag.ip.stop) := hheld
              have hrest : place new.piece (rest.map Packet.piece) = none := by simpa using h
              obtain ⟨q, hq, hqlt, -⟩ := place_none hrest
              -- a later fragment starts before the new one, so this one ends before it
              have hfs : frag.ip.stop ≤ new.ip.off := by
                rw [← hfrag.stop]
                exact (hap.head q hq).trans hqlt.le
              rw [if_neg (by omega), if_neg (by omega)]
              cases rest with
              | nil => cases hq
              | cons next rest =>
                  simp only
                  rw [ih (fun p hp => hl p (List.mem_cons_of_mem frag hp)) hap.tail hrest]
      · cases h

theorem insertFrag_placed (hnew : new.Counted) (hl : ∀ p ∈ l, p.Counted)
    (hap : Apart (l.map Packet.piece)) (hne : l ≠ []) (hread : ReadsUnsigned new l)
    (h : place new.piece (l.map Packet.piece) = some ps) :
    ∃ l', insertFrag new l = (true, l') ∧ l'.map Packet.piece = ps ∧ ∀ p ∈ l', p.Counted := by
  induction l generalizing ps with
  | nil => exact absurd rfl hne
  | cons frag rest ih =>
      have hfrag := hl frag List.mem_cons_self
      have hl' : ∀ p ∈ rest, p.Counted := fun p hp => hl p (List.mem_cons_of_mem frag hp)
      rcases place_cons h with ⟨hlt, hover, rs, hrs, rfl⟩ | ⟨hle, rfl⟩
      · rw [hfrag.stop, hnew.stop] at hover
        have hlt : frag.ip.off < new.ip.off := hlt
        have hover : new.ip.off < frag.ip.stop → frag.ip.stop < new.ip.stop := hover
        have hstop : new.ip.stop = new.ip.off + new.ip.len := rfl
        have hcut := hfrag.cut hlt.le rfl
        rw [insertFrag.eq_def]
        simp only [if_pos hlt]
        rw [if_neg (by omega)]
        cases rest with
        | nil =>
            obtain rfl := Option.some.inj hrs
            refine ⟨_, rfl, ?_, ?_⟩
            · rw [List.map_cons, hcut.2]
              rfl
            · intro p hp
              rcases List.mem_cons.mp hp with rfl | hp
              · exact hcut.1
              · rwa [List.mem_singleton.mp hp]
        | cons next rest =>
            obtain ⟨l', heq, hmap, hcounted⟩ := ih hl' hap.tail (by simp) (hread.tail hlt hover) hrs
            simp only [heq]
            refine ⟨_, rfl, ?_, ?_⟩
            · rw [List.map_cons, hcut.2, hmap]
              rfl
            · intro p hp
              rcases List.mem_cons.mp hp with rfl | hp
              · exact hcut.1
              · exact hcounted p hp
      · have hoff : ∀ p ∈ frag :: rest, new.ip.off ≤ p.ip.off :=
          fun p hp => hap.le_start hle p.piece (List.mem_map_of_mem hp)
        have hshort := hread.resolve_left (fun ⟨f, hf, hfl, _⟩ => absurd (hoff f hf) hfl.not_ge)
        rw [insertFrag.eq_def]
        simp only [if_neg (hoff frag List.mem_cons_self).not_gt]
        exact ⟨_, rfl, insertBefore_absorb hnew hl hoff hshort⟩

/-! ## The check for completeness -/

theorem contiguous_eq_some (hl : ∀ p ∈ l, p.Counted) {n k : Nat} :
    contiguous n l = some k ↔
      Gapless n (l.map Packet.piece) ∧ k = n + (joined (l.map Packet.piece)).length := by
  induction l generalizing n with
  | nil => simp [contiguous, Gapless, eq_comm]
  | cons frag rest ih =>
      have hfrag := hl frag List.mem_cons_self
      have hlen : frag.piece.data.length = frag.ip.len := hfrag.data
      rw [contiguous, List.map_cons, Gapless, joined_cons, List.length_append, hlen, hfrag.stop]
      show (if frag.ip.off ≠ n then none else _) = some k ↔ (frag.ip.off = n ∧ _) ∧ _
      by_cases hn : frag.ip.off = n
      · rw [if_neg (not_not.mpr hn), ih fun p hp => hl p (List.mem_cons_of_mem frag hp)]
        subst hn
        rw [Nat.add_assoc]
        simp [Ip.stop]
      · simp [hn]

theorem catFrags_counted (hl : ∀ p ∈ l, p.Counted) (m : Mbuf) :
    catFrags m l = { m with data := m.data ++ joined (l.map Packet.piece) } := by
  have hhdr : l.map (fun frag => frag.m.hdr - (frag.ip.hlen : Int)) = l.map fun _ => 0 :=
    List.map_congr_left fun p hp => by rw [(hl p hp).hdr, Int.sub_self]
  have hdata : joined (l.map Packet.piece) = l.flatMap fun frag => frag.m.data := by
    rw [joined, List.flatMap_map]
    rfl
  rw [catFrags, hhdr, hdata]
  simp

/-- A datagram comes out when the fragments have no gap from the start of the
datagram to one that is not followed by more. -/
theorem ipChkReAssembly_eq_some (hl : ∀ p ∈ l, p.Counted) {d : Packet} :
    ipChkReAssembly l = some d ↔
      Gapless 0 (l.map Packet.piece) ∧ (∀ last ∈ l.getLast?, last.ip.mff = false) ∧
        ∃ first ∈ l.head?, d =
          { ip := { first.ip with
              len := (joined (l.map Packet.piece)).length % 65536, mff := false },
            m := { first.m with data := joined (l.map Packet.piece) } } := by
  cases l with
  | nil => simp [ipChkReAssembly]
  | cons first rest =>
      have hcat : catFrags first.m rest =
          { first.m with data := joined ((first :: rest).map Packet.piece) } :=
        catFrags_counted (fun p hp => hl p (List.mem_cons_of_mem first hp)) first.m
      obtain ⟨last, hlast⟩ : ∃ last, (first :: rest).getLast? = some last :=
        ⟨_, List.getLast?_eq_some_getLast (List.cons_ne_nil first rest)⟩
      have hgap := @contiguous_eq_some _ hl 0
      simp only [Nat.zero_add] at hgap
      cases hc : contiguous 0 (first :: rest) with
      | none =>
          have hno : ¬ Gapless 0 ((first :: rest).map Packet.piece) := by
            intro hg
            rw [hc] at hgap
            exact nomatch hgap.mpr ⟨hg, rfl⟩
          simp only [ipChkReAssembly, hc]
          exact ⟨fun h => (nomatch h), fun h => absurd h.1 hno⟩
      | some len =>
          obtain ⟨hg, rfl⟩ := hgap.mp hc
          simp only [ipChkReAssembly, hc, hlast, hcat, List.head?_cons, Option.mem_def,
            Option.some.injEq, forall_eq', exists_eq_left']
          cases last.ip.mff with
          | false =>
              rw [if_neg Bool.false_ne_true, Option.some.injEq]
              exact ⟨fun h => ⟨hg, rfl, h.symm⟩, fun h => h.2.2.symm⟩
          | true => simp

/-! ## ipReAssemble -/

/-- What `ipReAssemble` does to a queue: there is none and no mbuf for one, the
fragment is dropped, or it is placed. -/
theorem ipReAssemble_cases {fp : Option (List Packet)} (mbuf : Bool) (hnew : new.Counted)
    (hfp : ∀ l ∈ fp, FragsKept l) (hread : ReadsUnsigned new (fp.getD [])) :
    (fp = none ∧ mbuf = false ∧ ipReAssemble mbuf new fp = (none, none)) ∨
    (place new.piece ((fp.getD []).map Packet.piece) = none ∧
      ipReAssemble mbuf new fp = (fp, none)) ∨
    ∃ l', place new.piece ((fp.getD []).map Packet.piece) = some (l'.map Packet.piece) ∧
      FragsKept l' ∧
      (ipChkReAssembly l' = none ∧ ipReAssemble mbuf new fp = (some l', none) ∨
        ∃ d, ipChkReAssembly l' = some d ∧ ipReAssemble mbuf new fp = (none, some d)) := by
  -- once it is placed, the check decides
  have hplaced : ∀ l',
      place new.piece ((fp.getD []).map Packet.piece) = some (l'.map Packet.piece) →
      Apart ((fp.getD []).map Packet.piece) → (∀ p ∈ l', p.Counted) → FragsKept l' := by
    intro l' hl' hap hcounted
    refine ⟨hcounted, place_apart hap hl', ?_⟩
    rintro rfl
    obtain ⟨q, hq, -⟩ := place_stop_new hl'
    cases hq
  cases fp with
  | none =>
      cases mbuf with
      | false => exact .inl ⟨rfl, rfl, rfl⟩
      | true =>
          refine .inr (.inr ⟨[new], rfl, hplaced [new] rfl List.Pairwise.nil ?_, ?_⟩)
          · simpa using hnew
          · unfold ipReAssemble
            cases hchk : ipChkReAssembly [new] with
            | none => exact .inl ⟨rfl, by simp [hchk]⟩
            | some d => exact .inr ⟨d, rfl, by simp [hchk]⟩
  | some l =>
      have hl := hfp l rfl
      cases hpl : place new.piece (l.map Packet.piece) with
      | none =>
          refine .inr (.inl ⟨hpl, ?_⟩)
          unfold ipReAssemble
          simp [insertFrag_held hnew hl.counted hl.apart hpl]
      | some ps =>
          obtain ⟨l', hins, rfl, hcounted⟩ :=
            insertFrag_placed hnew hl.counted hl.apart hl.nonempty hread hpl
          refine .inr (.inr ⟨l', hpl, hplaced l' hpl hl.apart hcounted, ?_⟩)
          unfold ipReAssemble
          cases hchk : ipChkReAssembly l' with
          | none => exact .inl ⟨rfl, by simp [hins, hchk]⟩
          | some d => exact .inr ⟨d, rfl, by simp [hins, hchk]⟩

variable {l' : List Packet} {d : Packet}

theorem leader_of_placed (hpl : place new.piece (l.map Packet.piece) = some (l'.map Packet.piece))
    (hgap : Gapless 0 (l'.map Packet.piece)) {first : Packet} (hfirst : first ∈ l'.head?) :
    ∃ h ∈ leader new l, h.ip.hl = first.ip.hl := by
  obtain ⟨rest, rfl⟩ : ∃ rest, l' = first :: rest := List.head?_eq_some_iff.mp hfirst
  have hzero : first.ip.off = 0 := hgap.1
  cases l with
  | nil =>
      obtain ⟨hp, -⟩ := List.cons.inj (Option.some.inj hpl)
      have hoff : new.ip.off = first.ip.off := congrArg Piece.start hp
      have hhl : new.ip.hl = first.ip.hl := congrArg (·.tag.1) hp
      exact ⟨new, if_pos (hoff.trans hzero), hhl⟩
  | cons g rest =>
      have hhead := Option.some.inj (place_head hpl)
      split at hhead
      · next hlt =>
          have hlt : g.ip.off < new.ip.off := hlt
          have hhl : first.ip.hl = g.ip.hl := congrArg (·.2.1) hhead
          exact ⟨g, if_neg (by omega), hhl.symm⟩
      · have hoff : first.ip.off = new.ip.off := congrArg (·.1) hhead
        have hhl : first.ip.hl = new.ip.hl := congrArg (·.2.1) hhead
        exact ⟨new, if_pos (hoff.symm.trans hzero), hhl.symm⟩

theorem stop_of_last (hgap : Gapless 0 (l'.map Packet.piece)) {last : Packet}
    (hlast : last ∈ l'.getLast?) : last.piece.stop = (joined (l'.map Packet.piece)).length := by
  have hmem : last.piece ∈ (l'.map Packet.piece).getLast? := by
    rw [List.getLast?_map]
    exact Option.mem_map_of_mem Packet.piece hlast
  rw [hgap.last_stop last.piece hmem, Nat.zero_add]

/-- The last fragment was not cut, or something reaches further. -/
theorem last_of_placed (hpl : place new.piece (l.map Packet.piece) = some (l'.map Packet.piece))
    (hgap : Gapless 0 (l'.map Packet.piece)) {last : Packet} (hlast : last ∈ l'.getLast?) :
    ∃ f ∈ new :: l, f.piece = last.piece := by
  have hmem : last.piece ∈ l'.map Packet.piece :=
    List.mem_map_of_mem (List.mem_of_getLast? hlast)
  have hstop := stop_of_last hgap hlast
  rcases place_remnant hpl hmem with hf | ⟨f, -, n, hcut, g, hg, hlt⟩
  · rw [← List.map_cons] at hf
    exact List.mem_map.mp hf
  · obtain ⟨q, hq, hqstop⟩ := place_stop hpl hg
    have hle := f.upto_stop_le n
    have := hgap.stop_le q hq
    rw [← hcut] at hle
    omega

theorem whole_of_fitting (hnew : new.Counted) (hl : ∀ p ∈ l, p.Counted)
    (hap : Apart (l.map Packet.piece)) (hl' : ∀ p ∈ l', p.Counted)
    (hpl : place new.piece (l.map Packet.piece) = some (l'.map Packet.piece))
    (hfit : Fitting new l) (hd : ipChkReAssembly l' = some d) : Whole d := by
  obtain ⟨hgap, hmff, first, hfirst, rfl⟩ := (ipChkReAssembly_eq_some hl').mp hd
  have hall : ∀ f ∈ new :: l, f.Counted := List.forall_mem_cons.mpr ⟨hnew, hl⟩
  obtain ⟨last, hlast⟩ : ∃ last, last ∈ l'.getLast? := by
    obtain ⟨rest, rfl⟩ : ∃ rest, l' = first :: rest := List.head?_eq_some_iff.mp hfirst
    exact ⟨_, List.getLast?_eq_some_getLast (List.cons_ne_nil first rest)⟩
  have htotal := stop_of_last hgap hlast
  obtain ⟨f, hf, hpiece⟩ := last_of_placed hpl hgap hlast
  have hfstop : f.ip.stop = (joined (l'.map Packet.piece)).length := by
    rw [← (hall f hf).stop, hpiece, htotal]
  have hfmff : f.ip.mff = false := (congrArg (·.tag.2) hpiece).trans (hmff last hlast)
  obtain ⟨h, hh, hhl⟩ := leader_of_placed hpl hgap hfirst
  have hfits : h.ip.hlen + f.ip.stop ≤ 65535 := by
    refine hfit f hf hfmff ?_ ?_ h hh
    · intro g hg
      obtain ⟨q, hq, hle⟩ := place_stop hpl (List.mem_map_of_mem hg)
      rw [← (hall g hg).stop, hfstop]
      have := hgap.stop_le q hq
      omega
    · intro i hi
      have hcov := hgap.covers (Nat.zero_le i) (by rwa [Nat.zero_add, ← hfstop])
      obtain ⟨q, hq, hqi⟩ := (place_covers hap hpl).mp hcov
      rw [← List.map_cons] at hq
      obtain ⟨g, hg, rfl⟩ := List.mem_map.mp hq
      exact ⟨g, hg, hqi.1, (hall g hg).stop ▸ hqi.2⟩
  have hlen : first.ip.hlen + (joined (l'.map Packet.piece)).length ≤ 65535 := by
    have : h.ip.hlen = first.ip.hlen := congrArg (4 * ·) hhl
    omega
  have hmod : (joined (l'.map Packet.piece)).length % 65536 =
      (joined (l'.map Packet.piece)).length := Nat.mod_eq_of_lt (by omega)
  constructor
  · exact (hl' first (List.mem_of_mem_head? hfirst)).hdr
  · exact hmod.symm
  · show first.ip.hlen + _ % 65536 ≤ 65535
    rwa [hmod]

end

/-! ## The queues of a host -/

section

variable {s : IpInput} {k : IpKey} {frags : Option (List Packet)} {P : List Packet → Prop}

theorem queued_mem {ipq : List Ipq} {l : List Packet} (h : l ∈ queued ipq k) :
    ∃ q ∈ ipq, q.key = k ∧ q.frags = l := by
  obtain ⟨q, hq, rfl⟩ := Option.map_eq_some_iff.mp h
  exact ⟨q, List.mem_of_find?_eq_some hq, by simpa using List.find?_some hq, rfl⟩

theorem requeue_forall {ipq : List Ipq} (h : ∀ q ∈ ipq, P q.frags) (hf : ∀ l ∈ frags, P l) :
    ∀ q ∈ requeue k frags ipq, P q.frags := by
  induction ipq with
  | nil => exact h
  | cons q qs ih =>
      have hqs : ∀ q ∈ qs, P q.frags := fun r hr => h r (List.mem_cons_of_mem q hr)
      rw [requeue]
      split
      · intro r hr
        rcases List.mem_append.mp hr with hr | hr
        · obtain ⟨l, hl, rfl⟩ := Option.map_eq_some_iff.mp (Option.mem_toList.mp hr)
          exact hf l hl
        · exact hqs r hr
      · intro r hr
        rcases List.mem_cons.mp hr with rfl | hr
        · exact h r List.mem_cons_self
        · exact ih hqs r hr

theorem store_forall (h : ∀ q ∈ s.ipq, P q.frags) (hf : ∀ l ∈ frags, P l) :
    ∀ q ∈ (store s k frags).ipq, P q.frags := by
  rw [store]
  split
  · exact requeue_forall h hf
  · intro q hq
    rcases List.mem_append.mp hq with hq | hq
    · obtain ⟨l, hl, rfl⟩ := Option.map_eq_some_iff.mp (Option.mem_toList.mp hq)
      exact hf l hl
    · exact h q hq

@[simp] theorem store_out : (store s k frags).out = s.out := by
  rw [store]
  split <;> rfl

end

/-- What `ipintr` hands on: the chain is the header and as much data as the header
says there is. -/
theorem Arrival.trimmed_counted {a : Arrival} (h : a.passes = true) :
    a.trimmed.m.hdr = a.ip.hlen ∧ a.trimmed.m.data.length = a.ip.len - a.ip.hlen ∧
      a.ip.hlen ≤ a.ip.len := by
  rw [Packet.passes] at h
  obtain ⟨-, -, hhl, hlen, hchain⟩ := of_decide_eq_true h
  rw [Mbuf.len] at hhl hchain
  have hhdr : a.m.hdr = a.ip.hlen := by
    by_contra hne
    have hlt : a.m.hdr < a.ip.hlen := Int.lt_iff_le_and_ne.mpr ⟨a.hdr_le, hne⟩
    rw [a.short hlt] at hhl
    simp at hhl
    omega
  have hadj : a.trimmed.m =
      { a.m with data := a.m.data.take (a.m.data.length - (a.m.len - a.ip.len).toNat) } := by
    show mAdj a.m _ = _
    rw [mAdj, if_pos]
    rw [Mbuf.len]
    omega
  rw [hadj]
  refine ⟨hhdr, ?_, hlen⟩
  rw [List.length_take]
  rw [Mbuf.len]
  omega

theorem Arrival.asFrag_counted {a : Arrival} (h : a.passes = true) : a.trimmed.asFrag.Counted := by
  obtain ⟨hhdr, hdata, hle⟩ := a.trimmed_counted h
  have hlen : sub16 a.ip.len a.ip.hlen = a.ip.len - a.ip.hlen := sub16_of_le a.len_lt hle
  have := a.len_lt
  constructor
  · exact hhdr
  · exact hdata.trans hlen.symm
  · show sub16 a.ip.len a.ip.hlen < 65536
    omega
  · exact Nat.mod_lt _ (by decide)

/-- A datagram that came in one piece. -/
theorem Arrival.whole {a : Arrival} (h : a.passes = true) {ip : Ip} (hhl : ip.hl = a.ip.hl)
    (hlen : ip.len = sub16 a.ip.len a.ip.hlen) : Whole { a.trimmed with ip := ip } := by
  obtain ⟨hhdr, hdata, hle⟩ := a.trimmed_counted h
  have hsub : sub16 a.ip.len a.ip.hlen = a.ip.len - a.ip.hlen := sub16_of_le a.len_lt hle
  have hhlen : ip.hlen = a.ip.hlen := congrArg (4 * ·) hhl
  have := a.len_lt
  refine ⟨hhdr.trans (congrArg _ hhlen.symm), ?_, ?_⟩
  · exact hdata.trans (hsub.symm.trans hlen.symm)
  · show ip.hlen + ip.len ≤ 65535
    omega

theorem ipintr_frag {s : IpInput} {a : Arrival} (hok : a.ours ∧ a.passes)
    (hfrag : a.trimmed.asFrag.ip.mff ∨ a.trimmed.asFrag.ip.off ≠ 0) :
    ipintr s a =
      match (ipReAssemble a.mbuf a.trimmed.asFrag (queued s.ipq a.ip.key)).2 with
      | none => store s a.ip.key (ipReAssemble a.mbuf a.trimmed.asFrag (queued s.ipq a.ip.key)).1
      | some d =>
          (store s a.ip.key
            (ipReAssemble a.mbuf a.trimmed.asFrag (queued s.ipq a.ip.key)).1).deliver a.ip d := by
  have hbits : clearBit a.ip.off ipDF ≠ 0 := by
    have hfrag : hasBit a.ip.off ipMF = true ∨ a.ip.off * 8 % 65536 ≠ 0 := hfrag
    have hdf : ipDF = 16384 := rfl
    have hmf : ipMF = 8192 := rfl
    simp only [hasBit, hmf, decide_eq_true_eq] at hfrag
    simp only [clearBit, hasBit, hdf, decide_eq_true_eq]
    split <;> omega
  rw [ipintr, if_pos hok, ipintrOurs, if_pos (show clearBit a.trimmed.ip.off ipDF ≠ 0 from hbits)]
  exact if_pos hfrag

/-- A datagram that is no fragment goes up as it is. -/
theorem ipintr_whole {s : IpInput} {a : Arrival} (hok : a.ours ∧ a.passes)
    (hfrag : ¬ (a.trimmed.asFrag.ip.mff ∨ a.trimmed.asFrag.ip.off ≠ 0)) :
    ∃ s' ip, (s' = s ∨ s' = store s a.ip.key none) ∧ ip.hl = a.ip.hl ∧
      ip.len = sub16 a.ip.len a.ip.hlen ∧
        ipintr s a = s'.deliver a.ip { a.trimmed with ip := ip } := by
  rw [ipintr, if_pos hok, ipintrOurs]
  split
  · exact ⟨_, a.trimmed.asFrag.ip, .inr rfl, rfl, rfl, if_neg hfrag⟩
  · exact ⟨s, { a.ip with len := sub16 a.ip.len a.ip.hlen }, .inl rfl, rfl, rfl, rfl⟩

/-- The step does not meet the cast that is missing or the length that is not
checked. -/
def Admits (s : IpInput) : IpEvent → Prop
  | .intr a => a.ours → a.passes → a.trimmed.asFrag.ip.mff ∨ a.trimmed.asFrag.ip.off ≠ 0 →
      ReadsUnsigned a.trimmed.asFrag ((queued s.ipq a.ip.key).getD []) ∧
        Fitting a.trimmed.asFrag ((queued s.ipq a.ip.key).getD [])
  | .slowtimo => True
  | .drain => True

instance (s : IpInput) (e : IpEvent) : Decidable (Admits s e) :=
  match e with
  | .intr a => inferInstanceAs (Decidable (a.ours → _))
  | .slowtimo => isTrue trivial
  | .drain => isTrue trivial

structure IpInv (s : IpInput) : Prop where
  kept : ∀ q ∈ s.ipq, FragsKept q.frags
  whole : ∀ d ∈ s.out, Whole d.pkt

theorem IpInv.deliver {s : IpInput} (h : IpInv s) {d : Packet} (hd : Whole d) (ip : Ip) :
    IpInv (s.deliver ip d) := by
  refine ⟨h.kept, ?_⟩
  intro e he
  rcases List.mem_append.mp he with he | he
  · exact h.whole e he
  · rw [List.mem_singleton.mp he]
    exact hd

theorem IpInv.store {s : IpInput} (h : IpInv s) (k : IpKey) {frags : Option (List Packet)}
    (hf : ∀ l ∈ frags, FragsKept l) : IpInv (store s k frags) :=
  ⟨store_forall h.kept hf, fun d hd => h.whole d (store_out ▸ hd)⟩

theorem ipReAssemble_kept (mbuf : Bool) {new : Packet} {fp : Option (List Packet)}
    (hnew : new.Counted) (hfp : ∀ l ∈ fp, FragsKept l) (hread : ReadsUnsigned new (fp.getD []))
    (hfit : Fitting new (fp.getD [])) :
    (∀ l ∈ (ipReAssemble mbuf new fp).1, FragsKept l) ∧
      ∀ d ∈ (ipReAssemble mbuf new fp).2, Whole d := by
  rcases ipReAssemble_cases mbuf hnew hfp hread with
    ⟨-, -, heq⟩ | ⟨-, heq⟩ | ⟨l', hpl, hl', ⟨-, heq⟩ | ⟨d, hd, heq⟩⟩
  · rw [heq]
    exact ⟨fun l hl => (nomatch hl), fun d hd => (nomatch hd)⟩
  · rw [heq]
    exact ⟨hfp, fun d hd => (nomatch hd)⟩
  · rw [heq]
    refine ⟨?_, fun d hd => (nomatch hd)⟩
    rintro l ⟨⟩
    exact hl'
  · rw [heq]
    refine ⟨fun l hl => (nomatch hl), ?_⟩
    rintro d ⟨⟩
    have hold : ∀ p ∈ fp.getD [], p.Counted := by
      cases fp with
      | none => exact fun p hp => (nomatch hp)
      | some l => exact (hfp l rfl).counted
    have hap : Apart ((fp.getD []).map Packet.piece) := by
      cases fp with
      | none => exact List.Pairwise.nil
      | some l => exact (hfp l rfl).apart
    exact whole_of_fitting hnew hold hap hl'.counted hpl hfit hd

theorem ipintr_inv {s : IpInput} {a : Arrival} (h : IpInv s) (ha : Admits s (.intr a)) :
    IpInv (ipintr s a) := by
  by_cases hok : a.ours ∧ a.passes
  · by_cases hfrag : a.trimmed.asFrag.ip.mff ∨ a.trimmed.asFrag.ip.off ≠ 0
    · obtain ⟨hread, hfit⟩ := ha hok.1 hok.2 hfrag
      have hfp : ∀ l ∈ queued s.ipq a.ip.key, FragsKept l := by
        intro l hl
        obtain ⟨q, hq, -, rfl⟩ := queued_mem hl
        exact h.kept q hq
      obtain ⟨hkept, hwhole⟩ := ipReAssemble_kept a.mbuf (a.asFrag_counted hok.2) hfp hread hfit
      have hs := h.store a.ip.key hkept
      rw [ipintr_frag hok hfrag]
      split
      · exact hs
      · next d hd => exact hs.deliver (hwhole d hd) _
    · obtain ⟨s', ip, hs', hhl, hlen, heq⟩ := @ipintr_whole s a hok hfrag
      have hinv : IpInv s' := by
        rcases hs' with rfl | rfl
        · exact h
        · exact h.store a.ip.key fun l hl => (nomatch hl)
      rw [heq]
      exact hinv.deliver (a.whole hok.2 hhl hlen) _
  · rw [ipintr, if_neg hok]
    exact h

theorem ipStep_inv (s : IpInput) (e : IpEvent) (h : IpInv s) (he : Admits s e) :
    IpInv (ipStep s e) := by
  cases e with
  | intr a => exact ipintr_inv h he
  | slowtimo =>
      refine ⟨?_, h.whole⟩
      intro q hq
      obtain ⟨r, hr, hrq⟩ := List.mem_filterMap.mp hq
      simp only at hrq
      split at hrq
      · cases hrq
      · obtain rfl := Option.some.inj hrq
        exact h.kept r hr
  | drain => exact ⟨fun q hq => (nomatch hq), h.whole⟩

/-- What the queues and the datagrams put together are to be like. -/
structure InOrder (s : IpInput) : Prop where
  sorted : ∀ q ∈ s.ipq, q.frags.Pairwise fun f g => f.ip.off ≤ g.ip.off
  disjoint : ∀ q ∈ s.ipq, q.frags.Pairwise fun f g => f.ip.stop ≤ g.ip.off
  counted : ∀ q ∈ s.ipq, ∀ f ∈ q.frags, f.m.len = f.ip.hlen + f.ip.len
  length : ∀ d ∈ s.out,
    d.pkt.m.data.length = d.pkt.ip.len ∧ d.pkt.m.len = d.pkt.ip.hlen + d.pkt.ip.len
  fits : ∀ d ∈ s.out, d.pkt.m.len ≤ 65535

theorem IpInv.inOrder {s : IpInput} (h : IpInv s) : InOrder s := by
  have hdisj : ∀ q ∈ s.ipq, q.frags.Pairwise fun f g => f.ip.stop ≤ g.ip.off := by
    intro q hq
    have hk := h.kept q hq
    refine (List.pairwise_map.mp hk.apart).imp_of_mem ?_
    intro f g hf _ hfg
    rwa [(hk.counted f hf).stop] at hfg
  have hlen : ∀ d ∈ s.out, d.pkt.m.len = d.pkt.ip.hlen + d.pkt.ip.len := by
    intro d hd
    rw [Mbuf.len, (h.whole d hd).hdr, (h.whole d hd).data]
  constructor
  · intro q hq
    exact (hdisj q hq).imp fun hfg => (Nat.le_add_right ..).trans hfg
  · exact hdisj
  · intro q hq f hf
    rw [Mbuf.len, ((h.kept q hq).counted f hf).hdr, ((h.kept q hq).counted f hf).data]
  · exact fun d hd => ⟨(h.whole d hd).data, hlen d hd⟩
  · intro d hd
    have := (h.whole d hd).fits
    rw [hlen d hd]
    omega

/-- Whatever comes in, in every state of every run whose steps avoid the missing
cast and the missing length check. -/
theorem reassembly_in_order (ipfragttl : Nat) (es : List IpEvent)
    (h : Guarded ipStep Admits (IpInput.init ipfragttl) es) :
    Always ipStep InOrder (IpInput.init ipfragttl) es := by
  have hinit : IpInv (IpInput.init ipfragttl) :=
    ⟨fun q hq => (nomatch hq), fun d hd => (nomatch hd)⟩
  intro pre hpre
  exact (always_of_guarded IpInv hinit ipStep_inv h pre hpre).inOrder

/-- A packet of a datagram of host 1 to host 2, as it comes in: `off` is the whole
field with its flags. -/
def fragArrival (off : UInt16) (data : List UInt8) (h : data.length < 65516) : Arrival where
  ip := ⟨5, false, 20 + data.length, off.toNat, ⟨7, 17, 1, 2⟩, []⟩
  m := ⟨20, data⟩
  ours := true
  mbuf := true
  hl_lt := (by decide : 5 < 16)
  len_lt := (by omega : 20 + data.length < 65536)
  off_lt := off.toNat_lt
  hdr_nonneg := (by decide : (0 : Int) ≤ 20)
  hdr_le := (by decide : (20 : Int) ≤ (4 * 5 : Nat))
  short := fun hlt => absurd hlt (by decide : ¬ (20 : Int) < (4 * 5 : Nat))

/-- Two fragments, the second first. -/
theorem reassembly_in_order_two :
    Always ipStep InOrder (IpInput.init 60)
        [.intr (fragArrival 1 [9, 10] (by decide)),
          .intr (fragArrival 0x2000 [1, 2, 3, 4, 5, 6, 7, 8] (by decide))] ∧
      (run ipStep (IpInput.init 60)
        [.intr (fragArrival 1 [9, 10] (by decide)),
          .intr (fragArrival 0x2000 [1, 2, 3, 4, 5, 6, 7, 8] (by decide))]).out.map
            (fun d => (d.pkt.ip.len, d.pkt.m.data, d.hlen)) =
        [(10, [1, 2, 3, 4, 5, 6, 7, 8, 9, 10], 20)] :=
  ⟨reassembly_in_order 60 _ (guarded_cons (by decide) (guarded_cons (by decide) guarded_nil)),
    by decide⟩

/-- Eight octets at 32768 wait when the first eight come in. They are found to
overlap and lose all of their data, and their length is set to 32768; this makes
the two a complete datagram of 32776 octets, of which eight are there. -/
theorem reassembly_not_in_order :
    ¬ InOrder (run ipStep (IpInput.init 60)
      [.intr (fragArrival 0x1000 [9, 10, 11, 12, 13, 14, 15, 16] (by decide)),
        .intr (fragArrival 0x2000 [1, 2, 3, 4, 5, 6, 7, 8] (by decide))]) := by
  intro h
  have hout : (run ipStep (IpInput.init 60)
      [.intr (fragArrival 0x1000 [9, 10, 11, 12, 13, 14, 15, 16] (by decide)),
        .intr (fragArrival 0x2000 [1, 2, 3, 4, 5, 6, 7, 8] (by decide))]).out.map
          (fun d => (d.pkt.m.data.length, d.pkt.ip.len)) = [(8, 32776)] := by decide
  obtain ⟨d, hd, hval⟩ := List.exists_of_mem_map (hout ▸ List.mem_singleton_self (8, 32776))
  have := (h.length d hd).1
  simp only [Prod.mk.injEq] at hval
  omega

end VxWorks.Netinet
