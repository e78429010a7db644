import VxWorks.Netinet.IpOutput
import VxWorks.Netinet.IpReassembly

/-!
# From ip_output to pr_input

A datagram is fragmented, its fragments are fragmented again, and what becomes
of it arrives in any order and any number of times, in between whatever else the
host receives. As long as its queue is not timed out, the datagram goes up when
its last octet has come in, once and as it was.

Two things have to hold for this. The first is the one that keeps the queues in
order: no fragment may go in front of a waiting one that starts at 32768 or
later. The second is about the header. `ipintr` keeps the header length of the
packet it took off its queue, and that is the fragment which came in last; the
datagram has the header of the fragment that starts it. The two differ when the
options are not all copied and the last to come in is not the first fragment.
-/

namespace VxWorks.Netinet

open VxWorks.Lib

/-! ## What arrives -/

/-- The packets of a key that `ipintr` takes as this host's, as it trims them. -/
def arrivals (k : IpKey) (es : List IpEvent) : List Packet :=
  es.filterMap fun
    | .intr a => if a.ours ∧ a.passes ∧ a.ip.key = k then some a.trimmed else none
    | .slowtimo => none
    | .drain => none

/-- Every octet of the datagram is among these. -/
structure AllThere (d : Packet) (fs : List Packet) : Prop where
  nonempty : fs ≠ []
  covers : ∀ i < d.m.data.length, ∃ f ∈ fs, f.Carries i

/-- What went up for a key. -/
def outOf (k : IpKey) (s : IpInput) : List Delivery := s.out.filter fun d => d.key = k

/-- What comes in under the key of `d` is what `d` has become on the way, a queue
for it is to be had, and its timer does not run out. -/
def OnTheWay (d : Packet) (s : IpInput) : IpEvent → Prop
  | .intr a => a.ours → a.passes → a.ip.key = d.ip.key →
      Carried d a.trimmed ∧ (queued s.ipq d.ip.key = none → a.mbuf)
  | .slowtimo => ∀ q ∈ s.ipq, q.key = d.ip.key → q.ttl % 256 ≠ 1
  | .drain => False

/-- A fragment of `d` does not meet the cast that is missing. -/
def InLowerHalf (d : Packet) (s : IpInput) : IpEvent → Prop
  | .intr a => a.ours → a.passes → a.ip.key = d.ip.key →
      a.trimmed.asFrag.ip.mff ∨ a.trimmed.asFrag.ip.off ≠ 0 →
        ReadsUnsigned a.trimmed.asFrag ((queued s.ipq d.ip.key).getD [])
  | .slowtimo => True
  | .drain => True

/-! ## Pieces of a datagram -/

/-- A piece of `d`, tagged with the header length it came with and whether more is to
follow. -/
structure PieceOf (d : Packet) (p : Piece (Nat × Bool) UInt8) : Prop where
  slice : p.data <+: d.m.data.drop p.start
  stop : p.stop ≤ d.m.data.length
  more : p.tag.2 = true ↔ p.stop < d.m.data.length
  lead : p.start = 0 → p.tag.1 = d.ip.hl

section

variable {d f : Packet} {q : Piece (Nat × Bool) UInt8} {ps : List (Piece (Nat × Bool) UInt8)}

/-- A piece is only cut for one that goes further, so the last one is not. -/
theorem PieceOf.remnant (h : ∀ p ∈ ps, PieceOf d p) (hq : Remnant ps q) : PieceOf d q := by
  rcases hq with hq | ⟨p, hp, n, rfl, p', hp', hlt⟩
  · exact h q hq
  · have hstop := (h p' hp').stop
    have hcut := p.upto_stop_le n
    constructor
    · exact (List.take_prefix _ _).trans (h p hp).slice
    · omega
    · have hmore : p.tag.2 = true := (h p hp).more.mpr (by omega)
      exact ⟨fun _ => by omega, fun _ => hmore⟩
    · exact (h p hp).lead

theorem asFrag_off (p : Packet) : p.asFrag.ip.off = p.fragStart := by
  show p.ip.off * 8 % 65536 = 8 * (p.ip.off % 8192)
  omega

theorem FragOf.pieceOf (h : FragOf d f) : PieceOf d f.asFrag.piece := by
  have hstart : f.asFrag.piece.start = f.fragStart := asFrag_off f
  have hstop : f.asFrag.piece.stop = f.fragStart + f.m.data.length := by
    rw [Piece.stop, hstart]
    rfl
  constructor
  · rw [hstart]
    exact h.slice
  · rw [hstop]
    exact h.stop
  · rw [hstop]
    exact h.more
  · rw [hstart]
    exact h.lead

theorem carries_iff (p : Packet) (i : Nat) : p.asFrag.piece.Covers i ↔ p.Carries i := by
  show p.asFrag.ip.off ≤ i ∧ i < p.asFrag.ip.off + p.m.data.length ↔ _
  rw [asFrag_off]
  rfl

/-! ## The queue of a datagram -/

/-- The fragments that wait are pieces of `d`, and have what came in. -/
structure Waiting (d : Packet) (came l : List Packet) : Prop where
  kept : FragsKept l
  pieces : ∀ p ∈ l.map Packet.piece, PieceOf d p
  covers : ∀ i, (∃ p ∈ l.map Packet.piece, p.Covers i) ↔ ∃ f ∈ came, f.Carries i

variable {came l : List Packet} {r : Packet}

/-- What the check puts together is the datagram. -/
theorem Waiting.complete (h : Waiting d came l) (hd : Sendable d)
    (hr : ipChkReAssembly l = some r) :
    r.m.data = d.m.data ∧ r.ip.len = d.m.data.length ∧ r.ip.hl = d.ip.hl ∧
      ∀ i < d.m.data.length, ∃ f ∈ came, f.Carries i := by
  obtain ⟨hgap, hmff, first, hfirst, rfl⟩ := (ipChkReAssembly_eq_some h.kept.counted).mp hr
  obtain ⟨last, hlast⟩ : ∃ last, last ∈ l.getLast? :=
    ⟨_, List.getLast?_eq_some_getLast h.kept.nonempty⟩
  have hpiece := h.pieces last.piece (List.mem_map_of_mem (List.mem_of_getLast? hlast))
  have htotal : (joined (l.map Packet.piece)).length = d.m.data.length := by
    have hno : ¬ last.piece.stop < d.m.data.length := by
      rw [← hpiece.more]
      exact ne_true_of_eq_false (hmff last hlast)
    have := hpiece.stop
    have := stop_of_last hgap hlast
    omega
  have hjoined : joined (l.map Packet.piece) = d.m.data := by
    have hpre := hgap.joined_prefix fun p hp => (h.pieces p hp).slice
    rw [List.drop_zero] at hpre
    exact hpre.eq_of_length htotal
  have hfits := hd.fits
  rw [hd.len] at hfits
  refine ⟨hjoined, ?_, ?_, ?_⟩
  · show (joined (l.map Packet.piece)).length % 65536 = _
    rw [htotal, Nat.mod_eq_of_lt (by omega)]
  · obtain ⟨rest, rfl⟩ : ∃ rest, l = first :: rest := List.head?_eq_some_iff.mp hfirst
    exact (h.pieces first.piece (by simp)).lead hgap.1
  · intro i hi
    exact (h.covers i).mp (hgap.covers (Nat.zero_le i) (by omega))

/-- Once everything came in the check succeeds. -/
theorem Waiting.completes (h : Waiting d came l)
    (hall : ∀ i < d.m.data.length, ∃ f ∈ came, f.Carries i) : ∃ r, ipChkReAssembly l = some r := by
  obtain ⟨hgap, htotal⟩ := gapless_of_covers h.kept.apart (Nat.zero_le _) (fun p _ => Nat.zero_le _)
    (fun p hp => (h.pieces p hp).stop) fun i _ hi => (h.covers i).mpr (hall i hi)
  rw [Nat.zero_add] at htotal
  obtain ⟨first, hfirst⟩ : ∃ first, l.head? = some first :=
    ⟨_, List.head?_eq_some_head h.kept.nonempty⟩
  refine ⟨_, (ipChkReAssembly_eq_some h.kept.counted).mpr ⟨hgap, ?_, first, hfirst, rfl⟩⟩
  intro last hlast
  have hpiece := h.pieces last.piece (List.mem_map_of_mem (List.mem_of_getLast? hlast))
  have hstop := stop_of_last hgap hlast
  have hno : ¬ last.piece.tag.2 = true := by
    rw [hpiece.more]
    omega
  exact eq_false_of_ne_true hno

/-- The queue of `d`, if any, after `came` came in and the datagram did not go up. -/
def Assembling (d : Packet) (came : List Packet) : Option (List Packet) → Prop
  | none => came = []
  | some l => Waiting d came l

variable {fp : Option (List Packet)} {mbuf : Bool}

theorem Assembling.kept (h : Assembling d came fp) : ∀ l ∈ fp, FragsKept l := by
  intro l hl
  cases hl
  exact Waiting.kept h

theorem Assembling.pieces (h : Assembling d came fp) :
    ∀ p ∈ (fp.getD []).map Packet.piece, PieceOf d p := by
  cases fp with
  | none => exact fun p hp => (nomatch hp)
  | some l => exact Waiting.pieces h

theorem Assembling.apart (h : Assembling d came fp) : Apart ((fp.getD []).map Packet.piece) := by
  cases fp with
  | none => exact List.Pairwise.nil
  | some l => exact (Waiting.kept h).apart

theorem Assembling.covers (h : Assembling d came fp) (i : Nat) :
    (∃ p ∈ (fp.getD []).map Packet.piece, p.Covers i) ↔ ∃ g ∈ came, g.Carries i := by
  cases fp with
  | none =>
      obtain rfl : came = [] := h
      simp
  | some l => exact Waiting.covers h i

/-- A fragment of `d` that comes in waits, or it is the last that was missing and the
datagram is put together. -/
theorem Assembling.arrive (h : Assembling d came fp) (hd : Sendable d) (hf : FragOf d f)
    (hcount : f.asFrag.Counted) (hread : ReadsUnsigned f.asFrag (fp.getD []))
    (hmbuf : fp = none → mbuf = true) (hno : ¬ AllThere d came) :
    (∃ l', ipReAssemble mbuf f.asFrag fp = (some l', none) ∧ Waiting d (came ++ [f]) l' ∧
      ¬ AllThere d (came ++ [f])) ∨
    ∃ r, ipReAssemble mbuf f.asFrag fp = (none, some r) ∧ r.m.data = d.m.data ∧
      r.ip.len = d.m.data.length ∧ r.ip.hl = d.ip.hl ∧ AllThere d (came ++ [f]) := by
  have hsome : ∀ i, (∃ g ∈ came ++ [f], g.Carries i) ↔
      ∃ p ∈ f.asFrag.piece :: (fp.getD []).map Packet.piece, p.Covers i := by
    intro i
    rw [List.exists_mem_cons_iff, h.covers, carries_iff]
    simp [or_and_right, exists_or, or_comm]
  rcases ipReAssemble_cases mbuf hcount h.kept hread with
    ⟨hnone, hm, -⟩ | ⟨hheld, heq⟩ | ⟨l', hpl, hl', hchk⟩
  · exact absurd hm (by simp [hmbuf hnone])
  · -- some waiting fragment has all of it
    obtain ⟨p, hp, hlt, hin, hle⟩ := place_none hheld
    have hsame : ∀ i, (∃ g ∈ came ++ [f], g.Carries i) ↔ ∃ g ∈ came, g.Carries i := by
      intro i
      rw [hsome, List.exists_mem_cons_iff, h.covers]
      refine or_iff_right_of_imp fun hi => (h.covers i).mp ⟨p, hp, ?_⟩
      exact ⟨hlt.le.trans hi.1, hi.2.trans_le hle⟩
    cases fp with
    | none => cases hp
    | some l =>
        refine .inl ⟨l, heq, ⟨Waiting.kept h, Waiting.pieces h, ?_⟩, fun hall => hno ⟨?_, ?_⟩⟩
        · intro i
          rw [Waiting.covers h i, hsame i]
        · rintro rfl
          obtain ⟨g, hg, -⟩ := (h.covers p.start).mp ⟨p, hp, Nat.le_refl _, hlt.trans hin⟩
          cases hg
        · exact fun i hi => (hsame i).mp (hall.covers i hi)
  · have hwait : Waiting d (came ++ [f]) l' := by
      refine ⟨hl', ?_, ?_⟩
      · intro q hq
        have hall := List.forall_mem_cons.mpr ⟨hf.pieceOf, h.pieces⟩
        exact PieceOf.remnant hall (place_remnant hpl hq)
      · intro i
        rw [place_covers h.apart hpl, hsome]
    rcases hchk with ⟨hchk, heq⟩ | ⟨r, hchk, heq⟩
    · refine .inl ⟨l', heq, hwait, ?_⟩
      intro hall
      obtain ⟨r, hr⟩ := hwait.completes hall.covers
      rw [hchk] at hr
      cases hr
    · obtain ⟨hdata, hlen, hhl, hall⟩ := hwait.complete hd hchk
      exact .inr ⟨r, heq, hdata, hlen, hhl, by simp, hall⟩

end

/-! ## The other queues -/

section

variable {s : IpInput} {k k' : IpKey} {frags : Option (List Packet)}

theorem queued_cons (q : Ipq) (qs : List Ipq) :
    queued (q :: qs) k = if q.key = k then some q.frags else queued qs k := by
  unfold queued
  rw [List.find?_cons]
  split <;> simp_all

theorem queued_requeue_ne {ipq : List Ipq} (hne : k' ≠ k) :
    queued (requeue k' frags ipq) k = queued ipq k := by
  induction ipq with
  | nil => rfl
  | cons q qs ih =>
      rw [requeue, queued_cons]
      split
      · next hq =>
          rw [if_neg (hq ▸ hne)]
          cases frags with
          | none => rfl
          | some l => exact (queued_cons _ _).trans (if_neg (hq ▸ hne))
      · rw [queued_cons, ih]

theorem queued_requeue {ipq : List Ipq} {l : List Packet} (h : (queued ipq k).isSome) :
    queued (requeue k (some l) ipq) k = some l := by
  induction ipq with
  | nil => cases h
  | cons q qs ih =>
      rw [requeue]
      split
      · next hq => exact (queued_cons _ _).trans (if_pos hq)
      · next hq =>
          rw [queued_cons, if_neg hq] at h ⊢
          exact ih h

theorem queued_store_ne (hne : k' ≠ k) : queued (store s k' frags).ipq k = queued s.ipq k := by
  rw [store]
  split
  · exact queued_requeue_ne hne
  · cases frags with
    | none => rfl
    | some l => exact (queued_cons _ _).trans (if_neg hne)

theorem queued_store {l : List Packet} : queued (store s k (some l)).ipq k = some l := by
  rw [store]
  split
  · next h => exact queued_requeue h
  · exact (queued_cons _ _).trans (if_pos rfl)

theorem queued_slowtimo (h : ∀ q ∈ s.ipq, q.key = k → q.ttl % 256 ≠ 1) :
    queued (ipSlowtimo s).ipq k = queued s.ipq k := by
  rw [ipSlowtimo]
  generalize s.ipq = ipq at h
  induction ipq with
  | nil => rfl
  | cons q qs ih =>
      have hqs := ih fun r hr => h r (List.mem_cons_of_mem q hr)
      simp only at hqs ⊢
      rw [List.filterMap_cons, queued_cons]
      by_cases hzero : (q.ttl + 255) % 256 = 0
      · simp only [if_pos hzero]
        rw [hqs, if_neg]
        intro hkey
        have := h q List.mem_cons_self hkey
        omega
      · simp only [if_neg hzero]
        rw [queued_cons, hqs]

@[simp] theorem outOf_store : outOf k (store s k' frags) = outOf k s := by
  unfold outOf
  rw [store_out]

theorem outOf_deliver {ip : Ip} {p : Packet} (h : ip.key = k) :
    outOf k (s.deliver ip p) = outOf k s ++ [⟨k, p, ip.hlen⟩] := by
  subst h
  simp [outOf, IpInput.deliver]

theorem outOf_deliver_ne {ip : Ip} {p : Packet} (h : ip.key ≠ k) :
    outOf k (s.deliver ip p) = outOf k s := by
  simp [outOf, IpInput.deliver, h]

/-- What comes in under another key. -/
theorem ipintr_ne {a : Arrival} (hne : a.ip.key ≠ k) :
    queued (ipintr s a).ipq k = queued s.ipq k ∧ outOf k (ipintr s a) = outOf k s := by
  by_cases hok : a.ours ∧ a.passes
  · by_cases hfrag : a.trimmed.asFrag.ip.mff ∨ a.trimmed.asFrag.ip.off ≠ 0
    · rw [ipintr_frag hok hfrag]
      split
      · exact ⟨queued_store_ne hne, outOf_store⟩
      · rw [outOf_deliver_ne hne]
        exact ⟨queued_store_ne hne, outOf_store⟩
    · obtain ⟨s', ip, hs', -, -, heq⟩ := @ipintr_whole s a hok hfrag
      rw [heq, outOf_deliver_ne hne]
      rcases hs' with rfl | rfl
      · exact ⟨rfl, rfl⟩
      · exact ⟨queued_store_ne hne, outOf_store⟩
  · rw [ipintr, if_neg hok]
    exact ⟨rfl, rfl⟩

end

/-! ## Runs -/

section

variable {d : Packet} {came : List Packet} {s : IpInput} {a : Arrival}

/-- A packet of `d` that is no fragment is all of it. -/
theorem FragOf.whole {f : Packet} (h : FragOf d f)
    (hno : ¬ (f.asFrag.ip.mff ∨ f.asFrag.ip.off ≠ 0)) :
    f.m.data = d.m.data ∧ f.ip.hl = d.ip.hl := by
  rw [asFrag_off] at hno
  have hmf : ¬ hasBit f.ip.off ipMF = true := fun hmf => hno (.inl hmf)
  have hstart : f.fragStart = 0 := by
    by_contra hne
    exact hno (.inr hne)
  have hslice := h.slice
  rw [hstart, List.drop_zero] at hslice
  rw [h.more, hstart] at hmf
  exact ⟨hslice.eq_of_length_le (by omega), h.lead hstart⟩

/-- A packet of `d` comes in. -/
theorem Assembling.intr (h : Assembling d came (queued s.ipq d.ip.key)) (hd : Sendable d)
    (hno : ¬ AllThere d came) (hok : a.ours ∧ a.passes) (hkey : a.ip.key = d.ip.key)
    (hway : OnTheWay d s (.intr a)) (hread : InLowerHalf d s (.intr a)) :
    (¬ AllThere d (came ++ [a.trimmed]) ∧
      Assembling d (came ++ [a.trimmed]) (queued (ipintr s a).ipq d.ip.key) ∧
      outOf d.ip.key (ipintr s a) = outOf d.ip.key s) ∨
    AllThere d (came ++ [a.trimmed]) ∧ ∃ r : Packet,
      outOf d.ip.key (ipintr s a) = outOf d.ip.key s ++ [⟨d.ip.key, r, a.ip.hlen⟩] ∧
      r.m.data = d.m.data ∧ r.ip.len = d.m.data.length ∧ r.ip.hl = d.ip.hl := by
  obtain ⟨hcarried, hmbuf⟩ := hway hok.1 hok.2 hkey
  have hf := hcarried.fragOf hd
  by_cases hfrag : a.trimmed.asFrag.ip.mff ∨ a.trimmed.asFrag.ip.off ≠ 0
  · rw [ipintr_frag hok hfrag, hkey]
    rcases h.arrive hd hf (a.asFrag_counted hok.2) (hread hok.1 hok.2 hkey hfrag) hmbuf hno with
      ⟨l', heq, hwait, hnot⟩ | ⟨r, heq, hdata, hlen, hhl, hall⟩
    · simp only [heq]
      refine .inl ⟨hnot, ?_, outOf_store⟩
      rw [queued_store]
      exact hwait
    · simp only [heq]
      refine .inr ⟨hall, r, ?_, hdata, hlen, hhl⟩
      rw [outOf_deliver hkey, outOf_store]
  · obtain ⟨hdata, hhl⟩ := hf.whole hfrag
    obtain ⟨-, hcount, hle⟩ := a.trimmed_counted hok.2
    obtain ⟨s', ip, hs', hip, hiplen, heq⟩ := @ipintr_whole s a hok hfrag
    have hout : outOf d.ip.key s' = outOf d.ip.key s := by
      rcases hs' with rfl | rfl
      · rfl
      · exact outOf_store
    refine .inr ⟨⟨by simp, ?_⟩, { a.trimmed with ip := ip }, ?_, hdata, ?_, hip.trans hhl⟩
    · intro i hi
      refine ⟨a.trimmed, by simp, ?_⟩
      have hstart : a.trimmed.fragStart = 0 := by
        rw [← asFrag_off]
        by_contra hne
        exact hfrag (.inr hne)
      rw [Packet.Carries]
      rw [hstart, hdata]
      omega
    · rw [heq, outOf_deliver hkey, hout]
    · show ip.len = _
      rw [hiplen, sub16_of_le a.len_lt hle, ← hcount, hdata]

theorem arrivals_other {k : IpKey} (h : ¬ (a.ours ∧ a.passes ∧ a.ip.key = k)) :
    arrivals k [.intr a] = [] := by
  simp only [arrivals, List.filterMap_cons, List.filterMap_nil, if_neg h]

theorem arrivals_own {k : IpKey} (h : a.ours ∧ a.passes ∧ a.ip.key = k) :
    arrivals k [.intr a] = [a.trimmed] := by
  simp only [arrivals, List.filterMap_cons, List.filterMap_nil, if_pos h]

theorem arrivals_append (k : IpKey) (es fs : List IpEvent) :
    arrivals k (es ++ fs) = arrivals k es ++ arrivals k fs := List.filterMap_append

/-- A step that does not bring the last octet. -/
theorem Assembling.step (h : Assembling d came (queued s.ipq d.ip.key)) (hd : Sendable d)
    {e : IpEvent} (hway : OnTheWay d s e) (hread : InLowerHalf d s e)
    (hno : ¬ AllThere d (came ++ arrivals d.ip.key [e])) (hbefore : ¬ AllThere d came) :
    Assembling d (came ++ arrivals d.ip.key [e]) (queued (ipStep s e).ipq d.ip.key) ∧
      outOf d.ip.key (ipStep s e) = outOf d.ip.key s := by
  cases e with
  | intr a =>
      by_cases hown : a.ours ∧ a.passes ∧ a.ip.key = d.ip.key
      · rw [arrivals_own hown] at hno ⊢
        rcases h.intr hd hbefore ⟨hown.1, hown.2.1⟩ hown.2.2 hway hread with hstep | ⟨hall, -⟩
        · exact hstep.2
        · exact absurd hall hno
      · rw [arrivals_other hown, List.append_nil]
        by_cases hkey : a.ip.key = d.ip.key
        · have hsame : ipStep s (.intr a) = s := if_neg fun hok => hown ⟨hok.1, hok.2, hkey⟩
          rw [hsame]
          exact ⟨h, rfl⟩
        · obtain ⟨hq, hout⟩ := @ipintr_ne s d.ip.key a hkey
          refine ⟨?_, hout⟩
          show Assembling d came (queued (ipintr s a).ipq d.ip.key)
          rwa [hq]
  | slowtimo =>
      refine ⟨?_, rfl⟩
      show Assembling d (came ++ []) (queued (ipSlowtimo s).ipq d.ip.key)
      rwa [List.append_nil, queued_slowtimo hway]
  | drain => exact absurd hway id

theorem AllThere.append (h : AllThere d came) (more : List Packet) : AllThere d (came ++ more) := by
  refine ⟨by simp [h.nonempty], ?_⟩
  intro i hi
  obtain ⟨f, hf, hfi⟩ := h.covers i hi
  exact ⟨f, List.mem_append_left more hf, hfi⟩

/-- As long as an octet is missing nothing goes up and what came in waits. -/
theorem run_assembling (hd : Sendable d) (hs : queued s.ipq d.ip.key = none) (es : List IpEvent)
    (hway : Guarded ipStep (OnTheWay d) s es) (hread : Guarded ipStep (InLowerHalf d) s es)
    (hno : ¬ AllThere d (arrivals d.ip.key es)) :
    Assembling d (arrivals d.ip.key es) (queued (run ipStep s es).ipq d.ip.key) ∧
      outOf d.ip.key (run ipStep s es) = outOf d.ip.key s := by
  induction es using List.reverseRecOn with
  | nil =>
      rw [run_nil, hs]
      exact ⟨rfl, rfl⟩
  | append_singleton es e ih =>
      have hpre := List.prefix_append es [e]
      rw [arrivals_append] at hno ⊢
      have hbefore : ¬ AllThere d (arrivals d.ip.key es) := fun hall => hno (hall.append _)
      obtain ⟨hasm, hout⟩ := ih (hway.of_prefix hpre) (hread.of_prefix hpre) hbefore
      rw [run_concat]
      have hstep := hasm.step hd (hway es e (List.prefix_refl _)) (hread es e (List.prefix_refl _))
        hno hbefore
      exact ⟨hstep.1, hstep.2.trans hout⟩

/-- Sending loses nothing, and while no fragment is put in front of one from the
upper half, nothing goes up before the last octet came in; what goes up then is the
datagram, and it does so under its own header length exactly when the fragment
that came in last has the header length of the first. -/
theorem datagram_round_trip (hd : Sendable d) :
    (∀ f net, Carried d f → f.ip.hlen + 8 ≤ net.mtu → hasBit f.ip.off ipDF = false →
      (∀ off, net.mbuf off = true) → (∀ off, net.copy off = true) →
        ∃ fs, ipOutput net f = .ok fs ∧ ∀ i, f.Carries i → ∃ g ∈ fs, g.Carries i) ∧
    ∀ (s : IpInput) (es : List IpEvent) (a : Arrival), queued s.ipq d.ip.key = none →
      Guarded ipStep (OnTheWay d) s (es ++ [.intr a]) →
      Guarded ipStep (InLowerHalf d) s (es ++ [.intr a]) →
      ¬ AllThere d (arrivals d.ip.key es) → AllThere d (arrivals d.ip.key (es ++ [.intr a])) →
        outOf d.ip.key (run ipStep s es) = outOf d.ip.key s ∧
        ((∃ p : Packet,
          outOf d.ip.key (run ipStep s (es ++ [.intr a])) =
            outOf d.ip.key s ++ [⟨d.ip.key, p, p.ip.hlen⟩] ∧
          p.m.data = d.m.data ∧ p.ip.len = d.m.data.length) ↔ a.ip.hl = d.ip.hl) := by
  constructor
  · intro f net hf hmtu hdf hmbuf hcopy
    have hfrag := hf.fragOf hd
    obtain ⟨fs, hfs⟩ := ipOutput_sends hfrag hmtu hdf hmbuf hcopy
    exact ⟨fs, hfs, (ipOutput_spec hfrag hd hfs).2⟩
  · intro s es a hs hway hread hbefore hnow
    have hpre := List.prefix_append es [.intr a]
    obtain ⟨hasm, hout⟩ :=
      run_assembling hd hs es (hway.of_prefix hpre) (hread.of_prefix hpre) hbefore
    refine ⟨hout, ?_⟩
    rw [arrivals_append] at hnow
    have hown : a.ours ∧ a.passes ∧ a.ip.key = d.ip.key := by
      by_contra hother
      rw [arrivals_other hother, List.append_nil] at hnow
      exact hbefore hnow
    rw [arrivals_own hown] at hnow
    rw [run_concat]
    rcases hasm.intr hd hbefore ⟨hown.1, hown.2.1⟩ hown.2.2 (hway es _ (List.prefix_refl _))
        (hread es _ (List.prefix_refl _)) with ⟨hno, -⟩ | ⟨-, r, hr, hdata, hlen, hhl⟩
    · exact absurd hnow hno
    · have hstep : outOf d.ip.key (ipStep (run ipStep s es) (.intr a)) =
          outOf d.ip.key s ++ [⟨d.ip.key, r, a.ip.hlen⟩] := hr.trans (by rw [hout])
      rw [hstep]
      constructor
      · rintro ⟨p, hp, -⟩
        simp only [List.append_cancel_left_eq, List.cons.injEq, Delivery.mk.injEq, true_and,
          and_true] at hp
        obtain ⟨rfl, hlen'⟩ := hp
        unfold Ip.hlen at hlen'
        omega
      · intro hal
        have hown : a.ip.hlen = r.ip.hlen := congrArg (4 * ·) (hal.trans hhl.symm)
        exact ⟨r, by rw [hown], hdata, hlen⟩

/-- A datagram of sixteen octets with room to record one route, which no fragment
but the first is to carry. -/
def recordRoute : Packet where
  ip := ⟨6, false, 40, 0, ⟨7, 17, 1, 2⟩, [7, 3, 4, 0]⟩
  m := ⟨24, [1, 2, 3, 4, 5, 6, 7, 8, 9, 10, 11, 12, 13, 14, 15, 16]⟩

/-- An interface with room for a header and eight octets. -/
def narrowNet : OutNet := ⟨32, fun _ => true, fun _ => true, 0⟩

/-- A packet that comes in as it was sent. -/
def Packet.arrival (p : Packet) (hl_lt : p.ip.hl < 16) (len_lt : p.ip.len < 65536)
    (off_lt : p.ip.off < 65536) (hdr : p.m.hdr = p.ip.hlen) : Arrival where
  toPacket := p
  ours := true
  mbuf := true
  hl_lt := hl_lt
  len_lt := len_lt
  off_lt := off_lt
  hdr_nonneg := by omega
  hdr_le := by omega
  short := by omega

def recordRouteFirst : Arrival :=
  Packet.arrival
    ⟨⟨6, false, 32, 0x2000, ⟨7, 17, 1, 2⟩, [7, 3, 4, 0]⟩, ⟨24, [1, 2, 3, 4, 5, 6, 7, 8]⟩⟩
    (by decide) (by decide) (by decide) rfl

def recordRouteSecond : Arrival :=
  Packet.arrival ⟨⟨5, false, 28, 1, ⟨7, 17, 1, 2⟩, []⟩, ⟨20, [9, 10, 11, 12, 13, 14, 15, 16]⟩⟩
    (by decide) (by decide) (by decide) rfl

theorem recordRoute_sendable : Sendable recordRoute := by
  refine ⟨by decide, by decide, ?_, by decide, by decide, by decide, by decide, by decide⟩
  exact @Options.opt 7 3 [4] [0] (by decide) (by decide) (by decide) (.eol [])

theorem recordRoute_sent :
    ipOutput narrowNet recordRoute =
      .ok [recordRouteFirst.toPacket, recordRouteSecond.toPacket] := rfl

/-- The second fragment comes in first, so the first one brings the header length
that `pr_input` is given. -/
theorem datagram_round_trip_recordRoute :
    ∃ p : Packet,
      outOf recordRoute.ip.key
        (run ipStep (IpInput.init 60) ([.intr recordRouteSecond] ++ [.intr recordRouteFirst])) =
        [⟨recordRoute.ip.key, p, p.ip.hlen⟩] ∧
      p.m.data = recordRoute.m.data ∧ p.ip.len = 16 := by
  have hfirst : Carried recordRoute recordRouteFirst.trimmed :=
    .hop narrowNet .self recordRoute_sent (by decide)
  have hsecond : Carried recordRoute recordRouteSecond.trimmed :=
    .hop narrowNet .self recordRoute_sent (by decide)
  have hway : Guarded ipStep (OnTheWay recordRoute) (IpInput.init 60)
      ([.intr recordRouteSecond] ++ [.intr recordRouteFirst]) :=
    guarded_cons (fun _ _ _ => ⟨hsecond, fun _ => rfl⟩)
      (guarded_cons (fun _ _ _ => ⟨hfirst, fun _ => rfl⟩) guarded_nil)
  have hread : Guarded ipStep (InLowerHalf recordRoute) (IpInput.init 60)
      ([.intr recordRouteSecond] ++ [.intr recordRouteFirst]) :=
    guarded_cons (fun _ _ _ _ => by decide) (guarded_cons (fun _ _ _ _ => by decide) guarded_nil)
  have hbefore : ¬ AllThere recordRoute
      (arrivals recordRoute.ip.key [.intr recordRouteSecond]) := by
    intro h
    obtain ⟨f, hf, hcov⟩ := h.covers 0 (by decide)
    obtain rfl : f = recordRouteSecond.trimmed := by
      rw [arrivals_own (by decide)] at hf
      exact List.mem_singleton.mp hf
    exact absurd hcov.1 (by decide)
  have hnow : AllThere recordRoute (arrivals recordRoute.ip.key
      ([.intr recordRouteSecond] ++ [.intr recordRouteFirst])) := by
    rw [arrivals_append, arrivals_own (by decide), arrivals_own (by decide)]
    refine ⟨by decide, ?_⟩
    intro i hi
    have hi : i < 16 := hi
    rcases Nat.lt_or_ge i 8 with hlt | hge
    · exact ⟨recordRouteFirst.trimmed, by simp, Nat.zero_le i, hlt⟩
    · exact ⟨recordRouteSecond.trimmed, by simp, hge, hi⟩
  exact ((datagram_round_trip recordRoute_sendable).2 (IpInput.init 60) [.intr recordRouteSecond]
    recordRouteFirst rfl hway hread hbefore hnow).2.mpr rfl

/-- In the order they were sent, the datagram goes up with a header of 24 octets and
`pr_input` is told 20. -/
theorem datagram_wrong_hlen :
    Sendable recordRoute ∧
    ipOutput narrowNet recordRoute = .ok [recordRouteFirst.toPacket, recordRouteSecond.toPacket] ∧
    (run ipStep (IpInput.init 60) [.intr recordRouteFirst, .intr recordRouteSecond]).out.map
        (fun d => (d.pkt.m.data, d.pkt.ip.hlen, d.hlen)) = [(recordRoute.m.data, 24, 20)] :=
  ⟨recordRoute_sendable, recordRoute_sent, by decide⟩

end

end VxWorks.Netinet
