import Mathlib.Data.List.Basic
import Mathlib.Data.List.Infix
import Mathlib.Data.List.Pairwise

/-!
# Putting a sequence together from pieces that overlap

A piece is a run of elements and the position it starts at. Pieces of one
sequence come in any order, any number of times and cut in any way, and are kept
in a list that is sorted and free of overlaps (`Apart`). A new piece is placed
into the list: it is refused when a piece that starts before it holds all of it,
the piece it starts in is cut where it starts, the pieces it holds are dropped,
and it is cut itself where the piece it ends in starts.

Whatever is cut away is there a second time, so placing a piece keeps the list
apart and loses no position. Once nothing is missing the list is `Gapless`, and
its elements in order are the sequence, provided every piece was one of it.

A piece carries a tag that travels with it and that nothing here reads.
-/

namespace VxWorks.Lib

variable {τ α : Type*}

structure Piece (τ α : Type*) where
  start : Nat
  data : List α
  tag : τ

namespace Piece

def stop (p : Piece τ α) : Nat := p.start + p.data.length

/-- The part of the piece before position `n`. -/
def upto (p : Piece τ α) (n : Nat) : Piece τ α := { p with data := p.data.take (n - p.start) }

@[simp] theorem upto_start (p : Piece τ α) (n : Nat) : (p.upto n).start = p.start := rfl

theorem start_le_stop (p : Piece τ α) : p.start ≤ p.stop := Nat.le_add_right ..

theorem upto_stop (p : Piece τ α) {n : Nat} (h : p.start ≤ n) : (p.upto n).stop = min n p.stop := by
  simp only [stop, upto, List.length_take]
  omega

theorem upto_stop_le (p : Piece τ α) (n : Nat) : (p.upto n).stop ≤ p.stop := by
  simp only [stop, upto, List.length_take]
  omega

theorem upto_eq_self (p : Piece τ α) {n : Nat} (h : p.stop ≤ n) : p.upto n = p := by
  have hlen : p.data.length ≤ n - p.start := by
    rw [stop] at h
    omega
  rw [upto]
  rw [List.take_of_length_le hlen]

def Covers (p : Piece τ α) (i : Nat) : Prop := p.start ≤ i ∧ i < p.stop

end Piece

open Piece

/-- Sorted, and no two of them overlap. -/
def Apart (ps : List (Piece τ α)) : Prop := ps.Pairwise fun p q => p.stop ≤ q.start

/-- The new piece drops what it holds of the pieces behind its start. -/
def absorb (new : Piece τ α) : List (Piece τ α) → List (Piece τ α)
  | [] => [new]
  | p :: ps => if p.stop ≤ new.stop then absorb new ps else new.upto p.start :: p :: ps

def place (new : Piece τ α) : List (Piece τ α) → Option (List (Piece τ α))
  | [] => some [new]
  | p :: ps =>
      if p.start < new.start then
        if new.start < p.stop ∧ new.stop ≤ p.stop then none
        else (place new ps).map (p.upto new.start :: ·)
      else some (absorb new (p :: ps))

/-- What is left of one of the pieces: all of it, or what a piece that goes
further has left of it. -/
def Remnant (ps : List (Piece τ α)) (q : Piece τ α) : Prop :=
  q ∈ ps ∨ ∃ p ∈ ps, ∃ n, q = p.upto n ∧ ∃ p' ∈ ps, p.stop < p'.stop

/-- Each piece starts where the one before it stops, the first at `n`. -/
def Gapless : Nat → List (Piece τ α) → Prop
  | _, [] => True
  | n, p :: ps => p.start = n ∧ Gapless p.stop ps

def joined (ps : List (Piece τ α)) : List α := ps.flatMap (·.data)

section

variable {new p q : Piece τ α} {ps qs : List (Piece τ α)} {i : Nat}

theorem Remnant.mono (h : Remnant ps q) (hsub : ps ⊆ qs) : Remnant qs q := by
  rcases h with h | ⟨p, hp, n, rfl, p', hp', hlt⟩
  · exact .inl (hsub h)
  · exact .inr ⟨p, hsub hp, n, rfl, p', hsub hp', hlt⟩

theorem Apart.tail (h : Apart (p :: ps)) : Apart ps := (List.pairwise_cons.mp h).2

theorem Apart.head (h : Apart (p :: ps)) : ∀ q ∈ ps, p.stop ≤ q.start := (List.pairwise_cons.mp h).1

/-- Behind a piece that does not start before `n`, none does. -/
theorem Apart.le_start (h : Apart (p :: ps)) {n : Nat} (hn : n ≤ p.start) :
    ∀ q ∈ p :: ps, n ≤ q.start := by
  intro q hq
  rcases List.mem_cons.mp hq with rfl | hq
  · exact hn
  · exact hn.trans (p.start_le_stop.trans (h.head q hq))

/-! ## The pieces behind the start of the new one -/

theorem absorb_remnant (hq : q ∈ absorb new ps) : Remnant (new :: ps) q := by
  induction ps with
  | nil => exact .inl hq
  | cons p ps ih =>
      rw [absorb] at hq
      split at hq
      · exact (ih hq).mono (List.cons_subset_cons new (List.subset_cons_self p ps))
      · next hlt =>
          rcases List.mem_cons.mp hq with rfl | hq
          · exact .inr ⟨new, by simp, p.start, rfl, p, by simp, not_le.mp hlt⟩
          · exact .inl (List.mem_cons_of_mem new hq)

theorem absorb_apart (hps : Apart ps) (h : ∀ p ∈ ps, new.start ≤ p.start) :
    Apart (absorb new ps) := by
  induction ps with
  | nil => exact List.pairwise_singleton _ _
  | cons p ps ih =>
      rw [absorb]
      split
      · exact ih hps.tail fun q hq => h q (List.mem_cons_of_mem p hq)
      · refine List.pairwise_cons.mpr ⟨?_, hps⟩
        intro q hq
        have hcut : (new.upto p.start).stop ≤ p.start := by
          rw [upto_stop new (h p List.mem_cons_self)]
          exact Nat.min_le_left ..
        exact hcut.trans (hps.le_start le_rfl q hq)

theorem absorb_covers (h : ∀ p ∈ ps, new.start ≤ p.start) :
    (∃ q ∈ absorb new ps, q.Covers i) ↔ ∃ p ∈ new :: ps, p.Covers i := by
  induction ps with
  | nil => rfl
  | cons p ps ih =>
      have hp := h p List.mem_cons_self
      rw [absorb]
      split
      · next hle =>
          rw [ih fun q hq => h q (List.mem_cons_of_mem p hq)]
          simp only [List.exists_mem_cons_iff]
          have hin : p.Covers i → new.Covers i := fun hi => ⟨hp.trans hi.1, hi.2.trans_le hle⟩
          rw [← or_assoc, or_iff_left_of_imp hin]
      · next hlt =>
          simp only [List.exists_mem_cons_iff]
          have hcut : (new.upto p.start).Covers i ∨ p.Covers i ↔ new.Covers i ∨ p.Covers i := by
            simp only [Covers, upto_start, upto_stop new hp]
            omega
          rw [← or_assoc, hcut, or_assoc]

theorem absorb_stop_new (new : Piece τ α) (ps : List (Piece τ α)) :
    ∃ q ∈ absorb new ps, new.stop ≤ q.stop := by
  induction ps with
  | nil => exact ⟨new, List.mem_singleton_self new, le_rfl⟩
  | cons p ps ih =>
      rw [absorb]
      split
      · exact ih
      · next hlt => exact ⟨p, by simp, (not_le.mp hlt).le⟩

theorem absorb_stop (hp : p ∈ ps) : ∃ q ∈ absorb new ps, p.stop ≤ q.stop := by
  induction ps with
  | nil => cases hp
  | cons g ps ih =>
      rw [absorb]
      split
      · next hle =>
          rcases List.mem_cons.mp hp with rfl | hp
          · obtain ⟨q, hq, hstop⟩ := absorb_stop_new new ps
            exact ⟨q, hq, hle.trans hstop⟩
          · exact ih hp
      · exact ⟨p, List.mem_cons_of_mem _ hp, le_rfl⟩

/-! ## Placing a piece -/

/-- A piece that is refused is in a piece that starts before it. -/
theorem place_none (h : place new ps = none) :
    ∃ p ∈ ps, p.start < new.start ∧ new.start < p.stop ∧ new.stop ≤ p.stop := by
  induction ps with
  | nil => cases h
  | cons p ps ih =>
      rw [place] at h
      split at h
      · next hlt =>
          split at h
          · next hheld => exact ⟨p, by simp, hlt, hheld⟩
          · obtain ⟨q, hq, hheld⟩ := ih (by simpa using h)
            exact ⟨q, List.mem_cons_of_mem p hq, hheld⟩
      · cases h

/-- What placing a piece behind the first one comes to. -/
theorem place_cons (h : place new (p :: ps) = some qs) :
    (p.start < new.start ∧ (new.start < p.stop → p.stop < new.stop) ∧
      ∃ rs, place new ps = some rs ∧ qs = p.upto new.start :: rs) ∨
    (new.start ≤ p.start ∧ qs = absorb new (p :: ps)) := by
  rw [place] at h
  split at h
  · next hlt =>
      split at h
      · cases h
      · next hheld =>
          obtain ⟨rs, hrs, rfl⟩ := Option.map_eq_some_iff.mp h
          exact .inl ⟨hlt, fun hin => not_le.mp fun hle => hheld ⟨hin, hle⟩, rs, hrs, rfl⟩
  · next hle => exact .inr ⟨not_lt.mp hle, (Option.some.inj h).symm⟩

theorem place_remnant (h : place new ps = some qs) (hq : q ∈ qs) : Remnant (new :: ps) q := by
  induction ps generalizing qs with
  | nil =>
      obtain rfl := Option.some.inj h
      exact .inl hq
  | cons p ps ih =>
      rcases place_cons h with ⟨hlt, hover, rs, hrs, rfl⟩ | ⟨-, rfl⟩
      · rcases List.mem_cons.mp hq with rfl | hq
        · rcases Nat.lt_or_ge new.start p.stop with hin | hout
          · exact .inr ⟨p, by simp, new.start, rfl, new, by simp, hover hin⟩
          · rw [upto_eq_self p hout]
            exact .inl (by simp)
        · exact (ih hrs hq).mono (List.cons_subset_cons new (List.subset_cons_self p ps))
      · exact absorb_remnant hq

theorem place_apart (hps : Apart ps) (h : place new ps = some qs) : Apart qs := by
  induction ps generalizing qs with
  | nil =>
      obtain rfl := Option.some.inj h
      exact List.pairwise_singleton _ _
  | cons p ps ih =>
      rcases place_cons h with ⟨hlt, -, rs, hrs, rfl⟩ | ⟨hle, rfl⟩
      · refine List.pairwise_cons.mpr ⟨?_, ih hps.tail hrs⟩
        intro q hq
        rw [upto_stop p hlt.le]
        -- a piece further on is the new one or was behind `p` before
        have hstart : ∀ r ∈ new :: ps, min new.start p.stop ≤ r.start := by
          intro r hr
          rcases List.mem_cons.mp hr with rfl | hr
          · exact Nat.min_le_left ..
          · exact (Nat.min_le_right ..).trans (hps.head r hr)
        rcases place_remnant hrs hq with hq | ⟨r, hr, n, rfl, -⟩
        · exact hstart q hq
        · exact hstart r hr
      · exact absorb_apart hps (hps.le_start hle)

theorem place_covers (hps : Apart ps) (h : place new ps = some qs) :
    (∃ q ∈ qs, q.Covers i) ↔ ∃ p ∈ new :: ps, p.Covers i := by
  induction ps generalizing qs with
  | nil =>
      obtain rfl := Option.some.inj h
      rfl
  | cons p ps ih =>
      rcases place_cons h with ⟨hlt, hover, rs, hrs, rfl⟩ | ⟨hle, rfl⟩
      · have hcut : (p.upto new.start).Covers i ∨ new.Covers i ↔ p.Covers i ∨ new.Covers i := by
          simp only [Covers, upto_start, upto_stop p hlt.le]
          omega
        have hrs' := ih hps.tail hrs
        simp only [List.exists_mem_cons_iff] at hrs' ⊢
        rw [hrs', ← or_assoc, hcut, or_left_comm, or_assoc]
      · exact absorb_covers (hps.le_start hle)

theorem place_stop_new (h : place new ps = some qs) : ∃ q ∈ qs, new.stop ≤ q.stop := by
  induction ps generalizing qs with
  | nil =>
      obtain rfl := Option.some.inj h
      exact ⟨new, List.mem_singleton_self new, le_rfl⟩
  | cons p ps ih =>
      rcases place_cons h with ⟨-, -, rs, hrs, rfl⟩ | ⟨-, rfl⟩
      · obtain ⟨q, hq, hstop⟩ := ih hrs
        exact ⟨q, List.mem_cons_of_mem _ hq, hstop⟩
      · exact absorb_stop_new new _

/-- No piece reaches further than what is placed. -/
theorem place_stop (h : place new ps = some qs) (hp : p ∈ new :: ps) :
    ∃ q ∈ qs, p.stop ≤ q.stop := by
  rcases List.mem_cons.mp hp with rfl | hp
  · exact place_stop_new h
  induction ps generalizing qs with
  | nil => cases hp
  | cons g ps ih =>
      rcases place_cons h with ⟨hlt, hover, rs, hrs, rfl⟩ | ⟨-, rfl⟩
      · rcases List.mem_cons.mp hp with rfl | hp
        · rcases Nat.lt_or_ge new.start p.stop with hin | hout
          · obtain ⟨q, hq, hstop⟩ := place_stop_new hrs
            exact ⟨q, List.mem_cons_of_mem _ hq, (hover hin).le.trans hstop⟩
          · exact ⟨_, List.mem_cons_self, (congrArg stop (upto_eq_self p hout)).ge⟩
        · obtain ⟨q, hq, hstop⟩ := ih hrs (List.mem_cons_of_mem new hp) hp
          exact ⟨q, List.mem_cons_of_mem _ hq, hstop⟩
      · exact absorb_stop hp

theorem absorb_head (new : Piece τ α) (ps : List (Piece τ α)) :
    (absorb new ps).head?.map (fun q => (q.start, q.tag)) = some (new.start, new.tag) := by
  induction ps with
  | nil => rfl
  | cons p ps ih =>
      rw [absorb]
      split
      · exact ih
      · rfl

theorem place_head (h : place new (p :: ps) = some qs) :
    qs.head?.map (fun q => (q.start, q.tag)) =
      some (if p.start < new.start then (p.start, p.tag) else (new.start, new.tag)) := by
  rcases place_cons h with ⟨hlt, -, rs, -, rfl⟩ | ⟨hle, rfl⟩
  · rw [if_pos hlt]
    rfl
  · rw [if_neg hle.not_gt]
    exact absorb_head new _

/-! ## Lists without gaps -/

@[simp] theorem joined_nil : joined ([] : List (Piece τ α)) = [] := rfl

@[simp] theorem joined_cons (p : Piece τ α) (ps : List (Piece τ α)) :
    joined (p :: ps) = p.data ++ joined ps := rfl

variable {n L : Nat}

theorem Gapless.stop_le (h : Gapless n ps) : ∀ p ∈ ps, p.stop ≤ n + (joined ps).length := by
  induction ps generalizing n with
  | nil => exact fun p hp => nomatch hp
  | cons q ps ih =>
      obtain ⟨rfl, hps⟩ := h
      intro p hp
      rw [joined_cons, List.length_append, ← Nat.add_assoc]
      rcases List.mem_cons.mp hp with rfl | hp
      · exact Nat.le_add_right ..
      · exact ih hps p hp

theorem Gapless.last_stop (h : Gapless n ps) :
    ∀ p ∈ ps.getLast?, p.stop = n + (joined ps).length := by
  induction ps generalizing n with
  | nil => exact fun p hp => nomatch hp
  | cons q ps ih =>
      obtain ⟨rfl, hps⟩ := h
      intro p hp
      rw [joined_cons, List.length_append, ← Nat.add_assoc]
      cases ps with
      | nil =>
          obtain rfl : q = p := by simpa using hp
          simp [stop]
      | cons r ps =>
          rw [List.getLast?_cons_cons] at hp
          exact ih hps p hp

theorem Gapless.covers (h : Gapless n ps) (hn : n ≤ i) (hi : i < n + (joined ps).length) :
    ∃ p ∈ ps, p.Covers i := by
  induction ps generalizing n with
  | nil => exact absurd hi (by simpa using hn)
  | cons q ps ih =>
      obtain ⟨rfl, hps⟩ := h
      rcases Nat.lt_or_ge i q.stop with hlt | hge
      · exact ⟨q, by simp, hn, hlt⟩
      · rw [joined_cons, List.length_append, ← Nat.add_assoc] at hi
        obtain ⟨p, hp, hcov⟩ := ih hps hge hi
        exact ⟨p, List.mem_cons_of_mem q hp, hcov⟩

/-- Pieces that are apart and leave nothing out have no gap. -/
theorem gapless_of_covers (hps : Apart ps) (hn : n ≤ L) (hstart : ∀ p ∈ ps, n ≤ p.start)
    (hstop : ∀ p ∈ ps, p.stop ≤ L) (hcov : ∀ i, n ≤ i → i < L → ∃ p ∈ ps, p.Covers i) :
    Gapless n ps ∧ n + (joined ps).length = L := by
  induction ps generalizing n with
  | nil =>
      refine ⟨trivial, ?_⟩
      by_contra hne
      obtain ⟨p, hp, -⟩ := hcov n le_rfl (lt_of_le_of_ne hn (by simpa using hne))
      cases hp
  | cons p ps ih =>
      have hp := hstop p List.mem_cons_self
      have heq : p.start = n := by
        by_contra hne
        have hlt : n < p.start := lt_of_le_of_ne (hstart p List.mem_cons_self) (Ne.symm hne)
        obtain ⟨q, hq, hqn, -⟩ := hcov n le_rfl (hlt.trans_le (p.start_le_stop.trans hp))
        exact absurd (hps.le_start hlt q hq) (by omega)
      have hrest := ih hps.tail hp hps.head (fun q hq => hstop q (List.mem_cons_of_mem p hq)) ?_
      · refine ⟨⟨heq, hrest.1⟩, ?_⟩
        rw [joined_cons, List.length_append, ← Nat.add_assoc, ← heq]
        exact hrest.2
      · intro i hi hiL
        obtain ⟨q, hq, hqi⟩ := hcov i (heq ▸ p.start_le_stop.trans hi) hiL
        rcases List.mem_cons.mp hq with rfl | hq
        · exact absurd hqi.2 (by omega)
        · exact ⟨q, hq, hqi⟩

/-- The pieces of a sequence, put together. -/
theorem Gapless.joined_prefix (h : Gapless n ps) {l : List α}
    (hl : ∀ p ∈ ps, p.data <+: l.drop p.start) : joined ps <+: l.drop n := by
  induction ps generalizing n with
  | nil => exact List.nil_prefix
  | cons p ps ih =>
      obtain ⟨rfl, hps⟩ := h
      obtain ⟨rest, hrest⟩ := hl p List.mem_cons_self
      have hdrop : l.drop p.stop = rest := by
        rw [stop, ← List.drop_drop, ← hrest, List.drop_left]
      rw [joined_cons, ← hrest, List.prefix_append_right_inj, ← hdrop]
      exact ih hps fun q hq => hl q (List.mem_cons_of_mem p hq)

end

end VxWorks.Lib
