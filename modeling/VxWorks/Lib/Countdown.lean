import Mathlib.Data.List.Perm.Basic
import VxWorks.Lib.Chains

/-!
# Counting down along a chain that moves

A chain of timers is walked from its head, every timer that is not zero is
counted down by one, and one that thereby runs out rings. Ringing may bring the
entry to the head of the chain while the walk stands on it; what is behind it
then is the whole chain without it, and the walk starts over. That is harmless
as long as everything it passes again is zero, and it is an extra count for
whatever is not: the walk counts each timer exactly once if and only if no timer
that rings and moves stands behind one that stays (`Clear`).

The fuel of the walk is one round of the chain for every timer in it and one
more: an entry that makes the walk start over has run out and will not do so
again.
-/

namespace VxWorks.Lib

variable {α : Type*}

structure Clock (α : Type*) where
  timer : α → Nat
  chain : List α
  /-- the entries that rang, in order -/
  rang : List α
  /-- whether a timer was seen to stay -/
  running : Bool

namespace Clock

/-- The walk has come to `rest`. -/
structure At (c : Clock α) (rest : List α) : Prop where
  nodup : c.chain.Nodup
  suffix : rest <:+ c.chain

section

variable {c : Clock α} {x : α} {rest : List α}

theorem At.mem (h : At c (x :: rest)) : x ∈ c.chain := h.suffix.subset List.mem_cons_self

theorem At.notMem (h : At c (x :: rest)) : x ∉ rest :=
  (List.nodup_cons.mp (h.suffix.sublist.nodup h.nodup)).1

/-- What has been passed is in front of the entry, and none of it is ahead. -/
theorem At.passed [DecidableEq α] (h : At c (x :: rest)) :
    ∃ d, d ++ x :: rest = c.chain ∧ c.chain.erase x = d ++ rest ∧ x ∉ d ∧
      ∀ y ∈ d, y ∉ x :: rest := by
  obtain ⟨d, hd⟩ := h.suffix
  have hnd := h.nodup
  rw [← hd] at hnd
  have happart : ∀ y ∈ d, y ∉ x :: rest := by
    intro y hy hmem
    exact (List.nodup_append.mp hnd).2.2 y hy y hmem rfl
  have hx : x ∉ d := fun hx => happart x hx List.mem_cons_self
  refine ⟨d, hd, ?_, hx, happart⟩
  rw [← hd, List.erase_append_right _ hx, List.erase_cons_head]

theorem At.tail (h : At c (x :: rest)) : rest <:+ c.chain :=
  (List.suffix_cons x rest).trans h.suffix

end

/-- What holds of a walk's end whatever it met: timers only go down, the chain
has the same entries, and entries outside it are left alone. -/
structure Onward (c r : Clock α) : Prop where
  le : ∀ y, r.timer y ≤ c.timer y
  perm : r.chain.Perm c.chain
  same : ∀ y, y ∉ c.chain → r.timer y = c.timer y
  running : c.running = true → r.running = true
  rang : ∃ l, r.rang = c.rang ++ l ∧ ∀ y ∈ l, y ∈ c.chain

section

variable {c c' : Clock α}

theorem Onward.refl (c : Clock α) : Onward c c :=
  ⟨fun _ => Nat.le_refl _, .refl _, fun _ _ => rfl, id, [], by simp, by simp⟩

theorem Onward.trans {r : Clock α} (h : Onward c c') (h' : Onward c' r) : Onward c r := by
  obtain ⟨l, hl, hmem⟩ := h.rang
  obtain ⟨l', hl', hmem'⟩ := h'.rang
  refine ⟨fun y => Nat.le_trans (h'.le y) (h.le y), h'.perm.trans h.perm, fun y hy => ?_,
    fun hr => h'.running (h.running hr), l ++ l', by rw [hl', hl, List.append_assoc], ?_⟩
  · rw [h'.same y (fun hy' => hy (h.perm.mem_iff.mp hy')), h.same y hy]
  · intro y hy
    rcases List.mem_append.mp hy with hy | hy
    · exact hmem y hy
    · exact h.perm.mem_iff.mp (hmem' y hy)

end

variable [DecidableEq α]

def visit (moves : α → Bool) (c : Clock α) (x : α) : Clock α :=
  if c.timer x = 0 then c
  else if c.timer x = 1 then
    { c with
      timer := Function.update c.timer x 0
      chain := if moves x then x :: c.chain.erase x else c.chain
      rang := c.rang ++ [x] }
  else { c with timer := Function.update c.timer x (c.timer x - 1), running := true }

/-- The walk over `rest`, the chain from the entry it has come to. -/
def walk (moves : α → Bool) : Nat → List α → Clock α → Clock α
  | 0, _, c => c
  | _ + 1, [], c => c
  | fuel + 1, x :: _, c => walk moves fuel (after (c.visit moves x).chain x) (c.visit moves x)

def fuel (c : Clock α) : Nat := (c.chain.length + 1) * (c.chain.length + 1)

def tick (moves : α → Bool) (c : Clock α) : Clock α := walk moves c.fuel c.chain c

/-- No entry that rings and moves stands behind one that stays. -/
def Clear (moves : α → Bool) (c : Clock α) : Prop :=
  ∀ a b, [a, b].Sublist c.chain → 2 ≤ c.timer a → c.timer b = 1 → moves b = false

/-! ## One visit -/

/-- What the walk can still take: a round for every timer that is not zero, and
the rest of this one. -/
def left (c : Clock α) (rest : List α) : Nat :=
  c.chain.countP (fun x => c.timer x ≠ 0) * (c.chain.length + 1) + rest.length

/-- The four things a visit can be, with where the walk goes on. -/
inductive Visit (moves : α → Bool) (c : Clock α) (x : α) (rest : List α) :
    Clock α → List α → Prop
  | zero (h : c.timer x = 0) : Visit moves c x rest c rest
  | moved (h : c.timer x = 1) (hm : moves x = true) :
      Visit moves c x rest
        { c with
          timer := Function.update c.timer x 0
          chain := x :: c.chain.erase x
          rang := c.rang ++ [x] } (c.chain.erase x)
  | rung (h : c.timer x = 1) (hm : moves x = false) :
      Visit moves c x rest
        { c with timer := Function.update c.timer x 0, rang := c.rang ++ [x] } rest
  | stays (h : 2 ≤ c.timer x) :
      Visit moves c x rest
        { c with timer := Function.update c.timer x (c.timer x - 1), running := true } rest

section

variable {moves : α → Bool} {c c' : Clock α} {x : α} {rest rest' : List α}

theorem At.visit (h : At c (x :: rest)) :
    Visit moves c x rest (c.visit moves x) (after (c.visit moves x).chain x) := by
  have hafter := after_suffix h.nodup h.suffix
  rw [Clock.visit]
  split
  · next hzero =>
      rw [hafter]
      exact .zero hzero
  next hzero =>
  split
  · next hone =>
      cases hm : moves x with
      | true =>
          rw [if_pos rfl, after_head]
          exact .moved hone hm
      | false =>
          rw [if_neg (by simp), hafter]
          exact .rung hone hm
  · next hone =>
      rw [hafter]
      exact .stays (by omega)

theorem Visit.at (hv : Visit moves c x rest c' rest') (h : At c (x :: rest)) : At c' rest' := by
  cases hv with
  | zero | rung | stays => exact ⟨h.nodup, h.tail⟩
  | moved =>
      refine ⟨List.nodup_cons.mpr ⟨?_, h.nodup.erase x⟩, List.suffix_cons ..⟩
      rw [h.nodup.mem_erase_iff]
      exact fun hx => hx.1 rfl

/-- The rest is still ahead. -/
theorem Visit.suffix (hv : Visit moves c x rest c' rest') (h : At c (x :: rest)) :
    rest <:+ rest' := by
  cases hv with
  | zero | rung | stays => exact List.suffix_refl _
  | moved =>
      obtain ⟨d, hd⟩ := h.suffix
      have hx : x ∉ d := by
        have hnd := h.nodup
        rw [← hd] at hnd
        exact fun hx => (List.nodup_append.mp hnd).2.2 x hx x List.mem_cons_self rfl
      rw [← hd, List.erase_append_right _ hx, List.erase_cons_head]
      exact List.suffix_append d rest

theorem Visit.timer_of_ne (hv : Visit moves c x rest c' rest') {y : α} (hy : y ≠ x) :
    c'.timer y = c.timer y := by
  cases hv with
  | zero => rfl
  | moved | rung | stays => exact Function.update_of_ne hy ..

theorem Visit.timer_self (hv : Visit moves c x rest c' rest') : c'.timer x = c.timer x - 1 := by
  cases hv with
  | zero h => rw [h]
  | moved h | rung h => rw [h]; exact Function.update_self ..
  | stays => exact Function.update_self ..

theorem Visit.perm (hv : Visit moves c x rest c' rest') (h : At c (x :: rest)) :
    c'.chain.Perm c.chain := by
  cases hv with
  | zero | rung | stays => exact List.Perm.refl _
  | moved => exact (List.perm_cons_erase h.mem).symm

/-- A visit takes something off what the walk can still take. -/
theorem Visit.left_lt (hv : Visit moves c x rest c' rest') (h : At c (x :: rest)) :
    c'.left rest' < c.left (x :: rest) := by
  -- no timer becomes other than zero
  have hcount : ∀ n, c.chain.countP (fun y => Function.update c.timer x n y ≠ 0) ≤
      c.chain.countP (fun y => c.timer y ≠ 0) ∨ c.timer x = 0 := by
    intro n
    by_cases hx : c.timer x = 0
    · exact .inr hx
    · refine .inl (List.countP_mono_left ?_)
      intro y _ hy
      rcases eq_or_ne y x with rfl | hne
      · simpa using hx
      · rwa [Function.update_of_ne hne] at hy
  have hstay : ∀ {t : α → Nat}, c.chain.countP (fun y => t y ≠ 0) ≤
      c.chain.countP (fun y => c.timer y ≠ 0) →
      c.chain.countP (fun y => t y ≠ 0) * (c.chain.length + 1) + rest.length <
        c.left (x :: rest) := by
    intro t ht
    have := Nat.mul_le_mul_right (c.chain.length + 1) ht
    unfold left
    rw [List.length_cons]
    omega
  cases hv with
  | zero => exact hstay (Nat.le_refl _)
  | rung h => exact hstay ((hcount 0).resolve_right (by omega))
  | stays h => exact hstay ((hcount (c.timer x - 1)).resolve_right (by omega))
  | moved hone =>
      have hlen : (c.chain.erase x).length + 1 = c.chain.length := by
        rw [List.length_erase_of_mem h.mem]
        have := List.length_pos_of_mem h.mem
        omega
      have herase : (c.chain.erase x).countP (fun y => Function.update c.timer x 0 y ≠ 0) =
          (c.chain.erase x).countP (fun y => c.timer y ≠ 0) := by
        refine List.countP_congr ?_
        intro y hy
        rw [Function.update_of_ne (h.nodup.mem_erase_iff.mp hy).1]
      have hold : c.chain.countP (fun y => c.timer y ≠ 0) =
          (c.chain.erase x).countP (fun y => c.timer y ≠ 0) + 1 := by
        rw [(List.perm_cons_erase h.mem).countP_eq, List.countP_cons_of_pos (by simp [*])]
      unfold left
      rw [hold, List.countP_cons_of_neg (by simp), herase, List.length_cons, List.length_cons, hlen,
        Nat.succ_mul]
      omega

/-! ## The walk -/

/-- The induction every fact about the walk goes by: a visit, and the walk from
where it leads, for which there is fuel left. -/
theorem walk_induction {P : Clock α → List α → Clock α → Prop} (hnil : ∀ c, P c [] c)
    (hvisit : ∀ c x rest c' rest' r, At c (x :: rest) → Visit moves c x rest c' rest' →
      At c' rest' → P c' rest' r → P c (x :: rest) r)
    {fuel : Nat} (h : At c rest) (hfuel : c.left rest ≤ fuel) :
    P c rest (walk moves fuel rest c) := by
  induction fuel generalizing c rest with
  | zero =>
      cases rest with
      | nil => exact hnil c
      | cons x rest => exact absurd hfuel (by simp [left])
  | succ fuel ih =>
      cases rest with
      | nil => exact hnil c
      | cons x rest =>
          have hv : Visit moves c x rest _ _ := h.visit
          have hlt := hv.left_lt h
          exact hvisit c x rest _ _ _ h hv (hv.at h) (ih (hv.at h) (by omega))

theorem Visit.onward (hv : Visit moves c x rest c' rest') (h : At c (x :: rest)) :
    Onward c c' := by
  refine ⟨?_, hv.perm h, ?_, ?_, ?_⟩
  · intro y
    rcases eq_or_ne y x with rfl | hy
    · rw [hv.timer_self]
      omega
    · exact Nat.le_of_eq (hv.timer_of_ne hy)
  · intro y hy
    exact hv.timer_of_ne fun heq => hy (heq ▸ h.mem)
  · cases hv with
    | zero | moved | rung => exact id
    | stays => exact fun _ => rfl
  · cases hv with
    | zero | stays => exact ⟨[], by simp, by simp⟩
    | moved | rung => exact ⟨[x], rfl, by simpa using h.mem⟩

/-- Everything that was ahead is counted, and what is not zero at the end was
seen to stay. When an entry that moves rings, what was passed is counted again,
so that an entry that stays and stands before it is counted twice. -/
structure Outcome (moves : α → Bool) (c : Clock α) (rest : List α) (r : Clock α) : Prop where
  onward : Onward c r
  counted : ∀ y ∈ rest, r.timer y ≤ c.timer y - 1
  stays : ∀ y ∈ rest, r.timer y ≠ 0 → r.running = true
  again : ∀ a b, a ∈ c.chain → a ∉ rest → b ∈ rest → c.timer b = 1 → moves b = true →
    r.timer a ≤ c.timer a - 1
  twice : ∀ a b, [a, b].Sublist rest → 2 ≤ c.timer a → c.timer b = 1 → moves b = true →
    r.timer a ≤ c.timer a - 2

theorem Visit.outcome {r : Clock α} (hv : Visit moves c x rest c' rest') (h : At c (x :: rest))
    (hr : Outcome moves c' rest' r) : Outcome moves c (x :: rest) r := by
  have hne : ∀ {y}, y ∈ rest → y ≠ x := fun hy heq => h.notMem (heq ▸ hy)
  have hahead : ∀ {y}, y ∈ rest → y ∈ rest' := fun hy => (hv.suffix h).subset hy
  constructor
  case onward => exact (hv.onward h).trans hr.onward
  case counted =>
    intro y hy
    rcases List.mem_cons.mp hy with rfl | hy
    · have hle := hr.onward.le y
      rwa [hv.timer_self] at hle
    · rw [← hv.timer_of_ne (hne hy)]
      exact hr.counted y (hahead hy)
  case stays =>
    intro y hy hnz
    rcases List.mem_cons.mp hy with rfl | hy
    · have hle := hr.onward.le y
      have hself := hv.timer_self
      refine hr.onward.running ?_
      cases hv with
      | zero h0 | moved h0 | rung h0 => omega
      | stays => rfl
    · exact hr.stays y (hahead hy) hnz
  case again =>
    intro a b ha hna hb hb1 hmb
    have hax : a ≠ x := fun heq => hna (heq ▸ List.mem_cons_self)
    rw [← hv.timer_of_ne hax]
    rcases List.mem_cons.mp hb with rfl | hb
    · -- the walk starts over, and `a` is ahead again
      cases hv with
      | zero h0 | stays h0 => omega
      | rung _ hm => exact absurd hmb (by simp [hm])
      | moved => exact hr.counted a (h.nodup.mem_erase_iff.mpr ⟨hax, ha⟩)
    · have hb1' : c'.timer b = 1 := by rw [hv.timer_of_ne (hne hb), hb1]
      have hna' : a ∉ rest := fun ha' => hna (List.mem_cons_of_mem x ha')
      cases hv with
      | zero | rung | stays => exact hr.again a b ha hna' hb hb1' hmb
      | moved => exact hr.counted a (h.nodup.mem_erase_iff.mpr ⟨hax, ha⟩)
  case twice =>
    intro a b hsub ha hb1 hmb
    rcases List.sublist_cons_iff.mp hsub with hsub | ⟨l, heq, hl⟩
    · have harest : a ∈ rest := hsub.subset (by simp)
      have hbrest : b ∈ rest := hsub.subset (by simp)
      have ha' := hv.timer_of_ne (hne harest)
      have hb' := hv.timer_of_ne (hne hbrest)
      rw [← ha']
      exact hr.twice a b (hsub.trans (hv.suffix h).sublist) (by omega) (by omega) hmb
    · obtain ⟨rfl, rfl⟩ := List.cons.inj heq
      have hb : b ∈ rest := hl.subset (by simp)
      have hb' := hv.timer_of_ne (hne hb)
      have hself := hv.timer_self
      cases hv with
      | zero h0 | moved h0 | rung h0 => omega
      | stays =>
          have := hr.again a b h.mem h.notMem hb (by omega) hmb
          omega

theorem walk_outcome {fuel : Nat} (h : At c rest) (hfuel : c.left rest ≤ fuel) :
    Outcome moves c rest (walk moves fuel rest c) := by
  refine walk_induction ?_ (fun _ _ _ _ _ _ hat hv _ ih => hv.outcome hat ih) h hfuel
  intro c
  exact ⟨.refl c, by simp, by simp, by simp, fun a b hsub => absurd hsub.subset (by simp)⟩

/-- The timers ahead are counted once, and those that run out ring. -/
structure Exact (c : Clock α) (rest : List α) (r : Clock α) : Prop where
  ahead : ∀ y ∈ rest, r.timer y = c.timer y - 1
  same : ∀ y, y ∉ rest → r.timer y = c.timer y
  rang : r.rang = c.rang ++ rest.filter (fun y => c.timer y = 1)

/-- Ahead no entry that rings and moves stands behind one that stays, and when
there still is one that rings and moves, then all that was passed is zero. -/
structure Ready (moves : α → Bool) (c : Clock α) (rest : List α) : Prop where
  clear : ∀ a b, [a, b].Sublist rest → 2 ≤ c.timer a → c.timer b = 1 → moves b = false
  passed : ∀ b ∈ rest, c.timer b = 1 → moves b = true → ∀ a ∈ c.chain, a ∉ rest → c.timer a = 0

theorem Visit.ready (hv : Visit moves c x rest c' rest') (h : At c (x :: rest))
    (hready : Ready moves c (x :: rest)) : Ready moves c' rest' := by
  have hne : ∀ {y}, y ∈ rest → y ≠ x := fun hy heq => h.notMem (heq ▸ hy)
  -- where the walk goes on with the rest, the timers in it are the old ones
  have hclear : ∀ a b, [a, b].Sublist rest → 2 ≤ c'.timer a → c'.timer b = 1 → moves b = false := by
    intro a b hsub ha hb
    rw [hv.timer_of_ne (hne (hsub.subset (by simp)))] at ha hb
    exact hready.clear a b (hsub.cons x) ha hb
  have hpassed : c'.timer x = 0 → ∀ b ∈ rest, c'.timer b = 1 → moves b = true →
      ∀ a ∈ c.chain, a ∉ rest → c'.timer a = 0 := by
    intro hx b hb hb1 hmb a ha hna
    rcases eq_or_ne a x with rfl | hax
    · exact hx
    · rw [hv.timer_of_ne (hne hb)] at hb1
      rw [hv.timer_of_ne hax]
      refine hready.passed b (List.mem_cons_of_mem x hb) hb1 hmb a ha ?_
      intro hmem
      exact (List.mem_cons.mp hmem).elim hax hna
  have hother : ∀ y, y ≠ x → c'.timer y = c.timer y := fun _ hy => hv.timer_of_ne hy
  have hself := hv.timer_self
  cases hv with
  | zero h0 => exact ⟨hclear, hpassed h0⟩
  | rung h1 => exact ⟨hclear, hpassed (by omega)⟩
  | stays h2 =>
      refine ⟨hclear, ?_⟩
      intro b hb hb1 hmb
      have hbx := hready.clear x b (List.cons_sublist_cons.mpr (by simpa using hb)) h2
        (by rwa [hother b (hne hb)] at hb1)
      exact absurd hmb (by simp [hbx])
  | moved h1 hm =>
      have hzero := hready.passed x List.mem_cons_self h1 hm
      obtain ⟨d, hd, herase, hx, happart⟩ := h.passed
      refine ⟨?_, ?_⟩
      · intro a b hsub ha hb
        rw [herase] at hsub
        obtain ⟨l, m, heq, hl, hm'⟩ := List.sublist_append_iff.mp hsub
        cases l with
        | nil =>
            obtain rfl : [a, b] = m := by simpa using heq
            exact hclear a b hm' ha hb
        | cons y l =>
            -- then `a` was passed, and is zero
            obtain rfl : a = y := (List.cons.inj heq).1
            have had : a ∈ d := hl.subset List.mem_cons_self
            have hax : a ≠ x := fun heq => hx (heq ▸ had)
            rw [hother a hax] at ha
            have hz := hzero a (hd ▸ List.mem_append_left _ had) (happart a had)
            omega
      · intro b _ _ _ a ha hna
        rcases List.mem_cons.mp ha with rfl | ha
        · exact Function.update_self ..
        · exact absurd ha hna

theorem Visit.exact {r : Clock α} (hv : Visit moves c x rest c' rest') (h : At c (x :: rest))
    (hready : Ready moves c (x :: rest)) (hr : Exact c' rest' r) : Exact c (x :: rest) r := by
  have hne : ∀ {y}, y ∈ rest → y ≠ x := fun hy heq => h.notMem (heq ▸ hy)
  have hahead : ∀ y ∈ rest, r.timer y = c.timer y - 1 := by
    intro y hy
    rw [hr.ahead y ((hv.suffix h).subset hy), hv.timer_of_ne (hne hy)]
  have hfilter : rest.filter (fun y => c'.timer y = 1) = rest.filter (fun y => c.timer y = 1) := by
    refine List.filter_congr ?_
    intro y hy
    rw [hv.timer_of_ne (hne hy)]
  have hself := hv.timer_self
  have hrx : x ∉ rest' → r.timer x = c.timer x - 1 := fun hx => (hr.same x hx).trans hself
  refine ⟨List.forall_mem_cons.mpr ⟨hrx ?_, hahead⟩, ?_, ?_⟩
  · cases hv with
    | zero | rung | stays => exact h.notMem
    | moved => exact fun hx => (h.nodup.mem_erase_iff.mp hx).1 rfl
  · intro y hy
    obtain ⟨hyx, hyr⟩ := not_or.mp (fun hor => hy (List.mem_cons.mpr hor))
    rw [← hv.timer_of_ne hyx]
    by_cases hy' : y ∈ rest'
    · -- counted again, but it is zero
      have hz : c'.timer y = 0 := by
        cases hv with
        | zero | rung | stays => exact absurd hy' hyr
        | moved h1 hm =>
            have hmem := List.mem_of_mem_erase hy'
            exact (Function.update_of_ne hyx ..).trans
              (hready.passed x List.mem_cons_self h1 hm y hmem hy)
      rw [hr.ahead y hy', hz]
    · exact hr.same y hy'
  · rw [hr.rang]
    cases hv with
    | zero h0 => rw [List.filter_cons_of_neg (by simp [h0])]
    | stays h2 => rw [List.filter_cons_of_neg (by simp; omega), hfilter]
    | rung h1 => rw [List.filter_cons_of_pos (by simpa using h1), hfilter]; simp
    | moved h1 hm =>
        have hzero := hready.passed x List.mem_cons_self h1 hm
        obtain ⟨d, hd, herase, hx, happart⟩ := h.passed
        have hdz : d.filter (fun y => Function.update c.timer x 0 y = 1) = [] := by
          refine List.filter_eq_nil_iff.mpr ?_
          intro y hy
          have hyx : y ≠ x := fun heq => hx (heq ▸ hy)
          have hz := hzero y (hd ▸ List.mem_append_left _ hy) (happart y hy)
          rw [Function.update_of_ne hyx, hz]
          decide
        rw [herase, List.filter_append, hdz, hfilter, List.filter_cons_of_pos (by simpa using h1)]
        simp

theorem walk_exact {fuel : Nat} (h : At c rest) (hfuel : c.left rest ≤ fuel)
    (hready : Ready moves c rest) : Exact c rest (walk moves fuel rest c) := by
  refine walk_induction (P := fun c rest r => Ready moves c rest → Exact c rest r) ?_ ?_ h hfuel
    hready
  · intro c _
    exact ⟨by simp, fun _ _ => rfl, by simp⟩
  · intro c x rest c' rest' r hat hv _ ih hready
    exact hv.exact hat hready (ih (hv.ready hat hready))

/-- What rings is what runs out, and it rings once. -/
theorem walk_rang {fuel : Nat} (h : At c rest) (hfuel : c.left rest ≤ fuel) :
    ∃ l, (walk moves fuel rest c).rang = c.rang ++ l ∧ l.Nodup ∧
      ∀ y, y ∈ l ↔ c.timer y ≠ 0 ∧ (walk moves fuel rest c).timer y = 0 := by
  refine (walk_induction (P := fun c _ r => (∀ y, r.timer y ≤ c.timer y) ∧
    ∃ l, r.rang = c.rang ++ l ∧ l.Nodup ∧ ∀ y, y ∈ l ↔ c.timer y ≠ 0 ∧ r.timer y = 0)
    ?_ ?_ h hfuel).2
  · intro c
    refine ⟨fun y => Nat.le_refl _, [], by simp, List.nodup_nil, fun y => ?_⟩
    simp
  · intro c x rest c' rest' r hat hv _ ih
    obtain ⟨hle, l, hrang, hnodup, hmem⟩ := ih
    have hself := hv.timer_self
    have hother : ∀ y, y ≠ x → c'.timer y = c.timer y := fun _ hy => hv.timer_of_ne hy
    have hdown : ∀ y, r.timer y ≤ c.timer y := by
      intro y
      have hly := hle y
      rcases eq_or_ne y x with rfl | hy
      · omega
      · rwa [hother y hy] at hly
    refine ⟨hdown, ?_⟩
    -- an entry that rings is zero from then on
    have hring : c.timer x = 1 → r.rang = c.rang ++ x :: l → ∃ l, r.rang = c.rang ++ l ∧ l.Nodup ∧
        ∀ y, y ∈ l ↔ c.timer y ≠ 0 ∧ r.timer y = 0 := by
      intro hone hout
      have hzero : c'.timer x = 0 := by omega
      have hx : x ∉ l := fun hx => ((hmem x).mp hx).1 hzero
      refine ⟨x :: l, hout, List.nodup_cons.mpr ⟨hx, hnodup⟩, fun y => ?_⟩
      rcases eq_or_ne y x with rfl | hy
      · have hly := hle y
        simp only [List.mem_cons, true_or, true_iff]
        exact ⟨by omega, by omega⟩
      · rw [List.mem_cons, hmem y, hother y hy]
        exact or_iff_right hy
    have hquiet : (c.timer x ≠ 0 ↔ c'.timer x ≠ 0) → c'.rang = c.rang → ∃ l, r.rang = c.rang ++ l ∧
        l.Nodup ∧ ∀ y, y ∈ l ↔ c.timer y ≠ 0 ∧ r.timer y = 0 := by
      intro hiff hout
      refine ⟨l, hout ▸ hrang, hnodup, fun y => ?_⟩
      rw [hmem y]
      rcases eq_or_ne y x with rfl | hy
      · rw [hiff]
      · rw [hother y hy]
    cases hv with
    | zero h0 => exact ⟨l, hrang, hnodup, hmem⟩
    | stays h2 => exact hquiet (by omega) rfl
    | rung h1 | moved h1 =>
        refine hring h1 ?_
        rw [hrang, List.append_assoc]
        rfl

/-! ## One tick -/

omit [DecidableEq α] in
theorem left_le_fuel (c : Clock α) : c.left c.chain ≤ c.fuel := by
  have hle : c.chain.countP (fun x => c.timer x ≠ 0) ≤ c.chain.length := List.countP_le_length
  have := Nat.mul_le_mul_right (c.chain.length + 1) hle
  rw [left, fuel]
  rw [Nat.add_one_mul]
  omega

theorem tick_outcome (hnd : c.chain.Nodup) : Outcome moves c c.chain (c.tick moves) :=
  walk_outcome ⟨hnd, List.suffix_refl _⟩ c.left_le_fuel

theorem tick_exact (hnd : c.chain.Nodup) (hclear : c.Clear moves) :
    Exact c c.chain (c.tick moves) :=
  walk_exact ⟨hnd, List.suffix_refl _⟩ c.left_le_fuel
    ⟨hclear, fun _ _ _ _ _ ha hna => absurd ha hna⟩

theorem tick_rang (hnd : c.chain.Nodup) :
    ∃ l, (c.tick moves).rang = c.rang ++ l ∧ l.Nodup ∧
      ∀ y, y ∈ l ↔ c.timer y ≠ 0 ∧ (c.tick moves).timer y = 0 :=
  walk_rang ⟨hnd, List.suffix_refl _⟩ c.left_le_fuel

end

end Clock

end VxWorks.Lib
