import Mathlib.Data.List.Basic
import Mathlib.Data.List.Induction

/-!
# The best of a list in one pass

A pass over a list that keeps the first element it may take and gives it up for
one that is better. The order of what is better need not be total, so there may
be many bests, and an element that was passed over is not looked at again. Still
nothing that was there to take is better than what is kept in the end: what was
given up was given up for something better, and what was passed over was not
better than what was kept then.
-/

namespace VxWorks.Lib

variable {α : Type*}

/-- One element of the pass. -/
def pickStep (may : α → Bool) (better : α → α → Bool) (kept : Option α) (a : α) : Option α :=
  if may a then
    match kept with
    | none => some a
    | some b => if better a b then some a else kept
  else kept

/-- What the pass keeps. -/
def pick (may : α → Bool) (better : α → α → Bool) (l : List α) : Option α :=
  l.foldl (pickStep may better) none

/-- Nothing of `l` that may be taken is better than what is kept. -/
structure Picked (may : α → Bool) (better : α → α → Bool) (l : List α) (kept : Option α) : Prop where
  mem : ∀ a, kept = some a → a ∈ l ∧ may a = true
  nothing : kept = none → ∀ a ∈ l, may a = false
  best : ∀ a, kept = some a → ∀ b ∈ l, may b = true → better b a = false

variable {may : α → Bool} {better : α → α → Bool}

theorem picked_nil : Picked may better [] none :=
  ⟨fun _ h => (by cases h), fun _ _ h => absurd h List.not_mem_nil, fun _ h => (by cases h)⟩

theorem Picked.step (hirr : ∀ a, better a a = false)
    (htrans : ∀ a b c, better a b = true → better b c = true → better a c = true) {l : List α}
    {kept : Option α} (h : Picked may better l kept) (a : α) :
    Picked may better (l ++ [a]) (pickStep may better kept a) := by
  unfold pickStep
  by_cases hmay : may a = true
  · rw [if_pos hmay]
    cases kept with
    | none =>
        refine ⟨?_, fun hb => (by cases hb), ?_⟩
        · intro b hb
          cases hb
          exact ⟨List.mem_append_right l List.mem_cons_self, hmay⟩
        · intro b hb c hc hmayc
          cases hb
          rcases List.mem_append.mp hc with hc | hc
          · rw [h.nothing rfl c hc] at hmayc
            cases hmayc
          · obtain rfl := List.mem_singleton.mp hc
            exact hirr c
    | some b =>
        dsimp only
        obtain ⟨hmem, hmayb⟩ := h.mem b rfl
        split
        · next hbetter =>
            refine ⟨?_, fun hc => (by cases hc), ?_⟩
            · intro c hc
              cases hc
              exact ⟨List.mem_append_right l List.mem_cons_self, hmay⟩
            · intro c hc d hd hmayd
              cases hc
              rcases List.mem_append.mp hd with hd | hd
              · -- better than the new one would be better than the one given up for it
                by_contra hcon
                have hold := htrans d a b (by simpa using hcon) hbetter
                rw [h.best b rfl d hd hmayd] at hold
                cases hold
              · obtain rfl := List.mem_singleton.mp hd
                exact hirr d
        · next hbetter =>
            refine ⟨?_, fun hc => (by cases hc), ?_⟩
            · intro c hc
              cases hc
              exact ⟨List.mem_append_left _ hmem, hmayb⟩
            · intro c hc d hd hmayd
              cases hc
              rcases List.mem_append.mp hd with hd | hd
              · exact h.best b rfl d hd hmayd
              · obtain rfl := List.mem_singleton.mp hd
                simpa using hbetter
  · rw [if_neg hmay]
    refine ⟨?_, ?_, ?_⟩
    · intro b hb
      exact ⟨List.mem_append_left _ (h.mem b hb).1, (h.mem b hb).2⟩
    · intro hb b hb'
      rcases List.mem_append.mp hb' with hb' | hb'
      · exact h.nothing hb b hb'
      · obtain rfl := List.mem_singleton.mp hb'
        simpa using hmay
    · intro b hb c hc hmayc
      rcases List.mem_append.mp hc with hc | hc
      · exact h.best b hb c hc hmayc
      · obtain rfl := List.mem_singleton.mp hc
        exact absurd hmayc hmay

/-- For a strict order the pass keeps a best element, and none only where none may be taken. -/
theorem pick_picked (hirr : ∀ a, better a a = false)
    (htrans : ∀ a b c, better a b = true → better b c = true → better a c = true) (l : List α) :
    Picked may better l (pick may better l) := by
  induction l using List.reverseRecOn with
  | nil => exact picked_nil
  | append_singleton l a ih =>
      rw [pick, List.foldl_append]
      exact ih.step hirr htrans a

end VxWorks.Lib
