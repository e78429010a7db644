import Mathlib.Logic.Function.Iterate
import Mathlib.Tactic.Choose

/-!
# What must come about

A system is told something before each of its steps, and nothing is known of what it is
told. `P` is inevitable from a state when every way of telling comes to a state where `P`
holds. There are two rules. One step back, what is inevitable after every step was
inevitable before. And it is not inevitable where there is always something to be told
that keeps the system among states without `P`.
-/

namespace VxWorks.Lib

variable {σ ε : Type*} {step : σ → ε → σ} {P : σ → Prop} {s : σ}

/-- Where the system is after it has been told `told 0` to `told (n - 1)`. -/
def follow (step : σ → ε → σ) (s : σ) (told : Nat → ε) : Nat → σ
  | 0 => s
  | n + 1 => step (follow step s told n) (told n)

/-- Whatever the system is told, it comes to a state where `P` holds. -/
def Inevitable (step : σ → ε → σ) (P : σ → Prop) (s : σ) : Prop :=
  ∀ told : Nat → ε, ∃ n, P (follow step s told n)

theorem follow_succ' (step : σ → ε → σ) (s : σ) (told : Nat → ε) (n : Nat) :
    follow step s told (n + 1) = follow step (step s (told 0)) (fun i => told (i + 1)) n := by
  induction n with
  | zero => rfl
  | succ n ih =>
      rw [follow, ih]
      rfl

theorem Inevitable.here (h : P s) : Inevitable step P s := fun _ => ⟨0, h⟩

theorem Inevitable.back (h : ∀ e, Inevitable step P (step s e)) : Inevitable step P s := by
  intro told
  obtain ⟨n, hn⟩ := h (told 0) fun i => told (i + 1)
  exact ⟨n + 1, by rwa [follow_succ']⟩

/-- The states where `Inv` holds can be kept to, and `P` holds in none of them. -/
theorem Inevitable.not_of_invariant (Inv : σ → Prop) (hs : Inv s) (hP : ∀ t, Inv t → ¬ P t)
    (hstep : ∀ t, Inv t → ∃ e, Inv (step t e)) : ¬ Inevitable step P s := by
  intro h
  have hne : Nonempty ε := (hstep s hs).nonempty
  choose! keep hkeep using hstep
  let path : Nat → σ := fun n => (fun t => step t (keep t))^[n] s
  have hpath : ∀ n, path (n + 1) = step (path n) (keep (path n)) := by
    intro n
    exact Function.iterate_succ_apply' _ n s
  have hinv : ∀ n, Inv (path n) := by
    intro n
    induction n with
    | zero => exact hs
    | succ n ih =>
        rw [hpath]
        exact hkeep _ ih
  have hfollow : ∀ n, follow step s (fun i => keep (path i)) n = path n := by
    intro n
    induction n with
    | zero => rfl
    | succ n ih => rw [follow, ih, hpath]
  obtain ⟨n, hn⟩ := h fun i => keep (path i)
  rw [hfollow] at hn
  exact hP _ (hinv n) hn

end VxWorks.Lib
