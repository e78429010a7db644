import Mathlib.Data.List.Basic
import Mathlib.Data.List.Induction
import Mathlib.Data.List.Infix

/-!
# Runs of a deterministic step function

A component is a state type, an event type and a function from one to the
next; a run is a list of events folded over it. Everything said here is about
the states a run passes through, and the two rules are the ones the protocol
files keep using. The first is the ordinary invariant rule with a guard on the
steps. The second is its exact form: when an unguarded step visibly breaks the
property it was guarding, the guard is not just enough, it is what the
property means for a run.
-/

namespace VxWorks.Lib

variable {σ ε : Type*}

/-- The state a run ends in. -/
def run (step : σ → ε → σ) (s : σ) (es : List ε) : σ := es.foldl step s

@[simp] theorem run_nil (step : σ → ε → σ) (s : σ) : run step s [] = s := rfl

@[simp] theorem run_cons (step : σ → ε → σ) (s : σ) (e : ε) (es : List ε) :
    run step s (e :: es) = run step (step s e) es := rfl

theorem run_append (step : σ → ε → σ) (s : σ) (es fs : List ε) :
    run step s (es ++ fs) = run step (run step s es) fs := List.foldl_append

@[simp] theorem run_concat (step : σ → ε → σ) (s : σ) (es : List ε) (e : ε) :
    run step s (es ++ [e]) = step (run step s es) e := run_append step s es [e]

/-- Every state the run passes through, the first and the last included. -/
def Always (step : σ → ε → σ) (P : σ → Prop) (s : σ) (es : List ε) : Prop :=
  ∀ pre, pre <+: es → P (run step s pre)

/-- Every step of the run is taken from a state where `G` admits it. -/
def Guarded (step : σ → ε → σ) (G : σ → ε → Prop) (s : σ) (es : List ε) : Prop :=
  ∀ pre e, pre ++ [e] <+: es → G (run step s pre) e

section

variable {step : σ → ε → σ} {P : σ → Prop} {G : σ → ε → Prop} {s : σ}

instance [DecidablePred P] (es : List ε) : Decidable (Always step P s es) :=
  decidable_of_iff (∀ pre ∈ es.inits, P (run step s pre))
    ⟨fun h pre hpre => h pre ((List.mem_inits pre es).mpr hpre),
      fun h pre hpre => h pre ((List.mem_inits pre es).mp hpre)⟩

theorem Always.of_prefix {es fs : List ε} (h : Always step P s fs)
    (hp : es <+: fs) : Always step P s es :=
  fun pre hpre => h pre (hpre.trans hp)

theorem Guarded.of_prefix {es fs : List ε} (h : Guarded step G s fs)
    (hp : es <+: fs) : Guarded step G s es :=
  fun pre e hpre => h pre e (hpre.trans hp)

theorem guarded_nil : Guarded step G s [] := by
  intro pre e hpre
  exact absurd (List.prefix_nil.mp hpre) (by simp)

theorem guarded_cons {e : ε} {es : List ε} (he : G s e) (hes : Guarded step G (step s e) es) :
    Guarded step G s (e :: es) := by
  intro pre a hpre
  cases pre with
  | nil =>
      obtain rfl : a = e := by simpa using hpre
      exact he
  | cons b pre =>
      obtain ⟨rfl, htail⟩ := List.cons_prefix_cons.mp hpre
      exact hes pre a htail

theorem Guarded.append_right {es fs : List ε} (h : Guarded step G s (es ++ fs)) :
    Guarded step G (run step s es) fs := by
  intro pre e hpre
  have hall : es ++ pre ++ [e] <+: es ++ fs := by
    rw [List.append_assoc]
    exact (List.prefix_append_right_inj es).mpr hpre
  rw [← run_append]
  exact h (es ++ pre) e hall

theorem Guarded.head {e : ε} {es : List ε} (h : Guarded step G s (e :: es)) : G s e :=
  h [] e (by simp)

theorem Guarded.tail {e : ε} {es : List ε} (h : Guarded step G s (e :: es)) :
    Guarded step G (step s e) es :=
  @Guarded.append_right _ _ step G s [e] es h

/-- The invariant rule: what a guarded step preserves holds all along a
guarded run. -/
theorem always_of_guarded (Inv : σ → Prop) (h0 : Inv s)
    (hstep : ∀ t e, Inv t → G t e → Inv (step t e)) {es : List ε}
    (hg : Guarded step G s es) : Always step Inv s es := by
  intro pre
  induction pre using List.reverseRecOn with
  | nil => intro _; exact h0
  | append_singleton pre e ih =>
      intro hpre
      rw [run_concat]
      exact hstep _ e (ih ((List.prefix_append pre [e]).trans hpre)) (hg pre e hpre)

/-- The exact form. `Inv` is what carries the induction, `P` is what one cares
about, `A` is what the environment promises about every step, and a step
outside the guard `G` breaks `P` at once. -/
theorem always_iff_guarded (Inv : σ → Prop) (A : σ → ε → Prop) (h0 : Inv s) (hP : ∀ t, Inv t → P t)
    (hstep : ∀ t e, Inv t → A t e → G t e → Inv (step t e))
    (hbad : ∀ t e, Inv t → A t e → ¬ G t e → ¬ P (step t e)) {es : List ε}
    (hA : Guarded step A s es) : Always step P s es ↔ Guarded step G s es := by
  have hstep' : ∀ t e, Inv t → A t e ∧ G t e → Inv (step t e) :=
    fun t e hi hag => hstep t e hi hag.1 hag.2
  constructor
  · intro h
    induction es using List.reverseRecOn with
    | nil => exact guarded_nil
    | append_singleton es e ih =>
        have hes : es <+: es ++ [e] := List.prefix_append es [e]
        have hg : Guarded step G s es := ih (hA.of_prefix hes) (h.of_prefix hes)
        intro pre a hpre
        rcases List.prefix_concat_iff.mp hpre with heq | hlt
        · obtain ⟨rfl, rfl⟩ : pre = es ∧ a = e := by simpa using heq
          by_contra hG
          have hi : Inv (run step s pre) :=
            always_of_guarded Inv h0 hstep'
              (fun q b hq => ⟨hA q b (hq.trans hes), hg q b hq⟩) pre (List.prefix_refl _)
          have hP' := h (pre ++ [a]) (List.prefix_refl _)
          rw [run_concat] at hP'
          exact hbad _ a hi (hA pre a hpre) hG hP'
        · exact hg pre a hlt
  · intro hg pre hpre
    exact hP _ (always_of_guarded Inv h0 hstep'
      (fun q b hq => ⟨hA q b hq, hg q b hq⟩) pre hpre)

end

end VxWorks.Lib
