import Mathlib.Data.Fintype.Card
import Mathlib.Data.Set.Finite.Lattice
import Mathlib.Logic.Relation
import Mathlib.Order.Bounds.Basic

/-!
# Recursion along a relation

A function that calls itself for everything an argument leads to needs as much depth as
the longest way there is. `Within r n a` is that depth as a number, the form in which a
recursion on fuel meets it. Over a finite type there is such a number exactly when no way
from `a` comes back to where it has been, and that is a condition on the relation alone.
-/

namespace VxWorks.Lib

open Relation

variable {α : Type*} {r : α → α → Prop}

/-- Every way from `a` has fewer than `n` steps. -/
def Within (r : α → α → Prop) : Nat → α → Prop
  | 0, _ => False
  | n + 1, a => ∀ b, r a b → Within r n b

theorem Within.mono {m n : Nat} {a : α} (h : Within r m a) (hmn : m ≤ n) : Within r n a := by
  induction m generalizing n a with
  | zero => exact absurd h id
  | succ m ih =>
      cases n with
      | zero => exact absurd hmn (Nat.not_succ_le_zero m)
      | succ n =>
          intro b hab
          exact ih (h b hab) (Nat.le_of_succ_le_succ hmn)

theorem Within.step {n : Nat} {a b : α} (h : Within r n a) (hab : r a b) :
    Within r (n - 1) b ∧ 0 < n := by
  cases n with
  | zero => exact absurd h id
  | succ n => exact ⟨h b hab, Nat.succ_pos n⟩

theorem Within.reach {n : Nat} {a b : α} (h : Within r n a) (hab : ReflTransGen r a b) :
    Within r n b := by
  induction hab with
  | refl => exact h
  | tail _ hbc ih => exact (ih.step hbc).1.mono (Nat.sub_le n 1)

/-- A way of at least one step leaves less depth. -/
theorem Within.reach_lt {n : Nat} {a b : α} (h : Within r n a) (hab : TransGen r a b) :
    ∃ m < n, Within r m b := by
  obtain ⟨c, hac, hcb⟩ := TransGen.tail'_iff.mp hab
  obtain ⟨hb, hn⟩ := (h.reach hac).step hcb
  exact ⟨n - 1, Nat.sub_lt hn Nat.one_pos, hb⟩

theorem Within.acyclic {n : Nat} {a : α} (h : Within r n a) : ¬ TransGen r a a := by
  intro hcycle
  induction n using Nat.strong_induction_on with
  | _ n ih =>
      obtain ⟨m, hm, ha⟩ := h.reach_lt hcycle
      exact ih m hm ha

/-- One bound for all that `a` leads to. -/
theorem within_of_forall [Finite α] {a : α} (h : ∀ b, r a b → ∃ n, Within r n b) :
    ∃ n, Within r n a := by
  classical
  choose f hf using h
  obtain ⟨m, hm⟩ := (Set.finite_range fun b : {b // r a b} => f b.1 b.2).bddAbove
  refine ⟨m + 1, fun b hab => (hf b hab).mono ?_⟩
  exact hm ⟨⟨b, hab⟩, rfl⟩

theorem exists_within_iff [Finite α] {a : α} :
    (∃ n, Within r n a) ↔ ∀ b, ReflTransGen r a b → ¬ TransGen r b b := by
  constructor
  · rintro ⟨n, hn⟩ b hab
    exact (hn.reach hab).acyclic
  · intro hacyclic
    -- below `a` the way onwards is a transitive and irreflexive relation of a finite type
    let below : {b // ReflTransGen r a b} → {b // ReflTransGen r a b} → Prop :=
      fun x y => TransGen r y.1 x.1
    have htrans : IsTrans _ below := ⟨fun _ _ _ hxy hyz => hyz.trans hxy⟩
    have hirrefl : Std.Irrefl below := ⟨fun x => hacyclic x.1 x.2⟩
    have hwf : WellFounded below := Finite.wellFounded_of_trans_of_irrefl below
    have hall : ∀ x : {b // ReflTransGen r a b}, ∃ n, Within r n x.1 := by
      intro x
      induction x using hwf.induction with
      | _ x ih =>
          refine within_of_forall ?_
          intro b hb
          exact ih ⟨b, x.2.tail hb⟩ (.single hb)
    exact hall ⟨a, .refl⟩

end VxWorks.Lib
