import Mathlib.Data.List.Nodup
import Mathlib.Data.List.Perm.Basic

/-!
# Things that are in one place

Each of a family of places holds some things, and no thing is held twice. What happens to
things is that one moves from a place to another, or leaves for good; in which order a
place holds its things does not matter.
-/

namespace VxWorks.Lib

variable {ι α : Type*}

/-- No thing is in two places, nor twice in one. -/
structure Exclusive (held : ι → List α) : Prop where
  nodup : ∀ p, (held p).Nodup
  apart : ∀ p q x, x ∈ held p → x ∈ held q → p = q

/-- The thing is in some place. -/
def Somewhere (held : ι → List α) (x : α) : Prop := ∃ p, x ∈ held p

variable {held held' : ι → List α} {p q : ι} {x y : α}

theorem Exclusive.perm (h : Exclusive held) (hperm : ∀ p, (held' p).Perm (held p)) :
    Exclusive held' where
  nodup p := (hperm p).nodup_iff.mpr (h.nodup p)
  apart p q x hp hq := h.apart p q x ((hperm p).mem_iff.mp hp) ((hperm q).mem_iff.mp hq)

theorem somewhere_perm (hperm : ∀ p, (held' p).Perm (held p)) :
    Somewhere held' y ↔ Somewhere held y :=
  exists_congr fun p => (hperm p).mem_iff

/-- What is in the other places is not in this one. -/
theorem Exclusive.notMem (h : Exclusive held) (hp : x ∈ held p) (hne : q ≠ p) : x ∉ held q :=
  fun hq => hne (h.apart q p x hq hp)

section Leave

variable (hp : (held p).Perm (x :: held' p)) (hrest : ∀ r, r ≠ p → (held' r).Perm (held r))

include hp hrest

/-- What is left is where it was. -/
theorem mem_of_leave {r : ι} (hy : y ∈ held' r) : y ∈ held r := by
  by_cases hr : r = p
  · subst hr
    exact hp.mem_iff.mpr (List.mem_cons_of_mem x hy)
  · exact (hrest r hr).mem_iff.mp hy

/-- A thing leaves for good. -/
theorem Exclusive.leave (h : Exclusive held) : Exclusive held' where
  nodup r := by
    by_cases hr : r = p
    · subst hr
      exact (List.nodup_cons.mp (hp.nodup_iff.mp (h.nodup r))).2
    · exact (hrest r hr).nodup_iff.mpr (h.nodup r)
  apart r q y hr hq := h.apart r q y (mem_of_leave hp hrest hr) (mem_of_leave hp hrest hq)

end Leave

section Move

variable (hne : p ≠ q) (hp : (held p).Perm (x :: held' p)) (hq : (held' q).Perm (x :: held q))
  (hrest : ∀ r, r ≠ p → r ≠ q → (held' r).Perm (held r))

include hne hp hq hrest

theorem mem_of_move {r : ι} (hy : y ∈ held' r) : (y = x ∧ r = q) ∨ y ∈ held r := by
  by_cases hrp : r = p
  · subst hrp
    exact .inr (hp.mem_iff.mpr (List.mem_cons_of_mem x hy))
  by_cases hrq : r = q
  · subst hrq
    exact (List.mem_cons.mp (hq.mem_iff.mp hy)).imp_left fun hy => ⟨hy, rfl⟩
  · exact .inr ((hrest r hrp hrq).mem_iff.mp hy)

/-- A thing moves to another place. -/
theorem Exclusive.move (h : Exclusive held) : Exclusive held' := by
  have hxp : x ∈ held p := hp.mem_iff.mpr List.mem_cons_self
  have hgone : x ∉ held' p := (List.nodup_cons.mp (hp.nodup_iff.mp (h.nodup p))).1
  have honly : ∀ r, x ∈ held' r → r = q := by
    intro r hr
    rcases mem_of_move hne hp hq hrest hr with ⟨-, hrq⟩ | hr'
    · exact hrq
    · obtain rfl : r = p := h.apart r p x hr' hxp
      exact absurd hr hgone
  constructor
  · intro r
    by_cases hrp : r = p
    · subst hrp
      exact (List.nodup_cons.mp (hp.nodup_iff.mp (h.nodup r))).2
    by_cases hrq : r = q
    · subst hrq
      exact hq.nodup_iff.mpr (List.nodup_cons.mpr ⟨h.notMem hxp hrp, h.nodup r⟩)
    · exact (hrest r hrp hrq).nodup_iff.mpr (h.nodup r)
  · intro r r' y hr hr'
    by_cases hyx : y = x
    · subst hyx
      rw [honly r hr, honly r' hr']
    · have hold : ∀ s, y ∈ held' s → y ∈ held s := fun s hs =>
        (mem_of_move hne hp hq hrest hs).resolve_left fun hy => hyx hy.1
      exact h.apart r r' y (hold r hr) (hold r' hr')

theorem somewhere_of_move : Somewhere held' y ↔ Somewhere held y := by
  constructor
  · rintro ⟨r, hr⟩
    rcases mem_of_move hne hp hq hrest hr with ⟨rfl, -⟩ | hr'
    · exact ⟨p, hp.mem_iff.mpr List.mem_cons_self⟩
    · exact ⟨r, hr'⟩
  · rintro ⟨r, hr⟩
    by_cases hrp : r = p
    · subst hrp
      rcases List.mem_cons.mp (hp.mem_iff.mp hr) with rfl | hr'
      · exact ⟨q, hq.mem_iff.mpr List.mem_cons_self⟩
      · exact ⟨r, hr'⟩
    by_cases hrq : r = q
    · subst hrq
      exact ⟨r, hq.mem_iff.mpr (List.mem_cons_of_mem x hr)⟩
    · exact ⟨r, (hrest r hrp hrq).mem_iff.mpr hr⟩

end Move

end VxWorks.Lib
