import VxWorks.Ppp.Callout

/-!
# The times in the callout list

`ppp_timeout` and `ppp_untimeout` touch two distances each, the one of the entry and the
one of its neighbour, and in terms of the times that are meant they do no more than put
one entry in and take one out. So much holds of any list without negative distances.

The distances are kept as integers here and as `int` there. In a list that the program
has built this is the same: no entry is further away than the longest delay asked for
(`fits_run`), so nothing that is added up is larger than that.
-/

namespace VxWorks.Ppp

open VxWorks.Lib

variable {F A : Type}

theorem pppTimeout_callout (f : F) (a : A) (seconds : Nat) (s : Callouts F A) :
    (pppTimeout f a seconds s).callout =
      insertDelta seconds ⟨f, a, s.now + seconds⟩ s.callout := by
  rw [pppTimeout]
  split <;> split <;> rfl

variable [DecidableEq F] [DecidableEq A]

theorem pppUntimeout_callout (f : F) (a : A) (s : Callouts F A) :
    (pppUntimeout f a s).callout = removeDelta (Callout.is f a) s.callout := by
  rw [pppUntimeout]
  split <;> split <;> rfl

/-- The times that are meant, before and after. -/
theorem callout_times (s : Callouts F A) (hl : Ascending s.callout) (f : F) (a : A)
    (seconds : Nat) :
    (Ascending (pppTimeout f a seconds s).callout ∧
        ∃ before after c, c.is f a = true ∧ due 0 s.callout = before ++ after ∧
          due 0 (pppTimeout f a seconds s).callout = before ++ ((seconds : Int), c) :: after ∧
          ∀ x ∈ after, (seconds : Int) < x.1) ∧
      due 0 (pppUntimeout f a s).callout = (due 0 s.callout).eraseP fun x => x.2.is f a := by
  rw [pppTimeout_callout, pppUntimeout_callout]
  refine ⟨⟨hl.insertDelta (Int.natCast_nonneg seconds), ?_⟩, due_removeDelta 0 _ _⟩
  obtain ⟨before, after, hdue, hins, -, hafter⟩ :=
    due_insertDelta hl 0 seconds (⟨f, a, s.now + seconds⟩ : Callout F A)
  rw [Int.zero_add] at hins hafter
  exact ⟨before, after, _, decide_eq_true ⟨rfl, rfl⟩, hdue, hins, hafter⟩

/-- One callout five seconds away, and another asked for the same time. -/
theorem callout_times_five :
    ∃ before after c, c.is () () = true ∧
      due 0 [((5 : Int), (⟨(), (), 5⟩ : Callout Unit Unit))] = before ++ after ∧
      due 0 (pppTimeout () () 5 { Callouts.init 0 0 with
        callout := [((5 : Int), (⟨(), (), 5⟩ : Callout Unit Unit))] }).callout =
          before ++ (((5 : Nat) : Int), c) :: after ∧
      ∀ x ∈ after, ((5 : Nat) : Int) < x.1 :=
  (callout_times { Callouts.init 0 0 with
    callout := [((5 : Int), (⟨(), (), 5⟩ : Callout Unit Unit))] }
    (List.forall_mem_singleton.mpr (by decide)) () () 5).1.2

/-! ## The range of `int` -/

def maxInt : Int := 2147483647

/-- No distance is negative and no entry further away than an `int` can say. -/
structure Fits {α : Type} (l : List (Int × α)) : Prop where
  ascending : Ascending l
  last : ∀ x ∈ due 0 l, x.1 ≤ maxInt

/-- Delays are `int`s. -/
def asksInt : CalloutCall F A → Prop
  | .timeout _ _ seconds => (seconds : Int) ≤ maxInt
  | _ => True

theorem Fits.tail {α : Type} {x : Int × α} {l : List (Int × α)} (h : Fits (x :: l)) : Fits l := by
  obtain ⟨hx, hl⟩ := ascending_cons.mp h.ascending
  refine ⟨hl, ?_⟩
  intro y hy
  have hshift : (y.1 + x.1, y.2) ∈ due (0 + x.1) l := by
    rw [due_add]
    exact List.mem_map_of_mem hy
  have hle : y.1 + x.1 ≤ maxInt := h.last _ (List.mem_cons_of_mem _ hshift)
  omega

theorem Fits.dropWhile {α : Type} {l : List (Int × α)} (h : Fits l) (p : Int × α → Bool) :
    Fits (l.dropWhile p) := by
  induction l with
  | nil => exact h
  | cons x l ih =>
      rw [List.dropWhile_cons]
      split
      · exact ih h.tail
      · exact h

omit [DecidableEq F] [DecidableEq A] in
/-- The clock is set: every time is earlier by what has passed. -/
theorem fits_adjtimeout {s : Callouts F A} (h : Fits s.callout) : Fits (adjtimeout s).callout := by
  rw [adjtimeout]
  cases hl : s.callout with
  | nil => exact h
  | cons x l =>
      obtain ⟨t, c⟩ := x
      rw [hl] at h
      obtain ⟨ht, htail⟩ := ascending_cons.mp h.ascending
      simp only
      split
      · rw [hl]
        exact h
      · next hdiff =>
          have hpos : 0 ≤ t - (s.now - s.schedtime) := by omega
          refine ⟨ascending_cons.mpr ⟨hpos, htail⟩, ?_⟩
          intro x hx
          have hshift : (x.1 + (s.now - s.schedtime), x.2) ∈
              due (0 + (s.now - s.schedtime)) ((t - (s.now - s.schedtime), c) :: l) := by
            rw [due_add]
            exact List.mem_map_of_mem hx
          have heq : (0 : Int) + (s.now - s.schedtime) + (t - (s.now - s.schedtime)) = 0 + t := by
            omega
          rw [due, heq] at hshift
          have hle : x.1 + (s.now - s.schedtime) ≤ maxInt := h.last _ hshift
          omega

omit [DecidableEq F] [DecidableEq A] in
/-- The calls that are due are taken from the front. -/
theorem fits_alrm {s : Callouts F A} (h : Fits s.callout) : Fits (alrm s).callout := by
  rw [alrm]
  cases hl : s.callout with
  | nil => exact h
  | cons x l =>
      rw [hl] at h
      have hrest := h.tail.dropWhile fun y => y.1 == 0
      simp only
      split <;> exact hrest

theorem fits_step {s : Callouts F A} (h : Fits s.callout) {e : CalloutCall F A} (he : asksInt e) :
    Fits (calloutStep s e).callout := by
  cases e with
  | tick seconds => exact h
  | timeout f a seconds =>
      show Fits (pppTimeout f a seconds s).callout
      rw [pppTimeout_callout]
      refine ⟨h.ascending.insertDelta (Int.natCast_nonneg seconds), ?_⟩
      intro x hx
      rcases mem_due_insertDelta.mp hx with rfl | hx
      · rw [Int.zero_add]
        exact he
      · exact h.last x hx
  | untimeout f a =>
      show Fits (pppUntimeout f a s).callout
      rw [pppUntimeout_callout]
      exact ⟨h.ascending.removeDelta _, fun x hx => h.last x (mem_due_of_removeDelta hx)⟩
  | adjtimeout => exact fits_adjtimeout h
  | alrm =>
      rw [calloutStep]
      split
      · exact fits_alrm h
      · exact h
  | call =>
      rw [calloutStep]
      split <;> exact h

/-- Whatever is asked for and in whatever order, the times stay in range. -/
theorem fits_run (now schedtime : Int) {es : List (CalloutCall F A)} (hes : ∀ e ∈ es, asksInt e) :
    Always calloutStep (fun s => Fits s.callout) (Callouts.init now schedtime) es := by
  have hinit : Fits (Callouts.init now schedtime : Callouts F A).callout :=
    ⟨fun x hx => absurd hx List.not_mem_nil, fun x hx => absurd hx List.not_mem_nil⟩
  have hasks : Guarded calloutStep (fun _ e => asksInt e) (Callouts.init now schedtime) es :=
    fun pre e hpre =>
      hes e (hpre.subset (List.mem_append_right pre (List.mem_singleton.mpr rfl)))
  exact always_of_guarded (fun s => Fits s.callout) hinit (fun s e h he => fits_step h he) hasks

end VxWorks.Ppp
