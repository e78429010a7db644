import Mathlib.Data.List.TakeWhile
import VxWorks.Lib.Delta
import VxWorks.Lib.Run

/-!
# Callouts (`pppLib.c`)

The restart timers of the automata and the timers of CHAP and of the echo
requests share one alarm. The callouts that wait for it are a delta list, the
distances counted from `schedtime`, and every function that changes the first
callout arms the alarm anew and sets `schedtime` to the clock.

The clock is an integer that only `tick` moves, and the alarm is the time it
goes off at, if it is armed; a delay of zero disarms it, as it does in
`timer_settime`. `alrm` runs when that time has come and no earlier `alrm` is
still at work. It takes the expired callouts off the list at once and calls them
one by one, and what they do in turn is to schedule and cancel: so `call` is a
step of its own, and whatever happens between two of them is what the first
function called did.

Two things are kept for the sake of the statements: the deadline a callout was
scheduled with, and a record of what was scheduled, cancelled and called.
-/

namespace VxWorks.Ppp

open VxWorks.Lib

/-- `struct callout`, less `c_time`, with the time it should be called at. -/
structure Callout (F A : Type) where
  cFunc : F
  cArg : A
  deadline : Int
deriving DecidableEq, Repr

/-- What was done about a function and its argument. -/
inductive CalloutWord (F A : Type) where
  | scheduled (f : F) (a : A)
  /-- `ppp_untimeout` was called with at most one such callout outstanding. -/
  | cancelled (f : F) (a : A)
  | called (c : Callout F A) (time : Int)
deriving DecidableEq, Repr

structure Callouts (F A : Type) where
  callout : List (Int × Callout F A)
  schedtime : Int
  /-- When the alarm goes off. -/
  alarm : Option Int
  now : Int
  /-- What the `alrm` at work has yet to call. -/
  list : List (Callout F A)
  log : List (CalloutWord F A)

variable {F A : Type}

section

variable [DecidableEq F] [DecidableEq A]

def Callout.is (f : F) (a : A) (c : Callout F A) : Bool := decide (c.cFunc = f ∧ c.cArg = a)

/-- `timer_settime` for the first callout, and `schedtime` set to the clock. -/
def settime (seconds : Int) (s : Callouts F A) : Callouts F A :=
  { s with
    alarm := if seconds = 0 then none else some (s.now + seconds)
    schedtime := s.now }

/-- `ppp_timeout`. -/
def pppTimeout (f : F) (a : A) (seconds : Nat) (s : Callouts F A) : Callouts F A :=
  let c : Callout F A := ⟨f, a, s.now + seconds⟩
  let first := match s.callout with
    | [] => true
    | (t, _) :: _ => !decide (t ≤ (seconds : Int))
  let s := { s with
    callout := insertDelta seconds c s.callout
    log := .scheduled f a :: s.log }
  if first then settime seconds s else s

/-- The callouts with this function and argument that have not been called. -/
def outstanding (f : F) (a : A) (s : Callouts F A) : Nat :=
  (s.callout.map Prod.snd ++ s.list).countP (Callout.is f a)

/-- `ppp_untimeout`. -/
def pppUntimeout (f : F) (a : A) (s : Callouts F A) : Callouts F A :=
  let reschedule := match s.callout with
    | [] => false
    | (_, c) :: _ => c.is f a
  let s := { s with
    callout := removeDelta (Callout.is f a) s.callout
    log := if outstanding f a s ≤ 1 then .cancelled f a :: s.log else s.log }
  if reschedule then
    settime (match s.callout with | [] => 0 | (t, _) :: _ => t) s
  else s

/-- `adjtimeout`. -/
def adjtimeout (s : Callouts F A) : Callouts F A :=
  match s.callout with
  | [] => s
  | (t, c) :: l =>
      let timediff := s.now - s.schedtime
      if timediff < 0 ∨ t ≤ timediff then s
      else { s with callout := (t - timediff, c) :: l }

/-- `alrm` up to the calls: the first callout and those due at the same time
come off the list. -/
def alrm (s : Callouts F A) : Callouts F A :=
  match s.callout with
  | [] => s
  | (_, c) :: l =>
      let rest := l.dropWhile (fun x => x.1 == 0)
      let s := { s with
        callout := rest
        list := c :: (l.takeWhile (fun x => x.1 == 0)).map Prod.snd }
      match rest with
      | [] => s
      | (t, _) :: _ => settime t s

inductive CalloutCall (F A : Type) where
  | tick (seconds : Nat)
  | timeout (f : F) (a : A) (seconds : Nat)
  | untimeout (f : F) (a : A)
  | adjtimeout
  | alrm
  | call
deriving DecidableEq, Repr

/-- The alarm has gone off, and nothing keeps `alrm` from running. -/
def ringing (s : Callouts F A) : Bool :=
  match s.alarm with
  | none => false
  | some t => decide (t ≤ s.now) && s.list.isEmpty

def calloutStep (s : Callouts F A) : CalloutCall F A → Callouts F A
  | .tick seconds => { s with now := s.now + seconds }
  | .timeout f a seconds => pppTimeout f a seconds s
  | .untimeout f a => pppUntimeout f a s
  | .adjtimeout => adjtimeout s
  | .alrm => if ringing s then alrm { s with alarm := none } else s
  | .call =>
      match s.list with
      | [] => s
      | c :: l => { s with list := l, log := .called c s.now :: s.log }

end

/-- Nothing scheduled and nothing armed. -/
def Callouts.init (now schedtime : Int) : Callouts F A :=
  { callout := [], schedtime := schedtime, alarm := none, now := now, list := [], log := [] }

/-! ## Deadlines -/

/-- What the list says, what was called, and the alarm, at one moment. A callout
is due, counting from `schedtime`, at its deadline, or both are past. -/
structure OnTime (s : Callouts F A) : Prop where
  accurate : ∀ x ∈ due s.schedtime s.callout,
    x.1 = x.2.deadline ∨ x.2.deadline ≤ s.now ∧ x.1 ≤ s.now
  notEarly : ∀ c t, CalloutWord.called c t ∈ s.log → c.deadline ≤ t
  armed : ∀ x ∈ s.callout.head?, ∃ t ∈ s.alarm, t ≤ s.schedtime + x.1

/-- Where the distances still count from the present. -/
def fresh (s : Callouts F A) : Prop := s.now = s.schedtime

/-- The steps that keep the list on time. -/
def punctual [DecidableEq F] [DecidableEq A] (s : Callouts F A) : CalloutCall F A → Prop
  | .tick _ | .call => True
  | .timeout _ _ seconds => 0 < seconds ∧ (s.callout = [] ∨ fresh s)
  | .untimeout f a =>
      ∀ x ∈ s.callout.head?, x.2.is f a = true → s.callout.tail = [] ∨ fresh s
  | .adjtimeout => ∀ x ∈ s.callout.head?, fresh s ∨ s.schedtime + x.1 ≤ s.now
  | .alrm =>
      ∀ x ∈ s.callout.head?, ringing s = true →
        (s.callout.tail.all fun y => y.1 == 0) = true ∨ s.now = s.schedtime + x.1

/-- What carries the induction: the alarm is set for the first callout exactly,
and what is being called was due. -/
structure Punctual (s : Callouts F A) : Prop where
  accurate : ∀ x ∈ due s.schedtime s.callout,
    x.1 = x.2.deadline ∨ x.2.deadline ≤ s.now ∧ x.1 ≤ s.now
  notEarly : ∀ c t, CalloutWord.called c t ∈ s.log → c.deadline ≤ t
  armed : ∀ x ∈ s.callout.head?, 0 < x.1 ∧ s.alarm = some (s.schedtime + x.1)
  ascending : Ascending s.callout
  past : s.callout ≠ [] → s.schedtime ≤ s.now
  running : ∀ c ∈ s.list, c.deadline ≤ s.now

theorem Punctual.onTime {s : Callouts F A} (h : Punctual s) : OnTime s := by
  refine ⟨h.accurate, h.notEarly, ?_⟩
  intro x hx
  exact ⟨_, (h.armed x hx).2, le_refl _⟩

theorem Punctual.init (now schedtime : Int) :
    Punctual (Callouts.init now schedtime : Callouts F A) := by
  constructor <;> simp [Callouts.init, due, Ascending]

section

variable {s : Callouts F A}

/-- The alarm has just been set for the first callout. -/
theorem punctual_settime {d : Int} {c : Callout F A} {l : List (Int × Callout F A)}
    (hl : s.callout = (d, c) :: l) (hd : 0 < d) (hasc : Ascending s.callout)
    (hdue : ∀ x ∈ due s.now s.callout,
      x.1 = x.2.deadline ∨ x.2.deadline ≤ s.now ∧ x.1 ≤ s.now)
    (hlog : ∀ c t, CalloutWord.called c t ∈ s.log → c.deadline ≤ t)
    (hrun : ∀ c ∈ s.list, c.deadline ≤ s.now) : Punctual (settime d s) := by
  refine ⟨hdue, hlog, ?_, hasc, fun _ => le_refl _, hrun⟩
  intro x hx
  obtain rfl : (d, c) = x := by simpa [settime, hl] using hx
  refine ⟨hd, ?_⟩
  simp [settime, hd.ne']

/-- Without callouts there is nothing to be late for. -/
theorem punctual_nil (hl : s.callout = [])
    (hlog : ∀ c t, CalloutWord.called c t ∈ s.log → c.deadline ≤ t)
    (hrun : ∀ c ∈ s.list, c.deadline ≤ s.now) : Punctual s := by
  refine ⟨?_, hlog, ?_, ?_, ?_, hrun⟩ <;> simp [hl, due, Ascending]

theorem punctual_tick (h : Punctual s) (n : Nat) : Punctual { s with now := s.now + n } := by
  refine ⟨?_, h.notEarly, h.armed, h.ascending, ?_, ?_⟩
  · intro x hx
    rcases h.accurate x hx with hx | ⟨hd, ht⟩
    · exact .inl hx
    · refine .inr ⟨?_, ?_⟩ <;> show _ ≤ s.now + (n : Int) <;> omega
  · intro hne
    have := h.past hne
    show s.schedtime ≤ s.now + (n : Int)
    omega
  · intro c hc
    have := h.running c hc
    show c.deadline ≤ s.now + (n : Int)
    omega

theorem punctual_timeout (h : Punctual s) {f : F} {a : A} {n : Nat} (hn : 0 < n)
    (hf : s.callout = [] ∨ fresh s) : Punctual (pppTimeout f a n s) := by
  have hlog : ∀ c t, CalloutWord.called c t ∈ CalloutWord.scheduled f a :: s.log →
      c.deadline ≤ t := by
    intro c t hc
    exact h.notEarly c t (by simpa using hc)
  have hasc : Ascending (insertDelta n ⟨f, a, s.now + n⟩ s.callout) :=
    h.ascending.insertDelta (by omega)
  -- the distances count from the present, so the new one is right among them
  have hdue : ∀ x ∈ due s.now (insertDelta n (⟨f, a, s.now + n⟩ : Callout F A) s.callout),
      x.1 = x.2.deadline ∨ x.2.deadline ≤ s.now ∧ x.1 ≤ s.now := by
    intro x hx
    rcases mem_due_insertDelta.mp hx with rfl | hx
    · exact .inl rfl
    · rcases hf with hf | hf
      · rw [hf] at hx; cases hx
      · rw [fresh] at hf
        rw [hf] at hx
        exact h.accurate x hx
  cases hc : s.callout with
  | nil =>
      rw [hc] at hasc hdue
      simp only [pppTimeout, hc, if_true]
      exact punctual_settime rfl (by omega) hasc hdue hlog h.running
  | cons x l =>
      obtain ⟨t, c⟩ := x
      have hfr : s.now = s.schedtime := by
        rcases hf with hf | hf
        · rw [hc] at hf; cases hf
        · exact hf
      rw [hc] at hasc hdue
      by_cases ht : t ≤ (n : Int)
      · simp only [pppTimeout, hc, ht, decide_true, Bool.not_true, Bool.false_eq_true, if_false]
        rw [hfr] at hdue
        have harm := h.armed (t, c) (by simp [hc])
        refine ⟨?_, hlog, ?_, hasc, fun _ => le_of_eq hfr.symm, h.running⟩
        · intro x hx
          rw [hfr] at hx ⊢
          exact hdue x hx
        · intro x hx
          rw [insertDelta, if_pos ht] at hx
          obtain rfl : (t, c) = x := by simpa using hx
          exact harm
      · simp only [pppTimeout, hc, ht, decide_false, Bool.not_false, if_true]
        have hins : insertDelta n (⟨f, a, s.now + n⟩ : Callout F A) ((t, c) :: l) =
            ((n : Int), ⟨f, a, s.now + n⟩) :: (t - n, c) :: l := by
          rw [insertDelta, if_neg ht]
        exact punctual_settime hins (by omega) hasc hdue hlog h.running

theorem punctual_adjtimeout (h : Punctual s)
    (hf : ∀ x ∈ s.callout.head?, fresh s ∨ s.schedtime + x.1 ≤ s.now) :
    Punctual (adjtimeout s) := by
  cases hc : s.callout with
  | nil => simpa only [adjtimeout, hc] using h
  | cons x l =>
      obtain ⟨t, c⟩ := x
      simp only [adjtimeout, hc]
      split
      · exact h
      · next hd =>
          have hfr : s.now = s.schedtime := by
            rcases hf (t, c) (by simp [hc]) with hf | hf
            · exact hf
            · omega
          have ht : t - (s.now - s.schedtime) = t := by omega
          rw [ht, ← hc]
          exact h

theorem punctual_alrm (h : Punctual s) (hr : ringing s = true)
    (hf : ∀ x ∈ s.callout.head?, ringing s = true →
      (s.callout.tail.all fun y => y.1 == 0) = true ∨ s.now = s.schedtime + x.1) :
    Punctual (alrm { s with alarm := none }) := by
  cases hc : s.callout with
  | nil =>
      simp only [alrm]
      exact punctual_nil rfl h.notEarly h.running
  | cons x l =>
      obtain ⟨t, c⟩ := x
      have harm := h.armed (t, c) (by simp [hc])
      have hnow : s.schedtime + t ≤ s.now := by
        simp only [ringing, harm.2, Bool.and_eq_true, decide_eq_true_eq] at hr
        exact hr.1
      have hacc : ∀ x ∈ due s.schedtime ((t, c) :: l),
          x.1 = x.2.deadline ∨ x.2.deadline ≤ s.now ∧ x.1 ≤ s.now := by
        rw [← hc]; exact h.accurate
      -- what comes off is due, all of it at the same time
      have hrun : ∀ b ∈ c :: (l.takeWhile fun x => x.1 == 0).map Prod.snd,
          b.deadline ≤ s.now := by
        intro b hb
        have hm : (s.schedtime + t, b) ∈ due s.schedtime ((t, c) :: l) := by
          rcases List.mem_cons.mp hb with rfl | hb
          · exact List.mem_cons_self
          · obtain ⟨y, hy, rfl⟩ := List.mem_map.mp hb
            exact List.mem_cons_of_mem _ (mem_due_takeWhile hy)
        rcases hacc _ hm with he | he
        · show b.deadline ≤ s.now
          rw [← show s.schedtime + t = b.deadline from he]
          exact hnow
        · exact he.1
      simp only [alrm]
      cases hrest : l.dropWhile fun x => x.1 == 0 with
      | nil => exact punctual_nil rfl h.notEarly hrun
      | cons y r =>
          have hnot : ¬ (l.all fun y => y.1 == 0) = true := by
            intro hall
            have hd : (l.dropWhile fun x => x.1 == 0) = [] := by
              rw [List.dropWhile_eq_nil_iff]
              exact List.all_eq_true.mp hall
            rw [hd] at hrest
            cases hrest
          have hon : s.now = s.schedtime + t := by
            rcases hf (t, c) (by simp [hc]) hr with hall | hon
            · rw [hc] at hall
              exact absurd hall hnot
            · exact hon
          have hasc : Ascending (y :: r) := by
            rw [← hrest]
            intro z hz
            refine h.ascending z ?_
            rw [hc]
            exact List.mem_cons_of_mem _ ((List.dropWhile_sublist _).subset hz)
          have hpos : 0 < y.1 := by
            have hne : ¬ (y.1 == 0) = true := by
              have := List.head_dropWhile_not (fun x : Int × Callout F A => x.1 == 0) (l := l)
                (by rw [hrest]; simp)
              simpa [hrest] using this
            have h0 := hasc y List.mem_cons_self
            have h1 : y.1 ≠ 0 := by simpa using hne
            omega
          refine punctual_settime (c := y.2) (l := r) rfl hpos hasc ?_ h.notEarly hrun
          intro x hx
          refine hacc x (List.mem_cons_of_mem _ (mem_due_of_dropWhile ?_))
          rw [hrest, ← hon]
          exact hx

theorem punctual_call (h : Punctual s) {c : Callout F A} {l : List (Callout F A)}
    (hl : s.list = c :: l) :
    Punctual { s with list := l, log := .called c s.now :: s.log } := by
  refine ⟨h.accurate, ?_, h.armed, h.ascending, h.past, ?_⟩
  · intro b t hb
    rcases List.mem_cons.mp hb with he | hb
    · obtain ⟨rfl, rfl⟩ : b = c ∧ t = s.now := by simpa using he
      exact h.running b (by simp [hl])
    · exact h.notEarly b t hb
  · intro b hb
    exact h.running b (by simp [hl, hb])

/-! Outside these steps the list is wrong at once. In each case it is the first
callout of the new list that shows it. -/

theorem late_timeout (h : Punctual s) {f : F} {a : A} {n : Nat}
    (hn : ¬ (0 < n ∧ (s.callout = [] ∨ fresh s))) : ¬ OnTime (pppTimeout f a n s) := by
  intro hp
  cases hc : s.callout with
  | nil =>
      -- a delay of zero disarms the alarm
      obtain rfl : n = 0 := by
        by_contra h0
        exact hn ⟨by omega, .inl hc⟩
      have harm := hp.armed ((0 : Int), ⟨f, a, s.now + (0 : Nat)⟩) (by
        simp [pppTimeout, hc, insertDelta, settime])
      simp [pppTimeout, hc, settime] at harm
  | cons x l =>
      obtain ⟨t, c⟩ := x
      have ht0 := (h.armed (t, c) (by simp [hc])).1
      have hpast := h.past (by simp [hc])
      have hpos : s.schedtime + t = c.deadline ∨ c.deadline ≤ s.now ∧ s.schedtime + t ≤ s.now :=
        h.accurate (s.schedtime + t, c) (by rw [hc]; exact List.mem_cons_self)
      by_cases ht : t ≤ (n : Int)
      · -- the new callout counts from `schedtime` but was meant from now
        have hne : s.now ≠ s.schedtime := by
          intro he
          exact hn ⟨by omega, .inr he⟩
        have hm : (s.schedtime + n, (⟨f, a, s.now + n⟩ : Callout F A)) ∈
            due (pppTimeout f a n s).schedtime (pppTimeout f a n s).callout := by
          simp only [pppTimeout, hc, ht, decide_true, Bool.not_true, Bool.false_eq_true, if_false]
          exact mem_due_insertDelta.mpr (.inl rfl)
        have hnow : (pppTimeout f a n s).now = s.now := by
          simp [pppTimeout, hc, ht]
        rcases hp.accurate _ hm with he | he
        · exact hne (by have : s.schedtime + (n : Int) = s.now + n := he; omega)
        · have : s.now + (n : Int) ≤ s.now := by rw [← hnow]; exact hnow ▸ he.1
          omega
      · have hins : (pppTimeout f a n s).callout =
            ((n : Int), ⟨f, a, s.now + n⟩) :: (t - n, c) :: l := by
          simp [pppTimeout, hc, ht, insertDelta, settime]
        by_cases h0 : n = 0
        · subst h0
          have harm := hp.armed _ (by rw [hins]; rfl)
          have hal : (pppTimeout f a 0 s).alarm = none := by
            simp only [pppTimeout, hc, ht, decide_false, Bool.not_false, if_true, settime]
            simp
          rw [hal] at harm
          simp at harm
        · -- what was first counts from now but was meant from `schedtime`
          have hne : s.now ≠ s.schedtime := by
            intro he
            exact hn ⟨by omega, .inr he⟩
          have hs : (pppTimeout f a n s).schedtime = s.now := by
            simp [pppTimeout, hc, ht, settime]
          have hnow : (pppTimeout f a n s).now = s.now := by
            simp [pppTimeout, hc, ht, settime]
          have hacc := hp.accurate (s.now + n + (t - n), c) (by
            rw [hins, hs]
            exact List.mem_cons_of_mem _ List.mem_cons_self)
          rw [hnow] at hacc
          rcases hacc with he | he
          · have he : s.now + (n : Int) + (t - n) = c.deadline := he
            omega
          · have he : s.now + (n : Int) + (t - n) ≤ s.now := he.2
            omega

theorem late_adjtimeout (h : Punctual s)
    (hn : ¬ ∀ x ∈ s.callout.head?, fresh s ∨ s.schedtime + x.1 ≤ s.now) :
    ¬ OnTime (adjtimeout s) := by
  intro hp
  push Not at hn
  obtain ⟨⟨t, c⟩, hx, hne, hlt⟩ := hn
  have hne' : s.now ≠ s.schedtime := hne
  have hlt' : s.now < s.schedtime + t := hlt
  cases hc : s.callout with
  | nil => rw [hc] at hx; cases hx
  | cons x l =>
      rw [hc] at hx
      obtain rfl : x = (t, c) := by simpa using hx
      have hpast := h.past (by simp [hc])
      have hpos : s.schedtime + t = c.deadline ∨ c.deadline ≤ s.now ∧ s.schedtime + t ≤ s.now :=
        h.accurate (s.schedtime + t, c) (by rw [hc]; exact List.mem_cons_self)
      have hadj : adjtimeout s =
          { s with callout := (t - (s.now - s.schedtime), c) :: l } := by
        simp only [adjtimeout, hc]
        rw [if_neg (by omega)]
      rw [hadj] at hp
      have hacc := hp.accurate (s.schedtime + (t - (s.now - s.schedtime)), c) List.mem_cons_self
      rcases hacc with he | he
      · have he : s.schedtime + (t - (s.now - s.schedtime)) = c.deadline := he
        omega
      · have he : c.deadline ≤ s.now := he.1
        omega

theorem late_alrm (h : Punctual s) (hr : ringing s = true)
    (hn : ¬ ∀ x ∈ s.callout.head?, ringing s = true →
      (s.callout.tail.all fun y => y.1 == 0) = true ∨ s.now = s.schedtime + x.1) :
    ¬ OnTime (alrm { s with alarm := none }) := by
  intro hp
  push Not at hn
  obtain ⟨⟨t, c⟩, hx, -, hall, hne⟩ := hn
  cases hc : s.callout with
  | nil => rw [hc] at hx; cases hx
  | cons x l =>
      rw [hc] at hx hall
      obtain rfl : x = (t, c) := by simpa using hx
      have harm := h.armed (t, c) (by simp [hc])
      have hnow : s.schedtime + t ≤ s.now := by
        simp only [ringing, harm.2, Bool.and_eq_true, decide_eq_true_eq] at hr
        exact hr.1
      have hne' : s.now ≠ s.schedtime + t := hne
      cases hrest : l.dropWhile fun x => x.1 == 0 with
      | nil =>
          refine hall (List.all_eq_true.mpr ?_)
          exact List.dropWhile_eq_nil_iff.mp hrest
      | cons y r =>
          obtain ⟨u, b⟩ := y
          have hmem : (u, b) ∈ l :=
            (List.dropWhile_sublist _).subset (by rw [hrest]; exact List.mem_cons_self)
          have hu : 0 < u := by
            have h0 : 0 ≤ u := h.ascending (u, b) (by rw [hc]; exact List.mem_cons_of_mem _ hmem)
            have h1 := List.head_dropWhile_not (fun x : Int × Callout F A => x.1 == 0) (l := l)
              (by rw [hrest]; simp)
            simp only [hrest, List.head_cons, beq_eq_false_iff_ne] at h1
            omega
          have hpos : s.schedtime + t + u = b.deadline ∨
              b.deadline ≤ s.now ∧ s.schedtime + t + u ≤ s.now :=
            h.accurate (s.schedtime + t + u, b) (by
              rw [hc]
              refine List.mem_cons_of_mem _ (mem_due_of_dropWhile ?_)
              rw [hrest]
              exact List.mem_cons_self)
          simp only [alrm, hc, hrest] at hp
          rcases hp.accurate (s.now + u, b) List.mem_cons_self with he | he
          · have he : s.now + u = b.deadline := he
            omega
          · have he : s.now + u ≤ s.now := he.2
            omega

section

variable [DecidableEq F] [DecidableEq A]

theorem punctual_untimeout (h : Punctual s) {f : F} {a : A}
    (hf : ∀ x ∈ s.callout.head?, x.2.is f a = true → s.callout.tail = [] ∨ fresh s) :
    Punctual (pppUntimeout f a s) := by
  have hlog : ∀ c t, CalloutWord.called c t ∈
      (if outstanding f a s ≤ 1 then .cancelled f a :: s.log else s.log) → c.deadline ≤ t := by
    intro c t hc
    split at hc
    · exact h.notEarly c t (by simpa using hc)
    · exact h.notEarly c t hc
  have hasc : Ascending (removeDelta (Callout.is f a) s.callout) := h.ascending.removeDelta _
  cases hc : s.callout with
  | nil =>
      simp only [pppUntimeout, hc, Bool.false_eq_true, if_false]
      exact punctual_nil rfl hlog h.running
  | cons x l =>
      obtain ⟨t, c⟩ := x
      have harm := h.armed (t, c) (by simp [hc])
      cases his : c.is f a with
      | true =>
          have hrem : removeDelta (Callout.is f a) ((t, c) :: l) = addFront t l := by
            rw [removeDelta, if_pos his]
          rw [hc, hrem] at hasc
          simp only [pppUntimeout, hc, his, if_true, hrem]
          cases l with
          | nil => exact punctual_nil rfl hlog h.running
          | cons y l =>
              have hfr : s.now = s.schedtime := by
                rcases hf (t, c) (by simp [hc]) his with hf | hf
                · rw [hc] at hf; cases hf
                · exact hf
              have hy : 0 ≤ y.1 := h.ascending y (by simp [hc])
              refine punctual_settime (c := y.2) (l := l) rfl ?_ hasc ?_ hlog h.running
              · show 0 < y.1 + t
                have := harm.1
                omega
              · intro x hx
                rw [due_addFront, hfr] at hx
                refine h.accurate x ?_
                rw [hc]
                exact List.mem_cons_of_mem _ hx
      | false =>
          have hrem : removeDelta (Callout.is f a) ((t, c) :: l) =
              (t, c) :: removeDelta (Callout.is f a) l := by
            rw [removeDelta, if_neg (by rw [his]; simp)]
          simp only [pppUntimeout, hc, his, Bool.false_eq_true, if_false]
          refine ⟨?_, hlog, ?_, by rw [← hc]; exact hasc, fun _ => h.past (by simp [hc]),
            h.running⟩
          · intro x hx
            rw [← hc] at hx
            exact h.accurate x (mem_due_of_removeDelta hx)
          · intro x hx
            rw [hrem] at hx
            obtain rfl : (t, c) = x := by simpa using hx
            exact harm

theorem punctual_step (h : Punctual s) {e : CalloutCall F A} (he : punctual s e) :
    Punctual (calloutStep s e) := by
  cases e with
  | tick n => exact punctual_tick h n
  | timeout f a n => exact punctual_timeout h he.1 he.2
  | untimeout f a => exact punctual_untimeout h he
  | adjtimeout => exact punctual_adjtimeout h he
  | alrm =>
      rw [calloutStep]
      split
      · next hr => exact punctual_alrm h hr he
      · exact h
  | call =>
      rw [calloutStep]
      split
      · exact h
      · next c l hl => exact punctual_call h hl

theorem late_untimeout (h : Punctual s) {f : F} {a : A}
    (hn : ¬ ∀ x ∈ s.callout.head?, x.2.is f a = true → s.callout.tail = [] ∨ fresh s) :
    ¬ OnTime (pppUntimeout f a s) := by
  intro hp
  push Not at hn
  obtain ⟨⟨t, c⟩, hx, his, htail, hne⟩ := hn
  cases hc : s.callout with
  | nil => rw [hc] at hx; cases hx
  | cons x l =>
      rw [hc] at hx htail
      obtain rfl : x = (t, c) := by simpa using hx
      cases l with
      | nil => exact htail rfl
      | cons y l =>
          obtain ⟨u, b⟩ := y
          have ht0 := (h.armed (t, c) (by simp [hc])).1
          have hu0 : 0 ≤ u := h.ascending (u, b) (by simp [hc])
          have hpast := h.past (by simp [hc])
          have hne' : s.now ≠ s.schedtime := hne
          have hpos : s.schedtime + t + u = b.deadline ∨
              b.deadline ≤ s.now ∧ s.schedtime + t + u ≤ s.now :=
            h.accurate (s.schedtime + t + u, b) (by
              rw [hc]; exact List.mem_cons_of_mem _ List.mem_cons_self)
          have his' : c.is f a = true := his
          have hl : (pppUntimeout f a s).callout = (u + t, b) :: l := by
            simp [pppUntimeout, hc, removeDelta, his', addFront, settime]
          have hs : (pppUntimeout f a s).schedtime = s.now := by
            simp [pppUntimeout, hc, his', settime]
          have hnow : (pppUntimeout f a s).now = s.now := by
            simp [pppUntimeout, hc, his', settime]
          have hacc := hp.accurate (s.now + (u + t), b) (by
            rw [hl, hs]
            exact List.mem_cons_self)
          rw [hnow] at hacc
          rcases hacc with he | he
          · have he : s.now + (u + t) = b.deadline := he
            omega
          · have he : s.now + (u + t) ≤ s.now := he.2
            omega

theorem late_step (h : Punctual s) {e : CalloutCall F A} (he : ¬ punctual s e) :
    ¬ OnTime (calloutStep s e) := by
  cases e with
  | tick n => exact absurd trivial he
  | timeout f a n => exact late_timeout h he
  | untimeout f a => exact late_untimeout h he
  | adjtimeout => exact late_adjtimeout h he
  | alrm =>
      have hr : ringing s = true := by
        by_contra hr
        exact he fun _ _ hr' => absurd hr' hr
      rw [calloutStep, if_pos hr]
      exact late_alrm h hr he
  | call => exact absurd trivial he

end

end

section

variable [DecidableEq F] [DecidableEq A]

/-- The list is on time all along a run just when every step finds it fresh, or
has nothing to do with where the distances count from. -/
theorem onTime_iff_punctual (now schedtime : Int) (es : List (CalloutCall F A)) :
    Always calloutStep OnTime (Callouts.init now schedtime) es ↔
      Guarded calloutStep punctual (Callouts.init now schedtime) es :=
  always_iff_guarded Punctual (fun _ _ => True) (.init now schedtime) (fun _ h => h.onTime)
    (fun _ _ h _ he => punctual_step h he) (fun _ _ h _ he => late_step h he)
    (fun _ _ _ => trivial)

end

/-- Ten seconds are asked for; three seconds later, and again a second after
that, `adjtimeout` takes off the time that has passed since the start. Six
seconds are left, and the list says three, less the four that have passed. -/
theorem onTime_fails :
    ¬ Always calloutStep OnTime (Callouts.init 0 0 : Callouts Unit Unit)
        [.timeout () () 10, .tick 3, .adjtimeout, .tick 1, .adjtimeout] := by
  intro h
  have hp := h _ (List.prefix_refl _)
  have hm : ((3 : Int), (⟨(), (), 10⟩ : Callout Unit Unit)) ∈
      due 0 [((3 : Int), (⟨(), (), 10⟩ : Callout Unit Unit))] := by decide
  rcases hp.accurate _ hm with he | he
  · revert he; decide
  · revert he; decide

/-! ## Cancelling -/

section

variable [DecidableEq F] [DecidableEq A]

/-- The last word about the function and the argument is not that they were
cancelled. -/
@[simp] def standing (f : F) (a : A) : List (CalloutWord F A) → Bool
  | [] => true
  | .scheduled g b :: l => decide (g = f ∧ b = a) || standing f a l
  | .cancelled g b :: l => !decide (g = f ∧ b = a) && standing f a l
  | .called _ _ :: l => standing f a l

/-- Whatever was called had not been cancelled, or had been scheduled again. -/
@[simp] def kept : List (CalloutWord F A) → Prop
  | [] => True
  | .called c _ :: l => standing c.cFunc c.cArg l = true ∧ kept l
  | _ :: l => kept l

/-- What is cancelled is on no list. -/
structure Kept (s : Callouts F A) : Prop where
  log : kept s.log
  waiting : ∀ c ∈ s.callout.map Prod.snd, standing c.cFunc c.cArg s.log = true
  running : ∀ c ∈ s.list, standing c.cFunc c.cArg s.log = true

/-- Cancelling a callout that `alrm` has not taken off the list yet. -/
def inTime (s : Callouts F A) : CalloutCall F A → Prop
  | .untimeout f a => outstanding f a s ≤ 1 → ∀ c ∈ s.list, c.is f a = false
  | _ => True

variable {s : Callouts F A}

/-- Arming the alarm has nothing to do with it. -/
theorem kept_settime (h : Kept s) (d : Int) : Kept (settime d s) := ⟨h.log, h.waiting, h.running⟩

theorem kept_if_settime (h : Kept s) (b : Bool) (d : Int) :
    Kept (if b = true then settime d s else s) := by
  split
  · exact kept_settime h d
  · exact h

theorem kept_timeout (h : Kept s) (f : F) (a : A) (n : Nat) : Kept (pppTimeout f a n s) := by
  have hs : Kept { s with
      callout := insertDelta n ⟨f, a, s.now + n⟩ s.callout
      log := .scheduled f a :: s.log } := by
    refine ⟨h.log, ?_, ?_⟩
    · intro c hc
      rcases List.mem_cons.mp (map_insertDelta_perm.subset hc) with rfl | hc
      · simp
      · simp [h.waiting c hc]
    · intro c hc
      simp [h.running c hc]
  exact kept_if_settime hs _ _

/-- With at most one left to be called, and that one not at work, taking the
first one off the list takes them all off. -/
theorem not_is_of_eraseP {f : F} {a : A} (h1 : outstanding f a s ≤ 1) {c : Callout F A}
    (hc : c ∈ (s.callout.map Prod.snd).eraseP (Callout.is f a)) : c.is f a = false := by
  by_contra hne
  have his : c.is f a = true := by simpa using hne
  have hcount : (s.callout.map Prod.snd).countP (Callout.is f a) ≤ 1 := by
    have := h1
    rw [outstanding, List.countP_append] at this
    omega
  have hmem := List.mem_of_mem_eraseP hc
  have hpos : 0 < ((s.callout.map Prod.snd).eraseP (Callout.is f a)).countP (Callout.is f a) :=
    List.countP_pos_iff.mpr ⟨c, hc, his⟩
  obtain ⟨b, l₁, l₂, _, hb, hsplit, herase⟩ := List.exists_of_eraseP hmem his
  rw [herase, List.countP_append] at hpos
  rw [hsplit, List.countP_append, List.countP_cons_of_pos hb] at hcount
  omega

theorem kept_untimeout (h : Kept s) {f : F} {a : A}
    (hf : outstanding f a s ≤ 1 → ∀ c ∈ s.list, c.is f a = false) :
    Kept (pppUntimeout f a s) := by
  have hs : Kept { s with
      callout := removeDelta (Callout.is f a) s.callout
      log := if outstanding f a s ≤ 1 then .cancelled f a :: s.log else s.log } := by
    by_cases h1 : outstanding f a s ≤ 1
    · simp only [h1, if_true]
      refine ⟨h.log, ?_, ?_⟩
      · intro c hc
        rw [map_removeDelta] at hc
        have hne := not_is_of_eraseP h1 hc
        have hst := h.waiting c (List.mem_of_mem_eraseP hc)
        simp only [Callout.is, decide_eq_false_iff_not] at hne
        simp [hst]
        tauto
      · intro c hc
        have hne := hf h1 c hc
        have hst := h.running c hc
        simp only [Callout.is, decide_eq_false_iff_not] at hne
        simp [hst]
        tauto
    · simp only [h1, if_false]
      refine ⟨h.log, ?_, h.running⟩
      intro c hc
      rw [map_removeDelta] at hc
      exact h.waiting c (List.mem_of_mem_eraseP hc)
  exact kept_if_settime hs _ _

theorem kept_adjtimeout (h : Kept s) : Kept (adjtimeout s) := by
  cases hc : s.callout with
  | nil => simpa only [adjtimeout, hc] using h
  | cons x l =>
      simp only [adjtimeout, hc]
      split
      · exact h
      · refine ⟨h.log, ?_, h.running⟩
        have hw := h.waiting
        rw [hc] at hw
        exact hw

theorem kept_alrm (h : Kept s) : Kept (alrm s) := by
  cases hc : s.callout with
  | nil => simpa only [alrm, hc] using h
  | cons x l =>
      have hw := h.waiting
      rw [hc] at hw
      have hs : Kept { s with
          callout := l.dropWhile fun x => x.1 == 0
          list := x.2 :: (l.takeWhile fun x => x.1 == 0).map Prod.snd } := by
        refine ⟨h.log, ?_, ?_⟩
        · intro c hc
          exact hw c (List.mem_cons_of_mem _
            (((List.dropWhile_sublist _).map Prod.snd).subset hc))
        · intro c hc
          rcases List.mem_cons.mp hc with rfl | hc
          · exact hw _ List.mem_cons_self
          · exact hw c (List.mem_cons_of_mem _
              (((List.takeWhile_sublist _).map Prod.snd).subset hc))
      simp only [alrm, hc]
      split
      · exact hs
      · exact kept_settime hs _

theorem kept_step (h : Kept s) {e : CalloutCall F A} (he : inTime s e) :
    Kept (calloutStep s e) := by
  cases e with
  | tick n => exact ⟨h.log, h.waiting, h.running⟩
  | timeout f a n => exact kept_timeout h f a n
  | untimeout f a => exact kept_untimeout h he
  | adjtimeout => exact kept_adjtimeout h
  | alrm =>
      rw [calloutStep]
      split
      · exact kept_alrm ⟨h.log, h.waiting, h.running⟩
      · exact h
  | call =>
      rw [calloutStep]
      split
      · exact h
      · next c l hl =>
          refine ⟨⟨h.running c (by simp [hl]), h.log⟩, h.waiting, ?_⟩
          intro b hb
          exact h.running b (by simp [hl, hb])

/-- A callout that was the only one of its kind and was cancelled is not called
unless it is scheduled again, along every run in which none is cancelled after
`alrm` took it off the list and before it was called. -/
theorem cancelled_kept (now schedtime : Int) (es : List (CalloutCall F A))
    (h : Guarded calloutStep inTime (Callouts.init now schedtime) es) :
    Always calloutStep (fun s => kept s.log) (Callouts.init now schedtime) es := by
  have h0 : Kept (Callouts.init now schedtime : Callouts F A) :=
    ⟨trivial, by simp [Callouts.init], by simp [Callouts.init]⟩
  have hall := always_of_guarded Kept h0 (fun _ _ hs he => kept_step hs he) h
  exact fun pre hpre => (hall pre hpre).log

end

/-- Scheduled, cancelled, and the alarm of the other one. -/
theorem cancelled_kept_one :
    Always calloutStep (fun s => kept s.log) (Callouts.init 0 0 : Callouts Bool Unit)
      [.timeout true () 3, .timeout false () 3, .untimeout false (), .tick 3, .alrm, .call] := by
  refine cancelled_kept 0 0 _ ?_
  refine guarded_cons trivial (guarded_cons trivial (guarded_cons ?_
    (guarded_cons trivial (guarded_cons trivial (guarded_cons trivial guarded_nil)))))
  intro _ c hc
  cases hc

/-- Two callouts are due in the same second; the function of the first cancels
the second, and it is called all the same. -/
theorem cancelled_called :
    ¬ Always calloutStep (fun s => kept s.log) (Callouts.init 0 0 : Callouts Bool Unit)
        [.timeout true () 3, .timeout false () 3, .tick 3, .alrm, .call, .untimeout false (),
          .call] := by
  intro h
  have hk := h _ (List.prefix_refl _)
  have hst : standing false () (run calloutStep (Callouts.init 0 0 : Callouts Bool Unit)
      [.timeout true () 3, .timeout false () 3, .tick 3, .alrm, .call, .untimeout false ()]).log =
      true := hk.1
  revert hst
  decide

end VxWorks.Ppp
