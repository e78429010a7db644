import Mathlib.Data.BitVec
import Mathlib.Data.List.Basic
import Mathlib.Data.List.Find
import Mathlib.Data.List.Nodup
import Mathlib.Data.List.Pairwise
import VxWorks.Lib.Qsort
import VxWorks.Lib.TableWalk

/-!
# The rows after a row (snmpTask.c, k_vxdemo.c)

Three tables are walked in one way: the agent takes all ids there are, sorts them, and
answers with the first one in the list that is greater than the one it was asked about.
What is meant by greater is settled twice. The sort subtracts one id from the other and
looks at the sign, which is the order of the ids as long as no two of them are half the
range apart. The search compares, in two of the tables as unsigned numbers, as the manager
does, and in one as signed ones. A walk is right where the three orders are one. Ids are
addresses of task control blocks, so on a board with its memory at the bottom nobody sees
the difference.
-/

namespace VxWorks.Snmp

open VxWorks.Lib

def maxTasks : Nat := 500

def maxNfs : Nat := 200

abbrev Qsort := (BitVec 32 → BitVec 32 → Int) → List (BitVec 32) → List (BitVec 32)

/-- The difference of two `int`s, which wraps. -/
def taskEntCmp (v1 v2 : BitVec 32) : Int := (v1 - v2).toInt

def intComp (v1 v2 : BitVec 32) : Int := (v1 - v2).toInt

inductive SearchType where
  | exact
  | next

section

variable (qsort : Qsort)

/-- `taskEntry_next`: the index it answers with, or none for no next row. `live` is what
`taskIdListGet` finds, and `stale` what stands in front of `taskIdList` when it finds
nothing. -/
def taskEntryNext (live : List (BitVec 32)) (stale : BitVec 32) :
    Option (BitVec 32) → Option (BitVec 32)
  | some compl =>
      (qsort taskEntCmp (live.take maxTasks)).find? fun id => compl.ult id && live.contains id
  | none => some ((qsort taskEntCmp (live.take maxTasks)).head?.getD stale)

/-- `k_taskEntry_get`: the index of the entry. -/
def kTaskEntryGet (live : List (BitVec 32)) (searchType : SearchType) (taskId : BitVec 32) :
    Option (BitVec 32) :=
  match searchType with
  | .next =>
      (qsort intComp (live.take maxTasks)).find? fun id => taskId.slt id && live.contains id
  | .exact => if live.contains taskId then some taskId else none

/-- `k_nfsEntry_get`: the index of the entry. The handles are `unsigned long`. -/
def kNfsEntryGet (mounted : List (BitVec 32)) (searchType : SearchType)
    (entryIndex : BitVec 32) : Option (BitVec 32) :=
  if (mounted.take maxNfs).length ≤ 0 then none
  else
    match searchType with
    | .next =>
        (qsort intComp (mounted.take maxNfs)).find? fun handle =>
          entryIndex.ult handle && mounted.contains handle
    | .exact => if mounted.contains entryIndex then some entryIndex else none

end

/-! ## Walks -/

/-- A walk visits every row once, in increasing order, and then finds no next one. -/
def WalksRight {ι : Type*} (next : Nat → ι → Option (BitVec 32)) (back : BitVec 32 → ι)
    (start : ι) (rows : List (BitVec 32)) : Prop :=
  ∃ ys, Walks next back 0 start ys ∧ ys.Perm rows ∧ ys.Pairwise fun a b => a < b

/-- No two of the ids are half the range apart. -/
def Near (ids : List (BitVec 32)) : Prop :=
  ∀ a ∈ ids, ∀ b ∈ ids, b.toNat < a.toNat + 2 ^ 31

/-- All ids are in the lower half of the range, or all are in the upper half. -/
def SameHalf (ids : List (BitVec 32)) : Prop := ∀ a ∈ ids, ∀ b ∈ ids, a.msb = b.msb

instance decidableNear (ids : List (BitVec 32)) : Decidable (Near ids) :=
  decidable_of_iff (ids.all fun a => ids.all fun b => decide (b.toNat < a.toNat + 2 ^ 31)) <| by
    simp only [List.all_eq_true, decide_eq_true_eq, Near]

instance decidableSameHalf (ids : List (BitVec 32)) : Decidable (SameHalf ids) :=
  decidable_of_iff (ids.all fun a => ids.all fun b => a.msb == b.msb) <| by
    simp only [List.all_eq_true, beq_iff_eq, SameHalf]

theorem SameHalf.near {ids : List (BitVec 32)} (h : SameHalf ids) : Near ids := by
  intro a ha b hb
  have hmsb := h a ha b hb
  simp only [BitVec.msb_eq_decide, decide_eq_decide] at hmsb
  omega

theorem sub_neg_iff {a b : BitVec 32} (hab : a.toNat < b.toNat + 2 ^ 31)
    (hba : b.toNat < a.toNat + 2 ^ 31) : (a - b).toInt < 0 ↔ a < b := by
  rw [BitVec.toInt_neg_iff]
  bv_omega

theorem sub_neg_of_far {a b : BitVec 32} (h : a.toNat + 2 ^ 31 ≤ b.toNat) :
    (b - a).toInt < 0 := by
  rw [BitVec.toInt_neg_iff]
  bv_omega

/-- Subtraction orders ids that are near each other as they are. -/
theorem Near.strictTotalOn {ids : List (BitVec 32)} (h : Near ids) :
    StrictTotalOn (fun a b => (a - b).toInt) ids where
  asymm a ha b hb hab := by
    rw [sub_neg_iff (h b hb a ha) (h a ha b hb)] at hab
    rw [sub_neg_iff (h a ha b hb) (h b hb a ha)]
    exact BitVec.lt_asymm hab
  trans a ha b hb c hc hab hbc := by
    rw [sub_neg_iff (h b hb a ha) (h a ha b hb)] at hab
    rw [sub_neg_iff (h c hc b hb) (h b hb c hc)] at hbc
    rw [sub_neg_iff (h c hc a ha) (h a ha c hc)]
    exact BitVec.lt_trans hab hbc
  total a ha b hb hne := by
    rw [sub_neg_iff (h b hb a ha) (h a ha b hb), sub_neg_iff (h a ha b hb) (h b hb a ha)]
    bv_omega

/-- The list of near ids is sorted as it should be. -/
theorem Near.qsort_pairwise {ids : List (BitVec 32)} (h : Near ids) (hnodup : ids.Nodup)
    {qsort : Qsort} (hsorts : Sorts qsort) :
    (qsort (fun a b => (a - b).toInt) ids).Pairwise fun a b => a < b := by
  have hp := hsorts.perm (fun a b => (a - b).toInt) ids
  refine (hsorts.pairwise_lt h.strictTotalOn hnodup).imp_of_mem ?_
  intro a b ha hb hab
  exact (sub_neg_iff (h b (hp.subset hb) a (hp.subset ha))
    (h a (hp.subset ha) b (hp.subset hb))).mp hab

theorem lt_asymm_bool {lt : BitVec 32 → BitVec 32 → Bool} {f : BitVec 32 → Int}
    (hlt : ∀ a b, lt a b = true ↔ f a < f b) : ∀ a b, lt a b = true → lt b a = false := by
  intro a b hab
  rw [hlt] at hab
  refine Bool.eq_false_iff.mpr ?_
  intro hba
  rw [hlt] at hba
  omega

theorem ult_asymm : ∀ a b : BitVec 32, a.ult b = true → b.ult a = false :=
  lt_asymm_bool (f := fun a => a.toNat) fun _ _ => by simp [BitVec.ult]

theorem slt_asymm : ∀ a b : BitVec 32, a.slt b = true → b.slt a = false :=
  lt_asymm_bool (f := BitVec.toInt) fun _ _ => BitVec.slt_iff_toInt_lt

section

variable {qsort : Qsort} {ids : List (BitVec 32)} {gets : Nat → List (BitVec 32)}

/-- Whatever order the ids come in, near ids are sorted into one list. -/
theorem Near.qsort_eq (h : Near ids) (hnodup : ids.Nodup) (hsorts : Sorts qsort)
    {live : List (BitVec 32)} (hlive : live.Perm ids) :
    qsort (fun a b => (a - b).toInt) live = qsort (fun a b => (a - b).toInt) ids := by
  have hnear : Near live := fun a ha b hb => h a (hlive.subset ha) b (hlive.subset hb)
  have hsorted := hnear.qsort_pairwise (hlive.nodup_iff.mpr hnodup) hsorts
  refine List.Perm.eq_of_pairwise ?_ hsorted (h.qsort_pairwise hnodup hsorts)
    (((hsorts.perm _ _).trans hlive).trans (hsorts.perm _ _).symm)
  intro a b _ _ hab hba
  exact absurd hba (BitVec.lt_asymm hab)

/-- The search of a call that is made while the ids are there. -/
theorem Near.search (h : Near ids) (hnodup : ids.Nodup) (hsorts : Sorts qsort)
    {live : List (BitVec 32)} (hlive : live.Perm ids) {most : Nat} (hlen : ids.length ≤ most)
    (after : BitVec 32 → Bool) :
    ((qsort (fun a b => (a - b).toInt) (live.take most)).find? fun id =>
        after id && live.contains id) =
      (qsort (fun a b => (a - b).toInt) ids).find? after := by
  rw [List.take_of_length_le (hlive.length_eq ▸ hlen), h.qsort_eq hnodup hsorts hlive]
  exact find?_contains after fun x hx => hlive.symm.subset ((hsorts.perm _ _).subset hx)

/-- Where some ids are far apart, a sort may well begin with one that is not the least. -/
theorem exists_sorts_far (hfar : ¬ Near ids) :
    ∃ qsort : Qsort, Sorts qsort ∧
      ∃ x, (qsort (fun a b => (a - b).toInt) ids).head? = some x ∧ ∃ a ∈ ids, a < x := by
  obtain ⟨a, ha, b, hb, hab⟩ : ∃ a ∈ ids, ∃ b ∈ ids, a.toNat + 2 ^ 31 ≤ b.toNat := by
    simpa only [Near, not_forall, not_lt, exists_prop] using hfar
  let ge : BitVec 32 → BitVec 32 → Bool := fun x y => decide (y.toNat ≤ x.toNat)
  obtain ⟨qsort, hsorts, hother⟩ := exists_sorts (fun xs : List (BitVec 32) => xs.mergeSort ge)
    fun xs => List.mergeSort_perm xs ge
  refine ⟨qsort, hsorts, ?_⟩
  have hp := hsorts.perm (fun a b => (a - b).toInt) ids
  cases hlist : qsort (fun a b => (a - b).toInt) ids with
  | nil =>
      rw [hlist] at hp
      exact absurd (hp.symm.subset ha) List.not_mem_nil
  | cons x xs =>
      refine ⟨x, List.head?_cons, a, ha, ?_⟩
      have hbmem : b ∈ x :: xs := hlist ▸ hp.symm.subset hb
      by_cases ht : StrictTotalOn (fun a b : BitVec 32 => (a - b).toInt) ids
      · -- the subtraction puts `b` before everything that is not above `a`
        have hsorted := hsorts.sorted _ _ ht
        rw [hlist] at hsorted
        by_contra hle
        have hfarx : x.toNat + 2 ^ 31 ≤ b.toNat := by bv_omega
        rcases List.mem_cons.mp hbmem with rfl | hbxs
        · omega
        · exact (List.pairwise_cons.mp hsorted).1 b hbxs (sub_neg_of_far hfarx)
      · have htrans : ∀ u v w, ge u v = true → ge v w = true → ge u w = true := by
          intro u v w huv hvw
          simp only [ge, decide_eq_true_eq] at huv hvw ⊢
          omega
        have htotal : ∀ u v, (ge u v || ge v u) = true := by
          intro u v
          simp only [ge, Bool.or_eq_true, decide_eq_true_eq]
          omega
        have hsorted := List.pairwise_mergeSort htrans htotal ids
        rw [← hother _ _ ht, hlist] at hsorted
        rcases List.mem_cons.mp hbmem with rfl | hbxs
        · bv_omega
        · have hbx := (List.pairwise_cons.mp hsorted).1 b hbxs
          simp only [ge, decide_eq_true_eq] at hbx
          bv_omega

/-- The first row of a right walk is the least. -/
theorem WalksRight.least {ι : Type*} {next : Nat → ι → Option (BitVec 32)} {back : BitVec 32 → ι}
    {start : ι} {x : BitVec 32} (h : WalksRight next back start ids) (hx : next 0 start = some x) :
    ∀ a ∈ ids, ¬ a < x := by
  obtain ⟨ys, hwalks, hperm, hys⟩ := h
  intro a ha hax
  cases ys with
  | nil => exact absurd (hperm.symm.subset ha) List.not_mem_nil
  | cons y ys =>
      obtain rfl : x = y := Option.some.inj (hx.symm.trans hwalks.1)
      rcases List.mem_cons.mp (hperm.symm.subset ha) with rfl | hmem
      · exact BitVec.lt_irrefl _ hax
      · exact BitVec.lt_asymm hax ((List.pairwise_cons.mp hys).1 a hmem)

/-! ## `taskEntry_next` -/

/-- The walk of the table is right whatever sort the agent has, and in whatever order the
ids come each time. -/
def TaskEntryWalk (ids : List (BitVec 32)) (stale : BitVec 32) : Prop :=
  ∀ qsort : Qsort, Sorts qsort → ∀ gets : Nat → List (BitVec 32), (∀ k, (gets k).Perm ids) →
    WalksRight (fun k => taskEntryNext qsort (gets k) stale) some none ids

theorem taskEntry_walk_iff (hnodup : ids.Nodup) (hlen : ids.length ≤ maxTasks)
    (stale : BitVec 32) : TaskEntryWalk ids stale ↔ ids ≠ [] ∧ Near ids := by
  constructor
  · intro h
    have hne : ids ≠ [] := by
      rintro rfl
      obtain ⟨qsort, hsorts, -⟩ := exists_sorts (fun xs : List (BitVec 32) => xs) fun _ => .rfl
      obtain ⟨ys, hwalks, hperm, -⟩ := h qsort hsorts (fun _ => []) fun _ => .rfl
      obtain rfl := hperm.eq_nil
      exact absurd hwalks (Option.some_ne_none _)
    refine ⟨hne, ?_⟩
    by_contra hfar
    obtain ⟨qsort, hsorts, x, hx, a, ha, hax⟩ := exists_sorts_far hfar
    refine (h qsort hsorts (fun _ => ids) fun _ => .rfl).least ?_ a ha hax
    show some ((qsort (fun a b => (a - b).toInt) (ids.take maxTasks)).head?.getD stale) = some x
    rw [List.take_of_length_le hlen, hx, Option.getD_some]
  · rintro ⟨hne, hnear⟩ qsort hsorts gets hgets
    have hperm := hsorts.perm (fun a b : BitVec 32 => (a - b).toInt) ids
    have hsorted := hnear.qsort_pairwise hnodup hsorts
    refine ⟨_, walks_of_pairwise ult_asymm (hsorted.imp BitVec.ult_iff_lt.mpr) ?_ ?_, hperm,
      hsorted⟩
    · exact fun k compl => hnear.search hnodup hsorts (hgets k) hlen _
    · show some ((qsort (fun a b => (a - b).toInt) ((gets 0).take maxTasks)).head?.getD stale) = _
      rw [List.take_of_length_le ((hgets 0).length_eq ▸ hlen),
        hnear.qsort_eq hnodup hsorts (hgets 0)]
      cases hlist : qsort (fun a b => (a - b).toInt) ids with
      | nil => exact absurd (hlist ▸ hperm).symm.eq_nil hne
      | cons x xs => rfl

/-! ## `k_taskEntry_get` and `k_nfsEntry_get` -/

def KTaskEntryWalk (ids : List (BitVec 32)) (start : BitVec 32) : Prop :=
  ∀ qsort : Qsort, Sorts qsort → ∀ gets : Nat → List (BitVec 32), (∀ k, (gets k).Perm ids) →
    WalksRight (fun k => kTaskEntryGet qsort (gets k) .next) id start ids

def KNfsEntryWalk (ids : List (BitVec 32)) (start : BitVec 32) : Prop :=
  ∀ qsort : Qsort, Sorts qsort → ∀ gets : Nat → List (BitVec 32), (∀ k, (gets k).Perm ids) →
    WalksRight (fun k => kNfsEntryGet qsort (gets k) .next) id start ids

theorem slt_trans {a b c : BitVec 32} (hab : a.slt b = true) (hbc : b.slt c = true) :
    a.slt c = true := by
  rw [BitVec.slt_iff_toInt_lt] at hab hbc ⊢
  exact Int.lt_trans hab hbc

theorem msb_eq_of_slt {a b : BitVec 32} (hlt : a < b) (hslt : a.slt b = true) :
    a.msb = b.msb := by
  by_contra hne
  rw [BitVec.slt_eq_not_ult_of_msb_neq hne, BitVec.ult_iff_lt.mpr hlt] at hslt
  cases hslt

theorem kTaskEntryGet_next {live : List (BitVec 32)} {taskId x : BitVec 32}
    (h : kTaskEntryGet qsort live .next taskId = some x) : taskId.slt x = true := by
  rw [kTaskEntryGet] at h
  have hfound := List.find?_some h
  exact (Bool.and_eq_true_iff.mp hfound).1

theorem kTaskEntry_walk_iff (hnodup : ids.Nodup) (hlen : ids.length ≤ maxTasks)
    (start : BitVec 32) :
    KTaskEntryWalk ids start ↔ (∀ a ∈ ids, start.slt a = true) ∧ SameHalf ids := by
  constructor
  · intro h
    obtain ⟨qsort, hsorts, -⟩ := exists_sorts (fun xs : List (BitVec 32) => xs) fun _ => .rfl
    obtain ⟨ys, hwalks, hperm, hys⟩ := h qsort hsorts (fun _ => ids) fun _ => .rfl
    have hnext : ∀ u v, kTaskEntryGet qsort ids .next u = some v → u.slt v = true :=
      fun u v => kTaskEntryGet_next
    refine ⟨?_, ?_⟩
    · intro a ha
      exact hwalks.forall (hnext start) (fun _ u v hu huv => slt_trans hu (hnext u v huv)) a
        (hperm.symm.subset ha)
    · intro a ha b hb
      -- the walk is in the order of the search and, if it is right, in the other one too
      have hslt : ys.Pairwise fun u v => u.slt v = true :=
        Walks.pairwise (R := fun u v : BitVec 32 => u.slt v = true) (fun _ _ _ => slt_trans)
          (fun _ => hnext) hwalks
      have hmsb : ys.Pairwise fun u v => u.msb = v.msb :=
        (hys.and hslt).imp fun huv => msb_eq_of_slt huv.1 huv.2
      have hsymm : Std.Symm fun u v : BitVec 32 => u.msb = v.msb := ⟨fun _ _ => Eq.symm⟩
      exact List.Pairwise.forall_of_forall (R := fun u v : BitVec 32 => u.msb = v.msb)
        (fun _ _ => rfl) hmsb (hperm.symm.subset ha) (hperm.symm.subset hb)
  · rintro ⟨hstart, hhalf⟩ qsort hsorts gets hgets
    have hnear := hhalf.near
    have hperm := hsorts.perm (fun a b : BitVec 32 => (a - b).toInt) ids
    have hsorted := hnear.qsort_pairwise hnodup hsorts
    have hslt := hsorted.imp_of_mem fun {a b} ha hb hab =>
      (BitVec.slt_eq_ult_of_msb_eq (hhalf a (hperm.subset ha) b (hperm.subset hb))).trans
        (BitVec.ult_iff_lt.mpr hab)
    refine ⟨_, walks_of_pairwise slt_asymm hslt ?_ ?_, hperm, hsorted⟩
    · exact fun k taskId => hnear.search hnodup hsorts (hgets k) hlen _
    · have hsearch := hnear.search hnodup hsorts (hgets 0) hlen start.slt
      exact hsearch.trans (find?_eq_head? fun x hx => hstart x (hperm.subset hx))

theorem kNfsEntryGet_next {mounted : List (BitVec 32)} {entryIndex x : BitVec 32}
    (h : kNfsEntryGet qsort mounted .next entryIndex = some x) : entryIndex.ult x = true := by
  rw [kNfsEntryGet] at h
  split at h
  · cases h
  · have hfound := List.find?_some h
    exact (Bool.and_eq_true_iff.mp hfound).1

/-- Without an entry the search finds nothing either. -/
theorem kNfsEntryGet_eq (hsorts : Sorts qsort) (mounted : List (BitVec 32))
    (entryIndex : BitVec 32) :
    kNfsEntryGet qsort mounted .next entryIndex =
      (qsort (fun a b => (a - b).toInt) (mounted.take maxNfs)).find? fun handle =>
        entryIndex.ult handle && mounted.contains handle := by
  rw [kNfsEntryGet]
  split
  · have hnil := List.length_eq_zero_iff.mp (Nat.le_zero.mp ‹_›)
    rw [hnil, (hsorts.perm _ []).eq_nil]
    rfl
  · rfl

theorem ult_trans {a b c : BitVec 32} (hab : a.ult b = true) (hbc : b.ult c = true) :
    a.ult c = true := by
  rw [BitVec.ult_iff_lt] at hab hbc ⊢
  exact BitVec.lt_trans hab hbc

theorem kNfsEntry_walk_iff (hnodup : ids.Nodup) (hlen : ids.length ≤ maxNfs)
    (start : BitVec 32) :
    KNfsEntryWalk ids start ↔ (∀ a ∈ ids, start.ult a = true) ∧ Near ids := by
  constructor
  · intro h
    have hstart : ∀ a ∈ ids, start.ult a = true := by
      obtain ⟨qsort, hsorts, -⟩ := exists_sorts (fun xs : List (BitVec 32) => xs) fun _ => .rfl
      obtain ⟨ys, hwalks, hperm, -⟩ := h qsort hsorts (fun _ => ids) fun _ => .rfl
      have hnext : ∀ u v, kNfsEntryGet qsort ids .next u = some v → u.ult v = true :=
        fun u v => kNfsEntryGet_next
      intro a ha
      exact hwalks.forall (hnext start) (fun _ u v hu huv => ult_trans hu (hnext u v huv)) a
        (hperm.symm.subset ha)
    refine ⟨hstart, ?_⟩
    by_contra hfar
    obtain ⟨qsort, hsorts, x, hx, a, ha, hax⟩ := exists_sorts_far hfar
    refine (h qsort hsorts (fun _ => ids) fun _ => .rfl).least ?_ a ha hax
    have hperm := hsorts.perm (fun a b : BitVec 32 => (a - b).toInt) ids
    rw [kNfsEntryGet_eq hsorts, List.take_of_length_le hlen,
      find?_contains _ fun y hy => hperm.subset hy, ← hx]
    exact find?_eq_head? fun y hy => hstart y (hperm.subset hy)
  · rintro ⟨hstart, hnear⟩ qsort hsorts gets hgets
    have hperm := hsorts.perm (fun a b : BitVec 32 => (a - b).toInt) ids
    have hsorted := hnear.qsort_pairwise hnodup hsorts
    refine ⟨_, walks_of_pairwise ult_asymm (hsorted.imp BitVec.ult_iff_lt.mpr) ?_ ?_, hperm,
      hsorted⟩
    · intro k entryIndex
      rw [kNfsEntryGet_eq hsorts]
      exact hnear.search hnodup hsorts (hgets k) hlen _
    · have hsearch := hnear.search hnodup hsorts (hgets 0) hlen start.ult
      rw [kNfsEntryGet_eq hsorts]
      exact hsearch.trans (find?_eq_head? fun x hx => hstart x (hperm.subset hx))

/-- The three tables, from any index on. -/
theorem table_walk_iff (hnodup : ids.Nodup) (hlen : ids.length ≤ maxTasks)
    {handles : List (BitVec 32)} (hhandles : handles.Nodup) (hnfs : handles.length ≤ maxNfs)
    (stale start startHandle : BitVec 32) :
    (TaskEntryWalk ids stale ↔ ids ≠ [] ∧ Near ids) ∧
      (KTaskEntryWalk ids start ↔ (∀ a ∈ ids, start.slt a = true) ∧ SameHalf ids) ∧
      (KNfsEntryWalk handles startHandle ↔
        (∀ a ∈ handles, startHandle.ult a = true) ∧ Near handles) :=
  ⟨taskEntry_walk_iff hnodup hlen stale, kTaskEntry_walk_iff hnodup hlen start,
    kNfsEntry_walk_iff hhandles hnfs startHandle⟩

end

/-- Tasks of a board with its memory at the bottom. -/
def lowIds : List (BitVec 32) := [3814060, 3772852, 4098672]

theorem table_walk_low :
    TaskEntryWalk lowIds 0 ∧ KTaskEntryWalk lowIds 0 ∧ KNfsEntryWalk [2, 1] 0 := by
  have hnodup : lowIds.Nodup := by decide
  have hhandles : [(2 : BitVec 32), 1].Nodup := by decide
  have hwalk := table_walk_iff hnodup (by decide) hhandles (by decide) 0 0 0
  exact ⟨hwalk.1.mpr (by decide +kernel),
    hwalk.2.1.mpr ⟨List.all_eq_true.mp (by decide), by decide +kernel⟩,
    hwalk.2.2.mpr ⟨List.all_eq_true.mp (by decide), by decide +kernel⟩⟩

/-- Ids at both ends of the range. The task with the low one is not visited, or not in its
turn. -/
def farIds : List (BitVec 32) := [0x00100000, 0xfff00000]

theorem table_walk_far :
    ¬ TaskEntryWalk farIds 0 ∧ ¬ KTaskEntryWalk farIds 0x80000000 ∧ ¬ KNfsEntryWalk farIds 0 := by
  refine ⟨?_, ?_, ?_⟩
  · rw [taskEntry_walk_iff (by decide) (by decide)]
    decide +kernel
  · rw [kTaskEntry_walk_iff (by decide) (by decide)]
    exact fun h => absurd h.2 (by decide +kernel)
  · rw [kNfsEntry_walk_iff (by decide) (by decide)]
    exact fun h => absurd h.2 (by decide +kernel)

end VxWorks.Snmp
