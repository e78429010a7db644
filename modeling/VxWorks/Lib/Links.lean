import Mathlib.Data.List.Nodup
import Mathlib.Logic.Function.Basic

/-!
# Lists linked through their cells

A cell has a forward field, which leads to the next cell, and a back field, which leads
to the cell whose forward field leads here. The head of a list is a cell too, of which
only the forward field is used; so what comes before a cell is always a cell, and taking
one out needs no list. `Linked` follows the fields from a cell along the cells of a list,
and `Chains` is a family of such lists that share no cell. What is put behind the last
cell of a first part stands between the two parts (`Chains.insert`), at either end of the
list or inside.
-/

namespace VxWorks.Lib

variable {α : Type*}

/-- The fields lead from `p` along the cells of the list and back. -/
def Linked (fwd back : α → α) : α → List α → Prop
  | _, [] => True
  | p, x :: xs => fwd p = x ∧ back x = p ∧ Linked fwd back x xs

theorem getLastD_append (xs ys : List α) (d : α) :
    (xs ++ ys).getLastD d = ys.getLastD (xs.getLastD d) := by
  induction xs generalizing d with
  | nil => rfl
  | cons x xs ih => rw [List.cons_append, List.getLastD_cons, List.getLastD_cons, ih]

theorem getLastD_notMem_dropLast {p : α} {xs : List α} (h : (p :: xs).Nodup) :
    xs.getLastD p ∉ (p :: xs).dropLast := by
  have hsplit := List.dropLast_append_getLast (List.cons_ne_nil p xs)
  rw [List.getLast_eq_getLastD] at hsplit
  rw [← hsplit] at h
  exact fun hmem => (List.nodup_append.mp h).2.2 _ hmem _ List.mem_cons_self rfl

section

variable {fwd back fwd' back' : α → α}

theorem linked_append {p : α} {xs ys : List α} :
    Linked fwd back p (xs ++ ys) ↔
      Linked fwd back p xs ∧ Linked fwd back (xs.getLastD p) ys := by
  induction xs generalizing p with
  | nil => simp [Linked]
  | cons x xs ih =>
      rw [List.cons_append, Linked, Linked, ih, List.getLastD_cons, and_assoc, and_assoc]

/-- The forward field of the last cell is not on the way. -/
theorem Linked.congr {p : α} {xs : List α} (h : Linked fwd back p xs)
    (hf : ∀ y ∈ (p :: xs).dropLast, fwd' y = fwd y) (hb : ∀ y ∈ xs, back' y = back y) :
    Linked fwd' back' p xs := by
  induction xs generalizing p with
  | nil => trivial
  | cons x xs ih =>
      rw [List.dropLast_cons_of_ne_nil (List.cons_ne_nil x xs)] at hf
      obtain ⟨hp, hx, hrest⟩ := h
      refine ⟨?_, ?_, ?_⟩
      · rw [hf p List.mem_cons_self, hp]
      · rw [hb x List.mem_cons_self, hx]
      · exact ih hrest (fun y hy => hf y (List.mem_cons_of_mem p hy))
          fun y hy => hb y (List.mem_cons_of_mem x hy)

end

/-- Lists that start at the heads, end with the null cell and share no cell. -/
structure Chains (heads : α → Prop) (null : α) (fwd back : α → α) (lists : α → List α) :
    Prop where
  head : ¬ heads null
  linked : ∀ h, heads h → Linked fwd back h (lists h)
  ends : ∀ h, heads h → fwd ((lists h).getLastD h) = null
  nodup : ∀ h, heads h → (lists h).Nodup
  cell : ∀ h, heads h → ∀ x ∈ lists h, x ≠ null ∧ ¬ heads x
  apart : ∀ h h' x, heads h → heads h' → x ∈ lists h → x ∈ lists h' → h = h'

section

variable {heads : α → Prop} {null : α} {fwd back : α → α} {lists : α → List α}

theorem chains_empty (hnull : ¬ heads null) (h : ∀ p, heads p → fwd p = null) :
    Chains heads null fwd back fun _ => [] where
  head := hnull
  linked _ _ := trivial
  ends := h
  nodup _ _ := List.nodup_nil
  cell _ _ _ hx := absurd hx List.not_mem_nil
  apart _ _ _ _ _ hx := absurd hx List.not_mem_nil

theorem Chains.congr {lists' : α → List α} (hc : Chains heads null fwd back lists)
    (h : ∀ p, heads p → lists' p = lists p) : Chains heads null fwd back lists' where
  head := hc.head
  linked p hp := h p hp ▸ hc.linked p hp
  ends p hp := h p hp ▸ hc.ends p hp
  nodup p hp := h p hp ▸ hc.nodup p hp
  cell p hp := h p hp ▸ hc.cell p hp
  apart p q x hp hq := h p hp ▸ h q hq ▸ hc.apart p q x hp hq

theorem Chains.nodup_cons (hc : Chains heads null fwd back lists) {h : α} (hh : heads h) :
    (h :: lists h).Nodup :=
  List.nodup_cons.mpr ⟨fun hmem => (hc.cell h hh h hmem).2 hh, hc.nodup h hh⟩

/-- A cell on the way to or at the end of a list is a cell of that list only. -/
theorem Chains.only (hc : Chains heads null fwd back lists) {h h' z : α} (hh : heads h)
    (hh' : heads h') (hz : z ∈ h :: lists h) (hz' : z ∈ h' :: lists h') : h = h' := by
  rcases List.mem_cons.mp hz with rfl | hz
  · rcases List.mem_cons.mp hz' with heq | hz'
    · exact heq
    · exact absurd hh (hc.cell h' hh' z hz').2
  · rcases List.mem_cons.mp hz' with rfl | hz'
    · exact absurd hh' (hc.cell h hh z hz).2
    · exact hc.apart h h' z hh hh' hz hz'

/-- What follows in one list is not in another. -/
theorem Chains.headD_ne (hc : Chains heads null fwd back lists) {h h' z : α} {ys : List α}
    (hh : heads h) (hh' : heads h') (hne : h' ≠ h) (hys : ∀ y ∈ ys, y ∈ lists h)
    (hz : z ∈ lists h') : z ≠ ys.headD null := by
  cases ys with
  | nil => exact (hc.cell h' hh' z hz).1
  | cons y ys =>
      rintro rfl
      exact hne (hc.apart h' h _ hh' hh hz (hys _ List.mem_cons_self))

/-- What a list looks like when its fields have not been written. -/
theorem Chains.keep (hc : Chains heads null fwd back lists) {fwd' back' : α → α} {h : α}
    (hh : heads h) (hf : ∀ y ∈ h :: lists h, fwd' y = fwd y)
    (hb : ∀ y ∈ lists h, back' y = back y) :
    Linked fwd' back' h (lists h) ∧ fwd' ((lists h).getLastD h) = null := by
  constructor
  · exact (hc.linked h hh).congr (fun y hy => hf y (List.dropLast_subset _ hy)) hb
  · rw [hf _ List.getLastD_mem_cons, hc.ends h hh]

/-- The next cell, when there is one, is a cell of the list. -/
theorem Chains.next (hc : Chains heads null fwd back lists) {h : α} {xs ys : List α}
    (hh : heads h) (hlist : lists h = xs ++ ys) :
    fwd (xs.getLastD h) = ys.headD null := by
  cases ys with
  | nil =>
      have hend := hc.ends h hh
      rw [hlist, List.append_nil] at hend
      exact hend
  | cons y ys =>
      have hl := hc.linked h hh
      rw [hlist, linked_append] at hl
      exact hl.2.1

/-- The fields of a cell between the parts of its list. -/
theorem Chains.fields (hc : Chains heads null fwd back lists) {h x : α} {xs ys : List α}
    (hh : heads h) (hlist : lists h = xs ++ x :: ys) :
    back x = xs.getLastD h ∧ fwd x = ys.headD null := by
  have hlinked := hc.linked h hh
  rw [hlist, linked_append] at hlinked
  refine ⟨hlinked.2.2.1, ?_⟩
  have hnext := @Chains.next _ _ _ _ _ _ hc h (xs ++ [x]) ys hh
    (by rw [hlist, List.append_assoc, List.singleton_append])
  rw [getLastD_append, List.getLastD_cons, List.getLastD_nil] at hnext
  exact hnext

end

/-! ## A cell comes in -/

section

variable [DecidableEq α] {heads : α → Prop} {null : α} {fwd back : α → α} {lists : α → List α}

/-- The forward fields with `x` behind the cell `c`. -/
def insertFwd (fwd : α → α) (c x : α) : α → α :=
  Function.update (Function.update fwd x (fwd c)) c x

/-- The back fields with `x` behind the cell `c`. -/
def insertBack (null : α) (fwd back : α → α) (c x : α) : α → α :=
  if fwd c ≠ null then Function.update (Function.update back x c) (fwd c) x
  else Function.update back x c

theorem insertFwd_of_ne {c x z : α} (hc : z ≠ c) (hx : z ≠ x) : insertFwd fwd c x z = fwd z := by
  rw [insertFwd, Function.update_of_ne hc, Function.update_of_ne hx]

theorem insertFwd_new {c x : α} (h : x ≠ c) : insertFwd fwd c x x = fwd c := by
  rw [insertFwd, Function.update_of_ne h, Function.update_self]

theorem insertBack_of_ne {c x z : α} (hx : z ≠ x) (hn : z ≠ fwd c) :
    insertBack null fwd back c x z = back z := by
  rw [insertBack]
  split
  · rw [Function.update_of_ne hn, Function.update_of_ne hx]
  · rw [Function.update_of_ne hx]

theorem insertBack_new {c x : α} (hx : x ≠ fwd c) : insertBack null fwd back c x x = c := by
  rw [insertBack]
  split
  · rw [Function.update_of_ne hx, Function.update_self]
  · rw [Function.update_self]

theorem insertBack_next {c x : α} (h : fwd c ≠ null) :
    insertBack null fwd back c x (fwd c) = x := by
  rw [insertBack, if_pos h, Function.update_self]

/-- The list between whose parts the cell goes. -/
theorem Chains.insert_linked (hc : Chains heads null fwd back lists) {h x : α} {xs ys : List α}
    (hh : heads h) (hlist : lists h = xs ++ ys) (hx : x ∉ h :: lists h) (hnull : x ≠ null) :
    Linked (insertFwd fwd (xs.getLastD h) x) (insertBack null fwd back (xs.getLastD h) x) h
      (xs ++ x :: ys) := by
  have hnext := hc.next hh hlist
  have hnodup := hc.nodup_cons hh
  have hcell := hc.cell h hh
  have hlinked := hc.linked h hh
  rw [hlist] at hx hnodup hcell hlinked
  obtain ⟨hfirst, hsecond⟩ := linked_append.mp hlinked
  rw [← List.cons_append] at hx hnodup
  obtain ⟨hnfirst, hnsecond, hdisj⟩ := List.nodup_append.mp hnodup
  obtain ⟨hxfirst, hxsecond⟩ := not_or.mp (List.mem_append.not.mp hx)
  have hlast : xs.getLastD h ∈ h :: xs := List.getLastD_mem_cons
  have hnew : ∀ z ∈ h :: xs, z ≠ x := fun z hz heq => hxfirst (heq ▸ hz)
  refine linked_append.mpr ⟨hfirst.congr ?_ ?_, ?_, ?_, ?_⟩
  · intro z hz
    refine insertFwd_of_ne ?_ (hnew z (List.dropLast_subset _ hz))
    intro heq
    exact getLastD_notMem_dropLast hnfirst (heq ▸ hz)
  · intro z hz
    refine insertBack_of_ne (hnew z (List.mem_cons_of_mem h hz)) ?_
    intro heq
    rw [hnext] at heq
    cases ys with
    | nil => exact (hcell z (List.mem_append_left _ hz)).1 heq
    | cons y ys => exact hdisj z (List.mem_cons_of_mem h hz) y List.mem_cons_self heq
  · exact Function.update_self _ _ _
  · refine insertBack_new ?_
    intro heq
    rw [hnext] at heq
    cases ys with
    | nil => exact hnull heq
    | cons y ys => exact hxsecond (heq ▸ List.mem_cons_self)
  · cases ys with
    | nil => trivial
    | cons y ys =>
        have hy := (hcell y (List.mem_append_right xs List.mem_cons_self)).1
        rw [List.headD_cons] at hnext
        refine ⟨?_, ?_, hsecond.2.2.congr ?_ ?_⟩
        · rw [insertFwd_new (hnew _ hlast).symm, hnext]
        · rw [← hnext] at hy ⊢
          exact insertBack_next hy
        · intro z hz
          have hz' : z ∈ y :: ys := List.dropLast_subset _ hz
          exact insertFwd_of_ne (hdisj _ hlast z hz').symm fun heq => hxsecond (heq ▸ hz')
        · intro z hz
          refine insertBack_of_ne (fun heq => hxsecond (heq ▸ List.mem_cons_of_mem y hz)) ?_
          rw [hnext]
          exact fun heq => (List.nodup_cons.mp hnsecond).1 (heq ▸ hz)

theorem Chains.insert_ends (hc : Chains heads null fwd back lists) {h x : α} {xs ys : List α}
    (hh : heads h) (hlist : lists h = xs ++ ys) (hx : x ∉ h :: lists h) :
    insertFwd fwd (xs.getLastD h) x ((xs ++ x :: ys).getLastD h) = null := by
  have hnext := hc.next hh hlist
  have hend := hc.ends h hh
  have hnodup := hc.nodup_cons hh
  rw [hlist] at hx hnodup hend
  have hlast : xs.getLastD h ∈ h :: xs := List.getLastD_mem_cons
  rw [← List.cons_append] at hx hnodup
  have hdisj := (List.nodup_append.mp hnodup).2.2
  obtain ⟨hxfirst, hxsecond⟩ := not_or.mp (List.mem_append.not.mp hx)
  rw [getLastD_append, List.getLastD_cons]
  cases ys with
  | nil =>
      have hne : x ≠ xs.getLastD h := fun heq => hxfirst (heq ▸ hlast)
      rw [List.getLastD_nil, insertFwd_new hne, hnext]
      rfl
  | cons y ys =>
      rw [getLastD_append, List.getLastD_cons] at hend
      rw [List.getLastD_cons]
      have hmem : ys.getLastD y ∈ y :: ys := List.getLastD_mem_cons
      have hne : ys.getLastD y ≠ x := fun heq => hxsecond (heq ▸ hmem)
      rw [insertFwd_of_ne (hdisj _ hlast _ hmem).symm hne, hend]

/-- An insertion writes no field of another list. -/
theorem Chains.insert_other (hc : Chains heads null fwd back lists) {h h' x : α} {xs ys : List α}
    (hh : heads h) (hh' : heads h') (hne : h' ≠ h) (hlist : lists h = xs ++ ys)
    (hx : x ∉ h' :: lists h') :
    Linked (insertFwd fwd (xs.getLastD h) x) (insertBack null fwd back (xs.getLastD h) x) h'
        (lists h') ∧
      insertFwd fwd (xs.getLastD h) x ((lists h').getLastD h') = null := by
  have hlast : xs.getLastD h ∈ h :: lists h := by
    rw [hlist]
    exact List.mem_cons.mpr ((List.mem_cons.mp List.getLastD_mem_cons).imp id
      (List.mem_append_left ys))
  refine hc.keep hh' ?_ ?_
  · intro z hz
    refine insertFwd_of_ne (fun heq => hne ?_) fun heq => hx (heq ▸ hz)
    exact hc.only hh' hh hz (heq ▸ hlast)
  · intro z hz
    refine insertBack_of_ne (fun heq => hx (List.mem_cons_of_mem h' (heq ▸ hz))) ?_
    intro heq
    rw [hc.next hh hlist] at heq
    exact hc.headD_ne hh hh' hne (fun y hy => hlist ▸ List.mem_append_right xs hy) hz heq

/-- A cell that is on no list comes in behind a first part of the list. -/
theorem Chains.insert (hc : Chains heads null fwd back lists) {h x : α} {xs ys : List α}
    (hh : heads h) (hlist : lists h = xs ++ ys) (hnull : x ≠ null) (hxh : ¬ heads x)
    (hx : ∀ h', heads h' → x ∉ lists h') :
    Chains heads null (insertFwd fwd (xs.getLastD h) x)
      (insertBack null fwd back (xs.getLastD h) x)
      (Function.update lists h (xs ++ x :: ys)) := by
  have hcons : ∀ h', heads h' → x ∉ h' :: lists h' := fun h' hh' hmem =>
    (List.mem_cons.mp hmem).elim (fun heq => hxh (heq ▸ hh')) (hx h' hh')
  have hmem : ∀ z, z ∈ xs ++ x :: ys ↔ z = x ∨ z ∈ lists h := by
    intro z
    rw [hlist]
    exact List.perm_middle.mem_iff.trans List.mem_cons
  refine ⟨hc.head, ?_, ?_, ?_, ?_, ?_⟩
  · intro h' hh'
    rcases eq_or_ne h' h with rfl | hne
    · rw [Function.update_self]
      exact hc.insert_linked hh hlist (hcons h' hh) hnull
    · rw [Function.update_of_ne hne]
      exact (hc.insert_other hh hh' hne hlist (hcons h' hh')).1
  · intro h' hh'
    rcases eq_or_ne h' h with rfl | hne
    · rw [Function.update_self]
      exact hc.insert_ends hh hlist (hcons h' hh)
    · rw [Function.update_of_ne hne]
      exact (hc.insert_other hh hh' hne hlist (hcons h' hh')).2
  · intro h' hh'
    rcases eq_or_ne h' h with rfl | hne
    · rw [Function.update_self]
      have hnodup := hc.nodup h' hh
      have hnew := hx h' hh
      rw [hlist] at hnodup hnew
      exact List.nodup_middle.mpr (List.nodup_cons.mpr ⟨hnew, hnodup⟩)
    · rw [Function.update_of_ne hne]
      exact hc.nodup h' hh'
  · intro h' hh' z hz
    rcases eq_or_ne h' h with rfl | hne
    · rw [Function.update_self, hmem] at hz
      exact hz.elim (fun heq => heq ▸ ⟨hnull, hxh⟩) (hc.cell h' hh z)
    · rw [Function.update_of_ne hne] at hz
      exact hc.cell h' hh' z hz
  · intro h₁ h₂ z hh₁ hh₂ hz₁ hz₂
    have hold : ∀ h', heads h' → z ∈ Function.update lists h (xs ++ x :: ys) h' →
        z = x ∧ h' = h ∨ z ∈ lists h' := by
      intro h' hh' hz
      rcases eq_or_ne h' h with rfl | hne
      · rw [Function.update_self, hmem] at hz
        exact hz.imp (fun heq => ⟨heq, rfl⟩) id
      · rw [Function.update_of_ne hne] at hz
        exact .inr hz
    rcases hold h₁ hh₁ hz₁ with ⟨rfl, rfl⟩ | hin₁
    · rcases hold h₂ hh₂ hz₂ with ⟨-, rfl⟩ | hin₂
      · rfl
      · exact absurd hin₂ (hx h₂ hh₂)
    · rcases hold h₂ hh₂ hz₂ with ⟨rfl, rfl⟩ | hin₂
      · exact absurd hin₁ (hx h₁ hh₁)
      · exact hc.apart h₁ h₂ z hh₁ hh₂ hin₁ hin₂

end

/-! ## A cell goes -/

section

variable [DecidableEq α] {heads : α → Prop} {null : α} {fwd back : α → α} {lists : α → List α}

/-- The forward fields with `x` passed over, and `x` cleared. -/
def unlinkFwd (null : α) (fwd back : α → α) (x : α) : α → α :=
  Function.update (if back x ≠ null then Function.update fwd (back x) (fwd x) else fwd) x null

/-- The back fields with `x` passed over, and `x` cleared. -/
def unlinkBack (null : α) (fwd back : α → α) (x : α) : α → α :=
  Function.update (if fwd x ≠ null then Function.update back (fwd x) (back x) else back) x null

theorem unlinkFwd_of_ne {x z : α} (hb : z ≠ back x) (hx : z ≠ x) :
    unlinkFwd null fwd back x z = fwd z := by
  rw [unlinkFwd, Function.update_of_ne hx]
  split
  · rw [Function.update_of_ne hb]
  · rfl

theorem unlinkFwd_last {x : α} (h : back x ≠ null) (hx : back x ≠ x) :
    unlinkFwd null fwd back x (back x) = fwd x := by
  rw [unlinkFwd, Function.update_of_ne hx, if_pos h, Function.update_self]

theorem unlinkBack_of_ne {x z : α} (hf : z ≠ fwd x) (hx : z ≠ x) :
    unlinkBack null fwd back x z = back z := by
  rw [unlinkBack, Function.update_of_ne hx]
  split
  · rw [Function.update_of_ne hf]
  · rfl

theorem unlinkBack_next {x : α} (h : fwd x ≠ null) (hx : fwd x ≠ x) :
    unlinkBack null fwd back x (fwd x) = back x := by
  rw [unlinkBack, Function.update_of_ne hx, if_pos h, Function.update_self]

/-- The cells in front are linked as they were. -/
theorem Chains.unlink_before (hc : Chains heads null fwd back lists) {h x : α} {xs ys : List α}
    (hh : heads h) (hlist : lists h = xs ++ x :: ys) :
    Linked (unlinkFwd null fwd back x) (unlinkBack null fwd back x) h xs := by
  obtain ⟨hback, hfwd⟩ := hc.fields hh hlist
  have hnodup := hc.nodup_cons hh
  have hcell := hc.cell h hh
  have hlinked := hc.linked h hh
  rw [hlist] at hnodup hcell hlinked
  rw [← List.cons_append] at hnodup
  obtain ⟨hnfirst, -, hdisj⟩ := List.nodup_append.mp hnodup
  refine (linked_append.mp hlinked).1.congr ?_ ?_
  · intro z hz
    have hz' : z ∈ h :: xs := List.dropLast_subset _ hz
    refine unlinkFwd_of_ne ?_ (hdisj z hz' x List.mem_cons_self)
    intro heq
    exact getLastD_notMem_dropLast hnfirst (hback ▸ heq ▸ hz)
  · intro z hz
    have hz' : z ∈ h :: xs := List.mem_cons_of_mem h hz
    refine unlinkBack_of_ne ?_ (hdisj z hz' x List.mem_cons_self)
    intro heq
    rw [hfwd] at heq
    cases ys with
    | nil => exact (hcell z (List.mem_append_left _ hz)).1 heq
    | cons y ys => exact hdisj z hz' y (List.mem_cons_of_mem x List.mem_cons_self) heq

theorem Chains.unlink_linked (hc : Chains heads null fwd back lists) {h x : α} {xs ys : List α}
    (hh : heads h) (hlist : lists h = xs ++ x :: ys) :
    Linked (unlinkFwd null fwd back x) (unlinkBack null fwd back x) h (xs ++ ys) ∧
      unlinkFwd null fwd back x ((xs ++ ys).getLastD h) = null := by
  obtain ⟨hback, hfwd⟩ := hc.fields hh hlist
  have hkeep := hc.unlink_before hh hlist
  have hnodup := hc.nodup_cons hh
  have hcell := hc.cell h hh
  have hlinked := hc.linked h hh
  have hend := hc.ends h hh
  rw [hlist] at hnodup hcell hlinked hend
  obtain ⟨-, hsecond⟩ := linked_append.mp hlinked
  rw [← List.cons_append] at hnodup
  obtain ⟨-, hnsecond, hdisj⟩ := List.nodup_append.mp hnodup
  obtain ⟨hxys, hnys⟩ := List.nodup_cons.mp hnsecond
  have hlast : xs.getLastD h ∈ h :: xs := List.getLastD_mem_cons
  have hlastx : back x ≠ x := hback ▸ hdisj _ hlast x List.mem_cons_self
  have hlastnull : back x ≠ null := by
    rw [hback]
    rcases List.mem_cons.mp hlast with heq | hmem
    · rw [heq]
      exact fun hn => hc.head (hn ▸ hh)
    · exact (hcell _ (List.mem_append_left _ hmem)).1
  cases ys with
  | nil =>
      rw [List.append_nil, ← hback, unlinkFwd_last hlastnull hlastx]
      exact ⟨hkeep, hfwd⟩
  | cons y ys =>
      rw [List.headD_cons] at hfwd
      have hynull := (hcell y (List.mem_append_right xs
        (List.mem_cons_of_mem x List.mem_cons_self))).1
      have hyx : y ≠ x := fun heq => hxys (heq ▸ List.mem_cons_self)
      have hfree : ∀ z ∈ y :: ys, unlinkFwd null fwd back x z = fwd z := by
        intro z hz
        refine unlinkFwd_of_ne ?_ fun heq => hxys (heq ▸ hz)
        intro heq
        rw [hback] at heq
        exact hdisj _ hlast z (List.mem_cons_of_mem x hz) heq.symm
      refine ⟨linked_append.mpr ⟨hkeep, ?_, ?_, hsecond.2.2.2.2.congr ?_ ?_⟩, ?_⟩
      · rw [← hback, unlinkFwd_last hlastnull hlastx, hfwd]
      · rw [← hback, ← hfwd]
        rw [← hfwd] at hynull hyx
        exact unlinkBack_next hynull hyx
      · intro z hz
        exact hfree z (List.dropLast_subset _ hz)
      · intro z hz
        refine unlinkBack_of_ne ?_ fun heq => hxys (heq ▸ List.mem_cons_of_mem y hz)
        rw [hfwd]
        exact fun heq => (List.nodup_cons.mp hnys).1 (heq ▸ hz)
      · rw [getLastD_append, List.getLastD_cons, List.getLastD_cons] at hend
        rw [getLastD_append, List.getLastD_cons, hfree _ List.getLastD_mem_cons, hend]

theorem filter_ne_of_notMem {x : α} {l : List α} (h : x ∉ l) : l.filter (· ≠ x) = l :=
  List.filter_eq_self.mpr fun _ hy => decide_eq_true fun heq => h (heq ▸ hy)

theorem filter_ne_middle {x : α} {xs ys : List α} (h : (xs ++ x :: ys).Nodup) :
    (xs ++ x :: ys).filter (· ≠ x) = xs ++ ys := by
  have hx := (List.nodup_cons.mp (List.nodup_middle.mp h)).1
  obtain ⟨hxs, hys⟩ := not_or.mp (List.mem_append.not.mp hx)
  rw [List.filter_append, List.filter_cons_of_neg (by simp), filter_ne_of_notMem hxs,
    filter_ne_of_notMem hys]

/-- A cell leaves the list it is on, whichever that is. -/
theorem Chains.unlink (hc : Chains heads null fwd back lists) {h x : α} (hh : heads h)
    (hx : x ∈ lists h) :
    Chains heads null (unlinkFwd null fwd back x) (unlinkBack null fwd back x)
      fun h => (lists h).filter (· ≠ x) := by
  obtain ⟨xs, ys, hlist⟩ := List.append_of_mem hx
  obtain ⟨hback, hfwd⟩ := hc.fields hh hlist
  have hlast : back x ∈ h :: lists h := by
    rw [hback, hlist]
    exact List.mem_cons.mpr ((List.mem_cons.mp List.getLastD_mem_cons).imp id
      (List.mem_append_left _))
  have hother : ∀ h', heads h' → h' ≠ h → x ∉ lists h' := fun h' hh' hne hmem =>
    hne (hc.apart h' h x hh' hh hmem hx)
  have hshape : ∀ h', heads h' →
      Linked (unlinkFwd null fwd back x) (unlinkBack null fwd back x) h'
          ((lists h').filter (· ≠ x)) ∧
        unlinkFwd null fwd back x (((lists h').filter (· ≠ x)).getLastD h') = null := by
    intro h' hh'
    rcases eq_or_ne h' h with rfl | hne
    · have hnodup := hc.nodup h' hh'
      rw [hlist] at hnodup ⊢
      rw [filter_ne_middle hnodup]
      exact hc.unlink_linked hh hlist
    · rw [filter_ne_of_notMem (hother h' hh' hne)]
      refine hc.keep hh' ?_ ?_
      · intro z hz
        refine unlinkFwd_of_ne (fun heq => hne (hc.only hh' hh hz (heq ▸ hlast))) ?_
        intro heq
        rcases List.mem_cons.mp hz with heq' | hmem
        · exact (hc.cell h hh x hx).2 (heq ▸ heq' ▸ hh')
        · exact hother h' hh' hne (heq ▸ hmem)
      · intro z hz
        refine unlinkBack_of_ne ?_ fun heq => hother h' hh' hne (heq ▸ hz)
        intro heq
        rw [hfwd] at heq
        exact hc.headD_ne hh hh' hne
          (fun y hy => hlist ▸ List.mem_append_right xs (List.mem_cons_of_mem x hy)) hz heq
  have hsub : ∀ {h' z}, z ∈ (lists h').filter (· ≠ x) → z ∈ lists h' := List.mem_of_mem_filter
  refine ⟨hc.head, fun h' hh' => (hshape h' hh').1, fun h' hh' => (hshape h' hh').2,
    fun h' hh' => (hc.nodup h' hh').filter _, fun h' hh' z hz => hc.cell h' hh' z (hsub hz),
    fun h₁ h₂ z hh₁ hh₂ hz₁ hz₂ => hc.apart h₁ h₂ z hh₁ hh₂ (hsub hz₁) (hsub hz₂)⟩

end

end VxWorks.Lib
