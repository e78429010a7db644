import Mathlib.Data.List.Basic
import Mathlib.Data.List.Count
import Mathlib.Data.List.Perm.Basic
import VxWorks.Fs.DosPart

/-!
# Where the partitions are placed

The parser is followed by the list of the entries it makes nodes of, each with the LBA
of its table and with what `currentOffset` was at the time. The two differ for an entry
behind an extended one, and then they cannot be the same number by accident: what is
left in `currentOffset` is the LBA of a table without extended entries, and the table
of the entry has one. That is also why no two wrong placements can make up for each
other, and the list is right as a whole only when each node is.
-/

namespace VxWorks.Fs

/-- An entry that becomes a node: the LBA of its table, and `currentOffset`. -/
structure Visit where
  entry : PartEntry
  lba : UInt32
  current : UInt32
deriving DecidableEq

def ownVisit (e : PartEntry) (lba current : UInt32) : List Visit :=
  if e.mountable then [⟨e, lba, current⟩] else []

/-- The entries of a table and of those below, and `currentOffset` afterwards. -/
def visitEntries (sub : Option UInt32 → UInt32 → List Visit × UInt32) (first : Option UInt32)
    (lba : UInt32) : List PartEntry → UInt32 → List Visit × UInt32
  | [], current => ([], current)
  | e :: es, current =>
      let below := if e.isExtended then sub (some (e.table first).1) (e.table first).2
        else ([], current)
      let rest := visitEntries sub first lba es below.2
      (ownVisit e lba current ++ below.1 ++ rest.1, rest.2)

def visits (disk : UInt32 → Option Sector) : Nat → Option UInt32 → UInt32 → List Visit × UInt32
  | 0, _, lba => ([], lba)
  | n + 1, first, lba =>
      match disk lba with
      | none => ([], lba)
      | some sec => visitEntries (visits disk n) first lba sec.entries lba

/-- The node the parser makes. -/
def Visit.found (v : Visit) : PartNode :=
  ⟨v.entry, v.entry.nSectors,
    if v.entry.status = partIsBootable then v.entry.absSec else v.entry.absSec + v.current⟩

/-- The node there should be. -/
def Visit.right (v : Visit) : PartNode := ⟨v.entry, v.entry.nSectors, v.entry.absSec + v.lba⟩

def Visit.add (list : List PartNode) (v : Visit) : List PartNode :=
  if v.entry.status = partIsBootable then v.found :: list else list ++ [v.found]

/-! ## The parser makes these nodes -/

section

variable {disk : UInt32 → Option Sector}

theorem isExtended_of_isDos {e : PartEntry} (h : e.isDos = true) : e.isExtended = false := by
  simp only [PartEntry.isDos, Bool.or_eq_true, beq_iff_eq] at h
  rcases h with ((h | h) | h) | h <;> simp [PartEntry.isExtended, h]

theorem addNode_eq (s : ParseState) (e : PartEntry) (lba : UInt32) :
    s.addNode e = { s with
      pVxPartDll := (ownVisit e lba s.currentOffset).foldl Visit.add s.pVxPartDll } := by
  rw [ParseState.addNode, ownVisit, PartEntry.mountable]
  cases hdos : e.isDos with
  | false => simp
  | true =>
      by_cases hboot : e.status = partIsBootable
      · simp [hboot, isExtended_of_isDos hdos, Visit.add, Visit.found]
      · by_cases hnot : e.status = partNotBootable
        · simp [hnot, Visit.add, Visit.found, partIsBootable, partNotBootable]
        · simp [hboot, hnot]

theorem mountable_type {e : PartEntry} (h : e.type = 0) :
    e.mountable = false ∧ e.isExtended = false := by
  simp [PartEntry.mountable, PartEntry.isDos, PartEntry.isExtended, h]

/-- The variables a call at the level of `first` goes by. -/
def ParseState.Tracks (s : ParseState) : Option UInt32 → Prop
  | none => s.extPartLevel = 0
  | some first => 0 < s.extPartLevel ∧ s.extPartOffset = first

/-- What a call leaves: its level, its offsets but for `currentOffset`, and the nodes. -/
structure ParseState.Leaves (s : ParseState) (vs : List Visit × UInt32) (s' : ParseState) :
    Prop where
  level : s'.extPartLevel = s.extPartLevel
  ext : 0 < s.extPartLevel → s'.extPartOffset = s.extPartOffset
  current : s'.currentOffset = vs.2
  list : s'.pVxPartDll = vs.1.foldl Visit.add s.pVxPartDll

theorem ParseState.Leaves.tracks {s s' : ParseState} {vs : List Visit × UInt32}
    {first : Option UInt32} (h : s.Leaves vs s') (ht : s.Tracks first) : s'.Tracks first := by
  cases first with
  | none => exact h.level.trans ht
  | some first => exact ⟨h.level ▸ ht.1, (h.ext ht.1).trans ht.2⟩

/-- The call for an extended entry starts with the offsets of its table. -/
theorem setOffsets_tracks {s : ParseState} {first : Option UInt32} (ht : s.Tracks first)
    (e : PartEntry) :
    ParseState.Tracks
        { s.setOffsets e with extPartLevel := (s.setOffsets e).extPartLevel + 1 }
        (some (e.table first).1) ∧
      (s.setOffsets e).currentOffset = (e.table first).2 ∧
      (s.setOffsets e).extPartLevel = s.extPartLevel ∧
      (0 < s.extPartLevel → (s.setOffsets e).extPartOffset = s.extPartOffset) ∧
      (s.setOffsets e).pVxPartDll = s.pVxPartDll := by
  rw [ParseState.setOffsets]
  cases first with
  | none =>
      have h0 : s.extPartLevel = 0 := ht
      simp [h0, ParseState.Tracks, PartEntry.table]
  | some first =>
      obtain ⟨hpos, hext⟩ := ht
      simp [hpos, hext, ParseState.Tracks, PartEntry.table]

/-- One entry; `sub` is what the calls for the tables below it do. -/
theorem parseEntry_leaves {parse : ParseState → Option (Bool × ParseState)}
    {sub : Option UInt32 → UInt32 → List Visit × UInt32} {first : Option UInt32} {lba : UInt32}
    {e : PartEntry} {s : ParseState} (ht : s.Tracks first)
    (hsub : e.isExtended = true → ∀ s, s.Tracks (some (e.table first).1) →
      s.currentOffset = (e.table first).2 → ∃ ok s', parse s = some (ok, s') ∧
        s.Leaves (sub (some (e.table first).1) (e.table first).2) s') :
    ∃ s', parseEntry parse e s = some s' ∧
      s.Leaves (ownVisit e lba s.currentOffset ++
          (if e.isExtended then sub (some (e.table first).1) (e.table first).2
            else ([], s.currentOffset)).1,
        (if e.isExtended then sub (some (e.table first).1) (e.table first).2
          else ([], s.currentOffset)).2) s' := by
  rw [parseEntry]
  by_cases h0 : e.type = 0
  · obtain ⟨hm, hx⟩ := mountable_type h0
    rw [if_pos h0]
    refine ⟨s, rfl, rfl, fun _ => rfl, ?_, ?_⟩
    · simp [hx]
    · simp [ownVisit, hm, hx]
  · rw [if_neg h0, addNode_eq s e lba]
    cases hx : e.isExtended with
    | false => exact ⟨_, rfl, rfl, fun _ => rfl, rfl, by simp⟩
    | true =>
        let s₁ : ParseState := { s with
          pVxPartDll := (ownVisit e lba s.currentOffset).foldl Visit.add s.pVxPartDll }
        have ht₁ : s₁.Tracks first := by cases first <;> exact ht
        obtain ⟨htracks, hcur, hlevel, hext, hlist⟩ := setOffsets_tracks ht₁ e
        obtain ⟨ok, s', hcall, hl⟩ := hsub hx _ htracks hcur
        refine ⟨{ s' with extPartLevel := s'.extPartLevel - 1 }, ?_, ?_, ?_, ?_, ?_⟩
        · show (parse _).bind _ = _
          rw [hcall]
          rfl
        · show s'.extPartLevel - 1 = s.extPartLevel
          rw [hl.level]
          exact hlevel
        · intro hpos
          exact (hl.ext (Nat.succ_pos _)).trans (hext hpos)
        · exact hl.current
        · show s'.pVxPartDll = _
          rw [hl.list, List.foldl_append]
          exact congrArg (fun l => List.foldl Visit.add l
            (sub (some (e.table first).1) (e.table first).2).1) hlist

theorem parseEntries_leaves {parse : ParseState → Option (Bool × ParseState)}
    {sub : Option UInt32 → UInt32 → List Visit × UInt32} {first : Option UInt32} {lba : UInt32} :
    ∀ {es : List PartEntry} {s : ParseState}, s.Tracks first →
      (∀ e ∈ es, e.isExtended = true → ∀ s, s.Tracks (some (e.table first).1) →
        s.currentOffset = (e.table first).2 → ∃ ok s', parse s = some (ok, s') ∧
          s.Leaves (sub (some (e.table first).1) (e.table first).2) s') →
      ∃ s', parseEntries parse es s = some s' ∧
        s.Leaves (visitEntries sub first lba es s.currentOffset) s'
  | [], s, _, _ => ⟨s, rfl, rfl, fun _ => rfl, rfl, rfl⟩
  | e :: es, s, ht, hsub => by
      obtain ⟨s₁, hone, hl₁⟩ := @parseEntry_leaves parse sub first lba e s ht
        (hsub e (List.mem_cons_self ..))
      obtain ⟨s₂, hrest, hl₂⟩ := @parseEntries_leaves _ _ _ lba es s₁ (hl₁.tracks ht)
        fun e' he' => hsub e' (List.mem_cons_of_mem _ he')
      refine ⟨s₂, ?_, hl₂.level.trans hl₁.level, ?_, ?_, ?_⟩
      · simp [parseEntries, hone, hrest]
      · intro hpos
        exact (hl₂.ext (hl₁.level ▸ hpos)).trans (hl₁.ext hpos)
      · rw [hl₂.current, hl₁.current]
        rfl
      · rw [hl₂.list, hl₁.list, hl₁.current]
        simp only [visitEntries, List.foldl_append]

theorem dosPartParseAta_leaves : ∀ {n fuel : Nat} {first : Option UInt32} {lba : UInt32}
    {s : ParseState}, FiniteChain disk n first lba → n ≤ fuel → s.Tracks first →
    (if first = none then lba = 0 else s.currentOffset = lba) →
    ∃ s', dosPartParseAta disk fuel s = some (true, s') ∧ s.Leaves (visits disk n first lba) s'
  | 0, _, _, _, _, hfin, _, _, _ => absurd hfin id
  | n + 1, 0, _, _, _, _, hfuel, _, _ => absurd hfuel (Nat.not_succ_le_zero n)
  | n + 1, fuel + 1, first, lba, s, hfin, hfuel, ht, hlba => by
      obtain ⟨sec, hread, hsig, hbelow⟩ := hfin
      -- the state behind the test of the level
      let s₁ : ParseState :=
        if s.extPartLevel = 0 then { s with extPartOffset := 0, currentOffset := 0 } else s
      have hs₁ : s₁.currentOffset = lba ∧ s₁.Tracks first ∧ s₁.extPartLevel = s.extPartLevel ∧
          (0 < s.extPartLevel → s₁.extPartOffset = s.extPartOffset) ∧
          s₁.pVxPartDll = s.pVxPartDll := by
        cases first with
        | none =>
            have h0 : s.extPartLevel = 0 := ht
            have hl0 : lba = 0 := by simpa using hlba
            simp [s₁, h0, hl0, ParseState.Tracks]
        | some first =>
            have hne : s.extPartLevel ≠ 0 := Nat.pos_iff_ne_zero.mp ht.1
            have hcur : s.currentOffset = lba := by simpa using hlba
            simp only [s₁, if_neg hne]
            exact ⟨hcur, ht, trivial, fun _ => trivial, trivial⟩
      obtain ⟨hcur, ht₁, hlevel, hext, hlist⟩ := hs₁
      obtain ⟨s', hentries, hl⟩ := @parseEntries_leaves (dosPartParseAta disk fuel)
        (visits disk n) first lba sec.entries s₁ ht₁ fun e he hx s hts hcs => by
          obtain ⟨s', hcall, hl⟩ := dosPartParseAta_leaves (hbelow e he hx)
            (Nat.le_of_succ_le_succ hfuel) hts (by simpa using hcs)
          exact ⟨true, s', hcall, hl⟩
      have hread' : disk s₁.currentOffset = some sec := by rw [hcur, hread]
      refine ⟨s', ?_, hl.level.trans hlevel, ?_, ?_, ?_⟩
      · rw [dosPartParseAta]
        simp only [s₁] at hread' hentries
        simp [hread', hsig, hentries]
      · intro hpos
        exact (hl.ext (hlevel.symm ▸ hpos)).trans (hext hpos)
      · rw [hl.current, visits, hread, hcur]
      · rw [hl.list, visits, hread, hcur, hlist]

theorem foldl_add_perm (vs : List Visit) (list : List PartNode) :
    (vs.foldl Visit.add list).Perm (list ++ vs.map Visit.found) := by
  induction vs generalizing list with
  | nil => simp
  | cons v vs ih =>
      refine (ih _).trans ?_
      rw [Visit.add]
      split
      · exact List.perm_middle.symm
      · simp

/-! ## The nodes there should be -/

theorem visitEntries_right {sub : Option UInt32 → UInt32 → List Visit × UInt32}
    {first : Option UInt32} {lba : UInt32} (es : List PartEntry) (current : UInt32) :
    (visitEntries sub first lba es current).1.map Visit.right =
      es.flatMap fun e =>
        (if e.mountable then [⟨e, e.nSectors, e.absSec + lba⟩] else []) ++
        (if e.isExtended then
          (sub (some (e.table first).1) (e.table first).2).1.map Visit.right else []) := by
  induction es generalizing current with
  | nil => rfl
  | cons e es ih =>
      simp only [visitEntries, List.map_append, ih, List.flatMap_cons]
      congr 2
      · rw [ownVisit]
        split <;> rfl
      · split <;> rfl

theorem visits_right : ∀ (n : Nat) (first : Option UInt32) (lba : UInt32),
    (visits disk n first lba).1.map Visit.right = partitions disk n first lba
  | 0, _, _ => rfl
  | n + 1, first, lba => by
      rw [visits, partitions]
      cases disk lba with
      | none => rfl
      | some sec =>
          simp only [visitEntries_right, visits_right n]

/-! ## What is left in `currentOffset` -/

/-- The sector has no extended entry. -/
def isLeaf (disk : UInt32 → Option Sector) (lba : UInt32) : Bool :=
  match disk lba with
  | none => true
  | some sec => sec.entries.all fun e => !e.isExtended

/-- The offset is that of the table, or of another table that it cannot be mistaken for. -/
def Visit.Apart (disk : UInt32 → Option Sector) (v : Visit) : Prop :=
  v.current = v.lba ∨ isLeaf disk v.current = true ∧ isLeaf disk v.lba = false

theorem visitEntries_apart {sub : Option UInt32 → UInt32 → List Visit × UInt32}
    {first : Option UInt32} {lba : UInt32} :
    ∀ {es : List PartEntry} {current : UInt32},
      (∀ e ∈ es, e.isExtended = true →
        (∀ v ∈ (sub (some (e.table first).1) (e.table first).2).1, v.Apart disk) ∧
          isLeaf disk (sub (some (e.table first).1) (e.table first).2).2 = true ∧
          isLeaf disk lba = false) →
      (current = lba ∨ isLeaf disk current = true ∧ isLeaf disk lba = false) →
      (∀ v ∈ (visitEntries sub first lba es current).1, v.Apart disk) ∧
        ((visitEntries sub first lba es current).2 = current ∧
            (∀ e ∈ es, e.isExtended = false) ∨
          isLeaf disk (visitEntries sub first lba es current).2 = true)
  | [], current, _, _ => ⟨by simp [visitEntries], .inl ⟨rfl, by simp⟩⟩
  | e :: es, current, hsub, hcur => by
      have hown : ∀ v ∈ ownVisit e lba current, v.Apart disk := by
        intro v hv
        rw [ownVisit] at hv
        split at hv
        · obtain rfl := List.mem_singleton.mp hv
          exact hcur
        · simp at hv
      have hrest := fun current' => @visitEntries_apart sub first lba es current'
        (fun e' he' => hsub e' (List.mem_cons_of_mem _ he'))
      cases hx : e.isExtended with
      | false =>
          obtain ⟨hvs, hleft⟩ := hrest current hcur
          simp only [visitEntries, hx, Bool.false_eq_true, if_false, List.append_nil]
          refine ⟨?_, ?_⟩
          · intro v hv
            rcases List.mem_append.mp hv with hv | hv
            · exact hown v hv
            · exact hvs v hv
          · rcases hleft with ⟨heq, hnone⟩ | hleaf
            · refine .inl ⟨heq, ?_⟩
              intro e' he'
              rcases List.mem_cons.mp he' with rfl | he'
              · exact hx
              · exact hnone e' he'
            · exact .inr hleaf
      | true =>
          obtain ⟨hbelow, hleaf, hlba⟩ := hsub e (List.mem_cons_self ..) hx
          obtain ⟨hvs, hleft⟩ := hrest _ (.inr ⟨hleaf, hlba⟩)
          simp only [visitEntries, hx, if_true]
          refine ⟨?_, ?_⟩
          · intro v hv
            rcases List.mem_append.mp hv with hv | hv
            · rcases List.mem_append.mp hv with hv | hv
              · exact hown v hv
              · exact hbelow v hv
            · exact hvs v hv
          · rcases hleft with ⟨heq, -⟩ | hleaf'
            · right
              rw [heq]
              exact hleaf
            · exact .inr hleaf'

theorem visits_apart : ∀ {n : Nat} {first : Option UInt32} {lba : UInt32},
    FiniteChain disk n first lba →
    (∀ v ∈ (visits disk n first lba).1, v.Apart disk) ∧
      isLeaf disk (visits disk n first lba).2 = true
  | 0, _, _, hfin => absurd hfin id
  | n + 1, first, lba, hfin => by
      obtain ⟨sec, hread, -, hbelow⟩ := hfin
      have hnot : ∀ e ∈ sec.entries, e.isExtended = true → isLeaf disk lba = false := by
        intro e he hx
        simp only [isLeaf, hread, List.all_eq_false]
        exact ⟨e, he, by simp [hx]⟩
      rw [visits, hread]
      obtain ⟨hvs, hleft⟩ := @visitEntries_apart disk (visits disk n) first lba sec.entries lba
        (fun e he hx => ⟨(visits_apart (hbelow e he hx)).1, (visits_apart (hbelow e he hx)).2,
          hnot e he hx⟩) (.inl rfl)
      refine ⟨hvs, ?_⟩
      rcases hleft with ⟨heq, hnone⟩ | hleaf
      · show isLeaf disk (visitEntries _ _ _ _ _).2 = true
        rw [heq]
        simp only [isLeaf, hread, List.all_eq_true]
        exact fun e he => by simp [hnone e he]
      · exact hleaf

/-! ## Which visits are placed right -/

def Visit.Good (v : Visit) : Prop :=
  if v.entry.status = partIsBootable then v.lba = 0 else v.current = v.lba

theorem Visit.Good.found_eq {v : Visit} (h : v.Good) : v.found = v.right := by
  unfold Visit.Good at h
  rw [Visit.found, Visit.right]
  by_cases hb : v.entry.status = partIsBootable
  · rw [if_pos hb] at h
    simp [hb, h]
  · rw [if_neg hb] at h
    simp [hb, h]

theorem forall_ownVisit {P : Visit → Prop} {e : PartEntry} {lba current : UInt32} :
    (∀ v ∈ ownVisit e lba current, P v) ↔ (e.mountable = true → P ⟨e, lba, current⟩) := by
  rw [ownVisit]
  cases e.mountable <;> simp

theorem placedEntries_iff {placed : Option UInt32 → UInt32 → Prop}
    {sub : Option UInt32 → UInt32 → List Visit × UInt32} {first : Option UInt32} {lba : UInt32} :
    ∀ {es : List PartEntry} {behind : Bool} {current : UInt32},
      (∀ e ∈ es, e.isExtended = true →
        (placed (some (e.table first).1) (e.table first).2 ↔
          ∀ v ∈ (sub (some (e.table first).1) (e.table first).2).1, v.Good) ∧
        (sub (some (e.table first).1) (e.table first).2).2 ≠ lba) →
      (behind = false ↔ current = lba) →
      (placedEntries placed first lba behind es ↔
        ∀ v ∈ (visitEntries sub first lba es current).1, v.Good)
  | [], _, _, _, _ => by simp [placedEntries, visitEntries]
  | e :: es, behind, current, hsub, hcur => by
      have hown : (e.mountable = true →
            if e.status = partIsBootable then lba = 0 else behind = false) ↔
          ∀ v ∈ ownVisit e lba current, v.Good := by
        rw [forall_ownVisit, Visit.Good, hcur]
      have hrest := fun behind' current' => @placedEntries_iff placed sub first lba es behind'
        current' (fun e' he' => hsub e' (List.mem_cons_of_mem _ he'))
      rw [placedEntries, hown]
      cases hx : e.isExtended with
      | false =>
          simp only [visitEntries, hx, Bool.false_eq_true, if_false, List.append_nil,
            Bool.or_false, List.forall_mem_append]
          rw [hrest behind current hcur]
          simp
      | true =>
          obtain ⟨hbelow, hne⟩ := hsub e (List.mem_cons_self ..) hx
          simp only [visitEntries, hx, if_true, Bool.or_true, List.forall_mem_append]
          rw [hrest true _ (by simpa using hne), hbelow]
          simp [and_assoc]

theorem placed_iff : ∀ {n : Nat} {first : Option UInt32} {lba : UInt32},
    FiniteChain disk n first lba →
    (Placed disk n first lba ↔ ∀ v ∈ (visits disk n first lba).1, v.Good)
  | 0, _, _, hfin => absurd hfin id
  | n + 1, first, lba, hfin => by
      obtain ⟨sec, hread, -, hbelow⟩ := hfin
      have hsub : ∀ e ∈ sec.entries, e.isExtended = true →
          (Placed disk n (some (e.table first).1) (e.table first).2 ↔
            ∀ v ∈ (visits disk n (some (e.table first).1) (e.table first).2).1, v.Good) ∧
          (visits disk n (some (e.table first).1) (e.table first).2).2 ≠ lba := by
        intro e he hx
        refine ⟨placed_iff (hbelow e he hx), ?_⟩
        intro heq
        -- the table at `lba` has an extended entry, the last one below it has none
        have hleaf := (visits_apart (hbelow e he hx)).2
        rw [heq, isLeaf, hread] at hleaf
        have := List.all_eq_true.mp hleaf e he
        simp [hx] at this
      rw [Placed, visits, hread]
      simp only [Option.some.injEq, forall_eq']
      exact placedEntries_iff hsub (by simp)

/-! ## No two wrong nodes make up for each other -/

theorem forall_of_countP_eq {α : Type} {p q : α → Bool} {l : List α}
    (himp : ∀ a ∈ l, p a = true → q a = true) (hcount : l.countP p = l.countP q) :
    ∀ a ∈ l, q a = true → p a = true := by
  induction l with
  | nil => simp
  | cons a l ih =>
      have hle : l.countP p ≤ l.countP q :=
        List.countP_mono_left fun b hb => himp b (List.mem_cons_of_mem _ hb)
      have ha := himp a (List.mem_cons_self ..)
      rw [List.countP_cons, List.countP_cons] at hcount
      intro b hb hq
      rcases List.mem_cons.mp hb with rfl | hb
      · by_contra hp
        rw [if_neg hp, if_pos hq] at hcount
        omega
      · refine ih (fun c hc => himp c (List.mem_cons_of_mem _ hc)) ?_ b hb hq
        by_cases hp : p a = true
        · rw [if_pos hp, if_pos (ha hp)] at hcount
          omega
        · rw [if_neg hp] at hcount
          split at hcount <;> omega

/-- A node that can only have come from a place the parser does not know: a bootable one
that is not where its entry says, or another one in a table with an extended entry. -/
def tellsTable (disk : UInt32 → Option Sector) (node : PartNode) : Bool :=
  let base := node.dosPartBlkOffset - node.dosPart.absSec
  if node.dosPart.status = partIsBootable then base ≠ 0 else !isLeaf disk base

theorem tellsTable_right (v : Visit) : tellsTable disk v.right =
    if v.entry.status = partIsBootable then decide (v.lba ≠ 0) else !isLeaf disk v.lba := by
  have hbase : v.entry.absSec + v.lba - v.entry.absSec = v.lba := by
    rw [UInt32.add_comm, UInt32.add_sub_cancel]
  simp only [tellsTable, Visit.right, hbase]

theorem tellsTable_found (v : Visit) : tellsTable disk v.found =
    if v.entry.status = partIsBootable then false else !isLeaf disk v.current := by
  have hbase : v.entry.absSec + v.current - v.entry.absSec = v.current := by
    rw [UInt32.add_comm, UInt32.add_sub_cancel]
  rw [tellsTable, Visit.found]
  by_cases hb : v.entry.status = partIsBootable
  · simp [hb]
  · simp [hb, hbase]

theorem good_of_perm {vs : List Visit} (hapart : ∀ v ∈ vs, v.Apart disk)
    (hperm : (vs.map Visit.found).Perm (vs.map Visit.right)) : ∀ v ∈ vs, v.Good := by
  have hcount := hperm.countP_eq (tellsTable disk)
  rw [List.countP_map, List.countP_map] at hcount
  have himp : ∀ v ∈ vs, (tellsTable disk ∘ Visit.found) v = true →
      (tellsTable disk ∘ Visit.right) v = true := by
    intro v hv h
    simp only [Function.comp_apply, tellsTable_found, tellsTable_right] at h ⊢
    by_cases hb : v.entry.status = partIsBootable
    · simp [hb] at h
    · rw [if_neg hb] at h ⊢
      rcases hapart v hv with heq | ⟨hleaf, -⟩
      · rwa [← heq]
      · simp [hleaf] at h
  intro v hv
  have hback := forall_of_countP_eq himp hcount v hv
  simp only [Function.comp_apply, tellsTable_found, tellsTable_right] at hback
  unfold Visit.Good
  by_cases hb : v.entry.status = partIsBootable
  · rw [if_pos hb]
    simpa [hb] using hback
  · rw [if_neg hb]
    rcases hapart v hv with heq | ⟨hleaf, hnot⟩
    · exact heq
    · simp [hb, hleaf, hnot] at hback

end

/-- On a disk with a finite chain of signed tables the parser returns, and its list has
exactly the partitions of the disk, each where it is, if and only if no bootable DOS
entry is outside the table at LBA 0 and no other DOS entry is behind an extended one. -/
theorem parse_places_iff (disk : UInt32 → Option Sector) (n fuel : Nat) (s : ParseState)
    (hfin : FiniteChain disk n none 0) (hfuel : n ≤ fuel) (hlevel : s.extPartLevel = 0)
    (hlist : s.pVxPartDll = []) :
    ∃ s', dosPartParseAta disk fuel s = some (true, s') ∧
      (s'.pVxPartDll.Perm (partitions disk n none 0) ↔ Placed disk n none 0) := by
  obtain ⟨s', hcall, hl⟩ := dosPartParseAta_leaves hfin hfuel
    (show s.Tracks none from hlevel) (by simp)
  refine ⟨s', hcall, ?_⟩
  have hfound : s'.pVxPartDll.Perm ((visits disk n none 0).1.map Visit.found) := by
    rw [hl.list, hlist]
    exact foldl_add_perm _ []
  rw [placed_iff hfin, ← visits_right]
  constructor
  · intro hperm
    exact good_of_perm (visits_apart hfin).1 (hfound.symm.trans hperm)
  · intro hgood
    have heq : (visits disk n none 0).1.map Visit.found =
        (visits disk n none 0).1.map Visit.right :=
      List.map_congr_left fun v hv => (hgood v hv).found_eq
    exact heq ▸ hfound

/-- The bytes of an entry, for small offsets and sizes. -/
def entryBytes (status type absSec nSectors : UInt8) : List UInt8 :=
  [status, 0, 0, 0, type, 0, 0, 0, absSec, 0, 0, 0, nSectors, 0, 0, 0]

/-- A signed sector with these entries. -/
def tableSector (entries : List (List UInt8)) : Sector := fun a =>
  if a = partSigAdrs then 0x55
  else if a = partSigAdrs + 1 then 0xaa
  else if a < dosBootPartTbl then 0
  else (entries.flatten[a - dosBootPartTbl]?).getD 0

/-- A DOS partition at sector 50 and an extended one at 100, with a DOS partition in it. -/
def usualDisk (lba : UInt32) : Option Sector :=
  if lba = 0 then some (tableSector [entryBytes 0x80 0x06 50 10, entryBytes 0x00 0x05 100 40])
  else if lba = 100 then some (tableSector [entryBytes 0x00 0x06 1 20])
  else none

/-- The same partitions, the extended one first. -/
def swappedDisk (lba : UInt32) : Option Sector :=
  if lba = 0 then some (tableSector [entryBytes 0x00 0x05 100 40, entryBytes 0x00 0x06 50 10])
  else if lba = 100 then some (tableSector [entryBytes 0x80 0x06 1 20])
  else none

def parseStart : ParseState := ⟨0, 0, 0, []⟩

theorem parse_places_usual :
    ∃ s', dosPartParseAta usualDisk 2 parseStart = some (true, s') ∧
      s'.pVxPartDll.Perm (partitions usualDisk 2 none 0) := by
  have hfin : FiniteChain usualDisk 2 none 0 := by decide +kernel
  have hplaced : Placed usualDisk 2 none 0 := by decide +kernel
  obtain ⟨s', hcall, hiff⟩ := parse_places_iff usualDisk 2 2 parseStart hfin (Nat.le_refl _) rfl rfl
  exact ⟨s', hcall, hiff.mpr hplaced⟩

/-- The partition behind the extended one is placed 100 sectors too far, and the bootable
one in the extended partition 100 sectors too near. -/
theorem parse_misplaces :
    FiniteChain swappedDisk 2 none 0 ∧
    ∃ s', dosPartParseAta swappedDisk 2 parseStart = some (true, s') ∧
      ¬ s'.pVxPartDll.Perm (partitions swappedDisk 2 none 0) := by
  have hlist : (dosPartParseAta swappedDisk 2 parseStart).map (fun r => (r.1, r.2.pVxPartDll)) =
      some (true, [⟨⟨0x80, 0, 0, 0x06, 0, 0, 1, 20⟩, 20, 1⟩,
        ⟨⟨0x00, 0, 0, 0x06, 0, 0, 50, 10⟩, 10, 150⟩]) := by decide +kernel
  obtain ⟨⟨ok, s'⟩, hcall, hr⟩ := Option.map_eq_some_iff.mp hlist
  obtain ⟨rfl, hs'⟩ := Prod.mk.inj hr
  refine ⟨by decide +kernel, s', hcall, ?_⟩
  rw [hs']
  decide +kernel

end VxWorks.Fs
