import Mathlib.Data.FinEnum
import Mathlib.Data.Finite.Prod
import Mathlib.Data.Fintype.Option
import VxWorks.Lib.Descent
import VxWorks.Fs.DosPartPlaced

/-!
# Whether the parser returns

The tables of a disk lead to one another by their extended entries, and nothing keeps an
entry from giving the sector of a table that was parsed already. The parser has no level
it stops at and remembers no sector, so it returns exactly when the tables it comes to
from the Master Boot Record lead back to none of them.

The argument is one equivalence for every amount of fuel: the call returns with `fuel`
calls of stack if and only if every way through the tables is shorter than that. It holds
because a call that returns leaves the level and the first extended partition as they
were, so the entries behind an extended one are read by the same rule as those before it.
-/

namespace VxWorks.Fs

open Lib Relation

/-- A table: the first extended partition above it, and its sector. -/
abbrev Table := Option UInt32 × UInt32

def mbr : Table := (none, 0)

/-- An extended entry of `t`, a table that can be read and is signed, gives `t'`. -/
def LeadsTo (disk : UInt32 → Option Sector) (t t' : Table) : Prop :=
  ∃ sec, disk t.2 = some sec ∧ sec.signed = true ∧
    ∃ e ∈ sec.entries, e.isExtended = true ∧ t' = (some (e.table t.1).1, (e.table t.1).2)

/-- The state in which a call reads table `t`. -/
def ParseState.At (s : ParseState) (t : Table) : Prop :=
  s.Tracks t.1 ∧ if t.1 = none then t.2 = 0 else s.currentOffset = t.2

/-- What a call keeps of the static variables. -/
structure ParseState.Keeps (s s' : ParseState) : Prop where
  level : s'.extPartLevel = s.extPartLevel
  ext : 0 < s.extPartLevel → s'.extPartOffset = s.extPartOffset

theorem ParseState.Keeps.rfl {s : ParseState} : s.Keeps s := ⟨Eq.refl _, fun _ => Eq.refl _⟩

theorem ParseState.Keeps.trans {s₁ s₂ s₃ : ParseState} (h : s₁.Keeps s₂) (h' : s₂.Keeps s₃) :
    s₁.Keeps s₃ :=
  ⟨h'.level.trans h.level, fun hpos => (h'.ext (h.level ▸ hpos)).trans (h.ext hpos)⟩

theorem ParseState.Keeps.tracks {s s' : ParseState} {first : Option UInt32} (h : s.Keeps s')
    (ht : s.Tracks first) : s'.Tracks first := by
  cases first with
  | none => exact h.level.trans ht
  | some first => exact ⟨h.level ▸ ht.1, (h.ext ht.1).trans ht.2⟩

theorem addNode_keeps (s : ParseState) (e : PartEntry) : s.Keeps (s.addNode e) := by
  rw [ParseState.addNode]
  split
  · exact ⟨rfl, fun _ => rfl⟩
  · split
    · exact ⟨rfl, fun _ => rfl⟩
    · exact .rfl

/-- The state in which an extended entry is parsed. -/
def ParseState.below (s : ParseState) (e : PartEntry) : ParseState :=
  let s := (s.addNode e).setOffsets e
  { s with extPartLevel := s.extPartLevel + 1 }

theorem below_at {s : ParseState} {first : Option UInt32} (ht : s.Tracks first) (e : PartEntry) :
    (s.below e).At (some (e.table first).1, (e.table first).2) := by
  obtain ⟨htracks, hcur, -⟩ := setOffsets_tracks ((addNode_keeps s e).tracks ht) e
  exact ⟨htracks, hcur⟩

theorem parseEntry_plain {parse : ParseState → Option (Bool × ParseState)} {e : PartEntry}
    (hx : e.isExtended = false) (s : ParseState) :
    ∃ s', parseEntry parse e s = some s' ∧ s.Keeps s' := by
  rw [parseEntry]
  split
  · exact ⟨s, rfl, .rfl⟩
  · simp only [hx, Bool.false_eq_true, if_false]
    exact ⟨_, rfl, addNode_keeps s e⟩

theorem parseEntry_extended {parse : ParseState → Option (Bool × ParseState)} {e : PartEntry}
    (hx : e.isExtended = true) (s : ParseState) :
    parseEntry parse e s =
      (parse (s.below e)).map fun r => { r.2 with extPartLevel := r.2.extPartLevel - 1 } := by
  have h0 : e.type ≠ 0 := by
    intro h0
    simp [(mountable_type h0).2] at hx
  rw [parseEntry]
  simp only [if_neg h0, hx, if_true]
  show Option.bind (parse (s.below e)) _ = _
  cases parse (s.below e) <;> rfl

/-- The entry behind a call that returns is parsed at the level of the one before. -/
theorem keeps_of_below {s s' : ParseState} {e : PartEntry} (h : (s.below e).Keeps s') :
    s.Keeps { s' with extPartLevel := s'.extPartLevel - 1 } := by
  have hadd := addNode_keeps s e
  have hset : ((s.addNode e).setOffsets e).extPartLevel = s.extPartLevel ∧
      (0 < s.extPartLevel → ((s.addNode e).setOffsets e).extPartOffset = s.extPartOffset) := by
    rw [ParseState.setOffsets]
    split
    · exact ⟨hadd.level, hadd.ext⟩
    · next hlevel =>
        refine ⟨hadd.level, ?_⟩
        intro hpos
        exact absurd (hadd.level ▸ hpos) hlevel
  constructor
  · show s'.extPartLevel - 1 = s.extPartLevel
    rw [h.level]
    exact hset.1
  · intro hpos
    exact (h.ext (Nat.succ_pos _)).trans (hset.2 hpos)

/-- The loop returns if and only if the call of each extended entry does. -/
theorem parseEntries_returns {parse : ParseState → Option (Bool × ParseState)} {Ends : Table → Prop}
    (hkeeps : ∀ s r, 0 < s.extPartLevel → parse s = some r → s.Keeps r.2)
    (hends : ∀ s t, t.1 ≠ none → s.At t → ((∃ r, parse s = some r) ↔ Ends t))
    {first : Option UInt32} {es : List PartEntry} {s : ParseState} (ht : s.Tracks first) :
    (∀ s', parseEntries parse es s = some s' → s.Keeps s') ∧
    ((∃ s', parseEntries parse es s = some s') ↔
      ∀ e ∈ es, e.isExtended = true → Ends (some (e.table first).1, (e.table first).2)) := by
  induction es generalizing s with
  | nil => simp [parseEntries, ParseState.Keeps.rfl]
  | cons e es ih =>
      cases hx : e.isExtended with
      | false =>
          obtain ⟨s₁, hone, hk⟩ := @parseEntry_plain parse e hx s
          obtain ⟨ihk, ihe⟩ := ih (hk.tracks ht)
          have hloop : parseEntries parse (e :: es) s = parseEntries parse es s₁ := by
            simp [parseEntries, hone]
          rw [hloop]
          exact ⟨fun s' hs' => hk.trans (ihk s' hs'), ihe.trans (by simp [hx])⟩
      | true =>
          have hsub := hends (s.below e) _ (Option.some_ne_none _) (below_at ht e)
          simp only [parseEntries, parseEntry_extended hx, List.forall_mem_cons, hx,
            forall_const]
          cases hcall : parse (s.below e) with
          | none =>
              have hnot : ¬ Ends (some (e.table first).1, (e.table first).2) := by
                rw [← hsub, hcall]
                simp
              simp [hnot]
          | some r =>
              have hend : Ends (some (e.table first).1, (e.table first).2) :=
                hsub.mp ⟨r, hcall⟩
              have hk := keeps_of_below (hkeeps _ r (Nat.succ_pos _) hcall)
              obtain ⟨ihk, ihe⟩ := ih (hk.tracks ht)
              simp only [hend, true_and]
              exact ⟨fun s' hs' => hk.trans (ihk s' hs'), ihe⟩

section

variable {disk : UInt32 → Option Sector}

/-- Behind the test of the level the table is the one at `currentOffset`. -/
theorem ParseState.At.enter {s : ParseState} {t : Table} (h : s.At t) :
    let s' := if s.extPartLevel = 0 then { s with extPartOffset := 0, currentOffset := 0 } else s
    s'.currentOffset = t.2 ∧ s'.Tracks t.1 ∧ s.Keeps s' := by
  obtain ⟨first, lba⟩ := t
  obtain ⟨ht, hlba⟩ := h
  cases first with
  | none =>
      have h0 : s.extPartLevel = 0 := ht
      have hl0 : lba = 0 := by simpa using hlba
      rw [if_pos h0]
      exact ⟨hl0.symm, h0, rfl, fun hpos => absurd h0 (Nat.ne_of_gt hpos)⟩
  | some first =>
      have hne : s.extPartLevel ≠ 0 := Nat.pos_iff_ne_zero.mp ht.1
      rw [if_neg hne]
      exact ⟨by simpa using hlba, ht, .rfl⟩

/-- With `fuel` calls of stack the parser returns from `t` if and only if every way from
`t` is shorter than that. -/
theorem dosPartParseAta_within (fuel : Nat) {s : ParseState} {t : Table} (h : s.At t) :
    (∀ r, dosPartParseAta disk fuel s = some r → s.Keeps r.2) ∧
    ((∃ r, dosPartParseAta disk fuel s = some r) ↔ Within (LeadsTo disk) fuel t) := by
  induction fuel generalizing s t with
  | zero => simp [dosPartParseAta, Within]
  | succ fuel ih =>
      obtain ⟨hcur, ht, hk⟩ := h.enter
      rw [dosPartParseAta]
      simp only [hcur]
      cases hread : disk t.2 with
      | none => simpa [Within, LeadsTo, hread] using hk
      | some sec =>
          cases hsig : sec.signed with
          | false => simpa [Within, LeadsTo, hread, hsig] using hk
          | true =>
              obtain ⟨hkeeps, hends⟩ := @parseEntries_returns (dosPartParseAta disk fuel)
                (Within (LeadsTo disk) fuel)
                (fun s r hpos hr =>
                  (ih (t := (some s.extPartOffset, s.currentOffset)) ⟨⟨hpos, rfl⟩, by simp⟩).1 r hr)
                (fun s t _ hat => (ih hat).2) _ sec.entries _ ht
              have hwithin : Within (LeadsTo disk) (fuel + 1) t ↔
                  ∀ e ∈ sec.entries, e.isExtended = true →
                    Within (LeadsTo disk) fuel (some (e.table t.1).1, (e.table t.1).2) := by
                constructor
                · intro hw e he hx
                  exact hw _ ⟨sec, hread, hsig, e, he, hx, rfl⟩
                · rintro hall t' ⟨sec', hread', -, e, he, hx, rfl⟩
                  obtain rfl : sec = sec' := Option.some.inj (hread.symm.trans hread')
                  exact hall e he hx
              rw [hwithin, ← hends]
              simp only [hsig, Bool.true_eq_false, if_false]
              generalize parseEntries _ _ _ = parsed at hkeeps ⊢
              cases parsed with
              | none => simp
              | some s' => simpa using hk.trans (hkeeps s' rfl)

theorem parseStart_at {s : ParseState} (hlevel : s.extPartLevel = 0) : s.At mbr :=
  ⟨hlevel, by simp [mbr]⟩

end

/-- The parser returns if and only if none of the tables it comes to from the Master Boot
Record leads back to itself. -/
theorem parse_returns_iff (disk : UInt32 → Option Sector) (s : ParseState)
    (hlevel : s.extPartLevel = 0) :
    (∃ fuel r, dosPartParseAta disk fuel s = some r) ↔
      ∀ t, ReflTransGen (LeadsTo disk) mbr t → ¬ TransGen (LeadsTo disk) t t := by
  rw [← exists_within_iff]
  exact exists_congr fun fuel => (dosPartParseAta_within fuel (parseStart_at hlevel)).2

/-- A chain of two tables. -/
theorem parse_returns_usual : ∃ fuel r, dosPartParseAta usualDisk fuel parseStart = some r := by
  refine (parse_returns_iff usualDisk parseStart rfl).mpr ?_
  have hchain : (dosPartParseAta usualDisk 2 parseStart).isSome := by decide +kernel
  exact exists_within_iff.mp
    ⟨2, (dosPartParseAta_within 2 (parseStart_at rfl)).2.mp (Option.isSome_iff_exists.mp hchain)⟩

/-- An extended partition at sector 100, whose table gives itself as the next one. -/
def loopDisk (lba : UInt32) : Option Sector :=
  if lba = 0 then some (tableSector [entryBytes 0x00 0x05 100 40])
  else if lba = 100 then some (tableSector [entryBytes 0x00 0x06 1 20, entryBytes 0x00 0x05 0 20])
  else none

theorem parse_loops : ¬ ∃ fuel r, dosPartParseAta loopDisk fuel parseStart = some r := by
  rintro ⟨fuel, hr⟩
  have hwithin := (dosPartParseAta_within fuel (parseStart_at rfl)).2.mp hr
  have hleads : LeadsTo loopDisk mbr (some 100, 100) :=
    ⟨tableSector [entryBytes 0x00 0x05 100 40], rfl, by decide +kernel,
      ⟨0, 0, 0, 0x05, 0, 0, 100, 40⟩, by decide +kernel, by decide +kernel, by decide +kernel⟩
  have hloop : LeadsTo loopDisk (some 100, 100) (some 100, 100) :=
    ⟨tableSector [entryBytes 0x00 0x06 1 20, entryBytes 0x00 0x05 0 20], rfl, by decide +kernel,
      ⟨0, 0, 0, 0x05, 0, 0, 0, 20⟩, by decide +kernel, by decide +kernel, by decide +kernel⟩
  exact (hwithin.reach (.single hleads)).acyclic (.single hloop)

end VxWorks.Fs
