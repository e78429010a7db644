import Mathlib.Data.List.Basic
import Mathlib.Data.List.Count
import Mathlib.Data.List.Perm.Basic

/-!
# Partition tables (dosPartLibAta.c)

A table is the last part of a sector, with four entries. An entry of the Master Boot
Record that is an extended partition gives the sector of another table; the entries of
that table are relative to it, except those that are extended partitions again, which
are relative to the first one.

`dosPartParseAta` calls itself for the extended partitions, but what it adds to the
offset of an entry, `currentOffset`, is static: one variable for all levels. A call
sets it for the table it goes to, and nobody sets it back. So an entry behind an
extended partition is placed relative to the last table that was read below it. And a
bootable entry is not placed relative to anything, which is right in the Master Boot
Record only.

Memory is not refused here. `disk` is what a read of a sector gives, by its LBA.
-/

namespace VxWorks.Fs

/-- The bytes of a sector buffer. -/
abbrev Sector := Nat → UInt8

/-- `DOS_PART_TBL`. -/
structure PartEntry where
  status : UInt8
  startHead : UInt8
  startSec : UInt8
  type : UInt8
  endHead : UInt8
  endSec : UInt8
  absSec : UInt32
  nSectors : UInt32
deriving DecidableEq, Repr

def dosBootPartTbl : Nat := 0x1be

def partSigAdrs : Nat := 0x1fe

/-- `USWABL`: a long in the byte order of the disk. -/
def Sector.long (sec : Sector) (a : Nat) : UInt32 :=
  (sec a).toUInt32 ||| (sec (a + 1)).toUInt32 <<< 8 ||| (sec (a + 2)).toUInt32 <<< 16 |||
    (sec (a + 3)).toUInt32 <<< 24

def Sector.entry (sec : Sector) (i : Nat) : PartEntry :=
  let partOffset := dosBootPartTbl + i * 16
  { status := sec partOffset
    startHead := sec (partOffset + 0x1)
    startSec := sec (partOffset + 0x2)
    type := sec (partOffset + 0x4)
    endHead := sec (partOffset + 0x5)
    endSec := sec (partOffset + 0x6)
    absSec := sec.long (partOffset + 0x8)
    nSectors := sec.long (partOffset + 0xc) }

def Sector.entries (sec : Sector) : List PartEntry := (List.range 4).map sec.entry

/-- The 0x55aa signature. -/
def Sector.signed (sec : Sector) : Bool := sec partSigAdrs == 0x55 && sec (partSigAdrs + 1) == 0xaa

def partIsBootable : UInt8 := 0x80

def partNotBootable : UInt8 := 0x00

/-- The DOS file systems: `PART_TYPE_DOS4`, `PART_TYPE_DOS3`, `PART_TYPE_WIN95_D4` and
`PART_TYPE_DOS12`. -/
def PartEntry.isDos (e : PartEntry) : Bool :=
  e.type == 0x06 || e.type == 0x04 || e.type == 0x0e || e.type == 0x01

/-- `PART_TYPE_DOSEXT` and `PART_TYPE_WIN95_EXT`. -/
def PartEntry.isExtended (e : PartEntry) : Bool := e.type == 0x05 || e.type == 0x0f

structure PartNode where
  dosPart : PartEntry
  dosPartNumBlks : UInt32
  dosPartBlkOffset : UInt32
deriving DecidableEq, Repr

/-! ## The parser -/

/-- The static variables, and the list. -/
structure ParseState where
  extPartLevel : Nat
  extPartOffset : UInt32
  currentOffset : UInt32
  pVxPartDll : List PartNode

/-- The node of an entry with a file system, in front of the list or at its end. -/
def ParseState.addNode (s : ParseState) (e : PartEntry) : ParseState :=
  if e.status = partIsBootable ∧ e.isExtended = false ∧ e.isDos then
    { s with pVxPartDll := ⟨e, e.nSectors, e.absSec⟩ :: s.pVxPartDll }
  else if e.status = partNotBootable ∧ e.isDos then
    { s with pVxPartDll := s.pVxPartDll ++ [⟨e, e.nSectors, e.absSec + s.currentOffset⟩] }
  else s

/-- The offsets for the call that parses an extended partition. -/
def ParseState.setOffsets (s : ParseState) (e : PartEntry) : ParseState :=
  if 0 < s.extPartLevel then { s with currentOffset := e.absSec + s.extPartOffset }
  else { s with extPartOffset := e.absSec, currentOffset := e.absSec }

/-- One turn of the loop; `parse` is the recursive call, whose status is not looked at. -/
def parseEntry (parse : ParseState → Option (Bool × ParseState)) (e : PartEntry)
    (s : ParseState) : Option ParseState :=
  if e.type = 0 then some s
  else
    let s := s.addNode e
    if e.isExtended then do
      let s := s.setOffsets e
      let (_, s) ← parse { s with extPartLevel := s.extPartLevel + 1 }
      some { s with extPartLevel := s.extPartLevel - 1 }
    else some s

def parseEntries (parse : ParseState → Option (Bool × ParseState)) :
    List PartEntry → ParseState → Option ParseState
  | [], s => some s
  | e :: es, s => do
      let s ← parseEntry parse e s
      parseEntries parse es s

/-- `dosPartParseAta`, with the number of calls there is stack for. -/
def dosPartParseAta (disk : UInt32 → Option Sector) :
    Nat → ParseState → Option (Bool × ParseState)
  | 0, _ => none
  | fuel + 1, s =>
      let s := if s.extPartLevel = 0 then { s with extPartOffset := 0, currentOffset := 0 } else s
      match disk s.currentOffset with
      | none => some (false, s)
      | some sec =>
          if sec.signed = false then some (false, s)
          else do
            let s ← parseEntries (dosPartParseAta disk fuel) sec.entries s
            some (true, s)

/-! ## What is on the disk -/

/-- An entry with a file system to mount. -/
def PartEntry.mountable (e : PartEntry) : Bool :=
  e.isDos && (e.status == partNotBootable || e.status == partIsBootable)

/-- The first extended partition and the table of an extended entry, of a table below
extended partition `first` or of the Master Boot Record. -/
def PartEntry.table (e : PartEntry) : Option UInt32 → UInt32 × UInt32
  | none => (e.absSec, e.absSec)
  | some first => (first, e.absSec + first)

/-- The chain of tables from the one at `lba` on is at most `n` deep, and every table can
be read and is signed. -/
def FiniteChain (disk : UInt32 → Option Sector) : Nat → Option UInt32 → UInt32 → Prop
  | 0, _, _ => False
  | n + 1, first, lba => ∃ sec, disk lba = some sec ∧ sec.signed = true ∧
      ∀ e ∈ sec.entries, e.isExtended = true →
        FiniteChain disk n (some (e.table first).1) (e.table first).2

instance decidableFiniteChain (disk : UInt32 → Option Sector) :
    ∀ n first lba, Decidable (FiniteChain disk n first lba)
  | 0, _, _ => isFalse id
  | n + 1, first, lba =>
      have := decidableFiniteChain disk n
      match h : disk lba with
      | none => isFalse fun ⟨_, hs, _⟩ => nomatch h.symm.trans hs
      | some sec => decidable_of_iff (sec.signed = true ∧ ∀ e ∈ sec.entries, e.isExtended = true →
          FiniteChain disk n (some (e.table first).1) (e.table first).2)
          ⟨fun hsec => ⟨sec, h, hsec⟩, fun ⟨_, hs, hsec⟩ => Option.some.inj (h.symm.trans hs) ▸ hsec⟩

/-- The partitions of the table at `lba` and of those below it, at their absolute start. -/
def partitions (disk : UInt32 → Option Sector) : Nat → Option UInt32 → UInt32 → List PartNode
  | 0, _, _ => []
  | n + 1, first, lba =>
      match disk lba with
      | none => []
      | some sec => sec.entries.flatMap fun e =>
          (if e.mountable then [⟨e, e.nSectors, e.absSec + lba⟩] else []) ++
          (if e.isExtended then partitions disk n (some (e.table first).1) (e.table first).2
            else [])

/-- No bootable DOS entry outside the table at LBA 0, and no other DOS entry behind an
extended one. -/
def placedEntries (sub : Option UInt32 → UInt32 → Prop) (first : Option UInt32) (lba : UInt32) :
    Bool → List PartEntry → Prop
  | _, [] => True
  | behind, e :: es =>
      (e.mountable = true → if e.status = partIsBootable then lba = 0 else behind = false) ∧
      (e.isExtended = true → sub (some (e.table first).1) (e.table first).2) ∧
      placedEntries sub first lba (behind || e.isExtended) es

instance decidablePlacedEntries (sub : Option UInt32 → UInt32 → Prop)
    [∀ first lba, Decidable (sub first lba)] (first : Option UInt32) (lba : UInt32) :
    ∀ behind es, Decidable (placedEntries sub first lba behind es)
  | _, [] => isTrue trivial
  | behind, e :: es =>
      have := decidablePlacedEntries sub first lba (behind || e.isExtended) es
      inferInstanceAs (Decidable (_ ∧ _ ∧ _))

/-- That, in every table of the chain. -/
def Placed (disk : UInt32 → Option Sector) : Nat → Option UInt32 → UInt32 → Prop
  | 0, _, _ => True
  | n + 1, first, lba => ∀ sec, disk lba = some sec →
      placedEntries (Placed disk n) first lba false sec.entries

instance decidablePlaced (disk : UInt32 → Option Sector) :
    ∀ n first lba, Decidable (Placed disk n first lba)
  | 0, _, _ => isTrue trivial
  | n + 1, first, lba =>
      have := decidablePlaced disk n
      match h : disk lba with
      | none => isTrue fun _ hs => nomatch h.symm.trans hs
      | some sec => decidable_of_iff (placedEntries (Placed disk n) first lba false sec.entries)
          ⟨fun hsec _ hs => Option.some.inj (h.symm.trans hs) ▸ hsec, fun hall => hall sec h⟩

end VxWorks.Fs
