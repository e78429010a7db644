import Mathlib.Data.UInt
import VxWorks.Fs.DosPartRdLba

/-!
# The boot installer (mkboot.c)

`vxsys` puts the boot strap into the boot sector of an ATA disk by raw I/O. It addresses
that sector by the packed cylinder, head and sector of the partition entry, and the volume
it mounts afterwards by the absolute sector of the same entry. The fields of the entry are
those `dosPartLibAta.c` describes, ten bits of cylinder and six of sector; the masks here
take them for four and four. A volume that starts in cylinder 0 at one of the sectors 1 to
15 is found; any other is not, and the boot strap goes to whatever sector the masks make of
it. The test for FAT32 looks at the low byte of a field of 16 bits.

`ataRawio` is in the driver, so it is a parameter here: what the drive gives for an
address. Memory is not refused.
-/

namespace VxWorks.Fs

/-- The part of `DOS_PART_TBL` that is read, with `dospt_startSec` the `short` it is. -/
structure DosPartTbl where
  status : UInt8
  startHead : UInt8
  startSec : UInt16
  type : UInt8
  absSec : UInt32
deriving DecidableEq, Repr

def Sector.partTbl (sec : Sector) (ix : Nat) : DosPartTbl :=
  let pPart := dosBootPartTbl + ix * 16
  { status := sec pPart
    startHead := sec (pPart + 0x1)
    startSec := (sec (pPart + 0x2)).toUInt16 ||| (sec (pPart + 0x3)).toUInt16 <<< 8
    type := sec (pPart + 0x4)
    absSec := sec.long (pPart + 0x8) }

def dosBootSysId : Nat := 0x03

/-- "VXDOS". -/
def vxdos : List UInt8 := [0x56, 0x58, 0x44, 0x4f, 0x53]

/-- "VXEXT". -/
def vxext : List UInt8 := [0x56, 0x58, 0x45, 0x58, 0x54]

/-- `strncmp` of the system identification with either of the names gives 0. -/
def Sector.named (sec : Sector) (name : List UInt8) : Bool :=
  (List.range name.length).map (fun i => sec (dosBootSysId + i)) == name

/-- The types that are accepted: `PART_TYPE_DOS12`, `PART_TYPE_DOS3`, `PART_TYPE_DOS4`,
`PART_TYPE_DOS32`, `PART_TYPE_DOS32X` and `PART_TYPE_WIN95_D4`. -/
def DosPartTbl.bootable (e : DosPartTbl) : Bool :=
  e.status == partIsBootable &&
    (e.type == 0x01 || e.type == 0x04 || e.type == 0x06 || e.type == 0x0b || e.type == 0x0c ||
      e.type == 0x0e)

/-- The loop over the four entries. -/
def Sector.bootEntry (sec : Sector) : Option DosPartTbl :=
  ((List.range 4).map sec.partTbl).find? DosPartTbl.bootable

def bootStrap : List UInt8 :=
  [0xfa, 0x88, 0x16, 0x24, 0x7c, 0xb4, 0x08, 0xcd, 0x13, 0x72, 0x11, 0x83, 0xe1, 0x3f,
   0x89, 0x0e, 0x18, 0x7c, 0xfe, 0xc6, 0x32, 0xd2, 0x86, 0xf2, 0x89, 0x16, 0x1a, 0x7c,
   0xfa, 0x8c, 0xc8, 0x8e, 0xd8, 0x8e, 0xc0, 0xfc, 0x8e, 0xd0, 0xbc, 0xfe, 0x7b, 0xfb,
   0xbe, 0xe1, 0x7d, 0xe8, 0x14, 0x01, 0x33, 0xdb, 0x8b, 0xc3, 0x8b, 0xd3, 0xa0, 0x10,
   0x7c, 0xf7, 0x26, 0x16, 0x7c, 0x8b, 0x0e, 0x0e, 0x7c, 0x03, 0x0e, 0x1c, 0x7c, 0x13,
   0x16, 0x1e, 0x7c, 0x03, 0xc8, 0x13, 0xd3, 0x89, 0x0e, 0x00, 0x7b, 0x89, 0x16, 0x02,
   0x7b, 0xbe, 0x03, 0x7c, 0xbf, 0xf9, 0x7d, 0xc7, 0x06, 0x36, 0x7c, 0x20, 0x00, 0xb9,
   0x05, 0x00, 0xf3, 0xa6, 0x75, 0x06, 0xc7, 0x06, 0x36, 0x7c, 0x40, 0x00, 0xa1, 0x36,
   0x7c, 0xf7, 0x26, 0x11, 0x7c, 0x8b, 0x36, 0x0b, 0x7c, 0x03, 0xc6, 0x48, 0xf7, 0xf6,
   0x8b, 0xc8, 0x51, 0xa1, 0x00, 0x7b, 0x8b, 0x16, 0x02, 0x7b, 0xbb, 0x00, 0x7e, 0xe8,
   0xd0, 0x00, 0x73, 0x03, 0xe9, 0xa5, 0x00, 0x8b, 0x16, 0x0b, 0x7c, 0xbf, 0x00, 0x7e,
   0xbe, 0xeb, 0x7d, 0x57, 0xb9, 0x0b, 0x00, 0xf3, 0xa6, 0x5f, 0x74, 0x1c, 0x03, 0x3e,
   0x36, 0x7c, 0x2b, 0x16, 0x36, 0x7c, 0x75, 0xea, 0x83, 0x06, 0x00, 0x7b, 0x01, 0x83,
   0x16, 0x02, 0x7b, 0x00, 0x59, 0xe2, 0xc3, 0xbe, 0xea, 0x7d, 0xeb, 0x79, 0x59, 0x01,
   0x0e, 0x00, 0x7b, 0x83, 0x16, 0x02, 0x7b, 0x00, 0x33, 0xc9, 0xbb, 0x1c, 0x00, 0x83,
   0x3e, 0x36, 0x7c, 0x40, 0x75, 0x03, 0x83, 0xc3, 0x20, 0x8b, 0x01, 0x43, 0x43, 0x8b,
   0x11, 0xf7, 0x36, 0x0b, 0x7c, 0x40, 0xa3, 0x04, 0x7b, 0x83, 0xeb, 0x04, 0x8b, 0x01,
   0x48, 0x48, 0x8a, 0x0e, 0x0d, 0x7c, 0xf7, 0xe1, 0x03, 0x06, 0x00, 0x7b, 0x13, 0x16,
   0x02, 0x7b, 0xbb, 0x00, 0x08, 0x8e, 0xc3, 0x33, 0xdb, 0x50, 0x52, 0xe8, 0x54, 0x00,
   0x5a, 0x58, 0x72, 0x2a, 0xbe, 0xf7, 0x7d, 0xe8, 0x30, 0x00, 0xff, 0x0e, 0x04, 0x7b,
   0x74, 0x0d, 0x83, 0xc0, 0x01, 0x83, 0xd2, 0x00, 0x8c, 0xc3, 0x83, 0xc3, 0x20, 0xeb,
   0xda, 0xa0, 0x24, 0x7c, 0x24, 0x80, 0x75, 0x06, 0xba, 0xf2, 0x03, 0x32, 0xc0, 0xee,
   0xff, 0x2e, 0x7e, 0x7d, 0xbe, 0xe6, 0x7d, 0xe8, 0x06, 0x00, 0xeb, 0xfe, 0x00, 0x00,
   0x00, 0x08, 0x53, 0x50, 0x80, 0x3e, 0xe0, 0x7d, 0x00, 0x75, 0x0e, 0xac, 0x0a, 0xc0,
   0x74, 0x09, 0xb4, 0x0e, 0xbb, 0x07, 0x00, 0xcd, 0x10, 0xeb, 0xf2, 0x58, 0x5b, 0xc3,
   0x89, 0x1e, 0x06, 0x7b, 0x8b, 0x1e, 0x18, 0x7c, 0xf7, 0xf3, 0x42, 0x8b, 0xda, 0x33,
   0xd2, 0xf7, 0x36, 0x1a, 0x7c, 0x86, 0xe0, 0xb1, 0x06, 0xd2, 0xe0, 0x91, 0x0a, 0xcb,
   0x8a, 0xf2, 0xbb, 0x05, 0x00, 0x53, 0x8b, 0x1e, 0x06, 0x7b, 0x8a, 0x16, 0x24, 0x7c,
   0xb8, 0x01, 0x02, 0x51, 0x52, 0xcd, 0x13, 0x5a, 0x59, 0x72, 0x03, 0x5b, 0xf8, 0xc3,
   0x33, 0xc0, 0xcd, 0x13, 0x5b, 0xfe, 0xcf, 0x75, 0xe0, 0xf9, 0xeb, 0xf3, 0x00, 0x56,
   0x31, 0x2e, 0x36, 0x00, 0x21, 0x52, 0x64, 0x00, 0x21, 0x42, 0x4f, 0x4f, 0x54, 0x52,
   0x4f, 0x4d, 0x20, 0x53, 0x59, 0x53, 0x00, 0x2b, 0x00, 0x56, 0x58, 0x45, 0x58, 0x54,
   0x55, 0xaa]

/-- The boot sector with the jump over its parameters, and the boot strap behind them. -/
def Sector.withBootStrap (sec : Sector) : Sector := fun i =>
  if i = 0 then 0xeb
  else if i = 1 then 0x3c
  else if i = 2 then 0x90
  else if 0x3e ≤ i ∧ i < 0x3e + bootStrap.length then bootStrap.getD (i - 0x3e) 0
  else sec i

/-- What `vxsys` has done when it comes to the file: the sectors written by raw I/O, the
offset for `ataDevCreate`, and whether long names are in use. -/
structure Vxsys where
  writes : List (AtaRaw × Sector)
  ataDevCreate : Option UInt32
  useLongNames : Bool

def Vxsys.error : Vxsys := ⟨[], none, false⟩

def vxsysBootsec : Bool := true

/-- A sector buffer: `bzero`, and what the read puts into it when it is not refused. -/
def rawRead (ataRawio : AtaRaw → Option Sector) (ataRaw : AtaRaw) : Sector :=
  (ataRawio ataRaw).getD fun _ => 0

/-- LBA sector one, as the comment counts. -/
def ataRawFirst : AtaRaw := ⟨0, 0, 1, 1, 0⟩

/-- The address that the masks make of a partition entry. -/
def DosPartTbl.ataRaw (pPart : DosPartTbl) : AtaRaw where
  cylinder := (pPart.startSec.toNat &&& 0xf0) >>> 4
  head := pPart.startHead.toNat
  sector := pPart.startSec.toNat &&& 0x0f
  nSecs := 1
  direction := 0

/-- What is the same for a disk with partitions and for one without, when the volume's boot
sector has been read. -/
def vxsysInstall (ataRaw : AtaRaw) (dosVolBootSec : Sector) (offset : UInt32)
    (useLongNames : Bool) : Vxsys :=
  if dosVolBootSec 0x16 = 0 then .error
  else
    { writes :=
        if vxsysBootsec then [({ ataRaw with direction := 1 }, dosVolBootSec.withBootStrap)]
        else []
      ataDevCreate := some offset
      useLongNames := useLongNames }

/-- `vxsys (VXSYS_ATA, ctrl, drive)`, up to the call of `ataDevCreate`. -/
def vxsysAta (ataRawio : AtaRaw → Option Sector) (ctrl drive : UInt32) : Vxsys :=
  if ataMaxCtrls ≤ ctrl.toNat then .error
  else if ataMaxDrives ≤ drive.toNat then .error
  else
    let lbaSectorOne := rawRead ataRawio ataRawFirst
    if lbaSectorOne.named vxdos = false ∧ lbaSectorOne.named vxext = false then
      match lbaSectorOne.bootEntry with
      | none => .error
      | some pPart =>
        let dosVolBootSec := rawRead ataRawio pPart.ataRaw
        vxsysInstall pPart.ataRaw dosVolBootSec pPart.absSec (dosVolBootSec.named vxext)
    else
      let dosVolBootSec := rawRead ataRawio ataRawFirst
      vxsysInstall ataRawFirst dosVolBootSec 0 (lbaSectorOne.named vxext)

/-! ## The disk -/

/-- The fields of an entry, as `dosPartLibAta.c` describes them. -/
def DosPartTbl.start (pPart : DosPartTbl) : AtaRaw where
  cylinder := (pPart.startSec.toNat &&& 0xc0) <<< 2 ||| (pPart.startSec.toNat &&& 0xff00) >>> 8
  head := pPart.startHead.toNat
  sector := pPart.startSec.toNat &&& 0x3f
  nSecs := 1
  direction := 0

/-- A drive of this geometry with these sectors: it gives the sector that an address is
the address of, and refuses what is the address of none. -/
structure Drives (ataRawio : AtaRaw → Option Sector) (t : AtaType) (disk : Nat → Option Sector) :
    Prop where
  reads : ∀ ataRaw lba, ataRaw.nSecs = 1 → ataRaw.direction = 0 → ataRaw.Addresses t lba →
    ataRawio ataRaw = disk lba
  refuses : ∀ ataRaw, ataRaw.nSecs = 1 → ataRaw.direction = 0 →
    (∀ lba, ¬ ataRaw.Addresses t lba) → ataRawio ataRaw = none

def diskSector (disk : Nat → Option Sector) (lba : Nat) : Sector := (disk lba).getD fun _ => 0

/-- A disk without partitions, as the one partition that it is. -/
def wholeDisk : DosPartTbl := ⟨partIsBootable, 0, 1, 0x06, 0⟩

/-- The volume that is to boot. -/
def bootVolume (disk : Nat → Option Sector) : Option DosPartTbl :=
  if (diskSector disk 0).named vxdos = false ∧ (diskSector disk 0).named vxext = false then
    (diskSector disk 0).bootEntry
  else some wholeDisk

/-- The sectors per FAT, 16 bits. -/
def Sector.sectorsPerFat (sec : Sector) : UInt16 :=
  (sec 0x16).toUInt16 ||| (sec 0x17).toUInt16 <<< 8

/-- What is written is the first sector of the volume, which is then mounted; it is written
when its sectors per FAT are not zero, and keeps its parameters. -/
structure BootSectorOnly (t : AtaType) (disk : Nat → Option Sector) (v : DosPartTbl)
    (out : Vxsys) : Prop where
  place : ∀ w ∈ out.writes, w.1.Addresses t v.absSec.toNat
  mounted : ∀ w ∈ out.writes, out.ataDevCreate = some v.absSec
  offset : ∀ offset, out.ataDevCreate = some offset → offset = v.absSec
  written : out.writes ≠ [] ↔ (diskSector disk v.absSec.toNat).sectorsPerFat ≠ 0
  keeps : ∀ w ∈ out.writes, ∀ i, 3 ≤ i → i ≤ 0x3d → w.2 i = diskSector disk v.absSec.toNat i

/-- The masks find the volume, and the low byte tells what the field does. -/
def BootSectorFound (t : AtaType) (disk : Nat → Option Sector) (v : DosPartTbl) : Prop :=
  if (diskSector disk v.absSec.toNat).sectorsPerFat = 0 then
    ∀ lba, v.ataRaw.Addresses t lba → diskSector disk lba 0x16 = 0
  else
    v.start.cylinder = 0 ∧ v.start.sector ≤ 15 ∧ diskSector disk v.absSec.toNat 0x16 ≠ 0

/-! ## The two addresses -/

theorem and_shiftLeft (n m k : Nat) : n &&& m <<< k = (n >>> k &&& m) <<< k := by
  refine Nat.eq_of_testBit_eq ?_
  intro i
  rw [Nat.testBit_and, Nat.testBit_shiftLeft, Nat.testBit_shiftLeft, Nat.testBit_and,
    Nat.testBit_shiftRight]
  by_cases hi : k ≤ i
  · rw [Nat.add_sub_cancel' hi]
    simp [hi]
  · simp [hi]

theorem shift_mask (n k m : Nat) : (n &&& (2 ^ m - 1) <<< k) >>> k = n / 2 ^ k % 2 ^ m := by
  rw [and_shiftLeft, Nat.shiftLeft_shiftRight, Nat.and_two_pow_sub_one_eq_mod,
    Nat.shiftRight_eq_div_pow]

theorem ataRaw_cylinder (v : DosPartTbl) : v.ataRaw.cylinder = v.startSec.toNat / 16 % 16 :=
  shift_mask v.startSec.toNat 4 4

theorem ataRaw_sector (v : DosPartTbl) : v.ataRaw.sector = v.startSec.toNat % 16 :=
  Nat.and_two_pow_sub_one_eq_mod v.startSec.toNat 4

theorem start_sector (v : DosPartTbl) : v.start.sector = v.startSec.toNat % 64 :=
  Nat.and_two_pow_sub_one_eq_mod v.startSec.toNat 6

theorem start_cylinder (v : DosPartTbl) :
    v.start.cylinder = v.startSec.toNat / 64 % 4 * 256 + v.startSec.toNat / 256 := by
  have hlt : v.startSec.toNat < 65536 := v.startSec.toNat_lt
  have hmask : v.startSec.toNat &&& 0xc0 = (v.startSec.toNat / 64 % 4) <<< 6 := by
    rw [← Nat.and_two_pow_sub_one_eq_mod _ 2, ← Nat.shiftRight_eq_div_pow _ 6]
    exact and_shiftLeft v.startSec.toNat 3 6
  have hlow : (v.startSec.toNat &&& 0xff00) >>> 8 = v.startSec.toNat / 256 := by
    refine (shift_mask v.startSec.toNat 8 8).trans (Nat.mod_eq_of_lt ?_)
    omega
  have hbyte : v.startSec.toNat / 256 < 2 ^ 8 := by omega
  rw [DosPartTbl.start, hmask, hlow, ← Nat.shiftLeft_add, ← Nat.shiftLeft_add_eq_or_of_lt hbyte,
    Nat.shiftLeft_eq]

theorem mask_nibbles (n : Nat) :
    n / 16 % 16 = n / 64 % 4 * 256 + n / 256 ∧ n % 16 = n % 64 ↔
      n / 64 % 4 * 256 + n / 256 = 0 ∧ n % 64 ≤ 15 := by
  have hquarter : n / 64 = n / 16 / 4 := (Nat.div_div_eq_div_mul n 16 4).symm
  have hbyte : n / 256 = n / 16 / 4 / 4 := by
    rw [Nat.div_div_eq_div_mul, Nat.div_div_eq_div_mul]
  have hlow : n % (16 * 4) = n % 16 + 16 * (n / 16 % 4) := Nat.mod_mul
  have hhigh : n / 16 % (4 * 4) = n / 16 % 4 + 4 * (n / 16 / 4 % 4) := Nat.mod_mul
  have hlt : n % 16 < 16 := Nat.mod_lt n (by decide)
  rw [hquarter, hbyte, show n % 64 = _ from hlow, show n / 16 % 16 = _ from hhigh]
  generalize n / 16 % 4 = r
  generalize n / 16 / 4 % 4 = h
  generalize n / 16 / 4 / 4 = c
  clear hquarter hbyte hlow hhigh
  omega

/-- What the masks make of the start of a volume is its start in cylinder 0 only, and there
in the first fifteen sectors of a track. -/
theorem ataRaw_addresses_iff {t : AtaType} {v : DosPartTbl} {lba : Nat}
    (h : v.start.Addresses t lba) :
    v.ataRaw.Addresses t lba ↔ v.start.cylinder = 0 ∧ v.start.sector ≤ 15 := by
  have hnibbles := mask_nibbles v.startSec.toNat
  rw [← ataRaw_cylinder, ← ataRaw_sector, ← start_cylinder, ← start_sector] at hnibbles
  rw [← hnibbles]
  constructor
  · intro hraw
    obtain ⟨hcyl, -, hsec⟩ := hraw.eq
    obtain ⟨hcyl', -, hsec'⟩ := h.eq
    exact ⟨hcyl.trans hcyl'.symm, hsec.trans hsec'.symm⟩
  · intro hsame
    have heq : v.ataRaw = v.start := by
      calc v.ataRaw = ⟨v.ataRaw.cylinder, v.startHead.toNat, v.ataRaw.sector, 1, 0⟩ := rfl
        _ = ⟨v.start.cylinder, v.startHead.toNat, v.start.sector, 1, 0⟩ := by
          rw [hsame.1, hsame.2]
        _ = v.start := rfl
    rw [heq]
    exact h

/-! ## The installation -/

section

variable {ataRawio : AtaRaw → Option Sector} {t : AtaType} {disk : Nat → Option Sector}

theorem Drives.read (hd : Drives ataRawio t disk) {ataRaw : AtaRaw} {lba : Nat}
    (hn : ataRaw.nSecs = 1) (hdir : ataRaw.direction = 0) (h : ataRaw.Addresses t lba) :
    rawRead ataRawio ataRaw = diskSector disk lba := by
  rw [rawRead, diskSector, hd.reads ataRaw lba hn hdir h]

theorem first_addresses (hheads : 1 ≤ t.heads) (hsectors : 1 ≤ t.sectors) :
    ataRawFirst.Addresses t 0 :=
  ⟨hheads, Nat.le_refl 1, hsectors, by simp [ataRawFirst]⟩

/-- With or without partitions, the volume's boot sector is read at the address the masks
make, and the boot strap goes there. -/
theorem vxsysAta_eq (hd : Drives ataRawio t disk) (hheads : 1 ≤ t.heads)
    (hsectors : 1 ≤ t.sectors) {ctrl drive : UInt32} (hctrl : ctrl.toNat < ataMaxCtrls)
    (hdrive : drive.toNat < ataMaxDrives) :
    vxsysAta ataRawio ctrl drive = match bootVolume disk with
      | none => .error
      | some v => vxsysInstall v.ataRaw (rawRead ataRawio v.ataRaw) v.absSec
          ((rawRead ataRawio v.ataRaw).named vxext) := by
  have hfirst := hd.read rfl rfl (first_addresses hheads hsectors)
  rw [vxsysAta, if_neg (Nat.not_le.mpr hctrl), if_neg (Nat.not_le.mpr hdrive), bootVolume]
  simp only [hfirst]
  split
  · rfl
  · have hwhole : wholeDisk.ataRaw = ataRawFirst := rfl
    simp only [hwhole, hfirst]
    rfl

/-- The test for FAT32 finds a zero: nothing is written. -/
theorem vxsysInstall_zero {v : DosPartTbl} {sec : Sector} {longNames : Bool} (h : sec 0x16 = 0) :
    BootSectorOnly t disk v (vxsysInstall v.ataRaw sec v.absSec longNames) ↔
      (diskSector disk v.absSec.toNat).sectorsPerFat = 0 := by
  rw [vxsysInstall, if_pos h]
  constructor
  · intro hb
    by_contra hne
    exact hb.written.mpr hne rfl
  · intro hzero
    have hnone : ∀ w, w ∉ Vxsys.error.writes := fun _ => List.not_mem_nil
    refine ⟨fun w hw => absurd hw (hnone w), fun w hw => absurd hw (hnone w), ?_,
      ⟨fun hw => absurd rfl hw, fun hne => absurd hzero hne⟩, fun w hw => absurd hw (hnone w)⟩
    intro offset ho
    cases ho

theorem withBootStrap_keeps (sec : Sector) {i : Nat} (hlow : 3 ≤ i) (hhigh : i ≤ 0x3d) :
    sec.withBootStrap i = sec i := by
  rw [Sector.withBootStrap, if_neg (by omega), if_neg (by omega), if_neg (by omega),
    if_neg (by omega)]

theorem vxsysInstall_writes {ataRaw : AtaRaw} {sec : Sector} (offset : UInt32) (longNames : Bool)
    (h : sec 0x16 ≠ 0) :
    vxsysInstall ataRaw sec offset longNames =
      ⟨[({ ataRaw with direction := 1 }, sec.withBootStrap)], some offset, longNames⟩ := by
  rw [vxsysInstall, if_neg h]
  rfl

/-- For one volume: the right boot sector is touched when the masks find it. -/
theorem vxsysInstall_iff (hd : Drives ataRawio t disk) {v : DosPartTbl}
    (hchs : v.start.Addresses t v.absSec.toNat) (longNames : Bool) :
    BootSectorOnly t disk v
        (vxsysInstall v.ataRaw (rawRead ataRawio v.ataRaw) v.absSec longNames) ↔
      BootSectorFound t disk v := by
  have hread : ∀ lba, v.ataRaw.Addresses t lba →
      rawRead ataRawio v.ataRaw = diskSector disk lba := fun lba h => hd.read rfl rfl h
  by_cases hzero : rawRead ataRawio v.ataRaw 0x16 = 0
  · rw [vxsysInstall_zero hzero, BootSectorFound]
    split
    · next hfat =>
        refine iff_of_true hfat ?_
        intro lba hlba
        rw [← hread lba hlba]
        exact hzero
    · next hfat =>
        refine iff_of_false hfat fun hfound => hfound.2.2 ?_
        have hraw := (ataRaw_addresses_iff hchs).mpr ⟨hfound.1, hfound.2.1⟩
        rw [← hread _ hraw]
        exact hzero
  · have hplace : ∃ lba, v.ataRaw.Addresses t lba := by
      by_contra hnone
      refine hzero ?_
      rw [rawRead, hd.refuses v.ataRaw rfl rfl (not_exists.mp hnone)]
      rfl
    rw [vxsysInstall_writes _ _ hzero, BootSectorFound]
    split
    · next hfat =>
        obtain ⟨lba, hlba⟩ := hplace
        refine iff_of_false ?_ fun hall => hzero ?_
        · intro hb
          exact hb.written.mp (List.cons_ne_nil _ _) hfat
        · rw [hread lba hlba]
          exact hall lba hlba
    · next hfat =>
        constructor
        · intro hb
          have hraw : v.ataRaw.Addresses t v.absSec.toNat := hb.place _ List.mem_cons_self
          obtain ⟨hcyl, hsec⟩ := (ataRaw_addresses_iff hchs).mp hraw
          exact ⟨hcyl, hsec, hread _ hraw ▸ hzero⟩
        · intro hfound
          have hraw := (ataRaw_addresses_iff hchs).mpr ⟨hfound.1, hfound.2.1⟩
          refine ⟨?_, fun w _ => rfl, fun offset ho => (Option.some_inj.mp ho).symm,
            iff_of_true (List.cons_ne_nil _ _) hfat, ?_⟩
          · intro w hw
            obtain rfl := List.mem_singleton.mp hw
            exact hraw
          · intro w hw i hlow hhigh
            obtain rfl := List.mem_singleton.mp hw
            exact (withBootStrap_keeps _ hlow hhigh).trans (congrFun (hread _ hraw) i)

end

/-- The installer touches only the right boot sector if and only if the masks find the
volume to boot and the low byte of its sectors per FAT tells what the field does. -/
theorem vxsysAta_iff {ataRawio : AtaRaw → Option Sector} {t : AtaType}
    {disk : Nat → Option Sector} (hd : Drives ataRawio t disk) (hheads : 1 ≤ t.heads)
    (hsectors : 1 ≤ t.sectors)
    (hchs : ∀ v, bootVolume disk = some v → v.start.Addresses t v.absSec.toNat)
    {ctrl drive : UInt32} (hctrl : ctrl.toNat < ataMaxCtrls) (hdrive : drive.toNat < ataMaxDrives) :
    (match bootVolume disk with
      | none => (vxsysAta ataRawio ctrl drive).writes = [] ∧
          (vxsysAta ataRawio ctrl drive).ataDevCreate = none
      | some v => BootSectorOnly t disk v (vxsysAta ataRawio ctrl drive)) ↔
      ∀ v, bootVolume disk = some v → BootSectorFound t disk v := by
  rw [vxsysAta_eq hd hheads hsectors hctrl hdrive]
  cases hv : bootVolume disk with
  | none => exact iff_of_true ⟨rfl, rfl⟩ fun v hv' => by cases hv'
  | some v =>
      refine (vxsysInstall_iff hd (hchs v hv) _).trans ⟨?_, fun h => h v rfl⟩
      intro hfound v' hv'
      exact Option.some_inj.mp hv' ▸ hfound

/-- A drive that takes an address apart as its geometry says. -/
def driveOf (t : AtaType) (disk : Nat → Option Sector) (ataRaw : AtaRaw) : Option Sector :=
  if ataRaw.head < t.heads ∧ 1 ≤ ataRaw.sector ∧ ataRaw.sector ≤ t.sectors then
    disk ((ataRaw.cylinder * t.heads + ataRaw.head) * t.sectors + ataRaw.sector - 1)
  else none

theorem drives_driveOf (t : AtaType) (disk : Nat → Option Sector) :
    Drives (driveOf t disk) t disk := by
  constructor
  · intro ataRaw lba _ _ h
    obtain ⟨hhead, hpos, hsec, hlba⟩ := h
    rw [driveOf, if_pos ⟨hhead, hpos, hsec⟩, hlba]
  · intro ataRaw _ _ h
    exact if_neg fun hin => h _ ⟨hin.1, hin.2.1, hin.2.2, rfl⟩

def smallDrive : AtaType := ⟨16, 63⟩

/-- A disk with one bootable partition, behind a boot record with code at 0x16. -/
def oneVolume (head sec cyl absLow absHigh fatLow fatHigh : UInt8) (lba : Nat) : Option Sector :=
  if lba = 0 then some fun a =>
    if a < dosBootPartTbl then if a = 0x16 then 1 else 0
    else [0x80, head, sec, cyl, 0x06, 0, 0, 0, absLow, absHigh].getD (a - dosBootPartTbl) 0
  else if lba = absLow.toNat + 256 * absHigh.toNat then some fun a =>
    if a = 0x16 then fatLow else if a = 0x17 then fatHigh else 0
  else if lba < 2016 then some fun _ => 0
  else none

/-- The volume of a disk as it comes from the factory: head 1, sector 1. -/
theorem vxsysAta_iff_usual :
    BootSectorOnly smallDrive (oneVolume 1 1 0 63 0 9 0) ⟨0x80, 1, 1, 0x06, 63⟩
      (vxsysAta (driveOf smallDrive (oneVolume 1 1 0 63 0 9 0)) 0 0) := by
  have hv : bootVolume (oneVolume 1 1 0 63 0 9 0) = some ⟨0x80, 1, 1, 0x06, 63⟩ := by rfl
  have hchs : ∀ v, bootVolume (oneVolume 1 1 0 63 0 9 0) = some v →
      v.start.Addresses smallDrive v.absSec.toNat := by
    intro v h
    obtain rfl := Option.some_inj.mp (hv.symm.trans h)
    exact ⟨by decide, by decide, by decide, by decide⟩
  have hfound : ∀ v, bootVolume (oneVolume 1 1 0 63 0 9 0) = some v →
      BootSectorFound smallDrive (oneVolume 1 1 0 63 0 9 0) v := by
    intro v h
    obtain rfl := Option.some_inj.mp (hv.symm.trans h)
    rw [BootSectorFound, if_neg (by decide)]
    exact ⟨by decide, by decide, by decide⟩
  have honly := (@vxsysAta_iff _ _ _ (drives_driveOf smallDrive (oneVolume 1 1 0 63 0 9 0))
    (by decide) (by decide) hchs 0 0 (by decide) (by decide)).mpr hfound
  rw [hv] at honly
  exact honly

/-- A volume in cylinder 1: the boot strap goes over the master boot record. And one with a
FAT of 256 sectors is not installed. -/
theorem vxsysAta_astray :
    (bootVolume (oneVolume 0 1 1 0xf0 3 9 0) = some ⟨0x80, 0, 0x101, 0x06, 1008⟩ ∧
      (DosPartTbl.start ⟨0x80, 0, 0x101, 0x06, 1008⟩).Addresses smallDrive 1008 ∧
      ((vxsysAta (driveOf smallDrive (oneVolume 0 1 1 0xf0 3 9 0)) 0 0).writes.map
        fun w => (w.1.cylinder, w.1.head, w.1.sector)) = [(0, 0, 1)] ∧
      ¬ BootSectorOnly smallDrive (oneVolume 0 1 1 0xf0 3 9 0) ⟨0x80, 0, 0x101, 0x06, 1008⟩
        (vxsysAta (driveOf smallDrive (oneVolume 0 1 1 0xf0 3 9 0)) 0 0)) ∧
    bootVolume (oneVolume 1 1 0 63 0 0 1) = some ⟨0x80, 1, 1, 0x06, 63⟩ ∧
      (DosPartTbl.start ⟨0x80, 1, 1, 0x06, 63⟩).Addresses smallDrive 63 ∧
      ¬ BootSectorOnly smallDrive (oneVolume 1 1 0 63 0 0 1) ⟨0x80, 1, 1, 0x06, 63⟩
        (vxsysAta (driveOf smallDrive (oneVolume 1 1 0 63 0 0 1)) 0 0) := by
  refine ⟨⟨by rfl, ⟨by decide, by decide, by decide, by decide⟩, by decide +kernel, fun h => ?_⟩,
    by rfl, ⟨by decide, by decide, by decide, by decide⟩, fun h => ?_⟩
  · have hplace := h.place (⟨0, 0, 1, 1, 1⟩, Sector.withBootStrap
      (rawRead (driveOf smallDrive (oneVolume 0 1 1 0xf0 3 9 0)) ataRawFirst))
      (List.mem_singleton.mpr rfl)
    exact absurd hplace.2.2.2 (by decide)
  · exact h.written.mpr (by decide) rfl

end VxWorks.Fs
