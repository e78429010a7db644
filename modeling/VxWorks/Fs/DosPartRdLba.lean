import VxWorks.Fs.DosPart
import Mathlib.Tactic.Ring

/-!
# Reading a sector by its LBA (dosPartLibAta.c)

`dosPartRdLbaAta` translates an LBA to the cylinder, head and sector that `ataRawio`
takes, with the geometry of the drive. The quotients are those of the text book, but they
go through variables of 16 and of 8 bits, and no test keeps an LBA out that does not fit.
A translation that lost bits is the address of another sector, never an error.

`ataRawio` is in the driver, so it is a parameter here: what the drive gives for an
address.
-/

namespace VxWorks.Fs

/-- `ATA_TYPE`: the geometry. -/
structure AtaType where
  heads : Nat
  sectors : Nat
deriving DecidableEq, Repr

/-- `ATA_RAW`, less the buffer. -/
structure AtaRaw where
  cylinder : Nat
  head : Nat
  sector : Nat
  nSecs : Nat
  direction : Nat
deriving DecidableEq, Repr

/-- What the routine goes by. -/
structure AtaDrv where
  ataDrvInstalled : Bool
  installed : Nat → Bool
  ataTypes : Nat → Nat → AtaType

def ataMaxCtrls : Nat := 2

def ataMaxDrives : Nat := 2

/-- The test at the head of the routine. -/
def AtaDrv.ready (drv : AtaDrv) (ctrl drive : Nat) : Bool :=
  decide (ctrl < ataMaxCtrls) && decide (drive < ataMaxDrives) && drv.ataDrvInstalled &&
    drv.installed ctrl

/-- `ERROR` before a read, the trap of a division by zero, or a call of `ataRawio`. -/
inductive RdLba
  | error
  | trap
  | asks (ataRaw : AtaRaw)
deriving DecidableEq, Repr

/-- `heads * sectors` is the product of two `int`s. -/
def AtaType.cylinderSectors (t : AtaType) : Nat := t.heads * t.sectors % 2 ^ 32

/-- The call `dosPartRdLbaAta` makes of `ataRawio`. -/
def rdLbaRequest (drv : AtaDrv) (ctrl drive : Nat) (lbaSec : UInt32) : RdLba :=
  if drv.ready ctrl drive = false then .error
  else
    let t := drv.ataTypes ctrl drive
    if t.cylinderSectors = 0 then .trap
    else
      let ataCylinder := lbaSec.toNat / t.cylinderSectors % 2 ^ 16
      let tempN := lbaSec.toNat % t.cylinderSectors % 2 ^ 16
      let ataHead := tempN / t.sectors % 2 ^ 8
      let ataSector := (tempN % t.sectors + 1) % 2 ^ 8
      .asks ⟨ataCylinder, ataHead, ataSector, 1, 0⟩

/-- `dosPartRdLbaAta`, the sector buffer for its `OK`. -/
def dosPartRdLbaAta (ataRawio : AtaRaw → Option Sector) (drv : AtaDrv) (ctrl drive : Nat)
    (lbaSec : UInt32) : Option Sector :=
  match rdLbaRequest drv ctrl drive lbaSec with
  | .error => none
  | .trap => none
  | .asks ataRaw => ataRawio ataRaw

/-- `ataRaw` is the address of sector `lba`. -/
def AtaRaw.Addresses (ataRaw : AtaRaw) (t : AtaType) (lba : Nat) : Prop :=
  ataRaw.head < t.heads ∧ 1 ≤ ataRaw.sector ∧ ataRaw.sector ≤ t.sectors ∧
    (ataRaw.cylinder * t.heads + ataRaw.head) * t.sectors + ataRaw.sector - 1 = lba

/-- No variable of the translation loses a bit of `lba`: the product of the geometry, the
cylinder and the rest behind it, the head and the sector. -/
def AtaType.Fits (t : AtaType) (lba : Nat) : Prop :=
  (t.heads * t.sectors < 2 ^ 32 ∨ lba < t.heads * t.sectors % 2 ^ 32) ∧
    lba / (t.heads * t.sectors) < 2 ^ 16 ∧ lba % (t.heads * t.sectors) < 2 ^ 16 ∧
    lba % (t.heads * t.sectors) / t.sectors < 2 ^ 8 ∧ lba % t.sectors + 1 < 2 ^ 8

instance (t : AtaType) (lba : Nat) : Decidable (t.Fits lba) :=
  inferInstanceAs (Decidable (_ ∧ _))

/-! ## One address for each sector -/

/-- The address of a sector in a geometry is the one of the text book. -/
theorem AtaRaw.Addresses.eq {ataRaw : AtaRaw} {t : AtaType} {lba : Nat}
    (h : ataRaw.Addresses t lba) :
    ataRaw.cylinder = lba / (t.heads * t.sectors) ∧
      ataRaw.head = lba % (t.heads * t.sectors) / t.sectors ∧
      ataRaw.sector = lba % t.sectors + 1 := by
  obtain ⟨hhead, hpos, hsec, hlba⟩ := h
  have hspos : 0 < t.sectors := Nat.lt_of_lt_of_le hpos hsec
  have hspread : lba = (ataRaw.cylinder * t.heads + ataRaw.head) * t.sectors +
      (ataRaw.sector - 1) := by omega
  have hlt : ataRaw.sector - 1 < t.sectors := by omega
  have hmod : lba % t.sectors = ataRaw.sector - 1 := by
    rw [hspread, Nat.add_comm, Nat.add_mul_mod_self_right, Nat.mod_eq_of_lt hlt]
  have hdiv : lba / t.sectors = ataRaw.cylinder * t.heads + ataRaw.head := by
    rw [hspread, Nat.add_comm, Nat.add_mul_div_right _ _ hspos, Nat.div_eq_of_lt hlt, Nat.zero_add]
  have hcyl : lba / (t.heads * t.sectors) = ataRaw.cylinder := by
    rw [Nat.mul_comm, ← Nat.div_div_eq_div_mul, hdiv, Nat.add_comm,
      Nat.add_mul_div_right _ _ (Nat.zero_lt_of_lt hhead), Nat.div_eq_of_lt hhead, Nat.zero_add]
  have hrest : lba % (t.heads * t.sectors) / t.sectors = ataRaw.head := by
    rw [Nat.mul_comm, Nat.mod_mul_right_div_self, hdiv, Nat.add_comm,
      Nat.add_mul_mod_self_right, Nat.mod_eq_of_lt hhead]
  exact ⟨hcyl.symm, hrest.symm, by omega⟩

theorem addresses_of_eq {ataRaw : AtaRaw} {t : AtaType} {lba : Nat} (hheads : 1 ≤ t.heads)
    (hsectors : 1 ≤ t.sectors) (hcyl : ataRaw.cylinder = lba / (t.heads * t.sectors))
    (hhead : ataRaw.head = lba % (t.heads * t.sectors) / t.sectors)
    (hsec : ataRaw.sector = lba % t.sectors + 1) : ataRaw.Addresses t lba := by
  have hlt : lba % t.sectors < t.sectors := Nat.mod_lt _ hsectors
  have hrest : lba % (t.heads * t.sectors) < t.heads * t.sectors :=
    Nat.mod_lt _ (Nat.mul_pos hheads hsectors)
  refine ⟨?_, by omega, by omega, ?_⟩
  · rw [hhead]
    exact Nat.div_lt_of_lt_mul (Nat.mul_comm t.heads t.sectors ▸ hrest)
  · have hmod : lba % (t.heads * t.sectors) % t.sectors = lba % t.sectors :=
      Nat.mod_mul_left_mod lba t.heads t.sectors
    have hsplit := Nat.div_add_mod (lba % (t.heads * t.sectors)) t.sectors
    have hwhole := Nat.div_add_mod lba (t.heads * t.sectors)
    rw [hmod, ← hhead] at hsplit
    rw [← hcyl] at hwhole
    have hexpand : (ataRaw.cylinder * t.heads + ataRaw.head) * t.sectors =
        t.heads * t.sectors * ataRaw.cylinder + t.sectors * ataRaw.head := by ring
    rw [hexpand, hsec]
    omega

/-! ## The bits that are lost -/

/-- A smaller number cannot have the head and the sector of `n`, whatever the variables of
8 bits make of it. -/
theorem eq_of_head_sector {x n s : Nat} (hx : x ≤ n) (hhead : x / s % 2 ^ 8 = n / s)
    (hsec : (x % s + 1) % 2 ^ 8 = n % s + 1) : x = n ∧ n / s < 2 ^ 8 ∧ n % s + 1 < 2 ^ 8 := by
  have hle : x / s ≤ n / s := Nat.div_le_div_right hx
  have hn : n / s < 2 ^ 8 := hhead ▸ Nat.mod_lt _ (by decide)
  have hns : n % s + 1 < 2 ^ 8 := hsec ▸ Nat.mod_lt _ (by decide)
  have hdiv : x / s = n / s := by rw [← hhead, Nat.mod_eq_of_lt (Nat.lt_of_le_of_lt hle hn)]
  have hxs := Nat.div_add_mod x s
  have hnss := Nat.div_add_mod n s
  rw [hdiv] at hxs
  have hmodle : x % s ≤ n % s := by omega
  rw [Nat.mod_eq_of_lt (Nat.lt_of_le_of_lt (Nat.succ_le_succ hmodle) hns)] at hsec
  exact ⟨by omega, hn, hns⟩

section

variable {t : AtaType} {n : Nat}

theorem mod_mod_sectors : n % (t.heads * t.sectors) % t.sectors = n % t.sectors :=
  Nat.mod_mul_left_mod n t.heads t.sectors

/-- The product is right, or an LBA has no cylinder but the first. -/
theorem cylinderSectors_cases (hn : n < 2 ^ 32) :
    t.heads * t.sectors < 2 ^ 32 ∧ t.cylinderSectors = t.heads * t.sectors ∨
      2 ^ 32 ≤ t.heads * t.sectors ∧ n / (t.heads * t.sectors) = 0 ∧
        n % (t.heads * t.sectors) = n := by
  rcases Nat.lt_or_ge (t.heads * t.sectors) (2 ^ 32) with hlt | hge
  · exact .inl ⟨hlt, Nat.mod_eq_of_lt hlt⟩
  · have hlt : n < t.heads * t.sectors := Nat.lt_of_lt_of_le hn hge
    exact .inr ⟨hge, Nat.div_eq_of_lt hlt, Nat.mod_eq_of_lt hlt⟩

/-- The address that the routine computes. -/
def AtaType.translate (t : AtaType) (n : Nat) : AtaRaw :=
  let tempN := n % t.cylinderSectors % 2 ^ 16
  ⟨n / t.cylinderSectors % 2 ^ 16, tempN / t.sectors % 2 ^ 8, (tempN % t.sectors + 1) % 2 ^ 8,
    1, 0⟩

theorem fits_of_addresses (hn : n < 2 ^ 32) (h0 : t.cylinderSectors ≠ 0)
    (h : (t.translate n).Addresses t n) : t.Fits n := by
  obtain ⟨hcyl, hhead, hsec⟩ := h.eq
  simp only [AtaType.translate] at hcyl hhead hsec
  rw [← @mod_mod_sectors t n] at hsec
  have hsmall : n % t.cylinderSectors % 2 ^ 16 < 2 ^ 16 := Nat.mod_lt _ (by decide)
  rcases cylinderSectors_cases (t := t) hn with ⟨hlt, hprod⟩ | ⟨hge, hdiv, hmod⟩
  · rw [hprod] at hcyl hhead hsec hsmall
    obtain ⟨heq, hh, hs⟩ := eq_of_head_sector (Nat.mod_le _ _) hhead hsec
    refine ⟨.inl hlt, ?_, heq ▸ hsmall, hh, mod_mod_sectors (t := t) ▸ hs⟩
    rw [← hcyl]
    exact Nat.mod_lt _ (by decide)
  · rw [hmod] at hhead hsec
    have hle : n % t.cylinderSectors % 2 ^ 16 ≤ n :=
      (Nat.mod_le _ _).trans (Nat.mod_le _ _)
    obtain ⟨heq, hh, hs⟩ := eq_of_head_sector hle hhead hsec
    have hin : n < t.cylinderSectors := by
      have hlt : n % t.cylinderSectors < t.cylinderSectors :=
        Nat.mod_lt _ (Nat.pos_of_ne_zero h0)
      have hback : n ≤ n % t.cylinderSectors := by
        calc n = n % t.cylinderSectors % 2 ^ 16 := heq.symm
          _ ≤ n % t.cylinderSectors := Nat.mod_le _ _
      exact Nat.lt_of_le_of_lt hback hlt
    refine ⟨.inr hin, hdiv ▸ (by decide), ?_, hmod.symm ▸ hh, hs⟩
    rw [hmod]
    exact heq ▸ hsmall

theorem addresses_of_fits (hn : n < 2 ^ 32) (hheads : 1 ≤ t.heads) (hsectors : 1 ≤ t.sectors)
    (h : t.Fits n) : t.cylinderSectors ≠ 0 ∧ (t.translate n).Addresses t n := by
  obtain ⟨hprod, hc, hrest, hh, hs⟩ := h
  -- the quotient and the rest are those of the product without the overflow
  have hexact : t.cylinderSectors ≠ 0 ∧
      n / t.cylinderSectors = n / (t.heads * t.sectors) ∧
      n % t.cylinderSectors = n % (t.heads * t.sectors) := by
    rcases cylinderSectors_cases (t := t) hn with ⟨-, heq⟩ | ⟨hge, hdiv, hmod⟩
    · rw [heq]
      exact ⟨Nat.ne_of_gt (Nat.mul_pos hheads hsectors), rfl, rfl⟩
    · have hin : n < t.cylinderSectors :=
        hprod.resolve_left (Nat.not_lt.mpr hge)
      rw [hdiv, hmod]
      exact ⟨Nat.ne_of_gt (Nat.zero_lt_of_lt hin), Nat.div_eq_of_lt hin, Nat.mod_eq_of_lt hin⟩
  obtain ⟨h0, hdiv, hmod⟩ := hexact
  refine ⟨h0, addresses_of_eq hheads hsectors ?_ ?_ ?_⟩
  · simp only [AtaType.translate]
    rw [hdiv, Nat.mod_eq_of_lt hc]
  · simp only [AtaType.translate]
    rw [hmod, Nat.mod_eq_of_lt hrest, Nat.mod_eq_of_lt hh]
  · simp only [AtaType.translate]
    rw [hmod, Nat.mod_eq_of_lt hrest, mod_mod_sectors, Nat.mod_eq_of_lt hs]

end

theorem rdLbaRequest_eq (drv : AtaDrv) (ctrl drive : Nat) (lbaSec : UInt32) :
    rdLbaRequest drv ctrl drive lbaSec =
      if drv.ready ctrl drive = false then .error
      else if (drv.ataTypes ctrl drive).cylinderSectors = 0 then .trap
      else .asks ((drv.ataTypes ctrl drive).translate lbaSec.toNat) := rfl

/-- The routine returns an error without reading, or asks for exactly the sector of the
LBA, if and only if the drive is not there or no variable loses a bit of the LBA. -/
theorem rdLba_exact_iff (drv : AtaDrv) (ctrl drive : Nat) (lbaSec : UInt32)
    (hheads : 1 ≤ (drv.ataTypes ctrl drive).heads)
    (hsectors : 1 ≤ (drv.ataTypes ctrl drive).sectors) :
    (rdLbaRequest drv ctrl drive lbaSec = .error ∨
      ∃ ataRaw, rdLbaRequest drv ctrl drive lbaSec = .asks ataRaw ∧
        ataRaw.nSecs = 1 ∧ ataRaw.direction = 0 ∧
        ataRaw.Addresses (drv.ataTypes ctrl drive) lbaSec.toNat) ↔
      (drv.ready ctrl drive = false ∨ (drv.ataTypes ctrl drive).Fits lbaSec.toNat) := by
  have hn : lbaSec.toNat < 2 ^ 32 := lbaSec.toNat_lt
  rw [rdLbaRequest_eq]
  cases hready : drv.ready ctrl drive with
  | false => simp
  | true =>
      by_cases h0 : (drv.ataTypes ctrl drive).cylinderSectors = 0
      · have hnot : ¬ (drv.ataTypes ctrl drive).Fits lbaSec.toNat :=
          fun hfits => (addresses_of_fits hn hheads hsectors hfits).1 h0
        simp [h0, hnot]
      · simp only [h0, Bool.true_eq_false, if_false, reduceCtorEq, false_or, RdLba.asks.injEq]
        constructor
        · rintro ⟨ataRaw, rfl, -, -, haddr⟩
          exact fits_of_addresses hn h0 haddr
        · intro hfits
          exact ⟨_, rfl, rfl, rfl, (addresses_of_fits hn hheads hsectors hfits).2⟩

/-- A drive of 16 heads and 63 sectors on the first controller. -/
def usualDrv : AtaDrv := ⟨true, fun ctrl => ctrl == 0, fun _ _ => ⟨16, 63⟩⟩

theorem rdLba_exact_usual :
    ∃ ataRaw, rdLbaRequest usualDrv 0 0 1000000 = .asks ataRaw ∧
      ataRaw.Addresses ⟨16, 63⟩ 1000000 := by
  rcases (rdLba_exact_iff usualDrv 0 0 1000000 (by decide) (by decide)).mpr
    (.inr (by decide)) with herr | ⟨ataRaw, hasks, -, -, haddr⟩
  · exact absurd herr (by decide)
  · exact ⟨ataRaw, hasks, haddr⟩

/-- Sector 66060288 is the first of cylinder 65536, and the routine asks for sector 0. -/
theorem rdLba_wraps :
    rdLbaRequest usualDrv 0 0 66060288 = .asks ⟨0, 0, 1, 1, 0⟩ ∧
      AtaRaw.Addresses ⟨0, 0, 1, 1, 0⟩ ⟨16, 63⟩ 0 ∧
      ¬ AtaRaw.Addresses ⟨0, 0, 1, 1, 0⟩ ⟨16, 63⟩ 66060288 := by
  unfold AtaRaw.Addresses
  decide

/-- What the parser reads from a drive whose sectors are at their addresses. -/
theorem dosPartRdLbaAta_eq {ataRawio : AtaRaw → Option Sector} {content : Nat → Option Sector}
    {drv : AtaDrv} {ctrl drive : Nat} {lbaSec : UInt32}
    (hheads : 1 ≤ (drv.ataTypes ctrl drive).heads)
    (hsectors : 1 ≤ (drv.ataTypes ctrl drive).sectors)
    (hmedium : ∀ ataRaw lba, ataRaw.Addresses (drv.ataTypes ctrl drive) lba →
      ataRawio ataRaw = content lba)
    (hready : drv.ready ctrl drive = true)
    (hfits : (drv.ataTypes ctrl drive).Fits lbaSec.toNat) :
    dosPartRdLbaAta ataRawio drv ctrl drive lbaSec = content lbaSec.toNat := by
  obtain ⟨h0, haddr⟩ := addresses_of_fits lbaSec.toNat_lt hheads hsectors hfits
  unfold dosPartRdLbaAta
  rw [rdLbaRequest_eq]
  simp only [hready, Bool.true_eq_false, if_false, h0]
  exact hmedium _ _ haddr

end VxWorks.Fs
