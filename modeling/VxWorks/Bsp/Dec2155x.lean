import Mathlib.Data.BitVec
import Mathlib.Data.List.Basic
import Mathlib.Data.UInt
import Mathlib.Logic.Function.Basic
import Mathlib.Tactic.Ring

/-!
# The Compact PCI bridge (dec2155xCpci.c)

The bridge maps windows of one bus to the other. The base of a window and its translated
base are registers, and a setup register has its size: the bits that are compared, with the
enable bit above them and the kind of space below. `sysDec2155xCaptWindows` makes a table of
the windows from the registers, with inclusive limits, and `sysDec2155xCnvrtAdrs` looks an
address up in it. The CSR image has no setup registers; its setups are in the table of
offsets, and they can be told from offsets by the enable bit.

The first 4 KB of the memory 0 window are the CSR image, so its entry begins 4 KB behind its
base. When the window has no more than that, its limit is below its base and it is left
out; but not when it is at the end of the address space, where the base goes round to zero.
-/

namespace VxWorks.Bsp

structure WindowOffsets where
  bar : BitVec 32
  trans : BitVec 32
  setup : BitVec 32
  unuseable : BitVec 32
deriving DecidableEq, Repr

structure WindowParameters where
  windowType : BitVec 32
  origBase : BitVec 32
  trgtBase : BitVec 32
  trgtLimit : BitVec 32
deriving DecidableEq, Repr

/-- What the conversion reads of the bridge: the configuration registers, as long words and
as words. -/
structure Bridge where
  cfgLong : BitVec 32 → BitVec 32
  cfgWord : BitVec 32 → BitVec 16

def pciBarSpaceMask : BitVec 32 := 0x01

def pciBarSpaceIo : BitVec 32 := 0x01

def pciBarSpaceMem : BitVec 32 := 0x00

def setupRegBarEnable : BitVec 32 := 0x80000000

def memTbRsvMsk : BitVec 32 := 0xfff

def ioOrMemTbRsvMsk : BitVec 32 := 0x3f

def defaultMemWindowSz : BitVec 32 := 4096

def defaultIoWindowSz : BitVec 32 := 256

/-- `DEC2155X_PRI_FROM_SEC_OFFSET`, where the primary registers are seen from the secondary
side. -/
def priFromSec : BitVec 32 := 0x40

def dsWindowOffsets : List WindowOffsets :=
  [⟨0x10 + priFromSec, 0x10, ~~~(defaultMemWindowSz - 1) ||| pciBarSpaceMem, 0⟩,
   ⟨0x10 + priFromSec, 0x94, 0xac, defaultMemWindowSz⟩,
   ⟨0x14 + priFromSec, 0x14, ~~~(defaultIoWindowSz - 1) ||| pciBarSpaceIo, 0⟩,
   ⟨0x18 + priFromSec, 0x98, 0xb0, 0⟩,
   ⟨0x1c + priFromSec, 0x9c, 0xb4, 0⟩,
   ⟨0x20 + priFromSec, 0xa0, 0xb8, 0⟩]

def usWindowOffsets : List WindowOffsets :=
  [⟨0x10, 0x10 + priFromSec, ~~~(defaultMemWindowSz - 1) ||| pciBarSpaceMem, 0⟩,
   ⟨0x14, 0x14 + priFromSec, ~~~(defaultIoWindowSz - 1) ||| pciBarSpaceIo, 0⟩,
   ⟨0x18, 0xa4, 0xc4, 0⟩,
   ⟨0x1c, 0xa8, 0xc8, 0⟩]

/-- `dsWindows` and `dsWinsValid`, or `usWindows` and `usWinsValid`. -/
structure Windows where
  params : Nat → WindowParameters
  winsValid : Nat

/-- The contents of the setup register, or the setup that stands in its place. -/
def Bridge.setup (br : Bridge) (o : WindowOffsets) : BitVec 32 :=
  if o.setup &&& setupRegBarEnable = 0 then br.cfgLong o.setup else o.setup

/-- The setup without its reserved bits. -/
def setupMask (setup : BitVec 32) : BitVec 32 :=
  if setup &&& pciBarSpaceMask = pciBarSpaceMem then setup &&& ~~~memTbRsvMsk
  else setup &&& ~~~ioOrMemTbRsvMsk

/-- The parameters of an enabled window. -/
def Bridge.parameters (br : Bridge) (o : WindowOffsets) : WindowParameters :=
  let mask := setupMask (br.setup o)
  let bar := br.cfgLong o.bar &&& mask
  let trans := br.cfgLong o.trans &&& mask
  { windowType :=
      if br.setup o &&& pciBarSpaceMask = pciBarSpaceMem then pciBarSpaceMem else pciBarSpaceIo
    origBase := bar + o.unuseable
    trgtBase := trans + o.unuseable
    trgtLimit := trans + ~~~mask }

/-- The loop of `sysDec2155xCaptWindows`: `pWinParam` is the entry behind the valid ones. -/
def captLoop (br : Bridge) : List WindowOffsets → Windows → Windows
  | [], w => w
  | o :: os, w =>
    if br.setup o &&& setupRegBarEnable = 0 then w
    else
      let p := br.parameters o
      let w := { w with params := Function.update w.params w.winsValid p }
      captLoop br os (if p.trgtBase < p.trgtLimit then { w with winsValid := w.winsValid + 1 }
        else w)

def sysDec2155xCaptWindows (br : Bridge) (os : List WindowOffsets) (w : Windows) : Windows :=
  captLoop br os { w with winsValid := 0 }

/-- `sysDec2155xCnvrtAdrs`, from the entry `i` on. -/
def cnvrtLoop (adrsSpace adrs : BitVec 32) (params : Nat → WindowParameters) :
    Nat → Nat → Option (BitVec 32)
  | 0, _ => none
  | winCnt + 1, i =>
    if (params i).windowType = adrsSpace ∧ (params i).trgtBase ≤ adrs ∧
        adrs ≤ (params i).trgtLimit then
      some (adrs - (params i).trgtBase + (params i).origBase)
    else cnvrtLoop adrsSpace adrs params winCnt (i + 1)

def sysDec2155xCnvrtAdrs (adrsSpace adrs : BitVec 32) (w : Windows) : Option (BitVec 32) :=
  cnvrtLoop adrsSpace adrs w.params w.winsValid 0

def pciCfgCommand : BitVec 32 := 0x04

def pciCmdIoEnable : BitVec 16 := 0x0001

def pciCmdMemEnable : BitVec 16 := 0x0002

def pciCmdMasterEnable : BitVec 16 := 0x0004

/-- `sysDec2155xChkEnables`. -/
def sysDec2155xChkEnables (br : Bridge) (origOffset trgtOffset adrsSpace : BitVec 32) : Bool :=
  let mask :=
    if adrsSpace = pciBarSpaceMem then pciCmdMemEnable
    else if adrsSpace = pciBarSpaceIo then pciCmdIoEnable
    else 0
  br.cfgWord origOffset &&& mask != 0 && br.cfgWord trgtOffset &&& pciCmdMasterEnable != 0

/-- What the two conversions have in common. The windows are captured when the first one
has no limit yet. -/
def cnvrtAdrs (br : Bridge) (origOffset trgtOffset : BitVec 32) (os : List WindowOffsets)
    (w : Windows) (adrsSpace adrs : BitVec 32) : Option (BitVec 32) × Windows :=
  if sysDec2155xChkEnables br origOffset trgtOffset adrsSpace = false then (none, w)
  else
    let w := if (w.params 0).trgtLimit = 0 then sysDec2155xCaptWindows br os w else w
    (sysDec2155xCnvrtAdrs adrsSpace adrs w, w)

def sysPciToCpciAdrs (br : Bridge) (dsWindows : Windows) (adrsSpace localAdrs : BitVec 32) :
    Option (BitVec 32) × Windows :=
  cnvrtAdrs br (pciCfgCommand + priFromSec) pciCfgCommand dsWindowOffsets dsWindows adrsSpace
    localAdrs

def sysCpciToPciAdrs (br : Bridge) (usWindows : Windows) (adrsSpace busAdrs : BitVec 32) :
    Option (BitVec 32) × Windows :=
  cnvrtAdrs br pciCfgCommand (pciCfgCommand + priFromSec) usWindowOffsets usWindows adrsSpace
    busAdrs

/-! ## What the bridge does -/

/-- A window maps `bar + x` to `trans + x`, for `x` from `skip` on and below `size`. -/
structure Window where
  space : BitVec 32
  bar : BitVec 32
  trans : BitVec 32
  size : Nat
  skip : Nat
deriving DecidableEq, Repr

def Window.Maps (w : Window) (b a : BitVec 32) : Prop :=
  ∃ x, w.skip ≤ x ∧ x < w.size ∧ b.toNat = w.bar.toNat + x ∧ a.toNat = w.trans.toNat + x

/-- The window of a table entry, if its setup is enabled: the size is what the bits of the
setup that are compared leave. -/
def Bridge.window (br : Bridge) (o : WindowOffsets) : Option Window :=
  if br.setup o &&& setupRegBarEnable = 0 then none
  else some
    { space := br.setup o &&& pciBarSpaceMask
      bar := br.cfgLong o.bar &&& setupMask (br.setup o)
      trans := br.cfgLong o.trans &&& setupMask (br.setup o)
      size := 2 ^ 32 - (setupMask (br.setup o)).toNat
      skip := o.unuseable.toNat }

def Bridge.windows (br : Bridge) (os : List WindowOffsets) : List Window :=
  os.filterMap br.window

/-- The enabled windows come first in the table. -/
def Bridge.Contiguous (br : Bridge) (os : List WindowOffsets) : Prop :=
  ∀ o ∈ os.dropWhile (fun o => (br.window o).isSome), br.window o = none

instance decidableContiguous (br : Bridge) (os : List WindowOffsets) :
    Decidable (br.Contiguous os) :=
  inferInstanceAs (Decidable (∀ o ∈ os.dropWhile (fun o => (br.window o).isSome),
    br.window o = none))

/-- `b` is mapped to `a` by the first window of the space that maps anything to `a`. -/
def FirstMaps (ws : List Window) (space b a : BitVec 32) : Prop :=
  ∃ before w behind, ws = before ++ w :: behind ∧ w.space = space ∧ w.Maps b a ∧
    ∀ v ∈ before, v.space = space → ∀ b', ¬ v.Maps b' a

/-! ## Looking an address up -/

/-- What one entry of the captured windows gives. -/
def WindowParameters.back (p : WindowParameters) (space a : BitVec 32) : Option (BitVec 32) :=
  if p.windowType = space ∧ p.trgtBase ≤ a ∧ a ≤ p.trgtLimit then
    some (a - p.trgtBase + p.origBase)
  else none

/-- What one entry of the table of offsets gives: nothing when its window is left out. -/
def Bridge.back (br : Bridge) (space a : BitVec 32) (o : WindowOffsets) : Option (BitVec 32) :=
  if (br.parameters o).trgtBase < (br.parameters o).trgtLimit then (br.parameters o).back space a
  else none

/-- The address by the windows before the first disabled one. -/
def Bridge.lookup (br : Bridge) (space a : BitVec 32) : List WindowOffsets → Option (BitVec 32)
  | [] => none
  | o :: os =>
    if br.setup o &&& setupRegBarEnable = 0 then none
    else (br.back space a o).or (br.lookup space a os)

theorem captLoop_lookup (br : Bridge) (space a : BitVec 32) (os : List WindowOffsets)
    (w : Windows) :
    w.winsValid ≤ (captLoop br os w).winsValid ∧
      (∀ i < w.winsValid, (captLoop br os w).params i = w.params i) ∧
      cnvrtLoop space a (captLoop br os w).params ((captLoop br os w).winsValid - w.winsValid)
        w.winsValid = br.lookup space a os := by
  induction os generalizing w with
  | nil => exact ⟨Nat.le_refl _, fun i _ => rfl, by rw [captLoop, Nat.sub_self]; rfl⟩
  | cons o os ih =>
      rw [captLoop, Bridge.lookup]
      split
      · exact ⟨Nat.le_refl _, fun i _ => rfl, by rw [Nat.sub_self]; rfl⟩
      · have hbelow : ∀ i < w.winsValid,
            Function.update w.params w.winsValid (br.parameters o) i = w.params i :=
          fun i hi => Function.update_of_ne (Nat.ne_of_lt hi) _ _
        dsimp only
        split
        · next hvalid =>
            obtain ⟨hle, hkeep, hloop⟩ := ih ⟨Function.update w.params w.winsValid
              (br.parameters o), w.winsValid + 1⟩
            generalize captLoop br os _ = r at hle hkeep hloop ⊢
            dsimp only at hle hkeep hloop
            have hnew : r.params w.winsValid = br.parameters o := by
              rw [hkeep _ (Nat.lt_succ_self _), Function.update_self]
            obtain ⟨k, hk⟩ : ∃ k, r.winsValid - w.winsValid = k + 1 :=
              ⟨r.winsValid - w.winsValid - 1, by omega⟩
            have hk' : r.winsValid - (w.winsValid + 1) = k := by omega
            refine ⟨by omega, ?_, ?_⟩
            · intro i hi
              rw [hkeep i (Nat.lt_succ_of_lt hi), hbelow i hi]
            · rw [hk, cnvrtLoop, hnew, Bridge.back, if_pos hvalid, WindowParameters.back]
              rw [hk'] at hloop
              split
              · rfl
              · exact hloop
        · next hout =>
            obtain ⟨hle, hkeep, hloop⟩ := ih ⟨Function.update w.params w.winsValid
              (br.parameters o), w.winsValid⟩
            refine ⟨hle, fun i hi => (hkeep i hi).trans (hbelow i hi), ?_⟩
            rw [Bridge.back, if_neg hout]
            exact hloop

theorem cnvrtAdrs_captured (br : Bridge) (space a : BitVec 32) (os : List WindowOffsets)
    (w : Windows) :
    sysDec2155xCnvrtAdrs space a (sysDec2155xCaptWindows br os w) = br.lookup space a os :=
  (captLoop_lookup br space a os { w with winsValid := 0 }).2.2

/-- What one window maps back. -/
def Window.back (w : Window) (space a : BitVec 32) : Option (BitVec 32) :=
  if w.space = space ∧ w.trans.toNat + w.skip ≤ a.toNat ∧ a.toNat < w.trans.toNat + w.size then
    some (a - w.trans + w.bar)
  else none

/-- A window lies inside the address space on both sides. -/
def Window.Fits (w : Window) : Prop :=
  w.bar.toNat + w.size ≤ 2 ^ 32 ∧ w.trans.toNat + w.size ≤ 2 ^ 32

theorem toNat_sub_add {a t b : BitVec 32} (hle : t.toNat ≤ a.toNat)
    (hlt : b.toNat + (a.toNat - t.toNat) < 2 ^ 32) :
    (a - t + b).toNat = b.toNat + (a.toNat - t.toNat) := by
  rw [BitVec.toNat_add, BitVec.toNat_sub_of_le (BitVec.le_def.mpr hle), Nat.add_comm,
    Nat.mod_eq_of_lt hlt]

theorem Window.back_eq_some_iff {w : Window} (hf : w.Fits) {space a b : BitVec 32} :
    w.back space a = some b ↔ w.space = space ∧ w.Maps b a := by
  obtain ⟨hbar, htrans⟩ := hf
  rw [Window.back]
  constructor
  · intro h
    split at h
    · next hin =>
        obtain ⟨hspace, hlow, hhigh⟩ := hin
        obtain rfl := Option.some_inj.mp h
        refine ⟨hspace, a.toNat - w.trans.toNat, by omega, by omega, ?_, by omega⟩
        exact toNat_sub_add (by omega) (by omega)
    · cases h
  · intro h
    obtain ⟨hspace, x, hskip, hsize, hb, ha⟩ := h
    rw [if_pos ⟨hspace, by omega, by omega⟩]
    refine congrArg some (BitVec.eq_of_toNat_eq ?_)
    rw [toNat_sub_add (by omega) (by omega), hb]
    omega

theorem Window.back_eq_none_iff {w : Window} (hf : w.Fits) {space a : BitVec 32} :
    w.back space a = none ↔ (w.space = space → ∀ b, ¬ w.Maps b a) := by
  rw [Option.eq_none_iff_forall_ne_some]
  simp only [ne_eq, Window.back_eq_some_iff hf, not_and]
  exact ⟨fun h hs b => h b hs, fun h b hs => h hs b⟩

theorem findSome?_back_iff {ws : List Window} (hf : ∀ w ∈ ws, w.Fits) {space a b : BitVec 32} :
    ws.findSome? (fun w => w.back space a) = some b ↔ FirstMaps ws space b a := by
  rw [List.findSome?_eq_some_iff]
  constructor
  · intro h
    obtain ⟨before, w, behind, hws, hw, hbefore⟩ := h
    obtain ⟨hspace, hmaps⟩ := (Window.back_eq_some_iff (hf w (by rw [hws]; simp))).mp hw
    refine ⟨before, w, behind, hws, hspace, hmaps, ?_⟩
    intro v hv
    exact (Window.back_eq_none_iff (hf v (by rw [hws]; simp [hv]))).mp (hbefore v hv)
  · intro h
    obtain ⟨before, w, behind, hws, hspace, hmaps, hbefore⟩ := h
    refine ⟨before, w, behind, hws, ?_, ?_⟩
    · exact (Window.back_eq_some_iff (hf w (by rw [hws]; simp))).mpr ⟨hspace, hmaps⟩
    · intro v hv
      exact (Window.back_eq_none_iff (hf v (by rw [hws]; simp [hv]))).mpr (hbefore v hv)

/-! ## The captured window and the window -/

section

variable {br : Bridge} {o : WindowOffsets} {w : Window}

theorem and_toNat_even (x : BitVec 32) {m : BitVec 32} (hm : m.getLsbD 0 = false) :
    (x &&& m).toNat % 2 = 0 := by
  rw [Nat.mod_two_eq_zero_iff_testBit_zero, BitVec.testBit_toNat, BitVec.getLsbD_and, hm,
    Bool.and_false]

theorem setupMask_even (setup : BitVec 32) : (setupMask setup).toNat % 2 = 0 := by
  rw [setupMask]
  split
  · exact and_toNat_even setup (by decide)
  · exact and_toNat_even setup (by decide)

/-- The reserved bits are below the enable bit. -/
theorem setupMask_and_enable (setup : BitVec 32) :
    setupMask setup &&& setupRegBarEnable = setup &&& setupRegBarEnable := by
  rw [setupMask]
  split
  · rw [BitVec.and_assoc]
    rfl
  · rw [BitVec.and_assoc]
    rfl

theorem setupMask_pos {setup : BitVec 32} (h : setup &&& setupRegBarEnable ≠ 0) :
    0 < (setupMask setup).toNat := by
  refine Nat.pos_of_ne_zero fun hzero => h ?_
  rw [← setupMask_and_enable, show setupMask setup = 0 from BitVec.eq_of_toNat_eq hzero,
    BitVec.ofNat_eq_ofNat, BitVec.zero_and]

/-- An enabled window, by the registers of its table entry. -/
theorem window_eq_some (h : br.window o = some w) :
    br.setup o &&& setupRegBarEnable ≠ 0 ∧ w.space = br.setup o &&& pciBarSpaceMask ∧
      w.bar = br.cfgLong o.bar &&& setupMask (br.setup o) ∧
      w.trans = br.cfgLong o.trans &&& setupMask (br.setup o) ∧
      w.size = 2 ^ 32 - (setupMask (br.setup o)).toNat ∧ w.skip = o.unuseable.toNat := by
  rw [Bridge.window] at h
  split at h
  · cases h
  · next hon =>
      obtain rfl := Option.some_inj.mp h
      exact ⟨hon, rfl, rfl, rfl, rfl, rfl⟩

theorem and_add_size_le (x m : BitVec 32) : (x &&& m).toNat + (2 ^ 32 - m.toNat) ≤ 2 ^ 32 := by
  have hle : (x &&& m).toNat ≤ m.toNat := by
    rw [BitVec.toNat_and]
    exact Nat.and_le_right
  have hlt := m.isLt
  omega

theorem window_fits (h : br.window o = some w) : w.Fits := by
  obtain ⟨-, -, hbar, htrans, hsize, -⟩ := window_eq_some h
  rw [Window.Fits, hbar, htrans, hsize]
  exact ⟨and_add_size_le _ _, and_add_size_le _ _⟩

theorem spaceMask_cases (setup : BitVec 32) :
    setup &&& pciBarSpaceMask = pciBarSpaceMem ∨ setup &&& pciBarSpaceMask = pciBarSpaceIo := by
  have hbit : (setup &&& pciBarSpaceMask).toNat = setup.toNat % 2 := by
    rw [BitVec.toNat_and]
    exact Nat.and_one_is_mod setup.toNat
  rcases Nat.mod_two_eq_zero_or_one setup.toNat with hzero | hone
  · exact .inl (BitVec.eq_of_toNat_eq (hbit.trans hzero))
  · exact .inr (BitVec.eq_of_toNat_eq (hbit.trans hone))

/-- The limit is the last address of the window: without the reserved bits the setup and
the base do not carry. -/
theorem toNat_and_add_not (x m : BitVec 32) :
    ((x &&& m) + ~~~m).toNat = (x &&& m).toNat + (2 ^ 32 - m.toNat) - 1 := by
  have hle := and_add_size_le x m
  have hlt := m.isLt
  rw [BitVec.toNat_add, BitVec.toNat_not, Nat.mod_eq_of_lt (by omega)]
  omega

theorem parameters_eq (h : br.window o = some w) :
    (br.parameters o).windowType = w.space ∧ (br.parameters o).origBase = w.bar + o.unuseable ∧
      (br.parameters o).trgtBase = w.trans + o.unuseable ∧
      (br.parameters o).trgtLimit.toNat = w.trans.toNat + w.size - 1 := by
  obtain ⟨-, hspace, hbar, htrans, hsize, -⟩ := window_eq_some h
  rw [hspace, hbar, htrans, hsize]
  refine ⟨?_, rfl, rfl, toNat_and_add_not _ _⟩
  rw [Bridge.parameters]
  rcases spaceMask_cases (br.setup o) with hmem | hio
  · rw [if_pos hmem, hmem]
  · rw [hio]
    rfl

/-- The two bases have the same part in front, whether it goes round or not. -/
theorem back_value (a t b u : BitVec 32) : a - (t + u) + (b + u) = a - t + b := by ring

/-- Where the base of the window does not go round, what is captured is the window. -/
theorem back_eq (h : br.window o = some w) (heven : w.skip % 2 = 0)
    (hround : w.trans.toNat + w.skip < 2 ^ 32) (space a : BitVec 32) :
    br.back space a o = w.back space a := by
  obtain ⟨htype, horig, hbase, hlimit⟩ := parameters_eq h
  obtain ⟨hon, -, -, -, hsize, hskip⟩ := window_eq_some h
  have hmask := setupMask_even (br.setup o)
  have hpos := setupMask_pos hon
  have hbase' : (br.parameters o).trgtBase.toNat = w.trans.toNat + w.skip := by
    rw [hbase, BitVec.toNat_add, ← hskip, Nat.mod_eq_of_lt hround]
  rw [Bridge.back, Window.back, WindowParameters.back, htype, horig]
  simp only [BitVec.lt_def, BitVec.le_def, hbase', hlimit]
  rw [hbase, back_value]
  by_cases hin : w.space = space ∧ w.trans.toNat + w.skip ≤ a.toNat ∧
      a.toNat < w.trans.toNat + w.size
  · rw [if_pos hin, if_pos (by omega), if_pos ⟨hin.1, hin.2.1, by omega⟩]
  · rw [if_neg hin]
    split
    · exact if_neg fun hin' => hin ⟨hin'.1, hin'.2.1, by omega⟩
    · rfl

/-- Where it does, the window has nothing but its unuseable part, and what is captured is
all there is from the base to the end of the address space. -/
theorem back_eq_round (h : br.window o = some w)
    (hround : 2 ^ 32 ≤ w.trans.toNat + w.skip) (space a : BitVec 32) :
    br.back space a o =
      if w.space = space ∧ w.trans.toNat + w.skip - 2 ^ 32 ≤ a.toNat ∧
          a.toNat < w.trans.toNat + w.size then
        some (a - w.trans + w.bar)
      else none := by
  obtain ⟨htype, horig, hbase, hlimit⟩ := parameters_eq h
  obtain ⟨hon, -, -, -, hsize, hskip⟩ := window_eq_some h
  have hpos := setupMask_pos hon
  have hmlt := (setupMask (br.setup o)).isLt
  have hskiplt : w.skip < 2 ^ 32 := hskip ▸ o.unuseable.isLt
  have htlt := w.trans.isLt
  have hbase' : (br.parameters o).trgtBase.toNat = w.trans.toNat + w.skip - 2 ^ 32 := by
    rw [hbase, BitVec.toNat_add, ← hskip, Nat.mod_eq_sub_mod hround, Nat.mod_eq_of_lt (by omega)]
  rw [Bridge.back, WindowParameters.back, htype, horig]
  simp only [BitVec.lt_def, BitVec.le_def, hbase', hlimit]
  rw [hbase, back_value, if_pos (by omega)]
  by_cases hin : w.space = space ∧ w.trans.toNat + w.skip - 2 ^ 32 ≤ a.toNat ∧
      a.toNat < w.trans.toNat + w.size
  · rw [if_pos hin, if_pos ⟨hin.1, hin.2.1, by omega⟩]
  · rw [if_neg hin]
    exact if_neg fun hin' => hin ⟨hin'.1, hin'.2.1, by omega⟩

theorem window_isSome_iff : (br.window o).isSome ↔ br.setup o &&& setupRegBarEnable ≠ 0 := by
  rw [Bridge.window]
  split
  · next hoff => exact iff_of_false Bool.false_ne_true fun hon => hon hoff
  · next hon => exact iff_of_true rfl hon

end

section

variable {br : Bridge}

theorem Bridge.Contiguous.tail {o : WindowOffsets} {os : List WindowOffsets}
    (hc : br.Contiguous (o :: os)) (ho : (br.window o).isSome) : br.Contiguous os := by
  intro o' ho'
  refine hc o' ?_
  rw [@List.dropWhile_cons_of_pos _ (fun o => (br.window o).isSome) o os ho]
  exact ho'

theorem Bridge.Contiguous.none {o : WindowOffsets} {os : List WindowOffsets}
    (hc : br.Contiguous (o :: os)) (ho : br.window o = none) :
    ∀ o' ∈ o :: os, br.window o' = Option.none := by
  intro o' ho'
  refine hc o' ?_
  rw [@List.dropWhile_cons_of_neg _ (fun o => (br.window o).isSome) o os (by rw [ho]; decide)]
  exact ho'

/-- Where every entry gives what its window maps back, so does the table. -/
theorem lookup_eq {space a : BitVec 32} {os : List WindowOffsets} (hc : br.Contiguous os)
    (hback : ∀ o ∈ os, ∀ w, br.window o = some w → br.back space a o = w.back space a) :
    br.lookup space a os = (br.windows os).findSome? (fun w => w.back space a) := by
  induction os with
  | nil => rfl
  | cons o os ih =>
      rw [Bridge.lookup, Bridge.windows]
      cases ho : br.window o with
      | none =>
          have hoff : br.setup o &&& setupRegBarEnable = 0 := by
            by_contra hon
            have hsome := window_isSome_iff.mpr hon
            rw [ho] at hsome
            cases hsome
          have hnone : (o :: os).filterMap br.window = [] :=
            List.filterMap_eq_nil_iff.mpr (hc.none ho)
          rw [if_pos hoff, hnone]
          rfl
      | some w =>
          have hsome : (br.window o).isSome := by rw [ho]; rfl
          rw [if_neg (window_isSome_iff.mp hsome), List.filterMap_cons_some ho,
            List.findSome?_cons, hback o List.mem_cons_self w ho,
            ih (hc.tail hsome) fun o' ho' => hback o' (List.mem_cons_of_mem o ho')]
          cases w.back space a with
          | none => rfl
          | some b => rfl

/-- There are windows of memory and of I/O, and of no other space. -/
theorem lookup_other {space : BitVec 32} (hmem : space ≠ pciBarSpaceMem)
    (hio : space ≠ pciBarSpaceIo) (a : BitVec 32) (os : List WindowOffsets) :
    br.lookup space a os = none := by
  induction os with
  | nil => rfl
  | cons o os ih =>
      have htype : (br.parameters o).windowType ≠ space := by
        rw [Bridge.parameters]
        dsimp only
        split
        · exact hmem.symm
        · exact hio.symm
      have hback : br.back space a o = none := by
        have hparam : (br.parameters o).back space a = none := if_neg fun hin => htype hin.1
        rw [Bridge.back, hparam, ite_self]
      rw [Bridge.lookup, ih, hback, Option.or_none, ite_self]

/-- The enables on the originating side, for the space, and on the target side. -/
def Bridge.Enables (br : Bridge) (origOffset trgtOffset space : BitVec 32) : Prop :=
  (space = pciBarSpaceMem → br.cfgWord origOffset &&& pciCmdMemEnable ≠ 0) ∧
    (space = pciBarSpaceIo → br.cfgWord origOffset &&& pciCmdIoEnable ≠ 0) ∧
    br.cfgWord trgtOffset &&& pciCmdMasterEnable ≠ 0

/-- The windows have not been captured yet, or have been from these registers. -/
def Windows.Current (br : Bridge) (os : List WindowOffsets) (w : Windows) : Prop :=
  (w.params 0).trgtLimit = 0 ∨ ∃ w', w = sysDec2155xCaptWindows br os w'

theorem chkEnables_eq {origOffset trgtOffset space : BitVec 32}
    (hen : br.Enables origOffset trgtOffset space)
    (hspace : space = pciBarSpaceMem ∨ space = pciBarSpaceIo) :
    sysDec2155xChkEnables br origOffset trgtOffset space = true := by
  obtain ⟨hmem, hio, hmaster⟩ := hen
  rw [sysDec2155xChkEnables, Bool.and_eq_true, bne_iff_ne, bne_iff_ne]
  refine ⟨?_, hmaster⟩
  rcases hspace with rfl | rfl
  · exact hmem rfl
  · exact hio rfl

theorem cnvrtAdrs_eq {origOffset trgtOffset space : BitVec 32} {os : List WindowOffsets}
    {w : Windows} (hen : br.Enables origOffset trgtOffset space)
    (hw : w.Current br os) (a : BitVec 32) :
    (cnvrtAdrs br origOffset trgtOffset os w space a).1 = br.lookup space a os := by
  have hcapt : sysDec2155xCnvrtAdrs space a
      (if (w.params 0).trgtLimit = 0 then sysDec2155xCaptWindows br os w else w) =
        br.lookup space a os := by
    split
    · exact cnvrtAdrs_captured br space a os w
    · next hlimit =>
        obtain ⟨w', rfl⟩ := hw.resolve_left hlimit
        exact cnvrtAdrs_captured br space a os w'
  rw [cnvrtAdrs]
  split
  · next hoff =>
      have hneither : ¬ (space = pciBarSpaceMem ∨ space = pciBarSpaceIo) := by
        intro hspace
        rw [chkEnables_eq hen hspace] at hoff
        cases hoff
      obtain ⟨hmem, hio⟩ := not_or.mp hneither
      rw [lookup_other hmem hio]
  · exact hcapt

/-- The next call finds the windows as current as this one did. -/
theorem cnvrtAdrs_current {origOffset trgtOffset space : BitVec 32} {os : List WindowOffsets}
    {w : Windows} (hw : w.Current br os) (a : BitVec 32) :
    (cnvrtAdrs br origOffset trgtOffset os w space a).2.Current br os := by
  rw [cnvrtAdrs]
  split
  · exact hw
  · dsimp only
    split
    · exact .inr ⟨w, rfl⟩
    · exact hw

theorem windows_fit {os : List WindowOffsets} : ∀ w ∈ br.windows os, w.Fits := by
  intro w hw
  obtain ⟨o, -, ho⟩ := List.mem_filterMap.mp hw
  exact window_fits ho

/-- A window without an unuseable part does not go round. -/
theorem back_eq_whole {o : WindowOffsets} {w : Window} (h : br.window o = some w)
    (hskip : o.unuseable = 0) (space a : BitVec 32) : br.back space a o = w.back space a := by
  have hzero : w.skip = 0 := by
    obtain ⟨-, -, -, -, -, hw⟩ := window_eq_some h
    rw [hw, hskip]
    rfl
  refine back_eq h (by rw [hzero]) ?_ space a
  rw [hzero, Nat.add_zero]
  exact w.trans.isLt

theorem lookup_whole {os : List WindowOffsets} (hc : br.Contiguous os)
    (hskip : ∀ o ∈ os, o.unuseable = 0) (space a : BitVec 32) :
    br.lookup space a os = (br.windows os).findSome? (fun w => w.back space a) :=
  lookup_eq hc fun o ho _ hw => back_eq_whole hw (hskip o ho) space a

/-- The memory 0 window goes round, and the address is in what is captured for it, not in
the CSR image, and not mapped to the same address by a window behind. -/
def Bridge.Stray (br : Bridge) (space a : BitVec 32) : Prop :=
  ∃ csr mem0 behind, br.windows dsWindowOffsets = csr :: mem0 :: behind ∧
    2 ^ 32 ≤ mem0.trans.toNat + mem0.skip ∧ mem0.space = space ∧
    mem0.trans.toNat + mem0.skip - 2 ^ 32 ≤ a.toNat ∧
    a.toNat < mem0.trans.toNat + mem0.size ∧
    (csr.space = space → ∀ b, ¬ csr.Maps b a) ∧
    ¬ FirstMaps behind space (a - mem0.trans + mem0.bar) a

theorem lookup_cons {o : WindowOffsets} {os : List WindowOffsets} (ho : (br.window o).isSome)
    (space a : BitVec 32) :
    br.lookup space a (o :: os) = (br.back space a o).or (br.lookup space a os) := by
  rw [Bridge.lookup, if_neg (window_isSome_iff.mp ho)]

/-- An entry with its setup in the table is always enabled. -/
theorem window_emulated {o : WindowOffsets} (h : o.setup &&& setupRegBarEnable ≠ 0) :
    (br.window o).isSome := by
  refine window_isSome_iff.mpr ?_
  rw [Bridge.setup, if_neg h]
  exact h

/-- The CSR image and the memory 0 window are enabled: the CSR I/O window behind them is. -/
theorem ds_windows (hc : br.Contiguous dsWindowOffsets) :
    ∃ csr mem0, br.window dsWindowOffsets[0] = some csr ∧
      br.window dsWindowOffsets[1] = some mem0 ∧ br.Contiguous (dsWindowOffsets.drop 2) ∧
      br.windows dsWindowOffsets = csr :: mem0 :: br.windows (dsWindowOffsets.drop 2) := by
  have hcsr : (br.window dsWindowOffsets[0]).isSome := window_emulated (by decide)
  have hio : (br.window dsWindowOffsets[2]).isSome := window_emulated (by decide)
  have htail : br.Contiguous (dsWindowOffsets.drop 1) := Bridge.Contiguous.tail hc hcsr
  obtain ⟨csr, h0⟩ := Option.isSome_iff_exists.mp hcsr
  cases h1 : br.window dsWindowOffsets[1] with
  | none =>
      have hoff := htail.none h1 dsWindowOffsets[2] (by decide)
      rw [hoff] at hio
      cases hio
  | some mem0 =>
      refine ⟨csr, mem0, h0, rfl, htail.tail (Option.isSome_iff_exists.mpr ⟨mem0, h1⟩), ?_⟩
      calc br.windows dsWindowOffsets
          = (dsWindowOffsets[0] :: dsWindowOffsets.drop 1).filterMap br.window := rfl
        _ = csr :: (dsWindowOffsets[1] :: dsWindowOffsets.drop 2).filterMap br.window :=
          List.filterMap_cons_some h0
        _ = csr :: mem0 :: br.windows (dsWindowOffsets.drop 2) := by
          rw [List.filterMap_cons_some h1]
          rfl

/-- The downstream windows as they are looked up, with the memory 0 window as captured. -/
theorem ds_lookup {csr mem0 : Window} (h0 : br.window dsWindowOffsets[0] = some csr)
    (h1 : br.window dsWindowOffsets[1] = some mem0)
    (hc : br.Contiguous (dsWindowOffsets.drop 2)) (space a : BitVec 32) :
    br.lookup space a dsWindowOffsets =
      (csr.back space a).or ((br.back space a dsWindowOffsets[1]).or
        ((br.windows (dsWindowOffsets.drop 2)).findSome? (fun w => w.back space a))) := by
  rw [← lookup_whole hc (by decide), ← back_eq_whole h0 rfl,
    ← lookup_cons (Option.isSome_iff_exists.mpr ⟨mem0, h1⟩)]
  exact lookup_cons (Option.isSome_iff_exists.mpr ⟨csr, h0⟩) space a

theorem findSome?_cons_or {ws : List Window} (w : Window) (space a : BitVec 32) :
    (w :: ws).findSome? (fun w => w.back space a) =
      (w.back space a).or (ws.findSome? (fun w => w.back space a)) := by
  rw [List.findSome?_cons]
  cases w.back space a with
  | none => rfl
  | some b => rfl

theorem eq_iff_some {x y : Option (BitVec 32)} : (∀ b, x = some b ↔ y = some b) ↔ x = y :=
  Option.ext_iff.symm

/-- Which address is led astray, in terms of what the windows map back. -/
theorem stray_iff {csr mem0 : Window} {behind : List Window}
    (hws : br.windows dsWindowOffsets = csr :: mem0 :: behind) (space a : BitVec 32) :
    br.Stray space a ↔ 2 ^ 32 ≤ mem0.trans.toNat + mem0.skip ∧ csr.back space a = none ∧
      (mem0.space = space ∧ mem0.trans.toNat + mem0.skip - 2 ^ 32 ≤ a.toNat ∧
        a.toNat < mem0.trans.toNat + mem0.size) ∧
      behind.findSome? (fun w => w.back space a) ≠ some (a - mem0.trans + mem0.bar) := by
  have hfit : ∀ w ∈ csr :: mem0 :: behind, w.Fits := by
    rw [← hws]
    exact windows_fit
  have hbehind : ∀ w ∈ behind, w.Fits := by
    intro w hw
    exact hfit w (List.mem_cons_of_mem csr (List.mem_cons_of_mem mem0 hw))
  rw [Window.back_eq_none_iff (hfit csr List.mem_cons_self), ne_eq, findSome?_back_iff hbehind]
  constructor
  · intro hs
    obtain ⟨csr', mem0', behind', heq, hover, hspace, hlow, hhigh, hcsr, hmaps⟩ := hs
    rw [hws] at heq
    obtain ⟨rfl, hrest⟩ := List.cons.inj heq
    obtain ⟨rfl, rfl⟩ := List.cons.inj hrest
    exact ⟨hover, hcsr, ⟨hspace, hlow, hhigh⟩, hmaps⟩
  · intro hs
    obtain ⟨hover, hcsr, ⟨hspace, hlow, hhigh⟩, hmaps⟩ := hs
    exact ⟨csr, mem0, behind, hws, hover, hspace, hlow, hhigh, hcsr, hmaps⟩

/-- Downstream: what is looked up is what is mapped, except for the address led astray. -/
theorem ds_lookup_eq_iff (hc : br.Contiguous dsWindowOffsets) (space a : BitVec 32) :
    br.lookup space a dsWindowOffsets =
        (br.windows dsWindowOffsets).findSome? (fun w => w.back space a) ↔
      ¬ br.Stray space a := by
  obtain ⟨csr, mem0, h0, h1, hrest, hws⟩ := ds_windows hc
  have hskip : mem0.skip = 4096 := by
    obtain ⟨-, -, -, -, -, hskip⟩ := window_eq_some h1
    exact hskip
  rw [ds_lookup h0 h1 hrest, stray_iff hws, hws, findSome?_cons_or, findSome?_cons_or]
  by_cases hround : mem0.trans.toNat + mem0.skip < 2 ^ 32
  · rw [back_eq h1 (by rw [hskip]) hround]
    refine iff_of_true rfl ?_
    intro hs
    have hover := hs.1
    omega
  · have hover := Nat.not_lt.mp hround
    have hnone : mem0.back space a = none := if_neg fun hin => by
      have hsize := (window_fits h1).2
      omega
    rw [back_eq_round h1 hover, hnone, Option.none_or, and_iff_right hover]
    cases hcsr : csr.back space a with
    | some c => exact iff_of_true rfl fun hs => by cases hs.1
    | none =>
        rw [Option.none_or, Option.none_or]
        split
        · next hin =>
            rw [Option.some_or, eq_comm]
            exact ⟨fun heq hs => hs.2.2 heq, fun hs => not_not.mp fun hne => hs ⟨rfl, hin, hne⟩⟩
        · next hout => exact iff_of_true (Option.none_or) fun hs => hout hs.2.1

end

/-- An address is converted as the bridge maps it, in both directions, if and only if it is
not led astray by a memory 0 window that goes round. -/
theorem bridge_inverse {br : Bridge} {dsWindows usWindows : Windows} {space : BitVec 32}
    (hds : br.Contiguous dsWindowOffsets) (hus : br.Contiguous usWindowOffsets)
    (hdown : br.Enables (pciCfgCommand + priFromSec) pciCfgCommand space)
    (hup : br.Enables pciCfgCommand (pciCfgCommand + priFromSec) space)
    (hdsw : dsWindows.Current br dsWindowOffsets) (husw : usWindows.Current br usWindowOffsets)
    (a : BitVec 32) :
    ((∀ b, (sysPciToCpciAdrs br dsWindows space a).1 = some b ↔
        FirstMaps (br.windows dsWindowOffsets) space b a) ∧
      ∀ b, (sysCpciToPciAdrs br usWindows space a).1 = some b ↔
        FirstMaps (br.windows usWindowOffsets) space b a) ↔
      ¬ br.Stray space a := by
  have hdownEq := cnvrtAdrs_eq hdown hdsw a
  have hupEq := cnvrtAdrs_eq hup husw a
  simp only [← findSome?_back_iff windows_fit, eq_iff_some]
  rw [sysPciToCpciAdrs, sysCpciToPciAdrs, hdownEq, hupEq, lookup_whole hus (by decide),
    and_iff_left rfl]
  exact ds_lookup_eq_iff hds space a

/-- A bridge with all command enables and these registers, the others zero. -/
def bridgeOf (regs : List (BitVec 32 × BitVec 32)) : Bridge where
  cfgLong offset := (regs.lookup offset).getD 0
  cfgWord _ := 7

def noWindows : Windows := ⟨fun _ => ⟨0, 0, 0, 0⟩, 0⟩

theorem bridgeOf_enables (regs : List (BitVec 32 × BitVec 32)) (orig trgt space : BitVec 32) :
    (bridgeOf regs).Enables orig trgt space := by
  refine ⟨?_, ?_, ?_⟩
  · intro _
    show (7 : BitVec 16) &&& pciCmdMemEnable ≠ 0
    decide
  · intro _
    show (7 : BitVec 16) &&& pciCmdIoEnable ≠ 0
    decide
  · show (7 : BitVec 16) &&& pciCmdMasterEnable ≠ 0
    decide

/-- The CSR image at 0x80000000 and 0x90000000, and a memory 0 window of this setup and this
translated base behind it. -/
def mem0Bridge (setup trans : BitVec 32) : Bridge :=
  bridgeOf [(0x50, 0x80000000), (0x10, 0x90000000), (0x54, 0x1001), (0x14, 0x2001),
    (0xac, setup), (0x94, trans)]

/-- A memory 0 window of 1 MB. -/
theorem bridge_inverse_usual :
    (∀ b, (sysPciToCpciAdrs (mem0Bridge 0xfff00000 0) noWindows 0 0x2000).1 = some b ↔
        FirstMaps ((mem0Bridge 0xfff00000 0).windows dsWindowOffsets) 0 b 0x2000) ∧
      ∀ b, (sysCpciToPciAdrs (mem0Bridge 0xfff00000 0) noWindows 0 0x2000).1 = some b ↔
        FirstMaps ((mem0Bridge 0xfff00000 0).windows usWindowOffsets) 0 b 0x2000 := by
  refine (bridge_inverse (by decide) (by decide) (bridgeOf_enables _ _ _ _)
    (bridgeOf_enables _ _ _ _) (.inl rfl) (.inl rfl) 0x2000).mpr ?_
  intro hs
  obtain ⟨csr, mem0, behind, heq, hover, -⟩ := hs
  have hws : (mem0Bridge 0xfff00000 0).windows dsWindowOffsets =
      [⟨0, 0x80000000, 0x90000000, 4096, 0⟩, ⟨0, 0x80000000, 0, 1048576, 4096⟩,
        ⟨1, 0x1000, 0x2000, 256, 0⟩] := by decide
  injection hws.symm.trans heq with _ hbehind
  injection hbehind with hmem0 _
  rw [← hmem0] at hover
  exact absurd hover (by decide)

/-- A memory 0 window of 4 KB, which is all CSR image, at the end of the local address
space: an address that no window maps is converted. -/
theorem bridge_astray :
    (mem0Bridge 0xfffff000 0xfffff000).Contiguous dsWindowOffsets ∧
      (mem0Bridge 0xfffff000 0xfffff000).Contiguous usWindowOffsets ∧
      (sysPciToCpciAdrs (mem0Bridge 0xfffff000 0xfffff000) noWindows 0 0x1000).1 =
        some 0x80002000 ∧
      ∀ b, ¬ FirstMaps ((mem0Bridge 0xfffff000 0xfffff000).windows dsWindowOffsets) 0 b 0x1000 := by
  refine ⟨by decide, by decide, by decide, fun b hb => ?_⟩
  have hnone : ((mem0Bridge 0xfffff000 0xfffff000).windows dsWindowOffsets).findSome?
      (fun w => w.back 0 0x1000) = none := by decide
  rw [(findSome?_back_iff windows_fit).mpr hb] at hnone
  cases hnone

end VxWorks.Bsp
