import AieBaremetal.Cdo.Parser
import Mathlib.Data.Nat.Bitwise

/-!
# Moving CDO addresses to the base of a partition

The graph constructor gives the driver the base of the array plus the offset of the partition's
first column, and the CDO loader moves each address there: it clears the bits of the original base
and sets those of the new one, a shift only where these are clear before. The bits of the first
column are address bits too, so addresses that differ there are moved to the same register, or to
another column.

A shift by the width of the type or more has no defined result. The builds for the real-time
processor and for Zephyr are left out.
-/

namespace AieBaremetal.Cdo

/-- The fields that place the partition. -/
structure DriverConfig where
  baseAddress : BitVec 64
  columnShift : BitVec 8
  /-- First of `partition_overlay_start_cols`. -/
  overlayStartCol : BitVec 16
  deriving DecidableEq, Repr

def DriverConfig.columnOffset (cfg : DriverConfig) : BitVec 64 :=
  cfg.overlayStartCol.setWidth 64 <<< cfg.columnShift.toNat

/-- The base address the constructor gives the driver. -/
def partitionBase (cfg : DriverConfig) : Option (BitVec 64) :=
  if cfg.columnShift.toNat < 64 then some (cfg.baseAddress + cfg.columnOffset) else none

def apertureSize : ℕ := 2 ^ 41

def DriverConfig.InAperture (cfg : DriverConfig) (addr : BitVec 64) : Prop :=
  cfg.baseAddress.toNat ≤ addr.toNat ∧ addr.toNat < cfg.baseAddress.toNat + apertureSize

instance (cfg : DriverConfig) (addr : BitVec 64) : Decidable (cfg.InAperture addr) :=
  inferInstanceAs (Decidable (_ ∧ _))

/-- Two addresses are moved alike: different registers stay different. -/
def MovedAlike (cfg : DriverConfig) (a b : BitVec 64) : Prop :=
  ∃ base, partitionBase cfg = some base ∧
    ((cdoRegOff a ⟨base⟩ cfg.baseAddress).toNat : ℤ) - (cdoRegOff b ⟨base⟩ cfg.baseAddress).toNat =
      a.toNat - b.toNat ∧
    (a ≠ b → cdoRegOff a ⟨base⟩ cfg.baseAddress ≠ cdoRegOff b ⟨base⟩ cfg.baseAddress)

def arrayBase : BitVec 64 := 0x20000000000#64

theorem or_add_and (x y : ℕ) : (x ||| y) + (x &&& y) = x + y := by
  induction x using Nat.strong_induction_on generalizing y with
  | _ x ih =>
    by_cases hx : x = 0
    · simp [hx]
    · have hhalf := ih (x / 2) (Nat.div_lt_self (Nat.pos_of_ne_zero hx) one_lt_two) (y / 2)
      rw [← Nat.or_div_two, ← Nat.and_div_two] at hhalf
      have hor := @Nat.or_mod_two_eq_one x y
      have hand := @Nat.and_mod_two_eq_one x y
      omega

theorem testBit_base_add {x : ℕ} (hx : x < 2 ^ 41) (i : ℕ) :
    (2 ^ 41 + x).testBit i = (x.testBit i || decide (i = 41)) := by
  rcases lt_trichotomy i 41 with hlt | rfl | hgt
  · rw [Nat.testBit_two_pow_add_gt hlt, decide_eq_false hlt.ne, Bool.or_false]
  · rw [Nat.testBit_two_pow_add_eq, Nat.testBit_lt_two_pow hx]
    rfl
  · have hle : 2 ^ 42 ≤ 2 ^ i := Nat.pow_le_pow_right two_pos hgt
    rw [Nat.testBit_lt_two_pow (by omega : x < 2 ^ i), Nat.testBit_lt_two_pow (by omega : 2 ^ 41 + x < 2 ^ i),
      decide_eq_false hgt.ne']
    rfl

theorem cdoRegOff_toNat {addr base : BitVec 64} {x : ℕ} (hx : x < 2 ^ 41) (haddr : addr.toNat = 2 ^ 41 + x) :
    (cdoRegOff addr ⟨base⟩ arrayBase).toNat = x ||| base.toNat := by
  have hbit (i : ℕ) : addr.getLsbD i = (x.testBit i || decide (i = 41)) := by
    rw [BitVec.getLsbD, haddr, testBit_base_add hx]
  have hbase (i : ℕ) : arrayBase.getLsbD i = decide (i = 41) := by
    change (2 ^ 41).testBit i = _
    rw [Nat.testBit_two_pow]
    exact decide_eq_decide.mpr eq_comm
  have hset : addr &&& arrayBase ≠ 0 := by
    intro hzero
    have hclear : (addr &&& arrayBase).getLsbD 41 = false := by rw [hzero]; rfl
    rw [BitVec.getLsbD_and, hbit, hbase] at hclear
    simp at hclear
  have hcleared : (addr &&& ~~~arrayBase).toNat = x := by
    apply Nat.eq_of_testBit_eq
    intro i
    change (addr &&& ~~~arrayBase).getLsbD i = x.testBit i
    have hhigh : 41 ≤ i → x.testBit i = false := fun hi =>
      Nat.testBit_lt_two_pow (lt_of_lt_of_le hx (Nat.pow_le_pow_right two_pos hi))
    rw [BitVec.getLsbD_and, BitVec.getLsbD_not, hbit, hbase]
    by_cases hi : i = 41
    · rw [hhigh hi.ge, decide_eq_true hi]
      simp
    · by_cases hwidth : i < 64
      · simp [hi, hwidth]
      · simp [hwidth, hhigh (by omega)]
  rw [cdoRegOff, if_pos hset, BitVec.toNat_or, hcleared]

/-- What two addresses have in common with the new base is what they have in common with the column offset. -/
theorem and_base_iff {x y : ℕ} (hx : x < 2 ^ 41) (hy : y < 2 ^ 41) (c : BitVec 64) :
    x &&& (arrayBase + c).toNat = y &&& (arrayBase + c).toNat ↔ (2 ^ 41 + x) &&& c.toNat =
      (2 ^ 41 + y) &&& c.toNat := by
  have hlow {i : ℕ} (hi : i < 41) : (arrayBase + c).toNat.testBit i = c.toNat.testBit i := by
    rw [BitVec.toNat_add, Nat.testBit_mod_two_pow, decide_eq_true (by omega), Bool.true_and]
    exact Nat.testBit_two_pow_add_gt hi c.toNat
  have hzero {z : ℕ} (hz : z < 2 ^ 41) {i : ℕ} (hi : 41 ≤ i) : z.testBit i = false :=
    Nat.testBit_lt_two_pow (lt_of_lt_of_le hz (Nat.pow_le_pow_right two_pos hi))
  -- both sides compare the low bits of the column offset
  have hbits : (x &&& (arrayBase + c).toNat = y &&& (arrayBase + c).toNat) ↔
      ∀ i < 41, (x.testBit i && c.toNat.testBit i) = (y.testBit i && c.toNat.testBit i) := by
    constructor
    · intro h i hi
      have hi' := congrArg (fun n => n.testBit i) h
      simpa only [Nat.testBit_and, hlow hi] using hi'
    · intro h
      apply Nat.eq_of_testBit_eq
      intro i
      rw [Nat.testBit_and, Nat.testBit_and]
      by_cases hi : i < 41
      · rw [hlow hi, h i hi]
      · rw [hzero hx (not_lt.mp hi), hzero hy (not_lt.mp hi)]
  have hoffset : ((2 ^ 41 + x) &&& c.toNat = (2 ^ 41 + y) &&& c.toNat) ↔
      ∀ i < 41, (x.testBit i && c.toNat.testBit i) = (y.testBit i && c.toNat.testBit i) := by
    constructor
    · intro h i hi
      have hi' := congrArg (fun n => n.testBit i) h
      simpa only [Nat.testBit_and, Nat.testBit_two_pow_add_gt hi] using hi'
    · intro h
      apply Nat.eq_of_testBit_eq
      intro i
      rw [Nat.testBit_and, Nat.testBit_and, testBit_base_add hx, testBit_base_add hy]
      by_cases hi : i < 41
      · simpa only [decide_eq_false hi.ne, Bool.or_false] using h i hi
      · rw [hzero hx (not_lt.mp hi), hzero hy (not_lt.mp hi)]
  exact hbits.trans hoffset.symm

/-- Two addresses of the aperture are moved alike exactly if the column shift is defined and they agree in the
bits of the partition's column offset. -/
theorem movedAlike_iff (cfg : DriverConfig) (hbase : cfg.baseAddress = arrayBase) (a b : BitVec 64)
    (ha : cfg.InAperture a) (hb : cfg.InAperture b) :
    MovedAlike cfg a b ↔ cfg.columnShift.toNat < 64 ∧ a &&& cfg.columnOffset = b &&& cfg.columnOffset := by
  have hsize : arrayBase.toNat = 2 ^ 41 := rfl
  rw [DriverConfig.InAperture, hbase, hsize, apertureSize] at ha hb
  obtain ⟨x, hx⟩ := Nat.exists_eq_add_of_le ha.1
  obtain ⟨y, hy⟩ := Nat.exists_eq_add_of_le hb.1
  have hxlt : x < 2 ^ 41 := by omega
  have hylt : y < 2 ^ 41 := by omega
  have hcommon : a &&& cfg.columnOffset = b &&& cfg.columnOffset ↔
      x &&& (arrayBase + cfg.columnOffset).toNat = y &&& (arrayBase + cfg.columnOffset).toNat := by
    rw [and_base_iff hxlt hylt, ← hx, ← hy, ← BitVec.toNat_and, ← BitVec.toNat_and, BitVec.toNat_inj]
  have hmoved (base : BitVec 64) :
      ((cdoRegOff a ⟨base⟩ arrayBase).toNat : ℤ) - (cdoRegOff b ⟨base⟩ arrayBase).toNat = a.toNat - b.toNat ↔
        x &&& base.toNat = y &&& base.toNat := by
    have hxor := or_add_and x base.toNat
    have hyor := or_add_and y base.toNat
    rw [cdoRegOff_toNat hxlt hx, cdoRegOff_toNat hylt hy]
    omega
  rw [hcommon]
  constructor
  · rintro ⟨base, hsome, hdiff, -⟩
    rw [hbase] at hdiff
    unfold partitionBase at hsome
    split at hsome
    · rename_i hshift
      rw [← Option.some.inj hsome, hbase] at hdiff
      exact ⟨hshift, (hmoved _).mp hdiff⟩
    · cases hsome
  · rintro ⟨hshift, hcommon⟩
    have hdiff := (hmoved _).mpr hcommon
    refine ⟨arrayBase + cfg.columnOffset, by rw [partitionBase, if_pos hshift, hbase], hbase ▸ hdiff, ?_⟩
    intro hne heq
    rw [hbase] at heq
    rw [heq, sub_self] at hdiff
    exact hne (BitVec.eq_of_toNat_eq (by omega))

def secondColumn : DriverConfig where
  baseAddress := arrayBase
  columnShift := 25
  overlayStartCol := 1

/-- Two registers of one column are moved alike. -/
theorem movedAlike_iff_sample : MovedAlike secondColumn 0x20002000000#64 0x20002000004#64 :=
  (movedAlike_iff secondColumn rfl 0x20002000000#64 0x20002000004#64 (by decide) (by decide)).mpr (by decide)

/-- The same register of columns 0 and 1 is moved to one register. -/
theorem columns_moved_together :
    secondColumn.InAperture 0x20000000000#64 ∧ secondColumn.InAperture 0x20002000000#64 ∧
      partitionBase secondColumn = some 0x20002000000#64 ∧
      cdoRegOff 0x20000000000#64 ⟨0x20002000000#64⟩ secondColumn.baseAddress = 0x20002000000#64 ∧
      cdoRegOff 0x20002000000#64 ⟨0x20002000000#64⟩ secondColumn.baseAddress = 0x20002000000#64 ∧
      ¬ MovedAlike secondColumn 0x20000000000#64 0x20002000000#64 := by
  refine ⟨by decide, by decide, by decide, by decide, by decide, ?_⟩
  rintro ⟨base, hsome, hdiff, -⟩
  obtain rfl : 0x20002000000#64 = base :=
    Option.some.inj ((by decide : partitionBase secondColumn = _).symm.trans hsome)
  exact absurd hdiff (by decide)

end AieBaremetal.Cdo
