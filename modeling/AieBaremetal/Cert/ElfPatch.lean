import AieBaremetal.Common.BitField
import AieBaremetal.Cert.ElfLoader

/-!
# The address fields of a control ELF

An address that a relocation patches is spread over the words of a descriptor. For the scalar
kind it is a whole word, for the two kinds of shim descriptors it has 57 bits in the low parts of
two or three words, least significant part first. Each patcher masks, shifts and stores words; seen
bit by bit it adds to the number in its field and changes nothing else.
-/

namespace AieBaremetal.Cert

open Common

section Fields

def scalarField (sec pos : ℕ) : BitField (ℕ × ℕ) where
  width := 32
  place i := (sec, 8 * pos + i)
  injective i j h := by
    have := (Prod.mk.inj h).2
    omega

/-- The AIE4 address: word 1 and 25 bits of word 0. -/
def aie4Field (sec pos : ℕ) : BitField (ℕ × ℕ) where
  width := 57
  place i := (sec, if i.val < 32 then 8 * (pos + 4) + i else 8 * pos + (i - 32))
  injective i j h := by
    have := (Prod.mk.inj h).2
    apply Fin.ext
    split at this <;> split at this <;> omega

/-- The AIE2PS address: word 1, 16 bits of word 2, 9 bits of word 8. -/
def aie2psField (sec pos : ℕ) : BitField (ℕ × ℕ) where
  width := 57
  place i := (sec, if i.val < 32 then 8 * (pos + 4) + i
    else if i.val < 48 then 8 * (pos + 8) + (i - 32) else 8 * (pos + 32) + (i - 48))
  injective i j h := by
    have := (Prod.mk.inj h).2
    apply Fin.ext
    split at this <;> split at this <;> (try split at this) <;> (try split at this) <;> omega

end Fields

section Words

variable {m : SectionMemory} {sec pos : ℕ}

theorem getLsbD_part {n s : ℕ} {low : BitVec 64} (hlow : ∀ k < 64, low.getLsbD k = decide (k < n))
    (w : BitVec 32) {i : ℕ} (hi : i < 64) :
    ((w.setWidth 64 &&& low) <<< s).getLsbD i = (decide (s ≤ i ∧ i < s + n) && w.getLsbD (i - s)) := by
  simp only [BitVec.getLsbD_shiftLeft, BitVec.getLsbD_and, BitVec.getLsbD_setWidth, hi, decide_true, Bool.true_and]
  by_cases hs : i < s
  · simp [hs, Nat.not_le.mpr hs]
  · have hin : i - s < 64 := by omega
    have hiff : i - s < n ↔ i < s + n := by omega
    simp only [hs, hlow _ hin, hin, hiff, Nat.not_lt.mp hs, decide_true, decide_false, Bool.not_false,
      Bool.true_and, true_and, Bool.and_comm]

theorem bitOf_storeWord_part {n s : ℕ} {high : BitVec 32} {low : BitVec 64}
    (hhigh : ∀ k < 32, high.getLsbD k = decide (n ≤ k)) (hlow : ∀ k < 64, low.getLsbD k = decide (k < n))
    (hn : n ≤ 32) (x : BitVec 64) (place : ℕ × ℕ) :
    bitOf (storeWord m sec pos ((loadWord m sec pos &&& high) ||| ((x >>> s) &&& low).setWidth 32)) place =
      if place.1 = sec ∧ 8 * pos ≤ place.2 ∧ place.2 < 8 * pos + n then x.getLsbD (s + (place.2 - 8 * pos))
      else bitOf m place := by
  rw [bitOf_storeWord]
  split
  · rename_i hin
    obtain ⟨hsec, hfirst, hlast⟩ := hin
    have hk : place.2 - 8 * pos < 32 := by omega
    have hback : (sec, 8 * pos + (place.2 - 8 * pos)) = place := by
      rw [← hsec, Nat.add_sub_cancel' hfirst]
    simp only [BitVec.getLsbD_or, BitVec.getLsbD_and, BitVec.getLsbD_setWidth, BitVec.getLsbD_ushiftRight, hk,
      getLsbD_loadWord m sec pos hk, hback, hhigh _ hk, hlow _ (hk.trans (by decide)), decide_true, Bool.true_and]
    by_cases hpart : place.2 - 8 * pos < n
    · have hrange : place.1 = sec ∧ 8 * pos ≤ place.2 ∧ place.2 < 8 * pos + n := ⟨hsec, hfirst, by omega⟩
      simp [hpart, hrange, Nat.not_le.mpr hpart]
    · have hrange : ¬ (place.1 = sec ∧ 8 * pos ≤ place.2 ∧ place.2 < 8 * pos + n) := fun h => by omega
      rw [if_neg hrange]
      simp [hpart, Nat.not_lt.mp hpart]
  · rename_i hout
    rw [if_neg fun h => hout ⟨h.1, h.2.1, by omega⟩]

theorem bitOf_storeWord_low (x : BitVec 64) (place : ℕ × ℕ) :
    bitOf (storeWord m sec pos ((x &&& 0xFFFFFFFF#64).setWidth 32)) place =
      if place.1 = sec ∧ 8 * pos ≤ place.2 ∧ place.2 < 8 * pos + 32 then x.getLsbD (place.2 - 8 * pos)
      else bitOf m place := by
  have hmask : ∀ k < 32, (0xFFFFFFFF#64).getLsbD k = true := by decide
  rw [bitOf_storeWord]
  split
  · rename_i hin
    have hk : place.2 - 8 * pos < 32 := by omega
    simp only [BitVec.getLsbD_setWidth, BitVec.getLsbD_and, hk, hmask _ hk, decide_true,
      Bool.true_and, Bool.and_true]
  · rfl

theorem outside_part {field : BitField (ℕ × ℕ)} {place : ℕ × ℕ} (hne : ∀ i, field.place i ≠ place)
    {start n : ℕ} (s : ℕ) (hpart : ∀ i < n, ∃ h, field.place ⟨s + i, h⟩ = (sec, start + i)) :
    ¬(place.1 = sec ∧ start ≤ place.2 ∧ place.2 < start + n) := by
  rintro ⟨rfl, hlow, hhigh⟩
  obtain ⟨h, hplace⟩ := hpart (place.2 - start) (by omega)
  exact hne _ (hplace.trans (Prod.ext rfl (Nat.add_sub_cancel' hlow)))

end Words

section Patchers

variable (m : SectionMemory) (sec pos : ℕ) (amount : ℤ)

theorem bitOf_patchScalar32 : bitOf (patchScalar32 m sec pos (BitVec.ofInt 64 amount)) =
    (scalarField sec pos).add amount (bitOf m) := by
  refine BitField.eq_add (show 32 ≤ 64 by decide) ((loadWord m sec pos).setWidth 64) (fun i => ?_) (fun i => ?_)
    fun place hne => ?_
  · have hi : i.val < 32 := i.isLt
    rw [BitVec.getLsbD_setWidth, decide_eq_true (hi.trans (by decide)), Bool.true_and,
      getLsbD_loadWord m sec pos hi]
    rfl
  · have hi : i.val < 32 := i.isLt
    rw [patchScalar32, bitOf_storeWord_low, if_pos ⟨rfl, Nat.le_add_right _ _, Nat.add_lt_add_left hi _⟩]
    exact congrArg _ (Nat.add_sub_cancel_left ..)
  · rw [patchScalar32, bitOf_storeWord_low, if_neg]
    rintro ⟨rfl, hlow, hhigh⟩
    exact hne ⟨place.2 - 8 * pos, show _ < 32 by omega⟩ (Prod.ext rfl (Nat.add_sub_cancel' hlow))

/-- `aie4_patch_57` adds to its address. -/
theorem bitOf_aie4Patch57 : bitOf (aie4Patch57 m sec pos (BitVec.ofInt 64 amount)) =
    (aie4Field sec pos).add amount (bitOf m) := by
  have hmask : ∀ k < 64, (0x1FFFFFF#64).getLsbD k = decide (k < 25) := by decide
  have hkeep : ∀ k < 32, (0xFE000000#32).getLsbD k = decide (25 ≤ k) := by decide
  have hplace (i : ℕ) (hi : i < 57) : (aie4Field sec pos).place ⟨i, hi⟩ =
    (sec, if i < 32 then 8 * (pos + 4) + i else 8 * pos + (i - 32)) := rfl
  refine BitField.eq_add (show 57 ≤ 64 by decide)
    (((loadWord m sec pos).setWidth 64 &&& 0x1FFFFFF#64) <<< 32 ||| (loadWord m sec (pos + 4)).setWidth 64)
    (fun i => ?_) (fun i => ?_) fun place hne => ?_
  · obtain ⟨i, hi⟩ := i
    change i < 57 at hi
    have hi' : i < 64 := hi.trans (by decide)
    rw [BitVec.getLsbD_or, getLsbD_part hmask _ hi', BitVec.getLsbD_setWidth, hplace i hi]
    by_cases hlow : i < 32
    · rw [getLsbD_loadWord m sec (pos + 4) hlow]
      simp [hlow, hi', Nat.not_le.mpr hlow]
    · have hhigh : i - 32 < 32 := by omega
      simp [hlow, hi, Nat.not_lt.mp hlow, getLsbD_loadWord m sec pos hhigh, BitVec.getLsbD_of_ge]
  · obtain ⟨i, hi⟩ := i
    change i < 57 at hi
    rw [aie4Patch57, bitOf_storeWord_part hkeep hmask (by decide), bitOf_storeWord_low, hplace i hi]
    by_cases hlow : i < 32
    · simp (disch := omega) only [true_and, if_pos, if_neg, Nat.add_sub_cancel_left]
    · simp (disch := omega) only [true_and, if_pos, if_neg, Nat.add_sub_cancel_left, Nat.add_sub_cancel']
  · rw [aie4Patch57, bitOf_storeWord_part hkeep hmask (by decide), bitOf_storeWord_low,
      if_neg (outside_part hne 32 fun i hi => ⟨show _ < 57 by omega, ?_⟩),
      if_neg (outside_part hne 0 fun i hi => ⟨show _ < 57 by omega, ?_⟩)]
    all_goals
      rw [hplace _ (by omega)]
      simp (disch := omega) [if_pos]

/-- `aie2ps_patch_57` adds to its address. -/
theorem bitOf_aie2psPatch57 : bitOf (aie2psPatch57 m sec pos (BitVec.ofInt 64 amount)) =
    (aie2psField sec pos).add amount (bitOf m) := by
  have hmask₈ : ∀ k < 64, (0x1FF#64).getLsbD k = decide (k < 9) := by decide
  have hkeep₈ : ∀ k < 32, (0xFFFFFE00#32).getLsbD k = decide (9 ≤ k) := by decide
  have hmask₂ : ∀ k < 64, (0xFFFF#64).getLsbD k = decide (k < 16) := by decide
  have hkeep₂ : ∀ k < 32, (0xFFFF0000#32).getLsbD k = decide (16 ≤ k) := by decide
  have hplace (i : ℕ) (hi : i < 57) : (aie2psField sec pos).place ⟨i, hi⟩ =
    (sec, if i < 32 then 8 * (pos + 4) + i
      else if i < 48 then 8 * (pos + 8) + (i - 32) else 8 * (pos + 32) + (i - 48)) := rfl
  refine BitField.eq_add (show 57 ≤ 64 by decide)
    (((loadWord m sec (pos + 32)).setWidth 64 &&& 0x1FF#64) <<< 48 |||
      ((loadWord m sec (pos + 8)).setWidth 64 &&& 0xFFFF#64) <<< 32 ||| (loadWord m sec (pos + 4)).setWidth 64)
    (fun i => ?_) (fun i => ?_) fun place hne => ?_
  · obtain ⟨i, hi⟩ := i
    change i < 57 at hi
    have hi' : i < 64 := hi.trans (by decide)
    rw [BitVec.getLsbD_or, BitVec.getLsbD_or, getLsbD_part hmask₈ _ hi', getLsbD_part hmask₂ _ hi',
      BitVec.getLsbD_setWidth, hplace i hi]
    by_cases hlow : i < 32
    · have h48 : ¬ 48 ≤ i := by omega
      rw [getLsbD_loadWord m sec (pos + 4) hlow]
      simp [hlow, hi', h48, Nat.not_le.mpr hlow]
    · by_cases hmid : i < 48
      · have hword : i - 32 < 32 := by omega
        simp [hlow, hmid, Nat.not_lt.mp hlow, Nat.not_le.mpr hmid, getLsbD_loadWord m sec (pos + 8) hword,
          BitVec.getLsbD_of_ge]
      · have hword : i - 48 < 32 := by omega
        simp [hlow, hmid, hi, Nat.not_lt.mp hlow, Nat.not_lt.mp hmid, getLsbD_loadWord m sec (pos + 32) hword,
          BitVec.getLsbD_of_ge]
  · obtain ⟨i, hi⟩ := i
    change i < 57 at hi
    rw [aie2psPatch57, bitOf_storeWord_part hkeep₈ hmask₈ (by decide), bitOf_storeWord_part hkeep₂ hmask₂
      (by decide), bitOf_storeWord_low, hplace i hi]
    by_cases hlow : i < 32
    · simp (disch := omega) only [true_and, if_pos, if_neg, Nat.add_sub_cancel_left]
    · by_cases hmid : i < 48 <;>
        simp (disch := omega) only [true_and, if_pos, if_neg, Nat.add_sub_cancel_left, Nat.add_sub_cancel']
  · rw [aie2psPatch57, bitOf_storeWord_part hkeep₈ hmask₈ (by decide), bitOf_storeWord_part hkeep₂ hmask₂
      (by decide), bitOf_storeWord_low, if_neg (outside_part hne 48 fun i hi => ⟨show _ < 57 by omega, ?_⟩),
      if_neg (outside_part hne 32 fun i hi => ⟨show _ < 57 by omega, ?_⟩),
      if_neg (outside_part hne 0 fun i hi => ⟨show _ < 57 by omega, ?_⟩)]
    all_goals
      rw [hplace _ (by omega)]
      simp (disch := omega) [if_pos, if_neg]

end Patchers

end AieBaremetal.Cert
