import AieBaremetal.Cert.ElfLoader
import Mathlib.Data.Nat.Bitwise

/-!
# Patching control packets

The two patchers of control packets should add to the address in a packet and leave the rest of
it alone. The one for AIE2PS clears the two low bits of the sum and does not mask its high part,
so bits of the sum above the address are joined to the upper half of word 3. The one for AIE4
takes the upper bits of word 1 from word 0. What they do is written here as arithmetic on the
words, with the exact conditions under which it is an addition.
-/

namespace AieBaremetal.Cert

open Common

section Words

theorem base_toNat {n : ℕ} (hn : n ≤ 32) {mask : BitVec 64} (hmask : mask.toNat = 2 ^ n - 1)
    (high low : BitVec 32) :
    ((high.setWidth 64 &&& mask) <<< 32 ||| low.setWidth 64).toNat = high.toNat % 2 ^ n * 2 ^ 32 + low.toNat := by
  have hpow : 2 ^ n ≤ 2 ^ 32 := Nat.pow_le_pow_right two_pos hn
  have hpart : high.toNat % 2 ^ n < 2 ^ 32 := lt_of_lt_of_le (Nat.mod_lt _ (Nat.two_pow_pos n)) hpow
  have hlow := low.isLt
  have hhigh := high.isLt
  have hwide (w : BitVec 32) : (w.setWidth 64).toNat = w.toNat := by
    rw [BitVec.toNat_setWidth, Nat.mod_eq_of_lt (lt_trans w.isLt (by decide))]
  have hshift : (high.toNat % 2 ^ n) <<< 32 < 2 ^ 64 := by
    rw [Nat.shiftLeft_eq]
    omega
  rw [BitVec.toNat_or, BitVec.toNat_shiftLeft, BitVec.toNat_and, hwide, hwide, hmask,
    Nat.and_two_pow_sub_one_eq_mod,
    Nat.mod_eq_of_lt hshift, ← Nat.shiftLeft_add_eq_or_of_lt hlow, Nat.shiftLeft_eq]

theorem joined_toNat {n : ℕ} {high : BitVec 32} (hhigh : ∀ k < 32, high.getLsbD k = decide (n ≤ k))
    (w x : BitVec 32) :
    ((w &&& high) ||| x).toNat % 2 ^ n = x.toNat % 2 ^ n ∧
      ((w &&& high) ||| x).toNat / 2 ^ n = w.toNat / 2 ^ n ||| x.toNat / 2 ^ n := by
  have hbit (i : ℕ) : ((w &&& high) ||| x).toNat.testBit i =
      ((w.toNat.testBit i && decide (n ≤ i)) || x.toNat.testBit i) := by
    change ((w &&& high) ||| x).getLsbD i = _
    rw [BitVec.getLsbD_or, BitVec.getLsbD_and]
    by_cases hi : i < 32
    · rw [hhigh i hi]
      rfl
    · rw [BitVec.getLsbD_of_ge w i (not_lt.mp hi), Bool.false_and]
      have hw : w.toNat.testBit i = false := BitVec.getLsbD_of_ge w i (not_lt.mp hi)
      rw [hw]
      rfl
  constructor
  · apply Nat.eq_of_testBit_eq
    intro i
    rw [Nat.testBit_mod_two_pow, Nat.testBit_mod_two_pow, hbit]
    by_cases hi : i < n
    · simp [hi, Nat.not_le.mpr hi]
    · simp [hi]
  · apply Nat.eq_of_testBit_eq
    intro i
    rw [Nat.testBit_or, Nat.testBit_div_two_pow, Nat.testBit_div_two_pow, Nat.testBit_div_two_pow, hbit]
    simp

theorem low_toNat (x : BitVec 64) : ((x &&& 0xFFFFFFFF#64).setWidth 32).toNat = x.toNat % 2 ^ 32 := by
  have hmask : (0xFFFFFFFF#64).toNat = 2 ^ 32 - 1 := rfl
  rw [BitVec.toNat_setWidth, BitVec.toNat_and, hmask, Nat.and_two_pow_sub_one_eq_mod, Nat.mod_mod]

theorem lowAligned_toNat (x : BitVec 64) :
    ((x &&& 0xFFFFFFFC#64).setWidth 32).toNat = x.toNat % 2 ^ 32 / 4 * 4 := by
  have hmask : ∀ k < 64, (0xFFFFFFFC#64).getLsbD k = decide (2 ≤ k ∧ k < 32) := by decide
  apply Nat.eq_of_testBit_eq
  intro i
  change ((x &&& 0xFFFFFFFC#64).setWidth 32).getLsbD i = (x.toNat % 2 ^ 32 / 2 ^ 2 * 2 ^ 2).testBit i
  rw [BitVec.getLsbD_setWidth, BitVec.getLsbD_and, Nat.testBit_mul_two_pow, Nat.testBit_div_two_pow,
    Nat.testBit_mod_two_pow]
  by_cases hi : i < 32
  · rw [hmask i (by omega)]
    by_cases hlow : 2 ≤ i
    · have hback : i - 2 + 2 = i := Nat.sub_add_cancel hlow
      simp [hi, hlow, hback, BitVec.getLsbD]
    · simp [hlow]
  · have hback : 2 ≤ i → i - 2 + 2 = i := Nat.sub_add_cancel
    simp only [hi, decide_false, Bool.false_and]
    by_cases hlow : 2 ≤ i
    · simp [hback hlow, hi]
    · simp [hlow]

theorem high_toNat (x : BitVec 64) : ((x >>> 32).setWidth 32).toNat = x.toNat / 2 ^ 32 := by
  have hx := x.isLt
  rw [BitVec.toNat_setWidth, BitVec.toNat_ushiftRight, Nat.shiftRight_eq_div_pow]
  exact Nat.mod_eq_of_lt (by omega)

theorem highPart_toNat (x : BitVec 64) :
    (((x >>> 32) &&& 0x1FFFFFF#64).setWidth 32).toNat = x.toNat / 2 ^ 32 % 2 ^ 25 := by
  have hmask : (0x1FFFFFF#64).toNat = 2 ^ 25 - 1 := rfl
  rw [BitVec.toNat_setWidth, BitVec.toNat_and, BitVec.toNat_ushiftRight, Nat.shiftRight_eq_div_pow, hmask,
    Nat.and_two_pow_sub_one_eq_mod]
  exact Nat.mod_eq_of_lt (by omega)

end Words

/-! ## What the patchers do -/

def packetWord (m : SectionMemory) (sec pos k : ℕ) : ℕ := (loadWord m sec (pos + 4 * k)).toNat

/-- The address in an AIE2PS packet: word 2 and 16 bits of word 3. -/
def ctrlAddr2ps (m : SectionMemory) (sec pos : ℕ) : ℕ :=
  packetWord m sec pos 3 % 2 ^ 16 * 2 ^ 32 + packetWord m sec pos 2

/-- The address in an AIE4 packet: word 2 and 25 bits of word 1. -/
def ctrlAddr4 (m : SectionMemory) (sec pos : ℕ) : ℕ :=
  packetWord m sec pos 1 % 2 ^ 25 * 2 ^ 32 + packetWord m sec pos 2

def InWords (sec pos first last : ℕ) (place : ℕ × ℕ) : Prop :=
  place.1 = sec ∧ pos + 4 * first ≤ place.2 ∧ place.2 < pos + 4 * last + 4

variable (m : SectionMemory) (sec pos : ℕ) (patch p q : BitVec 64)

/-- What `aie2ps_patch_ctrl_57` does to a packet. -/
structure Patched2ps (m m' : SectionMemory) (sec pos : ℕ) (sum : ℕ) : Prop where
  low : packetWord m' sec pos 2 = sum % 2 ^ 32 / 4 * 4
  high : packetWord m' sec pos 3 % 2 ^ 16 = sum / 2 ^ 32 % 2 ^ 16
  rest : packetWord m' sec pos 3 / 2 ^ 16 = packetWord m sec pos 3 / 2 ^ 16 ||| sum / 2 ^ 48
  outside : ∀ place, ¬ InWords sec pos 2 3 place → m' place = m place

/-- What `aie4_patch_ctrl_57` does to a packet. -/
structure Patched4 (m m' : SectionMemory) (sec pos : ℕ) (sum : ℕ) : Prop where
  low : packetWord m' sec pos 2 = sum % 2 ^ 32
  high : packetWord m' sec pos 1 % 2 ^ 25 = sum / 2 ^ 32 % 2 ^ 25
  rest : packetWord m' sec pos 1 / 2 ^ 25 = packetWord m sec pos 0 / 2 ^ 25
  outside : ∀ place, ¬ InWords sec pos 1 2 place → m' place = m place

theorem storeWord_twice_of_outside {first last a b : ℕ} (hfirst : first ≤ a) (ha : a ≤ last) (hfirst' : first ≤ b)
    (hb : b ≤ last) (x y : BitVec 32) {place : ℕ × ℕ} (h : ¬ InWords sec pos first last place) :
    storeWord (storeWord m sec (pos + 4 * a) x) sec (pos + 4 * b) y place = m place := by
  obtain ⟨sec', i⟩ := place
  rw [InWords] at h
  rw [storeWord_of_outside _ _ (fun hsec => ?_), storeWord_of_outside _ _ (fun hsec => ?_)]
  · by_contra hbetween
    exact h ⟨hsec, by dsimp only; omega, by dsimp only; omega⟩
  · by_contra hbetween
    exact h ⟨hsec, by dsimp only; omega, by dsimp only; omega⟩

/-- The sum an AIE2PS control packet is patched with. -/
def ctrlSum2ps : BitVec 64 :=
  (((loadWord m sec (pos + 12)).setWidth 64 &&& 0xFFFF#64) <<< 32 ||| (loadWord m sec (pos + 8)).setWidth 64) +
    patch

/-- The sum an AIE4 control packet is patched with. -/
def ctrlSum4 : BitVec 64 :=
  (((loadWord m sec (pos + 4)).setWidth 64 &&& 0x1FFFFFF#64) <<< 32 ||| (loadWord m sec (pos + 8)).setWidth 64) +
    patch

/-- `aie2ps_patch_ctrl_57` on the words of a packet. -/
theorem aie2psPatchCtrl57_patched :
    Patched2ps m (aie2psPatchCtrl57 m sec pos patch) sec pos ((ctrlAddr2ps m sec pos + patch.toNat) % 2 ^ 64) := by
  have hsum : (ctrlSum2ps m sec pos patch).toNat = (ctrlAddr2ps m sec pos + patch.toNat) % 2 ^ 64 := by
    rw [ctrlSum2ps, BitVec.toNat_add, @base_toNat 16 (by decide) 0xFFFF#64 rfl]
    rfl
  have hwords : aie2psPatchCtrl57 m sec pos patch =
      storeWord (storeWord m sec (pos + 4 * 2) ((ctrlSum2ps m sec pos patch &&& 0xFFFFFFFC#64).setWidth 32)) sec
        (pos + 4 * 3)
        ((loadWord m sec (pos + 4 * 3) &&& 0xFFFF0000#32) ||| (ctrlSum2ps m sec pos patch >>> 32).setWidth 32) := by
    have hword :
      loadWord (storeWord m sec (pos + 4 * 2) ((ctrlSum2ps m sec pos patch &&& 0xFFFFFFFC#64).setWidth 32)) sec
        (pos + 4 * 3) = loadWord m sec (pos + 4 * 3) := loadWord_storeWord_of_apart _ _ _ (.inr (by omega))
    rw [← hword]
    rfl
  rw [← hsum, hwords]
  have hmask : ∀ k < 32, (0xFFFF0000#32).getLsbD k = decide (16 ≤ k) := by decide
  have hjoined :=
    joined_toNat hmask (loadWord m sec (pos + 4 * 3)) ((ctrlSum2ps m sec pos patch >>> 32).setWidth 32)
  refine ⟨?_, ?_, ?_, fun place h => storeWord_twice_of_outside m sec pos (by omega) (by omega)
    (by omega) (by omega) _ _ h⟩
  · rw [packetWord, loadWord_storeWord_of_apart _ _ _ (.inl (by omega)), loadWord_storeWord, lowAligned_toNat]
  · rw [packetWord, loadWord_storeWord, hjoined.1, high_toNat]
  · rw [packetWord, loadWord_storeWord, hjoined.2, high_toNat, Nat.div_div_eq_div_mul]
    rfl

/-- `aie4_patch_ctrl_57` on the words of a packet. -/
theorem aie4PatchCtrl57_patched :
    Patched4 m (aie4PatchCtrl57 m sec pos patch) sec pos ((ctrlAddr4 m sec pos + patch.toNat) % 2 ^ 64) := by
  have hsum : (ctrlSum4 m sec pos patch).toNat = (ctrlAddr4 m sec pos + patch.toNat) % 2 ^ 64 := by
    rw [ctrlSum4, BitVec.toNat_add, @base_toNat 25 (by decide) 0x1FFFFFF#64 rfl]
    rfl
  have hwords : aie4PatchCtrl57 m sec pos patch =
      storeWord (storeWord m sec (pos + 4 * 2) ((ctrlSum4 m sec pos patch &&& 0xFFFFFFFF#64).setWidth 32)) sec
        (pos + 4 * 1)
        ((loadWord m sec (pos + 4 * 0) &&& 0xFE000000#32) |||
          ((ctrlSum4 m sec pos patch >>> 32) &&& 0x1FFFFFF#64).setWidth 32) := by
    have hword :
      loadWord (storeWord m sec (pos + 4 * 2) ((ctrlSum4 m sec pos patch &&& 0xFFFFFFFF#64).setWidth 32)) sec
        (pos + 4 * 0) = loadWord m sec (pos + 4 * 0) := loadWord_storeWord_of_apart _ _ _ (.inl (by omega))
    rw [← hword]
    rfl
  rw [← hsum, hwords]
  have hmask : ∀ k < 32, (0xFE000000#32).getLsbD k = decide (25 ≤ k) := by decide
  have hjoined := joined_toNat hmask (loadWord m sec (pos + 4 * 0))
    (((ctrlSum4 m sec pos patch >>> 32) &&& 0x1FFFFFF#64).setWidth 32)
  refine ⟨?_, ?_, ?_, fun place h => storeWord_twice_of_outside m sec pos (by omega) (by omega)
    (by omega) (by omega) _ _ h⟩
  · rw [packetWord, loadWord_storeWord_of_apart _ _ _ (.inr (by omega)), loadWord_storeWord, low_toNat]
  · rw [packetWord, loadWord_storeWord, hjoined.1, highPart_toNat, Nat.mod_mod]
  · rw [packetWord, loadWord_storeWord, hjoined.2, highPart_toNat, Nat.div_eq_of_lt (Nat.mod_lt _ (by decide)),
      Nat.or_zero]
    rfl

/-! ## When this is an addition -/

/-- `aie2ps_patch_ctrl_57` adds modulo `2 ^ 48` and changes nothing else. -/
def Adds2ps : Prop :=
  ctrlAddr2ps (aie2psPatchCtrl57 m sec pos patch) sec pos = (ctrlAddr2ps m sec pos + patch.toNat) % 2 ^ 48 ∧
    packetWord (aie2psPatchCtrl57 m sec pos patch) sec pos 3 / 2 ^ 16 = packetWord m sec pos 3 / 2 ^ 16 ∧
    ∀ place, ¬ InWords sec pos 2 3 place → aie2psPatchCtrl57 m sec pos patch place = m place

/-- `aie4_patch_ctrl_57` adds modulo `2 ^ 57` and changes nothing else. -/
def Adds4 : Prop :=
  ctrlAddr4 (aie4PatchCtrl57 m sec pos patch) sec pos = (ctrlAddr4 m sec pos + patch.toNat) % 2 ^ 57 ∧
    packetWord (aie4PatchCtrl57 m sec pos patch) sec pos 1 / 2 ^ 25 = packetWord m sec pos 1 / 2 ^ 25 ∧
    ∀ place, ¬ InWords sec pos 1 2 place → aie4PatchCtrl57 m sec pos patch place = m place

/-- Bits of the sum above the address. -/
def carry2ps (addr : ℕ) (patch : BitVec 64) : ℕ := (addr + patch.toNat) % 2 ^ 64 / 2 ^ 48

theorem adds2ps_iff : Adds2ps m sec pos patch ↔ (ctrlAddr2ps m sec pos + patch.toNat) % 4 = 0 ∧
      packetWord m sec pos 3 / 2 ^ 16 ||| carry2ps (ctrlAddr2ps m sec pos) patch =
        packetWord m sec pos 3 / 2 ^ 16 := by
  obtain ⟨hlow, hhigh, hrest, houtside⟩ := aie2psPatchCtrl57_patched m sec pos patch
  have haddr : ctrlAddr2ps (aie2psPatchCtrl57 m sec pos patch) sec pos =
      (ctrlAddr2ps m sec pos + patch.toNat) % 2 ^ 48 ↔ (ctrlAddr2ps m sec pos + patch.toNat) % 4 = 0 := by
    rw [ctrlAddr2ps, hlow, hhigh]
    omega
  rw [Adds2ps, haddr, hrest]
  exact and_congr_right fun _ => ⟨And.left, fun h => ⟨h, houtside⟩⟩

theorem adds4_iff : Adds4 m sec pos patch ↔ packetWord m sec pos 0 / 2 ^ 25 = packetWord m sec pos 1 / 2 ^ 25 := by
  obtain ⟨hlow, hhigh, hrest, houtside⟩ := aie4PatchCtrl57_patched m sec pos patch
  have haddr : ctrlAddr4 (aie4PatchCtrl57 m sec pos patch) sec pos =
    (ctrlAddr4 m sec pos + patch.toNat) % 2 ^ 57 := by
    rw [ctrlAddr4, hlow, hhigh]
    omega
  rw [Adds4, hrest]
  exact ⟨fun h => h.2.1, fun h => ⟨haddr, h, houtside⟩⟩

theorem eq_iff_words {m₁ m₂ : SectionMemory} {first : ℕ}
    (h₁ : ∀ place, ¬ InWords sec pos first (first + 1) place → m₁ place = m place)
    (h₂ : ∀ place, ¬ InWords sec pos first (first + 1) place → m₂ place = m place) :
    m₁ = m₂ ↔ packetWord m₁ sec pos first = packetWord m₂ sec pos first ∧
      packetWord m₁ sec pos (first + 1) = packetWord m₂ sec pos (first + 1) := by
  constructor
  · rintro rfl
    exact ⟨rfl, rfl⟩
  · rintro ⟨hfirst, hsecond⟩
    funext place
    by_cases hin : InWords sec pos first (first + 1) place
    · obtain ⟨sec', i⟩ := place
      obtain ⟨rfl, hlow, hhigh⟩ := hin
      dsimp only at hlow hhigh
      by_cases hword : i < pos + 4 * first + 4
      · exact eq_of_loadWord_eq (BitVec.eq_of_toNat_eq hfirst) hlow hword
      · exact eq_of_loadWord_eq (BitVec.eq_of_toNat_eq hsecond) (by omega) (by omega)
    · rw [h₁ place hin, h₂ place hin]

/-- No carry is lost between two patches, and the bits above the address come out the same. -/
def Composes2ps (addr rest : ℕ) (p q : BitVec 64) : Prop :=
  (addr + p.toNat) % 4 + q.toNat % 4 < 4 ∧
    (rest ||| carry2ps addr p) ||| carry2ps ((addr + p.toNat) % 2 ^ 48 / 4 * 4) q = rest ||| carry2ps addr (p + q)

instance (addr rest : ℕ) (p q : BitVec 64) : Decidable (Composes2ps addr rest p q) :=
  inferInstanceAs (Decidable (_ ∧ _))

theorem aligned_sum_iff (a p q : ℕ) :
    (((a + p) % 2 ^ 48 / 4 * 4 + q) % 2 ^ 64 % 2 ^ 32 / 4 * 4 = (a + (p + q) % 2 ^ 64) % 2 ^ 64 % 2 ^ 32 / 4 * 4 ∧
      ((a + p) % 2 ^ 48 / 4 * 4 + q) % 2 ^ 64 / 2 ^ 32 % 2 ^ 16 = (a + (p + q) % 2 ^ 64) % 2 ^ 64 / 2 ^
        32 % 2 ^ 16) ↔
      (a + p) % 4 + q % 4 < 4 := by
  have hone : (a + (p + q) % 2 ^ 64) % 2 ^ 48 = (a + p + q) % 2 ^ 48 := by omega
  have htwo : ((a + p) % 2 ^ 48 / 4 * 4 + q) % 2 ^ 48 = ((a + p) / 4 * 4 + q) % 2 ^ 48 := by omega
  have hwords (x y : ℕ) : (x % 2 ^ 64 % 2 ^ 32 / 4 * 4 = y % 2 ^ 64 % 2 ^ 32 / 4 * 4 ∧
      x % 2 ^ 64 / 2 ^ 32 % 2 ^ 16 = y % 2 ^ 64 / 2 ^ 32 % 2 ^ 16) ↔ x % 2 ^ 48 / 4 = y % 2 ^ 48 / 4 := by omega
  rw [hwords, hone, htwo]
  omega

theorem aie2psPatchCtrl57_comp_iff :
    aie2psPatchCtrl57 (aie2psPatchCtrl57 m sec pos p) sec pos q = aie2psPatchCtrl57 m sec pos (p + q) ↔
      Composes2ps (ctrlAddr2ps m sec pos) (packetWord m sec pos 3 / 2 ^ 16) p q := by
  obtain ⟨hlow₁, hhigh₁, hrest₁, hout₁⟩ := aie2psPatchCtrl57_patched m sec pos p
  obtain ⟨hlow₂, hhigh₂, hrest₂, hout₂⟩ := aie2psPatchCtrl57_patched (aie2psPatchCtrl57 m sec pos p) sec pos q
  obtain ⟨hlow, hhigh, hrest, hout⟩ := aie2psPatchCtrl57_patched m sec pos (p + q)
  have haddr : ctrlAddr2ps (aie2psPatchCtrl57 m sec pos p) sec pos =
      (ctrlAddr2ps m sec pos + p.toNat) % 2 ^ 48 / 4 * 4 := by
    rw [ctrlAddr2ps, hlow₁, hhigh₁]
    omega
  rw [eq_iff_words m sec pos (fun place h => (hout₂ place h).trans (hout₁ place h)) hout]
  rw [haddr] at hlow₂ hhigh₂ hrest₂
  rw [hrest₁] at hrest₂
  have hsplit (x y : ℕ) : x = y ↔ x % 2 ^ 16 = y % 2 ^ 16 ∧ x / 2 ^ 16 = y / 2 ^ 16 := by omega
  rw [hsplit (packetWord _ sec pos 3), ← and_assoc, hlow, hhigh, hrest, hlow₂, hhigh₂, hrest₂, Composes2ps]
  refine and_congr ?_ Iff.rfl
  rw [BitVec.toNat_add]
  exact aligned_sum_iff (ctrlAddr2ps m sec pos) p.toNat q.toNat

/-- The AIE4 patcher, twice. -/
theorem aie4PatchCtrl57_comp :
    aie4PatchCtrl57 (aie4PatchCtrl57 m sec pos p) sec pos q = aie4PatchCtrl57 m sec pos (p + q) := by
  obtain ⟨hlow₁, hhigh₁, hrest₁, hout₁⟩ := aie4PatchCtrl57_patched m sec pos p
  obtain ⟨hlow₂, hhigh₂, hrest₂, hout₂⟩ := aie4PatchCtrl57_patched (aie4PatchCtrl57 m sec pos p) sec pos q
  obtain ⟨hlow, hhigh, hrest, hout⟩ := aie4PatchCtrl57_patched m sec pos (p + q)
  have haddr : ctrlAddr4 (aie4PatchCtrl57 m sec pos p) sec pos = (ctrlAddr4 m sec pos + p.toNat) % 2 ^ 57 := by
    rw [ctrlAddr4, hlow₁, hhigh₁]
    omega
  -- word 0 is in front of the patched words
  have hfirst : packetWord (aie4PatchCtrl57 m sec pos p) sec pos 0 = packetWord m sec pos 0 := by
    have hbytes : load (aie4PatchCtrl57 m sec pos p) (fun i => (sec, pos + 4 * 0 + i)) 4 =
        load m (fun i => (sec, pos + 4 * 0 + i)) 4 := by
      refine List.map_congr_left fun i hi => hout₁ _ ?_
      rintro ⟨-, hbelow, -⟩
      have hi := List.mem_range.mp hi
      dsimp only at hbelow
      omega
    rw [packetWord, loadWord, hbytes]
    rfl
  rw [eq_iff_words m sec pos (fun place h => (hout₂ place h).trans (hout₁ place h)) hout]
  rw [haddr] at hlow₂ hhigh₂
  rw [hfirst] at hrest₂
  rw [BitVec.toNat_add] at hlow hhigh
  have hhighs : packetWord (aie4PatchCtrl57 (aie4PatchCtrl57 m sec pos p) sec pos q) sec pos 1 % 2 ^ 25 =
      packetWord (aie4PatchCtrl57 m sec pos (p + q)) sec pos 1 % 2 ^ 25 := by
    rw [hhigh, hhigh₂]
    omega
  refine ⟨?_, ?_⟩
  · rw [← Nat.div_add_mod (packetWord _ sec pos 1) (2 ^ 25), hhighs, hrest₂, ← hrest, Nat.div_add_mod]
  · change packetWord _ sec pos 2 = packetWord _ sec pos 2
    rw [hlow, hlow₂]
    omega

/-- The patchers of control packets add to their addresses and touch nothing else, in any order. -/
def CtrlPatchersAdd : Prop :=
  Adds2ps m sec pos p ∧ Adds4 m sec pos p ∧
    (aie2psPatchCtrl57 (aie2psPatchCtrl57 m sec pos p) sec pos q = aie2psPatchCtrl57 m sec pos (p + q) ∧
      aie2psPatchCtrl57 (aie2psPatchCtrl57 m sec pos q) sec pos p = aie2psPatchCtrl57 m sec pos (p + q)) ∧
    aie4PatchCtrl57 (aie4PatchCtrl57 m sec pos p) sec pos q = aie4PatchCtrl57 m sec pos (p + q) ∧
    aie4PatchCtrl57 (aie4PatchCtrl57 m sec pos q) sec pos p = aie4PatchCtrl57 m sec pos (p + q)

/-- The patchers of control packets add exactly if the AIE2PS sum is aligned and its bits above the address are
set in the packet, also between two patches, and the first two words of the AIE4 packet agree in their upper bits.
-/
theorem ctrlPatchersAdd_iff : CtrlPatchersAdd m sec pos p q ↔
    ((ctrlAddr2ps m sec pos + p.toNat) % 4 = 0 ∧
      packetWord m sec pos 3 / 2 ^ 16 ||| carry2ps (ctrlAddr2ps m sec pos) p = packetWord m sec pos 3 / 2 ^ 16) ∧
    packetWord m sec pos 0 / 2 ^ 25 = packetWord m sec pos 1 / 2 ^ 25 ∧
    Composes2ps (ctrlAddr2ps m sec pos) (packetWord m sec pos 3 / 2 ^ 16) p q ∧
    Composes2ps (ctrlAddr2ps m sec pos) (packetWord m sec pos 3 / 2 ^ 16) q p := by
  have hfour : aie4PatchCtrl57 (aie4PatchCtrl57 m sec pos q) sec pos p = aie4PatchCtrl57 m sec pos (p + q) := by
    rw [BitVec.add_comm p q]
    exact aie4PatchCtrl57_comp m sec pos q p
  have htwo : aie2psPatchCtrl57 (aie2psPatchCtrl57 m sec pos q) sec pos p = aie2psPatchCtrl57 m sec pos (p + q) ↔
      Composes2ps (ctrlAddr2ps m sec pos) (packetWord m sec pos 3 / 2 ^ 16) q p := by
    rw [BitVec.add_comm p q]
    exact aie2psPatchCtrl57_comp_iff m sec pos q p
  rw [CtrlPatchersAdd, adds2ps_iff, adds4_iff, aie2psPatchCtrl57_comp_iff, htwo]
  refine and_congr_right fun _ => and_congr_right fun _ => ⟨And.left, fun h => ⟨h, ?_, hfour⟩⟩
  exact aie4PatchCtrl57_comp m sec pos p q

def upperBitsPacket : SectionMemory := fun place => if place = (0, 3) then 0xFE else 0

/-- A patch by 1 is lost, one by `2 ^ 48` sets a bit of word 3, and one by 0 copies bits of word 0 to word 1. -/
theorem upperBitsPacket_not_added :
    ctrlAddr2ps (aie2psPatchCtrl57 upperBitsPacket 0 0 1#64) 0 0 = 0 ∧
      packetWord (aie2psPatchCtrl57 upperBitsPacket 0 0 0x1000000000000#64) 0 0 3 = 0x10000 ∧
      packetWord upperBitsPacket 0 0 1 = 0 ∧
      packetWord (aie4PatchCtrl57 upperBitsPacket 0 0 0#64) 0 0 1 = 0xFE000000 ∧
      ¬ CtrlPatchersAdd upperBitsPacket 0 0 1#64 0#64 := by
  refine ⟨by decide +kernel, by decide +kernel, by decide +kernel, by decide +kernel, fun h => ?_⟩
  exact absurd h.1.1 (by decide +kernel)

end AieBaremetal.Cert
