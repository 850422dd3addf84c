import AieBaremetal.Common.LittleEndian
import AieBaremetal.Common.ByteMemory

/-!
# Words and bits of a memory of several regions

Each region is an array of bytes. Words are loaded and stored at any byte position, least
significant byte first, so bit `k` of the word at a position is the bit `k` places behind the
first bit of that position.
-/

namespace AieBaremetal.Common

variable {K : Type}

def bitOf (m : K × ℕ → UInt8) (place : K × ℕ) : Bool := (m (place.1, place.2 / 8)).toNat.testBit (place.2 % 8)

variable {i pos : ℕ} {k k' : K} {m m' : K × ℕ → UInt8}

theorem eq_of_bitOf_eq (h : ∀ j < 8, bitOf m (k, 8 * i + j) = bitOf m' (k, 8 * i + j)) : m (k, i) = m' (k, i) := by
  apply UInt8.toNat_inj.mp
  apply Nat.eq_of_testBit_eq
  intro j
  rcases Nat.lt_or_ge j 8 with hj | hj
  · have hbit := h j hj
    simpa only [bitOf, Nat.mul_add_div (by decide : 0 < 8), Nat.mul_add_mod, Nat.div_eq_of_lt hj,
      Nat.mod_eq_of_lt hj, Nat.add_zero] using hbit
  · have hbound (b : UInt8) : b.toNat < 2 ^ j := b.toNat_lt.trans_le (Nat.pow_le_pow_right (by decide) hj)
    rw [Nat.testBit_lt_two_pow (hbound _), Nat.testBit_lt_two_pow (hbound _)]

theorem bitOf_injective : Function.Injective (@bitOf K) := by
  intro m m' h
  funext ⟨k, i⟩
  exact eq_of_bitOf_eq fun j _ => congrFun h _

def loadWord (m : K × ℕ → UInt8) (k : K) (pos : ℕ) : BitVec 32 :=
  BitVec.ofNat 32 (leNat (load m (fun i => (k, pos + i)) 4))

theorem loadWord_agree (h : ∀ i, m' (k', i) = m (k, i)) (pos : ℕ) :
    loadWord m' k' pos = loadWord m k pos := by
  simp only [loadWord, load, h]

theorem getLsbD_loadWord (m : K × ℕ → UInt8) (k : K) (pos : ℕ) (hi : i < 32) :
    (loadWord m k pos).getLsbD i = bitOf m (k, 8 * pos + i) := by
  have hbyte : i / 8 < 4 := by omega
  rw [loadWord, BitVec.getLsbD_ofNat, decide_eq_true hi, Bool.true_and, leNat_testBit, bitOf]
  have hget : (load m (fun i => (k, pos + i)) 4).getD (i / 8) 0 = m (k, pos + i / 8) := by
    simp [load, List.getD_eq_getElem?_getD, hbyte]
  have hdiv : (8 * pos + i) / 8 = pos + i / 8 := by omega
  have hmod : (8 * pos + i) % 8 = i % 8 := by omega
  rw [hget, hdiv, hmod]

variable [DecidableEq K]

def storeWord (m : K × ℕ → UInt8) (k : K) (pos : ℕ) (word : BitVec 32) : K × ℕ → UInt8 :=
  store m (fun i => (k, pos + i)) (wordBytes word)

theorem storeWord_agree (h : ∀ i, m' (k', i) = m (k, i)) (pos : ℕ) (word : BitVec 32)
    (i : ℕ) : storeWord m' k' pos word (k', i) = storeWord m k pos word (k, i) := by
  have hregion (m : K × ℕ → UInt8) (k : K) :
      storeWord m k pos word (k, i) = store (fun i => m (k, i)) (fun i => pos + i) (wordBytes word) i :=
    store_comp m (fun _ _ heq => (Prod.mk.inj heq).2) (fun i => pos + i) (wordBytes word) i
  rw [hregion, hregion, funext h]

theorem storeWord_of_outside (m : K × ℕ → UInt8) (word : BitVec 32)
    (h : k' = k → i < pos ∨ pos + 4 ≤ i) : storeWord m k pos word (k', i) = m (k', i) := by
  refine store_of_ne m fun j hj heq => ?_
  obtain ⟨hk, hi⟩ := Prod.mk.inj heq
  rw [wordBytes, leBytes_length] at hj
  have := h hk.symm
  omega

theorem bitOf_storeWord (m : K × ℕ → UInt8) (k : K) (pos : ℕ) (word : BitVec 32) (place : K × ℕ) :
    bitOf (storeWord m k pos word) place =
      if place.1 = k ∧ 8 * pos ≤ place.2 ∧ place.2 < 8 * pos + 32 then word.getLsbD (place.2 - 8 * pos)
      else bitOf m place := by
  obtain ⟨k', b⟩ := place
  have hlength : (wordBytes word).length = 4 := leBytes_length ..
  split
  · rename_i hin
    obtain ⟨rfl, hlow, hhigh⟩ := hin
    have hbyte : b / 8 - pos < (wordBytes word).length := by omega
    have hcell : (k', b / 8) = (k', pos + (b / 8 - pos)) := by
      congr 1
      simp only at hlow
      omega
    have hstored : storeWord m k' pos word (k', b / 8) = (wordBytes word)[b / 8 - pos] := by
      rw [hcell]
      exact store_cell m (fun i _ j _ heq => Nat.add_left_cancel (Prod.mk.inj heq).2) hbyte
    have hbit : 8 * (b / 8 - pos) + b % 8 = b - 8 * pos := by
      simp only at hlow
      omega
    have hword : (wordBytes word)[b / 8 - pos].toNat.testBit (b % 8) =
      word.toNat.testBit (8 * (b / 8 - pos) + b % 8) :=
      leBytes_testBit hbyte (Nat.mod_lt _ (by decide))
    simp only [bitOf, hstored, hword, hbit]
    rfl
  · rename_i hout
    simp only [bitOf]
    rw [storeWord_of_outside m word]
    intro hk
    simp only at hout
    by_contra hbetween
    exact hout ⟨hk, by omega, by omega⟩

@[simp] theorem loadWord_storeWord (m : K × ℕ → UInt8) (k : K) (pos : ℕ) (word : BitVec 32) :
    loadWord (storeWord m k pos word) k pos = word := by
  apply BitVec.eq_of_getLsbD_eq
  intro i hi
  rw [getLsbD_loadWord _ _ _ hi, bitOf_storeWord, if_pos ⟨rfl, Nat.le_add_right _ _, Nat.add_lt_add_left hi _⟩,
    Nat.add_sub_cancel_left]

theorem loadWord_storeWord_of_apart (m : K × ℕ → UInt8) (k : K) {pos' : ℕ} (word : BitVec 32)
    (h : pos' + 4 ≤ pos ∨ pos + 4 ≤ pos') : loadWord (storeWord m k pos word) k pos' = loadWord m k pos' := by
  apply BitVec.eq_of_getLsbD_eq
  intro i hi
  rw [getLsbD_loadWord _ _ _ hi, getLsbD_loadWord _ _ _ hi, bitOf_storeWord, if_neg]
  rintro ⟨-, hlow, hhigh⟩
  dsimp only at hlow hhigh
  omega

omit [DecidableEq K] in
theorem eq_of_loadWord_eq (h : loadWord m k pos = loadWord m' k pos)
    (hlow : pos ≤ i) (hhigh : i < pos + 4) : m (k, i) = m' (k, i) := by
  apply eq_of_bitOf_eq
  intro j hj
  have hbit : 8 * i + j = 8 * pos + (8 * (i - pos) + j) := by omega
  rw [hbit, ← getLsbD_loadWord m k pos (by omega), ← getLsbD_loadWord m' k pos (by omega), h]

end AieBaremetal.Common
