import Mathlib.Data.List.Basic
import Mathlib.Data.Nat.Digits.Defs
import Mathlib.Tactic.Ring

/-!
# Little-endian byte strings

A number is written as a fixed count of bytes, least significant first, and read back from
them. Reading is total; writing keeps the value modulo the width. Words are the four-byte
groups of a byte string, and a string of words is the concatenation of their bytes.
-/

namespace AieBaremetal.Common

/-- The low bytes of a number, least significant first. -/
def leBytes : ℕ → ℕ → List UInt8
  | 0, _ => []
  | width + 1, n => UInt8.ofNat n :: leBytes width (n / 256)

/-- The number of a byte string, least significant byte first. -/
def leNat : List UInt8 → ℕ
  | [] => 0
  | b :: rest => b.toNat + 256 * leNat rest

@[simp] theorem leBytes_length (width n : ℕ) : (leBytes width n).length = width := by
  induction width generalizing n with
  | zero => rfl
  | succ width ih => simp [leBytes, ih]

theorem leNat_leBytes (width n : ℕ) : leNat (leBytes width n) = n % 256 ^ width := by
  induction width generalizing n with
  | zero => simp [leBytes, leNat, Nat.mod_one]
  | succ width ih =>
    have hsplit : n % (256 * 256 ^ width) = n % 256 + 256 * (n / 256 % 256 ^ width) := Nat.mod_mul
    rw [pow_succ', hsplit]
    simp only [leBytes, leNat, ih, UInt8.toNat_ofNat', Nat.reducePow]

theorem leNat_leBytes_of_lt (width n : ℕ) (h : n < 256 ^ width) : leNat (leBytes width n) = n := by
  rw [leNat_leBytes, Nat.mod_eq_of_lt h]

theorem leBytes_add (low high n : ℕ) : leBytes (low + high) n = leBytes low n ++ leBytes high (n / 256 ^ low) := by
  induction low generalizing n with
  | zero => simp [leBytes]
  | succ low ih =>
    rw [Nat.add_right_comm, leBytes, ih, leBytes, pow_succ', Nat.div_div_eq_div_mul, List.cons_append]

theorem leNat_lt (bytes : List UInt8) : leNat bytes < 256 ^ bytes.length := by
  induction bytes with
  | nil => simp [leNat]
  | cons b rest ih =>
    have hb : b.toNat < 256 := b.toNat_lt
    simp only [leNat, List.length_cons, pow_succ]
    omega

theorem leBytes_leNat (bytes : List UInt8) : leBytes bytes.length (leNat bytes) = bytes := by
  induction bytes with
  | nil => rfl
  | cons b rest ih =>
    have hb : b.toNat < 256 := b.toNat_lt
    have hlow : UInt8.ofNat (b.toNat + 256 * leNat rest) = b := UInt8.toNat_inj.mp (by simp)
    have hhigh : (b.toNat + 256 * leNat rest) / 256 = leNat rest := by omega
    rw [List.length_cons, leBytes, leNat, hlow, hhigh, ih]

theorem leNat_append (front back : List UInt8) :
    leNat (front ++ back) = leNat front + 256 ^ front.length * leNat back := by
  induction front with
  | nil => simp [leNat]
  | cons b rest ih =>
    rw [List.cons_append, leNat, ih, leNat, List.length_cons, pow_succ']
    ring

theorem leNat_testBit (bytes : List UInt8) (k : ℕ) :
    (leNat bytes).testBit k = (bytes.getD (k / 8) 0).toNat.testBit (k % 8) := by
  induction bytes generalizing k with
  | nil => simp [leNat]
  | cons b rest ih =>
    have hb : b.toNat < 2 ^ 8 := b.toNat_lt
    rw [leNat, Nat.add_comm, show 256 = 2 ^ 8 from rfl, Nat.testBit_two_pow_mul_add _ hb]
    split
    · rename_i hk
      rw [Nat.div_eq_of_lt hk, Nat.mod_eq_of_lt hk, List.getD_cons_zero]
    · rename_i hk
      have hk8 : 8 ≤ k := Nat.not_lt.mp hk
      rw [ih, Nat.div_eq_sub_div (by decide) hk8, List.getD_cons_succ, Nat.mod_eq_sub_mod hk8]

theorem leBytes_testBit {width n i : ℕ} (hi : i < (leBytes width n).length) {k : ℕ} (hk : k < 8) :
    (leBytes width n)[i].toNat.testBit k = n.testBit (8 * i + k) := by
  induction width generalizing n i with
  | zero => exact absurd hi (Nat.not_lt_zero i)
  | succ width ih =>
    cases i with
    | zero =>
      simp only [leBytes, List.getElem_cons_zero, UInt8.toNat_ofNat', Nat.mul_zero, Nat.zero_add]
      rw [Nat.testBit_mod_two_pow, decide_eq_true hk, Bool.true_and]
    | succ i =>
      simp only [leBytes, List.getElem_cons_succ]
      rw [ih (Nat.lt_of_succ_lt_succ hi), show 256 = 2 ^ 8 from rfl, ← Nat.shiftRight_eq_div_pow,
        Nat.testBit_shiftRight]
      congr 1
      omega

def wordBytes (word : BitVec 32) : List UInt8 := leBytes 4 word.toNat

def wordOfBytes (bytes : List UInt8) : BitVec 32 := BitVec.ofNat 32 (leNat (bytes.take 4))

/-- The whole words of a byte string. -/
def byteWords : List UInt8 → List (BitVec 32)
  | a :: b :: c :: d :: rest => wordOfBytes [a, b, c, d] :: byteWords rest
  | _ => []

theorem wordOfBytes_wordBytes (word : BitVec 32) (rest : List UInt8) :
    wordOfBytes (wordBytes word ++ rest) = word := by
  have htake : (wordBytes word ++ rest).take 4 = wordBytes word :=
    List.take_left' (leBytes_length 4 word.toNat)
  rw [wordOfBytes, htake, wordBytes, leNat_leBytes_of_lt 4 _ (by simpa using word.isLt)]
  exact BitVec.ofNat_toNat 32 word ▸ BitVec.setWidth_eq word

theorem byteWords_length (bytes : List UInt8) : (byteWords bytes).length = bytes.length / 4 := by
  fun_induction byteWords bytes with
  | case1 a b c d rest ih => simp only [List.length_cons, ih]; omega
  | case2 bytes hshort =>
    match bytes with
    | [] | [_] | [_, _] | [_, _, _] => simp
    | a :: b :: c :: d :: rest => exact absurd rfl (hshort a b c d rest)

theorem byteWords_flatMap (words : List (BitVec 32)) (rest : List UInt8) :
    byteWords (words.flatMap wordBytes ++ rest) = words ++ byteWords rest := by
  induction words with
  | nil => rfl
  | cons word words ih =>
    rw [List.flatMap_cons, List.append_assoc, List.cons_append, ← ih]
    have hword := wordOfBytes_wordBytes word []
    simp only [wordBytes, leBytes, List.append_nil] at hword
    simp only [wordBytes, leBytes, List.cons_append, List.nil_append, byteWords, hword]

end AieBaremetal.Common
