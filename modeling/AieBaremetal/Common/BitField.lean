import Mathlib.Data.Nat.Bitwise
import Mathlib.Data.Int.Cast.Lemmas
import Mathlib.Tactic.Positivity
import Mathlib.Logic.Function.Basic
import Mathlib.Algebra.BigOperators.Group.List.Basic
import Mathlib.Data.Set.Basic

/-!
# Numbers scattered over the bits of a memory

A bit field names the places of the bits of a number, least significant first; the places need
not be next to each other. Adding to a field adds modulo its width and changes no other bit.
Additions to one field add up, additions to fields without a common bit do not see each other,
so the result of a list of additions does not depend on its order.
-/

namespace AieBaremetal.Common

/-- The places of the bits of a number, least significant first. -/
structure BitField (α : Type) where
  width : ℕ
  place : Fin width → α
  injective : Function.Injective place

namespace BitField

variable {α : Type} (f g : BitField α)

def read (m : α → Bool) : BitVec f.width := BitVec.ofNat f.width (Nat.ofBits fun i => m (f.place i))

theorem getLsbD_read (m : α → Bool) (i : Fin f.width) : (f.read m).getLsbD i = m (f.place i) := by
  rw [read, BitVec.getLsbD_ofNat, Nat.testBit_ofBits_lt _ _ i.isLt, decide_eq_true i.isLt, Bool.true_and]

variable {additions : List (BitField α × ℤ)} {m m' : α → Bool} {w : ℕ}

theorem read_congr (h : ∀ i, m' (f.place i) = m (f.place i)) : f.read m' = f.read m := by
  simp only [read, h]

/-- Put a number into a field. -/
noncomputable def write (v : BitVec f.width) (m : α → Bool) : α → Bool :=
  Function.extend f.place (fun i => v.getLsbD i) m

@[simp] theorem write_place (v : BitVec f.width) (m : α → Bool) (i : Fin f.width) :
    f.write v m (f.place i) = v.getLsbD i :=
  f.injective.extend_apply ..

variable {f g}

theorem write_of_ne (v : BitVec f.width) (m : α → Bool) {a : α} (h : ∀ i, f.place i ≠ a) : f.write v m a = m a :=
  Function.extend_apply' _ _ _ fun ⟨i, hi⟩ => h i hi

theorem eq_write {v : BitVec f.width} (hin : ∀ i : Fin f.width, m' (f.place i) = v.getLsbD i)
    (hout : ∀ a, (∀ i, f.place i ≠ a) → m' a = m a) : m' = f.write v m := by
  funext a
  by_cases h : ∃ i, f.place i = a
  · obtain ⟨i, rfl⟩ := h
    rw [hin, write_place]
  · have hne : ∀ i, f.place i ≠ a := fun i hi => h ⟨i, hi⟩
    rw [hout a hne, write_of_ne v m hne]

@[simp] theorem read_write (v : BitVec f.width) (m : α → Bool) : f.read (f.write v m) = v := by
  apply BitVec.eq_of_getLsbD_eq
  intro i hi
  rw [f.getLsbD_read _ ⟨i, hi⟩, write_place]

/-- Fields without a common bit. -/
def Apart (f g : BitField α) : Prop := ∀ i j, f.place i ≠ g.place j

theorem Apart.symm (h : Apart f g) : Apart g f := fun i j heq => h j i heq.symm

theorem read_write_of_apart (h : Apart f g) (v : BitVec f.width) (m : α → Bool) :
    g.read (f.write v m) = g.read m := by
  apply BitVec.eq_of_getLsbD_eq
  intro i hi
  rw [g.getLsbD_read _ ⟨i, hi⟩, g.getLsbD_read _ ⟨i, hi⟩, write_of_ne v m fun j => h j ⟨i, hi⟩]

@[simp] theorem write_write (v v' : BitVec f.width) (m : α → Bool) : f.write v' (f.write v m) = f.write v' m := by
  refine eq_write (fun i => f.write_place v' _ i) fun a ha => ?_
  rw [write_of_ne v' _ ha, write_of_ne v m ha]

theorem write_comm (h : Apart f g) (v : BitVec f.width) (v' : BitVec g.width) (m : α → Bool) :
    f.write v (g.write v' m) = g.write v' (f.write v m) := by
  refine (eq_write (fun i => ?_) fun a ha => ?_).symm
  · rw [write_of_ne v' _ fun j => h.symm j i, write_place]
  · by_cases hg : ∃ i, g.place i = a
    · obtain ⟨i, rfl⟩ := hg
      rw [write_place, write_place]
    · have hne : ∀ i, g.place i ≠ a := fun i hi => hg ⟨i, hi⟩
      rw [write_of_ne v' _ hne, write_of_ne v' _ hne, write_of_ne v m ha]

variable (f) in
/-- Add to the number in a field. -/
noncomputable def add (amount : ℤ) (m : α → Bool) : α → Bool := f.write (f.read m + BitVec.ofInt f.width amount) m

theorem setWidth_ofInt {n : ℕ} (h : w ≤ n) (a : ℤ) : (BitVec.ofInt n a).setWidth w = BitVec.ofInt w a := by
  apply BitVec.eq_of_toNat_eq
  have hmod (k : ℕ) : ((a % (2 ^ k : ℕ)).toNat : ℤ) = a % (2 ^ k : ℕ) :=
    Int.toNat_of_nonneg (Int.emod_nonneg a (by positivity))
  rw [BitVec.toNat_setWidth, BitVec.toNat_ofInt, BitVec.toNat_ofInt]
  apply Int.ofNat_inj.mp
  rw [Int.natCast_emod, hmod, hmod, Int.emod_emod_of_dvd]
  exact Int.natCast_dvd_natCast.mpr (Nat.pow_dvd_pow 2 h)

theorem toNat_add_ofInt (x : BitVec w) (a : ℤ) : ((x + BitVec.ofInt w a).toNat : ℤ) = (x.toNat + a) % 2 ^ w := by
  have hmod : ((a % (2 ^ w : ℕ)).toNat : ℤ) = a % (2 ^ w : ℕ) :=
    Int.toNat_of_nonneg (Int.emod_nonneg a (by positivity))
  rw [BitVec.toNat_add, BitVec.toNat_ofInt, Int.natCast_emod, Int.natCast_add, hmod, Int.add_emod_emod]
  norm_cast

theorem ofInt_eq_zero_iff {a : ℤ} : BitVec.ofInt w a = 0#w ↔ a % 2 ^ w = 0 := by
  have hmod := toNat_add_ofInt 0#w a
  rw [BitVec.zero_add, BitVec.toNat_zero, Int.natCast_zero, Int.zero_add] at hmod
  rw [← BitVec.toNat_inj, BitVec.toNat_zero, ← Int.natCast_eq_zero, hmod]

theorem eq_add {n : ℕ} (hn : f.width ≤ n) (base : BitVec n) {amount : ℤ}
    (hbase : ∀ i : Fin f.width, base.getLsbD i = m (f.place i))
    (hin : ∀ i : Fin f.width, m' (f.place i) = (base + BitVec.ofInt n amount).getLsbD i)
    (hout : ∀ a, (∀ i, f.place i ≠ a) → m' a = m a) : m' = f.add amount m := by
  have hread : base.setWidth f.width = f.read m := by
    apply BitVec.eq_of_getLsbD_eq
    intro i hi
    rw [f.getLsbD_read m ⟨i, hi⟩, BitVec.getLsbD_setWidth, decide_eq_true hi, Bool.true_and, hbase ⟨i, hi⟩]
  refine eq_write (fun i => ?_) hout
  rw [hin, ← hread, ← setWidth_ofInt hn, ← BitVec.setWidth_add _ _ hn, BitVec.getLsbD_setWidth,
    decide_eq_true i.isLt, Bool.true_and]

theorem add_add (a b : ℤ) (m : α → Bool) : f.add b (f.add a m) = f.add (a + b) m := by
  rw [add, add, add, read_write, write_write, BitVec.ofInt_add, BitVec.add_assoc]

theorem add_eq_self_iff {amount : ℤ} : f.add amount m = m ↔ BitVec.ofInt f.width amount = 0#f.width := by
  constructor
  · intro h
    have hread := congrArg f.read h
    rw [add, read_write] at hread
    exact BitVec.add_right_inj (f.read m) |>.mp (hread.trans (BitVec.add_zero _).symm)
  · intro h
    rw [add, h, BitVec.add_zero]
    exact (eq_write (fun i => (f.getLsbD_read m i).symm) fun _ _ => rfl).symm

theorem add_comm_of_apart (h : Apart f g) (a b : ℤ) (m : α → Bool) : g.add b (f.add a m) = f.add a (g.add b m) := by
  rw [add, add, add, add, read_write_of_apart h, read_write_of_apart h.symm, write_comm h.symm]

def Compatible (f g : BitField α) : Prop := f = g ∨ Apart f g

theorem add_right_comm (h : Compatible f g) (a b : ℤ) (m : α → Bool) :
    g.add b (f.add a m) = f.add a (g.add b m) := by
  rcases h with rfl | h
  · rw [add_add, add_add, Int.add_comm]
  · exact add_comm_of_apart h a b m

/-- A list of additions, in order. -/
noncomputable def addAll (additions : List (BitField α × ℤ)) (m : α → Bool) : α → Bool :=
  additions.foldl (fun m addition => addition.1.add addition.2 m) m

theorem addAll_congr {S : Set α} (h : ∀ addition ∈ additions, ∀ i, addition.1.place i ∈ S)
    (hagree : ∀ a ∈ S, m a = m' a) : ∀ a ∈ S, addAll additions m a = addAll additions m' a := by
  induction additions generalizing m m' with
  | nil => exact hagree
  | cons addition rest ih =>
    obtain ⟨f, amount⟩ := addition
    have hplace := h (f, amount) List.mem_cons_self
    refine ih (fun addition hmem => h addition (List.mem_cons_of_mem _ hmem)) fun a ha => ?_
    have hread : f.read m = f.read m' := by
      simp only [read, hagree _ (hplace _)]
    change f.add amount m a = f.add amount m' a
    by_cases hin : ∃ i, f.place i = a
    · obtain ⟨i, rfl⟩ := hin
      rw [add, add, write_place, write_place, hread]
    · have hne : ∀ i, f.place i ≠ a := fun i hi => hin ⟨i, hi⟩
      rw [add, add, write_of_ne _ m hne, write_of_ne _ m' hne, hagree a ha]

theorem addAll_of_ne {a : α} (h : ∀ addition ∈ additions, ∀ i, addition.1.place i ≠ a)
    (m : α → Bool) : addAll additions m a = m a := by
  induction additions generalizing m with
  | nil => rfl
  | cons addition rest ih =>
    have hrest := ih (fun addition hmem => h addition (List.mem_cons_of_mem _ hmem)) (addition.1.add addition.2 m)
    exact hrest.trans (write_of_ne _ m (h addition List.mem_cons_self))

open Classical in
theorem read_addAll (h : ∀ addition ∈ additions, Compatible addition.1 f)
    (m : α → Bool) : f.read (addAll additions m) =
      f.read m + BitVec.ofInt f.width ((additions.filter fun addition => addition.1 = f).map Prod.snd).sum := by
  induction additions generalizing m with
  | nil => simp [addAll]
  | cons addition rest ih =>
    obtain ⟨g, amount⟩ := addition
    have hrest := ih (fun addition hmem => h addition (List.mem_cons_of_mem _ hmem)) (g.add amount m)
    refine hrest.trans ?_
    by_cases hg : g = f
    · subst hg
      rw [add, read_write, List.filter_cons_of_pos (by simp), List.map_cons, List.sum_cons, BitVec.ofInt_add,
        BitVec.add_assoc]
    · have hapart : Apart g f := (h (g, amount) List.mem_cons_self).resolve_left hg
      rw [add, read_write_of_apart hapart, List.filter_cons_of_neg (by simpa using hg)]

theorem addAll_perm {additions' : List (BitField α × ℤ)} (hperm : additions.Perm additions')
    (h : ∀ addition ∈ additions, ∀ addition' ∈ additions, Compatible addition.1 addition'.1) (m : α → Bool) :
    addAll additions m = addAll additions' m :=
  hperm.foldl_eq' (fun addition hmem addition' hmem' m =>
    add_right_comm (h addition hmem addition' hmem') addition.2 addition'.2 m) m

end BitField

end AieBaremetal.Common
