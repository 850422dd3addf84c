import Mathlib.Data.List.Basic
import Mathlib.Logic.Function.Basic

/-!
# Storing and loading strings

A memory maps cells to values. A string is stored in numbered cells and loaded from them; how
the cells are numbered is left to the user, so that address arithmetic that wraps around and
addresses of several memories are covered alike. Loading what was stored needs cells that are
different, and a store is not seen from cells it does not touch.
-/

namespace AieBaremetal.Common

variable {K V : Type}

def load (m : K → V) (cell : ℕ → K) (n : ℕ) : List V := (List.range n).map fun i => m (cell i)

@[simp] theorem load_length (m : K → V) (cell : ℕ → K) (n : ℕ) : (load m cell n).length = n := by
  simp [load]

theorem load_succ (m : K → V) (cell : ℕ → K) (n : ℕ) :
    load m cell (n + 1) = m (cell 0) :: load m (fun i => cell (i + 1)) n := by
  simp [load, List.range_succ_eq_map, Function.comp_def]

theorem load_add (m : K → V) (cell : ℕ → K) (n k : ℕ) :
    load m cell (n + k) = load m cell n ++ load m (fun i => cell (n + i)) k := by
  simp [load, List.range_add, Function.comp_def]

/-- The memory contains a string from the first cell on. -/
def Contains (m : K → V) (cell : ℕ → K) (vs : List V) : Prop := load m cell vs.length = vs

variable {m : K → V} {vs : List V}

theorem contains_iff {cell : ℕ → K} :
    Contains m cell vs ↔ ∀ i (h : i < vs.length), m (cell i) = vs[i] := by
  constructor
  · intro h i hi
    have hload := congrArg (fun values => values[i]?) h
    simpa [load, hi] using hload
  · intro h
    refine List.ext_getElem (load_length ..) fun i _ hi => ?_
    simpa [load] using h i hi

theorem contains_append {cell : ℕ → K} {front back : List V} :
    Contains m cell (front ++ back) ↔ Contains m cell front ∧
    Contains m (fun i => cell (front.length + i)) back := by
  rw [Contains, List.length_append, load_add]
  exact List.append_eq_append_iff_of_size_eq_left (load_length ..)

theorem Contains.congr {C : Type} {cell : ℕ → K} (h : Contains m cell vs) {m' : C → V}
    {cell' : ℕ → C} (hagree : ∀ i < vs.length, m' (cell' i) = m (cell i)) : Contains m' cell' vs :=
  contains_iff.mpr fun i hi => (hagree i hi).trans (contains_iff.mp h i hi)

variable [DecidableEq K]

def store (m : K → V) (cell : ℕ → K) : List V → K → V
  | [] => m
  | v :: rest => store (Function.update m (cell 0) v) (fun i => cell (i + 1)) rest

theorem store_of_ne (m : K → V) {cell : ℕ → K} {k : K} (h : ∀ i < vs.length, cell i ≠ k) :
    store m cell vs k = m k := by
  induction vs generalizing m cell with
  | nil => rfl
  | cons v rest ih =>
    have hrest : ∀ i < rest.length, cell (i + 1) ≠ k := fun i hi => h (i + 1) (Nat.succ_lt_succ hi)
    rw [store, ih _ hrest]
    exact Function.update_of_ne (h 0 (Nat.zero_lt_succ _)).symm v m

theorem store_forall {P : V → Prop} {cell : ℕ → K} {k : K} (hvs : ∀ v ∈ vs, P v)
    (hm : P (m k)) : P (store m cell vs k) := by
  induction vs generalizing m cell with
  | nil => exact hm
  | cons v rest ih =>
    refine ih (fun v hv => hvs v (List.mem_cons_of_mem _ hv)) ?_
    by_cases hk : k = cell 0
    · rw [hk, Function.update_self]
      exact hvs v List.mem_cons_self
    · rwa [Function.update_of_ne hk]

theorem load_store_of_ne (m : K → V) {cell cell' : ℕ → K} {n : ℕ}
    (h : ∀ i < vs.length, ∀ j < n, cell i ≠ cell' j) : load (store m cell vs) cell' n = load m cell' n := by
  apply List.map_congr_left
  intro j hj
  exact store_of_ne m fun i hi => h i hi j (List.mem_range.mp hj)

theorem load_store (m : K → V) {cell : ℕ → K} (h : ∀ i < vs.length, ∀ j < vs.length, cell i = cell j → i = j) :
    load (store m cell vs) cell vs.length = vs := by
  induction vs generalizing m cell with
  | nil => rfl
  | cons v rest ih =>
    have hfirst : ∀ i < rest.length, cell (i + 1) ≠ cell 0 := fun i hi heq =>
      absurd (h (i + 1) (Nat.succ_lt_succ hi) 0 (Nat.zero_lt_succ _) heq) (Nat.succ_ne_zero i)
    have hrest : ∀ i < rest.length, ∀ j < rest.length, cell (i + 1) = cell (j + 1) → i = j := fun i hi j hj heq =>
      Nat.succ.inj (h (i + 1) (Nat.succ_lt_succ hi) (j + 1) (Nat.succ_lt_succ hj) heq)
    rw [List.length_cons, load_succ, store, ih _ hrest, store_of_ne _ hfirst, Function.update_self]

theorem store_cell (m : K → V) {cell : ℕ → K}
    (h : ∀ i < vs.length, ∀ j < vs.length, cell i = cell j → i = j) {i : ℕ} (hi : i < vs.length) :
    store m cell vs (cell i) = vs[i] :=
  contains_iff.mp (load_store m h) i hi

theorem store_comp {C : Type} [DecidableEq C] (m : K → V) {place : C → K} (hplace : Function.Injective place)
    (cell : ℕ → C) (vs : List V) (c : C) :
    store m (fun i => place (cell i)) vs (place c) = store (fun c => m (place c)) cell vs c := by
  induction vs generalizing m cell with
  | nil => rfl
  | cons v rest ih =>
    rw [store, ih, store]
    congr 1
    exact Function.update_comp_eq_of_injective m hplace (cell 0) v

end AieBaremetal.Common
