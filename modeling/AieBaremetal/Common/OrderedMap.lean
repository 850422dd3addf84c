import Mathlib.Data.List.Basic
import Mathlib.Data.List.Sort
import Mathlib.Data.Finset.Sort
import Mathlib.Order.Defs.LinearOrder
import Mathlib.Order.Lattice

/-!
# Ordered association lists

A map from keys of a linear order, held as a list of entries with increasing keys. Besides
storing and removing an entry, a key can be looked up by approximation: the entry in front of the
upper bound of a key is the one with the greatest key that does not exceed it. A function on a
finite set of keys is such a map as well, and two maps with the same entries are the same.
-/

namespace AieBaremetal.Common

variable {K V : Type} [LinearOrder K]

/-- The keys increase strictly from entry to entry. -/
def Ordered (m : List (K × V)) : Prop := m.Pairwise fun e e' => e.1 < e'.1

/-- Store a value under a key, in place of an old one. -/
def insertKey (k : K) (v : V) : List (K × V) → List (K × V)
  | [] => [(k, v)]
  | e :: rest =>
    if k < e.1 then (k, v) :: e :: rest else if e.1 < k then e :: insertKey k v rest else (k, v) :: rest

def eraseKey (k : K) (m : List (K × V)) : List (K × V) := m.filter fun e => e.1 ≠ k

/-- The entry in front of the upper bound of a key. -/
def entryBefore (m : List (K × V)) (k : K) : Option (K × V) := (m.takeWhile fun e => e.1 ≤ k).getLast?

variable {e : K × V} {k : K} {m : List (K × V)}

theorem mem_insertKey {v : V} (h : Ordered m) :
    e ∈ insertKey k v m ↔ e = (k, v) ∨ e ∈ m ∧ e.1 ≠ k := by
  induction m with
  | nil => simp [insertKey]
  | cons d rest ih =>
    obtain ⟨hd, hrest⟩ := List.pairwise_cons.mp h
    unfold insertKey
    split_ifs with hlt hgt
    · have hother : e ∈ d :: rest → e.1 ≠ k := by
        intro he
        rcases List.mem_cons.mp he with rfl | he
        · exact hlt.ne'
        · exact (hlt.trans (hd e he)).ne'
      rw [List.mem_cons]
      exact or_congr_right ⟨fun he => ⟨he, hother he⟩, And.left⟩
    · rw [List.mem_cons, ih hrest, List.mem_cons]
      constructor
      · rintro (rfl | rfl | he)
        · exact .inr ⟨.inl rfl, hgt.ne⟩
        · exact .inl rfl
        · exact .inr ⟨.inr he.1, he.2⟩
      · rintro (rfl | ⟨rfl | he, hne⟩)
        · exact .inr (.inl rfl)
        · exact .inl rfl
        · exact .inr (.inr ⟨he, hne⟩)
    · have hkey : d.1 = k := le_antisymm (not_lt.mp hlt) (not_lt.mp hgt)
      rw [List.mem_cons, List.mem_cons]
      constructor
      · rintro (rfl | he)
        · exact .inl rfl
        · exact .inr ⟨.inr he, (hkey ▸ hd e he).ne'⟩
      · rintro (rfl | ⟨rfl | he, hne⟩)
        · exact .inl rfl
        · exact absurd hkey hne
        · exact .inr he

theorem ordered_insertKey (h : Ordered m) (k : K) (v : V) : Ordered (insertKey k v m) := by
  induction m with
  | nil => exact List.pairwise_singleton ..
  | cons d rest ih =>
    obtain ⟨hd, hrest⟩ := List.pairwise_cons.mp h
    unfold insertKey
    split_ifs with hlt hgt
    · refine List.pairwise_cons.mpr ⟨fun e he => ?_, h⟩
      rcases List.mem_cons.mp he with rfl | he
      · exact hlt
      · exact hlt.trans (hd e he)
    · refine List.pairwise_cons.mpr ⟨fun e he => ?_, ih hrest⟩
      rcases (mem_insertKey hrest).mp he with rfl | he
      · exact hgt
      · exact hd e he.1
    · have hkey : d.1 = k := le_antisymm (not_lt.mp hlt) (not_lt.mp hgt)
      exact List.pairwise_cons.mpr ⟨fun e he => hkey ▸ hd e he, hrest⟩

theorem Ordered.ext {m' : List (K × V)} (h : Ordered m) (h' : Ordered m') (hmem : ∀ e, e ∈ m ↔ e ∈ m') : m = m' :=
  have : Std.Antisymm fun e e' : K × V => e.1 < e'.1 := ⟨fun _ _ hlt hgt => absurd hgt hlt.asymm⟩
  have : Std.Irrefl fun e e' : K × V => e.1 < e'.1 := ⟨fun _ => lt_irrefl _⟩
  List.Pairwise.eq_of_mem_iff h h' hmem

/-- The values of a function at some keys, as a map. -/
def tabulate (keys : Finset K) (f : K → V) : List (K × V) := keys.sort.map fun k => (k, f k)

theorem mem_tabulate {keys : Finset K} {f : K → V} : e ∈ tabulate keys f ↔ e.1 ∈ keys ∧ e.2 = f e.1 := by
  rw [tabulate, List.mem_map]
  constructor
  · rintro ⟨k, hk, rfl⟩
    exact ⟨(Finset.mem_sort _).mp hk, rfl⟩
  · rintro ⟨hk, hv⟩
    exact ⟨e.1, (Finset.mem_sort _).mpr hk, Prod.ext rfl hv.symm⟩

theorem ordered_tabulate (keys : Finset K) (f : K → V) : Ordered (tabulate keys f) :=
  List.pairwise_map.mpr (Finset.sortedLT_sort keys).pairwise

theorem insertKey_tabulate (keys : Finset K) (f : K → V) (k : K) (v : V) :
    insertKey k v (tabulate keys f) = tabulate (insert k keys) (Function.update f k v) := by
  refine (ordered_insertKey (ordered_tabulate keys f) k v).ext (ordered_tabulate ..) fun e => ?_
  rw [mem_insertKey (ordered_tabulate keys f), mem_tabulate, mem_tabulate, Finset.mem_insert]
  by_cases hk : e.1 = k
  · simp [hk, Prod.ext_iff]
  · simp [hk, Prod.ext_iff]

theorem mem_eraseKey : e ∈ eraseKey k m ↔ e ∈ m ∧ e.1 ≠ k := by
  simp [eraseKey]

theorem ordered_eraseKey (h : Ordered m) (k : K) : Ordered (eraseKey k m) :=
  List.Pairwise.filter _ h

theorem entryBefore_eq_none (h : Ordered m) :
    entryBefore m k = none ↔ ∀ e ∈ m, k < e.1 := by
  cases m with
  | nil => simp [entryBefore]
  | cons d rest =>
    have hd := (List.pairwise_cons.mp h).1
    by_cases hle : d.1 ≤ k
    · simp [entryBefore, hle]
    · have hlt : k < d.1 := not_le.mp hle
      simp only [entryBefore, List.takeWhile_cons, decide_eq_false hle, Bool.false_eq_true, if_false,
        List.getLast?_nil, true_iff]
      intro e he
      rcases List.mem_cons.mp he with rfl | he
      · exact hlt
      · exact hlt.trans (hd e he)

theorem entryBefore_eq_some (h : Ordered m)
    (he : entryBefore m k = some e) : e ∈ m ∧ e.1 ≤ k ∧ ∀ d ∈ m, d.1 ≤ k → d.1 ≤ e.1 := by
  induction m with
  | nil => simp [entryBefore] at he
  | cons d rest ih =>
    obtain ⟨hd, hrest⟩ := List.pairwise_cons.mp h
    by_cases hle : d.1 ≤ k
    · cases hfound : entryBefore rest k with
      | none =>
        -- every later key exceeds the one looked up, so the first entry is the last that does not
        have hlater := (entryBefore_eq_none hrest).mp hfound
        have hempty : (rest.takeWhile fun e => e.1 ≤ k) = [] := List.getLast?_eq_none_iff.mp hfound
        obtain rfl : d = e := by simpa [entryBefore, hle, hempty] using he
        refine ⟨List.mem_cons_self, hle, fun c hc hck => ?_⟩
        rcases List.mem_cons.mp hc with rfl | hc
        · exact le_rfl
        · exact absurd hck (not_le.mpr (hlater c hc))
      | some found =>
        have hlast : (rest.takeWhile fun e => e.1 ≤ k).getLast? = some found := hfound
        obtain rfl : found = e := by simpa [entryBefore, hle, List.getLast?_cons, hlast] using he
        obtain ⟨hmem, hkey, hmax⟩ := ih hrest hfound
        refine ⟨List.mem_cons_of_mem _ hmem, hkey, fun c hc hck => ?_⟩
        rcases List.mem_cons.mp hc with rfl | hc
        · exact (hd found hmem).le
        · exact hmax c hc hck
    · simp [entryBefore, hle] at he

end AieBaremetal.Common
