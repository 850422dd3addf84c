import AieBaremetal.Metadata.Parser
import Mathlib.Data.List.Pairwise

/-!
# The broadcast column of a graph

Columns of a partition list count from the first column of the array, columns of a graph from that of
the device. While a graph is loaded, its first core is moved to array columns, the start of its
partition is looked up, and the start column of the device is subtracted again, all in 32 bits without
a sign. With partitions the first core is read without a test, and a core outside of all of them is
looked up as column 0.
-/

namespace AieBaremetal.Metadata

open Common

def PartitionConfig.Contains (part : PartitionConfig) (column : ℤ) : Prop :=
  part.startColumn.toNat ≤ column ∧ column < part.startColumn.toNat + part.numColumns.toNat

instance (part : PartitionConfig) (column : ℤ) :
    Decidable (part.Contains column) := inferInstanceAs (Decidable (_ ∧ _))

/-- No column of the array is in two partitions. -/
def PartitionsDisjoint (partitions : List PartitionConfig) : Prop :=
  partitions.Pairwise fun part other => ∀ column, ¬(part.Contains column ∧ other.Contains column)

/-- No partition reaches beyond the columns that a signed number counts. -/
def PartitionsInRange (partitions : List PartitionConfig) : Prop :=
  ∀ part ∈ partitions, part.startColumn.toNat + part.numColumns.toNat ≤ 2 ^ 31

/-- The device, which starts at the given column, has a column of the array. -/
def OnDevice (partitionStartColumn : BitVec 16) (numColumns : BitVec 8) (column : ℤ) : Prop :=
  partitionStartColumn.toInt ≤ column ∧ column < partitionStartColumn.toInt + numColumns.toNat

instance (partitionStartColumn : BitVec 16) (numColumns : BitVec 8) (column : ℤ) :
    Decidable (OnDevice partitionStartColumn numColumns column) := inferInstanceAs (Decidable (_ ∧ _))

/-- Loading a graph succeeds with a broadcast column of the device, which is the start of the partition of the
first core. -/
def LoadsBroadcastColumn (partitions : List PartitionConfig) (partitionStartColumn : BitVec 16)
    (numColumns : BitVec 8) (mem : ℤ → UInt8) (cursor next : ℤ) (fields : GraphConfig) : Prop :=
  ∃ column : BitVec 32,
    loadGraph partitions (partitionStartColumn.signExtend 32) mem cursor =
      .ok ({ fields with broadcastColumn := column }, next) ∧
    (∀ first rest part, fields.coreColumns = first :: rest → part ∈ partitions →
      part.Contains (first.toInt + partitionStartColumn.toInt) →
      (column.toNat : ℤ) = part.startColumn.toNat - partitionStartColumn.toInt) ∧
    column.toNat < numColumns.toNat

/-- What is looked up for the first core is a column of the device: the start of its partition, or column 0. -/
def LookedUpOnDevice (partitions : List PartitionConfig) (partitionStartColumn : BitVec 16) (numColumns : BitVec 8)
    (first : BitVec 16) : Prop :=
  (∃ part ∈ partitions, part.Contains (first.toInt + partitionStartColumn.toInt) ∧
    OnDevice partitionStartColumn numColumns part.startColumn.toNat) ∨
  ((∀ part ∈ partitions, ¬part.Contains (first.toInt + partitionStartColumn.toInt)) ∧
    OnDevice partitionStartColumn numColumns 0)

theorem loadGraph_eq (partitions : List PartitionConfig) (partitionStartColumn : BitVec 32) :
    loadGraph partitions partitionStartColumn = (do
      let fields ← loadGraph [] partitionStartColumn
      let broadcastColumn ← broadcastColumn partitions partitionStartColumn fields.coreColumns
      pure { fields with broadcastColumn }) := by
  have hnone (coreColumns : List (BitVec 16)) : broadcastColumn [] partitionStartColumn coreColumns = pure 0 := rfl
  simp only [loadGraph, Reader.bind_bind, hnone, Reader.pure_then]

section Lookup

variable {partitions : List PartitionConfig} {partitionStartColumn : BitVec 16} {numColumns : BitVec 8}

theorem firstColumn_eq (first partitionStartColumn : BitVec 16) :
    first.signExtend 32 + partitionStartColumn.signExtend 32 =
      BitVec.ofInt 32 (first.toInt + partitionStartColumn.toInt) := by
  rw [BitVec.ofInt_add]
  rfl

theorem lookup_test_iff {part : PartitionConfig} (hrange : part.startColumn.toNat + part.numColumns.toNat ≤ 2 ^ 31)
    (first partitionStartColumn : BitVec 16) :
    (part.startColumn.ule (first.signExtend 32 + partitionStartColumn.signExtend 32) &&
      (first.signExtend 32 + partitionStartColumn.signExtend 32).ult (part.startColumn + part.numColumns)) = true ↔
      part.Contains (first.toInt + partitionStartColumn.toInt) := by
  have hfirst : -2 ^ 15 ≤ first.toInt ∧ first.toInt < 2 ^ 15 := ⟨first.le_toInt, first.toInt_lt⟩
  have hstart : -2 ^ 15 ≤ partitionStartColumn.toInt ∧ partitionStartColumn.toInt < 2 ^ 15 :=
    ⟨partitionStartColumn.le_toInt, partitionStartColumn.toInt_lt⟩
  rw [firstColumn_eq, Bool.and_eq_true, BitVec.ule_iff_toNat_le, BitVec.ult_iff_toNat_lt, BitVec.toNat_ofInt,
    BitVec.toNat_add]
  unfold PartitionConfig.Contains
  omega

theorem eq_of_contains (hdisjoint : PartitionsDisjoint partitions) {part other : PartitionConfig}
    (hpart : part ∈ partitions) (hother : other ∈ partitions) {column : ℤ} (hcolumn : part.Contains column)
    (hsame : other.Contains column) : part = other := by
  by_contra hne
  have hsymm : Std.Symm fun part other : PartitionConfig => ∀ column,
    ¬(part.Contains column ∧ other.Contains column) :=
    ⟨fun _ _ h column hboth => h column hboth.symm⟩
  exact hdisjoint.forall hpart hother hne column ⟨hcolumn, hsame⟩

theorem getPartitionStartColumn_of_contains (hdisjoint : PartitionsDisjoint partitions)
    (hrange : PartitionsInRange partitions) {part : PartitionConfig} (hpart : part ∈ partitions) {first : BitVec 16}
    (hfirst : part.Contains (first.toInt + partitionStartColumn.toInt)) :
    getPartitionStartColumn partitions (first.signExtend 32 + partitionStartColumn.signExtend 32) =
      part.startColumn := by
  have hne : partitions.isEmpty = false := by
    cases partitions with
    | nil => cases hpart
    | cons => rfl
  simp only [getPartitionStartColumn, hne, Bool.false_eq_true, if_false]
  split
  next found hfound =>
    have hmem := List.mem_of_find?_eq_some hfound
    have htest := List.find?_some hfound
    have hcontains := (lookup_test_iff (hrange _ hmem) _ _).mp htest
    rw [eq_of_contains hdisjoint hmem hpart hcontains hfirst]
  next hnone =>
    exact absurd ((lookup_test_iff (hrange _ hpart) _ _).mpr hfirst) (List.find?_eq_none.mp hnone part hpart)

theorem getPartitionStartColumn_of_not_contains (hrange : PartitionsInRange partitions) {first : BitVec 16}
    (hfirst : ∀ part ∈ partitions, ¬part.Contains (first.toInt + partitionStartColumn.toInt)) :
    getPartitionStartColumn partitions (first.signExtend 32 + partitionStartColumn.signExtend 32) = 0 := by
  simp only [getPartitionStartColumn]
  split
  · rfl
  · split
    next found hfound =>
      have hmem := List.mem_of_find?_eq_some hfound
      have htest := List.find?_some hfound
      exact absurd ((lookup_test_iff (hrange _ hmem) _ _).mp htest) (hfirst found hmem)
    next => rfl

theorem toNat_sub_startColumn (column : BitVec 32) :
    ((column - partitionStartColumn.signExtend 32).toNat : ℤ) =
      (column.toNat - partitionStartColumn.toInt) % 2 ^ 32 := by
  have hsub : column - partitionStartColumn.signExtend 32 =
      BitVec.ofInt 32 (column.toNat - partitionStartColumn.toInt) := by
    rw [Int.sub_eq_add_neg, BitVec.ofInt_add, BitVec.ofInt_neg, ← BitVec.sub_eq_add_neg, BitVec.ofInt_natCast,
      BitVec.ofNat_toNat, BitVec.setWidth_eq]
    rfl
  rw [hsub, BitVec.toNat_ofInt]
  omega

theorem sub_startColumn_lt_iff {column : BitVec 32} (hcolumn : column.toNat ≤ 2 ^ 31) :
    (column - partitionStartColumn.signExtend 32).toNat < numColumns.toNat ↔
      OnDevice partitionStartColumn numColumns column.toNat := by
  have hvalue := @toNat_sub_startColumn partitionStartColumn column
  have hstart : -2 ^ 15 ≤ partitionStartColumn.toInt ∧ partitionStartColumn.toInt < 2 ^ 15 :=
    ⟨partitionStartColumn.le_toInt, partitionStartColumn.toInt_lt⟩
  have hcount := numColumns.isLt
  unfold OnDevice
  omega

/-- With partitions, the column of a graph is right exactly when what is looked up is a column of the device. -/
theorem lookedUp_iff (hdisjoint : PartitionsDisjoint partitions) (hrange : PartitionsInRange partitions)
    (first : BitVec 16) :
    (∀ part ∈ partitions, part.Contains (first.toInt + partitionStartColumn.toInt) →
      ((getPartitionStartColumn partitions (first.signExtend 32 + partitionStartColumn.signExtend 32) -
        partitionStartColumn.signExtend 32).toNat : ℤ) = part.startColumn.toNat - partitionStartColumn.toInt) ∧
    (getPartitionStartColumn partitions (first.signExtend 32 + partitionStartColumn.signExtend 32) -
      partitionStartColumn.signExtend 32).toNat < numColumns.toNat ↔
    LookedUpOnDevice partitions partitionStartColumn numColumns first := by
  by_cases hcontains : ∃ part ∈ partitions, part.Contains (first.toInt + partitionStartColumn.toInt)
  · obtain ⟨part, hpart, hfirst⟩ := hcontains
    have hbound : part.startColumn.toNat ≤ 2 ^ 31 := by
      have := hrange part hpart
      omega
    rw [getPartitionStartColumn_of_contains hdisjoint hrange hpart hfirst, sub_startColumn_lt_iff hbound]
    constructor
    · rintro ⟨-, hdevice⟩
      exact .inl ⟨part, hpart, hfirst, hdevice⟩
    · rintro (⟨other, hother, hsame, hdevice⟩ | ⟨hnone, -⟩)
      · obtain rfl := eq_of_contains hdisjoint hpart hother hfirst hsame
        refine ⟨fun third hthird hthirdFirst => ?_, hdevice⟩
        obtain rfl := eq_of_contains hdisjoint hpart hthird hfirst hthirdFirst
        have hsmall := hdevice.1
        have hstart := partitionStartColumn.le_toInt
        rw [toNat_sub_startColumn]
        omega
      · exact absurd hfirst (hnone part hpart)
  · have hnone : ∀ part ∈ partitions, ¬part.Contains (first.toInt + partitionStartColumn.toInt) :=
      fun part hpart hfirst => hcontains ⟨part, hpart, hfirst⟩
    rw [getPartitionStartColumn_of_not_contains hrange hnone, sub_startColumn_lt_iff (by decide)]
    constructor
    · rintro ⟨-, hdevice⟩
      exact .inr ⟨hnone, hdevice⟩
    · rintro (⟨part, hpart, hfirst, -⟩ | ⟨-, hdevice⟩)
      · exact absurd hfirst (hnone part hpart)
      · exact ⟨fun part hpart hfirst => absurd hfirst (hnone part hpart), hdevice⟩

end Lookup

/-- A graph is loaded with the right broadcast column exactly when there are no partitions, or when it has a first
core and what is looked up for it is a column of the device. -/
theorem loadsBroadcastColumn_iff {partitions : List PartitionConfig} (hdisjoint : PartitionsDisjoint partitions)
    (hrange : PartitionsInRange partitions) (partitionStartColumn : BitVec 16) (numColumns : BitVec 8)
    {mem : ℤ → UInt8} {cursor next : ℤ} {fields : GraphConfig}
    (hfields : loadGraph [] (partitionStartColumn.signExtend 32) mem cursor = .ok (fields, next)) :
    LoadsBroadcastColumn partitions partitionStartColumn numColumns mem cursor next fields ↔
      (partitions = [] ∧ 0 < numColumns.toNat) ∨
      (partitions ≠ [] ∧ ∃ first rest, fields.coreColumns = first :: rest ∧
        LookedUpOnDevice partitions partitionStartColumn numColumns first) := by
  unfold LoadsBroadcastColumn
  rw [loadGraph_eq, Reader.bind_of_ok _ hfields]
  cases partitions with
  | nil =>
    constructor
    · rintro ⟨column, hload, -, hlt⟩
      exact .inl ⟨rfl, by omega⟩
    · rintro (⟨-, hpos⟩ | ⟨hne, -⟩)
      · exact ⟨0, rfl, fun _ _ part _ hpart => absurd hpart List.not_mem_nil, hpos⟩
      · exact absurd rfl hne
  | cons part others =>
    cases hcores : fields.coreColumns with
    | nil =>
      constructor
      · rintro ⟨column, hload, -⟩
        cases hload
      · rintro (⟨hnil, -⟩ | ⟨-, first, rest, hfirst, -⟩)
        · cases hnil
        · cases hfirst
    | cons first rest =>
      have hiff := @lookedUp_iff _ partitionStartColumn numColumns hdisjoint hrange first
      constructor
      · rintro ⟨column, hload, hcolumn, hlt⟩
        cases hload
        exact .inr ⟨List.cons_ne_nil _ _, first, rest, rfl, hiff.mp ⟨fun part => hcolumn first rest part rfl, hlt⟩⟩
      · rintro (⟨hnil, -⟩ | ⟨-, first', rest', hfirst, hlooked⟩)
        · cases hnil
        · cases hfirst
          obtain ⟨hcolumn, hlt⟩ := hiff.mpr hlooked
          refine ⟨_, rfl, fun first' rest' part hfirst => ?_, hlt⟩
          cases hfirst
          exact hcolumn part

def oneCoreSection (column : UInt8) : ℤ → UInt8 :=
  sectionMemory (fun _ => 0) [0, 0, 0, 0, 0, 0, 0, 0, 1, 0, 0, 0, column, 0]

def oneCoreFields (column : BitVec 16) : GraphConfig where
  id := 0
  name := some []
  coreColumns := [column]
  coreRows := []
  iterMemColumns := []
  iterMemRows := []
  iterMemAddrs := []
  triggered := []
  broadcastColumn := 0

def threeColumns : PartitionConfig where
  startColumn := 2
  numColumns := 3
  uuid := none
  aiePlIntfId := 0
  nameSpace := none

/-- A core in the partition of a device of four columns. -/
theorem loadsBroadcastColumn_sample :
    LoadsBroadcastColumn [threeColumns] 1 4 (oneCoreSection 2) 0 34 (oneCoreFields 2) := by
  have hrange : PartitionsInRange [threeColumns] := by
    simp [PartitionsInRange, threeColumns]
  refine (loadsBroadcastColumn_iff (List.pairwise_singleton _ _) hrange 1 4 rfl).mpr
    (.inr ⟨by simp, 2, [], rfl, .inl ?_⟩)
  exact ⟨threeColumns, by simp, by decide, by decide⟩

/-- A core in front of the partition: the column wraps around. -/
theorem core_outside_partitions_wraps :
    PartitionsDisjoint [threeColumns] ∧ PartitionsInRange [threeColumns] ∧
      loadGraph [] ((1 : BitVec 16).signExtend 32) (oneCoreSection 0) 0 = .ok (oneCoreFields 0, 34) ∧
      ¬LoadsBroadcastColumn [threeColumns] 1 4 (oneCoreSection 0) 0 34 (oneCoreFields 0) := by
  refine ⟨List.pairwise_singleton _ _, by simp [PartitionsInRange, threeColumns], rfl, ?_⟩
  rintro ⟨column, hload, -, hlt⟩
  have hwrapped : loadGraph [threeColumns] ((1 : BitVec 16).signExtend 32) (oneCoreSection 0) 0 =
      .ok ({ oneCoreFields 0 with broadcastColumn := 0xFFFFFFFF }, 34) := rfl
  rw [hwrapped] at hload
  cases hload
  exact absurd hlt (by decide)

end AieBaremetal.Metadata
