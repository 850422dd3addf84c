import AieBaremetal.Metadata.Sections

/-!
# The graph section

The packer converts the Booleans of a graph's vectors to strings, and the code `?` packs a string that
is not empty as true, also `false`. So the graphs of a section are read back exactly when all their
triggers are true, the script packs the section at all, the lookup of the broadcast column finds a first
core, and graphs of one name, of which the map keeps the last, are equal.
-/

namespace AieBaremetal.Metadata

open Common Common.Reader

def memberTriggers (graph : Members) : List Bool := (member graph .multirate_triggers).items.map Json.truthy

def isBoolean : Json → Bool
  | .boolean _ => true
  | _ => false

/-- A graph with an ASCII name, numbers in range, addresses below 2^31 and Booleans as triggers. -/
def graphWellFormed (graph : Members) : Bool :=
  recordShaped true graphConfigList graph && (member graph .multirate_triggers).items.all isBoolean &&
    (memberInts graph .iteration_memory_addresses).all fun n => n < 2 ^ 31

structure GraphMatches (graph : Members) (config : GraphConfig) : Prop where
  id : config.id.toInt = memberInt graph .id
  name : config.name = some (memberText graph .name)
  coreColumns : config.coreColumns.map BitVec.toInt = memberInts graph .core_columns
  coreRows : config.coreRows.map BitVec.toInt = memberInts graph .core_rows
  iterMemColumns : config.iterMemColumns.map BitVec.toInt = memberInts graph .iteration_memory_columns
  iterMemRows : config.iterMemRows.map BitVec.toInt = memberInts graph .iteration_memory_rows
  iterMemAddrs : (config.iterMemAddrs.map fun addr => (addr.toNat : ℤ)) =
    memberInts graph .iteration_memory_addresses
  triggered : (config.triggered.map fun flag => flag != 0) = memberTriggers graph

/-- What `GraphMatches` says besides the name. -/
def graphFields (graph : Members) : ℤ × List ℤ × List ℤ × List ℤ × List ℤ × List ℤ × List Bool :=
  (memberInt graph .id, memberInts graph .core_columns, memberInts graph .core_rows,
    memberInts graph .iteration_memory_columns, memberInts graph .iteration_memory_rows,
    memberInts graph .iteration_memory_addresses, memberTriggers graph)

/-- Every graph of the metadata is found under its name. -/
def GraphsReadBack (graphs : List Members) (partitions : List PartitionConfig) (partitionStartColumn : BitVec 32) :
    Prop :=
  ∃ bytes, parseGraphConfig (graphs.map .object) = some bytes ∧
    ∀ outside fuel, graphs.length < fuel → ∃ map,
      loadAllGraphs partitions partitionStartColumn (BitVec.ofNat 32 bytes.length) fuel
        (sectionMemory outside bytes) 0 =
        .ok (map, bytes.length) ∧
      ∀ graph ∈ graphs, ∃ config, map (memberText graph .name) = some config ∧ GraphMatches graph config

section Conversion

theorem convertIfBoolItems_eq_map (items : List Json) : convertIfBoolItems items = items.map convertIfBool := by
  induction items with
  | nil => rfl
  | cons v rest ih => rw [convertIfBoolItems, ih]; rfl

theorem items_convertIfBool (v : Json) : (convertIfBool v).items = v.items.map convertIfBool := by
  cases v with
  | array items => exact convertIfBoolItems_eq_map items
  | null | number | boolean | text | object => rfl

theorem int_convertIfBool {code : Code} {v : Json} (h : code.holdsInt (convertIfBool v) = true) :
    (convertIfBool v).int = v.int := by
  cases v with
  | boolean b => simp [convertIfBool, Code.holdsInt, Json.asInt] at h
  | null | number | text | array | object => rfl

theorem truthy_convertIfBool {v : Json} (h : isBoolean v = true) : (convertIfBool v).truthy = true := by
  cases v with
  | boolean b => cases b <;> rfl
  | null | number | text | array | object => simp [isBoolean] at h

end Conversion

/-- The broadcast column, or the failure to look it up. -/
def broadcastResult (partitions : List PartitionConfig) (partitionStartColumn : BitVec 32)
    (coreColumns : List (BitVec 16)) :
    Except Failure (BitVec 32) :=
  if partitions.isEmpty then .ok 0
  else
    match coreColumns with
    | [] => .error .emptyVector
    | first :: _ =>
      .ok (getPartitionStartColumn partitions (first.signExtend 32 + partitionStartColumn) - partitionStartColumn)

/-- The items of a list of two-byte numbers as they are read. -/
def shortItems (graph : Members) (key : Key) : List (BitVec 16) :=
  (fetched true graph key).items.map fun v => BitVec.ofInt 16 v.int

def GraphConfig.ofRecord (graph : Members) (broadcastColumn : BitVec 32) : GraphConfig where
  id := BitVec.ofInt 32 (memberInt graph .id)
  name := some (memberText graph .name)
  coreColumns := shortItems graph .core_columns
  coreRows := shortItems graph .core_rows
  iterMemColumns := shortItems graph .iteration_memory_columns
  iterMemRows := shortItems graph .iteration_memory_rows
  iterMemAddrs := ((fetched true graph .iteration_memory_addresses).items.map fun v => BitVec.ofInt 32 v.int).map
    (BitVec.signExtend 64)
  triggered := (fetched true graph .multirate_triggers).items.map fun v => if v.truthy then 1 else 0
  broadcastColumn := broadcastColumn

theorem runs_broadcastColumn {A : Type} (partitions : List PartitionConfig) (partitionStartColumn : BitVec 32)
    (coreColumns : List (BitVec 16)) (f : BitVec 32 → A) :
    Runs (broadcastColumn partitions partitionStartColumn coreColumns >>= fun column => pure (f column)) []
      ((broadcastResult partitions partitionStartColumn coreColumns).map f) := by
  intro mem cursor _
  simp only [broadcastColumn, broadcastResult]
  split
  · simp [Bind.bind, Pure.pure, Except.map]
  · cases coreColumns with
    | nil => rfl
    | cons first rest => simp [Bind.bind, Pure.pure, Except.map]

theorem reads_truthy (v : Json) : Reads (unpackValue 1) (scalarBytes .bool v) (if v.truthy then 1 else 0) := by
  have hread (n : ℤ) := reads_unpackValue 1 n
  by_cases htrue : v.truthy = true
  · simpa [scalarBytes, Code.range, htrue, intBytes, leBytes] using hread 1
  · simpa [scalarBytes, Code.range, htrue, intBytes, leBytes] using hread 0

section Reading

variable {graph : Members} (hshape : recordShaped true graphConfigList graph = true)
  (hfits : recordFits true graphConfigList graph = true)

include hshape hfits

/-- A graph is read to its end, unless the lookup of its broadcast column fails. -/
theorem runs_loadGraph (partitions : List PartitionConfig) (partitionStartColumn : BitVec 32) :
    Runs (loadGraph partitions partitionStartColumn) (recordBytes true graphConfigList graph)
      ((broadcastResult partitions partitionStartColumn (shortItems graph .core_columns)).map
        (.ofRecord graph)) := by
  have hkind (key : Key) (hkey : key ∈ graphConfigList) : shaped key (fetched true graph key) = true :=
    List.all_eq_true.mp hshape key hkey
  have hshort (key : Key) (hkey : key ∈ graphConfigList) :=
    Bool.and_eq_true_iff.mp (List.all_eq_true.mp hfits key hkey)
  have hlen (key : Key) (hkey : key ∈ graphConfigList) := length_of_shortArray (hshort key hkey).2
  have hbytes (key : Key) (hkey : key ∈ graphConfigList) (harray : key ∈ arrayKeys) {code : Code}
      (hcode : keyToEncodingMap key = some code) := (fieldBytes_array (hkind key hkey) harray hcode).1
  simp only [recordBytes, graphConfigList, List.map_cons, List.map_nil, List.flatten_cons, List.flatten_nil]
  rw [hbytes .core_columns (by decide) (by decide) rfl, hbytes .core_rows (by decide) (by decide) rfl,
    hbytes .iteration_memory_columns (by decide) (by decide) rfl, hbytes .iteration_memory_rows
      (by decide) (by decide) rfl,
    hbytes .iteration_memory_addresses (by decide) (by decide) rfl, hbytes .multirate_triggers
      (by decide) (by decide) rfl]
  apply (reads_unpackUInt32 (hkind .id (by decide)) rfl).bind_runs
  apply (reads_unpackString (hkind .name (by decide)) (by decide) (hshort .name (by decide)).1).bind_runs
  apply runs_array_bind (fun v _ => reads_item rfl) (hlen .core_columns (by decide))
  apply runs_array_bind (fun v _ => reads_item rfl) (hlen .core_rows (by decide))
  apply runs_array_bind (fun v _ => reads_item rfl) (hlen .iteration_memory_columns (by decide))
  apply runs_array_bind (fun v _ => reads_item rfl) (hlen .iteration_memory_rows (by decide))
  apply runs_array_bind (fun v _ => reads_item rfl) (hlen .iteration_memory_addresses (by decide))
  apply runs_array_bind (fun v _ => reads_truthy v) (hlen .multirate_triggers (by decide))
  exact runs_broadcastColumn partitions partitionStartColumn _ _

end Reading

section Matching

variable {graph : Members} (hwf : graphWellFormed graph = true)
include hwf

theorem recordShaped_of_graphWellFormed : recordShaped true graphConfigList graph = true := by
  simp only [graphWellFormed, Bool.and_eq_true] at hwf
  exact hwf.1.1

theorem toInt_shortItems {key : Key} (hkey : key ∈ graphConfigList) (hvector : key ∈ vectors)
    (hcode : keyToEncodingMap key = some .h) : (shortItems graph key).map BitVec.toInt = memberInts graph key := by
  have hkind := List.all_eq_true.mp (recordShaped_of_graphWellFormed hwf) key hkey
  have hitems := (fieldBytes_array hkind (List.mem_cons_of_mem _ hvector) hcode).2
  have hfetched : (fetched true graph key).items = (member graph key).items.map convertIfBool := by
    rw [fetched, if_pos ⟨rfl, hvector⟩, items_convertIfBool]
  rw [shortItems, toInt_items_h hitems, hfetched, memberInts, List.map_map]
  rw [hfetched, List.all_map] at hitems
  apply List.map_congr_left
  intro v hv
  have hfits : Code.h.fits (convertIfBool v) = true := List.all_eq_true.mp hitems v hv
  exact int_convertIfBool (by simpa [Code.fits] using hfits)

theorem toNat_iterMemAddrs :
    ((((fetched true graph .iteration_memory_addresses).items.map fun v => BitVec.ofInt 32 v.int).map
      (BitVec.signExtend 64)).map fun addr => (addr.toNat : ℤ)) = memberInts graph .iteration_memory_addresses := by
  have hkind := List.all_eq_true.mp (recordShaped_of_graphWellFormed hwf) .iteration_memory_addresses (by decide)
  have hitems := (fieldBytes_array hkind (by decide) rfl).2
  simp only [graphWellFormed, Bool.and_eq_true] at hwf
  have hfetched : fetched true graph .iteration_memory_addresses = member graph .iteration_memory_addresses :=
    if_neg (by decide)
  rw [hfetched] at hitems ⊢
  rw [memberInts, List.map_map, List.map_map]
  apply List.map_congr_left
  intro v hv
  have hhigh : v.int < 2 ^ 31 := by
    have hall := List.all_eq_true.mp hwf.2 v.int (List.mem_map_of_mem hv)
    exact of_decide_eq_true hall
  have hint : Code.I.holdsInt v = true := by simpa [Code.fits] using List.all_eq_true.mp hitems v hv
  have hlow := (bounds_of_holdsInt hint rfl).1
  have hvalue := toNat_unsigned hlow (show v.int < 2 ^ 32 by omega)
  have hmsb : (BitVec.ofInt 32 v.int).msb = false := by
    rw [BitVec.msb_eq_decide]
    apply decide_eq_false
    omega
  rw [Function.comp_apply, Function.comp_apply, BitVec.signExtend_eq_setWidth_of_msb_false hmsb,
    BitVec.toNat_setWidth_of_le (by decide), hvalue]

theorem triggered_ofRecord (column : BitVec 32) :
    ((GraphConfig.ofRecord graph column).triggered.map fun flag => flag != 0) =
      (memberTriggers graph).map fun _ => true := by
  simp only [graphWellFormed, Bool.and_eq_true] at hwf
  have hfetched : (fetched true graph .multirate_triggers).items =
      (member graph .multirate_triggers).items.map convertIfBool := by
    rw [fetched, if_pos (by decide), items_convertIfBool]
  simp only [GraphConfig.ofRecord, hfetched, memberTriggers, List.map_map]
  apply List.map_congr_left
  intro v hv
  have htrue := truthy_convertIfBool (List.all_eq_true.mp hwf.1.2 v hv)
  simp [htrue]

theorem graphMatches_ofRecord (htriggers : ∀ trigger ∈ memberTriggers graph, trigger = true) (column : BitVec 32) :
    GraphMatches graph (.ofRecord graph column) where
  id := by
    have hkind := List.all_eq_true.mp (recordShaped_of_graphWellFormed hwf) .id (by decide)
    have hfetched : fetched true graph .id = member graph .id := if_neg (by decide)
    obtain ⟨-, hlow, hhigh⟩ := fieldBytes_int hkind rfl
    rw [hfetched] at hlow hhigh
    exact BitVec.toInt_ofInt_eq_self (by decide) hlow (Int.lt_of_le_sub_one hhigh)
  name := rfl
  coreColumns := toInt_shortItems hwf (by decide) (by decide) rfl
  coreRows := toInt_shortItems hwf (by decide) (by decide) rfl
  iterMemColumns := toInt_shortItems hwf (by decide) (by decide) rfl
  iterMemRows := toInt_shortItems hwf (by decide) (by decide) rfl
  iterMemAddrs := toNat_iterMemAddrs hwf
  triggered := by
    rw [triggered_ofRecord hwf]
    exact (List.map_congr_left fun trigger hmem => (htriggers trigger hmem).symm).trans (List.map_id _)

theorem triggers_of_graphMatches {other : Members} {column : BitVec 32}
    (h : GraphMatches other (.ofRecord graph column)) : ∀ trigger ∈ memberTriggers other, trigger = true := by
  have htriggered := h.triggered
  rw [triggered_ofRecord hwf] at htriggered
  intro trigger hmem
  rw [← htriggered] at hmem
  obtain ⟨_, -, htrue⟩ := List.mem_map.mp hmem
  exact htrue.symm

end Matching

theorem graphFields_eq {graph other : Members} {config : GraphConfig} (h : GraphMatches graph config)
    (h' : GraphMatches other config) : graphFields graph = graphFields other := by
  simp only [graphFields, ← h.id, ← h.coreColumns, ← h.coreRows, ← h.iterMemColumns, ← h.iterMemRows,
    ← h.iterMemAddrs, ← h.triggered, h'.id, h'.coreColumns, h'.coreRows, h'.iterMemColumns, h'.iterMemRows,
    h'.iterMemAddrs, h'.triggered]

theorem graphMatches_of_graphFields {graph other : Members} {config : GraphConfig} (h : GraphMatches other config)
    (hname : memberText graph .name = memberText other .name) (hfields : graphFields graph = graphFields other) :
    GraphMatches graph config := by
  simp only [graphFields, Prod.mk.injEq] at hfields
  obtain ⟨hid, hcolumns, hrows, hmemColumns, hmemRows, haddrs, htriggers⟩ := hfields
  exact
    { id := h.id.trans hid.symm
      name := by rw [h.name, hname]
      coreColumns := h.coreColumns.trans hcolumns.symm
      coreRows := h.coreRows.trans hrows.symm
      iterMemColumns := h.iterMemColumns.trans hmemColumns.symm
      iterMemRows := h.iterMemRows.trans hmemRows.symm
      iterMemAddrs := h.iterMemAddrs.trans haddrs.symm
      triggered := h.triggered.trans htriggers.symm }

section Map

variable {A : Type}

theorem assignAll_of_not_mem {map : NameMap A} {entries : List (List UInt8 × A)} {name : List UInt8}
    (h : ∀ entry ∈ entries, entry.1 ≠ name) : assignAll map entries name = map name := by
  induction entries generalizing map with
  | nil => rfl
  | cons entry rest ih =>
    have hrest : assignAll (Function.update map entry.1 (some entry.2)) rest name =
        Function.update map entry.1 (some entry.2) name := ih fun e he => h e (List.mem_cons_of_mem _ he)
    exact hrest.trans (Function.update_of_ne (h entry List.mem_cons_self).symm _ _)

theorem exists_assignAll {map : NameMap A} {entries : List (List UInt8 × A)} {name : List UInt8}
    (h : ∃ entry ∈ entries, entry.1 = name) :
    ∃ value, assignAll map entries name = some value ∧ (name, value) ∈ entries := by
  induction entries generalizing map with
  | nil => exact absurd h (by simp)
  | cons entry rest ih =>
    by_cases hlater : ∃ later ∈ rest, later.1 = name
    · obtain ⟨value, hvalue, hmem⟩ := ih hlater
      exact ⟨value, hvalue, List.mem_cons_of_mem _ hmem⟩
    · have hentry : entry.1 = name := by
        obtain ⟨e, he, hname⟩ := h
        rcases List.mem_cons.mp he with rfl | he
        · exact hname
        · exact absurd ⟨e, he, hname⟩ hlater
      have hlast : assignAll (Function.update map entry.1 (some entry.2)) rest name =
          Function.update map entry.1 (some entry.2) name :=
        assignAll_of_not_mem fun e he heq => hlater ⟨e, he, heq⟩
      refine ⟨entry.2, ?_, ?_⟩
      · subst hentry
        exact hlast.trans (Function.update_self _ _ _)
      · rw [← hentry]
        exact List.mem_cons_self

end Map

section Section

variable (partitions : List PartitionConfig) (partitionStartColumn : BitVec 32)

/-- The broadcast column can be looked up: with partitions that needs a first core. -/
def broadcastDefined (graph : Members) : Bool := partitions.isEmpty || !(shortItems graph .core_columns).isEmpty

def graphEntry (graph : Members) : List UInt8 × GraphConfig :=
  (memberText graph .name, .ofRecord graph
    (match broadcastResult partitions partitionStartColumn (shortItems graph .core_columns) with
      | .ok column => column
      | .error _ => 0))

variable {partitions partitionStartColumn} {graph : Members}

theorem broadcastResult_of_defined (h : broadcastDefined partitions graph = true) :
    ∃ column, broadcastResult partitions partitionStartColumn (shortItems graph .core_columns) = .ok column := by
  simp only [broadcastDefined, Bool.or_eq_true, Bool.not_eq_true'] at h
  unfold broadcastResult
  cases hcores : shortItems graph .core_columns with
  | nil =>
    have hempty : partitions.isEmpty = true := by simpa [hcores] using h
    exact ⟨0, if_pos hempty⟩
  | cons first rest =>
    by_cases hempty : partitions.isEmpty = true
    · exact ⟨0, if_pos hempty⟩
    · exact ⟨_, if_neg hempty⟩

theorem broadcastResult_of_not_defined (h : broadcastDefined partitions graph = false) :
    broadcastResult partitions partitionStartColumn (shortItems graph .core_columns) = .error .emptyVector := by
  simp only [broadcastDefined, Bool.or_eq_false_iff, Bool.not_eq_false'] at h
  rw [List.isEmpty_iff.mp h.2]
  exact if_neg (by rw [h.1]; decide)

theorem reads_loadNamedGraph (hshape : recordShaped true graphConfigList graph = true)
    (hfits : recordFits true graphConfigList graph = true) (hdefined : broadcastDefined partitions graph = true) :
    Reads (loadNamedGraph partitions partitionStartColumn) (recordBytes true graphConfigList graph)
      (graphEntry partitions partitionStartColumn graph) := by
  obtain ⟨column, hcolumn⟩ : ∃ column, broadcastResult partitions partitionStartColumn _ = .ok column :=
    broadcastResult_of_defined hdefined
  have hruns := runs_loadGraph hshape hfits partitions partitionStartColumn
  rw [hcolumn] at hruns
  rw [graphEntry, hcolumn]
  intro mem cursor hmem
  rw [loadNamedGraph, bind_of_ok _ (hruns.reads mem cursor hmem)]
  rfl

theorem loadNamedGraph_error (hshape : recordShaped true graphConfigList graph = true)
    (hfits : recordFits true graphConfigList graph = true) (hdefined : broadcastDefined partitions graph = false)
    {mem : ℤ → UInt8} {cursor : ℤ} (hmem : Holds mem cursor (recordBytes true graphConfigList graph)) :
    loadNamedGraph partitions partitionStartColumn mem cursor = .error .emptyVector := by
  have hruns := runs_loadGraph hshape hfits partitions partitionStartColumn mem cursor hmem
  rw [broadcastResult_of_not_defined hdefined] at hruns
  exact bind_of_error _ hruns

variable {graphs : List Members} {outside : ℤ → UInt8} {fuel : ℕ}
  (hshape : ∀ graph ∈ graphs, recordShaped true graphConfigList graph = true)

include hshape

theorem graphChunks_ne_nil : ∀ chunk ∈ graphs.map (recordBytes true graphConfigList), chunk ≠ [] := by
  intro chunk hchunk
  obtain ⟨graph, hmem, rfl⟩ := List.mem_map.mp hchunk
  exact recordBytes_ne_nil (hshape graph hmem) rfl

theorem parseGraphConfig_eq :
    parseGraphConfig (graphs.map .object) =
      if graphs.all (recordFits true graphConfigList) then
        some (graphs.map (recordBytes true graphConfigList)).flatten
      else none := by
  have hfile : parseGraphConfig (graphs.map .object) =
    (packRecords true graphConfigList graphs).bind structPack := by
    rw [← packGraphs_eq]
    rfl
  rw [hfile, packRecords_structPack (by decide) hshape]

variable (hfits : ∀ graph ∈ graphs, recordFits true graphConfigList graph = true)
  (hsize : (graphs.map (recordBytes true graphConfigList)).flatten.length < 2 ^ 32)

include hfits hsize

theorem loadAllGraphs_of_defined (hdefined : ∀ graph ∈ graphs, broadcastDefined partitions graph = true)
    (hfuel : graphs.length < fuel) :
    loadAllGraphs partitions partitionStartColumn
        (BitVec.ofNat 32 (graphs.map (recordBytes true graphConfigList)).flatten.length) fuel
        (sectionMemory outside (graphs.map (recordBytes true graphConfigList)).flatten) 0 =
      .ok (assignAll (fun _ => none) (graphs.map (graphEntry partitions partitionStartColumn)),
        (graphs.map (recordBytes true graphConfigList)).flatten.length) := by
  have hreads : List.Forall₂ (Reads (loadNamedGraph partitions partitionStartColumn))
      (graphs.map (recordBytes true graphConfigList)) (graphs.map (graphEntry partitions partitionStartColumn)) :=
    List.forall₂_map_left_iff.mpr (List.forall₂_map_right_iff.mpr (List.forall₂_same.mpr fun graph hmem =>
      reads_loadNamedGraph (hshape graph hmem) (hfits graph hmem) (hdefined graph hmem)))
  have hfrom := readsFrom_of_forall₂ hreads (holds_sectionMemory outside _)
  have hloop := readWhile_section hfrom (graphChunks_ne_nil hshape) hsize (by rwa [List.length_map])
  rw [loadAllGraphs, bind_of_ok _ hloop]
  rfl

/-- Nothing is read when some broadcast column is not defined. -/
theorem loadAllGraphs_of_not_defined (hdefined : ¬∀ graph ∈ graphs, broadcastDefined partitions graph = true)
    (hfuel : graphs.length < fuel) :
    loadAllGraphs partitions partitionStartColumn
        (BitVec.ofNat 32 (graphs.map (recordBytes true graphConfigList)).flatten.length) fuel
        (sectionMemory outside (graphs.map (recordBytes true graphConfigList)).flatten) 0 =
          .error .emptyVector := by
  -- The first graph without a first core ends the loop; those before it are read.
  obtain ⟨graph, hfind⟩ : ∃ graph, graphs.find? (fun graph => !broadcastDefined partitions graph) = some graph := by
    rw [← Option.isSome_iff_exists, List.find?_isSome]
    simpa using hdefined
  obtain ⟨hgraph, before, after, rfl, hbefore⟩ := List.find?_eq_some_iff_append.mp hfind
  have hreads : List.Forall₂ (Reads (loadNamedGraph partitions partitionStartColumn))
      (before.map (recordBytes true graphConfigList)) (before.map (graphEntry partitions partitionStartColumn)) :=
    List.forall₂_map_left_iff.mpr (List.forall₂_map_right_iff.mpr (List.forall₂_same.mpr fun earlier hmem =>
      reads_loadNamedGraph (hshape earlier (List.mem_append_left _ hmem))
        (hfits earlier (List.mem_append_left _ hmem))
        (by simpa using hbefore earlier hmem)))
  have hmem :=
    holds_sectionMemory outside ((before ++ graph :: after).map (recordBytes true graphConfigList)).flatten
  have hgraphMem : graph ∈ before ++ graph :: after := by simp
  have hpos : 0 < (recordBytes true graphConfigList graph).length :=
    List.length_pos_iff.mpr (recordBytes_ne_nil (hshape graph hgraphMem) rfl)
  rw [List.map_append, List.flatten_append, List.map_cons, List.flatten_cons] at hmem hsize ⊢
  obtain ⟨hmemBefore, hmemRest⟩ := holds_append.mp hmem
  have herror : loadNamedGraph partitions partitionStartColumn _ _ = .error .emptyVector :=
    loadNamedGraph_error (hshape graph hgraphMem) (hfits graph hgraphMem) (by simpa using hgraph)
      (holds_append.mp hmemRest).1
  have hinside (c : ℤ) (hlow : 0 ≤ c)
    (hle : c ≤ 0 + (before.map (recordBytes true graphConfigList)).flatten.length) :=
    insideSection_of_lt hsize hlow (by simp only [List.length_append]; omega)
  have hfew : (before.map (recordBytes true graphConfigList)).length < fuel := by
    simp only [List.length_append, List.length_cons] at hfuel
    rw [List.length_map]
    omega
  have hloop := (readsFrom_of_forall₂ hreads hmemBefore).readWhile_error .outOfFuel hinside herror hfew
  exact bind_of_error _ hloop

end Section

section ReadBack

variable {graphs : List Members} {partitions : List PartitionConfig} {partitionStartColumn : BitVec 32}

theorem exists_graphEntry {graph : Members} (hmem : graph ∈ graphs) :
    ∃ other ∈ graphs, memberText graph .name = memberText other .name ∧
      assignAll (fun _ => none) (graphs.map (graphEntry partitions partitionStartColumn)) (memberText graph .name) =
        some (graphEntry partitions partitionStartColumn other).2 := by
  obtain ⟨config, hconfig, hentry⟩ : ∃ config,
      assignAll (fun _ => none) (graphs.map (graphEntry partitions partitionStartColumn)) (memberText graph .name) =
        some config ∧ (memberText graph .name, config) ∈ graphs.map (graphEntry partitions partitionStartColumn) :=
    exists_assignAll ⟨graphEntry partitions partitionStartColumn graph, List.mem_map_of_mem hmem, rfl⟩
  obtain ⟨other, hother, heq⟩ := List.mem_map.mp hentry
  refine ⟨other, hother, (congrArg Prod.fst heq).symm, ?_⟩
  rw [congrArg Prod.snd heq]
  exact hconfig

variable (hgraphs : ∀ graph ∈ graphs, graphWellFormed graph = true)

include hgraphs

theorem broadcastDefined_iff :
    (∀ graph ∈ graphs, broadcastDefined partitions graph = true) ↔
      (partitions = [] ∨ ∀ graph ∈ graphs, memberInts graph .core_columns ≠ []) := by
  have hcores (graph : Members) (hmem : graph ∈ graphs) :
      (shortItems graph .core_columns).isEmpty = (memberInts graph .core_columns).isEmpty := by
    rw [← toInt_shortItems (hgraphs graph hmem) (by decide) (by decide) rfl, List.isEmpty_map]
  by_cases hpartitions : partitions = []
  · simp [broadcastDefined, hpartitions]
  · have hnonempty : partitions.isEmpty = false := by simpa using hpartitions
    simp only [broadcastDefined, hnonempty, Bool.false_or, hpartitions, false_or]
    constructor
    · intro h graph hmem hnil
      have hdefined := h graph hmem
      simp [hcores graph hmem, hnil] at hdefined
    · intro h graph hmem
      simp [hcores graph hmem, h graph hmem]

theorem assignAll_graphMatches_iff :
    (∀ graph ∈ graphs, ∃ config,
        assignAll (fun _ => none) (graphs.map (graphEntry partitions partitionStartColumn))
          (memberText graph .name) =
          some config ∧ GraphMatches graph config) ↔
      (∀ graph ∈ graphs, ∀ trigger ∈ memberTriggers graph, trigger = true) ∧
      ∀ graph ∈ graphs, ∀ other ∈ graphs, memberText graph .name = memberText other .name →
        graphFields graph = graphFields other := by
  constructor
  · intro h
    constructor
    · intro graph hmem
      obtain ⟨config, hconfig, hmatch⟩ := h graph hmem
      obtain ⟨source, hsource, -, hfound⟩ := exists_graphEntry hmem
      obtain rfl := Option.some.inj (hfound.symm.trans hconfig)
      exact triggers_of_graphMatches (hgraphs source hsource) hmatch
    · intro graph hmem other hother hname
      obtain ⟨config, hconfig, hmatch⟩ := h graph hmem
      obtain ⟨config', hconfig', hmatch'⟩ := h other hother
      rw [← hname, hconfig] at hconfig'
      obtain rfl := Option.some.inj hconfig'
      exact graphFields_eq hmatch hmatch'
  · rintro ⟨htriggers, hequal⟩ graph hmem
    obtain ⟨source, hsource, hname, hfound⟩ := exists_graphEntry hmem
    have hmatch := graphMatches_ofRecord (hgraphs source hsource) (htriggers source hsource)
    exact ⟨_, hfound, graphMatches_of_graphFields (hmatch _) hname (hequal graph hmem source hsource hname)⟩

variable (hsize : ∀ bytes, parseGraphConfig (graphs.map .object) = some bytes → bytes.length < 2 ^ 32)

include hsize

/-- Graphs that are read back have been packed, found and kept. -/
theorem conditions_of_readBack (h : GraphsReadBack graphs partitions partitionStartColumn) :
    (∀ graph ∈ graphs, recordFits true graphConfigList graph = true) ∧
      (∀ graph ∈ graphs, ∀ trigger ∈ memberTriggers graph, trigger = true) ∧
      (∀ graph ∈ graphs, broadcastDefined partitions graph = true) ∧
      ∀ graph ∈ graphs, ∀ other ∈ graphs, memberText graph .name = memberText other .name →
        graphFields graph = graphFields other := by
  have hshape (graph : Members) (hmem : graph ∈ graphs) := recordShaped_of_graphWellFormed (hgraphs graph hmem)
  have hparse := parseGraphConfig_eq hshape
  obtain ⟨bytes, hbytes, hread⟩ := h
  have hall : graphs.all (recordFits true graphConfigList) = true := by
    by_contra hall
    rw [hparse, if_neg hall] at hbytes
    exact absurd hbytes (by simp)
  rw [hparse, if_pos hall] at hbytes hsize
  obtain rfl := Option.some.inj hbytes
  have hfits := List.all_eq_true.mp hall
  obtain ⟨map, hmap, hfound⟩ := hread (fun _ => 0) (graphs.length + 1) (Nat.lt_succ_self _)
  have hdefined : ∀ graph ∈ graphs, broadcastDefined partitions graph = true := by
    by_contra hdefined
    rw [loadAllGraphs_of_not_defined hshape hfits (hsize _ rfl) hdefined (Nat.lt_succ_self _)] at hmap
    exact absurd hmap (by simp)
  rw [loadAllGraphs_of_defined hshape hfits (hsize _ rfl) hdefined (Nat.lt_succ_self _)] at hmap
  obtain rfl := congrArg Prod.fst (Except.ok.inj hmap)
  obtain ⟨htriggers, hequal⟩ := (assignAll_graphMatches_iff hgraphs).mp hfound
  exact ⟨hfits, htriggers, hdefined, hequal⟩

end ReadBack

/-- The graphs of the metadata are read back exactly when the script packs them, all their triggers are true, no
graph without cores has its broadcast column looked up, and graphs of one name are equal. The size symbol of the
section is its size. -/
theorem graphs_readBack_iff {graphs : List Members} (partitions : List PartitionConfig)
    (partitionStartColumn : BitVec 32) (hgraphs : ∀ graph ∈ graphs, graphWellFormed graph = true)
    (hsize : ∀ bytes, parseGraphConfig (graphs.map .object) = some bytes → bytes.length < 2 ^ 32) :
    GraphsReadBack graphs partitions partitionStartColumn ↔
      (∀ graph ∈ graphs, recordFits true graphConfigList graph = true) ∧
      (∀ graph ∈ graphs, ∀ trigger ∈ memberTriggers graph, trigger = true) ∧
      (partitions = [] ∨ ∀ graph ∈ graphs, memberInts graph .core_columns ≠ []) ∧
      ∀ graph ∈ graphs, ∀ other ∈ graphs, memberText graph .name = memberText other .name →
        graphFields graph = graphFields other := by
  have hshape (graph : Members) (hmem : graph ∈ graphs) := recordShaped_of_graphWellFormed (hgraphs graph hmem)
  rw [← broadcastDefined_iff hgraphs]
  constructor
  · exact conditions_of_readBack hgraphs hsize
  · rintro ⟨hfits, htriggers, hdefined, hequal⟩
    have hparse := parseGraphConfig_eq hshape
    rw [if_pos (List.all_eq_true.mpr hfits)] at hparse
    refine ⟨_, hparse, ?_⟩
    intro outside fuel hfuel
    exact ⟨_, loadAllGraphs_of_defined hshape hfits (hsize _ hparse) hdefined hfuel,
      (assignAll_graphMatches_iff hgraphs).mpr ⟨htriggers, hequal⟩⟩

def sampleGraph (trigger : Bool) : Members :=
  [(.id, .number 7), (.name, .text ['g']), (.core_columns, .array [.number 2]), (.core_rows, .array [.number 3]),
    (.iteration_memory_columns, .array [.number 2]), (.iteration_memory_rows, .array [.number 3]),
    (.iteration_memory_addresses, .array [.number 0x4000]), (.multirate_triggers, .array [.boolean trigger])]

theorem sampleGraph_size (trigger : Bool) :
    ∀ bytes, parseGraphConfig ([sampleGraph trigger].map .object) = some bytes → bytes.length < 2 ^ 32 := by
  intro bytes hbytes
  have hsmall : (parseGraphConfig ([sampleGraph trigger].map .object)).all (fun bytes => bytes.length < 2 ^ 32) =
    true := by
    cases trigger <;> decide
  rw [hbytes] at hsmall
  simpa using hsmall

/-- A graph whose only trigger is true is read back. -/
theorem graphs_readBack_sample : GraphsReadBack [sampleGraph true] [] 0 :=
  (graphs_readBack_iff [] 0 (by simp; decide) (sampleGraph_size true)).mpr
    ⟨by simp; decide, by simp; decide, .inl rfl, by simp⟩

/-- A graph whose only trigger is false is not read back. -/
theorem false_trigger_not_readBack :
    graphWellFormed (sampleGraph false) = true ∧ ¬GraphsReadBack [sampleGraph false] [] 0 := by
  have hwf : graphWellFormed (sampleGraph false) = true := by decide
  refine ⟨hwf, fun h => ?_⟩
  have hconditions := conditions_of_readBack (by simpa using hwf) (sampleGraph_size false) h
  exact absurd (hconditions.2.1 (sampleGraph false) List.mem_cons_self false (by decide)) (by decide)

end AieBaremetal.Metadata
