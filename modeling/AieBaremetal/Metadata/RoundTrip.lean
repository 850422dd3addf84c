import AieBaremetal.Metadata.Sections

/-!
# The driver, GMIO, PLIO and RTP sections are read back

What the packer writes for these sections the parsers read back, record by record and field by field.
The type of a GMIO is packed in two bytes and kept in one, so it has to be less than 256. The members of
the partition objects are taken in the listed order, on which the parser relies.
-/

namespace AieBaremetal.Metadata

open Common Common.Reader

/-- A configuration has the fields of a GMIO record. -/
structure GmioMatches (record : Members) (config : GmioConfig) : Prop where
  id : config.id.toInt = memberInt record .id
  name : config.name = some (memberText record .name)
  logicalName : config.logicalName = some (memberText record .logical_name)
  type : (config.type.toNat : ℤ) = memberInt record .type
  shimColumn : config.shimColumn.toInt = memberInt record .shim_column
  channelNum : config.channelNum.toInt = memberInt record .channel_number
  streamId : config.streamId.toInt = memberInt record .stream_id
  burstLength : config.burstLength.toInt = memberInt record .burst_length_in_16byte

/-- The GMIO member that is kept without a sign. -/
def gmioUnsigned : List Key := [.type]

variable {record : Members}

theorem readsTo_loadGmio (h : wellFormed gmioConfigList gmioUnsigned record = true)
    (htype : memberInt record .type < 256) :
    ReadsTo loadGmio (recordBytes false gmioConfigList record) (GmioMatches record) := by
  simp only [recordBytes, fetched_false, gmioConfigList, List.map_cons, List.map_nil,
    List.flatten_cons, List.flatten_nil]
  refine (readsTo_i h .id).bind fun _ hid => ?_
  refine (readsTo_text h .name).bind fun _ hname => ?_
  refine (readsTo_text h .logical_name).bind fun _ hlogicalName => ?_
  refine (readsTo_unsigned_h h .type).bind fun gmType hgmType => ?_
  refine (readsTo_h h .shim_column).bind fun _ hshimColumn => ?_
  refine (readsTo_h h .channel_number).bind fun _ hchannelNum => ?_
  refine (readsTo_h h .stream_id).bind fun _ hstreamId => ?_
  refine (readsTo_h h .burst_length_in_16byte).bind fun _ hburstLength => ?_
  have hcut : ((gmType.setWidth 8).toNat : ℤ) = memberInt record .type := by
    rw [BitVec.toNat_setWidth]
    omega
  exact .pure ⟨hid, hname, hlogicalName, hcut, hshimColumn, hchannelNum, hstreamId, hburstLength⟩

/-- A configuration has the fields of a PLIO record. -/
structure PlioMatches (record : Members) (config : PlioConfig) : Prop where
  id : config.id.toInt = memberInt record .id
  name : config.name = some (memberText record .name)
  logicalName : config.logicalName = some (memberText record .logical_name)
  shimColumn : config.shimColumn.toInt = memberInt record .shim_column
  slaveOrMaster : config.slaveOrMaster.toInt = memberInt record .slaveOrMaster
  streamId : config.streamId.toInt = memberInt record .stream_id

theorem readsTo_loadPlio (h : wellFormed plioConfigList [] record = true) :
    ReadsTo loadPlio (recordBytes false plioConfigList record) (PlioMatches record) := by
  simp only [recordBytes, fetched_false, plioConfigList, List.map_cons, List.map_nil,
    List.flatten_cons, List.flatten_nil]
  refine (readsTo_i h .id).bind fun _ hid => ?_
  refine (readsTo_text h .name).bind fun _ hname => ?_
  refine (readsTo_text h .logical_name).bind fun _ hlogicalName => ?_
  refine (readsTo_h h .shim_column).bind fun _ hshimColumn => ?_
  refine (readsTo_h h .slaveOrMaster).bind fun _ hslaveOrMaster => ?_
  refine (readsTo_h h .stream_id).bind fun _ hstreamId => ?_
  exact .pure ⟨hid, hname, hlogicalName, hshimColumn, hslaveOrMaster, hstreamId⟩

/-- A configuration has the fields of an RTP record. -/
structure RtpMatches (record : Members) (config : RtpConfig) : Prop where
  portId : config.portId.toInt = memberInt record .port_id
  aliasId : config.aliasId.toInt = memberInt record .alias_id
  portName : config.portName = some (memberText record .port_name)
  aliasName : config.aliasName = some (memberText record .alias_name)
  graphId : config.graphId.toInt = memberInt record .graph_id
  isInput : config.isInput = (memberInt record .is_input != 0)
  isAsync : config.isAsync = (memberInt record .is_asynchronous != 0)
  isConnect : config.isConnect = (memberInt record .is_connected != 0)
  numBytes : (config.numBytes.toNat : ℤ) = memberInt record .number_of_bytes
  isPL : config.isPL = (memberInt record .is_PL_RTP != 0)
  hasLock : config.hasLock = (memberInt record .requires_lock != 0)
  selectorColumn : config.selectorColumn.toInt = memberInt record .selector_column
  selectorRow : config.selectorRow.toInt = memberInt record .selector_row
  selectorAddr : (config.selectorAddr.toNat : ℤ) = memberInt record .selector_address
  selectorLockId : (config.selectorLockId.toNat : ℤ) = memberInt record .selector_lock_id
  pingColumn : config.pingColumn.toInt = memberInt record .ping_buffer_column
  pingRow : config.pingRow.toInt = memberInt record .ping_buffer_row
  pingAddr : (config.pingAddr.toNat : ℤ) = memberInt record .ping_buffer_address
  pingLockId : (config.pingLockId.toNat : ℤ) = memberInt record .ping_buffer_lock_id
  pongColumn : config.pongColumn.toInt = memberInt record .pong_buffer_column
  pongRow : config.pongRow.toInt = memberInt record .pong_buffer_row
  pongAddr : (config.pongAddr.toNat : ℤ) = memberInt record .pong_buffer_address
  pongLockId : (config.pongLockId.toNat : ℤ) = memberInt record .pong_buffer_lock_id

/-- The RTP members that are kept without a sign. -/
def rtpUnsigned : List Key :=
  [.number_of_bytes, .selector_address, .selector_lock_id, .ping_buffer_address, .ping_buffer_lock_id,
    .pong_buffer_address, .pong_buffer_lock_id]

/-- A well-formed RTP record is read to its end with every field. -/
theorem readsTo_loadRtp (h : wellFormed rtpConfigList rtpUnsigned record = true) :
    ReadsTo loadRtp (recordBytes false rtpConfigList record) (RtpMatches record) := by
  simp only [recordBytes, fetched_false, rtpConfigList, List.map_cons, List.map_nil,
    List.flatten_cons, List.flatten_nil]
  refine (readsTo_i h .port_id).bind fun _ hportId => ?_
  refine (readsTo_i h .alias_id).bind fun _ haliasId => ?_
  refine (readsTo_text h .port_name).bind fun _ hportName => ?_
  refine (readsTo_text h .alias_name).bind fun _ haliasName => ?_
  refine (readsTo_i h .graph_id).bind fun _ hgraphId => ?_
  refine (readsTo_flag h .is_input).bind fun _ hisInput => ?_
  refine (readsTo_flag h .is_asynchronous).bind fun _ hisAsync => ?_
  refine (readsTo_flag h .is_connected).bind fun _ hisConnect => ?_
  refine (readsTo_unsigned_i h .number_of_bytes).bind fun _ hnumBytes => ?_
  refine (readsTo_flag h .is_PL_RTP).bind fun _ hisPL => ?_
  refine (readsTo_flag h .requires_lock).bind fun _ hhasLock => ?_
  refine (readsTo_h h .selector_column).bind fun _ hselectorColumn => ?_
  refine (readsTo_h h .selector_row).bind fun _ hselectorRow => ?_
  refine (readsTo_unsigned_i h .selector_address).bind fun _ hselectorAddr => ?_
  refine (readsTo_unsigned_h h .selector_lock_id).bind fun _ hselectorLockId => ?_
  refine (readsTo_h h .ping_buffer_column).bind fun _ hpingColumn => ?_
  refine (readsTo_h h .ping_buffer_row).bind fun _ hpingRow => ?_
  refine (readsTo_unsigned_i h .ping_buffer_address).bind fun _ hpingAddr => ?_
  refine (readsTo_unsigned_h h .ping_buffer_lock_id).bind fun _ hpingLockId => ?_
  refine (readsTo_h h .pong_buffer_column).bind fun _ hpongColumn => ?_
  refine (readsTo_h h .pong_buffer_row).bind fun _ hpongRow => ?_
  refine (readsTo_unsigned_i h .pong_buffer_address).bind fun _ hpongAddr => ?_
  refine (readsTo_unsigned_h h .pong_buffer_lock_id).bind fun _ hpongLockId => ?_
  exact .pure ⟨hportId, haliasId, hportName, haliasName, hgraphId, hisInput, hisAsync, hisConnect, hnumBytes, hisPL,
    hhasLock, hselectorColumn, hselectorRow, hselectorAddr, hselectorLockId, hpingColumn, hpingRow, hpingAddr,
    hpingLockId, hpongColumn, hpongRow, hpongAddr, hpongLockId⟩

/-- A configuration has the fields of the driver section. -/
structure DriverMatches (record : Members) (config : DriverConfig) : Prop where
  hwGen : (config.hwGen.toNat : ℤ) = memberInt record .hw_gen
  baseAddress : (config.baseAddress.toNat : ℤ) = memberInt record .base_address
  columnShift : (config.columnShift.toNat : ℤ) = memberInt record .column_shift
  rowShift : (config.rowShift.toNat : ℤ) = memberInt record .row_shift
  numColumns : (config.numColumns.toNat : ℤ) = memberInt record .num_columns
  numRows : (config.numRows.toNat : ℤ) = memberInt record .num_rows
  shimRow : (config.shimRow.toNat : ℤ) = memberInt record .shim_row
  memRowStart : (config.memRowStart.toNat : ℤ) = memberInt record .mem_tile_row_start
  memNumRows : (config.memNumRows.toNat : ℤ) = memberInt record .mem_tile_num_rows
  aieTileRowStart : (config.aieTileRowStart.toNat : ℤ) = memberInt record .aie_tile_row_start
  aieTileNumRows : (config.aieTileNumRows.toNat : ℤ) = memberInt record .aie_tile_num_rows
  partitionNumCols : (config.partitionNumCols.toNat : ℤ) = memberInt record .partition_num_cols
  partitionOverlayStartCols :
    config.partitionOverlayStartCols.map BitVec.toInt = memberInts record .partition_overlay_start_cols

theorem readsTo_loadDriverHeader (h : wellFormed hwConfigsList [] record = true) :
    ReadsTo loadDriverHeader (recordBytes false hwConfigsList record) (DriverMatches record) := by
  simp only [recordBytes, fetched_false, hwConfigsList, List.map_cons, List.map_nil,
    List.flatten_cons, List.flatten_nil]
  refine (readsTo_B h .hw_gen).bind fun _ hgen => ?_
  refine (readsTo_Q h .base_address).bind fun _ hbase => ?_
  refine (readsTo_B h .column_shift).bind fun _ hcolumnShift => ?_
  refine (readsTo_B h .row_shift).bind fun _ hrowShift => ?_
  refine (readsTo_B h .num_columns).bind fun _ hcolumns => ?_
  refine (readsTo_B h .num_rows).bind fun _ hrows => ?_
  refine (readsTo_B h .shim_row).bind fun _ hshimRow => ?_
  refine (readsTo_B h .mem_tile_row_start).bind fun _ hmemStart => ?_
  refine (readsTo_B h .mem_tile_num_rows).bind fun _ hmemRows => ?_
  refine (readsTo_B h .aie_tile_row_start).bind fun _ haieStart => ?_
  refine (readsTo_B h .aie_tile_num_rows).bind fun _ haieRows => ?_
  refine (readsTo_B h .partition_num_cols).bind fun _ hpartition => ?_
  refine readsTo_shorts h .partition_overlay_start_cols fun _ hoverlay => ?_
  exact .pure ⟨hgen, hbase, hcolumnShift, hrowShift, hcolumns, hrows, hshimRow, hmemStart,
    hmemRows, haieStart, haieRows,
    hpartition, hoverlay⟩

structure PartitionRecord where
  startColumn : Json
  numColumns : Json
  uuid : List Char
  aiePlIntfId : List Char
  nameSpace : List Char

def PartitionRecord.toJson (p : PartitionRecord) : Json :=
  .object [(.startColumn, p.startColumn), (.numColumns, p.numColumns), (.uuid, .text p.uuid),
    (.aie_pl_intf_id, .text p.aiePlIntfId), (.name_space, .text p.nameSpace)]

/-- The partition data, in the order of `PARTITIONCONFIG`. -/
structure AiePartitionRecord where
  startColumn : Json
  numColumns : Json
  partitions : List PartitionRecord

def AiePartitionRecord.members (p : AiePartitionRecord) : Members :=
  [(.startColumn, p.startColumn), (.numColumns, p.numColumns),
    (.partitions, .array (p.partitions.map PartitionRecord.toJson))]

/-- Whether a number was found and fits 32 bits. -/
def isUInt32 : Option ℤ → Bool
  | some n => 0 ≤ n && n < 2 ^ 32
  | none => false

/-- Whether a string is packed character by character. -/
def isName (s : List Char) : Bool := s.all isAscii && s.length ≤ nameMaxLen

/-- A partition with numbers in range and short ASCII names. -/
def PartitionRecord.wellFormed (p : PartitionRecord) : Bool :=
  isUInt32 (pyInt p.startColumn) && isUInt32 (pyInt p.numColumns) && isName p.uuid &&
    isUInt32 (pyHex (.text p.aiePlIntfId)) && isName p.nameSpace

def AiePartitionRecord.wellFormed (p : AiePartitionRecord) : Bool :=
  isUInt32 (pyInt p.startColumn) && isUInt32 (pyInt p.numColumns) && p.partitions.length < 2 ^ 31 &&
    p.partitions.all PartitionRecord.wellFormed

structure PartitionMatches (p : PartitionRecord) (config : PartitionConfig) : Prop where
  startColumn : pyInt p.startColumn = some (config.startColumn.toNat : ℤ)
  numColumns : pyInt p.numColumns = some (config.numColumns.toNat : ℤ)
  uuid : config.uuid = some (asciiBytes p.uuid)
  aiePlIntfId : pyHex (.text p.aiePlIntfId) = some (config.aiePlIntfId.toNat : ℤ)
  nameSpace : config.nameSpace = some (asciiBytes p.nameSpace)

/-- The driver section is read back, with the cursor where the packer ended the fixed part and every partition. -/
def DriverReadBack (driver : Members) : Option AiePartitionRecord → Prop
  | none => ∃ header, (packFields false hwConfigsList driver).bind structPack = some header ∧
      parseDriverConfig (.object driver) = some header ∧
      (header.length < 2 ^ 32 → ∀ outside, ∃ config,
        loadDriverConfig (BitVec.ofNat 32 header.length) (sectionMemory outside header) 0 =
          .ok (((config, header.length), []), header.length) ∧
        DriverMatches driver config)
  | some data => ∃ header top chunks, (packFields false hwConfigsList driver).bind structPack = some header ∧
      (memberItems (aiePartitionItems data.partitions.length) data.members).bind structPack = some top ∧
      List.Forall₂ (fun p chunk => parsePartition p.toJson = some chunk) data.partitions chunks ∧
      parseDriverConfig (.object driver) = some (header ++ top ++ chunks.flatten) ∧
      ((header ++ top ++ chunks.flatten).length < 2 ^ 32 → ∀ outside, ∃ config configs,
        loadDriverConfig (BitVec.ofNat 32 (header ++ top ++ chunks.flatten).length)
            (sectionMemory outside (header ++ top ++ chunks.flatten)) 0 =
          .ok (((config, header.length), configs.zip (boundaries (header ++ top).length chunks)),
            (header ++ top ++ chunks.flatten).length) ∧
        DriverMatches driver config ∧ List.Forall₂ PartitionMatches data.partitions configs)

theorem readBack_uint32 {n? : Option ℤ} (h : isUInt32 n? = true) :
    ReadBack ((n?.bind fun n => some [Item.value .I (.number n)]).bind structPack) unpackUInt32
      fun x => n? = some (x.toNat : ℤ) := by
  cases n? with
  | none => exact absurd h (by decide)
  | some n =>
    rw [isUInt32, Bool.and_eq_true, decide_eq_true_eq, decide_eq_true_eq] at h
    exact readBack_int 3 (structPack_I h.1 h.2) (congrArg some (toNat_unsigned h.1 h.2).symm)

theorem readBack_string {s : List Char} (h : isName s = true) :
    ReadBack (((stringItems (.text s)).map Prod.fst).bind structPack) unpackString (· = some (asciiBytes s)) := by
  rw [isName, Bool.and_eq_true, decide_eq_true_eq] at h
  have hitems : (stringItems (.text s)).map Prod.fst =
      some [.value .i (.number s.length), .bytes s.length (encodeUtf8 s)] := by
    simp [stringItems, Json.str, getNameLen, h.2]
  rw [hitems]
  exact ⟨_, List.append_ne_nil_of_left_ne_nil (intBytes_ne_nil 3 _) _, structPack_text h.1 h.2, _,
    reads_unpackString_text h.2, rfl⟩

theorem parsePartition_toJson {p : PartitionRecord} (h : p.wellFormed = true) :
    ReadBack (parsePartition p.toJson) loadPartition (PartitionMatches p) := by
  simp only [PartitionRecord.wellFormed, Bool.and_eq_true] at h
  obtain ⟨⟨⟨⟨hstart, hnum⟩, huuid⟩, hintf⟩, hspace⟩ := h
  obtain ⟨_, hne, hstart, hstartRead⟩ := readBack_uint32 hstart
  obtain ⟨_, -, hnum, hnumRead⟩ := readBack_uint32 hnum
  obtain ⟨_, -, huuid, huuidRead⟩ := readBack_string huuid
  obtain ⟨_, -, hintf, hintfRead⟩ := readBack_uint32 hintf
  obtain ⟨_, -, hspace, hspaceRead⟩ := readBack_string hspace
  refine ⟨_, List.append_ne_nil_of_left_ne_nil hne _,
    memberItems_structPack (.cons hstart (.cons hnum (.cons huuid (.cons hintf (.cons hspace .nil))))), ?_⟩
  refine hstartRead.bind fun _ hstart => hnumRead.bind fun _ hnum => huuidRead.bind fun _ huuid => ?_
  refine hintfRead.bind fun _ hintf => hspaceRead.bind fun _ hspace => ?_
  exact .pure ⟨hstart, hnum, huuid, hintf, hspace⟩

theorem parsePartitions_toJson {ps : List PartitionRecord} {chunks : List (List UInt8)}
    (h : List.Forall₂ (fun p chunk => parsePartition (PartitionRecord.toJson p) = some chunk) ps chunks) :
    parsePartitions (ps.map PartitionRecord.toJson) = some chunks.flatten := by
  induction h with
  | nil => rfl
  | cons hfirst _ ih => simp [parsePartitions, hfirst, ih]

theorem aiePartitionItems_structPack {data : AiePartitionRecord} (h : data.wellFormed = true) :
    ∃ start num, (memberItems (aiePartitionItems data.partitions.length) data.members).bind structPack =
      some (intBytes 4 start ++ (intBytes 4 num ++ intBytes 4 data.partitions.length)) := by
  have hword {n? : Option ℤ} (h : isUInt32 n? = true) :
      ∃ n, (n?.bind fun n => some [Item.value .I (.number n)]).bind structPack = some (intBytes 4 n) := by
    cases n? with
    | none => exact absurd h (by decide)
    | some n =>
      rw [isUInt32, Bool.and_eq_true, decide_eq_true_eq, decide_eq_true_eq] at h
      exact ⟨n, structPack_I h.1 h.2⟩
  simp only [AiePartitionRecord.wellFormed, Bool.and_eq_true, decide_eq_true_eq] at h
  obtain ⟨⟨⟨hstart, hnum⟩, hcount⟩, -⟩ := h
  obtain ⟨start, hstart⟩ := hword hstart
  obtain ⟨num, hnum⟩ := hword hnum
  have hlength : structPack [.value .i (.number data.partitions.length)] =
    some (intBytes 4 data.partitions.length) := by
    rw [structPack_cons_of_some _ (packItem_length hcount)]
    simp [structPack]
  have hpack : (memberItems (aiePartitionItems data.partitions.length) data.members).bind structPack = some _ :=
    memberItems_structPack (.cons hstart (.cons hnum (.cons hlength .nil)))
  exact ⟨start, num, by simpa using hpack⟩

theorem loadPartitions_of_holds {start num : ℤ} {chunks : List (List UInt8)} {configs : List PartitionConfig}
    {mem : ℤ → UInt8} {cursor : ℤ} (h : List.Forall₂ (Reads loadPartition) chunks configs)
    (hcount : chunks.length < 2 ^ 31)
    (hmem : Holds mem cursor (intBytes 4 start ++ (intBytes 4 num ++ intBytes 4 chunks.length) ++ chunks.flatten)) :
    loadPartitions mem cursor =
      .ok (configs.zip (boundaries (cursor + 12) chunks), cursor + 12 + chunks.flatten.length) := by
  obtain ⟨htop, hrest⟩ := holds_append.mp hmem
  obtain ⟨hstart, htop⟩ := holds_append.mp htop
  obtain ⟨hnum, hlength⟩ := holds_append.mp htop
  have hword {n cursor : ℤ} (hn : Holds mem cursor (intBytes 4 n)) :
      unpackUInt32 mem cursor = .ok (BitVec.ofInt 32 n, cursor + 4) := by
    have hread : unpackUInt32 mem cursor = _ := reads_unpackValue 4 n mem cursor hn
    rwa [intBytes_length] at hread
  have htimes := (readsFrom_of_forall₂ h hrest).marked.times
  have hturns : (BitVec.ofInt 32 (chunks.length : ℤ)).toInt.toNat = chunks.length := by
    rw [toInt_length hcount, Int.toNat_natCast]
  simp only [List.length_append, intBytes_length, Nat.cast_add, Nat.cast_ofNat, ← add_assoc] at hnum hlength htimes
  rw [loadPartitions, bind_of_ok _ (hword hstart), bind_of_ok _ (hword hnum), bind_of_ok _ (hword hlength), hturns,
    htimes, add_assoc cursor, add_assoc cursor]
  rfl

section Driver

variable {driver : Members} {header : List UInt8} {config : DriverConfig}

theorem parseDriverConfig_none (hheader : (packFields false hwConfigsList driver).bind structPack = some header)
    (hne : driver ≠ []) (hdata : partitionData driver = some none) :
    parseDriverConfig (.object driver) = some header := by
  have htruthy : (Json.object driver).truthy = true := by simpa [Json.truthy] using hne
  obtain ⟨items, hitems, hpack⟩ := Option.bind_eq_some_iff.mp hheader
  simp [parseDriverConfig, htruthy, Json.members, hitems, hpack, hdata]

theorem parseDriverConfig_some (hheader : (packFields false hwConfigsList driver).bind structPack = some header)
    (hne : driver ≠ []) {data : Json} {tail : List UInt8}
    (hdata : partitionData driver = some (some data)) (htail : parseAIEPartitionConfig data = some tail) :
    parseDriverConfig (.object driver) = some (header ++ tail) := by
  have htruthy : (Json.object driver).truthy = true := by simpa [Json.truthy] using hne
  obtain ⟨items, hitems, hpack⟩ := Option.bind_eq_some_iff.mp hheader
  simp [parseDriverConfig, htruthy, Json.members, hitems, hpack, hdata, htail]

theorem marked_loadDriverHeader (hread : Reads loadDriverHeader header config) {mem : ℤ → UInt8}
    (hmem : Holds mem 0 header) : marked loadDriverHeader mem 0 = .ok ((config, header.length), header.length) := by
  simpa using marked_of_ok (hread mem 0 hmem)

theorem loadDriverConfig_some (hread : Reads loadDriverHeader header config) {start num : ℤ}
    {chunks : List (List UInt8)} {configs : List PartitionConfig} {bytes : List UInt8} (outside : ℤ → UInt8)
    (hreads : List.Forall₂ (Reads loadPartition) chunks configs) (hcount : chunks.length < 2 ^ 31)
    (hsize : bytes.length < 2 ^ 32)
    (hbytes : bytes = header ++
      (intBytes 4 start ++ (intBytes 4 num ++ intBytes 4 chunks.length) ++ chunks.flatten)) :
    loadDriverConfig (BitVec.ofNat 32 bytes.length) (sectionMemory outside bytes) 0 =
      .ok (((config, header.length), configs.zip (boundaries (header.length + 12) chunks)), bytes.length) := by
  have hmem := holds_sectionMemory outside bytes
  rw [hbytes] at hmem
  obtain ⟨hheader, hrest⟩ := holds_append.mp hmem
  rw [zero_add] at hrest
  have hlength : bytes.length = header.length + 12 + chunks.flatten.length := by
    rw [hbytes]
    simp only [List.length_append, intBytes_length]
    omega
  have hinside := insideSection_of_lt hsize (Int.natCast_nonneg header.length) (by omega)
  rw [hbytes] at hinside ⊢
  rw [loadDriverConfig, bind_of_ok _ (marked_loadDriverHeader hread hheader)]
  simp only [hinside, if_true]
  rw [bind_of_ok _ (loadPartitions_of_holds hreads hcount hrest), ← hbytes, hlength]
  rfl

/-- A driver section is read back, with or without partitions. -/
theorem driverReadBack (hdriver : wellFormed hwConfigsList [] driver = true) (hne : driver ≠ [])
    {partitions : Option AiePartitionRecord} (hwf : ∀ data ∈ partitions, data.wellFormed = true)
    (hdata : partitionData driver = some (partitions.map fun data => .object data.members)) :
    DriverReadBack driver partitions := by
  obtain ⟨config, hread, hmatches⟩ := readsTo_loadDriverHeader hdriver
  have hheader : (packFields false hwConfigsList driver).bind structPack =
    some (recordBytes false hwConfigsList driver) := by
    simp only [wellFormed, Bool.and_eq_true] at hdriver
    rw [packFields_structPack (by decide) hdriver.1.1, if_pos hdriver.1.2]
  generalize recordBytes false hwConfigsList driver = header at hread hheader
  cases partitions with
  | none =>
    refine ⟨header, hheader, parseDriverConfig_none hheader hne hdata, fun hsize outside => ⟨config, ?_, hmatches⟩⟩
    rw [loadDriverConfig, bind_of_ok _ (marked_loadDriverHeader hread (holds_sectionMemory outside _)),
      insideSection_end hsize]
    rfl
  | some data =>
    have hwf := hwf data rfl
    obtain ⟨start, num, htop⟩ := aiePartitionItems_structPack hwf
    simp only [AiePartitionRecord.wellFormed, Bool.and_eq_true, decide_eq_true_eq] at hwf
    obtain ⟨chunks, configs, hpacks, -, hreads, hfields⟩ := chunks_of_readBack fun p hp =>
      parsePartition_toJson (List.all_eq_true.mp hwf.2 p hp)
    have hcount : data.partitions.length = chunks.length := hpacks.length_eq
    have htail : parseAIEPartitionConfig (.object data.members) =
        some (intBytes 4 start ++ (intBytes 4 num ++ intBytes 4 data.partitions.length) ++ chunks.flatten) := by
      obtain ⟨items, hitems, hpack⟩ := Option.bind_eq_some_iff.mp htop
      have hlookup : data.members.lookup .partitions = some (.array (data.partitions.map PartitionRecord.toJson)) :=
        rfl
      simp only [parseAIEPartitionConfig, Json.members, Option.bind_eq_bind, Option.bind_some, hlookup,
        List.length_map, hitems, hpack, parsePartitions_toJson hpacks]
    refine ⟨header, _, chunks, hheader, htop, hpacks, ?_, fun hsize outside =>
      ⟨config, configs, ?_, hmatches, hfields⟩⟩
    · rw [parseDriverConfig_some hheader hne hdata htail, List.append_assoc header]
    · have hrun := loadDriverConfig_some hread outside hreads (hcount ▸ hwf.1.2) hsize
        (by rw [List.append_assoc header, hcount])
      rw [hrun]
      simp

end Driver

/-- The four sections are read back record by record and field by field, with the cursor at the end of each
record. GMIO and PLIO sections end at the first empty record, and the RTP section leaves out what is `None`. -/
theorem metadataSections_readBack {driver : Members} {partitions : Option AiePartitionRecord}
    {gmiodata pliodata rtpdata : List Json} {gmios plios rtps : List Members}
    (hne : driver ≠ []) (hdriver : wellFormed hwConfigsList [] driver = true)
    (hdata : partitionData driver = some (partitions.map fun data => .object data.members))
    (hpartitions : ∀ data ∈ partitions, data.wellFormed = true)
    (hgmiodata : gmiodata.takeWhile Json.truthy = gmios.map .object)
    (hgmios : ∀ gmio ∈ gmios, wellFormed gmioConfigList gmioUnsigned gmio = true)
    (htypes : ∀ gmio ∈ gmios, memberInt gmio .type < 256)
    (hpliodata : pliodata.takeWhile Json.truthy = plios.map .object)
    (hplios : ∀ plio ∈ plios, wellFormed plioConfigList [] plio = true)
    (hrtpdata : rtpdata.filter nonNull = rtps.map .object)
    (hrtps : ∀ rtp ∈ rtps, wellFormed rtpConfigList rtpUnsigned rtp = true) :
    DriverReadBack driver partitions ∧
      SectionReadBack (parseGmiosConfig gmiodata) gmioConfigList loadGmio GmioMatches gmios ∧
      SectionReadBack (parsePliosConfig pliodata) plioConfigList loadPlio PlioMatches plios ∧
      SectionReadBack (parseRtpsConfig rtpdata) rtpConfigList loadRtp RtpMatches rtps := by
  refine ⟨?_, ?_, ?_, ?_⟩
  · exact driverReadBack hdriver hne hpartitions hdata
  · have hfile : parseGmiosConfig gmiodata = (packRecords false gmioConfigList gmios).bind structPack := by
      rw [← packUntilEmpty_eq hgmiodata]
      rfl
    exact sectionReadBack (by decide) rfl hfile hgmios fun gmio hmem =>
      readsTo_loadGmio (hgmios gmio hmem) (htypes gmio hmem)
  · have hfile : parsePliosConfig pliodata = (packRecords false plioConfigList plios).bind structPack := by
      rw [← packUntilEmpty_eq hpliodata]
      rfl
    exact sectionReadBack (by decide) rfl hfile hplios fun plio hmem => readsTo_loadPlio (hplios plio hmem)
  · have hfile : parseRtpsConfig rtpdata = (packRecords false rtpConfigList rtps).bind structPack := by
      rw [← packNonNull_eq hrtpdata]
      rfl
    exact sectionReadBack (by decide) rfl hfile hrtps fun rtp hmem => readsTo_loadRtp (hrtps rtp hmem)

def samplePartitions : AiePartitionRecord where
  startColumn := .number 0
  numColumns := .text ['8']
  partitions := [{ startColumn := .number 0, numColumns := .number 4, uuid := ['a', '1'],
                   aiePlIntfId := ['0', 'x', '1', 'F'], nameSpace := ['p'] }]

def sampleDriver : Members :=
  [(.hw_gen, .number 5), (.base_address, .number 0x20000000000),
    (.partition_overlay_start_cols, .array [.number (-1)]),
    (.aie_partition_json, .object [(.AIE, .object [(.ai_engine_0, .object samplePartitions.members)])])]

def sampleGmio (type : ℤ) : Members := [(.id, .number 3), (.name, .text ['g', 'm']), (.type, .number type)]

def sampleRtp : Members :=
  [(.port_id, .number 1), (.port_name, .text ['i', 'n']), (.alias_name, .text ['a']), (.is_input, .boolean true),
    (.selector_address, .number 4096)]

def samplePlio (id slaveOrMaster : ℤ) : Members :=
  [(.id, .number id), (.name, .text ['p', 'l']), (.logical_name, .text []), (.slaveOrMaster, .number slaveOrMaster)]

/-- Partitions, GMIOs up to an empty record, PLIOs, and RTPs between records that are `None` are read back. -/
theorem metadataSections_readBack_sample :
    DriverReadBack sampleDriver (some samplePartitions) ∧
      SectionReadBack
        (parseGmiosConfig [.object (sampleGmio 1), .object (sampleGmio 0), .object [], .object (sampleGmio 2)])
        gmioConfigList loadGmio GmioMatches [sampleGmio 1, sampleGmio 0] ∧
      SectionReadBack (parsePliosConfig [.object (samplePlio 0 1), .object (samplePlio 1 0)])
        plioConfigList loadPlio
        PlioMatches [samplePlio 0 1, samplePlio 1 0] ∧
      SectionReadBack (parseRtpsConfig [.null, .object sampleRtp, .null, .object (sampleRtp.take 2)]) rtpConfigList
        loadRtp
        RtpMatches [sampleRtp, sampleRtp.take 2] :=
  metadataSections_readBack (List.cons_ne_nil _ _) (by decide) rfl (by simp [samplePartitions]; decide) rfl
    (by decide) (by decide) rfl (by decide) rfl (by decide)

/-- A type that fits its code but not the enumeration is not read back. -/
theorem gmio_type_256_not_readBack :
    wellFormed gmioConfigList gmioUnsigned (sampleGmio 256) = true ∧
      ¬SectionReadBack (parseGmiosConfig [.object (sampleGmio 256)]) gmioConfigList loadGmio GmioMatches
        [sampleGmio 256] := by
  refine ⟨by decide, ?_⟩
  rintro ⟨chunks, hchunks, -, hread⟩
  cases hchunks with
  | cons hchunk hnil =>
    cases hnil
    have hbytes : (packFields false gmioConfigList (sampleGmio 256)).bind structPack =
        some (recordBytes false gmioConfigList (sampleGmio 256)) := rfl
    obtain rfl := Option.some.inj (hbytes.symm.trans hchunk)
    obtain ⟨configs, hload, hfields⟩ := hread (by decide) (fun _ => 0) 2 (by decide)
    cases hfields with
    | cons hmatch hnil =>
      cases hnil
      have hrun : loadRecords loadGmio 24 2
          (sectionMemory (fun _ => 0) (recordBytes false gmioConfigList (sampleGmio 256))) 0 =
          .ok ([(⟨3, some [103, 109], some [], 0, 0, 0, 0, 0⟩, 24)], 24) := by decide +kernel
      have hconfig := hrun.symm.trans hload
      have htype := hmatch.type
      simp only [boundaries, List.zip_cons_cons, List.zip_nil_right, Except.ok.injEq, Prod.mk.injEq,
        List.cons.injEq, and_true] at hconfig
      rw [← hconfig.1.1] at htype
      exact absurd htype (by decide)

end AieBaremetal.Metadata
