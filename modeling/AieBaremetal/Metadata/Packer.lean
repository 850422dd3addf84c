import AieBaremetal.Common.LittleEndian

/-!
# The metadata packer

The script `aiemetacpp.py` turns the JSON metadata of a design into binary sections. It collects a format
string and the values, driven by a table of format codes, and packs them in one call of Python's
`struct.pack`, little-endian and without padding. A dictionary is the list of its members in their order,
a section the list of its records; an exception of the script is `none`. Floating-point numbers, the `str`
of arrays and objects, and signs, blanks and underscores in numerals do not occur here.
-/

namespace AieBaremetal.Metadata

open Common

/-- The member names the script knows. -/
inductive Key where
  | broadcast_enable_core | graph_iterator_event | enable_multi_layer | enable_task_complete_token
  | hw_gen | column_shift | row_shift | num_columns | num_rows | shim_row | mem_tile_row_start | mem_tile_num_rows
  | aie_tile_row_start | aie_tile_num_rows | partition_num_cols
  | is_input | is_asynchronous | is_connected | is_PL_RTP | requires_lock | initialized
  | bd_id | buf_idx | offset | task_repetition | direction | portId
  | id | port_id | alias_id | graph_id | number_of_bytes | selector_address | ping_buffer_address
  | pong_buffer_address | producer_lock_ids | consumer_lock_ids
  | partition_overlay_start_cols | core_columns | core_rows | iteration_memory_columns | iteration_memory_rows
  | type | shim_column | channel_number | stream_id | burst_length_in_16byte
  | selector_column | selector_row | selector_lock_id | ping_buffer_column | ping_buffer_row | ping_buffer_lock_id
  | pong_buffer_column | pong_buffer_row | pong_buffer_lock_id | eid | slaveOrMaster | column | row | sid
  | num_inputs | num_outputs
  | transaction_size | base_address | size | address
  | portName | name | logical_name | port_name | alias_name | uuid | name_space
  | iteration_memory_addresses | startColumn | numColumns | aie_pl_intf_id
  | multirate_triggers | shimPortConfigs | shimBDInfos
  | partitions | aie_partition_json | AIE | ai_engine_0
  | unlisted
  deriving DecidableEq, Repr

/-- A JSON value as Python holds it. -/
inductive Json where
  | null
  | number (n : ℤ)
  | boolean (b : Bool)
  | text (s : List Char)
  | array (items : List Json)
  | object (members : List (Key × Json))

abbrev Members := List (Key × Json)

namespace Json

def truthy : Json → Bool
  | null => false
  | number n => n != 0
  | boolean b => b
  | text s => !s.isEmpty
  | array items => !items.isEmpty
  | object members => !members.isEmpty

/-- The integer that `struct` sees; a Boolean is an integer in Python. -/
def asInt : Json → Option ℤ
  | number n => some n
  | boolean b => some (if b then 1 else 0)
  | _ => none

def str : Json → Option (List Char)
  | null => some "None".toList
  | number n => some (toString n).toList
  | boolean b => some (if b then "True" else "False").toList
  | text s => some s
  | _ => none

/-- The members of an object; anything else raises. -/
def members : Json → Option Members
  | object members => some members
  | _ => none

/-- Whether the value is a Python list. -/
def isArray : Json → Bool
  | array _ => true
  | _ => false

end Json

mutual

def convertIfBool : Json → Json
  | .array items => .array (convertIfBoolItems items)
  | .boolean b => .text (if b then "true" else "false").toList
  | v => v

def convertIfBoolItems : List Json → List Json
  | [] => []
  | v :: rest => convertIfBool v :: convertIfBoolItems rest

end

def digitValue (c : Char) : Option ℕ :=
  if '0' ≤ c ∧ c ≤ '9' then some (c.toNat - '0'.toNat)
  else if 'a' ≤ c ∧ c ≤ 'f' then some (c.toNat - 'a'.toNat + 10)
  else if 'A' ≤ c ∧ c ≤ 'F' then some (c.toNat - 'A'.toNat + 10)
  else none

def digitsValue (base : ℕ) : ℕ → List Char → Option ℕ
  | acc, [] => some acc
  | acc, c :: rest => do
    let d ← digitValue c
    if d < base then digitsValue base (acc * base + d) rest else none

/-- Python's `int` of a numeral. -/
def numeralValue (base : ℕ) (digits : List Char) : Option ℤ :=
  if digits.isEmpty then none else (digitsValue base 0 digits).map Int.ofNat

/-- Python's `int(value)`. -/
def pyInt : Json → Option ℤ
  | .text digits => numeralValue 10 digits
  | v => v.asInt

/-- `int(value, 16)`, which takes only a string. -/
def pyHex : Json → Option ℤ
  | .text ('0' :: 'x' :: digits) => numeralValue 16 digits
  | .text ('0' :: 'X' :: digits) => numeralValue 16 digits
  | .text digits => numeralValue 16 digits
  | _ => none

/-- The codes of the table; `bool` is the code `?`. -/
inductive Code where
  | B | i | h | Q | s | I | bool | P | D | HEX
  deriving DecidableEq, Repr

def encodingToKeyMap : List (Code × List Key) :=
  [(.B, [.broadcast_enable_core, .graph_iterator_event, .enable_multi_layer, .enable_task_complete_token, .hw_gen,
      .column_shift, .row_shift, .num_columns, .num_rows, .shim_row, .mem_tile_row_start, .mem_tile_num_rows,
      .aie_tile_row_start, .aie_tile_num_rows, .partition_num_cols, .is_input, .is_asynchronous, .is_connected,
      .is_PL_RTP, .requires_lock, .initialized]),
    (.i, [.bd_id, .buf_idx, .offset, .task_repetition, .direction, .portId, .id, .port_id, .alias_id, .graph_id,
      .number_of_bytes, .selector_address, .ping_buffer_address, .pong_buffer_address, .producer_lock_ids,
      .consumer_lock_ids]),
    (.h, [.partition_overlay_start_cols, .core_columns, .core_rows, .iteration_memory_columns,
      .iteration_memory_rows, .type, .shim_column, .channel_number, .stream_id, .burst_length_in_16byte,
      .selector_column, .selector_row, .selector_lock_id, .ping_buffer_column, .ping_buffer_row,
      .ping_buffer_lock_id, .pong_buffer_column, .pong_buffer_row, .pong_buffer_lock_id, .eid, .shim_column,
      .channel_number, .slaveOrMaster, .column, .row, .sid, .num_inputs, .num_outputs]),
    (.Q, [.transaction_size, .base_address, .size, .address]),
    (.s, [.portName, .name, .logical_name, .port_name, .alias_name, .uuid, .name_space]),
    (.I, [.iteration_memory_addresses, .startColumn, .numColumns, .aie_pl_intf_id]),
    (.bool, [.multirate_triggers]), (.P, [.shimPortConfigs]), (.D, [.shimBDInfos]), (.HEX, [.aie_pl_intf_id])]

/-- The members listed under a code. -/
def keysOf (code : Code) : List Key := (encodingToKeyMap.lookup code).getD []

/-- `KEYTOENCODINGMAP`: the first code that lists a member. -/
def keyToEncodingMap (key : Key) : Option Code := (encodingToKeyMap.find? fun entry => key ∈ entry.2).map Prod.fst

def vectors : List Key :=
  [.partition_overlay_start_cols, .core_columns, .core_rows, .iteration_memory_columns, .iteration_memory_rows,
    .multirate_triggers, .shimPortConfigs, .shimBDInfos, .partitions, .address, .producer_lock_ids,
    .consumer_lock_ids]

/-- `HWCONFIGSLIST` without `aie_partition_json`. -/
def hwConfigsList : List Key :=
  [.hw_gen, .base_address, .column_shift, .row_shift, .num_columns, .num_rows, .shim_row, .mem_tile_row_start,
    .mem_tile_num_rows, .aie_tile_row_start, .aie_tile_num_rows, .partition_num_cols, .partition_overlay_start_cols]

def graphConfigList : List Key :=
  [.id, .name, .core_columns, .core_rows, .iteration_memory_columns, .iteration_memory_rows,
    .iteration_memory_addresses, .multirate_triggers]

def gmioConfigList : List Key :=
  [.id, .name, .logical_name, .type, .shim_column, .channel_number, .stream_id, .burst_length_in_16byte]

def plioConfigList : List Key := [.id, .name, .logical_name, .shim_column, .slaveOrMaster, .stream_id]

def rtpConfigList : List Key :=
  [.port_id, .alias_id, .port_name, .alias_name, .graph_id, .is_input, .is_asynchronous, .is_connected,
    .number_of_bytes, .is_PL_RTP, .requires_lock, .selector_column, .selector_row, .selector_address,
    .selector_lock_id, .ping_buffer_column, .ping_buffer_row, .ping_buffer_address, .ping_buffer_lock_id,
    .pong_buffer_column, .pong_buffer_row, .pong_buffer_address, .pong_buffer_lock_id]

/-- An element of a format string and its value. -/
inductive Item where
  | value (code : Code) (v : Json)
  | bytes (count : ℕ) (data : List UInt8)

/-- Width in bytes and bounds of an integer code. -/
def Code.range : Code → Option (ℕ × ℤ × ℤ)
  | .B => some (1, 0, 2 ^ 8 - 1)
  | .i => some (4, -2 ^ 31, 2 ^ 31 - 1)
  | .h => some (2, -2 ^ 15, 2 ^ 15 - 1)
  | .Q => some (8, 0, 2 ^ 64 - 1)
  | .I => some (4, 0, 2 ^ 32 - 1)
  | _ => none

def intBytes (width : ℕ) (n : ℤ) : List UInt8 := leBytes width (n % 256 ^ width).toNat

/-- The bytes of one element; values of another type or out of bounds are refused. -/
def packItem : Item → Option (List UInt8)
  | .value .bool v => some [if v.truthy then 1 else 0]
  | .value code v => do
    let (width, low, high) ← code.range
    let n ← v.asInt
    if low ≤ n ∧ n ≤ high then some (intBytes width n) else none
  | .bytes count data => some (data.take count ++ List.replicate (count - data.length) 0)

/-- `struct.pack` with the byte order `<`. -/
def structPack : List Item → Option (List UInt8)
  | [] => some []
  | item :: rest => do
    let front ← packItem item
    let back ← structPack rest
    some (front ++ back)

def nameMaxLen : ℕ := 1024

/-- `get_name_len`, with its assertion. -/
def getNameLen (name : List Char) : Option ℕ := if name.length ≤ nameMaxLen then some name.length else none

def encodeUtf8 (s : List Char) : List UInt8 := s.flatMap String.utf8EncodeChar

/-- What `get` gives for a member that is missing. -/
def defaultOf (key : Key) : Json :=
  if key ∈ vectors then .array [.number 0, .number 1, .number 2, .number 3]
  else if key ∈ keysOf .s then .text []
  else .number 0

/-- `get` with the default of the member. -/
def member (record : Members) (key : Key) : Json := (record.lookup key).getD (defaultOf key)

/-- The value of a member; `ParseGraphConfig` converts the Booleans of its vectors. -/
def fetched (convert : Bool) (record : Members) (key : Key) : Json :=
  if convert = true ∧ key ∈ vectors then convertIfBool (member record key) else member record key

def stringItems (value : Json) : Option (List Item × List Char) := do
  let values ← value.str
  let lenS ← getNameLen values
  some ([.value .i (.number values.length), .bytes lenS (encodeUtf8 (values.take lenS))], values)

/-- A turn of the loop over the members. `values` keeps what it held before when the member is a string, and the
test for a list looks at it. -/
def packKey (convert : Bool) (record : Members) (values : Json) (key : Key) : Option (List Item × Json) :=
  let values := if key ∈ keysOf .s then values else fetched convert record key
  match values with
  | .array items => do
    let code ← keyToEncodingMap key
    some (.value .i (.number items.length) :: items.map (Item.value code), values)
  | _ =>
    if key ∈ keysOf .s then do
      let (items, text) ← stringItems (member record key)
      some (items, .text text)
    else do
      let code ← keyToEncodingMap key
      some ([.value code values], values)

/-- The loop over the members of a record. -/
def packKeys (convert : Bool) (record : Members) : Json → List Key → Option (List Item)
  | _, [] => some []
  | values, key :: rest => do
    let (items, values) ← packKey convert record values key
    let more ← packKeys convert record values rest
    some (items ++ more)

/-- The elements of a record, which starts with a number. -/
def packFields (convert : Bool) (keys : List Key) (record : Members) : Option (List Item) :=
  packKeys convert record .null keys

/-- The loop of `ParseGmiosConfig` and `ParsePliosConfig`, up to the first empty record. -/
def packUntilEmpty (keys : List Key) : List Json → Option (List Item)
  | [] => some []
  | config :: rest =>
    if config.truthy then do
      let record ← config.members
      let items ← packFields false keys record
      let more ← packUntilEmpty keys rest
      some (items ++ more)
    else some []

def parseGmiosConfig (gmiodata : List Json) : Option (List UInt8) := do
  let items ← packUntilEmpty gmioConfigList gmiodata
  structPack items

def parsePliosConfig (pliodata : List Json) : Option (List UInt8) := do
  let items ← packUntilEmpty plioConfigList pliodata
  structPack items

/-- The loop of `ParseRtpsConfig`, which skips `None`. -/
def packNonNull (keys : List Key) : List Json → Option (List Item)
  | [] => some []
  | .null :: rest => packNonNull keys rest
  | config :: rest => do
    let record ← config.members
    let items ← packFields false keys record
    let more ← packNonNull keys rest
    some (items ++ more)

def parseRtpsConfig (rtpdata : List Json) : Option (List UInt8) := do
  let items ← packNonNull rtpConfigList rtpdata
  structPack items

def packGraphs : List Json → Option (List Item)
  | [] => some []
  | config :: rest => do
    let record ← config.members
    let items ← packFields true graphConfigList record
    let more ← packGraphs rest
    some (items ++ more)

def parseGraphConfig (graphdata : List Json) : Option (List UInt8) := do
  let items ← packGraphs graphdata
  structPack items

def partitionItems (key : Key) (value : Json) : Option (List Item) :=
  if key ∈ vectors then some []
  else if key ∈ keysOf .s then (stringItems value).map Prod.fst
  else if key ∈ keysOf .HEX then do
    let n ← pyHex value
    some [.value .I (.number n)]
  else do
    let code ← keyToEncodingMap key
    let n ← pyInt value
    some [.value code (.number n)]

def memberItems (items : Key → Json → Option (List Item)) : Members → Option (List Item)
  | [] => some []
  | (key, value) :: rest => do
    let front ← items key value
    let back ← memberItems items rest
    some (front ++ back)

def parsePartition (config : Json) : Option (List UInt8) := do
  let members ← config.members
  let items ← memberItems partitionItems members
  structPack items

def parsePartitions : List Json → Option (List UInt8)
  | [] => some []
  | config :: rest => do
    let front ← parsePartition config
    let back ← parsePartitions rest
    some (front ++ back)

def aiePartitionItems (count : ℕ) (key : Key) (value : Json) : Option (List Item) :=
  if key ∈ vectors then some [.value .i (.number count)]
  else if key ∈ keysOf .s then (stringItems value).map Prod.fst
  else do
    let code ← keyToEncodingMap key
    let n ← pyInt value
    some [.value code (.number n)]

def parseAIEPartitionConfig (aiePartition : Json) : Option (List UInt8) := do
  let members ← aiePartition.members
  match members.lookup .partitions with
  | some (.array partitions) => do
    let items ← memberItems (aiePartitionItems partitions.length) members
    let front ← structPack items
    let back ← parsePartitions partitions
    some (front ++ back)
  | _ => none

def partitionData (driverdata : Members) : Option (Option Json) :=
  match driverdata.lookup .aie_partition_json with
  | none => some none
  | some aiePartition =>
    if aiePartition.truthy then do
      let members ← aiePartition.members
      let aieEngine ← members.lookup .AIE
      let engines ← aieEngine.members
      some ((engines.lookup .ai_engine_0).filter Json.truthy)
    else some none

/-- `ParseDriverConfig`; nothing is written for an empty dictionary. -/
def parseDriverConfig (driverdata : Json) : Option (List UInt8) :=
  if driverdata.truthy then do
    let record ← driverdata.members
    let items ← packFields false hwConfigsList record
    let packedData ← structPack items
    match ← partitionData record with
    | none => some packedData
    | some data => do
      let partitions ← parseAIEPartitionConfig data
      some (packedData ++ partitions)
  else none

end AieBaremetal.Metadata
