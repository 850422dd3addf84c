import AieBaremetal.Metadata.Packer
import AieBaremetal.Metadata.Parser

/-!
# The sections of the external and the shared buffers

The packers of these two sections go through the members of a dictionary in the order of the JSON file.
An external buffer contains ports and a port contains buffer descriptors: the numbers of a level are
packed first, and its packed children follow. A shared buffer is one level, with three vectors; its
packer flattens the lists among the values, so that a list fills as many places as it has items.

The addresses of a shared buffer are read as `std::size_t`, which has eight bytes on the APU and four on
the RPU; on both there is room for every vector whose length is not negative.
-/

namespace AieBaremetal.Metadata

open Common

/-- What a loop over a value visits; neither a string nor a dictionary with anything in it gets through. -/
def Json.elements : Json → Option (List Json)
  | array items => some items
  | text [] => some []
  | object [] => some []
  | _ => none

def Json.len : Json → Option ℕ
  | array items => some items.length
  | text s => some s.length
  | object members => some members.length
  | _ => none

/-- What a value contributes to `flat_values`. -/
def Json.flat : Json → List Json
  | array items => items
  | v => [v]

/-- `b''.join` of what a function packs. -/
def joined (pack : Json → Option (List UInt8)) : List Json → Option (List UInt8)
  | [] => some []
  | v :: rest => do
    let front ← pack v
    let back ← joined pack rest
    some (front ++ back)

/-- The elements of a string member, given the code of its length. -/
def nameItems (code : Code) (value : Json) : Option (List Item) := do
  let values ← value.str
  let lenS ← getNameLen values
  some [.value code (.number lenS), .bytes lenS (encodeUtf8 (values.take lenS))]

def packShimBdInfo (shimBdInfo : Json) : Option (List UInt8) := do
  let members ← shimBdInfo.members
  let bdId ← members.lookup .bd_id
  let bufIdx ← members.lookup .buf_idx
  let offset ← members.lookup .offset
  let transactionSize ← members.lookup .transaction_size
  structPack [.value .I bdId, .value .I bufIdx, .value .I offset, .value .Q transactionSize]

def directionValue : Json → Json
  | .text s => if s = "mm2s".toList then .number 1 else if s = "s2mm".toList then .number 0 else .text s
  | v => v

/-- The elements of a member of a port, given the number of descriptors. -/
def shimPortItems (count : ℕ) (key : Key) (value : Json) : Option (List Item) :=
  if key ∈ vectors then some [.value .i (.number count)]
  else if key ∈ keysOf .s then nameItems .i value
  else do
    let code ← keyToEncodingMap key
    some [.value code (directionValue value)]

def packShimPortConfig (shimPortConfig : Json) : Option (List UInt8) := do
  let members ← shimPortConfig.members
  let infos ← members.lookup .shimBDInfos
  let infos ← infos.elements
  let items ← memberItems (shimPortItems infos.length) members
  let front ← structPack items
  let back ← joined packShimBdInfo infos
  some (front ++ back)

/-- The elements of a member of an external buffer, given the number of ports. -/
def externalBufferItems (count : ℕ) (key : Key) (value : Json) : Option (List Item) :=
  if key ∈ vectors then some [.value .i (.number count)]
  else if key ∈ keysOf .s then nameItems .I value
  else do
    let code ← keyToEncodingMap (if key = .id then .eid else key)
    some [.value code value]

def packExternalBufferConfig (externalBufferConfig : Json) : Option (List UInt8) := do
  let members ← externalBufferConfig.members
  let ports ← members.lookup .shimPortConfigs
  let ports ← ports.elements
  let items ← memberItems (externalBufferItems ports.length) members
  let front ← structPack items
  let back ← joined packShimPortConfig ports
  some (front ++ back)

def parseExternalbuffersConfig : Json → Option (List UInt8)
  | .null => some []
  | externalbufferdata => do
    let buffers ← externalbufferdata.elements
    joined packExternalBufferConfig buffers

inductive Place where
  | code (code : Code)
  | bytes (count : ℕ)

/-- A value that is given to `struct.pack`. -/
inductive Argument where
  | json (v : Json)
  | bytes (data : List UInt8)

def Item.place : Item → Place
  | value code _ => .code code
  | bytes count _ => .bytes count

def Item.argument : Item → Argument
  | value _ v => .json v
  | bytes _ data => .bytes data

/-- `struct.pack` of a format string and as many values. -/
def structPackArguments : List Place → List Argument → Option (List UInt8)
  | [], [] => some []
  | .code code :: places, .json v :: arguments => do
    let front ← packItem (.value code v)
    let back ← structPackArguments places arguments
    some (front ++ back)
  | .bytes count :: places, .bytes data :: arguments => do
    let front ← packItem (.bytes count data)
    let back ← structPackArguments places arguments
    some (front ++ back)
  | _, _ => none

def sharedBufferMember (key : Key) (value : Json) : Option (List Place × List Argument) :=
  if key ∈ vectors then do
    let l ← value.len
    let code ← keyToEncodingMap key
    some (.code .i :: List.replicate l (.code code), .json (.number l) :: value.flat.map .json)
  else if key ∈ keysOf .s then do
    let items ← nameItems .I value
    some (items.map Item.place, items.map Item.argument)
  else do
    let code ← keyToEncodingMap (if key = .id then .sid else key)
    some ([.code code], value.flat.map .json)

def sharedBufferMembers : Members → Option (List Place × List Argument)
  | [] => some ([], [])
  | (key, value) :: rest => do
    let (places, arguments) ← sharedBufferMember key value
    let (morePlaces, moreArguments) ← sharedBufferMembers rest
    some (places ++ morePlaces, arguments ++ moreArguments)

/-- `pack_shared_buffer_config`, whose second parameter is not used. -/
def packSharedBufferConfig (sharedBufferConfig : Json) : Option (List UInt8) := do
  let members ← sharedBufferConfig.members
  let (format_string, flat_values) ← sharedBufferMembers members
  structPackArguments format_string flat_values

/-- `ParseSharedBuffersConfig`, given `SharedBufferConfigs`. -/
def parseSharedBuffersConfig : Json → Option (List UInt8)
  | .null => some []
  | sharedbufferdata => do
    let buffers ← sharedbufferdata.elements
    joined packSharedBufferConfig buffers

structure ShimBDInfo where
  bdId : BitVec 32
  bufIdx : BitVec 32
  offset : BitVec 32
  transactionSize : BitVec 64
  deriving DecidableEq, Repr

structure ShimPortConfig where
  portId : BitVec 32
  portName : StringView
  column : BitVec 16
  S2MMOrMM2S : BitVec 32
  channel : BitVec 16
  taskRepetition : BitVec 32
  enableTaskCompleteToken : Bool
  shimBDInfos : List ShimBDInfo
  deriving DecidableEq, Repr

structure ExternalBufferConfig where
  id : BitVec 16
  name : StringView
  shimPortConfigs : List ShimPortConfig
  deriving DecidableEq, Repr

/-- One turn of the loop over the descriptors of a port. -/
def loadShimBDInfo : Unpack ShimBDInfo := do
  let bdId ← unpackUInt32
  let bufIdx ← unpackUInt32
  let offset ← unpackUInt32
  let transactionSize ← unpackUInt64
  pure { bdId, bufIdx, offset, transactionSize }

def loadShimPort : Unpack ShimPortConfig := do
  let portId ← unpackUInt32
  let portName ← unpackString
  let S2MMOrMM2S ← unpackUInt32
  let column ← unpackShort
  let channel ← unpackShort
  let taskRepetition ← unpackUInt32
  let enableTaskCompleteToken ← unpackBool
  let shimBdInfoLen ← unpackUInt32
  let shimBDInfos ← Reader.times loadShimBDInfo shimBdInfoLen.toInt.toNat
  pure { portId, portName, column, S2MMOrMM2S, channel, taskRepetition, enableTaskCompleteToken, shimBDInfos }

def loadExternalBuffer : Unpack ExternalBufferConfig := do
  let id ← unpackShort
  let name ← unpackString
  let shimPortConfigLen ← unpackUInt32
  let shimPortConfigs ← Reader.times loadShimPort shimPortConfigLen.toInt.toNat
  pure { id, name, shimPortConfigs }

/-- One turn of the record loop, with the name it is stored under. -/
def loadNamed {A : Type} (load : Unpack A) (nameOf : A → StringView) : Unpack (List UInt8 × A) := do
  let config ← load
  let name ← hashView (nameOf config)
  pure (name, config)

def loadAllExternalBuffers (size : BitVec 32) (fuel : ℕ) : Unpack (NameMap ExternalBufferConfig) := do
  let buffers ← Reader.readWhile (insideSection size) (loadNamed loadExternalBuffer ExternalBufferConfig.name)
    .outOfFuel fuel
  pure (assignAll (fun _ => none) buffers)

/-- The processors the runtime is built for. -/
inductive Target where
  | apu | rpu
  deriving DecidableEq, Repr

def Target.sizeT : Target → ℕ
  | apu => 8
  | rpu => 4

/-- `shared_buffer_config`; its element type is not in the section. -/
structure SharedBufferConfig (target : Target) where
  id : BitVec 16
  name : StringView
  graphId : BitVec 32
  numBytes : BitVec (8 * target.sizeT)
  column : BitVec 16
  row : BitVec 16
  numInputs : BitVec 16
  numOutputs : BitVec 16
  initialized : Bool
  addr : List (BitVec (8 * target.sizeT))
  producerLocks : List (BitVec 32)
  consumerLocks : List (BitVec 32)
  deriving DecidableEq, Repr

def loadSharedBuffer (target : Target) : Unpack (SharedBufferConfig target) := do
  let id ← unpackShort
  let name ← unpackString
  let graphId ← unpackUInt32
  let numBytes ← unpackUInt64
  let column ← unpackShort
  let row ← unpackShort
  let numInputs ← unpackShort
  let numOutputs ← unpackShort
  let initialized ← unpackBool
  let addrLen ← unpackUInt32
  let addr ← unpackVector target.sizeT addrLen
  let producerLocksLen ← unpackUInt32
  let producerLocks ← unpackVector 4 producerLocksLen
  let consumerLocksLen ← unpackUInt32
  let consumerLocks ← unpackVector 4 consumerLocksLen
  pure { id, name, graphId, column, row, numInputs, numOutputs, initialized, addr, producerLocks, consumerLocks,
         numBytes := numBytes.setWidth (8 * target.sizeT) }

def loadNamedSharedBuffer (target : Target) : Unpack (List UInt8 × SharedBufferConfig target) :=
  loadNamed (loadSharedBuffer target) SharedBufferConfig.name

def loadAllSharedBuffers (target : Target) (size : BitVec 32) (fuel : ℕ) :
    Unpack (NameMap (SharedBufferConfig target)) := do
  let buffers ← Reader.readWhile (insideSection size) (loadNamedSharedBuffer target) .outOfFuel fuel
  pure (assignAll (fun _ => none) buffers)

end AieBaremetal.Metadata
