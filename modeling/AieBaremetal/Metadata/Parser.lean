import AieBaremetal.Common.LittleEndian
import AieBaremetal.Common.Reader

/-!
# The metadata parsers

The runtime reads the sections back with a pointer, following `UnpackUtils` and the static parsers of
`aeg_configure.cc`. The cursor is its distance from the start of the section, and nothing keeps it
inside: the bytes before and behind the section are some bytes. The target is little-endian, and no
`std::size_t` is read from these sections. A string view with a negative length is `none`; the pointer
moves back by that length.
-/

namespace AieBaremetal.Metadata

open Common

/-- How reading a section can fail. -/
inductive Failure where
  | lengthError
  | emptyVector
  | invalidView
  | outOfFuel
  deriving DecidableEq, Repr

abbrev Unpack (A : Type) := Reader UInt8 Failure A

/-- A `std::string_view`: its bytes, if it is one. -/
abbrev StringView := Option (List UInt8)

/-- The bytes of a section where it lies in memory. -/
def sectionMemory (outside : ℤ → UInt8) (bytes : List UInt8) : ℤ → UInt8 := store outside (fun i => (i : ℤ)) bytes

/-- `UnpackUtils::unpackValue<T>` for a width in bytes. -/
def unpackValue (width : ℕ) : Unpack (BitVec (8 * width)) := do
  let bytes ← Reader.take width
  pure (BitVec.ofNat (8 * width) (leNat bytes))

def unpackUInt8 : Unpack (BitVec 8) := unpackValue 1

def unpackUInt64 : Unpack (BitVec 64) := unpackValue 8

def unpackUInt32 : Unpack (BitVec 32) := unpackValue 4

def unpackShort : Unpack (BitVec 16) := unpackValue 2

def unpackBool : Unpack Bool := do
  let value ← unpackValue 1
  pure (value != 0)

def unpackString : Unpack StringView := do
  let strLength ← unpackUInt32
  if strLength.toInt < 0 then do
    Reader.move strLength.toInt
    pure none
  else do
    let bytes ← Reader.take strLength.toNat
    pure (some bytes)

/-- `UnpackUtils::unpackVector<T>`; a negative length is larger than any vector. -/
def unpackVector (width : ℕ) (length : BitVec 32) : Unpack (List (BitVec (8 * width))) :=
  if length.toInt < 0 then Reader.fail .lengthError else Reader.times (unpackValue width) length.toNat

structure DriverConfig where
  hwGen : BitVec 8
  baseAddress : BitVec 64
  columnShift : BitVec 8
  rowShift : BitVec 8
  numColumns : BitVec 8
  numRows : BitVec 8
  shimRow : BitVec 8
  memRowStart : BitVec 8
  memNumRows : BitVec 8
  aieTileRowStart : BitVec 8
  aieTileNumRows : BitVec 8
  partitionNumCols : BitVec 8
  partitionOverlayStartCols : List (BitVec 16)
  deriving DecidableEq, Repr

structure PartitionConfig where
  startColumn : BitVec 32
  numColumns : BitVec 32
  uuid : StringView
  aiePlIntfId : BitVec 32
  nameSpace : StringView
  deriving DecidableEq, Repr

/-- `graph_config`; addresses are `std::size_t`. -/
structure GraphConfig where
  id : BitVec 32
  name : StringView
  coreColumns : List (BitVec 16)
  coreRows : List (BitVec 16)
  iterMemColumns : List (BitVec 16)
  iterMemRows : List (BitVec 16)
  iterMemAddrs : List (BitVec 64)
  triggered : List (BitVec 8)
  broadcastColumn : BitVec 32
  deriving DecidableEq, Repr

/-- `gmio_config`; the enumeration of types is a `uint8_t`. -/
structure GmioConfig where
  id : BitVec 32
  name : StringView
  logicalName : StringView
  type : BitVec 8
  shimColumn : BitVec 16
  channelNum : BitVec 16
  streamId : BitVec 16
  burstLength : BitVec 16
  deriving DecidableEq, Repr

structure PlioConfig where
  id : BitVec 32
  name : StringView
  logicalName : StringView
  shimColumn : BitVec 16
  slaveOrMaster : BitVec 16
  streamId : BitVec 16
  deriving DecidableEq, Repr

/-- `rtp_config`; sizes and addresses are `std::size_t`. -/
structure RtpConfig where
  portId : BitVec 32
  aliasId : BitVec 32
  portName : StringView
  aliasName : StringView
  graphId : BitVec 32
  isInput : Bool
  isAsync : Bool
  isConnect : Bool
  numBytes : BitVec 64
  isPL : Bool
  hasLock : Bool
  selectorColumn : BitVec 16
  selectorRow : BitVec 16
  selectorAddr : BitVec 64
  selectorLockId : BitVec 16
  pingColumn : BitVec 16
  pingRow : BitVec 16
  pingAddr : BitVec 64
  pingLockId : BitVec 16
  pongColumn : BitVec 16
  pongRow : BitVec 16
  pongAddr : BitVec 64
  pongLockId : BitVec 16
  deriving DecidableEq, Repr

/-- The pointer is inside the section: the distance is cut to 32 bits first. -/
def insideSection (size : BitVec 32) (cursor : ℤ) : Bool := (BitVec.ofInt 32 cursor).ult size

def loadDriverHeader : Unpack DriverConfig := do
  let hwGen ← unpackUInt8
  let baseAddress ← unpackUInt64
  let columnShift ← unpackUInt8
  let rowShift ← unpackUInt8
  let numColumns ← unpackUInt8
  let numRows ← unpackUInt8
  let shimRow ← unpackUInt8
  let memRowStart ← unpackUInt8
  let memNumRows ← unpackUInt8
  let aieTileRowStart ← unpackUInt8
  let aieTileNumRows ← unpackUInt8
  let partitionNumCols ← unpackUInt8
  let partitionOverlayStartColsLen ← unpackUInt32
  let partitionOverlayStartCols ← unpackVector 2 partitionOverlayStartColsLen
  pure { hwGen, baseAddress, columnShift, rowShift, numColumns, numRows, shimRow, memRowStart,
         memNumRows, aieTileRowStart, aieTileNumRows, partitionNumCols, partitionOverlayStartCols }

def loadPartition : Unpack PartitionConfig := do
  let startColumn ← unpackUInt32
  let numColumns ← unpackUInt32
  let uuid ← unpackString
  let aiePlIntfId ← unpackUInt32
  let nameSpace ← unpackString
  pure { startColumn, numColumns, uuid, aiePlIntfId, nameSpace }

def loadPartitions : Unpack (List (PartitionConfig × ℤ)) := do
  let _ ← unpackUInt32
  let _ ← unpackUInt32
  let partitionLen ← unpackUInt32
  Reader.times (Reader.marked loadPartition) partitionLen.toInt.toNat

/-- `DriverConfigStaticParser::load`, with the cursors. -/
def loadDriverConfig (size : BitVec 32) : Unpack ((DriverConfig × ℤ) × List (PartitionConfig × ℤ)) := do
  let dconfig ← Reader.marked loadDriverHeader
  if insideSection size dconfig.2 then do
    let partitions ← loadPartitions
    pure (dconfig, partitions)
  else pure (dconfig, [])

def loadGmio : Unpack GmioConfig := do
  let id ← unpackUInt32
  let name ← unpackString
  let logicalName ← unpackString
  let gmType ← unpackShort
  let shimColumn ← unpackShort
  let channelNum ← unpackShort
  let streamId ← unpackShort
  let burstLength ← unpackShort
  pure { id, name, logicalName, type := gmType.setWidth 8, shimColumn, channelNum, streamId, burstLength }

def loadPlio : Unpack PlioConfig := do
  let id ← unpackUInt32
  let name ← unpackString
  let logicalName ← unpackString
  let shimColumn ← unpackShort
  let slaveOrMaster ← unpackShort
  let streamId ← unpackShort
  pure { id, name, logicalName, shimColumn, slaveOrMaster, streamId }

def loadRtp : Unpack RtpConfig := do
  let portId ← unpackUInt32
  let aliasId ← unpackUInt32
  let portName ← unpackString
  let aliasName ← unpackString
  let graphId ← unpackUInt32
  let isInput ← unpackBool
  let isAsync ← unpackBool
  let isConnect ← unpackBool
  let numBytes ← unpackUInt32
  let isPL ← unpackBool
  let hasLock ← unpackBool
  let selectorColumn ← unpackShort
  let selectorRow ← unpackShort
  let selectorAddress ← unpackUInt32
  let selectorLockId ← unpackShort
  let pingColumn ← unpackShort
  let pingRow ← unpackShort
  let pingAddress ← unpackUInt32
  let pingLockId ← unpackShort
  let pongColumn ← unpackShort
  let pongRow ← unpackShort
  let pongAddress ← unpackUInt32
  let pongLockId ← unpackShort
  pure { portId, aliasId, portName, aliasName, graphId, isInput, isAsync, isConnect, isPL, hasLock,
         numBytes := numBytes.setWidth 64, selectorColumn, selectorRow, selectorLockId,
         selectorAddr := selectorAddress.setWidth 64, pingColumn, pingRow, pingLockId,
         pingAddr := pingAddress.setWidth 64, pongColumn, pongRow, pongLockId,
         pongAddr := pongAddress.setWidth 64 }

/-- The record loop of `loadAll`, with the cursors. -/
def loadRecords {A : Type} (load : Unpack A) (size : BitVec 32) (fuel : ℕ) : Unpack (List (A × ℤ)) :=
  Reader.readWhile (insideSection size) (Reader.marked load) .outOfFuel fuel

def defaultStartColumn : BitVec 32 := 0#32

def getPartitionStartColumn (partitions : List PartitionConfig) (column : BitVec 32) : BitVec 32 :=
  if partitions.isEmpty then defaultStartColumn
  else
    match partitions.find? fun part => part.startColumn.ule column &&
      column.ult (part.startColumn + part.numColumns) with
    | some part => part.startColumn
    | none => defaultStartColumn

/-- The broadcast column, looked up for the first core. -/
def broadcastColumn (partitions : List PartitionConfig) (partitionStartColumn : BitVec 32)
    (coreColumns : List (BitVec 16)) : Unpack (BitVec 32) :=
  if partitions.isEmpty then pure 0
  else
    match coreColumns with
    | [] => Reader.fail .emptyVector
    | first :: _ =>
      pure (getPartitionStartColumn partitions (first.signExtend 32 + partitionStartColumn) - partitionStartColumn)

/-- `GraphConfigStaticParser::load`; an address passes through `int32_t`. -/
def loadGraph (partitions : List PartitionConfig) (partitionStartColumn : BitVec 32) : Unpack GraphConfig := do
  let id ← unpackUInt32
  let name ← unpackString
  let coreColumns_len ← unpackUInt32
  let coreColumns ← unpackVector 2 coreColumns_len
  let coreRows_len ← unpackUInt32
  let coreRows ← unpackVector 2 coreRows_len
  let iterMemColumns_len ← unpackUInt32
  let iterMemColumns ← unpackVector 2 iterMemColumns_len
  let iterMemRows_len ← unpackUInt32
  let iterMemRows ← unpackVector 2 iterMemRows_len
  let iterMemAddrs_len ← unpackUInt32
  let iterMemAddrs ← unpackVector 4 iterMemAddrs_len
  let triggeredLen ← unpackUInt32
  let triggered ← unpackVector 1 triggeredLen
  let broadcastColumn ← broadcastColumn partitions partitionStartColumn coreColumns
  pure { id, name, coreColumns, coreRows, iterMemColumns, iterMemRows, triggered, broadcastColumn,
         iterMemAddrs := iterMemAddrs.map (BitVec.signExtend 64) }

/-- A `std::unordered_map` from names. -/
abbrev NameMap (A : Type) := List UInt8 → Option A

def hashView (name : StringView) : Unpack (List UInt8) :=
  match name with
  | some bytes => pure bytes
  | none => Reader.fail .invalidView

/-- A turn of `GraphConfigStaticParser::loadAll`: a graph and its name. -/
def loadNamedGraph (partitions : List PartitionConfig) (partitionStartColumn : BitVec 32) :
    Unpack (List UInt8 × GraphConfig) := do
  let grconfig ← loadGraph partitions partitionStartColumn
  let name ← hashView grconfig.name
  pure (name, grconfig)

/-- Store graphs under their names one after the other. -/
def assignAll {A : Type} (map : NameMap A) (entries : List (List UInt8 × A)) : NameMap A :=
  entries.foldl (fun map entry => Function.update map entry.1 (some entry.2)) map

def loadAllGraphs (partitions : List PartitionConfig) (partitionStartColumn size : BitVec 32) (fuel : ℕ) :
    Unpack (NameMap GraphConfig) := do
  let graphs ← Reader.readWhile (insideSection size)
    (loadNamedGraph partitions partitionStartColumn) .outOfFuel fuel
  pure (assignAll (fun _ => none) graphs)

end AieBaremetal.Metadata
