import AieBaremetal.Dma.Api
import AieBaremetal.Metadata.Buffers

/-!
# External buffers

An external buffer has ports on shim tiles, and each port has descriptors. A transfer gives all
descriptors of one port an address in the buffer that was set and pushes a task. Ping-pong set-up does
the same for all ports, with one of two buffers for each descriptor.

The codes of lookups and updates are logged and dropped, so the code of a call is that of its last
push. A lookup that fails leaves the variable for the device address as it was. The simulator build,
selected by `aiesim`, also remembers buffers, to copy them back during a wait. A null pointer is 0.
-/

namespace AieBaremetal.ExternalBuffer

open Common AieBaremetal.Runtime Dma Metadata

/-- A buffer that is copied back when its transfer is waited for. -/
structure TransactionInfo where
  virtualAddr : BitVec 64
  physicalAddr : BitVec 64
  size : BitVec 64
  deriving DecidableEq, Repr

structure BufferState where
  ddrAddress : BitVec 64
  pingAddress : BitVec 64
  pongAddress : BitVec 64
  aie2gmBufQueue : List TransactionInfo
  gm2aieBufQueue : List TransactionInfo
  deriving DecidableEq, Repr

def BufferState.fresh : BufferState where
  ddrAddress := 0#64
  pingAddress := 0#64
  pongAddress := 0#64
  aie2gmBufQueue := []
  gm2aieBufQueue := []

abbrev BufferProgram := PlatformProgram BufferState

/-- `setAddress()`. An address that is set already stays. -/
def BufferState.setAddress (ptr : BitVec 64) (s : BufferState) : BufferState :=
  if s.ddrAddress = 0#64 then { s with ddrAddress := ptr } else s

/-- The ping-pong addresses are stored if neither was set. -/
def BufferState.setPingPong (ptr1 ptr2 : BitVec 64) (s : BufferState) : BufferState :=
  if s.pingAddress = 0#64 ∧ s.pongAddress = 0#64 then { s with pingAddress := ptr1, pongAddress := ptr2 } else s

/-- `pingpong_address[buf_idx]`; there are two of them. -/
def BufferState.pingpongAddress (s : BufferState) (bufIdx : BitVec 32) : Option (BitVec 64) :=
  if bufIdx = 0#32 then some s.pingAddress else if bufIdx = 1#32 then some s.pongAddress else none

/-- A set-up remembers a buffer in the queue of the port's direction. -/
def BufferState.remember (port : ShimPortConfig) (transaction : TransactionInfo) (s : BufferState) : BufferState :=
  if port.S2MMOrMM2S = 0#32 then { s with aie2gmBufQueue := s.aie2gmBufQueue ++ [transaction] }
  else { s with gm2aieBufQueue := s.gm2aieBufQueue ++ [transaction] }

def shimChannel (port : ShimPortConfig) : DmaChannel where
  tile := { tileType := 1#32, column := port.column.setWidth 8, row := 0#8 }
  dir := port.S2MMOrMM2S
  channel := port.channel.setWidth 8

def shimTask (port : ShimPortConfig) : TaskOptions where
  repeatCount := port.taskRepetition
  enableTaskCompleteToken := port.enableTaskCompleteToken

/-- The descriptor number as the driver gets it. -/
def bdNum (bd : ShimBDInfo) : BitVec 8 := bd.bdId.setWidth 8

/-- The address of a descriptor in a buffer; offsets count words. -/
def bdAddress (phyAddress : BitVec 64) (bd : ShimBDInfo) : BitVec 64 := phyAddress + bd.offset.setWidth 64 * 4#64

def lookedUp (phyAddress : BitVec 64) (answer : DriverAnswer) : BitVec 64 :=
  if answer.rc ≠ 0#32 then phyAddress else answer.value

/-- The local variables of a loop over descriptors. -/
structure BdLocals where
  phyAddress : BitVec 64
  transactionSize : BitVec 64
  startBd : BitVec 32
  deriving DecidableEq, Repr

def BdLocals.start (phyAddress : BitVec 64) : BdLocals := { phyAddress, transactionSize := 0#64, startBd := -1#32 }

/-- Count a descriptor, which is the first one if there is none yet. -/
def BdLocals.count (l : BdLocals) (bd : ShimBDInfo) : BdLocals :=
  { l with
    transactionSize := l.transactionSize + bd.transactionSize
    startBd := if l.startBd.toInt < 0 then bd.bdId else l.startBd }

def findPort (config : ExternalBufferConfig) (portName : List UInt8) : Option ShimPortConfig :=
  config.shimPortConfigs.find? fun port => port.portName = some portName

section Programs

variable (aiesim : Bool) (mgr : ConfigManager) (config : ExternalBufferConfig)

/-- `getAddress()`, of which only the address is used. -/
def getAddress (phyAddress ddrMem : BitVec 64) : BufferProgram (BitVec 64) := do
  let answer ← platform (.getDevAddr ddrMem)
  pure (lookedUp phyAddress answer)

/-- The descriptors of a port get their addresses in one buffer. -/
def updateBds (port : ShimPortConfig) (l : BdLocals) : List ShimBDInfo → BufferProgram BdLocals
  | [] => pure l
  | bd :: rest => do
    let _ ← updateBDAddress mgr (shimChannel port).tile (bdNum bd) (bdAddress l.phyAddress bd)
    updateBds port (l.count bd) rest

def enqueuePort (port : ShimPortConfig) (l : BdLocals) : BufferProgram ErrCode :=
  enqueueTask mgr (shimChannel port) (shimTask port) (l.startBd.setWidth 8)

/-- What the calls by port name begin with: without a port of that name they return ok. -/
def onPort (portName : List UInt8) (body : ShimPortConfig → BufferProgram ErrCode) : BufferProgram ErrCode :=
  if config.shimPortConfigs.isEmpty then pure .ok
  else
    match findPort config portName with
    | none => pure .ok
    | some port => body port

/-- A transfer up to its task; the directions differ in what they remember and synchronise. -/
def transferNb (portName : List UInt8) (sync : BitVec 64 → BdLocals → BufferProgram Unit) : BufferProgram ErrCode :=
  onPort config portName fun port => do
    let s ← Program.getState
    let phyAddress ← getAddress 0#64 s.ddrAddress
    let l ← updateBds mgr port (.start phyAddress) port.shimBDInfos
    sync s.ddrAddress l
    enqueuePort mgr port l

def gm2aieNb (portName : List UInt8) : BufferProgram ErrCode :=
  transferNb mgr config portName fun ddrAddress l => do
    if aiesim then
      Program.modifyState fun s =>
        { s with gm2aieBufQueue := s.gm2aieBufQueue ++ [⟨s.ddrAddress, l.phyAddress, l.transactionSize⟩] }
    let _ ← platform (.syncForDev ddrAddress l.transactionSize)

/-- `aie2gm_nb()`: on hardware the device address is synchronised, in the simulator nothing. -/
def aie2gmNb (portName : List UInt8) : BufferProgram ErrCode :=
  transferNb mgr config portName fun _ l =>
    if aiesim then
      Program.modifyState fun s =>
        { s with aie2gmBufQueue := s.aie2gmBufQueue ++ [⟨s.ddrAddress, l.phyAddress, l.transactionSize⟩] }
    else do
      let _ ← platform (.syncForDev l.phyAddress l.transactionSize)

/-- The descriptors of a port get their addresses in the two buffers; the last one is remembered. -/
def updatePingPongBds (s : BufferState) (port : ShimPortConfig) (l : BdLocals) (transaction : TransactionInfo) :
    List ShimBDInfo → BufferProgram (BdLocals × TransactionInfo)
  | [] => pure (l, transaction)
  | bd :: rest => do
    let ddrMem ← Program.ofOption (s.pingpongAddress bd.bufIdx)
    let phyAddress ← getAddress l.phyAddress ddrMem
    let _ ← updateBDAddress mgr (shimChannel port).tile (bdNum bd) (bdAddress phyAddress bd)
    let l := { l with phyAddress }.count bd
    updatePingPongBds s port l ⟨ddrMem, l.phyAddress, l.transactionSize⟩ rest

def setupPort (s : BufferState) (syncCache : Bool) (port : ShimPortConfig) : BufferProgram ErrCode := do
  let (l, transaction) ← updatePingPongBds mgr s port (.start 0#64) ⟨0#64, 0#64, 0#64⟩ port.shimBDInfos
  if aiesim then
    Program.modifyState (BufferState.remember port transaction)
  else if syncCache then do
    let _ ← platform (.syncForDev l.phyAddress l.transactionSize)
  enqueuePort mgr port l

/-- The loop over the ports keeps the last code. -/
def setupPorts (s : BufferState) (syncCache : Bool) (status : ErrCode) : List ShimPortConfig → BufferProgram ErrCode
  | [] => pure status
  | port :: rest => do
    let status ← setupPort aiesim mgr s syncCache port
    setupPorts s syncCache status rest

def setupPingPongBuffers (ptr1 ptr2 : BitVec 64) (syncCache : Bool) : BufferProgram ErrCode := do
  Program.modifyState (BufferState.setPingPong ptr1 ptr2)
  let s ← Program.getState
  setupPorts aiesim mgr s syncCache .ok config.shimPortConfigs

/-- Copy remembered buffers back, forgetting each before it is copied. -/
def copyBack (pop : BufferState → BufferState) : List TransactionInfo → BufferProgram Unit
  | [] => pure ()
  | var :: rest => do
    Program.modifyState pop
    let _ ← platform (.syncForCpu var.virtualAddr var.size)
    copyBack pop rest

/-- `wait()`: in the simulator every buffer of the port's direction is copied back. -/
def wait (portName : List UInt8) : BufferProgram ErrCode :=
  onPort config portName fun port => do
    let status ← waitDMAChannelDone mgr (shimChannel port)
    if aiesim then do
      let s ← Program.getState
      if port.S2MMOrMM2S ≠ 0#32 then
        copyBack (fun s => { s with gm2aieBufQueue := s.gm2aieBufQueue.tail }) s.gm2aieBufQueue
      else
        copyBack (fun s => { s with aie2gmBufQueue := s.aie2gmBufQueue.tail }) s.aie2gmBufQueue
    pure status

/-- `gm2aie()`, which drops the code of the wait. -/
def gm2aie (portName : List UInt8) : BufferProgram ErrCode := do
  let status ← gm2aieNb aiesim mgr config portName
  if status = .ok then do
    let _ ← wait aiesim mgr config portName
  pure status

/-- `aie2gm()`, which drops the code of the wait. -/
def aie2gm (portName : List UInt8) : BufferProgram ErrCode := do
  let status ← aie2gmNb aiesim mgr config portName
  if status = .ok then do
    let _ ← wait aiesim mgr config portName
  pure status

end Programs

end AieBaremetal.ExternalBuffer
