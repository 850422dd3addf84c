import AieBaremetal.Common.ByteMemory
import AieBaremetal.Common.LittleEndian

/-!
# Receiving a file over TCP

A client sends a header of twelve bytes, the magic number and the size of the file, both most significant
byte first, and then the file. lwIP calls `file_recv_callback` with a chain of packet buffers, or with
none when the client has closed the connection. When the file is complete the callback hands it to the
user, replies with its checksum and the user's result, and closes the connection.

Left out are the calls that only return memory or window space, and the clearing of the transfer state
after it was given back. An allocation succeeds; a write outside of the image buffer is `none`.
-/

namespace AieBaremetal.Net

open Common

def headerSize : ℕ := 12

def magicNumber : BitVec 32 := 0x46494C45

def crcBit (crc : BitVec 32) : BitVec 32 := if crc &&& 1 ≠ 0 then (crc >>> 1) ^^^ 0xEDB88320 else crc >>> 1

def crcByte (crc : BitVec 32) (b : UInt8) : BitVec 32 := crcBit^[8] (crc ^^^ b.toBitVec.setWidth 32)

def crc32Bitwise (buf : List UInt8) : BitVec 32 := ~~~(buf.foldl crcByte (~~~0))

/-- A chain of packet buffers: the first one, whose `tot_len` has 16 bits, and those behind it. -/
structure Pbuf where
  payload : List UInt8
  next : List (List UInt8)
  tot_len_lt : payload.length + next.flatten.length < 2 ^ 16

def Pbuf.bytes (p : Pbuf) : List UInt8 := p.payload ++ p.next.flatten

/-- `file_transfer_state`, with the part of `header_buf` received. -/
structure FileTransferState where
  headerBuf : List UInt8
  fileSize : BitVec 64
  bytesReceived : BitVec 64

/-- The user's function: the type it returns and the data it leaves. -/
structure DataCallback where
  type : List UInt8 → ℤ → BitVec 16
  leaves : List UInt8 → ℤ → List UInt8
  leaves_length : ∀ data len, (leaves data len).length = data.length

/-- What the outside world sees of a connection. -/
inductive Event where
  | callback (data : List UInt8) (len : ℤ)
  | write (bytes : List UInt8)
  deriving DecidableEq, Repr

inductive Err where
  | ok | abrt
  deriving DecidableEq, Repr

/-- What the code cannot see: the user's function, and what memory holds before it is written. -/
structure Env where
  func : Option DataCallback
  fresh : ℕ → UInt8
  stack : List UInt8
  stack_length : stack.length = 2

/-- The image buffer all connections share, and one connection; a closed one keeps what its last callback
returned. -/
structure Server where
  imgdata : ℕ → UInt8
  imglen : BitVec 32
  state : FileTransferState
  closed : Option Err
  trace : List Event

/-- `accept_file_callback`: a new connection has a cleared state. -/
def Server.accept (imgdata : ℕ → UInt8) (imglen : BitVec 32) : Server where
  imgdata := imgdata
  imglen := imglen
  state := ⟨[], 0, 0⟩
  closed := none
  trace := []

/-- The size of the image buffer: `imglen` converted to `size_t`. -/
def Server.capacity (s : Server) : ℕ := (s.imglen.signExtend 64).toNat

/-- A word that was sent most significant byte first. -/
def ntohl (bytes : List UInt8) : BitVec 32 := BitVec.ofNat 32 (leNat bytes.reverse)

/-- What is done when the header is complete. -/
def parseHeader (env : Env) (s : Server) : Server :=
  if ntohl (s.state.headerBuf.take 4) ≠ magicNumber then { s with closed := some .abrt }
  else
    let hi := (ntohl ((s.state.headerBuf.drop 4).take 4)).setWidth 64
    let lo := (ntohl ((s.state.headerBuf.drop 8).take 4)).setWidth 64
    let fileSize := (hi <<< 32) ||| lo
    let s := { s with state := { s.state with fileSize, bytesReceived := 0 } }
    if (s.imglen.signExtend 64).ult fileSize then
      { s with imglen := ((fileSize + 3) / 4 * 4).setWidth 32, imgdata := env.fresh }
    else s

def receiveHeader (env : Env) (s : Server) (bytes : List UInt8) : Server :=
  let s := { s with state := { s.state with headerBuf := s.state.headerBuf ++ bytes } }
  if s.state.headerBuf.length = headerSize then parseHeader env s else s

/-- The file as it lies in the image buffer. -/
def Server.file (s : Server) : List UInt8 := load s.imgdata id s.state.fileSize.toNat

/-- `file_size` as an `int`. -/
def Server.len (s : Server) : ℤ := (s.state.fileSize.setWidth 32).toInt

/-- Call the user's function; without one the result is zero. -/
def callFunc (env : Env) (s : Server) : Server × BitVec 16 :=
  match env.func with
  | some func =>
    ({ s with imgdata := store s.imgdata id (func.leaves s.file s.len)
              trace := s.trace ++ [Event.callback s.file s.len] }, func.type s.file s.len)
  | none => (s, 0)

def Server.reply (s : Server) (result : List UInt8) : Server := { s with trace := s.trace ++ [Event.write result] }

/-- The file is complete: its checksum is taken after the user's function had it. -/
def finish (env : Env) (s : Server) : Server :=
  let (s, type) := callFunc env s
  { s.reply (leBytes 4 (crc32Bitwise s.file).toNat ++ leBytes 2 type.toNat) with closed := some .ok }

def receiveData (env : Env) (s : Server) (bytes : List UInt8) : Option Server :=
  let received := s.state.bytesReceived.toNat
  if bytes ≠ [] ∧ s.capacity < received + bytes.length then none
  else
    let s := { s with
      imgdata := store s.imgdata (received + ·) bytes
      state := { s.state with bytesReceived := s.state.bytesReceived + BitVec.ofNat 64 bytes.length } }
    some (if s.state.bytesReceived = s.state.fileSize then finish env s else s)

/-- One turn of the loop: what is left of the payload. -/
def receiveStep (env : Env) (s : Server) (payload : List UInt8) : Option (Server × List UInt8) :=
  if s.state.headerBuf.length < headerSize then
    let needed := headerSize - s.state.headerBuf.length
    let toCopy := if payload.length < needed then payload.length else needed
    some (receiveHeader env s (payload.take toCopy), payload.drop toCopy)
  else do
    let remaining := (s.state.fileSize - s.state.bytesReceived).toNat
    let toProcess := if payload.length < remaining then payload.length else remaining
    let s ← receiveData env s (payload.take toProcess)
    some (s, payload.drop toProcess)

/-- The loop over a payload: it returns when it has closed the connection, and takes at least one byte in every
turn. -/
def receiveLoop (env : Env) : ℕ → Server → List UInt8 → Option Server
  | _, s, [] => some s
  | 0, _, _ :: _ => none
  | turns + 1, s, payload => do
    let (s, rest) ← receiveStep env s payload
    if s.closed.isSome then some s else receiveLoop env turns s rest

/-- The client has closed: a reply with two bytes never set goes out before the user's function is called. -/
def remoteClosed (env : Env) (s : Server) : Server :=
  if s.state.bytesReceived = s.state.fileSize ∧ s.state.fileSize ≠ 0 then
    let s := s.reply (leBytes 4 (crc32Bitwise s.file).toNat ++ env.stack)
    { (callFunc env s).1 with closed := some .ok }
  else { s with closed := some .ok }

/-- `file_recv_callback`; it looks at the first buffer of a chain only. -/
def fileRecvCallback (env : Env) (s : Server) : Option Pbuf → Option (Server × Err)
  | none => some (remoteClosed env s, .ok)
  | some p => do
    let s ← receiveLoop env p.payload.length s p.payload
    some (s, s.closed.getD .ok)

/-- The callbacks of a connection; none comes after it was closed. -/
def runCallbacks (env : Env) : Server → List (Option Pbuf) → Option Server
  | s, [] => some s
  | s, p :: rest =>
    if s.closed.isSome then some s
    else do
      let (s, _) ← fileRecvCallback env s p
      runCallbacks env s rest

end AieBaremetal.Net
