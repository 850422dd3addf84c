import AieBaremetal.Common.LittleEndian
import Mathlib.Data.BitVec

/-!
# A debug client of the IPC server

The thread of a debug client reads requests of sixteen bytes and answers each with one response. Only the
two register reads reach the simulator; the payload of a refused command is not read, so it is taken for
the requests that follow. A connection is the pieces that `read` returns until the client closes it; an
interrupted call is an empty piece. A read is answered with a value, or not any more once the server is
done. Responses are sent whole.
-/

namespace AieBaremetal.Ipc

open Common

/-- `recv_all`: the bytes and the pieces left, or a failure at the end of the stream. -/
def recvAll : ℕ → List (List UInt8) → Option (List UInt8 × List (List UInt8))
  | n, [] => if n = 0 then some ([], []) else none
  | n, piece :: pieces =>
    if n ≤ piece.length then some (piece.take n, piece.drop n :: pieces)
    else do
      let (bytes, rest) ← recvAll (n - piece.length) pieces
      some (piece ++ bytes, rest)

/-- `aeg_ps_ipc_request_t` without its reserved bytes. -/
structure Request where
  cmd : BitVec 8
  arg1 : BitVec 64
  arg2 : BitVec 32
  deriving DecidableEq, Repr

def cmdRead32 : BitVec 8 := 0x11

def cmdNpiRead32 : BitVec 8 := 0x13

def cmdWriteGm : BitVec 8 := 0x20

def cmdGraphInit : BitVec 8 := 0x40

inductive Status where
  | ok
  | errProto
  | errIo
  deriving DecidableEq, Repr

/-- `aeg_ps_ipc_response_t` without its reserved bytes. -/
structure Response where
  status : Status
  value : BitVec 64
  deriving DecidableEq, Repr

def Request.bytes (req : Request) : List UInt8 :=
  leBytes 1 req.cmd.toNat ++ ([0, 0, 0] ++ (leBytes 8 req.arg1.toNat ++ leBytes 4 req.arg2.toNat))

def Request.ofBytes (bytes : List UInt8) : Request where
  cmd := BitVec.ofNat 8 (leNat (bytes.take 1))
  arg1 := BitVec.ofNat 64 (leNat ((bytes.drop 4).take 8))
  arg2 := BitVec.ofNat 32 (leNat (bytes.drop 12))

/-- Whether a request comes with `arg2` bytes of payload. -/
def Request.hasPayload (req : Request) : Bool := req.cmd = cmdWriteGm || req.cmd = cmdGraphInit

/-- A call of `send_request` with its payload. -/
structure Call where
  req : Request
  payload : List UInt8
  payload_length : payload.length = if req.hasPayload then req.arg2.toNat else 0

def Call.sent (call : Call) : List UInt8 := call.req.bytes ++ call.payload

/-- The response to a request, given what a read is answered. -/
def respond (req : Request) (answer : Option (BitVec 32)) : Response :=
  if req.cmd = cmdRead32 ∨ req.cmd = cmdNpiRead32 then
    match answer with
    | some value => ⟨.ok, value.setWidth 64⟩
    | none => ⟨.errIo, 0⟩
  else ⟨.errProto, 0⟩

/-- `run_debug_client_thread`: its responses, given the simulator's answers by turn. Without fuel there is no
result. -/
def runDebugClient : ℕ → (ℕ → Request → Option (BitVec 32)) → List (List UInt8) → Option (List Response)
  | 0, _, _ => none
  | fuel + 1, answers, pieces =>
    match recvAll 16 pieces with
    | none => some []
    | some (bytes, rest) => do
      let req := Request.ofBytes bytes
      let more ← runDebugClient fuel (fun turn => answers (turn + 1)) rest
      some (respond req (answers 0 req) :: more)

theorem recvAll_append {pieces : List (List UInt8)} {front back : List UInt8} (h : pieces.flatten = front ++ back) :
    ∃ rest, recvAll front.length pieces = some (front, rest) ∧ rest.flatten = back := by
  induction pieces generalizing front with
  | nil =>
    obtain ⟨rfl, rfl⟩ : front = [] ∧ back = [] := by simpa using h.symm
    exact ⟨[], rfl, rfl⟩
  | cons piece pieces ih =>
    rw [List.flatten_cons] at h
    rw [recvAll]
    by_cases hle : front.length ≤ piece.length
    · have htake := congrArg (List.take front.length) h
      have hdrop := congrArg (List.drop front.length) h
      rw [List.take_append_of_le_length hle, List.take_left] at htake
      rw [List.drop_append_of_le_length hle, List.drop_left] at hdrop
      exact ⟨piece.drop front.length :: pieces, by rw [if_pos hle, htake], hdrop⟩
    · -- the piece is the start of what is asked for
      have hle' : piece.length ≤ front.length := (Nat.lt_of_not_le hle).le
      have htake := congrArg (List.take piece.length) h
      have hdrop := congrArg (List.drop piece.length) h
      rw [List.take_append_of_le_length hle', List.take_left] at htake
      rw [List.drop_append_of_le_length hle', List.drop_left] at hdrop
      obtain ⟨rest, hrest, hback⟩ := ih hdrop
      rw [List.length_drop] at hrest
      have hfront : piece ++ front.drop piece.length = front := by
        conv_lhs => rw [htake]
        rw [List.length_take, min_eq_left hle', List.take_append_drop]
      refine ⟨rest, ?_, hback⟩
      rw [if_neg hle, hrest]
      exact congrArg (fun bytes => some (bytes, rest)) hfront

theorem recvAll_nil {pieces : List (List UInt8)} (h : pieces.flatten = []) {n : ℕ} (hpos : 0 < n) :
    recvAll n pieces = none := by
  induction pieces with
  | nil => exact if_neg hpos.ne'
  | cons piece pieces ih =>
    obtain ⟨rfl, hpieces⟩ : piece = [] ∧ pieces.flatten = [] := by simpa using h
    rw [recvAll, List.length_nil, if_neg (Nat.not_le.2 hpos), Nat.sub_zero, ih hpieces]
    rfl

@[simp] theorem Request.bytes_length (req : Request) : req.bytes.length = 16 := by simp [Request.bytes]

theorem Request.ofBytes_bytes (req : Request) : Request.ofBytes req.bytes = req := by
  have hcmd : req.bytes.take 1 = leBytes 1 req.cmd.toNat := List.take_left' (leBytes_length _ _)
  have hdrop : req.bytes.drop 4 = leBytes 8 req.arg1.toNat ++ leBytes 4 req.arg2.toNat := rfl
  have harg1 : (req.bytes.drop 4).take 8 = leBytes 8 req.arg1.toNat := by
    rw [hdrop, List.take_left' (leBytes_length _ _)]
  have harg2 : req.bytes.drop 12 = leBytes 4 req.arg2.toNat := by
    rw [show 12 = 4 + 8 from rfl, ← List.drop_drop, hdrop, List.drop_left' (leBytes_length _ _)]
  rw [Request.ofBytes, hcmd, harg1, harg2, leNat_leBytes_of_lt 1 _ req.cmd.isLt,
    leNat_leBytes_of_lt 8 _ req.arg1.isLt, leNat_leBytes_of_lt 4 _ req.arg2.isLt]
  simp

theorem Call.payload_eq_nil {call : Call} (h : ¬(call.req.hasPayload = true ∧ 0 < call.req.arg2.toNat)) :
    call.payload = [] := by
  apply List.eq_nil_of_length_eq_zero
  rw [call.payload_length]
  split
  next hcmd => exact Nat.eq_zero_of_not_pos fun hpos => h ⟨hcmd, hpos⟩
  next => rfl

/-- On a connection without a payload, however it is cut into pieces, there is one response for each request, in
their order: what the simulator answers to a read or an I/O error, and a protocol error to every other command. -/
theorem runDebugClient_answers (calls : List Call)
    (hpayload : ∀ call ∈ calls, ¬(call.req.hasPayload = true ∧ 0 < call.req.arg2.toNat))
    (answers : ℕ → Request → Option (BitVec 32)) {pieces : List (List UInt8)}
    (h : pieces.flatten = calls.flatMap Call.sent) {fuel : ℕ} (hfuel : calls.length < fuel) :
    runDebugClient fuel answers pieces =
      some (calls.mapIdx fun i call => respond call.req (answers i call.req)) := by
  induction calls generalizing fuel answers pieces with
  | nil =>
    obtain ⟨left, rfl⟩ := Nat.exists_eq_add_one.2 hfuel
    rw [runDebugClient, recvAll_nil h (by decide)]
    rfl
  | cons call calls ih =>
    obtain ⟨left, rfl⟩ := Nat.exists_eq_add_one.2 (Nat.zero_lt_of_lt hfuel)
    have hsent : call.sent = call.req.bytes := by
      rw [Call.sent, Call.payload_eq_nil (hpayload call List.mem_cons_self), List.append_nil]
    rw [List.flatMap_cons, hsent] at h
    obtain ⟨rest, hrecv, hrest⟩ := recvAll_append h
    rw [Request.bytes_length] at hrecv
    have hmore := ih (fun later hlater => hpayload later (List.mem_cons_of_mem _ hlater))
      (fun turn => answers (turn + 1)) hrest (Nat.lt_of_succ_lt_succ hfuel)
    simp only [runDebugClient, hrecv, hmore, Request.ofBytes_bytes, List.mapIdx_cons]
    rfl

def readCall : Call := ⟨⟨cmdRead32, 0, 0⟩, [], rfl⟩

def writeCall : Call := ⟨⟨cmdWriteGm, 0, 16⟩, readCall.req.bytes, rfl⟩

/-- A write of no bytes, which is refused. -/
def emptyWriteCall : Call := ⟨⟨cmdWriteGm, 0, 0⟩, [], rfl⟩

def npiReadCall : Call := ⟨⟨cmdNpiRead32, 0x10, 0⟩, [], rfl⟩

def sampleCalls : List Call := [readCall, emptyWriteCall, npiReadCall]

/-- Three requests in pieces cut inside of them; the write is refused, and the server is done when the second read
comes. -/
theorem runDebugClient_answers_sample :
    runDebugClient 4 (fun turn _ => if turn = 0 then some 7 else none)
      [(sampleCalls.flatMap Call.sent).take 5, [], ((sampleCalls.flatMap Call.sent).drop 5).take 30,
        (sampleCalls.flatMap Call.sent).drop 35] = some [⟨.ok, 7⟩, ⟨.errProto, 0⟩, ⟨.errIo, 0⟩] :=
  runDebugClient_answers sampleCalls (by decide) (fun turn _ => if turn = 0 then some 7 else none)
    (by decide) (by decide)

/-- The refused write has two responses, the second being the answer to a read nobody asked for. -/
theorem runDebugClient_payload :
    runDebugClient 3 (fun _ _ => some 7) [writeCall.sent] = some [⟨.errProto, 0⟩, ⟨.ok, 7⟩] := by
  decide +kernel

end AieBaremetal.Ipc
