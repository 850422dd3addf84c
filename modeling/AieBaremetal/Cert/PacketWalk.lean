import AieBaremetal.Common.ByteMemory
import AieBaremetal.Cert.HostQueue
import Mathlib.Data.List.Forall2

/-!
# Reading a packet as the firmware does

A reader that knows only `host_queue.h` and the device's memory: it checks the header of each level,
takes the next address from an indirect entry, and collects the `exec_buf`s it ends at, each with the
`uc_index` of its entry. At anything else it stops without a result. Of the first two bytes of a
header only the type is looked at.
-/

namespace AieBaremetal.Cert

open Common

abbrev DeviceMemory := ℕ → UInt8

/-- A little-endian number of the device's memory. -/
def readNat (dev : DeviceMemory) (address width : ℕ) : ℕ := leNat (load dev (address + ·) width)

def readHeader (dev : DeviceMemory) (address : ℕ) : CommonHeader where
  type := BitVec.ofNat 8 (readNat dev address 1)
  opcode := BitVec.ofNat 16 (readNat dev (address + 2) 2)
  count := BitVec.ofNat 16 (readNat dev (address + 4) 2)
  distribute := BitVec.ofNat 8 (readNat dev (address + 6) 1)
  indirect := BitVec.ofNat 8 (readNat dev (address + 7) 1)

def readEntry (dev : DeviceMemory) (address : ℕ) : IndirectEntry where
  hostAddrLow := BitVec.ofNat 32 (readNat dev address 4)
  hostAddrHigh := BitVec.ofNat 25 (readNat dev (address + 4) 4)
  ucIndex := BitVec.ofNat 7 (readNat dev (address + 4) 4 / 2 ^ 25)

def readExecBuf (dev : DeviceMemory) (address : ℕ) : ExecBuf where
  cuIndex := BitVec.ofNat 16 (readNat dev address 2)
  dpuControlCodeHostAddrLow := BitVec.ofNat 32 (readNat dev (address + 4) 4)
  dpuControlCodeHostAddrHigh := BitVec.ofNat 32 (readNat dev (address + 8) 4)
  argsLen := BitVec.ofNat 16 (readNat dev (address + 12) 2)
  argsHostAddrLow := BitVec.ofNat 32 (readNat dev (address + 16) 4)
  argsHostAddrHigh := BitVec.ofNat 32 (readNat dev (address + 20) 4)

/-- The next level: twenty-five high bits, then thirty-two low ones. -/
def IndirectEntry.address (entry : IndirectEntry) : ℕ := entry.hostAddrHigh.toNat * 2 ^ 32 + entry.hostAddrLow.toNat

def ExecBuf.codeAddress (eb : ExecBuf) : ℕ :=
  eb.dpuControlCodeHostAddrHigh.toNat * 2 ^ 32 + eb.dpuControlCodeHostAddrLow.toNat

/-- An `exec_buf` and the `uc_index` it is tagged with. -/
abbrev Reached := ℕ × ExecBuf

/-- Follow so many indirect entries from an address on. -/
def walkEntries (dev : DeviceMemory) (follow : ℕ → ℕ → Option (List Reached)) : ℕ → ℕ → Option (List Reached)
  | 0, _ => some []
  | n + 1, address => do
    let entry := readEntry dev address
    let here ← follow entry.ucIndex.toNat entry.address
    let rest ← walkEntries dev follow n (address + indirectEntrySize)
    some (here ++ rest)

def CommonHeader.runsCode (header : CommonHeader) : Bool :=
  header.type = packetTypeVendorSpecific && header.opcode = packetExecBuf

/-- What a header and a payload lead to, through so many levels. -/
def walk (dev : DeviceMemory) : ℕ → ℕ → ℕ → ℕ → Option (List Reached)
  | 0, ucIndex, header, payload =>
    let ch := readHeader dev header
    if ch.runsCode ∧ ch.indirect = 0#8 ∧ ch.count.toNat = execBufSize then some [(ucIndex, readExecBuf dev payload)]
    else none
  | levels + 1, _, header, payload =>
    let ch := readHeader dev header
    if ch.runsCode ∧ ch.indirect = 1#8 then
      walkEntries dev (fun ucIndex next => walk dev levels ucIndex next (next + commonHeaderSize))
        (ch.count.toNat / indirectEntrySize) payload
    else none

/-- Levels of indirection for a number of columns. -/
def indirectLevels (n : ℕ) : ℕ := if n ≤ hsaMaxLevel1IndirectEntries then 1 else 2

def walkPacket (dev : DeviceMemory) (levels packet : ℕ) : Option (List Reached) :=
  walk dev levels 0 packet (packet + xrtPacketHeaderSize)

/-- The device finds a string at an address. -/
def HoldsAt (dev : DeviceMemory) (address : ℕ) (bytes : List UInt8) : Prop := Contains dev (address + ·) bytes

/-- Each column has exactly one `exec_buf`, tagged with it, whose range holds its code, and there is nothing else.
-/
def ReachesColumns (dev : DeviceMemory) (reached : List Reached) (cols : List (ℤ × List UInt8)) : Prop :=
  ∃ ordered, reached.Perm ordered ∧
    List.Forall₂ (fun column r => (r.1 : ℤ) = column.1 ∧
      HoldsAt dev r.2.codeAddress column.2) cols ordered

section Read

variable {dev : DeviceMemory} {address : ℕ}

theorem readNat_of_holdsAt {width value : ℕ} (h : HoldsAt dev address (leBytes width value))
    (hvalue : value < 256 ^ width) : readNat dev address width = value := by
  rw [HoldsAt, Contains, leBytes_length] at h
  rw [readNat, h, leNat_leBytes_of_lt width value hvalue]

theorem holdsAt_append {front back : List UInt8} :
    HoldsAt dev address (front ++ back) ↔ HoldsAt dev address front ∧
    HoldsAt dev (address + front.length) back := by
  have hcell : (fun i => address + (front.length + i)) = (address + front.length + ·) := by
    funext i
    rw [Nat.add_assoc]
  rw [HoldsAt, contains_append, hcell]
  rfl

theorem readHeader_of_holdsAt {header : CommonHeader} (htype : HoldsAt dev address (leBytes 1 header.type.toNat))
    (hfields : HoldsAt dev (address + 2) header.fieldBytes) : readHeader dev address = header := by
  simp only [CommonHeader.fieldBytes, holdsAt_append, List.length_append, leBytes_length, Nat.add_assoc,
    Nat.reduceAdd] at hfields
  obtain ⟨⟨⟨hopcode, hcount⟩, hdistribute⟩, hindirect⟩ := hfields
  have h8 (x : BitVec 8) : x.toNat < 256 ^ 1 := by simpa using x.isLt
  have h16 (x : BitVec 16) : x.toNat < 256 ^ 2 := by simpa using x.isLt
  simp only [readHeader, readNat_of_holdsAt htype (h8 _), readNat_of_holdsAt hopcode (h16 _),
    readNat_of_holdsAt hcount (h16 _), readNat_of_holdsAt hdistribute (h8 _),
    readNat_of_holdsAt hindirect (h8 _), BitVec.ofNat_toNat, BitVec.setWidth_eq]

theorem readHeader_of_bytes {header : CommonHeader} (h : HoldsAt dev address header.bytes) :
    readHeader dev address = header := by
  obtain ⟨htype, hfields⟩ := holdsAt_append.mp h
  exact readHeader_of_holdsAt
    (holdsAt_append.mp (show HoldsAt dev address (leBytes 1 _ ++ leBytes 1 _) from htype)).1
    hfields

theorem readExecBuf_of_holdsAt {eb : ExecBuf} (h : HoldsAt dev address eb.bytes) :
    readExecBuf dev address = eb := by
  simp only [ExecBuf.bytes, holdsAt_append, List.length_append, leBytes_length, Nat.reduceAdd] at h
  obtain ⟨⟨⟨⟨⟨⟨⟨hcu, -⟩, hlow⟩, hhigh⟩, hlen⟩, -⟩, hargsLow⟩, hargsHigh⟩ := h
  have h16 (x : BitVec 16) : x.toNat < 256 ^ 2 := by simpa using x.isLt
  have h32 (x : BitVec 32) : x.toNat < 256 ^ 4 := by simpa using x.isLt
  simp only [readExecBuf, readNat_of_holdsAt hcu (h16 _), readNat_of_holdsAt hlow (h32 _),
    readNat_of_holdsAt hhigh (h32 _), readNat_of_holdsAt hlen (h16 _), readNat_of_holdsAt hargsLow (h32 _),
    readNat_of_holdsAt hargsHigh (h32 _), BitVec.ofNat_toNat, BitVec.setWidth_eq]

theorem readEntry_of_holdsAt {entry : IndirectEntry} (h : HoldsAt dev address entry.bytes) :
    readEntry dev address = entry := by
  obtain ⟨hlow, hword⟩ := holdsAt_append.mp h
  rw [leBytes_length] at hword
  have hhigh := entry.hostAddrHigh.isLt
  have huc := entry.ucIndex.isLt
  have hlow' := readNat_of_holdsAt hlow (by simpa using entry.hostAddrLow.isLt)
  have hword' := readNat_of_holdsAt hword (by omega)
  have hucIndex : (entry.hostAddrHigh.toNat + 2 ^ 25 * entry.ucIndex.toNat) / 2 ^ 25 =
    entry.ucIndex.toNat := by omega
  have hmod : BitVec.ofNat 25 (entry.hostAddrHigh.toNat + 2 ^ 25 * entry.ucIndex.toNat) = entry.hostAddrHigh := by
    apply BitVec.eq_of_toNat_eq
    rw [BitVec.toNat_ofNat]
    omega
  rw [readEntry, hlow', hword', hucIndex, hmod, BitVec.ofNat_toNat, BitVec.ofNat_toNat, BitVec.setWidth_eq,
    BitVec.setWidth_eq]

end Read

end AieBaremetal.Cert
