import AieBaremetal.Common.BitMemory
import AieBaremetal.Cert.Host

/-!
# Loading a control ELF

`cert_elf_loader::parse` walks the sections, applies the relocations of `.rela.dyn` in place and
concatenates the sections of each column. The file is given as the ELF library presents it, with one
zero byte kept behind the contents of a section. The loader's strings and buffers point into the
sections, so a relocation may change what a later one reads. An access behind the end of a buffer has
no defined result. Segments are only logged and left out, as are unused fields of a symbol.
-/

namespace AieBaremetal.Cert

open Common

section File

/-- An entry of a relocation section. -/
structure RelaPatch where
  offset : BitVec 64
  symbol : BitVec 32
  type : BitVec 32
  addend : BitVec 64
deriving DecidableEq, Repr

/-- A symbol; its name is an offset into the linked strings. -/
structure ElfSymbol where
  stName : ℕ
  sectionIndex : BitVec 16
deriving DecidableEq, Repr

structure ElfSection where
  name : List Char
  data : Option (List UInt8)
  /-- Number of the linked section. -/
  link : ℕ
  relas : List RelaPatch
  symbols : List ElfSymbol
deriving DecidableEq, Repr

structure Elf where
  abiVersion : BitVec 8
  sections : List ElfSection
deriving DecidableEq, Repr

/-- Bytes by section number and offset. -/
abbrev SectionMemory := ℕ × ℕ → UInt8

def Elf.contents (elf : Elf) (sec : ℕ) : Option (List UInt8) := elf.sections[sec]?.bind ElfSection.data

def Elf.memory (elf : Elf) : SectionMemory := fun place => ((elf.contents place.1).getD []).getD place.2 0

/-- Bytes of the buffer: the contents and a zero. -/
def Elf.bufferSize (elf : Elf) (sec : ℕ) : ℕ :=
  match elf.contents sec with
  | some data => data.length + 1
  | none => 0

/-- `get_string`, with the empty name where no string is terminated. -/
def getString (strings : Option (List UInt8)) (index : ℕ) : List UInt8 :=
  let rest := (strings.getD []).drop index
  if 0 ∈ rest then rest.takeWhile (· ≠ 0) else []

structure DynsymPatch where
  symName : List UInt8
  sectionIndex : BitVec 16
deriving DecidableEq, Repr

def getSymbol (elf : Elf) (shdr : ElfSection) (symbol : ElfSymbol) : DynsymPatch where
  symName := getString (elf.contents shdr.link) symbol.stName
  sectionIndex := symbol.sectionIndex

end File

section Names

/-- `std::from_chars` for an `int32_t`, over the whole text. -/
def fromChars (text : List Char) : Option ℤ :=
  let negative := text.head? = some '-'
  let digits := if negative then text.tail else text
  if digits = [] ∨ ¬ digits.all Char.isDigit then none
  else
    let n : ℤ := digits.foldl (fun n c => 10 * n + (c.toNat - '0'.toNat)) 0
    let parsed := if negative then -n else n
    if -2 ^ 31 ≤ parsed ∧ parsed < 2 ^ 31 then some parsed else none

/-- Column and page of a name with a given head. -/
def isCtrl (head name : List Char) : Option (ℤ × ℤ) :=
  if name.take head.length ≠ head then none
  else
    let colPage := name.drop head.length
    match colPage.findIdx? (· = '.') with
    | none | some 0 => none
    | some pos => do
      let col ← fromChars (colPage.take pos)
      let page ← fromChars (colPage.drop (pos + 1))
      some (col, page)

def isCtrltext : List Char → Option (ℤ × ℤ) := isCtrl ".ctrltext.".toList

def isCtrldata : List Char → Option (ℤ × ℤ) := isCtrl ".ctrldata.".toList

def isPad (name : List Char) : Option ℤ :=
  let head := ".pad.".toList
  if name.take head.length ≠ head then none else fromChars (name.drop head.length)

def relaDyn : List Char := ".rela.dyn".toList

def dynsymName : List Char := ".dynsym".toList

def dynstrName : List Char := ".dynstr".toList

end Names

section Sections

/-- Text and data of a page, each a section and a size. -/
structure CtrlPage where
  textBuf : Option (ℕ × ℕ)
  dataBuf : Option (ℕ × ℕ)
deriving DecidableEq, Repr

/-- Pages by number, ascending, and pads of a column. -/
structure ColCode where
  pages : List (ℤ × CtrlPage)
  pad : List (ℕ × ℕ)
deriving DecidableEq, Repr

/-- What the loader collects; a string of `.dynstr` is a section and an offset. -/
structure Ccode where
  cols : List (ℤ × ColCode)
  rela : List RelaPatch
  dynsym : List DynsymPatch
  dynstr : List (ℕ × ℕ)
deriving DecidableEq, Repr

/-- Change an element, which `operator[]` creates if it is missing. -/
def mapUpdate {V : Type} (key : ℤ) (fresh : V) (f : V → V) : List (ℤ × V) → List (ℤ × V)
  | [] => [(key, f fresh)]
  | (k, v) :: rest =>
    if k < key then (k, v) :: mapUpdate key fresh f rest
    else if k = key then (k, f v) :: rest
    else (key, f fresh) :: (k, v) :: rest

def Ccode.updateCol (cc : Ccode) (col : ℤ) (f : ColCode → ColCode) : Ccode :=
  { cc with cols := mapUpdate col ⟨[], []⟩ f cc.cols }

def Ccode.updatePage (cc : Ccode) (col page : ℤ) (f : CtrlPage → CtrlPage) : Ccode :=
  cc.updateCol col fun c => { c with pages := mapUpdate page ⟨none, none⟩ f c.pages }

/-- The strings start at the beginning and behind each zero. -/
def stringStarts : List UInt8 → ℕ → Bool → List ℕ
  | [], _, _ => []
  | b :: rest, p, starts => (if starts then [p] else []) ++ stringStarts rest (p + 1) (b == 0)

/-- A turn of the loop over the sections. -/
def parseSection (elf : Elf) (cc : Ccode) (i : ℕ) (shdr : ElfSection) : Ccode :=
  match shdr.data with
  | none => cc
  | some data =>
    match isCtrltext shdr.name, isCtrldata shdr.name, isPad shdr.name with
    | some (col, page), _, _ => cc.updatePage col page fun p => { p with textBuf := some (i, data.length) }
    | none, some (col, page), _ => cc.updatePage col page fun p => { p with dataBuf := some (i, data.length) }
    | none, none, some col => cc.updateCol col fun c => { c with pad := c.pad ++ [(i, data.length)] }
    | none, none, none =>
      if shdr.name = relaDyn then { cc with rela := cc.rela ++ shdr.relas }
      else if shdr.name = dynsymName then { cc with dynsym := cc.dynsym ++ shdr.symbols.map (getSymbol elf shdr) }
      else if shdr.name = dynstrName then { cc with dynstr := cc.dynstr ++ (stringStarts data 0 true).map (i, ·) }
      else cc

def parseSections (elf : Elf) : Ccode :=
  elf.sections.zipIdx.foldl (fun cc (shdr, i) => parseSection elf cc i shdr) ⟨[], [], [], []⟩

end Sections

section Patch

def patchScalar32 (m : SectionMemory) (sec pos : ℕ) (patch : BitVec 64) : SectionMemory :=
  let baseAddress := (loadWord m sec pos).setWidth 64 + patch
  storeWord m sec pos ((baseAddress &&& 0xFFFFFFFF#64).setWidth 32)

def aie4Patch57 (m : SectionMemory) (sec pos : ℕ) (offsetVal : BitVec 64) : SectionMemory :=
  let baseAddress := (((loadWord m sec pos).setWidth 64 &&& 0x1FFFFFF#64) <<< 32 |||
    (loadWord m sec (pos + 4)).setWidth 64) + offsetVal
  let m := storeWord m sec (pos + 4) ((baseAddress &&& 0xFFFFFFFF#64).setWidth 32)
  storeWord m sec pos
    ((loadWord m sec pos &&& 0xFE000000#32) ||| ((baseAddress >>> 32) &&& 0x1FFFFFF#64).setWidth 32)

def aie2psPatch57 (m : SectionMemory) (sec pos : ℕ) (patch : BitVec 64) : SectionMemory :=
  let baseAddress := (((loadWord m sec (pos + 32)).setWidth 64 &&& 0x1FF#64) <<< 48 |||
    ((loadWord m sec (pos + 8)).setWidth 64 &&& 0xFFFF#64) <<< 32 |||
      (loadWord m sec (pos + 4)).setWidth 64) + patch
  let m := storeWord m sec (pos + 4) ((baseAddress &&& 0xFFFFFFFF#64).setWidth 32)
  let m := storeWord m sec (pos + 8)
    ((loadWord m sec (pos + 8) &&& 0xFFFF0000#32) ||| ((baseAddress >>> 32) &&& 0xFFFF#64).setWidth 32)
  storeWord m sec (pos + 32)
    ((loadWord m sec (pos + 32) &&& 0xFFFFFE00#32) ||| ((baseAddress >>> 48) &&& 0x1FF#64).setWidth 32)

/-- `aie2ps_patch_ctrl_57`; only the low half is masked. -/
def aie2psPatchCtrl57 (m : SectionMemory) (sec pos : ℕ) (patch : BitVec 64) : SectionMemory :=
  let baseAddress := (((loadWord m sec (pos + 12)).setWidth 64 &&& 0xFFFF#64) <<< 32 |||
    (loadWord m sec (pos + 8)).setWidth 64) + patch
  let m := storeWord m sec (pos + 8) ((baseAddress &&& 0xFFFFFFFC#64).setWidth 32)
  storeWord m sec (pos + 12) ((loadWord m sec (pos + 12) &&& 0xFFFF0000#32) ||| (baseAddress >>> 32).setWidth 32)

/-- `aie4_patch_ctrl_57`; word 1 gets the upper bits of word 0. -/
def aie4PatchCtrl57 (m : SectionMemory) (sec pos : ℕ) (patch : BitVec 64) : SectionMemory :=
  let baseAddress := (((loadWord m sec (pos + 4)).setWidth 64 &&& 0x1FFFFFF#64) <<< 32 |||
    (loadWord m sec (pos + 8)).setWidth 64) + patch
  let m := storeWord m sec (pos + 8) ((baseAddress &&& 0xFFFFFFFF#64).setWidth 32)
  storeWord m sec (pos + 4)
    ((loadWord m sec pos &&& 0xFE000000#32) ||| ((baseAddress >>> 32) &&& 0x1FFFFFF#64).setWidth 32)

/-- How an address is patched. -/
inductive Kind where
  | ucDmaRemotePtrSymbolKind
  | shimDmaBaseAddrSymbolKind
  | scalar32BitKind
  | controlPacket48
  | shimDmaAie4BaseAddrSymbolKind
  | controlPacket57
  | controlPacket57Aie4
  | unknownSymbolKind
deriving DecidableEq, Repr

def Kind.ofValue (value : BitVec 32) : Option Kind :=
  match value.toNat with
  | 1 => some .ucDmaRemotePtrSymbolKind
  | 2 => some .shimDmaBaseAddrSymbolKind
  | 3 => some .scalar32BitKind
  | 4 => some .controlPacket48
  | 6 => some .shimDmaAie4BaseAddrSymbolKind
  | 7 => some .controlPacket57
  | 9 => some .controlPacket57Aie4
  | 10 => some .unknownSymbolKind
  | _ => none

def Kind.words : Kind → List ℕ
  | .scalar32BitKind => [0]
  | .shimDmaBaseAddrSymbolKind => [1, 2, 8]
  | .shimDmaAie4BaseAddrSymbolKind => [0, 1]
  | .controlPacket57 => [2, 3]
  | .controlPacket57Aie4 => [0, 1, 2]
  | _ => []

def Kind.patch : Kind → SectionMemory → ℕ → ℕ → BitVec 64 → SectionMemory
  | .scalar32BitKind => patchScalar32
  | .shimDmaBaseAddrSymbolKind => aie2psPatch57
  | .shimDmaAie4BaseAddrSymbolKind => aie4Patch57
  | .controlPacket57 => aie2psPatchCtrl57
  | .controlPacket57Aie4 => aie4PatchCtrl57
  | _ => fun m _ _ _ => m

/-- The kind of a relocation; older files keep it in the addend. -/
def relaKind (elf : Elf) (rela : RelaPatch) : Option Kind :=
  Kind.ofValue (if elf.abiVersion = 2#8 then rela.type else rela.addend.setWidth 32)

/-- What a relocation adds to the value of its symbol. -/
def relaAddend (elf : Elf) (rela : RelaPatch) : BitVec 64 :=
  if elf.abiVersion = 2#8 then rela.addend else rela.addend >>> 4

/-- Where a relocation is, behind the header of 16 bytes. -/
def relaPos (rela : RelaPatch) : ℕ := (rela.offset + 16#64).toNat

/-- A relocation whose patcher is called. -/
structure Applied where
  rela : RelaPatch
  name : List UInt8
  value : BitVec 64
  sec : ℕ
  kind : Kind
deriving DecidableEq, Repr

/-- What the loop decides about a relocation. -/
inductive RelaStep where
  | skip
  | fault
  | apply (applied : Applied)
deriving DecidableEq, Repr

/-- The string at a place, up to its zero. -/
def stringAt (elf : Elf) (m : SectionMemory) (place : ℕ × ℕ) : Option (List UInt8) :=
  let bytes := load m (fun i => (place.1, place.2 + i)) (elf.bufferSize place.1 - place.2)
  if 0 ∈ bytes then some (bytes.takeWhile (· ≠ 0)) else none

abbrev SymbolMap := List (List UInt8 × BitVec 64)

/-- Find out what to patch for a relocation. -/
def resolveRela (elf : Elf) (cc : Ccode) (symbolMap : SymbolMap) (m : SectionMemory) (rela : RelaPatch) :
    RelaStep :=
  match cc.dynsym[rela.symbol.toNat]?, cc.dynstr[rela.symbol.toNat]? with
  | some dynsym, some dynstr =>
    match stringAt elf m dynstr with
    | none => .fault
    | some name =>
      match symbolMap.lookup name, elf.sections[dynsym.sectionIndex.toNat]?, relaKind elf rela with
      | some value, some _, some kind =>
        if kind.words = [] then .skip else .apply ⟨rela, name, value, dynsym.sectionIndex.toNat, kind⟩
      | _, _, _ => .skip
  | _, _ => .skip

/-- The words of a patch are in the buffer of its section. -/
def Applied.InBuffer (elf : Elf) (a : Applied) :
    Prop := ∀ j ∈ a.kind.words, relaPos a.rela + 4 * j + 4 ≤ elf.bufferSize a.sec

instance (elf : Elf) (a : Applied) :
    Decidable (a.InBuffer elf) := inferInstanceAs (Decidable (∀ j ∈ a.kind.words, _))

def Applied.run (elf : Elf) (a : Applied) (m : SectionMemory) : SectionMemory :=
  a.kind.patch m a.sec (relaPos a.rela) (a.value + relaAddend elf a.rela)

/-- A turn of the loop: the relocation if its patcher is called, and the memory behind it. -/
def patchRela (elf : Elf) (cc : Ccode) (symbolMap : SymbolMap) (m : SectionMemory) (rela : RelaPatch) :
    Option Applied × Option SectionMemory :=
  match resolveRela elf cc symbolMap m rela with
  | .skip => (none, some m)
  | .fault => (none, none)
  | .apply a => (some a, if a.InBuffer elf then some (a.run elf m) else none)

def patchRelas (elf : Elf) (cc : Ccode) (symbolMap : SymbolMap) :
    List RelaPatch → SectionMemory → List Applied × Option SectionMemory
  | [], m => ([], some m)
  | rela :: rest, m =>
    match patchRela elf cc symbolMap m rela with
    | (here, none) => (here.toList, none)
    | (here, some m) =>
      let after := patchRelas elf cc symbolMap rest m
      (here.toList ++ after.1, after.2)

end Patch

section Parse

def bufBytes (m : SectionMemory) (buf : ℕ × ℕ) : List UInt8 := load m (fun i => (buf.1, i)) buf.2

/-- The code of a column: page by page, then the pads. -/
def colCode (m : SectionMemory) (col : ColCode) : List UInt8 :=
  (col.pages.flatMap fun (_, page) => (page.textBuf.elim [] (bufBytes m)) ++ (page.dataBuf.elim [] (bufBytes m))) ++
    col.pad.flatMap (bufBytes m)

/-- The relocations that are applied, and the memory behind them. -/
def patchElf (elf : Elf) (symbolMap : SymbolMap) : List Applied × Option SectionMemory :=
  patchRelas elf (parseSections elf) symbolMap (parseSections elf).rela elf.memory

/-- `parse`: the control code of each column. -/
def parse (elf : Elf) (symbolMap : SymbolMap) : Option Columns := do
  let m ← (patchElf elf symbolMap).2
  some ((parseSections elf).cols.map fun (col, code) => (col, colCode m code))

end Parse

end AieBaremetal.Cert
