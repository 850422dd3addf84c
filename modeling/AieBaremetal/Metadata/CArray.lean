import Mathlib.Data.List.Range
import Mathlib.Tactic.IntervalCases

/-!
# Binary files as C arrays

`bin_to_c_array` prints the bytes of a file as the initialiser of a C array, twelve in a line, and their
number after it; whether a comma ends a line is decided by comparing positions. The initialiser is read
back by splitting it at the commas: every field holds one byte in hexadecimal with blanks around it, and
a field without a byte is not accepted.
-/

namespace AieBaremetal.Metadata

/-- One byte, as the format `0x` and `02x` prints it. -/
def hexText (byte : UInt8) : List Char :=
  ['0', 'x', Nat.digitChar (byte.toNat / 16), Nat.digitChar (byte.toNat % 16)]

/-- The line for the bytes from position `i` on. -/
def arrayLine (data : List UInt8) (i : ℕ) : List Char :=
  let line := [',', ' '].intercalate (((data.drop i).take 12).map hexText)
  if (i + 12 : ℤ) ≤ data.length - 1 then [' ', ' '] ++ line ++ [','] else [' ', ' '] ++ line

/-- Where lines start: `range(0, dlen, 12)`. -/
def lineStarts (dlen : ℕ) : List ℕ := List.range' 0 ((dlen + 11) / 12) 12

/-- `bin_to_c_array`, given the bytes of the file. -/
def binToCArray (varName : List Char) (data : List UInt8) : List Char :=
  ['\n'].intercalate
    (["unsigned char ".toList ++ varName ++ "[] = \x7b".toList] ++ (lineStarts data.length).map (arrayLine data) ++
      ["\x7d;".toList, "unsigned int ".toList ++ varName ++ "_len =  ".toList ++
        Nat.toDigits 10 data.length ++ [';']])

def isBlank (c : Char) : Bool := c = ' ' || c = '\n'

def hexValue (c : Char) : Option ℕ := (List.range 16).find? fun d => Nat.digitChar d = c

def readField (field : List Char) : Option UInt8 :=
  match field.dropWhile isBlank with
  | '0' :: 'x' :: high :: low :: rest => do
    let h ← hexValue high
    let l ← hexValue low
    if rest.all isBlank then some (UInt8.ofNat (16 * h + l)) else none
  | _ => none

def readInitialiser (text : List Char) : Option (List UInt8) :=
  if text.all isBlank then some [] else (text.splitOn ',').mapM readField

/-- Bytes with blanks around them, and a comma between any two. -/
inductive ByteList : List UInt8 → List Char → Prop
  | one (byte : UInt8) {before after : List Char} (hbefore : before.all isBlank) (hafter : after.all isBlank) :
    ByteList [byte] (before ++ hexText byte ++ after)
  | cons (byte : UInt8) {before after : List Char} (hbefore : before.all isBlank) (hafter : after.all isBlank)
    {bytes : List UInt8} {text : List Char} (h : ByteList bytes text) :
    ByteList (byte :: bytes) (before ++ hexText byte ++ after ++ ',' :: text)

variable {bytes more : List UInt8} {text rest : List Char}

theorem ByteList.before (h : ByteList bytes text) (blanks : List Char) (hblanks : blanks.all isBlank) :
    ByteList bytes (blanks ++ text) := by
  cases h with
  | one byte hbefore hafter =>
    simp only [← List.append_assoc]
    exact .one byte (by simp [hblanks, hbefore]) hafter
  | cons byte hbefore hafter h =>
    simp only [← List.append_assoc]
    exact .cons byte (by simp [hblanks, hbefore]) hafter h

theorem ByteList.after (h : ByteList bytes text) (blanks : List Char) (hblanks : blanks.all isBlank) :
    ByteList bytes (text ++ blanks) := by
  induction h with
  | one byte hbefore hafter =>
    rw [List.append_assoc]
    exact .one byte hbefore (by simp [hblanks, hafter])
  | cons byte hbefore hafter h ih =>
    rw [List.append_assoc, List.cons_append]
    exact .cons byte hbefore hafter ih

theorem ByteList.append (h : ByteList bytes text) (hmore : ByteList more rest) :
    ByteList (bytes ++ more) (text ++ ',' :: rest) := by
  induction h with
  | one byte hbefore hafter => exact .cons byte hbefore hafter hmore
  | cons byte hbefore hafter h ih =>
    rw [List.append_assoc, List.cons_append]
    exact .cons byte hbefore hafter ih

/-- A line without its end lists its bytes. -/
theorem byteList_intercalate (hne : bytes ≠ []) : ByteList bytes ([',', ' '].intercalate (bytes.map hexText)) := by
  induction bytes with
  | nil => exact absurd rfl hne
  | cons byte bytes ih =>
    have hone : ByteList [byte] (hexText byte) := @ByteList.one byte [] [] rfl rfl
    cases bytes with
    | nil => simpa [List.intercalate] using hone
    | cons next bytes =>
      have hrest := (ih (List.cons_ne_nil _ _)).before [' '] rfl
      simpa [List.intercalate] using hone.append hrest

/-- The lines from position `i` on list the bytes from there on. -/
theorem byteList_lines (data : List UInt8) {n i : ℕ} (hlow : i + 12 * n < data.length)
    (hhigh : data.length ≤ i + 12 * (n + 1)) :
    ByteList (data.drop i) ((List.range' i (n + 1) 12).flatMap fun j => '\n' :: arrayLine data j) := by
  induction n generalizing i with
  | zero =>
    have hne : data.drop i ≠ [] := List.ne_nil_of_length_pos (by rw [List.length_drop]; omega)
    have hall : (data.drop i).take 12 = data.drop i := List.take_of_length_le (by rw [List.length_drop]; omega)
    have hline := (byteList_intercalate hne).before ['\n', ' ', ' '] rfl
    have hlast : ¬ (i + 12 : ℤ) ≤ data.length - 1 := by omega
    rw [List.range'_one, List.flatMap_singleton, arrayLine, hall, if_neg hlast]
    exact hline
  | succ n ih =>
    have hne : (data.drop i).take 12 ≠ [] := by
      refine List.ne_nil_of_length_pos ?_
      rw [List.length_take, List.length_drop]
      omega
    have hline := (byteList_intercalate hne).before ['\n', ' ', ' '] rfl
    have hmore : (i + 12 : ℤ) ≤ data.length - 1 := by omega
    have hboth := hline.append (ih (i := i + 12) (by omega) (by omega))
    rw [← List.drop_drop, List.take_append_drop] at hboth
    rw [List.range'_succ, List.flatMap_cons, arrayLine, if_pos hmore]
    simpa using hboth

theorem digitChar_ne_comma {d : ℕ} (h : d < 16) : Nat.digitChar d ≠ ',' := by
  interval_cases d <;> decide

theorem hexValue_digitChar {d : ℕ} (h : d < 16) : hexValue (Nat.digitChar d) = some d := by
  interval_cases d <;> decide

/-- The byte of a printed field is read back, and the field has no comma. -/
theorem readField_hexText (byte : UInt8) {before after : List Char} (hbefore : before.all isBlank)
    (hafter : after.all isBlank) :
    readField (before ++ hexText byte ++ after) = some byte ∧ ',' ∉ before ++ hexText byte ++ after := by
  have hhigh : byte.toNat / 16 < 16 := Nat.div_lt_of_lt_mul byte.toNat_lt
  have hlow : byte.toNat % 16 < 16 := Nat.mod_lt _ (by decide)
  constructor
  · have hdrop : (before ++ hexText byte ++ after).dropWhile isBlank = hexText byte ++ after := by
      rw [List.append_assoc, List.dropWhile_append_of_pos (by simpa using hbefore)]
      rfl
    have hvalue : UInt8.ofNat (16 * (byte.toNat / 16) + byte.toNat % 16) = byte := by
      rw [Nat.div_add_mod, UInt8.ofNat_toNat]
    rw [readField, hdrop]
    simp only [hexText, List.cons_append, List.nil_append, hexValue_digitChar hhigh,
      hexValue_digitChar hlow, hafter, Option.bind_eq_bind, Option.bind_some, if_true, hvalue]
  · have hblank {cs : List Char} (hcs : cs.all isBlank) : ',' ∉ cs := fun hmem =>
      absurd (List.all_eq_true.mp hcs _ hmem) (by decide)
    have hdigits : ',' ∉ hexText byte := by
      simp [hexText, (digitChar_ne_comma hhigh).symm, (digitChar_ne_comma hlow).symm]
    simp only [List.mem_append, not_or]
    exact ⟨⟨hblank hbefore, hdigits⟩, hblank hafter⟩

theorem ByteList.mapM_splitOn (h : ByteList bytes text) : (text.splitOn ',').mapM readField = some bytes := by
  induction h with
  | one byte hbefore hafter =>
    obtain ⟨hread, hcomma⟩ := readField_hexText byte hbefore hafter
    rw [List.splitOn_eq_singleton hcomma, List.mapM_cons, hread]
    rfl
  | cons byte hbefore hafter h ih =>
    obtain ⟨hread, hcomma⟩ := readField_hexText byte hbefore hafter
    rw [List.splitOn_append_cons_self_of_not_mem hcomma, List.mapM_cons, hread, ih]
    rfl

theorem ByteList.readInitialiser (h : ByteList bytes text) : readInitialiser text = some bytes := by
  have hnot : text.all isBlank = false := by
    cases h <;> simp [hexText, isBlank]
  rw [Metadata.readInitialiser, hnot]
  exact h.mapM_splitOn

/-- Lines joined with line breaks. -/
theorem intercalate_newline (first : List Char) (lines : List (List Char)) :
    ['\n'].intercalate (first :: lines) = first ++ lines.flatMap ('\n' :: ·) := by
  induction lines generalizing first with
  | nil => simp [List.intercalate]
  | cons line lines ih =>
    have hrest := ih line
    simp only [List.intercalate, List.intersperse_cons_cons, List.flatten_cons] at hrest ⊢
    simp [hrest]

/-- The initialiser in the printed text of every file lists its bytes and is read back as them, and the length
follows. -/
theorem binToCArray_reads_back (varName : List Char) (data : List UInt8) :
    ∃ init, binToCArray varName data =
        "unsigned char ".toList ++ varName ++ "[] = \x7b".toList ++ init ++ "\x7d;\n".toList ++
          ("unsigned int ".toList ++ varName ++ "_len =  ".toList ++ Nat.toDigits 10 data.length ++ [';']) ∧
      readInitialiser init = some data ∧ (data = [] ∨ ByteList data init) := by
  refine ⟨((lineStarts data.length).flatMap fun i => '\n' :: arrayLine data i) ++ ['\n'], ?_, ?_⟩
  · rw [binToCArray, List.singleton_append, List.cons_append, intercalate_newline]
    simp [List.flatMap_map]
  · rcases data.length.eq_zero_or_pos with hzero | hpos
    · obtain rfl := List.eq_nil_of_length_eq_zero hzero
      exact ⟨rfl, .inl rfl⟩
    · have hlines := byteList_lines data (n := (data.length - 1) / 12) (i := 0) (by omega) (by omega)
      have hcount : (data.length + 11) / 12 = (data.length - 1) / 12 + 1 := by omega
      rw [List.drop_zero, ← hcount] at hlines
      have hlist := hlines.after ['\n'] rfl
      exact ⟨hlist.readInitialiser, .inr hlist⟩

end AieBaremetal.Metadata
