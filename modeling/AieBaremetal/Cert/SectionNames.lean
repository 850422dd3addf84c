import AieBaremetal.Cert.ElfLoader
import Mathlib.Data.List.TakeWhile

/-!
# Names of control code sections

The loader recognises sections by their names: text and data of a page by column and page, pads by
column. The recognisers are given once more with their out parameters and with `std::from_chars` as
the standard defines it, which reads the longest numeral in front of a text. The accepted names are
exactly the ones with numerals that fit into 32 signed bits.
-/

namespace AieBaremetal.Cert

/-- How `std::from_chars` ends. -/
inductive Errc where
  | ok
  | invalidArgument
  | resultOutOfRange
deriving DecidableEq, Repr

/-- `std::from_chars_result`; the pointer is the text behind it. -/
structure FromCharsResult where
  rest : List Char
  ec : Errc
deriving DecidableEq, Repr

/-- The text starts with a minus sign. -/
def isNegative (text : List Char) : Bool := text.head? = some '-'

/-- The text behind a minus sign. -/
def unsignedPart (text : List Char) : List Char := if isNegative text then text.tail else text

/-- The number that digits denote, with or without a minus sign. -/
def decimalValue (negative : Bool) (digits : List Char) : ℤ :=
  let n : ℤ := digits.foldl (fun n c => 10 * n + (c.toNat - '0'.toNat)) 0
  if negative then -n else n

def FitsInt32 (v : ℤ) : Prop := -2 ^ 31 ≤ v ∧ v < 2 ^ 31

instance (v : ℤ) : Decidable (FitsInt32 v) := inferInstanceAs (Decidable (_ ∧ _))

/-- `std::from_chars` for an `int32_t`: the longest numeral in front. Without a digit nothing is read, and the
value is only set if it fits. -/
def stdFromChars (text : List Char) (value : ℤ) : FromCharsResult × ℤ :=
  let digits := (unsignedPart text).takeWhile Char.isDigit
  let rest := (unsignedPart text).dropWhile Char.isDigit
  if digits = [] then (⟨text, .invalidArgument⟩, value)
  else
    let parsed := decimalValue (isNegative text) digits
    if FitsInt32 parsed then (⟨rest, .ok⟩, parsed) else (⟨rest, .resultOutOfRange⟩, value)

def isPadInto (name : List Char) (col : ℤ) : Bool × ℤ :=
  let head := ".pad.".toList
  if name.take head.length ≠ head then (false, col)
  else
    let (res, parsed) := stdFromChars (name.drop head.length) 0
    if res.ec ≠ .ok ∨ res.rest ≠ [] then (false, col) else (true, parsed)

/-- Column and page of a name with a given head, in out parameters. -/
def isCtrlInto (head name : List Char) (col page : ℤ) : Bool × ℤ × ℤ :=
  if name.take head.length ≠ head then (false, col, page)
  else
    let colPage := name.drop head.length
    match colPage.findIdx? (· = '.') with
    | none | some 0 => (false, col, page)
    | some pos =>
      let (colRes, parsedCol) := stdFromChars (colPage.take pos) 0
      if colRes.ec ≠ .ok ∨ colRes.rest ≠ [] then (false, col, page)
      else
        let (pageRes, parsedPage) := stdFromChars (colPage.drop (pos + 1)) 0
        if pageRes.ec ≠ .ok ∨ pageRes.rest ≠ [] then (false, col, page) else (true, parsedCol, parsedPage)

/-- Start of the names of text sections. -/
def ctrltextHead : List Char := ".ctrltext.".toList

/-- Start of the names of data sections. -/
def ctrldataHead : List Char := ".ctrldata.".toList

def padHead : List Char := ".pad.".toList

def isCtrltextInto : List Char → ℤ → ℤ → Bool × ℤ × ℤ := isCtrlInto ctrltextHead

def isCtrldataInto : List Char → ℤ → ℤ → Bool × ℤ × ℤ := isCtrlInto ctrldataHead

/-! ## Numerals -/

/-- An optional minus sign and digits, with a value of 32 signed bits. -/
def Numeral (text : List Char) (v : ℤ) : Prop :=
  ∃ digits : List Char, digits ≠ [] ∧ (∀ c ∈ digits, c.isDigit = true) ∧
    (text = digits ∧ v = Nat.ofDigitChars 10 digits 0 ∨ text = '-' :: digits ∧ v = -Nat.ofDigitChars 10 digits 0) ∧
    FitsInt32 v

/-- A given start with the numerals of a column and a page. -/
def CtrlName (head name : List Char) (col page : ℤ) : Prop :=
  ∃ scol spage, name = head ++ scol ++ '.' :: spage ∧ Numeral scol col ∧ Numeral spage page

/-- The start of a pad's name with the numeral of a column. -/
def PadName (name : List Char) (col : ℤ) : Prop := ∃ scol, name = padHead ++ scol ∧ Numeral scol col

theorem ne_minus_of_isDigit {c : Char} (h : c.isDigit = true) : c ≠ '-' := by
  rintro rfl
  exact absurd h (by decide)

theorem ne_dot_of_isDigit {c : Char} (h : c.isDigit = true) : c ≠ '.' := by
  rintro rfl
  exact absurd h (by decide)

theorem decimalValue_eq (negative : Bool) {digits : List Char} (h : ∀ c ∈ digits, c.isDigit = true) :
    decimalValue negative digits = if negative then -(Nat.ofDigitChars 10 digits 0 : ℤ) else
      Nat.ofDigitChars 10 digits 0 := by
  have hfold (n : ℕ) : digits.foldl (fun (n : ℤ) c => 10 * n + (c.toNat - '0'.toNat)) n =
      Nat.ofDigitChars 10 digits n := by
    induction digits generalizing n with
    | nil => rfl
    | cons c rest ih =>
      obtain ⟨hc, hrest⟩ := List.forall_mem_cons.mp h
      have hlow : '0'.toNat ≤ c.toNat := (Char.isDigit_iff_toNat.mp hc).1
      have hdigit : ((c.toNat - '0'.toNat : ℕ) : ℤ) = c.toNat - '0'.toNat := Nat.cast_sub hlow
      rw [List.foldl_cons, Nat.ofDigitChars_cons, ← ih hrest, Nat.cast_add, Nat.cast_mul, hdigit]
      rfl
  have hzero := hfold 0
  rw [Nat.cast_zero] at hzero
  rw [decimalValue, hzero]

theorem fromChars_eq (text : List Char) :
    fromChars text = if unsignedPart text = [] ∨ ¬ (unsignedPart text).all Char.isDigit then none
      else if FitsInt32 (decimalValue (isNegative text) (unsignedPart text)) then
        some (decimalValue (isNegative text) (unsignedPart text)) else none := by
  unfold fromChars unsignedPart decimalValue isNegative FitsInt32
  by_cases h : text.head? = some '-'
  · simp only [h, decide_true, if_true]
  · simp only [h, decide_false, Bool.false_eq_true, if_false]

theorem parts_of_signed {digits : List Char} (hdigits : ∀ c ∈ digits, c.isDigit = true) (negative : Bool) :
    isNegative (if negative then '-' :: digits else digits) = negative ∧
      unsignedPart (if negative then '-' :: digits else digits) = digits := by
  have hhead : digits.head? ≠ some '-' := fun hhead =>
    ne_minus_of_isDigit (hdigits _ (List.mem_of_mem_head? hhead)) rfl
  cases negative with
  | true => simp [unsignedPart, isNegative]
  | false => simp [unsignedPart, isNegative, hhead]

theorem eq_signed (text : List Char) :
    text = if isNegative text then '-' :: unsignedPart text else unsignedPart text := by
  by_cases h : isNegative text = true
  · rw [unsignedPart, if_pos h, if_pos h]
    exact List.eq_cons_of_mem_head? (of_decide_eq_true h)
  · rw [unsignedPart, if_neg h, if_neg h]

variable {head text : List Char} {v : ℤ}

/-- The reading of a whole text accepts exactly the numerals. -/
theorem fromChars_iff : fromChars text = some v ↔ Numeral text v := by
  constructor
  · intro h
    rw [fromChars_eq, Option.ite_none_left_eq_some, Option.ite_none_right_eq_some, not_or, not_not,
      List.all_eq_true] at h
    obtain ⟨⟨hne, hdigits⟩, hfits, hvalue⟩ := h
    rw [decimalValue_eq _ hdigits] at hfits hvalue
    refine ⟨unsignedPart text, hne, hdigits, ?_, Option.some.inj hvalue ▸ hfits⟩
    have htext := eq_signed text
    split_ifs at hvalue htext
    · exact .inr ⟨htext, (Option.some.inj hvalue).symm⟩
    · exact .inl ⟨htext, (Option.some.inj hvalue).symm⟩
  · have hread (digits : List Char) (negative : Bool) (hne : digits ≠ []) (hdigits : ∀ c ∈ digits, c.isDigit = true)
        (hfits : FitsInt32 (decimalValue negative digits)) :
        fromChars (if negative then '-' :: digits else digits) = some (decimalValue negative digits) := by
      obtain ⟨hnegative, hunsigned⟩ := parts_of_signed hdigits negative
      have hshape : ¬ (digits = [] ∨ ¬ digits.all Char.isDigit) :=
        not_or.mpr ⟨hne, not_not.mpr (List.all_eq_true.mpr hdigits)⟩
      rw [fromChars_eq, hnegative, hunsigned, if_neg hshape, if_pos hfits]
    rintro ⟨digits, hne, hdigits, ⟨rfl, rfl⟩ | ⟨rfl, rfl⟩, hfits⟩
    · have hvalue : decimalValue false text = Nat.ofDigitChars 10 text 0 := decimalValue_eq false hdigits
      rw [← hvalue] at hfits ⊢
      exact hread text false hne hdigits hfits
    · have hvalue : decimalValue true digits = -Nat.ofDigitChars 10 digits 0 := decimalValue_eq true hdigits
      rw [← hvalue] at hfits ⊢
      exact hread digits true hne hdigits hfits

theorem stdFromChars_whole (text : List Char) (value : ℤ) :
    (if (stdFromChars text value).1.ec ≠ .ok ∨ (stdFromChars text value).1.rest ≠ [] then none
      else some (stdFromChars text value).2) = fromChars text := by
  rw [fromChars_eq, stdFromChars]
  generalize unsignedPart text = unsigned
  by_cases hall : unsigned.all Char.isDigit = true
  · have htake : unsigned.takeWhile Char.isDigit = unsigned :=
      List.takeWhile_eq_self_iff.mpr (List.all_eq_true.mp hall)
    have hdrop : unsigned.dropWhile Char.isDigit = [] := List.dropWhile_eq_nil_iff.mpr (List.all_eq_true.mp hall)
    rw [htake, hdrop]
    by_cases hnil : unsigned = []
    · simp [hnil]
    · by_cases hfits : FitsInt32 (decimalValue (isNegative text) unsigned)
      · simp [hnil, hall, hfits]
      · simp [hnil, hall, hfits]
  · have hdrop : unsigned.dropWhile Char.isDigit ≠ [] := fun h =>
      hall (List.all_eq_true.mpr (List.dropWhile_eq_nil_iff.mp h))
    have hrejects : ∀ v : Option ℤ, (if unsigned = [] ∨ ¬ unsigned.all Char.isDigit then none else v) = none :=
      fun v => if_pos (.inr hall)
    rw [hrejects]
    by_cases hdigits : unsigned.takeWhile Char.isDigit = []
    · simp [hdigits]
    · by_cases hfits : FitsInt32 (decimalValue (isNegative text) (unsigned.takeWhile Char.isDigit))
      · simp [hdigits, hfits, hdrop]
      · simp [hdigits, hfits]

/-! ## Names -/

theorem Numeral.ne_dot (h : Numeral text v) : ∀ c ∈ text, c ≠ '.' := by
  obtain ⟨digits, -, hdigits, ⟨rfl, -⟩ | ⟨rfl, -⟩, -⟩ := h
  · exact fun c hc => ne_dot_of_isDigit (hdigits c hc)
  · exact List.forall_mem_cons.mpr ⟨by decide, fun c hc => ne_dot_of_isDigit (hdigits c hc)⟩

theorem Numeral.ne_nil (h : Numeral text v) : text ≠ [] := by
  obtain ⟨digits, hne, -, ⟨rfl, -⟩ | ⟨rfl, -⟩, -⟩ := h
  · exact hne
  · exact List.cons_ne_nil _ _

theorem eq_head_append {name : List Char} (h : name.take head.length = head) :
    name = head ++ name.drop head.length := by
  have hname := List.take_append_drop head.length name
  rw [h] at hname
  exact hname.symm

/-- The recogniser of a start accepts exactly the names with it. -/
theorem isCtrl_iff {name : List Char} {col page : ℤ} :
    isCtrl head name = some (col, page) ↔ CtrlName head name col page := by
  constructor
  · intro h
    unfold isCtrl at h
    split at h
    · cases h
    · rename_i hhead
      rw [not_not] at hhead
      dsimp only at h
      split at h
      · cases h
      · cases h
      · rename_i pos _ hpos
        obtain ⟨hlt, hdot, -⟩ := List.findIdx?_eq_some_iff_getElem.mp hpos
        rw [Option.bind_eq_bind, Option.bind_eq_some_iff] at h
        obtain ⟨col', hcol, h⟩ := h
        obtain ⟨page', hpage, h⟩ := Option.bind_eq_some_iff.mp h
        cases h
        refine ⟨_, _, ?_, fromChars_iff.mp hcol, fromChars_iff.mp hpage⟩
        have hsplit : name.drop head.length = (name.drop head.length).take pos ++
            '.' :: (name.drop head.length).drop (pos + 1) := by
          rw [← of_decide_eq_true hdot, ← List.drop_eq_getElem_cons hlt, List.take_append_drop]
        rw [List.append_assoc, ← hsplit]
        exact eq_head_append hhead
  · rintro ⟨scol, spage, rfl, hcol, hpage⟩
    have hpos : (scol ++ '.' :: spage).findIdx? (· = '.') = some scol.length := by
      rw [List.findIdx?_append, List.findIdx?_eq_none_iff.mpr fun c hc => decide_eq_false (hcol.ne_dot c hc)]
      simp [List.findIdx?_cons]
    have hlength : scol.length ≠ 0 := fun h => hcol.ne_nil (List.length_eq_zero_iff.mp h)
    have hdrop : (head ++ scol ++ '.' :: spage).drop head.length = scol ++ '.' :: spage := by
      rw [List.append_assoc, List.drop_left]
    have htake : (head ++ scol ++ '.' :: spage).take head.length = head := by
      rw [List.append_assoc, List.take_left]
    have hrest : (scol ++ '.' :: spage).drop (scol.length + 1) = spage := by
      rw [List.drop_append, List.drop_eq_nil_of_le (Nat.le_succ _)]
      simp
    unfold isCtrl
    rw [if_neg (not_not.mpr htake), hdrop]
    dsimp only
    rw [hpos]
    split
    · rename_i h
      cases h
    · rename_i h
      exact absurd (Option.some.inj h) hlength
    · rename_i pos _ h
      rw [← Option.some.inj h, List.take_left, hrest, fromChars_iff.mpr hcol, fromChars_iff.mpr hpage]
      rfl

theorem isPad_iff {name : List Char} {col : ℤ} : isPad name = some col ↔ PadName name col := by
  have hpad : isPad name = if name.take padHead.length ≠ padHead then none else
    fromChars (name.drop padHead.length) := rfl
  rw [hpad]
  constructor
  · intro h
    rw [Option.ite_none_left_eq_some, not_not] at h
    exact ⟨_, eq_head_append h.1, fromChars_iff.mp h.2⟩
  · rintro ⟨scol, rfl, hcol⟩
    rw [List.take_left, List.drop_left, if_neg (not_not.mpr rfl)]
    exact fromChars_iff.mpr hcol

theorem isCtrlInto_eq (head name : List Char) (col page : ℤ) :
    isCtrlInto head name col page = match isCtrl head name with
      | some (c, p) => (true, c, p)
      | none => (false, col, page) := by
  unfold isCtrlInto isCtrl
  by_cases hhead : name.take head.length ≠ head
  · rw [if_pos hhead, if_pos hhead]
  · rw [if_neg hhead, if_neg hhead]
    dsimp only
    generalize name.drop head.length = colPage
    rcases colPage.findIdx? (· = '.') with _ | _ | pos
    · rfl
    · rfl
    · change (if _ then _ else if _ then _ else _) = match ((fromChars (colPage.take (pos + 1))).bind fun c =>
        (fromChars (colPage.drop (pos + 2))).bind fun p => some (c, p)) with
          | some (c, p) => (true, c, p)
          | none => (false, col, page)
      rw [← stdFromChars_whole _ 0, ← stdFromChars_whole _ 0]
      split
      · rfl
      · rw [Option.bind_some]
        split <;> rfl

theorem isPadInto_eq (name : List Char) (col : ℤ) :
    isPadInto name col = match isPad name with
      | some c => (true, c)
      | none => (false, col) := by
  unfold isPadInto isPad
  dsimp only
  split
  · rfl
  · rw [← stdFromChars_whole _ 0]
    split <;> rfl

theorem not_both_heads {head' rest rest' : List Char} (hlength : head.length ≤ head'.length)
    (hhead : ¬ head <+: head') : head ++ rest ≠ head' ++ rest' := fun h =>
  hhead (List.prefix_of_prefix_length_le ⟨rest, h⟩ (List.prefix_append ..) hlength)

/-- A name is accepted by one recogniser only. -/
theorem names_exclusive (name : List Char) :
    (isCtrltext name = none ∨ isCtrldata name = none) ∧ (isCtrltext name = none ∨ isPad name = none) ∧
      (isCtrldata name = none ∨ isPad name = none) := by
  have htext {v : ℤ × ℤ} (h : isCtrltext name = some v) : ∃ rest, name = ctrltextHead ++ rest := by
    obtain ⟨scol, spage, hname, -⟩ := isCtrl_iff.mp h
    exact ⟨_, hname.trans (List.append_assoc ..)⟩
  have hdata {v : ℤ × ℤ} (h : isCtrldata name = some v) : ∃ rest, name = ctrldataHead ++ rest := by
    obtain ⟨scol, spage, hname, -⟩ := isCtrl_iff.mp h
    exact ⟨_, hname.trans (List.append_assoc ..)⟩
  have hpad {v : ℤ} (h : isPad name = some v) : ∃ rest, name = padHead ++ rest := by
    obtain ⟨scol, hname, -⟩ := isPad_iff.mp h
    exact ⟨_, hname⟩
  have hone {A B : Type} {a : Option A} {b : Option B} {head head' : List Char}
    (hlength : head.length ≤ head'.length)
      (hhead : ¬ head <+: head') (ha : ∀ {v}, a = some v → ∃ rest, name = head' ++ rest)
      (hb : ∀ {v}, b = some v → ∃ rest, name = head ++ rest) : a = none ∨ b = none := by
    cases ha' : a with
    | none => exact .inl rfl
    | some v =>
      cases hb' : b with
      | none => exact .inr rfl
      | some v' =>
        obtain ⟨rest, hrest⟩ := ha ha'
        obtain ⟨rest', hrest'⟩ := hb hb'
        exact absurd (hrest'.symm.trans hrest) (not_both_heads hlength hhead)
  exact ⟨hone (by decide) (by decide) htext hdata, hone (by decide) (by decide) htext hpad,
    hone (by decide) (by decide) hdata hpad⟩

theorem numeral_toString (h : FitsInt32 v) : Numeral (toString v).toList v := by
  have hdigits (n : ℕ) : ∀ c ∈ Nat.toDigits 10 n, c.isDigit = true := fun c hc =>
    Nat.isDigit_of_mem_toDigits (by decide) (by decide) hc
  have hvalue (n : ℕ) : Nat.ofDigitChars 10 (Nat.toDigits 10 n) 0 = n :=
    Nat.ofDigitChars_toDigits (by decide) (by decide)
  cases v with
  | ofNat n =>
    refine ⟨Nat.toDigits 10 n, Nat.toDigits_ne_nil, hdigits n, .inl ⟨?_, by rw [hvalue]; rfl⟩, h⟩
    exact String.toList_ofList
  | negSucc n =>
    refine ⟨Nat.toDigits 10 (n + 1), Nat.toDigits_ne_nil, hdigits _, .inr ⟨?_, by rw [hvalue]; rfl⟩, h⟩
    change ("-" ++ String.ofList (Nat.toDigits 10 (n + 1))).toList = _
    rw [String.toList_append]
    exact congrArg (List.cons '-') String.toList_ofList

theorem fitsInt32_toInt (v : BitVec 32) : FitsInt32 v.toInt := ⟨BitVec.le_toInt v, BitVec.toInt_lt⟩

def ctrlName (head : List Char) (col page : BitVec 32) : List Char :=
  head ++ (toString col.toInt).toList ++ '.' :: (toString page.toInt).toList

def padName (col : BitVec 32) : List Char := padHead ++ (toString col.toInt).toList

theorem isCtrlInto_exact (head : List Char) :
    (∀ name col₀ page₀ col page, isCtrlInto head name col₀ page₀ = (true, col, page) ↔
      CtrlName head name col page) ∧
      (∀ name col₀ page₀, (isCtrlInto head name col₀ page₀).1 = false →
        isCtrlInto head name col₀ page₀ = (false, col₀, page₀)) ∧ ∀ (col page : BitVec 32) (col₀ page₀ : ℤ),
        isCtrlInto head (ctrlName head col page) col₀ page₀ = (true, col.toInt, page.toInt) := by
  have hexact (name : List Char) (col₀ page₀ col page : ℤ) :
      isCtrlInto head name col₀ page₀ = (true, col, page) ↔ CtrlName head name col page := by
    rw [isCtrlInto_eq, ← isCtrl_iff]
    cases isCtrl head name with
    | none => simp
    | some v => simp [Prod.ext_iff]
  refine ⟨hexact, fun name col₀ page₀ h => ?_, fun col page col₀ page₀ => ?_⟩
  · rw [isCtrlInto_eq] at h ⊢
    cases hname : isCtrl head name with
    | none => rfl
    | some v =>
      rw [hname] at h
      cases h
  · exact (hexact ..).mpr
      ⟨_, _, rfl, numeral_toString (fitsInt32_toInt col), numeral_toString (fitsInt32_toInt page)⟩

/-- The recognisers accept exactly the names of their sections, return the numbers in them, leave their out
parameters alone otherwise, accept no name twice and read back printed numbers. -/
theorem sectionNames_exact :
    (∀ name col₀ page₀ col page,
      isCtrltextInto name col₀ page₀ = (true, col, page) ↔ CtrlName ".ctrltext.".toList name col page) ∧
    (∀ name col₀ page₀ col page,
      isCtrldataInto name col₀ page₀ = (true, col, page) ↔ CtrlName ".ctrldata.".toList name col page) ∧
    (∀ name col₀ col, isPadInto name col₀ = (true, col) ↔ PadName name col) ∧
    (∀ name col₀ page₀, (isCtrltextInto name col₀ page₀).1 = false → isCtrltextInto name col₀ page₀ =
      (false, col₀, page₀)) ∧
    (∀ name col₀ page₀, (isCtrldataInto name col₀ page₀).1 = false → isCtrldataInto name col₀ page₀ =
      (false, col₀, page₀)) ∧
    (∀ name col₀, (isPadInto name col₀).1 = false → isPadInto name col₀ = (false, col₀)) ∧
    (∀ name col₀ page₀,
      ¬ ((isCtrltextInto name col₀ page₀).1 = true ∧ (isCtrldataInto name col₀ page₀).1 = true) ∧
      ¬ ((isCtrltextInto name col₀ page₀).1 = true ∧ (isPadInto name col₀).1 = true) ∧
      ¬ ((isCtrldataInto name col₀ page₀).1 = true ∧ (isPadInto name col₀).1 = true)) ∧
    ∀ (col page : BitVec 32) (col₀ page₀ : ℤ),
      isCtrltextInto (ctrlName ".ctrltext.".toList col page) col₀ page₀ = (true, col.toInt, page.toInt) ∧
      isCtrldataInto (ctrlName ".ctrldata.".toList col page) col₀ page₀ = (true, col.toInt, page.toInt) ∧
      isPadInto (padName col) col₀ = (true, col.toInt) := by
  obtain ⟨htext, htextOut, htextPrint⟩ := isCtrlInto_exact ctrltextHead
  obtain ⟨hdata, hdataOut, hdataPrint⟩ := isCtrlInto_exact ctrldataHead
  have hpad (name : List Char) (col₀ col : ℤ) : isPadInto name col₀ = (true, col) ↔ PadName name col := by
    rw [isPadInto_eq, ← isPad_iff]
    cases isPad name with
    | none => simp
    | some v => simp
  have hctrlAccepted (head name : List Char) (col₀ page₀ : ℤ) :
      (isCtrlInto head name col₀ page₀).1 = true ↔ isCtrl head name ≠ none := by
    rw [isCtrlInto_eq]
    cases isCtrl head name <;> simp
  have hpadAccepted (name : List Char) (col₀ : ℤ) : (isPadInto name col₀).1 = true ↔ isPad name ≠ none := by
    rw [isPadInto_eq]
    cases isPad name <;> simp
  refine ⟨htext, hdata, hpad, htextOut, hdataOut, fun name col₀ h => ?_, fun name col₀ page₀ => ?_, ?_⟩
  · rw [isPadInto_eq] at h ⊢
    cases hname : isPad name with
    | none => rfl
    | some v =>
      rw [hname] at h
      cases h
  · obtain ⟨htd, htp, hdp⟩ := names_exclusive name
    rw [isCtrltextInto, isCtrldataInto, hctrlAccepted, hctrlAccepted, hpadAccepted]
    exact ⟨fun h => htd.elim h.1 h.2, fun h => htp.elim h.1 h.2, fun h => hdp.elim h.1 h.2⟩
  · intro col page col₀ page₀
    exact ⟨htextPrint col page col₀ page₀, hdataPrint col page col₀ page₀,
      (hpad ..).mpr ⟨_, rfl, numeral_toString (fitsInt32_toInt col)⟩⟩

end AieBaremetal.Cert
