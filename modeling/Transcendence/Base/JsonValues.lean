import Transcendence.Base.GoStrings
import Transcendence.Base.JsonStrings

/-!
# JSON values

The syntax of JSON as the scanner of Go's `encoding/json` has it, and what its encoder writes for flat
structures: texts, integers and lists of texts (`Field`). A member of an object may occur more than
once. What the encoder has written is read back (`object_marshal`), and every text as it is meant.
-/

namespace JsonText

open Scanner Utf8
open GoString (isDigit numberOf decimal)

/-- A number by its text: whether it has a sign, its integer part, and its fraction and exponent. -/
structure Number where
  negative : Bool
  integer : Nat
  suffix : Bytes
  deriving DecidableEq

inductive Value where
  | null
  | boolean (value : Bool)
  | number (number : Number)
  | string (text : Bytes)
  | array (elements : List Value)
  | object (members : List (Bytes × Value))

/-! ### Numbers -/

def minus : UInt8 := 45

def scanInteger : Bytes → Option (Nat × Bytes)
  | [] => none
  | c :: rest =>
      if c = 48 then some (0, rest)
      else if isDigit c then some (numberOf ((c :: rest).takeWhile isDigit), (c :: rest).dropWhile isDigit)
      else none

def scanFraction : Bytes → Option (Bytes × Bytes)
  | [] => some ([], [])
  | c :: rest =>
      if c ≠ 46 then some ([], c :: rest)
      else if rest.takeWhile isDigit = [] then none
      else some (c :: rest.takeWhile isDigit, rest.dropWhile isDigit)

def exponentSign : Bytes → Bytes
  | [] => []
  | c :: _ => if c = 43 ∨ c = minus then [c] else []

def scanExponent : Bytes → Option (Bytes × Bytes)
  | [] => some ([], [])
  | c :: rest =>
      if c ≠ 101 ∧ c ≠ 69 then some ([], c :: rest)
      else
        let digits := (rest.drop (exponentSign rest).length).takeWhile isDigit
        if digits = [] then none
        else some (c :: exponentSign rest ++ digits, (rest.drop (exponentSign rest).length).dropWhile isDigit)

def scanNumber (bs : Bytes) : Option (Number × Bytes) :=
  let negative := bs.head? = some minus
  (scanInteger (if negative then bs.tail else bs)).bind fun integer =>
    (scanFraction integer.2).bind fun fraction =>
      (scanExponent fraction.2).map fun exponent => (⟨negative, integer.1, fraction.1 ++ exponent.1⟩, exponent.2)

theorem length_dropWhile_le (bs : Bytes) : (bs.dropWhile isDigit).length ≤ bs.length := (List.dropWhile_suffix isDigit).length_le

theorem scanInteger_consumes {bs : Bytes} {found : Nat × Bytes} (h : scanInteger bs = some found) : found.2.length < bs.length := by
  cases bs with
  | nil => cases h
  | cons c rest =>
      rw [scanInteger] at h
      split_ifs at h with hzero hdigit
      · cases h
        exact Nat.lt_succ_self _
      · cases h
        rw [List.dropWhile_cons, hdigit]
        exact Nat.lt_succ_of_le (length_dropWhile_le rest)

theorem scanFraction_le {bs : Bytes} {found : Bytes × Bytes} (h : scanFraction bs = some found) : found.2.length ≤ bs.length := by
  cases bs with
  | nil =>
      cases h
      exact Nat.le_refl _
  | cons c rest =>
      rw [scanFraction] at h
      split_ifs at h
      · cases h
        exact Nat.le_refl _
      · cases h
        exact Nat.le_succ_of_le (length_dropWhile_le rest)

theorem scanExponent_le {bs : Bytes} {found : Bytes × Bytes} (h : scanExponent bs = some found) : found.2.length ≤ bs.length := by
  cases bs with
  | nil =>
      cases h
      exact Nat.le_refl _
  | cons c rest =>
      rw [scanExponent] at h
      dsimp only at h
      split_ifs at h
      · cases h
        exact Nat.le_refl _
      · cases h
        have hle := length_dropWhile_le (rest.drop (exponentSign rest).length)
        rw [List.length_drop] at hle
        dsimp only
        rw [List.length_cons]
        omega

theorem scanNumber_consumes {bs : Bytes} {found : Number × Bytes} (h : scanNumber bs = some found) : found.2.length < bs.length := by
  rw [scanNumber] at h
  obtain ⟨integer, hinteger, h⟩ := Option.bind_eq_some_iff.mp h
  obtain ⟨fraction, hfraction, h⟩ := Option.bind_eq_some_iff.mp h
  obtain ⟨exponent, hexponent, rfl⟩ := Option.map_eq_some_iff.mp h
  dsimp only
  have hlt := scanInteger_consumes hinteger
  have hle := scanFraction_le hfraction
  have hle' := scanExponent_le hexponent
  have hunsigned : (if bs.head? = some minus then bs.tail else bs).length ≤ bs.length := by
    split_ifs
    · rw [List.length_tail]
      exact Nat.sub_le _ _
    · exact Nat.le_refl _
  omega

/-! ### Values -/

def scanKeyword (keyword : Bytes) (value : Value) (bs : Bytes) : Option (Value × Bytes) :=
  if keyword.isPrefixOf bs then some (value, bs.drop keyword.length) else none

/-- A value that holds no others. -/
def scanScalar (bs : Bytes) : Option (Value × Bytes) :=
  if bs.head? = some quote then (literal.scan bs).map fun found => (.string found.1, found.2)
  else if bs.head?.any fun c => c = minus || isDigit c then (scanNumber bs).map fun found => (.number found.1, found.2)
  else
    (scanKeyword (ascii "null") .null bs).or
      ((scanKeyword (ascii "true") (.boolean true) bs).or (scanKeyword (ascii "false") (.boolean false) bs))

def colon : UInt8 := 58

def openBracket : UInt8 := 91

def closeBracket : UInt8 := 93

def openBrace : UInt8 := 123

def closeBrace : UInt8 := 125

/-- A colon and the value after it. -/
def scanAfterColon (value : Scanner Value) (bs : Bytes) : Option (Value × Bytes) :=
  match skipSpace bs with
  | [] => none
  | c :: rest => if c = colon then value.scan rest else none

def scanMember (value : Scanner Value) (bs : Bytes) : Option ((Bytes × Value) × Bytes) :=
  (literal.scan (skipSpace bs)).bind fun key =>
    (scanAfterColon value key.2).map fun found => ((key.1, found.1), found.2)

theorem scanKeyword_consumes {keyword bs : Bytes} {value : Value} (hkeyword : keyword ≠ []) {found : Value × Bytes}
    (h : scanKeyword keyword value bs = some found) : found.2.length < bs.length := by
  rw [scanKeyword, Option.ite_none_right_eq_some, List.isPrefixOf_iff_prefix] at h
  obtain ⟨hstarts, h⟩ := h
  cases h
  have hle := hstarts.length_le
  have hpos := List.length_pos_of_ne_nil hkeyword
  rw [List.length_drop]
  omega

theorem scanScalar_consumes {bs : Bytes} {found : Value × Bytes} (h : scanScalar bs = some found) : found.2.length < bs.length := by
  rw [scanScalar] at h
  split_ifs at h
  · obtain ⟨text, htext, rfl⟩ := Option.map_eq_some_iff.mp h
    have hlt := literal.consumes htext
    exact hlt
  · obtain ⟨number, hnumber, rfl⟩ := Option.map_eq_some_iff.mp h
    have hlt := scanNumber_consumes hnumber
    exact hlt
  · rw [Option.or_eq_some_iff, Option.or_eq_some_iff] at h
    rcases h with h | ⟨-, h | ⟨-, h⟩⟩
    · exact scanKeyword_consumes (by decide) h
    · exact scanKeyword_consumes (by decide) h
    · exact scanKeyword_consumes (by decide) h

theorem scanAfterColon_consumes {value : Scanner Value} {bs : Bytes} {found : Value × Bytes}
    (h : scanAfterColon value bs = some found) : found.2.length < bs.length := by
  cases hskip : skipSpace bs with
  | nil =>
      rw [scanAfterColon, hskip] at h
      cases h
  | cons c rest =>
      rw [scanAfterColon, hskip] at h
      have h := (Option.ite_none_right_eq_some.mp h).2
      exact Nat.lt_trans (value.consumes h) (length_lt_of_skipSpace hskip)

/-- A member of an object. -/
def member (value : Scanner Value) : Scanner (Bytes × Value) where
  scan := scanMember value
  consumes {bs found} h := by
    obtain ⟨key, hkey, h⟩ := Option.bind_eq_some_iff.mp h
    obtain ⟨found, hfound, rfl⟩ := Option.map_eq_some_iff.mp h
    have hlt := scanAfterColon_consumes hfound
    have hle := length_skipSpace_le bs
    have hlt' := literal.consumes hkey
    dsimp only
    omega

/-- A value; `nested` reads the values that it holds, unless it is nested too deep. -/
def scanValue (nested : Option (Scanner Value)) (bs : Bytes) : Option (Value × Bytes) :=
  match skipSpace bs with
  | [] => none
  | c :: rest =>
      if c = openBracket then
        nested.bind fun value => (items value closeBracket rest).map fun found => (.array found.1, found.2)
      else if c = openBrace then
        nested.bind fun value => (items (member value) closeBrace rest).map fun found => (.object found.1, found.2)
      else scanScalar (c :: rest)

theorem scanValue_consumes {nested : Option (Scanner Value)} {bs : Bytes} {found : Value × Bytes}
    (h : scanValue nested bs = some found) : found.2.length < bs.length := by
  cases hskip : skipSpace bs with
  | nil =>
      rw [scanValue, hskip] at h
      cases h
  | cons c rest =>
      have hlt := length_lt_of_skipSpace hskip
      rw [scanValue, hskip] at h
      dsimp only at h
      split_ifs at h
      · obtain ⟨value, -, h⟩ := Option.bind_eq_some_iff.mp h
        obtain ⟨elements, helements, rfl⟩ := Option.map_eq_some_iff.mp h
        exact Nat.lt_trans (items_consumes helements) hlt
      · obtain ⟨value, -, h⟩ := Option.bind_eq_some_iff.mp h
        obtain ⟨members, hmembers, rfl⟩ := Option.map_eq_some_iff.mp h
        exact Nat.lt_trans (items_consumes hmembers) hlt
      · have hle := length_skipSpace_le bs
        rw [hskip] at hle
        exact Nat.lt_of_lt_of_le (scanScalar_consumes h) hle

/-- A value in which others are nested so deep at most. -/
def value : Nat → Scanner Value
  | 0 => ⟨scanValue none, scanValue_consumes⟩
  | depth + 1 => ⟨scanValue (some (value depth)), scanValue_consumes⟩

def maxNestingDepth : Nat := 10000

/-- The members of the object that a text is. -/
def object (text : Bytes) : Option (List (Bytes × Value)) :=
  match skipSpace text with
  | [] => none
  | c :: rest =>
      if c ≠ openBrace then none
      else (items (member (value maxNestingDepth)) closeBrace rest).bind fun found =>
        if skipSpace found.2 = [] then some found.1 else none

/-! ### Writing -/

/-- What a field of a flat structure holds. A slice without elements is nil. -/
inductive Field where
  | text (value : Bytes)
  | integer (value : Int)
  | texts (values : List Bytes)

def natural (n : Nat) : Bytes :=
  if n = 0 then [48] else decimal n

def integer (n : Int) : Bytes :=
  if n < 0 then minus :: natural n.natAbs else natural n.natAbs

def Field.written : Field → Bytes
  | .text value => quoted value
  | .integer n => JsonText.integer n
  | .texts values =>
      if values = [] then ascii "null"
      else openBracket :: ([comma].intercalate (values.map quoted) ++ [closeBracket])

def writtenMember (field : Bytes × Field) : Bytes :=
  quoted field.1 ++ colon :: field.2.written

/-- `json.Marshal` of a structure, whose fields have tags. -/
def marshal (fields : List (Bytes × Field)) : Bytes :=
  openBrace :: ([comma].intercalate (fields.map writtenMember) ++ [closeBrace])

/-- The value as which a field is read back. -/
def Field.meant : Field → Value
  | .text value => .string (sanitize value)
  | .integer n => .number ⟨n < 0, n.natAbs, []⟩
  | .texts values => if values = [] then .null else .array (values.map fun text => .string (sanitize text))

def meantMember (field : Bytes × Field) : Bytes × Value :=
  (sanitize field.1, field.2.meant)

/-! ### Reading what was written -/

/-- A byte that ends a number, as it can be no part of one. -/
structure Ends (c : UInt8) : Prop where
  not_isDigit : isDigit c = false
  ne_point : c ≠ 46
  ne_exponent : c ≠ 101 ∧ c ≠ 69

theorem ends_comma : Ends comma := ⟨by decide, by decide, by decide⟩

theorem ends_closeBrace : Ends closeBrace := ⟨by decide, by decide, by decide⟩

theorem takeWhile_isDigit_append {digits : Bytes} (hdigits : digits.all isDigit = true) {c : UInt8} (hc : isDigit c = false)
    (rest : Bytes) : (digits ++ c :: rest).takeWhile isDigit = digits := by
  rw [List.takeWhile_append_of_pos (List.all_eq_true.mp hdigits), List.takeWhile_cons, hc]
  exact List.append_nil digits

theorem dropWhile_isDigit_append {digits : Bytes} (hdigits : digits.all isDigit = true) {c : UInt8} (hc : isDigit c = false)
    (rest : Bytes) : (digits ++ c :: rest).dropWhile isDigit = c :: rest := by
  rw [List.dropWhile_append_of_pos (List.all_eq_true.mp hdigits), List.dropWhile_cons, hc]
  rfl

theorem scanInteger_natural (n : Nat) {c : UInt8} (hc : Ends c) (rest : Bytes) :
    scanInteger (natural n ++ c :: rest) = some (n, c :: rest) := by
  by_cases hzero : n = 0
  · rw [natural, if_pos hzero, List.singleton_append, scanInteger, if_pos rfl, hzero]
  · have hall := GoString.all_isDigit_decimal n
    have hhead := GoString.head?_decimal n
    have htake := takeWhile_isDigit_append hall hc.not_isDigit rest
    have hdrop := dropWhile_isDigit_append hall hc.not_isDigit rest
    rw [natural, if_neg hzero]
    obtain ⟨first, digits, hdigits⟩ := List.exists_cons_of_ne_nil (GoString.decimal_ne_nil hzero)
    have hnumber := GoString.numberOf_decimal n
    rw [hdigits] at hall hhead htake hdrop hnumber ⊢
    have hfirst : first ≠ 48 := fun heq => hhead (congrArg some heq)
    rw [List.all_cons, Bool.and_eq_true] at hall
    rw [List.cons_append] at htake hdrop ⊢
    rw [scanInteger, if_neg hfirst, if_pos hall.1, htake, hdrop, hnumber]

theorem head_natural (n : Nat) : ∃ c tail, natural n = c :: tail ∧ isDigit c = true := by
  by_cases hzero : n = 0
  · refine ⟨48, [], ?_, by decide⟩
    rw [natural, if_pos hzero]
  · obtain ⟨first, digits, hdigits⟩ := List.exists_cons_of_ne_nil (GoString.decimal_ne_nil hzero)
    have hall := GoString.all_isDigit_decimal n
    rw [hdigits, List.all_cons, Bool.and_eq_true] at hall
    refine ⟨first, digits, ?_, hall.1⟩
    rw [natural, if_neg hzero, hdigits]

theorem scanFraction_of_ends {c : UInt8} (hc : Ends c) (rest : Bytes) : scanFraction (c :: rest) = some ([], c :: rest) := by
  rw [scanFraction, if_pos hc.ne_point]

theorem scanExponent_of_ends {c : UInt8} (hc : Ends c) (rest : Bytes) : scanExponent (c :: rest) = some ([], c :: rest) := by
  rw [scanExponent, if_pos hc.ne_exponent]

theorem scanNumber_integer (n : Int) {c : UInt8} (hc : Ends c) (rest : Bytes) :
    scanNumber (integer n ++ c :: rest) = some (⟨n < 0, n.natAbs, []⟩, c :: rest) := by
  have hread := scanInteger_natural n.natAbs hc rest
  by_cases hneg : n < 0
  · rw [integer, if_pos hneg, scanNumber]
    simp [hread, scanFraction_of_ends hc, scanExponent_of_ends hc, hneg]
  · obtain ⟨first, tail, hnatural, hdigit⟩ := head_natural n.natAbs
    have hminus : first ≠ minus := by
      rintro rfl
      exact absurd hdigit (by decide)
    rw [integer, if_neg hneg, scanNumber]
    rw [hnatural] at hread ⊢
    simp only [List.cons_append] at hread ⊢
    simp [hread, scanFraction_of_ends hc, scanExponent_of_ends hc, hneg, hminus]

theorem scanValue_scalar (nested : Option (Scanner Value)) {c : UInt8} (hspace : isSpace c = false) (hbracket : c ≠ openBracket)
    (hbrace : c ≠ openBrace) (rest : Bytes) : scanValue nested (c :: rest) = scanScalar (c :: rest) := by
  rw [scanValue, skipSpace_cons hspace]
  dsimp only
  rw [if_neg hbracket, if_neg hbrace]

theorem scan_value_scalar (depth : Nat) {c : UInt8} (hspace : isSpace c = false) (hbracket : c ≠ openBracket)
    (hbrace : c ≠ openBrace) (rest : Bytes) : (value depth).scan (c :: rest) = scanScalar (c :: rest) := by
  cases depth with
  | zero => exact scanValue_scalar none hspace hbracket hbrace rest
  | succ depth => exact scanValue_scalar (some (value depth)) hspace hbracket hbrace rest

theorem quoted_append (text rest : Bytes) :
    quoted text ++ rest = quote :: ((runes text).flatMap escapeRune ++ quote :: rest) := by
  rw [quoted, List.cons_append, List.append_assoc, List.singleton_append]

theorem scan_value_quoted (depth : Nat) (text rest : Bytes) :
    (value depth).scan (quoted text ++ rest) = some (.string (sanitize text), rest) := by
  have hread := literal_quoted text rest
  rw [quoted_append] at hread ⊢
  rw [scan_value_scalar depth (by decide) (by decide) (by decide), scanScalar, List.head?_cons, if_pos rfl, hread]
  rfl

theorem scan_value_number (depth : Nat) {c : UInt8} (hc : c = minus ∨ isDigit c = true) (rest : Bytes) :
    (value depth).scan (c :: rest) = (scanNumber (c :: rest)).map fun found => (.number found.1, found.2) := by
  have hplain : isSpace c = false ∧ c ≠ openBracket ∧ c ≠ openBrace ∧ c ≠ quote := by
    rcases hc with rfl | hdigit
    · decide
    · rw [GoString.isDigit_iff] at hdigit
      refine ⟨?_, ?_, ?_, ?_⟩
      · rw [isSpace]
        simp only [Bool.or_eq_false_iff, decide_eq_false_iff_not, ← UInt8.toNat_inj]
        refine ⟨⟨⟨?_, ?_⟩, ?_⟩, ?_⟩ <;> exact fun heq => by simp at heq; omega
      all_goals
        rintro rfl
        revert hdigit
        decide
  have hnumber : ((c :: rest).head?.any fun c => c = minus || isDigit c) = true := by
    rw [List.head?_cons, Option.any_some, Bool.or_eq_true, decide_eq_true_eq]
    exact hc
  have hquote : (c :: rest).head? ≠ some quote := fun heq => hplain.2.2.2 (Option.some.inj heq)
  rw [scan_value_scalar depth hplain.1 hplain.2.1 hplain.2.2.1, scanScalar, if_neg hquote, if_pos hnumber]

theorem scan_value_integer (depth : Nat) (n : Int) {c : UInt8} (hc : Ends c) (rest : Bytes) :
    (value depth).scan (integer n ++ c :: rest) = some (.number ⟨n < 0, n.natAbs, []⟩, c :: rest) := by
  have hread := scanNumber_integer n hc rest
  have hhead : ∃ first tail, integer n = first :: tail ∧ (first = minus ∨ isDigit first = true) := by
    by_cases hneg : n < 0
    · refine ⟨minus, natural n.natAbs, ?_, .inl rfl⟩
      rw [integer, if_pos hneg]
    · obtain ⟨first, tail, hnatural, hdigit⟩ := head_natural n.natAbs
      refine ⟨first, tail, ?_, .inr hdigit⟩
      rw [integer, if_neg hneg, hnatural]
  obtain ⟨first, tail, hinteger, hfirst⟩ := hhead
  rw [hinteger, List.cons_append] at hread ⊢
  rw [scan_value_number depth hfirst, hread]
  rfl

theorem quoted_eq_cons (text : Bytes) : ∃ tail, quoted text = quote :: tail :=
  ⟨_, rfl⟩

theorem scan_value_texts (depth : Nat) {values : List Bytes} (hvalues : values ≠ []) (rest : Bytes) :
    (value (depth + 1)).scan (openBracket :: ([comma].intercalate (values.map quoted) ++ [closeBracket]) ++ rest) =
      some (.array (values.map fun text => .string (sanitize text)), rest) := by
  have hread : items (value depth) closeBracket ([comma].intercalate (values.map quoted) ++ closeBracket :: rest) =
      some (values.map fun text => .string (sanitize text), rest) :=
    items_intercalate hvalues (by decide) (by decide) (by decide) (by decide) quoted_eq_cons
      (fun text _ c rest _ => scan_value_quoted depth text (c :: rest)) rest
  rw [List.cons_append, List.append_assoc, List.singleton_append]
  show scanValue (some (value depth)) (openBracket :: _) = _
  rw [scanValue, skipSpace_cons (by decide)]
  dsimp only
  rw [if_pos rfl, Option.bind_some, hread]
  rfl

theorem scan_value_null (depth : Nat) (rest : Bytes) : (value depth).scan (ascii "null" ++ rest) = some (.null, rest) := by
  have hnull : ascii "null" ++ rest = 110 :: (117 :: 108 :: 108 :: rest) := rfl
  rw [hnull, scan_value_scalar depth (by decide) (by decide) (by decide)]
  rfl

theorem scan_value_written (depth : Nat) (field : Field) {c : UInt8} (hc : Ends c) (rest : Bytes) :
    (value (depth + 1)).scan (field.written ++ c :: rest) = some (field.meant, c :: rest) := by
  cases field with
  | text text => exact scan_value_quoted (depth + 1) text (c :: rest)
  | integer n => exact scan_value_integer (depth + 1) n hc rest
  | texts values =>
      rw [Field.written, Field.meant]
      by_cases hvalues : values = []
      · rw [if_pos hvalues, if_pos hvalues]
        exact scan_value_null (depth + 1) (c :: rest)
      · rw [if_neg hvalues, if_neg hvalues]
        exact scan_value_texts depth hvalues (c :: rest)

theorem scan_writtenMember (depth : Nat) (field : Bytes × Field) {c : UInt8} (hc : Ends c) (rest : Bytes) :
    (member (value (depth + 1))).scan (writtenMember field ++ c :: rest) = some (meantMember field, c :: rest) := by
  have hbody : writtenMember field ++ c :: rest = quoted field.1 ++ colon :: (field.2.written ++ c :: rest) := by
    rw [writtenMember, List.append_assoc]
    rfl
  have hread := literal_quoted field.1 (colon :: (field.2.written ++ c :: rest))
  show scanMember _ _ = _
  rw [hbody, scanMember]
  rw [quoted_append] at hread ⊢
  rw [skipSpace_cons (by decide), hread, Option.bind_some, scanAfterColon, skipSpace_cons (by decide)]
  dsimp only
  rw [if_pos rfl, scan_value_written depth field.2 hc]
  rfl

/-- The members of a structure that was written are read back, with every text as it is meant. -/
theorem object_marshal {fields : List (Bytes × Field)} (hfields : fields ≠ []) :
    object (marshal fields) = some (fields.map meantMember) := by
  have hends : ∀ c, c = comma ∨ c = closeBrace → Ends c := by
    rintro c (rfl | rfl)
    · exact ends_comma
    · exact ends_closeBrace
  have hread : items (member (value maxNestingDepth)) closeBrace
      ([comma].intercalate (fields.map writtenMember) ++ [closeBrace]) = some (fields.map meantMember, []) :=
    items_intercalate hfields (by decide) (by decide) (by decide) (by decide) (fun field => ⟨_, rfl⟩)
      (fun field _ c rest hc => scan_writtenMember 9999 field (hends c hc) rest) []
  rw [object, marshal, skipSpace_cons (by decide)]
  dsimp only
  rw [if_neg (by decide), hread, Option.bind_some]
  rfl

end JsonText
