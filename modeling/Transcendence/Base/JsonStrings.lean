import Transcendence.Base.Utf8

/-!
# JSON strings

Strings of JSON as `encoding/json` of Go writes and reads them. What is written is ASCII where the
text is, with the characters escaped that HTML gives a meaning, and what is no character of UTF-8 is
written as the replacement character. What is read may hold any bytes but control characters, and what
is no character is read as the replacement character. Reading back what was written gives the text
that is meant (`literal_quoted`).
-/

namespace JsonText

open Scanner Utf8

def quote : UInt8 := 34

def backslash : UInt8 := 92

def hexDigit (n : Nat) : UInt8 := UInt8.ofNat (if n < 10 then 48 + n else 87 + n)

def hexValue (c : UInt8) : Option Nat :=
  let n := c.toNat
  if 48 ≤ n ∧ n ≤ 57 then some (n - 48)
  else if 97 ≤ n ∧ n ≤ 102 then some (n - 87)
  else if 65 ≤ n ∧ n ≤ 70 then some (n - 55)
  else none

/-! ### Writing -/

/-- The letter of a short escape. -/
def shortEscape (c : UInt8) : Option UInt8 :=
  if c = quote ∨ c = backslash then some c
  else if c = 8 then some 98
  else if c = 12 then some 102
  else if c = 10 then some 110
  else if c = 13 then some 114
  else if c = 9 then some 116
  else none

def escapeByte (c : UInt8) : Bytes :=
  match shortEscape c with
  | some letter => [backslash, letter]
  | none =>
      if c < 0x20 ∨ c = 60 ∨ c = 62 ∨ c = 38 then
        backslash :: 117 :: 48 :: 48 :: [hexDigit (c.toNat / 16), hexDigit (c.toNat % 16)]
      else [c]

def escapeRune (rune : Option Bytes) : Bytes :=
  match rune with
  | none => backslash :: 117 :: ascii "fffd"
  | some [c] => escapeByte c
  | some cs =>
      if cs = [0xE2, 0x80, 0xA8] then backslash :: 117 :: ascii "2028"
      else if cs = [0xE2, 0x80, 0xA9] then backslash :: 117 :: ascii "2029"
      else cs

def quoted (text : Bytes) : Bytes := quote :: ((runes text).flatMap escapeRune ++ [quote])

theorem length_escapeByte_le (a : UInt8) : (escapeByte a).length ≤ 6 := by
  rw [escapeByte]
  split
  · exact Nat.le_of_ble_eq_true rfl
  · split_ifs
    · exact Nat.le_refl 6
    · exact Nat.le_of_ble_eq_true rfl

theorem length_escapeRune_le (cs : Bytes) : (escapeRune (some cs)).length ≤ 6 * cs.length := by
  rcases cs with _ | ⟨a, _ | ⟨b, tail⟩⟩
  · exact Nat.zero_le _
  · exact length_escapeByte_le a
  · show (if a :: b :: tail = [0xE2, 0x80, 0xA8] then backslash :: 117 :: ascii "2028"
      else if a :: b :: tail = [0xE2, 0x80, 0xA9] then backslash :: 117 :: ascii "2029" else a :: b :: tail).length ≤ _
    have hlines : (backslash :: 117 :: ascii "2028").length = 6 ∧ (backslash :: 117 :: ascii "2029").length = 6 := ⟨rfl, rfl⟩
    simp only [List.length_cons] at hlines ⊢
    split_ifs
    · simp only [List.length_cons]
      omega
    · simp only [List.length_cons]
      omega
    · simp only [List.length_cons]
      omega

/-- An escape has six characters at most, and stands for a byte at least. -/
theorem length_quoted_le (text : Bytes) : (quoted text).length ≤ 6 * text.length + 2 := by
  have hbody : ((runes text).flatMap escapeRune).length ≤ 6 * text.length := by
    induction text using runes_induction with
    | hnil => exact Nat.zero_le _
    | hinvalid c bs hwidth ih =>
        have hescape : (escapeRune none).length = 6 := rfl
        rw [runes_of_width_eq_zero hwidth, List.flatMap_cons, List.length_append, List.length_cons]
        omega
    | hcharacter bs hwidth ih =>
        have hescape := length_escapeRune_le (bs.take (width bs))
        have hlength := congrArg List.length (List.take_append_drop (width bs) bs)
        rw [List.length_append] at hlength
        rw [runes_of_width_ne_zero hwidth, List.flatMap_cons, List.length_append]
        omega
  rw [quoted, List.length_cons, List.length_append, List.length_singleton]
  omega

/-- A text of ASCII in which nothing is escaped is as long as it is between its quotes. -/
theorem length_quoted_of_plain {text : Bytes} (h : ∀ c ∈ text, c < 0x80 ∧ escapeByte c = [c]) :
    (quoted text).length = text.length + 2 := by
  have hbody : ((runes text).flatMap escapeRune).length = text.length := by
    induction text with
    | nil => rfl
    | cons c text ih =>
        obtain ⟨hascii, hplain⟩ := h c List.mem_cons_self
        have hwidth : width (c :: text) = 1 := width_of_lt hascii text
        have hne : width (c :: text) ≠ 0 := by
          rw [hwidth]
          decide
        have hescape : escapeRune (some [c]) = [c] := hplain
        rw [runes_of_width_ne_zero hne, hwidth, List.flatMap_cons, List.length_append]
        show (escapeRune (some [c])).length + ((runes text).flatMap escapeRune).length = _
        rw [hescape, ih fun d hd => h d (List.mem_cons_of_mem c hd), List.length_singleton, List.length_cons, Nat.add_comm]
  rw [quoted, List.length_cons, List.length_append, List.length_singleton, hbody]

/-! ### Reading -/

def hex4 (bs : Bytes) : Option (Nat × Bytes) :=
  if bs.length < 4 then none
  else ((bs.take 4).mapM hexValue).map fun digits => (digits.foldl (fun n digit => 16 * n + digit) 0, bs.drop 4)

/-- The second half of a pair of surrogates, if it follows. -/
def lowSurrogate (bs : Bytes) : Option (Nat × Bytes) :=
  if bs.take 2 = [backslash, 117] then (hex4 (bs.drop 2)).filter fun found => 0xDC00 ≤ found.1 && found.1 < 0xE000
  else none

/-- What follows the escape `\\u`. -/
def unicodeEscape (bs : Bytes) : Option (Bytes × Bytes) :=
  (hex4 bs).map fun found =>
    if found.1 < 0xD800 ∨ 0xE000 ≤ found.1 then (encodeRune found.1, found.2)
    else if 0xDC00 ≤ found.1 then (replacement, found.2)
    else (lowSurrogate found.2).elim (replacement, found.2) fun low =>
      (encodeRune (0x10000 + (found.1 - 0xD800) * 0x400 + (low.1 - 0xDC00)), low.2)

/-- The character of a short escape. -/
def escaped (letter : UInt8) : Option UInt8 :=
  if letter = quote ∨ letter = backslash ∨ letter = 47 then some letter
  else if letter = 98 then some 8
  else if letter = 102 then some 12
  else if letter = 110 then some 10
  else if letter = 114 then some 13
  else if letter = 116 then some 9
  else none

def scanEscape : Bytes → Option (Bytes × Bytes)
  | [] => none
  | letter :: rest => if letter = 117 then unicodeEscape rest else (escaped letter).map fun c => ([c], rest)

def scanCharacter : Bytes → Option (Bytes × Bytes)
  | [] => none
  | c :: rest =>
      if c = backslash then scanEscape rest
      else if c < 0x20 then none
      else if width (c :: rest) = 0 then some (replacement, rest)
      else some ((c :: rest).take (width (c :: rest)), (c :: rest).drop (width (c :: rest)))

theorem hex4_consumes {bs : Bytes} {found : Nat × Bytes} (h : hex4 bs = some found) : found.2.length < bs.length := by
  rw [hex4, Option.ite_none_left_eq_some] at h
  obtain ⟨hlength, h⟩ := h
  obtain ⟨digits, -, rfl⟩ := Option.map_eq_some_iff.mp h
  rw [List.length_drop]
  omega

theorem lowSurrogate_consumes {bs : Bytes} {low : Nat × Bytes} (h : lowSurrogate bs = some low) : low.2.length < bs.length := by
  rw [lowSurrogate, Option.ite_none_right_eq_some, Option.filter_eq_some_iff] at h
  have hlow := hex4_consumes h.2.1
  rw [List.length_drop] at hlow
  omega

theorem unicodeEscape_consumes {bs : Bytes} {found : Bytes × Bytes} (h : unicodeEscape bs = some found) :
    found.2.length < bs.length := by
  obtain ⟨first, hfirst, rfl⟩ := Option.map_eq_some_iff.mp h
  have hlt := hex4_consumes hfirst
  split_ifs
  · exact hlt
  · exact hlt
  · cases hlow : lowSurrogate first.2 with
    | none => exact hlt
    | some low => exact Nat.lt_trans (lowSurrogate_consumes hlow) hlt

theorem scanEscape_consumes {bs : Bytes} {found : Bytes × Bytes} (h : scanEscape bs = some found) : found.2.length < bs.length := by
  cases bs with
  | nil => cases h
  | cons letter rest =>
      rw [scanEscape] at h
      by_cases hunicode : letter = 117
      · rw [if_pos hunicode] at h
        exact Nat.lt_succ_of_lt (unicodeEscape_consumes h)
      · rw [if_neg hunicode] at h
        obtain ⟨c, -, rfl⟩ := Option.map_eq_some_iff.mp h
        exact Nat.lt_succ_self _

theorem scanCharacter_consumes {bs : Bytes} {found : Bytes × Bytes} (h : scanCharacter bs = some found) :
    found.2.length < bs.length := by
  cases bs with
  | nil => cases h
  | cons c rest =>
      rw [scanCharacter] at h
      by_cases hescape : c = backslash
      · rw [if_pos hescape] at h
        exact Nat.lt_succ_of_lt (scanEscape_consumes h)
      · rw [if_neg hescape, Option.ite_none_left_eq_some] at h
        obtain ⟨-, h⟩ := h
        by_cases hwidth : width (c :: rest) = 0
        · rw [if_pos hwidth] at h
          cases h
          exact Nat.lt_succ_self _
        · rw [if_neg hwidth] at h
          cases h
          rw [List.length_drop, List.length_cons]
          omega

/-- A character between the quotes, escaped or not. -/
def character : Scanner Bytes := ⟨scanCharacter, scanCharacter_consumes⟩

def scanLiteral : Bytes → Option (Bytes × Bytes)
  | [] => none
  | c :: rest => if c = quote then (upTo character quote rest).map fun found => (found.1.flatten, found.2) else none

/-- A string literal and the text that it spells. -/
def literal : Scanner Bytes where
  scan := scanLiteral
  consumes {bs found} h := by
    cases bs with
    | nil => cases h
    | cons c rest =>
        rw [scanLiteral, Option.ite_none_right_eq_some] at h
        obtain ⟨characters, hupTo, rfl⟩ := Option.map_eq_some_iff.mp h.2
        have hlt := upTo_consumes hupTo
        exact Nat.lt_succ_of_lt hlt

/-! ### Reading what was written -/

theorem hexValue_hexDigit {n : Nat} (h : n < 16) : hexValue (hexDigit n) = some n := by
  have hall : ∀ m : Fin 16, hexValue (hexDigit m) = some m.val := by decide
  exact hall ⟨n, h⟩

theorem hex4_of_values {a b c d : UInt8} {w x y z : Nat} (ha : hexValue a = some w) (hb : hexValue b = some x)
    (hc : hexValue c = some y) (hd : hexValue d = some z) (rest : Bytes) :
    hex4 (a :: b :: c :: d :: rest) = some (16 * (16 * (16 * w + x) + y) + z, rest) := by
  have hlength : ¬(a :: b :: c :: d :: rest).length < 4 := by simp
  have hdigits : ((a :: b :: c :: d :: rest).take 4).mapM hexValue = some [w, x, y, z] := by
    simp [ha, hb, hc, hd]
  rw [hex4, if_neg hlength, hdigits]
  simp

theorem unicodeEscape_of_values {a b c d : UInt8} {w x y z n : Nat} (ha : hexValue a = some w) (hb : hexValue b = some x)
    (hc : hexValue c = some y) (hd : hexValue d = some z) (hn : 16 * (16 * (16 * w + x) + y) + z = n)
    (hrune : n < 0xD800 ∨ 0xE000 ≤ n) (rest : Bytes) : unicodeEscape (a :: b :: c :: d :: rest) = some (encodeRune n, rest) := by
  rw [unicodeEscape, hex4_of_values ha hb hc hd, hn, Option.map_some, if_pos hrune]

theorem scanCharacter_unicode (rest : Bytes) : scanCharacter (backslash :: 117 :: rest) = unicodeEscape rest := rfl

theorem escaped_of_shortEscape {c letter : UInt8} (h : shortEscape c = some letter) : letter ≠ 117 ∧ escaped letter = some c := by
  rw [shortEscape] at h
  split_ifs at h with hsame h8 h12 h10 h13 h9
  · cases h
    rcases hsame with rfl | rfl
    · decide
    · decide
  all_goals
    cases h
    subst_vars
    decide

theorem shortEscape_quote : shortEscape quote = some quote := by decide

theorem shortEscape_backslash : shortEscape backslash = some backslash := by decide

/-- What a rune is written as begins with no quote and is read back. -/
structure Reads (written meant : Bytes) : Prop where
  head : ∃ c tail, written = c :: tail ∧ c ≠ quote
  scan : ∀ rest, scanCharacter (written ++ rest) = some (meant, rest)

theorem reads_character {a : UInt8} {tail : Bytes} (h : IsCharacter (a :: tail)) (hquote : a ≠ quote) (hbackslash : a ≠ backslash)
    (hcontrol : ¬a < 0x20) : Reads (a :: tail) (a :: tail) where
  head := ⟨a, tail, rfl, hquote⟩
  scan rest := by
    have hwidth := h.width_append rest
    have hpos : width (a :: (tail ++ rest)) ≠ 0 := by
      rw [← List.cons_append, hwidth]
      exact Nat.succ_ne_zero _
    rw [List.cons_append, scanCharacter, if_neg hbackslash, if_neg hcontrol, if_neg hpos, ← List.cons_append, hwidth,
      List.take_left, List.drop_left]

theorem reads_escapeByte {a : UInt8} (h : a < 0x80) : Reads (escapeByte a) [a] := by
  cases hshort : shortEscape a with
  | some letter =>
      obtain ⟨hunicode, hescaped⟩ := escaped_of_shortEscape hshort
      have hwritten : escapeByte a = [backslash, letter] := by rw [escapeByte, hshort]
      rw [hwritten]
      refine ⟨⟨_, _, rfl, by decide⟩, fun rest => ?_⟩
      show scanEscape (letter :: rest) = _
      rw [scanEscape, if_neg hunicode, hescaped]
      rfl
  | none =>
      have hquote : a ≠ quote := by
        rintro rfl
        cases shortEscape_quote.symm.trans hshort
      have hbackslash : a ≠ backslash := by
        rintro rfl
        cases shortEscape_backslash.symm.trans hshort
      by_cases hhex : a < 0x20 ∨ a = 60 ∨ a = 62 ∨ a = 38
      · have hwritten : escapeByte a = backslash :: 117 :: 48 :: 48 :: [hexDigit (a.toNat / 16), hexDigit (a.toNat % 16)] := by
          rw [escapeByte, hshort]
          exact if_pos hhex
        have ha : a.toNat < 0x80 := h
        have hone : encodeRune a.toNat = [a] := by
          rw [encodeRune, if_pos ha, UInt8.ofNat_toNat]
        rw [hwritten]
        refine ⟨⟨_, _, rfl, by decide⟩, fun rest => (scanCharacter_unicode _).trans ?_⟩
        rw [← hone]
        exact unicodeEscape_of_values (w := 0) (x := 0) (by decide) (by decide) (hexValue_hexDigit (by omega))
          (hexValue_hexDigit (by omega)) (by omega) (.inl (by omega)) rest
      · have hwritten : escapeByte a = [a] := by
          rw [escapeByte, hshort]
          exact if_neg hhex
        rw [not_or] at hhex
        rw [hwritten]
        exact reads_character ⟨fun rest => width_of_lt h rest, Nat.one_pos⟩ hquote hbackslash hhex.1

theorem IsCharacter.two_le {a : UInt8} {tail : Bytes} (h : IsCharacter (a :: tail)) (ha : ¬a < 0x80) : tail ≠ [] := by
  rintro rfl
  have hwidth := h.width_append []
  simp [width, ha, isTwo_zero, isThree_zero, isFour_zero] at hwidth

theorem reads_wide {a : UInt8} {tail : Bytes} (h : IsCharacter (a :: tail)) (ha : ¬a < 0x80) :
    Reads (escapeRune (some (a :: tail))) (a :: tail) := by
  obtain ⟨b, tail, rfl⟩ := List.exists_cons_of_ne_nil (IsCharacter.two_le h ha)
  have hplain : ∀ c : UInt8, c < 0x80 → a ≠ c := by
    rintro c hc rfl
    exact ha hc
  have hwritten : escapeRune (some (a :: b :: tail)) =
      if a :: b :: tail = [0xE2, 0x80, 0xA8] then backslash :: 117 :: ascii "2028"
      else if a :: b :: tail = [0xE2, 0x80, 0xA9] then backslash :: 117 :: ascii "2029"
      else a :: b :: tail := rfl
  rw [hwritten]
  split_ifs with hline hparagraph
  · rw [hline]
    refine ⟨⟨_, _, rfl, by decide⟩, fun rest => (scanCharacter_unicode _).trans ?_⟩
    exact unicodeEscape_of_values (w := 2) (x := 0) (y := 2) (z := 8) (n := 0x2028) rfl rfl rfl rfl rfl (.inl (by decide)) rest
  · rw [hparagraph]
    refine ⟨⟨_, _, rfl, by decide⟩, fun rest => (scanCharacter_unicode _).trans ?_⟩
    exact unicodeEscape_of_values (w := 2) (x := 0) (y := 2) (z := 9) (n := 0x2029) rfl rfl rfl rfl rfl (.inl (by decide)) rest
  · refine reads_character h (hplain _ (by decide)) (hplain _ (by decide)) fun hcontrol => ha ?_
    exact UInt8.lt_trans hcontrol (by decide)

theorem reads_escapeRune {text : Bytes} {rune : Option Bytes} (h : rune ∈ runes text) :
    Reads (escapeRune rune) (rune.getD replacement) := by
  cases rune with
  | none =>
      refine ⟨⟨_, _, rfl, by decide⟩, fun rest => (scanCharacter_unicode _).trans ?_⟩
      exact unicodeEscape_of_values (w := 15) (x := 15) (y := 15) (z := 13) (n := 0xFFFD) rfl rfl rfl rfl rfl (.inr (by decide)) rest
  | some cs =>
      have hcharacter := isCharacter_of_mem_runes h
      rcases hcharacter.ascii_or with ⟨a, ha, rfl⟩ | ⟨a, tail, ha, rfl⟩
      · exact reads_escapeByte ha
      · exact reads_wide hcharacter ha

/-- Reading back what was written gives the text that is meant. -/
theorem upTo_runes {text : Bytes} {runes : List (Option Bytes)} (h : ∀ rune ∈ runes, rune ∈ Utf8.runes text) (rest : Bytes) :
    upTo character quote (runes.flatMap escapeRune ++ quote :: rest) = some (runes.map (·.getD replacement), rest) := by
  induction runes with
  | nil =>
      rw [List.flatMap_nil, List.nil_append, upTo_cons, if_pos rfl]
      rfl
  | cons rune runes ih =>
      rw [List.forall_mem_cons] at h
      obtain ⟨⟨c, tail, hwritten, hquote⟩, hscan⟩ := reads_escapeRune h.1
      have hread := hscan (runes.flatMap escapeRune ++ quote :: rest)
      rw [hwritten, List.cons_append] at hread
      rw [List.flatMap_cons, List.append_assoc, hwritten, List.cons_append, upTo_cons, if_neg hquote,
        show character.scan = scanCharacter from rfl, hread, Option.bind_some, ih h.2]
      rfl

theorem literal_quoted (text rest : Bytes) : literal.scan (quoted text ++ rest) = some (sanitize text, rest) := by
  have hbody : quoted text ++ rest = quote :: ((runes text).flatMap escapeRune ++ quote :: rest) := by
    rw [quoted, List.cons_append, List.append_assoc]
    rfl
  show scanLiteral (quoted text ++ rest) = _
  rw [hbody, scanLiteral, if_pos rfl, upTo_runes fun _ hmem => hmem, Option.map_some, sanitize, List.flatMap_def]

end JsonText
