import Mathlib.Data.Nat.Digits.Lemmas
import Transcendence.Base.Base64Url

/-!
# Strings as Go has them

A string is a list of bytes. `strings.Split` by one byte is `List.splitOn`, and joining the parts
gives the string back. A decimal number is read with a limit on its bits.
-/

namespace GoString

/-! ### Splitting -/

/-- `strings.Split` by a separator of one byte. -/
def split (separator : UInt8) (text : Bytes) : List Bytes :=
  text.splitOn separator

/-- `strings.SplitN(text, separator, 2)`, none if the separator is not there. -/
def splitFirst (separator : UInt8) (text : Bytes) : Option (Bytes × Bytes) :=
  match text.dropWhile (· ≠ separator) with
  | [] => none
  | _ :: rest => some (text.takeWhile (· ≠ separator), rest)

def join (separator : UInt8) (parts : List Bytes) : Bytes :=
  [separator].intercalate parts

theorem join_split (separator : UInt8) (text : Bytes) : join separator (split separator text) = text :=
  List.intercalate_splitOn separator

theorem split_join {separator : UInt8} {parts : List Bytes} (hparts : parts ≠ [])
    (hclean : ∀ part ∈ parts, separator ∉ part) : split separator (join separator parts) = parts :=
  List.splitOn_intercalate separator hclean hparts

theorem not_mem_join {separator c : UInt8} {parts : List Bytes} (hne : c ≠ separator) (hclean : ∀ part ∈ parts, c ∉ part) :
    c ∉ join separator parts := by
  induction parts with
  | nil => exact List.not_mem_nil
  | cons part parts ih =>
      rw [List.forall_mem_cons] at hclean
      cases parts with
      | nil =>
          rw [join, List.intercalate_singleton]
          exact hclean.1
      | cons next parts =>
          rw [join, List.intercalate_cons_cons, List.mem_append, List.mem_append, List.mem_singleton, not_or, not_or]
          exact ⟨⟨hclean.1, hne⟩, ih hclean.2⟩

/-! ### Decimal numbers -/

def isDigit (c : UInt8) : Bool :=
  48 ≤ c && c ≤ 57

def digitOf (c : UInt8) : Nat :=
  c.toNat - 48

def character (digit : Nat) : UInt8 :=
  UInt8.ofNat (48 + digit)

/-- The number that decimal digits denote, the first of them counting most. -/
def numberOf (text : Bytes) : Nat :=
  Nat.ofDigits 10 (text.reverse.map digitOf)

/-- The digits of a positive number. -/
def decimal (n : Nat) : Bytes :=
  (Nat.digits 10 n).reverse.map character

/-- `strconv.ParseUint(text, 10, bitSize)` -/
def parseUint (text : Bytes) (bitSize : Nat) : Option Nat :=
  if text ≠ [] ∧ text.all isDigit ∧ numberOf text < 2 ^ bitSize then some (numberOf text) else none

theorem isDigit_iff (c : UInt8) : isDigit c = true ↔ 48 ≤ c.toNat ∧ c.toNat ≤ 57 := by
  rw [isDigit, Bool.and_eq_true, decide_eq_true_eq, decide_eq_true_eq, UInt8.le_iff_toNat_le, UInt8.le_iff_toNat_le]
  rfl

theorem toNat_character {digit : Nat} (h : digit < 10) : (character digit).toNat = 48 + digit := by
  rw [character, UInt8.toNat_ofNat']
  omega

theorem isDigit_character {digit : Nat} (h : digit < 10) : isDigit (character digit) = true := by
  rw [isDigit_iff, toNat_character h]
  omega

theorem digitOf_character {digit : Nat} (h : digit < 10) : digitOf (character digit) = digit := by
  rw [digitOf, toNat_character h]
  omega

theorem digitOf_lt {c : UInt8} (h : isDigit c = true) : digitOf c < 10 := by
  rw [isDigit_iff] at h
  rw [digitOf]
  omega

theorem character_digitOf {c : UInt8} (h : isDigit c = true) : character (digitOf c) = c := by
  apply UInt8.toNat_inj.mp
  rw [toNat_character (digitOf_lt h), digitOf]
  rw [isDigit_iff] at h
  omega

theorem digit_lt {n d : Nat} (h : d ∈ (Nat.digits 10 n).reverse) : d < 10 :=
  Nat.digits_lt_base (by omega) (List.mem_reverse.mp h)

theorem numberOf_decimal (n : Nat) : numberOf (decimal n) = n := by
  have hsame : (Nat.digits 10 n).map (digitOf ∘ character) = Nat.digits 10 n := by
    conv_rhs => rw [← List.map_id (Nat.digits 10 n)]
    apply List.map_congr_left
    intro d hd
    exact digitOf_character (Nat.digits_lt_base (by omega) hd)
  rw [numberOf, decimal, ← List.map_reverse, List.reverse_reverse, List.map_map, hsame, Nat.ofDigits_digits]

theorem decimal_ne_nil {n : Nat} (h : n ≠ 0) : decimal n ≠ [] := by
  rw [decimal, Ne, List.map_eq_nil_iff, List.reverse_eq_nil_iff, Nat.digits_eq_nil_iff_eq_zero]
  exact h

theorem all_isDigit_decimal (n : Nat) : (decimal n).all isDigit = true := by
  rw [List.all_eq_true]
  intro c hc
  obtain ⟨d, hd, rfl⟩ := List.mem_map.mp hc
  exact isDigit_character (digit_lt hd)

theorem head?_decimal (n : Nat) : (decimal n).head? ≠ some 48 := by
  intro hhead
  have hne : n ≠ 0 := by
    intro hzero
    rw [hzero] at hhead
    cases hhead
  have hdigits : Nat.digits 10 n ≠ [] := Nat.digits_ne_nil_iff_ne_zero.mpr hne
  rw [decimal, List.head?_map, List.head?_reverse, List.getLast?_eq_some_getLast hdigits, Option.map_some,
    Option.some.injEq] at hhead
  have hlt := Nat.digits_lt_base (by omega) (List.getLast_mem hdigits)
  have hcharacter := toNat_character hlt
  rw [hhead] at hcharacter
  have hlast := Nat.getLast_digit_ne_zero 10 hne
  have h48 : (48 : UInt8).toNat = 48 := rfl
  omega

theorem parseUint_decimal {n bitSize : Nat} (hpos : n ≠ 0) (hlt : n < 2 ^ bitSize) :
    parseUint (decimal n) bitSize = some n := by
  rw [parseUint, numberOf_decimal, if_pos ⟨decimal_ne_nil hpos, all_isDigit_decimal n, hlt⟩]

/-- Digits without a zero in front are the decimal form of the number they denote. -/
theorem decimal_numberOf {text : Bytes} (hdigits : ∀ c ∈ text, isDigit c = true) (hhead : text.head? ≠ some 48) :
    decimal (numberOf text) = text := by
  have hnumber : Nat.digits 10 (numberOf text) = text.reverse.map digitOf := by
    apply Nat.digits_ofDigits 10 (by omega)
    · intro d hd
      obtain ⟨c, hc, rfl⟩ := List.mem_map.mp hd
      exact digitOf_lt (hdigits c (List.mem_reverse.mp hc))
    · intro hne hlast
      have hne' : text ≠ [] := by simpa using hne
      rw [List.getLast_map, List.getLast_reverse] at hlast
      apply hhead
      rw [List.head?_eq_some_head hne', Option.some.injEq,
        ← character_digitOf (hdigits _ (List.head_mem hne')), hlast]
      rfl
  rw [decimal, hnumber, ← List.map_reverse, List.reverse_reverse, List.map_map]
  conv_rhs => rw [← List.map_id text]
  apply List.map_congr_left
  intro c hc
  exact character_digitOf (hdigits c hc)

/-- A text without a zero in front is the decimal form of the number it is read as. -/
theorem decimal_of_parseUint {text : Bytes} {n bitSize : Nat} (h : parseUint text bitSize = some n)
    (hhead : text.head? ≠ some 48) : text = decimal n := by
  rw [parseUint] at h
  obtain ⟨hcond, hvalue⟩ := Option.ite_none_right_eq_some.mp h
  rw [← Option.some.inj hvalue, decimal_numberOf (List.all_eq_true.mp hcond.2.1) hhead]

theorem parseUint_lt {text : Bytes} {n bitSize : Nat} (h : parseUint text bitSize = some n) : n < 2 ^ bitSize := by
  rw [parseUint] at h
  obtain ⟨hcond, hvalue⟩ := Option.ite_none_right_eq_some.mp h
  rw [← Option.some.inj hvalue]
  exact hcond.2.2

end GoString
