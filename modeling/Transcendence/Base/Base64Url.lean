import Mathlib.Data.List.Basic
import Mathlib.Logic.Function.Basic

/-!
# Unpadded base64url

Strings are lists of bytes. `encode` writes three bytes as four characters of six bits each, and one
or two bytes at the end as two or three characters. `decode` is lenient as decoders are: it skips
line ends, and ignores the bits of the last character that belong to no byte. A text is canonical if
it is the encoding of what it decodes to, which makes the encoding unique.
-/

abbrev Bytes := List UInt8

/-- The bytes of an ASCII text. -/
def ascii (text : String) : Bytes := text.toList.map fun c => UInt8.ofNat c.toNat

namespace Base64Url

/-- The character of a number below 64. -/
def character (n : Nat) : UInt8 :=
  UInt8.ofNat (if n < 26 then 65 + n else if n < 52 then 71 + n else if n < 62 then n - 4 else if n = 62 then 45 else 95)

def digit (c : UInt8) : Option Nat :=
  let n := c.toNat
  if 65 ≤ n ∧ n ≤ 90 then some (n - 65)
  else if 97 ≤ n ∧ n ≤ 122 then some (n - 71)
  else if 48 ≤ n ∧ n ≤ 57 then some (n + 4)
  else if n = 45 then some 62
  else if n = 95 then some 63
  else none

/-- The bits of the bytes in groups of six, with zeros at the end. -/
def digits : Bytes → List Nat
  | a :: b :: c :: rest =>
      a.toNat / 4 :: (a.toNat % 4 * 16 + b.toNat / 16) :: (b.toNat % 16 * 4 + c.toNat / 64) :: c.toNat % 64 :: digits rest
  | [a, b] => [a.toNat / 4, a.toNat % 4 * 16 + b.toNat / 16, b.toNat % 16 * 4]
  | [a] => [a.toNat / 4, a.toNat % 4 * 16]
  | [] => []

def encode (bytes : Bytes) : Bytes := (digits bytes).map character

def decodeDigits : List Nat → Option Bytes
  | w :: x :: y :: z :: rest =>
      (decodeDigits rest).map fun tail =>
        UInt8.ofNat (w * 4 + x / 16) :: UInt8.ofNat (x % 16 * 16 + y / 4) :: UInt8.ofNat (y % 4 * 64 + z) :: tail
  | [w, x, y] => some [UInt8.ofNat (w * 4 + x / 16), UInt8.ofNat (x % 16 * 16 + y / 4)]
  | [w, x] => some [UInt8.ofNat (w * 4 + x / 16)]
  | [_] => none
  | [] => some []

def isLineEnd (c : UInt8) : Bool := c = 10 || c = 13

def decode (text : Bytes) : Option Bytes := ((text.filter (!isLineEnd ·)).mapM digit).bind decodeDigits

/-! ### Characters -/

theorem toNat_character {n : Nat} (h : n < 64) :
    (character n).toNat =
      if n < 26 then 65 + n else if n < 52 then 71 + n else if n < 62 then n - 4 else if n = 62 then 45 else 95 := by
  rw [character, UInt8.toNat_ofNat']
  apply Nat.mod_eq_of_lt
  split_ifs <;> omega

theorem digit_character {n : Nat} (h : n < 64) : digit (character n) = some n := by
  rw [digit, toNat_character h]
  split_ifs <;> first | omega | (congr 1; omega)

/-- The characters of an encoding. -/
def IsCharacter (c : UInt8) : Prop := ∃ n < 64, c = character n

theorem IsCharacter.ne {c : UInt8} (h : IsCharacter c) {other : UInt8} (hother : digit other = none) : c ≠ other := by
  obtain ⟨n, hn, rfl⟩ := h
  rintro rfl
  cases (digit_character hn).symm.trans hother

theorem IsCharacter.not_isLineEnd {c : UInt8} (h : IsCharacter c) : isLineEnd c = false := by
  have hten : c ≠ 10 := h.ne (by decide)
  have hthirteen : c ≠ 13 := h.ne (by decide)
  simp [isLineEnd, hten, hthirteen]

/-! ### Encodings -/

theorem lt_of_mem_digits {bytes : Bytes} {n : Nat} (h : n ∈ digits bytes) : n < 64 := by
  fun_induction digits bytes with
  | case1 a b c rest ih =>
      have ha := a.toNat_lt
      have hb := b.toNat_lt
      have hc := c.toNat_lt
      simp only [List.mem_cons] at h
      rcases h with rfl | rfl | rfl | rfl | h
      · omega
      · omega
      · omega
      · omega
      · exact ih h
  | case2 a b =>
      have ha := a.toNat_lt
      have hb := b.toNat_lt
      simp only [List.mem_cons, List.not_mem_nil, or_false] at h
      omega
  | case3 a =>
      have ha := a.toNat_lt
      simp only [List.mem_cons, List.not_mem_nil, or_false] at h
      omega
  | case4 => cases h

theorem length_digits (bytes : Bytes) : (digits bytes).length = (bytes.length * 4 + 2) / 3 := by
  fun_induction digits bytes with
  | case1 a b c rest ih =>
      simp only [List.length_cons, ih]
      omega
  | case2 a b => simp
  | case3 a => simp
  | case4 => rfl

theorem decodeDigits_digits (bytes : Bytes) : decodeDigits (digits bytes) = some bytes := by
  have hbyte : ∀ (a : UInt8) (n : Nat), n = a.toNat → UInt8.ofNat n = a := by
    rintro a n rfl
    exact UInt8.ofNat_toNat
  fun_induction digits bytes with
  | case1 a b c rest ih =>
      have hb := b.toNat_lt
      have hc := c.toNat_lt
      rw [decodeDigits, ih, hbyte a _ (by omega), hbyte b _ (by omega), hbyte c _ (by omega)]
      rfl
  | case2 a b =>
      have hb := b.toNat_lt
      rw [decodeDigits, hbyte a _ (by omega), hbyte b _ (by omega)]
  | case3 a => rw [decodeDigits, hbyte a _ (by omega)]
  | case4 => rfl

theorem isCharacter_of_mem_encode {bytes : Bytes} {c : UInt8} (h : c ∈ encode bytes) : IsCharacter c := by
  obtain ⟨n, hn, rfl⟩ := List.mem_map.mp h
  exact ⟨n, lt_of_mem_digits hn, rfl⟩

theorem length_encode (bytes : Bytes) : (encode bytes).length = (bytes.length * 4 + 2) / 3 := by
  rw [encode, List.length_map, length_digits]

theorem mapM_digit {ns : List Nat} (h : ∀ n ∈ ns, n < 64) : (ns.map character).mapM digit = some ns := by
  induction ns with
  | nil => rfl
  | cons n ns ih =>
      rw [List.forall_mem_cons] at h
      rw [List.map_cons, List.mapM_cons, digit_character h.1, ih h.2]
      rfl

theorem decode_encode (bytes : Bytes) : decode (encode bytes) = some bytes := by
  have hfilter : (encode bytes).filter (!isLineEnd ·) = encode bytes := by
    rw [List.filter_eq_self]
    intro c hc
    rw [(isCharacter_of_mem_encode hc).not_isLineEnd]
    rfl
  rw [decode, hfilter, encode, mapM_digit fun n => lt_of_mem_digits]
  exact decodeDigits_digits bytes

theorem encode_injective : Function.Injective encode := by
  intro first second heq
  have hdecoded := decode_encode first
  rw [heq, decode_encode] at hdecoded
  exact (Option.some.inj hdecoded).symm

end Base64Url
