import Transcendence.Base.Base64Url

/-!
# The four variants of base64

The standard and the URL alphabet differ in two characters, and either is used with padding or
without. A decoder skips line ends and ignores the bits that belong to no byte, so that a text can be
decoded without being the encoding of anything. An encoding is decoded to its bytes, and no text is
the encoding of two byte strings, whatever the variants.
-/

namespace Base64

open Base64Url (digits isLineEnd)

inductive Alphabet where
  | std
  | url
  deriving DecidableEq

structure Encoding where
  alphabet : Alphabet
  padded : Bool
  deriving DecidableEq

def StdEncoding : Encoding :=
  ⟨.std, true⟩

def URLEncoding : Encoding :=
  ⟨.url, true⟩

def RawStdEncoding : Encoding :=
  ⟨.std, false⟩

def RawURLEncoding : Encoding :=
  ⟨.url, false⟩

def character (alphabet : Alphabet) (n : Nat) : UInt8 :=
  match alphabet with
  | .std => if n = 62 then 43 else if n = 63 then 47 else Base64Url.character n
  | .url => Base64Url.character n

/-- The number of a character, in whichever alphabet it is. -/
def value (c : UInt8) : Option Nat :=
  if c = 43 then some 62 else if c = 47 then some 63 else Base64Url.digit c

def digit (alphabet : Alphabet) (c : UInt8) : Option Nat :=
  match alphabet with
  | .std => if c = 45 ∨ c = 95 then none else value c
  | .url => Base64Url.digit c

/-- What fills the last group of four characters. -/
def padding (e : Encoding) (length : Nat) : Bytes :=
  if e.padded then List.replicate ((3 - length % 3) % 3) 61 else []

def encode (e : Encoding) (bytes : Bytes) : Bytes :=
  (digits bytes).map (character e.alphabet) ++ padding e bytes.length

/-- One group of four characters after the other. A group with padding is the last one. -/
def decodeQuanta (e : Encoding) : Bytes → Option Bytes
  | w :: x :: y :: z :: rest =>
      match digit e.alphabet w, digit e.alphabet x, digit e.alphabet y, digit e.alphabet z with
      | some w, some x, some y, some z =>
          (decodeQuanta e rest).map fun tail =>
            UInt8.ofNat (w * 4 + x / 16) :: UInt8.ofNat (x % 16 * 16 + y / 4) :: UInt8.ofNat (y % 4 * 64 + z) :: tail
      | some w, some x, some y, none =>
          if e.padded ∧ z = 61 ∧ rest = [] then
            some [UInt8.ofNat (w * 4 + x / 16), UInt8.ofNat (x % 16 * 16 + y / 4)]
          else none
      | some w, some x, none, _ =>
          if e.padded ∧ y = 61 ∧ z = 61 ∧ rest = [] then some [UInt8.ofNat (w * 4 + x / 16)] else none
      | _, _, _, _ => none
  | [w, x, y] =>
      match digit e.alphabet w, digit e.alphabet x, digit e.alphabet y with
      | some w, some x, some y =>
          if e.padded then none else some [UInt8.ofNat (w * 4 + x / 16), UInt8.ofNat (x % 16 * 16 + y / 4)]
      | _, _, _ => none
  | [w, x] =>
      match digit e.alphabet w, digit e.alphabet x with
      | some w, some x => if e.padded then none else some [UInt8.ofNat (w * 4 + x / 16)]
      | _, _ => none
  | [_] => none
  | [] => some []

def decode (e : Encoding) (text : Bytes) : Option Bytes :=
  decodeQuanta e (text.filter (!isLineEnd ·))

/-! ### Characters -/

theorem value_character (alphabet : Alphabet) {n : Nat} (h : n < 64) : value (character alphabet n) = some n := by
  have hurl := Base64Url.digit_character h
  have hne43 : Base64Url.character n ≠ 43 := fun heq => by
    rw [heq] at hurl
    cases hurl
  have hne47 : Base64Url.character n ≠ 47 := fun heq => by
    rw [heq] at hurl
    cases hurl
  cases alphabet with
  | url => rw [character, value, if_neg hne43, if_neg hne47, hurl]
  | std =>
      rw [character]
      split_ifs with h62 h63
      · rw [h62]
        rfl
      · rw [h63]
        rfl
      · rw [value, if_neg hne43, if_neg hne47, hurl]

theorem digit_character (alphabet : Alphabet) {n : Nat} (h : n < 64) : digit alphabet (character alphabet n) = some n := by
  cases alphabet with
  | url => exact Base64Url.digit_character h
  | std =>
      have hvalue := value_character .std h
      have hneither : ¬ (character .std n = 45 ∨ character .std n = 95) := by
        intro heq
        rcases heq with heq | heq
        · rw [heq] at hvalue
          have h62 : n = 62 := (Option.some.inj hvalue).symm
          rw [h62] at heq
          exact absurd heq (by decide)
        · rw [heq] at hvalue
          have h63 : n = 63 := (Option.some.inj hvalue).symm
          rw [h63] at heq
          exact absurd heq (by decide)
      rw [digit, if_neg hneither, hvalue]

theorem digit_padding (alphabet : Alphabet) : digit alphabet 61 = none := by
  cases alphabet <;> rfl

/-- Every character of an encoding is in the alphabet or fills the last group. -/
theorem value_or_padding {e : Encoding} {bytes : Bytes} {c : UInt8} (h : c ∈ encode e bytes) :
    (value c).isSome ∨ c = 61 := by
  rcases List.mem_append.mp h with h | h
  · obtain ⟨n, hn, rfl⟩ := List.mem_map.mp h
    rw [value_character _ (Base64Url.lt_of_mem_digits hn)]
    exact Or.inl rfl
  · rw [padding] at h
    split_ifs at h
    · exact Or.inr (List.eq_of_mem_replicate h)
    · exact absurd h List.not_mem_nil

theorem ne_of_mem_encode {e : Encoding} {bytes : Bytes} {c other : UInt8} (h : c ∈ encode e bytes)
    (hvalue : value other = none) (hother : other ≠ 61) : c ≠ other := by
  intro heq
  rcases value_or_padding h with hc | hc
  · rw [heq, hvalue] at hc
    cases hc
  · exact hother (heq.symm.trans hc)

/-! ### Encodings -/

theorem decodeQuanta_encode (e : Encoding) (bytes : Bytes) : decodeQuanta e (encode e bytes) = some bytes := by
  have hbyte : ∀ (a : UInt8) (n : Nat), n = a.toNat → UInt8.ofNat n = a := by
    intro a n hn
    rw [hn, UInt8.ofNat_toNat]
  rw [encode]
  fun_induction digits bytes with
  | case1 a b c rest ih =>
      have ha := a.toNat_lt
      have hb := b.toNat_lt
      have hc := c.toNat_lt
      have hpadding : padding e (a :: b :: c :: rest).length = padding e rest.length := by
        rw [padding, padding]
        simp only [List.length_cons, Nat.add_mod_right, Nat.add_assoc]
      rw [hpadding, List.map_cons, List.map_cons, List.map_cons, List.map_cons, List.cons_append, List.cons_append,
        List.cons_append, List.cons_append, decodeQuanta, digit_character _ (by omega), digit_character _ (by omega),
        digit_character _ (by omega), digit_character _ (by omega), ih]
      dsimp only [Option.map_some]
      rw [hbyte a _ (by omega), hbyte b _ (by omega), hbyte c _ (by omega)]
  | case2 a b =>
      have ha := a.toNat_lt
      have hb := b.toNat_lt
      have hfirst := hbyte a (a.toNat / 4 * 4 + (a.toNat % 4 * 16 + b.toNat / 16) / 16) (by omega)
      have hsecond := hbyte b ((a.toNat % 4 * 16 + b.toNat / 16) % 16 * 16 + b.toNat % 16 * 4 / 4) (by omega)
      rw [padding]
      cases hpadded : e.padded with
      | true =>
          show decodeQuanta e [_, _, _, 61] = _
          rw [decodeQuanta, digit_character _ (by omega), digit_character _ (by omega), digit_character _ (by omega),
            digit_padding]
          dsimp only
          rw [if_pos ⟨hpadded, rfl, rfl⟩, hfirst, hsecond]
      | false =>
          show decodeQuanta e [_, _, _] = _
          rw [decodeQuanta, digit_character _ (by omega), digit_character _ (by omega), digit_character _ (by omega)]
          dsimp only
          rw [if_neg (by rw [hpadded]; exact Bool.false_ne_true), hfirst, hsecond]
  | case3 a =>
      have ha := a.toNat_lt
      have hfirst := hbyte a (a.toNat / 4 * 4 + a.toNat % 4 * 16 / 16) (by omega)
      rw [padding]
      cases hpadded : e.padded with
      | true =>
          show decodeQuanta e [_, _, 61, 61] = _
          rw [decodeQuanta, digit_character _ (by omega), digit_character _ (by omega), digit_padding]
          dsimp only
          rw [if_pos ⟨hpadded, rfl, rfl, rfl⟩, hfirst]
      | false =>
          show decodeQuanta e [_, _] = _
          rw [decodeQuanta, digit_character _ (by omega), digit_character _ (by omega)]
          dsimp only
          rw [if_neg (by rw [hpadded]; exact Bool.false_ne_true), hfirst]
  | case4 =>
      rw [padding]
      cases e.padded <;> rfl

theorem decode_encode (e : Encoding) (bytes : Bytes) : decode e (encode e bytes) = some bytes := by
  have hfilter : (encode e bytes).filter (!isLineEnd ·) = encode e bytes := by
    rw [List.filter_eq_self]
    intro c hc
    have hten : c ≠ 10 := ne_of_mem_encode hc (by decide) (by decide)
    have hthirteen : c ≠ 13 := ne_of_mem_encode hc (by decide) (by decide)
    simp [isLineEnd, hten, hthirteen]
  rw [decode, hfilter, decodeQuanta_encode]

/-- The numbers that an encoding writes, whatever the variant. -/
theorem filterMap_value_encode (e : Encoding) (bytes : Bytes) : (encode e bytes).filterMap value = digits bytes := by
  have hpadding : (padding e bytes.length).filterMap value = [] := by
    rw [List.filterMap_eq_nil_iff]
    intro c hc
    rw [padding] at hc
    split_ifs at hc
    · rw [List.eq_of_mem_replicate hc]
      rfl
    · exact absurd hc List.not_mem_nil
  have hdigits : ((digits bytes).map (character e.alphabet)).filterMap value = digits bytes := by
    rw [List.filterMap_map]
    conv_rhs => rw [← List.filterMap_some (l := digits bytes)]
    apply List.filterMap_congr
    intro n hn
    exact value_character _ (Base64Url.lt_of_mem_digits hn)
  rw [encode, List.filterMap_append, hdigits, hpadding, List.append_nil]

/-- A text is the encoding of one byte string at most, in any of the variants. -/
theorem eq_of_encode_eq {e e' : Encoding} {bytes bytes' : Bytes} (h : encode e bytes = encode e' bytes') :
    bytes = bytes' := by
  have hdigits : digits bytes = digits bytes' := by
    rw [← filterMap_value_encode e, h, filterMap_value_encode]
  have hdecoded := Base64Url.decodeDigits_digits bytes
  rw [hdigits, Base64Url.decodeDigits_digits, Option.some.injEq] at hdecoded
  exact hdecoded.symm

theorem encode_ne_nil {e : Encoding} {bytes : Bytes} (h : bytes ≠ []) : encode e bytes ≠ [] := by
  intro heq
  apply h
  have hdecoded := decode_encode e bytes
  rw [heq] at hdecoded
  exact (Option.some.inj hdecoded).symm

end Base64
