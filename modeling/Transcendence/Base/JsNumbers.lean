import Mathlib.Data.List.MinMax
import Mathlib.Data.Nat.Digits.Lemmas
import Transcendence.Base.Binary64
import Transcendence.Base.JsStrings

/-!
# Numbers as text

JavaScript writes a number with as few digits as tell it from its neighbours, and with an exponent
when it is very large or very small. Whatever the form, reading the text gives the number back
(`stringToNumber_numberToString`).

Both directions go through the literals of the grammar: a number is written as the text of one, and
reading the text of a literal finds that literal.
-/

open Binary64

/-! ### Digits -/

namespace Digits

/-- The number that decimal digits denote, the first of them counting most. -/
def value (digits : List (Fin 10)) : Nat :=
  Nat.ofDigits 10 (digits.reverse.map Fin.val)

def ofNat (n : Nat) : List (Fin 10) :=
  (Nat.digits 10 n).reverse.map (Fin.ofNat 10)

theorem value_ofNat (n : Nat) : value (ofNat n) = n := by
  have hsame : (Nat.digits 10 n).map (Fin.val ∘ Fin.ofNat 10) = Nat.digits 10 n := by
    conv_rhs => rw [← List.map_id (Nat.digits 10 n)]
    apply List.map_congr_left
    intro d hd
    exact Nat.mod_eq_of_lt (Nat.digits_lt_base (by omega) hd)
  rw [value, ofNat, ← List.map_reverse, List.reverse_reverse, List.map_map, hsame, Nat.ofDigits_digits]

theorem ofNat_ne_nil {n : Nat} (h : n ≠ 0) : ofNat n ≠ [] := by
  rw [ofNat, Ne, List.map_eq_nil_iff, List.reverse_eq_nil_iff, Nat.digits_eq_nil_iff_eq_zero]
  exact h

theorem value_append (left right : List (Fin 10)) :
    value (left ++ right) = value left * 10 ^ right.length + value right := by
  rw [value, value, value, List.reverse_append, List.map_append, Nat.ofDigits_append, List.length_map,
    List.length_reverse, Nat.mul_comm, Nat.add_comm]

theorem value_replicate_zero (n : Nat) : value (List.replicate n 0) = 0 := by
  induction n with
  | zero => rfl
  | succ n ih =>
      rw [List.replicate_succ', value_append, ih]
      rfl

end Digits

/-! ### Literals -/

namespace JsString

def isDigit (u : UInt16) : Bool :=
  0x30 ≤ u && u ≤ 0x39

def digitOf (u : UInt16) : Fin 10 :=
  Fin.ofNat 10 (u.toNat - 0x30)

def digitUnit (d : Fin 10) : UInt16 :=
  0x30 + d.val.toUInt16

theorem isDigit_digitUnit (d : Fin 10) : isDigit (digitUnit d) = true := by
  revert d
  decide

theorem digitOf_digitUnit (d : Fin 10) : digitOf (digitUnit d) = d := by
  revert d
  decide

/-- The digits at the start of a string, and what follows them. -/
def takeDigits (s : JsString) : List (Fin 10) × JsString :=
  ((s.takeWhile isDigit).map digitOf, s.dropWhile isDigit)

theorem takeDigits_append (digits : List (Fin 10)) {rest : JsString} (h : ∀ u ∈ rest.head?, isDigit u = false) :
    takeDigits (digits.map digitUnit ++ rest) = (digits, rest) := by
  have hall : ∀ u ∈ digits.map digitUnit, isDigit u = true := by
    intro u hu
    obtain ⟨d, _, rfl⟩ := List.mem_map.mp hu
    exact isDigit_digitUnit d
  have hnone : rest.takeWhile isDigit = [] ∧ rest.dropWhile isDigit = rest := by
    cases rest with
    | nil => exact ⟨rfl, rfl⟩
    | cons u rest =>
        have hu := h u rfl
        exact ⟨List.takeWhile_cons_of_neg (by simp [hu]), List.dropWhile_cons_of_neg (by simp [hu])⟩
  rw [takeDigits, List.takeWhile_append_of_pos hall, List.dropWhile_append_of_pos hall, hnone.1, hnone.2,
    List.append_nil, List.map_map]
  congr 1
  conv_rhs => rw [← List.map_id digits]
  exact List.map_congr_left fun d _ => digitOf_digitUnit d

/-- A leading sign, and whether it is a minus. -/
def takeSign : JsString → Bool × JsString
  | [] => (false, [])
  | u :: rest => if u = 0x2D then (true, rest) else if u = 0x2B then (false, rest) else (false, u :: rest)

end JsString

open JsString

/-- A `StrUnsignedDecimalLiteral`: the digits before the point, those after it, and an exponent with its sign. -/
structure DecimalLiteral where
  int : List (Fin 10)
  frac : Option (List (Fin 10))
  exp : Option (Bool × List (Fin 10))
  deriving DecidableEq

namespace DecimalLiteral

def expValue : Option (Bool × List (Fin 10)) → ℤ
  | none => 0
  | some (negative, digits) => if negative then -Digits.value digits else Digits.value digits

def value (l : DecimalLiteral) : ℚ :=
  Digits.value (l.int ++ l.frac.getD []) * 10 ^ (expValue l.exp - (l.frac.getD []).length)

def fracText : Option (List (Fin 10)) → JsString
  | none => []
  | some digits => 0x2E :: digits.map digitUnit

def expText : Option (Bool × List (Fin 10)) → JsString
  | none => []
  | some (negative, digits) => 0x65 :: (if negative then 0x2D else 0x2B) :: digits.map digitUnit

def text (l : DecimalLiteral) : JsString :=
  l.int.map digitUnit ++ (fracText l.frac ++ expText l.exp)

/-! ### Reading a literal -/

def readFrac : JsString → Option (List (Fin 10)) × JsString
  | [] => (none, [])
  | u :: rest => if u = 0x2E then ((takeDigits rest).1, (takeDigits rest).2) else (none, u :: rest)

/-- What is left must be an exponent, or nothing. -/
def readExp : JsString → Option (Option (Bool × List (Fin 10)))
  | [] => some none
  | u :: rest =>
      let (negative, unsigned) := takeSign rest
      let (digits, left) := takeDigits unsigned
      if (u = 0x65 ∨ u = 0x45) ∧ digits ≠ [] ∧ left = [] then some (some (negative, digits)) else none

/-- The literal that a string is, if it is one. -/
def read (s : JsString) : Option DecimalLiteral :=
  let (int, afterInt) := takeDigits s
  let (frac, afterFrac) := readFrac afterInt
  if int = [] ∧ frac.getD [] = [] then none
  else (readExp afterFrac).map fun exp => ⟨int, frac, exp⟩

theorem head?_expText {exp : Option (Bool × List (Fin 10))} : ∀ u ∈ (expText exp).head?, u = 0x65 := by
  intro u hu
  cases exp with
  | none => cases hu
  | some exp =>
      rw [expText] at hu
      exact (Option.mem_some.mp hu).symm

theorem readFrac_append (frac : Option (List (Fin 10))) (exp : Option (Bool × List (Fin 10))) :
    readFrac (fracText frac ++ expText exp) = (frac, expText exp) := by
  cases frac with
  | none =>
      cases exp with
      | none => rfl
      | some exp => rfl
  | some digits =>
      have htake : takeDigits (digits.map digitUnit ++ expText exp) = (digits, expText exp) := by
        apply takeDigits_append
        intro u hu
        rw [head?_expText u hu]
        rfl
      rw [fracText, List.cons_append, readFrac, if_pos rfl, htake]

theorem readExp_expText {exp : Option (Bool × List (Fin 10))} (h : ∀ e ∈ exp, e.2 ≠ []) :
    readExp (expText exp) = some exp := by
  cases exp with
  | none => rfl
  | some exp =>
      obtain ⟨negative, digits⟩ := exp
      have hsign : takeSign ((if negative then 0x2D else 0x2B) :: digits.map digitUnit) =
          (negative, digits.map digitUnit) := by
        cases negative <;> rfl
      have htake : takeDigits (digits.map digitUnit) = (digits, []) := by
        rw [← List.append_nil (digits.map digitUnit)]
        exact takeDigits_append digits nofun
      have hne : digits ≠ [] := h _ rfl
      rw [expText, readExp, hsign]
      simp only [htake]
      exact if_pos (by simpa using hne)

/-- Reading the text of a literal finds the literal. -/
theorem read_text {l : DecimalLiteral} (hint : l.int ≠ []) (hexp : ∀ e ∈ l.exp, e.2 ≠ []) : read l.text = some l := by
  have htake : takeDigits l.text = (l.int, fracText l.frac ++ expText l.exp) := by
    apply takeDigits_append
    intro u hu
    cases hfrac : l.frac with
    | none =>
        rw [hfrac] at hu
        rw [head?_expText u hu]
        rfl
    | some digits =>
        rw [hfrac] at hu
        cases hu
        rfl
  rw [read]
  simp only [htake, readFrac_append, readExp_expText hexp, Option.map_some]
  exact if_neg fun h => hint h.1

/-! ### The literal of a number -/

/-- An exponent as it is written. -/
def expOf (n : ℤ) : Bool × List (Fin 10) :=
  (n < 0, Digits.ofNat n.natAbs)

theorem expValue_expOf (n : ℤ) : expValue (some (expOf n)) = n := by
  rw [expOf, expValue, Digits.value_ofNat]
  by_cases h : n < 0
  · rw [decide_eq_true h, if_pos rfl]
    omega
  · rw [decide_eq_false h, if_neg Bool.false_ne_true]
    omega

/-- `Number::toString` for digits that denote `digits * 10 ^ (n - digits.length)`: as they are with
zeros behind, with a point among them, with zeros before them, or with an exponent. -/
def ofDigits (digits : List (Fin 10)) (n : ℤ) : DecimalLiteral :=
  if digits.length ≤ n ∧ n ≤ 21 then ⟨digits ++ List.replicate (n - digits.length).toNat 0, none, none⟩
  else if 0 < n ∧ n ≤ 21 then ⟨digits.take n.toNat, some (digits.drop n.toNat), none⟩
  else if -6 < n ∧ n ≤ 0 then ⟨[0], some (List.replicate (-n).toNat 0 ++ digits), none⟩
  else
    ⟨digits.take 1, if digits.length = 1 then none else some (digits.drop 1), some (expOf (n - 1))⟩

theorem value_none (int : List (Fin 10)) (exp : Option (Bool × List (Fin 10))) :
    value ⟨int, none, exp⟩ = Digits.value int * 10 ^ expValue exp := by
  rw [value, Option.getD_none, List.append_nil, List.length_nil, Nat.cast_zero, sub_zero]

theorem value_some (int frac : List (Fin 10)) (exp : Option (Bool × List (Fin 10))) :
    value ⟨int, some frac, exp⟩ = Digits.value (int ++ frac) * 10 ^ (expValue exp - frac.length) :=
  rfl

theorem value_ofDigits {digits : List (Fin 10)} (h : digits ≠ []) (n : ℤ) :
    (ofDigits digits n).value = Digits.value digits * 10 ^ (n - digits.length) := by
  have hlength : 0 < digits.length := List.length_pos_iff.mpr h
  rw [ofDigits]
  split_ifs with hzeros hpoint hsmall hone
  · obtain ⟨k, hk⟩ : ∃ k : ℕ, n - digits.length = k := ⟨(n - digits.length).toNat, by omega⟩
    rw [value_none, hk, Int.toNat_natCast, Digits.value_append, Digits.value_replicate_zero, List.length_replicate,
      expValue, zpow_zero, mul_one, zpow_natCast]
    push_cast
    ring
  · rw [value_some, List.take_append_drop, List.length_drop, expValue]
    congr 2
    omega
  · rw [value_some, Digits.value_append, Digits.value_append, Digits.value_replicate_zero, List.length_append,
      List.length_replicate, expValue, show Digits.value [0] = 0 from rfl, zero_mul, zero_mul, zero_add, zero_add]
    congr 2
    omega
  · rw [value_none, expValue_expOf, List.take_of_length_le (by omega), hone]
    rfl
  · rw [value_some, expValue_expOf, List.take_append_drop, List.length_drop]
    congr 2
    omega

theorem int_ofDigits_ne_nil {digits : List (Fin 10)} (h : digits ≠ []) (n : ℤ) : (ofDigits digits n).int ≠ [] := by
  have hlength : 0 < digits.length := List.length_pos_iff.mpr h
  rw [ofDigits]
  split_ifs
  · exact List.append_ne_nil_of_left_ne_nil h _
  · apply List.ne_nil_of_length_pos
    rw [List.length_take]
    omega
  · exact List.cons_ne_nil _ _
  · apply List.ne_nil_of_length_pos
    rw [List.length_take]
    omega
  · apply List.ne_nil_of_length_pos
    rw [List.length_take]
    omega

theorem exp_ofDigits_ne_nil {digits : List (Fin 10)} {n : ℤ} (h : digits ≠ []) :
    ∀ e ∈ (ofDigits digits n).exp, e.2 ≠ [] := by
  have hlength : 0 < digits.length := List.length_pos_iff.mpr h
  rw [ofDigits]
  split_ifs with hzeros hpoint hsmall
  · nofun
  · nofun
  · nofun
  all_goals
    intro e he
    cases he
    exact Digits.ofNat_ne_nil (by omega)

end DecimalLiteral

/-! ### Numbers -/

namespace Binary64.Number

/-- The digits and the place of the shortest text with `k` digits that a double is nearest to, the
closest one if there are several. -/
def shortestOf (x : ℚ) (k : ℕ) : Option (ℕ × ℤ) :=
  let n := Int.log 10 x + 1
  let candidates := [n, n + 1].flatMap fun n : ℤ =>
    [⌊x * 10 ^ (k - n)⌋₊, ⌊x * 10 ^ (k - n)⌋₊ + 1].map fun s => (s, n)
  (candidates.filter fun (s, n) => (Digits.ofNat s).length = k ∧ nearest (s * 10 ^ (n - k)) = x).argmin
    fun (s, n) => |s * 10 ^ (n - k) - x|

/-- All the digits of a double. -/
def exactOf (x : ℚ) : ℕ × ℤ :=
  let s := (x * 10 ^ 1074).num.toNat
  (s, (Digits.ofNat s).length - 1074)

/-- Seventeen digits always do; the last case is for the proofs only. -/
def shortest (x : ℚ) : ℕ × ℤ :=
  ((List.range' 1 17).findSome? (shortestOf x)).getD (exactOf x)

def positiveText (x : ℚ) : JsString :=
  (DecimalLiteral.ofDigits (Digits.ofNat (shortest x).1) (shortest x).2).text

end Binary64.Number

/-- `String(n)`. -/
def numberToString : Number → JsString
  | .nan => ofString "NaN"
  | .infinite negative => ofString (if negative then "-Infinity" else "Infinity")
  | .finite x =>
      if x.value = 0 then ofString "0"
      else if x.value < 0 then 0x2D :: Number.positiveText (-x.value)
      else Number.positiveText x.value

/-- A number of a radix after `0`, with a letter that says the radix. -/
def nonDecimalLiteral : JsString → Option Number
  | u :: letter :: digits =>
      if u ≠ 0x30 then none
      else
        match radixOf letter with
        | none => none
        | some radix =>
            if digits ≠ [] ∧ digits.all fun d => (digitIn radix d).isSome then
              some (.ofRat (digits.foldl (fun n d => radix * n + (digitIn radix d).getD 0) 0 : ℕ))
            else some .nan
  | _ => none
where
  radixOf (letter : UInt16) : Option ℕ :=
    if letter = 0x78 ∨ letter = 0x58 then some 16
    else if letter = 0x6F ∨ letter = 0x4F then some 8
    else if letter = 0x62 ∨ letter = 0x42 then some 2
    else none
  digitIn (radix : ℕ) (u : UInt16) : Option ℕ :=
    let d :=
      if 0x30 ≤ u ∧ u ≤ 0x39 then u.toNat - 0x30
      else if 0x61 ≤ u ∧ u ≤ 0x66 then u.toNat - 0x61 + 10
      else if 0x41 ≤ u ∧ u ≤ 0x46 then u.toNat - 0x41 + 10
      else radix
    if d < radix then some d else none

/-- A `StrDecimalLiteral`. -/
def decimalLiteral (s : JsString) : Number :=
  let (negative, unsigned) := takeSign s
  if unsigned = ofString "Infinity" then .infinite negative
  else
    match DecimalLiteral.read unsigned with
    | none => .nan
    | some l => .ofRat (if negative then -l.value else l.value)

/-- `Number(s)`. -/
def stringToNumber (s : JsString) : Number :=
  if trim s = [] then .ofRat 0 else (nonDecimalLiteral (trim s)).getD (decimalLiteral (trim s))

/-- `Number.parseInt(s, 10)`. -/
def parseInt (s : JsString) : Number :=
  let (negative, unsigned) := takeSign (trimStart s)
  let digits := (takeDigits unsigned).1
  if digits = [] then .nan else .ofRat (if negative then -(Digits.value digits : ℚ) else Digits.value digits)

/-! ### There and back -/

namespace Binary64.Number

/-- The decimal digits and the place denote the double. -/
def Denotes (x : ℚ) (decimal : ℕ × ℤ) : Prop :=
  decimal.1 ≠ 0 ∧ nearest (decimal.1 * 10 ^ (decimal.2 - (Digits.ofNat decimal.1).length)) = x

theorem denotes_of_shortestOf {x : ℚ} {k : ℕ} {decimal : ℕ × ℤ} (hk : 1 ≤ k) (h : shortestOf x k = some decimal) :
    Denotes x decimal := by
  have hmem := List.argmin_mem h
  rw [List.mem_filter] at hmem
  obtain ⟨hlength, hnearest⟩ := of_decide_eq_true hmem.2
  constructor
  · intro hzero
    rw [hzero] at hlength
    rw [← hlength] at hk
    cases hk
  · rw [hlength]
    exact hnearest

theorem exists_natCast_of_nearest {x : ℚ} (hpos : 0 < x) (hx : nearest x = x) : ∃ s : ℕ, x * 10 ^ 1074 = s := by
  obtain ⟨k, hk⟩ : ∃ k : ℕ, exponent x + 1074 = k := by
    refine ⟨(exponent x + 1074).toNat, ?_⟩
    rw [exponent]
    omega
  obtain ⟨n, hn⟩ : ∃ n : ℤ, x * 10 ^ 1074 = n := by
    refine ⟨nearestInt (x / 2 ^ exponent x) * 2 ^ k * 5 ^ 1074, ?_⟩
    have hpow : (2 : ℚ) ^ exponent x * 10 ^ 1074 = 2 ^ k * 5 ^ 1074 := by
      rw [show (10 : ℚ) = 2 * 5 by norm_num, mul_pow, ← mul_assoc, ← zpow_natCast 2 1074, ← zpow_add₀ (by norm_num),
        ← zpow_natCast 2 k, ← hk]
      rfl
    have hvalue : (nearestInt (x / 2 ^ exponent x) : ℚ) * 2 ^ exponent x = x := hx
    calc x * 10 ^ 1074 = (nearestInt (x / 2 ^ exponent x) : ℚ) * (2 ^ exponent x * 10 ^ 1074) := by
          rw [← mul_assoc, hvalue]
      _ = (nearestInt (x / 2 ^ exponent x) : ℚ) * 2 ^ k * 5 ^ 1074 := by rw [hpow, mul_assoc]
      _ = _ := by
        rw [Int.cast_mul, Int.cast_mul, Int.cast_pow, Int.cast_pow]
        rfl
  have hnonneg : 0 ≤ n := by
    have : (0 : ℚ) ≤ n := by
      rw [← hn]
      positivity
    exact_mod_cast this
  obtain ⟨s, rfl⟩ := Int.eq_ofNat_of_zero_le hnonneg
  exact ⟨s, by exact_mod_cast hn⟩

theorem denotes_exactOf {x : ℚ} (hpos : 0 < x) (hx : nearest x = x) : Denotes x (exactOf x) := by
  obtain ⟨s, hs⟩ := exists_natCast_of_nearest hpos hx
  have hnum : (x * 10 ^ 1074).num.toNat = s := by
    rw [hs]
    rfl
  have hback : (s : ℚ) * 10 ^ (-1074 : ℤ) = x := by
    rw [← hs, mul_assoc, ← zpow_natCast, ← zpow_add₀ (by norm_num)]
    norm_num
  rw [exactOf, hnum]
  constructor
  · intro (hzero : s = 0)
    rw [hzero, Nat.cast_zero, zero_mul] at hback
    exact hpos.ne hback
  · rw [show ((Digits.ofNat s).length : ℤ) - 1074 - (Digits.ofNat s).length = -1074 by omega, hback, hx]

theorem denotes_shortest {x : ℚ} (hpos : 0 < x) (hx : nearest x = x) : Denotes x (shortest x) := by
  rw [shortest]
  cases hfind : (List.range' 1 17).findSome? (shortestOf x) with
  | none => exact denotes_exactOf hpos hx
  | some decimal =>
      obtain ⟨k, hk, hsome⟩ := List.exists_of_findSome?_eq_some hfind
      exact denotes_of_shortestOf (List.mem_range'_1.mp hk).1 hsome

end Binary64.Number

/-- The text of a literal is made of digits, points, letters `e` and signs. -/
theorem mem_text {l : DecimalLiteral} {u : UInt16} (hu : u ∈ l.text) :
    (∃ d, u = digitUnit d) ∨ u ∈ [0x2E, 0x65, 0x2B, 0x2D] := by
  have hdigits : ∀ digits : List (Fin 10), u ∈ digits.map digitUnit → ∃ d, u = digitUnit d := by
    intro digits hu
    obtain ⟨d, _, heq⟩ := List.mem_map.mp hu
    exact ⟨d, heq.symm⟩
  rw [DecimalLiteral.text, List.mem_append, List.mem_append] at hu
  rcases hu with hu | hu | hu
  · exact Or.inl (hdigits _ hu)
  · cases hfrac : l.frac with
    | none =>
        rw [hfrac] at hu
        cases hu
    | some digits =>
        rw [hfrac, DecimalLiteral.fracText, List.mem_cons] at hu
        exact hu.elim (fun hpoint => Or.inr (by simp [hpoint])) fun hu => Or.inl (hdigits _ hu)
  · cases hexp : l.exp with
    | none =>
        rw [hexp] at hu
        cases hu
    | some exp =>
        rw [hexp, DecimalLiteral.expText, List.mem_cons, List.mem_cons] at hu
        rcases hu with hletter | hsign | hu
        · exact Or.inr (by simp [hletter])
        · apply Or.inr
          cases hnegative : exp.1 <;> simp [hsign, hnegative]
        · exact Or.inl (hdigits _ hu)

theorem isSpace_of_mem_text {l : DecimalLiteral} {u : UInt16} (hu : u ∈ l.text) : isSpace u = false := by
  rcases mem_text hu with ⟨d, rfl⟩ | hunit
  · clear hu
    revert d
    decide
  · simp only [List.mem_cons, List.not_mem_nil, or_false] at hunit
    rcases hunit with rfl | rfl | rfl | rfl <;> decide

theorem radixOf_of_mem_text {l : DecimalLiteral} {u : UInt16} (hu : u ∈ l.text) :
    nonDecimalLiteral.radixOf u = none := by
  rcases mem_text hu with ⟨d, rfl⟩ | hunit
  · clear hu
    revert d
    decide
  · simp only [List.mem_cons, List.not_mem_nil, or_false] at hunit
    rcases hunit with rfl | rfl | rfl | rfl <;> decide

/-- The text of a literal has no white space, no sign and no other radix in front. -/
theorem stringToNumber_text {l : DecimalLiteral} (hint : l.int ≠ []) (hexp : ∀ e ∈ l.exp, e.2 ≠ []) :
    stringToNumber l.text = .ofRat l.value := by
  obtain ⟨d, rest, htext⟩ : ∃ d rest, l.text = digitUnit d :: rest := by
    obtain ⟨d, int, hcons⟩ := List.exists_cons_of_ne_nil hint
    refine ⟨d, int.map digitUnit ++ (DecimalLiteral.fracText l.frac ++ DecimalLiteral.expText l.exp), ?_⟩
    rw [DecimalLiteral.text, hcons, List.map_cons, List.cons_append]
  have hradix : nonDecimalLiteral l.text = none := by
    rw [htext]
    cases rest with
    | nil => rfl
    | cons letter digits =>
        have hnone := radixOf_of_mem_text (l := l) (u := letter) (by simp [htext])
        rw [nonDecimalLiteral, hnone, ite_self]
  have hsign : takeSign l.text = (false, l.text) := by
    have hunit : digitUnit d ≠ 0x2D ∧ digitUnit d ≠ 0x2B := by
      clear htext
      revert d
      decide
    rw [htext, takeSign, if_neg hunit.1, if_neg hunit.2]
  have hinfinity : l.text ≠ ofString "Infinity" := by
    rw [htext]
    intro heq
    have hunit : digitUnit d ≠ 0x49 := by
      clear heq htext
      revert d
      decide
    exact hunit (List.head_eq_of_cons_eq heq)
  rw [stringToNumber, trim_of_no_space fun u => isSpace_of_mem_text, htext, if_neg (List.cons_ne_nil _ _), ← htext,
    hradix, Option.getD_none, decimalLiteral, hsign]
  simp only [if_neg hinfinity, DecimalLiteral.read_text hint hexp]
  rfl

/-- `Number(String(x))` is `x`. -/
theorem stringToNumber_numberToString {x : Double} (hpos : 0 < x.value) :
    stringToNumber (numberToString (.finite x)) = .finite x := by
  obtain ⟨hne, hnearest⟩ := Number.denotes_shortest hpos x.exact
  have hdigits := Digits.ofNat_ne_nil hne
  rw [numberToString, if_neg hpos.ne', if_neg hpos.not_gt, Number.positiveText,
    stringToNumber_text (DecimalLiteral.int_ofDigits_ne_nil hdigits _) (DecimalLiteral.exp_ofDigits_ne_nil hdigits),
    DecimalLiteral.value_ofDigits hdigits, Digits.value_ofNat, Number.ofRat_eq_finite_iff]
  exact hnearest
