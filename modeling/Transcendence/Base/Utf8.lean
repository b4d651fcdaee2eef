import Transcendence.Base.Scanners

/-!
# UTF-8

Texts are any bytes, and need not be UTF-8. `runes` takes a text apart into its well-formed characters
and the single bytes that belong to none, and `sanitize` puts the replacement character for these. A
text is valid if there are none of them, and then it is what `sanitize` leaves as it is.
-/

namespace Utf8

def isTail (b : UInt8) : Bool := 0x80 ≤ b && b ≤ 0xBF

def isTwo (a b : UInt8) : Bool := 0xC2 ≤ a && a ≤ 0xDF && isTail b

def isThree (a b c : UInt8) : Bool :=
  ((a = 0xE0 && 0xA0 ≤ b && b ≤ 0xBF) || (((0xE1 ≤ a && a ≤ 0xEC) || (0xEE ≤ a && a ≤ 0xEF)) && isTail b) ||
    (a = 0xED && 0x80 ≤ b && b ≤ 0x9F)) && isTail c

def isFour (a b c d : UInt8) : Bool :=
  ((a = 0xF0 && 0x90 ≤ b && b ≤ 0xBF) || (0xF1 ≤ a && a ≤ 0xF3 && isTail b) || (a = 0xF4 && 0x80 ≤ b && b ≤ 0x8F)) &&
    isTail c && isTail d

/-- How many bytes the character in front has, and zero where no well-formed one is. -/
def width (bs : Bytes) : Nat :=
  let a := bs.getD 0 0x80
  let b := bs.getD 1 0
  let c := bs.getD 2 0
  let d := bs.getD 3 0
  if a < 0x80 then 1 else if isTwo a b then 2 else if isThree a b c then 3 else if isFour a b c d then 4 else 0

def replacement : Bytes := [0xEF, 0xBF, 0xBD]

def encodeRune (n : Nat) : Bytes :=
  if n < 0x80 then [UInt8.ofNat n]
  else if n < 0x800 then [UInt8.ofNat (0xC0 + n / 64), UInt8.ofNat (0x80 + n % 64)]
  else if n < 0x10000 then [UInt8.ofNat (0xE0 + n / 4096), UInt8.ofNat (0x80 + n / 64 % 64), UInt8.ofNat (0x80 + n % 64)]
  else [UInt8.ofNat (0xF0 + n / 262144), UInt8.ofNat (0x80 + n / 4096 % 64), UInt8.ofNat (0x80 + n / 64 % 64),
    UInt8.ofNat (0x80 + n % 64)]

/-! ### Characters -/

/-- The bytes of a character, whatever follows. -/
structure IsCharacter (cs : Bytes) : Prop where
  width_append : ∀ rest, width (cs ++ rest) = cs.length
  length_pos : 0 < cs.length

theorem width_nil : width [] = 0 := by decide

theorem width_of_lt {a : UInt8} (h : a < 0x80) (rest : Bytes) : width (a :: rest) = 1 := by
  rw [width]
  exact if_pos h

theorem isTwo_zero (a : UInt8) : isTwo a 0 = false := by
  rw [isTwo, show isTail 0 = false by decide, Bool.and_false]

theorem isThree_zero (a b : UInt8) : isThree a b 0 = false := by
  rw [isThree, show isTail 0 = false by decide, Bool.and_false]

theorem isFour_zero (a b c : UInt8) : isFour a b c 0 = false := by
  rw [isFour, show isTail 0 = false by decide, Bool.and_false]

/-- The width depends on the bytes of the character alone. -/
theorem isCharacter_take {bs : Bytes} (h : width bs ≠ 0) : IsCharacter (bs.take (width bs)) := by
  rcases bs with _ | ⟨a, bs⟩
  · exact absurd width_nil h
  by_cases hone : a < 0x80
  · rw [width_of_lt hone]
    exact ⟨fun rest => width_of_lt hone rest, Nat.one_pos⟩
  rcases bs with _ | ⟨b, bs⟩
  · refine absurd ?_ h
    simp [width, hone, isTwo_zero, isThree_zero, isFour_zero]
  by_cases htwo : isTwo a b
  · have hwidth : ∀ rest, width (a :: b :: rest) = 2 := fun rest => by simp [width, hone, htwo]
    rw [hwidth]
    exact ⟨fun rest => hwidth rest, Nat.two_pos⟩
  rcases bs with _ | ⟨c, bs⟩
  · refine absurd ?_ h
    simp [width, hone, htwo, isThree_zero, isFour_zero]
  by_cases hthree : isThree a b c
  · have hwidth : ∀ rest, width (a :: b :: c :: rest) = 3 := fun rest => by simp [width, hone, htwo, hthree]
    rw [hwidth]
    exact ⟨fun rest => hwidth rest, Nat.succ_pos 2⟩
  rcases bs with _ | ⟨d, bs⟩
  · refine absurd ?_ h
    simp [width, hone, htwo, hthree, isFour_zero]
  by_cases hfour : isFour a b c d
  · have hwidth : ∀ rest, width (a :: b :: c :: d :: rest) = 4 := fun rest => by simp [width, hone, htwo, hthree, hfour]
    rw [hwidth]
    exact ⟨fun rest => hwidth rest, Nat.succ_pos 3⟩
  · refine absurd ?_ h
    simp [width, hone, htwo, hthree, hfour]

/-- A character is one ASCII byte, or begins with a byte above. -/
theorem IsCharacter.ascii_or {cs : Bytes} (h : IsCharacter cs) :
    (∃ a, a < 0x80 ∧ cs = [a]) ∨ ∃ a tail, ¬a < 0x80 ∧ cs = a :: tail := by
  rcases cs with _ | ⟨a, tail⟩
  · exact absurd h.length_pos (Nat.lt_irrefl _)
  by_cases ha : a < 0x80
  · have hwidth := h.width_append []
    rw [List.append_nil, width_of_lt ha, List.length_cons] at hwidth
    obtain rfl : tail = [] := List.length_eq_zero_iff.mp (by omega)
    exact .inl ⟨a, ha, rfl⟩
  · exact .inr ⟨a, tail, ha, rfl⟩

/-! ### Runes -/

def runesFuel : Nat → Bytes → List (Option Bytes)
  | 0, _ => []
  | _ + 1, [] => []
  | fuel + 1, c :: bs =>
      if width (c :: bs) = 0 then none :: runesFuel fuel bs
      else some ((c :: bs).take (width (c :: bs))) :: runesFuel fuel ((c :: bs).drop (width (c :: bs)))

/-- The characters of a text, and `none` for a byte that belongs to none. -/
def runes (bs : Bytes) : List (Option Bytes) := runesFuel bs.length bs

/-- The text that is meant, with the replacement character for what is no character. -/
def sanitize (bs : Bytes) : Bytes := (runes bs).flatMap (·.getD replacement)

def Valid (bs : Bytes) : Prop := none ∉ runes bs

instance (bs : Bytes) : Decidable (Valid bs) := inferInstanceAs (Decidable (_ ∉ _))

theorem runesFuel_nil (fuel : Nat) : runesFuel fuel [] = [] := by
  cases fuel <;> rfl

theorem runesFuel_congr {fuel fuel' : Nat} {bs : Bytes} (h : bs.length ≤ fuel) (h' : bs.length ≤ fuel') :
    runesFuel fuel bs = runesFuel fuel' bs := by
  induction fuel generalizing fuel' bs with
  | zero =>
      obtain rfl := List.length_eq_zero_iff.mp (Nat.le_zero.mp h)
      rw [runesFuel_nil, runesFuel_nil]
  | succ fuel ih =>
      cases bs with
      | nil => rw [runesFuel_nil, runesFuel_nil]
      | cons c bs =>
          obtain ⟨fuel', rfl⟩ : ∃ n, fuel' = n + 1 := Nat.exists_eq_succ_of_ne_zero (by rintro rfl; cases h')
          rw [List.length_cons] at h h'
          rw [runesFuel, runesFuel]
          by_cases hwidth : width (c :: bs) = 0
          · have htail : runesFuel fuel bs = runesFuel fuel' bs := ih (by omega) (by omega)
            rw [if_pos hwidth, if_pos hwidth, htail]
          · have hdrop : ((c :: bs).drop (width (c :: bs))).length ≤ bs.length := by
              rw [List.length_drop, List.length_cons]
              omega
            have htail : runesFuel fuel ((c :: bs).drop (width (c :: bs))) = runesFuel fuel' ((c :: bs).drop (width (c :: bs))) :=
              ih (by omega) (by omega)
            rw [if_neg hwidth, if_neg hwidth, htail]

theorem runes_of_width_eq_zero {c : UInt8} {bs : Bytes} (h : width (c :: bs) = 0) : runes (c :: bs) = none :: runes bs := by
  show runesFuel (bs.length + 1) (c :: bs) = _
  rw [runesFuel, if_pos h]
  rfl

theorem runes_of_width_ne_zero {bs : Bytes} (h : width bs ≠ 0) :
    runes bs = some (bs.take (width bs)) :: runes (bs.drop (width bs)) := by
  cases bs with
  | nil => exact absurd width_nil h
  | cons c bs =>
      have hdrop : ((c :: bs).drop (width (c :: bs))).length ≤ bs.length := by
        rw [List.length_drop, List.length_cons]
        omega
      show runesFuel (bs.length + 1) (c :: bs) = _
      rw [runesFuel, if_neg h, runes, runesFuel_congr hdrop (Nat.le_refl _)]

/-- Induction over a text, character by character. -/
theorem runes_induction {P : Bytes → Prop} (hnil : P []) (hinvalid : ∀ c bs, width (c :: bs) = 0 → P bs → P (c :: bs))
    (hcharacter : ∀ bs, width bs ≠ 0 → P (bs.drop (width bs)) → P bs) (bs : Bytes) : P bs := by
  induction hlength : bs.length using Nat.strongRecOn generalizing bs with
  | ind n ih =>
      subst hlength
      cases bs with
      | nil => exact hnil
      | cons c bs =>
          by_cases hwidth : width (c :: bs) = 0
          · exact hinvalid c bs hwidth (ih _ (Nat.lt_succ_self _) bs rfl)
          · refine hcharacter _ hwidth (ih _ ?_ _ rfl)
            rw [List.length_drop, List.length_cons]
            omega

theorem isCharacter_of_mem_runes {bs cs : Bytes} (h : some cs ∈ runes bs) : IsCharacter cs := by
  induction bs using runes_induction with
  | hnil => cases h
  | hinvalid c bs hwidth ih =>
      rw [runes_of_width_eq_zero hwidth, List.mem_cons] at h
      exact ih (h.resolve_left (Option.some_ne_none cs))
  | hcharacter bs hwidth ih =>
      rw [runes_of_width_ne_zero hwidth, List.mem_cons] at h
      rcases h with hfirst | hlater
      · rw [Option.some.inj hfirst]
        exact isCharacter_take hwidth
      · exact ih hlater

theorem sanitize_of_width_eq_zero {c : UInt8} {bs : Bytes} (h : width (c :: bs) = 0) :
    sanitize (c :: bs) = replacement ++ sanitize bs := by
  rw [sanitize, runes_of_width_eq_zero h, List.flatMap_cons]
  rfl

theorem sanitize_of_width_ne_zero {bs : Bytes} (h : width bs ≠ 0) :
    sanitize bs = bs.take (width bs) ++ sanitize (bs.drop (width bs)) := by
  rw [sanitize, runes_of_width_ne_zero h, List.flatMap_cons]
  rfl

/-- A replacement is longer than the byte it stands for. -/
theorem length_le_sanitize (bs : Bytes) : bs.length ≤ (sanitize bs).length := by
  induction bs using runes_induction with
  | hnil => exact Nat.zero_le _
  | hinvalid c bs hwidth ih =>
      rw [sanitize_of_width_eq_zero hwidth, List.length_append, List.length_cons, show replacement.length = 3 from rfl]
      omega
  | hcharacter bs hwidth ih =>
      have hlength := congrArg List.length (List.take_append_drop (width bs) bs)
      rw [List.length_append] at hlength
      rw [sanitize_of_width_ne_zero hwidth, List.length_append]
      omega

theorem sanitize_eq_self_iff (bs : Bytes) : sanitize bs = bs ↔ Valid bs := by
  induction bs using runes_induction with
  | hnil => exact ⟨fun _ => List.not_mem_nil, fun _ => rfl⟩
  | hinvalid c bs hwidth ih =>
      constructor
      · intro hsame
        have hlength := congrArg List.length hsame
        rw [sanitize_of_width_eq_zero hwidth, List.length_append, List.length_cons, show replacement.length = 3 from rfl] at hlength
        have hle := length_le_sanitize bs
        omega
      · intro hvalid
        rw [Valid, runes_of_width_eq_zero hwidth] at hvalid
        exact absurd List.mem_cons_self hvalid
  | hcharacter bs hwidth ih =>
      have hvalid : Valid bs ↔ Valid (bs.drop (width bs)) := by
        rw [Valid, runes_of_width_ne_zero hwidth, List.mem_cons, not_or]
        exact and_iff_right (Option.some_ne_none _).symm
      rw [hvalid, ← ih, sanitize_of_width_ne_zero hwidth]
      constructor
      · intro hsame
        exact List.append_cancel_left (hsame.trans (List.take_append_drop (width bs) bs).symm)
      · intro hsame
        rw [hsame, List.take_append_drop]

/-- An ASCII text is meant as it is. -/
theorem sanitize_of_ascii {bs : Bytes} (h : ∀ c ∈ bs, c < 0x80) : sanitize bs = bs := by
  induction bs with
  | nil => rfl
  | cons c bs ih =>
      rw [List.forall_mem_cons] at h
      have hwidth := width_of_lt h.1 bs
      have hne : width (c :: bs) ≠ 0 := by
        rw [hwidth]
        exact Nat.one_ne_zero
      have htail := ih h.2
      rw [sanitize_of_width_ne_zero hne, hwidth]
      simp [htail]

theorem sanitize_ne_nil {bs : Bytes} (h : bs ≠ []) : sanitize bs ≠ [] := by
  intro hnil
  have hle := length_le_sanitize bs
  rw [hnil, List.length_nil] at hle
  exact h (List.length_eq_zero_iff.mp (Nat.le_zero.mp hle))

/-! ### The characters of a string -/

theorem isTail_iff (b : UInt8) : isTail b = true ↔ 0x80 ≤ b.toNat ∧ b.toNat ≤ 0xBF := by
  rw [isTail, Bool.and_eq_true, decide_eq_true_eq, decide_eq_true_eq, UInt8.le_iff_toNat_le, UInt8.le_iff_toNat_le]
  rfl

theorem isTwo_iff (a b : UInt8) : isTwo a b = true ↔ 0xC2 ≤ a.toNat ∧ a.toNat ≤ 0xDF ∧ isTail b = true := by
  rw [isTwo, Bool.and_eq_true, Bool.and_eq_true, decide_eq_true_eq, decide_eq_true_eq, UInt8.le_iff_toNat_le,
    UInt8.le_iff_toNat_le, and_assoc]
  rfl

theorem isThree_iff (a b c : UInt8) :
    isThree a b c = true ↔ (a.toNat = 0xE0 ∧ 0xA0 ≤ b.toNat ∧ b.toNat ≤ 0xBF ∨
      ((0xE1 ≤ a.toNat ∧ a.toNat ≤ 0xEC ∨ 0xEE ≤ a.toNat ∧ a.toNat ≤ 0xEF) ∧ isTail b = true) ∨
        a.toNat = 0xED ∧ 0x80 ≤ b.toNat ∧ b.toNat ≤ 0x9F) ∧ isTail c = true := by
  simp only [isThree, Bool.and_eq_true, Bool.or_eq_true, decide_eq_true_eq, UInt8.le_iff_toNat_le, ← UInt8.toNat_inj,
    and_assoc, or_assoc]
  rfl

theorem isFour_iff (a b c d : UInt8) :
    isFour a b c d = true ↔ (a.toNat = 0xF0 ∧ 0x90 ≤ b.toNat ∧ b.toNat ≤ 0xBF ∨
      (0xF1 ≤ a.toNat ∧ a.toNat ≤ 0xF3 ∧ isTail b = true) ∨
        a.toNat = 0xF4 ∧ 0x80 ≤ b.toNat ∧ b.toNat ≤ 0x8F) ∧ isTail c = true ∧ isTail d = true := by
  simp only [isFour, Bool.and_eq_true, Bool.or_eq_true, decide_eq_true_eq, UInt8.le_iff_toNat_le, ← UInt8.toNat_inj,
    and_assoc, or_assoc]
  rfl

theorem width_two {a b : UInt8} (h : isTwo a b = true) (rest : Bytes) : width (a :: b :: rest) = 2 := by
  have ha := ((isTwo_iff a b).mp h).1
  have hone : ¬a < 0x80 := Nat.not_lt.mpr (show 0x80 ≤ a.toNat by omega)
  simp [width, hone, h]

theorem width_three {a b c : UInt8} (h : isThree a b c = true) (rest : Bytes) : width (a :: b :: c :: rest) = 3 := by
  have ha := ((isThree_iff a b c).mp h).1
  have hone : ¬a < 0x80 := Nat.not_lt.mpr (show 0x80 ≤ a.toNat by omega)
  have htwo : ¬isTwo a b = true := fun htwo => by
    have ha' := (isTwo_iff a b).mp htwo
    omega
  simp [width, hone, htwo, h]

theorem width_four {a b c d : UInt8} (h : isFour a b c d = true) (rest : Bytes) : width (a :: b :: c :: d :: rest) = 4 := by
  have ha := ((isFour_iff a b c d).mp h).1
  have hone : ¬a < 0x80 := Nat.not_lt.mpr (show 0x80 ≤ a.toNat by omega)
  have htwo : ¬isTwo a b = true := fun htwo => by
    have ha' := (isTwo_iff a b).mp htwo
    omega
  have hthree : ¬isThree a b c = true := fun hthree => by
    have ha' := ((isThree_iff a b c).mp hthree).1
    omega
  simp [width, hone, htwo, hthree, h]

theorem isCharacter_utf8EncodeChar (c : Char) : IsCharacter (String.utf8EncodeChar c) := by
  have hvalid : c.val.toNat < 0xD800 ∨ 0xDFFF < c.val.toNat ∧ c.val.toNat < 0x110000 := c.valid
  rw [String.utf8EncodeChar]
  split_ifs with hone htwo hthree
  · refine ⟨fun rest => width_of_lt ?_ rest, Nat.one_pos⟩
    show (UInt8.ofNat c.val.toNat).toNat < 128
    rw [UInt8.toNat_ofNat']
    omega
  · refine ⟨fun rest => width_two ?_ rest, Nat.two_pos⟩
    rw [isTwo_iff, isTail_iff, UInt8.toNat_ofNat', UInt8.toNat_ofNat']
    omega
  · refine ⟨fun rest => width_three ?_ rest, Nat.succ_pos 2⟩
    rw [isThree_iff, isTail_iff, isTail_iff, UInt8.toNat_ofNat', UInt8.toNat_ofNat', UInt8.toNat_ofNat']
    omega
  · refine ⟨fun rest => width_four ?_ rest, Nat.succ_pos 3⟩
    rw [isFour_iff, isTail_iff, isTail_iff, isTail_iff, UInt8.toNat_ofNat', UInt8.toNat_ofNat', UInt8.toNat_ofNat',
      UInt8.toNat_ofNat']
    omega

theorem runes_append {cs : Bytes} (h : IsCharacter cs) (rest : Bytes) : runes (cs ++ rest) = some cs :: runes rest := by
  have hwidth := h.width_append rest
  have hne : width (cs ++ rest) ≠ 0 := by
    rw [hwidth]
    exact Nat.pos_iff_ne_zero.mp h.length_pos
  rw [runes_of_width_ne_zero hne, hwidth, List.take_left, List.drop_left]

/-! ### Strings -/

/-- The bytes of a string. -/
def ofString (text : String) : Bytes :=
  text.toList.flatMap String.utf8EncodeChar

def toString? (bs : Bytes) : Option String :=
  String.fromUTF8? bs.toByteArray

theorem valid_ofString (text : String) : Valid (ofString text) := by
  rw [ofString]
  induction text.toList with
  | nil => exact List.not_mem_nil
  | cons c cs ih =>
      rw [Valid, List.flatMap_cons, runes_append (isCharacter_utf8EncodeChar c), List.mem_cons, not_or]
      exact ⟨(Option.some_ne_none _).symm, ih⟩

theorem toString?_ofString (text : String) : toString? (ofString text) = some text := by
  have hbytes : (ofString text).toByteArray = text.toByteArray := String.utf8Encode_toList
  rw [toString?, hbytes, String.fromUTF8?, dif_pos text.isValidUTF8, Option.some.injEq, ← String.toByteArray_inj]
  rfl

end Utf8
