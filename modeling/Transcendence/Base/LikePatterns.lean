import Mathlib.Data.List.Basic
import Mathlib.Data.List.Infix

/-!
# `LIKE` patterns

The pattern language of SQL's `LIKE` with the backslash as its escape character, as PostgreSQL documents
it: `%` stands for any text, `_` for any one character, and what follows a backslash for itself. A pattern
that ends in a single backslash is an error. `ILIKE` folds the case of pattern and text first.
-/

namespace LikePattern

inductive Token where
  | text
  | character
  | literal (c : Char)
  deriving DecidableEq

/-- The tokens of a pattern, unless it ends in a single escape character. -/
def parse : List Char → Option (List Token)
  | [] => some []
  | '%' :: pattern => (parse pattern).map fun tokens => .text :: tokens
  | '_' :: pattern => (parse pattern).map fun tokens => .character :: tokens
  | ['\\'] => none
  | '\\' :: c :: pattern => (parse pattern).map fun tokens => .literal c :: tokens
  | c :: pattern => (parse pattern).map fun tokens => .literal c :: tokens

def accepts : List Token → List Char → Bool
  | [], text => text.isEmpty
  | .text :: tokens, text => text.tails.any (accepts tokens)
  | .character :: _, [] => false
  | .character :: tokens, _ :: text => accepts tokens text
  | .literal _ :: _, [] => false
  | .literal c :: tokens, d :: text => c = d && accepts tokens text

/-- `text LIKE pattern`; none is an error. -/
def like (pattern text : List Char) : Option Bool :=
  (parse pattern).map fun tokens => accepts tokens text

/-- The characters that do not stand for themselves. -/
def isSpecial (c : Char) : Bool :=
  c = '\\' || c = '%' || c = '_'

/-- A folding of case, which has nothing to do with the special characters. -/
structure CaseFolding where
  fold : Char → Char
  special : ∀ c, isSpecial c = true → fold c = c
  ordinary : ∀ c, isSpecial (fold c) = true → isSpecial c = true

/-- `text ILIKE pattern`. -/
def ilike (folding : CaseFolding) (pattern text : List Char) : Option Bool :=
  like (pattern.map folding.fold) (text.map folding.fold)

/-- Every special character behind a backslash. -/
def escape (term : List Char) : List Char :=
  term.flatMap fun c => if isSpecial c then ['\\', c] else [c]

/-! ### Escaped terms -/

section Escape

variable {c : Char} {pattern term text : List Char} {tokens : List Token}

theorem parse_escaped (c : Char) (pattern : List Char) :
    parse ('\\' :: c :: pattern) = (parse pattern).map fun tokens => .literal c :: tokens := by
  rw [parse]

theorem parse_ordinary (h : isSpecial c = false) (pattern : List Char) :
    parse (c :: pattern) = (parse pattern).map fun tokens => .literal c :: tokens := by
  rw [isSpecial, Bool.or_eq_false_iff, Bool.or_eq_false_iff] at h
  simp only [decide_eq_false_iff_not] at h
  obtain ⟨⟨hescape, hpercent⟩, hunderscore⟩ := h
  rw [parse]
  · exact fun heq => hpercent heq
  · exact fun heq => hunderscore heq
  · exact fun heq => absurd heq hescape
  · exact fun _ _ heq => absurd heq hescape

/-- An escaped term stands for itself. -/
theorem parse_escape (term pattern : List Char) :
    parse (escape term ++ pattern) = (parse pattern).map fun tokens => term.map .literal ++ tokens := by
  induction term with
  | nil => simp [escape]
  | cons c term ih =>
      have hsplit : escape (c :: term) ++ pattern =
          (if isSpecial c then ['\\', c] else [c]) ++ (escape term ++ pattern) := by
        rw [escape, List.flatMap_cons, List.append_assoc, escape]
      rw [hsplit]
      split
      · rw [List.cons_append, List.cons_append, List.nil_append, parse_escaped, ih, Option.map_map]
        rfl
      · rename_i hordinary
        rw [List.cons_append, List.nil_append, parse_ordinary ((Bool.not_eq_true _).mp hordinary), ih, Option.map_map]
        rfl

theorem accepts_literals (term : List Char) (tokens : List Token) (text : List Char) :
    accepts (term.map .literal ++ tokens) text = true ↔ ∃ rest, text = term ++ rest ∧ accepts tokens rest = true := by
  induction term generalizing text with
  | nil => simp
  | cons c term ih =>
      cases text with
      | nil => simp [accepts]
      | cons d text =>
          rw [List.map_cons, List.cons_append, accepts, Bool.and_eq_true, decide_eq_true_iff, ih]
          constructor
          · rintro ⟨rfl, rest, rfl, hrest⟩
            exact ⟨rest, rfl, hrest⟩
          · rintro ⟨rest, heq, hrest⟩
            obtain ⟨rfl, rfl⟩ := List.cons.inj heq
            exact ⟨rfl, rest, rfl, hrest⟩

theorem accepts_any_text (text : List Char) : accepts [.text] text = true := by
  rw [accepts, List.any_eq_true]
  exact ⟨[], (List.mem_tails _ _).mpr List.nil_suffix, rfl⟩

/-- A term between two `%` stands for the texts that contain it. -/
theorem accepts_contains (term text : List Char) :
    accepts (.text :: (term.map .literal ++ [.text])) text = true ↔ term <:+: text := by
  rw [accepts, List.any_eq_true]
  constructor
  · rintro ⟨tail, htail, haccepts⟩
    obtain ⟨start, rfl⟩ := (List.mem_tails _ _).mp htail
    obtain ⟨rest, rfl, -⟩ := (accepts_literals term [.text] tail).mp haccepts
    exact ⟨start, rest, by rw [List.append_assoc]⟩
  · rintro ⟨start, rest, rfl⟩
    refine ⟨term ++ rest, (List.mem_tails _ _).mpr ⟨start, by rw [List.append_assoc]⟩, ?_⟩
    exact (accepts_literals term [.text] _).mpr ⟨rest, rfl, accepts_any_text rest⟩

theorem parse_contains (term : List Char) :
    parse ('%' :: (escape term ++ ['%'])) = some (.text :: (term.map .literal ++ [.text])) := by
  rw [parse, parse_escape]
  rfl

/-- The pattern made of an escaped term between two `%`. -/
theorem like_contains (term text : List Char) :
    like ('%' :: (escape term ++ ['%'])) text = some (decide (term <:+: text)) := by
  rw [like, parse_contains, Option.map_some, Option.some.injEq, Bool.eq_iff_iff, accepts_contains, decide_eq_true_iff]

theorem map_escape (folding : CaseFolding) (term : List Char) :
    (escape term).map folding.fold = escape (term.map folding.fold) := by
  induction term with
  | nil => rfl
  | cons c term ih =>
      rw [escape, List.flatMap_cons, List.map_append, ← escape, ih, List.map_cons]
      conv_rhs => rw [escape, List.flatMap_cons, ← escape]
      congr 1
      by_cases hspecial : isSpecial c = true
      · have hfold := folding.special c hspecial
        have hescape : folding.fold '\\' = '\\' := folding.special '\\' (by decide)
        rw [hfold, if_pos hspecial, List.map_cons, List.map_cons, hfold, hescape]
        rfl
      · have hfold : ¬isSpecial (folding.fold c) = true := fun h => hspecial (folding.ordinary c h)
        rw [if_neg hspecial, if_neg hfold]
        rfl

theorem ilike_contains (folding : CaseFolding) (term text : List Char) :
    ilike folding ('%' :: (escape term ++ ['%'])) text =
      some (decide (term.map folding.fold <:+: text.map folding.fold)) := by
  have hpercent : folding.fold '%' = '%' := folding.special '%' (by decide)
  have hpattern : ('%' :: (escape term ++ ['%'])).map folding.fold = '%' :: (escape (term.map folding.fold) ++ ['%']) := by
    rw [List.map_cons, List.map_append, map_escape, List.map_singleton, hpercent]
  rw [ilike, hpattern, like_contains]

end Escape

end LikePattern
