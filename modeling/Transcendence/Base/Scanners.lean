import Transcendence.Base.Base64Url

/-!
# Scanners

A scanner reads a value off the front of a text and says what is left, which is always shorter: so a
loop over scanners ends, and the fuel with which it is defined, the length of the text, never runs
out. The loops are the items up to a byte (`upTo`), and the items with commas between them up to a
byte (`separated`); `upTo_cons` and `separated_eq` unfold them without the fuel.
-/

structure Scanner (α : Type*) where
  scan : Bytes → Option (α × Bytes)
  consumes : ∀ {bs found}, scan bs = some found → found.2.length < bs.length

namespace Scanner

variable {α β : Type*}

theorem scan_nil (item : Scanner α) : item.scan [] = none := by
  cases hscan : item.scan [] with
  | none => rfl
  | some found => exact absurd (item.consumes hscan) (Nat.not_lt_zero _)

/-! ### White space -/

def isSpace (c : UInt8) : Bool := c = 32 || c = 9 || c = 10 || c = 13

def skipSpace (bs : Bytes) : Bytes := bs.dropWhile isSpace

theorem length_skipSpace_le (bs : Bytes) : (skipSpace bs).length ≤ bs.length :=
  (List.dropWhile_suffix isSpace).length_le

theorem skipSpace_cons {c : UInt8} (hspace : isSpace c = false) (bs : Bytes) : skipSpace (c :: bs) = c :: bs := by
  rw [skipSpace, List.dropWhile_cons, hspace]
  rfl

theorem length_lt_of_skipSpace {bs rest : Bytes} {c : UInt8} (h : skipSpace bs = c :: rest) : rest.length < bs.length := by
  have hle := length_skipSpace_le bs
  rw [h, List.length_cons] at hle
  exact hle

/-! ### Items up to a byte -/

def upToFuel (item : Scanner α) (stop : UInt8) : Nat → Bytes → Option (List α × Bytes)
  | 0, _ => none
  | _ + 1, [] => none
  | fuel + 1, c :: bs =>
      if c = stop then some ([], bs)
      else (item.scan (c :: bs)).bind fun found =>
        (upToFuel item stop fuel found.2).map fun tail => (found.1 :: tail.1, tail.2)

/-- The items up to the byte `stop`, which is read too. -/
def upTo (item : Scanner α) (stop : UInt8) (bs : Bytes) : Option (List α × Bytes) := upToFuel item stop bs.length bs

theorem upToFuel_nil (item : Scanner α) (stop : UInt8) (fuel : Nat) : upToFuel item stop fuel [] = none := by
  cases fuel <;> rfl

theorem upToFuel_congr (item : Scanner α) (stop : UInt8) {fuel fuel' : Nat} {bs : Bytes} (h : bs.length ≤ fuel)
    (h' : bs.length ≤ fuel') : upToFuel item stop fuel bs = upToFuel item stop fuel' bs := by
  induction fuel generalizing fuel' bs with
  | zero =>
      obtain rfl := List.length_eq_zero_iff.mp (Nat.le_zero.mp h)
      rw [upToFuel_nil, upToFuel_nil]
  | succ fuel ih =>
      cases bs with
      | nil => rw [upToFuel_nil, upToFuel_nil]
      | cons c bs =>
          obtain ⟨fuel', rfl⟩ : ∃ n, fuel' = n + 1 := Nat.exists_eq_succ_of_ne_zero (by rintro rfl; cases h')
          rw [List.length_cons] at h h'
          rw [upToFuel, upToFuel]
          by_cases hstop : c = stop
          · rw [if_pos hstop, if_pos hstop]
          · rw [if_neg hstop, if_neg hstop]
            refine Option.bind_congr fun found hscan => ?_
            have hrest := item.consumes hscan
            rw [List.length_cons] at hrest
            have hsame : upToFuel item stop fuel found.2 = upToFuel item stop fuel' found.2 := ih (by omega) (by omega)
            rw [hsame]

theorem upTo_cons (item : Scanner α) (stop c : UInt8) (bs : Bytes) :
    upTo item stop (c :: bs) =
      if c = stop then some ([], bs)
      else (item.scan (c :: bs)).bind fun found => (upTo item stop found.2).map fun tail => (found.1 :: tail.1, tail.2) := by
  show upToFuel item stop (bs.length + 1) (c :: bs) = _
  rw [upToFuel]
  by_cases hstop : c = stop
  · rw [if_pos hstop, if_pos hstop]
  · rw [if_neg hstop, if_neg hstop]
    refine Option.bind_congr fun found hscan => ?_
    have hrest := item.consumes hscan
    rw [List.length_cons] at hrest
    have hsame : upToFuel item stop bs.length found.2 = upTo item stop found.2 :=
      upToFuel_congr item stop (by omega) (Nat.le_refl _)
    rw [hsame]

theorem upTo_consumes {item : Scanner α} {stop : UInt8} {bs : Bytes} {found : List α × Bytes}
    (h : upTo item stop bs = some found) : found.2.length < bs.length := by
  induction hlength : bs.length using Nat.strongRecOn generalizing bs found with
  | ind n ih =>
      subst hlength
      cases bs with
      | nil => cases h
      | cons c bs =>
          rw [upTo_cons] at h
          by_cases hstop : c = stop
          · rw [if_pos hstop] at h
            cases h
            exact Nat.lt_succ_self _
          · rw [if_neg hstop] at h
            obtain ⟨first, hscan, h⟩ := Option.bind_eq_some_iff.mp h
            obtain ⟨tail, htail, rfl⟩ := Option.map_eq_some_iff.mp h
            have hrest : tail.2.length < first.2.length := ih _ (item.consumes hscan) htail rfl
            exact Nat.lt_trans hrest (item.consumes hscan)

/-! ### Items with commas between them -/

def comma : UInt8 := 44

/-- What follows an item: the byte `close`, or a comma and what is `further`. -/
def next (close : UInt8) (further : Bytes → Option (List α × Bytes)) (bs : Bytes) : Option (List α × Bytes) :=
  match skipSpace bs with
  | [] => none
  | c :: rest => if c = close then some ([], rest) else if c = comma then further rest else none

def separatedFuel (item : Scanner α) (close : UInt8) : Nat → Bytes → Option (List α × Bytes)
  | 0, _ => none
  | fuel + 1, bs =>
      (item.scan bs).bind fun found =>
        (next close (separatedFuel item close fuel) found.2).map fun tail => (found.1 :: tail.1, tail.2)

/-- One item or more, with commas between them, and the byte `close`, which is read too. -/
def separated (item : Scanner α) (close : UInt8) (bs : Bytes) : Option (List α × Bytes) :=
  separatedFuel item close bs.length bs

/-- Any number of items, with commas between them, and the byte `close`, which is read too. -/
def items (item : Scanner α) (close : UInt8) (bs : Bytes) : Option (List α × Bytes) :=
  match skipSpace bs with
  | [] => none
  | c :: rest => if c = close then some ([], rest) else separated item close (c :: rest)

theorem next_of_nil {close : UInt8} {further : Bytes → Option (List α × Bytes)} {bs : Bytes} (h : skipSpace bs = []) :
    next close further bs = none := by
  rw [next, h]

theorem next_of_cons {close c : UInt8} {further : Bytes → Option (List α × Bytes)} {bs rest : Bytes}
    (h : skipSpace bs = c :: rest) :
    next close further bs = if c = close then some ([], rest) else if c = comma then further rest else none := by
  rw [next, h]

theorem next_congr (close : UInt8) {further further' : Bytes → Option (List α × Bytes)} {bs : Bytes}
    (h : ∀ rest : Bytes, rest.length < bs.length → further rest = further' rest) : next close further bs = next close further' bs := by
  cases hskip : skipSpace bs with
  | nil => rw [next_of_nil hskip, next_of_nil hskip]
  | cons c rest => rw [next_of_cons hskip, next_of_cons hskip, h rest (length_lt_of_skipSpace hskip)]

theorem next_consumes {close : UInt8} {further : Bytes → Option (List α × Bytes)} {bs : Bytes} {found : List α × Bytes}
    (hfurther : ∀ rest found, rest.length < bs.length → further rest = some found → found.2.length < rest.length)
    (h : next close further bs = some found) : found.2.length < bs.length := by
  cases hskip : skipSpace bs with
  | nil =>
      rw [next_of_nil hskip] at h
      cases h
  | cons c tail =>
      have htail := length_lt_of_skipSpace hskip
      rw [next_of_cons hskip] at h
      by_cases hclose : c = close
      · rw [if_pos hclose] at h
        cases h
        exact htail
      · rw [if_neg hclose, Option.ite_none_right_eq_some] at h
        exact Nat.lt_trans (hfurther tail found htail h.2) htail

theorem separatedFuel_nil (item : Scanner α) (close : UInt8) (fuel : Nat) : separatedFuel item close fuel [] = none := by
  cases fuel with
  | zero => rfl
  | succ fuel => rw [separatedFuel, scan_nil, Option.bind_none]

theorem separatedFuel_congr (item : Scanner α) (close : UInt8) {fuel fuel' : Nat} {bs : Bytes} (h : bs.length ≤ fuel)
    (h' : bs.length ≤ fuel') : separatedFuel item close fuel bs = separatedFuel item close fuel' bs := by
  induction fuel generalizing fuel' bs with
  | zero =>
      obtain rfl := List.length_eq_zero_iff.mp (Nat.le_zero.mp h)
      rw [separatedFuel_nil, separatedFuel_nil]
  | succ fuel ih =>
      cases fuel' with
      | zero =>
          obtain rfl := List.length_eq_zero_iff.mp (Nat.le_zero.mp h')
          rw [separatedFuel_nil, separatedFuel_nil]
      | succ fuel' =>
          rw [separatedFuel, separatedFuel]
          refine Option.bind_congr fun found hscan => ?_
          have hrest := item.consumes hscan
          have hsame : next close (separatedFuel item close fuel) found.2 = next close (separatedFuel item close fuel') found.2 :=
            next_congr close fun rest hlt => ih (by omega) (by omega)
          rw [hsame]

theorem separated_eq (item : Scanner α) (close : UInt8) (bs : Bytes) :
    separated item close bs =
      (item.scan bs).bind fun found => (next close (separated item close) found.2).map fun tail => (found.1 :: tail.1, tail.2) := by
  cases bs with
  | nil => rw [separated, separatedFuel_nil, scan_nil, Option.bind_none]
  | cons c bs =>
      show separatedFuel item close (bs.length + 1) (c :: bs) = _
      rw [separatedFuel]
      refine Option.bind_congr fun found hscan => ?_
      have hrest := item.consumes hscan
      rw [List.length_cons] at hrest
      have hsame : next close (separatedFuel item close bs.length) found.2 = next close (separated item close) found.2 :=
        next_congr close fun rest hlt => separatedFuel_congr item close (by omega) (Nat.le_refl _)
      rw [hsame]

theorem separated_consumes {item : Scanner α} {close : UInt8} {bs : Bytes} {found : List α × Bytes}
    (h : separated item close bs = some found) : found.2.length < bs.length := by
  induction hlength : bs.length using Nat.strongRecOn generalizing bs found with
  | ind n ih =>
      subst hlength
      rw [separated_eq] at h
      obtain ⟨first, hscan, h⟩ := Option.bind_eq_some_iff.mp h
      obtain ⟨tail, htail, rfl⟩ := Option.map_eq_some_iff.mp h
      have hfirst := item.consumes hscan
      have hrest : tail.2.length < first.2.length :=
        next_consumes (fun rest found hlt hfound => ih rest.length (Nat.lt_trans hlt hfirst) hfound rfl) htail
      exact Nat.lt_trans hrest hfirst

theorem items_of_cons {item : Scanner α} {close c : UInt8} {bs rest : Bytes} (h : skipSpace bs = c :: rest) :
    items item close bs = if c = close then some ([], rest) else separated item close (c :: rest) := by
  rw [items, h]

/-- What is written with commas between the items is read back, if each item is. -/
theorem separated_intercalate {item : Scanner α} {close : UInt8} {written : β → Bytes} {meant : β → α} {bs : List β} (hbs : bs ≠ [])
    (hcomma : comma ≠ close) (hclose : isSpace close = false)
    (hread : ∀ b ∈ bs, ∀ c rest, c = comma ∨ c = close → item.scan (written b ++ c :: rest) = some (meant b, c :: rest))
    (rest : Bytes) :
    separated item close ([comma].intercalate (bs.map written) ++ close :: rest) = some (bs.map meant, rest) := by
  induction bs with
  | nil => exact absurd rfl hbs
  | cons b bs ih =>
      rw [List.forall_mem_cons] at hread
      rw [separated_eq]
      cases bs with
      | nil =>
          have hlast : [comma].intercalate ([b].map written) = written b := List.intercalate_singleton ..
          rw [hlast, hread.1 close rest (.inr rfl), Option.bind_some, next_of_cons (skipSpace_cons hclose rest), if_pos rfl]
          rfl
      | cons b' bs =>
          have hfirst : [comma].intercalate ((b :: b' :: bs).map written) ++ close :: rest =
              written b ++ comma :: ([comma].intercalate ((b' :: bs).map written) ++ close :: rest) := by
            rw [List.map_cons, List.map_cons, List.intercalate_cons_cons, List.append_assoc, List.append_assoc]
            rfl
          rw [hfirst, hread.1 comma _ (.inl rfl), Option.bind_some, next_of_cons (skipSpace_cons (by decide) _), if_neg hcomma,
            if_pos rfl, ih (List.cons_ne_nil _ _) hread.2]
          rfl

theorem intercalate_eq_cons {written : β → Bytes} {first : UInt8} (hfirst : ∀ b, ∃ tail, written b = first :: tail)
    {bs : List β} (hbs : bs ≠ []) (rest : Bytes) :
    ∃ tail, [comma].intercalate (bs.map written) ++ rest = first :: tail := by
  obtain ⟨b, bs, rfl⟩ := List.exists_cons_of_ne_nil hbs
  obtain ⟨tail, htail⟩ := hfirst b
  cases bs with
  | nil =>
      refine ⟨tail ++ rest, ?_⟩
      rw [List.map_singleton, List.intercalate_singleton, htail, List.cons_append]
  | cons b' bs =>
      refine ⟨tail ++ ([comma] ++ [comma].intercalate (written b' :: bs.map written) ++ rest), ?_⟩
      rw [List.map_cons, List.map_cons, List.intercalate_cons_cons, htail, List.append_assoc, List.append_assoc,
        List.cons_append, List.append_assoc]

/-- As `separated_intercalate`, where no item begins like the end. -/
theorem items_intercalate {item : Scanner α} {close first : UInt8} {written : β → Bytes} {meant : β → α} {bs : List β}
    (hbs : bs ≠ []) (hcomma : comma ≠ close) (hclose : isSpace close = false) (hspace : isSpace first = false)
    (hne : first ≠ close) (hfirst : ∀ b, ∃ tail, written b = first :: tail)
    (hread : ∀ b ∈ bs, ∀ c rest, c = comma ∨ c = close → item.scan (written b ++ c :: rest) = some (meant b, c :: rest))
    (rest : Bytes) :
    items item close ([comma].intercalate (bs.map written) ++ close :: rest) = some (bs.map meant, rest) := by
  have hseparated := separated_intercalate hbs hcomma hclose hread rest
  obtain ⟨tail, htail⟩ := intercalate_eq_cons hfirst hbs (close :: rest)
  rw [htail] at hseparated ⊢
  rw [items_of_cons (skipSpace_cons hspace tail), if_neg hne, hseparated]

theorem items_consumes {item : Scanner α} {close : UInt8} {bs : Bytes} {found : List α × Bytes}
    (h : items item close bs = some found) : found.2.length < bs.length := by
  cases hskip : skipSpace bs with
  | nil =>
      rw [items, hskip] at h
      cases h
  | cons c rest =>
      have hle := length_skipSpace_le bs
      rw [hskip] at hle
      rw [items_of_cons hskip] at h
      by_cases hclose : c = close
      · rw [if_pos hclose] at h
        cases h
        exact hle
      · rw [if_neg hclose] at h
        exact Nat.lt_of_lt_of_le (separated_consumes h) hle

end Scanner
