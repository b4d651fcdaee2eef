import Mathlib.Data.List.DropRight

/-!
# Strings of code units

JavaScript's strings are sequences of 16-bit code units, and a length counts units. What leaves for
the network is Unicode text instead, so a surrogate without its partner is replaced on the way
(`toWellFormed`); that changes neither the length nor where the white space is.
-/

abbrev JsString :=
  List UInt16

namespace JsString

def ofChar (c : Char) : JsString :=
  if c.toNat < 0x10000 then [c.toNat.toUInt16]
  else [(0xD800 + (c.toNat - 0x10000) / 0x400).toUInt16, (0xDC00 + (c.toNat - 0x10000) % 0x400).toUInt16]

/-- A literal of the source text. -/
def ofString (s : String) : JsString :=
  s.toList.flatMap ofChar

/-! ### White space -/

/-- `WhiteSpace` and `LineTerminator`. -/
def isSpace (u : UInt16) : Bool :=
  [0x09, 0x0A, 0x0B, 0x0C, 0x0D, 0x20, 0xA0, 0x1680, 0x2028, 0x2029, 0x202F, 0x205F, 0x3000, 0xFEFF].contains u ||
    0x2000 ≤ u && u ≤ 0x200A

def trimStart (s : JsString) : JsString :=
  s.dropWhile isSpace

def trimEnd (s : JsString) : JsString :=
  s.rdropWhile isSpace

def trim (s : JsString) : JsString :=
  (trimStart s).trimEnd

variable {s t : JsString}

theorem trimEnd_isPrefix (s : JsString) : trimEnd s <+: s :=
  List.rdropWhile_prefix isSpace s

theorem trimEnd_trimEnd (s : JsString) : trimEnd (trimEnd s) = trimEnd s :=
  List.rdropWhile_idempotent isSpace s

theorem trimStart_eq_self_iff : trimStart s = s ↔ (s.map isSpace).head? ≠ some true := by
  cases s with
  | nil => exact iff_of_true rfl nofun
  | cons u s =>
      rw [trimStart, List.map_cons, List.head?_cons, Ne, Option.some.injEq, List.dropWhile_eq_self_iff]
      exact ⟨fun h => h (Nat.succ_pos _), fun h _ => h⟩

theorem trimEnd_eq_self_iff : trimEnd s = s ↔ (s.map isSpace).getLast? ≠ some true := by
  rw [trimEnd, List.rdropWhile_eq_self_iff, List.getLast?_map]
  constructor
  · intro h hlast
    rcases eq_or_ne s [] with rfl | hne
    · cases hlast
    · rw [List.getLast?_eq_some_getLast hne, Option.map_some, Option.some.injEq] at hlast
      exact h hne hlast
  · intro h hne hspace
    apply h
    rw [List.getLast?_eq_some_getLast hne, Option.map_some, hspace]

/-- A start of a string that begins with no space begins with none. -/
theorem trimStart_eq_self_of_isPrefix (h : t <+: s) (hs : trimStart s = s) : trimStart t = t := by
  rw [trimStart_eq_self_iff] at hs ⊢
  obtain ⟨rest, rfl⟩ := h
  cases t with
  | nil => nofun
  | cons u t => exact hs

theorem trimStart_trimStart (s : JsString) : trimStart (trimStart s) = trimStart s :=
  List.dropWhile_idempotent isSpace s

theorem trim_eq_self_iff : trim s = s ↔ trimStart s = s ∧ trimEnd s = s := by
  constructor
  · intro h
    have hstart : trimStart s = s := by
      rw [← h]
      exact trimStart_eq_self_of_isPrefix (trimEnd_isPrefix _) (trimStart_trimStart s)
    refine ⟨hstart, ?_⟩
    rwa [trim, hstart] at h
  · intro ⟨hstart, hend⟩
    rw [trim, hstart, hend]

theorem trim_of_no_space (h : ∀ u ∈ s, isSpace u = false) : trim s = s := by
  have hnone : ∀ b ∈ s.map isSpace, b = false := by
    intro b hb
    obtain ⟨u, hu, rfl⟩ := List.mem_map.mp hb
    exact h u hu
  rw [trim_eq_self_iff, trimStart_eq_self_iff, trimEnd_eq_self_iff]
  constructor
  · intro htrue
    cases hnone true (List.mem_of_head? htrue)
  · intro htrue
    cases hnone true (List.mem_of_getLast? htrue)

/-- What trimming, a cut and trimming the end again leave is trimmed. -/
theorem trim_trimEnd_take (s : JsString) (n : Nat) : trim (trimEnd ((trim s).take n)) = trimEnd ((trim s).take n) := by
  rw [trim_eq_self_iff]
  refine ⟨?_, trimEnd_trimEnd _⟩
  have hprefix : trimEnd ((trim s).take n) <+: trimStart s :=
    (trimEnd_isPrefix _).trans ((List.take_prefix n _).trans (trimEnd_isPrefix _))
  exact trimStart_eq_self_of_isPrefix hprefix (trimStart_trimStart s)

/-! ### Text for the network -/

def isHighSurrogate (u : UInt16) : Bool :=
  0xD800 ≤ u && u ≤ 0xDBFF

def isLowSurrogate (u : UInt16) : Bool :=
  0xDC00 ≤ u && u ≤ 0xDFFF

def replaceSurrogate (u : UInt16) : UInt16 :=
  if isHighSurrogate u || isLowSurrogate u then 0xFFFD else u

/-- Each surrogate outside a pair becomes U+FFFD. -/
def toWellFormed : JsString → JsString
  | [] => []
  | [u] => [replaceSurrogate u]
  | u :: v :: rest =>
      if isHighSurrogate u && isLowSurrogate v then u :: v :: toWellFormed rest
      else replaceSurrogate u :: toWellFormed (v :: rest)

theorem isSpace_replaceSurrogate (u : UInt16) : isSpace (replaceSurrogate u) = isSpace u := by
  rw [replaceSurrogate]
  split_ifs with h
  · have hsurrogate : 0xD800 ≤ u.toNat ∧ u.toNat ≤ 0xDFFF := by
      simp only [isHighSurrogate, isLowSurrogate, Bool.or_eq_true, Bool.and_eq_true, decide_eq_true_eq,
        UInt16.le_iff_toNat_le] at h
      have hhigh : (0xD800 : UInt16).toNat = 0xD800 := rfl
      have hhigh' : (0xDBFF : UInt16).toNat = 0xDBFF := rfl
      have hlow : (0xDC00 : UInt16).toNat = 0xDC00 := rfl
      have hlow' : (0xDFFF : UInt16).toNat = 0xDFFF := rfl
      omega
    have hnone : isSpace u = false := by
      simp only [isSpace, List.contains_cons, List.contains_nil, Bool.or_false, Bool.or_eq_false_iff,
        Bool.and_eq_false_iff, beq_eq_false_iff_ne, decide_eq_false_iff_not, UInt16.le_iff_toNat_le, Ne,
        ← UInt16.toNat_inj]
      simp
      omega
    rw [hnone]
    rfl
  · rfl

theorem map_isSpace_toWellFormed (s : JsString) : (toWellFormed s).map isSpace = s.map isSpace := by
  fun_induction toWellFormed s with
  | case1 => rfl
  | case2 u => rw [List.map_singleton, List.map_singleton, isSpace_replaceSurrogate]
  | case3 u v rest h ih => rw [List.map_cons, List.map_cons, List.map_cons, List.map_cons, ih]
  | case4 u v rest h ih => rw [List.map_cons, List.map_cons, isSpace_replaceSurrogate, ih]

@[simp] theorem length_toWellFormed (s : JsString) : (toWellFormed s).length = s.length := by
  rw [← List.length_map (f := isSpace), map_isSpace_toWellFormed, List.length_map]

theorem trim_toWellFormed (h : trim s = s) : trim (toWellFormed s) = toWellFormed s := by
  rw [trim_eq_self_iff, trimStart_eq_self_iff, trimEnd_eq_self_iff] at h ⊢
  rwa [map_isSpace_toWellFormed]

end JsString
