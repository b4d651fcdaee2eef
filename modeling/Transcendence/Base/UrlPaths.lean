import Mathlib.Data.List.TakeWhile
import Transcendence.Base.GoStrings

/-!
# Paths of URLs as Go has them

`path.Clean` resolves the elements of a path from the left. What is kept of them are its names, and a
cleaned path is written with its names only. `url.Parse` decodes the path, so it can come out with
bytes that are written otherwise in a URL.
-/

namespace GoString

/-- `strings.Cut` by a separator of one byte, what is before it and what is after. -/
def cut (separator : UInt8) (text : Bytes) : Bytes × Bytes :=
  (text.takeWhile (· ≠ separator), (text.dropWhile (· ≠ separator)).tail)

theorem not_mem_cut (separator : UInt8) (text : Bytes) : separator ∉ (cut separator text).1 := by
  intro hmem
  have hkept := List.all_eq_true.mp List.all_takeWhile separator hmem
  exact of_decide_eq_true hkept rfl

theorem mem_of_mem_cut {separator c : UInt8} {text : Bytes} (hc : c ∈ (cut separator text).1) : c ∈ text :=
  (List.takeWhile_sublist _).mem hc

theorem cut_of_not_mem {separator : UInt8} {text : Bytes} (habsent : separator ∉ text) : cut separator text = (text, []) := by
  have hkept : ∀ c ∈ text, decide (c ≠ separator) = true := by
    intro c hc
    exact decide_eq_true fun heq => habsent (heq ▸ hc)
  rw [cut, List.takeWhile_eq_self_iff.mpr hkept, List.dropWhile_eq_nil_iff.mpr hkept, List.tail_nil]

theorem mem_join {separator c : UInt8} {parts : List Bytes} (hc : c ∈ join separator parts) :
    c = separator ∨ ∃ part ∈ parts, c ∈ part := by
  by_contra hnone
  rw [not_or, not_exists] at hnone
  refine not_mem_join hnone.1 (fun part hpart hmem => hnone.2 part ⟨hpart, hmem⟩) hc

theorem mem_join_of_mem {separator c : UInt8} {parts : List Bytes} {part : Bytes} (hpart : part ∈ parts) (hc : c ∈ part) :
    c ∈ join separator parts := by
  induction parts with
  | nil => exact absurd hpart List.not_mem_nil
  | cons first parts ih =>
      cases parts with
      | nil =>
          rw [join, List.intercalate_singleton, ← List.mem_singleton.mp hpart]
          exact hc
      | cons next parts =>
          rw [join, List.intercalate_cons_cons, List.mem_append, List.mem_append]
          cases List.mem_cons.mp hpart with
          | inl hfirst => exact Or.inl (Or.inl (hfirst ▸ hc))
          | inr hrest => exact Or.inr (ih hrest)

end GoString

namespace GoUrl

open GoString (split join cut)

/-! ### Cleaning -/

def dot : Bytes :=
  [46]

def dotDot : Bytes :=
  [46, 46]

/-- One element of a path after those kept so far. The elements can be of any type that has a text. -/
def resolve {α : Type} (text : α → Bytes) (rooted : Bool) (kept : List α) (element : α) : List α :=
  if text element = [] ∨ text element = dot then kept
  else if text element = dotDot then
    if kept.isEmpty ∨ kept.getLast?.map text = some dotDot then if rooted then kept else kept ++ [element]
    else kept.dropLast
  else kept ++ [element]

/-- `path.Clean` -/
def clean (path : Bytes) : Bytes :=
  match path with
  | 47 :: rest => 47 :: join 47 ((split 47 rest).foldl (resolve id true) [])
  | _ =>
      let kept := (split 47 path).foldl (resolve id false) []
      if kept = [] then dot else join 47 kept

/-- The names in a rooted path. -/
def names (path : Bytes) : List Bytes :=
  (split 47 path.tail).foldl (resolve id true) []

/-- An element that stands for something below. -/
structure IsName (element : Bytes) : Prop where
  ne_nil : element ≠ []
  ne_dot : element ≠ dot
  ne_dotDot : element ≠ dotDot
  slash : 47 ∉ element

theorem clean_rooted (rest : Bytes) : clean (47 :: rest) = 47 :: join 47 (names (47 :: rest)) := rfl

/-- Where the elements come from does not matter to what is kept of them. -/
theorem map_resolve {α : Type} (text : α → Bytes) (rooted : Bool) (kept : List α) (element : α) :
    (resolve text rooted kept element).map text = resolve id rooted (kept.map text) (text element) := by
  simp only [resolve, id_eq, List.isEmpty_map, List.getLast?_map, Option.map_id]
  split
  · rfl
  · split
    · split
      · split
        · rfl
        · rw [List.map_append, List.map_singleton]
      · rw [List.map_dropLast]
    · rw [List.map_append, List.map_singleton]

theorem map_foldl_resolve {α : Type} (text : α → Bytes) (rooted : Bool) (elements kept : List α) :
    (elements.foldl (resolve text rooted) kept).map text
      = (elements.map text).foldl (resolve id rooted) (kept.map text) := by
  induction elements generalizing kept with
  | nil => rfl
  | cons element elements ih => rw [List.foldl_cons, ih, map_resolve, List.map_cons, List.foldl_cons]

theorem mem_of_mem_foldl_resolve {α : Type} {text : α → Bytes} {rooted : Bool} {elements kept : List α} {element : α}
    (helement : element ∈ elements.foldl (resolve text rooted) kept) : element ∈ kept ∨ element ∈ elements := by
  induction elements generalizing kept with
  | nil => exact Or.inl helement
  | cons first elements ih =>
      cases ih helement with
      | inl hkept =>
          have hsub : resolve text rooted kept first ⊆ kept ++ [first] := by
            have hold : kept ⊆ kept ++ [first] := List.subset_append_left kept [first]
            unfold resolve
            split
            · exact hold
            · split
              · split
                · split
                  · exact hold
                  · exact List.Subset.refl _
                · exact List.Subset.trans (List.dropLast_subset kept) hold
              · exact List.Subset.refl _
          cases List.mem_append.mp (hsub hkept) with
          | inl hold => exact Or.inl hold
          | inr hnew =>
              rw [List.mem_singleton.mp hnew]
              exact Or.inr List.mem_cons_self
      | inr hrest => exact Or.inr (List.mem_cons_of_mem first hrest)

theorem resolve_of_isName {element : Bytes} (helement : IsName element) (kept : List Bytes) :
    resolve id true kept element = kept ++ [element] := by
  rw [resolve, id_eq, if_neg (not_or.mpr ⟨helement.ne_nil, helement.ne_dot⟩), if_neg helement.ne_dotDot]

theorem foldl_resolve_of_isName {elements : List Bytes} (helements : ∀ element ∈ elements, IsName element)
    (kept : List Bytes) : elements.foldl (resolve id true) kept = kept ++ elements := by
  induction elements generalizing kept with
  | nil => exact (List.append_nil kept).symm
  | cons element elements ih =>
      rw [List.forall_mem_cons] at helements
      rw [List.foldl_cons, resolve_of_isName helements.1, ih helements.2, List.append_assoc, List.singleton_append]

theorem resolve_isName {kept : List Bytes} (hkept : ∀ name ∈ kept, IsName name) {element : Bytes} (hslash : 47 ∉ element) :
    ∀ name ∈ resolve id true kept element, IsName name := by
  intro name hname
  unfold resolve at hname
  split at hname
  · exact hkept name hname
  · case isFalse hplain =>
      rw [not_or] at hplain
      split at hname
      · split at hname
        · exact hkept name hname
        · exact hkept name (List.mem_of_mem_dropLast hname)
      · case isFalse hdots =>
          cases List.mem_append.mp hname with
          | inl hold => exact hkept name hold
          | inr hnew =>
              rw [List.mem_singleton.mp hnew]
              exact ⟨hplain.1, hplain.2, hdots, hslash⟩

theorem foldl_resolve_isName {elements : List Bytes} (helements : ∀ element ∈ elements, 47 ∉ element)
    {kept : List Bytes} (hkept : ∀ name ∈ kept, IsName name) :
    ∀ name ∈ elements.foldl (resolve id true) kept, IsName name := by
  induction elements generalizing kept with
  | nil => exact hkept
  | cons element elements ih =>
      rw [List.forall_mem_cons] at helements
      exact ih helements.2 (resolve_isName hkept helements.1)

/-- What a part of a split list holds is in the list and does not separate. -/
theorem mem_of_mem_splitOnP {α : Type} {separates : α → Bool} {list part : List α} (hpart : part ∈ list.splitOnP separates)
    {x : α} (hx : x ∈ part) : x ∈ list ∧ separates x = false := by
  induction list generalizing part with
  | nil =>
      rw [List.splitOnP_nil, List.mem_singleton] at hpart
      rw [hpart] at hx
      exact absurd hx List.not_mem_nil
  | cons first list ih =>
      rw [List.splitOnP_cons_eq_if_modifyHead] at hpart
      by_cases hfirst : separates first = true
      · rw [if_pos hfirst] at hpart
        cases List.mem_cons.mp hpart with
        | inl hempty =>
            rw [hempty] at hx
            exact absurd hx List.not_mem_nil
        | inr hrest =>
            obtain ⟨hmem, hkeeps⟩ := ih hrest hx
            exact ⟨List.mem_cons_of_mem first hmem, hkeeps⟩
      · rw [if_neg hfirst] at hpart
        obtain ⟨head, parts, hparts⟩ := List.exists_cons_of_ne_nil (List.splitOnP_ne_nil separates list)
        rw [hparts] at hpart ih
        rw [List.modifyHead_cons] at hpart
        cases List.mem_cons.mp hpart with
        | inl hhead =>
            rw [hhead] at hx
            cases List.mem_cons.mp hx with
            | inl hx =>
                rw [hx]
                exact ⟨List.mem_cons_self, Bool.eq_false_iff.mpr hfirst⟩
            | inr hx =>
                obtain ⟨hmem, hkeeps⟩ := ih List.mem_cons_self hx
                exact ⟨List.mem_cons_of_mem first hmem, hkeeps⟩
        | inr hrest =>
            obtain ⟨hmem, hkeeps⟩ := ih (List.mem_cons_of_mem head hrest) hx
            exact ⟨List.mem_cons_of_mem first hmem, hkeeps⟩

theorem not_mem_of_mem_split {text part : Bytes} {separator : UInt8} (hpart : part ∈ split separator text) :
    separator ∉ part := by
  intro hmem
  rw [split, List.splitOn_eq_splitOnP] at hpart
  have hdiffers := (mem_of_mem_splitOnP hpart hmem).2
  exact absurd rfl (beq_eq_false_iff_ne.mp hdiffers)

theorem isName_of_mem_names {path name : Bytes} (hname : name ∈ names path) : IsName name :=
  foldl_resolve_isName (fun _ helement => not_mem_of_mem_split helement) (fun _ hnil => absurd hnil List.not_mem_nil)
    name hname

/-- A path that is written with its names only is clean. -/
theorem names_join {kept : List Bytes} (hkept : ∀ name ∈ kept, IsName name) : names (47 :: join 47 kept) = kept := by
  rw [names, List.tail_cons]
  cases hempty : kept with
  | nil => rfl
  | cons name rest =>
      rw [GoString.split_join (List.cons_ne_nil _ _), foldl_resolve_of_isName, List.nil_append]
      · rw [← hempty]
        exact hkept
      · rw [← hempty]
        exact fun part hpart => (hkept part hpart).slash

theorem clean_clean (rest : Bytes) : clean (clean (47 :: rest)) = clean (47 :: rest) := by
  rw [clean_rooted, clean_rooted, names_join fun name => isName_of_mem_names]

/-! ### Lengths -/

/-- The length of elements with one separator for each. -/
def extent (elements : List Bytes) : Nat :=
  (elements.map fun element => element.length + 1).sum

theorem extent_cons (element : Bytes) (elements : List Bytes) : extent (element :: elements) = element.length + 1 + extent elements := by
  rw [extent, extent, List.map_cons, List.sum_cons]

theorem extent_append (elements others : List Bytes) : extent (elements ++ others) = extent elements + extent others := by
  rw [extent, extent, extent, List.map_append, List.sum_append]

theorem extent_eq_of_ne_nil {elements : List Bytes} (hne : elements ≠ []) : extent elements = (join 47 elements).length + 1 := by
  induction elements with
  | nil => exact absurd rfl hne
  | cons element elements ih =>
      rw [extent_cons]
      cases elements with
      | nil =>
          rw [join, List.intercalate_singleton]
          rfl
      | cons next elements =>
          have hjoined : (join 47 (element :: next :: elements)).length
              = element.length + (1 + (join 47 (next :: elements)).length) := by
            rw [join, List.intercalate_cons_cons, List.length_append, List.length_append, List.length_singleton, Nat.add_assoc]
            rfl
          rw [ih (List.cons_ne_nil _ _), hjoined]
          omega

theorem extent_dropLast_le (elements : List Bytes) : extent elements.dropLast ≤ extent elements := by
  by_cases hempty : elements = []
  · rw [hempty]
    exact Nat.le_refl _
  · conv_rhs => rw [← List.dropLast_append_getLast hempty, extent_append]
    omega

theorem extent_resolve_le (kept : List Bytes) (element : Bytes) :
    extent (resolve id true kept element) ≤ extent kept + (element.length + 1) := by
  have happended : extent (kept ++ [element]) = extent kept + (element.length + 1) := by
    rw [extent_append, extent_cons]
    rfl
  have hdropped := extent_dropLast_le kept
  unfold resolve
  split
  · omega
  · split
    · split
      · exact Nat.le_add_right _ _
      · omega
    · omega

theorem extent_foldl_resolve_le (elements kept : List Bytes) :
    extent (elements.foldl (resolve id true) kept) ≤ extent kept + extent elements := by
  induction elements generalizing kept with
  | nil => exact Nat.le_add_right _ _
  | cons element elements ih =>
      have hstep := extent_resolve_le kept element
      have hrest := ih (resolve id true kept element)
      rw [List.foldl_cons, extent_cons]
      omega

theorem length_clean_le (rest : Bytes) : (clean (47 :: rest)).length ≤ rest.length + 1 := by
  have hsplit : extent (split 47 rest) = rest.length + 1 := by
    have hne : split 47 rest ≠ [] := List.splitOn_ne_nil 47 rest
    rw [extent_eq_of_ne_nil hne, GoString.join_split]
  have hkept : extent (names (47 :: rest)) ≤ extent (split 47 rest) :=
    calc extent (names (47 :: rest)) ≤ extent [] + extent (split 47 rest) := extent_foldl_resolve_le (split 47 rest) []
      _ = extent (split 47 rest) := Nat.zero_add _
  rw [clean_rooted, List.length_cons]
  by_cases hempty : names (47 :: rest) = []
  · rw [hempty]
    exact Nat.le_add_left _ _
  · rw [extent_eq_of_ne_nil hempty] at hkept
    omega

/-! ### Escapes -/

def ishex (c : UInt8) : Bool :=
  (48 ≤ c && c ≤ 57) || (97 ≤ c && c ≤ 102) || (65 ≤ c && c ≤ 70)

def unhex (c : UInt8) : UInt8 :=
  if 48 ≤ c && c ≤ 57 then c - 48
  else if 97 ≤ c && c ≤ 102 then c - 97 + 10
  else if 65 ≤ c && c ≤ 70 then c - 65 + 10
  else 0

/-- A byte of a decoded text, with whether an escape stands for it. -/
structure Letter where
  byte : UInt8
  escaped : Bool
  deriving DecidableEq

def spell (letters : List Letter) : Bytes :=
  letters.map Letter.byte

/-- What a text with escapes is read as. -/
def letters : Bytes → Option (List Letter)
  | [] => some []
  | 37 :: high :: low :: rest =>
      if ishex high && ishex low then (letters rest).map (⟨unhex high <<< 4 ||| unhex low, true⟩ :: ·) else none
  | c :: rest => if c = 37 then none else (letters rest).map (⟨c, false⟩ :: ·)

/-- `url.unescape` of a path or of a fragment. -/
def unescape (text : Bytes) : Option Bytes :=
  (letters text).map spell

/-- A text without escapes is read as it stands. -/
theorem unescape_of_not_mem {text : Bytes} (hpercent : 37 ∉ text) : unescape text = some text := by
  rw [unescape]
  induction text with
  | nil => rfl
  | cons c rest ih =>
      rw [List.mem_cons, not_or] at hpercent
      have hread : letters (c :: rest) = (letters rest).map (⟨c, false⟩ :: ·) := by
        rw [letters.eq_3 c rest fun _ _ _ hc _ => hpercent.1 hc.symm, if_neg (Ne.symm hpercent.1)]
      obtain ⟨read, hrest, hspell⟩ := Option.map_eq_some_iff.mp (ih hpercent.2)
      rw [hread, hrest, Option.map_some, Option.map_some, spell, List.map_cons, ← hspell]
      rfl

theorem length_letters {text : Bytes} {read : List Letter} (hread : letters text = some read) :
    read.length ≤ text.length ∧ (37 ∈ text → read.length < text.length) := by
  fun_induction letters text generalizing read with
  | case1 =>
      cases hread
      exact ⟨Nat.le_refl _, fun hmem => absurd hmem List.not_mem_nil⟩
  | case2 high low rest hhex ih =>
      obtain ⟨tail, htail, rfl⟩ := Option.map_eq_some_iff.mp hread
      have hle := (ih htail).1
      simp only [List.length_cons]
      omega
  | case3 => cases hread
  | case4 => cases hread
  | case5 c rest _ hc ih =>
      obtain ⟨tail, htail, rfl⟩ := Option.map_eq_some_iff.mp hread
      obtain ⟨hle, hlt⟩ := ih htail
      simp only [List.length_cons, List.mem_cons]
      refine ⟨by omega, fun hmem => ?_⟩
      have hrest := hlt (hmem.resolve_left (Ne.symm hc))
      omega

/-- A letter that no escape stands for is in the text. -/
theorem mem_of_not_escaped {text : Bytes} {read : List Letter} (hread : letters text = some read) {letter : Letter}
    (hletter : letter ∈ read) (hraw : letter.escaped = false) : letter.byte ∈ text ∧ letter.byte ≠ 37 := by
  fun_induction letters text generalizing read with
  | case1 =>
      cases hread
      exact absurd hletter List.not_mem_nil
  | case2 high low rest hhex ih =>
      obtain ⟨tail, htail, rfl⟩ := Option.map_eq_some_iff.mp hread
      cases List.mem_cons.mp hletter with
      | inl hfirst =>
          rw [hfirst] at hraw
          have hfalse : true = false := hraw
          exact absurd hfalse (by decide)
      | inr hrest =>
          obtain ⟨hmem, hne⟩ := ih htail hrest
          exact ⟨List.mem_cons_of_mem _ (List.mem_cons_of_mem _ (List.mem_cons_of_mem _ hmem)), hne⟩
  | case3 => cases hread
  | case4 => cases hread
  | case5 c rest _ hc ih =>
      obtain ⟨tail, htail, rfl⟩ := Option.map_eq_some_iff.mp hread
      cases List.mem_cons.mp hletter with
      | inl hfirst =>
          rw [hfirst]
          exact ⟨List.mem_cons_self, hc⟩
      | inr hrest =>
          obtain ⟨hmem, hne⟩ := ih htail hrest
          exact ⟨List.mem_cons_of_mem _ hmem, hne⟩

/-- `net/url.stringContainsCTLByte` -/
def stringContainsCTLByte (text : Bytes) : Bool :=
  text.any fun c => c < 32 || c == 127

/-- What of a parsed URL is looked at. -/
structure URL where
  Scheme : Bytes
  Host : Bytes
  Path : Bytes

def URL.IsAbs (url : URL) : Bool :=
  url.Scheme ≠ []

/-- What a text has before its query and its fragment. -/
def beforeQuery (text : Bytes) : Bytes :=
  (cut 63 (cut 35 text).1).1

/-- `url.Parse` of a text that starts with exactly one slash. There is no scheme and no host in it. -/
def parse (text : Bytes) : Option URL :=
  if stringContainsCTLByte (cut 35 text).1 then none
  else
    match unescape (beforeQuery text) with
    | none => none
    | some path =>
        if (cut 35 text).2 ≠ [] ∧ unescape (cut 35 text).2 = none then none
        else some ⟨[], [], path⟩

/-! ### Elements with their escapes -/

/-- The letters of a path between its slashes, escaped ones included. -/
def elements (read : List Letter) : List (List Letter) :=
  read.splitOnP (·.byte == 47)

/-- The elements of a rooted path that cleaning keeps. -/
def keptElements (read : List Letter) : List (List Letter) :=
  (elements read.tail).foldl (resolve spell true) []

theorem map_spell_elements (read : List Letter) : (elements read).map spell = split 47 (spell read) := by
  rw [elements, split, List.splitOn_eq_splitOnP]
  induction read with
  | nil => rfl
  | cons letter read ih =>
      obtain ⟨head, rest, hparts⟩ := List.exists_cons_of_ne_nil (List.splitOnP_ne_nil (fun l : Letter => l.byte == 47) read)
      rw [spell, List.map_cons, List.splitOnP_cons_eq_if_modifyHead, List.splitOnP_cons_eq_if_modifyHead]
      split
      · rw [List.map_cons, ih]
        rfl
      · change _ = List.modifyHead _ (List.splitOnP _ (spell read))
        rw [← ih, hparts, List.modifyHead_cons, List.map_cons, List.map_cons, List.modifyHead_cons]
        rfl

theorem map_spell_keptElements (read : List Letter) : (keptElements read).map spell = names (spell read) := by
  rw [keptElements, map_foldl_resolve, map_spell_elements, List.map_nil, names, spell, spell, List.map_tail]

theorem mem_of_mem_keptElements {read element : List Letter} (helement : element ∈ keptElements read) {letter : Letter}
    (hletter : letter ∈ element) : letter ∈ read := by
  have hsplit := (mem_of_mem_foldl_resolve helement).resolve_left List.not_mem_nil
  exact List.mem_of_mem_tail (mem_of_mem_splitOnP hsplit hletter).1

/-! ### Rooted texts -/

/-- The path of a rooted text is rooted. -/
theorem exists_spell_eq {rest : Bytes} {read : List Letter} (hread : letters (beforeQuery (47 :: rest)) = some read) :
    ∃ path, spell read = 47 :: path := by
  have hbefore : beforeQuery (47 :: rest) = 47 :: beforeQuery rest := rfl
  rw [hbefore, letters.eq_3 47 (beforeQuery rest) fun _ _ _ hc _ => absurd hc (by decide), if_neg (by decide)] at hread
  obtain ⟨tail, -, hcons⟩ := Option.map_eq_some_iff.mp hread
  refine ⟨spell tail, ?_⟩
  rw [← hcons]
  rfl

theorem mem_of_mem_beforeQuery {text : Bytes} {c : UInt8} (hc : c ∈ beforeQuery text) : c ∈ (cut 35 text).1 :=
  GoString.mem_of_mem_cut hc

/-- The bytes a URL can have in its path without an escape. -/
structure Plain (c : UInt8) : Prop where
  hash : c ≠ 35
  query : c ≠ 63
  percent : c ≠ 37
  control : (c < 32 || c == 127) = false

theorem stringContainsCTLByte_eq_false {text : Bytes} :
    stringContainsCTLByte text = false ↔ ∀ c ∈ text, (c < 32 || c == 127) = false := by
  rw [stringContainsCTLByte, List.any_eq_false]
  simp only [Bool.not_eq_true]

theorem parse_of_plain {text : Bytes} (hplain : ∀ c ∈ text, Plain c) : parse text = some ⟨[], [], text⟩ := by
  have hhash : cut 35 text = (text, []) := GoString.cut_of_not_mem fun hmem => (hplain 35 hmem).hash rfl
  have hquery : beforeQuery text = text := by
    rw [beforeQuery, hhash, GoString.cut_of_not_mem fun hmem => (hplain 63 hmem).query rfl]
  have hcontrol : stringContainsCTLByte text = false := stringContainsCTLByte_eq_false.mpr fun c hc => (hplain c hc).control
  have hread := unescape_of_not_mem fun hmem => (hplain 37 hmem).percent rfl
  rw [parse, hhash, hquery, hcontrol, if_neg Bool.false_ne_true, hread]
  rfl

/-- What is parsed has the letters of the text for its path, and the text has no control byte there. -/
theorem parse_eq_some {text : Bytes} {url : URL} (hparse : parse text = some url) :
    stringContainsCTLByte (cut 35 text).1 = false ∧ unescape (beforeQuery text) = some url.Path
      ∧ url.Scheme = [] ∧ url.Host = [] := by
  rw [parse] at hparse
  by_cases hcontrol : stringContainsCTLByte (cut 35 text).1 = true
  · rw [if_pos hcontrol] at hparse
    cases hparse
  · rw [if_neg hcontrol] at hparse
    cases hpath : unescape (beforeQuery text) with
    | none =>
        rw [hpath] at hparse
        cases hparse
    | some path =>
        rw [hpath] at hparse
        obtain ⟨-, hurl⟩ := Option.ite_none_left_eq_some.mp hparse
        rw [← Option.some.inj hurl]
        exact ⟨Bool.eq_false_iff.mpr hcontrol, rfl, rfl, rfl⟩

/-- The letters of a parsed text that no escape stands for are plain. -/
theorem plain_of_not_escaped {text : Bytes} {url : URL} (hparse : parse text = some url) {read : List Letter}
    (hread : letters (beforeQuery text) = some read) {letter : Letter} (hletter : letter ∈ read)
    (hraw : letter.escaped = false) : Plain letter.byte := by
  obtain ⟨hmem, hpercent⟩ := mem_of_not_escaped hread hletter hraw
  have hbefore := mem_of_mem_beforeQuery hmem
  refine ⟨?_, ?_, hpercent, ?_⟩
  · intro hhash
    rw [hhash] at hbefore
    exact GoString.not_mem_cut 35 text hbefore
  · intro hquery
    rw [hquery] at hmem
    exact GoString.not_mem_cut 63 (cut 35 text).1 hmem
  · exact stringContainsCTLByte_eq_false.mp (parse_eq_some hparse).1 _ hbefore

end GoUrl
