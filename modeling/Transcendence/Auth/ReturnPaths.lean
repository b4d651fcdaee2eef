import Transcendence.Base.UrlPaths

/-!
# Return paths of a login

The browser names the path it wants to be sent back to. Only paths under a few prefixes are taken, and
backslashes and control characters are refused in the text as it comes. The path that is returned is
the decoded one, so an escape can bring back what the text was not allowed to have.
-/

namespace Transcendence.Auth

open GoString (join)
open GoUrl (letters spell clean names keptElements beforeQuery Letter Plain)

def fallback : Bytes :=
  ascii "/dashboard"

def allowedPrefixes : List Bytes :=
  [ascii "/dashboard", ascii "/projects", ascii "/profile", ascii "/settings", ascii "/user-settings"]

/-- The loop over the prefixes. -/
def allowed (normalized : Bytes) : Bool :=
  allowedPrefixes.any fun under => normalized == under || (under ++ ascii "/").isPrefixOf normalized

/-- The backslash, NUL, CR and LF. -/
def refusedBytes : Bytes :=
  [92, 0, 13, 10]

/-- What the text itself is checked for. -/
def refused (value : Bytes) : Bool :=
  value = [] || value.any (refusedBytes.contains ·) || !(ascii "/").isPrefixOf value || (ascii "//").isPrefixOf value

def safeOAuthReturnPath (value : Bytes) : Bytes :=
  if refused value then fallback
  else
    match GoUrl.parse value with
    | none => fallback
    | some parsed =>
        if parsed.IsAbs || parsed.Host ≠ [] || (ascii "//").isPrefixOf parsed.Path then fallback
        else
          let normalized := clean parsed.Path
          if !(ascii "/").isPrefixOf normalized then fallback
          else if allowed normalized then normalized
          else fallback

/-! ### What is safe -/

/-- Bytes that no return path should have: those refused, `?` and `#`. -/
def unsafeBytes : Bytes :=
  refusedBytes ++ [63, 35]

/-- The return path for a value is safe. -/
structure SafeReturn (value : Bytes) : Prop where
  target : safeOAuthReturnPath value = fallback
    ∨ (clean (safeOAuthReturnPath value) = safeOAuthReturnPath value ∧ ascii "/" <+: safeOAuthReturnPath value
      ∧ ∃ under ∈ allowedPrefixes, safeOAuthReturnPath value = under ∨ under ++ ascii "/" <+: safeOAuthReturnPath value)
  bytes : ∀ c ∈ unsafeBytes, c ∉ safeOAuthReturnPath value
  again : safeOAuthReturnPath (safeOAuthReturnPath value) = safeOAuthReturnPath value

/-- Every check lets the value pass, so its own path is returned. -/
structure Followed (value : Bytes) (read : List Letter) : Prop where
  admitted : refused value = false
  parsed : (GoUrl.parse value).isSome = true
  decoded : letters (beforeQuery value) = some read
  inside : (ascii "//").isPrefixOf (spell read) = false
  under : allowed (clean (spell read)) = true

/-- A byte that can stand in a return path as it is. -/
structure Harmless (c : UInt8) : Prop extends Plain c where
  backslash : c ≠ 92

/-- The escapes in the elements that cleaning keeps stand for harmless bytes. -/
def EscapesHarmless (read : List Letter) : Prop :=
  ∀ element ∈ keptElements read, ∀ letter ∈ element, letter.escaped = true → Harmless letter.byte

/-! ### The checks -/

theorem refused_eq_false {value : Bytes} (hadmitted : refused value = false) :
    (∀ c ∈ refusedBytes, c ∉ value) ∧ ∃ rest, value = 47 :: rest := by
  simp only [refused, Bool.or_eq_false_iff, decide_eq_false_iff_not, Bool.not_eq_false'] at hadmitted
  obtain ⟨⟨⟨-, hbytes⟩, hrooted⟩, -⟩ := hadmitted
  refine ⟨?_, ?_⟩
  · intro c hc hmem
    exact List.any_eq_false.mp hbytes c hmem (List.contains_iff_mem.mpr hc)
  · obtain ⟨rest, hrest⟩ := List.isPrefixOf_iff_prefix.mp hrooted
    exact ⟨rest, hrest.symm⟩

theorem exists_spell_eq_of_followed {value : Bytes} {read : List Letter} (hfollowed : Followed value read) :
    ∃ path, spell read = 47 :: path := by
  obtain ⟨-, rest, hvalue⟩ := refused_eq_false hfollowed.admitted
  have hread := hfollowed.decoded
  rw [hvalue] at hread
  exact GoUrl.exists_spell_eq hread

theorem safeOAuthReturnPath_of_followed {value : Bytes} {read : List Letter} (hfollowed : Followed value read) :
    safeOAuthReturnPath value = clean (spell read) := by
  obtain ⟨path, hpath⟩ := exists_spell_eq_of_followed hfollowed
  obtain ⟨url, hparse⟩ := Option.isSome_iff_exists.mp hfollowed.parsed
  obtain ⟨-, hdecoded, hscheme, hhost⟩ := GoUrl.parse_eq_some hparse
  have hurl : url.Path = spell read := by
    rw [GoUrl.unescape, hfollowed.decoded, Option.map_some] at hdecoded
    exact (Option.some.inj hdecoded).symm
  have hrooted : (ascii "/").isPrefixOf (clean (spell read)) = true := by
    rw [hpath, GoUrl.clean_rooted]
    rfl
  rw [safeOAuthReturnPath, hfollowed.admitted, if_neg Bool.false_ne_true, hparse]
  simp only [GoUrl.URL.IsAbs, hscheme, hhost, hurl, hfollowed.inside, hrooted, hfollowed.under, ne_eq, not_true_eq_false,
    decide_false, Bool.or_false, Bool.false_eq_true, if_false, Bool.not_true, if_true]

/-- A path other than the fallback is that of the value. -/
theorem followed_of_ne {value : Bytes} (hne : safeOAuthReturnPath value ≠ fallback) : ∃ read, Followed value read := by
  rw [safeOAuthReturnPath] at hne
  cases hadmitted : refused value with
  | true =>
      rw [hadmitted, if_pos rfl] at hne
      exact absurd rfl hne
  | false =>
      rw [hadmitted, if_neg Bool.false_ne_true] at hne
      cases hparse : GoUrl.parse value with
      | none =>
          rw [hparse] at hne
          exact absurd rfl hne
      | some url =>
          obtain ⟨read, hread, hspell⟩ := Option.map_eq_some_iff.mp (GoUrl.parse_eq_some hparse).2.1
          rw [hparse] at hne
          dsimp only at hne
          split at hne
          · exact absurd rfl hne
          · case isFalse hinside =>
              split at hne
              · exact absurd rfl hne
              · split at hne
                · case isTrue hunder =>
                    simp only [Bool.or_eq_true, not_or, Bool.not_eq_true] at hinside
                    rw [← hspell] at hinside hunder
                    exact ⟨read, hadmitted, Option.isSome_of_eq_some hparse, hread, hinside.2, hunder⟩
                · exact absurd rfl hne

/-! ### Paths that stay as they are -/

theorem exists_cons_of_mem_allowedPrefixes {under : Bytes} (hunder : under ∈ allowedPrefixes) :
    ∃ c rest, under = 47 :: c :: rest ∧ c ≠ 47 := by
  simp only [allowedPrefixes, List.mem_cons, List.not_mem_nil, or_false] at hunder
  rcases hunder with rfl | rfl | rfl | rfl | rfl
  all_goals exact ⟨_, _, rfl, by decide⟩

theorem allowed_iff {normalized : Bytes} :
    allowed normalized = true ↔ ∃ under ∈ allowedPrefixes, normalized = under ∨ under ++ ascii "/" <+: normalized := by
  simp only [allowed, List.any_eq_true, Bool.or_eq_true, beq_iff_eq, List.isPrefixOf_iff_prefix]

/-- A path that is allowed starts with exactly one slash. -/
theorem exists_cons_of_allowed {normalized : Bytes} (hallowed : allowed normalized = true) :
    ∃ c rest, normalized = 47 :: c :: rest ∧ c ≠ 47 := by
  obtain ⟨under, hunder, hform⟩ := allowed_iff.mp hallowed
  obtain ⟨c, rest, hcons, hc⟩ := exists_cons_of_mem_allowedPrefixes hunder
  rw [hcons] at hform
  cases hform with
  | inl hsame => exact ⟨c, rest, hsame, hc⟩
  | inr hbelow =>
      obtain ⟨tail, htail⟩ := hbelow
      exact ⟨c, rest ++ ascii "/" ++ tail, htail.symm, hc⟩

/-- A clean path that is allowed and has harmless bytes only is returned as it is. -/
theorem safeOAuthReturnPath_of_harmless {normalized : Bytes} (hallowed : allowed normalized = true)
    (hclean : clean normalized = normalized) (hharmless : ∀ c ∈ normalized, Harmless c) :
    safeOAuthReturnPath normalized = normalized := by
  obtain ⟨first, rest, hcons, hfirst⟩ := exists_cons_of_allowed hallowed
  have hrooted : (ascii "/").isPrefixOf normalized = true := by
    rw [hcons]
    rfl
  have hinside : (ascii "//").isPrefixOf normalized = false := by
    apply Bool.eq_false_iff.mpr
    intro hdouble
    obtain ⟨tail, htail⟩ := List.isPrefixOf_iff_prefix.mp hdouble
    rw [hcons] at htail
    exact hfirst (List.cons.inj (List.cons.inj htail).2).1.symm
  have hbytes : normalized.any (refusedBytes.contains ·) = false := by
    apply List.any_eq_false.mpr
    intro c hc hrefused
    obtain ⟨⟨-, -, -, hcontrol⟩, hbackslash⟩ := hharmless c hc
    simp only [refusedBytes, List.contains_iff_mem, List.mem_cons, List.not_mem_nil, or_false] at hrefused
    rcases hrefused with rfl | rfl | rfl | rfl
    · exact hbackslash rfl
    all_goals exact absurd hcontrol (by decide)
  have hadmitted : refused normalized = false := by
    rw [refused, hbytes, hrooted, hinside, hcons]
    rfl
  have hparse := GoUrl.parse_of_plain fun c hc => (hharmless c hc).toPlain
  rw [safeOAuthReturnPath, hadmitted, if_neg Bool.false_ne_true, hparse]
  simp only [GoUrl.URL.IsAbs, hinside, hclean, hrooted, hallowed]
  rfl

/-- A path with a control byte is not parsed. One with a percent sign is decoded to a shorter one. -/
theorem harmless_of_again {normalized : Bytes}
    (hbytes : ∀ c ∈ unsafeBytes, c ∉ normalized) (hagain : safeOAuthReturnPath normalized = normalized)
    (hne : normalized ≠ fallback) : ∀ c ∈ normalized, Harmless c := by
  have hhash : 35 ∉ normalized := hbytes 35 (by decide)
  have hquery : 63 ∉ normalized := hbytes 63 (by decide)
  have hbefore : beforeQuery normalized = normalized := by
    rw [beforeQuery, GoString.cut_of_not_mem hhash, GoString.cut_of_not_mem hquery]
  rw [← hagain] at hne
  obtain ⟨read, hfollowed⟩ := followed_of_ne hne
  obtain ⟨url, hparse⟩ := Option.isSome_iff_exists.mp hfollowed.parsed
  obtain ⟨path, hpath⟩ := exists_spell_eq_of_followed hfollowed
  have hdecoded := hfollowed.decoded
  rw [hbefore] at hdecoded
  have hcontrol := (GoUrl.parse_eq_some hparse).1
  rw [GoString.cut_of_not_mem hhash] at hcontrol
  have hpercent : 37 ∉ normalized := by
    intro hmem
    have hshorter := (GoUrl.length_letters hdecoded).2 hmem
    have hsame : (clean (spell read)).length = normalized.length := by
      rw [← safeOAuthReturnPath_of_followed hfollowed, hagain]
    have hlength : (spell read).length = read.length := List.length_map _
    have hle := GoUrl.length_clean_le path
    rw [← hpath, hsame] at hle
    rw [hpath, List.length_cons] at hlength
    omega
  intro c hc
  refine ⟨⟨?_, ?_, ?_, ?_⟩, ?_⟩
  · exact fun heq => hhash (heq ▸ hc)
  · exact fun heq => hquery (heq ▸ hc)
  · exact fun heq => hpercent (heq ▸ hc)
  · exact GoUrl.stringContainsCTLByte_eq_false.mp hcontrol c hc
  · exact fun heq => hbytes 92 (by decide) (heq ▸ hc)

/-! ### Escapes -/

theorem mem_clean_iff {read : List Letter} {path : Bytes} (hpath : spell read = 47 :: path) {c : UInt8} :
    c ∈ clean (spell read) ↔ c = 47 ∨ ∃ element ∈ keptElements read, ∃ letter ∈ element, letter.byte = c := by
  rw [hpath, GoUrl.clean_rooted, ← hpath, ← GoUrl.map_spell_keptElements, List.mem_cons]
  constructor
  · intro hmem
    cases hmem with
    | inl hslash => exact Or.inl hslash
    | inr hmem =>
        cases GoString.mem_join hmem with
        | inl hslash => exact Or.inl hslash
        | inr hname =>
            obtain ⟨name, hname, hc⟩ := hname
            obtain ⟨element, helement, rfl⟩ := List.mem_map.mp hname
            exact Or.inr ⟨element, helement, List.mem_map.mp hc⟩
  · intro hmem
    cases hmem with
    | inl hslash => exact Or.inl hslash
    | inr hletter =>
        obtain ⟨element, helement, hletter⟩ := hletter
        exact Or.inr (GoString.mem_join_of_mem (List.mem_map_of_mem helement) (List.mem_map.mpr hletter))

/-- What comes without an escape is harmless, since the text was checked for it. -/
theorem harmless_of_not_escaped {value : Bytes} {read : List Letter} (hfollowed : Followed value read) {letter : Letter}
    (hletter : letter ∈ read) (hraw : letter.escaped = false) : Harmless letter.byte := by
  obtain ⟨url, hparse⟩ := Option.isSome_iff_exists.mp hfollowed.parsed
  refine ⟨GoUrl.plain_of_not_escaped hparse hfollowed.decoded hletter hraw, ?_⟩
  intro hbackslash
  have hmem := (GoUrl.mem_of_not_escaped hfollowed.decoded hletter hraw).1
  rw [hbackslash] at hmem
  have hvalue : 92 ∈ value := GoString.mem_of_mem_cut (GoUrl.mem_of_mem_beforeQuery hmem)
  exact (refused_eq_false hfollowed.admitted).1 92 (by decide) hvalue

/-- The path is harmless if its escapes are. -/
theorem harmless_iff {value : Bytes} {read : List Letter} (hfollowed : Followed value read) :
    (∀ c ∈ clean (spell read), Harmless c) ↔ EscapesHarmless read := by
  obtain ⟨path, hpath⟩ := exists_spell_eq_of_followed hfollowed
  constructor
  · intro hharmless element helement letter hletter _
    exact hharmless letter.byte ((mem_clean_iff hpath).mpr (Or.inr ⟨element, helement, letter, hletter, rfl⟩))
  · intro hescapes c hc
    cases (mem_clean_iff hpath).mp hc with
    | inl hslash =>
        rw [hslash]
        exact ⟨⟨by decide, by decide, by decide, by decide⟩, by decide⟩
    | inr hletter =>
        obtain ⟨element, helement, letter, hletter, rfl⟩ := hletter
        cases hraw : letter.escaped with
        | false => exact harmless_of_not_escaped hfollowed (GoUrl.mem_of_mem_keptElements helement hletter) hraw
        | true => exact hescapes element helement letter hletter hraw

/-! ### The return path -/

theorem harmless_fallback : ∀ c ∈ fallback, Harmless c := by
  intro c hc
  have hall : fallback.all (fun c => c ≠ 35 && c ≠ 63 && c ≠ 37 && !(c < 32 || c == 127) && c ≠ 92) = true := by decide
  have hbyte := List.all_eq_true.mp hall c hc
  simp only [Bool.and_eq_true, decide_eq_true_eq, Bool.not_eq_true'] at hbyte
  obtain ⟨⟨⟨⟨hhash, hquery⟩, hpercent⟩, hcontrol⟩, hbackslash⟩ := hbyte
  exact ⟨⟨hhash, hquery, hpercent, hcontrol⟩, hbackslash⟩

theorem not_mem_of_harmless {text : Bytes} (hharmless : ∀ c ∈ text, Harmless c) : ∀ c ∈ unsafeBytes, c ∉ text := by
  intro c hc hmem
  obtain ⟨⟨hhash, hquery, -, hcontrol⟩, hbackslash⟩ := hharmless c hmem
  simp only [unsafeBytes, refusedBytes, List.cons_append, List.nil_append, List.mem_cons, List.not_mem_nil, or_false] at hc
  rcases hc with rfl | rfl | rfl | rfl | rfl | rfl
  · exact hbackslash rfl
  · exact absurd hcontrol (by decide)
  · exact absurd hcontrol (by decide)
  · exact absurd hcontrol (by decide)
  · exact hquery rfl
  · exact hhash rfl

theorem safeReturn_of_fallback {value : Bytes} (hfallback : safeOAuthReturnPath value = fallback) : SafeReturn value := by
  have hbytes := not_mem_of_harmless harmless_fallback
  have hagain : safeOAuthReturnPath fallback = fallback :=
    safeOAuthReturnPath_of_harmless (by decide) (by decide) harmless_fallback
  exact ⟨Or.inl hfallback, hfallback ▸ hbytes, by rw [hfallback, hagain]⟩

/-- Where the value is followed, its path is safe if no escape in an element that is kept stands for
a backslash, a percent sign, `?`, `#` or a control byte. -/
theorem safeReturn_iff_of_followed {value : Bytes} {read : List Letter} (hfollowed : Followed value read) :
    SafeReturn value ↔ EscapesHarmless read := by
  obtain ⟨path, hpath⟩ := exists_spell_eq_of_followed hfollowed
  have hreturned := safeOAuthReturnPath_of_followed hfollowed
  have hclean : clean (clean (spell read)) = clean (spell read) := by rw [hpath, GoUrl.clean_clean]
  rw [← harmless_iff hfollowed]
  constructor
  · intro hsafe
    by_cases hfallback : clean (spell read) = fallback
    · rw [hfallback]
      exact harmless_fallback
    · have hbytes := hsafe.bytes
      have hagain := hsafe.again
      rw [hreturned] at hbytes hagain
      exact harmless_of_again hbytes hagain hfallback
  · intro hharmless
    have hagain := safeOAuthReturnPath_of_harmless hfollowed.under hclean hharmless
    have hrooted : ascii "/" <+: clean (spell read) := by
      rw [hpath, GoUrl.clean_rooted]
      exact ⟨_, rfl⟩
    refine ⟨Or.inr ⟨?_, ?_, ?_⟩, ?_, ?_⟩
    · rw [hreturned, hclean]
    · rw [hreturned]
      exact hrooted
    · rw [hreturned]
      exact allowed_iff.mp hfollowed.under
    · rw [hreturned]
      exact not_mem_of_harmless hharmless
    · rw [hreturned, hagain]

/-- The return path for a value is safe exactly if the value is not followed, or the escapes in what
cleaning keeps of its path are harmless. -/
theorem safeReturn_iff (value : Bytes) :
    SafeReturn value ↔ ∀ read, Followed value read → EscapesHarmless read := by
  constructor
  · intro hsafe read hfollowed
    exact (safeReturn_iff_of_followed hfollowed).mp hsafe
  · intro hescapes
    by_cases hfallback : safeOAuthReturnPath value = fallback
    · exact safeReturn_of_fallback hfallback
    · obtain ⟨read, hfollowed⟩ := followed_of_ne hfallback
      exact (safeReturn_iff_of_followed hfollowed).mpr (hescapes read hfollowed)

/-- An escaped backslash comes back in the return path. -/
theorem not_safeReturn_of_escaped_backslash : ¬ SafeReturn (ascii "/dashboard/%5C") := by
  intro hsafe
  have hreturned : safeOAuthReturnPath (ascii "/dashboard/%5C") = ascii "/dashboard/\\" := by decide
  have hbackslash := hsafe.bytes 92 (by decide)
  rw [hreturned] at hbackslash
  exact hbackslash (by decide)

end Transcendence.Auth
