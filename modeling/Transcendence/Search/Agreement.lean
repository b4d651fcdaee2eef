import Transcendence.Search.Api

/-!
# The search page and the search API agree

Reading the address gives a trimmed term of bounded length, reading again changes nothing, and links
lead where they say. What is asked of the request that follows holds with three exceptions.

* A page that is an object with a field named `toString` has no text, and reading it throws.
* class-validator counts characters where the page counts code units, so a term of one emoji passes
  the minimum of the page and not that of the server.
* Nothing bounds the page from above, and past `lastPage` its first row has no place in 64 bits.
-/

namespace Transcendence.Search

open Binary64 JsString

variable {length : JsString → Nat} {raw : RawSearch} {search : SearchPageSearch}

/-- What is asked of a search that was read from an address. -/
structure SearchPageSearch.Agrees (length : JsString → Nat) (search : SearchPageSearch) : Prop where
  idempotent : parseSearchPageSearch search.toRaw = some search
  trimmed : trim search.q = search.q
  length_le : search.q.length ≤ SEARCH_QUERY_MAX_LENGTH
  accepted : SEARCH_QUERY_MIN_LENGTH ≤ search.q.length →
    ∃ query, SearchQueryDto.validate length (buildSearchQuery (toSearchParams (resolveSearchPageParams search))) = some query ∧
      ∀ slice ∈ SearchService.slices query, slice.InRange

def Agrees (length : JsString → Nat) (raw : RawSearch) : Prop :=
  ∃ search, parseSearchPageSearch raw = some search ∧ search.Agrees length

/-- A term as far as it is searched for. -/
def termOf (s : JsString) : JsString :=
  trimEnd ((trim s).take SEARCH_QUERY_MAX_LENGTH)

/-- A record without the three exceptions. -/
structure Ordinary (length : JsString → Nat) (raw : RawSearch) : Prop where
  printable : ∀ value, raw "page" = some value → ¬value.Unprintable
  counted : ∀ s, raw "q" = some (.str s) → SEARCH_QUERY_MIN_LENGTH ≤ (termOf s).length →
    SEARCH_QUERY_MIN_LENGTH ≤ length (toWellFormed (termOf s))
  reachable : ∀ s, raw "q" = some (.str s) → SEARCH_QUERY_MIN_LENGTH ≤ (termOf s).length →
    ∀ type : SearchType, raw "type" = some (.str type.text) → type ≠ .all →
      ∀ page, readPage (raw "page") = some (.finite page) → page.value ≤ lastPage

/-! ### The page of a resolved state -/

theorem isLaterPage_of_lastPage_lt {page : Double} (h : lastPage < page.value) : isLaterPage (.finite page) = true := by
  obtain ⟨one, hone, hvalue⟩ := Number.exists_ofNat (n := 1) (by norm_num)
  have hnext := next_le_of_lastPage_lt h
  obtain ⟨m, hm⟩ := exists_mul_two_pow (k := 0) page.exact (le_trans (by norm_num) hnext)
  rw [isLaterPage, hone, Bool.and_eq_true]
  refine ⟨Number.isInteger_finite_iff.mpr ⟨m, by rw [hm, pow_zero, mul_one]⟩, decide_eq_true ?_⟩
  rw [hvalue, Nat.cast_one]
  linarith

/-- The page of a resolved state is a whole number from 1 on, and from 2 on the search names it. -/
theorem exists_page (h : search.Normal) :
    ∃ page : Double, (resolveSearchPageParams search).page = .finite page ∧ (Number.finite page).isInteger = true ∧
      1 ≤ page.value ∧ (page.value ≤ 1 ∨ search.page = some (.finite page)) := by
  obtain ⟨one, hone, hvalue⟩ := Number.exists_ofNat (n := 1) (by norm_num)
  rw [resolveSearchPageParams]
  cases hpage : search.page with
  | none =>
      refine ⟨one, hone, Number.isInteger_finite_iff.mpr ⟨1, ?_⟩, ?_, Or.inl ?_⟩ <;> rw [hvalue] <;> norm_num
  | some page =>
      obtain ⟨hinteger, hlater⟩ := Bool.and_eq_true_iff.mp (h.page page hpage)
      cases page with
      | nan => cases hinteger
      | infinite negative => cases hinteger
      | finite page =>
          rw [hone] at hlater
          replace hlater : one.value < page.value := of_decide_eq_true hlater
          rw [hvalue, Nat.cast_one] at hlater
          exact ⟨page, rfl, hinteger, hlater.le, Or.inr rfl⟩

theorem lt_page_iff {page : Double} : (Number.ofNat 1).lt (.finite page) = true ↔ 1 < page.value := by
  obtain ⟨one, hone, hvalue⟩ := Number.exists_ofNat (n := 1) (by norm_num)
  rw [hone, Number.lt, decide_eq_true_eq, hvalue, Nat.cast_one]

/-! ### The request of a search -/

/-- What the server makes of a search that was read from an address. -/
theorem accepted_iff (hlength : ∀ s, length s ≤ s.length) (h : search.Normal) :
    (∃ query, SearchQueryDto.validate length (buildSearchQuery (toSearchParams (resolveSearchPageParams search))) = some query ∧
        ∀ slice ∈ SearchService.slices query, slice.InRange) ↔
      SEARCH_QUERY_MIN_LENGTH ≤ length (toWellFormed search.q) ∧
        (search.type.getD .all = .all ∨ ∀ page, search.page = some (.finite page) → page.value ≤ lastPage) := by
  obtain ⟨page, hpage, hinteger, hone, hnamed⟩ := exists_page h
  have hlater : (Number.ofNat 1).lt (resolveSearchPageParams search).page = true →
      isLaterPage (resolveSearchPageParams search).page = true := by
    intro hlt
    rw [hpage] at hlt ⊢
    exact Bool.and_eq_true_iff.mpr ⟨hinteger, hlt⟩
  have hfirst : (Number.ofNat 1).lt (resolveSearchPageParams search).page = true ∨
      (resolveSearchPageParams search).page = .ofNat 1 := by
    rcases hone.lt_or_eq with hlt | heq
    · rw [hpage]
      exact Or.inl (lt_page_iff.mpr hlt)
    · obtain ⟨one, hofNat, hvalue⟩ := Number.exists_ofNat (n := 1) (by norm_num)
      rw [hpage, hofNat]
      apply Or.inr
      congr 1
      ext
      rw [hvalue, Nat.cast_one, heq]
  have hmax : length (toWellFormed search.q) ≤ SEARCH_QUERY_MAX_LENGTH :=
    (hlength _).trans ((length_toWellFormed search.q).le.trans h.length_le)
  have hreach : page.value ≤ lastPage ↔ ∀ page, search.page = some (.finite page) → page.value ≤ lastPage := by
    constructor
    · intro hle page' hpage'
      rw [resolveSearchPageParams, hpage', Option.getD_some] at hpage
      cases hpage
      exact hle
    · intro hall
      rcases hnamed with hle | hnamed
      · exact hle.trans (by norm_num [lastPage])
      · exact hall page hnamed
  rw [validate_buildSearchQuery h.trimmed hlater]
  have hq : (resolveSearchPageParams search).q = search.q := rfl
  have htype : (resolveSearchPageParams search).type = search.type.getD .all := rfl
  rw [hq]
  by_cases hcounted : SEARCH_QUERY_MIN_LENGTH ≤ length (toWellFormed search.q) ∧
      length (toWellFormed search.q) ≤ SEARCH_QUERY_MAX_LENGTH
  · have hslices := inRange_slices_iff hfirst
    rw [hpage, isInt64_skip_iff hinteger hone, hreach, htype] at hslices
    rw [if_pos hcounted, ← hslices]
    constructor
    · intro h
      obtain ⟨query, hquery, hrange⟩ := h
      obtain rfl := Option.some.inj hquery
      exact ⟨hcounted.1, hrange⟩
    · intro h
      exact ⟨receivedQuery (resolveSearchPageParams search), rfl, h.2⟩
  · rw [if_neg hcounted]
    constructor
    · intro h
      obtain ⟨query, hquery, _⟩ := h
      cases hquery
    · intro h
      exact absurd ⟨h.1, hmax⟩ hcounted

theorem type_getD_ne_all_iff {value : Option Json} :
    (isSearchType value).getD .all ≠ .all ↔ ∃ type : SearchType, value = some (.str type.text) ∧ type ≠ .all := by
  constructor
  · intro h
    cases htype : isSearchType value with
    | none =>
        rw [htype] at h
        exact absurd rfl h
    | some type =>
        rw [htype] at h
        refine ⟨type, ?_, h⟩
        unfold isSearchType literalOf at htype
        split at htype
        · have htext := List.find?_some htype
          rw [decide_eq_true_eq] at htext
          rw [htext]
        · cases htype
  · intro ⟨type, hvalue, hne⟩
    rw [hvalue]
    have hread := isSearchType_text (some type)
    rw [Option.map_some] at hread
    rw [hread]
    exact hne

theorem q_eq_termOf (h : parseSearchPageSearch raw = some search) :
    (∃ s, raw "q" = some (.str s) ∧ search.q = termOf s) ∨ search.q = [] := by
  obtain ⟨page, _, rfl⟩ := Option.map_eq_some_iff.mp h
  show (∃ s, raw "q" = some (.str s) ∧ parseQuery (raw "q") = termOf s) ∨ parseQuery (raw "q") = []
  unfold parseQuery
  split
  · rename_i s hs
    exact Or.inl ⟨s, hs, rfl⟩
  · exact Or.inr rfl

/-- The page of a search comes from what the record holds, and no page past `lastPage` is passed over. -/
theorem page_le_iff (h : parseSearchPageSearch raw = some search) :
    (∀ page, search.page = some (.finite page) → page.value ≤ lastPage) ↔
      ∀ page, readPage (raw "page") = some (.finite page) → page.value ≤ lastPage := by
  obtain ⟨named, hnamed, rfl⟩ := Option.map_eq_some_iff.mp h
  constructor
  · intro hall page hread
    by_contra hgt
    have hlater := isLaterPage_of_lastPage_lt (not_le.mp hgt)
    rw [parsePage, hread, Option.map_some, if_pos hlater] at hnamed
    cases hnamed
    exact hgt (hall page rfl)
  · intro hall page hpage
    replace hpage : named = some (.finite page) := hpage
    rw [hpage] at hnamed
    exact hall page (isLaterPage_of_parsePage hnamed).1

/-- Agreement on one record. -/
theorem agrees_iff (hlength : ∀ s, length s ≤ s.length) : Agrees length raw ↔ Ordinary length raw := by
  constructor
  · intro ⟨search, hsearch, hagrees⟩
    have haccepted : ∀ s, raw "q" = some (.str s) → SEARCH_QUERY_MIN_LENGTH ≤ (termOf s).length →
        SEARCH_QUERY_MIN_LENGTH ≤ length (toWellFormed (termOf s)) ∧
          (search.type.getD .all = .all ∨ ∀ page, search.page = some (.finite page) → page.value ≤ lastPage) := by
      intro s hs hlong
      have hq : search.q = termOf s := by
        rcases q_eq_termOf hsearch with ⟨s', hs', hq⟩ | hnil
        · rw [hs] at hs'
          cases hs'
          exact hq
        · obtain ⟨page, _, rfl⟩ := Option.map_eq_some_iff.mp hsearch
          show parseQuery (raw "q") = termOf s
          rw [hs]
          rfl
      rw [← hq] at hlong ⊢
      exact (accepted_iff hlength (parseSearchPageSearch_normal hsearch)).mp (hagrees.accepted hlong)
    refine ⟨?_, fun s hs hlong => (haccepted s hs hlong).1, ?_⟩
    · intro value hvalue hunprintable
      rw [parseSearchPageSearch_eq_none_iff.mpr ⟨value, hvalue, hunprintable⟩] at hsearch
      cases hsearch
    · intro s hs hlong type htype hne
      rw [← page_le_iff hsearch]
      have htype' : search.type.getD .all ≠ .all := by
        obtain ⟨page, _, rfl⟩ := Option.map_eq_some_iff.mp hsearch
        exact type_getD_ne_all_iff.mpr ⟨type, htype, hne⟩
      exact (haccepted s hs hlong).2.resolve_left htype'
  · intro h
    cases hsearch : parseSearchPageSearch raw with
    | none =>
        obtain ⟨value, hvalue, hunprintable⟩ := parseSearchPageSearch_eq_none_iff.mp hsearch
        exact absurd hunprintable (h.printable value hvalue)
    | some search =>
        have hnormal := parseSearchPageSearch_normal hsearch
        refine ⟨search, hsearch, parseSearchPageSearch_toRaw hnormal, hnormal.trimmed, hnormal.length_le, fun hlong => ?_⟩
        rw [accepted_iff hlength hnormal]
        rcases q_eq_termOf hsearch with ⟨s, hs, hq⟩ | hnil
        · rw [hq] at hlong ⊢
          refine ⟨h.counted s hs hlong, ?_⟩
          by_cases htype : search.type.getD .all = .all
          · exact Or.inl htype
          · obtain ⟨type, htype', hne⟩ : ∃ type : SearchType, raw "type" = some (.str type.text) ∧ type ≠ .all := by
              obtain ⟨page, _, rfl⟩ := Option.map_eq_some_iff.mp hsearch
              exact type_getD_ne_all_iff.mp htype
            exact Or.inr ((page_le_iff hsearch).mpr (h.reachable s hs hlong type htype' hne))
        · rw [hnil] at hlong
          exact absurd hlong (by decide)

/-- The page and the API agree on a record if and only if it is ordinary, and links always lead where they say. -/
theorem search_agrees_iff (hlength : ∀ s, length s ≤ s.length) :
    (∀ raw, Agrees length raw ↔ Ordinary length raw) ∧
      ∀ (current : SearchPageSearch) (patch : SearchPagePatch), current.IsParsed → patch.IsParsed →
        (parseSearchPageSearch (nextSearchParams current patch).toRaw).map resolveSearchPageParams =
          some ((resolveSearchPageParams current).overriddenBy patch) :=
  ⟨fun _ => agrees_iff hlength, fun _ _ => parse_nextSearchParams⟩

def isVariationSelector (u : UInt16) : Bool := u = 0xFE0E || u = 0xFE0F

/-- How validator.js counts: a surrogate pair is one character, and a variation selector is none behind
another character. -/
def characters : JsString → Nat
  | [] => 0
  | [_] => 1
  | u :: v :: rest =>
      characters (v :: rest) +
        if (isHighSurrogate u && isLowSurrogate v) || (isVariationSelector v && !isVariationSelector u) then 0 else 1

theorem characters_le (s : JsString) : characters s ≤ s.length := by
  fun_induction characters s with
  | case1 => exact Nat.zero_le _
  | case2 u => exact Nat.le_refl _
  | case3 u v rest ih =>
      rw [List.length_cons]
      split_ifs <;> omega

theorem search_agrees_iff_of_characters :
    (∀ raw, Agrees characters raw ↔ Ordinary characters raw) ∧
      ∀ (current : SearchPageSearch) (patch : SearchPagePatch), current.IsParsed → patch.IsParsed →
        (parseSearchPageSearch (nextSearchParams current patch).toRaw).map resolveSearchPageParams =
          some ((resolveSearchPageParams current).overriddenBy patch) :=
  search_agrees_iff characters_le

/-! ### The three exceptions -/

/-- `?q=ab&page={"toString":null}` -/
def ownToString : RawSearch
  | "q" => some (.str (ofString "ab"))
  | "page" => some (.obj [(ofString "toString", .null)])
  | _ => none

/-- `?q=😀` -/
def oneEmoji : RawSearch
  | "q" => some (.str [0xD83D, 0xDE00])
  | _ => none

/-- `?q=ab&type=users&page=922337203685477632` -/
def farPage : RawSearch
  | "q" => some (.str (ofString "ab"))
  | "type" => some (.str (ofString "users"))
  | "page" => some (.num (.ofNat 922337203685477632))
  | _ => none

theorem not_agrees_of_exceptions :
    ¬Agrees characters ownToString ∧ ¬Agrees characters oneEmoji ∧ ¬Agrees characters farPage := by
  refine ⟨?_, ?_, ?_⟩ <;> rw [agrees_iff characters_le]
  · intro h
    exact h.printable _ rfl (.obj (List.mem_singleton_self _))
  · intro h
    exact absurd (h.counted _ rfl (by decide)) (by decide)
  · intro h
    have hbounded : |(922337203685477632 : ℚ)| < 2 ^ 1024 :=
      calc |(922337203685477632 : ℚ)| < 2 ^ 60 := by norm_num
        _ ≤ 2 ^ 1024 := pow_le_pow_right₀ (by norm_num) (by norm_num)
    have hexact : nearest 922337203685477632 = 922337203685477632 := by decide +kernel
    have hfar : Number.ofNat 922337203685477632 = .finite ⟨922337203685477632, hexact, hbounded⟩ :=
      Number.ofRat_eq_finite_iff.mpr hexact
    have hle := h.reachable _ rfl (by decide) .users rfl nofun _ (congrArg some hfar)
    norm_num [lastPage] at hle

end Transcendence.Search
