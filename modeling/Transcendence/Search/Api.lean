import Transcendence.Search.PageParams

/-!
# The search request and its answer

`buildSearchQuery` of `frontend/src/lib/searchApi.ts`, `SearchQueryDto` and the slices that
`SearchService.search` reads, of `backend/src/search/`. The query string is its list of names and
values, which is what `URLSearchParams` holds and what the server reads back; values are Unicode
text from the moment they are put there.

`length` stands for how class-validator counts the characters of a text. It is a parameter: what is
relied on is that a text has no more characters than code units.
-/

namespace Transcendence.Search

open Binary64 JsString

abbrev URLSearchParams :=
  List (String × JsString)

structure SearchParams where
  q : JsString
  type : Option SearchType
  sort : Option SearchSort
  order : Option SearchOrder
  page : Option Number
  status : Option SearchStatusFilter
  includeArchived : Option Bool

def toSearchParams (params : SearchPageParams) : SearchParams where
  q := params.q
  type := some params.type
  sort := some params.sort
  order := some params.order
  page := some params.page
  status := params.status
  includeArchived := some params.includeArchived

def buildSearchQuery (params : SearchParams) : URLSearchParams :=
  ("q", toWellFormed params.q) ::
    (((params.type.filter (· ≠ .all)).map fun type => ("type", type.text)).toList ++
      ((params.sort.filter (· ≠ .name)).map fun sort => ("sort", sort.text)).toList ++
      ((params.order.filter (· ≠ .asc)).map fun order => ("order", order.text)).toList ++
      ((params.page.filter (Number.ofNat 1).lt).map fun page => ("page", numberToString page)).toList ++
      (params.status.map fun status => ("status", status.text)).toList ++
      ((params.includeArchived.filter (· = true)).map fun _ => ("includeArchived", ofString "true")).toList)

/-! ### Validation -/

def SEARCH_DEFAULT_LIMIT : Nat := 10

def SEARCH_MAX_LIMIT : Nat := 50

def SEARCH_PREVIEW_LIMIT : Nat := 5

structure SearchQueryDto where
  q : JsString
  type : Option SearchType
  sort : Option SearchSort
  order : Option SearchOrder
  page : Option Number
  limit : Option Number
  status : Option SearchStatusFilter
  includeArchived : Option Bool

/-- `@IsOptional()`: only a value that is there has to pass. -/
def optional {α : Type} (read : JsString → Option α) : Option JsString → Option (Option α)
  | none => some none
  | some value => (read value).map some

/-- `@IsIn(members)`. -/
def isIn {α : Type} (members : List α) (text : α → JsString) (value : JsString) : Option α :=
  members.find? fun member => text member = value

/-- `@IsInt()` and `@Min(1)` after `@Type(() => Number)`. -/
def positiveInt (value : JsString) : Option Number :=
  (some (stringToNumber value)).filter fun n => n.isInteger && !n.lt (.ofNat 1)

/-- The transform of `includeArchived` and `@IsBoolean()`. -/
def booleanText (value : JsString) : Option Bool :=
  if value = ofString "true" then some true else if value = ofString "false" then some false else none

/-- The transform of `q` and its length. -/
def queryText (length : JsString → Nat) (value : JsString) : Option JsString :=
  (some (trim value)).filter fun q => SEARCH_QUERY_MIN_LENGTH ≤ length q && length q ≤ SEARCH_QUERY_MAX_LENGTH

def searchQueryKeys : List String :=
  ["q", "type", "sort", "order", "page", "limit", "status", "includeArchived"]

/-- What the `ValidationPipe` makes of a query; none is an answer of 400. -/
def SearchQueryDto.validate (length : JsString → Nat) (query : URLSearchParams) : Option SearchQueryDto := do
  guard (query.all fun (key, _) => key ∈ searchQueryKeys)
  let q ← (query.lookup "q").bind (queryText length)
  let type ← optional (isIn [.all, .projects, .tasks, .users] SearchType.text) (query.lookup "type")
  let sort ← optional (isIn [.name, .recent] SearchSort.text) (query.lookup "sort")
  let order ← optional (isIn [.asc, .desc] SearchOrder.text) (query.lookup "order")
  let page ← optional positiveInt (query.lookup "page")
  let limit ← optional (fun value => (positiveInt value).filter fun n => !(Number.ofNat SEARCH_MAX_LIMIT).lt n)
    (query.lookup "limit")
  let status ← optional (isIn [.inProgress, .review, .completed, .todo] SearchStatusFilter.text) (query.lookup "status")
  let includeArchived ← optional booleanText (query.lookup "includeArchived")
  return { q, type, sort, order, page, limit, status, includeArchived }

/-! ### The slices of the service -/

structure Slice where
  skip : Number
  take : Number

/-- `sliceFor`, where none is a type that nothing is fetched of. -/
def sliceFor (query : SearchQueryDto) (candidate : SearchType) : Option Slice :=
  let type := query.type.getD .all
  let page := if type = .all then .ofNat 1 else query.page.getD (.ofNat 1)
  let limit := if type = .all then .ofNat SEARCH_PREVIEW_LIMIT else query.limit.getD (.ofNat SEARCH_DEFAULT_LIMIT)
  if type = .all then some ⟨.ofNat 0, limit⟩
  else if type = candidate then some ⟨(page.sub (.ofNat 1)).mul limit, limit⟩
  else none

/-- The slices of projects, tasks and users. -/
def SearchService.slices (query : SearchQueryDto) : List Slice :=
  [sliceFor query .projects, sliceFor query .tasks, sliceFor query .users].filterMap id

/-- Prisma takes signed integers of 64 bits. -/
def Slice.InRange (slice : Slice) : Prop :=
  slice.skip.IsInt64 ∧ slice.take.IsInt64

/-! ### What the server makes of a resolved state -/

/-- What the server reads from the query of a resolved state. -/
def receivedQuery (params : SearchPageParams) : SearchQueryDto where
  q := toWellFormed params.q
  type := (some params.type).filter (· ≠ .all)
  sort := (some params.sort).filter (· ≠ .name)
  order := (some params.order).filter (· ≠ .asc)
  page := (some params.page).filter (Number.ofNat 1).lt
  limit := none
  status := params.status
  includeArchived := (some params.includeArchived).filter (· = true)

section Received

variable {length : JsString → Nat} {params : SearchPageParams}

theorem positiveInt_numberToString {page : Number} (h : isLaterPage page = true) :
    positiveInt (numberToString page) = some page := by
  obtain ⟨hinteger, hlater⟩ := Bool.and_eq_true_iff.mp h
  cases page with
  | nan => cases hinteger
  | infinite negative => cases hinteger
  | finite x =>
      obtain ⟨one, hone, hvalue⟩ := Number.exists_ofNat (n := 1) (by norm_num)
      rw [hone] at hlater
      replace hlater : one.value < x.value := of_decide_eq_true hlater
      have hpos : 0 < x.value := lt_trans (by rw [hvalue]; norm_num) hlater
      have hlt : Number.lt (.finite x) (.finite one) = false := decide_eq_false hlater.not_gt
      rw [positiveInt, stringToNumber_numberToString hpos]
      apply Option.filter_some_pos
      rw [hone, hlt, hinteger]
      rfl

theorem isIn_filter_text {α : Type} {members : List α} {text : α → JsString}
    (hread : ∀ a, isIn members text (text a) = some a) (value : Option α) (p : α → Bool) :
    optional (isIn members text) ((value.filter p).map text) = some (value.filter p) := by
  cases value.filter p with
  | none => rfl
  | some a => rw [Option.map_some, optional, hread, Option.map_some]

theorem isIn_type (type : SearchType) : isIn [.all, .projects, .tasks, .users] SearchType.text type.text = some type := by
  cases type <;> decide

theorem isIn_sort (sort : SearchSort) : isIn [.name, .recent] SearchSort.text sort.text = some sort := by
  cases sort <;> decide

theorem isIn_order (order : SearchOrder) : isIn [.asc, .desc] SearchOrder.text order.text = some order := by
  cases order <;> decide

theorem isIn_status (status : SearchStatusFilter) :
    isIn [.inProgress, .review, .completed, .todo] SearchStatusFilter.text status.text = some status := by
  cases status <;> decide

theorem lookup_toList {α : Type} (value : Option α) (key key' : String) (text : α → JsString) :
    ((value.map fun a => (key, text a)).toList).lookup key' = if key' = key then value.map text else none := by
  cases value with
  | none => exact (ite_self _).symm
  | some a =>
      rw [Option.map_some, Option.toList_some]
      by_cases h : key' = key
      · rw [h, if_pos rfl, List.lookup_cons_self]
        rfl
      · rw [if_neg h, List.lookup_cons, beq_eq_false_iff_ne.mpr h]
        rfl

theorem lookup_buildSearchQuery (params : SearchParams) (key : String) :
    (buildSearchQuery params).lookup key =
      if key = "q" then some (toWellFormed params.q)
      else if key = "type" then (params.type.filter (· ≠ .all)).map SearchType.text
      else if key = "sort" then (params.sort.filter (· ≠ .name)).map SearchSort.text
      else if key = "order" then (params.order.filter (· ≠ .asc)).map SearchOrder.text
      else if key = "page" then (params.page.filter (Number.ofNat 1).lt).map numberToString
      else if key = "status" then params.status.map SearchStatusFilter.text
      else if key = "includeArchived" then (params.includeArchived.filter (· = true)).map fun _ => ofString "true"
      else none := by
  by_cases hq : key = "q"
  · rw [hq, if_pos rfl, buildSearchQuery, List.lookup_cons_self]
  · rw [if_neg hq, buildSearchQuery, List.lookup_cons, beq_eq_false_iff_ne.mpr hq]
    simp only [List.lookup_append, lookup_toList]
    split_ifs <;> simp_all

theorem all_keys_buildSearchQuery (params : SearchParams) :
    ((buildSearchQuery params).all fun (key, _) => key ∈ searchQueryKeys) = true := by
  have hkey : ∀ {α : Type} (value : Option α) (key : String) (text : α → JsString), key ∈ searchQueryKeys →
      ((value.map fun a => (key, text a)).toList.all fun (key, _) => decide (key ∈ searchQueryKeys)) = true := by
    intro α value key text h
    cases value with
    | none => rfl
    | some a => simp [h]
  simp only [buildSearchQuery, List.all_cons, List.all_append, Bool.and_eq_true]
  refine ⟨rfl, ⟨⟨⟨⟨hkey _ _ _ ?_, hkey _ _ _ ?_⟩, hkey _ _ _ ?_⟩, hkey _ _ _ ?_⟩, hkey _ _ _ ?_⟩, hkey _ _ _ ?_⟩ <;>
    decide

theorem queryText_of_trim {q : JsString} (h : trim q = q) :
    queryText length q = if SEARCH_QUERY_MIN_LENGTH ≤ length q ∧ length q ≤ SEARCH_QUERY_MAX_LENGTH then some q else none := by
  rw [queryText, h]
  split_ifs with hlength
  · exact Option.filter_some_pos (by simpa using hlength)
  · exact Option.filter_some_neg (by simpa using hlength)

/-- The server takes the query of a resolved state, as long as it counts enough characters in it. -/
theorem validate_buildSearchQuery (hq : trim params.q = params.q)
    (hpage : (Number.ofNat 1).lt params.page = true → isLaterPage params.page = true) :
    SearchQueryDto.validate length (buildSearchQuery (toSearchParams params)) =
      if SEARCH_QUERY_MIN_LENGTH ≤ length (toWellFormed params.q) ∧
          length (toWellFormed params.q) ≤ SEARCH_QUERY_MAX_LENGTH then
        some (receivedQuery params)
      else none := by
  have hguard : guard (f := Option) ((buildSearchQuery (toSearchParams params)).all fun (key, _) => key ∈ searchQueryKeys) =
      some () := by
    rw [all_keys_buildSearchQuery]
    rfl
  have hreadPage : optional positiveInt (((some params.page).filter (Number.ofNat 1).lt).map numberToString) =
      some ((some params.page).filter (Number.ofNat 1).lt) := by
    cases hlt : (Number.ofNat 1).lt params.page with
    | false => rw [Option.filter_some_neg (by simp [hlt])]; rfl
    | true =>
        rw [Option.filter_some_pos hlt, Option.map_some, optional, positiveInt_numberToString (hpage hlt), Option.map_some]
  have hstatus : optional (isIn [.inProgress, .review, .completed, .todo] SearchStatusFilter.text)
      (params.status.map SearchStatusFilter.text) = some params.status := by
    cases params.status with
    | none => rfl
    | some status => rw [Option.map_some, optional, isIn_status, Option.map_some]
  have harchived : optional booleanText (((some params.includeArchived).filter (· = true)).map fun _ => ofString "true") =
      some ((some params.includeArchived).filter (· = true)) := by
    cases params.includeArchived <;> decide
  rw [SearchQueryDto.validate, hguard]
  simp only [lookup_buildSearchQuery, toSearchParams, String.reduceEq, if_true, if_false, Option.bind_eq_bind, Option.bind_some,
    queryText_of_trim (trim_toWellFormed hq), isIn_filter_text isIn_type, isIn_filter_text isIn_sort,
    isIn_filter_text isIn_order, hreadPage, hstatus, harchived]
  split_ifs
  · rfl
  · rfl

end Received

/-! ### Pages within reach -/

/-- The last page whose rows have a place that fits in 64 bits. -/
def lastPage : ℚ := 922337203685477504

section Pages

variable {page : Double}

/-- Doubles this large are multiples of 128. -/
theorem next_le_of_lastPage_lt (h : lastPage < page.value) : 922337203685477632 ≤ page.value := by
  rw [lastPage] at h
  obtain ⟨m, hm⟩ := exists_mul_two_pow (k := 7) page.exact (le_trans (by norm_num) h.le)
  rw [hm] at h ⊢
  have hlt : (7205759403792793 : ℚ) < m := by linarith
  have hle : (7205759403792794 : ℤ) ≤ m := by
    have : (7205759403792793 : ℤ) < m := by exact_mod_cast hlt
    omega
  have : (7205759403792794 : ℚ) ≤ m := by exact_mod_cast hle
  linarith

/-- Where the ten rows of a page begin, in doubles: in range up to `lastPage`, and out of range from
the double after it on, which is 128 pages later. -/
theorem isInt64_skip_iff (hinteger : (Number.finite page).isInteger = true) (hone : 1 ≤ page.value) :
    (((Number.finite page).sub (.ofNat 1)).mul (.ofNat SEARCH_DEFAULT_LIMIT)).IsInt64 ↔ page.value ≤ lastPage := by
  obtain ⟨n, hn⟩ := Number.isInteger_finite_iff.mp hinteger
  obtain ⟨one, hofNat, honeValue⟩ := Number.exists_ofNat (n := 1) (by norm_num)
  obtain ⟨ten, hten, htenValue⟩ := Number.exists_ofNat (n := SEARCH_DEFAULT_LIMIT) (by decide)
  obtain ⟨before, hbefore, hbeforeValue⟩ :=
    Number.exists_ofRat_of_le (x := page) (y := page.value - 1) (by linarith) (by linarith)
  have hskip : ((Number.finite page).sub (.ofNat 1)).mul (.ofNat SEARCH_DEFAULT_LIMIT) = .ofRat (before.value * 10) := by
    rw [hofNat, hten, Number.sub, honeValue, Nat.cast_one, hbefore, Number.mul, htenValue]
    rfl
  have hnonneg : 0 ≤ before.value := by
    rw [hbeforeValue]
    exact nearest_nonneg (by linarith)
  rw [hskip, Number.isInt64_ofRat_iff]
  constructor
  · intro ⟨m, hm, _, hupper⟩
    by_contra hgt
    have hnext := next_le_of_lastPage_lt (not_le.mp hgt)
    have hbeforeNext : (922337203685477632 : ℚ) ≤ before.value := by
      rw [hbeforeValue]
      calc (922337203685477632 : ℚ) = nearest 922337203685477631 := by decide +kernel
        _ ≤ nearest (page.value - 1) := nearest_mono (by norm_num) (by linarith)
    have hover : (2 ^ 63 : ℚ) ≤ nearest (before.value * 10) := by
      calc (2 ^ 63 : ℚ) = nearest 9223372036854776320 := by decide +kernel
        _ ≤ nearest (before.value * 10) := nearest_mono (by norm_num) (by linarith)
    rw [hm] at hover
    have : (2 ^ 63 : ℤ) ≤ m := by exact_mod_cast hover
    omega
  · intro hle
    have hbeforeLe : before.value ≤ 922337203685477504 := by
      rw [hbeforeValue]
      calc nearest (page.value - 1) ≤ nearest 922337203685477504 :=
            nearest_mono (by linarith) (by rw [lastPage] at hle; linarith)
        _ = 922337203685477504 := by decide +kernel
    have hfits : nearest (before.value * 10) ≤ 9223372036854774784 := by
      calc nearest (before.value * 10) ≤ nearest 9223372036854775040 := nearest_mono (by linarith) (by linarith)
        _ = 9223372036854774784 := by decide +kernel
    obtain ⟨k, hk⟩ : ∃ k : ℤ, before.value = k := by
      obtain ⟨k, hk⟩ := exists_nearest_eq_intCast (n - 1)
      refine ⟨k, ?_⟩
      rw [hbeforeValue, hn, ← hk]
      push_cast
      rfl
    obtain ⟨m, hm⟩ := exists_nearest_eq_intCast (k * 10)
    have hsame : nearest (before.value * 10) = m := by
      rw [hk, ← hm]
      push_cast
      rfl
    refine ⟨m, hsame, ?_, ?_⟩
    · have : (0 : ℚ) ≤ m := hsame ▸ nearest_nonneg (by linarith)
      have : (0 : ℤ) ≤ m := by exact_mod_cast this
      omega
    · rw [hsame] at hfits
      have : m ≤ (9223372036854774784 : ℤ) := by exact_mod_cast hfits
      omega

theorem sliceFor_receivedQuery {params : SearchPageParams}
    (hpage : (Number.ofNat 1).lt params.page = true ∨ params.page = .ofNat 1) (candidate : SearchType) :
    sliceFor (receivedQuery params) candidate =
      if params.type = .all then some ⟨.ofNat 0, .ofNat SEARCH_PREVIEW_LIMIT⟩
      else if params.type = candidate then
        some ⟨(params.page.sub (.ofNat 1)).mul (.ofNat SEARCH_DEFAULT_LIMIT), .ofNat SEARCH_DEFAULT_LIMIT⟩
      else none := by
  have htype : (receivedQuery params).type.getD .all = params.type := by
    rw [receivedQuery]
    cases params.type <;> rfl
  have hread : (receivedQuery params).page.getD (.ofNat 1) = params.page := by
    show ((some params.page).filter (Number.ofNat 1).lt).getD (.ofNat 1) = params.page
    rcases hpage with hlt | hone
    · rw [Option.filter_some_pos hlt, Option.getD_some]
    · rw [hone, Option.filter_some]
      split_ifs <;> rfl
  have hlimit : (receivedQuery params).limit.getD (.ofNat SEARCH_DEFAULT_LIMIT) = .ofNat SEARCH_DEFAULT_LIMIT := rfl
  rw [sliceFor, htype, hread, hlimit]
  split_ifs <;> rfl

theorem inRange_slices_iff {params : SearchPageParams}
    (hpage : (Number.ofNat 1).lt params.page = true ∨ params.page = .ofNat 1) :
    (∀ slice ∈ SearchService.slices (receivedQuery params), slice.InRange) ↔
      params.type = .all ∨ ((params.page.sub (.ofNat 1)).mul (.ofNat SEARCH_DEFAULT_LIMIT)).IsInt64 := by
  have hlimit : (Number.ofNat SEARCH_DEFAULT_LIMIT).IsInt64 := Number.isInt64_ofNat (by decide)
  have hpreview : (Number.ofNat SEARCH_PREVIEW_LIMIT).IsInt64 := Number.isInt64_ofNat (by decide)
  have hzero : (Number.ofNat 0).IsInt64 := Number.isInt64_ofNat (by decide)
  simp only [SearchService.slices, sliceFor_receivedQuery hpage]
  cases params.type <;> simp [Slice.InRange, hzero, hpreview, hlimit]

end Pages

end Transcendence.Search
