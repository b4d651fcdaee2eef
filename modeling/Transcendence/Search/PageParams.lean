import Transcendence.Base.JsValues

/-!
# The address of the search page

`frontend/src/lib/searchPageParams.ts`: what the route makes of the search record in the address
bar, the defaults that it leaves out, and the record that a link writes. The record comes from JSON,
so any key may hold any value of that kind.

The guards of `searchApi.ts` that read one value of a union are `literalOf` at that union's values.
-/

namespace Transcendence.Search

open Binary64 JsString

/-- `Record<string, unknown>`, where none is a key that is absent. -/
abbrev RawSearch :=
  String → Option Json

inductive SearchType where
  | all
  | projects
  | tasks
  | users
  deriving DecidableEq, Repr

inductive SearchSort where
  | name
  | recent
  deriving DecidableEq, Repr

inductive SearchOrder where
  | asc
  | desc
  deriving DecidableEq, Repr

/-- `ProjectStatus | TaskStatus`. -/
inductive SearchStatusFilter where
  | inProgress
  | review
  | completed
  | todo
  deriving DecidableEq, Repr

def SearchType.text : SearchType → JsString
  | .all => ofString "all"
  | .projects => ofString "projects"
  | .tasks => ofString "tasks"
  | .users => ofString "users"

def SearchSort.text : SearchSort → JsString
  | .name => ofString "name"
  | .recent => ofString "recent"

def SearchOrder.text : SearchOrder → JsString
  | .asc => ofString "asc"
  | .desc => ofString "desc"

def SearchStatusFilter.text : SearchStatusFilter → JsString
  | .inProgress => ofString "IN_PROGRESS"
  | .review => ofString "REVIEW"
  | .completed => ofString "COMPLETED"
  | .todo => ofString "TODO"

def SEARCH_QUERY_MIN_LENGTH : Nat := 2

def SEARCH_QUERY_MAX_LENGTH : Nat := 100

/-! ### Reading the record -/

/-- The member of a union of string literals that a value is. -/
def literalOf {α : Type} (members : List α) (text : α → JsString) : Option Json → Option α
  | some (.str s) => members.find? fun member => text member = s
  | _ => none

def isSearchType : Option Json → Option SearchType :=
  literalOf [.all, .projects, .tasks, .users] SearchType.text

def isSearchSort : Option Json → Option SearchSort :=
  literalOf [.name, .recent] SearchSort.text

def isSearchOrder : Option Json → Option SearchOrder :=
  literalOf [.asc, .desc] SearchOrder.text

def isSearchStatusFilter : Option Json → Option SearchStatusFilter :=
  literalOf [.inProgress, .review, .completed, .todo] SearchStatusFilter.text

structure SearchPageSearch where
  q : JsString
  type : Option SearchType
  sort : Option SearchSort
  order : Option SearchOrder
  page : Option Number
  status : Option SearchStatusFilter
  includeArchived : Option Bool

def parseQuery : Option Json → JsString
  | some (.str s) => trimEnd ((trim s).take SEARCH_QUERY_MAX_LENGTH)
  | _ => []

/-- What `parsePage` reads: a number as it is, anything else by the digits that its text begins with. -/
def readPage : Option Json → Option Number
  | none => some (parseInt (ofString "undefined"))
  | some (.num n) => some n
  | some value => value.toJsString.map parseInt

/-- Whether a number is a page that an address names; page 1 goes without saying. -/
def isLaterPage (page : Number) : Bool :=
  page.isInteger && (Number.ofNat 1).lt page

/-- The outer none is a throw. -/
def parsePage (value : Option Json) : Option (Option Number) :=
  (readPage value).map fun page => if isLaterPage page then some page else none

def parseIncludeArchived : Option Json → Option Bool
  | some (.bool b) => if b then some true else none
  | some (.str s) => if s = ofString "true" then some true else none
  | _ => none

def parseSearchPageSearch (raw : RawSearch) : Option SearchPageSearch :=
  (parsePage (raw "page")).map fun page =>
    { q := parseQuery (raw "q")
      type := isSearchType (raw "type")
      sort := isSearchSort (raw "sort")
      order := isSearchOrder (raw "order")
      page
      status := isSearchStatusFilter (raw "status")
      includeArchived := parseIncludeArchived (raw "includeArchived") }

/-- The record that a search is. -/
def SearchPageSearch.toRaw (search : SearchPageSearch) : RawSearch
  | "q" => some (.str search.q)
  | "type" => search.type.map fun type => .str type.text
  | "sort" => search.sort.map fun sort => .str sort.text
  | "order" => search.order.map fun order => .str order.text
  | "page" => search.page.map .num
  | "status" => search.status.map fun status => .str status.text
  | "includeArchived" => search.includeArchived.map .bool
  | _ => none

/-! ### Defaults and links -/

structure SearchPageParams where
  q : JsString
  type : SearchType
  sort : SearchSort
  order : SearchOrder
  page : Number
  status : Option SearchStatusFilter
  includeArchived : Bool

def resolveSearchPageParams (search : SearchPageSearch) : SearchPageParams where
  q := search.q
  type := search.type.getD .all
  sort := search.sort.getD .name
  order := search.order.getD .asc
  page := search.page.getD (.ofNat 1)
  status := search.status
  includeArchived := search.includeArchived.getD false

/-- `Partial<SearchPageSearch>`: a key may be absent, or there without a value. -/
structure SearchPagePatch where
  q : Option JsString
  type : Option (Option SearchType)
  sort : Option (Option SearchSort)
  order : Option (Option SearchOrder)
  page : Option (Option Number)
  status : Option (Option SearchStatusFilter)
  includeArchived : Option (Option Bool)

def nextSearchParams (current : SearchPageSearch) (patch : SearchPagePatch) : SearchPageSearch :=
  let type := patch.type.getD current.type
  let sort := patch.sort.getD current.sort
  let order := patch.order.getD current.order
  { q := patch.q.getD current.q
    type := if type = some .all then none else type
    sort := if sort = some .name then none else sort
    order := if order = some .asc then none else order
    page := patch.page.join.filter (Number.ofNat 1).lt
    status := patch.status.getD current.status
    includeArchived := if patch.includeArchived.getD current.includeArchived = some true then some true else none }

/-! ### What a search holds -/

theorem isSearchType_text (type : Option SearchType) : isSearchType (type.map fun type => .str type.text) = type := by
  cases type with
  | none => rfl
  | some type => cases type <;> decide

theorem isSearchSort_text (sort : Option SearchSort) : isSearchSort (sort.map fun sort => .str sort.text) = sort := by
  cases sort with
  | none => rfl
  | some sort => cases sort <;> decide

theorem isSearchOrder_text (order : Option SearchOrder) :
    isSearchOrder (order.map fun order => .str order.text) = order := by
  cases order with
  | none => rfl
  | some order => cases order <;> decide

theorem isSearchStatusFilter_text (status : Option SearchStatusFilter) :
    isSearchStatusFilter (status.map fun status => .str status.text) = status := by
  cases status with
  | none => rfl
  | some status => cases status <;> decide

/-- What reading a record leaves of it. -/
structure SearchPageSearch.Normal (search : SearchPageSearch) : Prop where
  trimmed : trim search.q = search.q
  length_le : search.q.length ≤ SEARCH_QUERY_MAX_LENGTH
  page : ∀ page ∈ search.page, isLaterPage page = true
  includeArchived : search.includeArchived ≠ some false

theorem trim_parseQuery (value : Option Json) : trim (parseQuery value) = parseQuery value := by
  unfold parseQuery
  split
  · exact trim_trimEnd_take _ _
  · rfl

theorem length_parseQuery_le (value : Option Json) : (parseQuery value).length ≤ SEARCH_QUERY_MAX_LENGTH := by
  unfold parseQuery
  split
  · calc (trimEnd _).length ≤ (List.take SEARCH_QUERY_MAX_LENGTH (trim _)).length := (trimEnd_isPrefix _).length_le
      _ ≤ SEARCH_QUERY_MAX_LENGTH := List.length_take_le ..
  · exact Nat.zero_le _

theorem parseQuery_str {q : JsString} (htrimmed : trim q = q) (hlength : q.length ≤ SEARCH_QUERY_MAX_LENGTH) :
    parseQuery (some (.str q)) = q := by
  rw [parseQuery, htrimmed, List.take_of_length_le hlength]
  exact (trim_eq_self_iff.mp htrimmed).2

theorem isLaterPage_of_parsePage {value : Option Json} {page : Number} (h : parsePage value = some (some page)) :
    readPage value = some page ∧ isLaterPage page = true := by
  obtain ⟨read, hread, hpage⟩ := Option.map_eq_some_iff.mp h
  split_ifs at hpage with hlater
  · cases hpage
    exact ⟨hread, hlater⟩

theorem parsePage_num {page : Option Number} (h : ∀ p ∈ page, isLaterPage p = true) :
    parsePage (page.map .num) = some page := by
  cases page with
  | none => decide +kernel
  | some p => rw [Option.map_some, parsePage, readPage, Option.map_some, if_pos (h p rfl)]

theorem parseSearchPageSearch_normal {raw : RawSearch} {search : SearchPageSearch}
    (h : parseSearchPageSearch raw = some search) : search.Normal := by
  obtain ⟨page, hpage, rfl⟩ := Option.map_eq_some_iff.mp h
  refine ⟨trim_parseQuery _, length_parseQuery_le _, ?_, ?_⟩
  · intro p (hp : page = some p)
    rw [hp] at hpage
    exact (isLaterPage_of_parsePage hpage).2
  · show parseIncludeArchived (raw "includeArchived") ≠ some false
    unfold parseIncludeArchived
    split
    · split_ifs <;> nofun
    · split_ifs <;> nofun
    · nofun

/-- Reading what reading left changes nothing. -/
theorem parseSearchPageSearch_toRaw {search : SearchPageSearch} (h : search.Normal) :
    parseSearchPageSearch search.toRaw = some search := by
  have hincludeArchived : parseIncludeArchived (search.includeArchived.map .bool) = search.includeArchived := by
    have hfalse := h.includeArchived
    cases hsearch : search.includeArchived with
    | none => rfl
    | some b =>
        cases b with
        | true => rfl
        | false => exact absurd hsearch hfalse
  rw [parseSearchPageSearch]
  show (parsePage (search.page.map .num)).map _ = some search
  rw [parsePage_num h.page, Option.map_some]
  congr 1
  show SearchPageSearch.mk (parseQuery (some (.str search.q))) (isSearchType (search.type.map fun type => .str type.text))
    (isSearchSort (search.sort.map fun sort => .str sort.text))
    (isSearchOrder (search.order.map fun order => .str order.text)) search.page
    (isSearchStatusFilter (search.status.map fun status => .str status.text))
    (parseIncludeArchived (search.includeArchived.map .bool)) = search
  rw [parseQuery_str h.trimmed h.length_le, isSearchType_text, isSearchSort_text, isSearchOrder_text,
    isSearchStatusFilter_text, hincludeArchived]

/-- Reading throws on no value but those that have no text. -/
theorem parseSearchPageSearch_eq_none_iff {raw : RawSearch} :
    parseSearchPageSearch raw = none ↔ ∃ value, raw "page" = some value ∧ value.Unprintable := by
  rw [parseSearchPageSearch, Option.map_eq_none_iff, parsePage, Option.map_eq_none_iff]
  unfold readPage
  split
  · rename_i hnone
    rw [hnone]
    exact iff_of_false nofun nofun
  · rename_i n hnum
    rw [hnum]
    refine iff_of_false nofun fun ⟨value, hvalue, h⟩ => ?_
    cases hvalue
    cases h
  · rename_i value _ hvalue
    rw [hvalue, Option.map_eq_none_iff, Json.toJsString_eq_none_iff]
    constructor
    · intro h
      exact ⟨value, rfl, h⟩
    · intro ⟨_, heq, h⟩
      cases heq
      exact h

/-! ### Links -/

def SearchPageSearch.IsParsed (search : SearchPageSearch) : Prop :=
  ∃ raw, parseSearchPageSearch raw = some search

/-- The keys that a patch names have their values from one search. -/
structure SearchPagePatch.IsFrom (patch : SearchPagePatch) (search : SearchPageSearch) : Prop where
  q : ∀ q ∈ patch.q, q = search.q
  type : ∀ type ∈ patch.type, type = search.type
  sort : ∀ sort ∈ patch.sort, sort = search.sort
  order : ∀ order ∈ patch.order, order = search.order
  page : ∀ page ∈ patch.page, page = search.page
  status : ∀ status ∈ patch.status, status = search.status
  includeArchived : ∀ includeArchived ∈ patch.includeArchived, includeArchived = search.includeArchived

def SearchPagePatch.IsParsed (patch : SearchPagePatch) : Prop :=
  ∃ search : SearchPageSearch, search.IsParsed ∧ patch.IsFrom search

/-- What a link should lead to: the keys of the patch in place of the current ones, and the first
page unless the patch names another. -/
def SearchPageParams.overriddenBy (params : SearchPageParams) (patch : SearchPagePatch) : SearchPageParams where
  q := patch.q.getD params.q
  type := (patch.type.map (·.getD .all)).getD params.type
  sort := (patch.sort.map (·.getD .name)).getD params.sort
  order := (patch.order.map (·.getD .asc)).getD params.order
  page := patch.page.join.getD (.ofNat 1)
  status := patch.status.getD params.status
  includeArchived := (patch.includeArchived.map (·.getD false)).getD params.includeArchived

section Links

variable {current : SearchPageSearch} {patch : SearchPagePatch}

theorem filter_page_of_isParsed (h : patch.IsParsed) : patch.page.join.filter (Number.ofNat 1).lt = patch.page.join := by
  obtain ⟨search, ⟨raw, hraw⟩, hfrom⟩ := h
  cases hpage : patch.page with
  | none => rfl
  | some page =>
      cases page with
      | none => rfl
      | some page =>
          have hlater := (parseSearchPageSearch_normal hraw).page page (hfrom.page _ hpage).symm
          rw [isLaterPage, Bool.and_eq_true] at hlater
          exact Option.filter_some_pos hlater.2

theorem nextSearchParams_normal (hcurrent : current.Normal) (h : patch.IsParsed) :
    (nextSearchParams current patch).Normal := by
  obtain ⟨search, ⟨raw, hraw⟩, hfrom⟩ := h
  have hsearch := parseSearchPageSearch_normal hraw
  have hq : patch.q.getD current.q = current.q ∨ patch.q.getD current.q = search.q := by
    cases hpatch : patch.q with
    | none => exact Or.inl rfl
    | some q => exact Or.inr (hfrom.q q hpatch)
  refine ⟨?_, ?_, ?_, ?_⟩
  · show trim (patch.q.getD current.q) = patch.q.getD current.q
    rcases hq with hq | hq <;> rw [hq]
    · exact hcurrent.trimmed
    · exact hsearch.trimmed
  · show (patch.q.getD current.q).length ≤ SEARCH_QUERY_MAX_LENGTH
    rcases hq with hq | hq <;> rw [hq]
    · exact hcurrent.length_le
    · exact hsearch.length_le
  · intro page hpage
    replace hpage : patch.page.join.filter (Number.ofNat 1).lt = some page := hpage
    rw [filter_page_of_isParsed ⟨search, ⟨raw, hraw⟩, hfrom⟩, Option.join_eq_some_iff] at hpage
    exact hsearch.page page (hfrom.page _ hpage).symm
  · show (if patch.includeArchived.getD current.includeArchived = some true then some true else none) ≠ some false
    split_ifs <;> nofun

/-- Leaving a default out does not change what the value resolves to. -/
theorem getD_of_default_left_out {α : Type} [DecidableEq α] (default : α) (named : Option (Option α)) (old : Option α) :
    (if named.getD old = some default then none else named.getD old).getD default =
      (named.map (·.getD default)).getD (old.getD default) := by
  have hleft : ∀ value : Option α, (if value = some default then none else value).getD default = value.getD default := by
    intro value
    split_ifs with h
    · rw [h]
      rfl
    · rfl
  rw [hleft]
  cases named <;> rfl

theorem resolve_nextSearchParams (h : patch.IsParsed) :
    resolveSearchPageParams (nextSearchParams current patch) = (resolveSearchPageParams current).overriddenBy patch := by
  have hincludeArchived : ∀ value : Option Bool, (if value = some true then some true else none).getD false = value.getD false := by
    decide
  have hnamed : (patch.includeArchived.getD current.includeArchived).getD false =
      (patch.includeArchived.map (·.getD false)).getD (current.includeArchived.getD false) := by
    cases patch.includeArchived <;> rfl
  simp only [resolveSearchPageParams, nextSearchParams, SearchPageParams.overriddenBy, getD_of_default_left_out,
    filter_page_of_isParsed h, hincludeArchived, hnamed]

/-- A link leads where it says. -/
theorem parse_nextSearchParams (hcurrent : current.IsParsed) (h : patch.IsParsed) :
    (parseSearchPageSearch (nextSearchParams current patch).toRaw).map resolveSearchPageParams =
      some ((resolveSearchPageParams current).overriddenBy patch) := by
  obtain ⟨raw, hraw⟩ := hcurrent
  rw [parseSearchPageSearch_toRaw (nextSearchParams_normal (parseSearchPageSearch_normal hraw) h), Option.map_some,
    resolve_nextSearchParams h]

end Links

end Transcendence.Search
