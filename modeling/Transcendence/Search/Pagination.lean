import Transcendence.Base.OffsetPages
import Transcendence.Search.Service

/-!
# The pages of a search

An escaped term between two `%` matches the texts that contain it. The pages of a search for one type are,
one after another, the rows that it finds, each once: count and slice have the same filter, and the order
leaves no two rows tied. The totals of the other two types are those of searches for them without a status.
All this holds of the terms that the database takes, and of no other one.
-/

namespace Transcendence.Search.Results

open LikePattern (CaseFolding)
open OffsetPages (pageCount)
open Projects.Details (ProjectStatus)
open Tasks (TaskStatus)

/-! ### Terms -/

theorem toList_containsPattern (term : String) :
    (containsPattern term).toList = '%' :: (LikePattern.escape term.toList ++ ['%']) := by
  simp only [containsPattern, escapeLikeWildcards, String.toList_append, String.toList_ofList]
  rfl

/-- The pattern of a term matches a text just where the text contains the term. -/
theorem like_containsPattern (term text : String) :
    LikePattern.like (containsPattern term).toList text.toList = some (decide (term.toList <:+: text.toList)) := by
  rw [toList_containsPattern, LikePattern.like_contains]

/-- The text contains the term, whatever the case of either. -/
def Contains (folding : CaseFolding) (term text : String) : Prop :=
  term.toList.map folding.fold <:+: text.toList.map folding.fold

theorem contains_iff (folding : CaseFolding) (term text : String) :
    contains folding term text = true ↔ Contains folding term text := by
  rw [contains, toList_containsPattern, LikePattern.ilike_contains, decide_eq_true_iff, Option.some.injEq,
    decide_eq_true_iff, Contains]

/-! ### What a search finds -/

/-- The caller is a member of the project, and it is not archived unless archived ones are asked for. -/
def MaySee (db : Database) (query : SearchQueryDto) (userId : String) (project : Project) : Prop :=
  ⟨userId, project.id⟩ ∈ db.projectMembers ∧ (project.isArchived = true → query.includeArchived = some true)

/-- The name or the description contains the term. -/
def TextMatches (folding : CaseFolding) (query : SearchQueryDto) (name : String) (description : Option String) : Prop :=
  Contains folding query.q name ∨ ∃ text ∈ description, Contains folding query.q text

structure FindsProject (folding : CaseFolding) (db : Database) (query : SearchQueryDto) (userId : String)
    (project : Project) : Prop where
  text : TextMatches folding query project.name project.description
  visible : MaySee db query userId project
  status : ∀ filter ∈ query.status, ∀ status ∈ isProjectStatus filter, project.status = status

structure FindsTask (folding : CaseFolding) (db : Database) (query : SearchQueryDto) (userId : String) (task : Task) :
    Prop where
  text : TextMatches folding query task.title task.description
  visible : ∃ project ∈ db.projects, project.id = task.projectId ∧ MaySee db query userId project
  status : ∀ filter ∈ query.status, ∀ status ∈ isTaskStatus filter, task.status = status

structure FindsUser (folding : CaseFolding) (query : SearchQueryDto) (user : User) : Prop where
  text : Contains folding query.q user.username
  active : user.status = .ACTIVE

/-- The requested order: by name or by time, one way or the other, and among equals by id. -/
def InOrder {α : Type} (collation : Collation) (query : SearchQueryDto) (name : α → String) (updatedAt : α → Int)
    (id : α → String) (a b : α) : Prop :=
  match query.sort.getD .name, query.order.getD .asc with
  | .name, .asc => collation.le (name a) (name b) ∧ (name a = name b → collation.le (id a) (id b))
  | .name, .desc => collation.le (name b) (name a) ∧ (name a = name b → collation.le (id a) (id b))
  | .recent, .asc => updatedAt a ≤ updatedAt b ∧ (updatedAt a = updatedAt b → collation.le (id a) (id b))
  | .recent, .desc => updatedAt b ≤ updatedAt a ∧ (updatedAt a = updatedAt b → collation.le (id a) (id b))

/-- The pages, one after another, are the rows found, each of them once and in order, and the total that
each page reports, of the first to the last, is their number. -/
def Partitions {α β : Type} (rows : List α) (Finds : α → Prop) (Before : α → α → Prop) (select : α → β) (limit : Nat)
    (page : Nat → Option (Found β)) : Prop :=
  ∃ found : List α, found.Nodup ∧ (∀ row, row ∈ found ↔ row ∈ rows ∧ Finds row) ∧ found.Pairwise Before ∧
    (∀ i, 1 ≤ i → i ≤ max 1 (pageCount found.length limit) → (page i).map (·.total) = some found.length) ∧
    ((List.range (pageCount found.length limit)).flatMap fun i => (page (i + 1)).elim [] (·.items)) = found.map select

/-- No two rows of a table have the same id. -/
structure Database.Keyed (db : Database) : Prop where
  projects : (db.projects.map (·.id)).Nodup
  tasks : (db.tasks.map (·.id)).Nodup
  users : (db.users.map (·.id)).Nodup

/-! ### The order of the rows -/

/-- A total order given by a Boolean test. -/
structure Ordered {κ : Type} (le : κ → κ → Bool) : Prop where
  total : ∀ x y, (le x y || le y x) = true
  trans : ∀ x y z, le x y = true → le y z = true → le x z = true
  antisymm : ∀ x y, le x y = true → le y x = true → x = y

theorem Collation.ordered (collation : Collation) : Ordered collation.le :=
  ⟨collation.total, collation.trans, collation.antisymm⟩

theorem ordered_times : Ordered fun a b : Int => decide (a ≤ b) where
  total a b := by
    rw [Bool.or_eq_true, decide_eq_true_iff, decide_eq_true_iff]
    omega
  trans a b c hab hbc := by
    rw [decide_eq_true_iff] at *
    omega
  antisymm a b hab hba := by
    rw [decide_eq_true_iff] at *
    omega

/-- One way or the other. -/
def toward {κ : Type} (order : SearchOrder) (le : κ → κ → Bool) (x y : κ) : Bool :=
  match order with
  | .asc => le x y
  | .desc => le y x

theorem Ordered.refl {κ : Type} {le : κ → κ → Bool} (h : Ordered le) (x : κ) : le x x = true := by
  simpa using h.total x x

theorem Ordered.toward {κ : Type} {le : κ → κ → Bool} (h : Ordered le) (order : SearchOrder) : Ordered (toward order le) := by
  cases order with
  | asc => exact h
  | desc =>
      refine ⟨fun x y => h.total y x, fun x y z hxy hyz => h.trans z y x hyz hxy, fun x y hxy hyx => ?_⟩
      exact h.antisymm x y hyx hxy

section Order

variable {α κ : Type} [DecidableEq κ] {collation : Collation} {order : SearchOrder} {le : κ → κ → Bool} {key : α → κ}
  {id : α → String} {a b c : α}

theorem orderBy_iff (h : Ordered le) (a b : α) :
    orderBy collation le order key id a b = true ↔
      toward order le (key a) (key b) = true ∧ (key a = key b → collation.le (id a) (id b) = true) := by
  unfold orderBy
  by_cases heq : key a = key b
  · rw [if_pos heq]
    refine ⟨fun hid => ⟨?_, fun _ => hid⟩, fun hboth => hboth.2 heq⟩
    rw [heq]
    exact (h.toward order).refl _
  · rw [if_neg heq]
    exact ⟨fun hkey => ⟨hkey, fun hsame => absurd hsame heq⟩, fun hboth => hboth.1⟩

theorem orderBy_total (h : Ordered le) (a b : α) :
    orderBy collation le order key id a b = true ∨ orderBy collation le order key id b a = true := by
  rw [orderBy_iff h, orderBy_iff h]
  by_cases heq : key a = key b
  · have hself := (h.toward order).refl (key b)
    have hid := collation.total (id a) (id b)
    rw [Bool.or_eq_true] at hid
    rw [heq]
    exact hid.imp (fun hid => ⟨hself, fun _ => hid⟩) (fun hid => ⟨hself, fun _ => hid⟩)
  · have hkey := (h.toward order).total (key a) (key b)
    rw [Bool.or_eq_true] at hkey
    exact hkey.imp (fun hkey => ⟨hkey, fun hsame => absurd hsame heq⟩) (fun hkey => ⟨hkey, fun hsame => absurd hsame.symm heq⟩)

theorem orderBy_trans (h : Ordered le) (hab : orderBy collation le order key id a b = true)
    (hbc : orderBy collation le order key id b c = true) : orderBy collation le order key id a c = true := by
  rw [orderBy_iff h] at *
  refine ⟨(h.toward order).trans _ _ _ hab.1 hbc.1, fun heq => ?_⟩
  have hba : key a = key b := (h.toward order).antisymm _ _ hab.1 (heq ▸ hbc.1)
  exact collation.trans _ _ _ (hab.2 hba) (hbc.2 (hba.symm.trans heq))

/-- The rows sorted as asked. -/
theorem sorted_insertionSort (query : SearchQueryDto) (name : α → String) (updatedAt : α → Int) (id : α → String)
    (rows : List α) :
    (rows.insertionSort fun a b => query.sortRows collation name updatedAt id a b = true).Pairwise
      (InOrder collation query name updatedAt id) := by
  have hsorted : ∀ {κ : Type} [DecidableEq κ] {le : κ → κ → Bool} (key : α → κ), Ordered le →
      (rows.insertionSort fun a b => orderBy collation le (query.order.getD .asc) key id a b = true).Pairwise fun a b =>
        toward (query.order.getD .asc) le (key a) (key b) = true ∧ (key a = key b → collation.le (id a) (id b) = true) := by
    intro κ _ le key h
    have : Std.Total fun a b => orderBy collation le (query.order.getD .asc) key id a b = true :=
      ⟨fun a b => orderBy_total h a b⟩
    have : IsTrans α fun a b => orderBy collation le (query.order.getD .asc) key id a b = true :=
      ⟨fun a b c hab hbc => orderBy_trans h hab hbc⟩
    refine (List.pairwise_insertionSort _ rows).imp fun {a b} hab => ?_
    exact (orderBy_iff h a b).mp hab
  unfold SearchQueryDto.sortRows InOrder
  cases query.sort.getD .name with
  | name =>
      have hname := hsorted name collation.ordered
      cases horder : query.order.getD .asc <;> rw [horder] at hname <;> exact hname
  | recent =>
      have hrecent := hsorted updatedAt ordered_times
      cases horder : query.order.getD .asc <;> rw [horder] at hrecent
      · exact hrecent.imp fun {a b} hab => ⟨of_decide_eq_true hab.1, hab.2⟩
      · exact hrecent.imp fun {a b} hab => ⟨of_decide_eq_true hab.1, hab.2⟩

/-- The slices of the rows that pass a filter, sorted as asked. -/
theorem partitions_findMany (collation : Collation) (query : SearchQueryDto) {β : Type} {rows : List α} (hnodup : rows.Nodup) {filter : α → Bool}
    {Finds : α → Prop} (hfinds : ∀ row ∈ rows, filter row = true ↔ Finds row) (name : α → String) (updatedAt : α → Int)
    (id : α → String) (select : α → β) {limit : Nat} (hlimit : 1 ≤ limit) :
    Partitions rows Finds (InOrder collation query name updatedAt id) select limit fun page =>
      some ⟨findMany rows filter (query.sortRows collation name updatedAt id) select (some ⟨(page - 1) * limit, limit⟩),
        count rows filter⟩ := by
  have hperm := List.perm_insertionSort (fun a b => query.sortRows collation name updatedAt id a b = true)
    (rows.filter filter)
  refine ⟨_, hperm.nodup_iff.mpr (hnodup.filter _), fun row => ?_, sorted_insertionSort query name updatedAt id _, ?_, ?_⟩
  · rw [hperm.mem_iff, List.mem_filter]
    exact and_congr_right fun hrow => hfinds row hrow
  · intro page _ _
    exact congrArg some hperm.length_eq.symm
  · exact OffsetPages.flatMap_pages_map hlimit _ select

end Order

/-! ### The filters -/

section Filters

variable {folding : CaseFolding} {db : Database} {query : SearchQueryDto} {userId : String}

theorem projectAllowed_iff (project : Project) :
    query.projectAllowed db userId project = true ↔ MaySee db query userId project := by
  rw [SearchQueryDto.projectAllowed, Bool.and_eq_true, List.any_eq_true, MaySee]
  refine and_congr ⟨?_, fun hmember => ⟨_, hmember, by simp⟩⟩ ?_
  · rintro ⟨⟨memberId, projectId⟩, hmember, hsame⟩
    rw [Bool.and_eq_true, decide_eq_true_iff, decide_eq_true_iff] at hsame
    obtain ⟨rfl, rfl⟩ := hsame
    exact hmember
  · rw [SearchQueryDto.archivedToo]
    cases project.isArchived <;> rcases query.includeArchived with _ | _ | _ <;> simp

theorem textMatches_iff (name : String) (description : Option String) :
    (contains folding query.q name || description.any (contains folding query.q)) = true ↔
      TextMatches folding query name description := by
  rw [Bool.or_eq_true, contains_iff, Option.any_eq_true]
  exact or_congr_right (exists_congr fun text => and_congr_right fun _ => contains_iff folding query.q text)

theorem status_iff {σ : Type} [DecidableEq σ] (own : SearchStatusFilter → Option σ) (status : σ) :
    (query.status.bind own).all (status = ·) = true ↔ ∀ filter ∈ query.status, ∀ s ∈ own filter, status = s := by
  cases query.status with
  | none => simp
  | some filter =>
      cases hown : own filter with
      | none => simp [hown]
      | some s => simp [hown]

theorem projectWhere_iff (htype : query.type = some .projects) (project : Project) :
    query.projectWhere folding db userId project = true ↔ FindsProject folding db query userId project := by
  have hresolved : query.resolvedType = .projects := by
    rw [SearchQueryDto.resolvedType, htype]
    rfl
  rw [SearchQueryDto.projectWhere, Bool.and_eq_true, Bool.and_eq_true, projectAllowed_iff, textMatches_iff,
    SearchQueryDto.projectStatus, if_pos hresolved, status_iff]
  exact ⟨fun ⟨⟨hvisible, htext⟩, hstatus⟩ => ⟨htext, hvisible, hstatus⟩, fun h => ⟨⟨h.visible, h.text⟩, h.status⟩⟩

theorem taskWhere_iff (htype : query.type = some .tasks) (task : Task) :
    query.taskWhere folding db userId task = true ↔ FindsTask folding db query userId task := by
  have hresolved : query.resolvedType = .tasks := by
    rw [SearchQueryDto.resolvedType, htype]
    rfl
  have hvisible : (db.projects.any fun project => project.id = task.projectId && query.projectAllowed db userId project) = true ↔
      ∃ project ∈ db.projects, project.id = task.projectId ∧ MaySee db query userId project := by
    rw [List.any_eq_true]
    refine exists_congr fun project => and_congr_right fun _ => ?_
    rw [Bool.and_eq_true, decide_eq_true_iff, projectAllowed_iff]
  rw [SearchQueryDto.taskWhere, Bool.and_eq_true, Bool.and_eq_true, hvisible, textMatches_iff,
    SearchQueryDto.taskStatus, if_pos hresolved, status_iff]
  exact ⟨fun ⟨⟨hvisible, htext⟩, hstatus⟩ => ⟨htext, hvisible, hstatus⟩, fun h => ⟨⟨h.visible, h.text⟩, h.status⟩⟩

theorem userWhere_iff (user : User) : query.userWhere folding user = true ↔ FindsUser folding query user := by
  rw [SearchQueryDto.userWhere, Bool.and_eq_true, contains_iff, decide_eq_true_iff]
  exact ⟨fun h => ⟨h.1, h.2⟩, fun h => ⟨h.text, h.active⟩⟩

end Filters

/-! ### Pages -/

section Pages

variable {collation : Collation} {folding : CaseFolding} {db : Database} {query : SearchQueryDto} {userId : String}

theorem sliceFor_page {type : SearchType} (htype : query.type = some type) (hone : type ≠ .all) (page : Nat) :
    { query with page := some page }.sliceFor type = some ⟨(page - 1) * query.limit.getD SEARCH_DEFAULT_LIMIT,
      query.limit.getD SEARCH_DEFAULT_LIMIT⟩ := by
  have hresolved : { query with page := some page }.resolvedType = type := by
    rw [SearchQueryDto.resolvedType, htype]
    rfl
  rw [SearchQueryDto.sliceFor, SearchQueryDto.resolvedPage, SearchQueryDto.resolvedLimit, hresolved, if_neg hone, if_pos rfl,
    if_neg hone, if_neg hone]
  rfl

theorem one_le_limit (hlimit : ∀ limit ∈ query.limit, 1 ≤ limit) : 1 ≤ query.limit.getD SEARCH_DEFAULT_LIMIT := by
  cases hvalue : query.limit with
  | none => decide
  | some limit => exact hlimit limit hvalue

/-- Totals of the types that were not asked for are those of searches for them without a status. -/
def OtherTotals (collation : Collation) (folding : CaseFolding) (db : Database) (query : SearchQueryDto) (userId : String)
    (type : SearchType) : Prop :=
  let response := search collation folding db query userId
  let searchFor := fun type => search collation folding db { query with type := some type, status := none } userId
  (type ≠ .projects → response.map (·.projects.total) = (searchFor .projects).map (·.projects.total)) ∧
    (type ≠ .tasks → response.map (·.tasks.total) = (searchFor .tasks).map (·.tasks.total)) ∧
    (type ≠ .users → response.map (·.users.total) = (searchFor .users).map (·.users.total))

/-- The answer to each page. -/
def pages (collation : Collation) (folding : CaseFolding) (db : Database) (query : SearchQueryDto) (userId : String)
    (page : Nat) : Option SearchResponse :=
  search collation folding db { query with page := some page } userId

/-- For a search for one type, the pages are what it finds, each row once and in the order that was asked
for, with the number of them as the total; the other totals are those of searches for the other types
without a status. -/
structure Paginated (collation : Collation) (folding : CaseFolding) (db : Database) (query : SearchQueryDto)
    (userId : String) : Prop where
  projects : query.type = some .projects → Partitions db.projects (FindsProject folding db query userId)
    (InOrder collation query Project.name Project.updatedAt Project.id) projectSelect
    (query.limit.getD SEARCH_DEFAULT_LIMIT) fun page => (pages collation folding db query userId page).map (·.projects)
  tasks : query.type = some .tasks → Partitions db.tasks (FindsTask folding db query userId)
    (InOrder collation query Task.title Task.updatedAt Task.id) (taskSelect db)
    (query.limit.getD SEARCH_DEFAULT_LIMIT) fun page => (pages collation folding db query userId page).map (·.tasks)
  users : query.type = some .users → Partitions db.users (FindsUser folding query)
    (InOrder collation query User.username User.updatedAt User.id) userSelect
    (query.limit.getD SEARCH_DEFAULT_LIMIT) fun page => (pages collation folding db query userId page).map (·.users)
  others : ∀ type page, query.type = some type → OtherTotals collation folding db { query with page := some page } userId type

theorem otherTotals {type : SearchType} (htype : query.type = some type) :
    OtherTotals collation folding db query userId type := by
  have hresolved : query.resolvedType = type := by
    rw [SearchQueryDto.resolvedType, htype]
    rfl
  simp only [OtherTotals, search]
  split
  · exact ⟨fun _ => rfl, fun _ => rfl, fun _ => rfl⟩
  refine ⟨fun hother => ?_, fun hother => ?_, fun _ => rfl⟩
  · have hfilter : query.projectWhere folding db userId =
        { query with type := some .projects, status := none }.projectWhere folding db userId := by
      funext project
      simp only [SearchQueryDto.projectWhere, SearchQueryDto.projectStatus, hresolved, if_neg hother]
      rfl
    exact congrArg (some <| count db.projects ·) hfilter
  · have hfilter : query.taskWhere folding db userId =
        { query with type := some .tasks, status := none }.taskWhere folding db userId := by
      funext task
      simp only [SearchQueryDto.taskWhere, SearchQueryDto.taskStatus, hresolved, if_neg hother]
      rfl
    exact congrArg (some <| count db.tasks ·) hfilter

/-- Escaping and the two `%` leave the term with U+0000 or without it. -/
theorem refused_containsPattern (term : String) : refused (containsPattern term) = decide ('\u0000' ∈ term.toList) := by
  rw [refused, toList_containsPattern, decide_eq_decide, List.mem_cons, List.mem_append, List.mem_singleton, LikePattern.escape,
    List.mem_flatMap]
  constructor
  · rintro (hpercent | ⟨c, hc, hescaped⟩ | hpercent)
    · exact absurd hpercent (by decide)
    · split at hescaped
      · simp only [List.mem_cons, List.not_mem_nil, or_false] at hescaped
        rcases hescaped with hbackslash | rfl
        · exact absurd hbackslash (by decide)
        · exact hc
      · rw [List.mem_singleton.mp hescaped]
        exact hc
    · exact absurd hpercent (by decide)
  · intro hterm
    exact Or.inr (Or.inl ⟨_, hterm, by decide⟩)

/-- The pages of a search that the database takes. -/
theorem paginated_of_taken (hdb : db.Keyed) (hlimit : ∀ limit ∈ query.limit, 1 ≤ limit)
    (htaken : ∀ page, pages collation folding db query userId page =
      some (answer collation folding db { query with page := some page } userId)) :
    Paginated collation folding db query userId := by
  have hone := one_le_limit hlimit
  refine ⟨fun htype => ?_, fun htype => ?_, fun htype => ?_, fun type page htype => otherTotals htype⟩
  · have hfinds : ∀ project ∈ db.projects, query.projectWhere folding db userId project = true ↔
        FindsProject folding db query userId project := fun project _ => projectWhere_iff htype project
    have hpages := partitions_findMany collation query hdb.projects.of_map hfinds Project.name Project.updatedAt Project.id
      projectSelect hone
    simp only [htaken, Option.map_some, answer, sliceFor_page htype (by decide)]
    exact hpages
  · have hfinds : ∀ task ∈ db.tasks, query.taskWhere folding db userId task = true ↔
        FindsTask folding db query userId task := fun task _ => taskWhere_iff htype task
    have hpages := partitions_findMany collation query hdb.tasks.of_map hfinds Task.title Task.updatedAt Task.id
      (taskSelect db) hone
    simp only [htaken, Option.map_some, answer, sliceFor_page htype (by decide)]
    exact hpages
  · have hfinds : ∀ user ∈ db.users, query.userWhere folding user = true ↔ FindsUser folding query user :=
      fun user _ => userWhere_iff user
    have hpages := partitions_findMany collation query hdb.users.of_map hfinds User.username User.updatedAt User.id
      userSelect hone
    simp only [htaken, Option.map_some, answer, sliceFor_page htype (by decide)]
    exact hpages

/-- Where the first page throws there is no partition. -/
theorem not_partitions_of_first {α β : Type} {rows : List α} {Finds : α → Prop} {Before : α → α → Prop} {select : α → β}
    {limit : Nat} {page : Nat → Option (Found β)} (hthrows : page 1 = none) :
    ¬Partitions rows Finds Before select limit page := by
  rintro ⟨found, -, -, -, htotal, -⟩
  have hfirst := htotal 1 le_rfl (le_max_left _ _)
  rw [hthrows] at hfirst
  cases hfirst

/-- A search for one type has its pages just if the term is free of U+0000. -/
theorem search_paginated_iff (collation : Collation) (folding : CaseFolding) (db : Database) (hdb : db.Keyed)
    (query : SearchQueryDto) (userId : String) (hlimit : ∀ limit ∈ query.limit, 1 ≤ limit)
    (htype : query.type ∈ [some SearchType.projects, some .tasks, some .users]) :
    Paginated collation folding db query userId ↔ '\u0000' ∉ query.q.toList := by
  constructor
  · intro h hnul
    have hthrows : pages collation folding db query userId 1 = none := by
      rw [pages, search, if_pos]
      rw [refused_containsPattern]
      exact decide_eq_true hnul
    simp only [List.mem_cons, List.not_mem_nil, or_false] at htype
    rcases htype with htype | htype | htype
    · refine not_partitions_of_first ?_ (h.projects htype)
      rw [hthrows, Option.map_none]
    · refine not_partitions_of_first ?_ (h.tasks htype)
      rw [hthrows, Option.map_none]
    · refine not_partitions_of_first ?_ (h.users htype)
      rw [hthrows, Option.map_none]
  · intro hfree
    refine paginated_of_taken hdb hlimit fun page => ?_
    rw [pages, search, if_neg]
    rw [refused_containsPattern]
    exact mt of_decide_eq_true hfree

/-! ### Three projects -/

def codePoints : Collation where
  le a b := decide (a ≤ b)
  total a b := by
    rw [Bool.or_eq_true, decide_eq_true_iff, decide_eq_true_iff]
    exact String.le_total a b
  trans a b c hab hbc := by
    rw [decide_eq_true_iff] at *
    exact String.le_trans hab hbc
  antisymm a b hab hba := by
    rw [decide_eq_true_iff] at *
    exact String.le_antisymm hab hba

/-- Lower case is nowhere special. -/
theorem isSpecial_of_toLower {c : Char} (h : LikePattern.isSpecial c.toLower = true) : LikePattern.isSpecial c = true := by
  unfold Char.toLower at h
  split at h
  · rename_i hrange
    exfalso
    have hfirst := UInt32.le_iff_toNat_le.mp hrange.1
    have hlast := UInt32.le_iff_toNat_le.mp hrange.2
    rw [LikePattern.isSpecial, Bool.or_eq_true, Bool.or_eq_true] at h
    simp only [decide_eq_true_eq, Char.ext_iff, UInt32.ext_iff, UInt32.toNat_add] at h
    simp at h hfirst hlast
    omega
  · exact h

def lowerCase : CaseFolding where
  fold := Char.toLower
  special c h := by
    rw [LikePattern.isSpecial, Bool.or_eq_true, Bool.or_eq_true] at h
    simp only [decide_eq_true_eq] at h
    rcases h with (rfl | rfl) | rfl <;> rfl
  ordinary _ h := isSpecial_of_toLower h

/-- Two projects of the caller's with the term in them, one of them twice its name, and one of another's. -/
def threeProjects : Database where
  projects := [⟨"p1", "100% Plan", none, .REVIEW, false, 2⟩, ⟨"p2", "plans", some "a 100% sure thing", .REVIEW, false, 1⟩,
    ⟨"p3", "100%", none, .REVIEW, false, 3⟩]
  tasks := []
  users := []
  projectMembers := [⟨"alice", "p1"⟩, ⟨"alice", "p2"⟩]

def oneAPage : SearchQueryDto where
  q := "100%"
  type := some .projects
  sort := some .recent
  order := some .desc
  page := none
  limit := some 1
  status := some .review
  includeArchived := none

theorem search_paginated_iff_of_three :
    (search codePoints lowerCase threeProjects { oneAPage with page := some 2 } "alice").map
        (fun response => response.projects.items.map (·.id)) = some ["p2"] ∧
      (Paginated codePoints lowerCase threeProjects oneAPage "alice" ↔ '\u0000' ∉ oneAPage.q.toList) :=
  ⟨by decide +kernel, search_paginated_iff codePoints lowerCase threeProjects ⟨by decide, by decide, by decide⟩ oneAPage "alice"
    (by decide) (by decide)⟩

/-- `?q=ab%00c` -/
def cutTerm : SearchQueryDto where
  q := "ab\u0000c"
  type := some .projects
  sort := none
  order := none
  page := none
  limit := none
  status := none
  includeArchived := none

theorem not_paginated_of_cutTerm :
    (search codePoints lowerCase threeProjects { cutTerm with page := some 1 } "alice").isNone ∧
      ¬Paginated codePoints lowerCase threeProjects cutTerm "alice" := by
  have hthrows : pages codePoints lowerCase threeProjects cutTerm "alice" 1 = none :=
    Option.isNone_iff_eq_none.mp (by decide +kernel)
  refine ⟨by decide +kernel, fun h => not_partitions_of_first ?_ (h.projects rfl)⟩
  rw [hthrows, Option.map_none]

end Pages

end Transcendence.Search.Results
