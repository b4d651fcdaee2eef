import Mathlib.Data.List.Sort
import Transcendence.Base.LikePatterns
import Transcendence.Projects.Details
import Transcendence.Relationships.Service
import Transcendence.Search.PageParams
import Transcendence.Tasks.Board

/-!
# The search service

`SearchService.search` of `src/backend/src/search/`. A search counts the rows of each of the three tables
that match its `where` clause, and fetches a slice of those it was asked for. The tables have the columns
that a search reads. The conversion of the query string is in `SearchQueryDto.validate` of the other
modules; here its numbers are natural ones, and its texts are Unicode.

How the database orders texts and folds their case depends on its locale, so both are parameters: an
order in which no two texts are equal, and a folding that leaves the special characters of `LIKE` alone.
What it does not take is a text with U+0000: PostgreSQL refuses it as a parameter, and the search throws.
-/

namespace Transcendence.Search.Results

open LikePattern (CaseFolding ilike)
open Projects.Details (ProjectStatus)
open Relationships (AccountStatus)
open Tasks (TaskPriority TaskStatus)

/-- The order of texts. -/
structure Collation where
  le : String → String → Bool
  total : ∀ a b, (le a b || le b a) = true
  trans : ∀ a b c, le a b = true → le b c = true → le a c = true
  antisymm : ∀ a b, le a b = true → le b a = true → a = b

/-! ### Tables -/

structure Project where
  id : String
  name : String
  description : Option String
  status : ProjectStatus
  isArchived : Bool
  updatedAt : Int
  deriving DecidableEq

structure Task where
  id : String
  projectId : String
  title : String
  description : Option String
  status : TaskStatus
  priority : TaskPriority
  updatedAt : Int
  deriving DecidableEq

structure User where
  id : String
  username : String
  avatarUrl : Option String
  campus : Option String
  status : AccountStatus
  updatedAt : Int
  deriving DecidableEq

structure ProjectMember where
  userId : String
  projectId : String
  deriving DecidableEq

structure Database where
  projects : List Project
  tasks : List Task
  users : List User
  projectMembers : List ProjectMember

/-! ### The query -/

structure SearchQueryDto where
  q : String
  type : Option SearchType
  sort : Option SearchSort
  order : Option SearchOrder
  page : Option Nat
  limit : Option Nat
  status : Option SearchStatusFilter
  includeArchived : Option Bool

def SEARCH_DEFAULT_LIMIT : Nat :=
  10

def SEARCH_PREVIEW_LIMIT : Nat :=
  5

def escapeLikeWildcards (term : String) : String :=
  String.ofList (LikePattern.escape term.toList)

/-- `contains`, which Prisma makes a pattern between two `%`. -/
def containsPattern (term : String) : String :=
  "%" ++ escapeLikeWildcards term ++ "%"

/-- `contains` with the mode `insensitive`. -/
def contains (folding : CaseFolding) (term text : String) : Bool :=
  ilike folding (containsPattern term).toList text.toList = some true

def isProjectStatus : SearchStatusFilter → Option ProjectStatus
  | .inProgress => some .IN_PROGRESS
  | .review => some .REVIEW
  | .completed => some .COMPLETED
  | .todo => none

def isTaskStatus : SearchStatusFilter → Option TaskStatus
  | .inProgress => some .IN_PROGRESS
  | .review => some .REVIEW
  | .completed => some .COMPLETED
  | .todo => some .TODO

namespace SearchQueryDto

variable (query : SearchQueryDto)

def resolvedType : SearchType :=
  query.type.getD .all

def resolvedPage : Nat :=
  if query.resolvedType = .all then 1 else query.page.getD 1

def resolvedLimit : Nat :=
  if query.resolvedType = .all then SEARCH_PREVIEW_LIMIT else query.limit.getD SEARCH_DEFAULT_LIMIT

def archivedToo : Bool :=
  query.includeArchived.getD false

/-- The status that projects are filtered by. -/
def projectStatus : Option ProjectStatus :=
  if query.resolvedType = .projects then query.status.bind isProjectStatus else none

def taskStatus : Option TaskStatus :=
  if query.resolvedType = .tasks then query.status.bind isTaskStatus else none

/-- `members: { some: { userId } }`, and `isArchived: false` unless archived ones are asked for. -/
def projectAllowed (db : Database) (userId : String) (project : Project) : Bool :=
  db.projectMembers.any (fun member => member.userId = userId && member.projectId = project.id) &&
    (query.archivedToo || !project.isArchived)

def projectWhere (folding : CaseFolding) (db : Database) (userId : String) (project : Project) : Bool :=
  query.projectAllowed db userId project &&
    (contains folding query.q project.name || project.description.any (contains folding query.q)) &&
    query.projectStatus.all (project.status = ·)

def taskWhere (folding : CaseFolding) (db : Database) (userId : String) (task : Task) : Bool :=
  db.projects.any (fun project => project.id = task.projectId && query.projectAllowed db userId project) &&
    (contains folding query.q task.title || task.description.any (contains folding query.q)) &&
    query.taskStatus.all (task.status = ·)

def userWhere (folding : CaseFolding) (user : User) : Bool :=
  contains folding query.q user.username && user.status = .ACTIVE

end SearchQueryDto

/-! ### Fetching -/

/-- `orderBy` of a key and then the id. -/
def orderBy {α κ : Type} [DecidableEq κ] (collation : Collation) (le : κ → κ → Bool) (order : SearchOrder) (key : α → κ)
    (id : α → String) (a b : α) : Bool :=
  if key a = key b then collation.le (id a) (id b)
  else
    match order with
    | .asc => le (key a) (key b)
    | .desc => le (key b) (key a)

def SearchQueryDto.sortRows {α : Type} (query : SearchQueryDto) (collation : Collation) (name : α → String)
    (updatedAt : α → Int) (id : α → String) : α → α → Bool :=
  match query.sort.getD .name with
  | .name => orderBy collation collation.le (query.order.getD .asc) name id
  | .recent => orderBy collation (fun a b => decide (a ≤ b)) (query.order.getD .asc) updatedAt id

structure Slice where
  skip : Nat
  take : Nat
  deriving DecidableEq

def SearchQueryDto.sliceFor (query : SearchQueryDto) (candidate : SearchType) : Option Slice :=
  if query.resolvedType = .all then some ⟨0, query.resolvedLimit⟩
  else if query.resolvedType = candidate then some ⟨(query.resolvedPage - 1) * query.resolvedLimit, query.resolvedLimit⟩
  else none

/-- `findMany`, or nothing without a slice. -/
def findMany {α β : Type} (rows : List α) (filter : α → Bool) (le : α → α → Bool) (select : α → β) : Option Slice → List β
  | none => []
  | some slice =>
      ((((rows.filter filter).insertionSort fun a b => le a b = true).drop slice.skip).take slice.take).map select

def count {α : Type} (rows : List α) (filter : α → Bool) : Nat :=
  (rows.filter filter).length

structure ProjectItem where
  id : String
  name : String
  description : Option String
  status : ProjectStatus
  isArchived : Bool
  updatedAt : Int
  deriving DecidableEq

structure TaskItem where
  id : String
  projectId : String
  title : String
  description : Option String
  status : TaskStatus
  priority : TaskPriority
  updatedAt : Int
  projectName : Option String
  deriving DecidableEq

structure UserItem where
  id : String
  username : String
  avatarUrl : Option String
  campus : Option String
  deriving DecidableEq

def projectSelect (project : Project) : ProjectItem where
  id := project.id
  name := project.name
  description := project.description
  status := project.status
  isArchived := project.isArchived
  updatedAt := project.updatedAt

/-- `taskSelect` with the name of the project, which `flattenTaskProject` takes out of its object. -/
def taskSelect (db : Database) (task : Task) : TaskItem where
  id := task.id
  projectId := task.projectId
  title := task.title
  description := task.description
  status := task.status
  priority := task.priority
  updatedAt := task.updatedAt
  projectName := (db.projects.find? fun project => project.id = task.projectId).map (·.name)

def userSelect (user : User) : UserItem where
  id := user.id
  username := user.username
  avatarUrl := user.avatarUrl
  campus := user.campus

structure Found (β : Type) where
  items : List β
  total : Nat
  deriving DecidableEq

structure SearchResponse where
  query : String
  type : SearchType
  sort : SearchSort
  order : SearchOrder
  page : Nat
  limit : Nat
  projects : Found ProjectItem
  tasks : Found TaskItem
  users : Found UserItem

/-- A parameter that the database refuses. -/
def refused (text : String) : Bool :=
  '\u0000' ∈ text.toList

/-- What the counts and the fetches of a search find. -/
def answer (collation : Collation) (folding : CaseFolding) (db : Database) (query : SearchQueryDto) (userId : String) :
    SearchResponse where
  query := query.q
  type := query.resolvedType
  sort := query.sort.getD .name
  order := query.order.getD .asc
  page := query.resolvedPage
  limit := query.resolvedLimit
  projects :=
    { items := findMany db.projects (query.projectWhere folding db userId)
        (query.sortRows collation Project.name Project.updatedAt Project.id) projectSelect (query.sliceFor .projects)
      total := count db.projects (query.projectWhere folding db userId) }
  tasks :=
    { items := findMany db.tasks (query.taskWhere folding db userId)
        (query.sortRows collation Task.title Task.updatedAt Task.id) (taskSelect db) (query.sliceFor .tasks)
      total := count db.tasks (query.taskWhere folding db userId) }
  users :=
    { items := findMany db.users (query.userWhere folding)
        (query.sortRows collation User.username User.updatedAt User.id) userSelect (query.sliceFor .users)
      total := count db.users (query.userWhere folding) }

/-- Every query has the pattern among its parameters, and the search throws with the first that throws. -/
def search (collation : Collation) (folding : CaseFolding) (db : Database) (query : SearchQueryDto) (userId : String) :
    Option SearchResponse :=
  if refused (containsPattern query.q) then none else some (answer collation folding db query userId)

end Transcendence.Search.Results
