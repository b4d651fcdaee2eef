import Mathlib.Data.List.Dedup
import Transcendence.Base.Calls
import Transcendence.Base.Instants
import Transcendence.Base.Runs

/-!
# Calendar events

`create`, `update` and `remove` of `CalendarEventsService`, for any number of calls in flight. A
call is cut at its awaits, so another one may commit between what it reads and what it writes, and
each await may throw. Of an update, `none` is a field that is not sent, and `some none` one that is
sent as null, which the checks take for not sent. The dates of a request are instants, those of a row
what its column keeps of them. A date the database client cannot read makes the statement throw that
has it. The notifications are left out.
-/

namespace Transcendence.Calendar

open Instants

abbrev ProjectId := String
abbrev UserId := String
abbrev EventId := String

structure CalendarEventRow where
  id : EventId
  projectId : ProjectId
  title : String
  categoryId : Option String
  startAt : Int
  endAt : Int
  description : Option String
  notes : Option String
  deriving DecidableEq, Repr

/-- A row with its assignees, as every read path returns it. -/
structure CalendarEvent extends CalendarEventRow where
  assignees : List UserId
  deriving DecidableEq, Repr

structure CreateCalendarEventDto where
  title : String
  categoryId : String
  startAt : Int
  endAt : Int
  description : Option String
  notes : Option String
  assigneeIds : Option (List UserId)
  deriving DecidableEq, Repr

structure UpdateCalendarEventDto where
  title : Option (Option String) := none
  categoryId : Option (Option String) := none
  startAt : Option (Option Int) := none
  endAt : Option (Option Int) := none
  description : Option (Option String) := none
  notes : Option (Option String) := none
  assigneeIds : Option (List UserId) := none
  deriving DecidableEq, Repr

/-- A null for a column that cannot be null makes the statement throw. -/
def UpdateCalendarEventDto.refused (dto : UpdateCalendarEventDto) : Bool :=
  dto.title = some none || dto.startAt = some none || dto.endAt = some none

/-- `data: eventFields`, where a missing field keeps its column. -/
def CalendarEventRow.update (row : CalendarEventRow) (dto : UpdateCalendarEventDto) : CalendarEventRow where
  id := row.id
  projectId := row.projectId
  title := dto.title.join.getD row.title
  categoryId := dto.categoryId.getD row.categoryId
  startAt := (dto.startAt.join.map timestamp3).getD row.startAt
  endAt := (dto.endAt.join.map timestamp3).getD row.endAt
  description := dto.description.getD row.description
  notes := dto.notes.getD row.notes

def CreateCalendarEventDto.row (dto : CreateCalendarEventDto) (projectId : ProjectId) (id : EventId) : CalendarEventRow where
  id := id
  projectId := projectId
  title := dto.title
  categoryId := some dto.categoryId
  startAt := timestamp3 dto.startAt
  endAt := timestamp3 dto.endAt
  description := dto.description
  notes := dto.notes

inductive Error where
  | badRequest (message : String)
  | notFound (message : String)
  /-- A statement has thrown. -/
  | database
  deriving DecidableEq, Repr

structure Database where
  calendarEvents : List CalendarEventRow
  calendarAssignees : EventId → List UserId
  projectMembers : ProjectId → UserId → Bool
  calendarCategories : String → Option ProjectId

inductive Request where
  | create (projectId : ProjectId) (dto : CreateCalendarEventDto) (userId : UserId)
  | update (id : EventId) (dto : UpdateCalendarEventDto) (projectId : ProjectId) (userId : UserId)
  | remove (id : EventId) (projectId : ProjectId) (userId : UserId)
  deriving DecidableEq, Repr

/-- Where a call stands; `existing` is the event as its access guard returned it. -/
inductive Phase where
  | begun
  | member
  | checked (existing : Option CalendarEvent)
  | categoryChecked (existing : Option CalendarEvent)
  | validated (existing : Option CalendarEvent)
  | written (id : EventId)
  | assigned (id : EventId)
  | guarded (id : EventId)
  | ended (result : Except Error CalendarEvent)
  deriving DecidableEq

abbrev Call := Calls.Call Request Phase

/-! ### The statements -/

namespace Database

def findByIdForProject (db : Database) (id : EventId) (projectId : ProjectId) : Option CalendarEvent :=
  (db.calendarEvents.find? fun row => row.id = id ∧ row.projectId = projectId).map fun row =>
    { row with assignees := db.calendarAssignees row.id }

def membersAmong (db : Database) (projectId : ProjectId) (userIds : List UserId) : Nat :=
  (userIds.dedup.filter (db.projectMembers projectId)).length

def hasEvent (db : Database) (id : EventId) : Bool := db.calendarEvents.any (·.id = id)

/-- Inserting an assignee fails if the event is gone. -/
def replaceAssignees (db : Database) (calId : EventId) (userIds : List UserId) : Option Database :=
  if userIds.length > 0 ∧ db.hasEvent calId = false then none
  else some { db with calendarAssignees := Function.update db.calendarAssignees calId userIds }

end Database

def assertMembership (db : Database) (projectId : ProjectId) (userId : UserId) (next : Phase) : Phase :=
  if db.projectMembers projectId userId then next else .ended (.error (.notFound "Project not found"))

def assertValidDateRange (startAt endAt : Int) (next : Phase) : Phase :=
  if date endAt < date startAt then .ended (.error (.badRequest "endAt must not be before startAt")) else next

def assertCategoryBelongsToProject (db : Database) (projectId : ProjectId) (categoryId : String) (next : Phase) : Phase :=
  if db.calendarCategories categoryId = some projectId then next
  else .ended (.error (.badRequest "categoryId does not belong to this project"))

def assertAssigneesAreProjectMembers (db : Database) (projectId : ProjectId) (userIds : List UserId) (next : Phase) :
    Phase :=
  if userIds.length = 0 ∨ db.membersAmong projectId userIds = userIds.length then next
  else .ended (.error (.badRequest "assigneeIds must all be members of this project"))

/-- The assignees of a request, if it sends any. -/
def replaceAssignees (db : Database) (id : EventId) (assigneeIds : Option (List UserId)) : Database × Phase :=
  match assigneeIds with
  | none => (db, .assigned id)
  | some userIds => (db.replaceAssignees id userIds).elim (db, .ended (.error .database)) fun db => (db, .assigned id)

def findByIdForProject (db : Database) (id : EventId) (projectId : ProjectId) (next : CalendarEvent → Phase) : Phase :=
  (db.findByIdForProject id projectId).elim (.ended (.error (.notFound "Calendar event not found"))) next

/-! ### The steps of each call -/

def create (db : Database) (projectId : ProjectId) (dto : CreateCalendarEventDto) (userId : UserId)
    (randomUUID : EventId) : Phase → Option (Database × Phase)
  | .begun => some (db, assertMembership db projectId userId (assertValidDateRange dto.startAt dto.endAt (.checked none)))
  | .checked _ => some (db, assertCategoryBelongsToProject db projectId dto.categoryId (.categoryChecked none))
  | .categoryChecked _ =>
      some (db, dto.assigneeIds.elim (.validated none) fun userIds =>
        assertAssigneesAreProjectMembers db projectId userIds (.validated none))
  | .validated _ =>
      if db.hasEvent randomUUID then some (db, .ended (.error .database))
      else
        some ({ db with calendarEvents := db.calendarEvents ++ [dto.row projectId randomUUID] }, .written randomUUID)
  | .written id => some (replaceAssignees db id dto.assigneeIds)
  | .assigned id => some (db, assertMembership db projectId userId (.guarded id))
  | .guarded id => some (db, findByIdForProject db id projectId fun event => .ended (.ok event))
  | _ => none

def update (db : Database) (id : EventId) (dto : UpdateCalendarEventDto) (projectId : ProjectId) (userId : UserId) :
    Phase → Option (Database × Phase)
  | .begun => some (db, assertMembership db projectId userId .member)
  | .member =>
      some (db, findByIdForProject db id projectId fun existingEvent =>
        assertValidDateRange (dto.startAt.join.getD (toISOString existingEvent.startAt))
          (dto.endAt.join.getD (toISOString existingEvent.endAt)) (.checked (some existingEvent)))
  | .checked existing =>
      some (db, dto.categoryId.join.elim (.categoryChecked existing) fun categoryId =>
        assertCategoryBelongsToProject db projectId categoryId (.categoryChecked existing))
  | .categoryChecked existing =>
      some (db, dto.assigneeIds.elim (.validated existing) fun userIds =>
        assertAssigneesAreProjectMembers db projectId userIds (.validated existing))
  | .validated _ =>
      if dto.refused then some (db, .ended (.error .database))
      else if db.hasEvent id then
        some ({ db with
            calendarEvents := db.calendarEvents.map fun row => if row.id = id then row.update dto else row },
          .written id)
      else some (db, .ended (.error (.notFound "Calendar event not found")))
  | .written id => some (replaceAssignees db id dto.assigneeIds)
  | .assigned id => some (db, assertMembership db projectId userId (.guarded id))
  | .guarded id => some (db, findByIdForProject db id projectId fun event => .ended (.ok event))
  | _ => none

/-- A removal that finds the event gone answers with what its guard has read. -/
def remove (db : Database) (id : EventId) (projectId : ProjectId) (userId : UserId) : Phase → Option (Database × Phase)
  | .begun => some (db, assertMembership db projectId userId .member)
  | .member => some (db, findByIdForProject db id projectId fun existingEvent => .checked (some existingEvent))
  | .checked (some existingEvent) =>
      some ({ db with
          calendarEvents := db.calendarEvents.filter (·.id ≠ id)
          calendarAssignees := Function.update db.calendarAssignees id [] },
        .ended (.ok ((db.findByIdForProject id projectId).getD existingEvent)))
  | _ => none

def Request.effect (request : Request) (db : Database) (randomUUID : EventId) (phase : Phase) :
    Option (Database × Phase) :=
  match request with
  | .create projectId dto userId => Calendar.create db projectId dto userId randomUUID phase
  | .update id dto projectId userId => Calendar.update db id dto projectId userId phase
  | .remove id projectId userId => Calendar.remove db id projectId userId phase

/-! ### The service -/

structure Service where
  db : Database
  calls : Nat → Option Call

inductive Label where
  | start (id : Nat) (request : Request)
  | advance (id : Nat) (randomUUID : EventId)
  | fail (id : Nat)
  deriving DecidableEq, Repr

def Label.call : Label → Nat
  | .start id _ => id
  | .advance id _ => id
  | .fail id => id

namespace Service

def initial (db : Database) : Service where
  db := db
  calls _ := none

def step (s : Service) : Label → Option Service
  | .start id request =>
      if (s.calls id).isSome then none else some { s with calls := Function.update s.calls id (some ⟨request, .begun⟩) }
  | .advance id randomUUID =>
      (s.calls id).bind fun call =>
        (call.request.effect s.db randomUUID call.phase).map fun effect =>
          { db := effect.1, calls := Function.update s.calls id (some ⟨call.request, effect.2⟩) }
  | .fail id =>
      (s.calls id).bind fun call =>
        match call.phase with
        | .ended _ => none
        | _ => some { s with calls := Function.update s.calls id (some ⟨call.request, .ended (.error .database)⟩) }

end Service

end Transcendence.Calendar
