import Transcendence.Base.Runs
import Transcendence.Tasks.Board

/-!
# Calls of the task service

`createAs`, `updateAs` and `removeAs` of `TasksService`, for any number of calls in flight. A call
is cut at its awaits: each read, each transaction and each emission is a step of its own, so what a
call has read may be out of date when its transaction starts, and another call may commit or emit
between its commit and its own emissions. A call may also fail at any of its awaits, its transaction
may abort, and then it has no further effect.

Two fields are not in the program: `issued`, the ids that rows have had so far, from which a
generated uuid is taken to be different, and `unannounced`, the calls whose move is committed and
whose `task:moved` is not emitted yet, in commit order.
-/

namespace Transcendence.Tasks

open Instants

abbrev CallId := Nat

inductive TaskEvent where
  | created (task : Task)
  | moved (payload : TaskMoved)
  | updated (taskId : TaskId) (projectId : ProjectId) (changes : Task)
  | deleted (taskId : TaskId) (projectId : ProjectId)
  deriving DecidableEq, Repr

inductive Request where
  | createAs (projectId : ProjectId) (dto : CreateTaskDto) (actor : TaskMutationActor)
  | updateAs (id : TaskId) (dto : UpdateTaskDto) (projectId : ProjectId) (actor : TaskMutationActor)
  | removeAs (id : TaskId) (projectId : ProjectId) (actor : TaskMutationActor)
  deriving DecidableEq, Repr

def Request.projectId : Request → ProjectId
  | .createAs projectId _ _ => projectId
  | .updateAs _ _ projectId _ => projectId
  | .removeAs _ projectId _ => projectId

/-- Where a call stands; `existing` is the task as `findById` returned it before the transaction. -/
inductive Progress where
  | begun
  | member
  | existing (existing : Option Task)
  | categoryChecked (existing : Option Task)
  | validated (existing : Option Task)
  /-- The move is committed and `task:moved` not emitted yet. -/
  | movedRow (moved : TaskMoved)
  | committed (taskId : TaskId)
  | assigned (taskId : TaskId)
  | reread (task : Task)
  /-- The row as it was, with its assignees. -/
  | deletedRow (deleted : Task)
  /-- With the task that the call returns. -/
  | finished (task : Task)
  | failed
  deriving DecidableEq, Repr

def Progress.isFinished : Progress → Bool
  | .finished _ => true
  | _ => false

structure Call where
  request : Request
  progress : Progress
  deriving DecidableEq, Repr

/-- What one step of a call does to the database, and what it emits. -/
structure Effect where
  db : Database
  progress : Progress
  emitted : List TaskEvent

def Database.stay (db : Database) (progress : Progress) : Effect := ⟨db, progress, []⟩

/-! ### The steps of each call -/

/-- Whether `assertValidDateRange` returns. -/
def validDateRange : Option Int → Option Int → Bool
  | some startAt, some endAt => date startAt ≤ date endAt
  | _, _ => true

def isMember (db : Database) (projectId : ProjectId) : TaskMutationActor → Bool
  | .USER userId => db.projectMembers projectId userId
  | .MACHINE _ => true

def assigneesAreProjectMembers (db : Database) (projectId : ProjectId) (assigneeIds : Option (List UserId)) : Bool :=
  match assigneeIds with
  | none => true
  | some userIds => userIds.length = 0 || db.membersAmong projectId userIds = userIds.length

def categoryBelongsToProject (db : Database) (projectId : ProjectId) (categoryId : Option String) : Bool :=
  match categoryId with
  | none => true
  | some categoryId => db.taskCategories categoryId = some projectId

def check (db : Database) (holds : Bool) (progress : Progress) : Effect :=
  db.stay (if holds then progress else .failed)

/-- The assignees of a user's request, replaced in a transaction of their own. -/
def replaceAssignees (db : Database) (actor : TaskMutationActor) (taskId : TaskId) (projectId : ProjectId)
    (assigneeIds : Option (List UserId)) : Effect :=
  match actor, assigneeIds with
  | .USER _, some userIds =>
      match db.replaceAssigneesInTransaction taskId projectId userIds with
      | none => db.stay .failed
      | some db => db.stay (.assigned taskId)
  | _, _ => db.stay (.assigned taskId)

def reread (db : Database) (taskId : TaskId) (projectId : ProjectId) : Effect :=
  match db.findByIdForProject taskId projectId with
  | none => db.stay .failed
  | some task => db.stay (.reread task)

def createAs (db : Database) (projectId : ProjectId) (dto : CreateTaskDto) (actor : TaskMutationActor)
    (randomUUID : TaskId) : Progress → Option Effect
  | .begun => some (check db (isMember db projectId actor) .member)
  | .member => some (check db (validDateRange dto.startAt dto.endAt) (.existing none))
  | .existing _ => some (check db (categoryBelongsToProject db projectId (some dto.categoryId)) (.categoryChecked none))
  | .categoryChecked _ => some (check db (assigneesAreProjectMembers db projectId dto.assigneeIds) (.validated none))
  | .validated _ =>
      match db.createTask actor projectId dto randomUUID with
      | none => some (db.stay .failed)
      | some db => some (db.stay (.committed randomUUID))
  | .committed taskId => some (replaceAssignees db actor taskId projectId dto.assigneeIds)
  | .assigned taskId => some (reread db taskId projectId)
  | .reread task => some ⟨db, .finished task, [.created task]⟩
  | _ => none

/-- Only a real move needs the resequencing. -/
def isMoving (dto : UpdateTaskDto) (existingTask : Task) : Bool :=
  (dto.status.isSome && dto.status != some existingTask.status) || (dto.rank.isSome && dto.rank != some existingTask.rank)

def updateAs (db : Database) (id : TaskId) (dto : UpdateTaskDto) (projectId : ProjectId) (actor : TaskMutationActor) :
    Progress → Option Effect
  | .begun => some (check db (isMember db projectId actor) .member)
  | .member =>
      match db.findByIdForProject id projectId with
      | none => some (db.stay .failed)
      | some task =>
          some (check db
            (validDateRange (dto.startAt.join.or (task.content.startAt.map toISOString))
              (dto.endAt.join.or (task.content.endAt.map toISOString)))
            (.existing (some task)))
  | .existing task => some (check db (categoryBelongsToProject db projectId dto.categoryId) (.categoryChecked task))
  | .categoryChecked task =>
      some (check db (assigneesAreProjectMembers db projectId dto.assigneeIds) (.validated task))
  | .validated (some existingTask) =>
      if isMoving dto existingTask then
        match db.moveTask actor id projectId dto with
        | none => some (db.stay .failed)
        | some (db, moved) => some (db.stay (.movedRow moved))
      else
        match db.updateTask actor id projectId dto with
        | none => some (db.stay .failed)
        | some db => some (db.stay (.committed id))
  | .movedRow moved => some ⟨db, .committed id, [.moved moved]⟩
  | .committed taskId => some (replaceAssignees db actor taskId projectId dto.assigneeIds)
  | .assigned taskId => some (reread db taskId projectId)
  | .reread task => some ⟨db, .finished task, [.updated id projectId task]⟩
  | _ => none

def removeAs (db : Database) (id : TaskId) (projectId : ProjectId) (actor : TaskMutationActor) :
    Progress → Option Effect
  | .begun => some (check db (isMember db projectId actor) .member)
  | .member => some (check db (db.findByIdForProject id projectId).isSome (.existing none))
  | .existing _ =>
      match db.deleteTask actor id projectId with
      | none => some (db.stay .failed)
      | some (db, deleted) => some (db.stay (.deletedRow deleted))
  | .deletedRow deleted => some ⟨db, .finished deleted, [.deleted id projectId]⟩
  | _ => none

def Request.effect (request : Request) (db : Database) (randomUUID : TaskId) (progress : Progress) : Option Effect :=
  match request with
  | .createAs projectId dto actor => Tasks.createAs db projectId dto actor randomUUID progress
  | .updateAs id dto projectId actor => Tasks.updateAs db id dto projectId actor progress
  | .removeAs id projectId actor => Tasks.removeAs db id projectId actor progress

/-! ### The service -/

structure Service where
  db : Database
  calls : CallId → Option Call
  emitted : List TaskEvent
  issued : List TaskId
  unannounced : List CallId

inductive Label where
  | start (id : CallId) (request : Request)
  | advance (id : CallId) (randomUUID : TaskId)
  | fail (id : CallId)
  deriving DecidableEq, Repr

/-- The call that makes the step. -/
def Label.call : Label → CallId
  | .start id _ => id
  | .advance id _ => id
  | .fail id => id

namespace Service

def initial (db : Database) : Service where
  db := db
  calls _ := none
  emitted := []
  issued := db.tasks.map (·.id)
  unannounced := []

def setCall (s : Service) (id : CallId) (call : Call) : Service :=
  { s with calls := Function.update s.calls id (some call) }

def start (s : Service) (id : CallId) (request : Request) : Option Service :=
  if (s.calls id).isSome then none else some (s.setCall id ⟨request, .begun⟩)

/-- The calls with an unannounced move after one of them has made this step. -/
def queueMove (unannounced : List CallId) (id : CallId) : Progress → Progress → List CallId
  | .movedRow _, _ => unannounced.erase id
  | _, .movedRow _ => unannounced ++ [id]
  | _, _ => unannounced

def advance (s : Service) (id : CallId) (randomUUID : TaskId) : Option Service :=
  if randomUUID ∈ s.issued then none
  else
    (s.calls id).bind fun call =>
      (call.request.effect s.db randomUUID call.progress).map fun effect =>
        { s with
          db := effect.db
          emitted := s.emitted ++ effect.emitted
          issued := effect.db.tasks.map TaskRow.id ++ s.issued
          unannounced := queueMove s.unannounced id call.progress effect.progress }.setCall id
            { call with progress := effect.progress }

/-- An await throws. -/
def fail (s : Service) (id : CallId) : Option Service :=
  (s.calls id).bind fun call =>
    match call.progress with
    | .finished _ | .failed => none
    | _ => some ({ s with unannounced := s.unannounced.erase id }.setCall id { call with progress := .failed })

def step (s : Service) : Label → Option Service
  | .start id request => s.start id request
  | .advance id randomUUID => s.advance id randomUUID
  | .fail id => s.fail id

end Service

end Transcendence.Tasks
