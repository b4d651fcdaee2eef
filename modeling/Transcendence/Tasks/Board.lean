import Transcendence.Base.Instants
import Transcendence.Base.RankedColumns

/-!
# Task rows and their transactions

The `Task` table with the tables its mutations touch, and the transactions of `TasksService` as
functions of the database. A SERIALIZABLE transaction is one such function: `none` means that it
throws, and a transaction that throws or aborts leaves the database as it was. The dates of a request
are instants, those of a row what its column keeps of them. A date the database client cannot read
makes the statement throw that has it.
-/

namespace Transcendence.Tasks

open Instants

abbrev ProjectId := String
abbrev UserId := String
abbrev TaskId := String

inductive TaskStatus where
  | TODO
  | IN_PROGRESS
  | REVIEW
  | COMPLETED
  deriving DecidableEq, Repr

inductive TaskPriority where
  | LOW
  | MEDIUM
  | HIGH
  deriving DecidableEq, Repr

/-- The columns a PATCH can change without moving the task. -/
structure TaskContent where
  title : String
  categoryId : Option String
  priority : TaskPriority
  startAt : Option Int
  endAt : Option Int
  description : Option String
  notes : Option String
  onCalendar : Bool
  deriving DecidableEq, Repr

structure TaskRow where
  id : TaskId
  projectId : ProjectId
  status : TaskStatus
  rank : Int
  content : TaskContent
  deriving DecidableEq, Repr

/-- A row with its assignees, as every read path returns it. -/
structure Task extends TaskRow where
  assignees : List UserId
  deriving DecidableEq, Repr

structure CreateTaskDto where
  title : String
  categoryId : String
  status : TaskStatus
  priority : TaskPriority
  rank : Int
  startAt : Option Int
  endAt : Option Int
  description : Option String
  notes : Option String
  onCalendar : Bool
  assigneeIds : Option (List UserId)
  deriving DecidableEq, Repr

/-- Of a nullable column, `none` is a field that is not sent, and `some none` one that is sent as null:
the `@IsOptional` of `CreateTaskDto` is inherited and lets it through. -/
structure UpdateTaskDto where
  title : Option String := none
  categoryId : Option String := none
  status : Option TaskStatus := none
  priority : Option TaskPriority := none
  rank : Option Int := none
  startAt : Option (Option Int) := none
  endAt : Option (Option Int) := none
  description : Option (Option String) := none
  notes : Option (Option String) := none
  onCalendar : Option Bool := none
  assigneeIds : Option (List UserId) := none
  deriving DecidableEq, Repr

/-- `data: taskFields`, where a missing field keeps its column. -/
def TaskContent.update (content : TaskContent) (dto : UpdateTaskDto) : TaskContent where
  title := dto.title.getD content.title
  categoryId := dto.categoryId.or content.categoryId
  priority := dto.priority.getD content.priority
  startAt := dto.startAt.elim content.startAt (·.map timestamp3)
  endAt := dto.endAt.elim content.endAt (·.map timestamp3)
  description := dto.description.getD content.description
  notes := dto.notes.getD content.notes
  onCalendar := dto.onCalendar.getD content.onCalendar

def CreateTaskDto.content (dto : CreateTaskDto) : TaskContent where
  title := dto.title
  categoryId := some dto.categoryId
  priority := dto.priority
  startAt := dto.startAt.map timestamp3
  endAt := dto.endAt.map timestamp3
  description := dto.description
  notes := dto.notes
  onCalendar := dto.onCalendar

inductive TaskMutationActor where
  | USER (userId : UserId)
  | MACHINE (tokenId : String)
  deriving DecidableEq, Repr

inductive MachineTaskAction where
  | CREATE
  | UPDATE
  | DELETE
  deriving DecidableEq, Repr

structure MachineTaskActionAudit where
  tokenId : String
  projectId : ProjectId
  taskId : TaskId
  action : MachineTaskAction
  deriving DecidableEq, Repr

structure Database where
  tasks : List TaskRow
  taskAssignees : TaskId → List UserId
  projectMembers : ProjectId → UserId → Bool
  taskCategories : String → Option ProjectId
  audit : List MachineTaskActionAudit

/-- What `task:moved` carries. -/
structure TaskMoved where
  taskId : TaskId
  projectId : ProjectId
  toStatus : TaskStatus
  toIndex : Int
  deriving DecidableEq, Repr

/-! ### Ranks -/

def closeRankGap (tasks : List TaskRow) (projectId : ProjectId) (status : TaskStatus) (vacatedRank : Int) :
    List TaskRow :=
  tasks.map fun task =>
    if task.projectId = projectId ∧ task.status = status ∧ task.rank > vacatedRank then
      { task with rank := task.rank - 1 }
    else task

def columnLength (tasks : List TaskRow) (projectId : ProjectId) (status : TaskStatus) (excludeId : Option TaskId) : Nat :=
  (tasks.filter fun task => task.projectId = projectId ∧ task.status = status ∧ some task.id ≠ excludeId).length

def clampRank (wantedRank : Option Int) (columnLength : Nat) : Int :=
  match wantedRank with
  | none => columnLength
  | some wantedRank => min (max wantedRank 0) columnLength

/-- The rank of the slot, and the rows shifted to make room for it. -/
def openRankSlot (tasks : List TaskRow) (projectId : ProjectId) (status : TaskStatus) (wantedRank : Option Int)
    (excludeId : Option TaskId) : Int × List TaskRow :=
  let rank := clampRank wantedRank (columnLength tasks projectId status excludeId)
  (rank,
    tasks.map fun task =>
      if task.projectId = projectId ∧ task.status = status ∧ task.rank ≥ rank ∧ some task.id ≠ excludeId then
        { task with rank := task.rank + 1 }
      else task)

/-- The rows `moveTask` leaves, with the status and rank it gives the task. -/
def moveRows (tasks : List TaskRow) (current : TaskRow) (projectId : ProjectId) (requestedStatus : Option TaskStatus)
    (wantedRank : Option Int) (dto : UpdateTaskDto) : List TaskRow × TaskStatus × Int :=
  let targetStatus := requestedStatus.getD current.status
  let closed := closeRankGap tasks projectId current.status current.rank
  let slot := openRankSlot closed projectId targetStatus wantedRank (some current.id)
  (slot.2.map fun task =>
      if task.id = current.id then
        { task with status := targetStatus, rank := slot.1, content := task.content.update dto }
      else task,
    targetStatus, slot.1)

/-! ### Transactions -/

namespace Database

def findTask (db : Database) (id : TaskId) : Option TaskRow := db.tasks.find? (·.id = id)

def mapTask (db : Database) (row : TaskRow) : Task := { row with assignees := db.taskAssignees row.id }

def findByIdForProject (db : Database) (id : TaskId) (projectId : ProjectId) : Option Task :=
  (db.tasks.find? fun task => task.id = id ∧ task.projectId = projectId).map db.mapTask

/-- The board of a project. -/
def board (db : Database) (projectId : ProjectId) : List Task :=
  (db.tasks.filter (·.projectId = projectId)).map db.mapTask

def membersAmong (db : Database) (projectId : ProjectId) (userIds : List UserId) : Nat :=
  (userIds.dedup.filter (db.projectMembers projectId)).length

/-- The members are counted afresh, and inserting an assignee fails if the task is gone. -/
def replaceAssigneesInTransaction (db : Database) (taskId : TaskId) (projectId : ProjectId) (userIds : List UserId) :
    Option Database :=
  if userIds.length > 0 ∧ (db.membersAmong projectId userIds ≠ userIds.length ∨ (db.findTask taskId).isNone) then none
  else some { db with taskAssignees := Function.update db.taskAssignees taskId userIds }

def replaceForMachine (db : Database) (actor : TaskMutationActor) (taskId : TaskId) (projectId : ProjectId)
    (assigneeIds : Option (List UserId)) : Option Database :=
  match actor, assigneeIds with
  | .MACHINE _, some userIds => db.replaceAssigneesInTransaction taskId projectId userIds
  | _, _ => some db

def recordMachineAction (db : Database) (actor : TaskMutationActor) (projectId : ProjectId) (taskId : TaskId)
    (action : MachineTaskAction) : Database :=
  match actor with
  | .USER _ => db
  | .MACHINE tokenId => { db with audit := db.audit ++ [⟨tokenId, projectId, taskId, action⟩] }

/-- The transaction of `createAs`; `id` is the uuid the database generates. -/
def createTask (db : Database) (actor : TaskMutationActor) (projectId : ProjectId) (dto : CreateTaskDto) (id : TaskId) :
    Option Database :=
  if (db.findTask id).isSome then none
  else
    let slot := openRankSlot db.tasks projectId dto.status (some dto.rank) none
    let created : TaskRow := ⟨id, projectId, dto.status, slot.1, dto.content⟩
    (replaceForMachine { db with tasks := slot.2 ++ [created] } actor id projectId dto.assigneeIds).map
      (·.recordMachineAction actor projectId id .CREATE)

/-- The transaction of `moveTask`. -/
def moveTask (db : Database) (actor : TaskMutationActor) (id : TaskId) (projectId : ProjectId) (dto : UpdateTaskDto) :
    Option (Database × TaskMoved) :=
  (db.findTask id).bind fun current =>
    let moved := moveRows db.tasks current projectId dto.status dto.rank dto
    (replaceForMachine { db with tasks := moved.1 } actor id projectId dto.assigneeIds).map fun db =>
      (db.recordMachineAction actor projectId id .UPDATE, ⟨id, projectId, moved.2.1, moved.2.2⟩)

/-- The update of a task that does not move: one statement for a user, a transaction for a machine. -/
def updateTask (db : Database) (actor : TaskMutationActor) (id : TaskId) (projectId : ProjectId) (dto : UpdateTaskDto) :
    Option Database :=
  (db.findTask id).bind fun _ =>
    let tasks := db.tasks.map fun task =>
      if task.id = id then { task with content := task.content.update dto } else task
    (replaceForMachine { db with tasks } actor id projectId dto.assigneeIds).map
      (·.recordMachineAction actor projectId id .UPDATE)

/-- The transaction of `removeAs`, with the deleted task; its assignees go with it. -/
def deleteTask (db : Database) (actor : TaskMutationActor) (id : TaskId) (projectId : ProjectId) :
    Option (Database × Task) :=
  (db.findTask id).map fun deleted =>
    (({ db with
        tasks := closeRankGap (db.tasks.filter (·.id ≠ id)) projectId deleted.status deleted.rank
        taskAssignees := Function.update db.taskAssignees id [] }).recordMachineAction actor projectId id .DELETE,
      db.mapTask deleted)

end Database

end Transcendence.Tasks
