import Transcendence.Base.OrderedMap
import Transcendence.Tasks.Service

/-!
# The board of a client

`tasksReducer` and the socket handlers of the Kanban page, which turn the events of the page's
project into its actions. The state of a client is the flat task list that `GET /tasks` returned,
with every action dispatched since; a column is what `selectColumnTasks` derives from it.
JavaScript's sort is stable, as `List.insertionSort` is.
-/

namespace Transcendence.Tasks

/-- `Partial<Task>`; a nullable field can be absent or set to null. -/
structure TaskChanges where
  id : Option TaskId := none
  projectId : Option ProjectId := none
  title : Option String := none
  status : Option TaskStatus := none
  categoryId : Option (Option String) := none
  rank : Option Int := none
  priority : Option TaskPriority := none
  startAt : Option (Option Int) := none
  endAt : Option (Option Int) := none
  description : Option (Option String) := none
  notes : Option (Option String) := none
  onCalendar : Option Bool := none
  assignees : Option (List UserId) := none
  deriving DecidableEq, Repr

/-- `{ ...task, ...changes }` -/
def Task.merge (task : Task) (changes : TaskChanges) : Task where
  id := changes.id.getD task.id
  projectId := changes.projectId.getD task.projectId
  status := changes.status.getD task.status
  rank := changes.rank.getD task.rank
  content := {
    title := changes.title.getD task.content.title
    categoryId := changes.categoryId.getD task.content.categoryId
    priority := changes.priority.getD task.content.priority
    startAt := changes.startAt.getD task.content.startAt
    endAt := changes.endAt.getD task.content.endAt
    description := changes.description.getD task.content.description
    notes := changes.notes.getD task.content.notes
    onCalendar := changes.onCalendar.getD task.content.onCalendar }
  assignees := changes.assignees.getD task.assignees

/-- A whole task as changes, which is what the socket delivers. -/
def TaskChanges.ofTask (task : Task) : TaskChanges where
  id := some task.id
  projectId := some task.projectId
  title := some task.content.title
  status := some task.status
  categoryId := some task.content.categoryId
  rank := some task.rank
  priority := some task.content.priority
  startAt := some task.content.startAt
  endAt := some task.content.endAt
  description := some task.content.description
  notes := some task.content.notes
  onCalendar := some task.content.onCalendar
  assignees := some task.assignees

inductive TasksAction where
  | tasks_loaded (tasks : List Task)
  | task_created (task : Task)
  | task_updated (taskId : TaskId) (changes : TaskChanges)
  | task_moved (taskId : TaskId) (toStatus : TaskStatus) (toIndex : Int)
  | task_deleted (taskId : TaskId)
  deriving DecidableEq, Repr

def sortByRank (tasks : List Task) : List Task := tasks.insertionSort fun a b => a.rank ≤ b.rank

/-- One column of the board: the tasks of a status, in rank order. -/
def selectColumnTasks (tasks : List Task) (status : TaskStatus) : List Task :=
  sortByRank (tasks.filter (·.status = status))

/-- Rewrites the ranks of one column to `0, …, n - 1`. -/
def reindexStatus (tasks : List Task) (status : TaskStatus) : List Task :=
  let new_ranks := OrderedMap.setAll [] <|
    (selectColumnTasks tasks status).zipIdx.map fun entry => (entry.1.id, entry.2)
  tasks.map fun task =>
    match new_ranks.get task.id with
    | none => task
    | some new_rank => if task.rank = new_rank then task else { task with rank := new_rank }

/-- The `task_moved` case, for the task found. -/
def moveTaskTo (state : List Task) (moved : Task) (toStatus : TaskStatus) (toIndex : Int) : List Task :=
  let others := sortByRank (state.filter fun task => task.status = toStatus ∧ task.id ≠ moved.id)
  let insert_index := max 0 (min toIndex others.length)
  let destination := others.insertIdx insert_index.toNat moved
  let source :=
    if moved.status = toStatus then []
    else sortByRank (state.filter fun task => task.status = moved.status ∧ task.id ≠ moved.id)
  let new_positions := OrderedMap.setAll
    (OrderedMap.setAll [] (destination.zipIdx.map fun entry => (entry.1.id, (toStatus, entry.2))))
    (source.zipIdx.map fun entry => (entry.1.id, (moved.status, entry.2)))
  state.map fun task =>
    match new_positions.get task.id with
    | none => task
    | some (status, rank) =>
        if task.status = status ∧ task.rank = rank then task else { task with status := status, rank := rank }

def tasksReducer (state : List Task) : TasksAction → List Task
  | .tasks_loaded tasks => tasks
  | .task_created task =>
      if state.any (·.id = task.id) then state else reindexStatus (state ++ [task]) task.status
  | .task_updated taskId changes =>
      match state.find? (·.id = taskId) with
      | none => state
      | some existing =>
          let next := state.map fun task => if task.id = taskId then task.merge changes else task
          match changes.status with
          | none => next
          | some new_status =>
              if new_status = existing.status then next
              else reindexStatus (reindexStatus next existing.status) new_status
  | .task_moved taskId toStatus toIndex =>
      match state.find? (·.id = taskId) with
      | none => state
      | some moved => moveTaskTo state moved toStatus toIndex
  | .task_deleted taskId =>
      match state.find? (·.id = taskId) with
      | none => state
      | some existing => reindexStatus (state.filter (·.id ≠ taskId)) existing.status

/-! ### The socket handlers -/

def handleTaskCreated (projectId : ProjectId) (task : Task) : Option TasksAction :=
  if task.projectId ≠ projectId then none else some (.task_created task)

def handleTaskUpdated (projectId : ProjectId) (taskId : TaskId) (payloadProjectId : ProjectId) (changes : Task) :
    Option TasksAction :=
  if payloadProjectId ≠ projectId then none else some (.task_updated taskId (.ofTask changes))

def handleTaskMoved (projectId : ProjectId) (payload : TaskMoved) : Option TasksAction :=
  if payload.projectId ≠ projectId then none else some (.task_moved payload.taskId payload.toStatus payload.toIndex)

def handleTaskDeleted (projectId : ProjectId) (taskId : TaskId) (payloadProjectId : ProjectId) : Option TasksAction :=
  if payloadProjectId ≠ projectId then none else some (.task_deleted taskId)

/-- What the page of a project dispatches for an event. -/
def dispatched (projectId : ProjectId) : TaskEvent → Option TasksAction
  | .created task => handleTaskCreated projectId task
  | .updated taskId payloadProjectId changes => handleTaskUpdated projectId taskId payloadProjectId changes
  | .moved payload => handleTaskMoved projectId payload
  | .deleted taskId payloadProjectId => handleTaskDeleted projectId taskId payloadProjectId

/-- The project an event names; a created task names its own. -/
def TaskEvent.projectId : TaskEvent → ProjectId
  | .created task => task.projectId
  | .updated _ projectId _ => projectId
  | .moved payload => payload.projectId
  | .deleted _ projectId => projectId

def receive (projectId : ProjectId) (state : List Task) (event : TaskEvent) : List Task :=
  (dispatched projectId event).elim state (tasksReducer state)

theorem receive_of_ne (state : List Task) (event : TaskEvent) {projectId : ProjectId} (h : event.projectId ≠ projectId) :
    receive projectId state event = state := by
  have hnone : dispatched projectId event = none := by
    cases event <;> exact if_pos h
  rw [receive, hnone, Option.elim_none]

/-- The state after the events have been delivered in this order. -/
def receiveAll (projectId : ProjectId) (state : List Task) (events : List TaskEvent) : List Task :=
  events.foldl (receive projectId) state

theorem receiveAll_append (projectId : ProjectId) (state : List Task) (events later : List TaskEvent) :
    receiveAll projectId state (events ++ later) = receiveAll projectId (receiveAll projectId state events) later :=
  List.foldl_append

end Transcendence.Tasks
