import Transcendence.Base.JsonNumbers
import Transcendence.Base.OrderedMap
import Transcendence.Tasks.Board

/-!
# The reducer of the Kanban page, on what JSON can hold

`tasksReducer` of `frontend/src/lib/tasksReducer.ts` with the tasks that `parseTask` lets through: a
rank is any number, and so is the index of a move. JavaScript's sort is stable, as
`List.insertionSort` is, and `splice` drops the fraction of its index.
-/

namespace Transcendence.Kanban

open Tasks (TaskId ProjectId TaskStatus TaskPriority)

structure TaskAssigneeUser where
  id : String
  username : String
  avatarUrl : Option String
  deriving DecidableEq

structure Task where
  id : TaskId
  projectId : ProjectId
  title : String
  status : TaskStatus
  categoryId : Option String
  rank : JsonNumber
  priority : TaskPriority
  startAt : Option String
  endAt : Option String
  description : Option String
  notes : Option String
  onCalendar : Bool
  assignees : List TaskAssigneeUser
  deriving DecidableEq

/-- `Partial<Task>`; a nullable field can be absent or set to null. -/
structure TaskChanges where
  id : Option TaskId
  projectId : Option ProjectId
  title : Option String
  status : Option TaskStatus
  categoryId : Option (Option String)
  rank : Option JsonNumber
  priority : Option TaskPriority
  startAt : Option (Option String)
  endAt : Option (Option String)
  description : Option (Option String)
  notes : Option (Option String)
  onCalendar : Option Bool
  assignees : Option (List TaskAssigneeUser)
  deriving DecidableEq

/-- `{ ...task, ...changes }` -/
def Task.merge (task : Task) (changes : TaskChanges) : Task where
  id := changes.id.getD task.id
  projectId := changes.projectId.getD task.projectId
  title := changes.title.getD task.title
  status := changes.status.getD task.status
  categoryId := changes.categoryId.getD task.categoryId
  rank := changes.rank.getD task.rank
  priority := changes.priority.getD task.priority
  startAt := changes.startAt.getD task.startAt
  endAt := changes.endAt.getD task.endAt
  description := changes.description.getD task.description
  notes := changes.notes.getD task.notes
  onCalendar := changes.onCalendar.getD task.onCalendar
  assignees := changes.assignees.getD task.assignees

/-- A whole parsed task as changes, which is what the socket delivers. -/
def TaskChanges.ofTask (task : Task) : TaskChanges where
  id := some task.id
  projectId := some task.projectId
  title := some task.title
  status := some task.status
  categoryId := some task.categoryId
  rank := some task.rank
  priority := some task.priority
  startAt := some task.startAt
  endAt := some task.endAt
  description := some task.description
  notes := some task.notes
  onCalendar := some task.onCalendar
  assignees := some task.assignees

theorem merge_ofTask (task payload : Task) : task.merge (.ofTask payload) = payload :=
  rfl

inductive TasksAction where
  | tasks_loaded (tasks : List Task)
  | task_created (task : Task)
  | task_updated (taskId : TaskId) (changes : TaskChanges)
  | task_moved (taskId : TaskId) (toStatus : TaskStatus) (toIndex : JsonNumber)
  | task_deleted (taskId : TaskId)
  deriving DecidableEq

def sortByRank (tasks : List Task) : List Task :=
  tasks.insertionSort fun a b => a.rank ≤ b.rank

/-- One column of the board: the tasks of a status, in rank order. -/
def selectColumnTasks (tasks : List Task) (status : TaskStatus) : List Task :=
  sortByRank (tasks.filter (·.status = status))

/-- Rewrites the ranks of one column to `0, …, n - 1`. -/
def reindexStatus (tasks : List Task) (status : TaskStatus) : List Task :=
  let new_ranks := OrderedMap.setAll [] <|
    (selectColumnTasks tasks status).zipIdx.map fun entry => (entry.1.id, (entry.2 : JsonNumber))
  tasks.map fun task =>
    match new_ranks.get task.id with
    | none => task
    | some new_rank => if task.rank = new_rank then task else { task with rank := new_rank }

/-- The `task_moved` case, for the task found. -/
def moveTaskTo (state : List Task) (moved : Task) (toStatus : TaskStatus) (toIndex : JsonNumber) : List Task :=
  let others := sortByRank (state.filter fun task => task.status = toStatus ∧ task.id ≠ moved.id)
  let destination := others.insertIdx (JsonNumber.clampIndex toIndex others.length) moved
  let source :=
    if moved.status = toStatus then []
    else sortByRank (state.filter fun task => task.status = moved.status ∧ task.id ≠ moved.id)
  let new_positions := OrderedMap.setAll
    (OrderedMap.setAll [] (destination.zipIdx.map fun entry => (entry.1.id, (toStatus, (entry.2 : JsonNumber)))))
    (source.zipIdx.map fun entry => (entry.1.id, (moved.status, (entry.2 : JsonNumber))))
  state.map fun task =>
    match new_positions.get task.id with
    | none => task
    | some (status, rank) =>
        if task.status = status ∧ task.rank = rank then task else { task with status := status, rank := rank }

def tasksReducer (state : List Task) : TasksAction → List Task
  | .tasks_loaded tasks => tasks
  | .task_created task =>
      if state.any (·.id = task.id) then state else reindexStatus (state ++ [task]) task.status
  | .task_updated taskId changes =>
      match state.find? (·.id = taskId) with
      | none => state
      | some existing =>
          let next := state.map fun task => if task.id = taskId then task.merge changes else task
          match changes.status with
          | none => next
          | some new_status =>
              if new_status = existing.status then next
              else reindexStatus (reindexStatus next existing.status) new_status
  | .task_moved taskId toStatus toIndex =>
      match state.find? (·.id = taskId) with
      | none => state
      | some moved => moveTaskTo state moved toStatus toIndex
  | .task_deleted taskId =>
      match state.find? (·.id = taskId) with
      | none => state
      | some existing => reindexStatus (state.filter (·.id ≠ taskId)) existing.status

/-! ### Boards -/

/-- The ranks of every column are `0, …, n - 1` in some order. -/
def Dense (tasks : List Task) : Prop :=
  ∀ status, ((tasks.filter (·.status = status)).map (·.rank)).Perm
    ((List.range (tasks.filter (·.status = status)).length).map (↑))

structure DenseBoard (tasks : List Task) : Prop where
  ids : (tasks.map (·.id)).Nodup
  dense : Dense tasks

/-- The `(id, status, rank)` triple of a task. -/
def Task.triple (task : Task) : TaskId × TaskStatus × JsonNumber :=
  (task.id, task.status, task.rank)

def triples (tasks : List Task) : List (TaskId × TaskStatus × JsonNumber) :=
  tasks.map Task.triple

end Transcendence.Kanban
