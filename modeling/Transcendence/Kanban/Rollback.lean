import Transcendence.Kanban.Columns

/-!
# Rolling back a move or a deletion

A failed request is undone by dispatching more actions. The columns without the task are the same
after any moves of it, after its deletion and after it is created again, so a last move to where it
was puts every column back.
-/

namespace Transcendence.Kanban

open Tasks (TaskId TaskStatus)
open RankedColumns (eraseItem moveItem)

variable {state : List Task} {columns : TaskStatus → List TaskId} {task : Task}

/-- The actions are dispatched one after another. -/
def dispatchAll (state : List Task) (actions : List TasksAction) : List Task :=
  actions.foldl tasksReducer state

/-- What `handleDeleteTask` dispatches when the request fails. -/
def deletionRolledBack (previous_task : Task) : List TasksAction :=
  [.task_deleted previous_task.id, .task_created previous_task,
    .task_moved previous_task.id previous_task.status previous_task.rank]

/-- Moves of one task, and the move to where it was. -/
def movesRolledBack (task : Task) (moves : List (TaskStatus × JsonNumber)) : List TasksAction :=
  moves.map (fun move => .task_moved task.id move.1 move.2) ++ [.task_moved task.id task.status task.rank]

theorem Shows.moveItem_rank (h : Shows state columns) (hmem : task ∈ state) :
    moveItem columns task.id task.status (slot columns task.id task.status task.rank) = columns := by
  have hin := h.column_of_mem hmem
  have hlt := List.idxOf_lt_length_of_mem hin
  have hslot : slot columns task.id task.status task.rank = (columns task.status).idxOf task.id := by
    rw [slot, (h.column task.status).rank task hmem rfl]
    apply JsonNumber.clampIndex_natCast
    rw [eraseItem, List.length_erase_of_mem hin]
    omega
  rw [hslot]
  exact RankedColumns.moveItem_idxOf hin fun status hstatus => (h.status_eq hmem hstatus).symm

/-- A board that agrees with another but for one task shows the columns of the other once the task is moved to where the
other has it. -/
theorem Shows.restored {state' : List Task} {columns' : TaskStatus → List TaskId} (h : Shows state columns)
    (hmem : task ∈ state) (h' : Shows state' columns') {moved : Task} (hmoved : moved ∈ state') (hid : moved.id = task.id)
    (hrest : eraseItem columns' task.id = eraseItem columns task.id) :
    Shows (tasksReducer state' (.task_moved task.id task.status task.rank)) columns := by
  have hshows := shows_task_moved h' hmoved task.status task.rank
  rw [hid, slot_congr hrest, RankedColumns.moveItem_congr hrest, h.moveItem_rank hmem] at hshows
  exact hshows

/-- Moves of one task leave the columns without it alone. -/
theorem shows_moves (h : Shows state columns) (hmem : task ∈ state) (moves : List (TaskStatus × JsonNumber)) :
    ∃ columns', Shows (dispatchAll state (moves.map fun move => .task_moved task.id move.1 move.2)) columns' ∧
      (∃ moved ∈ dispatchAll state (moves.map fun move => .task_moved task.id move.1 move.2), moved.id = task.id) ∧
      eraseItem columns' task.id = eraseItem columns task.id := by
  induction moves generalizing state columns task with
  | nil => exact ⟨columns, h, ⟨task, hmem, rfl⟩, rfl⟩
  | cons move moves ih =>
      have hnext := shows_task_moved h hmem move.1 move.2
      have hslot := slot_le columns task.id move.1 move.2
      have hin := RankedColumns.mem_moveItem_self columns task.id move.1 hslot
      obtain ⟨moved, hmoved, hid, _⟩ := ((hnext.column move.1).mem_iff task.id).mp hin
      obtain ⟨columns', hshows, hpresent, hrest⟩ := ih hnext hmoved
      rw [hid] at hshows hpresent hrest
      refine ⟨columns', hshows, hpresent, hrest.trans ?_⟩
      exact RankedColumns.eraseItem_moveItem (fun status => (h.column status).nodup) hslot

theorem shows_movesRolledBack (h : Shows state columns) (hmem : task ∈ state) (moves : List (TaskStatus × JsonNumber)) :
    Shows (dispatchAll state (movesRolledBack task moves)) columns := by
  obtain ⟨columns', hshows, ⟨moved, hmoved, hid⟩, hrest⟩ := shows_moves h hmem moves
  rw [movesRolledBack, dispatchAll, List.foldl_append]
  exact h.restored hmem hshows hmoved hid hrest

theorem shows_deletionRolledBack (h : Shows state columns) (hmem : task ∈ state) :
    Shows (dispatchAll state (deletionRolledBack task)) columns := by
  have hdeleted := shows_task_deleted h hmem
  have hgone : ∀ status, task.id ∉ eraseItem columns task.id status := fun status => (h.column status).nodup.not_mem_erase
  have hfresh : ∀ old ∈ tasksReducer state (.task_deleted task.id), old.id ≠ task.id := by
    intro old hold hid
    exact hgone old.status (hid ▸ hdeleted.column_of_mem hold)
  obtain ⟨ids, hcreated, hin, hids⟩ := shows_task_created hdeleted hfresh
  set without := tasksReducer state (.task_deleted task.id)
  have hrest : eraseItem (Function.update (eraseItem columns task.id) task.status ids) task.id =
      eraseItem columns task.id := by
    funext status
    rw [eraseItem]
    by_cases hstatus : status = task.status
    · rw [hstatus, Function.update_self, hids]
    · rw [Function.update_of_ne hstatus]
      exact List.erase_of_not_mem (hgone status)
  have hpresent : task.id ∈ Function.update (eraseItem columns task.id) task.status ids task.status := by
    rw [Function.update_self]
    exact hin
  obtain ⟨moved, hmoved, hid, _⟩ := ((hcreated.column task.status).mem_iff task.id).mp hpresent
  exact h.restored hmem hcreated hmoved hid hrest

/-- A rollback gives every task the status and the rank it had. -/
theorem board_rolled_back (h : DenseBoard state) (hmem : task ∈ state) :
    (triples (dispatchAll state (deletionRolledBack task))).Perm (triples state) ∧
    ∀ moves, (triples (dispatchAll state (movesRolledBack task moves))).Perm (triples state) := by
  constructor
  · exact (shows_deletionRolledBack h.shows hmem).triples_perm h.shows
  · intro moves
    exact (shows_movesRolledBack h.shows hmem moves).triples_perm h.shows

/-! ### A board with two cards in a column -/

def card (id : TaskId) (status : TaskStatus) (rank : Nat) : Task where
  id := id
  projectId := "p"
  title := id
  status := status
  categoryId := none
  rank := rank
  priority := .MEDIUM
  startAt := none
  endAt := none
  description := none
  notes := none
  onCalendar := false
  assignees := []

def twoCards : List Task :=
  [card "a" .TODO 0, card "b" .TODO 1]

theorem denseBoard_twoCards : DenseBoard twoCards := by
  refine ⟨by decide, fun status => ?_⟩
  cases status <;> decide

theorem mem_twoCards : card "a" .TODO 0 ∈ twoCards :=
  List.mem_cons_self ..

theorem board_rolled_back_of_first :
    (triples (dispatchAll twoCards (deletionRolledBack (card "a" .TODO 0)))).Perm (triples twoCards) :=
  (board_rolled_back denseBoard_twoCards mem_twoCards).1

end Transcendence.Kanban
