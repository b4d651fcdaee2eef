import Transcendence.Tasks.Board

/-!
# The transactions as operations on columns

The rows of the `Task` table are a table of ranked columns, one for each project and status.
Creating a task inserts it into a column, moving it erases and inserts it, deleting it erases it,
and editing it changes no column.
-/

namespace Transcendence.Tasks

open RankedColumns

abbrev ColumnKey := ProjectId × TaskStatus

def TaskRow.position (row : TaskRow) : Position TaskId ColumnKey := ⟨row.id, (row.projectId, row.status), row.rank⟩

@[simp] theorem TaskRow.position_id (row : TaskRow) : row.position.id = row.id := rfl

@[simp] theorem TaskRow.position_column (row : TaskRow) : row.position.column = (row.projectId, row.status) := rfl

@[simp] theorem TaskRow.position_rank (row : TaskRow) : row.position.rank = row.rank := rfl

def positions (tasks : List TaskRow) : List (Position TaskId ColumnKey) := tasks.map TaskRow.position

abbrev Columns := ColumnKey → List TaskId

/-- The index a wanted rank gets in a column of this length. -/
def clampIndex (wantedRank : Option Int) (length : Nat) : Nat := (clampRank wantedRank length).toNat

theorem clampRank_eq (wantedRank : Option Int) (length : Nat) : clampRank wantedRank length = clampIndex wantedRank length := by
  cases wantedRank <;> simp only [clampIndex, clampRank] <;> omega

theorem clampIndex_le (wantedRank : Option Int) (length : Nat) : clampIndex wantedRank length ≤ length := by
  cases wantedRank <;> simp only [clampIndex, clampRank] <;> omega

/-! ### The rank updates on positions -/

/-- One row of `closeRankGap`. -/
theorem position_closeGap (task : TaskRow) (projectId : ProjectId) (status : TaskStatus) (vacatedRank : Int) :
    (if task.projectId = projectId ∧ task.status = status ∧ task.rank > vacatedRank then
        { task with rank := task.rank - 1 } else task).position =
      task.position.closeGap (projectId, status) vacatedRank := by
  simp only [TaskRow.position, Position.closeGap, Prod.mk.injEq, gt_iff_lt, and_assoc]
  split <;> rfl

theorem positions_closeRankGap (tasks : List TaskRow) (projectId : ProjectId) (status : TaskStatus) (vacatedRank : Int) :
    positions (closeRankGap tasks projectId status vacatedRank) =
      (positions tasks).map (Position.closeGap (projectId, status) vacatedRank) := by
  rw [positions, positions, closeRankGap, List.map_map, List.map_map]
  exact List.map_congr_left fun task _ => position_closeGap task _ _ _

/-- One row of `openRankSlot`. -/
theorem position_openSlot (task : TaskRow) (projectId : ProjectId) (status : TaskStatus) (rank : Int)
    {excludeId : Option TaskId} (hid : some task.id ≠ excludeId) :
    (if task.projectId = projectId ∧ task.status = status ∧ task.rank ≥ rank ∧ some task.id ≠ excludeId then
        { task with rank := task.rank + 1 } else task).position = task.position.openSlot (projectId, status) rank := by
  simp only [TaskRow.position, Position.openSlot, Prod.mk.injEq, and_assoc, ge_iff_le, ne_eq, hid, not_false_eq_true,
    and_true]
  split <;> rfl

theorem columnLength_closeRankGap (tasks : List TaskRow) (projectId projectId' : ProjectId)
    (status status' : TaskStatus) (vacatedRank : Int) (excludeId : Option TaskId) :
    columnLength (closeRankGap tasks projectId status vacatedRank) projectId' status' excludeId =
      columnLength tasks projectId' status' excludeId := by
  rw [columnLength, columnLength, closeRankGap, List.filter_map, List.length_map]
  congr 2
  funext task
  simp only [Function.comp_apply]
  split <;> rfl

variable {tasks : List TaskRow} {columns : Columns}

theorem columnLength_none (h : Represents (positions tasks) columns) (projectId : ProjectId) (status : TaskStatus) :
    columnLength tasks projectId status none = (columns (projectId, status)).length := by
  rw [← h.length_filter, positions, List.filter_map, List.length_map, columnLength]
  congr 2
  funext task
  simp [TaskRow.position]

theorem columnLength_some (h : Represents (positions tasks) columns) (projectId : ProjectId) (status : TaskStatus)
    (id : TaskId) :
    columnLength tasks projectId status (some id) = (eraseItem columns id (projectId, status)).length := by
  have hids := (h.map_id_filter_perm (projectId, status)).filter (· != id)
  rw [eraseItem, (h.nodup _).erase_eq_filter, ← hids.length_eq, positions, List.filter_map, List.filter_map,
    List.length_map, List.filter_map, List.length_map, List.filter_filter, columnLength]
  congr 2
  funext task
  by_cases hid : task.id = id <;> simp [hid]

theorem mem_positions {row : TaskRow} (h : row ∈ tasks) : row.position ∈ positions tasks := List.mem_map_of_mem h

theorem not_mem_columns (h : Represents (positions tasks) columns) {id : TaskId}
    (hnone : tasks.find? (·.id = id) = none) (k : ColumnKey) : id ∉ columns k := by
  intro hmem
  obtain ⟨p, hp, hid, -⟩ := h.exists_row k id hmem
  obtain ⟨row, hrow, rfl⟩ := List.mem_map.mp hp
  exact List.find?_eq_none.mp hnone row hrow (decide_eq_true hid)

/-! ### One lemma for each transaction -/

theorem tasks_recordMachineAction (db : Database) (actor : TaskMutationActor) (projectId : ProjectId) (id : TaskId)
    (action : MachineTaskAction) : (db.recordMachineAction actor projectId id action).tasks = db.tasks := by
  cases actor <;> rfl

theorem tasks_replaceAssignees {db db' : Database} {taskId : TaskId} {projectId : ProjectId} {userIds : List UserId}
    (h : db.replaceAssigneesInTransaction taskId projectId userIds = some db') : db'.tasks = db.tasks := by
  rw [Database.replaceAssigneesInTransaction] at h
  split at h
  · cases h
  · cases h
    rfl

theorem tasks_replaceForMachine {db db' : Database} {actor : TaskMutationActor} {taskId : TaskId}
    {projectId : ProjectId} {assigneeIds : Option (List UserId)}
    (h : db.replaceForMachine actor taskId projectId assigneeIds = some db') : db'.tasks = db.tasks := by
  cases actor with
  | USER userId =>
      cases h
      rfl
  | MACHINE tokenId =>
      cases assigneeIds with
      | none =>
          cases h
          rfl
      | some userIds => exact tasks_replaceAssignees h

theorem represents_createTask {db db' : Database} {actor : TaskMutationActor} {projectId : ProjectId}
    {dto : CreateTaskDto} {id : TaskId} (h : Represents (positions db.tasks) columns)
    (hcreate : db.createTask actor projectId dto id = some db') :
    Represents (positions db'.tasks) (insertItem columns id (projectId, dto.status)
      (clampIndex (some dto.rank) (columns (projectId, dto.status)).length)) := by
  rw [Database.createTask] at hcreate
  split at hcreate
  · cases hcreate
  · rename_i hfresh
    obtain ⟨db₁, hreplace, rfl⟩ := Option.map_eq_some_iff.mp hcreate
    rw [tasks_recordMachineAction, tasks_replaceForMachine hreplace]
    have hnone : db.tasks.find? (·.id = id) = none := by simpa [Database.findTask] using hfresh
    have hslot : (openRankSlot db.tasks projectId dto.status (some dto.rank) none).1 =
        clampIndex (some dto.rank) (columns (projectId, dto.status)).length := by
      rw [openRankSlot, columnLength_none h, clampRank_eq]
    have hrows : positions (openRankSlot db.tasks projectId dto.status (some dto.rank) none).2 =
        (positions db.tasks).map (Position.openSlot (projectId, dto.status)
          (clampIndex (some dto.rank) (columns (projectId, dto.status)).length : Nat)) := by
      rw [← hslot, positions, positions, openRankSlot, List.map_map, List.map_map]
      exact List.map_congr_left fun task _ => position_openSlot task _ _ _ (by simp)
    have hinsert := h.insert (k := (projectId, dto.status)) (not_mem_columns h hnone)
      (clampIndex_le (some dto.rank) (columns (projectId, dto.status)).length)
    rw [positions, List.map_append]
    change Represents (positions _ ++ _) _
    rw [hrows]
    simpa [TaskRow.position, hslot] using hinsert

theorem represents_moveRows {current : TaskRow} {projectId : ProjectId} {requestedStatus : Option TaskStatus}
    {wantedRank : Option Int} {dto : UpdateTaskDto} (h : Represents (positions tasks) columns) (hmem : current ∈ tasks)
    (hproject : current.projectId = projectId) :
    Represents (positions (moveRows tasks current projectId requestedStatus wantedRank dto).1)
      (moveItem columns current.id (projectId, requestedStatus.getD current.status)
        (clampIndex wantedRank
          (eraseItem columns current.id (projectId, requestedStatus.getD current.status)).length)) := by
  subst hproject
  set targetStatus := requestedStatus.getD current.status with htarget
  set n := clampIndex wantedRank (eraseItem columns current.id (current.projectId, targetStatus)).length with hn
  have hslot : (openRankSlot (closeRankGap tasks current.projectId current.status current.rank) current.projectId
      targetStatus wantedRank (some current.id)).1 = n := by
    rw [openRankSlot, columnLength_closeRankGap, columnLength_some h, clampRank_eq]
  have hmove := h.move (mem_positions hmem) (k := (current.projectId, targetStatus)) (n := n) (clampIndex_le _ _)
  have hrows : positions (moveRows tasks current current.projectId requestedStatus wantedRank dto).1 =
      (positions tasks).map fun q => if q.id = current.position.id then ⟨current.position.id, (current.projectId, targetStatus), n⟩
        else (q.closeGap current.position.column current.position.rank).openSlot (current.projectId, targetStatus) n := by
    simp only [moveRows, positions, ← htarget, hslot]
    rw [openRankSlot] at hslot ⊢
    simp only at hslot
    rw [hslot, closeRankGap, List.map_map, List.map_map, List.map_map, List.map_map]
    refine List.map_congr_left fun task htask => ?_
    simp only [Function.comp_apply, TaskRow.position_column, TaskRow.position_rank, TaskRow.position_id,
      ← position_closeGap]
    set closed := if task.projectId = current.projectId ∧ task.status = current.status ∧ task.rank > current.rank then
      { task with rank := task.rank - 1 } else task with hclosed
    set opened := if closed.projectId = current.projectId ∧ closed.status = targetStatus ∧ closed.rank ≥ (n : Int) ∧
      some closed.id ≠ some current.id then { closed with rank := closed.rank + 1 } else closed with hopened
    have hclosedId : closed.id = task.id ∧ closed.projectId = task.projectId := by
      rw [hclosed]
      split <;> exact ⟨rfl, rfl⟩
    have hopenedId : opened.id = task.id ∧ opened.projectId = task.projectId := by
      rw [hopened]
      split <;> exact hclosedId
    by_cases hid : task.id = current.id
    · have hproject : task.projectId = current.projectId := by
        have heq := eq_of_id_eq h.ids (mem_positions htask) (mem_positions hmem) hid
        exact congrArg (fun p => p.column.1) heq
      rw [if_pos (hopenedId.1.trans hid), if_pos hid]
      simp only [TaskRow.position, hopenedId.1, hid, hopenedId.2, hproject]
    · rw [if_neg fun heq => hid (hopenedId.1.symm.trans heq), if_neg hid]
      exact position_openSlot closed current.projectId targetStatus n (by simp [hclosedId.1, hid])
  rw [hrows]
  exact hmove

theorem represents_deleteTask {db db' : Database} {actor : TaskMutationActor} {id : TaskId} {projectId : ProjectId}
    {task : Task} (h : Represents (positions db.tasks) columns)
    (hproject : ∀ row ∈ db.tasks, row.id = id → row.projectId = projectId)
    (hdelete : db.deleteTask actor id projectId = some (db', task)) :
    Represents (positions db'.tasks) (eraseItem columns id) := by
  obtain ⟨deleted, hfind, heq⟩ := Option.map_eq_some_iff.mp hdelete
  obtain ⟨rfl, -⟩ := Prod.mk.inj heq
  have hmem := List.mem_of_find?_eq_some hfind
  obtain rfl : deleted.id = id := by simpa using List.find?_some hfind
  obtain rfl : deleted.projectId = projectId := hproject deleted hmem rfl
  have herase := h.erase (mem_positions hmem)
  rw [tasks_recordMachineAction, positions_closeRankGap, positions]
  rw [positions, List.filter_map] at herase
  exact herase

theorem represents_moveTask {db db' : Database} {actor : TaskMutationActor} {id : TaskId} {projectId : ProjectId}
    {dto : UpdateTaskDto} {moved : TaskMoved} (h : Represents (positions db.tasks) columns)
    (hproject : ∀ row ∈ db.tasks, row.id = id → row.projectId = projectId)
    (hmove : db.moveTask actor id projectId dto = some (db', moved)) :
    ∃ n : Nat, moved = ⟨id, projectId, moved.toStatus, n⟩ ∧
      (∀ row ∈ db.tasks, row.id = id → moved.toStatus = dto.status.getD row.status) ∧
      n ≤ (eraseItem columns id (projectId, moved.toStatus)).length ∧
      Represents (positions db'.tasks) (moveItem columns id (projectId, moved.toStatus) n) := by
  obtain ⟨current, hfind, hmove⟩ := Option.bind_eq_some_iff.mp hmove
  obtain ⟨db₁, hreplace, heq⟩ := Option.map_eq_some_iff.mp hmove
  obtain ⟨rfl, rfl⟩ := Prod.mk.inj heq
  have hmem := List.mem_of_find?_eq_some hfind
  obtain rfl : current.id = id := by simpa using List.find?_some hfind
  have hcurrent := hproject current hmem rfl
  rw [tasks_recordMachineAction, tasks_replaceForMachine hreplace]
  refine ⟨_, ?_, fun row hrow hid => ?_, clampIndex_le dto.rank _, represents_moveRows h hmem hcurrent⟩
  · simp only [moveRows, openRankSlot, columnLength_closeRankGap, columnLength_some h, clampRank_eq]
  · rw [show row.status = current.status from congrArg (fun p => p.column.2)
      (eq_of_id_eq h.ids (mem_positions hrow) (mem_positions hmem) hid)]
    rfl

theorem positions_updateTask {db db' : Database} {actor : TaskMutationActor} {id : TaskId} {projectId : ProjectId}
    {dto : UpdateTaskDto} (hupdate : db.updateTask actor id projectId dto = some db') :
    positions db'.tasks = positions db.tasks := by
  obtain ⟨_, -, hupdate⟩ := Option.bind_eq_some_iff.mp hupdate
  obtain ⟨db₁, hreplace, rfl⟩ := Option.map_eq_some_iff.mp hupdate
  rw [tasks_recordMachineAction, tasks_replaceForMachine hreplace, positions, positions, List.map_map]
  refine List.map_congr_left fun task _ => ?_
  simp only [Function.comp_apply]
  split <;> rfl

end Transcendence.Tasks
