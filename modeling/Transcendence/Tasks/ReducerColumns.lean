import Transcendence.Tasks.BoardColumns
import Transcendence.Tasks.Reducer

/-!
# The reducer as operations on columns

What an action does to the columns of a client whose board is dense. `task_moved` and `task_deleted`
are the operations of the server, `task_created` inserts the task one place below the one it ties
with, and `task_updated` changes no column when it carries the position the task already has.
-/

namespace Transcendence.Tasks

open RankedColumns

/-- The `(id, status, rank)` triple of a task. -/
def Task.triple (task : Task) : Position TaskId TaskStatus := ⟨task.id, task.status, task.rank⟩

@[simp] theorem Task.triple_id (task : Task) : task.triple.id = task.id := rfl

@[simp] theorem Task.triple_column (task : Task) : task.triple.column = task.status := rfl

theorem Task.eq_of_triple {task task' : Task} (htriple : task.triple = task'.triple)
    (hproject : task.projectId = task'.projectId) (hcontent : task.content = task'.content)
    (hassignees : task.assignees = task'.assignees) : task = task' := by
  obtain ⟨⟨id, projectId, status, rank, content⟩, assignees⟩ := task
  obtain ⟨⟨id', projectId', status', rank', content'⟩, assignees'⟩ := task'
  obtain ⟨rfl, rfl, rfl⟩ := Position.mk.inj htriple
  obtain rfl : projectId = projectId' := hproject
  obtain rfl : content = content' := hcontent
  obtain rfl : assignees = assignees' := hassignees
  rfl

def triples (tasks : List Task) : List (Position TaskId TaskStatus) := tasks.map Task.triple

theorem map_id_triples (tasks : List Task) : (triples tasks).map (·.id) = tasks.map (·.id) := by
  rw [triples, List.map_map]
  rfl

variable {state tasks : List Task} {columns : TaskStatus → List TaskId}

theorem mem_triples {task : Task} (h : task ∈ tasks) : task.triple ∈ triples tasks := List.mem_map_of_mem h

theorem rank_of_mem (h : Represents (triples state) columns) {task : Task} (hmem : task ∈ state) :
    task.id ∈ columns task.status ∧ task.rank = (columns task.status).idxOf task.id :=
  h.rank _ (mem_triples hmem)

theorem ids_nodup (h : Represents (triples state) columns) : (state.map (·.id)).Nodup := map_id_triples state ▸ h.ids

/-! ### Sorting and indexing -/

theorem triples_sortByRank (tasks : List Task) :
    triples (sortByRank tasks) = (triples tasks).insertionSort (·.rank ≤ ·.rank) :=
  List.map_insertionSort _ _ _ _ fun _ _ _ _ => Iff.rfl

theorem map_id_selectColumnTasks (tasks : List Task) (status : TaskStatus) :
    (selectColumnTasks tasks status).map (·.id) = arrangement (triples tasks) status := by
  rw [selectColumnTasks, ← map_id_triples, triples_sortByRank, arrangement, sortedColumn, triples, triples,
    List.filter_map]
  rfl

theorem map_id_sortByRank (h : Represents (triples state) columns) {status : TaskStatus} {l : List TaskId}
    (htasks : ∀ task ∈ tasks, task ∈ state ∧ task.status = status) (hperm : (tasks.map (·.id)).Perm l)
    (hsub : l.Sublist (columns status)) : (sortByRank tasks).map (·.id) = l := by
  rw [← map_id_triples, triples_sortByRank]
  refine h.map_id_insertionSort (fun p hp => ?_) ((map_id_triples tasks).symm ▸ hperm) hsub
  obtain ⟨task, htask, rfl⟩ := List.mem_map.mp hp
  exact ⟨mem_triples (htasks task htask).1, (htasks task htask).2⟩

/-- The other tasks of a column, in display order. -/
theorem map_id_others (h : Represents (triples state) columns) (status : TaskStatus) (id : TaskId) :
    (sortByRank (state.filter fun task => task.status = status ∧ task.id ≠ id)).map (·.id) = eraseItem columns id status := by
  refine map_id_sortByRank h (fun task htask => ?_) ?_ List.erase_sublist
  · obtain ⟨hmem, hfilter⟩ := List.mem_filter.mp htask
    exact ⟨hmem, (of_decide_eq_true hfilter).1⟩
  · have hcolumn := (h.map_id_filter_perm status).filter (· != id)
    rw [eraseItem, (h.nodup _).erase_eq_filter]
    refine List.Perm.trans (List.Perm.of_eq ?_) hcolumn
    rw [triples, List.filter_map, List.filter_map, List.filter_map, List.map_map, List.filter_filter]
    congr 2
    funext task
    rw [Bool.eq_iff_iff, decide_eq_true_eq, Bool.and_eq_true]
    exact and_comm.trans (and_congr bne_iff_ne.symm decide_eq_true_iff.symm)

private theorem keep_or_place (task : Task) (status : TaskStatus) (rank : Int) :
    (if task.status = status ∧ task.rank = rank then task else { task with status := status, rank := rank }) =
      { task with status := status, rank := rank } := by
  split
  · rename_i hsame
    obtain ⟨rfl, rfl⟩ := hsame
    rfl
  · rfl

theorem reindexStatus_eq {status : TaskStatus} {l : List TaskId} (hnodup : l.Nodup)
    (hcolumn : (selectColumnTasks tasks status).map (·.id) = l) :
    reindexStatus tasks status =
      tasks.map fun task => if task.id ∈ l then { task with rank := l.idxOf task.id } else task := by
  subst hcolumn
  refine List.map_congr_left fun task _ => ?_
  rw [OrderedMap.get_setAll_zipIdx [] (fun task : Task => task.id) (fun index => (index : Int)) hnodup]
  by_cases hmem : task.id ∈ (selectColumnTasks tasks status).map (·.id)
  · rw [if_pos hmem, if_pos hmem, ← keep_or_place]
    simp only [true_and]
  · rw [if_neg hmem, if_neg hmem]
    rfl

theorem moveTaskTo_eq {moved : Task} {toStatus : TaskStatus} {toIndex : Int} {others source : List TaskId} {n : Nat}
    (hothers : (sortByRank (state.filter fun task => task.status = toStatus ∧ task.id ≠ moved.id)).map (·.id) = others)
    (hsource : (sortByRank (state.filter fun task => task.status = moved.status ∧ task.id ≠ moved.id)).map (·.id) = source)
    (hn : max 0 (min toIndex others.length) = n) (hnodup : (others.insertIdx n moved.id).Nodup)
    (hnodup' : source.Nodup) :
    moveTaskTo state moved toStatus toIndex = state.map fun task =>
      if moved.status ≠ toStatus ∧ task.id ∈ source then
        { task with status := moved.status, rank := source.idxOf task.id }
      else if task.id ∈ others.insertIdx n moved.id then
        { task with status := toStatus, rank := (others.insertIdx n moved.id).idxOf task.id }
      else task := by
  subst hothers hsource
  have hlength : max 0 (min toIndex (sortByRank (state.filter fun task =>
      task.status = toStatus ∧ task.id ≠ moved.id)).length) = n := by rwa [List.length_map] at hn
  rw [← List.map_insertIdx] at hnodup ⊢
  refine List.map_congr_left fun task _ => ?_
  rw [hlength, Int.toNat_natCast]
  set destination := (sortByRank (state.filter fun task => task.status = toStatus ∧ task.id ≠ moved.id)).insertIdx n moved
  set source := sortByRank (state.filter fun task => task.status = moved.status ∧ task.id ≠ moved.id)
  have hsource : ((if moved.status = toStatus then [] else source).map (·.id)).Nodup := by
    split
    · exact List.nodup_nil
    · exact hnodup'
  rw [OrderedMap.get_setAll_zipIdx _ (fun task : Task => task.id) (fun index => (moved.status, (index : Int))) hsource,
    OrderedMap.get_setAll_zipIdx [] (fun task : Task => task.id) (fun index => (toStatus, (index : Int))) hnodup]
  by_cases hleft : moved.status ≠ toStatus ∧ task.id ∈ source.map (·.id)
  · rw [if_pos hleft, if_neg hleft.1, if_pos hleft.2]
    exact keep_or_place task _ _
  · rw [if_neg hleft, if_neg]
    · by_cases hmem : task.id ∈ destination.map (·.id)
      · rw [if_pos hmem, if_pos hmem]
        exact keep_or_place task _ _
      · rw [if_neg hmem, if_neg hmem]
        rfl
    · intro hmem
      split at hmem
      · cases hmem
      · rename_i hstatus
        exact hleft ⟨hstatus, hmem⟩

/-! ### One lemma for each action -/

theorem represents_reindexStatus {rows : List (Position TaskId TaskStatus)} {status : TaskStatus}
    (h : Represents rows columns) (hids : (tasks.map (·.id)).Perm (rows.map (·.id)))
    (hcolumn : (selectColumnTasks tasks status).map (·.id) = columns status)
    (hmem : ∀ task ∈ tasks, task.id ∈ columns task.status)
    (hrank : ∀ task ∈ tasks, task.status ≠ status → task.rank = (columns task.status).idxOf task.id) :
    Represents (triples (reindexStatus tasks status)) columns := by
  rw [reindexStatus_eq (h.nodup status) hcolumn]
  refine h.of_rows ?_ fun p hp => ?_
  · rw [map_id_triples, List.map_map]
    refine (List.Perm.of_eq (List.map_congr_left fun task _ => ?_)).trans hids
    simp only [Function.comp_apply]
    split <;> rfl
  · obtain ⟨_, hplaced, rfl⟩ := List.mem_map.mp hp
    obtain ⟨task, htask, rfl⟩ := List.mem_map.mp hplaced
    split
    · rename_i hin
      have hstatus := h.column_unique (hmem task htask) hin
      exact ⟨hmem task htask, by rw [Task.triple_column, hstatus]; rfl⟩
    · rename_i hout
      exact ⟨hmem task htask, hrank task htask fun hstatus => hout (hstatus ▸ hmem task htask)⟩

theorem find?_eq_some_of_mem (hids : (state.map (·.id)).Nodup) {task : Task} (hmem : task ∈ state) :
    state.find? (·.id = task.id) = some task := by
  cases hfind : state.find? (·.id = task.id) with
  | none => exact absurd (decide_eq_true rfl) (List.find?_eq_none.mp hfind task hmem)
  | some found =>
      have hid : found.id = task.id := by simpa using List.find?_some hfind
      rw [List.inj_on_of_nodup_map hids (List.mem_of_find?_eq_some hfind) hmem hid]

theorem represents_task_deleted (h : Represents (triples state) columns) {existing : Task} (hmem : existing ∈ state) :
    Represents (triples (tasksReducer state (.task_deleted existing.id))) (eraseItem columns existing.id) := by
  have hrow := rank_of_mem h hmem
  rw [tasksReducer, find?_eq_some_of_mem (ids_nodup h) hmem]
  have hrest : ∀ task ∈ state.filter (·.id ≠ existing.id), task ∈ state ∧ task.id ≠ existing.id := fun task htask => by
    simpa using htask
  refine represents_reindexStatus (h.erase (mem_triples hmem)) ?_ ?_ (fun task htask => ?_) (fun task htask hstatus => ?_)
  · rw [map_id_closeGap, triples, List.filter_map, List.map_map]
    rfl
  · rw [selectColumnTasks, List.filter_filter, ← map_id_others h existing.status existing.id]
    simp only [Bool.decide_and]
  · exact mem_eraseItem_of_ne (rank_of_mem h (hrest task htask).1).1 (hrest task htask).2
  · rw [eraseItem_of_not_mem fun hin => hstatus (h.column_unique hin hrow.1)]
    exact (rank_of_mem h (hrest task htask).1).2

theorem represents_task_moved (h : Represents (triples state) columns) {moved : Task} (hmem : moved ∈ state)
    {toStatus : TaskStatus} {toIndex : Int} {n : Nat}
    (hn : max 0 (min toIndex (eraseItem columns moved.id toStatus).length) = n) :
    Represents (triples (tasksReducer state (.task_moved moved.id toStatus toIndex)))
      (moveItem columns moved.id toStatus n) := by
  have hle : n ≤ (eraseItem columns moved.id toStatus).length := by omega
  have hmove := h.move (mem_triples hmem) hle
  have hrow := rank_of_mem h hmem
  have hdestination := hmove.nodup toStatus
  rw [Task.triple_id, moveItem_self] at hdestination
  rw [tasksReducer, find?_eq_some_of_mem (ids_nodup h) hmem]
  simp only
  rw [moveTaskTo_eq (map_id_others h _ _) (map_id_others h _ _) hn hdestination ((h.nodup _).erase _)]
  refine hmove.of_rows ?_ fun p hp => ?_
  · rw [map_id_triples, List.map_map, List.map_map, triples, List.map_map]
    refine List.Perm.of_eq (List.map_congr_left fun task _ => ?_)
    simp only [Function.comp_apply]
    split_ifs <;> simp_all
  · obtain ⟨_, hplaced, rfl⟩ := List.mem_map.mp hp
    obtain ⟨task, htask, rfl⟩ := List.mem_map.mp hplaced
    have hold := rank_of_mem h htask
    split
    · rename_i hsource
      rw [Task.triple_column, moveItem_of_ne _ _ _ hsource.1]
      exact ⟨hsource.2, rfl⟩
    · rename_i hsource
      split
      · rename_i hin
        rw [Task.triple_column, moveItem_self]
        exact ⟨hin, rfl⟩
      · rename_i hout
        rw [List.mem_insertIdx hle, not_or] at hout
        have hin := mem_eraseItem_of_ne hold.1 hout.1
        have hstatus : task.status ≠ toStatus := fun heq => hout.2 (heq ▸ hin)
        have hleft : moved.id ∉ columns task.status := fun hmoved => by
          have heq := h.column_unique hmoved hrow.1
          exact hsource ⟨heq ▸ hstatus, heq ▸ hin⟩
        rw [Task.triple_column, moveItem_of_ne _ _ _ hstatus, Task.triple_id, eraseItem_of_not_mem hleft]
        exact hold

/-- The created task ties with the task whose place it is to take, and the sort puts it behind that
one. -/
theorem represents_task_created (h : Represents (triples state) columns) {task : Task}
    (hfresh : ∀ status, task.id ∉ columns status) {rank : Nat} (hrank : task.rank = rank) :
    Represents (triples (tasksReducer state (.task_created task)))
      (insertItem columns task.id task.status (min (rank + 1) (columns task.status).length)) := by
  have hle : min (rank + 1) (columns task.status).length ≤ (columns task.status).length := Nat.min_le_right _ _
  have hnew : state.any (·.id = task.id) = false := by
    refine List.any_eq_false.mpr fun other hother hid => hfresh other.status ?_
    exact of_decide_eq_true hid ▸ (rank_of_mem h hother).1
  have hinsert := h.insert hfresh hle
  rw [tasksReducer, hnew, if_neg Bool.false_ne_true]
  refine represents_reindexStatus hinsert ?_ ?_ (fun other hother => ?_) (fun other hother hstatus => ?_)
  · rw [List.map_append, List.map_append, map_id_openSlot, map_id_triples]
    rfl
  · have htriple : task.triple = ⟨task.id, task.status, rank⟩ := by rw [← hrank]; rfl
    rw [map_id_selectColumnTasks, triples, List.map_append, List.map_singleton, htriple, ← triples,
      h.arrangement_append, insertItem_self]
  · rcases List.mem_append.mp hother with hother | hother
    · have hold := (rank_of_mem h hother).1
      by_cases hstatus : other.status = task.status
      · rw [hstatus, insertItem_self, List.mem_insertIdx hle]
        exact Or.inr (hstatus ▸ hold)
      · rw [insertItem_of_ne _ _ _ hstatus]
        exact hold
    · obtain rfl := List.mem_singleton.mp hother
      rw [insertItem_self, List.mem_insertIdx hle]
      exact Or.inl rfl
  · rcases List.mem_append.mp hother with hother | hother
    · rw [insertItem_of_ne _ _ _ hstatus]
      exact (rank_of_mem h hother).2
    · exact absurd (by rw [List.mem_singleton.mp hother]) hstatus

theorem merge_ofTask (task payload : Task) : task.merge (.ofTask payload) = payload := rfl

/-- A whole task in the column it already has replaces the task. -/
theorem task_updated_eq (h : Represents (triples state) columns) {payload : Task}
    (hmem : payload.id ∈ columns payload.status) :
    tasksReducer state (.task_updated payload.id (.ofTask payload)) =
      state.map fun task => if task.id = payload.id then payload else task := by
  obtain ⟨p, hp, hid, hcolumn⟩ := h.exists_row _ _ hmem
  obtain ⟨existing, hexisting, rfl⟩ := List.mem_map.mp hp
  have hid : existing.id = payload.id := hid
  have hstatus : payload.status = existing.status := hcolumn.symm
  rw [tasksReducer, ← hid, find?_eq_some_of_mem (ids_nodup h) hexisting]
  have hchanges : (TaskChanges.ofTask payload).status = some existing.status := hstatus ▸ rfl
  simp only [hchanges, if_true, merge_ofTask]

theorem triples_task_updated (h : Represents (triples state) columns) {payload : Task}
    (hmem : payload.id ∈ columns payload.status) (hrank : payload.rank = (columns payload.status).idxOf payload.id) :
    triples (tasksReducer state (.task_updated payload.id (.ofTask payload))) = triples state := by
  rw [task_updated_eq h hmem, triples, triples, List.map_map]
  refine List.map_congr_left fun task htask => ?_
  simp only [Function.comp_apply]
  split
  · rename_i hid
    exact eq_of_id_eq h.ids (h.mem_iff.mpr ⟨hmem, hrank⟩) (mem_triples htask) hid.symm
  · rfl

/-! ### The board of a project, and its events -/

theorem represents_board {db : Database} {columns : Columns} (h : Represents (positions db.tasks) columns)
    (projectId : ProjectId) : Represents (triples (db.board projectId)) fun status => columns (projectId, status) := by
  have hids : ((db.tasks.filter (·.projectId = projectId)).map (·.id)).Nodup := by
    have hall := h.ids
    rw [positions, List.map_map] at hall
    exact hall.sublist (List.filter_sublist.map _)
  refine h.restrict ?_ fun q => ?_
  · rw [map_id_triples, Database.board, List.map_map]
    exact hids
  · simp only [triples, Database.board, positions, List.mem_map, List.mem_filter, decide_eq_true_eq]
    constructor
    · rintro ⟨_, ⟨row, ⟨hrow, rfl⟩, rfl⟩, rfl⟩
      exact ⟨row, hrow, rfl⟩
    · rintro ⟨row, hrow, heq⟩
      obtain ⟨hid, hcolumn, hrank⟩ := Position.mk.inj heq
      obtain ⟨hproject, hstatus⟩ := Prod.mk.inj hcolumn
      refine ⟨db.mapTask row, ⟨row, ⟨hrow, hproject⟩, rfl⟩, ?_⟩
      rw [Task.triple]
      exact Position.mk.injEq .. ▸ ⟨hid, hstatus, hrank⟩

/-- A row read for its project has the position of its task. -/
theorem position_of_find {db : Database} {columns : Columns} (h : Represents (positions db.tasks) columns) {id : TaskId}
    {projectId : ProjectId} {task : Task} (hfind : db.findByIdForProject id projectId = some task) :
    task.id = id ∧ task.projectId = projectId ∧ task.id ∈ columns (projectId, task.status) ∧
      task.rank = (columns (projectId, task.status)).idxOf task.id := by
  obtain ⟨row, hrow, rfl⟩ := Option.map_eq_some_iff.mp hfind
  obtain ⟨rfl, rfl⟩ : row.id = id ∧ row.projectId = projectId := by simpa using List.find?_some hrow
  exact ⟨rfl, rfl, h.rank _ (mem_positions (List.mem_of_find?_eq_some hrow))⟩

theorem moveItem_project (columns : Columns) (id : TaskId) (projectId : ProjectId) (status : TaskStatus) (n : Nat) :
    (fun status' => moveItem columns id (projectId, status) n (projectId, status')) =
      moveItem (fun status' => columns (projectId, status')) id status n :=
  moveItem_restrict (Prod.mk_right_injective projectId) columns id status n

theorem receive_moved (h : Represents (triples state) columns) {payload : TaskMoved} {status : TaskStatus}
    (hmem : payload.taskId ∈ columns status) {n : Nat} (hindex : payload.toIndex = n)
    (hn : n ≤ (eraseItem columns payload.taskId payload.toStatus).length) :
    Represents (triples (receive payload.projectId state (.moved payload)))
      (moveItem columns payload.taskId payload.toStatus n) := by
  obtain ⟨p, hp, hid, -⟩ := h.exists_row status _ hmem
  obtain ⟨moved, hmoved, rfl⟩ := List.mem_map.mp hp
  rw [Task.triple_id] at hid
  rw [receive, dispatched, handleTaskMoved, if_neg (not_not_intro rfl)]
  rw [← hid] at hn ⊢
  exact represents_task_moved h hmoved (by omega)

/-- A move changes no field but the positions. -/
theorem receive_moved_keeps {projectId : ProjectId} {payload : TaskMoved} {task : Task}
    (h : task ∈ receive projectId state (.moved payload)) :
    ∃ old ∈ state, old.id = task.id ∧ old.projectId = task.projectId ∧ old.content = task.content ∧
      old.assignees = task.assignees := by
  have hsame : task ∈ state → ∃ old ∈ state, old.id = task.id ∧ old.projectId = task.projectId ∧
      old.content = task.content ∧ old.assignees = task.assignees := fun hmem => ⟨task, hmem, rfl, rfl, rfl, rfl⟩
  rw [receive, dispatched, handleTaskMoved] at h
  split at h
  · exact hsame h
  · simp only [Option.elim_some, tasksReducer] at h
    split at h
    · exact hsame h
    · obtain ⟨old, hold, rfl⟩ := List.mem_map.mp h
      refine ⟨old, hold, ?_⟩
      split
      · exact ⟨rfl, rfl, rfl, rfl⟩
      · split <;> exact ⟨rfl, rfl, rfl, rfl⟩

/-- An update that changes no position replaces the task and nothing else. -/
theorem receive_updated_keeps (h : Represents (triples state) columns) {projectId : ProjectId} {payload task : Task}
    (hmem : payload.id ∈ columns payload.status)
    (hreceived : task ∈ receive projectId state (.updated payload.id projectId payload)) :
    task = payload ∨ task.id ≠ payload.id ∧ task ∈ state := by
  rw [receive, dispatched, handleTaskUpdated, if_neg (not_not_intro rfl), Option.elim_some, task_updated_eq h hmem] at hreceived
  obtain ⟨old, hold, rfl⟩ := List.mem_map.mp hreceived
  split
  · exact Or.inl rfl
  · rename_i hne
    exact Or.inr ⟨hne, hold⟩

theorem receive_deleted (h : Represents (triples state) columns) {id : TaskId} {status : TaskStatus}
    (hmem : id ∈ columns status) (projectId : ProjectId) :
    Represents (triples (receive projectId state (.deleted id projectId))) (eraseItem columns id) := by
  obtain ⟨p, hp, hid, -⟩ := h.exists_row status _ hmem
  obtain ⟨existing, hexisting, rfl⟩ := List.mem_map.mp hp
  obtain rfl : existing.id = id := hid
  rw [receive, dispatched, handleTaskDeleted, if_neg (not_not_intro rfl)]
  exact represents_task_deleted h hexisting

theorem receive_created (h : Represents (triples state) columns) {task : Task}
    (hfresh : ∀ status, task.id ∉ columns status) {rank : Nat} (hrank : task.rank = rank) :
    Represents (triples (receive task.projectId state (.created task)))
      (insertItem columns task.id task.status (min (rank + 1) (columns task.status).length)) := by
  rw [receive, dispatched, handleTaskCreated, if_neg (not_not_intro rfl)]
  exact represents_task_created h hfresh hrank

theorem triples_receive_updated (h : Represents (triples state) columns) (projectId : ProjectId) {task : Task}
    (hmem : task.id ∈ columns task.status) (hrank : task.rank = (columns task.status).idxOf task.id) :
    triples (receive projectId state (.updated task.id projectId task)) = triples state := by
  rw [receive, dispatched, handleTaskUpdated, if_neg (not_not_intro rfl)]
  exact triples_task_updated h hmem hrank

end Transcendence.Tasks
