import Transcendence.Base.StableSort
import Transcendence.Kanban.Rollback

/-!
# Dense columns and repeated actions

The page takes a reindexed board to be dense and an action to be the same when it comes twice.
Creating, moving and deleting keep both. An update replaces the task by the one that came: where the
status stays, the rank that came is not reindexed, and where the status changes it is reindexed the
first time only.
-/

namespace Transcendence.Kanban

open Tasks (TaskId TaskStatus)
open RankedColumns (eraseItem moveItem)

variable {state : List Task} {columns : TaskStatus → List TaskId} {task existing payload : Task} {taskId : TaskId}

/-- What the page dispatches for a payload it has parsed: an update carries a whole task. -/
def FromPayload : TasksAction → Prop
  | .tasks_loaded _ => False
  | .task_updated taskId changes => ∃ payload : Task, payload.id = taskId ∧ changes = .ofTask payload
  | _ => True

/-- Dispatching the action leaves a dense board, and dispatching it again changes nothing. -/
def DenseOnce (state : List Task) (action : TasksAction) : Prop :=
  DenseBoard (tasksReducer state action) ∧
    tasksReducer (tasksReducer state action) action = tasksReducer state action

/-- An update keeps the rank of its task, or names the place that the task gets in its new column. -/
def NamesPlace (state : List Task) : TasksAction → Prop
  | .task_updated taskId changes => ∀ existing ∈ state, existing.id = taskId →
      if (existing.merge changes).status = existing.status then (existing.merge changes).rank = existing.rank
      else ∃ place : Nat, (existing.merge changes).rank = place ∧
        place ≤ (state.filter (·.status = (existing.merge changes).status)).length ∧
        ∀ task ∈ (state.takeWhile (·.id ≠ taskId)).filter (·.status = (existing.merge changes).status), task.rank ≠ place
  | _ => True

/-! ### Actions on a task that is not there, or there already -/

theorem find?_eq_none_of_absent (habsent : ∀ task ∈ state, task.id ≠ taskId) : state.find? (·.id = taskId) = none := by
  rw [List.find?_eq_none]
  intro task hmem
  exact decide_eq_true_iff.not.mpr (habsent task hmem)

theorem task_created_of_mem (hmem : ∃ old ∈ state, old.id = task.id) : tasksReducer state (.task_created task) = state := by
  obtain ⟨old, hold, hid⟩ := hmem
  rw [tasksReducer, if_pos (List.any_eq_true.mpr ⟨old, hold, decide_eq_true hid⟩)]

theorem task_deleted_of_absent (habsent : ∀ task ∈ state, task.id ≠ taskId) :
    tasksReducer state (.task_deleted taskId) = state := by
  rw [tasksReducer, find?_eq_none_of_absent habsent]

theorem task_moved_of_absent (habsent : ∀ task ∈ state, task.id ≠ taskId) (toStatus : TaskStatus) (toIndex : JsonNumber) :
    tasksReducer state (.task_moved taskId toStatus toIndex) = state := by
  rw [tasksReducer, find?_eq_none_of_absent habsent]

theorem task_updated_of_absent (habsent : ∀ task ∈ state, task.id ≠ taskId) (changes : TaskChanges) :
    tasksReducer state (.task_updated taskId changes) = state := by
  rw [tasksReducer, find?_eq_none_of_absent habsent]

/-! ### Creating, deleting and moving -/

theorem denseOnce_task_created (h : DenseBoard state) (task : Task) : DenseOnce state (.task_created task) := by
  by_cases hmem : ∃ old ∈ state, old.id = task.id
  · rw [DenseOnce, task_created_of_mem hmem, task_created_of_mem hmem]
    exact ⟨h, rfl⟩
  · have hfresh : ∀ old ∈ state, old.id ≠ task.id := fun old hold hid => hmem ⟨old, hold, hid⟩
    obtain ⟨ids, hshows, hin, _⟩ := shows_task_created h.shows hfresh
    refine ⟨hshows.denseBoard, task_created_of_mem ?_⟩
    rw [← Function.update_self task.status ids (columnIds state)] at hin
    obtain ⟨created, hcreated, hid, _⟩ := ((hshows.column task.status).mem_iff task.id).mp hin
    exact ⟨created, hcreated, hid⟩

theorem denseOnce_task_deleted (h : DenseBoard state) (taskId : TaskId) : DenseOnce state (.task_deleted taskId) := by
  by_cases hmem : ∃ old ∈ state, old.id = taskId
  · obtain ⟨existing, hexisting, rfl⟩ := hmem
    have hshows := shows_task_deleted h.shows hexisting
    refine ⟨hshows.denseBoard, task_deleted_of_absent fun task htask hid => ?_⟩
    exact (h.column task.status).nodup.not_mem_erase (hid ▸ hshows.column_of_mem htask)
  · have habsent : ∀ old ∈ state, old.id ≠ taskId := fun old hold hid => hmem ⟨old, hold, hid⟩
    rw [DenseOnce, task_deleted_of_absent habsent, task_deleted_of_absent habsent]
    exact ⟨h, rfl⟩

theorem Shows.place_eq_self (h : Shows state columns) (hmem : task ∈ state) {toStatus : TaskStatus}
    (hstatus : task.id = taskId → task.status = toStatus) : task.place columns taskId toStatus = task := by
  have hkept : (if task.id = taskId then toStatus else task.status) = task.status := by
    split_ifs with hid
    · exact (hstatus hid).symm
    · rfl
  rw [Task.place, hkept, ← (h.column task.status).rank task hmem rfl]

theorem denseOnce_task_moved (h : DenseBoard state) (taskId : TaskId) (toStatus : TaskStatus) (toIndex : JsonNumber) :
    DenseOnce state (.task_moved taskId toStatus toIndex) := by
  by_cases hmem : ∃ old ∈ state, old.id = taskId
  · obtain ⟨moved, hmoved, rfl⟩ := hmem
    have hshows := shows_task_moved h.shows hmoved toStatus toIndex
    refine ⟨hshows.denseBoard, ?_⟩
    have hslot := slot_le (columnIds state) moved.id toStatus toIndex
    have hrest := RankedColumns.eraseItem_moveItem (fun status => (h.column status).nodup) hslot
    have hin := RankedColumns.mem_moveItem_self (columnIds state) moved.id toStatus hslot
    set next := tasksReducer state (.task_moved moved.id toStatus toIndex)
    obtain ⟨again, hagain, hid, _⟩ := ((hshows.column toStatus).mem_iff moved.id).mp hin
    rw [← hid, tasksReducer, find?_eq_some_of_mem hshows.ids hagain]
    show moveTaskTo next again toStatus toIndex = next
    rw [moveTaskTo_eq hshows hagain, hid, slot_congr hrest, RankedColumns.moveItem_congr hrest]
    conv_rhs => rw [← List.map_id next]
    apply List.map_congr_left
    intro task htask
    apply hshows.place_eq_self htask
    intro heq
    exact hshows.status_eq htask (heq ▸ hin)
  · have habsent : ∀ old ∈ state, old.id ≠ taskId := fun old hold hid => hmem ⟨old, hold, hid⟩
    rw [DenseOnce, task_moved_of_absent habsent, task_moved_of_absent habsent]
    exact ⟨h, rfl⟩

/-! ### Updating -/

/-- The board with one of its tasks replaced. -/
theorem map_replace {before after : List Task} (hids : ((before ++ existing :: after).map (·.id)).Nodup)
    (replaced : Task → Task) :
    (before ++ existing :: after).map (fun task => if task.id = existing.id then replaced task else task) =
      before ++ replaced existing :: after := by
  have hother : ∀ task ∈ before ++ after, task.id ≠ existing.id := by
    intro task htask hid
    have hnodup := (List.perm_middle.map Task.id).nodup_iff.mp hids
    rw [List.map_cons, List.nodup_cons] at hnodup
    exact hnodup.1 (hid ▸ List.mem_map_of_mem htask)
  have hkeep : ∀ tasks : List Task, (∀ task ∈ tasks, task ∈ before ++ after) →
      tasks.map (fun task => if task.id = existing.id then replaced task else task) = tasks := by
    intro tasks htasks
    conv_rhs => rw [← List.map_id tasks]
    apply List.map_congr_left
    intro task htask
    exact if_neg (hother task (htasks task htask))
  rw [List.map_append, List.map_cons, if_pos rfl, hkeep before fun task => List.mem_append_left _,
    hkeep after fun task => List.mem_append_right _]

theorem takeWhile_eq {before after : List Task} (hids : ((before ++ existing :: after).map (·.id)).Nodup) :
    (before ++ existing :: after).takeWhile (·.id ≠ existing.id) = before := by
  rw [List.map_append, List.map_cons] at hids
  have hbefore : ∀ task ∈ before, decide (task.id ≠ existing.id) = true := by
    intro task htask
    apply decide_eq_true
    intro hid
    exact (List.nodup_append.mp hids).2.2 _ (List.mem_map_of_mem htask) _ List.mem_cons_self hid
  rw [List.takeWhile_append_of_pos hbefore, List.takeWhile_cons_of_neg (by simp), List.append_nil]

/-- A task that keeps its status is replaced. -/
theorem task_updated_of_status {before after : List Task} (hids : ((before ++ existing :: after).map (·.id)).Nodup)
    (hid : payload.id = existing.id) (hstatus : payload.status = existing.status) :
    tasksReducer (before ++ existing :: after) (.task_updated payload.id (.ofTask payload)) = before ++ payload :: after := by
  have hmem : existing ∈ before ++ existing :: after := List.mem_append_right _ List.mem_cons_self
  have hmap := map_replace hids fun task => task.merge (.ofTask payload)
  rw [tasksReducer, hid, find?_eq_some_of_mem hids hmem]
  show (if payload.status = existing.status then _ else _) = _
  rw [if_pos hstatus]
  exact hmap

theorem task_updated_of_status_ne {before after : List Task} (hids : ((before ++ existing :: after).map (·.id)).Nodup)
    (hid : payload.id = existing.id) (hstatus : payload.status ≠ existing.status) :
    tasksReducer (before ++ existing :: after) (.task_updated payload.id (.ofTask payload)) =
      reindexStatus (reindexStatus (before ++ payload :: after) existing.status) payload.status := by
  have hmem : existing ∈ before ++ existing :: after := List.mem_append_right _ List.mem_cons_self
  have hmap := map_replace hids fun task => task.merge (.ofTask payload)
  rw [merge_ofTask] at hmap
  rw [tasksReducer, hid, find?_eq_some_of_mem hids hmem]
  show (if payload.status = existing.status then _ else _) = _
  rw [if_neg hstatus, hmap]

theorem ranks_perm (before after : List Task) (task : Task) :
    (((before ++ task :: after).filter (·.status = task.status)).map (·.rank)).Perm
      (task.rank :: ((before ++ after).filter (·.status = task.status)).map (·.rank)) := by
  have hself : decide (task.status = task.status) = true := decide_eq_true rfl
  have hperm : (before ++ task :: after).Perm (task :: (before ++ after)) := List.perm_middle
  have hranks := (hperm.filter (·.status = task.status)).map (·.rank)
  rwa [List.filter_cons_of_pos (p := fun other : Task => other.status = task.status) hself, List.map_cons] at hranks

/-- A board on which a task keeps its status is dense if and only if the task keeps its rank. -/
theorem denseBoard_replace_iff {before after : List Task} (h : DenseBoard (before ++ existing :: after))
    (hid : payload.id = existing.id) (hstatus : payload.status = existing.status) :
    DenseBoard (before ++ payload :: after) ↔ payload.rank = existing.rank := by
  have hlength : ((before ++ payload :: after).filter (·.status = existing.status)).length =
      ((before ++ existing :: after).filter (·.status = existing.status)).length := by
    simp [List.filter_append, hstatus]
  have hold := ranks_perm before after existing
  have hnew := ranks_perm before after payload
  rw [hstatus] at hnew
  constructor
  · intro hnext
    have hdense := hnext.dense existing.status
    rw [hlength] at hdense
    have hperm := (hnew.symm.trans hdense).trans ((h.dense existing.status).symm.trans hold)
    have hcoe : (payload.rank ::ₘ (((before ++ after).filter (·.status = existing.status)).map (·.rank) : Multiset JsonNumber)) =
        existing.rank ::ₘ (((before ++ after).filter (·.status = existing.status)).map (·.rank) : Multiset JsonNumber) :=
      Multiset.coe_eq_coe.mpr hperm
    exact (Multiset.cons_inj_left _).mp hcoe
  · intro hrank
    refine ⟨?_, fun status => ?_⟩
    · have hids := h.ids
      rw [List.map_append, List.map_cons] at hids ⊢
      rwa [hid]
    · have hsame : ((before ++ payload :: after).filter (·.status = status)).map (·.rank) =
          ((before ++ existing :: after).filter (·.status = status)).map (·.rank) := by
        rw [List.filter_append, List.filter_append, List.filter_cons, List.filter_cons, hstatus]
        split_ifs
        · rw [List.map_append, List.map_append, List.map_cons, List.map_cons, hrank]
        · rfl
      have hcount := congrArg List.length hsame
      rw [List.length_map, List.length_map] at hcount
      rw [hsame, hcount]
      exact h.dense status

/-- A task that already has its status is replaced once more, by itself or not. -/
theorem task_updated_eq_self_iff (hids : (state.map (·.id)).Nodup) (hmem : existing ∈ state) (hid : payload.id = existing.id)
    (hstatus : payload.status = existing.status) :
    tasksReducer state (.task_updated payload.id (.ofTask payload)) = state ↔ payload = existing := by
  obtain ⟨before, after, rfl⟩ := List.append_of_mem hmem
  rw [task_updated_of_status hids hid hstatus]
  constructor
  · intro heq
    exact (List.cons.inj (List.append_cancel_left heq)).1
  · intro heq
    rw [heq]

theorem filter_reindexStatus_of_ne (hids : (state.map (·.id)).Nodup) {status other : TaskStatus} (hne : other ≠ status) :
    (reindexStatus state status).filter (·.status = other) = state.filter (·.status = other) := by
  rw [reindexStatus_eq hids, List.filter_map]
  have hfilter : state.filter ((fun task => decide (task.status = other)) ∘ fun task =>
      if task.status = status then { task with rank := ((columnIds state status).idxOf task.id : JsonNumber) } else task) =
        state.filter (·.status = other) := by
    apply List.filter_congr
    intro task _
    rw [Function.comp_apply]
    split_ifs <;> rfl
  rw [hfilter]
  conv_rhs => rw [← List.map_id (state.filter _)]
  apply List.map_congr_left
  intro task htask
  exact if_neg fun heq => hne ((of_decide_eq_true (List.mem_filter.mp htask).2).symm.trans heq)

theorem columnIds_reindexStatus_of_ne (hids : (state.map (·.id)).Nodup) {status other : TaskStatus} (hne : other ≠ status) :
    columnIds (reindexStatus state status) other = columnIds state other := by
  rw [columnIds, selectColumnTasks, filter_reindexStatus_of_ne hids hne, ← selectColumnTasks, ← columnIds]

section StatusChange

variable {before after : List Task}

theorem map_id_replace (hids : ((before ++ existing :: after).map (·.id)).Nodup) (hid : payload.id = existing.id) :
    ((before ++ payload :: after).map (·.id)).Nodup := by
  rw [List.map_append, List.map_cons] at hids ⊢
  rwa [hid]

/-- Both columns of a task that changes its status are reindexed. -/
theorem shows_status_changed (h : DenseBoard (before ++ existing :: after)) (hid : payload.id = existing.id)
    (hstatus : payload.status ≠ existing.status) :
    Shows (reindexStatus (reindexStatus (before ++ payload :: after) existing.status) payload.status)
      (columnIds (before ++ payload :: after)) := by
  have hids := map_id_replace h.ids hid
  have hids' : ((reindexStatus (before ++ payload :: after) existing.status).map (·.id)).Nodup := by
    rwa [map_id_reindexStatus]
  refine ⟨by rwa [map_id_reindexStatus], fun status => ?_⟩
  by_cases hnew : status = payload.status
  · rw [hnew, ← columnIds_reindexStatus_of_ne hids hstatus]
    exact column_reindexStatus_self hids' payload.status
  · rw [column_reindexStatus_of_ne hids' hnew]
    by_cases hold : status = existing.status
    · rw [hold]
      exact column_reindexStatus_self hids existing.status
    · rw [column_reindexStatus_of_ne hids hold]
      have hfilter : (before ++ payload :: after).filter (·.status = status) =
          (before ++ existing :: after).filter (·.status = status) := by
        rw [List.filter_append, List.filter_append, List.filter_cons_of_neg, List.filter_cons_of_neg]
        · exact decide_eq_true_iff.not.mpr fun heq => hold heq.symm
        · exact decide_eq_true_iff.not.mpr fun heq => hnew heq.symm
      have hcolumn := h.column status
      rw [columnIds, selectColumnTasks, ← hfilter, ← selectColumnTasks, ← columnIds] at hcolumn
      refine (column_congr fun task htask => ?_).mp hcolumn
      have hmem := congrArg (task ∈ ·) hfilter
      simpa [List.mem_filter, htask] using hmem.symm

/-- The task that changed its status, with the rank it got. -/
theorem mem_status_changed (hids : ((before ++ payload :: after).map (·.id)).Nodup)
    (hstatus : payload.status ≠ existing.status) :
    { payload with rank := ((columnIds (before ++ payload :: after) payload.status).idxOf payload.id : JsonNumber) } ∈
      reindexStatus (reindexStatus (before ++ payload :: after) existing.status) payload.status := by
  have hids' : ((reindexStatus (before ++ payload :: after) existing.status).map (·.id)).Nodup := by
    rwa [map_id_reindexStatus]
  rw [reindexStatus_eq hids', columnIds_reindexStatus_of_ne hids hstatus]
  apply List.mem_map.mpr
  refine ⟨payload, ?_, if_pos rfl⟩
  exact (mem_reindexStatus_iff hids hstatus rfl).mpr (List.mem_append_right _ List.mem_cons_self)

theorem rank_eq_idxOf_iff (h : DenseBoard (before ++ existing :: after)) (hid : payload.id = existing.id)
    (hstatus : payload.status ≠ existing.status) :
    payload.rank = ((columnIds (before ++ payload :: after) payload.status).idxOf payload.id : JsonNumber) ↔
      ∃ place : Nat, payload.rank = place ∧
        place ≤ ((before ++ existing :: after).filter (·.status = payload.status)).length ∧
        ∀ task ∈ before.filter (·.status = payload.status), task.rank ≠ place := by
  have hids := map_id_replace h.ids hid
  have hself : decide (payload.status = payload.status) = true := decide_eq_true rfl
  have hfilter : (before ++ payload :: after).filter (·.status = payload.status) =
      before.filter (·.status = payload.status) ++ payload :: after.filter (·.status = payload.status) := by
    rw [List.filter_append, List.filter_cons_of_pos (p := fun other : Task => other.status = payload.status) hself]
  have hothers : (before ++ existing :: after).filter (·.status = payload.status) =
      before.filter (·.status = payload.status) ++ after.filter (·.status = payload.status) := by
    rw [List.filter_append, List.filter_cons_of_neg]
    exact decide_eq_true_iff.not.mpr fun heq => hstatus heq.symm
  have hnodup : ((before ++ payload :: after).filter (·.status = payload.status)).Nodup :=
    hids.of_map.sublist List.filter_sublist
  have hmem : payload ∈ selectColumnTasks (before ++ payload :: after) payload.status := by
    rw [selectColumnTasks, (sortByRank_perm _).mem_iff, hfilter]
    exact List.mem_append_right _ List.mem_cons_self
  obtain ⟨first, last, hsort⟩ := List.append_of_mem hmem
  have hplace : (columnIds (before ++ payload :: after) payload.status).idxOf payload.id = first.length := by
    have hcolumn : columnIds (before ++ payload :: after) payload.status =
        first.map (·.id) ++ payload.id :: last.map (·.id) := by
      rw [columnIds, hsort, List.map_append, List.map_cons]
    have hfresh : payload.id ∉ first.map (·.id) := by
      intro hin
      have hnodup' := nodup_columnIds hids payload.status
      rw [hcolumn] at hnodup'
      exact (List.nodup_append.mp hnodup').2.2 _ hin _ List.mem_cons_self rfl
    rw [hcolumn, List.idxOf_append_of_notMem hfresh, List.idxOf_cons_self, List.length_map, Nat.add_zero]
  rw [hplace, hothers]
  rw [selectColumnTasks, hfilter] at hsort
  rw [hfilter] at hnodup
  apply StableSort.key_eq_length_iff Nat.strictMono_cast hsort hnodup
  rw [← hothers]
  exact h.dense payload.status

end StatusChange

theorem denseOnce_task_updated_iff (h : DenseBoard state) (payload : Task) :
    DenseOnce state (.task_updated payload.id (.ofTask payload)) ↔
      NamesPlace state (.task_updated payload.id (.ofTask payload)) := by
  by_cases hmem : ∃ old ∈ state, old.id = payload.id
  · obtain ⟨existing, hexisting, hid⟩ := hmem
    have hplace : NamesPlace state (.task_updated payload.id (.ofTask payload)) ↔
        if payload.status = existing.status then payload.rank = existing.rank
        else ∃ place : Nat, payload.rank = place ∧ place ≤ (state.filter (·.status = payload.status)).length ∧
          ∀ task ∈ (state.takeWhile (·.id ≠ payload.id)).filter (·.status = payload.status), task.rank ≠ place := by
      constructor
      · intro hnames
        exact hnames existing hexisting hid
      · intro hcond old hold holdId
        rw [eq_of_id_eq h.ids hold hexisting (holdId.trans hid.symm)]
        exact hcond
    rw [hplace]
    obtain ⟨before, after, rfl⟩ := List.append_of_mem hexisting
    have hids := map_id_replace h.ids hid.symm
    by_cases hstatus : payload.status = existing.status
    · rw [if_pos hstatus, ← denseBoard_replace_iff h hid.symm hstatus, DenseOnce,
        task_updated_of_status h.ids hid.symm hstatus, task_updated_of_status hids rfl rfl]
      exact and_iff_left rfl
    · have hshows := shows_status_changed h hid.symm hstatus
      have hagain := task_updated_eq_self_iff hshows.ids (mem_status_changed hids hstatus) (Eq.refl payload.id) rfl
      rw [if_neg hstatus, ← hid, takeWhile_eq h.ids, ← rank_eq_idxOf_iff h hid.symm hstatus, hid, DenseOnce,
        task_updated_of_status_ne h.ids hid.symm hstatus,
        hagain, and_iff_right hshows.denseBoard]
      constructor
      · intro heq
        exact congrArg Task.rank heq
      · intro hrank
        rw [← hrank]
  · have habsent : ∀ old ∈ state, old.id ≠ payload.id := fun old hold hid => hmem ⟨old, hold, hid⟩
    rw [DenseOnce, task_updated_of_absent habsent, task_updated_of_absent habsent]
    refine iff_of_true ⟨h, rfl⟩ fun old hold hid => ?_
    exact absurd hid (habsent old hold)

/-- The board stays dense and the action can come twice, exactly when an update names the place of its task. -/
theorem denseOnce_iff (h : DenseBoard state) {action : TasksAction} (hpage : FromPayload action) :
    DenseOnce state action ↔ NamesPlace state action := by
  cases action with
  | tasks_loaded tasks => exact hpage.elim
  | task_created task => exact iff_of_true (denseOnce_task_created h task) trivial
  | task_updated taskId changes =>
      obtain ⟨payload, rfl, rfl⟩ := hpage
      exact denseOnce_task_updated_iff h payload
  | task_moved taskId toStatus toIndex => exact iff_of_true (denseOnce_task_moved h taskId toStatus toIndex) trivial
  | task_deleted taskId => exact iff_of_true (denseOnce_task_deleted h taskId) trivial

/-- A task comes in the column and with the rank it has. -/
theorem denseOnce_iff_of_same_place :
    DenseOnce twoCards (.task_updated "a" (.ofTask { card "a" .TODO 0 with title := "A" })) ↔
      NamesPlace twoCards (.task_updated "a" (.ofTask { card "a" .TODO 0 with title := "A" })) :=
  denseOnce_iff denseBoard_twoCards ⟨{ card "a" .TODO 0 with title := "A" }, rfl, rfl⟩

/-- The task comes with the rank of the other one, and two cards share a rank from then on. -/
theorem not_denseOnce_of_other_rank :
    ¬ ∀ (state : List Task) (action : TasksAction), DenseBoard state → FromPayload action → DenseOnce state action := by
  intro hall
  have hdense := (hall twoCards (.task_updated "a" (.ofTask (card "a" .TODO 1))) denseBoard_twoCards
    ⟨card "a" .TODO 1, rfl, rfl⟩).1.dense .TODO
  have hmem : (0 : JsonNumber) ∈ ((tasksReducer twoCards (.task_updated "a" (.ofTask (card "a" .TODO 1)))).filter
      (·.status = .TODO)).map (·.rank) :=
    hdense.mem_iff.mpr (List.mem_map.mpr ⟨0, by decide, by decide⟩)
  exact absurd hmem (by decide)

end Transcendence.Kanban
