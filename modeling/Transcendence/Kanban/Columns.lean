import Transcendence.Kanban.Reducer

/-!
# The columns of the Kanban page

A board is dense if every rank is the place of the task in its column, so a dense board is known by
the ids in its columns. Reindexing a column puts it right whatever its ranks were, and leaves the
others alone; moving, deleting and creating a task erase its id and insert it.
-/

namespace Transcendence.Kanban

open Tasks (TaskId TaskStatus)
open RankedColumns (eraseItem insertItem moveItem)

variable {tasks state : List Task} {status : TaskStatus} {ids : List TaskId} {columns : TaskStatus → List TaskId}

/-- The column of a status holds these ids, in this order, and the ranks say so. -/
structure Column (tasks : List Task) (status : TaskStatus) (ids : List TaskId) : Prop where
  nodup : ids.Nodup
  mem_iff : ∀ id, id ∈ ids ↔ ∃ task ∈ tasks, task.id = id ∧ task.status = status
  rank : ∀ task ∈ tasks, task.status = status → task.rank = ids.idxOf task.id

structure Shows (state : List Task) (columns : TaskStatus → List TaskId) : Prop where
  ids : (state.map (·.id)).Nodup
  column : ∀ status, Column state status (columns status)

def columnIds (tasks : List Task) (status : TaskStatus) : List TaskId :=
  (selectColumnTasks tasks status).map (·.id)

/-! ### Sorting -/

theorem sortByRank_perm (tasks : List Task) : (sortByRank tasks).Perm tasks :=
  List.perm_insertionSort _ _

theorem mem_columnIds {id : TaskId} : id ∈ columnIds tasks status ↔ ∃ task ∈ tasks, task.id = id ∧ task.status = status := by
  rw [columnIds, List.mem_map]
  constructor
  · intro ⟨task, htask, hid⟩
    obtain ⟨hmem, hstatus⟩ := List.mem_filter.mp ((sortByRank_perm _).mem_iff.mp htask)
    exact ⟨task, hmem, hid, of_decide_eq_true hstatus⟩
  · intro ⟨task, hmem, hid, hstatus⟩
    exact ⟨task, (sortByRank_perm _).mem_iff.mpr (List.mem_filter.mpr ⟨hmem, decide_eq_true hstatus⟩), hid⟩

theorem nodup_columnIds (hids : (tasks.map (·.id)).Nodup) (status : TaskStatus) : (columnIds tasks status).Nodup :=
  ((sortByRank_perm _).map _).nodup_iff.mpr (hids.sublist (List.filter_sublist.map _))

theorem eq_of_id_eq (hids : (tasks.map (·.id)).Nodup) {a b : Task} (ha : a ∈ tasks) (hb : b ∈ tasks) (h : a.id = b.id) :
    a = b :=
  List.inj_on_of_nodup_map hids ha hb h

/-- Tasks of one column that are sorted by rank stand in the order of the column. -/
theorem Column.map_id_of_sorted (h : Column state status ids) {l : List TaskId}
    (htasks : ∀ task ∈ tasks, task ∈ state ∧ task.status = status)
    (hsorted : tasks.Pairwise fun a b => a.rank ≤ b.rank) (hperm : (tasks.map (·.id)).Perm l) (hsub : l.Sublist ids) :
    tasks.map (·.id) = l := by
  apply RankedColumns.eq_of_perm_of_sorted_idxOf hperm hsub ?_ h.nodup
  refine List.pairwise_map.mpr (hsorted.imp_of_mem ?_)
  intro a b ha hb hle
  obtain ⟨ha, hastatus⟩ := htasks a ha
  obtain ⟨hb, hbstatus⟩ := htasks b hb
  rw [h.rank a ha hastatus, h.rank b hb hbstatus] at hle
  exact Nat.cast_le.mp hle

theorem sortByRank_sorted (tasks : List Task) : (sortByRank tasks).Pairwise fun a b => a.rank ≤ b.rank :=
  List.pairwise_insertionSort _ _

theorem Column.map_id_sortByRank (h : Column state status ids) {l : List TaskId}
    (htasks : ∀ task ∈ tasks, task ∈ state ∧ task.status = status) (hperm : (tasks.map (·.id)).Perm l)
    (hsub : l.Sublist ids) : (sortByRank tasks).map (·.id) = l :=
  h.map_id_of_sorted (fun task htask => htasks task ((sortByRank_perm tasks).mem_iff.mp htask)) (sortByRank_sorted tasks)
    (((sortByRank_perm tasks).map _).trans hperm) hsub

theorem Column.map_id_filter_perm (h : Column state status ids) (hids : (state.map (·.id)).Nodup) :
    ((state.filter (·.status = status)).map (·.id)).Perm ids := by
  apply (List.perm_ext_iff_of_nodup (hids.sublist (List.filter_sublist.map _)) h.nodup).mpr
  intro id
  rw [h.mem_iff, List.mem_map]
  constructor
  · intro ⟨task, htask, hid⟩
    obtain ⟨hmem, hstatus⟩ := List.mem_filter.mp htask
    exact ⟨task, hmem, hid, of_decide_eq_true hstatus⟩
  · intro ⟨task, hmem, hid, hstatus⟩
    exact ⟨task, List.mem_filter.mpr ⟨hmem, decide_eq_true hstatus⟩, hid⟩

theorem Column.columnIds_eq (h : Column state status ids) (hids : (state.map (·.id)).Nodup) :
    columnIds state status = ids := by
  apply h.map_id_sortByRank _ (h.map_id_filter_perm hids) (List.Sublist.refl _)
  intro task htask
  obtain ⟨hmem, hstatus⟩ := List.mem_filter.mp htask
  exact ⟨hmem, of_decide_eq_true hstatus⟩

/-- The other tasks of a column, in display order. -/
theorem Column.map_id_others (h : Column state status ids) (hids : (state.map (·.id)).Nodup) (id : TaskId) :
    (sortByRank (state.filter fun task => task.status = status ∧ task.id ≠ id)).map (·.id) = ids.erase id := by
  apply h.map_id_sortByRank _ _ List.erase_sublist
  · intro task htask
    obtain ⟨hmem, hfilter⟩ := List.mem_filter.mp htask
    exact ⟨hmem, (of_decide_eq_true hfilter).1⟩
  · apply (List.perm_ext_iff_of_nodup (hids.sublist (List.filter_sublist.map _)) (h.nodup.erase _)).mpr
    intro other
    rw [h.nodup.mem_erase_iff, h.mem_iff, List.mem_map]
    constructor
    · intro ⟨task, htask, hid⟩
      obtain ⟨hmem, hfilter⟩ := List.mem_filter.mp htask
      obtain ⟨hstatus, hne⟩ := of_decide_eq_true hfilter
      exact ⟨hid ▸ hne, task, hmem, hid, hstatus⟩
    · intro ⟨hne, task, hmem, hid, hstatus⟩
      exact ⟨task, List.mem_filter.mpr ⟨hmem, decide_eq_true ⟨hstatus, hid ▸ hne⟩⟩, hid⟩

/-! ### Dense boards -/

/-- A list that is sorted and holds `0, …, n - 1` in some order holds them in order. -/
theorem rank_selectColumnTasks (h : Dense tasks) (status : TaskStatus) :
    (selectColumnTasks tasks status).map (·.rank) = (List.range (selectColumnTasks tasks status).length).map (↑) := by
  have hperm : (selectColumnTasks tasks status).Perm (tasks.filter (·.status = status)) := sortByRank_perm _
  have hranks := (hperm.map (·.rank)).trans (h status)
  rw [← hperm.length_eq] at hranks
  apply hranks.eq_of_pairwise (fun a b _ _ hab hba => le_antisymm hab hba)
  · exact List.pairwise_map.mpr (List.pairwise_insertionSort _ _)
  · exact List.pairwise_map.mpr (List.pairwise_lt_range.imp fun hlt => Nat.cast_le.mpr hlt.le)

theorem DenseBoard.column (h : DenseBoard tasks) (status : TaskStatus) : Column tasks status (columnIds tasks status) where
  nodup := nodup_columnIds h.ids status
  mem_iff _ := mem_columnIds
  rank task hmem hstatus := by
    have hselected : task ∈ selectColumnTasks tasks status :=
      (sortByRank_perm _).mem_iff.mpr (List.mem_filter.mpr ⟨hmem, decide_eq_true hstatus⟩)
    obtain ⟨j, hj, hget⟩ := List.getElem_of_mem hselected
    have hj' : j < (columnIds tasks status).length := by
      rw [columnIds, List.length_map]
      exact hj
    have hindex : (columnIds tasks status)[j] = task.id := by
      simp [columnIds, hget]
    rw [← hindex, (nodup_columnIds h.ids status).idxOf_getElem, ← hget]
    have hrank := List.getElem_of_eq (rank_selectColumnTasks h.dense status) (by simpa using hj)
    simpa using hrank

theorem DenseBoard.shows (h : DenseBoard state) : Shows state (columnIds state) :=
  ⟨h.ids, h.column⟩

theorem Shows.denseBoard (h : Shows state columns) : DenseBoard state := by
  refine ⟨h.ids, fun status => ?_⟩
  have hcolumn := h.column status
  have hperm := hcolumn.map_id_filter_perm h.ids
  have hranks : (state.filter (·.status = status)).map (·.rank) =
      ((state.filter (·.status = status)).map (·.id)).map fun id => ((columns status).idxOf id : JsonNumber) := by
    rw [List.map_map]
    apply List.map_congr_left
    intro task htask
    obtain ⟨hmem, hstatus⟩ := List.mem_filter.mp htask
    exact hcolumn.rank task hmem (of_decide_eq_true hstatus)
  have hlength : (state.filter (·.status = status)).length = (columns status).length := by
    rw [← hperm.length_eq, List.length_map]
  rw [hranks, hlength]
  refine (hperm.map _).trans (List.Perm.of_eq ?_)
  apply List.ext_getElem (by simp)
  intro i hi hi'
  simp only [List.getElem_map, List.getElem_range]
  rw [hcolumn.nodup.idxOf_getElem]

/-- A board is known by its columns. -/
theorem Shows.mem_triples_iff (h : Shows state columns) {id : TaskId} {status : TaskStatus} {rank : JsonNumber} :
    (id, status, rank) ∈ triples state ↔ id ∈ columns status ∧ rank = (columns status).idxOf id := by
  rw [triples, List.mem_map, (h.column status).mem_iff]
  constructor
  · intro ⟨task, hmem, htriple⟩
    obtain ⟨rfl, rfl, rfl⟩ : task.id = id ∧ task.status = status ∧ task.rank = rank := by
      simpa [Task.triple] using htriple
    exact ⟨⟨task, hmem, rfl, rfl⟩, (h.column _).rank task hmem rfl⟩
  · intro ⟨⟨task, hmem, hid, hstatus⟩, hrank⟩
    refine ⟨task, hmem, ?_⟩
    rw [Task.triple, hid, hstatus, hrank, (h.column status).rank task hmem hstatus, hid]

theorem Shows.triples_perm {state' : List Task} (h : Shows state columns) (h' : Shows state' columns) :
    (triples state).Perm (triples state') := by
  have hnodup : ∀ {tasks : List Task}, (tasks.map (·.id)).Nodup → (triples tasks).Nodup := by
    intro tasks hids
    apply List.Nodup.of_map Prod.fst
    rw [triples, List.map_map]
    exact hids
  apply (List.perm_ext_iff_of_nodup (hnodup h.ids) (hnodup h'.ids)).mpr
  intro ⟨id, status, rank⟩
  rw [h.mem_triples_iff, h'.mem_triples_iff]

/-- The columns of a board are known by its triples. -/
theorem Shows.columns_eq {state' : List Task} {columns' : TaskStatus → List TaskId} (h : Shows state columns)
    (h' : Shows state' columns') (hperm : (triples state).Perm (triples state')) : columns = columns' := by
  funext status
  have hmem : ∀ id, id ∈ columns status ↔ id ∈ columns' status := by
    intro id
    have hiff : ∀ rank, (id ∈ columns status ∧ rank = ((columns status).idxOf id : JsonNumber)) ↔
        (id ∈ columns' status ∧ rank = ((columns' status).idxOf id : JsonNumber)) := by
      intro rank
      rw [← h.mem_triples_iff, ← h'.mem_triples_iff, hperm.mem_iff]
    constructor
    · intro hid
      exact ((hiff _).mp ⟨hid, rfl⟩).1
    · intro hid
      exact ((hiff _).mpr ⟨hid, rfl⟩).1
  have hidx : ∀ id ∈ columns status, (columns status).idxOf id = (columns' status).idxOf id := by
    intro id hid
    have htriple : (id, status, ((columns status).idxOf id : JsonNumber)) ∈ triples state' :=
      hperm.mem_iff.mp (h.mem_triples_iff.mpr ⟨hid, rfl⟩)
    exact Nat.cast_injective (h'.mem_triples_iff.mp htriple).2
  have hperm' : (columns status).Perm (columns' status) :=
    (List.perm_ext_iff_of_nodup (h.column status).nodup (h'.column status).nodup).mpr hmem
  apply RankedColumns.eq_of_perm_of_sorted_idxOf hperm' (List.Sublist.refl _) ?_ (h'.column status).nodup
  rw [List.pairwise_iff_getElem]
  intro i j hi hj hij
  rw [← hidx _ (List.getElem_mem hi), ← hidx _ (List.getElem_mem hj), (h.column status).nodup.idxOf_getElem,
    (h.column status).nodup.idxOf_getElem]
  exact hij.le

/-! ### Reindexing a column -/

theorem reindexStatus_eq (hids : (tasks.map (·.id)).Nodup) (status : TaskStatus) :
    reindexStatus tasks status = tasks.map fun task =>
      if task.status = status then { task with rank := (columnIds tasks status).idxOf task.id } else task := by
  apply List.map_congr_left
  intro task hmem
  have hin : task.id ∈ columnIds tasks status ↔ task.status = status := by
    rw [mem_columnIds]
    constructor
    · intro ⟨other, hother, hid, hstatus⟩
      rwa [eq_of_id_eq hids hother hmem hid] at hstatus
    · intro hstatus
      exact ⟨task, hmem, rfl, hstatus⟩
  rw [OrderedMap.get_setAll_zipIdx [] (fun task : Task => task.id) (fun index => (index : JsonNumber))
    (nodup_columnIds hids status)]
  by_cases hstatus : task.status = status
  · rw [if_pos hstatus, ← columnIds, if_pos (hin.mpr hstatus)]
    show (if task.rank = _ then task else _) = _
    split_ifs with hrank
    · rw [← hrank]
    · rfl
  · rw [if_neg hstatus, ← columnIds, if_neg fun h => hstatus (hin.mp h)]
    rfl

@[simp] theorem map_id_reindexStatus (tasks : List Task) (status : TaskStatus) :
    (reindexStatus tasks status).map (·.id) = tasks.map (·.id) := by
  rw [reindexStatus, List.map_map]
  apply List.map_congr_left
  intro task _
  rw [Function.comp_apply]
  split
  · rfl
  · split_ifs <;> rfl

/-- Reindexing puts a column right, whatever its ranks were. -/
theorem column_reindexStatus_self (hids : (tasks.map (·.id)).Nodup) (status : TaskStatus) :
    Column (reindexStatus tasks status) status (columnIds tasks status) where
  nodup := nodup_columnIds hids status
  mem_iff id := by
    rw [mem_columnIds, reindexStatus_eq hids]
    constructor
    · intro ⟨task, hmem, hid, hstatus⟩
      refine ⟨_, List.mem_map_of_mem hmem, ?_, ?_⟩ <;> rw [if_pos hstatus]
      · exact hid
      · exact hstatus
    · intro ⟨task', hmem', hid, hstatus⟩
      obtain ⟨task, hmem, rfl⟩ := List.mem_map.mp hmem'
      refine ⟨task, hmem, ?_⟩
      split_ifs at hid hstatus
      · exact ⟨hid, hstatus⟩
      · exact ⟨hid, hstatus⟩
  rank task' hmem' hstatus := by
    rw [reindexStatus_eq hids] at hmem'
    obtain ⟨task, hmem, rfl⟩ := List.mem_map.mp hmem'
    split_ifs at hstatus ⊢ with h
    · rfl
    · exact absurd hstatus h

/-- The tasks of another column are left as they are. -/
theorem mem_reindexStatus_iff (hids : (tasks.map (·.id)).Nodup) {other : TaskStatus} (hne : other ≠ status) {task : Task}
    (hstatus : task.status = other) : task ∈ reindexStatus tasks status ↔ task ∈ tasks := by
  rw [reindexStatus_eq hids, List.mem_map]
  constructor
  · intro ⟨old, hmem, heq⟩
    split_ifs at heq with h
    · subst heq
      exact absurd hstatus fun heq => hne (heq.symm.trans h)
    · exact heq ▸ hmem
  · intro hmem
    exact ⟨task, hmem, if_neg fun h => hne (hstatus.symm.trans h)⟩

/-- A column depends on the tasks of its status only. -/
theorem column_congr {tasks' : List Task} (h : ∀ task : Task, task.status = status → (task ∈ tasks ↔ task ∈ tasks')) :
    Column tasks status ids ↔ Column tasks' status ids := by
  have hto : ∀ {tasks tasks' : List Task}, (∀ task : Task, task.status = status → (task ∈ tasks ↔ task ∈ tasks')) →
      Column tasks status ids → Column tasks' status ids := by
    intro tasks tasks' h hcolumn
    refine ⟨hcolumn.nodup, fun id => ?_, fun task hmem hstatus => hcolumn.rank task ((h task hstatus).mpr hmem) hstatus⟩
    rw [hcolumn.mem_iff]
    constructor
    · intro ⟨task, hmem, hid, hstatus⟩
      exact ⟨task, (h task hstatus).mp hmem, hid, hstatus⟩
    · intro ⟨task, hmem, hid, hstatus⟩
      exact ⟨task, (h task hstatus).mpr hmem, hid, hstatus⟩
  exact ⟨hto h, hto fun task hstatus => (h task hstatus).symm⟩

theorem column_reindexStatus_of_ne (hids : (tasks.map (·.id)).Nodup) {other : TaskStatus} (hne : other ≠ status) :
    Column (reindexStatus tasks status) other ids ↔ Column tasks other ids :=
  column_congr fun _ hstatus => mem_reindexStatus_iff hids hne hstatus

/-! ### One lemma for each action -/

theorem find?_eq_some_of_mem (hids : (state.map (·.id)).Nodup) {task : Task} (hmem : task ∈ state) :
    state.find? (·.id = task.id) = some task := by
  cases hfind : state.find? (·.id = task.id) with
  | none => exact absurd (decide_eq_true rfl) (List.find?_eq_none.mp hfind task hmem)
  | some found =>
      have hid : found.id = task.id := by simpa using List.find?_some hfind
      rw [eq_of_id_eq hids (List.mem_of_find?_eq_some hfind) hmem hid]

theorem Shows.column_of_mem (h : Shows state columns) {task : Task} (hmem : task ∈ state) : task.id ∈ columns task.status :=
  ((h.column task.status).mem_iff task.id).mpr ⟨task, hmem, rfl, rfl⟩

/-- A task is in one column only. -/
theorem Shows.status_eq (h : Shows state columns) {task : Task} (hmem : task ∈ state) {status : TaskStatus}
    (hin : task.id ∈ columns status) : task.status = status := by
  obtain ⟨other, hother, hid, hstatus⟩ := ((h.column status).mem_iff task.id).mp hin
  rwa [eq_of_id_eq h.ids hother hmem hid] at hstatus

theorem shows_task_deleted (h : Shows state columns) {existing : Task} (hmem : existing ∈ state) :
    Shows (tasksReducer state (.task_deleted existing.id)) (eraseItem columns existing.id) := by
  have hids : ((state.filter (·.id ≠ existing.id)).map (·.id)).Nodup := h.ids.sublist (List.filter_sublist.map _)
  rw [tasksReducer, find?_eq_some_of_mem h.ids hmem]
  show Shows (reindexStatus _ existing.status) _
  refine ⟨by rwa [map_id_reindexStatus], fun status => ?_⟩
  by_cases hstatus : status = existing.status
  · have hcolumn := column_reindexStatus_self hids status
    have hothers := (h.column status).map_id_others h.ids existing.id
    rw [columnIds, selectColumnTasks, List.filter_filter] at hcolumn
    simp only [Bool.decide_and] at hothers
    rw [hothers] at hcolumn
    rw [← hstatus]
    exact hcolumn
  · rw [column_reindexStatus_of_ne hids hstatus, RankedColumns.eraseItem_of_not_mem fun hin => hstatus (h.status_eq hmem hin).symm]
    refine (column_congr fun task htask => ?_).mp (h.column status)
    rw [List.mem_filter, decide_eq_true_eq]
    constructor
    · intro htmem
      refine ⟨htmem, fun hid => hstatus ?_⟩
      rw [← htask, eq_of_id_eq h.ids htmem hmem hid]
    · intro htmem
      exact htmem.1

/-- A created task comes into its column, and the others keep their order. -/
theorem shows_task_created (h : Shows state columns) {task : Task} (hfresh : ∀ old ∈ state, old.id ≠ task.id) :
    ∃ ids, Shows (tasksReducer state (.task_created task)) (Function.update columns task.status ids) ∧
      task.id ∈ ids ∧ ids.erase task.id = columns task.status := by
  have hnew : state.any (·.id = task.id) = false := by
    rw [List.any_eq_false]
    intro old hold
    exact decide_eq_true_iff.not.mpr (hfresh old hold)
  have hids : ((state ++ [task]).map (·.id)).Nodup := by
    rw [List.map_append, List.map_singleton]
    refine List.nodup_append.mpr ⟨h.ids, List.nodup_singleton _, ?_⟩
    intro id hid other hother heq
    obtain ⟨old, hold, rfl⟩ := List.mem_map.mp hid
    exact hfresh old hold (heq.trans (List.mem_singleton.mp hother))
  rw [tasksReducer, hnew, if_neg Bool.false_ne_true]
  have hin : task.id ∈ columnIds (state ++ [task]) task.status :=
    mem_columnIds.mpr ⟨task, List.mem_append_right _ (List.mem_singleton_self task), rfl, rfl⟩
  refine ⟨columnIds (state ++ [task]) task.status, ⟨by rwa [map_id_reindexStatus], fun status => ?_⟩, hin, ?_⟩
  · by_cases hstatus : status = task.status
    · rw [hstatus, Function.update_self]
      exact column_reindexStatus_self hids task.status
    · rw [Function.update_of_ne hstatus, column_reindexStatus_of_ne hids hstatus]
      refine (column_congr fun other hother => ?_).mp (h.column status)
      rw [List.mem_append, List.mem_singleton]
      constructor
      · exact Or.inl
      · intro hmem
        refine hmem.resolve_right fun heq => hstatus ?_
        rw [← hother, heq]
  · have hothers : (columnIds (state ++ [task]) task.status).erase task.id =
        ((selectColumnTasks (state ++ [task]) task.status).filter (·.id ≠ task.id)).map (·.id) := by
      rw [(nodup_columnIds hids _).erase_eq_filter, columnIds, List.filter_map]
      congr 1
      apply List.filter_congr
      intro other _
      rw [Function.comp_apply, Bool.eq_iff_iff, bne_iff_ne, decide_eq_true_eq]
    have hmem : ∀ other, other ∈ (selectColumnTasks (state ++ [task]) task.status).filter (·.id ≠ task.id) ↔
        other ∈ state ∧ other.status = task.status := by
      intro other
      rw [selectColumnTasks, List.mem_filter, (sortByRank_perm _).mem_iff, List.mem_filter, List.mem_append,
        List.mem_singleton, decide_eq_true_eq, decide_eq_true_eq]
      constructor
      · intro ⟨⟨hmem, hstatus⟩, hne⟩
        exact ⟨hmem.resolve_right fun heq => hne (congrArg Task.id heq), hstatus⟩
      · intro ⟨hmem, hstatus⟩
        exact ⟨⟨Or.inl hmem, hstatus⟩, hfresh other hmem⟩
    rw [hothers]
    apply (h.column task.status).map_id_of_sorted (fun other hother => (hmem other).mp hother)
      ((sortByRank_sorted _).sublist List.filter_sublist) _ (List.Sublist.refl _)
    rw [← hothers]
    apply (List.perm_ext_iff_of_nodup ((nodup_columnIds hids _).erase _) (h.column task.status).nodup).mpr
    intro id
    rw [hothers, List.mem_map, (h.column task.status).mem_iff]
    constructor
    · intro ⟨other, hother, hid⟩
      exact ⟨other, ((hmem other).mp hother).1, hid, ((hmem other).mp hother).2⟩
    · intro ⟨other, hother, hid, hstatus⟩
      exact ⟨other, (hmem other).mpr ⟨hother, hstatus⟩, hid⟩

/-- The task after a move of the task `id` that leaves these columns. -/
def Task.place (columns : TaskStatus → List TaskId) (id : TaskId) (toStatus : TaskStatus) (task : Task) : Task :=
  let status := if task.id = id then toStatus else task.status
  { task with status := status, rank := (columns status).idxOf task.id }

theorem place_id (columns : TaskStatus → List TaskId) (id : TaskId) (toStatus : TaskStatus) (task : Task) :
    (task.place columns id toStatus).id = task.id :=
  rfl

theorem place_rank (columns : TaskStatus → List TaskId) (id : TaskId) (toStatus : TaskStatus) (task : Task) :
    (task.place columns id toStatus).rank = (columns (task.place columns id toStatus).status).idxOf task.id :=
  rfl

/-- Where the task goes among the others of its new column. -/
def slot (columns : TaskStatus → List TaskId) (id : TaskId) (toStatus : TaskStatus) (toIndex : JsonNumber) : Nat :=
  JsonNumber.clampIndex toIndex (eraseItem columns id toStatus).length

theorem slot_le (columns : TaskStatus → List TaskId) (id : TaskId) (toStatus : TaskStatus) (toIndex : JsonNumber) :
    slot columns id toStatus toIndex ≤ (eraseItem columns id toStatus).length :=
  JsonNumber.clampIndex_le _ _

theorem slot_congr {columns' : TaskStatus → List TaskId} {id : TaskId} (h : eraseItem columns id = eraseItem columns' id)
    (toStatus : TaskStatus) (toIndex : JsonNumber) : slot columns id toStatus toIndex = slot columns' id toStatus toIndex := by
  rw [slot, h, ← slot]

/-- After a move the task is in its new column, and the others are where they were. -/
theorem Shows.mem_moveItem_iff (h : Shows state columns) {moved task : Task} (hmem : task ∈ state)
    {toStatus : TaskStatus} {n : Nat} (hn : n ≤ (eraseItem columns moved.id toStatus).length) (status : TaskStatus) :
    task.id ∈ moveItem columns moved.id toStatus n status ↔
      (if task.id = moved.id then toStatus else task.status) = status := by
  have herase : task.id ∈ eraseItem columns moved.id status ↔ task.id ≠ moved.id ∧ task.status = status := by
    rw [eraseItem, (h.column status).nodup.mem_erase_iff, (h.column status).mem_iff]
    constructor
    · intro hin
      obtain ⟨hne, other, hother, hid, hstatus⟩ := hin
      exact ⟨hne, eq_of_id_eq h.ids hother hmem hid ▸ hstatus⟩
    · intro hin
      obtain ⟨hne, hstatus⟩ := hin
      exact ⟨hne, task, hmem, rfl, hstatus⟩
  by_cases hstatus : status = toStatus
  · subst hstatus
    rw [RankedColumns.moveItem_self, List.mem_insertIdx hn, herase]
    split_ifs with hid
    · exact iff_of_true (Or.inl hid) rfl
    · constructor
      · intro hor
        exact (hor.resolve_left hid).2
      · intro heq
        exact Or.inr ⟨hid, heq⟩
  · rw [RankedColumns.moveItem_of_ne _ _ _ hstatus, herase]
    split_ifs with hid
    · exact iff_of_false (fun hand => hand.1 hid) fun heq => hstatus heq.symm
    · exact and_iff_right hid

theorem Shows.nodup_moveItem (h : Shows state columns) (id : TaskId) {toStatus : TaskStatus} {n : Nat}
    (hn : n ≤ (eraseItem columns id toStatus).length) (status : TaskStatus) :
    (moveItem columns id toStatus n status).Nodup := by
  have herase : (eraseItem columns id status).Nodup := (h.column status).nodup.erase _
  by_cases hstatus : status = toStatus
  · subst hstatus
    rw [RankedColumns.moveItem_self]
    exact RankedColumns.nodup_insertIdx herase (h.column status).nodup.not_mem_erase hn
  · rw [RankedColumns.moveItem_of_ne _ _ _ hstatus]
    exact herase

/-- Tasks that are placed in their columns show them. -/
theorem Shows.place (h : Shows state columns) {moved : Task} (hmoved : moved ∈ state) {toStatus : TaskStatus} {n : Nat}
    (hn : n ≤ (eraseItem columns moved.id toStatus).length) :
    Shows (state.map (Task.place (moveItem columns moved.id toStatus n) moved.id toStatus))
      (moveItem columns moved.id toStatus n) := by
  refine ⟨?_, fun status => ⟨h.nodup_moveItem moved.id hn status, fun id => ?_, ?_⟩⟩
  · rw [List.map_map]
    exact h.ids
  · constructor
    · intro hid
      have hold : ∃ task ∈ state, task.id = id := by
        by_cases heq : id = moved.id
        · exact ⟨moved, hmoved, heq.symm⟩
        · have hin : id ∈ columns status := by
            by_cases hstatus : status = toStatus
            · subst hstatus
              rw [RankedColumns.moveItem_self, List.mem_insertIdx hn] at hid
              exact List.mem_of_mem_erase (hid.resolve_left heq)
            · rw [RankedColumns.moveItem_of_ne _ _ _ hstatus] at hid
              exact List.mem_of_mem_erase hid
          obtain ⟨task, hmem, hid, _⟩ := ((h.column status).mem_iff id).mp hin
          exact ⟨task, hmem, hid⟩
      obtain ⟨task, hmem, rfl⟩ := hold
      exact ⟨_, List.mem_map_of_mem hmem, rfl, (h.mem_moveItem_iff hmem hn status).mp hid⟩
    · intro ⟨task', hmem', hid, hstatus⟩
      obtain ⟨task, hmem, rfl⟩ := List.mem_map.mp hmem'
      rw [← hid]
      exact (h.mem_moveItem_iff hmem hn status).mpr hstatus
  · intro task' hmem' hstatus
    obtain ⟨task, hmem, rfl⟩ := List.mem_map.mp hmem'
    rw [place_rank, hstatus, place_id]

/-- A position that is already right is left as it is, which makes no difference. -/
theorem keep_or_place (task : Task) (status : TaskStatus) (rank : JsonNumber) :
    (if task.status = status ∧ task.rank = rank then task else { task with status := status, rank := rank }) =
      { task with status := status, rank := rank } := by
  split_ifs with hsame
  · obtain ⟨rfl, rfl⟩ := hsame
    rfl
  · rfl

theorem moveTaskTo_eq (h : Shows state columns) {moved : Task} (hmoved : moved ∈ state) (toStatus : TaskStatus)
    (toIndex : JsonNumber) :
    moveTaskTo state moved toStatus toIndex = state.map
      (Task.place (moveItem columns moved.id toStatus (slot columns moved.id toStatus toIndex)) moved.id toStatus) := by
  have hn := slot_le columns moved.id toStatus toIndex
  have hothers := fun status => (h.column status).map_id_others h.ids moved.id
  have hlength : (sortByRank (state.filter fun task => task.status = toStatus ∧ task.id ≠ moved.id)).length =
      (eraseItem columns moved.id toStatus).length := by
    rw [← List.length_map (f := fun task : Task => task.id), hothers]
    rfl
  have hdestination : ((sortByRank (state.filter fun task => task.status = toStatus ∧ task.id ≠ moved.id)).insertIdx
      (slot columns moved.id toStatus toIndex) moved).map (·.id) =
        moveItem columns moved.id toStatus (slot columns moved.id toStatus toIndex) toStatus := by
    rw [List.map_insertIdx, hothers, RankedColumns.moveItem_self]
    rfl
  have hnodup := h.nodup_moveItem moved.id hn toStatus
  apply List.map_congr_left
  intro task hmem
  have hin := h.mem_moveItem_iff hmem hn
  rw [hlength, ← slot]
  set source := if moved.status = toStatus then [] else
    sortByRank (state.filter fun task => task.status = moved.status ∧ task.id ≠ moved.id) with hsource
  have hleft : source.map (·.id) = if moved.status = toStatus then [] else eraseItem columns moved.id moved.status := by
    rw [hsource]
    split_ifs
    · rfl
    · rw [hothers]
      rfl
  have hsourceNodup : (source.map (·.id)).Nodup := by
    rw [hleft]
    split_ifs
    · exact List.nodup_nil
    · exact (h.column moved.status).nodup.erase _
  rw [OrderedMap.get_setAll_zipIdx _ (fun task : Task => task.id) (fun index => (moved.status, (index : JsonNumber)))
      hsourceNodup,
    OrderedMap.get_setAll_zipIdx [] (fun task : Task => task.id) (fun index => (toStatus, (index : JsonNumber)))
      (hdestination ▸ hnodup), hdestination, hleft]
  by_cases hto : (if task.id = moved.id then toStatus else task.status) = toStatus
  · have hout : task.id ∉ if moved.status = toStatus then [] else eraseItem columns moved.id moved.status := by
      split_ifs with hstatus
      · exact List.not_mem_nil
      · rw [← RankedColumns.moveItem_of_ne columns moved.id (slot columns moved.id toStatus toIndex) hstatus, hin, hto]
        exact fun heq => hstatus heq.symm
    rw [if_neg hout, if_pos ((hin toStatus).mpr hto), Task.place, hto]
    exact keep_or_place task toStatus _
  · have hne : task.id ≠ moved.id := fun hid => hto (if_pos hid)
    rw [if_neg hne] at hto hin
    have hrest := RankedColumns.moveItem_of_ne columns moved.id (slot columns moved.id toStatus toIndex) hto
    rw [Task.place, if_neg hne, hrest]
    by_cases hstatus : task.status = moved.status
    · have hsame : moved.status ≠ toStatus := fun heq => hto (hstatus.trans heq)
      rw [if_neg hsame, if_pos ((RankedColumns.moveItem_of_ne columns moved.id _ hsame) ▸ (hin moved.status).mpr hstatus),
        ← hstatus]
      exact keep_or_place task task.status _
    · have hout : task.id ∉ if moved.status = toStatus then [] else eraseItem columns moved.id moved.status := by
        split_ifs with hsame
        · exact List.not_mem_nil
        · rw [← RankedColumns.moveItem_of_ne columns moved.id (slot columns moved.id toStatus toIndex) hsame, hin]
          exact hstatus
      rw [if_neg hout, if_neg ((hin toStatus).not.mpr hto),
        RankedColumns.eraseItem_of_not_mem fun hmoved' => hstatus (h.status_eq hmoved hmoved').symm,
        ← (h.column task.status).rank task hmem rfl]
      rfl

theorem shows_task_moved (h : Shows state columns) {moved : Task} (hmoved : moved ∈ state) (toStatus : TaskStatus)
    (toIndex : JsonNumber) :
    Shows (tasksReducer state (.task_moved moved.id toStatus toIndex))
      (moveItem columns moved.id toStatus (slot columns moved.id toStatus toIndex)) := by
  rw [tasksReducer, find?_eq_some_of_mem h.ids hmoved]
  show Shows (moveTaskTo state moved toStatus toIndex) _
  rw [moveTaskTo_eq h hmoved]
  exact h.place hmoved (slot_le columns moved.id toStatus toIndex)

end Transcendence.Kanban
