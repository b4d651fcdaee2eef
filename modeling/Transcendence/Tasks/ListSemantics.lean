import Transcendence.Tasks.Commits

/-!
# Columns as lists

A column is the list of its tasks in rank order, and the transactions of the task service are
operations on these lists: a create inserts, a move erases and inserts, a removal erases. This holds
of every step of any calls on a board whose ranks are dense at the start; a step that is none of
these transactions leaves every column as it is.
-/

namespace Transcendence.Tasks

open RankedColumns

/-! ### The operations on lists -/

/-- Where a requested rank puts a task in a list of this length; without a rank, at the end. -/
def listIndex (rank : Option Int) (length : Nat) : Nat :=
  rank.elim length fun rank => min (max rank 0).toNat length

structure Inserted (before after : Columns) (id : TaskId) (column : ColumnKey) (rank : Option Int) : Prop where
  fresh : ∀ key, id ∉ before key
  inserted : after column = (before column).insertIdx (listIndex rank (before column).length) id
  others : ∀ key, key ≠ column → after key = before key

/-- The target list is taken without the task, which matters if it is also the source. -/
structure Moved (before after : Columns) (id : TaskId) (source target : ColumnKey) (rank : Option Int) : Prop where
  mem : id ∈ before source
  left : source ≠ target → after source = (before source).erase id
  inserted : after target = ((before target).erase id).insertIdx (listIndex rank ((before target).erase id).length) id
  others : ∀ key, key ≠ source → key ≠ target → after key = before key

structure Erased (before after : Columns) (id : TaskId) (column : ColumnKey) : Prop where
  mem : id ∈ before column
  erased : after column = (before column).erase id
  others : ∀ key, key ≠ column → after key = before key

/-- What a request does to the lists when its transaction commits. -/
def Request.ListEffect (before after : Columns) (id : TaskId) : Request → Prop
  | .createAs projectId dto _ => Inserted before after id (projectId, dto.status) (some dto.rank)
  | .updateAs _ dto projectId _ =>
      ∃ status, Moved before after id (projectId, status) (projectId, dto.status.getD status) dto.rank
  | .removeAs _ projectId _ => ∃ status, Erased before after id (projectId, status)

/-- A call with this request gets from one progress to the other by the commit of its create, its
move or its removal of the task. -/
inductive Rearranges : Request → Progress → Progress → TaskId → Prop where
  | createAs {projectId : ProjectId} {dto : CreateTaskDto} {actor : TaskMutationActor} {existing : Option Task}
      {id : TaskId} : Rearranges (.createAs projectId dto actor) (.validated existing) (.committed id) id
  | move {id : TaskId} {dto : UpdateTaskDto} {projectId : ProjectId} {actor : TaskMutationActor}
      {existing : Option Task} {moved : TaskMoved} :
      Rearranges (.updateAs id dto projectId actor) (.validated existing) (.movedRow moved) id
  | removeAs {id : TaskId} {projectId : ProjectId} {actor : TaskMutationActor} {existing : Option Task}
      {deleted : Task} : Rearranges (.removeAs id projectId actor) (.existing existing) (.deletedRow deleted) id

/-- The lists of a database. -/
def Database.columns (db : Database) : Columns := arrangement (positions db.tasks)

theorem columns_eq {db : Database} {columns : Columns} (h : Represents (positions db.tasks) columns) :
    db.columns = columns := funext h.arrangement_eq

theorem clampIndex_eq_listIndex (rank : Option Int) (length : Nat) : clampIndex rank length = listIndex rank length := by
  cases rank with
  | none => simp only [clampIndex, clampRank, listIndex, Option.elim_none, Int.toNat_natCast]
  | some rank =>
      simp only [clampIndex, clampRank, listIndex, Option.elim_some]
      omega

/-! ### One lemma for each operation -/

theorem inserted_insertItem {columns : Columns} {id : TaskId} {column : ColumnKey} {rank : Option Int}
    (hfresh : ∀ key, id ∉ columns key) :
    Inserted columns (insertItem columns id column (clampIndex rank (columns column).length)) id column rank where
  fresh := hfresh
  inserted := by rw [insertItem_self, clampIndex_eq_listIndex]
  others key hkey := insertItem_of_ne _ _ _ hkey

/-- An item is in no column but its own, so erasing it leaves the others as they are. -/
theorem eraseItem_of_ne {ps : List (Position TaskId ColumnKey)} {columns : Columns} {id : TaskId} {column key : ColumnKey}
    (h : Represents ps columns) (hmem : id ∈ columns column) (hkey : key ≠ column) : eraseItem columns id key = columns key :=
  eraseItem_of_not_mem fun hother => hkey (h.column_unique hother hmem)

theorem erased_eraseItem {ps : List (Position TaskId ColumnKey)} {columns : Columns} {id : TaskId} {column : ColumnKey}
    (h : Represents ps columns) (hmem : id ∈ columns column) : Erased columns (eraseItem columns id) id column where
  mem := hmem
  erased := rfl
  others _ hkey := eraseItem_of_ne h hmem hkey

theorem moved_moveItem {ps : List (Position TaskId ColumnKey)} {columns : Columns} {id : TaskId}
    {source target : ColumnKey} {rank : Option Int} (h : Represents ps columns) (hmem : id ∈ columns source) :
    Moved columns (moveItem columns id target (clampIndex rank (eraseItem columns id target).length)) id source target
      rank where
  mem := hmem
  left hne := moveItem_of_ne _ _ _ hne
  inserted := by rw [moveItem_self, clampIndex_eq_listIndex, eraseItem]
  others key hsource htarget := by rw [moveItem_of_ne _ _ _ htarget, eraseItem_of_ne h hmem hsource]

/-! ### The relative order of the other tasks -/

theorem erase_insertIdx {l : List TaskId} {id : TaskId} {n : Nat} (hid : id ∉ l) : (l.insertIdx n id).erase id = l := by
  induction l generalizing n with
  | nil =>
      cases n with
      | zero => exact List.erase_cons_head ..
      | succ n => rfl
  | cons head l ih =>
      rw [List.mem_cons, not_or] at hid
      cases n with
      | zero => exact List.erase_cons_head ..
      | succ n =>
          rw [List.insertIdx_succ_cons, List.erase_cons_tail (by simpa using Ne.symm hid.1), ih hid.2]

theorem Inserted.erase_eq {before after : Columns} {id : TaskId} {column : ColumnKey} {rank : Option Int}
    (h : Inserted before after id column rank) (key : ColumnKey) : (after key).erase id = (before key).erase id := by
  by_cases hkey : key = column
  · subst hkey
    rw [h.inserted, erase_insertIdx (h.fresh key), List.erase_of_not_mem (h.fresh key)]
  · rw [h.others key hkey]

theorem Moved.erase_eq {before after : Columns} {id : TaskId} {source target : ColumnKey} {rank : Option Int}
    (h : Moved before after id source target rank) (hnodup : ∀ key, (before key).Nodup) (key : ColumnKey) :
    (after key).erase id = (before key).erase id := by
  have hnot : ∀ key, id ∉ (before key).erase id := fun key => (hnodup key).not_mem_erase
  by_cases htarget : key = target
  · subst htarget
    rw [h.inserted, erase_insertIdx (hnot key)]
  · by_cases hsource : key = source
    · subst hsource
      rw [h.left htarget, List.erase_of_not_mem (hnot key)]
    · rw [h.others key hsource htarget]

theorem Erased.erase_eq {before after : Columns} {id : TaskId} {column : ColumnKey} (h : Erased before after id column)
    (hnodup : ∀ key, (before key).Nodup) (key : ColumnKey) : (after key).erase id = (before key).erase id := by
  by_cases hkey : key = column
  · subst hkey
    rw [h.erased, List.erase_of_not_mem (hnodup key).not_mem_erase]
  · rw [h.others key hkey]

theorem Request.ListEffect.erase_eq {before after : Columns} {id : TaskId} {request : Request}
    (h : request.ListEffect before after id) (hnodup : ∀ key, (before key).Nodup) (key : ColumnKey) :
    (after key).erase id = (before key).erase id := by
  cases request with
  | createAs projectId dto actor => exact Inserted.erase_eq h key
  | updateAs taskId dto projectId actor =>
      obtain ⟨status, hmoved⟩ := h
      exact hmoved.erase_eq hnodup key
  | removeAs taskId projectId actor =>
      obtain ⟨status, herased⟩ := h
      exact herased.erase_eq hnodup key

/-! ### The commits -/

theorem Rearranges.commitOf_eq {request : Request} {before after : Progress} {id : TaskId}
    (h : Rearranges request before after id) : commitOf request before after = some id := by
  cases h with
  | createAs => rfl
  | move => rfl
  | removeAs => rfl

/-- A row that a request found is in the column of its status. -/
theorem exists_mem_column {db : Database} {columns : Columns} {id : TaskId} {projectId : ProjectId} {row : TaskRow}
    (h : Represents (positions db.tasks) columns) (hproject : ∀ row ∈ db.tasks, row.id = id → row.projectId = projectId)
    (hfind : db.findTask id = some row) : row ∈ db.tasks ∧ row.id = id ∧ id ∈ columns (projectId, row.status) := by
  have hmem := List.mem_of_find?_eq_some hfind
  obtain rfl : row.id = id := by simpa using List.find?_some hfind
  obtain rfl := hproject row hmem rfl
  exact ⟨hmem, rfl, (h.rank _ (mem_positions hmem)).1⟩

variable {db : Database} {randomUUID id : TaskId} {request : Request} {progress : Progress} {effect : Effect}
  {columns : Columns}

/-- The transaction that moves or removes the task of a call finds it in the call's project. -/
def OnBoard (db : Database) (request : Request) : Prop :=
  ∀ target, request.target = some target → ∀ row ∈ db.tasks, row.id = target.1 → row.projectId = target.2

theorem inserted_of_createTask {after : Database} {actor : TaskMutationActor} {projectId : ProjectId} {dto : CreateTaskDto}
    (h : Represents (positions db.tasks) columns) (hcreate : db.createTask actor projectId dto id = some after) :
    Inserted columns after.columns id (projectId, dto.status) (some dto.rank) := by
  have hnone : db.tasks.find? (·.id = id) = none := by
    rw [Database.createTask] at hcreate
    split at hcreate
    · cases hcreate
    · next hfresh => simpa [Database.findTask] using hfresh
  rw [columns_eq (represents_createTask h hcreate)]
  exact inserted_insertItem (not_mem_columns h hnone)

theorem moved_of_moveTask {after : Database} {actor : TaskMutationActor} {projectId : ProjectId} {dto : UpdateTaskDto}
    {moved : TaskMoved} (h : Represents (positions db.tasks) columns)
    (hproject : ∀ row ∈ db.tasks, row.id = id → row.projectId = projectId)
    (hmove : db.moveTask actor id projectId dto = some (after, moved)) :
    ∃ status, Moved columns after.columns id (projectId, status) (projectId, dto.status.getD status) dto.rank := by
  obtain ⟨current, hfind, hmove⟩ := Option.bind_eq_some_iff.mp hmove
  obtain ⟨replaced, hreplace, heq⟩ := Option.map_eq_some_iff.mp hmove
  obtain ⟨hmem, rfl, hcolumn⟩ := exists_mem_column h hproject hfind
  have hafter : after.tasks = (moveRows db.tasks current projectId dto.status dto.rank dto).1 := by
    rw [← (Prod.mk.inj heq).1, tasks_recordMachineAction, tasks_replaceForMachine hreplace]
  have hcolumns : after.columns = moveItem columns current.id (projectId, dto.status.getD current.status)
      (clampIndex dto.rank (eraseItem columns current.id (projectId, dto.status.getD current.status)).length) := by
    apply columns_eq
    rw [hafter]
    exact represents_moveRows h hmem (hproject current hmem rfl)
  refine ⟨current.status, ?_⟩
  rw [hcolumns]
  exact moved_moveItem h hcolumn

theorem erased_of_deleteTask {after : Database} {actor : TaskMutationActor} {projectId : ProjectId} {task : Task}
    (h : Represents (positions db.tasks) columns) (hproject : ∀ row ∈ db.tasks, row.id = id → row.projectId = projectId)
    (hdelete : db.deleteTask actor id projectId = some (after, task)) :
    ∃ status, Erased columns after.columns id (projectId, status) := by
  obtain ⟨deleted, hfind, -⟩ := Option.map_eq_some_iff.mp hdelete
  obtain ⟨-, -, hcolumn⟩ := exists_mem_column h hproject hfind
  refine ⟨deleted.status, ?_⟩
  rw [columns_eq (represents_deleteTask h hproject hdelete)]
  exact erased_eraseItem h hcolumn

theorem listEffect_of_rearranges (h : Represents (positions db.tasks) columns) (hproject : OnBoard db request)
    (heffect : request.effect db randomUUID progress = some effect)
    (hrearranges : Rearranges request progress effect.progress id) :
    request.ListEffect columns effect.db.columns id := by
  rcases rests_or_commit heffect with hrests | hcommit
  · cases hrests.progress.symm.trans hrearranges.commitOf_eq
  · cases hcommit with
    | createAs hcreate =>
        cases hrearranges
        exact inserted_of_createTask h hcreate
    | move hmoving hmove =>
        cases hrearranges
        exact moved_of_moveTask h (hproject _ rfl) hmove
    | edit hmoving hupdate => cases hrearranges
    | removeAs hdelete =>
        cases hrearranges
        exact erased_of_deleteTask h (hproject _ rfl) hdelete

/-- A step that rearranges nothing leaves the positions alone. -/
theorem positions_of_not_rearranges (heffect : request.effect db randomUUID progress = some effect)
    (hquiet : ∀ id, ¬Rearranges request progress effect.progress id) :
    positions effect.db.tasks = positions db.tasks := by
  rcases rests_or_commit heffect with hrests | hcommit
  · rw [hrests.rows]
  · cases hcommit with
    | createAs hcreate => exact absurd .createAs (hquiet _)
    | move hmoving hmove => exact absurd .move (hquiet _)
    | edit hmoving hupdate => exact positions_updateTask hupdate
    | removeAs hdelete => exact absurd .removeAs (hquiet _)

/-! ### Every reachable board -/

namespace Service

/-- What a step of a call does to the lists: the effect of its request if it commits one that
rearranges tasks, without changing the order of the other tasks, and otherwise nothing. -/
structure ListSemantics (s : Service) : Prop where
  rearranged : ∀ label t request before after id, s.step label = some t →
    s.calls label.call = some ⟨request, before⟩ → t.calls label.call = some ⟨request, after⟩ →
    Rearranges request before after id →
    request.ListEffect s.db.columns t.db.columns id ∧ ∀ key, (t.db.columns key).erase id = (s.db.columns key).erase id
  unchanged : ∀ label t, s.step label = some t →
    (∀ request before after id, s.calls label.call = some ⟨request, before⟩ →
      t.calls label.call = some ⟨request, after⟩ → ¬Rearranges request before after id) →
    t.db.columns = s.db.columns

variable {s t : Service} {label : Label}

theorem Inv.inProject {id : CallId} {call : Call} (h : s.Inv) (hcall : s.calls id = some call)
    (hread : call.progress.hasRead) : OnBoard s.db call.request :=
  fun target htarget => (h.home id call target hcall htarget hread).2

theorem Inv.listSemantics (h : s.Inv) : s.ListSemantics := by
  obtain ⟨columns, hcolumns⟩ := h.columns
  have hsame := columns_eq hcolumns
  refine ⟨fun label t request before after id hstep hbefore hafter hrearranges => ?_, fun label t hstep hquiet => ?_⟩
  · cases stepCases hstep with
    | starts hdb hnew hcall => cases hnew.symm.trans hbefore
    | fails hdb hcall hfailed =>
      cases hcall.symm.trans hbefore
      cases hfailed.symm.trans hafter
      cases hrearranges
    | @advances randomUUID call effect hadvance =>
      have hread : before.hasRead := by cases hrearranges <;> rfl
      obtain rfl := Option.some.inj (hbefore.symm.trans hadvance.hcall)
      obtain rfl : effect.progress = after :=
        congrArg Call.progress (Option.some.inj (hadvance.calls_self.symm.trans hafter))
      have heffect := listEffect_of_rearranges hcolumns (h.inProject hbefore hread) hadvance.heffect hrearranges
      rw [hsame, hadvance.db_eq]
      exact ⟨heffect, heffect.erase_eq hcolumns.nodup⟩
  · cases stepCases hstep with
    | starts hdb => rw [hdb]
    | fails hdb => rw [hdb]
    | advances hadvance =>
      have hpositions := positions_of_not_rearranges hadvance.heffect fun id =>
        hquiet _ _ _ id hadvance.hcall hadvance.calls_self
      rw [hadvance.db_eq, Database.columns, hpositions]
      rfl

/-- For any calls by users and machines, in any interleaving, on any dense board. -/
theorem list_semantics (db : Database) (hids : (db.tasks.map (·.id)).Nodup) (hdense : Dense (positions db.tasks))
    (labels : List Label) (s : Service) (hrun : Runs.run step (initial db) labels = some s) : s.ListSemantics :=
  (inv_preserved.run (inv_initial hids hdense) hrun).listSemantics

theorem list_semantics_of_staleMoves : ∃ s, Runs.run step (initial emptyBoard) staleMoves = some s ∧
    s.db.columns ("project", .REVIEW) = ["a"] ∧ s.db.columns ("project", .TODO) = ["b"] ∧ s.ListSemantics := by
  have hcolumns : (Runs.run step (initial emptyBoard) staleMoves).map (fun s =>
      (s.db.columns ("project", .REVIEW), s.db.columns ("project", .TODO))) = some (["a"], ["b"]) := by decide +kernel
  obtain ⟨s, hrun, hcolumns⟩ := Option.map_eq_some_iff.mp hcolumns
  obtain ⟨hreview, htodo⟩ := Prod.mk.inj hcolumns
  refine ⟨s, hrun, hreview, htodo, list_semantics emptyBoard List.nodup_nil (fun key => ?_) staleMoves s hrun⟩
  exact List.Perm.nil

end Service

end Transcendence.Tasks
