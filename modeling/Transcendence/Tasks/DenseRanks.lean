import Transcendence.Tasks.BoardColumns
import Transcendence.Tasks.Service

/-!
# Ranks stay dense

Whatever calls of the task service run, in whatever interleaving and with whatever stale reads, the
ranks of every column stay `0, …, n - 1`. What a call has read before its transaction matters only
in that the task it read belongs to the project of the call, and a row never changes its project.
-/

namespace Transcendence.Tasks

open RankedColumns

/-! ### What a transaction does to the identity of the rows -/

/-- Every row comes from a row with its id and project, or has the new id. -/
def Carries (tasks after : List TaskRow) (newId : TaskId) : Prop :=
  ∀ row' ∈ after, row'.id = newId ∨ ∃ row ∈ tasks, row.id = row'.id ∧ row.projectId = row'.projectId

theorem Carries.of_map {tasks : List TaskRow} {f : TaskRow → TaskRow} (newId : TaskId)
    (hf : ∀ row, (f row).id = row.id ∧ (f row).projectId = row.projectId) : Carries tasks (tasks.map f) newId := by
  intro row' hrow'
  obtain ⟨row, hrow, rfl⟩ := List.mem_map.mp hrow'
  exact Or.inr ⟨row, hrow, (hf row).1.symm, (hf row).2.symm⟩

theorem Carries.of_eq {tasks after : List TaskRow} (newId : TaskId) (h : after = tasks) : Carries tasks after newId :=
  fun row' hrow' => Or.inr ⟨row', h ▸ hrow', rfl, rfl⟩

theorem Carries.trans {tasks middle after : List TaskRow} {newId : TaskId} (h : Carries tasks middle newId)
    (h' : Carries middle after newId) : Carries tasks after newId := by
  intro row' hrow'
  rcases h' row' hrow' with hnew | ⟨row, hrow, hid, hproject⟩
  · exact Or.inl hnew
  · rcases h row hrow with hnew | ⟨old, hold, hid', hproject'⟩
    · exact Or.inl (hid ▸ hnew)
    · exact Or.inr ⟨old, hold, hid'.trans hid, hproject'.trans hproject⟩

theorem carries_closeRankGap (tasks : List TaskRow) (projectId : ProjectId) (status : TaskStatus) (vacatedRank : Int)
    (newId : TaskId) : Carries tasks (closeRankGap tasks projectId status vacatedRank) newId :=
  .of_map newId fun row => by split <;> exact ⟨rfl, rfl⟩

theorem carries_openRankSlot (tasks : List TaskRow) (projectId : ProjectId) (status : TaskStatus)
    (wantedRank : Option Int) (excludeId : Option TaskId) (newId : TaskId) :
    Carries tasks (openRankSlot tasks projectId status wantedRank excludeId).2 newId :=
  .of_map newId fun row => by split <;> exact ⟨rfl, rfl⟩

theorem carries_moveRows (tasks : List TaskRow) (current : TaskRow) (projectId : ProjectId)
    (requestedStatus : Option TaskStatus) (wantedRank : Option Int) (dto : UpdateTaskDto) (newId : TaskId) :
    Carries tasks (moveRows tasks current projectId requestedStatus wantedRank dto).1 newId :=
  ((carries_closeRankGap _ _ _ _ _).trans (carries_openRankSlot _ _ _ _ _ _)).trans
    (.of_map newId fun row => by split <;> exact ⟨rfl, rfl⟩)

/-- The transactions of the calls, and the steps that leave the rows alone. -/
inductive Commits (db : Database) (randomUUID : TaskId) : Request → Progress → Database → Prop where
  | nothing {request progress} {after : Database} (h : after.tasks = db.tasks) :
      Commits db randomUUID request progress after
  | create {projectId : ProjectId} {dto : CreateTaskDto} {actor : TaskMutationActor} {progress} {after : Database}
      (h : db.createTask actor projectId dto randomUUID = some after) :
      Commits db randomUUID (.createAs projectId dto actor) progress after
  | move {id : TaskId} {dto : UpdateTaskDto} {projectId : ProjectId} {actor : TaskMutationActor} {existing : Option Task}
      {moved : TaskMoved} {after : Database} (h : db.moveTask actor id projectId dto = some (after, moved)) :
      Commits db randomUUID (.updateAs id dto projectId actor) (.validated existing) after
  | edit {id : TaskId} {dto : UpdateTaskDto} {projectId : ProjectId} {actor : TaskMutationActor} {existing : Option Task}
      {after : Database} (h : db.updateTask actor id projectId dto = some after) :
      Commits db randomUUID (.updateAs id dto projectId actor) (.validated existing) after
  | delete {id : TaskId} {projectId : ProjectId} {actor : TaskMutationActor} {existing : Option Task}
      {deleted : Task} {after : Database} (h : db.deleteTask actor id projectId = some (after, deleted)) :
      Commits db randomUUID (.removeAs id projectId actor) (.existing existing) after

theorem tasks_replaceAssigneesEffect (db : Database) (actor : TaskMutationActor) (taskId : TaskId)
    (projectId : ProjectId) (assigneeIds : Option (List UserId)) :
    (replaceAssignees db actor taskId projectId assigneeIds).db.tasks = db.tasks := by
  rw [replaceAssignees.eq_def]
  split
  · split
    · rfl
    · rename_i hreplace
      exact tasks_replaceAssignees hreplace
  · rfl

theorem db_reread (db : Database) (taskId : TaskId) (projectId : ProjectId) : (reread db taskId projectId).db = db := by
  rw [reread]
  split <;> rfl

theorem commits_of_effect {db : Database} {randomUUID : TaskId} {request : Request} {progress : Progress}
    {effect : Effect} (h : request.effect db randomUUID progress = some effect) :
    Commits db randomUUID request progress effect.db := by
  cases request with
  | createAs projectId dto actor =>
      cases progress with
      | validated existing =>
          simp only [Request.effect, createAs] at h
          split at h
          · cases h
            exact .nothing rfl
          · rename_i hcreate
            cases h
            exact .create hcreate
      | committed taskId =>
          cases h
          exact .nothing (tasks_replaceAssigneesEffect ..)
      | assigned taskId =>
          cases h
          exact .nothing (by rw [db_reread])
      | begun | member | existing task | categoryChecked task | reread task =>
          cases h
          exact .nothing rfl
      | _ => cases h
  | updateAs id dto projectId actor =>
      cases progress with
      | validated existing =>
          cases existing with
          | none => cases h
          | some existingTask =>
              simp only [Request.effect, updateAs] at h
              split at h
              · split at h
                · cases h
                  exact .nothing rfl
                · rename_i hmove
                  cases h
                  exact .move hmove
              · split at h
                · cases h
                  exact .nothing rfl
                · rename_i hupdate
                  cases h
                  exact .edit hupdate
      | member =>
          simp only [Request.effect, updateAs] at h
          split at h <;> (cases h; exact .nothing rfl)
      | committed taskId =>
          cases h
          exact .nothing (tasks_replaceAssigneesEffect ..)
      | assigned taskId =>
          cases h
          exact .nothing (by rw [db_reread])
      | begun | existing task | categoryChecked task | movedRow moved | reread task =>
          cases h
          exact .nothing rfl
      | _ => cases h
  | removeAs id projectId actor =>
      cases progress with
      | existing task =>
          simp only [Request.effect, removeAs] at h
          split at h
          · cases h
            exact .nothing rfl
          · rename_i hdelete
            cases h
            exact .delete hdelete
      | begun | member | deletedRow deleted =>
          cases h
          exact .nothing rfl
      | _ => cases h

theorem Commits.carries {db after : Database} {randomUUID : TaskId} {request : Request} {progress : Progress}
    (h : Commits db randomUUID request progress after) : Carries db.tasks after.tasks randomUUID := by
  cases h with
  | nothing h => exact .of_eq randomUUID h
  | create h =>
      rw [Database.createTask] at h
      split at h
      · cases h
      · obtain ⟨db₁, hreplace, rfl⟩ := Option.map_eq_some_iff.mp h
        rw [tasks_recordMachineAction, tasks_replaceForMachine hreplace]
        intro row' hrow'
        rcases List.mem_append.mp hrow' with hrow' | hrow'
        · exact carries_openRankSlot _ _ _ _ _ _ row' hrow'
        · exact Or.inl (by rw [List.mem_singleton.mp hrow'])
  | move h =>
      obtain ⟨current, -, h⟩ := Option.bind_eq_some_iff.mp h
      obtain ⟨db₁, hreplace, heq⟩ := Option.map_eq_some_iff.mp h
      rw [← (Prod.mk.inj heq).1, tasks_recordMachineAction, tasks_replaceForMachine hreplace]
      exact carries_moveRows _ _ _ _ _ _ _
  | edit h =>
      obtain ⟨_, -, h⟩ := Option.bind_eq_some_iff.mp h
      obtain ⟨db₁, hreplace, rfl⟩ := Option.map_eq_some_iff.mp h
      rw [tasks_recordMachineAction, tasks_replaceForMachine hreplace]
      exact .of_map randomUUID fun row => by split <;> exact ⟨rfl, rfl⟩
  | delete h =>
      obtain ⟨deleted, -, heq⟩ := Option.map_eq_some_iff.mp h
      rw [← (Prod.mk.inj heq).1, tasks_recordMachineAction]
      refine Carries.trans (fun row' hrow' => Or.inr ⟨row', List.mem_of_mem_filter hrow', rfl, rfl⟩)
        (carries_closeRankGap _ _ _ _ _)

/-! ### The invariant -/

/-- The task a call works on, with its project. -/
def Request.target : Request → Option (TaskId × ProjectId)
  | .createAs .. => none
  | .updateAs id _ projectId _ => some (id, projectId)
  | .removeAs id projectId _ => some (id, projectId)

/-- The call has read its task and not committed yet. -/
def Progress.hasRead : Progress → Bool
  | .existing _ => true
  | .categoryChecked _ => true
  | .validated _ => true
  | _ => false

/-- The id has been in use, and a row that has it belongs to the project. -/
def Home (tasks : List TaskRow) (issued : List TaskId) (target : TaskId × ProjectId) : Prop :=
  target.1 ∈ issued ∧ ∀ row ∈ tasks, row.id = target.1 → row.projectId = target.2

structure Service.Inv (s : Service) : Prop where
  columns : ∃ columns, Represents (positions s.db.tasks) columns
  issued : ∀ row ∈ s.db.tasks, row.id ∈ s.issued
  home : ∀ id call target, s.calls id = some call → call.request.target = some target → call.progress.hasRead →
    Home s.db.tasks s.issued target

theorem Home.carries {tasks after : List TaskRow} {issued : List TaskId} {target : TaskId × ProjectId}
    {newId : TaskId} (h : Home tasks issued target) (hcarries : Carries tasks after newId) (hfresh : newId ∉ issued)
    (ids : List TaskId) : Home after (ids ++ issued) target := by
  refine ⟨List.mem_append_right _ h.1, fun row' hrow' hid => ?_⟩
  rcases hcarries row' hrow' with hnew | ⟨row, hrow, hrowId, hproject⟩
  · exact absurd (hnew ▸ hid ▸ h.1) hfresh
  · exact hproject ▸ h.2 row hrow (hrowId.trans hid)

theorem check_progress_hasRead {db : Database} {holds : Bool} {progress : Progress}
    (h : (check db holds progress).progress.hasRead) : progress.hasRead := by
  cases holds
  · cases h
  · exact h

theorem exists_row_of_find {db : Database} {id : TaskId} {projectId : ProjectId} {task : Task}
    (h : db.findByIdForProject id projectId = some task) : ∃ row ∈ db.tasks, row.id = id ∧ row.projectId = projectId := by
  obtain ⟨row, hfind, -⟩ := Option.map_eq_some_iff.mp h
  exact ⟨row, List.mem_of_find?_eq_some hfind, by simpa using List.find?_some hfind⟩

/-- A call comes to have read its task by reading a row of its project. -/
theorem home_of_effect {db : Database} {randomUUID : TaskId} {request : Request} {progress : Progress}
    {effect : Effect} {target : TaskId × ProjectId} (htarget : request.target = some target)
    (h : request.effect db randomUUID progress = some effect) (hread : effect.progress.hasRead) :
    progress.hasRead ∨ ∃ row ∈ db.tasks, row.id = target.1 ∧ row.projectId = target.2 := by
  cases request with
  | createAs projectId dto actor => cases htarget
  | updateAs id dto projectId actor =>
      cases htarget
      cases progress with
      | existing task | categoryChecked task | validated task => exact Or.inl rfl
      | member =>
          simp only [Request.effect, updateAs] at h
          split at h
          · cases h
            cases hread
          · rename_i hfind
            exact Or.inr (exists_row_of_find hfind)
      | begun =>
          cases h
          cases check_progress_hasRead hread
      | committed taskId =>
          cases h
          simp only [replaceAssignees.eq_def] at hread
          split at hread
          · split at hread <;> cases hread
          · cases hread
      | assigned taskId =>
          cases h
          rw [reread] at hread
          split at hread <;> cases hread
      | movedRow moved | reread task =>
          cases h
          cases hread
      | _ => cases h
  | removeAs id projectId actor =>
      cases htarget
      cases progress with
      | existing task => exact Or.inl rfl
      | member =>
          cases h
          cases hfind : db.findByIdForProject id projectId with
          | none => simp [hfind, check, Database.stay, Progress.hasRead] at hread
          | some task => exact Or.inr (exists_row_of_find hfind)
      | begun =>
          cases h
          cases check_progress_hasRead hread
      | deletedRow deleted =>
          cases h
          cases hread
      | _ => cases h

namespace Service

/-- A step of a call that gets an answer. -/
structure Advance (s t : Service) (id : CallId) (randomUUID : TaskId) (call : Call) (effect : Effect) : Prop where
  fresh : randomUUID ∉ s.issued
  hcall : s.calls id = some call
  heffect : call.request.effect s.db randomUUID call.progress = some effect
  next : t = { s with
    db := effect.db
    emitted := s.emitted ++ effect.emitted
    issued := effect.db.tasks.map TaskRow.id ++ s.issued
    unannounced := queueMove s.unannounced id call.progress effect.progress }.setCall id
      { call with progress := effect.progress }

theorem Advance.calls_self {s t : Service} {id : CallId} {randomUUID : TaskId} {call : Call} {effect : Effect}
    (h : Advance s t id randomUUID call effect) : t.calls id = some { call with progress := effect.progress } := by
  rw [h.next]
  exact Function.update_self ..

theorem Advance.db_eq {s t : Service} {id : CallId} {randomUUID : TaskId} {call : Call} {effect : Effect}
    (h : Advance s t id randomUUID call effect) : t.db = effect.db := by
  rw [h.next]
  rfl

theorem exists_advance {s t : Service} {id : CallId} {randomUUID : TaskId} (h : s.advance id randomUUID = some t) :
    ∃ call effect, Advance s t id randomUUID call effect := by
  rw [advance] at h
  split at h
  · cases h
  · rename_i hfresh
    obtain ⟨call, hcall, h⟩ := Option.bind_eq_some_iff.mp h
    obtain ⟨effect, heffect, rfl⟩ := Option.map_eq_some_iff.mp h
    exact ⟨call, effect, hfresh, hcall, heffect, rfl⟩

theorem exists_fail {s t : Service} {id : CallId} (h : s.fail id = some t) :
    ∃ call, s.calls id = some call ∧ t = { s with unannounced := s.unannounced.erase id }.setCall id
      { call with progress := .failed } := by
  obtain ⟨call, hcall, h⟩ := Option.bind_eq_some_iff.mp h
  refine ⟨call, hcall, ?_⟩
  split at h
  · cases h
  · cases h
  · cases h
    rfl

/-- A call changes by its own steps only. -/
theorem calls_of_run {s t : Service} {labels : List Label} {id : CallId} (hlabels : ∀ label ∈ labels, label.call ≠ id)
    (hrun : Runs.run step s labels = some t) : t.calls id = s.calls id := by
  induction labels generalizing s with
  | nil =>
      cases hrun
      rfl
  | cons label labels ih =>
      obtain ⟨m, hstep, hrest⟩ := Runs.run_cons_eq_some.mp hrun
      rw [ih (fun label hlabel => hlabels label (List.mem_cons_of_mem _ hlabel)) hrest]
      have hne := hlabels label List.mem_cons_self
      cases label with
      | start other request =>
          simp only [step, start] at hstep
          split at hstep
          · cases hstep
          · cases hstep
            exact Function.update_of_ne (Ne.symm hne) _ _
      | advance other randomUUID =>
          obtain ⟨call, effect, hadvance⟩ := exists_advance hstep
          rw [hadvance.next]
          exact Function.update_of_ne (Ne.symm hne) _ _
      | fail other =>
          obtain ⟨call, -, rfl⟩ := exists_fail hstep
          exact Function.update_of_ne (Ne.symm hne) _ _

variable {s t : Service} {id : CallId} {randomUUID : TaskId} {call : Call} {effect : Effect}

/-- What a transaction does to the columns. -/
theorem represents_commits {db after : Database} {randomUUID : TaskId} {request : Request} {progress : Progress}
    {columns : Columns} (h : Represents (positions db.tasks) columns)
    (hhome : ∀ target, request.target = some target → progress.hasRead →
      ∀ row ∈ db.tasks, row.id = target.1 → row.projectId = target.2)
    (hcommits : Commits db randomUUID request progress after) : ∃ columns, Represents (positions after.tasks) columns := by
  cases hcommits with
  | nothing hsame => exact ⟨columns, by rwa [hsame]⟩
  | create hcreate => exact ⟨_, represents_createTask h hcreate⟩
  | move hmove =>
      obtain ⟨n, -, -, -, hmoved⟩ := represents_moveTask h (hhome _ rfl rfl) hmove
      exact ⟨_, hmoved⟩
  | edit hedit => exact ⟨columns, by rwa [positions_updateTask hedit]⟩
  | delete hdelete => exact ⟨_, represents_deleteTask h (hhome _ rfl rfl) hdelete⟩

theorem Inv.advance (h : s.Inv) (hadvance : Advance s t id randomUUID call effect) : t.Inv := by
  have hcommits := commits_of_effect hadvance.heffect
  obtain ⟨columns, hcolumns⟩ := h.columns
  rw [hadvance.next]
  refine ⟨represents_commits hcolumns (fun target htarget hread => (h.home id call target hadvance.hcall htarget hread).2)
    hcommits, fun row hrow => List.mem_append_left _ (List.mem_map_of_mem hrow), fun other other_call target hcall htarget hread => ?_⟩
  simp only [setCall, Function.update_apply] at hcall
  split at hcall
  · cases hcall
    refine Home.carries ?_ hcommits.carries hadvance.fresh _
    rcases home_of_effect htarget hadvance.heffect hread with hread | ⟨row, hrow, hid, hproject⟩
    · exact h.home id call target hadvance.hcall htarget hread
    · refine ⟨hid ▸ h.issued row hrow, fun row' hrow' hid' => ?_⟩
      have heq := eq_of_id_eq hcolumns.ids (mem_positions hrow') (mem_positions hrow) (hid'.trans hid.symm)
      exact (congrArg (fun p => p.column.1) heq).trans hproject
  · exact (h.home other other_call target hcall htarget hread).carries hcommits.carries hadvance.fresh _

theorem inv_preserved : Runs.Preserved step Inv := by
  intro s label t h hstep
  cases label with
  | start id request =>
      simp only [step, start] at hstep
      split at hstep
      · cases hstep
      · cases hstep
        refine ⟨h.columns, h.issued, fun other call target hcall htarget hread => ?_⟩
        simp only [setCall, Function.update_apply] at hcall
        split at hcall
        · cases hcall
          cases hread
        · exact h.home other call target hcall htarget hread
  | advance id randomUUID =>
      obtain ⟨call, effect, hadvance⟩ := exists_advance hstep
      exact h.advance hadvance
  | fail id =>
      obtain ⟨call, hcall, rfl⟩ := exists_fail hstep
      refine ⟨h.columns, h.issued, fun other call' target hcall' htarget hread => ?_⟩
      simp only [setCall, Function.update_apply] at hcall'
      split at hcall'
      · cases hcall'
        cases hread
      · exact h.home other call' target hcall' htarget hread

/-- Every column has the ranks `0, …, n - 1`, and a PATCH without a status leaves its task in the
column it finds it in. -/
structure RanksKept (s : Service) : Prop where
  dense : Dense (positions s.db.tasks)
  rankOnly : ∀ id randomUUID t taskId dto projectId actor progress,
    s.calls id = some ⟨.updateAs taskId dto projectId actor, progress⟩ → dto.status = none →
    s.step (.advance id randomUUID) = some t →
    ∀ row ∈ s.db.tasks, row.id = taskId → ∃ row' ∈ t.db.tasks, row'.id = taskId ∧ row'.status = row.status

theorem exists_row_of_positions_eq {tasks after : List TaskRow} (h : positions after = positions tasks) {row : TaskRow}
    (hrow : row ∈ tasks) : ∃ row' ∈ after, row'.id = row.id ∧ row'.status = row.status := by
  have hmem : row.position ∈ positions after := h ▸ mem_positions hrow
  obtain ⟨row', hrow', heq⟩ := List.mem_map.mp hmem
  exact ⟨row', hrow', congrArg Position.id heq, congrArg (fun p => p.column.2) heq⟩

theorem Inv.rankOnly (h : s.Inv) {taskId : TaskId} {dto : UpdateTaskDto} {projectId : ProjectId}
    {actor : TaskMutationActor} {progress : Progress}
    (hcall : s.calls id = some ⟨.updateAs taskId dto projectId actor, progress⟩) (hstatus : dto.status = none)
    (hstep : s.advance id randomUUID = some t) {row : TaskRow} (hrow : row ∈ s.db.tasks) (hid : row.id = taskId) :
    ∃ row' ∈ t.db.tasks, row'.id = taskId ∧ row'.status = row.status := by
  obtain ⟨call, effect, hadvance⟩ := exists_advance hstep
  obtain rfl := Option.some.inj (hcall.symm.trans hadvance.hcall)
  obtain ⟨columns, hcolumns⟩ := h.columns
  have hcommits := commits_of_effect hadvance.heffect
  have hdb : t.db = effect.db := by
    rw [hadvance.next]
    rfl
  have hhome := h.home id _ _ hcall rfl
  rw [hdb]
  subst hid
  generalize effect.db = after at hcommits
  simp only at hcommits hhome
  cases hcommits with
  | nothing hsame => exact exists_row_of_positions_eq (by rw [hsame]) hrow
  | edit hedit => exact exists_row_of_positions_eq (positions_updateTask hedit) hrow
  | move hmove =>
      obtain ⟨n, -, htarget, hn, hmoved⟩ := represents_moveTask hcolumns (hhome rfl).2 hmove
      rw [htarget row hrow rfl, hstatus] at hn hmoved
      obtain ⟨p, hp, hid, hcolumn⟩ := hmoved.exists_row _ _ (mem_moveItem_self columns row.id _ hn)
      obtain ⟨row', hrow', rfl⟩ := List.mem_map.mp hp
      exact ⟨row', hrow', hid, congrArg Prod.snd hcolumn⟩

theorem inv_initial {db : Database} (hids : (db.tasks.map (·.id)).Nodup) (hdense : Dense (positions db.tasks)) :
    (initial db).Inv where
  columns := ⟨_, hdense.represents (by rwa [positions, List.map_map])⟩
  issued _ h := List.mem_map_of_mem h
  home _ _ _ h := by cases h

/-- For any calls by users and machines, in any interleaving, with reads however stale and with any
aborts. -/
theorem ranks_kept (db : Database) (hids : (db.tasks.map (·.id)).Nodup) (hdense : Dense (positions db.tasks))
    (labels : List Label) (s : Service) (hrun : Runs.run step (initial db) labels = some s) : s.RanksKept := by
  have hinv : s.Inv := inv_preserved.run (inv_initial hids hdense) hrun
  obtain ⟨columns, hcolumns⟩ := hinv.columns
  exact ⟨hcolumns.dense, fun id randomUUID t taskId dto projectId actor progress hcall hstatus hstep row =>
    hinv.rankOnly hcall hstatus hstep⟩

/-! Two moves of one card, the second after reading the position before the first. -/

def emptyBoard : Database where
  tasks := []
  taskAssignees _ := []
  projectMembers _ _ := true
  taskCategories _ := some "project"
  audit := []

def card (title : String) : CreateTaskDto :=
  ⟨title, "category", .TODO, .LOW, 0, none, none, none, none, false, none⟩

def staleMoves : List Label :=
  .start 0 (.createAs "project" (card "first") (.USER "user")) :: List.replicate 5 (.advance 0 "a") |>.append
  (.start 1 (.createAs "project" (card "second") (.MACHINE "token")) :: List.replicate 5 (.advance 1 "b")) |>.append
  (.start 2 (.updateAs "a" { status := some .REVIEW } "project" (.USER "user")) ::
    .start 3 (.updateAs "a" { rank := some 0 } "project" (.USER "other")) :: List.replicate 4 (.advance 2 "c")) |>.append
  (List.replicate 4 (.advance 3 "c")) |>.append [.advance 2 "c", .advance 3 "c"]

theorem ranks_kept_of_staleMoves : ∃ s, Runs.run step (initial emptyBoard) staleMoves = some s ∧
    s.db.tasks.map TaskRow.position = [⟨"a", ("project", .REVIEW), 0⟩, ⟨"b", ("project", .TODO), 0⟩] ∧ s.RanksKept := by
  have htasks : (Runs.run step (initial emptyBoard) staleMoves).map (·.db.tasks.map TaskRow.position) =
      some [⟨"a", ("project", .REVIEW), 0⟩, ⟨"b", ("project", .TODO), 0⟩] := by decide +kernel
  obtain ⟨s, hrun, htasks⟩ := Option.map_eq_some_iff.mp htasks
  refine ⟨s, hrun, htasks, ranks_kept emptyBoard List.nodup_nil (fun k => ?_) staleMoves s hrun⟩
  exact List.Perm.nil

end Service

end Transcendence.Tasks
