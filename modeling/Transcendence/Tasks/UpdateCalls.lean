import Transcendence.Tasks.ReducerColumns

/-!
# The steps of an update

What one step of `updateAs` can do, for calls that share a service with nothing but updates. Tasks
are then neither created nor deleted and memberships stay as they are, so a call that has committed
cannot fail any more: its assignees are still members and its task is still there. It owes the
clients a `task:updated`.
-/

namespace Transcendence.Tasks

/-- The call has committed and not emitted its `task:updated` yet. -/
def Progress.owes : Progress → Bool
  | .movedRow _ => true
  | .committed _ => true
  | .assigned _ => true
  | .reread _ => true
  | _ => false

theorem owes_of_isFinished {progress : Progress} (h : progress.isFinished) : progress.owes = false := by
  cases progress with
  | finished task => rfl
  | _ => cases h

/-- Which tasks there are, and in which projects. -/
def identities (db : Database) : List (TaskId × ProjectId) := db.tasks.map fun row => (row.id, row.projectId)

/-- The call has read its task, or has committed. -/
def Progress.knowsTask : Progress → Bool
  | .existing _ => true
  | .categoryChecked _ => true
  | .validated _ => true
  | progress => progress.owes

/-- The assignees of the request have been checked and not all written yet. -/
def Progress.checkedAssignees : Progress → Bool
  | .validated _ => true
  | .movedRow _ => true
  | .committed _ => true
  | _ => false

/-- What the call holds belongs to its own task. -/
def Progress.OnTask (taskId : TaskId) (projectId : ProjectId) : Progress → Prop
  | .movedRow moved => moved.taskId = taskId ∧ moved.projectId = projectId
  | .committed id => id = taskId
  | .assigned id => id = taskId
  | .reread task => task.id = taskId ∧ task.projectId = projectId
  | _ => True

structure UpdateCall (db : Database) (taskId : TaskId) (dto : UpdateTaskDto) (projectId : ProjectId) (progress : Progress) :
    Prop where
  identity : progress.knowsTask → (taskId, projectId) ∈ identities db
  assignees : progress.checkedAssignees → assigneesAreProjectMembers db projectId dto.assigneeIds
  onTask : progress.OnTask taskId projectId

/-- The rows keep their identities, and all but the task's keep their content. -/
def Rewrites (tasks after : List TaskRow) (taskId : TaskId) : Prop :=
  ∃ rewrite : TaskRow → TaskRow, after = tasks.map rewrite ∧ ∀ row, (rewrite row).id = row.id ∧
    (rewrite row).projectId = row.projectId ∧ (row.id ≠ taskId → (rewrite row).content = row.content)

/-- Apart from positions, nothing changes but the content and the assignees of one task. -/
structure OnlyTask (db after : Database) (taskId : TaskId) : Prop where
  rows : Rewrites db.tasks after.tasks taskId
  members : after.projectMembers = db.projectMembers
  assignees : ∀ id, id ≠ taskId → after.taskAssignees id = db.taskAssignees id

/-- The steps of an update. -/
inductive UpdateStep (db : Database) (taskId : TaskId) (dto : UpdateTaskDto) (projectId : ProjectId)
    (actor : TaskMutationActor) : Progress → Effect → Prop where
  | quiet {progress progress' : Progress} (hprogress : progress.owes = false) (hprogress' : progress'.owes = false)
      (hcall : UpdateCall db taskId dto projectId progress') :
      UpdateStep db taskId dto projectId actor progress ⟨db, progress', []⟩
  | move {existing : Option Task} {after : Database} {payload : TaskMoved}
      (h : db.moveTask actor taskId projectId dto = some (after, payload)) :
      UpdateStep db taskId dto projectId actor (.validated existing) ⟨after, .movedRow payload, []⟩
  | edit {existing : Option Task} {after : Database} (h : db.updateTask actor taskId projectId dto = some after) :
      UpdateStep db taskId dto projectId actor (.validated existing) ⟨after, .committed taskId, []⟩
  | announce (payload : TaskMoved) :
      UpdateStep db taskId dto projectId actor (.movedRow payload) ⟨db, .committed taskId, [.moved payload]⟩
  | assign {after : Database} (htasks : after.tasks = db.tasks) (honly : OnlyTask db after taskId) :
      UpdateStep db taskId dto projectId actor (.committed taskId) ⟨after, .assigned taskId, []⟩
  | read {task : Task} (h : db.findByIdForProject taskId projectId = some task) :
      UpdateStep db taskId dto projectId actor (.assigned taskId) ⟨db, .reread task, []⟩
  | update (task : Task) :
      UpdateStep db taskId dto projectId actor (.reread task) ⟨db, .finished task, [.updated taskId projectId task]⟩

variable {db after : Database} {taskId : TaskId} {dto : UpdateTaskDto} {projectId : ProjectId} {actor : TaskMutationActor}
  {progress : Progress}

theorem exists_row_of_identity (h : (taskId, projectId) ∈ identities db) :
    ∃ row ∈ db.tasks, row.id = taskId ∧ row.projectId = projectId := by
  obtain ⟨row, hrow, heq⟩ := List.mem_map.mp h
  exact ⟨row, hrow, (Prod.mk.inj heq).1, (Prod.mk.inj heq).2⟩

theorem identity_of_find {task : Task} (h : db.findByIdForProject taskId projectId = some task) :
    (taskId, projectId) ∈ identities db := by
  obtain ⟨row, hrow, -⟩ := Option.map_eq_some_iff.mp h
  obtain ⟨rfl, rfl⟩ : row.id = taskId ∧ row.projectId = projectId := by simpa using List.find?_some hrow
  exact List.mem_map_of_mem (List.mem_of_find?_eq_some hrow)

theorem exists_find_of_identity (h : (taskId, projectId) ∈ identities db) :
    ∃ task, db.findByIdForProject taskId projectId = some task := by
  obtain ⟨row, hrow, hid, hproject⟩ := exists_row_of_identity h
  have hfind : (db.tasks.find? fun task => task.id = taskId ∧ task.projectId = projectId).isSome := by
    rw [List.find?_isSome]
    exact ⟨row, hrow, by simp [hid, hproject]⟩
  obtain ⟨found, hfound⟩ := Option.isSome_iff_exists.mp hfind
  exact ⟨db.mapTask found, by rw [Database.findByIdForProject, hfound, Option.map_some]⟩

/-! ### What the transactions of an update leave alone -/

theorem Rewrites.of_map {tasks : List TaskRow} {rewrite : TaskRow → TaskRow}
    (h : ∀ row, (rewrite row).id = row.id ∧ (rewrite row).projectId = row.projectId ∧
      (row.id ≠ taskId → (rewrite row).content = row.content)) : Rewrites tasks (tasks.map rewrite) taskId :=
  ⟨rewrite, rfl, h⟩

theorem Rewrites.refl (tasks : List TaskRow) (taskId : TaskId) : Rewrites tasks tasks taskId :=
  ⟨id, (List.map_id tasks).symm, fun _ => ⟨rfl, rfl, fun _ => rfl⟩⟩

theorem Rewrites.trans {tasks middle after : List TaskRow} (h : Rewrites tasks middle taskId)
    (h' : Rewrites middle after taskId) : Rewrites tasks after taskId := by
  obtain ⟨f, rfl, hf⟩ := h
  obtain ⟨g, rfl, hg⟩ := h'
  refine ⟨g ∘ f, List.map_map .., fun row => ?_⟩
  obtain ⟨hid, hproject, hcontent⟩ := hf row
  obtain ⟨hid', hproject', hcontent'⟩ := hg (f row)
  exact ⟨hid'.trans hid, hproject'.trans hproject, fun hne => (hcontent' (hid.symm ▸ hne)).trans (hcontent hne)⟩

theorem rewrites_moveRows (tasks : List TaskRow) (current : TaskRow) (projectId : ProjectId)
    (requestedStatus : Option TaskStatus) (wantedRank : Option Int) (dto : UpdateTaskDto) :
    Rewrites tasks (moveRows tasks current projectId requestedStatus wantedRank dto).1 current.id := by
  refine .trans (.trans (.of_map fun row => ?_) (.of_map fun row => ?_)) (.of_map fun row => ?_)
  · split <;> exact ⟨rfl, rfl, fun _ => rfl⟩
  · split <;> exact ⟨rfl, rfl, fun _ => rfl⟩
  · split
    · rename_i hid
      exact ⟨rfl, rfl, fun hne => absurd hid hne⟩
    · exact ⟨rfl, rfl, fun _ => rfl⟩

theorem OnlyTask.identities_eq (h : OnlyTask db after taskId) : identities after = identities db := by
  obtain ⟨rewrite, htasks, hrewrite⟩ := h.rows
  rw [identities, identities, htasks, List.map_map]
  exact List.map_congr_left fun row _ => by rw [Function.comp_apply, (hrewrite row).1, (hrewrite row).2.1]

/-- The database has the fields of the task. -/
def Current (db : Database) (task : Task) : Prop :=
  ∃ row ∈ db.tasks, row.id = task.id ∧ row.content = task.content ∧ db.taskAssignees row.id = task.assignees

theorem OnlyTask.current (h : OnlyTask db after taskId) {task : Task} (hcurrent : Current db task)
    (hne : task.id ≠ taskId) : Current after task := by
  obtain ⟨rewrite, htasks, hrewrite⟩ := h.rows
  obtain ⟨row, hrow, hid, hcontent, hassignees⟩ := hcurrent
  obtain ⟨hid', -, hcontent'⟩ := hrewrite row
  refine ⟨rewrite row, htasks ▸ List.mem_map_of_mem hrow, hid'.trans hid, ?_, ?_⟩
  · rw [hcontent' (hid ▸ hne), hcontent]
  · rw [hid', h.assignees _ (hid ▸ hne), hassignees]

theorem onlyTask_replaceAssignees {userIds : List UserId}
    (h : db.replaceAssigneesInTransaction taskId projectId userIds = some after) : OnlyTask db after taskId := by
  rw [Database.replaceAssigneesInTransaction] at h
  split at h
  · cases h
  · cases h
    exact ⟨.refl _ _, rfl, fun id hne => Function.update_of_ne hne _ _⟩

theorem onlyTask_replaceForMachine {assigneeIds : Option (List UserId)}
    (h : db.replaceForMachine actor taskId projectId assigneeIds = some after) : OnlyTask db after taskId := by
  rw [Database.replaceForMachine.eq_def] at h
  split at h
  · exact onlyTask_replaceAssignees h
  · cases h
    exact ⟨.refl _ _, rfl, fun _ _ => rfl⟩

/-- The rows are rewritten, a machine's assignees replaced and its action recorded. -/
theorem onlyTask_of_rewrites {tasks : List TaskRow} {replaced : Database} {action : MachineTaskAction}
    (hrows : Rewrites db.tasks tasks taskId)
    (h : Database.replaceForMachine { db with tasks := tasks } actor taskId projectId dto.assigneeIds = some replaced) :
    OnlyTask db (replaced.recordMachineAction actor projectId taskId action) taskId := by
  have honly := onlyTask_replaceForMachine h
  refine ⟨?_, ?_, fun id hne => ?_⟩
  · rw [tasks_recordMachineAction]
    exact hrows.trans honly.rows
  · cases actor <;> exact honly.members
  · cases actor <;> exact honly.assignees id hne

theorem onlyTask_moveTask {payload : TaskMoved} (h : db.moveTask actor taskId projectId dto = some (after, payload)) :
    OnlyTask db after taskId := by
  obtain ⟨current, hfind, hmove⟩ := Option.bind_eq_some_iff.mp h
  obtain ⟨replaced, hreplace, heq⟩ := Option.map_eq_some_iff.mp hmove
  obtain ⟨rfl, -⟩ := Prod.mk.inj heq
  obtain rfl : current.id = taskId := by simpa using List.find?_some hfind
  exact onlyTask_of_rewrites (rewrites_moveRows _ _ _ _ _ _) hreplace

theorem onlyTask_updateTask (h : db.updateTask actor taskId projectId dto = some after) : OnlyTask db after taskId := by
  obtain ⟨_, -, hupdate⟩ := Option.bind_eq_some_iff.mp h
  obtain ⟨replaced, hreplace, rfl⟩ := Option.map_eq_some_iff.mp hupdate
  refine onlyTask_of_rewrites (.of_map fun row => ?_) hreplace
  split
  · rename_i hid
    exact ⟨rfl, rfl, fun hne => absurd hid hne⟩
  · exact ⟨rfl, rfl, fun _ => rfl⟩

/-! ### The steps -/

theorem moved_eq {payload : TaskMoved} (h : db.moveTask actor taskId projectId dto = some (after, payload)) :
    payload.taskId = taskId ∧ payload.projectId = projectId := by
  obtain ⟨current, -, hmove⟩ := Option.bind_eq_some_iff.mp h
  obtain ⟨_, -, heq⟩ := Option.map_eq_some_iff.mp hmove
  rw [← (Prod.mk.inj heq).2]
  exact ⟨rfl, rfl⟩

/-- The assignees that have been checked can be written. -/
theorem exists_replaceAssignees {userIds : List UserId} (hidentity : (taskId, projectId) ∈ identities db)
    (hmembers : assigneesAreProjectMembers db projectId (some userIds)) :
    ∃ after, db.replaceAssigneesInTransaction taskId projectId userIds = some after := by
  obtain ⟨row, hrow, hid, -⟩ := exists_row_of_identity hidentity
  have hfound : (db.findTask taskId).isNone = false := by
    rw [Option.isNone_eq_false_iff, Database.findTask, List.find?_isSome]
    exact ⟨row, hrow, by simpa using hid⟩
  refine ⟨_, if_neg ?_⟩
  rintro ⟨hlength, hcount | hnone⟩
  · simp only [assigneesAreProjectMembers, Bool.or_eq_true, decide_eq_true_eq] at hmembers
    exact hcount (hmembers.resolve_left (by omega))
  · rw [hfound] at hnone
    cases hnone

theorem updateCall_failed (db : Database) (taskId : TaskId) (dto : UpdateTaskDto) (projectId : ProjectId) :
    UpdateCall db taskId dto projectId .failed where
  identity h := by cases h
  assignees h := by cases h
  onTask := trivial

theorem UpdateCall.step (h : UpdateCall db taskId dto projectId progress) {effect : Effect}
    (heffect : updateAs db taskId dto projectId actor progress = some effect) :
    UpdateStep db taskId dto projectId actor progress effect := by
  have hcheck : ∀ (holds : Bool) (next : Progress), progress.owes = false → next.owes = false →
      (holds = true → UpdateCall db taskId dto projectId next) →
      UpdateStep db taskId dto projectId actor progress (check db holds next) := by
    intro holds next hprogress hnext hcall
    cases holds
    · exact .quiet hprogress rfl (updateCall_failed ..)
    · exact .quiet hprogress hnext (hcall rfl)
  have hfailed : progress.owes = false → UpdateStep db taskId dto projectId actor progress (db.stay .failed) :=
    fun hprogress => .quiet hprogress rfl (updateCall_failed ..)
  cases progress with
  | begun =>
      cases heffect
      refine hcheck _ _ rfl rfl fun _ => ⟨fun hknows => ?_, fun hchecked => ?_, trivial⟩
      · cases hknows
      · cases hchecked
  | existing existing =>
      cases heffect
      refine hcheck _ _ rfl rfl fun _ => ⟨fun _ => h.identity rfl, fun hchecked => ?_, trivial⟩
      cases hchecked
  | categoryChecked existing =>
      cases heffect
      exact hcheck _ _ rfl rfl fun hmembers => ⟨fun _ => h.identity rfl, fun _ => hmembers, trivial⟩
  | member =>
      simp only [updateAs] at heffect
      split at heffect
      · cases heffect
        exact hfailed rfl
      · rename_i hfind
        cases heffect
        refine hcheck _ _ rfl rfl fun _ => ⟨fun _ => identity_of_find hfind, fun hchecked => ?_, trivial⟩
        cases hchecked
  | validated existing =>
      cases existing with
      | none => cases heffect
      | some existing =>
          simp only [updateAs] at heffect
          split at heffect
          · split at heffect
            · cases heffect
              exact hfailed rfl
            · rename_i hmove
              cases heffect
              exact .move hmove
          · split at heffect
            · cases heffect
              exact hfailed rfl
            · rename_i hedit
              cases heffect
              exact .edit hedit
  | movedRow payload =>
      cases heffect
      exact .announce payload
  | committed id =>
      obtain rfl : id = taskId := h.onTask
      cases heffect
      rw [replaceAssignees.eq_def]
      split
      · rename_i userIds hassignees
        obtain ⟨after, hreplace⟩ := exists_replaceAssignees (h.identity rfl) (hassignees ▸ h.assignees rfl)
        simp only [hreplace]
        exact .assign (tasks_replaceAssignees hreplace) (onlyTask_replaceAssignees hreplace)
      · exact .assign rfl ⟨.refl _ _, rfl, fun _ _ => rfl⟩
  | assigned id =>
      obtain rfl : id = taskId := h.onTask
      cases heffect
      obtain ⟨task, hfind⟩ := exists_find_of_identity (h.identity rfl)
      rw [reread, hfind]
      exact .read hfind
  | reread task =>
      cases heffect
      exact .update task
  | _ => cases heffect

theorem UpdateStep.onlyTask {effect : Effect} (h : UpdateStep db taskId dto projectId actor progress effect) :
    OnlyTask db effect.db taskId := by
  cases h with
  | move h => exact onlyTask_moveTask h
  | edit h => exact onlyTask_updateTask h
  | assign htasks honly => exact honly
  | _ => exact ⟨.refl _ _, rfl, fun _ _ => rfl⟩

/-- What a call relies on is kept by the steps of every call. -/
theorem UpdateCall.keep {other : TaskId} (h : UpdateCall db taskId dto projectId progress)
    (honly : OnlyTask db after other) : UpdateCall after taskId dto projectId progress where
  identity hknows := by
    rw [honly.identities_eq]
    exact h.identity hknows
  assignees hchecked := by
    have hsame : after.membersAmong = db.membersAmong := by
      funext projectId userIds
      rw [Database.membersAmong, Database.membersAmong, honly.members]
    have hmembers := h.assignees hchecked
    rw [assigneesAreProjectMembers.eq_def] at hmembers ⊢
    simpa only [hsame] using hmembers
  onTask := h.onTask

theorem UpdateCall.next (h : UpdateCall db taskId dto projectId progress) {effect : Effect}
    (hstep : UpdateStep db taskId dto projectId actor progress effect) :
    UpdateCall effect.db taskId dto projectId effect.progress := by
  refine UpdateCall.keep ?_ hstep.onlyTask
  cases hstep with
  | quiet hprogress hprogress' hcall => exact hcall
  | move hmove => exact ⟨fun _ => h.identity rfl, fun _ => h.assignees rfl, moved_eq hmove⟩
  | edit hedit => exact ⟨fun _ => h.identity rfl, fun _ => h.assignees rfl, rfl⟩
  | announce payload => exact ⟨fun _ => h.identity rfl, fun _ => h.assignees rfl, rfl⟩
  | assign htasks honly => exact ⟨fun _ => h.identity rfl, fun hchecked => (by cases hchecked), rfl⟩
  | @read task hfind =>
      refine ⟨fun _ => h.identity rfl, fun hchecked => (by cases hchecked), ?_⟩
      obtain ⟨row, hrow, rfl⟩ := Option.map_eq_some_iff.mp hfind
      have hrow : row.id = taskId ∧ row.projectId = projectId := by simpa using List.find?_some hrow
      exact hrow
  | update task => exact ⟨fun hknows => (by cases hknows), fun hchecked => (by cases hchecked), trivial⟩

end Transcendence.Tasks
