import Transcendence.Tasks.Commits

/-!
# The boards of the other projects

The transactions of the task service name a task by its id alone, and shift ranks in the columns of the
project of the request. The task is one of that project, as the call has read it there first and a task
never changes its project. So a machine's call leaves the boards of all other projects as they are, and
the task that a call returns is one of its project.
-/

namespace Transcendence.Tasks

variable {tasks : List TaskRow} {projectId other : ProjectId}

/-- Rows that are only changed in one project. -/
theorem filter_map_of_fixed {f : TaskRow → TaskRow} (hproject : ∀ row ∈ tasks, (f row).projectId = row.projectId)
    (hfixed : ∀ row ∈ tasks, row.projectId ≠ projectId → f row = row) (hne : other ≠ projectId) :
    (tasks.map f).filter (·.projectId = other) = tasks.filter (·.projectId = other) := by
  induction tasks with
  | nil => rfl
  | cons row rows ih =>
      have hrows := ih (fun row hrow => hproject row (List.mem_cons_of_mem _ hrow))
        fun row hrow => hfixed row (List.mem_cons_of_mem _ hrow)
      have hrow := hproject row List.mem_cons_self
      by_cases hother : row.projectId = other
      · have hsame := hfixed row List.mem_cons_self (by rw [hother]; exact hne)
        rw [List.map_cons, hsame, List.filter_cons_of_pos (by simpa using hother),
          List.filter_cons_of_pos (by simpa using hother), hrows]
      · rw [List.map_cons, List.filter_cons_of_neg (by rw [hrow]; simpa using hother),
          List.filter_cons_of_neg (by simpa using hother), hrows]

theorem filter_closeRankGap (status : TaskStatus) (vacatedRank : Int) (hne : other ≠ projectId) :
    (closeRankGap tasks projectId status vacatedRank).filter (·.projectId = other) =
      tasks.filter (·.projectId = other) := by
  apply filter_map_of_fixed _ _ hne
  · intro row _
    split <;> rfl
  · intro row _ hproject
    exact if_neg fun hshifted => hproject hshifted.1

theorem filter_openRankSlot (status : TaskStatus) (wantedRank : Option Int) (excludeId : Option TaskId)
    (hne : other ≠ projectId) :
    (openRankSlot tasks projectId status wantedRank excludeId).2.filter (·.projectId = other) =
      tasks.filter (·.projectId = other) := by
  apply filter_map_of_fixed _ _ hne
  · intro row _
    split <;> rfl
  · intro row _ hproject
    exact if_neg fun hshifted => hproject hshifted.1

/-- A change of the rows with one id, which is that of a task of the project. -/
theorem filter_map_id {id : TaskId} {f : TaskRow → TaskRow} (hproject : ∀ row, (f row).projectId = row.projectId)
    (hhome : ∀ row ∈ tasks, row.id = id → row.projectId = projectId) (hne : other ≠ projectId) :
    (tasks.map fun row => if row.id = id then f row else row).filter (·.projectId = other) =
      tasks.filter (·.projectId = other) := by
  apply filter_map_of_fixed _ _ hne
  · intro row _
    split
    · exact hproject row
    · rfl
  · intro row hrow hother
    exact if_neg fun hid => hother (hhome row hrow hid)

/-- Where rows keep ids and projects, those with an id stay in their project. -/
theorem home_map {id : TaskId} {f : TaskRow → TaskRow}
    (hf : ∀ row, (f row).id = row.id ∧ (f row).projectId = row.projectId) (hhome : ∀ row ∈ tasks, row.id = id → row.projectId = projectId) :
    ∀ row ∈ tasks.map f, row.id = id → row.projectId = projectId := by
  intro row hrow hid
  obtain ⟨old, hold, rfl⟩ := List.mem_map.mp hrow
  rw [(hf old).2]
  exact hhome old hold ((hf old).1.symm.trans hid)

theorem filter_moveRows {current : TaskRow} (requestedStatus : Option TaskStatus) (wantedRank : Option Int)
    (dto : UpdateTaskDto) (hhome : ∀ row ∈ tasks, row.id = current.id → row.projectId = projectId)
    (hne : other ≠ projectId) :
    (moveRows tasks current projectId requestedStatus wantedRank dto).1.filter (·.projectId = other) =
      tasks.filter (·.projectId = other) := by
  have hclosed : ∀ row ∈ closeRankGap tasks projectId current.status current.rank, row.id = current.id →
      row.projectId = projectId :=
    home_map (fun row => by split <;> exact ⟨rfl, rfl⟩) hhome
  have hopened : ∀ row ∈ (openRankSlot (closeRankGap tasks projectId current.status current.rank) projectId
      (requestedStatus.getD current.status) wantedRank (some current.id)).2, row.id = current.id → row.projectId = projectId := by
    unfold openRankSlot
    exact home_map (fun row => by split <;> exact ⟨rfl, rfl⟩) hclosed
  unfold moveRows
  dsimp only
  refine (filter_map_id ?_ hopened hne).trans ?_
  · intro row
    rfl
  · rw [filter_openRankSlot _ _ _ hne, filter_closeRankGap _ _ hne]

namespace Database

/-- The rows of a project and their assignees make its board. -/
theorem board_congr {db after : Database}
    (htasks : after.tasks.filter (·.projectId = other) = db.tasks.filter (·.projectId = other))
    (hassignees : ∀ row ∈ db.tasks, row.projectId = other → after.taskAssignees row.id = db.taskAssignees row.id) :
    after.board other = db.board other := by
  rw [board, board, htasks]
  apply List.map_congr_left
  intro row hrow
  obtain ⟨hmem, hproject⟩ := List.mem_filter.mp hrow
  rw [mapTask, mapTask, hassignees row hmem (of_decide_eq_true hproject)]

theorem taskAssignees_recordMachineAction (db : Database) (actor : TaskMutationActor) (projectId : ProjectId)
    (taskId : TaskId) (action : MachineTaskAction) :
    (db.recordMachineAction actor projectId taskId action).taskAssignees = db.taskAssignees := by
  cases actor <;> rfl

theorem taskAssignees_replaceForMachine {db after : Database} {actor : TaskMutationActor} {taskId : TaskId}
    {projectId : ProjectId} {assigneeIds : Option (List UserId)}
    (h : db.replaceForMachine actor taskId projectId assigneeIds = some after) {id : TaskId} (hid : id ≠ taskId) :
    after.taskAssignees id = db.taskAssignees id := by
  rw [replaceForMachine.eq_def] at h
  split at h
  · rw [replaceAssigneesInTransaction] at h
    split_ifs at h
    cases h
    exact Function.update_of_ne hid _ _
  · cases h
    rfl

end Database

/-- A transaction comes after the first read of its call. -/
theorem Commit.hasRead {db : Database} {randomUUID : TaskId} {request : Request} {progress : Progress} {effect : Effect}
    (h : Commit db randomUUID request progress effect) : progress.hasRead = true := by
  cases h with
  | createAs => rfl
  | move => rfl
  | edit => rfl
  | removeAs => rfl

/-- A transaction leaves the other boards as they are. -/
theorem Commit.board_eq {db : Database} {randomUUID : TaskId} {request : Request} {progress : Progress} {effect : Effect}
    (h : Commit db randomUUID request progress effect) (hfresh : ∀ row ∈ db.tasks, row.id ≠ randomUUID)
    (hhome : ∀ target, request.target = some target → ∀ row ∈ db.tasks, row.id = target.1 → row.projectId = target.2)
    (hne : other ≠ request.projectId) : effect.db.board other = db.board other := by
  cases h with
  | @createAs projectId dto actor existing after h =>
      have hne : other ≠ projectId := hne
      rw [Database.createTask] at h
      split_ifs at h
      obtain ⟨replaced, hreplaced, rfl⟩ := Option.map_eq_some_iff.mp h
      apply Database.board_congr
      · show (Database.recordMachineAction _ _ _ _ _).tasks.filter _ = _
        rw [tasks_recordMachineAction, tasks_replaceForMachine hreplaced, List.filter_append, filter_openRankSlot _ _ _ hne]
        have hcreated : decide (projectId = other) = false := decide_eq_false (Ne.symm hne)
        simp [hcreated]
      · intro row hrow _
        show (Database.recordMachineAction _ _ _ _ _).taskAssignees _ = _
        rw [Database.taskAssignees_recordMachineAction, Database.taskAssignees_replaceForMachine hreplaced (hfresh row hrow)]
  | @move id dto projectId actor existing after moved hmoving h =>
      obtain ⟨current, hcurrent, h⟩ := Option.bind_eq_some_iff.mp h
      obtain ⟨replaced, hreplaced, heq⟩ := Option.map_eq_some_iff.mp h
      obtain ⟨rfl, -⟩ := Prod.mk.inj heq
      have hfound : db.tasks.find? (fun row => row.id = id) = some current := hcurrent
      have hid : current.id = id := by simpa using List.find?_some hfound
      have hrows := hhome _ rfl
      apply Database.board_congr
      · show (Database.recordMachineAction _ _ _ _ _).tasks.filter _ = _
        rw [tasks_recordMachineAction, tasks_replaceForMachine hreplaced]
        exact filter_moveRows _ _ _ (hid ▸ hrows) hne
      · intro row hrow hproject
        show (Database.recordMachineAction _ _ _ _ _).taskAssignees _ = _
        rw [Database.taskAssignees_recordMachineAction, Database.taskAssignees_replaceForMachine hreplaced]
        exact fun heq => hne (hproject.symm.trans (hrows row hrow heq))
  | @edit id dto projectId actor existing after hmoving h =>
      obtain ⟨current, -, h⟩ := Option.bind_eq_some_iff.mp h
      obtain ⟨replaced, hreplaced, rfl⟩ := Option.map_eq_some_iff.mp h
      have hrows := hhome _ rfl
      apply Database.board_congr
      · show (Database.recordMachineAction _ _ _ _ _).tasks.filter _ = _
        rw [tasks_recordMachineAction, tasks_replaceForMachine hreplaced]
        exact filter_map_id (fun _ => rfl) hrows hne
      · intro row hrow hproject
        show (Database.recordMachineAction _ _ _ _ _).taskAssignees _ = _
        rw [Database.taskAssignees_recordMachineAction, Database.taskAssignees_replaceForMachine hreplaced]
        exact fun heq => hne (hproject.symm.trans (hrows row hrow heq))
  | @removeAs id projectId actor existing after task h =>
      have hne : other ≠ projectId := hne
      obtain ⟨deleted, -, heq⟩ := Option.map_eq_some_iff.mp h
      obtain ⟨rfl, -⟩ := Prod.mk.inj heq
      have hrows := hhome _ rfl
      apply Database.board_congr
      · show (Database.recordMachineAction _ _ _ _ _).tasks.filter _ = _
        rw [tasks_recordMachineAction, filter_closeRankGap _ _ hne, List.filter_filter]
        apply List.filter_congr
        intro row hrow
        by_cases hproject : row.projectId = other
        · have hid : row.id ≠ id := fun heq => hne (hproject.symm.trans (hrows row hrow heq))
          simp [hid]
        · simp [hproject]
      · intro row hrow hproject
        show (Database.recordMachineAction _ _ _ _ _).taskAssignees _ = _
        rw [Database.taskAssignees_recordMachineAction]
        exact Function.update_of_ne (fun heq => hne (hproject.symm.trans (hrows row hrow heq))) _ _

namespace Service

/-- A step of a machine's call leaves the boards of all projects but that of its request as they are. -/
theorem Inv.board_of_machine {s t : Service} (h : s.Inv) {id : CallId} {randomUUID : TaskId} {call : Call} {effect : Effect}
    (hadvance : Advance s t id randomUUID call effect) {tokenId : String} (hactor : call.request.actor = .MACHINE tokenId)
    (hne : other ≠ call.request.projectId) : t.db.board other = s.db.board other := by
  rw [hadvance.db_eq]
  rcases rests_or_commit hadvance.heffect with hrests | hcommit
  · rw [hrests.machine tokenId hactor]
  · refine hcommit.board_eq (fun row hrow heq => hadvance.fresh (heq ▸ h.issued row hrow)) (fun target htarget => ?_) hne
    have hread : call.progress.hasRead = true := hcommit.hasRead
    exact (h.home id call target hadvance.hcall htarget hread).2

end Service

/-! ### What the calls return -/

/-- The task that the call is going to return, or has returned. -/
def Progress.answer : Progress → Option Task
  | .reread task => some task
  | .deletedRow deleted => some deleted
  | .finished task => some task
  | _ => none

variable {db : Database} {randomUUID : TaskId} {request : Request} {progress : Progress} {effect : Effect} {task : Task}

theorem answer_check {holds : Bool} (h : progress.answer = none) : (check db holds progress).progress.answer = none := by
  cases holds with
  | true => exact h
  | false => rfl

theorem answer_replaceAssignees (actor : TaskMutationActor) (taskId : TaskId) (assigneeIds : Option (List UserId)) :
    (replaceAssignees db actor taskId projectId assigneeIds).progress.answer = none := by
  rw [replaceAssignees.eq_def]
  split
  · split <;> rfl
  · rfl

theorem projectId_of_find {taskId : TaskId} (h : db.findByIdForProject taskId projectId = some task) :
    task.projectId = projectId := by
  obtain ⟨row, hrow, rfl⟩ := Option.map_eq_some_iff.mp h
  obtain ⟨-, hproject⟩ : row.id = taskId ∧ row.projectId = projectId := by simpa using List.find?_some hrow
  exact hproject

theorem answer_reread {taskId : TaskId} (h : (reread db taskId projectId).progress.answer = some task) :
    task.projectId = projectId := by
  rw [reread] at h
  split at h
  · cases h
  · next found hfound =>
      cases h
      exact projectId_of_find hfound

/-- The task that a transaction deletes is one of the project, if rows with its id are. -/
theorem projectId_of_deleteTask {id : TaskId} {actor : TaskMutationActor} {after : Database}
    (hhome : ∀ row ∈ db.tasks, row.id = id → row.projectId = projectId)
    (h : db.deleteTask actor id projectId = some (after, task)) : task.projectId = projectId := by
  obtain ⟨deleted, hfind, heq⟩ := Option.map_eq_some_iff.mp h
  obtain ⟨-, rfl⟩ := Prod.mk.inj heq
  have hfound : db.tasks.find? (fun row => row.id = id) = some deleted := hfind
  exact hhome deleted (List.mem_of_find?_eq_some hfound) (by simpa using List.find?_some hfound)

/-- A task that is to be returned was read in the project or deleted there. -/
theorem answer_of_effect (heffect : request.effect db randomUUID progress = some effect)
    (hhome : ∀ target, request.target = some target → progress.hasRead →
      ∀ row ∈ db.tasks, row.id = target.1 → row.projectId = target.2)
    (hanswer : effect.progress.answer = some task) : progress.answer = some task ∨ task.projectId = request.projectId := by
  cases request with
  | createAs projectId dto actor =>
      cases progress with
      | begun | member | existing task | categoryChecked task =>
          cases heffect
          cases (answer_check rfl).symm.trans hanswer
      | validated existing =>
          simp only [Request.effect, createAs] at heffect
          split at heffect
          · cases heffect
            cases hanswer
          · cases heffect
            cases hanswer
      | committed taskId =>
          cases heffect
          cases (answer_replaceAssignees ..).symm.trans hanswer
      | assigned taskId =>
          cases heffect
          exact .inr (answer_reread hanswer)
      | reread task =>
          cases heffect
          exact .inl hanswer
      | _ => cases heffect
  | updateAs id dto projectId actor =>
      cases progress with
      | begun | existing task | categoryChecked task =>
          cases heffect
          cases (answer_check rfl).symm.trans hanswer
      | member =>
          simp only [Request.effect, updateAs] at heffect
          split at heffect
          · cases heffect
            cases hanswer
          · cases heffect
            cases (answer_check rfl).symm.trans hanswer
      | validated existing =>
          cases existing with
          | none => cases heffect
          | some existing =>
              simp only [Request.effect, updateAs] at heffect
              split at heffect
              · split at heffect
                · cases heffect
                  cases hanswer
                · cases heffect
                  cases hanswer
              · split at heffect
                · cases heffect
                  cases hanswer
                · cases heffect
                  cases hanswer
      | movedRow moved =>
          cases heffect
          cases hanswer
      | committed taskId =>
          cases heffect
          cases (answer_replaceAssignees ..).symm.trans hanswer
      | assigned taskId =>
          cases heffect
          exact .inr (answer_reread hanswer)
      | reread task =>
          cases heffect
          exact .inl hanswer
      | _ => cases heffect
  | removeAs id projectId actor =>
      cases progress with
      | begun | member =>
          cases heffect
          cases (answer_check rfl).symm.trans hanswer
      | existing existing =>
          simp only [Request.effect, removeAs] at heffect
          split at heffect
          · cases heffect
            cases hanswer
          · next after deleted hdelete =>
              cases heffect
              cases hanswer
              exact .inr (projectId_of_deleteTask (hhome _ rfl rfl) hdelete)
      | deletedRow deleted =>
          cases heffect
          exact .inl hanswer
      | _ => cases heffect

namespace Service

/-- Every call returns a task of its project. -/
def Answers (s : Service) : Prop :=
  ∀ id call task, s.calls id = some call → call.progress.answer = some task → task.projectId = call.request.projectId

theorem answers_initial (db : Database) : (initial db).Answers := by
  intro id call task hcall
  cases hcall

theorem Answers.step {s t : Service} {label : Label} (h : s.Answers) (hinv : s.Inv) (hstep : s.step label = some t) :
    t.Answers := by
  intro id call task hcall hanswer
  by_cases hid : id = label.call
  · subst hid
    cases stepCases hstep with
    | starts _ _ hbegun =>
        obtain ⟨request, hbegun⟩ := hbegun
        cases hcall.symm.trans hbegun
        cases hanswer
    | fails _ _ hfailed =>
        cases hcall.symm.trans hfailed
        cases hanswer
    | advances hadvance =>
        rw [hadvance.calls_self] at hcall
        obtain rfl := Option.some.inj hcall
        have hhome := fun target htarget hread => (hinv.home label.call _ target hadvance.hcall htarget hread).2
        rcases answer_of_effect hadvance.heffect hhome hanswer with hbefore | hproject
        · have hproject := h label.call _ _ hadvance.hcall hbefore
          exact hproject
        · exact hproject
  · exact h id call task ((calls_of_ne hstep hid).symm.trans hcall) hanswer

end Service

end Transcendence.Tasks
