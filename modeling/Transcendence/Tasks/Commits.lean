import Transcendence.Tasks.DenseRanks

/-!
# Commits of the task calls

A call changes the tasks and the audit in one step only, the commit of its transaction. Every other
step leaves all of the database as it is, but for the assignees that a user's call replaces
afterwards in a transaction of their own.
-/

namespace Transcendence.Tasks

/-- The step of a call that commits its transaction. -/
inductive Commit (db : Database) (randomUUID : TaskId) : Request → Progress → Effect → Prop where
  | createAs {projectId : ProjectId} {dto : CreateTaskDto} {actor : TaskMutationActor} {existing : Option Task}
      {after : Database} (h : db.createTask actor projectId dto randomUUID = some after) :
      Commit db randomUUID (.createAs projectId dto actor) (.validated existing) (after.stay (.committed randomUUID))
  | move {id : TaskId} {dto : UpdateTaskDto} {projectId : ProjectId} {actor : TaskMutationActor} {existing : Task}
      {after : Database} {moved : TaskMoved} (hmoving : isMoving dto existing)
      (h : db.moveTask actor id projectId dto = some (after, moved)) :
      Commit db randomUUID (.updateAs id dto projectId actor) (.validated (some existing)) (after.stay (.movedRow moved))
  | edit {id : TaskId} {dto : UpdateTaskDto} {projectId : ProjectId} {actor : TaskMutationActor} {existing : Task}
      {after : Database} (hmoving : ¬isMoving dto existing) (h : db.updateTask actor id projectId dto = some after) :
      Commit db randomUUID (.updateAs id dto projectId actor) (.validated (some existing)) (after.stay (.committed id))
  | removeAs {id : TaskId} {projectId : ProjectId} {actor : TaskMutationActor} {existing : Option Task}
      {after : Database} {deleted : Task} (h : db.deleteTask actor id projectId = some (after, deleted)) :
      Commit db randomUUID (.removeAs id projectId actor) (.existing existing) (after.stay (.deletedRow deleted))

/-- The task of the transaction whose commit takes a call from one progress to the other. -/
def commitOf : Request → Progress → Progress → Option TaskId
  | .createAs .., .validated _, .committed id => some id
  | .updateAs id .., .validated _, .movedRow _ => some id
  | .updateAs .., .validated _, .committed id => some id
  | .removeAs id .., .existing _, .deletedRow _ => some id
  | _, _, _ => none

def Request.actor : Request → TaskMutationActor
  | .createAs _ _ actor => actor
  | .updateAs _ _ _ actor => actor
  | .removeAs _ _ actor => actor

/-- A step of a call that commits nothing. -/
structure Rests (db : Database) (request : Request) (progress : Progress) (effect : Effect) : Prop where
  rows : effect.db = { db with taskAssignees := effect.db.taskAssignees }
  machine : ∀ tokenId, request.actor = .MACHINE tokenId → effect.db = db
  progress : commitOf request progress effect.progress = none

variable {db : Database} {randomUUID : TaskId} {request : Request} {progress : Progress} {effect : Effect}

theorem Rests.of_eq (h : effect.db = db) (hprogress : commitOf request progress effect.progress = none) :
    Rests db request progress effect where
  rows := by rw [h]
  machine _ _ := h
  progress := hprogress

theorem commitOf_failed (request : Request) (progress : Progress) : commitOf request progress .failed = none := by
  cases request <;> cases progress <;> rfl

/-- A failed transaction. -/
theorem Rests.of_failed (request : Request) (progress : Progress) : Rests db request progress (db.stay .failed) :=
  .of_eq rfl (commitOf_failed request progress)

theorem rests_replaceAssignees (request : Request) {taskId : TaskId} {projectId : ProjectId} {assigneeIds : Option (List UserId)}
    (hprogress : ∀ after, commitOf request progress after = none) :
    Rests db request progress (replaceAssignees db request.actor taskId projectId assigneeIds) := by
  cases hactor : request.actor with
  | MACHINE tokenId => exact .of_eq rfl (hprogress _)
  | USER userId =>
      cases assigneeIds with
      | none => exact .of_eq rfl (hprogress _)
      | some userIds =>
          refine ⟨?_, fun tokenId hmachine => ?_, hprogress _⟩
          · rw [replaceAssignees.eq_def]
            simp only
            cases hreplace : db.replaceAssigneesInTransaction taskId projectId userIds with
            | none => rfl
            | some after =>
                rw [Database.replaceAssigneesInTransaction] at hreplace
                split at hreplace
                · cases hreplace
                · cases hreplace
                  rfl
          · rw [hactor] at hmachine
            cases hmachine

theorem Commit.exists_commitOf (h : Commit db randomUUID request progress effect) :
    ∃ id, commitOf request progress effect.progress = some id := by
  cases h <;> exact ⟨_, rfl⟩

theorem rests_or_commit (h : request.effect db randomUUID progress = some effect) :
    Rests db request progress effect ∨ Commit db randomUUID request progress effect := by
  cases request with
  | createAs projectId dto actor =>
      cases progress with
      | validated existing =>
          simp only [Request.effect, createAs] at h
          cases hcreate : db.createTask actor projectId dto randomUUID with
          | none =>
              rw [hcreate] at h
              cases h
              exact Or.inl (.of_failed _ _)
          | some after =>
              rw [hcreate] at h
              cases h
              exact Or.inr (.createAs hcreate)
      | committed taskId =>
          cases h
          exact Or.inl (rests_replaceAssignees (.createAs projectId dto actor) fun _ => rfl)
      | assigned taskId =>
          cases h
          exact Or.inl (.of_eq (db_reread ..) rfl)
      | begun | member | existing task | categoryChecked task | reread task =>
          cases h
          exact Or.inl (.of_eq rfl rfl)
      | _ => cases h
  | updateAs id dto projectId actor =>
      cases progress with
      | validated existing =>
          cases existing with
          | none => cases h
          | some existingTask =>
              simp only [Request.effect, updateAs] at h
              split at h
              · next hmoving =>
                  cases hmove : db.moveTask actor id projectId dto with
                  | none =>
                      rw [hmove] at h
                      cases h
                      exact Or.inl (.of_failed _ _)
                  | some result =>
                      rw [hmove] at h
                      cases h
                      exact Or.inr (.move hmoving hmove)
              · next hmoving =>
                  cases hupdate : db.updateTask actor id projectId dto with
                  | none =>
                      rw [hupdate] at h
                      cases h
                      exact Or.inl (.of_failed _ _)
                  | some after =>
                      rw [hupdate] at h
                      cases h
                      exact Or.inr (.edit hmoving hupdate)
      | member =>
          simp only [Request.effect, updateAs] at h
          split at h
          · cases h
            exact Or.inl (.of_failed _ _)
          · cases h
            exact Or.inl (.of_eq rfl rfl)
      | committed taskId =>
          cases h
          exact Or.inl (rests_replaceAssignees (.updateAs id dto projectId actor) fun _ => rfl)
      | assigned taskId =>
          cases h
          exact Or.inl (.of_eq (db_reread ..) rfl)
      | begun | existing task | categoryChecked task | movedRow moved | reread task =>
          cases h
          exact Or.inl (.of_eq rfl rfl)
      | _ => cases h
  | removeAs id projectId actor =>
      cases progress with
      | existing task =>
          simp only [Request.effect, removeAs] at h
          cases hdelete : db.deleteTask actor id projectId with
          | none =>
              rw [hdelete] at h
              cases h
              exact Or.inl (.of_failed _ _)
          | some result =>
              rw [hdelete] at h
              cases h
              exact Or.inr (.removeAs hdelete)
      | begun | member | deletedRow deleted =>
          cases h
          exact Or.inl (.of_eq rfl rfl)
      | _ => cases h

/-! ### The steps of the service -/

namespace Service

variable {s t : Service} {label : Label}

/-- Where a step takes its call; only a call that gets an answer touches the database. -/
inductive StepCases (s t : Service) (label : Label) : Prop where
  | starts (hdb : t.db = s.db) (hnew : s.calls label.call = none)
      (hcall : ∃ request, t.calls label.call = some ⟨request, .begun⟩)
  | fails {call : Call} (hdb : t.db = s.db) (hcall : s.calls label.call = some call)
      (hfailed : t.calls label.call = some { call with progress := .failed })
  | advances {randomUUID : TaskId} {call : Call} {effect : Effect}
      (hadvance : Advance s t label.call randomUUID call effect)

theorem stepCases (hstep : s.step label = some t) : StepCases s t label := by
  cases label with
  | start id request =>
      simp only [step, start] at hstep
      split at hstep
      · cases hstep
      · next hnew =>
          cases hstep
          exact .starts rfl (Option.not_isSome_iff_eq_none.mp hnew) ⟨request, Function.update_self ..⟩
  | advance id randomUUID =>
      obtain ⟨call, effect, hadvance⟩ := exists_advance hstep
      exact .advances hadvance
  | fail id =>
      obtain ⟨call, hcall, rfl⟩ := exists_fail hstep
      exact .fails rfl hcall (Function.update_self ..)

theorem calls_of_ne {id : CallId} (hstep : s.step label = some t) (hne : id ≠ label.call) : t.calls id = s.calls id := by
  have hrun : Runs.run step s [label] = some t := by
    rw [Runs.run_cons, hstep]
    rfl
  exact calls_of_run (fun _ hlabel => List.mem_singleton.mp hlabel ▸ hne.symm) hrun

end Service

end Transcendence.Tasks
