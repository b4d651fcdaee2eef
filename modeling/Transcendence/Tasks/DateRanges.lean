import Transcendence.Tasks.Commits

/-!
# Date ranges of tasks

A call checks the dates its task will have against the row as it has read it, before its
transaction, and cuts them off at the millisecond. A PATCH of one date is then written beside whatever
the other date has become, and its column rounds it. So the dates of a task stay in order exactly as
long as no PATCH is overtaken by another one of the other date, and no date of the start is rounded
past that of the end.
-/

namespace Transcendence.Tasks

open Bounds Instants

def TaskContent.DatesInOrder (content : TaskContent) : Prop := InOrder content.startAt content.endAt

/-- Every task with both dates ends no earlier than it starts. -/
def Database.DatesInOrder (db : Database) : Prop := ∀ row ∈ db.tasks, row.content.DatesInOrder

theorem validDateRange_iff {startAt endAt : Option Int} :
    validDateRange startAt endAt = true ↔ InOrder (startAt.map date) (endAt.map date) := by
  cases startAt with
  | none => exact ⟨fun _ => inOrder_none_left, fun _ => rfl⟩
  | some startAt =>
      cases endAt with
      | none => exact ⟨fun _ => inOrder_none_right, fun _ => rfl⟩
      | some endAt => rw [Option.map_some, Option.map_some, inOrder_some, validDateRange, decide_eq_true_eq]

/-- The dates of the request are in order with those it has read. -/
def Request.DatesChecked (existing : Option Task) : Request → Prop
  | .createAs _ dto _ => InOrder (dto.startAt.map date) (dto.endAt.map date)
  | .updateAs _ dto _ _ =>
      ∀ task ∈ existing,
        InOrder (checked date dto.startAt task.content.startAt) (checked date dto.endAt task.content.endAt)
  | .removeAs .. => True

/-- What a call past its date check has read. -/
def Progress.readTask : Progress → Option (Option Task)
  | .existing task => some task
  | .categoryChecked task => some task
  | .validated task => some task
  | _ => none

/-- What the call writes is overtaken, or rounded past: the PATCH names one date of a task, and the other
has been changed to a wrong one since the call has read it; or the start is rounded up from the
millisecond of the end. -/
def Request.Slips (db : Database) (existing : Option Task) : Request → Prop
  | .createAs _ dto _ => RoundedPast date timestamp3 none (some dto.startAt) (some dto.endAt)
  | .updateAs id dto _ _ => ∃ row ∈ db.tasks, row.id = id ∧ ∃ task ∈ existing,
      (Overtaken timestamp3 task.content.startAt task.content.endAt row.content.startAt row.content.endAt
          dto.startAt dto.endAt ∨
        RoundedPast date timestamp3 row.content.endAt dto.startAt dto.endAt)
  | .removeAs .. => False

variable {db after : Database} {actor : TaskMutationActor} {projectId : ProjectId} {id randomUUID : TaskId}
  {request : Request} {progress : Progress} {effect : Effect} {existing : Option Task}

/-! ### The check -/

theorem readTask_check {holds : Bool} (h : (check db holds progress).progress.readTask = some existing) :
    holds = true ∧ progress.readTask = some existing := by
  cases holds with
  | true => exact ⟨rfl, h⟩
  | false => cases h

theorem readTask_replaceAssignees (taskId : TaskId) (assigneeIds : Option (List UserId)) :
    (replaceAssignees db actor taskId projectId assigneeIds).progress.readTask = none := by
  rw [replaceAssignees.eq_def]
  split
  · split <;> rfl
  · rfl

theorem readTask_reread (taskId : TaskId) : (reread db taskId projectId).progress.readTask = none := by
  rw [reread]
  split <;> rfl

/-- A call past its check has dates that are in order with what it has read. -/
theorem datesChecked_of_effect (heffect : request.effect db randomUUID progress = some effect)
    (hbefore : ∀ existing, progress.readTask = some existing → request.DatesChecked existing)
    (hafter : effect.progress.readTask = some existing) : request.DatesChecked existing := by
  cases request with
  | createAs projectId dto actor =>
      cases progress with
      | member =>
          cases heffect
          exact validDateRange_iff.mp (readTask_check hafter).1
      | existing task | categoryChecked task => exact hbefore task rfl
      | validated task =>
          simp only [Request.effect, createAs] at heffect
          split at heffect <;> (cases heffect; cases hafter)
      | begun =>
          cases heffect
          cases (readTask_check hafter).2
      | committed taskId =>
          cases heffect
          cases (readTask_replaceAssignees ..).symm.trans hafter
      | assigned taskId =>
          cases heffect
          cases (readTask_reread _).symm.trans hafter
      | reread task =>
          cases heffect
          cases hafter
      | _ => cases heffect
  | updateAs id dto projectId actor =>
      cases progress with
      | member =>
          simp only [Request.effect, updateAs] at heffect
          split at heffect
          · cases heffect
            cases hafter
          · next task hfind =>
              cases heffect
              obtain ⟨hvalid, hread⟩ := readTask_check hafter
              cases hread
              intro task' htask
              cases htask
              rw [validDateRange_iff, map_date_or, map_date_or] at hvalid
              exact hvalid
      | existing task | categoryChecked task =>
          cases heffect
          cases (readTask_check hafter).2
          exact hbefore _ rfl
      | validated task =>
          cases task with
          | none => cases heffect
          | some task =>
              simp only [Request.effect, updateAs] at heffect
              split at heffect
              · split at heffect <;> (cases heffect; cases hafter)
              · split at heffect <;> (cases heffect; cases hafter)
      | begun =>
          cases heffect
          cases (readTask_check hafter).2
      | committed taskId =>
          cases heffect
          cases (readTask_replaceAssignees ..).symm.trans hafter
      | assigned taskId =>
          cases heffect
          cases (readTask_reread _).symm.trans hafter
      | movedRow moved | reread task =>
          cases heffect
          cases hafter
      | _ => cases heffect
  | removeAs id projectId actor => trivial

/-! ### The transactions -/

/-- A patch of the rows with an id keeps all dates in order exactly if it does not slip. -/
theorem datesInOrder_patch_iff (projectId : ProjectId) (actor : TaskMutationActor) {task : Task} {dto : UpdateTaskDto}
    {f : TaskRow → TaskRow} (hf : ∀ row, (f row).content = if row.id = id then row.content.update dto else row.content)
    (hrows : after.tasks = db.tasks.map f) (hordered : db.DatesInOrder)
    (hread : InOrder (checked date dto.startAt task.content.startAt) (checked date dto.endAt task.content.endAt)) :
    after.DatesInOrder ↔ ¬(Request.updateAs id dto projectId actor).Slips db (some task) := by
  have hpatch : ∀ row ∈ db.tasks, (row.content.update dto).DatesInOrder ↔
      ¬(Overtaken timestamp3 task.content.startAt task.content.endAt row.content.startAt row.content.endAt
          dto.startAt dto.endAt ∨
        RoundedPast date timestamp3 row.content.endAt dto.startAt dto.endAt) := by
    intro row hrow
    rw [not_or]
    exact inOrder_patched_iff rounding hread (hordered row hrow)
  constructor
  · rintro h ⟨row, hrow, hid, task', htask, hslips⟩
    cases htask
    have hafter := h (f row) (hrows ▸ List.mem_map_of_mem hrow)
    rw [TaskContent.DatesInOrder, hf, if_pos hid] at hafter
    exact (hpatch row hrow).mp hafter hslips
  · intro h row' hrow'
    rw [hrows] at hrow'
    obtain ⟨row, hrow, rfl⟩ := List.mem_map.mp hrow'
    rw [hf]
    split
    · next hid => exact (hpatch row hrow).mpr fun hslips => h ⟨row, hrow, hid, task, rfl, hslips⟩
    · exact hordered row hrow

/-- Shifting ranks keeps what the rows are and contain. -/
structure KeepsContent (f : TaskRow → TaskRow) : Prop where
  id : ∀ row, (f row).id = row.id
  content : ∀ row, (f row).content = row.content

theorem closeRankGap_eq_map (tasks : List TaskRow) (projectId : ProjectId) (status : TaskStatus) (vacatedRank : Int) :
    ∃ f, closeRankGap tasks projectId status vacatedRank = tasks.map f ∧ KeepsContent f :=
  ⟨_, rfl, fun row => by split <;> rfl, fun row => by split <;> rfl⟩

theorem openRankSlot_eq_map (tasks : List TaskRow) (projectId : ProjectId) (status : TaskStatus)
    (wantedRank : Option Int) (excludeId : Option TaskId) :
    ∃ f, (openRankSlot tasks projectId status wantedRank excludeId).2 = tasks.map f ∧ KeepsContent f :=
  ⟨_, rfl, fun row => by split <;> rfl, fun row => by split <;> rfl⟩

/-- The content of the rows `moveTask` leaves. -/
theorem moveRows_eq_map (tasks : List TaskRow) (current : TaskRow) (projectId : ProjectId)
    (requestedStatus : Option TaskStatus) (wantedRank : Option Int) (dto : UpdateTaskDto) :
    ∃ f : TaskRow → TaskRow, (moveRows tasks current projectId requestedStatus wantedRank dto).1 = tasks.map f ∧
      ∀ row, (f row).content = if row.id = current.id then row.content.update dto else row.content := by
  obtain ⟨close, hclose, hkeeps⟩ := closeRankGap_eq_map tasks projectId current.status current.rank
  obtain ⟨shift, hshift, hkeeps'⟩ := openRankSlot_eq_map (tasks.map close) projectId
    (requestedStatus.getD current.status) wantedRank (some current.id)
  simp only [moveRows, hclose, hshift, List.map_map]
  refine ⟨_, rfl, fun row => ?_⟩
  simp only [Function.comp_apply, hkeeps.id, hkeeps'.id]
  split
  · rw [hkeeps'.content, hkeeps.content]
  · rw [hkeeps'.content, hkeeps.content]

theorem tasks_createTask {dto : CreateTaskDto} (h : db.createTask actor projectId dto randomUUID = some after) :
    ∃ (f : TaskRow → TaskRow) (created : TaskRow), after.tasks = db.tasks.map f ++ [created] ∧
      (∀ row, (f row).content = row.content) ∧ created.content = dto.content := by
  rw [Database.createTask] at h
  split at h
  · cases h
  · obtain ⟨replaced, hreplace, rfl⟩ := Option.map_eq_some_iff.mp h
    rw [tasks_recordMachineAction, tasks_replaceForMachine hreplace]
    refine ⟨_, _, rfl, fun row => ?_, rfl⟩
    split <;> rfl

theorem datesInOrder_createTask_iff (existing : Option Task) {dto : CreateTaskDto}
    (h : db.createTask actor projectId dto randomUUID = some after) (hordered : db.DatesInOrder)
    (hchecked : InOrder (dto.startAt.map date) (dto.endAt.map date)) :
    after.DatesInOrder ↔ ¬(Request.createAs projectId dto actor).Slips db existing := by
  obtain ⟨f, created, hrows, hf, hcreated⟩ := tasks_createTask h
  have hnamed : created.content.DatesInOrder ↔ ¬RoundedPast date timestamp3 none (some dto.startAt) (some dto.endAt) := by
    rw [TaskContent.DatesInOrder, hcreated]
    exact inOrder_named_iff rounding hchecked
  refine Iff.trans ⟨fun h => h created ?_, fun h row' hrow' => ?_⟩ hnamed
  · rw [hrows]
    exact List.mem_append_right _ (List.mem_singleton_self created)
  · rw [hrows] at hrow'
    rcases List.mem_append.mp hrow' with hrow' | hrow'
    · obtain ⟨row, hrow, rfl⟩ := List.mem_map.mp hrow'
      rw [hf]
      exact hordered row hrow
    · rw [List.mem_singleton.mp hrow']
      exact h

theorem datesInOrder_deleteTask {task : Task} (h : db.deleteTask actor id projectId = some (after, task))
    (hordered : db.DatesInOrder) : after.DatesInOrder := by
  obtain ⟨deleted, -, heq⟩ := Option.map_eq_some_iff.mp h
  obtain ⟨rfl, -⟩ := Prod.mk.inj heq
  intro row' hrow'
  rw [tasks_recordMachineAction, closeRankGap] at hrow'
  obtain ⟨row, hrow, rfl⟩ := List.mem_map.mp hrow'
  have hdates := hordered row (List.mem_of_mem_filter hrow)
  split <;> exact hdates

/-- A commit keeps all dates in order exactly if what it writes does not slip. -/
theorem Commit.datesInOrder_iff (h : Commit db randomUUID request progress effect) (hordered : db.DatesInOrder)
    (hchecked : ∀ existing, progress.readTask = some existing → request.DatesChecked existing) :
    effect.db.DatesInOrder ↔ ∀ existing, progress = .validated existing → ¬request.Slips db existing := by
  cases h with
  | @createAs projectId dto actor existing after hcreate =>
      have hdates := datesInOrder_createTask_iff existing hcreate hordered (hchecked existing rfl)
      exact hdates.trans ⟨fun h existing' hexisting => by cases hexisting; exact h, fun h => h existing rfl⟩
  | @move id dto projectId actor task after moved hmoving hmove =>
      obtain ⟨current, hfind, hmove⟩ := Option.bind_eq_some_iff.mp hmove
      obtain ⟨replaced, hreplace, heq⟩ := Option.map_eq_some_iff.mp hmove
      obtain rfl : current.id = id := by simpa using List.find?_some hfind
      obtain ⟨f, hrows, hf⟩ := moveRows_eq_map db.tasks current projectId dto.status dto.rank dto
      have hafter : after.tasks = db.tasks.map f := by
        rw [← (Prod.mk.inj heq).1, tasks_recordMachineAction, tasks_replaceForMachine hreplace, hrows]
      have hpatch := datesInOrder_patch_iff projectId actor hf hafter hordered (hchecked _ rfl task rfl)
      exact hpatch.trans ⟨fun h existing hexisting => by cases hexisting; exact h, fun h => h _ rfl⟩
  | @edit id dto projectId actor task after hmoving hupdate =>
      obtain ⟨current, hfind, hupdate⟩ := Option.bind_eq_some_iff.mp hupdate
      obtain ⟨replaced, hreplace, rfl⟩ := Option.map_eq_some_iff.mp hupdate
      have hcontent : ∀ row : TaskRow, (if row.id = id then { row with content := row.content.update dto } else row).content =
          if row.id = id then row.content.update dto else row.content := fun row => by split <;> rfl
      have hrows := (tasks_recordMachineAction replaced actor projectId id .UPDATE).trans (tasks_replaceForMachine hreplace)
      have hpatch := datesInOrder_patch_iff projectId actor hcontent hrows hordered (hchecked _ rfl task rfl)
      exact hpatch.trans ⟨fun h existing hexisting => by cases hexisting; exact h, fun h => h _ rfl⟩
  | @removeAs id projectId actor existing after deleted hdelete =>
      have hdates := datesInOrder_deleteTask hdelete hordered
      exact iff_of_true hdates fun existing' hexisting => by cases hexisting

/-! ### The steps of the service -/

namespace Service

/-- The step commits the transaction of its call. -/
def Commits (s : Service) (label : Label) : Prop :=
  ∃ t call afterwards id, s.step label = some t ∧ s.calls label.call = some call ∧
    t.calls label.call = some afterwards ∧ commitOf call.request call.progress afterwards.progress = some id

/-- The step does not commit what has slipped. -/
def NoSlip (s : Service) (label : Label) : Prop :=
  ∀ request existing, s.calls label.call = some ⟨request, .validated existing⟩ → s.Commits label →
    ¬request.Slips s.db existing

/-- Every call past its date check has dates that are in order with what it has read. -/
def DatesChecked (s : Service) : Prop :=
  ∀ id call existing, s.calls id = some call → call.progress.readTask = some existing → call.request.DatesChecked existing

variable {s t : Service} {label : Label}

theorem datesChecked_preserved : Runs.Preserved step DatesChecked := by
  intro s label t h hstep id call existing hcall hread
  by_cases hid : id = label.call
  · subst hid
    cases stepCases hstep with
    | starts hdb hnew hstarted =>
        obtain ⟨request, hstarted⟩ := hstarted
        cases hcall.symm.trans hstarted
        cases hread
    | fails hdb hbefore hfailed =>
        cases hcall.symm.trans hfailed
        cases hread
    | advances hadvance =>
        cases hcall.symm.trans hadvance.calls_self
        exact datesChecked_of_effect hadvance.heffect (h _ _ · hadvance.hcall) hread
  · rw [calls_of_ne hstep hid] at hcall
    exact h id call existing hcall hread

theorem datesInOrder_step_iff (hchecked : s.DatesChecked) (hordered : s.db.DatesInOrder) (hstep : s.step label = some t) :
    t.db.DatesInOrder ↔ s.NoSlip label := by
  cases stepCases hstep with
  | starts hdb hnew _ =>
      rw [hdb]
      exact iff_of_true hordered fun request existing hcall => by cases hnew.symm.trans hcall
  | @fails call hdb hcall hfailed =>
      rw [hdb]
      refine iff_of_true hordered fun request existing _ ⟨t', call', afterwards, id, hstep', hcall', hafter, hid⟩ => ?_
      cases hstep.symm.trans hstep'
      cases hcall.symm.trans hcall'
      cases hfailed.symm.trans hafter
      cases (commitOf_failed _ _).symm.trans hid
  | @advances randomUUID call effect hadvance =>
      rw [hadvance.db_eq]
      have hread := fun existing => hchecked _ _ existing hadvance.hcall
      rcases rests_or_commit hadvance.heffect with hrests | hcommit
      · rw [hrests.rows]
        refine iff_of_true hordered fun request existing _ ⟨t', call', afterwards, id, hstep', hcall', hafter, hid⟩ => ?_
        cases hstep.symm.trans hstep'
        cases hadvance.hcall.symm.trans hcall'
        cases hadvance.calls_self.symm.trans hafter
        cases hrests.progress.symm.trans hid
      · rw [hcommit.datesInOrder_iff hordered hread]
        constructor
        · intro h request existing hcall _
          cases hadvance.hcall.symm.trans hcall
          exact h existing rfl
        · intro h existing hvalidated
          obtain ⟨id, hid⟩ := hcommit.exists_commitOf
          refine h call.request existing ?_ ⟨t, call, _, id, hstep, hadvance.hcall, hadvance.calls_self, hid⟩
          rw [hadvance.hcall, ← hvalidated]

end Service

end Transcendence.Tasks
