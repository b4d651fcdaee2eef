import Transcendence.Tasks.Commits

/-!
# The audit of machine mutations

A machine's request commits its task, the assignees it sends and its audit row in one step, and no
other step of it changes the database. So the audit table of any run holds one row for each machine
mutation that has committed, in commit order, and nothing for a request that has failed before its
commit or for a human one.
-/

namespace Transcendence.Tasks

/-! ### What a mutation owes -/

def Request.action : Request → MachineTaskAction
  | .createAs .. => .CREATE
  | .updateAs .. => .UPDATE
  | .removeAs .. => .DELETE

/-- The audit rows of a mutation: one for a machine's, none for a human one. -/
def Request.auditRows (request : Request) (id : TaskId) : List MachineTaskActionAudit :=
  match request.actor with
  | .USER _ => []
  | .MACHINE tokenId => [⟨tokenId, request.projectId, id, request.action⟩]

/-- The task is created, patched or deleted. -/
def Request.TaskChange (before after : List TaskRow) (id : TaskId) : Request → Prop
  | .createAs projectId dto _ =>
      (∀ row ∈ before, row.id ≠ id) ∧
        ∃ row ∈ after, row.id = id ∧ row.projectId = projectId ∧ row.status = dto.status ∧ row.content = dto.content
  | .updateAs _ dto _ _ =>
      ∃ row ∈ before, row.id = id ∧ ∃ row' ∈ after, row'.id = id ∧ row'.content = row.content.update dto
  | .removeAs .. => (∃ row ∈ before, row.id = id) ∧ ∀ row ∈ after, row.id ≠ id

/-- The assignees after a machine's mutation: those it sends, or none for a task that is gone. -/
def Request.assigneesAfter (before : TaskId → List UserId) (id : TaskId) : Request → TaskId → List UserId
  | .createAs _ dto _ => dto.assigneeIds.elim before fun userIds => Function.update before id userIds
  | .updateAs _ dto _ _ => dto.assigneeIds.elim before fun userIds => Function.update before id userIds
  | .removeAs .. => Function.update before id []

structure CommitsTogether (before after : Database) (request : Request) (id : TaskId) : Prop where
  task : request.TaskChange before.tasks after.tasks id
  assignees : after.taskAssignees = request.assigneesAfter before.taskAssignees id
  audit : after.audit = before.audit ++ request.auditRows id

/-! ### The parts of a transaction -/

variable {db after : Database} {actor : TaskMutationActor} {projectId : ProjectId} {id randomUUID : TaskId}
  {tokenId : String}

theorem audit_recordMachineAction (request : Request) (db : Database) (id : TaskId) :
    (db.recordMachineAction request.actor request.projectId id request.action).audit =
      db.audit ++ request.auditRows id := by
  cases hactor : request.actor with
  | USER userId => simp only [Request.auditRows, hactor, Database.recordMachineAction, List.append_nil]
  | MACHINE tokenId => simp only [Request.auditRows, hactor, Database.recordMachineAction]

theorem taskAssignees_recordMachineAction (action : MachineTaskAction) :
    (db.recordMachineAction actor projectId id action).taskAssignees = db.taskAssignees := by
  cases actor <;> rfl

theorem audit_replaceForMachine {assigneeIds : Option (List UserId)}
    (h : db.replaceForMachine actor id projectId assigneeIds = some after) : after.audit = db.audit := by
  cases actor with
  | USER userId =>
      cases h
      rfl
  | MACHINE tokenId =>
      cases assigneeIds with
      | none =>
          cases h
          rfl
      | some userIds =>
          simp only [Database.replaceForMachine, Database.replaceAssigneesInTransaction] at h
          split at h
          · cases h
          · cases h
            rfl

theorem taskAssignees_replaceForMachine {assigneeIds : Option (List UserId)}
    (h : db.replaceForMachine (.MACHINE tokenId) id projectId assigneeIds = some after) :
    after.taskAssignees = assigneeIds.elim db.taskAssignees fun userIds => Function.update db.taskAssignees id userIds := by
  cases assigneeIds with
  | none =>
      cases h
      rfl
  | some userIds =>
      simp only [Database.replaceForMachine, Database.replaceAssigneesInTransaction] at h
      split at h
      · cases h
      · cases h
        rfl

/-- The row of the task among those `moveTask` leaves. -/
theorem exists_row_moveRows {tasks : List TaskRow} {current : TaskRow} {requestedStatus : Option TaskStatus}
    {wantedRank : Option Int} {dto : UpdateTaskDto} (hmem : current ∈ tasks) :
    ∃ row ∈ (moveRows tasks current projectId requestedStatus wantedRank dto).1,
      row.id = current.id ∧ row.content = current.content.update dto := by
  simp only [moveRows, openRankSlot, closeRankGap, List.map_map]
  refine ⟨_, List.mem_map_of_mem hmem, ?_⟩
  simp only [Function.comp_apply]
  split_ifs <;> simp_all

/-! ### The commit of each request -/

theorem commit_createAs {dto : CreateTaskDto} (h : db.createTask actor projectId dto randomUUID = some after) :
    (Request.createAs projectId dto actor).TaskChange db.tasks after.tasks randomUUID ∧
      after.audit = db.audit ++ (Request.createAs projectId dto actor).auditRows randomUUID := by
  rw [Database.createTask] at h
  split at h
  · cases h
  · next hfresh =>
      obtain ⟨replaced, hreplace, rfl⟩ := Option.map_eq_some_iff.mp h
      refine ⟨⟨fun row hrow hid => hfresh ?_, ?_⟩, ?_⟩
      · rw [Database.findTask, List.find?_isSome]
        exact ⟨row, hrow, decide_eq_true hid⟩
      · rw [tasks_recordMachineAction, tasks_replaceForMachine hreplace]
        exact ⟨_, List.mem_append_right _ List.mem_cons_self, rfl, rfl, rfl, rfl⟩
      · have haudit := audit_recordMachineAction (.createAs projectId dto actor) replaced randomUUID
        rw [audit_replaceForMachine hreplace] at haudit
        exact haudit

theorem commit_moveTask {dto : UpdateTaskDto} {moved : TaskMoved}
    (h : db.moveTask actor id projectId dto = some (after, moved)) :
    (Request.updateAs id dto projectId actor).TaskChange db.tasks after.tasks id ∧
      after.audit = db.audit ++ (Request.updateAs id dto projectId actor).auditRows id := by
  obtain ⟨current, hfind, h⟩ := Option.bind_eq_some_iff.mp h
  obtain ⟨replaced, hreplace, heq⟩ := Option.map_eq_some_iff.mp h
  have hmem := List.mem_of_find?_eq_some hfind
  obtain rfl : current.id = id := by simpa using List.find?_some hfind
  rw [← (Prod.mk.inj heq).1]
  constructor
  · rw [tasks_recordMachineAction, tasks_replaceForMachine hreplace]
    exact ⟨current, hmem, rfl, exists_row_moveRows hmem⟩
  · have haudit := audit_recordMachineAction (.updateAs current.id dto projectId actor) replaced current.id
    rw [audit_replaceForMachine hreplace] at haudit
    exact haudit

theorem commit_updateTask {dto : UpdateTaskDto} (h : db.updateTask actor id projectId dto = some after) :
    (Request.updateAs id dto projectId actor).TaskChange db.tasks after.tasks id ∧
      after.audit = db.audit ++ (Request.updateAs id dto projectId actor).auditRows id := by
  obtain ⟨current, hfind, h⟩ := Option.bind_eq_some_iff.mp h
  obtain ⟨replaced, hreplace, rfl⟩ := Option.map_eq_some_iff.mp h
  have hmem := List.mem_of_find?_eq_some hfind
  obtain rfl : current.id = id := by simpa using List.find?_some hfind
  constructor
  · rw [tasks_recordMachineAction, tasks_replaceForMachine hreplace]
    refine ⟨current, hmem, rfl, _, List.mem_map_of_mem hmem, ?_⟩
    rw [if_pos rfl]
    exact ⟨rfl, rfl⟩
  · have haudit := audit_recordMachineAction (.updateAs current.id dto projectId actor) replaced current.id
    rw [audit_replaceForMachine hreplace] at haudit
    exact haudit

theorem commit_deleteTask {task : Task} (h : db.deleteTask actor id projectId = some (after, task)) :
    (Request.removeAs id projectId actor).TaskChange db.tasks after.tasks id ∧
      after.audit = db.audit ++ (Request.removeAs id projectId actor).auditRows id := by
  obtain ⟨deleted, hfind, heq⟩ := Option.map_eq_some_iff.mp h
  obtain ⟨rfl, -⟩ := Prod.mk.inj heq
  have hmem := List.mem_of_find?_eq_some hfind
  obtain rfl : deleted.id = id := by simpa using List.find?_some hfind
  refine ⟨⟨⟨deleted, hmem, rfl⟩, fun row hrow hid => ?_⟩, audit_recordMachineAction (.removeAs deleted.id projectId actor) _ _⟩
  rw [tasks_recordMachineAction, closeRankGap] at hrow
  obtain ⟨old, hold, rfl⟩ := List.mem_map.mp hrow
  have hne := of_decide_eq_true (List.mem_filter.mp hold).2
  split at hid
  · exact hne hid
  · exact hne hid

variable {request : Request} {progress : Progress} {effect : Effect}

/-- A commit writes its audit rows, whoever makes it. -/
theorem Commit.audit_eq (h : Commit db randomUUID request progress effect) :
    ∃ id, commitOf request progress effect.progress = some id ∧ request.TaskChange db.tasks effect.db.tasks id ∧
      effect.db.audit = db.audit ++ request.auditRows id := by
  cases h with
  | createAs hcreate => exact ⟨randomUUID, rfl, commit_createAs hcreate⟩
  | @move id dto projectId actor existing after moved hmoving hmove => exact ⟨id, rfl, commit_moveTask hmove⟩
  | @edit id dto projectId actor existing after hmoving hupdate => exact ⟨id, rfl, commit_updateTask hupdate⟩
  | @removeAs id projectId actor existing after deleted hdelete => exact ⟨id, rfl, commit_deleteTask hdelete⟩

theorem Commit.taskAssignees_eq (h : Commit db randomUUID request progress effect)
    (hactor : request.actor = .MACHINE tokenId) (hid : commitOf request progress effect.progress = some id) :
    effect.db.taskAssignees = request.assigneesAfter db.taskAssignees id := by
  cases h with
  | createAs hcreate =>
      cases hid
      cases hactor
      rw [Database.createTask] at hcreate
      split at hcreate
      · cases hcreate
      · obtain ⟨replaced, hreplace, rfl⟩ := Option.map_eq_some_iff.mp hcreate
        have hassignees := taskAssignees_replaceForMachine hreplace
        exact (taskAssignees_recordMachineAction _).trans hassignees
  | move hmoving hmove =>
      cases hid
      cases hactor
      obtain ⟨current, -, hmove⟩ := Option.bind_eq_some_iff.mp hmove
      obtain ⟨replaced, hreplace, heq⟩ := Option.map_eq_some_iff.mp hmove
      rw [← (Prod.mk.inj heq).1]
      have hassignees := taskAssignees_replaceForMachine hreplace
      exact (taskAssignees_recordMachineAction _).trans hassignees
  | edit hmoving hupdate =>
      cases hid
      cases hactor
      obtain ⟨current, -, hupdate⟩ := Option.bind_eq_some_iff.mp hupdate
      obtain ⟨replaced, hreplace, rfl⟩ := Option.map_eq_some_iff.mp hupdate
      have hassignees := taskAssignees_replaceForMachine hreplace
      exact (taskAssignees_recordMachineAction _).trans hassignees
  | removeAs hdelete =>
      cases hid
      cases hactor
      obtain ⟨deleted, -, heq⟩ := Option.map_eq_some_iff.mp hdelete
      obtain ⟨rfl, -⟩ := Prod.mk.inj heq
      exact taskAssignees_recordMachineAction _

/-! ### A call commits once -/

/-- The call has not committed yet. -/
def Progress.isPending : Progress → Bool
  | .begun => true
  | .member => true
  | .existing _ => true
  | .categoryChecked _ => true
  | .validated _ => true
  | _ => false

theorem isPending_of_commitOf {before afterwards : Progress} (h : commitOf request before afterwards = some id) :
    before.isPending ∧ afterwards.isPending = false := by
  unfold commitOf at h
  split at h <;> first | exact ⟨rfl, rfl⟩ | cases h

theorem isPending_replaceAssignees (taskId : TaskId) (assigneeIds : Option (List UserId)) :
    (replaceAssignees db actor taskId projectId assigneeIds).progress.isPending = false := by
  rw [replaceAssignees.eq_def]
  split
  · split <;> rfl
  · rfl

theorem isPending_reread (taskId : TaskId) : (reread db taskId projectId).progress.isPending = false := by
  rw [reread]
  split <;> rfl

/-- What is past its commit stays so. -/
theorem isPending_of_effect (heffect : request.effect db randomUUID progress = some effect)
    (hprogress : progress.isPending = false) : effect.progress.isPending = false := by
  cases request with
  | createAs projectId dto actor =>
      cases progress with
      | committed taskId =>
          cases heffect
          exact isPending_replaceAssignees ..
      | assigned taskId =>
          cases heffect
          exact isPending_reread ..
      | reread task =>
          cases heffect
          rfl
      | begun | member | existing task | categoryChecked task | validated task => cases hprogress
      | _ => cases heffect
  | updateAs id dto projectId actor =>
      cases progress with
      | committed taskId =>
          cases heffect
          exact isPending_replaceAssignees ..
      | assigned taskId =>
          cases heffect
          exact isPending_reread ..
      | movedRow moved | reread task =>
          cases heffect
          rfl
      | begun | member | existing task | categoryChecked task | validated task => cases hprogress
      | _ => cases heffect
  | removeAs id projectId actor =>
      cases progress with
      | deletedRow deleted =>
          cases heffect
          rfl
      | begun | member | existing task | categoryChecked task | validated task => cases hprogress
      | _ => cases heffect

/-! ### Every run -/

namespace Service

/-- The audit rows of the mutation that the call commits between these states. -/
def rowsBetween (s t : Service) (id : CallId) : List (CallId × MachineTaskActionAudit) :=
  (s.calls id).elim [] fun before => (t.calls id).elim [] fun afterwards =>
    (commitOf before.request before.progress afterwards.progress).elim [] fun taskId =>
      (before.request.auditRows taskId).map fun row => (id, row)

/-- The audit rows of the machine mutations that the run commits, each with its call. -/
def committed (s : Service) : List Label → List (CallId × MachineTaskActionAudit)
  | [] => []
  | label :: labels => (s.step label).elim [] fun t => s.rowsBetween t label.call ++ t.committed labels

/-- The audit table has got one row for each machine mutation that has committed, and a call
commits at most one. -/
structure AuditedOnce (db : Database) (labels : List Label) (s : Service) : Prop where
  rows : s.db.audit = db.audit ++ ((initial db).committed labels).map Prod.snd
  once : (((initial db).committed labels).map Prod.fst).Nodup

/-- A step of a machine's request does nothing or commits all of its mutation; a human one writes no
audit row. -/
structure Atomic (s : Service) : Prop where
  machine : ∀ label t call tokenId, s.step label = some t → s.calls label.call = some call →
    call.request.actor = .MACHINE tokenId →
    (t.db = s.db ∧ s.rowsBetween t label.call = []) ∨ ∃ taskId, CommitsTogether s.db t.db call.request taskId ∧
      s.rowsBetween t label.call = (call.request.auditRows taskId).map fun row => (label.call, row)
  human : ∀ label t call userId, s.step label = some t → s.calls label.call = some call →
    call.request.actor = .USER userId → t.db.audit = s.db.audit

variable {s t : Service} {label : Label} {callId : CallId}

theorem committed_append {labels : List Label} {m : Service} (hrun : Runs.run step s labels = some m)
    (hstep : m.step label = some t) :
    s.committed (labels ++ [label]) = s.committed labels ++ m.rowsBetween t label.call := by
  induction labels generalizing s with
  | nil =>
      cases hrun
      simp only [List.nil_append, committed, hstep, Option.elim_some, List.append_nil]
  | cons first labels ih =>
      obtain ⟨n, hfirst, hrest⟩ := Runs.run_cons_eq_some.mp hrun
      rw [List.cons_append, committed, committed, hfirst, Option.elim_some, Option.elim_some, ih hrest, List.append_assoc]

theorem rowsBetween_of_none (hnew : s.calls callId = none) : s.rowsBetween t callId = [] := by
  rw [rowsBetween, hnew, Option.elim_none]

theorem rowsBetween_of_failed {call : Call} (hcall : s.calls callId = some call)
    (hfailed : t.calls callId = some { call with progress := .failed }) : s.rowsBetween t callId = [] := by
  rw [rowsBetween, hcall, hfailed, Option.elim_some, Option.elim_some, commitOf_failed, Option.elim_none]

theorem Advance.rowsBetween_eq {call : Call} (h : Advance s t callId randomUUID call effect) :
    s.rowsBetween t callId = (commitOf call.request call.progress effect.progress).elim [] fun taskId =>
      (call.request.auditRows taskId).map fun row => (callId, row) := by
  rw [rowsBetween, h.hcall, h.calls_self, Option.elim_some, Option.elim_some]

/-- A step writes the audit rows of the mutation it commits, and no others. -/
theorem audit_of_step (hstep : s.step label = some t) :
    t.db.audit = s.db.audit ++ (s.rowsBetween t label.call).map Prod.snd := by
  cases stepCases hstep with
  | starts hdb hnew _ => rw [hdb, rowsBetween_of_none hnew, List.map_nil, List.append_nil]
  | fails hdb hcall hfailed => rw [hdb, rowsBetween_of_failed hcall hfailed, List.map_nil, List.append_nil]
  | advances hadvance =>
      rw [hadvance.rowsBetween_eq, hadvance.db_eq]
      rcases rests_or_commit hadvance.heffect with hrests | hcommit
      · rw [hrests.progress, hrests.rows, Option.elim_none, List.map_nil, List.append_nil]
      · obtain ⟨taskId, hid, -, haudit⟩ := hcommit.audit_eq
        rw [hid, haudit, Option.elim_some, List.map_map]
        exact congrArg _ (List.map_id _).symm

theorem auditRows_of_user {request : Request} {userId : UserId} (hactor : request.actor = .USER userId) (taskId : TaskId) :
    request.auditRows taskId = [] := by
  rw [Request.auditRows, hactor]

theorem atomic (s : Service) : s.Atomic where
  machine label t call tokenId hstep hcall hactor := by
    cases stepCases hstep with
    | starts hdb hnew _ => cases hnew.symm.trans hcall
    | fails hdb hcall' hfailed =>
        cases hcall.symm.trans hcall'
        exact Or.inl ⟨hdb, rowsBetween_of_failed hcall hfailed⟩
    | advances hadvance =>
        cases hcall.symm.trans hadvance.hcall
        rw [hadvance.rowsBetween_eq, hadvance.db_eq]
        rcases rests_or_commit hadvance.heffect with hrests | hcommit
        · exact Or.inl ⟨hrests.machine tokenId hactor, by rw [hrests.progress, Option.elim_none]⟩
        · obtain ⟨taskId, hid, htask, haudit⟩ := hcommit.audit_eq
          exact Or.inr ⟨taskId, ⟨htask, hcommit.taskAssignees_eq hactor hid, haudit⟩, by rw [hid, Option.elim_some]⟩
  human label t call userId hstep hcall hactor := by
    have hrows : s.rowsBetween t label.call = [] := by
      cases stepCases hstep with
      | starts hdb hnew _ => exact rowsBetween_of_none hnew
      | fails hdb hcall' hfailed => exact rowsBetween_of_failed hcall' hfailed
      | advances hadvance =>
          cases hcall.symm.trans hadvance.hcall
          rw [hadvance.rowsBetween_eq]
          cases commitOf call.request call.progress _ with
          | none => rfl
          | some taskId => rw [Option.elim_some, auditRows_of_user hactor, List.map_nil]
    rw [audit_of_step hstep, hrows, List.map_nil, List.append_nil]

/-! ### No call is audited twice -/

/-- The call is past its commit. -/
def HasCommitted (s : Service) (id : CallId) : Prop := ∃ call, s.calls id = some call ∧ call.progress.isPending = false

theorem HasCommitted.step (h : s.HasCommitted callId) (hstep : s.step label = some t) : t.HasCommitted callId := by
  obtain ⟨call, hcall, hprogress⟩ := h
  by_cases hid : callId = label.call
  · subst hid
    cases stepCases hstep with
    | starts hdb hnew _ => cases hnew.symm.trans hcall
    | fails hdb hcall' hfailed => exact ⟨_, hfailed, rfl⟩
    | advances hadvance =>
        cases hcall.symm.trans hadvance.hcall
        exact ⟨_, hadvance.calls_self, isPending_of_effect hadvance.heffect hprogress⟩
  · exact ⟨call, by rw [calls_of_ne hstep hid, hcall], hprogress⟩

/-- A step that writes an audit row takes its call past its commit. -/
theorem hasCommitted_of_rowsBetween (hrows : s.rowsBetween t callId ≠ []) :
    ¬s.HasCommitted callId ∧ t.HasCommitted callId := by
  cases hbefore : s.calls callId with
  | none => exact absurd (rowsBetween_of_none hbefore) hrows
  | some before =>
      cases hafter : t.calls callId with
      | none =>
          rw [rowsBetween, hbefore, hafter] at hrows
          exact absurd rfl hrows
      | some afterwards =>
          cases hid : commitOf before.request before.progress afterwards.progress with
          | none =>
              rw [rowsBetween, hbefore, hafter, Option.elim_some, Option.elim_some, hid] at hrows
              exact absurd rfl hrows
          | some taskId =>
              obtain ⟨hpending, hcommitted⟩ := isPending_of_commitOf hid
              refine ⟨fun ⟨call, hcall, hprogress⟩ => ?_, afterwards, hafter, hcommitted⟩
              cases hbefore.symm.trans hcall
              rw [hpending] at hprogress
              cases hprogress

/-- A commit writes at most one audit row. -/
theorem fst_rowsBetween (s t : Service) (id : CallId) :
    (s.rowsBetween t id).map Prod.fst = [] ∨ (s.rowsBetween t id).map Prod.fst = [id] := by
  rw [rowsBetween]
  cases s.calls id with
  | none => exact Or.inl rfl
  | some before =>
      cases t.calls id with
      | none => exact Or.inl rfl
      | some afterwards =>
          rw [Option.elim_some, Option.elim_some]
          cases commitOf before.request before.progress afterwards.progress with
          | none => exact Or.inl rfl
          | some taskId =>
              rw [Option.elim_some, List.map_map, Request.auditRows.eq_def]
              split
              · exact Or.inl rfl
              · exact Or.inr rfl

/-- The calls audited so far are apart and past their commits. -/
structure AuditedCalls (ids : List CallId) (s : Service) : Prop where
  nodup : ids.Nodup
  hasCommitted : ∀ id ∈ ids, s.HasCommitted id

theorem AuditedCalls.step {ids : List CallId} (h : AuditedCalls ids s) (hstep : s.step label = some t) :
    AuditedCalls (ids ++ (s.rowsBetween t label.call).map Prod.fst) t := by
  have hbefore : ∀ id ∈ ids, t.HasCommitted id := fun id hid => (h.hasCommitted id hid).step hstep
  rcases fst_rowsBetween s t label.call with hnone | hone
  · rw [hnone, List.append_nil]
    exact ⟨h.nodup, hbefore⟩
  · have hrows : s.rowsBetween t label.call ≠ [] := by
      intro hnil
      rw [hnil] at hone
      cases hone
    obtain ⟨hpending, hcommitted⟩ := hasCommitted_of_rowsBetween hrows
    rw [hone]
    constructor
    · refine List.nodup_append.mpr ⟨h.nodup, List.nodup_singleton _, fun id hid other hother heq => hpending ?_⟩
      rw [← List.mem_singleton.mp hother, ← heq]
      exact h.hasCommitted id hid
    · intro id hid
      rcases List.mem_append.mp hid with hid | hid
      · exact hbefore id hid
      · rw [List.mem_singleton.mp hid]
        exact hcommitted

theorem auditedCalls {db : Database} {labels : List Label} (hrun : Runs.run step (initial db) labels = some s) :
    AuditedCalls (((initial db).committed labels).map Prod.fst) s := by
  refine Runs.run_induction (P := fun labels s => AuditedCalls (((initial db).committed labels).map Prod.fst) s) ?_ ?_ hrun
  · exact ⟨List.nodup_nil, fun id hid => by cases hid⟩
  · intro labels s label t hrun ih hstep
    rw [committed_append hrun hstep, List.map_append]
    exact ih.step hstep

theorem audit_of_run {db : Database} {labels : List Label} (hrun : Runs.run step (initial db) labels = some s) :
    s.db.audit = db.audit ++ ((initial db).committed labels).map Prod.snd := by
  refine Runs.run_induction
    (P := fun labels s => s.db.audit = db.audit ++ ((initial db).committed labels).map Prod.snd) ?_ ?_ hrun
  · exact (List.append_nil _).symm
  · intro labels s label t hrun ih hstep
    rw [committed_append hrun hstep, List.map_append, audit_of_step hstep, ih, List.append_assoc]

/-- For any calls by users and machines, in any interleaving, failing anywhere. -/
theorem audited (db : Database) (labels : List Label) (s : Service) (hrun : Runs.run step (initial db) labels = some s) :
    AuditedOnce db labels s ∧ s.Atomic :=
  ⟨⟨audit_of_run hrun, (auditedCalls hrun).nodup⟩, atomic s⟩

/-! A machine creates and moves a task, a user edits it, and another request of the machine fails. -/

def machineCalls : List Label :=
  Label.start 0 (.createAs "project" { card "task" with assigneeIds := some ["user"] } (.MACHINE "token")) ::
    (List.replicate 5 (.advance 0 "a") ++ List.replicate 3 (.advance 0 "b")) ++
  .start 1 (.updateAs "a" { status := some .REVIEW } "project" (.MACHINE "token")) ::
    List.replicate 5 (.advance 1 "b") ++
  .start 2 (.updateAs "a" { title := some "title" } "project" (.USER "user")) :: List.replicate 8 (.advance 2 "b") ++
  [.start 3 (.removeAs "a" "project" (.MACHINE "token")), .advance 3 "b", .advance 3 "b", .fail 3]

theorem audited_of_machineCalls : ∃ s, Runs.run step (initial emptyBoard) machineCalls = some s ∧
    s.db.audit = [⟨"token", "project", "a", .CREATE⟩, ⟨"token", "project", "a", .UPDATE⟩] ∧
    AuditedOnce emptyBoard machineCalls s ∧ s.Atomic := by
  have haudit : (Runs.run step (initial emptyBoard) machineCalls).map (·.db.audit) =
      some [⟨"token", "project", "a", .CREATE⟩, ⟨"token", "project", "a", .UPDATE⟩] := by decide +kernel
  obtain ⟨s, hrun, haudit⟩ := Option.map_eq_some_iff.mp haudit
  exact ⟨s, hrun, haudit, audited emptyBoard machineCalls s hrun⟩

end Service

end Transcendence.Tasks
