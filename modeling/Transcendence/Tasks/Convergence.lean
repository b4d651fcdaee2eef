import Transcendence.Tasks.BoardAgreement
import Transcendence.Tasks.UpdateCalls

/-!
# Open boards and concurrent updates

Updates commit in their transactions and emit afterwards, outside any lock, so events can be emitted
in another order than the commits and can carry what has been overwritten since. A client that
receives every event then keeps a board that is not the database's. It ends with the database's
board if every `task:moved` is emitted before those of later moves of the project, and every
`task:updated` carries the position the emitted moves have given the task, with fields that are
current or that another call on the task is still going to announce.
-/

namespace Transcendence.Tasks

open RankedColumns

/-! ### The board as announced -/

def announce (projectId : ProjectId) (columns : TaskStatus → List TaskId) : TaskEvent → TaskStatus → List TaskId
  | .moved payload =>
      if payload.projectId = projectId then moveItem columns payload.taskId payload.toStatus payload.toIndex.toNat
      else columns
  | _ => columns

/-- The columns of the project after the `task:moved` events emitted so far. -/
def announced (projectId : ProjectId) (db : Database) (events : List TaskEvent) : TaskStatus → List TaskId :=
  events.foldl (announce projectId) (arrangement (triples (db.board projectId)))

theorem announced_concat (projectId : ProjectId) (db : Database) (events : List TaskEvent) (event : TaskEvent) :
    announced projectId db (events ++ [event]) = announce projectId (announced projectId db events) event := by
  rw [announced, List.foldl_append]
  rfl

/-- The moves, made one after another, each to an index its column has. -/
inductive Announces : (TaskStatus → List TaskId) → List TaskMoved → (TaskStatus → List TaskId) → Prop where
  | nil (columns : TaskStatus → List TaskId) : Announces columns [] columns
  | cons {columns columns' : TaskStatus → List TaskId} {payload : TaskMoved} {moves : List TaskMoved} {n : Nat}
      {status : TaskStatus} (hmem : payload.taskId ∈ columns status) (hindex : payload.toIndex = n)
      (hn : n ≤ (eraseItem columns payload.taskId payload.toStatus).length)
      (hrest : Announces (moveItem columns payload.taskId payload.toStatus n) moves columns') :
      Announces columns (payload :: moves) columns'

theorem Announces.eq_of_nil {columns columns' : TaskStatus → List TaskId} (h : Announces columns [] columns') :
    columns = columns' := by
  cases h
  rfl

theorem Announces.append {columns columns' columns'' : TaskStatus → List TaskId} {moves later : List TaskMoved}
    (h : Announces columns moves columns') (h' : Announces columns' later columns'') :
    Announces columns (moves ++ later) columns'' := by
  induction h with
  | nil => exact h'
  | cons hmem hindex hn _ ih => exact .cons hmem hindex hn (ih h')

def Progress.move : Progress → Option TaskMoved
  | .movedRow moved => some moved
  | _ => none

namespace Service

/-! ### The calls that have something to announce -/

def ofProject (s : Service) (projectId : ProjectId) (id : CallId) : Bool :=
  (s.calls id).any (·.request.projectId = projectId)

/-- The calls whose move of a task of the project is committed and not emitted, in commit order. -/
def unannouncedOf (s : Service) (projectId : ProjectId) : List CallId := s.unannounced.filter (s.ofProject projectId)

def moveOf (s : Service) (id : CallId) : Option TaskMoved := (s.calls id).bind (·.progress.move)

/-- The committed moves of the project's tasks that these calls have not emitted. -/
def movesOf (s : Service) (projectId : ProjectId) (ids : List CallId) : List TaskMoved :=
  (ids.filter (s.ofProject projectId)).filterMap s.moveOf

/-- The call has committed an update of the task and not emitted its `task:updated`. -/
def Owes (s : Service) (taskId : TaskId) (id : CallId) : Prop :=
  ∃ dto projectId actor progress, s.calls id = some ⟨.updateAs taskId dto projectId actor, progress⟩ ∧ progress.owes

/-- Moves are emitted in the order of their commits, and an update is emitted while its payload is
in place. -/
def InOrder (projectId : ProjectId) (initialDb : Database) (s : Service) : Label → Prop
  | .advance id _ =>
      match s.calls id with
      | some ⟨.updateAs _ _ other _, .movedRow _⟩ => other = projectId → (s.unannouncedOf projectId).head? = some id
      | some ⟨.updateAs _ _ other _, .reread task⟩ => other = projectId →
          task.id ∈ announced projectId initialDb s.emitted task.status ∧
          task.rank = (announced projectId initialDb s.emitted task.status).idxOf task.id ∧
          (Current s.db task ∨ ∃ j, j ≠ id ∧ s.Owes task.id j)
      | _ => True
  | _ => True

/-- Only updates are called, and those that have committed are not cut off before they have emitted. -/
def OnlyUpdates (s : Service) : Label → Prop
  | .start _ request => ∃ taskId dto projectId actor, request = .updateAs taskId dto projectId actor
  | .advance .. => True
  | .fail id => ∀ call, s.calls id = some call → call.progress.owes = false

/-! ### The invariant -/

/-- The calls are updates, and those with an unannounced move are queued. -/
structure Tracked (s : Service) : Prop where
  calls : ∀ id call, s.calls id = some call → ∃ taskId dto projectId actor progress,
    call = ⟨.updateAs taskId dto projectId actor, progress⟩ ∧ UpdateCall s.db taskId dto projectId progress
  nodup : s.unannounced.Nodup
  unannounced : ∀ id, id ∈ s.unannounced ↔ (s.moveOf id).isSome

/-- The client has the board as announced, which the pending moves turn into the database's, and
where a field of a task is not the database's, a call still owes the update. -/
structure Synced (projectId : ProjectId) (initialDb : Database) (client : List Task) (s : Service) : Prop where
  columns : ∃ columns, Represents (positions s.db.tasks) columns ∧
    Announces (announced projectId initialDb s.emitted) (s.movesOf projectId s.unannounced)
      fun status => columns (projectId, status)
  board : Represents (triples (receiveAll projectId client s.emitted)) (announced projectId initialDb s.emitted)
  tasks : ∀ task ∈ receiveAll projectId client s.emitted, task.projectId = projectId ∧
    (task.id, projectId) ∈ identities s.db ∧ (Current s.db task ∨ ∃ id, s.Owes task.id id)

variable {projectId : ProjectId} {initialDb : Database} {client : List Task} {s t : Service} {id : CallId}

/-! ### How the pending moves change -/

theorem movesOf_congr {ids : List CallId} (hsame : ∀ other ∈ ids, t.calls other = s.calls other) :
    t.movesOf projectId ids = s.movesOf projectId ids := by
  rw [movesOf, movesOf, List.filter_congr fun other hother => by rw [ofProject, hsame other hother, ← ofProject]]
  refine List.filterMap_congr fun other hother => ?_
  rw [moveOf, moveOf, hsame other (List.mem_of_mem_filter hother)]

theorem movesOf_append (s : Service) (projectId : ProjectId) (ids later : List CallId) :
    s.movesOf projectId (ids ++ later) = s.movesOf projectId ids ++ s.movesOf projectId later := by
  rw [movesOf, List.filter_append, List.filterMap_append, movesOf, movesOf]

theorem movesOf_singleton {request : Request} {payload : TaskMoved}
    (hcall : s.calls id = some ⟨request, .movedRow payload⟩) :
    s.movesOf projectId [id] = if request.projectId = projectId then [payload] else [] := by
  have hproject : s.ofProject projectId id = decide (request.projectId = projectId) := by
    rw [ofProject, hcall, Option.any_some]
  have hpayload : s.moveOf id = some payload := by
    rw [moveOf, hcall]
    rfl
  rw [movesOf, List.filter_singleton, hproject]
  by_cases heq : request.projectId = projectId
  · simp [heq, hpayload]
  · simp [heq]

theorem movesOf_erase_of_ne {ids : List CallId} (hproject : s.ofProject projectId id = false) :
    s.movesOf projectId (ids.erase id) = s.movesOf projectId ids := by
  induction ids with
  | nil => rfl
  | cons other ids ih =>
      by_cases heq : other = id
      · subst heq
        rw [List.erase_cons_head, movesOf, movesOf, List.filter_cons_of_neg (by simp [hproject])]
      · rw [List.erase_cons_tail (by simpa using heq), ← List.singleton_append, ← List.singleton_append (l := ids),
          movesOf_append, movesOf_append, ih]

theorem movesOf_erase_head {ids : List CallId} (hhead : (ids.filter (s.ofProject projectId)).head? = some id)
    {payload : TaskMoved} (hpayload : s.moveOf id = some payload) :
    s.movesOf projectId ids = payload :: s.movesOf projectId (ids.erase id) := by
  induction ids with
  | nil => cases hhead
  | cons other ids ih =>
      by_cases heq : other = id
      · subst heq
        have hproject : s.ofProject projectId other := by
          have hmem := List.mem_of_mem_head? (Option.mem_def.mpr hhead)
          exact (List.mem_filter.mp hmem).2
        rw [List.erase_cons_head, movesOf, List.filter_cons_of_pos hproject, List.filterMap_cons_some hpayload, ← movesOf]
      · have hother : s.ofProject projectId other = false := by
          by_contra hproject
          rw [List.filter_cons_of_pos (by simpa using hproject)] at hhead
          exact heq (Option.some.inj hhead)
        rw [List.filter_cons_of_neg (by simp [hother])] at hhead
        rw [List.erase_cons_tail (by simpa using heq), movesOf, List.filter_cons_of_neg (by simp [hother]), ← movesOf,
          ih hhead, movesOf, movesOf, List.filter_cons_of_neg (by simp [hother])]

/-! ### The steps of a call -/

section Steps

variable {taskId : TaskId} {dto : UpdateTaskDto} {other : ProjectId} {actor : TaskMutationActor} {progress : Progress}
  {effect : Effect} {randomUUID : TaskId}

theorem Advance.calls_of_ne {call : Call} (h : Advance s t id randomUUID call effect) {j : CallId} (hne : j ≠ id) :
    t.calls j = s.calls j := by
  rw [h.next]
  exact Function.update_of_ne hne _ _

theorem Advance.emitted_eq {call : Call} (h : Advance s t id randomUUID call effect) :
    t.emitted = s.emitted ++ effect.emitted := by
  rw [h.next]
  rfl

theorem Advance.unannounced_eq {call : Call} (h : Advance s t id randomUUID call effect) :
    t.unannounced = queueMove s.unannounced id call.progress effect.progress := by
  rw [h.next]
  rfl

theorem move_eq_none_of_not_owes (h : progress.owes = false) : progress.move = none := by
  cases progress <;> first | rfl | cases h

theorem queueMove_of_move_eq_none {ids : List CallId} {progress' : Progress} (h : progress.move = none)
    (h' : progress'.move = none) : queueMove ids id progress progress' = ids := by
  cases progress with
  | movedRow moved => cases h
  | _ =>
      cases progress' with
      | movedRow moved => cases h'
      | _ => rfl

/-- The queue holds exactly the calls whose move is committed and not emitted. -/
theorem mem_queueMove {ids : List CallId} (hstep : UpdateStep s.db taskId dto other actor progress effect)
    (hnodup : ids.Nodup) (hid : id ∈ ids ↔ progress.move.isSome) :
    (queueMove ids id progress effect.progress).Nodup ∧
      ∀ j, j ∈ queueMove ids id progress effect.progress ↔ if j = id then effect.progress.move.isSome = true else j ∈ ids := by
  have hkeep : progress.move = none → effect.progress.move = none →
      (queueMove ids id progress effect.progress).Nodup ∧ ∀ j,
        j ∈ queueMove ids id progress effect.progress ↔ if j = id then effect.progress.move.isSome = true else j ∈ ids := by
    intro hnone hnone'
    rw [queueMove_of_move_eq_none hnone hnone', hnone']
    refine ⟨hnodup, fun j => ?_⟩
    split
    · rename_i heq
      rw [heq, hid, hnone]
    · rfl
  cases hstep with
  | quiet hprogress hprogress' hcall =>
      exact hkeep (move_eq_none_of_not_owes hprogress) (move_eq_none_of_not_owes hprogress')
  | move hmove =>
      have hnot : id ∉ ids := fun hmem => by cases hid.mp hmem
      refine ⟨List.nodup_append.mpr ⟨hnodup, List.nodup_singleton _, ?_⟩, fun j => ?_⟩
      · rintro a ha b hb rfl
        exact hnot (List.mem_singleton.mp hb ▸ ha)
      · rw [queueMove, List.mem_append, List.mem_singleton]
        split
        · rename_i heq
          exact iff_of_true (Or.inr heq) rfl
        · rename_i hne
          exact or_iff_left hne
        · intro moved heq
          cases heq
  | announce payload =>
      refine ⟨hnodup.erase id, fun j => ?_⟩
      rw [queueMove, hnodup.mem_erase_iff]
      split
      · rename_i heq
        exact iff_of_false (fun hand => hand.1 heq) Bool.false_ne_true
      · rename_i hne
        exact and_iff_right hne
  | edit | assign | read | update => exact hkeep rfl rfl

theorem Tracked.updateStep (h : s.Tracked)
    (hadvance : Advance s t id randomUUID ⟨.updateAs taskId dto other actor, progress⟩ effect) :
    UpdateCall s.db taskId dto other progress ∧ UpdateStep s.db taskId dto other actor progress effect := by
  obtain ⟨taskId', dto', other', actor', progress', heq, hcall⟩ := h.calls id _ hadvance.hcall
  cases heq
  exact ⟨hcall, hcall.step hadvance.heffect⟩

theorem Tracked.advance (h : s.Tracked)
    (hadvance : Advance s t id randomUUID ⟨.updateAs taskId dto other actor, progress⟩ effect) : t.Tracked := by
  obtain ⟨hcall, hstep⟩ := h.updateStep hadvance
  have hid : id ∈ s.unannounced ↔ progress.move.isSome := by
    rw [h.unannounced, moveOf, hadvance.hcall, Option.bind_some]
  obtain ⟨hnodup, hmem⟩ := mem_queueMove hstep h.nodup hid
  refine ⟨fun j call hj => ?_, ?_, fun j => ?_⟩
  · rw [hadvance.db_eq]
    by_cases heq : j = id
    · subst heq
      rw [hadvance.calls_self] at hj
      cases hj
      exact ⟨taskId, dto, other, actor, effect.progress, rfl, hcall.next hstep⟩
    · rw [hadvance.calls_of_ne heq] at hj
      obtain ⟨taskId', dto', other', actor', progress', rfl, hcall'⟩ := h.calls j call hj
      exact ⟨taskId', dto', other', actor', progress', rfl, hcall'.keep hstep.onlyTask⟩
  · rw [hadvance.unannounced_eq]
    exact hnodup
  · rw [hadvance.unannounced_eq]
    refine (hmem j).trans ?_
    split
    · rename_i heq
      rw [heq, moveOf, hadvance.calls_self]
      rfl
    · rename_i hne
      rw [h.unannounced, moveOf, moveOf, hadvance.calls_of_ne hne]

theorem Owes.advance {task : TaskId} {j : CallId} {call : Call} (h : s.Owes task j)
    (hadvance : Advance s t id randomUUID call effect) (hne : j ≠ id) : t.Owes task j := by
  obtain ⟨dto, projectId, actor, progress, hcall, howes⟩ := h
  exact ⟨dto, projectId, actor, progress, (hadvance.calls_of_ne hne).trans hcall, howes⟩

/-- A task keeps its place in the invariant if the step leaves its call with the update to emit, or
does nothing at all. -/
theorem fields_advance (hadvance : Advance s t id randomUUID ⟨.updateAs taskId dto other actor, progress⟩ effect)
    (honly : OnlyTask s.db effect.db taskId)
    (howes : effect.progress.owes ∨ progress.owes = false ∧ effect.db = s.db) {task : Task}
    (hfields : Current s.db task ∨ ∃ j, s.Owes task.id j) : Current t.db task ∨ ∃ j, t.Owes task.id j := by
  rw [hadvance.db_eq]
  rcases howes with howes | ⟨hnot, hdb⟩
  · by_cases heq : task.id = taskId
    · exact Or.inr ⟨id, dto, other, actor, effect.progress, heq ▸ hadvance.calls_self, howes⟩
    · refine hfields.imp (fun hcurrent => honly.current hcurrent heq) fun ⟨j, howed⟩ => ⟨j, howed.advance hadvance ?_⟩
      rintro rfl
      obtain ⟨_, _, _, _, hcall, -⟩ := howed
      cases hadvance.hcall.symm.trans hcall
      exact heq rfl
  · rw [hdb]
    refine hfields.imp_right fun ⟨j, howed⟩ => ⟨j, howed.advance hadvance ?_⟩
    rintro rfl
    obtain ⟨_, _, _, _, hcall, howes⟩ := howed
    cases hadvance.hcall.symm.trans hcall
    rw [hnot] at howes
    cases howes

/-- A step that emits nothing and moves nothing. -/
theorem Synced.silent (h : s.Synced projectId initialDb client) (htracked : s.Tracked)
    (hadvance : Advance s t id randomUUID ⟨.updateAs taskId dto other actor, progress⟩ effect)
    (honly : OnlyTask s.db effect.db taskId)
    (howes : effect.progress.owes ∨ progress.owes = false ∧ effect.db = s.db)
    (hpositions : positions effect.db.tasks = positions s.db.tasks) (hemitted : effect.emitted = [])
    (hmove : progress.move = none) (hmove' : effect.progress.move = none) : t.Synced projectId initialDb client := by
  have hunannounced : t.unannounced = s.unannounced := by
    rw [hadvance.unannounced_eq]
    exact queueMove_of_move_eq_none hmove hmove'
  have hnot : id ∉ s.unannounced := by
    rw [htracked.unannounced, moveOf, hadvance.hcall, Option.bind_some, hmove]
    exact Bool.false_ne_true
  have hevents : t.emitted = s.emitted := by rw [hadvance.emitted_eq, hemitted, List.append_nil]
  have hmoves : t.movesOf projectId t.unannounced = s.movesOf projectId s.unannounced := by
    rw [hunannounced]
    exact movesOf_congr fun j hj => hadvance.calls_of_ne fun heq => hnot (heq ▸ hj)
  refine ⟨?_, ?_, ?_⟩
  · rw [hevents, hmoves, hadvance.db_eq, hpositions]
    exact h.columns
  · rw [hevents]
    exact h.board
  · rw [hevents]
    intro task htask
    obtain ⟨hproject, hidentity, hfields⟩ := h.tasks task htask
    refine ⟨hproject, ?_, fields_advance hadvance honly howes hfields⟩
    rw [hadvance.db_eq, honly.identities_eq]
    exact hidentity

theorem project_of_identity {db : Database} {columns : Columns} (h : Represents (positions db.tasks) columns)
    (hidentity : (taskId, other) ∈ identities db) {row : TaskRow} (hrow : row ∈ db.tasks) (hid : row.id = taskId) :
    row.projectId = other := by
  obtain ⟨row', hrow', hid', hproject⟩ := exists_row_of_identity hidentity
  have heq := eq_of_id_eq h.ids (mem_positions hrow) (mem_positions hrow') (hid.trans hid'.symm)
  exact (congrArg (fun p => p.column.1) heq).trans hproject

theorem Synced.move (h : s.Synced projectId initialDb client) (htracked : s.Tracked) {existing : Option Task}
    {after : Database} {payload : TaskMoved}
    (hadvance : Advance s t id randomUUID ⟨.updateAs taskId dto other actor, .validated existing⟩
      ⟨after, .movedRow payload, []⟩)
    (hidentity : (taskId, other) ∈ identities s.db)
    (hmove : s.db.moveTask actor taskId other dto = some (after, payload)) : t.Synced projectId initialDb client := by
  have honly := onlyTask_moveTask hmove
  have hevents : t.emitted = s.emitted := by rw [hadvance.emitted_eq, List.append_nil]
  have hnot : id ∉ s.unannounced := by
    rw [htracked.unannounced, moveOf, hadvance.hcall]
    exact Bool.false_ne_true
  have hmoves : t.movesOf projectId t.unannounced =
      s.movesOf projectId s.unannounced ++ if other = projectId then [payload] else [] := by
    rw [hadvance.unannounced_eq]
    refine (movesOf_append t projectId s.unannounced [id]).trans ?_
    rw [movesOf_singleton hadvance.calls_self]
    congr 1
    exact movesOf_congr fun j hj => hadvance.calls_of_ne fun heq => hnot (heq ▸ hj)
  refine ⟨?_, ?_, ?_⟩
  · obtain ⟨columns, hserver, hpending⟩ := h.columns
    obtain ⟨n, hpayload, -, hn, hmoved⟩ := represents_moveTask hserver
      (fun row hrow hid => project_of_identity hserver hidentity hrow hid) hmove
    rw [hevents, hmoves, hadvance.db_eq]
    refine ⟨_, hmoved, ?_⟩
    obtain ⟨row, hrow, rfl, rfl⟩ := exists_row_of_identity hidentity
    by_cases hother : row.projectId = projectId
    · subst hother
      rw [if_pos rfl, moveItem_project]
      have hmem : row.id ∈ columns (row.projectId, row.status) := (hserver.rank _ (mem_positions hrow)).1
      refine hpending.append ?_
      rw [hpayload]
      exact .cons hmem rfl hn (.nil _)
    · have hsame : (fun status => moveItem columns row.id (row.projectId, payload.toStatus) n (projectId, status)) =
          fun status => columns (projectId, status) := by
        funext status
        rw [moveItem_of_ne _ _ _ fun heq => hother (Prod.mk.inj heq).1.symm]
        refine eraseItem_of_not_mem fun hmem => hother ?_
        exact congrArg Prod.fst (hserver.column_eq (mem_positions hrow) hmem)
      rw [if_neg hother, List.append_nil, hsame]
      exact hpending
  · rw [hevents]
    exact h.board
  · rw [hevents]
    intro task htask
    obtain ⟨hproject, hid, hfields⟩ := h.tasks task htask
    refine ⟨hproject, ?_, fields_advance hadvance honly (Or.inl rfl) hfields⟩
    rw [hadvance.db_eq, honly.identities_eq]
    exact hid

theorem Synced.announce (h : s.Synced projectId initialDb client) {payload : TaskMoved}
    (hadvance : Advance s t id randomUUID ⟨.updateAs taskId dto other actor, .movedRow payload⟩
      ⟨s.db, .committed taskId, [.moved payload]⟩)
    (honTask : payload.taskId = taskId ∧ payload.projectId = other) (hnodup : s.unannounced.Nodup)
    (horder : other = projectId → (s.unannouncedOf projectId).head? = some id) : t.Synced projectId initialDb client := by
  obtain ⟨rfl, rfl⟩ := honTask
  have hmoves : t.movesOf projectId t.unannounced = s.movesOf projectId (s.unannounced.erase id) := by
    rw [hadvance.unannounced_eq]
    exact movesOf_congr fun j hj => hadvance.calls_of_ne (hnodup.mem_erase_iff.mp hj).1
  have hreceived : receiveAll projectId client t.emitted =
      receive projectId (receiveAll projectId client s.emitted) (.moved payload) := by
    rw [hadvance.emitted_eq, receiveAll_append]
    rfl
  obtain ⟨columns, hserver, hpending⟩ := h.columns
  have hstep : Announces (announced projectId initialDb t.emitted) (s.movesOf projectId (s.unannounced.erase id))
        (fun status => columns (projectId, status)) ∧
      Represents (triples (receiveAll projectId client t.emitted)) (announced projectId initialDb t.emitted) := by
    rw [hreceived, hadvance.emitted_eq, announced_concat, announce]
    by_cases hother : payload.projectId = projectId
    · have hpayload : s.moveOf id = some payload := by
        rw [moveOf, hadvance.hcall]
        rfl
      rw [movesOf_erase_head (horder hother) hpayload] at hpending
      rw [if_pos hother, ← hother]
      cases hpending with
      | cons hmem hindex hn hrest =>
          rw [hindex, Int.toNat_natCast]
          rw [← hother] at hmem hn hrest
          exact ⟨hrest, receive_moved (hother ▸ h.board) hmem hindex hn⟩
    · have hproject : s.ofProject projectId id = false := by
        rw [ofProject, hadvance.hcall]
        exact decide_eq_false hother
      rw [if_neg hother, movesOf_erase_of_ne hproject, receive_of_ne _ (.moved payload) hother]
      exact ⟨hpending, h.board⟩
  refine ⟨⟨columns, ?_, ?_⟩, hstep.2, ?_⟩
  · rwa [hadvance.db_eq]
  · rw [hmoves]
    exact hstep.1
  · rw [hreceived]
    intro task htask
    obtain ⟨old, hold, hid, hproject, hcontent, hassignees⟩ := receive_moved_keeps htask
    obtain ⟨hproject', hidentity, hfields⟩ := h.tasks old hold
    rw [hid] at hidentity
    refine ⟨hproject ▸ hproject', hadvance.db_eq ▸ hidentity, ?_⟩
    refine fields_advance hadvance ⟨.refl _ _, rfl, fun _ _ => rfl⟩ (Or.inl rfl) ?_
    rwa [Current, hid, hcontent, hassignees] at hfields

theorem Synced.update (h : s.Synced projectId initialDb client) (htracked : s.Tracked) {payload : Task}
    (hadvance : Advance s t id randomUUID ⟨.updateAs taskId dto other actor, .reread payload⟩
      ⟨s.db, .finished payload, [.updated taskId other payload]⟩)
    (honTask : payload.id = taskId ∧ payload.projectId = other) (hidentity : (taskId, other) ∈ identities s.db)
    (horder : other = projectId → payload.id ∈ announced projectId initialDb s.emitted payload.status ∧
      payload.rank = (announced projectId initialDb s.emitted payload.status).idxOf payload.id ∧
      (Current s.db payload ∨ ∃ j, j ≠ id ∧ s.Owes payload.id j)) : t.Synced projectId initialDb client := by
  have hevents := hadvance.emitted_eq
  have hunannounced : t.unannounced = s.unannounced := hadvance.unannounced_eq
  have hnot : id ∉ s.unannounced := by
    rw [htracked.unannounced, moveOf, hadvance.hcall]
    exact Bool.false_ne_true
  have hmoves : t.movesOf projectId t.unannounced = s.movesOf projectId s.unannounced := by
    rw [hunannounced]
    exact movesOf_congr fun j hj => hadvance.calls_of_ne fun heq => hnot (heq ▸ hj)
  have hannounced : announced projectId initialDb t.emitted = announced projectId initialDb s.emitted := by
    rw [hevents, announced_concat]
    rfl
  have hreceived : receiveAll projectId client t.emitted =
      receive projectId (receiveAll projectId client s.emitted) (.updated taskId other payload) := by
    rw [hevents, receiveAll_append]
    rfl
  -- a task other than the payload's keeps its fields, and the calls that owe it an update
  have hothers : ∀ task ∈ receiveAll projectId client s.emitted, task.id ≠ taskId → task.projectId = projectId ∧
      (task.id, projectId) ∈ identities t.db ∧ (Current t.db task ∨ ∃ j, t.Owes task.id j) := by
    intro task htask hne
    obtain ⟨hproject, hid, hfields⟩ := h.tasks task htask
    rw [hadvance.db_eq]
    refine ⟨hproject, hid, hfields.imp_right fun ⟨j, howed⟩ => ⟨j, howed.advance hadvance ?_⟩⟩
    rintro rfl
    obtain ⟨_, _, _, _, hcall, -⟩ := howed
    cases hadvance.hcall.symm.trans hcall
    exact hne rfl
  obtain ⟨rfl, rfl⟩ := honTask
  obtain ⟨columns, hserver, hpending⟩ := h.columns
  refine ⟨⟨columns, ?_, ?_⟩, ?_, ?_⟩
  · rwa [hadvance.db_eq]
  · rwa [hannounced, hmoves]
  · rw [hannounced, hreceived]
    by_cases hother : payload.projectId = projectId
    · obtain ⟨hmem, hrank, -⟩ := horder hother
      rw [hother, triples_receive_updated h.board projectId hmem hrank]
      exact h.board
    · rw [receive_of_ne _ (.updated payload.id payload.projectId payload) hother]
      exact h.board
  · rw [hreceived]
    intro task htask
    by_cases hother : payload.projectId = projectId
    · obtain ⟨hmem, hrank, hfields⟩ := horder hother
      rw [hother] at htask hidentity
      rcases receive_updated_keeps h.board hmem htask with rfl | ⟨hne, hold⟩
      · rw [hadvance.db_eq]
        exact ⟨hother, hidentity, hfields.imp_right fun ⟨j, hne, howed⟩ => ⟨j, howed.advance hadvance hne⟩⟩
      · exact hothers task hold hne
    · rw [receive_of_ne _ (.updated payload.id payload.projectId payload) hother] at htask
      refine hothers task htask fun heq => hother ?_
      obtain ⟨row, hrow, hid, hproject⟩ := exists_row_of_identity hidentity
      rw [← hproject]
      exact project_of_identity hserver (heq ▸ (h.tasks task htask).2.1) hrow hid

theorem Synced.advance (h : s.Synced projectId initialDb client) (htracked : s.Tracked)
    (hadvance : Advance s t id randomUUID ⟨.updateAs taskId dto other actor, progress⟩ effect)
    (horder : InOrder projectId initialDb s (.advance id randomUUID)) : t.Synced projectId initialDb client := by
  obtain ⟨hcall, hstep⟩ := htracked.updateStep hadvance
  have honly := hstep.onlyTask
  rw [InOrder, hadvance.hcall] at horder
  cases hstep with
  | quiet hprogress hprogress' =>
      exact h.silent htracked hadvance honly (Or.inr ⟨hprogress, rfl⟩) rfl rfl (move_eq_none_of_not_owes hprogress)
        (move_eq_none_of_not_owes hprogress')
  | move hmove => exact h.move htracked hadvance (hcall.identity rfl) hmove
  | edit hedit => exact h.silent htracked hadvance honly (Or.inl rfl) (positions_updateTask hedit) rfl rfl rfl
  | announce payload => exact h.announce hadvance hcall.onTask htracked.nodup horder
  | assign htasks => exact h.silent htracked hadvance honly (Or.inl rfl) (congrArg positions htasks) rfl rfl rfl
  | read hfind => exact h.silent htracked hadvance honly (Or.inl rfl) rfl rfl rfl rfl
  | update payload => exact h.update htracked hadvance hcall.onTask (hcall.identity rfl) horder

end Steps

/-- A call starts, or fails before it has committed. -/
theorem synced_of_idle (h : s.Synced projectId initialDb client) (htracked : s.Tracked) {call : Call}
    (hcall : ∃ taskId dto projectId actor progress, call = ⟨.updateAs taskId dto projectId actor, progress⟩ ∧
      UpdateCall s.db taskId dto projectId progress)
    (howes : call.progress.owes = false) (hbefore : ∀ task, ¬ s.Owes task id) (hnot : id ∉ s.unannounced) :
    (s.setCall id call).Tracked ∧ (s.setCall id call).Synced projectId initialDb client := by
  have hself : (s.setCall id call).calls id = some call := Function.update_self ..
  have hne : ∀ j, j ≠ id → (s.setCall id call).calls j = s.calls j := fun j hj => Function.update_of_ne hj _ _
  have hmoves : (s.setCall id call).movesOf projectId s.unannounced = s.movesOf projectId s.unannounced :=
    movesOf_congr fun j hj => hne j fun heq => hnot (heq ▸ hj)
  refine ⟨⟨fun j other hj => ?_, htracked.nodup, fun j => ?_⟩, ⟨?_, h.board, fun task htask => ?_⟩⟩
  · by_cases heq : j = id
    · subst heq
      cases hself.symm.trans hj
      exact hcall
    · exact htracked.calls j other ((hne j heq).symm.trans hj)
  · by_cases heq : j = id
    · subst heq
      refine iff_of_false hnot ?_
      rw [moveOf, hself, Option.bind_some, move_eq_none_of_not_owes howes]
      exact Bool.false_ne_true
    · rw [moveOf, hne j heq, ← moveOf]
      exact htracked.unannounced j
  · obtain ⟨columns, hserver, hpending⟩ := h.columns
    exact ⟨columns, hserver, hmoves.symm ▸ hpending⟩
  · obtain ⟨hproject, hidentity, hfields⟩ := h.tasks task htask
    refine ⟨hproject, hidentity, hfields.imp_right fun ⟨j, dto, other, actor, progress, hj, howed⟩ => ?_⟩
    have hjd : j ≠ id := by
      rintro rfl
      exact hbefore _ ⟨dto, other, actor, progress, hj, howed⟩
    exact ⟨j, dto, other, actor, progress, (hne j hjd).trans hj, howed⟩

theorem synced_step (h : s.Tracked ∧ s.Synced projectId initialDb client) {label : Label}
    (hcondition : s.OnlyUpdates label ∧ InOrder projectId initialDb s label) (hstep : step s label = some t) :
    t.Tracked ∧ t.Synced projectId initialDb client := by
  obtain ⟨htracked, hsynced⟩ := h
  cases label with
  | start id request =>
      obtain ⟨⟨taskId, dto, other, actor, rfl⟩, -⟩ := hcondition
      simp only [step, start] at hstep
      split at hstep
      · cases hstep
      · rename_i hfree
        cases hstep
        have hnone : s.calls id = none := by simpa using hfree
        refine synced_of_idle hsynced htracked ⟨taskId, dto, other, actor, .begun, rfl, ?_⟩ rfl ?_ ?_
        · exact ⟨fun hknows => (by cases hknows), fun hchecked => (by cases hchecked), trivial⟩
        · rintro task ⟨_, _, _, _, hsome, -⟩
          cases hnone.symm.trans hsome
        · rw [htracked.unannounced, moveOf, hnone]
          exact Bool.false_ne_true
  | advance id randomUUID =>
      obtain ⟨call, effect, hadvance⟩ := exists_advance hstep
      obtain ⟨taskId, dto, other, actor, progress, rfl, -⟩ := htracked.calls id call hadvance.hcall
      exact ⟨htracked.advance hadvance, hsynced.advance htracked hadvance hcondition.2⟩
  | fail id =>
      obtain ⟨call, hcall, rfl⟩ := exists_fail hstep
      have howes := hcondition.1 call hcall
      obtain ⟨taskId, dto, other, actor, progress, rfl, hupdate⟩ := htracked.calls id call hcall
      have hnot : id ∉ s.unannounced := by
        rw [htracked.unannounced, moveOf, hcall, Option.bind_some, move_eq_none_of_not_owes howes]
        exact Bool.false_ne_true
      rw [List.erase_of_not_mem hnot]
      refine synced_of_idle hsynced htracked ⟨taskId, dto, other, actor, .failed, rfl, updateCall_failed ..⟩ rfl ?_ hnot
      rintro task ⟨_, _, _, _, hsome, howed⟩
      cases hcall.symm.trans hsome
      rw [howes] at howed
      cases howed

/-! ### Runs -/

theorem tracked_initial (db : Database) : (initial db).Tracked where
  calls _ _ hcall := by cases hcall
  nodup := List.nodup_nil
  unannounced _ := iff_of_false List.not_mem_nil Bool.false_ne_true

theorem synced_initial {db : Database} (hids : (db.tasks.map (·.id)).Nodup) (hdense : Dense (positions db.tasks))
    (hclient : client.Perm (db.board projectId)) : (initial db).Synced projectId db client := by
  have hserver : Represents (positions db.tasks) (arrangement (positions db.tasks)) :=
    hdense.represents (by rwa [positions, List.map_map])
  have hboard := represents_board hserver projectId
  have hcolumns : announced projectId db [] = fun status => arrangement (positions db.tasks) (projectId, status) :=
    funext fun status => hboard.arrangement_eq status
  refine ⟨⟨_, hserver, ?_⟩, ?_, fun task htask => ?_⟩
  · change Announces (announced projectId db []) [] _
    rw [hcolumns]
    exact .nil _
  · change Represents (triples client) (announced projectId db [])
    rw [hcolumns]
    exact hboard.perm (hclient.map _)
  · obtain ⟨row, hrow, rfl⟩ := List.mem_map.mp (hclient.mem_iff.mp htask)
    obtain ⟨hmem, hproject⟩ := List.mem_filter.mp hrow
    obtain rfl : row.projectId = projectId := of_decide_eq_true hproject
    exact ⟨rfl, List.mem_map_of_mem hmem, Or.inl ⟨row, hmem, rfl, rfl, rfl⟩⟩

/-- When nothing is owed any more the client has the database's board. -/
theorem Synced.perm_board (h : s.Synced projectId initialDb client) (hnone : s.unannounced = [])
    (howes : ∀ task id, ¬ s.Owes task id) :
    (receiveAll projectId client s.emitted).Perm (s.db.board projectId) := by
  obtain ⟨columns, hserver, hpending⟩ := h.columns
  rw [hnone] at hpending
  have hboard := represents_board hserver projectId
  have hclient := h.board
  have hsame : announced projectId initialDb s.emitted = fun status => columns (projectId, status) :=
    hpending.eq_of_nil
  rw [hsame] at hclient
  have hperm := hclient.unique hboard
  -- a task of the client and the task of the board in its place are the same
  have heq : ∀ task ∈ receiveAll projectId client s.emitted, ∀ row ∈ s.db.tasks, row.projectId = projectId →
      task.triple = (s.db.mapTask row).triple → task = s.db.mapTask row := by
    intro task htask row hrow hproject htriple
    obtain ⟨hproject', -, hfields⟩ := h.tasks task htask
    obtain ⟨row', hrow', hid, hcontent, hassignees⟩ := hfields.resolve_right fun ⟨id, howed⟩ => howes _ id howed
    have hrows : row' = row := by
      have hids : row'.id = row.id := hid.trans (congrArg Position.id htriple)
      have hnodup := hserver.ids
      rw [positions, List.map_map] at hnodup
      exact List.inj_on_of_nodup_map hnodup hrow' hrow hids
    subst hrows
    exact Task.eq_of_triple htriple (hproject'.trans hproject.symm) hcontent.symm hassignees.symm
  have hnodup : ∀ {tasks : List Task}, ((triples tasks).map (·.id)).Nodup → tasks.Nodup := fun hids =>
    List.Nodup.of_map _ (List.Nodup.of_map _ hids)
  refine (List.perm_ext_iff_of_nodup (hnodup hclient.ids) (hnodup hboard.ids)).mpr fun task => ⟨fun htask => ?_, fun htask => ?_⟩
  · obtain ⟨other, hother, htriple⟩ := List.mem_map.mp (hperm.mem_iff.mp (mem_triples htask))
    obtain ⟨row, hrow, rfl⟩ := List.mem_map.mp hother
    obtain ⟨hmem, hproject⟩ := List.mem_filter.mp hrow
    rw [heq task htask row hmem (of_decide_eq_true hproject) htriple.symm]
    exact hother
  · obtain ⟨other, hother, htriple⟩ := List.mem_map.mp (hperm.mem_iff.mpr (mem_triples htask))
    obtain ⟨row, hrow, rfl⟩ := List.mem_map.mp htask
    obtain ⟨hmem, hproject⟩ := List.mem_filter.mp hrow
    rw [← heq other hother row hmem (of_decide_eq_true hproject) htriple]
    exact hother

/-- Any updates of any tasks, by any users and machines: when all calls have ended, a client that
has received every event has the database's board. -/
theorem boards_converge {db : Database} (hids : (db.tasks.map (·.id)).Nodup) (hdense : Dense (positions db.tasks))
    (hclient : client.Perm (db.board projectId)) {labels : List Label}
    (hrun : Runs.run step (initial db) labels = some s) (hupdates : Runs.Along step OnlyUpdates (initial db) labels)
    (horder : Runs.Along step (InOrder projectId db) (initial db) labels)
    (hended : ∀ id call, s.calls id = some call → call.progress.isFinished ∨ call.progress = .failed) :
    (receiveAll projectId client s.emitted).Perm (s.db.board projectId) := by
  obtain ⟨htracked, hsynced⟩ := Runs.Along.run (fun _ _ _ h hcondition hstep => synced_step h hcondition hstep)
    ⟨tracked_initial db, synced_initial hids hdense hclient⟩ (hupdates.and horder) hrun
  have hidle : ∀ id call, s.calls id = some call → call.progress.owes = false := fun id call hcall => by
    rcases hended id call hcall with hprogress | hprogress
    · exact owes_of_isFinished hprogress
    · rw [hprogress]
      rfl
  refine hsynced.perm_board (List.eq_nil_iff_forall_not_mem.mpr fun id hid => ?_) fun task id howed => ?_
  · rw [htracked.unannounced, moveOf] at hid
    cases hcall : s.calls id with
    | none => simp [hcall] at hid
    | some call => simp [hcall, move_eq_none_of_not_owes (hidle id call hcall)] at hid
  · obtain ⟨dto, other, actor, progress, hcall, howes⟩ := howed
    rw [hidle id _ hcall] at howes
    cases howes

/-! Two users edit the title of one card: the first reads it again, the second commits and emits,
then the first emits. -/

def edit (title : String) (userId : UserId) : Request :=
  .updateAs "a" { title := some title } "project" (.USER userId)

def overtakenEdit : List Label :=
  .start 0 (edit "first edit" "user") :: .start 1 (edit "second edit" "other") :: List.replicate 7 (.advance 0 "c") |>.append
  (List.replicate 8 (.advance 1 "c")) |>.append [.advance 0 "c"]

def Label.startsOnlyUpdates : Label → Bool
  | .start _ (.updateAs ..) => true
  | .advance .. => true
  | _ => false

theorem onlyUpdates_of_labels {labels : List Label} (h : labels.all Label.startsOnlyUpdates) (s : Service) :
    Runs.Along step OnlyUpdates s labels := by
  refine Runs.Along.of_forall (fun label hlabel s => ?_) s
  have hstarts := List.all_eq_true.mp h label hlabel
  cases label with
  | start id request =>
      cases request with
      | updateAs taskId dto projectId actor => exact ⟨taskId, dto, projectId, actor, rfl⟩
      | _ => cases hstarts
  | advance id randomUUID => trivial
  | fail id => cases hstarts

/-- The calls of a run, when they are these two. -/
theorem ended_of_run {labels : List Label} (hrun : Runs.run step (initial oneCard) labels = some s)
    (hlabels : ∀ label ∈ labels, label.call = 0 ∨ label.call = 1)
    (hcalls : [s.calls 0, s.calls 1].map (Option.map (·.progress.isFinished)) = [some true, some true]) (id : CallId)
    (call : Call) (hcall : s.calls id = some call) : call.progress.isFinished := by
  obtain ⟨h₀, h₁⟩ : (s.calls 0).map (·.progress.isFinished) = some true ∧
      (s.calls 1).map (·.progress.isFinished) = some true := by
    simpa only [List.map_cons, List.map_nil, List.cons.injEq, and_true] using hcalls
  by_cases hid : id = 0 ∨ id = 1
  · rcases hid with rfl | rfl
    · rw [hcall] at h₀
      exact Option.some.inj h₀
    · rw [hcall] at h₁
      exact Option.some.inj h₁
  · have hothers : ∀ label ∈ labels, label.call ≠ id := fun label hlabel heq => hid (heq ▸ hlabels label hlabel)
    cases hcall.symm.trans (calls_of_run hothers hrun)

theorem boards_diverge : ∃ s, Runs.run step (initial oneCard) overtakenEdit = some s ∧
    Runs.Along step OnlyUpdates (initial oneCard) overtakenEdit ∧
    (∀ id call, s.calls id = some call → call.progress.isFinished) ∧
    (s.db.board "project").map (·.content.title) = ["second edit"] ∧
    (receiveAll "project" (oneCard.board "project") s.emitted).map (·.content.title) = ["first edit"] ∧
    ¬ (receiveAll "project" (oneCard.board "project") s.emitted).Perm (s.db.board "project") := by
  have hvalues : (Runs.run step (initial oneCard) overtakenEdit).map (fun s =>
      ([s.calls 0, s.calls 1].map (Option.map (·.progress.isFinished)), (s.db.board "project").map (·.content.title),
        (receiveAll "project" (oneCard.board "project") s.emitted).map (·.content.title))) =
      some ([some true, some true], ["second edit"], ["first edit"]) := by decide +kernel
  obtain ⟨s, hrun, hvalues⟩ := Option.map_eq_some_iff.mp hvalues
  obtain ⟨hcalls, hvalues⟩ := Prod.mk.inj hvalues
  obtain ⟨hserver, hclient⟩ := Prod.mk.inj hvalues
  refine ⟨s, hrun, onlyUpdates_of_labels (by decide) _, ended_of_run hrun (by decide) hcalls, hserver, hclient, fun hperm => ?_⟩
  have htitles := hperm.map (·.content.title)
  rw [hserver, hclient] at htitles
  exact absurd htitles (by decide)

/-! One card is moved and edited, and each event is emitted in time. -/

def moveAndEdit : List Label :=
  .start 0 (.updateAs "a" { status := some .REVIEW } "project" (.USER "user")) :: .start 1 (edit "edited" "other") ::
    List.replicate 5 (.advance 0 "c") |>.append
  (List.replicate 5 (.advance 1 "c")) |>.append (List.replicate 4 (.advance 0 "c")) |>.append
  (List.replicate 3 (.advance 1 "c"))

/-- A sufficient condition for `InOrder` that can be evaluated. -/
def emitsInPlace (projectId : ProjectId) (initialDb : Database) (s : Service) : Label → Bool
  | .advance id _ =>
      match s.calls id with
      | some ⟨.updateAs .., .movedRow _⟩ => (s.unannouncedOf projectId).head? = some id
      | some ⟨.updateAs .., .reread task⟩ =>
          task.id ∈ announced projectId initialDb s.emitted task.status ∧
          task.rank = (announced projectId initialDb s.emitted task.status).idxOf task.id ∧
          ∃ row ∈ s.db.tasks, row.id = task.id ∧ row.content = task.content ∧ s.db.taskAssignees row.id = task.assignees
      | _ => true
  | _ => true

theorem inOrder_of_emitsInPlace (projectId : ProjectId) (initialDb : Database) (s : Service) (label : Label)
    (h : emitsInPlace projectId initialDb s label) : InOrder projectId initialDb s label := by
  cases label with
  | advance id randomUUID =>
      simp only [emitsInPlace] at h
      simp only [InOrder]
      split
      · rename_i hcall
        rw [hcall] at h
        exact fun _ => of_decide_eq_true h
      · rename_i hcall
        rw [hcall] at h
        obtain ⟨hmem, hrank, hcurrent⟩ := of_decide_eq_true h
        exact fun _ => ⟨hmem, hrank, Or.inl hcurrent⟩
      · trivial
  | _ => trivial

theorem boards_converge_of_moveAndEdit : ∃ s, Runs.run step (initial oneCard) moveAndEdit = some s ∧
    (s.db.board "project").map (fun task => (task.status, task.content.title)) = [(.REVIEW, "edited")] ∧
    (receiveAll "project" (oneCard.board "project") s.emitted).Perm (s.db.board "project") := by
  have hvalues : (Runs.run step (initial oneCard) moveAndEdit).map (fun s =>
      ([s.calls 0, s.calls 1].map (Option.map (·.progress.isFinished)),
        (s.db.board "project").map fun task => (task.status, task.content.title))) =
      some ([some true, some true], [(.REVIEW, "edited")]) := by decide +kernel
  obtain ⟨s, hrun, hvalues⟩ := Option.map_eq_some_iff.mp hvalues
  obtain ⟨hcalls, hserver⟩ := Prod.mk.inj hvalues
  refine ⟨s, hrun, hserver, boards_converge (by decide) dense_oneCard (List.Perm.refl _) hrun
    (onlyUpdates_of_labels (by decide) _) ?_ fun id call hcall => Or.inl (ended_of_run hrun (by decide) hcalls id call hcall)⟩
  exact Runs.Along.of_check (inOrder_of_emitsInPlace "project" oneCard) (by decide +kernel)

end Service

end Transcendence.Tasks
