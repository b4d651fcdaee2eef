import Transcendence.Tasks.DenseRanks
import Transcendence.Tasks.ReducerColumns

/-!
# A client's board after one operation

One call of the service runs from before its transaction to its end, on any reachable database, and
its events are delivered to a client that shows the board of that database. The client then shows
the board the call has left, unless the call has created a task above the end of its column:
`task:created` carries the right rank, but the client appends the task and sorts, and the task ends
up one place below the one it should have pushed down.
-/

namespace Transcendence.Tasks

open RankedColumns

/-! ### What a call that runs alone does -/

/-- The call has not committed anything yet. -/
def Progress.uncommitted : Progress → Bool
  | .begun => true
  | .member => true
  | .existing _ => true
  | .categoryChecked _ => true
  | .validated _ => true
  | _ => false

/-- Every row with the id belongs to the project. -/
def InProject (db : Database) (id : TaskId) (projectId : ProjectId) : Prop :=
  ∀ row ∈ db.tasks, row.id = id → row.projectId = projectId

/-- The transaction of a create or an update, with what the call emits before it reads the task
again. -/
inductive Committed (db : Database) : Request → TaskId → Database → List TaskEvent → Prop where
  | created {projectId : ProjectId} {dto : CreateTaskDto} {actor : TaskMutationActor} {id : TaskId} {after : Database}
      (h : db.createTask actor projectId dto id = some after) :
      Committed db (.createAs projectId dto actor) id after []
  | moved {id : TaskId} {dto : UpdateTaskDto} {projectId : ProjectId} {actor : TaskMutationActor} {after : Database}
      {moved : TaskMoved} (hproject : InProject db id projectId)
      (h : db.moveTask actor id projectId dto = some (after, moved)) :
      Committed db (.updateAs id dto projectId actor) id after [.moved moved]
  | edited {id : TaskId} {dto : UpdateTaskDto} {projectId : ProjectId} {actor : TaskMutationActor} {after : Database}
      (h : db.updateTask actor id projectId dto = some after) :
      Committed db (.updateAs id dto projectId actor) id after []

inductive Deleted (db : Database) : Request → Database → List TaskEvent → Prop where
  | mk {id : TaskId} {projectId : ProjectId} {actor : TaskMutationActor} {after : Database} {deleted : Task}
      (hproject : InProject db id projectId) (h : db.deleteTask actor id projectId = some (after, deleted)) :
      Deleted db (.removeAs id projectId actor) after [.deleted id projectId]

/-- The event that ends a create or an update. -/
def Request.announce (request : Request) (task : Task) : TaskEvent :=
  match request with
  | .updateAs id _ projectId _ => .updated id projectId task
  | _ => .created task

/-- What a call has done to `db`, up to the assignees it has replaced since, and what it has
emitted. -/
def Done (db : Database) (request : Request) (after : Database) (events : List TaskEvent) : Progress → Prop
  | .begun | .member | .existing _ | .categoryChecked _ | .validated _ => after = db ∧ events = []
  | .movedRow moved => ∃ id, Committed db request id after [.moved moved] ∧ events = []
  | .committed id => Committed db request id after events
  | .assigned id => ∃ committed, Committed db request id committed events ∧ after.tasks = committed.tasks
  | .reread task => ∃ id committed, Committed db request id committed events ∧ after.tasks = committed.tasks ∧
      after.findByIdForProject id request.projectId = some task
  | .deletedRow _ => ∃ event, Deleted db request after [event] ∧ events = []
  | .finished _ => Deleted db request after events ∨ ∃ id committed earlier task,
      Committed db request id committed earlier ∧ after.tasks = committed.tasks ∧
        after.findByIdForProject id request.projectId = some task ∧ events = earlier ++ [request.announce task]
  | .failed => True

theorem done_check {db after : Database} {request : Request} {events : List TaskEvent} {holds : Bool}
    {progress : Progress} (h : Done db request after events progress) :
    Done db request (check after holds progress).db (events ++ (check after holds progress).emitted)
      (check after holds progress).progress := by
  rw [check, Database.stay, List.append_nil]
  cases holds
  · trivial
  · exact h

theorem done_replaceAssignees {db after : Database} {request : Request} {events : List TaskEvent} {id : TaskId}
    (h : Committed db request id after events) (actor : TaskMutationActor) (projectId : ProjectId)
    (assigneeIds : Option (List UserId)) :
    Done db request (replaceAssignees after actor id projectId assigneeIds).db
      (events ++ (replaceAssignees after actor id projectId assigneeIds).emitted)
      (replaceAssignees after actor id projectId assigneeIds).progress := by
  rw [replaceAssignees.eq_def]
  split
  · split
    · trivial
    · rename_i hreplace
      exact ⟨after, (List.append_nil events).symm ▸ h, tasks_replaceAssignees hreplace⟩
  · exact ⟨after, (List.append_nil events).symm ▸ h, rfl⟩

theorem done_reread {db after committed : Database} {request : Request} {events : List TaskEvent} {id : TaskId}
    (h : Committed db request id committed events) (htasks : after.tasks = committed.tasks) :
    Done db request (reread after id request.projectId).db (events ++ (reread after id request.projectId).emitted)
      (reread after id request.projectId).progress := by
  rw [reread]
  split
  · trivial
  · rename_i hfind
    exact ⟨id, committed, (List.append_nil events).symm ▸ h, htasks, hfind⟩

theorem done_effect {db after : Database} {request : Request} {events : List TaskEvent} {progress : Progress}
    {randomUUID : TaskId} {effect : Effect} (h : Done db request after events progress)
    (hhome : ∀ target, request.target = some target → progress.hasRead → InProject after target.1 target.2)
    (heffect : request.effect after randomUUID progress = some effect) :
    Done db request effect.db (events ++ effect.emitted) effect.progress := by
  cases request with
  | createAs projectId dto actor =>
      cases progress with
      | begun | member | existing existing | categoryChecked existing =>
          cases heffect
          exact done_check h
      | validated existing =>
          obtain ⟨rfl, rfl⟩ := h
          simp only [Request.effect, createAs] at heffect
          split at heffect
          · cases heffect
            trivial
          · rename_i hcreate
            cases heffect
            exact .created hcreate
      | committed id =>
          cases heffect
          exact done_replaceAssignees h _ _ _
      | assigned id =>
          cases heffect
          obtain ⟨committed, hcommitted, htasks⟩ := h
          exact done_reread hcommitted htasks
      | reread task =>
          cases heffect
          obtain ⟨id, committed, hcommitted, htasks, hfind⟩ := h
          exact Or.inr ⟨id, committed, events, task, hcommitted, htasks, hfind, rfl⟩
      | _ => cases heffect
  | updateAs id dto projectId actor =>
      cases progress with
      | begun | existing existing | categoryChecked existing =>
          cases heffect
          exact done_check h
      | member =>
          simp only [Request.effect, updateAs] at heffect
          split at heffect
          · cases heffect
            trivial
          · cases heffect
            exact done_check h
      | validated existing =>
          obtain ⟨rfl, rfl⟩ := h
          cases existing with
          | none => cases heffect
          | some existing =>
              simp only [Request.effect, updateAs] at heffect
              split at heffect
              · split at heffect
                · cases heffect
                  trivial
                · rename_i hmove
                  cases heffect
                  exact ⟨id, .moved (hhome _ rfl rfl) hmove, rfl⟩
              · split at heffect
                · cases heffect
                  trivial
                · rename_i hedit
                  cases heffect
                  exact .edited hedit
      | movedRow moved =>
          cases heffect
          obtain ⟨id', hcommitted, rfl⟩ := h
          cases hcommitted with
          | moved hproject hmove => exact .moved hproject hmove
      | committed id' =>
          cases heffect
          exact done_replaceAssignees h _ _ _
      | assigned id' =>
          cases heffect
          obtain ⟨committed, hcommitted, htasks⟩ := h
          exact done_reread hcommitted htasks
      | reread task =>
          cases heffect
          obtain ⟨id', committed, hcommitted, htasks, hfind⟩ := h
          exact Or.inr ⟨id', committed, events, task, hcommitted, htasks, hfind, rfl⟩
      | _ => cases heffect
  | removeAs id projectId actor =>
      cases progress with
      | begun | member =>
          cases heffect
          exact done_check h
      | existing existing =>
          obtain ⟨rfl, rfl⟩ := h
          simp only [Request.effect, removeAs] at heffect
          split at heffect
          · cases heffect
            trivial
          · rename_i hdelete
            cases heffect
            exact ⟨_, .mk (hhome _ rfl rfl) hdelete, rfl⟩
      | deletedRow deleted =>
          cases heffect
          obtain ⟨event, hdeleted, rfl⟩ := h
          cases hdeleted with
          | mk hproject hdelete => exact Or.inl (.mk hproject hdelete)
      | _ => cases heffect

namespace Service

theorem done_of_run {s t : Service} {id : CallId} {request : Request} {progress : Progress} {randomUUIDs : List TaskId}
    (hinv : s.Inv) (hcall : s.calls id = some ⟨request, progress⟩) (hprogress : progress.uncommitted)
    (hrun : Runs.run step s (randomUUIDs.map (.advance id)) = some t) :
    ∃ progress events, t.calls id = some ⟨request, progress⟩ ∧ t.emitted = s.emitted ++ events ∧
      Done s.db request t.db events progress := by
  rw [Runs.run_map] at hrun
  have hstep : Runs.Preserved (fun u randomUUID => step u (.advance id randomUUID)) fun u => u.Inv ∧
      ∃ progress events, u.calls id = some ⟨request, progress⟩ ∧ u.emitted = s.emitted ++ events ∧
        Done s.db request u.db events progress := by
    rintro u randomUUID v ⟨hu, progress, events, hcall, hemitted, hdone⟩ hstep
    refine ⟨inv_preserved hu hstep, ?_⟩
    obtain ⟨call, effect, hadvance⟩ := exists_advance hstep
    obtain rfl := Option.some.inj (hcall.symm.trans hadvance.hcall)
    have hnext := done_effect hdone (fun target htarget hread => (hu.home id _ target hcall htarget hread).2)
      hadvance.heffect
    refine ⟨effect.progress, events ++ effect.emitted, ?_, ?_, ?_⟩
    · rw [hadvance.next]
      exact Function.update_self ..
    · rw [hadvance.next, ← List.append_assoc, ← hemitted]
      rfl
    · rw [hadvance.next]
      exact hnext
  refine (hstep.run ⟨hinv, progress, [], hcall, (List.append_nil _).symm, ?_⟩ hrun).2
  cases progress with
  | begun | member | existing | categoryChecked | validated => exact ⟨rfl, rfl⟩
  | _ => cases hprogress

end Service

/-! ### The client's board and the server's -/

/-- The client shows the board of the project. -/
def Shows (projectId : ProjectId) (db : Database) (state : List Task) : Prop :=
  ∃ columns, Represents (positions db.tasks) columns ∧
    Represents (triples state) fun status => columns (projectId, status)

variable {db after : Database} {columns : Columns} {projectId : ProjectId} {state : List Task}

theorem shows_iff (h : Represents (positions db.tasks) columns) :
    Shows projectId db state ↔ (triples state).Perm (triples (db.board projectId)) := by
  constructor
  · rintro ⟨columns, hserver, hclient⟩
    exact hclient.unique (represents_board hserver projectId)
  · intro hperm
    exact ⟨columns, h, (represents_board h projectId).perm hperm⟩

theorem not_mem_of_inProject (h : Represents (positions db.tasks) columns) {id : TaskId} {other : ProjectId}
    (hproject : InProject db id other) (hne : other ≠ projectId) (status : TaskStatus) :
    id ∉ columns (projectId, status) := by
  intro hmem
  obtain ⟨p, hp, hid, hcolumn⟩ := h.exists_row _ _ hmem
  obtain ⟨row, hrow, rfl⟩ := List.mem_map.mp hp
  exact hne ((hproject row hrow hid).symm.trans (congrArg Prod.fst hcolumn))

theorem mem_of_find (h : Represents (positions db.tasks) columns) {id : TaskId} {row : TaskRow}
    (hfind : db.findTask id = some row) : row.id = id ∧ id ∈ columns (row.projectId, row.status) := by
  obtain rfl : row.id = id := by simpa using List.find?_some hfind
  exact ⟨rfl, (h.rank _ (mem_positions (List.mem_of_find?_eq_some hfind))).1⟩

theorem shows_of_deleted {request : Request} {events : List TaskEvent} (h : Shows projectId db state)
    (hdeleted : Deleted db request after events) : Shows projectId after (receiveAll projectId state events) := by
  obtain ⟨columns, hserver, hclient⟩ := h
  cases hdeleted with
  | @mk id other actor _ _ hproject hdelete =>
      refine ⟨_, represents_deleteTask hserver hproject hdelete, ?_⟩
      obtain ⟨row, hfind, -⟩ := Option.map_eq_some_iff.mp hdelete
      obtain ⟨rfl, hmem⟩ := mem_of_find hserver hfind
      obtain rfl : row.projectId = other := hproject row (List.mem_of_find?_eq_some hfind) rfl
      by_cases hother : row.projectId = projectId
      · subst hother
        exact receive_deleted hclient hmem _
      · have hsame : (fun status => eraseItem columns row.id (projectId, status)) = fun status => columns (projectId, status) :=
          funext fun status => eraseItem_of_not_mem (not_mem_of_inProject hserver hproject hother status)
        rw [hsame, receiveAll, List.foldl_cons, receive_of_ne state (.deleted row.id row.projectId) hother]
        exact hclient

theorem shows_of_read {id : TaskId} {other : ProjectId} {task : Task} (h : Shows projectId db state)
    (hfind : db.findByIdForProject id other = some task) :
    Shows projectId db (receive projectId state (.updated id other task)) := by
  obtain ⟨columns, hserver, hclient⟩ := h
  refine ⟨columns, hserver, ?_⟩
  by_cases hother : other = projectId
  · subst hother
    obtain ⟨rfl, -, hmem, hrank⟩ := position_of_find hserver hfind
    rw [triples_receive_updated hclient other hmem hrank]
    exact hclient
  · rwa [receive_of_ne state (.updated id other task) hother]

theorem shows_of_updated {id id' : TaskId} {dto : UpdateTaskDto} {other : ProjectId} {actor : TaskMutationActor}
    {events : List TaskEvent} (h : Shows projectId db state)
    (hcommitted : Committed db (.updateAs id dto other actor) id' after events) :
    Shows projectId after (receiveAll projectId state events) := by
  obtain ⟨columns, hserver, hclient⟩ := h
  cases hcommitted with
  | edited hedit => exact ⟨columns, by rwa [positions_updateTask hedit], hclient⟩
  | @moved _ _ _ _ _ payload hproject hmove =>
      obtain ⟨n, hpayload, -, hn, hmoved⟩ := represents_moveTask hserver hproject hmove
      refine ⟨_, hmoved, ?_⟩
      obtain ⟨row, hfind, -⟩ := Option.bind_eq_some_iff.mp hmove
      obtain ⟨rfl, hmem⟩ := mem_of_find hserver hfind
      obtain rfl : row.projectId = other := hproject row (List.mem_of_find?_eq_some hfind) rfl
      rw [receiveAll, List.foldl_cons, List.foldl_nil, hpayload]
      by_cases hother : row.projectId = projectId
      · subst hother
        rw [moveItem_project]
        have hindex : (⟨row.id, row.projectId, payload.toStatus, n⟩ : TaskMoved).toIndex = n := rfl
        exact receive_moved hclient hmem hindex hn
      · have hsame : (fun status => moveItem columns row.id (row.projectId, payload.toStatus) n (projectId, status)) =
            fun status => columns (projectId, status) := by
          funext status
          rw [moveItem_of_ne _ _ _ fun heq => hother (Prod.mk.inj heq).1.symm]
          exact eraseItem_of_not_mem (not_mem_of_inProject hserver hproject hother status)
        rwa [hsame, receive_of_ne state (.moved ⟨row.id, row.projectId, payload.toStatus, n⟩) hother]

/-- The call creates a task of the project and asks for a place above the end of its column. -/
def CreatesAboveEnd (db : Database) (projectId : ProjectId) : Request → Prop
  | .createAs projectId' dto _ =>
      projectId' = projectId ∧ max dto.rank 0 < columnLength db.tasks projectId dto.status none
  | _ => False

theorem shows_of_created_iff {id : TaskId} {dto : CreateTaskDto} {other : ProjectId} {actor : TaskMutationActor}
    {committed : Database} {task : Task} (h : Shows projectId db state)
    (hcreate : db.createTask actor other dto id = some committed) (htasks : after.tasks = committed.tasks)
    (hfind : after.findByIdForProject id other = some task) :
    Shows projectId after (receive projectId state (.created task)) ↔
      ¬ CreatesAboveEnd db projectId (.createAs other dto actor) := by
  obtain ⟨columns, hserver, hclient⟩ := h
  have hcreated := represents_createTask hserver hcreate
  rw [← htasks] at hcreated
  obtain ⟨rfl, rfl, hmem, hrank⟩ := position_of_find hcreated hfind
  set n := clampIndex (some dto.rank) (columns (task.projectId, dto.status)).length with hn
  have hle : n ≤ (columns (task.projectId, dto.status)).length := clampIndex_le _ _
  have hfresh : ∀ k, task.id ∉ columns k := by
    rw [Database.createTask] at hcreate
    split at hcreate
    · cases hcreate
    · rename_i hnone
      exact not_mem_columns hserver (by simpa [Database.findTask] using hnone)
  have hstatus : task.status = dto.status := by
    have hself : task.id ∈ insertItem columns task.id (task.projectId, dto.status) n (task.projectId, dto.status) := by
      rw [insertItem_self, List.mem_insertIdx hle]
      exact Or.inl rfl
    exact congrArg Prod.snd (hcreated.column_unique hmem hself)
  rw [CreatesAboveEnd, columnLength_none hserver]
  by_cases hother : task.projectId = projectId
  · subst hother
    have hindex : task.rank = n := by
      rw [hrank, hstatus, insertItem_self, idxOf_insertIdx_self (hfresh _) hle]
    have hreceived := receive_created hclient (fun status => hfresh _) hindex
    rw [hstatus] at hreceived
    have hboth : Shows task.projectId after (receive task.projectId state (.created task)) ↔
        min (n + 1) (columns (task.projectId, dto.status)).length = n := by
      constructor
      · rintro ⟨columns', hserver', hclient'⟩
        obtain rfl := hserver'.columns_unique hcreated
        have hcolumn := congrFun (hclient'.columns_unique hreceived) dto.status
        rw [insertItem_self, insertItem_self] at hcolumn
        have hplace := congrArg (List.idxOf task.id) hcolumn
        rw [idxOf_insertIdx_self (hfresh _) hle, idxOf_insertIdx_self (hfresh _) (Nat.min_le_right _ _)] at hplace
        exact hplace.symm
      · intro heq
        rw [heq, ← insertItem_restrict (Prod.mk_right_injective task.projectId)] at hreceived
        exact ⟨_, hcreated, hreceived⟩
    rw [hboth]
    simp only [true_and, hn, clampIndex, clampRank]
    omega
  · rw [receive_of_ne state (.created task) hother]
    refine iff_of_true ⟨_, hcreated, ?_⟩ fun hand => hother hand.1
    have hsame : (fun status => insertItem columns task.id (task.projectId, dto.status) n (projectId, status)) =
        fun status => columns (projectId, status) :=
      funext fun status => insertItem_of_ne _ _ _ fun heq => hother (Prod.mk.inj heq).1.symm
    rwa [hsame]

theorem shows_of_done_iff {request : Request} {events : List TaskEvent} {answer : Task} (h : Shows projectId db state)
    (hdone : Done db request after events (.finished answer)) :
    Shows projectId after (receiveAll projectId state events) ↔ ¬ CreatesAboveEnd db projectId request := by
  rcases hdone with hdeleted | ⟨id, committed, earlier, task, hcommitted, htasks, hfind, rfl⟩
  · refine iff_of_true (shows_of_deleted h hdeleted) ?_
    cases hdeleted
    exact not_false
  · cases hcommitted with
    | created hcreate => exact shows_of_created_iff h hcreate htasks hfind
    | moved hproject hmove =>
        refine iff_of_true ?_ not_false
        obtain ⟨columns, hserver, hclient⟩ := shows_of_updated h (.moved hproject hmove)
        rw [receiveAll_append]
        exact shows_of_read ⟨columns, htasks ▸ hserver, hclient⟩ hfind
    | edited hedit =>
        refine iff_of_true ?_ not_false
        obtain ⟨columns, hserver, hclient⟩ := shows_of_updated h (.edited hedit)
        rw [receiveAll_append]
        exact shows_of_read ⟨columns, htasks ▸ hserver, hclient⟩ hfind

namespace Service

/-- One call runs from before its transaction to its end, whatever it has read before, and the
client receives what it emits. -/
theorem boards_agree_iff {initialDb : Database} (hids : (initialDb.tasks.map (·.id)).Nodup)
    (hdense : Dense (positions initialDb.tasks)) {before : List Label} {s t : Service}
    (hbefore : Runs.run step (initial initialDb) before = some s) {id : CallId} {request : Request} {progress : Progress}
    (hcall : s.calls id = some ⟨request, progress⟩) (hprogress : progress.uncommitted) {randomUUIDs : List TaskId}
    (hrun : Runs.run step s (randomUUIDs.map (.advance id)) = some t) {answer : Task}
    (hfinished : t.calls id = some ⟨request, .finished answer⟩) {projectId : ProjectId} {client : List Task}
    (hclient : (triples client).Perm (triples (s.db.board projectId))) :
    (triples (receiveAll projectId client (t.emitted.drop s.emitted.length))).Perm (triples (t.db.board projectId)) ↔
      ¬ CreatesAboveEnd s.db projectId request := by
  have hinv : s.Inv := inv_preserved.run (inv_initial hids hdense) hbefore
  have hinv' : t.Inv := inv_preserved.run hinv hrun
  obtain ⟨columns, hcolumns⟩ := hinv.columns
  obtain ⟨columns', hcolumns'⟩ := hinv'.columns
  obtain ⟨progress', events, hcall', hemitted, hdone⟩ := done_of_run hinv hcall hprogress hrun
  obtain rfl : progress' = .finished answer := congrArg Call.progress (Option.some.inj (hcall'.symm.trans hfinished))
  rw [hemitted, List.drop_left, ← shows_iff hcolumns']
  exact shows_of_done_iff ((shows_iff hcolumns).mpr hclient) hdone

/-! A board with one card, and a second card created above it or moved below it. -/

def oneCard : Database :=
  { emptyBoard with tasks := [⟨"a", "project", .TODO, 0, (card "first").content⟩] }

theorem dense_oneCard : Dense (positions oneCard.tasks) := by
  intro k
  by_cases hk : k = ("project", .TODO)
  · subst hk
    exact List.Perm.refl _
  · have hnone : (positions oneCard.tasks).filter (·.column = k) = [] := by
      simpa [positions, oneCard, TaskRow.position] using Ne.symm hk
    rw [hnone]
    exact List.Perm.nil

def createAboveFirst : Request := .createAs "project" (card "second") (.USER "user")

def createdCard : Task := ⟨⟨"b", "project", .TODO, 0, (card "second").content⟩, []⟩

/-- The steps of the first call, before and after it has its id. -/
def createSteps : List Label := ["b", "b", "b", "b", "b", "c", "c", "c"].map (.advance 0)

theorem created_card_misplaced : ∃ s t, Runs.run step (initial oneCard) [.start 0 createAboveFirst] = some s ∧
    Runs.run step s createSteps = some t ∧ t.calls 0 = some ⟨createAboveFirst, .finished createdCard⟩ ∧
    triples (t.db.board "project") = [⟨"a", .TODO, 1⟩, ⟨"b", .TODO, 0⟩] ∧
    triples (receiveAll "project" (s.db.board "project") (t.emitted.drop s.emitted.length)) =
      [⟨"a", .TODO, 0⟩, ⟨"b", .TODO, 1⟩] ∧
    ¬ (triples (receiveAll "project" (s.db.board "project") (t.emitted.drop s.emitted.length))).Perm
      (triples (t.db.board "project")) := by
  refine ⟨(initial oneCard).setCall 0 ⟨createAboveFirst, .begun⟩, ?_⟩
  have hboards : (Runs.run step ((initial oneCard).setCall 0 ⟨createAboveFirst, .begun⟩) createSteps).map (fun t =>
      (t.calls 0, triples (t.db.board "project"), triples (receiveAll "project" (oneCard.board "project") t.emitted))) =
      some (some ⟨createAboveFirst, .finished createdCard⟩, [⟨"a", .TODO, 1⟩, ⟨"b", .TODO, 0⟩],
        [⟨"a", .TODO, 0⟩, ⟨"b", .TODO, 1⟩]) := by decide +kernel
  obtain ⟨t, hrun, hvalues⟩ := Option.map_eq_some_iff.mp hboards
  obtain ⟨hfinished, hvalues⟩ := Prod.mk.inj hvalues
  obtain ⟨hserver, hclient⟩ := Prod.mk.inj hvalues
  refine ⟨t, rfl, hrun, hfinished, hserver, hclient, ?_⟩
  have hreceived : triples (receiveAll "project" (oneCard.board "project") (t.emitted.drop 0)) =
    [⟨"a", .TODO, 0⟩, ⟨"b", .TODO, 1⟩] := hclient
  intro hperm
  rw [hserver] at hperm
  exact absurd (hreceived ▸ hperm) (by decide)

theorem boards_agree_iff_of_createAboveFirst : ∃ s t,
    Runs.run step (initial oneCard) [.start 0 createAboveFirst] = some s ∧ Runs.run step s createSteps = some t ∧
    ((triples (receiveAll "project" (s.db.board "project") (t.emitted.drop s.emitted.length))).Perm
      (triples (t.db.board "project")) ↔ ¬ CreatesAboveEnd s.db "project" createAboveFirst) := by
  refine ⟨(initial oneCard).setCall 0 ⟨createAboveFirst, .begun⟩, ?_⟩
  have hfinished : (Runs.run step ((initial oneCard).setCall 0 ⟨createAboveFirst, .begun⟩) createSteps).map
      (fun t => t.calls 0) = some (some ⟨createAboveFirst, .finished createdCard⟩) := by decide +kernel
  obtain ⟨t, hrun, hfinished⟩ := Option.map_eq_some_iff.mp hfinished
  have hstarted : Runs.run step (initial oneCard) [.start 0 createAboveFirst] =
      some ((initial oneCard).setCall 0 ⟨createAboveFirst, .begun⟩) := rfl
  exact ⟨t, hstarted, hrun, boards_agree_iff (by decide) dense_oneCard hstarted (Function.update_self ..) rfl hrun
    hfinished (List.Perm.refl _)⟩

end Service

end Transcendence.Tasks
