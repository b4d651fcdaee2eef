import Transcendence.Realtime.RoomTurns

/-!
# What the other steps change

The steps that are not turns of a body: they start and announce calls, move the loops of
`releaseSocket` and `releaseExpiredLeases`, and connect and disconnect sockets. What they do to the
tasks, to the loops and to the connections is listed here once.
-/

namespace Transcendence.Realtime.Server

/-! ### Tasks and sweeps from one state to the next -/

/-- The step is not a turn of a body. -/
def IsQuiet (label : Label) : Prop := ∀ id input, label ≠ .turn id input

theorem Inv.tasks_of_start {s t : Server} (h : s.Inv) {id : CallId} {request : Request}
    (hstart : s.start id request = some t) :
    s.tasks id = none ∧ t.tasks id = some ⟨request, .begun, false⟩ ∧
      (∀ other, other ≠ id → t.tasks other = s.tasks other) ∧ t.world = s.world ∧ t.sweeps = s.sweeps := by
  obtain ⟨coordination, hcoordination, rfl⟩ := Option.map_eq_some_iff.mp hstart
  refine ⟨?_, setTask_tasks_self .., fun other hne => setTask_tasks_of_ne _ _ hne, rfl, rfl⟩
  cases htask : s.tasks id with
  | none => rfl
  | some task =>
      obtain ⟨call, hcalled⟩ := h.called id task htask
      have hnone := (ProjectResourceCoordinator.exists_call_of_start hcoordination).1
      rw [hcalled.hcall] at hnone
      cases hnone

/-- A step that is no turn keeps every task, up to the mark of an announcement. -/
theorem Inv.keeps_task {s t : Server} (h : s.Inv) {label : Label} (hstep : s.step label = some t)
    (hquiet : IsQuiet label) {id : CallId} {task : Task} (htask : s.tasks id = some task) :
    t.tasks id = some task ∨ (label = .announce id ∧ t.tasks id = some { task with announced := true }) := by
  have hstart : ∀ {other request u}, s.start other request = some u → u.tasks id = some task := by
    intro other request u hstart
    obtain ⟨hnone, -, hothers, -⟩ := h.tasks_of_start hstart
    have hne : id ≠ other := by
      rintro rfl
      rw [htask] at hnone
      cases hnone
    exact (hothers id hne).trans htask
  cases label with
  | turn other input => exact absurd rfl (hquiet other input)
  | request other request =>
      simp only [step, receive] at hstep
      split at hstep
      · exact Or.inl (hstart hstep)
      · cases hstep
  | coordination label =>
      simp only [step, coordinate] at hstep
      split at hstep
      · obtain ⟨coordination, -, rfl⟩ := Option.map_eq_some_iff.mp hstep
        exact Or.inl htask
      · cases hstep
  | announce other =>
      simp only [step, announce, Option.bind_eq_some_iff, Option.map_eq_some_iff, Option.filter_eq_some_iff] at hstep
      obtain ⟨-, -, old, ⟨hold, -⟩, result, -, rfl⟩ := hstep
      by_cases heq : id = other
      · subst heq
        obtain rfl := Option.some.inj (htask.symm.trans hold)
        exact Or.inr ⟨rfl, setTask_tasks_self ..⟩
      · exact Or.inl ((setTask_tasks_of_ne _ _ heq).trans htask)
  | connect client =>
      simp only [step, connect] at hstep
      split at hstep
      · cases hstep
      · cases hstep
        exact Or.inl htask
  | sweep sweepId kind =>
      cases kind <;> simp only [step, beginSweep] at hstep <;> split_ifs at hstep <;> cases hstep <;>
        exact Or.inl htask
  | sweepNext sweepId other =>
      obtain ⟨sweep, -, hstep⟩ := Option.bind_eq_some_iff.mp hstep
      split at hstep
      · cases hstep
      · obtain ⟨started, hstarted, rfl⟩ := Option.map_eq_some_iff.mp hstep
        have hkept : started.tasks id = some task := hstart hstarted
        exact Or.inl hkept
      · cases hstep
        exact Or.inl htask
  | sweepCollect sweepId =>
      simp only [step, sweepCollect, Option.bind_eq_some_iff, Option.map_eq_some_iff] at hstep
      obtain ⟨sweep, -, other, -, call, -, result, -, rfl⟩ := hstep
      split <;> exact Or.inl htask
  | ready socketId | disconnect socketId | tick elapsed | setRow resource other row | setUser username userId =>
      cases hstep
      exact Or.inl htask

/-- A new call comes from outside or from a loop, which then awaits it. -/
theorem Inv.new_task {s t : Server} (h : s.Inv) {label : Label} (hstep : s.step label = some t) (hquiet : IsQuiet label)
    {id : CallId} {task : Task} (hnew : s.tasks id = none) (htask : t.tasks id = some task) :
    (label = .request id task.request ∨ (isSwept task.request = true ∧ ∃ sweepId, label = .sweepNext sweepId id)) ∧
      task.announced = false ∧ (isSwept task.request = true →
        ∃ sweepId sweep, t.sweeps sweepId = some sweep ∧ sweep.current = some id) := by
  have hnone : ∀ {u : Server}, u.tasks = s.tasks → u.tasks id ≠ some task := by
    intro u hu
    rw [hu, hnew]
    simp
  cases label with
  | turn other input => exact absurd rfl (hquiet other input)
  | request other request =>
      simp only [step, receive] at hstep
      split at hstep
      · rename_i haccepts
        obtain ⟨-, hstarted, hothers, -⟩ := h.tasks_of_start hstep
        by_cases heq : id = other
        · subst heq
          obtain rfl := Option.some.inj (hstarted.symm.trans htask)
          refine ⟨Or.inl rfl, rfl, fun hswept => ?_⟩
          cases request with
          | releaseLease | expireLease => cases haccepts
          | _ => cases hswept
        · rw [hothers id heq, hnew] at htask
          cases htask
      · cases hstep
  | coordination label =>
      simp only [step, coordinate] at hstep
      split at hstep
      · obtain ⟨coordination, -, rfl⟩ := Option.map_eq_some_iff.mp hstep
        exact absurd htask (hnone rfl)
      · cases hstep
  | announce other =>
      simp only [step, announce, Option.bind_eq_some_iff, Option.map_eq_some_iff, Option.filter_eq_some_iff] at hstep
      obtain ⟨-, -, old, ⟨hold, -⟩, result, -, rfl⟩ := hstep
      have hne : id ≠ other := by
        rintro rfl
        rw [hnew] at hold
        cases hold
      rw [setTask_tasks_of_ne _ _ hne] at htask
      exact absurd htask (hnone (u := s) rfl)
  | connect client =>
      simp only [step, connect] at hstep
      split at hstep
      · cases hstep
      · cases hstep
        exact absurd htask (hnone rfl)
  | sweep sweepId kind =>
      cases kind <;> simp only [step, beginSweep] at hstep <;> split_ifs at hstep <;> cases hstep <;>
        exact absurd htask (hnone rfl)
  | sweepNext sweepId other =>
      obtain ⟨sweep, -, hstep⟩ := Option.bind_eq_some_iff.mp hstep
      split at hstep
      · cases hstep
      · obtain ⟨started, hstarted, rfl⟩ := Option.map_eq_some_iff.mp hstep
        obtain ⟨-, hself, hothers, -⟩ := h.tasks_of_start hstarted
        have htask' : started.tasks id = some task := htask
        by_cases heq : id = other
        · subst heq
          obtain rfl := Option.some.inj (hself.symm.trans htask')
          refine ⟨Or.inr ⟨?_, sweepId, rfl⟩, rfl, fun _ => ⟨sweepId, _, Function.update_self .., rfl⟩⟩
          cases sweep.kind <;> rfl
        · rw [hothers id heq, hnew] at htask'
          cases htask'
      · cases hstep
        exact absurd htask (hnone rfl)
  | sweepCollect sweepId =>
      simp only [step, sweepCollect, Option.bind_eq_some_iff, Option.map_eq_some_iff] at hstep
      obtain ⟨sweep, -, other, -, call, -, result, -, rfl⟩ := hstep
      split at htask <;> exact absurd htask (hnone rfl)
  | ready socketId | disconnect socketId | tick elapsed | setRow resource other row | setUser username userId =>
      cases hstep
      exact absurd htask (hnone rfl)

theorem exists_task_of_result {s : Server} {id : CallId} {result : Result} (hresult : s.result id = some result) :
    ∃ task, s.tasks id = some task ∧ task.progress = .settled result := by
  rw [Server.result] at hresult
  split at hresult
  · rename_i htask
    cases hresult
    exact ⟨_, htask, rfl⟩
  · cases hresult

/-- What a step does to one loop. -/
inductive SweepMoves (s t : Server) (sweep : Sweep) : Sweep → Prop where
  | calls (key : String) (projectId : ProjectId) (pending : List (String × ProjectId)) (id : CallId)
      (hidle : sweep.current = none) (hpending : sweep.pending = (key, projectId) :: pending)
      (htask : t.tasks id = some ⟨SweepKind.request sweep.kind key projectId, .begun, false⟩)
      (hworld : t.world = s.world) :
      SweepMoves s t sweep { sweep with pending, current := some id }
  | ends (hidle : sweep.current = none) (hpending : sweep.pending = [])
      (hworld : t.world = s.world.record (sweep.released.map .emitted)) :
      SweepMoves s t sweep { sweep with released := [] }
  | holdsBack (socketId : SocketId) (id : CallId) (result : Result) (hkind : sweep.kind = .releaseSocket socketId)
      (hcurrent : sweep.current = some id) (hresult : s.result id = some result) (hworld : t.world = s.world) :
      SweepMoves s t sweep { sweep with current := none, released := sweep.released ++ emissions result }
  | emits (id : CallId) (result : Result) (hkind : sweep.kind = .releaseExpiredLeases)
      (hcurrent : sweep.current = some id) (hresult : s.result id = some result)
      (hworld : t.world = s.world.record ((emissions result).map .emitted)) :
      SweepMoves s t sweep { sweep with current := none }

/-- The snapshot a new loop goes through. -/
inductive SweepBegins (s : Server) : Sweep → Prop where
  | releaseSocket (socketId : SocketId) (connection : Connection)
      (hconnection : s.world.connections socketId = some connection) (hdisconnected : connection.connected = false) :
      SweepBegins s ⟨.releaseSocket socketId,
        (s.world.leases.ofSocket socketId).map fun (key, lease) => (key, lease.projectId), none, []⟩
  | releaseExpiredLeases :
      SweepBegins s ⟨.releaseExpiredLeases,
        (s.world.leases.expired s.world.now).map fun (key, lease) => (key, lease.projectId), none, []⟩

/-- A step leaves the loops alone, or moves or begins one. -/
theorem Inv.sweeps_of_step {s t : Server} (h : s.Inv) {label : Label} (hstep : s.step label = some t) :
    (t.sweeps = s.sweeps ∧
        (t.world.history = s.world.history ∨ (∃ id input, label = .turn id input) ∨ ∃ id, label = .announce id)) ∨
      ∃ sweepId next, t.sweeps = Function.update s.sweeps sweepId (some next) ∧
      ((∃ sweep, s.sweeps sweepId = some sweep ∧ SweepMoves s t sweep next) ∨
        (s.sweeps sweepId = none ∧ t.world = s.world ∧ SweepBegins s next ∧ ∃ kind, label = .sweep sweepId kind)) := by
  cases label with
  | turn id input =>
      obtain ⟨call, task, progress, hturn⟩ := exists_turn hstep
      rw [hturn.next]
      exact Or.inl ⟨rfl, Or.inr (Or.inl ⟨id, input, rfl⟩)⟩
  | request id request =>
      simp only [step, receive] at hstep
      split at hstep
      · obtain ⟨-, -, -, hworld, hsweeps⟩ := h.tasks_of_start hstep
        exact Or.inl ⟨hsweeps, Or.inl (by rw [hworld])⟩
      · cases hstep
  | coordination label =>
      simp only [step, coordinate] at hstep
      split at hstep
      · obtain ⟨coordination, -, rfl⟩ := Option.map_eq_some_iff.mp hstep
        exact Or.inl ⟨rfl, Or.inl rfl⟩
      · cases hstep
  | announce id =>
      simp only [step, announce, Option.bind_eq_some_iff, Option.map_eq_some_iff] at hstep
      obtain ⟨-, -, task, -, result, -, rfl⟩ := hstep
      exact Or.inl ⟨rfl, Or.inr (Or.inr ⟨id, rfl⟩)⟩
  | connect client =>
      simp only [step, connect] at hstep
      split at hstep
      · cases hstep
      · cases hstep
        exact Or.inl ⟨rfl, Or.inl rfl⟩
  | sweep sweepId kind =>
      simp only [step, beginSweep] at hstep
      split at hstep
      · cases hstep
      · rename_i hfresh
        have hnone := Option.not_isSome_iff_eq_none.mp hfresh
        cases kind with
        | releaseSocket socketId =>
            simp only at hstep
            split at hstep
            · rename_i hany
              obtain ⟨connection, hconnection, hdisconnected⟩ := (Option.any_eq_true ..).mp hany
              cases hstep
              exact Or.inr ⟨sweepId, _, rfl, Or.inr ⟨hnone, rfl,
                .releaseSocket socketId connection hconnection (by simpa using hdisconnected), _, rfl⟩⟩
            · cases hstep
        | releaseExpiredLeases =>
            cases hstep
            exact Or.inr ⟨sweepId, _, rfl, Or.inr ⟨hnone, rfl, .releaseExpiredLeases, _, rfl⟩⟩
  | sweepNext sweepId id =>
      obtain ⟨sweep, hsweep, hstep⟩ := Option.bind_eq_some_iff.mp hstep
      split at hstep
      · cases hstep
      · rename_i key projectId pending hcurrent hpending
        obtain ⟨started, hstarted, rfl⟩ := Option.map_eq_some_iff.mp hstep
        obtain ⟨-, htask, -, hworld, hsweeps⟩ := h.tasks_of_start hstarted
        refine Or.inr ⟨sweepId, _, ?_,
          Or.inl ⟨sweep, hsweep, .calls key projectId pending id hcurrent hpending htask hworld⟩⟩
        rw [← hsweeps]
        rfl
      · rename_i hcurrent hpending
        cases hstep
        exact Or.inr ⟨sweepId, _, rfl, Or.inl ⟨sweep, hsweep, .ends hcurrent hpending rfl⟩⟩
  | sweepCollect sweepId =>
      simp only [step, sweepCollect, Option.bind_eq_some_iff, Option.map_eq_some_iff] at hstep
      obtain ⟨sweep, hsweep, id, hcurrent, call, -, result, hresult, hstep⟩ := hstep
      right
      split at hstep
      · rename_i socketId hkind
        subst hstep
        exact ⟨sweepId, _, rfl, Or.inl ⟨sweep, hsweep, .holdsBack socketId id result hkind hcurrent hresult rfl⟩⟩
      · rename_i hkind
        subst hstep
        exact ⟨sweepId, _, rfl, Or.inl ⟨sweep, hsweep, .emits id result hkind hcurrent hresult rfl⟩⟩
  | ready socketId | disconnect socketId | tick elapsed | setRow resource id row | setUser username userId =>
      cases hstep
      exact Or.inl ⟨rfl, Or.inl rfl⟩

/-- Every loop of the new state has moved or has just begun. -/
theorem Inv.sweep_of_step {s t : Server} (h : s.Inv) {label : Label} (hstep : s.step label = some t) {sweepId : Nat}
    {next : Sweep} (hnext : t.sweeps sweepId = some next) :
    (∃ sweep, s.sweeps sweepId = some sweep ∧ (next = sweep ∨ SweepMoves s t sweep next)) ∨
      (s.sweeps sweepId = none ∧ t.world = s.world ∧ SweepBegins s next) := by
  rcases h.sweeps_of_step hstep with ⟨hsame, -⟩ | ⟨moved, sweep, hsweeps, hmoves⟩
  · exact Or.inl ⟨next, hsame ▸ hnext, Or.inl rfl⟩
  · rw [hsweeps] at hnext
    by_cases heq : sweepId = moved
    · subst heq
      rw [Function.update_self] at hnext
      obtain rfl := Option.some.inj hnext
      rcases hmoves with ⟨old, hold, hmove⟩ | ⟨hnone, hworld, hbegins, -⟩
      · exact Or.inl ⟨old, hold, Or.inr hmove⟩
      · exact Or.inr ⟨hnone, hworld, hbegins⟩
    · rw [Function.update_of_ne heq] at hnext
      exact Or.inl ⟨next, hnext, Or.inl rfl⟩

theorem Inv.exists_sweep_of_step {s t : Server} (h : s.Inv) {label : Label} (hstep : s.step label = some t)
    {sweepId : Nat} {sweep : Sweep} (hsweep : s.sweeps sweepId = some sweep) :
    ∃ next, t.sweeps sweepId = some next ∧ (next = sweep ∨ SweepMoves s t sweep next) := by
  obtain ⟨next, hnext⟩ : ∃ next, t.sweeps sweepId = some next := by
    rcases h.sweeps_of_step hstep with ⟨hsame, -⟩ | ⟨moved, next, hsweeps, -⟩
    · exact ⟨sweep, hsame ▸ hsweep⟩
    · by_cases heq : sweepId = moved
      · exact ⟨next, by rw [hsweeps, heq, Function.update_self]⟩
      · exact ⟨sweep, by rw [hsweeps, Function.update_of_ne heq, hsweep]⟩
  rcases h.sweep_of_step hstep hnext with ⟨old, hold, hmove⟩ | ⟨hnone, -⟩
  · obtain rfl := Option.some.inj (hsweep.symm.trans hold)
    exact ⟨next, hnext, hmove⟩
  · rw [hsweep] at hnone
    cases hnone

/-! ### Connections from one state to the next -/

/-- How a step that is no turn changes the connections. -/
inductive ConnectionsMove (s : Server) : Label → (SocketId → Option Connection) → Prop where
  | same {label : Label} : ConnectionsMove s label s.world.connections
  | connects (client : Socket) (hnew : s.world.connections client.id = none) :
      ConnectionsMove s (.connect client)
        (Function.update s.world.connections client.id (some ⟨client, false, true, []⟩))
  | readies (socketId : SocketId) :
      ConnectionsMove s (.ready socketId)
        (s.world.updateConnections (·.client.id == socketId) ({ · with ready := true })).connections
  | disconnects (socketId : SocketId) :
      ConnectionsMove s (.disconnect socketId)
        (s.world.updateConnections (·.client.id == socketId) ({ · with connected := false, rooms := [] })).connections

theorem Inv.connections_of_quiet {s t : Server} (h : s.Inv) {label : Label} (hstep : s.step label = some t)
    (hquiet : IsQuiet label) : ConnectionsMove s label t.world.connections := by
  cases label with
  | turn id input => exact absurd rfl (hquiet id input)
  | request id request =>
      simp only [step, receive] at hstep
      split at hstep
      · rw [(h.tasks_of_start hstep).2.2.2.1]
        exact .same
      · cases hstep
  | coordination label =>
      simp only [step, coordinate] at hstep
      split at hstep
      · obtain ⟨coordination, -, rfl⟩ := Option.map_eq_some_iff.mp hstep
        exact .same
      · cases hstep
  | announce id =>
      simp only [step, announce, Option.bind_eq_some_iff, Option.map_eq_some_iff] at hstep
      obtain ⟨-, -, task, -, result, -, rfl⟩ := hstep
      exact .same
  | connect client =>
      simp only [step, connect] at hstep
      split at hstep
      · cases hstep
      · rename_i hnew
        cases hstep
        exact .connects client (Option.not_isSome_iff_eq_none.mp hnew)
  | sweep sweepId kind =>
      cases kind <;> simp only [step, beginSweep] at hstep <;> split_ifs at hstep <;> cases hstep <;> exact .same
  | sweepNext sweepId id =>
      obtain ⟨sweep, -, hstep⟩ := Option.bind_eq_some_iff.mp hstep
      split at hstep
      · cases hstep
      · obtain ⟨started, hstarted, rfl⟩ := Option.map_eq_some_iff.mp hstep
        change ConnectionsMove s _ started.world.connections
        rw [(h.tasks_of_start hstarted).2.2.2.1]
        exact .same
      · cases hstep
        exact .same
  | sweepCollect sweepId =>
      simp only [step, sweepCollect, Option.bind_eq_some_iff, Option.map_eq_some_iff] at hstep
      obtain ⟨sweep, -, id, -, call, -, result, -, rfl⟩ := hstep
      split <;> exact .same
  | ready socketId =>
      cases hstep
      exact .readies socketId
  | disconnect socketId =>
      cases hstep
      exact .disconnects socketId
  | tick elapsed | setRow resource id row | setUser username userId =>
      cases hstep
      exact .same

def Disconnected (w : World) (socketId : SocketId) : Prop :=
  ∃ connection, w.connections socketId = some connection ∧ connection.connected = false

/-- A socket does not come back: a new connection has a new id. -/
theorem Inv.keeps_disconnected {s t : Server} (h : s.Inv) {label : Label} (hstep : s.step label = some t)
    {socketId : SocketId} (hdisconnected : Disconnected s.world socketId) : Disconnected t.world socketId := by
  obtain ⟨connection, hconnection, hconnected⟩ := hdisconnected
  by_cases hquiet : IsQuiet label
  · have hmove := h.connections_of_quiet hstep hquiet
    rw [Disconnected]
    generalize t.world.connections = connections at hmove
    cases hmove with
    | same => exact ⟨connection, hconnection, hconnected⟩
    | connects client hnew =>
        have hne : socketId ≠ client.id := by
          rintro rfl
          rw [hconnection] at hnew
          cases hnew
        exact ⟨connection, (Function.update_of_ne hne ..).trans hconnection, hconnected⟩
    | readies other =>
        simp only [World.updateConnections, hconnection, Option.map_some]
        refine ⟨_, rfl, ?_⟩
        split <;> exact hconnected
    | disconnects other =>
        simp only [World.updateConnections, hconnection, Option.map_some]
        refine ⟨_, rfl, ?_⟩
        split
        · rfl
        · exact hconnected
  · simp only [IsQuiet, not_forall, not_not] at hquiet
    obtain ⟨id, input, rfl⟩ := hquiet
    obtain ⟨call, task, progress, hturn⟩ := exists_turn hstep
    exact (RoomTurn.of_body hturn.hbody).disconnected hconnection hconnected

theorem not_disconnected_of_connected {w : World} {client : Socket} (h : w.connected client) :
    ¬Disconnected w client.id := by
  rintro ⟨connection, hconnection, hdisconnected⟩
  rw [World.connected, hconnection] at h
  simp [hdisconnected] at h

end Transcendence.Realtime.Server
