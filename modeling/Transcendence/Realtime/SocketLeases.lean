import Transcendence.Realtime.LeaseTurns
import Transcendence.Realtime.QuietSteps

/-!
# Leases of a disconnected socket

`releaseSocket` goes through a snapshot and awaits the locks of each lease, while calls of
`field:lock` are in flight. Nothing slips past it: the snapshot is taken after the socket has
disconnected, a lease is only made for a connected socket in the turn that finds it connected, and a
lease in the snapshot that still stands has its release ahead. So the table holds no lease of the
socket once the loop has ended, and never again.
-/

namespace Transcendence.Realtime.Server

open OrderedMap (get UniqueKeys)

/-! ### The loop of `releaseSocket` -/

/-- The lease of `key` is still to be released by the loop. -/
def Ahead (s : Server) (sweep : Sweep) (socketId : SocketId) (key : String) : Prop :=
  (∃ projectId, (key, projectId) ∈ sweep.pending) ∨
    ∃ id task projectId, sweep.current = some id ∧ s.tasks id = some task ∧
      task.request = .releaseLease socketId projectId key ∧ task.progress = .begun

/-- The socket of a `releaseSocket` loop is disconnected, and its leases are still to be released by
the loop. -/
structure SweepInv (s : Server) : Prop where
  unique : UniqueKeys s.world.leases
  disconnected : ∀ sweepId sweep socketId, s.sweeps sweepId = some sweep → sweep.kind = .releaseSocket socketId →
    Disconnected s.world socketId
  ahead : ∀ sweepId sweep socketId, s.sweeps sweepId = some sweep → sweep.kind = .releaseSocket socketId →
    ∀ key lease, get s.world.leases key = some lease → lease.socketId = socketId → Ahead s sweep socketId key

theorem sweepInv_initial (users : String → Option UserId) (members : ProjectId → UserId → Option Role) :
    (initial users members).SweepInv where
  unique := List.nodup_nil
  disconnected _ _ _ h := by cases h
  ahead _ _ _ h := by cases h

theorem kind_eq_of_moves {s t : Server} {sweep next : Sweep} (h : next = sweep ∨ SweepMoves s t sweep next) :
    next.kind = sweep.kind := by
  rcases h with rfl | hmove
  · rfl
  · cases hmove <;> rfl

/-- After its release, a key is not the socket's. -/
theorem socketId_ne_of_release {leases : Leases} {key : String} {socketId : SocketId} {lease : FieldLockLease}
    (hget : get (leases.release key socketId).1 key = some lease) : lease.socketId ≠ socketId := by
  rw [Leases.release] at hget
  cases hold : get leases key with
  | none => simp [hold] at hget
  | some old =>
      simp only [hold] at hget
      split at hget
      · rename_i hne
        rw [hold] at hget
        exact Option.some.inj hget ▸ hne
      · rw [Leases.releaseResource, hold, OrderedMap.get_delete_self] at hget
        cases hget

/-- A step keeps the leases that a loop has not reached ahead of it. -/
theorem Inv.ahead_of_quiet {s t : Server} (h : s.Inv) {label : Label} (hstep : s.step label = some t)
    (hquiet : IsQuiet label) {sweep next : Sweep} {socketId : SocketId} (hkind : sweep.kind = .releaseSocket socketId)
    (hmoves : next = sweep ∨ SweepMoves s t sweep next) {key : String} (hahead : Ahead s sweep socketId key) :
    Ahead t next socketId key := by
  have hcurrent : ∀ id task projectId, s.tasks id = some task →
      task.request = .releaseLease socketId projectId key → task.progress = .begun →
      ∃ task', t.tasks id = some task' ∧ task'.request = .releaseLease socketId projectId key ∧
        task'.progress = .begun := by
    intro id task projectId htask hrequest hbegun
    rcases h.keeps_task hstep hquiet htask with hkept | ⟨-, hkept⟩
    · exact ⟨task, hkept, hrequest, hbegun⟩
    · exact ⟨_, hkept, hrequest, hbegun⟩
  have hunsettled : ∀ id task result, s.tasks id = some task → task.progress = .begun → s.result id ≠ some result := by
    rintro id ⟨request, progress, announced⟩ result htask rfl hresult
    simp [Server.result, htask] at hresult
  rcases hahead with ⟨projectId, hmem⟩ | ⟨id, task, projectId, hid, htask, hrequest, hbegun⟩
  · rcases hmoves with rfl | hmove
    · exact Or.inl ⟨projectId, hmem⟩
    cases hmove with
    | calls key' projectId' pending id hidle hpending htask =>
        rw [hpending, List.mem_cons] at hmem
        rcases hmem with heq | hmem
        · obtain ⟨rfl, rfl⟩ := Prod.mk.inj heq
          rw [hkind] at htask
          exact Or.inr ⟨id, _, projectId, rfl, htask, rfl, rfl⟩
        · exact Or.inl ⟨projectId, hmem⟩
    | ends hidle hpending => simp [hpending] at hmem
    | holdsBack => exact Or.inl ⟨projectId, hmem⟩
    | emits => exact Or.inl ⟨projectId, hmem⟩
  · obtain ⟨task', htask', hrequest', hbegun'⟩ := hcurrent id task projectId htask hrequest hbegun
    rcases hmoves with rfl | hmove
    · exact Or.inr ⟨id, task', projectId, hid, htask', hrequest', hbegun'⟩
    cases hmove with
    | calls key' projectId' pending id' hidle => simp [hidle] at hid
    | ends hidle => simp [hidle] at hid
    | holdsBack socketId' id' result hkind' hcurrent' hresult =>
        obtain rfl := Option.some.inj (hcurrent'.symm.trans hid)
        exact absurd hresult (hunsettled _ task result htask hbegun)
    | emits id' result hkind' hcurrent' hresult =>
        obtain rfl := Option.some.inj (hcurrent'.symm.trans hid)
        exact absurd hresult (hunsettled _ task result htask hbegun)

theorem SweepInv.quiet {s t : Server} (h : s.SweepInv) (hinv : s.Inv) {label : Label} (hstep : s.step label = some t)
    (hquiet : IsQuiet label) (hleases : t.world.leases = s.world.leases) : t.SweepInv where
  unique := hleases ▸ h.unique
  disconnected sweepId next socketId hnext hkind := by
    apply hinv.keeps_disconnected hstep
    rcases hinv.sweep_of_step hstep hnext with ⟨sweep, hsweep, hmove⟩ | ⟨-, -, hbegins⟩
    · exact h.disconnected sweepId sweep socketId hsweep (kind_eq_of_moves hmove ▸ hkind)
    · cases hbegins with
      | releaseSocket other connection hconnection hdisconnected =>
          cases hkind
          exact ⟨connection, hconnection, hdisconnected⟩
      | releaseExpiredLeases => cases hkind
  ahead sweepId next socketId hnext hkind key lease hget hsocket := by
    rw [hleases] at hget
    rcases hinv.sweep_of_step hstep hnext with ⟨sweep, hsweep, hmove⟩ | ⟨-, -, hbegins⟩
    · have hkind' : sweep.kind = .releaseSocket socketId := kind_eq_of_moves hmove ▸ hkind
      exact hinv.ahead_of_quiet hstep hquiet hkind' hmove (h.ahead sweepId sweep socketId hsweep hkind' key lease hget hsocket)
    · cases hbegins with
      | releaseSocket other connection hconnection hdisconnected =>
          cases hkind
          refine Or.inl ⟨lease.projectId, List.mem_map.mpr ⟨(key, lease), ?_, rfl⟩⟩
          exact List.mem_filter.mpr ⟨OrderedMap.mem_of_get hget, by simpa using hsocket⟩
      | releaseExpiredLeases => cases hkind

variable {s t : Server} {id : CallId} {input : Input} {call : CoordinatorCall} {task : Task} {progress : Progress}

/-- A turn makes no lease for a disconnected socket, and removes the one its call is to release. -/
theorem SweepInv.turn (h : s.SweepInv) (hinv : s.Inv) (hstep : s.step (.turn id input) = some t)
    (hturn : Turn s t id input call task progress) : t.SweepInv := by
  have hleases := LeaseTurn.of_body hturn.hbody
  have hsweeps : t.sweeps = s.sweeps := by
    rw [hturn.next]
    rfl
  refine ⟨hleases.uniqueKeys h.unique, fun sweepId sweep socketId hsweep hkind => ?_,
    fun sweepId sweep socketId hsweep hkind key lease hget hsocket => ?_⟩
  · exact hinv.keeps_disconnected hstep (h.disconnected sweepId sweep socketId (hsweeps ▸ hsweep) hkind)
  · rw [hsweeps] at hsweep
    rcases hleases.holder_of_get h.unique hget with ⟨old, hold, hsame⟩ | ⟨client, hconnected, hclient⟩
    · rcases h.ahead sweepId sweep socketId hsweep hkind key old hold (hsame.trans hsocket) with
        hpending | ⟨current, task', projectId, hcurrent, htask', hrequest, hbegun⟩
      · exact Or.inl hpending
      · by_cases heq : current = id
        · -- The turn is the release itself.
          subst heq
          obtain rfl := Option.some.inj (htask'.symm.trans hturn.htask)
          have hbody := hturn.hbody
          rw [hrequest, hbegun] at hbody
          obtain ⟨hworld, -⟩ := World.returned_eq_some.mp hbody
          rw [← hworld] at hget
          exact absurd hsocket (socketId_ne_of_release hget)
        · exact Or.inr ⟨current, task', projectId, hcurrent, (hturn.tasks_of_ne heq).trans htask', hrequest, hbegun⟩
    · have hdisconnected := h.disconnected sweepId sweep socketId hsweep hkind
      rw [← hsocket, hclient] at hdisconnected
      exact absurd hdisconnected (not_disconnected_of_connected hconnected)

theorem sweepInv_preserved : Runs.Preserved step fun s => s.Inv ∧ s.SweepInv := by
  rintro s label t ⟨hinv, h⟩ hstep
  refine ⟨inv_preserved hinv hstep, ?_⟩
  rcases turn_or_quiet hstep with ⟨id, input, call, task, progress, rfl, hturn⟩ | hquiet
  · exact h.turn hinv hstep hturn
  · by_cases hlabel : IsQuiet label
    · exact h.quiet hinv hstep hlabel hquiet.leases
    · simp only [IsQuiet, not_forall, not_not] at hlabel
      obtain ⟨id, input, rfl⟩ := hlabel
      obtain ⟨call, task, progress, hturn⟩ := exists_turn hstep
      exact h.turn hinv hstep hturn

/-- A loop of `releaseSocket` for the socket has ended. -/
def SocketReleased (s : Server) (socketId : SocketId) : Prop :=
  ∃ sweepId sweep, s.sweeps sweepId = some sweep ∧ sweep.kind = .releaseSocket socketId ∧ sweep.pending = [] ∧
    sweep.current = none

theorem Inv.keeps_socketReleased {s t : Server} (h : s.Inv) {label : Label} (hstep : s.step label = some t)
    {socketId : SocketId} (hreleased : SocketReleased s socketId) : SocketReleased t socketId := by
  obtain ⟨sweepId, sweep, hsweep, hkind, hpending, hcurrent⟩ := hreleased
  obtain ⟨next, hnext, hmove⟩ := h.exists_sweep_of_step hstep hsweep
  refine ⟨sweepId, next, hnext, (kind_eq_of_moves hmove).trans hkind, ?_⟩
  rcases hmove with rfl | hmove
  · exact ⟨hpending, hcurrent⟩
  cases hmove with
  | calls key projectId pending id hidle hmore => simp [hpending] at hmore
  | ends => exact ⟨hpending, hcurrent⟩
  | holdsBack socketId id result hkind hbusy => simp [hcurrent] at hbusy
  | emits id result hkind hbusy => simp [hcurrent] at hbusy

theorem SweepInv.no_lease (h : s.SweepInv) {socketId : SocketId} (hreleased : SocketReleased s socketId) :
    ∀ entry ∈ s.world.leases, entry.2.socketId ≠ socketId := by
  obtain ⟨sweepId, sweep, hsweep, hkind, hpending, hcurrent⟩ := hreleased
  rintro ⟨key, lease⟩ hentry hsocket
  rcases h.ahead sweepId sweep socketId hsweep hkind key lease (OrderedMap.get_of_mem h.unique hentry) hsocket with
    ⟨projectId, hmem⟩ | ⟨id, task, projectId, hid, -⟩
  · simp [hpending] at hmem
  · simp [hcurrent] at hid

/-- **No lease outlives its socket**: in every state from the end of `releaseSocket` on, for any
calls of the server's handlers in any interleaving. -/
theorem no_lease_of_released_socket (users : String → Option UserId) (members : ProjectId → UserId → Option Role)
    (labels later : List Label) (s t : Server) (socketId : SocketId)
    (hrun : Runs.run step (initial users members) labels = some s) (hreleased : SocketReleased s socketId)
    (hlater : Runs.run step s later = some t) : ∀ entry ∈ t.world.leases, entry.2.socketId ≠ socketId := by
  obtain ⟨hinv, hsweeps⟩ := sweepInv_preserved.run ⟨inv_initial users members, sweepInv_initial users members⟩ hrun
  have hkeeps : Runs.Preserved step fun s => (s.Inv ∧ s.SweepInv) ∧ SocketReleased s socketId := by
    rintro s label t ⟨h, hreleased⟩ hstep
    exact ⟨sweepInv_preserved h hstep, h.1.keeps_socketReleased hstep hreleased⟩
  obtain ⟨⟨-, hsweeps'⟩, hreleased'⟩ := hkeeps.run ⟨⟨hinv, hsweeps⟩, hreleased⟩ hlater
  exact hsweeps'.no_lease hreleased'

/-! A tab holds one field and has asked for another when it is closed; the request goes on after
`releaseSocket`. -/

def tab : Socket := ⟨"socket", "user", "jdoe", none⟩

def onlyMember (projectId : ProjectId) (userId : UserId) : Option Role :=
  if projectId = "project" ∧ userId = "user" then some .OWNER else none

def closing : List Label :=
  [.setRow .checklistItem "1" (some ⟨"project", "first"⟩), .setRow .checklistItem "2" (some ⟨"project", "second"⟩),
    .connect tab, .ready "socket", .request 0 (.joinRoom tab "project"), .coordination (.enterProject 0), .turn 0 {},
    .turn 0 {}, .turn 0 {}, .coordination (.settleBody 0), .coordination (.leave 0),
    .request 1 (.field .lock tab "project" "checklist-item:1"), .coordination (.enterProject 1),
    .coordination (.enterKey 1), .turn 1 {}, .turn 1 {}, .turn 1 {}, .turn 1 {}, .turn 1 { randomUUID := "lease" },
    .coordination (.settleBody 1), .coordination (.leave 1), .announce 1,
    .request 2 (.field .lock tab "project" "checklist-item:2"), .coordination (.enterProject 2),
    .coordination (.enterKey 2), .turn 2 {}, .turn 2 {}, .disconnect "socket", .sweep 0 (.releaseSocket "socket"),
    .sweepNext 0 3, .coordination (.enterProject 3), .coordination (.enterKey 3), .turn 3 {},
    .coordination (.settleBody 3), .coordination (.leave 3), .sweepCollect 0]

/-- The second request is refused in its last turn. -/
def lateLock : List Label := [.turn 2 {}, .turn 2 {}, .turn 2 { randomUUID := "late" }]

theorem no_lease_of_closing : ∃ s t, Runs.run step (initial (fun _ => none) onlyMember) closing = some s ∧
    Runs.run step s lateLock = some t ∧ (t.result 2).isSome ∧ ∀ entry ∈ t.world.leases, entry.2.socketId ≠ "socket" := by
  have hsweep : (Runs.run step (initial (fun _ => none) onlyMember) closing).bind (·.sweeps 0) =
      some ⟨.releaseSocket "socket", [], none, [.fieldUnlocked "project" "checklist-item:1"]⟩ := by decide
  obtain ⟨s, hrun, hended⟩ := Option.bind_eq_some_iff.mp hsweep
  have hlate : (Runs.run step (initial (fun _ => none) onlyMember) (closing ++ lateLock)).bind (·.result 2) =
      some (.returned [] none none) := by decide
  rw [Runs.run_append, hrun, Option.bind_some] at hlate
  obtain ⟨t, hlater, hresult⟩ := Option.bind_eq_some_iff.mp hlate
  exact ⟨s, t, hrun, hlater, by rw [hresult]; rfl, no_lease_of_released_socket (fun _ => none) onlyMember closing lateLock s t
    "socket" hrun ⟨0, _, hended, rfl, rfl, rfl⟩ hlater⟩

end Transcendence.Realtime.Server
