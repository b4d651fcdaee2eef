import Transcendence.Realtime.RoomChanges

/-!
# Rooms equal memberships

A socket is outside the room of a project of its user only while somebody is still going to put it
there (`JoinPending`): the `addMember` or the creation that made the membership, or the socket's own
admission. It is inside the room of another project only while the `removeMember` that took the
membership away has not called `leaveProjectRoom` yet (`LeavePending`). The exclusive lock of the
project makes this an invariant: no admission reads a membership while an `addMember` or a
`removeMember` stands between its write and its turn to the rooms.
-/

namespace Transcendence.Realtime

open Server (Quiet IsQuiet)

namespace Gateway

variable {g g' : Gateway} {s t : Server} {projects : List ProjectId}

/-! ### The invariant -/

/-- Somebody is going to put the socket into the room. -/
inductive JoinPending (g : Gateway) (client : Socket) (projectId : ProjectId) : Prop where
  | adding {id : CallId} {task : Task} {username : String} {requestingUserId : UserId}
      (htask : g.server.tasks id = some task) (hrequest : task.request = .addMember projectId username requestingUserId)
      (hwritten : task.progress = .written client.userId)
  | creating {creation : Nat} (hcreation : g.creations creation = some (client.userId, projectId))
  | unread {admission : Admission} (hadmission : g.admissions client.id = some admission)
      (hunread : admission.memberships = none)
  | ahead {admission : Admission} {memberships : List ProjectId} (hadmission : g.admissions client.id = some admission)
      (hread : admission.memberships = some memberships) (hmem : projectId ∈ memberships)
  | joining {admission : Admission} {id : CallId} {task : Task} (hadmission : g.admissions client.id = some admission)
      (hcurrent : admission.current = some id) (htask : g.server.tasks id = some task)
      (hrequest : task.request = .joinRoom client projectId) (hunsettled : ∀ result, task.progress ≠ .settled result)

/-- A `removeMember` is going to take the user's sockets out of the room. -/
def LeavePending (s : Server) (userId : UserId) (projectId : ProjectId) : Prop :=
  ∃ id task requestingUserId target, s.tasks id = some task ∧
    task.request = .removeMember projectId userId requestingUserId ∧ task.progress = .written target

structure RoomsInv (g : Gateway) : Prop where
  server : ServerInv g.server g.projects
  ahead : ∀ socketId admission memberships, g.admissions socketId = some admission →
    admission.memberships = some memberships → ∀ projectId ∈ memberships, projectId ∈ g.projects
  ready : ∀ socketId connection, g.server.world.connections socketId = some connection → connection.ready →
    g.admissions socketId = none
  created : ∀ creation userId projectId, g.creations creation = some (userId, projectId) →
    g.server.world.members projectId userId = some .OWNER
  left : ∀ socketId connection, g.server.world.connections socketId = some connection → ∀ projectId ∈ connection.rooms,
    (g.server.world.members projectId connection.client.userId).isSome ∨
      LeavePending g.server connection.client.userId projectId
  joined : ∀ socketId connection, g.server.world.connections socketId = some connection → connection.connected →
    ∀ projectId, (g.server.world.members projectId connection.client.userId).isSome →
      projectId ∈ connection.rooms ∨ JoinPending g connection.client projectId

theorem LeavePending.keeps {userId : UserId} {projectId : ProjectId} (h : LeavePending s userId projectId)
    (hkeeps : KeepsTasks s t) : LeavePending t userId projectId := by
  obtain ⟨id, task, requestingUserId, target, htask, hrequest, hwritten⟩ := h
  obtain ⟨next, hnext, hsame, hprogress⟩ := hkeeps id task htask
  exact ⟨id, next, requestingUserId, target, hnext, hsame.trans hrequest, hprogress.trans hwritten⟩

/-- Where the step leaves the socket's admission and the creation alone. -/
theorem JoinPending.keeps {client : Socket} {projectId : ProjectId} (h : JoinPending g client projectId)
    (hkeeps : KeepsTasks g.server g'.server) (hadmissions : g'.admissions client.id = g.admissions client.id)
    (hcreations : ∀ creation, g.creations creation = some (client.userId, projectId) →
      g'.creations creation = some (client.userId, projectId)) : JoinPending g' client projectId := by
  cases h with
  | adding htask hrequest hwritten =>
      obtain ⟨next, hnext, hsame, hprogress⟩ := hkeeps _ _ htask
      exact .adding hnext (hsame.trans hrequest) (hprogress.trans hwritten)
  | creating hcreation => exact .creating (hcreations _ hcreation)
  | unread hadmission hunread => exact .unread (hadmissions.trans hadmission) hunread
  | ahead hadmission hread hmem => exact .ahead (hadmissions.trans hadmission) hread hmem
  | joining hadmission hcurrent htask hrequest hunsettled =>
      obtain ⟨next, hnext, hsame, hprogress⟩ := hkeeps _ _ htask
      exact .joining (hadmissions.trans hadmission) hcurrent hnext (hsame.trans hrequest) (hprogress ▸ hunsettled)

/-- A step that is no turn of a body, changes no membership and takes nobody's room but a
disconnected socket's. -/
theorem RoomsInv.of_kept (h : RoomsInv g) (hserver : ServerInv g'.server g'.projects)
    (hmembers : g'.server.world.members = g.server.world.members) (hkeeps : KeepsTasks g.server g'.server)
    (hconnections : ∀ socketId, Option.Rel ConnectionKept (g.server.world.connections socketId)
      (g'.server.world.connections socketId))
    (hcreations : g'.creations = g.creations)
    (hahead : ∀ socketId admission memberships, g'.admissions socketId = some admission →
      admission.memberships = some memberships → ∀ projectId ∈ memberships, projectId ∈ g'.projects)
    (hready : ∀ socketId connection, g'.server.world.connections socketId = some connection → connection.ready →
      g'.admissions socketId = none)
    (hpending : ∀ connection, g.server.world.connections connection.client.id = some connection →
      g'.server.world.connected connection.client → ∀ projectId,
        (g.server.world.members projectId connection.client.userId).isSome →
          JoinPending g connection.client projectId → JoinPending g' connection.client projectId) : RoomsInv g' where
  server := hserver
  ahead := hahead
  ready := hready
  created creation userId projectId hcreation := by
    rw [hmembers]
    exact h.created creation userId projectId (hcreations ▸ hcreation)
  left socketId connection hconnection projectId hmem := by
    obtain ⟨old, hold, hkept⟩ := exists_before (hconnections socketId) hconnection
    rw [hmembers, hkept.client]
    exact (h.left socketId old hold projectId (hkept.mem_rooms hmem)).imp_right fun hpending => hpending.keeps hkeeps
  joined socketId connection hconnection hconnected projectId hmember := by
    obtain ⟨old, hold, hkept⟩ := exists_before (hconnections socketId) hconnection
    obtain ⟨hconnected', hrooms⟩ := hkept.of_connected hconnected
    rw [hmembers, hkept.client] at hmember
    rw [hrooms, hkept.client]
    have hkey := h.server.connections.key socketId old hold
    refine (h.joined socketId old hold hconnected' projectId hmember).imp_right
      (hpending old (hkey.symm ▸ hold) ?_ projectId hmember)
    rw [World.connected, hkey, hconnection]
    exact hconnected

/-! ### Steps of the server -/

theorem rel_disconnect (s : Server) (socketId other : SocketId) : Option.Rel
    (fun before after : Connection => ConnectionKept before after ∧ after.ready = before.ready)
    (s.world.connections other) ((s.disconnect socketId).world.connections other) :=
  World.rel_updateConnections s.world other _ _ (fun _ _ _ => ⟨⟨rfl, Or.inr ⟨rfl, rfl⟩⟩, rfl⟩) fun _ _ => ⟨.refl _, rfl⟩

theorem RoomsInv.of_quiet (h : RoomsInv g) {label : Server.Label} (hother : isOther label) (hquiet : IsQuiet label)
    (hstep : g.server.step label = some t) : RoomsInv { g with server := t } := by
  have hkeeps := keepsTasks_of_quiet h.server.inv hstep hquiet
  have hquiet' : Quiet g.server t := by
    rcases Server.turn_or_quiet hstep with ⟨id, input, call, task, progress, rfl, -⟩ | hquiet'
    · exact absurd rfl (hquiet id input)
    · exact hquiet'
  have hmove := h.server.inv.connections_of_quiet hstep hquiet
  have hconnections : ∀ socketId, Option.Rel
      (fun before after : Connection => ConnectionKept before after ∧ after.ready = before.ready)
      (g.server.world.connections socketId) (t.world.connections socketId) := by
    intro socketId
    generalize t.world.connections = connections at hmove
    cases hmove with
    | same =>
        cases g.server.world.connections socketId with
        | none => exact .none
        | some connection => exact .some ⟨.refl _, rfl⟩
    | connects => cases hother
    | readies => cases hother
    | disconnects other =>
        exact rel_disconnect g.server other socketId
  have hkept := fun socketId => rel_imp (fun _ _ hboth => hboth.1) (hconnections socketId)
  refine h.of_kept (h.server.kept hquiet' hkeeps hkept ?_) hquiet'.members hkeeps hkept rfl h.ahead ?_ ?_
  · intro id task client projectId hnew htask hrequest
    rcases (h.server.inv.new_task hstep hquiet hnew htask).1 with rfl | ⟨hswept, -⟩
    · rw [hrequest] at hother
      cases hother
    · rw [hrequest] at hswept
      cases hswept
  · intro socketId connection hconnection hready
    obtain ⟨old, hold, -, hsame⟩ := exists_before (hconnections socketId) hconnection
    exact h.ready socketId old hold (hsame ▸ hready)
  · exact fun connection _ _ projectId _ hpending => hpending.keeps hkeeps rfl fun _ hcreation => hcreation

variable {id : CallId} {input : Input} {call : CoordinatorCall} {task : Task} {progress : Progress}

/-- The turn of a pending join that succeeds brings it on, or puts the socket into the room. -/
theorem RoomsInv.joined_turn (h : RoomsInv g) (hturn : Server.Turn g.server t id input call task progress)
    (hsucceeds : input.succeeds) {socketId : SocketId} {old connection : Connection}
    (hold : g.server.world.connections socketId = some old) (hconnection : t.world.connections socketId = some connection)
    (hclient : connection.client = old.client) (hconnected : old.connected) {projectId : ProjectId}
    (hmember : (g.server.world.members projectId old.client.userId).isSome)
    (hpending : JoinPending g old.client projectId) :
    projectId ∈ connection.rooms ∨ JoinPending { g with server := t } old.client projectId := by
  have hkey := h.server.connections.key socketId old hold
  have hjoins : ∀ among : Connection → Bool, among old → t.world = g.server.world.updateConnections among (World.join projectId) →
      projectId ∈ connection.rooms := by
    intro among hamong hworld
    rw [hworld] at hconnection
    simp only [World.updateConnections, hold, Option.map_some, hamong, if_true] at hconnection
    obtain rfl := Option.some.inj hconnection
    exact List.mem_insert_self
  cases hpending with
  | adding htask hrequest hwritten =>
      rename_i other task' username requestingUserId
      by_cases heq : other = id
      · subst heq
        obtain rfl := Option.some.inj (htask.symm.trans hturn.htask)
        have hbody := hturn.hbody
        rw [hrequest, hwritten] at hbody
        exact Or.inl (hjoins _ (by simp [hconnected]) (World.joinProjectRoom_of_written hbody hsucceeds))
      · exact Or.inr (.adding ((hturn.tasks_of_ne heq).trans htask) hrequest hwritten)
  | creating hcreation => exact Or.inr (.creating hcreation)
  | unread hadmission hunread => exact Or.inr (.unread hadmission hunread)
  | ahead hadmission hread hmem => exact Or.inr (.ahead hadmission hread hmem)
  | joining hadmission hcurrent htask hrequest hunsettled =>
      rename_i admission other task'
      by_cases heq : other = id
      · subst heq
        obtain rfl := Option.some.inj (htask.symm.trans hturn.htask)
        have hbody := hturn.hbody
        have hknown := h.server.known other task' htask
        rw [hrequest] at hbody hknown
        have hup : g.server.world.connected old.client := by
          rw [World.connected, hkey, hold]
          exact hconnected
        rcases World.joins_of_joinRooms hbody hsucceeds hknown hup hmember with hunsettled' | hworld
        · exact Or.inr (.joining hadmission hcurrent hturn.tasks_self hrequest hunsettled')
        · exact Or.inl (hjoins _ (by simp) hworld)
      · exact Or.inr (.joining hadmission hcurrent ((hturn.tasks_of_ne heq).trans htask) hrequest hunsettled)

/-- The turn of a pending leave that succeeds takes the socket out of the room. -/
theorem RoomsInv.left_turn (h : RoomsInv g) (hturn : Server.Turn g.server t id input call task progress)
    (hsucceeds : input.succeeds) {socketId : SocketId} {old connection : Connection}
    (hold : g.server.world.connections socketId = some old) (hconnection : t.world.connections socketId = some connection)
    {projectId : ProjectId} (hroom : projectId ∈ old.rooms) (hmem : projectId ∈ connection.rooms)
    (hpending : LeavePending g.server old.client.userId projectId) :
    LeavePending t old.client.userId projectId := by
  obtain ⟨other, task', requestingUserId, target, htask, hrequest, hwritten⟩ := hpending
  by_cases heq : other = id
  · subst heq
    obtain rfl := Option.some.inj (htask.symm.trans hturn.htask)
    have hbody := hturn.hbody
    rw [hrequest, hwritten] at hbody
    have hconnected : old.connected = true := by
      by_contra hgone
      rw [h.server.connections.gone socketId old hold (Bool.eq_false_iff.mpr hgone)] at hroom
      cases hroom
    rw [World.leaveProjectRoom_of_written hbody hsucceeds] at hconnection
    simp only [World.leaveProjectRoom, World.updateConnections, hold, Option.map_some, hconnected, beq_self_eq_true,
      Bool.and_self, if_true] at hconnection
    obtain rfl := Option.some.inj hconnection
    exact absurd hmem (h.server.connections.nodup socketId old hold).not_mem_erase
  · exact ⟨other, task', requestingUserId, target, (hturn.tasks_of_ne heq).trans htask, hrequest, hwritten⟩

theorem RoomsInv.of_turn (h : RoomsInv g) (hturn : Server.Turn g.server t id input call task progress)
    (hsucceeds : input.succeeds) : RoomsInv { g with server := t } where
  server := h.server.turn hturn
  ahead := h.ahead
  ready socketId connection hconnection hready := by
    obtain ⟨old, hold, hmove⟩ := exists_before (h.server.connectionTurn hturn socketId) hconnection
    exact h.ready socketId old hold (hmove.ready ▸ hready)
  created creation userId projectId hcreation := by
    have howner := h.created creation userId projectId hcreation
    by_contra hne
    have hchanged : t.world.members projectId userId ≠ g.server.world.members projectId userId :=
      fun hsame => hne (hsame.trans howner)
    obtain ⟨requestingUserId, -, hauthorized⟩ := Server.authorized_of_membershipTurn
      (World.membershipTurn_of_body hturn.hbody) (h.server.known id task hturn.htask) hchanged
    exact hauthorized.owner.1 howner
  left socketId connection hconnection projectId hmem := by
    obtain ⟨old, hold, hmove⟩ := exists_before (h.server.connectionTurn hturn socketId) hconnection
    rw [hmove.client]
    by_cases hafter : (t.world.members projectId old.client.userId).isSome
    · exact Or.inl hafter
    right
    -- a membership that has just gone has its `removeMember` at `written`
    have hremoved : (g.server.world.members projectId old.client.userId).isSome →
        ∃ requestingUserId, task.request = .removeMember projectId old.client.userId requestingUserId ∧
          progress = .written old.client.userId := fun hbefore =>
      World.removes_of_membershipTurn (World.membershipTurn_of_body hturn.hbody) hbefore
        (Option.not_isSome_iff_eq_none.mp hafter)
    rcases hmove.joins projectId hmem with hroom | hjoins
    · rcases h.left socketId old hold projectId hroom with hbefore | hpending
      · obtain ⟨requestingUserId, hrequest, hwritten⟩ := hremoved hbefore
        exact ⟨id, _, requestingUserId, _, hturn.tasks_self, hrequest, hwritten⟩
      · exact h.left_turn hturn hsucceeds hold hconnection hroom hmem hpending
    · have hknown := h.server.known id task hturn.htask
      rcases hjoins with ⟨client, role, hrequest, hread, hid⟩ | ⟨username, requestingUserId, hrequest, hwritten⟩
      · obtain ⟨-, connection', hconnection', hclient⟩ := h.server.joining id task client projectId hturn.htask hrequest
        rw [← hid, h.server.connections.key socketId old hold, hold] at hconnection'
        obtain rfl := Option.some.inj hconnection'
        rw [hrequest, hread] at hknown
        have hrole : g.server.world.members projectId client.userId = some role := hknown
        obtain ⟨requestingUserId, hrequest', -⟩ := hremoved (by rw [hclient, hrole]; rfl)
        cases hrequest.symm.trans hrequest'
      · rw [hrequest, hwritten] at hknown
        obtain ⟨requestingUserId', hrequest', -⟩ := hremoved hknown
        cases hrequest.symm.trans hrequest'
  joined socketId connection hconnection hconnected projectId hmember := by
    obtain ⟨old, hold, hmove⟩ := exists_before (h.server.connectionTurn hturn socketId) hconnection
    have hconnected' : old.connected = true := hmove.connected ▸ hconnected
    rw [hmove.client] at hmember ⊢
    by_cases hbefore : (g.server.world.members projectId old.client.userId).isSome
    · rcases h.joined socketId old hold hconnected' projectId hbefore with hroom | hpending
      · refine Or.inl ((hmove.leaves projectId hroom).resolve_right ?_)
        rintro ⟨requestingUserId, target, hrequest, hwritten⟩
        have hgone := (h.server.inv.sound id task hturn.htask).removed projectId old.client.userId requestingUserId target
          hrequest hwritten
        simp [hgone] at hbefore
      · exact h.joined_turn hturn hsucceeds hold hconnection hmove.client hconnected' hbefore hpending
    · obtain ⟨username, requestingUserId, hrequest, -, hwritten⟩ := World.adds_of_membershipTurn
        (World.membershipTurn_of_body hturn.hbody) (Option.not_isSome_iff_eq_none.mp hbefore) hmember
      exact Or.inr (.adding hturn.tasks_self hrequest hwritten)

/-! ### Steps of an admission -/

theorem setAdmission_admissions_self (g : Gateway) (socketId : SocketId) (admission : Option Admission) :
    (g.setAdmission socketId admission).admissions socketId = admission := Function.update_self ..

theorem setAdmission_admissions_of_ne (g : Gateway) {socketId other : SocketId} (admission : Option Admission)
    (hne : other ≠ socketId) : (g.setAdmission socketId admission).admissions other = g.admissions other :=
  Function.update_of_ne hne ..

theorem KeepsTasks.refl (s : Server) : KeepsTasks s s := fun _ task htask => ⟨task, htask, rfl, rfl⟩

theorem rel_refl (connection : Option Connection) : Option.Rel ConnectionKept connection connection := by
  cases connection with
  | none => exact .none
  | some connection => exact .some (.refl connection)

/-- What an admission that moves on or ends still has ahead. -/
theorem RoomsInv.setAdmission (h : RoomsInv g) (hserver : ServerInv t g.projects)
    (hmembers : t.world.members = g.server.world.members) (hkeeps : KeepsTasks g.server t)
    (hconnections : ∀ socketId, Option.Rel ConnectionKept (g.server.world.connections socketId)
      (t.world.connections socketId))
    {socketId : SocketId} {old : Admission} (hold : g.admissions socketId = some old) (next : Option Admission)
    (hreadies : ∀ other connection, t.world.connections other = some connection → connection.ready →
      (∃ before, g.server.world.connections other = some before ∧ before.ready) ∨ (other = socketId ∧ next = none))
    (hahead : ∀ admission memberships, next = some admission → admission.memberships = some memberships →
      ∀ projectId ∈ memberships, projectId ∈ g.projects)
    (hpending : ∀ connection, connection.client.id = socketId →
      g.server.world.connections connection.client.id = some connection → t.world.connected connection.client →
        ∀ projectId, (g.server.world.members projectId connection.client.userId).isSome →
          JoinPending g connection.client projectId →
            JoinPending ({ g with server := t }.setAdmission socketId next) connection.client projectId) :
    RoomsInv ({ g with server := t }.setAdmission socketId next) := by
  refine h.of_kept hserver hmembers hkeeps hconnections rfl ?_ ?_ ?_
  · intro other admission memberships hadmission hread projectId hmem
    by_cases heq : other = socketId
    · subst heq
      rw [setAdmission_admissions_self] at hadmission
      exact hahead admission memberships hadmission hread projectId hmem
    · rw [setAdmission_admissions_of_ne _ _ heq] at hadmission
      exact h.ahead other admission memberships hadmission hread projectId hmem
  · intro other connection hconnection hready
    rcases hreadies other connection hconnection hready with ⟨before, hbefore, hready'⟩ | ⟨rfl, rfl⟩
    · have hnone := h.ready other before hbefore hready'
      have hne : other ≠ socketId := by
        rintro rfl
        rw [hold] at hnone
        cases hnone
      exact (setAdmission_admissions_of_ne _ _ hne).trans hnone
    · exact setAdmission_admissions_self ..
  · intro connection hconnection hconnected projectId hmember hwaits
    by_cases heq : connection.client.id = socketId
    · exact hpending connection heq hconnection hconnected projectId hmember hwaits
    · exact hwaits.keeps hkeeps (setAdmission_admissions_of_ne _ _ heq) fun _ hcreation => hcreation

theorem RoomsInv.of_findMemberships (h : RoomsInv g) {socketId : SocketId} (hstep : g.findMemberships socketId = some g') :
    RoomsInv g' := by
  simp only [Gateway.findMemberships, Option.bind_eq_some_iff, Option.map_eq_some_iff, Option.filter_eq_some_iff,
    Option.isNone_iff_eq_none] at hstep
  obtain ⟨connection, hconnection, admission, ⟨hadmission, hunread⟩, rfl⟩ := hstep
  refine h.setAdmission h.server rfl (.refl _) (fun _ => rel_refl _) hadmission _
    (fun other before hbefore hready => Or.inl ⟨before, hbefore, hready⟩) ?_ ?_
  · rintro _ _ ⟨⟩ ⟨⟩ projectId hmem
    exact (List.mem_filter.mp hmem).1
  · intro connection' hsocket hconnection' hconnected projectId hmember hpending
    subst hsocket
    obtain rfl := Option.some.inj (hconnection.symm.trans hconnection')
    cases hpending with
    | adding htask hrequest hwritten => exact .adding htask hrequest hwritten
    | creating hcreation => exact .creating hcreation
    | joining hadmission' hcurrent htask hrequest hunsettled =>
        obtain rfl := Option.some.inj (hadmission.symm.trans hadmission')
        exact .joining (setAdmission_admissions_self ..) hcurrent htask hrequest hunsettled
    | unread | ahead =>
        refine .ahead (setAdmission_admissions_self ..) rfl ?_
        exact List.mem_filter.mpr ⟨h.server.existing projectId _ hmember, hmember⟩

theorem RoomsInv.of_joinRoom (h : RoomsInv g) {socketId : SocketId} {projectId : ProjectId} {id : CallId}
    (hstep : g.joinRoom socketId projectId id = some g') : RoomsInv g' := by
  simp only [Gateway.joinRoom, Option.bind_eq_some_iff, Option.map_eq_some_iff, Option.filter_eq_some_iff,
    Option.isNone_iff_eq_none, List.contains_iff_mem] at hstep
  obtain ⟨connection, ⟨hconnection, -⟩, admission, ⟨hadmission, hidle⟩, memberships, ⟨hread, hmem⟩, t, hreceive, rfl⟩ := hstep
  have hstart : g.server.start id (.joinRoom connection.client projectId) = some t := by
    simp only [Server.receive] at hreceive
    split at hreceive
    · exact hreceive
    · cases hreceive
  obtain ⟨hnone, hself, hothers, hworld, -⟩ := h.server.inv.tasks_of_start hstart
  have hkeeps : KeepsTasks g.server t := by
    intro other task htask
    have hne : other ≠ id := by
      rintro rfl
      rw [hnone] at htask
      cases htask
    exact ⟨task, (hothers other hne).trans htask, rfl, rfl⟩
  have hexisting := h.ahead socketId admission memberships hadmission hread
  have hkept : ∀ other, Option.Rel ConnectionKept (g.server.world.connections other) (t.world.connections other) := by
    rw [hworld]
    exact fun _ => rel_refl _
  have hkey := h.server.connections.key socketId connection hconnection
  have hserver : ServerInv t g.projects := by
    refine h.server.kept (.of_start hstart) hkeeps hkept fun other task client project hnew htask hrequest => ?_
    have heq : other = id := by
      by_contra hne
      rw [hothers other hne, hnew] at htask
      cases htask
    subst heq
    obtain rfl := Option.some.inj (hself.symm.trans htask)
    cases hrequest
    exact ⟨hexisting projectId hmem, connection, by rw [hworld, hkey, hconnection], rfl⟩
  refine h.setAdmission hserver (by rw [hworld]) hkeeps hkept hadmission _ ?_ ?_ ?_
  · exact fun other before hbefore hready => Or.inl ⟨before, hworld ▸ hbefore, hready⟩
  · rintro _ _ ⟨⟩ ⟨⟩ other hother
    exact hexisting other (List.mem_of_mem_erase hother)
  · intro connection' hsocket hconnection' hconnected other hmember hpending
    subst hsocket
    obtain rfl := Option.some.inj (hconnection.symm.trans hconnection')
    cases hpending with
    | adding htask hrequest hwritten =>
        obtain ⟨next, hnext, hsame, hprogress⟩ := hkeeps _ _ htask
        exact .adding hnext (hsame.trans hrequest) (hprogress.trans hwritten)
    | creating hcreation => exact .creating hcreation
    | unread hadmission' hunread =>
        obtain rfl := Option.some.inj (hadmission.symm.trans hadmission')
        rw [hread] at hunread
        cases hunread
    | ahead hadmission' hread' hmem' =>
        obtain rfl := Option.some.inj (hadmission.symm.trans hadmission')
        obtain rfl := Option.some.inj (hread.symm.trans hread')
        by_cases heq : other = projectId
        · subst heq
          exact .joining (setAdmission_admissions_self ..) rfl hself rfl (fun result => by simp)
        · exact .ahead (setAdmission_admissions_self ..) rfl ((List.mem_erase_of_ne heq).mpr hmem')
    | joining hadmission' hcurrent =>
        obtain rfl := Option.some.inj (hadmission.symm.trans hadmission')
        rw [hidle] at hcurrent
        cases hcurrent

theorem not_connected_of_disconnect {connection : Connection}
    (hconnection : s.world.connections connection.client.id = some connection) :
    ¬(s.disconnect connection.client.id).world.connected connection.client := by
  simp [Server.disconnect, World.connected, World.updateConnections, hconnection]

theorem RoomsInv.of_joined (h : RoomsInv g) {socketId : SocketId} (hstep : g.joined socketId = some g') :
    RoomsInv g' := by
  simp only [Gateway.joined, Option.bind_eq_some_iff, Option.map_eq_some_iff] at hstep
  obtain ⟨admission, hadmission, id, hcurrent, -, -, result, hresult, hstep⟩ := hstep
  cases result with
  | threw =>
      subst hstep
      have hkept := fun other => rel_imp (fun _ _ hboth => hboth.1) (rel_disconnect g.server socketId other)
      refine h.setAdmission (h.server.withConnectionsKept hkept) rfl (.refl _) hkept hadmission none ?_ (by rintro _ _ ⟨⟩) ?_
      · intro other connection hconnection hready
        obtain ⟨before, hbefore, -, hsame⟩ := exists_before (rel_disconnect g.server socketId other) hconnection
        exact Or.inl ⟨before, hbefore, hsame ▸ hready⟩
      · intro connection hsocket hconnection hconnected
        subst hsocket
        exact absurd hconnected (not_connected_of_disconnect hconnection)
  | returned emissions lock leaseToken =>
      subst hstep
      refine h.setAdmission h.server rfl (.refl _) (fun _ => rel_refl _) hadmission _
        (fun other before hbefore hready => Or.inl ⟨before, hbefore, hready⟩) ?_ ?_
      · rintro _ memberships ⟨⟩ hread
        exact h.ahead socketId admission memberships hadmission hread
      · intro connection hsocket hconnection hconnected projectId hmember hpending
        subst hsocket
        cases hpending with
        | adding htask hrequest hwritten => exact .adding htask hrequest hwritten
        | creating hcreation => exact .creating hcreation
        | unread hadmission' hunread =>
            obtain rfl := Option.some.inj (hadmission.symm.trans hadmission')
            exact .unread (setAdmission_admissions_self ..) hunread
        | ahead hadmission' hread hmem =>
            obtain rfl := Option.some.inj (hadmission.symm.trans hadmission')
            exact .ahead (setAdmission_admissions_self ..) hread hmem
        | joining hadmission' hcurrent' htask hrequest hunsettled =>
            obtain rfl := Option.some.inj (hadmission.symm.trans hadmission')
            obtain rfl := Option.some.inj (hcurrent.symm.trans hcurrent')
            obtain ⟨found, hfound, hsettled⟩ := Server.exists_task_of_result hresult
            obtain rfl := Option.some.inj (htask.symm.trans hfound)
            exact absurd hsettled (hunsettled _)

theorem RoomsInv.of_makeReady (h : RoomsInv g) {socketId : SocketId} (hstep : g.makeReady socketId = some g') : RoomsInv g' := by
  simp only [Gateway.makeReady, Option.bind_eq_some_iff, Option.map_eq_some_iff, Option.filter_eq_some_iff, beq_iff_eq] at hstep
  obtain ⟨-, -, admission, ⟨hadmission, rfl⟩, rfl⟩ := hstep
  have hready : ∀ other, Option.Rel
      (fun before after : Connection => ConnectionKept before after ∧ (before.client.id = socketId ∨ after.ready = before.ready))
      (g.server.world.connections other) ((g.server.ready socketId).world.connections other) := fun other =>
    World.rel_updateConnections g.server.world other _ _
      (fun _ _ hamong => ⟨⟨rfl, Or.inl ⟨rfl, rfl⟩⟩, Or.inl (beq_iff_eq.mp hamong)⟩) fun _ _ => ⟨.refl _, Or.inr rfl⟩
  have hkept := fun other => rel_imp (fun _ _ hboth => hboth.1) (hready other)
  refine h.setAdmission (h.server.withConnectionsKept hkept) rfl (.refl _) hkept hadmission none ?_ (by rintro _ _ ⟨⟩) ?_
  · intro other connection hconnection hbecame
    obtain ⟨before, hbefore, -, hsame⟩ := exists_before (hready other) hconnection
    rcases hsame with hid | hsame
    · exact Or.inr ⟨(h.server.connections.key other before hbefore).symm.trans hid, rfl⟩
    · exact Or.inl ⟨before, hbefore, hsame ▸ hbecame⟩
  · intro connection hsocket hconnection hconnected projectId hmember hpending
    subst hsocket
    cases hpending with
    | adding htask hrequest hwritten => exact .adding htask hrequest hwritten
    | creating hcreation => exact .creating hcreation
    | unread hadmission' hunread | ahead hadmission' hread hmem | joining hadmission' hcurrent =>
        obtain rfl := Option.some.inj (hadmission.symm.trans hadmission')
        simp_all

theorem RoomsInv.of_refuse (h : RoomsInv g) {socketId : SocketId} (hstep : g.refuse socketId = some g') : RoomsInv g' := by
  simp only [Gateway.refuse, Option.bind_eq_some_iff, Option.map_eq_some_iff, Option.filter_eq_some_iff,
    Bool.not_eq_true'] at hstep
  obtain ⟨connection, ⟨hconnection, hgone⟩, admission, ⟨hadmission, -⟩, rfl⟩ := hstep
  refine h.setAdmission h.server rfl (.refl _) (fun _ => rel_refl _) hadmission none
    (fun other before hbefore hready => Or.inl ⟨before, hbefore, hready⟩) (by rintro _ _ ⟨⟩) ?_
  intro connection' hsocket hconnection' hconnected
  subst hsocket
  obtain rfl := Option.some.inj (hconnection.symm.trans hconnection')
  simp [World.connected, hconnection, hgone] at hconnected

/-- A new socket has everything ahead of it. -/
theorem RoomsInv.of_handleConnection (h : RoomsInv g) {client : Socket} (hstep : g.handleConnection client = some g') :
    RoomsInv g' := by
  simp only [Gateway.handleConnection, Option.map_eq_some_iff, Server.connect, Option.ite_none_left_eq_some,
    Option.not_isSome_iff_eq_none, Option.some.injEq] at hstep
  obtain ⟨t, ⟨hnew, rfl⟩, rfl⟩ := hstep
  set connections := Function.update g.server.world.connections client.id (some ⟨client, false, true, []⟩) with hupdate
  have hself : connections client.id = some ⟨client, false, true, []⟩ := Function.update_self ..
  have hothers : ∀ {socketId}, socketId ≠ client.id → connections socketId = g.server.world.connections socketId :=
    fun hne => Function.update_of_ne hne ..
  -- every connection is the new one or an old one
  have hcases : ∀ socketId connection, connections socketId = some connection →
      (socketId = client.id ∧ connection = ⟨client, false, true, []⟩) ∨
        (socketId ≠ client.id ∧ g.server.world.connections socketId = some connection) := by
    intro socketId connection hconnection
    by_cases heq : socketId = client.id
    · subst heq
      exact Or.inl ⟨rfl, (Option.some.inj (hself.symm.trans hconnection)).symm⟩
    · exact Or.inr ⟨heq, (hothers heq).symm.trans hconnection⟩
  have hconnections : ConnectionsInv connections := by
    refine ⟨fun socketId connection hconnection => ?_, fun socketId connection hconnection => ?_,
      fun socketId connection hconnection hgone => ?_⟩
    all_goals rcases hcases socketId connection hconnection with ⟨rfl, rfl⟩ | ⟨-, hold⟩
    · rfl
    · exact h.server.connections.key socketId connection hold
    · exact List.nodup_nil
    · exact h.server.connections.nodup socketId connection hold
    · rfl
    · exact h.server.connections.gone socketId connection hold hgone
  have hclients : ∀ socketId connection, g.server.world.connections socketId = some connection →
      ∃ next, connections socketId = some next ∧ next.client = connection.client := by
    intro socketId connection hconnection
    have hne : socketId ≠ client.id := by
      rintro rfl
      rw [hnew] at hconnection
      cases hconnection
    exact ⟨connection, (hothers hne).trans hconnection, rfl⟩
  refine ⟨h.server.withConnections hconnections hclients, fun socketId admission memberships hadmission hread => ?_,
    fun socketId connection hconnection hready => ?_, h.created, fun socketId connection hconnection projectId hmem => ?_,
    fun socketId connection hconnection hconnected projectId hmember => ?_⟩
  · by_cases heq : socketId = client.id
    · subst heq
      rw [setAdmission_admissions_self] at hadmission
      cases hadmission
      cases hread
    · rw [setAdmission_admissions_of_ne _ _ heq] at hadmission
      exact h.ahead socketId admission memberships hadmission hread
  · rcases hcases socketId connection hconnection with ⟨rfl, rfl⟩ | ⟨hne, hold⟩
    · cases hready
    · exact (setAdmission_admissions_of_ne _ _ hne).trans (h.ready socketId connection hold hready)
  · rcases hcases socketId connection hconnection with ⟨rfl, rfl⟩ | ⟨hne, hold⟩
    · cases hmem
    · exact h.left socketId connection hold projectId hmem
  · rcases hcases socketId connection hconnection with ⟨rfl, rfl⟩ | ⟨hne, hold⟩
    · exact Or.inr (.unread (setAdmission_admissions_self ..) rfl)
    · refine (h.joined socketId connection hold hconnected projectId hmember).imp_right fun hpending => ?_
      refine hpending.keeps (.refl _) ?_ fun _ hcreation => hcreation
      rw [h.server.connections.key socketId connection hold]
      exact setAdmission_admissions_of_ne _ _ hne

/-! ### Creation of projects -/

/-- In a project nobody is a member of, nothing is known but that somebody is not a member. -/
theorem known_of_no_member {members members' : UserId → Option Role} (hnone : ∀ userId, members userId = none)
    {request : Request} {progress : Progress} (hjoin : ∀ client projectId, request ≠ .joinRoom client projectId)
    (h : World.Known members request progress) : World.Known members' request progress := by
  cases request with
  | joinRoom client projectId => exact absurd rfl (hjoin client projectId)
  | addMember projectId username requestingUserId =>
      cases progress <;> simp_all [World.Known, World.KnownToAdd, World.MayAdd]
  | removeMember projectId userId requestingUserId =>
      cases progress <;> simp_all [World.Known, World.KnownToRemove, World.MayRemove]
  | updateMemberRole projectId userId newRole requestingUserId =>
      cases progress <;> simp_all [World.Known, World.KnownToUpdate, World.MayUpdateRole]
  | _ => trivial

/-- The first membership of a new project. -/
theorem ServerInv.create (h : ServerInv s projects) {projectId : ProjectId} (hnew : projectId ∉ projects) (userId : UserId) :
    ServerInv { s with world := s.world.setMember projectId userId (some .OWNER) } (projectId :: projects) := by
  have hempty : ∀ other, s.world.members projectId other = none := fun other =>
    Option.not_isSome_iff_eq_none.mp fun hmember => hnew (h.existing projectId other hmember)
  have hother : ∀ {project}, project ≠ projectId →
      (s.world.setMember projectId userId (some .OWNER)).members project = s.world.members project :=
    fun hne => Function.update_of_ne hne ..
  have hkeeps : ∀ project other, (s.world.members project other).isSome →
      ((s.world.setMember projectId userId (some .OWNER)).members project other).isSome := by
    intro project other hmember
    have hne : project ≠ projectId := by
      rintro rfl
      simp [hempty] at hmember
    rwa [hother hne]
  refine ⟨⟨h.inv.coordination, fun id task htask => ?_, fun id task htask => ?_, h.inv.issued⟩, fun id task htask => ?_,
    h.connections, fun project other hmember => ?_, fun id task client project htask hrequest => ?_,
    fun id task project other requestingUserId target htask hrequest hwritten => ?_⟩
  · obtain ⟨call, hcall, hproject, hkey, hrunning⟩ := h.inv.called id task htask
    exact ⟨call, hcall, hproject, hkey, hrunning⟩
  · have hsound := h.inv.sound id task htask
    refine ⟨fun member hmember hknows => hkeeps _ _ (hsound.member member hmember hknows), hsound.issued, hsound.held, ?_⟩
    intro project removed requestingUserId target hrequest hwritten
    have hexists := h.removing id task project removed requestingUserId target htask hrequest hwritten
    rw [hother fun heq => hnew (heq ▸ hexists)]
    exact hsound.removed project removed requestingUserId target hrequest hwritten
  · by_cases heq : task.request.projectId = projectId
    · have hnone : ∀ userId, s.world.members task.request.projectId userId = none := heq ▸ hempty
      refine known_of_no_member hnone ?_ (h.known id task htask)
      intro client project hrequest
      rw [hrequest] at heq
      exact hnew (heq ▸ (h.joining id task client project htask hrequest).1)
    · show World.Known ((s.world.setMember projectId userId (some .OWNER)).members task.request.projectId) _ _
      rw [hother heq]
      exact h.known id task htask
  · by_cases heq : project = projectId
    · exact heq ▸ List.mem_cons_self
    · exact List.mem_cons_of_mem _ (h.existing project other (hother heq ▸ hmember))
  · exact (h.joining id task client project htask hrequest).imp_left (List.mem_cons_of_mem _)
  · exact List.mem_cons_of_mem _ (h.removing id task project other requestingUserId target htask hrequest hwritten)

theorem RoomsInv.of_create (h : RoomsInv g) {creation : Nat} {userId : UserId} {projectId : ProjectId}
    (hstep : g.create creation userId projectId = some g') : RoomsInv g' := by
  simp only [Gateway.create, Option.ite_none_left_eq_some, not_or, Option.not_isSome_iff_eq_none,
    Option.some.injEq] at hstep
  obtain ⟨⟨hfree, hnew⟩, rfl⟩ := hstep
  have hcreations : ∀ other, g.creations other ≠ none →
      Function.update g.creations creation (some (userId, projectId)) other = g.creations other := by
    intro other hsome
    refine Function.update_of_ne ?_ ..
    rintro rfl
    exact hsome hfree
  have hmembers : ∀ project other, (project = projectId ∧ other = userId) ∨
      (g.server.world.setMember projectId userId (some .OWNER)).members project other =
        g.server.world.members project other := by
    intro project other
    by_cases heq : project = projectId ∧ other = userId
    · exact Or.inl heq
    · exact Or.inr (World.setMember_of_ne _ _ heq)
  refine ⟨h.server.create hnew userId, fun socketId admission memberships hadmission hread project hmem => ?_, h.ready,
    fun other created project hcreation => ?_, fun socketId connection hconnection project hmem => ?_,
    fun socketId connection hconnection hconnected project hmember => ?_⟩
  · exact List.mem_cons_of_mem _ (h.ahead socketId admission memberships hadmission hread project hmem)
  · by_cases heq : other = creation
    · subst heq
      simp only [Function.update_self] at hcreation
      obtain ⟨rfl, rfl⟩ := Prod.mk.inj (Option.some.inj hcreation)
      exact World.setMember_self ..
    · have howner := h.created other created project ((Function.update_of_ne heq ..).symm.trans hcreation)
      rcases hmembers project created with ⟨rfl, rfl⟩ | hsame
      · exact World.setMember_self ..
      · exact hsame.trans howner
  · rcases hmembers project connection.client.userId with ⟨rfl, huser⟩ | hsame
    · left
      rw [huser]
      exact Option.isSome_iff_exists.mpr ⟨_, World.setMember_self ..⟩
    · rcases h.left socketId connection hconnection project hmem with hmember | hpending
      · exact Or.inl (hsame ▸ hmember)
      · exact Or.inr hpending
  · rcases hmembers project connection.client.userId with ⟨rfl, rfl⟩ | hsame
    · exact Or.inr (.creating (Function.update_self ..))
    · refine (h.joined socketId connection hconnection hconnected project (hsame ▸ hmember)).imp_right fun hpending => ?_
      refine hpending.keeps (.refl _) rfl fun other hcreation => (hcreations other ?_).trans hcreation
      rw [hcreation]
      simp

theorem RoomsInv.of_joinCreated (h : RoomsInv g) {creation : Nat} (hstep : g.joinCreated creation = some g') :
    RoomsInv g' := by
  simp only [Gateway.joinCreated, Option.map_eq_some_iff] at hstep
  obtain ⟨⟨userId, projectId⟩, hcreation, rfl⟩ := hstep
  set f : Connection → Connection := fun connection =>
    if connection.connected && connection.client.userId == userId then World.join projectId connection else connection with hf
  have hclient : ∀ connection, (f connection).client = connection.client := by
    intro connection
    simp only [hf]
    split <;> rfl
  have hconnected : ∀ connection, (f connection).connected = connection.connected := by
    intro connection
    simp only [hf]
    split <;> rfl
  have hready : ∀ connection, (f connection).ready = connection.ready := by
    intro connection
    simp only [hf]
    split <;> rfl
  have hrooms : ∀ connection, (f connection = connection ∧ ¬(connection.connected = true ∧ connection.client.userId = userId)) ∨
      (f connection = World.join projectId connection ∧ connection.connected = true ∧ connection.client.userId = userId) := by
    intro connection
    simp only [hf]
    split
    · rename_i hjoins
      exact Or.inr ⟨rfl, by simpa using hjoins⟩
    · rename_i hstays
      exact Or.inl ⟨rfl, by simpa using hstays⟩
  have hbefore : ∀ {socketId connection},
      (g.server.world.joinProjectRoom userId projectId).connections socketId = some connection →
      ∃ old, g.server.world.connections socketId = some old ∧ f old = connection := fun hconnection =>
    Option.map_eq_some_iff.mp hconnection
  have hconnections : ConnectionsInv (g.server.world.joinProjectRoom userId projectId).connections := by
    refine ⟨fun socketId connection hconnection => ?_, fun socketId connection hconnection => ?_,
      fun socketId connection hconnection hgone => ?_⟩
    all_goals obtain ⟨old, hold, rfl⟩ := hbefore hconnection
    · rw [hclient]
      exact h.server.connections.key socketId old hold
    · have hnodup := h.server.connections.nodup socketId old hold
      rcases hrooms old with ⟨hsame, -⟩ | ⟨hjoins, -⟩
      · rwa [hsame]
      · rw [hjoins]
        exact hnodup.insert
    · rw [hconnected] at hgone
      rcases hrooms old with ⟨hsame, -⟩ | ⟨-, hup, -⟩
      · rw [hsame]
        exact h.server.connections.gone socketId old hold hgone
      · rw [hgone] at hup
        cases hup
  have hclients : ∀ socketId connection, g.server.world.connections socketId = some connection →
      ∃ next, (g.server.world.joinProjectRoom userId projectId).connections socketId = some next ∧
        next.client = connection.client := fun socketId connection hconnection =>
    ⟨f connection, Option.map_eq_some_iff.mpr ⟨connection, hconnection, rfl⟩, hclient connection⟩
  refine ⟨h.server.withConnections hconnections hclients, h.ahead, fun socketId connection hconnection hbecame => ?_,
    fun other created project hother => ?_, fun socketId connection hconnection project hmem => ?_,
    fun socketId connection hconnection hup project hmember => ?_⟩
  · obtain ⟨old, hold, rfl⟩ := hbefore hconnection
    exact h.ready socketId old hold (hready old ▸ hbecame)
  · have hne : other ≠ creation := by
      rintro rfl
      simp [Function.update_self] at hother
    exact h.created other created project ((Function.update_of_ne hne ..).symm.trans hother)
  · obtain ⟨old, hold, rfl⟩ := hbefore hconnection
    rw [hclient]
    rcases hrooms old with ⟨hsame, -⟩ | ⟨hjoins, -, huser⟩
    · exact h.left socketId old hold project (hsame ▸ hmem)
    · rw [hjoins] at hmem
      rcases List.mem_insert_iff.mp hmem with rfl | hmem
      · have howner := h.created creation userId project hcreation
        rw [huser]
        exact Or.inl (Option.isSome_iff_exists.mpr ⟨_, howner⟩)
      · exact h.left socketId old hold project hmem
  · obtain ⟨old, hold, rfl⟩ := hbefore hconnection
    rw [hconnected] at hup
    rw [hclient] at hmember ⊢
    rcases h.joined socketId old hold hup project hmember with hroom | hpending
    · left
      rcases hrooms old with ⟨hsame, -⟩ | ⟨hjoins, -⟩
      · rwa [hsame]
      · rw [hjoins]
        exact List.mem_insert_of_mem hroom
    · cases hpending with
      | creating hother =>
          rename_i other
          by_cases heq : other = creation
          · subst heq
            obtain ⟨huser, rfl⟩ := Prod.mk.inj (Option.some.inj (hcreation.symm.trans hother))
            rcases hrooms old with ⟨-, hstays⟩ | ⟨hjoins, -⟩
            · exact absurd ⟨hup, huser.symm⟩ hstays
            · rw [hjoins]
              exact Or.inl List.mem_insert_self
          · exact Or.inr (.creating ((Function.update_of_ne heq ..).trans hother))
      | adding htask hrequest hwritten => exact Or.inr (.adding htask hrequest hwritten)
      | unread hadmission hunread => exact Or.inr (.unread hadmission hunread)
      | ahead hadmission hread hmem => exact Or.inr (.ahead hadmission hread hmem)
      | joining hadmission hcurrent htask hrequest hunsettled =>
          exact Or.inr (.joining hadmission hcurrent htask hrequest hunsettled)

/-! ### Over whole runs -/

theorem roomsInv_initial (users : String → Option UserId) (projects : List ProjectId)
    (members : ProjectId → UserId → Option Role) : RoomsInv (initial users projects members) where
  server := {
    inv := Server.inv_initial _ _
    known := Server.membershipsKnown_initial _ _
    connections := {
      key := fun _ _ hconnection => by cases hconnection
      nodup := fun _ _ hconnection => by cases hconnection
      gone := fun _ _ hconnection => by cases hconnection }
    existing := fun projectId userId hmember => by
      by_contra hnew
      have hnew' : projectId ∉ projects := hnew
      simp [initial, Server.initial, World.initial, hnew'] at hmember
    joining := fun _ _ _ _ htask => by cases htask
    removing := fun _ _ _ _ _ _ htask => by cases htask }
  ahead _ _ _ hadmission := by cases hadmission
  ready _ _ hconnection := by cases hconnection
  created _ _ _ hcreation := by cases hcreation
  left _ _ hconnection := by cases hconnection
  joined _ _ hconnection := by cases hconnection

theorem RoomsInv.step (h : RoomsInv g) {label : Label} (hsucceeds : label.succeeds) (hstep : g.step label = some g') :
    RoomsInv g' := by
  cases label with
  | server label =>
      simp only [Gateway.step] at hstep
      split at hstep
      · rename_i hother
        obtain ⟨t, hserver, rfl⟩ := Option.map_eq_some_iff.mp hstep
        by_cases hquiet : IsQuiet label
        · exact h.of_quiet hother hquiet hserver
        · simp only [IsQuiet, not_forall, not_not] at hquiet
          obtain ⟨id, input, rfl⟩ := hquiet
          obtain ⟨call, task, progress, hturn⟩ := Server.exists_turn hserver
          exact h.of_turn hturn hsucceeds
      · cases hstep
  | handleConnection client => exact h.of_handleConnection hstep
  | findMemberships socketId => exact h.of_findMemberships hstep
  | joinRoom socketId projectId id => exact h.of_joinRoom hstep
  | joined socketId => exact h.of_joined hstep
  | makeReady socketId => exact h.of_makeReady hstep
  | refuse socketId => exact h.of_refuse hstep
  | create creation userId projectId => exact h.of_create hstep
  | joinCreated creation => exact h.of_joinCreated hstep

theorem RoomsInv.roomsAreMemberships (h : RoomsInv g) (hrest : g.AtRest) : g.RoomsAreMemberships := by
  intro socketId connection hconnection hconnected hready projectId
  constructor
  · intro hmem
    refine (h.left socketId connection hconnection projectId hmem).resolve_right ?_
    rintro ⟨id, task, requestingUserId, target, htask, hrequest, hwritten⟩
    obtain ⟨result, hsettled⟩ := hrest.settled id task htask (by rw [hrequest]; rfl)
    cases hwritten.symm.trans hsettled
  · intro hmember
    refine (h.joined socketId connection hconnection hconnected projectId hmember).resolve_right fun hpending => ?_
    have hnone := h.ready socketId connection hconnection hready
    rw [← h.server.connections.key socketId connection hconnection] at hnone
    cases hpending with
    | adding htask hrequest hwritten =>
        obtain ⟨result, hsettled⟩ := hrest.settled _ _ htask (by rw [hrequest]; rfl)
        cases hwritten.symm.trans hsettled
    | creating hcreation => cases (hrest.created _).symm.trans hcreation
    | unread hadmission | ahead hadmission | joining hadmission => cases hnone.symm.trans hadmission

/-- For any calls of the server's handlers, any sockets that connect and disconnect and any projects
that are created, in any interleaving of steps that succeed. -/
theorem rooms_are_memberships (users : String → Option UserId) (projects : List ProjectId)
    (members : ProjectId → UserId → Option Role) (labels : List Label) (g : Gateway)
    (hrun : Runs.run step (initial users projects members) labels = some g)
    (hsucceeds : ∀ label ∈ labels, label.succeeds) (hrest : g.AtRest) : g.RoomsAreMemberships := by
  have halong : Runs.Along step (fun _ label => label.succeeds) (initial users projects members) labels :=
    .of_forall (fun label hlabel _ => hsucceeds label hlabel) _
  have hinv : RoomsInv g :=
    Runs.Along.run (P := RoomsInv) (fun _ _ _ h hlabel hstep => h.step hlabel hstep)
      (roomsInv_initial users projects members) halong hrun
  exact hinv.roomsAreMemberships hrest

/-! A guest's tab connects while he is being added to a project: his membership is in the list that
his admission reads, but the room is joined only after the `addMember`. While the admission ends he
creates a second project, and then he leaves the first. -/

open Server (guest)

def directory (username : String) : Option UserId := if username = "jdoe" then some "guest" else none

def onlyOwner (projectId : ProjectId) (userId : UserId) : Option Role :=
  if projectId = "project" ∧ userId = "owner" then some .OWNER else none

def turns (id : CallId) (count : Nat) : List Label := List.replicate count (.server (.turn id {}))

def comingAndGoing : List Label :=
  [.handleConnection guest, .server (.request 0 (.addMember "project" "jdoe" "owner")),
    .server (.coordination (.enterProject 0))] ++ turns 0 8 ++
  [.findMemberships "socket", .joinRoom "socket" "project" 1] ++ turns 0 1 ++
  [.server (.coordination (.settleBody 0)), .server (.coordination (.leave 0)),
    .server (.coordination (.enterProject 1))] ++ turns 1 3 ++
  [.server (.coordination (.settleBody 1)), .server (.coordination (.leave 1)), .joined "socket",
    .create 0 "guest" "second", .makeReady "socket", .joinCreated 0,
    .server (.request 2 (.removeMember "project" "guest" "guest")), .server (.coordination (.enterProject 2))] ++
  turns 2 5

theorem rooms_are_memberships_of_comingAndGoing : ∃ g,
    Runs.run step (initial directory ["project"] onlyOwner) comingAndGoing = some g ∧
      (g.server.world.connections "socket").map (·.rooms) = some ["second"] ∧ g.RoomsAreMemberships := by
  have hend : ∃ g, Runs.run step (initial directory ["project"] onlyOwner) comingAndGoing = some g ∧
      (g.server.world.connections "socket").map (·.rooms) = some ["second"] ∧
      (∀ id, id < 3 → (g.server.tasks id).all fun task => task.progress = .settled (.returned [] none none)) ∧
      (∀ id, g.server.tasks (id + 3) = none) ∧ ∀ creation, g.creations creation = none := by
    refine ⟨_, rfl, by decide, by decide, fun id => rfl, fun creation => ?_⟩
    cases creation <;> rfl
  obtain ⟨g, hrun, hrooms, hearly, hlate, hcreations⟩ := hend
  refine ⟨g, hrun, hrooms, rooms_are_memberships directory ["project"] onlyOwner comingAndGoing g hrun (by decide)
    ⟨fun id task htask _ => ?_, hcreations⟩⟩
  by_cases hid : id < 3
  · have hsettled := hearly id hid
    rw [htask, Option.all_some, decide_eq_true_eq] at hsettled
    exact ⟨_, hsettled⟩
  · obtain ⟨later, rfl⟩ := Nat.exists_eq_add_of_le' (Nat.le_of_not_lt hid)
    rw [hlate later] at htask
    cases htask

end Gateway

end Transcendence.Realtime
