import Transcendence.Realtime.Admissions
import Transcendence.Realtime.MemberAuthority
import Transcendence.Realtime.QuietSteps

/-!
# How connections and rooms change

What each step of the server does to one connection: a turn of a body keeps the socket and puts it
into a room or takes it out of one (`ConnectionTurn`), any other step leaves it as it is or ends it
(`ConnectionKept`). `ServerInv` collects what stays true of the server while sockets are admitted
and projects are created.
-/

namespace Transcendence.Realtime

open Server (Quiet IsQuiet)

namespace World

/-! ### What a turn does to one connection -/

/-- The turn of the request puts the connection into the room. -/
def Joins (request : Request) (progress : Progress) (connection : Connection) (projectId : ProjectId) : Prop :=
  (∃ client role, request = .joinRoom client projectId ∧ progress = .membershipRead (some role) ∧
    connection.client.id = client.id) ∨
  ∃ username requestingUserId, request = .addMember projectId username requestingUserId ∧
    progress = .written connection.client.userId

/-- The turn of the request takes the user's sockets out of the room. -/
def Leaves (request : Request) (progress : Progress) (userId : UserId) (projectId : ProjectId) : Prop :=
  ∃ requestingUserId target, request = .removeMember projectId userId requestingUserId ∧ progress = .written target

structure ConnectionTurn (request : Request) (progress : Progress) (before after : Connection) : Prop where
  client : after.client = before.client
  ready : after.ready = before.ready
  connected : after.connected = before.connected
  nodup : before.rooms.Nodup → after.rooms.Nodup
  gone : before.connected = false → after = before
  joins : ∀ projectId ∈ after.rooms, projectId ∈ before.rooms ∨ Joins request progress before projectId
  leaves : ∀ projectId ∈ before.rooms, projectId ∈ after.rooms ∨ Leaves request progress before.client.userId projectId

variable {w w' : World} {input : Input} {request : Request} {progress progress' : Progress}

theorem ConnectionTurn.refl (request : Request) (progress : Progress) (connection : Connection) :
    ConnectionTurn request progress connection connection :=
  ⟨rfl, rfl, rfl, fun h => h, fun _ => rfl, fun _ h => Or.inl h, fun _ h => Or.inl h⟩

theorem ConnectionTurn.of_join {before : Connection} {projectId : ProjectId} (hconnected : before.connected = true)
    (hjoins : Joins request progress before projectId) :
    ConnectionTurn request progress before (join projectId before) where
  client := rfl
  ready := rfl
  connected := rfl
  nodup h := h.insert
  gone h := by rw [hconnected] at h; cases h
  joins other hmem := by
    rcases List.mem_insert_iff.mp hmem with rfl | hmem
    · exact Or.inr hjoins
    · exact Or.inl hmem
  leaves other hmem := Or.inl (List.mem_insert_of_mem hmem)

theorem ConnectionTurn.of_leave {before : Connection} {projectId : ProjectId} (hconnected : before.connected = true)
    (hleaves : Leaves request progress before.client.userId projectId) :
    ConnectionTurn request progress before (leave projectId before) where
  client := rfl
  ready := rfl
  connected := rfl
  nodup h := h.erase projectId
  gone h := by rw [hconnected] at h; cases h
  joins other hmem := Or.inl (List.mem_of_mem_erase hmem)
  leaves other hmem := by
    by_cases heq : other = projectId
    · exact Or.inr (heq ▸ hleaves)
    · exact Or.inl ((List.mem_erase_of_ne heq).mpr hmem)

theorem rel_updateConnections {R : Connection → Connection → Prop} (w : World) (socketId : SocketId)
    (among : Connection → Bool) (f : Connection → Connection)
    (hchanged : ∀ connection, w.connections socketId = some connection → among connection → R connection (f connection))
    (hsame : ∀ connection, w.connections socketId = some connection → R connection connection) :
    Option.Rel R (w.connections socketId) ((w.updateConnections among f).connections socketId) := by
  simp only [updateConnections]
  cases hconnection : w.connections socketId with
  | none => exact .none
  | some connection =>
      refine .some ?_
      show R connection (if among connection then f connection else connection)
      split
      · rename_i hamong
        exact hchanged connection hconnection hamong
      · exact hsame connection hconnection

theorem connectionTurn_of_roomTurn (h : RoomTurn w request progress w'.connections) (socketId : SocketId)
    (hkey : ∀ connection, w.connections socketId = some connection → connection.client.id = socketId) :
    Option.Rel (ConnectionTurn request progress) (w.connections socketId) (w'.connections socketId) := by
  generalize w'.connections = connections at h
  cases h with
  | same =>
      cases w.connections socketId with
      | none => exact .none
      | some connection => exact .some (.refl ..)
  | joins client projectId role hconnected =>
      refine rel_updateConnections w socketId _ _ (fun connection hconnection hamong => ?_) fun _ _ => .refl ..
      have hclient := beq_iff_eq.mp hamong
      rw [connected, ← hclient, hkey connection hconnection, hconnection] at hconnected
      exact .of_join hconnected (Or.inl ⟨client, role, rfl, rfl, hclient⟩)
  | joinsUser projectId username requestingUserId userId =>
      refine rel_updateConnections w socketId _ _ (fun connection hconnection hamong => ?_) fun _ _ => .refl ..
      obtain ⟨hconnected, huser⟩ := Bool.and_eq_true _ _ ▸ hamong
      obtain rfl := beq_iff_eq.mp huser
      exact .of_join hconnected (Or.inr ⟨username, requestingUserId, rfl, rfl⟩)
  | leavesUser projectId userId requestingUserId target =>
      refine rel_updateConnections w socketId _ _ (fun connection hconnection hamong => ?_) fun _ _ => .refl ..
      obtain ⟨hconnected, huser⟩ := Bool.and_eq_true _ _ ▸ hamong
      obtain rfl := beq_iff_eq.mp huser
      exact .of_leave hconnected ⟨requestingUserId, target, rfl, rfl⟩

/-! ### Turns that succeed -/

theorem joinProjectRoom_of_written {projectId : ProjectId} {username : String} {requestingUserId userId : UserId}
    (h : w.body input (.written userId) (.addMember projectId username requestingUserId) = some (w', progress'))
    (hsucceeds : input.succeeds) : w' = w.joinProjectRoom userId projectId := by
  simp only [body, addMember, hsucceeds, if_true] at h
  exact (returned_eq_some.mp h).1.symm

theorem leaveProjectRoom_of_written {projectId : ProjectId} {userId requestingUserId target : UserId}
    (h : w.body input (.written target) (.removeMember projectId userId requestingUserId) = some (w', progress'))
    (hsucceeds : input.succeeds) : w'.connections = (w.leaveProjectRoom userId projectId).connections := by
  simp only [body, removeMember, hsucceeds, if_true] at h
  rw [← (returned_eq_some.mp h).1]
  rfl

/-- The admission of a connected member goes on, or puts the socket into the room. -/
theorem joins_of_joinRooms {client : Socket} {projectId : ProjectId}
    (h : w.body input progress (.joinRoom client projectId) = some (w', progress')) (hsucceeds : input.succeeds)
    (hknown : KnownToJoin (w.members projectId) client progress) (hconnected : w.connected client)
    (hmember : (w.members projectId client.userId).isSome) :
    (∀ result, progress' ≠ .settled result) ∨
      w' = w.updateConnections (·.client.id == client.id) (join projectId) := by
  cases progress with
  | begun =>
      simp only [body, joinRooms, hconnected, if_true] at h
      cases h
      exact Or.inl fun result => by simp
  | readingMembership =>
      obtain ⟨-, rfl⟩ := await_eq_some.mp h
      rw [if_pos hsucceeds]
      exact Or.inl fun result => by simp
  | membershipRead member =>
      have hread : w.members projectId client.userId = member := hknown
      rw [hread] at hmember
      simp only [body, joinRooms, hmember, hconnected, Bool.and_self, if_true] at h
      exact Or.inr (returned_eq_some.mp h).1.symm
  | _ => cases h

/-! ### Turns that change a membership -/

theorem adds_of_membershipTurn {members' : ProjectId → UserId → Option Role}
    (h : MembershipTurn w request progress members' progress') {projectId : ProjectId} {userId : UserId}
    (hnone : w.members projectId userId = none) (hsome : (members' projectId userId).isSome) :
    ∃ username requestingUserId, request = .addMember projectId username requestingUserId ∧
      progress = .operating userId ∧ progress' = .written userId := by
  have hchanged : members' projectId userId ≠ w.members projectId userId := by
    rintro heq
    simp [heq, hnone] at hsome
  cases h with
  | same => exact absurd rfl hchanged
  | adds projectId' username requestingUserId changed hnew =>
      obtain ⟨rfl, rfl⟩ := eq_of_setMember_ne w hchanged
      exact ⟨username, requestingUserId, rfl, rfl, rfl⟩
  | removes projectId' changed requestingUserId target hold =>
      obtain ⟨rfl, rfl⟩ := eq_of_setMember_ne w hchanged
      simp [hnone] at hold
  | updates projectId' changed newRole requestingUserId target hold =>
      obtain ⟨rfl, rfl⟩ := eq_of_setMember_ne w hchanged
      simp [hnone] at hold

theorem removes_of_membershipTurn {members' : ProjectId → UserId → Option Role}
    (h : MembershipTurn w request progress members' progress') {projectId : ProjectId} {userId : UserId}
    (hsome : (w.members projectId userId).isSome) (hnone : members' projectId userId = none) :
    ∃ requestingUserId, request = .removeMember projectId userId requestingUserId ∧ progress' = .written userId := by
  have hchanged : members' projectId userId ≠ w.members projectId userId := by
    rintro heq
    simp [← heq, hnone] at hsome
  cases h with
  | same => exact absurd rfl hchanged
  | adds projectId' username requestingUserId changed hnew =>
      obtain ⟨rfl, rfl⟩ := eq_of_setMember_ne w hchanged
      simp [hnew] at hsome
  | removes projectId' changed requestingUserId target hold =>
      obtain ⟨rfl, rfl⟩ := eq_of_setMember_ne w hchanged
      exact ⟨requestingUserId, rfl, rfl⟩
  | updates projectId' changed newRole requestingUserId target hold =>
      obtain ⟨rfl, rfl⟩ := eq_of_setMember_ne w hchanged
      simp [setMember_self] at hnone

end World

namespace Gateway

variable {g g' : Gateway} {s t : Server} {projects : List ProjectId}

/-! ### The server below the admissions -/

/-- Every task of `s` is still there, as far as it has come. -/
def KeepsTasks (s t : Server) : Prop :=
  ∀ id task, s.tasks id = some task →
    ∃ next, t.tasks id = some next ∧ next.request = task.request ∧ next.progress = task.progress

theorem keepsTasks_of_quiet (hinv : s.Inv) {label : Server.Label} (hstep : s.step label = some t)
    (hquiet : IsQuiet label) : KeepsTasks s t := by
  intro id task htask
  rcases hinv.keeps_task hstep hquiet htask with hkept | ⟨-, hmarked⟩
  · exact ⟨task, hkept, rfl, rfl⟩
  · exact ⟨_, hmarked, rfl, rfl⟩

structure ConnectionsInv (connections : SocketId → Option Connection) : Prop where
  key : ∀ socketId connection, connections socketId = some connection → connection.client.id = socketId
  nodup : ∀ socketId connection, connections socketId = some connection → connection.rooms.Nodup
  gone : ∀ socketId connection, connections socketId = some connection → connection.connected = false →
    connection.rooms = []

/-- What the server has to keep: bodies that go to the rooms are about projects and sockets that
exist. -/
structure ServerInv (s : Server) (projects : List ProjectId) : Prop where
  inv : s.Inv
  known : s.MembershipsKnown
  connections : ConnectionsInv s.world.connections
  existing : ∀ projectId userId, (s.world.members projectId userId).isSome → projectId ∈ projects
  joining : ∀ id task client projectId, s.tasks id = some task → task.request = .joinRoom client projectId →
    projectId ∈ projects ∧ ∃ connection, s.world.connections client.id = some connection ∧ connection.client = client
  removing : ∀ id task projectId userId requestingUserId target, s.tasks id = some task →
    task.request = .removeMember projectId userId requestingUserId → task.progress = .written target →
    projectId ∈ projects

theorem exists_before {R : Connection → Connection → Prop} {before after : Option Connection}
    (hrel : Option.Rel R before after) {connection : Connection} (hafter : after = some connection) :
    ∃ old, before = some old ∧ R old connection := by
  subst hafter
  cases hrel with
  | some h => exact ⟨_, rfl, h⟩

theorem exists_after {R : Connection → Connection → Prop} {before after : Option Connection}
    (hrel : Option.Rel R before after) {connection : Connection} (hbefore : before = some connection) :
    ∃ next, after = some next ∧ R connection next := by
  subst hbefore
  cases hrel with
  | some h => exact ⟨_, rfl, h⟩

theorem rel_imp {R S : Connection → Connection → Prop} {before after : Option Connection}
    (himp : ∀ old next, R old next → S old next) (hrel : Option.Rel R before after) : Option.Rel S before after := by
  cases hrel with
  | none => exact .none
  | some h => exact .some (himp _ _ h)

/-- A step that is no turn of a body lets a connection be, or ends it. -/
structure ConnectionKept (before after : Connection) : Prop where
  client : after.client = before.client
  state : (after.connected = before.connected ∧ after.rooms = before.rooms) ∨
    (after.connected = false ∧ after.rooms = [])

theorem ConnectionKept.refl (connection : Connection) : ConnectionKept connection connection :=
  ⟨rfl, Or.inl ⟨rfl, rfl⟩⟩

theorem ConnectionKept.of_connected {before after : Connection} (h : ConnectionKept before after)
    (hconnected : after.connected = true) : before.connected = true ∧ after.rooms = before.rooms := by
  rcases h.state with ⟨hsame, hrooms⟩ | ⟨hgone, -⟩
  · exact ⟨hsame ▸ hconnected, hrooms⟩
  · rw [hgone] at hconnected
    cases hconnected

theorem ConnectionKept.mem_rooms {before after : Connection} (h : ConnectionKept before after) {projectId : ProjectId}
    (hmem : projectId ∈ after.rooms) : projectId ∈ before.rooms := by
  rcases h.state with ⟨-, hrooms⟩ | ⟨-, hrooms⟩
  · exact hrooms ▸ hmem
  · simp [hrooms] at hmem

theorem ConnectionsInv.of_kept {connections connections' : SocketId → Option Connection} (h : ConnectionsInv connections)
    (hkept : ∀ socketId, Option.Rel ConnectionKept (connections socketId) (connections' socketId)) :
    ConnectionsInv connections' where
  key socketId connection hconnection := by
    obtain ⟨old, hold, hkept⟩ := exists_before (hkept socketId) hconnection
    rw [hkept.client]
    exact h.key socketId old hold
  nodup socketId connection hconnection := by
    obtain ⟨old, hold, hkept⟩ := exists_before (hkept socketId) hconnection
    rcases hkept.state with ⟨-, hrooms⟩ | ⟨-, hrooms⟩
    · rw [hrooms]
      exact h.nodup socketId old hold
    · rw [hrooms]
      exact List.nodup_nil
  gone socketId connection hconnection hgone := by
    obtain ⟨old, hold, hkept⟩ := exists_before (hkept socketId) hconnection
    rcases hkept.state with ⟨hsame, hrooms⟩ | ⟨-, hrooms⟩
    · rw [hrooms]
      exact h.gone socketId old hold (hsame ▸ hgone)
    · exact hrooms

theorem ServerInv.quiet (h : ServerInv s projects) (hquiet : Quiet s t) (hkeeps : KeepsTasks s t)
    (hconnections : ConnectionsInv t.world.connections)
    (hclients : ∀ socketId connection, s.world.connections socketId = some connection →
      ∃ next, t.world.connections socketId = some next ∧ next.client = connection.client)
    (hnew : ∀ id task client projectId, s.tasks id = none → t.tasks id = some task →
      task.request = .joinRoom client projectId →
      projectId ∈ projects ∧ ∃ connection, t.world.connections client.id = some connection ∧ connection.client = client) :
    ServerInv t projects where
  inv := h.inv.quiet hquiet
  known := h.known.quiet hquiet
  connections := hconnections
  existing projectId userId hmember := h.existing projectId userId (hquiet.members ▸ hmember)
  joining id task client projectId htask hrequest := by
    cases hold : s.tasks id with
    | none => exact hnew id task client projectId hold htask hrequest
    | some old =>
        obtain ⟨next, hnext, hsame, -⟩ := hkeeps id old hold
        obtain rfl := Option.some.inj (htask.symm.trans hnext)
        obtain ⟨hproject, connection, hconnection, hclient⟩ :=
          h.joining id old client projectId hold (hsame.symm.trans hrequest)
        obtain ⟨connection', hconnection', hsame'⟩ := hclients client.id connection hconnection
        exact ⟨hproject, connection', hconnection', hsame'.trans hclient⟩
  removing id task projectId userId requestingUserId target htask hrequest hwritten := by
    rcases hquiet.tasks id task htask with ⟨old, hold, hsame, hprogress⟩ | ⟨hbegun, -⟩
    · exact h.removing id old projectId userId requestingUserId target hold (hsame.trans hrequest) (hprogress.trans hwritten)
    · rw [hbegun] at hwritten
      cases hwritten

theorem ServerInv.kept (h : ServerInv s projects) (hquiet : Quiet s t) (hkeeps : KeepsTasks s t)
    (hconnections : ∀ socketId, Option.Rel ConnectionKept (s.world.connections socketId) (t.world.connections socketId))
    (hnew : ∀ id task client projectId, s.tasks id = none → t.tasks id = some task →
      task.request = .joinRoom client projectId →
      projectId ∈ projects ∧ ∃ connection, t.world.connections client.id = some connection ∧ connection.client = client) :
    ServerInv t projects := by
  refine h.quiet hquiet hkeeps (h.connections.of_kept hconnections) (fun socketId connection hconnection => ?_) hnew
  obtain ⟨next, hnext, hkept⟩ := exists_after (hconnections socketId) hconnection
  exact ⟨next, hnext, hkept.client⟩

/-- A change of the connections alone. -/
theorem ServerInv.withConnections (h : ServerInv s projects) {connections : SocketId → Option Connection}
    (hconnections : ConnectionsInv connections)
    (hclients : ∀ socketId connection, s.world.connections socketId = some connection →
      ∃ next, connections socketId = some next ∧ next.client = connection.client) :
    ServerInv { s with world := { s.world with connections } } projects := by
  refine h.quiet (.of_world rfl rfl rfl rfl) (fun _ task htask => ⟨task, htask, rfl, rfl⟩) hconnections hclients ?_
  intro id task client projectId hnew htask
  rw [show s.tasks id = some task from htask] at hnew
  cases hnew

theorem ServerInv.withConnectionsKept (h : ServerInv s projects) {connections : SocketId → Option Connection}
    (hkept : ∀ socketId, Option.Rel ConnectionKept (s.world.connections socketId) (connections socketId)) :
    ServerInv { s with world := { s.world with connections } } projects := by
  refine h.withConnections (h.connections.of_kept hkept) fun socketId connection hconnection => ?_
  obtain ⟨next, hnext, hkept⟩ := exists_after (hkept socketId) hconnection
  exact ⟨next, hnext, hkept.client⟩

variable {id : CallId} {input : Input} {call : CoordinatorCall} {task : Task} {progress : Progress}

theorem ServerInv.connectionTurn (h : ServerInv s projects) (hturn : Server.Turn s t id input call task progress)
    (socketId : SocketId) : Option.Rel (World.ConnectionTurn task.request task.progress)
      (s.world.connections socketId) (t.world.connections socketId) :=
  World.connectionTurn_of_roomTurn (RoomTurn.of_body hturn.hbody) socketId (h.connections.key socketId)

theorem ServerInv.turn (h : ServerInv s projects) (hturn : Server.Turn s t id input call task progress) :
    ServerInv t projects where
  inv := h.inv.turn hturn
  known := h.known.turn h.inv hturn
  connections := by
    refine ⟨fun socketId connection hconnection => ?_, fun socketId connection hconnection => ?_,
      fun socketId connection hconnection hgone => ?_⟩
    all_goals obtain ⟨old, hold, hmove⟩ := exists_before (h.connectionTurn hturn socketId) hconnection
    · rw [hmove.client]
      exact h.connections.key socketId old hold
    · exact hmove.nodup (h.connections.nodup socketId old hold)
    · have hgone' : old.connected = false := hmove.connected ▸ hgone
      rw [hmove.gone hgone']
      exact h.connections.gone socketId old hold hgone'
  existing projectId userId hmember := by
    by_cases hold : (s.world.members projectId userId).isSome
    · exact h.existing projectId userId hold
    · obtain ⟨username, requestingUserId, hrequest, hoperating, -⟩ := World.adds_of_membershipTurn
        (World.membershipTurn_of_body hturn.hbody) (Option.not_isSome_iff_eq_none.mp hold) hmember
      have hknown := h.known id task hturn.htask
      rw [hrequest, hoperating] at hknown
      obtain ⟨role, hrole, -⟩ : World.MayAdd (s.world.members projectId) requestingUserId := hknown
      exact h.existing projectId requestingUserId (by rw [hrole]; rfl)
  joining other task' client projectId htask' hrequest := by
    have hold : ∃ old, s.tasks other = some old ∧ old.request = task'.request := by
      by_cases heq : other = id
      · subst heq
        obtain rfl := Option.some.inj (hturn.tasks_self.symm.trans htask')
        exact ⟨task, hturn.htask, rfl⟩
      · exact ⟨task', (hturn.tasks_of_ne heq).symm.trans htask', rfl⟩
    obtain ⟨old, hold, hsame⟩ := hold
    obtain ⟨hproject, connection, hconnection, hclient⟩ :=
      h.joining other old client projectId hold (hsame.trans hrequest)
    obtain ⟨connection', hconnection', hmove⟩ := exists_after (h.connectionTurn hturn client.id) hconnection
    exact ⟨hproject, connection', hconnection', hmove.client.trans hclient⟩
  removing other task' projectId userId requestingUserId target htask' hrequest hwritten := by
    by_cases heq : other = id
    · subst heq
      obtain rfl := Option.some.inj (hturn.tasks_self.symm.trans htask')
      have hbody := hturn.hbody
      rw [show task.request = _ from hrequest, show progress = _ from hwritten] at hbody
      exact h.existing projectId userId (World.removed_of_body hbody).1
    · exact h.removing other task' projectId userId requestingUserId target
        ((hturn.tasks_of_ne heq).symm.trans htask') hrequest hwritten

end Gateway

end Transcendence.Realtime
