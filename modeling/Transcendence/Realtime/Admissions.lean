import Transcendence.Realtime.Server

/-!
# The admission of sockets

The server together with `handleConnection` and `joinRooms` of `realtime.gateway.ts` and with
`create` of `projects.service.ts`. A new socket reads the memberships of its user once and then
joins the rooms one after the other, while memberships change; whoever changes a membership looks
for the sockets that are registered at that moment. The labels:

* `handleConnection` registers a socket; its `joinRooms` runs up to the read of the memberships;
* `findMemberships` is that read, which may list the memberships in any order;
* `joinRoom` is the call of `withProject` for one of them and `joined` its end;
* `makeReady` and `refuse` are the end of `joinRooms`;
* `create` is the commit of a new project and `joinCreated` the `joinProjectRoom` after it;
* `server` is any other step.
-/

namespace Transcendence.Realtime

/-- A `joinRooms` in flight: the `memberships` it has still to go through, once they are read, and
its `current` call. -/
structure Admission where
  memberships : Option (List ProjectId)
  current : Option CallId
  deriving DecidableEq, Repr

/-- `projects` are the projects in the database. A creation between its commit and its
`joinProjectRoom` is in `creations`. -/
structure Gateway where
  server : Server
  projects : List ProjectId
  admissions : SocketId → Option Admission
  creations : Nat → Option (UserId × ProjectId)

namespace Gateway

/-- A membership refers to a project that exists. -/
def initial (users : String → Option UserId) (projects : List ProjectId) (members : ProjectId → UserId → Option Role) :
    Gateway where
  server := .initial users fun projectId userId => if projectId ∈ projects then members projectId userId else none
  projects := projects
  admissions _ := none
  creations _ := none

inductive Label where
  | server (label : Server.Label)
  | handleConnection (client : Socket)
  | findMemberships (socketId : SocketId)
  | joinRoom (socketId : SocketId) (projectId : ProjectId) (id : CallId)
  | joined (socketId : SocketId)
  | makeReady (socketId : SocketId)
  | refuse (socketId : SocketId)
  | create (creation : Nat) (userId : UserId) (projectId : ProjectId)
  | joinCreated (creation : Nat)
  deriving DecidableEq, Repr

/-- No query of the step fails. -/
def Label.succeeds : Label → Bool
  | .server (.turn _ input) => input.succeeds
  | _ => true

/-- The steps of the server that are not steps of an admission. -/
def isOther : Server.Label → Bool
  | .connect _ => false
  | .ready _ => false
  | .request _ (.joinRoom ..) => false
  | _ => true

def setAdmission (g : Gateway) (socketId : SocketId) (admission : Option Admission) : Gateway :=
  { g with admissions := Function.update g.admissions socketId admission }

def handleConnection (g : Gateway) (client : Socket) : Option Gateway :=
  (g.server.connect client).map fun server => { g with server }.setAdmission client.id (some ⟨none, none⟩)

def memberships (g : Gateway) (userId : UserId) : List ProjectId :=
  g.projects.filter fun projectId => (g.server.world.members projectId userId).isSome

def findMemberships (g : Gateway) (socketId : SocketId) : Option Gateway :=
  (g.server.world.connections socketId).bind fun connection =>
    ((g.admissions socketId).filter (·.memberships.isNone)).map fun admission =>
      g.setAdmission socketId (some { admission with memberships := some (g.memberships connection.client.userId) })

def joinRoom (g : Gateway) (socketId : SocketId) (projectId : ProjectId) (id : CallId) : Option Gateway :=
  ((g.server.world.connections socketId).filter (·.connected)).bind fun connection =>
    ((g.admissions socketId).filter (·.current.isNone)).bind fun admission =>
      (admission.memberships.filter (·.contains projectId)).bind fun memberships =>
        (g.server.receive id (.joinRoom connection.client projectId)).map fun server =>
          { g with server }.setAdmission socketId (some ⟨some (memberships.erase projectId), some id⟩)

/-- A `joinRooms` that throws has its socket disconnected. -/
def joined (g : Gateway) (socketId : SocketId) : Option Gateway :=
  (g.admissions socketId).bind fun admission =>
    admission.current.bind fun id =>
      (g.server.coordination.inPhase id .finished).bind fun _ =>
        (g.server.result id).map fun
          | .threw => { g with server := g.server.disconnect socketId }.setAdmission socketId none
          | .returned .. => g.setAdmission socketId (some { admission with current := none })

def makeReady (g : Gateway) (socketId : SocketId) : Option Gateway :=
  ((g.server.world.connections socketId).filter (·.connected)).bind fun _ =>
    ((g.admissions socketId).filter (· == ⟨some [], none⟩)).map fun _ =>
      { g with server := g.server.ready socketId }.setAdmission socketId none

/-- `joinRooms` has found its socket disconnected. -/
def refuse (g : Gateway) (socketId : SocketId) : Option Gateway :=
  ((g.server.world.connections socketId).filter (!·.connected)).bind fun _ =>
    ((g.admissions socketId).filter (·.current.isNone)).map fun _ => g.setAdmission socketId none

/-- The id of a new project is new. The limit on the projects of a user only keeps some creations
from committing. -/
def create (g : Gateway) (creation : Nat) (userId : UserId) (projectId : ProjectId) : Option Gateway :=
  if (g.creations creation).isSome ∨ projectId ∈ g.projects then none
  else
    some { g with
      server := { g.server with world := g.server.world.setMember projectId userId (some .OWNER) }
      projects := projectId :: g.projects
      creations := Function.update g.creations creation (some (userId, projectId)) }

def joinCreated (g : Gateway) (creation : Nat) : Option Gateway :=
  (g.creations creation).map fun (userId, projectId) =>
    { g with
      server := { g.server with world := g.server.world.joinProjectRoom userId projectId }
      creations := Function.update g.creations creation none }

def step (g : Gateway) : Label → Option Gateway
  | .server label => if isOther label then (g.server.step label).map fun server => { g with server } else none
  | .handleConnection client => g.handleConnection client
  | .findMemberships socketId => g.findMemberships socketId
  | .joinRoom socketId projectId id => g.joinRoom socketId projectId id
  | .joined socketId => g.joined socketId
  | .makeReady socketId => g.makeReady socketId
  | .refuse socketId => g.refuse socketId
  | .create creation userId projectId => g.create creation userId projectId
  | .joinCreated creation => g.joinCreated creation

/-! ### Rooms and memberships -/

/-- The request adds a membership or takes one away. -/
def changesMembers : Request → Bool
  | .addMember .. => true
  | .removeMember .. => true
  | _ => false

/-- No `addMember`, `removeMember` or creation of a project is in flight. -/
structure AtRest (g : Gateway) : Prop where
  settled : ∀ id task, g.server.tasks id = some task → changesMembers task.request →
    ∃ result, task.progress = .settled result
  created : ∀ creation, g.creations creation = none

/-- A connected and ready socket is in the rooms of its user's projects. -/
def RoomsAreMemberships (g : Gateway) : Prop :=
  ∀ socketId connection, g.server.world.connections socketId = some connection → connection.connected →
    connection.ready → ∀ projectId, projectId ∈ connection.rooms ↔
      (g.server.world.members projectId connection.client.userId).isSome

end Gateway

end Transcendence.Realtime
