import Transcendence.Base.Runs
import Transcendence.Realtime.Handlers

/-!
# The server process

All calls in flight on one `FieldLockManager`, as a transition system. A label is one turn of the
event loop or one effect of the database, the timer or the network:

* `request` starts a call of `runProject` or `runProjectResource` and `coordination` is a turn of
  the coordinators; the body of a call settles before its locks are released;
* `turn` is the next piece of a body that holds its locks;
* `announce` is what a handler emits after its call has returned;
* `connect`, `ready` and `disconnect` change a socket, and `tick` lets time pass;
* `sweep`, `sweepNext` and `sweepCollect` are the loops of `releaseSocket` and
  `releaseExpiredLeases`, which release one lease of their snapshot after the other;
* `setRow` and `setUser` are what the rest of the application does to rows that bodies read.
-/

namespace Transcendence.Realtime

structure Task where
  request : Request
  progress : Progress
  announced : Bool
  deriving DecidableEq, Repr

inductive SweepKind where
  | releaseSocket (socketId : SocketId)
  | releaseExpiredLeases
  deriving DecidableEq, Repr

/-- A loop over `pending` leases, whose `current` call is in flight; `released` waits for its end. -/
structure Sweep where
  kind : SweepKind
  pending : List (String × ProjectId)
  current : Option CallId
  released : List Emission
  deriving DecidableEq, Repr

structure Server where
  coordination : ProjectResourceCoordinator
  world : World
  tasks : CallId → Option Task
  sweeps : Nat → Option Sweep

def World.initial (users : String → Option UserId) (members : ProjectId → UserId → Option Role) : World where
  now := 0
  leases := []
  issued _ := none
  connections _ := none
  members := members
  users := users
  rows _ _ := none
  messages _ := none
  history := []

namespace Server

def initial (users : String → Option UserId) (members : ProjectId → UserId → Option Role) : Server where
  coordination := .initial
  world := .initial users members
  tasks _ := none
  sweeps _ := none

inductive Label where
  | request (id : CallId) (request : Request)
  | coordination (label : ProjectResourceCoordinator.Label)
  | turn (id : CallId) (input : Input)
  | announce (id : CallId)
  | connect (client : Socket)
  | ready (socketId : SocketId)
  | disconnect (socketId : SocketId)
  | tick (elapsed : Nat)
  | sweep (sweepId : Nat) (kind : SweepKind)
  | sweepNext (sweepId : Nat) (id : CallId)
  | sweepCollect (sweepId : Nat)
  | setRow (resource : LockableResource) (id : String) (row : Option LockableRow)
  | setUser (username : String) (userId : Option UserId)
  deriving DecidableEq, Repr

def setTask (s : Server) (id : CallId) (task : Task) : Server :=
  { s with tasks := Function.update s.tasks id (some task) }

def setSweep (s : Server) (sweepId : Nat) (sweep : Sweep) : Server :=
  { s with sweeps := Function.update s.sweeps sweepId (some sweep) }

@[simp] theorem setTask_tasks_self (s : Server) (id : CallId) (task : Task) : (s.setTask id task).tasks id = some task :=
  Function.update_self ..

theorem setTask_tasks_of_ne (s : Server) {id other : CallId} (task : Task) (h : other ≠ id) :
    (s.setTask id task).tasks other = s.tasks other := Function.update_of_ne h ..

def emit (s : Server) (emissions : List Emission) : Server := { s with world := s.world.record (emissions.map .emitted) }

/-- The call of a request enters the coordinators. -/
def start (s : Server) (id : CallId) (request : Request) : Option Server :=
  (s.coordination.start id request.projectId request.resourceKey).map fun coordination =>
    { s with coordination }.setTask id ⟨request, .begun, false⟩

/-- Requests come from outside, but for the calls that `sweepNext` makes; a message of a socket
comes after `waitUntilReady`. -/
def accepts (s : Server) : Request → Bool
  | .field _ client _ _ =>
      (s.world.connections client.id).any fun connection =>
        connection.client == client && connection.ready && connection.connected
  | .joinRoom client _ => (s.world.connections client.id).any (·.client == client)
  | .releaseLease .. => false
  | .expireLease .. => false
  | _ => true

def receive (s : Server) (id : CallId) (request : Request) : Option Server :=
  if s.accepts request then s.start id request else none

def result (s : Server) (id : CallId) : Option Result :=
  match s.tasks id with
  | some ⟨_, .settled result, _⟩ => some result
  | _ => none

/-- The turns of the coordinators that come with no other step; a body settles before its locks are
released. -/
def allows (s : Server) : ProjectResourceCoordinator.Label → Bool
  | .start .. => false
  | .settleBody id => (s.result id).isSome
  | _ => true

def coordinate (s : Server) (label : ProjectResourceCoordinator.Label) : Option Server :=
  if s.allows label then (s.coordination.step label).map fun coordination => { s with coordination } else none

def turn (s : Server) (id : CallId) (input : Input) : Option Server :=
  (s.coordination.inPhase id .running).bind fun _ =>
    (s.tasks id).bind fun task =>
      (s.world.body input task.progress task.request).map fun (world, progress) =>
        { s with world }.setTask id { task with progress }

/-- What the caller of a request emits itself once the call has returned; the sweeps collect the
results of theirs. -/
def isSwept : Request → Bool
  | .releaseLease .. => true
  | .expireLease .. => true
  | _ => false

def emissions : Result → List Emission
  | .threw => []
  | .returned emissions _ _ => emissions

def announce (s : Server) (id : CallId) : Option Server :=
  (s.coordination.inPhase id .finished).bind fun _ =>
    ((s.tasks id).filter fun task => !task.announced && !isSwept task.request).bind fun task =>
      (s.result id).map fun result =>
        (s.emit (emissions result)).setTask id { task with announced := true }

def connect (s : Server) (client : Socket) : Option Server :=
  if (s.world.connections client.id).isSome then none
  else
    some { s with
      world := { s.world with
        connections := Function.update s.world.connections client.id (some ⟨client, false, true, []⟩) } }

def ready (s : Server) (socketId : SocketId) : Server :=
  { s with world := s.world.updateConnections (·.client.id == socketId) ({ · with ready := true }) }

def disconnect (s : Server) (socketId : SocketId) : Server :=
  { s with world := s.world.updateConnections (·.client.id == socketId) ({ · with connected := false, rooms := [] }) }

/-- A loop takes its snapshot of the leases; `handleDisconnect` runs for a socket that is
disconnected. -/
def beginSweep (s : Server) (sweepId : Nat) (kind : SweepKind) : Option Server :=
  if (s.sweeps sweepId).isSome then none
  else
    match kind with
    | .releaseSocket socketId =>
        if (s.world.connections socketId).any (!·.connected) then
          some (s.setSweep sweepId
            ⟨kind, (s.world.leases.ofSocket socketId).map fun (key, lease) => (key, lease.projectId), none, []⟩)
        else none
    | .releaseExpiredLeases =>
        some (s.setSweep sweepId
          ⟨kind, (s.world.leases.expired s.world.now).map fun (key, lease) => (key, lease.projectId), none, []⟩)

def SweepKind.request (kind : SweepKind) (key : String) (projectId : ProjectId) : Request :=
  match kind with
  | .releaseSocket socketId => .releaseLease socketId projectId key
  | .releaseExpiredLeases => .expireLease projectId key

/-- The loop calls `withProjectResource` for its next lease, or ends. -/
def sweepNext (s : Server) (sweepId : Nat) (id : CallId) : Option Server :=
  (s.sweeps sweepId).bind fun sweep =>
    match sweep.current, sweep.pending with
    | some _, _ => none
    | none, (key, projectId) :: pending =>
        (s.start id (SweepKind.request sweep.kind key projectId)).map fun s =>
          s.setSweep sweepId { sweep with pending, current := some id }
    | none, [] => some ((s.emit sweep.released).setSweep sweepId { sweep with released := [] })

/-- The loop's call has returned. `releaseSocket` keeps what was released until its end; the timer
emits it at once. -/
def sweepCollect (s : Server) (sweepId : Nat) : Option Server :=
  (s.sweeps sweepId).bind fun sweep =>
    sweep.current.bind fun id =>
      (s.coordination.inPhase id .finished).bind fun _ =>
        (s.result id).map fun result =>
          match sweep.kind with
          | .releaseSocket _ =>
              s.setSweep sweepId { sweep with current := none, released := sweep.released ++ emissions result }
          | .releaseExpiredLeases => (s.emit (emissions result)).setSweep sweepId { sweep with current := none }

def step (s : Server) : Label → Option Server
  | .request id request => s.receive id request
  | .coordination label => s.coordinate label
  | .turn id input => s.turn id input
  | .announce id => s.announce id
  | .connect client => s.connect client
  | .ready socketId => some (s.ready socketId)
  | .disconnect socketId => some (s.disconnect socketId)
  | .tick elapsed => some { s with world := { s.world with now := s.world.now + elapsed } }
  | .sweep sweepId kind => s.beginSweep sweepId kind
  | .sweepNext sweepId id => s.sweepNext sweepId id
  | .sweepCollect sweepId => s.sweepCollect sweepId
  | .setRow resource id row =>
      some { s with
        world := { s.world with
          rows := Function.update s.world.rows resource (Function.update (s.world.rows resource) id row) } }
  | .setUser username userId =>
      some { s with world := { s.world with users := Function.update s.world.users username userId } }

end Server

end Transcendence.Realtime
