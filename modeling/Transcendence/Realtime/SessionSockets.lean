import Transcendence.Base.OrderedMap
import Transcendence.Base.Runs
import Transcendence.Base.Timers

/-!
# The sockets of a session

`handleConnection`, `joinRooms` and `handleDisconnect` of `realtime.gateway.ts`, as far as they keep the
registry of the sockets of each session and the timers that guard a socket. Between two steps is an
`await`: a promise of `joinRooms` is resolved or rejected, or `handleConnection` goes on with what
`joinRooms` has returned, with the events of other sockets in between. Timers fire at any time.

The rooms themselves and the locks of a socket are left out; nothing here reads them. What is not in the
program are `Client.registeredKey`, the session that the socket was once registered under, and
`Client.disconnectHandled`, that its `handleDisconnect` has run.
-/

namespace Transcendence.Realtime.SessionSockets

def maximumSocketsPerSession : Nat := 5

/-- How far `handleConnection` has come with a socket. -/
inductive Phase where
  | joiningUserRoom
  | findingMemberships
  /-- In `withProject`, before its operation starts; the other memberships are still to come. -/
  | enteringProject (projectId : String) (memberships : List String)
  | countingMemberships (projectId : String) (memberships : List String)
  | joiningProjectRoom (projectId : String) (memberships : List String)
  /-- In `withProject`, after its operation. -/
  | leavingProject (memberships : List String)
  /-- `joinRooms` has returned false or thrown, and `handleConnection` is about to hear of it. -/
  | failed
  /-- `handleConnection` has given the socket up. -/
  | refused
  | ready
  deriving DecidableEq, Repr

structure Client where
  userId : Option String
  sessionId : Option String
  sessionSocketKey : Option String
  connected : Bool
  phase : Phase
  registeredKey : Option String
  disconnectHandled : Bool
  deriving DecidableEq, Repr

structure Guards where
  revalidation : Nat
  lifetime : Nat
  deriving DecidableEq, Repr

inductive GuardKind where
  | revalidation
  | lifetime
  deriving DecidableEq, Repr

def Guards.timer (guards : Guards) : GuardKind → Nat
  | .revalidation => guards.revalidation
  | .lifetime => guards.lifetime

structure GuardTimer where
  socketId : String
  kind : GuardKind
  deriving DecidableEq, Repr

/-- The sockets of each session. -/
abbrev Registry := OrderedMap String (List String)

/-- `revalidationInFlight` has, for each interval, the socket whose session is being asked for. -/
structure State where
  admissionService : Bool
  clients : String → Option Client
  sessionSockets : Registry
  socketGuards : OrderedMap String Guards
  timers : Timers GuardTimer
  revalidationInFlight : Nat → Option String

/-- A text that is there and not empty. -/
def present (value : Option String) : Option String := value.filter (· ≠ "")

/-- The key of the session in the registry. -/
def sessionKey (client : Client) : Option String :=
  (present client.userId).bind fun subject => (present client.sessionId).map fun sessionId => s!"{subject}:{sessionId}"

/-! ### The registry -/

namespace Registry

def socketsOf (sessionSockets : Registry) (key : String) : List String := (OrderedMap.get sessionSockets key).getD []

/-- Nothing where the socket is not taken in. -/
def registerSessionSocket (sessionSockets : Registry) (id : String) (client : Client) : Option (Registry × Client) :=
  (sessionKey client).bind fun key =>
    let sockets := socketsOf sessionSockets key
    if maximumSocketsPerSession ≤ sockets.length then none
    else
      some (OrderedMap.set sessionSockets key (if id ∈ sockets then sockets else sockets ++ [id]),
        { client with sessionSocketKey := some key, registeredKey := some key })

def unregisterSessionSocket (sessionSockets : Registry) (id : String) (client : Client) : Registry × Client :=
  match client.sessionSocketKey with
  | none => (sessionSockets, client)
  | some key =>
      let remaining :=
        match OrderedMap.get sessionSockets key with
        | none => sessionSockets
        | some sockets =>
            if sockets.filter (· ≠ id) = [] then OrderedMap.delete sessionSockets key
            else OrderedMap.set sessionSockets key (sockets.filter (· ≠ id))
      (remaining, { client with sessionSocketKey := none })

end Registry

namespace State

def initial (admissionService : Bool) : State where
  admissionService := admissionService
  clients _ := none
  sessionSockets := []
  socketGuards := []
  timers := .initial
  revalidationInFlight _ := none

def setClient (s : State) (id : String) (client : Client) : State :=
  { s with clients := Function.update s.clients id (some client) }

/-! ### The guards -/

def clearSocketGuards (s : State) (id : String) : State :=
  match OrderedMap.get s.socketGuards id with
  | none => s
  | some guards =>
      { s with
        timers := (s.timers.clearTimeout guards.revalidation).clearTimeout guards.lifetime
        socketGuards := OrderedMap.delete s.socketGuards id }

def startSocketGuards (s : State) (id : String) : State :=
  let s := s.clearSocketGuards id
  let revalidating := s.timers.setTimeout ⟨id, .revalidation⟩
  { s with
    timers := revalidating.setTimeout ⟨id, .lifetime⟩
    revalidationInFlight := Function.update s.revalidationInFlight s.timers.next none
    socketGuards := OrderedMap.set s.socketGuards id ⟨s.timers.next, revalidating.next⟩ }

/-- `client.disconnect(true)`; its `handleDisconnect` is a step of its own. -/
def disconnect (s : State) (id : String) (client : Client) : State := s.setClient id { client with connected := false }

/-! ### Joining rooms -/

def setPhase (s : State) (id : String) (client : Client) (phase : Phase) : State :=
  s.setClient id { client with phase := phase }

/-- `joinRooms` up to its first `await`. -/
def joinRooms (s : State) (id : String) (client : Client) : State :=
  if sessionKey client = none ∨ s.admissionService = false then s.setPhase id client .failed
  else s.setPhase id client .joiningUserRoom

/-- The loop of `joinRooms`, up to the next `await` or to its end. -/
def nextMembership (s : State) (id : String) (client : Client) (memberships : List String) : State :=
  if client.connected = false then s.setPhase id client .failed
  else
    match memberships with
    | projectId :: memberships => s.setPhase id client (.enteringProject projectId memberships)
    | [] => (s.startSocketGuards id).setPhase id client .ready

def handleConnection (s : State) (id : String) (userId sessionId : Option String) : State :=
  let client : Client := ⟨userId, sessionId, none, true, .refused, none, false⟩
  match s.sessionSockets.registerSessionSocket id client with
  | none => s.disconnect id client
  | some (sessionSockets, client) => { s with sessionSockets := sessionSockets }.joinRooms id client

/-- `handleConnection` goes on after `joinRooms` has failed. -/
def giveUp (s : State) (id : String) (client : Client) : State :=
  let (sessionSockets, client) := s.sessionSockets.unregisterSessionSocket id client
  { s with sessionSockets := sessionSockets }.setClient id { client with phase := .refused, connected := false }

def handleDisconnect (s : State) (id : String) (client : Client) : State :=
  let (sessionSockets, client) := s.sessionSockets.unregisterSessionSocket id client
  ({ s with sessionSockets := sessionSockets }.setClient id { client with disconnectHandled := true }).clearSocketGuards id

end State

/-! ### Steps -/

inductive Label where
  | handleConnection (id : String) (userId sessionId : Option String)
  | joinedUserRoom (id : String)
  | foundMemberships (id : String) (memberships : List String)
  | enterProject (id : String)
  | countedMemberships (id : String) (isCurrentProjectMember : Bool)
  | joinedProjectRoom (id : String)
  | leftProject (id : String)
  /-- What `joinRooms` waits for is rejected. -/
  | reject (id : String)
  | giveUp (id : String)
  /-- The connection goes down. -/
  | disconnect (id : String)
  | handleDisconnect (id : String)
  | fire (timer : Nat)
  /-- The answer, if there is one, to the revalidation of an interval. -/
  | revalidated (timer : Nat) (active : Option Bool)

/-- `joinRooms` waits for something. -/
def Phase.waits : Phase → Bool
  | .failed => false
  | .refused => false
  | .ready => false
  | _ => true

namespace State

/-- A step of a socket that there is, in the phase that `f` asks for. -/
def advance (s : State) (id : String) (f : Client → Option State) : Option State := (s.clients id).bind f

def step (s : State) : Label → Option State
  | .handleConnection id userId sessionId =>
      if s.clients id = none then some (s.handleConnection id userId sessionId) else none
  | .joinedUserRoom id => s.advance id fun client =>
      match client.phase with
      | .joiningUserRoom =>
          some (s.setPhase id client (if client.connected then .findingMemberships else .failed))
      | _ => none
  | .foundMemberships id memberships => s.advance id fun client =>
      match client.phase with
      | .findingMemberships => some (s.nextMembership id client memberships)
      | _ => none
  | .enterProject id => s.advance id fun client =>
      match client.phase with
      | .enteringProject projectId memberships =>
          some (s.setPhase id client
            (if client.connected then .countingMemberships projectId memberships else .leavingProject memberships))
      | _ => none
  | .countedMemberships id isCurrentProjectMember => s.advance id fun client =>
      match client.phase with
      | .countingMemberships projectId memberships =>
          some (s.setPhase id client
            (if isCurrentProjectMember ∧ client.connected then .joiningProjectRoom projectId memberships
              else .leavingProject memberships))
      | _ => none
  | .joinedProjectRoom id => s.advance id fun client =>
      match client.phase with
      | .joiningProjectRoom _ memberships => some (s.setPhase id client (.leavingProject memberships))
      | _ => none
  | .leftProject id => s.advance id fun client =>
      match client.phase with
      | .leavingProject memberships => some (s.nextMembership id client memberships)
      | _ => none
  | .reject id => s.advance id fun client =>
      if client.phase.waits then some (s.setPhase id client .failed) else none
  | .giveUp id => s.advance id fun client =>
      match client.phase with
      | .failed => some (s.giveUp id client)
      | _ => none
  | .disconnect id => s.advance id fun client => some (s.disconnect id client)
  | .handleDisconnect id => s.advance id fun client =>
      if client.connected = false ∧ client.disconnectHandled = false then some (s.handleDisconnect id client) else none
  | .fire timer => (s.timers.armed timer).bind fun guard => s.advance guard.socketId fun client =>
      match guard.kind with
      | .revalidation =>
          if s.revalidationInFlight timer ≠ none ∨ client.connected = false then some s
          else
            some { s with
              revalidationInFlight := Function.update s.revalidationInFlight timer (some guard.socketId) }
      | .lifetime => some ({ s with timers := s.timers.clearTimeout timer }.disconnect guard.socketId client)
  | .revalidated timer active => (s.revalidationInFlight timer).bind fun id => s.advance id fun client =>
      let answered := { s with revalidationInFlight := Function.update s.revalidationInFlight timer none }
      some (if active = some true then answered else answered.disconnect id client)

end State

end Transcendence.Realtime.SessionSockets
