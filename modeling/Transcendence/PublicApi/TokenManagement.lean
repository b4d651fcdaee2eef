import Transcendence.Auth.ApiTokenTrail
import Transcendence.Realtime.Server

/-!
# The management of API tokens

`ProjectApiTokensService`: owners and admins have the auth service create, revoke and delete the API tokens of
their project. Each call runs under the project's exclusive lock, reads the membership of its user, and sends a
request that it waits for no longer than two seconds. Any number of calls interleave with those of the rest of
the server, which change the memberships under the same locks, with the calls of the auth service, and with what
takes no lock: projects are created, archived and removed, and accounts are removed.

A request that nobody waits for any more may still be on its way, so a call remembers what became of it apart
from how far it is itself. `list`, which only reads, is left out. Foreign keys are those of the database: a
project that is not there has no members and takes its tokens with it, and an account that is not there is no
member of anything, while the tokens and events keep its id.
-/

namespace Transcendence.PublicApi.TokenManagement

open Auth (ProjectAPITokenPermission ProjectAPITokenStore ProjectApiTokenEventRow ProjectApiTokenEventType)
open Auth.ProjectApiTokens (CreateProjectAPITokenRequest)
open Realtime (CallId ProjectId Role Server UserId)
open Realtime.World (mayManage)

/-- `trimSpace` is `strings.TrimSpace`. -/
structure Config where
  store : ProjectAPITokenStore
  trimSpace : String → String

/-- `expiresAt` is the instant of the text in milliseconds, none if the text denotes no date. -/
structure CreateProjectApiTokenDto where
  label : String
  permission : ProjectAPITokenPermission
  expiresAt : Option Int
  deriving DecidableEq, Repr

inductive Operation where
  | create (dto : CreateProjectApiTokenDto)
  | revoke (tokenId : String)
  | remove (tokenId : String)
  deriving DecidableEq, Repr

/-- The event that the auth service records of the operation. -/
def Operation.eventType : Operation → ProjectApiTokenEventType
  | .create _ => .CREATED
  | .revoke _ => .REVOKED
  | .remove _ => .DELETED

inductive Outcome where
  | returned
  | threw (status : Nat)
  deriving DecidableEq, Repr

inductive Progress where
  | begun
  | readingMember
  | memberRead (member : Option Role)
  | readingProject
  | projectRead (found : Bool)
  /-- The request is sent, and its response awaited. -/
  | requesting
  | settled (outcome : Outcome)
  deriving DecidableEq, Repr

inductive Delivery where
  | unsent
  | sent
  /-- The auth service handles the request in this call. -/
  | delivered (authCall : Nat)
  deriving DecidableEq, Repr

structure Call where
  projectId : ProjectId
  userId : UserId
  operation : Operation
  progress : Progress
  delivery : Delivery
  deriving DecidableEq, Repr

/-- What a turn of a call gets from outside: whether its query succeeds, and the clock in milliseconds. -/
structure Input where
  succeeds : Bool := true
  now : Nat := 0
  deriving DecidableEq, Repr

structure State where
  server : Server
  auth : Auth.ProjectApiTokens.State
  isArchived : ProjectId → Bool
  removedProjects : List ProjectId
  removedAccounts : List UserId
  calls : CallId → Option Call

inductive Label where
  | server (label : Server.Label)
  | auth (label : Auth.ProjectApiTokens.Label)
  | request (id : CallId) (projectId : ProjectId) (userId : UserId) (operation : Operation)
  | turn (id : CallId) (input : Input)
  /-- The request of the call reaches the auth service. -/
  | deliver (id : CallId) (authCall : Nat) (request : Auth.ProjectApiTokens.Request)
  /-- The response of the auth service. -/
  | answer (id : CallId)
  /-- The request times out, fails, or is refused before a call of the auth service. -/
  | abandon (id : CallId)
  | settle (id : CallId)
  | archive (projectId : ProjectId) (isArchived : Bool)
  | createProject (projectId : ProjectId) (userId : UserId)
  | removeProject (projectId : ProjectId)
  | removeAccount (userId : UserId)

def millisecond : Nat := 1000000

def maxLifetime : Int := 365 * 24 * 60 * 60 * 1000

/-- Whether `create` accepts the expiry of the token. -/
def CreateProjectApiTokenDto.accepted (dto : CreateProjectApiTokenDto) (now : Nat) : Bool :=
  dto.expiresAt.any fun expiresAt => (now : Int) < expiresAt && expiresAt ≤ now + maxLifetime

/-- Whether the auth service makes this call of the request that `call` has sent. -/
def Call.asks (config : Config) (call : Call) : Auth.ProjectApiTokens.Request → Bool
  | .create r =>
      match call.operation with
      | .create dto =>
          r.projectId = call.projectId && r.createdByUserId = call.userId && r.label = config.trimSpace dto.label &&
            r.permission = dto.permission && dto.expiresAt = some ((r.expiresAt / millisecond : Nat) : Int)
      | _ => false
  | .introspect _ => false
  | .revoke projectId tokenId actorUserId =>
      projectId = call.projectId && actorUserId = call.userId && call.operation = .revoke tokenId
  | .delete projectId tokenId actorUserId =>
      projectId = call.projectId && actorUserId = call.userId && call.operation = .remove tokenId

def outcome : Except Auth.ProjectApiTokens.Error Auth.ProjectApiTokens.Response → Outcome
  | .ok _ => .returned
  | .error .notFound => .threw 404
  | .error .conflict => .threw 409
  | .error _ => .threw 503

namespace State

def initial (users : String → Option UserId) (members : ProjectId → UserId → Option Role) (projects : List ProjectId)
    (clock : Nat) : State where
  server := .initial users members
  auth := Auth.ProjectApiTokens.initial projects clock
  isArchived _ := false
  removedProjects := []
  removedAccounts := []
  calls _ := none

def setCall (s : State) (id : CallId) (call : Call) : State :=
  { s with calls := Function.update s.calls id (some call) }

def setProgress (s : State) (id : CallId) (call : Call) (progress : Progress) : State :=
  s.setCall id { call with progress }

def send (s : State) (id : CallId) (call : Call) : State :=
  s.setCall id { call with progress := .requesting, delivery := .sent }

def member (s : State) (projectId : ProjectId) (userId : UserId) : Option Role :=
  if projectId ∈ s.auth.projects ∧ userId ∉ s.removedAccounts then s.server.world.members projectId userId else none

def isActive (s : State) (projectId : ProjectId) : Bool :=
  projectId ∈ s.auth.projects && !s.isArchived projectId

/-- A call of `runProject`. -/
def request (s : State) (id : CallId) (projectId : ProjectId) (userId : UserId) (operation : Operation) : Option State :=
  (s.server.coordination.start id projectId none).map fun coordination =>
    { s with server := { s.server with coordination } }.setCall id ⟨projectId, userId, operation, .begun, .unsent⟩

/-- The next turn of a call that holds its project. -/
def turn (s : State) (id : CallId) (input : Input) : Option State :=
  (s.server.coordination.inPhase id .running).bind fun _ =>
    (s.calls id).bind fun call =>
      match call.progress with
      | .begun => some (s.setProgress id call .readingMember)
      | .readingMember =>
          some (s.setProgress id call
            (if input.succeeds then .memberRead (s.member call.projectId call.userId) else .settled (.threw 500)))
      | .memberRead none => some (s.setProgress id call (.settled (.threw 404)))
      | .memberRead (some role) =>
          if mayManage role then
            match call.operation with
            | .create _ => some (s.setProgress id call .readingProject)
            | _ => some (s.send id call)
          else some (s.setProgress id call (.settled (.threw 403)))
      | .readingProject =>
          some (s.setProgress id call
            (if input.succeeds then .projectRead (s.isActive call.projectId) else .settled (.threw 500)))
      | .projectRead found =>
          match call.operation with
          | .create dto =>
              if !found then some (s.setProgress id call (.settled (.threw 404)))
              else if dto.accepted input.now then some (s.send id call)
              else some (s.setProgress id call (.settled (.threw 400)))
          | _ => none
      | _ => none

def deliver (config : Config) (s : State) (id : CallId) (authCall : Nat) (request : Auth.ProjectApiTokens.Request) :
    Option State :=
  ((s.calls id).filter fun call => call.delivery = .sent && call.asks config request).bind fun call =>
    (s.auth.begin authCall request).map fun auth =>
      { s with auth }.setCall id { call with delivery := .delivered authCall }

def answer (s : State) (id : CallId) : Option State :=
  ((s.calls id).filter (·.progress = .requesting)).bind fun call =>
    match call.delivery with
    | .delivered authCall =>
        match s.auth.calls authCall with
        | some ⟨_, .ended result⟩ => some (s.setProgress id call (.settled (outcome result)))
        | _ => none
    | _ => none

def abandon (s : State) (id : CallId) : Option State :=
  ((s.calls id).filter (·.progress = .requesting)).map fun call => s.setProgress id call (.settled (.threw 503))

/-- The body of the call has returned or thrown. -/
def settle (s : State) (id : CallId) : Option State :=
  (s.calls id).bind fun call =>
    match call.progress with
    | .settled _ =>
        (s.server.coordination.settleBody id).map fun coordination => { s with server := { s.server with coordination } }
    | _ => none

/-- Calls that manage tokens are those of requests. -/
def stepAuth (config : Config) (s : State) (label : Auth.ProjectApiTokens.Label) : Option State :=
  match label with
  | .begin _ request =>
      if request.management.isSome then none
      else (Auth.ProjectApiTokens.State.step config.store s.auth label).map fun auth => { s with auth }
  | _ => (Auth.ProjectApiTokens.State.step config.store s.auth label).map fun auth => { s with auth }

/-- Ids are new, and never given again. -/
def createProject (s : State) (projectId : ProjectId) (userId : UserId) : Option State :=
  if projectId ∈ s.auth.projects ∨ projectId ∈ s.removedProjects ∨ userId ∈ s.removedAccounts then none
  else
    some { s with
      server := { s.server with
        world := { s.server.world with
          members := Function.update s.server.world.members projectId (Function.update (fun _ => none) userId (some .OWNER)) } }
      auth := { s.auth with projects := s.auth.projects ++ [projectId] } }

/-- The cascade waits for the tokens that a transaction has locked. -/
def removeProject (s : State) (projectId : ProjectId) : Option State :=
  if s.auth.tokens.any fun row => row.projectId = projectId && (s.auth.rowLocks row.id).isSome then none
  else
    some { s with
      server := { s.server with
        world := { s.server.world with
          members := Function.update s.server.world.members projectId fun _ => none
          rows := fun resource id => (s.server.world.rows resource id).filter (·.projectId ≠ projectId)
          messages := fun id => (s.server.world.messages id).filter (·.projectId ≠ projectId) } }
      auth := { s.auth with
        projects := s.auth.projects.filter (· ≠ projectId)
        tokens := s.auth.tokens.filter (·.projectId ≠ projectId) }
      removedProjects := projectId :: s.removedProjects }

def removeAccount (s : State) (userId : UserId) : State :=
  { s with
    server := { s.server with
      world := { s.server.world with
        members := fun projectId => Function.update (s.server.world.members projectId) userId none } }
    removedAccounts := userId :: s.removedAccounts }

def step (config : Config) (s : State) : Label → Option State
  | .server label => (s.server.step label).map fun server => { s with server }
  | .auth label => s.stepAuth config label
  | .request id projectId userId operation => s.request id projectId userId operation
  | .turn id input => s.turn id input
  | .deliver id authCall request => s.deliver config id authCall request
  | .answer id => s.answer id
  | .abandon id => s.abandon id
  | .settle id => s.settle id
  | .archive projectId isArchived => some { s with isArchived := Function.update s.isArchived projectId isArchived }
  | .createProject projectId userId => s.createProject projectId userId
  | .removeProject projectId => s.removeProject projectId
  | .removeAccount userId => some (s.removeAccount userId)

/-- The user is an owner or admin of the project. -/
def Manages (s : State) (projectId : ProjectId) (userId : UserId) : Prop :=
  ∃ role, s.member projectId userId = some role ∧ mayManage role

end State

end Transcendence.PublicApi.TokenManagement
