import Transcendence.Auth.ApiTokenLifecycle
import Transcendence.Tasks.Audit

/-!
# The public API

Requests of machines to `/public/v1`: `ProjectApiTokenGuard`, which has the auth service introspect the
API key, and the handlers of `PublicProjectController` and `PublicTokenController` over the task service.
Any number of requests interleave with the calls of the auth service, by which tokens come and go, with
those of the task service that users make, and with projects that are archived and brought back. A request
may fail at any of its awaits: the auth service or the database is away, or the write limit refuses it.

Both services have the same internal token, and projects are not deleted. The calendar events and discovery
blocks, which the API only reads like the tasks, are left out. A request remembers the introspection it
waits for, and then the principal and the task call it has got.
-/

namespace Transcendence.PublicApi

open Auth (ProjectAPITokenPermission ProjectAPITokenStore ProjectAPITokenPrefix)
open Auth.ProjectApiTokens (ProjectAPITokenPrincipal)
open Tasks (CallId CreateTaskDto ProjectId Task TaskId UpdateTaskDto)

/-- `isUUID` is that of a library. -/
structure Config where
  store : ProjectAPITokenStore
  isUUID : String → Bool

/-- `x-api-key` as the server reads it. -/
inductive HeaderValue where
  | absent
  | value (text : Bytes)
  | values (texts : List Bytes)
  deriving DecidableEq, Repr

inductive Route where
  | introspect
  | tasks (limit : Option Int)
  | task (taskId : TaskId)
  | createTask (dto : CreateTaskDto)
  | updateTask (taskId : TaskId) (dto : UpdateTaskDto)
  | deleteTask (taskId : TaskId)
  deriving DecidableEq, Repr

/-- The permission that `ProjectApiTokenAuthenticated` asks for; the token's own route asks for none. -/
def Route.requiredPermission : Route → Option ProjectAPITokenPermission
  | .introspect => none
  | .tasks _ => some .READ
  | .task _ => some .READ
  | .createTask _ => some .READ_WRITE
  | .updateTask _ _ => some .READ_WRITE
  | .deleteTask _ => some .READ_WRITE

/-- Whether `ParseUUIDPipe` takes the route's other parameter. -/
def Route.wellFormed (config : Config) : Route → Bool
  | .task taskId => config.isUUID taskId
  | .updateTask taskId _ => config.isUUID taskId
  | .deleteTask taskId => config.isUUID taskId
  | _ => true

/-- Of the token's own route, `projectId` is not there. -/
structure PublicRequest where
  projectId : ProjectId
  apiKey : HeaderValue
  route : Route
  deriving DecidableEq, Repr

inductive PublicResponse where
  | principal (principal : ProjectAPITokenPrincipal)
  | tasks (tasks : List Task)
  | task (task : Task)
  /-- With what the task call returns: the task it has written, or has deleted. -/
  | written (task : Task)
  /-- The error of the task call. -/
  | refused
  | status (status : Nat)
  deriving DecidableEq, Repr

inductive Stage where
  | introspecting
  /-- Before the guard looks for the project. -/
  | introspected
  | activated
  | handling
  | ended (response : PublicResponse)
  deriving DecidableEq, Repr

/-- After its introspection; the token's own route needs no more of the guard. -/
def Route.next : Route → Stage
  | .introspect => .activated
  | _ => .introspected

structure Client where
  request : PublicRequest
  introspection : Nat
  principal : Option ProjectAPITokenPrincipal
  taskCall : Option CallId
  stage : Stage
  deriving DecidableEq, Repr

structure Backend where
  auth : Auth.ProjectApiTokens.State
  board : Tasks.Service
  isArchived : ProjectId → Bool
  clients : Nat → Option Client

inductive Label where
  | auth (label : Auth.ProjectApiTokens.Label)
  | board (label : Tasks.Label)
  | archive (id : ProjectId) (isArchived : Bool)
  | arrive (id : Nat) (request : PublicRequest) (introspection : Nat)
  /-- The auth service has answered. -/
  | introspected (id : Nat)
  | findProject (id : Nat)
  | handle (id : Nat) (taskCall : CallId)
  /-- The task call has ended. -/
  | respond (id : Nat)
  | fail (id : Nat) (status : Nat)

/-- Of an id, whose characters are ASCII. -/
def toLowerCase (id : String) : String :=
  id.map Char.toLower

/-- The API key, or the status of the error: what the guard does before it asks the auth service. -/
def PublicRequest.key (request : PublicRequest) (config : Config) : Except Nat Bytes :=
  if request.route ≠ .introspect ∧ config.isUUID request.projectId = false then .error 400
  else
    match request.apiKey with
    | .value text => if ProjectAPITokenPrefix.isPrefixOf text then .ok text else .error 401
    | _ => .error 401

/-- With no limit, or the limit of the request; a negative one is refused. -/
def pageSize : Option Int → Option Nat
  | none => some 100
  | some value => if value < 0 then none else some (min value.toNat 100)

/-- The mutation that a write asks the task service for. -/
def Route.mutation (route : Route) (projectId : ProjectId) (tokenId : String) : Option Tasks.Request :=
  match route with
  | .createTask dto => some (.createAs projectId dto (.MACHINE tokenId))
  | .updateTask taskId dto => some (.updateAs taskId dto projectId (.MACHINE tokenId))
  | .deleteTask taskId => some (.removeAs taskId projectId (.MACHINE tokenId))
  | _ => none

/-- The columns of the board, one after another in the order of the statuses. -/
def taskOrder (task : Task) : Nat × Int :=
  (match task.status with
    | .TODO => 0
    | .IN_PROGRESS => 1
    | .REVIEW => 2
    | .COMPLETED => 3, task.rank)

/-- `findAllForProject`, with a choice of what the database returns among equals. -/
def findAllForProject (db : Tasks.Database) (projectId : ProjectId) (limit : Nat) : List Task :=
  ((db.board projectId).mergeSort fun task other => decide (toLex (taskOrder task) ≤ toLex (taskOrder other))).take limit

/-- What a read returns. -/
def read (db : Tasks.Database) (request : PublicRequest) (principal : ProjectAPITokenPrincipal) : PublicResponse :=
  match request.route with
  | .introspect => .principal principal
  | .tasks limit =>
      match pageSize limit with
      | none => .status 400
      | some limit => .tasks (findAllForProject db request.projectId limit)
  | .task taskId =>
      match db.findByIdForProject taskId request.projectId with
      | none => .status 404
      | some task => .task task
  | _ => .status 500

namespace Backend

def initial (projects : List String) (clock : Nat) (db : Tasks.Database) : Backend where
  auth := Auth.ProjectApiTokens.initial projects clock
  board := Tasks.Service.initial db
  isArchived _ := false
  clients _ := none

def setClient (b : Backend) (id : Nat) (client : Client) : Backend :=
  { b with clients := Function.update b.clients id (some client) }

def finish (b : Backend) (id : Nat) (client : Client) (response : PublicResponse) : Backend :=
  b.setClient id { client with stage := .ended response }

/-- Users' calls; those of machines are begun by `handle`. -/
def stepBoard (b : Backend) (label : Tasks.Label) : Option Backend :=
  match label with
  | .start _ request =>
      match request.actor with
      | .USER _ => (b.board.step label).map fun board => { b with board }
      | .MACHINE _ => none
  | _ => (b.board.step label).map fun board => { b with board }

/-- The guard up to its request to the auth service. -/
def arrive (config : Config) (b : Backend) (id : Nat) (request : PublicRequest) (introspection : Nat) : Option Backend :=
  if (b.clients id).isSome then none
  else
    match request.key config with
    | .error status => some (b.setClient id ⟨request, introspection, none, none, .ended (.status status)⟩)
    | .ok text =>
        (b.auth.begin introspection (.introspect text)).map fun auth =>
          { b with auth }.setClient id ⟨request, introspection, none, none, .introspecting⟩

/-- The answer of the auth service. -/
def introspected (b : Backend) (id : Nat) : Option Backend :=
  ((b.clients id).filter (·.stage = .introspecting)).bind fun client =>
    (b.auth.calls client.introspection).bind fun call =>
      match call.phase with
      | .ended (.ok (.principal principal)) =>
          some (b.setClient id { client with principal := some principal, stage := client.request.route.next })
      | .ended (.error .notFound) => some (b.finish id client (.status 401))
      | .ended _ => some (b.finish id client (.status 503))
      | _ => none

/-- The rest of the guard. -/
def findProject (b : Backend) (id : Nat) : Option Backend :=
  ((b.clients id).filter (·.stage = .introspected)).bind fun client =>
    client.principal.map fun principal =>
      if principal.projectId ∉ b.auth.projects ∨ b.isArchived principal.projectId then b.finish id client (.status 404)
      else if toLowerCase client.request.projectId ≠ toLowerCase principal.projectId then b.finish id client (.status 404)
      else if client.request.route.requiredPermission = some .READ_WRITE ∧ principal.permission ≠ .READ_WRITE then
        b.finish id client (.status 403)
      else b.setClient id { client with stage := .activated }

/-- The pipes and the handler: a read is answered, a write is begun. -/
def handle (config : Config) (b : Backend) (id : Nat) (taskCall : CallId) : Option Backend :=
  ((b.clients id).filter (·.stage = .activated)).bind fun client =>
    client.principal.bind fun principal =>
      if client.request.route.wellFormed config = false then some (b.finish id client (.status 400))
      else
        match client.request.route.mutation client.request.projectId principal.tokenId with
        | none => some (b.finish id client (read b.board.db client.request principal))
        | some mutation =>
            (b.board.start taskCall mutation).map fun board =>
              { b with board }.setClient id { client with taskCall := some taskCall, stage := .handling }

/-- The result of a task call that has ended. -/
def respond (b : Backend) (id : Nat) : Option Backend :=
  ((b.clients id).filter (·.stage = .handling)).bind fun client =>
    client.taskCall.bind fun taskCall =>
      (b.board.calls taskCall).bind fun call =>
        match call.progress with
        | .finished task => some (b.finish id client (.written task))
        | .failed => some (b.finish id client .refused)
        | _ => none

/-- An await of the guards or of a read throws, or the write limit does. -/
def fail (b : Backend) (id status : Nat) : Option Backend :=
  (b.clients id).bind fun client =>
    if status ∉ [429, 500, 503] then none
    else
      match client.stage with
      | .handling => none
      | .ended _ => none
      | _ => some (b.finish id client (.status status))

def step (config : Config) (b : Backend) : Label → Option Backend
  | .auth label => (Auth.ProjectApiTokens.State.step config.store b.auth label).map fun auth => { b with auth }
  | .board label => b.stepBoard label
  | .archive id isArchived => some { b with isArchived := Function.update b.isArchived id isArchived }
  | .arrive id request introspection => b.arrive config id request introspection
  | .introspected id => b.introspected id
  | .findProject id => b.findProject id
  | .handle id taskCall => b.handle config id taskCall
  | .respond id => b.respond id
  | .fail id status => b.fail id status

end Backend

end Transcendence.PublicApi
