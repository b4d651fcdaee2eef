import Transcendence.Realtime.ProjectCoordinator

/-!
# Project and resource coordination

`ProjectResourceCoordinator` with its `KeyedCoordinator`, both of `field-lock-manager.ts`, for any
number of calls of `runProject` and `runProjectResource` in flight. A call is cut at its `await`s,
and each piece between two of them is one step:

* `start`: `getProject` and the request for the project lock;
* `enterProject`: the continuation of that request. `runProject` starts its body;
  `runProjectResource` puts its own promise at the tail of the resource and awaits the tail it found
  there;
* `enterKey`: the continuation of that second await, which starts the body;
* `settleBody`: the body has returned or thrown, and the resource is released;
* `leave`: the project lock is released, and the coordinator dropped if nobody uses it;
* `settleTail`: the promise chain `previous.then(() => current)` of a released call is resolved.

The pieces of different calls interleave in any order. `ProjectCoordinator` objects live in a heap,
because the code compares them by identity.
-/

namespace Transcendence.Realtime

abbrev ProjectId := String
abbrev CallId := Nat
abbrev ObjectId := Nat

inductive CallPhase where
  | awaitingProject
  | projectGranted
  | awaitingKey
  | running
  | leaving
  | finished
  deriving DecidableEq, Repr

/-- A call of `runProject` (no resource key) or of `runProjectResource`; `project` and `previous`
are its local variables. -/
structure CoordinatorCall where
  projectId : ProjectId
  resourceKey : Option String
  project : ObjectId
  previous : Option CallId
  phase : CallPhase
  deriving DecidableEq, Repr

def CoordinatorCall.mode (call : CoordinatorCall) : ProjectLockMode :=
  match call.resourceKey with
  | none => .exclusive
  | some _ => .shared

def resourceCoordinatorKey (resourceKey : String) : String := "resource:" ++ resourceKey

/-- `coordinators` is the heap of the `ProjectCoordinator` objects, of which `created` have been
made; `settled` tells which tail promises are resolved. A tail promise is named by the call that
made it. -/
structure ProjectResourceCoordinator where
  coordinators : ObjectId → ProjectCoordinator CallId
  created : Nat
  projects : ProjectId → Option ObjectId
  tails : String → Option CallId
  settled : CallId → Bool
  calls : CallId → Option CoordinatorCall

namespace ProjectResourceCoordinator

def initial : ProjectResourceCoordinator where
  coordinators _ := .new
  created := 0
  projects _ := none
  tails _ := none
  settled _ := false
  calls _ := none

def inPhase (s : ProjectResourceCoordinator) (id : CallId) (phase : CallPhase) : Option CoordinatorCall :=
  (s.calls id).filter (·.phase == phase)

def setCall (s : ProjectResourceCoordinator) (id : CallId) (call : CoordinatorCall) : ProjectResourceCoordinator :=
  { s with calls := Function.update s.calls id (some call) }

/-- Resolve the promises of the granted waiters; a promise that is already resolved stays as it is. -/
def resolve (s : ProjectResourceCoordinator) (grants : List (ProjectLockWaiter CallId)) : ProjectResourceCoordinator :=
  { s with
    calls := fun id =>
      if grants.any (·.resolve == id) then
        (s.calls id).map fun call =>
          if call.phase = .awaitingProject then { call with phase := .projectGranted } else call
      else s.calls id }

def getProject (s : ProjectResourceCoordinator) (projectId : ProjectId) : ObjectId × ProjectResourceCoordinator :=
  match s.projects projectId with
  | some project => (project, s)
  | none =>
      (s.created,
        { s with
          coordinators := Function.update s.coordinators s.created .new
          created := s.created + 1
          projects := Function.update s.projects projectId (some s.created) })

def releaseProjectIfIdle (s : ProjectResourceCoordinator) (projectId : ProjectId) (project : ObjectId) :
    ProjectResourceCoordinator :=
  if (s.coordinators project).isIdle && s.projects projectId == some project then
    { s with projects := Function.update s.projects projectId none }
  else s

def withCoordinator (s : ProjectResourceCoordinator) (project : ObjectId)
    (result : ProjectCoordinator CallId × List (ProjectLockWaiter CallId)) : ProjectResourceCoordinator :=
  { s with coordinators := Function.update s.coordinators project result.1 }.resolve result.2

/-- The start of `runProject` (no key) or `runProjectResource`, up to the first await. -/
def start (s : ProjectResourceCoordinator) (id : CallId) (projectId : ProjectId)
    (resourceKey : Option String) : Option ProjectResourceCoordinator :=
  if (s.calls id).isSome then none
  else
    let (project, s) := s.getProject projectId
    let call : CoordinatorCall := ⟨projectId, resourceKey, project, none, .awaitingProject⟩
    some ((s.setCall id call).withCoordinator project
      (ProjectCoordinator.acquire call.mode (s.coordinators project) id))

/-- The continuation of the project lock's await; for a resource, `KeyedCoordinator.acquire` up to
`await previous`. -/
def enterProject (s : ProjectResourceCoordinator) (id : CallId) : Option ProjectResourceCoordinator :=
  (s.inPhase id .projectGranted).map fun call =>
    match call.resourceKey with
    | none => s.setCall id { call with phase := .running }
    | some resourceKey =>
        { s.setCall id { call with
            phase := .awaitingKey
            previous := s.tails (resourceCoordinatorKey resourceKey) } with
          tails := Function.update s.tails (resourceCoordinatorKey resourceKey) (some id) }

def previousSettled (s : ProjectResourceCoordinator) (call : CoordinatorCall) : Bool :=
  match call.previous with
  | none => true
  | some previous => s.settled previous

def enterKey (s : ProjectResourceCoordinator) (id : CallId) : Option ProjectResourceCoordinator :=
  ((s.inPhase id .awaitingKey).filter s.previousSettled).map fun call =>
    s.setCall id { call with phase := .running }

/-- The resource's release function forgets the tail if it is still this call's. -/
def releaseKey (s : ProjectResourceCoordinator) (id : CallId) (key : String) : ProjectResourceCoordinator :=
  if s.tails key = some id then { s with tails := Function.update s.tails key none } else s

/-- The body has settled; a resource is released. -/
def settleBody (s : ProjectResourceCoordinator) (id : CallId) : Option ProjectResourceCoordinator :=
  (s.inPhase id .running).map fun call =>
    match call.resourceKey with
    | none => s.setCall id { call with phase := .leaving }
    | some resourceKey =>
        (s.setCall id { call with phase := .leaving }).releaseKey id (resourceCoordinatorKey resourceKey)

/-- The outer `finally`: the project lock's release function and `releaseProjectIfIdle`. -/
def leave (s : ProjectResourceCoordinator) (id : CallId) : Option ProjectResourceCoordinator :=
  (s.inPhase id .leaving).map fun call =>
    ((s.setCall id { call with phase := .finished }).withCoordinator call.project
      (ProjectCoordinator.release call.mode (s.coordinators call.project))).releaseProjectIfIdle
        call.projectId call.project

def hasReleasedKey (call : CoordinatorCall) : Bool :=
  call.resourceKey.isSome && (call.phase == .leaving || call.phase == .finished)

def settleTail (s : ProjectResourceCoordinator) (id : CallId) : Option ProjectResourceCoordinator :=
  ((s.calls id).filter fun call => hasReleasedKey call && s.previousSettled call).map fun _ =>
    { s with settled := Function.update s.settled id true }

inductive Label where
  | start (id : CallId) (projectId : ProjectId) (resourceKey : Option String)
  | enterProject (id : CallId)
  | enterKey (id : CallId)
  | settleBody (id : CallId)
  | leave (id : CallId)
  | settleTail (id : CallId)
  deriving DecidableEq, Repr

def step (s : ProjectResourceCoordinator) : Label → Option ProjectResourceCoordinator
  | .start id projectId resourceKey => s.start id projectId resourceKey
  | .enterProject id => s.enterProject id
  | .enterKey id => s.enterKey id
  | .settleBody id => s.settleBody id
  | .leave id => s.leave id
  | .settleTail id => s.settleTail id

/-! ### Which step does what to a call -/

@[simp] theorem inPhase_eq_some {s : ProjectResourceCoordinator} {id : CallId} {phase : CallPhase}
    {call : CoordinatorCall} : s.inPhase id phase = some call ↔ s.calls id = some call ∧ call.phase = phase := by
  simp only [inPhase, Option.filter_eq_some_iff, beq_iff_eq]

theorem enterKey_eq_some {s t : ProjectResourceCoordinator} {id : CallId} :
    s.enterKey id = some t ↔ ∃ call, s.calls id = some call ∧ call.phase = .awaitingKey ∧
      s.previousSettled call = true ∧ s.setCall id { call with phase := .running } = t := by
  simp only [enterKey, Option.map_eq_some_iff, Option.filter_eq_some_iff, inPhase_eq_some, and_assoc]

theorem settleTail_eq_some {s t : ProjectResourceCoordinator} {id : CallId} :
    s.settleTail id = some t ↔ ∃ call, s.calls id = some call ∧ hasReleasedKey call = true ∧
      s.previousSettled call = true ∧ { s with settled := Function.update s.settled id true } = t := by
  simp only [settleTail, Option.map_eq_some_iff, Option.filter_eq_some_iff, Bool.and_eq_true, and_assoc]

end ProjectResourceCoordinator

end Transcendence.Realtime
