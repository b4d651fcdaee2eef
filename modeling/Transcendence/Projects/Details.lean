import Transcendence.Base.Calls
import Transcendence.Base.Runs
import Transcendence.Base.Stamps

/-!
# Project details

The row of one project with the calls that write it, `ProjectsService.updateDetails` and `update`. A
call checks the role of its user, reads the row and then writes it; the write of `updateDetails` finds
the row by its id and its `updatedAt`, which stands for the version its caller has loaded. A write sets
`updatedAt` to a reading of the clock, in milliseconds, which it takes some time before.

Two fields are not in the program: the saves that were accepted, and the versions the row has had, each
with the number of saves accepted by then.
-/

namespace Transcendence.Projects.Details

open Stamps (Version)

abbrev UserId := String

inductive ProjectStatus where
  | IN_PROGRESS
  | REVIEW
  | COMPLETED
  deriving DecidableEq, Repr

inductive ProjectMemberRole where
  | ADMIN
  | MEMBER
  | OWNER
  deriving DecidableEq, Repr

structure Project where
  name : String
  description : Option String
  status : ProjectStatus
  deadline : Option Int
  isArchived : Bool
  updatedAt : Int
  deriving DecidableEq, Repr

/-- What `updateDetails` writes. -/
def Project.details (project : Project) : String × Option String := (project.name, project.description)

/-- A description that is not sent stays, and one that is sent as null is cleared. -/
structure UpdateProjectDetailsDto where
  name : String
  description : Option (Option String) := none
  updatedAt : Int
  deriving DecidableEq, Repr

/-- It has no name and no description. -/
structure UpdateProjectDto where
  deadline : Option (Option Int) := none
  status : Option ProjectStatus := none
  isArchived : Option Bool := none
  deriving DecidableEq, Repr

def UpdateProjectDetailsDto.apply (dto : UpdateProjectDetailsDto) (now : Int) (project : Project) : Project :=
  { project with name := dto.name, description := dto.description.getD project.description, updatedAt := now }

/-- Without a field nothing is written. -/
def UpdateProjectDto.apply (dto : UpdateProjectDto) (now : Int) (project : Project) : Project :=
  if dto = {} then project
  else
    { project with
      deadline := dto.deadline.getD project.deadline
      status := dto.status.getD project.status
      isArchived := dto.isArchived.getD project.isArchived
      updatedAt := now }

inductive Error where
  | notFound
  | forbidden
  | conflict
  /-- A statement has failed. -/
  | database
  deriving DecidableEq, Repr

inductive Request where
  | updateDetails (userId : UserId) (dto : UpdateProjectDetailsDto)
  | update (userId : UserId) (dto : UpdateProjectDto)
  deriving DecidableEq, Repr

def Request.userId : Request → UserId
  | updateDetails userId _ => userId
  | update userId _ => userId

/-- What a call ends with; `notifies` says that the other members are told of a change. -/
inductive Outcome where
  | updated (project : Project) (role : ProjectMemberRole) (notifies : Bool)
  | refused (error : Error)
  deriving DecidableEq, Repr

inductive Phase where
  | begun
  | authorized (role : ProjectMemberRole)
  | read (role : ProjectMemberRole) (previous : Project)
  | ended (outcome : Outcome)
  deriving DecidableEq, Repr

abbrev Call := Calls.Call Request Phase

/-- An accepted call of `updateDetails`, with the version it expected, the row it found and the row it
wrote. -/
structure Save where
  id : Nat
  expected : Int
  replaced : Project
  saved : Project
  deriving DecidableEq, Repr

structure State where
  project : Option Project
  roles : UserId → Option ProjectMemberRole
  calls : Nat → Option Call
  saves : List Save
  versions : List (Version Int)

inductive Label where
  | begin (id : Nat) (request : Request)
  | assertMembership (id : Nat)
  | findUniqueOrThrow (id : Nat)
  /-- The write of a call, whose clock has shown `now`. -/
  | write (id : Nat) (now : Int)
  | abort (id : Nat)
  /-- A member is added, removed or gets another role. -/
  | setRole (userId : UserId) (role : Option ProjectMemberRole)
  | remove
  deriving DecidableEq, Repr

namespace State

def initial (project : Project) (roles : UserId → Option ProjectMemberRole) : State where
  project := some project
  roles := roles
  calls _ := none
  saves := []
  versions := [⟨project.updatedAt, 0⟩]

def setPhase (s : State) (id : Nat) (request : Request) (phase : Phase) : State :=
  { s with calls := Function.update s.calls id (some ⟨request, phase⟩) }

def begin (s : State) (id : Nat) (request : Request) : Option State :=
  if (s.calls id).isSome then none else some (s.setPhase id request .begun)

def assertMembership (s : State) (id : Nat) : Option State :=
  ((s.calls id).filter (·.phase = .begun)).map fun call =>
    s.setPhase id call.request
      (match s.roles call.request.userId with
      | none => .ended (.refused .notFound)
      | some .MEMBER => .ended (.refused .forbidden)
      | some role => .authorized role)

def findUniqueOrThrow (s : State) (id : Nat) : Option State :=
  (s.calls id).bind fun call =>
    match call.phase with
    | .authorized role =>
        some (s.setPhase id call.request (s.project.elim (.ended (.refused .notFound)) (.read role)))
    | _ => none

/-- The write of `updateDetails`. -/
def saveDetails (s : State) (id : Nat) (userId : UserId) (dto : UpdateProjectDetailsDto) (role : ProjectMemberRole)
    (previous : Project) (now : Int) : State :=
  match s.project.filter (·.updatedAt = dto.updatedAt) with
  | none => s.setPhase id (.updateDetails userId dto) (.ended (.refused .conflict))
  | some project =>
      let saved := dto.apply now project
      { s.setPhase id (.updateDetails userId dto)
          (.ended (.updated saved role (saved.name ≠ previous.name ∨ saved.description ≠ previous.description))) with
        project := some saved
        saves := s.saves ++ [⟨id, dto.updatedAt, project, saved⟩]
        versions := s.versions ++ [⟨now, s.saves.length + 1⟩] }

/-- The write of `update`. -/
def saveLifecycle (s : State) (id : Nat) (userId : UserId) (dto : UpdateProjectDto) (role : ProjectMemberRole)
    (previous : Project) (now : Int) : State :=
  match s.project with
  | none => s.setPhase id (.update userId dto) (.ended (.refused .database))
  | some project =>
      let updated := dto.apply now project
      { s.setPhase id (.update userId dto)
          (.ended (.updated updated role
            (updated.status ≠ previous.status ∨ updated.isArchived ≠ previous.isArchived))) with
        project := some updated
        versions := s.versions ++ if dto = {} then [] else [⟨now, s.saves.length⟩] }

def write (s : State) (id : Nat) (now : Int) : Option State :=
  (s.calls id).bind fun call =>
    match call.phase, call.request with
    | .read role previous, .updateDetails userId dto => some (s.saveDetails id userId dto role previous now)
    | .read role previous, .update userId dto => some (s.saveLifecycle id userId dto role previous now)
    | _, _ => none

def abort (s : State) (id : Nat) : Option State :=
  (s.calls id).bind fun call =>
    match call.phase with
    | .ended _ => none
    | _ => some (s.setPhase id call.request (.ended (.refused .database)))

def step (s : State) : Label → Option State
  | .begin id request => s.begin id request
  | .assertMembership id => s.assertMembership id
  | .findUniqueOrThrow id => s.findUniqueOrThrow id
  | .write id now => s.write id now
  | .abort id => s.abort id
  | .setRole userId role => some { s with roles := Function.update s.roles userId role }
  | .remove => some { s with project := none }

end State

end Transcendence.Projects.Details
