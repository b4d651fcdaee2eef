import Mathlib.Data.Finset.Card
import Transcendence.Realtime.Server

/-!
# The owners of projects

The server together with the calls that create and delete projects and accounts: `create` and
`remove` of `projects.service.ts` and `remove` of `users.service.ts`. The calls of
`project-members.service.ts` are those of the server. The labels:

* `server` is a step of the server; a membership is written only for a user and a project that
  exist;
* `openCreate` opens the SERIALIZABLE transaction of a creation and reads its snapshot,
  `commitCreate` commits it, and `joinCreated` is the `joinProjectRoom` after it; a creation that
  fails is one that does not commit;
* `checkProjectRemoval` and `deleteProject` are the check and the `delete` of a project's removal,
  `checkAccountRemoval` and `deleteAccount` those of an account's;
* `register` is a new account.

A deleted row takes along the memberships that refer to it. The removals are cut at their
statements, which are not in a transaction.
-/

namespace Transcendence.Accounts

open Realtime

def maxProjectsPerUser : Nat := 1024

/-- A creation in its transaction, or between its commit and its `joinProjectRoom`. -/
inductive Creation where
  | opened (userId : UserId)
  | committed (userId : UserId) (projectId : ProjectId)
  deriving DecidableEq, Repr

/-- The removal of an account between its check and its `delete`. Not in the program are `created`,
the projects the user has created since the check. -/
structure AccountRemoval where
  userId : UserId
  created : Finset ProjectId
  deriving DecidableEq

/-- A removal of the user's account that has made its check does not see the new project. -/
def AccountRemoval.noteCreated (removal : AccountRemoval) (userId : UserId) (projectId : ProjectId) : AccountRemoval :=
  if removal.userId = userId then { removal with created := insert projectId removal.created } else removal

/-- The tables of accounts, of projects and of memberships, which refer to rows that exist. -/
structure Database where
  accounts : Finset UserId
  projects : Finset ProjectId
  members : ProjectId → UserId → Option Role
  foreignKeys : ∀ projectId userId, (members projectId userId).isSome → projectId ∈ projects ∧ userId ∈ accounts

/-- The memberships are those of the server's world. `used` is not in the program: the ids of all
projects there ever were, none of which `uuid` gives again. -/
structure Platform where
  server : Server
  accounts : Finset UserId
  projects : Finset ProjectId
  used : Finset ProjectId
  creations : Nat → Option Creation
  projectRemovals : Nat → Option ProjectId
  accountRemovals : Nat → Option AccountRemoval

namespace Platform

def initial (users : String → Option UserId) (db : Database) : Platform where
  server := .initial users db.members
  accounts := db.accounts
  projects := db.projects
  used := db.projects
  creations _ := none
  projectRemovals _ := none
  accountRemovals _ := none

def members (s : Platform) : ProjectId → UserId → Option Role := s.server.world.members

inductive Label where
  | server (label : Server.Label)
  | openCreate (id : Nat) (userId : UserId)
  | commitCreate (id : Nat) (projectId : ProjectId)
  | joinCreated (id : Nat)
  | checkProjectRemoval (id : Nat) (projectId : ProjectId) (userId : UserId)
  | deleteProject (id : Nat)
  | checkAccountRemoval (id : Nat) (userId : UserId)
  | deleteAccount (id : Nat)
  | register (username : String) (userId : UserId)
  deriving DecidableEq, Repr

/-- The foreign keys of the membership that the next turn of the task inserts, if it inserts one. -/
def foreignKeysExist (s : Platform) (task : Task) : Bool :=
  match task.request, task.progress with
  | .addMember projectId _ _, .operating userId => projectId ∈ s.projects && userId ∈ s.accounts
  | _, _ => true

/-- A query that would break a foreign key fails. -/
def allows (s : Platform) : Server.Label → Bool
  | .turn id input => !input.succeeds || (s.server.tasks id).all s.foreignKeysExist
  | _ => true

def serve (s : Platform) (label : Server.Label) : Option Platform :=
  if s.allows label then (s.server.step label).map fun server => { s with server } else none

/-- The `count` of a user's memberships. -/
def membershipCount (s : Platform) (userId : UserId) : Nat :=
  (s.projects.filter fun projectId => (s.members projectId userId).isSome).card

def openCreate (s : Platform) (id : Nat) (userId : UserId) : Option Platform :=
  if (s.creations id).isSome ∨ s.membershipCount userId ≥ maxProjectsPerUser then none
  else some { s with creations := Function.update s.creations id (some (.opened userId)) }

def commitCreate (s : Platform) (id : Nat) (projectId : ProjectId) : Option Platform :=
  match s.creations id with
  | some (.opened userId) =>
      if projectId ∈ s.used ∨ userId ∉ s.accounts then none
      else
        some { s with
          server := { s.server with world := s.server.world.setMember projectId userId (some .OWNER) }
          projects := insert projectId s.projects
          used := insert projectId s.used
          creations := Function.update s.creations id (some (.committed userId projectId))
          accountRemovals := fun removalId =>
            (s.accountRemovals removalId).map (AccountRemoval.noteCreated · userId projectId) }
  | _ => none

def joinCreated (s : Platform) (id : Nat) : Option Platform :=
  match s.creations id with
  | some (.committed userId projectId) =>
      some { s with
        server := { s.server with world := s.server.world.joinProjectRoom userId projectId }
        creations := Function.update s.creations id none }
  | _ => none

def checkProjectRemoval (s : Platform) (id : Nat) (projectId : ProjectId) (userId : UserId) : Option Platform :=
  if (s.projectRemovals id).isSome ∨ s.members projectId userId ≠ some .OWNER then none
  else some { s with projectRemovals := Function.update s.projectRemovals id (some projectId) }

/-- The rows of the world that stay when a project is deleted. -/
def withoutProject (w : World) (projectId : ProjectId) : World :=
  { w with
    members := Function.update w.members projectId fun _ => none
    rows := fun resource id => (w.rows resource id).filter (·.projectId != projectId)
    messages := fun id => (w.messages id).filter (·.projectId != projectId) }

/-- The `delete` throws if the project is gone. -/
def deleteProject (s : Platform) (id : Nat) : Option Platform :=
  (s.projectRemovals id).map fun projectId =>
    let ended := { s with projectRemovals := Function.update s.projectRemovals id none }
    if projectId ∈ s.projects then
      { ended with
        server := { s.server with world := withoutProject s.server.world projectId }
        projects := s.projects.erase projectId }
    else ended

/-- `findFirst` finds a project the user owns. -/
def ownsProject (s : Platform) (userId : UserId) : Bool :=
  decide (∃ projectId ∈ s.projects, s.members projectId userId = some .OWNER)

def checkAccountRemoval (s : Platform) (id : Nat) (userId : UserId) : Option Platform :=
  if (s.accountRemovals id).isSome ∨ s.ownsProject userId then none
  else some { s with accountRemovals := Function.update s.accountRemovals id (some ⟨userId, ∅⟩) }

/-- The rows of the world that stay when an account is deleted; the messages stay without their
author. -/
def withoutAccount (w : World) (userId : UserId) : World :=
  { w with
    members := fun projectId => Function.update (w.members projectId) userId none
    users := fun username => (w.users username).filter (· != userId) }

/-- The `delete` throws if the account is gone. -/
def deleteAccount (s : Platform) (id : Nat) : Option Platform :=
  (s.accountRemovals id).map fun removal =>
    let ended := { s with accountRemovals := Function.update s.accountRemovals id none }
    if removal.userId ∈ s.accounts then
      { ended with
        server := { s.server with world := withoutAccount s.server.world removal.userId }
        accounts := s.accounts.erase removal.userId }
    else ended

def register (s : Platform) (username : String) (userId : UserId) : Option Platform :=
  if (s.server.world.users username).isSome ∨ userId ∈ s.accounts then none
  else
    some { s with
      server := { s.server with
        world := { s.server.world with users := Function.update s.server.world.users username (some userId) } }
      accounts := insert userId s.accounts }

def step (s : Platform) : Label → Option Platform
  | .server label => s.serve label
  | .openCreate id userId => s.openCreate id userId
  | .commitCreate id projectId => s.commitCreate id projectId
  | .joinCreated id => s.joinCreated id
  | .checkProjectRemoval id projectId userId => s.checkProjectRemoval id projectId userId
  | .deleteProject id => s.deleteProject id
  | .checkAccountRemoval id userId => s.checkAccountRemoval id userId
  | .deleteAccount id => s.deleteAccount id
  | .register username userId => s.register username userId

/-! ### One owner, and what overtakes the check of a removal -/

/-- Every existing project has exactly one member with role OWNER. -/
def OneOwner (s : Platform) : Prop := ∀ projectId ∈ s.projects, ∃! userId, s.members projectId userId = some .OWNER

/-- When an account is deleted, no project that its user has created since the check of the removal
still exists. -/
def NotOvertaken (s : Platform) (label : Label) : Prop :=
  ∀ id removal, label = .deleteAccount id → s.accountRemovals id = some removal → Disjoint removal.created s.projects

end Platform

end Transcendence.Accounts
