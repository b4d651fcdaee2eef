import Mathlib.Data.Finset.Card
import Mathlib.Logic.Function.Basic
import Transcendence.Base.Runs

/-!
# Assignees and memberships

The memberships of projects and the assignees of their tasks and calendar events, with the calls
that change them: create and update of a task or an event with a list of assignees, `addMember` and
`removeMember`. A call is cut at its statements:

* an autocommitted statement takes effect in one step, a `deleteMany` in the step that takes its
  snapshot, since rows that appear while it waits are not deleted;
* a transaction reads and deletes in the step that opens it and takes effect in the step that
  commits it, and deletes the rows it saw when it opened. A SERIALIZABLE transaction reads the
  memberships of that moment too;
* a transaction may fail at any moment, as it does in conflict with another one. A SERIALIZABLE
  transaction does not have to fail because of statements that are not SERIALIZABLE.

The tables are sets because of their unique indexes. Who may call `addMember` and `removeMember` is
left out: their checks only make fewer runs.
-/

namespace Transcendence.Projects

abbrev ProjectId := String
abbrev UserId := String

inductive AssignableKind where
  | task
  | calendarEvent
  deriving DecidableEq, Repr

/-- A task or a calendar event. -/
structure Assignable where
  kind : AssignableKind
  id : String
  deriving DecidableEq, Repr

/-- The row of a task or an event with its assignees, which go with it. -/
structure AssignableRow where
  projectId : ProjectId
  assignees : Finset UserId
  deriving DecidableEq

structure Assignments where
  members : ProjectId → Finset UserId
  rows : Assignable → Option AssignableRow

/-- `actor.kind` of a task's mutation; calendar events have only users. -/
inductive ActorKind where
  | USER
  | MACHINE
  deriving DecidableEq, Repr

/-- A call of `create` or `update` of a task or of a calendar event. -/
structure Mutation where
  item : Assignable
  projectId : ProjectId
  creates : Bool
  actor : ActorKind
  assigneeIds : Option (List UserId)
  deriving DecidableEq, Repr

/-- A machine's mutation writes the item and its assignees in one transaction. -/
def Mutation.inOneTransaction (mutation : Mutation) : Bool :=
  mutation.item.kind = .task && mutation.actor = .MACHINE && mutation.assigneeIds.isSome

inductive Stage where
  | begun
  /-- `assertAssigneesAreProjectMembers` has returned. -/
  | checked
  /-- The row of the item is written. -/
  | stored
  /-- In the transaction of `replaceAssignees`, which has deleted these rows. -/
  | replacing (deleted : Finset UserId)
  | ended
  deriving DecidableEq

structure MutationCall where
  mutation : Mutation
  stage : Stage
  deriving DecidableEq

/-- A `removeMember` whose `delete` is done; the `deleteMany` of the kinds in `pending` are not. -/
structure Removal where
  projectId : ProjectId
  userId : UserId
  pending : List AssignableKind
  deriving DecidableEq, Repr

namespace Assignments

def assignees (db : Assignments) (item : Assignable) : Finset UserId := ((db.rows item).map (·.assignees)).getD ∅

/-- The write of the item's row with these assignees; an update has found the row in the project. -/
def write (db : Assignments) (mutation : Mutation) (assignees : Finset UserId) : Assignments :=
  { db with rows := Function.update db.rows mutation.item (some ⟨mutation.projectId, assignees⟩) }

/-- Every assignee of a task or an event is a member of its project. -/
def AssigneesAreMembers (db : Assignments) : Prop :=
  ∀ item row, db.rows item = some row → ∀ userId ∈ row.assignees, userId ∈ db.members row.projectId

end Assignments

/-- `overtaken` is not in the program: it remembers which of its assignees have lost their
assignments to a `removeMember` since the call has last checked them. -/
structure AssignmentSystem where
  db : Assignments
  mutations : Nat → Option MutationCall
  removals : Nat → Option Removal
  overtaken : Nat → Finset UserId

namespace AssignmentSystem

def initial (db : Assignments) : AssignmentSystem where
  db := db
  mutations _ := none
  removals _ := none
  overtaken _ := ∅

inductive Label where
  | begin (id : Nat) (mutation : Mutation)
  | check (id : Nat)
  | store (id : Nat)
  | openReplace (id : Nat)
  | commit (id : Nat)
  | abort (id : Nat)
  | addMember (projectId : ProjectId) (userId : UserId)
  | removeMember (id : Nat) (projectId : ProjectId) (userId : UserId)
  | deleteAssignees (id : Nat) (kind : AssignableKind)
  deriving DecidableEq, Repr

def setStage (s : AssignmentSystem) (id : Nat) (call : MutationCall) (stage : Stage) : AssignmentSystem :=
  { s with mutations := Function.update s.mutations id (some { call with stage }) }

/-- The `count` of the memberships of a project whose user is in the list. -/
def memberCount (members : Finset UserId) (userIds : List UserId) : Nat := (members.filter (· ∈ userIds)).card

/-- Whether the check of the assignees passes, as `assertAssigneesAreProjectMembers` and
`replaceAssignees` make it. -/
def areProjectMembers (members : Finset UserId) (userIds : List UserId) : Bool :=
  userIds.isEmpty || memberCount members userIds == userIds.length

/-- The access guard of an update has found the item in the project. -/
def begin (s : AssignmentSystem) (id : Nat) (mutation : Mutation) : Option AssignmentSystem :=
  if (s.mutations id).isSome then none
  else if mutation.creates ∨ (s.db.rows mutation.item).any (·.projectId == mutation.projectId) then
    some (s.setStage id ⟨mutation, .begun⟩ .begun)
  else none

def check (s : AssignmentSystem) (id : Nat) : Option AssignmentSystem :=
  ((s.mutations id).filter (·.stage = .begun)).map fun call =>
    match call.mutation.assigneeIds with
    | none => s.setStage id call .checked
    | some userIds =>
        if areProjectMembers (s.db.members call.mutation.projectId) userIds then
          { s.setStage id call .checked with overtaken := Function.update s.overtaken id ∅ }
        else s.setStage id call .ended

/-- The id of a new item is new. -/
def store (s : AssignmentSystem) (id : Nat) : Option AssignmentSystem :=
  ((s.mutations id).filter fun call => call.stage = .checked && !call.mutation.inOneTransaction).bind fun call =>
    if call.mutation.creates ∧ (s.db.rows call.mutation.item).isSome then none
    else
      some { s.setStage id call (if call.mutation.assigneeIds.isSome then .stored else .ended) with
        db := s.db.write call.mutation (s.db.assignees call.mutation.item) }

/-- The transaction of `replaceAssignees` up to its `deleteMany`. For a task it is SERIALIZABLE and
checks the assignees. -/
def openReplace (s : AssignmentSystem) (id : Nat) : Option AssignmentSystem :=
  ((s.mutations id).filter fun call =>
    call.stage = if call.mutation.inOneTransaction then .checked else .stored).bind fun call =>
      call.mutation.assigneeIds.map fun userIds =>
        match call.mutation.item.kind with
        | .task =>
            if areProjectMembers (s.db.members call.mutation.projectId) userIds then
              { s.setStage id call (.replacing (s.db.assignees call.mutation.item)) with
                overtaken := Function.update s.overtaken id ∅ }
            else s.setStage id call .ended
        | .calendarEvent => s.setStage id call (.replacing (s.db.assignees call.mutation.item))

/-- The unique index of the assignees lets the rows be written beside those that stay. -/
def canCreateMany (staying : Finset UserId) (userIds : List UserId) : Bool :=
  userIds.Nodup && Disjoint staying userIds.toFinset

/-- `createMany` and the commit. -/
def commit (s : AssignmentSystem) (id : Nat) : Option AssignmentSystem :=
  (s.mutations id).bind fun call =>
    match call.stage, call.mutation.assigneeIds with
    | .replacing deleted, some userIds =>
        if call.mutation.inOneTransaction ∧ call.mutation.creates ∧
            (s.db.rows call.mutation.item).isSome then none
        else if canCreateMany (s.db.assignees call.mutation.item \ deleted) userIds then
          some { s.setStage id call .ended with
            db := s.db.write call.mutation ((s.db.assignees call.mutation.item \ deleted) ∪ userIds.toFinset) }
        else some (s.setStage id call .ended)
    | _, _ => none

/-- The call fails; its transaction is rolled back. -/
def abort (s : AssignmentSystem) (id : Nat) : Option AssignmentSystem :=
  (s.mutations id).map fun call => s.setStage id call .ended

def addMember (s : AssignmentSystem) (projectId : ProjectId) (userId : UserId) : AssignmentSystem :=
  { s with db := { s.db with
    members := Function.update s.db.members projectId (insert userId (s.db.members projectId)) } }

/-- The checks of `removeMember` and its `delete`, which throws if the membership is gone. -/
def removeMember (s : AssignmentSystem) (id : Nat) (projectId : ProjectId) (userId : UserId) : Option AssignmentSystem :=
  if (s.removals id).isSome ∨ userId ∉ s.db.members projectId then none
  else
    some { s with
      db := { s.db with members := Function.update s.db.members projectId ((s.db.members projectId).erase userId) }
      removals := Function.update s.removals id (some ⟨projectId, userId, [.task, .calendarEvent]⟩) }

/-- The call names the user as an assignee of an item of the kind in the project. -/
def names (call : MutationCall) (kind : AssignableKind) (projectId : ProjectId) (userId : UserId) : Bool :=
  call.mutation.item.kind = kind && call.mutation.projectId = projectId &&
    call.mutation.assigneeIds.any (·.contains userId)

/-- One of the two `deleteMany` of `removeMember`, which run in any order. -/
def deleteAssignees (s : AssignmentSystem) (id : Nat) (kind : AssignableKind) : Option AssignmentSystem :=
  ((s.removals id).filter (·.pending.contains kind)).map fun removal =>
    { s with
      db := { s.db with
        rows := fun item => (s.db.rows item).map fun row =>
          if item.kind = kind ∧ row.projectId = removal.projectId then
            { row with assignees := row.assignees.erase removal.userId }
          else row }
      removals := Function.update s.removals id (some { removal with pending := removal.pending.erase kind })
      overtaken := fun call =>
        if (s.mutations call).any (names · kind removal.projectId removal.userId) then
          insert removal.userId (s.overtaken call)
        else s.overtaken call }

def step (s : AssignmentSystem) : Label → Option AssignmentSystem
  | .begin id mutation => s.begin id mutation
  | .check id => s.check id
  | .store id => s.store id
  | .openReplace id => s.openReplace id
  | .commit id => s.commit id
  | .abort id => s.abort id
  | .addMember projectId userId => some (s.addMember projectId userId)
  | .removeMember id projectId userId => s.removeMember id projectId userId
  | .deleteAssignees id kind => s.deleteAssignees id kind

/-! ### Quiescence, and who is overtaken -/

structure AtRest (s : AssignmentSystem) : Prop where
  mutations : ∀ id call, s.mutations id = some call → call.stage = .ended
  removals : ∀ id removal, s.removals id = some removal → removal.pending = []

/-- Nobody whose assignments a `removeMember` has deleted since the check of a call is assigned by
its commit, unless he has been added again. -/
def NotOvertaken (s : AssignmentSystem) (label : Label) : Prop :=
  ∀ id call, label = .commit id → s.mutations id = some call →
    ∀ userId ∈ s.overtaken id, userId ∈ s.db.members call.mutation.projectId

end AssignmentSystem

end Transcendence.Projects
