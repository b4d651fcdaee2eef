import Mathlib.Data.List.Dedup
import Mathlib.Data.Prod.Lex
import Mathlib.Order.WithBot
import Transcendence.Base.Calls
import Transcendence.Base.Runs

/-!
# Chat messages and read states

The messages of a project's chat, and what a user has marked read of it: `ChatService.markRead` and
`findUnreadProjectIds`, with every operation that touches the rows they use. A call of `markRead` is
two steps, the membership check and the upsert, with anything in between; `findUnreadProjectIds` is a
function of the three states of the database that its three statements read.

The ids of messages are ordered as the database orders texts.
-/

namespace Transcendence.Chat

abbrev UserId := String
abbrev ProjectId := String

variable {MessageId : Type} [LinearOrder MessageId]

/-- `userId` is null once the account of the author is deleted; times are in milliseconds. -/
structure ChatMessage (MessageId : Type) where
  id : MessageId
  userId : Option UserId
  projectId : ProjectId
  content : String
  createdAt : Int

/-- `lastReadMessageId` is null in rows from before it was recorded. -/
structure ChatReadState (MessageId : Type) where
  lastReadAt : Int
  lastReadMessageId : Option MessageId
  deriving DecidableEq

structure ProjectMember where
  userId : UserId
  projectId : ProjectId
  deriving DecidableEq

/-- There is at most one read state for a user and a project. -/
structure Database (MessageId : Type) where
  users : List UserId
  projects : List ProjectId
  projectMembers : List ProjectMember
  chatMessages : List (ChatMessage MessageId)
  chatReadStates : UserId → ProjectId → Option (ChatReadState MessageId)

/-! ### Unread projects -/

/-- The condition of one project of `findUnreadProjectIds`. -/
def unreadCondition (projectId : ProjectId) (readState : Option (ChatReadState MessageId))
    (message : ChatMessage MessageId) : Bool :=
  decide (message.projectId = projectId) &&
    match readState with
    | none => true
    | some readState =>
        decide (message.createdAt > readState.lastReadAt) ||
          readState.lastReadMessageId.any fun id => message.createdAt = readState.lastReadAt ∧ message.id > id

namespace Database

def findMemberships (db : Database MessageId) (userId : UserId) : List ProjectId :=
  (db.projectMembers.filter (·.userId = userId)).map (·.projectId)

def findReadStates (db : Database MessageId) (userId : UserId) (projectIds : List ProjectId) :
    List (ProjectId × ChatReadState MessageId) :=
  projectIds.filterMap fun projectId => (db.chatReadStates userId projectId).map fun readState => (projectId, readState)

end Database

/-- The three statements, each on the database as it is by then. -/
def findUnreadProjectIds (membershipsDb readStatesDb messagesDb : Database MessageId) (userId : UserId) : List ProjectId :=
  let projectIds := membershipsDb.findMemberships userId
  if projectIds.length = 0 then []
  else
    let readStates := readStatesDb.findReadStates userId projectIds
    let readStateByProject := fun projectId => (readStates.find? (·.1 = projectId)).map (·.2)
    let unreadProjects := messagesDb.chatMessages.filter fun message =>
      (message.userId.any (· ≠ userId) ∨ message.userId = none) ∧
        projectIds.any fun projectId => unreadCondition projectId (readStateByProject projectId) message
    (unreadProjects.map (·.projectId)).dedup

/-! ### Calls of `markRead` -/

/-- `lastReadAt` is the time that the date string of the body names. -/
structure MarkChatReadDto (MessageId : Type) where
  lastReadMessageId : Option MessageId := none
  lastReadAt : Option Int := none
  deriving DecidableEq

structure Request (MessageId : Type) where
  projectId : ProjectId
  userId : UserId
  dto : MarkChatReadDto MessageId
  deriving DecidableEq

inductive Error where
  | notFound
  /-- The statement has failed. -/
  | database
  deriving DecidableEq

inductive Phase (MessageId : Type) where
  | begun
  /-- The membership is checked, and this is what the upsert will write. -/
  | checked (readState : ChatReadState MessageId)
  | ended (error : Option Error)
  deriving DecidableEq

abbrev Call (MessageId : Type) := Calls.Call (Request MessageId) (Phase MessageId)

/-- `issued` is not in the program: the ids that users and projects have had so far. -/
structure State (MessageId : Type) where
  db : Database MessageId
  calls : Nat → Option (Call MessageId)
  issued : List String

inductive Label (MessageId : Type) where
  | begin (id : Nat) (request : Request MessageId)
  | assertMembership (id : Nat)
  | upsert (id : Nat)
  | abort (id : Nat)
  | createMessage (message : ChatMessage MessageId)
  | removeMessage (id : MessageId)
  | createUser (userId : UserId)
  | deleteUser (userId : UserId)
  | createProject (projectId : ProjectId) (userId : UserId)
  | deleteProject (projectId : ProjectId)
  | addMember (member : ProjectMember)
  | removeMember (member : ProjectMember)

namespace Database

def setReadState (db : Database MessageId) (userId : UserId) (projectId : ProjectId) (readState : ChatReadState MessageId) :
    Database MessageId :=
  { db with
    chatReadStates := fun user project =>
      if user = userId ∧ project = projectId then some readState else db.chatReadStates user project }

/-- The messages of an account that is deleted stay, without author. -/
def deleteUser (db : Database MessageId) (userId : UserId) : Database MessageId where
  users := db.users.filter (· ≠ userId)
  projects := db.projects
  projectMembers := db.projectMembers.filter (·.userId ≠ userId)
  chatMessages := db.chatMessages.map fun message =>
    { message with userId := message.userId.filter (· ≠ userId) }
  chatReadStates user project := if user = userId then none else db.chatReadStates user project

def deleteProject (db : Database MessageId) (projectId : ProjectId) : Database MessageId where
  users := db.users
  projects := db.projects.filter (· ≠ projectId)
  projectMembers := db.projectMembers.filter (·.projectId ≠ projectId)
  chatMessages := db.chatMessages.filter (·.projectId ≠ projectId)
  chatReadStates user project := if project = projectId then none else db.chatReadStates user project

end Database

namespace State

def initial (db : Database MessageId) : State MessageId where
  db := db
  calls _ := none
  issued := db.users ++ db.projects

def setPhase (s : State MessageId) (id : Nat) (request : Request MessageId) (phase : Phase MessageId) : State MessageId :=
  { s with calls := Function.update s.calls id (some ⟨request, phase⟩) }

def begin (s : State MessageId) (id : Nat) (request : Request MessageId) : Option (State MessageId) :=
  if (s.calls id).isSome then none else some (s.setPhase id request .begun)

/-- Nothing is recorded where the body names no message. -/
def assertMembership (s : State MessageId) (id : Nat) : Option (State MessageId) :=
  (s.calls id).bind fun call =>
    match call.phase with
    | .begun =>
        some (s.setPhase id call.request
          (if ⟨call.request.userId, call.request.projectId⟩ ∉ s.db.projectMembers then .ended (some .notFound)
          else
            match call.request.dto.lastReadAt, call.request.dto.lastReadMessageId with
            | some lastReadAt, some lastReadMessageId => .checked ⟨lastReadAt, some lastReadMessageId⟩
            | _, _ => .ended none))
    | _ => none

/-- The upsert fails if the user or the project is gone. -/
def upsert (s : State MessageId) (id : Nat) : Option (State MessageId) :=
  (s.calls id).bind fun call =>
    match call.phase with
    | .checked readState =>
        if call.request.userId ∈ s.db.users ∧ call.request.projectId ∈ s.db.projects then
          some { s.setPhase id call.request (.ended none) with
            db := s.db.setReadState call.request.userId call.request.projectId readState }
        else some (s.setPhase id call.request (.ended (some .database)))
    | _ => none

def abort (s : State MessageId) (id : Nat) : Option (State MessageId) :=
  (s.calls id).bind fun call =>
    match call.phase with
    | .ended _ => none
    | _ => some (s.setPhase id call.request (.ended (some .database)))

/-- A member of the project posts a message. -/
def createMessage (s : State MessageId) (message : ChatMessage MessageId) : Option (State MessageId) :=
  if (message.userId.any fun userId => ⟨userId, message.projectId⟩ ∈ s.db.projectMembers) ∧
      ∀ other ∈ s.db.chatMessages, other.id ≠ message.id then
    some { s with db := { s.db with chatMessages := s.db.chatMessages ++ [message] } }
  else none

def createUser (s : State MessageId) (userId : UserId) : Option (State MessageId) :=
  if userId ∈ s.issued then none
  else some { s with db := { s.db with users := s.db.users ++ [userId] }, issued := userId :: s.issued }

def createProject (s : State MessageId) (projectId : ProjectId) (userId : UserId) : Option (State MessageId) :=
  if projectId ∈ s.issued ∨ userId ∉ s.db.users then none
  else
    some { s with
      db := { s.db with
        projects := s.db.projects ++ [projectId]
        projectMembers := s.db.projectMembers ++ [⟨userId, projectId⟩] }
      issued := projectId :: s.issued }

def addMember (s : State MessageId) (member : ProjectMember) : Option (State MessageId) :=
  if member.userId ∈ s.db.users ∧ member.projectId ∈ s.db.projects ∧ member ∉ s.db.projectMembers then
    some { s with db := { s.db with projectMembers := s.db.projectMembers ++ [member] } }
  else none

def step (s : State MessageId) : Label MessageId → Option (State MessageId)
  | .begin id request => s.begin id request
  | .assertMembership id => s.assertMembership id
  | .upsert id => s.upsert id
  | .abort id => s.abort id
  | .createMessage message => s.createMessage message
  | .removeMessage id =>
      some { s with db := { s.db with chatMessages := s.db.chatMessages.filter (·.id ≠ id) } }
  | .createUser userId => s.createUser userId
  | .deleteUser userId => if userId ∈ s.db.users then some { s with db := s.db.deleteUser userId } else none
  | .createProject projectId userId => s.createProject projectId userId
  | .deleteProject projectId =>
      if projectId ∈ s.db.projects then some { s with db := s.db.deleteProject projectId } else none
  | .addMember member => s.addMember member
  | .removeMember member =>
      some { s with db := { s.db with projectMembers := s.db.projectMembers.filter (· ≠ member) } }

end State

end Transcendence.Chat
