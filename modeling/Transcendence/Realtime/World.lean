import Transcendence.Realtime.Coordination
import Transcendence.Realtime.FieldLocks

/-!
# What the coordinated bodies read and write

The part of the server process and of its database that the bodies under the project and resource
locks touch: the field lock table, the sockets with their rooms, the memberships, the lockable rows
and the chat messages. A body is cut at its awaits as well. `Progress` says at which await it
stands, with the values it has read so far, since these may be out of date when it goes on.

Two fields are not in the program. `issued` remembers what each lease token was generated for, and
`history`, newest first, what happened in which order.
-/

namespace Transcendence.Realtime

inductive Role where
  | ADMIN
  | MEMBER
  | OWNER
  deriving DecidableEq, Repr

/-- The roles `updateMemberRole` can give. -/
inductive AssignableRole where
  | ADMIN
  | MEMBER
  deriving DecidableEq, Repr

def AssignableRole.role : AssignableRole → Role
  | .ADMIN => .ADMIN
  | .MEMBER => .MEMBER

/-- The models whose rows can be locked for editing, each with the type of key it registers. -/
inductive LockableResource where
  | checklistItem
  | discoveryBlock
  deriving DecidableEq, Repr

def LockableResource.keyType : LockableResource → String
  | .checklistItem => "checklist-item"
  | .discoveryBlock => "discovery-block"

def LockableResource.key (resource : LockableResource) (id : String) : String := resource.keyType ++ ":" ++ id

structure LockableRow where
  projectId : ProjectId
  text : String
  deriving DecidableEq, Repr

structure ChatMessage where
  projectId : ProjectId
  userId : UserId
  content : String
  deriving DecidableEq, Repr

/-- A socket with the `client.data` its admission has set once and for all. -/
structure Socket where
  id : SocketId
  userId : UserId
  username : String
  avatarUrl : Option String
  deriving DecidableEq, Repr

/-- What changes about a socket; `rooms` are the projects whose rooms it is in. -/
structure Connection where
  client : Socket
  ready : Bool
  connected : Bool
  rooms : List ProjectId
  deriving DecidableEq, Repr

inductive Emission where
  | fieldLocked (projectId : ProjectId) (key : String) (lock : FieldLock)
  | fieldUnlocked (projectId : ProjectId) (key : String)
  deriving DecidableEq, Repr

def emitFieldUnlock (released : ReleasedFieldLock) : Emission := .fieldUnlocked released.lock.projectId released.key

inductive Event where
  | emitted (emission : Emission)
  | memberAdded (projectId : ProjectId) (userId : UserId)
  | memberRemoved (projectId : ProjectId) (userId : UserId)
  | roleChanged (projectId : ProjectId) (userId : UserId) (role : Role)
  /-- `removeMember` is about to return. -/
  | removalCompleted (projectId : ProjectId) (userId : UserId)
  /-- A body that checked the membership of `userId` in `projectId` has written. -/
  | wrote (projectId : ProjectId) (userId : UserId)
  /-- A `field:lock` of `userId` in `projectId` has acquired `key`. -/
  | acquired (projectId : ProjectId) (userId : UserId) (key : String)
  deriving DecidableEq, Repr

/-- What a lease token was generated for. -/
structure LeaseClaim where
  key : String
  userId : UserId
  projectId : ProjectId
  deriving DecidableEq, Repr

structure World where
  now : Nat
  leases : Leases
  issued : String → Option LeaseClaim
  connections : SocketId → Option Connection
  members : ProjectId → UserId → Option Role
  users : String → Option UserId
  rows : LockableResource → String → Option LockableRow
  messages : String → Option ChatMessage
  history : List Event

/-! ### Requests -/

inductive FieldMessage where
  | lock
  | unlock
  | renew (leaseToken : String)
  | query
  deriving DecidableEq, Repr

/-- A call of `runProject` or `runProjectResource` with the body it passes. -/
inductive Request where
  | field (message : FieldMessage) (client : Socket) (projectId : ProjectId) (key : String)
  /-- One lease of the loop in `releaseSocket`. -/
  | releaseLease (socketId : SocketId) (projectId : ProjectId) (key : String)
  /-- One lease of the loop in `releaseExpiredLeases`. -/
  | expireLease (projectId : ProjectId) (key : String)
  /-- `withValidatedLease` with any `authorize` and any `operation` that leave the field locks and
  the memberships alone. -/
  | withValidatedLease (projectId : ProjectId) (key : String) (userId : UserId) (token : Option String)
  /-- The update of a checklist item's label or of a discovery block, through `withValidatedLease`.
  -/
  | update (resource : LockableResource) (projectId : ProjectId) (id : String) (text : String) (userId : UserId)
      (token : Option String)
  | remove (resource : LockableResource) (projectId : ProjectId) (id : String) (userId : UserId)
      (token : Option String)
  | chatCreate (projectId : ProjectId) (userId : UserId) (content : String) (randomUUID : String)
  | chatRemove (projectId : ProjectId) (id : String) (userId : UserId)
  /-- One membership of the loop in `joinRooms`. -/
  | joinRoom (client : Socket) (projectId : ProjectId)
  | addMember (projectId : ProjectId) (username : String) (requestingUserId : UserId)
  | removeMember (projectId : ProjectId) (userId : UserId) (requestingUserId : UserId)
  | updateMemberRole (projectId : ProjectId) (userId : UserId) (newRole : AssignableRole)
      (requestingUserId : UserId)
  deriving DecidableEq, Repr

namespace Request

def projectId : Request → ProjectId
  | field _ _ projectId _ => projectId
  | releaseLease _ projectId _ => projectId
  | expireLease projectId _ => projectId
  | withValidatedLease projectId _ _ _ => projectId
  | update _ projectId _ _ _ _ => projectId
  | remove _ projectId _ _ _ => projectId
  | chatCreate projectId _ _ _ => projectId
  | chatRemove projectId _ _ => projectId
  | joinRoom _ projectId => projectId
  | addMember projectId _ _ => projectId
  | removeMember projectId _ _ => projectId
  | updateMemberRole projectId _ _ _ => projectId

/-- The key of `runProjectResource`, or nothing for `runProject`. -/
def resourceKey : Request → Option String
  | field _ _ _ key => some key
  | releaseLease _ _ key => some key
  | expireLease _ key => some key
  | withValidatedLease _ key _ _ => some key
  | update resource _ id _ _ _ => some (resource.key id)
  | remove resource _ id _ _ => some (resource.key id)
  | chatCreate _ _ _ randomUUID => some ("chat-message:create:" ++ randomUUID)
  | chatRemove _ id _ => some ("chat-message:" ++ id)
  | joinRoom _ _ => none
  | addMember _ _ _ => none
  | removeMember _ _ _ => none
  | updateMemberRole _ _ _ _ => none

end Request

/-- How the promise of a body settles: it throws, or returns with what its caller will emit and
answer. -/
inductive Result where
  | threw
  | returned (emissions : List Emission) (lock : Option FieldLock) (leaseToken : Option String)
  deriving DecidableEq, Repr

inductive Progress where
  | begun
  | readingMembership
  | membershipRead (member : Option Role)
  | readingKey (member : Bool)
  | keyRead (member belongs : Bool)
  | authorizing
  | readingRow
  | rowRead (found : Bool)
  | authorized
  | readingUser (requester : Role)
  | userRead (requester : Role) (user : Option UserId)
  | readingTarget (requester : Role) (userId : UserId)
  | targetRead (requester : Role) (userId : UserId) (target : Option Role)
  | operating (userId : UserId)
  /-- The write is done; what follows awaits notifications or nothing. -/
  | written (userId : UserId)
  | settled (result : Result)
  deriving DecidableEq, Repr

/-! ### Reads and synchronous calls -/

namespace World

def record (w : World) (events : List Event) : World := { w with history := events.reverse ++ w.history }

def withLeases (w : World) (result : Leases × Option ReleasedFieldLock) : World :=
  { w with leases := result.1 }.record (result.2.toList.map (.emitted ∘ emitFieldUnlock))

def connected (w : World) (client : Socket) : Bool := (w.connections client.id).any (·.connected)

def isMember (w : World) (client : Socket) (projectId : ProjectId) : Bool :=
  (w.connections client.id).any (·.rooms.contains projectId)

def keyPrefixValidator : String → Option LockableResource
  | "checklist-item" => some .checklistItem
  | "discovery-block" => some .discoveryBlock
  | _ => none

def keyBelongsToProject (w : World) (key : String) (projectId : ProjectId) : Bool :=
  match (key.toList.splitOn ':').map String.ofList with
  | [keyType, id] =>
      if keyType = "" ∨ id = "" then false
      else
        match keyPrefixValidator keyType with
        | none => false
        | some resource => (w.rows resource id).map (·.projectId) == some projectId
  | _ => false

/-- Change the connections that satisfy `among`. -/
def updateConnections (w : World) (among : Connection → Bool) (f : Connection → Connection) : World :=
  { w with connections := fun id => (w.connections id).map fun connection => if among connection then f connection else connection }

def join (projectId : ProjectId) (connection : Connection) : Connection :=
  { connection with rooms := connection.rooms.insert projectId }

def leave (projectId : ProjectId) (connection : Connection) : Connection :=
  { connection with rooms := connection.rooms.erase projectId }

def joinProjectRoom (w : World) (userId : UserId) (projectId : ProjectId) : World :=
  w.updateConnections (fun connection => connection.connected && connection.client.userId == userId) (join projectId)

def leaveProjectRoom (w : World) (userId : UserId) (projectId : ProjectId) : World :=
  w.updateConnections (fun connection => connection.connected && connection.client.userId == userId) (leave projectId)

def setMember (w : World) (projectId : ProjectId) (userId : UserId) (role : Option Role) : World :=
  { w with members := Function.update w.members projectId (Function.update (w.members projectId) userId role) }

end World

end Transcendence.Realtime
