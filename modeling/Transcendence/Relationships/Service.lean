import Transcendence.Base.OrderedMap

/-!
# User relationships

`UserRelationshipsService`. A relationship of two users is up to two rows, one for each direction,
and the row from `requesterId` to `addresseeId` is the stance of its requester. The table is keyed
by its unique index. A request is its transaction, taken as one step, with what it does after the
commit; a transaction that throws leaves the table as it was.
-/

namespace Transcendence.Relationships

abbrev UserId := String

inductive RelationshipStatus where
  | PENDING_APPROVAL
  | ACCEPTED
  | BLOCKED
  deriving DecidableEq, Repr

inductive AccountStatus where
  | ACTIVE
  | PENDING_APPROVAL
  | DISABLED
  deriving DecidableEq, Repr

structure User where
  username : String
  status : AccountStatus
  deriving DecidableEq, Repr

abbrev Users := UserId → Option User

structure UserRelationship where
  requesterId : UserId
  addresseeId : UserId
  status : RelationshipStatus
  deriving DecidableEq, Repr

/-- The rows, by `requesterId` and `addresseeId`. -/
abbrev UserRelationships := OrderedMap (UserId × UserId) RelationshipStatus

/-- An error as its caller sees it; `foreignKey` is the database's refusal of a row whose user does
not exist. -/
inductive Error where
  | forbidden (message : String)
  | notFound (message : String)
  | foreignKey
  deriving DecidableEq, Repr

inductive Effect where
  | notification (userId : UserId) (message link : String)
  | emitted (userId : UserId) (event : String)
  deriving DecidableEq, Repr

/-- What a request answers, the rows it leaves, and what it does after its transaction. -/
structure Outcome (α : Type) where
  result : Except Error α
  rows : UserRelationships
  effects : List Effect

def UNKNOWN_USER_ERR_MSG : String := "unknown user"
def EXISTING_RELATION_ERR_MSG : String := "relationship already exists"
def BOTH_ID_EQUAL_ERR_MSG : String := "requesterId and addresseeId are equal"
def INVALID_STATUS_SEQUENCE_ERR_MSG : String := "Invalid status sequence"
def SAME_STATUS_ERR_MSG : String := "relationship already has this status"
def USER_NOT_FOUND_ERR_MSG : String := "User not found"

namespace UserRelationships

open OrderedMap (get set delete)

def statusOf (rows : UserRelationships) (requesterId addresseeId : UserId) : Option RelationshipStatus :=
  get rows (requesterId, addresseeId)

def setStatus (rows : UserRelationships) (requesterId addresseeId : UserId) (status : RelationshipStatus) :
    UserRelationships := set rows (requesterId, addresseeId) status

def remove (rows : UserRelationships) (requesterId addresseeId : UserId) : UserRelationships :=
  delete rows (requesterId, addresseeId)

/-- `deleteMany` of one row, unless it is blocked. -/
def removeUnlessBlocked (rows : UserRelationships) (requesterId addresseeId : UserId) : UserRelationships :=
  if rows.statusOf requesterId addresseeId = some .BLOCKED then rows else rows.remove requesterId addresseeId

/-- `INSERT`, with the two foreign keys. -/
def insert (users : Users) (rows : UserRelationships) (requesterId addresseeId : UserId) (status : RelationshipStatus) :
    Except Error UserRelationships :=
  if (users requesterId).isSome && (users addresseeId).isSome then .ok (rows.setStatus requesterId addresseeId status)
  else .error .foreignKey

def toList (rows : UserRelationships) : List UserRelationship :=
  rows.map fun ((requesterId, addresseeId), status) => ⟨requesterId, addresseeId, status⟩

end UserRelationships

/-- `UsersService.findById`. -/
def findUser (users : Users) (id : UserId) : Except Error User :=
  match users id with
  | some ⟨username, .ACTIVE⟩ => .ok ⟨username, .ACTIVE⟩
  | _ => .error (.notFound USER_NOT_FOUND_ERR_MSG)

/-- `NotificationsService.create`. -/
def notify (userId : UserId) (message link : String) : List Effect :=
  [.notification userId message link, .emitted userId "notification:new"]

/-- What `create` and `update` do after the commit; an error there is only logged. -/
def announce (users : Users) (requesterId addresseeId : UserId) (text event : String) : List Effect :=
  match findUser users requesterId with
  | .error _ => []
  | .ok requester =>
      notify addresseeId (requester.username ++ text) ("/friends?userId=" ++ requesterId) ++ [.emitted addresseeId event]

/-! ### Reads -/

def maskCounterpartBlocks (rows : List UserRelationship) (callerId : UserId) : List UserRelationship :=
  rows.map fun row =>
    if row.requesterId ≠ callerId ∧ row.status = .BLOCKED then { row with status := .ACCEPTED } else row

def findAll (rows : UserRelationships) (userId : UserId) : List UserRelationship :=
  maskCounterpartBlocks
    (rows.toList.filter fun row => row.requesterId = userId ∨ row.addresseeId = userId) userId

def findById (rows : UserRelationships) (addresseeId requesterId : UserId) : List UserRelationship :=
  if requesterId = addresseeId then []
  else
    maskCounterpartBlocks
      (rows.toList.filter fun row =>
        row.requesterId = requesterId ∧ row.addresseeId = addresseeId ∨
          row.requesterId = addresseeId ∧ row.addresseeId = requesterId) requesterId

/-! ### Writes -/

/-- The transaction of `create`; the flag tells that the addressee has blocked the requester. -/
def createTransaction (users : Users) (rows : UserRelationships) (addresseeId requesterId : UserId) :
    Except Error (UserRelationships × Bool) :=
  match rows.statusOf requesterId addresseeId with
  | some .BLOCKED => .error (.forbidden EXISTING_RELATION_ERR_MSG)
  | fromRequester =>
      match rows.statusOf addresseeId requesterId with
      | some .ACCEPTED => .error (.forbidden EXISTING_RELATION_ERR_MSG)
      | some .BLOCKED => .ok (rows, true)
      | fromAddressee => do
          let rows ← if fromRequester.isNone then rows.insert users requesterId addresseeId .ACCEPTED else .ok rows
          let rows ← if fromAddressee.isNone then rows.insert users addresseeId requesterId .PENDING_APPROVAL else .ok rows
          return (rows, false)

def create (users : Users) (rows : UserRelationships) (addresseeId requesterId : UserId) : Outcome (List UserId) :=
  if requesterId = addresseeId then ⟨.error (.forbidden BOTH_ID_EQUAL_ERR_MSG), rows, []⟩
  else
    match findUser users addresseeId with
    | .error error => ⟨.error error, rows, []⟩
    | .ok _ =>
        match createTransaction users rows addresseeId requesterId with
        | .error error => ⟨.error error, rows, []⟩
        | .ok (after, blocked) =>
            ⟨.ok [requesterId, addresseeId], after,
              if blocked then []
              else announce users requesterId addresseeId " wants to be your friend!" "friends:request-received"⟩

/-- Whether lifting a block leaves nothing to be accepted with. -/
def standsAlone (rows : UserRelationships) (addresseeId requesterId : UserId) : Bool :=
  match rows.statusOf addresseeId requesterId with
  | none => true
  | some counterpart => counterpart = .BLOCKED

/-- The transaction of `update`, which answers with the row it wrote or deleted. -/
def updateTransaction (users : Users) (rows : UserRelationships) (addresseeId : UserId) (status : RelationshipStatus)
    (requesterId : UserId) : Except Error (UserRelationships × UserRelationship) :=
  match rows.statusOf requesterId addresseeId with
  | none =>
      if status = .BLOCKED then
        (rows.insert users requesterId addresseeId status).map fun rows => (rows, ⟨requesterId, addresseeId, status⟩)
      else .error (.notFound UNKNOWN_USER_ERR_MSG)
  | some currentStatus =>
      if status = currentStatus then .error (.forbidden SAME_STATUS_ERR_MSG)
      else if currentStatus ≠ .PENDING_APPROVAL ∧ status = .PENDING_APPROVAL then
        .error (.forbidden INVALID_STATUS_SEQUENCE_ERR_MSG)
      else if currentStatus = .BLOCKED ∧ status ≠ .BLOCKED ∧ standsAlone rows addresseeId requesterId then
        .ok (rows.remove requesterId addresseeId, ⟨requesterId, addresseeId, currentStatus⟩)
      else .ok (rows.setStatus requesterId addresseeId status, ⟨requesterId, addresseeId, status⟩)

def update (users : Users) (rows : UserRelationships) (addresseeId : UserId) (status : RelationshipStatus)
    (requesterId : UserId) : Outcome UserRelationship :=
  if requesterId = addresseeId then ⟨.error (.forbidden BOTH_ID_EQUAL_ERR_MSG), rows, []⟩
  else
    match updateTransaction users rows addresseeId status requesterId with
    | .error error => ⟨.error error, rows, []⟩
    | .ok (after, updated) =>
        ⟨.ok updated, after,
          if rows.statusOf requesterId addresseeId = some .PENDING_APPROVAL ∧ status = .ACCEPTED then
            announce users requesterId addresseeId " is now your friend!" "friends:request-accepted"
          else []⟩

def remove (rows : UserRelationships) (addresseeId requesterId : UserId) : Outcome Unit :=
  if requesterId = addresseeId then ⟨.error (.forbidden BOTH_ID_EQUAL_ERR_MSG), rows, []⟩
  else ⟨.ok (), (rows.removeUnlessBlocked requesterId addresseeId).removeUnlessBlocked addresseeId requesterId, []⟩

/-! ### Runs -/

inductive Request where
  | create (addresseeId requesterId : UserId)
  | update (addresseeId : UserId) (status : RelationshipStatus) (requesterId : UserId)
  | remove (addresseeId requesterId : UserId)
  deriving DecidableEq, Repr

namespace Request

def requesterId : Request → UserId
  | create _ requesterId => requesterId
  | update _ _ requesterId => requesterId
  | remove _ requesterId => requesterId

def addresseeId : Request → UserId
  | create addresseeId _ => addresseeId
  | update addresseeId _ _ => addresseeId
  | remove addresseeId _ => addresseeId

end Request

/-- The rows after a request. -/
def after (users : Users) (rows : UserRelationships) : Request → UserRelationships
  | .create addresseeId requesterId => (create users rows addresseeId requesterId).rows
  | .update addresseeId status requesterId => (update users rows addresseeId status requesterId).rows
  | .remove addresseeId requesterId => (remove rows addresseeId requesterId).rows

def step (users : Users) (rows : UserRelationships) (request : Request) : Option UserRelationships :=
  some (after users rows request)

end Transcendence.Relationships
