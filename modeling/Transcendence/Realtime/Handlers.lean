import Transcendence.Realtime.World

/-!
# The coordinated bodies

Each request's body as a function from its `Progress` to what the next turn does. A read takes
effect in one turn and its continuation runs in a later one; a write and its continuation likewise.
`Input` holds what a turn gets from outside: whether the awaited query succeeds, and the value
`randomUUID` would return.
-/

namespace Transcendence.Realtime

structure Input where
  succeeds : Bool := true
  randomUUID : String := ""
  deriving DecidableEq, Repr

abbrev Turn := Option (World × Progress)

namespace World

def threw (w : World) : Turn := some (w, .settled .threw)

def returned (w : World) (emissions : List Emission := []) (lock : Option FieldLock := none)
    (leaseToken : Option String := none) : Turn := some (w, .settled (.returned emissions lock leaseToken))

/-- An awaited query without effect: it fails, or the body stands at `progress`. -/
def await (w : World) (input : Input) (progress : Progress) : Turn :=
  if input.succeeds then some (w, progress) else w.threw

/-- A token that was never generated before, as `randomUUID` is taken to return. -/
def fresh (w : World) (randomUUID : String) : Bool := (w.issued randomUUID).isNone

def issue (w : World) (token : String) (claim : LeaseClaim) : World :=
  { w with issued := Function.update w.issued token (some claim) }

/-- The world after `acquire` has answered `result`. -/
def afterAcquire (w : World) (randomUUID : String) (input : AcquireFieldLockInput)
    (result : Leases × AcquireFieldLockResult × Option ReleasedFieldLock) : World :=
  let after := w.withLeases (result.1, result.2.2)
  let after :=
    if result.2.1.token = some randomUUID then after.issue randomUUID ⟨input.key, input.userId, input.projectId⟩
    else after
  if result.2.1.acquired then after.record [.acquired input.projectId input.userId input.key] else after

def acquireLock (w : World) (randomUUID : String) (input : AcquireFieldLockInput) : Turn :=
  if !w.fresh randomUUID then none
  else
    let result := w.leases.acquire w.now randomUUID input
    let emissions :=
      if result.2.1.acquired then (result.2.1.lock.map (.fieldLocked input.projectId input.key)).toList else []
    (w.afterAcquire randomUUID input result).returned emissions result.2.1.lock result.2.1.token

/-- What `handleFieldLock` acquires. -/
def lockInput (client : Socket) (projectId : ProjectId) (key : String) : AcquireFieldLockInput :=
  { key, userId := client.userId, username := client.username, avatarUrl := client.avatarUrl
    projectId, socketId := client.id }

/-- The last turn of `handleFieldLock`, `handleFieldUnlock`, `handleFieldRenew` and
`handleFieldQuery`. -/
def answerField (w : World) (input : Input) (message : FieldMessage) (client : Socket)
    (projectId : ProjectId) (key : String) (member belongs : Bool) : Turn :=
  match message with
  | .lock =>
      if !w.connected client || !member || !belongs then w.returned
      else
        w.acquireLock input.randomUUID (lockInput client projectId key)
  | .unlock =>
      if !belongs then w.returned
      else
        let result := w.leases.release key client.id
        { w with leases := result.1 }.returned (result.2.map emitFieldUnlock).toList
  | .renew leaseToken =>
      if !belongs then w.returned
      else
        let result := w.leases.renew w.now key client.id leaseToken
        (w.withLeases (result.1, result.2.2)).returned [] result.2.1
  | .query =>
      if !belongs then w.returned
      else
        let after := w.withLeases (w.leases.releaseIfExpired w.now key)
        after.returned [] ((OrderedMap.get after.leases key).map (·.toFieldLock))

def fieldMessage (w : World) (input : Input) (message : FieldMessage) (client : Socket)
    (projectId : ProjectId) (key : String) : Progress → Turn
  | .begun => if w.connected client && w.isMember client projectId then some (w, .readingMembership) else w.returned
  | .readingMembership => w.await input (.membershipRead (w.members projectId client.userId))
  | .membershipRead member =>
      -- only field:lock reads the key without looking at the membership first
      if message = .lock ∨ member.isSome then some (w, .readingKey member.isSome) else w.returned
  | .readingKey member => w.await input (.keyRead member (w.keyBelongsToProject key projectId))
  | .keyRead member belongs => w.answerField input message client projectId key member belongs
  | _ => none

def releaseLease (w : World) (socketId : SocketId) (key : String) : Progress → Turn
  | .begun =>
      let result := w.leases.release key socketId
      { w with leases := result.1 }.returned (result.2.map emitFieldUnlock).toList
  | _ => none

def expireLease (w : World) (key : String) : Progress → Turn
  | .begun =>
      let result := w.leases.releaseStillExpired w.now key
      { w with leases := result.1 }.returned (result.2.map emitFieldUnlock).toList
  | _ => none

/-! ### Writes behind a field lock -/

/-- `assertMembership` and the lookup of the row, up to `authorized`. -/
def findById (w : World) (input : Input) (resource : LockableResource) (projectId : ProjectId) (id : String)
    (userId : UserId) : Progress → Turn
  | .readingMembership => w.await input (.membershipRead (w.members projectId userId))
  | .membershipRead member => if member.isSome then some (w, .readingRow) else w.threw
  | .readingRow => w.await input (.rowRead ((w.rows resource id).any (·.projectId == projectId)))
  | .rowRead found => if found then some (w, .authorized) else w.threw
  | _ => none

/-- The first check of `withValidatedLease`; `authorize` starts with `next`. -/
def validateLease (w : World) (projectId : ProjectId) (key : String) (userId : UserId) (token : Option String)
    (next : Progress) : Turn :=
  if w.leases.validates w.now projectId key userId token then some (w, next)
  else (w.withLeases (w.leases.releaseIfExpired w.now key)).threw

/-- The second check of `withValidatedLease`, which starts `operation`. -/
def revalidateLease (w : World) (key : String) (userId : UserId) (token : Option String) : Turn :=
  if w.leases.stillValidates w.now key token then some (w, .operating userId) else w.threw

def withValidatedLease (w : World) (input : Input) (projectId : ProjectId) (key : String) (userId : UserId)
    (token : Option String) : Progress → Turn
  | .begun => w.validateLease projectId key userId token .authorizing
  | .authorizing => w.await input .authorized
  | .authorized => w.revalidateLease key userId token
  | .operating _ => if input.succeeds then w.returned else w.threw
  | _ => none

def update (w : World) (input : Input) (resource : LockableResource) (projectId : ProjectId) (id : String)
    (text : String) (userId : UserId) (token : Option String) : Progress → Turn
  | .begun => w.validateLease projectId (resource.key id) userId token .readingMembership
  | .authorized => w.revalidateLease (resource.key id) userId token
  | .operating _ =>
      match w.rows resource id with
      | none => w.threw
      | some row =>
          if input.succeeds then
            ({ w with
                rows := Function.update w.rows resource (Function.update (w.rows resource) id (some { row with text })) }.record
              [.wrote projectId userId]).returned
          else w.threw
  | progress => w.findById input resource projectId id userId progress

def remove (w : World) (input : Input) (resource : LockableResource) (projectId : ProjectId) (id : String)
    (userId : UserId) (token : Option String) : Progress → Turn
  | .begun => some (w, .readingMembership)
  | .authorized =>
      let result := w.leases.assertLeaseOwnerIfLocked w.now projectId (resource.key id) userId token
      if result.1 then some (w.withLeases result.2, .operating userId) else (w.withLeases result.2).threw
  | .operating _ =>
      if !input.succeeds then w.threw
      -- a row that is already gone is not an error
      else if (w.rows resource id).isNone then some (w, .written userId)
      else
        some ({ w with rows := Function.update w.rows resource (Function.update (w.rows resource) id none) }.record
          [.wrote projectId userId], .written userId)
  | .written _ =>
      let result := w.leases.releaseResource (resource.key id)
      { w with leases := result.1 }.returned (result.2.map emitFieldUnlock).toList
  | progress => w.findById input resource projectId id userId progress

def chatCreate (w : World) (input : Input) (projectId : ProjectId) (userId : UserId) (content : String) :
    Progress → Turn
  | .begun => some (w, .readingMembership)
  | .readingMembership => w.await input (.membershipRead (w.members projectId userId))
  | .membershipRead member => if member.isSome then some (w, .operating userId) else w.threw
  | .operating _ =>
      if input.succeeds ∧ (w.messages input.randomUUID).isNone then
        ({ w with messages := Function.update w.messages input.randomUUID (some ⟨projectId, userId, content⟩) }.record
          [.wrote projectId userId]).returned
      else w.threw
  | _ => none

def chatRemove (w : World) (input : Input) (projectId : ProjectId) (id : String) (userId : UserId) : Progress → Turn
  | .begun => some (w, .readingMembership)
  | .readingMembership => w.await input (.membershipRead (w.members projectId userId))
  | .membershipRead member => if member.isSome then some (w, .readingRow) else w.threw
  | .readingRow =>
      w.await input (.rowRead ((w.messages id).any fun message => message.projectId == projectId && message.userId == userId))
  | .rowRead found => if found then some (w, .operating userId) else w.threw
  | .operating _ =>
      if input.succeeds ∧ (w.messages id).isSome then
        ({ w with messages := Function.update w.messages id none }.record [.wrote projectId userId]).returned
      else w.threw
  | _ => none

/-! ### Bodies under the project's exclusive lock -/

def joinRooms (w : World) (input : Input) (client : Socket) (projectId : ProjectId) : Progress → Turn
  | .begun => if w.connected client then some (w, .readingMembership) else w.returned
  | .readingMembership => w.await input (.membershipRead (w.members projectId client.userId))
  | .membershipRead member =>
      if member.isSome && w.connected client then
        (w.updateConnections (·.client.id == client.id) (join projectId)).returned
      else w.returned
  | _ => none

def mayManage (role : Role) : Bool := role = .OWNER || role = .ADMIN

/-- Whether `assertOwnerRequiredForAdminTarget` returns. -/
def ownerRequiredForAdminTarget (targetRole requesterRole : Role) : Bool :=
  !(targetRole = .ADMIN && requesterRole ≠ .OWNER)

def addMember (w : World) (input : Input) (projectId : ProjectId) (username : String) (requestingUserId : UserId) :
    Progress → Turn
  | .begun => some (w, .readingMembership)
  | .readingMembership => w.await input (.membershipRead (w.members projectId requestingUserId))
  | .membershipRead none => w.threw
  | .membershipRead (some role) => if mayManage role then some (w, .readingUser role) else w.threw
  | .readingUser role => w.await input (.userRead role (w.users username))
  | .userRead _ none => w.threw
  | .userRead role (some userId) => some (w, .readingTarget role userId)
  | .readingTarget role userId => w.await input (.targetRead role userId (w.members projectId userId))
  | .targetRead _ userId existingMember => if existingMember.isSome then w.threw else some (w, .operating userId)
  | .operating userId =>
      if input.succeeds ∧ (w.members projectId userId).isNone then
        some ((w.setMember projectId userId (some .MEMBER)).record [.memberAdded projectId userId], .written userId)
      else w.threw
  | .written userId => if input.succeeds then (w.joinProjectRoom userId projectId).returned else w.threw
  | _ => none

/-- The checks of `removeMember` once both memberships are read. -/
def mayRemove (isSelfRemoval : Bool) (requester memberToRemove : Role) : Bool :=
  memberToRemove ≠ .OWNER && (isSelfRemoval || ownerRequiredForAdminTarget memberToRemove requester)

/-- What `removeMember` does after its last await. -/
def afterRemoval (w : World) (projectId : ProjectId) (userId : UserId) : World :=
  let released := w.leases.releaseUserInProject userId projectId
  { w.leaveProjectRoom userId projectId with leases := released.1 }.record
    (released.2.map (Event.emitted ∘ emitFieldUnlock) ++ [Event.removalCompleted projectId userId])

def removeMember (w : World) (input : Input) (projectId : ProjectId) (userId requestingUserId : UserId) :
    Progress → Turn
  | .begun => some (w, .readingMembership)
  | .readingMembership => w.await input (.membershipRead (w.members projectId requestingUserId))
  | .membershipRead none => w.threw
  | .membershipRead (some role) =>
      if requestingUserId = userId then
        if mayRemove true role role then some (w, .operating userId) else w.threw
      else if mayManage role then some (w, .readingTarget role userId)
      else w.threw
  | .readingTarget role _ => w.await input (.targetRead role userId (w.members projectId userId))
  | .targetRead _ _ none => w.threw
  | .targetRead role _ (some memberToRemove) =>
      if mayRemove false role memberToRemove then some (w, .operating userId) else w.threw
  | .operating _ =>
      if input.succeeds ∧ (w.members projectId userId).isSome then
        some ((w.setMember projectId userId none).record [.memberRemoved projectId userId], .written userId)
      else w.threw
  | .written _ => if input.succeeds then (w.afterRemoval projectId userId).returned else w.threw
  | _ => none

/-- The checks of `updateMemberRole` once both memberships are read. -/
def mayUpdateRole (newRole : AssignableRole) (requester memberToUpdate : Role) : Bool :=
  memberToUpdate ≠ .OWNER && (newRole ≠ .MEMBER || ownerRequiredForAdminTarget memberToUpdate requester) &&
    memberToUpdate ≠ newRole.role

def updateMemberRole (w : World) (input : Input) (projectId : ProjectId) (userId : UserId)
    (newRole : AssignableRole) (requestingUserId : UserId) : Progress → Turn
  | .begun => some (w, .readingMembership)
  | .readingMembership => w.await input (.membershipRead (w.members projectId requestingUserId))
  | .membershipRead none => w.threw
  | .membershipRead (some role) => if mayManage role then some (w, .readingTarget role userId) else w.threw
  | .readingTarget role _ => w.await input (.targetRead role userId (w.members projectId userId))
  | .targetRead _ _ none => w.threw
  | .targetRead role _ (some memberToUpdate) =>
      if mayUpdateRole newRole role memberToUpdate then some (w, .operating userId) else w.threw
  | .operating _ =>
      if input.succeeds ∧ (w.members projectId userId).isSome then
        some ((w.setMember projectId userId (some newRole.role)).record [.roleChanged projectId userId newRole.role],
          .written userId)
      else w.threw
  | .written _ => if input.succeeds then w.returned else w.threw
  | _ => none

/-- The next turn of a request's body. -/
def body (w : World) (input : Input) (progress : Progress) : Request → Turn
  | .field message client projectId key => w.fieldMessage input message client projectId key progress
  | .releaseLease socketId _ key => w.releaseLease socketId key progress
  | .expireLease _ key => w.expireLease key progress
  | .withValidatedLease projectId key userId token => w.withValidatedLease input projectId key userId token progress
  | .update resource projectId id text userId token =>
      w.update input resource projectId id text userId token progress
  | .remove resource projectId id userId token => w.remove input resource projectId id userId token progress
  | .chatCreate projectId userId content _ => w.chatCreate input projectId userId content progress
  | .chatRemove projectId id userId => w.chatRemove input projectId id userId progress
  | .joinRoom client projectId => w.joinRooms input client projectId progress
  | .addMember projectId username requestingUserId => w.addMember input projectId username requestingUserId progress
  | .removeMember projectId userId requestingUserId => w.removeMember input projectId userId requestingUserId progress
  | .updateMemberRole projectId userId newRole requestingUserId =>
      w.updateMemberRole input projectId userId newRole requestingUserId progress

end World

end Transcendence.Realtime
