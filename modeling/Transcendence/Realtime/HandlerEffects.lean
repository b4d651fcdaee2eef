import Transcendence.Realtime.Handlers

/-!
# What a turn of a body can do

`Effect` lists everything one turn can change, with the progress it comes from: a body under a
resource's key works on that key's lease or writes for a member it has read, and only the bodies
under the project's exclusive lock change memberships. The invariants of the server are proved from
this list, never from the bodies.
-/

namespace Transcendence.Realtime

/-- The user whose membership the body reads before it writes or acquires. -/
def Request.member : Request → Option UserId
  | field .lock client _ _ => some client.userId
  | update _ _ _ _ userId _ => some userId
  | remove _ _ _ userId _ => some userId
  | chatCreate _ userId _ _ => some userId
  | chatRemove _ _ userId => some userId
  | _ => none

/-- The arguments of a call of `withValidatedLease`. -/
structure ValidatedLease where
  projectId : ProjectId
  key : String
  userId : UserId
  token : Option String
  deriving DecidableEq, Repr

def Request.lease : Request → Option ValidatedLease
  | withValidatedLease projectId key userId token => some ⟨projectId, key, userId, token⟩
  | update resource projectId id _ userId token => some ⟨projectId, resource.key id, userId, token⟩
  | _ => none

/-- In a body with a `Request.member`, the membership has been read and was there. -/
def Progress.knowsMember : Progress → Bool
  | membershipRead member => member.isSome
  | readingKey member => member
  | keyRead member _ => member
  | readingRow => true
  | rowRead _ => true
  | authorized => true
  | operating _ => true
  | written _ => true
  | _ => false

/-- The body has started and not settled yet. -/
def Progress.inside : Progress → Bool
  | begun => false
  | settled _ => false
  | _ => true

theorem Request.resourceKey_of_member {request : Request} {userId : UserId} (h : request.member = some userId) :
    request.resourceKey.isSome := by
  cases request <;> simp_all [member, resourceKey]

theorem Request.resourceKey_of_lease {request : Request} {lease : ValidatedLease} (h : request.lease = some lease) :
    request.resourceKey = some lease.key ∧ request.projectId = lease.projectId := by
  cases request <;> simp_all [Request.lease, resourceKey, Request.projectId] <;> grind

namespace World

inductive Effect (w : World) : Request → Progress → World → Prop where
  | nothing {request progress} : Effect w request progress w
  | leases {request progress} {key : String} {leases : Leases} (emissions : List Emission)
      (hkey : request.resourceKey = some key) (hshrinks : Leases.Shrinks key w.leases leases) :
      Effect w request progress ({ w with leases }.record (emissions.map .emitted))
  | acquired (client : Socket) (projectId : ProjectId) (key randomUUID : String) (hfresh : w.fresh randomUUID) :
      Effect w (.field .lock client projectId key) (.keyRead true true)
        (w.afterAcquire randomUUID (lockInput client projectId key)
          (w.leases.acquire w.now randomUUID (lockInput client projectId key)))
  | wrote {request progress} {userId : UserId} (rows : LockableResource → String → Option LockableRow)
      (messages : String → Option ChatMessage) (hmember : request.member = some userId)
      (hknows : progress.knowsMember) :
      Effect w request progress ({ w with rows, messages }.record [.wrote request.projectId userId])
  | rooms {request progress} (connections : SocketId → Option Connection) (hexclusive : request.resourceKey = none) :
      Effect w request progress { w with connections }
  | memberAdded {request progress} {userId : UserId} (hexclusive : request.resourceKey = none) :
      Effect w request progress
        ((w.setMember request.projectId userId (some .MEMBER)).record [.memberAdded request.projectId userId])
  | roleChanged {request progress} {userId : UserId} {role : Role} (hexclusive : request.resourceKey = none)
      (hold : (w.members request.projectId userId).isSome) :
      Effect w request progress
        ((w.setMember request.projectId userId (some role)).record [.roleChanged request.projectId userId role])
  | memberRemoved (projectId : ProjectId) (userId requestingUserId : UserId) {progress} :
      Effect w (.removeMember projectId userId requestingUserId) progress
        ((w.setMember projectId userId none).record [.memberRemoved projectId userId])
  | removalCompleted (projectId : ProjectId) (userId requestingUserId : UserId) (target : UserId) :
      Effect w (.removeMember projectId userId requestingUserId) (.written target) (w.afterRemoval projectId userId)

theorem Effect.shrinks {w : World} {request : Request} {progress : Progress} {key : String}
    {result : Leases × Option ReleasedFieldLock} (hkey : request.resourceKey = some key)
    (hshrinks : Leases.Shrinks key w.leases result.1) : Effect w request progress (w.withLeases result) := by
  have h : Effect w request progress _ := .leases (result.2.toList.map emitFieldUnlock) hkey hshrinks
  rwa [List.map_map] at h

/-- The turns that answer or throw and those that only move on. -/
theorem Effect.of_leases {w : World} {request : Request} {progress : Progress} {key : String} {leases : Leases}
    (hkey : request.resourceKey = some key) (hshrinks : Leases.Shrinks key w.leases leases) :
    Effect w request progress { w with leases } := .leases [] hkey hshrinks

variable {w w' : World} {input : Input} {progress progress' : Progress}

@[simp] theorem threw_eq_some : w.threw = some (w', progress') ↔ w = w' ∧ .settled .threw = progress' := by
  simp [threw]

@[simp] theorem returned_eq_some {emissions : List Emission} {lock : Option FieldLock} {leaseToken : Option String} :
    w.returned emissions lock leaseToken = some (w', progress') ↔
      w = w' ∧ .settled (.returned emissions lock leaseToken) = progress' := by
  simp [returned]

@[simp] theorem await_eq_some {next : Progress} :
    w.await input next = some (w', progress') ↔
      w = w' ∧ (if input.succeeds then next else .settled .threw) = progress' := by
  rw [await]
  split <;> simp

/-! ### One lemma per body -/

theorem answerField_effect {message : FieldMessage} {client : Socket} {projectId : ProjectId} {key : String}
    {member belongs : Bool}
    (h : w.answerField input message client projectId key member belongs = some (w', progress')) :
    Effect w (.field message client projectId key) (.keyRead member belongs) w' := by
  have hkey : (Request.field message client projectId key).resourceKey = some key := rfl
  cases message with
  | lock =>
      simp only [answerField] at h
      split at h
      · obtain ⟨rfl, -⟩ := returned_eq_some.mp h
        exact .nothing
      · rename_i hmay
        simp only [Bool.or_eq_true, Bool.not_eq_true', not_or, Bool.not_eq_false] at hmay
        obtain ⟨⟨-, rfl⟩, rfl⟩ := hmay
        rw [acquireLock] at h
        split at h
        · simp at h
        · rename_i hfresh
          obtain ⟨rfl, -⟩ := returned_eq_some.mp h
          exact .acquired client projectId key input.randomUUID (by simpa using hfresh)
  | unlock =>
      simp only [answerField] at h
      split at h
      · obtain ⟨rfl, -⟩ := returned_eq_some.mp h
        exact .nothing
      · obtain ⟨rfl, -⟩ := returned_eq_some.mp h
        exact .of_leases hkey (Leases.shrinks_release w.leases key client.id)
  | renew leaseToken =>
      simp only [answerField] at h
      split at h
      · obtain ⟨rfl, -⟩ := returned_eq_some.mp h
        exact .nothing
      · obtain ⟨rfl, -⟩ := returned_eq_some.mp h
        exact .shrinks hkey (Leases.shrinks_renew w.leases w.now key client.id leaseToken)
  | query =>
      simp only [answerField] at h
      split at h
      · obtain ⟨rfl, -⟩ := returned_eq_some.mp h
        exact .nothing
      · obtain ⟨rfl, -⟩ := returned_eq_some.mp h
        exact .shrinks hkey (Leases.shrinks_releaseIfExpired w.leases w.now key)

theorem fieldMessage_effect {message : FieldMessage} {client : Socket} {projectId : ProjectId} {key : String}
    (h : w.fieldMessage input message client projectId key progress = some (w', progress')) :
    Effect w (.field message client projectId key) progress w' := by
  cases progress with
  | keyRead member belongs => exact answerField_effect h
  | begun | membershipRead member =>
      simp only [fieldMessage] at h
      split at h
      · obtain ⟨rfl, -⟩ : w = w' ∧ _ := by simpa using h
        exact .nothing
      · obtain ⟨rfl, -⟩ := returned_eq_some.mp h
        exact .nothing
  | readingMembership | readingKey member =>
      obtain ⟨rfl, -⟩ := await_eq_some.mp h
      exact .nothing
  | _ => cases h

theorem releaseLease_effect {socketId : SocketId} {projectId : ProjectId} {key : String}
    (h : w.releaseLease socketId key progress = some (w', progress')) :
    Effect w (.releaseLease socketId projectId key) progress w' := by
  cases progress with
  | begun =>
      obtain ⟨rfl, -⟩ := returned_eq_some.mp h
      exact .of_leases rfl (Leases.shrinks_release w.leases key socketId)
  | _ => cases h

theorem expireLease_effect {projectId : ProjectId} {key : String}
    (h : w.expireLease key progress = some (w', progress')) : Effect w (.expireLease projectId key) progress w' := by
  cases progress with
  | begun =>
      obtain ⟨rfl, -⟩ := returned_eq_some.mp h
      exact .of_leases rfl (Leases.shrinks_releaseIfExpired w.leases w.now key)
  | _ => cases h

theorem validateLease_effect {request : Request} {next : Progress} (lease : ValidatedLease)
    (hlease : request.lease = some lease)
    (h : w.validateLease lease.projectId lease.key lease.userId lease.token next = some (w', progress')) :
    Effect w request progress w' := by
  rw [validateLease] at h
  split at h
  · obtain ⟨rfl, -⟩ : w = w' ∧ _ := by simpa using h
    exact .nothing
  · obtain ⟨rfl, -⟩ := threw_eq_some.mp h
    exact .shrinks (Request.resourceKey_of_lease hlease).1 (Leases.shrinks_releaseIfExpired w.leases w.now lease.key)

theorem revalidateLease_eq {key : String} {userId : UserId} {token : Option String}
    (h : w.revalidateLease key userId token = some (w', progress')) : w = w' := by
  rw [revalidateLease] at h
  split at h <;> simp_all

theorem withValidatedLease_effect {projectId : ProjectId} {key : String} {userId : UserId} {token : Option String}
    (h : w.withValidatedLease input projectId key userId token progress = some (w', progress')) :
    Effect w (.withValidatedLease projectId key userId token) progress w' := by
  cases progress with
  | begun => exact validateLease_effect ⟨projectId, key, userId, token⟩ rfl h
  | authorizing =>
      obtain ⟨rfl, -⟩ := await_eq_some.mp h
      exact .nothing
  | authorized =>
      obtain rfl := revalidateLease_eq h
      exact .nothing
  | operating target =>
      simp only [withValidatedLease] at h
      split at h
      · obtain ⟨rfl, -⟩ := returned_eq_some.mp h
        exact .nothing
      · obtain ⟨rfl, -⟩ := threw_eq_some.mp h
        exact .nothing
  | _ => cases h

theorem findById_eq {resource : LockableResource} {projectId : ProjectId} {id : String} {userId : UserId}
    (h : w.findById input resource projectId id userId progress = some (w', progress')) : w = w' := by
  cases progress with
  | readingMembership | readingRow => exact (await_eq_some.mp h).1
  | membershipRead member | rowRead found =>
      simp only [findById] at h
      split at h <;> simp_all
  | _ => cases h

theorem update_effect {resource : LockableResource} {projectId : ProjectId} {id text : String} {userId : UserId}
    {token : Option String}
    (h : w.update input resource projectId id text userId token progress = some (w', progress')) :
    Effect w (.update resource projectId id text userId token) progress w' := by
  cases progress with
  | begun => exact validateLease_effect ⟨projectId, resource.key id, userId, token⟩ rfl h
  | authorized =>
      obtain rfl := revalidateLease_eq h
      exact .nothing
  | operating target =>
      simp only [update] at h
      split at h
      · obtain ⟨rfl, -⟩ := threw_eq_some.mp h
        exact .nothing
      · split at h
        · obtain ⟨rfl, -⟩ := returned_eq_some.mp h
          exact .wrote _ w.messages rfl rfl
        · obtain ⟨rfl, -⟩ := threw_eq_some.mp h
          exact .nothing
  | _ =>
      simp only [update] at h
      obtain rfl := findById_eq h
      exact .nothing

theorem remove_effect {resource : LockableResource} {projectId : ProjectId} {id : String} {userId : UserId}
    {token : Option String} (h : w.remove input resource projectId id userId token progress = some (w', progress')) :
    Effect w (.remove resource projectId id userId token) progress w' := by
  have hkey : (Request.remove resource projectId id userId token).resourceKey = some (resource.key id) := rfl
  cases progress with
  | begun =>
      obtain ⟨rfl, -⟩ : w = w' ∧ _ := by simpa [remove] using h
      exact .nothing
  | authorized =>
      have hshrinks := Leases.shrinks_assertLeaseOwnerIfLocked w.leases w.now projectId (resource.key id) userId token
      simp only [remove] at h
      split at h
      · obtain ⟨rfl, -⟩ : _ = w' ∧ _ := by simpa using h
        exact .shrinks hkey hshrinks
      · obtain ⟨rfl, -⟩ := threw_eq_some.mp h
        exact .shrinks hkey hshrinks
  | operating target =>
      simp only [remove] at h
      split at h
      · obtain ⟨rfl, -⟩ := threw_eq_some.mp h
        exact .nothing
      · split at h
        · obtain ⟨rfl, -⟩ : w = w' ∧ _ := by simpa using h
          exact .nothing
        · obtain ⟨rfl, -⟩ : _ = w' ∧ _ := by simpa using h
          exact .wrote _ w.messages rfl rfl
  | written target =>
      obtain ⟨rfl, -⟩ := returned_eq_some.mp h
      exact .of_leases hkey (Leases.shrinks_releaseResource w.leases (resource.key id))
  | _ =>
      simp only [remove] at h
      obtain rfl := findById_eq h
      exact .nothing

theorem chatCreate_effect {projectId : ProjectId} {userId : UserId} {content randomUUID : String}
    (h : w.chatCreate input projectId userId content progress = some (w', progress')) :
    Effect w (.chatCreate projectId userId content randomUUID) progress w' := by
  cases progress with
  | begun =>
      obtain ⟨rfl, -⟩ : w = w' ∧ _ := by simpa [chatCreate] using h
      exact .nothing
  | readingMembership =>
      obtain ⟨rfl, -⟩ := await_eq_some.mp h
      exact .nothing
  | membershipRead member =>
      simp only [chatCreate] at h
      split at h
      · obtain ⟨rfl, -⟩ : w = w' ∧ _ := by simpa using h
        exact .nothing
      · obtain ⟨rfl, -⟩ := threw_eq_some.mp h
        exact .nothing
  | operating target =>
      simp only [chatCreate] at h
      split at h
      · obtain ⟨rfl, -⟩ := returned_eq_some.mp h
        exact .wrote w.rows _ rfl rfl
      · obtain ⟨rfl, -⟩ := threw_eq_some.mp h
        exact .nothing
  | _ => cases h

theorem chatRemove_effect {projectId : ProjectId} {id : String} {userId : UserId}
    (h : w.chatRemove input projectId id userId progress = some (w', progress')) :
    Effect w (.chatRemove projectId id userId) progress w' := by
  cases progress with
  | begun =>
      obtain ⟨rfl, -⟩ : w = w' ∧ _ := by simpa [chatRemove] using h
      exact .nothing
  | readingMembership | readingRow =>
      obtain ⟨rfl, -⟩ := await_eq_some.mp h
      exact .nothing
  | membershipRead member | rowRead found =>
      simp only [chatRemove] at h
      split at h
      · obtain ⟨rfl, -⟩ : w = w' ∧ _ := by simpa using h
        exact .nothing
      · obtain ⟨rfl, -⟩ := threw_eq_some.mp h
        exact .nothing
  | operating target =>
      simp only [chatRemove] at h
      split at h
      · obtain ⟨rfl, -⟩ := returned_eq_some.mp h
        exact .wrote w.rows _ rfl rfl
      · obtain ⟨rfl, -⟩ := threw_eq_some.mp h
        exact .nothing
  | _ => cases h

theorem joinRooms_effect {client : Socket} {projectId : ProjectId}
    (h : w.joinRooms input client projectId progress = some (w', progress')) :
    Effect w (.joinRoom client projectId) progress w' := by
  cases progress with
  | begun =>
      simp only [joinRooms] at h
      split at h
      · obtain ⟨rfl, -⟩ : w = w' ∧ _ := by simpa using h
        exact .nothing
      · obtain ⟨rfl, -⟩ := returned_eq_some.mp h
        exact .nothing
  | readingMembership =>
      obtain ⟨rfl, -⟩ := await_eq_some.mp h
      exact .nothing
  | membershipRead member =>
      simp only [joinRooms] at h
      split at h
      · obtain ⟨rfl, -⟩ := returned_eq_some.mp h
        exact .rooms _ rfl
      · obtain ⟨rfl, -⟩ := returned_eq_some.mp h
        exact .nothing
  | _ => cases h

theorem addMember_effect {projectId : ProjectId} {username : String} {requestingUserId : UserId}
    (h : w.addMember input projectId username requestingUserId progress = some (w', progress')) :
    Effect w (.addMember projectId username requestingUserId) progress w' := by
  cases progress with
  | readingMembership | readingUser role | readingTarget role userId =>
      obtain ⟨rfl, -⟩ := await_eq_some.mp h
      exact .nothing
  | operating userId =>
      simp only [addMember] at h
      split at h
      · obtain ⟨rfl, -⟩ : _ = w' ∧ _ := by simpa using h
        exact .memberAdded rfl
      · obtain ⟨rfl, -⟩ := threw_eq_some.mp h
        exact .nothing
  | written userId =>
      simp only [addMember] at h
      split at h
      · obtain ⟨rfl, -⟩ := returned_eq_some.mp h
        exact .rooms _ rfl
      · obtain ⟨rfl, -⟩ := threw_eq_some.mp h
        exact .nothing
  | membershipRead member | userRead role member =>
      obtain rfl : w = w' := by
        cases member <;> simp only [addMember] at h
        · exact (threw_eq_some.mp h).1
        · first | split at h <;> simp_all | simp_all
      exact .nothing
  | begun | targetRead role userId target =>
      obtain rfl : w = w' := by
        simp only [addMember] at h
        first | split at h <;> simp_all | simp_all
      exact .nothing
  | _ => cases h

theorem removeMember_effect {projectId : ProjectId} {userId requestingUserId : UserId}
    (h : w.removeMember input projectId userId requestingUserId progress = some (w', progress')) :
    Effect w (.removeMember projectId userId requestingUserId) progress w' := by
  cases progress with
  | readingMembership | readingTarget role target =>
      obtain ⟨rfl, -⟩ := await_eq_some.mp h
      exact .nothing
  | operating target =>
      simp only [removeMember] at h
      split at h
      · obtain ⟨rfl, -⟩ : _ = w' ∧ _ := by simpa using h
        exact .memberRemoved projectId userId requestingUserId
      · obtain ⟨rfl, -⟩ := threw_eq_some.mp h
        exact .nothing
  | written target =>
      simp only [removeMember] at h
      split at h
      · obtain ⟨rfl, -⟩ := returned_eq_some.mp h
        exact .removalCompleted projectId userId requestingUserId target
      · obtain ⟨rfl, -⟩ := threw_eq_some.mp h
        exact .nothing
  | begun =>
      obtain ⟨rfl, -⟩ : w = w' ∧ _ := by simpa [removeMember] using h
      exact .nothing
  | membershipRead member | targetRead role target member =>
      obtain rfl : w = w' := by
        cases member <;> simp only [removeMember] at h
        · exact (threw_eq_some.mp h).1
        · split_ifs at h <;> simp_all
      exact .nothing
  | _ => cases h

theorem updateMemberRole_effect {projectId : ProjectId} {userId requestingUserId : UserId} {newRole : AssignableRole}
    (h : w.updateMemberRole input projectId userId newRole requestingUserId progress = some (w', progress')) :
    Effect w (.updateMemberRole projectId userId newRole requestingUserId) progress w' := by
  cases progress with
  | readingMembership | readingTarget role target =>
      obtain ⟨rfl, -⟩ := await_eq_some.mp h
      exact .nothing
  | operating target =>
      simp only [updateMemberRole] at h
      split at h
      · rename_i hfound
        obtain ⟨rfl, -⟩ : _ = w' ∧ _ := by simpa using h
        exact .roleChanged rfl hfound.2
      · obtain ⟨rfl, -⟩ := threw_eq_some.mp h
        exact .nothing
  | written target =>
      simp only [updateMemberRole] at h
      obtain rfl : w = w' := by split at h <;> simp_all
      exact .nothing
  | begun =>
      obtain ⟨rfl, -⟩ : w = w' ∧ _ := by simpa [updateMemberRole] using h
      exact .nothing
  | membershipRead member | targetRead role target member =>
      obtain rfl : w = w' := by
        cases member <;> simp only [updateMemberRole] at h
        · exact (threw_eq_some.mp h).1
        · split at h <;> simp_all
      exact .nothing
  | _ => cases h

theorem body_effect {request : Request} (h : w.body input progress request = some (w', progress')) :
    Effect w request progress w' := by
  cases request with
  | field message client projectId key => exact fieldMessage_effect h
  | releaseLease socketId projectId key => exact releaseLease_effect h
  | expireLease projectId key => exact expireLease_effect h
  | withValidatedLease projectId key userId token => exact withValidatedLease_effect h
  | update resource projectId id text userId token => exact update_effect h
  | remove resource projectId id userId token => exact remove_effect h
  | chatCreate projectId userId content randomUUID => exact chatCreate_effect h
  | chatRemove projectId id userId => exact chatRemove_effect h
  | joinRoom client projectId => exact joinRooms_effect h
  | addMember projectId username requestingUserId => exact addMember_effect h
  | removeMember projectId userId requestingUserId => exact removeMember_effect h
  | updateMemberRole projectId userId newRole requestingUserId => exact updateMemberRole_effect h

/-! ### How a body comes to know something -/

theorem findById_knows {resource : LockableResource} {projectId : ProjectId} {id : String} {userId : UserId}
    (h : w.findById input resource projectId id userId progress = some (w', progress'))
    (hknows : progress'.knowsMember) : progress.knowsMember ∨ (w.members projectId userId).isSome := by
  cases progress with
  | readingMembership =>
      obtain ⟨-, rfl⟩ := await_eq_some.mp h
      split at hknows
      · exact Or.inr hknows
      · cases hknows
  | membershipRead member =>
      simp only [findById] at h
      split at h
      · rename_i hsome
        exact Or.inl hsome
      · obtain ⟨-, rfl⟩ := threw_eq_some.mp h
        cases hknows
  | readingRow | rowRead found => exact Or.inl rfl
  | _ => cases h

/-- A body comes to know its member by reading the membership. -/
theorem knowsMember_of_body {request : Request} {userId : UserId} (hmember : request.member = some userId)
    (h : w.body input progress request = some (w', progress')) (hknows : progress'.knowsMember) :
    progress.knowsMember ∨ (w.members request.projectId userId).isSome := by
  cases request with
  | field message client projectId key =>
      cases message with
      | lock =>
          obtain rfl : client.userId = userId := Option.some.inj hmember
          cases progress with
          | readingMembership =>
              obtain ⟨-, rfl⟩ := await_eq_some.mp h
              split at hknows
              · exact Or.inr hknows
              · cases hknows
          | membershipRead member =>
              obtain ⟨-, rfl⟩ : w = w' ∧ Progress.readingKey member.isSome = progress' := by
                simpa [body, fieldMessage] using h
              exact Or.inl hknows
          | readingKey member =>
              obtain ⟨-, rfl⟩ := await_eq_some.mp h
              split at hknows
              · exact Or.inl hknows
              · cases hknows
          | begun =>
              simp only [body, fieldMessage] at h
              split at h
              · obtain ⟨-, rfl⟩ : w = w' ∧ Progress.readingMembership = progress' := by simpa using h
                cases hknows
              · obtain ⟨-, rfl⟩ := returned_eq_some.mp h
                cases hknows
          | keyRead member belongs =>
              simp only [body, fieldMessage, answerField, acquireLock] at h
              split_ifs at h
              all_goals
                obtain ⟨-, rfl⟩ := returned_eq_some.mp h
                cases hknows
          | _ => cases h
      | _ => cases hmember
  | update resource projectId id text userId' token =>
      obtain rfl : userId' = userId := Option.some.inj hmember
      cases progress with
      | begun =>
          simp only [body, update, validateLease] at h
          split at h
          · obtain ⟨-, rfl⟩ : w = w' ∧ Progress.readingMembership = progress' := by simpa using h
            cases hknows
          · obtain ⟨-, rfl⟩ := threw_eq_some.mp h
            cases hknows
      | authorized | operating target => exact Or.inl rfl
      | _ =>
          simp only [body, update] at h
          exact findById_knows h hknows
  | remove resource projectId id userId' token =>
      obtain rfl : userId' = userId := Option.some.inj hmember
      cases progress with
      | begun =>
          obtain ⟨-, rfl⟩ : w = w' ∧ Progress.readingMembership = progress' := by simpa [body, remove] using h
          cases hknows
      | authorized | operating target | written target => exact Or.inl rfl
      | _ =>
          simp only [body, remove] at h
          exact findById_knows h hknows
  | chatCreate projectId userId' content randomUUID =>
      obtain rfl : userId' = userId := Option.some.inj hmember
      cases progress with
      | begun =>
          obtain ⟨-, rfl⟩ : w = w' ∧ Progress.readingMembership = progress' := by simpa [body, chatCreate] using h
          cases hknows
      | readingMembership =>
          obtain ⟨-, rfl⟩ := await_eq_some.mp h
          split at hknows
          · exact Or.inr hknows
          · cases hknows
      | membershipRead member =>
          simp only [body, chatCreate] at h
          split at h
          · rename_i hsome
            exact Or.inl hsome
          · obtain ⟨-, rfl⟩ := threw_eq_some.mp h
            cases hknows
      | operating target => exact Or.inl rfl
      | _ => cases h
  | chatRemove projectId id userId' =>
      obtain rfl : userId' = userId := Option.some.inj hmember
      cases progress with
      | begun =>
          obtain ⟨-, rfl⟩ : w = w' ∧ Progress.readingMembership = progress' := by simpa [body, chatRemove] using h
          cases hknows
      | readingMembership =>
          obtain ⟨-, rfl⟩ := await_eq_some.mp h
          split at hknows
          · exact Or.inr hknows
          · cases hknows
      | membershipRead member =>
          simp only [body, chatRemove] at h
          split at h
          · rename_i hsome
            exact Or.inl hsome
          · obtain ⟨-, rfl⟩ := threw_eq_some.mp h
            cases hknows
      | readingRow | rowRead found | operating target => exact Or.inl rfl
      | _ => cases h
  | _ => cases hmember

theorem validateLease_validates {projectId : ProjectId} {key : String} {userId : UserId} {token : Option String}
    {next : Progress} (h : w.validateLease projectId key userId token next = some (w', progress'))
    (hinside : progress'.inside) : w.leases.validates w.now projectId key userId token := by
  rw [validateLease] at h
  split at h
  · assumption
  · obtain ⟨-, rfl⟩ := threw_eq_some.mp h
    cases hinside

/-- A body that runs in `withValidatedLease` has passed its first check. -/
theorem validates_of_body {request : Request} {lease : ValidatedLease} (hlease : request.lease = some lease)
    (h : w.body input progress request = some (w', progress')) (hinside : progress'.inside) :
    progress.inside ∨ w.leases.validates w.now lease.projectId lease.key lease.userId lease.token := by
  cases request with
  | withValidatedLease projectId key userId token =>
      cases hlease
      cases progress with
      | begun => exact Or.inr (validateLease_validates h hinside)
      | settled result => cases h
      | _ => exact Or.inl rfl
  | update resource projectId id text userId token =>
      cases hlease
      cases progress with
      | begun => exact Or.inr (validateLease_validates h hinside)
      | settled result => cases h
      | _ => exact Or.inl rfl
  | _ => cases hlease

theorem revalidateLease_validates {key : String} {userId target : UserId} {token : Option String}
    (h : w.revalidateLease key userId token = some (w', .operating target)) :
    w' = w ∧ w.leases.stillValidates w.now key token := by
  rw [revalidateLease] at h
  split at h <;> simp_all

/-- An operation starts with the second check of `withValidatedLease`. -/
theorem stillValidates_of_body {request : Request} {lease : ValidatedLease} {userId : UserId}
    (hlease : request.lease = some lease) (h : w.body input progress request = some (w', .operating userId)) :
    progress = .authorized ∧ w' = w ∧ w.leases.stillValidates w.now lease.key lease.token := by
  cases request with
  | withValidatedLease projectId key userId' token =>
      cases hlease
      cases progress with
      | authorized => exact ⟨rfl, revalidateLease_validates h⟩
      | begun => simp [body, withValidatedLease, validateLease, threw] at h; grind
      | authorizing => simp [body, withValidatedLease, await_eq_some] at h; grind
      | operating target => simp [body, withValidatedLease, returned, threw] at h; grind
      | _ => cases h
  | update resource projectId id text userId' token =>
      cases hlease
      cases progress with
      | authorized => exact ⟨rfl, revalidateLease_validates h⟩
      | begun => simp [body, update, validateLease, threw] at h; grind
      | operating target => simp [body, update, returned, threw] at h; grind
      | readingMembership | readingRow => simp [body, update, findById, await_eq_some] at h; grind
      | membershipRead member | rowRead found => simp [body, update, findById, threw] at h; grind
      | _ => cases h
  | _ => cases hlease

/-- An operation in progress leaves the field locks alone. -/
theorem leases_of_operating {request : Request} {lease : ValidatedLease} {userId : UserId}
    (hlease : request.lease = some lease) (h : w.body input (.operating userId) request = some (w', progress')) :
    w'.leases = w.leases := by
  cases request with
  | withValidatedLease projectId key userId' token =>
      simp only [body, withValidatedLease] at h
      split at h
      · rw [(returned_eq_some.mp h).1]
      · rw [(threw_eq_some.mp h).1]
  | update resource projectId id text userId' token =>
      simp only [body, update] at h
      split at h
      · rw [(threw_eq_some.mp h).1]
      · split at h
        · rw [← (returned_eq_some.mp h).1]
          rfl
        · rw [(threw_eq_some.mp h).1]
  | _ => cases hlease

theorem setMember_of_ne (w : World) {projectId projectId' : ProjectId} {userId userId' : UserId} (role : Option Role)
    (hne : ¬(projectId' = projectId ∧ userId' = userId)) :
    (w.setMember projectId userId role).members projectId' userId' = w.members projectId' userId' := by
  simp only [setMember]
  by_cases hproject : projectId' = projectId
  · subst hproject
    rw [Function.update_self, Function.update_of_ne fun huser => hne ⟨rfl, huser⟩]
  · rw [Function.update_of_ne hproject]

theorem setMember_self (w : World) (projectId : ProjectId) (userId : UserId) (role : Option Role) :
    (w.setMember projectId userId role).members projectId userId = role := by
  simp only [setMember, Function.update_self]

/-- A write changes one membership only. -/
theorem eq_of_setMember_ne (w : World) {projectId projectId' : ProjectId} {userId userId' : UserId} {role : Option Role}
    (hne : (w.setMember projectId userId role).members projectId' userId' ≠ w.members projectId' userId') :
    projectId = projectId' ∧ userId = userId' := by
  by_contra hother
  exact hne (setMember_of_ne w role fun heq => hother ⟨heq.1.symm, heq.2.symm⟩)

/-- The turn that brings `removeMember` to `written` is its delete. -/
theorem removed_of_body {projectId : ProjectId} {userId requestingUserId target : UserId}
    (h : w.body input progress (.removeMember projectId userId requestingUserId) = some (w', .written target)) :
    (w.members projectId userId).isSome ∧ w'.members projectId userId = none := by
  cases progress with
  | operating target =>
      simp only [body, removeMember] at h
      split at h
      · rename_i hfound
        obtain ⟨rfl, -⟩ := Prod.mk.inj (Option.some.inj h)
        exact ⟨hfound.2, setMember_self ..⟩
      · simp at h
  | readingMembership | readingTarget role target => simp [body, removeMember] at h; grind
  | membershipRead member =>
      cases member <;> simp only [body, removeMember] at h
      · simp at h
      · split_ifs at h <;> simp at h
  | targetRead role target member =>
      cases member <;> simp only [body, removeMember] at h
      · simp at h
      · split_ifs at h <;> simp at h
  | written target =>
      simp only [body, removeMember] at h
      split at h <;> simp at h
  | _ => cases h

/-! ### What an effect leaves alone -/

theorem Effect.members_eq {request : Request} (h : Effect w request progress w') {projectId : ProjectId}
    (hshared : request.resourceKey.isSome ∨ request.projectId ≠ projectId) :
    w'.members projectId = w.members projectId := by
  cases h with
  | memberAdded hexclusive | roleChanged hexclusive hold =>
      have hne : projectId ≠ request.projectId := by
        rintro rfl
        simp [hexclusive] at hshared
      exact Function.update_of_ne hne ..
  | memberRemoved projectId' userId requestingUserId =>
      have hne : projectId ≠ projectId' := by
        rintro rfl
        simp [Request.resourceKey, Request.projectId] at hshared
      exact Function.update_of_ne hne ..
  | acquired client projectId' key randomUUID hfresh =>
      simp only [afterAcquire]
      split <;> split <;> rfl
  | _ => rfl

@[simp] theorem afterAcquire_leases (randomUUID : String) (acquire : AcquireFieldLockInput)
    (result : Leases × AcquireFieldLockResult × Option ReleasedFieldLock) :
    (w.afterAcquire randomUUID acquire result).leases = result.1 := by
  simp only [afterAcquire]
  split <;> split <;> rfl

theorem afterAcquire_issued (randomUUID : String) (acquire : AcquireFieldLockInput)
    (result : Leases × AcquireFieldLockResult × Option ReleasedFieldLock) :
    (w.afterAcquire randomUUID acquire result).issued =
      if result.2.1.token = some randomUUID then
        Function.update w.issued randomUUID (some ⟨acquire.key, acquire.userId, acquire.projectId⟩)
      else w.issued := by
  simp only [afterAcquire]
  split <;> split <;> rfl

/-- The lease of a key changes under that key's lock or, when it is the project's, under the
project's. -/
theorem Effect.get_leases {request : Request} (h : Effect w request progress w') (key : String) :
    OrderedMap.get w'.leases key = OrderedMap.get w.leases key ∨ request.resourceKey = some key ∨
      (request.resourceKey = none ∧
        ∃ lease, OrderedMap.get w.leases key = some lease ∧ lease.projectId = request.projectId) := by
  cases h with
  | leases emissions hkey hshrinks =>
      rename_i changed leases
      by_cases heq : key = changed
      · exact Or.inr (Or.inl (heq ▸ hkey))
      · exact Or.inl (hshrinks.agree key heq)
  | acquired client projectId changed randomUUID hfresh =>
      by_cases heq : key = changed
      · exact Or.inr (Or.inl (heq ▸ rfl))
      · rw [afterAcquire_leases]
        exact Or.inl (Leases.agreeExcept_acquire w.leases w.now randomUUID (lockInput client projectId changed) key heq)
  | removalCompleted projectId userId requestingUserId target =>
      cases hget : OrderedMap.get w.leases key with
      | none => exact Or.inl (OrderedMap.get_filter_of_none hget)
      | some lease =>
          by_cases hproject : lease.projectId = projectId
          · exact Or.inr (Or.inr ⟨rfl, lease, rfl, hproject⟩)
          · exact Or.inl (OrderedMap.get_filter_of_get hget (by simp [hproject]))
  | _ => exact Or.inl rfl

theorem Effect.issued {request : Request} (h : Effect w request progress w') {token : String} {claim : LeaseClaim}
    (hissued : w.issued token = some claim) : w'.issued token = some claim := by
  cases h with
  | acquired client projectId key randomUUID hfresh =>
      rw [afterAcquire_issued]
      split
      · have hne : token ≠ randomUUID := by
          rintro rfl
          simp [fresh, hissued] at hfresh
        rwa [Function.update_of_ne hne]
      · exact hissued
  | _ => exact hissued

/-- A lease that was not there before belongs to the body's own member. -/
theorem Effect.mem_leases {request : Request} (h : Effect w request progress w') {entry : String × FieldLockLease}
    (hentry : entry ∈ w'.leases) :
    (∃ old ∈ w.leases, old.1 = entry.1 ∧ old.2.grant = entry.2.grant) ∨
      (request.member = some entry.2.userId ∧ request.projectId = entry.2.projectId ∧ progress.knowsMember ∧
        w'.issued entry.2.token = some ⟨entry.1, entry.2.userId, entry.2.projectId⟩) := by
  cases h with
  | leases emissions hkey hshrinks => exact Or.inl (hshrinks.derives entry hentry)
  | acquired client projectId key randomUUID hfresh =>
      rw [afterAcquire_leases] at hentry
      rcases Leases.mem_acquire hentry with hold | ⟨rfl, htoken, -⟩
      · exact Or.inl hold
      · refine Or.inr ⟨rfl, rfl, rfl, ?_⟩
        rw [afterAcquire_issued, if_pos htoken]
        exact Function.update_self ..
  | removalCompleted projectId userId requestingUserId target =>
      exact Or.inl ⟨entry, (Leases.mem_releaseUserInProject.mp hentry).1, rfl, rfl⟩
  | _ => exact Or.inl ⟨entry, hentry, rfl, rfl⟩

/-- Every lease has a token that was generated for its key, user and project. -/
def LeasesIssued (w : World) : Prop :=
  ∀ entry ∈ w.leases, w.issued entry.2.token = some ⟨entry.1, entry.2.userId, entry.2.projectId⟩

theorem Effect.leasesIssued {request : Request} (h : Effect w request progress w') (hissued : w.LeasesIssued) :
    w'.LeasesIssued := by
  intro entry hentry
  rcases h.mem_leases hentry with ⟨old, hold, hkey, hgrant⟩ | ⟨-, -, -, hnew⟩
  · obtain ⟨htoken, huser, hproject, -⟩ := FieldLockLease.of_grant_eq hgrant
    rw [← htoken, ← hkey, ← huser, ← hproject]
    exact h.issued (hissued old hold)
  · exact hnew

end World

end Transcendence.Realtime
