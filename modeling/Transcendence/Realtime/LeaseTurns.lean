import Transcendence.Realtime.ServerInvariant

/-!
# What a turn does to the lease of a key and says about it

`Effect` forgets which lease a body removes and what its caller will emit. `LeaseTurn` keeps both: a
turn leaves the table alone, removes one key's lease and says so at once or when the call has
returned, prolongs a lease, acquires one for a connected socket, or removes all leases of a user in
a project. The events of a turn and the emissions of its result are listed with it, so the accounts
of the later modules are case splits on six cases.
-/

namespace Transcendence.Realtime

open OrderedMap (get set delete UniqueKeys)

/-! ### Events about a key -/

def Emission.key : Emission → String
  | fieldLocked _ key _ => key
  | fieldUnlocked _ key => key

/-- The socket that holds the key after the event. -/
def Emission.holder : Emission → Option SocketId
  | fieldLocked _ _ lock => some lock.socketId
  | fieldUnlocked _ _ => none

/-- What the caller of a body will emit. -/
def Progress.emissions : Progress → List Emission
  | settled result => Server.emissions result
  | _ => []

/-- The emitted events, newest first. -/
def World.emitted (w : World) : List Emission :=
  w.history.filterMap fun
    | .emitted emission => some emission
    | _ => none

theorem World.emitted_record (w : World) (emissions : List Emission) :
    (w.record (emissions.map .emitted)).emitted = emissions.reverse ++ w.emitted := by
  rw [emitted, record, List.filterMap_append, ← emitted, ← List.map_reverse, List.filterMap_map]
  congr 1
  exact List.filterMap_some

namespace Leases

/-- A method that may remove the lease of one key. -/
inductive Removes (key : String) (leases : Leases) : Leases → Option ReleasedFieldLock → Prop where
  | keeps : Removes key leases leases none
  | removes (lease : FieldLockLease) (hget : get leases key = some lease) :
      Removes key leases (delete leases key) (some ⟨key, lease.toFieldLock⟩)

theorem removes_releaseResource (leases : Leases) (key : String) :
    Removes key leases (releaseResource leases key).1 (releaseResource leases key).2 := by
  rw [releaseResource]
  split
  · exact .keeps
  · rename_i lease hget
    exact .removes lease hget

theorem removes_releaseIfExpired (leases : Leases) (now : Nat) (key : String) :
    Removes key leases (releaseIfExpired leases now key).1 (releaseIfExpired leases now key).2 := by
  rw [releaseIfExpired]
  split
  · exact .keeps
  · split
    · exact .keeps
    · exact removes_releaseResource leases key

theorem removes_release (leases : Leases) (key : String) (socketId : SocketId) :
    Removes key leases (release leases key socketId).1 (release leases key socketId).2 := by
  rw [release]
  split
  · exact .keeps
  · split
    · exact .keeps
    · exact removes_releaseResource leases key

theorem removes_assertLeaseOwnerIfLocked (leases : Leases) (now : Nat) (projectId key : String) (userId : UserId)
    (token : Option String) :
    Removes key leases (assertLeaseOwnerIfLocked leases now projectId key userId token).2.1
      (assertLeaseOwnerIfLocked leases now projectId key userId token).2.2 := by
  rw [assertLeaseOwnerIfLocked]
  split
  · exact .keeps
  · split
    · exact removes_releaseResource leases key
    · exact .keeps

theorem Removes.uniqueKeys {key : String} {leases after : Leases} {released : Option ReleasedFieldLock}
    (h : Removes key leases after released) (hunique : UniqueKeys leases) : UniqueKeys after := by
  cases h with
  | keeps => exact hunique
  | removes => exact OrderedMap.uniqueKeys_delete hunique key

theorem Removes.get_of_get {key other : String} {leases after : Leases} {released : Option ReleasedFieldLock}
    (h : Removes key leases after released) {lease : FieldLockLease} (hget : get after other = some lease) :
    get leases other = some lease := by
  cases h with
  | keeps => exact hget
  | removes =>
      by_cases heq : other = key
      · rw [heq, OrderedMap.get_delete_self] at hget
        cases hget
      · rwa [OrderedMap.get_delete_of_ne leases heq] at hget

end Leases

/-! ### The turns -/

inductive LeaseTurn (w : World) : Request → World → Progress → Prop where
  | silent {request : Request} {w' : World} {progress' : Progress} (hleases : w'.leases = w.leases)
      (hsaid : w'.emitted = w.emitted) (hemissions : progress'.emissions = []) : LeaseTurn w request w' progress'
  | expires {request : Request} {w' : World} {progress' : Progress} (key : String) (released : Option ReleasedFieldLock)
      (hremoves : Leases.Removes key w.leases w'.leases released)
      (hsaid : w'.emitted = (released.map emitFieldUnlock).toList ++ w.emitted)
      (hemissions : progress'.emissions = []) : LeaseTurn w request w' progress'
  | releases {request : Request} {w' : World} {progress' : Progress} (key : String) (released : Option ReleasedFieldLock)
      (hremoves : Leases.Removes key w.leases w'.leases released) (hsaid : w'.emitted = w.emitted)
      (hemissions : progress'.emissions = (released.map emitFieldUnlock).toList) : LeaseTurn w request w' progress'
  | prolongs {request : Request} {w' : World} {progress' : Progress} (key : String) (lease : FieldLockLease)
      (expiresAt : Nat) (hget : get w.leases key = some lease)
      (hleases : w'.leases = set w.leases key { lease with expiresAt }) (hsaid : w'.emitted = w.emitted)
      (hemissions : progress'.emissions = []) : LeaseTurn w request w' progress'
  /-- An expired lease goes first; then the key has a lease of the client, or of somebody else. -/
  | acquires (client : Socket) (projectId : ProjectId) (key : String) {w' : World} {progress' : Progress}
      (hconnected : w.connected client) (middle : Leases) (released : Option ReleasedFieldLock)
      (hremoves : Leases.Removes key w.leases middle released)
      (hsaid : w'.emitted = (released.map emitFieldUnlock).toList ++ w.emitted)
      (hanswer : (w'.leases = middle ∧ progress'.emissions = []) ∨
        ∃ lease : FieldLockLease, lease.socketId = client.id ∧ w'.leases = set middle key lease ∧
          progress'.emissions = [.fieldLocked projectId key lease.toFieldLock]) :
      LeaseTurn w (.field .lock client projectId key) w' progress'
  | removesUser (projectId : ProjectId) (userId requestingUserId : UserId) {w' : World} {progress' : Progress}
      (hleases : w'.leases = (w.leases.releaseUserInProject userId projectId).1)
      (hsaid : w'.emitted =
        ((w.leases.releaseUserInProject userId projectId).2.map emitFieldUnlock).reverse ++ w.emitted)
      (hemissions : progress'.emissions = []) :
      LeaseTurn w (.removeMember projectId userId requestingUserId) w' progress'

namespace LeaseTurn

variable {w w' : World} {request : Request} {progress progress' : Progress} {input : Input}

/-- A turn that changes nothing and has nothing to say. -/
theorem of_eq (hworld : w = w') (hemissions : progress'.emissions = []) : LeaseTurn w request w' progress' := by
  subst hworld
  exact .silent rfl rfl hemissions

theorem of_threw (h : w.threw = some (w', progress')) : LeaseTurn w request w' progress' := by
  obtain ⟨rfl, rfl⟩ := World.threw_eq_some.mp h
  exact .silent rfl rfl rfl

theorem of_returned (h : w.returned = some (w', progress')) : LeaseTurn w request w' progress' := by
  obtain ⟨rfl, rfl⟩ := World.returned_eq_some.mp h
  exact .silent rfl rfl rfl

theorem of_await {next : Progress} (hnext : next.emissions = []) (h : w.await input next = some (w', progress')) :
    LeaseTurn w request w' progress' := by
  obtain ⟨rfl, rfl⟩ := World.await_eq_some.mp h
  refine .silent rfl rfl ?_
  split
  · exact hnext
  · rfl

/-- An expired lease is removed and announced within the turn. -/
theorem of_withLeases {key : String} {result : Leases × Option ReleasedFieldLock}
    (hremoves : Leases.Removes key w.leases result.1 result.2) (hworld : w.withLeases result = w')
    (hemissions : progress'.emissions = []) : LeaseTurn w request w' progress' := by
  subst hworld
  refine .expires key result.2 hremoves ?_ hemissions
  have hemitted := World.emitted_record { w with leases := result.1 } (result.2.map emitFieldUnlock).toList
  rw [Option.toList_map, List.map_map] at hemitted
  rw [World.withLeases, hemitted]
  cases result.2 <;> rfl

/-- The lease is removed now and announced by the caller. -/
theorem of_released {key : String} {result : Leases × Option ReleasedFieldLock}
    (hremoves : Leases.Removes key w.leases result.1 result.2)
    (h : World.returned { w with leases := result.1 } (result.2.map emitFieldUnlock).toList = some (w', progress')) :
    LeaseTurn w request w' progress' := by
  obtain ⟨rfl, rfl⟩ := World.returned_eq_some.mp h
  exact .releases key result.2 hremoves rfl rfl

/-! ### One lemma per body -/

theorem of_acquireLock {client : Socket} {projectId : ProjectId} {key randomUUID : String}
    (hconnected : w.connected client)
    (h : w.acquireLock randomUUID (World.lockInput client projectId key) = some (w', progress')) :
    LeaseTurn w (.field .lock client projectId key) w' progress' := by
  rw [World.acquireLock] at h
  split at h
  · cases h
  obtain ⟨hworld, hprogress⟩ := World.returned_eq_some.mp h
  set acquired := w.leases.acquire w.now randomUUID (World.lockInput client projectId key) with hacquired
  have hleases : w'.leases = acquired.1 := by rw [← hworld, World.afterAcquire_leases]
  have hsaid : w'.emitted = (acquired.2.2.map emitFieldUnlock).toList ++ w.emitted := by
    have hemitted := World.emitted_record { w with leases := acquired.1 } (acquired.2.2.map emitFieldUnlock).toList
    rw [Option.toList_map, List.map_map] at hemitted
    have hnow : (w.withLeases (acquired.1, acquired.2.2)).emitted =
        (acquired.2.2.map emitFieldUnlock).toList ++ w.emitted := by
      rw [World.withLeases, hemitted]
      cases acquired.2.2 <;> rfl
    rw [← hnow, ← hworld, World.afterAcquire]
    split <;> split <;> rfl
  have hremoves := Leases.removes_releaseIfExpired w.leases w.now key
  refine .acquires client projectId key hconnected (w.leases.releaseIfExpired w.now key).1 acquired.2.2 hremoves hsaid ?_
  rw [hleases, ← hprogress]
  have hfresh : acquired.1 = ((w.leases.releaseIfExpired w.now key).1.acquireFresh w.now randomUUID
        (World.lockInput client projectId key)).1 ∧
      acquired.2.1 = ((w.leases.releaseIfExpired w.now key).1.acquireFresh w.now randomUUID
        (World.lockInput client projectId key)).2 := ⟨rfl, rfl⟩
  rw [Leases.acquireFresh, show (World.lockInput client projectId key).key = key from rfl] at hfresh
  cases hget : get (w.leases.releaseIfExpired w.now key).1 key with
  | none =>
      rw [hget] at hfresh
      obtain ⟨hfirst, hsecond⟩ := hfresh
      rw [hfirst, hsecond]
      exact Or.inr ⟨_, rfl, rfl, rfl⟩
  | some existing =>
      rw [hget] at hfresh
      by_cases hother : existing.socketId ≠ (World.lockInput client projectId key).socketId
      · simp only [if_pos hother] at hfresh
        obtain ⟨hfirst, hsecond⟩ := hfresh
        rw [hfirst, hsecond]
        exact Or.inl ⟨rfl, rfl⟩
      · simp only [if_neg hother] at hfresh
        obtain ⟨hfirst, hsecond⟩ := hfresh
        rw [hfirst, hsecond]
        rw [ne_eq, not_not] at hother
        exact Or.inr ⟨{ existing with expiresAt := w.now + FIELD_LOCK_TTL_MS }, hother, rfl, rfl⟩

theorem of_answerField {message : FieldMessage} {client : Socket} {projectId : ProjectId} {key : String}
    {member belongs : Bool}
    (h : w.answerField input message client projectId key member belongs = some (w', progress')) :
    LeaseTurn w (.field message client projectId key) w' progress' := by
  cases message with
  | lock =>
      simp only [World.answerField] at h
      split at h
      · exact of_returned h
      · rename_i hmay
        simp only [Bool.or_eq_true, Bool.not_eq_true', not_or, Bool.not_eq_false] at hmay
        exact of_acquireLock hmay.1.1 h
  | unlock =>
      simp only [World.answerField] at h
      split at h
      · exact of_returned h
      · exact of_released (Leases.removes_release w.leases key client.id) h
  | renew leaseToken =>
      simp only [World.answerField] at h
      split at h
      · exact of_returned h
      · obtain ⟨hworld, rfl⟩ := World.returned_eq_some.mp h
        have hrenew : (Leases.Removes key w.leases (w.leases.renew w.now key client.id leaseToken).1
              (w.leases.renew w.now key client.id leaseToken).2.2) ∨
            ∃ lease, get w.leases key = some lease ∧ (w.leases.renew w.now key client.id leaseToken).1 =
                set w.leases key { lease with expiresAt := w.now + FIELD_LOCK_TTL_MS } ∧
              (w.leases.renew w.now key client.id leaseToken).2.2 = none := by
          rw [Leases.renew]
          split
          · exact Or.inl .keeps
          · rename_i lease hget
            split
            · exact Or.inl .keeps
            · split
              · exact Or.inl (Leases.removes_releaseResource w.leases key)
              · exact Or.inr ⟨lease, hget, rfl, rfl⟩
        rcases hrenew with hremoves | ⟨lease, hget, hleases, hnone⟩
        · exact of_withLeases hremoves hworld rfl
        · subst hworld
          rw [hnone]
          exact .prolongs key lease _ hget hleases rfl rfl
  | query =>
      simp only [World.answerField] at h
      split at h
      · exact of_returned h
      · obtain ⟨hworld, rfl⟩ := World.returned_eq_some.mp h
        exact of_withLeases (Leases.removes_releaseIfExpired w.leases w.now key) hworld rfl

theorem of_fieldMessage {message : FieldMessage} {client : Socket} {projectId : ProjectId} {key : String}
    (h : w.fieldMessage input message client projectId key progress = some (w', progress')) :
    LeaseTurn w (.field message client projectId key) w' progress' := by
  cases progress with
  | keyRead member belongs => exact of_answerField h
  | begun =>
      simp only [World.fieldMessage] at h
      split at h
      · cases h
        exact of_eq rfl rfl
      · exact of_returned h
  | membershipRead member =>
      simp only [World.fieldMessage] at h
      split at h
      · cases h
        exact of_eq rfl rfl
      · exact of_returned h
  | readingMembership | readingKey member => exact of_await rfl h
  | _ => cases h

theorem of_validateLease {projectId : ProjectId} {key : String} {userId : UserId} {token : Option String}
    {next : Progress} (hnext : next.emissions = [])
    (h : w.validateLease projectId key userId token next = some (w', progress')) :
    LeaseTurn w request w' progress' := by
  rw [World.validateLease] at h
  split at h
  · cases h
    exact of_eq rfl hnext
  · obtain ⟨hworld, rfl⟩ := World.threw_eq_some.mp h
    exact of_withLeases (Leases.removes_releaseIfExpired w.leases w.now key) hworld rfl

theorem of_revalidateLease {key : String} {userId : UserId} {token : Option String}
    (h : w.revalidateLease key userId token = some (w', progress')) : LeaseTurn w request w' progress' := by
  rw [World.revalidateLease] at h
  split at h
  · cases h
    exact of_eq rfl rfl
  · exact of_threw h

theorem of_findById {resource : LockableResource} {projectId : ProjectId} {id : String} {userId : UserId}
    (h : w.findById input resource projectId id userId progress = some (w', progress')) :
    LeaseTurn w request w' progress' := by
  cases progress with
  | readingMembership | readingRow => exact of_await rfl h
  | membershipRead member | rowRead found =>
      simp only [World.findById] at h
      split at h
      · cases h
        exact of_eq rfl rfl
      · exact of_threw h
  | _ => cases h

theorem of_withValidatedLease {projectId : ProjectId} {key : String} {userId : UserId} {token : Option String}
    (h : w.withValidatedLease input projectId key userId token progress = some (w', progress')) :
    LeaseTurn w request w' progress' := by
  cases progress with
  | begun => exact of_validateLease rfl h
  | authorizing => exact of_await rfl h
  | authorized => exact of_revalidateLease h
  | operating target =>
      simp only [World.withValidatedLease] at h
      split at h
      · exact of_returned h
      · exact of_threw h
  | _ => cases h

theorem of_update {resource : LockableResource} {projectId : ProjectId} {id text : String} {userId : UserId}
    {token : Option String}
    (h : w.update input resource projectId id text userId token progress = some (w', progress')) :
    LeaseTurn w request w' progress' := by
  cases progress with
  | begun => exact of_validateLease rfl h
  | authorized => exact of_revalidateLease h
  | operating target =>
      simp only [World.update] at h
      split at h
      · exact of_threw h
      · split at h
        · obtain ⟨rfl, rfl⟩ := World.returned_eq_some.mp h
          exact .silent rfl rfl rfl
        · exact of_threw h
  | _ =>
      simp only [World.update] at h
      exact of_findById h

theorem of_remove {resource : LockableResource} {projectId : ProjectId} {id : String} {userId : UserId}
    {token : Option String} (h : w.remove input resource projectId id userId token progress = some (w', progress')) :
    LeaseTurn w request w' progress' := by
  cases progress with
  | begun =>
      cases h
      exact of_eq rfl rfl
  | authorized =>
      have hremoves := Leases.removes_assertLeaseOwnerIfLocked w.leases w.now projectId (resource.key id) userId token
      simp only [World.remove] at h
      split at h
      · obtain ⟨hworld, rfl⟩ := Prod.mk.inj (Option.some.inj h)
        exact of_withLeases hremoves hworld rfl
      · obtain ⟨hworld, rfl⟩ := World.threw_eq_some.mp h
        exact of_withLeases hremoves hworld rfl
  | operating target =>
      simp only [World.remove] at h
      split at h
      · exact of_threw h
      · split at h
        · cases h
          exact of_eq rfl rfl
        · cases h
          exact .silent rfl rfl rfl
  | written target => exact of_released (Leases.removes_releaseResource w.leases (resource.key id)) h
  | _ =>
      simp only [World.remove] at h
      exact of_findById h

theorem of_chatCreate {projectId : ProjectId} {userId : UserId} {content : String}
    (h : w.chatCreate input projectId userId content progress = some (w', progress')) :
    LeaseTurn w request w' progress' := by
  cases progress with
  | begun =>
      cases h
      exact of_eq rfl rfl
  | readingMembership => exact of_await rfl h
  | membershipRead member =>
      simp only [World.chatCreate] at h
      split at h
      · cases h
        exact of_eq rfl rfl
      · exact of_threw h
  | operating target =>
      simp only [World.chatCreate] at h
      split at h
      · obtain ⟨rfl, rfl⟩ := World.returned_eq_some.mp h
        exact .silent rfl rfl rfl
      · exact of_threw h
  | _ => cases h

theorem of_chatRemove {projectId : ProjectId} {id : String} {userId : UserId}
    (h : w.chatRemove input projectId id userId progress = some (w', progress')) :
    LeaseTurn w request w' progress' := by
  cases progress with
  | begun =>
      cases h
      exact of_eq rfl rfl
  | readingMembership | readingRow => exact of_await rfl h
  | membershipRead member | rowRead found =>
      simp only [World.chatRemove] at h
      split at h
      · cases h
        exact of_eq rfl rfl
      · exact of_threw h
  | operating target =>
      simp only [World.chatRemove] at h
      split at h
      · obtain ⟨rfl, rfl⟩ := World.returned_eq_some.mp h
        exact .silent rfl rfl rfl
      · exact of_threw h
  | _ => cases h

theorem of_joinRooms {client : Socket} {projectId : ProjectId}
    (h : w.joinRooms input client projectId progress = some (w', progress')) :
    LeaseTurn w request w' progress' := by
  cases progress with
  | begun =>
      simp only [World.joinRooms] at h
      split at h
      · cases h
        exact of_eq rfl rfl
      · exact of_returned h
  | readingMembership => exact of_await rfl h
  | membershipRead member =>
      simp only [World.joinRooms] at h
      split at h
      · obtain ⟨rfl, rfl⟩ := World.returned_eq_some.mp h
        exact .silent rfl rfl rfl
      · exact of_returned h
  | _ => cases h

theorem of_addMember {projectId : ProjectId} {username : String} {requestingUserId : UserId}
    (h : w.addMember input projectId username requestingUserId progress = some (w', progress')) :
    LeaseTurn w request w' progress' := by
  cases progress with
  | begun =>
      cases h
      exact of_eq rfl rfl
  | readingMembership | readingUser role | readingTarget role userId => exact of_await rfl h
  | membershipRead member =>
      cases member with
      | none => exact of_threw h
      | some role =>
          simp only [World.addMember] at h
          split at h
          · cases h
            exact of_eq rfl rfl
          · exact of_threw h
  | userRead role user =>
      cases user with
      | none => exact of_threw h
      | some userId =>
          cases h
          exact of_eq rfl rfl
  | targetRead role userId target =>
      simp only [World.addMember] at h
      split at h
      · exact of_threw h
      · cases h
        exact of_eq rfl rfl
  | operating userId =>
      simp only [World.addMember] at h
      split at h
      · cases h
        exact .silent rfl rfl rfl
      · exact of_threw h
  | written userId =>
      simp only [World.addMember] at h
      split at h
      · obtain ⟨rfl, rfl⟩ := World.returned_eq_some.mp h
        exact .silent rfl rfl rfl
      · exact of_threw h
  | _ => cases h

theorem of_removeMember {projectId : ProjectId} {userId requestingUserId : UserId}
    (h : w.removeMember input projectId userId requestingUserId progress = some (w', progress')) :
    LeaseTurn w (.removeMember projectId userId requestingUserId) w' progress' := by
  cases progress with
  | begun =>
      cases h
      exact of_eq rfl rfl
  | readingMembership | readingTarget role target => exact of_await rfl h
  | membershipRead member =>
      cases member with
      | none => exact of_threw h
      | some role =>
          simp only [World.removeMember] at h
          split_ifs at h
          all_goals first | exact of_threw h | (cases h; exact of_eq rfl rfl)
  | targetRead role target member =>
      cases member with
      | none => exact of_threw h
      | some memberToRemove =>
          simp only [World.removeMember] at h
          split at h
          · cases h
            exact of_eq rfl rfl
          · exact of_threw h
  | operating target =>
      simp only [World.removeMember] at h
      split at h
      · cases h
        exact .silent rfl rfl rfl
      · exact of_threw h
  | written target =>
      simp only [World.removeMember] at h
      split at h
      · obtain ⟨rfl, rfl⟩ := World.returned_eq_some.mp h
        refine .removesUser projectId userId requestingUserId rfl ?_ rfl
        have hemitted := World.emitted_record
          { w.leaveProjectRoom userId projectId with leases := (w.leases.releaseUserInProject userId projectId).1 }
          ((w.leases.releaseUserInProject userId projectId).2.map emitFieldUnlock)
        rw [List.map_map] at hemitted
        rw [World.afterRemoval, World.emitted, World.record, List.reverse_append, List.append_assoc]
        exact hemitted
      · exact of_threw h
  | _ => cases h

theorem of_updateMemberRole {projectId : ProjectId} {userId requestingUserId : UserId} {newRole : AssignableRole}
    (h : w.updateMemberRole input projectId userId newRole requestingUserId progress = some (w', progress')) :
    LeaseTurn w request w' progress' := by
  cases progress with
  | begun =>
      cases h
      exact of_eq rfl rfl
  | readingMembership | readingTarget role target => exact of_await rfl h
  | membershipRead member | targetRead role target member =>
      cases member with
      | none => exact of_threw h
      | some role =>
          simp only [World.updateMemberRole] at h
          split at h
          · cases h
            exact of_eq rfl rfl
          · exact of_threw h
  | operating target =>
      simp only [World.updateMemberRole] at h
      split at h
      · cases h
        exact .silent rfl rfl rfl
      · exact of_threw h
  | written target =>
      simp only [World.updateMemberRole] at h
      split at h
      · exact of_returned h
      · exact of_threw h
  | _ => cases h

theorem of_body (h : w.body input progress request = some (w', progress')) : LeaseTurn w request w' progress' := by
  cases request with
  | field message client projectId key => exact of_fieldMessage h
  | releaseLease socketId projectId key =>
      cases progress with
      | begun => exact of_released (Leases.removes_release w.leases key socketId) h
      | _ => cases h
  | expireLease projectId key =>
      cases progress with
      | begun => exact of_released (Leases.removes_releaseIfExpired w.leases w.now key) h
      | _ => cases h
  | withValidatedLease projectId key userId token => exact of_withValidatedLease h
  | update resource projectId id text userId token => exact of_update h
  | remove resource projectId id userId token => exact of_remove h
  | chatCreate projectId userId content randomUUID => exact of_chatCreate h
  | chatRemove projectId id userId => exact of_chatRemove h
  | joinRoom client projectId => exact of_joinRooms h
  | addMember projectId username requestingUserId => exact of_addMember h
  | removeMember projectId userId requestingUserId => exact of_removeMember h
  | updateMemberRole projectId userId newRole requestingUserId => exact of_updateMemberRole h

/-! ### What all turns have in common -/

theorem uniqueKeys (h : LeaseTurn w request w' progress') (hunique : UniqueKeys w.leases) : UniqueKeys w'.leases := by
  cases h with
  | silent hleases => rwa [hleases]
  | expires key released hremoves => exact hremoves.uniqueKeys hunique
  | releases key released hremoves => exact hremoves.uniqueKeys hunique
  | prolongs key lease expiresAt hget hleases =>
      rw [hleases]
      exact OrderedMap.uniqueKeys_set hunique key _
  | acquires client projectId key hconnected middle released hremoves hsaid hanswer =>
      have hmiddle := hremoves.uniqueKeys hunique
      rcases hanswer with ⟨hleases, -⟩ | ⟨lease, -, hleases, -⟩
      · rwa [hleases]
      · rw [hleases]
        exact OrderedMap.uniqueKeys_set hmiddle key lease
  | removesUser projectId userId requestingUserId hleases =>
      rw [hleases]
      exact OrderedMap.uniqueKeys_filter hunique _

/-- A key passes to another socket only when that socket is connected. -/
theorem holder_of_get (h : LeaseTurn w request w' progress') (hunique : UniqueKeys w.leases) {key : String}
    {lease : FieldLockLease} (hget : get w'.leases key = some lease) :
    (∃ old, get w.leases key = some old ∧ old.socketId = lease.socketId) ∨
      ∃ client, w.connected client ∧ lease.socketId = client.id := by
  cases h with
  | silent hleases => exact Or.inl ⟨lease, hleases ▸ hget, rfl⟩
  | expires other released hremoves => exact Or.inl ⟨lease, hremoves.get_of_get hget, rfl⟩
  | releases other released hremoves => exact Or.inl ⟨lease, hremoves.get_of_get hget, rfl⟩
  | prolongs other old expiresAt hold hleases =>
      rw [hleases] at hget
      by_cases heq : key = other
      · subst heq
        rw [OrderedMap.get_set_self] at hget
        obtain rfl := Option.some.inj hget
        exact Or.inl ⟨old, hold, rfl⟩
      · rw [OrderedMap.get_set_of_ne w.leases _ heq] at hget
        exact Or.inl ⟨lease, hget, rfl⟩
  | acquires client projectId other hconnected middle released hremoves hsaid hanswer =>
      rcases hanswer with ⟨hleases, -⟩ | ⟨new, hsocket, hleases, -⟩
      · rw [hleases] at hget
        exact Or.inl ⟨lease, hremoves.get_of_get hget, rfl⟩
      · rw [hleases] at hget
        by_cases heq : key = other
        · subst heq
          rw [OrderedMap.get_set_self] at hget
          obtain rfl := Option.some.inj hget
          exact Or.inr ⟨client, hconnected, hsocket⟩
        · rw [OrderedMap.get_set_of_ne middle _ heq] at hget
          exact Or.inl ⟨lease, hremoves.get_of_get hget, rfl⟩
  | removesUser projectId userId requestingUserId hleases =>
      rw [hleases, Leases.releaseUserInProject, OrderedMap.get_filter_eq_some hunique] at hget
      exact Or.inl ⟨lease, hget.1, rfl⟩

end LeaseTurn

end Transcendence.Realtime
