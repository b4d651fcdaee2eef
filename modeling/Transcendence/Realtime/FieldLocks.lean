import Transcendence.Base.OrderedMap

/-!
# The field lock table

The synchronous methods of `FieldLockManager`. They run within one turn of the event loop, so each
is a function of the table and of one reading `now` of `Date.now()`. Where a method calls the
expiration handler, the released lock is part of its result. `randomUUID` is a parameter of
`acquire`: the token to use if a new lease is made.
-/

namespace Transcendence.Realtime

abbrev UserId := String
abbrev SocketId := String

structure FieldLock where
  userId : UserId
  username : String
  avatarUrl : Option String
  projectId : String
  socketId : SocketId
  expiresAt : Nat
  deriving DecidableEq, Repr

structure FieldLockLease extends FieldLock where
  token : String
  deriving DecidableEq, Repr

/-- A lease without its expiry, which is all that changes while it lives. -/
def FieldLockLease.grant (lease : FieldLockLease) : FieldLockLease := { lease with expiresAt := 0 }

theorem FieldLockLease.of_grant_eq {lease other : FieldLockLease} (h : lease.grant = other.grant) :
    lease.token = other.token ∧ lease.userId = other.userId ∧ lease.projectId = other.projectId ∧
      lease.socketId = other.socketId := by
  simp only [grant, FieldLockLease.mk.injEq, FieldLock.mk.injEq] at h
  exact ⟨h.2, h.1.1, h.1.2.2.2.1, h.1.2.2.2.2.1⟩

structure AcquireFieldLockInput where
  key : String
  userId : UserId
  username : String
  avatarUrl : Option String
  projectId : String
  socketId : SocketId
  deriving DecidableEq, Repr

structure AcquireFieldLockResult where
  acquired : Bool
  lock : Option FieldLock
  token : Option String
  deriving DecidableEq, Repr

structure ReleasedFieldLock where
  key : String
  lock : FieldLock
  deriving DecidableEq, Repr

def FIELD_LOCK_TTL_MS : Nat := 30000

abbrev Leases := OrderedMap String FieldLockLease

namespace Leases

open OrderedMap (get set delete)

def releaseResource (leases : Leases) (key : String) : Leases × Option ReleasedFieldLock :=
  match get leases key with
  | none => (leases, none)
  | some lease => (delete leases key, some ⟨key, lease.toFieldLock⟩)

def releaseIfExpired (leases : Leases) (now : Nat) (key : String) : Leases × Option ReleasedFieldLock :=
  match get leases key with
  | none => (leases, none)
  | some lease => if lease.expiresAt > now then (leases, none) else releaseResource leases key

/-- `acquire` on a table from which an expired lease for the key has been removed. -/
def acquireFresh (leases : Leases) (now : Nat) (randomUUID : String) (input : AcquireFieldLockInput) :
    Leases × AcquireFieldLockResult :=
  match get leases input.key with
  | some existing =>
      if existing.socketId ≠ input.socketId then (leases, ⟨false, some existing.toFieldLock, none⟩)
      else
        let extended := { existing with expiresAt := now + FIELD_LOCK_TTL_MS }
        (set leases input.key extended, ⟨true, some extended.toFieldLock, some extended.token⟩)
  | none =>
      let lease : FieldLockLease :=
        { userId := input.userId, username := input.username, avatarUrl := input.avatarUrl
          projectId := input.projectId, socketId := input.socketId
          expiresAt := now + FIELD_LOCK_TTL_MS, token := randomUUID }
      (set leases input.key lease, ⟨true, some lease.toFieldLock, some lease.token⟩)

/-- The new table, the answer, and the expired lease that was in the way. -/
def acquire (leases : Leases) (now : Nat) (randomUUID : String) (input : AcquireFieldLockInput) :
    Leases × AcquireFieldLockResult × Option ReleasedFieldLock :=
  let expired := releaseIfExpired leases now input.key
  let result := acquireFresh expired.1 now randomUUID input
  (result.1, result.2, expired.2)

/-- Whether the lease was renewed, and the lock handed to the expiration handler if it had expired. -/
def renew (leases : Leases) (now : Nat) (key : String) (socketId : SocketId) (token : String) :
    Leases × Option FieldLock × Option ReleasedFieldLock :=
  match get leases key with
  | none => (leases, none, none)
  | some lease =>
      if lease.socketId ≠ socketId ∨ lease.token ≠ token then (leases, none, none)
      else if lease.expiresAt ≤ now then
        ((releaseResource leases key).1, none, (releaseResource leases key).2)
      else
        let extended := { lease with expiresAt := now + FIELD_LOCK_TTL_MS }
        (set leases key extended, some extended.toFieldLock, none)

def release (leases : Leases) (key : String) (socketId : SocketId) : Leases × Option ReleasedFieldLock :=
  match get leases key with
  | none => (leases, none)
  | some lease => if lease.socketId ≠ socketId then (leases, none) else releaseResource leases key

def releaseUserInProject (leases : Leases) (userId : UserId) (projectId : String) :
    Leases × List ReleasedFieldLock :=
  let held := fun entry : String × FieldLockLease => entry.2.userId = userId ∧ entry.2.projectId = projectId
  (leases.filter fun entry => ¬ held entry,
    (leases.filter held).map fun entry => ⟨entry.1, entry.2.toFieldLock⟩)

/-- The snapshot `releaseSocket` goes through. -/
def ofSocket (leases : Leases) (socketId : SocketId) : List (String × FieldLockLease) :=
  leases.filter (·.2.socketId = socketId)

/-- The snapshot `releaseExpiredLeases` goes through. -/
def expired (leases : Leases) (now : Nat) : List (String × FieldLockLease) :=
  leases.filter (·.2.expiresAt ≤ now)

/-- The body `releaseExpiredLeases` runs for each entry of its snapshot. -/
def releaseStillExpired (leases : Leases) (now : Nat) (key : String) : Leases × Option ReleasedFieldLock :=
  match get leases key with
  | none => (leases, none)
  | some lease => if lease.expiresAt > now then (leases, none) else releaseResource leases key

/-- The first check of `withValidatedLease`. -/
def validates (leases : Leases) (now : Nat) (projectId key : String) (userId : UserId) (token : Option String) : Bool :=
  match get leases key with
  | none => false
  | some lease =>
      lease.userId = userId ∧ lease.projectId = projectId ∧ token = some lease.token ∧ now < lease.expiresAt

/-- The second check of `withValidatedLease`, after `authorize`. -/
def stillValidates (leases : Leases) (now : Nat) (key : String) (token : Option String) : Bool :=
  match get leases key with
  | none => false
  | some lease => token = some lease.token ∧ now < lease.expiresAt

/-- Whether `assertLeaseOwnerIfLocked` returns rather than throws, with the table it leaves. -/
def assertLeaseOwnerIfLocked (leases : Leases) (now : Nat) (projectId key : String) (userId : UserId)
    (token : Option String) : Bool × Leases × Option ReleasedFieldLock :=
  match get leases key with
  | none => (true, leases, none)
  | some lease =>
      if lease.expiresAt ≤ now then (true, (releaseResource leases key).1, (releaseResource leases key).2)
      else
        (decide (lease.userId = userId ∧ lease.projectId = projectId ∧ token = some lease.token), leases, none)

/-! ### What a method can do to the table

Every method works on the entry of one key, and only `acquire` makes a lease: all others remove
leases or prolong them. -/

/-- The tables agree on every other key. -/
def AgreeExcept (key : String) (leases after : Leases) : Prop := ∀ other, other ≠ key → get after other = get leases other

/-- Every lease of the second table is one of the first, up to its expiry. -/
def Derives (leases after : Leases) : Prop :=
  ∀ entry ∈ after, ∃ old ∈ leases, old.1 = entry.1 ∧ old.2.grant = entry.2.grant

theorem Derives.rfl {leases : Leases} : Derives leases leases := fun entry h => ⟨entry, h, Eq.refl _, Eq.refl _⟩

theorem Derives.of_subset {leases after : Leases} (h : ∀ entry ∈ after, entry ∈ leases) : Derives leases after :=
  fun entry hentry => ⟨entry, h entry hentry, Eq.refl _, Eq.refl _⟩

theorem Derives.extend {leases : Leases} {key : String} {lease extended : FieldLockLease}
    (hget : get leases key = some lease) (hgrant : lease.grant = extended.grant) :
    Derives leases (set leases key extended) := by
  intro entry hentry
  rcases OrderedMap.mem_of_mem_set hentry with hold | rfl
  · exact ⟨entry, hold, Eq.refl _, Eq.refl _⟩
  · exact ⟨(key, lease), OrderedMap.mem_of_get hget, Eq.refl _, hgrant⟩

theorem agreeExcept_delete (leases : Leases) (key : String) : AgreeExcept key leases (delete leases key) :=
  fun _ hne => OrderedMap.get_delete_of_ne leases hne

theorem agreeExcept_set (leases : Leases) (key : String) (lease : FieldLockLease) :
    AgreeExcept key leases (set leases key lease) :=
  fun _ hne => OrderedMap.get_set_of_ne leases lease hne

theorem AgreeExcept.trans {key : String} {leases middle after : Leases} (h : AgreeExcept key leases middle)
    (h' : AgreeExcept key middle after) : AgreeExcept key leases after :=
  fun other hne => (h' other hne).trans (h other hne)

theorem Derives.trans {leases middle after : Leases} (h : Derives leases middle) (h' : Derives middle after) :
    Derives leases after := by
  intro entry hentry
  obtain ⟨old, hold, hkey, hgrant⟩ := h' entry hentry
  obtain ⟨older, holder, hkey', hgrant'⟩ := h old hold
  exact ⟨older, holder, hkey'.trans hkey, hgrant'.trans hgrant⟩

/-- A change of one key's entry that makes no lease. -/
structure Shrinks (key : String) (leases after : Leases) : Prop where
  agree : AgreeExcept key leases after
  derives : Derives leases after

theorem Shrinks.rfl {key : String} {leases : Leases} : Shrinks key leases leases := ⟨fun _ _ => Eq.refl _, .rfl⟩

theorem shrinks_delete (leases : Leases) (key : String) : Shrinks key leases (delete leases key) :=
  ⟨agreeExcept_delete leases key, .of_subset fun _ => OrderedMap.mem_of_mem_delete⟩

theorem shrinks_releaseResource (leases : Leases) (key : String) :
    Shrinks key leases (releaseResource leases key).1 := by
  rw [releaseResource]
  split
  · exact .rfl
  · exact shrinks_delete leases key

theorem shrinks_releaseIfExpired (leases : Leases) (now : Nat) (key : String) :
    Shrinks key leases (releaseIfExpired leases now key).1 := by
  rw [releaseIfExpired]
  split
  · exact .rfl
  · split
    · exact .rfl
    · exact shrinks_releaseResource leases key

theorem shrinks_release (leases : Leases) (key : String) (socketId : SocketId) :
    Shrinks key leases (release leases key socketId).1 := by
  rw [release]
  split
  · exact .rfl
  · split
    · exact .rfl
    · exact shrinks_releaseResource leases key

theorem shrinks_renew (leases : Leases) (now : Nat) (key : String) (socketId : SocketId) (token : String) :
    Shrinks key leases (renew leases now key socketId token).1 := by
  rw [renew]
  split
  · exact .rfl
  · rename_i hget
    split
    · exact .rfl
    · split
      · exact shrinks_releaseResource leases key
      · exact ⟨agreeExcept_set leases key _, .extend hget (Eq.refl _)⟩

theorem shrinks_assertLeaseOwnerIfLocked (leases : Leases) (now : Nat) (projectId key : String) (userId : UserId)
    (token : Option String) :
    Shrinks key leases (assertLeaseOwnerIfLocked leases now projectId key userId token).2.1 := by
  rw [assertLeaseOwnerIfLocked]
  split
  · exact .rfl
  · split
    · exact shrinks_releaseResource leases key
    · exact .rfl

theorem agreeExcept_acquire (leases : Leases) (now : Nat) (randomUUID : String) (input : AcquireFieldLockInput) :
    AgreeExcept input.key leases (acquire leases now randomUUID input).1 := by
  refine (shrinks_releaseIfExpired leases now input.key).agree.trans ?_
  rw [acquire, acquireFresh]
  split
  · split
    · exact fun _ _ => Eq.refl _
    · exact agreeExcept_set _ input.key _
  · exact agreeExcept_set _ input.key _

/-- A lease `acquire` makes has the new token and the data of its input; all others were there
before. -/
theorem mem_acquire {leases : Leases} {now : Nat} {randomUUID : String} {input : AcquireFieldLockInput}
    {entry : String × FieldLockLease} (h : entry ∈ (acquire leases now randomUUID input).1) :
    (∃ old ∈ leases, old.1 = entry.1 ∧ old.2.grant = entry.2.grant) ∨
      (entry = (input.key, ⟨⟨input.userId, input.username, input.avatarUrl, input.projectId, input.socketId,
          now + FIELD_LOCK_TTL_MS⟩, randomUUID⟩) ∧
        (acquire leases now randomUUID input).2.1.token = some randomUUID ∧
        (acquire leases now randomUUID input).2.1.acquired = true) := by
  have hshrinks := shrinks_releaseIfExpired leases now input.key
  rw [acquire, acquireFresh] at h ⊢
  cases hget : get (releaseIfExpired leases now input.key).1 input.key with
  | some existing =>
      simp only [hget] at h
      split at h
      · exact Or.inl (hshrinks.derives entry h)
      · have hextend : Derives (releaseIfExpired leases now input.key).1
            (set (releaseIfExpired leases now input.key).1 input.key
              { existing with expiresAt := now + FIELD_LOCK_TTL_MS }) := .extend hget (Eq.refl _)
        exact Or.inl (hshrinks.derives.trans hextend entry h)
  | none =>
      simp only [hget] at h ⊢
      rcases OrderedMap.mem_of_mem_set h with hold | rfl
      · exact Or.inl (hshrinks.derives entry hold)
      · exact Or.inr ⟨Eq.refl _, trivial, trivial⟩

theorem mem_releaseUserInProject {leases : Leases} {userId : UserId} {projectId : String}
    {entry : String × FieldLockLease} :
    entry ∈ (releaseUserInProject leases userId projectId).1 ↔
      entry ∈ leases ∧ ¬(entry.2.userId = userId ∧ entry.2.projectId = projectId) := by
  simp only [releaseUserInProject, List.mem_filter, decide_eq_true_eq]

end Leases

end Transcendence.Realtime
