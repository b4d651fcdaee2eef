import Transcendence.Vault.Runtime

/-!
# The Vault runtime of the backend

`VaultRuntimeService` sets a timer for a minute before the first lease ends, and every renewal sets the
next one. When renewing fails it fails for good if a minute or less is left of a lease, and otherwise
sets a timer to try again. Times are in milliseconds.
-/

namespace Transcendence.Vault

/-- An error, as far as it is looked into: the status and the messages of the response, and the message
of an `Error`. -/
structure RequestError where
  statusCode : Option Nat
  errors : List String
  message : Option String
  deriving DecidableEq

def isVaultAuthorizationError (error : RequestError) : Bool :=
  error.statusCode = some statusUnauthorized || error.statusCode = some statusForbidden

def isLineTerminator (c : Char) : Bool :=
  c = '\n' || c = '\r' || c.val = 0x2028 || c.val = 0x2029

/-- What follows the first occurrence of a word on the line. -/
def after (word : List Char) : List Char → Option (List Char)
  | [] => none
  | c :: cs =>
      if word <+: c :: cs then some ((c :: cs).drop word.length)
      else if isLineTerminator c then none
      else after word cs

/-- The words are on the line, in this order. -/
def inOrder : List (List Char) → List Char → Bool
  | [], _ => true
  | word :: words, line => (after word line).any fun rest => inOrder words rest

/-- `/lease.*maximum.*ttl|maximum.*ttl.*lease/i`, which may match from any character on. -/
def matchesLeaseLimit (message : String) : Bool :=
  let text := message.toList.map Char.toLower
  let lease := "lease".toList
  let maximum := "maximum".toList
  let ttl := "ttl".toList
  text.tails.any fun line => inOrder [lease, maximum, ttl] line || inOrder [maximum, ttl, lease] line

def isVaultLeaseRenewalLimit (error : RequestError) : Bool :=
  error.statusCode = some statusBadRequest && error.errors.any matchesLeaseLimit

structure VaultToken where
  leaseDurationMs : Int
  deriving DecidableEq

structure VaultDatabaseCredentials where
  username : String
  password : String
  leaseId : String
  leaseDurationMs : Int
  deriving DecidableEq

def renewalSafetyMarginMs : Int :=
  60000

def retryIntervalMs : Int :=
  15000

/-- What `setTimeout` was called with, and when. -/
structure Timeout where
  setAt : Int
  delay : Int
  deriving DecidableEq

/-- The largest delay that a timer can have. -/
def timeoutMax : Int :=
  2147483647

/-- A delay that is out of range counts as one millisecond. -/
def Timeout.due (timeout : Timeout) : Int :=
  timeout.setAt + if 1 ≤ timeout.delay ∧ timeout.delay ≤ timeoutMax then timeout.delay else 1

/-- `renewalTimer` is a timer that has not fired. `fatal` is what `fatalPromise` is rejected with. -/
structure VaultRuntimeService where
  renewalTimer : Option Timeout
  tokenExpiresAt : Int
  databaseExpiresAt : Int
  databaseCredentials : Option VaultDatabaseCredentials
  roleId : Option String
  secretId : Option String
  ready : Bool
  stopped : Bool
  fatal : Option String
  deriving DecidableEq

/-- What one `renew` is answered, should it ask, and the time that passes between recording the two
leases of a new login, and before the next renewal is scheduled. -/
structure ServiceCalls where
  renewToken : Reply RequestError VaultToken
  renewDatabaseCredentials : VaultDatabaseCredentials → Reply RequestError VaultDatabaseCredentials
  login : String → String → Reply RequestError VaultToken
  issueDatabaseCredentials : Reply RequestError VaultDatabaseCredentials
  databaseRefreshers : VaultDatabaseCredentials → Reply RequestError Unit
  recording : Nat
  scheduling : Nat

/-- A firing of the timer: how late it is, and what the renewal is answered. -/
structure Firing where
  late : Nat
  calls : ServiceCalls

/-- The service and the time it is. -/
structure ServiceProcess where
  now : Int
  service : VaultRuntimeService
  deriving DecidableEq

namespace ServiceProcess

def pass (p : ServiceProcess) (elapsed : Nat) : ServiceProcess :=
  { p with now := p.now + elapsed }

def expiresAt (p : ServiceProcess) : Int :=
  min p.service.tokenExpiresAt p.service.databaseExpiresAt

def setTimeout (p : ServiceProcess) (delay : Int) : ServiceProcess :=
  { p with service.renewalTimer := some ⟨p.now, delay⟩ }

def setToken (p : ServiceProcess) (token : VaultToken) : ServiceProcess :=
  { p with service.tokenExpiresAt := p.now + token.leaseDurationMs }

def setDatabase (p : ServiceProcess) (credentials : VaultDatabaseCredentials) : ServiceProcess :=
  { p with
    service.databaseCredentials := some credentials
    service.databaseExpiresAt := p.now + credentials.leaseDurationMs }

def scheduleRenewal (p : ServiceProcess) : ServiceProcess :=
  if p.service.stopped || !p.service.ready then p
  else p.setTimeout (max 0 (p.expiresAt - p.now - renewalSafetyMarginMs))

def fail (p : ServiceProcess) (error : RequestError) : ServiceProcess :=
  if p.service.stopped || !p.service.ready then p
  else { p with
    service.ready := false
    service.fatal := some (match error.message with
      | some message => "Vault runtime failed closed: " ++ message
      | none => "Vault runtime failed closed") }

/-- A string that is set and not empty. -/
def present (value : Option String) : Option String :=
  value.filter (· ≠ "")

def reauthenticate (p : ServiceProcess) (calls : ServiceCalls) : ServiceProcess × Option RequestError :=
  match present p.service.roleId, present p.service.secretId with
  | some roleId, some secretId =>
      let login := calls.login roleId secretId
      let p := p.pass login.elapsed
      match login.result with
      | .error error => (p, some error)
      | .ok token =>
          let p := p.pass calls.issueDatabaseCredentials.elapsed
          match calls.issueDatabaseCredentials.result with
          | .error error => (p, some error)
          | .ok credentials =>
              let p := p.pass (calls.databaseRefreshers credentials).elapsed
              match (calls.databaseRefreshers credentials).result with
              | .error error => (p, some error)
              | .ok _ =>
                  ((((p.setToken token).pass calls.recording).setDatabase credentials).pass
                    calls.scheduling |>.scheduleRenewal, none)
  | _, _ => (p, some ⟨none, [], some "Vault runtime has no AppRole credentials"⟩)

/-- The end of `renew` with the credentials of the database. -/
def refreshDatabase (p : ServiceProcess) (calls : ServiceCalls) (credentials : VaultDatabaseCredentials) :
    ServiceProcess × Option RequestError :=
  let p := p.pass (calls.databaseRefreshers credentials).elapsed
  match (calls.databaseRefreshers credentials).result with
  | .error error => (p, some error)
  | .ok _ => ((p.setDatabase credentials).pass calls.scheduling |>.scheduleRenewal, none)

/-- What `renew` tries. -/
def tryRenew (p : ServiceProcess) (calls : ServiceCalls) : ServiceProcess × Option RequestError :=
  let p := p.pass calls.renewToken.elapsed
  match calls.renewToken.result with
  | .error _ => p.reauthenticate calls
  | .ok token =>
      let p := p.setToken token
      match p.service.databaseCredentials with
      | none => (p, some ⟨none, [], some "Vault runtime has no database credentials"⟩)
      | some databaseCredentials =>
          let reply := calls.renewDatabaseCredentials databaseCredentials
          let p := p.pass reply.elapsed
          match reply.result with
          | .ok credentials => p.refreshDatabase calls credentials
          | .error error =>
              if !isVaultLeaseRenewalLimit error then (p, some error)
              else
                let p := p.pass calls.issueDatabaseCredentials.elapsed
                match calls.issueDatabaseCredentials.result with
                | .error error => (p, some error)
                | .ok credentials => p.refreshDatabase calls credentials

def renew (p : ServiceProcess) (calls : ServiceCalls) : ServiceProcess :=
  match p.tryRenew calls with
  | (p, none) => p
  | (p, some error) =>
      if isVaultAuthorizationError error || p.expiresAt - p.now ≤ renewalSafetyMarginMs then p.fail error
      else p.setTimeout retryIntervalMs

/-- The end of `initialize`. -/
def initialized (now : Int) (roleId secretId : String) (token : VaultToken) (credentials : VaultDatabaseCredentials)
    (recording scheduling : Nat) : ServiceProcess :=
  let p : ServiceProcess :=
    { now := now
      service :=
        { renewalTimer := none, tokenExpiresAt := 0, databaseExpiresAt := 0, databaseCredentials := none
          roleId := some roleId, secretId := some secretId, ready := true, stopped := false, fatal := none } }
  (((p.setToken token).pass recording).setDatabase credentials).pass scheduling |>.scheduleRenewal

/-- The service at the time the timer fires. -/
def fired (p : ServiceProcess) (timeout : Timeout) (late : Nat) : ServiceProcess where
  now := timeout.due + late
  service := { p.service with renewalTimer := none }

/-- The timer fires. -/
def step (p : ServiceProcess) (firing : Firing) : Option ServiceProcess :=
  p.service.renewalTimer.map fun timeout => (p.fired timeout firing.late).renew firing.calls

end ServiceProcess

/-! ### Failing and succeeding -/

/-- All leases granted are longer than this. -/
structure ServiceCalls.GrantMoreThan (calls : ServiceCalls) (lease : Int) : Prop where
  renewToken : ∀ token, calls.renewToken.result = .ok token → lease < token.leaseDurationMs
  renewDatabaseCredentials : ∀ old credentials,
    (calls.renewDatabaseCredentials old).result = .ok credentials → lease < credentials.leaseDurationMs
  login : ∀ roleId secretId token, (calls.login roleId secretId).result = .ok token → lease < token.leaseDurationMs
  issueDatabaseCredentials : ∀ credentials,
    calls.issueDatabaseCredentials.result = .ok credentials → lease < credentials.leaseDurationMs

namespace ServiceProcess

/-- If the timer fires, both leases are renewed, and for long enough. -/
def Renews (p : ServiceProcess) (firing : Firing) : Prop :=
  ∀ timeout, p.service.renewalTimer = some timeout →
    ((p.fired timeout firing.late).tryRenew firing.calls).2 = none ∧
      firing.calls.GrantMoreThan (2 * renewalSafetyMarginMs)

/-- The timer fires and nothing is renewed, because of an error that does not say it is forbidden. -/
def FailsTransiently (p : ServiceProcess) (firing : Firing) : Prop :=
  ∃ timeout q error, p.service.renewalTimer = some timeout ∧
    (p.fired timeout firing.late).tryRenew firing.calls = (q, some error) ∧
    q.service = (p.fired timeout firing.late).service ∧ isVaultAuthorizationError error = false

/-- A service that goes on renewing. -/
structure Active (roleId secretId : String) (p : ServiceProcess) : Prop where
  roleId : present p.service.roleId = some roleId
  secretId : present p.service.secretId = some secretId
  ready : p.service.ready = true
  stopped : p.service.stopped = false
  fatal : p.service.fatal = none

/-- The timer that is set at this time, with leases up to that. -/
def renewalTimeout (setAt expiresAt : Int) : Timeout :=
  ⟨setAt, max 0 (expiresAt - setAt - renewalSafetyMarginMs)⟩

/-- The next renewal has been set by `scheduleRenewal`. -/
def Scheduled (p : ServiceProcess) : Prop :=
  ∃ setAt, p.service.renewalTimer = some (renewalTimeout setAt p.expiresAt)

variable {roleId secretId : String} {p : ServiceProcess} {calls : ServiceCalls}

theorem Scheduled.timer (hscheduled : p.Scheduled) : p.service.renewalTimer.isSome := by
  obtain ⟨setAt, htimer⟩ := hscheduled
  rw [htimer]
  rfl

theorem Active.scheduleRenewal_eq (hactive : p.Active roleId secretId) :
    p.scheduleRenewal = p.setTimeout (max 0 (p.expiresAt - p.now - renewalSafetyMarginMs)) := by
  rw [scheduleRenewal, hactive.ready, hactive.stopped]
  rfl

theorem Active.setTimeout (hactive : p.Active roleId secretId) (delay : Int) :
    (p.setTimeout delay).Active roleId secretId :=
  ⟨hactive.roleId, hactive.secretId, hactive.ready, hactive.stopped, hactive.fatal⟩

theorem Active.scheduleRenewal (hactive : p.Active roleId secretId) :
    p.scheduleRenewal.Active roleId secretId ∧ p.scheduleRenewal.Scheduled := by
  rw [hactive.scheduleRenewal_eq]
  exact ⟨hactive.setTimeout _, p.now, rfl⟩

theorem Active.fail_eq (hactive : p.Active roleId secretId) (error : RequestError) :
    p.fail error = { p with
      service.ready := false
      service.fatal := some (match error.message with
        | some message => "Vault runtime failed closed: " ++ message
        | none => "Vault runtime failed closed") } := by
  rw [ServiceProcess.fail, hactive.ready, hactive.stopped]
  rfl

theorem Active.fired (hactive : p.Active roleId secretId) (timeout : Timeout) (late : Nat) :
    (p.fired timeout late).Active roleId secretId :=
  ⟨hactive.roleId, hactive.secretId, hactive.ready, hactive.stopped, hactive.fatal⟩

/-- If a renewal succeeds, the service goes on and the next one is scheduled. -/
def Completes (roleId secretId : String) (renewed : ServiceProcess × Option RequestError) : Prop :=
  renewed.2 = none → renewed.1.Active roleId secretId ∧ renewed.1.Scheduled

theorem Completes.of_error (error : RequestError) : Completes roleId secretId (p, some error) :=
  fun hnone => nomatch hnone

theorem Active.refreshDatabase (hactive : p.Active roleId secretId) (credentials : VaultDatabaseCredentials) :
    Completes roleId secretId (p.refreshDatabase calls credentials) := by
  unfold ServiceProcess.refreshDatabase
  dsimp only
  split
  · apply Completes.of_error
  · intro _
    apply Active.scheduleRenewal
    exact ⟨hactive.roleId, hactive.secretId, hactive.ready, hactive.stopped, hactive.fatal⟩

theorem Active.reauthenticate (hactive : p.Active roleId secretId) :
    Completes roleId secretId (p.reauthenticate calls) := by
  unfold ServiceProcess.reauthenticate
  rw [hactive.roleId, hactive.secretId]
  dsimp only
  split
  · apply Completes.of_error
  · split
    · apply Completes.of_error
    · split
      · apply Completes.of_error
      · intro _
        apply Active.scheduleRenewal
        exact ⟨hactive.roleId, hactive.secretId, hactive.ready, hactive.stopped, hactive.fatal⟩

theorem Active.tryRenew (hactive : p.Active roleId secretId) : Completes roleId secretId (p.tryRenew calls) := by
  unfold ServiceProcess.tryRenew
  dsimp only
  split
  · apply Active.reauthenticate
    exact ⟨hactive.roleId, hactive.secretId, hactive.ready, hactive.stopped, hactive.fatal⟩
  · split
    · apply Completes.of_error
    · split
      · apply Active.refreshDatabase
        exact ⟨hactive.roleId, hactive.secretId, hactive.ready, hactive.stopped, hactive.fatal⟩
      · split
        · apply Completes.of_error
        · split
          · apply Completes.of_error
          · apply Active.refreshDatabase
            exact ⟨hactive.roleId, hactive.secretId, hactive.ready, hactive.stopped, hactive.fatal⟩

theorem Active.initialized (now : Int) (hroleId : roleId ≠ "") (hsecretId : secretId ≠ "") (token : VaultToken)
    (credentials : VaultDatabaseCredentials) (recording scheduling : Nat) :
    (initialized now roleId secretId token credentials recording scheduling).Active roleId secretId ∧
      (initialized now roleId secretId token credentials recording scheduling).Scheduled := by
  apply Active.scheduleRenewal
  refine ⟨?_, ?_, rfl, rfl, rfl⟩
  · exact Option.filter_some_pos (decide_eq_true hroleId)
  · exact Option.filter_some_pos (decide_eq_true hsecretId)

/-! ### What is left of a lease when a renewal starts -/

theorem renew_of_tryRenew (hnone : (p.tryRenew calls).2 = none) : p.renew calls = (p.tryRenew calls).1 := by
  have htryRenew : p.tryRenew calls = ((p.tryRenew calls).1, none) := Prod.ext rfl hnone
  rw [renew, htryRenew]

theorem Active.step_of_renews (hactive : p.Active roleId secretId) {timeout : Timeout} {firing : Firing}
    (htimer : p.service.renewalTimer = some timeout) (hrenews : p.Renews firing) :
    ∃ q, p.step firing = some q ∧ q.Active roleId secretId ∧ q.Scheduled := by
  obtain ⟨hnone, _⟩ := hrenews timeout htimer
  refine ⟨(p.fired timeout firing.late).renew firing.calls, ?_, ?_⟩
  · rw [step, htimer]
    rfl
  · rw [renew_of_tryRenew hnone]
    exact (hactive.fired timeout firing.late).tryRenew hnone

/-- While every renewal succeeds, the service goes on. -/
theorem Active.run_of_renews (hactive : p.Active roleId secretId) (htimer : p.service.renewalTimer.isSome)
    {firings : List Firing} (hrenews : Runs.Along step Renews p firings) :
    ∃ q, Runs.run step p firings = some q ∧ q.Active roleId secretId ∧ (p.Scheduled → q.Scheduled) := by
  induction firings generalizing p with
  | nil => exact ⟨p, rfl, hactive, id⟩
  | cons firing firings ih =>
      obtain ⟨timeout, htimeout⟩ := Option.isSome_iff_exists.mp htimer
      obtain ⟨m, hstep, hm, hscheduled⟩ := hactive.step_of_renews htimeout hrenews.1
      obtain ⟨q, hrun, hq, hlast⟩ := ih hm hscheduled.timer (hrenews.2 m hstep)
      exact ⟨q, Runs.run_cons_eq_some.mpr ⟨m, hstep, hrun⟩, hq, fun _ => hlast hscheduled⟩

/-! ### Time passes while renewing -/

theorem now_le_pass (p : ServiceProcess) (elapsed : Nat) : p.now ≤ (p.pass elapsed).now := by
  simp only [pass]
  omega

theorem now_scheduleRenewal (p : ServiceProcess) : p.scheduleRenewal.now = p.now := by
  unfold scheduleRenewal
  split <;> rfl

theorem now_le_refreshDatabase (p : ServiceProcess) (calls : ServiceCalls) (credentials : VaultDatabaseCredentials) :
    p.now ≤ (p.refreshDatabase calls credentials).1.now := by
  unfold refreshDatabase
  dsimp only
  split
  · exact now_le_pass ..
  · rw [now_scheduleRenewal]
    exact (now_le_pass ..).trans (now_le_pass (setDatabase _ _) _)

theorem now_le_reauthenticate (p : ServiceProcess) (calls : ServiceCalls) :
    p.now ≤ (p.reauthenticate calls).1.now := by
  unfold reauthenticate
  split
  · dsimp only
    split
    · exact now_le_pass ..
    · split
      · exact (now_le_pass ..).trans (now_le_pass ..)
      · split
        · exact ((now_le_pass ..).trans (now_le_pass ..)).trans (now_le_pass ..)
        · rw [now_scheduleRenewal]
          simp only [pass, setDatabase, setToken]
          omega
  · exact le_refl _

theorem now_le_tryRenew (p : ServiceProcess) (calls : ServiceCalls) : p.now ≤ (p.tryRenew calls).1.now := by
  unfold tryRenew
  dsimp only
  split
  · exact (now_le_pass ..).trans (now_le_reauthenticate ..)
  · have htoken : ∀ token, p.now ≤ ((p.pass calls.renewToken.elapsed).setToken token).now := fun _ => now_le_pass ..
    split
    · exact htoken _
    · split
      · exact ((htoken _).trans (now_le_pass ..)).trans (now_le_refreshDatabase ..)
      · split
        · exact (htoken _).trans (now_le_pass ..)
        · split
          · exact ((htoken _).trans (now_le_pass ..)).trans (now_le_pass ..)
          · exact (((htoken _).trans (now_le_pass ..)).trans (now_le_pass ..)).trans (now_le_refreshDatabase ..)

/-! ### One failure -/

/-- The margin is used up by the time the timer fires, unless its delay was out of range. -/
theorem margin_lt_iff (setAt expiresAt : Int) {now : Int} (hdue : (renewalTimeout setAt expiresAt).due ≤ now) :
    renewalSafetyMarginMs < expiresAt - now ↔
      timeoutMax < (renewalTimeout setAt expiresAt).delay ∧
        now < (renewalTimeout setAt expiresAt).setAt + (renewalTimeout setAt expiresAt).delay := by
  rw [Timeout.due] at hdue
  simp only [renewalTimeout, renewalSafetyMarginMs, timeoutMax] at hdue ⊢
  split_ifs at hdue <;> omega

/-- The service after a failure. -/
theorem Active.step_of_failsTransiently (hactive : p.Active roleId secretId) {firing : Firing} {timeout : Timeout}
    (htimer : p.service.renewalTimer = some timeout) (hfails : p.FailsTransiently firing) :
    let q := ((p.fired timeout firing.late).tryRenew firing.calls).1
    timeout.due ≤ q.now ∧ q.Active roleId secretId ∧ q.service.renewalTimer = none ∧
      ∃ error, p.step firing = some
        (if p.expiresAt - q.now ≤ renewalSafetyMarginMs then q.fail error else q.setTimeout retryIntervalMs) := by
  intro q
  obtain ⟨timeout', q', error, htimer', htryRenew, hservice, htransient⟩ := hfails
  obtain rfl := Option.some.inj (htimer.symm.trans htimer')
  obtain rfl : q = q' := congrArg Prod.fst htryRenew
  have hfired := hactive.fired timeout firing.late
  have hnow := (p.fired timeout firing.late).now_le_tryRenew firing.calls
  refine ⟨?_, ?_, by rw [hservice]; rfl, error, ?_⟩
  · have hdue : timeout.due ≤ (p.fired timeout firing.late).now := by
      simp only [ServiceProcess.fired]
      omega
    exact hdue.trans hnow
  · constructor
    · rw [hservice]
      exact hfired.roleId
    · rw [hservice]
      exact hfired.secretId
    · rw [hservice]
      exact hfired.ready
    · rw [hservice]
      exact hfired.stopped
    · rw [hservice]
      exact hfired.fatal
  · have hexpiresAt : q.expiresAt = p.expiresAt := by
      rw [expiresAt, hservice]
      rfl
    rw [step, htimer, Option.map_some, renew, htryRenew]
    simp only [htransient, Bool.false_or, decide_eq_true_eq, hexpiresAt]

end ServiceProcess

end Transcendence.Vault
