import Transcendence.Base.Leases
import Transcendence.Base.Runs
import Transcendence.Vault.RuntimeService

/-!
# The database clients of the backend

Every renewal of `VaultRuntimeService` ends with `PrismaService` connecting a new client. The client it replaces is
disconnected half a minute later, so that what runs over it can end. Here a renewal is taken apart: Vault
handles a call at one time and the answer is there at a later one, or the call fails, handled or not; and
transactions begin at any time in between.

Vault is a server of leases under tokens: it answers a call with a token that is live, and what it grants is
fresh. What else the service relies on is a condition on the runs.
-/

namespace Transcendence.Vault

def poolDrainTimeoutMs : Int :=
  30000

/-! ### The clients -/

/-- A client, and the credentials that its `databaseUrl` was made of. -/
structure PrismaClient where
  id : Nat
  credentials : VaultDatabaseCredentials
  deriving DecidableEq

structure DrainTimer where
  previousClient : PrismaClient
  timeout : Timeout
  deriving DecidableEq

/-- With the clients that are connected. No client has been made with an id from `next` on. -/
structure PrismaService where
  client : PrismaClient
  drainTimers : List DrainTimer
  connected : List PrismaClient
  next : Nat
  deriving DecidableEq

namespace PrismaService

/-- `replaceClient`, when the next client is connected. -/
def replaceClient (prisma : PrismaService) (now : Int) (credentials : VaultDatabaseCredentials) : PrismaService :=
  let nextClient : PrismaClient := ⟨prisma.next, credentials⟩
  { client := nextClient
    drainTimers := ⟨prisma.client, ⟨now, poolDrainTimeoutMs⟩⟩ :: prisma.drainTimers
    connected := nextClient :: prisma.connected
    next := prisma.next + 1 }

/-- A drain timer fires, if it is due. -/
def drain (prisma : PrismaService) (now : Int) (index : Nat) : Option PrismaService :=
  match prisma.drainTimers[index]? with
  | none => none
  | some timer =>
      if timer.timeout.due ≤ now then
        some { prisma with
          drainTimers := prisma.drainTimers.eraseIdx index
          connected := prisma.connected.erase timer.previousClient }
      else none

end PrismaService

/-- A transaction runs over the client that was the current one when it began. -/
structure Transaction where
  client : PrismaClient
  startedAt : Int
  deriving DecidableEq

/-! ### Renewals -/

/-- What a renewal waits for, with the answer that Vault has given, if it has. The last three are those of
`reauthenticate`. -/
inductive Stage where
  | renewToken (answer : Option VaultToken)
  | renewDatabaseCredentials (answer : Option VaultDatabaseCredentials)
  | issueDatabaseCredentials (answer : Option VaultDatabaseCredentials)
  | refreshDatabase (credentials : VaultDatabaseCredentials)
  | login (answer : Option (String × VaultToken))
  | reissue (token : VaultToken) (answer : Option VaultDatabaseCredentials)
  | reconnect (token : VaultToken) (credentials : VaultDatabaseCredentials)
  deriving DecidableEq

/-- A renewal, and the timer that it began with. -/
structure Renewal where
  timeout : Timeout
  stage : Stage
  deriving DecidableEq

/-- What Vault grants when it handles a call: until when, how long it says that is, and where it is something
new, its id and the user of the database. -/
structure Grant where
  expiresAt : Int
  leaseDurationMs : Int
  id : String
  username : String
  password : String
  deriving DecidableEq

/-- `clientToken` is the token of the `VaultClient`, and `transactions` are all that have begun. -/
structure Backend where
  process : ServiceProcess
  renewal : Option Renewal
  clientToken : String
  vault : Leases String String Int
  prisma : PrismaService
  transactions : List Transaction

/-- What can happen. A call that fails has been refused, or its answer is not usable or has not arrived. -/
inductive Event where
  | pass (elapsed : Nat)
  | fired
  | granted (grant : Grant)
  | answered
  | failed (error : RequestError)
  | connected
  | drained (index : Nat)
  | transaction
  deriving DecidableEq

namespace Backend

def now (s : Backend) : Int :=
  s.process.now

def ready (s : Backend) : Bool :=
  s.process.service.ready

/-- The renewal goes on to wait for something else. -/
def await (s : Backend) (renewal : Renewal) (stage : Stage) : Backend :=
  { s with renewal := some { renewal with stage := stage } }

/-- The outer `catch` of `renew`. -/
def renewalFailed (s : Backend) (error : RequestError) : Backend :=
  { s with
    process :=
      if isVaultAuthorizationError error || s.process.expiresAt - s.now ≤ renewalSafetyMarginMs then s.process.fail error
      else s.process.setTimeout retryIntervalMs
    renewal := none }

/-- Vault issues credentials of the database under the token that asks. -/
def issue (s : Backend) (grant : Grant) : Option (Leases String String Int × VaultDatabaseCredentials) :=
  if s.vault.tokenIsLive s.now s.clientToken && s.vault.leases grant.id = none then
    some (s.vault.setLease grant.id ⟨s.clientToken, grant.expiresAt⟩,
      ⟨grant.username, grant.password, grant.id, grant.leaseDurationMs⟩)
  else none

/-- Vault extends the lease of the credentials. -/
def renewLease (s : Backend) (grant : Grant) : Option (Leases String String Int × VaultDatabaseCredentials) :=
  match s.process.service.databaseCredentials with
  | none => none
  | some credentials =>
      match s.vault.leases credentials.leaseId with
      | none => none
      | some lease =>
          if s.vault.tokenIsLive s.now s.clientToken && s.vault.isLive s.now credentials.leaseId then
            some (s.vault.setLease credentials.leaseId ⟨lease.token, grant.expiresAt⟩,
              { credentials with leaseDurationMs := grant.leaseDurationMs })
          else none

/-- Vault handles the call that the renewal waits for. -/
def handle (s : Backend) (grant : Grant) : Stage → Option (Leases String String Int × Stage)
  | .renewToken none =>
      if s.vault.tokenIsLive s.now s.clientToken then
        some (s.vault.setToken s.clientToken grant.expiresAt, .renewToken (some ⟨grant.leaseDurationMs⟩))
      else none
  | .login none =>
      if s.vault.tokens grant.id = none then
        some (s.vault.setToken grant.id grant.expiresAt, .login (some (grant.id, ⟨grant.leaseDurationMs⟩)))
      else none
  | .renewDatabaseCredentials none =>
      (s.renewLease grant).map fun renewed => (renewed.1, .renewDatabaseCredentials (some renewed.2))
  | .issueDatabaseCredentials none =>
      (s.issue grant).map fun issued => (issued.1, .issueDatabaseCredentials (some issued.2))
  | .reissue token none => (s.issue grant).map fun issued => (issued.1, .reissue token (some issued.2))
  | _ => none

/-- `renew` and `reauthenticate` go on with the answer. -/
def answered (s : Backend) (renewal : Renewal) : Option Backend :=
  match renewal.stage with
  | .renewToken (some token) =>
      let s := { s with process := s.process.setToken token }
      match s.process.service.databaseCredentials with
      | none => some (s.renewalFailed ⟨none, [], some "Vault runtime has no database credentials"⟩)
      | some _ => some (s.await renewal (.renewDatabaseCredentials none))
  | .renewDatabaseCredentials (some credentials) => some (s.await renewal (.refreshDatabase credentials))
  | .issueDatabaseCredentials (some credentials) => some (s.await renewal (.refreshDatabase credentials))
  | .login (some (clientToken, token)) =>
      some ({ s with clientToken := clientToken }.await renewal (.reissue token none))
  | .reissue token (some credentials) => some (s.await renewal (.reconnect token credentials))
  | _ => none

/-- They go on with an error. -/
def failed (s : Backend) (renewal : Renewal) (error : RequestError) : Backend :=
  match renewal.stage with
  | .renewToken _ =>
      match ServiceProcess.present s.process.service.roleId, ServiceProcess.present s.process.service.secretId with
      | some _, some _ => s.await renewal (.login none)
      | _, _ => s.renewalFailed ⟨none, [], some "Vault runtime has no AppRole credentials"⟩
  | .renewDatabaseCredentials _ =>
      if isVaultLeaseRenewalLimit error then s.await renewal (.issueDatabaseCredentials none) else s.renewalFailed error
  | _ => s.renewalFailed error

/-- The refresher has replaced the client, and the renewal ends. -/
def connected (s : Backend) (renewal : Renewal) : Option Backend :=
  match renewal.stage with
  | .refreshDatabase credentials =>
      some { s with
        prisma := s.prisma.replaceClient s.now credentials
        process := (s.process.setDatabase credentials).scheduleRenewal
        renewal := none }
  | .reconnect token credentials =>
      some { s with
        prisma := s.prisma.replaceClient s.now credentials
        process := ((s.process.setToken token).setDatabase credentials).scheduleRenewal
        renewal := none }
  | _ => none

/-- The renewal timer fires, if it is due. -/
def fired (s : Backend) : Option Backend :=
  match s.renewal, s.process.service.renewalTimer with
  | none, some timeout =>
      if timeout.due ≤ s.now then
        some { s with process.service.renewalTimer := none, renewal := some ⟨timeout, .renewToken none⟩ }
      else none
  | _, _ => none

def step (s : Backend) : Event → Option Backend
  | .pass elapsed => some { s with process := s.process.pass elapsed }
  | .fired => s.fired
  | .granted grant =>
      s.renewal.bind fun renewal => (s.handle grant renewal.stage).map fun handled =>
        { s with vault := handled.1 }.await renewal handled.2
  | .answered => s.renewal.bind s.answered
  | .failed error => s.renewal.map fun renewal => s.failed renewal error
  | .connected => s.renewal.bind s.connected
  | .drained index => (s.prisma.drain s.now index).map fun prisma => { s with prisma := prisma }
  | .transaction => some { s with transactions := ⟨s.prisma.client, s.now⟩ :: s.transactions }

/-- After an error a renewal logs in anew or issues new credentials, or it has failed. -/
theorem failed_cases (s : Backend) (renewal : Renewal) (error : RequestError) :
    (∃ answer, renewal.stage = .renewToken answer ∧ s.failed renewal error = s.await renewal (.login none)) ∨
    (∃ answer, renewal.stage = .renewDatabaseCredentials answer ∧
      s.failed renewal error = s.await renewal (.issueDatabaseCredentials none)) ∨
    ∃ thrown, s.failed renewal error = s.renewalFailed thrown ∧
      ((∃ answer, renewal.stage = .renewToken answer) ∨ thrown = error) := by
  unfold failed
  split
  · next answer hstage =>
      split
      · exact .inl ⟨answer, hstage, rfl⟩
      · exact .inr (.inr ⟨_, rfl, .inl ⟨answer, hstage⟩⟩)
  · next answer hstage =>
      split
      · exact .inr (.inl ⟨answer, hstage, rfl⟩)
      · exact .inr (.inr ⟨error, rfl, .inr rfl⟩)
  · exact .inr (.inr ⟨error, rfl, .inr rfl⟩)

end Backend

end Transcendence.Vault
