import Mathlib.Data.Int.Order.Basic
import Mathlib.Order.Basic
import Transcendence.Base.Runs

/-!
# The Vault runtime of the auth service

`Runtime.Run` sleeps until a minute before the first lease ends, renews both leases, and goes on. When
renewing fails it gives up if a minute or less is left of a lease, and otherwise tries again after a
while. Times are in nanoseconds. What Vault answers, how long that takes, and how late a timer fires
are given from outside.
-/

namespace Transcendence.Vault

/-- How a call ends, and the time it takes. -/
structure Reply (ε α : Type) where
  elapsed : Nat
  result : Except ε α

/-- An error, with the status of the `HTTPError` it wraps. -/
structure VaultError where
  statusCode : Option Nat
  message : String
  deriving DecidableEq

/-- `fmt.Errorf("…: %w", err)` -/
def VaultError.wrap (err : VaultError) (message : String) : VaultError :=
  { err with message := message ++ ": " ++ err.message }

def statusBadRequest : Nat :=
  400

def statusUnauthorized : Nat :=
  401

def statusForbidden : Nat :=
  403

def isAuthorizationError (err : VaultError) : Bool :=
  err.statusCode = some statusForbidden || err.statusCode = some statusUnauthorized

def isLeaseRenewalLimit (err : VaultError) : Bool :=
  err.statusCode = some statusBadRequest

structure Token where
  leaseDuration : Int
  deriving DecidableEq

structure DatabaseCredentials where
  username : String
  password : String
  leaseID : String
  leaseDuration : Int
  deriving DecidableEq

def second : Int :=
  1000000000

def renewalSafetyMargin : Int :=
  60 * second

def retryInterval : Int :=
  15 * second

structure Runtime where
  ready : Bool
  tokenExpiresAt : Int
  databaseExpiresAt : Int
  database : DatabaseCredentials
  deriving DecidableEq

/-- What one `renew` is answered, should it ask. -/
structure RenewalCalls where
  renewToken : Reply VaultError Token
  renewDatabaseCredentials : DatabaseCredentials → Reply VaultError DatabaseCredentials
  login : Reply VaultError Token
  issueDatabaseCredentials : Reply VaultError DatabaseCredentials
  refreshDatabase : DatabaseCredentials → Reply VaultError Unit

/-- The runtime and the time it is. -/
structure Process where
  now : Int
  runtime : Runtime
  deriving DecidableEq

/-- The end of `Start`. -/
def start (now : Int) (token : Token) (credentials : DatabaseCredentials) : Process where
  now := now
  runtime :=
    { ready := true
      tokenExpiresAt := now + token.leaseDuration
      databaseExpiresAt := now + credentials.leaseDuration
      database := credentials }

/-! ### Renewing -/

namespace Process

def pass (p : Process) (elapsed : Nat) : Process :=
  { p with now := p.now + elapsed }

def setToken (p : Process) (token : Token) : Process :=
  { p with runtime.tokenExpiresAt := p.now + token.leaseDuration }

def setDatabase (p : Process) (credentials : DatabaseCredentials) : Process :=
  { p with
    runtime.databaseExpiresAt := p.now + credentials.leaseDuration
    runtime.database := credentials }

/-- The end of the three functions below, which differ in the text of the error. -/
def refreshDatabase (p : Process) (calls : RenewalCalls) (credentials : DatabaseCredentials) (message : String) :
    Process × Option VaultError :=
  let p := p.pass (calls.refreshDatabase credentials).elapsed
  match (calls.refreshDatabase credentials).result with
  | .error err => (p, some (err.wrap message))
  | .ok _ => (p.setDatabase credentials, none)

def issueDatabaseCredentials (p : Process) (calls : RenewalCalls) : Process × Option VaultError :=
  let p := p.pass calls.issueDatabaseCredentials.elapsed
  match calls.issueDatabaseCredentials.result with
  | .error err => (p, some (err.wrap "issue replacement database credentials"))
  | .ok credentials => p.refreshDatabase calls credentials "refresh database pool with replacement credentials"

def reauthenticate (p : Process) (calls : RenewalCalls) : Process × Option VaultError :=
  let p := p.pass calls.login.elapsed
  match calls.login.result with
  | .error err => (p, some (err.wrap "renew Vault token or reauthenticate"))
  | .ok token =>
      let p := (p.setToken token).pass calls.issueDatabaseCredentials.elapsed
      match calls.issueDatabaseCredentials.result with
      | .error err => (p, some (err.wrap "issue database credentials after Vault reauthentication"))
      | .ok credentials => p.refreshDatabase calls credentials "refresh database pool after Vault reauthentication"

def renew (p : Process) (calls : RenewalCalls) : Process × Option VaultError :=
  let p := p.pass calls.renewToken.elapsed
  match calls.renewToken.result with
  | .error _ => p.reauthenticate calls
  | .ok token =>
      let p := p.setToken token
      let reply := calls.renewDatabaseCredentials p.runtime.database
      let p := p.pass reply.elapsed
      match reply.result with
      | .error err => if isLeaseRenewalLimit err then p.issueDatabaseCredentials calls else (p, some err)
      | .ok credentials => p.refreshDatabase calls credentials "refresh database pool"

end Process

/-! ### The loop -/

/-- The halves are rounded towards zero. -/
def renewalDelay (tokenTTL databaseTTL : Int) : Int :=
  let ttl := min tokenTTL databaseTTL
  if ttl ≤ 2 * renewalSafetyMargin then ttl.tdiv 2 else ttl - renewalSafetyMargin

/-- What one turn of the loop is given: the time that passes before the clock is read for the token and
between that and reading it for the database, the same for the check after a failure, and how late the
two timers fire, or nothing if the context is done before. -/
structure Turn where
  reading : Nat
  readingDatabase : Nat
  timer : Option Nat
  calls : RenewalCalls
  checkingDatabase : Nat
  retryTimer : Option Nat

inductive Loop where
  | running (p : Process)
  | returned (p : Process) (err : Option VaultError)
  deriving DecidableEq

namespace Process

/-- What `Run` sleeps for. -/
def delay (p : Process) (turn : Turn) : Int :=
  renewalDelay (p.runtime.tokenExpiresAt - (p.now + turn.reading))
    (p.runtime.databaseExpiresAt - (p.now + turn.reading + turn.readingDatabase))

/-- The process when the timer has fired. A timer for a delay that is not positive fires at once. -/
def fired (p : Process) (turn : Turn) (late : Nat) : Process :=
  { p with now := p.now + turn.reading + turn.readingDatabase + max (p.delay turn) 0 + late }

/-- When `Run` gives up. -/
def givesUp (p : Process) (turn : Turn) (err : VaultError) : Bool :=
  isAuthorizationError err || p.runtime.tokenExpiresAt - p.now ≤ renewalSafetyMargin ||
    p.runtime.databaseExpiresAt - (p.now + turn.checkingDatabase) ≤ renewalSafetyMargin

/-- One turn of the loop in `Run`. -/
def iterate (p : Process) (turn : Turn) : Loop :=
  match turn.timer with
  | none => .returned p none
  | some late =>
      match (p.fired turn late).renew turn.calls with
      | (p, none) => .running p
      | (p, some err) =>
          if p.givesUp turn err then
            .returned { p with runtime.ready := false }
              (some (err.wrap "Vault credentials can no longer be renewed before expiry"))
          else
            match turn.retryTimer with
            | none => .returned p none
            | some late => .running { p with now := p.now + turn.checkingDatabase + retryInterval + late }

end Process

/-- `Run`, turn by turn. When it has returned there is no next turn. -/
def Loop.step : Loop → Turn → Option Loop
  | .running p, turn => some (p.iterate turn)
  | .returned _ _, _ => none

/-! ### What is left of a lease when a renewal starts -/

/-- The delay never leaves more than the safety margin. -/
theorem min_le_renewalDelay (tokenTTL databaseTTL : Int) :
    min tokenTTL databaseTTL ≤ renewalDelay tokenTTL databaseTTL + renewalSafetyMargin := by
  unfold renewalDelay
  dsimp only
  generalize min tokenTTL databaseTTL = ttl
  split
  · case isTrue hle =>
      have hhalf := Int.mul_tdiv_add_tmod ttl 2
      have hrest := Int.tmod_lt_of_pos ttl (b := 2) (by decide)
      rw [renewalSafetyMargin, second] at hle ⊢
      omega
  · omega

/-- By the time the timer fires, no more than the safety margin is left of one of the leases. -/
theorem Process.expiry_le_fired (p : Process) (turn : Turn) (late : Nat) :
    p.runtime.tokenExpiresAt ≤ (p.fired turn late).now + renewalSafetyMargin ∨
      p.runtime.databaseExpiresAt ≤ (p.fired turn late).now + renewalSafetyMargin := by
  have hdelay := min_le_renewalDelay (p.runtime.tokenExpiresAt - (p.now + turn.reading))
    (p.runtime.databaseExpiresAt - (p.now + turn.reading + turn.readingDatabase))
  simp only [Process.fired, Process.delay]
  omega

/-- A process that has only waited. -/
theorem Process.givesUp_of_le (p : Process) (turn : Turn) (late : Nat) {q : Process} (hruntime : q.runtime = p.runtime)
    (hnow : (p.fired turn late).now ≤ q.now) (err : VaultError) : q.givesUp turn err = true := by
  have hexpiry := p.expiry_le_fired turn late
  rw [Process.givesUp, hruntime, Bool.or_eq_true, Bool.or_eq_true, decide_eq_true_eq, decide_eq_true_eq]
  omega

/-! ### Time passes while renewing -/

namespace Process

theorem now_le_refreshDatabase (p : Process) (calls : RenewalCalls) (credentials : DatabaseCredentials) (message : String) :
    p.now ≤ (p.refreshDatabase calls credentials message).1.now := by
  unfold refreshDatabase
  dsimp only
  split
  · simp only [pass]
    omega
  · simp only [pass, setDatabase]
    omega

theorem now_le_issueDatabaseCredentials (p : Process) (calls : RenewalCalls) :
    p.now ≤ (p.issueDatabaseCredentials calls).1.now := by
  have hpass : p.now ≤ (p.pass calls.issueDatabaseCredentials.elapsed).now := by
    simp only [pass]
    omega
  unfold issueDatabaseCredentials
  dsimp only
  split
  · exact hpass
  · exact hpass.trans (now_le_refreshDatabase ..)

theorem now_le_reauthenticate (p : Process) (calls : RenewalCalls) : p.now ≤ (p.reauthenticate calls).1.now := by
  have hlogin : p.now ≤ (p.pass calls.login.elapsed).now := by
    simp only [pass]
    omega
  unfold reauthenticate
  dsimp only
  split
  · exact hlogin
  · case h_2 token _ =>
      have hissue : p.now ≤
          (((p.pass calls.login.elapsed).setToken token).pass calls.issueDatabaseCredentials.elapsed).now := by
        simp only [pass, setToken]
        omega
      split
      · exact hissue
      · exact hissue.trans (now_le_refreshDatabase ..)

theorem now_le_renew (p : Process) (calls : RenewalCalls) : p.now ≤ (p.renew calls).1.now := by
  have htoken : p.now ≤ (p.pass calls.renewToken.elapsed).now := by
    simp only [pass]
    omega
  unfold renew
  dsimp only
  split
  · exact htoken.trans (now_le_reauthenticate ..)
  · have hdatabase : ∀ (token : Token) (elapsed : Nat),
        p.now ≤ (((p.pass calls.renewToken.elapsed).setToken token).pass elapsed).now := by
      intro token elapsed
      simp only [pass, setToken]
      omega
    split
    · split
      · exact (hdatabase _ _).trans (now_le_issueDatabaseCredentials ..)
      · exact hdatabase _ _
    · exact (hdatabase _ _).trans (now_le_refreshDatabase ..)

end Process

/-! ### Failing and succeeding -/

/-- All leases granted are longer than this. -/
structure RenewalCalls.GrantMoreThan (calls : RenewalCalls) (lease : Int) : Prop where
  renewToken : ∀ token, calls.renewToken.result = .ok token → lease < token.leaseDuration
  renewDatabaseCredentials : ∀ old credentials,
    (calls.renewDatabaseCredentials old).result = .ok credentials → lease < credentials.leaseDuration
  login : ∀ token, calls.login.result = .ok token → lease < token.leaseDuration
  issueDatabaseCredentials : ∀ credentials,
    calls.issueDatabaseCredentials.result = .ok credentials → lease < credentials.leaseDuration

/-- If there is such a turn, it renews both leases, and for long enough. -/
def Loop.Renews : Loop → Turn → Prop
  | .running p, turn =>
      (∃ late, turn.timer = some late ∧ ((p.fired turn late).renew turn.calls).2 = none) ∧
        turn.calls.GrantMoreThan (2 * renewalSafetyMargin)
  | .returned _ _, _ => True

/-- The turn renews nothing, because of an error that does not say it is forbidden. -/
def Loop.FailsTransiently : Loop → Turn → Prop
  | .running p, turn =>
      ∃ late q err, turn.timer = some late ∧ (p.fired turn late).renew turn.calls = (q, some err) ∧
        q.runtime = p.runtime ∧ isAuthorizationError err = false
  | .returned _ _, _ => False

theorem Process.iterate_of_renews {p : Process} {turn : Turn} (hrenews : (Loop.running p).Renews turn) :
    ∃ q, p.iterate turn = .running q := by
  obtain ⟨⟨late, htimer, hnone⟩, _⟩ := hrenews
  refine ⟨((p.fired turn late).renew turn.calls).1, ?_⟩
  have hrenew : (p.fired turn late).renew turn.calls = (((p.fired turn late).renew turn.calls).1, none) :=
    Prod.ext rfl hnone
  rw [Process.iterate, htimer]
  dsimp only
  rw [hrenew]

/-- While every turn renews, the loop goes on. -/
theorem running_of_renews {p : Process} {turns : List Turn}
    (hrenews : Runs.Along Loop.step Loop.Renews (.running p) turns) :
    ∃ q, Runs.run Loop.step (.running p) turns = some (.running q) := by
  induction turns generalizing p with
  | nil => exact ⟨p, rfl⟩
  | cons turn turns ih =>
      obtain ⟨m, hiterate⟩ := Process.iterate_of_renews hrenews.1
      have hstep : Loop.step (.running p) turn = some (.running m) := congrArg some hiterate
      obtain ⟨q, hrun⟩ := ih (hrenews.2 _ hstep)
      exact ⟨q, Runs.run_cons_eq_some.mpr ⟨_, hstep, hrun⟩⟩

/-- One failure is the end. -/
theorem Process.iterate_of_failsTransiently {p : Process} {turn : Turn}
    (hfails : (Loop.running p).FailsTransiently turn) :
    ∃ q err, p.iterate turn = .returned q (some err) ∧ q.runtime.ready = false := by
  obtain ⟨late, q, err, htimer, hrenew, hruntime, _⟩ := hfails
  have hnow : (p.fired turn late).now ≤ q.now := by
    have hle := (p.fired turn late).now_le_renew turn.calls
    rwa [hrenew] at hle
  refine ⟨{ q with runtime.ready := false },
    err.wrap "Vault credentials can no longer be renewed before expiry", ?_, rfl⟩
  rw [Process.iterate, htimer]
  dsimp only
  rw [hrenew]
  dsimp only
  rw [if_pos (p.givesUp_of_le turn late hruntime hnow err)]

end Transcendence.Vault
