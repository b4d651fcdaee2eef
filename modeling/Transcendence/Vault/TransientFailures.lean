import Transcendence.Vault.RuntimeService

/-!
# One failed renewal

Both runtimes try to renew when the safety margin of a lease begins, and both give up when a renewal
fails within the safety margin. So the first failure is the last, whatever the leases are. Only a timer
of the backend that is set for more than `timeoutMax` milliseconds fires early enough to try again.
-/

namespace Transcendence.Vault

/-! ### The auth service -/

/-- A run of the loop with one turn told apart. -/
structure LoopRun where
  now : Int
  token : Token
  credentials : DatabaseCredentials
  earlier : List Turn
  failing : Turn
  later : List Turn

def LoopRun.start (run : LoopRun) : Loop :=
  .running (Vault.start run.now run.token run.credentials)

/-- All leases are longer than twice the margin, one renewal fails and all others that are made succeed. -/
structure LoopRun.OneFailure (run : LoopRun) : Prop where
  token : 2 * renewalSafetyMargin < run.token.leaseDuration
  credentials : 2 * renewalSafetyMargin < run.credentials.leaseDuration
  earlier : Runs.Along Loop.step Loop.Renews run.start run.earlier
  fails : ∀ loop, Runs.run Loop.step run.start run.earlier = some loop → loop.FailsTransiently run.failing
  later : ∀ loop, Runs.run Loop.step run.start (run.earlier ++ [run.failing]) = some loop →
    Runs.Along Loop.step Loop.Renews loop run.later

/-- All turns are taken, and `Run` has not returned. -/
def LoopRun.KeepsRunning (run : LoopRun) : Prop :=
  ∃ p, Runs.run Loop.step run.start (run.earlier ++ run.failing :: run.later) = some (.running p)

theorem LoopRun.OneFailure.returned {run : LoopRun} (hrun : run.OneFailure) :
    ∃ p err, Runs.run Loop.step run.start (run.earlier ++ [run.failing]) = some (.returned p (some err)) := by
  obtain ⟨q, hearlier⟩ := running_of_renews hrun.earlier
  obtain ⟨p, err, hiterate, _⟩ := Process.iterate_of_failsTransiently (hrun.fails _ hearlier)
  refine ⟨p, err, Runs.run_append_eq_some.mpr ⟨.running q, hearlier, ?_⟩⟩
  exact Runs.run_cons_eq_some.mpr ⟨_, congrArg some hiterate, rfl⟩

theorem LoopRun.OneFailure.not_keepsRunning {run : LoopRun} (hrun : run.OneFailure) : ¬ run.KeepsRunning := by
  intro hkeeps
  obtain ⟨q, hq⟩ := hkeeps
  obtain ⟨p, err, hreturned⟩ := hrun.returned
  rw [List.append_cons, Runs.run_append, hreturned, Option.bind_some] at hq
  cases hlater : run.later with
  | nil =>
      rw [hlater] at hq
      cases hq
  | cons turn turns =>
      rw [hlater] at hq
      cases hq

/-! ### The backend -/

/-- A run of the service with one firing of the timer told apart. -/
structure ServiceRun where
  now : Int
  roleId : String
  secretId : String
  token : VaultToken
  credentials : VaultDatabaseCredentials
  recording : Nat
  scheduling : Nat
  earlier : List Firing
  failing : Firing
  later : List Firing

namespace ServiceRun

open ServiceProcess (initialized)

def start (run : ServiceRun) : ServiceProcess :=
  initialized run.now run.roleId run.secretId run.token run.credentials run.recording run.scheduling

/-- All leases are longer than twice the margin, one renewal fails and all others that are made succeed. -/
structure OneFailure (run : ServiceRun) : Prop where
  roleId : run.roleId ≠ ""
  secretId : run.secretId ≠ ""
  token : 2 * renewalSafetyMarginMs < run.token.leaseDurationMs
  credentials : 2 * renewalSafetyMarginMs < run.credentials.leaseDurationMs
  earlier : Runs.Along ServiceProcess.step ServiceProcess.Renews run.start run.earlier
  fails : ∀ p, Runs.run ServiceProcess.step run.start run.earlier = some p → p.FailsTransiently run.failing
  later : ∀ p, Runs.run ServiceProcess.step run.start (run.earlier ++ [run.failing]) = some p →
    Runs.Along ServiceProcess.step ServiceProcess.Renews p run.later

/-- All firings happen, and `fail` is not called. -/
def KeepsRunning (run : ServiceRun) : Prop :=
  ∃ p, Runs.run ServiceProcess.step run.start (run.earlier ++ run.failing :: run.later) = some p ∧
    p.service.ready = true ∧ p.service.fatal = none

/-- The failing renewal was set for more than a timer can wait, and its calls have failed before the time
it was set for. -/
def Overflows (run : ServiceRun) : Prop :=
  ∃ p timeout, Runs.run ServiceProcess.step run.start run.earlier = some p ∧ p.service.renewalTimer = some timeout ∧
    timeoutMax < timeout.delay ∧
      ((p.fired timeout run.failing.late).tryRenew run.failing.calls).1.now < timeout.setAt + timeout.delay

variable {run : ServiceRun}

theorem overflows_iff {p : ServiceProcess} {timeout : Timeout}
    (hearlier : Runs.run ServiceProcess.step run.start run.earlier = some p)
    (htimer : p.service.renewalTimer = some timeout) :
    run.Overflows ↔ timeoutMax < timeout.delay ∧
      ((p.fired timeout run.failing.late).tryRenew run.failing.calls).1.now < timeout.setAt + timeout.delay := by
  constructor
  · intro hoverflows
    obtain ⟨p', timeout', hearlier', htimer', hoverflow⟩ := hoverflows
    obtain rfl := Option.some.inj (hearlier.symm.trans hearlier')
    obtain rfl := Option.some.inj (htimer.symm.trans htimer')
    exact hoverflow
  · intro hoverflow
    exact ⟨p, timeout, hearlier, htimer, hoverflow⟩

theorem OneFailure.keepsRunning_iff (hrun : run.OneFailure) : run.KeepsRunning ↔ run.Overflows := by
  have hstart := ServiceProcess.Active.initialized run.now hrun.roleId hrun.secretId run.token
    run.credentials run.recording run.scheduling
  obtain ⟨p, hearlier, hactive, hset⟩ := hstart.1.run_of_renews hstart.2.timer hrun.earlier
  obtain ⟨setAt, htimer⟩ := hset hstart.2
  obtain ⟨hdue, hq, hfired, error, hstep⟩ := hactive.step_of_failsTransiently htimer (hrun.fails p hearlier)
  have hlater : ∀ m, p.step run.failing = some m → Runs.Along ServiceProcess.step ServiceProcess.Renews m run.later := by
    intro m hm
    exact hrun.later m (Runs.run_append_eq_some.mpr ⟨p, hearlier, Runs.run_cons_eq_some.mpr ⟨m, hm, rfl⟩⟩)
  have hsplit : Runs.run ServiceProcess.step run.start (run.earlier ++ run.failing :: run.later) =
      (p.step run.failing).bind fun m => Runs.run ServiceProcess.step m run.later := by
    rw [Runs.run_append, show Runs.run ServiceProcess.step run.start run.earlier = some p from hearlier,
      Option.bind_some, Runs.run_cons]
  rw [overflows_iff hearlier htimer, ← ServiceProcess.margin_lt_iff setAt p.expiresAt hdue, KeepsRunning, hsplit]
  split at hstep
  · case isTrue hmargin =>
      refine iff_of_false ?_ (Int.not_lt.mpr hmargin)
      intro hkeeps
      obtain ⟨m, hm, hready, _⟩ := hkeeps
      rw [hstep, Option.bind_some, hq.fail_eq] at hm
      cases hrest : run.later with
      | nil =>
          rw [hrest] at hm
          cases hm
          cases hready
      | cons firing firings =>
          rw [hrest, Runs.run_cons, ServiceProcess.step] at hm
          dsimp only at hm
          rw [hfired] at hm
          cases hm
  · case isFalse hmargin =>
      refine iff_of_true ?_ (Int.not_le.mp hmargin)
      obtain ⟨m, hm, hend, _⟩ := (hq.setTimeout retryIntervalMs).run_of_renews rfl (hlater _ hstep)
      rw [hstep, Option.bind_some]
      exact ⟨m, hm, hend.ready, hend.fatal⟩

end ServiceRun

/-- No run of the auth service survives its failure, and a run of the backend does just if the failing
renewal was set for more than a timer can wait. -/
theorem failures_survived_iff {loopRun : LoopRun} {serviceRun : ServiceRun} (hloop : loopRun.OneFailure)
    (hservice : serviceRun.OneFailure) :
    ¬ loopRun.KeepsRunning ∧ (serviceRun.KeepsRunning ↔ serviceRun.Overflows) :=
  ⟨hloop.not_keepsRunning, hservice.keepsRunning_iff⟩

/-! ### Leases of an hour, and Vault away once -/

def hourCredentials : DatabaseCredentials :=
  ⟨"backend", "secret", "database/creds/backend/1", 3600 * second⟩

/-- Every call takes a second of the clock's and is granted an hour. -/
def hourCalls : RenewalCalls where
  renewToken := ⟨1000000000, .ok ⟨3600 * second⟩⟩
  renewDatabaseCredentials := fun _ => ⟨1000000000, .ok hourCredentials⟩
  login := ⟨1000000000, .ok ⟨3600 * second⟩⟩
  issueDatabaseCredentials := ⟨1000000000, .ok hourCredentials⟩
  refreshDatabase := fun _ => ⟨1000000000, .ok ()⟩

def sealedError : VaultError :=
  ⟨some 503, "Vault returned HTTP 503"⟩

def sealedCalls : RenewalCalls :=
  { hourCalls with
    renewToken := ⟨1000000000, .error sealedError⟩
    login := ⟨1000000000, .error sealedError⟩ }

def hourRun : LoopRun where
  now := 0
  token := ⟨3600 * second⟩
  credentials := hourCredentials
  earlier := [⟨0, 0, some 0, hourCalls, 0, some 0⟩]
  failing := ⟨0, 0, some 0, sealedCalls, 0, some 0⟩
  later := []

theorem hourCalls_grantMoreThan : hourCalls.GrantMoreThan (2 * renewalSafetyMargin) := by
  constructor
  · intro token htoken
    cases htoken
    decide
  · intro old credentials hcredentials
    cases hcredentials
    decide
  · intro token htoken
    cases htoken
    decide
  · intro credentials hcredentials
    cases hcredentials
    decide

theorem hourRun_oneFailure : hourRun.OneFailure where
  token := by decide
  credentials := by decide
  earlier := ⟨⟨⟨0, rfl, by decide⟩, hourCalls_grantMoreThan⟩, fun _ _ => trivial⟩
  fails := by
    intro loop hloop
    cases hloop
    exact ⟨0, _, _, rfl, rfl, rfl, by decide⟩
  later := fun _ _ => trivial

def serviceHourCredentials : VaultDatabaseCredentials :=
  ⟨"backend", "secret", "database/creds/backend/1", 3600000⟩

def serviceHourCalls : ServiceCalls where
  renewToken := ⟨1000, .ok ⟨3600000⟩⟩
  renewDatabaseCredentials := fun _ => ⟨1000, .ok serviceHourCredentials⟩
  login := fun _ _ => ⟨1000, .ok ⟨3600000⟩⟩
  issueDatabaseCredentials := ⟨1000, .ok serviceHourCredentials⟩
  databaseRefreshers := fun _ => ⟨1000, .ok ()⟩
  recording := 0
  scheduling := 0

def sealedResponse : RequestError :=
  ⟨some 503, ["Vault is sealed"], some "Status 503"⟩

def serviceSealedCalls : ServiceCalls :=
  { serviceHourCalls with
    renewToken := ⟨1000, .error sealedResponse⟩
    login := fun _ _ => ⟨1000, .error sealedResponse⟩ }

def serviceHourRun : ServiceRun where
  now := 0
  roleId := "role"
  secretId := "secret"
  token := ⟨3600000⟩
  credentials := serviceHourCredentials
  recording := 0
  scheduling := 0
  earlier := [⟨0, serviceHourCalls⟩]
  failing := ⟨0, serviceSealedCalls⟩
  later := []

theorem serviceHourCalls_grantMoreThan : serviceHourCalls.GrantMoreThan (2 * renewalSafetyMarginMs) := by
  constructor
  · intro token htoken
    cases htoken
    decide
  · intro old credentials hcredentials
    cases hcredentials
    decide
  · intro roleId secretId token htoken
    cases htoken
    decide
  · intro credentials hcredentials
    cases hcredentials
    decide

theorem serviceHourRun_oneFailure : serviceHourRun.OneFailure where
  roleId := by decide
  secretId := by decide
  token := by decide
  credentials := by decide
  earlier := by
    refine ⟨?_, fun _ _ => trivial⟩
    intro timeout htimeout
    cases htimeout
    exact ⟨by decide, serviceHourCalls_grantMoreThan⟩
  fails := by
    intro p hp
    cases hp
    exact ⟨_, _, sealedResponse, rfl, rfl, rfl, by decide⟩
  later := fun _ _ => trivial

theorem failures_survived_iff_of_hour :
    ¬ hourRun.KeepsRunning ∧ (serviceHourRun.KeepsRunning ↔ serviceHourRun.Overflows) :=
  failures_survived_iff hourRun_oneFailure serviceHourRun_oneFailure

/-- The service has failed, for good. -/
theorem hour_not_survived :
    hourRun.OneFailure ∧ serviceHourRun.OneFailure ∧ ¬ hourRun.KeepsRunning ∧ ¬ serviceHourRun.KeepsRunning := by
  refine ⟨hourRun_oneFailure, serviceHourRun_oneFailure, hourRun_oneFailure.not_keepsRunning, ?_⟩
  intro hkeeps
  obtain ⟨p, hrun, hready, _⟩ := hkeeps
  have hend : (Runs.run ServiceProcess.step serviceHourRun.start
      (serviceHourRun.earlier ++ serviceHourRun.failing :: serviceHourRun.later)).map (·.service.ready) = some false := by
    decide +kernel
  rw [hrun, Option.map_some, hready] at hend
  cases hend

end Transcendence.Vault
