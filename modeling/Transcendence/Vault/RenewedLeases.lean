import Transcendence.Vault.DrainedClients

/-!
# Renewals in time

What keeps the leases of the backend: where Vault grants enough and renewals are prompt, the service never takes
its token and the lease of its client to end much later than they do, and it renews both early enough (`Inv`).
-/

namespace Transcendence.Vault

/-! ### Runs -/

/-- How long after its timer is due a renewal may take to have replaced the client, and how late a drain timer
may fire. -/
structure Bounds where
  renewal : Nat
  drain : Nat

/-- What is left of the safety margin after a retry is enough for two renewals, and for the client that is
drained. -/
def Bounds.Fit (bounds : Bounds) : Prop :=
  2 * bounds.renewal + bounds.drain + poolDrainTimeoutMs + retryIntervalMs < renewalSafetyMarginMs

instance (bounds : Bounds) : Decidable bounds.Fit :=
  inferInstanceAs (Decidable (_ < _))

/-- `reauthenticate` has logged in. -/
def Stage.loggedIn : Stage → Bool
  | .reissue _ _ => true
  | .reconnect _ _ => true
  | _ => false

namespace Backend

def loggedIn (s : Backend) : Bool :=
  s.renewal.any (·.stage.loggedIn)

/-- When the last renewal timer that was set is due, or was. -/
def due (s : Backend) : Option Int :=
  match s.renewal with
  | some renewal => some renewal.timeout.due
  | none => s.process.service.renewalTimer.map (·.due)

/-- The end of what a renewal extends. -/
def former (s : Backend) : Option Int :=
  match s.renewal with
  | some ⟨_, .renewToken _⟩ => s.vault.tokens s.clientToken
  | some ⟨_, .renewDatabaseCredentials _⟩ => s.process.service.databaseCredentials.bind fun credentials =>
      (s.vault.leases credentials.leaseId).map (·.expiresAt)
  | _ => none

/-- Renewals and drain timers are in time. -/
def Timely (bounds : Bounds) (s : Backend) : Prop :=
  (∀ due ∈ s.due, s.now ≤ due + bounds.renewal) ∧
    ∀ timer ∈ s.prisma.drainTimers, s.now ≤ timer.timeout.due + bounds.drain

instance (bounds : Bounds) (s : Backend) : Decidable (s.Timely bounds) :=
  inferInstanceAs (Decidable (_ ∧ _))

/-- Vault grants no less than the safety margin, for at least as long as it says, and shortens nothing. A
renewal that has logged in and fails is the last. -/
def Regular (s : Backend) : Event → Prop
  | .granted grant => renewalSafetyMarginMs ≤ grant.leaseDurationMs ∧ s.now + grant.leaseDurationMs ≤ grant.expiresAt ∧
      ∀ former ∈ s.former, former ≤ grant.expiresAt
  | .failed error => s.loggedIn → isVaultAuthorizationError error ∨ s.process.expiresAt - s.now ≤ renewalSafetyMarginMs
  | _ => True

instance (s : Backend) (event : Event) : Decidable (s.Regular event) := by
  cases event <;> unfold Regular <;> infer_instance

/-- Vault grants what the service relies on, and while the service is ready the timers are in time. -/
def Prompt (bounds : Bounds) (s : Backend) (event : Event) : Prop :=
  s.Regular event ∧ ∀ t ∈ s.step event, t.ready → t.Timely bounds

instance (bounds : Bounds) (s : Backend) (event : Event) : Decidable (s.Prompt bounds event) :=
  inferInstanceAs (Decidable (_ ∧ ∀ t ∈ s.step event, _))

/-! ### What has been granted -/

/-- The token has been granted or renewed since the renewal was due. -/
structure TokenGranted (vault : Leases String String Int) (due : Int) (id : String) (token : VaultToken) : Prop where
  margin : renewalSafetyMarginMs ≤ token.leaseDurationMs
  lasts : vault.TokenLasts id (due + token.leaseDurationMs)

/-- So have the credentials, under the token. -/
structure CredentialsGranted (vault : Leases String String Int) (due : Int) (token : String)
    (credentials : VaultDatabaseCredentials) : Prop where
  margin : renewalSafetyMarginMs ≤ credentials.leaseDurationMs
  lasts : vault.LeaseLasts token credentials.leaseId (due + credentials.leaseDurationMs)

/-- What the stage of a renewal says of the grants. -/
def Granted (s : Backend) (due : Int) : Stage → Prop
  | .renewToken answer => ∀ token, answer = some token → TokenGranted s.vault due s.clientToken token
  | .renewDatabaseCredentials answer => due + renewalSafetyMarginMs ≤ s.process.service.tokenExpiresAt ∧
      ∀ credentials, answer = some credentials → CredentialsGranted s.vault due s.clientToken credentials
  | .issueDatabaseCredentials answer => due + renewalSafetyMarginMs ≤ s.process.service.tokenExpiresAt ∧
      ∀ credentials, answer = some credentials → CredentialsGranted s.vault due s.clientToken credentials
  | .refreshDatabase credentials => due + renewalSafetyMarginMs ≤ s.process.service.tokenExpiresAt ∧
      CredentialsGranted s.vault due s.clientToken credentials
  | .login answer => ∀ login, answer = some login → TokenGranted s.vault due login.1 login.2
  | .reissue token answer => TokenGranted s.vault due s.clientToken token ∧
      ∀ credentials, answer = some credentials → CredentialsGranted s.vault due s.clientToken credentials
  | .reconnect token credentials => TokenGranted s.vault due s.clientToken token ∧
      CredentialsGranted s.vault due s.clientToken credentials

/-- What the service takes for the ends of its token and of the lease of its client is too late by no more than a
renewal may take, and the next renewal is due early enough. -/
structure Inv (bounds : Bounds) (s : Backend) : Prop where
  timely : s.Timely bounds
  stopped : s.process.service.stopped = false
  due : ∃ due, s.due = some due ∧ due + (renewalSafetyMarginMs - retryIntervalMs) ≤ s.process.expiresAt
  credentials : ∃ credentials, s.process.service.databaseCredentials = some credentials ∧
    credentials.leaseId = s.prisma.client.credentials.leaseId
  lasts : ∃ token, s.vault.TokenLasts token (s.process.service.tokenExpiresAt - bounds.renewal) ∧
    s.vault.LeaseLasts token s.prisma.client.credentials.leaseId (s.process.service.databaseExpiresAt - bounds.renewal) ∧
      (s.loggedIn = false → token = s.clientToken)
  renewal : ∀ renewal, s.renewal = some renewal →
    renewal.timeout.due ≤ s.now ∧ s.Granted renewal.timeout.due renewal.stage
  drains : ∀ timer ∈ s.prisma.drainTimers,
    s.vault.LivesUntil timer.previousClient.credentials.leaseId (timer.timeout.due + bounds.drain + 1)

variable {bounds : Bounds} {s t : Backend} {event : Event} {renewal : Renewal} {error : RequestError} {grant : Grant}

theorem Inv.livesUntil (h : s.Inv bounds) :
    s.vault.LivesUntil s.prisma.client.credentials.leaseId (s.process.expiresAt - bounds.renewal) := by
  obtain ⟨token, htoken, hlease, -⟩ := h.lasts
  have hexpires : s.process.expiresAt = min s.process.service.tokenExpiresAt s.process.service.databaseExpiresAt := rfl
  exact ⟨token, hlease.mono (by omega), htoken.mono (by omega)⟩

theorem due_of_renewal (hrenewal : s.renewal = some renewal) : s.due = some renewal.timeout.due := by
  rw [Backend.due, hrenewal]

theorem loggedIn_of_renewal (hrenewal : s.renewal = some renewal) : s.loggedIn = renewal.stage.loggedIn := by
  rw [loggedIn, hrenewal]
  rfl

theorem Inv.due_le (h : s.Inv bounds) (hrenewal : s.renewal = some renewal) :
    renewal.timeout.due + (renewalSafetyMarginMs - retryIntervalMs) ≤ s.process.expiresAt := by
  obtain ⟨due, hdue, hle⟩ := h.due
  rw [due_of_renewal hrenewal] at hdue
  cases hdue
  exact hle

theorem Inv.now_le (h : s.Inv bounds) (hrenewal : s.renewal = some renewal) :
    s.now ≤ renewal.timeout.due + bounds.renewal :=
  h.timely.1 _ (due_of_renewal hrenewal)

/-! ### Vault handles a call -/

theorem granted_issue {issued : Leases String String Int × VaultDatabaseCredentials} {due : Int} (hdue : due ≤ s.now)
    (hregular : s.Regular (.granted grant)) (h : s.issue grant = some issued) :
    Leases.Grows s.vault issued.1 ∧ CredentialsGranted issued.1 due s.clientToken issued.2 := by
  obtain ⟨hmargin, hsaid, -⟩ := hregular
  rw [issue] at h
  split_ifs at h with hguard
  cases h
  have hfresh := of_decide_eq_true (Bool.and_eq_true_iff.mp hguard).2
  refine ⟨Leases.grows_setLease fun old hold => ?_, hmargin, ?_⟩
  · rw [hfresh] at hold
    cases hold
  · apply (s.vault.leaseLasts_setLease s.clientToken grant.id grant.expiresAt).mono
    show due + grant.leaseDurationMs ≤ grant.expiresAt
    omega

theorem granted_renewLease {renewed : Leases String String Int × VaultDatabaseCredentials} (hinv : s.Inv bounds)
    {timeout : Timeout} {answer : Option VaultDatabaseCredentials}
    (hrenewal : s.renewal = some ⟨timeout, .renewDatabaseCredentials answer⟩)
    (hregular : s.Regular (.granted grant)) (h : s.renewLease grant = some renewed) :
    Leases.Grows s.vault renewed.1 ∧ CredentialsGranted renewed.1 timeout.due s.clientToken renewed.2 := by
  obtain ⟨hmargin, hsaid, hformer⟩ := hregular
  obtain ⟨credentials, hcredentials, hcurrent⟩ := hinv.credentials
  obtain ⟨token, -, ⟨expiresAt, hlease, -⟩, htoken⟩ := hinv.lasts
  have hclient : token = s.clientToken := htoken (loggedIn_of_renewal hrenewal)
  rw [← hcurrent] at hlease
  rw [renewLease, hcredentials] at h
  dsimp only at h
  rw [hlease] at h
  dsimp only at h
  split_ifs at h
  cases h
  have hlater : expiresAt ≤ grant.expiresAt := by
    apply hformer
    rw [former, hrenewal]
    show (s.process.service.databaseCredentials.bind _) = _
    rw [hcredentials, Option.bind_some, hlease]
    rfl
  refine ⟨Leases.grows_setLease fun old hold => ?_, hmargin, ?_⟩
  · rw [hlease] at hold
    cases hold
    exact ⟨rfl, hlater⟩
  · rw [← hclient]
    apply (s.vault.leaseLasts_setLease token credentials.leaseId grant.expiresAt).mono
    have hdue : timeout.due ≤ s.now := (hinv.renewal _ hrenewal).1
    show timeout.due + grant.leaseDurationMs ≤ grant.expiresAt
    omega

theorem granted_handle {handled : Leases String String Int × Stage} (hinv : s.Inv bounds) (hrenewal : s.renewal = some renewal)
    (hregular : s.Regular (.granted grant)) (h : s.handle grant renewal.stage = some handled) :
    Leases.Grows s.vault handled.1 ∧ { s with vault := handled.1 }.Granted renewal.timeout.due handled.2 ∧
      handled.2.loggedIn = renewal.stage.loggedIn := by
  obtain ⟨timeout, stage⟩ := renewal
  obtain ⟨hdue, hgranted⟩ := hinv.renewal _ hrenewal
  have hsaid : timeout.due + grant.leaseDurationMs ≤ grant.expiresAt := by
    have hsaid := hregular.2.1
    dsimp only at hdue
    omega
  dsimp only at h hgranted hdue
  unfold handle at h
  split at h
  · split_ifs at h
    cases h
    refine ⟨Leases.grows_setToken fun old hold => hregular.2.2 old ?_, fun token htoken => ?_, rfl⟩
    · rw [former, hrenewal]
      exact hold
    · cases htoken
      exact ⟨hregular.1, (s.vault.tokenLasts_setToken s.clientToken grant.expiresAt).mono hsaid⟩
  · split_ifs at h with hfresh
    cases h
    refine ⟨Leases.grows_setToken fun old hold => ?_, fun login hlogin => ?_, rfl⟩
    · rw [hfresh] at hold
      cases hold
    · cases hlogin
      exact ⟨hregular.1, (s.vault.tokenLasts_setToken grant.id grant.expiresAt).mono hsaid⟩
  · obtain ⟨renewed, hrenewed, rfl⟩ := Option.map_eq_some_iff.mp h
    obtain ⟨hgrows, hcredentials⟩ := granted_renewLease hinv hrenewal hregular hrenewed
    refine ⟨hgrows, ⟨hgranted.1, fun credentials heq => ?_⟩, rfl⟩
    cases heq
    exact hcredentials
  · obtain ⟨issued, hissued, rfl⟩ := Option.map_eq_some_iff.mp h
    obtain ⟨hgrows, hcredentials⟩ := granted_issue hdue hregular hissued
    refine ⟨hgrows, ⟨hgranted.1, fun credentials heq => ?_⟩, rfl⟩
    cases heq
    exact hcredentials
  · obtain ⟨issued, hissued, rfl⟩ := Option.map_eq_some_iff.mp h
    obtain ⟨hgrows, hcredentials⟩ := granted_issue hdue hregular hissued
    refine ⟨hgrows, ⟨⟨hgranted.1.margin, hgrows.tokens _ _ hgranted.1.lasts⟩, fun credentials heq => ?_⟩, rfl⟩
    cases heq
    exact hcredentials
  · cases h

theorem Inv.granted {handled : Leases String String Int × Stage} (hinv : s.Inv bounds) (hrenewal : s.renewal = some renewal)
    (hregular : s.Regular (.granted grant)) (h : s.handle grant renewal.stage = some handled)
    (htimely : ({ s with vault := handled.1 }.await renewal handled.2).Timely bounds) :
    ({ s with vault := handled.1 }.await renewal handled.2).Inv bounds := by
  obtain ⟨hgrows, hgranted, hloggedIn⟩ := granted_handle hinv hrenewal hregular h
  constructor
  · exact htimely
  · exact hinv.stopped
  · exact ⟨renewal.timeout.due, rfl, hinv.due_le hrenewal⟩
  · exact hinv.credentials
  · obtain ⟨token, htoken, hlease, hclient⟩ := hinv.lasts
    refine ⟨token, hgrows.tokens _ _ htoken, hgrows.leases _ _ _ hlease, fun hnot => hclient ?_⟩
    rw [loggedIn_of_renewal hrenewal, ← hloggedIn]
    exact hnot
  · intro renewal' heq
    cases heq
    exact ⟨(hinv.renewal _ hrenewal).1, hgranted⟩
  · exact fun timer htimer => (hinv.drains timer htimer).grows hgrows

/-! ### The renewal goes on -/

/-- A renewal that waits for something else, with what it has been granted. -/
theorem Inv.await {stage : Stage} (hinv : s.Inv bounds) (hrenewal : s.renewal = some renewal)
    (hloggedIn : stage.loggedIn = renewal.stage.loggedIn) (hgranted : s.Granted renewal.timeout.due stage)
    (htimely : (s.await renewal stage).Timely bounds) : (s.await renewal stage).Inv bounds := by
  constructor
  · exact htimely
  · exact hinv.stopped
  · exact ⟨renewal.timeout.due, rfl, hinv.due_le hrenewal⟩
  · exact hinv.credentials
  · obtain ⟨token, htoken, hlease, hclient⟩ := hinv.lasts
    refine ⟨token, htoken, hlease, fun hnot => hclient ?_⟩
    rw [loggedIn_of_renewal hrenewal, ← hloggedIn]
    exact hnot
  · intro renewal' heq
    cases heq
    exact ⟨(hinv.renewal _ hrenewal).1, hgranted⟩
  · exact hinv.drains

/-- The new end of the token is no later than the true one, and later than the margin requires. -/
theorem Inv.renewedToken {timeout : Timeout} {token : VaultToken} (hinv : s.Inv bounds)
    (hrenewal : s.renewal = some ⟨timeout, .renewToken (some token)⟩)
    (htimely : ({ s with process := s.process.setToken token }.await ⟨timeout, .renewToken (some token)⟩
      (.renewDatabaseCredentials none)).Timely bounds) :
    ({ s with process := s.process.setToken token }.await ⟨timeout, .renewToken (some token)⟩
      (.renewDatabaseCredentials none)).Inv bounds := by
  obtain ⟨hdue, hgranted⟩ := hinv.renewal _ hrenewal
  obtain ⟨hmargin, hlasts⟩ := hgranted token rfl
  have hbefore := hinv.due_le hrenewal
  have hnow := hinv.now_le hrenewal
  dsimp only at hdue hlasts hbefore hnow
  have hretry : 0 ≤ retryIntervalMs := by decide
  constructor
  · exact htimely
  · exact hinv.stopped
  · refine ⟨timeout.due, rfl, ?_⟩
    show _ ≤ min (s.now + token.leaseDurationMs) s.process.service.databaseExpiresAt
    change _ ≤ min s.process.service.tokenExpiresAt s.process.service.databaseExpiresAt at hbefore
    omega
  · exact hinv.credentials
  · obtain ⟨name, -, hlease, hclient⟩ := hinv.lasts
    have hname : name = s.clientToken := hclient (loggedIn_of_renewal hrenewal)
    refine ⟨name, ?_, hlease, fun _ => hname⟩
    rw [hname]
    apply hlasts.mono
    show s.now + token.leaseDurationMs - bounds.renewal ≤ _
    omega
  · intro renewal' heq
    cases heq
    refine ⟨hdue, ?_, fun credentials heq => by cases heq⟩
    show timeout.due + renewalSafetyMarginMs ≤ s.now + token.leaseDurationMs
    omega
  · exact hinv.drains

/-- The service has a new token, and the credentials that it has are still those under the old one. -/
theorem Inv.loggedIn {timeout : Timeout} {clientToken : String} {token : VaultToken} (hinv : s.Inv bounds)
    (hrenewal : s.renewal = some ⟨timeout, .login (some (clientToken, token))⟩)
    (htimely : ({ s with clientToken := clientToken }.await ⟨timeout, .login (some (clientToken, token))⟩
      (.reissue token none)).Timely bounds) :
    ({ s with clientToken := clientToken }.await ⟨timeout, .login (some (clientToken, token))⟩
      (.reissue token none)).Inv bounds := by
  obtain ⟨hdue, hgranted⟩ := hinv.renewal _ hrenewal
  constructor
  · exact htimely
  · exact hinv.stopped
  · exact ⟨timeout.due, rfl, hinv.due_le hrenewal⟩
  · exact hinv.credentials
  · obtain ⟨old, htoken, hlease, -⟩ := hinv.lasts
    refine ⟨old, htoken, hlease, fun hnot => ?_⟩
    cases hnot
  · intro renewal' heq
    cases heq
    exact ⟨hdue, hgranted _ rfl, fun credentials heq => by cases heq⟩
  · exact hinv.drains

/-- A renewal that is not the last is tried again before the margin is reached. -/
theorem Inv.renewalFailed (hinv : s.Inv bounds) (hrenewal : s.renewal = some renewal)
    (hregular : renewal.stage.loggedIn →
      isVaultAuthorizationError error ∨ s.process.expiresAt - s.now ≤ renewalSafetyMarginMs)
    (hready : (s.renewalFailed error).ready) (htimely : (s.renewalFailed error).Timely bounds) :
    (s.renewalFailed error).Inv bounds := by
  by_cases hlast : isVaultAuthorizationError error ∨ s.process.expiresAt - s.now ≤ renewalSafetyMarginMs
  · exfalso
    have hprocess : (s.renewalFailed error).process = s.process.fail error :=
      if_pos (by rw [Bool.or_eq_true, decide_eq_true_eq]; exact hlast)
    rw [ready, hprocess, ServiceProcess.fail, hinv.stopped, Bool.false_or] at hready
    split_ifs at hready with hnot
    rw [hready] at hnot
    cases hnot
  · have hprocess : (s.renewalFailed error).process = s.process.setTimeout retryIntervalMs :=
      if_neg (by rw [Bool.or_eq_true, decide_eq_true_eq]; exact hlast)
    have hlater : s.now + renewalSafetyMarginMs ≤ s.process.expiresAt := by
      rw [not_or] at hlast
      omega
    constructor
    · exact htimely
    · rw [hprocess]
      exact hinv.stopped
    · refine ⟨s.now + retryIntervalMs, ?_, ?_⟩
      · rw [Backend.due]
        show (s.renewalFailed error).process.service.renewalTimer.map _ = _
        rw [hprocess]
        rfl
      · rw [hprocess]
        show _ ≤ s.process.expiresAt
        omega
    · rw [hprocess]
      exact hinv.credentials
    · obtain ⟨token, htoken, hlease, hclient⟩ := hinv.lasts
      rw [hprocess]
      refine ⟨token, htoken, hlease, fun _ => hclient ?_⟩
      rw [loggedIn_of_renewal hrenewal]
      by_contra hloggedIn
      exact hlast (hregular (Bool.eq_true_of_not_eq_false hloggedIn))
    · intro renewal' heq
      cases heq
    · exact hinv.drains

/-! ### The client is replaced -/

theorem renewal_lt_retry (hfit : bounds.Fit) : (bounds.renewal : Int) + 1 ≤ retryIntervalMs := by
  simp only [Bounds.Fit, poolDrainTimeoutMs, retryIntervalMs, renewalSafetyMarginMs] at hfit ⊢
  omega

/-- The next renewal is due as long before the ends of what there is as after a retry. -/
theorem due_renewalTimeout_le {setAt expiresAt : Int} (hfit : bounds.Fit)
    (hmargin : setAt + renewalSafetyMarginMs ≤ expiresAt + bounds.renewal) :
    (ServiceProcess.renewalTimeout setAt expiresAt).due + (renewalSafetyMarginMs - retryIntervalMs) ≤ expiresAt := by
  have hrenewal := renewal_lt_retry hfit
  rw [Timeout.due]
  simp only [ServiceProcess.renewalTimeout, renewalSafetyMarginMs, retryIntervalMs, timeoutMax] at hmargin hrenewal ⊢
  split_ifs <;> omega

/-- What `connected` makes of a service that has recorded its leases. -/
def replaced (s : Backend) (process : ServiceProcess) (credentials : VaultDatabaseCredentials) : Backend :=
  { s with
    prisma := s.prisma.replaceClient s.now credentials
    process := process.scheduleRenewal
    renewal := none }

theorem Inv.replaced {process : ServiceProcess} {credentials : VaultDatabaseCredentials} (hinv : s.Inv bounds)
    (hfit : bounds.Fit) (hrenewal : s.renewal = some renewal) (hnow : process.now = s.now)
    (hstopped : process.service.stopped = false) (hcredentials : process.service.databaseCredentials = some credentials)
    (hmargin : s.now + renewalSafetyMarginMs ≤ process.expiresAt + bounds.renewal)
    (htoken : s.vault.TokenLasts s.clientToken (process.service.tokenExpiresAt - bounds.renewal))
    (hlease : s.vault.LeaseLasts s.clientToken credentials.leaseId (process.service.databaseExpiresAt - bounds.renewal))
    (hready : process.service.ready = true) (htimely : (s.replaced process credentials).Timely bounds) :
    (s.replaced process credentials).Inv bounds := by
  have hscheduled : process.scheduleRenewal =
      process.setTimeout (max 0 (process.expiresAt - process.now - renewalSafetyMarginMs)) := by
    rw [ServiceProcess.scheduleRenewal, hstopped, hready]
    rfl
  have hprocess : (s.replaced process credentials).process = process.setTimeout _ := hscheduled
  constructor
  · exact htimely
  · rw [hprocess]
    exact hstopped
  · refine ⟨(ServiceProcess.renewalTimeout process.now process.expiresAt).due, ?_, ?_⟩
    · show (s.replaced process credentials).process.service.renewalTimer.map _ = _
      rw [hprocess]
      rfl
    · rw [hprocess]
      exact due_renewalTimeout_le hfit (hnow ▸ hmargin)
  · rw [hprocess]
    exact ⟨credentials, hcredentials, rfl⟩
  · rw [hprocess]
    exact ⟨s.clientToken, htoken, hlease, fun _ => rfl⟩
  · intro renewal' heq
    cases heq
  · intro timer htimer
    rcases List.mem_cons.mp htimer with heq | hmem
    · subst heq
      apply hinv.livesUntil.mono
      show s.now + poolDrainTimeoutMs + bounds.drain + 1 ≤ _
      have hbefore := hinv.due_le hrenewal
      have hlate := hinv.now_le hrenewal
      rw [Bounds.Fit] at hfit
      omega
    · exact hinv.drains timer hmem

theorem ready_scheduleRenewal (p : ServiceProcess) : p.scheduleRenewal.service.ready = p.service.ready := by
  unfold ServiceProcess.scheduleRenewal
  split <;> rfl

theorem Inv.connected (hinv : s.Inv bounds) (hfit : bounds.Fit) (hrenewal : s.renewal = some renewal)
    (h : s.connected renewal = some t) (hready : t.ready) (htimely : t.Timely bounds) : t.Inv bounds := by
  obtain ⟨timeout, stage⟩ := renewal
  obtain ⟨hdue, hgranted⟩ := hinv.renewal _ hrenewal
  have hlate := hinv.now_le hrenewal
  dsimp only at hdue hgranted hlate
  unfold Backend.connected at h
  split at h
  · next credentials hstage =>
      cases h
      dsimp only at hstage
      subst hstage
      obtain ⟨htokenEnd, hmargin, hlease⟩ := hgranted
      obtain ⟨token, htoken, -, hclient⟩ := hinv.lasts
      rw [hclient (loggedIn_of_renewal hrenewal)] at htoken
      have hnow : (s.process.setDatabase credentials).now = s.now := rfl
      refine hinv.replaced hfit hrenewal hnow hinv.stopped rfl ?_ htoken ?_ ?_ htimely
      · show s.now + _ ≤ min s.process.service.tokenExpiresAt (s.now + credentials.leaseDurationMs) + _
        omega
      · apply hlease.mono
        show s.now + credentials.leaseDurationMs - _ ≤ _
        omega
      · exact (ready_scheduleRenewal _).symm.trans hready
  · next token credentials hstage =>
      cases h
      dsimp only at hstage
      subst hstage
      obtain ⟨⟨htokenMargin, htoken⟩, hmargin, hlease⟩ := hgranted
      have hnow : ((s.process.setToken token).setDatabase credentials).now = s.now := rfl
      refine hinv.replaced hfit hrenewal hnow hinv.stopped rfl ?_ ?_ ?_ ?_ htimely
      · show s.now + _ ≤ min (s.now + token.leaseDurationMs) (s.now + credentials.leaseDurationMs) + _
        omega
      · apply htoken.mono
        show s.now + token.leaseDurationMs - _ ≤ _
        omega
      · apply hlease.mono
        show s.now + credentials.leaseDurationMs - _ ≤ _
        omega
      · exact (ready_scheduleRenewal _).symm.trans hready
  · cases h

/-! ### A step -/

/-- No step makes the service ready. -/
theorem ready_renewalFailed (hready : (s.renewalFailed error).ready) : s.ready := by
  rw [Backend.renewalFailed, ready] at hready
  split at hready
  · rw [ServiceProcess.fail] at hready
    split at hready
    · exact hready
    · cases hready
  · exact hready

theorem ready_of_step (h : s.step event = some t) (hready : t.ready) : s.ready := by
  cases event with
  | pass elapsed =>
      cases h
      exact hready
  | fired =>
      have hfired : s.fired = some t := h
      unfold fired at hfired
      split at hfired
      · split_ifs at hfired
        cases hfired
        exact hready
      · cases hfired
  | granted grant =>
      obtain ⟨renewal, -, hhandled⟩ := Option.bind_eq_some_iff.mp h
      obtain ⟨handled, -, rfl⟩ := Option.map_eq_some_iff.mp hhandled
      exact hready
  | answered =>
      obtain ⟨renewal, -, hanswered⟩ := Option.bind_eq_some_iff.mp h
      unfold Backend.answered at hanswered
      split at hanswered
      · dsimp only at hanswered
        split at hanswered
        · cases hanswered
          have hbefore := ready_renewalFailed hready
          exact hbefore
        · cases hanswered
          exact hready
      all_goals
        cases hanswered
        try exact hready
  | failed error =>
      obtain ⟨renewal, -, rfl⟩ := Option.map_eq_some_iff.mp h
      rcases s.failed_cases renewal error with ⟨-, -, heq⟩ | ⟨-, -, heq⟩ | ⟨thrown, heq, -⟩
      · rw [heq] at hready
        exact hready
      · rw [heq] at hready
        exact hready
      · rw [heq] at hready
        exact ready_renewalFailed hready
  | connected =>
      obtain ⟨renewal, -, hconnected⟩ := Option.bind_eq_some_iff.mp h
      unfold Backend.connected at hconnected
      split at hconnected
      · cases hconnected
        rw [ready, ready_scheduleRenewal] at hready
        exact hready
      · cases hconnected
        rw [ready, ready_scheduleRenewal] at hready
        exact hready
      · cases hconnected
  | drained index =>
      obtain ⟨prisma, -, rfl⟩ := Option.map_eq_some_iff.mp h
      exact hready
  | transaction =>
      cases h
      exact hready

/-! ### A step of the renewal -/

theorem Inv.answered (hinv : s.Inv bounds) (hrenewal : s.renewal = some renewal) (h : s.answered renewal = some t)
    (htimely : t.Timely bounds) : t.Inv bounds := by
  obtain ⟨timeout, stage⟩ := renewal
  obtain ⟨hdue, hgranted⟩ := hinv.renewal _ hrenewal
  obtain ⟨current, hcurrent, -⟩ := hinv.credentials
  unfold Backend.answered at h
  split at h
  · next token hstage =>
      dsimp only at hstage
      subst hstage
      have hsome : (s.process.setToken token).service.databaseCredentials = some current := hcurrent
      dsimp only at h
      rw [hsome] at h
      cases h
      exact hinv.renewedToken hrenewal htimely
  · next credentials hstage =>
      dsimp only at hstage
      subst hstage
      cases h
      exact hinv.await hrenewal rfl ⟨hgranted.1, hgranted.2 credentials rfl⟩ htimely
  · next credentials hstage =>
      dsimp only at hstage
      subst hstage
      cases h
      exact hinv.await hrenewal rfl ⟨hgranted.1, hgranted.2 credentials rfl⟩ htimely
  · next clientToken token hstage =>
      dsimp only at hstage
      subst hstage
      cases h
      exact hinv.loggedIn hrenewal htimely
  · next token credentials hstage =>
      dsimp only at hstage
      subst hstage
      cases h
      exact hinv.await hrenewal rfl ⟨hgranted.1, hgranted.2 credentials rfl⟩ htimely
  · cases h

theorem Inv.failed (hinv : s.Inv bounds) (hrenewal : s.renewal = some renewal) (hregular : s.Regular (.failed error))
    (hready : (s.failed renewal error).ready) (htimely : (s.failed renewal error).Timely bounds) :
    (s.failed renewal error).Inv bounds := by
  obtain ⟨-, hgranted⟩ := hinv.renewal renewal hrenewal
  rcases s.failed_cases renewal error with ⟨answer, hstage, heq⟩ | ⟨answer, hstage, heq⟩ | ⟨thrown, heq, hthrown⟩
  · rw [heq] at htimely ⊢
    exact hinv.await hrenewal (by rw [hstage]; rfl) (fun login hlogin => by cases hlogin) htimely
  · rw [heq] at htimely ⊢
    rw [hstage] at hgranted
    exact hinv.await hrenewal (by rw [hstage]; rfl) ⟨hgranted.1, fun credentials hsome => by cases hsome⟩ htimely
  · rw [heq] at hready htimely ⊢
    refine hinv.renewalFailed hrenewal (fun hloggedIn => ?_) hready htimely
    rcases hthrown with ⟨answer, hstage⟩ | hsame
    · rw [hstage] at hloggedIn
      cases hloggedIn
    · rw [hsame]
      exact hregular ((loggedIn_of_renewal hrenewal).trans hloggedIn)

theorem Inv.step (hinv : s.Inv bounds) (hfit : bounds.Fit) (hprompt : s.Prompt bounds event) (h : s.step event = some t)
    (hready : t.ready) : t.Inv bounds := by
  obtain ⟨hregular, htimely⟩ := hprompt
  replace htimely : t.Timely bounds := htimely t h hready
  cases event with
  | pass elapsed =>
      cases h
      refine { hinv with timely := htimely, renewal := fun renewal hrenewal => ?_ }
      obtain ⟨hdue, hgranted⟩ := hinv.renewal renewal hrenewal
      exact ⟨hdue.trans (s.process.now_le_pass elapsed), hgranted⟩
  | fired =>
      have hfired : s.fired = some t := h
      unfold fired at hfired
      split at hfired
      · next timeout hnone htimer =>
          split_ifs at hfired with hdue
          cases hfired
          refine { hinv with timely := htimely, due := ?_, lasts := ?_, renewal := fun renewal hrenewal => ?_ }
          · obtain ⟨due, hsome, hle⟩ := hinv.due
            rw [Backend.due, hnone, htimer] at hsome
            cases hsome
            exact ⟨timeout.due, rfl, hle⟩
          · obtain ⟨token, htoken, hlease, hclient⟩ := hinv.lasts
            refine ⟨token, htoken, hlease, fun _ => hclient ?_⟩
            rw [Backend.loggedIn, hnone]
            rfl
          · cases hrenewal
            exact ⟨hdue, fun token heq => by cases heq⟩
      · cases hfired
  | granted grant =>
      obtain ⟨renewal, hrenewal, hhandled⟩ := Option.bind_eq_some_iff.mp h
      obtain ⟨handled, hhandle, rfl⟩ := Option.map_eq_some_iff.mp hhandled
      exact hinv.granted hrenewal hregular hhandle htimely
  | answered =>
      obtain ⟨renewal, hrenewal, hanswered⟩ := Option.bind_eq_some_iff.mp h
      exact hinv.answered hrenewal hanswered htimely
  | failed error =>
      obtain ⟨renewal, hrenewal, rfl⟩ := Option.map_eq_some_iff.mp h
      exact hinv.failed hrenewal hregular hready htimely
  | connected =>
      obtain ⟨renewal, hrenewal, hconnected⟩ := Option.bind_eq_some_iff.mp h
      exact hinv.connected hfit hrenewal hconnected hready htimely
  | drained index =>
      obtain ⟨prisma, hdrain, rfl⟩ := Option.map_eq_some_iff.mp h
      obtain ⟨hindex, -, rfl⟩ := PrismaService.drain_eq_some hdrain
      exact { hinv with
        timely := htimely
        drains := fun timer htimer => hinv.drains timer (List.mem_of_mem_eraseIdx htimer) }
  | transaction =>
      cases h
      exact { hinv with timely := htimely }

/-- What holds in every state of a run. -/
def Sound (bounds : Bounds) (s : Backend) : Prop :=
  s.Kept ∧ (s.ready → s.Inv bounds)

theorem Sound.step (h : s.Sound bounds) (hfit : bounds.Fit) (hprompt : s.Prompt bounds event)
    (hstep : s.step event = some t) : t.Sound bounds := by
  refine ⟨h.1.step hstep, fun hready => ?_⟩
  exact (h.2 (ready_of_step hstep hready)).step hfit hprompt hstep hready

end Backend

end Transcendence.Vault
