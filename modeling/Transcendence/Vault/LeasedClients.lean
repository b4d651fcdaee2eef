import Transcendence.Vault.RenewedLeases

/-!
# Clients on live leases

A user of the database is dropped when the lease of its credentials ends, and a lease ends with the token it was
granted under. Where renewals are prompt, every client of the backend that is connected is on a live lease, and a
transaction of up to half a minute runs over such a client to its end, whatever is renewed meanwhile
(`clients_leased`). One thing has to be excluded: that the service logs in anew, gets no new credentials, and
tries again. It then renews a token of its own, and the credentials that it goes on renewing end with the old one.
-/

namespace Transcendence.Vault

namespace Backend

variable {bounds : Bounds} {s : Backend}

/-! ### The connected clients -/

/-- Every connected client is on a live lease. The current client is one, and so is the client of a transaction, for
half a minute. -/
structure Served (s : Backend) : Prop where
  client : s.prisma.client ∈ s.prisma.connected
  leased : ∀ client ∈ s.prisma.connected, s.vault.isLive s.now client.credentials.leaseId
  transactions : ∀ transaction ∈ s.transactions, s.now < transaction.startedAt + poolDrainTimeoutMs →
    transaction.client ∈ s.prisma.connected

theorem Inv.served (hinv : s.Inv bounds) (hkept : s.Kept) (hfit : bounds.Fit) : s.Served := by
  have hconnected := hkept.prisma.connected
  constructor
  · rw [hconnected]
    exact List.mem_cons_self
  · intro client hclient
    rw [hconnected] at hclient
    rcases List.mem_cons.mp hclient with heq | hmem
    · subst heq
      apply Leases.isLive_of_livesUntil hinv.livesUntil
      obtain ⟨due, hdue, hle⟩ := hinv.due
      have hlate := hinv.timely.1 due hdue
      simp only [Bounds.Fit, poolDrainTimeoutMs, retryIntervalMs, renewalSafetyMarginMs] at hfit hle
      omega
    · obtain ⟨timer, htimer, rfl⟩ := List.mem_map.mp hmem
      apply Leases.isLive_of_livesUntil (hinv.drains timer htimer)
      have hlate := hinv.timely.2 timer htimer
      omega
  · intro transaction htransaction hnow
    rcases hkept.keepsUntil transaction htransaction with hkeeps | hended
    · exact hkeeps.mem_connected hkept.prisma
    · omega

end Backend

/-- How the backend starts: `initialize` has logged in, has been issued credentials and has recorded both, and
`onModuleInit` has connected the first client and registered the refresher. -/
structure Start where
  roleId : String
  secretId : String
  clientToken : String
  token : VaultToken
  credentials : VaultDatabaseCredentials
  vault : Leases String String Int
  loggedInAt : Int
  issuedAt : Int
  initializedAt : Int
  connectedAt : Int

namespace Start

def initialized (start : Start) : ServiceProcess :=
  ServiceProcess.initialized start.initializedAt start.roleId start.secretId start.token start.credentials 0 0

def backend (start : Start) : Backend where
  process := { start.initialized with now := start.connectedAt }
  renewal := none
  clientToken := start.clientToken
  vault := start.vault
  prisma :=
    { client := ⟨0, start.credentials⟩
      drainTimers := []
      connected := [⟨0, start.credentials⟩]
      next := 1 }
  transactions := []

/-- The service has started in time, and the first renewal is still to come. -/
structure Prompt (bounds : Bounds) (start : Start) : Prop where
  token : renewalSafetyMarginMs ≤ start.token.leaseDurationMs
  credentials : renewalSafetyMarginMs ≤ start.credentials.leaseDurationMs
  loggedIn : start.vault.TokenLasts start.clientToken (start.loggedInAt + start.token.leaseDurationMs)
  issued : start.vault.LeaseLasts start.clientToken start.credentials.leaseId
    (start.issuedAt + start.credentials.leaseDurationMs)
  loggedInAt : start.initializedAt ≤ start.loggedInAt + bounds.renewal
  issuedAt : start.initializedAt ≤ start.issuedAt + bounds.renewal
  connectedAt : ∀ due ∈ start.backend.due, start.connectedAt ≤ due

variable {bounds : Bounds} {start : Start}

theorem kept_backend (start : Start) : start.backend.Kept := by
  refine ⟨⟨rfl, List.nodup_singleton 0, fun client hclient => ?_⟩, fun _ hmem => ?_, fun _ hmem => ?_⟩
  · rw [List.mem_singleton.mp hclient]
    exact Nat.zero_lt_one
  · cases hmem
  · cases hmem

theorem Prompt.inv (h : start.Prompt bounds) (hfit : bounds.Fit) : start.backend.Inv bounds := by
  have htimer : start.backend.due =
      some (ServiceProcess.renewalTimeout (start.initializedAt + (0 : Nat) + (0 : Nat)) start.initialized.expiresAt).due := rfl
  have htoken : start.backend.process.service.tokenExpiresAt = start.initializedAt + start.token.leaseDurationMs := rfl
  have hdatabase : start.backend.process.service.databaseExpiresAt =
      start.initializedAt + (0 : Nat) + start.credentials.leaseDurationMs := rfl
  have hexpiresAt : start.initialized.expiresAt = min start.backend.process.service.tokenExpiresAt
      start.backend.process.service.databaseExpiresAt := rfl
  obtain ⟨hmargin, hmargin', hlogin, hissued, hloggedInAt, hissuedAt, hconnectedAt⟩ := h
  constructor
  · refine ⟨fun due hdue => ?_, fun timer hmem => by cases hmem⟩
    have hle : start.backend.now ≤ due := hconnectedAt due hdue
    omega
  · rfl
  · refine ⟨_, htimer, Backend.due_renewalTimeout_le hfit ?_⟩
    omega
  · exact ⟨start.credentials, rfl, rfl⟩
  · refine ⟨start.clientToken, hlogin.mono ?_, hissued.mono ?_, fun _ => rfl⟩
    · omega
    · omega
  · intro renewal hrenewal
    cases hrenewal
  · intro timer hmem
    cases hmem

end Start

/-- In every run with prompt renewals, for as long as the service is ready. -/
theorem clients_leased {bounds : Bounds} {start : Start} {events : List Event} {s : Backend} (hfit : bounds.Fit)
    (hstart : start.Prompt bounds) (hprompt : Runs.Along Backend.step (Backend.Prompt bounds) start.backend events)
    (hrun : Runs.run Backend.step start.backend events = some s) (hready : s.ready) : s.Served := by
  have hsound : s.Sound bounds := Runs.Along.run (fun _ _ _ hs hpromptly hstep => hs.step hfit hpromptly hstep)
    ⟨start.kept_backend, fun _ => hstart.inv hfit⟩ hprompt hrun
  exact (hsound.2 hready).served hsound.1 hfit

/-- Leases of an hour on a token, and of two on the user of the database. -/
def hourly : Start where
  roleId := "role"
  secretId := "secret"
  clientToken := "first"
  token := ⟨3600000⟩
  credentials := ⟨"v-1", "password", "creds/1", 7200000⟩
  vault :=
    { tokens := fun token => if token = "first" then some 3600000 else none
      leases := fun id => if id = "creds/1" then some ⟨"first", 7200100⟩ else none }
  loggedInAt := 0
  issuedAt := 100
  initializedAt := 200
  connectedAt := 300

def unavailable : RequestError :=
  ⟨some 503, [], none⟩

/-- The token cannot be renewed, and a transaction is running while the service logs in anew and replaces the
client. -/
def loginRun : List Event :=
  [.pass 3539900, .fired, .pass 100, .failed unavailable,
    .pass 100, .granted ⟨7140400, 3600000, "second", "", ""⟩, .answered,
    .transaction, .pass 100, .granted ⟨10740500, 7200000, "creds/2", "v-2", "password"⟩, .pass 100, .answered,
    .connected, .transaction, .pass 29000]

theorem clients_leased_of_login : ∃ s, Runs.run Backend.step hourly.backend loginRun = some s ∧
    s.prisma.connected.length = 2 ∧ s.transactions.length = 2 ∧ s.Served := by
  have hruns : (Runs.run Backend.step hourly.backend loginRun).any fun s =>
      s.ready && (s.prisma.connected.length = 2 && s.transactions.length = 2) := by decide +kernel
  have hprompt : Runs.Along Backend.step (Backend.Prompt ⟨5000, 1000⟩) hourly.backend loginRun := by
    apply Runs.Along.of_check (fun s event (h : decide (s.Prompt ⟨5000, 1000⟩ event)) => of_decide_eq_true h)
    decide +kernel
  have hstart : hourly.Prompt ⟨5000, 1000⟩ := by
    constructor
    · decide
    · decide
    · exact ⟨3600000, rfl, by decide⟩
    · exact ⟨7200100, rfl, by decide⟩
    · decide
    · decide
    · decide
  obtain ⟨s, hrun, hchecks⟩ := (Option.any_eq_true _ _).mp hruns
  obtain ⟨hready, hcounts⟩ := Bool.and_eq_true_iff.mp hchecks
  obtain ⟨hconnected, htransactions⟩ := Bool.and_eq_true_iff.mp hcounts
  exact ⟨s, hrun, of_decide_eq_true hconnected, of_decide_eq_true htransactions,
    clients_leased (by decide) hstart hprompt hrun hready⟩

/-- A renewal that has renewed only the token, one that has logged in and got no credentials, and one that renews
the credentials of the first token with the second, which is renewed from then on. -/
def retriedLogin : List Event :=
  [.pass 3539900, .fired, .granted ⟨7140200, 3600000, "", "", ""⟩, .answered, .failed unavailable,
    .pass 15000, .fired, .failed unavailable, .granted ⟨7155200, 3600000, "second", "", ""⟩, .answered, .failed unavailable,
    .pass 15000, .fired, .granted ⟨7170200, 3600000, "", "", ""⟩, .answered,
    .granted ⟨10770200, 7200000, "", "", ""⟩, .answered, .connected, .pass 30000, .drained 0, .pass 3510000,
    .fired, .granted ⟨10710200, 3600000, "", "", ""⟩, .answered,
    .granted ⟨14310200, 7200000, "", "", ""⟩, .answered, .connected, .pass 60000]

/-- Where a login is retried, the service is ready and the lease of its client has ended with the first token. -/
example : (Runs.run Backend.step hourly.backend retriedLogin).any fun s =>
    s.ready && !s.vault.isLive s.now s.prisma.client.credentials.leaseId := by decide +kernel

end Transcendence.Vault
