import Transcendence.Auth.SessionTokens
import Transcendence.Auth.TokenWindows

/-!
# The access token of a login

`createLogin` has a token minted for the family that it has just created. From then on until the token
expires, and while the family is live, `validateAccess` accepts it exactly if the login was not in the
last half millisecond of its second, for which the database has the next second, and if the claims that
the configuration leads to can be read back.
-/

namespace Transcendence.Auth.SessionTokens

open AccessTokens
open Base64 (RawURLEncoding)
open GoTime (Time)
open GoTime.Time (unixToInternal)
open Logout
open Transaction
open Utf8 (ofString)

/-- What is asked for at a login. -/
def loginRequest (r : CreateRequest) (lifetime : Int) : MintRequest where
  subject := ofString r.user.id
  sessionID := ofString r.id
  tokenID := []
  authenticationMethod := ofString (providerText r.method)
  assuranceLevel := ofString (assuranceName 1)
  globalRoles := [ofString (roleText r.user.globalRole)]
  authenticationTime := instant r.now
  lifetime := lifetime

theorem mintRequest_of_login {loginOf : String → CreateRequest} {r : CreateRequest} {family : RefreshFamily}
    (h : Issued loginOf (.login r) family) (lifetime : Int) : mintRequest family lifetime = loginRequest r lifetime := by
  obtain ⟨hid, huser⟩ := h.created r rfl
  have hsame := h.login r rfl
  have hmethod := h.authenticationMethod
  have hinstant := h.authenticatedAt
  rw [hsame] at hmethod hinstant
  have hnow : family.authenticatedAt = r.now := hinstant
  rw [mintRequest, hid, huser, hmethod, h.assuranceLevel, hnow]
  rfl

/-- The configuration and the login lead to claims that can be read back. -/
structure Legible (s : Service) (clock : Time) (r : CreateRequest) (lifetime : Int) : Prop where
  issuer : Utf8.Valid s.issuer
  audience : Utf8.Valid s.audience
  length : claimsLength s clock (loginRequest r lifetime) ≤ maxClaimsLength

/-- The instant of the login is one of `time.Time`. -/
def HasInstant (r : CreateRequest) : Prop :=
  GoTime.InInt64 ((r.now / second : Nat) + unixToInternal)

theorem seconds_instant {r : CreateRequest} (h : HasInstant r) :
    (instant r.now).seconds = (r.now / second : Nat) + unixToInternal :=
  GoTime.int64_eq_self h

section

variable {s : Service} {provider : PublicKeyProvider} {clock : Time} {r : CreateRequest} {lifetime : Int} {claims : Claims}
  {now : Time}

theorem unixToInternal_le_clock (hr : HasInstant r) (h : ToSign s provider clock (loginRequest r lifetime) claims) :
    unixToInternal ≤ clock.seconds := by
  have hauthenticated := h.authenticated
  rw [h.eq, GoTime.Time.after_iff] at hauthenticated
  have hle : (instant r.now).truncate.elapsed ≤ clock.truncate.elapsed := Int.not_lt.mp hauthenticated
  have hnonneg : (0 : Int) ≤ (r.now / second : Nat) := Int.natCast_nonneg _
  rw [GoTime.Time.elapsed_truncate, GoTime.Time.elapsed_truncate, seconds_instant hr] at hle
  omega

/-- Before the token expires, nothing but the configuration can keep it from being read back. -/
theorem usable_of_due {random : Except String RandomBytes} (hr : HasInstant r)
    (hclaims : claimsToSign s provider clock random (loginRequest r lifetime) = .ok claims) (hafter : ¬clock.After now)
    (hbefore : now.Before (expiry clock (loginRequest r lifetime))) (h : Legible s clock r lifetime) :
    Usable s clock (loginRequest r lifetime) claims now := by
  have hsign := toSign_of_claimsToSign hclaims
  have hsince := unixToInternal_le_clock hr hsign
  have hleeway := s.leeway_nonneg
  have hupper := clock.inInt64.upper
  rw [GoTime.Time.after_iff] at hafter
  rw [GoTime.Time.before_iff] at hbefore
  have hissuance : clock.truncate.elapsed ≤ now.elapsed := by
    have hnanoseconds : (0 : Int) ≤ clock.nanoseconds := Int.natCast_nonneg _
    have hclock : clock.elapsed = clock.seconds * 1000000000 + clock.nanoseconds := rfl
    rw [GoTime.Time.elapsed_truncate]
    omega
  have hlong : ¬((loginRequest r lifetime).lifetime < 1000000000 ∨ clock.seconds = 9223372036854775807) := by
    intro hshort
    have hsame := expiry_elapsed hsign.valid.lifetime hshort
    omega
  have hexpiry : (expiry clock (loginRequest r lifetime)).elapsed =
      (expiry clock (loginRequest r lifetime)).seconds * 1000000000 := GoTime.Time.elapsed_truncate _
  rw [hexpiry] at hbefore
  have hlater : clock.seconds < (expiry clock (loginRequest r lifetime)).seconds := by
    rw [GoTime.Time.elapsed_truncate] at hissuance
    omega
  rw [usable_iff hclaims]
  refine ⟨⟨h.issuer, h.audience, h.length, GoTime.Time.unix_nonneg hsince,
    GoTime.Time.unix_nonneg (hsince.trans hlater.le), ?_, ?_, ?_⟩, ⟨?_, ?_⟩, ?_⟩
  · apply GoTime.Time.unix_nonneg
    show unixToInternal ≤ (instant r.now).seconds
    have hnonneg : (0 : Int) ≤ (r.now / second : Nat) := Int.natCast_nonneg _
    rw [seconds_instant hr]
    omega
  · omega
  · omega
  · omega
  · rw [hexpiry]
    omega
  · -- In the last second of all, no expiration is still to come.
    intro hend
    have hlast := hend.last
    have hupper := (expiry clock (loginRequest r lifetime)).inInt64.upper
    have hnow : now.elapsed = now.seconds * 1000000000 + now.nanoseconds := rfl
    omega

end

section

variable {ι : Type} [DecidableEq ι] {store : Store} {allowsBrowserOrigin : String → Bool} {users : List User}
  {labels : List (LogoutLabel ι)} {loginOf : String → CreateRequest} {t : LogoutServer ι} {id : ι} {r : CreateRequest}
  {session : CreatedRefreshSession} {verify : Verifier} {s : Service} {signer : Signer} {provider provider' : PublicKeyProvider}
  {clock : Time} {random : Except String RandomBytes} {lifetime : Int} {compact : Bytes} {now : Time} {databaseNow : Nat}
  {user : User}

theorem earlyLogin_iff (r : CreateRequest) : EarlyLogin (.login r) ↔ r.now % second < 999500000 := by
  constructor
  · intro h
    exact h r rfl
  · intro h r' hr'
    cases hr'
    exact h

theorem validate_of_validateAccess {db : Database} {claims : Claims} {state : AccessState}
    (h : validateAccess verify s provider now db databaseNow compact = .ok (claims, state)) :
    validate verify s provider now compact = .ok claims := by
  rw [validateAccess] at h
  split at h
  · split_ifs at h
  · split at h
    · split at h
      · cases h
      · cases h
      · split_ifs at h
        cases h
        assumption
    · cases h

/-- The answer to the token of a login, from then on until it expires. -/
theorem login_token_answer (hfresh : Fresh loginOf labels)
    (hrun : Runs.run (Server.step (program store allowsBrowserOrigin)) (Server.initial ⟨users, [], [], [], []⟩) labels = some t)
    (hended : t.clients id = some ⟨.login r, .ended (.session (.ok session))⟩) (hr : HasInstant r)
    (hmint : mintAccessToken verify s signer provider clock random lifetime session.family = .ok compact)
    (hkeys : ∀ keyID, provider.signingKeyID = .ok keyID → provider'.publicKey keyID = provider.publicKey keyID)
    (hafter : ¬clock.After now) (hbefore : now.Before (expiry clock (loginRequest r lifetime)))
    (hlive : t.db.liveUser session.family.id session.family.user.id databaseNow = some user) :
    (Legible s clock r lifetime ↔ ∃ claims, validate verify s provider' now compact = .ok claims) ∧
      ∃ state, ∀ claims, validate verify s provider' now compact = .ok claims →
        validateAccess verify s provider' now t.db databaseNow compact =
          if r.now % second < 999500000 then .ok (claims, state) else .error .inactive := by
  have hrequest := mintRequest_of_login (issued_of_run hfresh hrun hended) lifetime
  rw [mintAccessToken, hrequest] at hmint
  obtain ⟨claims, hclaims, hvalidate⟩ := validate_minted_iff hmint hkeys
  have hsign := toSign_of_claimsToSign hclaims
  obtain ⟨state, -, hunchanged, hresult⟩ := validateAccess_of_run hfresh hrun hended (hrequest.symm ▸ hsign) hlive
  rw [earlyLogin_iff] at hunchanged
  refine ⟨⟨fun hlegible => ?_, ?_⟩, state, fun found hfound => ?_⟩
  · exact ⟨readBack claims, (hvalidate now _).mpr ⟨rfl, usable_of_due hr hclaims hafter hbefore hlegible⟩⟩
  · rintro ⟨found, hfound⟩
    have hreadable := ((usable_iff hclaims).mp ((hvalidate now found).mp hfound).2).1
    exact ⟨hreadable.issuer, hreadable.audience, hreadable.length⟩
  · obtain ⟨rfl, -⟩ := (hvalidate now found).mp hfound
    rw [hresult verify provider' now compact hfound]
    simp only [hunchanged]

/-- From the login until its token expires, and while the family is live and the key is known, the token passes exactly
if the login is not in the last half millisecond of its second and the claims can be read back. -/
theorem login_token_passes_iff (hfresh : Fresh loginOf labels)
    (hrun : Runs.run (Server.step (program store allowsBrowserOrigin)) (Server.initial ⟨users, [], [], [], []⟩) labels = some t)
    (hended : t.clients id = some ⟨.login r, .ended (.session (.ok session))⟩) (hr : HasInstant r)
    (hmint : mintAccessToken verify s signer provider clock random lifetime session.family = .ok compact)
    (hkeys : ∀ keyID, provider.signingKeyID = .ok keyID → provider'.publicKey keyID = provider.publicKey keyID)
    (hafter : ¬clock.After now) (hbefore : now.Before (expiry clock (loginRequest r lifetime)))
    (hlive : t.db.liveUser session.family.id session.family.user.id databaseNow = some user) :
    (∃ claims state, validateAccess verify s provider' now t.db databaseNow compact = .ok (claims, state)) ↔
      r.now % second < 999500000 ∧ Legible s clock r lifetime := by
  obtain ⟨hlegible, state, hanswer⟩ := login_token_answer hfresh hrun hended hr hmint hkeys hafter hbefore hlive
  rw [hlegible]
  constructor
  · rintro ⟨claims, found, hok⟩
    have hvalidate := validate_of_validateAccess hok
    refine ⟨?_, claims, hvalidate⟩
    by_contra hlate
    rw [hanswer claims hvalidate, if_neg hlate] at hok
    cases hok
  · rintro ⟨hearly, claims, hvalidate⟩
    refine ⟨claims, state, ?_⟩
    rw [hanswer claims hvalidate, if_pos hearly]

end

/-! ### A login, and one half a millisecond before the next second -/

open Sessions

/-- What is signed for the login with this request. -/
def claimsOf (r : CreateRequest) : Claims :=
  mintedClaims loginCall.service (loginRequest r 900000000000) (instant r.now)
    (Base64.encode RawURLEncoding sessionToken.val) (ascii "v1")

def tokenOf (r : CreateRequest) : Bytes :=
  (mintedToken (claimsOf r) loginSignature).compact

theorem login_token_passes_of_login : ∃ claims state,
    validateAccess (verifierOf (claimsOf login)) loginCall.service loginCall.provider (.ofUnix 60) afterLogin.db (60 * second)
      (tokenOf login) = .ok (claims, state) := by
  have hclaims : claimsToSign loginCall.service loginCall.provider (instant 0) (.ok sessionToken)
      (loginRequest login 900000000000) = .ok (claimsOf login) := rfl
  have hmint : mintAccessToken (verifierOf (claimsOf login)) loginCall.service loginSigner loginCall.provider (instant 0)
      (.ok sessionToken) 900000000000 loginSession.family = .ok (tokenOf login) := mint_of_claims rfl hclaims
  have hended : afterLogin.clients 0 = some ⟨.login login, .ended (.session (.ok loginSession))⟩ :=
    client_of_result (by decide +kernel) (by decide +kernel)
  have hinstant : HasInstant login := ⟨by decide, by decide⟩
  have hlegible : Legible loginCall.service (instant 0) login 900000000000 := ⟨by decide, by decide, by decide +kernel⟩
  have hafter : ¬(instant 0).After (.ofUnix 60) := by decide
  have hbefore : (Time.ofUnix 60).Before (expiry (instant 0) (loginRequest login 900000000000)) := by decide
  have hlive : afterLogin.db.liveUser loginSession.family.id loginSession.family.user.id (60 * second) = some activeUser := by
    decide +kernel
  have hkeys : ∀ keyID, loginCall.provider.signingKeyID = .ok keyID →
      loginCall.provider.publicKey keyID = loginCall.provider.publicKey keyID := fun _ _ => rfl
  have hpasses := login_token_passes_iff (fresh_singleLogin login 3) (Option.some_get _).symm hended hinstant hmint hkeys
    hafter hbefore hlive
  exact hpasses.mpr ⟨by decide, hlegible⟩

def lateLogin : CreateRequest :=
  { login with now := 999500000 }

def afterLateLogin : LogoutServer Nat :=
  (Runs.run (Server.step (program configured anyOrigin)) (Server.initial ⟨[activeUser], [], [], [], []⟩)
    (.begin 0 (.login lateLogin) :: List.replicate 3 (.advance 0))).get (by decide +kernel)

def lateSession : CreatedRefreshSession :=
  ⟨configured.createdFamily lateLogin, "first", "csrf"⟩

/-- A minute after the login, the session is live and the token far from expiring. -/
theorem login_token_passes_wrong :
    afterLateLogin.clients 0 = some ⟨.login lateLogin, .ended (.session (.ok lateSession))⟩ ∧
    mintAccessToken (verifierOf (claimsOf lateLogin)) loginCall.service loginSigner loginCall.provider (instant 999500000)
      (.ok sessionToken) 900000000000 lateSession.family = .ok (tokenOf lateLogin) ∧
    (Time.ofUnix 60).Before (expiry (instant 999500000) (loginRequest lateLogin 900000000000)) ∧
    afterLateLogin.db.liveUser lateSession.family.id lateSession.family.user.id (60 * second) = some activeUser ∧
    validateAccess (verifierOf (claimsOf lateLogin)) loginCall.service loginCall.provider (.ofUnix 60) afterLateLogin.db
      (60 * second) (tokenOf lateLogin) = .error .inactive := by
  have hclaims : claimsToSign loginCall.service loginCall.provider (instant 999500000) (.ok sessionToken)
      (loginRequest lateLogin 900000000000) = .ok (claimsOf lateLogin) := rfl
  have hmint : mintAccessToken (verifierOf (claimsOf lateLogin)) loginCall.service loginSigner loginCall.provider
      (instant 999500000) (.ok sessionToken) 900000000000 lateSession.family = .ok (tokenOf lateLogin) :=
    mint_of_claims rfl hclaims
  have hended : afterLateLogin.clients 0 = some ⟨.login lateLogin, .ended (.session (.ok lateSession))⟩ :=
    client_of_result (by decide +kernel) (by decide +kernel)
  have hinstant : HasInstant lateLogin := ⟨by decide +kernel, by decide +kernel⟩
  have hlegible : Legible loginCall.service (instant 999500000) lateLogin 900000000000 :=
    ⟨by decide, by decide, by decide +kernel⟩
  have hafter : ¬(instant 999500000).After (.ofUnix 60) := by decide +kernel
  have hbefore : (Time.ofUnix 60).Before (expiry (instant 999500000) (loginRequest lateLogin 900000000000)) := by decide +kernel
  have hlive : afterLateLogin.db.liveUser lateSession.family.id lateSession.family.user.id (60 * second) = some activeUser := by
    decide +kernel
  have hkeys : ∀ keyID, loginCall.provider.signingKeyID = .ok keyID →
      loginCall.provider.publicKey keyID = loginCall.provider.publicKey keyID := fun _ _ => rfl
  obtain ⟨hread, state, hanswer⟩ := login_token_answer (fresh_singleLogin lateLogin 3) (Option.some_get _).symm hended
    hinstant hmint hkeys hafter hbefore hlive
  obtain ⟨claims, hvalidate⟩ := hread.mp hlegible
  exact ⟨hended, hmint, hbefore, hlive, (hanswer claims hvalidate).trans (if_neg (by decide))⟩

end Transcendence.Auth.SessionTokens
