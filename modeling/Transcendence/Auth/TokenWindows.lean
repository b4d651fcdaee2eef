import Transcendence.Auth.MintedTokens

/-!
# When a minted token is good

`mint` and `validate` have each their own idea of what may be in a token. `mint` takes any lifetime, texts
that are no UTF-8, claims of any length and instants before 1970, and `validate` has only the seconds and
reads what `encoding/json` has made of the texts. Where a request and the clock are within what both
take, the token is good from its issuance to its expiration, and otherwise it is not, unless there is no
instant between the two.
-/

namespace Transcendence.Auth.AccessTokens

open Base64 (RawURLEncoding)
open GoTime (Time)
open JsonText (Field)
open Utf8 (sanitize)

/-! ### The length of the claims -/

def textLength (text : Bytes) : Nat :=
  (JsonText.quoted text).length

def textsLength (texts : List Bytes) : Nat :=
  (texts.map textLength).sum + texts.length + 1

def secondsLength (t : Time) : Nat :=
  (JsonText.integer t.unix).length

theorem length_intercalate_comma (parts : List Bytes) :
    ([Scanner.comma].intercalate parts).length = (parts.map List.length).sum + (parts.length - 1) := by
  induction parts with
  | nil => rfl
  | cons part parts ih =>
      cases parts with
      | nil => rw [List.intercalate_singleton, List.map_singleton, List.sum_singleton]; rfl
      | cons next parts =>
          rw [List.intercalate_cons_cons, List.length_append, List.length_append, ih]
          simp only [List.map_cons, List.sum_cons, List.length_cons, List.length_nil]
          omega

theorem length_texts {texts : List Bytes} (h : texts ≠ []) : (Field.texts texts).written.length = textsLength texts := by
  have hpos : 0 < texts.length := List.length_pos_iff.mpr h
  rw [Field.written, if_neg h, List.length_cons, List.length_append, length_intercalate_comma, List.length_singleton,
    List.map_map, List.length_map, textsLength]
  have hsum : (texts.map (List.length ∘ JsonText.quoted)).sum = (texts.map textLength).sum := rfl
  omega

theorem length_payload (claims : Claims) (h : claims.globalRoles ≠ []) :
    (payload claims).length = 93 + textLength claims.issuer + textLength claims.audience + textLength claims.subject +
      textLength claims.sessionID + textLength claims.tokenID + secondsLength claims.issuedAt + secondsLength claims.expiresAt +
        secondsLength claims.authenticationTime + textLength claims.authenticationMethod + textLength claims.assuranceLevel +
          textsLength claims.globalRoles := by
  have hnames : (claimNames.map fun name => (JsonText.quoted name).length) = [5, 5, 5, 5, 5, 5, 5, 11, 5, 5, 14] := by decide
  have hroles := length_texts h
  simp only [claimNames, List.map_cons, List.map_nil, List.cons.injEq, and_true] at hnames
  obtain ⟨hiss, haud, hsub, hsid, hjti, hiat, hexp, hauth, hamr, hacr, hglobal⟩ := hnames
  simp only [payload, JsonText.marshal, payloadFields, List.length_cons, List.length_append, List.length_nil,
    length_intercalate_comma, List.map_cons, List.map_nil, List.sum_cons, List.sum_nil, JsonText.writtenMember, hroles, hiss,
    haud, hsub, hsid, hjti, hiat, hexp, hauth, hamr, hacr, hglobal]
  simp only [Field.written, textLength, secondsLength]
  omega

/-- The quoted token id; a new one has 43 characters. -/
def tokenIDLength (request : MintRequest) : Nat :=
  if request.tokenID = [] then 45 else textLength request.tokenID

theorem plain_character : ∀ n < 64, Base64Url.character n < 0x80 ∧
    JsonText.escapeByte (Base64Url.character n) = [Base64Url.character n] := by
  decide

theorem textLength_encode (bytes : Bytes) : textLength (encode bytes) = (bytes.length * 4 + 2) / 3 + 2 := by
  have hplain : ∀ c ∈ encode bytes, c < 0x80 ∧ JsonText.escapeByte c = [c] := by
    intro c hc
    rw [encode_eq] at hc
    obtain ⟨n, hn, rfl⟩ := Base64Url.isCharacter_of_mem_encode hc
    exact plain_character n hn
  rw [textLength, JsonText.length_quoted_of_plain hplain, length_encode]

theorem textLength_tokenID {request : MintRequest} {random : Except String RandomBytes} {tokenID : Bytes}
    (h : mintedTokenID request random = .ok tokenID) : textLength tokenID = tokenIDLength request := by
  rw [mintedTokenID] at h
  rw [tokenIDLength]
  split_ifs at h ⊢ with hgiven
  · cases random with
    | error cause => cases h
    | ok value =>
        cases h
        have hlength := textLength_encode value.val
        rw [value.property] at hlength
        exact hlength
  · cases h
    rfl

/-- The expiration that a minted token says. -/
def expiry (clock : Time) (request : MintRequest) : Time :=
  (clock.truncate.add request.lifetime).truncate

/-- The length of the claims that are minted. The names of the members and what stands between them are 93 of it. -/
def claimsLength (s : Service) (clock : Time) (request : MintRequest) : Nat :=
  93 + textLength s.issuer + textLength s.audience + textLength request.subject + textLength request.sessionID +
    tokenIDLength request + secondsLength clock + secondsLength (expiry clock request) +
      secondsLength request.authenticationTime + textLength request.authenticationMethod +
        textLength request.assuranceLevel + textsLength request.globalRoles

theorem length_payload_of_claimsToSign {s : Service} {provider : PublicKeyProvider} {clock : Time}
    {random : Except String RandomBytes} {request : MintRequest} {claims : Claims}
    (h : claimsToSign s provider clock random request = .ok claims) :
    (payload claims).length = claimsLength s clock request := by
  have hsign := toSign_of_claimsToSign h
  obtain ⟨_, -, hrest⟩ := Results.bind_eq_ok.mp h
  obtain ⟨tokenID, htokenID, hrest⟩ := Results.bind_eq_ok.mp hrest
  have hsame : claims.tokenID = tokenID := by
    split at hrest
    · cases hrest
    · dsimp only at hrest
      split_ifs at hrest
      cases hrest
      rfl
  rw [length_payload claims (hsign.complete.globalRoles.1), hsame, textLength_tokenID htokenID, hsign.eq]
  rfl

/-! ### From issuance to expiration -/

/-- From the issuance to the expiration, with the leeway at both ends. -/
structure Within (s : Service) (clock : Time) (request : MintRequest) (now : Time) : Prop where
  begun : clock.truncate.elapsed - s.leeway ≤ now.elapsed
  not_over : now.elapsed < (expiry clock request).elapsed + s.leeway

/-- What was asked for, with the times to the second. -/
structure Returns (clock : Time) (request : MintRequest) (found : Claims) : Prop where
  subject : found.subject = request.subject
  sessionID : found.sessionID = request.sessionID
  authenticationMethod : found.authenticationMethod = request.authenticationMethod
  assuranceLevel : found.assuranceLevel = request.assuranceLevel
  issuedAt : found.issuedAt = clock.truncate
  expiresAt : found.expiresAt = expiry clock request
  authenticationTime : found.authenticationTime = request.authenticationTime.truncate

def AcceptedThroughout (verify : Verifier) (s : Service) (provider : PublicKeyProvider) (clock : Time) (request : MintRequest)
    (compact : Bytes) : Prop :=
  ∀ now, Within s clock request now → ∃ found, validate verify s provider now compact = .ok found ∧ Returns clock request found

/-- What `mint` takes and `validate` can take. -/
structure Readable (s : Service) (clock : Time) (request : MintRequest) : Prop where
  issuer : Utf8.Valid s.issuer
  audience : Utf8.Valid s.audience
  length : claimsLength s clock request ≤ maxClaimsLength
  issuedAt : 0 ≤ clock.unix
  expiresAt : 0 ≤ (expiry clock request).unix
  authenticationTime : 0 ≤ request.authenticationTime.unix
  lifetime : 1000000000 ≤ request.lifetime
  /-- The clock does not read the last second of all. -/
  room : clock.seconds < 9223372036854775807

/-- What comes back as it went in, whenever it is due. -/
structure Acceptable (s : Service) (clock : Time) (request : MintRequest) : Prop extends Readable s clock request where
  subject : Utf8.Valid request.subject
  sessionID : Utf8.Valid request.sessionID
  authenticationMethod : Utf8.Valid request.authenticationMethod
  assuranceLevel : Utf8.Valid request.assuranceLevel
  /-- The expiration and the leeway do not reach over the end of the range. -/
  roomAfter : (expiry clock request).seconds + s.leeway / 1000000000 ≤ 9223372036854775807

/-- There is no instant at which the token would have to be good. -/
def Momentary (s : Service) (clock : Time) (request : MintRequest) : Prop :=
  s.leeway = 0 ∧ (request.lifetime < 1000000000 ∨ clock.seconds = 9223372036854775807)

section

variable {s : Service} {clock : Time} {request : MintRequest} {now : Time}

theorem within_iff : Within s clock request now ∧ ¬GoTime.Time.AtEnd (clock.truncate.add request.lifetime) s.leeway now ↔
    ¬clock.truncate.After (now.add s.leeway) ∧ now.Before ((clock.truncate.add request.lifetime).truncate.add s.leeway) := by
  rw [GoTime.Time.truncate_after_add_iff s.leeway_nonneg, GoTime.Time.before_truncate_add_iff s.leeway_nonneg]
  constructor
  · rintro ⟨⟨hbegun, hover⟩, hend⟩
    exact ⟨by omega, hover, hend⟩
  · rintro ⟨hbegun, hover, hend⟩
    exact ⟨⟨by omega, hover⟩, hend⟩

theorem usable_iff {provider : PublicKeyProvider} {random : Except String RandomBytes} {claims : Claims}
    (h : claimsToSign s provider clock random request = .ok claims) :
    Usable s clock request claims now ↔ Readable s clock request ∧ Within s clock request now ∧
      ¬GoTime.Time.AtEnd (clock.truncate.add request.lifetime) s.leeway now := by
  have hlength := length_payload_of_claimsToSign h
  have heq := (toSign_of_claimsToSign h).eq
  have hissuedAt : claims.issuedAt.unix = clock.unix := by
    rw [heq]
    rfl
  have hexpiresAt : claims.expiresAt.unix = (expiry clock request).unix := by
    rw [heq]
    rfl
  have hauthenticationTime : claims.authenticationTime.unix = request.authenticationTime.unix := by
    rw [heq]
    rfl
  rw [within_iff]
  constructor
  · intro husable
    obtain ⟨hissued, hexpires, hauthenticated⟩ := husable.since
    rw [hissuedAt] at hissued
    rw [hexpiresAt] at hexpires
    rw [hauthenticationTime] at hauthenticated
    exact ⟨⟨husable.issuer, husable.audience, hlength ▸ husable.payload_length, hissued, hexpires, hauthenticated,
      husable.lifetime, husable.room⟩, husable.begun, husable.not_over⟩
  · rintro ⟨hreadable, hbegun, hover⟩
    refine ⟨hreadable.issuer, hreadable.audience, hlength ▸ hreadable.length, ⟨?_, ?_, ?_⟩, hreadable.lifetime,
      hreadable.room, hbegun, hover⟩
    · rw [hissuedAt]
      exact hreadable.issuedAt
    · rw [hexpiresAt]
      exact hreadable.expiresAt
    · rw [hauthenticationTime]
      exact hreadable.authenticationTime

theorem returns_readBack_iff {provider : PublicKeyProvider} {claims : Claims} (h : ToSign s provider clock request claims) :
    Returns clock request (readBack claims) ↔ Utf8.Valid request.subject ∧ Utf8.Valid request.sessionID ∧
      Utf8.Valid request.authenticationMethod ∧ Utf8.Valid request.assuranceLevel := by
  simp only [← Utf8.sanitize_eq_self_iff]
  rw [h.eq]
  constructor
  · intro hreturns
    exact ⟨hreturns.subject, hreturns.sessionID, hreturns.authenticationMethod, hreturns.assuranceLevel⟩
  · rintro ⟨hsubject, hsessionID, hmethod, hlevel⟩
    exact ⟨hsubject, hsessionID, hmethod, hlevel, rfl, rfl, rfl⟩

/-- The expiration is the instant of the issuance if that is not before it. -/
theorem expiry_elapsed (hlifetime : 0 < request.lifetime)
    (h : request.lifetime < 1000000000 ∨ clock.seconds = 9223372036854775807) :
    (expiry clock request).elapsed = clock.truncate.elapsed := by
  have hupper := clock.inInt64.upper
  have hlower := clock.inInt64.lower
  show GoTime.Time.saturated (clock.seconds + ((0 : Nat) + request.lifetime) / 1000000000) * 1000000000 + (0 : Nat) =
    clock.seconds * 1000000000 + (0 : Nat)
  unfold GoTime.Time.saturated
  rw [Nat.cast_zero, zero_add]
  split_ifs with hlow
  · omega
  · omega

theorem issuance_lt_expiry (hlifetime : 1000000000 ≤ request.lifetime) (hroom : clock.seconds < 9223372036854775807) :
    clock.truncate.elapsed < (expiry clock request).elapsed := by
  have hpos : 0 < request.lifetime := by omega
  have hafter := (GoTime.Time.truncate_add_after_iff (t := clock.truncate) hpos rfl hroom).mpr hlifetime
  exact (GoTime.Time.after_iff _ _).mp hafter

/-- At its issuance a token has to be good. -/
theorem within_issuance (hlifetime : 0 < request.lifetime) (h : ¬Momentary s clock request) :
    Within s clock request clock.truncate := by
  have hleeway := s.leeway_nonneg
  have hupper := clock.inInt64.upper
  unfold Momentary at h
  refine ⟨by omega, ?_⟩
  by_cases hshort : request.lifetime < 1000000000 ∨ clock.seconds = 9223372036854775807
  · have hsame := expiry_elapsed hlifetime hshort
    have hne : s.leeway ≠ 0 := fun hzero => h ⟨hzero, hshort⟩
    omega
  · have hlt : clock.truncate.elapsed < (expiry clock request).elapsed := issuance_lt_expiry (by omega) (by omega)
    omega

/-- The last instant for which the sum of an expiration and the leeway does not reach far enough. -/
def lastInstant (leeway : Int) : Time where
  seconds := 9223372036854775807
  nanoseconds := (leeway % 1000000000).toNat
  inInt64 := ⟨by decide, by decide⟩
  nanoseconds_lt := by omega

theorem atEnd_lastInstant {d : Int} (t : Time) (h : 9223372036854775807 < t.seconds + d / 1000000000) :
    GoTime.Time.AtEnd t d (lastInstant d) := by
  refine ⟨h, rfl, ?_⟩
  show d % 1000000000 ≤ ((d % 1000000000).toNat : Int)
  omega

theorem within_lastInstant (h : 9223372036854775807 < (expiry clock request).seconds + s.leeway / 1000000000) :
    Within s clock request (lastInstant s.leeway) := by
  have hupper := clock.inInt64.upper
  have hleeway := s.leeway_nonneg
  constructor
  · show clock.seconds * 1000000000 + (0 : Nat) - s.leeway ≤
      9223372036854775807 * 1000000000 + ((s.leeway % 1000000000).toNat : Int)
    omega
  · show 9223372036854775807 * 1000000000 + ((s.leeway % 1000000000).toNat : Int) <
      (expiry clock request).seconds * 1000000000 + (0 : Nat) + s.leeway
    omega

end

section

variable {verify : Verifier} {s : Service} {signer : Signer} {provider provider' : PublicKeyProvider} {clock : Time}
  {random : Except String RandomBytes} {request : MintRequest} {compact : Bytes}

theorem acceptable_of_accepted (hmint : mint verify s signer provider clock random request = .ok compact)
    (hkeys : ∀ keyID, provider.signingKeyID = .ok keyID → provider'.publicKey keyID = provider.publicKey keyID)
    (hmomentary : ¬Momentary s clock request) (h : AcceptedThroughout verify s provider' clock request compact) :
    Acceptable s clock request := by
  obtain ⟨claims, hclaims, hvalidate⟩ := validate_minted_iff hmint hkeys
  have hsign := toSign_of_claimsToSign hclaims
  simp only [usable_iff hclaims] at hvalidate
  obtain ⟨found, hfound, hreturns⟩ := h _ (within_issuance hsign.valid.lifetime hmomentary)
  obtain ⟨rfl, hreadable, -, -⟩ := (hvalidate _ _).mp hfound
  obtain ⟨hsubject, hsessionID, hmethod, hlevel⟩ := (returns_readBack_iff hsign).mp hreturns
  refine ⟨hreadable, hsubject, hsessionID, hmethod, hlevel, ?_⟩
  -- Else the token is due at the end of the range, and refused there.
  by_contra hreach
  rw [Int.not_le] at hreach
  obtain ⟨last, hlast, -⟩ := h _ (within_lastInstant hreach)
  obtain ⟨-, -, -, hend⟩ := (hvalidate _ _).mp hlast
  exact hend (atEnd_lastInstant _ hreach)

/-- A minted token is good from its issuance to its expiration exactly if the request and the clock are within what
`mint` and `validate` both take, or no instant is in between. -/
theorem accepted_throughout_iff (hmint : mint verify s signer provider clock random request = .ok compact)
    (hkeys : ∀ keyID, provider.signingKeyID = .ok keyID → provider'.publicKey keyID = provider.publicKey keyID) :
    AcceptedThroughout verify s provider' clock request compact ↔ Momentary s clock request ∨ Acceptable s clock request := by
  constructor
  · intro haccepted
    by_cases hmomentary : Momentary s clock request
    · exact .inl hmomentary
    · exact .inr (acceptable_of_accepted hmint hkeys hmomentary haccepted)
  · obtain ⟨claims, hclaims, hvalidate⟩ := validate_minted_iff hmint hkeys
    have hsign := toSign_of_claimsToSign hclaims
    simp only [usable_iff hclaims] at hvalidate
    rintro (⟨hzero, hshort⟩ | hacceptable) now hwithin
    · have hempty := expiry_elapsed hsign.valid.lifetime hshort
      have hbegun := hwithin.begun
      have hover := hwithin.not_over
      omega
    · have hend : ¬GoTime.Time.AtEnd (clock.truncate.add request.lifetime) s.leeway now := fun hend =>
        absurd hend.stops (Int.not_lt.mpr hacceptable.roomAfter)
      refine ⟨readBack claims, (hvalidate now _).mpr ⟨rfl, hacceptable.toReadable, hwithin, hend⟩, ?_⟩
      exact (returns_readBack_iff hsign).mpr ⟨hacceptable.subject, hacceptable.sessionID, hacceptable.authenticationMethod,
        hacceptable.assuranceLevel⟩

end

/-! A login, and one whose lifetime is half a second. -/

/-- Verifies the one signature for these claims. -/
def verifierOf (claims : Claims) : Verifier := fun key message signature =>
  key = List.replicate 32 7 && message = signingInput claims && signature = loginSignature

theorem mint_of_claims {clock : Time} {random : Except String RandomBytes} {request : MintRequest} {claims : Claims}
    (hkeyID : claims.keyID = ascii "v1")
    (hclaims : claimsToSign loginCall.service loginCall.provider clock random request = .ok claims) :
    mint (verifierOf claims) loginCall.service loginSigner loginCall.provider clock random request =
      .ok (mintedToken claims loginSignature).compact := by
  have hversion : keyVersion 1 = claims.keyID := by
    rw [hkeyID]
    rfl
  have hsign : loginSigner claims.keyID (signingInput claims) = .ok (transitSignature 1 RawURLEncoding loginSignature) := rfl
  have hkey : loginCall.provider.publicKey claims.keyID = .ok (some (List.replicate 32 7)) := by
    rw [hkeyID]
    rfl
  exact mint_of_signature hclaims hversion RawURLEncoding rfl hsign hkey rfl (by simp [verifierOf])

theorem acceptable_login : Acceptable loginCall.service loginCall.clock loginCall.request where
  issuer := by decide
  audience := by decide
  length := by decide +kernel
  issuedAt := by decide
  expiresAt := by decide
  authenticationTime := by decide
  lifetime := by decide
  room := by decide
  subject := by decide
  sessionID := by decide
  authenticationMethod := by decide
  assuranceLevel := by decide
  roomAfter := by decide

theorem accepted_throughout_login :
    AcceptedThroughout (verifierOf loginClaims) loginCall.service loginCall.provider loginCall.clock loginCall.request
      (mintedToken loginClaims loginSignature).compact :=
  (accepted_throughout_iff (mint_of_claims rfl claimsToSign_login) fun _ _ => rfl).mpr (.inr acceptable_login)

def briefRequest : MintRequest :=
  { loginCall.request with lifetime := 500000000 }

def briefClaims : Claims :=
  mintedClaims loginCall.service briefRequest loginCall.clock (ascii "token") (ascii "v1")

theorem accepted_throughout_wrong :
    mint (verifierOf briefClaims) loginCall.service loginSigner loginCall.provider loginCall.clock loginCall.random
        briefRequest = .ok (mintedToken briefClaims loginSignature).compact ∧
      ¬AcceptedThroughout (verifierOf briefClaims) loginCall.service loginCall.provider loginCall.clock briefRequest
        (mintedToken briefClaims loginSignature).compact := by
  have hclaims : claimsToSign loginCall.service loginCall.provider loginCall.clock loginCall.random briefRequest =
      .ok briefClaims := rfl
  have hmint := mint_of_claims rfl hclaims
  refine ⟨hmint, fun haccepted => ?_⟩
  have hmomentary : ¬Momentary loginCall.service loginCall.clock briefRequest := fun h => absurd h.1 (by decide)
  have hacceptable := acceptable_of_accepted hmint (fun _ _ => rfl) hmomentary haccepted
  exact absurd hacceptable.lifetime (by decide)

end Transcendence.Auth.AccessTokens
