import Transcendence.Auth.TokenValidity

/-!
# The times of a token

A payload has its times as numbers of seconds, and `validate` compares them as instants, which
`time.Unix` makes of them. From `wrapsFrom` on it wraps around, to instants long before all others: a
token that is good by its numbers is refused then, as it seems to have expired, and one whose
authentication is long after its issuance is accepted. But for such tokens, what is accepted is what is
well formed by the numbers.
-/

namespace Transcendence.Auth.AccessTokens

open GoTime (Time)
open GoTime.Time (wrapsFrom unixToInternal)

/-! ### The numbers -/

/-- Seconds of Unix. -/
structure Times where
  issuedAt : Int
  expiresAt : Int
  authenticationTime : Int

structure HasTimes (payload : Object) (times : Times) : Prop where
  issuedAt : HasSeconds payload "iat" times.issuedAt
  expiresAt : HasSeconds payload "exp" times.expiresAt
  authenticationTime : HasSeconds payload "auth_time" times.authenticationTime

/-- The window in which a token is good, by its numbers. -/
structure InTimeBySeconds (s : Service) (now : Time) (times : Times) : Prop where
  issued : times.issuedAt < times.expiresAt
  authenticated : times.authenticationTime ≤ times.issuedAt
  begun : times.issuedAt * 1000000000 ≤ now.sinceUnix + s.leeway
  not_over : now.sinceUnix < times.expiresAt * 1000000000 + s.leeway

theorem hasSeconds_unique {payload : Object} (hkeys : OrderedMap.UniqueKeys payload) {name : String} {n m : Int}
    (hn : HasSeconds payload name n) (hm : HasSeconds payload name m) : n = m := by
  rw [← objectUnixTime_eq_some_iff hkeys] at hn hm
  exact Option.some.inj (hn.symm.trans hm)

namespace Token

/-- All that makes a token valid but for the order of its times. -/
structure Complete (verify : Verifier) (s : Service) (provider : PublicKeyProvider) (t : Token) (times : Times)
    (claims : Claims) : Prop where
  isProtected : Protected t.compact t.header (encode t.payload) t.signature claims.keyID
  verified : ∃ key, provider.publicKey claims.keyID = .ok (some key) ∧ key.length = publicKeySize ∧
    verify key t.signed t.signature = true
  payload_length : t.payload.length ≤ maxClaimsLength
  payload : ∃ object, JsonText.object t.payload = some object ∧ OrderedMap.UniqueKeys object ∧ HasClaims object claims ∧
    HasTimes object times
  issuer : claims.issuer = s.issuer
  audience : claims.audience = s.audience

/-- The token is valid by the numbers of its times. -/
def WellFormed (verify : Verifier) (s : Service) (provider : PublicKeyProvider) (now : Time) (t : Token) (claims : Claims) :
    Prop :=
  ∃ times, t.Complete verify s provider times claims ∧ InTimeBySeconds s now times

end Token

/-! ### Instants and numbers -/

/-- The instants are those of the numbers. -/
structure Instants (times : Times) (claims : Claims) : Prop where
  issuedAt : claims.issuedAt = .ofUnix times.issuedAt
  expiresAt : claims.expiresAt = .ofUnix times.expiresAt
  authenticationTime : claims.authenticationTime = .ofUnix times.authenticationTime

structure InRange (n : Int) : Prop where
  nonneg : 0 ≤ n
  lt : n < 9223372036854775808

theorem HasSeconds.inRange {payload : Object} {name : String} {n : Int} (h : HasSeconds payload name n) : InRange n :=
  ⟨h.1, h.2.1⟩

section

variable {verify : Verifier} {s : Service} {provider : PublicKeyProvider} {now : Time} {t : Token} {times : Times}
  {claims : Claims}

theorem instants_of_payload {payload : Object} (hkeys : OrderedMap.UniqueKeys payload) (hclaims : HasClaims payload claims)
    (htimes : HasTimes payload times) : Instants times claims := by
  obtain ⟨iat, hiat, hissuedAt⟩ := hclaims.issuedAt
  obtain ⟨exp, hexp, hexpiresAt⟩ := hclaims.expiresAt
  obtain ⟨auth, hauth, hauthenticationTime⟩ := hclaims.authenticationTime
  cases hasSeconds_unique hkeys hiat htimes.issuedAt
  cases hasSeconds_unique hkeys hexp htimes.expiresAt
  cases hasSeconds_unique hkeys hauth htimes.authenticationTime
  exact ⟨hissuedAt.symm, hexpiresAt.symm, hauthenticationTime.symm⟩

theorem hasTimes_of_hasClaims {payload : Object} (h : HasClaims payload claims) : ∃ times, HasTimes payload times := by
  obtain ⟨iat, hiat, -⟩ := h.issuedAt
  obtain ⟨exp, hexp, -⟩ := h.expiresAt
  obtain ⟨auth, hauth, -⟩ := h.authenticationTime
  exact ⟨⟨iat, exp, auth⟩, hiat, hexp, hauth⟩

theorem Token.Complete.instants (h : t.Complete verify s provider times claims) : Instants times claims := by
  obtain ⟨object, -, hkeys, hclaims, htimes⟩ := h.payload
  exact instants_of_payload hkeys hclaims htimes

theorem Token.Complete.hasTimes (h : t.Complete verify s provider times claims) :
    ∃ object, JsonText.object t.payload = some object ∧ OrderedMap.UniqueKeys object ∧ HasTimes object times := by
  obtain ⟨object, hobject, hkeys, -, htimes⟩ := h.payload
  exact ⟨object, hobject, hkeys, htimes⟩

/-- A token has one set of numbers. -/
theorem Token.Complete.times_unique {times' : Times} {claims' : Claims} (h : t.Complete verify s provider times claims)
    (h' : t.Complete verify s provider times' claims') : times = times' := by
  obtain ⟨object, hobject, hkeys, htimes⟩ := h.hasTimes
  obtain ⟨object', hobject', -, htimes'⟩ := h'.hasTimes
  cases hobject.symm.trans hobject'
  obtain ⟨iat, exp, auth⟩ := times
  obtain ⟨iat', exp', auth'⟩ := times'
  cases hasSeconds_unique hkeys htimes.issuedAt htimes'.issuedAt
  cases hasSeconds_unique hkeys htimes.expiresAt htimes'.expiresAt
  cases hasSeconds_unique hkeys htimes.authenticationTime htimes'.authenticationTime
  rfl

theorem Token.valid_iff_complete :
    t.Valid verify s provider now claims ↔ ∃ times, t.Complete verify s provider times claims ∧ InTime s now claims := by
  constructor
  · intro h
    obtain ⟨object, hobject, hkeys, hclaims⟩ := h.payload
    obtain ⟨times, htimes⟩ := hasTimes_of_hasClaims hclaims
    exact ⟨times, ⟨h.isProtected, h.verified, h.payload_length, ⟨object, hobject, hkeys, hclaims, htimes⟩, h.issuer,
      h.audience⟩, h.inTime⟩
  · rintro ⟨times, h, htime⟩
    obtain ⟨object, hobject, hkeys, hclaims, -⟩ := h.payload
    exact ⟨h.isProtected, h.verified, h.payload_length, ⟨object, hobject, hkeys, hclaims⟩, h.issuer, h.audience, htime⟩

/-! ### Where they differ -/

/-- A token that is good by its numbers is refused, as its expiration has wrapped around or `now` is at the end of
the range, or else the authentication has wrapped around and the token is taken for good. -/
def Overflows (s : Service) (now : Time) (times : Times) (claims : Claims) : Prop :=
  InTimeBySeconds s now times ∧ (wrapsFrom ≤ times.expiresAt ∨ GoTime.Time.AtEnd claims.expiresAt s.leeway now) ∨
    wrapsFrom ≤ times.authenticationTime ∧ InTime s now claims

theorem inTime_iff (h : Instants times claims) :
    InTime s now claims ↔ (Time.ofUnix times.issuedAt).seconds < (Time.ofUnix times.expiresAt).seconds ∧
      (Time.ofUnix times.authenticationTime).seconds ≤ (Time.ofUnix times.issuedAt).seconds ∧
        (Time.ofUnix times.issuedAt).seconds * 1000000000 ≤ now.elapsed + s.leeway ∧
          now.elapsed < (Time.ofUnix times.expiresAt).seconds * 1000000000 + s.leeway ∧
            ¬GoTime.Time.AtEnd claims.expiresAt s.leeway now := by
  have hissued := GoTime.Time.after_iff claims.expiresAt claims.issuedAt
  have hauthenticated := GoTime.Time.after_iff claims.authenticationTime claims.issuedAt
  have hbegun := GoTime.Time.truncate_after_add_iff s.leeway_nonneg (.ofUnix times.issuedAt) now
  have hover := GoTime.Time.before_truncate_add_iff s.leeway_nonneg (.ofUnix times.expiresAt) now
  rw [GoTime.Time.elapsed_truncate] at hbegun hover
  rw [h.issuedAt, h.expiresAt] at hissued
  rw [h.issuedAt, h.authenticationTime] at hauthenticated
  have helapsed : ∀ n, (Time.ofUnix n).elapsed = (Time.ofUnix n).seconds * 1000000000 := fun _ => Int.add_zero _
  rw [helapsed, helapsed] at hissued hauthenticated
  have htruncate : ∀ n, (Time.ofUnix n).truncate = Time.ofUnix n := fun _ => rfl
  rw [htruncate] at hbegun hover
  rw [h.expiresAt]
  constructor
  · rintro ⟨hi, ha, hb, ho⟩
    rw [h.issuedAt, h.expiresAt, hissued] at hi
    rw [h.issuedAt, h.authenticationTime, hauthenticated] at ha
    rw [h.issuedAt, hbegun] at hb
    rw [h.expiresAt, hover] at ho
    exact ⟨by omega, by omega, by omega, ho⟩
  · rintro ⟨hi, ha, hb, ho⟩
    refine ⟨?_, ?_, ?_, ?_⟩
    · rw [h.issuedAt, h.expiresAt, hissued]
      omega
    · rw [h.issuedAt, h.authenticationTime, hauthenticated]
      omega
    · rw [h.issuedAt, hbegun]
      omega
    · rw [h.expiresAt, hover]
      exact ho

/-- If the expiration has wrapped around, an instant for which the token is not over comes long before any for which
it has begun. -/
theorem not_inTime_of_wrapped (hinstants : Instants times claims) (hissued : InRange times.issuedAt)
    (hexpires : InRange times.expiresAt) (hleeway : GoTime.InInt64 s.leeway) (hwrapped : wrapsFrom ≤ times.expiresAt)
    (h : InTimeBySeconds s now times) : ¬InTime s now claims := by
  intro htime
  obtain ⟨hi, -, -, ho, -⟩ := (inTime_iff hinstants).mp htime
  have hupper := hleeway.upper
  have hbegun := h.begun
  have hilt := hissued.lt
  have helt := hexpires.lt
  rw [GoTime.Time.seconds_ofUnix hexpires.nonneg helt, if_neg (Int.not_lt.mpr hwrapped)] at hi ho
  rw [GoTime.Time.seconds_ofUnix hissued.nonneg hilt] at hi
  have hnonneg := hissued.nonneg
  unfold GoTime.Time.sinceUnix at hbegun
  unfold wrapsFrom unixToInternal at *
  split_ifs at hi with hsame
  · omega
  · omega

/-- The instants and the numbers say the same but where something overflows. -/
theorem inTime_iff_bySeconds_iff (hinstants : Instants times claims) (hissued : InRange times.issuedAt)
    (hexpires : InRange times.expiresAt) (hauth : InRange times.authenticationTime) (hleeway : GoTime.InInt64 s.leeway) :
    (InTime s now claims ↔ InTimeBySeconds s now times) ↔ ¬Overflows s now times claims := by
  have hinTime : InTime s now claims ↔ _ := inTime_iff hinstants
  have hi := GoTime.Time.seconds_ofUnix hissued.nonneg hissued.lt
  have he := GoTime.Time.seconds_ofUnix hexpires.nonneg hexpires.lt
  have ha := GoTime.Time.seconds_ofUnix hauth.nonneg hauth.lt
  have hilt := hissued.lt
  have helt := hexpires.lt
  constructor
  · rintro hiff (⟨hgood, hwrapped | hend⟩ | ⟨hwrapped, htime⟩)
    · exact not_inTime_of_wrapped hinstants hissued hexpires hleeway hwrapped hgood (hiff.mpr hgood)
    · exact (hinTime.mp (hiff.mpr hgood)).2.2.2.2 hend
    · have hgood := hiff.mp htime
      have hlate : wrapsFrom ≤ times.expiresAt := (hwrapped.trans hgood.authenticated).trans hgood.issued.le
      exact not_inTime_of_wrapped hinstants hissued hexpires hleeway hlate hgood htime
  · intro hnone
    unfold Overflows at hnone
    rw [not_or] at hnone
    constructor
    · intro htime
      have hkept : times.authenticationTime < wrapsFrom := Int.not_le.mp fun hwrapped => hnone.2 ⟨hwrapped, htime⟩
      obtain ⟨hissue, hauthenticated, hbegun, hover, -⟩ := hinTime.mp htime
      have hinonneg := hissued.nonneg
      have hanonneg := hauth.nonneg
      rw [ha, if_pos hkept] at hauthenticated
      rw [hi] at hissue hauthenticated hbegun
      rw [he] at hissue hover
      unfold wrapsFrom unixToInternal at *
      split_ifs at hissue hauthenticated hbegun hover
      · refine ⟨by omega, by omega, ?_, ?_⟩
        · unfold GoTime.Time.sinceUnix unixToInternal
          omega
        · unfold GoTime.Time.sinceUnix unixToInternal
          omega
      · omega
      · omega
      · omega
    · intro hgood
      have hkept : times.expiresAt < wrapsFrom := Int.not_le.mp fun hwrapped => hnone.1 ⟨hgood, .inl hwrapped⟩
      have hend : ¬GoTime.Time.AtEnd claims.expiresAt s.leeway now := fun hend => hnone.1 ⟨hgood, .inr hend⟩
      obtain ⟨hissue, hauthenticated, hbegun, hover⟩ := hgood
      unfold GoTime.Time.sinceUnix at hbegun hover
      rw [hinTime, hi, he, ha, if_pos hkept, if_pos (hissue.trans hkept), if_pos ((hauthenticated.trans_lt hissue).trans hkept)]
      refine ⟨?_, ?_, ?_, ?_, hend⟩
      · omega
      · omega
      · omega
      · omega

end

/-! ### What is accepted -/

/-- A text is accepted if and only if it is that of the one token that is well formed, by its numbers, and a provider
that cannot tell anything about its key is not taken for an invalid token. -/
structure AcceptsExactly (verify : Verifier) (s : Service) (provider : PublicKeyProvider) (now : Time) (compact : Bytes) :
    Prop where
  accepted : ∀ claims, validate verify s provider now compact = .ok claims ↔
    ∃! t : Token, t.compact = compact ∧ t.WellFormed verify s provider now claims
  outage : ∀ header payloadPart signature keyID cause error, Protected compact header payloadPart signature keyID →
    Outage provider keyID cause → validate verify s provider now compact = .error error → isInvalid error = false

/-- The text of a token whose times overflow, and which is valid otherwise. -/
def Overflowing (verify : Verifier) (s : Service) (provider : PublicKeyProvider) (now : Time) (compact : Bytes) : Prop :=
  ∃ t : Token, ∃ times claims, t.compact = compact ∧ t.Complete verify s provider times claims ∧ Overflows s now times claims

section

variable {verify : Verifier} {s : Service} {provider : PublicKeyProvider} {now : Time} {t : Token} {times : Times}
  {claims : Claims}

theorem Token.Complete.inTime_iff_iff (h : t.Complete verify s provider times claims) (hleeway : GoTime.InInt64 s.leeway) :
    (InTime s now claims ↔ InTimeBySeconds s now times) ↔ ¬Overflows s now times claims := by
  obtain ⟨object, -, -, htimes⟩ := h.hasTimes
  exact inTime_iff_bySeconds_iff h.instants htimes.issuedAt.inRange htimes.expiresAt.inRange htimes.authenticationTime.inRange
    hleeway

theorem Token.Complete.valid_iff (h : t.Complete verify s provider times claims) :
    t.Valid verify s provider now claims ↔ InTime s now claims := by
  rw [Token.valid_iff_complete]
  exact ⟨fun hvalid => hvalid.elim fun _ h => h.2, fun htime => ⟨times, h, htime⟩⟩

theorem Token.Complete.wellFormed_iff (h : t.Complete verify s provider times claims) :
    t.WellFormed verify s provider now claims ↔ InTimeBySeconds s now times := by
  constructor
  · rintro ⟨times', h', hgood⟩
    cases h.times_unique h'
    exact hgood
  · intro hgood
    exact ⟨times, h, hgood⟩

theorem existsUnique_compact_iff {p : Token → Prop} :
    (∃! t' : Token, t'.compact = t.compact ∧ p t') ↔ p t := by
  constructor
  · rintro ⟨t', ⟨hcompact, h⟩, -⟩
    rw [← Token.compact_injective hcompact]
    exact h
  · intro h
    exact ⟨t, ⟨rfl, h⟩, fun t' h' => Token.compact_injective h'.1⟩

theorem not_isInvalid_of_outage {compact header payloadPart signature keyID : Bytes} {cause : Dependency}
    {error : ValidateError} (hprotected : Protected compact header payloadPart signature keyID)
    (houtage : Outage provider keyID cause) (h : validate verify s provider now compact = .error error) :
    isInvalid error = false := by
  have hdependency : validate verify s provider now compact = .error (.dependency cause) :=
    validate_eq_dependency_iff.mpr ⟨header, payloadPart, signature, keyID, hprotected, houtage⟩
  cases h.symm.trans hdependency
  rfl

end

/-- Something that overflows is noticed: a token is refused that is well formed, or one is accepted that is not. -/
theorem not_acceptsExactly_of_overflowing {verify : Verifier} {s : Service} {provider : PublicKeyProvider} {now : Time}
    {compact : Bytes} (hleeway : GoTime.InInt64 s.leeway) (h : Overflowing verify s provider now compact) :
    ¬AcceptsExactly verify s provider now compact := by
  rintro ⟨haccepted, -⟩
  obtain ⟨t, times, claims, rfl, hcomplete, hoverflows⟩ := h
  refine (hcomplete.inTime_iff_iff hleeway).mp ?_ hoverflows
  have hiff := haccepted claims
  rw [validate_compact_iff, existsUnique_compact_iff, hcomplete.valid_iff, hcomplete.wellFormed_iff] at hiff
  exact hiff

/-- A token is accepted exactly if it is well formed, by the numbers of its times, unless these overflow. -/
theorem accepts_exactly_iff (verify : Verifier) (s : Service) (hleeway : GoTime.InInt64 s.leeway)
    (provider : PublicKeyProvider) (now : Time) (compact : Bytes) :
    AcceptsExactly verify s provider now compact ↔ ¬Overflowing verify s provider now compact := by
  constructor
  · intro h hoverflowing
    exact not_acceptsExactly_of_overflowing hleeway hoverflowing h
  · intro hnone
    refine ⟨fun claims => ?_, fun _ _ _ _ _ _ => not_isInvalid_of_outage⟩
    have hsame : ∀ (t : Token) (times : Times), t.compact = compact → t.Complete verify s provider times claims →
        (InTime s now claims ↔ InTimeBySeconds s now times) := by
      intro t times hcompact hcomplete
      exact (hcomplete.inTime_iff_iff hleeway).mpr fun hoverflows => hnone ⟨t, times, claims, hcompact, hcomplete, hoverflows⟩
    rw [validate_eq_ok]
    constructor
    · rintro ⟨t, rfl, hvalid⟩
      obtain ⟨times, hcomplete, htime⟩ := Token.valid_iff_complete.mp hvalid
      rw [existsUnique_compact_iff]
      exact ⟨times, hcomplete, (hsame t times rfl hcomplete).mp htime⟩
    · rintro ⟨t, ⟨rfl, times, hcomplete, hgood⟩, -⟩
      exact ⟨t, rfl, hcomplete.valid_iff.mpr ((hsame t times rfl hcomplete).mpr hgood)⟩

/-! Tokens that are issued a minute after the start of 1970, with this number of seconds for the authentication. -/

def claimsSince (authenticationTime : Int) : Claims where
  issuer := ascii "issuer"
  audience := ascii "audience"
  subject := ascii "marvin"
  sessionID := ascii "family"
  tokenID := ascii "token"
  issuedAt := .ofUnix 60
  expiresAt := .ofUnix 960
  authenticationTime := .ofUnix authenticationTime
  authenticationMethod := ascii "LOCAL"
  assuranceLevel := ascii "aal1"
  globalRoles := [ascii "USER"]
  keyID := ascii "v1"

def tokenSince (authenticationTime : Int) : Bytes :=
  (Token.mk (header (claimsSince authenticationTime)) (payload (claimsSince authenticationTime)) (List.replicate 64 9)).compact

def knownKeyProvider : PublicKeyProvider :=
  ⟨.ok (ascii "v1"), fun keyID => if keyID = ascii "v1" then .ok (some (List.replicate 32 7)) else .ok none⟩

/-- Verifies the one signature. -/
def oneSignature : Verifier := fun _ _ signature => signature = List.replicate 64 9

/-- The seconds of the expiration and of the authentication, if the token is accepted. -/
def acceptedSeconds (compact : Bytes) : Option (Int × Int) :=
  match validate oneSignature issuingService knownKeyProvider (.ofUnix 100) compact with
  | .error _ => none
  | .ok claims => some (claims.expiresAt.seconds, claims.authenticationTime.seconds)

theorem complete_of_acceptedSeconds {compact : Bytes} {expiresAt authenticationTime : Int}
    (h : acceptedSeconds compact = some (expiresAt, authenticationTime)) :
    ∃ t : Token, ∃ times claims, t.compact = compact ∧ t.Complete oneSignature issuingService knownKeyProvider times claims ∧
      InTime issuingService (.ofUnix 100) claims ∧ (Time.ofUnix times.expiresAt).seconds = expiresAt ∧
        (Time.ofUnix times.authenticationTime).seconds = authenticationTime := by
  rw [acceptedSeconds] at h
  split at h
  · cases h
  · next claims hvalidate =>
      cases h
      obtain ⟨t, hcompact, hvalid⟩ := validate_eq_ok.mp hvalidate
      obtain ⟨times, hcomplete, htime⟩ := Token.valid_iff_complete.mp hvalid
      have hinstants := hcomplete.instants
      refine ⟨t, times, claims, hcompact, hcomplete, htime, ?_, ?_⟩
      · rw [hinstants.expiresAt]
      · rw [hinstants.authenticationTime]

theorem wrapsFrom_le_iff {n : Int} (h : InRange n) : wrapsFrom ≤ n ↔ (Time.ofUnix n).seconds < 0 := by
  have hlt := h.lt
  have hnonneg := h.nonneg
  rw [GoTime.Time.seconds_ofUnix hnonneg hlt]
  unfold wrapsFrom unixToInternal
  split_ifs with hkept
  · omega
  · omega

/-- The authentication is 292 billion years after the issuance, and the token is accepted. -/
theorem accepts_exactly_wrong :
    ¬AcceptsExactly oneSignature issuingService knownKeyProvider (.ofUnix 100) (tokenSince 9223372036854775807) := by
  have hrun : acceptedSeconds (tokenSince 9223372036854775807) = some (62135597760, -9223371974719179009) := by
    decide +kernel
  obtain ⟨t, times, claims, hcompact, hcomplete, htime, -, hauth⟩ := complete_of_acceptedSeconds hrun
  obtain ⟨object, -, -, htimes⟩ := hcomplete.hasTimes
  have hwrapped : wrapsFrom ≤ times.authenticationTime := by
    rw [wrapsFrom_le_iff htimes.authenticationTime.inRange, hauth]
    decide
  exact not_acceptsExactly_of_overflowing ⟨by decide, by decide⟩ ⟨t, times, claims, hcompact, hcomplete, .inr ⟨hwrapped, htime⟩⟩

/-- The authentication is at the issuance. -/
theorem accepts_exactly_of_minute :
    AcceptsExactly oneSignature issuingService knownKeyProvider (.ofUnix 100) (tokenSince 60) := by
  apply (accepts_exactly_iff oneSignature issuingService ⟨by decide, by decide⟩ knownKeyProvider (.ofUnix 100) (tokenSince 60)).mpr
  rintro ⟨t', times', claims', hcompact', hcomplete', hoverflows⟩
  have hrun : acceptedSeconds (tokenSince 60) = some (62135597760, 62135596860) := by decide +kernel
  obtain ⟨t, times, claims, hcompact, hcomplete, -, hexp, hauth⟩ := complete_of_acceptedSeconds hrun
  cases Token.compact_injective (hcompact'.trans hcompact.symm)
  cases hcomplete.times_unique hcomplete'
  obtain ⟨object, -, -, htimes⟩ := hcomplete.hasTimes
  rcases hoverflows with ⟨-, hwrapped | hend⟩ | ⟨hwrapped, -⟩
  · rw [wrapsFrom_le_iff htimes.expiresAt.inRange, hexp] at hwrapped
    exact absurd hwrapped (by decide)
  · exact absurd hend.last (by decide)
  · rw [wrapsFrom_le_iff htimes.authenticationTime.inRange, hauth] at hwrapped
    exact absurd hwrapped (by decide)

end Transcendence.Auth.AccessTokens
