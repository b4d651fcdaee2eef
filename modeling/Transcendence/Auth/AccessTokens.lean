import Transcendence.Auth.TransitSignatures
import Transcendence.Base.GoTime
import Transcendence.Base.JsonValues
import Transcendence.Base.OrderedMap

/-!
# Access tokens

`token.go`: compact JSON web tokens that Vault Transit signs. `mint` writes the header and the claims as
`encoding/json` does, has them signed and checks the signature that it gets. `validate` takes a token
apart again, and tells an invalid token from a key provider that fails. What both get from outside is
given: the reading of the clock, the random bytes, what the provider and the signer answer, and what
Ed25519 verifies. `encoding/json` refuses values that are nested more than 10000 deep, which no token is
long enough for.
-/

namespace Transcendence.Auth.AccessTokens

open Base64 (RawURLEncoding)
open GoString (split join)
open GoTime (Time)
open JsonText (Field Value)
open OrderedMap (get)

def algorithm : Bytes :=
  ascii "EdDSA"

def tokenType : Bytes :=
  ascii "JWT"

def maxTokenLength : Nat :=
  16 * 1024

def maxHeaderLength : Nat :=
  1024

def maxClaimsLength : Nat :=
  8 * 1024

def publicKeySize : Nat :=
  32

/-! ### The service -/

structure Config where
  issuer : Bytes
  audience : Bytes
  leeway : Int

/-- What `NewService` has checked. -/
structure Service extends Config where
  issuer_ne : issuer ≠ []
  audience_ne : audience ≠ []
  leeway_nonneg : 0 ≤ leeway

inductive ConfigError where
  | required
  | negativeLeeway
  deriving DecidableEq

def newService (config : Config) : Except ConfigError Service :=
  if hrequired : config.issuer = [] ∨ config.audience = [] then .error .required
  else if hleeway : config.leeway < 0 then .error .negativeLeeway
  else
    .ok
      { config with
        issuer_ne := fun h => hrequired (.inl h)
        audience_ne := fun h => hrequired (.inr h)
        leeway_nonneg := Int.not_lt.mp hleeway }

/-- What the provider answers during a call. -/
structure PublicKeyProvider where
  signingKeyID : Except String Bytes
  publicKey : Bytes → Except String (Option Bytes)

/-- What Vault answers, by the key id and the message. -/
abbrev Signer := Bytes → Bytes → Except String Bytes

/-- `ed25519.Verify`, by the key, the message and the signature. -/
abbrev Verifier := Bytes → Bytes → Bytes → Bool

/-- What `rand.Read` fills a buffer with. -/
abbrev RandomBytes := { bytes : Bytes // bytes.length = 32 }

structure MintRequest where
  subject : Bytes
  sessionID : Bytes
  tokenID : Bytes
  authenticationMethod : Bytes
  assuranceLevel : Bytes
  globalRoles : List Bytes
  authenticationTime : Time
  lifetime : Int

@[ext]
structure Claims where
  issuer : Bytes
  audience : Bytes
  subject : Bytes
  sessionID : Bytes
  tokenID : Bytes
  issuedAt : Time
  expiresAt : Time
  authenticationTime : Time
  authenticationMethod : Bytes
  assuranceLevel : Bytes
  globalRoles : List Bytes
  keyID : Bytes

def validKeyID (keyID : Bytes) : Bool :=
  validTransitVersion keyID

def validRoles (roles : List Bytes) : Bool :=
  roles ≠ [] && roles.all (· ≠ [])

/-! ### Minting -/

inductive MintError where
  | identityRequired
  | authenticationTimeRequired
  | lifetimeNotPositive
  | generateTokenID (cause : String)
  | resolveSigningKey (cause : String)
  | signingKeyIDInvalid
  | authenticatedAfterIssuance
  | sign (cause : String)
  | signerResponse (cause : TransitError)
  | unexpectedKeyVersion
  | lookupPublicKey (cause : String)
  | publicKeyUnavailable
  | signatureInvalid
  deriving DecidableEq

def validateMintRequest (request : MintRequest) : Except MintError Unit :=
  if request.subject = [] ∨ request.sessionID = [] ∨ request.authenticationMethod = [] ∨ request.assuranceLevel = [] ∨
      validRoles request.globalRoles = false then .error .identityRequired
  else if request.authenticationTime.IsZero then .error .authenticationTimeRequired
  else if request.lifetime ≤ 0 then .error .lifetimeNotPositive
  else .ok ()

def newTokenID (random : Except String RandomBytes) : Except MintError Bytes :=
  match random with
  | .error cause => .error (.generateTokenID cause)
  | .ok value => .ok (Base64.encode RawURLEncoding value.val)

/-- The id that was asked for, or else a new one. -/
def mintedTokenID (request : MintRequest) (random : Except String RandomBytes) : Except MintError Bytes :=
  if request.tokenID = [] then newTokenID random else .ok request.tokenID

def transitKeyID (value : Bytes) : Bytes :=
  match split 58 value with
  | [_, version, _] => if validTransitVersion version then version else []
  | _ => []

def mintedClaims (s : Service) (request : MintRequest) (clock : Time) (tokenID keyID : Bytes) : Claims where
  issuer := s.issuer
  audience := s.audience
  subject := request.subject
  sessionID := request.sessionID
  tokenID := tokenID
  issuedAt := clock.truncate
  expiresAt := clock.truncate.add request.lifetime
  authenticationTime := request.authenticationTime.truncate
  authenticationMethod := request.authenticationMethod
  assuranceLevel := request.assuranceLevel
  globalRoles := request.globalRoles
  keyID := keyID

def headerFields (keyID : Bytes) : List (Bytes × Field) :=
  [(ascii "alg", .text algorithm), (ascii "typ", .text tokenType), (ascii "kid", .text keyID)]

def payloadFields (claims : Claims) : List (Bytes × Field) :=
  [(ascii "iss", .text claims.issuer), (ascii "aud", .text claims.audience), (ascii "sub", .text claims.subject),
    (ascii "sid", .text claims.sessionID), (ascii "jti", .text claims.tokenID), (ascii "iat", .integer claims.issuedAt.unix),
    (ascii "exp", .integer claims.expiresAt.unix), (ascii "auth_time", .integer claims.authenticationTime.unix),
    (ascii "amr", .text claims.authenticationMethod), (ascii "acr", .text claims.assuranceLevel),
    (ascii "global_roles", .texts claims.globalRoles)]

def header (claims : Claims) : Bytes :=
  JsonText.marshal (headerFields claims.keyID)

def payload (claims : Claims) : Bytes :=
  JsonText.marshal (payloadFields claims)

/-- The first two parts of a token, which are signed. -/
def signingInput (claims : Claims) : Bytes :=
  Base64.encode RawURLEncoding (header claims) ++ ascii "." ++ Base64.encode RawURLEncoding (payload claims)

/-- `Mint` until it asks for a signature: the claims that it asks to be signed. -/
def claimsToSign (s : Service) (provider : PublicKeyProvider) (clock : Time) (random : Except String RandomBytes)
    (request : MintRequest) : Except MintError Claims := do
  validateMintRequest request
  let tokenID ← mintedTokenID request random
  match provider.signingKeyID with
  | .error cause => .error (.resolveSigningKey cause)
  | .ok keyID =>
      if validKeyID keyID = false then .error .signingKeyIDInvalid
      else
        let claims := mintedClaims s request clock tokenID keyID
        if claims.authenticationTime.After claims.issuedAt then .error .authenticatedAfterIssuance
        else .ok claims

/-- What `Mint` does with the signer's answer. -/
def checkSignature (verify : Verifier) (provider : PublicKeyProvider) (claims : Claims) (transitSignature : Bytes) :
    Except MintError Bytes :=
  match parseTransitSignature transitSignature with
  | .error cause => .error (.signerResponse cause)
  | .ok signature =>
      if transitKeyID transitSignature ≠ claims.keyID then .error .unexpectedKeyVersion
      else
        match provider.publicKey claims.keyID with
        | .error cause => .error (.lookupPublicKey cause)
        | .ok none => .error .publicKeyUnavailable
        | .ok (some publicKey) =>
            if publicKey.length ≠ publicKeySize then .error .publicKeyUnavailable
            else if verify publicKey (signingInput claims) signature = false then .error .signatureInvalid
            else .ok signature

def mint (verify : Verifier) (s : Service) (signer : Signer) (provider : PublicKeyProvider) (clock : Time)
    (random : Except String RandomBytes) (request : MintRequest) : Except MintError Bytes := do
  let claims ← claimsToSign s provider clock random request
  match signer claims.keyID (signingInput claims) with
  | .error cause => .error (.sign cause)
  | .ok transitSignature =>
      let signature ← checkSignature verify provider claims transitSignature
      .ok (signingInput claims ++ ascii "." ++ Base64.encode RawURLEncoding signature)

/-! ### Validating -/

inductive Part where
  | header
  | signature
  | claims
  deriving DecidableEq

/-- What may be wrong with a token. -/
inductive Invalid where
  | compactLength
  | compactFormat
  | encoding (part : Part)
  | tooLarge (part : Part)
  /-- No JSON object, or one with a key twice. -/
  | object (part : Part)
  | headerMembers
  | headerAlgorithm
  | headerType
  | headerKeyID
  | signatureLength
  | unknownKey
  | signature
  | claim (name : String)
  | issuer
  | audience
  | expiration
  | authenticationTime
  | expired
  | issuedInFuture
  deriving DecidableEq

/-- `dependencyError` -/
inductive Dependency where
  | lookupPublicKey (cause : String)
  | invalidKey
  deriving DecidableEq

/-- What `Validate` returns: `ErrInvalid`, or the cause of a `dependencyError`. -/
inductive ValidateError where
  | invalid (cause : Invalid)
  | dependency (cause : Dependency)
  deriving DecidableEq

def isInvalid : ValidateError → Bool
  | .invalid _ => true
  | .dependency _ => false

def splitCompact (compact : Bytes) : Except Invalid (Bytes × Bytes × Bytes) :=
  if compact = [] ∨ maxTokenLength < compact.length then .error .compactLength
  else
    match split 46 compact with
    | [header, payload, signature] =>
        if header = [] ∨ payload = [] ∨ signature = [] then .error .compactFormat else .ok (header, payload, signature)
    | _ => .error .compactFormat

def decodeCompactPart (part : Part) (text : Bytes) (maxLength : Nat) : Except Invalid Bytes :=
  if maxLength * 2 < text.length ∨ 61 ∈ text then .error (.encoding part)
  else
    match Base64.decode RawURLEncoding text with
    | none => .error (.encoding part)
    | some decoded =>
        if Base64.encode RawURLEncoding decoded ≠ text then .error (.encoding part)
        else if maxLength < decoded.length then .error (.tooLarge part)
        else .ok decoded

abbrev Object := OrderedMap Bytes Value

def decodeObject (part : Part) (text : Bytes) : Except Invalid Object :=
  match JsonText.object text with
  | none => .error (.object part)
  | some object => if (object.map (·.1)).Nodup then .ok object else .error (.object part)

/-- A `null` leaves the empty string. -/
def objectString (object : Object) (key : Bytes) : Option Bytes :=
  match get object key with
  | some (.string text) => if text = [] then none else some text
  | _ => none

/-- `strconv.ParseInt(number, 10, 64)` -/
def parseInt (number : JsonText.Number) : Option Int :=
  let n := if number.negative then -(number.integer : Int) else number.integer
  if number.suffix = [] ∧ GoTime.int64 n = n then some n else none

def objectUnixTime (object : Object) (key : Bytes) : Option Int :=
  match get object key with
  | some (.number number) => (parseInt number).filter (0 ≤ ·)
  | _ => none

/-- An element of a list of strings, which a `null` leaves empty. -/
def elementText : Value → Option Bytes
  | .string text => some text
  | .null => some []
  | _ => none

def objectStringSlice (object : Object) (key : Bytes) : Option (List Bytes) :=
  match get object key with
  | some (.array elements) => (elements.mapM elementText).filter validRoles
  | _ => none

def validateHeader (header : Object) : Except Invalid Bytes :=
  if header.length ≠ 3 then .error .headerMembers
  else if objectString header (ascii "alg") ≠ some algorithm then .error .headerAlgorithm
  else if objectString header (ascii "typ") ≠ some tokenType then .error .headerType
  else
    match objectString header (ascii "kid") with
    | none => .error .headerKeyID
    | some keyID => if validKeyID keyID = false then .error .headerKeyID else .ok keyID

def required {α : Type} (name : String) : Option α → Except Invalid α
  | none => .error (.claim name)
  | some value => .ok value

/-- `parseClaims`, with the key id that `validate` sets. -/
def parseClaims (payload : Object) (keyID : Bytes) : Except Invalid Claims := do
  let issuer ← required "iss" (objectString payload (ascii "iss"))
  let audience ← required "aud" (objectString payload (ascii "aud"))
  let subject ← required "sub" (objectString payload (ascii "sub"))
  let sessionID ← required "sid" (objectString payload (ascii "sid"))
  let tokenID ← required "jti" (objectString payload (ascii "jti"))
  let issuedAt ← required "iat" (objectUnixTime payload (ascii "iat"))
  let expiresAt ← required "exp" (objectUnixTime payload (ascii "exp"))
  let authenticationTime ← required "auth_time" (objectUnixTime payload (ascii "auth_time"))
  let authenticationMethod ← required "amr" (objectString payload (ascii "amr"))
  let assuranceLevel ← required "acr" (objectString payload (ascii "acr"))
  let globalRoles ← required "global_roles" (objectStringSlice payload (ascii "global_roles"))
  .ok
    { issuer, audience, subject, sessionID, tokenID
      issuedAt := .ofUnix issuedAt
      expiresAt := .ofUnix expiresAt
      authenticationTime := .ofUnix authenticationTime
      authenticationMethod, assuranceLevel, globalRoles, keyID }

def validateClaims (s : Service) (now : Time) (claims : Claims) : Except Invalid Unit :=
  if claims.issuer ≠ s.issuer then .error .issuer
  else if claims.audience ≠ s.audience then .error .audience
  else if ¬claims.expiresAt.After claims.issuedAt then .error .expiration
  else if claims.authenticationTime.After claims.issuedAt then .error .authenticationTime
  else if ¬now.Before (claims.expiresAt.add s.leeway) then .error .expired
  else if claims.issuedAt.After (now.add s.leeway) then .error .issuedInFuture
  else .ok ()

/-- The header and its key id, and the signature: what is read before a key is looked up. -/
def readProtected (headerPart signaturePart : Bytes) : Except Invalid (Bytes × Bytes) := do
  let headerBytes ← decodeCompactPart .header headerPart maxHeaderLength
  let header ← decodeObject .header headerBytes
  let keyID ← validateHeader header
  let signature ← decodeCompactPart .signature signaturePart signatureSize
  if signature.length ≠ signatureSize then .error .signatureLength else .ok (keyID, signature)

/-- The claims of a token whose signature has been verified. -/
def readClaims (s : Service) (now : Time) (payloadPart keyID : Bytes) : Except Invalid Claims := do
  let payloadBytes ← decodeCompactPart .claims payloadPart maxClaimsLength
  let payload ← decodeObject .claims payloadBytes
  let claims ← parseClaims payload keyID
  validateClaims s now claims
  .ok claims

def verifySignature (verify : Verifier) (provider : PublicKeyProvider) (keyID message signature : Bytes) :
    Except ValidateError Unit :=
  match provider.publicKey keyID with
  | .error cause => .error (.dependency (.lookupPublicKey cause))
  | .ok none => .error (.invalid .unknownKey)
  | .ok (some publicKey) =>
      if publicKey.length ≠ publicKeySize then .error (.dependency .invalidKey)
      else if verify publicKey message signature = false then .error (.invalid .signature)
      else .ok ()

def validate (verify : Verifier) (s : Service) (provider : PublicKeyProvider) (now : Time) (compact : Bytes) :
    Except ValidateError Claims := do
  let (headerPart, payloadPart, signaturePart) ← (splitCompact compact).mapError .invalid
  let (keyID, signature) ← (readProtected headerPart signaturePart).mapError .invalid
  verifySignature verify provider keyID (headerPart ++ ascii "." ++ payloadPart) signature
  (readClaims s now payloadPart keyID).mapError .invalid

end Transcendence.Auth.AccessTokens
