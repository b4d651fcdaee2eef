import Mathlib.Data.Nat.Digits.Lemmas
import Transcendence.Auth.TokenValidity

/-!
# From minting to validating

A token that `mint` returns is valid, with the claims that went into it, whenever the conditions of
`Usable` hold, and otherwise it is reported as invalid: `encoding/json` replaces what is not UTF-8, the
claims may be too long to be read, and the seconds that a token keeps leave no lifetime below one of
them. Conversely, if keys verify only what `mint` has had signed, what is accepted are the claims of one
of its calls: nothing in between can change them.
-/

namespace Transcendence.Auth.AccessTokens

open Base64 (RawURLEncoding)
open GoString (split join decimal)
open GoTime (Time)
open JsonText (Field Value)
open Results (bind_eq_ok bind_eq_error mapError_eq_ok mapError_eq_error)
open Utf8 (sanitize)

/-! ### What is minted -/

structure ValidRequest (request : MintRequest) : Prop where
  subject : request.subject ≠ []
  sessionID : request.sessionID ≠ []
  authenticationMethod : request.authenticationMethod ≠ []
  assuranceLevel : request.assuranceLevel ≠ []
  globalRoles : request.globalRoles ≠ [] ∧ [] ∉ request.globalRoles
  authenticationTime : ¬request.authenticationTime.IsZero
  lifetime : 0 < request.lifetime

theorem validateMintRequest_eq_ok_iff {request : MintRequest} :
    validateMintRequest request = .ok () ↔ ValidRequest request := by
  rw [validateMintRequest]
  constructor
  · intro h
    split_ifs at h with hidentity htime hlifetime
    rw [not_or, not_or, not_or, not_or, Bool.not_eq_false, validRoles_iff] at hidentity
    obtain ⟨hsubject, hsession, hmethod, hlevel, hroles⟩ := hidentity
    exact ⟨hsubject, hsession, hmethod, hlevel, hroles, htime, Int.not_le.mp hlifetime⟩
  · intro h
    have hroles : ¬validRoles request.globalRoles = false := by
      rw [Bool.not_eq_false, validRoles_iff]
      exact h.globalRoles
    have hidentity := not_or.mpr ⟨h.subject, not_or.mpr ⟨h.sessionID, not_or.mpr ⟨h.authenticationMethod,
      not_or.mpr ⟨h.assuranceLevel, hroles⟩⟩⟩⟩
    rw [if_neg hidentity, if_neg h.authenticationTime, if_neg (Int.not_le.mpr h.lifetime)]

/-- The claims that `mint` asks to be signed. -/
structure ToSign (s : Service) (provider : PublicKeyProvider) (clock : Time) (request : MintRequest) (claims : Claims) :
    Prop where
  valid : ValidRequest request
  tokenID : claims.tokenID ≠ []
  eq : claims = mintedClaims s request clock claims.tokenID claims.keyID
  signingKeyID : provider.signingKeyID = .ok claims.keyID
  keyID : validKeyID claims.keyID = true
  authenticated : ¬claims.authenticationTime.After claims.issuedAt

theorem mintedTokenID_ne_nil {request : MintRequest} {random : Except String RandomBytes} {tokenID : Bytes}
    (h : mintedTokenID request random = .ok tokenID) : tokenID ≠ [] := by
  rw [mintedTokenID] at h
  split_ifs at h with hgiven
  · cases random with
    | error cause => cases h
    | ok value =>
        cases h
        apply Base64.encode_ne_nil
        intro hnil
        have hlength := value.property
        rw [hnil] at hlength
        cases hlength
  · cases h
    exact hgiven

theorem toSign_of_claimsToSign {s : Service} {provider : PublicKeyProvider} {clock : Time} {random : Except String RandomBytes}
    {request : MintRequest} {claims : Claims} (h : claimsToSign s provider clock random request = .ok claims) :
    ToSign s provider clock request claims := by
  obtain ⟨_, hrequest, h⟩ := bind_eq_ok.mp h
  obtain ⟨tokenID, htokenID, h⟩ := bind_eq_ok.mp h
  cases hkeyID : provider.signingKeyID with
  | error cause =>
      rw [hkeyID] at h
      cases h
  | ok keyID =>
      rw [hkeyID] at h
      dsimp only at h
      split_ifs at h with hvalid hafter
      cases h
      exact ⟨validateMintRequest_eq_ok_iff.mp hrequest, mintedTokenID_ne_nil htokenID, rfl, hkeyID, Bool.eq_true_of_not_eq_false hvalid, hafter⟩

/-- The parts of the token for these claims. -/
def mintedToken (claims : Claims) (signature : Bytes) : Token :=
  ⟨header claims, payload claims, signature⟩

theorem checkSignature_eq_ok {verify : Verifier} {provider : PublicKeyProvider} {claims : Claims}
    {transitSignature signature : Bytes} (h : checkSignature verify provider claims transitSignature = .ok signature) :
    signature.length = signatureSize ∧ ∃ key, provider.publicKey claims.keyID = .ok (some key) ∧
      key.length = publicKeySize ∧ verify key (signingInput claims) signature = true := by
  rw [checkSignature] at h
  split at h
  · cases h
  · rename_i found hparse
    split_ifs at h with hkeyID
    split at h
    · cases h
    · cases h
    · rename_i key hkey
      split_ifs at h with hsize hverify
      cases h
      exact ⟨(of_parseTransitSignature hparse).1, key, hkey, not_not.mp hsize, Bool.eq_true_of_not_eq_false hverify⟩

theorem mint_eq_ok {verify : Verifier} {s : Service} {signer : Signer} {provider : PublicKeyProvider} {clock : Time}
    {random : Except String RandomBytes} {request : MintRequest} {compact : Bytes}
    (h : mint verify s signer provider clock random request = .ok compact) :
    ∃ claims signature, claimsToSign s provider clock random request = .ok claims ∧
      compact = (mintedToken claims signature).compact ∧ signature.length = signatureSize ∧
        ∃ key, provider.publicKey claims.keyID = .ok (some key) ∧ key.length = publicKeySize ∧
          verify key (signingInput claims) signature = true := by
  obtain ⟨claims, hclaims, h⟩ := bind_eq_ok.mp h
  split at h
  · cases h
  · rename_i transitSignature hsign
    obtain ⟨signature, hcheck, h⟩ := bind_eq_ok.mp h
    obtain ⟨hsize, hkey⟩ := checkSignature_eq_ok hcheck
    cases h
    exact ⟨claims, signature, hclaims, rfl, hsize, hkey⟩

theorem transitKeyID_transitSignature {version : Nat} (hversion : validTransitVersion (keyVersion version) = true)
    (encoding : Base64.Encoding) (signature : Bytes) :
    transitKeyID (transitSignature version encoding signature) = keyVersion version := by
  rw [transitKeyID, split_transitSignature]
  exact if_pos hversion

/-- With a signature that its key verifies, `mint` returns the token. -/
theorem mint_of_signature {verify : Verifier} {s : Service} {signer : Signer} {provider : PublicKeyProvider} {clock : Time}
    {random : Except String RandomBytes} {request : MintRequest} {claims : Claims} {version : Nat} {signature key : Bytes}
    (hclaims : claimsToSign s provider clock random request = .ok claims) (hkeyID : keyVersion version = claims.keyID)
    (encoding : Base64.Encoding) (hsize : signature.length = signatureSize)
    (hsign : signer claims.keyID (signingInput claims) = .ok (transitSignature version encoding signature))
    (hkey : provider.publicKey claims.keyID = .ok (some key)) (hlength : key.length = publicKeySize)
    (hverify : verify key (signingInput claims) signature = true) :
    mint verify s signer provider clock random request = .ok (mintedToken claims signature).compact := by
  have hvalid : validTransitVersion (keyVersion version) = true := by
    rw [hkeyID]
    exact (toSign_of_claimsToSign hclaims).keyID
  have hsame : ¬transitKeyID (transitSignature version encoding signature) ≠ claims.keyID := by
    rw [transitKeyID_transitSignature hvalid, hkeyID]
    exact not_not.mpr rfl
  have hcheck : checkSignature verify provider claims (transitSignature version encoding signature) = .ok signature := by
    rw [checkSignature, parse_transitSignature encoding hsize hvalid]
    dsimp only
    rw [if_neg hsame, hkey]
    dsimp only
    rw [if_neg (not_not.mpr hlength), if_neg (by simp [hverify])]
  rw [mint]
  apply Results.bind_eq_ok.mpr
  refine ⟨claims, hclaims, ?_⟩
  rw [hsign]
  dsimp only
  apply Results.bind_eq_ok.mpr
  exact ⟨signature, hcheck, rfl⟩

/-! ### Reading the parts back -/

/-- The claims as they are read back: texts are UTF-8 then, and the instants full seconds. -/
def readBack (claims : Claims) : Claims :=
  { claims with
    issuer := sanitize claims.issuer
    audience := sanitize claims.audience
    subject := sanitize claims.subject
    sessionID := sanitize claims.sessionID
    tokenID := sanitize claims.tokenID
    issuedAt := claims.issuedAt.truncate
    expiresAt := claims.expiresAt.truncate
    authenticationTime := claims.authenticationTime.truncate
    authenticationMethod := sanitize claims.authenticationMethod
    assuranceLevel := sanitize claims.assuranceLevel
    globalRoles := claims.globalRoles.map sanitize }

theorem sanitize_ascii {bs : Bytes} (h : bs.all (· < 0x80) = true) : sanitize bs = bs := by
  apply Utf8.sanitize_of_ascii
  intro c hc
  exact of_decide_eq_true (List.all_eq_true.mp h c hc)

theorem ascii_of_validKeyID {keyID : Bytes} (h : validKeyID keyID = true) :
    sanitize keyID = keyID ∧ keyID.length ≤ 21 := by
  obtain ⟨version, -, hlt, rfl⟩ := (validTransitVersion_iff keyID).mp h
  have hdigits := List.all_eq_true.mp (GoString.all_isDigit_decimal version)
  constructor
  · apply Utf8.sanitize_of_ascii
    intro c hc
    rcases List.mem_cons.mp hc with rfl | hc
    · decide
    · have hdigit := (GoString.isDigit_iff c).mp (hdigits c hc)
      show c.toNat < 128
      omega
  · have hlength : (Nat.digits 10 version).length ≤ 20 := (Nat.digits_length_le_iff (by decide) version).mpr (by omega)
    rw [keyVersion, List.length_cons, decimal, List.length_map, List.length_reverse]
    omega

theorem object_header {claims : Claims} (h : validKeyID claims.keyID = true) :
    JsonText.object (header claims) = some (headerObject claims.keyID) := by
  have hfields : headerFields claims.keyID ≠ [] := List.cons_ne_nil _ _
  have hkeyID := (ascii_of_validKeyID h).1
  rw [header, JsonText.object_marshal hfields]
  simp only [headerFields, headerObject, List.map_cons, List.map_nil, JsonText.meantMember, Field.meant, hkeyID]
  have hascii : ∀ bs ∈ [ascii "alg", ascii "typ", ascii "kid", algorithm, tokenType], bs.all (· < 0x80) = true :=
    List.all_eq_true.mp rfl
  rw [List.forall_mem_cons, List.forall_mem_cons, List.forall_mem_cons, List.forall_mem_cons, List.forall_mem_singleton]
    at hascii
  obtain ⟨halg, htyp, hkid, halgorithm, htokenType⟩ := hascii
  rw [sanitize_ascii halg, sanitize_ascii htyp, sanitize_ascii hkid, sanitize_ascii halgorithm, sanitize_ascii htokenType]

theorem length_header_le {claims : Claims} (h : validKeyID claims.keyID = true) : (header claims).length ≤ 256 := by
  have hquoted := JsonText.length_quoted_le claims.keyID
  have hkeyID := (ascii_of_validKeyID h).2
  have hnames : (JsonText.quoted (ascii "alg")).length = 5 ∧ (JsonText.quoted (ascii "typ")).length = 5 ∧
      (JsonText.quoted (ascii "kid")).length = 5 := by decide
  have hvalues : (JsonText.quoted algorithm).length = 7 ∧ (JsonText.quoted tokenType).length = 5 := by decide
  obtain ⟨halg, htyp, hkid⟩ := hnames
  obtain ⟨halgorithm, htokenType⟩ := hvalues
  simp only [header, JsonText.marshal, headerFields, JsonText.writtenMember, Field.written, List.map_cons, List.map_nil,
    List.intercalate_cons_cons, List.intercalate_singleton, List.length_cons, List.length_append, List.length_nil, halg, htyp,
    hkid, halgorithm, htokenType]
  omega

/-! ### Reading the claims back -/

def payloadObject (claims : Claims) : Object :=
  (payloadFields claims).map JsonText.meantMember

def claimNames : List Bytes :=
  [ascii "iss", ascii "aud", ascii "sub", ascii "sid", ascii "jti", ascii "iat", ascii "exp", ascii "auth_time", ascii "amr",
    ascii "acr", ascii "global_roles"]

theorem names_payloadFields (claims : Claims) : (payloadFields claims).map (·.1) = claimNames :=
  rfl

theorem sanitize_claimName {name : Bytes} (h : name ∈ claimNames) : sanitize name = name := by
  have hascii : ∀ name ∈ claimNames, name.all (· < 0x80) = true := List.all_eq_true.mp rfl
  exact sanitize_ascii (hascii name h)

theorem object_payload (claims : Claims) : JsonText.object (payload claims) = some (payloadObject claims) := by
  have hfields : payloadFields claims ≠ [] := List.cons_ne_nil _ _
  exact JsonText.object_marshal hfields

theorem meantMember_payload {claims : Claims} {entry : Bytes × Field} (h : entry ∈ payloadFields claims) :
    JsonText.meantMember entry = (entry.1, entry.2.meant) := by
  rw [JsonText.meantMember, sanitize_claimName]
  rw [← names_payloadFields claims]
  exact List.mem_map_of_mem h

theorem uniqueKeys_payloadObject (claims : Claims) : OrderedMap.UniqueKeys (payloadObject claims) := by
  have hnames : (payloadObject claims).map (·.1) = claimNames := by
    rw [payloadObject, List.map_map, ← names_payloadFields claims]
    apply List.map_congr_left
    intro entry hentry
    exact congrArg Prod.fst (meantMember_payload hentry)
  rw [OrderedMap.UniqueKeys, hnames]
  decide

theorem get_payloadObject {claims : Claims} {name : Bytes} {field : Field} (h : (name, field) ∈ payloadFields claims) :
    OrderedMap.get (payloadObject claims) name = some field.meant := by
  apply OrderedMap.get_of_mem (uniqueKeys_payloadObject claims)
  rw [payloadObject, ← show JsonText.meantMember (name, field) = (name, field.meant) from meantMember_payload h]
  exact List.mem_map_of_mem h

theorem payload_mem (claims : Claims) (i : Fin 11) : (payloadFields claims).get i ∈ payloadFields claims :=
  List.get_mem (payloadFields claims) i

section

variable {claims : Claims} {name : String}

theorem hasText_payload_iff {value text : Bytes} (h : (ascii name, Field.text value) ∈ payloadFields claims)
    (hne : value ≠ []) : HasText (payloadObject claims) name text ↔ text = sanitize value := by
  rw [HasText, ← get_eq_some_iff (uniqueKeys_payloadObject claims), get_payloadObject h, Field.meant, Option.some.injEq,
    Value.string.injEq]
  constructor
  · intro htext
    exact htext.1.symm
  · rintro rfl
    exact ⟨rfl, Utf8.sanitize_ne_nil hne⟩

theorem hasSeconds_payload_iff {n seconds : Int} (h : (ascii name, Field.integer n) ∈ payloadFields claims)
    (hn : GoTime.InInt64 n) : HasSeconds (payloadObject claims) name seconds ↔ seconds = n ∧ 0 ≤ n := by
  have hupper := hn.upper
  simp only [HasSeconds, ← get_eq_some_iff (uniqueKeys_payloadObject claims), get_payloadObject h, Field.meant,
    Option.some.injEq, Value.number.injEq, JsonText.Number.mk.injEq, and_true]
  constructor
  · rintro ⟨hnonneg, -, negative, hzero, hsign, habs⟩
    by_cases hneg : n < 0
    · have hseconds := hzero (hsign ▸ decide_eq_true hneg)
      omega
    · omega
  · rintro ⟨rfl, hnonneg⟩
    refine ⟨hnonneg, by omega, false, ?_, decide_eq_false (by omega), by omega⟩
    intro h
    cases h

theorem hasInstant_payload_iff {t u : Time} (h : (ascii name, Field.integer t.unix) ∈ payloadFields claims) :
    HasInstant (payloadObject claims) name u ↔ u = t.truncate ∧ 0 ≤ t.unix := by
  simp only [HasInstant, hasSeconds_payload_iff h t.inInt64_unix, ← GoTime.Time.ofUnix_unix]
  constructor
  · rintro ⟨seconds, ⟨rfl, hnonneg⟩, rfl⟩
    exact ⟨rfl, hnonneg⟩
  · rintro ⟨rfl, hnonneg⟩
    exact ⟨_, ⟨rfl, hnonneg⟩, rfl⟩

theorem hasTexts_payload_iff {values texts : List Bytes} (h : (ascii name, Field.texts values) ∈ payloadFields claims)
    (hvalues : values ≠ [] ∧ [] ∉ values) :
    HasTexts (payloadObject claims) name texts ↔ texts = values.map sanitize := by
  rw [HasTexts, ← get_eq_some_iff (uniqueKeys_payloadObject claims), get_payloadObject h, Field.meant, if_neg hvalues.1,
    Option.some.injEq, Value.array.injEq]
  have hinjective : Function.Injective Value.string := fun _ _ h => Value.string.inj h
  constructor
  · rintro ⟨heq, -⟩
    apply hinjective.list_map
    rw [← heq, List.map_map]
    rfl
  · rintro rfl
    refine ⟨?_, ?_, ?_⟩
    · rw [List.map_map]
      rfl
    · simpa using hvalues.1
    · intro hempty
      obtain ⟨value, hvalue, hnil⟩ := List.mem_map.mp hempty
      exact Utf8.sanitize_ne_nil (fun heq => hvalues.2 (heq ▸ hvalue)) hnil

end

/-- Nothing that a token must say is empty. -/
structure Complete (claims : Claims) : Prop where
  issuer : claims.issuer ≠ []
  audience : claims.audience ≠ []
  subject : claims.subject ≠ []
  sessionID : claims.sessionID ≠ []
  tokenID : claims.tokenID ≠ []
  authenticationMethod : claims.authenticationMethod ≠ []
  assuranceLevel : claims.assuranceLevel ≠ []
  globalRoles : claims.globalRoles ≠ [] ∧ [] ∉ claims.globalRoles

theorem ToSign.complete {s : Service} {provider : PublicKeyProvider} {clock : Time} {request : MintRequest} {claims : Claims}
    (h : ToSign s provider clock request claims) : Complete claims := by
  obtain ⟨hvalid, htokenID, heq, -, -, -⟩ := h
  rw [heq]
  exact ⟨s.issuer_ne, s.audience_ne, hvalid.subject, hvalid.sessionID, htokenID, hvalid.authenticationMethod,
    hvalid.assuranceLevel, hvalid.globalRoles⟩

/-- The instants are not before 1970. -/
structure SinceUnix (claims : Claims) : Prop where
  issuedAt : 0 ≤ claims.issuedAt.unix
  expiresAt : 0 ≤ claims.expiresAt.unix
  authenticationTime : 0 ≤ claims.authenticationTime.unix

/-- The claims that are found in a payload: those that were written. -/
theorem hasClaims_payload_iff {claims found : Claims} (h : Complete claims) (hkeyID : found.keyID = claims.keyID) :
    HasClaims (payloadObject claims) found ↔ found = readBack claims ∧ SinceUnix claims := by
  have hiat := hasInstant_payload_iff (t := claims.issuedAt) (u := found.issuedAt) (payload_mem claims 5)
  have hexp := hasInstant_payload_iff (t := claims.expiresAt) (u := found.expiresAt) (payload_mem claims 6)
  have hauth := hasInstant_payload_iff (t := claims.authenticationTime) (u := found.authenticationTime) (payload_mem claims 7)
  constructor
  · intro hfound
    obtain ⟨hissuedAt, hiat⟩ := hiat.mp hfound.issuedAt
    obtain ⟨hexpiresAt, hexp⟩ := hexp.mp hfound.expiresAt
    obtain ⟨hauthenticationTime, hauth⟩ := hauth.mp hfound.authenticationTime
    refine ⟨?_, hiat, hexp, hauth⟩
    ext1
    · exact (hasText_payload_iff (payload_mem claims 0) h.issuer).mp hfound.issuer
    · exact (hasText_payload_iff (payload_mem claims 1) h.audience).mp hfound.audience
    · exact (hasText_payload_iff (payload_mem claims 2) h.subject).mp hfound.subject
    · exact (hasText_payload_iff (payload_mem claims 3) h.sessionID).mp hfound.sessionID
    · exact (hasText_payload_iff (payload_mem claims 4) h.tokenID).mp hfound.tokenID
    · exact hissuedAt
    · exact hexpiresAt
    · exact hauthenticationTime
    · exact (hasText_payload_iff (payload_mem claims 8) h.authenticationMethod).mp hfound.authenticationMethod
    · exact (hasText_payload_iff (payload_mem claims 9) h.assuranceLevel).mp hfound.assuranceLevel
    · exact (hasTexts_payload_iff (payload_mem claims 10) h.globalRoles).mp hfound.globalRoles
    · exact hkeyID
  · rintro ⟨rfl, hsince⟩
    exact
      { issuer := (hasText_payload_iff (payload_mem claims 0) h.issuer).mpr rfl
        audience := (hasText_payload_iff (payload_mem claims 1) h.audience).mpr rfl
        subject := (hasText_payload_iff (payload_mem claims 2) h.subject).mpr rfl
        sessionID := (hasText_payload_iff (payload_mem claims 3) h.sessionID).mpr rfl
        tokenID := (hasText_payload_iff (payload_mem claims 4) h.tokenID).mpr rfl
        issuedAt := hiat.mpr ⟨rfl, hsince.issuedAt⟩
        expiresAt := hexp.mpr ⟨rfl, hsince.expiresAt⟩
        authenticationTime := hauth.mpr ⟨rfl, hsince.authenticationTime⟩
        authenticationMethod := (hasText_payload_iff (payload_mem claims 8) h.authenticationMethod).mpr rfl
        assuranceLevel := (hasText_payload_iff (payload_mem claims 9) h.assuranceLevel).mpr rfl
        globalRoles := (hasTexts_payload_iff (payload_mem claims 10) h.globalRoles).mpr rfl }

/-! ### Minted tokens -/

/-- When a minted token is valid. -/
structure Usable (s : Service) (clock : Time) (request : MintRequest) (claims : Claims) (now : Time) : Prop where
  issuer : Utf8.Valid s.issuer
  audience : Utf8.Valid s.audience
  payload_length : (payload claims).length ≤ maxClaimsLength
  since : SinceUnix claims
  lifetime : 1000000000 ≤ request.lifetime
  /-- The clock does not read the last second of all. -/
  room : clock.seconds < 9223372036854775807
  begun : ¬clock.truncate.After (now.add s.leeway)
  not_over : now.Before ((clock.truncate.add request.lifetime).truncate.add s.leeway)

theorem keyID_eq_of_perm {keyID keyID' : Bytes} (h : (headerObject keyID).Perm (headerObject keyID')) : keyID = keyID' := by
  have hmem : (ascii "kid", Value.string keyID) ∈ headerObject keyID' := by
    rw [← h.mem_iff]
    simp [headerObject]
  have hget := OrderedMap.get_of_mem (uniqueKeys_headerObject keyID') hmem
  have hkeyID : OrderedMap.get (headerObject keyID') (ascii "kid") = some (.string keyID') := rfl
  rw [hkeyID, Option.some.injEq, Value.string.injEq] at hget
  exact hget.symm

/-- The header of minted claims names their key and no other. -/
theorem keyID_eq_of_header {claims : Claims} (hvalid : validKeyID claims.keyID = true) {keyID : Bytes}
    (h : ∃ object, JsonText.object (header claims) = some object ∧ object.Perm (headerObject keyID)) : keyID = claims.keyID := by
  obtain ⟨object, hobject, hperm⟩ := h
  rw [object_header hvalid] at hobject
  cases hobject
  exact (keyID_eq_of_perm hperm).symm

section

variable {s : Service} {provider : PublicKeyProvider} {clock : Time} {request : MintRequest} {claims : Claims}

theorem inTime_readBack_iff (h : ToSign s provider clock request claims) (now : Time) :
    InTime s now (readBack claims) ↔ 1000000000 ≤ request.lifetime ∧ clock.seconds < 9223372036854775807 ∧
      ¬clock.truncate.After (now.add s.leeway) ∧ now.Before ((clock.truncate.add request.lifetime).truncate.add s.leeway) := by
  have hissuedAt : (readBack claims).issuedAt = clock.truncate := by
    rw [h.eq]
    rfl
  have hexpiresAt : (readBack claims).expiresAt = (clock.truncate.add request.lifetime).truncate := by
    rw [h.eq]
    rfl
  have hauthenticated : ¬(readBack claims).authenticationTime.After (readBack claims).issuedAt := by
    have hafter := h.authenticated
    rw [h.eq] at hafter ⊢
    exact hafter
  constructor
  · intro htime
    have hissued := htime.issued
    have hbegun := htime.begun
    have hover := htime.not_over
    rw [hissuedAt, hexpiresAt] at hissued
    rw [hissuedAt] at hbegun
    rw [hexpiresAt] at hover
    have hroom : clock.truncate.seconds < 9223372036854775807 := GoTime.Time.lt_of_truncate_add_after hissued
    exact ⟨(GoTime.Time.truncate_add_after_iff h.valid.lifetime rfl hroom).mp hissued, hroom, hbegun, hover⟩
  · rintro ⟨hlifetime, hroom, hbegun, hover⟩
    have hissued : (clock.truncate.add request.lifetime).truncate.After clock.truncate :=
      (GoTime.Time.truncate_add_after_iff (t := clock.truncate) h.valid.lifetime rfl hroom).mpr hlifetime
    rw [← hexpiresAt, ← hissuedAt] at hissued
    rw [← hissuedAt] at hbegun
    rw [← hexpiresAt] at hover
    exact ⟨hissued, hauthenticated, hbegun, hover⟩

theorem length_compact_le (h : ToSign s provider clock request claims) {signature : Bytes}
    (hsize : signature.length = signatureSize) (hpayload : (payload claims).length ≤ maxClaimsLength) :
    (mintedToken claims signature).compact.length ≤ maxTokenLength := by
  have hheader := length_header_le h.keyID
  have hclaims : maxClaimsLength = 8192 := rfl
  have htoken : maxTokenLength = 16384 := rfl
  have hsignature : signatureSize = 64 := rfl
  have hpoint : (ascii ".").length = 1 := rfl
  simp only [Token.compact, Token.signed, mintedToken, List.length_append, length_encode, hpoint]
  omega

theorem valid_mintedToken_iff {verify : Verifier} {provider' : PublicKeyProvider} (h : ToSign s provider clock request claims)
    {signature : Bytes} (hsize : signature.length = signatureSize)
    (hkey : ∃ key, provider'.publicKey claims.keyID = .ok (some key) ∧ key.length = publicKeySize ∧
      verify key (signingInput claims) signature = true) (now : Time) (found : Claims) :
    (mintedToken claims signature).Valid verify s provider' now found ↔
      found = readBack claims ∧ Usable s clock request claims now := by
  have hissuer : claims.issuer = s.issuer := by
    rw [h.eq]
    rfl
  have haudience : claims.audience = s.audience := by
    rw [h.eq]
    rfl
  constructor
  · intro hvalid
    have hkeyID := keyID_eq_of_header h.keyID hvalid.isProtected.object
    obtain ⟨object, hobject, -, hclaims⟩ := hvalid.payload
    cases (object_payload claims).symm.trans hobject
    obtain ⟨rfl, hsince⟩ := (hasClaims_payload_iff h.complete hkeyID).mp hclaims
    obtain ⟨hlifetime, hroom, hbegun, hover⟩ := (inTime_readBack_iff h now).mp hvalid.inTime
    refine ⟨rfl, ?_, ?_, hvalid.payload_length, hsince, hlifetime, hroom, hbegun, hover⟩
    · rw [← Utf8.sanitize_eq_self_iff, ← hissuer]
      exact hvalid.issuer.trans hissuer.symm
    · rw [← Utf8.sanitize_eq_self_iff, ← haudience]
      exact hvalid.audience.trans haudience.symm
  · rintro ⟨rfl, husable⟩
    refine ⟨?_, hkey, husable.payload_length, ?_, ?_, ?_, ?_⟩
    · exact
        { length := length_compact_le h hsize husable.payload_length
          parts := Token.split_compact _
          payload_ne := encode_ne_nil (ne_nil_of_object (object_payload claims))
          header_length := Nat.le_trans (length_header_le h.keyID) (by decide)
          signature_length := hsize
          object := ⟨_, object_header h.keyID, .refl _⟩
          keyID := h.keyID }
    · have hkeyID : (readBack claims).keyID = claims.keyID := rfl
      exact ⟨_, object_payload claims, uniqueKeys_payloadObject claims,
        (hasClaims_payload_iff h.complete hkeyID).mpr ⟨rfl, husable.since⟩⟩
    · show sanitize claims.issuer = s.issuer
      rw [hissuer, Utf8.sanitize_eq_self_iff]
      exact husable.issuer
    · show sanitize claims.audience = s.audience
      rw [haudience, Utf8.sanitize_eq_self_iff]
      exact husable.audience
    · exact (inTime_readBack_iff h now).mpr ⟨husable.lifetime, husable.room, husable.begun, husable.not_over⟩

/-- While the provider has the key, a minted token is never taken for one that could not be checked. -/
theorem validate_mintedToken_ne_dependency {verify : Verifier} {provider' : PublicKeyProvider}
    (h : ToSign s provider clock request claims) {signature key : Bytes}
    (hkey : provider'.publicKey claims.keyID = .ok (some key)) (hlength : key.length = publicKeySize) (now : Time)
    (cause : Dependency) : validate verify s provider' now (mintedToken claims signature).compact ≠ .error (.dependency cause) := by
  intro hdependency
  obtain ⟨found, payloadPart, signature', keyID, hprotected, houtage⟩ :=
    validate_eq_dependency_iff.mp hdependency
  have hparts := hprotected.parts
  rw [Token.split_compact, List.cons.injEq] at hparts
  obtain rfl : header claims = found := encode_injective hparts.1
  obtain rfl := keyID_eq_of_header h.keyID hprotected.object
  rcases houtage with ⟨_, herror, -⟩ | ⟨_, hfound, hne, -⟩
  · rw [hkey] at herror
    cases herror
  · rw [hkey] at hfound
    cases hfound
    exact hne hlength

end

/-- With the key, a minted token is accepted as its claims, and as nothing else. -/
theorem validate_minted_iff {verify : Verifier} {s : Service} {signer : Signer} {provider provider' : PublicKeyProvider}
    {clock : Time} {random : Except String RandomBytes} {request : MintRequest} {compact : Bytes}
    (hmint : mint verify s signer provider clock random request = .ok compact)
    (hkeys : ∀ keyID, provider.signingKeyID = .ok keyID → provider'.publicKey keyID = provider.publicKey keyID) :
    ∃ claims, claimsToSign s provider clock random request = .ok claims ∧
      ∀ now found, validate verify s provider' now compact = .ok found ↔
        found = readBack claims ∧ Usable s clock request claims now := by
  obtain ⟨claims, signature, hclaims, rfl, hsize, key, hkey, hlength, hverify⟩ := mint_eq_ok hmint
  have hsign := toSign_of_claimsToSign hclaims
  rw [← hkeys _ hsign.signingKeyID] at hkey
  refine ⟨claims, hclaims, fun now found => ?_⟩
  rw [validate_compact_iff]
  exact valid_mintedToken_iff hsign hsize ⟨key, hkey, hlength, hverify⟩ now found

/-- A minted token comes back as its claims, as they are read back, if and only if it is usable, and is
invalid otherwise. -/
theorem validate_mint {verify : Verifier} {s : Service} {signer : Signer} {provider provider' : PublicKeyProvider}
    {clock : Time} {random : Except String RandomBytes} {request : MintRequest} {compact : Bytes}
    (hmint : mint verify s signer provider clock random request = .ok compact)
    (hkeys : ∀ keyID, provider.signingKeyID = .ok keyID → provider'.publicKey keyID = provider.publicKey keyID) (now : Time) :
    ∃ claims, claimsToSign s provider clock random request = .ok claims ∧
      (Usable s clock request claims now → validate verify s provider' now compact = .ok (readBack claims)) ∧
      (¬Usable s clock request claims now → ∃ cause, validate verify s provider' now compact = .error (.invalid cause)) := by
  obtain ⟨claims, signature, hclaims, rfl, hsize, key, hkey, hlength, hverify⟩ := mint_eq_ok hmint
  have hsign := toSign_of_claimsToSign hclaims
  rw [← hkeys _ hsign.signingKeyID] at hkey
  have hvalid := valid_mintedToken_iff hsign hsize ⟨key, hkey, hlength, hverify⟩ now
  refine ⟨claims, hclaims, fun husable => ?_, fun hunusable => ?_⟩
  · exact validate_eq_ok.mpr ⟨_, rfl, (hvalid _).mpr ⟨rfl, husable⟩⟩
  · cases hresult : validate verify s provider' now (mintedToken claims signature).compact with
    | error error =>
        cases error with
        | invalid cause => exact ⟨cause, rfl⟩
        | dependency cause => exact absurd hresult (validate_mintedToken_ne_dependency hsign hkey hlength now cause)
    | ok found =>
        obtain ⟨t, hcompact, hfound⟩ := validate_eq_ok.mp hresult
        obtain rfl := Token.compact_injective hcompact
        exact absurd ((hvalid found).mp hfound).2 hunusable

/-- A call of `mint`, with what it gets from outside until it asks for a signature. -/
structure MintCall where
  service : Service
  provider : PublicKeyProvider
  clock : Time
  random : Except String RandomBytes
  request : MintRequest

/-- The call asks for these claims to be signed. -/
def MintCall.Signs (call : MintCall) (claims : Claims) : Prop :=
  claimsToSign call.service call.provider call.clock call.random call.request = .ok claims

/-- A login with a password at noon, for fifteen minutes. -/
def loginCall : MintCall where
  service :=
    { issuer := ascii "transcendence", audience := ascii "api", leeway := 5000000000
      issuer_ne := by decide, audience_ne := by decide, leeway_nonneg := by decide }
  provider :=
    { signingKeyID := .ok (ascii "v1")
      publicKey := fun keyID => if keyID = ascii "v1" then .ok (some (List.replicate 32 7)) else .ok none }
  clock := .ofUnix 1784980800
  random := .error "no entropy"
  request :=
    { subject := ascii "marvin", sessionID := ascii "family", tokenID := ascii "token", authenticationMethod := ascii "LOCAL"
      assuranceLevel := ascii "aal1", globalRoles := [ascii "USER"], authenticationTime := .ofUnix 1784980800
      lifetime := 900000000000 }

def loginClaims : Claims :=
  mintedClaims loginCall.service loginCall.request loginCall.clock (ascii "token") (ascii "v1")

def loginSignature : Bytes :=
  List.replicate 64 9

/-- Verifies the one signature. -/
def loginVerifier : Verifier := fun key message signature =>
  key = List.replicate 32 7 && message = signingInput loginClaims && signature = loginSignature

def loginSigner : Signer :=
  fun _ _ => .ok (transitSignature 1 RawURLEncoding loginSignature)

theorem claimsToSign_login : loginCall.Signs loginClaims :=
  rfl

theorem usable_login : Usable loginCall.service loginCall.clock loginCall.request loginClaims (.ofUnix 1784981000) where
  issuer := by decide
  audience := by decide
  payload_length := by decide +kernel
  since := ⟨by decide, by decide, by decide⟩
  lifetime := by decide
  room := by decide
  begun := by decide
  not_over := by decide

theorem validate_mint_of_login :
    validate loginVerifier loginCall.service loginCall.provider (.ofUnix 1784981000)
      (mintedToken loginClaims loginSignature).compact = .ok (readBack loginClaims) := by
  have hmint : mint loginVerifier loginCall.service loginSigner loginCall.provider loginCall.clock loginCall.random
      loginCall.request = .ok (mintedToken loginClaims loginSignature).compact := by
    have hsign : loginSigner loginClaims.keyID (signingInput loginClaims) =
        .ok (transitSignature 1 RawURLEncoding loginSignature) := rfl
    have hkey : loginCall.provider.publicKey loginClaims.keyID = .ok (some (List.replicate 32 7)) := rfl
    exact mint_of_signature claimsToSign_login rfl RawURLEncoding rfl hsign hkey rfl (by simp [loginVerifier])
  obtain ⟨claims, hclaims, husable, -⟩ := validate_mint hmint (fun _ _ => rfl) (.ofUnix 1784981000)
  cases hclaims.symm.trans claimsToSign_login
  exact husable usable_login

/-! ### Authentic tokens -/

/-- The keys verify only what one of the calls has asked to be signed. -/
def Unforged (verify : Verifier) (provider : PublicKeyProvider) (calls : List MintCall) : Prop :=
  ∀ keyID key message signature, provider.publicKey keyID = .ok (some key) → verify key message signature = true →
    ∃ call ∈ calls, ∃ claims, call.Signs claims ∧ message = signingInput claims

theorem mintedToken_of_signed {t : Token} {claims : Claims} (h : t.signed = signingInput claims) :
    t = mintedToken claims t.signature := by
  apply Token.compact_injective
  rw [Token.compact, h]
  rfl

/-- What is accepted are the claims of a call of `mint`, in the text that it wrote. -/
theorem validate_authentic {verify : Verifier} {s : Service} {provider : PublicKeyProvider} {calls : List MintCall}
    (hunforged : Unforged verify provider calls) {now : Time} {compact : Bytes} {found : Claims}
    (h : validate verify s provider now compact = .ok found) :
    ∃ call ∈ calls, ∃ claims signature, call.Signs claims ∧ found = readBack claims ∧
      compact = (mintedToken claims signature).compact ∧ InTime s now (readBack claims) := by
  obtain ⟨t, hcompact, hvalid⟩ := validate_eq_ok.mp h
  obtain ⟨key, hkey, -, hverify⟩ := hvalid.verified
  obtain ⟨call, hcall, claims, hsigns, hmessage⟩ := hunforged _ key _ _ hkey hverify
  have hsign := toSign_of_claimsToSign hsigns
  have hminted := mintedToken_of_signed hmessage
  have hheader := hvalid.isProtected.object
  rw [hminted] at hheader
  have hkeyID := keyID_eq_of_header hsign.keyID hheader
  obtain ⟨object, hobject, -, hclaims⟩ := hvalid.payload
  rw [hminted] at hobject
  cases (object_payload claims).symm.trans hobject
  obtain ⟨hfound, -⟩ := (hasClaims_payload_iff hsign.complete hkeyID).mp hclaims
  exact ⟨call, hcall, claims, t.signature, hsigns, hfound, hminted ▸ hcompact.symm, hfound ▸ hvalid.inTime⟩

theorem validate_authentic_of_login :
    ∃ call ∈ [loginCall], ∃ claims signature, call.Signs claims ∧ readBack loginClaims = readBack claims ∧
      (mintedToken loginClaims loginSignature).compact = (mintedToken claims signature).compact ∧
        InTime loginCall.service (.ofUnix 1784981000) (readBack claims) := by
  have hunforged : Unforged loginVerifier loginCall.provider [loginCall] := by
    intro keyID key message signature _ hverify
    rw [loginVerifier, Bool.and_eq_true, Bool.and_eq_true, decide_eq_true_eq, decide_eq_true_eq] at hverify
    exact ⟨loginCall, List.mem_singleton_self _, loginClaims, claimsToSign_login, hverify.1.2⟩
  have hvalid : validate loginVerifier loginCall.service loginCall.provider (.ofUnix 1784981000)
      (mintedToken loginClaims loginSignature).compact = .ok (readBack loginClaims) := by
    have hsign := toSign_of_claimsToSign claimsToSign_login
    have hkey : ∃ key, loginCall.provider.publicKey loginClaims.keyID = .ok (some key) ∧ key.length = publicKeySize ∧
        loginVerifier key (signingInput loginClaims) loginSignature = true :=
      ⟨List.replicate 32 7, rfl, rfl, by simp [loginVerifier]⟩
    exact validate_eq_ok.mpr ⟨_, rfl, (valid_mintedToken_iff hsign rfl hkey _ _).mpr ⟨rfl, usable_login⟩⟩
  exact validate_authentic hunforged hvalid

end Transcendence.Auth.AccessTokens
