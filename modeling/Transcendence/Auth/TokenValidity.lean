import Transcendence.Auth.AccessTokens
import Transcendence.Base.Results

/-!
# Which tokens are valid

What `validate` accepts is well formed, and everything that is well formed is accepted
(`validate_eq_ok`): a token is the one text of three byte strings, whose header is an object of
exactly the three members, whose signature is the key's for what is signed, and whose payload is an
object, with no key twice, that has all the claims. So no two texts stand for the same three byte
strings. Each function of the parser is characterised on its own, by what it takes.
-/

namespace Transcendence.Auth.AccessTokens

open Base64 (RawURLEncoding)
open GoString (split join)
open GoTime (Time)
open JsonText (Field Value)
open OrderedMap (get get_of_mem mem_of_get)
open Results (bind_eq_ok bind_eq_error mapError_eq_ok mapError_eq_error)

/-! ### The three parts -/

def encode (bytes : Bytes) : Bytes :=
  Base64.encode RawURLEncoding bytes

theorem encode_eq (bytes : Bytes) : encode bytes = Base64Url.encode bytes :=
  List.append_nil _

theorem length_encode (bytes : Bytes) : (encode bytes).length = (bytes.length * 4 + 2) / 3 := by
  rw [encode_eq, Base64Url.length_encode]

theorem encode_injective : Function.Injective encode := by
  intro bytes bytes' h
  exact Base64.eq_of_encode_eq h

theorem encode_ne_nil {bytes : Bytes} (h : bytes ≠ []) : encode bytes ≠ [] :=
  Base64.encode_ne_nil h

theorem not_mem_encode {c : UInt8} (hc : Base64Url.digit c = none) (bytes : Bytes) : c ∉ encode bytes := by
  rw [encode_eq]
  intro hmem
  exact (Base64Url.isCharacter_of_mem_encode hmem).ne hc rfl

theorem split_parts {header payload signature : Bytes} (hheader : 46 ∉ header) (hpayload : 46 ∉ payload)
    (hsignature : 46 ∉ signature) : split 46 (join 46 [header, payload, signature]) = [header, payload, signature] := by
  apply GoString.split_join (List.cons_ne_nil _ _)
  intro part hpart
  rw [List.mem_cons, List.mem_cons, List.mem_singleton] at hpart
  rcases hpart with rfl | rfl | rfl
  · exact hheader
  · exact hpayload
  · exact hsignature

theorem join_parts (header payload signature : Bytes) :
    join 46 [header, payload, signature] = header ++ ascii "." ++ payload ++ ascii "." ++ signature := by
  rw [join, List.intercalate_cons_cons, List.intercalate_cons_cons, List.intercalate_singleton]
  simp only [List.append_assoc]
  rfl

theorem splitCompact_eq_ok_iff {compact header payload signature : Bytes} :
    splitCompact compact = .ok (header, payload, signature) ↔
      compact.length ≤ maxTokenLength ∧ split 46 compact = [header, payload, signature] ∧ header ≠ [] ∧ payload ≠ [] ∧
        signature ≠ [] := by
  rw [splitCompact]
  constructor
  · intro h
    split_ifs at h with hlength
    rw [not_or, Nat.not_lt] at hlength
    split at h
    · rename_i first second third hsplit
      split_ifs at h with hparts
      cases h
      rw [not_or, not_or] at hparts
      exact ⟨hlength.2, hsplit, hparts⟩
    · cases h
  · rintro ⟨hlength, hsplit, hparts⟩
    have hne : compact ≠ [] := by
      intro hnil
      rw [hnil] at hsplit
      cases hsplit
    rw [if_neg (not_or.mpr ⟨hne, Nat.not_lt.mpr hlength⟩), hsplit]
    dsimp only
    rw [if_neg]
    rw [not_or, not_or]
    exact hparts

/-- A part is taken if and only if it is the encoding of not too many bytes. -/
theorem decodeCompactPart_eq_ok_iff {part : Part} {text bytes : Bytes} {maxLength : Nat} :
    decodeCompactPart part text maxLength = .ok bytes ↔ text = encode bytes ∧ bytes.length ≤ maxLength := by
  constructor
  · intro h
    rw [decodeCompactPart] at h
    split_ifs at h
    split at h
    · cases h
    · split_ifs at h with hencode hlength
      cases h
      exact ⟨(not_not.mp hencode).symm, Nat.not_lt.mp hlength⟩
  · rintro ⟨rfl, hlength⟩
    have hroom : ¬(maxLength * 2 < (encode bytes).length ∨ 61 ∈ encode bytes) := by
      rw [not_or]
      refine ⟨?_, not_mem_encode (by decide) bytes⟩
      rw [length_encode]
      omega
    have hdecode : Base64.decode RawURLEncoding (encode bytes) = some bytes := Base64.decode_encode RawURLEncoding bytes
    have hsame : ¬Base64.encode RawURLEncoding bytes ≠ encode bytes := not_not.mpr rfl
    rw [decodeCompactPart, if_neg hroom, hdecode]
    dsimp only
    rw [if_neg hsame, if_neg (Nat.not_lt.mpr hlength)]

/-! ### Objects -/

theorem decodeObject_eq_ok_iff {part : Part} {text : Bytes} {object : Object} :
    decodeObject part text = .ok object ↔ JsonText.object text = some object ∧ OrderedMap.UniqueKeys object := by
  rw [decodeObject]
  cases hobject : JsonText.object text with
  | none =>
      constructor
      · intro h
        cases h
      · intro h
        cases h.1
  | some found =>
      dsimp only
      constructor
      · intro h
        split_ifs at h with hkeys
        cases h
        exact ⟨rfl, hkeys⟩
      · intro h
        obtain ⟨heq, hkeys⟩ := h
        cases heq
        exact if_pos hkeys

/-- The object has a string of this name, which is not empty. -/
def HasText (object : Object) (name : String) (text : Bytes) : Prop :=
  (ascii name, Value.string text) ∈ object ∧ text ≠ []

/-- The object has a number of seconds of this name: an integer of 63 bits. -/
def HasSeconds (object : Object) (name : String) (seconds : Int) : Prop :=
  0 ≤ seconds ∧ seconds < 9223372036854775808 ∧
    ∃ negative, (negative = true → seconds = 0) ∧ (ascii name, Value.number ⟨negative, seconds.toNat, []⟩) ∈ object

/-- The object has a list of strings of this name. It has elements, and none is empty. -/
def HasTexts (object : Object) (name : String) (texts : List Bytes) : Prop :=
  (ascii name, Value.array (texts.map .string)) ∈ object ∧ texts ≠ [] ∧ [] ∉ texts

theorem get_eq_some_iff {object : Object} (hkeys : OrderedMap.UniqueKeys object) {key : Bytes} {value : Value} :
    get object key = some value ↔ (key, value) ∈ object :=
  ⟨mem_of_get, get_of_mem hkeys⟩

theorem objectString_eq_some_iff {object : Object} (hkeys : OrderedMap.UniqueKeys object) {name : String} {text : Bytes} :
    objectString object (ascii name) = some text ↔ HasText object name text := by
  rw [HasText, ← get_eq_some_iff hkeys, objectString]
  constructor
  · intro h
    split at h
    · rename_i found hget
      split_ifs at h with hempty
      cases h
      exact ⟨hget, hempty⟩
    · cases h
  · rintro ⟨hget, hempty⟩
    rw [hget]
    exact if_neg hempty

theorem parseInt_eq_some_iff {number : JsonText.Number} {n : Int} (hnonneg : 0 ≤ n) :
    parseInt number = some n ↔
      n < 9223372036854775808 ∧ ∃ negative, (negative = true → n = 0) ∧ number = ⟨negative, n.toNat, []⟩ := by
  obtain ⟨negative, natural, suffix⟩ := number
  rw [parseInt]
  dsimp only
  constructor
  · intro h
    split_ifs at h with hparts hcond hcond
    · cases h
      have hzero : natural = 0 := by omega
      subst hzero
      rw [hparts, hcond.1]
      exact ⟨by decide, true, fun _ => rfl, rfl⟩
    · cases h
      have hbounds := hcond.2 ▸ GoTime.inInt64_int64 natural
      have hupper := hbounds.upper
      refine ⟨by omega, negative, fun hnegative => absurd hnegative hparts, ?_⟩
      rw [hcond.1, Int.toNat_natCast]
  · rintro ⟨hlt, negative', hzero, heq⟩
    cases heq
    have hint : GoTime.int64 n = n := GoTime.int64_eq_self ⟨by omega, by omega⟩
    have hvalue : (if negative = true then -(n.toNat : Int) else n.toNat) = n := by
      split_ifs with hnegative
      · rw [hzero hnegative]
        rfl
      · exact Int.toNat_of_nonneg hnonneg
    rw [hvalue, if_pos ⟨rfl, hint⟩]

theorem objectUnixTime_eq_some_iff {object : Object} (hkeys : OrderedMap.UniqueKeys object) {name : String} {seconds : Int} :
    objectUnixTime object (ascii name) = some seconds ↔ HasSeconds object name seconds := by
  rw [objectUnixTime]
  constructor
  · intro h
    split at h
    · rename_i number hget
      rw [Option.filter_eq_some_iff, decide_eq_true_eq] at h
      obtain ⟨hparse, hnonneg⟩ := h
      obtain ⟨hlt, negative, hzero, hnumber⟩ := (parseInt_eq_some_iff hnonneg).mp hparse
      exact ⟨hnonneg, hlt, negative, hzero, hnumber ▸ mem_of_get hget⟩
    · cases h
  · rintro ⟨hnonneg, hlt, negative, hzero, hmem⟩
    have hparse := (parseInt_eq_some_iff hnonneg).mpr ⟨hlt, negative, hzero, rfl⟩
    rw [get_of_mem hkeys hmem]
    dsimp only
    rw [hparse, Option.filter_some, if_pos (decide_eq_true hnonneg)]

theorem validRoles_iff (roles : List Bytes) : validRoles roles = true ↔ roles ≠ [] ∧ [] ∉ roles := by
  rw [validRoles, Bool.and_eq_true, decide_eq_true_eq, List.all_eq_true]
  refine and_congr_right fun _ => ⟨fun h hmem => ?_, fun h role hrole => ?_⟩
  · exact absurd (h [] hmem) (by decide)
  · exact decide_eq_true fun hempty => h (hempty ▸ hrole)

/-- Without empty texts, what is read is a list of strings and nothing else. -/
theorem mapM_elementText_iff {elements : List Value} {texts : List Bytes} (hempty : [] ∉ texts) :
    elements.mapM elementText = some texts ↔ elements = texts.map .string := by
  induction elements generalizing texts with
  | nil =>
      rw [List.mapM_nil]
      cases texts with
      | nil => exact ⟨fun _ => rfl, fun _ => rfl⟩
      | cons text texts =>
          constructor
          · intro h
            cases h
          · intro h
            cases h
  | cons element elements ih =>
      rw [List.mapM_cons]
      cases texts with
      | nil =>
          constructor
          · intro h
            obtain ⟨_, _, h⟩ := Option.bind_eq_some_iff.mp h
            obtain ⟨_, _, h⟩ := Option.bind_eq_some_iff.mp h
            cases h
          · intro h
            cases h
      | cons text texts =>
          rw [List.mem_cons, not_or] at hempty
          constructor
          · intro h
            obtain ⟨first, hfirst, h⟩ := Option.bind_eq_some_iff.mp h
            obtain ⟨rest, hrest, h⟩ := Option.bind_eq_some_iff.mp h
            cases h
            rw [(ih hempty.2).mp hrest, List.map_cons]
            congr 1
            cases element with
            | string found => rw [Option.some.inj hfirst]
            | null => exact absurd (Option.some.inj hfirst) hempty.1
            | boolean value => cases hfirst
            | number number => cases hfirst
            | array elements => cases hfirst
            | object members => cases hfirst
          · intro h
            cases h
            rw [(ih hempty.2).mpr rfl]
            rfl

theorem objectStringSlice_eq_some_iff {object : Object} (hkeys : OrderedMap.UniqueKeys object) {name : String}
    {texts : List Bytes} : objectStringSlice object (ascii name) = some texts ↔ HasTexts object name texts := by
  rw [objectStringSlice]
  constructor
  · intro h
    split at h
    · rename_i elements hget
      rw [Option.filter_eq_some_iff, validRoles_iff] at h
      obtain ⟨hread, hne, hempty⟩ := h
      rw [mapM_elementText_iff hempty] at hread
      exact ⟨hread ▸ mem_of_get hget, hne, hempty⟩
    · cases h
  · rintro ⟨hmem, hne, hempty⟩
    have hread := (mapM_elementText_iff hempty).mpr rfl
    rw [get_of_mem hkeys hmem]
    dsimp only
    rw [hread, Option.filter_some, if_pos ((validRoles_iff texts).mpr ⟨hne, hempty⟩)]

/-! ### The header -/

/-- The members of a header, in some order. -/
def headerObject (keyID : Bytes) : Object :=
  [(ascii "alg", .string algorithm), (ascii "typ", .string tokenType), (ascii "kid", .string keyID)]

theorem uniqueKeys_headerObject (keyID : Bytes) : OrderedMap.UniqueKeys (headerObject keyID) := by
  show [ascii "alg", ascii "typ", ascii "kid"].Nodup
  decide

theorem validKeyID_ne_nil {keyID : Bytes} (h : validKeyID keyID = true) : keyID ≠ [] := by
  rintro rfl
  cases h

theorem validateHeader_eq_ok_iff {header : Object} (hkeys : OrderedMap.UniqueKeys header) {keyID : Bytes} :
    validateHeader header = .ok keyID ↔ header.Perm (headerObject keyID) ∧ validKeyID keyID = true := by
  rw [validateHeader]
  constructor
  · intro h
    split_ifs at h with hlength halg htyp
    rw [not_not] at hlength halg htyp
    split at h
    · cases h
    · rename_i found hkid
      split_ifs at h with hvalid
      cases h
      rw [objectString_eq_some_iff hkeys] at halg htyp hkid
      refine ⟨?_, Bool.eq_true_of_not_eq_false hvalid⟩
      have hsubset : headerObject keyID ⊆ header := by
        intro entry hentry
        rw [headerObject, List.mem_cons, List.mem_cons, List.mem_singleton] at hentry
        rcases hentry with rfl | rfl | rfl
        · exact halg.1
        · exact htyp.1
        · exact hkid.1
      have hnodup : (headerObject keyID).Nodup := List.Nodup.of_map _ (uniqueKeys_headerObject keyID)
      have hperm := (List.subperm_of_subset hnodup hsubset).perm_of_length_le (by rw [hlength]; exact Nat.le_refl 3)
      exact hperm.symm
  · intro h
    obtain ⟨hperm, hvalid⟩ := h
    have hmem : ∀ entry ∈ headerObject keyID, entry ∈ header := fun entry => hperm.mem_iff.mpr
    have halg : objectString header (ascii "alg") = some algorithm := by
      rw [objectString_eq_some_iff hkeys]
      exact ⟨hmem _ (by simp [headerObject]), by decide⟩
    have htyp : objectString header (ascii "typ") = some tokenType := by
      rw [objectString_eq_some_iff hkeys]
      exact ⟨hmem _ (by simp [headerObject]), by decide⟩
    have hkid : objectString header (ascii "kid") = some keyID := by
      rw [objectString_eq_some_iff hkeys]
      exact ⟨hmem _ (by simp [headerObject]), validKeyID_ne_nil hvalid⟩
    have hlength : ¬header.length ≠ 3 := not_not.mpr hperm.length_eq
    have hfalse : ¬validKeyID keyID = false := by simp [hvalid]
    rw [if_neg hlength, if_neg (not_not.mpr halg), if_neg (not_not.mpr htyp), hkid]
    exact if_neg hfalse

/-! ### The claims -/

def HasInstant (object : Object) (name : String) (t : Time) : Prop :=
  ∃ seconds, HasSeconds object name seconds ∧ .ofUnix seconds = t

structure HasClaims (payload : Object) (claims : Claims) : Prop where
  issuer : HasText payload "iss" claims.issuer
  audience : HasText payload "aud" claims.audience
  subject : HasText payload "sub" claims.subject
  sessionID : HasText payload "sid" claims.sessionID
  tokenID : HasText payload "jti" claims.tokenID
  issuedAt : HasInstant payload "iat" claims.issuedAt
  expiresAt : HasInstant payload "exp" claims.expiresAt
  authenticationTime : HasInstant payload "auth_time" claims.authenticationTime
  authenticationMethod : HasText payload "amr" claims.authenticationMethod
  assuranceLevel : HasText payload "acr" claims.assuranceLevel
  globalRoles : HasTexts payload "global_roles" claims.globalRoles

theorem required_eq_ok {α : Type} {name : String} {found : Option α} {value : α} :
    required name found = .ok value ↔ found = some value := by
  cases found with
  | none =>
      constructor
      · intro h
        cases h
      · intro h
        cases h
  | some other => simp [required]

theorem parseClaims_eq_ok_iff {payload : Object} (hkeys : OrderedMap.UniqueKeys payload) {keyID : Bytes} {claims : Claims} :
    parseClaims payload keyID = .ok claims ↔ HasClaims payload claims ∧ claims.keyID = keyID := by
  simp only [parseClaims, bind_eq_ok, required_eq_ok, objectString_eq_some_iff hkeys, objectUnixTime_eq_some_iff hkeys,
    objectStringSlice_eq_some_iff hkeys]
  constructor
  · rintro ⟨iss, hiss, aud, haud, sub, hsub, sid, hsid, jti, hjti, iat, hiat, exp, hexp, auth, hauth, amr, hamr, acr, hacr,
      roles, hroles, h⟩
    cases h
    exact ⟨⟨hiss, haud, hsub, hsid, hjti, ⟨iat, hiat, rfl⟩, ⟨exp, hexp, rfl⟩, ⟨auth, hauth, rfl⟩, hamr, hacr, hroles⟩, rfl⟩
  · rintro ⟨h, rfl⟩
    obtain ⟨iat, hiat, hissuedAt⟩ := h.issuedAt
    obtain ⟨exp, hexp, hexpiresAt⟩ := h.expiresAt
    obtain ⟨auth, hauth, hauthenticationTime⟩ := h.authenticationTime
    refine ⟨_, h.issuer, _, h.audience, _, h.subject, _, h.sessionID, _, h.tokenID, iat, hiat, exp, hexp, auth, hauth, _,
      h.authenticationMethod, _, h.assuranceLevel, _, h.globalRoles, ?_⟩
    rw [hissuedAt, hexpiresAt, hauthenticationTime]

/-- The window in which a token is good. -/
structure InTime (s : Service) (now : Time) (claims : Claims) : Prop where
  issued : claims.expiresAt.After claims.issuedAt
  authenticated : ¬claims.authenticationTime.After claims.issuedAt
  begun : ¬claims.issuedAt.After (now.add s.leeway)
  not_over : now.Before (claims.expiresAt.add s.leeway)

theorem validateClaims_eq_ok_iff {s : Service} {now : Time} {claims : Claims} :
    validateClaims s now claims = .ok () ↔
      claims.issuer = s.issuer ∧ claims.audience = s.audience ∧ InTime s now claims := by
  rw [validateClaims]
  constructor
  · intro h
    split_ifs at h with hiss haud hexp hauth hover hbegun
    exact ⟨not_not.mp hiss, not_not.mp haud, hexp, hauth, hbegun, hover⟩
  · rintro ⟨hiss, haud, htime⟩
    rw [if_neg (not_not.mpr hiss), if_neg (not_not.mpr haud), if_neg (not_not.mpr htime.issued), if_neg htime.authenticated,
      if_neg (not_not.mpr htime.not_over), if_neg htime.begun]

/-! ### The token -/

/-- The bytes of the three parts. -/
structure Token where
  header : Bytes
  payload : Bytes
  signature : Bytes
  deriving DecidableEq

/-- What is read of a text before the key is looked up: a header that names the key, and a signature. -/
structure Protected (compact header payloadPart signature keyID : Bytes) : Prop where
  length : compact.length ≤ maxTokenLength
  parts : split 46 compact = [encode header, payloadPart, encode signature]
  payload_ne : payloadPart ≠ []
  header_length : header.length ≤ maxHeaderLength
  signature_length : signature.length = signatureSize
  object : ∃ object, JsonText.object header = some object ∧ object.Perm (headerObject keyID)
  keyID : validKeyID keyID = true

namespace Token

/-- The bytes that the signature is for. -/
def signed (t : Token) : Bytes :=
  encode t.header ++ ascii "." ++ encode t.payload

def compact (t : Token) : Bytes :=
  t.signed ++ ascii "." ++ encode t.signature

structure Valid (verify : Verifier) (s : Service) (provider : PublicKeyProvider) (now : Time) (t : Token) (claims : Claims) :
    Prop where
  isProtected : Protected t.compact t.header (encode t.payload) t.signature claims.keyID
  verified : ∃ key, provider.publicKey claims.keyID = .ok (some key) ∧ key.length = publicKeySize ∧
    verify key t.signed t.signature = true
  payload_length : t.payload.length ≤ maxClaimsLength
  payload : ∃ object, JsonText.object t.payload = some object ∧ OrderedMap.UniqueKeys object ∧ HasClaims object claims
  issuer : claims.issuer = s.issuer
  audience : claims.audience = s.audience
  inTime : InTime s now claims

theorem compact_eq_join (t : Token) : t.compact = join 46 [encode t.header, encode t.payload, encode t.signature] :=
  (join_parts _ _ _).symm

theorem split_compact (t : Token) : split 46 t.compact = [encode t.header, encode t.payload, encode t.signature] := by
  have hpoint : ∀ bytes, (46 : UInt8) ∉ encode bytes := fun bytes => not_mem_encode (by decide) bytes
  rw [compact_eq_join, split_parts (hpoint t.header) (hpoint t.payload) (hpoint t.signature)]

/-- No two texts have the same three parts, and no two tokens the same text. -/
theorem compact_injective : Function.Injective compact := by
  intro t t' h
  have hsplit := t.split_compact
  rw [h, split_compact] at hsplit
  simp only [List.cons.injEq, and_true] at hsplit
  obtain ⟨hheader, hpayload, hsignature⟩ := hsplit
  obtain ⟨header, payload, signature⟩ := t
  obtain ⟨header', payload', signature'⟩ := t'
  cases encode_injective hheader
  cases encode_injective hpayload
  cases encode_injective hsignature
  rfl

end Token

theorem ne_nil_of_object {text : Bytes} {object : Object} (h : JsonText.object text = some object) : text ≠ [] := by
  rintro rfl
  cases h

theorem uniqueKeys_of_perm {object : Object} {keyID : Bytes} (h : object.Perm (headerObject keyID)) :
    OrderedMap.UniqueKeys object :=
  (h.map _).nodup_iff.mpr (uniqueKeys_headerObject keyID)

theorem readProtected_eq_ok_iff {headerPart signaturePart keyID signature : Bytes} :
    readProtected headerPart signaturePart = .ok (keyID, signature) ↔
      ∃ header, headerPart = encode header ∧ signaturePart = encode signature ∧ header.length ≤ maxHeaderLength ∧
        signature.length = signatureSize ∧
          (∃ object, JsonText.object header = some object ∧ object.Perm (headerObject keyID)) ∧ validKeyID keyID = true := by
  simp only [readProtected, bind_eq_ok, decodeCompactPart_eq_ok_iff, decodeObject_eq_ok_iff]
  constructor
  · rintro ⟨header, ⟨hheader, hlength⟩, object, ⟨hobject, hkeys⟩, found, hvalid, bytes, ⟨hsignature, -⟩, h⟩
    split_ifs at h with hsize
    cases h
    obtain ⟨hperm, hkeyID⟩ := (validateHeader_eq_ok_iff hkeys).mp hvalid
    exact ⟨header, hheader, hsignature, hlength, not_not.mp hsize, ⟨object, hobject, hperm⟩, hkeyID⟩
  · rintro ⟨header, hheader, hsignature, hlength, hsize, ⟨object, hobject, hperm⟩, hkeyID⟩
    have hkeys := uniqueKeys_of_perm hperm
    refine ⟨header, ⟨hheader, hlength⟩, object, ⟨hobject, hkeys⟩, keyID, ?_, signature, ⟨hsignature, hsize.le⟩, ?_⟩
    · exact (validateHeader_eq_ok_iff hkeys).mpr ⟨hperm, hkeyID⟩
    · exact if_neg (not_not.mpr hsize)

theorem protected_of_read {compact headerPart payloadPart signaturePart keyID signature : Bytes}
    (hsplit : splitCompact compact = .ok (headerPart, payloadPart, signaturePart))
    (hread : readProtected headerPart signaturePart = .ok (keyID, signature)) :
    ∃ header, headerPart = encode header ∧ Protected compact header payloadPart signature keyID := by
  obtain ⟨hlength, hparts, -, hpayload, -⟩ := splitCompact_eq_ok_iff.mp hsplit
  obtain ⟨header, hheader, hsignature, hshort, hsize, hobject, hkeyID⟩ := readProtected_eq_ok_iff.mp hread
  subst hheader
  subst hsignature
  exact ⟨header, rfl, hlength, hparts, hpayload, hshort, hsize, hobject, hkeyID⟩

/-- With what is read before it, the rest of `validate`. -/
theorem validate_of_protected (verify : Verifier) (s : Service) (provider : PublicKeyProvider) (now : Time)
    {compact header payloadPart signature keyID : Bytes} (h : Protected compact header payloadPart signature keyID) :
    validate verify s provider now compact =
      (verifySignature verify provider keyID (encode header ++ ascii "." ++ payloadPart) signature >>= fun _ =>
        (readClaims s now payloadPart keyID).mapError .invalid) := by
  obtain ⟨object, hobject, hperm⟩ := h.object
  have hne : signature ≠ [] := by
    intro hnil
    have hsize := h.signature_length
    rw [hnil] at hsize
    cases hsize
  have hsplit : splitCompact compact = .ok (encode header, payloadPart, encode signature) :=
    splitCompact_eq_ok_iff.mpr
      ⟨h.length, h.parts, encode_ne_nil (ne_nil_of_object hobject), h.payload_ne, encode_ne_nil hne⟩
  have hread : readProtected (encode header) (encode signature) = .ok (keyID, signature) :=
    readProtected_eq_ok_iff.mpr ⟨header, rfl, rfl, h.header_length, h.signature_length, ⟨object, hobject, hperm⟩, h.keyID⟩
  rw [validate, hsplit]
  show ((readProtected (encode header) (encode signature)).mapError ValidateError.invalid >>= _) = _
  rw [hread]
  rfl

theorem verifySignature_eq_ok_iff {verify : Verifier} {provider : PublicKeyProvider} {keyID message signature : Bytes} :
    verifySignature verify provider keyID message signature = .ok () ↔
      ∃ key, provider.publicKey keyID = .ok (some key) ∧ key.length = publicKeySize ∧ verify key message signature = true := by
  rw [verifySignature]
  constructor
  · intro h
    split at h
    · cases h
    · cases h
    · rename_i key hkey
      split_ifs at h with hsize hverify
      exact ⟨key, hkey, not_not.mp hsize, Bool.eq_true_of_not_eq_false hverify⟩
  · rintro ⟨key, hkey, hsize, hverify⟩
    rw [hkey]
    dsimp only
    rw [if_neg (not_not.mpr hsize), if_neg (by simp [hverify])]

theorem readClaims_eq_ok_iff {s : Service} {now : Time} {payloadPart keyID : Bytes} {claims : Claims} :
    readClaims s now payloadPart keyID = .ok claims ↔
      ∃ payload, payloadPart = encode payload ∧ payload.length ≤ maxClaimsLength ∧
        (∃ object, JsonText.object payload = some object ∧ OrderedMap.UniqueKeys object ∧ HasClaims object claims) ∧
          claims.keyID = keyID ∧ claims.issuer = s.issuer ∧ claims.audience = s.audience ∧ InTime s now claims := by
  simp only [readClaims, bind_eq_ok, decodeCompactPart_eq_ok_iff, decodeObject_eq_ok_iff]
  constructor
  · rintro ⟨payload, ⟨hpayload, hlength⟩, object, ⟨hobject, hkeys⟩, found, hparse, _, hvalid, h⟩
    cases h
    obtain ⟨hclaims, hkeyID⟩ := (parseClaims_eq_ok_iff hkeys).mp hparse
    exact ⟨payload, hpayload, hlength, ⟨object, hobject, hkeys, hclaims⟩, hkeyID, validateClaims_eq_ok_iff.mp hvalid⟩
  · rintro ⟨payload, hpayload, hlength, ⟨object, hobject, hkeys, hclaims⟩, hkeyID, hvalid⟩
    exact ⟨payload, ⟨hpayload, hlength⟩, object, ⟨hobject, hkeys⟩, claims,
      (parseClaims_eq_ok_iff hkeys).mpr ⟨hclaims, hkeyID⟩, (), validateClaims_eq_ok_iff.mpr hvalid, rfl⟩

/-- What is accepted is the text of a valid token, and every such text is accepted. -/
theorem validate_eq_ok {verify : Verifier} {s : Service} {provider : PublicKeyProvider} {now : Time} {compact : Bytes}
    {claims : Claims} :
    validate verify s provider now compact = .ok claims ↔
      ∃ t : Token, t.compact = compact ∧ t.Valid verify s provider now claims := by
  constructor
  · intro h
    have hsteps := h
    simp only [validate, bind_eq_ok, mapError_eq_ok, Prod.exists] at hsteps
    obtain ⟨headerPart, payloadPart, signaturePart, hsplit, keyID, signature, hread, _, hverify, hclaims⟩ := hsteps
    obtain ⟨header, rfl, hprotected⟩ := protected_of_read hsplit hread
    obtain ⟨payload, rfl, hlength, hobject, rfl, hissuer, haudience, htime⟩ := readClaims_eq_ok_iff.mp hclaims
    have hcompact : (Token.mk header payload signature).compact = compact := by
      rw [Token.compact_eq_join, ← hprotected.parts, GoString.join_split]
    refine ⟨⟨header, payload, signature⟩, hcompact, ?_⟩
    exact ⟨hcompact ▸ hprotected, verifySignature_eq_ok_iff.mp hverify, hlength, hobject, hissuer, haudience, htime⟩
  · rintro ⟨t, rfl, hvalid⟩
    rw [validate_of_protected verify s provider now hvalid.isProtected, bind_eq_ok]
    refine ⟨(), verifySignature_eq_ok_iff.mpr hvalid.verified, ?_⟩
    rw [mapError_eq_ok, readClaims_eq_ok_iff]
    exact ⟨t.payload, rfl, hvalid.payload_length, hvalid.payload, rfl, hvalid.issuer, hvalid.audience, hvalid.inTime⟩

theorem validate_compact_iff {verify : Verifier} {s : Service} {provider : PublicKeyProvider} {now : Time} {t : Token}
    {claims : Claims} :
    validate verify s provider now t.compact = .ok claims ↔ t.Valid verify s provider now claims := by
  rw [validate_eq_ok]
  constructor
  · rintro ⟨t', hcompact, hvalid⟩
    rw [← Token.compact_injective hcompact]
    exact hvalid
  · intro hvalid
    exact ⟨t, rfl, hvalid⟩

/-- A text is accepted with these claims if and only if it is that of a valid token, and then there is no
other token that it is the text of. -/
theorem tokens_accepted_iff (verify : Verifier) (s : Service) (provider : PublicKeyProvider) (now : Time) (compact : Bytes)
    (claims : Claims) :
    validate verify s provider now compact = .ok claims ↔
      ∃! t : Token, t.compact = compact ∧ t.Valid verify s provider now claims := by
  rw [validate_eq_ok]
  constructor
  · rintro ⟨t, hcompact, hvalid⟩
    exact ⟨t, ⟨hcompact, hvalid⟩, fun t' ht' => Token.compact_injective (ht'.1.trans hcompact.symm)⟩
  · rintro ⟨t, ht, -⟩
    exact ⟨t, ht⟩

/-! ### Outages -/

/-- The provider does not say whether there is such a key. -/
def Outage (provider : PublicKeyProvider) (keyID : Bytes) (cause : Dependency) : Prop :=
  (∃ text, provider.publicKey keyID = .error text ∧ cause = .lookupPublicKey text) ∨
    ∃ key, provider.publicKey keyID = .ok (some key) ∧ key.length ≠ publicKeySize ∧ cause = .invalidKey

theorem verifySignature_eq_dependency_iff {verify : Verifier} {provider : PublicKeyProvider}
    {keyID message signature : Bytes} {cause : Dependency} :
    verifySignature verify provider keyID message signature = .error (.dependency cause) ↔ Outage provider keyID cause := by
  rw [verifySignature, Outage]
  cases provider.publicKey keyID with
  | error text => simp [eq_comm]
  | ok found =>
      cases found with
      | none => simp
      | some key =>
          dsimp only
          constructor
          · intro h
            by_cases hsize : key.length ≠ publicKeySize
            · rw [if_pos hsize] at h
              cases h
              exact .inr ⟨key, rfl, hsize, rfl⟩
            · rw [if_neg hsize] at h
              split_ifs at h
              cases h
          · rintro (⟨_, h, _⟩ | ⟨_, h, hsize, rfl⟩)
            · cases h
            · cases h
              exact if_pos hsize

theorem mapError_invalid_ne {α : Type} (x : Except Invalid α) (cause : Dependency) :
    x.mapError ValidateError.invalid ≠ .error (.dependency cause) := by
  intro h
  obtain ⟨_, _, h⟩ := mapError_eq_error.mp h
  cases h

theorem validate_eq_dependency_iff {verify : Verifier} {s : Service} {provider : PublicKeyProvider} {now : Time}
    {compact : Bytes} {cause : Dependency} :
    validate verify s provider now compact = .error (.dependency cause) ↔
      ∃ header payloadPart signature keyID, Protected compact header payloadPart signature keyID ∧
        Outage provider keyID cause := by
  constructor
  · intro h
    rcases bind_eq_error.mp h with h | ⟨⟨headerPart, payloadPart, signaturePart⟩, hsplit, h⟩
    · exact absurd h (mapError_invalid_ne _ cause)
    rcases bind_eq_error.mp h with h | ⟨⟨keyID, signature⟩, hread, h⟩
    · exact absurd h (mapError_invalid_ne _ cause)
    rcases bind_eq_error.mp h with hverify | ⟨_, _, h⟩
    swap
    · exact absurd h (mapError_invalid_ne _ cause)
    rw [mapError_eq_ok] at hsplit hread
    obtain ⟨header, -, hprotected⟩ := protected_of_read hsplit hread
    exact ⟨header, payloadPart, signature, keyID, hprotected, verifySignature_eq_dependency_iff.mp hverify⟩
  · rintro ⟨header, payloadPart, signature, keyID, hprotected, houtage⟩
    rw [validate_of_protected verify s provider now hprotected, bind_eq_error]
    exact .inl (verifySignature_eq_dependency_iff.mpr houtage)

/-- A token that is not accepted is reported as invalid, unless it names a key that the provider cannot tell
anything about. -/
theorem invalid_iff_no_outage (verify : Verifier) (s : Service) (provider : PublicKeyProvider) (now : Time) (compact : Bytes)
    (error : ValidateError) (h : validate verify s provider now compact = .error error) :
    isInvalid error = true ↔
      ¬∃ header payloadPart signature keyID cause, Protected compact header payloadPart signature keyID ∧
        Outage provider keyID cause := by
  constructor
  · rintro hinvalid ⟨header, payloadPart, signature, keyID, cause, hprotected, houtage⟩
    have hdependency : validate verify s provider now compact = .error (.dependency cause) :=
      validate_eq_dependency_iff.mpr ⟨header, payloadPart, signature, keyID, hprotected, houtage⟩
    cases h.symm.trans hdependency
    cases hinvalid
  · intro hnone
    cases error with
    | invalid cause => rfl
    | dependency cause =>
        obtain ⟨header, payloadPart, signature, keyID, hprotected, houtage⟩ := validate_eq_dependency_iff.mp h
        exact absurd ⟨header, payloadPart, signature, keyID, cause, hprotected, houtage⟩ hnone

/-! A token with what is looked at before its key is looked up, when the provider fails and when it returns
a key that is too short. -/

def issuingService : Service :=
  ⟨⟨ascii "issuer", ascii "audience", 0⟩, by decide, by decide, by decide⟩

def wellFormedToken : Bytes :=
  encode (JsonText.marshal (headerFields (ascii "v1"))) ++ ascii ".e30." ++ encode (List.replicate 64 9)

def sealedProvider : PublicKeyProvider :=
  ⟨.error "sealed", fun _ => .error "sealed"⟩

def shortKeyProvider : PublicKeyProvider :=
  ⟨.ok (ascii "v1"), fun _ => .ok (some [7])⟩

/-- How a token is refused. -/
def refusal (provider : PublicKeyProvider) (compact : Bytes) : Option ValidateError :=
  match validate (fun _ _ _ => true) issuingService provider (.ofUnix 0) compact with
  | .error error => some error
  | .ok _ => none

theorem validate_of_refusal {provider : PublicKeyProvider} {compact : Bytes} {error : ValidateError}
    (h : refusal provider compact = some error) :
    validate (fun _ _ _ => true) issuingService provider (.ofUnix 0) compact = .error error := by
  rw [refusal] at h
  split at h
  · next hvalidate =>
      cases h
      exact hvalidate
  · cases h

theorem invalid_iff_no_outage_of_sealed :
    (isInvalid (.dependency (.lookupPublicKey "sealed")) = true ↔
      ¬∃ header payloadPart signature keyID cause, Protected wellFormedToken header payloadPart signature keyID ∧
        Outage sealedProvider keyID cause) ∧
    (isInvalid (.dependency .invalidKey) = true ↔
      ¬∃ header payloadPart signature keyID cause, Protected wellFormedToken header payloadPart signature keyID ∧
        Outage shortKeyProvider keyID cause) := by
  have hsealed : refusal sealedProvider wellFormedToken = some (.dependency (.lookupPublicKey "sealed")) := by
    decide +kernel
  have hshort : refusal shortKeyProvider wellFormedToken = some (.dependency .invalidKey) := by decide +kernel
  exact ⟨invalid_iff_no_outage _ _ _ _ _ _ (validate_of_refusal hsealed),
    invalid_iff_no_outage _ _ _ _ _ _ (validate_of_refusal hshort)⟩

end Transcendence.Auth.AccessTokens
