import Transcendence.Base.Base64
import Transcendence.Base.GoStrings

/-!
# Signatures of Vault Transit

`vault:v` and a key version, a colon and 64 bytes in base64, in any of its variants. The parser tries
the variants one after another and takes a text only if it is the encoding of what it decodes to, so
what comes first does not matter.
-/

namespace Transcendence.Auth

open GoString (split join decimal parseUint)
open Base64 (Encoding RawURLEncoding URLEncoding RawStdEncoding StdEncoding)

inductive TransitError where
  | invalidFormat
  | invalidLength
  | invalidEncoding
  deriving DecidableEq

def signatureSize : Nat :=
  64

/-- A rune that is no ASCII digit has no byte that is one, so the bytes can be looked at one by one. -/
def validTransitVersion : Bytes → Bool
  | 118 :: first :: rest =>
      first ≠ 48 && (first :: rest).all GoString.isDigit && (parseUint (first :: rest) 64).isSome
  | _ => false

/-- The loop over the variants. -/
def decodeSignature (text : Bytes) : List Encoding → Except TransitError Bytes
  | [] => .error .invalidEncoding
  | encoding :: rest =>
      match Base64.decode encoding text with
      | none => decodeSignature text rest
      | some signature =>
          if Base64.encode encoding signature = text then
            if signature.length ≠ signatureSize then .error .invalidLength else .ok signature
          else decodeSignature text rest

def parseTransitSignatureBy (encodings : List Encoding) (value : Bytes) : Except TransitError Bytes :=
  match split 58 value with
  | [scheme, version, text] =>
      if scheme ≠ ascii "vault" ∨ validTransitVersion version = false ∨ text = [] then .error .invalidFormat
      else decodeSignature text encodings
  | _ => .error .invalidFormat

def encodings : List Encoding :=
  [RawURLEncoding, URLEncoding, RawStdEncoding, StdEncoding]

def parseTransitSignature (value : Bytes) : Except TransitError Bytes :=
  parseTransitSignatureBy encodings value

/-! ### What is parsed -/

def keyVersion (version : Nat) : Bytes :=
  118 :: decimal version

def transitSignature (version : Nat) (encoding : Encoding) (signature : Bytes) : Bytes :=
  join 58 [ascii "vault", keyVersion version, Base64.encode encoding signature]

theorem mem_encodings (encoding : Encoding) : encoding ∈ encodings := by
  obtain ⟨alphabet, padded⟩ := encoding
  cases alphabet <;> cases padded <;> decide

/-- The version is a positive number of 64 bits without a zero in front. -/
theorem validTransitVersion_iff (text : Bytes) :
    validTransitVersion text = true ↔ ∃ version, 1 ≤ version ∧ version < 2 ^ 64 ∧ text = keyVersion version := by
  constructor
  · intro h
    unfold validTransitVersion at h
    split at h
    · rename_i first rest
      rw [Bool.and_eq_true, Bool.and_eq_true, decide_eq_true_eq, Option.isSome_iff_exists] at h
      obtain ⟨⟨hfirst, _⟩, version, hparse⟩ := h
      have hhead : (first :: rest).head? ≠ some 48 := fun heq => hfirst (Option.some.inj heq)
      have htext := GoString.decimal_of_parseUint hparse hhead
      refine ⟨version, ?_, GoString.parseUint_lt hparse, by rw [keyVersion, ← htext]⟩
      by_contra hzero
      rw [show version = 0 by omega] at htext
      exact List.cons_ne_nil _ _ htext
    · cases h
  · intro h
    obtain ⟨version, hpos, hlt, rfl⟩ := h
    have hparse := GoString.parseUint_decimal (show version ≠ 0 by omega) hlt
    have hdigits := GoString.all_isDigit_decimal version
    have hzero := GoString.head?_decimal version
    rw [keyVersion]
    cases htext : decimal version with
    | nil =>
        rw [htext] at hparse
        cases hparse
    | cons first rest =>
        rw [htext] at hparse hdigits hzero
        rw [validTransitVersion, hparse, hdigits]
        simpa using hzero

/-! ### The order of the variants -/

/-- A text is taken by a variant if and only if it is the encoding of something. -/
theorem decodeSignature_cons (text : Bytes) (encoding : Encoding) (rest : List Encoding) :
    (∃ signature, Base64.encode encoding signature = text ∧ decodeSignature text (encoding :: rest) =
      if signature.length ≠ signatureSize then .error .invalidLength else .ok signature) ∨
    (∀ signature, Base64.encode encoding signature ≠ text) ∧
      decodeSignature text (encoding :: rest) = decodeSignature text rest := by
  by_cases h : ∃ signature, Base64.encode encoding signature = text
  · obtain ⟨signature, rfl⟩ := h
    refine Or.inl ⟨signature, rfl, ?_⟩
    rw [decodeSignature, Base64.decode_encode]
    exact if_pos rfl
  · rw [not_exists] at h
    refine Or.inr ⟨h, ?_⟩
    rw [decodeSignature]
    cases Base64.decode encoding text with
    | none => rfl
    | some signature => exact if_neg (h signature)

theorem decodeSignature_of_encode {text signature : Bytes} {order : List Encoding}
    (h : ∃ encoding ∈ order, Base64.encode encoding signature = text) :
    decodeSignature text order = if signature.length ≠ signatureSize then .error .invalidLength else .ok signature := by
  induction order with
  | nil =>
      obtain ⟨_, hmem, _⟩ := h
      exact absurd hmem List.not_mem_nil
  | cons encoding rest ih =>
      obtain ⟨other, hmem, hother⟩ := h
      rcases decodeSignature_cons text encoding rest with hcons | hcons
      · obtain ⟨found, hfound, heq⟩ := hcons
        rw [heq, Base64.eq_of_encode_eq (hfound.trans hother.symm)]
      · obtain ⟨hnone, heq⟩ := hcons
        rw [heq]
        apply ih
        refine ⟨other, (List.mem_cons.mp hmem).resolve_left fun heq' => ?_, hother⟩
        exact hnone signature (heq' ▸ hother)

theorem decodeSignature_of_no_encode {text : Bytes} {order : List Encoding}
    (h : ∀ encoding ∈ order, ∀ signature, Base64.encode encoding signature ≠ text) :
    decodeSignature text order = .error .invalidEncoding := by
  induction order with
  | nil => rfl
  | cons encoding rest ih =>
      rw [List.forall_mem_cons] at h
      rcases decodeSignature_cons text encoding rest with hcons | hcons
      · obtain ⟨found, hfound, _⟩ := hcons
        exact absurd hfound (h.1 found)
      · rw [hcons.2]
        exact ih h.2

/-- The result depends on which variants there are, not on their order. -/
theorem decodeSignature_congr {order order' : List Encoding} (text : Bytes) (h : ∀ encoding, encoding ∈ order ↔ encoding ∈ order') :
    decodeSignature text order = decodeSignature text order' := by
  by_cases hencoded : ∃ signature, ∃ encoding ∈ order, Base64.encode encoding signature = text
  · obtain ⟨signature, encoding, hmem, hencode⟩ := hencoded
    rw [decodeSignature_of_encode ⟨encoding, hmem, hencode⟩,
      decodeSignature_of_encode ⟨encoding, (h encoding).mp hmem, hencode⟩]
  · rw [decodeSignature_of_no_encode fun encoding hmem signature hencode => hencoded ⟨signature, encoding, hmem, hencode⟩,
      decodeSignature_of_no_encode fun encoding hmem signature hencode =>
        hencoded ⟨signature, encoding, (h encoding).mpr hmem, hencode⟩]

/-! ### Round trips -/

theorem split_transitSignature (version : Nat) (encoding : Encoding) (signature : Bytes) :
    split 58 (transitSignature version encoding signature) =
      [ascii "vault", keyVersion version, Base64.encode encoding signature] := by
  apply GoString.split_join (List.cons_ne_nil _ _)
  intro part hpart hcolon
  rw [List.mem_cons, List.mem_cons, List.mem_singleton] at hpart
  rcases hpart with rfl | rfl | rfl
  · exact absurd hcolon (by decide)
  · rw [keyVersion, List.mem_cons] at hcolon
    have hdigit := List.all_eq_true.mp (GoString.all_isDigit_decimal version) 58 (hcolon.resolve_left (by decide))
    exact absurd hdigit (by decide)
  · exact Base64.ne_of_mem_encode hcolon (by decide) (by decide) rfl

theorem parse_transitSignature {signature : Bytes} {version : Nat} (encoding : Encoding)
    (hsize : signature.length = signatureSize) (hversion : validTransitVersion (keyVersion version) = true) :
    parseTransitSignature (transitSignature version encoding signature) = .ok signature := by
  have hne : Base64.encode encoding signature ≠ [] := by
    apply Base64.encode_ne_nil
    intro hnil
    rw [hnil] at hsize
    cases hsize
  rw [parseTransitSignature, parseTransitSignatureBy, split_transitSignature]
  dsimp only
  rw [if_neg, decodeSignature_of_encode ⟨encoding, mem_encodings encoding, rfl⟩, if_neg (not_not.mpr hsize)]
  rw [hversion]
  simp [hne]

theorem of_parseTransitSignature {value signature : Bytes} (h : parseTransitSignature value = .ok signature) :
    signature.length = signatureSize ∧
      ∃ version encoding, 1 ≤ version ∧ version < 2 ^ 64 ∧ value = transitSignature version encoding signature := by
  have hjoin := GoString.join_split 58 value
  rw [parseTransitSignature, parseTransitSignatureBy] at h
  split at h
  · rename_i scheme version text hsplit
    split_ifs at h with hformat
    rw [not_or, not_or, not_not, Bool.not_eq_false] at hformat
    obtain ⟨rfl, hversion, _⟩ := hformat
    obtain ⟨number, hpos, hlt, rfl⟩ := (validTransitVersion_iff version).mp hversion
    by_cases hencoded : ∃ found, ∃ encoding ∈ encodings, Base64.encode encoding found = text
    · obtain ⟨found, encoding, hmem, rfl⟩ := hencoded
      rw [decodeSignature_of_encode ⟨encoding, hmem, rfl⟩] at h
      split_ifs at h with hsize
      rw [Except.ok.injEq] at h
      subst h
      refine ⟨not_not.mp hsize, number, encoding, hpos, hlt, ?_⟩
      rw [← hjoin, hsplit, transitSignature]
    · rw [decodeSignature_of_no_encode fun encoding hmem found hencode => hencoded ⟨found, encoding, hmem, hencode⟩] at h
      cases h
  · cases h

/-- A signature comes back from each of its texts, nothing else is taken, and the order of the variants does not matter. -/
theorem transit_signatures_parsed :
    (∀ (signature : Bytes) (version : Nat) (encoding : Encoding), signature.length = signatureSize →
      validTransitVersion (keyVersion version) = true →
        parseTransitSignature (transitSignature version encoding signature) = .ok signature) ∧
    (∀ value signature, parseTransitSignature value = .ok signature → signature.length = signatureSize ∧
      ∃ version encoding, 1 ≤ version ∧ version < 2 ^ 64 ∧ value = transitSignature version encoding signature) ∧
    ∀ (order : List Encoding) (value : Bytes), order.Perm encodings →
      parseTransitSignatureBy order value = parseTransitSignature value := by
  refine ⟨fun signature version encoding => parse_transitSignature encoding, fun value signature => of_parseTransitSignature, ?_⟩
  intro order value hperm
  rw [parseTransitSignature, parseTransitSignatureBy, parseTransitSignatureBy]
  split
  · rw [decodeSignature_congr _ fun encoding => hperm.mem_iff]
  · rfl

theorem transit_signature_parsed_of_zeros :
    parseTransitSignature (transitSignature 12 StdEncoding (List.replicate 64 0)) = .ok (List.replicate 64 0) :=
  transit_signatures_parsed.1 (List.replicate 64 0) 12 StdEncoding (List.length_replicate ..)
    ((validTransitVersion_iff _).mpr ⟨12, by omega, by omega, rfl⟩)

end Transcendence.Auth
