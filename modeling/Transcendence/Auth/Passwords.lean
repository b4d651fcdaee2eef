import Transcendence.Base.Base64
import Transcendence.Base.GoStrings

/-!
# Password hashes

A hash is written with the parameters it was made with, and verifying reads them back. They are
decimal numbers of 32 bits, but the parallelism is narrowed to a byte and the length of the hash to 32
bits before they are used. What is written as a multiple of 256 becomes the parallelism 0, for which
Argon2 panics, and what is written as 257 becomes 1.
-/

namespace Transcendence.Auth.Hasher

open GoString (split splitFirst join decimal parseUint)
open Base64 (RawStdEncoding)

/-- The arguments of `argon2.IDKey` besides the password and the salt. -/
structure KeyParameters where
  time : UInt32
  memory : UInt32
  threads : UInt8
  keyLen : UInt32
  deriving DecidableEq

/-- What is relied on: none is a panic, and otherwise the key has the length that was asked for. -/
structure Argon2 (IDKey : Bytes → Bytes → KeyParameters → Option Bytes) : Prop where
  panics_iff : ∀ password salt parameters,
    IDKey password salt parameters = none ↔ parameters.time = 0 ∨ parameters.threads = 0 ∨ parameters.keyLen = 0
  length : ∀ password salt parameters key,
    IDKey password salt parameters = some key → key.length = parameters.keyLen.toNat

def memory : Nat :=
  64 * 1024

def iterations : Nat :=
  3

def parallelism : Nat :=
  2

def keyLength : Nat :=
  32

/-- `m=65536` -/
def writtenParameter (name : Bytes) (value : Nat) : Bytes :=
  name ++ 61 :: decimal value

/-- The text that a key is stored as. -/
def encodeHash (salt key : Bytes) : Bytes :=
  join 36 [[], ascii "argon2id", ascii "v=19",
    join 44 [writtenParameter (ascii "m") memory, writtenParameter (ascii "t") iterations,
      writtenParameter (ascii "p") parallelism],
    Base64.encode RawStdEncoding salt, Base64.encode RawStdEncoding key]

section Hashing

variable (IDKey : Bytes → Bytes → KeyParameters → Option Bytes)

/-- `Hash` with the salt that was drawn, none if it panics. -/
def hash (value salt : Bytes) : Option Bytes :=
  (IDKey value salt ⟨UInt32.ofNat iterations, UInt32.ofNat memory, UInt8.ofNat parallelism, UInt32.ofNat keyLength⟩).map
    (encodeHash salt)

end Hashing

inductive VerifyError where
  | invalidFormat
  | invalidParameters
  | invalidParameter (name : Bytes)
  | unknownParameter (name : Bytes)
  | incompleteParameters
  | invalidSalt
  | invalidHash
  deriving DecidableEq

/-- `parsedMemory`, `parsedIterations` and `parsedParallelism` -/
structure Parameters where
  memory : Nat
  iterations : Nat
  parallelism : Nat
  deriving DecidableEq

def setParameter (parsed : Parameters) (name : Bytes) (value : Nat) : Except VerifyError Parameters :=
  if name = ascii "m" then .ok { parsed with memory := value }
  else if name = ascii "t" then .ok { parsed with iterations := value }
  else if name = ascii "p" then .ok { parsed with parallelism := value }
  else .error (.unknownParameter name)

def parseParameters : List Bytes → Parameters → Except VerifyError Parameters
  | [], parsed => .ok parsed
  | parameter :: rest, parsed =>
      match splitFirst 61 parameter with
      | none => .error .invalidParameters
      | some (name, text) =>
          match parseUint text 32 with
          | none => .error (.invalidParameter name)
          | some value =>
              match setParameter parsed name value with
              | .error error => .error error
              | .ok parsed => parseParameters rest parsed

/-- What is written in an encoded hash. -/
structure Written where
  parameters : Parameters
  salt : Bytes
  expected : Bytes
  deriving DecidableEq

/-- The part of `Verify` that reads the encoded hash. -/
def readHash (encoded : Bytes) : Except VerifyError Written :=
  match split 36 encoded with
  | [_, name, version, parameters, salt, expected] =>
      if name ≠ ascii "argon2id" ∨ version ≠ ascii "v=19" then .error .invalidFormat
      else
        match parseParameters (split 44 parameters) ⟨0, 0, 0⟩ with
        | .error error => .error error
        | .ok parsed =>
            if parsed.memory = 0 ∨ parsed.iterations = 0 ∨ parsed.parallelism = 0 then .error .incompleteParameters
            else
              match Base64.decode RawStdEncoding salt, Base64.decode RawStdEncoding expected with
              | none, _ => .error .invalidSalt
              | some _, none => .error .invalidHash
              | some salt, some expected => .ok ⟨parsed, salt, expected⟩
  | _ => .error .invalidFormat

/-- The written numbers, narrowed to the types of the arguments. -/
def Written.narrowed (written : Written) : KeyParameters where
  time := UInt32.ofNat written.parameters.iterations
  memory := UInt32.ofNat written.parameters.memory
  threads := UInt8.ofNat written.parameters.parallelism
  keyLen := UInt32.ofNat written.expected.length

inductive Verified where
  | panicked
  | failed (error : VerifyError)
  | returned (valid : Bool)
  deriving DecidableEq

section Verifying

variable (IDKey : Bytes → Bytes → KeyParameters → Option Bytes)

def verify (value encoded : Bytes) : Verified :=
  match readHash encoded with
  | .error error => .failed error
  | .ok written =>
      match IDKey value written.salt written.narrowed with
      | none => .panicked
      | some actual => .returned (actual = written.expected)

/-- `Verify` returns, and if it accepts then the parameters it used are the ones that are written. -/
def VerifiesAsWritten (value encoded : Bytes) : Prop :=
  verify IDKey value encoded ≠ .panicked ∧
    (verify IDKey value encoded = .returned true → ∃ written, readHash encoded = .ok written ∧
      written.narrowed.memory.toNat = written.parameters.memory ∧
      written.narrowed.time.toNat = written.parameters.iterations ∧
      written.narrowed.threads.toNat = written.parameters.parallelism)

end Verifying

/-- The parallelism is no multiple of 256, nor the length of the hash one of `2 ^ 32`, and the parallelism fits a byte unless
the hash is too long for any key. -/
def NarrowsWell (encoded : Bytes) : Prop :=
  ∀ written, readHash encoded = .ok written →
    written.parameters.parallelism % 2 ^ 8 ≠ 0 ∧ written.expected.length % 2 ^ 32 ≠ 0 ∧
      (written.parameters.parallelism < 2 ^ 8 ∨ 2 ^ 32 ≤ written.expected.length)

variable {IDKey : Bytes → Bytes → KeyParameters → Option Bytes} {value salt encoded : Bytes} {written : Written}

/-! ### What is read -/

theorem setParameter_lt {parsed parsed' : Parameters} {name : Bytes} {value : Nat} (hvalue : value < 2 ^ 32)
    (hmemory : parsed.memory < 2 ^ 32) (hiterations : parsed.iterations < 2 ^ 32)
    (h : setParameter parsed name value = .ok parsed') : parsed'.memory < 2 ^ 32 ∧ parsed'.iterations < 2 ^ 32 := by
  rw [setParameter] at h
  split_ifs at h
  · rw [Except.ok.injEq] at h
    rw [← h]
    exact ⟨hvalue, hiterations⟩
  · rw [Except.ok.injEq] at h
    rw [← h]
    exact ⟨hmemory, hvalue⟩
  · rw [Except.ok.injEq] at h
    rw [← h]
    exact ⟨hmemory, hiterations⟩

theorem parseParameters_lt {texts : List Bytes} {parsed parsed' : Parameters} (hmemory : parsed.memory < 2 ^ 32)
    (hiterations : parsed.iterations < 2 ^ 32) (h : parseParameters texts parsed = .ok parsed') :
    parsed'.memory < 2 ^ 32 ∧ parsed'.iterations < 2 ^ 32 := by
  induction texts generalizing parsed with
  | nil =>
      rw [parseParameters, Except.ok.injEq] at h
      rw [← h]
      exact ⟨hmemory, hiterations⟩
  | cons text texts ih =>
      rw [parseParameters] at h
      split at h
      · cases h
      · split at h
        · cases h
        · rename_i hvalue
          split at h
          · cases h
          · rename_i hset
            obtain ⟨hmemory', hiterations'⟩ := setParameter_lt (GoString.parseUint_lt hvalue) hmemory hiterations hset
            exact ih hmemory' hiterations' h

/-- The numbers that were read have 32 bits, and the iterations are not zero. -/
theorem readHash_bounds (h : readHash encoded = .ok written) :
    written.parameters.memory < 2 ^ 32 ∧ written.parameters.iterations < 2 ^ 32 ∧ written.parameters.iterations ≠ 0 := by
  rw [readHash] at h
  split at h
  · split_ifs at h
    split at h
    · cases h
    · rename_i hparse
      split_ifs at h with hzero
      split at h
      · cases h
      · cases h
      · rw [Except.ok.injEq] at h
        rw [← h]
        obtain ⟨hmemory, hiterations⟩ := parseParameters_lt (by decide) (by decide) hparse
        rw [not_or, not_or] at hzero
        exact ⟨hmemory, hiterations, hzero.2.1⟩
  · cases h

theorem time_ne_zero (h : readHash encoded = .ok written) : written.narrowed.time ≠ 0 := by
  obtain ⟨_, hlt, hne⟩ := readHash_bounds h
  intro hzero
  have htime := congrArg UInt32.toNat hzero
  rw [Written.narrowed, UInt32.toNat_ofNat', Nat.mod_eq_of_lt hlt] at htime
  exact hne htime

theorem uint8_ofNat_eq_zero_iff (n : Nat) : UInt8.ofNat n = 0 ↔ n % 2 ^ 8 = 0 := by
  rw [← UInt8.toNat_inj, UInt8.toNat_ofNat']
  rfl

theorem uint32_ofNat_eq_zero_iff (n : Nat) : UInt32.ofNat n = 0 ↔ n % 2 ^ 32 = 0 := by
  rw [← UInt32.toNat_inj, UInt32.toNat_ofNat']
  rfl

/-! ### When Argon2 panics -/

theorem verify_of_readHash (h : readHash encoded = .ok written) :
    verify IDKey value encoded =
      match IDKey value written.salt written.narrowed with
      | none => .panicked
      | some actual => .returned (actual = written.expected) := by
  rw [verify, h]

theorem verify_eq_panicked_iff (hargon : Argon2 IDKey) (h : readHash encoded = .ok written) :
    verify IDKey value encoded = .panicked ↔
      written.parameters.parallelism % 2 ^ 8 = 0 ∨ written.expected.length % 2 ^ 32 = 0 := by
  have hpanics := hargon.panics_iff value written.salt written.narrowed
  rw [or_iff_right (time_ne_zero h), Written.narrowed, uint8_ofNat_eq_zero_iff, uint32_ofNat_eq_zero_iff] at hpanics
  rw [verify_of_readHash h, ← hpanics, Written.narrowed]
  split
  · rename_i hnone
    exact iff_of_true rfl hnone
  · rename_i hsome
    rw [hsome]
    exact iff_of_false Verified.noConfusion (Option.some_ne_none _)

/-- A key that is as long as a key can be asked to be is the written hash only if the hash is not longer. -/
theorem length_of_accepted (hargon : Argon2 IDKey) (h : readHash encoded = .ok written)
    (haccepted : verify IDKey value encoded = .returned true) : written.expected.length < 2 ^ 32 := by
  rw [verify_of_readHash h] at haccepted
  split at haccepted
  · cases haccepted
  · rename_i actual hsome
    have heq : actual = written.expected := by simpa using haccepted
    have hlength := hargon.length _ _ _ _ hsome
    rw [heq, Written.narrowed] at hlength
    rw [hlength]
    exact (UInt32.ofNat written.expected.length).toNat_lt

/-! ### Both directions -/

theorem verifiesAsWritten_of_narrowsWell (hargon : Argon2 IDKey) (hnarrows : NarrowsWell encoded) (value : Bytes) :
    VerifiesAsWritten IDKey value encoded := by
  cases hread : readHash encoded with
  | error error =>
      have hfailed : verify IDKey value encoded = .failed error := by rw [verify, hread]
      rw [VerifiesAsWritten, hfailed]
      exact ⟨Verified.noConfusion, fun h => Verified.noConfusion h⟩
  | ok written =>
      obtain ⟨hparallelism, hlength, hfits⟩ := hnarrows written hread
      refine ⟨(verify_eq_panicked_iff hargon hread).not.mpr (not_or.mpr ⟨hparallelism, hlength⟩), fun haccepted => ?_⟩
      obtain ⟨hmemory, hiterations, _⟩ := readHash_bounds hread
      have hbyte : written.parameters.parallelism < 2 ^ 8 :=
        hfits.resolve_right (not_le.mpr (length_of_accepted hargon hread haccepted))
      refine ⟨written, hread, ?_, ?_, ?_⟩
      · rw [Written.narrowed, UInt32.toNat_ofNat', Nat.mod_eq_of_lt hmemory]
      · rw [Written.narrowed, UInt32.toNat_ofNat', Nat.mod_eq_of_lt hiterations]
      · rw [Written.narrowed, UInt8.toNat_ofNat', Nat.mod_eq_of_lt hbyte]

/-- A key function that answers with one key wherever it has the length that is asked for. -/
def keyed (key : Bytes) (_ _ : Bytes) (parameters : KeyParameters) : Option Bytes :=
  if parameters.time = 0 ∨ parameters.threads = 0 ∨ parameters.keyLen = 0 then none
  else if parameters.keyLen.toNat = key.length then some key
  else some (List.replicate parameters.keyLen.toNat 0)

theorem argon2_keyed (key : Bytes) : Argon2 (keyed key) where
  panics_iff password salt parameters := by
    rw [keyed]
    by_cases hzero : parameters.time = 0 ∨ parameters.threads = 0 ∨ parameters.keyLen = 0
    · rw [if_pos hzero]
      exact iff_of_true rfl hzero
    · rw [if_neg hzero, ← apply_ite some]
      exact iff_of_false (Option.some_ne_none _) hzero
  length password salt parameters key' h := by
    rw [keyed] at h
    split_ifs at h with hzero hlength
    · rw [← Option.some.inj h, hlength]
    · rw [← Option.some.inj h, List.length_replicate]

theorem narrowsWell_of_verifiesAsWritten
    (h : ∀ IDKey, Argon2 IDKey → ∀ value, VerifiesAsWritten IDKey value encoded) : NarrowsWell encoded := by
  intro written hread
  obtain ⟨hreturns, hused⟩ := h _ (argon2_keyed written.expected) []
  have hpanics := (verify_eq_panicked_iff (argon2_keyed written.expected) hread).not.mp hreturns
  rw [not_or] at hpanics
  refine ⟨hpanics.1, hpanics.2, ?_⟩
  by_contra hneither
  rw [not_or, not_lt, not_le] at hneither
  obtain ⟨hwide, hshort⟩ := hneither
  have hkey : keyed written.expected [] written.salt written.narrowed = some written.expected := by
    have hzero : ¬ (written.narrowed.time = 0 ∨ written.narrowed.threads = 0 ∨ written.narrowed.keyLen = 0) := by
      rw [or_iff_right (time_ne_zero hread), Written.narrowed, uint8_ofNat_eq_zero_iff, uint32_ofNat_eq_zero_iff]
      exact not_or.mpr hpanics
    rw [keyed, if_neg hzero, if_pos]
    rw [Written.narrowed, UInt32.toNat_ofNat', Nat.mod_eq_of_lt hshort]
  have haccepted : verify (keyed written.expected) [] encoded = .returned true := by
    rw [verify_of_readHash hread, hkey]
    simp
  obtain ⟨written', hread', _, _, hthreads⟩ := hused haccepted
  rw [hread, Except.ok.injEq] at hread'
  rw [← hread', Written.narrowed, UInt8.toNat_ofNat'] at hthreads
  have hlt := Nat.mod_lt written.parameters.parallelism (show 0 < 2 ^ 8 by decide)
  omega

/-! ### A hash that was made is verified -/

theorem splitFirst_writtenParameter {name : Bytes} (hname : 61 ∉ name) (value : Nat) :
    splitFirst 61 (writtenParameter name value) = some (name, decimal value) := by
  have hall : ∀ c ∈ name, decide (c ≠ 61) = true := by
    intro c hc
    apply decide_eq_true
    intro heq
    exact hname (heq ▸ hc)
  rw [splitFirst, writtenParameter, List.dropWhile_append_of_pos hall, List.dropWhile_cons_of_neg (by decide),
    List.takeWhile_append_of_pos hall, List.takeWhile_cons_of_neg (by decide), List.append_nil]

theorem parseParameters_written {name : Bytes} (hname : 61 ∉ name) {value : Nat} (hpos : value ≠ 0) (hlt : value < 2 ^ 32)
    {parsed parsed' : Parameters} (hset : setParameter parsed name value = .ok parsed') (rest : List Bytes) :
    parseParameters (writtenParameter name value :: rest) parsed = parseParameters rest parsed' := by
  rw [parseParameters, splitFirst_writtenParameter hname]
  dsimp only
  rw [GoString.parseUint_decimal hpos hlt]
  dsimp only
  rw [hset]

theorem not_mem_decimal {c : UInt8} (hc : GoString.isDigit c = false) (n : Nat) : c ∉ decimal n := by
  intro hmem
  rw [List.all_eq_true.mp (GoString.all_isDigit_decimal n) c hmem] at hc
  cases hc

theorem not_mem_writtenParameter {name : Bytes} {c : UInt8} (hname : c ∉ name) (hequals : c ≠ 61)
    (hdigit : GoString.isDigit c = false) (value : Nat) : c ∉ writtenParameter name value := by
  rw [writtenParameter, List.mem_append, List.mem_cons, not_or, not_or]
  exact ⟨hname, hequals, not_mem_decimal hdigit value⟩

theorem not_mem_of_mem_written {c : UInt8} (hnames : c ∉ ascii "mtp") (hequals : c ≠ 61) (hdigit : GoString.isDigit c = false) :
    ∀ parameter ∈ [writtenParameter (ascii "m") memory, writtenParameter (ascii "t") iterations,
      writtenParameter (ascii "p") parallelism], c ∉ parameter := by
  have habsent : ∀ name ∈ [ascii "m", ascii "t", ascii "p"], ∀ value, c ∉ writtenParameter name value := by
    intro name hname value
    have hsub : ∀ name ∈ [ascii "m", ascii "t", ascii "p"], name ⊆ ascii "mtp" := by decide
    exact not_mem_writtenParameter (fun hmem => hnames (hsub name hname hmem)) hequals hdigit value
  simp only [List.forall_mem_cons]
  exact ⟨habsent _ (by decide) _, habsent _ (by decide) _, habsent _ (by decide) _, List.forall_mem_nil _⟩

theorem readHash_encodeHash (salt key : Bytes) :
    readHash (encodeHash salt key) = .ok ⟨⟨memory, iterations, parallelism⟩, salt, key⟩ := by
  have hsplit : split 36 (encodeHash salt key) = [[], ascii "argon2id", ascii "v=19",
      join 44 [writtenParameter (ascii "m") memory, writtenParameter (ascii "t") iterations,
        writtenParameter (ascii "p") parallelism],
      Base64.encode RawStdEncoding salt, Base64.encode RawStdEncoding key] := by
    apply GoString.split_join (List.cons_ne_nil _ _)
    simp only [List.forall_mem_cons, List.not_mem_nil, not_false_iff, true_and]
    refine ⟨by decide, by decide, GoString.not_mem_join (by decide) ?_, ?_, ?_, fun _ => False.elim⟩
    · exact not_mem_of_mem_written (by decide) (by decide) (by decide)
    · exact fun hmem => Base64.ne_of_mem_encode hmem (by decide) (by decide) rfl
    · exact fun hmem => Base64.ne_of_mem_encode hmem (by decide) (by decide) rfl
  have hparameters : split 44 (join 44 [writtenParameter (ascii "m") memory, writtenParameter (ascii "t") iterations,
      writtenParameter (ascii "p") parallelism]) =
        [writtenParameter (ascii "m") memory, writtenParameter (ascii "t") iterations,
          writtenParameter (ascii "p") parallelism] := by
    apply GoString.split_join (List.cons_ne_nil _ _)
    exact not_mem_of_mem_written (by decide) (by decide) (by decide)
  have hparsed : parseParameters [writtenParameter (ascii "m") memory, writtenParameter (ascii "t") iterations,
      writtenParameter (ascii "p") parallelism] ⟨0, 0, 0⟩ = .ok ⟨memory, iterations, parallelism⟩ := by
    have hmemory : setParameter ⟨0, 0, 0⟩ (ascii "m") memory = .ok ⟨memory, 0, 0⟩ := rfl
    have hiterations : setParameter ⟨memory, 0, 0⟩ (ascii "t") iterations = .ok ⟨memory, iterations, 0⟩ := rfl
    have hparallelism : setParameter ⟨memory, iterations, 0⟩ (ascii "p") parallelism =
      .ok ⟨memory, iterations, parallelism⟩ := rfl
    rw [parseParameters_written (by decide) (by decide) (by decide) hmemory,
      parseParameters_written (by decide) (by decide) (by decide) hiterations,
      parseParameters_written (by decide) (by decide) (by decide) hparallelism, parseParameters]
  rw [readHash, hsplit]
  dsimp only
  rw [if_neg (by decide), hparameters, hparsed]
  dsimp only
  rw [if_neg (by decide), Base64.decode_encode, Base64.decode_encode]

theorem verify_hash (hargon : Argon2 IDKey) (h : hash IDKey value salt = some encoded) :
    verify IDKey value encoded = .returned true := by
  obtain ⟨key, hkey, rfl⟩ := Option.map_eq_some_iff.mp h
  have hlength := hargon.length _ _ _ _ hkey
  have hnarrowed : (⟨⟨memory, iterations, parallelism⟩, salt, key⟩ : Written).narrowed =
      ⟨UInt32.ofNat iterations, UInt32.ofNat memory, UInt8.ofNat parallelism, UInt32.ofNat keyLength⟩ := by
    rw [Written.narrowed, hlength]
    rfl
  rw [verify_of_readHash (readHash_encodeHash salt key), hnarrowed, hkey]
  simp

/-- Every hash that is made is verified, and a hash is verified with what is written in it exactly when that fits the types it
is narrowed to. -/
theorem passwords_verified_iff (encoded : Bytes) :
    (∀ IDKey, Argon2 IDKey → ∀ value salt, hash IDKey value salt = some encoded →
      verify IDKey value encoded = .returned true) ∧
    ((∀ IDKey, Argon2 IDKey → ∀ value, VerifiesAsWritten IDKey value encoded) ↔ NarrowsWell encoded) := by
  refine ⟨fun IDKey hargon value salt => verify_hash hargon, ?_⟩
  constructor
  · exact narrowsWell_of_verifiesAsWritten
  · exact fun hnarrows IDKey hargon value => verifiesAsWritten_of_narrowsWell hargon hnarrows value

/-- The key of this password and this salt. -/
def stapleKey : Bytes :=
  [8, 208, 248, 96, 5, 145, 61, 184, 197, 166, 101, 174, 54, 201, 58, 138, 57, 38, 49, 75, 170, 125, 242, 163, 193, 139, 94,
    109, 159, 219, 116, 0]

theorem password_verified_of_staple :
    verify (keyed stapleKey) (ascii "correct-horse-battery-staple") (encodeHash (ascii "0123456789abcdef") stapleKey) =
      .returned true :=
  (passwords_verified_iff (encodeHash (ascii "0123456789abcdef") stapleKey)).1 (keyed stapleKey) (argon2_keyed stapleKey)
    (ascii "correct-horse-battery-staple") (ascii "0123456789abcdef") rfl

/-- A parallelism of 256 becomes 0. -/
theorem not_verifiesAsWritten_of_wrapped :
    ¬ ∀ IDKey, Argon2 IDKey → ∀ value encoded, VerifiesAsWritten IDKey value encoded := by
  intro hall
  have hreturns := (hall (keyed [0]) (argon2_keyed [0]) (ascii "secret") (ascii "$argon2id$v=19$m=65536,t=3,p=256$AA$AA")).1
  exact hreturns (by decide +kernel)

end Transcendence.Auth.Hasher
