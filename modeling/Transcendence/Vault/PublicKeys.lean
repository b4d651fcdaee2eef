import Mathlib.Data.List.Sort
import Transcendence.Auth.TransitSignatures
import Transcendence.Base.Calls
import Transcendence.Base.History
import Transcendence.Base.OrderedMap
import Transcendence.Base.Runs
import Transcendence.Vault.Runtime

/-!
# The public keys of Vault Transit

`Runtime.PublicKey` looks a key up in the set that was fetched last, and has the set fetched again for
an id that is newer than it. One fetch serves all calls that wait for it. Ids that were not found are
remembered for a while, and so are those that a fetch was started for. A call is cut at its critical
sections. Which of the oldest entries is forgotten when a map is full is up to the order of the map, so
it is given from outside, as are the readings of the clock and Vault's answers.

`history` is not in the program: it remembers, newest first, which ids were asked for, what was fetched
and what was answered.
-/

namespace Transcendence.Vault.Keys

open Auth (keyVersion)
open Calls (Call)
open OrderedMap (get set delete)

abbrev KeyID := Bytes

def publicKeySize : Nat :=
  32

/-- A key of the right length. -/
def PublicKey :=
  { key : Bytes // key.length = publicKeySize }
  deriving DecidableEq

def maxCachedPublicKeys : Nat :=
  32

def maxNegativeKeyIDs : Nat :=
  64

def negativeKeyTTL : Int :=
  30 * second

def keySetTTL : Int :=
  60 * second

def maxKeyCatchUp : Nat :=
  maxCachedPublicKeys

/-- `Atoi` would take a sign too, but then the text is not the one that the version is written as. -/
def transitKeyVersion (keyID : KeyID) : Option Nat :=
  match keyID with
  | 118 :: digits =>
      match GoString.parseUint digits 63 with
      | none => none
      | some version => if version = 0 ∨ keyVersion version ≠ keyID then none else some version
  | _ => none

/-- What the client makes of an answer of Vault's, with what it has checked: the key of each version. -/
structure TransitKeyInfo where
  latestVersion : Nat
  publicKeys : List (Nat × PublicKey)
  versions : (publicKeys.map (·.1)).Nodup
  positive : ∀ entry ∈ publicKeys, 0 < entry.1
  le_latest : ∀ entry ∈ publicKeys, entry.1 ≤ latestVersion
  latest : latestVersion ∈ publicKeys.map (·.1)
  deriving DecidableEq

namespace TransitKeyInfo

def find (info : TransitKeyInfo) (keyID : KeyID) : Option PublicKey :=
  (info.publicKeys.find? fun entry => keyVersion entry.1 = keyID).map (·.2)

/-- The versions whose keys are kept, the highest first. -/
def kept (info : TransitKeyInfo) : List Nat :=
  ((info.publicKeys.map (·.1)).insertionSort (· ≥ ·)).take maxCachedPublicKeys

/-- The keys that are installed. -/
def installed (info : TransitKeyInfo) (keyID : KeyID) : Option PublicKey :=
  if keyID ∈ info.kept.map keyVersion then info.find keyID else none

end TransitKeyInfo

structure KeyCache where
  publicKeys : KeyID → Option PublicKey
  latestKeyVersion : Nat
  keySetRefreshedAt : Int
  negativeKeyIDs : OrderedMap KeyID Int
  unknownKeyChecks : OrderedMap KeyID Int
  /-- The call that is fetching. -/
  keyRefreshDone : Option Nat
  keyRefreshErr : Option String

/-- One of the oldest entries. -/
def isOldest (entries : OrderedMap KeyID Int) (keyID : KeyID) : Bool :=
  (get entries keyID).any fun time => entries.all fun entry => time ≤ entry.2

/-- Both maps forget what is out of date, and one of the oldest entries if they are still full. -/
def remember (outdated : Int → Bool) (entries : OrderedMap KeyID Int) (keyID : KeyID) (time : Int) (oldest : KeyID) :
    Option (OrderedMap KeyID Int) :=
  let entries := entries.filter fun entry => !outdated entry.2
  if entries.length < maxNegativeKeyIDs then some (set entries keyID time)
  else if isOldest entries oldest then some (set (delete entries oldest) keyID time)
  else none

namespace KeyCache

def installKeyInfo (cache : KeyCache) (info : TransitKeyInfo) (now : Int) : KeyCache :=
  { cache with
    publicKeys := info.installed
    latestKeyVersion := info.latestVersion
    keySetRefreshedAt := now
    negativeKeyIDs := [] }

def rememberUnknownKey (cache : KeyCache) (keyID : KeyID) (now : Int) (oldest : KeyID) : Option KeyCache :=
  (remember (fun expiry => expiry ≤ now) cache.negativeKeyIDs keyID (now + negativeKeyTTL) oldest).map fun entries =>
    { cache with negativeKeyIDs := entries }

def rememberUnknownKeyCheck (cache : KeyCache) (keyID : KeyID) (now : Int) (oldest : KeyID) : Option KeyCache :=
  (remember (fun checkedAt => negativeKeyTTL ≤ now - checkedAt) cache.unknownKeyChecks keyID now oldest).map fun entries =>
    { cache with unknownKeyChecks := entries }

/-- The key is known to be unknown. -/
def isNegative (cache : KeyCache) (keyID : KeyID) (now : Int) : Bool :=
  (get cache.negativeKeyIDs keyID).any fun expiry => now < expiry

/-- A fetch was started for the key a while ago. -/
def isChecked (cache : KeyCache) (keyID : KeyID) (now : Int) : Bool :=
  (get cache.unknownKeyChecks keyID).any fun checkedAt => now - checkedAt < negativeKeyTTL

end KeyCache

inductive Request where
  | publicKey (keyID : KeyID)
  | signingKeyID
  deriving DecidableEq

/-- `latest` is the version that was the latest at the call's lookup. -/
inductive Phase where
  | begun
  /-- About to remember that the key is unknown. -/
  | remembering (latest : Nat) (now : Int)
  /-- About to enter `refreshPublicKeys`. -/
  | refreshing (latest : Nat)
  | waiting (latest : Nat) (done : Nat)
  | fetching (latest : Nat)
  /-- `refreshPublicKeys` has returned without an error. -/
  | looking (latest : Nat)
  | ended
  deriving DecidableEq

/-- What `PublicKey` answers. -/
inductive Answer where
  | found (key : PublicKey)
  | notFound
  | failed (error : String)
  deriving DecidableEq

/-- `Validate` tells an invalid token from a dependency that failed. -/
inductive ValidateError where
  | invalid (cause : String)
  | dependency (cause : String)
  deriving DecidableEq

/-- What `Validate` makes of the answer. -/
def Answer.validate : Answer → Except ValidateError PublicKey
  | .found key => .ok key
  | .notFound => .error (.invalid "token signing key is unknown")
  | .failed error => .error (.dependency ("lookup token public key: " ++ error))

inductive Event where
  | asked (keyID : KeyID)
  /-- A fetch is started for the key. -/
  | checked (keyID : KeyID)
  | fetched (info : TransitKeyInfo)
  | failed
  | answered (keyID : KeyID) (latest : Nat) (answer : Answer)
  | signed (result : Except String KeyID)
  deriving DecidableEq

structure State where
  cache : KeyCache
  ready : Bool
  calls : Nat → Option (Call Request Phase)
  history : List Event

inductive Label where
  | begin (id : Nat) (request : Request)
  | lookup (id : Nat) (now : Int)
  | remember (id : Nat) (oldest : KeyID)
  | refresh (id : Nat) (now : Int) (oldest : KeyID)
  | fetched (id : Nat) (reply : Except String TransitKeyInfo) (now : Int) (oldest : KeyID)
  | woken (id : Nat) (now : Int) (oldest : KeyID)
  | cancelled (id : Nat) (error : String)
  | look (id : Nat)
  /-- `Run` gives up. -/
  | stop

namespace State

/-- After `Start` with this set of keys. -/
def started (info : TransitKeyInfo) (now : Int) : State where
  cache :=
    { publicKeys := info.installed
      latestKeyVersion := info.latestVersion
      keySetRefreshedAt := now
      negativeKeyIDs := []
      unknownKeyChecks := []
      keyRefreshDone := none
      keyRefreshErr := none }
  ready := true
  calls _ := none
  history := []

def put (s : State) (id : Nat) (request : Request) (phase : Phase) : State :=
  { s with calls := Function.update s.calls id (some ⟨request, phase⟩) }

def record (s : State) (event : Event) : State :=
  { s with history := event :: s.history }

def withCache (s : State) (cache : KeyCache) : State :=
  { s with cache }

/-- `PublicKey` returns. -/
def answer (s : State) (id : Nat) (keyID : KeyID) (latest : Nat) (answer : Answer) : State :=
  (s.put id (.publicKey keyID) .ended).record (.answered keyID latest answer)

/-- `SigningKeyID` returns. -/
def sign (s : State) (id : Nat) (result : Except String KeyID) : State :=
  (s.put id .signingKeyID .ended).record (.signed result)

/-- The call returns an error. -/
def fail (s : State) (id : Nat) (request : Request) (latest : Nat) (error : String) : State :=
  match request with
  | .publicKey keyID => s.answer id keyID latest (.failed error)
  | .signingKeyID => s.sign id (.error error)

/-- What can be told before anything is asked of Vault. -/
def lookup (s : State) (id : Nat) (keyID : KeyID) (now : Int) : State :=
  let latest := s.cache.latestKeyVersion
  if !s.ready then s.answer id keyID latest (.failed "Vault runtime is not ready")
  else
    match transitKeyVersion keyID with
    | none => s.answer id keyID latest .notFound
    | some version =>
        match s.cache.publicKeys keyID with
        | some key => s.answer id keyID latest (.found key)
        | none =>
            if s.cache.isNegative keyID now then s.answer id keyID latest .notFound
            else if 0 < latest ∧ (version ≤ latest ∨ latest + maxKeyCatchUp < version) then
              s.put id (.publicKey keyID) (.remembering latest now)
            else if s.cache.isChecked keyID now then s.put id (.publicKey keyID) (.remembering latest now)
            else s.put id (.publicKey keyID) (.refreshing latest)

def lookupSigningKeyID (s : State) (id : Nat) (now : Int) : State :=
  if !s.ready then s.sign id (.error "Vault runtime is not ready")
  else if s.cache.latestKeyVersion = 0 ∨ keySetTTL ≤ now - s.cache.keySetRefreshedAt then
    s.put id .signingKeyID (.refreshing s.cache.latestKeyVersion)
  else s.sign id (.ok (keyVersion s.cache.latestKeyVersion))

/-- `refreshPublicKeys` until it waits or fetches. -/
def refresh (s : State) (id : Nat) (request : Request) (latest : Nat) (now : Int) (oldest : KeyID) : Option State :=
  if request = .signingKeyID ∧ 0 < s.cache.latestKeyVersion ∧ now - s.cache.keySetRefreshedAt < keySetTTL then
    some (s.put id request (.looking latest))
  else
    match s.cache.keyRefreshDone with
    | some done => some (s.put id request (.waiting latest done))
    | none =>
        let fetching := (s.withCache { s.cache with keyRefreshDone := some id }).put id request (.fetching latest)
        match request with
        | .signingKeyID => some fetching
        | .publicKey keyID =>
            (fetching.cache.rememberUnknownKeyCheck keyID now oldest).map fun cache =>
              (fetching.withCache cache).record (.checked keyID)

/-- `rememberUnknownKeyLocked` for the id that was asked for, if there still is no key for it. -/
def rememberMissing (cache : KeyCache) (request : Request) (now : Int) (oldest : KeyID) : Option KeyCache :=
  match request with
  | .signingKeyID => some cache
  | .publicKey keyID =>
      if (cache.publicKeys keyID).isSome then some cache else cache.rememberUnknownKey keyID now oldest

/-- The fetching call has Vault's answer. -/
def fetched (s : State) (id : Nat) (request : Request) (latest : Nat) (reply : Except String TransitKeyInfo) (now : Int)
    (oldest : KeyID) : Option State :=
  match reply with
  | .error error =>
      some (((s.withCache { s.cache with keyRefreshErr := some error, keyRefreshDone := none }).record .failed).fail id
        request latest error)
  | .ok info =>
      (rememberMissing (s.cache.installKeyInfo info now) request now oldest).map fun cache =>
        ((s.withCache { cache with keyRefreshErr := none, keyRefreshDone := none }).record (.fetched info)).put id request
          (.looking latest)

/-- The call that was waited for has its answer. -/
def woken (s : State) (id : Nat) (request : Request) (latest : Nat) (now : Int) (oldest : KeyID) : Option State :=
  match s.cache.keyRefreshErr with
  | some error => some (s.fail id request latest error)
  | none =>
      (rememberMissing s.cache request now oldest).map fun cache =>
        (s.withCache cache).put id request (.looking latest)

/-- The end of `PublicKey` and of `SigningKeyID` after a refresh. -/
def look (s : State) (id : Nat) (request : Request) (latest : Nat) : State :=
  match request with
  | .publicKey keyID =>
      match s.cache.publicKeys keyID with
      | none => s.answer id keyID latest .notFound
      | some key => s.answer id keyID latest (.found key)
  | .signingKeyID =>
      if s.cache.latestKeyVersion = 0 then s.sign id (.error "Transit signing key is unavailable")
      else s.sign id (.ok (keyVersion s.cache.latestKeyVersion))

def step (s : State) : Label → Option State
  | .begin id request =>
      match s.calls id, request with
      | none, .publicKey keyID => some ((s.put id request .begun).record (.asked keyID))
      | none, .signingKeyID => some (s.put id request .begun)
      | some _, _ => none
  | .lookup id now =>
      match s.calls id with
      | some ⟨.publicKey keyID, .begun⟩ => some (s.lookup id keyID now)
      | some ⟨.signingKeyID, .begun⟩ => some (s.lookupSigningKeyID id now)
      | _ => none
  | .remember id oldest =>
      match s.calls id with
      | some ⟨.publicKey keyID, .remembering latest now⟩ =>
          (s.cache.rememberUnknownKey keyID now oldest).map fun cache =>
            (s.withCache cache).answer id keyID latest .notFound
      | _ => none
  | .refresh id now oldest =>
      match s.calls id with
      | some ⟨request, .refreshing latest⟩ => s.refresh id request latest now oldest
      | _ => none
  | .fetched id reply now oldest =>
      match s.calls id with
      | some ⟨request, .fetching latest⟩ => s.fetched id request latest reply now oldest
      | _ => none
  | .woken id now oldest =>
      match s.calls id with
      | some ⟨request, .waiting latest done⟩ =>
          if s.cache.keyRefreshDone = some done then none else s.woken id request latest now oldest
      | _ => none
  | .cancelled id error =>
      match s.calls id with
      | some ⟨request, .waiting latest _⟩ => some (s.fail id request latest error)
      | _ => none
  | .look id =>
      match s.calls id with
      | some ⟨request, .looking latest⟩ => some (s.look id request latest)
      | _ => none
  | .stop => some { s with ready := false }

end State

end Transcendence.Vault.Keys
