import Transcendence.Auth.Store
import Transcendence.Base.Base64Url

/-!
# Project API tokens

`project_api_tokens.go`: the token text, the tables, and the calls that create, introspect, revoke
and delete tokens, each in a transaction of its own. Calls of any number of clients interleave
statement by statement, where

* the statements that write and the commit after them are one step, since nobody sees or changes
  the rows in between;
* a statement that changes or locks a row waits until no other transaction has it locked, and judges
  the row as it is then;
* the advisory lock and the row locks are kept to the end of the transaction, `CURRENT_TIMESTAMP` is
  its beginning, and a call may fail at any moment.

The random bytes, the ids and the readings of the service's clock are part of the requests and
labels. A text that PostgreSQL does not take is refused like one that no row has.
-/

namespace Transcendence.Auth

/-! ### The text of a token -/

def ProjectAPITokenPrefix : Bytes := ascii "trp_v1_"

def dot : UInt8 := 46

def formatProjectAPIToken (selector secret : Bytes) : Bytes := ProjectAPITokenPrefix ++ selector ++ [dot] ++ secret

def parseProjectAPIToken (value : Bytes) : Option (Bytes × Bytes) :=
  if !ProjectAPITokenPrefix.isPrefixOf value then none
  else
    match (value.drop ProjectAPITokenPrefix.length).splitOn dot with
    | [selector, secret] =>
        if selector.length ≠ 22 ∨ secret.length ≠ 43 then none else some (selector, secret)
    | _ => none

/-- `hmac` is the keyed hash with the pepper of the service. -/
structure ProjectAPITokenStore where
  hmac : Bytes → Bytes
  hashtext : String → Int

def projectAPITokenHMAC (store : ProjectAPITokenStore) (selector secret : Bytes) : Bytes :=
  store.hmac (selector ++ [dot] ++ secret)

/-! ### Tables -/

inductive ProjectAPITokenPermission where
  | READ
  | READ_WRITE
  deriving DecidableEq, Repr

structure ProjectApiTokenRow where
  id : String
  projectId : String
  label : String
  selector : Bytes
  secretHmac : Bytes
  permission : ProjectAPITokenPermission
  createdByUserId : Option String
  createdAt : Nat
  expiresAt : Nat
  lastUsedAt : Option Nat
  revokedAt : Option Nat
  revokedByUserId : Option String
  deriving DecidableEq, Repr

inductive ProjectApiTokenEventType where
  | CREATED
  | REVOKED
  | DELETED
  deriving DecidableEq, Repr

structure ProjectApiTokenEventRow where
  tokenId : String
  projectId : String
  actorUserId : Option String
  eventType : ProjectApiTokenEventType
  createdAt : Nat
  deriving DecidableEq, Repr

namespace ProjectApiTokens

def MaxProjectAPITokens : Nat := 10

/-- Neither revoked nor expired. -/
def IsActive (now : Nat) (row : ProjectApiTokenRow) : Prop := row.revokedAt = none ∧ now < row.expiresAt

instance (now : Nat) (row : ProjectApiTokenRow) : Decidable (IsActive now row) := inferInstanceAs (Decidable (_ ∧ _))

def activeCount (tokens : List ProjectApiTokenRow) (projectId : String) (now : Nat) : Nat :=
  tokens.countP fun row => row.projectId = projectId ∧ IsActive now row

/-! ### Calls -/

structure CreateProjectAPITokenRequest where
  projectId : String
  label : String
  permission : ProjectAPITokenPermission
  expiresAt : Nat
  createdByUserId : String
  selectorBytes : Bytes
  secretBytes : Bytes
  selectorBytes_length : selectorBytes.length = 16
  secretBytes_length : secretBytes.length = 32
  id : String
  now : Nat
  deriving DecidableEq

namespace CreateProjectAPITokenRequest

def selector (r : CreateProjectAPITokenRequest) : Bytes := Base64Url.encode r.selectorBytes

def secret (r : CreateProjectAPITokenRequest) : Bytes := Base64Url.encode r.secretBytes

def token (r : CreateProjectAPITokenRequest) : Bytes := formatProjectAPIToken r.selector r.secret

end CreateProjectAPITokenRequest

inductive Request where
  | create (request : CreateProjectAPITokenRequest)
  | introspect (value : Bytes)
  | revoke (projectId tokenId actorUserId : String)
  | delete (projectId tokenId actorUserId : String)
  deriving DecidableEq

structure ProjectAPITokenPrincipal where
  tokenId : String
  projectId : String
  label : String
  permission : ProjectAPITokenPermission
  expiresAt : Nat
  lastUsedAt : Nat
  deriving DecidableEq, Repr

/-- What a call returns: `create` its row and the text of the token. -/
inductive Response where
  | created (row : ProjectApiTokenRow) (token : Bytes)
  | principal (principal : ProjectAPITokenPrincipal)
  | revoked (row : ProjectApiTokenRow)
  | deleted
  deriving DecidableEq

inductive Error where
  | invalid
  | conflict
  | notFound
  | failed
  deriving DecidableEq, Repr

inductive Phase where
  | begun (startedAt : Nat)
  /-- `create` has the advisory lock of its project. -/
  | locked (startedAt : Nat)
  /-- `create` has counted less than the cap. -/
  | counted (startedAt : Nat)
  /-- `introspect` has locked the row and found the digest right. -/
  | verified (startedAt : Nat) (row : ProjectApiTokenRow)
  /-- `revoke` has updated nothing. -/
  | unchanged (startedAt : Nat)
  | ended (result : Except Error Response)
  deriving DecidableEq

structure Call where
  request : Request
  phase : Phase
  deriving DecidableEq

structure State where
  projects : List String
  tokens : List ProjectApiTokenRow
  events : List ProjectApiTokenEventRow
  clock : Nat
  calls : Nat → Option Call
  advisoryLocks : Int → Option Nat
  rowLocks : String → Option Nat

def initial (projects : List String) (clock : Nat) : State where
  projects := projects
  tokens := []
  events := []
  clock := clock
  calls _ := none
  advisoryLocks _ := none
  rowLocks _ := none

inductive Label where
  | begin (id : Nat) (request : Request)
  | lock (id : Nat)
  | count (id : Nat) (now : Nat)
  | insert (id : Nat)
  | select (id : Nat)
  | touch (id : Nat)
  | revoke (id : Nat)
  | load (id : Nat)
  | delete (id : Nat)
  | fail (id : Nat)
  | tick (elapsed : Nat)
  deriving DecidableEq

def stringPointer (value : String) : Option String := if value = "" then none else some value

namespace State

def setPhase (s : State) (id : Nat) (call : Call) (phase : Phase) : State :=
  { s with calls := Function.update s.calls id (some { call with phase }) }

/-- The end of the transaction gives its locks back. -/
def finish (s : State) (id : Nat) (call : Call) (result : Except Error Response) : State :=
  { s.setPhase id call (.ended result) with
    advisoryLocks := fun key => if s.advisoryLocks key = some id then none else s.advisoryLocks key
    rowLocks := fun key => if s.rowLocks key = some id then none else s.rowLocks key }

/-- `introspect` parses the text before its transaction. -/
def firstPhase (clock : Nat) : Request → Phase
  | .introspect value => if (parseProjectAPIToken value).isNone then .ended (.error .notFound) else .begun clock
  | _ => .begun clock

def begin (s : State) (id : Nat) (request : Request) : Option State :=
  if (s.calls id).isSome then none
  else some { s with calls := Function.update s.calls id (some ⟨request, firstPhase s.clock request⟩) }

def event (tokenId projectId : String) (actorUserId : Option String) (eventType : ProjectApiTokenEventType)
    (startedAt : Nat) : ProjectApiTokenEventRow :=
  ⟨tokenId, projectId, actorUserId, eventType, timestamp3 startedAt⟩

/-- `pg_advisory_xact_lock`. -/
def lock (store : ProjectAPITokenStore) (s : State) (id : Nat) : Option State :=
  (s.calls id).bind fun call =>
    match call.request, call.phase with
    | .create r, .begun startedAt =>
        if (s.advisoryLocks (store.hashtext r.projectId)).isSome then none
        else some { s.setPhase id call (.locked startedAt) with
          advisoryLocks := Function.update s.advisoryLocks (store.hashtext r.projectId) (some id) }
    | _, _ => none

def count (s : State) (id : Nat) (now : Nat) : Option State :=
  (s.calls id).bind fun call =>
    match call.request, call.phase with
    | .create r, .locked startedAt =>
        if r.expiresAt ≤ now then some (s.finish id call (.error .invalid))
        else if activeCount s.tokens r.projectId startedAt ≥ MaxProjectAPITokens then
          some (s.finish id call (.error .conflict))
        else some (s.setPhase id call (.counted startedAt))
    | _, _ => none

def newRow (store : ProjectAPITokenStore) (r : CreateProjectAPITokenRequest) : ProjectApiTokenRow where
  id := r.id
  projectId := r.projectId
  label := r.label
  selector := r.selector
  secretHmac := projectAPITokenHMAC store r.selector r.secret
  permission := r.permission
  createdByUserId := stringPointer r.createdByUserId
  createdAt := timestamp3 r.now
  expiresAt := timestamp3 r.expiresAt
  lastUsedAt := none
  revokedAt := none
  revokedByUserId := none

/-- The row that `create` returns has its instants as they were before they were stored. -/
def createdRow (store : ProjectAPITokenStore) (r : CreateProjectAPITokenRequest) : ProjectApiTokenRow :=
  { newRow store r with createdAt := r.now, expiresAt := r.expiresAt }

/-- The insert, which the constraints of the table may refuse, and the commit. -/
def insert (store : ProjectAPITokenStore) (s : State) (id : Nat) : Option State :=
  (s.calls id).bind fun call =>
    match call.request, call.phase with
    | .create r, .counted startedAt =>
        let row := newRow store r
        if row.expiresAt ≤ row.createdAt then some (s.finish id call (.error .invalid))
        else if s.tokens.any fun other => other.id = row.id ∨ other.selector = row.selector then
          some (s.finish id call (.error .conflict))
        else if row.projectId ∉ s.projects then some (s.finish id call (.error .notFound))
        else some { s.finish id call (.ok (.created (createdRow store r) r.token)) with
          tokens := s.tokens ++ [row]
          events := s.events ++ [event row.id row.projectId row.createdByUserId .CREATED startedAt] }
    | _, _ => none

/-- `SELECT … FOR UPDATE` of `introspect`, and the comparison of the digests. -/
def select (store : ProjectAPITokenStore) (s : State) (id : Nat) : Option State :=
  (s.calls id).bind fun call =>
    match call.request, call.phase with
    | .introspect value, .begun startedAt =>
        (parseProjectAPIToken value).bind fun parsed =>
          match s.tokens.find? fun row => row.selector = parsed.1 ∧ IsActive startedAt row with
          | none => some (s.finish id call (.error .notFound))
          | some row =>
              if (s.rowLocks row.id).isSome then none
              else if projectAPITokenHMAC store parsed.1 parsed.2 ≠ row.secretHmac then
                some (s.finish id call (.error .notFound))
              else some { s.setPhase id call (.verified startedAt row) with
                rowLocks := Function.update s.rowLocks row.id (some id) }
    | _, _ => none

/-- The update of `lastUsedAt` and the commit. -/
def touch (s : State) (id : Nat) : Option State :=
  (s.calls id).bind fun call =>
    match call.phase with
    | .verified startedAt row =>
        some { s.finish id call (.ok (.principal
            ⟨row.id, row.projectId, row.label, row.permission, row.expiresAt, timestamp3 startedAt⟩)) with
          tokens := Table.update (·.id = row.id) (fun row => { row with lastUsedAt := some (timestamp3 startedAt) })
            s.tokens }
    | _ => none

def revokeRow (startedAt : Nat) (actorUserId : String) (row : ProjectApiTokenRow) : ProjectApiTokenRow :=
  { row with revokedAt := some (timestamp3 startedAt), revokedByUserId := some actorUserId }

/-- The update of `revoke` with its event and the commit, or no row to update. -/
def revoke (s : State) (id : Nat) : Option State :=
  (s.calls id).bind fun call =>
    match call.request, call.phase with
    | .revoke projectId tokenId actorUserId, .begun startedAt =>
        match s.tokens.find? fun row => row.id = tokenId ∧ row.projectId = projectId ∧ row.revokedAt = none with
        | none => some (s.setPhase id call (.unchanged startedAt))
        | some row =>
            if (s.rowLocks row.id).isSome then none
            else some { s.finish id call (.ok (.revoked (revokeRow startedAt actorUserId row))) with
              tokens := Table.update (fun row => row.id = tokenId ∧ row.projectId = projectId ∧ row.revokedAt = none)
                (revokeRow startedAt actorUserId) s.tokens
              events := s.events ++ [event row.id row.projectId (stringPointer actorUserId) .REVOKED startedAt] }
    | _, _ => none

/-- The `SELECT` of a `revoke` that has updated nothing. -/
def load (s : State) (id : Nat) : Option State :=
  (s.calls id).bind fun call =>
    match call.request, call.phase with
    | .revoke projectId tokenId _, .unchanged _ =>
        match s.tokens.find? fun row => row.id = tokenId ∧ row.projectId = projectId with
        | none => some (s.finish id call (.error .notFound))
        | some row => some (s.finish id call (.ok (.revoked row)))
    | _, _ => none

/-- The delete with its event and the commit. -/
def delete (s : State) (id : Nat) : Option State :=
  (s.calls id).bind fun call =>
    match call.request, call.phase with
    | .delete projectId tokenId actorUserId, .begun startedAt =>
        match s.tokens.find? fun row => row.id = tokenId ∧ row.projectId = projectId with
        | none => some (s.finish id call (.error .notFound))
        | some row =>
            if (s.rowLocks row.id).isSome then none
            else some { s.finish id call (.ok .deleted) with
              tokens := s.tokens.filter fun row => ¬(row.id = tokenId ∧ row.projectId = projectId)
              events := s.events ++ [event row.id row.projectId (stringPointer actorUserId) .DELETED startedAt] }
    | _, _ => none

def Phase.hasEnded : Phase → Bool
  | .ended _ => true
  | _ => false

/-- A call fails; its transaction is rolled back. -/
def fail (s : State) (id : Nat) : Option State :=
  ((s.calls id).filter (!Phase.hasEnded ·.phase)).map fun call => s.finish id call (.error .failed)

def step (store : ProjectAPITokenStore) (s : State) : Label → Option State
  | .begin id request => s.begin id request
  | .lock id => s.lock store id
  | .count id now => s.count id now
  | .insert id => s.insert store id
  | .select id => s.select store id
  | .touch id => s.touch id
  | .revoke id => s.revoke id
  | .load id => s.load id
  | .delete id => s.delete id
  | .fail id => s.fail id
  | .tick elapsed => some { s with clock := s.clock + elapsed }

end State

/-! A store for examples, with a transparent hash, and a call of `create`. -/

def plainStore : ProjectAPITokenStore := ⟨id, fun _ => 0⟩

def exampleRequest : CreateProjectAPITokenRequest where
  projectId := "project"
  label := "Deploy"
  permission := .READ
  expiresAt := 100 * second
  createdByUserId := "owner"
  selectorBytes := List.replicate 16 7
  secretBytes := List.replicate 32 9
  selectorBytes_length := List.length_replicate
  secretBytes_length := List.length_replicate
  id := "token"
  now := second

end ProjectApiTokens

end Transcendence.Auth
