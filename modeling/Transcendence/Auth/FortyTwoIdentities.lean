import Transcendence.Auth.Store
import Transcendence.Base.Calls
import Transcendence.Base.Runs

/-!
# 42 identities

`ResolveFortyTwoLogin` and `LinkFortyTwoIdentity` of `oauth.go`, statement by statement, for any
number of calls at once. What a transaction has written is its own until it commits; a statement reads
what is committed, and its own writes. A row that a statement locks or updates, and a value of a unique
column that it inserts, are locked until the transaction ends: another one that needs the lock waits,
and then meets the committed row or none. The shared locks of foreign keys only make calls wait, and
are left out; a call that is picked to break a deadlock fails.

The ids and the random suffix of a username are part of the labels.
-/

namespace Transcendence.Auth

structure FortyTwoProfile where
  subject : String
  email : String
  username : String
  displayName : String
  firstName : Option String
  lastName : Option String
  avatarUrl : Option String
  campus : Option String
  deriving DecidableEq, Repr

structure FortyTwoLoginResolution where
  user : User
  autoLinked : Bool
  deriving DecidableEq, Repr

structure AuthIdentityRow where
  userId : String
  provider : AuthProvider
  providerSubject : String
  email : Option String
  emailVerified : Bool
  displayName : Option String
  login : Option String
  deriving DecidableEq, Repr

/-! ### Texts -/

/-- `unicode.ToLower`, where it leads to an ASCII letter. -/
def toLowerRune (character : Char) : Char :=
  if character = '\u212A' then 'k' else if character = '\u0130' then 'i' else character.toLower

def isUsernameCharacter (character : Char) : Bool :=
  ('a' ≤ character && character ≤ 'z') || ('0' ≤ character && character ≤ '9') || character = '_' || character = '-'

/-- `strings.Trim` and `BTRIM`. -/
def trim (cutset : List Char) (value : List Char) : List Char :=
  ((value.dropWhile (· ∈ cutset)).reverse.dropWhile (· ∈ cutset)).reverse

def sanitizedUsername (value : String) : String :=
  let base := trim ['-', '_'] ((value.toList.map toLowerRune).filter isUsernameCharacter)
  if base.length < 3 then "user" else String.ofList (base.take 32)

/-- The name that the attempt of `createFortyTwoUser` tries. -/
def attemptedUsername (profile : FortyTwoProfile) (attempt : Nat) (suffix : String) : String :=
  let base := sanitizedUsername profile.username
  if attempt = 0 then base else String.ofList (base.toList.take 24) ++ "-" ++ suffix

def nullableString (value : String) : Option String := if value = "" then none else some value

def btrim (value : String) : String := String.ofList (trim [' '] value.toList)

/-- `NULLIF(BTRIM(value), '') IS NULL` -/
def isBlank (value : Option String) : Bool := (value.map btrim).all (· = "")

/-- What a profile field becomes: it is filled when it is blank. -/
def fill (field supplied : Option String) : Option String :=
  if isBlank field && !isBlank supplied then supplied.map btrim else field

/-! ### Tables -/

structure IdentityTables where
  users : List User
  identities : List AuthIdentityRow
  deriving DecidableEq, Repr

def AuthIdentityRow.key (row : AuthIdentityRow) : AuthProvider × String := (row.provider, row.providerSubject)

def enrich (profile : FortyTwoProfile) (user : User) : User :=
  { user with
    firstName := fill user.firstName profile.firstName
    lastName := fill user.lastName profile.lastName
    avatarUrl := fill user.avatarUrl profile.avatarUrl
    campus := fill user.campus profile.campus
    emailVerified := if user.email = profile.email then true else user.emailVerified }

/-- The identity that `insertFortyTwoIdentity` inserts. -/
def fortyTwoIdentity (userId : String) (profile : FortyTwoProfile) : AuthIdentityRow where
  userId := userId
  provider := .FORTY_TWO
  providerSubject := profile.subject
  email := some profile.email
  emailVerified := true
  displayName := nullableString profile.displayName
  login := some profile.username

/-- The user that `createFortyTwoUser` inserts. -/
def fortyTwoUser (id username : String) (profile : FortyTwoProfile) : User where
  id := id
  email := profile.email
  emailVerified := true
  username := username
  firstName := profile.firstName
  lastName := profile.lastName
  avatarUrl := profile.avatarUrl
  campus := profile.campus
  status := .ACTIVE
  globalRole := .USER

namespace IdentityTables

def findUser (db : IdentityTables) (id : String) : Option User := db.users.find? (·.id = id)

def findIdentity (db : IdentityTables) (provider : AuthProvider) (subject : String) : Option AuthIdentityRow :=
  db.identities.find? (·.key = (provider, subject))

def findIdentityUser (db : IdentityTables) (provider : AuthProvider) (subject : String) : Option User :=
  (db.findIdentity provider subject).bind fun row => db.findUser row.userId

def insertUser (db : IdentityTables) (user : User) : IdentityTables := { db with users := db.users ++ [user] }

def insertIdentity (db : IdentityTables) (row : AuthIdentityRow) : IdentityTables :=
  { db with identities := db.identities ++ [row] }

def enrichFortyTwoUser (db : IdentityTables) (userId : String) (profile : FortyTwoProfile) : IdentityTables :=
  { db with users := Table.update (·.id = userId) (enrich profile) db.users }

def isIdentityOf (userId : String) (profile : FortyTwoProfile) (row : AuthIdentityRow) : Bool :=
  row.userId = userId && row.key = (.FORTY_TWO, profile.subject)

def updateFortyTwoIdentity (db : IdentityTables) (userId : String) (profile : FortyTwoProfile) : IdentityTables :=
  { db with
    identities := Table.update (isIdentityOf userId profile)
      ({ · with email := some profile.email, emailVerified := true }) db.identities }

end IdentityTables

namespace FortyTwoIdentities

/-! ### Calls -/

/-- What a transaction has written. -/
inductive Write where
  | user (user : User)
  | identity (row : AuthIdentityRow)
  | enrich (userId : String) (profile : FortyTwoProfile)
  | touch (userId : String) (profile : FortyTwoProfile)
  deriving DecidableEq, Repr

def Write.apply (db : IdentityTables) : Write → IdentityTables
  | .user row => db.insertUser row
  | .identity row => db.insertIdentity row
  | .enrich userId profile => db.enrichFortyTwoUser userId profile
  | .touch userId profile => db.updateFortyTwoIdentity userId profile

inductive Request where
  | resolve (profile : FortyTwoProfile)
  | link (userId : String) (profile : FortyTwoProfile)
  deriving DecidableEq, Repr

def Request.profile : Request → FortyTwoProfile
  | .resolve profile => profile
  | .link _ profile => profile

inductive Response where
  | resolved (resolution : FortyTwoLoginResolution)
  | linked
  deriving DecidableEq, Repr

/-- What a call returns for the user it ends with. -/
def Request.response (user : User) (autoLinked : Bool) : Request → Response
  | .resolve _ => .resolved ⟨user, autoLinked⟩
  | .link _ _ => .linked

inductive Error where
  | conflict
  | notFound
  | failed
  deriving DecidableEq, Repr

/-- How far a transaction has come. -/
inductive Point where
  | begun
  /-- The subject is bound to the user. -/
  | known (userId : String)
  | enriched (user : User)
  /-- The subject is not bound; a login goes on to the local identity of the email. -/
  | unknown
  | creating (attempt : Nat)
  | chosen (userId : String) (autoLinked : Bool)
  | inserted (userId : String) (autoLinked : Bool)
  | ready (response : Response)
  deriving DecidableEq, Repr

inductive Phase where
  | running (point : Point) (writes : List Write)
  /-- A login has met a conflict and rolled its transaction back. -/
  | conflicted
  | ended (result : Except Error Response)
  deriving DecidableEq

abbrev Call := Calls.Call Request Phase

/-- A row, or a value of a unique column, that a transaction may have locked. -/
inductive Lock where
  | user (id : String)
  | identity (provider : AuthProvider) (subject : String)
  | newUser (id : String)
  | username (username : String)
  | email (email : String)
  | subject (provider : AuthProvider) (subject : String)
  deriving DecidableEq, Repr

structure State where
  db : IdentityTables
  calls : Nat → Option Call
  locks : Lock → Option Nat

def initial (db : IdentityTables) : State where
  db := db
  calls _ := none
  locks _ := none

inductive Label where
  | begin (id : Nat) (request : Request)
  | lookup (id : Nat)
  | lookupLocal (id : Nat)
  | create (id : Nat) (newId suffix : String)
  | insertIdentity (id : Nat)
  | enrich (id : Nat)
  | touch (id : Nat)
  | commit (id : Nat)
  | recover (id : Nat)
  | fail (id : Nat)
  deriving DecidableEq, Repr

namespace State

/-- Nobody else has the lock. -/
def Free (s : State) (id : Nat) (lock : Lock) : Prop := s.locks lock = none ∨ s.locks lock = some id

instance (s : State) (id : Nat) (lock : Lock) : Decidable (s.Free id lock) := inferInstanceAs (Decidable (_ ∨ _))

def view (s : State) (writes : List Write) : IdentityTables := writes.foldl Write.apply s.db

def setPhase (s : State) (id : Nat) (request : Request) (phase : Phase) : State :=
  { s with calls := Function.update s.calls id (some ⟨request, phase⟩) }

def acquire (s : State) (id : Nat) (locks : List Lock) : State :=
  { s with locks := fun lock => if lock ∈ locks then some id else s.locks lock }

/-- The end of the transaction gives its locks back. -/
def finish (s : State) (id : Nat) (request : Request) (phase : Phase) : State :=
  { s.setPhase id request phase with locks := fun lock => if s.locks lock = some id then none else s.locks lock }

def begin (s : State) (id : Nat) (request : Request) : Option State :=
  if (s.calls id).isSome then none else some (s.setPhase id request (.running .begun []))

/-- What a statement does in a transaction that has come to a point and written something. -/
def transaction (s : State) (id : Nat) (statement : Request → Point → List Write → Option State) : Option State :=
  (s.calls id).bind fun call =>
    match call.phase with
    | .running point writes => statement call.request point writes
    | _ => none

/-- `findIdentityUser` of the subject; a link that finds another user's identity ends there. -/
def lookup (s : State) (id : Nat) : Option State :=
  s.transaction id fun request point writes =>
    match point, s.db.findIdentityUser .FORTY_TWO request.profile.subject with
    | .begun, none =>
        match request with
        | .resolve _ => some (s.setPhase id request (.running .unknown writes))
        | .link userId _ => some (s.setPhase id request (.running (.chosen userId false) writes))
    | .begun, some user =>
        if ¬s.Free id (.identity .FORTY_TWO request.profile.subject) then none
        else
          match request with
          | .link userId _ =>
              if user.id ≠ userId then some (s.finish id request (.ended (.error .conflict)))
              else some ((s.acquire id [.identity .FORTY_TWO request.profile.subject]).setPhase id request
                (.running (.known userId) writes))
          | .resolve _ =>
              some ((s.acquire id [.identity .FORTY_TWO request.profile.subject]).setPhase id request
                (.running (.known user.id) writes))
    | _, _ => none

/-- `findIdentityUser` of the local identity that has the email. -/
def lookupLocal (s : State) (id : Nat) : Option State :=
  s.transaction id fun request point writes =>
    match point, s.db.findIdentityUser .LOCAL request.profile.email with
    | .unknown, none => some (s.setPhase id request (.running (.creating 0) writes))
    | .unknown, some user =>
        if ¬s.Free id (.identity .LOCAL request.profile.email) then none
        else some ((s.acquire id [.identity .LOCAL request.profile.email]).setPhase id request
          (.running (.chosen user.id true) writes))
    | _, _ => none

/-- An attempt of `createFortyTwoUser`. A taken username is no error, but leads to the next attempt. -/
def create (s : State) (id : Nat) (newId suffix : String) : Option State :=
  s.transaction id fun request point writes =>
    match point with
    | .creating attempt =>
        let username := attemptedUsername request.profile attempt suffix
        let email := request.profile.email
        if ¬s.Free id (.username username) then none
        else if s.db.users.any (·.username = username) then
          if attempt + 1 < 8 then some (s.setPhase id request (.running (.creating (attempt + 1)) writes))
          else some (s.finish id request .conflicted)
        else if ¬(s.Free id (.email email) ∧ s.Free id (.newUser newId)) then none
        else if s.db.users.any fun user => user.email = email || user.id = newId then some (s.finish id request .conflicted)
        else some ((s.acquire id [.username username, .email email, .newUser newId]).setPhase id request
          (.running (.chosen newId false) (writes ++ [.user (fortyTwoUser newId username request.profile)])))
    | _ => none

/-- `insertFortyTwoIdentity`. A login goes on after a conflict, a link ends. -/
def insertIdentity (s : State) (id : Nat) : Option State :=
  s.transaction id fun request point writes =>
    match point with
    | .chosen userId autoLinked =>
        if ¬s.Free id (.subject .FORTY_TWO request.profile.subject) then none
        else if s.db.identities.any (·.key = (.FORTY_TWO, request.profile.subject)) then
          match request with
          | .resolve _ => some (s.finish id request .conflicted)
          | .link _ _ => some (s.finish id request (.ended (.error .conflict)))
        else if ((s.view writes).findUser userId).isNone then some (s.finish id request (.ended (.error .notFound)))
        else some ((s.acquire id [.subject .FORTY_TWO request.profile.subject]).setPhase id request
          (.running (.inserted userId autoLinked) (writes ++ [.identity (fortyTwoIdentity userId request.profile)])))
    | _ => none

/-- `enrichFortyTwoUser`, and before it the query of a link that locks the user's row. -/
def enrich (s : State) (id : Nat) : Option State :=
  s.transaction id fun request point writes =>
    let enriched (userId : String) (next : User → Point) : Option State :=
      if ¬s.Free id (.user userId) then none
      else
        match (s.view (writes ++ [.enrich userId request.profile])).findUser userId with
        | none => some (s.finish id request (.ended (.error .notFound)))
        | some user => some ((s.acquire id [.user userId]).setPhase id request
            (.running (next user) (writes ++ [.enrich userId request.profile])))
    match point with
    | .known userId => enriched userId .enriched
    | .inserted userId autoLinked =>
        enriched userId fun user => .ready (request.response user autoLinked)
    | _ => none

/-- `updateFortyTwoIdentity`. -/
def touch (s : State) (id : Nat) : Option State :=
  s.transaction id fun request point writes =>
    match point with
    | .enriched user =>
        if (s.view writes).identities.countP (IdentityTables.isIdentityOf user.id request.profile) ≠ 1 then
          some (s.finish id request (.ended (.error .notFound)))
        else
          some (s.setPhase id request (.running (.ready (request.response user false))
            (writes ++ [.touch user.id request.profile])))
    | _ => none

def commit (s : State) (id : Nat) : Option State :=
  s.transaction id fun request point writes =>
    match point with
    | .ready response => some { s.finish id request (.ended (.ok response)) with db := s.view writes }
    | _ => none

/-- `findIdentityUserPool`, after a conflict: the identity that won is authoritative. -/
def recover (s : State) (id : Nat) : Option State :=
  (s.calls id).bind fun call =>
    match call.phase with
    | .conflicted =>
        match s.db.findIdentityUser .FORTY_TWO call.request.profile.subject with
        | some user => some (s.setPhase id call.request (.ended (.ok (.resolved ⟨user, false⟩))))
        | none => some (s.setPhase id call.request (.ended (.error .conflict)))
    | _ => none

def fail (s : State) (id : Nat) : Option State :=
  (s.calls id).bind fun call =>
    match call.phase with
    | .ended _ => none
    | _ => some (s.finish id call.request (.ended (.error .failed)))

def step (s : State) : Label → Option State
  | .begin id request => s.begin id request
  | .lookup id => s.lookup id
  | .lookupLocal id => s.lookupLocal id
  | .create id newId suffix => s.create id newId suffix
  | .insertIdentity id => s.insertIdentity id
  | .enrich id => s.enrich id
  | .touch id => s.touch id
  | .commit id => s.commit id
  | .recover id => s.recover id
  | .fail id => s.fail id

end State

end FortyTwoIdentities

end Transcendence.Auth
