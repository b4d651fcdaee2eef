import Transcendence.Auth.FortyTwoIdentities

/-!
# Callbacks of 42

`oauth42.go` and the statements of `oauth.go` on OAuth transactions: any number of browsers start
logins and account links, and deliver callbacks; the identities are those of `ResolveFortyTwoLogin`
and `LinkFortyTwoIdentity`, statement by statement. Any browser may be made to deliver any state with
any code; what 42 answers to the code is part of the label, and so is what `randomOAuthState` and
`uuid` return.

A statement that commits by itself is one step; the cleanup with which a start begins is a step of its
own. `CURRENT_TIMESTAMP` of the update that consumes a transaction may be passed when the update is
made. The return path of a start is the one that `safeOAuthReturnPath` has made of it. Starts that are
refused change nothing and are no steps.
-/

namespace Transcendence.Auth

def oauthTransactionTTL : Nat := 600 * second

inductive OAuthTransactionPurpose where
  | LOGIN
  | LINK
  deriving DecidableEq, Repr

structure OAuthTransaction where
  provider : AuthProvider
  stateHash : String
  redirectURI : String
  returnTo : String
  purpose : OAuthTransactionPurpose
  initiatingUserID : Option String
  expiresAt : Nat
  deriving DecidableEq, Repr

structure OAuthTransactionRow where
  id : String
  transaction : OAuthTransaction
  createdAt : Nat
  consumedAt : Option Nat
  deriving DecidableEq, Repr

/-- The configuration, and the digest of a state. -/
structure OAuth42 where
  callbackOrigin : String
  clientID : String
  clientSecret : String
  hasHTTPClient : Bool
  hashOAuthState : String → String

structure AuthEvent where
  userId : Option String
  eventType : String
  sessionId : Option String
  deriving DecidableEq, Repr

namespace OAuth42

def fortyTwoOAuthAvailable (config : OAuth42) : Bool :=
  config.callbackOrigin ≠ "" && config.clientID ≠ "" && config.clientSecret ≠ "" && config.hasHTTPClient

def oauthCallbackURI (config : OAuth42) : String :=
  String.ofList ((config.callbackOrigin.toList.reverse.dropWhile (· = '/')).reverse) ++ "/auth/oauth/42/callback"

end OAuth42

namespace OAuthCallbacks

/-! ### Starts -/

/-- A start that a browser makes, and what it draws: `now` is the service's clock. -/
structure Start where
  browser : Nat
  purpose : OAuthTransactionPurpose
  userID : Option String
  returnTo : String
  state : String
  id : String
  now : Nat
  deriving DecidableEq, Repr

def handleFortyTwoStart (browser : Nat) (returnTo state id : String) (now : Nat) : Start :=
  ⟨browser, .LOGIN, none, returnTo, state, id, now⟩

/-- The user is the subject of the access token. -/
def handleAccountLink (browser : Nat) (subject state id : String) (now : Nat) : Start :=
  ⟨browser, .LINK, some subject, "/user-settings", state, id, now⟩

def transaction (config : OAuth42) (start : Start) : OAuthTransaction where
  provider := .FORTY_TWO
  stateHash := config.hashOAuthState start.state
  redirectURI := config.oauthCallbackURI
  returnTo := start.returnTo
  purpose := start.purpose
  initiatingUserID := start.userID
  expiresAt := timestamp3 (start.now + oauthTransactionTTL)

def newRow (config : OAuth42) (start : Start) (databaseNow : Nat) : OAuthTransactionRow :=
  ⟨start.id, transaction config start, timestamp3 databaseNow, none⟩

/-- The insert of `CreateOAuthTransaction`, under the constraint `expiresAt > createdAt`, the unique
columns and the foreign key. -/
def insertTransaction (rows : List OAuthTransactionRow) (userIds : List String) (row : OAuthTransactionRow) :
    Option (List OAuthTransactionRow) :=
  if row.transaction.expiresAt ≤ row.createdAt ∨ row.id ∈ rows.map (·.id) ∨
      row.transaction.stateHash ∈ rows.map (·.transaction.stateHash) ∨ row.transaction.initiatingUserID.any (· ∉ userIds)
  then none
  else some (rows ++ [row])

def deleteExpired (rows : List OAuthTransactionRow) (now : Nat) : List OAuthTransactionRow :=
  rows.filter fun row => now < row.transaction.expiresAt

/-! ### Callbacks -/

structure CallbackRequest where
  browser : Nat
  code : String
  state : String
  deriving DecidableEq, Repr

inductive Response where
  | redirect (returnTo : String)
  | error (status : Nat) (title message : String)
  deriving DecidableEq, Repr

def callbackInvalid : Response := .error 400 "Bad Request" "OAuth callback is invalid"

def loginIncomplete : Response := .error 400 "Bad Request" "OAuth login could not be completed"

def linkConflict : Response := .error 409 "Conflict" "account link could not be completed"

def loginConflict : Response := .error 409 "Conflict" "OAuth login could not be completed"

def loginUnauthorized : Response := .error 401 "Unauthorized" "OAuth login could not be completed"

def logOAuthFailure : Response := .error 503 "Service Unavailable" "OAuth login could not be completed"

/-- How far a callback has come; after the first statement with the transaction it has consumed. -/
inductive Phase where
  | begun (now : Nat)
  | consumed (transaction : OAuthTransaction)
  | storing (transaction : OAuthTransaction) (profile : FortyTwoProfile)
  | resolved (transaction : OAuthTransaction) (resolution : FortyTwoLoginResolution)
  | ended (transaction : Option OAuthTransaction) (response : Response)
  deriving DecidableEq

def Phase.transaction : Phase → Option OAuthTransaction
  | .begun _ => none
  | .consumed transaction => some transaction
  | .storing transaction _ => some transaction
  | .resolved transaction _ => some transaction
  | .ended transaction _ => transaction

abbrev Call := Calls.Call CallbackRequest Phase

/-- The conditions of the update of `ConsumeOAuthTransaction`. -/
def isOpen (stateHash : String) (now : Nat) (row : OAuthTransactionRow) : Bool :=
  row.transaction.stateHash = stateHash && row.consumedAt.isNone && now < row.transaction.expiresAt

inductive ConsumeError where
  | notFound
  | failed
  deriving DecidableEq, Repr

/-- The update fails where it would break the constraint `consumedAt >= createdAt`. -/
def consumeOAuthTransaction (rows : List OAuthTransactionRow) (stateHash : String) (now : Nat) :
    Except ConsumeError (OAuthTransaction × List OAuthTransactionRow) :=
  match rows.find? (isOpen stateHash now) with
  | none => .error .notFound
  | some row =>
      if timestamp3 now < row.createdAt then .error .failed
      else .ok (row.transaction, Table.update (isOpen stateHash now) ({ · with consumedAt := some (timestamp3 now) }) rows)

/-- The call of the store that the purpose of the transaction leads to, unless it is a link of nobody. -/
def identityRequest (transaction : OAuthTransaction) (profile : FortyTwoProfile) : Option FortyTwoIdentities.Request :=
  match transaction.purpose with
  | .LINK => transaction.initiatingUserID.map fun userID => .link userID profile
  | .LOGIN => some (.resolve profile)

/-- `sessions` are those that browsers hold; `started` are the starts made so far, of which each browser
has been handed its state. -/
structure State where
  transactions : List OAuthTransactionRow
  identities : FortyTwoIdentities.State
  sessions : List (Nat × String)
  started : List Start
  calls : Nat → Option Call
  events : List AuthEvent
  clock : Nat

def initial (db : IdentityTables) (sessions : List (Nat × String)) (clock : Nat) : State where
  transactions := []
  identities := FortyTwoIdentities.initial db
  sessions := sessions
  started := []
  calls _ := none
  events := []
  clock := clock

inductive Label where
  | startLogin (browser : Nat) (returnTo state id : String) (now : Nat)
  | startLink (browser : Nat) (subject state id : String) (now : Nat)
  | cleanup
  | callback (id : Nat) (request : CallbackRequest)
  | consume (id now : Nat)
  | fetch (id : Nat) (answer : Option FortyTwoProfile)
  | identity (label : FortyTwoIdentities.Label)
  | respond (id : Nat)
  | createLogin (id : Nat) (sessionId : Option String)
  | fail (id : Nat)
  | signIn (browser : Nat) (userId : String)
  | signOut (browser : Nat) (userId : String)
  | tick (elapsed : Nat)
  deriving DecidableEq, Repr

namespace State

def setPhase (s : State) (id : Nat) (request : CallbackRequest) (phase : Phase) : State :=
  { s with calls := Function.update s.calls id (some ⟨request, phase⟩) }

def recordEvent (s : State) (userId : Option String) (eventType : String) (sessionId : Option String) : State :=
  { s with events := s.events ++ [⟨userId, eventType, sessionId⟩] }

/-- `createFortyTwoTransaction`. -/
def start (config : OAuth42) (s : State) (start : Start) : Option State :=
  if !config.fortyTwoOAuthAvailable then none
  else
    (insertTransaction s.transactions (s.identities.db.users.map (·.id)) (newRow config start s.clock)).map fun transactions =>
      { s with transactions, started := s.started ++ [start] }

def callback (s : State) (id : Nat) (request : CallbackRequest) : Option State :=
  if (s.calls id).isSome then none
  else if request.code = "" ∨ request.state = "" then some (s.setPhase id request (.ended none callbackInvalid))
  else some (s.setPhase id request (.begun s.clock))

def consume (config : OAuth42) (s : State) (id now : Nat) : Option State :=
  (s.calls id).bind fun call =>
    match call.phase with
    | .begun began =>
        if ¬(began ≤ now ∧ now ≤ s.clock) then none
        else
          match consumeOAuthTransaction s.transactions (config.hashOAuthState call.request.state) now with
          | .error .notFound => some (s.setPhase id call.request (.ended none callbackInvalid))
          | .error .failed => some (s.setPhase id call.request (.ended none logOAuthFailure))
          | .ok (transaction, transactions) =>
              some { s.setPhase id call.request
                (if transaction.provider = .FORTY_TWO then .consumed transaction
                  else .ended (some transaction) logOAuthFailure) with transactions }
    | _ => none

/-- `fetchFortyTwoProfile`, and the call of the store that follows begins. -/
def fetch (s : State) (id : Nat) (answer : Option FortyTwoProfile) : Option State :=
  (s.calls id).bind fun call =>
    match call.phase with
    | .consumed transaction =>
        answer.elim (some (s.setPhase id call.request (.ended (some transaction) loginIncomplete))) fun profile =>
          (identityRequest transaction profile).elim
            (some (s.setPhase id call.request (.ended (some transaction) linkConflict))) fun request =>
              (s.identities.begin id request).map fun identities =>
                { s.setPhase id call.request (.storing transaction profile) with identities }
    | _ => none

/-- A statement of a call of the store, which its callback has begun. -/
def identity (s : State) (label : FortyTwoIdentities.Label) : Option State :=
  match label with
  | .begin _ _ => none
  | label => (s.identities.step label).map fun identities => { s with identities }

/-- What the callback does with the result of the call of the store. -/
def respond (s : State) (id : Nat) : Option State :=
  (s.calls id).bind fun call =>
    match call.phase, s.identities.calls id with
    | .storing transaction _, some ⟨_, .ended result⟩ =>
        let ended (s : State) (response : Response) := some (s.setPhase id call.request (.ended (some transaction) response))
        match transaction.purpose, result with
        | .LINK, .ok _ =>
            ended (s.recordEvent transaction.initiatingUserID "IDENTITY_LINK_SUCCEEDED" none) (.redirect transaction.returnTo)
        | .LINK, .error .failed => ended s logOAuthFailure
        | .LINK, .error _ =>
            ended (s.recordEvent transaction.initiatingUserID "IDENTITY_LINK_CONFLICT" none) linkConflict
        | .LOGIN, .error .conflict => ended (s.recordEvent none "IDENTITY_LOGIN_CONFLICT" none) loginConflict
        | .LOGIN, .error _ => ended s logOAuthFailure
        | .LOGIN, .ok (.resolved resolution) =>
            if resolution.user.status ≠ .ACTIVE then ended s loginUnauthorized
            else some (s.setPhase id call.request (.resolved transaction resolution))
        | .LOGIN, .ok .linked => none
    | _, _ => none

/-- `createLogin`, which fails or creates a session, and the cookies that the browser receives. -/
def createLogin (s : State) (id : Nat) (sessionId : Option String) : Option State :=
  (s.calls id).bind fun call =>
    match call.phase with
    | .resolved transaction resolution =>
        let ended (s : State) (response : Response) := some (s.setPhase id call.request (.ended (some transaction) response))
        sessionId.elim (ended s logOAuthFailure) fun sessionId =>
          let s := { s with sessions := (call.request.browser, resolution.user.id) :: s.sessions }
          let s := if resolution.autoLinked then s.recordEvent (some resolution.user.id) "IDENTITY_AUTO_LINKED" none else s
          ended (s.recordEvent (some resolution.user.id) "LOGIN_SUCCEEDED" (some sessionId)) (.redirect transaction.returnTo)
    | _ => none

/-- The first statement of a callback fails. -/
def fail (s : State) (id : Nat) : Option State :=
  (s.calls id).bind fun call =>
    match call.phase with
    | .begun _ => some (s.setPhase id call.request (.ended none logOAuthFailure))
    | _ => none

/-- `signIn` and `signOut` are the other ways in which a browser comes to hold a session and loses it. -/
def step (config : OAuth42) (s : State) : Label → Option State
  | .startLogin browser returnTo state id now => s.start config (handleFortyTwoStart browser returnTo state id now)
  | .startLink browser subject state id now =>
      if (browser, subject) ∈ s.sessions then s.start config (handleAccountLink browser subject state id now) else none
  | .cleanup => some { s with transactions := deleteExpired s.transactions s.clock }
  | .callback id request => s.callback id request
  | .consume id now => s.consume config id now
  | .fetch id answer => s.fetch id answer
  | .identity label => s.identity label
  | .respond id => s.respond id
  | .createLogin id sessionId => s.createLogin id sessionId
  | .fail id => s.fail id
  | .signIn browser userId => some { s with sessions := (browser, userId) :: s.sessions }
  | .signOut browser userId => some { s with sessions := s.sessions.filter (· ≠ (browser, userId)) }
  | .tick elapsed => some { s with clock := s.clock + elapsed }

end State

end OAuthCallbacks

end Transcendence.Auth
