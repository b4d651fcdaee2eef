import Mathlib.Logic.Function.Basic
import Transcendence.Base.Runs

/-!
# The session store of the browser

The session of a page: `lib/auth.ts`, which sends the requests and publishes what they bring, and
`AuthSessionResource`, which holds the state that the page shows. Between two steps is an `await`: a
response arrives, its body is read, an error is caught, a promise settles, or whoever waits for it goes
on. So requests and calls of `resolve` that are under way may be taken on in any order, with logins,
logouts and the other calls of the store in between.

What the store tells its listeners and the realtime socket is left out; nothing here reads it. Three
fields are not in the program: `AuthSession.request`, the request whose response has brought the
session, `State.signOuts`, how many logouts and calls of `setAnonymous` have taken effect, and
`Request.startedAt`, how many had when the request was started.
-/

namespace Transcendence.Session

def sessionCacheTtlMs : Int := 30000

structure AuthenticatedUser where
  id : String
  email : String
  emailVerified : Bool
  username : String
  firstName : Option String
  lastName : Option String
  avatarUrl : Option String
  campus : Option String
  deriving DecidableEq, Repr

/-- `idleExpiresAt` is the time that its string names, if it does. -/
structure AuthSession where
  accessToken : String
  csrfToken : String
  user : AuthenticatedUser
  idleExpiresAt : Option Int
  request : Nat
  deriving DecidableEq, Repr

inductive AuthState where
  | authenticated (session : AuthSession)
  | anonymous
  | unavailable
  deriving DecidableEq, Repr

/-! ### Requests -/

/-- Login stands for `login` and `register`. -/
inductive Endpoint where
  | refresh
  | login
  | logout
  deriving DecidableEq, Repr

/-- What the promise of a request settles to. -/
inductive Outcome where
  | returned (session : Option AuthSession)
  | threw
  deriving DecidableEq, Repr

inductive Phase where
  | fetching
  | readingBody
  /-- An error is on its way to the `catch`. -/
  | throwing
  /-- Before the `finally`. -/
  | finishing (outcome : Outcome)
  | settled (outcome : Outcome)
  /-- A form has gone on with the session of its login. -/
  | continued
  deriving DecidableEq, Repr

structure Request where
  endpoint : Endpoint
  startedAt : Nat
  phase : Phase
  deriving DecidableEq, Repr

/-- A call of `resolve` with the promise it waits for: that of a request, or one of `null`. -/
structure Resolve where
  revision : Nat
  request : Option Nat
  continued : Bool
  deriving DecidableEq, Repr

structure State where
  currentSession : Option AuthSession
  refreshInFlight : Option Nat
  cookie : Option String
  clock : Int
  state : Option AuthState
  checkedAt : Int
  inFlight : Option Nat
  revision : Nat
  requests : Nat → Option Request
  resolves : Nat → Option Resolve
  signOuts : Nat

inductive Label where
  | getSession (id : Nat)
  | refreshAfterUnauthorized (rejectedAccessToken : String) (id : Nat)
  | login (id : Nat)
  | logout (id : Nat) (csrfToken : Option String)
  /-- The response of a request arrives. -/
  | respond (id : Nat) (status : Nat)
  /-- The body of a response is read: a session, or something else. -/
  | body (id : Nat) (payload : Option AuthSession)
  /-- The network fails. -/
  | reject (id : Nat)
  | catchError (id : Nat)
  | finallyRefresh (id : Nat)
  /-- A form goes on after its login. -/
  | continueLogin (id : Nat)
  | resolve (id : Nat) (request : Nat)
  /-- A call of `resolve` goes on; `next` and `request` are for the call it may make. -/
  | continueResolve (id : Nat) (next : Nat) (request : Nat)
  | finallyResolve (id : Nat)
  | setAnonymous
  | invalidate
  /-- The user's settings have changed the account. -/
  | updateUser (user : AuthenticatedUser)
  | setCookie (cookie : Option String)
  | tick (now : Int)

namespace State

def initial (cookie : Option String) (now : Int) : State where
  currentSession := none
  refreshInFlight := none
  cookie := cookie
  clock := now
  state := none
  checkedAt := 0
  inFlight := none
  revision := 0
  requests _ := none
  resolves _ := none
  signOuts := 0

/-- `publishAuthSession` with `applySession`, which listens to it. -/
def publishAuthSession (s : State) (session : Option AuthSession) : State :=
  { s with
    currentSession := session
    state := some (session.elim .anonymous .authenticated)
    checkedAt := s.clock }

def signOut (s : State) : State := { s with signOuts := s.signOuts + 1 }

def setRequest (s : State) (id : Nat) (request : Request) : State :=
  { s with requests := Function.update s.requests id (some request) }

/-- The CSRF token that a refresh or a logout sends; an empty one counts as none. -/
def csrfToken (s : State) (given : Option String) : Option String :=
  ((given.or (s.currentSession.map (·.csrfToken))).or s.cookie).filter (· ≠ "")

/-- With the promise it returns. -/
def refreshSession (s : State) (id : Nat) : Option (State × Option Nat) :=
  match s.refreshInFlight with
  | some request => some (s, some request)
  | none =>
      if s.csrfToken none = none then some (s.publishAuthSession none, none)
      else if (s.requests id).isSome then none
      else some ({ s.setRequest id ⟨.refresh, s.signOuts, .fetching⟩ with refreshInFlight := some id }, some id)

def refreshAfterUnauthorized (s : State) (rejectedAccessToken : String) (id : Nat) : Option State :=
  if s.currentSession.any (·.accessToken ≠ rejectedAccessToken) then some s
  else (s.refreshSession id).map (·.1)

def login (s : State) (id : Nat) : Option State :=
  if (s.requests id).isSome then none else some (s.setRequest id ⟨.login, s.signOuts, .fetching⟩)

def logout (s : State) (id : Nat) (csrfToken : Option String) : Option State :=
  if s.csrfToken csrfToken = none then some (s.publishAuthSession none).signOut
  else if (s.requests id).isSome then none
  else some (s.setRequest id ⟨.logout, s.signOuts, .fetching⟩)

/-- Statuses from 200 to 299 are `ok`. -/
def respond (s : State) (id : Nat) (status : Nat) : Option State :=
  ((s.requests id).filter (·.phase = .fetching)).map fun request =>
    let goTo := fun phase => s.setRequest id { request with phase := phase }
    match request.endpoint with
    | .refresh =>
        if status = 401 then (goTo (.finishing (.returned none))).publishAuthSession none
        else if 200 ≤ status ∧ status < 300 then goTo .readingBody
        else goTo .throwing
    | .login => if 200 ≤ status ∧ status < 300 then goTo .readingBody else goTo .throwing
    | .logout =>
        if status = 401 ∨ status = 204 then ((goTo (.settled (.returned none))).publishAuthSession none).signOut
        else goTo .throwing

/-- `parseSessionResponse` after the body is read. -/
def body (s : State) (id : Nat) (payload : Option AuthSession) : Option State :=
  ((s.requests id).filter (·.phase = .readingBody)).map fun request =>
    match payload with
    | none => s.setRequest id { request with phase := .throwing }
    | some session =>
        let session := { session with request := id }
        let outcome := Outcome.returned (some session)
        (s.setRequest id { request with
            phase := if request.endpoint = .refresh then .finishing outcome else .settled outcome }).publishAuthSession
          (some session)

def reject (s : State) (id : Nat) : Option State :=
  ((s.requests id).filter fun request => request.phase = .fetching ∨ request.phase = .readingBody).map fun request =>
    s.setRequest id { request with phase := .throwing }

def catchError (s : State) (id : Nat) : Option State :=
  ((s.requests id).filter (·.phase = .throwing)).map fun request =>
    if request.endpoint = .refresh then
      (s.setRequest id { request with phase := .finishing .threw }).publishAuthSession none
    else s.setRequest id { request with phase := .settled .threw }

def finallyRefresh (s : State) (id : Nat) : Option State :=
  (s.requests id).bind fun request =>
    match request.phase with
    | .finishing outcome =>
        some { s.setRequest id { request with phase := .settled outcome } with
          refreshInFlight := s.refreshInFlight.filter (· ≠ id) }
    | _ => none

def setAuthenticated (s : State) (session : AuthSession) : State :=
  { s with
    revision := s.revision + 1
    state := some (.authenticated session)
    checkedAt := s.clock
    currentSession := some session }

def continueLogin (s : State) (id : Nat) : Option State :=
  (s.requests id).bind fun request =>
    match request.endpoint, request.phase with
    | .login, .settled (.returned (some session)) =>
        some ((s.setRequest id { request with phase := .continued }).setAuthenticated session)
    | _, _ => none

def hasFreshState (s : State) : Bool :=
  s.state.any fun state =>
    decide (s.clock - s.checkedAt < sessionCacheTtlMs) &&
      match state with
      | .authenticated session => session.idleExpiresAt.any (· > s.clock)
      | _ => true

/-- A call that finds a fresh state or another call in flight leaves no trace. -/
def resolve (s : State) (id : Nat) (request : Nat) : Option State :=
  if s.hasFreshState ∨ s.inFlight.isSome then some s
  else if (s.resolves id).isSome then none
  else
    (s.refreshSession request).map fun result =>
      { result.1 with
        resolves := Function.update result.1.resolves id (some ⟨s.revision, result.2, false⟩)
        inFlight := some id }

/-- The outcome of the promise that a call of `resolve` waits for, once it is settled. -/
def awaited (s : State) (resolve : Resolve) : Option Outcome :=
  match resolve.request with
  | none => some (.returned none)
  | some id =>
      (s.requests id).bind fun request =>
        match request.phase with
        | .settled outcome => some outcome
        | _ => none

def stateOf : Outcome → AuthState
  | .returned (some session) => .authenticated session
  | .returned none => .anonymous
  | .threw => .unavailable

def continueResolve (s : State) (id next request : Nat) : Option State :=
  ((s.resolves id).filter (·.continued = false)).bind fun call =>
    (s.awaited call).bind fun outcome =>
      let after := { s with resolves := Function.update s.resolves id (some { call with continued := true }) }
      if call.revision ≠ s.revision then
        if s.state.isSome then some after else after.resolve next request
      else some { after with state := some (stateOf outcome), checkedAt := s.clock }

def finallyResolve (s : State) (id : Nat) : Option State :=
  ((s.resolves id).filter (·.continued)).map fun _ => { s with inFlight := s.inFlight.filter (· ≠ id) }

def setAnonymous (s : State) : State :=
  signOut { s with
    revision := s.revision + 1
    state := some .anonymous
    checkedAt := s.clock
    currentSession := none }

def invalidate (s : State) : State :=
  { s with
    revision := s.revision + 1
    state := none
    checkedAt := 0
    inFlight := none
    currentSession := none }

def updateUser (s : State) (user : AuthenticatedUser) : State :=
  match s.state with
  | some (.authenticated session) => s.setAuthenticated { session with user := user }
  | _ => s

def step (s : State) : Label → Option State
  | .getSession id => (s.refreshSession id).map (·.1)
  | .refreshAfterUnauthorized rejectedAccessToken id => s.refreshAfterUnauthorized rejectedAccessToken id
  | .login id => s.login id
  | .logout id csrfToken => s.logout id csrfToken
  | .respond id status => s.respond id status
  | .body id payload => s.body id payload
  | .reject id => s.reject id
  | .catchError id => s.catchError id
  | .finallyRefresh id => s.finallyRefresh id
  | .continueLogin id => s.continueLogin id
  | .resolve id request => s.resolve id request
  | .continueResolve id next request => s.continueResolve id next request
  | .finallyResolve id => s.finallyResolve id
  | .setAnonymous => some s.setAnonymous
  | .invalidate => some s.invalidate
  | .updateUser user => some (s.updateUser user)
  | .setCookie cookie => some { s with cookie := cookie }
  | .tick now => some { s with clock := now }

end State

end Transcendence.Session
