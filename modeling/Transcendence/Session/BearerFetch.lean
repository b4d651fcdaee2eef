import Transcendence.Base.Calls
import Transcendence.Session.SessionStore

/-!
# Requests with the access token

`bearerFetch` of `lib/apiClient.ts` over the session store, for any number of calls at once. A call takes
the session of the page, or waits for a refresh to bring one, sends its request with the access token, and
after a 401 takes what `refreshAfterUnauthorized` gives it for a second request. The calls wait for the same
promises as everything else in the store, so a step of the store may let many of them go on.

Of a response only the status is read here, of a request only the access token. Three fields are not in the
program: `Fetch.attempts`, the requests that a call has sent, `Fetch.rejected`, the access token that a 401 has
refused, and `Browser.received`, the access tokens that have come to the page, the newest first.
-/

namespace Transcendence.Session

/-- What the promise of a refresh, or one of `null`, has settled to. -/
def State.promised (s : State) (promise : Option Nat) : Option Outcome :=
  s.awaited ⟨0, promise, false⟩

/-- A request that was sent, and the newest access token at that moment. -/
structure Attempt where
  accessToken : String
  newest : Option String
  deriving DecidableEq, Repr

inductive FetchResult where
  | response (status : Nat)
  /-- `ApiError` 401, as there is no session. -/
  | noSession
  | threw
  deriving DecidableEq, Repr

inductive FetchPhase where
  /-- Waits for `getSession`. -/
  | gettingSession (promise : Option Nat)
  | fetching (accessToken : String)
  /-- Waits for `refreshAfterUnauthorized`. -/
  | refreshing (promise : Option Nat)
  | retrying
  | ended (result : FetchResult)
  deriving DecidableEq, Repr

/-- The promise that a call waits for. -/
def FetchPhase.promise : FetchPhase → Option (Option Nat)
  | .gettingSession promise => some promise
  | .refreshing promise => some promise
  | _ => none

structure Fetch where
  attempts : List Attempt
  rejected : Option String
  phase : FetchPhase
  deriving DecidableEq, Repr

structure Browser where
  session : State
  fetches : Nat → Option Fetch
  received : List String

inductive BrowserLabel where
  /-- A step of the store. -/
  | store (label : Label)
  /-- A call; `request` is for the refresh that it may start. -/
  | start (id request : Nat)
  /-- What a call waits for has settled. -/
  | goOn (id : Nat)
  /-- The response to a call's request arrives. -/
  | respond (id status request : Nat)
  | fail (id : Nat)

/-- The access token that comes to the page. -/
def Label.accessToken : Label → Option String
  | .body _ (some session) => some session.accessToken
  | _ => none

namespace Browser

def initial (cookie : Option String) (now : Int) : Browser where
  session := .initial cookie now
  fetches _ := none
  received := []

def setFetch (b : Browser) (id : Nat) (fetch : Fetch) : Browser :=
  { b with fetches := Function.update b.fetches id (some fetch) }

/-- `fetchWithAccessToken` -/
def send (b : Browser) (id : Nat) (fetch : Fetch) (accessToken : String) (phase : FetchPhase) : Browser :=
  b.setFetch id { fetch with attempts := fetch.attempts ++ [⟨accessToken, b.received.head?⟩], phase := phase }

/-- `refreshAfterUnauthorized` has its only caller here, so this is no step of the store. -/
def store (b : Browser) (label : Label) : Option Browser :=
  match label with
  | .refreshAfterUnauthorized _ _ => none
  | _ => (b.session.step label).map fun session =>
      { b with session := session, received := label.accessToken.toList ++ b.received }

def start (b : Browser) (id request : Nat) : Option Browser :=
  if (b.fetches id).isSome then none
  else
    match b.session.currentSession with
    | some session => some (b.send id ⟨[], none, .gettingSession none⟩ session.accessToken (.fetching session.accessToken))
    | none =>
        (b.session.refreshSession request).map fun result =>
          { b with session := result.1 }.setFetch id ⟨[], none, .gettingSession result.2⟩

def goOn (b : Browser) (id : Nat) : Option Browser :=
  (b.fetches id).bind fun fetch =>
    match fetch.phase with
    | .gettingSession promise =>
        (b.session.promised promise).map fun outcome =>
          match outcome with
          | .returned (some session) => b.send id fetch session.accessToken (.fetching session.accessToken)
          | .returned none => b.setFetch id { fetch with phase := .ended .noSession }
          | .threw => b.setFetch id { fetch with phase := .ended .threw }
    | .refreshing promise =>
        (b.session.promised promise).map fun outcome =>
          match outcome with
          | .returned (some session) => b.send id fetch session.accessToken .retrying
          | .returned none => b.setFetch id { fetch with phase := .ended (.response 401) }
          | .threw => b.setFetch id { fetch with phase := .ended .threw }
    | _ => none

/-- A 401 to the first request, with what `refreshAfterUnauthorized` does. -/
def unauthorized (b : Browser) (id request : Nat) (fetch : Fetch) (accessToken : String) : Option Browser :=
  let rejected := { fetch with rejected := some accessToken }
  match b.session.currentSession.filter (·.accessToken ≠ accessToken) with
  | some session => some (b.send id rejected session.accessToken .retrying)
  | none =>
      (b.session.refreshSession request).map fun result =>
        { b with session := result.1 }.setFetch id { rejected with phase := .refreshing result.2 }

def respond (b : Browser) (id status request : Nat) : Option Browser :=
  (b.fetches id).bind fun fetch =>
    match fetch.phase with
    | .fetching accessToken =>
        if status ≠ 401 then some (b.setFetch id { fetch with phase := .ended (.response status) })
        else b.unauthorized id request fetch accessToken
    | .retrying => some (b.setFetch id { fetch with phase := .ended (.response status) })
    | _ => none

def fail (b : Browser) (id : Nat) : Option Browser :=
  (b.fetches id).bind fun fetch =>
    match fetch.phase with
    | .fetching _ => some (b.setFetch id { fetch with phase := .ended .threw })
    | .retrying => some (b.setFetch id { fetch with phase := .ended .threw })
    | _ => none

def step (b : Browser) : BrowserLabel → Option Browser
  | .store label => b.store label
  | .start id request => b.start id request
  | .goOn id => b.goOn id
  | .respond id status request => b.respond id status request
  | .fail id => b.fail id

end Browser

end Transcendence.Session
