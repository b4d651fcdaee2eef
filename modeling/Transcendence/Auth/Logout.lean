import Transcendence.Auth.RefreshFamilies
import Transcendence.Auth.WebSocketTickets
import Transcendence.Base.TransactionRules

/-!
# Logout

`handleLogout` looks the family of the presented token up and revokes it, in two statements beside
those of logins and refreshes. The lookup only finds a current token. A token that has been replaced,
though its session goes on, is one that is not found, and the cookies are cleared for it as they are
for a family that is revoked.
-/

namespace Transcendence.Auth

open Transaction

/-- What `IntrospectAccess` returns. -/
structure AccessState where
  id : String
  userId : String
  authenticationMethod : AuthProvider
  assuranceLevel : Nat
  authenticatedAt : Nat
  idleExpiresAt : Nat
  absoluteExpiresAt : Nat
  csrfTokenHash : String
  globalRole : GlobalRole
  deriving DecidableEq, Repr

def Database.introspectAccess (db : Database) (userID familyID : String) (databaseNow : Nat) : Except StoreError AccessState :=
  match db.findFamily familyID, db.liveUser familyID userID databaseNow with
  | some family, some user =>
      .ok {
        id := family.id
        userId := user.id
        authenticationMethod := family.authenticationMethod
        assuranceLevel := family.assuranceLevel
        authenticatedAt := family.authenticatedAt
        idleExpiresAt := family.idleExpiresAt
        absoluteExpiresAt := family.absoluteExpiresAt
        csrfTokenHash := family.csrfTokenHash
        globalRole := user.globalRole }
  | _, _ => .error .notFound

namespace Store

def revokeRow (family : RefreshFamily) (reason : String) (updatedAt : Nat) :
    Transaction Database String (Except StoreError RefreshFamily) :=
  .statement (·.revokeFamilies (·.id = family.id) reason updatedAt) fun db =>
    .commit (revokeFound db family reason updatedAt).1

/-- The update of `RevokeRefreshFamily`, which waits for the row if there is one to revoke. -/
def revokeUpdate (family : RefreshFamily) (reason : String) (updatedAt : Nat) :
    Transaction Database String (Except StoreError RefreshFamily) :=
  .lock (fun db => if db.families.any (fun row => row.id = family.id && row.revokedAt.isNone) then some family.id else none)
    fun _ _ => revokeRow family reason updatedAt

/-- What follows the lookup. -/
def revokeLookedUp (reason : String) (updatedAt : Nat) :
    Except StoreError RefreshFamily → Transaction Database String (Except StoreError RefreshFamily)
  | .error error => .rollback (.error error)
  | .ok family => revokeUpdate family reason updatedAt

/-- `RevokeRefreshFamily` with its two statements. -/
def revokeRefreshFamilyCall (store : Store) (r : RevokeRequest) (updatedAt : Nat) :
    Transaction Database String (Except StoreError RefreshFamily) :=
  .select fun db => revokeLookedUp r.reason updatedAt (store.getRefreshFamily db r)

end Store

namespace Logout

/-! ### The handler -/

/-- `updatedAt` is the time of the update. -/
structure LogoutRequest where
  origin : String
  refreshCookie : Option String
  csrfCookie : Option String
  csrfHeader : String
  now : Nat
  databaseNow : Nat
  updatedAt : Nat
  deriving DecidableEq, Repr

structure Answer where
  status : Nat
  /-- The session cookies are cleared. -/
  clears : Bool
  deriving DecidableEq, Repr

def cookieCredentials (allowsBrowserOrigin : String → Bool) (r : LogoutRequest) : Except Answer (String × String) :=
  if !allowsBrowserOrigin r.origin then .error ⟨403, false⟩
  else
    match r.refreshCookie.filter (· ≠ "") with
    | none => .error ⟨401, true⟩
    | some refreshToken =>
        match r.csrfCookie.filter (· ≠ "") with
        | none => .error ⟨401, true⟩
        | some csrfToken => if r.csrfHeader ≠ csrfToken then .error ⟨403, false⟩ else .ok (refreshToken, csrfToken)

def answerOf : Except StoreError RefreshFamily → Answer
  | .error .csrf => ⟨403, false⟩
  | .error .notFound => ⟨401, true⟩
  | .error _ => ⟨500, false⟩
  | .ok _ => ⟨204, true⟩

def handleLogout (store : Store) (allowsBrowserOrigin : String → Bool) (r : LogoutRequest) :
    Transaction Database String Answer :=
  match cookieCredentials allowsBrowserOrigin r with
  | .error answer => .rollback answer
  | .ok (refreshToken, csrfToken) =>
      (store.revokeRefreshFamilyCall ⟨refreshToken, csrfToken, "LOGOUT", r.now, r.databaseNow⟩ r.updatedAt).map answerOf

/-! ### Logins, refreshes and logouts -/

inductive Request where
  | login (r : CreateRequest)
  | refresh (r : RotateRequest)
  | logout (r : LogoutRequest)
  deriving DecidableEq

inductive Reply where
  | session (result : Except StoreError CreatedRefreshSession)
  | logout (answer : Answer)
  deriving DecidableEq

def program (store : Store) (allowsBrowserOrigin : String → Bool) : Request → Transaction Database String Reply
  | .login r => (store.createRefreshFamily r).map .session
  | .refresh r => (store.rotateRefreshToken r).map .session
  | .logout r => (handleLogout store allowsBrowserOrigin r).map .logout

abbrev LogoutServer (ι : Type) :=
  Server Request Database ι String Reply

abbrev LogoutLabel (ι : Type) :=
  Label Request ι

/-! ### What a logout is for -/

def Revoked (db : Database) (familyId : String) : Prop :=
  ∃ family, db.findFamily familyId = some family ∧ family.revokedAt.isSome

section Completeness

variable {ι : Type} [DecidableEq ι]

/-- From now on the family is revoked, and nothing that is begun for it succeeds. -/
structure SignedOut (store : Store) (allowsBrowserOrigin : String → Bool) (t : LogoutServer ι) (familyId : String)
    (u : LogoutServer ι) : Prop where
  revoked : Revoked u.db familyId
  refreshes : ∀ id r session, t.clients id = none →
    u.clients id = some ⟨.refresh r, .ended (.session (.ok session))⟩ → session.family.id ≠ familyId
  introspections : ∀ userID databaseNow, u.db.introspectAccess userID familyId databaseNow = .error .notFound
  issues : ∀ db r (statement : WebSocketTickets.Statement), statement.snapshot = u.db → r.familyId = familyId →
    (WebSocketTickets.issueWebSocketTicket store db r statement).1 = .error .notFound
  consumes : ∀ db ticket (statement : WebSocketTickets.Statement), statement.snapshot = u.db → ∀ admission,
    (WebSocketTickets.consumeWebSocketTicket store db ticket statement).1 = .ok (.admitted admission) →
      admission.refreshFamilyId ≠ familyId

/-- The request carries a token of a live family and the CSRF token of that family. -/
structure Carries (store : Store) (db : Database) (r : LogoutRequest) (row : RefreshRow) : Prop where
  token : ∃ token, r.refreshCookie = some token ∧ db.findRefresh (store.hashToken token) = some row
  live : row.isLive r.now
  csrf : ∃ csrfToken, (r.csrfCookie = some csrfToken ∨ r.csrfHeader = csrfToken) ∧
    store.verifyTokenHash csrfToken row.family.csrfTokenHash

/-- The token is the current one of a live family. -/
def IsCurrent (row : RefreshRow) (r : LogoutRequest) : Prop :=
  row.token.replacedById = none ∧ row.token.usedAt = none ∧ r.databaseNow < row.token.expiresAt ∧ row.isLive r.now

/-- The session cookies that a logout comes with. -/
def HasCookies (r : LogoutRequest) : Prop :=
  (∃ token, r.refreshCookie = some token ∧ token ≠ "") ∧ ∃ token, r.csrfCookie = some token ∧ token ≠ ""

/-- The logout has both cookies, and its lookup finds the token to be current unless the family has been
revoked by then. -/
def FindsCurrent (store : Store) (allowsBrowserOrigin : String → Bool) (id : ι) (s : LogoutServer ι) :
    LogoutLabel ι → Prop
  | .begin other (.logout r) => other = id → HasCookies r
  | .advance other => other = id → ∀ r,
      s.clients id = some ⟨.logout r, .running (program store allowsBrowserOrigin (.logout r)) []⟩ →
        ∀ token, r.refreshCookie = some token → ∀ row, s.db.findRefresh (store.hashToken token) = some row →
          row.family.revokedAt.isSome ∨ IsCurrent row r
  | _ => True

/-- Once the logout has answered by clearing the cookies, its family is signed out for good. -/
def Completes (store : Store) (allowsBrowserOrigin : String → Bool) (id : ι) (r : LogoutRequest) (familyId : String)
    (t : LogoutServer ι) : Prop :=
  ∀ answer, t.clients id = some ⟨.logout r, .ended (.logout answer)⟩ → answer.clears = true →
    ∀ later u, Runs.run (Server.step (program store allowsBrowserOrigin)) t later = some u →
      SignedOut store allowsBrowserOrigin t familyId u

end Completeness

end Logout

end Transcendence.Auth
