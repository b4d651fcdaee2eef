import Mathlib.Data.List.MinMax
import Transcendence.Base.Table
import Transcendence.Base.Transactions

/-!
# The store of refresh-token families

The tables and the calls of `store.go` that create, rotate, read and revoke refresh-token families.
A call that opens a transaction is the tree of its statements; a call of one statement is a function
of the database. What a call gets from outside, the clocks, `randomToken` and `uuid`, is part of its
request. The digest and the cipher are those of the standard library.

Instants and durations are in nanoseconds, as in Go.
-/

namespace Transcendence.Auth

def second : Nat := 1000000000

/-- What a `TIMESTAMP(3)` column keeps of an instant: pgx sends its microseconds, and PostgreSQL
rounds them to the nearest millisecond. -/
def timestamp3 (t : Nat) : Nat := (t / 1000 + 500) / 1000 * 1000000

theorem timestamp3_mono {s t : Nat} (h : s ≤ t) : timestamp3 s ≤ timestamp3 t := by
  unfold timestamp3
  omega

def refreshTokenGrace : Nat := 5 * second

/-! ### Tables -/

inductive AccountStatus where
  | ACTIVE
  | PENDING_APPROVAL
  | DISABLED
  deriving DecidableEq, Repr

inductive AuthProvider where
  | LOCAL
  | FORTY_TWO
  | GOOGLE
  deriving DecidableEq, Repr

inductive GlobalRole where
  | USER
  | PLATFORM_ADMIN
  deriving DecidableEq, Repr

structure User where
  id : String
  email : String
  emailVerified : Bool
  username : String
  firstName : Option String
  lastName : Option String
  avatarUrl : Option String
  campus : Option String
  status : AccountStatus
  globalRole : GlobalRole
  deriving DecidableEq, Repr

structure RefreshTokenFamilyRow where
  id : String
  userId : String
  authenticationMethod : AuthProvider
  assuranceLevel : Nat
  csrfTokenHash : String
  authenticatedAt : Nat
  lastUsedAt : Nat
  idleExpiresAt : Nat
  absoluteExpiresAt : Nat
  revokedAt : Option Nat
  revokedReason : Option String
  ipHash : Option String
  userAgentHash : Option String
  createdAt : Nat
  updatedAt : Nat
  deriving DecidableEq, Repr

/-- The CHECK constraints of the table. -/
def RefreshTokenFamilyRow.isValid (row : RefreshTokenFamilyRow) : Bool :=
  0 < row.assuranceLevel && row.idleExpiresAt ≤ row.absoluteExpiresAt &&
    (row.revokedReason.isNone || row.revokedAt.isSome)

structure AuthRefreshTokenRow where
  id : String
  familyId : String
  tokenHash : String
  issuedAt : Nat
  usedAt : Option Nat
  replacedAt : Option Nat
  graceExpiresAt : Option Nat
  successorCiphertext : Option String
  expiresAt : Nat
  replacedById : Option String
  deriving DecidableEq, Repr

/-- The CHECK constraints of the table. -/
def AuthRefreshTokenRow.isValid (row : AuthRefreshTokenRow) : Bool :=
  row.issuedAt < row.expiresAt && row.usedAt.all (row.issuedAt ≤ ·) && row.replacedAt.all (row.issuedAt ≤ ·) &&
    row.graceExpiresAt.all (row.issuedAt ≤ ·)

structure AuthEventRow where
  userId : String
  eventType : String
  provider : AuthProvider
  sessionId : String
  createdAt : Nat
  deriving DecidableEq, Repr

structure WebSocketTicketRow where
  id : String
  ticketHash : String
  userId : String
  refreshFamilyId : String
  audience : String
  issuedAt : Nat
  expiresAt : Nat
  consumedAt : Option Nat
  deriving DecidableEq, Repr

structure Database where
  users : List User
  families : List RefreshTokenFamilyRow
  tokens : List AuthRefreshTokenRow
  tickets : List WebSocketTicketRow
  events : List AuthEventRow
  deriving DecidableEq, Repr

/-! ### What the calls return -/

structure RefreshFamily where
  id : String
  user : User
  authenticationMethod : AuthProvider
  assuranceLevel : Nat
  authenticatedAt : Nat
  idleExpiresAt : Nat
  absoluteExpiresAt : Nat
  csrfTokenHash : String
  deriving DecidableEq, Repr

structure CreatedRefreshSession where
  family : RefreshFamily
  refreshToken : String
  csrfToken : String
  deriving DecidableEq, Repr

inductive StoreError where
  | notFound
  | csrf
  | replay
  | failed (message : String)
  deriving DecidableEq, Repr

/-- `refreshTokenCipher`: what it seals it opens again, unless it is empty. -/
structure RefreshTokenCipher where
  encrypt : (nonce token : String) → String
  decrypt : String → Option String
  decrypt_encrypt : ∀ nonce token, token ≠ "" → decrypt (encrypt nonce token) = some token

structure Store where
  hashToken : String → String
  refreshCipher : Option RefreshTokenCipher

/-- What `randomToken` returns is the base64 of its bytes. -/
structure RandomToken where
  value : String
  nonempty : value ≠ ""
  deriving DecidableEq

structure CreateRequest where
  user : User
  method : AuthProvider
  idleTimeout : Nat
  absoluteTimeout : Nat
  ipHash : Option String
  userAgentHash : Option String
  now : Nat
  token : RandomToken
  csrfToken : RandomToken
  id : String
  tokenId : String
  deriving DecidableEq

structure RotateRequest where
  token : String
  csrfToken : String
  idleTimeout : Nat
  now : Nat
  databaseNow : Nat
  newToken : RandomToken
  newID : String
  nonce : String
  deriving DecidableEq

structure RevokeRequest where
  token : String
  csrfToken : String
  reason : String
  now : Nat
  databaseNow : Nat
  deriving DecidableEq, Repr

/-! ### Statements -/

/-- The row that the update of `RotateRefreshToken` makes of a token. -/
def AuthRefreshTokenRow.replaced (token : AuthRefreshTokenRow) (now : Nat) (successorCiphertext newID : String) :
    AuthRefreshTokenRow :=
  { token with
    usedAt := some (timestamp3 now)
    replacedAt := some (timestamp3 now)
    graceExpiresAt := some (timestamp3 (now + refreshTokenGrace))
    successorCiphertext := some successorCiphertext
    replacedById := some newID }

/-- A row of the join of a token, its family and its user. -/
structure RefreshRow where
  token : AuthRefreshTokenRow
  family : RefreshTokenFamilyRow
  user : User
  deriving DecidableEq, Repr

/-- The columns of the family and of the user that the queries scan. -/
def RefreshRow.refreshFamily (row : RefreshRow) : RefreshFamily where
  id := row.family.id
  user := row.user
  authenticationMethod := row.family.authenticationMethod
  assuranceLevel := row.family.assuranceLevel
  authenticatedAt := row.family.authenticatedAt
  idleExpiresAt := row.family.idleExpiresAt
  absoluteExpiresAt := row.family.absoluteExpiresAt
  csrfTokenHash := row.family.csrfTokenHash

/-- The family is not revoked and not expired, and its user is active. -/
def RefreshRow.isLive (row : RefreshRow) (now : Nat) : Bool :=
  row.family.revokedAt.isNone && now < row.family.idleExpiresAt &&
    now < row.family.absoluteExpiresAt && row.user.status = .ACTIVE

namespace Database

def findUser (db : Database) (id : String) : Option User := db.users.find? (·.id = id)

def findFamily (db : Database) (id : String) : Option RefreshTokenFamilyRow :=
  db.families.find? (·.id = id)

def findToken (db : Database) (tokenHash : String) : Option AuthRefreshTokenRow :=
  db.tokens.find? (·.tokenHash = tokenHash)

def findRefresh (db : Database) (tokenHash : String) : Option RefreshRow :=
  (db.findToken tokenHash).bind fun token =>
    (db.findFamily token.familyId).bind fun family =>
      (db.findUser family.userId).map fun user => ⟨token, family, user⟩

/-- What the locking query returns: the family as it is under the lock, the token and the user as
the snapshot has them. -/
def reread (snapshot db : Database) (tokenHash : String) : Option RefreshRow :=
  (snapshot.findRefresh tokenHash).bind fun row =>
    (db.findFamily row.family.id).map fun family => { row with family }

def insertFamily (db : Database) (row : RefreshTokenFamilyRow) : Option Database :=
  if row.id ∈ db.families.map (·.id) ∨ row.userId ∉ db.users.map (·.id) ∨ row.isValid = false then none
  else some { db with families := db.families ++ [row] }

def insertToken (db : Database) (row : AuthRefreshTokenRow) : Option Database :=
  if row.id ∈ db.tokens.map (·.id) ∨ row.tokenHash ∈ db.tokens.map (·.tokenHash) ∨
      row.familyId ∉ db.families.map (·.id) ∨ row.isValid = false then none
  else some { db with tokens := db.tokens ++ [row] }

def clearExpiredSuccessors (db : Database) (now : Nat) : Database :=
  { db with
    tokens := Table.update
      (fun token => token.successorCiphertext.isSome && token.graceExpiresAt.any (· ≤ now))
      ({ · with successorCiphertext := none }) db.tokens }

/-- `ORDER BY "issuedAt" DESC LIMIT 1` -/
def head (db : Database) (familyId : String) : Option AuthRefreshTokenRow :=
  (db.tokens.filter fun token => token.familyId = familyId && token.replacedById.isNone).argmax
    (·.issuedAt)

/-- The tokens as the update of `RotateRefreshToken` leaves them. -/
def replaceTokens (db : Database) (id : String) (now : Nat) (successorCiphertext newID : String) :
    Database :=
  { db with
    tokens := Table.update (fun token => token.id = id && token.replacedById.isNone)
      (·.replaced now successorCiphertext newID) db.tokens }

/-- The update, which the database refuses if a row it changes breaks a constraint. -/
def replaceToken (db : Database) (id : String) (now : Nat) (successorCiphertext newID : String) :
    Option Database :=
  if db.tokens.any fun token =>
      token.id = id && token.replacedById.isNone && !(token.replaced now successorCiphertext newID).isValid then none
  else some (db.replaceTokens id now successorCiphertext newID)

/-- How many rows `replaceToken` changes. -/
def replaceableTokens (db : Database) (id : String) : Nat :=
  db.tokens.countP fun token => token.id = id && token.replacedById.isNone

/-- The constraints of the table still hold, as the new expiry is at most the absolute one. -/
def updateActivity (db : Database) (id : String) (now idleExpiresAt : Nat) : Database :=
  { db with
    families := Table.update (·.id = id)
      ({ · with
        lastUsedAt := timestamp3 now
        idleExpiresAt := timestamp3 idleExpiresAt
        updatedAt := timestamp3 now }) db.families }

/-- The update that revokes the live families among some. -/
def revokeFamilies (db : Database) (among : RefreshTokenFamilyRow → Bool) (reason : String)
    (databaseNow : Nat) : Database :=
  { db with
    families := Table.update (fun family => among family && family.revokedAt.isNone)
      ({ · with
        revokedAt := some (timestamp3 databaseNow)
        revokedReason := some reason
        updatedAt := timestamp3 databaseNow }) db.families }

def recordReplay (db : Database) (row : RefreshRow) (databaseNow : Nat) : Database :=
  { db with
    events := db.events ++ [⟨row.user.id, "REFRESH_REPLAY_DETECTED", row.family.authenticationMethod,
      row.family.id, timestamp3 databaseNow⟩] }

end Database

/-! ### Calls -/

abbrev Call := Transaction Database String (Except StoreError CreatedRefreshSession)

inductive RefreshUse where
  | refreshReplay
  | refreshCurrent
  | refreshGrace
  deriving DecidableEq, Repr

def classifyRefreshUse (incomingID : String) (replacedByID : Option String) (headID : String)
    (graceExpiresAt : Option Nat) (now : Nat) : RefreshUse :=
  if incomingID = headID ∧ replacedByID = none then .refreshCurrent
  else if replacedByID = some headID ∧ graceExpiresAt.any (now < ·) then .refreshGrace
  else .refreshReplay

namespace Store

def verifyTokenHash (store : Store) (token expectedHash : String) : Bool :=
  store.hashToken token = expectedHash

def fail (message : String) : Call := .rollback (.error (.failed message))

def createdFamily (store : Store) (r : CreateRequest) : RefreshFamily where
  id := r.id
  user := r.user
  authenticationMethod := r.method
  assuranceLevel := 1
  authenticatedAt := r.now
  idleExpiresAt := r.now + r.idleTimeout
  absoluteExpiresAt := r.now + r.absoluteTimeout
  csrfTokenHash := store.hashToken r.csrfToken.value

def createRefreshFamily (store : Store) (r : CreateRequest) : Call :=
  let family := store.createdFamily r
  .execute
    (·.insertFamily {
      id := family.id
      userId := family.user.id
      authenticationMethod := family.authenticationMethod
      assuranceLevel := family.assuranceLevel
      csrfTokenHash := family.csrfTokenHash
      authenticatedAt := timestamp3 family.authenticatedAt
      lastUsedAt := timestamp3 family.authenticatedAt
      idleExpiresAt := timestamp3 family.idleExpiresAt
      absoluteExpiresAt := timestamp3 family.absoluteExpiresAt
      revokedAt := none
      revokedReason := none
      ipHash := r.ipHash
      userAgentHash := r.userAgentHash
      createdAt := timestamp3 family.authenticatedAt
      updatedAt := timestamp3 family.authenticatedAt })
    (fail "create refresh family")
    (.execute
      (·.insertToken {
        id := r.tokenId
        familyId := family.id
        tokenHash := store.hashToken r.token.value
        issuedAt := timestamp3 family.authenticatedAt
        usedAt := none
        replacedAt := none
        graceExpiresAt := none
        successorCiphertext := none
        expiresAt := timestamp3 family.idleExpiresAt
        replacedById := none })
      (fail "create initial refresh token")
      (.commit (.ok ⟨family, r.token.value, r.csrfToken.value⟩)))

/-- The branch of `RotateRefreshToken` for the immediate predecessor of the current token. -/
def recoverSuccessor (store : Store) (r : RotateRequest) (row : RefreshRow)
    (head : AuthRefreshTokenRow) : Call :=
  match row.token.successorCiphertext, store.refreshCipher with
  | some successorCiphertext, some refreshCipher =>
      match refreshCipher.decrypt successorCiphertext with
      | none => fail "decrypt refresh successor"
      | some successor => .select fun db =>
          match db.tokens.find? (·.id = head.id) with
          | none => fail "load refresh successor hash"
          | some stored =>
              if !store.verifyTokenHash successor stored.tokenHash then
                fail "refresh successor ciphertext does not match token chain"
              else if ¬r.now < head.expiresAt then .rollback (.error .notFound)
              -- the transaction is rolled back here too
              else .rollback (.ok ⟨row.refreshFamily, successor, r.csrfToken⟩)
  | _, _ => fail "refresh successor recovery is unavailable"

def revokeAfterReplay (r : RotateRequest) (row : RefreshRow) : Call :=
  .statement (·.revokeFamilies (·.userId = row.user.id) "REFRESH_TOKEN_REPLAY" r.databaseNow) fun _ =>
    .statement (·.recordReplay row r.databaseNow) fun _ => .commit (.error .replay)

/-- The branch for the current token. -/
def replaceHead (store : Store) (r : RotateRequest) (row : RefreshRow) (head : AuthRefreshTokenRow) :
    Call :=
  if ¬r.now < head.expiresAt then .rollback (.error .notFound)
  else
    match store.refreshCipher with
    | none => fail "refresh successor recovery is unavailable"
    | some refreshCipher =>
        let idleExpiresAt := min (r.now + r.idleTimeout) row.family.absoluteExpiresAt
        let successorCiphertext := refreshCipher.encrypt r.nonce r.newToken.value
        .execute
          (·.insertToken {
            id := r.newID
            familyId := row.family.id
            tokenHash := store.hashToken r.newToken.value
            issuedAt := timestamp3 r.now
            usedAt := none
            replacedAt := none
            graceExpiresAt := none
            successorCiphertext := none
            expiresAt := timestamp3 idleExpiresAt
            replacedById := none })
          (fail "insert rotated refresh token")
          (.statement (fun db => (db.replaceToken head.id r.now successorCiphertext r.newID).getD db) fun db =>
            if (db.replaceToken head.id r.now successorCiphertext r.newID).isNone then
              fail "replace current refresh token"
            else if db.replaceableTokens head.id ≠ 1 then fail "refresh token chain changed while locked"
            else
              .statement (·.updateActivity row.family.id r.now idleExpiresAt) fun _ =>
                .commit (.ok
                  ⟨{ row.refreshFamily with idleExpiresAt }, r.newToken.value, r.csrfToken⟩))

/-- What a live family does with a token: the head is locked too, but the family's lock is already on
every row of the family. -/
def useToken (store : Store) (r : RotateRequest) (row : RefreshRow) : Call :=
  .select fun db =>
    match db.head row.family.id with
    | none => fail "refresh family has no current token"
    | some head =>
        match classifyRefreshUse row.token.id row.token.replacedById head.id
            row.token.graceExpiresAt r.now with
        | .refreshGrace => store.recoverSuccessor r row head
        | .refreshReplay => revokeAfterReplay r row
        | .refreshCurrent => store.replaceHead r row head

/-- What follows the locking query. -/
def rotateLocked (store : Store) (r : RotateRequest) (row : RefreshRow) : Call :=
  .statement (·.clearExpiredSuccessors r.now) fun _ =>
    if !row.isLive r.now then .rollback (.error .notFound)
    else if !store.verifyTokenHash r.csrfToken row.family.csrfTokenHash then
      .rollback (.error .csrf)
    else store.useToken r row

def rotateRefreshToken (store : Store) (r : RotateRequest) : Call :=
  .lock (fun db => (db.findRefresh (store.hashToken r.token)).map (·.family.id)) fun snapshot db =>
    match snapshot.reread db (store.hashToken r.token) with
    | none => .rollback (.error .notFound)
    | some row => store.rotateLocked r row

def getRefreshFamily (store : Store) (db : Database) (r : RevokeRequest) :
    Except StoreError RefreshFamily :=
  match (db.findRefresh (store.hashToken r.token)).filter fun row =>
      row.token.replacedById.isNone && row.token.usedAt.isNone && r.databaseNow < row.token.expiresAt with
  | none => .error .notFound
  | some row =>
      if !row.isLive r.now then .error .notFound
      else if !store.verifyTokenHash r.csrfToken row.family.csrfTokenHash then .error .csrf
      else .ok row.refreshFamily

/-- The update of `RevokeRefreshFamily` and what it returns. -/
def revokeFound (db : Database) (family : RefreshFamily) (reason : String) (databaseNow : Nat) :
    Except StoreError RefreshFamily × Database :=
  (if db.families.any (fun row => row.id = family.id && row.revokedAt.isNone) then .ok family
    else .error .notFound,
    db.revokeFamilies (·.id = family.id) reason databaseNow)

def revokeRefreshFamily (store : Store) (db : Database) (r : RevokeRequest) :
    Except StoreError RefreshFamily × Database :=
  match store.getRefreshFamily db r with
  | .error error => (.error error, db)
  | .ok family => revokeFound db family r.reason r.databaseNow

end Store

end Transcendence.Auth
