import Transcendence.Auth.LogoutRuns
import Transcendence.Auth.MintedTokens

/-!
# The access tokens of a session

Logins and refreshes have an access token minted for the family that the store returns, and
`validateAccess` compares what the token says with the family in the database. The instant of the login
gets there on two ways: the token of the login itself has the clock's, to the second, and the database
has it to the nearest millisecond. So the second may differ, by one, if the login is in the last half
millisecond of its second, and the first token of such a session is refused. The tokens of its refreshes
are not, as they have the database's instant.
-/

namespace Transcendence.Auth.SessionTokens

open AccessTokens
open Base64 (RawURLEncoding)
open GoTime (Time)
open Logout
open Transaction
open Utf8 (ofString toString? sanitize)

/-- An instant in nanoseconds since 1970. -/
def instant (t : Nat) : Time :=
  { Time.ofUnix (t / second : Nat) with
    nanoseconds := t % second
    nanoseconds_lt := Nat.mod_lt t (by decide) }

def providerText : AuthProvider → String
  | .LOCAL => "LOCAL"
  | .FORTY_TWO => "FORTY_TWO"
  | .GOOGLE => "GOOGLE"

def roleText : GlobalRole → String
  | .USER => "USER"
  | .PLATFORM_ADMIN => "PLATFORM_ADMIN"

def assuranceName (level : Nat) : String :=
  "aal" ++ toString level

/-! ### The server -/

def mintRequest (family : RefreshFamily) (lifetime : Int) : MintRequest where
  subject := ofString family.user.id
  sessionID := ofString family.id
  tokenID := []
  authenticationMethod := ofString (providerText family.authenticationMethod)
  assuranceLevel := ofString (assuranceName family.assuranceLevel)
  globalRoles := [ofString (roleText family.user.globalRole)]
  authenticationTime := instant family.authenticatedAt
  lifetime := lifetime

def mintAccessToken (verify : Verifier) (s : Service) (signer : Signer) (provider : PublicKeyProvider) (clock : Time)
    (random : Except String RandomBytes) (lifetime : Int) (family : RefreshFamily) : Except MintError Bytes :=
  mint verify s signer provider clock random (mintRequest family lifetime)

inductive AccessError where
  /-- `errAccessInvalid` -/
  | invalid
  /-- `errAccessInactive` -/
  | inactive
  | failed
  deriving DecidableEq

/-- The state of the family still is what the token says. -/
def Unchanged (claims : Claims) (state : AccessState) : Prop :=
  claims.authenticationMethod = ofString (providerText state.authenticationMethod) ∧
    claims.assuranceLevel = ofString (assuranceName state.assuranceLevel) ∧
      claims.authenticationTime.unix = (instant state.authenticatedAt).truncate.unix

instance (claims : Claims) (state : AccessState) : Decidable (Unchanged claims state) :=
  inferInstanceAs (Decidable (_ ∧ _ ∧ _))

def validateAccess (verify : Verifier) (s : Service) (provider : PublicKeyProvider) (now : Time) (db : Database)
    (databaseNow : Nat) (compact : Bytes) : Except AccessError (Claims × AccessState) :=
  match validate verify s provider now compact with
  | .error error => if isInvalid error then .error .invalid else .error .failed
  | .ok claims =>
      match toString? claims.subject, toString? claims.sessionID with
      | some userID, some familyID =>
          match db.introspectAccess userID familyID databaseNow with
          | .error .notFound => .error .inactive
          | .error _ => .error .failed
          | .ok state => if Unchanged claims state then .ok (claims, state) else .error .inactive
      | _, _ => .error .failed

/-! ### Where a family comes from -/

/-- The columns that stay as the login has them. -/
structure FromLogin (r : CreateRequest) (row : RefreshTokenFamilyRow) : Prop where
  userId : row.userId = r.user.id
  authenticationMethod : row.authenticationMethod = r.method
  assuranceLevel : row.assuranceLevel = 1
  authenticatedAt : row.authenticatedAt = timestamp3 r.now

/-- Every family is that of the login with its id. -/
def Origin (loginOf : String → CreateRequest) (db : Database) : Prop :=
  ∀ row ∈ db.families, FromLogin (loginOf row.id) row

/-- The instant of the login, as the token for this request has it. -/
def authenticated (request : Request) (r : CreateRequest) : Nat :=
  match request with
  | .login _ => r.now
  | _ => timestamp3 r.now

/-- What the store returns is that of the login with its id. -/
structure Issued (loginOf : String → CreateRequest) (request : Request) (family : RefreshFamily) : Prop where
  user : family.user.id = (loginOf family.id).user.id
  authenticationMethod : family.authenticationMethod = (loginOf family.id).method
  assuranceLevel : family.assuranceLevel = 1
  authenticatedAt : family.authenticatedAt = authenticated request (loginOf family.id)
  login : ∀ r, request = .login r → loginOf family.id = r
  created : ∀ r, request = .login r → family.id = r.id ∧ family.user = r.user

def ReturnsIssued (loginOf : String → CreateRequest) (request : Request) (reply : Reply) : Prop :=
  ∀ session, reply = .session (.ok session) → Issued loginOf request session.family

section

variable {store : Store} {loginOf : String → CreateRequest} {db : Database}

theorem returnsIssued_error (request : Request) (error : StoreError) :
    ReturnsIssued loginOf request (.session (.error error)) := by
  intro session h
  cases h

theorem within_fail (request : Request) (message : String) :
    (Store.fail message).Within (Origin loginOf) fun result => ReturnsIssued loginOf request (.session result) :=
  returnsIssued_error request _

theorem origin_insertFamily {row : RefreshTokenFamilyRow} (hrow : FromLogin (loginOf row.id) row) {inserted : Database}
    (h : Origin loginOf db) (hinserted : db.insertFamily row = some inserted) : Origin loginOf inserted := by
  obtain ⟨-, -, -, rfl⟩ := Database.insertFamily_eq_some.mp hinserted
  intro other hother
  cases List.mem_append.mp hother with
  | inl hold => exact h other hold
  | inr hnew =>
      rw [List.mem_singleton.mp hnew]
      exact hrow

theorem origin_insertToken {token : AuthRefreshTokenRow} {inserted : Database} (h : Origin loginOf db)
    (hinserted : db.insertToken token = some inserted) : Origin loginOf inserted := by
  obtain ⟨-, -, -, -, rfl⟩ := Database.insertToken_eq_some.mp hinserted
  exact h

theorem origin_replaceToken (id : String) (now : Nat) (ciphertext newID : String) (h : Origin loginOf db) :
    Origin loginOf ((db.replaceToken id now ciphertext newID).getD db) := by
  cases hreplaced : db.replaceToken id now ciphertext newID with
  | none => exact h
  | some replaced =>
      rw [Option.getD_some, (Database.replaceToken_eq_some.mp hreplaced).2]
      exact h

/-- An update that leaves the columns of the login. -/
theorem origin_updateFamilies (among : RefreshTokenFamilyRow → Bool) (f : RefreshTokenFamilyRow → RefreshTokenFamilyRow)
    (hid : ∀ row, (f row).id = row.id) (hf : ∀ r row, FromLogin r row → FromLogin r (f row)) (h : Origin loginOf db) :
    Origin loginOf { db with families := Table.update among f db.families } := by
  intro row hrow
  obtain ⟨old, hold, rfl⟩ := Table.mem_update.mp hrow
  split
  · rw [hid]
    exact hf _ old (h old hold)
  · exact h old hold

theorem origin_revokeFamilies (among : RefreshTokenFamilyRow → Bool) (reason : String) (databaseNow : Nat)
    (h : Origin loginOf db) : Origin loginOf (db.revokeFamilies among reason databaseNow) :=
  origin_updateFamilies _ _ (fun _ => rfl) (fun _ _ hrow => ⟨hrow.1, hrow.2, hrow.3, hrow.4⟩) h

theorem origin_updateActivity (id : String) (now idleExpiresAt : Nat) (h : Origin loginOf db) :
    Origin loginOf (db.updateActivity id now idleExpiresAt) :=
  origin_updateFamilies _ _ (fun _ => rfl) (fun _ _ hrow => ⟨hrow.1, hrow.2, hrow.3, hrow.4⟩) h

theorem within_createRefreshFamily {r : CreateRequest} (hlogin : loginOf r.id = r) :
    (store.createRefreshFamily r).Within (Origin loginOf) fun result => ReturnsIssued loginOf (.login r) (.session result) := by
  apply within_execute
  · intro db inserted h hinserted
    refine origin_insertFamily ?_ h hinserted
    show FromLogin (loginOf r.id) _
    rw [hlogin]
    exact ⟨rfl, rfl, rfl, rfl⟩
  · exact within_fail _ _
  · apply within_execute
    · intro db inserted h hinserted
      exact origin_insertToken h hinserted
    · exact within_fail _ _
    · intro session h
      cases h
      have hsame : loginOf (store.createdFamily r).id = r := hlogin
      refine ⟨?_, ?_, rfl, ?_, ?_, ?_⟩
      · rw [hsame]
        rfl
      · rw [hsame]
        rfl
      · rw [hsame]
        rfl
      · intro r' hr'
        cases hr'
        exact hsame
      · intro r' hr'
        cases hr'
        exact ⟨rfl, rfl⟩

/-- A row that is read back under the lock. -/
structure RowFromLogin (loginOf : String → CreateRequest) (row : RefreshRow) : Prop where
  family : FromLogin (loginOf row.family.id) row.family
  user : row.user.id = row.family.userId

theorem rowFromLogin_of_reread {snapshot : Database} (hsnapshot : Origin loginOf snapshot) (h : Origin loginOf db)
    {tokenHash : String} {row : RefreshRow} (hrow : snapshot.reread db tokenHash = some row) : RowFromLogin loginOf row := by
  obtain ⟨first, hfirst, hrow⟩ := Option.bind_eq_some_iff.mp hrow
  obtain ⟨family, hfamily, rfl⟩ := Option.map_eq_some_iff.mp hrow
  obtain ⟨-, hfound, huser⟩ := Database.findRefresh_eq_some.mp hfirst
  obtain ⟨hmem, hid⟩ := Database.findFamily_eq_some hfamily
  obtain ⟨hmem', -⟩ := Database.findFamily_eq_some hfound
  refine ⟨h family hmem, ?_⟩
  have hnew := (h family hmem).userId
  have hold := (hsnapshot first.family hmem').userId
  have huserId : first.user.id = first.family.userId := by
    have hfirst := List.find?_some huser
    exact of_decide_eq_true hfirst
  show first.user.id = family.userId
  rw [huserId, hold, hnew, hid]

theorem issued_of_row {row : RefreshRow} (h : RowFromLogin loginOf row) (r : RotateRequest) (idleExpiresAt : Nat) :
    Issued loginOf (.refresh r) { row.refreshFamily with idleExpiresAt } :=
  ⟨h.user.trans h.family.userId, h.family.authenticationMethod, h.family.assuranceLevel, h.family.authenticatedAt,
    fun _ hlogin => (by cases hlogin), fun _ hlogin => (by cases hlogin)⟩

theorem within_recoverSuccessor {row : RefreshRow} (h : RowFromLogin loginOf row) (r : RotateRequest)
    (head : AuthRefreshTokenRow) :
    (store.recoverSuccessor r row head).Within (Origin loginOf) fun result => ReturnsIssued loginOf (.refresh r) (.session result) := by
  unfold Store.recoverSuccessor
  split
  · split
    · exact within_fail _ _
    · apply within_select
      intro db _
      split
      · exact within_fail _ _
      · split
        · exact within_fail _ _
        · split
          · exact returnsIssued_error _ _
          · intro session hsession
            cases hsession
            exact issued_of_row h r _
  · exact within_fail _ _

theorem within_replaceHead {row : RefreshRow} (h : RowFromLogin loginOf row) (r : RotateRequest)
    (head : AuthRefreshTokenRow) :
    (store.replaceHead r row head).Within (Origin loginOf) fun result => ReturnsIssued loginOf (.refresh r) (.session result) := by
  unfold Store.replaceHead
  split
  · exact returnsIssued_error _ _
  · split
    · exact within_fail _ _
    · apply within_execute
      · intro db inserted horigin hinserted
        exact origin_insertToken horigin hinserted
      · exact within_fail _ _
      · refine ⟨fun _ horigin => origin_replaceToken _ _ _ _ horigin, fun db _ => ?_⟩
        dsimp only
        split
        · exact within_fail _ _
        · split
          · exact within_fail _ _
          · refine ⟨fun _ horigin => origin_updateActivity _ _ _ horigin, fun _ _ => ?_⟩
            intro session hsession
            cases hsession
            exact issued_of_row h r _

theorem within_revokeAfterReplay (row : RefreshRow) (r : RotateRequest) :
    (Store.revokeAfterReplay r row).Within (Origin loginOf) fun result => ReturnsIssued loginOf (.refresh r) (.session result) :=
  ⟨fun _ horigin => origin_revokeFamilies _ _ _ horigin,
    fun _ _ => ⟨fun _ horigin => horigin, fun _ _ => returnsIssued_error _ _⟩⟩

theorem within_rotateRefreshToken (r : RotateRequest) :
    (store.rotateRefreshToken r).Within (Origin loginOf) fun result => ReturnsIssued loginOf (.refresh r) (.session result) := by
  intro snapshot db hsnapshot hdb
  dsimp only
  split
  · exact returnsIssued_error _ _
  · rename_i row hrow
    have hfrom := rowFromLogin_of_reread hsnapshot hdb hrow
    refine ⟨fun _ horigin => horigin, fun _ _ => ?_⟩
    split
    · exact returnsIssued_error _ _
    · split
      · exact returnsIssued_error _ _
      · apply within_select
        intro db _
        split
        · exact within_fail _ _
        · split
          · exact within_recoverSuccessor hfrom r _
          · exact within_revokeAfterReplay row r
          · exact within_replaceHead hfrom r _

theorem within_revokeUpdate (r : LogoutRequest) (family : RefreshFamily) (reason : String) (updatedAt : Nat) :
    (Store.revokeUpdate family reason updatedAt).Within (Origin loginOf) fun result =>
      ReturnsIssued loginOf (.logout r) (.logout (answerOf result)) := by
  intro snapshot db _ _
  refine ⟨fun _ horigin => origin_revokeFamilies _ _ _ horigin, fun _ _ session hsession => ?_⟩
  cases hsession

theorem within_handleLogout (allowsBrowserOrigin : String → Bool) (r : LogoutRequest) :
    (handleLogout store allowsBrowserOrigin r).Within (Origin loginOf) fun result =>
      ReturnsIssued loginOf (.logout r) (.logout result) := by
  unfold handleLogout
  split
  · intro session hsession
    cases hsession
  · apply within_map
    apply within_select
    intro db _
    cases store.getRefreshFamily db _ with
    | error error =>
        intro session hsession
        cases hsession
    | ok family => exact within_revokeUpdate r _ _ _

/-- The ids of logins are taken by nobody else. -/
def Fresh {ι : Type} (loginOf : String → CreateRequest) (labels : List (LogoutLabel ι)) : Prop :=
  ∀ id r, .begin id (.login r) ∈ labels → loginOf r.id = r

theorem sound_run {ι : Type} [DecidableEq ι] {allowsBrowserOrigin : String → Bool} {users : List User}
    {labels : List (LogoutLabel ι)} (hfresh : Fresh loginOf labels) {t : LogoutServer ι}
    (hrun : Runs.run (Server.step (program store allowsBrowserOrigin)) (Server.initial ⟨users, [], [], [], []⟩) labels = some t) :
    Sound (Origin loginOf) (ReturnsIssued loginOf) t := by
  refine (sound_initial fun row hrow => absurd hrow List.not_mem_nil).run ?_ hrun
  intro id request hbegin
  cases request with
  | login r => exact within_map (within_createRefreshFamily (hfresh id r hbegin))
  | refresh r => exact within_map (within_rotateRefreshToken r)
  | logout r => exact within_map (within_handleLogout allowsBrowserOrigin r)

end

/-! ### The second of the login -/

theorem unix_instant (t : Nat) : (instant t).truncate.unix = GoTime.int64 (t / second : Nat) := by
  show GoTime.int64 (GoTime.int64 ((t / second : Nat) + Time.unixToInternal) - Time.unixToInternal) = _
  generalize ((t / second : Nat) : Int) = n
  unfold GoTime.int64 Time.unixToInternal
  omega

/-- The database's instant is in the same second or in the next. -/
theorem timestamp3_div_second (t : Nat) :
    timestamp3 t / second = if t % second < 999500000 then t / second else t / second + 1 := by
  have hsecond : second = 1000000000 := rfl
  rw [timestamp3, hsecond]
  split_ifs
  · omega
  · omega

theorem unix_timestamp3_iff (t : Nat) :
    (instant t).truncate.unix = (instant (timestamp3 t)).truncate.unix ↔ t % second < 999500000 := by
  rw [unix_instant, unix_instant, timestamp3_div_second]
  split_ifs with hsame
  · exact iff_of_true rfl hsame
  · refine iff_of_false (fun heq => ?_) hsame
    rw [Nat.cast_add, Nat.cast_one] at heq
    generalize ((t / second : Nat) : Int) = n at heq
    unfold GoTime.int64 at heq
    omega

/-- The login is not in the last half millisecond of its second. -/
def EarlyLogin (request : Request) : Prop :=
  ∀ r, request = .login r → r.now % second < 999500000

section

variable {loginOf : String → CreateRequest} {request : Request} {family : RefreshFamily} {row : RefreshTokenFamilyRow}

theorem unix_authenticated_iff (h : Issued loginOf request family) (hrow : FromLogin (loginOf family.id) row) :
    (instant family.authenticatedAt).truncate.unix = (instant row.authenticatedAt).truncate.unix ↔ EarlyLogin request := by
  rw [h.authenticatedAt, hrow.authenticatedAt, EarlyLogin]
  cases request with
  | login r =>
      have hr := h.login r rfl
      rw [hr]
      show (instant r.now).truncate.unix = _ ↔ _
      rw [unix_timestamp3_iff]
      constructor
      · intro hearly r' hr'
        cases hr'
        exact hearly
      · intro hearly
        exact hearly r rfl
  | refresh r =>
      refine iff_of_true rfl fun r' hr' => ?_
      cases hr'
  | logout r =>
      refine iff_of_true rfl fun r' hr' => ?_
      cases hr'

theorem introspectAccess_of_live {db : Database} {userId : String} {databaseNow : Nat} {user : User}
    (h : db.liveUser family.id userId databaseNow = some user) :
    ∃ row state, row ∈ db.families ∧ row.id = family.id ∧ db.introspectAccess userId family.id databaseNow = .ok state ∧
      state.userId = user.id ∧ state.authenticationMethod = row.authenticationMethod ∧
        state.assuranceLevel = row.assuranceLevel ∧ state.authenticatedAt = row.authenticatedAt := by
  have hfound := h
  rw [Database.liveUser] at hfound
  obtain ⟨row, hrow, -⟩ := Option.bind_eq_some_iff.mp hfound
  obtain ⟨hmem, hid⟩ := Database.findFamily_eq_some hrow
  have hstate : ∃ state, db.introspectAccess userId family.id databaseNow = .ok state ∧ state.userId = user.id ∧
      state.authenticationMethod = row.authenticationMethod ∧ state.assuranceLevel = row.assuranceLevel ∧
        state.authenticatedAt = row.authenticatedAt := by
    rw [Database.introspectAccess, hrow, h]
    exact ⟨_, rfl, rfl, rfl, rfl, rfl⟩
  obtain ⟨state, hstate⟩ := hstate
  exact ⟨row, state, hmem, hid, hstate⟩

/-- What the token says of the session is what the family says, up to the second of the login. -/
theorem unchanged_iff {s : Service} {provider : PublicKeyProvider} {clock : Time} {lifetime : Int} {claims : Claims}
    {state : AccessState} (hsign : ToSign s provider clock (mintRequest family lifetime) claims)
    (h : Issued loginOf request family) (hrow : FromLogin (loginOf family.id) row)
    (hmethod : state.authenticationMethod = row.authenticationMethod) (hlevel : state.assuranceLevel = row.assuranceLevel)
    (hinstant : state.authenticatedAt = row.authenticatedAt) : Unchanged (readBack claims) state ↔ EarlyLogin request := by
  have hvalid : ∀ text, sanitize (ofString text) = ofString text := fun text =>
    (Utf8.sanitize_eq_self_iff _).mpr (Utf8.valid_ofString text)
  have hclaims := hsign.eq
  have hreadMethod : (readBack claims).authenticationMethod = ofString (providerText state.authenticationMethod) := by
    rw [hclaims, hmethod, hrow.authenticationMethod, ← h.authenticationMethod]
    exact hvalid _
  have hreadLevel : (readBack claims).assuranceLevel = ofString (assuranceName state.assuranceLevel) := by
    rw [hclaims, hlevel, hrow.assuranceLevel, ← h.assuranceLevel]
    exact hvalid _
  have hreadInstant : (readBack claims).authenticationTime.unix = (instant family.authenticatedAt).truncate.unix := by
    rw [hclaims]
    rfl
  rw [Unchanged, hreadInstant, hinstant, unix_authenticated_iff h hrow]
  exact ⟨fun hunchanged => hunchanged.2.2, fun hearly => ⟨hreadMethod, hreadLevel, hearly⟩⟩

end

section

variable {ι : Type} [DecidableEq ι] {store : Store} {allowsBrowserOrigin : String → Bool} {users : List User}
  {labels : List (LogoutLabel ι)} {loginOf : String → CreateRequest} {t : LogoutServer ι} {id : ι} {request : Request}
  {session : CreatedRefreshSession}

theorem issued_of_run (hfresh : Fresh loginOf labels)
    (hrun : Runs.run (Server.step (program store allowsBrowserOrigin)) (Server.initial ⟨users, [], [], [], []⟩) labels = some t)
    (hended : t.clients id = some ⟨request, .ended (.session (.ok session))⟩) : Issued loginOf request session.family :=
  (sound_run hfresh hrun).clients id _ hended session rfl

/-- A token that is valid is looked up, and compared with the session. -/
theorem validateAccess_of_run (hfresh : Fresh loginOf labels)
    (hrun : Runs.run (Server.step (program store allowsBrowserOrigin)) (Server.initial ⟨users, [], [], [], []⟩) labels = some t)
    (hended : t.clients id = some ⟨request, .ended (.session (.ok session))⟩) {s : Service} {provider : PublicKeyProvider}
    {clock : Time} {lifetime : Int} {claims : Claims}
    (hsign : ToSign s provider clock (mintRequest session.family lifetime) claims) {databaseNow : Nat} {user : User}
    (hlive : t.db.liveUser session.family.id session.family.user.id databaseNow = some user) :
    ∃ state, state.userId = user.id ∧ (Unchanged (readBack claims) state ↔ EarlyLogin request) ∧
      ∀ verify provider' now compact, validate verify s provider' now compact = .ok (readBack claims) →
        validateAccess verify s provider' now t.db databaseNow compact =
          if Unchanged (readBack claims) state then .ok (readBack claims, state) else .error .inactive := by
  have hissued := issued_of_run hfresh hrun hended
  have hvalid : ∀ text, sanitize (ofString text) = ofString text := fun text =>
    (Utf8.sanitize_eq_self_iff _).mpr (Utf8.valid_ofString text)
  have hsubject : (readBack claims).subject = ofString session.family.user.id := by
    rw [hsign.eq]
    exact hvalid _
  have hsessionID : (readBack claims).sessionID = ofString session.family.id := by
    rw [hsign.eq]
    exact hvalid _
  obtain ⟨row, state, hrow, hid, hstate, huser, hmethod, hlevel, hinstant⟩ := introspectAccess_of_live hlive
  have hfrom : FromLogin (loginOf session.family.id) row := hid ▸ (sound_run hfresh hrun).db row hrow
  refine ⟨state, huser, unchanged_iff hsign hissued hfrom hmethod hlevel hinstant, fun verify provider' now compact h => ?_⟩
  rw [validateAccess, h]
  dsimp only
  rw [hsubject, hsessionID, Utf8.toString?_ofString, Utf8.toString?_ofString]
  dsimp only
  rw [hstate]

end

/-- A token that is minted for a session, at the login or at a refresh, is good for it while the family is
live, unless the login was in the last half millisecond of its second and the token is that of the login. -/
theorem session_token_good_iff {ι : Type} [DecidableEq ι] (store : Store) (allowsBrowserOrigin : String → Bool)
    (users : List User) (labels : List (LogoutLabel ι)) (loginOf : String → CreateRequest) (hfresh : Fresh loginOf labels)
    (t : LogoutServer ι)
    (hrun : Runs.run (Server.step (program store allowsBrowserOrigin)) (Server.initial ⟨users, [], [], [], []⟩) labels = some t)
    (id : ι) (request : Request) (session : CreatedRefreshSession)
    (hended : t.clients id = some ⟨request, .ended (.session (.ok session))⟩) (verify : Verifier) (s : Service)
    (signer : Signer) (provider provider' : PublicKeyProvider) (clock : Time) (random : Except String RandomBytes)
    (lifetime : Int) (compact : Bytes)
    (hmint : mintAccessToken verify s signer provider clock random lifetime session.family = .ok compact)
    (hkeys : ∀ keyID, provider.signingKeyID = .ok keyID → provider'.publicKey keyID = provider.publicKey keyID) (now : Time)
    (husable : ∀ claims, claimsToSign s provider clock random (mintRequest session.family lifetime) = .ok claims →
      Usable s clock (mintRequest session.family lifetime) claims now)
    (databaseNow : Nat) (user : User)
    (hlive : t.db.liveUser session.family.id session.family.user.id databaseNow = some user) :
    (EarlyLogin request → ∃ claims state, validateAccess verify s provider' now t.db databaseNow compact = .ok (claims, state) ∧
      claims.sessionID = ofString session.family.id ∧ state.userId = user.id) ∧
    (¬EarlyLogin request → validateAccess verify s provider' now t.db databaseNow compact = .error .inactive) := by
  obtain ⟨claims, hclaims, hvalidate⟩ := validate_minted_iff hmint hkeys
  have hsign := toSign_of_claimsToSign hclaims
  have hread := (hvalidate now _).mpr ⟨rfl, husable claims hclaims⟩
  obtain ⟨state, huser, hunchanged, hresult⟩ := validateAccess_of_run hfresh hrun hended hsign hlive
  have hsessionID : (readBack claims).sessionID = ofString session.family.id := by
    rw [hsign.eq]
    exact (Utf8.sanitize_eq_self_iff _).mpr (Utf8.valid_ofString _)
  have hanswer := hresult verify provider' now compact hread
  refine ⟨fun hearly => ⟨readBack claims, state, ?_, hsessionID, huser⟩, fun hlate => ?_⟩
  · rw [hanswer, if_pos (hunchanged.mpr hearly)]
  · rw [hanswer, if_neg (mt hunchanged.mp hlate)]

/-! ### A login -/

open Sessions

theorem fresh_singleLogin (r : CreateRequest) (n : Nat) :
    Fresh (fun _ => r) (.begin 0 (.login r) :: List.replicate n (.advance (0 : Nat))) := by
  intro id r' hmem
  cases hmem with
  | head => rfl
  | tail _ hmem => cases List.eq_of_mem_replicate hmem

def loginSteps : List (LogoutLabel Nat) :=
  .begin 0 (.login login) :: List.replicate 3 (.advance 0)

def afterLogin : LogoutServer Nat :=
  (Runs.run (Server.step (program configured anyOrigin)) (Server.initial ⟨[activeUser], [], [], [], []⟩) loginSteps).get
    (by decide +kernel)

def loginSession : CreatedRefreshSession :=
  ⟨configured.createdFamily login, "first", "csrf"⟩

def sessionToken : RandomBytes :=
  ⟨List.replicate 32 5, rfl⟩

/-- Fifteen minutes. -/
def sessionRequest : MintRequest :=
  mintRequest loginSession.family 900000000000

def sessionClaims : Claims :=
  mintedClaims loginCall.service sessionRequest (instant 0) (Base64.encode RawURLEncoding sessionToken.val) (ascii "v1")

def sessionVerifier : Verifier := fun key message signature =>
  key = List.replicate 32 7 && message = signingInput sessionClaims && signature = loginSignature

theorem claimsToSign_session : claimsToSign loginCall.service loginCall.provider (instant 0) (.ok sessionToken) sessionRequest =
    .ok sessionClaims :=
  rfl

theorem usable_session : Usable loginCall.service (instant 0) sessionRequest sessionClaims (.ofUnix 60) where
  issuer := by decide
  audience := by decide
  payload_length := by decide +kernel
  since := ⟨by decide, by decide, by decide⟩
  lifetime := by decide
  room := by decide
  begun := by decide
  not_over := by decide

/-- A minute after the login. -/
theorem session_token_good_of_login : ∃ claims state,
    validateAccess sessionVerifier loginCall.service loginCall.provider (.ofUnix 60) afterLogin.db (60 * second)
      (mintedToken sessionClaims loginSignature).compact = .ok (claims, state) ∧
        claims.sessionID = ofString "family" ∧ state.userId = "user" := by
  have hmint : mintAccessToken sessionVerifier loginCall.service loginSigner loginCall.provider (instant 0) (.ok sessionToken)
      900000000000 loginSession.family = .ok (mintedToken sessionClaims loginSignature).compact := by
    have hsign : loginSigner sessionClaims.keyID (signingInput sessionClaims) =
        .ok (transitSignature 1 RawURLEncoding loginSignature) := rfl
    have hkey : loginCall.provider.publicKey sessionClaims.keyID = .ok (some (List.replicate 32 7)) := rfl
    exact mint_of_signature claimsToSign_session rfl RawURLEncoding rfl hsign hkey rfl (by simp [sessionVerifier])
  have hended : afterLogin.clients 0 = some ⟨.login login, .ended (.session (.ok loginSession))⟩ :=
    client_of_result (by decide +kernel) (by decide +kernel)
  have husable : ∀ claims, claimsToSign loginCall.service loginCall.provider (instant 0) (.ok sessionToken) sessionRequest =
      .ok claims → Usable loginCall.service (instant 0) sessionRequest claims (.ofUnix 60) := by
    intro claims hclaims
    cases hclaims.symm.trans claimsToSign_session
    exact usable_session
  have hgood := session_token_good_iff configured anyOrigin [activeUser] loginSteps (fun _ => login)
    (fresh_singleLogin login 3) afterLogin (Option.some_get _).symm 0 (.login login) loginSession hended sessionVerifier
    loginCall.service loginSigner loginCall.provider loginCall.provider (instant 0) (.ok sessionToken) 900000000000 _ hmint
    (fun _ _ => rfl) (.ofUnix 60) husable (60 * second) activeUser (by decide +kernel)
  refine hgood.1 fun r hr => ?_
  cases hr
  decide

end Transcendence.Auth.SessionTokens
