import Transcendence.Auth.RefreshFamilies

/-!
# Concurrent rotations of one token

Any number of rotations that present the current token of a family, with their statements in any
order. The locking query re-reads the family under the lock, but it keeps the token as its snapshot
had it: a call that waited while another one rotated the family finds a token that nothing has
replaced and that is not the head, and takes it for a replay. And the database may refuse the rows of
the rotation: in the last half millisecond of a family the new token would expire when it is issued.
-/

namespace Transcendence.Auth

open Transaction

/-! ### The current token of a family -/

/-- The token is the current one of a family that is not revoked, of an active user. -/
structure Current (store : Store) (db₀ : Database) (token : String) (row₀ : RefreshRow) : Prop where
  chained : db₀.Chained
  found : db₀.findRefresh (store.hashToken token) = some row₀
  last : row₀.token.replacedById = none
  live : row₀.family.revokedAt = none
  active : row₀.user.status = .ACTIVE

/-- A rotation that presents the token with its CSRF token, and draws a new token. -/
structure Presentation (store : Store) (db₀ : Database) (presented : String) (row₀ : RefreshRow)
    extends RotateRequest where
  presents : token = presented
  csrf : store.verifyTokenHash csrfToken row₀.family.csrfTokenHash
  freshId : newID ∉ db₀.tokens.map (·.id)
  freshToken : store.hashToken newToken.value ∉ db₀.tokens.map (·.tokenHash)

/-- The database takes the rows of a rotation: its new token expires after it is issued, and the token that it
replaces, which is a row of the table, was not issued later. -/
structure Taken (store : Store) (r : RotateRequest) (row : RefreshRow) : Prop where
  inserted : (store.newHead r row).isValid
  issued : row.token.issuedAt < row.token.expiresAt
  replaced : row.token.issuedAt ≤ timestamp3 r.now

/-- The presented token after its rotation: the head replaced it, and it keeps the head sealed. -/
structure Replaced (store : Store) (db : Database) (token : String) (row₀ : RefreshRow)
    (raw : String) (row : RefreshRow) (head : AuthRefreshTokenRow) : Prop where
  found : db.findRefresh (store.hashToken token) = some row
  isHead : db.IsHead row₀.family.id head
  tokenHash : head.tokenHash = store.hashToken raw
  id : row.token.id = row₀.token.id
  headId : head.id ≠ row₀.token.id
  replacedById : row.token.replacedById = some head.id
  recovers : ∃ ciphertext refreshCipher, row.token.successorCiphertext = some ciphertext ∧
    store.refreshCipher = some refreshCipher ∧ refreshCipher.decrypt ciphertext = some raw
  family : row.family.id = row₀.family.id
  csrfTokenHash : row.family.csrfTokenHash = row₀.family.csrfTokenHash
  live : row.family.revokedAt = none
  user : row.user = row₀.user

/-- What a rotation of the token leaves: one more row, and every family as it was. -/
structure Successor (store : Store) (db₀ : Database) (token : String) (row₀ : RefreshRow)
    (raw : String) (db : Database) : Prop where
  chained : db.Chained
  tokens : ∃ newID, db.tokens.map (fun row => (row.id, row.tokenHash)) =
    db₀.tokens.map (fun row => (row.id, row.tokenHash)) ++ [(newID, store.hashToken raw)]
  families : db.families.map (fun family => (family.id, family.revokedAt)) =
    db₀.families.map (fun family => (family.id, family.revokedAt))
  replaced : ∃ row head, Replaced store db token row₀ raw row head

variable {store : Store} {db₀ db : Database} {token raw : String} {row₀ row : RefreshRow}

namespace Current

variable (h : Current store db₀ token row₀)
include h

theorem family_mem : row₀.family ∈ db₀.families := by
  obtain ⟨-, hfamily, -⟩ := Database.findRefresh_eq_some.mp h.found
  exact (Database.findFamily_eq_some hfamily).1

theorem isHead : db₀.IsHead row₀.family.id row₀.token := by
  obtain ⟨htoken, hfamily, -⟩ := Database.findRefresh_eq_some.mp h.found
  exact ⟨List.mem_of_find?_eq_some htoken, (Database.findFamily_eq_some hfamily).2.symm, h.last⟩

theorem admitted (r : Presentation store db₀ token row₀)
    (hidle : r.now < row₀.family.idleExpiresAt) (habsolute : r.now < row₀.family.absoluteExpiresAt) :
    store.Admitted r.toRotateRequest row₀ :=
  ⟨Store.isLive_iff.mpr ⟨h.live, hidle, habsolute, h.active⟩, r.csrf⟩

theorem inserts (r : Presentation store db₀ token row₀) (hvalid : (store.newHead r.toRotateRequest row₀).isValid) :
    ∃ inserted, (db₀.clearExpiredSuccessors r.now).insertToken
      (store.newHead r.toRotateRequest row₀) = some inserted := by
  refine ⟨_, Database.insertToken_eq_some.mpr ⟨?_, ?_, ?_, hvalid, rfl⟩⟩
  · rw [Database.clearExpiredSuccessors_tokens_map r.now (·.id) fun _ => rfl]
    exact r.freshId
  · rw [Database.clearExpiredSuccessors_tokens_map r.now (·.tokenHash) fun _ => rfl]
    exact r.freshToken
  · exact List.mem_map_of_mem h.family_mem

/-- What the rotation commits. -/
theorem successor_rotated (r : Presentation store db₀ token row₀) {head : AuthRefreshTokenRow}
    (hhead : (db₀.clearExpiredSuccessors r.now).head row₀.family.id = some head)
    (hid : head.id = row₀.token.id) (hhash : head.tokenHash = row₀.token.tokenHash)
    {inserted : Database} (hinserted : (db₀.clearExpiredSuccessors r.now).insertToken
      (store.newHead r.toRotateRequest row₀) = some inserted)
    {refreshCipher : RefreshTokenCipher} (hcipher : store.refreshCipher = some refreshCipher)
    {ciphertext : String} (hdecrypt : refreshCipher.decrypt ciphertext = some r.newToken.value) :
    Successor store db₀ token row₀ r.newToken.value
      (Store.rotated r.toRotateRequest row₀ head ciphertext inserted) := by
  have hcleared := h.chained.clearExpiredSuccessors r.now
  have hisHead := (hcleared.chains row₀.family h.family_mem).isHead_of_head hhead
  have hchained := hcleared.rotated ciphertext h.family_mem hhead hinserted
  have htokens := Database.tokens_rotated ciphertext hisHead.mem hinserted
  have hfamilies := Database.families_rotated ciphertext head hinserted
  refine ⟨hchained, ⟨r.newID, ?_⟩, ?_, ?_⟩
  · rw [htokens, List.map_append, Table.map_update _ (by intros; rfl),
      Database.clearExpiredSuccessors_tokens_map r.now _ fun _ => rfl]
    rfl
  · rw [hfamilies, Table.map_update _ (by intros; rfl)]
    rfl
  · obtain ⟨htoken, hfamily, huser⟩ := Database.findRefresh_eq_some.mp h.found
    have hpresented : row₀.token.tokenHash = store.hashToken token := by
      have hfound := List.find?_some htoken
      exact of_decide_eq_true hfound
    have hreplaced : Database.replacedHead r.toRotateRequest head ciphertext ∈
        (Store.rotated r.toRotateRequest row₀ head ciphertext inserted).tokens := by
      rw [htokens]
      refine List.mem_append_left _ (Table.mem_update.mpr ⟨head, hisHead.mem, if_pos ?_⟩)
      rw [hcleared.replaces_iff hisHead hisHead.mem]
    have hnew : store.newHead r.toRotateRequest row₀ ∈
        (Store.rotated r.toRotateRequest row₀ head ciphertext inserted).tokens := by
      rw [htokens]
      exact List.mem_concat_self
    have hfamilyId := (Database.findFamily_eq_some hfamily).2
    rw [← hfamilyId] at hfamily
    have hfamily' := Database.findFamily_rotated ciphertext head hinserted hfamily
    refine ⟨⟨Database.replacedHead r.toRotateRequest head ciphertext,
        Database.touchedFamily r.toRotateRequest row₀ row₀.family, row₀.user⟩,
      store.newHead r.toRotateRequest row₀, ?_, ⟨hnew, rfl, rfl⟩, rfl, hid, ?_, rfl,
      ⟨ciphertext, refreshCipher, rfl, hcipher, hdecrypt⟩, rfl, rfl, h.live, rfl⟩
    · refine Database.findRefresh_eq_some.mpr ⟨?_, ?_, ?_⟩
      · exact Table.find?_eq_some_of_mem hchained.tokenHashes hreplaced (hhash.trans hpresented)
      · show Database.findFamily _ head.familyId = _
        rw [hisHead.family]
        exact hfamily'
      · obtain ⟨-, -, -, -, rfl⟩ := Database.insertToken_eq_some.mp hinserted
        exact huser
    · intro heq
      apply r.freshId
      rw [show r.newID = row₀.token.id from heq]
      exact List.mem_map_of_mem h.isHead.mem

/-- The rotation of the current token, if the database takes its rows. -/
theorem exec_rotate (r : Presentation store db₀ token row₀)
    (hidle : r.now < row₀.family.idleExpiresAt) (habsolute : r.now < row₀.family.absoluteExpiresAt)
    (htaken : Taken store r.toRotateRequest row₀) {refreshCipher : RefreshTokenCipher} (hcipher : store.refreshCipher = some refreshCipher) :
    ∃ session db, (store.rotateLocked r.toRotateRequest row₀).exec db₀ db₀ = (.ok session, db) ∧
      session.refreshToken = r.newToken.value ∧
        Successor store db₀ token row₀ r.newToken.value db := by
  have hadmitted := h.admitted r hidle habsolute
  obtain ⟨head, hhead, hmem, hid, hhash, hissued, hexpires⟩ :=
    h.chained.cleared_head r.now h.family_mem h.isHead
  have hcleared := h.chained.clearExpiredSuccessors r.now
  have hisHead := (hcleared.chains row₀.family h.family_mem).isHead_of_head hhead
  have hlive : r.now < head.expiresAt := by
    rw [hexpires]
    exact h.chained.lt_expiresAt h.family_mem hadmitted h.isHead
  obtain ⟨inserted, hinserted⟩ := h.inserts r htaken.inserted
  have hvalid : (head.replaced r.now (refreshCipher.encrypt r.nonce r.newToken.value) r.newID).isValid := by
    rw [Database.isValid_replaced_iff, hissued, hexpires]
    exact ⟨htaken.issued, htaken.replaced⟩
  obtain ⟨replaced, hreplaced⟩ := (hcleared.replaceToken_isSome_iff hisHead hinserted _).mpr hvalid
  have hcount := hcleared.replaceableTokens_eq hisHead hinserted
  have hexec := (Store.exec_of_refreshCurrent hadmitted hhead
    (Store.useOf_of_head hid.symm h.last)).trans
      (Store.exec_replaceHead hlive hcipher hinserted hreplaced hcount)
  exact ⟨_, _, hexec, rfl, h.successor_rotated r hhead hid hhash hinserted hcipher
    (refreshCipher.decrypt_encrypt r.nonce _ r.newToken.nonempty)⟩

/-- The rotation of the current token fails if the database refuses its rows. -/
theorem exec_rotate_refused (r : Presentation store db₀ token row₀)
    (hidle : r.now < row₀.family.idleExpiresAt) (habsolute : r.now < row₀.family.absoluteExpiresAt)
    (hrefused : ¬Taken store r.toRotateRequest row₀) :
    ∃ error, ((store.rotateLocked r.toRotateRequest row₀).exec db₀ db₀).1 = .error error := by
  have hadmitted := h.admitted r hidle habsolute
  obtain ⟨head, hhead, -, hid, -, hissued, hexpires⟩ := h.chained.cleared_head r.now h.family_mem h.isHead
  have hcleared := h.chained.clearExpiredSuccessors r.now
  have hisHead := (hcleared.chains row₀.family h.family_mem).isHead_of_head hhead
  rw [Store.exec_of_refreshCurrent hadmitted hhead (Store.useOf_of_head hid.symm h.last)]
  cases hresult : ((store.replaceHead r.toRotateRequest row₀ head).exec db₀ (db₀.clearExpiredSuccessors r.now)).1 with
  | error error => exact ⟨error, rfl⟩
  | ok session =>
      obtain ⟨ciphertext, inserted, replaced, hinserted, hreplaced⟩ := Store.taken_of_replaceHead hresult
      have hvalid := (hcleared.replaceToken_isSome_iff hisHead hinserted ciphertext).mp ⟨replaced, hreplaced⟩
      rw [Database.isValid_replaced_iff, hissued, hexpires] at hvalid
      exact absurd ⟨(Database.insertToken_eq_some.mp hinserted).2.2.2.1, hvalid.1, hvalid.2⟩ hrefused

end Current

/-! ### Presenting the token again -/

/-- The row that the locking query returns: the token of the snapshot, the family of the database. -/
theorem reread_eq_some {snapshot : Database} {tokenHash : String} {seen : RefreshRow}
    (hseen : snapshot.findRefresh tokenHash = some seen) (hrow : db.findRefresh tokenHash = some row)
    (hfamily : seen.family.id = row.family.id) :
    snapshot.reread db tokenHash = some { seen with family := row.family } := by
  obtain ⟨-, hfound, -⟩ := Database.findRefresh_eq_some.mp hrow
  rw [Database.reread, hseen, Option.bind_some, hfamily, (Database.findFamily_eq_some hfound).2,
    hfound]
  rfl

namespace Replaced

variable {head : AuthRefreshTokenRow} (h : Replaced store db token row₀ raw row head)
include h

theorem family_mem : row.family ∈ db.families := by
  obtain ⟨-, hfamily, -⟩ := Database.findRefresh_eq_some.mp h.found
  exact (Database.findFamily_eq_some hfamily).1

theorem isHead' : db.IsHead row.family.id head := by
  rw [h.family]
  exact h.isHead

theorem admitted (hactive : row₀.user.status = .ACTIVE) (r : Presentation store db₀ token row₀)
    (hidle : r.now < row.family.idleExpiresAt) (habsolute : r.now < row.family.absoluteExpiresAt)
    {seen : RefreshRow} (hfamily : seen.family = row.family) (huser : seen.user = row₀.user) :
    store.Admitted r.toRotateRequest seen := by
  constructor
  · rw [Store.isLive_iff, hfamily, huser]
    exact ⟨h.live, hidle, habsolute, hactive⟩
  · rw [hfamily, h.csrfTokenHash]
    exact r.csrf

/-- A call whose snapshot shows the token replaced gets the successor. -/
theorem exec_recover (hchained : db.Chained) (hactive : row₀.user.status = .ACTIVE)
    (r : Presentation store db₀ token row₀) (hidle : r.now < row.family.idleExpiresAt)
    (habsolute : r.now < row.family.absoluteExpiresAt)
    (hgrace : row.token.graceExpiresAt.any (r.now < ·)) :
    (store.rotateLocked r.toRotateRequest row).exec db db =
      (.ok ⟨row.refreshFamily, raw, r.csrfToken⟩, db) := by
  obtain ⟨ciphertext, refreshCipher, hciphertext, hcipher, hdecrypt⟩ := h.recovers
  exact hchained.exec_of_inGrace h.family_mem (h.admitted hactive r hidle habsolute rfl h.user)
    h.isHead' ⟨h.replacedById, hgrace⟩ hciphertext hcipher hdecrypt h.tokenHash.symm

/-- A call whose snapshot is from before the rotation is a replay. -/
theorem exec_stale (hcurrent : Current store db₀ token row₀) (hchained : db.Chained)
    (r : Presentation store db₀ token row₀) (hidle : r.now < row.family.idleExpiresAt)
    (habsolute : r.now < row.family.absoluteExpiresAt) :
    ((store.rotateLocked r.toRotateRequest { row₀ with family := row.family }).exec db db).1 =
      .error .replay := by
  have hadmitted : store.Admitted r.toRotateRequest { row₀ with family := row.family } :=
    h.admitted hcurrent.active r hidle habsolute rfl rfl
  have hmem : ({ row₀ with family := row.family } : RefreshRow).family ∈ db.families := h.family_mem
  rw [hchained.exec_of_replay hmem hadmitted h.isHead']
  · exact fun hid => h.headId hid.1.symm
  · rintro ⟨hreplaced, -⟩
    cases hcurrent.last.symm.trans hreplaced

end Replaced

/-! ### A rotation is a critical section -/

theorem lockFree_recoverSuccessor (store : Store) (r : RotateRequest) (row : RefreshRow)
    (head : AuthRefreshTokenRow) : (store.recoverSuccessor r row head).LockFree := by
  rw [Store.recoverSuccessor]
  split
  · split
    · exact trivial
    · intro db
      dsimp only
      split
      · exact trivial
      · split_ifs <;> exact trivial
  · exact trivial

theorem lockFree_replaceHead (store : Store) (r : RotateRequest) (row : RefreshRow)
    (head : AuthRefreshTokenRow) : (store.replaceHead r row head).LockFree := by
  rw [Store.replaceHead]
  split
  · exact trivial
  · split
    · exact trivial
    · refine lockFree_execute trivial fun db => ?_
      dsimp only
      split
      · exact trivial
      · split
        · exact trivial
        · exact fun _ => trivial

theorem lockFree_useToken (store : Store) (r : RotateRequest) (row : RefreshRow) :
    (store.useToken r row).LockFree := by
  intro db
  dsimp only
  split
  · exact trivial
  · split
    · exact lockFree_recoverSuccessor store r row _
    · exact fun _ _ => trivial
    · exact lockFree_replaceHead store r row _

theorem lockFree_rotateLocked (store : Store) (r : RotateRequest) (row : RefreshRow) :
    (store.rotateLocked r row).LockFree := by
  intro db
  dsimp only
  split_ifs
  · exact trivial
  · exact trivial
  · exact lockFree_useToken store r row

/-- The rotation that presents the token. -/
def rotate (store : Store) (db₀ : Database) (token : String) (row₀ : RefreshRow)
    (r : Presentation store db₀ token row₀) : Call := store.rotateRefreshToken r.toRotateRequest

/-- The token still belongs to the family. -/
def Belongs (store : Store) (token : String) (row₀ : RefreshRow) (db : Database) : Prop :=
  ∃ row, db.findRefresh (store.hashToken token) = some row ∧ row.family.id = row₀.family.id

theorem criticalSection_rotate {I : Database → Prop} (hI : ∀ db, I db → Belongs store token row₀ db)
    (r : Presentation store db₀ token row₀) :
    CriticalSection (rotate store db₀ token row₀) row₀.family.id I r := by
  refine ⟨_, _, rfl, fun db hdb => ?_, fun snapshot db => ?_⟩
  · obtain ⟨row, hrow, hfamily⟩ := hI db hdb
    rw [r.presents, hrow, Option.map_some, hfamily]
  · split
    · exact trivial
    · exact lockFree_rotateLocked store _ _

/-- What the rotation leaves, from the row its locking query returns. -/
theorem outcome_rotate (r : Presentation store db₀ token row₀) {snapshot : Database}
    (hrow : snapshot.reread db (store.hashToken token) = some row) :
    outcome (rotate store db₀ token row₀) r snapshot db =
      (store.rotateLocked r.toRotateRequest row).exec db db := by
  rw [outcome, rotate, Store.rotateRefreshToken]
  simp only [r.presents, hrow]

theorem outcome_rotate_of_none (r : Presentation store db₀ token row₀) {snapshot : Database}
    (hrow : snapshot.reread db (store.hashToken token) = none) :
    outcome (rotate store db₀ token row₀) r snapshot db = (.error .notFound, db) := by
  rw [outcome, rotate, Store.rotateRefreshToken]
  simp only [r.presents, hrow]
  rfl

theorem Belongs.outcome (h : Belongs store token row₀ db) (r : Presentation store db₀ token row₀)
    (snapshot : Database) :
    Belongs store token row₀ (outcome (rotate store db₀ token row₀) r snapshot db).2 := by
  cases hrow : snapshot.reread db (store.hashToken token) with
  | none =>
      rw [outcome_rotate_of_none r hrow]
      exact h
  | some row =>
      rw [outcome_rotate r hrow]
      have hkeeps : Database.Keeps db ((store.rotateLocked r.toRotateRequest row).exec db db).2 :=
        Database.keeps_rotateLocked r.toRotateRequest row
      obtain ⟨seen, hseen, hfamilyId⟩ := h
      obtain ⟨htoken, hfamily, huser⟩ := Database.findRefresh_eq_some.mp hseen
      obtain ⟨token', htoken', -, htokenFamily⟩ := hkeeps.tokens _ _ htoken
      obtain ⟨family', hfamily', hcontinues⟩ := hkeeps.families _ _ hfamily
      refine ⟨⟨token', family', seen.user⟩, Database.findRefresh_eq_some.mpr ⟨htoken', ?_, ?_⟩, ?_⟩
      · rw [htokenFamily]
        exact hfamily'
      · rw [Database.findUser, hkeeps.users, hcontinues.userId]
        exact huser
      · exact hcontinues.id.trans hfamilyId

/-! ### Runs -/

abbrev RefreshServer (store : Store) (db₀ : Database) (token : String) (row₀ : RefreshRow)
    (ι : Type) :=
  Server (Presentation store db₀ token row₀) Database ι String
    (Except StoreError CreatedRefreshSession)

abbrev RefreshLabel (store : Store) (db₀ : Database) (token : String) (row₀ : RefreshRow)
    (ι : Type) := Transaction.Label (Presentation store db₀ token row₀) ι

/-- The databases of the runs: the one before, and the ones after a rotation. -/
def Rotating (store : Store) (db₀ : Database) (token : String) (row₀ : RefreshRow)
    (db : Database) : Prop :=
  db = db₀ ∨ ∃ raw, Successor store db₀ token row₀ raw db

/-- A snapshot is the database, or the one from before the rotation. -/
def Earlier (db₀ snapshot db : Database) : Prop := snapshot = db ∨ snapshot = db₀

/-- The call has returned the successor. -/
def Recovered (store : Store) (db₀ : Database) (token : String) (row₀ : RefreshRow)
    (_ : Presentation store db₀ token row₀) (result : Except StoreError CreatedRefreshSession)
    (db : Database) : Prop :=
  ∃ raw session, Successor store db₀ token row₀ raw db ∧ result = .ok session ∧
    session.refreshToken = raw

theorem Successor.ne (h : Successor store db₀ token row₀ raw db) : db ≠ db₀ := by
  rintro rfl
  obtain ⟨newID, htokens⟩ := h.tokens
  have hlength := congrArg List.length htokens
  rw [List.length_append] at hlength
  simp at hlength

theorem Successor.unique (h : Successor store db₀ token row₀ raw db) {raw' : String}
    (h' : Successor store db₀ token row₀ raw' db) : raw = raw' := by
  obtain ⟨row, head, hrow⟩ := h.replaced
  obtain ⟨row', head', hrow'⟩ := h'.replaced
  obtain rfl := Option.some.inj (hrow.found.symm.trans hrow'.found)
  obtain ⟨ciphertext, refreshCipher, hciphertext, hcipher, hdecrypt⟩ := hrow.recovers
  obtain ⟨ciphertext', refreshCipher', hciphertext', hcipher', hdecrypt'⟩ := hrow'.recovers
  obtain rfl := Option.some.inj (hciphertext.symm.trans hciphertext')
  obtain rfl := Option.some.inj (hcipher.symm.trans hcipher')
  exact Option.some.inj (hdecrypt.symm.trans hdecrypt')

theorem Rotating.belongs (hcurrent : Current store db₀ token row₀)
    (h : Rotating store db₀ token row₀ db) : Belongs store token row₀ db := by
  rcases h with rfl | ⟨raw, hsuccessor⟩
  · exact ⟨row₀, hcurrent.found, rfl⟩
  · obtain ⟨row, head, hrow⟩ := hsuccessor.replaced
    exact ⟨row, hrow.found, hrow.family⟩

/-- The family is live when the call runs, and the grace of the rotation lasts. -/
def InTime (store : Store) (token : String) (db : Database) (now : Nat) : Prop :=
  ∀ row, db.findRefresh (store.hashToken token) = some row →
    now < row.family.idleExpiresAt ∧ now < row.family.absoluteExpiresAt ∧
      (row.token.replacedById ≠ none → row.token.graceExpiresAt.any (now < ·))

/-- The database takes the rows of the call if it is the one that rotates. -/
def Storable (store : Store) (token : String) (db : Database) (r : RotateRequest) : Prop :=
  ∀ row, db.findRefresh (store.hashToken token) = some row → row.token.replacedById = none → Taken store r row

section Outcomes

variable {snapshot : Database} (hcurrent : Current store db₀ token row₀)
  (r : Presentation store db₀ token row₀) (hinTime : InTime store token db r.now)
include hcurrent hinTime

/-- A call whose snapshot still shows the token as it is recovers the successor. -/
theorem establishes_of_same {refreshCipher : RefreshTokenCipher} (hstorable : Storable store token db r.toRotateRequest)
    (hcipher : store.refreshCipher = some refreshCipher) (hdb : Rotating store db₀ token row₀ db)
    (hearlier : Earlier db₀ snapshot db)
    (hsame : snapshot.findToken (store.hashToken token) = db.findToken (store.hashToken token)) :
    Establishes (Rotating store db₀ token row₀) (Earlier db₀) (Recovered store db₀ token row₀) r db
      (outcome (rotate store db₀ token row₀) r snapshot db) := by
  rcases hdb with rfl | ⟨raw, hsuccessor⟩
  · obtain rfl : snapshot = db := hearlier.elim id id
    obtain ⟨hidle, habsolute, -⟩ := hinTime row₀ hcurrent.found
    obtain ⟨session, rotated, hexec, hraw, hsuccessor⟩ :=
      hcurrent.exec_rotate r hidle habsolute (hstorable row₀ hcurrent.found hcurrent.last) hcipher
    rw [outcome_rotate r ((Database.reread_self _ _).trans hcurrent.found), hexec]
    refine ⟨Or.inr ⟨_, hsuccessor⟩, ⟨_, session, hsuccessor, rfl, hraw⟩, ?_, ?_⟩
    · rintro _ _ ⟨raw, _, hnone, -⟩
      exact absurd rfl hnone.ne
    · exact fun earlier hearlier => Or.inr (hearlier.elim id id)
  · obtain ⟨row, head, hrow⟩ := hsuccessor.replaced
    obtain ⟨hidle, habsolute, hgrace⟩ := hinTime row hrow.found
    have hreplaced : row.token.replacedById ≠ none := by
      rw [hrow.replacedById]
      exact nofun
    obtain rfl : snapshot = db := by
      rcases hearlier with heq | rfl
      · exact heq
      · obtain ⟨htoken, -⟩ := Database.findRefresh_eq_some.mp hcurrent.found
        obtain ⟨htoken', -⟩ := Database.findRefresh_eq_some.mp hrow.found
        rw [htoken, htoken', Option.some.injEq] at hsame
        rw [← hsame] at hreplaced
        exact absurd hcurrent.last hreplaced
    rw [outcome_rotate r ((Database.reread_self _ _).trans hrow.found),
      hrow.exec_recover hsuccessor.chained hcurrent.active r hidle habsolute (hgrace hreplaced)]
    exact ⟨Or.inr ⟨raw, hsuccessor⟩, ⟨raw, _, hsuccessor, rfl, rfl⟩, fun _ _ hrecovered => hrecovered,
      fun _ hearlier => hearlier⟩

/-- A call whose snapshot is from before the rotation takes the token for a replay. -/
theorem outcome_of_stale (hdb : Rotating store db₀ token row₀ db)
    (hearlier : Earlier db₀ snapshot db)
    (hstale : snapshot.findToken (store.hashToken token) ≠ db.findToken (store.hashToken token)) :
    (outcome (rotate store db₀ token row₀) r snapshot db).1 = .error .replay := by
  obtain rfl : snapshot = db₀ := by
    rcases hearlier with rfl | rfl
    · exact absurd rfl hstale
    · rfl
  rcases hdb with rfl | ⟨raw, hsuccessor⟩
  · exact absurd rfl hstale
  · obtain ⟨row, head, hrow⟩ := hsuccessor.replaced
    obtain ⟨hidle, habsolute, -⟩ := hinTime row hrow.found
    rw [outcome_rotate r (reread_eq_some hcurrent.found hrow.found hrow.family.symm)]
    exact hrow.exec_stale hcurrent hsuccessor.chained r hidle habsolute

/-- A call whose rows the database refuses fails. -/
theorem outcome_of_refused (hdb : Rotating store db₀ token row₀ db) (hearlier : Earlier db₀ snapshot db)
    (hrefused : ¬Storable store token db r.toRotateRequest) :
    ∃ error, (outcome (rotate store db₀ token row₀) r snapshot db).1 = .error error := by
  simp only [Storable, not_forall] at hrefused
  obtain ⟨row, hfound, hlast, hrefused⟩ := hrefused
  rcases hdb with rfl | ⟨raw, hsuccessor⟩
  · obtain rfl : snapshot = db := hearlier.elim id id
    obtain rfl := Option.some.inj (hfound.symm.trans hcurrent.found)
    obtain ⟨hidle, habsolute, -⟩ := hinTime row hfound
    rw [outcome_rotate r ((Database.reread_self _ _).trans hfound)]
    exact hcurrent.exec_rotate_refused r hidle habsolute hrefused
  · obtain ⟨row', head, hrow⟩ := hsuccessor.replaced
    obtain rfl := Option.some.inj (hfound.symm.trans hrow.found)
    cases hlast.symm.trans hrow.replacedById

end Outcomes

section Interleavings

variable {ι : Type} [DecidableEq ι]

/-- A call that gets the lock runs within the grace, in a family that has not expired. -/
def Timely (s : RefreshServer store db₀ token row₀ ι) (label : RefreshLabel store db₀ token row₀ ι) :
    Prop :=
  ∀ r snapshot, s.acquiring label = some (r, snapshot) → InTime store token s.db r.now

/-- A call that gets the lock finds the token as its snapshot shows it: no rotation has committed
since its locking query began. -/
def NotStale (s : RefreshServer store db₀ token row₀ ι)
    (label : RefreshLabel store db₀ token row₀ ι) : Prop :=
  ∀ r snapshot, s.acquiring label = some (r, snapshot) →
    snapshot.findToken (store.hashToken token) = s.db.findToken (store.hashToken token)

/-- The step does not get a call the lock with an older snapshot, nor with rows that the database refuses. -/
def Undisturbed (s : RefreshServer store db₀ token row₀ ι) (label : RefreshLabel store db₀ token row₀ ι) : Prop :=
  NotStale s label ∧ ∀ r snapshot, s.acquiring label = some (r, snapshot) → Storable store token s.db r.toRotateRequest

/-- Exactly one token is inserted, every call has returned it, and no family is revoked. -/
structure AllRecovered (t : RefreshServer store db₀ token row₀ ι) (raw : String) : Prop where
  tokens : ∃ newID, t.db.tokens.map (fun row => (row.id, row.tokenHash)) =
    db₀.tokens.map (fun row => (row.id, row.tokenHash)) ++ [(newID, store.hashToken raw)]
  results : ∀ id client, t.clients id = some client →
    ∃ session, client.progress = .ended (.ok session) ∧ session.refreshToken = raw
  families : t.db.families.map (fun family => (family.id, family.revokedAt)) =
    db₀.families.map (fun family => (family.id, family.revokedAt))

/-- The invariant of the undisturbed runs. -/
abbrev Rotates (s : RefreshServer store db₀ token row₀ ι) : Prop :=
  Guarded (rotate store db₀ token row₀) row₀.family.id (Rotating store db₀ token row₀)
    (Earlier db₀) (Recovered store db₀ token row₀) s

/-- The invariant of all runs: the lock of the family is held by one call at a time. -/
abbrev Excludes (s : RefreshServer store db₀ token row₀ ι) : Prop :=
  Guarded (rotate store db₀ token row₀) row₀.family.id (Belongs store token row₀)
    (fun _ _ => True) (fun _ _ _ => True) s

variable {s t : RefreshServer store db₀ token row₀ ι} {label : RefreshLabel store db₀ token row₀ ι}

theorem excludes_step (h : Excludes s) (hstep : Server.step (rotate store db₀ token row₀) s label = some t) :
    Excludes t := by
  refine h.step (fun _ => trivial) ⟨fun _ r _ => criticalSection_rotate (fun _ hdb => hdb) r, ?_⟩ hstep
  intro r snapshot _ _ hdb _
  exact ⟨hdb.outcome r snapshot, trivial, fun _ _ _ => trivial, fun _ _ => trivial⟩

theorem rotates_step {refreshCipher : RefreshTokenCipher} (hcurrent : Current store db₀ token row₀)
    (hcipher : store.refreshCipher = some refreshCipher) (h : Rotates s) (htimely : Timely s label)
    (hundisturbed : Undisturbed s label)
    (hstep : Server.step (rotate store db₀ token row₀) s label = some t) : Rotates t := by
  refine h.step (fun _ => Or.inl rfl)
    ⟨fun _ r _ => criticalSection_rotate (fun _ hdb => hdb.belongs hcurrent) r, ?_⟩ hstep
  intro r snapshot hacquiring _ hdb hearlier
  exact establishes_of_same hcurrent r (htimely r snapshot hacquiring) (hundisturbed.2 r snapshot hacquiring) hcipher
    hdb hearlier (hundisturbed.1 r snapshot hacquiring)

omit [DecidableEq ι] in
theorem rotates_initial : Rotates (Server.initial db₀ : RefreshServer store db₀ token row₀ ι) :=
  guarded_initial (Or.inl rfl)

omit [DecidableEq ι] in
theorem excludes_initial (hcurrent : Current store db₀ token row₀) :
    Excludes (Server.initial db₀ : RefreshServer store db₀ token row₀ ι) :=
  guarded_initial ⟨row₀, hcurrent.found, rfl⟩

/-- A call that gets the lock with an older snapshot ends in a replay, and one whose rows are refused in an error. -/
theorem endsWith_error_of_disturbed (hcurrent : Current store db₀ token row₀) (h : Rotates s)
    (htimely : Timely s label) (hdisturbed : ¬Undisturbed s label)
    (hstep : Server.step (rotate store db₀ token row₀) s label = some t) :
    ∃ id error, EndsWith row₀.family.id t id (.error error) := by
  rcases not_and_or.mp hdisturbed with hstale | hrefused
  · simp only [NotStale, not_forall] at hstale
    obtain ⟨r, snapshot, hacquiring, hne⟩ := hstale
    obtain ⟨id, hends⟩ := h.endsWith hacquiring hstep
    rw [outcome_of_stale hcurrent r (htimely r snapshot hacquiring) h.db (h.snapshot hacquiring).2 hne]
      at hends
    exact ⟨id, .replay, hends⟩
  · simp only [not_forall] at hrefused
    obtain ⟨r, snapshot, hacquiring, hrefused⟩ := hrefused
    obtain ⟨id, hends⟩ := h.endsWith hacquiring hstep
    obtain ⟨error, herror⟩ :=
      outcome_of_refused hcurrent r (htimely r snapshot hacquiring) h.db (h.snapshot hacquiring).2 hrefused
    rw [herror] at hends
    exact ⟨id, error, hends⟩

theorem endsWith_run {id : ι} {result : Except StoreError CreatedRefreshSession} (h : Excludes s)
    (hends : EndsWith row₀.family.id s id result)
    {labels : List (RefreshLabel store db₀ token row₀ ι)}
    (hrun : Runs.run (Server.step (rotate store db₀ token row₀)) s labels = some t) :
    Excludes t ∧ EndsWith row₀.family.id t id result :=
  Runs.Preserved.run (P := fun s => Excludes s ∧ EndsWith row₀.family.id s id result)
    (fun _ _ _ h hstep => ⟨excludes_step h.1 hstep, h.2.step h.1 hstep⟩) ⟨h, hends⟩ hrun

/-- A run in which no call ends in an error is undisturbed. -/
theorem undisturbed_of_run {refreshCipher : RefreshTokenCipher}
    (hcurrent : Current store db₀ token row₀)
    (hcipher : store.refreshCipher = some refreshCipher)
    {labels : List (RefreshLabel store db₀ token row₀ ι)} (hrotates : Rotates s)
    (hexcludes : Excludes s)
    (hrun : Runs.run (Server.step (rotate store db₀ token row₀)) s labels = some t)
    (htimely : Runs.Along (Server.step (rotate store db₀ token row₀)) Timely s labels)
    (hresults : ∀ id error, ¬EndsWith row₀.family.id t id (.error error)) :
    Runs.Along (Server.step (rotate store db₀ token row₀)) Undisturbed s labels := by
  induction labels generalizing s with
  | nil => trivial
  | cons label labels ih =>
      obtain ⟨m, hstep, hrest⟩ := Runs.run_cons_eq_some.mp hrun
      have hexcludes' := excludes_step hexcludes hstep
      have hundisturbed : Undisturbed s label := by
        by_contra hdisturbed
        obtain ⟨id, error, hends⟩ := endsWith_error_of_disturbed hcurrent hrotates htimely.1 hdisturbed hstep
        exact hresults id error (endsWith_run hexcludes' hends hrest).2
      refine ⟨hundisturbed, fun m' hm' => ?_⟩
      obtain rfl := Option.some.inj (hstep.symm.trans hm')
      exact ih (rotates_step hcurrent hcipher hrotates htimely.1 hundisturbed hstep) hexcludes' hrest
        (htimely.2 m hstep)

/-- Every call of a complete run recovers the successor if and only if no call gets the lock with a
snapshot from before the rotation, and the database takes the rows of the call that rotates. -/
theorem recovers_iff_undisturbed (store : Store) (refreshCipher : RefreshTokenCipher)
    (hcipher : store.refreshCipher = some refreshCipher) (db₀ : Database) (token : String)
    (row₀ : RefreshRow) (hcurrent : Current store db₀ token row₀)
    (labels : List (RefreshLabel store db₀ token row₀ ι)) (t : RefreshServer store db₀ token row₀ ι)
    (hrun : Runs.run (Server.step (rotate store db₀ token row₀)) (Server.initial db₀) labels = some t)
    (htimely : Runs.Along (Server.step (rotate store db₀ token row₀)) Timely (Server.initial db₀)
      labels)
    (hcalled : ∃ id, (t.clients id).isSome) (hcomplete : ∀ id, t.advance id = none) :
    (∃ raw, AllRecovered t raw) ↔
      Runs.Along (Server.step (rotate store db₀ token row₀)) Undisturbed (Server.initial db₀)
        labels := by
  have hexcludes : Excludes t :=
    Runs.Preserved.run (fun _ _ _ h hstep => excludes_step h hstep) (excludes_initial hcurrent) hrun
  constructor
  · rintro ⟨raw, hrecovered⟩
    refine undisturbed_of_run hcurrent hcipher rotates_initial (excludes_initial hcurrent) hrun htimely
      fun id error hends => ?_
    cases hends with
    | holds request rest writes hclient =>
        obtain ⟨result, hended⟩ := hexcludes.ended hcomplete hclient
        cases hended
    | ended request hclient =>
        obtain ⟨session, hended, -⟩ := hrecovered.results id _ hclient
        cases hended
  · intro hundisturbed
    have hrotates : Rotates t :=
      (htimely.and hundisturbed).run (fun _ _ _ h hlabel hstep =>
        rotates_step hcurrent hcipher h hlabel.1 hlabel.2 hstep) rotates_initial hrun
    have hrecovered : ∀ id client, t.clients id = some client → ∃ raw session,
        Successor store db₀ token row₀ raw t.db ∧ client.progress = .ended (.ok session) ∧
          session.refreshToken = raw := by
      intro id client hclient
      obtain ⟨result, hended⟩ := hrotates.ended hcomplete hclient
      have hplaced := (hrotates.clients id client hclient).2
      rw [hended] at hplaced
      obtain ⟨-, raw, session, hsuccessor, rfl, hraw⟩ := hplaced
      exact ⟨raw, session, hsuccessor, hended, hraw⟩
    obtain ⟨id, hsome⟩ := hcalled
    obtain ⟨client, hclient⟩ := Option.isSome_iff_exists.mp hsome
    obtain ⟨raw, -, hsuccessor, -⟩ := hrecovered id client hclient
    refine ⟨raw, hsuccessor.tokens, fun id client hclient => ?_, hsuccessor.families⟩
    obtain ⟨raw', session, hsuccessor', hended, hsession⟩ := hrecovered id client hclient
    exact ⟨session, hended, hsession.trans (hsuccessor'.unique hsuccessor)⟩

end Interleavings

/-! ### Two tabs -/

section TwoTabs

open Sessions

def checkTimely {ι : Type} [DecidableEq ι] (s : RefreshServer store db₀ token row₀ ι)
    (label : RefreshLabel store db₀ token row₀ ι) : Bool :=
  (s.acquiring label).all fun p => (s.db.findRefresh (store.hashToken token)).all fun row =>
    p.1.now < row.family.idleExpiresAt && p.1.now < row.family.absoluteExpiresAt &&
      (row.token.replacedById.isNone || row.token.graceExpiresAt.any (p.1.now < ·))

def checkUndisturbed {ι : Type} [DecidableEq ι] (s : RefreshServer store db₀ token row₀ ι)
    (label : RefreshLabel store db₀ token row₀ ι) : Bool :=
  (s.acquiring label).all fun p =>
    p.2.findToken (store.hashToken token) = s.db.findToken (store.hashToken token) &&
      (s.db.findRefresh (store.hashToken token)).all fun row =>
        row.token.replacedById.isSome || ((store.newHead p.1.toRotateRequest row).isValid &&
          row.token.issuedAt < row.token.expiresAt && row.token.issuedAt ≤ timestamp3 p.1.now)

theorem timely_of_check {ι : Type} [DecidableEq ι] (s : RefreshServer store db₀ token row₀ ι)
    (label : RefreshLabel store db₀ token row₀ ι) (h : checkTimely s label) : Timely s label := by
  intro r snapshot hacquiring row hrow
  rw [checkTimely, hacquiring, Option.all_some, hrow, Option.all_some, Bool.and_eq_true,
    Bool.and_eq_true, Bool.or_eq_true, decide_eq_true_iff, decide_eq_true_iff] at h
  refine ⟨h.1.1, h.1.2, fun hreplaced => h.2.resolve_left ?_⟩
  rw [Option.isNone_iff_eq_none]
  exact hreplaced

theorem undisturbed_of_check {ι : Type} [DecidableEq ι] (s : RefreshServer store db₀ token row₀ ι)
    (label : RefreshLabel store db₀ token row₀ ι) (h : checkUndisturbed s label) : Undisturbed s label := by
  have hboth : ∀ r snapshot, s.acquiring label = some (r, snapshot) →
      snapshot.findToken (store.hashToken token) = s.db.findToken (store.hashToken token) ∧
        Storable store token s.db r.toRotateRequest := by
    intro r snapshot hacquiring
    rw [checkUndisturbed, hacquiring, Option.all_some, Bool.and_eq_true, decide_eq_true_iff] at h
    refine ⟨h.1, fun row hrow hlast => ?_⟩
    have htaken := h.2
    rw [hrow, Option.all_some, hlast, Option.isSome_none, Bool.false_or, Bool.and_eq_true, Bool.and_eq_true,
      decide_eq_true_iff, decide_eq_true_iff] at htaken
    exact ⟨htaken.1.1, htaken.1.2, htaken.2⟩
  exact ⟨fun r snapshot hacquiring => (hboth r snapshot hacquiring).1,
    fun r snapshot hacquiring => (hboth r snapshot hacquiring).2⟩

def loggedIn : Sessions :=
  (Runs.run (step configured) (initial [activeUser]) [.create login]).get (by decide +kernel)

def loggedInRow : RefreshRow :=
  (loggedIn.db.findRefresh (configured.hashToken "first")).get (by decide +kernel)

theorem current_of_login : Current configured loggedIn.db "first" loggedInRow where
  chained := by
    have hrun : Runs.run (step configured) (initial [activeUser]) [.create login] = some loggedIn :=
      (Option.some_get _).symm
    refine (inv_run (fun label hlabel => ?_) (Database.inv_empty _ _) hrun).toChained
    rw [List.mem_singleton.mp hlabel]
    exact login_configured
  found := (Option.some_get _).symm
  last := by decide +kernel
  live := by decide +kernel
  active := by decide +kernel

theorem csrf_of_login : configured.verifyTokenHash "csrf" loggedInRow.family.csrfTokenHash := by
  decide +kernel

/-- One tab's refresh, a second after the login. -/
def tab (newToken : RandomToken) (newID : String)
    (hfresh : newID ∉ loggedIn.db.tokens.map (·.id))
    (hnew : configured.hashToken newToken.value ∉ loggedIn.db.tokens.map (·.tokenHash)) :
    Presentation configured loggedIn.db "first" loggedInRow :=
  ⟨rotation "first" second newToken newID, rfl, csrf_of_login, hfresh, hnew⟩

def firstTab : Presentation configured loggedIn.db "first" loggedInRow :=
  tab ⟨"rotated", by decide⟩ "t1" (by decide +kernel) (by decide +kernel)

def secondTab : Presentation configured loggedIn.db "first" loggedInRow :=
  tab ⟨"third", by decide⟩ "t2" (by decide +kernel) (by decide +kernel)

def inTurn : List (RefreshLabel configured loggedIn.db "first" loggedInRow Bool) :=
  [.begin false firstTab, .begin true secondTab] ++ List.replicate 8 (.advance false) ++
    List.replicate 6 (.advance true)

def overtaken : List (RefreshLabel configured loggedIn.db "first" loggedInRow Bool) :=
  [.begin false firstTab, .begin true secondTab, .advance false, .advance true] ++
    List.replicate 7 (.advance false) ++ List.replicate 6 (.advance true)

def afterTurns : RefreshServer configured loggedIn.db "first" loggedInRow Bool :=
  (Runs.run (Server.step (rotate configured loggedIn.db "first" loggedInRow))
    (Server.initial loggedIn.db) inTurn).get (by decide +kernel)

theorem recovers_iff_undisturbed_of_inTurn : ∃ raw, AllRecovered afterTurns raw := by
  have hrun : Runs.run (Server.step (rotate configured loggedIn.db "first" loggedInRow))
      (Server.initial loggedIn.db) inTurn = some afterTurns := (Option.some_get _).symm
  have hcomplete : ∀ id, (afterTurns.advance id).isNone := by decide +kernel
  refine (recovers_iff_undisturbed configured ⟨fun _ token => token, some, fun _ _ _ => rfl⟩ rfl
    loggedIn.db "first" loggedInRow current_of_login inTurn afterTurns hrun
    (Runs.Along.of_check timely_of_check (by decide +kernel)) ⟨true, by decide +kernel⟩
    fun id => Option.isNone_iff_eq_none.mp (hcomplete id)).mpr ?_
  exact Runs.Along.of_check undisturbed_of_check (by decide +kernel)

def afterOvertaking : RefreshServer configured loggedIn.db "first" loggedInRow Bool :=
  (Runs.run (Server.step (rotate configured loggedIn.db "first" loggedInRow))
    (Server.initial loggedIn.db) overtaken).get (by decide +kernel)

/-- The second tab waits for the lock while the first one rotates: it is refused, and the user is
signed out. -/
theorem not_recovers_of_overtaken :
    Current configured loggedIn.db "first" loggedInRow ∧
      Runs.run (Server.step (rotate configured loggedIn.db "first" loggedInRow))
        (Server.initial loggedIn.db) overtaken = some afterOvertaking ∧
      Runs.Along (Server.step (rotate configured loggedIn.db "first" loggedInRow)) Timely
        (Server.initial loggedIn.db) overtaken ∧
      (∀ id, afterOvertaking.advance id = none) ∧
      afterOvertaking.result true = some (.error .replay) ∧
      (∀ family ∈ afterOvertaking.db.families, family.revokedAt.isSome) ∧
      ¬∃ raw, AllRecovered afterOvertaking raw := by
  have hcomplete : ∀ id, (afterOvertaking.advance id).isNone := by decide +kernel
  have hreplay : afterOvertaking.result true = some (.error .replay) := by decide +kernel
  refine ⟨current_of_login, (Option.some_get _).symm,
    Runs.Along.of_check timely_of_check (by decide +kernel),
    fun id => Option.isNone_iff_eq_none.mp (hcomplete id), hreplay, by decide +kernel, ?_⟩
  rintro ⟨raw, hrecovered⟩
  have hclient : (afterOvertaking.clients true).isSome := by decide +kernel
  obtain ⟨client, hclient⟩ := Option.isSome_iff_exists.mp hclient
  obtain ⟨session, hended, -⟩ := hrecovered.results true client hclient
  cases (Server.result_of_ended hclient hended).symm.trans hreplay

end TwoTabs

end Transcendence.Auth
