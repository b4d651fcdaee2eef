import Transcendence.Auth.Store

/-!
# What a rotation does

`RotateRefreshToken` from the moment it holds the lock of the family: it leaves the database alone
and answers an error or the current token, or it revokes the families of a user, or it replaces the
current token. The conditions of the three are those of `rotateLocked`, with what the locking query
has returned.
-/

namespace Transcendence.Auth

open Transaction

theorem isValid_iff {row : AuthRefreshTokenRow} : row.isValid ↔ row.issuedAt < row.expiresAt ∧
    (∀ usedAt, row.usedAt = some usedAt → row.issuedAt ≤ usedAt) ∧
      (∀ replacedAt, row.replacedAt = some replacedAt → row.issuedAt ≤ replacedAt) ∧
        ∀ graceExpiresAt, row.graceExpiresAt = some graceExpiresAt → row.issuedAt ≤ graceExpiresAt := by
  simp only [AuthRefreshTokenRow.isValid, Bool.and_eq_true, decide_eq_true_eq, Option.all_eq_true, and_assoc]

/-! ### Instants in the database -/

@[simp] theorem timestamp3_timestamp3 (t : Nat) : timestamp3 (timestamp3 t) = timestamp3 t := by
  unfold timestamp3
  omega

namespace Database

theorem insertToken_eq_some {db inserted : Database} {row : AuthRefreshTokenRow} :
    db.insertToken row = some inserted ↔ row.id ∉ db.tokens.map (·.id) ∧
      row.tokenHash ∉ db.tokens.map (·.tokenHash) ∧ row.familyId ∈ db.families.map (·.id) ∧ row.isValid ∧
      inserted = { db with tokens := db.tokens ++ [row] } := by
  rw [insertToken]
  split
  · rename_i hrefused
    refine ⟨nofun, fun h => ?_⟩
    rcases hrefused with hid | hhash | hfamily | hinvalid
    · exact absurd hid h.1
    · exact absurd hhash h.2.1
    · exact absurd h.2.2.1 hfamily
    · cases hinvalid.symm.trans h.2.2.2.1
  · rename_i hinserts
    simp only [not_or, not_not, Bool.not_eq_false] at hinserts
    rw [Option.some.injEq]
    exact ⟨fun h => ⟨hinserts.1, hinserts.2.1, hinserts.2.2.1, hinserts.2.2.2, h.symm⟩, fun h => h.2.2.2.2.symm⟩

/-- The update is refused exactly if a row that it changes breaks a constraint. -/
theorem replaceToken_eq_some {db replaced : Database} {id : String} {now : Nat} {successorCiphertext newID : String} :
    db.replaceToken id now successorCiphertext newID = some replaced ↔
      (∀ token ∈ db.tokens, (token.id = id && token.replacedById.isNone) = true →
        (token.replaced now successorCiphertext newID).isValid) ∧
      replaced = db.replaceTokens id now successorCiphertext newID := by
  rw [replaceToken]
  split
  · rename_i hrefused
    refine ⟨nofun, fun h => ?_⟩
    obtain ⟨token, htoken, hinvalid⟩ := List.any_eq_true.mp hrefused
    obtain ⟨hchanged, hinvalid⟩ := (Bool.and_eq_true ..).mp hinvalid
    rw [h.1 token htoken hchanged] at hinvalid
    cases hinvalid
  · rename_i hreplaces
    rw [Option.some.injEq]
    refine ⟨fun h => ⟨fun token htoken hchanged => ?_, h.symm⟩, fun h => h.2.symm⟩
    by_contra hinvalid
    refine hreplaces (List.any_eq_true.mpr ⟨token, htoken, ?_⟩)
    rw [hchanged, Bool.eq_false_iff.mpr hinvalid]
    rfl

end Database

namespace Store

/-- The row that a rotation inserts. -/
def newHead (store : Store) (r : RotateRequest) (row : RefreshRow) : AuthRefreshTokenRow where
  id := r.newID
  familyId := row.family.id
  tokenHash := store.hashToken r.newToken.value
  issuedAt := timestamp3 r.now
  usedAt := none
  replacedAt := none
  graceExpiresAt := none
  successorCiphertext := none
  expiresAt := timestamp3 (min (r.now + r.idleTimeout) row.family.absoluteExpiresAt)
  replacedById := none

/-- What a rotation commits, from the database with the new row in it. -/
def rotated (r : RotateRequest) (row : RefreshRow) (head : AuthRefreshTokenRow)
    (successorCiphertext : String) (inserted : Database) : Database :=
  (inserted.replaceTokens head.id r.now successorCiphertext r.newID).updateActivity row.family.id r.now
    (min (r.now + r.idleTimeout) row.family.absoluteExpiresAt)

/-- What a replay commits. -/
def replayed (r : RotateRequest) (row : RefreshRow) (db : Database) : Database :=
  (db.revokeFamilies (·.userId = row.user.id) "REFRESH_TOKEN_REPLAY" r.databaseNow).recordReplay row
    r.databaseNow

/-- The family is live, and the request has its CSRF token. -/
structure Admitted (store : Store) (r : RotateRequest) (row : RefreshRow) : Prop where
  live : row.isLive r.now
  csrf : store.verifyTokenHash r.csrfToken row.family.csrfTokenHash

/-- The use of a token, as the locking query and the query of the head show it. -/
def useOf (r : RotateRequest) (row : RefreshRow) (head : AuthRefreshTokenRow) : RefreshUse :=
  classifyRefreshUse row.token.id row.token.replacedById head.id row.token.graceExpiresAt r.now

/-- The token is the immediate predecessor of the head, inside its grace. -/
def InGrace (r : RotateRequest) (row : RefreshRow) (headId : String) : Prop :=
  row.token.replacedById = some headId ∧ row.token.graceExpiresAt.any (r.now < ·)

inductive Outcome (store : Store) (r : RotateRequest) (row : RefreshRow) (db : Database) :
    Except StoreError CreatedRefreshSession × Database → Prop where
  | refused (error : StoreError) (hne : error ≠ .replay) : Outcome store r row db (.error error, db)
  | recovered (successor : String) :
      Outcome store r row db (.ok ⟨row.refreshFamily, successor, r.csrfToken⟩, db)
  | replayed (hadmitted : store.Admitted r row) (head : AuthRefreshTokenRow)
      (hhead : (db.clearExpiredSuccessors r.now).head row.family.id = some head)
      (huse : useOf r row head = .refreshReplay) :
      Outcome store r row db (.error .replay, replayed r row (db.clearExpiredSuccessors r.now))
  | rotated (hadmitted : store.Admitted r row) (head : AuthRefreshTokenRow)
      (hhead : (db.clearExpiredSuccessors r.now).head row.family.id = some head)
      (huse : useOf r row head = .refreshCurrent) (refreshCipher : RefreshTokenCipher)
      (hcipher : store.refreshCipher = some refreshCipher) (inserted : Database)
      (hinserted : (db.clearExpiredSuccessors r.now).insertToken (store.newHead r row) = some inserted) :
      Outcome store r row db
        (.ok ⟨{ row.refreshFamily with
            idleExpiresAt := min (r.now + r.idleTimeout) row.family.absoluteExpiresAt },
          r.newToken.value, r.csrfToken⟩,
          rotated r row head (refreshCipher.encrypt r.nonce r.newToken.value) inserted)

variable {store : Store} {r : RotateRequest} {row : RefreshRow} {head : AuthRefreshTokenRow}

theorem useOf_of_inGrace (h : InGrace r row head.id) : useOf r row head = .refreshGrace := by
  rw [useOf, classifyRefreshUse, if_neg, if_pos]
  · exact h
  · intro hcurrent
    cases hcurrent.2.symm.trans h.1

theorem useOf_of_not (hcurrent : ¬(row.token.id = head.id ∧ row.token.replacedById = none))
    (hgrace : ¬InGrace r row head.id) : useOf r row head = .refreshReplay := by
  rw [useOf, classifyRefreshUse, if_neg hcurrent, if_neg]
  exact hgrace

theorem useOf_of_head (hid : row.token.id = head.id) (hlast : row.token.replacedById = none) :
    useOf r row head = .refreshCurrent := by
  rw [useOf, classifyRefreshUse, if_pos]
  exact ⟨hid, hlast⟩

theorem isLive_iff {now : Nat} : row.isLive now ↔ row.family.revokedAt = none ∧
    now < row.family.idleExpiresAt ∧ now < row.family.absoluteExpiresAt ∧
      row.user.status = .ACTIVE := by
  simp only [RefreshRow.isLive, Bool.and_eq_true, Option.isNone_iff_eq_none, decide_eq_true_iff,
    and_assoc]

theorem outcome_recoverSuccessor (db view : Database) :
    store.Outcome r row db ((store.recoverSuccessor r row head).exec db view) := by
  rw [recoverSuccessor]
  split
  · split
    · exact .refused _ nofun
    · simp only [exec_select]
      split
      · exact .refused _ nofun
      · split_ifs
        · exact .refused _ nofun
        · exact .recovered _
        · exact .refused _ nofun
  · exact .refused _ nofun

/-- A head that has not expired is replaced, if the database takes the rows. -/
theorem exec_replaceHead (hlive : r.now < head.expiresAt) {refreshCipher : RefreshTokenCipher}
    (hcipher : store.refreshCipher = some refreshCipher) {db view inserted replaced : Database}
    (hinserted : view.insertToken (store.newHead r row) = some inserted)
    (hreplaced : inserted.replaceToken head.id r.now (refreshCipher.encrypt r.nonce r.newToken.value) r.newID =
      some replaced) (hcount : inserted.replaceableTokens head.id = 1) :
    (store.replaceHead r row head).exec db view =
      (.ok ⟨{ row.refreshFamily with
          idleExpiresAt := min (r.now + r.idleTimeout) row.family.absoluteExpiresAt },
        r.newToken.value, r.csrfToken⟩,
        rotated r row head (refreshCipher.encrypt r.nonce r.newToken.value) inserted) := by
  rw [replaceHead, if_neg (not_not_intro hlive), hcipher]
  simp only
  rw [exec_execute_of_some _ _ hinserted, exec_statement, hreplaced, Option.isNone_some, if_neg Bool.false_ne_true,
    if_neg (not_not_intro hcount), (Database.replaceToken_eq_some.mp hreplaced).2]
  rfl

/-- A head is replaced only if the database takes the rows. -/
theorem taken_of_replaceHead {db view : Database} {session : CreatedRefreshSession}
    (h : ((store.replaceHead r row head).exec db view).1 = .ok session) :
    ∃ ciphertext inserted replaced, view.insertToken (store.newHead r row) = some inserted ∧
      inserted.replaceToken head.id r.now ciphertext r.newID = some replaced := by
  rw [replaceHead] at h
  split at h
  · cases h
  · cases hcipher : store.refreshCipher with
    | none =>
        rw [hcipher] at h
        cases h
    | some refreshCipher =>
        rw [hcipher] at h
        simp only at h
        cases hinserted : view.insertToken (store.newHead r row) with
        | none =>
            rw [exec_execute_of_none _ _ hinserted] at h
            cases h
        | some inserted =>
            rw [exec_execute_of_some _ _ hinserted, exec_statement] at h
            cases hreplaced : inserted.replaceToken head.id r.now (refreshCipher.encrypt r.nonce r.newToken.value)
                r.newID with
            | none =>
                rw [hreplaced] at h
                cases h
            | some replaced => exact ⟨_, inserted, replaced, rfl, hreplaced⟩

theorem outcome_replaceHead (hadmitted : store.Admitted r row) (db : Database)
    (hhead : (db.clearExpiredSuccessors r.now).head row.family.id = some head)
    (huse : useOf r row head = .refreshCurrent) :
    store.Outcome r row db
      ((store.replaceHead r row head).exec db (db.clearExpiredSuccessors r.now)) := by
  rw [replaceHead]
  split
  · exact .refused _ nofun
  · cases hcipher : store.refreshCipher with
    | none => exact .refused _ nofun
    | some refreshCipher =>
        simp only
        cases hinserted : (db.clearExpiredSuccessors r.now).insertToken (store.newHead r row) with
        | none =>
            rw [exec_execute_of_none _ _ hinserted]
            exact .refused _ nofun
        | some inserted =>
            rw [exec_execute_of_some _ _ hinserted, exec_statement]
            cases hreplaced : inserted.replaceToken head.id r.now (refreshCipher.encrypt r.nonce r.newToken.value)
                r.newID with
            | none => exact .refused _ nofun
            | some replaced =>
                rw [Option.isNone_some, if_neg Bool.false_ne_true, (Database.replaceToken_eq_some.mp hreplaced).2]
                split
                · exact .refused _ nofun
                · exact .rotated hadmitted head hhead huse refreshCipher hcipher inserted hinserted

/-! ### The three uses of a token -/

theorem exec_rotateLocked (hadmitted : store.Admitted r row) (db : Database) :
    (store.rotateLocked r row).exec db db =
      (store.useToken r row).exec db (db.clearExpiredSuccessors r.now) := by
  rw [rotateLocked, exec_statement, hadmitted.live, hadmitted.csrf]
  rfl

section Uses

variable (hadmitted : store.Admitted r row) {db : Database}
  (hhead : (db.clearExpiredSuccessors r.now).head row.family.id = some head)
include hadmitted hhead

theorem exec_of_refreshGrace (huse : useOf r row head = .refreshGrace) :
    (store.rotateLocked r row).exec db db =
      (store.recoverSuccessor r row head).exec db (db.clearExpiredSuccessors r.now) := by
  rw [useOf] at huse
  simp only [exec_rotateLocked hadmitted, useToken, exec_select, hhead, huse]

theorem exec_of_refreshReplay (huse : useOf r row head = .refreshReplay) :
    (store.rotateLocked r row).exec db db =
      (.error .replay, replayed r row (db.clearExpiredSuccessors r.now)) := by
  rw [useOf] at huse
  simp only [exec_rotateLocked hadmitted, useToken, exec_select, hhead, huse]
  rfl

theorem exec_of_refreshCurrent (huse : useOf r row head = .refreshCurrent) :
    (store.rotateLocked r row).exec db db =
      (store.replaceHead r row head).exec db (db.clearExpiredSuccessors r.now) := by
  rw [useOf] at huse
  simp only [exec_rotateLocked hadmitted, useToken, exec_select, hhead, huse]

end Uses

/-- Every end of a rotation that holds the lock. -/
theorem outcome_rotateLocked (db : Database) :
    store.Outcome r row db ((store.rotateLocked r row).exec db db) := by
  by_cases hlive : row.isLive r.now
  · by_cases hcsrf : store.verifyTokenHash r.csrfToken row.family.csrfTokenHash
    · have hadmitted : store.Admitted r row := ⟨hlive, hcsrf⟩
      cases hhead : (db.clearExpiredSuccessors r.now).head row.family.id with
      | none =>
          simp only [exec_rotateLocked hadmitted, useToken, exec_select, hhead]
          exact .refused _ nofun
      | some head =>
          cases huse : useOf r row head with
          | refreshGrace =>
              rw [exec_of_refreshGrace hadmitted hhead huse]
              exact outcome_recoverSuccessor _ _
          | refreshReplay =>
              rw [exec_of_refreshReplay hadmitted hhead huse]
              exact .replayed hadmitted head hhead huse
          | refreshCurrent =>
              rw [exec_of_refreshCurrent hadmitted hhead huse]
              exact outcome_replaceHead hadmitted db hhead huse
    · rw [Bool.not_eq_true] at hcsrf
      rw [rotateLocked, exec_statement, hlive, hcsrf]
      exact .refused _ nofun
  · rw [Bool.not_eq_true] at hlive
    rw [rotateLocked, exec_statement, hlive]
    exact .refused _ nofun

end Store

end Transcendence.Auth
