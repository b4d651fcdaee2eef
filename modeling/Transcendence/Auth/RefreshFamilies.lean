import Transcendence.Auth.RefreshUses
import Transcendence.Base.Runs

/-!
# Refresh-token families, call after call

The calls of the store one after the other, at times that do not go back. Each family is a chain of
tokens that ends in its head; what a call does with a token depends on where the token stands in
the chain of its family.
-/

namespace Transcendence.Auth

open Transaction

/-- The database, and the time of the last call. -/
structure Sessions where
  db : Database
  clock : Nat

namespace Sessions

inductive Label where
  | create (r : CreateRequest)
  | rotate (r : RotateRequest)
  | revoke (r : RevokeRequest)
  deriving DecidableEq

def Label.now : Label → Nat
  | .create r => r.now
  | .rotate r => r.now
  | .revoke r => r.now

/-- As `config.Load` enforces it. -/
def Label.Configured : Label → Prop
  | .create r => r.idleTimeout < r.absoluteTimeout
  | _ => True

def initial (users : List User) : Sessions := ⟨⟨users, [], [], [], []⟩, 0⟩

/-- The database after the call. -/
def call (store : Store) (db : Database) : Label → Database
  | .create r => ((store.createRefreshFamily r).exec db db).2
  | .rotate r => ((store.rotateRefreshToken r).exec db db).2
  | .revoke r => (store.revokeRefreshFamily db r).2

def step (store : Store) (s : Sessions) (label : Label) : Option Sessions :=
  if label.now < s.clock then none else some ⟨call store s.db label, label.now⟩

end Sessions

/-! ### The calls -/

namespace Database

variable {store : Store} {db : Database} {clock : Nat}

theorem Inv.rotate (h : Inv store db clock) {r : RotateRequest} (hle : clock ≤ r.now) :
    Inv store ((store.rotateRefreshToken r).exec db db).2 r.now := by
  cases hrow : db.findRefresh (store.hashToken r.token) with
  | none =>
      rw [exec_rotateRefreshToken_of_none hrow]
      exact h.mono hle
  | some row =>
      rw [exec_rotateRefreshToken_of_some hrow]
      have hcleared := h.clearExpiredSuccessors hle
      obtain ⟨-, hfamily, -⟩ := findRefresh_eq_some.mp hrow
      have houtcome : store.Outcome r row db ((store.rotateLocked r row).exec db db) :=
        Store.outcome_rotateLocked db
      generalize (store.rotateLocked r row).exec db db = outcome at houtcome ⊢
      cases houtcome with
      | refused error _ => exact h.mono hle
      | recovered successor => exact h.mono hle
      | replayed hadmitted head hhead huse => exact hcleared.replayed r row
      | rotated hadmitted head hhead huse refreshCipher hcipher inserted hinserted =>
          exact hcleared.rotated _ (findFamily_eq_some hfamily).1 hhead hinserted hcipher
            (refreshCipher.decrypt_encrypt _ _ r.newToken.nonempty)

theorem Inv.create (h : Inv store db clock) {r : CreateRequest}
    (hconfigured : r.idleTimeout < r.absoluteTimeout) :
    Inv store ((store.createRefreshFamily r).exec db db).2 clock := by
  rw [Store.createRefreshFamily]
  cases hfamily : db.insertFamily _ with
  | none =>
      rw [exec_execute_of_none _ _ hfamily]
      exact h
  | some withFamily =>
      rw [exec_execute_of_some _ _ hfamily]
      cases htoken : withFamily.insertToken _ with
      | none =>
          rw [exec_execute_of_none _ _ htoken]
          exact h
      | some inserted =>
          rw [exec_execute_of_some _ _ htoken]
          refine h.created hfamily htoken rfl rfl rfl ?_ (timestamp3_timestamp3 _)
          exact timestamp3_mono (Nat.add_le_add_left hconfigured.le r.now)

theorem Inv.revoke (h : Inv store db clock) (r : RevokeRequest) :
    Inv store (store.revokeRefreshFamily db r).2 clock := by
  rw [Store.revokeRefreshFamily]
  cases store.getRefreshFamily db r with
  | error error => exact h
  | ok family => exact h.revokeFamilies _ r.reason r.databaseNow

/-! ### What a call keeps -/

/-- A later row of the same family. -/
structure Continues (old new : RefreshTokenFamilyRow) : Prop where
  id : new.id = old.id
  userId : new.userId = old.userId
  csrfTokenHash : new.csrfTokenHash = old.csrfTokenHash
  absoluteExpiresAt : new.absoluteExpiresAt = old.absoluteExpiresAt
  revokedAt : ∀ revokedAt, old.revokedAt = some revokedAt → new.revokedAt = some revokedAt

theorem Continues.refl (row : RefreshTokenFamilyRow) : Continues row row :=
  ⟨rfl, rfl, rfl, rfl, fun _ hrevoked => hrevoked⟩

theorem Continues.trans {first second third : RefreshTokenFamilyRow} (h : Continues first second)
    (h' : Continues second third) : Continues first third :=
  ⟨h'.id.trans h.id, h'.userId.trans h.userId, h'.csrfTokenHash.trans h.csrfTokenHash,
    h'.absoluteExpiresAt.trans h.absoluteExpiresAt,
    fun revokedAt hrevoked => h'.revokedAt revokedAt (h.revokedAt revokedAt hrevoked)⟩

/-- The users, the families and the tokens of a database, in a later one. -/
structure Keeps (old new : Database) : Prop where
  users : new.users = old.users
  families : ∀ familyId family, old.findFamily familyId = some family →
    ∃ later, new.findFamily familyId = some later ∧ Continues family later
  tokens : ∀ tokenHash token, old.findToken tokenHash = some token →
    ∃ later, new.findToken tokenHash = some later ∧ later.id = token.id ∧
      later.familyId = token.familyId

theorem Keeps.refl (db : Database) : Keeps db db :=
  ⟨rfl, fun _ family hfamily => ⟨family, hfamily, .refl family⟩,
    fun _ token htoken => ⟨token, htoken, rfl, rfl⟩⟩

theorem Keeps.trans {first second third : Database} (h : Keeps first second)
    (h' : Keeps second third) : Keeps first third := by
  refine ⟨h'.users.trans h.users, fun familyId family hfamily => ?_,
    fun tokenHash token htoken => ?_⟩
  · obtain ⟨later, hlater, hcontinues⟩ := h.families familyId family hfamily
    obtain ⟨last, hlast, hcontinues'⟩ := h'.families familyId later hlater
    exact ⟨last, hlast, hcontinues.trans hcontinues'⟩
  · obtain ⟨later, hlater, hid, hfamilyId⟩ := h.tokens tokenHash token htoken
    obtain ⟨last, hlast, hid', hfamilyId'⟩ := h'.tokens tokenHash later hlater
    exact ⟨last, hlast, hid'.trans hid, hfamilyId'.trans hfamilyId⟩

theorem keeps_updateFamilies (among : RefreshTokenFamilyRow → Bool)
    (f : RefreshTokenFamilyRow → RefreshTokenFamilyRow)
    (hf : ∀ family, among family → Continues family (f family)) :
    Keeps db { db with families := Table.update among f db.families } := by
  refine ⟨rfl, fun familyId family hfamily => ?_, fun _ token htoken => ⟨token, htoken, rfl, rfl⟩⟩
  refine ⟨if among family then f family else family, ?_, ?_⟩
  · rw [findFamily, Table.find?_update]
    · exact congrArg (Option.map _) hfamily
    · intro row hrow
      rw [(hf row hrow).id]
  · split
    · rename_i hamong
      exact hf family hamong
    · exact .refl family

theorem keeps_updateTokens (among : AuthRefreshTokenRow → Bool)
    (f : AuthRefreshTokenRow → AuthRefreshTokenRow)
    (hf : ∀ token, (f token).id = token.id ∧ (f token).tokenHash = token.tokenHash ∧
      (f token).familyId = token.familyId) :
    Keeps db { db with tokens := Table.update among f db.tokens } := by
  refine ⟨rfl, fun _ family hfamily => ⟨family, hfamily, .refl family⟩,
    fun tokenHash token htoken => ?_⟩
  refine ⟨if among token then f token else token, ?_, ?_⟩
  · rw [findToken, Table.find?_update]
    · exact congrArg (Option.map _) htoken
    · intro row _
      rw [(hf row).2.1]
  · split
    · exact ⟨(hf token).1, (hf token).2.2⟩
    · exact ⟨rfl, rfl⟩

theorem keeps_insertToken {inserted : Database} {token : AuthRefreshTokenRow}
    (hinserted : db.insertToken token = some inserted) : Keeps db inserted := by
  obtain ⟨-, -, -, -, rfl⟩ := insertToken_eq_some.mp hinserted
  refine ⟨rfl, fun _ family hfamily => ⟨family, hfamily, .refl family⟩,
    fun tokenHash token htoken => ⟨token, ?_, rfl, rfl⟩⟩
  rw [findToken, List.find?_append]
  exact congrArg (Option.or · _) htoken

theorem keeps_insertFamily {inserted : Database} {family : RefreshTokenFamilyRow}
    (hinserted : db.insertFamily family = some inserted) : Keeps db inserted := by
  obtain ⟨-, -, -, rfl⟩ := insertFamily_eq_some.mp hinserted
  refine ⟨rfl, fun familyId family hfamily => ⟨family, ?_, .refl family⟩,
    fun _ token htoken => ⟨token, htoken, rfl, rfl⟩⟩
  rw [findFamily, List.find?_append]
  exact congrArg (Option.or · _) hfamily

theorem keeps_clearExpiredSuccessors (now : Nat) : Keeps db (db.clearExpiredSuccessors now) :=
  keeps_updateTokens _ _ fun _ => ⟨rfl, rfl, rfl⟩

theorem keeps_revokeFamilies (among : RefreshTokenFamilyRow → Bool) (reason : String)
    (databaseNow : Nat) : Keeps db (db.revokeFamilies among reason databaseNow) := by
  refine keeps_updateFamilies _ _ fun family hamong => ⟨rfl, rfl, rfl, rfl, ?_⟩
  intro revokedAt hrevoked
  rw [hrevoked, Bool.and_eq_true] at hamong
  exact absurd hamong.2 Bool.false_ne_true

theorem keeps_recordReplay (row : RefreshRow) (databaseNow : Nat) :
    Keeps db (db.recordReplay row databaseNow) := ⟨rfl, (Keeps.refl db).families, (Keeps.refl db).tokens⟩

theorem keeps_rotated {r : RotateRequest} {row : RefreshRow} (head : AuthRefreshTokenRow)
    (ciphertext : String) {inserted : Database}
    (hinserted : db.insertToken (store.newHead r row) = some inserted) :
    Keeps db (Store.rotated r row head ciphertext inserted) := by
  refine (keeps_insertToken hinserted).trans (.trans (keeps_updateTokens _ _ fun _ => ?_)
    (keeps_updateFamilies _ _ fun family _ => ?_))
  · exact ⟨rfl, rfl, rfl⟩
  · exact ⟨rfl, rfl, rfl, rfl, fun _ hrevoked => hrevoked⟩

/-- A rotation that holds the lock, whatever its snapshot was. -/
theorem keeps_rotateLocked (r : RotateRequest) (row : RefreshRow) :
    Keeps db ((store.rotateLocked r row).exec db db).2 := by
  have houtcome : store.Outcome r row db ((store.rotateLocked r row).exec db db) :=
    Store.outcome_rotateLocked db
  generalize (store.rotateLocked r row).exec db db = outcome at houtcome ⊢
  cases houtcome with
  | refused error _ => exact .refl db
  | recovered successor => exact .refl db
  | replayed hadmitted head hhead huse =>
      exact (keeps_clearExpiredSuccessors r.now).trans
        ((keeps_revokeFamilies _ _ _).trans (keeps_recordReplay row r.databaseNow))
  | rotated hadmitted head hhead huse refreshCipher hcipher inserted hinserted =>
      exact (keeps_clearExpiredSuccessors r.now).trans (keeps_rotated head _ hinserted)

theorem keeps_rotateRefreshToken (r : RotateRequest) :
    Keeps db ((store.rotateRefreshToken r).exec db db).2 := by
  cases hrow : db.findRefresh (store.hashToken r.token) with
  | none =>
      rw [exec_rotateRefreshToken_of_none hrow]
      exact .refl db
  | some row =>
      rw [exec_rotateRefreshToken_of_some hrow]
      exact keeps_rotateLocked r row

theorem keeps_createRefreshFamily (r : CreateRequest) :
    Keeps db ((store.createRefreshFamily r).exec db db).2 := by
  rw [Store.createRefreshFamily]
  cases hfamily : db.insertFamily _ with
  | none =>
      rw [exec_execute_of_none _ _ hfamily]
      exact .refl db
  | some withFamily =>
      rw [exec_execute_of_some _ _ hfamily]
      cases htoken : withFamily.insertToken _ with
      | none =>
          rw [exec_execute_of_none _ _ htoken]
          exact .refl db
      | some inserted =>
          rw [exec_execute_of_some _ _ htoken]
          exact (keeps_insertFamily hfamily).trans (keeps_insertToken htoken)

theorem keeps_revokeRefreshFamily (r : RevokeRequest) :
    Keeps db (store.revokeRefreshFamily db r).2 := by
  rw [Store.revokeRefreshFamily]
  cases store.getRefreshFamily db r with
  | error error => exact .refl db
  | ok family => exact keeps_revokeFamilies _ r.reason r.databaseNow

end Database

namespace Sessions

variable {store : Store} {s t : Sessions}

theorem step_eq_some {label : Label} :
    s.step store label = some t ↔ s.clock ≤ label.now ∧ t = ⟨call store s.db label, label.now⟩ := by
  rw [step]
  split
  · rename_i hback
    exact ⟨nofun, fun h => absurd hback (Nat.not_lt.mpr h.1)⟩
  · rename_i hforward
    rw [Option.some.injEq]
    exact ⟨fun h => ⟨Nat.not_lt.mp hforward, h.symm⟩, fun h => h.2.symm⟩

theorem inv_step {label : Label} (hconfigured : label.Configured)
    (h : Database.Inv store s.db s.clock) (hstep : s.step store label = some t) :
    Database.Inv store t.db t.clock := by
  obtain ⟨hle, rfl⟩ := step_eq_some.mp hstep
  cases label with
  | create r => exact (h.mono hle).create hconfigured
  | rotate r => exact h.rotate hle
  | revoke r => exact (h.mono hle).revoke r

theorem keeps_step {label : Label} (hstep : s.step store label = some t) :
    Database.Keeps s.db t.db := by
  obtain ⟨-, rfl⟩ := step_eq_some.mp hstep
  cases label with
  | create r => exact Database.keeps_createRefreshFamily r
  | rotate r => exact Database.keeps_rotateRefreshToken r
  | revoke r => exact Database.keeps_revokeRefreshFamily r

theorem keeps_run {labels : List Label} (hrun : Runs.run (step store) s labels = some t) :
    Database.Keeps s.db t.db :=
  Runs.Preserved.run (P := fun u => Database.Keeps s.db u.db)
    (fun _ _ _ hkept hstep => hkept.trans (keeps_step hstep)) (.refl s.db) hrun

theorem inv_run {labels : List Label} (hconfigured : ∀ label ∈ labels, label.Configured)
    (h : Database.Inv store s.db s.clock) (hrun : Runs.run (step store) s labels = some t) :
    Database.Inv store t.db t.clock :=
  Runs.Along.run (P := fun s => Database.Inv store s.db s.clock)
    (fun _ _ _ h hlabel hstep => inv_step hlabel h hstep) h
    (Runs.Along.of_forall (fun label hlabel _ => hconfigured label hlabel) s) hrun

/-- What a rotation answers to a token of a live family, whose head is `head`. -/
structure Answers (store : Store) (t : Sessions) (r : RotateRequest) (row : RefreshRow)
    (head : AuthRefreshTokenRow) : Prop where
  replay : row.token ≠ head → ¬Store.InGrace r row head.id →
    ((store.rotateRefreshToken r).exec t.db t.db).1 = .error .replay ∧
      ∀ family ∈ t.db.families, family.userId = row.user.id →
        ∃ later, ((store.rotateRefreshToken r).exec t.db t.db).2.findFamily family.id = some later ∧
          later.revokedAt.isSome
  recovery : Store.InGrace r row head.id → ∃ successor, store.hashToken successor = head.tokenHash ∧
    (store.rotateRefreshToken r).exec t.db t.db =
      (.ok ⟨row.refreshFamily, successor, r.csrfToken⟩, t.db)

/-- In every reachable state the tokens of each family are one chain that ends in its only head, the
head expires with the family, the family keeps its absolute expiry, and a token that is neither the
head nor its predecessor inside the grace signs the user out everywhere. -/
theorem families_are_chains (store : Store) (users : List User) (labels : List Label)
    (hconfigured : ∀ label ∈ labels, label.Configured) (t : Sessions)
    (hrun : Runs.run (step store) (initial users) labels = some t) :
    (∀ family ∈ t.db.families,
      t.db.IsChain family ∧ ∃! head, t.db.IsHead family.id head) ∧
    (∀ earlier, earlier <+: labels → ∀ s, Runs.run (step store) (initial users) earlier = some s →
      ∀ familyId family, s.db.findFamily familyId = some family →
        ∃ later, t.db.findFamily familyId = some later ∧
          later.absoluteExpiresAt = family.absoluteExpiresAt) ∧
    ∀ r, t.clock ≤ r.now → ∀ row, t.db.findRefresh (store.hashToken r.token) = some row →
      store.Admitted r row → ∀ head, t.db.IsHead row.family.id head → Answers store t r row head := by
  have hinv := inv_run hconfigured (Database.inv_empty store users) hrun
  refine ⟨fun family hfamily => ?_, fun earlier hearlier s hs familyId family hfamily => ?_,
    fun r hle row hrow hadmitted head hhead => ⟨fun hne hgrace => ?_, fun hgrace => ?_⟩⟩
  · have hchain := hinv.chains family hfamily
    exact ⟨hchain, hchain.existsUnique_head⟩
  · obtain ⟨rest, rfl⟩ := hearlier
    obtain ⟨u, hu, hrest⟩ := Runs.run_append_eq_some.mp hrun
    obtain rfl := Option.some.inj (hs.symm.trans hu)
    obtain ⟨later, hlater, hcontinues⟩ := (keeps_run hrest).families familyId family hfamily
    exact ⟨later, hlater, hcontinues.absoluteExpiresAt⟩
  · obtain ⟨htoken, hfamily, -⟩ := Database.findRefresh_eq_some.mp hrow
    have hmem := (Database.findFamily_eq_some hfamily).1
    have hcurrent : ¬(row.token.id = head.id ∧ row.token.replacedById = none) := by
      rintro ⟨hid, -⟩
      apply hne
      exact Table.key_injective hinv.tokenIds (List.mem_of_find?_eq_some htoken) hhead.mem hid
    rw [Database.exec_rotateRefreshToken_of_some hrow,
      hinv.exec_of_replay hmem hadmitted hhead hcurrent hgrace]
    exact ⟨rfl, fun family hfamily huser => hinv.revokedAt_replayed hfamily huser⟩
  · obtain ⟨htoken, hfamily, -⟩ := Database.findRefresh_eq_some.mp hrow
    have hmem := (Database.findFamily_eq_some hfamily).1
    obtain ⟨ciphertext, successor, refreshCipher, hciphertext, hcipher, hdecrypt, hhash⟩ :=
      hinv.recovers_of_inGrace hle (List.mem_of_find?_eq_some htoken) hhead hgrace
    refine ⟨successor, hhash, ?_⟩
    rw [Database.exec_rotateRefreshToken_of_some hrow]
    exact hinv.exec_of_inGrace hmem hadmitted hhead hgrace hciphertext hcipher hdecrypt hhash

/-! ### A login, a rotation and a replay -/

def configured : Store where
  hashToken token := "sha256:" ++ token
  refreshCipher := some ⟨fun _ token => token, some, fun _ _ _ => rfl⟩

def activeUser : User :=
  ⟨"user", "user@example.org", true, "user", none, none, none, none, .ACTIVE, .USER⟩

def login : CreateRequest :=
  ⟨activeUser, .LOCAL, 604800 * second, 2592000 * second, none, none, 0, ⟨"first", by decide⟩,
    ⟨"csrf", by decide⟩, "family", "t0"⟩

theorem login_configured : (Label.create login).Configured := by
  show 604800 * second < 2592000 * second
  decide

def rotation (token : String) (now : Nat) (newToken : RandomToken) (newID : String) :
    RotateRequest :=
  ⟨token, "csrf", 604800 * second, now, now, newToken, newID, "nonce"⟩

def rotatedOnce : List Label :=
  [.create login, .rotate (rotation "first" second ⟨"second", by decide⟩ "t1")]

def afterRotation : Sessions :=
  (Runs.run (step configured) (initial [activeUser]) rotatedOnce).get (by decide +kernel)

def replayedRow : RefreshRow :=
  (afterRotation.db.findRefresh (configured.hashToken "first")).get (by decide +kernel)

def currentHead : AuthRefreshTokenRow := (afterRotation.db.head "family").get (by decide +kernel)

/-- The first token again, twenty seconds after it was replaced. -/
theorem families_are_chains_of_replay :
    Runs.run (step configured) (initial [activeUser]) rotatedOnce = some afterRotation ∧
      (∀ family ∈ afterRotation.db.families,
        afterRotation.db.IsChain family ∧ ∃! head, afterRotation.db.IsHead family.id head) ∧
      ((configured.rotateRefreshToken (rotation "first" (21 * second) ⟨"third", by decide⟩ "t2")).exec
        afterRotation.db afterRotation.db).1 = .error .replay := by
  have hrun : Runs.run (step configured) (initial [activeUser]) rotatedOnce = some afterRotation :=
    (Option.some_get _).symm
  have hconfigured : ∀ label ∈ rotatedOnce, label.Configured := by
    intro label hlabel
    rcases List.mem_pair.mp hlabel with rfl | rfl
    · exact login_configured
    · trivial
  obtain ⟨hchains, -, hanswers⟩ :=
    families_are_chains configured [activeUser] rotatedOnce hconfigured afterRotation hrun
  have hanswer := hanswers (rotation "first" (21 * second) ⟨"third", by decide⟩ "t2")
    (by decide +kernel) replayedRow (Option.some_get _).symm ⟨by decide +kernel, by decide +kernel⟩
    currentHead ⟨by decide +kernel, by decide +kernel, by decide +kernel⟩
  refine ⟨hrun, hchains, (hanswer.replay (by decide +kernel) ?_).1⟩
  rintro ⟨-, hgrace⟩
  exact absurd hgrace (by decide +kernel)

end Sessions

end Transcendence.Auth
