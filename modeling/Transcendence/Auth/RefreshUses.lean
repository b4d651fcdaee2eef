import Transcendence.Auth.RefreshChains

/-!
# The uses of a token

What a rotation does with the token it is given, from where the token stands in the chain of its
family: the head is replaced, the token that the head replaced recovers the head inside its grace,
and any other token is a replay.
-/

namespace Transcendence.Auth

open Transaction

namespace Database

variable {store : Store} {db : Database} {clock : Nat} {family : RefreshTokenFamilyRow}
  {r : RotateRequest} {row : RefreshRow} {head : AuthRefreshTokenRow}

/-! ### The locking query -/

theorem findRefresh_eq_some {tokenHash : String} {row : RefreshRow} :
    db.findRefresh tokenHash = some row ↔ db.findToken tokenHash = some row.token ∧
      db.findFamily row.token.familyId = some row.family ∧
      db.findUser row.family.userId = some row.user := by
  rw [findRefresh]
  constructor
  · intro hrow
    obtain ⟨token, htoken, hrow⟩ := Option.bind_eq_some_iff.mp hrow
    obtain ⟨family, hfamily, hrow⟩ := Option.bind_eq_some_iff.mp hrow
    obtain ⟨user, huser, rfl⟩ := Option.map_eq_some_iff.mp hrow
    exact ⟨htoken, hfamily, huser⟩
  · rintro ⟨htoken, hfamily, huser⟩
    rw [htoken, Option.bind_some, hfamily, Option.bind_some, huser]
    rfl

theorem findFamily_eq_some {familyId : String} {family : RefreshTokenFamilyRow}
    (hfamily : db.findFamily familyId = some family) : family ∈ db.families ∧ family.id = familyId := by
  have hid := List.find?_some hfamily
  exact ⟨List.mem_of_find?_eq_some hfamily, of_decide_eq_true hid⟩

/-- The locking query of a call that runs alone shows what there is. -/
theorem reread_self (db : Database) (tokenHash : String) :
    db.reread db tokenHash = db.findRefresh tokenHash := by
  rw [reread]
  cases hrow : db.findRefresh tokenHash with
  | none => rfl
  | some row =>
      obtain ⟨-, hfamily, -⟩ := findRefresh_eq_some.mp hrow
      show (db.findFamily row.family.id).map _ = _
      rw [(findFamily_eq_some hfamily).2, hfamily]
      rfl

theorem exec_rotateRefreshToken_of_none {r : RotateRequest}
    (hrow : db.findRefresh (store.hashToken r.token) = none) :
    (store.rotateRefreshToken r).exec db db = (.error .notFound, db) := by
  rw [Store.rotateRefreshToken, exec_lock, reread_self, hrow]
  rfl

theorem exec_rotateRefreshToken_of_some {r : RotateRequest} {row : RefreshRow}
    (hrow : db.findRefresh (store.hashToken r.token) = some row) :
    (store.rotateRefreshToken r).exec db db = (store.rotateLocked r row).exec db db := by
  rw [Store.rotateRefreshToken, exec_lock, reread_self, hrow]

/-! ### The token and the head -/

/-- The query of the head, after the expired successors are cleared. -/
theorem Chained.cleared_head (h : db.Chained) (now : Nat) (hfamily : family ∈ db.families)
    (hhead : db.IsHead family.id head) :
    ∃ cleared, (db.clearExpiredSuccessors now).head family.id = some cleared ∧
      cleared ∈ (db.clearExpiredSuccessors now).tokens ∧ cleared.id = head.id ∧
      cleared.tokenHash = head.tokenHash ∧ cleared.issuedAt = head.issuedAt ∧ cleared.expiresAt = head.expiresAt := by
  have hchain := (h.clearExpiredSuccessors now).chains family hfamily
  obtain ⟨init, last, heq, -⟩ := hchain.exists_head
  refine ⟨last, hchain.head_eq heq, (hchain.isHead heq).mem, ?_⟩
  obtain ⟨cleared, hmem, rfl | rfl⟩ := exists_cleared now hhead.mem
  · rw [← hchain.eq_head heq ⟨hmem, hhead.family, hhead.last⟩]
    exact ⟨rfl, rfl, rfl, rfl⟩
  · rw [← hchain.eq_head heq ⟨hmem, hhead.family, hhead.last⟩]
    exact ⟨rfl, rfl, rfl, rfl⟩

/-- The head of a live family has not expired. -/
theorem Chained.lt_expiresAt (h : db.Chained) (hfamily : row.family ∈ db.families)
    (hadmitted : store.Admitted r row) (hhead : db.IsHead row.family.id head) :
    r.now < head.expiresAt := by
  rw [(h.chains row.family hfamily).expires _ (mem_chain.mpr ⟨hhead.mem, hhead.family⟩) hhead.last]
  exact (Store.isLive_iff.mp hadmitted.live).2.1

/-- A rotation replaces one row. -/
theorem Chained.replaceableTokens_eq (h : db.Chained) {familyId : String}
    (hhead : db.IsHead familyId head) {inserted : Database}
    (hinserted : db.insertToken (store.newHead r row) = some inserted) :
    inserted.replaceableTokens head.id = 1 := by
  obtain ⟨hfresh, -, -, -, rfl⟩ := insertToken_eq_some.mp hinserted
  have hcount : db.tokens.countP (fun token => token.id = head.id && token.replacedById.isNone) =
      db.tokens.count head := by
    refine List.countP_congr fun token htoken => ?_
    rw [h.replaces_iff hhead htoken, beq_iff_eq]
  rw [replaceableTokens, List.countP_append, hcount,
    List.count_eq_one_of_mem (List.Nodup.of_map _ h.tokenIds) hhead.mem, List.countP_singleton,
    if_neg]
  rw [Bool.and_eq_true, decide_eq_true_iff]
  rintro ⟨hid, -⟩
  apply hfresh
  rw [hid]
  exact List.mem_map_of_mem hhead.mem

/-- Whether a replaced row meets the constraints depends on when it was issued. -/
theorem isValid_replaced_iff {token : AuthRefreshTokenRow} {now : Nat} {ciphertext newID : String} :
    (token.replaced now ciphertext newID).isValid ↔
      token.issuedAt < token.expiresAt ∧ token.issuedAt ≤ timestamp3 now := by
  rw [isValid_iff]
  constructor
  · rintro ⟨hexpires, hused, -⟩
    exact ⟨hexpires, hused _ rfl⟩
  · rintro ⟨hexpires, hissued⟩
    have hgrace : token.issuedAt ≤ timestamp3 (now + refreshTokenGrace) :=
      hissued.trans (timestamp3_mono (Nat.le_add_right _ _))
    refine ⟨hexpires, fun usedAt h => ?_, fun replacedAt h => ?_, fun graceExpiresAt h => ?_⟩
    · cases h
      exact hissued
    · cases h
      exact hissued
    · cases h
      exact hgrace

/-- The database takes the update of a rotation exactly if it takes what becomes of the head. -/
theorem Chained.replaceToken_isSome_iff (h : db.Chained) {familyId : String} (hhead : db.IsHead familyId head)
    {inserted : Database} (hinserted : db.insertToken (store.newHead r row) = some inserted) (ciphertext : String) :
    (∃ replaced, inserted.replaceToken head.id r.now ciphertext r.newID = some replaced) ↔
      (head.replaced r.now ciphertext r.newID).isValid := by
  obtain ⟨hfresh, -, -, -, rfl⟩ := insertToken_eq_some.mp hinserted
  constructor
  · rintro ⟨replaced, hreplaced⟩
    refine (replaceToken_eq_some.mp hreplaced).1 head (List.mem_append_left _ hhead.mem) ?_
    exact (h.replaces_iff hhead hhead.mem).mpr rfl
  · intro hvalid
    refine ⟨_, replaceToken_eq_some.mpr ⟨fun token htoken hchanged => ?_, rfl⟩⟩
    rcases List.mem_append.mp htoken with hmem | hnew
    · rw [(h.replaces_iff hhead hmem).mp hchanged]
      exact hvalid
    · obtain rfl := List.mem_singleton.mp hnew
      rw [Bool.and_eq_true, decide_eq_true_iff] at hchanged
      refine absurd ?_ hfresh
      rw [hchanged.1]
      exact List.mem_map_of_mem hhead.mem

/-- The row of a token that is neither the head nor its predecessor inside the grace. -/
theorem Chained.exec_of_replay (h : db.Chained) (hfamily : row.family ∈ db.families)
    (hadmitted : store.Admitted r row) (hhead : db.IsHead row.family.id head)
    (hcurrent : ¬(row.token.id = head.id ∧ row.token.replacedById = none))
    (hgrace : ¬Store.InGrace r row head.id) :
    (store.rotateLocked r row).exec db db =
      (.error .replay, Store.replayed r row (db.clearExpiredSuccessors r.now)) := by
  obtain ⟨cleared, hcleared, -, hclearedId, -⟩ := h.cleared_head r.now hfamily hhead
  rw [← hclearedId] at hgrace hcurrent
  rw [Store.exec_of_refreshReplay hadmitted hcleared (Store.useOf_of_not hcurrent hgrace)]

/-- The row of the predecessor of the head inside the grace. -/
theorem Chained.exec_of_inGrace (h : db.Chained) (hfamily : row.family ∈ db.families)
    (hadmitted : store.Admitted r row) (hhead : db.IsHead row.family.id head)
    (hgrace : Store.InGrace r row head.id) {ciphertext successor : String}
    (hciphertext : row.token.successorCiphertext = some ciphertext)
    {refreshCipher : RefreshTokenCipher} (hcipher : store.refreshCipher = some refreshCipher)
    (hdecrypt : refreshCipher.decrypt ciphertext = some successor)
    (hhash : store.hashToken successor = head.tokenHash) :
    (store.rotateLocked r row).exec db db =
      (.ok ⟨row.refreshFamily, successor, r.csrfToken⟩, db) := by
  obtain ⟨cleared, hcleared, hclearedMem, hclearedId, hclearedHash, -, hclearedExpires⟩ :=
    h.cleared_head r.now hfamily hhead
  have hfound : (db.clearExpiredSuccessors r.now).tokens.find? (·.id = cleared.id) = some cleared :=
    Table.find?_eq_some_of_mem (h.clearExpiredSuccessors r.now).tokenIds hclearedMem rfl
  have hlive : r.now < cleared.expiresAt := by
    rw [hclearedExpires]
    exact h.lt_expiresAt hfamily hadmitted hhead
  rw [Store.exec_of_refreshGrace hadmitted hcleared
    (Store.useOf_of_inGrace (hclearedId.symm ▸ hgrace)), Store.recoverSuccessor]
  simp only [hciphertext, hcipher, hdecrypt, exec_select, hfound, Store.verifyTokenHash, hhash,
    hclearedHash]
  rw [if_neg, if_neg]
  · rfl
  · exact not_not_intro hlive
  · exact Bool.false_ne_true

/-- What the predecessor of the head keeps of the head, inside the grace. -/
theorem Inv.recovers_of_inGrace (h : Inv store db clock) (hle : clock ≤ r.now)
    (htoken : row.token ∈ db.tokens) {familyId : String} (hhead : db.IsHead familyId head)
    (hgrace : Store.InGrace r row head.id) :
    ∃ ciphertext successor refreshCipher, row.token.successorCiphertext = some ciphertext ∧
      store.refreshCipher = some refreshCipher ∧ refreshCipher.decrypt ciphertext = some successor ∧
        store.hashToken successor = head.tokenHash := by
  have hrecovers := h.recovers row.token htoken head.id hgrace.1
  obtain ⟨graceExpiresAt, hgraceExpires, hsealed⟩ := hrecovers.grace
  have hinside : r.now < graceExpiresAt := by
    have hany := hgrace.2
    rw [hgraceExpires] at hany
    exact of_decide_eq_true hany
  obtain ⟨ciphertext, hciphertext⟩ :=
    Option.isSome_iff_exists.mp (hsealed (lt_of_le_of_lt hle hinside))
  obtain ⟨stored, hstored, hstoredId, refreshCipher, successor, hcipher, hdecrypt, hhash⟩ :=
    hrecovers.successor ciphertext hciphertext
  obtain rfl := Table.key_injective h.tokenIds hstored hhead.mem hstoredId
  exact ⟨ciphertext, successor, refreshCipher, hciphertext, hcipher, hdecrypt, hhash⟩

/-- A replay revokes every family of the user. -/
theorem Chained.revokedAt_replayed (h : db.Chained) (hfamily : family ∈ db.families)
    (huser : family.userId = row.user.id) :
    ∃ later, (Store.replayed r row (db.clearExpiredSuccessors r.now)).findFamily family.id =
      some later ∧ later.revokedAt.isSome := by
  have hfound : db.findFamily family.id = some family :=
    Table.find?_eq_some_of_mem h.familyIds hfamily rfl
  refine ⟨_, (Table.find?_update _ (by intros; rfl) _).trans (congrArg _ hfound), ?_⟩
  dsimp only
  split
  · rfl
  · rename_i hkept
    rw [Bool.and_eq_true, decide_eq_true_iff, not_and] at hkept
    rw [← Option.not_isNone, Bool.eq_false_iff.mpr (hkept huser)]
    rfl

end Database

end Transcendence.Auth
