import Transcendence.Auth.RefreshRotation

/-!
# Refresh-token families as chains

The tokens of a family are a chain: each row names the row that replaced it, and the last one is the
head of the family, which expires with it. Creating a family, replacing its head, clearing sealed
successors and revoking keep the chains, and with them that a replaced token recovers the token
that replaced it as long as its grace lasts.
-/

namespace Transcendence.Auth

namespace Database

/-- The tokens of a family, in the order in which they were inserted. -/
def chain (db : Database) (familyId : String) : List AuthRefreshTokenRow :=
  db.tokens.filter (·.familyId = familyId)

/-- The tokens of the family are one chain, each row naming the row after it, and the last one, the
head, expires with the family. -/
structure IsChain (db : Database) (family : RefreshTokenFamilyRow) : Prop where
  linked : Table.Linked (·.id) (·.replacedById) (db.chain family.id)
  expires : ∀ token ∈ db.chain family.id, token.replacedById = none →
    token.expiresAt = family.idleExpiresAt
  bounded : family.idleExpiresAt ≤ family.absoluteExpiresAt
  stored : timestamp3 family.absoluteExpiresAt = family.absoluteExpiresAt

/-- A replaced token has the ciphertext of the token that replaced it while its grace lasts. -/
structure Recovers (store : Store) (db : Database) (clock : Nat) (token : AuthRefreshTokenRow)
    (successorId : String) : Prop where
  grace : ∃ graceExpiresAt, token.graceExpiresAt = some graceExpiresAt ∧
    (clock < graceExpiresAt → token.successorCiphertext.isSome)
  successor : ∀ ciphertext, token.successorCiphertext = some ciphertext →
    ∃ successor ∈ db.tokens, successor.id = successorId ∧
      ∃ refreshCipher raw, store.refreshCipher = some refreshCipher ∧
        refreshCipher.decrypt ciphertext = some raw ∧ store.hashToken raw = successor.tokenHash

/-- The tables with their keys, and every family a chain. -/
structure Chained (db : Database) : Prop where
  tokenIds : (db.tokens.map (·.id)).Nodup
  tokenHashes : (db.tokens.map (·.tokenHash)).Nodup
  familyIds : (db.families.map (·.id)).Nodup
  tokenFamily : ∀ token ∈ db.tokens, token.familyId ∈ db.families.map (·.id)
  chains : ∀ family ∈ db.families, db.IsChain family

/-- The invariant of the calls: the chains, and the successors of the replaced tokens. -/
structure Inv (store : Store) (db : Database) (clock : Nat) : Prop extends db.Chained where
  recovers : ∀ token ∈ db.tokens, ∀ successorId, token.replacedById = some successorId →
    db.Recovers store clock token successorId

theorem inv_empty (store : Store) (users : List User) : Inv store ⟨users, [], [], [], []⟩ 0 where
  tokenIds := List.nodup_nil
  tokenHashes := List.nodup_nil
  familyIds := List.nodup_nil
  tokenFamily _ htoken := nomatch htoken
  chains _ hfamily := nomatch hfamily
  recovers _ htoken := nomatch htoken

/-- The head of a family. -/
structure IsHead (db : Database) (familyId : String) (head : AuthRefreshTokenRow) : Prop where
  mem : head ∈ db.tokens
  family : head.familyId = familyId
  last : head.replacedById = none

variable {store : Store} {db : Database} {clock : Nat} {family : RefreshTokenFamilyRow}
  {head : AuthRefreshTokenRow}

/-- The head of a family in its chain. -/
theorem IsChain.exists_head (h : db.IsChain family) : ∃ init head,
    db.chain family.id = init ++ [head] ∧ head.replacedById = none := h.linked.ends

theorem chain_filter (familyId : String) :
    (db.tokens.filter fun token => token.familyId = familyId && token.replacedById.isNone) =
      (db.chain familyId).filter (·.replacedById.isNone) := by
  rw [chain, List.filter_filter]
  refine List.filter_congr fun token _ => ?_
  rw [Bool.and_comm]

/-- The query of the head finds it. -/
theorem IsChain.head_eq (h : db.IsChain family) {init : List AuthRefreshTokenRow}
    {head : AuthRefreshTokenRow} (hchain : db.chain family.id = init ++ [head]) :
    db.head family.id = some head := by
  have hlinked := h.linked
  rw [hchain] at hlinked
  rw [Database.head, chain_filter, hchain, hlinked.filter_eq]
  rfl

theorem mem_chain {familyId : String} {token : AuthRefreshTokenRow} :
    token ∈ db.chain familyId ↔ token ∈ db.tokens ∧ token.familyId = familyId := by
  rw [chain, List.mem_filter, decide_eq_true_iff]

/-- The query of the head gives the last token of the chain. -/
theorem IsChain.chain_eq (h : db.IsChain family)
    (hhead : db.head family.id = some head) :
    ∃ init, db.chain family.id = init ++ [head] ∧ head.replacedById = none := by
  obtain ⟨init, last, hchain, hlast⟩ := h.exists_head
  obtain rfl : last = head := Option.some.inj ((h.head_eq hchain).symm.trans hhead)
  exact ⟨init, hchain, hlast⟩

theorem IsChain.isHead (h : db.IsChain family) {init : List AuthRefreshTokenRow}
    (hchain : db.chain family.id = init ++ [head]) : db.IsHead family.id head := by
  have hlinked := h.linked
  rw [hchain] at hlinked
  have hmem : head ∈ db.chain family.id := by
    rw [hchain]
    exact List.mem_concat_self
  exact ⟨(mem_chain.mp hmem).1, (mem_chain.mp hmem).2, hlinked.last_next⟩

theorem IsChain.eq_head (h : db.IsChain family) {init : List AuthRefreshTokenRow}
    {last : AuthRefreshTokenRow} (hchain : db.chain family.id = init ++ [last])
    (hhead : db.IsHead family.id head) : head = last := by
  have hlinked := h.linked
  have hmem := mem_chain.mpr ⟨hhead.mem, hhead.family⟩
  rw [hchain] at hlinked hmem
  exact hlinked.eq_last hmem hhead.last

theorem IsChain.existsUnique_head (h : db.IsChain family) : ∃! head, db.IsHead family.id head := by
  obtain ⟨init, last, hchain, -⟩ := h.exists_head
  exact ⟨last, h.isHead hchain, fun head hhead => h.eq_head hchain hhead⟩

theorem IsChain.isHead_of_head (h : db.IsChain family) (hhead : db.head family.id = some head) :
    db.IsHead family.id head := by
  obtain ⟨init, hchain, -⟩ := h.chain_eq hhead
  exact h.isHead hchain

/-! ### Clearing successors -/

theorem clearExpiredSuccessors_tokens_map {α : Type} (now : Nat) (column : AuthRefreshTokenRow → α)
    (hcolumn : ∀ token : AuthRefreshTokenRow,
      column { token with successorCiphertext := none } = column token) :
    (db.clearExpiredSuccessors now).tokens.map column = db.tokens.map column :=
  Table.map_update column (fun token _ => hcolumn token) db.tokens

theorem chain_clearExpiredSuccessors (now : Nat) (familyId : String) :
    (db.clearExpiredSuccessors now).chain familyId = Table.update
      (fun token => token.successorCiphertext.isSome && token.graceExpiresAt.any (· ≤ now))
      ({ · with successorCiphertext := none }) (db.chain familyId) :=
  Table.filter_update _ (by intros; rfl) db.tokens

theorem mem_clearExpiredSuccessors {now : Nat} {token : AuthRefreshTokenRow}
    (htoken : token ∈ (db.clearExpiredSuccessors now).tokens) :
    ∃ old ∈ db.tokens, token = old ∨
      (token = { old with successorCiphertext := none } ∧
        ∃ graceExpiresAt ≤ now, old.graceExpiresAt = some graceExpiresAt) := by
  obtain ⟨old, hold, rfl⟩ := Table.mem_update.mp htoken
  refine ⟨old, hold, ?_⟩
  split
  · rename_i hexpired
    obtain ⟨-, hgrace⟩ := Bool.and_eq_true _ _ ▸ hexpired
    obtain ⟨graceExpiresAt, heq, hle⟩ := (Option.any_eq_true ..).mp hgrace
    exact Or.inr ⟨rfl, graceExpiresAt, of_decide_eq_true hle, heq⟩
  · exact Or.inl rfl

theorem exists_cleared (now : Nat) {token : AuthRefreshTokenRow} (htoken : token ∈ db.tokens) :
    ∃ cleared ∈ (db.clearExpiredSuccessors now).tokens,
      cleared = token ∨ cleared = { token with successorCiphertext := none } := by
  refine ⟨_, Table.mem_update.mpr ⟨token, htoken, rfl⟩, ?_⟩
  split
  · exact Or.inr rfl
  · exact Or.inl rfl

/-- Whether the tokens are a chain depends on them and on the times of the family only. -/
theorem IsChain.congr {db' : Database} {family' : RefreshTokenFamilyRow} (h : db.IsChain family)
    (hchain : db'.chain family'.id = db.chain family.id)
    (hidle : family'.idleExpiresAt = family.idleExpiresAt)
    (habsolute : family'.absoluteExpiresAt = family.absoluteExpiresAt) : db'.IsChain family' := by
  refine ⟨?_, ?_, ?_, ?_⟩
  · rw [hchain]
    exact h.linked
  · rw [hchain, hidle]
    exact h.expires
  · rw [hidle, habsolute]
    exact h.bounded
  · rw [habsolute]
    exact h.stored

/-- A successor recovers a token in every later database that has the successor. -/
theorem Recovers.mono {db' : Database} {clock' : Nat} {token : AuthRefreshTokenRow}
    {successorId : String} (h : db.Recovers store clock token successorId) (hle : clock ≤ clock')
    (htokens : ∀ row ∈ db.tokens, ∃ row' ∈ db'.tokens, row'.id = row.id ∧
      row'.tokenHash = row.tokenHash) : db'.Recovers store clock' token successorId where
  grace := by
    obtain ⟨graceExpiresAt, hgrace, hkept⟩ := h.grace
    exact ⟨graceExpiresAt, hgrace, fun hlt => hkept (lt_of_le_of_lt hle hlt)⟩
  successor ciphertext hciphertext := by
    obtain ⟨successor, hmem, hid, refreshCipher, raw, hcipher, hdecrypt, hhash⟩ :=
      h.successor ciphertext hciphertext
    obtain ⟨row', hmem', hid', hhash'⟩ := htokens successor hmem
    exact ⟨row', hmem', hid'.trans hid, refreshCipher, raw, hcipher, hdecrypt, hhash.trans hhash'.symm⟩

theorem Inv.mono (h : Inv store db clock) {clock' : Nat} (hle : clock ≤ clock') :
    Inv store db clock' :=
  { h with
    recovers := fun token htoken successorId hreplaced =>
      (h.recovers token htoken successorId hreplaced).mono hle fun row hrow => ⟨row, hrow, rfl, rfl⟩ }

theorem Chained.clearExpiredSuccessors (h : db.Chained) (now : Nat) :
    (db.clearExpiredSuccessors now).Chained where
  tokenIds := by
    rw [clearExpiredSuccessors_tokens_map now (·.id) fun _ => rfl]
    exact h.tokenIds
  tokenHashes := by
    rw [clearExpiredSuccessors_tokens_map now (·.tokenHash) fun _ => rfl]
    exact h.tokenHashes
  familyIds := h.familyIds
  tokenFamily token htoken := by
    obtain ⟨old, hold, rfl | ⟨rfl, -⟩⟩ := mem_clearExpiredSuccessors htoken
    · exact h.tokenFamily token hold
    · exact h.tokenFamily old hold
  chains family hfamily := by
    have hchain := h.chains family hfamily
    refine ⟨?_, fun token htoken hnext => ?_, hchain.bounded, hchain.stored⟩
    · rw [chain_clearExpiredSuccessors]
      exact hchain.linked.update (fun _ _ => rfl) fun _ _ => rfl
    · rw [chain_clearExpiredSuccessors] at htoken
      obtain ⟨old, hold, rfl⟩ := Table.mem_update.mp htoken
      have hhead : old.replacedById = none := by split at hnext <;> exact hnext
      split <;> exact hchain.expires old hold hhead

theorem Inv.clearExpiredSuccessors (h : Inv store db clock) {now : Nat} (hle : clock ≤ now) :
    Inv store (db.clearExpiredSuccessors now) now := by
  refine ⟨h.toChained.clearExpiredSuccessors now, fun token htoken successorId hreplaced => ?_⟩
  have htokens : ∀ row ∈ db.tokens, ∃ row' ∈ (db.clearExpiredSuccessors now).tokens,
      row'.id = row.id ∧ row'.tokenHash = row.tokenHash := by
    intro row hrow
    obtain ⟨cleared, hmem, rfl | rfl⟩ := exists_cleared now hrow
    · exact ⟨_, hmem, rfl, rfl⟩
    · exact ⟨_, hmem, rfl, rfl⟩
  obtain ⟨old, hold, rfl | ⟨rfl, graceExpiresAt, hexpired, hgrace⟩⟩ :=
    mem_clearExpiredSuccessors htoken
  · exact (h.recovers token hold successorId hreplaced).mono hle htokens
  · refine ⟨⟨graceExpiresAt, hgrace, fun hlt => ?_⟩, nofun⟩
    exact absurd hlt (Nat.not_lt.mpr hexpired)

/-- An update of families that leaves their keys and their times. -/
theorem Chained.updateFamilies (h : db.Chained) {db' : Database}
    (among : RefreshTokenFamilyRow → Bool) (f : RefreshTokenFamilyRow → RefreshTokenFamilyRow)
    (htokens : db'.tokens = db.tokens) (hfamilies : db'.families = Table.update among f db.families)
    (hf : ∀ family, (f family).id = family.id ∧ (f family).idleExpiresAt = family.idleExpiresAt ∧
      (f family).absoluteExpiresAt = family.absoluteExpiresAt) : db'.Chained := by
  have hids : db'.families.map (·.id) = db.families.map (·.id) := by
    rw [hfamilies]
    exact Table.map_update _ (fun family _ => (hf family).1) _
  refine ⟨htokens ▸ h.tokenIds, htokens ▸ h.tokenHashes, hids ▸ h.familyIds, ?_, ?_⟩
  · rw [htokens, hids]
    exact h.tokenFamily
  · intro family hfamily
    rw [hfamilies] at hfamily
    obtain ⟨old, hold, rfl⟩ := Table.mem_update.mp hfamily
    have hchain : db'.chain old.id = db.chain old.id := by rw [chain, htokens, chain]
    split
    · apply (h.chains old hold).congr _ (hf old).2.1 (hf old).2.2
      rw [(hf old).1]
      exact hchain
    · exact (h.chains old hold).congr hchain rfl rfl

theorem Inv.updateFamilies (h : Inv store db clock) {db' : Database}
    (among : RefreshTokenFamilyRow → Bool) (f : RefreshTokenFamilyRow → RefreshTokenFamilyRow)
    (htokens : db'.tokens = db.tokens) (hfamilies : db'.families = Table.update among f db.families)
    (hf : ∀ family, (f family).id = family.id ∧ (f family).idleExpiresAt = family.idleExpiresAt ∧
      (f family).absoluteExpiresAt = family.absoluteExpiresAt) : Inv store db' clock := by
  refine ⟨h.toChained.updateFamilies among f htokens hfamilies hf, ?_⟩
  rw [htokens]
  intro token htoken successorId hreplaced
  refine (h.recovers token htoken successorId hreplaced).mono (Nat.le_refl clock) fun row hrow => ?_
  exact ⟨row, htokens ▸ hrow, rfl, rfl⟩

theorem Inv.revokeFamilies (h : Inv store db clock) (among : RefreshTokenFamilyRow → Bool)
    (reason : String) (databaseNow : Nat) :
    Inv store (db.revokeFamilies among reason databaseNow) clock :=
  h.updateFamilies _ _ rfl rfl fun _ => ⟨rfl, rfl, rfl⟩

theorem Inv.replayed (h : Inv store db clock) (r : RotateRequest) (row : RefreshRow) :
    Inv store (Store.replayed r row db) clock :=
  h.updateFamilies _ _ rfl rfl fun _ => ⟨rfl, rfl, rfl⟩

/-! ### Replacing the head -/

section Rotation

variable {r : RotateRequest} {row : RefreshRow} {inserted : Database}

/-- The row a rotation replaces is the head of the family, and no other. -/
theorem Chained.replaces_iff (h : db.Chained) {familyId : String} (hhead : db.IsHead familyId head)
    {token : AuthRefreshTokenRow} (htoken : token ∈ db.tokens) :
    (token.id = head.id && token.replacedById.isNone) = true ↔ token = head := by
  rw [Bool.and_eq_true, decide_eq_true_iff, Option.isNone_iff_eq_none]
  constructor
  · rintro ⟨hid, -⟩
    exact Table.key_injective h.tokenIds htoken hhead.mem hid
  · rintro rfl
    exact ⟨rfl, hhead.last⟩

/-- The head as the rotation leaves it. -/
def replacedHead (r : RotateRequest) (head : AuthRefreshTokenRow) (successorCiphertext : String) :
    AuthRefreshTokenRow :=
  head.replaced r.now successorCiphertext r.newID

variable (ciphertext : String)

/-- The family as the rotation leaves it. -/
def touchedFamily (r : RotateRequest) (row : RefreshRow) (family : RefreshTokenFamilyRow) :
    RefreshTokenFamilyRow :=
  { family with
    lastUsedAt := timestamp3 r.now
    idleExpiresAt := timestamp3 (min (r.now + r.idleTimeout) row.family.absoluteExpiresAt)
    updatedAt := timestamp3 r.now }

/-- The tokens that a rotation commits: the head replaced, and the new head behind them. -/
theorem tokens_rotated (hmem : head ∈ db.tokens)
    (hinserted : db.insertToken (store.newHead r row) = some inserted) :
    (Store.rotated r row head ciphertext inserted).tokens =
      Table.update (fun token => token.id = head.id && token.replacedById.isNone)
        (replacedHead r · ciphertext) db.tokens ++ [store.newHead r row] := by
  obtain ⟨hfresh, -, -, -, rfl⟩ := insertToken_eq_some.mp hinserted
  show Table.update _ _ (db.tokens ++ [store.newHead r row]) = _
  rw [Table.update_append, Table.update_singleton, if_neg]
  · rfl
  · intro hreplaces
    rw [Bool.and_eq_true, decide_eq_true_iff] at hreplaces
    apply hfresh
    rw [hreplaces.1]
    exact List.mem_map_of_mem hmem

theorem families_rotated (head : AuthRefreshTokenRow)
    (hinserted : db.insertToken (store.newHead r row) = some inserted) :
    (Store.rotated r row head ciphertext inserted).families =
      Table.update (·.id = row.family.id) (touchedFamily r row) db.families := by
  obtain ⟨-, -, -, -, rfl⟩ := insertToken_eq_some.mp hinserted
  rfl

theorem findFamily_rotated (head : AuthRefreshTokenRow)
    (hinserted : db.insertToken (store.newHead r row) = some inserted)
    (hfamily : db.findFamily row.family.id = some row.family) :
    (Store.rotated r row head ciphertext inserted).findFamily row.family.id =
      some (touchedFamily r row row.family) := by
  rw [findFamily, families_rotated ciphertext head hinserted, Table.find?_update _ (by intros; rfl)]
  show (db.findFamily row.family.id).map _ = _
  rw [hfamily, Option.map_some, if_pos (decide_eq_true rfl)]

theorem chain_rotated_eq (hmem : head ∈ db.tokens)
    (hinserted : db.insertToken (store.newHead r row) = some inserted) (familyId : String) :
    (Store.rotated r row head ciphertext inserted).chain familyId =
      Table.update (fun token => token.id = head.id && token.replacedById.isNone)
        (replacedHead r · ciphertext) (db.chain familyId) ++
          [store.newHead r row].filter (·.familyId = familyId) := by
  rw [chain, tokens_rotated ciphertext hmem hinserted, List.filter_append,
    Table.filter_update _ (by intros; rfl)]
  rfl

/-- The chain of the family grows by the new head. -/
theorem chain_rotated {init : List AuthRefreshTokenRow}
    (hlinked : Table.Linked (·.id) (·.replacedById) (db.chain row.family.id))
    (hchain : db.chain row.family.id = init ++ [head])
    (hinserted : db.insertToken (store.newHead r row) = some inserted) :
    (Store.rotated r row head ciphertext inserted).chain row.family.id =
      init ++ [replacedHead r head ciphertext, store.newHead r row] := by
  have hmem : head ∈ db.chain row.family.id := by
    rw [hchain]
    exact List.mem_concat_self
  rw [hchain] at hlinked
  rw [chain_rotated_eq ciphertext (mem_chain.mp hmem).1 hinserted, hchain, Table.update_append,
    Table.update_singleton, Table.update_eq_self, if_pos, List.filter_cons_of_pos, List.append_assoc]
  · rfl
  · exact decide_eq_true rfl
  · simp [hlinked.last_next]
  · intro token htoken
    obtain ⟨next, -, hnext⟩ := hlinked.next_isSome htoken
    rw [hnext]
    exact Bool.and_false _

/-- The chains of the other families are as they were. -/
theorem Chained.chain_rotated_of_ne (h : db.Chained)
    (hhead : db.IsHead row.family.id head)
    (hinserted : db.insertToken (store.newHead r row) = some inserted) {familyId : String}
    (hne : familyId ≠ row.family.id) :
    (Store.rotated r row head ciphertext inserted).chain familyId = db.chain familyId := by
  rw [chain_rotated_eq ciphertext hhead.mem hinserted, Table.update_eq_self, List.filter_cons_of_neg]
  · exact List.append_nil _
  · rw [decide_eq_true_iff]
    exact hne.symm
  · intro token htoken
    obtain ⟨htoken, htokenFamily⟩ := mem_chain.mp htoken
    by_contra hreplaces
    rw [Bool.not_eq_false, h.replaces_iff hhead htoken] at hreplaces
    apply hne
    rw [← htokenFamily, hreplaces, hhead.family]

/-- The family of a rotated chain expires with its new head. -/
theorem IsChain.rotated (h : db.IsChain row.family)
    (hhead : db.head row.family.id = some head)
    (hinserted : db.insertToken (store.newHead r row) = some inserted)
    (hid : family.id = row.family.id)
    (hidle : family.idleExpiresAt =
      timestamp3 (min (r.now + r.idleTimeout) row.family.absoluteExpiresAt))
    (habsolute : family.absoluteExpiresAt = row.family.absoluteExpiresAt) :
    (Store.rotated r row head ciphertext inserted).IsChain family := by
  obtain ⟨init, hchain, -⟩ := h.chain_eq hhead
  have hlinked := h.linked
  have hrotated := chain_rotated ciphertext hlinked hchain hinserted
  rw [hchain] at hlinked
  refine ⟨?_, fun token htoken hlast => ?_, ?_, ?_⟩
  · rw [hid, hrotated]
    exact hlinked.extend rfl rfl rfl
  · rw [hid, hrotated] at htoken
    have hextended : Table.Linked (·.id) (·.replacedById)
        ((init ++ [replacedHead r head ciphertext]) ++ [store.newHead r row]) := by
      rw [List.append_assoc]
      exact hlinked.extend rfl rfl rfl
    obtain rfl : token = store.newHead r row := by
      apply hextended.eq_last _ hlast
      rw [List.append_assoc]
      exact htoken
    exact hidle.symm
  · rw [hidle, habsolute]
    exact le_of_le_of_eq (timestamp3_mono (Nat.min_le_right _ _)) h.stored
  · rw [habsolute]
    exact h.stored

/-- The token a rotation replaces recovers the new head, and the others recover what they did. -/
theorem Inv.recovers_rotated (h : Inv store db r.now)
    (hmem : head ∈ db.tokens)
    (hinserted : db.insertToken (store.newHead r row) = some inserted)
    {refreshCipher : RefreshTokenCipher} (hcipher : store.refreshCipher = some refreshCipher)
    (hdecrypt : refreshCipher.decrypt ciphertext = some r.newToken.value)
    {token : AuthRefreshTokenRow}
    (htoken : token ∈ (Store.rotated r row head ciphertext inserted).tokens) {successorId : String}
    (hreplaced : token.replacedById = some successorId) :
    (Store.rotated r row head ciphertext inserted).Recovers store r.now token successorId := by
  have htokens := tokens_rotated ciphertext hmem hinserted
  have hkept : ∀ old ∈ db.tokens, ∃ kept ∈ (Store.rotated r row head ciphertext inserted).tokens,
      kept.id = old.id ∧ kept.tokenHash = old.tokenHash := by
    intro old hold
    rw [htokens]
    refine ⟨_, List.mem_append_left _ (Table.mem_update.mpr ⟨old, hold, rfl⟩), ?_⟩
    split <;> exact ⟨rfl, rfl⟩
  rw [htokens, List.mem_append, List.mem_singleton] at htoken
  rcases htoken with hupdated | rfl
  · obtain ⟨old, hold, rfl⟩ := Table.mem_update.mp hupdated
    split at hreplaced
    · rename_i hreplaces
      rw [if_pos hreplaces]
      obtain rfl : r.newID = successorId := Option.some.inj hreplaced
      refine ⟨⟨_, rfl, fun _ => rfl⟩, fun sealed hsealed => ?_⟩
      obtain rfl : ciphertext = sealed := Option.some.inj hsealed
      refine ⟨store.newHead r row, ?_, rfl, refreshCipher, _, hcipher, hdecrypt, rfl⟩
      rw [htokens]
      exact List.mem_concat_self
    · rename_i hreplaces
      rw [if_neg hreplaces]
      exact (h.recovers old hold successorId hreplaced).mono (Nat.le_refl _) hkept
  · cases hreplaced

/-- A rotation keeps the chains. -/
theorem Chained.rotated (h : db.Chained) (hfamily : row.family ∈ db.families)
    (hhead : db.head row.family.id = some head)
    (hinserted : db.insertToken (store.newHead r row) = some inserted) :
    (Store.rotated r row head ciphertext inserted).Chained := by
  have hrow := h.chains row.family hfamily
  have hisHead := hrow.isHead_of_head hhead
  have htokens := tokens_rotated ciphertext hisHead.mem hinserted
  have hfamilies := families_rotated ciphertext head hinserted
  have hmapFamilies : (Store.rotated r row head ciphertext inserted).families.map (·.id) =
      db.families.map (·.id) := by
    rw [hfamilies]
    exact Table.map_update _ (by intros; rfl) _
  obtain ⟨hfreshId, hfreshHash, hknown, -⟩ := insertToken_eq_some.mp hinserted
  refine ⟨?_, ?_, hmapFamilies ▸ h.familyIds, ?_, ?_⟩
  · rw [htokens]
    apply Table.nodup_concat <;> rw [Table.map_update _ (by intros; rfl)]
    · exact h.tokenIds
    · exact hfreshId
  · rw [htokens]
    apply Table.nodup_concat <;> rw [Table.map_update _ (by intros; rfl)]
    · exact h.tokenHashes
    · exact hfreshHash
  · intro token htoken
    rw [hmapFamilies]
    rw [htokens, List.mem_append, List.mem_singleton] at htoken
    rcases htoken with hupdated | rfl
    · obtain ⟨old, hold, rfl⟩ := Table.mem_update.mp hupdated
      split <;> exact h.tokenFamily old hold
    · exact hknown
  · intro family' hfamily'
    rw [hfamilies] at hfamily'
    obtain ⟨old, hold, rfl⟩ := Table.mem_update.mp hfamily'
    split
    · rename_i hid
      obtain rfl := Table.key_injective h.familyIds hold hfamily (of_decide_eq_true hid)
      exact hrow.rotated ciphertext hhead hinserted rfl rfl rfl
    · rename_i hid
      apply (h.chains old hold).congr _ rfl rfl
      exact h.chain_rotated_of_ne ciphertext hisHead hinserted
        (of_decide_eq_false (Bool.eq_false_iff.mpr hid))

theorem Inv.rotated (h : Inv store db r.now) (hfamily : row.family ∈ db.families)
    (hhead : db.head row.family.id = some head)
    (hinserted : db.insertToken (store.newHead r row) = some inserted)
    {refreshCipher : RefreshTokenCipher} (hcipher : store.refreshCipher = some refreshCipher)
    (hdecrypt : refreshCipher.decrypt ciphertext = some r.newToken.value) :
    Inv store (Store.rotated r row head ciphertext inserted) r.now := by
  have hisHead := (h.chains row.family hfamily).isHead_of_head hhead
  refine ⟨h.toChained.rotated ciphertext hfamily hhead hinserted, ?_⟩
  intro token htoken successorId hreplaced
  exact h.recovers_rotated ciphertext hisHead.mem hinserted hcipher hdecrypt htoken hreplaced

end Rotation

/-! ### A new family -/

theorem insertFamily_eq_some {inserted : Database} {family : RefreshTokenFamilyRow} :
    db.insertFamily family = some inserted ↔ family.id ∉ db.families.map (·.id) ∧
      family.userId ∈ db.users.map (·.id) ∧ family.isValid ∧
      inserted = { db with families := db.families ++ [family] } := by
  rw [insertFamily]
  split
  · rename_i hrefused
    refine ⟨nofun, fun h => ?_⟩
    rcases hrefused with hid | huser | hinvalid
    · exact absurd hid h.1
    · exact absurd h.2.1 huser
    · cases hinvalid.symm.trans h.2.2.1
  · rename_i hinserts
    simp only [not_or, not_not, Bool.not_eq_false] at hinserts
    rw [Option.some.injEq]
    exact ⟨fun h => ⟨hinserts.1, hinserts.2.1, hinserts.2.2, h.symm⟩, fun h => h.2.2.2.symm⟩

theorem chain_concat {db' : Database} {token : AuthRefreshTokenRow}
    (htokens : db'.tokens = db.tokens ++ [token]) (familyId : String) :
    db'.chain familyId = db.chain familyId ++ [token].filter (·.familyId = familyId) := by
  rw [chain, htokens, List.filter_append]
  rfl

/-- A new family with its first token. -/
theorem Inv.created (h : Inv store db clock) {token : AuthRefreshTokenRow}
    {withFamily inserted : Database} (hfamily : db.insertFamily family = some withFamily)
    (htoken : withFamily.insertToken token = some inserted) (hid : token.familyId = family.id)
    (hlast : token.replacedById = none) (hexpires : token.expiresAt = family.idleExpiresAt)
    (hbounded : family.idleExpiresAt ≤ family.absoluteExpiresAt)
    (hstored : timestamp3 family.absoluteExpiresAt = family.absoluteExpiresAt) :
    Inv store inserted clock := by
  obtain ⟨hnew, -, -, rfl⟩ := insertFamily_eq_some.mp hfamily
  obtain ⟨hfreshId, hfreshHash, -, -, rfl⟩ := insertToken_eq_some.mp htoken
  refine ⟨⟨Table.nodup_concat h.tokenIds hfreshId, Table.nodup_concat h.tokenHashes hfreshHash,
    Table.nodup_concat h.familyIds hnew, ?_, ?_⟩, ?_⟩
  · intro row hrow
    rw [List.map_append, List.mem_append]
    rcases List.mem_append.mp hrow with hold | hrow
    · exact Or.inl (h.tokenFamily row hold)
    · rw [List.mem_singleton.mp hrow, hid]
      exact Or.inr (List.mem_singleton_self _)
  · intro other hother
    rcases List.mem_append.mp hother with hold | hother
    · apply (h.chains other hold).congr _ rfl rfl
      rw [chain_concat rfl, List.filter_cons_of_neg]
      · exact List.append_nil _
      · rw [decide_eq_true_iff, hid]
        intro heq
        apply hnew
        rw [heq]
        exact List.mem_map_of_mem hold
    · obtain rfl := List.mem_singleton.mp hother
      have hempty : db.chain other.id = [] := by
        rw [chain, List.filter_eq_nil_iff]
        intro row hrow hrowFamily
        apply hnew
        rw [← of_decide_eq_true hrowFamily]
        exact h.tokenFamily row hrow
      have hchain : ∀ db' : Database, db'.tokens = db.tokens ++ [token] →
          db'.chain other.id = [token] := by
        intro db' htokens
        rw [chain_concat htokens, hempty, List.filter_cons_of_pos]
        · rfl
        · exact decide_eq_true hid
      refine ⟨?_, ?_, hbounded, hstored⟩
      · rw [hchain _ rfl]
        exact Table.linked_singleton hlast
      · rw [hchain _ rfl]
        intro row hrow _
        rw [List.mem_singleton.mp hrow]
        exact hexpires
  · intro row hrow successorId hreplaced
    rcases List.mem_append.mp hrow with hold | hrow
    · exact (h.recovers row hold successorId hreplaced).mono (Nat.le_refl _) fun kept hkept =>
        ⟨kept, List.mem_append_left _ hkept, rfl, rfl⟩
    · rw [List.mem_singleton.mp hrow, hlast] at hreplaced
      cases hreplaced

end Database

end Transcendence.Auth
