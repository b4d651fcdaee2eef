import Transcendence.Auth.CallbackSteps

/-!
# Each start is consumed once

A callback consumes the transaction of the start whose state it presents, whichever browser delivers
it, and no other callback consumes it again. Two states that are drawn are never the same, and the
digest keeps them apart.
-/

namespace Transcendence.Auth.OAuthCallbacks

/-- The request of a callback and the transaction that it has consumed. -/
def State.consumption (s : State) (i : Nat) : Option (CallbackRequest × OAuthTransaction) :=
  (s.calls i).bind fun call => call.phase.transaction.map fun transaction => (call.request, transaction)

variable {config : OAuth42} {s t : State} {id i : Nat} {label : Label} {request : CallbackRequest} {phase : Phase}

/-! ### The ledger of transactions -/

theorem consumption_of_call (hcall : s.calls i = some ⟨request, phase⟩) :
    s.consumption i = phase.transaction.map fun transaction => (request, transaction) := by
  rw [State.consumption, hcall, Option.bind_some]

theorem consumption_update (hcalls : t.calls = Function.update s.calls id (some ⟨request, phase⟩)) :
    t.consumption = Function.update s.consumption id (phase.transaction.map fun transaction => (request, transaction)) := by
  funext i
  by_cases hi : i = id
  · subst hi
    rw [Function.update_self]
    exact consumption_of_call (by rw [hcalls, Function.update_self])
  · rw [Function.update_of_ne hi, State.consumption, hcalls, Function.update_of_ne hi, State.consumption]

/-- A call that goes on with what it has consumed. -/
theorem consumption_keep {before : Phase} (hcalls : t.calls = Function.update s.calls id (some ⟨request, phase⟩))
    (hcall : s.calls id = some ⟨request, before⟩) (hsame : phase.transaction = before.transaction) :
    t.consumption = s.consumption := by
  rw [consumption_update hcalls, hsame, ← consumption_of_call hcall, Function.update_eq_self]

theorem consumption_begin (hcalls : t.calls = Function.update s.calls id (some ⟨request, phase⟩))
    (hnew : s.calls id = none) (hphase : phase.transaction = none) : t.consumption = s.consumption := by
  have hnone : s.consumption id = none := by
    rw [State.consumption, hnew]
    rfl
  rw [consumption_update hcalls, hphase, Option.map_none, ← hnone, Function.update_eq_self]

/-- What a step does to the transactions and to what the callbacks have consumed. -/
inductive Ledger (config : OAuth42) (s t : State) (label : Label) : Prop where
  | rests (htransactions : t.transactions = s.transactions) (hstarted : t.started = s.started)
      (hconsumption : t.consumption = s.consumption)
  | starts {start : Start} (hlabel : label.start = some start)
      (hfresh : config.hashOAuthState start.state ∉ s.transactions.map (·.transaction.stateHash))
      (htransactions : t.transactions = s.transactions ++ [newRow config start s.clock])
      (hstarted : t.started = s.started ++ [start]) (hconsumption : t.consumption = s.consumption)
  | cleans (htransactions : t.transactions = deleteExpired s.transactions s.clock) (hstarted : t.started = s.started)
      (hconsumption : t.consumption = s.consumption)
  | consumes {id request now row} (hnone : s.consumption id = none) (hrow : row ∈ s.transactions)
      (hopen : isOpen (config.hashOAuthState request.state) now row)
      (htransactions : t.transactions = consumeRows config s request.state now) (hstarted : t.started = s.started)
      (hconsumption : t.consumption = Function.update s.consumption id (some (request, row.transaction)))

theorem Steps.ledger (h : Steps config s t label) : Ledger config s t label := by
  cases h with
  | starts hlabel _ hfresh heq => exact .starts hlabel hfresh (by rw [heq]) (by rw [heq]) (by rw [heq]; rfl)
  | cleans heq => exact .cleans (by rw [heq]) (by rw [heq]) (by rw [heq]; rfl)
  | begins hnew hphase _ heq =>
      subst heq
      exact .rests rfl rfl (consumption_begin rfl hnew hphase)
  | consumes _ hcall hrow hopen hphase heq =>
      subst heq
      refine .consumes (by rw [consumption_of_call hcall]; rfl) hrow hopen rfl rfl ((consumption_update rfl).trans ?_)
      rcases hphase with rfl | ⟨response, rfl⟩
      · rfl
      · rfl
  | fetches hcall _ _ heq =>
      subst heq
      exact .rests rfl rfl (consumption_keep rfl hcall rfl)
  | identity _ _ _ heq =>
      subst heq
      exact .rests rfl rfl rfl
  | resolves hcall _ _ _ heq =>
      subst heq
      exact .rests rfl rfl (consumption_keep rfl hcall rfl)
  | opens _ hcall heq =>
      subst heq
      exact .rests rfl rfl (consumption_keep rfl hcall rfl)
  | ends hcall heq =>
      subst heq
      exact .rests rfl rfl (consumption_keep rfl hcall rfl)
  | outside _ heq =>
      subst heq
      exact .rests rfl rfl rfl

theorem Ledger.started_mono (h : Ledger config s t label) {start : Start} (hmem : start ∈ s.started) : start ∈ t.started := by
  cases h with
  | rests _ hstarted => rwa [hstarted]
  | starts _ _ _ hstarted =>
      rw [hstarted]
      exact List.mem_append_left _ hmem
  | cleans _ hstarted => rwa [hstarted]
  | consumes _ _ _ _ hstarted => rwa [hstarted]

/-- A callback keeps what it has consumed. -/
theorem Ledger.consumption_mono (h : Ledger config s t label) {consumption : CallbackRequest × OAuthTransaction}
    (hconsumed : s.consumption i = some consumption) : t.consumption i = some consumption := by
  cases h with
  | rests _ _ hconsumption => rwa [hconsumption]
  | starts _ _ _ _ hconsumption => rwa [hconsumption]
  | cleans _ _ hconsumption => rwa [hconsumption]
  | consumes hnone _ _ _ _ hconsumption =>
      rw [hconsumption, Function.update_of_ne, hconsumed]
      rintro rfl
      cases hnone.symm.trans hconsumed

/-- A state is used up when its row is consumed or gone. -/
def UsedUp (s : State) (stateHash : String) : Prop :=
  ∀ row ∈ s.transactions, row.transaction.stateHash = stateHash → row.consumedAt.isSome

/-- The transactions are those of the starts, one for each state, and every consumption is of one that
is used up by then. -/
structure LedgerInv (config : OAuth42) (s : State) : Prop where
  states : (s.started.map (·.state)).Nodup
  hashes : (s.transactions.map (·.transaction.stateHash)).Nodup
  rows : ∀ row ∈ s.transactions, ∃ start ∈ s.started, row.transaction = transaction config start
  consumed : ∀ i request tx, s.consumption i = some (request, tx) →
    ∃ start ∈ s.started, start.state = request.state ∧ tx = transaction config start
  usedUp : ∀ i request tx, s.consumption i = some (request, tx) → UsedUp s (config.hashOAuthState request.state)
  once : ∀ i j request request' tx tx', s.consumption i = some (request, tx) → s.consumption j = some (request', tx') →
    request.state = request'.state → i = j

/-- A state is drawn that was never drawn before. -/
def Drawn (s : State) (label : Label) : Prop :=
  ∀ start, label.start = some start → ∀ earlier ∈ s.started, earlier.state ≠ start.state

/-- A row after the update is consumed, or was there before and is not open. -/
theorem mem_consumeRows {state : String} {now : Nat} {row : OAuthTransactionRow} (h : row ∈ consumeRows config s state now) :
    ∃ old ∈ s.transactions, old.transaction = row.transaction ∧
      (row.consumedAt.isSome ∨ (old = row ∧ ¬isOpen (config.hashOAuthState state) now row)) := by
  obtain ⟨old, hold, hrow⟩ := Table.mem_update.mp h
  by_cases hopen : isOpen (config.hashOAuthState state) now old
  · rw [if_pos hopen] at hrow
    subst hrow
    exact ⟨old, hold, rfl, .inl rfl⟩
  · rw [if_neg hopen] at hrow
    subst hrow
    exact ⟨old, hold, rfl, .inr ⟨rfl, hopen⟩⟩

theorem LedgerInv.rows_step (h : LedgerInv config s) (hledger : Ledger config s t label) (row : OAuthTransactionRow)
    (hrow : row ∈ t.transactions) : ∃ start ∈ t.started, row.transaction = transaction config start := by
  have hold : ∀ old ∈ s.transactions, old.transaction = row.transaction →
      ∃ start ∈ t.started, row.transaction = transaction config start := by
    intro old hmem hsame
    obtain ⟨start, hstart, heq⟩ := h.rows old hmem
    exact ⟨start, hledger.started_mono hstart, hsame ▸ heq⟩
  cases hledger with
  | rests htransactions =>
      rw [htransactions] at hrow
      exact hold row hrow rfl
  | starts _ _ htransactions hstarted =>
      rw [htransactions] at hrow
      rcases List.mem_append.mp hrow with hmem | hnew
      · exact hold row hmem rfl
      · rw [hstarted, List.mem_singleton.mp hnew]
        exact ⟨_, List.mem_append_right _ List.mem_cons_self, rfl⟩
  | cleans htransactions =>
      rw [htransactions] at hrow
      exact hold row (List.mem_of_mem_filter hrow) rfl
  | consumes _ _ _ htransactions =>
      rw [htransactions] at hrow
      obtain ⟨old, hmem, hsame, -⟩ := mem_consumeRows hrow
      exact hold old hmem hsame

theorem isOpen_iff {stateHash : String} {now : Nat} {row : OAuthTransactionRow} :
    isOpen stateHash now row ↔
      row.transaction.stateHash = stateHash ∧ row.consumedAt.isNone ∧ now < row.transaction.expiresAt := by
  rw [isOpen, Bool.and_eq_true, Bool.and_eq_true, decide_eq_true_eq, decide_eq_true_eq, and_assoc]

theorem LedgerInv.consumed_step (hhash : Function.Injective config.hashOAuthState) (h : LedgerInv config s)
    (hledger : Ledger config s t label) (i : Nat) (request : CallbackRequest) (tx : OAuthTransaction)
    (hconsumed : t.consumption i = some (request, tx)) :
    ∃ start ∈ t.started, start.state = request.state ∧ tx = transaction config start := by
  have hold : s.consumption i = some (request, tx) → ∃ start ∈ t.started, start.state = request.state ∧ tx = transaction config start := by
    intro hconsumed
    obtain ⟨start, hstart, hstate⟩ := h.consumed i request tx hconsumed
    exact ⟨start, hledger.started_mono hstart, hstate⟩
  cases hledger with
  | rests _ _ hconsumption => exact hold (hconsumption ▸ hconsumed)
  | starts _ _ _ _ hconsumption => exact hold (hconsumption ▸ hconsumed)
  | cleans _ _ hconsumption => exact hold (hconsumption ▸ hconsumed)
  | @consumes id _ now row _ hrow hopen _ hstarted hconsumption =>
      rw [hconsumption] at hconsumed
      by_cases hi : i = id
      · rw [hi, Function.update_self] at hconsumed
        cases hconsumed
        obtain ⟨start, hstart, heq⟩ := h.rows row hrow
        rw [hstarted]
        refine ⟨start, hstart, hhash ?_, heq⟩
        rw [← (isOpen_iff.mp hopen).1, heq]
        rfl
      · rw [Function.update_of_ne hi] at hconsumed
        exact hold hconsumed

theorem UsedUp.update {stateHash : String} (h : UsedUp s stateHash) {state : String} {now : Nat}
    (htransactions : t.transactions = consumeRows config s state now) : UsedUp t stateHash := by
  intro row hrow hsame
  rw [htransactions] at hrow
  obtain ⟨old, hold, -, hconsumed | ⟨rfl, -⟩⟩ := mem_consumeRows hrow
  · exact hconsumed
  · exact h old hold hsame

/-- An open transaction has been consumed by nobody. -/
theorem LedgerInv.not_consumed (h : LedgerInv config s) {now : Nat} {row : OAuthTransactionRow} {state : String}
    (hrow : row ∈ s.transactions) (hopen : isOpen (config.hashOAuthState state) now row) {tx : OAuthTransaction}
    (hconsumed : s.consumption i = some (request, tx)) : request.state ≠ state := by
  rintro rfl
  obtain ⟨hstateHash, hnone, -⟩ := isOpen_iff.mp hopen
  have hsome := h.usedUp i request tx hconsumed row hrow hstateHash
  rw [Option.isNone_iff_eq_none.mp hnone] at hsome
  cases hsome

theorem LedgerInv.once_step (h : LedgerInv config s) (hledger : Ledger config s t label) (i j : Nat)
    (request request' : CallbackRequest) (tx tx' : OAuthTransaction) (hi : t.consumption i = some (request, tx))
    (hj : t.consumption j = some (request', tx')) (hsame : request.state = request'.state) : i = j := by
  cases hledger with
  | rests _ _ hconsumption =>
      rw [hconsumption] at hi hj
      exact h.once i j _ _ _ _ hi hj hsame
  | starts _ _ _ _ hconsumption =>
      rw [hconsumption] at hi hj
      exact h.once i j _ _ _ _ hi hj hsame
  | cleans _ _ hconsumption =>
      rw [hconsumption] at hi hj
      exact h.once i j _ _ _ _ hi hj hsame
  | @consumes id _ _ _ _ hrow hopen _ _ hconsumption =>
      rw [hconsumption] at hi hj
      by_cases hid : i = id
      · by_cases hjd : j = id
        · exact hid.trans hjd.symm
        · rw [hid, Function.update_self] at hi
          cases hi
          rw [Function.update_of_ne hjd] at hj
          exact absurd hsame.symm (h.not_consumed hrow hopen hj)
      · rw [Function.update_of_ne hid] at hi
        by_cases hjd : j = id
        · rw [hjd, Function.update_self] at hj
          cases hj
          exact absurd hsame (h.not_consumed hrow hopen hi)
        · rw [Function.update_of_ne hjd] at hj
          exact h.once i j _ _ _ _ hi hj hsame

end Transcendence.Auth.OAuthCallbacks
