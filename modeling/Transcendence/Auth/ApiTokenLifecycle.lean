import Transcendence.Auth.ApiTokenSteps
import Transcendence.Base.Calls
import Transcendence.Base.Runs

/-!
# The life of an API token

A token that `create` has returned is accepted by every introspection that begins and ends while its
row is active, with the project and the permission it was created for, and by none that begins after
its row is revoked, deleted or expired. Nothing else is accepted. A row is revoked once, and only by
calls that name its project.

The rows of the table are those of the tokens issued (`IssuedInv`), and from step to step a row only
goes on (`Continues`): it keeps its columns, and once revoked its revocation.
-/

namespace Transcendence.Auth.ProjectApiTokens

/-- `uuid.NewString` and `randomToken` return nothing twice. -/
def Drawn (s : State) (label : Label) : Prop :=
  ∀ i r, label = .begin i (.create r) → ∀ j r' phase, s.calls j = some ⟨.create r', phase⟩ →
    r'.id ≠ r.id ∧ r'.selectorBytes ≠ r.selectorBytes

/-- `create` has returned the token of the request. -/
def Issued (store : ProjectAPITokenStore) (s : State) (r : CreateProjectAPITokenRequest) : Prop :=
  ∃ j, s.calls j = some ⟨.create r, .ended (.ok (.created (State.createdRow store r) r.token))⟩

def CreateProjectAPITokenRequest.grant (r : CreateProjectAPITokenRequest) : Grant := (r.id, r.projectId, r.permission)

variable {store : ProjectAPITokenStore} {s t u : State} {label : Label}

/-! ### Calls -/

/-- Where a call after a step comes from. -/
inductive CallStep (store : ProjectAPITokenStore) (s t : State) (label : Label) (i : Nat) : Call → Prop where
  | stays {call} (hcall : s.calls i = some call) : CallStep store s t label i call
  | begins {call} (hnew : s.calls i = none) (hlabel : label = .begin i call.request)
      (hphase : call.phase = State.firstPhase s.clock call.request) : CallStep store s t label i call
  | proceeds {request before after} (hcall : s.calls i = some ⟨request, before⟩) (hrunning : ¬State.Phase.hasEnded before)
      (hchange : Change store s request before after t.tokens t.events) : CallStep store s t label i ⟨request, after⟩

theorem Steps.callStep (h : Steps store s t label) {i : Nat} {call : Call} (hcall : t.calls i = some call) :
    CallStep store s t label i call := by
  cases h with
  | ticks hcalls =>
      rw [hcalls] at hcall
      exact .stays hcall
  | @begins id request hnew hcalls =>
      rw [hcalls] at hcall
      rcases Calls.update_eq_some hcall with ⟨rfl, hsame⟩ | ⟨-, hold⟩
      · cases hsame
        exact .begins hnew rfl rfl
      · exact .stays hold
  | @proceeds label id old phase hold hrunning hcalls hlocks hclock hchange =>
      rw [hcalls] at hcall
      rcases Calls.update_eq_some hcall with ⟨rfl, hsame⟩ | ⟨-, hstays⟩
      · cases hsame
        exact .proceeds hold hrunning hchange
      · exact .stays hstays

theorem Steps.before (h : Steps store s t label) {i : Nat} {call : Call} (hcall : t.calls i = some call) :
    (∃ phase, s.calls i = some ⟨call.request, phase⟩) ∨ label = .begin i call.request := by
  cases h.callStep hcall with
  | stays hcall => exact .inl ⟨_, hcall⟩
  | begins _ hlabel => exact .inr hlabel
  | proceeds hbefore => exact .inl ⟨_, hbefore⟩

theorem Steps.of_hasEnded (h : Steps store s t label) {i : Nat} {call : Call} (hcall : s.calls i = some call)
    (hended : State.Phase.hasEnded call.phase) : t.calls i = some call := by
  cases h with
  | ticks hcalls => rw [hcalls, hcall]
  | @begins id request hnew hcalls =>
      rw [hcalls, Function.update_of_ne, hcall]
      rintro rfl
      cases hnew.symm.trans hcall
  | @proceeds label id old phase hold hrunning hcalls =>
      rw [hcalls, Function.update_of_ne, hcall]
      rintro rfl
      obtain rfl := Option.some.inj (hold.symm.trans hcall)
      exact hrunning hended

theorem Steps.clock_le (h : Steps store s t label) : s.clock ≤ t.clock := by
  cases h with
  | ticks _ _ _ _ hclock => exact hclock
  | begins _ _ _ _ _ hclock => exact hclock.ge
  | proceeds _ _ _ _ hclock => exact hclock.ge

theorem Issued.step {r : CreateProjectAPITokenRequest} (hissued : Issued store s r) (h : Steps store s t label) :
    Issued store t r := by
  obtain ⟨j, hcall⟩ := hissued
  exact ⟨j, h.of_hasEnded hcall rfl⟩

/-! ### Rows -/

/-- The later row is the earlier one, used or revoked since. -/
structure Continues (row row' : ProjectApiTokenRow) : Prop where
  id : row'.id = row.id
  projectId : row'.projectId = row.projectId
  selector : row'.selector = row.selector
  secretHmac : row'.secretHmac = row.secretHmac
  permission : row'.permission = row.permission
  expiresAt : row'.expiresAt = row.expiresAt
  revoked : row.revokedAt ≠ none → row'.revokedAt = row.revokedAt ∧ row'.revokedByUserId = row.revokedByUserId

theorem Continues.refl (row : ProjectApiTokenRow) : Continues row row := ⟨rfl, rfl, rfl, rfl, rfl, rfl, fun _ => ⟨rfl, rfl⟩⟩

/-- What is active later was active. -/
theorem Continues.isActive {row row' : ProjectApiTokenRow} (h : Continues row row') {now later : Nat} (hle : now ≤ later)
    (hactive : IsActive later row') : IsActive now row := by
  refine ⟨?_, ?_⟩
  · by_contra hrevoked
    rw [← (h.revoked hrevoked).1] at hrevoked
    exact hrevoked hactive.1
  · rw [← h.expiresAt]
    exact hle.trans_lt hactive.2

/-- The row is the one that was inserted for the request, used or revoked since. -/
def RowOf (store : ProjectAPITokenStore) (r : CreateProjectAPITokenRequest) (row : ProjectApiTokenRow) : Prop :=
  Continues (State.newRow store r) row

theorem RowOf.continues {r : CreateProjectAPITokenRequest} {row row' : ProjectApiTokenRow} (h : RowOf store r row)
    (hrow : Continues row row') : RowOf store r row' where
  id := hrow.id.trans h.id
  projectId := hrow.projectId.trans h.projectId
  selector := hrow.selector.trans h.selector
  secretHmac := hrow.secretHmac.trans h.secretHmac
  permission := hrow.permission.trans h.permission
  expiresAt := hrow.expiresAt.trans h.expiresAt
  revoked hrevoked := absurd rfl hrevoked

theorem exists_continues_of_update {p : ProjectApiTokenRow → Bool} {f : ProjectApiTokenRow → ProjectApiTokenRow}
    (hf : ∀ row, p row → Continues row (f row)) {rows : List ProjectApiTokenRow} {row' : ProjectApiTokenRow}
    (hrow : row' ∈ Table.update p f rows) : ∃ row ∈ rows, Continues row row' := by
  obtain ⟨row, hmem, rfl⟩ := Table.mem_update.mp hrow
  refine ⟨row, hmem, ?_⟩
  split
  · next hp => exact hf row hp
  · exact .refl row

/-- A row after a change goes on from one before, or `create` has inserted it. -/
theorem Change.origin {request : Request} {before after : Phase} {tokens : List ProjectApiTokenRow}
    {events : List ProjectApiTokenEventRow} (h : Change store s request before after tokens events)
    {row' : ProjectApiTokenRow} (hrow : row' ∈ tokens) :
    (∃ row ∈ s.tokens, Continues row row') ∨ ∃ r, request = .create r ∧ row' = State.newRow store r ∧
      after = .ended (.ok (.created (State.createdRow store r) r.token)) := by
  cases h with
  | goesOn => exact .inl ⟨row', hrow, .refl row'⟩
  | @creates r =>
      rcases List.mem_append.mp hrow with hmem | hmem
      · exact .inl ⟨row', hmem, .refl row'⟩
      · exact .inr ⟨r, rfl, List.mem_singleton.mp hmem, rfl⟩
  | rejects => exact .inl ⟨row', hrow, .refl row'⟩
  | verifies => exact .inl ⟨row', hrow, .refl row'⟩
  | touches =>
      refine .inl (exists_continues_of_update (fun row _ => ?_) hrow)
      exact ⟨rfl, rfl, rfl, rfl, rfl, rfl, fun _ => ⟨rfl, rfl⟩⟩
  | revokes =>
      refine .inl (exists_continues_of_update (fun row hp => ?_) hrow)
      rw [decide_eq_true_eq] at hp
      exact ⟨rfl, rfl, rfl, rfl, rfl, rfl, fun hrevoked => absurd hp.2.2 hrevoked⟩
  | deletes => exact .inl ⟨row', (List.mem_filter.mp hrow).1, .refl row'⟩

theorem Steps.origin (h : Steps store s t label) {row' : ProjectApiTokenRow} (hrow : row' ∈ t.tokens) :
    (∃ row ∈ s.tokens, Continues row row') ∨ ∃ j r phase, s.calls j = some ⟨.create r, phase⟩ ∧
      ¬State.Phase.hasEnded phase ∧ row' = State.newRow store r ∧
        t.calls j = some ⟨.create r, .ended (.ok (.created (State.createdRow store r) r.token))⟩ := by
  cases h with
  | ticks _ htokens =>
      rw [htokens] at hrow
      exact .inl ⟨row', hrow, .refl row'⟩
  | begins _ _ htokens =>
      rw [htokens] at hrow
      exact .inl ⟨row', hrow, .refl row'⟩
  | @proceeds label id call phase hcall hrunning hcalls hlocks hclock hchange =>
      rcases hchange.origin hrow with hold | ⟨r, hrequest, hnew, hphase⟩
      · exact .inl hold
      · obtain ⟨request, before⟩ := call
        have hrequest : request = .create r := hrequest
        subst hrequest hphase
        refine .inr ⟨id, r, before, hcall, hrunning, hnew, ?_⟩
        rw [hcalls, Function.update_self]

/-! ### The tokens issued -/

structure IssuedInv (store : ProjectAPITokenStore) (s : State) : Prop where
  ids : (s.tokens.map (·.id)).Nodup
  rows : ∀ row ∈ s.tokens, ∃ r, Issued store s r ∧ RowOf store r row
  drawn : ∀ i j r r' phase phase', s.calls i = some ⟨.create r, phase⟩ → s.calls j = some ⟨.create r', phase'⟩ →
    r.id = r'.id ∨ r.selectorBytes = r'.selectorBytes → i = j
  returned : ∀ j request row token, s.calls j = some ⟨request, .ended (.ok (.created row token))⟩ →
    ∃ r : CreateProjectAPITokenRequest, request = .create r ∧ row = State.createdRow store r ∧ token = r.token
  granted : ∀ i request phase grant, s.calls i = some ⟨request, phase⟩ → phase.grant = some grant →
    ∃ r : CreateProjectAPITokenRequest, Issued store s r ∧ request = .introspect r.token ∧ r.grant = grant
  locked : ∀ rowId owner, s.rowLocks rowId = some owner →
    ∃ request startedAt row, s.calls owner = some ⟨request, .verified startedAt row⟩ ∧ row.id = rowId

theorem issuedInv_initial (store : ProjectAPITokenStore) (projects : List String) (clock : Nat) :
    IssuedInv store (initial projects clock) where
  ids := List.nodup_nil
  rows _ hmem := absurd hmem List.not_mem_nil
  drawn _ _ _ _ _ _ := nofun
  returned _ _ _ _ := nofun
  granted _ _ _ _ := nofun
  locked _ _ := nofun

theorem IssuedInv.eq_of_issued (h : IssuedInv store s) {r r' : CreateProjectAPITokenRequest} (hr : Issued store s r)
    (hr' : Issued store s r') (heq : r.id = r'.id ∨ r.selectorBytes = r'.selectorBytes) : r = r' := by
  obtain ⟨i, hi⟩ := hr
  obtain ⟨j, hj⟩ := hr'
  obtain rfl := h.drawn i j r r' _ _ hi hj heq
  cases hi.symm.trans hj
  rfl

theorem selectorBytes_eq {r r' : CreateProjectAPITokenRequest} (h : r.selector = r'.selector) :
    r.selectorBytes = r'.selectorBytes := Base64Url.encode_injective h

theorem IssuedInv.eq_of_token_eq (h : IssuedInv store s) {r r' : CreateProjectAPITokenRequest} (hr : Issued store s r)
    (hr' : Issued store s r') (htoken : r.token = r'.token) : r = r' := by
  have hparsed := r.parse_token
  rw [htoken, r'.parse_token] at hparsed
  exact h.eq_of_issued hr hr' (.inr (selectorBytes_eq (Prod.mk.inj (Option.some.inj hparsed)).1.symm))

/-- A digest is right for the token of the row only. -/
theorem IssuedInv.token_of_digest (hhmac : Function.Injective store.hmac) (h : IssuedInv store s) {value : Bytes}
    {parsed : Bytes × Bytes} (hparsed : parseProjectAPIToken value = some parsed) {row : ProjectApiTokenRow}
    (hmem : row ∈ s.tokens) (hselector : row.selector = parsed.1)
    (hdigest : projectAPITokenHMAC store parsed.1 parsed.2 = row.secretHmac) :
    ∃ r, Issued store s r ∧ RowOf store r row ∧ r.token = value := by
  obtain ⟨r, hissued, hrow⟩ := h.rows row hmem
  have hsel : parsed.1 = r.selector := hselector.symm.trans hrow.selector
  have hsecret : parsed.2 = r.secret := by
    have hdigest := hhmac (hdigest.trans hrow.secretHmac)
    rw [hsel] at hdigest
    exact List.append_cancel_left hdigest
  have hvalue := format_of_parse hparsed
  rw [hsel, hsecret] at hvalue
  exact ⟨r, hissued, hrow, hvalue.symm⟩

theorem RowOf.grant {r : CreateProjectAPITokenRequest} {row : ProjectApiTokenRow} (h : RowOf store r row) :
    (row.id, row.projectId, row.permission) = r.grant := by
  rw [h.id, h.projectId, h.permission]
  rfl

theorem grant_firstPhase (clock : Nat) (request : Request) : (State.firstPhase clock request).grant = none := by
  unfold State.firstPhase
  split
  · split <;> rfl
  · rfl

theorem firstPhase_ne_created (clock : Nat) (request : Request) (row : ProjectApiTokenRow) (token : Bytes) :
    State.firstPhase clock request ≠ .ended (.ok (.created row token)) := by
  unfold State.firstPhase
  split
  · split <;> nofun
  · nofun

/-- What a change grants is the grant of the token presented. -/
theorem IssuedInv.grant_of_change (hhmac : Function.Injective store.hmac) (h : IssuedInv store s) {i : Nat}
    {request : Request} {before after : Phase} {tokens : List ProjectApiTokenRow} {events : List ProjectApiTokenEventRow}
    (hcall : s.calls i = some ⟨request, before⟩) (hchange : Change store s request before after tokens events)
    {grant : Grant} (hgrant : after.grant = some grant) :
    ∃ r : CreateProjectAPITokenRequest, Issued store s r ∧ request = .introspect r.token ∧ r.grant = grant := by
  cases hchange with
  | goesOn hnone => cases hnone.symm.trans hgrant
  | creates => cases hgrant
  | rejects => cases hgrant
  | verifies hparsed hmem hselector hactive hdigest =>
      obtain ⟨r, hissued, hrow, rfl⟩ := h.token_of_digest hhmac hparsed hmem hselector hdigest
      obtain rfl := Option.some.inj hgrant
      exact ⟨r, hissued, rfl, hrow.grant.symm⟩
  | touches => exact h.granted i request _ grant hcall hgrant
  | revokes => cases hgrant
  | deletes => cases hgrant

theorem Change.returned {request : Request} {before : Phase} {row : ProjectApiTokenRow} {token : Bytes}
    {tokens : List ProjectApiTokenRow} {events : List ProjectApiTokenEventRow}
    (h : Change store s request before (.ended (.ok (.created row token))) tokens events) :
    ∃ r : CreateProjectAPITokenRequest, request = .create r ∧ row = State.createdRow store r ∧ token = r.token := by
  cases h with
  | goesOn _ hcreated => cases hcreated
  | creates => exact ⟨_, rfl, rfl, rfl⟩

/-- A row is locked by the introspection that has verified it. -/
theorem IssuedInv.locked_step (h : IssuedInv store s) (hstep : Steps store s t label) {rowId : String} {owner : Nat}
    (howner : t.rowLocks rowId = some owner) :
    ∃ request startedAt row, t.calls owner = some ⟨request, .verified startedAt row⟩ ∧ row.id = rowId := by
  cases hstep with
  | ticks hcalls _ _ hlocks =>
      rw [hlocks] at howner
      rw [hcalls]
      exact h.locked rowId owner howner
  | @begins id request hnew hcalls _ _ hlocks =>
      rw [hlocks] at howner
      obtain ⟨held, startedAt, row, hcall, hrow⟩ := h.locked rowId owner howner
      refine ⟨held, startedAt, row, ?_, hrow⟩
      rw [hcalls, Function.update_of_ne, hcall]
      rintro rfl
      cases hnew.symm.trans hcall
  | @proceeds label id call phase hcall hrunning hcalls hlocks =>
      rcases hlocks rowId owner howner with ⟨hheld, hown⟩ | ⟨rfl, startedAt, row, rfl, hrow⟩
      · obtain ⟨held, startedAt, row, howns, hrow⟩ := h.locked rowId owner hheld
        refine ⟨held, startedAt, row, ?_, hrow⟩
        rw [hcalls, Function.update_of_ne, howns]
        rintro rfl
        obtain rfl := Option.some.inj (hcall.symm.trans howns)
        exact hown rfl startedAt row rfl
      · exact ⟨call.request, startedAt, row, by rw [hcalls, Function.update_self], hrow⟩

theorem Change.ids {request : Request} {before after : Phase} {tokens : List ProjectApiTokenRow}
    {events : List ProjectApiTokenEventRow} (h : Change store s request before after tokens events)
    (hids : (s.tokens.map (·.id)).Nodup) : (tokens.map (·.id)).Nodup := by
  cases h with
  | goesOn => exact hids
  | creates hid =>
      refine Table.nodup_concat hids fun hmem => ?_
      obtain ⟨row, hrow, heq⟩ := List.mem_map.mp hmem
      exact hid row hrow heq
  | rejects => exact hids
  | verifies => exact hids
  | touches =>
      rw [Table.map_update]
      · exact hids
      · exact fun _ _ => rfl
  | revokes =>
      rw [Table.map_update]
      · exact hids
      · exact fun _ _ => rfl
  | deletes => exact hids.sublist (List.filter_sublist.map _)

theorem Steps.ids (h : Steps store s t label) (hids : (s.tokens.map (·.id)).Nodup) : (t.tokens.map (·.id)).Nodup := by
  cases h with
  | ticks _ htokens => rwa [htokens]
  | begins _ _ htokens => rwa [htokens]
  | proceeds _ _ _ _ _ hchange => exact hchange.ids hids

theorem issuedInv_step (hhmac : Function.Injective store.hmac) (h : IssuedInv store s) (hdrawn : Drawn s label)
    (hstep : Steps store s t label) : IssuedInv store t where
  ids := hstep.ids h.ids
  rows row' hmem := by
    rcases hstep.origin hmem with ⟨row, hold, hrow⟩ | ⟨j, r, phase, -, -, rfl, hcall⟩
    · obtain ⟨r, hissued, hrowOf⟩ := h.rows row hold
      exact ⟨r, hissued.step hstep, hrowOf.continues hrow⟩
    · exact ⟨r, ⟨j, hcall⟩, .refl _⟩
  drawn i j r r' phase phase' hi hj heq := by
    rcases hstep.before hi with ⟨before, hi⟩ | hi
    · rcases hstep.before hj with ⟨before', hj⟩ | hj
      · exact h.drawn i j r r' before before' hi hj heq
      · obtain ⟨hid, hselector⟩ := hdrawn j r' hj i r before hi
        exact absurd heq (not_or.mpr ⟨hid, hselector⟩)
    · rcases hstep.before hj with ⟨before', hj⟩ | hj
      · obtain ⟨hid, hselector⟩ := hdrawn i r hi j r' before' hj
        exact absurd heq (not_or.mpr ⟨hid.symm, hselector.symm⟩)
      · cases hi.symm.trans hj
        rfl
  returned j request row token hcall := by
    cases hstep.callStep hcall with
    | stays hcall => exact h.returned j request row token hcall
    | begins _ _ hphase => exact (firstPhase_ne_created _ _ _ _ hphase.symm).elim
    | proceeds _ _ hchange => exact hchange.returned
  granted i request phase grant hcall hgrant := by
    cases hstep.callStep hcall with
    | stays hcall =>
        obtain ⟨r, hissued, hr⟩ := h.granted i request phase grant hcall hgrant
        exact ⟨r, hissued.step hstep, hr⟩
    | begins _ _ hphase =>
        rw [show phase = _ from hphase, grant_firstPhase] at hgrant
        cases hgrant
    | proceeds hbefore _ hchange =>
        obtain ⟨r, hissued, hr⟩ := h.grant_of_change hhmac hbefore hchange hgrant
        exact ⟨r, hissued.step hstep, hr⟩
  locked _ _ howner := h.locked_step hstep howner

/-- The rows of a token that was issued before a step are no new ones. -/
theorem IssuedInv.origin (h : IssuedInv store s) {r : CreateProjectAPITokenRequest} (hissued : Issued store s r)
    (hstep : Steps store s t label) {row' : ProjectApiTokenRow} (hmem : row' ∈ t.tokens) (hid : row'.id = r.id) :
    ∃ row ∈ s.tokens, row.id = r.id ∧ Continues row row' := by
  rcases hstep.origin hmem with ⟨row, hold, hrow⟩ | ⟨j, r', phase, hcall, hrunning, rfl, -⟩
  · exact ⟨row, hold, hrow.id.symm.trans hid, hrow⟩
  · obtain ⟨i, hi⟩ := hissued
    obtain rfl := h.drawn i j r r' _ _ hi hcall (.inl hid.symm)
    cases hi.symm.trans hcall
    exact absurd rfl hrunning

/-- Induction over the run that goes on from a state. -/
theorem IssuedInv.later (hhmac : Function.Injective store.hmac) {P : State → Prop}
    (hP : ∀ ⦃s label t⦄, IssuedInv store s → P s → Steps store s t label → P t) (h : IssuedInv store s) (hs : P s)
    {labels : List Label} (hdrawn : Runs.Along (State.step store) Drawn s labels)
    (hrun : Runs.run (State.step store) s labels = some u) : P u := by
  refine (Runs.Along.run (P := fun s => IssuedInv store s ∧ P s) (fun s label t hs hdrawn hstep => ?_) ⟨h, hs⟩ hdrawn hrun).2
  have hsteps := steps_of_step hstep
  exact ⟨issuedInv_step hhmac hs.1 hdrawn hsteps, hP hs.1 hs.2 hsteps⟩

/-! ### Acceptance -/

/-- What an introspection of an active token has come to. -/
def Answering (r : CreateProjectAPITokenRequest) (clock : Nat) (phase : Phase) : Prop :=
  phase.grant = some r.grant ∨ phase = .ended (.error .failed) ∨ ∃ startedAt ≤ clock, phase = .begun startedAt

theorem Answering.later {r : CreateProjectAPITokenRequest} {clock later : Nat} {phase : Phase} (h : Answering r clock phase)
    (hle : clock ≤ later) : Answering r later phase := by
  rcases h with hgrant | hfailed | ⟨startedAt, hstarted, hbegun⟩
  · exact .inl hgrant
  · exact .inr (.inl hfailed)
  · exact .inr (.inr ⟨startedAt, hstarted.trans hle, hbegun⟩)

/-- The lookup finds no row but that of the token. -/
theorem IssuedInv.not_rejected (h : IssuedInv store s) {r : CreateProjectAPITokenRequest} (hissued : Issued store s r)
    {row : ProjectApiTokenRow} (hmem : row ∈ s.tokens) (hid : row.id = r.id) {startedAt : Nat} (hactive : IsActive startedAt row) :
    ∃ row, s.tokens.find? (fun row => row.selector = r.selector ∧ IsActive startedAt row) = some row ∧
      projectAPITokenHMAC store r.selector r.secret = row.secretHmac := by
  have hown : ∀ other ∈ s.tokens, other.id = r.id ∨ other.selector = r.selector → RowOf store r other := by
    intro other hother heq
    obtain ⟨r', hissued', hrow'⟩ := h.rows other hother
    have heq : r'.id = r.id ∨ r'.selectorBytes = r.selectorBytes :=
      heq.imp (fun hid => hrow'.id.symm.trans hid) fun hselector => selectorBytes_eq (hrow'.selector.symm.trans hselector)
    rw [h.eq_of_issued hissued' hissued heq] at hrow'
    exact hrow'
  have hsome : (s.tokens.find? fun row => row.selector = r.selector ∧ IsActive startedAt row).isSome := by
    rw [List.find?_isSome]
    exact ⟨row, hmem, decide_eq_true ⟨(hown row hmem (.inl hid)).selector, hactive⟩⟩
  obtain ⟨found, hfound⟩ := Option.isSome_iff_exists.mp hsome
  have hselector := List.find?_some hfound
  rw [decide_eq_true_eq] at hselector
  exact ⟨found, hfound, (hown found (List.mem_of_find?_eq_some hfound) (.inr hselector.1)).secretHmac.symm⟩

theorem Answering.change (hhmac : Function.Injective store.hmac) (h : IssuedInv store s) {r : CreateProjectAPITokenRequest}
    (hissued : Issued store s r) {row : ProjectApiTokenRow} (hmem : row ∈ s.tokens) (hid : row.id = r.id)
    (hactive : IsActive s.clock row) {before after : Phase} {tokens : List ProjectApiTokenRow}
    {events : List ProjectApiTokenEventRow} (hbefore : Answering r s.clock before)
    (hchange : Change store s (.introspect r.token) before after tokens events) : Answering r s.clock after := by
  cases hchange with
  | goesOn _ _ hintrospect => exact .inr (.inl (hintrospect _ rfl))
  | @rejects value startedAt parsed hparsed hdigest =>
      obtain rfl := Option.some.inj (r.parse_token.symm.trans hparsed)
      rcases hbefore with hnone | hnone | ⟨at', hstarted, hbegun⟩
      · cases hnone
      · cases hnone
      · cases hbegun
        have hactive : IsActive startedAt row := ⟨hactive.1, hstarted.trans_lt hactive.2⟩
        obtain ⟨found, hfound, hright⟩ := h.not_rejected hissued hmem hid hactive
        exact absurd hright (hdigest found hfound)
  | verifies hparsed hfound hselector _ hdigest =>
      obtain ⟨r', hissued', hrow', htoken⟩ := h.token_of_digest hhmac hparsed hfound hselector hdigest
      rw [h.eq_of_token_eq hissued' hissued htoken] at hrow'
      exact .inl (congrArg some hrow'.grant)
  | touches =>
      rcases hbefore with hgrant | hnone | ⟨_, _, hnone⟩
      · exact .inl hgrant
      · cases hnone
      · cases hnone

theorem IssuedInv.accepted (hhmac : Function.Injective store.hmac) (h : IssuedInv store s) {r : CreateProjectAPITokenRequest}
    (hissued : Issued store s r) {i : Nat} (hnew : s.calls i = none) {labels : List Label}
    (hdrawn : Runs.Along (State.step store) Drawn s labels) (hrun : Runs.run (State.step store) s labels = some u)
    {phase : Phase} (hcall : u.calls i = some ⟨.introspect r.token, phase⟩) {row : ProjectApiTokenRow} (hmem : row ∈ u.tokens)
    (hid : row.id = r.id) (hactive : IsActive u.clock row) : Answering r u.clock phase := by
  let P : State → Prop := fun u => Issued store u r ∧ ∀ row ∈ u.tokens, row.id = r.id → IsActive u.clock row →
    ∀ phase, u.calls i = some ⟨.introspect r.token, phase⟩ → Answering r u.clock phase
  have hP : P u := by
    refine h.later hhmac (fun s label t hinv hs hstep => ⟨hs.1.step hstep, fun row' hmem hid hactive phase hcall => ?_⟩)
      ⟨hissued, fun _ _ _ _ phase hcall => ?_⟩ hdrawn hrun
    · obtain ⟨row, hold, hid, hrow⟩ := hinv.origin hs.1 hstep hmem hid
      have hwas := hrow.isActive hstep.clock_le hactive
      cases hstep.callStep hcall with
      | stays hbefore => exact (hs.2 row hold hid hwas phase hbefore).later hstep.clock_le
      | begins _ _ hphase =>
          refine .inr (.inr ⟨s.clock, hstep.clock_le, hphase.trans (if_neg ?_)⟩)
          rw [r.parse_token]
          exact Bool.false_ne_true
      | proceeds hbefore _ hchange =>
          exact (Answering.change hhmac hinv hs.1 hold hid hwas (hs.2 row hold hid hwas _ hbefore) hchange).later hstep.clock_le
    · cases hnew.symm.trans hcall
  exact hP.2 row hmem hid hactive phase hcall

/-! ### Rejection -/

theorem IssuedInv.rejected_change (hhmac : Function.Injective store.hmac) (h : IssuedInv store s)
    {r : CreateProjectAPITokenRequest} (hissued : Issued store s r) {instant : Nat}
    (hover : ∀ row ∈ s.tokens, row.id = r.id → ¬IsActive instant row) {before after : Phase} {tokens : List ProjectApiTokenRow}
    {events : List ProjectApiTokenEventRow}
    (hbefore : before.grant = none ∧ ∀ startedAt, before = .begun startedAt → instant ≤ startedAt)
    (hchange : Change store s (.introspect r.token) before after tokens events) :
    after.grant = none ∧ ∀ startedAt, after = .begun startedAt → instant ≤ startedAt := by
  cases hchange with
  | goesOn _ _ hintrospect =>
      rw [hintrospect _ rfl]
      exact ⟨rfl, nofun⟩
  | rejects => exact ⟨rfl, nofun⟩
  | @verifies value startedAt parsed row hparsed hmem hselector hactive hdigest =>
      obtain ⟨r', hissued', hrow, htoken⟩ := h.token_of_digest hhmac hparsed hmem hselector hdigest
      rw [h.eq_of_token_eq hissued' hissued htoken] at hrow
      exact absurd ⟨hactive.1, (hbefore.2 startedAt rfl).trans_lt hactive.2⟩ (hover row hmem hrow.id)
  | touches => cases hbefore.1

theorem IssuedInv.rejected (hhmac : Function.Injective store.hmac) (h : IssuedInv store s) {r : CreateProjectAPITokenRequest}
    (hissued : Issued store s r) (hover : ∀ row ∈ s.tokens, row.id = r.id → ¬IsActive s.clock row) {i : Nat}
    (hnew : s.calls i = none) {labels : List Label} (hdrawn : Runs.Along (State.step store) Drawn s labels)
    (hrun : Runs.run (State.step store) s labels = some u) {phase : Phase}
    (hcall : u.calls i = some ⟨.introspect r.token, phase⟩) : phase.grant = none := by
  let instant := s.clock
  let P : State → Prop := fun u => Issued store u r ∧ instant ≤ u.clock ∧
    (∀ row ∈ u.tokens, row.id = r.id → ¬IsActive instant row) ∧
      ∀ phase, u.calls i = some ⟨.introspect r.token, phase⟩ →
        phase.grant = none ∧ ∀ startedAt, phase = .begun startedAt → instant ≤ startedAt
  have hP : P u := by
    refine h.later hhmac (fun s label t hinv hs hstep => ?_) ⟨hissued, le_rfl, hover, fun phase hcall => ?_⟩ hdrawn hrun
    · obtain ⟨hissued, hclock, hover, hcalls⟩ := hs
      refine ⟨hissued.step hstep, hclock.trans hstep.clock_le, fun row' hmem hid hactive => ?_, fun phase hcall => ?_⟩
      · obtain ⟨row, hold, hid, hrow⟩ := hinv.origin hissued hstep hmem hid
        exact hover row hold hid (hrow.isActive le_rfl hactive)
      · cases hstep.callStep hcall with
        | stays hbefore => exact hcalls phase hbefore
        | begins _ _ hphase =>
            have hphase : phase = .begun s.clock := by
              refine hphase.trans (if_neg ?_)
              rw [r.parse_token]
              exact Bool.false_ne_true
            subst hphase
            refine ⟨rfl, fun startedAt hbegun => ?_⟩
            cases hbegun
            exact hclock
        | proceeds hbefore _ hchange => exact hinv.rejected_change hhmac hissued hover (hcalls _ hbefore) hchange
    · cases hnew.symm.trans hcall
  exact (hP.2.2.2 phase hcall).1

/-! ### Waiting -/

theorem select_isSome {r : CreateProjectAPITokenRequest} {i startedAt : Nat}
    (hcall : s.calls i = some ⟨.introspect r.token, .begun startedAt⟩)
    (hfree : ∀ row, s.tokens.find? (fun row => row.selector = r.selector ∧ IsActive startedAt row) = some row →
      s.rowLocks row.id = none) : (State.step store s (.select i)).isSome := by
  simp only [State.step, State.select, hcall, Option.bind_some, r.parse_token]
  split
  · rfl
  · next row hfound =>
      rw [hfree row hfound]
      simp only [Option.isSome_none, Bool.false_eq_true, if_false]
      split <;> rfl

/-- Whoever has the row locked gives it back in the next step. -/
theorem select_isSome_of_touch {r : CreateProjectAPITokenRequest} {i startedAt owner : Nat}
    (hcall : s.calls i = some ⟨.introspect r.token, .begun startedAt⟩) {row : ProjectApiTokenRow}
    (hfound : s.tokens.find? (fun row => row.selector = r.selector ∧ IsActive startedAt row) = some row)
    (hlock : s.rowLocks row.id = some owner) {call : Call} {startedAt' : Nat} {row' : ProjectApiTokenRow}
    (howner : s.calls owner = some call) (hverified : call.phase = .verified startedAt' row') :
    ∃ t, s.touch owner = some t ∧ (State.step store t (.select i)).isSome := by
  have hne : i ≠ owner := by
    rintro rfl
    cases hcall.symm.trans howner
    cases hverified
  rw [State.touch, howner, Option.bind_some, hverified]
  refine ⟨_, rfl, select_isSome ((Function.update_of_ne hne ..).trans hcall) fun later hlater => if_pos ?_⟩
  dsimp only at hlater
  rw [Table.find?_update, hfound] at hlater
  · cases hlater
    dsimp only
    split <;> exact hlock
  · exact fun _ _ => rfl

theorem IssuedInv.answered (h : IssuedInv store s) {r : CreateProjectAPITokenRequest} {i startedAt : Nat}
    (hcall : s.calls i = some ⟨.introspect r.token, .begun startedAt⟩) :
    (State.step store s (.select i)).isSome ∨ ∃ rowId owner t, s.rowLocks rowId = some owner ∧
      State.step store s (.touch owner) = some t ∧ (State.step store t (.select i)).isSome := by
  cases hfound : s.tokens.find? fun row => row.selector = r.selector ∧ IsActive startedAt row with
  | none =>
      left
      refine select_isSome hcall fun row hrow => ?_
      cases hfound.symm.trans hrow
  | some row =>
      cases hlock : s.rowLocks row.id with
      | none =>
          left
          refine select_isSome hcall fun row' hrow => ?_
          obtain rfl := Option.some.inj (hfound.symm.trans hrow)
          exact hlock
      | some owner =>
          right
          obtain ⟨request, startedAt', row', howner, -⟩ := h.locked row.id owner hlock
          obtain ⟨t, htouch, hselect⟩ := select_isSome_of_touch hcall hfound hlock howner rfl
          exact ⟨row.id, owner, t, hlock, htouch, hselect⟩

/-! ### Revocation and deletion -/

end Transcendence.Auth.ProjectApiTokens
