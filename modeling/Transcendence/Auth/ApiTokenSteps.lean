import Transcendence.Auth.ProjectApiTokens

/-!
# What a step of an API token call does

The text of a token and its parts determine each other, and every step of a call is one of a few
changes of the tables (`Change`), from which the invariants over runs are read off.
-/

namespace Transcendence.Auth

/-! ### The text of a token -/

theorem isPrefixOf_append (pre rest : Bytes) : pre.isPrefixOf (pre ++ rest) := by
  induction pre with
  | nil => rfl
  | cons c pre ih => simp

theorem dot_notMem_encode (bytes : Bytes) : dot ∉ Base64Url.encode bytes :=
  fun hmem => (Base64Url.isCharacter_of_mem_encode hmem).ne (by decide) rfl

theorem parse_format {selector secret : Bytes} (hselector : dot ∉ selector) (hsecret : dot ∉ secret)
    (hselector' : selector.length = 22) (hsecret' : secret.length = 43) :
    parseProjectAPIToken (formatProjectAPIToken selector secret) = some (selector, secret) := by
  have hformat : formatProjectAPIToken selector secret = ProjectAPITokenPrefix ++ (selector ++ dot :: secret) := by
    simp only [formatProjectAPIToken, List.append_assoc, List.cons_append, List.nil_append]
  have hsplit : (selector ++ dot :: secret).splitOn dot = [selector, secret] := by
    rw [List.splitOn_append_cons_self_of_not_mem hselector, List.splitOn_eq_singleton hsecret]
  rw [parseProjectAPIToken, hformat, isPrefixOf_append, List.drop_left, hsplit]
  simp only [Bool.not_true, Bool.false_eq_true, if_false, hselector', hsecret', ne_eq, not_true_eq_false, or_self]

theorem format_of_parse {value selector secret : Bytes} (h : parseProjectAPIToken value = some (selector, secret)) :
    value = formatProjectAPIToken selector secret := by
  rw [parseProjectAPIToken] at h
  split at h
  · cases h
  · next hprefix =>
      split at h
      · next found found' hsplit =>
          rw [Option.ite_none_left_eq_some] at h
          obtain ⟨-, h⟩ := h
          cases h
          have hrest : [dot].intercalate ((value.drop ProjectAPITokenPrefix.length).splitOn dot) = _ :=
            List.intercalate_splitOn dot
          rw [hsplit] at hrest
          have hprefix : ProjectAPITokenPrefix <+: value := by simpa using hprefix
          obtain ⟨rest, rfl⟩ := hprefix
          rw [List.drop_left] at hrest
          rw [← hrest]
          simp [formatProjectAPIToken]
      · cases h

namespace ProjectApiTokens

theorem CreateProjectAPITokenRequest.parse_token (r : CreateProjectAPITokenRequest) :
    parseProjectAPIToken r.token = some (r.selector, r.secret) := by
  refine parse_format (dot_notMem_encode _) (dot_notMem_encode _) ?_ ?_
  · rw [CreateProjectAPITokenRequest.selector, Base64Url.length_encode, r.selectorBytes_length]
  · rw [CreateProjectAPITokenRequest.secret, Base64Url.length_encode, r.secretBytes_length]

/-! ### Changes -/

/-- The token, its project and its permission, which an introspection grants. -/
abbrev Grant := String × String × ProjectAPITokenPermission

def Phase.grant : Phase → Option Grant
  | .verified _ row => some (row.id, row.projectId, row.permission)
  | .ended (.ok (.principal p)) => some (p.tokenId, p.projectId, p.permission)
  | _ => none

/-- The row and the text that a `create` has returned. -/
def Phase.created : Phase → Option (ProjectApiTokenRow × Bytes)
  | .ended (.ok (.created row token)) => some (row, token)
  | _ => none

/-- What a step of a call with the request does: the phase it goes from and to, and the tables it
leaves. -/
inductive Change (store : ProjectAPITokenStore) (s : State) :
    Request → Phase → Phase → List ProjectApiTokenRow → List ProjectApiTokenEventRow → Prop where
  | goesOn {request before after} (hgrant : after.grant = none) (hcreated : after.created = none)
      (hintrospect : ∀ value, request = .introspect value → after = .ended (.error .failed)) :
      Change store s request before after s.tokens s.events
  | creates {r startedAt event} (hid : ∀ row ∈ s.tokens, row.id ≠ r.id) (hselector : ∀ row ∈ s.tokens, row.selector ≠ r.selector)
      (hevent : event.eventType = .CREATED) :
      Change store s (.create r) (.counted startedAt) (.ended (.ok (.created (State.createdRow store r) r.token)))
        (s.tokens ++ [State.newRow store r]) (s.events ++ [event])
  | rejects {value startedAt parsed} (hparsed : parseProjectAPIToken value = some parsed)
      (hdigest : ∀ row, s.tokens.find? (fun row => row.selector = parsed.1 ∧ IsActive startedAt row) = some row →
        projectAPITokenHMAC store parsed.1 parsed.2 ≠ row.secretHmac) :
      Change store s (.introspect value) (.begun startedAt) (.ended (.error .notFound)) s.tokens s.events
  | verifies {value startedAt parsed row} (hparsed : parseProjectAPIToken value = some parsed) (hmem : row ∈ s.tokens)
      (hselector : row.selector = parsed.1) (hactive : IsActive startedAt row)
      (hdigest : projectAPITokenHMAC store parsed.1 parsed.2 = row.secretHmac) :
      Change store s (.introspect value) (.begun startedAt) (.verified startedAt row) s.tokens s.events
  | touches {request startedAt row at'} {p : ProjectApiTokenRow → Bool} :
      Change store s request (.verified startedAt row)
        (.ended (.ok (.principal ⟨row.id, row.projectId, row.label, row.permission, row.expiresAt, at'⟩)))
        (Table.update p (fun row => { row with lastUsedAt := some at' }) s.tokens) s.events
  | revokes {projectId tokenId actorUserId startedAt row event} (hmem : row ∈ s.tokens) (hid : row.id = tokenId)
      (hproject : row.projectId = projectId) (hactive : row.revokedAt = none) (hevent : event.tokenId = tokenId) :
      Change store s (.revoke projectId tokenId actorUserId) (.begun startedAt)
        (.ended (.ok (.revoked (State.revokeRow startedAt actorUserId row))))
        (Table.update (fun row => row.id = tokenId ∧ row.projectId = projectId ∧ row.revokedAt = none)
          (State.revokeRow startedAt actorUserId) s.tokens) (s.events ++ [event])
  | deletes {projectId tokenId actorUserId startedAt row event} (hmem : row ∈ s.tokens) (hid : row.id = tokenId)
      (hproject : row.projectId = projectId) (hevent : event.eventType = .DELETED) :
      Change store s (.delete projectId tokenId actorUserId) (.begun startedAt) (.ended (.ok .deleted))
        (s.tokens.filter fun row => ¬(row.id = tokenId ∧ row.projectId = projectId)) (s.events ++ [event])

variable {store : ProjectAPITokenStore} {s t : State}

/-- A lock on a row after a step of the call is an old one, which is the call's own only if the call
had locked nothing, or the one that the call takes. -/
def LocksKept (s t : State) (id : Nat) (before after : Phase) : Prop :=
  ∀ rowId owner, t.rowLocks rowId = some owner →
    (s.rowLocks rowId = some owner ∧ (owner = id → ∀ startedAt row, before ≠ .verified startedAt row)) ∨
      (owner = id ∧ ∃ startedAt row, after = .verified startedAt row ∧ row.id = rowId)

/-- What a step does to the calls, the tables and the locks. -/
inductive Steps (store : ProjectAPITokenStore) (s t : State) : Label → Prop where
  | ticks {label} (hcalls : t.calls = s.calls) (htokens : t.tokens = s.tokens) (hevents : t.events = s.events)
      (hlocks : t.rowLocks = s.rowLocks) (hclock : s.clock ≤ t.clock) : Steps store s t label
  | begins {id request} (hnew : s.calls id = none)
      (hcalls : t.calls = Function.update s.calls id (some ⟨request, State.firstPhase s.clock request⟩))
      (htokens : t.tokens = s.tokens) (hevents : t.events = s.events) (hlocks : t.rowLocks = s.rowLocks)
      (hclock : t.clock = s.clock) : Steps store s t (.begin id request)
  | proceeds {label id call phase} (hcall : s.calls id = some call) (hrunning : ¬State.Phase.hasEnded call.phase)
      (hcalls : t.calls = Function.update s.calls id (some { call with phase }))
      (hlocks : LocksKept s t id call.phase phase) (hclock : t.clock = s.clock)
      (hchange : Change store s call.request call.phase phase t.tokens t.events) : Steps store s t label

section Calls

variable {id : Nat} {call : Call} {label : Label}

theorem LocksKept.of_eq {before after : Phase} (hlocks : t.rowLocks = s.rowLocks)
    (hbefore : ∀ startedAt row, before ≠ .verified startedAt row) : LocksKept s t id before after := by
  intro rowId owner howner
  rw [hlocks] at howner
  exact .inl ⟨howner, fun _ => hbefore⟩

theorem LocksKept.of_finish {before after : Phase}
    (hlocks : t.rowLocks = fun key => if s.rowLocks key = some id then none else s.rowLocks key) :
    LocksKept s t id before after := by
  intro rowId owner howner
  rw [hlocks] at howner
  obtain ⟨hne, howner⟩ := Option.ite_none_left_eq_some.mp howner
  refine .inl ⟨howner, fun hown => ?_⟩
  rw [howner, hown] at hne
  exact absurd rfl hne

theorem Steps.of_setPhase (hcall : s.calls id = some call) (hrunning : ¬State.Phase.hasEnded call.phase) {phase : Phase}
    (hgrant : phase.grant = none) (hcreated : phase.created = none)
    (hintrospect : ∀ value, call.request = .introspect value → phase = .ended (.error .failed))
    (hcalls : t.calls = (s.setPhase id call phase).calls) (htokens : t.tokens = s.tokens) (hevents : t.events = s.events)
    (hlocks : LocksKept s t id call.phase phase) (hclock : t.clock = s.clock) : Steps store s t label := by
  refine .proceeds hcall hrunning hcalls hlocks hclock ?_
  rw [htokens, hevents]
  exact .goesOn hgrant hcreated hintrospect

theorem Steps.of_error (hcall : s.calls id = some call) (hrunning : ¬State.Phase.hasEnded call.phase) {error : Error}
    (hintrospect : ∀ value, call.request = .introspect value → error = .failed) :
    Steps store s (s.finish id call (.error error)) label := by
  refine .of_setPhase hcall hrunning rfl rfl (fun value hvalue => ?_) rfl rfl rfl (.of_finish rfl) rfl
  rw [hintrospect value hvalue]

theorem Steps.of_count {now : Nat} (hstep : s.count id now = some t) : Steps store s t label := by
  rw [State.count, Option.bind_eq_some_iff] at hstep
  obtain ⟨call, hcall, hstep⟩ := hstep
  split at hstep
  · next r startedAt hrequest hlocked =>
      have hrunning : ¬State.Phase.hasEnded call.phase := by
        rw [hlocked]
        exact Bool.false_ne_true
      have hcreate : ∀ value, call.request ≠ .introspect value := by
        rw [hrequest]
        exact fun _ => nofun
      split at hstep
      · cases hstep
        exact .of_error hcall hrunning fun value hvalue => absurd hvalue (hcreate value)
      · split at hstep <;> cases hstep
        · exact .of_error hcall hrunning fun value hvalue => absurd hvalue (hcreate value)
        · refine .of_setPhase hcall hrunning rfl rfl (fun value hvalue => absurd hvalue (hcreate value)) rfl rfl rfl ?_ rfl
          exact .of_eq rfl (by rw [hlocked]; exact fun _ _ => nofun)
  · cases hstep

theorem Steps.of_lock (hstep : s.lock store id = some t) : Steps store s t label := by
  rw [State.lock, Option.bind_eq_some_iff] at hstep
  obtain ⟨call, hcall, hstep⟩ := hstep
  split at hstep
  · next r startedAt hrequest hbegun =>
      rw [Option.ite_none_left_eq_some] at hstep
      obtain ⟨-, hstep⟩ := hstep
      cases hstep
      refine .of_setPhase hcall ?_ rfl rfl ?_ rfl rfl rfl (.of_eq rfl ?_) rfl
      · rw [hbegun]
        exact Bool.false_ne_true
      · rw [hrequest]
        exact fun _ => nofun
      · rw [hbegun]
        exact fun _ _ => nofun
  · cases hstep

theorem Steps.of_insert (hstep : s.insert store id = some t) : Steps store s t label := by
  rw [State.insert, Option.bind_eq_some_iff] at hstep
  obtain ⟨call, hcall, hstep⟩ := hstep
  split at hstep
  · next r startedAt hrequest hcounted =>
      have hrunning : ¬State.Phase.hasEnded call.phase := by
        rw [hcounted]
        exact Bool.false_ne_true
      have hcreate : ∀ {error : Error} value, call.request = .introspect value → error = .failed := by
        rw [hrequest]
        exact fun _ => nofun
      dsimp only at hstep
      split at hstep
      · cases hstep
        exact .of_error hcall hrunning hcreate
      · split at hstep
        · cases hstep
          exact .of_error hcall hrunning hcreate
        · next hunique =>
            rw [List.any_eq_true] at hunique
            split at hstep <;> cases hstep
            · exact .of_error hcall hrunning hcreate
            · refine .proceeds hcall hrunning rfl (.of_finish rfl) rfl ?_
              rw [hrequest, hcounted]
              refine .creates (fun row hmem hid => ?_) (fun row hmem hselector => ?_) rfl
              · exact hunique ⟨row, hmem, decide_eq_true (.inl hid)⟩
              · exact hunique ⟨row, hmem, decide_eq_true (.inr hselector)⟩
  · cases hstep

theorem Steps.of_select (hstep : s.select store id = some t) : Steps store s t label := by
  rw [State.select, Option.bind_eq_some_iff] at hstep
  obtain ⟨call, hcall, hstep⟩ := hstep
  split at hstep
  · next value startedAt hrequest hbegun =>
      have hrunning : ¬State.Phase.hasEnded call.phase := by
        rw [hbegun]
        exact Bool.false_ne_true
      obtain ⟨parsed, hparsed, hstep⟩ := Option.bind_eq_some_iff.mp hstep
      split at hstep
      · next hnone =>
          cases hstep
          refine .proceeds hcall hrunning rfl (.of_finish rfl) rfl ?_
          rw [hrequest, hbegun]
          refine .rejects hparsed fun row hrow => ?_
          cases hnone.symm.trans hrow
      · next row hfound =>
          rw [Option.ite_none_left_eq_some] at hstep
          obtain ⟨-, hstep⟩ := hstep
          split at hstep
          · next hdigest =>
              cases hstep
              refine .proceeds hcall hrunning rfl (.of_finish rfl) rfl ?_
              rw [hrequest, hbegun]
              refine .rejects hparsed fun row' hrow' => ?_
              obtain rfl := Option.some.inj (hfound.symm.trans hrow')
              exact hdigest
          · next hdigest =>
              cases hstep
              have hrow := List.find?_some hfound
              rw [decide_eq_true_eq] at hrow
              refine .proceeds hcall hrunning rfl (fun rowId owner howner => ?_) rfl ?_
              · have howner : Function.update s.rowLocks row.id (some id) rowId = some owner := howner
                by_cases hrowId : rowId = row.id
                · rw [hrowId, Function.update_self] at howner
                  exact .inr ⟨(Option.some.inj howner).symm, startedAt, row, rfl, hrowId.symm⟩
                · rw [Function.update_of_ne hrowId] at howner
                  refine .inl ⟨howner, fun _ => ?_⟩
                  rw [hbegun]
                  exact fun _ _ => nofun
              · rw [hrequest, hbegun]
                exact .verifies hparsed (List.mem_of_find?_eq_some hfound) hrow.1 hrow.2 (not_not.mp hdigest)
  · cases hstep

theorem Steps.of_touch (hstep : s.touch id = some t) : Steps store s t label := by
  rw [State.touch, Option.bind_eq_some_iff] at hstep
  obtain ⟨call, hcall, hstep⟩ := hstep
  split at hstep
  · next startedAt row hverified =>
      cases hstep
      refine .proceeds hcall (by rw [hverified]; exact Bool.false_ne_true) rfl (.of_finish rfl) rfl ?_
      rw [hverified]
      exact .touches
  · cases hstep

theorem Steps.of_revoke (hstep : s.revoke id = some t) : Steps store s t label := by
  rw [State.revoke, Option.bind_eq_some_iff] at hstep
  obtain ⟨call, hcall, hstep⟩ := hstep
  split at hstep
  · next projectId tokenId actorUserId startedAt hrequest hbegun =>
      have hrunning : ¬State.Phase.hasEnded call.phase := by
        rw [hbegun]
        exact Bool.false_ne_true
      split at hstep
      · cases hstep
        refine .of_setPhase hcall hrunning rfl rfl ?_ rfl rfl rfl (.of_eq rfl ?_) rfl
        · rw [hrequest]
          exact fun _ => nofun
        · rw [hbegun]
          exact fun _ _ => nofun
      · next row hfound =>
          rw [Option.ite_none_left_eq_some] at hstep
          obtain ⟨-, hstep⟩ := hstep
          cases hstep
          have hrow := List.find?_some hfound
          rw [decide_eq_true_eq] at hrow
          refine .proceeds hcall hrunning rfl (.of_finish rfl) rfl ?_
          rw [hrequest, hbegun]
          exact .revokes (List.mem_of_find?_eq_some hfound) hrow.1 hrow.2.1 hrow.2.2 hrow.1
  · cases hstep

theorem Steps.of_load (hstep : s.load id = some t) : Steps store s t label := by
  rw [State.load, Option.bind_eq_some_iff] at hstep
  obtain ⟨call, hcall, hstep⟩ := hstep
  split at hstep
  · next projectId tokenId actorUserId startedAt hrequest hunchanged =>
      have hrunning : ¬State.Phase.hasEnded call.phase := by
        rw [hunchanged]
        exact Bool.false_ne_true
      split at hstep <;> cases hstep
      · refine .of_error hcall hrunning ?_
        rw [hrequest]
        exact fun _ => nofun
      · refine .of_setPhase hcall hrunning rfl rfl ?_ rfl rfl rfl (.of_finish rfl) rfl
        rw [hrequest]
        exact fun _ => nofun
  · cases hstep

theorem Steps.of_delete (hstep : s.delete id = some t) : Steps store s t label := by
  rw [State.delete, Option.bind_eq_some_iff] at hstep
  obtain ⟨call, hcall, hstep⟩ := hstep
  split at hstep
  · next projectId tokenId actorUserId startedAt hrequest hbegun =>
      have hrunning : ¬State.Phase.hasEnded call.phase := by
        rw [hbegun]
        exact Bool.false_ne_true
      split at hstep
      · cases hstep
        refine .of_error hcall hrunning ?_
        rw [hrequest]
        exact fun _ => nofun
      · next row hfound =>
          rw [Option.ite_none_left_eq_some] at hstep
          obtain ⟨-, hstep⟩ := hstep
          cases hstep
          have hrow := List.find?_some hfound
          rw [decide_eq_true_eq] at hrow
          refine .proceeds hcall hrunning rfl (.of_finish rfl) rfl ?_
          rw [hrequest, hbegun]
          exact .deletes (List.mem_of_find?_eq_some hfound) hrow.1 hrow.2 rfl
  · cases hstep

theorem steps_of_step (hstep : State.step store s label = some t) : Steps store s t label := by
  cases label with
  | begin id request =>
      obtain ⟨hnew, hstep⟩ := Option.ite_none_left_eq_some.mp hstep
      cases hstep
      exact .begins (by simpa using hnew) rfl rfl rfl rfl rfl
  | lock id => exact .of_lock hstep
  | count id now => exact .of_count hstep
  | insert id => exact .of_insert hstep
  | select id => exact .of_select hstep
  | touch id => exact .of_touch hstep
  | revoke id => exact .of_revoke hstep
  | load id => exact .of_load hstep
  | delete id => exact .of_delete hstep
  | fail id =>
      obtain ⟨call, hcall, rfl⟩ := Option.map_eq_some_iff.mp hstep
      obtain ⟨hcall, hrunning⟩ := Option.filter_eq_some_iff.mp hcall
      exact .of_error hcall (by simpa using hrunning) fun _ _ => rfl
  | tick elapsed =>
      cases hstep
      exact .ticks rfl rfl rfl rfl (Nat.le_add_right ..)

end Calls

end ProjectApiTokens

end Transcendence.Auth
