import Transcendence.Auth.ApiTokenLifecycle

/-!
# The trail of the API tokens

Every change of the table of tokens by a call is recorded: a row is there since a call of `create`, revoked
since one of `revoke` and gone since one of `delete`, whose events name the token, the project and the user who
asked. What a step records is said once (`Recorded`), and the rows, the events and the answered calls are on the
trail in every run, where the rows of a project that is removed go with it.
-/

namespace Transcendence.Auth.ProjectApiTokens

/-- The project, the user and the event of a call that manages tokens. -/
def Request.management : Request → Option (String × String × ProjectApiTokenEventType)
  | .create r => some (r.projectId, r.createdByUserId, .CREATED)
  | .introspect _ => none
  | .revoke projectId _ actorUserId => some (projectId, actorUserId, .REVOKED)
  | .delete projectId _ actorUserId => some (projectId, actorUserId, .DELETED)

/-- The event is one of a call for the user in the project. -/
structure Names (event : ProjectApiTokenEventRow) (projectId actorUserId : String) (eventType : ProjectApiTokenEventType) :
    Prop where
  projectId : event.projectId = projectId
  actorUserId : event.actorUserId = stringPointer actorUserId
  eventType : event.eventType = eventType

/-- The later row differs from the earlier one in nothing that is recorded. -/
structure SameRecord (old row : ProjectApiTokenRow) : Prop where
  id : row.id = old.id
  projectId : row.projectId = old.projectId
  createdByUserId : row.createdByUserId = old.createdByUserId
  revokedAt : row.revokedAt = old.revokedAt
  revokedByUserId : row.revokedByUserId = old.revokedByUserId

/-- The call of `create` or `delete` is answered as done. -/
def Answered (s : State) (id : Nat) (request : Request) : Prop :=
  (∀ projectId tokenId actorUserId, request ≠ .revoke projectId tokenId actorUserId) ∧
    ∃ response, s.calls id = some ⟨request, .ended (.ok response)⟩

/-- What the event of a step is, and which rows it leaves. -/
structure Entry (s t : State) (request : Request) (projectId actorUserId : String)
    (eventType : ProjectApiTokenEventType) (event : ProjectApiTokenEventRow) : Prop where
  management : request.management = some (projectId, actorUserId, eventType)
  names : Names event projectId actorUserId eventType
  events : t.events = s.events ++ [event]
  kept : ∀ old ∈ s.tokens, (∃ row ∈ t.tokens, row.id = old.id ∧ row.projectId = old.projectId) ∨
    (eventType = .DELETED ∧ event.tokenId = old.id ∧ projectId = old.projectId)
  created : eventType = .CREATED → ∃ row ∈ t.tokens, row.id = event.tokenId ∧ row.projectId = projectId
  rows : ∀ row ∈ t.tokens, (∃ old ∈ s.tokens, SameRecord old row) ∨
    (event.tokenId = row.id ∧ row.projectId = projectId ∧
      ((eventType = .CREATED ∧ row.createdByUserId = stringPointer actorUserId ∧ row.revokedAt = none ∧
          projectId ∈ s.projects) ∨
        (eventType = .REVOKED ∧ row.revokedByUserId = some actorUserId ∧
          ∃ old ∈ s.tokens, old.id = row.id ∧ old.projectId = projectId ∧ old.createdByUserId = row.createdByUserId)))

/-- What a step records. -/
inductive Recorded (s t : State) : Prop where
  | nothing (hprojects : t.projects = s.projects) (hevents : t.events = s.events)
      (hkept : ∀ old ∈ s.tokens, ∃ row ∈ t.tokens, row.id = old.id ∧ row.projectId = old.projectId)
      (hrows : ∀ row ∈ t.tokens, ∃ old ∈ s.tokens, SameRecord old row)
      (hanswered : ∀ i request, request.management.isSome → Answered t i request → Answered s i request)
  | event {id request before projectId actorUserId eventType event} (hprojects : t.projects = s.projects)
      (hcall : s.calls id = some ⟨request, before⟩)
      (hentry : Entry s t request projectId actorUserId eventType event)
      (hanswered : ∀ i request', Answered t i request' → Answered s i request' ∨ request' = request)

variable {store : ProjectAPITokenStore} {s t : State} {id : Nat} {call : Call} {label : Label}

theorem SameRecord.refl (row : ProjectApiTokenRow) : SameRecord row row := ⟨rfl, rfl, rfl, rfl, rfl⟩

/-- A step that takes a call on and records nothing. -/
theorem Recorded.of_phase {phase : Phase} (hprojects : t.projects = s.projects)
    (hcalls : t.calls = (s.setPhase id call phase).calls) (hevents : t.events = s.events) (htokens : t.tokens = s.tokens)
    (hphase : ∀ response, phase = .ended (.ok response) →
      call.request.management = none ∨ ∃ projectId tokenId actorUserId, call.request = .revoke projectId tokenId actorUserId) :
    Recorded s t := by
  refine .nothing hprojects hevents (fun old hold => ⟨old, htokens ▸ hold, rfl, rfl⟩)
    (fun row hrow => ⟨row, htokens ▸ hrow, .refl row⟩) fun i request hmanagement h => ?_
  obtain ⟨hrevoke, response, hended⟩ := h
  rw [hcalls] at hended
  rcases Calls.update_eq_some hended with ⟨-, hsame⟩ | ⟨-, hold⟩
  · cases hsame
    rcases hphase response rfl with hnone | ⟨projectId, tokenId, actorUserId, hrequest⟩
    · rw [hnone] at hmanagement
      cases hmanagement
    · exact absurd hrequest (hrevoke projectId tokenId actorUserId)
  · exact ⟨hrevoke, response, hold⟩

theorem Recorded.of_error {error : Error} : Recorded s (s.finish id call (.error error)) := by
  refine .of_phase rfl rfl rfl rfl fun response hended => ?_
  cases hended

/-- A step that ends a call with an event. -/
theorem Recorded.of_entry {request : Request} {before : Phase} {response : Response} {projectId actorUserId : String}
    {eventType : ProjectApiTokenEventType} {event : ProjectApiTokenEventRow} (hprojects : t.projects = s.projects)
    (hcall : s.calls id = some ⟨request, before⟩)
    (hcalls : t.calls = (s.setPhase id ⟨request, before⟩ (.ended (.ok response))).calls)
    (hentry : Entry s t request projectId actorUserId eventType event) : Recorded s t := by
  refine .event hprojects hcall hentry fun i request' h => ?_
  obtain ⟨hrevoke, response', hended⟩ := h
  rw [hcalls] at hended
  rcases Calls.update_eq_some hended with ⟨-, hsame⟩ | ⟨-, hold⟩
  · cases hsame
    exact .inr rfl
  · exact .inl ⟨hrevoke, response', hold⟩

theorem Recorded.of_insert (hstep : s.insert store id = some t) : Recorded s t := by
  rw [State.insert, Option.bind_eq_some_iff] at hstep
  obtain ⟨⟨request, phase⟩, hcall, hstep⟩ := hstep
  split at hstep
  · next r startedAt hrequest hcounted =>
      obtain rfl : request = .create r := hrequest
      dsimp only at hstep
      split_ifs at hstep with hexpired hunique hproject
      · cases hstep
        exact .of_error
      · cases hstep
        exact .of_error
      · cases hstep
        refine .of_entry rfl hcall rfl ⟨rfl, ⟨rfl, rfl, rfl⟩, rfl,
          fun old hold => .inl ⟨old, List.mem_append_left _ hold, rfl, rfl⟩,
          fun _ => ⟨_, List.mem_append_right _ (List.mem_singleton_self _), rfl, rfl⟩, fun row hrow => ?_⟩
        rcases List.mem_append.mp hrow with hold | hnew
        · exact .inl ⟨row, hold, .refl row⟩
        · obtain rfl := List.mem_singleton.mp hnew
          exact .inr ⟨rfl, rfl, .inl ⟨rfl, rfl, rfl, hproject⟩⟩
      · cases hstep
        exact .of_error
  · cases hstep

theorem Recorded.of_revoke (hstep : s.revoke id = some t) : Recorded s t := by
  rw [State.revoke, Option.bind_eq_some_iff] at hstep
  obtain ⟨⟨request, phase⟩, hcall, hstep⟩ := hstep
  split at hstep
  · next projectId tokenId actorUserId startedAt hrequest hbegun =>
      obtain rfl : request = .revoke projectId tokenId actorUserId := hrequest
      split at hstep
      · cases hstep
        refine .of_phase rfl rfl rfl rfl fun response hended => ?_
        cases hended
      · next row hfound =>
          obtain ⟨-, hstep⟩ := Option.ite_none_left_eq_some.mp hstep
          cases hstep
          have hmem := List.mem_of_find?_eq_some hfound
          have hrow := List.find?_some hfound
          rw [decide_eq_true_eq] at hrow
          refine .of_entry rfl hcall rfl ⟨rfl, ⟨hrow.2.1, rfl, rfl⟩, rfl,
            fun old hold => .inl ⟨_, Table.mem_update.mpr ⟨old, hold, rfl⟩, ?_⟩, (fun hcreated => by cases hcreated),
            fun later hlater => ?_⟩
          · split <;> exact ⟨rfl, rfl⟩
          obtain ⟨old, hold, rfl⟩ := Table.mem_update.mp hlater
          split
          · next hchosen =>
              rw [decide_eq_true_eq] at hchosen
              exact .inr ⟨hrow.1.trans hchosen.1.symm, hchosen.2.1, .inr ⟨rfl, rfl, old, hold, rfl, hchosen.2.1, rfl⟩⟩
          · exact .inl ⟨old, hold, .refl old⟩
  · cases hstep

theorem Recorded.of_delete (hstep : s.delete id = some t) : Recorded s t := by
  rw [State.delete, Option.bind_eq_some_iff] at hstep
  obtain ⟨⟨request, phase⟩, hcall, hstep⟩ := hstep
  split at hstep
  · next projectId tokenId actorUserId startedAt hrequest hbegun =>
      obtain rfl : request = .delete projectId tokenId actorUserId := hrequest
      split at hstep
      · cases hstep
        exact .of_error
      · next row hfound =>
          obtain ⟨-, hstep⟩ := Option.ite_none_left_eq_some.mp hstep
          cases hstep
          have hmem := List.mem_of_find?_eq_some hfound
          have hrow := List.find?_some hfound
          rw [decide_eq_true_eq] at hrow
          refine .of_entry rfl hcall rfl ⟨rfl, ⟨hrow.2, rfl, rfl⟩, rfl, fun old hold => ?_,
            (fun hcreated => by cases hcreated), fun later hlater => .inl ⟨later, List.mem_of_mem_filter hlater, .refl later⟩⟩
          by_cases hchosen : old.id = tokenId ∧ old.projectId = projectId
          · exact .inr ⟨rfl, hrow.1.trans hchosen.1.symm, hchosen.2.symm⟩
          · exact .inl ⟨old, List.mem_filter.mpr ⟨hold, decide_eq_true hchosen⟩, rfl, rfl⟩
  · cases hstep

/-- Only introspections lock the row of a token for its update. -/
def VerifiedIntrospects (s : State) : Prop :=
  ∀ i request startedAt row, s.calls i = some ⟨request, .verified startedAt row⟩ → request.management = none

theorem Recorded.of_touch (hverified : VerifiedIntrospects s) (hstep : s.touch id = some t) : Recorded s t := by
  rw [State.touch, Option.bind_eq_some_iff] at hstep
  obtain ⟨⟨request, phase⟩, hcall, hstep⟩ := hstep
  split at hstep
  · next startedAt row hphase =>
      obtain rfl : phase = .verified startedAt row := hphase
      cases hstep
      refine .nothing rfl rfl (fun old hold => ⟨_, Table.mem_update.mpr ⟨old, hold, rfl⟩, ?_⟩) (fun later hlater => ?_)
        fun i request' hmanagement h => ?_
      · split <;> exact ⟨rfl, rfl⟩
      · obtain ⟨old, hold, rfl⟩ := Table.mem_update.mp hlater
        split
        · exact ⟨old, hold, rfl, rfl, rfl, rfl, rfl⟩
        · exact ⟨old, hold, .refl old⟩
      · obtain ⟨hrevoke, response, hended⟩ := h
        rcases Calls.update_eq_some hended with ⟨-, hsame⟩ | ⟨-, hold⟩
        · cases hsame
          rw [hverified id request startedAt row hcall] at hmanagement
          cases hmanagement
        · exact ⟨hrevoke, response, hold⟩
  · cases hstep

theorem recorded (hverified : VerifiedIntrospects s) (hstep : State.step store s label = some t) : Recorded s t := by
  cases label with
  | begin id request =>
      obtain ⟨-, hstep⟩ := Option.ite_none_left_eq_some.mp hstep
      cases hstep
      refine .nothing rfl rfl (fun old hold => ⟨old, hold, rfl, rfl⟩) (fun row hrow => ⟨row, hrow, .refl row⟩)
        fun i request' _ h => ?_
      obtain ⟨hrevoke, response, hended⟩ := h
      rcases Calls.update_eq_some hended with ⟨-, hsame⟩ | ⟨-, hold⟩
      · obtain ⟨rfl, hfirst⟩ := Call.mk.inj hsame
        cases request with
        | introspect value =>
            simp only [State.firstPhase] at hfirst
            split at hfirst <;> cases hfirst
        | _ => cases hfirst
      · exact ⟨hrevoke, response, hold⟩
  | lock id =>
      obtain ⟨call, -, hstep⟩ := Option.bind_eq_some_iff.mp hstep
      split at hstep
      · obtain ⟨-, hstep⟩ := Option.ite_none_left_eq_some.mp hstep
        cases hstep
        refine .of_phase rfl rfl rfl rfl fun response hended => ?_
        cases hended
      · cases hstep
  | count id now =>
      obtain ⟨call, -, hstep⟩ := Option.bind_eq_some_iff.mp hstep
      split at hstep
      · split_ifs at hstep
        · cases hstep
          exact .of_error
        · cases hstep
          exact .of_error
        · cases hstep
          refine .of_phase rfl rfl rfl rfl fun response hended => ?_
          cases hended
      · cases hstep
  | insert id => exact .of_insert hstep
  | select id =>
      obtain ⟨call, -, hstep⟩ := Option.bind_eq_some_iff.mp hstep
      split at hstep
      · obtain ⟨parsed, -, hstep⟩ := Option.bind_eq_some_iff.mp hstep
        split at hstep
        · cases hstep
          exact .of_error
        · obtain ⟨-, hstep⟩ := Option.ite_none_left_eq_some.mp hstep
          split at hstep
          · cases hstep
            exact .of_error
          · cases hstep
            refine .of_phase rfl rfl rfl rfl fun response hended => ?_
            cases hended
      · cases hstep
  | touch id => exact .of_touch hverified hstep
  | revoke id => exact .of_revoke hstep
  | load id =>
      obtain ⟨call, -, hstep⟩ := Option.bind_eq_some_iff.mp hstep
      split at hstep
      · next projectId tokenId actorUserId startedAt hrequest hunchanged =>
          split at hstep
          · cases hstep
            exact .of_error
          · cases hstep
            exact .of_phase rfl rfl rfl rfl fun response _ => .inr ⟨projectId, tokenId, actorUserId, hrequest⟩
      · cases hstep
  | delete id => exact .of_delete hstep
  | fail id =>
      obtain ⟨call, -, rfl⟩ := Option.map_eq_some_iff.mp hstep
      exact .of_error
  | tick elapsed =>
      cases hstep
      exact .nothing rfl rfl (fun old hold => ⟨old, hold, rfl, rfl⟩) (fun row hrow => ⟨row, hrow, .refl row⟩)
        fun _ _ _ h => h

theorem Recorded.projects (h : Recorded s t) : t.projects = s.projects := by
  cases h with
  | nothing hprojects | event hprojects => exact hprojects

/-- A call keeps its request. -/
theorem Steps.exists_after (h : Steps store s t label) {request : Request} {before : Phase}
    (hcall : s.calls id = some ⟨request, before⟩) : ∃ after, t.calls id = some ⟨request, after⟩ := by
  cases h with
  | ticks hcalls => exact ⟨before, by rw [hcalls, hcall]⟩
  | @begins i request' hnew hcalls =>
      refine ⟨before, ?_⟩
      rw [hcalls, Function.update_of_ne, hcall]
      rintro rfl
      cases hnew.symm.trans hcall
  | @proceeds label i old phase hold hrunning hcalls =>
      by_cases heq : id = i
      · subst heq
        obtain rfl := Option.some.inj (hcall.symm.trans hold)
        exact ⟨phase, by rw [hcalls, Function.update_self]⟩
      · exact ⟨before, by rw [hcalls, Function.update_of_ne heq, hcall]⟩

/-! ### The trail -/

structure OnTrail (events : List ProjectApiTokenEventRow) (row : ProjectApiTokenRow) : Prop where
  created : ∃ event ∈ events, event.tokenId = row.id ∧ event.projectId = row.projectId ∧
    event.eventType = .CREATED ∧ event.actorUserId = row.createdByUserId
  revoked : row.revokedAt ≠ none → ∃ event ∈ events, ∃ userId, row.revokedByUserId = some userId ∧
    event.tokenId = row.id ∧ Names event row.projectId userId .REVOKED

/-- The token that was created is there, or its deletion is recorded, or its project was removed. -/
inductive Kept (removed : List String) (s : State) (event : ProjectApiTokenEventRow) : Prop where
  | there {row} (hrow : row ∈ s.tokens) (hid : row.id = event.tokenId) (hproject : row.projectId = event.projectId)
  | deleted {deletion} (hdeletion : deletion ∈ s.events) (htype : deletion.eventType = .DELETED)
      (hid : deletion.tokenId = event.tokenId) (hproject : deletion.projectId = event.projectId)
  | removed (hproject : event.projectId ∈ removed)

structure Trail (removed : List String) (s : State) : Prop where
  verified : VerifiedIntrospects s
  rows : ∀ row ∈ s.tokens, row.projectId ∈ s.projects ∧ OnTrail s.events row
  kept : ∀ event ∈ s.events, event.eventType = .CREATED → Kept removed s event
  answered : ∀ i request projectId actorUserId eventType, request.management = some (projectId, actorUserId, eventType) →
    Answered s i request → ∃ event ∈ s.events, Names event projectId actorUserId eventType

theorem Recorded.mem_events (h : Recorded s t) {event : ProjectApiTokenEventRow} (hevent : event ∈ s.events) :
    event ∈ t.events := by
  cases h with
  | nothing _ hevents => exact hevents ▸ hevent
  | event _ _ hentry => exact hentry.events ▸ List.mem_append_left _ hevent

theorem OnTrail.append {events : List ProjectApiTokenEventRow} {old row : ProjectApiTokenRow} (h : OnTrail events old)
    (hsame : SameRecord old row) (later : List ProjectApiTokenEventRow) : OnTrail (events ++ later) row := by
  refine ⟨?_, fun hrevoked => ?_⟩
  · obtain ⟨event, hevent, hrow⟩ := h.created
    refine ⟨event, List.mem_append_left later hevent, ?_⟩
    rw [hsame.id, hsame.projectId, hsame.createdByUserId]
    exact hrow
  · rw [hsame.revokedAt] at hrevoked
    obtain ⟨event, hevent, hrow⟩ := h.revoked hrevoked
    refine ⟨event, List.mem_append_left later hevent, ?_⟩
    rw [hsame.id, hsame.projectId, hsame.revokedByUserId]
    exact hrow

theorem VerifiedIntrospects.step (h : VerifiedIntrospects s) (hstep : State.step store s label = some t) :
    VerifiedIntrospects t := by
  intro i request startedAt row hcall
  cases (steps_of_step hstep).callStep hcall with
  | stays hold => exact h i request startedAt row hold
  | begins _ _ hphase =>
      cases request with
      | introspect value =>
          simp only [State.firstPhase] at hphase
          split at hphase <;> cases hphase
      | _ => cases hphase
  | proceeds _ _ hchange =>
      generalize t.tokens = tokens, t.events = events at hchange
      cases hchange with
      | goesOn hgrant => cases hgrant
      | verifies => rfl

theorem Recorded.onTrail (h : Recorded s t) (hrows : ∀ row ∈ s.tokens, row.projectId ∈ s.projects ∧ OnTrail s.events row)
    {row : ProjectApiTokenRow} (hrow : row ∈ t.tokens) : row.projectId ∈ t.projects ∧ OnTrail t.events row := by
  cases h with
  | nothing hprojects hevents _ hold =>
      obtain ⟨old, hold, hsame⟩ := hold row hrow
      obtain ⟨hproject, htrail⟩ := hrows old hold
      have hlater := htrail.append hsame []
      rw [List.append_nil] at hlater
      rw [hprojects, hevents, hsame.projectId]
      exact ⟨hproject, hlater⟩
  | @event id request before projectId actorUserId eventType event hprojects hcall hentry =>
      rw [hprojects, hentry.events]
      have hlast : event ∈ s.events ++ [event] := List.mem_append_right _ (List.mem_singleton_self event)
      rcases hentry.rows row hrow with ⟨old, hold, hsame⟩ | ⟨hid, hproject, hkind⟩
      · obtain ⟨hproject, htrail⟩ := hrows old hold
        rw [hsame.projectId]
        exact ⟨hproject, htrail.append hsame [event]⟩
      · rcases hkind with ⟨rfl, hcreator, hactive, hknown⟩ | ⟨rfl, hrevoker, old, hold, holdId, holdProject, hcreator⟩
        · refine ⟨hproject ▸ hknown, ⟨event, hlast, hid, ?_⟩, fun hrevoked => absurd hactive hrevoked⟩
          rw [hentry.names.projectId, hproject, hcreator]
          exact ⟨rfl, hentry.names.eventType, hentry.names.actorUserId⟩
        · obtain ⟨hknown, htrail⟩ := hrows old hold
          refine ⟨by rw [hproject, ← holdProject]; exact hknown, ?_, fun _ => ⟨event, hlast, actorUserId, hrevoker, hid, ?_⟩⟩
          · obtain ⟨earlier, hearlier, hearlierId, hearlierProject, hcreated⟩ := htrail.created
            refine ⟨earlier, List.mem_append_left _ hearlier, hearlierId.trans holdId, ?_, ?_⟩
            · rw [hearlierProject, holdProject, hproject]
            · rw [← hcreator]
              exact hcreated
          · rw [hproject]
            exact hentry.names

theorem Kept.step {removed : List String} {event : ProjectApiTokenEventRow} (h : Kept removed s event)
    (hrecorded : Recorded s t) : Kept removed t event := by
  cases h with
  | there hrow hid hproject =>
      cases hrecorded with
      | nothing _ _ hkept =>
          obtain ⟨later, hlater, hsame, hsame'⟩ := hkept _ hrow
          exact .there hlater (hsame.trans hid) (hsame'.trans hproject)
      | event _ _ hentry =>
          rcases hentry.kept _ hrow with ⟨later, hlater, hsame, hsame'⟩ | ⟨htype, hdeleted, hproject'⟩
          · exact .there hlater (hsame.trans hid) (hsame'.trans hproject)
          · refine .deleted (hentry.events ▸ List.mem_append_right _ (List.mem_singleton_self _))
              (hentry.names.eventType.trans htype) (hdeleted.trans hid) ?_
            rw [hentry.names.projectId, hproject', hproject]
  | deleted hdeletion htype hid hproject => exact .deleted (hrecorded.mem_events hdeletion) htype hid hproject
  | removed hproject => exact .removed hproject

theorem Trail.step {removed : List String} (h : Trail removed s) (hstep : State.step store s label = some t) :
    Trail removed t := by
  have hrecorded := recorded h.verified hstep
  have hkept : ∀ event ∈ s.events, event.eventType = .CREATED → Kept removed t event :=
    fun event hevent hcreated => (h.kept event hevent hcreated).step hrecorded
  refine ⟨h.verified.step hstep, fun row hrow => hrecorded.onTrail h.rows hrow, fun event hevent hcreated => ?_, ?_⟩
  · cases hrecorded with
    | nothing _ hevents => exact hkept event (hevents ▸ hevent) hcreated
    | event _ _ hentry =>
        rw [hentry.events] at hevent
        rcases List.mem_append.mp hevent with hold | hnew
        · exact hkept event hold hcreated
        · obtain rfl := List.mem_singleton.mp hnew
          obtain ⟨row, hrow, hid, hproject⟩ := hentry.created (hentry.names.eventType.symm.trans hcreated)
          exact .there hrow hid (hproject.trans hentry.names.projectId.symm)
  · intro i request projectId actorUserId eventType hmanagement hanswered
    cases hrecorded with
    | nothing _ hevents _ _ hsame =>
        rw [hevents]
        refine h.answered i request projectId actorUserId eventType hmanagement (hsame i request ?_ hanswered)
        rw [hmanagement]
        rfl
    | @event id request' before projectId' actorUserId' eventType' event hprojects hcall hentry hnew =>
        rw [hentry.events]
        rcases hnew i request hanswered with hold | rfl
        · obtain ⟨earlier, hearlier, hnames⟩ := h.answered i request projectId actorUserId eventType hmanagement hold
          exact ⟨earlier, List.mem_append_left _ hearlier, hnames⟩
        · cases hmanagement.symm.trans hentry.management
          exact ⟨event, List.mem_append_right _ (List.mem_singleton_self event), hentry.names⟩

theorem trail_initial (removed projects : List String) (clock : Nat) : Trail removed (initial projects clock) where
  verified _ _ _ _ hcall := by cases hcall
  rows _ hrow := by cases hrow
  kept _ hevent := by cases hevent
  answered _ _ _ _ _ _ h := by
    obtain ⟨-, response, hcall⟩ := h
    cases hcall

/-- A project comes, or goes with its tokens. -/
theorem Trail.of_projects {removed later : List String} (h : Trail removed s) (hcalls : t.calls = s.calls)
    (hevents : t.events = s.events) (hremoved : ∀ projectId ∈ removed, projectId ∈ later)
    (hrows : ∀ row ∈ t.tokens, row ∈ s.tokens ∧ row.projectId ∈ t.projects)
    (hkept : ∀ row ∈ s.tokens, row ∈ t.tokens ∨ row.projectId ∈ later) : Trail later t := by
  refine ⟨fun i request startedAt row hcall => h.verified i request startedAt row (hcalls ▸ hcall), fun row hrow => ?_,
    fun event hevent hcreated => ?_, fun i request projectId actorUserId eventType hmanagement hanswered => ?_⟩
  · rw [hevents]
    exact ⟨(hrows row hrow).2, (h.rows row (hrows row hrow).1).2⟩
  · cases h.kept event (hevents ▸ hevent) hcreated with
    | @there row hrow hid hproject =>
        rcases hkept row hrow with hrow | hgone
        · exact .there hrow hid hproject
        · exact .removed (hproject ▸ hgone)
    | deleted hdeletion htype hid hproject => exact .deleted (hevents.symm ▸ hdeletion) htype hid hproject
    | removed hproject => exact .removed (hremoved _ hproject)
  · rw [hevents]
    rw [Answered, hcalls] at hanswered
    exact h.answered i request projectId actorUserId eventType hmanagement hanswered

end Transcendence.Auth.ProjectApiTokens
