import Transcendence.Session.SignedOut
import Transcendence.Session.SingleFlight

/-!
# The sessions that a page has

A session that a request has brought is handed on: the store has it at once, a form after its login, a call
of `resolve` once its promise has settled. So at any moment a page has sessions that it shows or sends, and
others that are about to arrive. What it has after a step it has had before, or the step has brought it
(`Carries`).
-/

namespace Transcendence.Session

/-- The request has an outcome to hand on. An error may have to wait for the body that says what it is. -/
def Request.pending : Request → Bool
  | ⟨_, _, .finishing _⟩ => true
  | ⟨.login, _, .settled (.returned (some _))⟩ => true
  | _ => false

/-- The access token of a session that is about to be handed on. -/
inductive Arriving (s : State) (accessToken : String) : Prop where
  | request {id : Nat} {request : Request} {session : AuthSession} (hrequest : s.requests id = some request)
      (hpending : request.pending = true) (hsession : request.phase.session = some session)
      (htoken : session.accessToken = accessToken)
  | resolve {id : Nat} {call : Resolve} {session : AuthSession} (hcall : s.resolves id = some call)
      (hcontinued : call.continued = false) (hawaited : s.awaited call = some (.returned (some session)))
      (htoken : session.accessToken = accessToken)

inductive Held (s : State) (accessToken : String) : Prop where
  | current {session : AuthSession} (hsession : s.currentSession = some session)
      (htoken : session.accessToken = accessToken)
  | shown {session : AuthSession} (hsession : s.state = some (.authenticated session))
      (htoken : session.accessToken = accessToken)
  | arriving (h : Arriving s accessToken)

/-- Where an access token comes from in a step. -/
inductive Passed (s : State) (label : Label) (accessToken : String) : Prop where
  | held (hnone : label.accessToken = none) (h : Held s accessToken)
  | received (h : label.accessToken = some accessToken)

/-- What a step does with sessions. -/
structure Carries (s : State) (label : Label) (t : State) : Prop where
  current : ∀ session, t.currentSession = some session → Passed s label session.accessToken
  shown : ∀ session, t.state = some (.authenticated session) → Passed s label session.accessToken
  requests : ∀ id after session, t.requests id = some after → after.phase.session = some session →
    (∃ before, s.requests id = some before ∧ before.phase.session = some session ∧
      (before = after ∨ before.pending = true)) ∨ label.accessToken = some session.accessToken
  resolves : ∀ id call, t.resolves id = some call → call.continued = false →
    s.resolves id = some call ∨ ∀ session, t.awaited call ≠ some (.returned (some session))

variable {s t : State} {label : Label}

theorem awaited_eq_session {call : Resolve} {session : AuthSession} :
    s.awaited call = some (.returned (some session)) ↔ ∃ id request, call.request = some id ∧
      s.requests id = some request ∧ request.phase = .settled (.returned (some session)) := by
  constructor
  · exact settled_of_awaited
  · rintro ⟨id, request, hcall, hrequest, hphase⟩
    exact awaited_of_settled hcall hrequest hphase

/-- What a promise brings is new, about to arrive, or was there before. -/
theorem Carries.awaited (h : Carries s label t) {call : Resolve} {session : AuthSession}
    (hawaited : t.awaited call = some (.returned (some session))) :
    s.awaited call = some (.returned (some session)) ∨ Arriving s session.accessToken ∨
      label.accessToken = some session.accessToken := by
  obtain ⟨id, after, hcall, hafter, hphase⟩ := awaited_eq_session.mp hawaited
  have hsession : after.phase.session = some session := by
    rw [hphase]
    rfl
  rcases h.requests id after session hafter hsession with ⟨before, hbefore, hold, rfl | hpending⟩ | hnew
  · exact .inl (awaited_eq_session.mpr ⟨id, before, hcall, hbefore, hphase⟩)
  · exact .inr (.inl (.request hbefore hpending hold rfl))
  · exact .inr (.inr hnew)

theorem Carries.arriving (h : Carries s label t) {accessToken : String} (harriving : Arriving t accessToken) :
    Arriving s accessToken ∨ label.accessToken = some accessToken := by
  cases harriving with
  | @request id after session hafter hpending hsession htoken =>
      rcases h.requests id after session hafter hsession with ⟨before, hbefore, hold, hor⟩ | hnew
      · refine .inl (.request hbefore ?_ hold htoken)
        rcases hor with rfl | hor
        · exact hpending
        · exact hor
      · exact .inr (htoken ▸ hnew)
  | @resolve id call session hcall hcontinued hawaited htoken =>
      rcases h.resolves id call hcall hcontinued with hold | hnone
      · rcases h.awaited hawaited with hbefore | harriving | hnew
        · exact .inl (.resolve hold hcontinued hbefore htoken)
        · exact .inl (htoken ▸ harriving)
        · exact .inr (htoken ▸ hnew)
      · exact absurd hawaited (hnone session)

theorem Carries.held (h : Carries s label t) {accessToken : String} (hheld : Held t accessToken) :
    Passed s label accessToken ∨ Arriving s accessToken := by
  cases hheld with
  | current hsession htoken => exact .inl (htoken ▸ h.current _ hsession)
  | shown hsession htoken => exact .inl (htoken ▸ h.shown _ hsession)
  | arriving harriving =>
      rcases h.arriving harriving with hold | hnew
      · exact .inr hold
      · exact .inl (.received hnew)

/-! ### Steps of the store -/

/-- A step that keeps sessions or drops them. -/
theorem carries_of_keeps (hnone : label.accessToken = none)
    (hcurrent : ∀ session, t.currentSession = some session → s.currentSession = some session)
    (hshown : ∀ session, t.state = some (.authenticated session) → s.state = some (.authenticated session))
    (hrequests : t.requests = s.requests ∨
      ∃ id request, t.requests = Function.update s.requests id (some request) ∧ request.phase.session = none)
    (hresolves : ∀ id call, t.resolves id = some call → call.continued = false →
      s.resolves id = some call ∨ ∀ session, t.awaited call ≠ some (.returned (some session))) : Carries s label t where
  current session hsession := .held hnone (.current (hcurrent session hsession) rfl)
  shown session hsession := .held hnone (.shown (hshown session hsession) rfl)
  requests id after session hafter hsession := by
    rcases hrequests with hsame | ⟨new, request, hupdate, hphase⟩
    · exact .inl ⟨after, by rw [← hsame, hafter], hsession, .inl rfl⟩
    · rw [hupdate] at hafter
      rcases Calls.update_eq_some hafter with ⟨-, rfl⟩ | ⟨-, hold⟩
      · cases hphase.symm.trans hsession
      · exact .inl ⟨after, hold, hsession, .inl rfl⟩
  resolves := hresolves

/-- For steps that leave the calls of `resolve` as they are. -/
theorem resolves_of_eq (h : t.resolves = s.resolves) (id : Nat) (call : Resolve) (hcall : t.resolves id = some call)
    (_ : call.continued = false) :
    s.resolves id = some call ∨ ∀ session, t.awaited call ≠ some (.returned (some session)) :=
  .inl (h ▸ hcall)

/-- A step that changes nothing that is read here. -/
theorem carries_of_same (hnone : label.accessToken = none) (hcurrent : t.currentSession = s.currentSession)
    (hshown : t.state = s.state) (hrequests : t.requests = s.requests) (hresolves : t.resolves = s.resolves) :
    Carries s label t :=
  carries_of_keeps hnone (fun _ hsession => hcurrent ▸ hsession) (fun _ hsession => hshown ▸ hsession) (.inl hrequests)
    (resolves_of_eq hresolves)

/-- A step that signs the page out. -/
theorem carries_of_none (hnone : label.accessToken = none) (hcurrent : t.currentSession = none)
    (hshown : ∀ session, t.state ≠ some (.authenticated session))
    (hrequests : t.requests = s.requests ∨
      ∃ id request, t.requests = Function.update s.requests id (some request) ∧ request.phase.session = none)
    (hresolves : t.resolves = s.resolves) : Carries s label t :=
  carries_of_keeps hnone (fun _ hsession => by cases hcurrent.symm.trans hsession)
    (fun session hsession => absurd hsession (hshown session)) hrequests (resolves_of_eq hresolves)

/-- A request goes on without a session. -/
theorem carries_of_request (hnone : label.accessToken = none) (hcurrent : t.currentSession = s.currentSession)
    (hshown : t.state = s.state) {id : Nat} {request : Request}
    (hrequests : t.requests = Function.update s.requests id (some request)) (hphase : request.phase.session = none)
    (hresolves : t.resolves = s.resolves) : Carries s label t :=
  carries_of_keeps hnone (fun _ hsession => hcurrent ▸ hsession) (fun _ hsession => hshown ▸ hsession)
    (.inr ⟨id, request, hrequests, hphase⟩) (resolves_of_eq hresolves)

theorem carries_refreshSession (hnone : label.accessToken = none) {id : Nat} {result : State × Option Nat}
    (h : s.refreshSession id = some result) : Carries s label result.1 := by
  rw [State.refreshSession.eq_def] at h
  cases hinFlight : s.refreshInFlight with
  | some request =>
      rw [hinFlight] at h
      cases h
      exact carries_of_same hnone rfl rfl rfl rfl
  | none =>
      rw [hinFlight] at h
      simp only at h
      split_ifs at h
      · cases h
        exact carries_of_none hnone rfl (by intro _ hstate; cases hstate) (.inl rfl) rfl
      · cases h
        exact carries_of_request hnone rfl rfl rfl rfl rfl

theorem carries_respond {id status : Nat} (h : s.respond id status = some t) : Carries s (.respond id status) t := by
  rw [State.respond, Option.map_eq_some_iff] at h
  obtain ⟨⟨endpoint, startedAt, phase⟩, -, rfl⟩ := h
  cases endpoint with
  | refresh =>
      simp only
      split_ifs
      · exact carries_of_none rfl rfl (by intro _ hstate; cases hstate) (.inr ⟨id, _, rfl, rfl⟩) rfl
      · exact carries_of_request rfl rfl rfl rfl rfl rfl
      · exact carries_of_request rfl rfl rfl rfl rfl rfl
  | login =>
      simp only
      split_ifs
      · exact carries_of_request rfl rfl rfl rfl rfl rfl
      · exact carries_of_request rfl rfl rfl rfl rfl rfl
  | logout =>
      simp only
      split_ifs
      · exact carries_of_none rfl rfl (by intro _ hstate; cases hstate) (.inr ⟨id, _, rfl, rfl⟩) rfl
      · exact carries_of_request rfl rfl rfl rfl rfl rfl

theorem carries_body {id : Nat} {payload : Option AuthSession} (h : s.body id payload = some t) :
    Carries s (.body id payload) t := by
  rw [State.body, Option.map_eq_some_iff] at h
  obtain ⟨request, -, rfl⟩ := h
  cases payload with
  | none => exact carries_of_request rfl rfl rfl rfl rfl rfl
  | some session =>
      refine ⟨fun found hfound => ?_, fun found hfound => ?_, fun other after found hafter hfound => ?_, resolves_of_eq rfl⟩
      · cases hfound
        exact .received rfl
      · cases hfound
        exact .received rfl
      · rcases Calls.update_eq_some hafter with ⟨-, rfl⟩ | ⟨-, hold⟩
        · right
          dsimp only at hfound
          split_ifs at hfound
          · cases hfound
            rfl
          · cases hfound
            rfl
        · exact .inl ⟨after, hold, hfound, .inl rfl⟩

theorem carries_catchError {id : Nat} (h : s.catchError id = some t) : Carries s (.catchError id) t := by
  rw [State.catchError, Option.map_eq_some_iff] at h
  obtain ⟨request, -, rfl⟩ := h
  split_ifs
  · exact carries_of_none rfl rfl (by intro _ hstate; cases hstate) (.inr ⟨id, _, rfl, rfl⟩) rfl
  · exact carries_of_request rfl rfl rfl rfl rfl rfl

theorem carries_finallyRefresh {id : Nat} (h : s.finallyRefresh id = some t) : Carries s (.finallyRefresh id) t := by
  rw [State.finallyRefresh, Option.bind_eq_some_iff] at h
  obtain ⟨⟨endpoint, startedAt, phase⟩, hrequest, h⟩ := h
  cases phase with
  | finishing outcome =>
      cases h
      refine ⟨fun found hfound => .held rfl (.current hfound rfl), fun found hfound => .held rfl (.shown hfound rfl),
        fun other after found hafter hfound => .inl ?_, resolves_of_eq rfl⟩
      rcases Calls.update_eq_some hafter with ⟨rfl, rfl⟩ | ⟨-, hold⟩
      · refine ⟨_, hrequest, ?_, .inr ?_⟩
        · cases outcome with
          | returned _ => exact hfound
          | threw => cases hfound
        · rw [Request.pending]
      · exact ⟨after, hold, hfound, .inl rfl⟩
  | _ => cases h

theorem carries_continueLogin {id : Nat} (h : s.continueLogin id = some t) : Carries s (.continueLogin id) t := by
  rw [State.continueLogin, Option.bind_eq_some_iff] at h
  obtain ⟨⟨endpoint, startedAt, phase⟩, hrequest, h⟩ := h
  simp only at h
  split at h
  · next _ _ session =>
      cases h
      have harriving : Held s session.accessToken := .arriving (.request hrequest rfl rfl rfl)
      refine ⟨fun found hfound => ?_, fun found hfound => ?_, fun other after found hafter hfound => .inl ?_,
        resolves_of_eq rfl⟩
      · cases hfound
        exact .held rfl harriving
      · cases hfound
        exact .held rfl harriving
      · rcases Calls.update_eq_some hafter with ⟨-, rfl⟩ | ⟨-, hold⟩
        · cases hfound
        · exact ⟨after, hold, hfound, .inl rfl⟩
  · cases h

/-- What a new call of `resolve` waits for brings nothing yet. -/
theorem not_awaited_refreshSession (hs : SingleFlight s) {id : Nat} {result : State × Option Nat}
    (h : s.refreshSession id = some result) {call : Resolve} (hcall : call.request = result.2) (session : AuthSession) :
    result.1.awaited call ≠ some (.returned (some session)) := by
  intro hawaited
  obtain ⟨promised, request, hpromised, hrequest, hphase⟩ := awaited_eq_session.mp hawaited
  have hflight := hs.step (flight_refreshSession h)
  have hunsettled : result.1.refreshInFlight = some promised → False := by
    intro hinFlight
    obtain ⟨found, hfound, -, hnot⟩ := hflight.unsettled promised hinFlight
    cases hrequest.symm.trans hfound
    exact hnot ⟨_, hphase⟩
  rw [State.refreshSession.eq_def] at h
  cases hinFlight : s.refreshInFlight with
  | some waited =>
      rw [hinFlight] at h
      cases h
      cases hcall.symm.trans hpromised
      exact hunsettled hinFlight
  | none =>
      rw [hinFlight] at h
      simp only at h
      split_ifs at h
      · cases h
        cases hcall.symm.trans hpromised
      · cases h
        cases hcall.symm.trans hpromised
        exact hunsettled rfl

theorem carries_resolve (hnone : label.accessToken = none) (hs : SingleFlight s) {id request : Nat}
    (h : s.resolve id request = some t) : Carries s label t := by
  rw [State.resolve] at h
  split_ifs at h
  · cases h
    exact carries_of_same hnone rfl rfl rfl rfl
  · obtain ⟨result, hresult, rfl⟩ := Option.map_eq_some_iff.mp h
    have hcarries := carries_refreshSession hnone hresult
    refine ⟨hcarries.current, hcarries.shown, hcarries.requests, fun other call hcall hcontinued => ?_⟩
    rcases Calls.update_eq_some hcall with ⟨-, rfl⟩ | ⟨-, hold⟩
    · exact .inr (not_awaited_refreshSession hs hresult rfl)
    · exact hcarries.resolves other call hold hcontinued

/-- The same step after a call of `resolve` has gone on. -/
theorem Carries.of_continued {m : State} (h : Carries m label t) (hcurrent : m.currentSession = s.currentSession)
    (hshown : m.state = s.state) (hrequests : m.requests = s.requests)
    (hresolves : ∀ id call, m.resolves id = some call → call.continued = false → s.resolves id = some call) :
    Carries s label t := by
  have hawaited : ∀ call, m.awaited call = s.awaited call := by
    intro call
    rw [State.awaited.eq_def, State.awaited.eq_def, hrequests]
  have harriving : ∀ {accessToken}, Arriving m accessToken → Arriving s accessToken := by
    intro accessToken harriving
    cases harriving with
    | request hrequest hpending hsession htoken => exact .request (hrequests ▸ hrequest) hpending hsession htoken
    | resolve hcall hcontinued hfound htoken =>
        exact .resolve (hresolves _ _ hcall hcontinued) hcontinued (hawaited _ ▸ hfound) htoken
  have hpassed : ∀ {accessToken}, Passed m label accessToken → Passed s label accessToken := by
    intro accessToken hpassed
    cases hpassed with
    | held hnone hheld =>
        refine .held hnone ?_
        cases hheld with
        | current hsession htoken => exact .current (hcurrent ▸ hsession) htoken
        | shown hsession htoken => exact .shown (hshown ▸ hsession) htoken
        | arriving harrives => exact .arriving (harriving harrives)
    | received hnew => exact .received hnew
  refine ⟨fun session hsession => hpassed (h.current session hsession), fun session hsession => hpassed (h.shown session hsession),
    ?_, fun id call hcall hcontinued => ?_⟩
  · rw [← hrequests]
    exact h.requests
  · exact (h.resolves id call hcall hcontinued).imp_left fun hold => hresolves id call hold hcontinued

theorem carries_continueResolve (hs : SingleFlight s) {id next request : Nat}
    (h : s.continueResolve id next request = some t) : Carries s (.continueResolve id next request) t := by
  rw [State.continueResolve, Option.bind_eq_some_iff] at h
  obtain ⟨call, hfind, h⟩ := h
  obtain ⟨hcall, hcontinued⟩ := Option.filter_eq_some_iff.mp hfind
  obtain ⟨outcome, hawaited, h⟩ := Option.bind_eq_some_iff.mp h
  have hold : ∀ other found, Function.update s.resolves id (some { call with continued := true }) other = some found →
      found.continued = false → s.resolves other = some found := by
    intro other found hfound hcontinued
    rcases Calls.update_eq_some hfound with ⟨-, rfl⟩ | ⟨-, hold⟩
    · cases hcontinued
    · exact hold
  simp only at h
  split_ifs at h
  · cases h
    exact carries_of_keeps rfl (fun _ hsession => hsession) (fun _ hsession => hsession) (.inl rfl)
      fun other found hfound hcontinued => .inl (hold other found hfound hcontinued)
  · refine Carries.of_continued (carries_resolve rfl ?_ h) rfl rfl rfl hold
    exact ⟨hs.inFlight, hs.unsettled⟩
  · cases h
    refine ⟨fun found hfound => .held rfl (.current hfound rfl), fun found hfound => .held rfl (.arriving ?_),
      fun other after found hafter hfound => .inl ⟨after, hafter, hfound, .inl rfl⟩,
      fun other found hfound hcontinued => .inl (hold other found hfound hcontinued)⟩
    rw [Option.some.injEq] at hfound
    cases outcome with
    | threw => cases hfound
    | returned session =>
        cases session with
        | none => cases hfound
        | some session =>
            cases hfound
            exact .resolve hcall (by simpa using hcontinued) hawaited rfl

theorem carries_step (hs : SingleFlight s) (h : s.step label = some t) : Carries s label t := by
  cases label with
  | getSession id =>
      obtain ⟨result, hresult, rfl⟩ := Option.map_eq_some_iff.mp h
      exact carries_refreshSession rfl hresult
  | refreshAfterUnauthorized rejectedAccessToken id =>
      rw [State.step, State.refreshAfterUnauthorized] at h
      split_ifs at h
      · cases h
        exact carries_of_same rfl rfl rfl rfl rfl
      · obtain ⟨result, hresult, rfl⟩ := Option.map_eq_some_iff.mp h
        exact carries_refreshSession rfl hresult
  | login id =>
      rw [State.step, State.login] at h
      split_ifs at h
      cases h
      exact carries_of_request rfl rfl rfl rfl rfl rfl
  | logout id csrfToken =>
      rw [State.step, State.logout] at h
      split_ifs at h
      · cases h
        exact carries_of_none rfl rfl (by intro _ hstate; cases hstate) (.inl rfl) rfl
      · cases h
        exact carries_of_request rfl rfl rfl rfl rfl rfl
  | respond id status => exact carries_respond h
  | body id payload => exact carries_body h
  | reject id =>
      obtain ⟨request, -, rfl⟩ := Option.map_eq_some_iff.mp h
      exact carries_of_request rfl rfl rfl rfl rfl rfl
  | catchError id => exact carries_catchError h
  | finallyRefresh id => exact carries_finallyRefresh h
  | continueLogin id => exact carries_continueLogin h
  | resolve id request => exact carries_resolve rfl hs h
  | continueResolve id next request => exact carries_continueResolve hs h
  | finallyResolve id =>
      obtain ⟨call, -, rfl⟩ := Option.map_eq_some_iff.mp h
      exact carries_of_same rfl rfl rfl rfl rfl
  | setAnonymous =>
      cases h
      exact carries_of_none rfl rfl (by intro _ hstate; cases hstate) (.inl rfl) rfl
  | invalidate =>
      cases h
      exact carries_of_none rfl rfl (by intro _ hstate; cases hstate) (.inl rfl) rfl
  | updateUser user =>
      cases h
      rw [State.updateUser.eq_def]
      split
      · next session hstate =>
          refine ⟨fun found hfound => .held rfl (.shown hstate ?_), fun found hfound => .held rfl (.shown hstate ?_),
            fun other after found hafter hfound => .inl ⟨after, hafter, hfound, .inl rfl⟩, resolves_of_eq rfl⟩
          · cases hfound
            rfl
          · cases hfound
            rfl
      · exact carries_of_same rfl rfl rfl rfl rfl
  | setCookie cookie =>
      cases h
      exact carries_of_same rfl rfl rfl rfl rfl
  | tick now =>
      cases h
      exact carries_of_same rfl rfl rfl rfl rfl

end Transcendence.Session
