import Transcendence.Session.BearerFetch

/-!
# One refresh at a time

A refresh token is good for one refresh, so two that are under way at once would sign the page out. Whoever
needs one waits for that which is in flight: the pages that look for a session, the calls of `resolve`, and the
requests that a 401 has refused. The store knows of every refresh that has not settled, and nobody waits for
what will not come (`refreshes_shared`).
-/

namespace Transcendence.Session

def Phase.Settled (phase : Phase) : Prop :=
  ∃ outcome, phase = .settled outcome

/-- The session that a request ends with. -/
def Outcome.session : Outcome → Option AuthSession
  | .returned session => session
  | .threw => none

/-- The store knows of the refreshes that have not settled. -/
structure SingleFlight (s : State) : Prop where
  inFlight : ∀ id request, s.requests id = some request → request.endpoint = .refresh → ¬request.phase.Settled →
    s.refreshInFlight = some id
  unsettled : ∀ id, s.refreshInFlight = some id →
    ∃ request, s.requests id = some request ∧ request.endpoint = .refresh ∧ ¬request.phase.Settled

/-- What a step does to the requests and to the refresh in flight. -/
inductive Flight (s t : State) : Prop where
  | rests (hrequests : t.requests = s.requests) (hinFlight : t.refreshInFlight = s.refreshInFlight)
  | refreshes {id startedAt : Nat} (hnew : s.requests id = none) (hnone : s.refreshInFlight = none)
      (hrequests : t.requests = Function.update s.requests id (some ⟨.refresh, startedAt, .fetching⟩))
      (hinFlight : t.refreshInFlight = some id)
  | starts {id startedAt : Nat} {endpoint : Endpoint} (hnew : s.requests id = none) (hother : endpoint ≠ .refresh)
      (hrequests : t.requests = Function.update s.requests id (some ⟨endpoint, startedAt, .fetching⟩))
      (hinFlight : t.refreshInFlight = s.refreshInFlight)
  | proceeds {id : Nat} {request : Request} {phase : Phase} (hrequest : s.requests id = some request)
      (hrequests : t.requests = Function.update s.requests id (some { request with phase := phase }))
      (hinFlight : t.refreshInFlight = s.refreshInFlight)
      (hunsettled : request.endpoint = .refresh → ¬request.phase.Settled ∧ ¬phase.Settled)
      (hpublished : ∀ outcome, phase = .finishing outcome → t.currentSession = outcome.session)
  | settles {id : Nat} {request : Request} {outcome : Outcome} (hrequest : s.requests id = some request)
      (hfinishing : request.phase = .finishing outcome)
      (hrequests : t.requests = Function.update s.requests id (some { request with phase := .settled outcome }))
      (hinFlight : t.refreshInFlight = s.refreshInFlight.filter (· ≠ id))

variable {s t : State} {label : Label}

theorem not_settled_of_eq {before phase : Phase} (h : before = phase) (hphase : ∀ outcome, phase ≠ .settled outcome) :
    ¬before.Settled := by
  rintro ⟨outcome, houtcome⟩
  exact hphase outcome (h.symm.trans houtcome)

theorem published_of_eq {outcome : Outcome} (h : t.currentSession = outcome.session) (found : Outcome)
    (hfinishing : Phase.finishing outcome = .finishing found) : t.currentSession = found.session := by
  cases hfinishing
  exact h

/-- What is there stays when something new comes. -/
theorem update_of_new {entries : Nat → Option Request} {id new : Nat} {request added : Request} (hnew : entries new = none)
    (hrequest : entries id = some request) : Function.update entries new (some added) id = some request := by
  rw [Function.update_of_ne, hrequest]
  intro heq
  rw [heq, hnew] at hrequest
  cases hrequest

theorem Flight.congr {s' t' : State} (h : Flight s t) (hs : s'.requests = s.requests)
    (hs' : s'.refreshInFlight = s.refreshInFlight) (ht : t'.requests = t.requests)
    (ht' : t'.refreshInFlight = t.refreshInFlight) (hcurrent : t'.currentSession = t.currentSession) : Flight s' t' := by
  cases h with
  | rests hrequests hinFlight => exact .rests (by rw [ht, hrequests, hs]) (by rw [ht', hinFlight, hs'])
  | refreshes hnew hnone hrequests hinFlight =>
      exact .refreshes (by rw [hs, hnew]) (by rw [hs', hnone]) (by rw [ht, hrequests, hs]) (by rw [ht', hinFlight])
  | starts hnew hother hrequests hinFlight =>
      exact .starts (by rw [hs, hnew]) hother (by rw [ht, hrequests, hs]) (by rw [ht', hinFlight, hs'])
  | proceeds hrequest hrequests hinFlight hunsettled hpublished =>
      refine .proceeds (by rw [hs, hrequest]) (by rw [ht, hrequests, hs]) (by rw [ht', hinFlight, hs']) hunsettled ?_
      rw [hcurrent]
      exact hpublished
  | settles hrequest hfinishing hrequests hinFlight =>
      exact .settles (by rw [hs, hrequest]) hfinishing (by rw [ht, hrequests, hs]) (by rw [ht', hinFlight, hs'])

/-! ### Steps of the store -/

theorem flight_refreshSession {id : Nat} {result : State × Option Nat} (h : s.refreshSession id = some result) :
    Flight s result.1 := by
  rw [State.refreshSession.eq_def] at h
  cases hinFlight : s.refreshInFlight with
  | some request =>
      rw [hinFlight] at h
      cases h
      exact .rests rfl rfl
  | none =>
      rw [hinFlight] at h
      simp only at h
      split_ifs at h with hcookie hnew
      · cases h
        exact .rests rfl rfl
      · cases h
        exact .refreshes (Option.not_isSome_iff_eq_none.mp hnew) hinFlight rfl rfl

theorem flight_respond {id status : Nat} (h : s.respond id status = some t) : Flight s t := by
  rw [State.respond, Option.map_eq_some_iff] at h
  obtain ⟨⟨endpoint, startedAt, phase⟩, hfind, rfl⟩ := h
  obtain ⟨hrequest, hphase⟩ := Option.filter_eq_some_iff.mp hfind
  have hbefore : ¬Phase.Settled phase := not_settled_of_eq (of_decide_eq_true hphase) (by simp)
  cases endpoint with
  | refresh =>
      simp only
      split_ifs
      · exact .proceeds hrequest rfl rfl (fun _ => ⟨hbefore, not_settled_of_eq rfl (by simp)⟩) (published_of_eq rfl)
      · exact .proceeds hrequest rfl rfl (fun _ => ⟨hbefore, not_settled_of_eq rfl (by simp)⟩) nofun
      · exact .proceeds hrequest rfl rfl (fun _ => ⟨hbefore, not_settled_of_eq rfl (by simp)⟩) nofun
  | login =>
      simp only
      split_ifs
      · exact .proceeds hrequest rfl rfl nofun nofun
      · exact .proceeds hrequest rfl rfl nofun nofun
  | logout =>
      simp only
      split_ifs
      · exact .proceeds hrequest rfl rfl nofun nofun
      · exact .proceeds hrequest rfl rfl nofun nofun

theorem flight_body {id : Nat} {payload : Option AuthSession} (h : s.body id payload = some t) : Flight s t := by
  rw [State.body, Option.map_eq_some_iff] at h
  obtain ⟨request, hfind, rfl⟩ := h
  obtain ⟨hrequest, hphase⟩ := Option.filter_eq_some_iff.mp hfind
  have hbefore : ¬request.phase.Settled := not_settled_of_eq (of_decide_eq_true hphase) (by simp)
  cases payload with
  | none => exact .proceeds hrequest rfl rfl (fun _ => ⟨hbefore, not_settled_of_eq rfl (by simp)⟩) nofun
  | some session =>
      refine .proceeds hrequest rfl rfl (fun hrefresh => ⟨hbefore, ?_⟩) fun outcome hfinishing => ?_
      · rw [if_pos hrefresh]
        exact not_settled_of_eq rfl (by simp)
      · split_ifs at hfinishing
        cases hfinishing
        rfl

theorem flight_reject {id : Nat} (h : s.reject id = some t) : Flight s t := by
  rw [State.reject, Option.map_eq_some_iff] at h
  obtain ⟨request, hfind, rfl⟩ := h
  obtain ⟨hrequest, hphase⟩ := Option.filter_eq_some_iff.mp hfind
  have hbefore : ¬request.phase.Settled := by
    rcases of_decide_eq_true hphase with hphase | hphase
    · exact not_settled_of_eq hphase (by simp)
    · exact not_settled_of_eq hphase (by simp)
  exact .proceeds hrequest rfl rfl (fun _ => ⟨hbefore, not_settled_of_eq rfl (by simp)⟩) nofun

theorem flight_catchError {id : Nat} (h : s.catchError id = some t) : Flight s t := by
  rw [State.catchError, Option.map_eq_some_iff] at h
  obtain ⟨request, hfind, rfl⟩ := h
  obtain ⟨hrequest, hphase⟩ := Option.filter_eq_some_iff.mp hfind
  have hbefore : ¬request.phase.Settled := not_settled_of_eq (of_decide_eq_true hphase) (by simp)
  split_ifs with hrefresh
  · exact .proceeds hrequest rfl rfl (fun _ => ⟨hbefore, not_settled_of_eq rfl (by simp)⟩) (published_of_eq rfl)
  · exact .proceeds hrequest rfl rfl (fun hother => absurd hother hrefresh) nofun

theorem flight_finallyRefresh {id : Nat} (h : s.finallyRefresh id = some t) : Flight s t := by
  rw [State.finallyRefresh, Option.bind_eq_some_iff] at h
  obtain ⟨⟨endpoint, startedAt, phase⟩, hrequest, h⟩ := h
  cases phase with
  | finishing outcome =>
      cases h
      exact .settles hrequest rfl rfl rfl
  | _ => cases h

theorem flight_continueLogin {id : Nat} (h : s.continueLogin id = some t) : Flight s t := by
  rw [State.continueLogin, Option.bind_eq_some_iff] at h
  obtain ⟨⟨endpoint, startedAt, phase⟩, hrequest, h⟩ := h
  simp only at h
  split at h
  · cases h
    exact .proceeds hrequest rfl rfl nofun nofun
  · cases h

theorem flight_resolve {id request : Nat} (h : s.resolve id request = some t) : Flight s t := by
  rw [State.resolve] at h
  split_ifs at h
  · cases h
    exact .rests rfl rfl
  · obtain ⟨result, hresult, rfl⟩ := Option.map_eq_some_iff.mp h
    exact (flight_refreshSession hresult).congr rfl rfl rfl rfl rfl

theorem flight_continueResolve {id next request : Nat} (h : s.continueResolve id next request = some t) : Flight s t := by
  rw [State.continueResolve, Option.bind_eq_some_iff] at h
  obtain ⟨call, -, h⟩ := h
  obtain ⟨outcome, -, h⟩ := Option.bind_eq_some_iff.mp h
  simp only at h
  split_ifs at h
  · cases h
    exact .rests rfl rfl
  · exact (flight_resolve h).congr rfl rfl rfl rfl rfl
  · cases h
    exact .rests rfl rfl

theorem flight_step (h : s.step label = some t) : Flight s t := by
  cases label with
  | getSession id =>
      obtain ⟨result, hresult, rfl⟩ := Option.map_eq_some_iff.mp h
      exact flight_refreshSession hresult
  | refreshAfterUnauthorized rejectedAccessToken id =>
      rw [State.step, State.refreshAfterUnauthorized] at h
      split_ifs at h
      · cases h
        exact .rests rfl rfl
      · obtain ⟨result, hresult, rfl⟩ := Option.map_eq_some_iff.mp h
        exact flight_refreshSession hresult
  | login id =>
      rw [State.step, State.login] at h
      split_ifs at h with hnew
      cases h
      exact .starts (Option.not_isSome_iff_eq_none.mp hnew) (by simp) rfl rfl
  | logout id csrfToken =>
      rw [State.step, State.logout] at h
      split_ifs at h with hcookie hnew
      · cases h
        exact .rests rfl rfl
      · cases h
        exact .starts (Option.not_isSome_iff_eq_none.mp hnew) (by simp) rfl rfl
  | respond id status => exact flight_respond h
  | body id payload => exact flight_body h
  | reject id => exact flight_reject h
  | catchError id => exact flight_catchError h
  | finallyRefresh id => exact flight_finallyRefresh h
  | continueLogin id => exact flight_continueLogin h
  | resolve id request => exact flight_resolve h
  | continueResolve id next request => exact flight_continueResolve h
  | finallyResolve id =>
      obtain ⟨call, _, rfl⟩ := Option.map_eq_some_iff.mp h
      exact .rests rfl rfl
  | setAnonymous =>
      cases h
      exact .rests rfl rfl
  | invalidate =>
      cases h
      exact .rests rfl rfl
  | updateUser user =>
      cases h
      rw [State.updateUser.eq_def]
      split
      · exact .rests rfl rfl
      · exact .rests rfl rfl
  | setCookie cookie =>
      cases h
      exact .rests rfl rfl
  | tick now =>
      cases h
      exact .rests rfl rfl

theorem singleFlight_initial (cookie : Option String) (now : Int) : SingleFlight (.initial cookie now) where
  inFlight _ _ hrequest := by cases hrequest
  unsettled _ hinFlight := by cases hinFlight

theorem SingleFlight.step (hs : SingleFlight s) (h : Flight s t) : SingleFlight t := by
  cases h with
  | rests hrequests hinFlight =>
      constructor
      · rw [hrequests, hinFlight]
        exact hs.inFlight
      · rw [hrequests, hinFlight]
        exact hs.unsettled
  | @refreshes new startedAt hnew hnone hrequests hinFlight =>
      constructor
      · intro id request hrequest hrefresh hunsettled
        rw [hrequests] at hrequest
        rcases Calls.update_eq_some hrequest with ⟨rfl, -⟩ | ⟨-, hold⟩
        · exact hinFlight
        · cases hnone.symm.trans (hs.inFlight id request hold hrefresh hunsettled)
      · intro id hid
        obtain rfl : new = id := Option.some.inj (hinFlight.symm.trans hid)
        exact ⟨_, by rw [hrequests, Function.update_self], rfl, not_settled_of_eq rfl (by simp)⟩
  | @starts new startedAt endpoint hnew hother hrequests hinFlight =>
      constructor
      · intro id request hrequest hrefresh hunsettled
        rw [hrequests] at hrequest
        rcases Calls.update_eq_some hrequest with ⟨rfl, hstarted⟩ | ⟨-, hold⟩
        · cases hstarted
          exact absurd hrefresh hother
        · rw [hinFlight]
          exact hs.inFlight id request hold hrefresh hunsettled
      · intro id hid
        obtain ⟨request, hrequest, hunsettled⟩ := hs.unsettled id (hinFlight ▸ hid)
        exact ⟨request, by rw [hrequests, update_of_new hnew hrequest], hunsettled⟩
  | @proceeds id' before phase hbefore hrequests hinFlight hproceeds _ =>
      constructor
      · intro id request hrequest hrefresh hunsettled
        rw [hrequests] at hrequest
        rw [hinFlight]
        rcases Calls.update_eq_some hrequest with ⟨rfl, hafter⟩ | ⟨-, hold⟩
        · cases hafter
          exact hs.inFlight id before hbefore hrefresh (hproceeds hrefresh).1
        · exact hs.inFlight id request hold hrefresh hunsettled
      · intro id hid
        obtain ⟨request, hrequest, hrefresh, hunsettled⟩ := hs.unsettled id (hinFlight ▸ hid)
        by_cases hsame : id = id'
        · subst hsame
          cases hbefore.symm.trans hrequest
          exact ⟨{ before with phase := phase }, by rw [hrequests, Function.update_self], hrefresh, (hproceeds hrefresh).2⟩
        · exact ⟨request, by rw [hrequests, Function.update_of_ne hsame, hrequest], hrefresh, hunsettled⟩
  | @settles id' before outcome hbefore hfinishing hrequests hinFlight =>
      constructor
      · intro id request hrequest hrefresh hunsettled
        rw [hrequests] at hrequest
        rcases Calls.update_eq_some hrequest with ⟨rfl, hafter⟩ | ⟨hne, hold⟩
        · cases hafter
          exact absurd ⟨outcome, rfl⟩ hunsettled
        · rw [hinFlight, hs.inFlight id request hold hrefresh hunsettled, Option.filter_some, if_pos (decide_eq_true hne)]
      · intro id hid
        rw [hinFlight, Option.filter_eq_some_iff] at hid
        obtain ⟨request, hrequest, hunsettled⟩ := hs.unsettled id hid.1
        refine ⟨request, ?_, hunsettled⟩
        rw [hrequests, Function.update_of_ne (of_decide_eq_true hid.2), hrequest]

/-- A refresh stays one. -/
theorem Flight.refresh_after (h : Flight s t) {id : Nat} {request : Request} (hrequest : s.requests id = some request)
    (hrefresh : request.endpoint = .refresh) : ∃ after, t.requests id = some after ∧ after.endpoint = .refresh := by
  cases h with
  | rests hrequests _ => exact ⟨request, by rw [hrequests, hrequest], hrefresh⟩
  | refreshes hnew _ hrequests _ => exact ⟨request, by rw [hrequests, update_of_new hnew hrequest], hrefresh⟩
  | starts hnew _ hrequests _ => exact ⟨request, by rw [hrequests, update_of_new hnew hrequest], hrefresh⟩
  | @proceeds id' before phase hbefore hrequests _ _ _ =>
      by_cases hid : id = id'
      · subst hid
        cases hbefore.symm.trans hrequest
        exact ⟨{ request with phase := phase }, by rw [hrequests, Function.update_self], hrefresh⟩
      · exact ⟨request, by rw [hrequests, Function.update_of_ne hid, hrequest], hrefresh⟩
  | @settles id' before outcome hbefore _ hrequests _ =>
      by_cases hid : id = id'
      · subst hid
        cases hbefore.symm.trans hrequest
        exact ⟨{ request with phase := .settled outcome }, by rw [hrequests, Function.update_self], hrefresh⟩
      · exact ⟨request, by rw [hrequests, Function.update_of_ne hid, hrequest], hrefresh⟩

/-! ### Those who wait -/

/-- A promise that somebody has: that of a refresh, or one of `null`. -/
def Promise (s : State) (promise : Option Nat) : Prop :=
  ∀ id, promise = some id → ∃ request, s.requests id = some request ∧ request.endpoint = .refresh

theorem Promise.step {promise : Option Nat} (hpromise : Promise s promise) (h : Flight s t) : Promise t promise := by
  intro id hid
  obtain ⟨request, hrequest, hrefresh⟩ := hpromise id hid
  exact h.refresh_after hrequest hrefresh

theorem promise_refreshSession (hs : SingleFlight s) {id : Nat} {result : State × Option Nat}
    (h : s.refreshSession id = some result) : Promise result.1 result.2 := by
  intro promised hpromised
  have hflight := hs.step (flight_refreshSession h)
  rw [State.refreshSession.eq_def] at h
  cases hinFlight : s.refreshInFlight with
  | some request =>
      rw [hinFlight] at h
      cases h
      cases hpromised
      obtain ⟨request, hrequest, hrefresh, -⟩ := hflight.unsettled _ hinFlight
      exact ⟨request, hrequest, hrefresh⟩
  | none =>
      rw [hinFlight] at h
      simp only at h
      split_ifs at h
      · cases h
        cases hpromised
      · cases h
        cases hpromised
        exact ⟨_, Function.update_self .., rfl⟩

/-- A promise has settled, or is that of the refresh in flight. -/
theorem Promise.cases {promise : Option Nat} (hpromise : Promise s promise) (hs : SingleFlight s) :
    (s.promised promise).isSome ∨ ∃ id, promise = some id ∧ s.refreshInFlight = some id := by
  cases promise with
  | none => exact .inl rfl
  | some id =>
      obtain ⟨request, hrequest, hrefresh⟩ := hpromise id rfl
      by_cases hsettled : request.phase.Settled
      · obtain ⟨outcome, houtcome⟩ := hsettled
        refine .inl ?_
        rw [State.promised, State.awaited.eq_def]
        simp only [hrequest, houtcome, Option.bind_some, Option.isSome_some]
      · exact .inr ⟨id, rfl, hs.inFlight id request hrequest hrefresh hsettled⟩

/-- Of the store and of the calls over it. -/
structure Shared (b : Browser) : Prop where
  single : SingleFlight b.session
  promised : ∀ id fetch promise, b.fetches id = some fetch → fetch.phase.promise = some promise → Promise b.session promise

variable {b c : Browser}

/-- A step of the store, or one of its refreshes. -/
theorem Shared.store (h : Shared b) {session : State} (hflight : Flight b.session session) (received : List String) :
    Shared { b with session := session, received := received } where
  single := h.single.step hflight
  promised id fetch promise hfetch hpromise := (h.promised id fetch promise hfetch hpromise).step hflight

theorem Shared.setFetch (h : Shared b) {fetch : Fetch}
    (hfetch : ∀ promise, fetch.phase.promise = some promise → Promise b.session promise) (id : Nat) :
    Shared (b.setFetch id fetch) where
  single := h.single
  promised other found promise hfound hpromise := by
    rcases Calls.update_eq_some hfound with ⟨-, rfl⟩ | ⟨-, hold⟩
    · exact hfetch promise hpromise
    · exact h.promised other found promise hold hpromise

/-- A call that does not wait. -/
theorem Shared.setFetch_of_none (h : Shared b) {fetch : Fetch} (hnone : fetch.phase.promise = none) (id : Nat) :
    Shared (b.setFetch id fetch) := by
  refine h.setFetch (fun promise hpromise => ?_) id
  cases hnone.symm.trans hpromise

theorem Shared.of_refreshSession (h : Shared b) {id request : Nat} {result : State × Option Nat}
    (hresult : b.session.refreshSession request = some result) {fetch : Fetch}
    (hfetch : fetch.phase.promise = some result.2) : Shared ({ b with session := result.1 }.setFetch id fetch) := by
  refine (h.store (flight_refreshSession hresult) b.received).setFetch (fun promise hpromise => ?_) id
  cases hfetch.symm.trans hpromise
  exact promise_refreshSession h.single hresult

theorem shared_goOn (h : Shared b) {id : Nat} (hstep : b.goOn id = some c) : Shared c := by
  obtain ⟨fetch, -, hstep⟩ := Option.bind_eq_some_iff.mp hstep
  split at hstep
  · obtain ⟨outcome, -, rfl⟩ := Option.map_eq_some_iff.mp hstep
    split
    · exact h.setFetch_of_none rfl id
    · exact h.setFetch_of_none rfl id
    · exact h.setFetch_of_none rfl id
  · obtain ⟨outcome, -, rfl⟩ := Option.map_eq_some_iff.mp hstep
    split
    · exact h.setFetch_of_none rfl id
    · exact h.setFetch_of_none rfl id
    · exact h.setFetch_of_none rfl id
  · cases hstep

theorem shared_respond (h : Shared b) {id status request : Nat} (hstep : b.respond id status request = some c) : Shared c := by
  obtain ⟨fetch, -, hstep⟩ := Option.bind_eq_some_iff.mp hstep
  split at hstep
  · split_ifs at hstep
    · cases hstep
      exact h.setFetch_of_none rfl id
    · rw [Browser.unauthorized] at hstep
      split at hstep
      · cases hstep
        exact h.setFetch_of_none rfl id
      · obtain ⟨result, hresult, rfl⟩ := Option.map_eq_some_iff.mp hstep
        exact h.of_refreshSession hresult rfl
  · cases hstep
    exact h.setFetch_of_none rfl id
  · cases hstep

theorem Shared.step {label : BrowserLabel} (h : Shared b) (hstep : b.step label = some c) : Shared c := by
  cases label with
  | store label =>
      rw [Browser.step, Browser.store.eq_def] at hstep
      split at hstep
      · cases hstep
      · obtain ⟨session, hsession, rfl⟩ := Option.map_eq_some_iff.mp hstep
        exact h.store (flight_step hsession) _
  | start id request =>
      rw [Browser.step, Browser.start] at hstep
      split_ifs at hstep
      split at hstep
      · cases hstep
        exact h.setFetch_of_none rfl id
      · obtain ⟨result, hresult, rfl⟩ := Option.map_eq_some_iff.mp hstep
        exact h.of_refreshSession hresult rfl
  | goOn id => exact shared_goOn h hstep
  | respond id status request => exact shared_respond h hstep
  | fail id =>
      obtain ⟨fetch, -, hstep⟩ := Option.bind_eq_some_iff.mp hstep
      split at hstep
      · cases hstep
        exact h.setFetch_of_none rfl id
      · cases hstep
        exact h.setFetch_of_none rfl id
      · cases hstep

theorem shared_initial (cookie : Option String) (now : Int) : Shared (.initial cookie now) where
  single := singleFlight_initial cookie now
  promised _ _ _ hfetch := by cases hfetch

theorem shared_run {cookie : Option String} {now : Int} {labels : List BrowserLabel}
    (hrun : Runs.run Browser.step (.initial cookie now) labels = some b) : Shared b :=
  Runs.Preserved.run (fun _ _ _ => Shared.step) (shared_initial cookie now) hrun

/-- A call that waits for what has settled goes on. -/
theorem goOn_isSome {id : Nat} {fetch : Fetch} {promise : Option Nat} (hfetch : b.fetches id = some fetch)
    (hpromise : fetch.phase.promise = some promise) (hsettled : (b.session.promised promise).isSome) :
    (b.goOn id).isSome := by
  obtain ⟨attempts, rejected, phase⟩ := fetch
  obtain ⟨outcome, houtcome⟩ := Option.isSome_iff_exists.mp hsettled
  rw [Browser.goOn, hfetch, Option.bind_some]
  cases phase with
  | gettingSession waited =>
      cases hpromise
      simp only [houtcome, Option.map_some, Option.isSome_some]
  | refreshing waited =>
      cases hpromise
      simp only [houtcome, Option.map_some, Option.isSome_some]
  | fetching => cases hpromise
  | retrying => cases hpromise
  | ended => cases hpromise

/-- In every order of steps: at most one refresh is under way, and every call that waits can go on or waits
for that one. -/
theorem refreshes_shared (cookie : Option String) (now : Int) (labels : List BrowserLabel) (b : Browser)
    (hrun : Runs.run Browser.step (.initial cookie now) labels = some b) :
    (∀ id id' request request', b.session.requests id = some request → b.session.requests id' = some request' →
      request.endpoint = .refresh → request'.endpoint = .refresh → ¬request.phase.Settled → ¬request'.phase.Settled →
        id = id') ∧
      ∀ id fetch promise, b.fetches id = some fetch → fetch.phase.promise = some promise →
        (b.step (.goOn id)).isSome ∨
          ∃ refresh request, promise = some refresh ∧ b.session.requests refresh = some request ∧
            request.endpoint = .refresh ∧ ¬request.phase.Settled := by
  have hshared := shared_run hrun
  constructor
  · intro id id' request request' hrequest hrequest' hrefresh hrefresh' hunsettled hunsettled'
    have hone := hshared.single.inFlight id request hrequest hrefresh hunsettled
    have hother := hshared.single.inFlight id' request' hrequest' hrefresh' hunsettled'
    exact Option.some.inj (hone.symm.trans hother)
  · intro id fetch promise hfetch hpromise
    rcases (hshared.promised id fetch promise hfetch hpromise).cases hshared.single with hsettled | ⟨refresh, rfl, hinFlight⟩
    · exact .inl (goOn_isSome hfetch hpromise hsettled)
    · obtain ⟨request, hrequest⟩ := hshared.single.unsettled refresh hinFlight
      exact .inr ⟨refresh, request, rfl, hrequest⟩

/-- Two calls of a page that has no session yet: the second waits for the refresh that the first has started. -/
theorem refreshes_shared_of_firstCalls : ∃ b, Runs.run Browser.step (.initial (some "csrf") 0) [.start 0 0, .start 1 1] = some b ∧
    ∃ refresh request, b.session.requests refresh = some request ∧ request.endpoint = .refresh ∧ ¬request.phase.Settled := by
  refine ⟨_, rfl, ?_⟩
  obtain ⟨-, hwaiting⟩ := refreshes_shared (some "csrf") 0 [.start 0 0, .start 1 1] _ rfl
  rcases hwaiting 1 ⟨[], none, .gettingSession (some 0)⟩ (some 0) rfl rfl with hgoes | ⟨refresh, request, -, hrequest⟩
  · cases hgoes
  · exact ⟨refresh, request, hrequest⟩

end Transcendence.Session
