import Transcendence.Base.Calls
import Transcendence.Session.SessionStore

/-!
# Signed out stays signed out

A session that arrives is published, whatever has happened since it was asked for, and it is taken up
again when `resolve` goes on, unless the revision has changed, and when a form goes on after its login.
A logout does not cancel any of these. So the page is signed in again by a request from before in exactly
the runs where one of them comes after a logout or a `setAnonymous` that has overtaken its request
(`signed_out_stays_iff`).
-/

namespace Transcendence.Session

/-- The session that a request has brought. -/
def Phase.session : Phase → Option AuthSession
  | .finishing (.returned session) => session
  | .settled (.returned session) => session
  | _ => none

/-- What the step takes a session from has not been overtaken by a logout or a `setAnonymous`. -/
def NotOvertaken (s : State) : Label → Prop
  | .body id (some _) => ∀ request, s.requests id = some request → request.startedAt = s.signOuts
  | .continueLogin id => ∀ request, s.requests id = some request → request.startedAt = s.signOuts
  | .continueResolve id _ _ => ∀ call waited request session, s.resolves id = some call → call.revision = s.revision →
      call.request = some waited → s.requests waited = some request →
        request.phase = .settled (.returned (some session)) → request.startedAt = s.signOuts
  | _ => True

/-! ### Steps -/

/-- What a step does to the requests. -/
inductive Requests (s t : State) : Prop where
  | rests (hrequests : t.requests = s.requests)
  | starts {id : Nat} {endpoint : Endpoint} (hnew : s.requests id = none) (hsame : t.signOuts = s.signOuts)
      (hrequests : t.requests = Function.update s.requests id (some ⟨endpoint, s.signOuts, .fetching⟩))
  | proceeds {id : Nat} {request : Request} {phase : Phase} (hrequest : s.requests id = some request)
      (hsession : ∀ session, phase.session = some session → session.request = id)
      (hrequests : t.requests = Function.update s.requests id (some { request with phase := phase }))

/-- What a step does to the state that the page shows. -/
inductive Shows (s : State) (label : Label) (t : State) : Prop where
  | keeps (hfresh : NotOvertaken s label) (hsame : t.signOuts = s.signOuts)
      (hstate : ∀ session, t.state = some (.authenticated session) →
        ∃ before, s.state = some (.authenticated before) ∧ before.request = session.request)
  | signsOut (hfresh : NotOvertaken s label) (hsignOuts : t.signOuts = s.signOuts + 1)
      (hstate : t.state = some .anonymous)
  | takes {id : Nat} {request : Request} {session : AuthSession} (hrequest : s.requests id = some request)
      (hfresh : NotOvertaken s label ↔ request.startedAt = s.signOuts) (hsame : t.signOuts = s.signOuts)
      (hsession : session.request = id) (hstate : t.state = some (.authenticated session))

/-- What is known of the requests, and of the session that the page shows. -/
structure Sound (s : State) : Prop where
  startedAt : ∀ id request, s.requests id = some request → request.startedAt ≤ s.signOuts
  session : ∀ id request, s.requests id = some request → ∀ session, request.phase.session = some session →
    session.request = id
  shown : ∀ session, s.state = some (.authenticated session) → (s.requests session.request).isSome

variable {s t : State} {label : Label}

theorem exists_request {id : Nat} {request : Request} {phase : Phase}
    (h : (s.requests id).filter (·.phase = phase) = some request) : s.requests id = some request ∧ request.phase = phase := by
  obtain ⟨hrequest, hphase⟩ := Option.filter_eq_some_iff.mp h
  exact ⟨hrequest, of_decide_eq_true hphase⟩

/-- A step that shows the same as before, or nobody's session. -/
theorem Shows.of_eq (hfresh : NotOvertaken s label) (hsame : t.signOuts = s.signOuts) (hstate : t.state = s.state) :
    Shows s label t :=
  .keeps hfresh hsame fun session hsession => ⟨session, hstate ▸ hsession, rfl⟩

theorem Shows.of_ne (hfresh : NotOvertaken s label) (hsame : t.signOuts = s.signOuts)
    (hstate : ∀ session, t.state ≠ some (.authenticated session)) : Shows s label t :=
  .keeps hfresh hsame fun session hsession => absurd hsession (hstate session)

theorem refreshSession_cases {id : Nat} {result : State × Option Nat} (h : s.refreshSession id = some result) :
    Requests s result.1 ∧ result.1.signOuts = s.signOuts ∧
      (result.1.state = s.state ∨ result.1.state = some .anonymous) := by
  rw [State.refreshSession.eq_def] at h
  cases hinFlight : s.refreshInFlight with
  | some request =>
      rw [hinFlight] at h
      cases h
      exact ⟨.rests rfl, rfl, .inl rfl⟩
  | none =>
      rw [hinFlight] at h
      simp only at h
      split at h
      · cases h
        exact ⟨.rests rfl, rfl, .inr rfl⟩
      · split at h
        · cases h
        · next hnew =>
            cases h
            exact ⟨.starts (Option.not_isSome_iff_eq_none.mp hnew) rfl rfl, rfl, .inl rfl⟩

theorem Shows.of_refresh (hfresh : NotOvertaken s label) (hsame : t.signOuts = s.signOuts)
    (hstate : t.state = s.state ∨ t.state = some .anonymous) : Shows s label t := by
  rcases hstate with hstate | hstate
  · exact .of_eq hfresh hsame hstate
  · refine .of_ne hfresh hsame fun session hsession => ?_
    rw [hstate] at hsession
    cases hsession

theorem Requests.congr {s' t' : State} (h : Requests s t) (hs : s'.requests = s.requests) (hs' : s'.signOuts = s.signOuts)
    (ht : t'.requests = t.requests) (ht' : t'.signOuts = t.signOuts) : Requests s' t' := by
  cases h with
  | rests hrequests => exact .rests (by rw [ht, hrequests, hs])
  | starts hnew hsame hrequests =>
      exact .starts (by rw [hs, hnew]) (by rw [ht', hsame, hs']) (by rw [ht, hrequests, hs, hs'])
  | proceeds hrequest hsession hrequests =>
      exact .proceeds (by rw [hs, hrequest]) hsession (by rw [ht, hrequests, hs])

/-- The request goes on and has brought nothing. -/
theorem Requests.of_none {id : Nat} {request : Request} {phase : Phase} (hrequest : s.requests id = some request)
    (hnone : phase.session = none) (h : t.requests = Function.update s.requests id (some { request with phase := phase })) :
    Requests s t :=
  .proceeds hrequest (fun _ hsession => by cases hnone.symm.trans hsession) h

theorem step_respond {id status : Nat} (h : s.respond id status = some t) :
    Requests s t ∧ Shows s (.respond id status) t := by
  rw [State.respond, Option.map_eq_some_iff] at h
  obtain ⟨⟨endpoint, startedAt, phase⟩, hfind, rfl⟩ := h
  obtain ⟨hrequest, -⟩ := exists_request hfind
  cases endpoint with
  | refresh =>
      simp only
      split
      · exact ⟨.of_none hrequest rfl rfl, .of_refresh trivial rfl (.inr rfl)⟩
      · split <;> exact ⟨.of_none hrequest rfl rfl, .of_eq trivial rfl rfl⟩
  | login =>
      simp only
      split <;> exact ⟨.of_none hrequest rfl rfl, .of_eq trivial rfl rfl⟩
  | logout =>
      simp only
      split
      · exact ⟨.of_none hrequest rfl rfl, .signsOut trivial rfl rfl⟩
      · exact ⟨.of_none hrequest rfl rfl, .of_eq trivial rfl rfl⟩

theorem step_body {id : Nat} {payload : Option AuthSession} (h : s.body id payload = some t) :
    Requests s t ∧ Shows s (.body id payload) t := by
  rw [State.body, Option.map_eq_some_iff] at h
  obtain ⟨request, hfind, rfl⟩ := h
  obtain ⟨hrequest, -⟩ := exists_request hfind
  cases payload with
  | none => exact ⟨.of_none hrequest rfl rfl, .of_eq trivial rfl rfl⟩
  | some session =>
      refine ⟨.proceeds hrequest (fun session' hsession => ?_) rfl, .takes hrequest ?_ rfl rfl rfl⟩
      · split at hsession
        · cases hsession
          rfl
        · cases hsession
          rfl
      · constructor
        · exact fun hfresh => hfresh request hrequest
        · intro hstarted request' hrequest'
          rwa [Option.some.inj (hrequest'.symm.trans hrequest)]

theorem step_catchError {id : Nat} (h : s.catchError id = some t) : Requests s t ∧ Shows s (.catchError id) t := by
  rw [State.catchError, Option.map_eq_some_iff] at h
  obtain ⟨request, hfind, rfl⟩ := h
  obtain ⟨hrequest, -⟩ := exists_request hfind
  split
  · exact ⟨.of_none hrequest rfl rfl, .of_refresh trivial rfl (.inr rfl)⟩
  · exact ⟨.of_none hrequest rfl rfl, .of_eq trivial rfl rfl⟩

theorem step_finallyRefresh {id : Nat} (hs : Sound s) (h : s.finallyRefresh id = some t) :
    Requests s t ∧ Shows s (.finallyRefresh id) t := by
  rw [State.finallyRefresh, Option.bind_eq_some_iff] at h
  obtain ⟨⟨endpoint, startedAt, phase⟩, hrequest, h⟩ := h
  cases phase with
  | finishing outcome =>
      cases h
      refine ⟨.proceeds hrequest (fun session hsession => ?_) rfl, .of_eq trivial rfl rfl⟩
      apply hs.session id _ hrequest
      cases outcome with
      | returned _ => exact hsession
      | threw => cases hsession
  | _ => cases h

theorem step_continueLogin {id : Nat} (hs : Sound s) (h : s.continueLogin id = some t) :
    Requests s t ∧ Shows s (.continueLogin id) t := by
  rw [State.continueLogin, Option.bind_eq_some_iff] at h
  obtain ⟨⟨endpoint, startedAt, phase⟩, hrequest, h⟩ := h
  simp only at h
  split at h
  · next _ _ session =>
      cases h
      refine ⟨.of_none hrequest rfl rfl, .takes hrequest ?_ rfl (hs.session id _ hrequest session rfl) rfl⟩
      constructor
      · exact fun hfresh => hfresh _ hrequest
      · intro hstarted request' hrequest'
        rwa [Option.some.inj (hrequest'.symm.trans hrequest)]
  · cases h

theorem resolve_cases {id request : Nat} (h : s.resolve id request = some t) :
    Requests s t ∧ t.signOuts = s.signOuts ∧ (t.state = s.state ∨ t.state = some .anonymous) := by
  rw [State.resolve] at h
  split at h
  · cases h
    exact ⟨.rests rfl, rfl, .inl rfl⟩
  · split at h
    · cases h
    · rw [Option.map_eq_some_iff] at h
      obtain ⟨result, hresult, rfl⟩ := h
      obtain ⟨hrequests, hsame, hstate⟩ := refreshSession_cases hresult
      exact ⟨hrequests.congr rfl rfl rfl rfl, hsame, hstate⟩

theorem awaited_of_settled {call : Resolve} {id : Nat} {request : Request} {outcome : Outcome} (hcall : call.request = some id)
    (hrequest : s.requests id = some request) (hphase : request.phase = .settled outcome) : s.awaited call = some outcome := by
  rw [State.awaited.eq_def, hcall]
  simp only [hrequest, hphase, Option.bind_some]

theorem settled_of_awaited {call : Resolve} {session : AuthSession}
    (h : s.awaited call = some (.returned (some session))) :
    ∃ id request, call.request = some id ∧ s.requests id = some request ∧
      request.phase = .settled (.returned (some session)) := by
  rw [State.awaited.eq_def] at h
  cases hcall : call.request with
  | none =>
      rw [hcall] at h
      cases h
  | some id =>
      rw [hcall] at h
      simp only [Option.bind_eq_some_iff] at h
      obtain ⟨⟨endpoint, startedAt, phase⟩, hrequest, h⟩ := h
      cases phase with
      | settled outcome =>
          cases h
          exact ⟨id, _, rfl, hrequest, rfl⟩
      | _ => cases h

theorem step_continueResolve {id next request : Nat} (hs : Sound s) (h : s.continueResolve id next request = some t) :
    Requests s t ∧ Shows s (.continueResolve id next request) t := by
  rw [State.continueResolve, Option.bind_eq_some_iff] at h
  obtain ⟨call, hfind, h⟩ := h
  obtain ⟨hcall, -⟩ := Option.filter_eq_some_iff.mp hfind
  rw [Option.bind_eq_some_iff] at h
  obtain ⟨outcome, hawaited, h⟩ := h
  simp only at h
  by_cases hrevision : call.revision = s.revision
  · rw [if_neg (not_not.mpr hrevision)] at h
    cases h
    refine ⟨.rests rfl, ?_⟩
    by_cases hsession : ∃ session, outcome = .returned (some session)
    · obtain ⟨session, rfl⟩ := hsession
      obtain ⟨waited, found, hwaited, hfound, hphase⟩ := settled_of_awaited hawaited
      refine .takes hfound ?_ rfl (hs.session waited found hfound session (by rw [hphase]; rfl)) rfl
      constructor
      · exact fun hfresh => hfresh call waited found session hcall hrevision hwaited hfound hphase
      · intro hstarted call' waited' found' session' hcall' _ hwaited' hfound' _
        cases hcall.symm.trans hcall'
        cases hwaited.symm.trans hwaited'
        cases hfound.symm.trans hfound'
        exact hstarted
    · refine .of_ne ?_ rfl fun session hstate => ?_
      · intro call' waited found session hcall' _ hwaited hfound hphase
        cases hcall.symm.trans hcall'
        cases hawaited.symm.trans (awaited_of_settled hwaited hfound hphase)
        exact absurd ⟨session, rfl⟩ hsession
      · cases outcome with
        | threw => cases hstate
        | returned returned =>
            cases returned with
            | none => cases hstate
            | some session => exact hsession ⟨session, rfl⟩
  · rw [if_pos hrevision] at h
    have hfresh : NotOvertaken s (.continueResolve id next request) := by
      intro call' _ _ _ hcall' hsame
      cases hcall.symm.trans hcall'
      exact absurd hsame hrevision
    split at h
    · cases h
      exact ⟨.rests rfl, .of_eq hfresh rfl rfl⟩
    · obtain ⟨hrequests, hsame, hstate⟩ := resolve_cases h
      exact ⟨hrequests.congr rfl rfl rfl rfl, .of_refresh hfresh hsame hstate⟩

theorem step_cases (hs : Sound s) (h : s.step label = some t) : Requests s t ∧ Shows s label t := by
  cases label with
  | getSession id =>
      obtain ⟨result, hresult, rfl⟩ := Option.map_eq_some_iff.mp h
      obtain ⟨hrequests, hsame, hstate⟩ := refreshSession_cases hresult
      exact ⟨hrequests, .of_refresh trivial hsame hstate⟩
  | refreshAfterUnauthorized rejectedAccessToken id =>
      rw [State.step, State.refreshAfterUnauthorized] at h
      split at h
      · cases h
        exact ⟨.rests rfl, .of_eq trivial rfl rfl⟩
      · obtain ⟨result, hresult, rfl⟩ := Option.map_eq_some_iff.mp h
        obtain ⟨hrequests, hsame, hstate⟩ := refreshSession_cases hresult
        exact ⟨hrequests, .of_refresh trivial hsame hstate⟩
  | login id =>
      rw [State.step, State.login] at h
      split at h
      · cases h
      · next hnew =>
          cases h
          exact ⟨.starts (Option.not_isSome_iff_eq_none.mp hnew) rfl rfl, .of_eq trivial rfl rfl⟩
  | logout id csrfToken =>
      rw [State.step, State.logout] at h
      split at h
      · cases h
        exact ⟨.rests rfl, .signsOut trivial rfl rfl⟩
      · split at h
        · cases h
        · next hnew =>
            cases h
            exact ⟨.starts (Option.not_isSome_iff_eq_none.mp hnew) rfl rfl, .of_eq trivial rfl rfl⟩
  | respond id status => exact step_respond h
  | body id payload => exact step_body h
  | reject id =>
      obtain ⟨request, hfind, rfl⟩ := Option.map_eq_some_iff.mp h
      exact ⟨.of_none (Option.filter_eq_some_iff.mp hfind).1 rfl rfl, .of_eq trivial rfl rfl⟩
  | catchError id => exact step_catchError h
  | finallyRefresh id => exact step_finallyRefresh hs h
  | continueLogin id => exact step_continueLogin hs h
  | resolve id request =>
      obtain ⟨hrequests, hsame, hstate⟩ := resolve_cases h
      exact ⟨hrequests, .of_refresh trivial hsame hstate⟩
  | continueResolve id next request => exact step_continueResolve hs h
  | finallyResolve id =>
      obtain ⟨call, _, rfl⟩ := Option.map_eq_some_iff.mp h
      exact ⟨.rests rfl, .of_eq trivial rfl rfl⟩
  | setAnonymous =>
      cases h
      exact ⟨.rests rfl, .signsOut trivial rfl rfl⟩
  | invalidate =>
      cases h
      exact ⟨.rests rfl, .of_ne trivial rfl fun _ hstate => by cases hstate⟩
  | updateUser user =>
      cases h
      rw [State.updateUser.eq_def]
      split
      · next session hstate =>
          refine ⟨.rests rfl, .keeps trivial rfl fun after hafter => ⟨session, hstate, ?_⟩⟩
          cases hafter
          rfl
      · exact ⟨.rests rfl, .of_eq trivial rfl rfl⟩
  | setCookie cookie =>
      cases h
      exact ⟨.rests rfl, .of_eq trivial rfl rfl⟩
  | tick now =>
      cases h
      exact ⟨.rests rfl, .of_eq trivial rfl rfl⟩

/-! ### Requests along a run -/

/-- A request that is there stays, from when it was started. -/
theorem Requests.exists_after (h : Requests s t) {id : Nat} {request : Request} (hrequest : s.requests id = some request) :
    ∃ after, t.requests id = some after ∧ after.startedAt = request.startedAt := by
  cases h with
  | rests hrequests => exact ⟨request, by rw [hrequests, hrequest], rfl⟩
  | @starts new _ hnew _ hrequests =>
      refine ⟨request, ?_, rfl⟩
      rw [hrequests, Function.update_of_ne, hrequest]
      rintro rfl
      cases hnew.symm.trans hrequest
  | @proceeds id' before phase hbefore _ hrequests =>
      by_cases hid : id = id'
      · subst hid
        cases hbefore.symm.trans hrequest
        exact ⟨{ request with phase := phase }, by rw [hrequests, Function.update_self], rfl⟩
      · exact ⟨request, by rw [hrequests, Function.update_of_ne hid, hrequest], rfl⟩

/-- A request was there before, or is new. -/
theorem Requests.exists_before (h : Requests s t) {id : Nat} {request : Request} (hrequest : t.requests id = some request) :
    (∃ before, s.requests id = some before ∧ before.startedAt = request.startedAt) ∨
      (s.requests id = none ∧ request.startedAt = s.signOuts ∧ t.signOuts = s.signOuts) := by
  cases h with
  | rests hrequests => exact .inl ⟨request, by rw [← hrequests, hrequest], rfl⟩
  | @starts new _ hnew hsame hrequests =>
      rw [hrequests] at hrequest
      rcases Calls.update_eq_some hrequest with ⟨rfl, hstarted⟩ | ⟨-, hold⟩
      · cases hstarted
        exact .inr ⟨hnew, rfl, hsame⟩
      · exact .inl ⟨request, hold, rfl⟩
  | @proceeds id' before phase hbefore _ hrequests =>
      rw [hrequests] at hrequest
      rcases Calls.update_eq_some hrequest with ⟨rfl, hafter⟩ | ⟨-, hold⟩
      · cases hafter
        exact .inl ⟨before, hbefore, rfl⟩
      · exact .inl ⟨request, hold, rfl⟩

theorem Requests.session (h : Requests s t) (hs : Sound s) {id : Nat} {request : Request}
    (hrequest : t.requests id = some request) {session : AuthSession} (hsession : request.phase.session = some session) :
    session.request = id := by
  cases h with
  | rests hrequests => exact hs.session id request (by rw [← hrequests, hrequest]) session hsession
  | @starts new _ _ _ hrequests =>
      rw [hrequests] at hrequest
      rcases Calls.update_eq_some hrequest with ⟨rfl, hstarted⟩ | ⟨-, hold⟩
      · cases hstarted
        cases hsession
      · exact hs.session id request hold session hsession
  | @proceeds id' before phase _ hphase hrequests =>
      rw [hrequests] at hrequest
      rcases Calls.update_eq_some hrequest with ⟨rfl, hafter⟩ | ⟨-, hold⟩
      · cases hafter
        exact hphase session hsession
      · exact hs.session id request hold session hsession

theorem Shows.signOuts_le (h : Shows s label t) : s.signOuts ≤ t.signOuts := by
  cases h with
  | keeps _ hsame _ => exact Nat.le_of_eq hsame.symm
  | signsOut _ hsignOuts _ => exact hsignOuts ▸ Nat.le_succ _
  | takes _ _ hsame _ _ => exact Nat.le_of_eq hsame.symm

theorem sound_initial (cookie : Option String) (now : Int) : Sound (.initial cookie now) where
  startedAt _ _ hrequest := by cases hrequest
  session _ _ hrequest := by cases hrequest
  shown _ hstate := by cases hstate

theorem sound_step (hs : Sound s) (hstep : s.step label = some t) : Sound t := by
  obtain ⟨hrequests, hshows⟩ := step_cases hs hstep
  refine ⟨fun id request hrequest => ?_, fun id request hrequest session => hrequests.session hs hrequest,
    fun session hstate => ?_⟩
  · rcases hrequests.exists_before hrequest with ⟨before, hbefore, hsame⟩ | ⟨_, hstarted, hsignOuts⟩
    · rw [← hsame]
      exact Nat.le_trans (hs.startedAt id before hbefore) hshows.signOuts_le
    · exact Nat.le_of_eq (hstarted.trans hsignOuts.symm)
  · have hafter : ∀ id, (s.requests id).isSome → (t.requests id).isSome := by
      intro id hsome
      obtain ⟨request, hrequest⟩ := Option.isSome_iff_exists.mp hsome
      obtain ⟨after, hafter, _⟩ := hrequests.exists_after hrequest
      rw [hafter]
      rfl
    apply hafter
    cases hshows with
    | keeps _ _ hkept =>
        obtain ⟨before, hbefore, hsame⟩ := hkept session hstate
        rw [← hsame]
        exact hs.shown before hbefore
    | signsOut _ _ hout => cases hout.symm.trans hstate
    | takes hrequest _ _ htag htaken =>
        cases htaken.symm.trans hstate
        rw [htag, hrequest]
        rfl

theorem preserved_sound : Runs.Preserved State.step Sound := fun _ _ _ hs hstep => sound_step hs hstep

theorem requests_run {labels : List Label} (hs : Sound s) (hrun : Runs.run State.step s labels = some t) {id : Nat}
    {request : Request} (hrequest : s.requests id = some request) :
    ∃ after, t.requests id = some after ∧ after.startedAt = request.startedAt := by
  induction labels generalizing s request with
  | nil =>
      cases hrun
      exact ⟨request, hrequest, rfl⟩
  | cons label labels ih =>
      obtain ⟨m, hstep, hrest⟩ := Runs.run_cons_eq_some.mp hrun
      obtain ⟨next, hnext, hsame⟩ := (step_cases hs hstep).1.exists_after hrequest
      obtain ⟨after, hafter, hsame'⟩ := ih (sound_step hs hstep) hrest hnext
      exact ⟨after, hafter, hsame'.trans hsame⟩

theorem signOuts_le_run {labels : List Label} (hs : Sound s) (hrun : Runs.run State.step s labels = some t) :
    s.signOuts ≤ t.signOuts := by
  induction labels generalizing s with
  | nil =>
      cases hrun
      exact Nat.le_refl _
  | cons label labels ih =>
      obtain ⟨m, hstep, hrest⟩ := Runs.run_cons_eq_some.mp hrun
      exact Nat.le_trans (step_cases hs hstep).2.signOuts_le (ih (sound_step hs hstep) hrest)

/-! ### Signed out -/

/-- The session that the page shows was asked for after the last logout or `setAnonymous`. -/
def Current (s : State) : Prop :=
  ∀ session, s.state = some (.authenticated session) → ∀ request, s.requests session.request = some request →
    request.startedAt = s.signOuts

theorem current_step_iff (hs : Sound s) (hcurrent : Current s) (hstep : s.step label = some t) :
    Current t ↔ NotOvertaken s label := by
  obtain ⟨hrequests, hshows⟩ := step_cases hs hstep
  cases hshows with
  | keeps hfresh hsame hkept =>
      refine iff_of_true (fun session hstate request hrequest => ?_) hfresh
      obtain ⟨before, hbefore, htag⟩ := hkept session hstate
      obtain ⟨old, hold⟩ := Option.isSome_iff_exists.mp (hs.shown before hbefore)
      obtain ⟨after, hafter, hstarted⟩ := hrequests.exists_after hold
      rw [htag] at hafter
      cases hafter.symm.trans hrequest
      rw [hstarted, hsame]
      exact hcurrent before hbefore old hold
  | signsOut hfresh _ hout =>
      refine iff_of_true (fun session hstate => ?_) hfresh
      cases hout.symm.trans hstate
  | takes hrequest hfresh hsame htag htaken =>
      rw [hfresh]
      obtain ⟨after, hafter, hstarted⟩ := hrequests.exists_after hrequest
      constructor
      · intro h
        rw [← hstarted, ← hsame]
        exact h _ htaken after (by rw [htag, hafter])
      · intro hstart session hstate request' hrequest'
        cases htaken.symm.trans hstate
        rw [htag] at hrequest'
        cases hafter.symm.trans hrequest'
        rw [hstarted, hstart, hsame]

/-- After a logout or a `setAnonymous` has taken effect, a session that the page shows is of a request
that was not there yet. -/
def StaysSignedOut (start : State) (labels : List Label) : Prop :=
  ∀ earlier label later t u v, earlier ++ label :: later <+: labels → Runs.run State.step start earlier = some t →
    t.step label = some u → u.signOuts ≠ t.signOuts → Runs.run State.step u later = some v →
      ∀ session, v.state = some (.authenticated session) → u.requests session.request = none

theorem staysSignedOut_of_current {start : State} {labels : List Label} (hs : Sound start)
    (hcurrent : ∀ ms, ms <+: labels → ∀ v, Runs.run State.step start ms = some v → Current v) : StaysSignedOut start labels := by
  intro earlier label later t u v hprefix hearlier hstep hsigned hlater session hstate
  have ht := preserved_sound.run hs hearlier
  have hu := sound_step ht hstep
  have hv : Runs.run State.step start (earlier ++ label :: later) = some v :=
    Runs.run_append_eq_some.mpr ⟨t, hearlier, Runs.run_cons_eq_some.mpr ⟨u, hstep, hlater⟩⟩
  by_contra hthere
  obtain ⟨request, hrequest⟩ := Option.ne_none_iff_exists'.mp hthere
  obtain ⟨after, hafter, hsame⟩ := requests_run hu hlater hrequest
  have hstarted := hcurrent _ hprefix v hv session hstate after hafter
  have hle := signOuts_le_run hu hlater
  have hmono := (step_cases ht hstep).2.signOuts_le
  rcases (step_cases ht hstep).1.exists_before hrequest with ⟨before, hbefore, hsame'⟩ | ⟨_, _, hsignOuts⟩
  · have hbound := ht.startedAt _ before hbefore
    omega
  · exact hsigned hsignOuts

/-- Where fewer have taken effect when a request was started than now, one has since. -/
theorem exists_signOut {start : State} (hs : Sound start) {labels : List Label}
    (hrun : Runs.run State.step start labels = some s) {id : Nat} {request : Request} (hrequest : s.requests id = some request)
    (hnew : start.requests id = none) (hlt : request.startedAt < s.signOuts) :
    ∃ earlier label later t u, labels = earlier ++ label :: later ∧ Runs.run State.step start earlier = some t ∧
      t.step label = some u ∧ u.signOuts ≠ t.signOuts ∧ Runs.run State.step u later = some s ∧ u.requests id ≠ none := by
  induction labels using List.reverseRecOn generalizing s request with
  | nil =>
      cases hrun
      cases hnew.symm.trans hrequest
  | append_singleton labels label ih =>
      obtain ⟨m, hm, hlast⟩ := Runs.run_append_eq_some.mp hrun
      obtain ⟨n, hstep, hend⟩ := Runs.run_cons_eq_some.mp hlast
      cases hend
      have hsound := preserved_sound.run hs hm
      rcases (step_cases hsound hstep).1.exists_before hrequest with ⟨before, hbefore, hsame⟩ | ⟨_, hstarted, hsignOuts⟩
      · by_cases hless : before.startedAt < m.signOuts
        · obtain ⟨earlier, label', later, t, u, rfl, hearlier, hstep', hsigned, hlater, hthere⟩ := ih hm hbefore hless
          refine ⟨earlier, label', later ++ [label], t, u, by rw [List.append_assoc, List.cons_append], hearlier, hstep',
            hsigned, ?_, hthere⟩
          exact Runs.run_append_eq_some.mpr ⟨m, hlater, hlast⟩
        · refine ⟨labels, label, [], m, s, rfl, hm, hstep, ?_, rfl, by rw [hrequest]; nofun⟩
          omega
      · omega

theorem current_of_staysSignedOut {start : State} {labels : List Label} (hs : Sound start)
    (hnew : ∀ id, start.requests id = none) (hstays : StaysSignedOut start labels) :
    ∀ ms, ms <+: labels → ∀ v, Runs.run State.step start ms = some v → Current v := by
  intro ms hprefix v hv session hstate request hrequest
  refine Nat.le_antisymm ((preserved_sound.run hs hv).startedAt _ request hrequest) (Nat.not_lt.mp fun hlt => ?_)
  obtain ⟨earlier, label, later, t, u, rfl, hearlier, hstep, hsigned, hlater, hthere⟩ :=
    exists_signOut hs hv hrequest (hnew _) hlt
  exact hthere (hstays earlier label later t u v hprefix hearlier hstep hsigned hlater session hstate)

/-- The runs in which who is signed out stays signed out, until a login or a refresh that was started
later, are exactly those in which no step takes a session from a request that a logout or a
`setAnonymous` has overtaken. -/
theorem signed_out_stays_iff {cookie : Option String} {now : Int} {labels : List Label}
    (hrun : Runs.run State.step (.initial cookie now) labels = some s) :
    Runs.Along State.step NotOvertaken (.initial cookie now) labels ↔ StaysSignedOut (.initial cookie now) labels := by
  have hsound := sound_initial cookie now
  rw [Runs.Along.iff_forall_prefix preserved_sound (fun _ _ _ hs hcurrent hstep => current_step_iff hs hcurrent hstep) hsound
    (fun _ hstate => by cases hstate) hrun]
  exact ⟨staysSignedOut_of_current hsound, current_of_staysSignedOut hsound fun _ => rfl⟩

/-! A page whose session has been renewed in the background while its user logs out. -/

def ana : AuthenticatedUser := ⟨"user-1", "ana@example.com", true, "ana", none, none, none, none⟩

def sessionOf (accessToken : String) (request : Nat) : AuthSession := ⟨accessToken, "csrf", ana, some 90000, request⟩

def signedIn : List Label :=
  [.resolve 0 0, .respond 0 200, .body 0 (some (sessionOf "access-1" 0)), .finallyRefresh 0, .continueResolve 0 9 9, .finallyResolve 0]

/-- The refresh is sent before the logout, and its response arrives after it. -/
def overtakenRefresh : List Label :=
  signedIn ++ [.refreshAfterUnauthorized "access-1" 1, .logout 2 (some "csrf"), .respond 2 204] ++
    [.setAnonymous, .respond 1 200, .body 1 (some (sessionOf "access-2" 1))]

theorem not_staysSignedOut : ¬StaysSignedOut (.initial (some "csrf") 0) overtakenRefresh := by
  have hruns : (Runs.run State.step (.initial (some "csrf") 0) (overtakenRefresh.take 8)).any fun t =>
      (t.step (.respond 2 204)).any fun u => u.signOuts ≠ t.signOuts ∧ u.requests 1 = some ⟨.refresh, 0, .fetching⟩ ∧
        (Runs.run State.step u (overtakenRefresh.drop 9)).any fun v =>
          v.state = some (.authenticated (sessionOf "access-2" 1)) := by
    decide +kernel
  intro hstays
  obtain ⟨t, hearlier, ht⟩ := (Option.any_eq_true _ _).mp hruns
  obtain ⟨u, hstep, hu⟩ := (Option.any_eq_true _ _).mp ht
  obtain ⟨hsigned, hthere, hlater⟩ := of_decide_eq_true hu
  obtain ⟨v, hlater, hv⟩ := (Option.any_eq_true _ _).mp hlater
  have hgone := hstays _ (.respond 2 204) _ t u v List.prefix_rfl hearlier hstep hsigned hlater _ (of_decide_eq_true hv)
  cases hgone.symm.trans hthere

/-- Two sign outs have taken effect, and the page shows the session of the refresh again. -/
theorem signed_in_again_of_overtakenRefresh :
    ¬StaysSignedOut (.initial (some "csrf") 0) overtakenRefresh ∧
      ∃ s, Runs.run State.step (.initial (some "csrf") 0) overtakenRefresh = some s ∧ s.signOuts = 2 ∧
        s.state = some (.authenticated (sessionOf "access-2" 1)) := by
  refine ⟨not_staysSignedOut, ?_⟩
  have hrun : (Runs.run State.step (.initial (some "csrf") 0) overtakenRefresh).any fun s =>
      s.signOuts = 2 ∧ s.state = some (.authenticated (sessionOf "access-2" 1)) := by
    decide +kernel
  obtain ⟨s, hs, hend⟩ := (Option.any_eq_true _ _).mp hrun
  exact ⟨s, hs, of_decide_eq_true hend⟩

theorem signed_out_stays_iff_of_overtakenRefresh :
    ¬Runs.Along State.step NotOvertaken (.initial (some "csrf") 0) overtakenRefresh := by
  have hrun : (Runs.run State.step (.initial (some "csrf") 0) overtakenRefresh).isSome := by decide +kernel
  obtain ⟨s, hs⟩ := Option.isSome_iff_exists.mp hrun
  exact fun h => not_staysSignedOut ((signed_out_stays_iff hs).mp h)

end Transcendence.Session
