import Transcendence.Session.HeldTokens

/-!
# The newest access token

What the network brings to the page is a task of its own, which waits until nothing is left to be done with
what came before. So a session that is handed on, from a request to a promise and from there to whoever waits,
is the newest there is all the way. Every request carries the newest access token, a call sends a second one
only after a 401 to the first and with another token (`requests_current`), and two refreshes for one refused
token have a moment without a session between them (`refused_refreshed_once`).
-/

namespace Transcendence.Session

variable {s t : State} {label : Label}

/-! ### Tasks -/

/-- The network brings something. -/
def BrowserLabel.isTask : BrowserLabel → Bool
  | .store (.respond _ _) => true
  | .store (.body _ _) => true
  | .store (.reject _) => true
  | .respond _ _ _ => true
  | .fail _ => true
  | _ => false

/-- Nothing is left to be handed on. -/
structure Drained (b : Browser) : Prop where
  requests : ∀ id request, b.session.requests id = some request → request.pending = false
  resolves : ∀ id call, b.session.resolves id = some call → call.continued = false → b.session.awaited call = none
  fetches : ∀ id fetch promise, b.fetches id = some fetch → fetch.phase.promise = some promise →
    b.session.promised promise = none

/-- A task waits for its turn, and an access token that comes is a new one. -/
structure Orderly (b : Browser) (label : BrowserLabel) : Prop where
  drained : label.isTask = true → Drained b
  fresh : ∀ id session, label = .store (.body id (some session)) → session.accessToken ∉ b.received

/-- Every request has had the newest access token, and a second one had another than the one that was refused. -/
structure UpToDate (fetch : Fetch) : Prop where
  newest : ∀ attempt ∈ fetch.attempts, attempt.newest = some attempt.accessToken
  attempts : fetch.attempts.length ≤ 1 ∨ ∃ first second, fetch.attempts = [first, second] ∧
    fetch.rejected = some first.accessToken ∧ second.accessToken ≠ first.accessToken

/-- The promise does not bring what was refused. -/
def Renews (b : Browser) (promise : Option Nat) (rejected : String) : Prop :=
  rejected ∈ b.received ∧ (b.received.head? ≠ some rejected ∨
    ∀ id request, promise = some id → b.session.requests id = some request → request.phase.session = none)

/-- What a call has sent so far. -/
def Sent (b : Browser) (fetch : Fetch) : Prop :=
  match fetch.phase with
  | .gettingSession _ => fetch.attempts = []
  | .fetching accessToken =>
      accessToken ∈ b.received ∧ ∃ attempt, fetch.attempts = [attempt] ∧ attempt.accessToken = accessToken
  | .refreshing promise => ∃ attempt, fetch.attempts = [attempt] ∧ fetch.rejected = some attempt.accessToken ∧
      Renews b promise attempt.accessToken
  | _ => True

structure Newest (b : Browser) : Prop where
  shared : Shared b
  held : ∀ accessToken, Held b.session accessToken → b.received.head? = some accessToken
  promised : ∀ id fetch promise session, b.fetches id = some fetch → fetch.phase.promise = some promise →
    b.session.promised promise = some (.returned (some session)) → b.received.head? = some session.accessToken
  upToDate : ∀ id fetch, b.fetches id = some fetch → UpToDate fetch
  sent : ∀ id fetch, b.fetches id = some fetch → Sent b fetch

variable {b c : Browser}

theorem Drained.not_arriving (h : Drained b) {accessToken : String} : ¬Arriving b.session accessToken := by
  intro harriving
  cases harriving with
  | request hrequest hpending _ _ => cases (h.requests _ _ hrequest).symm.trans hpending
  | resolve hcall hcontinued hawaited _ => cases (h.resolves _ _ hcall hcontinued).symm.trans hawaited

/-- What has not settled and has nothing to hand on has brought no session. -/
theorem session_eq_none {request : Request} (hpending : request.pending = false) (hunsettled : ¬request.phase.Settled) :
    request.phase.session = none := by
  obtain ⟨endpoint, startedAt, phase⟩ := request
  cases phase with
  | finishing outcome => cases hpending
  | settled outcome => exact absurd ⟨outcome, rfl⟩ hunsettled
  | _ => rfl

theorem Renews.store {promise : Option Nat} {rejected : String} (h : Renews b promise rejected) {session : State}
    (hcarries : Carries b.session label session)
    (horder : ∀ token, label.accessToken = some token → Drained b ∧ token ∉ b.received) :
    Renews { b with session := session, received := label.accessToken.toList ++ b.received } promise rejected := by
  obtain ⟨hmem, hor⟩ := h
  refine ⟨List.mem_append_right _ hmem, ?_⟩
  cases htoken : label.accessToken with
  | some token =>
      left
      intro heq
      cases heq
      exact (horder _ htoken).2 hmem
  | none =>
      refine hor.imp_right fun hnone id request hpromise hrequest => ?_
      cases hsession : request.phase.session with
      | none => rfl
      | some found =>
          rcases hcarries.requests id request found hrequest hsession with ⟨before, hbefore, hold, -⟩ | hnew
          · cases (hnone id before hpromise hbefore).symm.trans hold
          · cases htoken.symm.trans hnew

theorem Sent.store {fetch : Fetch} (h : Sent b fetch) {session : State} (hcarries : Carries b.session label session)
    (horder : ∀ token, label.accessToken = some token → Drained b ∧ token ∉ b.received) :
    Sent { b with session := session, received := label.accessToken.toList ++ b.received } fetch := by
  obtain ⟨attempts, rejected, phase⟩ := fetch
  cases phase with
  | fetching accessToken => exact ⟨List.mem_append_right _ h.1, h.2⟩
  | refreshing promise =>
      obtain ⟨attempt, hattempts, hrejected, hrenews⟩ := h
      exact ⟨attempt, hattempts, hrejected, hrenews.store hcarries horder⟩
  | gettingSession promise => exact h
  | retrying => trivial
  | ended result => trivial

theorem Newest.store (h : Newest b) {session : State} (hflight : Flight b.session session)
    (hcarries : Carries b.session label session)
    (horder : ∀ token, label.accessToken = some token → Drained b ∧ token ∉ b.received) :
    Newest { b with session := session, received := label.accessToken.toList ++ b.received } := by
  have hnew : ∀ token, label.accessToken = some token →
      (label.accessToken.toList ++ b.received).head? = some token := by
    intro token htoken
    rw [htoken]
    rfl
  have hold : ∀ token, label.accessToken = none → b.received.head? = some token →
      (label.accessToken.toList ++ b.received).head? = some token := by
    intro token hnone hhead
    rw [hnone]
    exact hhead
  have harriving : ∀ token, Arriving b.session token → (label.accessToken.toList ++ b.received).head? = some token := by
    intro token harriving
    cases htoken : label.accessToken with
    | some new => exact absurd harriving (horder new htoken).1.not_arriving
    | none => exact h.held token (.arriving harriving)
  refine ⟨h.shared.store hflight _, fun token hheld => ?_, fun id fetch promise found hfetch hpromise hpromised => ?_,
    h.upToDate, fun id fetch hfetch => (h.sent id fetch hfetch).store hcarries horder⟩
  · rcases hcarries.held hheld with hpassed | harrives
    · cases hpassed with
      | held hnone hbefore => exact hold token hnone (h.held token hbefore)
      | received htoken => exact hnew token htoken
    · exact harriving token harrives
  · rcases hcarries.awaited hpromised with hbefore | harrives | htoken
    · cases htoken : label.accessToken with
      | some new => cases ((horder new htoken).1.fetches id fetch promise hfetch hpromise).symm.trans hbefore
      | none => exact h.promised id fetch promise found hfetch hpromise hbefore
    · exact harriving _ harrives
    · exact hnew _ htoken

/-- A refresh that a call starts. -/
theorem Newest.refreshSession (h : Newest b) {request : Nat} {result : State × Option Nat}
    (hresult : b.session.refreshSession request = some result) : Newest { b with session := result.1 } := by
  have hcarries : Carries b.session (.getSession request) result.1 := carries_refreshSession rfl hresult
  exact h.store (flight_refreshSession hresult) hcarries nofun

theorem Newest.setFetch (h : Newest b) {fetch : Fetch}
    (hpromise : ∀ promise, fetch.phase.promise = some promise → Promise b.session promise ∧
      ∀ session, b.session.promised promise = some (.returned (some session)) →
        b.received.head? = some session.accessToken)
    (hupToDate : UpToDate fetch) (hsent : Sent b fetch) (id : Nat) : Newest (b.setFetch id fetch) := by
  refine ⟨h.shared.setFetch (fun promise hfetch => (hpromise promise hfetch).1) id, h.held,
    fun other found promise session hfound hwaits hpromised => ?_, fun other found hfound => ?_, fun other found hfound => ?_⟩
  · rcases Calls.update_eq_some hfound with ⟨-, rfl⟩ | ⟨-, hold⟩
    · exact (hpromise promise hwaits).2 session hpromised
    · exact h.promised other found promise session hold hwaits hpromised
  · rcases Calls.update_eq_some hfound with ⟨-, rfl⟩ | ⟨-, hold⟩
    · exact hupToDate
    · exact h.upToDate other found hold
  · rcases Calls.update_eq_some hfound with ⟨-, rfl⟩ | ⟨-, hold⟩
    · exact hsent
    · exact h.sent other found hold

/-- A call that has ended or does not wait any more. -/
theorem Newest.setFetch_of_none (h : Newest b) {fetch : Fetch} (hnone : fetch.phase.promise = none)
    (hupToDate : UpToDate fetch) (hsent : Sent b fetch) (id : Nat) : Newest (b.setFetch id fetch) := by
  refine h.setFetch (fun promise hpromise => ?_) hupToDate hsent id
  cases hnone.symm.trans hpromise

theorem UpToDate.of_phase {fetch : Fetch} (h : UpToDate fetch) (phase : FetchPhase) : UpToDate { fetch with phase := phase } :=
  ⟨h.newest, h.attempts⟩

/-- A call that goes on without another request. -/
theorem Newest.ended (h : Newest b) {id : Nat} {fetch : Fetch} (hfetch : b.fetches id = some fetch) (result : FetchResult) :
    Newest (b.setFetch id { fetch with phase := .ended result }) := by
  have hsent : Sent b { fetch with phase := .ended result } := trivial
  exact h.setFetch_of_none rfl ((h.upToDate id fetch hfetch).of_phase _) hsent id

/-- The first request of a call. -/
theorem Newest.send (h : Newest b) {fetch : Fetch} (hattempts : fetch.attempts = []) {accessToken : String}
    (hnewest : b.received.head? = some accessToken) (id : Nat) :
    Newest (b.send id fetch accessToken (.fetching accessToken)) := by
  have hfetch : fetch.attempts ++ [⟨accessToken, b.received.head?⟩] = [⟨accessToken, some accessToken⟩] := by
    rw [hattempts, hnewest]
    rfl
  refine Newest.setFetch_of_none h rfl ?_ ?_ id
  · constructor
    · show ∀ attempt ∈ fetch.attempts ++ _, _
      rw [hfetch]
      intro attempt hattempt
      rw [List.mem_singleton.mp hattempt]
    · exact .inl (Nat.le_of_eq (congrArg List.length hfetch))
  · exact ⟨List.mem_of_mem_head? hnewest, _, hfetch, rfl⟩

/-- The second request of a call. -/
theorem Newest.send_again (h : Newest b) {fetch : Fetch} {attempt : Attempt} (hattempts : fetch.attempts = [attempt])
    (hupToDate : attempt.newest = some attempt.accessToken) (hrejected : fetch.rejected = some attempt.accessToken)
    {accessToken : String} (hnewest : b.received.head? = some accessToken) (hne : accessToken ≠ attempt.accessToken) (id : Nat) :
    Newest (b.send id fetch accessToken .retrying) := by
  have hfetch : fetch.attempts ++ [⟨accessToken, b.received.head?⟩] = [attempt, ⟨accessToken, some accessToken⟩] := by
    rw [hattempts, hnewest]
    rfl
  refine Newest.setFetch_of_none h rfl ?_ ?_ id
  · constructor
    · show ∀ attempt ∈ fetch.attempts ++ _, _
      rw [hfetch]
      intro sent hsent
      rcases List.mem_cons.mp hsent with rfl | hsent
      · exact hupToDate
      · rw [List.mem_singleton.mp hsent]
    · exact .inr ⟨attempt, _, hfetch, hrejected, hne⟩
  · trivial

/-! ### Steps of the calls -/

theorem newest_start (h : Newest b) {id request : Nat} (hstep : b.start id request = some c) : Newest c := by
  rw [Browser.start] at hstep
  split_ifs at hstep
  split at hstep
  · next session hsession =>
      cases hstep
      exact h.send rfl (h.held _ (.current hsession rfl)) id
  · obtain ⟨result, hresult, rfl⟩ := Option.map_eq_some_iff.mp hstep
    have hupToDate : UpToDate ⟨[], none, .gettingSession result.2⟩ :=
      ⟨fun _ hattempt => absurd hattempt List.not_mem_nil, .inl (Nat.zero_le 1)⟩
    refine (h.refreshSession hresult).setFetch (fun promise hpromise => ?_) hupToDate rfl id
    cases hpromise
    exact ⟨promise_refreshSession h.shared.single hresult, fun session hpromised =>
      absurd hpromised (not_awaited_refreshSession h.shared.single hresult rfl session)⟩

/-- What comes after a refusal is not what was refused. -/
theorem Renews.ne {promise : Option Nat} {rejected : String} (h : Renews b promise rejected) {session : AuthSession}
    (hpromised : b.session.promised promise = some (.returned (some session)))
    (hnewest : b.received.head? = some session.accessToken) : session.accessToken ≠ rejected := by
  intro heq
  rcases h.2 with hne | hnone
  · exact hne (heq ▸ hnewest)
  · obtain ⟨id, request, hpromise, hrequest, hphase⟩ := awaited_eq_session.mp hpromised
    have hsession := hnone id request hpromise hrequest
    rw [hphase] at hsession
    cases hsession

theorem newest_goOn (h : Newest b) {id : Nat} (hstep : b.goOn id = some c) : Newest c := by
  obtain ⟨fetch, hfetch, hstep⟩ := Option.bind_eq_some_iff.mp hstep
  have hsent := h.sent id fetch hfetch
  rw [Sent] at hsent
  split at hstep
  · next promise hphase =>
      obtain ⟨outcome, houtcome, rfl⟩ := Option.map_eq_some_iff.mp hstep
      rw [hphase] at hsent
      cases outcome with
      | threw => exact h.ended hfetch _
      | returned session =>
          cases session with
          | none => exact h.ended hfetch _
          | some session =>
              have hnewest := h.promised id fetch promise session hfetch (by rw [hphase]; rfl) houtcome
              exact h.send hsent hnewest id
  · next promise hphase =>
      obtain ⟨outcome, houtcome, rfl⟩ := Option.map_eq_some_iff.mp hstep
      rw [hphase] at hsent
      obtain ⟨attempt, hattempts, hrejected, hrenews⟩ := hsent
      cases outcome with
      | threw => exact h.ended hfetch _
      | returned session =>
          cases session with
          | none => exact h.ended hfetch _
          | some session =>
              have hnewest := h.promised id fetch promise session hfetch (by rw [hphase]; rfl) houtcome
              have hattempt := (h.upToDate id fetch hfetch).newest attempt (hattempts ▸ List.mem_singleton_self _)
              exact h.send_again hattempts hattempt hrejected hnewest (hrenews.ne houtcome hnewest) id
  · cases hstep

/-- A refresh that is waited for has brought nothing yet, if nothing is left to be handed on. -/
theorem not_brought_refreshSession (hs : SingleFlight s)
    (hdrained : ∀ id request, s.requests id = some request → request.pending = false) {id : Nat}
    {result : State × Option Nat} (h : s.refreshSession id = some result) :
    ∀ refresh request, result.2 = some refresh → result.1.requests refresh = some request → request.phase.session = none := by
  intro refresh request hrefresh hrequest
  rw [State.refreshSession.eq_def] at h
  cases hinFlight : s.refreshInFlight with
  | some waited =>
      rw [hinFlight] at h
      cases h
      cases hrefresh
      obtain ⟨found, hfound, -, hunsettled⟩ := hs.unsettled _ hinFlight
      cases hrequest.symm.trans hfound
      exact session_eq_none (hdrained _ _ hfound) hunsettled
  | none =>
      rw [hinFlight] at h
      simp only at h
      split_ifs at h
      · cases h
        cases hrefresh
      · cases h
        cases hrefresh
        cases (Function.update_self ..).symm.trans hrequest
        rfl

theorem newest_unauthorized (h : Newest b) (hdrained : Drained b) {id request : Nat} {fetch : Fetch} {accessToken : String}
    (hfetch : b.fetches id = some fetch) (hphase : fetch.phase = .fetching accessToken)
    (hstep : b.unauthorized id request fetch accessToken = some c) : Newest c := by
  have hsent := h.sent id fetch hfetch
  rw [Sent, hphase] at hsent
  obtain ⟨hmem, attempt, hattempts, rfl⟩ := hsent
  have hattempt := (h.upToDate id fetch hfetch).newest attempt (hattempts ▸ List.mem_singleton_self _)
  rw [Browser.unauthorized] at hstep
  split at hstep
  · next session hsession =>
      cases hstep
      obtain ⟨hcurrent, hne⟩ := Option.filter_eq_some_iff.mp hsession
      have hnewest := h.held _ (.current hcurrent rfl)
      refine Newest.send_again h ?_ hattempt ?_ hnewest (of_decide_eq_true hne) id
      · exact hattempts
      · rfl
  · obtain ⟨result, hresult, rfl⟩ := Option.map_eq_some_iff.mp hstep
    refine (h.refreshSession hresult).setFetch (fun promise hpromise => ?_) ?_ ?_ id
    · cases hpromise
      exact ⟨promise_refreshSession h.shared.single hresult, fun session hpromised =>
        absurd hpromised (not_awaited_refreshSession h.shared.single hresult rfl session)⟩
    · exact ⟨(h.upToDate id fetch hfetch).newest, .inl (Nat.le_of_eq (congrArg List.length hattempts))⟩
    · exact ⟨attempt, hattempts, rfl, hmem, .inr (not_brought_refreshSession h.shared.single hdrained.requests hresult)⟩

theorem newest_respond (h : Newest b) (hdrained : Drained b) {id status request : Nat}
    (hstep : b.respond id status request = some c) : Newest c := by
  obtain ⟨fetch, hfetch, hstep⟩ := Option.bind_eq_some_iff.mp hstep
  split at hstep
  · next hphase =>
      split_ifs at hstep
      · cases hstep
        exact h.ended hfetch _
      · exact newest_unauthorized h hdrained hfetch hphase hstep
  · cases hstep
    exact h.ended hfetch _
  · cases hstep

theorem newest_store (h : Newest b) {label : Label} (horder : Orderly b (.store label)) (hstep : b.store label = some c) :
    Newest c := by
  rw [Browser.store.eq_def] at hstep
  split at hstep
  · cases hstep
  · obtain ⟨session, hsession, rfl⟩ := Option.map_eq_some_iff.mp hstep
    refine h.store (flight_step hsession) (carries_step h.shared.single hsession) fun token htoken => ?_
    cases label with
    | body id payload =>
        cases payload with
        | none => cases htoken
        | some session =>
            cases htoken
            exact ⟨horder.drained rfl, horder.fresh id session rfl⟩
    | _ => cases htoken

theorem Newest.step {label : BrowserLabel} (h : Newest b) (horder : Orderly b label) (hstep : b.step label = some c) :
    Newest c := by
  cases label with
  | store label => exact newest_store h horder hstep
  | start id request => exact newest_start h hstep
  | goOn id => exact newest_goOn h hstep
  | respond id status request => exact newest_respond h (horder.drained rfl) hstep
  | fail id =>
      obtain ⟨fetch, hfetch, hstep⟩ := Option.bind_eq_some_iff.mp hstep
      split at hstep
      · cases hstep
        exact h.ended hfetch _
      · cases hstep
        exact h.ended hfetch _
      · cases hstep

theorem newest_initial (cookie : Option String) (now : Int) : Newest (.initial cookie now) where
  shared := shared_initial cookie now
  held _ hheld := by
    cases hheld with
    | current hsession _ => cases hsession
    | shown hsession _ => cases hsession
    | arriving harriving =>
        cases harriving with
        | request hrequest _ _ _ => cases hrequest
        | resolve hcall _ _ _ => cases hcall
  promised _ _ _ _ hfetch := by cases hfetch
  upToDate _ _ hfetch := by cases hfetch
  sent _ _ hfetch := by cases hfetch

theorem newest_run {cookie : Option String} {now : Int} {labels : List BrowserLabel}
    (horder : Runs.Along Browser.step Orderly (.initial cookie now) labels)
    (hrun : Runs.run Browser.step (.initial cookie now) labels = some b) : Newest b :=
  Runs.Along.run (fun _ _ _ => Newest.step) (newest_initial cookie now) horder hrun

/-! ### Two calls -/

/-- Evaluates whether nothing is left to be handed on, for the first ids. -/
def checkDrained (n : Nat) (b : Browser) : Bool :=
  (List.range n).all fun id =>
    (b.session.requests id).all (!·.pending) &&
      (b.fetches id).all fun fetch => fetch.phase.promise.all fun promise => b.session.promised promise = none

theorem drained_of_check {b : Browser} (n : Nat) (hrequests : ∀ id, b.session.requests (id + n) = none)
    (hfetches : ∀ id, b.fetches (id + n) = none) (hresolves : ∀ id, b.session.resolves id = none)
    (hcheck : checkDrained n b = true) : Drained b := by
  have hsmall : ∀ {α : Type} (entries : Nat → Option α), (∀ id, entries (id + n) = none) → ∀ id entry,
      entries id = some entry → id ∈ List.range n := by
    intro α entries hnone id entry hentry
    rw [List.mem_range]
    by_contra hge
    have hid : entries id = none := by
      rw [← Nat.sub_add_cancel (Nat.not_lt.mp hge)]
      exact hnone _
    cases hid.symm.trans hentry
  refine ⟨fun id request hrequest => ?_, fun id call hcall => ?_, fun id fetch promise hfetch hpromise => ?_⟩
  · have hid := List.all_eq_true.mp hcheck id (hsmall _ hrequests id request hrequest)
    rw [hrequest, Option.all_some, Bool.and_eq_true] at hid
    simpa using hid.1
  · cases (hresolves id).symm.trans hcall
  · have hid := List.all_eq_true.mp hcheck id (hsmall _ hfetches id fetch hfetch)
    rw [hfetch, Option.all_some, Bool.and_eq_true, hpromise, Option.all_some, decide_eq_true_eq] at hid
    exact hid.2

def marvin : AuthenticatedUser := ⟨"user", "marvin@example.org", true, "marvin", none, none, none, none⟩

def sessionWith (accessToken : String) : AuthSession := ⟨accessToken, "csrf", marvin, none, 0⟩

def page : Browser := .initial (some "csrf") 0

/-- Two calls with the same access token. -/
def twoCalls : List BrowserLabel :=
  [.start 0 0, .store (.respond 0 200), .store (.body 0 (some (sessionWith "first"))), .store (.finallyRefresh 0), .goOn 0,
    .start 1 1]

/-- The first is refused and starts a refresh, which renews the session. -/
def renewing : List BrowserLabel :=
  [.store (.respond 1 200), .store (.body 1 (some (sessionWith "second"))), .store (.finallyRefresh 1), .goOn 0]

/-- The first is refused and starts a refresh, which signs the page out. -/
def signingOut : List BrowserLabel :=
  [.store (.respond 1 401), .store (.finallyRefresh 1), .goOn 0]

theorem orderly_of_not_task {b : Browser} {label : BrowserLabel} (h : label.isTask = false) : Orderly b label := by
  refine ⟨fun htask => ?_, fun id session heq => ?_⟩
  · cases h.symm.trans htask
  · rw [heq] at h
    cases h

theorem along_twoCalls {labels : List BrowserLabel} (hlabels : ∀ b, Runs.run Browser.step page twoCalls = some b →
    Runs.Along Browser.step Orderly b labels) : Runs.Along Browser.step Orderly page (twoCalls ++ labels) := by
  refine ⟨orderly_of_not_task rfl, fun b hb => ?_⟩
  cases hb
  refine ⟨⟨fun _ => drained_of_check 2 (fun _ => rfl) (fun _ => rfl) (fun _ => rfl) rfl, nofun⟩, fun b hb => ?_⟩
  cases hb
  refine ⟨⟨fun _ => drained_of_check 2 (fun _ => rfl) (fun _ => rfl) (fun _ => rfl) rfl, ?_⟩, fun b hb => ?_⟩
  · intro id session heq
    exact List.not_mem_nil
  cases hb
  refine ⟨orderly_of_not_task rfl, fun b hb => ?_⟩
  cases hb
  refine ⟨orderly_of_not_task rfl, fun b hb => ?_⟩
  cases hb
  refine ⟨orderly_of_not_task rfl, fun b hb => ?_⟩
  cases hb
  exact hlabels _ rfl

theorem along_renewing : Runs.Along Browser.step Orderly page (twoCalls ++ .respond 0 401 1 :: renewing) := by
  refine along_twoCalls fun b hb => ?_
  cases hb
  refine ⟨⟨fun _ => drained_of_check 2 (fun _ => rfl) (fun _ => rfl) (fun _ => rfl) rfl, nofun⟩, fun b hb => ?_⟩
  cases hb
  refine ⟨⟨fun _ => drained_of_check 2 (fun _ => rfl) (fun _ => rfl) (fun _ => rfl) rfl, nofun⟩, fun b hb => ?_⟩
  cases hb
  refine ⟨⟨fun _ => drained_of_check 2 (fun _ => rfl) (fun _ => rfl) (fun _ => rfl) rfl, ?_⟩, fun b hb => ?_⟩
  · intro id session heq
    cases heq
    decide
  cases hb
  refine ⟨orderly_of_not_task rfl, fun b hb => ?_⟩
  cases hb
  exact ⟨orderly_of_not_task rfl, fun _ _ => trivial⟩

theorem along_signingOut : Runs.Along Browser.step Orderly page (twoCalls ++ .respond 0 401 1 :: signingOut) := by
  refine along_twoCalls fun b hb => ?_
  cases hb
  refine ⟨⟨fun _ => drained_of_check 2 (fun _ => rfl) (fun _ => rfl) (fun _ => rfl) rfl, nofun⟩, fun b hb => ?_⟩
  cases hb
  refine ⟨⟨fun _ => drained_of_check 2 (fun _ => rfl) (fun _ => rfl) (fun _ => rfl) rfl, nofun⟩, fun b hb => ?_⟩
  cases hb
  refine ⟨orderly_of_not_task rfl, fun b hb => ?_⟩
  cases hb
  exact ⟨orderly_of_not_task rfl, fun _ _ => trivial⟩

/-- Every request carries the newest access token there is, and a call sends a second one only after a 401 to the
first, with another token. -/
theorem requests_current (cookie : Option String) (now : Int) (labels : List BrowserLabel)
    (horder : Runs.Along Browser.step Orderly (.initial cookie now) labels) (b : Browser)
    (hrun : Runs.run Browser.step (.initial cookie now) labels = some b) (id : Nat) (fetch : Fetch)
    (hfetch : b.fetches id = some fetch) : UpToDate fetch :=
  (newest_run horder hrun).upToDate id fetch hfetch

theorem requests_current_of_renewing : ∃ b fetch, Runs.run Browser.step page (twoCalls ++ .respond 0 401 1 :: renewing) = some b ∧
    b.fetches 0 = some fetch ∧ fetch.attempts.length = 2 ∧ UpToDate fetch := by
  refine ⟨_, ⟨[⟨"first", some "first"⟩, ⟨"second", some "second"⟩], some "first", .retrying⟩, rfl, rfl, rfl, ?_⟩
  exact requests_current (some "csrf") 0 _ along_renewing _ rfl 0 _ rfl

/-! ### Refreshes for a refused token -/

/-- A 401 to the first request of a call, which starts a refresh. -/
structure RefreshesFor (b : Browser) (id request : Nat) (accessToken : String) (c : Browser) : Prop where
  step : b.step (.respond id 401 request) = some c
  fetching : ∃ fetch, b.fetches id = some fetch ∧ fetch.phase = .fetching accessToken
  new : b.session.requests request = none
  started : (c.session.requests request).isSome

/-- The refresh has not ended, neither well nor badly. -/
def Open (s : State) (request : Nat) : Prop :=
  s.refreshInFlight = some request ∧ ∀ found, s.requests request = some found → ∀ outcome, found.phase ≠ .finishing outcome

/-- A refresh of the token is under way, or there is a newer one. -/
def Replacing (b : Browser) (accessToken : String) (request : Nat) : Prop :=
  accessToken ∈ b.received ∧ (b.received.head? ≠ some accessToken ∨ Open b.session request)

variable {accessToken : String} {request : Nat}

theorem open_step (hs : SingleFlight s) (hopen : Open s request) (hflight : Flight s t)
    (hcarries : Carries s label t) (hcurrent : t.currentSession ≠ none) :
    Open t request ∨ ∃ accessToken, label.accessToken = some accessToken := by
  obtain ⟨hinFlight, hfinishing⟩ := hopen
  cases hflight with
  | rests hrequests hsame =>
      refine .inl ⟨hsame.trans hinFlight, ?_⟩
      rw [hrequests]
      exact hfinishing
  | refreshes _ hnone _ _ => cases hnone.symm.trans hinFlight
  | starts hnew _ hrequests hsame =>
      refine .inl ⟨hsame.trans hinFlight, fun found hfound => ?_⟩
      rw [hrequests] at hfound
      rcases Calls.update_eq_some hfound with ⟨-, rfl⟩ | ⟨-, hold⟩
      · intro outcome heq
        cases heq
      · exact hfinishing found hold
  | @proceeds id before phase hbefore hrequests hsame _ hpublished =>
      by_cases hid : request = id
      · subst hid
        have hafter : t.requests request = some { before with phase := phase } := by
          rw [hrequests, Function.update_self]
        by_cases hends : ∃ outcome, phase = .finishing outcome
        · right
          obtain ⟨outcome, rfl⟩ := hends
          obtain ⟨session, hsession⟩ := Option.ne_none_iff_exists'.mp hcurrent
          have houtcome : outcome = .returned (some session) := by
            have hpublishes := hpublished outcome rfl
            rw [hsession] at hpublishes
            cases outcome with
            | threw => cases hpublishes
            | returned found => exact congrArg Outcome.returned hpublishes.symm
          subst houtcome
          rcases hcarries.requests request _ session hafter rfl with ⟨found, hfound, hold, -⟩ | hnew
          · exfalso
            obtain ⟨known, hknown, -, hunsettled⟩ := hs.unsettled request hinFlight
            cases hfound.symm.trans hknown
            obtain ⟨endpoint, startedAt, phase⟩ := found
            cases phase with
            | finishing outcome => exact hfinishing _ hfound outcome rfl
            | settled outcome => exact hunsettled ⟨outcome, rfl⟩
            | _ => cases hold
          · exact ⟨session.accessToken, hnew⟩
        · refine .inl ⟨hsame.trans hinFlight, fun found hfound outcome heq => hends ⟨outcome, ?_⟩⟩
          cases hafter.symm.trans hfound
          exact heq
      · refine .inl ⟨hsame.trans hinFlight, fun found hfound => ?_⟩
        rw [hrequests, Function.update_of_ne hid] at hfound
        exact hfinishing found hfound
  | @settles id before outcome hbefore hends hrequests hsame =>
      have hid : request ≠ id := by
        intro heq
        exact hfinishing before (heq ▸ hbefore) outcome hends
      refine .inl ⟨?_, fun found hfound => ?_⟩
      · rw [hsame, hinFlight, Option.filter_some, if_pos (decide_eq_true hid)]
      · rw [hrequests, Function.update_of_ne hid] at hfound
        exact hfinishing found hfound

theorem Replacing.store (h : Replacing b accessToken request) (hb : Newest b) {session : State}
    (hflight : Flight b.session session) (hcarries : Carries b.session label session)
    (hfresh : ∀ token, label.accessToken = some token → token ∉ b.received) (hcurrent : session.currentSession ≠ none) :
    Replacing { b with session := session, received := label.accessToken.toList ++ b.received } accessToken request := by
  obtain ⟨hmem, hor⟩ := h
  refine ⟨List.mem_append_right _ hmem, ?_⟩
  cases htoken : label.accessToken with
  | some token =>
      left
      intro heq
      cases heq
      exact hfresh _ htoken hmem
  | none =>
      refine hor.imp_right fun hopen => ?_
      rcases open_step hb.shared.single hopen hflight hcarries hcurrent with hopen | ⟨token, hnew⟩
      · exact hopen
      · cases htoken.symm.trans hnew

theorem Replacing.refreshSession (h : Replacing b accessToken request) (hb : Newest b) {id : Nat} {result : State × Option Nat}
    (hresult : b.session.refreshSession id = some result) (hcurrent : result.1.currentSession ≠ none) :
    Replacing { b with session := result.1 } accessToken request := by
  have hcarries : Carries b.session (.getSession id) result.1 := carries_refreshSession rfl hresult
  exact h.store hb (flight_refreshSession hresult) hcarries nofun hcurrent

theorem replacing_respond (h : Replacing b accessToken request) (hb : Newest b) {id status refresh : Nat}
    (hcurrent : c.session.currentSession ≠ none) (hstep : b.respond id status refresh = some c) :
    Replacing c accessToken request := by
  obtain ⟨fetch, -, hstep⟩ := Option.bind_eq_some_iff.mp hstep
  split at hstep
  · split_ifs at hstep
    · cases hstep
      exact h
    · rw [Browser.unauthorized] at hstep
      split at hstep
      · cases hstep
        exact h
      · obtain ⟨result, hresult, rfl⟩ := Option.map_eq_some_iff.mp hstep
        exact h.refreshSession hb hresult hcurrent
  · cases hstep
    exact h
  · cases hstep

theorem replacing_goOn (h : Replacing b accessToken request) {id : Nat} (hstep : b.goOn id = some c) :
    Replacing c accessToken request := by
  obtain ⟨fetch, -, hstep⟩ := Option.bind_eq_some_iff.mp hstep
  split at hstep
  · obtain ⟨outcome, -, rfl⟩ := Option.map_eq_some_iff.mp hstep
    split
    · exact h
    · exact h
    · exact h
  · obtain ⟨outcome, -, rfl⟩ := Option.map_eq_some_iff.mp hstep
    split
    · exact h
    · exact h
    · exact h
  · cases hstep

theorem Replacing.step (h : Replacing b accessToken request) (hb : Newest b) {label : BrowserLabel} (horder : Orderly b label)
    (hcurrent : c.session.currentSession ≠ none) (hstep : b.step label = some c) : Replacing c accessToken request := by
  cases label with
  | store label =>
      rw [Browser.step, Browser.store.eq_def] at hstep
      split at hstep
      · cases hstep
      · obtain ⟨session, hsession, rfl⟩ := Option.map_eq_some_iff.mp hstep
        refine h.store hb (flight_step hsession) (carries_step hb.shared.single hsession) (fun token htoken => ?_) hcurrent
        cases label with
        | body id payload =>
            cases payload with
            | none => cases htoken
            | some session =>
                cases htoken
                exact horder.fresh id session rfl
        | _ => cases htoken
  | start id refresh =>
      rw [Browser.step, Browser.start] at hstep
      split_ifs at hstep
      split at hstep
      · cases hstep
        exact h
      · obtain ⟨result, hresult, rfl⟩ := Option.map_eq_some_iff.mp hstep
        exact h.refreshSession hb hresult hcurrent
  | goOn id => exact replacing_goOn h hstep
  | respond id status refresh => exact replacing_respond h hb hcurrent hstep
  | fail id =>
      obtain ⟨fetch, -, hstep⟩ := Option.bind_eq_some_iff.mp hstep
      split at hstep
      · cases hstep
        exact h
      · cases hstep
        exact h
      · cases hstep

/-- A refresh is started only where none is under way and the page has no newer access token. -/
theorem RefreshesFor.cases {id : Nat} (h : RefreshesFor b id request accessToken c) :
    b.session.refreshInFlight = none ∧ (∀ session, b.session.currentSession = some session → session.accessToken = accessToken) ∧
      Open c.session request ∧ c.received = b.received := by
  obtain ⟨hstep, ⟨fetch, hfetch, hphase⟩, hnew, hstarted⟩ := h
  obtain ⟨attempts, rejected, phase⟩ := fetch
  obtain rfl : phase = .fetching accessToken := hphase
  have hstep : b.unauthorized id request ⟨attempts, rejected, .fetching accessToken⟩ accessToken = some c := by
    rw [Browser.step, Browser.respond, hfetch] at hstep
    exact hstep
  rw [Browser.unauthorized] at hstep
  split at hstep
  · cases hstep
    rw [Option.isSome_iff_ne_none] at hstarted
    exact absurd hnew hstarted
  · next hcurrent =>
      obtain ⟨result, hresult, rfl⟩ := Option.map_eq_some_iff.mp hstep
      have hsame : ∀ session, b.session.currentSession = some session → session.accessToken = accessToken := by
        intro session hsession
        rw [hsession, Option.filter_some] at hcurrent
        by_contra hne
        rw [if_pos (decide_eq_true hne)] at hcurrent
        cases hcurrent
      have hchanged : result.1.requests ≠ b.session.requests := by
        intro heq
        have hsome : (result.1.requests request).isSome = true := hstarted
        rw [heq, hnew] at hsome
        cases hsome
      rw [State.refreshSession.eq_def] at hresult
      cases hinFlight : b.session.refreshInFlight with
      | some waited =>
          rw [hinFlight] at hresult
          cases hresult
          exact absurd rfl hchanged
      | none =>
          rw [hinFlight] at hresult
          simp only at hresult
          split_ifs at hresult
          · cases hresult
            exact absurd rfl hchanged
          · cases hresult
            refine ⟨rfl, hsame, ⟨rfl, fun found hfound outcome heq => ?_⟩, rfl⟩
            cases (Function.update_self ..).symm.trans hfound
            cases heq

/-- Between two refreshes that the same refused access token has started, the page was without a session. -/
theorem refused_refreshed_once (cookie : Option String) (now : Int) (before between : List BrowserLabel) (accessToken : String)
    (id request id' request' : Nat) (b c d e : Browser)
    (horder : Runs.Along Browser.step Orderly (.initial cookie now) (before ++ .respond id 401 request :: between))
    (hbefore : Runs.run Browser.step (.initial cookie now) before = some b) (hfirst : RefreshesFor b id request accessToken c)
    (hbetween : Runs.run Browser.step c between = some d) (hsecond : RefreshesFor d id' request' accessToken e) :
    ∃ earlier later m, between = earlier ++ later ∧ Runs.run Browser.step c earlier = some m ∧
      m.session.currentSession = none := by
  by_contra hnever
  have hcurrent : ∀ earlier later m, between = earlier ++ later → Runs.run Browser.step c earlier = some m →
      m.session.currentSession ≠ none := fun earlier later m heq hrun hnone => hnever ⟨earlier, later, m, heq, hrun, hnone⟩
  have horder' := horder.after hbefore
  have hb := newest_run horder.of_append hbefore
  have hc : Newest c := hb.step horder'.1 hfirst.step
  obtain ⟨-, -, hopen, hreceived⟩ := hfirst.cases
  have hmem : accessToken ∈ c.received := by
    obtain ⟨fetch, hfetch, hphase⟩ := hfirst.fetching
    have hsent := hb.sent id fetch hfetch
    rw [Sent, hphase] at hsent
    exact hreceived ▸ hsent.1
  have hstays : Runs.Along Browser.step (fun m label => ∀ m', Browser.step m label = some m' → m'.session.currentSession ≠ none)
      c between := by
    refine Runs.Along.iff_forall_label.mpr fun earlier label later m heq hrun m' hstep => ?_
    refine hcurrent (earlier ++ [label]) later m' (by rw [heq, List.append_assoc]; rfl) ?_
    exact Runs.run_append_eq_some.mpr ⟨m, hrun, Runs.run_cons_eq_some.mpr ⟨m', hstep, rfl⟩⟩
  have hd : Newest d ∧ Replacing d accessToken request := by
    refine Runs.Along.run (P := fun m => Newest m ∧ Replacing m accessToken request) ?_ ⟨hc, hmem, .inr hopen⟩
      ((horder'.2 c hfirst.step).and hstays) hbetween
    intro m label m' hm hlabel hstep
    exact ⟨hm.1.step hlabel.1 hstep, hm.2.step hm.1 hlabel.1 (hlabel.2 m' hstep) hstep⟩
  obtain ⟨hnone, hsame, -, -⟩ := hsecond.cases
  obtain ⟨session, hsession⟩ := Option.ne_none_iff_exists'.mp (hcurrent between [] d (List.append_nil _).symm hbetween)
  have hnewest := hd.1.held _ (.current hsession rfl)
  rw [hsame session hsession] at hnewest
  rcases hd.2.2 with hne | hopen'
  · exact hne hnewest
  · cases hnone.symm.trans hopen'.1

/-- The second call comes with the same refusal when the first refresh has signed the page out. -/
theorem refused_refreshed_once_of_signingOut : ∃ b c d e, RefreshesFor b 0 1 "first" c ∧
    Runs.run Browser.step c signingOut = some d ∧ RefreshesFor d 1 2 "first" e ∧
      ∃ earlier later m, signingOut = earlier ++ later ∧ Runs.run Browser.step c earlier = some m ∧
        m.session.currentSession = none := by
  have hfirst : ∃ b c, Runs.run Browser.step page twoCalls = some b ∧ RefreshesFor b 0 1 "first" c :=
    ⟨_, _, rfl, ⟨rfl, ⟨_, rfl, rfl⟩, rfl, rfl⟩⟩
  obtain ⟨b, c, hb, hfirst⟩ := hfirst
  cases hb
  obtain ⟨d, hd⟩ : ∃ d, Runs.run Browser.step c signingOut = some d := by
    cases hfirst.step
    exact ⟨_, rfl⟩
  obtain ⟨e, he⟩ : ∃ e, RefreshesFor d 1 2 "first" e := by
    cases hfirst.step
    cases hd
    exact ⟨_, rfl, ⟨_, rfl, rfl⟩, rfl, rfl⟩
  exact ⟨_, c, d, e, hfirst, hd, he,
    refused_refreshed_once (some "csrf") 0 twoCalls signingOut "first" 0 1 1 2 _ c d e along_signingOut rfl hfirst hd he⟩

end Transcendence.Session
