import Transcendence.Auth.CallbackLedger
import Transcendence.Auth.IdentityMatches

/-!
# What a callback may do

What a callback attaches or opens follows from the start whose transaction it has consumed. The browser
that delivers it is not asked for: a state may be handed on, and then the callback acts for the one who
made the start, in the browser of another.
-/

namespace Transcendence.Auth

namespace FortyTwoIdentities

/-- A statement of a call keeps its request. -/
theorem request_of_step {s t : State} {statement : Label} (hbegun : ∀ id request, statement ≠ .begin id request)
    (hstep : s.step statement = some t) {i : Nat} {request : Request} {phase : Phase} (hcall : t.calls i = some ⟨request, phase⟩) :
    ∃ before, s.calls i = some ⟨request, before⟩ := by
  cases steps_of_step hstep with
  | begins hlabel => exact absurd hlabel (hbegun _ _)
  | proceeds hbefore _ _ hcalls => exact Calls.request_of_update hbefore (hcalls ▸ hcall)
  | commits hbefore hcalls => exact Calls.request_of_update hbefore (hcalls ▸ hcall)
  | givesUp hbefore _ _ hcalls => exact Calls.request_of_update hbefore (hcalls ▸ hcall)
  | recovers hbefore _ hcalls => exact Calls.request_of_update hbefore (hcalls ▸ hcall)

/-- No call disappears. -/
theorem exists_of_step {s t : State} {statement : Label} (hstep : s.step statement = some t) {i : Nat} {request : Request}
    {phase : Phase} (hcall : s.calls i = some ⟨request, phase⟩) : ∃ after, t.calls i = some ⟨request, after⟩ :=
  (steps_of_step hstep).moves.exists_after hcall

end FortyTwoIdentities

namespace OAuthCallbacks

variable {config : OAuth42} {s t : State} {id i : Nat} {label : Label} {request : CallbackRequest} {phase : Phase}
  {db₀ : IdentityTables}

/-! ### The calls of the store -/

/-- What a step does to the identities. -/
theorem Steps.identities (h : Steps config s t label) :
    t.identities = s.identities ∨
      (∃ id request tx profile identityCall, s.consumption id = some (request, tx) ∧ identityRequest tx profile = some identityCall ∧
        s.identities.step (.begin id identityCall) = some t.identities) ∨
      ∃ statement, label = .identity statement ∧ (∀ id request, statement ≠ .begin id request) ∧
        s.identities.step statement = some t.identities := by
  cases h with
  | starts _ _ _ heq => exact .inl (by rw [heq])
  | cleans heq => exact .inl (by rw [heq])
  | begins _ _ _ heq => exact .inl (by rw [heq]; rfl)
  | consumes _ _ _ _ _ heq => exact .inl (by rw [heq]; rfl)
  | fetches hcall hrequest hbegin heq =>
      subst heq
      exact .inr (.inl ⟨_, _, _, _, _, consumption_of_call hcall, hrequest, hbegin⟩)
  | identity hlabel hbegun hstep heq =>
      subst heq
      exact .inr (.inr ⟨_, hlabel, hbegun, hstep⟩)
  | resolves _ _ _ _ heq => exact .inl (by rw [heq]; rfl)
  | opens _ _ heq => exact .inl (by rw [heq]; rfl)
  | ends _ heq => exact .inl (by rw [heq]; rfl)
  | outside _ heq => exact .inl (by rw [heq])

/-- A step leaves the identities or is a step of theirs. -/
theorem Steps.identities_step (h : Steps config s t label) :
    t.identities = s.identities ∨ ∃ statement, s.identities.step statement = some t.identities := by
  rcases h.identities with hsame | ⟨_, _, _, _, _, -, -, hstep⟩ | ⟨_, -, -, hstep⟩
  · exact .inl hsame
  · exact .inr ⟨_, hstep⟩
  · exact .inr ⟨_, hstep⟩

/-- A call of the store is the one that the transaction of its callback leads to. -/
def Requested (s : State) : Prop :=
  ∀ i identityCall phase, s.identities.calls i = some ⟨identityCall, phase⟩ →
    ∃ request tx profile, s.consumption i = some (request, tx) ∧ identityRequest tx profile = some identityCall

theorem Requested.step (h : Requested s) (hsteps : Steps config s t label) : Requested t := by
  intro i identityCall phase hcall
  have hold : ∀ before, s.identities.calls i = some ⟨identityCall, before⟩ →
      ∃ request tx profile, t.consumption i = some (request, tx) ∧ identityRequest tx profile = some identityCall := by
    intro before hbefore
    obtain ⟨request, tx, profile, hconsumed, hrequest⟩ := h i identityCall before hbefore
    exact ⟨request, tx, profile, hsteps.ledger.consumption_mono hconsumed, hrequest⟩
  rcases hsteps.identities with hsame | ⟨id, request, tx, profile, begun, hconsumed, hrequest, hstep⟩ | ⟨statement, -, hbegun, hstep⟩
  · rw [hsame] at hcall
    exact hold phase hcall
  · obtain ⟨-, hstep⟩ := Option.ite_none_left_eq_some.mp hstep
    obtain hidentities := Option.some.inj hstep
    rw [← hidentities] at hcall
    rcases Calls.update_eq_some hcall with ⟨rfl, hnew⟩ | ⟨-, hbefore⟩
    · cases hnew
      exact ⟨request, tx, profile, hsteps.ledger.consumption_mono hconsumed, hrequest⟩
    · exact hold phase hbefore
  · obtain ⟨before, hbefore⟩ := FortyTwoIdentities.request_of_step hbegun hstep hcall
    exact hold before hbefore

/-- The phase that a callback enters, and what has led there. -/
inductive Enters (s t : State) (id : Nat) (request : CallbackRequest) : Phase → Prop where
  | begun {now} : Enters s t id request (.begun now)
  | consumed {tx} : Enters s t id request (.consumed tx)
  | storing {tx profile identityCall phase} (hcall : t.identities.calls id = some ⟨identityCall, phase⟩)
      (hrequest : identityRequest tx profile = some identityCall) : Enters s t id request (.storing tx profile)
  | resolved {tx profile identityCall r} (hcall : s.calls id = some ⟨request, .storing tx profile⟩)
      (hresult : s.identities.calls id = some ⟨identityCall, .ended (.ok (.resolved r))⟩)
      (hpurpose : tx.purpose = .LOGIN) (hactive : r.user.status = .ACTIVE) : Enters s t id request (.resolved tx r)
  | ended {tx response} : Enters s t id request (.ended tx response)

theorem Steps.enters (h : Steps config s t label) :
    t.calls = s.calls ∨ ∃ id request phase, Enters s t id request phase ∧
      t.calls = Function.update s.calls id (some ⟨request, phase⟩) := by
  cases h with
  | starts _ _ _ heq => exact .inl (by rw [heq])
  | cleans heq => exact .inl (by rw [heq])
  | begins _ _ hrunning heq =>
      subst heq
      refine .inr ⟨_, _, _, ?_, rfl⟩
      obtain ⟨now, response, rfl | rfl⟩ := hrunning
      · exact .begun
      · exact .ended
  | consumes _ _ _ _ hphase heq =>
      subst heq
      refine .inr ⟨_, _, _, ?_, rfl⟩
      obtain rfl | ⟨response, rfl⟩ := hphase
      · exact .consumed
      · exact .ended
  | fetches _ hrequest hbegin heq =>
      subst heq
      obtain ⟨-, hbegin⟩ := Option.ite_none_left_eq_some.mp hbegin
      cases hbegin
      exact .inr ⟨_, _, _, .storing (Function.update_self ..) hrequest, rfl⟩
  | identity _ _ _ heq => exact .inl (by rw [heq])
  | resolves hcall hresult hpurpose hactive heq =>
      subst heq
      exact .inr ⟨_, _, _, .resolved hcall hresult hpurpose hactive, rfl⟩
  | opens _ _ heq =>
      subst heq
      exact .inr ⟨_, _, _, .ended, rfl⟩
  | ends _ heq =>
      subst heq
      exact .inr ⟨_, _, _, .ended, rfl⟩
  | outside _ heq => exact .inl (by rw [heq])

/-- A callback was in its phase before, or has just entered it. -/
theorem Steps.was_or_enters (h : Steps config s t label) (hcall : t.calls i = some ⟨request, phase⟩) :
    s.calls i = some ⟨request, phase⟩ ∨ Enters s t i request phase := by
  rcases h.enters with hsame | ⟨id, request', phase', henters, hcalls⟩
  · exact .inl (hsame ▸ hcall)
  · rw [hcalls] at hcall
    rcases Calls.update_eq_some hcall with ⟨rfl, hnew⟩ | ⟨-, hold⟩
    · cases hnew
      exact .inr henters
    · exact .inl hold

/-- A callback that waits for the store has begun its call. -/
def Stored (s : State) : Prop :=
  ∀ i request tx profile, s.calls i = some ⟨request, .storing tx profile⟩ →
    ∃ identityCall phase, s.identities.calls i = some ⟨identityCall, phase⟩ ∧ identityRequest tx profile = some identityCall

theorem Stored.step (h : Stored s) (hsteps : Steps config s t label) : Stored t := by
  intro i request tx profile hcall
  rcases hsteps.was_or_enters hcall with hold | hnew
  · obtain ⟨identityCall, phase, hidentity, hrequest⟩ := h i request tx profile hold
    rcases hsteps.identities_step with hsame | ⟨statement, hstep⟩
    · exact ⟨identityCall, phase, hsame ▸ hidentity, hrequest⟩
    · obtain ⟨after, hafter⟩ := FortyTwoIdentities.exists_of_step hstep hidentity
      exact ⟨identityCall, after, hafter, hrequest⟩
  · cases hnew with
    | storing hidentity hrequest => exact ⟨_, _, hidentity, hrequest⟩

theorem identityRequest_login {tx : OAuthTransaction} (hpurpose : tx.purpose = .LOGIN) (profile : FortyTwoProfile) :
    identityRequest tx profile = some (.resolve profile) := by
  rw [identityRequest, hpurpose]

/-- A callback that is about to create a session does so for the active user who has the subject. -/
def Resolved (s : State) : Prop :=
  ∀ i request tx r, s.calls i = some ⟨request, .resolved tx r⟩ → tx.purpose = .LOGIN ∧ r.user.status = .ACTIVE ∧
    ∃ profile phase, s.identities.calls i = some ⟨.resolve profile, phase⟩ ∧ s.identities.db.Bound profile.subject r.user.id

theorem Resolved.step (h : Resolved s) (hidentities : FortyTwoIdentities.IdentityInv db₀ s.identities) (hstored : Stored s)
    (hsteps : Steps config s t label) : Resolved t := by
  have hmono : ∀ {i profile phase} {userId : String}, s.identities.calls i = some ⟨.resolve profile, phase⟩ →
      s.identities.db.Bound profile.subject userId →
        ∃ profile phase, t.identities.calls i = some ⟨.resolve profile, phase⟩ ∧ t.identities.db.Bound profile.subject userId := by
    intro i profile phase userId hcall hbound
    rcases hsteps.identities_step with hsame | ⟨statement, hstep⟩
    · exact ⟨profile, phase, hsame ▸ hcall, hsame ▸ hbound⟩
    · obtain ⟨after, hafter⟩ := FortyTwoIdentities.exists_of_step hstep hcall
      exact ⟨profile, after, hafter, hidentities.bound_step (FortyTwoIdentities.steps_of_step hstep) hbound⟩
  intro i request tx r hcall
  rcases hsteps.was_or_enters hcall with hold | hnew
  · obtain ⟨hpurpose, hactive, profile, phase, hidentity, hbound⟩ := h i request tx r hold
    exact ⟨hpurpose, hactive, hmono hidentity hbound⟩
  · cases hnew with
    | @resolved _ profile _ _ hcall hresult hpurpose hactive =>
        obtain ⟨identityCall, phase, hidentity, hrequest⟩ := hstored i request tx profile hcall
        cases hresult.symm.trans hidentity
        cases (identityRequest_login hpurpose profile).symm.trans hrequest
        exact ⟨hpurpose, hactive, hmono hresult (hidentities.resolved i profile r hresult)⟩

/-! ### The invariant -/

structure CallbackInv (config : OAuth42) (db₀ : IdentityTables) (s : State) : Prop where
  ledger : LedgerInv config s
  identities : FortyTwoIdentities.IdentityInv db₀ s.identities
  matched : FortyTwoIdentities.LoginsMatched s.identities
  requested : Requested s
  stored : Stored s
  resolved : Resolved s

/-- The callback acts for the start: its state is the start's and no other's, and no other callback has
consumed it. -/
structure ActsFor (config : OAuth42) (s : State) (i : Nat) (request : CallbackRequest) (start : Start) : Prop where
  consumed : s.consumption i = some (request, transaction config start)
  started : start ∈ s.started
  state : start.state = request.state
  only : ∀ other ∈ s.started, other.state = request.state → other = start
  once : ∀ j request' tx, s.consumption j = some (request', tx) → request'.state = request.state → j = i

theorem CallbackInv.actsFor (h : CallbackInv config db₀ s) {tx : OAuthTransaction} (hconsumed : s.consumption i = some (request, tx)) :
    ∃ start, tx = transaction config start ∧ ActsFor config s i request start := by
  obtain ⟨start, hstart, hstate, rfl⟩ := h.ledger.consumed i request tx hconsumed
  refine ⟨start, rfl, hconsumed, hstart, hstate, fun other hother hsame => ?_, fun j request' tx hother hsame => ?_⟩
  · exact Table.key_injective h.ledger.states hother hstart (hsame.trans hstate.symm)
  · exact h.ledger.once j i request' request tx _ hother hconsumed hsame

theorem CallbackInv.opens (h : CallbackInv config db₀ s) (hsteps : Steps config s t label) (browser : Nat) (userId : String)
    (hopens : s.sessions.count (browser, userId) < t.sessions.count (browser, userId)) (hother : label ≠ .signIn browser userId) :
    ∃ i request start r profile phase sessionId, label = .createLogin i (some sessionId) ∧ request.browser = browser ∧
      ActsFor config s i request start ∧ start.purpose = .LOGIN ∧ s.calls i = some ⟨request, .resolved (transaction config start) r⟩ ∧
        r.user.id = userId ∧ r.user.status = .ACTIVE ∧ s.identities.calls i = some ⟨.resolve profile, phase⟩ ∧
          s.identities.db.Bound profile.subject userId := by
  have hmoves : t.sessions ≠ s.sessions := by
    intro hsame
    rw [hsame] at hopens
    exact lt_irrefl _ hopens
  cases hsteps with
  | @opens i sessionId request tx r _ _ hlabel hcall heq =>
      subst heq
      have hsession : (request.browser, r.user.id) = (browser, userId) := by
        by_contra hne
        exact hopens.ne (List.count_cons_of_ne hne).symm
      cases hsession
      obtain ⟨hpurpose, hactive, profile, phase, hidentity, hbound⟩ := h.resolved i request tx r hcall
      obtain ⟨start, rfl, hacts⟩ := h.actsFor (consumption_of_call hcall)
      exact ⟨i, request, start, r, profile, phase, sessionId, hlabel, rfl, hacts, hpurpose, hcall, rfl, hactive, hidentity, hbound⟩
  | outside hsessions heq =>
      subst heq
      rcases hsessions (browser, userId) with hold | hsignIn
      · exact absurd hopens hold.not_gt
      · exact absurd hsignIn hother
  | starts _ _ _ heq => exact absurd (by rw [heq]) hmoves
  | cleans heq => exact absurd (by rw [heq]) hmoves
  | begins _ _ _ heq => exact absurd (by rw [heq]; rfl) hmoves
  | consumes _ _ _ _ _ heq => exact absurd (by rw [heq]; rfl) hmoves
  | fetches _ _ _ heq => exact absurd (by rw [heq]; rfl) hmoves
  | identity _ _ _ heq => exact absurd (by rw [heq]) hmoves
  | resolves _ _ _ _ heq => exact absurd (by rw [heq]; rfl) hmoves
  | ends _ heq => exact absurd (by rw [heq]; rfl) hmoves

theorem Steps.started (hsteps : Steps config s t label) {start : Start} (hmem : start ∈ t.started) :
    start ∈ s.started ∨ (label.start = some start ∧ start.Allowed s) := by
  cases hsteps with
  | starts hlabel hallowed _ heq =>
      subst heq
      rcases List.mem_append.mp hmem with hold | hnew
      · exact .inl hold
      · rw [List.mem_singleton.mp hnew]
        exact .inr ⟨hlabel, hallowed⟩
  | cleans heq =>
      subst heq
      exact .inl hmem
  | begins _ _ _ heq =>
      subst heq
      exact .inl hmem
  | consumes _ _ _ _ _ heq =>
      subst heq
      exact .inl hmem
  | fetches _ _ _ heq =>
      subst heq
      exact .inl hmem
  | identity _ _ _ heq =>
      subst heq
      exact .inl hmem
  | resolves _ _ _ _ heq =>
      subst heq
      exact .inl hmem
  | opens _ _ heq =>
      subst heq
      exact .inl hmem
  | ends _ heq =>
      subst heq
      exact .inl hmem
  | outside _ heq =>
      subst heq
      exact .inl hmem

def plainConfig : OAuth42 := ⟨"https://tasks.example.org", "client", "secret", true, fun state => "sha256:" ++ state⟩

/-- The callback that browser 1 delivers has fetched a profile, and the call of the store makes its
statements. -/
def deliver (profile : FortyTwoProfile) (statements : List FortyTwoIdentities.Label) : List Label :=
  [.callback 0 ⟨1, "code", "state"⟩, .consume 0 0, .fetch 0 (some profile)] ++ statements.map .identity

end OAuthCallbacks

end Transcendence.Auth
