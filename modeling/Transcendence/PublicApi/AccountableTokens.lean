import Transcendence.PublicApi.TokenAuthority

/-!
# Accountable API tokens

Every token that there is, every revocation and every deletion is on record with the project and the user who
asked for it, who was an owner or admin of the project in an earlier state of the run. An event can come after its
user has been taken that role, since the request may outlive the two seconds that its call waits for it. While the
call waits its user keeps the role, unless the account or the project is removed.
-/

namespace Transcendence.PublicApi.TokenManagement

open Auth.ProjectApiTokens (Answered Kept Names OnTrail Trail recorded steps_of_step stringPointer trail_initial)
open Realtime (CallId CoordinatorCall ProjectId ProjectResourceCoordinator Role Server UserId)
open Realtime.World (mayManage)

variable {config : Config} {s t : State} {id : CallId} {old call : Call} {Managed : ProjectId → UserId → Prop}

/-! ### Where a call comes from -/

inductive Came (config : Config) (s t : State) (id : CallId) (call : Call) : Prop where
  | stays (hcall : s.calls id = some call)
  | starts (hprogress : call.progress = .begun) (hdelivery : call.delivery = .unsent)
  | turns {earlier} (hcall : s.calls id = some earlier) (hturn : Turn s earlier call)
  | delivers {earlier a request phase} (hcall : s.calls id = some earlier) (hsent : earlier.delivery = .sent)
      (hasks : earlier.asks config request) (hrequest : t.auth.calls a = some ⟨request, phase⟩)
      (heq : call = { earlier with delivery := .delivered a })
  | ends {earlier outcome} (hcall : s.calls id = some earlier) (hrequesting : earlier.progress = .requesting)
      (hanswer : outcome = .returned → ∃ a request response, earlier.delivery = .delivered a ∧
        s.auth.calls a = some ⟨request, .ended (.ok response)⟩)
      (heq : call = { earlier with progress := .settled outcome })

theorem setCall_eq_some {other : CallId} {new : Call} (h : (s.setCall other new).calls id = some call) :
    (id = other ∧ new = call) ∨ s.calls id = some call :=
  (Calls.update_eq_some h).imp_right And.right

theorem Moves.came (h : Moves config s t) (hcall : t.calls id = some call) : Came config s t id call := by
  cases h with
  | server hstep ht | auth hstep hbegin ht =>
      rw [ht] at hcall
      exact .stays hcall
  | settles _ _ _ ht | archives ht | forgets ht =>
      subst ht
      exact .stays hcall
  | creates hstep | removes hstep =>
      obtain ⟨-, hstep⟩ := Option.ite_none_left_eq_some.mp hstep
      cases hstep
      exact .stays hcall
  | starts hstart ht =>
      subst ht
      rcases setCall_eq_some hcall with ⟨rfl, rfl⟩ | hold
      · exact .starts rfl rfl
      · exact .stays hold
  | turns hheld hrunning hbefore hturn ht =>
      subst ht
      rcases setCall_eq_some hcall with ⟨rfl, rfl⟩ | hold
      · exact .turns hbefore hturn
      · exact .stays hold
  | @delivers other old a request hbefore hsent hasks hstep ht =>
      rw [ht] at hcall
      rcases setCall_eq_some hcall with ⟨rfl, rfl⟩ | hold
      · obtain ⟨-, hbegun⟩ := Option.ite_none_left_eq_some.mp hstep
        have hcalls := congrArg (·.calls a) (Option.some.inj hbegun)
        exact .delivers hbefore hsent hasks (hcalls.symm.trans (Function.update_self ..)) rfl
      · exact .stays hold
  | ends hbefore hrequesting hanswer ht =>
      subst ht
      rcases setCall_eq_some hcall with ⟨rfl, rfl⟩ | hold
      · exact .ends hbefore hrequesting hanswer rfl
      · exact .stays hold

/-! ### Calls and the coordinators -/

theorem Moves.coordinated (h : Moves config s t) (hcoordinated : s.server.Coordinated) : t.server.Coordinated := by
  cases h with
  | server hstep => exact hcoordinated.step hstep
  | auth _ _ ht | delivers _ _ _ _ ht =>
      rw [ht]
      exact hcoordinated
  | @starts id projectId _ _ _ hstart ht =>
      subst ht
      have hentered : s.server.coordination.step (.start id projectId none) = some _ := hstart
      exact hcoordinated.coordinate hentered
  | @settles id _ _ _ _ _ hsettle ht =>
      subst ht
      have hsettled : s.server.coordination.step (.settleBody id) = some _ := hsettle
      exact hcoordinated.coordinate hsettled
  | turns _ _ _ _ ht | ends _ _ _ ht | archives ht =>
      subst ht
      exact hcoordinated
  | creates hstep | removes hstep =>
      obtain ⟨-, hstep⟩ := Option.ite_none_left_eq_some.mp hstep
      cases hstep
      exact hcoordinated.congr rfl rfl
  | forgets ht =>
      subst ht
      exact hcoordinated.congr rfl rfl

theorem Moves.sound (h : Moves config s t) (hcoordinated : s.server.Coordinated) (htrail : Trail s.removedProjects s.auth)
    (hsound : ∀ id call, s.calls id = some call → Sound s id call) (hcall : t.calls id = some call) : Sound t id call := by
  cases h with
  | server hstep ht =>
      rw [ht] at hcall ⊢
      exact (hsound id call hcall).server hcoordinated hstep
  | auth hstep _ ht =>
      have hprojects := (recorded htrail.verified hstep).projects
      rw [ht] at hcall ⊢
      exact (hsound id call hcall).congr rfl hprojects rfl rfl
  | @starts other projectId userId operation coordination hstart ht =>
      subst ht
      have hentered : s.server.coordination.step (.start other projectId none) = some coordination := hstart
      rcases Calls.update_eq_some hcall with ⟨rfl, rfl⟩ | ⟨-, hold⟩
      · obtain ⟨hnone, held, hheld, hproject, hkey⟩ := ProjectResourceCoordinator.exists_call_of_start hstart
        refine ⟨?_, ⟨held, hheld, hproject, hkey, fun hinside => by cases hinside⟩, fun roles hfound => by cases hfound⟩
        by_contra htask
        obtain ⟨task, htask⟩ := Option.ne_none_iff_exists'.mp htask
        obtain ⟨found, hfound, -⟩ := hcoordinated.called id task htask
        cases hnone.symm.trans hfound
      · have hlater := (hsound id call hold).coordinate hentered (fun heq => by cases heq)
        exact hlater.congr rfl rfl rfl rfl
  | turns hheld hrunning hbefore hturn ht =>
      subst ht
      rcases Calls.update_eq_some hcall with ⟨rfl, rfl⟩ | ⟨-, hold⟩
      · exact (hsound id _ hbefore).turn hheld hrunning hturn
      · exact (hsound id call hold).congr rfl rfl rfl rfl
  | @delivers other old a request hbefore hsent hasks hstep ht =>
      have hprojects := (recorded htrail.verified hstep).projects
      rw [ht] at hcall ⊢
      rcases Calls.update_eq_some hcall with ⟨rfl, rfl⟩ | ⟨-, hold⟩
      · have hlater := (hsound id old hbefore).congr (t := { s with auth := t.auth }) rfl hprojects rfl rfl
        exact ⟨hlater.task, hlater.held, hlater.has⟩
      · exact (hsound id call hold).congr rfl hprojects rfl rfl
  | ends hbefore hrequesting _ ht =>
      subst ht
      rcases Calls.update_eq_some hcall with ⟨rfl, rfl⟩ | ⟨-, hold⟩
      · obtain ⟨held, hheld, hproject, hkey, -⟩ := (hsound id _ hbefore).held
        exact ⟨(hsound id _ hbefore).task, ⟨held, hheld, hproject, hkey, fun hinside => by cases hinside⟩,
          fun roles hfound => by cases hfound⟩
      · exact (hsound id call hold).congr rfl rfl rfl rfl
  | @settles other old outcome coordination hbefore hsettled hsettle ht =>
      subst ht
      have hended : s.server.coordination.step (.settleBody other) = some coordination := hsettle
      refine (hsound id call hcall).coordinate hended fun heq => ?_
      cases heq
      obtain rfl := Option.some.inj (hcall.symm.trans hbefore)
      rw [hsettled]
      rfl
  | archives ht =>
      subst ht
      exact (hsound id call hcall).congr rfl rfl rfl rfl
  | creates hstep =>
      have hhas := fun roles (h : Has s call.projectId call.userId roles) => h.createProject hstep
      obtain ⟨-, heq⟩ := Option.ite_none_left_eq_some.mp hstep
      cases heq
      exact (hsound id call hcall).of_has rfl rfl hhas
  | removes hstep =>
      have hhas := fun roles (h : Has s call.projectId call.userId roles) => h.removeProject hstep
      obtain ⟨-, heq⟩ := Option.ite_none_left_eq_some.mp hstep
      cases heq
      exact (hsound id call hcall).of_has rfl rfl hhas
  | forgets ht =>
      subst ht
      exact (hsound id call hcall).of_has rfl rfl fun _ hhas => hhas.removeAccount

/-! ### The trail -/

theorem Moves.trail (h : Moves config s t) (htrail : Trail s.removedProjects s.auth) : Trail t.removedProjects t.auth := by
  cases h with
  | server _ ht =>
      rw [ht]
      exact htrail
  | auth hstep _ ht | delivers _ _ _ hstep ht =>
      have hlater := htrail.step hstep
      rw [ht]
      exact hlater
  | starts _ ht | turns _ _ _ _ ht | ends _ _ _ ht | settles _ _ _ ht | archives ht | forgets ht =>
      subst ht
      exact htrail
  | creates hstep =>
      obtain ⟨-, hstep⟩ := Option.ite_none_left_eq_some.mp hstep
      cases hstep
      refine htrail.of_projects rfl rfl (fun _ hmem => hmem) (fun row hrow => ⟨hrow, ?_⟩) fun row hrow => .inl hrow
      exact List.mem_append_left _ (htrail.rows row hrow).1
  | @removes projectId hstep =>
      obtain ⟨-, hstep⟩ := Option.ite_none_left_eq_some.mp hstep
      cases hstep
      refine htrail.of_projects rfl rfl (fun _ hmem => List.mem_cons_of_mem _ hmem) (fun row hrow => ?_) fun row hrow => ?_
      · obtain ⟨hrow, hne⟩ := List.mem_filter.mp hrow
        exact ⟨hrow, List.mem_filter.mpr ⟨(htrail.rows row hrow).1, hne⟩⟩
      · by_cases heq : row.projectId = projectId
        · exact .inr (heq ▸ List.mem_cons_self)
        · exact .inl (List.mem_filter.mpr ⟨hrow, decide_eq_true heq⟩)

/-! ### Who is behind the events -/

/-- The user of the call has been found to manage its project. -/
def Call.Vouched (call : Call) : Prop :=
  call.delivery ≠ .unsent ∨ ∃ roles, call.progress.found = some roles ∧ ∀ role, roles role → mayManage role

/-- Everything that comes of a call is for a user who manages the project. -/
structure Vouched (Managed : ProjectId → UserId → Prop) (s : State) : Prop where
  calls : ∀ id call, s.calls id = some call → call.Vouched → Managed call.projectId call.userId
  requests : ∀ a request phase projectId userId eventType, s.auth.calls a = some ⟨request, phase⟩ →
    request.management = some (projectId, userId, eventType) → Managed projectId userId
  events : ∀ event ∈ s.auth.events, ∃ userId, event.actorUserId = stringPointer userId ∧ Managed event.projectId userId

theorem Turn.vouched (h : Turn s old call) (hvouched : call.Vouched) :
    call.projectId = old.projectId ∧ call.userId = old.userId ∧ (old.Vouched ∨ s.Manages old.projectId old.userId) := by
  have hfound : ∀ {role}, old.progress = .memberRead (some role) → mayManage role → old.Vouched := by
    intro role hprogress hmanage
    refine .inr ⟨(· == role), by rw [hprogress]; rfl, fun role' hrole => ?_⟩
    rw [eq_of_beq hrole]
    exact hmanage
  cases h with
  | begins hprogress | throws =>
      refine ⟨rfl, rfl, .inl ?_⟩
      rcases hvouched with hsent | ⟨roles, hroles, -⟩
      · exact .inl hsent
      · cases hroles
  | reads hprogress =>
      refine ⟨rfl, rfl, ?_⟩
      rcases hvouched with hsent | ⟨roles, hroles, hmanage⟩
      · exact .inl (.inl hsent)
      · cases hmember : s.member old.projectId old.userId with
        | none =>
            simp only [Progress.found, hmember] at hroles
            cases hroles
        | some role =>
            simp only [Progress.found, hmember] at hroles
            cases hroles
            exact .inr ⟨role, hmember, hmanage role (beq_self_eq_true role)⟩
  | checks hprogress hmanage | sends hprogress hmanage => exact ⟨rfl, rfl, .inl (hfound hprogress hmanage)⟩
  | finds hprogress | creates hprogress =>
      exact ⟨rfl, rfl, .inl (.inr ⟨mayManage, by rw [hprogress]; rfl, fun _ hrole => hrole⟩)⟩

/-- The request that a call has sent names its project, its user and its operation. -/
theorem Call.management_of_asks {request : Auth.ProjectApiTokens.Request} (h : old.asks config request) :
    request.management = some (old.projectId, old.userId, old.operation.eventType) ∧
      ((∀ tokenId, old.operation ≠ .revoke tokenId) →
        ∀ projectId tokenId actorUserId, request ≠ .revoke projectId tokenId actorUserId) := by
  cases request with
  | introspect value => cases h
  | create r =>
      rw [Call.asks] at h
      split at h
      · next dto hoperation =>
          simp only [Bool.and_eq_true, decide_eq_true_eq] at h
          refine ⟨?_, fun _ _ _ _ heq => by cases heq⟩
          rw [hoperation, ← h.1.1.1.1, ← h.1.1.1.2]
          rfl
      · cases h
  | revoke projectId tokenId actorUserId =>
      simp only [Call.asks, Bool.and_eq_true, decide_eq_true_eq] at h
      obtain ⟨⟨rfl, rfl⟩, hoperation⟩ := h
      refine ⟨?_, fun hother => absurd hoperation (hother tokenId)⟩
      rw [hoperation]
      rfl
  | delete projectId tokenId actorUserId =>
      simp only [Call.asks, Bool.and_eq_true, decide_eq_true_eq] at h
      obtain ⟨⟨rfl, rfl⟩, hoperation⟩ := h
      refine ⟨?_, fun _ _ _ _ heq => by cases heq⟩
      rw [hoperation]
      rfl

theorem Vouched.call_step (h : Vouched Managed s) (hmanaged : ∀ projectId userId, s.Manages projectId userId →
    Managed projectId userId) (hcame : Came config s t id call) (hvouched : call.Vouched) :
    Managed call.projectId call.userId := by
  cases hcame with
  | stays hcall => exact h.calls id call hcall hvouched
  | starts hprogress hdelivery =>
      rcases hvouched with hsent | ⟨roles, hroles, -⟩
      · exact absurd hdelivery hsent
      · rw [hprogress] at hroles
        cases hroles
  | @turns old hcall hturn =>
      obtain ⟨hproject, huser, hold⟩ := hturn.vouched hvouched
      rw [hproject, huser]
      exact hold.elim (h.calls id old hcall) (hmanaged _ _)
  | @delivers old a request phase hcall hsent hasks hrequest heq =>
      subst heq
      refine h.calls id old hcall (.inl ?_)
      rw [hsent]
      exact fun heq => by cases heq
  | @ends old outcome hcall hrequesting hanswer heq =>
      subst heq
      exact h.calls id old hcall (.inr ⟨mayManage, by rw [hrequesting]; rfl, fun _ hrole => hrole⟩)

/-- A step of the auth service, where a call that begins is for a user who manages the project. -/
theorem Vouched.auth_step (h : Vouched Managed s) (htrail : Trail s.removedProjects s.auth)
    {label : Auth.ProjectApiTokens.Label} (hstep : Auth.ProjectApiTokens.State.step config.store s.auth label = some t.auth)
    (hbegin : ∀ a request projectId userId eventType, label = .begin a request →
      request.management = some (projectId, userId, eventType) → Managed projectId userId) :
    (∀ a request phase projectId userId eventType, t.auth.calls a = some ⟨request, phase⟩ →
      request.management = some (projectId, userId, eventType) → Managed projectId userId) ∧
    ∀ event ∈ t.auth.events, ∃ userId, event.actorUserId = stringPointer userId ∧ Managed event.projectId userId := by
  refine ⟨fun a request phase projectId userId eventType hcall hmanagement => ?_, fun event hevent => ?_⟩
  · rcases (steps_of_step hstep).before hcall with ⟨before, hbefore⟩ | hlabel
    · exact h.requests a request before projectId userId eventType hbefore hmanagement
    · exact hbegin a request projectId userId eventType hlabel hmanagement
  · cases recorded htrail.verified hstep with
    | nothing _ hevents => exact h.events event (hevents ▸ hevent)
    | @event a request before projectId userId eventType last _ hcall hentry =>
        rw [hentry.events] at hevent
        rcases List.mem_append.mp hevent with hold | hnew
        · exact h.events event hold
        · obtain rfl := List.mem_singleton.mp hnew
          refine ⟨userId, hentry.names.actorUserId, ?_⟩
          rw [hentry.names.projectId]
          exact h.requests a request before projectId userId eventType hcall hentry.management

theorem Moves.vouched (h : Moves config s t) (htrail : Trail s.removedProjects s.auth) (hvouched : Vouched Managed s)
    (hmanaged : ∀ projectId userId, s.Manages projectId userId → Managed projectId userId) : Vouched Managed t := by
  have hcalls : ∀ id call, t.calls id = some call → call.Vouched → Managed call.projectId call.userId :=
    fun id call hcall => hvouched.call_step hmanaged (h.came hcall)
  cases h with
  | auth hstep hbegin ht =>
      obtain ⟨hrequests, hevents⟩ := hvouched.auth_step htrail hstep fun a request _ _ _ hlabel hmanagement => by
        cases (hbegin a request hlabel).symm.trans hmanagement
      exact ⟨hcalls, hrequests, hevents⟩
  | @delivers id old a request hcall hsent hasks hstep ht =>
      obtain ⟨hrequests, hevents⟩ := hvouched.auth_step htrail hstep fun a' request' _ _ _ hlabel hmanagement => by
        cases hlabel
        cases (Call.management_of_asks hasks).1.symm.trans hmanagement
        refine hvouched.calls id old hcall (.inl ?_)
        rw [hsent]
        exact fun heq => by cases heq
      exact ⟨hcalls, hrequests, hevents⟩
  | server _ ht =>
      refine ⟨hcalls, ?_, ?_⟩
      · rw [ht]
        exact hvouched.requests
      · rw [ht]
        exact hvouched.events
  | starts _ ht | turns _ _ _ _ ht | ends _ _ _ ht | settles _ _ _ ht | archives ht | forgets ht =>
      subst ht
      exact ⟨hcalls, hvouched.requests, hvouched.events⟩
  | creates hstep | removes hstep =>
      obtain ⟨-, hstep⟩ := Option.ite_none_left_eq_some.mp hstep
      cases hstep
      exact ⟨hcalls, hvouched.requests, hvouched.events⟩

theorem Vouched.mono {Later : ProjectId → UserId → Prop} (h : Vouched Managed s)
    (hlater : ∀ projectId userId, Managed projectId userId → Later projectId userId) : Vouched Later s := by
  refine ⟨fun id call hcall hvouched => hlater _ _ (h.calls id call hcall hvouched), ?_, fun event hevent => ?_⟩
  · intro a request phase projectId userId eventType hcall hmanagement
    exact hlater _ _ (h.requests a request phase projectId userId eventType hcall hmanagement)
  · obtain ⟨userId, hactor, hmanaged⟩ := h.events event hevent
    exact ⟨userId, hactor, hlater _ _ hmanaged⟩

/-! ### What comes of the calls -/

/-- A request that has reached the auth service is that of its call, and one that has returned has left its event. -/
structure Traced (config : Config) (s : State) : Prop where
  delivered : ∀ id call a, s.calls id = some call → call.delivery = .delivered a →
    ∃ request phase, s.auth.calls a = some ⟨request, phase⟩ ∧ call.asks config request
  returned : ∀ id call, s.calls id = some call → call.progress = .settled .returned →
    (∀ tokenId, call.operation ≠ .revoke tokenId) →
      ∃ event ∈ s.auth.events, Names event call.projectId call.userId call.operation.eventType

/-- Nothing that the auth service has begun or recorded is lost. -/
theorem Moves.auth_kept (h : Moves config s t) (htrail : Trail s.removedProjects s.auth) :
    (∀ event ∈ s.auth.events, event ∈ t.auth.events) ∧
      ∀ a request phase, s.auth.calls a = some ⟨request, phase⟩ → ∃ after, t.auth.calls a = some ⟨request, after⟩ := by
  cases h with
  | auth hstep | delivers _ _ _ hstep =>
      exact ⟨fun event hevent => (recorded htrail.verified hstep).mem_events hevent,
        fun a request phase hcall => (steps_of_step hstep).exists_after hcall⟩
  | server _ ht =>
      rw [ht]
      exact ⟨fun _ hevent => hevent, fun _ _ phase hcall => ⟨phase, hcall⟩⟩
  | starts _ ht | turns _ _ _ _ ht | ends _ _ _ ht | settles _ _ _ ht | archives ht | forgets ht =>
      subst ht
      exact ⟨fun _ hevent => hevent, fun _ _ phase hcall => ⟨phase, hcall⟩⟩
  | creates hstep | removes hstep =>
      obtain ⟨-, hstep⟩ := Option.ite_none_left_eq_some.mp hstep
      cases hstep
      exact ⟨fun _ hevent => hevent, fun _ _ phase hcall => ⟨phase, hcall⟩⟩

theorem Turn.keeps (h : Turn s old call) {a : Nat} (hdelivered : call.delivery = .delivered a) :
    old.delivery = .delivered a ∧ ∀ request, old.asks config request → call.asks config request := by
  cases h with
  | begins | reads | checks | finds | throws => exact ⟨hdelivered, fun _ hasks => hasks⟩
  | sends | creates => cases hdelivered

theorem Turn.progress_ne (h : Turn s old call) : call.progress ≠ .settled .returned := by
  cases h <;> exact fun heq => by cases heq

theorem Moves.traced (h : Moves config s t) (htrail : Trail s.removedProjects s.auth) (htraced : Traced config s) :
    Traced config t := by
  obtain ⟨hevents, hcalls⟩ := h.auth_kept htrail
  constructor
  · intro id call a hcall hdelivered
    suffices hbegun : (∃ phase request, t.auth.calls a = some ⟨request, phase⟩ ∧ call.asks config request) ∨
        ∃ request phase, s.auth.calls a = some ⟨request, phase⟩ ∧ call.asks config request by
      rcases hbegun with ⟨phase, request, hrequest, hasks⟩ | ⟨request, phase, hrequest, hasks⟩
      · exact ⟨request, phase, hrequest, hasks⟩
      · obtain ⟨after, hafter⟩ := hcalls a request phase hrequest
        exact ⟨request, after, hafter, hasks⟩
    cases h.came hcall with
    | stays hold => exact .inr (htraced.delivered id call a hold hdelivered)
    | starts _ hdelivery => cases hdelivery.symm.trans hdelivered
    | turns hold hturn =>
        obtain ⟨hdelivered, hkeeps⟩ := hturn.keeps hdelivered
        obtain ⟨request, phase, hrequest, hasks⟩ := htraced.delivered id _ a hold hdelivered
        exact .inr ⟨request, phase, hrequest, hkeeps request hasks⟩
    | @delivers old a' request phase hold hsent hasks hrequest heq =>
        subst heq
        cases hdelivered
        exact .inl ⟨phase, request, hrequest, hasks⟩
    | @ends old outcome hold hrequesting hanswer heq =>
        subst heq
        exact .inr (htraced.delivered id old a hold hdelivered)
  · intro id call hcall hreturned hother
    suffices hevent : ∃ event ∈ s.auth.events, Names event call.projectId call.userId call.operation.eventType by
      obtain ⟨event, hevent, hnames⟩ := hevent
      exact ⟨event, hevents event hevent, hnames⟩
    cases h.came hcall with
    | stays hold => exact htraced.returned id call hold hreturned hother
    | starts hprogress => cases hprogress.symm.trans hreturned
    | turns _ hturn => exact absurd hreturned hturn.progress_ne
    | @delivers old a request phase hold hsent hasks hrequest heq =>
        subst heq
        exact htraced.returned id old hold hreturned hother
    | @ends old outcome hold hrequesting hanswer heq =>
        subst heq
        cases hreturned
        obtain ⟨a, request, response, hdelivered, hended⟩ := hanswer rfl
        obtain ⟨request', phase, hbegun, hasks⟩ := htraced.delivered id old a hold hdelivered
        cases hended.symm.trans hbegun
        obtain ⟨hmanagement, hrevoke⟩ := Call.management_of_asks hasks
        exact htrail.answered a request _ _ _ hmanagement ⟨hrevoke hother, response, hended⟩

/-! ### Every run -/

structure Inv (config : Config) (Managed : ProjectId → UserId → Prop) (s : State) : Prop where
  coordinated : s.server.Coordinated
  sound : ∀ id call, s.calls id = some call → Sound s id call
  trail : Trail s.removedProjects s.auth
  vouched : Vouched Managed s
  traced : Traced config s

theorem Inv.step (h : Inv config Managed s)
    (hmanaged : ∀ projectId userId, s.Manages projectId userId → Managed projectId userId) {label : Label}
    (hstep : s.step config label = some t) : Inv config Managed t := by
  have hmoves := moves hstep
  exact ⟨hmoves.coordinated h.coordinated, fun id call => hmoves.sound h.coordinated h.trail h.sound,
    hmoves.trail h.trail, hmoves.vouched h.trail h.vouched hmanaged, hmoves.traced h.trail h.traced⟩

/-- The tokens and the operations on them are on record, and are those of users who manage the project. -/
structure Accountable (Managed : ProjectId → UserId → Prop) (s : State) : Prop where
  rows : ∀ row ∈ s.auth.tokens, row.projectId ∈ s.auth.projects ∧ OnTrail s.auth.events row
  kept : ∀ event ∈ s.auth.events, event.eventType = .CREATED → Kept s.removedProjects s.auth event
  actors : ∀ event ∈ s.auth.events, ∃ userId, event.actorUserId = stringPointer userId ∧ Managed event.projectId userId
  awaiting : ∀ id call, s.calls id = some call → call.progress = .requesting →
    s.Manages call.projectId call.userId ∨ call.userId ∈ s.removedAccounts ∨ call.projectId ∈ s.removedProjects
  returned : ∀ id call, s.calls id = some call → call.progress = .settled .returned →
    (∀ tokenId, call.operation ≠ .revoke tokenId) →
      ∃ event ∈ s.auth.events, Names event call.projectId call.userId call.operation.eventType

theorem Inv.accountable (h : Inv config Managed s) : Accountable Managed s where
  rows := h.trail.rows
  kept := h.trail.kept
  actors := h.vouched.events
  awaiting id call hcall hrequesting := by
    rcases (h.sound id call hcall).has mayManage (by rw [hrequesting]; rfl) with haccount | hproject | hmanages
    · exact .inr (.inl haccount)
    · exact .inr (.inr hproject)
    · exact .inl hmanages
  returned := h.traced.returned

theorem inv_initial (users : String → Option UserId) (members : ProjectId → UserId → Option Role)
    (projects : List ProjectId) (clock : Nat) : Inv config Managed (.initial users members projects clock) where
  coordinated := ⟨ProjectResourceCoordinator.inv_initial, fun _ _ htask => by cases htask⟩
  sound _ _ hcall := by cases hcall
  trail := trail_initial [] projects clock
  vouched := ⟨fun _ _ hcall => (by cases hcall), fun _ _ _ _ _ _ hcall => (by cases hcall), fun _ hevent => by cases hevent⟩
  traced := ⟨fun _ _ _ hcall => (by cases hcall), fun _ _ hcall => by cases hcall⟩

/-- The user has managed the project in a state of the run. -/
def ManagedIn (config : Config) (start : State) (labels : List Label) (projectId : ProjectId) (userId : UserId) : Prop :=
  Runs.Once (State.step config) start (·.Manages projectId userId) labels

/-- In every run the tokens are accountable to users who managed the project in one of its states. -/
theorem tokens_accountable (config : Config) (users : String → Option UserId)
    (members : ProjectId → UserId → Option Role) (projects : List ProjectId) (clock : Nat) (labels : List Label)
    (hrun : Runs.run (State.step config) (.initial users members projects clock) labels = some s) :
    Accountable (ManagedIn config (.initial users members projects clock) labels) s := by
  suffices hinv : Inv config (ManagedIn config (.initial users members projects clock) labels) s from hinv.accountable
  refine Runs.run_induction (P := fun ls s => Inv config (ManagedIn config (.initial users members projects clock) ls) s)
    (inv_initial users members projects clock) (fun ls s label t hbefore h hstep => ?_) hrun
  have hlater : Inv config (ManagedIn config (.initial users members projects clock) (ls ++ [label])) s :=
    { h with vouched := h.vouched.mono fun _ _ honce => Runs.Once.append honce [label] }
  exact hlater.step (fun _ _ hmanages => (Runs.Once.of_run hbefore hmanages).append [label]) hstep

/-! A revocation that times out, whose request arrives after the account of its user was removed. -/

def plainConfig : Config := ⟨Auth.ProjectApiTokens.plainStore, fun label => label⟩

def twoManagers (projectId : ProjectId) (userId : UserId) : Option Role :=
  if projectId ≠ "project" then none
  else if userId = "owner" then some .OWNER
  else if userId = "admin" then some .ADMIN
  else none

def lateRevocation : List Label :=
  [.request 0 "project" "owner" (.create ⟨"Deploy", .READ, some 100000⟩), .server (.coordination (.enterProject 0)),
    .turn 0 {}, .turn 0 {}, .turn 0 {}, .turn 0 {}, .turn 0 { now := 1000 },
    .deliver 0 0 (.create Auth.ProjectApiTokens.exampleRequest), .auth (.lock 0), .auth (.count 0 Auth.second),
    .auth (.insert 0), .answer 0, .settle 0, .server (.coordination (.leave 0)),
    .request 1 "project" "admin" (.revoke "token"), .server (.coordination (.enterProject 1)), .turn 1 {}, .turn 1 {},
    .turn 1 {}, .abandon 1, .settle 1, .server (.coordination (.leave 1)), .removeAccount "admin",
    .deliver 1 1 (.revoke "project" "token" "admin"), .auth (.revoke 1)]

theorem tokens_accountable_of_lateRevocation :
    ∃ s, Runs.run (State.step plainConfig) (.initial (fun _ => none) twoManagers ["project"] Auth.second)
        lateRevocation = some s ∧
      s.auth.events.map (fun event => (event.eventType, event.actorUserId)) =
        [(.CREATED, some "owner"), (.REVOKED, some "admin")] ∧
      s.member "project" "admin" = none ∧
      Accountable (ManagedIn plainConfig (.initial (fun _ => none) twoManagers ["project"] Auth.second) lateRevocation)
        s := by
  have hends : (Runs.run (State.step plainConfig) (.initial (fun _ => none) twoManagers ["project"] Auth.second)
      lateRevocation).map (fun s => (s.auth.events.map fun event => (event.eventType, event.actorUserId),
        s.member "project" "admin")) =
      some ([(.CREATED, some "owner"), (.REVOKED, some "admin")], none) := by decide +kernel
  obtain ⟨s, hrun, hends⟩ := Option.map_eq_some_iff.mp hends
  obtain ⟨hevents, hmember⟩ := Prod.mk.inj hends
  exact ⟨s, hrun, hevents, hmember, tokens_accountable plainConfig (fun _ => none) twoManagers ["project"] Auth.second
    lateRevocation hrun⟩

end Transcendence.PublicApi.TokenManagement
