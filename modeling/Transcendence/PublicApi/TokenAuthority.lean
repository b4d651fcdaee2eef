import Transcendence.PublicApi.TokenManagement
import Transcendence.Realtime.ForeignCalls

/-!
# The authority behind the API tokens

A management call holds its project exclusively from the first turn of its body to its end, so that what it has
read of the memberships stays true until the response of the auth service, or the timeout, lets it go on. The
rest of the server changes memberships only in bodies that hold the project too. What takes no lock is the
removal of a project, which takes the tokens with it, and that of an account.
-/

namespace Transcendence.PublicApi.TokenManagement

open Realtime (CallId CoordinatorCall ProjectId ProjectResourceCoordinator Role Server UserId)
open Realtime.World (mayManage)

variable {config : Config} {s t : State} {id : CallId} {old call : Call}

/-! ### What a step does -/

/-- A turn of a body. -/
inductive Turn (s : State) (old : Call) : Call → Prop where
  | begins (hprogress : old.progress = .begun) : Turn s old { old with progress := .readingMember }
  | reads (hprogress : old.progress = .readingMember) :
      Turn s old { old with progress := .memberRead (s.member old.projectId old.userId) }
  | checks {role dto} (hprogress : old.progress = .memberRead (some role)) (hmanage : mayManage role)
      (hcreate : old.operation = .create dto) : Turn s old { old with progress := .readingProject }
  | finds (hprogress : old.progress = .readingProject) :
      Turn s old { old with progress := .projectRead (s.isActive old.projectId) }
  | sends {role} (hprogress : old.progress = .memberRead (some role)) (hmanage : mayManage role)
      (hcreate : ∀ dto, old.operation ≠ .create dto) :
      Turn s old { old with progress := .requesting, delivery := .sent }
  | creates (hprogress : old.progress = .projectRead true) :
      Turn s old { old with progress := .requesting, delivery := .sent }
  | throws {status} : Turn s old { old with progress := .settled (.threw status) }

theorem exists_turn {input : Input} (hstep : s.turn id input = some t) :
    ∃ held old call, s.server.coordination.calls id = some held ∧ held.phase = .running ∧ s.calls id = some old ∧
      Turn s old call ∧ t = s.setCall id call := by
  obtain ⟨held, hheld, hstep⟩ := Option.bind_eq_some_iff.mp hstep
  obtain ⟨hheld, hrunning⟩ := ProjectResourceCoordinator.inPhase_eq_some.mp hheld
  obtain ⟨old, hold, hstep⟩ := Option.bind_eq_some_iff.mp hstep
  suffices h : ∃ call, Turn s old call ∧ t = s.setCall id call by
    obtain ⟨call, hturn, ht⟩ := h
    exact ⟨held, old, call, hheld, hrunning, hold, hturn, ht⟩
  cases hprogress : old.progress with
  | begun =>
      rw [hprogress] at hstep
      cases hstep
      exact ⟨_, .begins hprogress, rfl⟩
  | readingMember =>
      rw [hprogress] at hstep
      cases hstep
      split
      · exact ⟨_, .reads hprogress, rfl⟩
      · exact ⟨_, .throws, rfl⟩
  | memberRead member =>
      rw [hprogress] at hstep
      cases member with
      | none =>
          cases hstep
          exact ⟨_, .throws, rfl⟩
      | some role =>
          dsimp only at hstep
          split at hstep
          · next hmanage =>
              split at hstep
              · next dto hcreate =>
                  cases hstep
                  exact ⟨_, .checks hprogress hmanage hcreate, rfl⟩
              · next hcreate =>
                  cases hstep
                  exact ⟨_, .sends hprogress hmanage hcreate, rfl⟩
          · cases hstep
            exact ⟨_, .throws, rfl⟩
  | readingProject =>
      rw [hprogress] at hstep
      cases hstep
      split
      · exact ⟨_, .finds hprogress, rfl⟩
      · exact ⟨_, .throws, rfl⟩
  | projectRead found =>
      rw [hprogress] at hstep
      dsimp only at hstep
      split at hstep
      · cases found with
        | false =>
            cases hstep
            exact ⟨_, .throws, rfl⟩
        | true =>
            rw [Bool.not_true, if_neg Bool.false_ne_true] at hstep
            split at hstep
            · cases hstep
              exact ⟨_, .creates hprogress, rfl⟩
            · cases hstep
              exact ⟨_, .throws, rfl⟩
      · cases hstep
  | requesting =>
      rw [hprogress] at hstep
      cases hstep
  | settled outcome =>
      rw [hprogress] at hstep
      cases hstep

/-- What a step is, and what it leaves as it was. -/
inductive Moves (config : Config) (s t : State) : Prop where
  | server {label} (hstep : s.server.step label = some t.server) (ht : t = { s with server := t.server })
  | auth {label} (hstep : Auth.ProjectApiTokens.State.step config.store s.auth label = some t.auth)
      (hbegin : ∀ a request, label = .begin a request → request.management = none) (ht : t = { s with auth := t.auth })
  | starts {id projectId userId operation coordination}
      (hstart : s.server.coordination.start id projectId none = some coordination)
      (ht : t = { s with server := { s.server with coordination } }.setCall id
        ⟨projectId, userId, operation, .begun, .unsent⟩)
  | turns {id held old call} (hheld : s.server.coordination.calls id = some held) (hrunning : held.phase = .running)
      (hcall : s.calls id = some old) (hturn : Turn s old call) (ht : t = s.setCall id call)
  | delivers {id old a request} (hcall : s.calls id = some old) (hsent : old.delivery = .sent)
      (hasks : old.asks config request)
      (hstep : Auth.ProjectApiTokens.State.step config.store s.auth (.begin a request) = some t.auth)
      (ht : t = { s with auth := t.auth }.setCall id { old with delivery := .delivered a })
  | ends {id old outcome} (hcall : s.calls id = some old) (hrequesting : old.progress = .requesting)
      (hanswer : outcome = .returned → ∃ a request response, old.delivery = .delivered a ∧
        s.auth.calls a = some ⟨request, .ended (.ok response)⟩)
      (ht : t = s.setCall id { old with progress := .settled outcome })
  | settles {id old outcome coordination} (hcall : s.calls id = some old) (hsettled : old.progress = .settled outcome)
      (hsettle : s.server.coordination.settleBody id = some coordination)
      (ht : t = { s with server := { s.server with coordination } })
  | archives {isArchived} (ht : t = { s with isArchived })
  | creates {projectId userId} (hstep : s.createProject projectId userId = some t)
  | removes {projectId} (hstep : s.removeProject projectId = some t)
  | forgets {userId} (ht : t = s.removeAccount userId)

theorem moves {label : Label} (hstep : s.step config label = some t) : Moves config s t := by
  cases label with
  | server label =>
      obtain ⟨server, hserver, rfl⟩ := Option.map_eq_some_iff.mp hstep
      exact .server hserver rfl
  | auth label =>
      cases label with
      | begin a request =>
          obtain ⟨hnone, hstep⟩ := Option.ite_none_left_eq_some.mp hstep
          obtain ⟨auth, hauth, rfl⟩ := Option.map_eq_some_iff.mp hstep
          refine .auth hauth (fun a' request' heq => ?_) rfl
          cases heq
          simpa using hnone
      | tick elapsed =>
          cases hstep
          have htick : Auth.ProjectApiTokens.State.step config.store s.auth (.tick elapsed) =
            some { s.auth with clock := s.auth.clock + elapsed } := rfl
          refine .auth htick (fun a' request' heq => ?_) rfl
          cases heq
      | _ =>
          obtain ⟨auth, hauth, rfl⟩ := Option.map_eq_some_iff.mp hstep
          refine .auth hauth (fun a' request' heq => ?_) rfl
          cases heq
  | request id projectId userId operation =>
      obtain ⟨coordination, hstart, rfl⟩ := Option.map_eq_some_iff.mp hstep
      exact .starts hstart rfl
  | turn id input =>
      obtain ⟨held, old, call, hheld, hrunning, hcall, hturn, ht⟩ := exists_turn hstep
      exact .turns hheld hrunning hcall hturn ht
  | deliver id a request =>
      obtain ⟨old, hfound, hstep⟩ := Option.bind_eq_some_iff.mp hstep
      obtain ⟨hcall, hsent⟩ := Option.filter_eq_some_iff.mp hfound
      rw [Bool.and_eq_true, decide_eq_true_eq] at hsent
      obtain ⟨auth, hauth, rfl⟩ := Option.map_eq_some_iff.mp hstep
      exact .delivers hcall hsent.1 hsent.2 hauth rfl
  | answer id =>
      obtain ⟨old, hfound, hstep⟩ := Option.bind_eq_some_iff.mp hstep
      obtain ⟨hcall, hrequesting⟩ := Option.filter_eq_some_iff.mp hfound
      split at hstep
      · next a hdelivered =>
          split at hstep
          · next request result hended =>
              cases hstep
              refine .ends hcall (of_decide_eq_true hrequesting) (fun hreturned => ?_) rfl
              cases result with
              | ok response => exact ⟨a, request, response, hdelivered, hended⟩
              | error error => cases error <;> cases hreturned
          · cases hstep
      · cases hstep
  | abandon id =>
      obtain ⟨old, hfound, rfl⟩ := Option.map_eq_some_iff.mp hstep
      obtain ⟨hcall, hrequesting⟩ := Option.filter_eq_some_iff.mp hfound
      refine .ends hcall (of_decide_eq_true hrequesting) (fun hreturned => ?_) rfl
      cases hreturned
  | settle id =>
      obtain ⟨old, hcall, hstep⟩ := Option.bind_eq_some_iff.mp hstep
      split at hstep
      · next outcome hsettled =>
          obtain ⟨coordination, hsettle, rfl⟩ := Option.map_eq_some_iff.mp hstep
          exact .settles hcall hsettled hsettle rfl
      · cases hstep
  | archive projectId isArchived =>
      cases hstep
      exact .archives rfl
  | createProject projectId userId => exact .creates hstep
  | removeProject projectId => exact .removes hstep
  | removeAccount userId =>
      cases hstep
      exact .forgets rfl

/-! ### What a call relies on -/

/-- The roles that a call has found its user to have. -/
def Progress.found : Progress → Option (Role → Bool)
  | .memberRead (some role) => some (· == role)
  | .readingProject => some mayManage
  | .projectRead _ => some mayManage
  | .requesting => some mayManage
  | _ => none

def Progress.inside : Progress → Bool
  | .begun => false
  | .settled _ => false
  | _ => true

theorem Progress.inside_of_found {progress : Progress} {roles : Role → Bool} (h : progress.found = some roles) :
    progress.inside := by
  cases progress with
  | begun | settled outcome => cases h
  | _ => rfl

/-- The user has one of the roles in the project, unless one of the two is gone. -/
def Has (s : State) (projectId : ProjectId) (userId : UserId) (roles : Role → Bool) : Prop :=
  userId ∈ s.removedAccounts ∨ projectId ∈ s.removedProjects ∨ ∃ role, s.member projectId userId = some role ∧ roles role

structure Sound (s : State) (id : CallId) (call : Call) : Prop where
  task : s.server.tasks id = none
  held : ∃ held, s.server.coordination.calls id = some held ∧ held.projectId = call.projectId ∧
    held.resourceKey = none ∧ (call.progress.inside → held.phase = .running)
  has : ∀ roles, call.progress.found = some roles → Has s call.projectId call.userId roles

theorem State.member_eq_some {projectId : ProjectId} {userId : UserId} {role : Role} :
    s.member projectId userId = some role ↔
      projectId ∈ s.auth.projects ∧ userId ∉ s.removedAccounts ∧ s.server.world.members projectId userId = some role := by
  rw [State.member, Option.ite_none_right_eq_some, and_assoc]

section Has

variable {projectId other : ProjectId} {userId user : UserId} {roles roles' : Role → Bool}

theorem Has.mono (h : Has s projectId userId roles) (hroles : ∀ role, roles role → roles' role) :
    Has s projectId userId roles' := by
  rcases h with h | h | ⟨role, hmember, hrole⟩
  · exact .inl h
  · exact .inr (.inl h)
  · exact .inr (.inr ⟨role, hmember, hroles role hrole⟩)

theorem Has.congr (h : Has s projectId userId roles) (hprojects : t.auth.projects = s.auth.projects)
    (hmembers : t.server.world.members projectId = s.server.world.members projectId)
    (hremoved : t.removedProjects = s.removedProjects) (haccounts : t.removedAccounts = s.removedAccounts) :
    Has t projectId userId roles := by
  rw [Has, State.member, hprojects, hmembers, hremoved, haccounts]
  exact h

/-- A project that is there is none that is created. -/
theorem Has.createProject (h : Has s projectId userId roles) (hstep : s.createProject other user = some t) :
    Has t projectId userId roles := by
  obtain ⟨hnew, hstep⟩ := Option.ite_none_left_eq_some.mp hstep
  cases hstep
  rcases h with h | h | ⟨role, hmember, hrole⟩
  · exact .inl h
  · exact .inr (.inl h)
  · obtain ⟨hproject, haccount, hmember⟩ := State.member_eq_some.mp hmember
    refine .inr (.inr ⟨role, State.member_eq_some.mpr ⟨List.mem_append_left _ hproject, haccount, ?_⟩, hrole⟩)
    have hne : projectId ≠ other := by
      rintro rfl
      exact hnew (.inl hproject)
    exact (congrFun (Function.update_of_ne hne ..) userId).trans hmember

theorem Has.removeProject (h : Has s projectId userId roles) (hstep : s.removeProject other = some t) :
    Has t projectId userId roles := by
  obtain ⟨-, hstep⟩ := Option.ite_none_left_eq_some.mp hstep
  cases hstep
  rcases h with h | h | ⟨role, hmember, hrole⟩
  · exact .inl h
  · exact .inr (.inl (List.mem_cons_of_mem _ h))
  · by_cases heq : projectId = other
    · exact .inr (.inl (heq ▸ List.mem_cons_self))
    · obtain ⟨hproject, haccount, hmember⟩ := State.member_eq_some.mp hmember
      refine .inr (.inr ⟨role, State.member_eq_some.mpr ⟨?_, haccount, ?_⟩, hrole⟩)
      · exact List.mem_filter.mpr ⟨hproject, decide_eq_true heq⟩
      · exact (congrFun (Function.update_of_ne heq ..) userId).trans hmember

theorem Has.removeAccount (h : Has s projectId userId roles) : Has (s.removeAccount user) projectId userId roles := by
  rcases h with h | h | ⟨role, hmember, hrole⟩
  · exact .inl (List.mem_cons_of_mem _ h)
  · exact .inr (.inl h)
  · by_cases heq : userId = user
    · exact .inl (heq ▸ List.mem_cons_self)
    · obtain ⟨hproject, haccount, hmember⟩ := State.member_eq_some.mp hmember
      refine .inr (.inr ⟨role, State.member_eq_some.mpr ⟨hproject, ?_, ?_⟩, hrole⟩)
      · exact fun hmem => (List.mem_cons.mp hmem).elim heq haccount
      · exact (Function.update_of_ne heq ..).trans hmember

end Has

/-! ### What it relies on in a later state -/

/-- The coordinators stay as they are. -/
theorem Sound.of_has (h : Sound s id call) (htasks : t.server.tasks = s.server.tasks)
    (hcoordination : t.server.coordination = s.server.coordination)
    (hhas : ∀ roles, Has s call.projectId call.userId roles → Has t call.projectId call.userId roles) : Sound t id call :=
  ⟨htasks ▸ h.task, hcoordination ▸ h.held, fun roles hfound => hhas roles (h.has roles hfound)⟩

theorem Sound.congr (h : Sound s id call) (hserver : t.server = s.server) (hprojects : t.auth.projects = s.auth.projects)
    (hremoved : t.removedProjects = s.removedProjects) (haccounts : t.removedAccounts = s.removedAccounts) :
    Sound t id call :=
  h.of_has (by rw [hserver]) (by rw [hserver]) fun _ hhas => hhas.congr hprojects (by rw [hserver]) hremoved haccounts

/-- A turn of the coordinators, which settles the body of the call only once the call has ended. -/
theorem Sound.coordinate (h : Sound s id call) {label : ProjectResourceCoordinator.Label}
    {coordination : ProjectResourceCoordinator} (hstep : s.server.coordination.step label = some coordination)
    (hsettle : label = .settleBody id → call.progress.inside = false) :
    Sound { s with server := { s.server with coordination } } id call := by
  obtain ⟨held, hheld, hproject, hkey, hrunning⟩ := h.held
  obtain ⟨next, hnext, hcontinues⟩ := ProjectResourceCoordinator.continues_of_step hstep hheld
  refine ⟨h.task, ⟨next, hnext, hcontinues.projectId.trans hproject, hcontinues.resourceKey.trans hkey, fun hinside => ?_⟩,
    h.has⟩
  refine hcontinues.running (hrunning hinside) fun heq => ?_
  cases hinside.symm.trans (hsettle heq)

/-- A step of the server, which changes no memberships of a project that the call holds. -/
theorem Sound.server (h : Sound s id call) (hcoordinated : s.server.Coordinated) {label : Server.Label} {server : Server}
    (hstep : s.server.step label = some server) : Sound { s with server } id call := by
  obtain ⟨held, hheld, hproject, hkey, hrunning⟩ := h.held
  have hforeign : Server.Foreign s.server server id held := .of_step h.task hheld hstep
  obtain ⟨next, hnext, hcontinues⟩ := hforeign.goesOn
  refine ⟨hforeign.task, ⟨next, hnext, hcontinues.projectId.trans hproject, hcontinues.resourceKey.trans hkey, ?_⟩, ?_⟩
  · exact fun hinside => hcontinues.running (hrunning hinside) not_false
  · intro roles hfound
    refine (h.has roles hfound).congr rfl ?_ rfl rfl
    rw [← hproject]
    exact hcoordinated.members_eq h.task hheld hkey (hrunning (Progress.inside_of_found hfound)) hstep

/-- A turn of the body finds and keeps what it relies on. -/
theorem Sound.turn (h : Sound s id old) {held : CoordinatorCall} (hheld : s.server.coordination.calls id = some held)
    (hrunning : held.phase = .running) (hturn : Turn s old call) : Sound (s.setCall id call) id call := by
  obtain ⟨held', hheld', hproject, hkey, -⟩ := h.held
  obtain rfl := Option.some.inj (hheld.symm.trans hheld')
  have hsame : call.projectId = old.projectId ∧ call.userId = old.userId := by
    cases hturn <;> exact ⟨rfl, rfl⟩
  refine ⟨h.task, ⟨held, hheld, hproject.trans hsame.1.symm, hkey, fun _ => hrunning⟩, fun roles hfound => ?_⟩
  show Has s call.projectId call.userId roles
  rw [hsame.1, hsame.2]
  cases hturn with
  | begins hprogress => cases hfound
  | reads hprogress =>
      cases hmember : s.member old.projectId old.userId with
      | none =>
          simp only [Progress.found, hmember] at hfound
          cases hfound
      | some role =>
          simp only [Progress.found, hmember] at hfound
          cases hfound
          exact .inr (.inr ⟨role, hmember, beq_self_eq_true role⟩)
  | checks hprogress hmanage hcreate =>
      cases hfound
      refine (h.has _ (by rw [hprogress]; rfl)).mono fun role' hrole => ?_
      rw [eq_of_beq hrole]
      exact hmanage
  | finds hprogress =>
      cases hfound
      exact h.has _ (by rw [hprogress]; rfl)
  | sends hprogress hmanage hcreate =>
      cases hfound
      refine (h.has _ (by rw [hprogress]; rfl)).mono fun role' hrole => ?_
      rw [eq_of_beq hrole]
      exact hmanage
  | creates hprogress =>
      cases hfound
      exact h.has _ (by rw [hprogress]; rfl)
  | throws => cases hfound

end Transcendence.PublicApi.TokenManagement
