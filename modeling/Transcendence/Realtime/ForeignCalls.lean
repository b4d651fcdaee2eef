import Transcendence.Realtime.ServerInvariant

/-!
# Calls of others beside the server's bodies

Other services run bodies of their own under the server's project locks. Such a call goes through the same
coordinators and is nobody else's (`Foreign`); while it runs under the exclusive lock of a project, no body of the
server changes the memberships of that project (`Coordinated.members_eq`).
-/

namespace Transcendence.Realtime.Server

open ProjectResourceCoordinator (Continues)

variable {s t : Server} {id : CallId}

/-! ### A call of somebody else in the coordinators -/

/-- A call in the coordinators that belongs to none of the server's bodies goes on, and keeps running. -/
structure Foreign (s t : Server) (id : CallId) (call : CoordinatorCall) : Prop where
  task : t.tasks id = none
  goesOn : ∃ next, t.coordination.calls id = some next ∧ Continues call next False

variable {call : CoordinatorCall}

theorem Foreign.of_same (htask : s.tasks id = none) (hcall : s.coordination.calls id = some call)
    (htasks : t.tasks id = s.tasks id) (hcoordination : t.coordination = s.coordination) : Foreign s t id call :=
  ⟨htasks.trans htask, call, hcoordination ▸ hcall, .refl call False⟩

theorem Foreign.of_start {other : CallId} {request : Request} (htask : s.tasks id = none)
    (hcall : s.coordination.calls id = some call) (hstart : s.start other request = some t) : Foreign s t id call := by
  obtain ⟨coordination, hstarted, rfl⟩ := Option.map_eq_some_iff.mp hstart
  have hne : id ≠ other := by
    rintro rfl
    cases hcall.symm.trans (ProjectResourceCoordinator.exists_call_of_start hstarted).1
  refine ⟨(setTask_tasks_of_ne _ _ hne).trans htask, ?_⟩
  have hentered : s.coordination.step (.start other request.projectId request.resourceKey) = some coordination := hstarted
  obtain ⟨next, hnext, hcontinues⟩ := ProjectResourceCoordinator.continues_of_step hentered hcall
  exact ⟨next, hnext, hcontinues.projectId, hcontinues.resourceKey, fun hrun _ => hcontinues.running hrun nofun⟩

theorem Foreign.of_step {label : Label} (htask : s.tasks id = none) (hcall : s.coordination.calls id = some call)
    (hstep : s.step label = some t) : Foreign s t id call := by
  have hsame : ∀ other task, s.tasks other = some task → ∀ later, (s.setTask other later).tasks id = s.tasks id := by
    intro other task hother later
    refine setTask_tasks_of_ne s later ?_
    rintro rfl
    cases htask.symm.trans hother
  cases label with
  | request other request =>
      obtain ⟨-, hstart⟩ := Option.ite_none_right_eq_some.mp hstep
      exact .of_start htask hcall hstart
  | coordination label =>
      obtain ⟨hallowed, hstep⟩ := Option.ite_none_right_eq_some.mp hstep
      obtain ⟨coordination, hmoved, rfl⟩ := Option.map_eq_some_iff.mp hstep
      obtain ⟨next, hnext, hcontinues⟩ := ProjectResourceCoordinator.continues_of_step hmoved hcall
      refine ⟨htask, next, hnext, hcontinues.projectId, hcontinues.resourceKey, fun hrun _ => hcontinues.running hrun ?_⟩
      rintro rfl
      rw [allows, result, htask] at hallowed
      cases hallowed
  | turn other input =>
      obtain ⟨call', task, progress, hturn⟩ := exists_turn hstep
      refine .of_same htask hcall ?_ hturn.coordination
      rw [hturn.next]
      exact hsame other task hturn.htask _
  | announce other =>
      obtain ⟨call', -, hstep⟩ := Option.bind_eq_some_iff.mp hstep
      obtain ⟨task, hfound, hstep⟩ := Option.bind_eq_some_iff.mp hstep
      obtain ⟨result, -, rfl⟩ := Option.map_eq_some_iff.mp hstep
      exact .of_same htask hcall (hsame other task (Option.filter_eq_some_iff.mp hfound).1 _) rfl
  | connect client =>
      obtain ⟨-, hstep⟩ := Option.ite_none_left_eq_some.mp hstep
      cases hstep
      exact .of_same htask hcall rfl rfl
  | sweep sweepId kind =>
      obtain ⟨-, hstep⟩ := Option.ite_none_left_eq_some.mp hstep
      cases kind with
      | releaseSocket socketId =>
          obtain ⟨-, hstep⟩ := Option.ite_none_right_eq_some.mp hstep
          cases hstep
          exact .of_same htask hcall rfl rfl
      | releaseExpiredLeases =>
          cases hstep
          exact .of_same htask hcall rfl rfl
  | sweepNext sweepId other =>
      obtain ⟨sweep, -, hstep⟩ := Option.bind_eq_some_iff.mp hstep
      split at hstep
      · cases hstep
      · obtain ⟨started, hstart, rfl⟩ := Option.map_eq_some_iff.mp hstep
        have hforeign : Foreign s started id call := .of_start htask hcall hstart
        exact ⟨hforeign.task, hforeign.goesOn⟩
      · cases hstep
        exact .of_same htask hcall rfl rfl
  | sweepCollect sweepId =>
      obtain ⟨sweep, -, hstep⟩ := Option.bind_eq_some_iff.mp hstep
      obtain ⟨other, -, hstep⟩ := Option.bind_eq_some_iff.mp hstep
      obtain ⟨call', -, hstep⟩ := Option.bind_eq_some_iff.mp hstep
      obtain ⟨result, -, rfl⟩ := Option.map_eq_some_iff.mp hstep
      split
      · exact .of_same htask hcall rfl rfl
      · exact .of_same htask hcall rfl rfl
  | ready socketId | disconnect socketId | tick elapsed | setRow resource rowId row | setUser username userId =>
      cases hstep
      exact .of_same htask hcall rfl rfl

/-! ### The server's bodies beside calls of somebody else -/

/-- The coordinators are sound, and each body has a call in them. -/
structure Coordinated (s : Server) : Prop where
  coordination : s.coordination.Inv
  called : ∀ id task, s.tasks id = some task → ∃ call, s.coordination.calls id = some call ∧
    call.projectId = task.request.projectId ∧ call.resourceKey = task.request.resourceKey

theorem Coordinated.congr (h : Coordinated s) (htasks : t.tasks = s.tasks) (hcoordination : t.coordination = s.coordination) :
    Coordinated t := by
  refine ⟨hcoordination ▸ h.coordination, fun id task htask => ?_⟩
  rw [hcoordination]
  exact h.called id task (htasks ▸ htask)

/-- A step of the coordinators for a call of somebody else. -/
theorem Coordinated.coordinate (h : Coordinated s) {label : ProjectResourceCoordinator.Label}
    {coordination : ProjectResourceCoordinator} (hstep : s.coordination.step label = some coordination) :
    Coordinated { s with coordination } := by
  refine ⟨ProjectResourceCoordinator.inv_preserved h.coordination hstep, fun id task htask => ?_⟩
  obtain ⟨call, hcall, hproject, hkey⟩ := h.called id task htask
  obtain ⟨next, hnext, hcontinues⟩ := ProjectResourceCoordinator.continues_of_step hstep hcall
  exact ⟨next, hnext, hcontinues.projectId.trans hproject, hcontinues.resourceKey.trans hkey⟩

theorem Coordinated.step (h : Coordinated s) {label : Label} (hstep : s.step label = some t) : Coordinated t := by
  rcases turn_or_quiet hstep with ⟨other, input, call, task, progress, -, hturn⟩ | hquiet
  · refine ⟨hturn.coordination ▸ h.coordination, fun id later hlater => ?_⟩
    rw [hturn.coordination]
    by_cases heq : id = other
    · subst heq
      obtain rfl := Option.some.inj (hturn.tasks_self.symm.trans hlater)
      exact h.called id task hturn.htask
    · exact h.called id later ((hturn.tasks_of_ne heq).symm.trans hlater)
  · refine ⟨hquiet.coordination h.coordination, fun id later hlater => ?_⟩
    rcases hquiet.tasks id later hlater with ⟨old, hold, hrequest, -⟩ | ⟨-, call, hcall, hproject, hkey⟩
    · obtain ⟨call, hcall, hproject, hkey⟩ := h.called id old hold
      obtain ⟨next, hnext, hcontinues⟩ := hquiet.calls id old call hold hcall
      exact ⟨next, hnext, by rw [hcontinues.projectId, hproject, hrequest], by rw [hcontinues.resourceKey, hkey, hrequest]⟩
    · exact ⟨call, hcall, hproject, hkey⟩

/-- While a call of somebody else runs under a project's exclusive lock, the server leaves the memberships of
the project alone. -/
theorem Coordinated.members_eq (h : Coordinated s) (htask : s.tasks id = none)
    (hcall : s.coordination.calls id = some call) (hexclusive : call.resourceKey = none) (hrunning : call.phase = .running)
    {label : Label} (hstep : s.step label = some t) : t.world.members call.projectId = s.world.members call.projectId := by
  rcases turn_or_quiet hstep with ⟨other, input, call', task, progress, -, hturn⟩ | hquiet
  · refine hturn.effect.members_eq ?_
    by_contra hcon
    rw [not_or, Option.not_isSome_iff_eq_none, not_not] at hcon
    obtain ⟨found, hfound, hproject, hkey⟩ := h.called other task hturn.htask
    obtain rfl := Option.some.inj (hturn.hcall.symm.trans hfound)
    have hholds := ProjectResourceCoordinator.holds_of_running hcall hrunning
    have hholds' := ProjectResourceCoordinator.holds_of_running hturn.hcall hturn.running
    rw [CoordinatorCall.mode, hexclusive] at hholds
    rw [hproject, hcon.2] at hholds'
    obtain rfl := h.coordination.project_exclusive hholds hholds'
    cases htask.symm.trans hturn.htask
  · rw [hquiet.members]

end Transcendence.Realtime.Server
