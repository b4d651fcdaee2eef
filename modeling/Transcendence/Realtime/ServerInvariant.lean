import Transcendence.Realtime.CoordinationInvariant
import Transcendence.Realtime.HandlerEffects
import Transcendence.Realtime.Server

/-!
# The invariant of the server

Every step is either a turn of one body that holds its locks, or `Quiet`: it changes no lease, no
token and no membership. The invariant `Inv` says what a body in flight can rely on. Its call holds
its locks while it is inside; once it has read that its user is a member, the user stays one; a call
of `withValidatedLease` presents a token that was generated for its key, user and project; and while
its operation runs, the table holds that lease.
-/

namespace Transcendence.Realtime.Server

open ProjectResourceCoordinator (Continues)

/-- A step outside the bodies. -/
structure Quiet (s t : Server) : Prop where
  leases : t.world.leases = s.world.leases
  issued : t.world.issued = s.world.issued
  members : t.world.members = s.world.members
  history : ∃ emissions : List Emission, t.world.history = emissions.map .emitted ++ s.world.history
  coordination : s.coordination.Inv → t.coordination.Inv
  calls : ∀ id task call, s.tasks id = some task → s.coordination.calls id = some call →
    ∃ next, t.coordination.calls id = some next ∧ Continues call next (∃ result, task.progress = .settled result)
  tasks : ∀ id task, t.tasks id = some task →
    (∃ old, s.tasks id = some old ∧ old.request = task.request ∧ old.progress = task.progress) ∨
      (task.progress = .begun ∧ ∃ call, t.coordination.calls id = some call ∧
        call.projectId = task.request.projectId ∧ call.resourceKey = task.request.resourceKey)

/-- A turn of the body of `id`. -/
structure Turn (s t : Server) (id : CallId) (input : Input) (call : CoordinatorCall) (task : Task)
    (progress : Progress) : Prop where
  hcall : s.coordination.calls id = some call
  running : call.phase = .running
  htask : s.tasks id = some task
  hbody : s.world.body input task.progress task.request = some (t.world, progress)
  next : t = { s with world := t.world }.setTask id { task with progress }

theorem exists_turn {s t : Server} {id : CallId} {input : Input} (h : s.turn id input = some t) :
    ∃ call task progress, Turn s t id input call task progress := by
  simp only [turn, Option.bind_eq_some_iff, Option.map_eq_some_iff, ProjectResourceCoordinator.inPhase_eq_some] at h
  obtain ⟨call, ⟨hcall, hrunning⟩, task, htask, ⟨world, progress⟩, hbody, rfl⟩ := h
  exact ⟨call, task, progress, hcall, hrunning, htask, hbody, rfl⟩

/-! ### The quiet steps -/

theorem Quiet.of_same {s t : Server} (hcoordination : t.coordination = s.coordination)
    (htasks : ∀ id task, t.tasks id = some task →
      ∃ old, s.tasks id = some old ∧ old.request = task.request ∧ old.progress = task.progress)
    (hleases : t.world.leases = s.world.leases) (hissued : t.world.issued = s.world.issued)
    (hmembers : t.world.members = s.world.members)
    (hhistory : ∃ emissions : List Emission, t.world.history = emissions.map .emitted ++ s.world.history) :
    Quiet s t where
  leases := hleases
  issued := hissued
  members := hmembers
  history := hhistory
  coordination h := hcoordination ▸ h
  calls _ _ call _ hcall := ⟨call, hcoordination ▸ hcall, .refl call _⟩
  tasks id task h := Or.inl (htasks id task h)

theorem Quiet.of_start {s t : Server} {id : CallId} {request : Request} (h : s.start id request = some t) :
    Quiet s t := by
  obtain ⟨coordination, hstart, rfl⟩ := Option.map_eq_some_iff.mp h
  obtain ⟨hnone, call, hcall, hproject, hkey⟩ := ProjectResourceCoordinator.exists_call_of_start hstart
  refine ⟨rfl, rfl, rfl, ⟨[], rfl⟩, fun hinv => ?_, fun other task old _ hold => ?_, fun other task htask => ?_⟩
  · exact ProjectResourceCoordinator.inv_preserved hinv (l := .start id request.projectId request.resourceKey) hstart
  · have hstep : s.coordination.step (.start id request.projectId request.resourceKey) = some coordination := hstart
    obtain ⟨next, hnext, hcontinues⟩ := ProjectResourceCoordinator.continues_of_step hstep hold
    exact ⟨next, hnext, ⟨hcontinues.projectId, hcontinues.resourceKey, fun hrun _ => hcontinues.running hrun (by simp)⟩⟩
  · by_cases heq : other = id
    · subst heq
      obtain rfl := Option.some.inj ((setTask_tasks_self ..).symm.trans htask)
      exact Or.inr ⟨rfl, call, hcall, hproject, hkey⟩
    · exact Or.inl ⟨task, (setTask_tasks_of_ne _ _ heq).symm.trans htask, rfl, rfl⟩

theorem Quiet.of_coordinate {s t : Server} {label : ProjectResourceCoordinator.Label}
    (h : s.coordinate label = some t) : Quiet s t := by
  simp only [coordinate] at h
  split at h
  · rename_i hallowed
    obtain ⟨coordination, hstep, rfl⟩ := Option.map_eq_some_iff.mp h
    refine ⟨rfl, rfl, rfl, ⟨[], rfl⟩, fun hinv => ProjectResourceCoordinator.inv_preserved hinv hstep,
      fun id task call htask hcall => ?_, fun id task htask => Or.inl ⟨task, htask, rfl, rfl⟩⟩
    obtain ⟨next, hnext, hcontinues⟩ := ProjectResourceCoordinator.continues_of_step hstep hcall
    refine ⟨next, hnext, hcontinues.projectId, hcontinues.resourceKey, fun hrun hsettled => hcontinues.running hrun ?_⟩
    rintro rfl
    refine hsettled ?_
    obtain ⟨request, progress, announced⟩ := task
    cases progress with
    | settled result => exact ⟨result, rfl⟩
    | _ => simp [allows, result, htask] at hallowed
  · cases h

theorem Quiet.of_setSweep {s t : Server} (h : Quiet s t) (sweepId : Nat) (sweep : Sweep) :
    Quiet s (t.setSweep sweepId sweep) := ⟨h.leases, h.issued, h.members, h.history, h.coordination, h.calls, h.tasks⟩

theorem Quiet.of_emit (s : Server) (emissions : List Emission) : Quiet s (s.emit emissions) :=
  .of_same rfl (fun _ task h => ⟨task, h, rfl, rfl⟩) rfl rfl rfl
    ⟨emissions.reverse, by rw [List.map_reverse]; rfl⟩

theorem Quiet.of_world {s : Server} {world : World} (hleases : world.leases = s.world.leases)
    (hissued : world.issued = s.world.issued) (hmembers : world.members = s.world.members)
    (hhistory : world.history = s.world.history) : Quiet s { s with world } :=
  .of_same rfl (fun _ task h => ⟨task, h, rfl, rfl⟩) hleases hissued hmembers ⟨[], hhistory⟩

theorem Quiet.refl (s : Server) : Quiet s s := .of_world rfl rfl rfl rfl

theorem Quiet.of_announce {s t : Server} {id : CallId} (h : s.announce id = some t) : Quiet s t := by
  simp only [announce, Option.bind_eq_some_iff, Option.map_eq_some_iff, Option.filter_eq_some_iff] at h
  obtain ⟨-, -, task, ⟨htask, -⟩, result, -, rfl⟩ := h
  refine .of_same rfl (fun other task' htask' => ?_) rfl rfl rfl (Quiet.of_emit s (emissions result)).history
  by_cases heq : other = id
  · subst heq
    obtain rfl := Option.some.inj ((setTask_tasks_self ..).symm.trans htask')
    exact ⟨task, htask, rfl, rfl⟩
  · exact ⟨task', (setTask_tasks_of_ne _ _ heq).symm.trans htask', rfl, rfl⟩

theorem Quiet.of_beginSweep {s t : Server} {sweepId : Nat} {kind : SweepKind}
    (h : s.beginSweep sweepId kind = some t) : Quiet s t := by
  cases kind with
  | releaseSocket socketId =>
      simp only [beginSweep] at h
      split_ifs at h
      cases h
      exact (Quiet.refl s).of_setSweep ..
  | releaseExpiredLeases =>
      simp only [beginSweep] at h
      split_ifs at h
      cases h
      exact (Quiet.refl s).of_setSweep ..

theorem Quiet.of_sweepNext {s t : Server} {sweepId : Nat} {id : CallId} (h : s.sweepNext sweepId id = some t) :
    Quiet s t := by
  obtain ⟨sweep, -, h⟩ := Option.bind_eq_some_iff.mp h
  split at h
  · cases h
  · obtain ⟨started, hstart, rfl⟩ := Option.map_eq_some_iff.mp h
    exact (Quiet.of_start hstart).of_setSweep ..
  · cases h
    exact (Quiet.of_emit s sweep.released).of_setSweep ..

theorem Quiet.of_sweepCollect {s t : Server} {sweepId : Nat} (h : s.sweepCollect sweepId = some t) : Quiet s t := by
  simp only [sweepCollect, Option.bind_eq_some_iff, Option.map_eq_some_iff] at h
  obtain ⟨sweep, -, id, -, call, -, result, -, rfl⟩ := h
  split
  · exact (Quiet.refl s).of_setSweep ..
  · exact (Quiet.of_emit s (emissions result)).of_setSweep ..

/-- Every step is a turn of a body or quiet. -/
theorem turn_or_quiet {s t : Server} {label : Label} (h : s.step label = some t) :
    (∃ id input call task progress, label = .turn id input ∧ Turn s t id input call task progress) ∨ Quiet s t := by
  cases label with
  | turn id input =>
      obtain ⟨call, task, progress, hturn⟩ := exists_turn h
      exact Or.inl ⟨id, input, call, task, progress, rfl, hturn⟩
  | request id request =>
      simp only [step, receive] at h
      split at h
      · exact Or.inr (.of_start h)
      · cases h
  | coordination label => exact Or.inr (.of_coordinate h)
  | announce id => exact Or.inr (.of_announce h)
  | connect client =>
      simp only [step, connect] at h
      split at h
      · cases h
      · cases h
        exact Or.inr (.of_world rfl rfl rfl rfl)
  | sweep sweepId kind => exact Or.inr (.of_beginSweep h)
  | sweepNext sweepId id => exact Or.inr (.of_sweepNext h)
  | sweepCollect sweepId => exact Or.inr (.of_sweepCollect h)
  | ready socketId | disconnect socketId | tick elapsed | setRow resource id row | setUser username userId =>
      cases h
      exact Or.inr (.of_world rfl rfl rfl rfl)

/-! ### The invariant -/

/-- The lease a call of `withValidatedLease` was checked against is in the table. -/
def LeaseHeld (w : World) (lease : ValidatedLease) : Prop :=
  ∃ held, OrderedMap.get w.leases lease.key = some held ∧ lease.token = some held.token ∧
    held.userId = lease.userId ∧ held.projectId = lease.projectId

/-- What a body can rely on between its turns. -/
structure Sound (w : World) (request : Request) (progress : Progress) : Prop where
  member : ∀ userId, request.member = some userId → progress.knowsMember →
    (w.members request.projectId userId).isSome
  issued : ∀ lease, request.lease = some lease → progress.inside →
    ∃ token, lease.token = some token ∧ w.issued token = some ⟨lease.key, lease.userId, lease.projectId⟩
  held : ∀ lease, request.lease = some lease → ∀ userId, progress = .operating userId → LeaseHeld w lease
  removed : ∀ projectId userId requestingUserId target, request = .removeMember projectId userId requestingUserId →
    progress = .written target → w.members projectId userId = none

/-- A body's call has the body's arguments, and runs while the body is inside. -/
structure Called (s : Server) (id : CallId) (task : Task) (call : CoordinatorCall) : Prop where
  hcall : s.coordination.calls id = some call
  projectId : call.projectId = task.request.projectId
  resourceKey : call.resourceKey = task.request.resourceKey
  running : task.progress.inside → call.phase = .running

structure Inv (s : Server) : Prop where
  coordination : s.coordination.Inv
  called : ∀ id task, s.tasks id = some task → ∃ call, Called s id task call
  sound : ∀ id task, s.tasks id = some task → Sound s.world task.request task.progress
  issued : s.world.LeasesIssued

theorem sound_of_not_inside {w : World} {request : Request} {progress : Progress} (hinside : progress.inside = false)
    (hknows : progress.knowsMember = false) : Sound w request progress where
  member _ _ h := by simp [hknows] at h
  issued _ _ h := by simp [hinside] at h
  held _ _ _ h := by simp [h, Progress.inside] at hinside
  removed _ _ _ _ _ h := by simp [h, Progress.inside] at hinside

theorem inv_initial (users : String → Option UserId) (members : ProjectId → UserId → Option Role) :
    (initial users members).Inv where
  coordination := ProjectResourceCoordinator.inv_initial
  called _ _ h := by cases h
  sound _ _ h := by cases h
  issued _ h := by cases h

theorem Sound.congr {w w' : World} {request : Request} {progress : Progress} (h : Sound w request progress)
    (hmembers : progress.inside → w'.members request.projectId = w.members request.projectId)
    (hissued : ∀ token claim, w.issued token = some claim → w'.issued token = some claim)
    (hleases : ∀ lease, request.lease = some lease → progress.inside → LeaseHeld w lease → LeaseHeld w' lease) :
    Sound w' request progress where
  member userId hmember hknows := by
    rw [hmembers (by cases progress <;> trivial)]
    exact h.member userId hmember hknows
  issued lease hlease hinside := by
    obtain ⟨token, htoken, hclaim⟩ := h.issued lease hlease hinside
    exact ⟨token, htoken, hissued _ _ hclaim⟩
  held lease hlease userId hprogress :=
    hleases lease hlease (by rw [hprogress]; rfl) (h.held lease hlease userId hprogress)
  removed projectId userId requestingUserId target hrequest hprogress := by
    have hsame := hmembers (by rw [hprogress]; rfl)
    rw [hrequest] at hsame
    exact (congrFun hsame userId).trans (h.removed projectId userId requestingUserId target hrequest hprogress)

theorem Inv.quiet {s t : Server} (h : s.Inv) (hquiet : Quiet s t) : t.Inv where
  coordination := hquiet.coordination h.coordination
  called id task htask := by
    rcases hquiet.tasks id task htask with ⟨old, hold, hrequest, hprogress⟩ | ⟨hbegun, call, hcall, hproject, hkey⟩
    · obtain ⟨call, hcalled⟩ := h.called id old hold
      obtain ⟨next, hnext, hcontinues⟩ := hquiet.calls id old call hold hcalled.hcall
      refine ⟨next, hnext, ?_, ?_, fun hinside => hcontinues.running (hcalled.running (hprogress ▸ hinside)) ?_⟩
      · rw [hcontinues.projectId, hcalled.projectId, hrequest]
      · rw [hcontinues.resourceKey, hcalled.resourceKey, hrequest]
      · rintro ⟨result, hsettled⟩
        simp [← hprogress, hsettled, Progress.inside] at hinside
    · exact ⟨call, hcall, hproject, hkey, fun hinside => by simp [hbegun, Progress.inside] at hinside⟩
  sound id task htask := by
    rcases hquiet.tasks id task htask with ⟨old, hold, hrequest, hprogress⟩ | ⟨hbegun, -⟩
    · rw [← hrequest, ← hprogress]
      refine (h.sound id old hold).congr (fun _ => by rw [hquiet.members]) (fun token claim hclaim => ?_)
        fun lease _ _ hheld => ?_
      · rwa [hquiet.issued]
      · rwa [LeaseHeld, hquiet.leases]
    · exact sound_of_not_inside (by rw [hbegun]; rfl) (by rw [hbegun]; rfl)
  issued := by
    intro entry hentry
    rw [hquiet.issued]
    exact h.issued entry (hquiet.leases ▸ hentry)

/-- The first and the second check together: the token was generated for this key, user and project,
so a lease with the token is the caller's. -/
theorem leaseHeld_of_stillValidates {w : World} {lease : ValidatedLease} (hissued : w.LeasesIssued)
    (hclaim : ∃ token, lease.token = some token ∧
      w.issued token = some ⟨lease.key, lease.userId, lease.projectId⟩)
    (hvalidates : w.leases.stillValidates w.now lease.key lease.token) :
    ∃ held, OrderedMap.get w.leases lease.key = some held ∧ lease.token = some held.token ∧
      held.userId = lease.userId ∧ held.projectId = lease.projectId ∧ w.now < held.expiresAt := by
  obtain ⟨token, htoken, hclaim⟩ := hclaim
  rw [Leases.stillValidates] at hvalidates
  cases hget : OrderedMap.get w.leases lease.key with
  | none => simp [hget] at hvalidates
  | some held =>
      simp only [hget, decide_eq_true_eq] at hvalidates
      have hheld := hissued _ (OrderedMap.mem_of_get hget)
      obtain rfl : token = held.token := Option.some.inj (htoken.symm.trans hvalidates.1)
      rw [hclaim] at hheld
      simp only [Option.some.injEq, LeaseClaim.mk.injEq] at hheld
      exact ⟨held, rfl, hvalidates.1, hheld.2.1.symm, hheld.2.2.symm, hvalidates.2⟩

theorem issued_of_validates {w : World} {lease : ValidatedLease} (hissued : w.LeasesIssued)
    (hvalidates : w.leases.validates w.now lease.projectId lease.key lease.userId lease.token) :
    ∃ token, lease.token = some token ∧ w.issued token = some ⟨lease.key, lease.userId, lease.projectId⟩ := by
  rw [Leases.validates] at hvalidates
  cases hget : OrderedMap.get w.leases lease.key with
  | none => simp [hget] at hvalidates
  | some held =>
      simp only [hget, decide_eq_true_eq] at hvalidates
      obtain ⟨huser, hproject, htoken, -⟩ := hvalidates
      refine ⟨held.token, htoken, ?_⟩
      rw [← huser, ← hproject]
      exact hissued _ (OrderedMap.mem_of_get hget)

variable {s t : Server} {id : CallId} {input : Input} {call : CoordinatorCall} {task : Task} {progress : Progress}

theorem Turn.effect (h : Turn s t id input call task progress) :
    World.Effect s.world task.request task.progress t.world := World.body_effect h.hbody

theorem Turn.coordination (h : Turn s t id input call task progress) : t.coordination = s.coordination := by
  rw [h.next]
  rfl

theorem Turn.tasks_self (h : Turn s t id input call task progress) : t.tasks id = some { task with progress } := by
  rw [h.next]
  exact setTask_tasks_self ..

theorem Turn.tasks_of_ne (h : Turn s t id input call task progress) {other : CallId} (hne : other ≠ id) :
    t.tasks other = s.tasks other := by
  rw [h.next]
  exact setTask_tasks_of_ne _ _ hne

/-- A turn leaves the acting body sound. -/
theorem Inv.sound_turn (h : s.Inv) (hturn : Turn s t id input call task progress) :
    Sound t.world task.request progress := by
  have hsound := h.sound id task hturn.htask
  have heffect := hturn.effect
  refine ⟨fun userId hmember hknows => ?_, fun lease hlease hinside => ?_, fun lease hlease userId hoperating => ?_,
    fun projectId userId requestingUserId target hrequest hwritten => ?_⟩
  · rw [heffect.members_eq (Or.inl (Request.resourceKey_of_member hmember))]
    exact (World.knowsMember_of_body hmember hturn.hbody hknows).elim (hsound.member userId hmember) fun hread => hread
  · have hissued : ∃ token, lease.token = some token ∧
        s.world.issued token = some ⟨lease.key, lease.userId, lease.projectId⟩ :=
      (World.validates_of_body hlease hturn.hbody hinside).elim (hsound.issued lease hlease)
        (issued_of_validates h.issued)
    obtain ⟨token, htoken, hclaim⟩ := hissued
    exact ⟨token, htoken, heffect.issued hclaim⟩
  · subst hoperating
    obtain ⟨hauthorized, hworld, hvalidates⟩ := World.stillValidates_of_body hlease hturn.hbody
    obtain ⟨held, hget, htoken, huser, hproject, -⟩ := leaseHeld_of_stillValidates h.issued
      (hsound.issued lease hlease (by rw [hauthorized]; rfl)) hvalidates
    rw [hworld]
    exact ⟨held, hget, htoken, huser, hproject⟩
  · have hbody := hturn.hbody
    rw [hrequest, hwritten] at hbody
    exact (World.removed_of_body hbody).2

/-- Of two bodies that are inside, neither is under the exclusive lock of the other's project. -/
theorem Inv.not_exclusive (h : s.Inv) (hturn : Turn s t id input call task progress) {other : CallId} {task' : Task}
    (htask' : s.tasks other = some task') (hinside : task'.progress.inside) (hne : other ≠ id) :
    task.request.resourceKey.isSome ∨ task.request.projectId ≠ task'.request.projectId := by
  by_contra hcon
  simp only [not_or, Option.not_isSome_iff_eq_none, not_not] at hcon
  obtain ⟨hexclusive, hproject⟩ := hcon
  obtain ⟨call', hcalled⟩ := h.called id task hturn.htask
  obtain rfl : call = call' := Option.some.inj (hturn.hcall.symm.trans hcalled.hcall)
  obtain ⟨other_call, hother⟩ := h.called other task' htask'
  have hholds := ProjectResourceCoordinator.holds_of_running hturn.hcall hturn.running
  have hholds' := ProjectResourceCoordinator.holds_of_running hother.hcall (hother.running hinside)
  rw [CoordinatorCall.mode, hcalled.resourceKey, hexclusive, hcalled.projectId, hproject, ← hother.projectId] at hholds
  exact hne (h.coordination.project_exclusive hholds hholds').symm

/-- Two bodies that are inside have different resource keys. -/
theorem Inv.not_same_key (h : s.Inv) (hturn : Turn s t id input call task progress) {other : CallId} {task' : Task}
    (htask' : s.tasks other = some task') (hinside : task'.progress.inside) (hne : other ≠ id) {key : String}
    (hkey : task'.request.resourceKey = some key) : task.request.resourceKey ≠ some key := by
  intro hkey'
  obtain ⟨call', hcalled⟩ := h.called id task hturn.htask
  obtain rfl : call = call' := Option.some.inj (hturn.hcall.symm.trans hcalled.hcall)
  obtain ⟨other_call, hother⟩ := h.called other task' htask'
  exact hne (h.coordination.key_exclusive hother.hcall hturn.hcall (hother.resourceKey.trans hkey)
    (hcalled.resourceKey.trans hkey') (hother.running hinside) hturn.running)

/-- The lease of an operation in progress outlives every turn of another body. -/
theorem Inv.leaseHeld_turn (h : s.Inv) (hturn : Turn s t id input call task progress) {other : CallId} {task' : Task}
    (htask' : s.tasks other = some task') (hinside : task'.progress.inside) (hne : other ≠ id) {lease : ValidatedLease}
    (hlease : task'.request.lease = some lease) {held : FieldLockLease}
    (hget : OrderedMap.get s.world.leases lease.key = some held) (hproject : held.projectId = lease.projectId) :
    OrderedMap.get t.world.leases lease.key = some held := by
  obtain ⟨hkey, hprojectId⟩ := Request.resourceKey_of_lease hlease
  rcases hturn.effect.get_leases lease.key with hsame | hactor | ⟨hexclusive, removed, hremoved, hremovedProject⟩
  · rw [hsame, hget]
  · exact absurd hactor (h.not_same_key hturn htask' hinside hne hkey)
  · obtain rfl : held = removed := Option.some.inj (hget.symm.trans hremoved)
    have hshared := h.not_exclusive hturn htask' hinside hne
    rw [hexclusive, hprojectId, ← hproject] at hshared
    exact absurd hremovedProject.symm (hshared.resolve_left (by simp))

theorem Inv.turn (h : s.Inv) (hturn : Turn s t id input call task progress) : t.Inv where
  coordination := hturn.coordination ▸ h.coordination
  called other task' htask' := by
    by_cases heq : other = id
    · subst heq
      obtain rfl := Option.some.inj (hturn.tasks_self.symm.trans htask')
      obtain ⟨call', hcalled⟩ := h.called other task hturn.htask
      refine ⟨call', hturn.coordination ▸ hcalled.hcall, hcalled.projectId, hcalled.resourceKey, fun _ => ?_⟩
      obtain rfl : call = call' := Option.some.inj (hturn.hcall.symm.trans hcalled.hcall)
      exact hturn.running
    · obtain ⟨call', hcalled⟩ := h.called other task' ((hturn.tasks_of_ne heq).symm.trans htask')
      exact ⟨call', hturn.coordination ▸ hcalled.hcall, hcalled.projectId, hcalled.resourceKey, hcalled.running⟩
  sound other task' htask' := by
    by_cases heq : other = id
    · subst heq
      obtain rfl := Option.some.inj (hturn.tasks_self.symm.trans htask')
      have hsound : Sound t.world task.request progress := h.sound_turn hturn
      exact hsound
    · have hold := (hturn.tasks_of_ne heq).symm.trans htask'
      refine (h.sound other task' hold).congr (fun hinside => ?_) (fun token claim => hturn.effect.issued)
        fun lease hlease hinside hheld => ?_
      · exact hturn.effect.members_eq (h.not_exclusive hturn hold hinside heq)
      · obtain ⟨held, hget, htoken, huser, hproject⟩ := hheld
        exact ⟨held, h.leaseHeld_turn hturn hold hinside heq hlease hget hproject, htoken, huser, hproject⟩
  issued := hturn.effect.leasesIssued h.issued

theorem inv_preserved : Runs.Preserved step Inv := by
  intro s label t h hstep
  rcases turn_or_quiet hstep with ⟨id, input, call, task, progress, -, hturn⟩ | hquiet
  · exact h.turn hturn
  · exact h.quiet hquiet

/-- A state the server reaches from a fresh process. -/
def Reachable (s : Server) : Prop := ∃ users members labels, Runs.run step (initial users members) labels = some s

theorem Reachable.inv {s : Server} (h : Reachable s) : s.Inv := by
  obtain ⟨users, members, labels, hrun⟩ := h
  exact inv_preserved.run (inv_initial users members) hrun

end Transcendence.Realtime.Server
