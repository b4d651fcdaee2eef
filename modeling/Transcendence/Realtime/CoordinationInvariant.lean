import Transcendence.Realtime.Coordination

/-!
# Mutual exclusion of the coordinated bodies

Two facts about every reachable state of `ProjectResourceCoordinator`. A body under a project's
exclusive lock runs while nobody else holds that project (`Inv.project_exclusive`), and two bodies
for one resource key never run together (`Inv.key_exclusive`).

The first half of the invariant, `ProjectInv`, sees of a call only its `ProjectRole`: the
coordinator object it uses and whether it was granted. Every unfinished call of a project uses the
object the map `projects` holds, and the outstanding grants and the queue of each object are exactly
the calls with that role. The second half, `KeyInv`, sees only a `KeyClaim`: the claims on one key
form a queue in which each call awaits its predecessor and only the head runs.
-/

namespace Transcendence.Realtime

open ProjectCoordinator

/-! ### Roles in a project lock -/

/-- What an unfinished call is to its project's lock: a holder if `granted`, else a waiter. -/
structure ProjectRole where
  projectId : ProjectId
  project : ObjectId
  mode : ProjectLockMode
  granted : Bool

def CoordinatorCall.role (call : CoordinatorCall) : Option ProjectRole :=
  match call.phase with
  | .awaitingProject => some ⟨call.projectId, call.project, call.mode, false⟩
  | .finished => none
  | _ => some ⟨call.projectId, call.project, call.mode, true⟩

/-- The grants and the queue of one coordinator object are the calls with a role in it. -/
structure Roles (role : CallId → Option ProjectRole) (project : ObjectId)
    (holders waiters : List (ProjectLockWaiter CallId)) : Prop where
  nodup : ((holders ++ waiters).map (·.resolve)).Nodup
  holder : ∀ w, w ∈ holders ↔ ∃ projectId, role w.resolve = some ⟨projectId, project, w.mode, true⟩
  waiter : ∀ w, w ∈ waiters ↔ ∃ projectId, role w.resolve = some ⟨projectId, project, w.mode, false⟩

namespace Roles

variable {role : CallId → Option ProjectRole} {project other : ObjectId}
  {holders waiters grants : List (ProjectLockWaiter CallId)}

theorem none_of_no_role (h : ∀ id r, role id = some r → r.project ≠ project) : Roles role project [] [] where
  nodup := by simp
  holder w := by
    simp only [List.not_mem_nil, false_iff, not_exists]
    exact fun projectId hrole => h _ _ hrole rfl
  waiter w := by
    simp only [List.not_mem_nil, false_iff, not_exists]
    exact fun projectId hrole => h _ _ hrole rfl

/-- Changing the role of one call that has no part in this object, before or after. -/
theorem update_other (h : Roles role project holders waiters) (id : CallId) (new : Option ProjectRole)
    (hold : ∀ r, role id = some r → r.project ≠ project) (hnew : ∀ r, new = some r → r.project ≠ project) :
    Roles (Function.update role id new) project holders waiters := by
  have key : ∀ (w : ProjectLockWaiter CallId) (granted : Bool),
      (∃ projectId, Function.update role id new w.resolve = some ⟨projectId, project, w.mode, granted⟩) ↔
        ∃ projectId, role w.resolve = some ⟨projectId, project, w.mode, granted⟩ := by
    intro w granted
    by_cases hw : w.resolve = id
    · subst hw
      rw [Function.update_self]
      constructor
      · rintro ⟨projectId, hrole⟩; exact absurd rfl (hnew _ hrole)
      · rintro ⟨projectId, hrole⟩; exact absurd rfl (hold _ hrole)
    · rw [Function.update_of_ne hw]
  exact ⟨h.nodup, fun w => (h.holder w).trans (key w true).symm, fun w => (h.waiter w).trans (key w false).symm⟩

theorem resolve_ne (h : Roles role project holders waiters) {id : CallId}
    (hrole : ∀ r, role id = some r → r.project ≠ project) :
    ∀ w ∈ holders ++ waiters, w.resolve ≠ id := by
  rintro w hw rfl
  rcases List.mem_append.mp hw with hw | hw
  · obtain ⟨projectId, hsome⟩ := (h.holder w).mp hw
    exact hrole _ hsome rfl
  · obtain ⟨projectId, hsome⟩ := (h.waiter w).mp hw
    exact hrole _ hsome rfl

/-- A new request queues behind the others. -/
theorem request (h : Roles role project holders waiters) {id : CallId} (hfresh : role id = none)
    (projectId : ProjectId) (mode : ProjectLockMode) :
    Roles (Function.update role id (some ⟨projectId, project, mode, false⟩)) project holders
      (waiters ++ [⟨mode, id⟩]) := by
  have hne : ∀ w ∈ holders ++ waiters, w.resolve ≠ id := h.resolve_ne (by simp [hfresh])
  refine ⟨?_, fun w => ?_, fun w => ?_⟩
  · rw [← List.append_assoc, List.map_append, List.nodup_append]
    refine ⟨h.nodup, by simp, fun a ha b hb => ?_⟩
    obtain ⟨w, hw, rfl⟩ := List.mem_map.mp ha
    obtain rfl : b = id := by simpa using hb
    exact hne w hw
  · by_cases hw : w.resolve = id
    · rw [hw, Function.update_self]
      simp only [Option.some.injEq, ProjectRole.mk.injEq, Bool.false_eq_true, and_false, exists_false, iff_false]
      exact fun hmem => hne w (List.mem_append_left _ hmem) hw
    · rw [Function.update_of_ne hw]
      exact h.holder w
  · obtain ⟨wmode, wid⟩ := w
    by_cases hw : wid = id
    · subst hw
      simp only [Function.update_self, List.mem_append, List.mem_singleton, Option.some.injEq,
        ProjectRole.mk.injEq, ProjectLockWaiter.mk.injEq, true_and, and_true, exists_eq_left']
      constructor
      · rintro (hmem | rfl)
        · exact absurd rfl (hne _ (List.mem_append_right _ hmem))
        · rfl
      · rintro rfl; exact Or.inr rfl
    · rw [Function.update_of_ne hw, List.mem_append, List.mem_singleton]
      simp only [ProjectLockWaiter.mk.injEq, hw, and_false, or_false]
      exact h.waiter ⟨wmode, wid⟩

/-- The roles after the promises of `grants` are resolved. -/
def grant (role : CallId → Option ProjectRole) (grants : List (ProjectLockWaiter CallId)) :
    CallId → Option ProjectRole := fun id =>
  if grants.any (·.resolve == id) then (role id).map ({ · with granted := true }) else role id

theorem grant_of_not_mem {id : CallId} (h : ∀ w ∈ grants, w.resolve ≠ id) : grant role grants id = role id := by
  rw [grant, if_neg]
  simpa using h

theorem grant_of_mem {w : ProjectLockWaiter CallId} (h : w ∈ grants) :
    grant role grants w.resolve = (role w.resolve).map ({ · with granted := true }) := by
  rw [grant, if_pos]
  simpa using ⟨w, h, rfl⟩

/-- A prefix of the queue becomes the newest holders. -/
theorem grant_self (h : Roles role project holders (grants ++ waiters)) :
    Roles (grant role grants) project (holders ++ grants) waiters := by
  have hdisjoint : ∀ g ∈ grants, ∀ w ∈ holders ++ waiters, g.resolve ≠ w.resolve := by
    have hnodup : ((grants ++ (holders ++ waiters)).map (·.resolve)).Nodup := by
      refine (List.Perm.nodup_iff (List.Perm.map _ ?_)).mp h.nodup
      exact (List.append_assoc holders grants waiters ▸ (List.perm_append_comm.append_right waiters)).trans
        (by rw [List.append_assoc])
    rw [List.map_append, List.nodup_append] at hnodup
    exact fun g hg w hw => hnodup.2.2 _ (List.mem_map_of_mem hg) _ (List.mem_map_of_mem hw)
  have hwaits : ∀ g ∈ grants, ∃ projectId, role g.resolve = some ⟨projectId, project, g.mode, false⟩ :=
    fun g hg => (h.waiter g).mp (List.mem_append_left _ hg)
  refine ⟨by rw [List.append_assoc]; exact h.nodup, fun w => ?_, fun w => ?_⟩
  · by_cases hany : ∃ g ∈ grants, g.resolve = w.resolve
    · obtain ⟨g, hg, hgw⟩ := hany
      obtain ⟨projectId, hrole⟩ := hwaits g hg
      rw [← hgw, grant_of_mem hg, hrole, List.mem_append]
      simp only [Option.map_some, Option.some.injEq, ProjectRole.mk.injEq, true_and, and_true, exists_eq_left']
      constructor
      · rintro (hmem | hmem)
        · exact absurd hgw (hdisjoint g hg w (List.mem_append_left _ hmem))
        · obtain ⟨projectId', hrole'⟩ := hwaits w hmem
          rw [← hgw, hrole] at hrole'
          simpa using (congrArg (Option.map ProjectRole.mode) hrole')
      · intro hmode
        have : g = w := by cases g; cases w; simp_all
        exact Or.inr (this ▸ hg)
    · have hnot : ∀ g ∈ grants, g.resolve ≠ w.resolve := fun g hg heq => hany ⟨g, hg, heq⟩
      rw [grant_of_not_mem hnot, List.mem_append, ← h.holder w]
      exact or_iff_left fun hmem => hnot w hmem rfl
  · by_cases hany : ∃ g ∈ grants, g.resolve = w.resolve
    · obtain ⟨g, hg, hgw⟩ := hany
      obtain ⟨projectId, hrole⟩ := hwaits g hg
      rw [← hgw, grant_of_mem hg, hrole]
      simp only [Option.map_some, Option.some.injEq, ProjectRole.mk.injEq, Bool.true_eq_false, and_false,
        exists_false, iff_false]
      exact fun hmem => hdisjoint g hg w (List.mem_append_right _ hmem) hgw
    · have hnot : ∀ g ∈ grants, g.resolve ≠ w.resolve := fun g hg heq => hany ⟨g, hg, heq⟩
      rw [grant_of_not_mem hnot, ← h.waiter w, List.mem_append]
      exact (or_iff_right fun hmem => hnot w hmem rfl).symm

theorem grant_other (h : Roles role project holders waiters)
    (hgrants : ∀ g ∈ grants, ∃ projectId mode granted, role g.resolve = some ⟨projectId, other, mode, granted⟩)
    (hne : other ≠ project) : Roles (grant role grants) project holders waiters := by
  have key : ∀ (w : ProjectLockWaiter CallId) (granted : Bool),
      (∃ projectId, grant role grants w.resolve = some ⟨projectId, project, w.mode, granted⟩) ↔
        ∃ projectId, role w.resolve = some ⟨projectId, project, w.mode, granted⟩ := by
    intro w granted
    by_cases hany : ∃ g ∈ grants, g.resolve = w.resolve
    · obtain ⟨g, hg, hgw⟩ := hany
      obtain ⟨projectId, mode, granted', hrole⟩ := hgrants g hg
      rw [← hgw, grant_of_mem hg, hrole]
      simp [hne]
    · rw [grant_of_not_mem fun g hg heq => hany ⟨g, hg, heq⟩]
  exact ⟨h.nodup, fun w => (h.holder w).trans (key w true).symm, fun w => (h.waiter w).trans (key w false).symm⟩

/-- A holder leaves. -/
theorem erase (h : Roles role project holders waiters) {w : ProjectLockWaiter CallId} (hw : w ∈ holders) :
    Roles (Function.update role w.resolve none) project (holders.erase w) waiters := by
  have hnodup : holders.Nodup := (List.nodup_append.mp (List.map_append ▸ h.nodup)).1.of_map
  have hunique : ∀ v ∈ holders ++ waiters, v.resolve = w.resolve → v = w := fun v hv heq =>
    List.inj_on_of_nodup_map h.nodup hv (List.mem_append_left _ hw) heq
  refine ⟨(h.nodup).sublist ?_, fun v => ?_, fun v => ?_⟩
  · exact List.Sublist.map _ (List.Sublist.append List.erase_sublist (List.Sublist.refl _))
  · rw [hnodup.mem_erase_iff]
    by_cases hv : v.resolve = w.resolve
    · rw [hv, Function.update_self]
      simp only [reduceCtorEq, exists_false, iff_false, not_and]
      exact fun hvw hmem => hvw (hunique v (List.mem_append_left _ hmem) hv)
    · rw [Function.update_of_ne hv, ← h.holder v]
      exact and_iff_right fun heq => hv (heq ▸ rfl)
  · by_cases hv : v.resolve = w.resolve
    · rw [hv, Function.update_self]
      simp only [reduceCtorEq, exists_false, iff_false]
      intro hmem
      have heq := hunique v (List.mem_append_right _ hmem) hv
      have hdisjoint := (List.nodup_append.mp (List.map_append ▸ h.nodup)).2.2
      exact hdisjoint _ (List.mem_map_of_mem hw) _ (List.mem_map_of_mem hmem) hv.symm
    · rw [Function.update_of_ne hv]
      exact h.waiter v

end Roles

namespace ProjectResourceCoordinator

def role (s : ProjectResourceCoordinator) (id : CallId) : Option ProjectRole :=
  (s.calls id).bind CoordinatorCall.role

theorem role_setCall (s : ProjectResourceCoordinator) (id : CallId) (call : CoordinatorCall) :
    (s.setCall id call).role = Function.update s.role id call.role := by
  funext other
  by_cases h : other = id
  · subst h; simp [role, setCall]
  · simp [role, setCall, Function.update_of_ne h]

theorem role_resolve (s : ProjectResourceCoordinator) (grants : List (ProjectLockWaiter CallId)) :
    (s.resolve grants).role = Roles.grant s.role grants := by
  funext id
  simp only [role, resolve, Roles.grant]
  split
  · cases hcall : s.calls id with
    | none => rfl
    | some call =>
        obtain ⟨projectId, resourceKey, project, previous, phase⟩ := call
        cases phase <;> rfl
  · rfl

/-- Replacing a call by one with the same role changes nothing for the project locks. -/
theorem role_setCall_same {s : ProjectResourceCoordinator} {id : CallId} {old new : CoordinatorCall}
    (hold : s.calls id = some old) (hrole : new.role = old.role) : (s.setCall id new).role = s.role := by
  rw [role_setCall, hrole]
  refine Function.update_eq_self_iff.mpr ?_
  rw [role, hold]
  rfl

/-- Calls of one project share one coordinator object, and each object's holders and queue are the
calls that use it. -/
structure ProjectInv (s : ProjectResourceCoordinator) : Prop where
  live : ∀ id r, s.role id = some r → s.projects r.projectId = some r.project
  injective : ∀ p q o, s.projects p = some o → s.projects q = some o → p = q
  created : ∀ p o, s.projects p = some o → o < s.created
  roles : ∀ o, ∃ holders, Held (s.coordinators o) holders ∧
    Roles s.role o holders (s.coordinators o).waiters

theorem projectInv_initial : initial.ProjectInv where
  live id r h := by simp [role, initial] at h
  injective p q o h := by simp [initial] at h
  created p o h := by simp [initial] at h
  roles o := ⟨[], held_new, Roles.none_of_no_role fun id r h => by simp [role, initial] at h⟩

theorem ProjectInv.congr {s t : ProjectResourceCoordinator} (h : s.ProjectInv)
    (hprojects : t.projects = s.projects) (hcreated : t.created = s.created)
    (hcoordinators : t.coordinators = s.coordinators) (hrole : t.role = s.role) : t.ProjectInv where
  live := by rw [hrole, hprojects]; exact h.live
  injective := by rw [hprojects]; exact h.injective
  created := by rw [hprojects, hcreated]; exact h.created
  roles := by rw [hrole, hcoordinators]; exact h.roles

theorem ProjectInv.no_role_of_created_le {s : ProjectResourceCoordinator} (h : s.ProjectInv) {o : ObjectId}
    (ho : s.created ≤ o) : ∀ id r, s.role id = some r → r.project ≠ o := by
  rintro id r hrole rfl
  exact Nat.not_lt.mpr ho (h.created _ _ (h.live id r hrole))

/-- `getProject` returns the object the map holds from then on. -/
theorem ProjectInv.getProject {s : ProjectResourceCoordinator} (h : s.ProjectInv) (projectId : ProjectId) :
    (s.getProject projectId).2.ProjectInv ∧
      (s.getProject projectId).2.projects projectId = some (s.getProject projectId).1 ∧
      (s.getProject projectId).2.calls = s.calls := by
  cases hp : s.projects projectId with
  | some project => simp only [ProjectResourceCoordinator.getProject, hp, and_self, and_true]; exact h
  | none =>
      simp only [ProjectResourceCoordinator.getProject, hp, Function.update_self, and_true]
      refine ⟨fun id r hrole => ?_, fun p q o => ?_, fun p o => ?_, fun o => ?_⟩
      · have hlive := h.live id r hrole
        have hne : r.projectId ≠ projectId := by rintro heq; rw [heq, hp] at hlive; contradiction
        exact (Function.update_of_ne hne _ _).trans hlive
      · simp only [Function.update_apply]
        split <;> split
        · rintro - -; simp_all
        · rintro ho hq; exact absurd (h.created _ _ hq) (by simp_all)
        · rintro hq ho; exact absurd (h.created _ _ hq) (by simp_all)
        · exact h.injective p q o
      · simp only [Function.update_apply]
        split
        · rintro ho; simp_all
        · intro ho; exact (h.created p o ho).trans (Nat.lt_succ_self _)
      · change ∃ holders, Held (Function.update s.coordinators s.created new o) holders ∧
          Roles s.role o holders (Function.update s.coordinators s.created new o).waiters
        by_cases ho : o = s.created
        · subst ho
          rw [Function.update_self]
          exact ⟨[], held_new, Roles.none_of_no_role (h.no_role_of_created_le le_rfl)⟩
        · rw [Function.update_of_ne ho]
          exact h.roles o

/-- An operation on one coordinator object whose roles, before the promises are resolved, are
`holders` and the grants followed by the new queue. -/
theorem projectInv_withCoordinator {s : ProjectResourceCoordinator} {project : ObjectId}
    {result : ProjectCoordinator CallId × List (ProjectLockWaiter CallId)}
    (holders : List (ProjectLockWaiter CallId))
    (hlive : ∀ id r, s.role id = some r → s.projects r.projectId = some r.project)
    (hinjective : ∀ p q o, s.projects p = some o → s.projects q = some o → p = q)
    (hcreated : ∀ p o, s.projects p = some o → o < s.created)
    (hheld : Held result.1 (holders ++ result.2))
    (hroles : Roles s.role project holders (result.2 ++ result.1.waiters))
    (hothers : ∀ o, o ≠ project → ∃ holders, Held (s.coordinators o) holders ∧
      Roles s.role o holders (s.coordinators o).waiters) :
    (s.withCoordinator project result).ProjectInv where
  live id r := by
    intro hrole
    change (resolve _ _).role id = some r at hrole
    rw [role_resolve] at hrole
    change Roles.grant s.role result.2 id = some r at hrole
    rw [Roles.grant] at hrole
    split at hrole
    · obtain ⟨r', hr', rfl⟩ := Option.map_eq_some_iff.mp hrole
      exact hlive id r' hr'
    · exact hlive id r hrole
  injective := hinjective
  created := hcreated
  roles o := by
    have hrole : (s.withCoordinator project result).role = Roles.grant s.role result.2 := by
      rw [withCoordinator, role_resolve]
      rfl
    rw [hrole]
    change ∃ holders, Held (Function.update s.coordinators project result.1 o) holders ∧
      Roles _ o holders (Function.update s.coordinators project result.1 o).waiters
    by_cases ho : o = project
    · subst ho
      rw [Function.update_self]
      exact ⟨_, hheld, hroles.grant_self⟩
    · rw [Function.update_of_ne ho]
      obtain ⟨others, hheld', hroles'⟩ := hothers o ho
      refine ⟨others, hheld', hroles'.grant_other (fun g hg => ?_) (Ne.symm ho)⟩
      obtain ⟨projectId, hrole⟩ := (hroles.waiter g).mp (List.mem_append_left _ hg)
      exact ⟨projectId, g.mode, false, hrole⟩

theorem ProjectInv.start {s t : ProjectResourceCoordinator} (h : s.ProjectInv) {id : CallId}
    {projectId : ProjectId} {resourceKey : Option String}
    (hstep : s.start id projectId resourceKey = some t) : t.ProjectInv := by
  rw [ProjectResourceCoordinator.start] at hstep
  split at hstep
  · contradiction
  · rename_i hfresh
    obtain ⟨hinv, hproject, hcalls⟩ := h.getProject projectId
    generalize hget : s.getProject projectId = got at hinv hproject hcalls hstep
    obtain ⟨project, s'⟩ := got
    simp only [Option.some.injEq] at hstep hinv hproject hcalls
    subst hstep
    have hnone : s'.role id = none := by
      rw [role, hcalls, Option.not_isSome_iff_eq_none.mp hfresh]
      rfl
    set call : CoordinatorCall := ⟨projectId, resourceKey, project, none, .awaitingProject⟩ with hcall
    have hrole : (s'.setCall id call).role =
        Function.update s'.role id (some ⟨projectId, project, call.mode, false⟩) := role_setCall _ _ _
    obtain ⟨holders, hheld, hroles⟩ := hinv.roles project
    obtain ⟨hheld', hmoved⟩ := hheld.acquire call.mode id
    refine projectInv_withCoordinator holders ?_ hinv.injective hinv.created hheld' ?_ ?_
    · intro other r hother
      rw [hrole, Function.update_apply] at hother
      split at hother
      · cases hother; exact hproject
      · exact hinv.live other r hother
    · rw [hrole, hmoved]
      exact hroles.request hnone projectId call.mode
    · intro o ho
      obtain ⟨others, hheldOther, hrolesOther⟩ := hinv.roles o
      refine ⟨others, hheldOther, ?_⟩
      rw [hrole]
      refine hrolesOther.update_other id _ (by simp [hnone]) ?_
      rintro r hr
      cases hr
      exact Ne.symm ho

theorem ProjectInv.releaseProjectIfIdle {s : ProjectResourceCoordinator} (h : s.ProjectInv)
    (projectId : ProjectId) (project : ObjectId) : (s.releaseProjectIfIdle projectId project).ProjectInv := by
  rw [ProjectResourceCoordinator.releaseProjectIfIdle]
  split
  · rename_i hidle
    simp only [Bool.and_eq_true, beq_iff_eq] at hidle
    obtain ⟨hidle, hproject⟩ := hidle
    obtain ⟨holders, hheld, hroles⟩ := h.roles project
    obtain ⟨rfl, hnone⟩ := hheld.isIdle_iff.mp hidle
    rw [hnone] at hroles
    have hnorole : ∀ id r, s.role id = some r → r.project ≠ project := by
      rintro id ⟨p, o, mode, granted⟩ hrole rfl
      cases granted with
      | true => simpa using (hroles.holder ⟨mode, id⟩).mpr ⟨p, hrole⟩
      | false => simpa using (hroles.waiter ⟨mode, id⟩).mpr ⟨p, hrole⟩
    refine ⟨fun id r hrole => ?_, fun p q o => ?_, fun p o => ?_, h.roles⟩
    · have hlive := h.live id r hrole
      have hne : r.projectId ≠ projectId := by
        rintro heq
        rw [heq, hproject] at hlive
        exact hnorole id r hrole (Option.some.inj hlive).symm
      exact (Function.update_of_ne hne _ _).trans hlive
    · simp only [Function.update_apply]
      split <;> split <;> simp_all
      exact h.injective p q o
    · simp only [Function.update_apply]
      split
      · simp
      · exact h.created p o
  · exact h

theorem ProjectInv.leave {s t : ProjectResourceCoordinator} (h : s.ProjectInv) {id : CallId}
    (hstep : s.leave id = some t) : t.ProjectInv := by
  obtain ⟨call, hcall, rfl⟩ := Option.map_eq_some_iff.mp hstep
  rw [inPhase_eq_some] at hcall
  obtain ⟨hcall, hphase⟩ := hcall
  have hid : s.role id = some ⟨call.projectId, call.project, call.mode, true⟩ := by
    rw [role, hcall, Option.bind_some, CoordinatorCall.role, hphase]
  have hrole : (s.setCall id { call with phase := .finished }).role = Function.update s.role id none :=
    role_setCall _ _ _
  obtain ⟨holders, hheld, hroles⟩ := h.roles call.project
  have hmem : (⟨call.mode, id⟩ : ProjectLockWaiter CallId) ∈ holders := (hroles.holder _).mpr ⟨_, hid⟩
  obtain ⟨hheld', hmoved⟩ := hheld.release hmem
  refine ProjectInv.releaseProjectIfIdle ?_ _ _
  refine projectInv_withCoordinator (holders.erase ⟨call.mode, id⟩) ?_ h.injective h.created
    hheld' ?_ ?_
  · intro other r hother
    rw [hrole, Function.update_apply] at hother
    split at hother
    · contradiction
    · exact h.live other r hother
  · rw [hrole, hmoved]
    exact hroles.erase hmem
  · intro o ho
    obtain ⟨others, hheldOther, hrolesOther⟩ := h.roles o
    refine ⟨others, hheldOther, ?_⟩
    rw [hrole]
    refine hrolesOther.update_other id none ?_ (by simp)
    rintro r hr
    rw [hid] at hr
    cases hr
    exact Ne.symm ho

theorem projectInv_preserved : Runs.Preserved step ProjectInv := by
  intro s label t h hstep
  cases label with
  | start id projectId resourceKey => exact h.start hstep
  | enterProject id =>
      obtain ⟨call, hcall, rfl⟩ := Option.map_eq_some_iff.mp hstep
      rw [inPhase_eq_some] at hcall
      obtain ⟨hcall, hphase⟩ := hcall
      obtain ⟨projectId, resourceKey, project, previous, phase⟩ := call
      obtain rfl : phase = .projectGranted := hphase
      cases resourceKey with
      | none => exact h.congr rfl rfl rfl (role_setCall_same hcall rfl)
      | some resourceKey => exact h.congr rfl rfl rfl (role_setCall_same hcall rfl)
  | enterKey id =>
      obtain ⟨⟨projectId, resourceKey, project, previous, phase⟩, hcall, hphase, -, rfl⟩ :=
        enterKey_eq_some.mp hstep
      obtain rfl : phase = .awaitingKey := hphase
      exact h.congr rfl rfl rfl (role_setCall_same hcall rfl)
  | settleBody id =>
      obtain ⟨call, hcall, rfl⟩ := Option.map_eq_some_iff.mp hstep
      rw [inPhase_eq_some] at hcall
      obtain ⟨hcall, hphase⟩ := hcall
      obtain ⟨projectId, resourceKey, project, previous, phase⟩ := call
      obtain rfl : phase = .running := hphase
      have hrole : (s.setCall id ⟨projectId, resourceKey, project, previous, .leaving⟩).role = s.role :=
        role_setCall_same hcall rfl
      cases resourceKey with
      | none => exact h.congr rfl rfl rfl hrole
      | some resourceKey =>
          dsimp only [releaseKey]
          split <;> exact h.congr rfl rfl rfl hrole
  | leave id => exact h.leave hstep
  | settleTail id =>
      obtain ⟨call, -, -, -, rfl⟩ := settleTail_eq_some.mp hstep
      exact h.congr rfl rfl rfl rfl

end ProjectResourceCoordinator

/-! ### Claims on a resource key -/

/-- A call between `KeyedCoordinator.acquire` and its release: the tail it found, and whether its
body has started. -/
structure KeyClaim where
  key : String
  previous : Option CallId
  running : Bool

def CoordinatorCall.keyClaim (call : CoordinatorCall) : Option KeyClaim :=
  match call.resourceKey, call.phase with
  | some resourceKey, .awaitingKey => some ⟨resourceCoordinatorKey resourceKey, call.previous, false⟩
  | some resourceKey, .running => some ⟨resourceCoordinatorKey resourceKey, call.previous, true⟩
  | _, _ => none

/-- The claims on `key`, oldest first: each awaits its predecessor, only the first may run, and the
map holds the last. -/
structure Queue (claim : CallId → Option KeyClaim) (tail : Option CallId) (key : String)
    (queue : List CallId) : Prop where
  nodup : queue.Nodup
  tail_eq : tail = queue.getLast?
  mem : ∀ id, id ∈ queue ↔ ∃ c, claim id = some c ∧ c.key = key
  chain : queue.IsChain fun a b => ∃ c, claim b = some c ∧ c.previous = some a
  running : ∀ id c, id ∈ queue → claim id = some c → c.running = true → queue.head? = some id

namespace Queue

variable {claim : CallId → Option KeyClaim} {tail : Option CallId} {key : String} {queue : List CallId}
  {id : CallId}

theorem empty (key : String) : Queue (fun _ => none) none key [] where
  nodup := List.nodup_nil
  tail_eq := rfl
  mem := by simp
  chain := .nil
  running := by simp

private theorem chain_update (hid : id ∉ queue) (new : Option KeyClaim)
    (h : queue.IsChain fun a b => ∃ c, claim b = some c ∧ c.previous = some a) :
    queue.IsChain fun a b => ∃ c, Function.update claim id new b = some c ∧ c.previous = some a := by
  refine h.imp_of_mem_imp fun a b _ hb hab => ?_
  have hne : b ≠ id := by rintro rfl; exact hid hb
  rwa [Function.update_of_ne hne]

/-- A change of a claim that is not, before or after, on this key. -/
theorem update_other (h : Queue claim tail key queue) (new : Option KeyClaim)
    (hold : ∀ c, claim id = some c → c.key ≠ key) (hnew : ∀ c, new = some c → c.key ≠ key) :
    Queue (Function.update claim id new) tail key queue := by
  have hid : id ∉ queue := fun hmem => by
    obtain ⟨c, hc, hkey⟩ := (h.mem id).mp hmem
    exact hold c hc hkey
  refine ⟨h.nodup, h.tail_eq, fun other => ?_, chain_update hid new h.chain, fun other c hmem hc => ?_⟩
  · by_cases heq : other = id
    · subst heq
      rw [Function.update_self]
      exact ⟨fun hmem => absurd hmem hid, fun ⟨c, hc, hkey⟩ => absurd hkey (hnew c hc)⟩
    · rw [Function.update_of_ne heq]
      exact h.mem other
  · have hne : other ≠ id := by rintro rfl; exact hid hmem
    rw [Function.update_of_ne hne] at hc
    exact h.running other c hmem hc

/-- A call joins the queue behind the tail it found. -/
theorem enter (h : Queue claim tail key queue) (hfresh : claim id = none) :
    Queue (Function.update claim id (some ⟨key, tail, false⟩)) (some id) key (queue ++ [id]) := by
  have hid : id ∉ queue := fun hmem => by
    obtain ⟨c, hc, -⟩ := (h.mem id).mp hmem
    rw [hfresh] at hc
    contradiction
  refine ⟨?_, by simp, fun other => ?_, ?_, fun other c hmem hc hrun => ?_⟩
  · exact List.nodup_append.mpr ⟨h.nodup, by simp, by rintro a ha b hb rfl; simp_all⟩
  · rw [List.mem_append, List.mem_singleton]
    by_cases heq : other = id
    · subst heq
      simp
    · rw [Function.update_of_ne heq, or_iff_left heq]
      exact h.mem other
  · refine (chain_update hid _ h.chain).append (by simp) ?_
    intro a ha b hb
    obtain rfl : id = b := by simpa using hb
    refine ⟨_, Function.update_self .., ?_⟩
    rw [h.tail_eq]
    exact ha
  · by_cases heq : other = id
    · subst heq
      rw [Function.update_self] at hc
      cases hc
      contradiction
    · rw [Function.update_of_ne heq] at hc
      have hold : other ∈ queue := by simpa [heq] using hmem
      rw [List.head?_append_of_ne_nil _ (List.ne_nil_of_mem hold)]
      exact h.running other c hold hc hrun

/-- Whoever awaits nothing that still holds the key is at the head of the queue. -/
theorem head_of_previous_free (h : Queue claim tail key queue) {c : KeyClaim} (hc : claim id = some c)
    (hkey : c.key = key) (hfree : ∀ p, c.previous = some p → p ∉ queue) : queue.head? = some id := by
  obtain ⟨before, after, hsplit⟩ := List.append_of_mem ((h.mem id).mpr ⟨c, hc, hkey⟩)
  rcases List.eq_nil_or_concat before with rfl | ⟨before', p, rfl⟩
  · rw [hsplit]; rfl
  · exfalso
    have hchain := h.chain
    rw [hsplit, List.concat_eq_append, List.append_assoc, List.singleton_append] at hchain
    obtain ⟨c', hc', hprevious⟩ := (List.isChain_append_cons_cons.mp hchain).2.1
    rw [hc] at hc'
    cases hc'
    exact hfree p hprevious (by rw [hsplit]; simp)

/-- The head of the queue starts its body. -/
theorem run (h : Queue claim tail key queue) {c : KeyClaim} (hc : claim id = some c)
    (hhead : queue.head? = some id) :
    Queue (Function.update claim id (some { c with running := true })) tail key queue := by
  refine ⟨h.nodup, h.tail_eq, fun other => ?_, ?_, fun other c' hmem hc' hrun => ?_⟩
  · rw [h.mem]
    by_cases heq : other = id
    · subst heq
      simp [hc]
    · rw [Function.update_of_ne heq]
  · refine h.chain.imp fun a b ⟨c', hc', hprevious⟩ => ?_
    by_cases heq : b = id
    · subst heq
      rw [hc] at hc'
      cases hc'
      exact ⟨_, Function.update_self .., hprevious⟩
    · exact ⟨c', by rw [Function.update_of_ne heq]; exact hc', hprevious⟩
  · by_cases heq : other = id
    · rw [heq]
      exact hhead
    · rw [Function.update_of_ne heq] at hc'
      exact h.running other c' hmem hc' hrun

/-- The running call releases the key and forgets the tail if nobody queued behind it. -/
theorem release (h : Queue claim tail key queue) {c : KeyClaim} (hc : claim id = some c) (hkey : c.key = key)
    (hrun : c.running = true) :
    Queue (Function.update claim id none) (if tail = some id then none else tail) key queue.tail := by
  have hhead := h.running id c ((h.mem id).mpr ⟨c, hc, hkey⟩) hc hrun
  obtain ⟨rest, rfl⟩ : ∃ rest, queue = id :: rest := by
    cases queue with
    | nil => contradiction
    | cons first rest => cases hhead; exact ⟨rest, rfl⟩
  obtain ⟨hid, hnodup⟩ := List.nodup_cons.mp h.nodup
  rw [List.tail_cons]
  refine ⟨hnodup, ?_, fun other => ?_, chain_update hid none h.chain.tail, fun other c' hmem hc' hrun' => ?_⟩
  · rw [h.tail_eq]
    cases rest with
    | nil => simp
    | cons second rest =>
        rw [List.getLast?_cons_cons, if_neg]
        exact fun heq => hid (List.mem_of_getLast? heq)
  · by_cases heq : other = id
    · subst heq
      simp [hid]
    · rw [Function.update_of_ne heq, ← h.mem other, List.mem_cons, or_iff_right heq]
  · have hne : other ≠ id := fun heq => hid (heq ▸ hmem)
    rw [Function.update_of_ne hne] at hc'
    have := h.running other c' (List.mem_cons_of_mem _ hmem) hc' hrun'
    exact absurd (Option.some.inj this).symm hne

end Queue

namespace ProjectResourceCoordinator

def keyClaim (s : ProjectResourceCoordinator) (id : CallId) : Option KeyClaim :=
  (s.calls id).bind CoordinatorCall.keyClaim

theorem keyClaim_setCall (s : ProjectResourceCoordinator) (id : CallId) (call : CoordinatorCall) :
    (s.setCall id call).keyClaim = Function.update s.keyClaim id call.keyClaim := by
  funext other
  by_cases h : other = id
  · subst h; simp [keyClaim, setCall]
  · simp [keyClaim, setCall, Function.update_of_ne h]

theorem keyClaim_resolve (s : ProjectResourceCoordinator) (grants : List (ProjectLockWaiter CallId)) :
    (s.resolve grants).keyClaim = s.keyClaim := by
  funext id
  simp only [keyClaim, resolve]
  split
  · cases hcall : s.calls id with
    | none => rfl
    | some call =>
        obtain ⟨projectId, resourceKey, project, previous, phase⟩ := call
        cases phase <;> cases resourceKey <;> rfl
  · rfl

theorem keyClaim_releaseKey (s : ProjectResourceCoordinator) (id : CallId) (key : String) :
    (s.releaseKey id key).keyClaim = s.keyClaim := by
  rw [releaseKey]
  split <;> rfl

theorem tails_releaseKey_self (s : ProjectResourceCoordinator) (id : CallId) (key : String) :
    (s.releaseKey id key).tails key = if s.tails key = some id then none else s.tails key := by
  rw [releaseKey]
  split
  · exact Function.update_self ..
  · rfl

theorem tails_releaseKey_of_ne (s : ProjectResourceCoordinator) (id : CallId) {key other : String}
    (h : other ≠ key) : (s.releaseKey id key).tails other = s.tails other := by
  rw [releaseKey]
  split
  · exact Function.update_of_ne h _ _
  · rfl

/-- Every key's claims form a queue, and a resolved tail belongs to a call that has released its
key. -/
structure KeyInv (s : ProjectResourceCoordinator) : Prop where
  queue : ∀ key, ∃ queue, Queue s.keyClaim (s.tails key) key queue
  released : ∀ id, s.settled id = true → ∃ call, s.calls id = some call ∧
    (call.phase = .leaving ∨ call.phase = .finished)

theorem keyInv_initial : initial.KeyInv where
  queue key := ⟨[], by
    have : initial.keyClaim = fun _ => none := rfl
    rw [this]
    exact Queue.empty key⟩
  released id h := by simp [initial] at h

theorem KeyInv.keyClaim_of_settled {s : ProjectResourceCoordinator} (h : s.KeyInv) {id : CallId}
    (hsettled : s.settled id = true) : s.keyClaim id = none := by
  obtain ⟨⟨projectId, resourceKey, project, previous, phase⟩, hcall, hphase⟩ := h.released id hsettled
  rw [keyClaim, hcall]
  rcases hphase with hphase | hphase <;> obtain rfl := hphase <;> cases resourceKey <;> rfl

/-- A step that leaves claims, tails and resolved promises alone, and takes no released call back. -/
theorem KeyInv.congr {s t : ProjectResourceCoordinator} (h : s.KeyInv) (hclaim : t.keyClaim = s.keyClaim)
    (htails : t.tails = s.tails) (hsettled : t.settled = s.settled)
    (hreleased : ∀ id call, s.calls id = some call → (call.phase = .leaving ∨ call.phase = .finished) →
      ∃ call', t.calls id = some call' ∧ (call'.phase = .leaving ∨ call'.phase = .finished)) : t.KeyInv where
  queue := by rw [hclaim, htails]; exact h.queue
  released id hid := by
    rw [hsettled] at hid
    obtain ⟨call, hcall, hphase⟩ := h.released id hid
    exact hreleased id call hcall hphase

/-- The calls that are not released keep `released` when one of them is replaced. -/
theorem KeyInv.released_setCall {s : ProjectResourceCoordinator} (h : s.KeyInv) {id : CallId}
    {old : CoordinatorCall} (new : CoordinatorCall) (hold : s.calls id = some old)
    (hopen : old.phase ≠ .leaving ∧ old.phase ≠ .finished) :
    ∀ other, s.settled other = true → ∃ call, (s.setCall id new).calls other = some call ∧
      (call.phase = .leaving ∨ call.phase = .finished) := by
  intro other hother
  obtain ⟨call, hcall, hphase⟩ := h.released other hother
  have hne : other ≠ id := by
    rintro rfl
    rw [hold] at hcall
    cases hcall
    exact hphase.elim hopen.1 hopen.2
  exact ⟨call, (Function.update_of_ne hne _ _).trans hcall, hphase⟩

theorem resolve_released {s : ProjectResourceCoordinator} {grants : List (ProjectLockWaiter CallId)}
    {id : CallId} {call : CoordinatorCall} (hcall : s.calls id = some call)
    (hphase : call.phase = .leaving ∨ call.phase = .finished) : (s.resolve grants).calls id = some call := by
  have hne : call.phase ≠ .awaitingProject := by rintro heq; simp [heq] at hphase
  simp [resolve, hcall, hne]

theorem KeyInv.start {s t : ProjectResourceCoordinator} (h : s.KeyInv) {id : CallId} {projectId : ProjectId}
    {resourceKey : Option String} (hstep : s.start id projectId resourceKey = some t) : t.KeyInv := by
  rw [ProjectResourceCoordinator.start] at hstep
  split at hstep
  · contradiction
  · rename_i hfresh
    obtain ⟨hcalls, htails, hsettled⟩ : (s.getProject projectId).2.calls = s.calls ∧
        (s.getProject projectId).2.tails = s.tails ∧ (s.getProject projectId).2.settled = s.settled := by
      rw [getProject]
      split <;> exact ⟨rfl, rfl, rfl⟩
    generalize hget : s.getProject projectId = got at hcalls htails hsettled hstep
    obtain ⟨project, s'⟩ := got
    simp only [Option.some.injEq] at hstep hcalls htails hsettled
    subst hstep
    have hnone : s.calls id = none := Option.not_isSome_iff_eq_none.mp hfresh
    refine h.congr ?_ htails hsettled fun other call hcall hphase => ?_
    · rw [withCoordinator, keyClaim_resolve]
      change (s'.setCall id _).keyClaim = s.keyClaim
      have hsame : s'.keyClaim = s.keyClaim := by funext i; rw [keyClaim, hcalls]; rfl
      rw [keyClaim_setCall, hsame, Function.update_eq_self_iff, keyClaim, hnone]
      cases resourceKey <;> rfl
    · have hne : other ≠ id := by rintro rfl; rw [hnone] at hcall; contradiction
      refine ⟨call, resolve_released ?_ hphase, hphase⟩
      change (s'.setCall id _).calls other = some call
      rw [setCall, hcalls]
      exact (Function.update_of_ne hne _ _).trans hcall

theorem KeyInv.enterProject {s t : ProjectResourceCoordinator} (h : s.KeyInv) {id : CallId}
    (hstep : s.enterProject id = some t) : t.KeyInv := by
  obtain ⟨call, hcall, rfl⟩ := Option.map_eq_some_iff.mp hstep
  rw [inPhase_eq_some] at hcall
  obtain ⟨hcall, hphase⟩ := hcall
  obtain ⟨projectId, resourceKey, project, previous, phase⟩ := call
  obtain rfl : phase = .projectGranted := hphase
  have hnone : s.keyClaim id = none := by rw [keyClaim, hcall]; cases resourceKey <;> rfl
  cases resourceKey with
  | none =>
      refine ⟨fun key => ?_, h.released_setCall _ hcall (by simp)⟩
      rw [keyClaim_setCall]
      obtain ⟨queue, hqueue⟩ := h.queue key
      exact ⟨queue, hqueue.update_other _ (by simp [hnone]) (by simp [CoordinatorCall.keyClaim])⟩
  | some resourceKey =>
      refine ⟨fun key => ?_, h.released_setCall _ hcall (by simp)⟩
      obtain ⟨queue, hqueue⟩ := h.queue key
      change ∃ queue, Queue (s.setCall id _).keyClaim
        (Function.update s.tails (resourceCoordinatorKey resourceKey) (some id) key) key queue
      rw [keyClaim_setCall]
      by_cases hkey : key = resourceCoordinatorKey resourceKey
      · subst hkey
        rw [Function.update_self]
        exact ⟨_, hqueue.enter hnone⟩
      · rw [Function.update_of_ne hkey]
        refine ⟨queue, hqueue.update_other _ (by simp [hnone]) ?_⟩
        rintro c hc
        cases hc
        exact Ne.symm hkey

theorem KeyInv.enterKey {s t : ProjectResourceCoordinator} (h : s.KeyInv) {id : CallId}
    (hstep : s.enterKey id = some t) : t.KeyInv := by
  obtain ⟨⟨projectId, resourceKey, project, previous, phase⟩, hcall, hphase, hsettled, rfl⟩ :=
    enterKey_eq_some.mp hstep
  obtain rfl : phase = .awaitingKey := hphase
  refine ⟨fun key => ?_, h.released_setCall _ hcall (by simp)⟩
  obtain ⟨queue, hqueue⟩ := h.queue key
  rw [keyClaim_setCall]
  cases resourceKey with
  | none => exact ⟨queue, hqueue.update_other _ (by simp [keyClaim, hcall, CoordinatorCall.keyClaim])
      (by simp [CoordinatorCall.keyClaim])⟩
  | some resourceKey =>
      have hclaim : s.keyClaim id = some ⟨resourceCoordinatorKey resourceKey, previous, false⟩ := by
        rw [keyClaim, hcall]
        rfl
      by_cases hkey : resourceCoordinatorKey resourceKey = key
      · refine ⟨queue, hqueue.run hclaim (hqueue.head_of_previous_free hclaim hkey ?_)⟩
        rintro p hp hmem
        obtain ⟨c, hc, -⟩ := (hqueue.mem p).mp hmem
        obtain rfl : previous = some p := hp
        rw [h.keyClaim_of_settled hsettled] at hc
        contradiction
      · refine ⟨queue, hqueue.update_other _ ?_ ?_⟩
        · rintro c hc; rw [hclaim] at hc; cases hc; exact hkey
        · rintro c hc; cases hc; exact hkey

theorem KeyInv.settleBody {s t : ProjectResourceCoordinator} (h : s.KeyInv) {id : CallId}
    (hstep : s.settleBody id = some t) : t.KeyInv := by
  obtain ⟨call, hcall, rfl⟩ := Option.map_eq_some_iff.mp hstep
  rw [inPhase_eq_some] at hcall
  obtain ⟨hcall, hphase⟩ := hcall
  obtain ⟨projectId, resourceKey, project, previous, phase⟩ := call
  obtain rfl : phase = .running := hphase
  cases resourceKey with
  | none =>
      refine ⟨fun key => ?_, h.released_setCall _ hcall (by simp)⟩
      rw [keyClaim_setCall]
      obtain ⟨queue, hqueue⟩ := h.queue key
      exact ⟨queue, hqueue.update_other _ (by simp [keyClaim, hcall, CoordinatorCall.keyClaim])
        (by simp [CoordinatorCall.keyClaim])⟩
  | some resourceKey =>
      have hclaim : s.keyClaim id = some ⟨resourceCoordinatorKey resourceKey, previous, true⟩ := by
        rw [keyClaim, hcall]
        rfl
      refine ⟨fun key => ?_, ?_⟩
      · obtain ⟨queue, hqueue⟩ := h.queue key
        rw [keyClaim_releaseKey, keyClaim_setCall]
        by_cases hkey : key = resourceCoordinatorKey resourceKey
        · subst hkey
          rw [tails_releaseKey_self]
          exact ⟨_, hqueue.release hclaim rfl rfl⟩
        · rw [tails_releaseKey_of_ne _ _ hkey]
          refine ⟨queue, hqueue.update_other _ ?_ (by simp [CoordinatorCall.keyClaim])⟩
          rintro c hc
          rw [hclaim] at hc
          cases hc
          exact Ne.symm hkey
      · have hreleased := h.released_setCall ⟨projectId, some resourceKey, project, previous, .leaving⟩ hcall (by simp)
        dsimp only [releaseKey]
        split <;> exact hreleased

theorem KeyInv.leave {s t : ProjectResourceCoordinator} (h : s.KeyInv) {id : CallId}
    (hstep : s.leave id = some t) : t.KeyInv := by
  obtain ⟨call, hcall, rfl⟩ := Option.map_eq_some_iff.mp hstep
  rw [inPhase_eq_some] at hcall
  obtain ⟨hcall, hphase⟩ := hcall
  have hidle : ∀ u : ProjectResourceCoordinator, u.KeyInv →
      (u.releaseProjectIfIdle call.projectId call.project).KeyInv := by
    intro u hu
    rw [releaseProjectIfIdle]
    split
    · exact hu.congr rfl rfl rfl fun other call hcall hphase => ⟨call, hcall, hphase⟩
    · exact hu
  refine hidle _ (h.congr ?_ rfl rfl fun other call' hcall' hphase' => ?_)
  · rw [withCoordinator, keyClaim_resolve]
    change (s.setCall id _).keyClaim = s.keyClaim
    rw [keyClaim_setCall, Function.update_eq_self_iff, keyClaim, hcall]
    obtain ⟨projectId, resourceKey, project, previous, phase⟩ := call
    obtain rfl : phase = .leaving := hphase
    cases resourceKey <;> rfl
  · by_cases heq : other = id
    · subst heq
      exact ⟨_, resolve_released (Function.update_self ..) (Or.inr rfl), Or.inr rfl⟩
    · exact ⟨call', resolve_released ((Function.update_of_ne heq _ _).trans hcall') hphase', hphase'⟩

theorem keyInv_preserved : Runs.Preserved step KeyInv := by
  intro s label t h hstep
  cases label with
  | start id projectId resourceKey => exact h.start hstep
  | enterProject id => exact h.enterProject hstep
  | enterKey id => exact h.enterKey hstep
  | settleBody id => exact h.settleBody hstep
  | leave id => exact h.leave hstep
  | settleTail id =>
      obtain ⟨call, hcall, hreleased, -, rfl⟩ := settleTail_eq_some.mp hstep
      refine ⟨h.queue, fun other hother => ?_⟩
      change Function.update s.settled id true other = true at hother
      by_cases heq : other = id
      · subst heq
        refine ⟨call, hcall, ?_⟩
        simp only [hasReleasedKey, Bool.and_eq_true, Bool.or_eq_true, beq_iff_eq] at hreleased
        exact hreleased.2
      · rw [Function.update_of_ne heq] at hother
        exact h.released other hother

/-! ### Exclusion -/

structure Inv (s : ProjectResourceCoordinator) : Prop where
  project : s.ProjectInv
  key : s.KeyInv

theorem inv_initial : initial.Inv := ⟨projectInv_initial, keyInv_initial⟩

theorem inv_preserved : Runs.Preserved step Inv := fun _ _ _ h hstep =>
  ⟨projectInv_preserved h.project hstep, keyInv_preserved h.key hstep⟩

/-- Two bodies for one resource key do not overlap. -/
theorem Inv.key_exclusive {s : ProjectResourceCoordinator} (h : s.Inv) {id other : CallId}
    {call call' : CoordinatorCall} {resourceKey : String}
    (hcall : s.calls id = some call) (hcall' : s.calls other = some call')
    (hkey : call.resourceKey = some resourceKey) (hkey' : call'.resourceKey = some resourceKey)
    (hrun : call.phase = .running) (hrun' : call'.phase = .running) : id = other := by
  have hclaim : ∀ (i : CallId) (c : CoordinatorCall), s.calls i = some c → c.resourceKey = some resourceKey →
      c.phase = .running → s.keyClaim i = some ⟨resourceCoordinatorKey resourceKey, c.previous, true⟩ := by
    intro i c hc hk hp
    rw [keyClaim, hc, Option.bind_some, CoordinatorCall.keyClaim, hk, hp]
  obtain ⟨queue, hqueue⟩ := h.key.queue (resourceCoordinatorKey resourceKey)
  have hhead := hqueue.running id _ ((hqueue.mem id).mpr ⟨_, hclaim id call hcall hkey hrun, rfl⟩)
    (hclaim id call hcall hkey hrun) rfl
  have hhead' := hqueue.running other _ ((hqueue.mem other).mpr ⟨_, hclaim other call' hcall' hkey' hrun', rfl⟩)
    (hclaim other call' hcall' hkey' hrun') rfl
  exact Option.some.inj (hhead.symm.trans hhead')

/-- A call holds its project from the grant to the release. -/
def Holds (s : ProjectResourceCoordinator) (id : CallId) (projectId : ProjectId) (mode : ProjectLockMode) : Prop :=
  ∃ project, s.role id = some ⟨projectId, project, mode, true⟩

theorem holds_of_running {s : ProjectResourceCoordinator} {id : CallId} {call : CoordinatorCall}
    (hcall : s.calls id = some call) (hrun : call.phase = .running) : s.Holds id call.projectId call.mode :=
  ⟨call.project, by rw [role, hcall, Option.bind_some, CoordinatorCall.role, hrun]⟩

/-- Whoever holds a project exclusively holds it alone. -/
theorem Inv.project_exclusive {s : ProjectResourceCoordinator} (h : s.Inv) {id other : CallId}
    {projectId : ProjectId} {mode : ProjectLockMode} (hid : s.Holds id projectId .exclusive)
    (hother : s.Holds other projectId mode) : id = other := by
  obtain ⟨project, hrole⟩ := hid
  obtain ⟨project', hrole'⟩ := hother
  obtain rfl : project = project' :=
    Option.some.inj ((h.project.live id _ hrole).symm.trans (h.project.live other _ hrole'))
  obtain ⟨holders, hheld, hroles⟩ := h.project.roles project
  have hmem := (hroles.holder ⟨.exclusive, id⟩).mpr ⟨projectId, hrole⟩
  have hmem' := (hroles.holder ⟨mode, other⟩).mpr ⟨projectId, hrole'⟩
  rw [hheld.exclusive_alone hmem rfl, List.mem_singleton] at hmem'
  exact (congrArg ProjectLockWaiter.resolve hmem').symm

/-! ### Calls keep their arguments, and a body runs until it settles -/

/-- The second call continues the first, which settles only in `settleBody`. -/
structure Continues (call next : CoordinatorCall) (settles : Prop) : Prop where
  projectId : next.projectId = call.projectId
  resourceKey : next.resourceKey = call.resourceKey
  running : call.phase = .running → ¬settles → next.phase = .running

theorem Continues.refl (call : CoordinatorCall) (settles : Prop) : Continues call call settles := ⟨rfl, rfl, fun h _ => h⟩

theorem continues_setCall {s : ProjectResourceCoordinator} {id other : CallId} {call old new : CoordinatorCall}
    {settles : Prop} (hid : s.calls id = some old) (hcall : s.calls other = some call)
    (hnew : other = id → Continues old new settles) :
    ∃ next, (s.setCall id new).calls other = some next ∧ Continues call next settles := by
  by_cases heq : other = id
  · subst heq
    obtain rfl : old = call := Option.some.inj (hid.symm.trans hcall)
    exact ⟨new, Function.update_self .., hnew rfl⟩
  · exact ⟨call, (Function.update_of_ne heq ..).trans hcall, .refl call settles⟩

theorem continues_resolve {s : ProjectResourceCoordinator} {grants : List (ProjectLockWaiter CallId)} {id : CallId}
    {call next : CoordinatorCall} {settles : Prop} (hnext : s.calls id = some next) (h : Continues call next settles) :
    ∃ next', (s.resolve grants).calls id = some next' ∧ Continues call next' settles := by
  simp only [resolve]
  split
  · rw [hnext, Option.map_some]
    refine ⟨_, rfl, ?_⟩
    by_cases hwait : next.phase = .awaitingProject
    · rw [if_pos hwait]
      exact ⟨h.projectId, h.resourceKey, fun hrun hsettles => by simp [h.running hrun hsettles] at hwait⟩
    · rw [if_neg hwait]
      exact h
  · exact ⟨next, hnext, h⟩

theorem continues_of_step {s t : ProjectResourceCoordinator} {label : Label} (hstep : s.step label = some t)
    {id : CallId} {call : CoordinatorCall} (hcall : s.calls id = some call) :
    ∃ next, t.calls id = some next ∧ Continues call next (label = .settleBody id) := by
  cases label with
  | start other projectId resourceKey =>
      simp only [step, start] at hstep
      split at hstep
      · cases hstep
      · rename_i hnone
        have hne : id ≠ other := fun heq => hnone (by simp [← heq, hcall])
        have hcalls : (s.getProject projectId).2.calls = s.calls := by
          rw [getProject]
          split <;> rfl
        cases hstep
        refine continues_resolve ?_ (.refl call _)
        rw [← hcall, ← hcalls]
        exact Function.update_of_ne hne ..
  | enterProject other =>
      obtain ⟨old, hold, rfl⟩ := Option.map_eq_some_iff.mp hstep
      obtain ⟨hold, hphase⟩ := inPhase_eq_some.mp hold
      split
      · exact continues_setCall hold hcall fun _ => ⟨rfl, rfl, fun _ _ => rfl⟩
      · exact continues_setCall hold hcall fun _ => ⟨rfl, rfl, fun h => by simp [hphase] at h⟩
  | enterKey other =>
      obtain ⟨old, hold, -, -, rfl⟩ := enterKey_eq_some.mp hstep
      exact continues_setCall hold hcall fun _ => ⟨rfl, rfl, fun _ _ => rfl⟩
  | settleBody other =>
      obtain ⟨old, hold, rfl⟩ := Option.map_eq_some_iff.mp hstep
      obtain ⟨hold, -⟩ := inPhase_eq_some.mp hold
      have hcontinues : ∃ next, (s.setCall other { old with phase := .leaving }).calls id = some next ∧
          Continues call next (Label.settleBody other = .settleBody id) :=
        continues_setCall hold hcall fun heq => ⟨rfl, rfl, fun _ h => absurd (by rw [heq]) h⟩
      split
      · exact hcontinues
      · rw [releaseKey]
        split <;> exact hcontinues
  | leave other =>
      obtain ⟨old, hold, rfl⟩ := Option.map_eq_some_iff.mp hstep
      obtain ⟨hold, hphase⟩ := inPhase_eq_some.mp hold
      obtain ⟨next, hnext, hcontinues⟩ : ∃ next, (s.setCall other { old with phase := .finished }).calls id = some next ∧
          Continues call next (Label.leave other = .settleBody id) :=
        continues_setCall hold hcall fun _ => ⟨rfl, rfl, fun h => by simp [hphase] at h⟩
      rw [releaseProjectIfIdle]
      split <;> exact continues_resolve hnext hcontinues
  | settleTail other =>
      obtain ⟨old, hold, -, -, rfl⟩ := settleTail_eq_some.mp hstep
      exact ⟨call, hcall, .refl call _⟩

/-- A call that is started keeps what it was started with. -/
theorem exists_call_of_start {s t : ProjectResourceCoordinator} {id : CallId} {projectId : ProjectId}
    {resourceKey : Option String} (hstart : s.start id projectId resourceKey = some t) :
    s.calls id = none ∧ ∃ call, t.calls id = some call ∧ call.projectId = projectId ∧ call.resourceKey = resourceKey := by
  rw [start] at hstart
  split at hstart
  · cases hstart
  · rename_i hnone
    cases hstart
    refine ⟨by simpa using hnone, ?_⟩
    let call : CoordinatorCall := ⟨projectId, resourceKey, (s.getProject projectId).1, none, .awaitingProject⟩
    have hcall : ((s.getProject projectId).2.setCall id call).calls id = some call := Function.update_self ..
    obtain ⟨next, hnext, hcontinues⟩ := continues_resolve hcall (.refl call True)
    exact ⟨next, hnext, hcontinues.projectId, hcontinues.resourceKey⟩

end ProjectResourceCoordinator

end Transcendence.Realtime
