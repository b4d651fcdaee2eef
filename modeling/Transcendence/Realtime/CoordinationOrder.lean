import Transcendence.Realtime.CoordinationInvariant

/-!
# The order of the coordinated bodies

What `CoordinationInvariant` does not say about a run of `ProjectResourceCoordinator`: in which
order the bodies for one resource key start, that nobody waits once everybody else is done, and that
an idle coordinator forgets its projects and its tails.

The order is that of the `enterProject` steps, in which the calls come out of the project lock
(`entered`). `Ordered` says that a call awaits a tail made before its own, and that no body starts
before the bodies of the calls that entered earlier for its key have ended. Promise reactions run in
the order in which the promises are resolved, so for a program on one event loop this is also the
order of the grants (`granted`).
-/

namespace Transcendence.Realtime

/-- The call has come out of the project lock's await. -/
def CoordinatorCall.HasEntered (call : CoordinatorCall) : Prop :=
  call.phase ≠ .awaitingProject ∧ call.phase ≠ .projectGranted

/-- The call's body has started. -/
def CoordinatorCall.HasStarted (call : CoordinatorCall) : Prop :=
  call.phase = .running ∨ call.phase = .leaving ∨ call.phase = .finished

/-- The call's body has ended. -/
def CoordinatorCall.HasEnded (call : CoordinatorCall) : Prop :=
  call.phase = .leaving ∨ call.phase = .finished

theorem CoordinatorCall.HasStarted.hasEntered {call : CoordinatorCall} (h : call.HasStarted) : call.HasEntered := by
  rcases h with h | h | h <;> simp [HasEntered, h]

theorem CoordinatorCall.HasEnded.hasStarted {call : CoordinatorCall} (h : call.HasEnded) : call.HasStarted :=
  Or.inr h

namespace ProjectResourceCoordinator

/-! ### What a step does to one call -/

/-- The call `id` before and after a step. -/
inductive Moves (s : ProjectResourceCoordinator) (label : Label) (id : CallId) (call : CoordinatorCall) :
    CoordinatorCall → Prop where
  | stays : Moves s label id call call
  | granted (hphase : call.phase = .awaitingProject) :
      Moves s label id call { call with phase := .projectGranted }
  | starts (hlabel : label = .enterProject id) (hphase : call.phase = .projectGranted)
      (hkey : call.resourceKey = none) : Moves s label id call { call with phase := .running }
  | queues (resourceKey : String) (hlabel : label = .enterProject id) (hphase : call.phase = .projectGranted)
      (hkey : call.resourceKey = some resourceKey) :
      Moves s label id call
        { call with phase := .awaitingKey, previous := s.tails (resourceCoordinatorKey resourceKey) }
  | runs (hlabel : label = .enterKey id) (hphase : call.phase = .awaitingKey)
      (hfree : s.previousSettled call = true) : Moves s label id call { call with phase := .running }
  | settles (hlabel : label = .settleBody id) (hphase : call.phase = .running) :
      Moves s label id call { call with phase := .leaving }
  | leaves (hlabel : label = .leave id) (hphase : call.phase = .leaving) :
      Moves s label id call { call with phase := .finished }

theorem calls_setCall_eq_some {s : ProjectResourceCoordinator} {id other : CallId} {new next : CoordinatorCall}
    (h : (s.setCall id new).calls other = some next) :
    (other = id ∧ new = next) ∨ (other ≠ id ∧ s.calls other = some next) := by
  by_cases heq : other = id
  · subst heq
    exact Or.inl ⟨rfl, by simpa [setCall] using h⟩
  · exact Or.inr ⟨heq, (Function.update_of_ne heq ..).symm.trans h⟩

theorem calls_resolve_eq_some {s : ProjectResourceCoordinator} {grants : List (ProjectLockWaiter CallId)}
    {id : CallId} {next : CoordinatorCall} (h : (s.resolve grants).calls id = some next) :
    ∃ call, s.calls id = some call ∧
      (next = call ∨ (call.phase = .awaitingProject ∧ next = { call with phase := .projectGranted })) := by
  simp only [resolve] at h
  split at h
  · obtain ⟨call, hcall, rfl⟩ := Option.map_eq_some_iff.mp h
    refine ⟨call, hcall, ?_⟩
    split
    · rename_i hphase
      exact Or.inr ⟨hphase, rfl⟩
    · exact Or.inl rfl
  · exact ⟨next, h, Or.inl rfl⟩

/-- A step that replaces one call and moves no other. -/
private theorem moves_setCall {s : ProjectResourceCoordinator} {label : Label} {id other : CallId}
    {old new next : CoordinatorCall} (hold : s.calls id = some old) (hmove : Moves s label id old new)
    (h : (s.setCall id new).calls other = some next) :
    ∃ call, s.calls other = some call ∧ Moves s label other call next := by
  rcases calls_setCall_eq_some h with ⟨rfl, rfl⟩ | ⟨-, hcall⟩
  · exact ⟨old, hold, hmove⟩
  · exact ⟨next, hcall, .stays⟩

/-- Every call of the new state was there before and has moved, or the step has just started it. -/
theorem moves_of_step {s t : ProjectResourceCoordinator} {label : Label} (hstep : s.step label = some t)
    {id : CallId} {next : CoordinatorCall} (hnext : t.calls id = some next) :
    (∃ call, s.calls id = some call ∧ Moves s label id call next) ∨
      (s.calls id = none ∧ (∃ projectId resourceKey, label = .start id projectId resourceKey) ∧ next.previous = none ∧
        (next.phase = .awaitingProject ∨ next.phase = .projectGranted)) := by
  cases label with
  | start other projectId resourceKey =>
      simp only [step, start] at hstep
      split at hstep
      · cases hstep
      · rename_i hfresh
        have hcalls : (s.getProject projectId).2.calls = s.calls := by
          rw [getProject]
          split <;> rfl
        cases hstep
        obtain ⟨call, hcall, hmove⟩ := calls_resolve_eq_some hnext
        rcases calls_setCall_eq_some hcall with ⟨rfl, rfl⟩ | ⟨-, hcall⟩
        · refine Or.inr ⟨Option.not_isSome_iff_eq_none.mp hfresh, ⟨projectId, resourceKey, rfl⟩, ?_⟩
          rcases hmove with rfl | ⟨-, rfl⟩
          · exact ⟨rfl, Or.inl rfl⟩
          · exact ⟨rfl, Or.inr rfl⟩
        · rw [hcalls] at hcall
          rcases hmove with rfl | ⟨hphase, rfl⟩
          · exact Or.inl ⟨next, hcall, .stays⟩
          · exact Or.inl ⟨call, hcall, .granted hphase⟩
  | enterProject other =>
      obtain ⟨old, hold, rfl⟩ := Option.map_eq_some_iff.mp hstep
      obtain ⟨hold, hphase⟩ := inPhase_eq_some.mp hold
      left
      split at hnext <;> rename_i hkey
      · exact moves_setCall hold (.starts rfl hphase hkey) hnext
      · exact moves_setCall hold (.queues _ rfl hphase hkey) hnext
  | enterKey other =>
      obtain ⟨old, hold, hphase, hfree, rfl⟩ := enterKey_eq_some.mp hstep
      exact Or.inl (moves_setCall hold (.runs rfl hphase hfree) hnext)
  | settleBody other =>
      obtain ⟨old, hold, rfl⟩ := Option.map_eq_some_iff.mp hstep
      obtain ⟨hold, hphase⟩ := inPhase_eq_some.mp hold
      have hcalls : ∀ key, ((s.setCall other { old with phase := .leaving }).releaseKey other key).calls =
          (s.setCall other { old with phase := .leaving }).calls := by
        intro key
        rw [releaseKey]
        split <;> rfl
      left
      split at hnext
      · exact moves_setCall hold (.settles rfl hphase) hnext
      · rw [hcalls] at hnext
        exact moves_setCall hold (.settles rfl hphase) hnext
  | leave other =>
      obtain ⟨old, hold, rfl⟩ := Option.map_eq_some_iff.mp hstep
      obtain ⟨hold, hphase⟩ := inPhase_eq_some.mp hold
      rw [show ∀ u : ProjectResourceCoordinator, (u.releaseProjectIfIdle old.projectId old.project).calls = u.calls by
        intro u; rw [releaseProjectIfIdle]; split <;> rfl] at hnext
      obtain ⟨call, hcall, hmove⟩ := calls_resolve_eq_some hnext
      rcases calls_setCall_eq_some hcall with ⟨rfl, rfl⟩ | ⟨-, hcall⟩
      · rcases hmove with rfl | ⟨hwaits, -⟩
        · exact Or.inl ⟨old, hold, .leaves rfl hphase⟩
        · cases hwaits
      · rcases hmove with rfl | ⟨hwaits, rfl⟩
        · exact Or.inl ⟨next, hcall, .stays⟩
        · exact Or.inl ⟨call, hcall, .granted hwaits⟩
  | settleTail other =>
      obtain ⟨old, hold, -, -, rfl⟩ := settleTail_eq_some.mp hstep
      exact Or.inl ⟨next, hnext, .stays⟩

theorem exists_move_of_step {s t : ProjectResourceCoordinator} {label : Label} (hstep : s.step label = some t)
    {id : CallId} {call : CoordinatorCall} (hcall : s.calls id = some call) :
    ∃ next, t.calls id = some next ∧ Moves s label id call next := by
  obtain ⟨next, hnext, -⟩ := continues_of_step hstep hcall
  rcases moves_of_step hstep hnext with ⟨old, hold, hmove⟩ | ⟨hnone, -⟩
  · obtain rfl := Option.some.inj (hcall.symm.trans hold)
    exact ⟨next, hnext, hmove⟩
  · rw [hcall] at hnone
    cases hnone

namespace Moves

variable {s : ProjectResourceCoordinator} {label : Label} {id : CallId} {call next : CoordinatorCall}

theorem resourceKey_eq (h : Moves s label id call next) : next.resourceKey = call.resourceKey := by
  cases h <;> rfl

theorem hasEntered (h : Moves s label id call next) (hentered : call.HasEntered) : next.HasEntered := by
  cases h with
  | stays => exact hentered
  | granted hphase => exact absurd hphase hentered.1
  | _ => simp [CoordinatorCall.HasEntered]

theorem hasEnded (h : Moves s label id call next) (hended : call.HasEnded) : next.HasEnded := by
  cases h with
  | stays => exact hended
  | settles => exact Or.inl rfl
  | leaves => exact Or.inr rfl
  | granted hphase => exact absurd hended (by simp [CoordinatorCall.HasEnded, hphase])
  | starts _ hphase => exact absurd hended (by simp [CoordinatorCall.HasEnded, hphase])
  | queues _ _ hphase => exact absurd hended (by simp [CoordinatorCall.HasEnded, hphase])
  | runs _ hphase => exact absurd hended (by simp [CoordinatorCall.HasEnded, hphase])

/-- A call enters in its own `enterProject`. -/
theorem enters (h : Moves s label id call next) (hentered : next.HasEntered) :
    call.HasEntered ∨ label = .enterProject id := by
  cases h with
  | stays => exact Or.inl hentered
  | granted => exact absurd rfl hentered.2
  | starts hlabel => exact Or.inr hlabel
  | queues _ hlabel => exact Or.inr hlabel
  | runs _ hphase => exact Or.inl (by simp [CoordinatorCall.HasEntered, hphase])
  | settles _ hphase => exact Or.inl (by simp [CoordinatorCall.HasEntered, hphase])
  | leaves _ hphase => exact Or.inl (by simp [CoordinatorCall.HasEntered, hphase])

theorem keyed (h : Moves s label id call next) (hcall : call.phase = .awaitingKey → call.resourceKey ≠ none)
    (hnext : next.phase = .awaitingKey) : call.resourceKey ≠ none := by
  cases h with
  | stays => exact hcall hnext
  | queues resourceKey _ _ hkey => simp [hkey]
  | _ => cases hnext

/-- A body starts after the project lock if it needs no key, and else when the awaited tail is
resolved. -/
theorem begins (h : Moves s label id call next) (hstarted : next.HasStarted) :
    call.HasStarted ∨ call.resourceKey = none ∨
      (label = .enterKey id ∧ call.phase = .awaitingKey ∧ s.previousSettled call = true) := by
  cases h with
  | stays => exact Or.inl hstarted
  | granted => exact absurd hstarted (by simp [CoordinatorCall.HasStarted])
  | starts _ _ hkey => exact Or.inr (Or.inl hkey)
  | queues => exact absurd hstarted (by simp [CoordinatorCall.HasStarted])
  | runs hlabel hphase hfree => exact Or.inr (Or.inr ⟨hlabel, hphase, hfree⟩)
  | settles _ hphase => exact Or.inl (Or.inl hphase)
  | leaves _ hphase => exact Or.inl (Or.inr (Or.inl hphase))

end Moves

/-! ### Calls run in the order in which they enter -/

/-- The calls in the order in which they came out of the project lock. -/
def entered (labels : List Label) : List CallId :=
  labels.filterMap fun
    | .enterProject id => some id
    | _ => none

theorem entered_concat (labels : List Label) (label : Label) :
    entered (labels ++ [label]) = entered labels ++ entered [label] := List.filterMap_append ..

/-- The calls listed in `entered` are those past the project lock's await. A call awaits the tail of
a call for its key that entered before it, and starts when all of these have ended. -/
structure Ordered (s : ProjectResourceCoordinator) (entered : List CallId) : Prop where
  nodup : entered.Nodup
  mem : ∀ id, id ∈ entered ↔ ∃ call, s.calls id = some call ∧ call.HasEntered
  keyed : ∀ id call, s.calls id = some call → call.phase = .awaitingKey → call.resourceKey ≠ none
  previous : ∀ id call p, s.calls id = some call → call.previous = some p →
    entered.idxOf p < entered.idxOf id ∧
      ∃ call', s.calls p = some call' ∧ call'.HasEntered ∧ call'.resourceKey = call.resourceKey
  ended : ∀ a b call call', s.calls a = some call → s.calls b = some call' → call.resourceKey ≠ none →
    call.resourceKey = call'.resourceKey → entered.idxOf a < entered.idxOf b → call'.HasStarted → call.HasEnded

theorem ordered_initial : initial.Ordered [] where
  nodup := List.nodup_nil
  mem id := by simp [initial]
  keyed id call h := by simp [initial] at h
  previous id call p h := by simp [initial] at h
  ended a b call call' h := by simp [initial] at h

theorem resourceCoordinatorKey_injective : Function.Injective resourceCoordinatorKey := by
  intro a b h
  exact (String.append_right_inj _).mp h

/-- Whoever claims a key is past the project lock and has not ended. -/
theorem keyClaim_eq_some {s : ProjectResourceCoordinator} {id : CallId} {claim : KeyClaim} :
    s.keyClaim id = some claim ↔ ∃ call resourceKey, s.calls id = some call ∧ call.resourceKey = some resourceKey ∧
      ((call.phase = .awaitingKey ∧ claim = ⟨resourceCoordinatorKey resourceKey, call.previous, false⟩) ∨
        (call.phase = .running ∧ claim = ⟨resourceCoordinatorKey resourceKey, call.previous, true⟩)) := by
  rw [keyClaim, Option.bind_eq_some_iff]
  refine exists_congr fun call => ?_
  obtain ⟨projectId, resourceKey, project, previous, phase⟩ := call
  cases resourceKey <;> cases phase <;> simp [CoordinatorCall.keyClaim, eq_comm]

/-- The queue of a key is in the order of entering. -/
theorem Ordered.pairwise_queue {s : ProjectResourceCoordinator} {entered : List CallId} (h : s.Ordered entered)
    {tail : Option CallId} {key : String} {queue : List CallId} (hqueue : Queue s.keyClaim tail key queue) :
    queue.Pairwise fun a b => entered.idxOf a < entered.idxOf b := by
  have htrans : IsTrans CallId fun a b => entered.idxOf a < entered.idxOf b := ⟨fun _ _ _ => Nat.lt_trans⟩
  rw [← List.isChain_iff_pairwise]
  refine hqueue.chain.imp fun a b ⟨claim, hclaim, hprevious⟩ => ?_
  obtain ⟨call, resourceKey, hcall, -, hphase⟩ := keyClaim_eq_some.mp hclaim
  refine (h.previous b call a hcall ?_).1
  rcases hphase with ⟨-, rfl⟩ | ⟨-, rfl⟩ <;> exact hprevious

/-- Appending to a list keeps the order between its elements and all others. -/
private theorem idxOf_append_lt_iff {ids more : List CallId} {a b : CallId} (ha : a ∈ ids) :
    (ids ++ more).idxOf a < (ids ++ more).idxOf b ↔ ids.idxOf a < ids.idxOf b := by
  have hlength := List.idxOf_lt_length_of_mem ha
  rw [List.idxOf_append_of_mem ha]
  by_cases hb : b ∈ ids
  · rw [List.idxOf_append_of_mem hb]
  · rw [List.idxOf_append_of_notMem hb, List.idxOf_eq_length hb]
    omega

private theorem mem_of_idxOf_lt {ids : List CallId} {a b : CallId} (h : ids.idxOf a < ids.idxOf b) : a ∈ ids :=
  List.idxOf_lt_length_iff.mp (h.trans_le List.idxOf_le_length)

theorem mem_entered_singleton {label : Label} {id : CallId} : id ∈ entered [label] ↔ label = .enterProject id := by
  cases label <;> simp [entered, eq_comm]

/-- The step in which a call enters. -/
theorem exists_call_of_enterProject {s t : ProjectResourceCoordinator} {id : CallId}
    (hstep : s.step (.enterProject id) = some t) :
    (∃ call, s.calls id = some call ∧ ¬call.HasEntered) ∧ ∃ next, t.calls id = some next ∧ next.HasEntered := by
  obtain ⟨call, hcall, rfl⟩ := Option.map_eq_some_iff.mp hstep
  obtain ⟨hcall, hphase⟩ := inPhase_eq_some.mp hcall
  refine ⟨⟨call, hcall, fun h => h.2 hphase⟩, ?_⟩
  split
  · exact ⟨_, Function.update_self .., by simp [CoordinatorCall.HasEntered]⟩
  · exact ⟨_, Function.update_self .., by simp [CoordinatorCall.HasEntered]⟩

theorem Ordered.notMem_of_enterProject {s t : ProjectResourceCoordinator} {entered : List CallId} (h : s.Ordered entered)
    {id : CallId} (hstep : s.step (.enterProject id) = some t) : id ∉ entered := by
  obtain ⟨⟨call, hcall, hnot⟩, -⟩ := exists_call_of_enterProject hstep
  intro hmem
  obtain ⟨call', hcall', hentered⟩ := (h.mem id).mp hmem
  obtain rfl := Option.some.inj (hcall.symm.trans hcall')
  exact hnot hentered

theorem Ordered.mem_step {s t : ProjectResourceCoordinator} {ids : List CallId} (h : s.Ordered ids) {label : Label}
    (hstep : s.step label = some t) (id : CallId) :
    id ∈ ids ++ entered [label] ↔ ∃ next, t.calls id = some next ∧ next.HasEntered := by
  rw [List.mem_append, h.mem, mem_entered_singleton]
  constructor
  · rintro (⟨call, hcall, hentered⟩ | rfl)
    · obtain ⟨next, hnext, hmove⟩ := exists_move_of_step hstep hcall
      exact ⟨next, hnext, hmove.hasEntered hentered⟩
    · exact (exists_call_of_enterProject hstep).2
  · rintro ⟨next, hnext, hentered⟩
    rcases moves_of_step hstep hnext with ⟨call, hcall, hmove⟩ | ⟨-, -, -, hphase⟩
    · exact (hmove.enters hentered).imp_left fun hold => ⟨call, hcall, hold⟩
    · exact absurd hphase (by simp [hentered.1, hentered.2])

/-- The tail a call finds is that of a call that entered before it. -/
theorem Ordered.previous_step {s t : ProjectResourceCoordinator} {ids : List CallId} (h : s.Ordered ids) (hkey : s.KeyInv)
    {label : Label} (hstep : s.step label = some t) {id : CallId} {next : CoordinatorCall}
    (hnext : t.calls id = some next) {p : CallId} (hp : next.previous = some p) :
    (ids ++ entered [label]).idxOf p < (ids ++ entered [label]).idxOf id ∧
      ∃ call', t.calls p = some call' ∧ call'.HasEntered ∧ call'.resourceKey = next.resourceKey := by
  -- It is enough to find the other call before the step.
  suffices hbefore : ids.idxOf p < ids.idxOf id ∧
      ∃ call', s.calls p = some call' ∧ call'.HasEntered ∧ call'.resourceKey = next.resourceKey by
    obtain ⟨hlt, call', hcall', hentered, hsame⟩ := hbefore
    obtain ⟨next', hnext', hmove'⟩ := exists_move_of_step hstep hcall'
    exact ⟨(idxOf_append_lt_iff (mem_of_idxOf_lt hlt)).mpr hlt, next', hnext', hmove'.hasEntered hentered,
      hmove'.resourceKey_eq.trans hsame⟩
  rcases moves_of_step hstep hnext with ⟨call, hcall, hmove⟩ | ⟨-, -, hnone, -⟩
  · cases hmove with
    | queues resourceKey hlabel hphase hresource =>
        obtain ⟨queue, hqueue⟩ := hkey.queue (resourceCoordinatorKey resourceKey)
        have hmem : p ∈ queue := List.mem_of_getLast? (hqueue.tail_eq.symm.trans hp)
        obtain ⟨claim, hclaim, hclaimed⟩ := (hqueue.mem p).mp hmem
        obtain ⟨call', resourceKey', hcall', hresource', hrun⟩ := keyClaim_eq_some.mp hclaim
        have hentered : call'.HasEntered := by
          rcases hrun with ⟨hrun, -⟩ | ⟨hrun, -⟩ <;> simp [CoordinatorCall.HasEntered, hrun]
        have hsame : resourceKey' = resourceKey := by
          apply resourceCoordinatorKey_injective
          rcases hrun with ⟨-, rfl⟩ | ⟨-, rfl⟩ <;> exact hclaimed
        refine ⟨?_, call', hcall', hentered, by rw [hresource', hsame, hresource]⟩
        have hnot : id ∉ ids := h.notMem_of_enterProject (hlabel ▸ hstep)
        rw [List.idxOf_eq_length hnot]
        exact List.idxOf_lt_length_of_mem ((h.mem p).mpr ⟨call', hcall', hentered⟩)
    | stays => exact h.previous id next p hcall hp
    | granted => exact h.previous id call p hcall hp
    | starts => exact h.previous id call p hcall hp
    | runs => exact h.previous id call p hcall hp
    | settles => exact h.previous id call p hcall hp
    | leaves => exact h.previous id call p hcall hp
  · rw [hnone] at hp
    cases hp

/-- When a call's awaited tail is resolved, the calls that entered earlier for its key have ended. -/
theorem Ordered.ended_of_previousSettled {s : ProjectResourceCoordinator} {ids : List CallId} (h : s.Ordered ids)
    (hkey : s.KeyInv) {a b : CallId} {call call' : CoordinatorCall} (ha : s.calls a = some call)
    (hb : s.calls b = some call') (hresource : call.resourceKey ≠ none) (hsame : call.resourceKey = call'.resourceKey)
    (hlt : ids.idxOf a < ids.idxOf b) (hphase : call'.phase = .awaitingKey)
    (hfree : s.previousSettled call' = true) : call.HasEnded := by
  obtain ⟨resourceKey, hcallKey⟩ := Option.ne_none_iff_exists'.mp hresource
  obtain ⟨queue, hqueue⟩ := hkey.queue (resourceCoordinatorKey resourceKey)
  have hclaim : s.keyClaim b = some ⟨resourceCoordinatorKey resourceKey, call'.previous, false⟩ :=
    keyClaim_eq_some.mpr ⟨call', resourceKey, hb, hsame ▸ hcallKey, Or.inl ⟨hphase, rfl⟩⟩
  have hhead : queue.head? = some b := by
    refine hqueue.head_of_previous_free hclaim rfl fun p hp hmem => ?_
    obtain ⟨claim, hp', -⟩ := (hqueue.mem p).mp hmem
    have hsettled : s.settled p = true := by simpa [previousSettled, show call'.previous = some p from hp] using hfree
    rw [hkey.keyClaim_of_settled hsettled] at hp'
    cases hp'
  by_contra hnot
  have hentered : call.HasEntered := by
    obtain ⟨old, hold, hentered⟩ := (h.mem a).mp (mem_of_idxOf_lt hlt)
    obtain rfl := Option.some.inj (ha.symm.trans hold)
    exact hentered
  -- A call past the project lock that has not ended is in the queue, hence behind its head.
  have hmem : a ∈ queue := by
    rw [hqueue.mem]
    have hopen : call.phase = .awaitingKey ∨ call.phase = .running := by
      cases hphase' : call.phase <;> simp_all [CoordinatorCall.HasEntered, CoordinatorCall.HasEnded]
    rcases hopen with hopen | hopen
    · exact ⟨_, keyClaim_eq_some.mpr ⟨call, resourceKey, ha, hcallKey, Or.inl ⟨hopen, rfl⟩⟩, rfl⟩
    · exact ⟨_, keyClaim_eq_some.mpr ⟨call, resourceKey, ha, hcallKey, Or.inr ⟨hopen, rfl⟩⟩, rfl⟩
  obtain ⟨rest, rfl⟩ : ∃ rest, queue = b :: rest := List.head?_eq_some_iff.mp hhead
  have hpairwise := List.pairwise_cons.mp (h.pairwise_queue hqueue)
  rcases List.mem_cons.mp hmem with rfl | hrest
  · omega
  · have := hpairwise.1 a hrest
    omega

theorem Ordered.ended_step {s t : ProjectResourceCoordinator} {ids : List CallId} (h : s.Ordered ids) (hkey : s.KeyInv)
    {label : Label} (hstep : s.step label = some t) {a b : CallId} {next next' : CoordinatorCall}
    (ha : t.calls a = some next) (hb : t.calls b = some next') (hresource : next.resourceKey ≠ none)
    (hsame : next.resourceKey = next'.resourceKey)
    (hlt : (ids ++ entered [label]).idxOf a < (ids ++ entered [label]).idxOf b) (hstarted : next'.HasStarted) :
    next.HasEnded := by
  have hentered : next.HasEntered := by
    obtain ⟨old, hold, hentered⟩ := (h.mem_step hstep a).mp (mem_of_idxOf_lt hlt)
    obtain rfl := Option.some.inj (ha.symm.trans hold)
    exact hentered
  rcases moves_of_step hstep ha with ⟨call, hcall, hmove⟩ | ⟨-, -, -, hphase⟩
  · rcases moves_of_step hstep hb with ⟨call', hcall', hmove'⟩ | ⟨-, -, -, hphase⟩
    · rw [hmove.resourceKey_eq] at hresource hsame
      rw [hmove'.resourceKey_eq] at hsame
      rcases hmove'.begins hstarted with hbefore | hnone | ⟨rfl, hwaits, hfree⟩
      · have hmem : b ∈ ids := (h.mem b).mpr ⟨call', hcall', hbefore.hasEntered⟩
        have hold : ids.idxOf a < ids.idxOf b := by
          rw [List.idxOf_append_of_mem hmem] at hlt
          by_cases hin : a ∈ ids
          · rwa [List.idxOf_append_of_mem hin] at hlt
          · rw [List.idxOf_append_of_notMem hin] at hlt
            have := List.idxOf_lt_length_of_mem hmem
            omega
        exact hmove.hasEnded (h.ended a b call call' hcall hcall' hresource hsame hold hbefore)
      · exact absurd (hsame.trans hnone) hresource
      · rw [show entered [Label.enterKey b] = [] from rfl, List.append_nil] at hlt
        exact hmove.hasEnded (h.ended_of_previousSettled hkey hcall hcall' hresource hsame hlt hwaits hfree)
    · exact absurd hphase (by simp [hstarted.hasEntered.1, hstarted.hasEntered.2])
  · exact absurd hphase (by simp [hentered.1, hentered.2])

theorem Ordered.step {s t : ProjectResourceCoordinator} {ids : List CallId} (h : s.Ordered ids) (hkey : s.KeyInv)
    {label : Label} (hstep : s.step label = some t) : t.Ordered (ids ++ entered [label]) where
  nodup := by
    refine List.nodup_append.mpr ⟨h.nodup, ?_, ?_⟩
    · cases label <;> simp [entered]
    · rintro a ha b hb rfl
      obtain rfl := mem_entered_singleton.mp hb
      exact h.notMem_of_enterProject hstep ha
  mem := h.mem_step hstep
  keyed id next hnext hphase := by
    rcases moves_of_step hstep hnext with ⟨call, hcall, hmove⟩ | ⟨-, -, -, hnew⟩
    · rw [hmove.resourceKey_eq]
      exact hmove.keyed (h.keyed id call hcall) hphase
    · rw [hphase] at hnew
      simp at hnew
  previous _ _ _ hnext hp := h.previous_step hkey hstep hnext hp
  ended _ _ _ _ ha hb hresource hsame hlt hstarted := h.ended_step hkey hstep ha hb hresource hsame hlt hstarted

/-! ### The maps hold nothing that is not in use -/

/-- Every project in the map has an unfinished call. -/
def Occupied (s : ProjectResourceCoordinator) : Prop :=
  ∀ p o, s.projects p = some o → ∃ id call, s.calls id = some call ∧ call.projectId = p ∧ call.phase ≠ .finished

theorem occupied_initial : initial.Occupied := by
  intro p o h
  cases h

theorem role_eq_some {s : ProjectResourceCoordinator} {id : CallId} {r : ProjectRole} :
    s.role id = some r ↔ ∃ call, s.calls id = some call ∧ call.phase ≠ .finished ∧
      r = ⟨call.projectId, call.project, call.mode, decide (call.phase ≠ .awaitingProject)⟩ := by
  rw [role, Option.bind_eq_some_iff]
  refine exists_congr fun call => ?_
  obtain ⟨projectId, resourceKey, project, previous, phase⟩ := call
  cases phase <;> simp [CoordinatorCall.role, eq_comm]

/-- An unfinished call of a coordinator object that is not idle. -/
theorem ProjectInv.exists_call_of_not_idle {s : ProjectResourceCoordinator} (h : s.ProjectInv) {o : ObjectId}
    (hidle : (s.coordinators o).isIdle = false) :
    ∃ id call, s.calls id = some call ∧ call.project = o ∧ call.phase ≠ .finished := by
  obtain ⟨holders, hheld, hroles⟩ := h.roles o
  have hsome : holders ≠ [] ∨ (s.coordinators o).waiters ≠ [] := by
    by_contra hnone
    rw [not_or, not_not, not_not, ← hheld.isIdle_iff, hidle] at hnone
    cases hnone
  have hrole : ∃ id r, s.role id = some r ∧ r.project = o := by
    rcases hsome with hsome | hsome
    · obtain ⟨w, hw⟩ := List.exists_mem_of_ne_nil _ hsome
      obtain ⟨p, hp⟩ := (hroles.holder w).mp hw
      exact ⟨_, _, hp, rfl⟩
    · obtain ⟨w, hw⟩ := List.exists_mem_of_ne_nil _ hsome
      obtain ⟨p, hp⟩ := (hroles.waiter w).mp hw
      exact ⟨_, _, hp, rfl⟩
  obtain ⟨id, r, hrole, hproject⟩ := hrole
  obtain ⟨call, hcall, hphase, rfl⟩ := role_eq_some.mp hrole
  exact ⟨id, call, hcall, hproject, hphase⟩

/-- A step keeps `Occupied` if the projects it leaves in the map were there before and the step
finishes none of their calls. -/
theorem Occupied.step {s t : ProjectResourceCoordinator} (h : s.Occupied) (hinv : s.ProjectInv) (hinv' : t.ProjectInv)
    {label : Label} (hstep : s.step label = some t) : t.Occupied := by
  have hkeep : ∀ p, (∃ o, s.projects p = some o) → (∀ id, label ≠ .leave id) →
      ∃ id call, t.calls id = some call ∧ call.projectId = p ∧ call.phase ≠ .finished := by
    rintro p ⟨o, hp⟩ hlabel
    obtain ⟨id, call, hcall, hproject, hphase⟩ := h p o hp
    obtain ⟨next, hnext, hmove⟩ := exists_move_of_step hstep hcall
    refine ⟨id, next, hnext, ?_⟩
    cases hmove with
    | stays => exact ⟨hproject, hphase⟩
    | leaves hleave => exact absurd hleave (hlabel id)
    | _ => exact ⟨hproject, by simp⟩
  intro p o hp
  cases label with
  | start id projectId resourceKey =>
      have hstep' : s.start id projectId resourceKey = some t := hstep
      obtain ⟨-, call, hcall, hproject, -⟩ := exists_call_of_start hstep'
      by_cases heq : p = projectId
      · refine ⟨id, call, hcall, hproject.trans heq.symm, ?_⟩
        rcases moves_of_step hstep hcall with ⟨old, hold, -⟩ | ⟨-, -, -, hphase⟩
        · rw [start, if_pos (by simp [hold])] at hstep'
          cases hstep'
        · rcases hphase with hphase | hphase <;> simp [hphase]
      · refine hkeep p ⟨o, ?_⟩ (by simp)
        rw [start] at hstep'
        split at hstep'
        · cases hstep'
        · cases hstep'
          rw [← hp]
          change _ = (s.getProject projectId).2.projects p
          rw [getProject]
          split
          · rfl
          · exact (Function.update_of_ne heq ..).symm
  | enterProject id =>
      refine hkeep p ⟨o, ?_⟩ (by simp)
      obtain ⟨call, -, rfl⟩ := Option.map_eq_some_iff.mp hstep
      rw [← hp]
      split <;> rfl
  | enterKey id =>
      refine hkeep p ⟨o, ?_⟩ (by simp)
      obtain ⟨call, -, -, -, rfl⟩ := enterKey_eq_some.mp hstep
      exact hp
  | settleBody id =>
      refine hkeep p ⟨o, ?_⟩ (by simp)
      obtain ⟨call, -, rfl⟩ := Option.map_eq_some_iff.mp hstep
      rw [← hp]
      split
      · rfl
      · rw [releaseKey]
        split <;> rfl
  | settleTail id =>
      refine hkeep p ⟨o, ?_⟩ (by simp)
      obtain ⟨call, -, -, -, rfl⟩ := settleTail_eq_some.mp hstep
      exact hp
  | leave id =>
      obtain ⟨call, hcall, heq⟩ := Option.map_eq_some_iff.mp hstep
      obtain ⟨hcall, hphase⟩ := inPhase_eq_some.mp hcall
      have hlive : s.projects call.projectId = some call.project :=
        hinv.live id _ (role_eq_some.mpr ⟨call, hcall, by simp [hphase], rfl⟩)
      have hother : p ≠ call.projectId → s.projects p = some o →
          ∃ id call, t.calls id = some call ∧ call.projectId = p ∧ call.phase ≠ .finished := by
        intro hne hold
        obtain ⟨other, call', hcall', hproject, hopen⟩ := h p o hold
        obtain ⟨next, hnext, hmove⟩ := exists_move_of_step hstep hcall'
        refine ⟨other, next, hnext, ?_⟩
        cases hmove with
        | stays => exact ⟨hproject, hopen⟩
        | leaves hleave =>
            cases hleave
            obtain rfl := Option.some.inj (hcall.symm.trans hcall')
            exact absurd hproject.symm hne
        | _ => exact ⟨hproject, by simp⟩
      rw [releaseProjectIfIdle] at heq
      split at heq
      · -- The coordinator is idle and has been forgotten.
        subst heq
        have hne : p ≠ call.projectId := by
          rintro rfl
          cases (Function.update_self ..).symm.trans hp
        exact hother hne ((Function.update_of_ne hne ..).symm.trans hp)
      · rename_i hbusy
        have hprojects : t.projects = s.projects := by rw [← heq]; rfl
        rw [heq, hprojects, hlive, Bool.and_eq_true, not_and] at hbusy
        rw [hprojects] at hp
        by_cases hne : p = call.projectId
        · have hidle : (t.coordinators call.project).isIdle = false := by
            rw [← Bool.not_eq_true]
            exact fun hidle => hbusy hidle (beq_self_eq_true _)
          obtain ⟨other, call', hcall', hproject, hopen⟩ := hinv'.exists_call_of_not_idle hidle
          refine ⟨other, call', hcall', ?_, hopen⟩
          have hlive' := hinv'.live other _ (role_eq_some.mpr ⟨call', hcall', hopen, rfl⟩)
          rw [hprojects, hproject] at hlive'
          exact (hinv.injective _ _ _ hlive' hlive).trans hne.symm
        · exact hother hne hp

/-! ### Nobody waits once everybody else is done -/

/-- Nothing is left to do but to start calls and to let running bodies end: every other step is
disabled, or resolves a promise again. -/
def Quiescent (s : ProjectResourceCoordinator) : Prop :=
  ∀ label t, (∀ id projectId resourceKey, label ≠ .start id projectId resourceKey) → (∀ id, label ≠ .settleBody id) →
    s.step label = some t → t = s

/-- What is enabled in a quiescent state changes no call. -/
theorem Quiescent.eq_none_of_ne {s : ProjectResourceCoordinator} (h : s.Quiescent) {label : Label}
    (hstart : ∀ id projectId resourceKey, label ≠ .start id projectId resourceKey)
    (hsettle : ∀ id, label ≠ .settleBody id) (hne : ∀ t, s.step label = some t → t.calls ≠ s.calls) :
    s.step label = none := by
  cases hstep : s.step label with
  | none => rfl
  | some t => exact absurd (congrArg calls (h label t hstart hsettle hstep)) (hne t hstep)

theorem Quiescent.phase_ne_projectGranted {s : ProjectResourceCoordinator} (h : s.Quiescent) {id : CallId}
    {call : CoordinatorCall} (hcall : s.calls id = some call) : call.phase ≠ .projectGranted := by
  intro hphase
  have hnone : s.step (.enterProject id) = none := by
    refine h.eq_none_of_ne (by simp) (by simp) fun t hstep hcalls => ?_
    obtain ⟨⟨old, hold, hnot⟩, next, hnext, hentered⟩ := exists_call_of_enterProject hstep
    rw [hcalls, hold] at hnext
    exact hnot (Option.some.inj hnext ▸ hentered)
  rw [step, enterProject, inPhase_eq_some.mpr ⟨hcall, hphase⟩] at hnone
  cases hnone

theorem calls_releaseProjectIfIdle (s : ProjectResourceCoordinator) (projectId : ProjectId) (project : ObjectId) :
    (s.releaseProjectIfIdle projectId project).calls = s.calls := by
  rw [releaseProjectIfIdle]
  split <;> rfl

theorem Quiescent.phase_ne_leaving {s : ProjectResourceCoordinator} (h : s.Quiescent) {id : CallId}
    {call : CoordinatorCall} (hcall : s.calls id = some call) : call.phase ≠ .leaving := by
  intro hphase
  have hin : s.inPhase id .leaving = some call := inPhase_eq_some.mpr ⟨hcall, hphase⟩
  have hnone : s.step (.leave id) = none := by
    refine h.eq_none_of_ne (by simp) (by simp) fun t hstep hcalls => ?_
    obtain ⟨old, hold, rfl⟩ := Option.map_eq_some_iff.mp hstep
    obtain rfl := Option.some.inj (hin.symm.trans hold)
    have hfinished : ((s.setCall id { call with phase := .finished }).withCoordinator call.project
        (ProjectCoordinator.release call.mode (s.coordinators call.project))).calls id =
          some { call with phase := .finished } := resolve_released (Function.update_self ..) (Or.inr rfl)
    rw [calls_releaseProjectIfIdle] at hcalls
    rw [hcalls, hcall] at hfinished
    have hsame := congrArg CoordinatorCall.phase (Option.some.inj hfinished)
    rw [hphase] at hsame
    cases hsame
  rw [step, leave, hin] at hnone
  cases hnone

/-- A call that still awaits its key awaits an unresolved tail. -/
theorem Quiescent.previousSettled_eq_false {s : ProjectResourceCoordinator} (h : s.Quiescent) {id : CallId}
    {call : CoordinatorCall} (hcall : s.calls id = some call) (hphase : call.phase = .awaitingKey) :
    s.previousSettled call = false := by
  by_contra hfree
  rw [Bool.not_eq_false] at hfree
  have hstep : s.step (.enterKey id) = some (s.setCall id { call with phase := .running }) :=
    enterKey_eq_some.mpr ⟨call, hcall, hphase, hfree, rfl⟩
  have hsame := congrArg (fun u => u.calls id) (h _ _ (by simp) (by simp) hstep)
  have hupdate : (s.setCall id { call with phase := .running }).calls id = some { call with phase := .running } :=
    Function.update_self ..
  rw [hupdate, hcall] at hsame
  have hrunning := congrArg CoordinatorCall.phase (Option.some.inj hsame)
  rw [hphase] at hrunning
  cases hrunning

/-- In a quiescent state the tail of every call that has given its key back is resolved. The
induction is on the order of entering: the tail it found is that of an earlier call for the key,
which has ended too. -/
theorem Quiescent.settled {s : ProjectResourceCoordinator} (h : s.Quiescent) {ids : List CallId} (hordered : s.Ordered ids)
    {id : CallId} {call : CoordinatorCall} (hcall : s.calls id = some call) (hresource : call.resourceKey ≠ none)
    (hended : call.HasEnded) : s.settled id = true := by
  induction hn : ids.idxOf id using Nat.strong_induction_on generalizing id call with
  | _ n ih =>
      have hfree : s.previousSettled call = true := by
        cases hp : call.previous with
        | none => simp [previousSettled, hp]
        | some p =>
            obtain ⟨hlt, call', hcall', -, hsame⟩ := hordered.previous id call p hcall hp
            have hended' := hordered.ended p id call' call hcall' hcall (hsame ▸ hresource) hsame hlt hended.hasStarted
            simpa [previousSettled, hp] using ih _ (hn ▸ hlt) hcall' (hsame ▸ hresource) hended' rfl
      have hreleased : hasReleasedKey call = true := by
        rw [hasReleasedKey, Option.isSome_iff_ne_none.mpr hresource]
        rcases hended with hphase | hphase <;> simp [hphase]
      have hstep : s.step (.settleTail id) = some { s with settled := Function.update s.settled id true } :=
        settleTail_eq_some.mpr ⟨call, hcall, hreleased, hfree, rfl⟩
      have hsame := congrArg (fun u => u.settled id) (h _ _ (by simp) (by simp) hstep)
      exact hsame.symm.trans (Function.update_self ..)

/-- When no body runs, the first call in the queue of a key awaits the tail of a call that has
ended, if any. -/
theorem Ordered.exists_head {s : ProjectResourceCoordinator} {ids : List CallId} (h : s.Ordered ids) (hkey : s.KeyInv)
    {id : CallId} {call : CoordinatorCall} (hcall : s.calls id = some call) (hphase : call.phase = .awaitingKey)
    {resourceKey : String} (hresource : call.resourceKey = some resourceKey)
    (hidle : ∀ other call', s.calls other = some call' → call'.phase ≠ .running) :
    ∃ head call', s.calls head = some call' ∧ call'.phase = .awaitingKey ∧ call'.resourceKey = some resourceKey ∧
      ∀ p, call'.previous = some p → ∀ call'', s.calls p = some call'' → call''.HasEnded := by
  obtain ⟨queue, hqueue⟩ := hkey.queue (resourceCoordinatorKey resourceKey)
  have hmem : id ∈ queue :=
    (hqueue.mem id).mpr ⟨_, keyClaim_eq_some.mpr ⟨call, resourceKey, hcall, hresource, Or.inl ⟨hphase, rfl⟩⟩, rfl⟩
  obtain ⟨head, rest, rfl⟩ := List.exists_cons_of_ne_nil (List.ne_nil_of_mem hmem)
  obtain ⟨claim, hclaim, hclaimed⟩ := (hqueue.mem head).mp List.mem_cons_self
  obtain ⟨call', resourceKey', hcall', hresource', hwaits⟩ := keyClaim_eq_some.mp hclaim
  rcases hwaits with ⟨hwaits, rfl⟩ | ⟨hrun, -⟩
  · obtain rfl := resourceCoordinatorKey_injective hclaimed
    refine ⟨head, call', hcall', hwaits, hresource', fun p hp call'' hcall'' => ?_⟩
    obtain ⟨hlt, found, hfound, hentered, hsame⟩ := h.previous head call' p hcall' hp
    obtain rfl := Option.some.inj (hcall''.symm.trans hfound)
    by_contra hnot
    have hopen : call''.phase = .awaitingKey := by
      have hrun := hidle p call'' hcall''
      cases hphase' : call''.phase <;> simp_all [CoordinatorCall.HasEntered, CoordinatorCall.HasEnded]
    -- The awaited call would be in the queue itself, behind its head.
    have hbehind : p ∈ head :: rest := (hqueue.mem p).mpr
      ⟨_, keyClaim_eq_some.mpr ⟨call'', resourceKey', hcall'', hsame.trans hresource', Or.inl ⟨hopen, rfl⟩⟩, rfl⟩
    rcases List.mem_cons.mp hbehind with rfl | hrest
    · omega
    · have := (List.pairwise_cons.mp (h.pairwise_queue hqueue)).1 p hrest
      omega
  · exact absurd hrun (hidle head call' hcall')

/-- Whoever waits for a project waits for a call that holds it. -/
theorem ProjectInv.exists_holder {s : ProjectResourceCoordinator} (h : s.ProjectInv) {id : CallId}
    {call : CoordinatorCall} (hcall : s.calls id = some call) (hphase : call.phase = .awaitingProject) :
    ∃ other call', s.calls other = some call' ∧ call'.projectId = call.projectId ∧
      call'.phase ≠ .awaitingProject ∧ call'.phase ≠ .finished := by
  have hrole : s.role id = some ⟨call.projectId, call.project, call.mode, false⟩ :=
    role_eq_some.mpr ⟨call, hcall, by simp [hphase], by simp [hphase]⟩
  obtain ⟨holders, hheld, hroles⟩ := h.roles call.project
  have hwaits := (hroles.waiter ⟨call.mode, id⟩).mpr ⟨_, hrole⟩
  obtain ⟨w, hw⟩ := List.exists_mem_of_ne_nil _ (hheld.holders_ne_nil (List.ne_nil_of_mem hwaits))
  obtain ⟨p, hp⟩ := (hroles.holder w).mp hw
  obtain ⟨call', hcall', hopen, hr⟩ := role_eq_some.mp hp
  simp only [ProjectRole.mk.injEq, true_eq_decide_iff] at hr
  refine ⟨w.resolve, call', hcall', ?_, hr.2.2.2, hopen⟩
  rw [← hr.1]
  exact h.injective _ _ _ (h.live _ _ hp) (h.live _ _ hrole)

/-- Once no body runs and nothing is left to do, every call has finished. -/
theorem Quiescent.finished {s : ProjectResourceCoordinator} (h : s.Quiescent) (hinv : s.Inv) {ids : List CallId}
    (hordered : s.Ordered ids) (hidle : ∀ id call, s.calls id = some call → call.phase ≠ .running) {id : CallId}
    {call : CoordinatorCall} (hcall : s.calls id = some call) : call.phase = .finished := by
  have hkeyed : ∀ id call, s.calls id = some call → call.phase ≠ .awaitingKey := by
    intro id call hcall hphase
    obtain ⟨resourceKey, hresource⟩ := Option.ne_none_iff_exists'.mp (hordered.keyed id call hcall hphase)
    obtain ⟨head, call', hcall', hwaits, hresource', hprevious⟩ :=
      hordered.exists_head hinv.key hcall hphase hresource hidle
    have hblocked := h.previousSettled_eq_false hcall' hwaits
    cases hp : call'.previous with
    | none => simp [previousSettled, hp] at hblocked
    | some p =>
        obtain ⟨-, call'', hcall'', -, hsame⟩ := hordered.previous head call' p hcall' hp
        have hsettled := h.settled hordered hcall'' (by simp [hsame, hresource']) (hprevious p hp call'' hcall'')
        simp [previousSettled, hp, hsettled] at hblocked
  have hopen : ∀ id call, s.calls id = some call → call.phase = .awaitingProject ∨ call.phase = .finished := by
    intro id call hcall
    have hgrant := h.phase_ne_projectGranted hcall
    have hleave := h.phase_ne_leaving hcall
    have hrun := hidle id call hcall
    have hkey := hkeyed id call hcall
    cases hphase : call.phase <;> simp_all
  refine (hopen id call hcall).resolve_left fun hwaits => ?_
  obtain ⟨other, call', hcall', -, hholds, hunfinished⟩ := hinv.project.exists_holder hcall hwaits
  exact (hopen other call' hcall').elim hholds hunfinished

/-- When every call has finished, no project and no tail is left in the maps. -/
theorem Inv.maps_eq_none {s : ProjectResourceCoordinator} (h : s.Inv) (hoccupied : s.Occupied)
    (hfinished : ∀ id call, s.calls id = some call → call.phase = .finished) :
    (∀ projectId, s.projects projectId = none) ∧ ∀ key, s.tails key = none := by
  constructor
  · intro projectId
    rw [Option.eq_none_iff_forall_ne_some]
    intro project hproject
    obtain ⟨id, call, hcall, -, hopen⟩ := hoccupied _ _ hproject
    exact hopen (hfinished id call hcall)
  · intro key
    obtain ⟨queue, hqueue⟩ := h.key.queue key
    have hnil : queue = [] := by
      rw [List.eq_nil_iff_forall_not_mem]
      intro id hmem
      obtain ⟨claim, hclaim, -⟩ := (hqueue.mem id).mp hmem
      obtain ⟨call, resourceKey, hcall, -, hphase⟩ := keyClaim_eq_some.mp hclaim
      rw [hfinished id call hcall] at hphase
      simp at hphase
    rw [hqueue.tail_eq, hnil]
    rfl

/-! ### The contract -/

/-- The calls whose project lock promise a step resolves, in the order of the resolutions. -/
def grants (s : ProjectResourceCoordinator) : Label → List CallId
  | .start id projectId resourceKey =>
      if (s.calls id).isSome then []
      else
        let (project, s) := s.getProject projectId
        let call : CoordinatorCall := ⟨projectId, resourceKey, project, none, .awaitingProject⟩
        (ProjectCoordinator.acquire call.mode (s.coordinators project) id).2.map (·.resolve)
  | .leave id =>
      match s.inPhase id .leaving with
      | none => []
      | some call => (ProjectCoordinator.release call.mode (s.coordinators call.project)).2.map (·.resolve)
  | _ => []

/-- The calls in the order in which they were granted their project locks. -/
def granted : ProjectResourceCoordinator → List Label → List CallId
  | _, [] => []
  | s, label :: labels => s.grants label ++ ((s.step label).map fun t => granted t labels).getD []

/-- Promise reactions run in the order of the resolutions: the calls come out of their project locks
in the order of the grants. -/
def ReactionsInOrder (labels : List Label) : Prop := entered labels <+: granted initial labels

/-- What the two-level coordination owes its callers. -/
structure Coordinated (labels : List Label) (s : ProjectResourceCoordinator) : Prop where
  /-- A `runProject` body is alone on its project. -/
  project_exclusion : ∀ a b call call', s.calls a = some call → s.calls b = some call' →
    call.projectId = call'.projectId → call.resourceKey = none → call.phase = .running → call'.phase = .running → a = b
  /-- Two bodies for one key do not overlap, whatever their projects. -/
  key_exclusion : ∀ a b call call' resourceKey, s.calls a = some call → s.calls b = some call' →
    call.resourceKey = some resourceKey → call'.resourceKey = some resourceKey →
    call.phase = .running → call'.phase = .running → a = b
  /-- A body for a key starts when the calls for it that came out of the project lock before have
  ended. -/
  key_order : ∀ a b call call' resourceKey, s.calls a = some call → s.calls b = some call' →
    call.resourceKey = some resourceKey → call'.resourceKey = some resourceKey →
    (entered labels).idxOf a < (entered labels).idxOf b → call'.HasStarted → call.HasEnded
  /-- With reactions in order, the same holds of those that were granted the project lock before. -/
  key_order_granted : ReactionsInOrder labels → ∀ a b call call' resourceKey, s.calls a = some call →
    s.calls b = some call' → call.resourceKey = some resourceKey → call'.resourceKey = some resourceKey →
    (granted initial labels).idxOf a < (granted initial labels).idxOf b → call'.HasStarted → call.HasEnded
  /-- The holders and waiters of a project use the coordinator in the map. -/
  one_coordinator : ∀ id call, s.calls id = some call → call.phase ≠ .finished →
    s.projects call.projectId = some call.project
  /-- Whoever waits for a project waits for a call that holds it. -/
  holder : ∀ id call, s.calls id = some call → call.phase = .awaitingProject →
    ∃ other call', s.calls other = some call' ∧ call'.projectId = call.projectId ∧
      call'.phase ≠ .awaitingProject ∧ call'.phase ≠ .finished
  /-- Once no body runs and nothing is left to do, every call has finished. -/
  progress : s.Quiescent → (∀ id call, s.calls id = some call → call.phase ≠ .running) →
    ∀ id call, s.calls id = some call → call.phase = .finished
  /-- Without an unfinished call both maps are empty. -/
  emptied : (∀ id call, s.calls id = some call → call.phase = .finished) →
    (∀ projectId, s.projects projectId = none) ∧ ∀ key, s.tails key = none

theorem coordinated_parts {labels : List Label} {s : ProjectResourceCoordinator}
    (hrun : Runs.run step initial labels = some s) : s.Inv ∧ s.Ordered (entered labels) ∧ s.Occupied := by
  refine Runs.run_induction (P := fun labels s => Inv s ∧ s.Ordered (entered labels) ∧ s.Occupied)
    ⟨inv_initial, ordered_initial, occupied_initial⟩ ?_ hrun
  rintro labels s label t - ⟨hinv, hordered, hoccupied⟩ hstep
  have hinv' := inv_preserved hinv hstep
  refine ⟨hinv', ?_, hoccupied.step hinv.project hinv'.project hstep⟩
  rw [entered_concat]
  exact hordered.step hinv.key hstep

/-- In a list that starts with another, whatever comes before one of the other's elements is in the
other too. -/
private theorem idxOf_lt_of_initialSegment {ids all : List CallId} (hinitial : ids <+: all) {a b : CallId} (hb : b ∈ ids)
    (hlt : all.idxOf a < all.idxOf b) : ids.idxOf a < ids.idxOf b := by
  obtain ⟨more, rfl⟩ := hinitial
  rw [List.idxOf_append_of_mem hb] at hlt
  by_cases ha : a ∈ ids
  · rwa [List.idxOf_append_of_mem ha] at hlt
  · have := List.idxOf_lt_length_of_mem hb
    rw [List.idxOf_append_of_notMem ha] at hlt
    omega

/-- **Two-level coordination**, after any interleaving of any calls: exclusion on projects and on
keys, the order of the bodies for a key, one coordinator for each project in use, progress, and
empty maps at rest. -/
theorem coordinated_of_run (labels : List Label) (s : ProjectResourceCoordinator)
    (hrun : Runs.run step initial labels = some s) : s.Coordinated labels := by
  obtain ⟨hinv, hordered, hoccupied⟩ := coordinated_parts hrun
  refine ⟨?_, ?_, ?_, ?_, ?_, ?_, ?_, hinv.maps_eq_none hoccupied⟩
  · intro a b call call' ha hb hproject hkey hrun hrun'
    have hholds := holds_of_running ha hrun
    have hmode : call.mode = .exclusive := by rw [CoordinatorCall.mode, hkey]
    rw [hmode] at hholds
    exact hinv.project_exclusive hholds (hproject ▸ holds_of_running hb hrun')
  · intro a b call call' resourceKey ha hb hkey hkey' hrun hrun'
    exact hinv.key_exclusive ha hb hkey hkey' hrun hrun'
  · intro a b call call' resourceKey ha hb hkey hkey' hlt hstarted
    exact hordered.ended a b call call' ha hb (by simp [hkey]) (hkey.trans hkey'.symm) hlt hstarted
  · intro horder a b call call' resourceKey ha hb hkey hkey' hlt hstarted
    have hmem : b ∈ entered labels := (hordered.mem b).mpr ⟨call', hb, hstarted.hasEntered⟩
    exact hordered.ended a b call call' ha hb (by simp [hkey]) (hkey.trans hkey'.symm)
      (idxOf_lt_of_initialSegment horder hmem hlt) hstarted
  · intro id call hcall hopen
    exact hinv.project.live id _ (role_eq_some.mpr ⟨call, hcall, hopen, rfl⟩)
  · intro id call hcall hwaits
    exact hinv.project.exists_holder hcall hwaits
  · intro hquiescent hidle id call hcall
    exact hquiescent.finished hinv hordered hidle hcall

/-- Two calls for one key in one project, a third for the same key in another project, and a
`runProject` between them. -/
def sharedKey : List Label :=
  [.start 0 "p" (some "k"), .start 1 "p" none, .start 2 "p" (some "k"), .start 3 "q" (some "k"),
    .enterProject 0, .enterProject 3, .enterKey 0, .settleBody 0, .settleTail 0, .enterKey 3, .leave 0,
    .enterProject 1, .settleBody 1, .leave 1, .enterProject 2, .settleBody 3, .settleTail 3, .enterKey 2]

theorem coordinated_of_sharedKey :
    ∃ s, Runs.run step initial sharedKey = some s ∧ entered sharedKey = [0, 3, 1, 2] ∧
      granted initial sharedKey = [0, 3, 1, 2] ∧ s.Coordinated sharedKey :=
  ⟨_, rfl, by decide, by decide +kernel, coordinated_of_run sharedKey _ rfl⟩

end ProjectResourceCoordinator

end Transcendence.Realtime
