import Transcendence.Realtime.SocketLeases

/-!
# What the lock events say

The last `field:locked` or `field:unlocked` event about a key is what the clients believe about the
field. A lease is made or removed in one turn and announced in a later one, so between the two the
event is owed (`Owed`). As long as no step changes the holder of a key about which an event is owed,
every owed event agrees with the table, and once none is owed the last event does. The one place
that owes an event across the awaits of other locks is `releaseSocket`: there the condition can
fail, and then a stale `field:unlocked` comes last.
-/

namespace Transcendence.Realtime

open OrderedMap (get set UniqueKeys)

def Leases.holder (leases : Leases) (key : String) : Option SocketId := (get leases key).map (·.socketId)

/-- The last event about the key. -/
def World.lastEvent (w : World) (key : String) : Option Emission := w.emitted.find? (·.key = key)

/-- Who holds the key according to the last event. -/
def World.said (w : World) (key : String) : Option SocketId := (w.lastEvent key).bind Emission.holder

namespace World

variable {w w' : World} {key : String}

theorem said_of_emitted {events : List Emission} (h : w'.emitted = events ++ w.emitted) :
    w'.said key = match events.find? (·.key = key) with
      | some event => event.holder
      | none => w.said key := by
  rw [said, lastEvent, h, List.find?_append]
  cases events.find? (·.key = key) <;> rfl

theorem said_of_silent {events : List Emission} (h : w'.emitted = events ++ w.emitted)
    (hsilent : ∀ event ∈ events, event.key ≠ key) : w'.said key = w.said key := by
  rw [said_of_emitted h, List.find?_eq_none.mpr (by simpa using hsilent)]

theorem said_of_nothing (h : w'.emitted = w.emitted) : w'.said key = w.said key := by
  rw [said, said, lastEvent, lastEvent, h]

/-- Events that agree on the key decide what is said about it. -/
theorem said_of_agree {events : List Emission} (h : w'.emitted = events ++ w.emitted) {holder : Option SocketId}
    (hagree : ∀ event ∈ events, event.key = key → event.holder = holder) (hsome : ∃ event ∈ events, event.key = key) :
    w'.said key = holder := by
  rw [said_of_emitted h]
  obtain ⟨event, hmem, hkey⟩ := hsome
  cases hfind : events.find? (·.key = key) with
  | none => exact absurd (decide_eq_true hkey) (List.find?_eq_none.mp hfind event hmem)
  | some found => exact hagree found (List.mem_of_find?_eq_some hfind) (by simpa using List.find?_some hfind)

end World

/-! ### One turn -/

@[simp] theorem Leases.holder_delete_self (leases : Leases) (key : String) :
    Leases.holder (OrderedMap.delete leases key) key = none := by
  simp [Leases.holder]

theorem Leases.holder_delete_of_ne (leases : Leases) {key other : String} (h : other ≠ key) :
    Leases.holder (OrderedMap.delete leases key) other = leases.holder other := by
  rw [holder, OrderedMap.get_delete_of_ne leases h, ← holder]

@[simp] theorem Leases.holder_set_self (leases : Leases) (key : String) (lease : FieldLockLease) :
    Leases.holder (set leases key lease) key = some lease.socketId := by
  simp [Leases.holder]

theorem Leases.holder_set_of_ne (leases : Leases) {key other : String} (lease : FieldLockLease) (h : other ≠ key) :
    Leases.holder (set leases key lease) other = leases.holder other := by
  rw [holder, OrderedMap.get_set_of_ne leases lease h, ← holder]

/-- A removal that is said at once leaves the table and the events in agreement. -/
theorem Leases.Removes.said_eq {w w' : World} {key other : String} {after : Leases}
    {released : Option ReleasedFieldLock} (h : Removes key w.leases after released)
    (hsaid : w'.emitted = (released.map emitFieldUnlock).toList ++ w.emitted)
    (hold : w.said other = w.leases.holder other) : w'.said other = after.holder other := by
  cases h with
  | keeps => rw [World.said_of_silent hsaid (by simp), hold]
  | removes lease hget =>
      by_cases heq : other = key
      · subst heq
        rw [holder_delete_self]
        refine World.said_of_agree hsaid ?_ ?_
        · simp [emitFieldUnlock, Emission.holder]
        · simp [emitFieldUnlock, Emission.key]
      · rw [holder_delete_of_ne w.leases heq, ← hold]
        exact World.said_of_silent hsaid (by simp [emitFieldUnlock, Emission.key, Ne.symm heq])

namespace LeaseTurn

variable {w w' : World} {request : Request} {progress' : Progress}

/-- What a caller will emit agrees with the table the turn leaves. -/
theorem emissions_agree (h : LeaseTurn w request w' progress') {event : Emission} (hmem : event ∈ progress'.emissions) :
    event.holder = w'.leases.holder event.key := by
  cases h with
  | silent _ _ hemissions => simp [hemissions] at hmem
  | expires _ _ _ _ hemissions => simp [hemissions] at hmem
  | prolongs _ _ _ _ _ _ hemissions => simp [hemissions] at hmem
  | removesUser _ _ _ _ _ hemissions => simp [hemissions] at hmem
  | releases key released hremoves hsaid hemissions =>
      rw [hemissions] at hmem
      generalize w'.leases = after at hremoves
      cases hremoves with
      | keeps => simp at hmem
      | removes lease hget =>
          obtain rfl : event = .fieldUnlocked lease.projectId key := by simpa [emitFieldUnlock] using hmem
          exact (Leases.holder_delete_self w.leases key).symm
  | acquires client projectId key hconnected middle released hremoves hsaid hanswer =>
      rcases hanswer with ⟨-, hemissions⟩ | ⟨lease, -, hleases, hemissions⟩
      · simp [hemissions] at hmem
      · obtain rfl : event = .fieldLocked projectId key lease.toFieldLock := by simpa [hemissions] using hmem
        rw [hleases]
        exact (Leases.holder_set_self middle key lease).symm

theorem mem_released_iff {leases : Leases} {userId : UserId} {projectId : ProjectId} {event : Emission} :
    event ∈ ((leases.releaseUserInProject userId projectId).2.map emitFieldUnlock).reverse ↔
      ∃ key lease, (key, lease) ∈ leases ∧ lease.userId = userId ∧ lease.projectId = projectId ∧
        event = .fieldUnlocked lease.projectId key := by
  simp only [Leases.releaseUserInProject, List.mem_reverse, List.map_map, List.mem_map, List.mem_filter,
    decide_eq_true_eq]
  constructor
  · rintro ⟨⟨key, lease⟩, ⟨hentry, huser, hproject⟩, rfl⟩
    exact ⟨key, lease, hentry, huser, hproject, rfl⟩
  · rintro ⟨key, lease, hentry, huser, hproject, rfl⟩
    exact ⟨(key, lease), ⟨hentry, huser, hproject⟩, rfl⟩

/-- `releaseUserInProject` says of every lease it removes that it is gone. -/
theorem said_of_releaseUserInProject {userId : UserId} {projectId : ProjectId} (hunique : UniqueKeys w.leases)
    (hsaid : w'.emitted = ((w.leases.releaseUserInProject userId projectId).2.map emitFieldUnlock).reverse ++ w.emitted)
    {key : String} (hold : w.said key = w.leases.holder key) :
    w'.said key = (w.leases.releaseUserInProject userId projectId).1.holder key := by
  by_cases hheld : ∃ lease, get w.leases key = some lease ∧ lease.userId = userId ∧ lease.projectId = projectId
  · obtain ⟨lease, hget, huser, hproject⟩ := hheld
    have hgone : (w.leases.releaseUserInProject userId projectId).1.holder key = none := by
      rw [Leases.holder, Option.map_eq_none_iff, Option.eq_none_iff_forall_ne_some]
      intro other hother
      rw [Leases.releaseUserInProject, OrderedMap.get_filter_eq_some hunique, hget] at hother
      obtain ⟨heq, hkeep⟩ := hother
      obtain rfl := Option.some.inj heq
      simp [huser, hproject] at hkeep
    rw [hgone]
    refine World.said_of_agree hsaid (fun event hmem _ => ?_) ?_
    · obtain ⟨_, _, -, -, -, rfl⟩ := mem_released_iff.mp hmem
      rfl
    · exact ⟨_, mem_released_iff.mpr ⟨key, lease, OrderedMap.mem_of_get hget, huser, hproject, rfl⟩, rfl⟩
  · have hkept : (w.leases.releaseUserInProject userId projectId).1.holder key = w.leases.holder key := by
      rw [Leases.holder, Leases.holder, Leases.releaseUserInProject]
      cases hget : get w.leases key with
      | none => rw [OrderedMap.get_filter_of_none hget]
      | some lease =>
          rw [OrderedMap.get_filter_of_get hget]
          simpa using not_and_or.mp fun hmine => hheld ⟨lease, hget, hmine⟩
    rw [hkept, ← hold]
    refine World.said_of_silent hsaid fun event hmem hkey => ?_
    obtain ⟨key', lease, hentry, huser, hproject, rfl⟩ := mem_released_iff.mp hmem
    obtain rfl : key' = key := hkey
    exact hheld ⟨lease, OrderedMap.get_of_mem hunique hentry, huser, hproject⟩

/-- If the events agreed with the table about a key, they still do after the turn, or its caller
will say how it stands. -/
theorem said_or_owed (h : LeaseTurn w request w' progress') (hunique : UniqueKeys w.leases) {key : String}
    (hold : w.said key = w.leases.holder key) :
    (∃ event ∈ progress'.emissions, event.key = key) ∨ w'.said key = w'.leases.holder key := by
  cases h with
  | silent hleases hsaid => exact Or.inr (by rw [hleases, World.said_of_nothing hsaid, hold])
  | expires other released hremoves hsaid => exact Or.inr (hremoves.said_eq hsaid hold)
  | prolongs other lease expiresAt hget hleases hsaid =>
      right
      rw [hleases, World.said_of_nothing hsaid, hold]
      by_cases heq : key = other
      · subst heq
        rw [Leases.holder_set_self, Leases.holder, hget, Option.map_some]
      · rw [Leases.holder_set_of_ne w.leases _ heq]
  | releases other released hremoves hsaid hemissions =>
      rw [hemissions, World.said_of_nothing hsaid, hold]
      generalize w'.leases = after at hremoves
      cases hremoves with
      | keeps => exact Or.inr rfl
      | removes lease hget =>
          by_cases heq : key = other
          · exact Or.inl (by simp [emitFieldUnlock, Emission.key, heq])
          · exact Or.inr (Leases.holder_delete_of_ne w.leases heq).symm
  | acquires client projectId other hconnected middle released hremoves hsaid hanswer =>
      have hmiddle := hremoves.said_eq hsaid hold
      rcases hanswer with ⟨hleases, -⟩ | ⟨lease, -, hleases, hemissions⟩
      · exact Or.inr (hleases ▸ hmiddle)
      · by_cases heq : key = other
        · exact Or.inl (by simp [hemissions, Emission.key, heq])
        · rw [hleases, Leases.holder_set_of_ne middle lease heq]
          exact Or.inr hmiddle
  | removesUser projectId userId requestingUserId hleases hsaid =>
      right
      rw [hleases]
      exact said_of_releaseUserInProject hunique hsaid hold

end LeaseTurn

namespace Server

/-! ### Owed events -/

/-- The event has been produced and is still to be emitted: by the caller of a body, by a loop that
awaits the call, or by a `releaseSocket` that has not come to its end. -/
inductive Owed (s : Server) (event : Emission) : Prop where
  | answer (id : CallId) (task : Task) (htask : s.tasks id = some task) (hcaller : isSwept task.request = false)
      (hannounced : task.announced = false) (hmem : event ∈ task.progress.emissions)
  | swept (sweepId : Nat) (sweep : Sweep) (id : CallId) (task : Task) (hsweep : s.sweeps sweepId = some sweep)
      (hcurrent : sweep.current = some id) (htask : s.tasks id = some task) (hmem : event ∈ task.progress.emissions)
  | heldBack (sweepId : Nat) (sweep : Sweep) (hsweep : s.sweeps sweepId = some sweep) (hmem : event ∈ sweep.released)

/-- No step changes the holder of a key about which an event is owed. -/
def NotOvertaking (s : Server) (label : Label) : Prop :=
  ∀ t, s.step label = some t → ∀ event, Owed s event →
    t.world.leases.holder event.key = s.world.leases.holder event.key

structure EventsInv (s : Server) : Prop where
  unique : UniqueKeys s.world.leases
  /-- Only settled calls have been announced. -/
  announced : ∀ id task, s.tasks id = some task → task.announced = true → ∃ result, task.progress = .settled result
  /-- A loop awaits each of its calls until it settles. -/
  awaited : ∀ id task, s.tasks id = some task → isSwept task.request = true →
    (∃ result, task.progress = .settled result) ∨ ∃ sweepId sweep, s.sweeps sweepId = some sweep ∧ sweep.current = some id
  agrees : ∀ event, Owed s event → event.holder = s.world.leases.holder event.key
  told : ∀ key, (∃ event, Owed s event ∧ event.key = key) ∨ s.world.said key = s.world.leases.holder key

theorem eventsInv_initial (users : String → Option UserId) (members : ProjectId → UserId → Option Role) :
    (initial users members).EventsInv where
  unique := List.nodup_nil
  announced _ _ h := by cases h
  awaited _ _ h := by cases h
  agrees event howed := by
    cases howed with
    | answer id task htask => cases htask
    | swept sweepId sweep id task hsweep => cases hsweep
    | heldBack sweepId sweep hsweep => cases hsweep
  told key := Or.inr rfl

/-- A step that leaves the table alone and emits only what was owed. -/
structure Discharges (s t : Server) (events : List Emission) : Prop where
  leases : t.world.leases = s.world.leases
  emitted : t.world.emitted = events ++ s.world.emitted
  owed : ∀ event ∈ events, Owed s event
  old : ∀ event, Owed t event → Owed s event
  kept : ∀ event, Owed s event → Owed t event ∨ event ∈ events

theorem Discharges.agrees {s t : Server} {events : List Emission} (h : Discharges s t events)
    (hagrees : ∀ event, Owed s event → event.holder = s.world.leases.holder event.key) :
    ∀ event, Owed t event → event.holder = t.world.leases.holder event.key := by
  intro event howed
  rw [h.leases]
  exact hagrees event (h.old event howed)

theorem Discharges.told {s t : Server} {events : List Emission} (h : Discharges s t events) (hinv : s.EventsInv)
    (key : String) : (∃ event, Owed t event ∧ event.key = key) ∨ t.world.said key = t.world.leases.holder key := by
  by_cases hemits : ∃ event ∈ events, event.key = key
  · right
    rw [h.leases]
    refine World.said_of_agree h.emitted (fun event hmem hkey => ?_) hemits
    rw [hinv.agrees event (h.owed event hmem), hkey]
  · rw [h.leases, World.said_of_silent h.emitted fun event hmem hkey => hemits ⟨event, hmem, hkey⟩]
    refine (hinv.told key).imp_left ?_
    rintro ⟨event, howed, hkey⟩
    refine ⟨event, (h.kept event howed).resolve_right fun hmem => hemits ⟨event, hmem, hkey⟩, hkey⟩

/-- A step that keeps every task, starts some, and moves at most one loop. -/
theorem Discharges.of_tasks {s t : Server} {events : List Emission} (hkept : ∀ id task, s.tasks id = some task → t.tasks id = some task)
    (hold : ∀ id task, t.tasks id = some task → task.progress.emissions ≠ [] → s.tasks id = some task)
    (hleases : t.world.leases = s.world.leases) (hemitted : t.world.emitted = events ++ s.world.emitted)
    (howed : ∀ event ∈ events, Owed s event)
    (hsweeps : ∀ sweepId next, t.sweeps sweepId = some next → s.sweeps sweepId = some next ∨
      (∀ event ∈ next.released, Owed s event) ∧
        ∀ id task, next.current = some id → t.tasks id = some task → task.progress.emissions = [])
    (hloops : ∀ sweepId sweep, s.sweeps sweepId = some sweep → t.sweeps sweepId = some sweep ∨
      ((∀ event ∈ sweep.released, Owed t event ∨ event ∈ events) ∧
        ∀ id task, sweep.current = some id → s.tasks id = some task →
          ∀ event ∈ task.progress.emissions, Owed t event ∨ event ∈ events)) : Discharges s t events where
  leases := hleases
  emitted := hemitted
  owed := howed
  old event howed := by
    cases howed with
    | answer id task htask hcaller hannounced hmem =>
        exact .answer id task (hold id task htask (List.ne_nil_of_mem hmem)) hcaller hannounced hmem
    | swept sweepId next id task hnext hcurrent htask hmem =>
        rcases hsweeps sweepId next hnext with hsame | ⟨-, hsilent⟩
        · exact .swept sweepId next id task hsame hcurrent (hold id task htask (List.ne_nil_of_mem hmem)) hmem
        · simp [hsilent id task hcurrent htask] at hmem
    | heldBack sweepId next hnext hmem =>
        rcases hsweeps sweepId next hnext with hsame | ⟨hreleased, -⟩
        · exact .heldBack sweepId next hsame hmem
        · exact hreleased event hmem
  kept event howed := by
    cases howed with
    | answer id task htask hcaller hannounced hmem =>
        exact Or.inl (.answer id task (hkept id task htask) hcaller hannounced hmem)
    | swept sweepId sweep id task hsweep hcurrent htask hmem =>
        rcases hloops sweepId sweep hsweep with hsame | ⟨-, hcollected⟩
        · exact Or.inl (.swept sweepId sweep id task hsame hcurrent (hkept id task htask) hmem)
        · exact hcollected id task hcurrent htask event hmem
    | heldBack sweepId sweep hsweep hmem =>
        rcases hloops sweepId sweep hsweep with hsame | ⟨hreleased, -⟩
        · exact Or.inl (.heldBack sweepId sweep hsame hmem)
        · exact hreleased event hmem

theorem emissions_of_result {s : Server} {id : CallId} {task : Task} {result : Result} (htask : s.tasks id = some task)
    (hresult : s.result id = some result) : task.progress.emissions = emissions result := by
  obtain ⟨request, progress, announced⟩ := task
  cases progress with
  | settled found =>
      simp only [Server.result, htask, Option.some.injEq] at hresult
      rw [Progress.emissions, hresult]
  | _ => simp [Server.result, htask] at hresult

/-- A step of the loops moves events from a call to its loop or out. -/
theorem Discharges.of_sweep {s t : Server} (hkept : ∀ id task, s.tasks id = some task → t.tasks id = some task)
    (hold : ∀ id task, t.tasks id = some task → task.progress.emissions ≠ [] → s.tasks id = some task)
    (hleases : t.world.leases = s.world.leases) {sweepId : Nat} {next : Sweep}
    (hsweeps : t.sweeps = Function.update s.sweeps sweepId (some next))
    (hmoves : (∃ sweep, s.sweeps sweepId = some sweep ∧ SweepMoves s t sweep next) ∨
      (s.sweeps sweepId = none ∧ t.world = s.world ∧ SweepBegins s next)) : ∃ events, Discharges s t events := by
  have hself : t.sweeps sweepId = some next := by rw [hsweeps, Function.update_self]
  have hother : ∀ other, other ≠ sweepId → t.sweeps other = s.sweeps other := by
    intro other hne
    rw [hsweeps, Function.update_of_ne hne]
  have hrecord : ∀ released : List Emission, t.world = s.world.record (released.map .emitted) →
      t.world.emitted = released.reverse ++ s.world.emitted := by
    intro released hworld
    rw [hworld, World.emitted_record]
  -- What the moved loop owed before and after is all that matters.
  have hassemble : ∀ events : List Emission, t.world.emitted = events ++ s.world.emitted →
      (∀ event ∈ events, Owed s event) → (∀ event ∈ next.released, Owed s event) →
      (∀ id task, next.current = some id → t.tasks id = some task → task.progress.emissions = []) →
      (∀ sweep, s.sweeps sweepId = some sweep → (∀ event ∈ sweep.released, event ∈ next.released ∨ event ∈ events) ∧
        ∀ id task, sweep.current = some id → s.tasks id = some task →
          ∀ event ∈ task.progress.emissions, event ∈ next.released ∨ event ∈ events) → Discharges s t events := by
    intro events hemitted howed hreleased hcurrent hbefore
    have hlater : ∀ event, event ∈ next.released ∨ event ∈ events → Owed t event ∨ event ∈ events := by
      rintro event (hmem | hmem)
      · exact Or.inl (.heldBack sweepId next hself hmem)
      · exact Or.inr hmem
    refine .of_tasks hkept hold hleases hemitted howed (fun other found hfound => ?_) fun other found hfound => ?_
    · by_cases heq : other = sweepId
      · subst heq
        obtain rfl := Option.some.inj (hself.symm.trans hfound)
        exact Or.inr ⟨hreleased, hcurrent⟩
      · exact Or.inl ((hother other heq).symm.trans hfound)
    · by_cases heq : other = sweepId
      · subst heq
        obtain ⟨hreleased', hcurrent'⟩ := hbefore found hfound
        exact Or.inr ⟨fun event hmem => hlater event (hreleased' event hmem),
          fun id task hid htask event hmem => hlater event (hcurrent' id task hid htask event hmem)⟩
      · exact Or.inl ((hother other heq).trans hfound)
  rcases hmoves with ⟨sweep, hsweep, hmove⟩ | ⟨hnone, hworld, hbegins⟩
  · have hfound : ∀ found, s.sweeps sweepId = some found → found = sweep :=
      fun found h => Option.some.inj (h.symm.trans hsweep)
    have hheld : ∀ event ∈ sweep.released, Owed s event := fun event hmem => .heldBack sweepId sweep hsweep hmem
    have hresult : ∀ id result, sweep.current = some id → s.result id = some result →
        ∀ event ∈ emissions result, Owed s event := by
      intro id result hcurrent hresult event hmem
      obtain ⟨task, htask, hsettled⟩ := exists_task_of_result hresult
      exact .swept sweepId sweep id task hsweep hcurrent htask (by rwa [emissions_of_result htask hresult])
    cases hmove with
    | calls key projectId pending id hidle hpending htask hworld =>
        refine ⟨[], hassemble [] (by rw [hworld]; rfl) (by simp) hheld (fun id' task hid htask' => ?_)
          fun found hsome => ?_⟩
        · cases hid
          obtain rfl := Option.some.inj (htask.symm.trans htask')
          rfl
        · obtain rfl := hfound found hsome
          exact ⟨fun event hmem => Or.inl hmem, fun id' task hid => by simp [hidle] at hid⟩
    | ends hidle hpending hworld =>
        refine ⟨sweep.released.reverse, hassemble _ (hrecord _ hworld) (fun event hmem => hheld event (by simpa using hmem))
          (by simp) (fun id task hid => by simp [hidle] at hid) fun found hsome => ?_⟩
        obtain rfl := hfound found hsome
        exact ⟨fun event hmem => Or.inr (by simpa using hmem), fun id task hid => by simp [hidle] at hid⟩
    | holdsBack socketId id result hkind hcurrent hfinished hworld =>
        refine ⟨[], hassemble [] (by rw [hworld]; rfl) (by simp) (fun event hmem => ?_) (by simp) fun found hsome => ?_⟩
        · rcases List.mem_append.mp hmem with hmem | hmem
          · exact hheld event hmem
          · exact hresult id result hcurrent hfinished event hmem
        · obtain rfl := hfound found hsome
          refine ⟨fun event hmem => Or.inl (List.mem_append_left _ hmem), fun id' task hid htask event hmem => ?_⟩
          obtain rfl := Option.some.inj (hcurrent.symm.trans hid)
          rw [emissions_of_result htask hfinished] at hmem
          exact Or.inl (List.mem_append_right _ hmem)
    | emits id result hkind hcurrent hfinished hworld =>
        refine ⟨(emissions result).reverse, hassemble _ (hrecord _ hworld) (fun event hmem => ?_) hheld (by simp)
          fun found hsome => ?_⟩
        · exact hresult id result hcurrent hfinished event (by simpa using hmem)
        · obtain rfl := hfound found hsome
          refine ⟨fun event hmem => Or.inl hmem, fun id' task hid htask event hmem => ?_⟩
          obtain rfl := Option.some.inj (hcurrent.symm.trans hid)
          rw [emissions_of_result htask hfinished] at hmem
          exact Or.inr (by simpa using hmem)
  · refine ⟨[], hassemble [] (by rw [hworld]; rfl) (by simp) ?_ ?_ fun sweep hsweep => ?_⟩
    · cases hbegins <;> simp
    · cases hbegins <;> simp
    · rw [hnone] at hsweep
      cases hsweep

theorem Discharges.of_announce {s t : Server} {id : CallId} (h : s.announce id = some t) :
    ∃ events, Discharges s t events := by
  simp only [announce, Option.bind_eq_some_iff, Option.map_eq_some_iff, Option.filter_eq_some_iff, Bool.and_eq_true,
    Bool.not_eq_true'] at h
  obtain ⟨-, -, task, ⟨htask, hannounced, hcaller⟩, result, hresult, rfl⟩ := h
  have hemissions := emissions_of_result htask hresult
  -- Another task, or the announced one, as it was.
  have hold : ∀ other found, (((s.emit (emissions result)).setTask id { task with announced := true }).tasks other =
      some found) → ∃ old, s.tasks other = some old ∧ old.progress = found.progress ∧
        (found.announced = false → old = found) := by
    intro other found hfound
    by_cases heq : other = id
    · subst heq
      rw [setTask_tasks_self] at hfound
      obtain rfl := Option.some.inj hfound
      exact ⟨task, htask, rfl, fun h => by cases h⟩
    · exact ⟨found, (setTask_tasks_of_ne _ _ heq).symm.trans hfound, rfl, fun _ => rfl⟩
  refine ⟨(emissions result).reverse, rfl, World.emitted_record s.world (emissions result), fun event hmem => ?_,
    fun event howed => ?_, fun event howed => ?_⟩
  · exact .answer id task htask hcaller hannounced (by rw [hemissions]; simpa using hmem)
  · cases howed with
    | answer other found hfound hcaller' hannounced' hmem =>
        obtain ⟨old, holdTask, -, hsame⟩ := hold other found hfound
        obtain rfl := hsame hannounced'
        exact .answer other old holdTask hcaller' hannounced' hmem
    | swept sweepId sweep other found hsweep hcurrent hfound hmem =>
        obtain ⟨old, holdTask, hprogress, -⟩ := hold other found hfound
        exact .swept sweepId sweep other old hsweep hcurrent holdTask (hprogress ▸ hmem)
    | heldBack sweepId sweep hsweep hmem => exact .heldBack sweepId sweep hsweep hmem
  · cases howed with
    | answer other found hfound hcaller' hannounced' hmem =>
        by_cases heq : other = id
        · subst heq
          obtain rfl := Option.some.inj (htask.symm.trans hfound)
          rw [hemissions] at hmem
          exact Or.inr (by simpa using hmem)
        · exact Or.inl (.answer other found ((setTask_tasks_of_ne _ _ heq).trans hfound) hcaller' hannounced' hmem)
    | swept sweepId sweep other found hsweep hcurrent hfound hmem =>
        by_cases heq : other = id
        · subst heq
          obtain rfl := Option.some.inj (htask.symm.trans hfound)
          exact Or.inl (.swept sweepId sweep other _ hsweep hcurrent (setTask_tasks_self ..) hmem)
        · exact Or.inl (.swept sweepId sweep other found hsweep hcurrent ((setTask_tasks_of_ne _ _ heq).trans hfound) hmem)
    | heldBack sweepId sweep hsweep hmem => exact Or.inl (.heldBack sweepId sweep hsweep hmem)

/-- Every step but the turns of the bodies emits what was owed and keeps the table. -/
theorem Inv.discharges {s t : Server} (h : s.Inv) {label : Label} (hstep : s.step label = some t) (hquiet : IsQuiet label)
    (hquiet' : Quiet s t) : ∃ events, Discharges s t events := by
  by_cases hannounce : ∃ id, label = .announce id
  · obtain ⟨id, rfl⟩ := hannounce
    exact Discharges.of_announce hstep
  have hkept : ∀ id task, s.tasks id = some task → t.tasks id = some task := fun id task htask =>
    (h.keeps_task hstep hquiet htask).resolve_right fun hmarked => hannounce ⟨id, hmarked.1⟩
  have hold : ∀ id task, t.tasks id = some task → task.progress.emissions ≠ [] → s.tasks id = some task := by
    intro id task htask hemissions
    rcases hquiet'.tasks id task htask with ⟨old, hold, -⟩ | ⟨hbegun, -⟩
    · rw [← htask, hkept id old hold, hold]
    · rw [hbegun] at hemissions
      exact absurd rfl hemissions
  rcases h.sweeps_of_step hstep with ⟨hsweeps, hhistory⟩ | ⟨sweepId, next, hsweeps, hmoves⟩
  · have hsame : t.world.history = s.world.history := by
      rcases hhistory with hsame | ⟨id, input, rfl⟩ | hmarked
      · exact hsame
      · exact absurd rfl (hquiet id input)
      · exact absurd hmarked hannounce
    refine ⟨[], .of_tasks hkept hold hquiet'.leases (by rw [World.emitted, hsame]; rfl) (by simp) ?_ ?_⟩
    · exact fun sweepId found hfound => Or.inl (hsweeps ▸ hfound)
    · exact fun sweepId found hfound => Or.inl (hsweeps ▸ hfound)
  · refine Discharges.of_sweep hkept hold hquiet'.leases hsweeps (hmoves.imp_right ?_)
    exact fun hbegins => ⟨hbegins.1, hbegins.2.1, hbegins.2.2.1⟩

/-! ### The invariant over runs -/

theorem EventsInv.quiet {s t : Server} (h : s.EventsInv) (hinv : s.Inv) {label : Label} (hstep : s.step label = some t)
    (hquiet : IsQuiet label) (hquiet' : Quiet s t) : t.EventsInv := by
  obtain ⟨events, hdischarges⟩ := hinv.discharges hstep hquiet hquiet'
  refine ⟨hquiet'.leases ▸ h.unique, fun id task htask hannounced => ?_, fun id task htask hswept => ?_,
    hdischarges.agrees h.agrees, hdischarges.told h⟩
  · cases hold : s.tasks id with
    | none =>
        rw [(hinv.new_task hstep hquiet hold htask).2.1] at hannounced
        cases hannounced
    | some old =>
        rcases hinv.keeps_task hstep hquiet hold with hkept | ⟨rfl, hmarked⟩
        · obtain rfl := Option.some.inj (hkept.symm.trans htask)
          exact h.announced id old hold hannounced
        · obtain rfl := Option.some.inj (hmarked.symm.trans htask)
          simp only [step, announce, Option.bind_eq_some_iff, Option.map_eq_some_iff] at hstep
          obtain ⟨-, -, -, -, result, hresult, -⟩ := hstep
          obtain ⟨found, hfound, hsettled⟩ := exists_task_of_result hresult
          obtain rfl := Option.some.inj (hold.symm.trans hfound)
          exact ⟨result, hsettled⟩
  · cases hold : s.tasks id with
    | none => exact Or.inr ((hinv.new_task hstep hquiet hold htask).2.2 hswept)
    | some old =>
        obtain ⟨hrequest, hprogress⟩ : old.request = task.request ∧ old.progress = task.progress := by
          rcases hinv.keeps_task hstep hquiet hold with hkept | ⟨-, hmarked⟩
          · obtain rfl := Option.some.inj (hkept.symm.trans htask)
            exact ⟨rfl, rfl⟩
          · obtain rfl := Option.some.inj (hmarked.symm.trans htask)
            exact ⟨rfl, rfl⟩
        rw [← hprogress]
        rcases h.awaited id old hold (hrequest ▸ hswept) with hsettled | ⟨sweepId, sweep, hsweep, hcurrent⟩
        · exact Or.inl hsettled
        · have hcollected : ∀ id' result, sweep.current = some id' → s.result id' = some result →
              ∃ result, old.progress = .settled result := by
            intro id' result hcurrent' hresult
            obtain rfl := Option.some.inj (hcurrent.symm.trans hcurrent')
            obtain ⟨found, hfound, hsettled⟩ := exists_task_of_result hresult
            obtain rfl := Option.some.inj (hold.symm.trans hfound)
            exact ⟨result, hsettled⟩
          obtain ⟨next, hnext, hmoves⟩ := hinv.exists_sweep_of_step hstep hsweep
          rcases hmoves with rfl | hmove
          · exact Or.inr ⟨sweepId, next, hnext, hcurrent⟩
          cases hmove with
          | calls key projectId pending id' hidle => simp [hidle] at hcurrent
          | ends hidle => simp [hidle] at hcurrent
          | holdsBack socketId id' result hkind hcurrent' hresult => exact Or.inl (hcollected id' result hcurrent' hresult)
          | emits id' result hkind hcurrent' hresult => exact Or.inl (hcollected id' result hcurrent' hresult)

theorem body_settled (w : World) (input : Input) (result : Result) (request : Request) :
    w.body input (.settled result) request = none := by
  cases request <;> rfl

variable {s t : Server} {id : CallId} {input : Input} {call : CoordinatorCall} {task : Task} {progress : Progress}

theorem EventsInv.turn (h : s.EventsInv) (hturn : Turn s t id input call task progress)
    (hovertakes : NotOvertaking s (.turn id input)) (hstep : s.step (.turn id input) = some t) : t.EventsInv := by
  have hleases := LeaseTurn.of_body hturn.hbody
  have hunsettled : ∀ result, task.progress ≠ .settled result := by
    intro result hsettled
    have hbody := hturn.hbody
    rw [hsettled, body_settled] at hbody
    cases hbody
  have hsilent : task.progress.emissions = [] := by
    cases hprogress : task.progress with
    | settled result => exact absurd hprogress (hunsettled result)
    | _ => rfl
  have hopen : task.announced = false := by
    by_contra hannounced
    obtain ⟨result, hsettled⟩ := h.announced id task hturn.htask (by simpa using hannounced)
    exact hunsettled result hsettled
  have hsweeps : t.sweeps = s.sweeps := by
    rw [hturn.next]
    rfl
  -- What was owed is still owed, since the acting task owed nothing.
  have hkept : ∀ event, Owed s event → Owed t event := by
    intro event howed
    have hne : ∀ other found, s.tasks other = some found → event ∈ found.progress.emissions →
        t.tasks other = some found := by
      intro other found hfound hmem
      have hother : other ≠ id := by
        rintro rfl
        obtain rfl := Option.some.inj (hturn.htask.symm.trans hfound)
        simp [hsilent] at hmem
      exact (hturn.tasks_of_ne hother).trans hfound
    cases howed with
    | answer other found hfound hcaller hannounced hmem =>
        exact .answer other found (hne other found hfound hmem) hcaller hannounced hmem
    | swept sweepId sweep other found hsweep hcurrent hfound hmem =>
        exact .swept sweepId sweep other found (hsweeps ▸ hsweep) hcurrent (hne other found hfound hmem) hmem
    | heldBack sweepId sweep hsweep hmem => exact .heldBack sweepId sweep (hsweeps ▸ hsweep) hmem
  have hnew : ∀ event, Owed t event → Owed s event ∨ event ∈ progress.emissions := by
    intro event howed
    have hfrom : ∀ other found, t.tasks other = some found → event ∈ found.progress.emissions →
        s.tasks other = some found ∨ event ∈ progress.emissions := by
      intro other found hfound hmem
      by_cases heq : other = id
      · subst heq
        obtain rfl := Option.some.inj (hturn.tasks_self.symm.trans hfound)
        exact Or.inr hmem
      · exact Or.inl ((hturn.tasks_of_ne heq).symm.trans hfound)
    cases howed with
    | answer other found hfound hcaller hannounced hmem =>
        exact (hfrom other found hfound hmem).imp_left fun hold => .answer other found hold hcaller hannounced hmem
    | swept sweepId sweep other found hsweep hcurrent hfound hmem =>
        exact (hfrom other found hfound hmem).imp_left fun hold =>
          .swept sweepId sweep other found (hsweeps ▸ hsweep) hcurrent hold hmem
    | heldBack sweepId sweep hsweep hmem => exact Or.inl (.heldBack sweepId sweep (hsweeps ▸ hsweep) hmem)
  have howes : ∀ event ∈ progress.emissions, Owed t event := by
    intro event hmem
    by_cases hcaller : isSwept task.request = true
    · rcases h.awaited id task hturn.htask hcaller with ⟨result, hsettled⟩ | ⟨sweepId, sweep, hsweep, hcurrent⟩
      · exact absurd hsettled (hunsettled result)
      · exact .swept sweepId sweep id _ (hsweeps ▸ hsweep) hcurrent hturn.tasks_self hmem
    · exact .answer id _ hturn.tasks_self (by simpa using hcaller) hopen hmem
  refine ⟨hleases.uniqueKeys h.unique, fun other found hfound hannounced => ?_, fun other found hfound hswept => ?_,
    fun event howed => ?_, fun key => ?_⟩
  · by_cases heq : other = id
    · subst heq
      obtain rfl := Option.some.inj (hturn.tasks_self.symm.trans hfound)
      rw [hopen] at hannounced
      cases hannounced
    · exact h.announced other found ((hturn.tasks_of_ne heq).symm.trans hfound) hannounced
  · rw [hsweeps]
    by_cases heq : other = id
    · subst heq
      obtain rfl := Option.some.inj (hturn.tasks_self.symm.trans hfound)
      rcases h.awaited other task hturn.htask hswept with ⟨result, hsettled⟩ | hloop
      · exact absurd hsettled (hunsettled result)
      · exact Or.inr hloop
    · exact h.awaited other found ((hturn.tasks_of_ne heq).symm.trans hfound) hswept
  · rcases hnew event howed with hold | hmem
    · rw [hovertakes t hstep event hold]
      exact h.agrees event hold
    · exact hleases.emissions_agree hmem
  · rcases h.told key with ⟨event, howed, hkey⟩ | hsaid
    · exact Or.inl ⟨event, hkept event howed, hkey⟩
    · exact (hleases.said_or_owed h.unique hsaid).imp_left fun ⟨event, hmem, hkey⟩ => ⟨event, howes event hmem, hkey⟩

theorem eventsInv_preserved ⦃s : Server⦄ ⦃label : Label⦄ ⦃t : Server⦄ (h : s.Inv ∧ s.EventsInv)
    (hovertakes : NotOvertaking s label) (hstep : s.step label = some t) : t.Inv ∧ t.EventsInv := by
  refine ⟨inv_preserved h.1 hstep, ?_⟩
  by_cases hquiet : IsQuiet label
  · rcases turn_or_quiet hstep with ⟨id, input, call, task, progress, rfl, -⟩ | hquiet'
    · exact absurd rfl (hquiet id input)
    · exact h.2.quiet h.1 hstep hquiet hquiet'
  · simp only [IsQuiet, not_forall, not_not] at hquiet
    obtain ⟨id, input, rfl⟩ := hquiet
    obtain ⟨call, task, progress, hturn⟩ := exists_turn hstep
    exact h.2.turn hturn hovertakes hstep

/-- No handler is in flight: every caller has emitted, and every loop has come to its end. -/
structure AtRest (s : Server) : Prop where
  calls : ∀ id task, s.tasks id = some task → isSwept task.request = true ∨ task.announced = true
  loops : ∀ sweepId sweep, s.sweeps sweepId = some sweep →
    sweep.pending = [] ∧ sweep.current = none ∧ sweep.released = []

/-- The last event about a key is `field:locked` if and only if the table holds a lease for it, and
names the lease's socket. -/
structure EventsTrue (w : World) : Prop where
  locked_iff : ∀ key, (∃ projectId lock, w.lastEvent key = some (.fieldLocked projectId key lock)) ↔
    ∃ lease, get w.leases key = some lease
  names : ∀ key projectId lock lease, w.lastEvent key = some (.fieldLocked projectId key lock) →
    get w.leases key = some lease → lock.socketId = lease.socketId

theorem AtRest.not_owed (h : AtRest s) (event : Emission) : ¬Owed s event := by
  intro howed
  cases howed with
  | answer id task htask hcaller hopen hmem =>
      have hsettled := h.calls id task htask
      simp [hcaller, hopen] at hsettled
  | swept sweepId sweep id task hsweep hcurrent htask hmem => simp [(h.loops sweepId sweep hsweep).2.1] at hcurrent
  | heldBack sweepId sweep hsweep hmem => simp [(h.loops sweepId sweep hsweep).2.2] at hmem

theorem eventsTrue_of_said {w : World} (h : ∀ key, w.said key = w.leases.holder key) : EventsTrue w := by
  have hkey : ∀ key event, w.lastEvent key = some event → event.key = key := fun key event hlast => by
    simpa using List.find?_some hlast
  have hsaid : ∀ key projectId lock, w.lastEvent key = some (.fieldLocked projectId key lock) →
      w.leases.holder key = some lock.socketId := by
    intro key projectId lock hlast
    rw [← h key, World.said, hlast]
    rfl
  refine ⟨fun key => ⟨?_, ?_⟩, fun key projectId lock lease hlast hget => ?_⟩
  · rintro ⟨projectId, lock, hlast⟩
    obtain ⟨lease, hget, -⟩ := Option.map_eq_some_iff.mp (hsaid key projectId lock hlast)
    exact ⟨lease, hget⟩
  · rintro ⟨lease, hget⟩
    have hholder : w.said key = some lease.socketId := by rw [h key, Leases.holder, hget, Option.map_some]
    obtain ⟨event, hlast, hevent⟩ := Option.bind_eq_some_iff.mp hholder
    cases event with
    | fieldLocked projectId key' lock =>
        obtain rfl : key' = key := hkey key _ hlast
        exact ⟨projectId, lock, hlast⟩
    | fieldUnlocked => cases hevent
  · have hholder := hsaid key projectId lock hlast
    rw [Leases.holder, hget, Option.map_some] at hholder
    exact (Option.some.inj hholder).symm

/-- **Lock events tell the truth** in every run in which no key changes hands while an event about
it is owed. -/
theorem events_true_of_no_overtaking (users : String → Option UserId) (members : ProjectId → UserId → Option Role)
    (labels : List Label) (s : Server) (hrun : Runs.run step (initial users members) labels = some s)
    (hovertakes : Runs.Along step NotOvertaking (initial users members) labels) (hrest : AtRest s) :
    EventsTrue s.world := by
  obtain ⟨-, hevents⟩ := Runs.Along.run eventsInv_preserved ⟨inv_initial users members, eventsInv_initial users members⟩
    hovertakes hrun
  refine eventsTrue_of_said fun key => (hevents.told key).resolve_left ?_
  rintro ⟨event, howed, -⟩
  exact hrest.not_owed event howed

/-! ### Checking a run

The calls and the loops of a run are those its labels start, so what is owed in it can be computed.
-/

/-- The label starts no call and no loop beyond the listed ones. -/
def Label.within (calls : List CallId) (loops : List Nat) : Label → Bool
  | .request id _ => calls.contains id
  | .sweepNext _ id => calls.contains id
  | .sweep sweepId _ => loops.contains sweepId
  | _ => true

/-- All calls and loops of the state are listed. -/
structure Within (calls : List CallId) (loops : List Nat) (s : Server) : Prop where
  calls : ∀ id task, s.tasks id = some task → id ∈ calls
  loops : ∀ sweepId sweep, s.sweeps sweepId = some sweep → sweepId ∈ loops

theorem within_initial (calls : List CallId) (loops : List Nat) (users : String → Option UserId)
    (members : ProjectId → UserId → Option Role) : Within calls loops (initial users members) where
  calls _ _ h := by cases h
  loops _ _ h := by cases h

theorem Within.step {calls : List CallId} {loops : List Nat} (h : Within calls loops s) (hinv : s.Inv) {label : Label}
    (hwithin : label.within calls loops) (hstep : s.step label = some t) : Within calls loops t where
  calls id task htask := by
    cases hold : s.tasks id with
    | some old => exact h.calls id old hold
    | none =>
        by_cases hquiet : IsQuiet label
        · rcases (hinv.new_task hstep hquiet hold htask).1 with rfl | ⟨-, sweepId, rfl⟩
          · simpa [Label.within] using hwithin
          · simpa [Label.within] using hwithin
        · simp only [IsQuiet, not_forall, not_not] at hquiet
          obtain ⟨actor, input, rfl⟩ := hquiet
          obtain ⟨call, acting, progress, hturn⟩ := exists_turn hstep
          have hne : id ≠ actor := by
            rintro rfl
            rw [hturn.htask] at hold
            cases hold
          rw [hturn.tasks_of_ne hne, hold] at htask
          cases htask
  loops sweepId sweep hsweep := by
    rcases hinv.sweeps_of_step hstep with ⟨hsame, -⟩ | ⟨moved, next, hsweeps, hmoves⟩
    · exact h.loops sweepId sweep (hsame ▸ hsweep)
    · by_cases heq : sweepId = moved
      · subst heq
        rcases hmoves with ⟨old, hold, -⟩ | ⟨-, -, -, kind, rfl⟩
        · exact h.loops sweepId old hold
        · simpa [Label.within] using hwithin
      · rw [hsweeps, Function.update_of_ne heq] at hsweep
        exact h.loops sweepId sweep hsweep

/-- The owed events of a state whose calls and loops are listed. -/
def owedOf (calls : List CallId) (loops : List Nat) (s : Server) : List Emission :=
  (calls.flatMap fun id => (s.tasks id).toList.flatMap fun task =>
      if isSwept task.request || task.announced then [] else task.progress.emissions) ++
    loops.flatMap fun sweepId => (s.sweeps sweepId).toList.flatMap fun sweep =>
      sweep.released ++ sweep.current.toList.flatMap fun id => (s.tasks id).toList.flatMap (·.progress.emissions)

theorem Within.mem_owedOf {calls : List CallId} {loops : List Nat} (h : Within calls loops s) {event : Emission}
    (howed : Owed s event) : event ∈ owedOf calls loops s := by
  simp only [owedOf, List.mem_append, List.mem_flatMap, Option.mem_toList]
  cases howed with
  | answer id task htask hcaller hannounced hmem =>
      exact Or.inl ⟨id, h.calls id task htask, task, htask, by simpa [hcaller, hannounced] using hmem⟩
  | swept sweepId sweep id task hsweep hcurrent htask hmem =>
      exact Or.inr ⟨sweepId, h.loops sweepId sweep hsweep, sweep, hsweep, Or.inr ⟨id, hcurrent, task, htask, hmem⟩⟩
  | heldBack sweepId sweep hsweep hmem =>
      exact Or.inr ⟨sweepId, h.loops sweepId sweep hsweep, sweep, hsweep, Or.inl hmem⟩

def checkStep (calls : List CallId) (loops : List Nat) (s : Server) (label : Label) : Bool :=
  label.within calls loops && (s.step label).all fun t =>
    (owedOf calls loops s).all fun event => t.world.leases.holder event.key == s.world.leases.holder event.key

theorem notOvertaking_of_check {calls : List CallId} {loops : List Nat} {labels : List Label} (hinv : s.Inv)
    (hwithin : Within calls loops s) (hcheck : Runs.checkAlong step (checkStep calls loops) s labels) :
    Runs.Along step NotOvertaking s labels := by
  induction labels generalizing s with
  | nil => trivial
  | cons label labels ih =>
      rw [Runs.checkAlong, Bool.and_eq_true, checkStep, Bool.and_eq_true] at hcheck
      obtain ⟨⟨hlabel, hholders⟩, hrest⟩ := hcheck
      refine ⟨fun t hstep event howed => ?_, fun t hstep => ?_⟩
      · rw [hstep, Option.all_some, List.all_eq_true] at hholders
        exact beq_iff_eq.mp (hholders event (hwithin.mem_owedOf howed))
      · rw [hstep, Option.all_some] at hrest
        exact ih (inv_preserved hinv hstep) (hwithin.step hinv hlabel hstep) hrest

theorem within_of_run {calls : List CallId} {loops : List Nat} {labels : List Label} (hinv : s.Inv)
    (hwithin : Within calls loops s) (hlabels : labels.all (Label.within calls loops))
    (hrun : Runs.run step s labels = some t) : Within calls loops t := by
  induction labels generalizing s with
  | nil =>
      cases hrun
      exact hwithin
  | cons label labels ih =>
      rw [List.all_cons, Bool.and_eq_true] at hlabels
      obtain ⟨middle, hstep, hrest⟩ := Runs.run_cons_eq_some.mp hrun
      exact ih (inv_preserved hinv hstep) (hwithin.step hinv hlabels.1 hstep) hlabels.2 hrest

def checkRest (calls : List CallId) (loops : List Nat) (s : Server) : Bool :=
  (calls.all fun id => (s.tasks id).all fun task => isSwept task.request || task.announced) &&
    loops.all fun sweepId => (s.sweeps sweepId).all fun sweep =>
      sweep.pending.isEmpty && sweep.current.isNone && sweep.released.isEmpty

theorem Within.atRest {calls : List CallId} {loops : List Nat} (h : Within calls loops s)
    (hcheck : checkRest calls loops s) : AtRest s := by
  rw [checkRest, Bool.and_eq_true, List.all_eq_true, List.all_eq_true] at hcheck
  refine ⟨fun id task htask => ?_, fun sweepId sweep hsweep => ?_⟩
  · have hcalls := hcheck.1 id (h.calls id task htask)
    rw [htask, Option.all_some, Bool.or_eq_true] at hcalls
    exact hcalls
  · have hloops := hcheck.2 sweepId (h.loops sweepId sweep hsweep)
    rw [hsweep, Option.all_some] at hloops
    simpa [and_assoc] using hloops

/-! ### An event that comes too late

Ann holds two fields and closes her tab while the second is being saved. `releaseSocket` releases
the first and waits for the save; meanwhile Bob locks the first field. -/

def annTab : Socket := ⟨"ann-tab", "ann", "ann", none⟩
def bobTab : Socket := ⟨"bob-tab", "bob", "bob", none⟩

def bothMembers (projectId : ProjectId) (userId : UserId) : Option Role :=
  if projectId = "project" ∧ userId = "ann" then some .OWNER
  else if projectId = "project" ∧ userId = "bob" then some .MEMBER
  else none

/-- A call of `joinRooms` for one membership, from start to end. -/
def joining (id : CallId) (client : Socket) : List Label :=
  [.request id (.joinRoom client "project"), .coordination (.enterProject id), .turn id {}, .turn id {}, .turn id {},
    .coordination (.settleBody id), .coordination (.leave id), .announce id]

/-- A `field:lock`, from start to end. -/
def locking (id : CallId) (client : Socket) (key randomUUID : String) : List Label :=
  [.request id (.field .lock client "project" key), .coordination (.enterProject id), .coordination (.enterKey id),
    .turn id {}, .turn id {}, .turn id {}, .turn id {}, .turn id { randomUUID }, .coordination (.settleBody id),
    .coordination (.leave id), .announce id]

/-- Both tabs are open, and Ann has locked two fields. -/
def bothLocked : List Label :=
  [.setRow .checklistItem "1" (some ⟨"project", "first"⟩), .setRow .checklistItem "2" (some ⟨"project", "second"⟩),
    .connect annTab, .connect bobTab, .ready "ann-tab", .ready "bob-tab"] ++
  joining 0 annTab ++ joining 1 bobTab ++ locking 2 annTab "checklist-item:1" "lease-1" ++
  locking 3 annTab "checklist-item:2" "lease-2"

/-- Ann's save has started when her tab is closed; the first of her leases is released at once. -/
def closedWhileSaving : List Label :=
  [.request 4 (.update .checklistItem "project" "2" "text" "ann" (some "lease-2")), .coordination (.enterProject 4),
    .coordination (.enterKey 4), .turn 4 {}, .disconnect "ann-tab", .sweep 0 (.releaseSocket "ann-tab"), .sweepNext 0 5,
    .coordination (.enterProject 5), .coordination (.enterKey 5), .turn 5 {}, .coordination (.settleBody 5),
    .coordination (.leave 5), .sweepCollect 0, .sweepNext 0 6, .coordination (.enterProject 6)]

/-- The save ends, the second lease is released, and `handleDisconnect` emits. -/
def disconnectEnds : List Label :=
  [.turn 4 {}, .turn 4 {}, .turn 4 {}, .turn 4 {}, .turn 4 {}, .turn 4 {}, .coordination (.settleBody 4),
    .coordination (.settleTail 4), .coordination (.leave 4), .announce 4, .coordination (.enterKey 6), .turn 6 {},
    .coordination (.settleBody 6), .coordination (.leave 6), .sweepCollect 0, .sweepNext 0 8]

def overtaken : List Label :=
  bothLocked ++ closedWhileSaving ++ locking 7 bobTab "checklist-item:1" "lease-3" ++ disconnectEnds

/-- After it, the events say that nobody edits the field, while Bob holds its lease. -/
theorem not_events_true_of_overtaken : ¬∀ (users : String → Option UserId) (members : ProjectId → UserId → Option Role)
    (labels : List Label) (s : Server), Runs.run step (initial users members) labels = some s → AtRest s →
      EventsTrue s.world := by
  intro hall
  have hend : (Runs.run step (initial (fun _ => none) bothMembers) overtaken).map (fun s =>
      (checkRest (List.range 9) [0] s, s.world.lastEvent "checklist-item:1",
        s.world.leases.holder "checklist-item:1")) =
      some (true, some (.fieldUnlocked "project" "checklist-item:1"), some "bob-tab") := by decide +kernel
  obtain ⟨s, hrun, hs⟩ := Option.map_eq_some_iff.mp hend
  simp only [Prod.mk.injEq] at hs
  obtain ⟨hrest, hlast, hholder⟩ := hs
  have hinv := inv_initial (fun _ => none) bothMembers
  have hwithin := within_of_run hinv (within_initial (List.range 9) [0] (fun _ => none) bothMembers)
    (by decide +kernel) hrun
  obtain ⟨lease, hget, -⟩ := Option.map_eq_some_iff.mp hholder
  obtain ⟨projectId, lock, hlocked⟩ :=
    ((hall _ _ overtaken s hrun (hwithin.atRest hrest)).locked_iff "checklist-item:1").mpr ⟨lease, hget⟩
  rw [hlast] at hlocked
  cases hlocked

/-- Bob's request comes after the loop instead. -/
def inTurn : List Label :=
  bothLocked ++ closedWhileSaving ++ disconnectEnds ++ locking 7 bobTab "checklist-item:1" "lease-3"

theorem events_true_of_inTurn : ∃ s, Runs.run step (initial (fun _ => none) bothMembers) inTurn = some s ∧
    s.world.leases.holder "checklist-item:1" = some "bob-tab" ∧ EventsTrue s.world := by
  have hend : (Runs.run step (initial (fun _ => none) bothMembers) inTurn).map (fun s =>
      (checkRest (List.range 9) [0] s, s.world.leases.holder "checklist-item:1")) =
      some (true, some "bob-tab") := by decide +kernel
  obtain ⟨s, hrun, hs⟩ := Option.map_eq_some_iff.mp hend
  simp only [Prod.mk.injEq] at hs
  obtain ⟨hrest, hholder⟩ := hs
  have hinv := inv_initial (fun _ => none) bothMembers
  have hinitial := within_initial (List.range 9) [0] (fun _ => none) bothMembers
  have hcheck : Runs.checkAlong step (checkStep (List.range 9) [0]) (initial (fun _ => none) bothMembers)
      inTurn := by decide +kernel
  exact ⟨s, hrun, hholder, events_true_of_no_overtaking (fun _ => none) bothMembers inTurn s hrun
    (notOvertaking_of_check hinv hinitial hcheck)
    ((within_of_run hinv hinitial (by decide +kernel) hrun).atRest hrest)⟩

end Server

end Transcendence.Realtime
