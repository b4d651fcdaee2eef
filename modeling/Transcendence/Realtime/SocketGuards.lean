import Transcendence.Realtime.SessionRegistry

/-!
# The guards of a socket

What a step of the gateway does to the timers that guard the sockets (`Move`), and that a socket that is ready has
both of its timers for as long as it is connected (`Watched`).
-/

namespace Transcendence.Realtime.SessionSockets

/-- The socket is ready and connected. -/
def Client.Active (client : Client) : Prop := client.phase = .ready ∧ client.connected = true

instance (client : Client) : Decidable client.Active := inferInstanceAs (Decidable (_ ∧ _))

/-- The timer that fires, or whose request is answered. -/
def Label.timer : Label → Option Nat
  | .fire timer => some timer
  | .revalidated timer _ => some timer
  | _ => none

/-- The timer that fires. -/
def Label.fired : Label → Option Nat
  | .fire timer => some timer
  | _ => none

/-- What a step does to the sockets that are ready and connected, and to the timers. -/
inductive Move (s t : State) (label : Label) : Prop where
  | other (hlabel : label.timer = none) (timers : t.timers = s.timers) (guards : t.socketGuards = s.socketGuards)
      (inFlight : t.revalidationInFlight = s.revalidationInFlight)
      (clients : ∀ id client, t.clients id = some client → client.Active → s.clients id = some client)
  | starts (id : String) (client : Client) (hlabel : label.timer = none) (hid : s.clients id = some client)
      (hphase : client.phase ≠ .ready) (next : t = (s.startSocketGuards id).setPhase id client .ready)
  | clears (id : String) (hlabel : label.timer = none) (timers : t.timers = (s.clearSocketGuards id).timers)
      (guards : t.socketGuards = (s.clearSocketGuards id).socketGuards)
      (inFlight : t.revalidationInFlight = s.revalidationInFlight)
      (clients : ∀ other client, t.clients other = some client → client.Active →
        other ≠ id ∧ s.clients other = some client)
  | skips (timer : Nat) (id : String) (hlabel : label = .fire timer)
      (armed : s.timers.armed timer = some ⟨id, .revalidation⟩)
      (why : s.revalidationInFlight timer ≠ none ∨ ∀ client, s.clients id = some client → ¬ client.Active)
      (next : t = s)
  | asks (timer : Nat) (id : String) (hlabel : label = .fire timer)
      (armed : s.timers.armed timer = some ⟨id, .revalidation⟩) (why : s.revalidationInFlight timer = none)
      (next : t = { s with revalidationInFlight := Function.update s.revalidationInFlight timer (some id) })
  | expires (timer : Nat) (id : String) (hlabel : label = .fire timer)
      (armed : s.timers.armed timer = some ⟨id, .lifetime⟩) (timers : t.timers = s.timers.clearTimeout timer)
      (guards : t.socketGuards = s.socketGuards) (inFlight : t.revalidationInFlight = s.revalidationInFlight)
      (clients : ∀ other client, t.clients other = some client → client.Active →
        other ≠ id ∧ s.clients other = some client)
  | answered (timer : Nat) (id : String) (active : Option Bool) (hlabel : label = .revalidated timer active)
      (inFlight : s.revalidationInFlight timer = some id) (timers : t.timers = s.timers)
      (guards : t.socketGuards = s.socketGuards)
      (next : t.revalidationInFlight = Function.update s.revalidationInFlight timer none)
      (clients : ∀ other client, t.clients other = some client → client.Active →
        (other = id → active = some true) ∧ s.clients other = some client)

variable {s t : State} {id : String} {client client' : Client} {label : Label}

/-- A socket that is set to something that is not ready or not connected. -/
theorem clients_setClient (hactive : ¬ client'.Active) (other : String) (found : Client)
    (hfound : (s.setClient id client').clients other = some found) (hready : found.Active) :
    other ≠ id ∧ s.clients other = some found := by
  have hfound : Function.update s.clients id (some client') other = some found := hfound
  by_cases heq : other = id
  · subst heq
    rw [Function.update_self] at hfound
    cases hfound
    exact absurd hready hactive
  · rw [Function.update_of_ne heq] at hfound
    exact ⟨heq, hfound⟩

theorem move_setClient (hlabel : label.timer = none) (hactive : ¬ client'.Active) :
    Move s (s.setClient id client') label :=
  .other hlabel rfl rfl rfl fun other found hfound hready => (clients_setClient hactive other found hfound hready).2

theorem not_active_of_phase (h : client.phase ≠ .ready) : ¬ client.Active := fun hactive => h hactive.1

theorem not_active_of_connected (h : client.connected = false) : ¬ client.Active := by
  intro hactive
  have hconnected := hactive.2
  rw [h] at hconnected
  cases hconnected

theorem move_nextMembership (hlabel : label.timer = none) (hid : s.clients id = some client) (hphase : client.phase ≠ .ready)
    (memberships : List String) : Move s (s.nextMembership id client memberships) label := by
  unfold State.nextMembership
  split_ifs
  · exact move_setClient hlabel (not_active_of_phase (by simp))
  · cases memberships with
    | nil => exact .starts id client hlabel hid hphase rfl
    | cons projectId memberships => exact move_setClient hlabel (not_active_of_phase (by simp))

theorem move_handleConnection (hlabel : label.timer = none) (userId sessionId : Option String) :
    Move s (s.handleConnection id userId sessionId) label := by
  unfold State.handleConnection
  dsimp only
  split
  · exact move_setClient hlabel (not_active_of_connected rfl)
  · unfold State.joinRooms
    split_ifs
    · exact .other hlabel rfl rfl rfl fun other found hfound hready =>
        (clients_setClient (not_active_of_phase (by simp)) other found hfound hready).2
    · exact .other hlabel rfl rfl rfl fun other found hfound hready =>
        (clients_setClient (not_active_of_phase (by simp)) other found hfound hready).2

theorem inFlight_clearSocketGuards (s : State) (id : String) :
    (s.clearSocketGuards id).revalidationInFlight = s.revalidationInFlight := by
  unfold State.clearSocketGuards
  split <;> rfl

/-- What is cleared depends only on the guards and the timers. -/
theorem clearSocketGuards_congr (id : String) (hguards : t.socketGuards = s.socketGuards) (htimers : t.timers = s.timers) :
    (t.clearSocketGuards id).timers = (s.clearSocketGuards id).timers ∧
      (t.clearSocketGuards id).socketGuards = (s.clearSocketGuards id).socketGuards := by
  unfold State.clearSocketGuards
  rw [hguards]
  split
  · exact ⟨htimers, hguards⟩
  · rw [htimers]
    exact ⟨rfl, rfl⟩

theorem move_handleDisconnect (hlabel : label.timer = none) (hconnected : client.connected = false) :
    Move s (s.handleDisconnect id client) label := by
  have hclient : ¬ { (s.sessionSockets.unregisterSessionSocket id client).2 with disconnectHandled := true }.Active := by
    rw [Registry.unregisterSessionSocket_snd]
    exact not_active_of_connected hconnected
  have hcleared := clearSocketGuards_congr (s := s)
    (t := { s with sessionSockets := (s.sessionSockets.unregisterSessionSocket id client).1 }.setClient id
      { (s.sessionSockets.unregisterSessionSocket id client).2 with disconnectHandled := true }) id rfl rfl
  refine .clears id hlabel hcleared.1 hcleared.2 (inFlight_clearSocketGuards _ id) fun other found hfound hready => ?_
  rw [State.handleDisconnect, clearSocketGuards_clients] at hfound
  exact clients_setClient (s := s) hclient other found hfound hready

theorem move_fire {timer : Nat} (h : s.step (.fire timer) = some t) : Move s t (.fire timer) := by
  obtain ⟨⟨id, kind⟩, harmed, hstep⟩ := Option.bind_eq_some_iff.mp h
  obtain ⟨client, hid, hstep⟩ := Option.bind_eq_some_iff.mp hstep
  cases kind with
  | revalidation =>
      dsimp only at hstep
      split_ifs at hstep with hskip
      · cases hstep
        refine .skips timer id rfl harmed (hskip.imp_right fun hconnected found hfound => ?_) rfl
        rw [hid] at hfound
        cases hfound
        exact not_active_of_connected hconnected
      · cases hstep
        exact .asks timer id rfl harmed (by simpa using (not_or.mp hskip).1) rfl
  | lifetime =>
      cases hstep
      refine .expires timer id rfl harmed rfl rfl rfl fun other found hfound hready => ?_
      exact clients_setClient (s := s) (not_active_of_connected rfl) other found hfound hready

theorem move_revalidated {timer : Nat} {active : Option Bool} (h : s.step (.revalidated timer active) = some t) :
    Move s t (.revalidated timer active) := by
  obtain ⟨id, hinFlight, hstep⟩ := Option.bind_eq_some_iff.mp h
  obtain ⟨client, hid, hstep⟩ := Option.bind_eq_some_iff.mp hstep
  dsimp only at hstep
  split_ifs at hstep with hactive
  · cases hstep
    exact .answered timer id active rfl hinFlight rfl rfl rfl fun other found hfound _ => ⟨fun _ => hactive, hfound⟩
  · cases hstep
    refine .answered timer id active rfl hinFlight rfl rfl rfl fun other found hfound hready => ?_
    obtain ⟨hne, hbefore⟩ := clients_setClient (s := s) (not_active_of_connected rfl) other found hfound hready
    exact ⟨fun heq => absurd heq hne, hbefore⟩

theorem move_step (h : s.step label = some t) : Move s t label := by
  cases label with
  | handleConnection id userId sessionId =>
      obtain ⟨-, hstep⟩ := Option.ite_none_right_eq_some.mp h
      cases hstep
      exact move_handleConnection rfl userId sessionId
  | joinedUserRoom id =>
      obtain ⟨client, hid, hstep⟩ := Option.bind_eq_some_iff.mp h
      split at hstep
      · cases hstep
        refine move_setClient rfl (not_active_of_phase ?_)
        show (if _ then _ else _) ≠ Phase.ready
        split <;> simp
      · cases hstep
  | foundMemberships id memberships =>
      obtain ⟨client, hid, hstep⟩ := Option.bind_eq_some_iff.mp h
      split at hstep
      · next hphase =>
          cases hstep
          exact move_nextMembership rfl hid (by simp [hphase]) memberships
      · cases hstep
  | enterProject id =>
      obtain ⟨client, hid, hstep⟩ := Option.bind_eq_some_iff.mp h
      split at hstep
      · cases hstep
        refine move_setClient rfl (not_active_of_phase ?_)
        show (if _ then _ else _) ≠ Phase.ready
        split <;> simp
      · cases hstep
  | countedMemberships id isCurrentProjectMember =>
      obtain ⟨client, hid, hstep⟩ := Option.bind_eq_some_iff.mp h
      split at hstep
      · cases hstep
        refine move_setClient rfl (not_active_of_phase ?_)
        show (if _ then _ else _) ≠ Phase.ready
        split <;> simp
      · cases hstep
  | joinedProjectRoom id =>
      obtain ⟨client, hid, hstep⟩ := Option.bind_eq_some_iff.mp h
      split at hstep
      · cases hstep
        exact move_setClient rfl (not_active_of_phase (by simp))
      · cases hstep
  | leftProject id =>
      obtain ⟨client, hid, hstep⟩ := Option.bind_eq_some_iff.mp h
      split at hstep
      · next memberships hphase =>
          cases hstep
          exact move_nextMembership rfl hid (by simp [hphase]) memberships
      · cases hstep
  | reject id =>
      obtain ⟨client, hid, hstep⟩ := Option.bind_eq_some_iff.mp h
      obtain ⟨-, hstep⟩ := Option.ite_none_right_eq_some.mp hstep
      cases hstep
      exact move_setClient rfl (not_active_of_phase (by simp))
  | giveUp id =>
      obtain ⟨client, hid, hstep⟩ := Option.bind_eq_some_iff.mp h
      split at hstep
      · cases hstep
        exact .other rfl rfl rfl rfl fun other found hfound hready =>
          (clients_setClient (s := s) (not_active_of_connected rfl) other found hfound hready).2
      · cases hstep
  | disconnect id =>
      obtain ⟨client, hid, hstep⟩ := Option.bind_eq_some_iff.mp h
      cases hstep
      exact move_setClient rfl (not_active_of_connected rfl)
  | handleDisconnect id =>
      obtain ⟨client, hid, hstep⟩ := Option.bind_eq_some_iff.mp h
      obtain ⟨hgone, hstep⟩ := Option.ite_none_right_eq_some.mp hstep
      cases hstep
      exact move_handleDisconnect rfl hgone.1
  | fire timer => exact move_fire h
  | revalidated timer active => exact move_revalidated h

/-! ### The timers of a socket -/

/-- The socket is ready and connected, and has both of its timers. -/
structure Guarded (s : State) (id : String) (client : Client) (guards : Guards) : Prop where
  found : s.clients id = some client
  active : client.Active
  entry : OrderedMap.get s.socketGuards id = some guards
  armed : ∀ kind, s.timers.armed (guards.timer kind) = some ⟨id, kind⟩

structure Watched (s : State) : Prop where
  guarded : ∀ id client, s.clients id = some client → client.Active → ∃ guards, Guarded s id client guards
  owned : ∀ id guards kind guard, OrderedMap.get s.socketGuards id = some guards →
    s.timers.armed (guards.timer kind) = some guard → guard = ⟨id, kind⟩
  allocated : ∀ id guards kind, OrderedMap.get s.socketGuards id = some guards → guards.timer kind < s.timers.next
  inFlight : ∀ timer id guard, s.revalidationInFlight timer = some id → s.timers.armed timer = some guard →
    guard.socketId = id
  started : ∀ timer id, s.revalidationInFlight timer = some id → timer < s.timers.next

variable {timer : Nat} {guard : GuardTimer} {guards : Guards} {other : String}

theorem lt_next_of_armed (harmed : s.timers.armed timer = some guard) : timer < s.timers.next := by
  by_contra hle
  rw [s.timers.fresh timer (Nat.le_of_not_lt hle)] at harmed
  cases harmed

theorem next_clearSocketGuards (s : State) (id : String) : (s.clearSocketGuards id).timers.next = s.timers.next := by
  unfold State.clearSocketGuards
  split <;> rfl

theorem get_clearSocketGuards_of_ne (s : State) (hne : other ≠ id) :
    OrderedMap.get (s.clearSocketGuards id).socketGuards other = OrderedMap.get s.socketGuards other := by
  unfold State.clearSocketGuards
  split
  · rfl
  · exact OrderedMap.get_delete_of_ne _ hne

theorem armed_of_clearSocketGuards (h : (s.clearSocketGuards id).timers.armed timer = some guard) :
    s.timers.armed timer = some guard := by
  unfold State.clearSocketGuards at h
  split at h
  · exact h
  · exact Timers.armed_of_clearTimeout (Timers.armed_of_clearTimeout h)

/-- Only the timers of the socket are cleared. -/
theorem Watched.armed_clearSocketGuards (h : Watched s) (harmed : s.timers.armed timer = some guard)
    (hne : guard.socketId ≠ id) : (s.clearSocketGuards id).timers.armed timer = some guard := by
  unfold State.clearSocketGuards
  split
  · exact harmed
  · next guards hget =>
      have hother : ∀ kind, timer ≠ guards.timer kind := by
        intro kind heq
        subst heq
        apply hne
        rw [h.owned id guards kind guard hget harmed]
      have hrevalidation : timer ≠ guards.revalidation := hother .revalidation
      have hlifetime : timer ≠ guards.lifetime := hother .lifetime
      simp only [Timers.armed_clearTimeout]
      rw [if_neg hlifetime, if_neg hrevalidation]
      exact harmed

/-- A step that clears the guards of a socket that is not ready and connected. -/
theorem Watched.cleared (h : Watched s) (htimers : t.timers = (s.clearSocketGuards id).timers)
    (hguards : t.socketGuards = (s.clearSocketGuards id).socketGuards)
    (hinFlight : t.revalidationInFlight = s.revalidationInFlight)
    (hclients : ∀ other client, t.clients other = some client → client.Active →
      other ≠ id ∧ s.clients other = some client) : Watched t := by
  have hentry : ∀ other guards, OrderedMap.get t.socketGuards other = some guards →
      OrderedMap.get s.socketGuards other = some guards := by
    intro other guards hget
    rw [hguards] at hget
    by_cases heq : other = id
    · rw [heq, get_clearSocketGuards] at hget
      cases hget
    · rwa [get_clearSocketGuards_of_ne s heq] at hget
  have harmed : ∀ timer guard, t.timers.armed timer = some guard → s.timers.armed timer = some guard := by
    intro timer guard harmed
    rw [htimers] at harmed
    exact armed_of_clearSocketGuards harmed
  have hnext : t.timers.next = s.timers.next := by
    rw [htimers, next_clearSocketGuards]
  constructor
  · intro other client hfound hactive
    obtain ⟨hne, hclient⟩ := hclients other client hfound hactive
    obtain ⟨guards, hguarded⟩ := h.guarded other client hclient hactive
    refine ⟨guards, hfound, hactive, ?_, fun kind => ?_⟩
    · rw [hguards, get_clearSocketGuards_of_ne s hne]
      exact hguarded.entry
    · rw [htimers]
      exact h.armed_clearSocketGuards (hguarded.armed kind) hne
  · intro other guards kind guard hget harmed'
    exact h.owned other guards kind guard (hentry other guards hget) (harmed _ _ harmed')
  · intro other guards kind hget
    rw [hnext]
    exact h.allocated other guards kind (hentry other guards hget)
  · intro timer other guard hasked harmed'
    rw [hinFlight] at hasked
    exact h.inFlight timer other guard hasked (harmed _ _ harmed')
  · intro timer other hasked
    rw [hinFlight] at hasked
    rw [hnext]
    exact h.started timer other hasked

/-- The guards of a socket that gets ready. -/
def State.newGuards (s : State) : Guards := ⟨s.timers.next, s.timers.next + 1⟩

theorem next_startSocketGuards (s : State) (id : String) : (s.startSocketGuards id).timers.next = s.timers.next + 2 := by
  show (s.clearSocketGuards id).timers.next + 1 + 1 = _
  rw [next_clearSocketGuards]

theorem get_startSocketGuards (s : State) (id : String) :
    OrderedMap.get (s.startSocketGuards id).socketGuards id = some s.newGuards := by
  unfold State.startSocketGuards State.newGuards
  rw [← next_clearSocketGuards s id]
  exact OrderedMap.get_set_self _ _ _

theorem get_startSocketGuards_of_ne (s : State) (hne : other ≠ id) :
    OrderedMap.get (s.startSocketGuards id).socketGuards other = OrderedMap.get s.socketGuards other := by
  unfold State.startSocketGuards
  rw [OrderedMap.get_set_of_ne _ _ hne, get_clearSocketGuards_of_ne s hne]

theorem inFlight_startSocketGuards (s : State) (id : String) :
    (s.startSocketGuards id).revalidationInFlight = Function.update s.revalidationInFlight s.timers.next none := by
  show Function.update (s.clearSocketGuards id).revalidationInFlight (s.clearSocketGuards id).timers.next none = _
  rw [inFlight_clearSocketGuards, next_clearSocketGuards]

theorem armed_startSocketGuards (s : State) (id : String) (timer : Nat) :
    (s.startSocketGuards id).timers.armed timer =
      if timer = s.timers.next + 1 then some ⟨id, .lifetime⟩
      else if timer = s.timers.next then some ⟨id, .revalidation⟩
      else (s.clearSocketGuards id).timers.armed timer := by
  unfold State.startSocketGuards
  simp only [Timers.armed_setTimeout]
  rw [← next_clearSocketGuards s id]
  rfl

theorem armed_newGuards (s : State) (id : String) (kind : GuardKind) :
    (s.startSocketGuards id).timers.armed (s.newGuards.timer kind) = some ⟨id, kind⟩ := by
  rw [armed_startSocketGuards]
  cases kind with
  | revalidation =>
      have hne : s.newGuards.timer .revalidation ≠ s.timers.next + 1 := Nat.ne_of_lt (Nat.lt_succ_self s.timers.next)
      rw [if_neg hne]
      exact if_pos rfl
  | lifetime => exact if_pos rfl

/-- The timers there were are armed after the guards of a socket have started if they were after it was cleared. -/
theorem armed_startSocketGuards_of_lt (hlt : timer < s.timers.next) :
    (s.startSocketGuards id).timers.armed timer = (s.clearSocketGuards id).timers.armed timer := by
  rw [armed_startSocketGuards, if_neg (by omega), if_neg (by omega)]

theorem Watched.startSocketGuards (h : Watched s) (id : String) (client : Client) :
    Watched ((s.startSocketGuards id).setPhase id client .ready) := by
  have hclients : ((s.startSocketGuards id).setPhase id client .ready).clients =
      Function.update s.clients id (some { client with phase := .ready }) := by
    show Function.update (s.startSocketGuards id).clients id _ = _
    have hsame : (s.startSocketGuards id).clients = s.clients := clearSocketGuards_clients s id
    rw [hsame]
  constructor
  · intro other found hfound hactive
    rw [hclients] at hfound
    by_cases heq : other = id
    · subst heq
      refine ⟨s.newGuards, by rw [hclients, hfound], hactive, get_startSocketGuards s other, armed_newGuards s other⟩
    · have hbefore : s.clients other = some found := by rwa [Function.update_of_ne heq] at hfound
      obtain ⟨guards, hguarded⟩ := h.guarded other found hbefore hactive
      refine ⟨guards, by rw [hclients, hfound], hactive, ?_, fun kind => ?_⟩
      · exact (get_startSocketGuards_of_ne s heq).trans hguarded.entry
      · have hlt := lt_next_of_armed (hguarded.armed kind)
        exact (armed_startSocketGuards_of_lt hlt).trans (h.armed_clearSocketGuards (hguarded.armed kind) heq)
  · intro other guards kind guard hget harmed
    have hget : OrderedMap.get (s.startSocketGuards id).socketGuards other = some guards := hget
    have harmed : (s.startSocketGuards id).timers.armed (guards.timer kind) = some guard := harmed
    by_cases heq : other = id
    · subst heq
      rw [get_startSocketGuards] at hget
      cases hget
      rw [armed_newGuards] at harmed
      cases harmed
      rfl
    · rw [get_startSocketGuards_of_ne s heq] at hget
      rw [armed_startSocketGuards_of_lt (h.allocated other guards kind hget)] at harmed
      exact h.owned other guards kind guard hget (armed_of_clearSocketGuards harmed)
  · intro other guards kind hget
    have hget : OrderedMap.get (s.startSocketGuards id).socketGuards other = some guards := hget
    show guards.timer kind < (s.startSocketGuards id).timers.next
    rw [next_startSocketGuards]
    by_cases heq : other = id
    · subst heq
      rw [get_startSocketGuards] at hget
      cases hget
      cases kind with
      | revalidation => exact Nat.lt_add_of_pos_right (by decide)
      | lifetime => exact Nat.lt_succ_self _
    · rw [get_startSocketGuards_of_ne s heq] at hget
      exact (h.allocated other guards kind hget).trans (Nat.lt_add_of_pos_right (by decide))
  · intro timer other guard hinFlight harmed
    have hinFlight : (s.startSocketGuards id).revalidationInFlight timer = some other := hinFlight
    have harmed : (s.startSocketGuards id).timers.armed timer = some guard := harmed
    rw [inFlight_startSocketGuards] at hinFlight
    by_cases heq : timer = s.timers.next
    · rw [heq, Function.update_self] at hinFlight
      cases hinFlight
    · rw [Function.update_of_ne heq] at hinFlight
      rw [armed_startSocketGuards_of_lt (h.started timer other hinFlight)] at harmed
      exact h.inFlight timer other guard hinFlight (armed_of_clearSocketGuards harmed)
  · intro timer other hinFlight
    have hinFlight : (s.startSocketGuards id).revalidationInFlight timer = some other := hinFlight
    show timer < (s.startSocketGuards id).timers.next
    rw [inFlight_startSocketGuards] at hinFlight
    rw [next_startSocketGuards]
    by_cases heq : timer = s.timers.next
    · omega
    · rw [Function.update_of_ne heq] at hinFlight
      have hlt := h.started timer other hinFlight
      omega

/-- A step that leaves the timers, or takes one away, and makes no socket ready. -/
theorem Watched.of_armed (h : Watched s) (hguards : t.socketGuards = s.socketGuards) (hnext : t.timers.next = s.timers.next)
    (hbefore : ∀ timer guard, t.timers.armed timer = some guard → s.timers.armed timer = some guard)
    (hclients : ∀ id client, t.clients id = some client → client.Active → s.clients id = some client ∧
      ∀ timer kind, s.timers.armed timer = some ⟨id, kind⟩ → t.timers.armed timer = some ⟨id, kind⟩)
    (hinFlight : ∀ timer id, t.revalidationInFlight timer = some id → s.revalidationInFlight timer = some id ∨
      s.timers.armed timer = some ⟨id, .revalidation⟩) : Watched t := by
  constructor
  · intro id client hfound hactive
    obtain ⟨hclient, hkeeps⟩ := hclients id client hfound hactive
    obtain ⟨guards, hguarded⟩ := h.guarded id client hclient hactive
    refine ⟨guards, hfound, hactive, ?_, fun kind => hkeeps _ kind (hguarded.armed kind)⟩
    rw [hguards]
    exact hguarded.entry
  · intro id guards kind guard hget harmed
    rw [hguards] at hget
    exact h.owned id guards kind guard hget (hbefore _ _ harmed)
  · intro id guards kind hget
    rw [hguards] at hget
    rw [hnext]
    exact h.allocated id guards kind hget
  · intro timer id guard hasked harmed
    rcases hinFlight timer id hasked with hflight | howner
    · exact h.inFlight timer id guard hflight (hbefore _ _ harmed)
    · have hsame := hbefore _ _ harmed
      rw [howner] at hsame
      cases hsame
      rfl
  · intro timer id hasked
    rw [hnext]
    rcases hinFlight timer id hasked with hflight | howner
    · exact h.started timer id hflight
    · exact lt_next_of_armed howner

theorem Watched.move (h : Watched s) (hmove : Move s t label) : Watched t := by
  cases hmove with
  | other _ htimers hguards hinFlight hclients =>
      apply h.of_armed hguards (by rw [htimers])
      · intro timer guard harmed
        rwa [htimers] at harmed
      · intro id client hfound hactive
        exact ⟨hclients id client hfound hactive, fun timer kind harmed => by rwa [htimers]⟩
      · intro timer id hasked
        rw [hinFlight] at hasked
        exact .inl hasked
  | starts id client _ _ _ hnext =>
      rw [hnext]
      exact h.startSocketGuards id client
  | clears id _ htimers hguards hinFlight hclients => exact h.cleared htimers hguards hinFlight hclients
  | skips timer id _ _ _ hnext =>
      rw [hnext]
      exact h
  | asks timer id _ harmed _ hnext =>
      subst hnext
      refine h.of_armed rfl rfl (fun _ _ harmed => harmed) (fun _ _ hfound _ => ⟨hfound, fun _ _ harmed => harmed⟩) ?_
      intro other asker hasked
      have hasked : Function.update s.revalidationInFlight timer (some id) other = some asker := hasked
      by_cases heq : other = timer
      · rw [heq, Function.update_self] at hasked
        cases hasked
        exact .inr (heq ▸ harmed)
      · rw [Function.update_of_ne heq] at hasked
        exact .inl hasked
  | expires timer id _ harmed htimers hguards hinFlight hclients =>
      apply h.of_armed hguards (by rw [htimers]; rfl)
      · intro other guard hother
        rw [htimers] at hother
        exact Timers.armed_of_clearTimeout hother
      · intro other client hfound hactive
        obtain ⟨hne, hclient⟩ := hclients other client hfound hactive
        refine ⟨hclient, fun timer' kind harmed' => ?_⟩
        have hdiffer : timer' ≠ timer := by
          intro heq
          rw [heq, harmed] at harmed'
          cases harmed'
          exact hne rfl
        rw [htimers, Timers.armed_clearTimeout, if_neg hdiffer]
        exact harmed'
      · intro other asker hasked
        rw [hinFlight] at hasked
        exact .inl hasked
  | answered timer id active _ _ htimers hguards hnext hclients =>
      apply h.of_armed hguards (by rw [htimers])
      · intro other guard hother
        rwa [htimers] at hother
      · intro other client hfound hactive
        exact ⟨(hclients other client hfound hactive).2, fun timer kind harmed => by rwa [htimers]⟩
      · intro other asker hasked
        rw [hnext] at hasked
        by_cases heq : other = timer
        · rw [heq, Function.update_self] at hasked
          cases hasked
        · rw [Function.update_of_ne heq] at hasked
          exact .inl hasked

/-- A socket with its guards had them before, or has just got them. -/
theorem Guarded.before (h : Guarded t id client guards) (hwatched : Watched s) (hmove : Move s t label) :
    Guarded s id client guards ∨
      ((∀ before, s.clients id = some before → ¬ before.Active) ∧ guards = s.newGuards ∧ label.timer = none ∧
        t.revalidationInFlight guards.revalidation = none) := by
  have hstays : s.clients id = some client →
      OrderedMap.get t.socketGuards id = OrderedMap.get s.socketGuards id → Guarded s id client guards := by
    intro hclient hentry
    obtain ⟨found, hguarded⟩ := hwatched.guarded id client hclient h.active
    have hsame := h.entry
    rw [hentry, hguarded.entry] at hsame
    cases hsame
    exact hguarded
  cases hmove with
  | other _ _ hguards _ hclients => exact .inl (hstays (hclients id client h.found h.active) (by rw [hguards]))
  | starts other before hlabel hid hphase hnext =>
      subst hnext
      by_cases heq : id = other
      · subst heq
        right
        have hentry := h.entry
        have hnew : OrderedMap.get (s.startSocketGuards id).socketGuards id = some guards := hentry
        rw [get_startSocketGuards] at hnew
        cases hnew
        refine ⟨fun found hfound => ?_, rfl, hlabel, ?_⟩
        · rw [hid] at hfound
          cases hfound
          exact not_active_of_phase hphase
        · show (s.startSocketGuards id).revalidationInFlight s.timers.next = none
          rw [inFlight_startSocketGuards, Function.update_self]
      · left
        apply hstays
        · have hfound : Function.update (s.startSocketGuards other).clients other _ id = some client := h.found
          rw [Function.update_of_ne heq] at hfound
          have hsame : (s.startSocketGuards other).clients = s.clients := clearSocketGuards_clients s other
          rwa [hsame] at hfound
        · exact get_startSocketGuards_of_ne s heq
  | clears other _ _ hguards _ hclients =>
      obtain ⟨hne, hclient⟩ := hclients id client h.found h.active
      exact .inl (hstays hclient (by rw [hguards, get_clearSocketGuards_of_ne s hne]))
  | skips timer other _ _ _ hnext =>
      subst hnext
      exact .inl h
  | asks timer other _ _ _ hnext =>
      subst hnext
      exact .inl (hstays h.found rfl)
  | expires timer other _ _ _ hguards _ hclients =>
      exact .inl (hstays (hclients id client h.found h.active).2 (by rw [hguards]))
  | answered timer other active _ _ _ hguards _ hclients =>
      exact .inl (hstays (hclients id client h.found h.active).2 (by rw [hguards]))

/-- A request that is on its way was before, or begins with the firing of its interval. -/
theorem Move.inFlight (hmove : Move s t label) (h : t.revalidationInFlight timer = some id) :
    s.revalidationInFlight timer = some id ∨ (label.fired = some timer ∧ s.revalidationInFlight timer = none) := by
  cases hmove with
  | other _ _ _ hinFlight _ => exact .inl (hinFlight ▸ h)
  | starts other client _ _ _ hnext =>
      subst hnext
      have hasked : (s.startSocketGuards other).revalidationInFlight timer = some id := h
      rw [inFlight_startSocketGuards] at hasked
      by_cases heq : timer = s.timers.next
      · rw [heq, Function.update_self] at hasked
        cases hasked
      · rw [Function.update_of_ne heq] at hasked
        exact .inl hasked
  | clears _ _ _ _ hinFlight _ => exact .inl (hinFlight ▸ h)
  | skips _ _ _ _ _ hnext => exact .inl (hnext ▸ h)
  | asks fired other hlabel _ hnone hnext =>
      subst hnext
      have hasked : Function.update s.revalidationInFlight fired (some other) timer = some id := h
      by_cases heq : timer = fired
      · subst heq
        exact .inr ⟨by rw [hlabel]; rfl, hnone⟩
      · rw [Function.update_of_ne heq] at hasked
        exact .inl hasked
  | expires _ _ _ _ _ _ hinFlight _ => exact .inl (hinFlight ▸ h)
  | answered fired other active _ _ _ _ hnext _ =>
      rw [hnext] at h
      by_cases heq : timer = fired
      · rw [heq, Function.update_self] at h
        cases h
      · rw [Function.update_of_ne heq] at h
        exact .inl h

theorem watched_initial (admissionService : Bool) : Watched (State.initial admissionService) := by
  constructor
  · intro id client hfound
    cases hfound
  · intro id guards kind guard hget
    cases hget
  · intro id guards kind hget
    cases hget
  · intro timer id guard hasked
    cases hasked
  · intro timer id hasked
    cases hasked

end Transcendence.Realtime.SessionSockets
