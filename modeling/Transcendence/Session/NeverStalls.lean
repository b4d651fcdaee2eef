import Transcendence.Session.RealtimeSocket

/-!
# The realtime socket never stalls

The timers and the requests of the module belong together whatever happens (`Wired`): a timer that is
kept in a variable is armed, a request that waits has its timeout armed, and at most one request is
under way. So whoever takes away a timer or ends a request leaves the other, or sets a new one (`Alive`).
A connection is never that of an earlier generation (`Current`), since every change of the generation
closes it.
-/

namespace Transcendence.Session.RealtimeSocket

/-! ### What belongs together -/

structure Wired (s : State) : Prop where
  inFlight : ∀ id, s.connectInFlight = some id ↔ s.requests id ≠ none
  reconnectTimer : ∀ id, s.reconnectTimer = some id ↔ (s.timers.armed id).map (·.callback) = some .reconnect
  delay : ∀ id timer, s.timers.armed id = some timer → timer.callback = .reconnect →
    timer.delay ≤ maximumReconnectDelayMs
  lifetimeTimer : ∀ id, s.lifetimeTimer = some id →
    id < s.timers.next ∧ ∀ callback, (s.timers.armed id).map (·.callback) = some callback → callback = .rotate
  timeout : ∀ timeout id, (s.timers.armed timeout).map (·.callback) = some (.giveUp id) ↔
    (s.requests id).map (·.phase) = some (.waiting timeout)
  listeners : ∀ id, id ∈ s.listeners ↔ ∃ timeout, (s.requests id).map (·.phase) = some (.waiting timeout)

/-- Where the page wants a connection and has none, one is being made or a timer will see to it. -/
def Alive (s : State) : Prop :=
  s.desired = true → s.socket ≠ none → s.connected = false → s.connectInFlight ≠ none ∨ s.reconnectTimer ≠ none

/-- The query of a connection that is open or being opened. -/
def Connection.query : Connection → Option (Option Ticket)
  | .closed => none
  | .opening query => some query
  | .connected query => some query

/-- A connection is made with a ticket of this generation. -/
def Current (s : State) : Prop :=
  ∀ socket query, s.socket = some socket → socket.connection.query = some query →
    ∃ ticket, query = some ticket ∧ ticket.generation = s.generation

variable {s t : State} {id : Nat}

/-! ### Timers and requests -/

/-- The rest of the state has no part in it. -/
theorem Wired.outside (h : Wired s) (socket : Option Socket) (desired : Bool) (generation reconnectAttempts : Nat) :
    Wired { s with
      socket := socket
      desired := desired
      generation := generation
      reconnectAttempts := reconnectAttempts } :=
  ⟨h.inFlight, h.reconnectTimer, h.delay, h.lifetimeTimer, h.timeout, h.listeners⟩

theorem wired_initial : Wired State.initial := by
  constructor <;> simp [State.initial]

theorem Wired.clearReconnectTimer (h : Wired s) : Wired s.clearReconnectTimer := by
  unfold State.clearReconnectTimer
  split
  · next timer htimer =>
      have harmed := (h.reconnectTimer timer).mp htimer
      refine ⟨h.inFlight, fun id => ?_, ?_, ?_, fun timeout id => ?_, h.listeners⟩
      · have hother := h.reconnectTimer id
        grind [Timers.armed_clearTimeout]
      · intro id other hother
        exact h.delay id other (Timers.armed_of_clearTimeout hother)
      · intro id hid
        have hlifetime := h.lifetimeTimer id hid
        exact ⟨hlifetime.1, by grind [Timers.armed_clearTimeout]⟩
      · rw [← h.timeout timeout id]
        grind [Timers.armed_clearTimeout]
  · exact h

/-- The timer of a rotation may go. -/
theorem Wired.disarm (h : Wired s)
    (hrotate : ∀ callback, (s.timers.armed id).map (·.callback) = some callback → callback = .rotate) :
    Wired { s with timers := s.timers.clearTimeout id } := by
  refine ⟨h.inFlight, fun other => ?_, ?_, ?_, fun timeout request => ?_, h.listeners⟩
  · rw [h.reconnectTimer other]
    grind [Timers.armed_clearTimeout]
  · intro other timer htimer
    exact h.delay other timer (Timers.armed_of_clearTimeout htimer)
  · intro other hother
    have hlifetime := h.lifetimeTimer other hother
    exact ⟨hlifetime.1, by grind [Timers.armed_clearTimeout]⟩
  · rw [← h.timeout timeout request]
    grind [Timers.armed_clearTimeout]

theorem Wired.clearLifetimeTimer (h : Wired s) : Wired s.clearLifetimeTimer := by
  unfold State.clearLifetimeTimer
  split
  · next timer htimer =>
      have hdisarmed := h.disarm (h.lifetimeTimer timer htimer).2
      exact ⟨hdisarmed.inFlight, hdisarmed.reconnectTimer, hdisarmed.delay, (fun id hid => nomatch hid),
        hdisarmed.timeout, hdisarmed.listeners⟩
  · exact h

theorem Wired.scheduleReconnect (h : Wired s) : Wired s.scheduleReconnect := by
  unfold State.scheduleReconnect
  split
  · exact h
  · next hguard =>
      rw [not_or, not_or, not_not] at hguard
      refine ⟨h.inFlight, fun id => ?_, ?_, ?_, fun timeout id => ?_, h.listeners⟩
      · have hreconnect := h.reconnectTimer id
        grind [Timers.armed_setTimeout]
      · intro id timer htimer hcallback
        rw [Timers.armed_setTimeout] at htimer
        split at htimer
        · obtain rfl := Option.some.inj htimer
          exact Nat.min_le_left ..
        · exact h.delay id timer htimer hcallback
      · intro id hid
        have hlifetime := h.lifetimeTimer id hid
        refine ⟨Nat.lt_succ_of_lt hlifetime.1, ?_⟩
        rw [Timers.armed_setTimeout_of_lt hlifetime.1]
        exact hlifetime.2
      · rw [← h.timeout timeout id]
        grind [Timers.armed_setTimeout, Timers.armed_next]

/-- A new rotation timer, in place of none. -/
theorem Wired.setLifetimeTimer (h : Wired s) (delay : Nat) :
    Wired { s with timers := s.timers.setTimeout ⟨.rotate, delay⟩, lifetimeTimer := some s.timers.next } := by
  refine ⟨h.inFlight, fun id => ?_, ?_, ?_, fun timeout id => ?_, h.listeners⟩
  · rw [h.reconnectTimer id]
    grind [Timers.armed_setTimeout, Timers.armed_next]
  · intro id timer htimer hcallback
    have hdelay := h.delay id timer
    grind [Timers.armed_setTimeout]
  · intro id hid
    obtain rfl := Option.some.inj hid
    exact ⟨Nat.lt_succ_self _, by grind [Timers.armed_setTimeout]⟩
  · rw [← h.timeout timeout id]
    grind [Timers.armed_setTimeout, Timers.armed_next]

theorem Wired.ensureConnected (h : Wired s) : Wired s.ensureConnected := by
  unfold State.ensureConnected
  split
  · exact h
  split
  · exact h
  · next hidle =>
      have hcleared := h.clearReconnectTimer
      have hnone : ∀ id, s.clearReconnectTimer.requests id = none := by
        intro id
        have hid := h.inFlight id
        have hrequests : s.clearReconnectTimer.requests = s.requests := by
          unfold State.clearReconnectTimer
          split <;> rfl
        grind
      refine ⟨fun id => ?_, hcleared.reconnectTimer, hcleared.delay, hcleared.lifetimeTimer, fun timeout id => ?_,
        fun id => ?_⟩
      · simp only [State.setRequest, Function.update_apply]
        grind
      · refine (hcleared.timeout timeout id).trans ?_
        simp only [State.setRequest, Function.update_apply]
        grind
      · refine (hcleared.listeners id).trans ?_
        simp only [State.setRequest, Function.update_apply]
        grind

/-- A request that does not wait goes on. -/
theorem Wired.setRequest (h : Wired s) {request request' : Request} (hid : s.requests id = some request)
    (hold : ∀ timeout, request.phase ≠ .waiting timeout) (hnew : ∀ timeout, request'.phase ≠ .waiting timeout) :
    Wired (s.setRequest id request') := by
  refine ⟨fun other => ?_, h.reconnectTimer, h.delay, h.lifetimeTimer, fun timeout other => ?_, fun other => ?_⟩
  · refine (h.inFlight other).trans ?_
    simp only [State.setRequest, Function.update_apply]
    grind
  · refine (h.timeout timeout other).trans ?_
    simp only [State.setRequest, Function.update_apply]
    grind
  · refine (h.listeners other).trans ?_
    simp only [State.setRequest, Function.update_apply]
    grind

theorem Wired.settle (h : Wired s) {phase : Phase} (hphase : ∀ timeout, phase ≠ .waiting timeout) (id : Nat) :
    Wired (s.settle phase id) := by
  unfold State.settle
  split
  · next attemptGeneration timeout hid =>
      have harmed := h.timeout timeout id
      refine ⟨fun other => ?_, fun other => ?_, ?_, ?_, fun other request => ?_, fun other => ?_⟩
      · refine (h.inFlight other).trans ?_
        simp only [State.setRequest, Function.update_apply]
        grind
      · refine (h.reconnectTimer other).trans ?_
        grind [Timers.armed_clearTimeout]
      · intro other timer hother
        exact h.delay other timer (Timers.armed_of_clearTimeout hother)
      · intro other hother
        have hlifetime := h.lifetimeTimer other hother
        exact ⟨hlifetime.1, by grind [Timers.armed_clearTimeout]⟩
      · have hother := h.timeout other request
        have hone := h.timeout other id
        simp only [State.setRequest, Function.update_apply, Timers.armed_clearTimeout]
        grind
      · simp only [List.mem_filter, State.setRequest, Function.update_apply, h.listeners other]
        grind
  · exact h

theorem Wired.settleAll (h : Wired s) {phase : Phase} (hphase : ∀ timeout, phase ≠ .waiting timeout) :
    Wired (s.settleAll phase) := by
  unfold State.settleAll
  generalize s.listeners = listeners
  induction listeners generalizing s with
  | nil => exact h
  | cons id listeners ih => exact ih (h.settle hphase id)

theorem Wired.waitForConnection (h : Wired s) {attemptGeneration : Nat} {socket : Socket}
    (hid : s.requests id = some ⟨attemptGeneration, .issuingTicket⟩) :
    Wired (s.waitForConnection id attemptGeneration socket) := by
  refine ⟨fun other => ?_, fun other => ?_, ?_, ?_, fun timeout other => ?_, fun other => ?_⟩
  · refine (h.inFlight other).trans ?_
    simp only [State.waitForConnection, State.setRequest, Function.update_apply]
    grind
  · refine (h.reconnectTimer other).trans ?_
    simp only [State.waitForConnection, Timers.armed_setTimeout]
    grind [Timers.armed_next]
  · intro other timer hother hcallback
    have hdelay := h.delay other timer
    simp only [State.waitForConnection, Timers.armed_setTimeout] at hother
    grind
  · intro other hother
    have hlifetime := h.lifetimeTimer other hother
    refine ⟨Nat.lt_succ_of_lt hlifetime.1, ?_⟩
    show ∀ callback, ((s.timers.setTimeout _).armed other).map (·.callback) = some callback → callback = .rotate
    rw [Timers.armed_setTimeout_of_lt hlifetime.1]
    exact hlifetime.2
  · have hother := h.timeout timeout other
    have hnext := h.timeout s.timers.next other
    simp only [State.waitForConnection, State.setRequest, Function.update_apply, Timers.armed_setTimeout]
    grind [Timers.armed_next]
  · simp only [State.waitForConnection, List.mem_append, List.mem_singleton, State.setRequest,
      Function.update_apply, h.listeners other]
    by_cases hother : other = id
    · rw [if_pos hother]
      exact iff_of_true (Or.inr hother) ⟨_, rfl⟩
    · rw [if_neg hother, or_iff_left hother]

theorem Wired.forget (h : Wired s) {request : Request} (hid : s.requests id = some request)
    (hphase : ∀ timeout, request.phase ≠ .waiting timeout) : Wired (s.forget id) := by
  have hinFlight := h.inFlight id
  refine ⟨fun other => ?_, h.reconnectTimer, h.delay, h.lifetimeTimer, fun timeout other => ?_, fun other => ?_⟩
  · have hother := h.inFlight other
    simp only [State.forget, Function.update_apply]
    grind
  · refine (h.timeout timeout other).trans ?_
    simp only [State.forget, Function.update_apply]
    grind
  · refine (h.listeners other).trans ?_
    simp only [State.forget, Function.update_apply]
    grind

/-! ### A connection or the means to one -/

theorem alive_of_request (h : Wired s) (id : Nat) (hid : s.requests id ≠ none) : Alive s := by
  intro _ _ _
  left
  rw [(h.inFlight id).mpr hid]
  exact Option.some_ne_none id

theorem alive_scheduleReconnect (s : State) : Alive s.scheduleReconnect := by
  unfold State.scheduleReconnect
  split
  · intro hdesired _ hconnected
    grind
  · intro _ _ _
    right
    exact Option.some_ne_none _

theorem alive_ensureConnected (s : State) : Alive s.ensureConnected := by
  unfold State.ensureConnected
  split
  · intro hdesired hsocket hconnected
    grind
  split
  · next hinFlight => exact fun _ _ _ => Or.inl hinFlight
  · exact fun _ _ _ => Or.inl (Option.some_ne_none _)

/-! ### Connections of this generation -/

theorem current_of_closed (socket : Option Socket) (hsocket : s.socket = socket.map Socket.close) : Current s := by
  intro socket' query hsocket' hquery
  rw [hsocket, Option.map_eq_some_iff] at hsocket'
  obtain ⟨_, _, rfl⟩ := hsocket'
  cases hquery

/-- The socket, the generation and what the page wants are left alone. -/
structure SameSocket (s t : State) : Prop where
  socket : t.socket = s.socket
  generation : t.generation = s.generation
  desired : t.desired = s.desired

theorem SameSocket.trans {u : State} (h : SameSocket s t) (h' : SameSocket t u) : SameSocket s u :=
  ⟨h'.socket.trans h.socket, h'.generation.trans h.generation, h'.desired.trans h.desired⟩

theorem Current.of_sameSocket (h : Current s) (hsame : SameSocket s t) : Current t := by
  unfold Current
  rw [hsame.socket, hsame.generation]
  exact h

theorem sameSocket_clearReconnectTimer (s : State) : SameSocket s s.clearReconnectTimer := by
  unfold State.clearReconnectTimer
  split <;> exact ⟨rfl, rfl, rfl⟩

theorem sameSocket_clearLifetimeTimer (s : State) : SameSocket s s.clearLifetimeTimer := by
  unfold State.clearLifetimeTimer
  split <;> exact ⟨rfl, rfl, rfl⟩

theorem sameSocket_scheduleReconnect (s : State) : SameSocket s s.scheduleReconnect := by
  unfold State.scheduleReconnect
  split <;> exact ⟨rfl, rfl, rfl⟩

theorem sameSocket_ensureConnected (s : State) : SameSocket s s.ensureConnected := by
  have hcleared := sameSocket_clearReconnectTimer s
  unfold State.ensureConnected
  split
  · exact ⟨rfl, rfl, rfl⟩
  split
  · exact ⟨rfl, rfl, rfl⟩
  · exact ⟨hcleared.socket, hcleared.generation, hcleared.desired⟩

theorem settle_eq (s : State) (phase : Phase) (id : Nat) :
    ∃ requests timers listeners,
      s.settle phase id = { s with requests := requests, timers := timers, listeners := listeners } := by
  unfold State.settle
  split <;> exact ⟨_, _, _, rfl⟩

theorem settleAll_eq (s : State) (phase : Phase) :
    ∃ requests timers listeners,
      s.settleAll phase = { s with requests := requests, timers := timers, listeners := listeners } := by
  unfold State.settleAll
  generalize s.listeners = waiting
  induction waiting generalizing s with
  | nil => exact ⟨_, _, _, rfl⟩
  | cons id waiting ih =>
      obtain ⟨requests, timers, listeners, heq⟩ := ih (s.settle phase id)
      obtain ⟨requests', timers', listeners', hsettle⟩ := settle_eq s phase id
      refine ⟨requests, timers, listeners, ?_⟩
      rw [List.foldl_cons, heq, hsettle]

/-! ### One step -/

structure Sound (s : State) : Prop where
  wired : Wired s
  alive : Alive s
  current : Current s

theorem Wired.onDisconnect (h : Wired s) : Wired s.onDisconnect :=
  (h.outside (s.socket.map Socket.close) s.desired s.generation s.reconnectAttempts).clearLifetimeTimer.scheduleReconnect

theorem Wired.disconnectSocket (h : Wired s) : Wired s.disconnectSocket := by
  unfold State.disconnectSocket
  split
  · exact h.onDisconnect
  · exact h.outside (s.socket.map Socket.close) s.desired s.generation s.reconnectAttempts

theorem current_onDisconnect (s : State) : Current s.onDisconnect := by
  have hcleared := sameSocket_clearLifetimeTimer { s with socket := s.socket.map Socket.close }
  exact current_of_closed s.socket (hcleared.trans (sameSocket_scheduleReconnect _)).socket

theorem current_disconnectSocket (s : State) : Current s.disconnectSocket := by
  unfold State.disconnectSocket
  split
  · exact current_onDisconnect s
  · exact current_of_closed s.socket rfl

theorem disconnectSocket_requests (s : State) : s.disconnectSocket.requests = s.requests := by
  unfold State.disconnectSocket State.onDisconnect State.scheduleReconnect State.clearLifetimeTimer
  grind

theorem disconnectSocket_desired (s : State) : s.disconnectSocket.desired = s.desired := by
  unfold State.disconnectSocket
  split
  · have hcleared := sameSocket_clearLifetimeTimer { s with socket := s.socket.map Socket.close }
    exact (hcleared.trans (sameSocket_scheduleReconnect _)).desired
  · rfl

theorem sound_ensureConnected (hwired : Wired s) (hcurrent : Current s) : Sound s.ensureConnected :=
  ⟨hwired.ensureConnected, alive_ensureConnected s, hcurrent.of_sameSocket (sameSocket_ensureConnected s)⟩

theorem Sound.getRealtimeSocket (h : Sound s) : Sound s.getRealtimeSocket := by
  refine sound_ensureConnected (h.wired.outside _ true s.generation s.reconnectAttempts) ?_
  intro socket query hsocket hquery
  cases hold : s.socket with
  | none =>
      obtain rfl := Option.some.inj hsocket
      rw [hold] at hquery
      cases hquery
  | some old =>
      refine h.current socket query ?_ hquery
      rw [← hsocket, hold]
      rfl

theorem Sound.resetRealtimeSocket (h : Sound s) : Sound s.resetRealtimeSocket := by
  have hwired := h.wired.outside s.socket true (s.generation + 1) s.reconnectAttempts
  exact sound_ensureConnected hwired.clearReconnectTimer.clearLifetimeTimer.disconnectSocket
    (current_disconnectSocket _)

theorem Sound.disconnectRealtimeSocket (h : Sound s) : Sound s.disconnectRealtimeSocket := by
  have hwired := h.wired.outside s.socket false (s.generation + 1) s.reconnectAttempts
  have hcleared := hwired.clearReconnectTimer.clearLifetimeTimer
  refine ⟨(hcleared.outside _ _ _ _).disconnectSocket, ?_, current_disconnectSocket _⟩
  intro hdesired
  unfold State.disconnectRealtimeSocket at hdesired
  rw [disconnectSocket_desired] at hdesired
  have hsame := (sameSocket_clearReconnectTimer { s with generation := s.generation + 1, desired := false }).trans
    (sameSocket_clearLifetimeTimer _)
  rw [show _ = false from hsame.desired] at hdesired
  cases hdesired

/-- A request that does not wait goes on. -/
theorem Sound.setRequest (h : Sound s) {request request' : Request} (hid : s.requests id = some request)
    (hold : ∀ timeout, request.phase ≠ .waiting timeout) (hnew : ∀ timeout, request'.phase ≠ .waiting timeout) :
    Sound (s.setRequest id request') := by
  have hwired := h.wired.setRequest hid hold hnew
  refine ⟨hwired, alive_of_request hwired id ?_, h.current.of_sameSocket ⟨rfl, rfl, rfl⟩⟩
  simp [State.setRequest]

theorem Sound.waitForConnection (h : Sound s) {attemptGeneration : Nat} {value : String} {socket : Socket}
    (hid : s.requests id = some ⟨attemptGeneration, .issuingTicket⟩) (hsocket : s.socket = some socket)
    (hgeneration : s.generation = attemptGeneration) :
    Sound (s.waitForConnection id attemptGeneration { socket with query := some ⟨value, attemptGeneration⟩ }) := by
  have hwired : Wired (s.waitForConnection id attemptGeneration
      { socket with query := some ⟨value, attemptGeneration⟩ }) := h.wired.waitForConnection hid
  refine ⟨hwired, alive_of_request hwired id ?_, ?_⟩
  · simp [State.waitForConnection, State.setRequest]
  · intro connecting query hconnecting hquery
    obtain rfl := Option.some.inj hconnecting
    have hcurrent := h.current socket query hsocket
    cases hconnection : socket.connection with
    | closed =>
        simp only [Socket.connect, hconnection, Connection.query, Option.some.injEq] at hquery
        exact ⟨_, hquery.symm, hgeneration.symm⟩
    | opening _ =>
        simp only [Socket.connect, hconnection] at hquery
        exact hcurrent (hconnection ▸ hquery)
    | connected _ =>
        simp only [Socket.connect, hconnection] at hquery
        exact hcurrent (hconnection ▸ hquery)

theorem Sound.onTicket (h : Sound s) {attemptGeneration : Nat}
    (hid : s.requests id = some ⟨attemptGeneration, .issuingTicket⟩) (response : Response) :
    Sound (s.onTicket id attemptGeneration response) := by
  have hissuing : ∀ timeout, (Request.mk attemptGeneration .issuingTicket).phase ≠ .waiting timeout := by
    intro timeout heq
    cases heq
  have hsettled : Sound (s.setRequest id ⟨attemptGeneration, .settled⟩) := h.setRequest hid hissuing (by simp)
  unfold State.onTicket
  split
  · exact h.setRequest hid hissuing (by simp)
  split
  · next hsocket =>
      split
      · next hguard => exact h.waitForConnection hid hsocket hguard.2
      · exact hsettled
  · exact hsettled

theorem Sound.scheduleReconnect (h : Sound s) : Sound s.scheduleReconnect :=
  ⟨h.wired.scheduleReconnect, alive_scheduleReconnect s, h.current.of_sameSocket (sameSocket_scheduleReconnect s)⟩

theorem scheduleReconnect_requests (s : State) : s.scheduleReconnect.requests = s.requests := by
  unfold State.scheduleReconnect
  split <;> rfl

theorem Sound.onRejected (h : Sound s) {attemptGeneration : Nat}
    (hid : s.requests id = some ⟨attemptGeneration, .rejected⟩) : Sound (s.onRejected id attemptGeneration) := by
  have hrejected : s.scheduleReconnect.requests id = some ⟨attemptGeneration, .rejected⟩ := by
    rw [scheduleReconnect_requests, hid]
  exact h.scheduleReconnect.setRequest hrejected (by simp) (by simp)

/-- What the end of a request takes away, its `finally` puts back. -/
theorem Sound.onSettled (h : Sound s) {attemptGeneration : Nat}
    (hid : s.requests id = some ⟨attemptGeneration, .settled⟩) : Sound (s.onSettled id) := by
  have hwired := h.wired.forget hid (by simp)
  have hcurrent : Current (s.forget id) := h.current.of_sameSocket ⟨rfl, rfl, rfl⟩
  unfold State.onSettled
  generalize s.forget id = s at hwired hcurrent
  dsimp only
  split
  · exact ⟨hwired.scheduleReconnect, alive_scheduleReconnect s, hcurrent.of_sameSocket (sameSocket_scheduleReconnect s)⟩
  · next hguard =>
      refine ⟨hwired, fun hdesired hsocket hconnected => Or.inr fun htimer => ?_, hcurrent⟩
      exact hguard ⟨hdesired, hsocket, hconnected, htimer⟩

theorem Sound.settleAll (h : Sound s) {phase : Phase} (hphase : ∀ timeout, phase ≠ .waiting timeout) :
    Sound (s.settleAll phase) := by
  have hwired := h.wired.settleAll hphase
  obtain ⟨requests, timers, listeners, heq⟩ := settleAll_eq s phase
  rw [heq] at hwired ⊢
  exact ⟨hwired, h.alive, h.current.of_sameSocket ⟨rfl, rfl, rfl⟩⟩

theorem Sound.onConnect (h : Sound s) {query opts : Option Ticket}
    (hsocket : s.socket = some ⟨.opening query, opts⟩) : Sound (s.onConnect query) := by
  have hopened := h.wired.outside (some ⟨.connected query, none⟩) s.desired s.generation 0
  have hsame := sameSocket_clearLifetimeTimer
    { s with socket := some ⟨.connected query, none⟩, reconnectAttempts := 0 }
  refine Sound.settleAll ⟨hopened.clearLifetimeTimer.setLifetimeTimer _, ?_, ?_⟩ (by simp)
  · intro _ _ hconnected
    unfold State.connected at hconnected
    rw [show _ = some (Socket.mk (.connected query) none) from hsame.socket] at hconnected
    cases hconnected
  · intro socket query' hsocket' hquery
    rw [show _ = some (Socket.mk (.connected query) none) from hsame.socket] at hsocket'
    obtain rfl := Option.some.inj hsocket'
    obtain ⟨ticket, hticket, hgeneration⟩ := h.current ⟨.opening query, opts⟩ query' hsocket hquery
    exact ⟨ticket, hticket, hgeneration.trans hsame.generation.symm⟩

theorem Sound.onConnectError (h : Sound s) {query opts : Option Ticket}
    (hsocket : s.socket = some ⟨.opening query, opts⟩) (closed : Bool) :
    Sound { s with socket := some ⟨if closed then .closed else .opening query, opts⟩ }.onConnectError := by
  have hwired := h.wired.outside (some ⟨if closed then .closed else .opening query, opts⟩) s.desired s.generation
    s.reconnectAttempts
  have hcurrent : Current { s with socket := some ⟨if closed then .closed else .opening query, opts⟩ } := by
    intro socket query' hsocket' hquery
    obtain rfl := Option.some.inj hsocket'
    cases closed with
    | true => cases hquery
    | false => exact h.current _ query' hsocket hquery
  exact Sound.settleAll
    ⟨hwired.scheduleReconnect, alive_scheduleReconnect _, hcurrent.of_sameSocket (sameSocket_scheduleReconnect _)⟩
    (by simp)

theorem Sound.onDisconnect (h : Sound s) : Sound s.onDisconnect :=
  ⟨h.wired.onDisconnect, alive_scheduleReconnect _, current_onDisconnect s⟩

theorem Sound.onReconnectTimer (h : Sound s) {timer : Timer} (harmed : s.timers.armed id = some timer)
    (hcallback : timer.callback = .reconnect) :
    Sound { s with timers := s.timers.clearTimeout id }.onReconnectTimer := by
  have htimer : s.reconnectTimer = some id := (h.wired.reconnectTimer id).mpr (by rw [harmed, ← hcallback]; rfl)
  have hcleared : s.clearReconnectTimer = { s with timers := s.timers.clearTimeout id, reconnectTimer := none } := by
    rw [State.clearReconnectTimer, htimer]
  have hwired := h.wired.clearReconnectTimer
  rw [hcleared] at hwired
  exact sound_ensureConnected hwired (h.current.of_sameSocket ⟨rfl, rfl, rfl⟩)

theorem Sound.onLifetimeTimer (h : Sound s) : Sound s.onLifetimeTimer := by
  unfold State.onLifetimeTimer
  split
  · exact h
  · exact sound_ensureConnected (h.wired.outside s.socket s.desired (s.generation + 1) s.reconnectAttempts).disconnectSocket
      (current_disconnectSocket _)

/-- The timeout of a request fires: the request was waiting, and is rejected. -/
theorem Sound.onTimeout (h : Sound s) {timer : Timer} {request : Nat} (harmed : s.timers.armed id = some timer)
    (hcallback : timer.callback = .giveUp request) :
    Sound ({ s with timers := s.timers.clearTimeout id }.onTimeout request) := by
  have hphase := (h.wired.timeout id request).mp (by rw [harmed, ← hcallback]; rfl)
  obtain ⟨⟨attemptGeneration, phase⟩, hrequest, rfl⟩ := Option.map_eq_some_iff.mp hphase
  have hsettle : { s with timers := s.timers.clearTimeout id }.settle .rejected request = s.settle .rejected request := by
    simp only [State.settle, hrequest, State.setRequest, Timers.clearTimeout_clearTimeout]
  have hwired : Wired (s.settle .rejected request) := h.wired.settle (by simp) request
  have hsettled : (s.settle .rejected request).requests request = some ⟨attemptGeneration, .rejected⟩ := by
    simp only [State.settle, hrequest, State.setRequest, Function.update_self]
  unfold State.onTimeout
  rw [hsettle]
  refine ⟨hwired.disconnectSocket, alive_of_request hwired.disconnectSocket request ?_, current_disconnectSocket _⟩
  rw [disconnectSocket_requests, hsettled]
  exact Option.some_ne_none _

theorem Sound.fire (h : Sound s) {callback : Callback} {delay : Nat} (harmed : s.timers.armed id = some ⟨callback, delay⟩) :
    Sound ({ s with timers := s.timers.clearTimeout id }.fire callback) := by
  cases callback with
  | reconnect => exact h.onReconnectTimer harmed rfl
  | giveUp request => exact h.onTimeout harmed rfl
  | rotate =>
      have hwired : Wired { s with timers := s.timers.clearTimeout id } := by
        refine h.wired.disarm fun callback hcallback => ?_
        rw [harmed] at hcallback
        exact (Option.some.inj hcallback).symm
      exact Sound.onLifetimeTimer ⟨hwired, h.alive, h.current.of_sameSocket ⟨rfl, rfl, rfl⟩⟩

theorem Sound.step (h : Sound s) {label : Label} (hstep : s.step label = some t) : Sound t := by
  cases label with
  | getRealtimeSocket =>
      obtain rfl := Option.some.inj hstep
      exact h.getRealtimeSocket
  | resetRealtimeSocket =>
      obtain rfl := Option.some.inj hstep
      exact h.resetRealtimeSocket
  | disconnectRealtimeSocket =>
      obtain rfl := Option.some.inj hstep
      exact h.disconnectRealtimeSocket
  | ticket id response =>
      simp only [State.step] at hstep
      split at hstep
      · next hid =>
          obtain rfl := Option.some.inj hstep
          exact h.onTicket hid response
      · cases hstep
  | catchError id =>
      simp only [State.step] at hstep
      split at hstep
      · next hid =>
          obtain rfl := Option.some.inj hstep
          exact h.onRejected hid
      · cases hstep
  | finallySettled id =>
      simp only [State.step] at hstep
      split at hstep
      · next hid =>
          obtain rfl := Option.some.inj hstep
          exact h.onSettled hid
      · cases hstep
  | connect =>
      simp only [State.step] at hstep
      split at hstep
      · next hsocket =>
          obtain rfl := Option.some.inj hstep
          exact h.onConnect hsocket
      · cases hstep
  | connectError closed =>
      simp only [State.step] at hstep
      split at hstep
      · next hsocket =>
          obtain rfl := Option.some.inj hstep
          exact h.onConnectError hsocket closed
      · cases hstep
  | disconnect =>
      simp only [State.step] at hstep
      split at hstep
      · obtain rfl := Option.some.inj hstep
        exact h.onDisconnect
      · cases hstep
  | fire timer =>
      simp only [State.step] at hstep
      split at hstep
      · next harmed =>
          obtain rfl := Option.some.inj hstep
          exact h.fire harmed
      · cases hstep

/-! ### Every run -/

/-- An attempt is in flight, and a request that waits for its connection gives up in time. -/
def State.AttemptInFlight (s : State) : Prop :=
  ∃ id request, s.connectInFlight = some id ∧ s.requests id = some request ∧
    ∀ timeout, request.phase = .waiting timeout → (s.timers.armed timeout).map (·.callback) = some (.giveUp id)

/-- A reconnect timer is armed and due soon. -/
def State.ReconnectTimerSet (s : State) : Prop :=
  ∃ id timer, s.reconnectTimer = some id ∧ s.timers.armed id = some timer ∧ timer.callback = .reconnect ∧
    timer.delay ≤ maximumReconnectDelayMs

theorem Wired.attemptInFlight (h : Wired s) (hinFlight : s.connectInFlight ≠ none) : s.AttemptInFlight := by
  obtain ⟨id, hid⟩ := Option.ne_none_iff_exists'.mp hinFlight
  obtain ⟨request, hrequest⟩ := Option.ne_none_iff_exists'.mp ((h.inFlight id).mp hid)
  refine ⟨id, request, hid, hrequest, fun timeout hphase => (h.timeout timeout id).mpr ?_⟩
  rw [hrequest, ← hphase]
  rfl

theorem Wired.reconnectTimerSet (h : Wired s) (htimer : s.reconnectTimer ≠ none) : s.ReconnectTimerSet := by
  obtain ⟨id, hid⟩ := Option.ne_none_iff_exists'.mp htimer
  obtain ⟨timer, harmed, hcallback⟩ := Option.map_eq_some_iff.mp ((h.reconnectTimer id).mp hid)
  exact ⟨id, timer, hid, harmed, hcallback, h.delay id timer harmed hcallback⟩

theorem sound_initial : Sound State.initial := by
  refine ⟨wired_initial, fun hdesired => ?_, fun socket query hsocket => ?_⟩
  · cases hdesired
  · cases hsocket

theorem never_stalls {labels : List Label} (hrun : Runs.run State.step .initial labels = some s) :
    (s.desired = true → ∀ socket, s.socket = some socket → socket.connected = false →
      s.AttemptInFlight ∨ s.ReconnectTimerSet) ∧
    ∀ socket query, s.socket = some socket → socket.connection.query = some query →
      ∃ ticket, query = some ticket ∧ ticket.generation = s.generation := by
  have h : Sound s := Runs.Preserved.run (fun _ _ _ hs hstep => hs.step hstep) sound_initial hrun
  refine ⟨fun hdesired socket hsocket hconnected => ?_, h.current⟩
  have hdisconnected : s.connected = false := by rw [State.connected, hsocket]; exact hconnected
  rcases h.alive hdesired (by rw [hsocket]; exact Option.some_ne_none _) hdisconnected with hinFlight | htimer
  · exact Or.inl (h.wired.attemptInFlight hinFlight)
  · exact Or.inr (h.wired.reconnectTimerSet htimer)

def firstTicket : String := "mGxO4RzvHkq0bT2yJ8cW5nLd7sAeF1uPiQ3hXo6tVwY"

def renewedTicket : String := "B9wKc3ZfQ1rTg6Yp0sVh2NxLm8DaJe4uIo7iUy5tRbE"

def grantedTicket (ticket : String) : Response := .answered true (some ⟨some ticket, some 60⟩)

/-- A connection is lost, and the session changes before the timer fires. -/
def lostConnection : List Label :=
  [.getRealtimeSocket, .ticket 0 (grantedTicket firstTicket), .connect, .finallySettled 0, .disconnect,
    .resetRealtimeSocket, .ticket 1 (grantedTicket renewedTicket)]

theorem never_stalls_of_lost_connection :
    ∃ s, Runs.run State.step .initial lostConnection = some s ∧
      s.socket = some ⟨.opening (some ⟨renewedTicket, 1⟩), some ⟨renewedTicket, 1⟩⟩ ∧
      (s.AttemptInFlight ∨ s.ReconnectTimerSet) ∧ s.generation = 1 := by
  obtain ⟨s, hrun⟩ := Option.isSome_iff_exists.mp
    (show (Runs.run State.step .initial lostConnection).isSome from by decide +kernel)
  have hstate : (Runs.run State.step .initial lostConnection).map (fun s => (s.desired, s.socket)) =
      some (true, some ⟨.opening (some ⟨renewedTicket, 1⟩), some ⟨renewedTicket, 1⟩⟩) := by decide +kernel
  rw [hrun] at hstate
  obtain ⟨hdesired, hsocket⟩ := Prod.mk.inj (Option.some.inj hstate)
  have hstalls := never_stalls hrun
  obtain ⟨ticket, hticket, hgeneration⟩ := hstalls.2 _ _ hsocket rfl
  obtain rfl := Option.some.inj hticket
  exact ⟨s, hrun, hsocket, hstalls.1 hdesired _ hsocket rfl, hgeneration.symm⟩

end Transcendence.Session.RealtimeSocket
