import Transcendence.Realtime.SessionSockets

/-!
# The registry of the sockets of a session

Whatever the interleaving, a socket is in the registry while it has its key, and it has its key from
its registration until its `handleDisconnect` runs or `handleConnection` hears that its rooms could not
be joined. Its guards are set when all rooms are joined, and cleared by its `handleDisconnect`.
-/

namespace Transcendence.Realtime.SessionSockets

variable {s t : State} {sessionSockets sessionSockets' : Registry} {key other id : String} {client client' : Client}

/-! ### The sets of the registry -/

namespace Registry

theorem socketsOf_of_get {sockets : List String} (h : OrderedMap.get sessionSockets key = some sockets) :
    sessionSockets.socketsOf key = sockets := by
  rw [socketsOf, h]
  rfl

theorem socketsOf_set_self (sessionSockets : Registry) (key : String) (sockets : List String) :
    socketsOf (OrderedMap.set sessionSockets key sockets) key = sockets := by
  rw [socketsOf, OrderedMap.get_set_self]
  rfl

theorem socketsOf_set_of_ne (sessionSockets : Registry) (sockets : List String) (h : other ≠ key) :
    socketsOf (OrderedMap.set sessionSockets key sockets) other = socketsOf sessionSockets other := by
  rw [socketsOf, OrderedMap.get_set_of_ne _ _ h]
  rfl

/-- Every set is kept small and none is kept empty. -/
def Bounded (sessionSockets : Registry) : Prop :=
  ∀ key sockets, OrderedMap.get sessionSockets key = some sockets →
    sockets ≠ [] ∧ sockets.Nodup ∧ sockets.length ≤ maximumSocketsPerSession

theorem Bounded.set (h : Bounded sessionSockets) {sockets : List String}
    (hsockets : sockets ≠ [] ∧ sockets.Nodup ∧ sockets.length ≤ maximumSocketsPerSession) :
    Bounded (OrderedMap.set sessionSockets key sockets) := by
  intro other others hget
  by_cases hother : other = key
  · rw [hother, OrderedMap.get_set_self] at hget
    exact Option.some.inj hget ▸ hsockets
  · rw [OrderedMap.get_set_of_ne _ _ hother] at hget
    exact h other others hget

theorem Bounded.delete (h : Bounded sessionSockets) : Bounded (OrderedMap.delete sessionSockets key) := by
  intro other others hget
  by_cases hother : other = key
  · rw [hother, OrderedMap.get_delete_self] at hget
    cases hget
  · rw [OrderedMap.get_delete_of_ne _ hother] at hget
    exact h other others hget

theorem Bounded.nodup (h : Bounded sessionSockets) (key : String) : (sessionSockets.socketsOf key).Nodup := by
  cases hget : OrderedMap.get sessionSockets key with
  | none =>
      rw [socketsOf, hget]
      exact List.nodup_nil
  | some sockets =>
      rw [socketsOf_of_get hget]
      exact (h key sockets hget).2.1

/-- The socket is added to the set of its session, which had room for it. -/
theorem registerSessionSocket_eq
    (h : registerSessionSocket sessionSockets id client = some (sessionSockets', client')) :
    ∃ key, sessionKey client = some key ∧ (sessionSockets.socketsOf key).length < maximumSocketsPerSession ∧
      sessionSockets' = OrderedMap.set sessionSockets key
        (if id ∈ sessionSockets.socketsOf key then sessionSockets.socketsOf key
          else sessionSockets.socketsOf key ++ [id]) ∧
      client' = { client with sessionSocketKey := some key, registeredKey := some key } := by
  obtain ⟨key, hkey, hregistered⟩ := Option.bind_eq_some_iff.mp h
  rw [Option.ite_none_left_eq_some] at hregistered
  obtain ⟨hroom, hregistered⟩ := hregistered
  obtain ⟨rfl, rfl⟩ := Prod.mk.inj (Option.some.inj hregistered)
  exact ⟨key, hkey, Nat.lt_of_not_le hroom, rfl, rfl⟩

theorem unregisterSessionSocket_snd (sessionSockets : Registry) (id : String) (client : Client) :
    (unregisterSessionSocket sessionSockets id client).2 = { client with sessionSocketKey := none } := by
  unfold unregisterSessionSocket
  split
  · next hkey => rw [← hkey]
  · rfl

theorem Bounded.unregisterSessionSocket (h : Bounded sessionSockets) (id : String) (client : Client) :
    Bounded (unregisterSessionSocket sessionSockets id client).1 := by
  unfold Registry.unregisterSessionSocket
  split
  · exact h
  dsimp only
  split
  · exact h
  · next key _ _ sockets hget =>
      have hsockets := h key sockets hget
      split
      · exact h.delete
      · next hleft =>
          exact h.set ⟨hleft, hsockets.2.1.filter _, (List.length_filter_le ..).trans hsockets.2.2⟩

/-- A socket is taken out of the set of its session and no other. -/
theorem mem_unregisterSessionSocket {other : String} (hkey : client.sessionSocketKey = some key) :
    id ∈ socketsOf (unregisterSessionSocket sessionSockets other client).1 key ↔
      id ∈ sessionSockets.socketsOf key ∧ id ≠ other := by
  unfold unregisterSessionSocket
  rw [hkey]
  dsimp only
  split
  · next hget => simp [socketsOf, hget]
  · next sockets hget =>
      rw [socketsOf_of_get hget]
      split
      · next hleft =>
          rw [socketsOf, OrderedMap.get_delete_self]
          have hnone := List.filter_eq_nil_iff.mp hleft id
          simp only [Option.getD_none, List.not_mem_nil, false_iff, not_and, not_not]
          intro hmem
          simpa using hnone hmem
      · rw [socketsOf_set_self]
        simp

theorem socketsOf_unregisterSessionSocket (h : client.sessionSocketKey ≠ some key) :
    socketsOf (unregisterSessionSocket sessionSockets id client).1 key = sessionSockets.socketsOf key := by
  unfold unregisterSessionSocket
  split
  · rfl
  · next own hown =>
      have hne : key ≠ own := fun heq => h (heq ▸ hown)
      dsimp only
      split
      · rfl
      split
      · rw [socketsOf, OrderedMap.get_delete_of_ne _ hne]
        rfl
      · exact socketsOf_set_of_ne _ _ hne

end Registry

/-! ### The registry and the sockets -/

structure Sound (s : State) : Prop where
  bounded : s.sessionSockets.Bounded
  members : ∀ key id, id ∈ s.sessionSockets.socketsOf key ↔
    ∃ client, s.clients id = some client ∧ client.sessionSocketKey = some key
  /-- A socket has its key until it is given up or has gone. -/
  keys : ∀ id client, s.clients id = some client → client.sessionSocketKey =
    if client.disconnectHandled = true ∨ client.phase = .refused then none else client.registeredKey
  registered : ∀ id client key, s.clients id = some client → client.registeredKey = some key →
    sessionKey client = some key
  handled : ∀ id client, s.clients id = some client → client.disconnectHandled = true → client.connected = false
  guards : ∀ id guards, OrderedMap.get s.socketGuards id = some guards →
    ∃ client, s.clients id = some client ∧ client.disconnectHandled = false
  timers : ∀ timer guard, s.timers.armed timer = some guard →
    (OrderedMap.get s.socketGuards guard.socketId).map (·.timer guard.kind) = some timer

theorem sound_initial (admissionService : Bool) : Sound (State.initial admissionService) := by
  refine ⟨fun key sockets hget => ?_, fun key id => ?_, ?_, ?_, ?_, ?_, ?_⟩
  · cases hget
  · exact iff_of_false List.not_mem_nil fun h => nomatch h.choose_spec.1
  · intro id client hid
    cases hid
  · intro id client key hid
    cases hid
  · intro id client hid
    cases hid
  · intro id guards hget
    cases hget
  · intro timer guard harmed
    cases harmed

/-- A step of one socket that leaves its registration as it is. -/
theorem Sound.setClient (h : Sound s) (hid : s.clients id = some client)
    (hkey : client'.sessionSocketKey = client.sessionSocketKey)
    (hsession : sessionKey client' = sessionKey client) (hregistered : client'.registeredKey = client.registeredKey)
    (hhandled : client'.disconnectHandled = client.disconnectHandled)
    (hrefused : client'.phase = .refused ↔ client.phase = .refused)
    (hconnected : client'.connected = true → client.connected = true) : Sound (s.setClient id client') := by
  refine ⟨h.bounded, fun key other => ?_, fun other found hfound => ?_, fun other found key hfound hkey' => ?_,
    fun other found hfound hdone => ?_, fun other guards hget => ?_, h.timers⟩
  · refine (h.members key other).trans ?_
    simp only [State.setClient, Function.update_apply]
    grind
  · have hkeys := h.keys id client hid
    have hothers := h.keys other found
    simp only [State.setClient, Function.update_apply] at hfound
    grind
  · have hold := h.registered id client key hid
    have hothers := h.registered other found key
    simp only [State.setClient, Function.update_apply] at hfound
    grind
  · have hold := h.handled id client hid
    have hothers := h.handled other found
    simp only [State.setClient, Function.update_apply] at hfound
    grind
  · have hguards := h.guards other guards hget
    simp only [State.setClient, Function.update_apply]
    grind

theorem Sound.setPhase (h : Sound s) (hid : s.clients id = some client) {phase : Phase}
    (hold : client.phase ≠ .refused) (hnew : phase ≠ .refused) : Sound (s.setPhase id client phase) :=
  h.setClient hid rfl rfl rfl rfl (iff_of_false hnew hold) fun hconnected => hconnected

theorem Sound.disconnect (h : Sound s) (hid : s.clients id = some client) : Sound (s.disconnect id client) :=
  h.setClient hid rfl rfl rfl rfl Iff.rfl fun hconnected => nomatch hconnected

/-! ### Guards -/

theorem Sound.clearTimeout (h : Sound s) (timer : Nat) : Sound { s with timers := s.timers.clearTimeout timer } :=
  ⟨h.bounded, h.members, h.keys, h.registered, h.handled, h.guards, fun other guard harmed =>
    h.timers other guard (Timers.armed_of_clearTimeout harmed)⟩

theorem get_clearSocketGuards (s : State) (id : String) : OrderedMap.get (s.clearSocketGuards id).socketGuards id = none := by
  unfold State.clearSocketGuards
  split
  · next hget => exact hget
  · exact OrderedMap.get_delete_self _ _

/-- Both timers of a socket go with its entry. -/
theorem Sound.clearSocketGuards (h : Sound s) (id : String) : Sound (s.clearSocketGuards id) := by
  unfold State.clearSocketGuards
  split
  · exact h
  · next guards hget =>
      refine ⟨h.bounded, h.members, h.keys, h.registered, h.handled, fun other others hother => ?_, fun timer guard harmed => ?_⟩
      · by_cases hsame : other = id
        · rw [hsame, OrderedMap.get_delete_self] at hother
          cases hother
        · rw [OrderedMap.get_delete_of_ne _ hsame] at hother
          exact h.guards other others hother
      · simp only [Timers.armed_clearTimeout, Option.ite_none_left_eq_some] at harmed
        obtain ⟨hlifetime, hrevalidation, harmed⟩ := harmed
        have htimer := h.timers timer guard harmed
        by_cases hsame : guard.socketId = id
        · rw [hsame, hget] at htimer
          have heq := Option.some.inj htimer
          cases hkind : guard.kind with
          | revalidation => exact absurd (by rw [← heq, hkind]; rfl) hrevalidation
          | lifetime => exact absurd (by rw [← heq, hkind]; rfl) hlifetime
        · rw [OrderedMap.get_delete_of_ne _ hsame]
          exact htimer

theorem clearSocketGuards_clients (s : State) (id : String) : (s.clearSocketGuards id).clients = s.clients := by
  unfold State.clearSocketGuards
  split <;> rfl

/-- A socket that is still there gets its guards. -/
theorem Sound.startSocketGuards (h : Sound s) (hid : s.clients id = some client)
    (hhandled : client.disconnectHandled = false) : Sound (s.startSocketGuards id) := by
  have hcleared := h.clearSocketGuards id
  have hnone := get_clearSocketGuards s id
  have hclient : (s.clearSocketGuards id).clients id = some client := by rw [clearSocketGuards_clients, hid]
  unfold State.startSocketGuards
  generalize s.clearSocketGuards id = s at hcleared hnone hclient
  refine ⟨hcleared.bounded, hcleared.members, hcleared.keys, hcleared.registered, hcleared.handled,
    fun other guards hget => ?_, fun timer guard harmed => ?_⟩
  · by_cases hsame : other = id
    · exact ⟨client, hsame.symm ▸ hclient, hhandled⟩
    · rw [OrderedMap.get_set_of_ne _ _ hsame] at hget
      exact hcleared.guards other guards hget
  · simp only [Timers.armed_setTimeout] at harmed
    split at harmed
    · next htimer =>
        obtain rfl := Option.some.inj harmed
        rw [OrderedMap.get_set_self, htimer]
        rfl
    split at harmed
    · next htimer =>
        obtain rfl := Option.some.inj harmed
        rw [OrderedMap.get_set_self, htimer]
        rfl
    · have htimer := hcleared.timers timer guard harmed
      by_cases hsame : guard.socketId = id
      · rw [hsame, hnone] at htimer
        cases htimer
      · rw [OrderedMap.get_set_of_ne _ _ hsame]
        exact htimer

/-! ### Registering and unregistering -/

/-- A new socket that is not taken in. -/
theorem Sound.refuse (h : Sound s) (hid : s.clients id = none) (hkey : client.sessionSocketKey = none)
    (hregistered : client.registeredKey = none) (hrefused : client.phase = .refused)
    (hhandled : client.disconnectHandled = false) :
    Sound (s.setClient id client) := by
  refine ⟨h.bounded, fun key other => ?_, fun other found hfound => ?_, fun other found key hfound hkey' => ?_,
    fun other found hfound hdone => ?_, fun other guards hget => ?_, h.timers⟩
  · refine (h.members key other).trans ?_
    simp only [State.setClient, Function.update_apply]
    grind
  · have hothers := h.keys other found
    simp only [State.setClient, Function.update_apply] at hfound
    grind
  · have hothers := h.registered other found key
    simp only [State.setClient, Function.update_apply] at hfound
    grind
  · have hothers := h.handled other found
    simp only [State.setClient, Function.update_apply] at hfound
    grind
  · have hguards := h.guards other guards hget
    simp only [State.setClient, Function.update_apply]
    grind

/-- A new socket that is taken in. -/
theorem Sound.register (h : Sound s) (hid : s.clients id = none)
    (hregister : s.sessionSockets.registerSessionSocket id client = some (sessionSockets', client'))
    {phase : Phase} (hphase : phase ≠ .refused) (hhandled : client.disconnectHandled = false) :
    Sound ({ s with sessionSockets := sessionSockets' }.setPhase id client' phase) := by
  obtain ⟨key, hsession, hroom, rfl, rfl⟩ := Registry.registerSessionSocket_eq hregister
  have hnew : ∀ key, id ∉ s.sessionSockets.socketsOf key := by
    intro key hmem
    obtain ⟨old, hold, -⟩ := (h.members key id).mp hmem
    rw [hid] at hold
    cases hold
  rw [if_neg (hnew key)]
  refine ⟨h.bounded.set ⟨by simp, ?_, ?_⟩, fun other found => ?_, fun other found hfound => ?_,
    fun other found own hfound hown => ?_, fun other found hfound hdone => ?_, fun other guards hget => ?_, h.timers⟩
  · rw [← List.concat_eq_append]
    exact (h.bounded.nodup key).concat (hnew key)
  · rw [List.length_append, List.length_singleton]
    exact hroom
  · by_cases hother : other = key
    · subst hother
      have hmember := h.members other found
      simp only [State.setPhase, State.setClient, Function.update_apply, Registry.socketsOf_set_self,
        List.mem_append, List.mem_singleton]
      by_cases hfound : found = id
      · rw [if_pos hfound]
        exact iff_of_true (Or.inr hfound) ⟨_, rfl, rfl⟩
      · rw [if_neg hfound, or_iff_left hfound]
        exact hmember
    · have hmember := h.members other found
      simp only [State.setPhase, State.setClient, Function.update_apply, Registry.socketsOf_set_of_ne _ _ hother]
      grind
  · have hothers := h.keys other found
    simp only [State.setPhase, State.setClient, Function.update_apply] at hfound
    grind
  · have hothers := h.registered other found own
    have hsame : sessionKey ⟨client.userId, client.sessionId, some key, client.connected, phase, some key,
      client.disconnectHandled⟩ = some key := hsession
    simp only [State.setPhase, State.setClient, Function.update_apply] at hfound
    grind
  · have hothers := h.handled other found
    simp only [State.setPhase, State.setClient, Function.update_apply] at hfound
    grind
  · have hguards := h.guards other guards hget
    simp only [State.setPhase, State.setClient, Function.update_apply]
    grind

/-- A socket leaves the registry because it is given up or has gone. -/
theorem Sound.unregister (h : Sound s) (hid : s.clients id = some client) (hkey : client'.sessionSocketKey = none)
    (hsession : sessionKey client' = sessionKey client) (hregistered : client'.registeredKey = client.registeredKey)
    (hgone : client'.disconnectHandled = true ∨ client'.phase = .refused)
    (hhandled : client'.disconnectHandled = true → client'.connected = false)
    (hguards : client'.disconnectHandled = true → OrderedMap.get s.socketGuards id = none) :
    Sound ({ s with sessionSockets := (s.sessionSockets.unregisterSessionSocket id client).1 }.setClient id client') := by
  refine ⟨h.bounded.unregisterSessionSocket id client, fun key other => ?_, fun other found hfound => ?_,
    fun other found key hfound hkey' => ?_, fun other found hfound hdone => ?_, fun other guards hget => ?_, h.timers⟩
  · have hmember := h.members key other
    simp only [State.setClient, Function.update_apply]
    by_cases hown : client.sessionSocketKey = some key
    · rw [Registry.mem_unregisterSessionSocket hown]
      grind
    · rw [Registry.socketsOf_unregisterSessionSocket hown]
      grind
  · have hothers := h.keys other found
    simp only [State.setClient, Function.update_apply] at hfound
    grind
  · have hold := h.registered id client key hid
    have hothers := h.registered other found key
    simp only [State.setClient, Function.update_apply] at hfound
    grind
  · have hothers := h.handled other found
    simp only [State.setClient, Function.update_apply] at hfound
    grind
  · have hentry : OrderedMap.get s.socketGuards other = some guards := hget
    have hothers := h.guards other guards hentry
    simp only [State.setClient, Function.update_apply]
    grind

/-! ### One step -/

theorem Sound.joinRooms (h : Sound s) (hid : s.clients id = none)
    (hregister : s.sessionSockets.registerSessionSocket id client = some (sessionSockets', client'))
    (hhandled : client.disconnectHandled = false) :
    Sound ({ s with sessionSockets := sessionSockets' }.joinRooms id client') := by
  unfold State.joinRooms
  split
  · exact h.register hid hregister (by simp) hhandled
  · exact h.register hid hregister (by simp) hhandled

theorem Sound.handleConnection (h : Sound s) (hid : s.clients id = none) (userId sessionId : Option String) :
    Sound (s.handleConnection id userId sessionId) := by
  unfold State.handleConnection
  dsimp only
  split
  · exact h.refuse hid rfl rfl rfl rfl
  · next hregister => exact h.joinRooms hid hregister rfl

/-- The end of the loop is where a socket that is still connected gets its guards. -/
theorem Sound.nextMembership (h : Sound s) (hid : s.clients id = some client) (hphase : client.phase ≠ .refused)
    (memberships : List String) : Sound (s.nextMembership id client memberships) := by
  unfold State.nextMembership
  split
  · exact h.setPhase hid hphase (by simp)
  · next hconnected =>
      have hhandled : client.disconnectHandled = false := by
        have hdone := h.handled id client hid
        grind
      split
      · exact h.setPhase hid hphase (by simp)
      · refine (h.startSocketGuards hid hhandled).setPhase ?_ hphase (by simp)
        exact (congrFun (clearSocketGuards_clients s id) id).trans hid

theorem Sound.giveUp (h : Sound s) (hid : s.clients id = some client) : Sound (s.giveUp id client) := by
  unfold State.giveUp
  dsimp only
  rw [Registry.unregisterSessionSocket_snd]
  refine h.unregister hid rfl rfl rfl (Or.inr rfl) (fun _ => rfl) fun hhandled => ?_
  cases hget : OrderedMap.get s.socketGuards id with
  | none => rfl
  | some guards =>
      obtain ⟨found, hfound, hnot⟩ := h.guards id guards hget
      obtain rfl := Option.some.inj (hid.symm.trans hfound)
      exact nomatch hhandled.symm.trans hnot

theorem Sound.handleDisconnect (h : Sound s) (hid : s.clients id = some client) (hconnected : client.connected = false) :
    Sound (s.handleDisconnect id client) := by
  -- The guards may be cleared first: neither the registry nor the socket has a part in it.
  have hcomm : s.handleDisconnect id client =
      { s.clearSocketGuards id with
        sessionSockets := ((s.clearSocketGuards id).sessionSockets.unregisterSessionSocket id client).1 }.setClient id
        { client with sessionSocketKey := none, disconnectHandled := true } := by
    unfold State.handleDisconnect
    dsimp only
    rw [Registry.unregisterSessionSocket_snd]
    unfold State.clearSocketGuards State.setClient
    dsimp only
    cases OrderedMap.get s.socketGuards id <;> rfl
  rw [hcomm]
  refine (h.clearSocketGuards id).unregister ?_ rfl rfl rfl (Or.inl rfl) (fun _ => hconnected) fun _ => ?_
  · rw [clearSocketGuards_clients, hid]
  · exact get_clearSocketGuards s id

theorem Sound.revalidating (h : Sound s) (revalidationInFlight : Nat → Option String) :
    Sound { s with revalidationInFlight := revalidationInFlight } :=
  ⟨h.bounded, h.members, h.keys, h.registered, h.handled, h.guards, h.timers⟩

theorem Sound.step (h : Sound s) {label : Label} (hstep : s.step label = some t) : Sound t := by
  cases label with
  | handleConnection id userId sessionId =>
      obtain ⟨hid, hstep⟩ := Option.ite_none_right_eq_some.mp hstep
      obtain rfl := Option.some.inj hstep
      exact h.handleConnection hid userId sessionId
  | joinedUserRoom id =>
      obtain ⟨client, hid, hstep⟩ := Option.bind_eq_some_iff.mp hstep
      split at hstep
      · next hphase =>
          obtain rfl := Option.some.inj hstep
          refine h.setPhase hid (by simp [hphase]) ?_
          split <;> simp
      · cases hstep
  | foundMemberships id memberships =>
      obtain ⟨client, hid, hstep⟩ := Option.bind_eq_some_iff.mp hstep
      split at hstep
      · next hphase =>
          obtain rfl := Option.some.inj hstep
          exact h.nextMembership hid (by simp [hphase]) memberships
      · cases hstep
  | enterProject id =>
      obtain ⟨client, hid, hstep⟩ := Option.bind_eq_some_iff.mp hstep
      split at hstep
      · next hphase =>
          obtain rfl := Option.some.inj hstep
          refine h.setPhase hid (by simp [hphase]) ?_
          split <;> simp
      · cases hstep
  | countedMemberships id isCurrentProjectMember =>
      obtain ⟨client, hid, hstep⟩ := Option.bind_eq_some_iff.mp hstep
      split at hstep
      · next hphase =>
          obtain rfl := Option.some.inj hstep
          refine h.setPhase hid (by simp [hphase]) ?_
          split <;> simp
      · cases hstep
  | joinedProjectRoom id =>
      obtain ⟨client, hid, hstep⟩ := Option.bind_eq_some_iff.mp hstep
      split at hstep
      · next hphase =>
          obtain rfl := Option.some.inj hstep
          exact h.setPhase hid (by simp [hphase]) (by simp)
      · cases hstep
  | leftProject id =>
      obtain ⟨client, hid, hstep⟩ := Option.bind_eq_some_iff.mp hstep
      split at hstep
      · next hphase =>
          obtain rfl := Option.some.inj hstep
          exact h.nextMembership hid (by simp [hphase]) _
      · cases hstep
  | reject id =>
      obtain ⟨client, hid, hstep⟩ := Option.bind_eq_some_iff.mp hstep
      obtain ⟨hwaits, hstep⟩ := Option.ite_none_right_eq_some.mp hstep
      obtain rfl := Option.some.inj hstep
      refine h.setPhase hid (fun hrefused => ?_) (by simp)
      rw [hrefused] at hwaits
      cases hwaits
  | giveUp id =>
      obtain ⟨client, hid, hstep⟩ := Option.bind_eq_some_iff.mp hstep
      split at hstep
      · obtain rfl := Option.some.inj hstep
        exact h.giveUp hid
      · cases hstep
  | disconnect id =>
      obtain ⟨client, hid, hstep⟩ := Option.bind_eq_some_iff.mp hstep
      obtain rfl := Option.some.inj hstep
      exact h.disconnect hid
  | handleDisconnect id =>
      obtain ⟨client, hid, hstep⟩ := Option.bind_eq_some_iff.mp hstep
      obtain ⟨hgone, hstep⟩ := Option.ite_none_right_eq_some.mp hstep
      obtain rfl := Option.some.inj hstep
      exact h.handleDisconnect hid hgone.1
  | fire timer =>
      obtain ⟨guard, -, hstep⟩ := Option.bind_eq_some_iff.mp hstep
      obtain ⟨client, hid, hstep⟩ := Option.bind_eq_some_iff.mp hstep
      split at hstep
      · split at hstep
        · obtain rfl := Option.some.inj hstep
          exact h
        · obtain rfl := Option.some.inj hstep
          exact h.revalidating _
      · obtain rfl := Option.some.inj hstep
        exact (h.clearTimeout timer).disconnect hid
  | revalidated timer active =>
      obtain ⟨id, -, hstep⟩ := Option.bind_eq_some_iff.mp hstep
      obtain ⟨client, hid, hstep⟩ := Option.bind_eq_some_iff.mp hstep
      obtain rfl := Option.some.inj hstep
      split
      · exact h.revalidating _
      · exact (h.revalidating _).disconnect hid

/-! ### Every run -/

/-- The rooms of the socket could not be joined, or it was never taken in. -/
def Client.joinsFailed (client : Client) : Prop := client.phase = .failed ∨ client.phase = .refused

/-- No failure is on its way to its `handleConnection`. -/
def State.Settled (s : State) : Prop := ∀ id client, s.clients id = some client → client.phase ≠ .failed

/-- Who is registered, until it is heard that it has gone or failed. -/
theorem Sound.mem_socketsOf (h : Sound s) (key id : String) :
    id ∈ s.sessionSockets.socketsOf key ↔
      ∃ client, s.clients id = some client ∧ client.registeredKey = some key ∧ client.disconnectHandled = false ∧
        (client.joinsFailed → client.phase = .failed) := by
  refine (h.members key id).trans (exists_congr fun client => and_congr_right fun hid => ?_)
  have hkeys := h.keys id client hid
  unfold Client.joinsFailed
  cases hhandled : client.disconnectHandled with
  | true =>
      rw [if_pos (Or.inl hhandled)] at hkeys
      simp [hkeys]
  | false =>
      by_cases hrefused : client.phase = .refused
      · rw [if_pos (Or.inr hrefused)] at hkeys
        simp [hkeys, hrefused]
      · rw [if_neg (by simp [hhandled, hrefused])] at hkeys
        simp [hkeys, hrefused]

theorem registry_exact {admissionService : Bool} {labels : List Label}
    (hrun : Runs.run State.step (.initial admissionService) labels = some s) :
    (∀ key sockets, OrderedMap.get s.sessionSockets key = some sockets →
      sockets ≠ [] ∧ sockets.Nodup ∧ sockets.length ≤ maximumSocketsPerSession) ∧
    (∀ key id, id ∈ s.sessionSockets.socketsOf key ↔
      ∃ client, s.clients id = some client ∧ client.registeredKey = some key ∧ client.disconnectHandled = false ∧
        (client.joinsFailed → client.phase = .failed)) ∧
    (s.Settled → ∀ key id, id ∈ s.sessionSockets.socketsOf key ↔
      ∃ client, s.clients id = some client ∧ client.registeredKey = some key ∧ client.disconnectHandled = false ∧
        ¬ client.joinsFailed) ∧
    (∀ id client key, s.clients id = some client → client.registeredKey = some key → sessionKey client = some key) ∧
    (∀ timer guard, s.timers.armed timer = some guard →
      ∃ client, s.clients guard.socketId = some client ∧ client.disconnectHandled = false) ∧
    ∀ timer timer' guard, s.timers.armed timer = some guard → s.timers.armed timer' = some guard → timer = timer' := by
  have h : Sound s := Runs.Preserved.run (fun _ _ _ hs hstep => hs.step hstep) (sound_initial admissionService) hrun
  refine ⟨h.bounded, h.mem_socketsOf, fun hsettled key id => ?_, h.registered, fun timer guard harmed => ?_,
    fun timer timer' guard harmed harmed' => ?_⟩
  · refine (h.mem_socketsOf key id).trans (exists_congr fun client => and_congr_right fun hid => ?_)
    have hphase := hsettled id client hid
    simp [hphase, Client.joinsFailed]
  · obtain ⟨guards, hget, -⟩ := Option.map_eq_some_iff.mp (h.timers timer guard harmed)
    exact h.guards guard.socketId guards hget
  · exact Option.some.inj ((h.timers timer guard harmed).symm.trans (h.timers timer' guard harmed'))

/-- Six sockets of one session: one fails to join, one goes while it joins, and the sixth finds no room. -/
def crowdedSession : List Label :=
  [.handleConnection "s1" (some "jdoe") (some "sid"), .joinedUserRoom "s1", .foundMemberships "s1" ["project"],
    .handleConnection "s2" (some "jdoe") (some "sid"), .handleConnection "s3" (some "jdoe") (some "sid"),
    .enterProject "s1", .reject "s2", .handleConnection "s4" (some "jdoe") (some "sid"),
    .handleConnection "s5" (some "jdoe") (some "sid"), .handleConnection "s6" (some "jdoe") (some "sid"),
    .giveUp "s2", .countedMemberships "s1" true, .disconnect "s3", .handleDisconnect "s3", .joinedProjectRoom "s1",
    .leftProject "s1", .joinedUserRoom "s3"]

theorem registry_exact_of_crowd :
    ∃ s, Runs.run State.step (.initial true) crowdedSession = some s ∧
      s.sessionSockets.socketsOf "jdoe:sid" = ["s1", "s4", "s5"] ∧
      (∃ client, s.clients "s4" = some client ∧ client.registeredKey = some "jdoe:sid" ∧
        client.disconnectHandled = false ∧ (client.joinsFailed → client.phase = .failed)) ∧
      ∃ client, s.clients "s1" = some client ∧ client.disconnectHandled = false := by
  obtain ⟨s, hrun⟩ := Option.isSome_iff_exists.mp
    (show (Runs.run State.step (.initial true) crowdedSession).isSome from by decide +kernel)
  have hstate : (Runs.run State.step (.initial true) crowdedSession).map
      (fun s => (s.sessionSockets.socketsOf "jdoe:sid", s.timers.armed 0)) =
      some (["s1", "s4", "s5"], some ⟨"s1", .revalidation⟩) := by decide +kernel
  rw [hrun] at hstate
  obtain ⟨hsockets, harmed⟩ := Prod.mk.inj (Option.some.inj hstate)
  have hregistry := registry_exact hrun
  refine ⟨s, hrun, hsockets, (hregistry.2.1 "jdoe:sid" "s4").mp (by rw [hsockets]; decide), ?_⟩
  exact hregistry.2.2.2.2.1 0 _ harmed

end Transcendence.Realtime.SessionSockets
