import Transcendence.Realtime.SocketGuards

/-!
# How long a socket lives

The gateway together with a clock and with the tables of the auth service, which any write may change at any
time. `isSessionActive` begins when the interval of a socket fires, asks the tables at some later time
(`ValidateWebSocketSession`), and is answered or fails. A session that is revoked, that has expired or whose user
is no longer active keeps none of its sockets for longer than an interval and what the timers and the requests take,
and no socket lives for longer than a quarter of an hour (`sockets_expire`). Times are in milliseconds.

A socket has no guards before it is ready, so this is about the time from then on.
-/

namespace Transcendence.Realtime.SessionSockets

def sessionRevalidationIntervalMs : Nat := 30000

def maximumSocketLifetimeMs : Nat := 15 * 60000

def GuardKind.delay : GuardKind → Nat
  | .revalidation => sessionRevalidationIntervalMs
  | .lifetime => maximumSocketLifetimeMs

/-! ### The auth service -/

/-- A row of `RefreshTokenFamily`. -/
structure FamilyRow where
  userId : String
  revokedAt : Option Nat
  idleExpiresAt : Nat
  absoluteExpiresAt : Nat
  deriving DecidableEq, Repr

/-- The families and the users whose status is ACTIVE. -/
structure AuthTables where
  families : String → Option FamilyRow
  activeUsers : String → Bool

/-- `ValidateWebSocketSession` -/
def AuthTables.validate (tables : AuthTables) (now : Nat) (userId familyId : String) : Bool :=
  (tables.families familyId).any fun family =>
    family.userId = userId && family.revokedAt = none && now < family.idleExpiresAt && now < family.absoluteExpiresAt &&
      tables.activeUsers userId

/-- The user and the session of a socket. -/
def State.session (s : State) (id : String) : Option (String × String) :=
  (s.clients id).bind fun client => client.userId.bind fun userId => client.sessionId.map fun sessionId =>
    (userId, sessionId)

/-- A request of `isSessionActive`: when it began, and what the auth service has found, if it has looked. -/
structure Check where
  startedAt : Nat
  found : Option Bool
  deriving DecidableEq, Repr

/-! ### Steps -/

/-- `due` is when a timer fires next. `readyAt`, since when a socket has its guards, is not in the program. -/
structure TimedGateway where
  now : Nat
  gateway : State
  tables : AuthTables
  due : Nat → Nat
  checks : Nat → Option Check
  readyAt : String → Nat

inductive Event where
  | pass (elapsed : Nat)
  | gateway (label : Label)
  /-- The auth service looks for the session that the request of an interval is about. -/
  | validate (timer : Nat)
  | write (tables : AuthTables)

namespace TimedGateway

def initial (admissionService : Bool) (tables : AuthTables) : TimedGateway where
  now := 0
  gateway := .initial admissionService
  tables := tables
  due _ := 0
  checks _ := none
  readyAt _ := 0

/-- A timer fires when it is due, and a request that is answered is answered as it was found. -/
def allows (s : TimedGateway) : Label → Bool
  | .fire timer => s.due timer ≤ s.now
  | .revalidated timer (some active) => (s.checks timer).any (·.found = some active)
  | _ => true

/-- An interval is due again an interval after it has fired, and a new timer after its delay. -/
def nextDue (s : TimedGateway) (label : Label) (gateway : State) (timer : Nat) : Nat :=
  if timer < s.gateway.timers.next then
    if label.fired = some timer then s.now + sessionRevalidationIntervalMs else s.due timer
  else ((gateway.timers.armed timer).map fun guard => s.now + guard.kind.delay).getD (s.due timer)

/-- A request begins with the firing of an interval, and ends with its answer. -/
def nextChecks (s : TimedGateway) (label : Label) (gateway : State) (timer : Nat) : Option Check :=
  if (gateway.revalidationInFlight timer).isNone then none
  else if label.fired = some timer ∧ (s.gateway.revalidationInFlight timer).isNone then some ⟨s.now, none⟩
  else s.checks timer

def nextReadyAt (s : TimedGateway) (gateway : State) (id : String) : Nat :=
  if (gateway.clients id).any (·.Active) && !(s.gateway.clients id).any (·.Active) then s.now else s.readyAt id

/-- The system with what a step has made of the gateway. -/
def moved (s : TimedGateway) (label : Label) (gateway : State) : TimedGateway :=
  { s with
    gateway := gateway
    due := s.nextDue label gateway
    checks := s.nextChecks label gateway
    readyAt := s.nextReadyAt gateway }

def step (s : TimedGateway) : Event → Option TimedGateway
  | .pass elapsed => some { s with now := s.now + elapsed }
  | .gateway label => if s.allows label then (s.gateway.step label).map (s.moved label) else none
  | .validate timer =>
      match s.checks timer, (s.gateway.revalidationInFlight timer).bind s.gateway.session with
      | some ⟨startedAt, none⟩, some (userId, sessionId) =>
          some { s with
            checks := Function.update s.checks timer
              (some ⟨startedAt, some (s.tables.validate s.now userId sessionId)⟩) }
      | _, _ => none
  | .write tables => some { s with tables := tables }

/-! ### Runs in time -/

end TimedGateway

/-- How late a timer may fire, and how long a request may take. -/
structure Bounds where
  late : Nat
  request : Nat

/-- A request has ended by the time its interval fires again. -/
def Bounds.Fit (bounds : Bounds) : Prop := bounds.request < sessionRevalidationIntervalMs

instance (bounds : Bounds) : Decidable bounds.Fit := inferInstanceAs (Decidable (_ < _))

namespace TimedGateway

/-- No timer and no request is late. -/
def Prompt (bounds : Bounds) (s : TimedGateway) : Prop :=
  ∀ timer < s.gateway.timers.next,
    ((s.gateway.timers.armed timer).isSome → s.now ≤ s.due timer + bounds.late) ∧
      ∀ check ∈ s.checks timer, s.now ≤ check.startedAt + bounds.request

instance (bounds : Bounds) (s : TimedGateway) : Decidable (s.Prompt bounds) :=
  inferInstanceAs (Decidable (∀ timer < s.gateway.timers.next, _))

/-- The timers of a socket, and the last request that its interval has begun. -/
structure Timed (s : TimedGateway) (id : String) (guards : Guards) : Prop where
  readyAt : s.readyAt id + sessionRevalidationIntervalMs ≤ s.due guards.revalidation
  fired : s.due guards.revalidation ≤ s.now + sessionRevalidationIntervalMs
  lifetime : s.due guards.lifetime = s.readyAt id + maximumSocketLifetimeMs
  request : ∀ check, s.checks guards.revalidation = some check →
    check.startedAt + sessionRevalidationIntervalMs = s.due guards.revalidation

structure Inv (bounds : Bounds) (s : TimedGateway) : Prop where
  watched : Watched s.gateway
  prompt : s.Prompt bounds
  requests : ∀ timer, (s.checks timer).isSome = (s.gateway.revalidationInFlight timer).isSome
  timed : ∀ id client guards, Guarded s.gateway id client guards → s.Timed id guards

variable {bounds : Bounds} {s t : TimedGateway} {label : Label} {gateway : State} {id : String} {client : Client} {guards : Guards}

theorem Inv.now_le (h : s.Inv bounds) (hguarded : Guarded s.gateway id client guards) (kind : GuardKind) :
    s.now ≤ s.due (guards.timer kind) + bounds.late := by
  have harmed := hguarded.armed kind
  exact (h.prompt _ (lt_next_of_armed harmed)).1 (by rw [harmed]; rfl)

/-! ### What a step of the gateway does to the timers of a socket -/

theorem nextDue_of_guarded (hguarded : Guarded s.gateway id client guards) (kind : GuardKind) :
    s.nextDue label gateway (guards.timer kind) =
      if label.fired = some (guards.timer kind) then s.now + sessionRevalidationIntervalMs else s.due (guards.timer kind) :=
  if_pos (lt_next_of_armed (hguarded.armed kind))

theorem nextDue_newGuards (hguarded : Guarded gateway id client s.gateway.newGuards) (kind : GuardKind) :
    s.nextDue label gateway (s.gateway.newGuards.timer kind) = s.now + kind.delay := by
  have hle : ¬ s.gateway.newGuards.timer kind < s.gateway.timers.next := by
    cases kind with
    | revalidation => exact Nat.lt_irrefl _
    | lifetime => exact Nat.not_lt.mpr (Nat.le_succ _)
  rw [nextDue, if_neg hle, hguarded.armed kind]
  rfl

theorem any_active (hclient : gateway.clients id = some client) (hactive : client.Active) :
    (gateway.clients id).any (·.Active) = true := by
  rw [hclient, Option.any_some]
  exact decide_eq_true hactive

theorem nextReadyAt_of_guarded (hguarded : Guarded s.gateway id client guards) :
    s.nextReadyAt gateway id = s.readyAt id := by
  rw [nextReadyAt, any_active hguarded.found hguarded.active, Bool.not_true, Bool.and_false]
  rfl

theorem nextReadyAt_of_starts (hguarded : Guarded gateway id client guards)
    (hbefore : ∀ before, s.gateway.clients id = some before → ¬ before.Active) : s.nextReadyAt gateway id = s.now := by
  have hnone : (s.gateway.clients id).any (·.Active) = false := by
    cases hclient : s.gateway.clients id with
    | none => rfl
    | some before => exact decide_eq_false (hbefore before hclient)
  rw [nextReadyAt, any_active hguarded.found hguarded.active, hnone]
  rfl

theorem isSome_nextChecks (h : s.Inv bounds) (hmove : Move s.gateway gateway label) (timer : Nat) :
    (s.nextChecks label gateway timer).isSome = (gateway.revalidationInFlight timer).isSome := by
  rw [nextChecks]
  cases hasked : gateway.revalidationInFlight timer with
  | none => rfl
  | some id =>
      rcases hmove.inFlight hasked with hbefore | ⟨hfired, hnone⟩
      · rw [hbefore]
        simp only [Option.isNone_some, Bool.false_eq_true, and_false, if_false]
        rw [h.requests timer, hbefore]
      · rw [hfired, hnone]
        simp

/-- The interval of a socket does not fire while its last request is on its way. -/
theorem Inv.not_inFlight (h : s.Inv bounds) (hfit : bounds.Fit) (hguarded : Guarded s.gateway id client guards)
    (hdue : s.due guards.revalidation ≤ s.now) : s.gateway.revalidationInFlight guards.revalidation = none := by
  cases hcheck : s.checks guards.revalidation with
  | none =>
      have hrequests := h.requests guards.revalidation
      rw [hcheck] at hrequests
      exact Option.not_isSome_iff_eq_none.mp (by rw [← hrequests]; simp)
  | some check =>
      have hbegan := (h.timed id client guards hguarded).request check hcheck
      have hended := (h.prompt _ (lt_next_of_armed (hguarded.armed .revalidation))).2 check hcheck
      rw [Bounds.Fit] at hfit
      omega

/-! ### A step of the gateway -/

/-- What a step of the gateway does to a socket that had its guards: nothing, or its interval fires and a request
begins, or the answer to the request is that the session is active. -/
inductive Watch (s : TimedGateway) (label : Label) (gateway : State) (guards : Guards) : Prop where
  | other (due : s.nextDue label gateway guards.revalidation = s.due guards.revalidation)
      (checks : s.nextChecks label gateway guards.revalidation = s.checks guards.revalidation)
  | asks (due : s.nextDue label gateway guards.revalidation = s.now + sessionRevalidationIntervalMs)
      (idle : s.checks guards.revalidation = none)
      (checks : s.nextChecks label gateway guards.revalidation = some ⟨s.now, none⟩)
  | answered (due : s.nextDue label gateway guards.revalidation = s.due guards.revalidation)
      (active : ∀ check, s.checks guards.revalidation = some check → check.found = some true)
      (checks : s.nextChecks label gateway guards.revalidation = none)

theorem fired_of_timer (h : label.timer = none) : label.fired = none := by
  cases label with
  | fire timer => cases h
  | _ => rfl

theorem Inv.checks_eq_none (h : s.Inv bounds) {timer : Nat} (hidle : s.gateway.revalidationInFlight timer = none) :
    s.checks timer = none := by
  have hchecks := h.requests timer
  rw [hidle] at hchecks
  exact Option.not_isSome_iff_eq_none.mp (by rw [hchecks]; simp)

theorem nextChecks_of_same {timer : Nat} (h : s.Inv bounds) (hfired : label.fired ≠ some timer)
    (hsame : gateway.revalidationInFlight timer = s.gateway.revalidationInFlight timer) :
    s.nextChecks label gateway timer = s.checks timer := by
  rw [nextChecks, hsame]
  cases hasked : s.gateway.revalidationInFlight timer with
  | none => exact (h.checks_eq_none hasked).symm
  | some id =>
      rw [if_neg (by simp), if_neg (fun hboth => hfired hboth.1)]

theorem Watch.of_same (h : s.Inv bounds) (hbefore : Guarded s.gateway id client guards)
    (hfired : label.fired ≠ some guards.revalidation)
    (hsame : gateway.revalidationInFlight guards.revalidation = s.gateway.revalidationInFlight guards.revalidation) :
    s.Watch label gateway guards :=
  .other ((nextDue_of_guarded hbefore .revalidation).trans (if_neg hfired)) (nextChecks_of_same h hfired hsame)

theorem Inv.watch (h : s.Inv bounds) (hfit : bounds.Fit) (hallows : s.allows label = true)
    (hmove : Move s.gateway gateway label) (hbefore : Guarded s.gateway id client guards) (hafter : Guarded gateway id client guards) :
    s.Watch label gateway guards := by
  have harmed : s.gateway.timers.armed guards.revalidation = some ⟨id, .revalidation⟩ := hbefore.armed .revalidation
  cases hmove with
  | other hlabel _ _ hinFlight _ =>
      exact .of_same h hbefore (by rw [fired_of_timer hlabel]; simp) (by rw [hinFlight])
  | starts other before hlabel _ _ hnext =>
      refine .of_same h hbefore (by rw [fired_of_timer hlabel]; simp) ?_
      rw [hnext]
      show (s.gateway.startSocketGuards other).revalidationInFlight guards.revalidation = _
      rw [inFlight_startSocketGuards, Function.update_of_ne (Nat.ne_of_lt (lt_next_of_armed harmed))]
  | clears _ hlabel _ _ hinFlight _ =>
      exact .of_same h hbefore (by rw [fired_of_timer hlabel]; simp) (by rw [hinFlight])
  | skips timer other hlabel hother hwhy hnext =>
      subst hlabel
      by_cases heq : timer = guards.revalidation
      · exfalso
        subst heq
        rw [harmed] at hother
        cases hother
        rcases hwhy with hflight | hnot
        · exact hflight (h.not_inFlight hfit hbefore (of_decide_eq_true hallows))
        · exact hnot client hbefore.found hbefore.active
      · exact .of_same h hbefore (fun hfired => heq (Option.some.inj hfired)) (by rw [hnext])
  | asks timer other hlabel _ hidle hnext =>
      subst hlabel
      by_cases heq : timer = guards.revalidation
      · subst heq
        refine .asks ((nextDue_of_guarded hbefore .revalidation).trans (if_pos rfl)) (h.checks_eq_none hidle) ?_
        rw [nextChecks, hnext]
        simp [hidle, Label.fired]
      · refine .of_same h hbefore (fun hfired => heq (Option.some.inj hfired)) ?_
        rw [hnext]
        exact Function.update_of_ne (Ne.symm heq) ..
  | expires timer other hlabel hother _ _ hinFlight _ =>
      subst hlabel
      refine .of_same h hbefore (fun hfired => ?_) (by rw [hinFlight])
      cases hfired
      rw [harmed] at hother
      cases hother
  | answered timer other active hlabel hinFlight _ _ hnext hclients =>
      subst hlabel
      by_cases heq : timer = guards.revalidation
      · subst heq
        have hsame : id = other := h.watched.inFlight _ _ _ hinFlight harmed
        have hactive : active = some true := (hclients id client hafter.found hafter.active).1 hsame
        subst hactive
        refine .answered ((nextDue_of_guarded hbefore .revalidation).trans (if_neg (by simp [Label.fired]))) ?_ ?_
        · intro check hcheck
          have hfound : (s.checks guards.revalidation).any (·.found = some true) = true := hallows
          rw [hcheck] at hfound
          exact of_decide_eq_true hfound
        · rw [nextChecks, hnext, Function.update_self]
          rfl
      · refine .of_same h hbefore (by simp [Label.fired]) ?_
        rw [hnext, Function.update_of_ne (Ne.symm heq)]

/-- The timer that ends the life of a socket has not fired while it is connected. -/
theorem fired_ne_lifetime (hmove : Move s.gateway gateway label) (hbefore : Guarded s.gateway id client guards)
    (hafter : Guarded gateway id client guards) : label.fired ≠ some guards.lifetime := by
  intro hfired
  have harmed : s.gateway.timers.armed guards.lifetime = some ⟨id, .lifetime⟩ := hbefore.armed .lifetime
  cases hmove with
  | other hlabel _ _ _ _ =>
      rw [fired_of_timer hlabel] at hfired
      cases hfired
  | starts _ _ hlabel _ _ _ =>
      rw [fired_of_timer hlabel] at hfired
      cases hfired
  | clears _ hlabel _ _ _ _ =>
      rw [fired_of_timer hlabel] at hfired
      cases hfired
  | skips timer other hlabel hother _ _ =>
      rw [hlabel] at hfired
      cases hfired
      rw [harmed] at hother
      cases hother
  | asks timer other hlabel hother _ _ =>
      rw [hlabel] at hfired
      cases hfired
      rw [harmed] at hother
      cases hother
  | expires timer other hlabel hother _ _ _ hclients =>
      rw [hlabel] at hfired
      cases hfired
      rw [harmed] at hother
      cases hother
      exact (hclients id client hafter.found hafter.active).1 rfl
  | answered timer other active hlabel _ _ _ _ _ =>
      rw [hlabel] at hfired
      cases hfired

/-- A socket that has just got its guards. -/
theorem timed_of_starts (hguarded : Guarded gateway id client s.gateway.newGuards)
    (hbefore : ∀ before, s.gateway.clients id = some before → ¬ before.Active)
    (hidle : gateway.revalidationInFlight s.gateway.newGuards.revalidation = none) :
    (s.moved label gateway).Timed id s.gateway.newGuards := by
  have hrevalidation : s.nextDue label gateway s.gateway.newGuards.revalidation = s.now + sessionRevalidationIntervalMs :=
    nextDue_newGuards hguarded .revalidation
  have hlifetime : s.nextDue label gateway s.gateway.newGuards.lifetime = s.now + maximumSocketLifetimeMs :=
    nextDue_newGuards hguarded .lifetime
  have hready := nextReadyAt_of_starts hguarded hbefore
  constructor
  · show s.nextReadyAt gateway id + _ ≤ s.nextDue label gateway _
    rw [hready, hrevalidation]
  · show s.nextDue label gateway _ ≤ s.now + _
    rw [hrevalidation]
  · show s.nextDue label gateway _ = s.nextReadyAt gateway id + _
    rw [hready, hlifetime]
  · intro check hcheck
    have hnone : s.nextChecks label gateway s.gateway.newGuards.revalidation = none := if_pos (by rw [hidle]; rfl)
    rw [show s.nextChecks label gateway s.gateway.newGuards.revalidation = some check from hcheck] at hnone
    cases hnone

/-- A socket that had its guards. -/
theorem Inv.timed_of_guarded (h : s.Inv bounds) (hfit : bounds.Fit) (hallows : s.allows label = true)
    (hmove : Move s.gateway gateway label) (hbefore : Guarded s.gateway id client guards)
    (hafter : Guarded gateway id client guards) :
    (s.moved label gateway).Timed id guards := by
  obtain ⟨hreadyAt, hfired, hlifetime, hrequest⟩ := h.timed id client guards hbefore
  have hready : s.nextReadyAt gateway id = s.readyAt id := nextReadyAt_of_guarded hbefore
  have hlife : s.nextDue label gateway guards.lifetime = s.due guards.lifetime :=
    (nextDue_of_guarded hbefore .lifetime).trans (if_neg (fired_ne_lifetime hmove hbefore hafter))
  have hend : s.nextDue label gateway guards.lifetime = s.nextReadyAt gateway id + maximumSocketLifetimeMs := by
    rw [hlife, hready, hlifetime]
  cases h.watch hfit hallows hmove hbefore hafter with
  | other hdue hchecks =>
      refine ⟨?_, ?_, hend, fun check hcheck => ?_⟩
      · show s.nextReadyAt gateway id + _ ≤ s.nextDue label gateway _
        rw [hready, hdue]
        exact hreadyAt
      · show s.nextDue label gateway _ ≤ _
        rw [hdue]
        exact hfired
      · have hbegan : s.nextChecks label gateway guards.revalidation = some check := hcheck
        show _ = s.nextDue label gateway _
        rw [hchecks] at hbegan
        rw [hdue]
        exact hrequest check hbegan
  | asks hdue _ hchecks =>
      refine ⟨?_, ?_, hend, fun check hcheck => ?_⟩
      · show s.nextReadyAt gateway id + _ ≤ s.nextDue label gateway _
        rw [hready, hdue]
        omega
      · exact hdue.le
      · have hbegan : s.nextChecks label gateway guards.revalidation = some check := hcheck
        rw [hchecks] at hbegan
        cases hbegan
        exact hdue.symm
  | answered hdue _ hchecks =>
      refine ⟨?_, ?_, hend, fun check hcheck => ?_⟩
      · show s.nextReadyAt gateway id + _ ≤ s.nextDue label gateway _
        rw [hready, hdue]
        exact hreadyAt
      · show s.nextDue label gateway _ ≤ _
        rw [hdue]
        exact hfired
      · have hbegan : s.nextChecks label gateway guards.revalidation = some check := hcheck
        rw [hchecks] at hbegan
        cases hbegan

theorem step_validate {timer : Nat} (h : s.step (.validate timer) = some t) : ∃ startedAt id userId sessionId,
    s.checks timer = some ⟨startedAt, none⟩ ∧ s.gateway.revalidationInFlight timer = some id ∧
      s.gateway.session id = some (userId, sessionId) ∧
        t = { s with
          checks := Function.update s.checks timer (some ⟨startedAt, some (s.tables.validate s.now userId sessionId)⟩) } := by
  have hvalidate : (match s.checks timer, (s.gateway.revalidationInFlight timer).bind s.gateway.session with
      | some ⟨startedAt, none⟩, some (userId, sessionId) =>
          some { s with
            checks := Function.update s.checks timer
              (some ⟨startedAt, some (s.tables.validate s.now userId sessionId)⟩) }
      | _, _ => none) = some t := h
  split at hvalidate
  · next startedAt userId sessionId hcheck hsession =>
      cases hvalidate
      obtain ⟨id, hid, hsession⟩ := Option.bind_eq_some_iff.mp hsession
      exact ⟨startedAt, id, userId, sessionId, hcheck, hid, hsession, rfl⟩
  · cases hvalidate

theorem step_gateway (h : s.step (.gateway label) = some t) :
    s.allows label = true ∧ Move s.gateway t.gateway label ∧ t = s.moved label t.gateway := by
  obtain ⟨hallows, hstep⟩ := Option.ite_none_right_eq_some.mp h
  obtain ⟨gateway, hmove, rfl⟩ := Option.map_eq_some_iff.mp hstep
  exact ⟨hallows, move_step hmove, rfl⟩

theorem Inv.step {event : Event} (h : s.Inv bounds) (hfit : bounds.Fit) (hstep : s.step event = some t)
    (hprompt : t.Prompt bounds) : t.Inv bounds := by
  cases event with
  | pass elapsed =>
      cases hstep
      refine ⟨h.watched, hprompt, h.requests, fun id client guards hguarded => ?_⟩
      obtain ⟨hreadyAt, hfired, hlifetime, hrequest⟩ := h.timed id client guards hguarded
      refine ⟨hreadyAt, ?_, hlifetime, hrequest⟩
      show s.due _ ≤ s.now + elapsed + _
      omega
  | gateway label =>
      obtain ⟨hallows, hmove, ht⟩ := step_gateway hstep
      rw [ht] at hprompt ⊢
      refine ⟨h.watched.move hmove, hprompt, isSome_nextChecks h hmove, fun id client guards hguarded => ?_⟩
      rcases hguarded.before h.watched hmove with hbefore | ⟨hbefore, rfl, -, hidle⟩
      · exact h.timed_of_guarded hfit hallows hmove hbefore hguarded
      · exact timed_of_starts hguarded hbefore hidle
  | validate timer =>
      obtain ⟨startedAt, id, userId, sessionId, hcheck, hid, -, rfl⟩ := step_validate hstep
      refine ⟨h.watched, hprompt, fun other => ?_, fun other client guards hguarded => ?_⟩
      · show (Function.update s.checks timer _ other).isSome = _
        by_cases heq : other = timer
        · rw [heq, Function.update_self, hid]
          rfl
        · rw [Function.update_of_ne heq]
          exact h.requests other
      · obtain ⟨hreadyAt, hfired, hlifetime, hrequest⟩ := h.timed other client guards hguarded
        refine ⟨hreadyAt, hfired, hlifetime, fun check hfound => ?_⟩
        have hfound : Function.update s.checks timer _ guards.revalidation = some check := hfound
        by_cases heq : guards.revalidation = timer
        · rw [heq, Function.update_self] at hfound
          cases hfound
          exact hrequest ⟨startedAt, none⟩ (by rw [heq]; exact hcheck)
        · rw [Function.update_of_ne heq] at hfound
          exact hrequest check hfound
  | write tables =>
      cases hstep
      refine ⟨h.watched, hprompt, h.requests, fun id client guards hguarded => ?_⟩
      obtain ⟨hreadyAt, hfired, hlifetime, hrequest⟩ := h.timed id client guards hguarded
      exact ⟨hreadyAt, hfired, hlifetime, hrequest⟩

theorem inv_initial (bounds : Bounds) (admissionService : Bool) (tables : AuthTables) :
    (initial admissionService tables).Inv bounds := by
  refine ⟨watched_initial admissionService, fun timer hlt => ?_, fun timer => rfl, fun id client guards hguarded => ?_⟩
  · exact absurd hlt (Nat.not_lt_zero timer)
  · cases hguarded.found

/-! ### A session that has ended -/

/-- What holds of the sockets of a session that has not been active since some time: their intervals have fired
at most once since then, or since they are ready, and not even once unless the request is on its way that will end
them. -/
structure Ending (since : Nat) (userId sessionId : String) (bounds : Bounds) (s : TimedGateway) : Prop where
  fired : ∀ id client guards, Guarded s.gateway id client guards → s.gateway.session id = some (userId, sessionId) →
    s.due guards.revalidation ≤ max since (s.readyAt id) + 2 * sessionRevalidationIntervalMs + bounds.late
  idle : ∀ id client guards, Guarded s.gateway id client guards → s.gateway.session id = some (userId, sessionId) →
    (∀ check, s.checks guards.revalidation = some check → check.found = some true) →
      s.due guards.revalidation ≤ max since (s.readyAt id) + sessionRevalidationIntervalMs

variable {since : Nat} {userId sessionId : String}

/-- Up to now a session may have been active. -/
theorem Inv.ending (h : s.Inv bounds) (userId sessionId : String) : s.Ending s.now userId sessionId bounds := by
  constructor
  · intro id client guards hguarded _
    have hfired := (h.timed id client guards hguarded).fired
    omega
  · intro id client guards hguarded _ _
    have hfired := (h.timed id client guards hguarded).fired
    omega

theorem session_of_guarded {gateway' : State} (h : Guarded gateway id client guards)
    (h' : Guarded gateway' id client guards) : gateway'.session id = gateway.session id := by
  rw [State.session, State.session, h.found, h'.found]

theorem Ending.step {event : Event} (h : s.Ending since userId sessionId bounds) (hinv : s.Inv bounds) (hfit : bounds.Fit)
    (hended : s.tables.validate s.now userId sessionId = false) (hstep : s.step event = some t) :
    t.Ending since userId sessionId bounds := by
  cases event with
  | pass elapsed =>
      cases hstep
      exact ⟨h.fired, h.idle⟩
  | write tables =>
      cases hstep
      exact ⟨h.fired, h.idle⟩
  | validate timer =>
      obtain ⟨startedAt, asker, user, session, hcheck, hasker, hsession, rfl⟩ := step_validate hstep
      refine ⟨h.fired, fun id client guards hguarded hmine hfound => ?_⟩
      by_cases heq : guards.revalidation = timer
      · exfalso
        have harmed : s.gateway.timers.armed guards.revalidation = some ⟨id, .revalidation⟩ := hguarded.armed .revalidation
        rw [heq] at harmed
        have hsame : id = asker := hinv.watched.inFlight timer asker _ hasker harmed
        subst hsame
        have hboth : some (userId, sessionId) = some (user, session) := hmine.symm.trans hsession
        cases hboth
        have hnow := hfound ⟨startedAt, some (s.tables.validate s.now userId sessionId)⟩ (by
          show Function.update s.checks timer _ guards.revalidation = _
          rw [heq, Function.update_self])
        rw [hended] at hnow
        cases hnow
      · refine h.idle id client guards hguarded hmine fun check hbegan => hfound check ?_
        show Function.update s.checks timer _ guards.revalidation = _
        rw [Function.update_of_ne heq]
        exact hbegan
  | gateway label =>
      obtain ⟨hallows, hmove, ht⟩ := step_gateway hstep
      rw [ht]
      have hnew : ∀ id client, Guarded t.gateway id client s.gateway.newGuards →
          (∀ before, s.gateway.clients id = some before → ¬ before.Active) →
            s.nextDue label t.gateway s.gateway.newGuards.revalidation =
              s.nextReadyAt t.gateway id + sessionRevalidationIntervalMs := by
        intro id client hguarded hbefore
        rw [nextReadyAt_of_starts hguarded hbefore]
        exact nextDue_newGuards hguarded .revalidation
      constructor
      · intro id client guards hguarded hmine
        show s.nextDue label t.gateway _ ≤ max since (s.nextReadyAt t.gateway id) + _ + _
        rcases hguarded.before hinv.watched hmove with hbefore | ⟨hbefore, rfl, -, -⟩
        · rw [nextReadyAt_of_guarded hbefore]
          have hsession := (session_of_guarded hguarded hbefore).trans hmine
          cases hinv.watch hfit hallows hmove hbefore hguarded with
          | other hdue _ => exact hdue.le.trans (h.fired id client guards hbefore hsession)
          | asks hdue hidle _ =>
              have hfirst := h.idle id client guards hbefore hsession fun check hcheck => by
                rw [hidle] at hcheck
                cases hcheck
              have hlate : s.now ≤ s.due guards.revalidation + bounds.late := hinv.now_le hbefore .revalidation
              omega
          | answered hdue _ _ => exact hdue.le.trans (h.fired id client guards hbefore hsession)
        · have hdue := hnew id client hguarded hbefore
          omega
      · intro id client guards hguarded hmine hfound
        show s.nextDue label t.gateway _ ≤ max since (s.nextReadyAt t.gateway id) + _
        rcases hguarded.before hinv.watched hmove with hbefore | ⟨hbefore, rfl, -, -⟩
        · rw [nextReadyAt_of_guarded hbefore]
          have hsession := (session_of_guarded hguarded hbefore).trans hmine
          cases hinv.watch hfit hallows hmove hbefore hguarded with
          | other hdue hchecks =>
              refine hdue.le.trans (h.idle id client guards hbefore hsession fun check hcheck => hfound check ?_)
              exact hchecks.trans hcheck
          | asks hdue _ hchecks =>
              have hnot := hfound ⟨s.now, none⟩ hchecks
              cases hnot
          | answered hdue hactive _ => exact hdue.le.trans (h.idle id client guards hbefore hsession hactive)
        · have hdue := hnew id client hguarded hbefore
          omega

theorem Ending.now_le (h : s.Ending since userId sessionId bounds) (hinv : s.Inv bounds)
    (hguarded : Guarded s.gateway id client guards) (hsession : s.gateway.session id = some (userId, sessionId)) :
    s.now ≤ max since (s.readyAt id) + sessionRevalidationIntervalMs + bounds.late + bounds.request := by
  have hdue : s.now ≤ s.due guards.revalidation + bounds.late := hinv.now_le hguarded .revalidation
  by_cases hfound : ∀ check, s.checks guards.revalidation = some check → check.found = some true
  · have hidle := h.idle id client guards hguarded hsession hfound
    omega
  · push Not at hfound
    obtain ⟨check, hcheck, -⟩ := hfound
    have hbegan := (hinv.timed id client guards hguarded).request check hcheck
    have hended := (hinv.prompt _ (lt_next_of_armed (hguarded.armed .revalidation))).2 check hcheck
    have hfired := h.fired id client guards hguarded hsession
    omega

end TimedGateway

/-- In every run without late timers and requests, for every socket that is ready and still connected. -/
theorem sockets_expire {bounds : Bounds} {admissionService : Bool} {tables : AuthTables} {earlier later : List Event}
    {s t : TimedGateway} (hfit : bounds.Fit)
    (hprompt : Runs.Along TimedGateway.step (fun s event => ∀ t ∈ s.step event, t.Prompt bounds)
      (.initial admissionService tables) (earlier ++ later))
    (hearlier : Runs.run TimedGateway.step (.initial admissionService tables) earlier = some s)
    (hlater : Runs.run TimedGateway.step s later = some t) {id : String} {client : Client}
    (hclient : t.gateway.clients id = some client) (hactive : client.Active) :
    t.now ≤ t.readyAt id + maximumSocketLifetimeMs + bounds.late ∧
    ∀ userId sessionId, t.gateway.session id = some (userId, sessionId) →
      Runs.Along TimedGateway.step (fun s _ => s.tables.validate s.now userId sessionId = false) s later →
        t.now ≤ max s.now (t.readyAt id) + sessionRevalidationIntervalMs + bounds.late + bounds.request := by
  have hs : s.Inv bounds := Runs.Along.run (fun _ _ _ h hpromptly hstep => h.step hfit hstep (hpromptly _ hstep))
    (TimedGateway.inv_initial bounds admissionService tables) hprompt.of_append hearlier
  have hafter := hprompt.after hearlier
  have ht : t.Inv bounds := Runs.Along.run (fun _ _ _ h hpromptly hstep => h.step hfit hstep (hpromptly _ hstep))
    hs hafter hlater
  obtain ⟨guards, hguarded⟩ := ht.watched.guarded id client hclient hactive
  constructor
  · have hlifetime := (ht.timed id client guards hguarded).lifetime
    have hdue : t.now ≤ t.due guards.lifetime + bounds.late := ht.now_le hguarded .lifetime
    omega
  · intro userId sessionId hsession hended
    have hending : t.Inv bounds ∧ t.Ending s.now userId sessionId bounds := by
      refine Runs.Along.run (P := fun u => u.Inv bounds ∧ u.Ending s.now userId sessionId bounds) ?_
        ⟨hs, hs.ending userId sessionId⟩ (hafter.and hended) hlater
      intro u event v h hboth hstep
      exact ⟨h.1.step hfit hstep (hboth.1 v hstep), h.2.step h.1 hfit hboth.2 hstep⟩
    exact hending.2.now_le ht hguarded hsession

/-- The session of jdoe, and whether it has been revoked. -/
def sessionTables (revokedAt : Option Nat) : AuthTables where
  families familyId := if familyId = "sid" then some ⟨"jdoe", revokedAt, 1000000, 1000000⟩ else none
  activeUsers userId := userId = "jdoe"

/-- A socket that is ready, the first request for its session, and the revocation. -/
def untilRevoked : List Event :=
  [.gateway (.handleConnection "s1" (some "jdoe") (some "sid")), .pass 100, .gateway (.joinedUserRoom "s1"),
    .gateway (.foundMemberships "s1" []), .pass 30200, .gateway (.fire 0), .pass 200, .validate 0, .pass 100,
    .gateway (.revalidated 0 (some true)), .write (sessionTables (some 30600))]

/-- The next request, up to its answer. -/
def untilAnswered : List Event :=
  [.pass 30000, .gateway (.fire 0), .pass 500, .validate 0, .pass 1000]

theorem sockets_expire_of_revoked : ∃ t client,
    Runs.run TimedGateway.step (.initial true (sessionTables none)) (untilRevoked ++ untilAnswered) = some t ∧
      t.gateway.clients "s1" = some client ∧ client.Active ∧ t.now = 62100 ∧
        t.now ≤ t.readyAt "s1" + maximumSocketLifetimeMs + 1000 ∧
          t.now ≤ max 30600 (t.readyAt "s1") + sessionRevalidationIntervalMs + 1000 + 2500 := by
  have hprompt : Runs.Along TimedGateway.step (fun s event => ∀ t ∈ s.step event, t.Prompt ⟨1000, 2500⟩)
      (.initial true (sessionTables none)) (untilRevoked ++ untilAnswered) := by
    apply Runs.Along.of_check
      (fun s event (h : decide (∀ t ∈ s.step event, t.Prompt ⟨1000, 2500⟩)) => of_decide_eq_true h)
    decide +kernel
  have hbefore : (Runs.run TimedGateway.step (.initial true (sessionTables none)) untilRevoked).any fun s =>
      s.now = 30600 && (Runs.checkAlong TimedGateway.step (fun s _ => !s.tables.validate s.now "jdoe" "sid") s untilAnswered &&
        (Runs.run TimedGateway.step s untilAnswered).any fun t => t.now = 62100 &&
          (t.gateway.session "s1" = some ("jdoe", "sid") && (t.gateway.clients "s1").any (·.Active))) := by decide +kernel
  obtain ⟨s, hearlier, hs⟩ := (Option.any_eq_true _ _).mp hbefore
  obtain ⟨hthen, hs⟩ := Bool.and_eq_true_iff.mp hs
  obtain ⟨hended, hs⟩ := Bool.and_eq_true_iff.mp hs
  obtain ⟨t, hlater, ht⟩ := (Option.any_eq_true _ _).mp hs
  obtain ⟨hnow, ht⟩ := Bool.and_eq_true_iff.mp ht
  obtain ⟨hsession, ht⟩ := Bool.and_eq_true_iff.mp ht
  obtain ⟨client, hclient, hactive⟩ := (Option.any_eq_true _ _).mp ht
  have hexpires := sockets_expire (by decide) hprompt hearlier hlater hclient (of_decide_eq_true hactive)
  refine ⟨t, client, Runs.run_append_eq_some.mpr ⟨s, hearlier, hlater⟩, hclient, of_decide_eq_true hactive,
    of_decide_eq_true hnow, hexpires.1, ?_⟩
  rw [← of_decide_eq_true hthen]
  apply hexpires.2 "jdoe" "sid" (of_decide_eq_true hsession)
  exact Runs.Along.of_check (fun s _ (h : (!s.tables.validate s.now "jdoe" "sid") = true) => by simpa using h) hended

/-- The answer ends the socket. -/
example : (Runs.run TimedGateway.step (.initial true (sessionTables none))
    (untilRevoked ++ untilAnswered ++ [.gateway (.revalidated 0 (some false))])).any fun t =>
      (t.gateway.clients "s1").any (!·.connected) := by decide +kernel

end Transcendence.Realtime.SessionSockets
