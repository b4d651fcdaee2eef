import Transcendence.Calendar.Events
import Transcendence.Tasks.DateRanges

/-!
# Date ranges of events and tasks

An update of an event checks its dates like one of a task, against the event as its guard has read
it. Events and tasks change side by side in one planner, and the dates of both stay in order exactly
as long as no PATCH of one date is overtaken by a change of the other, and no start is rounded past the
end in the same millisecond.
-/

namespace Transcendence.Calendar

open Bounds Instants

def CalendarEventRow.DatesInOrder (row : CalendarEventRow) : Prop := row.startAt ≤ row.endAt

/-- Every event ends no earlier than it starts. -/
def Database.DatesInOrder (db : Database) : Prop := ∀ row ∈ db.calendarEvents, row.DatesInOrder

/-- The dates of the request are in order with those it has read. -/
def Request.DatesChecked (existing : Option CalendarEvent) : Request → Prop
  | .create _ dto _ => date dto.startAt ≤ date dto.endAt
  | .update _ dto _ _ => ∃ event, existing = some event ∧
      InOrder (checked date dto.startAt (some event.startAt)) (checked date dto.endAt (some event.endAt))
  | .remove .. => True

/-- What a call past its date check has read. -/
def Phase.readEvent : Phase → Option (Option CalendarEvent)
  | .checked existing => some existing
  | .categoryChecked existing => some existing
  | .validated existing => some existing
  | _ => none

/-- What the call writes is overtaken, or rounded past: the PATCH names one date of an event, and the other
has been changed to a wrong one since the call has read it; or the start is rounded up from the
millisecond of the end. -/
def Request.Slips (db : Database) (existing : Option CalendarEvent) : Request → Prop
  | .create _ dto _ => RoundedPast date timestamp3 none (some (some dto.startAt)) (some (some dto.endAt))
  | .update id dto _ _ => ∃ row ∈ db.calendarEvents, row.id = id ∧ ∃ event ∈ existing,
      (Overtaken timestamp3 (some event.startAt) (some event.endAt) (some row.startAt) (some row.endAt)
          dto.startAt dto.endAt ∨
        RoundedPast date timestamp3 (some row.endAt) dto.startAt dto.endAt)
  | .remove .. => False

variable {db after : Database} {projectId : ProjectId} {userId : UserId} {id randomUUID : EventId} {request : Request}
  {phase next : Phase} {effect : Database × Phase} {existing : Option CalendarEvent}

/-! ### The check -/

theorem readEvent_assertMembership
    (h : (assertMembership db projectId userId next).readEvent = some existing) : next.readEvent = some existing := by
  rw [assertMembership] at h
  split at h
  · exact h
  · cases h

theorem readEvent_assertValidDateRange {startAt endAt : Int}
    (h : (assertValidDateRange startAt endAt next).readEvent = some existing) :
    date startAt ≤ date endAt ∧ next.readEvent = some existing := by
  rw [assertValidDateRange] at h
  split at h
  · cases h
  · next hvalid => exact ⟨not_lt.mp hvalid, h⟩

theorem readEvent_assertCategory {categoryId : String}
    (h : (assertCategoryBelongsToProject db projectId categoryId next).readEvent = some existing) :
    next.readEvent = some existing := by
  rw [assertCategoryBelongsToProject] at h
  split at h
  · exact h
  · cases h

theorem readEvent_assertAssignees {userIds : List UserId}
    (h : (assertAssigneesAreProjectMembers db projectId userIds next).readEvent = some existing) :
    next.readEvent = some existing := by
  rw [assertAssigneesAreProjectMembers] at h
  split at h
  · exact h
  · cases h

theorem readEvent_replaceAssignees (assigneeIds : Option (List UserId)) :
    (replaceAssignees db id assigneeIds).2.readEvent = none := by
  cases assigneeIds with
  | none => rfl
  | some userIds =>
      rw [replaceAssignees]
      cases db.replaceAssignees id userIds <;> rfl

theorem readEvent_findByIdForProject {next : CalendarEvent → Phase}
    (h : (findByIdForProject db id projectId next).readEvent = some existing) :
    ∃ event, (next event).readEvent = some existing := by
  rw [findByIdForProject] at h
  cases hfind : db.findByIdForProject id projectId with
  | none =>
      rw [hfind] at h
      cases h
  | some event =>
      rw [hfind] at h
      exact ⟨event, h⟩

/-- A check that is made only if the field is sent. -/
theorem readEvent_elim {α : Type*} {field : Option α} {check : α → Phase}
    (hcheck : ∀ value, (check value).readEvent = some existing → next.readEvent = some existing)
    (h : (field.elim next check).readEvent = some existing) : next.readEvent = some existing := by
  cases field with
  | none => exact h
  | some value => exact hcheck value h

/-- A call past its check has dates that are in order with what it has read. -/
theorem datesChecked_of_effect (heffect : request.effect db randomUUID phase = some effect)
    (hbefore : ∀ existing, phase.readEvent = some existing → request.DatesChecked existing)
    (hafter : effect.2.readEvent = some existing) : request.DatesChecked existing := by
  cases request with
  | create projectId dto userId =>
      cases phase with
      | begun =>
          cases heffect
          exact (readEvent_assertValidDateRange (readEvent_assertMembership hafter)).1
      | checked event | categoryChecked event => exact hbefore event rfl
      | validated event =>
          simp only [Request.effect, create] at heffect
          split at heffect <;> (cases heffect; cases hafter)
      | written eventId =>
          cases heffect
          cases (readEvent_replaceAssignees _).symm.trans hafter
      | assigned eventId =>
          cases heffect
          cases readEvent_assertMembership hafter
      | guarded eventId =>
          cases heffect
          obtain ⟨event, hevent⟩ := readEvent_findByIdForProject hafter
          cases hevent
      | _ => cases heffect
  | update id dto projectId userId =>
      cases phase with
      | begun =>
          cases heffect
          cases readEvent_assertMembership hafter
      | member =>
          cases heffect
          obtain ⟨event, hevent⟩ := readEvent_findByIdForProject hafter
          obtain ⟨hvalid, hread⟩ := readEvent_assertValidDateRange hevent
          cases hread
          refine ⟨event, rfl, ?_⟩
          rw [checked_some, checked_some, inOrder_some]
          exact hvalid
      | checked event =>
          cases heffect
          cases readEvent_elim (fun _ => readEvent_assertCategory) hafter
          exact hbefore _ rfl
      | categoryChecked event =>
          cases heffect
          cases readEvent_elim (fun _ => readEvent_assertAssignees) hafter
          exact hbefore _ rfl
      | validated event =>
          simp only [Request.effect, update] at heffect
          split_ifs at heffect <;> (cases heffect; cases hafter)
      | written eventId =>
          cases heffect
          cases (readEvent_replaceAssignees _).symm.trans hafter
      | assigned eventId =>
          cases heffect
          cases readEvent_assertMembership hafter
      | guarded eventId =>
          cases heffect
          obtain ⟨event, hevent⟩ := readEvent_findByIdForProject hafter
          cases hevent
      | _ => cases heffect
  | remove id projectId userId => trivial

/-! ### The statements that write events -/

/-- The statement of a call that writes an event. -/
inductive Write (db : Database) (randomUUID : EventId) : Request → Phase → Database × Phase → Prop where
  | create {projectId : ProjectId} {dto : CreateCalendarEventDto} {userId : UserId} {existing : Option CalendarEvent} :
      Write db randomUUID (.create projectId dto userId) (.validated existing)
        ({ db with calendarEvents := db.calendarEvents ++ [dto.row projectId randomUUID] }, .written randomUUID)
  | update {id : EventId} {dto : UpdateCalendarEventDto} {projectId : ProjectId} {userId : UserId}
      {existing : Option CalendarEvent} (hallowed : dto.refused = false) :
      Write db randomUUID (.update id dto projectId userId) (.validated existing)
        ({ db with calendarEvents := db.calendarEvents.map fun row => if row.id = id then row.update dto else row },
          .written id)
  | remove {id : EventId} {projectId : ProjectId} {userId : UserId} {existing : CalendarEvent} {next : Phase}
      {calendarAssignees : EventId → List UserId} :
      Write db randomUUID (.remove id projectId userId) (.checked (some existing))
        ({ db with calendarEvents := db.calendarEvents.filter (·.id ≠ id), calendarAssignees }, next)

/-- A step that writes no event does not take its call to having written one. -/
structure Rests (db : Database) (phase : Phase) (effect : Database × Phase) : Prop where
  rows : effect.1.calendarEvents = db.calendarEvents
  phase : ∀ existing id, phase = .validated existing → effect.2 ≠ .written id

theorem calendarEvents_replaceAssignees (assigneeIds : Option (List UserId)) :
    (replaceAssignees db id assigneeIds).1.calendarEvents = db.calendarEvents := by
  cases assigneeIds with
  | none => rfl
  | some userIds =>
      rw [replaceAssignees, Database.replaceAssignees]
      split <;> rfl

theorem rests_or_write (h : request.effect db randomUUID phase = some effect) :
    Rests db phase effect ∨ Write db randomUUID request phase effect := by
  cases request with
  | create projectId dto userId =>
      cases phase with
      | validated event =>
          simp only [Request.effect, create] at h
          split at h
          · cases h
            exact Or.inl ⟨rfl, fun _ _ _ hwritten => by cases hwritten⟩
          · cases h
            exact Or.inr .create
      | written eventId =>
          cases h
          exact Or.inl ⟨calendarEvents_replaceAssignees _, fun _ _ hphase => by cases hphase⟩
      | begun | checked event | categoryChecked event | assigned eventId | guarded eventId =>
          cases h
          exact Or.inl ⟨rfl, fun _ _ hphase => by cases hphase⟩
      | _ => cases h
  | update id dto projectId userId =>
      cases phase with
      | validated event =>
          simp only [Request.effect, update] at h
          split_ifs at h with hrefused hfound
          · cases h
            exact Or.inl ⟨rfl, fun _ _ _ hwritten => by cases hwritten⟩
          · cases h
            exact Or.inr (.update (Bool.not_eq_true _ ▸ hrefused))
          · cases h
            exact Or.inl ⟨rfl, fun _ _ _ hwritten => by cases hwritten⟩
      | written eventId =>
          cases h
          exact Or.inl ⟨calendarEvents_replaceAssignees _, fun _ _ hphase => by cases hphase⟩
      | begun | member | checked event | categoryChecked event | assigned eventId | guarded eventId =>
          cases h
          exact Or.inl ⟨rfl, fun _ _ hphase => by cases hphase⟩
      | _ => cases h
  | remove id projectId userId =>
      cases phase with
      | checked event =>
          cases event with
          | none => cases h
          | some event =>
              cases h
              exact Or.inr .remove
      | begun | member =>
          cases h
          exact Or.inl ⟨rfl, fun _ _ hphase => by cases hphase⟩
      | _ => cases h

theorem Write.exists_written (h : Write db randomUUID request (.validated existing) effect) :
    ∃ id, effect.2 = .written id := by
  cases h <;> exact ⟨_, rfl⟩

/-- The dates of an event whose update is not refused. -/
theorem datesInOrder_update {row : CalendarEventRow} {dto : UpdateCalendarEventDto} (hallowed : dto.refused = false) :
    (row.update dto).DatesInOrder ↔
      InOrder (patched timestamp3 dto.startAt (some row.startAt)) (patched timestamp3 dto.endAt (some row.endAt)) := by
  obtain ⟨⟨-, hstart⟩, hend⟩ : (dto.title ≠ some none ∧ dto.startAt ≠ some none) ∧ dto.endAt ≠ some none := by
    simpa [UpdateCalendarEventDto.refused] using hallowed
  have hpatched : ∀ (patch : Option (Option Int)) (stored : Int), patch ≠ some none →
      patched timestamp3 patch (some stored) = some ((patch.join.map timestamp3).getD stored) := by
    intro patch stored hne
    rcases patch with _ | _ | t
    · rfl
    · exact absurd rfl hne
    · rfl
  rw [hpatched _ _ hstart, hpatched _ _ hend, inOrder_some]
  rfl

/-- An update keeps all dates in order exactly if it does not slip. -/
theorem datesInOrder_update_iff (projectId : ProjectId) (userId : UserId) {event : CalendarEvent}
    {dto : UpdateCalendarEventDto} (hallowed : dto.refused = false)
    (hrows : after.calendarEvents = db.calendarEvents.map fun row => if row.id = id then row.update dto else row)
    (hordered : db.DatesInOrder)
    (hread : InOrder (checked date dto.startAt (some event.startAt)) (checked date dto.endAt (some event.endAt))) :
    after.DatesInOrder ↔ ¬(Request.update id dto projectId userId).Slips db (some event) := by
  have hpatch : ∀ row ∈ db.calendarEvents, (row.update dto).DatesInOrder ↔
      ¬(Overtaken timestamp3 (some event.startAt) (some event.endAt) (some row.startAt) (some row.endAt)
          dto.startAt dto.endAt ∨
        RoundedPast date timestamp3 (some row.endAt) dto.startAt dto.endAt) := by
    intro row hrow
    rw [datesInOrder_update hallowed, not_or]
    exact inOrder_patched_iff rounding hread (inOrder_some.mpr (hordered row hrow))
  constructor
  · rintro h ⟨row, hrow, hid, event', hevent, hslips⟩
    cases hevent
    have hafter := h (row.update dto) (hrows ▸ List.mem_map.mpr ⟨row, hrow, if_pos hid⟩)
    exact (hpatch row hrow).mp hafter hslips
  · intro h row' hrow'
    rw [hrows] at hrow'
    obtain ⟨row, hrow, rfl⟩ := List.mem_map.mp hrow'
    split
    · next hid => exact (hpatch row hrow).mpr fun hslips => h ⟨row, hrow, hid, event, rfl, hslips⟩
    · exact hordered row hrow

/-- A new event keeps all dates in order exactly if its start is not rounded past its end. -/
theorem datesInOrder_create_iff (userId : UserId) (existing : Option CalendarEvent) {dto : CreateCalendarEventDto}
    (hrows : after.calendarEvents = db.calendarEvents ++ [dto.row projectId randomUUID]) (hordered : db.DatesInOrder)
    (hread : date dto.startAt ≤ date dto.endAt) :
    after.DatesInOrder ↔ ¬(Request.create projectId dto userId).Slips db existing := by
  refine Iff.trans ⟨fun h => ?_, fun h row hrow => ?_⟩ (inOrder_both_iff rounding hread)
  · have hcreated := h (dto.row projectId randomUUID) (hrows ▸ List.mem_append_right _ (List.mem_singleton_self _))
    exact inOrder_some.mpr hcreated
  · rw [hrows] at hrow
    rcases List.mem_append.mp hrow with hrow | hrow
    · exact hordered row hrow
    · rw [List.mem_singleton.mp hrow]
      exact inOrder_some.mp h

theorem Write.datesInOrder_iff (h : Write db randomUUID request phase effect) (hordered : db.DatesInOrder)
    (hchecked : ∀ existing, phase.readEvent = some existing → request.DatesChecked existing) :
    effect.1.DatesInOrder ↔ ∀ existing, phase = .validated existing → ¬request.Slips db existing := by
  cases h with
  | @create projectId dto userId existing =>
      refine (datesInOrder_create_iff userId existing rfl hordered (hchecked existing rfl)).trans ⟨?_, fun h => h existing rfl⟩
      intro h existing' hexisting
      cases hexisting
      exact h
  | @update id dto projectId userId existing hallowed =>
      obtain ⟨event, hexisting, hvalid⟩ := hchecked existing rfl
      subst hexisting
      refine (datesInOrder_update_iff projectId userId hallowed rfl hordered hvalid).trans ⟨?_, fun h => h _ rfl⟩
      intro h existing' hexisting
      cases hexisting
      exact h
  | remove =>
      refine iff_of_true (fun row hrow => ?_) fun existing hphase => by cases hphase
      exact hordered row (List.mem_of_mem_filter hrow)

/-! ### The steps of the service -/

namespace Service

/-- The step writes the event of its call. -/
def Writes (s : Service) (label : Label) : Prop :=
  ∃ t request id, s.step label = some t ∧ t.calls label.call = some ⟨request, .written id⟩

/-- The step does not write what has slipped. -/
def NoSlip (s : Service) (label : Label) : Prop :=
  ∀ request existing, s.calls label.call = some ⟨request, .validated existing⟩ → s.Writes label →
    ¬request.Slips s.db existing

/-- Every call past its date check has dates that are in order with what it has read. -/
def DatesChecked (s : Service) : Prop :=
  ∀ id request phase existing, s.calls id = some ⟨request, phase⟩ → phase.readEvent = some existing →
    request.DatesChecked existing

/-- Where a step takes its call; only a call that gets an answer touches the database. -/
inductive StepCases (s t : Service) (label : Label) : Prop where
  | starts {request : Request} (hdb : t.db = s.db) (hnew : s.calls label.call = none)
      (hcalls : t.calls = Function.update s.calls label.call (some ⟨request, .begun⟩))
  | fails {request : Request} {before : Phase} (hdb : t.db = s.db) (hcall : s.calls label.call = some ⟨request, before⟩)
      (hcalls : t.calls = Function.update s.calls label.call (some ⟨request, .ended (.error .database)⟩))
  | advances {randomUUID : EventId} {request : Request} {before : Phase} {effect : Database × Phase}
      (hcall : s.calls label.call = some ⟨request, before⟩)
      (heffect : request.effect s.db randomUUID before = some effect) (hdb : t.db = effect.1)
      (hcalls : t.calls = Function.update s.calls label.call (some ⟨request, effect.2⟩))

variable {s t : Service} {label : Label}

theorem stepCases (hstep : s.step label = some t) : StepCases s t label := by
  cases label with
  | start id request =>
      simp only [step] at hstep
      split at hstep
      · cases hstep
      · next hnew =>
          cases hstep
          exact .starts rfl (Option.not_isSome_iff_eq_none.mp hnew) rfl
  | advance id randomUUID =>
      obtain ⟨⟨request, before⟩, hcall, hstep⟩ := Option.bind_eq_some_iff.mp hstep
      obtain ⟨effect, heffect, rfl⟩ := Option.map_eq_some_iff.mp hstep
      exact .advances hcall heffect rfl rfl
  | fail id =>
      obtain ⟨⟨request, before⟩, hcall, hstep⟩ := Option.bind_eq_some_iff.mp hstep
      cases before with
      | ended result => cases hstep
      | _ =>
          cases hstep
          exact .fails rfl hcall rfl

theorem datesChecked_preserved : Runs.Preserved step DatesChecked := by
  intro s label t h hstep id request phase existing hcall hread
  cases stepCases hstep with
  | starts hdb hnew hcalls =>
      rw [hcalls] at hcall
      rcases Calls.update_eq_some hcall with ⟨-, hsame⟩ | ⟨-, hold⟩
      · cases hsame
        cases hread
      · exact h id request phase existing hold hread
  | fails hdb hbefore hcalls =>
      rw [hcalls] at hcall
      rcases Calls.update_eq_some hcall with ⟨-, hsame⟩ | ⟨-, hold⟩
      · cases hsame
        cases hread
      · exact h id request phase existing hold hread
  | advances hbefore heffect hdb hcalls =>
      rw [hcalls] at hcall
      rcases Calls.update_eq_some hcall with ⟨-, hsame⟩ | ⟨-, hold⟩
      · cases hsame
        exact datesChecked_of_effect heffect (h _ _ _ · hbefore) hread
      · exact h id request phase existing hold hread

theorem datesInOrder_step_iff (hchecked : s.DatesChecked) (hordered : s.db.DatesInOrder) (hstep : s.step label = some t) :
    t.db.DatesInOrder ↔ s.NoSlip label := by
  cases stepCases hstep with
  | starts hdb hnew _ =>
      rw [hdb]
      exact iff_of_true hordered fun request existing hcall => by cases hnew.symm.trans hcall
  | fails hdb hcall hcalls =>
      rw [hdb]
      refine iff_of_true hordered fun request existing _ ⟨t', request', id, hstep', hwritten⟩ => ?_
      cases hstep.symm.trans hstep'
      rw [hcalls, Function.update_self] at hwritten
      cases hwritten
  | @advances randomUUID request before effect hcall heffect hdb hcalls =>
      rw [hdb]
      have hread := fun existing => hchecked _ _ _ existing hcall
      rcases rests_or_write heffect with hrests | hwrite
      · rw [Database.DatesInOrder, hrests.rows]
        refine iff_of_true hordered fun request' existing hvalidated ⟨t', request'', id, hstep', hwritten⟩ => ?_
        cases hstep.symm.trans hstep'
        cases hcall.symm.trans hvalidated
        rw [hcalls, Function.update_self] at hwritten
        exact absurd (congrArg Calls.Call.phase (Option.some.inj hwritten)) (hrests.phase existing id rfl)
      · rw [hwrite.datesInOrder_iff hordered hread]
        constructor
        · intro h request' existing hvalidated _
          cases hcall.symm.trans hvalidated
          exact h existing rfl
        · intro h existing hphase
          subst hphase
          obtain ⟨id, hwritten⟩ := hwrite.exists_written
          refine h request existing hcall ⟨t, request, id, hstep, ?_⟩
          rw [hcalls, Function.update_self, hwritten]

end Service

/-! ### Events and tasks together -/

/-- The events and the tasks. -/
structure Planner where
  events : Service
  tasks : Tasks.Service

namespace Planner

inductive Label where
  | event (label : Calendar.Label)
  | task (label : Tasks.Label)
  deriving DecidableEq, Repr

def initial (events : Database) (tasks : Tasks.Database) : Planner where
  events := .initial events
  tasks := .initial tasks

def step (p : Planner) : Label → Option Planner
  | .event label => (p.events.step label).map fun events => { p with events }
  | .task label => (p.tasks.step label).map fun tasks => { p with tasks }

/-- Every event, and every task with both dates, ends no earlier than it starts. -/
structure DatesInOrder (p : Planner) : Prop where
  events : p.events.db.DatesInOrder
  tasks : p.tasks.db.DatesInOrder

/-- The step writes neither a PATCH of one date of an event or a task of which the other date has been
changed, since the call has read it, to one on the wrong side of the date sent, nor a start that is
rounded up from the millisecond of its end. -/
def NoSlip (p : Planner) : Label → Prop
  | .event label => p.events.NoSlip label
  | .task label => p.tasks.NoSlip label

structure DatesChecked (p : Planner) : Prop where
  events : p.events.DatesChecked
  tasks : p.tasks.DatesChecked

theorem datesChecked_preserved : Runs.Preserved step DatesChecked := by
  intro p label q h hstep
  cases label with
  | event label =>
      obtain ⟨events, hevents, rfl⟩ := Option.map_eq_some_iff.mp hstep
      exact ⟨Service.datesChecked_preserved h.events hevents, h.tasks⟩
  | task label =>
      obtain ⟨tasks, htasks, rfl⟩ := Option.map_eq_some_iff.mp hstep
      exact ⟨h.events, Tasks.Service.datesChecked_preserved h.tasks htasks⟩

theorem datesChecked_initial (events : Database) (tasks : Tasks.Database) : (initial events tasks).DatesChecked where
  events _ _ _ _ hcall := by cases hcall
  tasks _ _ _ hcall := by cases hcall

theorem datesInOrder_step_iff {p q : Planner} {label : Label} (hchecked : p.DatesChecked) (hordered : p.DatesInOrder)
    (hstep : p.step label = some q) : q.DatesInOrder ↔ p.NoSlip label := by
  cases label with
  | event label =>
      obtain ⟨events, hevents, rfl⟩ := Option.map_eq_some_iff.mp hstep
      have hiff := Service.datesInOrder_step_iff hchecked.events hordered.events hevents
      exact ⟨fun h => hiff.mp h.events, fun h => ⟨hiff.mpr h, hordered.tasks⟩⟩
  | task label =>
      obtain ⟨tasks, htasks, rfl⟩ := Option.map_eq_some_iff.mp hstep
      have hiff := Tasks.Service.datesInOrder_step_iff hchecked.tasks hordered.tasks htasks
      exact ⟨fun h => hiff.mp h.tasks, fun h => ⟨hordered.events, hiff.mpr h⟩⟩

/-- All dates are in order throughout a run exactly if no write of it slips. -/
theorem dates_in_order_iff (events : Database) (tasks : Tasks.Database) (hordered : (initial events tasks).DatesInOrder)
    (labels : List Label) (p : Planner) (hrun : Runs.run step (initial events tasks) labels = some p) :
    Runs.Along step NoSlip (initial events tasks) labels ↔
      ∀ reached, reached <+: labels → ∀ q, Runs.run step (initial events tasks) reached = some q → q.DatesInOrder :=
  Runs.Along.iff_forall_prefix datesChecked_preserved (fun _ _ _ => datesInOrder_step_iff)
    (datesChecked_initial events tasks) hordered hrun

/-! Two PATCHes of one event, each in order with what it has read. -/

def emptyPlanner : Planner where
  events := .initial
    { calendarEvents := [], calendarAssignees := fun _ => [], projectMembers := fun _ _ => true,
      calendarCategories := fun _ => some "project" }
  tasks := .initial Tasks.Service.emptyBoard

def overtakingPatches : List Label :=
  (Calendar.Label.start 0 (.create "project" ⟨"event", "category", 10000000, 20000000, none, none, none⟩ "user") ::
    List.replicate 4 (.advance 0 "e") ++
  Calendar.Label.start 1 (.update "e" { startAt := some (some 18000000) } "project" "user") :: List.replicate 4 (.advance 1 "e") ++
  Calendar.Label.start 2 (.update "e" { endAt := some (some 12000000) } "project" "other") :: List.replicate 4 (.advance 2 "e") ++
  [Calendar.Label.advance 1 "e", Calendar.Label.advance 2 "e"]).map .event

theorem dates_out_of_order : ∃ p, Runs.run step emptyPlanner overtakingPatches = some p ∧ ¬p.DatesInOrder := by
  have hdates : (Runs.run step emptyPlanner overtakingPatches).map
      (fun p => p.events.db.calendarEvents.map fun row => (row.startAt, row.endAt)) = some [(18, 12)] := by decide +kernel
  obtain ⟨p, hrun, hdates⟩ := Option.map_eq_some_iff.mp hdates
  refine ⟨p, hrun, fun hordered => ?_⟩
  obtain ⟨row, hrow, hrowDates⟩ := List.mem_map.mp (hdates ▸ List.mem_singleton_self (18, 12))
  have hrowOrdered : row.startAt ≤ row.endAt := hordered.events row hrow
  obtain ⟨hstart, hend⟩ := Prod.mk.inj hrowDates
  rw [hstart, hend] at hrowOrdered
  exact absurd hrowOrdered (by decide)

/-- One create is enough when both dates lie in one millisecond. -/
example : (Runs.run step emptyPlanner
      ((Calendar.Label.start 0 (.create "project" ⟨"event", "category", 600000, 400000, none, none, none⟩ "user") ::
        List.replicate 4 (.advance 0 "e")).map .event)).map
    (fun p => p.events.db.calendarEvents.map fun row => (row.startAt, row.endAt)) = some [(1, 0)] := by decide +kernel

theorem dates_in_order_iff_of_overtakingPatches : ∃ p, Runs.run step emptyPlanner overtakingPatches = some p ∧
    (Runs.Along step NoSlip emptyPlanner overtakingPatches ↔
      ∀ reached, reached <+: overtakingPatches → ∀ q, Runs.run step emptyPlanner reached = some q → q.DatesInOrder) := by
  have hsome : (Runs.run step emptyPlanner overtakingPatches).isSome := by decide +kernel
  obtain ⟨p, hrun⟩ := Option.isSome_iff_exists.mp hsome
  refine ⟨p, hrun, dates_in_order_iff _ _ ⟨fun row hrow => ?_, fun row hrow => ?_⟩ overtakingPatches p hrun⟩
  · cases hrow
  · cases hrow

end Planner

end Transcendence.Calendar
