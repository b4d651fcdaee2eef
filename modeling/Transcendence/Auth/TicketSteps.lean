import Transcendence.Auth.WebSocketTickets

/-!
# What a step does to the tickets

A statement that writes does one of four things to the table (`Writes`); every other step leaves the
tickets as they are (`Steps.quiet`). The invariants over runs are read off these.
-/

namespace Transcendence.Auth.WebSocketTickets

/-- The statement that a call has begun. -/
def Phase.statement : Phase → Option Statement
  | .begun _ => none
  | .running statement => some statement
  | .ended statement _ => statement

/-- What the write of a statement answers, and the database it leaves. -/
inductive Writes (store : Store) (db : Database) (statement : Statement) :
    Request → Except Error Response → Database → Prop where
  | refuses {request error} : Writes store db statement request (.error error) db
  | cleans {r} : Writes store db statement (.issue r) (.error .notFound) (db.deleteTickets statement.expired)
  | issues {r user} (hlive : statement.snapshot.liveUser r.familyId r.userId statement.now = some user) :
      Writes store db statement (.issue r) (.ok (.issued r.ticket))
        { db.deleteTickets statement.expired with
          tickets := (db.deleteTickets statement.expired).tickets ++ [newTicket store r statement.now] }
  | admits {ticket row user current} (hrow : row ∈ statement.snapshot.tickets)
      (hopen : Database.isOpen (store.hashToken ticket) statement.now row)
      (hlive : statement.snapshot.liveUser row.refreshFamilyId row.userId statement.now = some user)
      (hcurrent : current ∈ db.tickets) (hid : current.id = row.id)
      (hstill : Database.isOpen (store.hashToken ticket) statement.now current) :
      Writes store db statement (.consume ticket)
        (.ok (.admitted ⟨row.userId, row.refreshFamilyId, user.username, user.avatarUrl⟩))
        (db.consumeRow row.id statement.now)

theorem insertTicket_eq {db db' : Database} {row : WebSocketTicketRow} (h : db.insertTicket row = some db') :
    db' = { db with tickets := db.tickets ++ [row] } := by
  rw [Database.insertTicket, Option.ite_none_left_eq_some] at h
  exact (Option.some.inj h.2).symm

theorem writes_issue (store : Store) (db : Database) (r : IssueRequest) (statement : Statement) :
    Writes store db statement (.issue r) (issueWebSocketTicket store db r statement).1
      (issueWebSocketTicket store db r statement).2 := by
  cases hlive : statement.snapshot.liveUser r.familyId r.userId statement.now with
  | none =>
      rw [issueWebSocketTicket, hlive]
      exact .cleans
  | some user =>
      rw [issueWebSocketTicket, hlive]
      cases hinsert : (db.deleteTickets statement.expired).insertTicket (newTicket store r statement.now) with
      | none => exact .refuses
      | some db' =>
          rw [insertTicket_eq hinsert]
          exact .issues hlive

theorem writes_consume (store : Store) (db : Database) (ticket : String) (statement : Statement) :
    Writes store db statement (.consume ticket) (consumeWebSocketTicket store db ticket statement).1
      (consumeWebSocketTicket store db ticket statement).2 := by
  cases hfound : statement.snapshot.findTicket (store.hashToken ticket) statement.now with
  | none =>
      rw [consumeWebSocketTicket, hfound]
      exact .refuses
  | some found =>
      obtain ⟨row, user⟩ := found
      simp only [consumeWebSocketTicket, hfound]
      split
      · exact .refuses
      · next hany =>
          split
          · exact .refuses
          · rw [Bool.not_eq_true', Bool.not_eq_false, List.any_eq_true] at hany
            obtain ⟨current, hcurrent, hmatch⟩ := hany
            rw [Bool.and_eq_true, decide_eq_true_eq] at hmatch
            rw [Database.findTicket, Option.bind_eq_some_iff] at hfound
            obtain ⟨row', hrow, hfound⟩ := hfound
            obtain ⟨user', hlive, heq⟩ := Option.map_eq_some_iff.mp hfound
            obtain ⟨rfl, rfl⟩ := Prod.mk.inj heq
            exact .admits (List.mem_of_find?_eq_some hrow) (List.find?_some hrow) hlive hcurrent hmatch.1 hmatch.2

theorem writes_execute (store : Store) (db : Database) (statement : Statement) (request : Request) :
    Writes store db statement request (request.execute store db statement).1 (request.execute store db statement).2 := by
  cases request with
  | issue r => exact writes_issue store db r statement
  | consume ticket => exact writes_consume store db ticket statement

/-- A step of a call that writes nothing. -/
inductive Quiet (s : State) : Request → Phase → Phase → Prop where
  | fails {request before} (hrunning : ¬before.hasEnded) :
      Quiet s request before (.ended before.statement (.error .failed))
  | snapshots {r now expired} (hcleanup : s.db.IsCleanup now expired) :
      Quiet s (.issue r) (.begun now) (.running ⟨now, s.db, expired⟩)
  | reads {ticket now} : Quiet s (.consume ticket) (.begun now) (.running ⟨s.clock, s.db, []⟩)

/-- A new call begins with the instant its caller reads. -/
def First (s : State) (label : Label) (request : Request) (phase : Phase) : Prop :=
  (∃ id, label = .begin id request) ∧ phase = .begun s.clock

inductive Steps (store : Store) (s t : State) (label : Label) : Prop where
  | quiet (hmoves : Calls.Moves (First s label) (Quiet s) s.calls t.calls) (htickets : t.db.tickets = s.db.tickets)
      (hclock : s.clock ≤ t.clock)
  | writes {id request statement result} (hcall : s.calls id = some ⟨request, .running statement⟩)
      (hwrites : Writes store s.db statement request result t.db)
      (hcalls : t.calls = Function.update s.calls id (some ⟨request, .ended (some statement) result⟩))
      (hclock : t.clock = s.clock)

variable {store : Store} {s t : State} {label : Label}

theorem Steps.of_begin {id : Nat} {request : Request} (hstep : s.begin id request = some t) :
    Steps store s t (.begin id request) := by
  obtain ⟨hnew, hstep⟩ := Option.ite_none_left_eq_some.mp hstep
  cases hstep
  rw [Bool.not_eq_true, Option.isSome_eq_false_iff, Option.isNone_iff_eq_none] at hnew
  exact .quiet (.begins hnew ⟨⟨id, rfl⟩, rfl⟩ rfl) rfl le_rfl

theorem Steps.of_snapshot {id : Nat} {expired : List String} (hstep : s.snapshot id expired = some t) :
    Steps store s t label := by
  rw [State.snapshot, Option.bind_eq_some_iff] at hstep
  obtain ⟨⟨request, phase⟩, hcall, hstep⟩ := hstep
  split at hstep
  · next r now hrequest hphase =>
      obtain ⟨hcleanup, hstep⟩ := Option.ite_none_right_eq_some.mp hstep
      cases hstep
      cases hrequest
      cases hphase
      exact .quiet (.proceeds hcall (.snapshots hcleanup) rfl) rfl le_rfl
  · next ticket now hrequest hphase =>
      obtain ⟨-, hstep⟩ := Option.ite_none_right_eq_some.mp hstep
      cases hstep
      cases hrequest
      cases hphase
      exact .quiet (.proceeds hcall .reads rfl) rfl le_rfl
  · cases hstep

theorem Steps.of_write {id : Nat} (hstep : s.write store id = some t) : Steps store s t label := by
  rw [State.write, Option.bind_eq_some_iff] at hstep
  obtain ⟨⟨request, phase⟩, hcall, hstep⟩ := hstep
  split at hstep
  · next statement hphase =>
      cases hphase
      cases hstep
      exact .writes hcall (writes_execute store s.db statement request) rfl rfl
  · cases hstep

theorem Steps.of_fail {id : Nat} (hstep : s.fail id = some t) : Steps store s t label := by
  rw [State.fail, Option.bind_eq_some_iff] at hstep
  obtain ⟨⟨request, phase⟩, hcall, hstep⟩ := hstep
  cases phase with
  | begun now =>
      cases hstep
      exact .quiet (.proceeds hcall (.fails nofun) rfl) rfl le_rfl
  | running statement =>
      cases hstep
      exact .quiet (.proceeds hcall (.fails nofun) rfl) rfl le_rfl
  | ended => cases hstep

theorem steps_of_step (hstep : State.step store s label = some t) : Steps store s t label := by
  cases label with
  | begin id request => exact .of_begin hstep
  | snapshot id expired => exact .of_snapshot hstep
  | write id => exact .of_write hstep
  | fail id => exact .of_fail hstep
  | login row =>
      obtain ⟨db, hdb, rfl⟩ := Option.map_eq_some_iff.mp hstep
      obtain ⟨-, hdb⟩ := Option.ite_none_left_eq_some.mp hdb
      rw [← Option.some.inj hdb]
      exact .quiet (.rests rfl) rfl le_rfl
  | activity familyId now idleExpiresAt =>
      cases hstep
      exact .quiet (.rests rfl) rfl le_rfl
  | revoke familyId reason =>
      cases hstep
      exact .quiet (.rests rfl) rfl le_rfl
  | revokeAll userId reason =>
      cases hstep
      exact .quiet (.rests rfl) rfl le_rfl
  | tick elapsed =>
      cases hstep
      exact .quiet (.rests rfl) rfl (Nat.le_add_right ..)

theorem Steps.clock_le (h : Steps store s t label) : s.clock ≤ t.clock := by
  cases h with
  | quiet _ _ hclock => exact hclock
  | writes _ _ _ hclock => exact hclock.ge

/-- What a step does to a call, whether it writes or not. -/
inductive Change (store : Store) (s t : State) : Request → Phase → Phase → Prop where
  | quiet {request before after} (h : Quiet s request before after) : Change store s t request before after
  | writes {request statement result} (h : Writes store s.db statement request result t.db) :
      Change store s t request (.running statement) (.ended (some statement) result)

theorem Steps.moves (h : Steps store s t label) : Calls.Moves (First s label) (Change store s t) s.calls t.calls := by
  cases h with
  | quiet hmoves =>
      cases hmoves with
      | rests heq => exact .rests heq
      | begins hnew hfirst heq => exact .begins hnew hfirst heq
      | proceeds hcall hchange heq => exact .proceeds hcall (.quiet hchange) heq
  | writes hcall hwrites hcalls => exact .proceeds hcall (.writes hwrites) hcalls

theorem Steps.of_hasEnded (h : Steps store s t label) {id : Nat} {request : Request} {phase : Phase}
    (hcall : s.calls id = some ⟨request, phase⟩) (hended : phase.hasEnded) : t.calls id = some ⟨request, phase⟩ := by
  refine h.moves.of_ended hcall fun after hchange => ?_
  cases hchange with
  | quiet hquiet =>
      cases hquiet with
      | fails hrunning => exact hrunning hended
      | snapshots => cases hended
      | reads => cases hended
  | writes => cases hended

end Transcendence.Auth.WebSocketTickets
