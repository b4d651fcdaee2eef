import Transcendence.Auth.TicketSteps

/-!
# Tickets are used once

Every ticket issued and not yet expired is either in the table as it was inserted or has been consumed
(`TicketInv.present`), and whoever has consumed it has left no open row behind (`TicketInv.consumed`).
The first gives that a live ticket is always consumable, the second that it is consumed once.
-/

namespace Transcendence.Auth.WebSocketTickets

/-- `uuid.NewString` and `randomToken` return nothing twice. -/
def Drawn (s : State) (label : Label) : Prop :=
  ∀ i r, label = .begin i (.issue r) → ∀ j r' phase, s.calls j = some ⟨.issue r', phase⟩ → r'.id ≠ r.id ∧ r'.ticket ≠ r.ticket

/-- A call has returned the ticket of the request; `statement` is what it executed. -/
def Issued (s : State) (r : IssueRequest) (statement : Statement) : Prop :=
  ∃ j, s.calls j = some ⟨.issue r, .ended (some statement) (.ok (.issued r.ticket))⟩

def Consumed (s : State) (ticket : String) : Prop :=
  ∃ i statement response, s.calls i = some ⟨.consume ticket, .ended statement (.ok response)⟩

/-- When the ticket of a statement expires. -/
def Statement.expiry (statement : Statement) : Nat := timestamp3 (statement.now + WebSocketTicketTTL)

/-- Who is admitted has presented an issued ticket that was open, and of a live family, in the snapshot
of his statement. -/
def Admitted (store : Store) (s : State) (ticket : String) (statement : Option Statement) (response : Response) : Prop :=
  ∃ st r issue user, statement = some st ∧ Issued s r issue ∧ r.ticket = ticket ∧ st.now < issue.expiry ∧
    (∃ row ∈ st.snapshot.tickets, row.ticketHash = store.hashToken ticket ∧ row.consumedAt = none) ∧
      st.snapshot.liveUser r.familyId r.userId st.now = some user ∧
        response = .admitted ⟨r.userId, r.familyId, user.username, user.avatarUrl⟩

/-- What holds of the tickets in a state and from it on, `Drawn` being assumed of the run that goes on. -/
structure SingleUse (store : Store) (s : State) : Prop where
  once : ∀ i j ticket statement statement' response response',
    s.calls i = some ⟨.consume ticket, .ended statement (.ok response)⟩ →
      s.calls j = some ⟨.consume ticket, .ended statement' (.ok response')⟩ → i = j
  admitted : ∀ i ticket statement response, s.calls i = some ⟨.consume ticket, .ended statement (.ok response)⟩ →
    Admitted store s ticket statement response
  issued : ∀ i r statement response, s.calls i = some ⟨.issue r, .ended statement (.ok response)⟩ →
    ∃ st user, statement = some st ∧ response = .issued r.ticket ∧
      st.snapshot.liveUser r.familyId r.userId st.now = some user
  /-- No call removes a ticket that has not expired. -/
  present : ∀ r issue, Issued s r issue → s.clock < issue.expiry → ¬Consumed s r.ticket →
    newTicket store r issue.now ∈ s.db.tickets
  /-- A statement that begins when the ticket is open and its family live consumes it, unless another
  has by then. -/
  consumable : ∀ r issue, Issued s r issue → s.clock < issue.expiry → ¬Consumed s r.ticket →
    ∀ user, s.db.liveUser r.familyId r.userId s.clock = some user →
      ∀ i now, s.calls i = some ⟨.consume r.ticket, .begun now⟩ → ∃ t, State.step store s (.snapshot i []) = some t ∧
        ∀ labels u, Runs.Along (State.step store) Drawn t labels → Runs.run (State.step store) t labels = some u →
          u.calls i = t.calls i → ¬Consumed u r.ticket → u.clock < issue.expiry →
            ∃ v statement, State.step store u (.write i) = some v ∧ v.calls i = some ⟨.consume r.ticket,
              .ended statement (.ok (.admitted ⟨r.userId, r.familyId, user.username, user.avatarUrl⟩))⟩

variable {store : Store} {s t u : State} {label : Label}

/-! ### Requests that are told apart -/

def Clash : Request → Request → Prop
  | .issue r, .issue r' => r.id = r'.id ∨ r.ticket = r'.ticket
  | _, _ => False

theorem clash_symm (a b : Request) (h : Clash a b) : Clash b a := by
  cases a with
  | issue r =>
      cases b with
      | issue r' => exact h.imp Eq.symm Eq.symm
      | consume => cases h
  | consume => cases h

theorem Steps.distinct (h : Steps store s t label) (hdrawn : Drawn s label) (hs : Calls.Distinct Clash s.calls) :
    Calls.Distinct Clash t.calls := by
  refine hs.step clash_symm h.moves fun id request phase hnew hfirst hlater j request' phase' hcall hclash => ?_
  obtain ⟨⟨i, hlabel⟩, -⟩ := hfirst
  cases request with
  | issue r =>
      cases request' with
      | issue r' =>
          obtain ⟨hid, hticket⟩ := hdrawn i r hlabel j r' phase' hcall
          exact hclash.elim hid hticket
      | consume => cases hclash
  | consume => cases request' <;> cases hclash

theorem Issued.eq (hs : Calls.Distinct Clash s.calls) {r r' : IssueRequest} {issue issue' : Statement} (h : Issued s r issue)
    (h' : Issued s r' issue') (heq : r.id = r'.id ∨ r.ticket = r'.ticket) : r = r' ∧ issue = issue' := by
  obtain ⟨i, hi⟩ := h
  obtain ⟨j, hj⟩ := h'
  obtain rfl := hs i j _ _ _ _ hi hj heq
  cases hi.symm.trans hj
  exact ⟨rfl, rfl⟩

theorem Issued.step {r : IssueRequest} {issue : Statement} (h : Issued s r issue) (hstep : Steps store s t label) :
    Issued t r issue := by
  obtain ⟨j, hcall⟩ := h
  exact ⟨j, hstep.of_hasEnded hcall rfl⟩

theorem Consumed.step {ticket : String} (h : Consumed s ticket) (hstep : Steps store s t label) : Consumed t ticket := by
  obtain ⟨i, statement, response, hcall⟩ := h
  exact ⟨i, statement, response, hstep.of_hasEnded hcall rfl⟩

/-! ### Rows -/

/-- The row is the one inserted for the request, open or consumed. -/
structure TicketOf (store : Store) (r : IssueRequest) (issue : Statement) (row : WebSocketTicketRow) : Prop where
  id : row.id = r.id
  ticketHash : row.ticketHash = store.hashToken r.ticket
  userId : row.userId = r.userId
  refreshFamilyId : row.refreshFamilyId = r.familyId
  issuedAt : row.issuedAt = timestamp3 issue.now
  expiresAt : row.expiresAt = issue.expiry

theorem ticketOf_newTicket (r : IssueRequest) (issue : Statement) : TicketOf store r issue (newTicket store r issue.now) :=
  ⟨rfl, rfl, rfl, rfl, rfl, rfl⟩

theorem TicketOf.consumed {r : IssueRequest} {issue : Statement} {row : WebSocketTicketRow} (h : TicketOf store r issue row)
    (consumedAt : Option Nat) : TicketOf store r issue { row with consumedAt } :=
  ⟨h.id, h.ticketHash, h.userId, h.refreshFamilyId, h.issuedAt, h.expiresAt⟩

def IsTicket (store : Store) (s : State) (row : WebSocketTicketRow) : Prop :=
  ∃ r issue, Issued s r issue ∧ TicketOf store r issue row

theorem IsTicket.step {row : WebSocketTicketRow} (h : IsTicket store s row) (hstep : Steps store s t label) :
    IsTicket store t row := by
  obtain ⟨r, issue, hissued, hrow⟩ := h
  exact ⟨r, issue, hissued.step hstep, hrow⟩

theorem mem_deleteTickets {db : Database} {ids : List String} {row : WebSocketTicketRow} :
    row ∈ (db.deleteTickets ids).tickets ↔ row ∈ db.tickets ∧ row.id ∉ ids := by
  rw [Database.deleteTickets, List.mem_filter, decide_eq_true_eq]

/-! ### The invariant -/

/-- A statement under way has not begun later than now, and what it has read are issued tickets. -/
structure Reads (store : Store) (s : State) (statement : Statement) : Prop where
  now_le : statement.now ≤ s.clock
  tickets : ∀ row ∈ statement.snapshot.tickets, IsTicket store s row
  expired : ∀ id ∈ statement.expired, ∃ row ∈ statement.snapshot.tickets, row.id = id ∧ row.expiresAt ≤ statement.now

theorem Reads.step {statement : Statement} (h : Reads store s statement) (hstep : Steps store s t label) :
    Reads store t statement where
  now_le := h.now_le.trans hstep.clock_le
  tickets row hrow := (h.tickets row hrow).step hstep
  expired := h.expired

structure TicketInv (store : Store) (s : State) : Prop where
  distinct : Calls.Distinct Clash s.calls
  begun : ∀ i request now, s.calls i = some ⟨request, .begun now⟩ → now ≤ s.clock
  reads : ∀ i request phase statement, s.calls i = some ⟨request, phase⟩ → phase.statement = some statement →
    Reads store s statement
  rows : ∀ row ∈ s.db.tickets, IsTicket store s row
  present : ∀ r issue, Issued s r issue → s.clock < issue.expiry → ¬Consumed s r.ticket →
    newTicket store r issue.now ∈ s.db.tickets
  consumed : ∀ ticket, Consumed s ticket → ∀ row ∈ s.db.tickets, row.ticketHash = store.hashToken ticket → row.consumedAt ≠ none
  admitted : ∀ i ticket statement response, s.calls i = some ⟨.consume ticket, .ended statement (.ok response)⟩ →
    Admitted store s ticket statement response
  issued : ∀ i r statement response, s.calls i = some ⟨.issue r, .ended statement (.ok response)⟩ →
    ∃ st user, statement = some st ∧ response = .issued r.ticket ∧
      st.snapshot.liveUser r.familyId r.userId st.now = some user
  once : ∀ i j ticket statement statement' response response',
    s.calls i = some ⟨.consume ticket, .ended statement (.ok response)⟩ →
      s.calls j = some ⟨.consume ticket, .ended statement' (.ok response')⟩ → i = j

theorem ticketInv_initial (store : Store) (users : List User) (families : List RefreshTokenFamilyRow) (clock : Nat) :
    TicketInv store (initial users families clock) where
  distinct _ _ _ _ _ _ := nofun
  begun _ _ _ := nofun
  reads _ _ _ _ := nofun
  rows _ hrow := absurd hrow List.not_mem_nil
  present r issue hissued := by
    obtain ⟨j, hcall⟩ := hissued
    cases hcall
  consumed ticket hconsumed := by
    obtain ⟨i, statement, response, hcall⟩ := hconsumed
    cases hcall
  admitted _ _ _ _ := nofun
  issued _ _ _ _ := nofun
  once _ _ _ _ _ _ _ := nofun

theorem isOpen_iff {ticketHash : String} {now : Nat} {row : WebSocketTicketRow} :
    Database.isOpen ticketHash now row ↔ row.ticketHash = ticketHash ∧ row.audience = WebSocketTicketAudience ∧
      row.consumedAt = none ∧ now < row.expiresAt := by
  simp [Database.isOpen, and_assoc]

theorem TicketInv.begun_step (h : TicketInv store s) (hstep : Steps store s t label) (i : Nat) (request : Request) (now : Nat)
    (hcall : t.calls i = some ⟨request, .begun now⟩) : now ≤ t.clock := by
  cases hstep.moves.origin hcall with
  | stays hcall => exact (h.begun i request now hcall).trans hstep.clock_le
  | begins _ hfirst =>
      obtain rfl := Phase.begun.inj hfirst.2
      exact hstep.clock_le
  | proceeds _ hchange =>
      cases hchange with
      | quiet hquiet => cases hquiet

theorem TicketInv.reads_step (h : TicketInv store s) (hstep : Steps store s t label) (i : Nat) (request : Request) (phase : Phase)
    (statement : Statement) (hcall : t.calls i = some ⟨request, phase⟩) (hstatement : phase.statement = some statement) :
    Reads store t statement := by
  cases hstep.moves.origin hcall with
  | stays hcall => exact (h.reads i request phase statement hcall hstatement).step hstep
  | begins _ hfirst =>
      rw [hfirst.2] at hstatement
      cases hstatement
  | proceeds hbefore hchange =>
      cases hchange with
      | quiet hquiet =>
          cases hquiet with
          | fails => exact (h.reads i request _ statement hbefore hstatement).step hstep
          | @snapshots r now expired hcleanup =>
              cases hstatement
              exact ⟨(h.begun i _ now hbefore).trans hstep.clock_le, fun row hrow => (h.rows row hrow).step hstep, hcleanup.2.1⟩
          | reads =>
              cases hstatement
              exact ⟨hstep.clock_le, fun row hrow => (h.rows row hrow).step hstep, fun _ hid => absurd hid List.not_mem_nil⟩
      | writes => exact (h.reads i request _ statement hbefore hstatement).step hstep

theorem TicketInv.rows_step (h : TicketInv store s) (hstep : Steps store s t label) (row : WebSocketTicketRow)
    (hrow : row ∈ t.db.tickets) : IsTicket store t row := by
  cases hstep with
  | quiet hmoves htickets hclock =>
      rw [htickets] at hrow
      exact (h.rows row hrow).step (.quiet hmoves htickets hclock)
  | @writes id request statement result hcall hwrites hcalls hclock =>
      have hsteps : Steps store s t label := .writes hcall hwrites hcalls hclock
      generalize t.db = db at hwrites hrow
      cases hwrites with
      | refuses => exact (h.rows row hrow).step hsteps
      | cleans => exact (h.rows row (mem_deleteTickets.mp hrow).1).step hsteps
      | @issues r user hlive =>
          rcases List.mem_append.mp hrow with hold | hnew
          · exact (h.rows row (mem_deleteTickets.mp hold).1).step hsteps
          · rw [List.mem_singleton.mp hnew]
            exact ⟨r, statement, ⟨id, by rw [hcalls, Function.update_self]⟩, ticketOf_newTicket r statement⟩
      | admits =>
          obtain ⟨old, hold, rfl⟩ := Table.mem_update.mp hrow
          obtain ⟨r, issue, hissued, hticket⟩ := (h.rows old hold).step hsteps
          refine ⟨r, issue, hissued, ?_⟩
          split
          · exact hticket.consumed _
          · exact hticket

/-- The rows of an issued ticket are those with its digest, or its id. -/
theorem TicketInv.ticketOf (hhash : Function.Injective store.hashToken) (h : TicketInv store s) {r : IssueRequest}
    {issue : Statement} (hissued : Issued s r issue) {row : WebSocketTicketRow} (hrow : IsTicket store s row)
    (heq : row.id = r.id ∨ row.ticketHash = store.hashToken r.ticket) : TicketOf store r issue row := by
  obtain ⟨r', issue', hissued', hticket⟩ := hrow
  have heq : r.id = r'.id ∨ r.ticket = r'.ticket :=
    heq.imp (fun hid => hid.symm.trans hticket.id) fun hdigest => hhash (hdigest.symm.trans hticket.ticketHash)
  obtain ⟨rfl, rfl⟩ := hissued.eq h.distinct hissued' heq
  exact hticket

/-- A cleanup picks expired rows only. -/
theorem TicketInv.notMem_expired (hhash : Function.Injective store.hashToken) (h : TicketInv store s) {r : IssueRequest}
    {issue statement : Statement} (hissued : Issued s r issue) (hunexpired : s.clock < issue.expiry)
    (hreads : Reads store s statement) : r.id ∉ statement.expired := by
  intro hmem
  obtain ⟨row, hrow, hid, hexpired⟩ := hreads.expired r.id hmem
  rw [(h.ticketOf hhash hissued (hreads.tickets row hrow) (.inl hid)).expiresAt] at hexpired
  exact absurd (hexpired.trans hreads.now_le) (not_le.mpr hunexpired)

theorem Quiet.ne_ok {request : Request} {before after : Phase} (h : Quiet s request before after) (statement : Option Statement)
    (response : Response) : after ≠ .ended statement (.ok response) := by
  cases h with
  | fails => nofun
  | snapshots => nofun
  | reads => nofun

/-- A call that has succeeded had before, or has just written. -/
theorem Steps.ok_origin (h : Steps store s t label) {id : Nat} {request : Request} {statement : Option Statement}
    {response : Response} (hcall : t.calls id = some ⟨request, .ended statement (.ok response)⟩) :
    s.calls id = some ⟨request, .ended statement (.ok response)⟩ ∨ ∃ st, statement = some st ∧
      s.calls id = some ⟨request, .running st⟩ ∧ Writes store s.db st request (.ok response) t.db := by
  cases h.moves.origin hcall with
  | stays hcall => exact .inl hcall
  | begins _ hfirst => cases hfirst.2
  | proceeds hbefore hchange =>
      cases hchange with
      | quiet hquiet => exact absurd rfl (hquiet.ne_ok _ _)
      | @writes st _ hwrites => exact .inr ⟨st, rfl, hbefore, hwrites⟩

theorem TicketInv.issued_before (hstep : Steps store s t label) {r : IssueRequest} {issue : Statement}
    (hissued : Issued t r issue) : Issued s r issue ∨ newTicket store r issue.now ∈ t.db.tickets := by
  obtain ⟨j, hcall⟩ := hissued
  rcases hstep.ok_origin hcall with hcall | ⟨st, hst, -, hwrites⟩
  · exact .inl ⟨j, hcall⟩
  · right
    cases hst
    generalize t.db = db at hwrites
    cases hwrites with
    | issues => exact List.mem_append_right _ (List.mem_singleton.mpr rfl)

theorem TicketInv.present_step (hhash : Function.Injective store.hashToken) (h : TicketInv store s)
    (hstep : Steps store s t label) (r : IssueRequest) (issue : Statement) (hissued : Issued t r issue)
    (hunexpired : t.clock < issue.expiry) (hunconsumed : ¬Consumed t r.ticket) :
    newTicket store r issue.now ∈ t.db.tickets := by
  rcases TicketInv.issued_before hstep hissued with hissued | hinserted
  · have hbefore := h.present r issue hissued (hstep.clock_le.trans_lt hunexpired) fun hconsumed =>
      hunconsumed (hconsumed.step hstep)
    cases hstep with
    | quiet _ htickets =>
        rw [htickets]
        exact hbefore
    | @writes id request statement result hcall hwrites hcalls hclock =>
        rw [hclock] at hunexpired
        have hkept : newTicket store r issue.now ∈ (s.db.deleteTickets statement.expired).tickets :=
          mem_deleteTickets.mpr ⟨hbefore,
            h.notMem_expired hhash hissued hunexpired (h.reads id request _ statement hcall rfl)⟩
        generalize hdb : t.db = db at hwrites ⊢
        cases hwrites with
        | refuses => exact hbefore
        | cleans => exact hkept
        | issues => exact List.mem_append_left _ hkept
        | @admits ticket row user current hrow hopen hlive hcurrent hid hstill =>
            refine Table.mem_update.mpr ⟨_, hbefore, if_neg fun hsame => ?_⟩
            have hsame : current.id = r.id := hid.trans (of_decide_eq_true hsame).symm
            have hdigest := (h.ticketOf hhash hissued (h.rows current hcurrent) (.inl hsame)).ticketHash
            rw [(isOpen_iff.mp hstill).1] at hdigest
            obtain rfl := hhash hdigest
            exact hunconsumed ⟨id, _, _, by rw [hcalls, Function.update_self]⟩
  · exact hinserted

/-- A ticket that has been consumed is not inserted again. -/
theorem TicketInv.not_reissued (h : TicketInv store s) {ticket : String} (hconsumed : Consumed s ticket) {id : Nat}
    {r : IssueRequest} {statement : Statement} (hcall : s.calls id = some ⟨.issue r, .running statement⟩) : r.ticket ≠ ticket := by
  intro heq
  obtain ⟨i, st, response, hconsumer⟩ := hconsumed
  obtain ⟨-, r', issue, -, -, ⟨j, hissuer⟩, hticket, -⟩ := h.admitted i ticket st response hconsumer
  obtain rfl := h.distinct id j _ _ _ _ hcall hissuer (.inr (heq.trans hticket.symm))
  cases hcall.symm.trans hissuer

/-- The update reaches every row with the digest. -/
theorem TicketInv.consumeRow_eq (hhash : Function.Injective store.hashToken) (h : TicketInv store s) {row current old : WebSocketTicketRow}
    {ticket : String} (hcurrent : current ∈ s.db.tickets) (hid : current.id = row.id)
    (hdigest : current.ticketHash = store.hashToken ticket) (hold : old ∈ s.db.tickets)
    (holdDigest : old.ticketHash = store.hashToken ticket) : old.id = row.id := by
  obtain ⟨r, issue, hissued, hticket⟩ := h.rows current hcurrent
  have hsame := h.ticketOf hhash hissued (h.rows old hold)
    (.inr (holdDigest.trans (hdigest.symm.trans hticket.ticketHash)))
  exact hsame.id.trans (hticket.id.symm.trans hid)

theorem TicketInv.consumed_step (hhash : Function.Injective store.hashToken) (h : TicketInv store s)
    (hstep : Steps store s t label) (ticket : String) (hconsumed : Consumed t ticket) (row : WebSocketTicketRow)
    (hrow : row ∈ t.db.tickets) (hdigest : row.ticketHash = store.hashToken ticket) : row.consumedAt ≠ none := by
  obtain ⟨i, statement, response, hcall⟩ := hconsumed
  rcases hstep.ok_origin hcall with hcall | ⟨st, -, -, hwrites⟩
  · have hbefore := h.consumed ticket ⟨i, statement, response, hcall⟩
    cases hstep with
    | quiet _ htickets =>
        rw [htickets] at hrow
        exact hbefore row hrow hdigest
    | @writes id request statement' result hwriter hwrites =>
        generalize t.db = db at hwrites hrow
        cases hwrites with
        | refuses => exact hbefore row hrow hdigest
        | cleans => exact hbefore row (mem_deleteTickets.mp hrow).1 hdigest
        | issues =>
            rcases List.mem_append.mp hrow with hold | hnew
            · exact hbefore row (mem_deleteTickets.mp hold).1 hdigest
            · rw [List.mem_singleton.mp hnew] at hdigest
              exact absurd (hhash hdigest) (h.not_reissued ⟨i, statement, response, hcall⟩ hwriter)
        | admits =>
            obtain ⟨old, hold, rfl⟩ := Table.mem_update.mp hrow
            split
            · exact Option.some_ne_none _
            · next hother =>
                rw [if_neg hother] at hdigest
                exact hbefore old hold hdigest
  · generalize t.db = db at hwrites hrow
    cases hwrites with
    | admits _ _ _ hcurrent hid hstill =>
        obtain ⟨old, hold, rfl⟩ := Table.mem_update.mp hrow
        have holdDigest : old.ticketHash = store.hashToken ticket := by
          split at hdigest <;> exact hdigest
        rw [if_pos (decide_eq_true (h.consumeRow_eq hhash hcurrent hid (isOpen_iff.mp hstill).1 hold holdDigest))]
        exact Option.some_ne_none _

theorem Admitted.step {ticket : String} {statement : Option Statement} {response : Response}
    (h : Admitted store s ticket statement response) (hstep : Steps store s t label) :
    Admitted store t ticket statement response := by
  obtain ⟨st, r, issue, user, hstatement, hissued, h⟩ := h
  exact ⟨st, r, issue, user, hstatement, hissued.step hstep, h⟩

theorem TicketInv.admitted_step (hhash : Function.Injective store.hashToken) (h : TicketInv store s)
    (hstep : Steps store s t label) (i : Nat) (ticket : String) (statement : Option Statement) (response : Response)
    (hcall : t.calls i = some ⟨.consume ticket, .ended statement (.ok response)⟩) : Admitted store t ticket statement response := by
  rcases hstep.ok_origin hcall with hcall | ⟨st, rfl, hrunning, hwrites⟩
  · exact (h.admitted i ticket statement response hcall).step hstep
  · have hreads := h.reads i _ _ st hrunning rfl
    refine Admitted.step (s := s) ?_ hstep
    generalize t.db = db at hwrites
    cases hwrites with
    | @admits ticket row user current hrow hopen hlive =>
        obtain ⟨r, issue, hissued, hticket⟩ := hreads.tickets row hrow
        obtain ⟨hdigest, -, hunconsumed, hunexpired⟩ := isOpen_iff.mp hopen
        rw [hticket.expiresAt] at hunexpired
        rw [hticket.userId, hticket.refreshFamilyId] at hlive ⊢
        exact ⟨st, r, issue, user, rfl, hissued, hhash (hticket.ticketHash.symm.trans hdigest), hunexpired,
          ⟨row, hrow, hdigest, hunconsumed⟩, hlive, rfl⟩

theorem TicketInv.issued_step (h : TicketInv store s) (hstep : Steps store s t label) (i : Nat) (r : IssueRequest)
    (statement : Option Statement) (response : Response) (hcall : t.calls i = some ⟨.issue r, .ended statement (.ok response)⟩) :
    ∃ st user, statement = some st ∧ response = .issued r.ticket ∧
      st.snapshot.liveUser r.familyId r.userId st.now = some user := by
  rcases hstep.ok_origin hcall with hcall | ⟨st, rfl, -, hwrites⟩
  · exact h.issued i r statement response hcall
  · generalize t.db = db at hwrites
    cases hwrites with
    | @issues _ user hlive => exact ⟨st, user, rfl, rfl, hlive⟩

/-- Where a ticket has been consumed, nothing is open that could be consumed again. -/
theorem TicketInv.not_again (h : TicketInv store s) {ticket : String} (hconsumed : Consumed s ticket) {st : Statement}
    {response : Response} {db : Database} (hwrites : Writes store s.db st (.consume ticket) (.ok response) db) : False := by
  cases hwrites with
  | admits _ _ _ hcurrent _ hstill =>
      obtain ⟨hdigest, -, hunconsumed, -⟩ := isOpen_iff.mp hstill
      exact h.consumed ticket hconsumed _ hcurrent hdigest hunconsumed

theorem TicketInv.once_step (h : TicketInv store s) (hstep : Steps store s t label) (i j : Nat) (ticket : String)
    (statement statement' : Option Statement) (response response' : Response)
    (hi : t.calls i = some ⟨.consume ticket, .ended statement (.ok response)⟩)
    (hj : t.calls j = some ⟨.consume ticket, .ended statement' (.ok response')⟩) : i = j := by
  rcases hstep.ok_origin hi with hi | ⟨st, -, hirunning, hwrites⟩
  · rcases hstep.ok_origin hj with hj | ⟨st', -, -, hwrites'⟩
    · exact h.once i j ticket _ _ _ _ hi hj
    · exact (h.not_again ⟨i, _, _, hi⟩ hwrites').elim
  · rcases hstep.ok_origin hj with hj | ⟨st', -, hjrunning, hwrites'⟩
    · exact (h.not_again ⟨j, _, _, hj⟩ hwrites).elim
    · exact hstep.moves.eq_of_ne (by rw [hi, hirunning]; nofun) (by rw [hj, hjrunning]; nofun)

theorem ticketInv_step (hhash : Function.Injective store.hashToken) (h : TicketInv store s) (hdrawn : Drawn s label)
    (hstep : Steps store s t label) : TicketInv store t where
  distinct := hstep.distinct hdrawn h.distinct
  begun := h.begun_step hstep
  reads := h.reads_step hstep
  rows := h.rows_step hstep
  present := h.present_step hhash hstep
  consumed := h.consumed_step hhash hstep
  admitted := h.admitted_step hhash hstep
  issued := h.issued_step hstep
  once := h.once_step hstep

/-! ### A live ticket is consumable -/

theorem find?_isOpen {rows : List WebSocketTicketRow} {row : WebSocketTicketRow} {ticketHash : String} {now : Nat}
    (hrow : row ∈ rows) (hopen : Database.isOpen ticketHash now row) :
    ∃ found, rows.find? (Database.isOpen ticketHash now) = some found ∧ found ∈ rows ∧ Database.isOpen ticketHash now found := by
  obtain ⟨found, hfound⟩ := Option.isSome_iff_exists.mp (List.find?_isSome.mpr ⟨row, hrow, hopen⟩)
  exact ⟨found, hfound, List.mem_of_find?_eq_some hfound, List.find?_some hfound⟩

theorem isOpen_newTicket {r : IssueRequest} {issue : Statement} {now : Nat} (hunexpired : now < issue.expiry) :
    Database.isOpen (store.hashToken r.ticket) now (newTicket store r issue.now) :=
  isOpen_iff.mpr ⟨rfl, rfl, rfl, hunexpired⟩

/-- What the snapshot of a statement holds that begins while the ticket is open. -/
theorem TicketInv.findTicket (hhash : Function.Injective store.hashToken) (h : TicketInv store s) {r : IssueRequest}
    {issue : Statement} (hissued : Issued s r issue) (hunexpired : s.clock < issue.expiry) (hunconsumed : ¬Consumed s r.ticket)
    {user : User} (hlive : s.db.liveUser r.familyId r.userId s.clock = some user) :
    ∃ row, s.db.findTicket (store.hashToken r.ticket) s.clock = some (row, user) ∧ TicketOf store r issue row := by
  obtain ⟨row, hfound, hrow, hopen⟩ := find?_isOpen (h.present r issue hissued hunexpired hunconsumed)
    (isOpen_newTicket hunexpired)
  have hticket := h.ticketOf hhash hissued (h.rows row hrow) (.inr (isOpen_iff.mp hopen).1)
  refine ⟨row, ?_, hticket⟩
  rw [Database.findTicket, hfound, Option.bind_some, hticket.refreshFamilyId, hticket.userId, hlive, Option.map_some]

theorem consume_ok {db : Database} {r : IssueRequest} {issue statement : Statement} {row : WebSocketTicketRow} {user : User}
    (hfound : statement.snapshot.findTicket (store.hashToken r.ticket) statement.now = some (row, user))
    (hticket : TicketOf store r issue row) (hissue : issue.now ≤ statement.now) (hunexpired : statement.now < issue.expiry)
    (hpresent : newTicket store r issue.now ∈ db.tickets) :
    (consumeWebSocketTicket store db r.ticket statement).1 =
      .ok (.admitted ⟨r.userId, r.familyId, user.username, user.avatarUrl⟩) := by
  have hany : db.tickets.any (fun current => current.id = row.id &&
      Database.isOpen (store.hashToken r.ticket) statement.now current) := by
    refine List.any_eq_true.mpr ⟨_, hpresent, ?_⟩
    rw [Bool.and_eq_true, decide_eq_true_eq]
    exact ⟨hticket.id.symm, isOpen_newTicket hunexpired⟩
  have hissuedAt : ¬timestamp3 statement.now < row.issuedAt := by
    rw [hticket.issuedAt, not_lt]
    exact timestamp3_mono hissue
  simp only [consumeWebSocketTicket, hfound, hany, Bool.not_true, Bool.false_eq_true, if_false, if_neg hissuedAt,
    hticket.userId, hticket.refreshFamilyId]

/-! ### Over whole runs -/

theorem ticketInv_run (hhash : Function.Injective store.hashToken) (h : TicketInv store s) {labels : List Label}
    (hdrawn : Runs.Along (State.step store) Drawn s labels) (hrun : Runs.run (State.step store) s labels = some u) :
    TicketInv store u :=
  hdrawn.run (fun _ _ _ h hdrawn hstep => ticketInv_step hhash h hdrawn (steps_of_step hstep)) h hrun

theorem issued_run {r : IssueRequest} {issue : Statement} (hissued : Issued s r issue) {labels : List Label}
    (hrun : Runs.run (State.step store) s labels = some u) : Issued u r issue :=
  Runs.Preserved.run (P := fun u => Issued u r issue) (fun _ _ _ h hstep => h.step (steps_of_step hstep)) hissued hrun

theorem TicketInv.consumable (hhash : Function.Injective store.hashToken) (h : TicketInv store s) {r : IssueRequest}
    {issue : Statement} (hissued : Issued s r issue) (hunexpired : s.clock < issue.expiry) (hunconsumed : ¬Consumed s r.ticket)
    {user : User} (hlive : s.db.liveUser r.familyId r.userId s.clock = some user) {i now : Nat}
    (hcall : s.calls i = some ⟨.consume r.ticket, .begun now⟩) :
    ∃ t, State.step store s (.snapshot i []) = some t ∧
      ∀ labels u, Runs.Along (State.step store) Drawn t labels → Runs.run (State.step store) t labels = some u →
        u.calls i = t.calls i → ¬Consumed u r.ticket → u.clock < issue.expiry →
          ∃ v statement, State.step store u (.write i) = some v ∧ v.calls i = some ⟨.consume r.ticket,
            .ended statement (.ok (.admitted ⟨r.userId, r.familyId, user.username, user.avatarUrl⟩))⟩ := by
  let statement : Statement := ⟨s.clock, s.db, []⟩
  let t : State := s.setPhase i (.consume r.ticket) (.running statement)
  have hstep : State.step store s (.snapshot i []) = some t := by
    simp only [State.step, State.snapshot, hcall, Option.bind_some, if_pos]
    rfl
  refine ⟨t, hstep, fun labels u hdrawn hrun hstays hunconsumed' hunexpired' => ?_⟩
  have hsteps := steps_of_step hstep
  have hdrawnSnapshot : Drawn s (.snapshot i []) := by
    intro i' r' hlabel
    cases hlabel
  have ht : TicketInv store t := ticketInv_step hhash h hdrawnSnapshot hsteps
  have hu := ticketInv_run hhash ht hdrawn hrun
  have hpresent := hu.present r issue (issued_run (hissued.step hsteps) hrun) hunexpired' hunconsumed'
  obtain ⟨row, hfound, hticket⟩ := h.findTicket hhash hissued hunexpired hunconsumed hlive
  have hissue : issue.now ≤ s.clock := by
    obtain ⟨j, hissuer⟩ := hissued
    exact (h.reads j _ _ issue hissuer rfl).now_le
  have hcall' : u.calls i = some ⟨.consume r.ticket, .running statement⟩ := hstays.trans (Function.update_self ..)
  have hok : (consumeWebSocketTicket store u.db r.ticket statement).1 = _ :=
    consume_ok hfound hticket hissue hunexpired hpresent
  refine ⟨_, some statement, by rw [State.step, State.write, hcall']; rfl, (Function.update_self ..).trans ?_⟩
  rw [Request.execute, hok]

/-- In every run of any number of calls, from any users and families. -/
theorem single_use (store : Store) (hhash : Function.Injective store.hashToken) (users : List User)
    (families : List RefreshTokenFamilyRow) (clock : Nat) (labels : List Label) (s : State)
    (hdrawn : Runs.Along (State.step store) Drawn (initial users families clock) labels)
    (hrun : Runs.run (State.step store) (initial users families clock) labels = some s) : SingleUse store s := by
  have h := ticketInv_run hhash (ticketInv_initial store users families clock) hdrawn hrun
  exact ⟨h.once, h.admitted, h.issued, h.present, fun r issue hissued hunexpired hunconsumed user hlive i now hcall =>
    h.consumable hhash hissued hunexpired hunconsumed hlive hcall⟩

/-! One ticket, and two presenters whose statements begin while it is open. -/

def plainTicketStore : Store := ⟨id, none⟩

def ticketUser : User := ⟨"u", "u@example.org", true, "holder", none, none, none, none, .ACTIVE, .USER⟩

def ticketFamily : RefreshTokenFamilyRow :=
  ⟨"f", "u", .LOCAL, 1, "", 0, 0, 1000 * second, 1000 * second, none, none, none, none, 0, 0⟩

def presentedTwice : List Label :=
  [.begin 0 (.issue ⟨"u", "f", "ticket", "id"⟩), .snapshot 0 [], .write 0, .begin 1 (.consume "ticket"), .begin 2 (.consume "ticket"),
    .snapshot 1 [], .snapshot 2 [], .write 2, .write 1]

def Phase.succeeded : Phase → Bool
  | .ended _ (.ok _) => true
  | _ => false

theorem single_use_of_presentedTwice :
    ∃ s, Runs.run (State.step plainTicketStore) (initial [ticketUser] [ticketFamily] second) presentedTwice = some s ∧
      (s.calls 1).map (·.phase.succeeded) = some false ∧ (s.calls 2).map (·.phase.succeeded) = some true ∧
        SingleUse plainTicketStore s := by
  have hends : (Runs.run (State.step plainTicketStore) (initial [ticketUser] [ticketFamily] second) presentedTwice).map
      (fun s => ((s.calls 1).map (·.phase.succeeded), (s.calls 2).map (·.phase.succeeded))) = some (some false, some true) := by
    decide +kernel
  obtain ⟨s, hrun, hends⟩ := Option.map_eq_some_iff.mp hends
  obtain ⟨hfirst, hsecond⟩ := Prod.mk.inj hends
  refine ⟨s, hrun, hfirst, hsecond,
    single_use plainTicketStore Function.injective_id [ticketUser] [ticketFamily] second presentedTwice s ?_ hrun⟩
  refine ⟨fun _ _ _ _ _ _ hnone => absurd hnone nofun, fun t _ => Runs.Along.of_forall (fun label hlabel s i r hbegin => ?_) t⟩
  subst hbegin
  simp at hlabel

end Transcendence.Auth.WebSocketTickets
