import Transcendence.Auth.Store
import Transcendence.Base.Calls
import Transcendence.Base.Runs

/-!
# WebSocket tickets

`IssueWebSocketTicket` and `ConsumeWebSocketTicket` of `store.go`, each one statement that commits by
itself, beside the statements that open, use and revoke refresh families. A statement reads the
snapshot it began with; what it writes and its commit are one step, since nobody sees or changes the
rows in between. The update of `ConsumeWebSocketTicket` judges the committed version of the row once
more when it writes.

`CURRENT_TIMESTAMP` of a statement is the instant of its snapshot. An instant that a caller reads from
the service's clock is that of the call, and may be passed when the snapshot is taken. Which expired
rows a cleanup picks among equally old ones is part of the label.
-/

namespace Transcendence.Auth

def WebSocketTicketAudience : String := "transcendence-ws"

def WebSocketTicketTTL : Nat := 60 * second

namespace WebSocketTickets

/-! ### Calls -/

/-- `ticket` and `id` are what `randomToken` and `uuid` return. -/
structure IssueRequest where
  userId : String
  familyId : String
  ticket : String
  id : String
  deriving DecidableEq, Repr

inductive Request where
  | issue (request : IssueRequest)
  | consume (ticket : String)
  deriving DecidableEq, Repr

structure WebSocketAdmission where
  userId : String
  refreshFamilyId : String
  username : String
  avatarUrl : Option String
  deriving DecidableEq, Repr

inductive Response where
  | issued (ticket : String)
  | admitted (admission : WebSocketAdmission)
  deriving DecidableEq, Repr

inductive Error where
  | notFound
  | failed
  deriving DecidableEq, Repr

/-- A statement under way: the instant it compares with, its snapshot, and the expired rows its
cleanup has picked there. -/
structure Statement where
  now : Nat
  snapshot : Database
  expired : List String
  deriving DecidableEq

inductive Phase where
  | begun (now : Nat)
  | running (statement : Statement)
  | ended (statement : Option Statement) (result : Except Error Response)
  deriving DecidableEq

def Phase.hasEnded : Phase → Bool
  | .ended _ _ => true
  | _ => false

abbrev Call := Calls.Call Request Phase

structure State where
  db : Database
  clock : Nat
  calls : Nat → Option Call

/-- Any users and families, and no ticket. -/
def initial (users : List User) (families : List RefreshTokenFamilyRow) (clock : Nat) : State where
  db := ⟨users, families, [], [], []⟩
  clock := clock
  calls _ := none

inductive Label where
  | begin (id : Nat) (request : Request)
  | snapshot (id : Nat) (expired : List String)
  | write (id : Nat)
  | fail (id : Nat)
  | login (row : RefreshTokenFamilyRow)
  | activity (familyId : String) (now idleExpiresAt : Nat)
  | revoke (familyId reason : String)
  | revokeAll (userId reason : String)
  | tick (elapsed : Nat)
  deriving DecidableEq

end WebSocketTickets

/-! ### Statements -/

namespace Database

open WebSocketTickets

/-- The user whose live family both statements join. -/
def liveUser (db : Database) (familyId userId : String) (now : Nat) : Option User :=
  (db.findFamily familyId).bind fun family =>
    (db.findUser family.userId).filter fun user =>
      family.userId = userId && family.revokedAt.isNone && now < family.idleExpiresAt &&
        now < family.absoluteExpiresAt && user.status = .ACTIVE

/-- A choice of what `ORDER BY "expiresAt" LIMIT 100` picks among the expired rows. -/
def IsCleanup (db : Database) (now : Nat) (picked : List String) : Prop :=
  picked.Nodup ∧ (∀ id ∈ picked, ∃ row ∈ db.tickets, row.id = id ∧ row.expiresAt ≤ now) ∧
    picked.length = min 100 (db.tickets.countP (·.expiresAt ≤ now)) ∧
      ∀ row ∈ db.tickets, row.id ∈ picked → ∀ other ∈ db.tickets, other.expiresAt < row.expiresAt → other.id ∈ picked

instance (db : Database) (now : Nat) (picked : List String) : Decidable (db.IsCleanup now picked) :=
  inferInstanceAs (Decidable (_ ∧ _ ∧ _ ∧ _))

def deleteTickets (db : Database) (ids : List String) : Database :=
  { db with tickets := db.tickets.filter fun row => row.id ∉ ids }

def insertTicket (db : Database) (row : WebSocketTicketRow) : Option Database :=
  if row.expiresAt ≤ row.issuedAt ∨ row.id ∈ db.tickets.map (·.id) ∨ row.ticketHash ∈ db.tickets.map (·.ticketHash) ∨
      ¬db.families.any (fun family => family.id = row.refreshFamilyId && family.userId = row.userId) then none
  else some { db with tickets := db.tickets ++ [row] }

/-- The ticket's own conditions of the update. -/
def isOpen (ticketHash : String) (now : Nat) (row : WebSocketTicketRow) : Bool :=
  row.ticketHash = ticketHash && row.audience = WebSocketTicketAudience && row.consumedAt.isNone && now < row.expiresAt

def consumeRow (db : Database) (id : String) (now : Nat) : Database :=
  { db with tickets := Table.update (·.id = id) ({ · with consumedAt := some (timestamp3 now) }) db.tickets }

/-- The ticket and the user that the update finds in its snapshot. -/
def findTicket (db : Database) (ticketHash : String) (now : Nat) : Option (WebSocketTicketRow × User) :=
  (db.tickets.find? (isOpen ticketHash now)).bind fun row =>
    (db.liveUser row.refreshFamilyId row.userId now).map fun user => (row, user)

end Database

namespace WebSocketTickets

def newTicket (store : Store) (r : IssueRequest) (now : Nat) : WebSocketTicketRow where
  id := r.id
  ticketHash := store.hashToken r.ticket
  userId := r.userId
  refreshFamilyId := r.familyId
  audience := WebSocketTicketAudience
  issuedAt := timestamp3 now
  expiresAt := timestamp3 (now + WebSocketTicketTTL)
  consumedAt := none

/-- The cleanup takes place whether or not there is a family to insert a ticket for. -/
def issueWebSocketTicket (store : Store) (db : Database) (r : IssueRequest) (statement : Statement) :
    Except Error Response × Database :=
  match statement.snapshot.liveUser r.familyId r.userId statement.now with
  | none => (.error .notFound, db.deleteTickets statement.expired)
  | some _ =>
      ((db.deleteTickets statement.expired).insertTicket (newTicket store r statement.now)).elim
        (.error .failed, db) fun db => (.ok (.issued r.ticket), db)

def consumeWebSocketTicket (store : Store) (db : Database) (ticket : String) (statement : Statement) :
    Except Error Response × Database :=
  match statement.snapshot.findTicket (store.hashToken ticket) statement.now with
  | none => (.error .notFound, db)
  | some (row, user) =>
      -- the row may have been consumed or deleted since
      if !db.tickets.any (fun current => current.id = row.id && Database.isOpen (store.hashToken ticket) statement.now current)
      then (.error .notFound, db)
      -- the constraint `consumedAt >= issuedAt`
      else if timestamp3 statement.now < row.issuedAt then (.error .failed, db)
      else (.ok (.admitted ⟨row.userId, row.refreshFamilyId, user.username, user.avatarUrl⟩),
        db.consumeRow row.id statement.now)

def Request.execute (store : Store) (db : Database) (statement : Statement) : Request → Except Error Response × Database
  | .issue r => issueWebSocketTicket store db r statement
  | .consume ticket => consumeWebSocketTicket store db ticket statement

namespace State

def setPhase (s : State) (id : Nat) (request : Request) (phase : Phase) : State :=
  { s with calls := Function.update s.calls id (some ⟨request, phase⟩) }

def begin (s : State) (id : Nat) (request : Request) : Option State :=
  if (s.calls id).isSome then none else some (s.setPhase id request (.begun s.clock))

def snapshot (s : State) (id : Nat) (expired : List String) : Option State :=
  (s.calls id).bind fun call =>
    match call.request, call.phase with
    | .issue r, .begun now =>
        if s.db.IsCleanup now expired then some (s.setPhase id (.issue r) (.running ⟨now, s.db, expired⟩)) else none
    | .consume ticket, .begun _ =>
        if expired = [] then some (s.setPhase id (.consume ticket) (.running ⟨s.clock, s.db, []⟩)) else none
    | _, _ => none

def write (store : Store) (s : State) (id : Nat) : Option State :=
  (s.calls id).bind fun call =>
    match call.phase with
    | .running statement =>
        let outcome := call.request.execute store s.db statement
        some { s.setPhase id call.request (.ended (some statement) outcome.1) with db := outcome.2 }
    | _ => none

/-- A statement fails, and nothing of it is kept. -/
def fail (s : State) (id : Nat) : Option State :=
  (s.calls id).bind fun call =>
    match call.phase with
    | .begun _ => some (s.setPhase id call.request (.ended none (.error .failed)))
    | .running statement => some (s.setPhase id call.request (.ended (some statement) (.error .failed)))
    | .ended _ _ => none

def step (store : Store) (s : State) : Label → Option State
  | .begin id request => s.begin id request
  | .snapshot id expired => s.snapshot id expired
  | .write id => s.write store id
  | .fail id => s.fail id
  | .login row => (s.db.insertFamily row).map fun db => { s with db }
  | .activity familyId now idleExpiresAt => some { s with db := s.db.updateActivity familyId now idleExpiresAt }
  | .revoke familyId reason => some { s with db := s.db.revokeFamilies (·.id = familyId) reason s.clock }
  | .revokeAll userId reason => some { s with db := s.db.revokeFamilies (·.userId = userId) reason s.clock }
  | .tick elapsed => some { s with clock := s.clock + elapsed }

end State

end WebSocketTickets

end Transcendence.Auth
