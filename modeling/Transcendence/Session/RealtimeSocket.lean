import Transcendence.Base.Runs
import Transcendence.Base.Timers

/-!
# The realtime socket of a page

The module `lib/realtimeSocket.ts`, which keeps one socket for the whole page. Between two steps the
event loop may do anything: a session changes, a response arrives, the socket has an event, a timer
fires, or a promise is taken on by its `catch` or `finally`. Armed timers fire at any time and in any
order.

Of socket.io, a socket has the connection it opens or has, with the query it was opened with.
`disconnect` closes it, and it is only on a socket that is connected that this is an event.

`Ticket.generation` is not in the program: it is the generation of the attempt that the ticket was
issued to.
-/

namespace Transcendence.Session.RealtimeSocket

def connectionAttemptTimeoutMs : Nat := 10000

def proactiveSocketRotationMs : Nat := 14 * 60000 + 50000

def maximumReconnectDelayMs : Nat := 30000

structure Ticket where
  value : String
  generation : Nat
  deriving DecidableEq, Repr

/-! ### Issuing a ticket -/

/-- The fields of the answer, as far as they have the type that is asked of them. -/
structure TicketPayload where
  ticket : Option String
  expiresIn : Option Nat

/-- The request fails, or it is answered; a body that is no record has no payload. -/
inductive Response where
  | failed
  | answered (ok : Bool) (payload : Option TicketPayload)

def ticketPattern (ticket : String) : Bool :=
  ticket.toList.length = 43 ∧ ticket.toList.all fun c => c.isAlphanum || c = '_' || c = '-'

/-- Nothing where the promise is rejected. -/
def issueTicket : Response → Option String
  | .answered true (some ⟨some ticket, some 60⟩) => if ticketPattern ticket then some ticket else none
  | _ => none

/-! ### The socket and the state of the module -/

inductive Connection where
  | closed
  | opening (query : Option Ticket)
  | connected (query : Option Ticket)
  deriving DecidableEq, Repr

/-- `query` is `socket.io.opts.query`. -/
structure Socket where
  connection : Connection
  query : Option Ticket
  deriving DecidableEq, Repr

def Connection.isConnected : Connection → Bool
  | .connected _ => true
  | _ => false

def Socket.connected (socket : Socket) : Bool := socket.connection.isConnected

/-- A connection that is being opened keeps the query it was opened with. -/
def Socket.connect (socket : Socket) : Socket :=
  match socket.connection with
  | .closed => { socket with connection := .opening socket.query }
  | _ => socket

def Socket.close (socket : Socket) : Socket := { socket with connection := .closed }

def Socket.clearQuery (socket : Socket) : Socket := { socket with query := none }

/-- How far the promise of a request has come. -/
inductive Phase where
  | issuingTicket
  /-- In `waitForConnection`, with the timer it has set. -/
  | waiting (timeout : Nat)
  /-- Before the `catch`. -/
  | rejected
  /-- Before the `finally`. -/
  | settled
  deriving DecidableEq, Repr

structure Request where
  attemptGeneration : Nat
  phase : Phase
  deriving DecidableEq, Repr

inductive Callback where
  | reconnect
  | rotate
  /-- The timeout of a request. -/
  | giveUp (request : Nat)
  deriving DecidableEq, Repr

structure Timer where
  callback : Callback
  delay : Nat
  deriving DecidableEq, Repr

/-- `listeners` are the requests that wait for the next "connect" or "connect_error". -/
structure State where
  socket : Option Socket
  connectInFlight : Option Nat
  reconnectTimer : Option Nat
  lifetimeTimer : Option Nat
  desired : Bool
  generation : Nat
  reconnectAttempts : Nat
  requests : Nat → Option Request
  nextRequest : Nat
  listeners : List Nat
  timers : Timers Timer

namespace State

def initial : State where
  socket := none
  connectInFlight := none
  reconnectTimer := none
  lifetimeTimer := none
  desired := false
  generation := 0
  reconnectAttempts := 0
  requests _ := none
  nextRequest := 0
  listeners := []
  timers := .initial

def connected (s : State) : Bool := s.socket.any (·.connected)

def setRequest (s : State) (id : Nat) (request : Request) : State :=
  { s with requests := Function.update s.requests id (some request) }

def clearReconnectTimer (s : State) : State :=
  match s.reconnectTimer with
  | some id => { s with timers := s.timers.clearTimeout id, reconnectTimer := none }
  | none => s

def clearLifetimeTimer (s : State) : State :=
  match s.lifetimeTimer with
  | some id => { s with timers := s.timers.clearTimeout id, lifetimeTimer := none }
  | none => s

def reconnectDelay (s : State) : Nat := min maximumReconnectDelayMs (1000 * Nat.pow 2 (min s.reconnectAttempts 5))

def scheduleReconnect (s : State) : State :=
  if s.desired = false ∨ s.reconnectTimer ≠ none ∨ s.connected then s
  else
    { s with
      reconnectAttempts := s.reconnectAttempts + 1
      timers := s.timers.setTimeout ⟨.reconnect, s.reconnectDelay⟩
      reconnectTimer := some s.timers.next }

/-- The request is issued at once; what comes of it are later steps. -/
def ensureConnected (s : State) : State :=
  if s.desired = false ∨ s.socket = none ∨ s.connected then s
  else if s.connectInFlight ≠ none then s
  else
    let s := s.clearReconnectTimer
    { s.setRequest s.nextRequest ⟨s.generation, .issuingTicket⟩ with
      nextRequest := s.nextRequest + 1
      connectInFlight := some s.nextRequest }

/-! ### Events of the socket -/

/-- The connection is closed, and the page hears of it. -/
def onDisconnect (s : State) : State :=
  { s with socket := s.socket.map Socket.close }.clearLifetimeTimer.scheduleReconnect

/-- `socket.disconnect()`. -/
def disconnectSocket (s : State) : State :=
  if s.connected then s.onDisconnect else { s with socket := s.socket.map Socket.close }

/-- The `cleanup` of a request that waits, with what it settles to. -/
def settle (phase : Phase) (s : State) (id : Nat) : State :=
  match s.requests id with
  | some ⟨attemptGeneration, .waiting timeout⟩ =>
      { s.setRequest id ⟨attemptGeneration, phase⟩ with
        timers := s.timers.clearTimeout timeout
        listeners := s.listeners.filter (· ≠ id) }
  | _ => s

def settleAll (s : State) (phase : Phase) : State := s.listeners.foldl (settle phase) s

def onConnect (s : State) (query : Option Ticket) : State :=
  let s := { s with socket := some ⟨.connected query, none⟩, reconnectAttempts := 0 }.clearLifetimeTimer
  { s with
    timers := s.timers.setTimeout ⟨.rotate, proactiveSocketRotationMs⟩
    lifetimeTimer := some s.timers.next }.settleAll .settled

def onConnectError (s : State) : State := s.scheduleReconnect.settleAll .rejected

/-! ### What the page calls -/

def getRealtimeSocket (s : State) : State :=
  { s with socket := some (s.socket.getD ⟨.closed, none⟩), desired := true }.ensureConnected

def resetRealtimeSocket (s : State) : State :=
  let s := { s with generation := s.generation + 1, desired := true }.clearReconnectTimer.clearLifetimeTimer
  s.disconnectSocket.ensureConnected

def disconnectRealtimeSocket (s : State) : State :=
  let s := { s with generation := s.generation + 1, desired := false }.clearReconnectTimer.clearLifetimeTimer
  { s with socket := s.socket.map Socket.clearQuery }.disconnectSocket

/-! ### A request goes on -/

def waitForConnection (s : State) (id attemptGeneration : Nat) (socket : Socket) : State :=
  { s.setRequest id ⟨attemptGeneration, .waiting s.timers.next⟩ with
    timers := s.timers.setTimeout ⟨.giveUp id, connectionAttemptTimeoutMs⟩
    listeners := s.listeners ++ [id]
    socket := some socket.connect }

def onTicket (s : State) (id attemptGeneration : Nat) (response : Response) : State :=
  match issueTicket response with
  | none => s.setRequest id ⟨attemptGeneration, .rejected⟩
  | some ticket =>
      match s.socket with
      | some socket =>
          if s.desired ∧ s.generation = attemptGeneration then
            s.waitForConnection id attemptGeneration { socket with query := some ⟨ticket, attemptGeneration⟩ }
          else s.setRequest id ⟨attemptGeneration, .settled⟩
      | none => s.setRequest id ⟨attemptGeneration, .settled⟩

def onRejected (s : State) (id attemptGeneration : Nat) : State :=
  s.scheduleReconnect.setRequest id ⟨attemptGeneration, .settled⟩

/-- Only the request that is in flight makes room for another. -/
def forget (s : State) (id : Nat) : State :=
  { s with
    requests := Function.update s.requests id none
    connectInFlight := if s.connectInFlight = some id then none else s.connectInFlight }

def onSettled (s : State) (id : Nat) : State :=
  let s := s.forget id
  if s.desired ∧ s.socket ≠ none ∧ s.connected = false ∧ s.reconnectTimer = none then s.scheduleReconnect else s

/-! ### Timers -/

def onReconnectTimer (s : State) : State := { s with reconnectTimer := none }.ensureConnected

def onLifetimeTimer (s : State) : State :=
  if s.desired = false ∨ s.connected = false then s
  else { s with generation := s.generation + 1 }.disconnectSocket.ensureConnected

def onTimeout (s : State) (request : Nat) : State := (s.settle .rejected request).disconnectSocket

def fire (s : State) : Callback → State
  | .reconnect => s.onReconnectTimer
  | .rotate => s.onLifetimeTimer
  | .giveUp request => s.onTimeout request

end State

/-! ### Steps -/

inductive Label where
  | getRealtimeSocket
  | resetRealtimeSocket
  | disconnectRealtimeSocket
  /-- The ticket of a request arrives, or does not. -/
  | ticket (id : Nat) (response : Response)
  | catchError (id : Nat)
  | finallySettled (id : Nat)
  /-- The server accepts the connection. -/
  | connect
  /-- The connection is refused; it may be closed by that or not. -/
  | connectError (closed : Bool)
  /-- The connection is lost, or the server closes it. -/
  | disconnect
  | fire (timer : Nat)

def State.step (s : State) : Label → Option State
  | .getRealtimeSocket => some s.getRealtimeSocket
  | .resetRealtimeSocket => some s.resetRealtimeSocket
  | .disconnectRealtimeSocket => some s.disconnectRealtimeSocket
  | .ticket id response =>
      match s.requests id with
      | some ⟨attemptGeneration, .issuingTicket⟩ => some (s.onTicket id attemptGeneration response)
      | _ => none
  | .catchError id =>
      match s.requests id with
      | some ⟨attemptGeneration, .rejected⟩ => some (s.onRejected id attemptGeneration)
      | _ => none
  | .finallySettled id =>
      match s.requests id with
      | some ⟨_, .settled⟩ => some (s.onSettled id)
      | _ => none
  | .connect =>
      match s.socket with
      | some ⟨.opening query, _⟩ => some (s.onConnect query)
      | _ => none
  | .connectError closed =>
      match s.socket with
      | some ⟨.opening query, opts⟩ =>
          some { s with socket := some ⟨if closed then .closed else .opening query, opts⟩ }.onConnectError
      | _ => none
  | .disconnect =>
      match s.socket with
      | some _ => some s.onDisconnect
      | none => none
  | .fire timer =>
      match s.timers.armed timer with
      | some ⟨callback, _⟩ => some ({ s with timers := s.timers.clearTimeout timer }.fire callback)
      | none => none

end Transcendence.Session.RealtimeSocket
