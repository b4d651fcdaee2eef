import Mathlib.Logic.Function.Basic
import Transcendence.Base.Runs

/-!
# Transactions at read committed

A transaction is the tree of the statements its client may send. Alone it runs from a database to a
result and a database. Beside others, every statement is a step of its own: it sees what is committed
when it starts together with the writes of its own transaction. A locking `SELECT` takes its
snapshot first and then waits for its row, which it reads again once it holds the lock; locks are
kept to the end of the transaction.

The last two sections are about transactions that begin by locking the same row. Each of them has
the database to itself once it holds the lock, so it leaves what it would leave alone, and from what
each of them does alone follows what all of them do in any interleaving (`Guarded.step`, `EndsWith.step`).
-/

/-- A transaction over databases `δ`, locks `κ` and results `ρ`. A statement writes, and how it goes
on depends on what it saw; a lock names the row its snapshot shows, and goes on from the snapshot
and the database it finds under the lock. -/
inductive Transaction (δ κ ρ : Type) where
  | commit (result : ρ)
  | rollback (result : ρ)
  | statement (write : δ → δ) (next : δ → Transaction δ κ ρ)
  | lock (key : δ → Option κ) (next : δ → δ → Transaction δ κ ρ)

namespace Transaction

variable {γ δ ι κ ρ : Type}

def select (next : δ → Transaction δ κ ρ) : Transaction δ κ ρ := .statement id next

/-- A write that the database may refuse. -/
def execute (write : δ → Option δ) (refused next : Transaction δ κ ρ) : Transaction δ κ ρ :=
  .statement (fun db => (write db).getD db) fun db => if (write db).isSome then next else refused

/-- The result of a transaction that runs alone from `db`, where it sees `view`, and the database it
leaves. -/
def exec : Transaction δ κ ρ → δ → δ → ρ × δ
  | .commit result, _, view => (result, view)
  | .rollback result, db, _ => (result, db)
  | .statement write next, db, view => (next view).exec db (write view)
  | .lock _ next, db, view => (next view view).exec db view

section Exec

variable (db view : δ)

@[simp] theorem exec_statement (write : δ → δ) (next : δ → Transaction δ κ ρ) :
    (statement write next).exec db view = (next view).exec db (write view) := rfl

@[simp] theorem exec_select (next : δ → Transaction δ κ ρ) :
    (select next).exec db view = (next view).exec db view := rfl

@[simp] theorem exec_lock (key : δ → Option κ) (next : δ → δ → Transaction δ κ ρ) :
    (lock key next).exec db view = (next view view).exec db view := rfl

theorem exec_execute_of_some {write : δ → Option δ} {refused next : Transaction δ κ ρ} {written : δ}
    (h : write view = some written) :
    (execute write refused next).exec db view = next.exec db written := by
  simp only [execute, exec_statement, h, Option.isSome_some, if_true, Option.getD_some]

theorem exec_execute_of_none {write : δ → Option δ} {refused next : Transaction δ κ ρ}
    (h : write view = none) : (execute write refused next).exec db view = refused.exec db view := by
  simp only [execute, exec_statement, h, Option.isSome_none, Bool.false_eq_true, if_false,
    Option.getD_none]

end Exec

/-- Asks for no lock. -/
def LockFree : Transaction δ κ ρ → Prop
  | .commit _ => True
  | .rollback _ => True
  | .statement _ next => ∀ view, (next view).LockFree
  | .lock _ _ => False

@[simp] theorem lockFree_commit (result : ρ) :
    (commit result : Transaction δ κ ρ).LockFree := trivial

@[simp] theorem lockFree_rollback (result : ρ) :
    (rollback result : Transaction δ κ ρ).LockFree := trivial

@[simp] theorem lockFree_statement {write : δ → δ} {next : δ → Transaction δ κ ρ} :
    (statement write next).LockFree ↔ ∀ view, (next view).LockFree := Iff.rfl

@[simp] theorem lockFree_select {next : δ → Transaction δ κ ρ} :
    (select next).LockFree ↔ ∀ view, (next view).LockFree := Iff.rfl

theorem lockFree_execute {write : δ → Option δ} {refused next : Transaction δ κ ρ}
    (hrefused : refused.LockFree) (hnext : next.LockFree) :
    (execute write refused next).LockFree := by
  intro view
  show (if (write view).isSome then next else refused).LockFree
  split
  · exact hnext
  · exact hrefused

/-! ### Interleavings -/

/-- How far a client has come: between two statements, waiting for a row, or done. -/
inductive Progress (δ κ ρ : Type) where
  | running (rest : Transaction δ κ ρ) (writes : List (δ → δ))
  | waiting (key : κ) (snapshot : δ) (next : δ → δ → Transaction δ κ ρ) (writes : List (δ → δ))
  | ended (result : ρ)

structure Client (γ δ κ ρ : Type) where
  request : γ
  progress : Progress δ κ ρ

/-- The committed database, the holder of each lock, and the clients. -/
structure Server (γ δ ι κ ρ : Type) where
  db : δ
  held : κ → Option ι
  clients : ι → Option (Client γ δ κ ρ)

inductive Label (γ ι : Type) where
  | begin (id : ι) (request : γ)
  | advance (id : ι)
  deriving DecidableEq, Repr

/-- What a transaction sees: the committed database under its own writes. -/
def view (db : δ) (writes : List (δ → δ)) : δ := writes.foldl (fun db write => write db) db

@[simp] theorem view_nil (db : δ) : view db [] = db := rfl

theorem view_concat (db : δ) (writes : List (δ → δ)) (write : δ → δ) :
    view db (writes ++ [write]) = write (view db writes) := by
  rw [view, List.foldl_append]
  rfl

namespace Server

variable [DecidableEq ι]

def initial (db : δ) : Server γ δ ι κ ρ := ⟨db, fun _ => none, fun _ => none⟩

def setProgress (s : Server γ δ ι κ ρ) (id : ι) (request : γ) (progress : Progress δ κ ρ) :
    Server γ δ ι κ ρ :=
  { s with clients := Function.update s.clients id (some ⟨request, progress⟩) }

def acquire [DecidableEq κ] (s : Server γ δ ι κ ρ) (id : ι) (key : κ) : Server γ δ ι κ ρ :=
  { s with held := Function.update s.held key (some id) }

/-- Ends a transaction, which gives its locks back. -/
def finish (s : Server γ δ ι κ ρ) (id : ι) (request : γ) (result : ρ) (db : δ) : Server γ δ ι κ ρ :=
  { db := db
    held := fun key => if s.held key = some id then none else s.held key
    clients := Function.update s.clients id (some ⟨request, .ended result⟩) }

def free (s : Server γ δ ι κ ρ) (id : ι) (key : κ) : Prop :=
  s.held key = none ∨ s.held key = some id

instance (s : Server γ δ ι κ ρ) (id : ι) (key : κ) : Decidable (s.free id key) := instDecidableOr

/-- The next statement of one client. -/
def advance [DecidableEq κ] (s : Server γ δ ι κ ρ) (id : ι) : Option (Server γ δ ι κ ρ) :=
  match s.clients id with
  | none => none
  | some ⟨request, .running (.commit result) writes⟩ =>
      some (s.finish id request result (view s.db writes))
  | some ⟨request, .running (.rollback result) _⟩ => some (s.finish id request result s.db)
  | some ⟨request, .running (.statement write next) writes⟩ =>
      some (s.setProgress id request (.running (next (view s.db writes)) (writes ++ [write])))
  | some ⟨request, .running (.lock key next) writes⟩ =>
      let snapshot := view s.db writes
      some (s.setProgress id request (match key snapshot with
        | some row => .waiting row snapshot next writes
        | none => .running (next snapshot snapshot) writes))
  | some ⟨request, .waiting key snapshot next writes⟩ =>
      if s.free id key then
        some ((s.acquire id key).setProgress id request
          (.running (next snapshot (view s.db writes)) writes))
      else none
  | some ⟨_, .ended _⟩ => none

def step [DecidableEq κ] (program : γ → Transaction δ κ ρ) (s : Server γ δ ι κ ρ) :
    Label γ ι → Option (Server γ δ ι κ ρ)
  | .begin id request =>
      if (s.clients id).isNone then some (s.setProgress id request (.running (program request) []))
      else none
  | .advance id => s.advance id

/-- The request and the snapshot of a client that gets the lock it waits for with its next step. -/
def acquiring (s : Server γ δ ι κ ρ) : Label γ ι → Option (γ × δ)
  | .begin _ _ => none
  | .advance id =>
      match s.clients id with
      | some ⟨request, .waiting key snapshot _ _⟩ =>
          if s.free id key then some (request, snapshot) else none
      | _ => none

variable {s t : Server γ δ ι κ ρ} {id other : ι} {request : γ}

theorem acquiring_of_waiting {key : κ} {snapshot : δ} {next : δ → δ → Transaction δ κ ρ}
    {writes : List (δ → δ)} (hclient : s.clients id = some ⟨request, .waiting key snapshot next writes⟩)
    (hfree : s.free id key) : s.acquiring (.advance id) = some (request, snapshot) := by
  simp only [acquiring, hclient, if_pos hfree]

theorem exists_waiting_of_acquiring {label : Label γ ι} {snapshot : δ}
    (h : s.acquiring label = some (request, snapshot)) : ∃ id key next writes,
      label = .advance id ∧ s.clients id = some ⟨request, .waiting key snapshot next writes⟩ ∧
        s.free id key := by
  cases label with
  | begin => cases h
  | advance id =>
      rw [acquiring] at h
      split at h
      · rename_i request' key snapshot' next writes hclient
        split at h
        · rename_i hfree
          cases h
          exact ⟨id, key, next, writes, rfl, hclient, hfree⟩
        · cases h
      · cases h

def result (s : Server γ δ ι κ ρ) (id : ι) : Option ρ :=
  match s.clients id with
  | some ⟨_, .ended result⟩ => some result
  | _ => none

omit [DecidableEq ι] in
theorem result_of_ended {client : Client γ δ κ ρ} {result : ρ} (hclient : s.clients id = some client)
    (hended : client.progress = .ended result) : s.result id = some result := by
  obtain ⟨request, progress⟩ := client
  obtain rfl : progress = .ended result := hended
  rw [Server.result, hclient]

/-- Only a client that waits or has ended may have no next step. -/
theorem advance_isSome_of_running [DecidableEq κ] {rest : Transaction δ κ ρ} {writes : List (δ → δ)}
    (hclient : s.clients id = some ⟨request, .running rest writes⟩) : (s.advance id).isSome := by
  cases rest <;> simp only [advance, hclient, Option.isSome_some]

@[simp] theorem setProgress_clients_self (progress : Progress δ κ ρ) :
    (s.setProgress id request progress).clients id = some ⟨request, progress⟩ :=
  Function.update_self ..

theorem setProgress_clients_of_ne (progress : Progress δ κ ρ) (hne : other ≠ id) :
    (s.setProgress id request progress).clients other = s.clients other :=
  Function.update_of_ne hne ..

@[simp] theorem finish_clients_self (result : ρ) (db : δ) :
    (s.finish id request result db).clients id = some ⟨request, .ended result⟩ :=
  Function.update_self ..

theorem finish_clients_of_ne (result : ρ) (db : δ) (hne : other ≠ id) :
    (s.finish id request result db).clients other = s.clients other :=
  Function.update_of_ne hne ..

theorem finish_held_ne (result : ρ) (db : δ) (key : κ) :
    (s.finish id request result db).held key ≠ some id := by
  show (if s.held key = some id then none else s.held key) ≠ some id
  split
  · exact nofun
  · assumption

/-- A client that asks for no more locks takes one more of its statements, or ends as it would end
alone. -/
theorem advance_of_lockFree [DecidableEq κ] {rest : Transaction δ κ ρ} {writes : List (δ → δ)}
    (hclient : s.clients id = some ⟨request, .running rest writes⟩) (hfree : rest.LockFree)
    (hstep : s.advance id = some t) :
    (∃ rest' writes', rest'.LockFree ∧
      rest'.exec s.db (view s.db writes') = rest.exec s.db (view s.db writes) ∧
      t = s.setProgress id request (.running rest' writes')) ∨
    ∃ result db, rest.exec s.db (view s.db writes) = (result, db) ∧
      t = s.finish id request result db := by
  rw [advance, hclient] at hstep
  cases rest with
  | commit result => exact Or.inr ⟨result, view s.db writes, rfl, (Option.some.inj hstep).symm⟩
  | rollback result => exact Or.inr ⟨result, s.db, rfl, (Option.some.inj hstep).symm⟩
  | statement write next =>
      refine Or.inl ⟨next (view s.db writes), writes ++ [write], hfree _, ?_,
        (Option.some.inj hstep).symm⟩
      rw [view_concat, exec_statement]
  | lock key next => exact hfree.elim

end Server

/-! ### Critical sections -/

/-- The request begins by locking `key`, as every database that satisfies the invariant shows it,
and asks for no lock after that. -/
structure CriticalSection (program : γ → Transaction δ κ ρ) (key : κ) (I : δ → Prop)
    (request : γ) : Prop where
  begins : ∃ row next, program request = .lock row next ∧ (∀ db, I db → row db = some key) ∧
    ∀ snapshot db, (next snapshot db).LockFree

/-- What the request leaves when it finds `db` under its lock, after its snapshot was taken. -/
def outcome (program : γ → Transaction δ κ ρ) (request : γ) (snapshot db : δ) : ρ × δ :=
  match program request with
  | .lock _ next => (next snapshot db).exec db db
  | other => other.exec db db

variable (program : γ → Transaction δ κ ρ) (key : κ) (I : δ → Prop) (L : δ → δ → Prop)
  (R : γ → ρ → δ → Prop)

/-- The database satisfies the invariant again, the result is right for it, every earlier result
still is, and what was an earlier database still is one. -/
structure Establishes (request : γ) (db : δ) (outcome : ρ × δ) : Prop where
  invariant : I outcome.2
  result : R request outcome.1 outcome.2
  earlier : ∀ request result, R request result db → R request result outcome.2
  later : ∀ snapshot, L snapshot db → L snapshot outcome.2

/-- Where a client may stand: before its lock, waiting for it, holding it with the rest of its
statements still to come, or done. -/
def Placed (s : Server γ δ ι κ ρ) (id : ι) (request : γ) : Progress δ κ ρ → Prop
  | .running rest writes =>
      s.held key ≠ some id ∧ rest = program request ∧ writes = [] ∨
        s.held key = some id ∧ rest.LockFree ∧
          Establishes I L R request s.db (rest.exec s.db (view s.db writes))
  | .waiting row snapshot next writes =>
      s.held key ≠ some id ∧ row = key ∧ writes = [] ∧ I snapshot ∧ L snapshot s.db ∧
        ∃ rows, program request = .lock rows next
  | .ended result => s.held key ≠ some id ∧ R request result s.db

structure Guarded (s : Server γ δ ι κ ρ) : Prop where
  db : I s.db
  holder : ∀ id, s.held key = some id → (s.clients id).isSome
  clients : ∀ id client, s.clients id = some client →
    CriticalSection program key I client.request ∧
      Placed program key I L R s id client.request client.progress

/-- The request begins a critical section, and a client that gets its lock does its work. -/
structure Admits [DecidableEq ι] (s : Server γ δ ι κ ρ) (label : Label γ ι) : Prop where
  begins : ∀ id request, label = .begin id request → CriticalSection program key I request
  acquires : ∀ request snapshot, s.acquiring label = some (request, snapshot) → I snapshot →
    I s.db → L snapshot s.db →
      Establishes I L R request s.db (outcome program request snapshot s.db)

variable {program key I L R} {s t : Server γ δ ι κ ρ} {id : ι} {request : γ}

theorem guarded_initial {db : δ} (h : I db) :
    Guarded program key I L R (Server.initial db : Server γ δ ι κ ρ) where
  db := h
  holder _ hheld := by cases hheld
  clients _ _ hclient := by cases hclient

/-- A step of one client that leaves the database alone leaves the others where they are. -/
theorem Placed.of_same {progress : Progress δ κ ρ} (h : Placed program key I L R s id request progress)
    (hdb : t.db = s.db) (hheld : t.held key = some id ↔ s.held key = some id) :
    Placed program key I L R t id request progress := by
  cases progress with
  | running rest writes => simpa only [Placed, ne_eq, hheld, hdb] using h
  | waiting row snapshot next writes => simpa only [Placed, ne_eq, hheld, hdb] using h
  | ended result => simpa only [Placed, ne_eq, hheld, hdb] using h

/-- A client that does not hold the lock stays where it is while another one commits. -/
theorem Placed.of_commit {other : ι} {request' : γ} {outcome : ρ × δ} {progress : Progress δ κ ρ}
    (h : Placed program key I L R s other request' progress)
    (hestablishes : Establishes I L R request s.db outcome) (hdb : t.db = outcome.2)
    (hbefore : s.held key ≠ some other) (hafter : t.held key ≠ some other) :
    Placed program key I L R t other request' progress := by
  cases progress with
  | running rest writes =>
      rcases h with ⟨-, hrest, hwrites⟩ | ⟨hheld, -⟩
      · exact Or.inl ⟨hafter, hrest, hwrites⟩
      · exact absurd hheld hbefore
  | waiting row snapshot next writes =>
      obtain ⟨-, hrow, hwrites, hsnapshot, hlater, hprogram⟩ := h
      refine ⟨hafter, hrow, hwrites, hsnapshot, ?_, hprogram⟩
      rw [hdb]
      exact hestablishes.later snapshot hlater
  | ended result =>
      refine ⟨hafter, ?_⟩
      rw [hdb]
      exact hestablishes.earlier request' result h.2

/-- A step of one client. -/
theorem Guarded.update (h : Guarded program key I L R s) (hdb : I t.db) {progress : Progress δ κ ρ}
    (hself : t.clients id = some ⟨request, progress⟩)
    (hclients : ∀ other, other ≠ id → t.clients other = s.clients other)
    (hheld : ∀ other, other ≠ id → t.held key = some other → s.held key = some other)
    (hsection : CriticalSection program key I request)
    (hplaced : Placed program key I L R t id request progress)
    (hothers : ∀ other client, other ≠ id → s.clients other = some client →
      Placed program key I L R s other client.request client.progress →
      Placed program key I L R t other client.request client.progress) :
    Guarded program key I L R t := by
  refine ⟨hdb, fun other hother => ?_, fun other client hclient => ?_⟩
  · by_cases heq : other = id
    · rw [heq, hself]
      rfl
    · rw [hclients other heq]
      exact h.holder other (hheld other heq hother)
  · by_cases heq : other = id
    · subst heq
      obtain rfl := Option.some.inj (hself.symm.trans hclient)
      exact ⟨hsection, hplaced⟩
    · have hold := (hclients other heq).symm.trans hclient
      obtain ⟨hsection', hplaced'⟩ := h.clients other client hold
      exact ⟨hsection', hothers other client heq hold hplaced'⟩

variable [DecidableEq ι]

/-- A step of a client that changes neither the database nor the lock. -/
theorem Guarded.setProgress (h : Guarded program key I L R s) {progress : Progress δ κ ρ}
    (hsection : CriticalSection program key I request)
    (hplaced : Placed program key I L R s id request progress) :
    Guarded program key I L R (s.setProgress id request progress) :=
  h.update h.db (Server.setProgress_clients_self progress)
    (fun _ hne => Server.setProgress_clients_of_ne progress hne) (fun _ _ hother => hother) hsection
    (hplaced.of_same rfl Iff.rfl) fun _ _ _ _ hother => hother.of_same rfl Iff.rfl

/-- A client that waits for the lock gets it when nobody holds it. -/
theorem Guarded.acquire [DecidableEq κ] (h : Guarded program key I L R s) (hnone : s.held key = none)
    (hsection : CriticalSection program key I request) {rest : Transaction δ κ ρ}
    (hfree : rest.LockFree) (hestablishes : Establishes I L R request s.db (rest.exec s.db s.db)) :
    Guarded program key I L R ((s.acquire id key).setProgress id request (.running rest [])) := by
  have hheld : ((s.acquire id key).setProgress id request (.running rest [])).held key = some id :=
    Function.update_self ..
  refine h.update h.db (Server.setProgress_clients_self _)
    (fun other hne => Server.setProgress_clients_of_ne _ hne) (fun other hne hother => ?_) hsection
    (Or.inr ⟨hheld, hfree, hestablishes⟩) fun other client hne _ hplaced => hplaced.of_same rfl ?_
  · rw [hheld] at hother
    exact absurd (Option.some.inj hother).symm hne
  · rw [hheld, hnone, Option.some.injEq]
    exact iff_of_false (fun heq => hne heq.symm) nofun

theorem Guarded.finish [DecidableEq κ] (h : Guarded program key I L R s)
    (hself : s.held key = some id) (hsection : CriticalSection program key I request) {result : ρ}
    {db : δ} (hestablishes : Establishes I L R request s.db (result, db)) :
    Guarded program key I L R (s.finish id request result db) := by
  have hheld : (s.finish id request result db).held key = none := if_pos hself
  refine h.update hestablishes.invariant (Server.finish_clients_self result db)
    (fun other hne => Server.finish_clients_of_ne result db hne) (fun other _ hother => ?_) hsection
    ⟨Server.finish_held_ne result db key, hestablishes.result⟩ fun other client hne _ hplaced => ?_
  · rw [hheld] at hother
    cases hother
  · refine hplaced.of_commit hestablishes rfl ?_ ?_
    · rw [hself]
      exact fun heq => hne (Option.some.inj heq).symm
    · rw [hheld]
      exact nofun

variable [DecidableEq κ]

theorem Guarded.advance (hrefl : ∀ db, L db db) (h : Guarded program key I L R s)
    (hadmits : Admits program key I L R s (.advance id)) (hstep : s.advance id = some t) :
    Guarded program key I L R t := by
  cases hclient : s.clients id with
  | none =>
      rw [Server.advance, hclient] at hstep
      cases hstep
  | some client =>
      obtain ⟨request, progress⟩ := client
      obtain ⟨hsection, hplaced⟩ := h.clients id _ hclient
      obtain ⟨row, next, hprogram, hrow, hfree⟩ := hsection.begins
      cases progress with
      | running rest writes =>
          rcases hplaced with ⟨hheld, hrest, rfl⟩ | ⟨hheld, hlockFree, hestablishes⟩
          · -- the locking statement takes its snapshot
            rw [hprogram] at hrest
            subst hrest
            rw [Server.advance, hclient] at hstep
            simp only [view_nil, hrow s.db h.db, Option.some.injEq] at hstep
            subst hstep
            exact h.setProgress hsection ⟨hheld, rfl, rfl, h.db, hrefl s.db, row, hprogram⟩
          · rcases Server.advance_of_lockFree hclient hlockFree hstep with
              ⟨rest', writes', hlockFree', hexec, rfl⟩ | ⟨result, db, hexec, rfl⟩
            · refine h.setProgress hsection (Or.inr ⟨hheld, hlockFree', ?_⟩)
              rw [hexec]
              exact hestablishes
            · refine h.finish hheld hsection ?_
              rw [← hexec]
              exact hestablishes
      | waiting row' snapshot next' writes =>
          obtain ⟨hheld, rfl, rfl, hsnapshot, hlater, rows, hlock⟩ := hplaced
          obtain ⟨rfl, rfl⟩ : row = rows ∧ next = next' := by
            rw [hprogram] at hlock
            exact ⟨(Transaction.lock.inj hlock).1, (Transaction.lock.inj hlock).2⟩
          rw [Server.advance, hclient] at hstep
          simp only [view_nil] at hstep
          split at hstep
          · rename_i hfreeLock
            cases hstep
            have hestablishes := hadmits.acquires request snapshot
              (Server.acquiring_of_waiting hclient hfreeLock) hsnapshot h.db hlater
            rw [outcome, hprogram] at hestablishes
            exact h.acquire (hfreeLock.resolve_right hheld) hsection (hfree snapshot s.db)
              hestablishes
          · cases hstep
      | ended result =>
          rw [Server.advance, hclient] at hstep
          cases hstep

/-- What holds after every request that runs alone holds in every interleaving. -/
theorem Guarded.step (hrefl : ∀ db, L db db) (h : Guarded program key I L R s) {label : Label γ ι}
    (hadmits : Admits program key I L R s label) (hstep : Server.step program s label = some t) :
    Guarded program key I L R t := by
  cases label with
  | begin id request =>
      simp only [Server.step] at hstep
      split at hstep
      · rename_i hnew
        cases hstep
        refine h.setProgress (hadmits.begins id request rfl) (Or.inl ⟨fun hheld => ?_, rfl, rfl⟩)
        have hsome := h.holder id hheld
        rw [Option.isNone_iff_eq_none.mp hnew] at hsome
        cases hsome
      · cases hstep
  | advance id => exact h.advance hrefl hadmits hstep

/-! ### The result of a client that holds the lock -/

theorem Server.advance_clients_of_ne {other : ι} (hstep : s.advance other = some t)
    (hne : id ≠ other) : t.clients id = s.clients id := by
  rw [Server.advance] at hstep
  split at hstep
  · cases hstep
  · cases hstep
    exact Server.finish_clients_of_ne _ _ hne
  · cases hstep
    exact Server.finish_clients_of_ne _ _ hne
  · cases hstep
    exact Server.setProgress_clients_of_ne _ hne
  · cases hstep
    exact Server.setProgress_clients_of_ne _ hne
  · split at hstep
    · cases hstep
      exact Server.setProgress_clients_of_ne _ hne
    · cases hstep
  · cases hstep

/-- The client holds the lock and will end with the result, or has ended with it. -/
inductive EndsWith (key : κ) (s : Server γ δ ι κ ρ) (id : ι) (result : ρ) : Prop where
  | holds (request : γ) (rest : Transaction δ κ ρ) (writes : List (δ → δ))
      (hclient : s.clients id = some ⟨request, .running rest writes⟩)
      (hheld : s.held key = some id) (hfree : rest.LockFree)
      (hexec : (rest.exec s.db (view s.db writes)).1 = result)
  | ended (request : γ) (hclient : s.clients id = some ⟨request, .ended result⟩)

variable {result : ρ}

/-- Nobody else touches the database while a client holds the lock. -/
theorem Guarded.keeps (h : Guarded program key I L R s) {other : ι} (hheld : s.held key = some id)
    (hne : other ≠ id) (hstep : s.advance other = some t) : t.db = s.db ∧ t.held = s.held := by
  cases hclient : s.clients other with
  | none =>
      rw [Server.advance, hclient] at hstep
      cases hstep
  | some client =>
      obtain ⟨request, progress⟩ := client
      obtain ⟨hsection, hplaced⟩ := h.clients other _ hclient
      obtain ⟨row, next, hprogram, hrow, -⟩ := hsection.begins
      cases progress with
      | running rest writes =>
          rcases hplaced with ⟨-, hrest, rfl⟩ | ⟨hother, -⟩
          · rw [hprogram] at hrest
            subst hrest
            rw [Server.advance, hclient] at hstep
            cases hstep
            exact ⟨rfl, rfl⟩
          · rw [hheld] at hother
            exact absurd (Option.some.inj hother).symm hne
      | waiting row' snapshot next' writes =>
          obtain ⟨-, rfl, -⟩ := hplaced
          rw [Server.advance, hclient] at hstep
          simp only at hstep
          split at hstep
          · rename_i hfree
            rw [Server.free, hheld] at hfree
            simp only [reduceCtorEq, Option.some.injEq, false_or] at hfree
            exact absurd hfree.symm hne
          · cases hstep
      | ended result =>
          rw [Server.advance, hclient] at hstep
          cases hstep

omit [DecidableEq κ] in
/-- The snapshot of a client that gets its lock. -/
theorem Guarded.snapshot (h : Guarded program key I L R s) {snapshot : δ} {label : Label γ ι}
    (hacquiring : s.acquiring label = some (request, snapshot)) : I snapshot ∧ L snapshot s.db := by
  obtain ⟨id, row, next, writes, -, hclient, -⟩ := Server.exists_waiting_of_acquiring hacquiring
  obtain ⟨-, -, -, hsnapshot, hlater, -⟩ := (h.clients id _ hclient).2
  exact ⟨hsnapshot, hlater⟩

/-- A client that gets its lock will end as its outcome says. -/
theorem Guarded.endsWith (h : Guarded program key I L R s) {snapshot : δ} {label : Label γ ι}
    (hacquiring : s.acquiring label = some (request, snapshot))
    (hstep : Server.step program s label = some t) :
    ∃ id, EndsWith key t id (outcome program request snapshot s.db).1 := by
  obtain ⟨id, row, next, writes, rfl, hclient, hfree⟩ := Server.exists_waiting_of_acquiring hacquiring
  obtain ⟨hsection, hplaced⟩ := h.clients id _ hclient
  obtain ⟨rows, next', hprogram, -, hlockFree⟩ := hsection.begins
  obtain ⟨-, rfl, rfl, -, -, rows', hlock⟩ := hplaced
  obtain ⟨rfl, rfl⟩ : rows = rows' ∧ next' = next := by
    rw [hprogram] at hlock
    exact ⟨(Transaction.lock.inj hlock).1, (Transaction.lock.inj hlock).2⟩
  have hstep : s.advance id = some t := hstep
  simp only [Server.advance, hclient, view_nil, if_pos hfree, Option.some.injEq] at hstep
  subst hstep
  refine ⟨id, .holds request (next' snapshot s.db) [] (Server.setProgress_clients_self _)
    (Function.update_self ..) (hlockFree snapshot s.db) ?_⟩
  rw [outcome, hprogram]
  rfl

/-- Where no client has a next step, every client has ended: the lock is never left behind. -/
theorem Guarded.ended (h : Guarded program key I L R s) (hstuck : ∀ id, s.advance id = none)
    {client : Client γ δ κ ρ} (hclient : s.clients id = some client) :
    ∃ result, client.progress = .ended result := by
  have hrunning : ∀ other request rest writes,
      s.clients other ≠ some ⟨request, .running rest writes⟩ := by
    intro other request rest writes hother
    have hsome := Server.advance_isSome_of_running hother
    rw [hstuck other] at hsome
    cases hsome
  obtain ⟨request, progress⟩ := client
  cases progress with
  | running rest writes => exact absurd hclient (hrunning id request rest writes)
  | ended result => exact ⟨result, rfl⟩
  | waiting row snapshot next writes =>
      obtain ⟨hheld, rfl, -⟩ := (h.clients id _ hclient).2
      have hstuckId := hstuck id
      simp only [Server.advance, hclient, ite_eq_right_iff, reduceCtorEq, imp_false] at hstuckId
      cases hholder : s.held row with
      | none => exact absurd (Or.inl hholder) hstuckId
      | some holder =>
          -- the holder has a next step
          obtain ⟨⟨request', progress'⟩, hclient'⟩ := Option.isSome_iff_exists.mp (h.holder holder hholder)
          have hplaced := (h.clients holder _ hclient').2
          cases progress' with
          | running rest writes => exact absurd hclient' (hrunning holder request' rest writes)
          | waiting => exact absurd hholder hplaced.1
          | ended => exact absurd hholder hplaced.1

theorem EndsWith.step (h : EndsWith key s id result) (hguarded : Guarded program key I L R s)
    {label : Label γ ι} (hstep : Server.step program s label = some t) :
    EndsWith key t id result := by
  cases label with
  | begin other request' =>
      simp only [Server.step] at hstep
      split at hstep
      · rename_i hnew
        cases hstep
        have hne : (s.clients id).isSome → id ≠ other := by
          rintro hsome rfl
          rw [Option.isNone_iff_eq_none.mp hnew] at hsome
          cases hsome
        cases h with
        | holds request rest writes hclient hheld hfree hexec =>
            refine .holds request rest writes ?_ hheld hfree hexec
            exact (Server.setProgress_clients_of_ne _ (hne (by rw [hclient]; rfl))).trans hclient
        | ended request hclient =>
            refine .ended request ?_
            exact (Server.setProgress_clients_of_ne _ (hne (by rw [hclient]; rfl))).trans hclient
      · cases hstep
  | advance other =>
      have hstep : s.advance other = some t := hstep
      by_cases hself : other = id
      · subst hself
        cases h with
        | holds request rest writes hclient hheld hfree hexec =>
            rcases Server.advance_of_lockFree hclient hfree hstep with
              ⟨rest', writes', hfree', hsame, rfl⟩ | ⟨result', db, hends, rfl⟩
            · refine .holds request rest' writes' (Server.setProgress_clients_self _) hheld hfree' ?_
              show (rest'.exec s.db (view s.db writes')).1 = result
              rw [hsame, hexec]
            · rw [hends] at hexec
              subst hexec
              exact .ended request (Server.finish_clients_self _ _)
        | ended request hclient =>
            rw [Server.advance, hclient] at hstep
            cases hstep
      · have hsame : t.clients id = s.clients id :=
          Server.advance_clients_of_ne hstep fun heq => hself heq.symm
        cases h with
        | holds request rest writes hclient hheld hfree hexec =>
            obtain ⟨hdb, hlocks⟩ := hguarded.keeps hheld hself hstep
            refine .holds request rest writes (hsame.trans hclient) (by rw [hlocks, hheld]) hfree ?_
            rw [hdb, hexec]
        | ended request hclient => exact .ended request (hsame.trans hclient)

end Transaction
