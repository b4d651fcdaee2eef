import Transcendence.Realtime.ProjectCoordinator

/-!
# Every run of one project lock

A run is a list of calls on one `ProjectCoordinator`. Requests are numbered in the order in which
they are made, and beside the coordinator stands a ledger: the modes requested, the numbers granted
in the order of the grants, and the grants whose release function has not been called yet. A release
is enabled only for an outstanding grant, so each release function is called once.

The one fact behind the fairness of the lock is `LockUsage.Inv.order`: the granted numbers followed
by the queued ones are all the numbers, in order.
-/

namespace Transcendence.Realtime

open ProjectCoordinator

inductive LockCall where
  | acquireShared
  | acquireExclusive
  | release (request : Nat)
  deriving DecidableEq, Repr

/-- A coordinator and the ledger of its requests and grants. -/
structure LockUsage where
  coordinator : ProjectCoordinator Nat
  requested : List ProjectLockMode
  granted : List Nat
  outstanding : List (ProjectLockWaiter Nat)
  deriving DecidableEq, Repr

namespace LockUsage

def initial : LockUsage := ⟨ProjectCoordinator.new, [], [], []⟩

def request (u : LockUsage) (mode : ProjectLockMode) : LockUsage :=
  let result := ProjectCoordinator.acquire mode u.coordinator u.requested.length
  { coordinator := result.1
    requested := u.requested ++ [mode]
    granted := u.granted ++ result.2.map (·.resolve)
    outstanding := u.outstanding ++ result.2 }

def giveBack (u : LockUsage) (grant : ProjectLockWaiter Nat) : LockUsage :=
  let result := ProjectCoordinator.release grant.mode u.coordinator
  { u with
    coordinator := result.1
    granted := u.granted ++ result.2.map (·.resolve)
    outstanding := u.outstanding.erase grant ++ result.2 }

def step (u : LockUsage) : LockCall → Option LockUsage
  | .acquireShared => some (u.request .shared)
  | .acquireExclusive => some (u.request .exclusive)
  | .release request => (u.outstanding.find? (·.resolve == request)).map u.giveBack

/-- What a reader-writer lock owes its callers, read off the coordinator and the ledger. -/
structure Correct (u : LockUsage) : Prop where
  /-- The ledger lists granted requests under the mode they asked for. -/
  ledger : ∀ grant ∈ u.outstanding, grant.resolve ∈ u.granted ∧ u.requested[grant.resolve]? = some grant.mode
  /-- A writer is alone. -/
  exclusion : ∀ grant ∈ u.outstanding, grant.mode = .exclusive → u.outstanding = [grant]
  readerCount_eq : u.coordinator.readerCount = (u.outstanding.countP (·.mode == .shared) : Nat)
  writerActive_iff : u.coordinator.writerActive = true ↔ ∃ grant ∈ u.outstanding, grant.mode = .exclusive
  /-- No reader overtakes a writer that asked before it. -/
  fifo : ∀ writer reader, writer < reader → u.requested[writer]? = some .exclusive →
    u.requested[reader]? = some .shared → reader ∈ u.granted →
    writer ∈ u.granted ∧ u.granted.idxOf writer < u.granted.idxOf reader
  /-- Whoever waits, waits for somebody. -/
  progress : u.coordinator.waiters ≠ [] → u.outstanding ≠ []

structure Inv (u : LockUsage) : Prop where
  held : Held u.coordinator u.outstanding
  order : u.granted ++ u.coordinator.waiters.map (·.resolve) = List.range u.requested.length
  modes : ∀ waiter ∈ u.outstanding ++ u.coordinator.waiters, u.requested[waiter.resolve]? = some waiter.mode
  granted : ∀ grant ∈ u.outstanding, grant.resolve ∈ u.granted

theorem inv_initial : initial.Inv where
  held := held_new
  order := rfl
  modes := by simp [initial, new]
  granted := by simp [initial]

/-- An operation that turns the queue `before` into grants followed by the new queue keeps the order
of the requests. -/
private theorem order_of_moved {granted : List Nat} {grants queue before : List (ProjectLockWaiter Nat)}
    (hmoved : grants ++ queue = before) :
    (granted ++ grants.map (·.resolve)) ++ queue.map (·.resolve) = granted ++ before.map (·.resolve) := by
  rw [← hmoved, List.map_append, List.append_assoc]

theorem Inv.request {u : LockUsage} (h : u.Inv) (mode : ProjectLockMode) : (u.request mode).Inv := by
  obtain ⟨hheld, hmoved⟩ := h.held.acquire mode u.requested.length
  refine ⟨hheld, ?_, ?_, ?_⟩
  · simp only [LockUsage.request]
    rw [order_of_moved hmoved, List.map_append, ← List.append_assoc, h.order, List.length_append,
      List.length_singleton, List.range_succ]
    rfl
  · intro waiter hwaiter
    have hmem : waiter ∈ u.outstanding ++ (u.coordinator.waiters ++ [⟨mode, u.requested.length⟩]) := by
      simpa only [LockUsage.request, List.append_assoc, hmoved] using hwaiter
    rw [← List.append_assoc, List.mem_append, List.mem_singleton] at hmem
    rcases hmem with hold | rfl
    · have hget := h.modes waiter hold
      have hlt := (List.getElem?_eq_some_iff.mp hget).1
      simpa only [LockUsage.request, List.getElem?_append_left hlt] using hget
    · simp [LockUsage.request]
  · intro grant hgrant
    simp only [LockUsage.request, List.mem_append, List.mem_map] at hgrant ⊢
    rcases hgrant with hold | hnew
    · exact Or.inl (h.granted grant hold)
    · exact Or.inr ⟨grant, hnew, rfl⟩

theorem Inv.giveBack {u : LockUsage} (h : u.Inv) {grant : ProjectLockWaiter Nat}
    (hgrant : grant ∈ u.outstanding) : (u.giveBack grant).Inv := by
  obtain ⟨hheld, hmoved⟩ := h.held.release hgrant
  refine ⟨hheld, ?_, ?_, ?_⟩
  · simp only [LockUsage.giveBack]
    rw [order_of_moved hmoved, h.order]
  · intro waiter hwaiter
    apply h.modes waiter
    have hmem : waiter ∈ u.outstanding.erase grant ++ u.coordinator.waiters := by
      simpa only [LockUsage.giveBack, List.append_assoc, hmoved] using hwaiter
    rw [List.mem_append] at hmem ⊢
    exact hmem.imp_left List.mem_of_mem_erase
  · intro other hother
    simp only [LockUsage.giveBack, List.mem_append, List.mem_map] at hother ⊢
    rcases hother with hold | hnew
    · exact Or.inl (h.granted other (List.mem_of_mem_erase hold))
    · exact Or.inr ⟨other, hnew, rfl⟩

theorem inv_preserved : Runs.Preserved step Inv := by
  intro u call v h hstep
  cases call with
  | acquireShared => cases hstep; exact h.request .shared
  | acquireExclusive => cases hstep; exact h.request .exclusive
  | release request =>
      obtain ⟨grant, hfind, rfl⟩ := Option.map_eq_some_iff.mp hstep
      exact h.giveBack (List.mem_of_find?_eq_some hfind)

/-- Grants are given in the order of the requests, without gaps. -/
theorem Inv.granted_eq_range {u : LockUsage} (h : u.Inv) : u.granted = List.range u.granted.length := by
  have htake := congrArg (List.take u.granted.length) h.order
  rw [List.take_left, List.take_range] at htake
  have hle : u.granted.length ≤ u.requested.length := by
    have := congrArg List.length h.order
    rw [List.length_append, List.length_range] at this
    omega
  rwa [Nat.min_eq_left hle] at htake

private theorem idxOf_range {n i : Nat} (hi : i < n) : (List.range n).idxOf i = i := by
  have hget := (List.nodup_range (n := n)).idxOf_getElem i (by simpa using hi)
  rwa [List.getElem_range] at hget

theorem Inv.correct {u : LockUsage} (h : u.Inv) : u.Correct where
  ledger grant hgrant :=
    ⟨h.granted grant hgrant, h.modes grant (List.mem_append_left _ hgrant)⟩
  exclusion _ hgrant hmode := h.held.exclusive_alone hgrant hmode
  readerCount_eq := h.held.readerCount_eq
  writerActive_iff := h.held.writerActive_iff
  fifo writer reader hlt _ _ hreader := by
    rw [h.granted_eq_range] at hreader ⊢
    have hbound := List.mem_range.mp hreader
    refine ⟨List.mem_range.mpr (hlt.trans hbound), ?_⟩
    rwa [idxOf_range (hlt.trans hbound), idxOf_range hbound]
  progress := h.held.holders_ne_nil

/-- **The project lock is a correct fair reader-writer lock**, after any sequence of calls. -/
theorem correct_of_run (calls : List LockCall) (u : LockUsage)
    (hrun : Runs.run step initial calls = some u) : u.Correct :=
  (inv_preserved.run inv_initial hrun).correct

/-- A writer that asks between two readers. -/
def handover : List LockCall := [.acquireShared, .acquireExclusive, .acquireShared, .release 0, .release 1]

theorem correct_of_handover :
    ∃ u, Runs.run step initial handover = some u ∧ u.granted = [0, 1, 2] ∧ u.Correct :=
  ⟨_, rfl, rfl, correct_of_run handover _ rfl⟩

end LockUsage

end Transcendence.Realtime
