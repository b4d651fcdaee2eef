import Transcendence.Base.Runs
import Mathlib.Tactic

/-!
# The fair reader-writer lock of one project

`ProjectCoordinator` of `field-lock-manager.ts`. A promise is named by the request that created it,
and an operation returns the waiters whose promises it resolves, in the order in which it resolves
them; a grant that needs no waiting is a waiter resolved at once. The release function a grant
carries is `releaseShared` or `releaseExclusive`, by the mode of the grant.

Everything later rests on `Held`: what the two counters say about the grants that are still
outstanding. Each operation keeps it, and moves requests from the queue to the grants without
changing their order.
-/

namespace Transcendence.Realtime

inductive ProjectLockMode where
  | shared
  | exclusive
  deriving DecidableEq, Repr

/-- A queued request; `resolve` names the promise a grant resolves. -/
structure ProjectLockWaiter (ρ : Type) where
  mode : ProjectLockMode
  resolve : ρ
  deriving DecidableEq, Repr

structure ProjectCoordinator (ρ : Type) where
  readerCount : Int
  writerActive : Bool
  waiters : List (ProjectLockWaiter ρ)
  deriving DecidableEq, Repr

namespace ProjectCoordinator

variable {ρ : Type}

def new : ProjectCoordinator ρ := ⟨0, false, []⟩

def isIdle (c : ProjectCoordinator ρ) : Bool :=
  !c.writerActive && c.readerCount == 0 && c.waiters.isEmpty

def enqueue (c : ProjectCoordinator ρ) (mode : ProjectLockMode) (request : ρ) : ProjectCoordinator ρ :=
  { c with waiters := c.waiters ++ [⟨mode, request⟩] }

def acquireShared (c : ProjectCoordinator ρ) (request : ρ) :
    ProjectCoordinator ρ × List (ProjectLockWaiter ρ) :=
  if !c.writerActive && !c.waiters.any (·.mode == .exclusive) then
    ({ c with readerCount := c.readerCount + 1 }, [⟨.shared, request⟩])
  else (c.enqueue .shared request, [])

def acquireExclusive (c : ProjectCoordinator ρ) (request : ρ) :
    ProjectCoordinator ρ × List (ProjectLockWaiter ρ) :=
  if !c.writerActive && c.readerCount == 0 && c.waiters.isEmpty then
    ({ c with writerActive := true }, [⟨.exclusive, request⟩])
  else (c.enqueue .exclusive request, [])

/-- The loop of `drain`: shift and grant shared waiters until the queue is empty or starts with an
exclusive one. -/
def grantShared (readerCount : Int) : List (ProjectLockWaiter ρ) →
    ProjectCoordinator ρ × List (ProjectLockWaiter ρ)
  | [] => (⟨readerCount, false, []⟩, [])
  | waiter :: rest =>
      match waiter.mode with
      | .shared => ((grantShared (readerCount + 1) rest).1, waiter :: (grantShared (readerCount + 1) rest).2)
      | .exclusive => (⟨readerCount, false, waiter :: rest⟩, [])

def drain (c : ProjectCoordinator ρ) : ProjectCoordinator ρ × List (ProjectLockWaiter ρ) :=
  if c.writerActive || c.readerCount > 0 then (c, [])
  else
    match c.waiters with
    | [] => (c, [])
    | first :: rest =>
        match first.mode with
        | .exclusive => ({ c with writerActive := true, waiters := rest }, [first])
        | .shared => grantShared c.readerCount c.waiters

def releaseShared (c : ProjectCoordinator ρ) : ProjectCoordinator ρ × List (ProjectLockWaiter ρ) :=
  { c with readerCount := c.readerCount - 1 }.drain

def releaseExclusive (c : ProjectCoordinator ρ) : ProjectCoordinator ρ × List (ProjectLockWaiter ρ) :=
  { c with writerActive := false }.drain

def acquire (mode : ProjectLockMode) (c : ProjectCoordinator ρ) (request : ρ) :
    ProjectCoordinator ρ × List (ProjectLockWaiter ρ) :=
  match mode with
  | .shared => c.acquireShared request
  | .exclusive => c.acquireExclusive request

/-- The release function handed out with a grant. -/
def release (mode : ProjectLockMode) (c : ProjectCoordinator ρ) :
    ProjectCoordinator ρ × List (ProjectLockWaiter ρ) :=
  match mode with
  | .shared => c.releaseShared
  | .exclusive => c.releaseExclusive

/-! ### What the counters say about the outstanding grants -/

/-- The counters agree with the list of outstanding grants: one writer and nobody else, or as many
readers as `readerCount` says. Readers block only a queue that starts with a writer, and nothing is
queued when nobody holds the lock. -/
inductive Held (c : ProjectCoordinator ρ) : List (ProjectLockWaiter ρ) → Prop where
  | writing (writer : ρ) (hcount : c.readerCount = 0) (hactive : c.writerActive = true) :
      Held c [⟨.exclusive, writer⟩]
  | reading (readers : List ρ) (hcount : c.readerCount = readers.length)
      (hactive : c.writerActive = false)
      (hhead : ∀ first ∈ c.waiters.head?, first.mode = .exclusive ∧ readers ≠ []) :
      Held c (readers.map (⟨.shared, ·⟩))

theorem held_new : Held (new : ProjectCoordinator ρ) [] :=
  .reading [] rfl rfl (by simp [new])

theorem Held.readerCount_eq {c : ProjectCoordinator ρ} {holders : List (ProjectLockWaiter ρ)}
    (h : Held c holders) : c.readerCount = (holders.countP (·.mode == .shared) : Nat) := by
  cases h with
  | writing writer hcount hactive => rw [hcount]; rfl
  | reading readers hcount hactive hhead =>
      rw [hcount, List.countP_map, List.countP_eq_length.mpr (by simp)]

theorem Held.writerActive_iff {c : ProjectCoordinator ρ} {holders : List (ProjectLockWaiter ρ)}
    (h : Held c holders) : c.writerActive = true ↔ ∃ grant ∈ holders, grant.mode = .exclusive := by
  cases h with
  | writing writer hcount hactive => simp [hactive]
  | reading readers hcount hactive hhead => simp [hactive]

theorem waiters_eq_nil_of_no_exclusive {c : ProjectCoordinator ρ}
    (hhead : ∀ first ∈ c.waiters.head?, first.mode = .exclusive)
    (hnone : c.waiters.any (·.mode == .exclusive) = false) : c.waiters = [] := by
  cases hw : c.waiters with
  | nil => rfl
  | cons first rest =>
      have hfirst : first.mode = .exclusive := hhead first (by simp [hw])
      simp [hw, hfirst] at hnone

/-- Granting the shared prefix of the queue leaves a queue that is empty or starts with a writer. -/
theorem held_grantShared (readers : List ρ) (queue : List (ProjectLockWaiter ρ))
    (hsome : readers = [] → ∀ first ∈ queue.head?, first.mode = .shared) :
    Held (grantShared readers.length queue).1
        (readers.map (⟨.shared, ·⟩) ++ (grantShared readers.length queue).2) ∧
      (grantShared readers.length queue).2 ++ (grantShared readers.length queue).1.waiters = queue := by
  induction queue generalizing readers with
  | nil =>
      rw [grantShared, List.append_nil]
      exact ⟨.reading readers rfl rfl (by simp), rfl⟩
  | cons waiter rest ih =>
      obtain ⟨mode, request⟩ := waiter
      cases mode with
      | shared =>
          have hnext := ih (readers ++ [request]) (by simp)
          rw [List.length_append, List.length_singleton, Nat.cast_add, Nat.cast_one] at hnext
          simp only [grantShared, List.cons_append, hnext.2, and_true]
          simpa using hnext.1
      | exclusive =>
          rw [grantShared, List.append_nil]
          refine ⟨.reading readers rfl rfl ?_, rfl⟩
          intro first hfirst
          obtain rfl : (⟨.exclusive, request⟩ : ProjectLockWaiter ρ) = first := by simpa using hfirst
          refine ⟨rfl, fun hnil => ?_⟩
          have := hsome hnil _ rfl
          contradiction

/-- `drain` after the last holder has left: it hands the lock to the head of the queue. -/
theorem held_drain_idle {c : ProjectCoordinator ρ} (hcount : c.readerCount = 0)
    (hactive : c.writerActive = false) :
    Held c.drain.1 c.drain.2 ∧ c.drain.2 ++ c.drain.1.waiters = c.waiters := by
  have hguard : ¬ (c.writerActive || decide (c.readerCount > 0)) = true := by
    simp [hcount, hactive]
  rw [drain, if_neg hguard]
  cases hw : c.waiters with
  | nil =>
      rw [List.nil_append]
      exact ⟨.reading [] hcount hactive (by simp [hw]), hw⟩
  | cons first rest =>
      obtain ⟨mode, request⟩ := first
      cases mode with
      | exclusive => exact ⟨.writing request hcount rfl, rfl⟩
      | shared =>
          have hgrant := held_grantShared [] (⟨.shared, request⟩ :: rest)
            (by rintro - first hfirst; obtain rfl := (Option.some.inj hfirst); rfl)
          simpa [hcount] using hgrant

/-- Nothing is granted while readers remain. -/
theorem drain_of_readers {c : ProjectCoordinator ρ} (hcount : 0 < c.readerCount) : c.drain = (c, []) := by
  rw [drain, if_pos]
  simp [hcount]

/-! ### One lemma for each operation -/

/-- A request that joins the queue leaves the holders alone; only a writer blocked by readers may
start a queue. -/
theorem Held.enqueue {c : ProjectCoordinator ρ} {holders : List (ProjectLockWaiter ρ)}
    (h : Held c holders) {mode : ProjectLockMode} {request : ρ}
    (hfirst : c.writerActive = false → c.waiters = [] → mode = .exclusive ∧ holders ≠ []) :
    Held (c.enqueue mode request) holders := by
  cases h with
  | writing writer hcount hactive => exact .writing writer hcount hactive
  | reading readers hcount hactive hhead =>
      refine .reading readers hcount hactive fun first hmem => ?_
      cases hw : c.waiters with
      | nil =>
          obtain rfl : (⟨mode, request⟩ : ProjectLockWaiter ρ) = first := by
            simpa [ProjectCoordinator.enqueue, hw] using hmem
          simpa using hfirst hactive hw
      | cons head rest => exact hhead first (by simpa [ProjectCoordinator.enqueue, hw] using hmem)

theorem Held.acquireShared {c : ProjectCoordinator ρ} {holders : List (ProjectLockWaiter ρ)}
    (h : Held c holders) (request : ρ) :
    Held (c.acquireShared request).1 (holders ++ (c.acquireShared request).2) ∧
      (c.acquireShared request).2 ++ (c.acquireShared request).1.waiters =
        c.waiters ++ [⟨.shared, request⟩] := by
  by_cases hfree : (!c.writerActive && !c.waiters.any (·.mode == .exclusive)) = true
  · rw [ProjectCoordinator.acquireShared, if_pos hfree]
    obtain ⟨hidle, hany⟩ : c.writerActive = false ∧ c.waiters.any (·.mode == .exclusive) = false := by
      simpa only [Bool.and_eq_true, Bool.not_eq_true'] using hfree
    cases h with
    | writing writer hcount hactive => rw [hactive] at hidle; contradiction
    | reading readers hcount hactive hhead =>
        have hnil := waiters_eq_nil_of_no_exclusive (fun first hfirst => (hhead first hfirst).1) hany
        have hheld : Held { c with readerCount := c.readerCount + 1 }
            ((readers ++ [request]).map (⟨.shared, ·⟩)) :=
          .reading _ (by simp [hcount]) hactive (by simp [hnil])
        rw [List.map_append] at hheld
        exact ⟨hheld, by simp [hnil]⟩
  · rw [ProjectCoordinator.acquireShared, if_neg hfree, List.append_nil]
    refine ⟨h.enqueue fun hidle hnil => ?_, rfl⟩
    simp [hidle, hnil] at hfree

theorem Held.acquireExclusive {c : ProjectCoordinator ρ} {holders : List (ProjectLockWaiter ρ)}
    (h : Held c holders) (request : ρ) :
    Held (c.acquireExclusive request).1 (holders ++ (c.acquireExclusive request).2) ∧
      (c.acquireExclusive request).2 ++ (c.acquireExclusive request).1.waiters =
        c.waiters ++ [⟨.exclusive, request⟩] := by
  by_cases hfree : (!c.writerActive && c.readerCount == 0 && c.waiters.isEmpty) = true
  · rw [ProjectCoordinator.acquireExclusive, if_pos hfree]
    obtain ⟨⟨hidle, hzero⟩, hnil⟩ : (c.writerActive = false ∧ c.readerCount = 0) ∧ c.waiters = [] := by
      simpa only [Bool.and_eq_true, Bool.not_eq_true', beq_iff_eq, List.isEmpty_iff] using hfree
    cases h with
    | writing writer hcount hactive => rw [hactive] at hidle; contradiction
    | reading readers hcount hactive hhead =>
        obtain rfl : readers = [] := by
          rw [hzero] at hcount
          exact List.length_eq_zero_iff.mp (by omega)
        exact ⟨.writing request hzero rfl, by simp [hnil]⟩
  · rw [ProjectCoordinator.acquireExclusive, if_neg hfree, List.append_nil]
    refine ⟨h.enqueue fun hidle hnil => ⟨rfl, ?_⟩, rfl⟩
    rintro rfl
    have hzero : c.readerCount = 0 := by simpa using h.readerCount_eq
    simp [hidle, hnil, hzero] at hfree

theorem Held.releaseShared [DecidableEq ρ] {c : ProjectCoordinator ρ}
    {holders : List (ProjectLockWaiter ρ)} (h : Held c holders) {request : ρ}
    (hmem : ⟨.shared, request⟩ ∈ holders) :
    Held c.releaseShared.1 (holders.erase ⟨.shared, request⟩ ++ c.releaseShared.2) ∧
      c.releaseShared.2 ++ c.releaseShared.1.waiters = c.waiters := by
  cases h with
  | writing writer hcount hactive => simp at hmem
  | reading readers hcount hactive hhead =>
      obtain ⟨hreader⟩ : request ∈ readers ∧ True := by simpa using hmem
      have hlength := List.length_erase_of_mem hreader
      have hpos := List.length_pos_of_mem hreader
      have hmap : (readers.map (⟨.shared, ·⟩)).erase (⟨.shared, request⟩ : ProjectLockWaiter ρ) =
          (readers.erase request).map (⟨.shared, ·⟩) :=
        (List.map_erase (fun a b hab => by simpa using hab) readers).symm
      rw [hmap]
      by_cases hlast : readers.erase request = []
      · have hone : readers.length = 1 := by
          rw [hlast, List.length_nil] at hlength
          omega
        have hdrain := held_drain_idle (c := { c with readerCount := c.readerCount - 1 })
          (by simp [hcount, hone]) hactive
        rw [hlast]
        exact hdrain
      · have hleft : 0 < (readers.erase request).length := List.length_pos_iff.mpr hlast
        have hdrain := drain_of_readers (c := { c with readerCount := c.readerCount - 1 })
          (by simp only [hcount]; omega)
        rw [ProjectCoordinator.releaseShared, hdrain, List.append_nil, List.nil_append]
        refine ⟨.reading _ ?_ hactive fun first hfirst => ⟨(hhead first hfirst).1, hlast⟩, rfl⟩
        simp only [hcount]
        omega

theorem Held.releaseExclusive [DecidableEq ρ] {c : ProjectCoordinator ρ}
    {holders : List (ProjectLockWaiter ρ)} (h : Held c holders) {request : ρ}
    (hmem : ⟨.exclusive, request⟩ ∈ holders) :
    Held c.releaseExclusive.1 (holders.erase ⟨.exclusive, request⟩ ++ c.releaseExclusive.2) ∧
      c.releaseExclusive.2 ++ c.releaseExclusive.1.waiters = c.waiters := by
  cases h with
  | writing writer hcount hactive =>
      obtain rfl : request = writer := by simpa using hmem
      rw [List.erase_cons_head, List.nil_append]
      exact held_drain_idle hcount rfl
  | reading readers hcount hactive hhead => simp at hmem

theorem Held.acquire {c : ProjectCoordinator ρ} {holders : List (ProjectLockWaiter ρ)}
    (h : Held c holders) (mode : ProjectLockMode) (request : ρ) :
    Held (acquire mode c request).1 (holders ++ (ProjectCoordinator.acquire mode c request).2) ∧
      (ProjectCoordinator.acquire mode c request).2 ++ (ProjectCoordinator.acquire mode c request).1.waiters =
        c.waiters ++ [⟨mode, request⟩] := by
  cases mode with
  | shared => exact h.acquireShared request
  | exclusive => exact h.acquireExclusive request

theorem Held.release [DecidableEq ρ] {c : ProjectCoordinator ρ}
    {holders : List (ProjectLockWaiter ρ)} (h : Held c holders) {grant : ProjectLockWaiter ρ}
    (hmem : grant ∈ holders) :
    Held (release grant.mode c).1 (holders.erase grant ++ (ProjectCoordinator.release grant.mode c).2) ∧
      (ProjectCoordinator.release grant.mode c).2 ++ (ProjectCoordinator.release grant.mode c).1.waiters = c.waiters := by
  obtain ⟨mode, request⟩ := grant
  cases mode with
  | shared => exact h.releaseShared hmem
  | exclusive => exact h.releaseExclusive hmem

/-! ### What holding the lock means -/

theorem Held.exclusive_alone {c : ProjectCoordinator ρ} {holders : List (ProjectLockWaiter ρ)}
    (h : Held c holders) {grant : ProjectLockWaiter ρ} (hmem : grant ∈ holders)
    (hmode : grant.mode = .exclusive) : holders = [grant] := by
  cases h with
  | writing writer hcount hactive => rw [List.mem_singleton.mp hmem]
  | reading readers hcount hactive hhead =>
      obtain ⟨reader, -, rfl⟩ := List.mem_map.mp hmem
      contradiction

theorem Held.holders_ne_nil {c : ProjectCoordinator ρ} {holders : List (ProjectLockWaiter ρ)}
    (h : Held c holders) (hwaiting : c.waiters ≠ []) : holders ≠ [] := by
  cases h with
  | writing writer hcount hactive => simp
  | reading readers hcount hactive hhead =>
      obtain ⟨first, rest, hw⟩ := List.exists_cons_of_ne_nil hwaiting
      simpa using (hhead first (by simp [hw])).2

theorem Held.isIdle_iff {c : ProjectCoordinator ρ} {holders : List (ProjectLockWaiter ρ)}
    (h : Held c holders) : c.isIdle = true ↔ holders = [] ∧ c.waiters = [] := by
  cases h with
  | writing writer hcount hactive => simp [isIdle, hactive]
  | reading readers hcount hactive hhead => simp [isIdle, hactive, hcount]

end ProjectCoordinator

end Transcendence.Realtime
