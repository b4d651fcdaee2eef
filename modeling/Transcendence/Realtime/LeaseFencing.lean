import Transcendence.Realtime.ServerInvariant

/-!
# Writes behind a lease

What `withValidatedLease` promises to the operations passed to it: each starts under the lease it
presents, runs alone on its field, and keeps the field's lease as it is until it has settled.
-/

namespace Transcendence.Realtime.Server

/-- The operation of a call of `withValidatedLease` is running. -/
def Operating (s : Server) (id : CallId) (lease : ValidatedLease) : Prop :=
  ∃ task userId, s.tasks id = some task ∧ task.request.lease = some lease ∧ task.progress = .operating userId

/-- The table holds an unexpired lease for exactly this key, token, user and project. -/
def HoldsLease (w : World) (lease : ValidatedLease) : Prop :=
  ∃ held, OrderedMap.get w.leases lease.key = some held ∧ lease.token = some held.token ∧
    held.userId = lease.userId ∧ held.projectId = lease.projectId ∧ w.now < held.expiresAt

structure LeaseFenced (s : Server) : Prop where
  starts : ∀ label t id lease, s.step label = some t → ¬s.Operating id lease → t.Operating id lease →
    HoldsLease s.world lease ∧ HoldsLease t.world lease
  alone : ∀ id other lease lease', s.Operating id lease → s.Operating other lease' → lease.key = lease'.key →
    id = other
  undisturbed : ∀ label t id lease, s.step label = some t → s.Operating id lease →
    OrderedMap.get t.world.leases lease.key = OrderedMap.get s.world.leases lease.key

variable {s t : Server} {id : CallId} {lease : ValidatedLease}

theorem inside_of_operating {progress : Progress} {userId : UserId} (h : progress = .operating userId) :
    progress.inside := by rw [h]; rfl

theorem Inv.starts (h : s.Inv) {label : Label} (hstep : s.step label = some t) (hnot : ¬s.Operating id lease)
    (hoperating : t.Operating id lease) : HoldsLease s.world lease ∧ t.world = s.world := by
  obtain ⟨task', userId, htask', hlease, hprogress⟩ := hoperating
  rcases turn_or_quiet hstep with ⟨actor, input, call, task, progress, -, hturn⟩ | hquiet
  · by_cases heq : id = actor
    · subst heq
      obtain rfl := Option.some.inj (hturn.tasks_self.symm.trans htask')
      obtain rfl : progress = .operating userId := hprogress
      obtain ⟨hauthorized, hworld, hvalidates⟩ := World.stillValidates_of_body hlease hturn.hbody
      have hissued := (h.sound id task hturn.htask).issued lease hlease (by rw [hauthorized]; rfl)
      exact ⟨leaseHeld_of_stillValidates h.issued hissued hvalidates, hworld⟩
    · exact absurd ⟨task', userId, (hturn.tasks_of_ne heq).symm.trans htask', hlease, hprogress⟩ hnot
  · rcases hquiet.tasks id task' htask' with ⟨old, hold, hrequest, hsame⟩ | ⟨hbegun, -⟩
    · exact absurd ⟨old, userId, hold, hrequest ▸ hlease, hsame.trans hprogress⟩ hnot
    · rw [hprogress] at hbegun
      cases hbegun

theorem Inv.alone (h : s.Inv) {other : CallId} {lease' : ValidatedLease} (hoperating : s.Operating id lease)
    (hoperating' : s.Operating other lease') (hkey : lease.key = lease'.key) : id = other := by
  obtain ⟨task, userId, htask, hlease, hprogress⟩ := hoperating
  obtain ⟨task', userId', htask', hlease', hprogress'⟩ := hoperating'
  obtain ⟨call, hcalled⟩ := h.called id task htask
  obtain ⟨call', hcalled'⟩ := h.called other task' htask'
  have hresource := hcalled.resourceKey.trans (Request.resourceKey_of_lease hlease).1
  have hresource' := hcalled'.resourceKey.trans (Request.resourceKey_of_lease hlease').1
  exact h.coordination.key_exclusive hcalled.hcall hcalled'.hcall hresource (hkey ▸ hresource')
    (hcalled.running (inside_of_operating hprogress)) (hcalled'.running (inside_of_operating hprogress'))

/-- While an operation runs, nobody else's step touches its lease, and its own only writes. -/
theorem Inv.undisturbed (h : s.Inv) {label : Label} (hstep : s.step label = some t) (hoperating : s.Operating id lease) :
    OrderedMap.get t.world.leases lease.key = OrderedMap.get s.world.leases lease.key := by
  obtain ⟨task', userId, htask', hlease, hprogress⟩ := hoperating
  rcases turn_or_quiet hstep with ⟨actor, input, call, task, progress, -, hturn⟩ | hquiet
  · by_cases heq : id = actor
    · subst heq
      obtain rfl : task = task' := Option.some.inj (hturn.htask.symm.trans htask')
      have hbody := hturn.hbody
      rw [hprogress] at hbody
      rw [World.leases_of_operating hlease hbody]
    · obtain ⟨held, hget, -, -, hproject⟩ := (h.sound id task' htask').held lease hlease userId hprogress
      rw [h.leaseHeld_turn hturn htask' (inside_of_operating hprogress) heq hlease hget hproject, hget]
  · rw [hquiet.leases]

/-- For any calls of the server's handlers, in any interleaving. -/
theorem lease_fenced (users : String → Option UserId) (members : ProjectId → UserId → Option Role)
    (labels : List Label) (s : Server) (hrun : Runs.run step (initial users members) labels = some s) :
    s.LeaseFenced := by
  have hinv : s.Inv := inv_preserved.run (inv_initial users members) hrun
  refine ⟨fun label t id lease hstep hnot hoperating => ?_, fun id other lease lease' => hinv.alone,
    fun label t id lease => hinv.undisturbed⟩
  obtain ⟨hholds, hworld⟩ := hinv.starts hstep hnot hoperating
  exact ⟨hholds, hworld ▸ hholds⟩

/-! A member connects, locks a checklist item and saves its label. -/

def editor : Socket := ⟨"socket", "user", "jdoe", none⟩

def editing : List Label :=
  [.setRow .checklistItem "1" (some ⟨"project", "old"⟩), .connect editor, .ready "socket",
    .request 0 (.joinRoom editor "project"), .coordination (.enterProject 0), .turn 0 {}, .turn 0 {}, .turn 0 {},
    .coordination (.settleBody 0), .coordination (.leave 0),
    .request 1 (.field .lock editor "project" "checklist-item:1"), .coordination (.enterProject 1),
    .coordination (.enterKey 1), .turn 1 {}, .turn 1 {}, .turn 1 {}, .turn 1 {}, .turn 1 { randomUUID := "lease" },
    .coordination (.settleBody 1), .coordination (.leave 1), .announce 1,
    .request 2 (.update .checklistItem "project" "1" "new" "user" (some "lease")), .coordination (.enterProject 2),
    .coordination (.enterKey 2), .tick 1000, .turn 2 {}, .turn 2 {}, .turn 2 {}, .turn 2 {}, .turn 2 {}, .turn 2 {}]

def soleMember (projectId : ProjectId) (userId : UserId) : Option Role :=
  if projectId = "project" ∧ userId = "user" then some .OWNER else none

theorem lease_fenced_of_editing : ∃ s, Runs.run step (initial (fun _ => none) soleMember) editing = some s ∧
    s.Operating 2 ⟨"project", "checklist-item:1", "user", some "lease"⟩ ∧ s.LeaseFenced := by
  have hoperating : (Runs.run step (initial (fun _ => none) soleMember) editing).bind (·.tasks 2) =
      some ⟨.update .checklistItem "project" "1" "new" "user" (some "lease"), .operating "user", false⟩ := by decide
  obtain ⟨s, hrun, htask⟩ := Option.bind_eq_some_iff.mp hoperating
  exact ⟨s, hrun, ⟨_, "user", htask, rfl, rfl⟩, lease_fenced (fun _ => none) soleMember editing s hrun⟩

end Transcendence.Realtime.Server
