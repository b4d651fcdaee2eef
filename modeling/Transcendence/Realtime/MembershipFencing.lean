import Transcendence.Base.History
import Transcendence.Realtime.ServerInvariant

/-!
# Writes of members only

The bodies that read the membership of their user inside the project's shared lock write, or acquire
a field lock, only while that user is a member. The argument is about histories: from the delete in
`removeMember` to the next `addMember` the membership is absent, and a body inside that has read a
membership finds it there as long as it is inside.
-/

namespace Transcendence.Realtime.Server

open History (Since Throughout since_cons throughout_cons)
open World (setMember_of_ne setMember_self)

/-- The event is the write or the acquisition of a body for this member. -/
def ActsFor (event : Event) (projectId : ProjectId) (userId : UserId) : Prop :=
  event = .wrote projectId userId ∨ ∃ key, event = .acquired projectId userId key

def Removed (events : List Event) (projectId : ProjectId) (userId : UserId) : Prop :=
  Since (.memberRemoved projectId userId) (.memberAdded projectId userId) events

def RemovalCompleted (events : List Event) (projectId : ProjectId) (userId : UserId) : Prop :=
  Since (.removalCompleted projectId userId) (.memberAdded projectId userId) events

def NoLease (leases : Leases) (projectId : ProjectId) (userId : UserId) : Prop :=
  ∀ entry ∈ leases, ¬(entry.2.userId = userId ∧ entry.2.projectId = projectId)

def managesMembers : Request → Bool
  | .addMember .. => true
  | .removeMember .. => true
  | .updateMemberRole .. => true
  | _ => false

/-- The body of the request runs under its locks. -/
def InSection (s : Server) (id : CallId) (request : Request) : Prop :=
  ∃ task call, s.tasks id = some task ∧ task.request = request ∧ s.coordination.calls id = some call ∧
    call.phase = .running

structure MembershipFenced (s : Server) : Prop where
  /-- No write and no acquisition for a user between his removal and his next addition. -/
  fenced : Throughout (fun event earlier => ∀ projectId userId, ActsFor event projectId userId →
    ¬Removed earlier projectId userId) s.world.history
  /-- No body that acts for a member overlaps one that changes the memberships of its project. -/
  apart : ∀ id other request request', s.InSection id request → s.InSection other request' →
    request.member.isSome → managesMembers request' → request.projectId ≠ request'.projectId
  /-- Once a removal has completed, the user holds no field lock in the project until he is added.
  -/
  released : ∀ projectId userId, RemovalCompleted s.world.history projectId userId →
    NoLease s.world.leases projectId userId

/-! ### The invariant about histories -/

structure HistoryInv (w : World) : Prop where
  removed : ∀ projectId userId, Removed w.history projectId userId → w.members projectId userId = none
  completed : ∀ projectId userId, RemovalCompleted w.history projectId userId →
    w.members projectId userId = none ∧ NoLease w.leases projectId userId
  fenced : Throughout (fun event earlier => ∀ projectId userId, ActsFor event projectId userId →
    ¬Removed earlier projectId userId) w.history

variable {w w' : World}

/-- Nobody who is not a member gets a new lease. -/
def LeasesFollow (w w' : World) : Prop :=
  ∀ projectId userId, w.members projectId userId = none → NoLease w.leases projectId userId →
    NoLease w'.leases projectId userId

theorem HistoryInv.congr (h : HistoryInv w) (hhistory : w'.history = w.history) (hmembers : w'.members = w.members)
    (hleases : LeasesFollow w w') : HistoryInv w' where
  removed projectId userId hremoved := by
    rw [hmembers]
    exact h.removed projectId userId (hhistory ▸ hremoved)
  completed projectId userId hcompleted := by
    obtain ⟨hnone, hlease⟩ := h.completed projectId userId (hhistory ▸ hcompleted)
    exact ⟨hmembers ▸ hnone, hleases projectId userId hnone hlease⟩
  fenced := hhistory ▸ h.fenced

/-- One more event, in a world where only this event's own membership and leases may differ. -/
theorem HistoryInv.push (h : HistoryInv w) (event : Event) (hhistory : w'.history = event :: w.history)
    (hacts : ∀ projectId userId, ActsFor event projectId userId → (w.members projectId userId).isSome)
    (hmembers : ∀ projectId userId, event ≠ .memberAdded projectId userId → w.members projectId userId = none →
      w'.members projectId userId = none)
    (hremoved : ∀ projectId userId, event = .memberRemoved projectId userId → w'.members projectId userId = none)
    (hcompleted : ∀ projectId userId, event = .removalCompleted projectId userId →
      w'.members projectId userId = none ∧ NoLease w'.leases projectId userId)
    (hleases : LeasesFollow w w') : HistoryInv w' where
  removed projectId userId hsince := by
    rw [hhistory, Removed, since_cons] at hsince
    rcases hsince with heq | ⟨hne, hsince⟩
    · exact hremoved projectId userId heq
    · exact hmembers projectId userId hne (h.removed projectId userId hsince)
  completed projectId userId hsince := by
    rw [hhistory, RemovalCompleted, since_cons] at hsince
    rcases hsince with heq | ⟨hne, hsince⟩
    · exact hcompleted projectId userId heq
    · obtain ⟨hnone, hlease⟩ := h.completed projectId userId hsince
      exact ⟨hmembers projectId userId hne hnone, hleases projectId userId hnone hlease⟩
  fenced := by
    rw [hhistory, throughout_cons]
    refine ⟨fun projectId userId hact hsince => ?_, h.fenced⟩
    have hsome := hacts projectId userId hact
    simp [h.removed projectId userId hsince] at hsome

theorem HistoryInv.emitted (h : HistoryInv w) (emissions : List Emission)
    (hhistory : w'.history = emissions.map .emitted ++ w.history) (hmembers : w'.members = w.members)
    (hleases : LeasesFollow w w') : HistoryInv w' := by
  have hsilent : ∀ emissions : List Emission, HistoryInv { w with history := emissions.map .emitted ++ w.history } := by
    intro emissions
    induction emissions with
    | nil => exact h
    | cons emission emissions ih =>
        refine ih.push (.emitted emission) rfl ?_ (fun _ _ _ hnone => hnone) (by simp) (by simp) fun _ _ _ hlease => hlease
        rintro projectId userId (hact | ⟨key, hact⟩) <;> cases hact
  exact (hsilent emissions).congr hhistory hmembers hleases

variable {s t : Server} {id : CallId} {input : Input} {call : CoordinatorCall} {task : Task} {progress : Progress}

theorem Inv.leasesFollow (h : s.Inv) (hturn : Turn s t id input call task progress) : LeasesFollow s.world t.world := by
  intro projectId userId hnone hlease entry hentry hheld
  rcases hturn.effect.mem_leases hentry with ⟨old, hold, -, hgrant⟩ | ⟨hmember, hproject, hknows, -⟩
  · obtain ⟨-, huser, hproject, -⟩ := FieldLockLease.of_grant_eq hgrant
    exact hlease old hold ⟨huser.trans hheld.1, hproject.trans hheld.2⟩
  · have hsome := (h.sound id task hturn.htask).member _ hmember hknows
    rw [hproject, hheld.1, hheld.2, hnone] at hsome
    cases hsome

theorem HistoryInv.effect {request : Request} (h : HistoryInv w) (heffect : World.Effect w request progress w')
    (hfollow : LeasesFollow w w') (hsound : Sound w request progress) : HistoryInv w' := by
  cases heffect with
  | nothing => exact h
  | rooms connections hexclusive => exact h.congr rfl rfl hfollow
  | leases emissions hkey hshrinks =>
      exact h.emitted emissions.reverse (by rw [List.map_reverse]; rfl) rfl hfollow
  | acquired client projectId key randomUUID hfresh =>
      set result := w.leases.acquire w.now randomUUID (World.lockInput client projectId key) with hresult
      have hmember := hsound.member client.userId rfl rfl
      have hreleased : HistoryInv (w.withLeases (result.1, result.2.2)) := by
        refine h.emitted (result.2.2.toList.map emitFieldUnlock).reverse ?_ rfl ?_
        · rw [List.map_reverse, List.map_map]
          rfl
        · intro projectId' userId' hnone hlease
          have hafter := hfollow projectId' userId' hnone hlease
          rwa [World.afterAcquire_leases] at hafter
      have hmembers : (w.afterAcquire randomUUID (World.lockInput client projectId key) result).members = w.members := by
        simp only [World.afterAcquire]
        split <;> split <;> rfl
      have hsame : LeasesFollow (w.withLeases (result.1, result.2.2))
          (w.afterAcquire randomUUID (World.lockInput client projectId key) result) := by
        intro projectId' userId' _ hlease
        rw [World.afterAcquire_leases]
        exact hlease
      by_cases hacquired : result.2.1.acquired
      · refine hreleased.push (.acquired projectId client.userId key) ?_ ?_ ?_ (by simp) (by simp) hsame
        · simp only [World.afterAcquire, hacquired, if_true]
          split <;> rfl
        · rintro projectId' userId' (hact | ⟨key', hact⟩)
          · cases hact
          · cases hact
            exact hmember
        · intro projectId' userId' _ hnone
          rw [hmembers]
          exact hnone
      · refine hreleased.congr ?_ hmembers hsame
        simp only [World.afterAcquire, hacquired, Bool.false_eq_true, if_false]
        split <;> rfl
  | wrote rows messages hmember hknows =>
      rename_i userId
      refine h.push (.wrote request.projectId userId) rfl ?_ (fun _ _ _ hnone => hnone) (by simp) (by simp) hfollow
      rintro projectId' userId' (hact | ⟨key', hact⟩)
      · cases hact
        exact hsound.member _ hmember hknows
      · cases hact
  | memberAdded hexclusive =>
      rename_i userId
      refine h.push (.memberAdded request.projectId userId) rfl ?_ ?_ (by simp) (by simp) hfollow
      · rintro projectId' userId' (hact | ⟨key', hact⟩) <;> cases hact
      · intro projectId' userId' hne hnone
        rw [← hnone]
        refine setMember_of_ne w _ fun heq => hne ?_
        rw [heq.1, heq.2]
  | roleChanged hexclusive hold =>
      rename_i userId role
      refine h.push (.roleChanged request.projectId userId role) rfl ?_ ?_ (by simp) (by simp) hfollow
      · rintro projectId' userId' (hact | ⟨key', hact⟩) <;> cases hact
      · intro projectId' userId' _ hnone
        rw [← hnone]
        refine setMember_of_ne w _ fun heq => ?_
        rw [← heq.1, ← heq.2, hnone] at hold
        cases hold
  | memberRemoved projectId userId requestingUserId =>
      refine h.push (.memberRemoved projectId userId) rfl ?_ ?_ ?_ (by simp) hfollow
      · rintro projectId' userId' (hact | ⟨key', hact⟩) <;> cases hact
      · intro projectId' userId' _ hnone
        by_cases heq : projectId' = projectId ∧ userId' = userId
        · obtain ⟨rfl, rfl⟩ := heq
          exact setMember_self ..
        · exact (setMember_of_ne w _ heq).trans hnone
      · intro projectId' userId' heq
        cases heq
        exact setMember_self ..
  | removalCompleted projectId userId requestingUserId target =>
      have hnone := hsound.removed projectId userId requestingUserId target rfl rfl
      have hemitted : HistoryInv { w with
          leases := (w.afterRemoval projectId userId).leases
          history := ((w.leases.releaseUserInProject userId projectId).2.map (Event.emitted ∘ emitFieldUnlock)).reverse ++
            w.history } := by
        refine h.emitted ((w.leases.releaseUserInProject userId projectId).2.map emitFieldUnlock).reverse ?_ rfl hfollow
        rw [List.map_reverse, List.map_map]
      refine hemitted.push (.removalCompleted projectId userId) ?_ ?_ (fun _ _ _ hnone => hnone) (by simp) ?_
        fun _ _ _ hlease => hlease
      · simp [World.afterRemoval, World.record]
        rfl
      · rintro projectId' userId' (hact | ⟨key', hact⟩) <;> cases hact
      · intro projectId' userId' heq
        cases heq
        exact ⟨hnone, fun entry hentry => (Leases.mem_releaseUserInProject.mp hentry).2⟩

theorem HistoryInv.quiet (h : HistoryInv s.world) (hquiet : Quiet s t) : HistoryInv t.world := by
  obtain ⟨emissions, hhistory⟩ := hquiet.history
  refine h.emitted emissions hhistory hquiet.members fun projectId userId _ hlease => ?_
  rwa [hquiet.leases]

theorem history_preserved : Runs.Preserved step fun s => s.Inv ∧ HistoryInv s.world := by
  rintro s label t ⟨h, hhistory⟩ hstep
  refine ⟨inv_preserved h hstep, ?_⟩
  rcases turn_or_quiet hstep with ⟨id, input, call, task, progress, -, hturn⟩ | hquiet
  · exact hhistory.effect hturn.effect (h.leasesFollow hturn) (h.sound id task hturn.htask)
  · exact hhistory.quiet hquiet

theorem historyInv_initial (users : String → Option UserId) (members : ProjectId → UserId → Option Role) :
    HistoryInv (World.initial users members) where
  removed _ _ h := absurd h History.not_since_nil
  completed _ _ h := absurd h History.not_since_nil
  fenced := History.throughout_nil

theorem Inv.apart (h : s.Inv) {other : CallId} {request request' : Request} (hsection : s.InSection id request)
    (hsection' : s.InSection other request') (hmember : request.member.isSome) (hmanages : managesMembers request') :
    request.projectId ≠ request'.projectId := by
  obtain ⟨task, call, htask, rfl, hcall, hrunning⟩ := hsection
  obtain ⟨task', call', htask', rfl, hcall', hrunning'⟩ := hsection'
  obtain ⟨_, hcalled⟩ := h.called id task htask
  obtain ⟨_, hcalled'⟩ := h.called other task' htask'
  obtain rfl := Option.some.inj (hcall.symm.trans hcalled.hcall)
  obtain rfl := Option.some.inj (hcall'.symm.trans hcalled'.hcall)
  obtain ⟨userId, huser⟩ := Option.isSome_iff_exists.mp hmember
  have hshared := Request.resourceKey_of_member huser
  have hexclusive : task'.request.resourceKey = none := by
    generalize task'.request = request' at hmanages
    cases request' <;> first | rfl | cases hmanages
  intro hproject
  have hholds := ProjectResourceCoordinator.holds_of_running hcall hrunning
  have hholds' := ProjectResourceCoordinator.holds_of_running hcall' hrunning'
  rw [CoordinatorCall.mode, hcalled'.resourceKey, hexclusive, hcalled'.projectId, ← hproject,
    ← hcalled.projectId] at hholds'
  obtain rfl := h.coordination.project_exclusive hholds' hholds
  obtain rfl := Option.some.inj (htask.symm.trans htask')
  rw [hexclusive] at hshared
  cases hshared

/-- For any calls of the server's handlers, in any interleaving. -/
theorem membership_fenced (users : String → Option UserId) (members : ProjectId → UserId → Option Role)
    (labels : List Label) (s : Server) (hrun : Runs.run step (initial users members) labels = some s) :
    s.MembershipFenced := by
  obtain ⟨hinv, hhistory⟩ := history_preserved.run ⟨inv_initial users members, historyInv_initial users members⟩ hrun
  exact ⟨hhistory.fenced, fun id other request request' => hinv.apart,
    fun projectId userId hcompleted => (hhistory.completed projectId userId hcompleted).2⟩

/-! A guest locks a discovery block, and the owner removes him while he holds the lease. -/

def guest : Socket := ⟨"socket", "guest", "jdoe", none⟩

def ownerAndGuest (projectId : ProjectId) (userId : UserId) : Option Role :=
  if projectId = "project" ∧ userId = "owner" then some .OWNER
  else if projectId = "project" ∧ userId = "guest" then some .MEMBER
  else none

def removal : List Label :=
  [.setRow .discoveryBlock "1" (some ⟨"project", "old"⟩), .connect guest, .ready "socket",
    .request 0 (.joinRoom guest "project"), .coordination (.enterProject 0), .turn 0 {}, .turn 0 {}, .turn 0 {},
    .coordination (.settleBody 0), .coordination (.leave 0),
    .request 1 (.field .lock guest "project" "discovery-block:1"), .coordination (.enterProject 1),
    .coordination (.enterKey 1), .turn 1 {}, .turn 1 {}, .turn 1 {}, .turn 1 {}, .turn 1 { randomUUID := "lease" },
    .request 2 (.removeMember "project" "guest" "owner"), .coordination (.settleBody 1), .coordination (.leave 1),
    .coordination (.enterProject 2), .turn 2 {}, .turn 2 {}, .turn 2 {}, .turn 2 {}, .turn 2 {}, .turn 2 {}, .turn 2 {}]

theorem membership_fenced_of_removal : ∃ s, Runs.run step (initial (fun _ => none) ownerAndGuest) removal = some s ∧
    RemovalCompleted s.world.history "project" "guest" ∧ s.MembershipFenced := by
  have hhead : (Runs.run step (initial (fun _ => none) ownerAndGuest) removal).bind (·.world.history.head?) =
      some (.removalCompleted "project" "guest") := by decide
  obtain ⟨s, hrun, hhistory⟩ := Option.bind_eq_some_iff.mp hhead
  obtain ⟨earlier, hearlier⟩ := List.head?_eq_some_iff.mp hhistory
  refine ⟨s, hrun, ?_, membership_fenced (fun _ => none) ownerAndGuest removal s hrun⟩
  rw [hearlier]
  exact since_cons.mpr (Or.inl rfl)

end Transcendence.Realtime.Server
