import Mathlib.Data.Finset.Basic
import Mathlib.Data.List.Nodup
import Transcendence.Base.Calls
import Transcendence.Projects.Assignments

/-!
# Assignees are members

An assignee of an item is a member of its project, or a `removeMember` has deleted his membership
and is going to delete his assignments (`Leaving`). A call that has checked its assignees relies on
the same, unless it has been overtaken: unless a `removeMember` has gone through between the check
and the commit. Neither the check before the transaction nor the one inside it excludes that, as
`removeMember` is not SERIALIZABLE. As long as no call commits overtaken assignees, no assignee is
left over once everything is at rest.
-/

namespace Transcendence.Projects.AssignmentSystem

variable {s t : AssignmentSystem}

/-- A check that passes has found every user of the list: the members among them are as many as the
list is long. -/
theorem mem_of_areProjectMembers {members : Finset UserId} {userIds : List UserId}
    (h : areProjectMembers members userIds) {userId : UserId} (hmem : userId ∈ userIds) : userId ∈ members := by
  have hcount : (members.filter (· ∈ userIds)).card = userIds.length := by
    rw [areProjectMembers, Bool.or_eq_true, beq_iff_eq] at h
    refine h.resolve_left fun hempty => ?_
    rw [List.isEmpty_iff.mp hempty] at hmem
    cases hmem
  have hsubset : members.filter (· ∈ userIds) ⊆ userIds.toFinset := by
    intro user huser
    exact List.mem_toFinset.mpr (Finset.mem_filter.mp huser).2
  have hall := Finset.eq_of_subset_of_card_le hsubset (by rw [hcount]; exact userIds.toFinset_card_le)
  have hfound : userId ∈ members.filter (· ∈ userIds) := by
    rw [hall]
    exact List.mem_toFinset.mpr hmem
  exact (Finset.mem_filter.mp hfound).1

/-! ### The invariant -/

/-- A `removeMember` is going to delete the user's assignments to items of the kind. -/
def Leaving (s : AssignmentSystem) (kind : AssignableKind) (projectId : ProjectId) (userId : UserId) : Prop :=
  ∃ id removal, s.removals id = some removal ∧ removal.projectId = projectId ∧ removal.userId = userId ∧
    kind ∈ removal.pending

def Belongs (s : AssignmentSystem) (kind : AssignableKind) (projectId : ProjectId) (userId : UserId) : Prop :=
  userId ∈ s.db.members projectId ∨ Leaving s kind projectId userId

def Stage.hasChecked : Stage → Bool
  | .begun => false
  | .ended => false
  | _ => true

def Stage.isWritten : Stage → Bool
  | .stored => true
  | .replacing _ => true
  | _ => false

/-- The call has found or written the row of its item. -/
def hasRow (call : MutationCall) : Bool :=
  !call.mutation.creates || (!call.mutation.inOneTransaction && Stage.isWritten call.stage)

def HasRow (db : Assignments) (mutation : Mutation) : Prop :=
  ∃ row, db.rows mutation.item = some row ∧ row.projectId = mutation.projectId

structure AssignmentInv (s : AssignmentSystem) : Prop where
  rows : ∀ item row, s.db.rows item = some row → ∀ userId ∈ row.assignees, Belongs s item.kind row.projectId userId
  checked : ∀ id call, s.mutations id = some call → Stage.hasChecked call.stage → ∀ userIds,
    call.mutation.assigneeIds = some userIds → ∀ userId ∈ userIds,
      Belongs s call.mutation.item.kind call.mutation.projectId userId ∨ userId ∈ s.overtaken id
  hasRow : ∀ id call, s.mutations id = some call → hasRow call → HasRow s.db call.mutation

theorem assignmentInv_initial {db : Assignments} (h : db.AssigneesAreMembers) : AssignmentInv (initial db) where
  rows item row hrow userId hmem := Or.inl (h item row hrow userId hmem)
  checked _ _ hcall := by cases hcall
  hasRow _ _ hcall := by cases hcall

/-! ### Calls -/

/-- A call that goes to another stage. -/
theorem AssignmentInv.setStage (h : AssignmentInv s) (id : Nat) (call : MutationCall) (stage : Stage)
    (overtaken : Finset UserId)
    (hchecked : Stage.hasChecked stage → ∀ userIds, call.mutation.assigneeIds = some userIds → ∀ userId ∈ userIds,
      Belongs s call.mutation.item.kind call.mutation.projectId userId ∨ userId ∈ overtaken)
    (hrow : AssignmentSystem.hasRow { call with stage } → HasRow s.db call.mutation) :
    AssignmentInv ⟨s.db, Function.update s.mutations id (some { call with stage }), s.removals,
      Function.update s.overtaken id overtaken⟩ where
  rows := h.rows
  checked other call' hcall' hstage userIds hids userId hmem := by
    by_cases heq : other = id
    · subst heq
      simp only [Function.update_self, Option.some.injEq] at hcall' ⊢
      subst hcall'
      exact hchecked hstage userIds hids userId hmem
    · simp only [Function.update_of_ne heq] at hcall' ⊢
      exact h.checked other call' hcall' hstage userIds hids userId hmem
  hasRow other call' hcall' hhas := by
    rcases Calls.update_eq_some hcall' with ⟨-, rfl⟩ | ⟨-, hold⟩
    · exact hrow hhas
    · exact h.hasRow other call' hold hhas

theorem setStage_eq (s : AssignmentSystem) (id : Nat) (call : MutationCall) (stage : Stage) :
    s.setStage id call stage = ⟨s.db, Function.update s.mutations id (some { call with stage }), s.removals,
      Function.update s.overtaken id (s.overtaken id)⟩ := by
  rw [Function.update_eq_self]
  rfl

/-- A call that is not overtaken any further, and has checked its assignees before if it has now. -/
theorem AssignmentInv.advance (h : AssignmentInv s) {id : Nat} {call : MutationCall} (hcall : s.mutations id = some call)
    (stage : Stage) (hchecked : Stage.hasChecked stage → Stage.hasChecked call.stage ∨ call.mutation.assigneeIds = none)
    (hrow : AssignmentSystem.hasRow { call with stage } → HasRow s.db call.mutation) :
    AssignmentInv (s.setStage id call stage) := by
  rw [setStage_eq]
  refine h.setStage id call stage (s.overtaken id) (fun hstage userIds hids => ?_) hrow
  rcases hchecked hstage with hbefore | hnone
  · exact h.checked id call hcall hbefore userIds hids
  · rw [hnone] at hids
    cases hids

/-- The write of a row with assignees who belong to its project. -/
theorem AssignmentInv.write (h : AssignmentInv s) (mutation : Mutation) (assignees : Finset UserId)
    (hsame : ∀ row, s.db.rows mutation.item = some row → row.projectId = mutation.projectId)
    (hbelong : ∀ userId ∈ assignees, Belongs s mutation.item.kind mutation.projectId userId) :
    AssignmentInv { s with db := s.db.write mutation assignees } where
  rows item row hrow userId hmem := by
    by_cases heq : item = mutation.item
    · subst heq
      simp only [Assignments.write, Function.update_self, Option.some.injEq] at hrow
      subst hrow
      exact hbelong userId hmem
    · simp only [Assignments.write, Function.update_of_ne heq] at hrow
      exact h.rows item row hrow userId hmem
  checked := h.checked
  hasRow id call hcall hhas := by
    obtain ⟨row, hrow, hproject⟩ := h.hasRow id call hcall hhas
    by_cases heq : call.mutation.item = mutation.item
    · refine ⟨⟨mutation.projectId, assignees⟩, ?_, ?_⟩
      · rw [heq]
        exact Function.update_self ..
      · rw [heq] at hrow
        exact (hsame row hrow).symm.trans hproject
    · exact ⟨row, (Function.update_of_ne heq ..).trans hrow, hproject⟩

theorem AssignmentInv.assignees (h : AssignmentInv s) {mutation : Mutation}
    (hsame : ∀ row, s.db.rows mutation.item = some row → row.projectId = mutation.projectId) {userId : UserId}
    (hmem : userId ∈ s.db.assignees mutation.item) : Belongs s mutation.item.kind mutation.projectId userId := by
  cases hrow : s.db.rows mutation.item with
  | none => simp [Assignments.assignees, hrow] at hmem
  | some row =>
      rw [← hsame row hrow]
      exact h.rows mutation.item row hrow userId (by simpa [Assignments.assignees, hrow] using hmem)

theorem hasRow_project {db : Assignments} {mutation : Mutation} (h : HasRow db mutation) {row : AssignableRow}
    (hrow : db.rows mutation.item = some row) : row.projectId = mutation.projectId := by
  obtain ⟨found, hfound, hproject⟩ := h
  obtain rfl := Option.some.inj (hrow.symm.trans hfound)
  exact hproject

theorem AssignmentInv.begin (h : AssignmentInv s) {id : Nat} {mutation : Mutation} (hstep : s.begin id mutation = some t) :
    AssignmentInv t := by
  simp only [AssignmentSystem.begin] at hstep
  split_ifs at hstep with hfresh hguard
  cases hstep
  rw [setStage_eq]
  refine h.setStage id ⟨mutation, .begun⟩ .begun (s.overtaken id) (fun hstage => by cases hstage) fun hhas => ?_
  have hupdates : mutation.creates = false := by simpa [AssignmentSystem.hasRow, Stage.isWritten] using hhas
  rw [hupdates] at hguard
  obtain ⟨row, hrow, hproject⟩ := (Option.any_eq_true ..).mp (hguard.resolve_left (by simp))
  exact ⟨row, hrow, beq_iff_eq.mp hproject⟩

theorem AssignmentInv.check (h : AssignmentInv s) {id : Nat} (hstep : s.check id = some t) : AssignmentInv t := by
  simp only [AssignmentSystem.check, Option.map_eq_some_iff, Option.filter_eq_some_iff, decide_eq_true_eq] at hstep
  obtain ⟨call, ⟨hcall, hbegun⟩, rfl⟩ := hstep
  have hkeeps : ∀ stage, Stage.isWritten stage = false →
      AssignmentSystem.hasRow { call with stage } → HasRow s.db call.mutation := by
    intro stage hstage hhas
    refine h.hasRow id call hcall ?_
    simp_all [AssignmentSystem.hasRow, Stage.isWritten]
  split
  · rename_i hnone
    exact h.advance hcall .checked (fun _ => Or.inr hnone) (hkeeps .checked rfl)
  · rename_i userIds hids
    split
    · rename_i hmembers
      refine h.setStage id call .checked ∅ (fun _ found hfound userId hmem => ?_) (hkeeps .checked rfl)
      obtain rfl := Option.some.inj (hids.symm.trans hfound)
      exact Or.inl (Or.inl (mem_of_areProjectMembers hmembers hmem))
    · exact h.advance hcall .ended (fun hstage => by cases hstage) (hkeeps .ended rfl)

theorem AssignmentInv.store (h : AssignmentInv s) {id : Nat} (hstep : s.store id = some t) : AssignmentInv t := by
  simp only [AssignmentSystem.store, Option.bind_eq_some_iff, Option.filter_eq_some_iff, Bool.and_eq_true,
    decide_eq_true_eq, Bool.not_eq_true'] at hstep
  obtain ⟨call, ⟨hcall, hchecked, -⟩, hstep⟩ := hstep
  rw [Option.ite_none_left_eq_some] at hstep
  obtain ⟨hexists, hstored⟩ := hstep
  cases hstored
  have hsame : ∀ row, s.db.rows call.mutation.item = some row → row.projectId = call.mutation.projectId := by
    intro row hrow
    refine hasRow_project (h.hasRow id call hcall ?_) hrow
    have hupdates : call.mutation.creates = false := by
      by_contra hcreates
      exact hexists ⟨by simpa using hcreates, by rw [hrow]; rfl⟩
    rw [AssignmentSystem.hasRow, hupdates]
    rfl
  have hwritten := h.write call.mutation (s.db.assignees call.mutation.item) hsame fun _ hmem => h.assignees hsame hmem
  refine hwritten.advance hcall _ (fun _ => Or.inl (by rw [hchecked]; rfl)) fun _ => ?_
  exact ⟨_, Function.update_self .., rfl⟩

theorem AssignmentInv.openReplace (h : AssignmentInv s) {id : Nat} (hstep : s.openReplace id = some t) :
    AssignmentInv t := by
  simp only [AssignmentSystem.openReplace, Option.bind_eq_some_iff, Option.filter_eq_some_iff, Option.map_eq_some_iff,
    decide_eq_true_eq] at hstep
  obtain ⟨call, ⟨hcall, hstage⟩, userIds, hids, rfl⟩ := hstep
  have hchecked : Stage.hasChecked call.stage := by
    rw [hstage]
    split <;> rfl
  have hrow : AssignmentSystem.hasRow { call with stage := .replacing (s.db.assignees call.mutation.item) } →
      HasRow s.db call.mutation := by
    intro hhas
    refine h.hasRow id call hcall ?_
    rw [AssignmentSystem.hasRow, hstage]
    cases hone : call.mutation.inOneTransaction <;> simp_all [AssignmentSystem.hasRow, Stage.isWritten]
  have hended : AssignmentSystem.hasRow { call with stage := .ended } → HasRow s.db call.mutation := by
    intro hhas
    refine h.hasRow id call hcall ?_
    simp_all [AssignmentSystem.hasRow, Stage.isWritten]
  split
  · split
    · rename_i hmembers
      refine h.setStage id call (.replacing (s.db.assignees call.mutation.item)) ∅
        (fun _ found hfound userId hmem => ?_) hrow
      obtain rfl := Option.some.inj (hids.symm.trans hfound)
      exact Or.inl (Or.inl (mem_of_areProjectMembers hmembers hmem))
    · exact h.advance hcall .ended (fun hstage => by cases hstage) hended
  · exact h.advance hcall (.replacing (s.db.assignees call.mutation.item)) (fun _ => Or.inl hchecked) hrow

theorem AssignmentInv.abort (h : AssignmentInv s) {id : Nat} (hstep : s.abort id = some t) : AssignmentInv t := by
  obtain ⟨call, hcall, rfl⟩ := Option.map_eq_some_iff.mp hstep
  refine h.advance hcall .ended (fun hstage => by cases hstage) fun hhas => h.hasRow id call hcall ?_
  simp_all [AssignmentSystem.hasRow, Stage.isWritten]

/-- The commit of a call that is not overtaken. -/
theorem AssignmentInv.commit (h : AssignmentInv s) {id : Nat} (hclear : s.NotOvertaken (.commit id))
    (hstep : s.commit id = some t) : AssignmentInv t := by
  obtain ⟨call, hcall, hstep⟩ := Option.bind_eq_some_iff.mp hstep
  split at hstep
  · rename_i deleted userIds hstage hids
    have hended : ∀ {db}, (HasRow s.db call.mutation → HasRow db call.mutation) →
        AssignmentSystem.hasRow { call with stage := .ended } → HasRow db call.mutation := by
      intro db hkeeps hhas
      refine hkeeps (h.hasRow id call hcall ?_)
      simp_all [AssignmentSystem.hasRow, Stage.isWritten]
    split_ifs at hstep with hexists hcommits
    · cases hstep
      have hsame : ∀ row, s.db.rows call.mutation.item = some row → row.projectId = call.mutation.projectId := by
        intro row hrow
        refine hasRow_project (h.hasRow id call hcall ?_) hrow
        rw [AssignmentSystem.hasRow, hstage]
        cases hcreates : call.mutation.creates <;> cases hone : call.mutation.inOneTransaction <;>
          simp_all [Stage.isWritten]
      have hwritten := h.write call.mutation ((s.db.assignees call.mutation.item \ deleted) ∪ userIds.toFinset) hsame ?_
      · exact hwritten.advance hcall .ended (fun hstage => by cases hstage) fun _ => ⟨_, Function.update_self .., rfl⟩
      · intro userId hmem
        rcases Finset.mem_union.mp hmem with hkept | hnew
        · exact h.assignees hsame (Finset.mem_sdiff.mp hkept).1
        · rcases h.checked id call hcall (by rw [hstage]; rfl) userIds hids userId (List.mem_toFinset.mp hnew) with
            hbelongs | hovertaken
          · exact hbelongs
          · exact Or.inl (hclear id call rfl hcall userId hovertaken)
    · cases hstep
      exact h.advance hcall .ended (fun hstage => by cases hstage) (hended fun hhas => hhas)
  · cases hstep

/-! ### Memberships -/

theorem Belongs.mono {kind : AssignableKind} {projectId : ProjectId} {userId : UserId} (h : Belongs s kind projectId userId)
    (hmembers : userId ∈ s.db.members projectId → Belongs t kind projectId userId)
    (hleaving : Leaving s kind projectId userId → Leaving t kind projectId userId) : Belongs t kind projectId userId := by
  rcases h with hmember | hpending
  · exact hmembers hmember
  · exact Or.inr (hleaving hpending)

theorem AssignmentInv.addMember (h : AssignmentInv s) (projectId : ProjectId) (userId : UserId) :
    AssignmentInv (s.addMember projectId userId) := by
  have hkeeps : ∀ {kind project user}, Belongs s kind project user → Belongs (s.addMember projectId userId) kind project user := by
    intro kind project user hbelongs
    refine hbelongs.mono (fun hmember => Or.inl ?_) fun hleaving => hleaving
    show user ∈ Function.update s.db.members projectId _ project
    by_cases heq : project = projectId
    · subst heq
      rw [Function.update_self]
      exact Finset.mem_insert_of_mem hmember
    · rwa [Function.update_of_ne heq]
  exact ⟨fun item row hrow user hmem => hkeeps (h.rows item row hrow user hmem),
    fun id call hcall hstage userIds hids user hmem => (h.checked id call hcall hstage userIds hids user hmem).imp_left hkeeps,
    h.hasRow⟩

/-- Who loses his membership is leaving. -/
theorem AssignmentInv.removeMember (h : AssignmentInv s) {id : Nat} {projectId : ProjectId} {userId : UserId}
    (hstep : s.removeMember id projectId userId = some t) : AssignmentInv t := by
  simp only [AssignmentSystem.removeMember, Option.ite_none_left_eq_some, not_or, not_not,
    Option.not_isSome_iff_eq_none, Option.some.injEq] at hstep
  obtain ⟨⟨hfresh, -⟩, rfl⟩ := hstep
  set t : AssignmentSystem := { s with
    db := { s.db with members := Function.update s.db.members projectId ((s.db.members projectId).erase userId) }
    removals := Function.update s.removals id (some ⟨projectId, userId, [.task, .calendarEvent]⟩) } with ht
  have hkeeps : ∀ {kind project user}, Belongs s kind project user → Belongs t kind project user := by
    intro kind project user hbelongs
    refine hbelongs.mono (fun hmember => ?_) ?_
    · by_cases heq : project = projectId ∧ user = userId
      · obtain ⟨rfl, rfl⟩ := heq
        exact Or.inr ⟨id, _, Function.update_self .., rfl, rfl, by cases kind <;> simp⟩
      · left
        show user ∈ Function.update s.db.members projectId _ project
        by_cases hproject : project = projectId
        · subst hproject
          rw [Function.update_self]
          exact Finset.mem_erase.mpr ⟨fun huser => heq ⟨rfl, huser⟩, hmember⟩
        · rwa [Function.update_of_ne hproject]
    · rintro ⟨other, removal, hremoval, hwhom⟩
      have hne : other ≠ id := by
        rintro rfl
        rw [hfresh] at hremoval
        cases hremoval
      exact ⟨other, removal, (Function.update_of_ne hne ..).trans hremoval, hwhom⟩
  exact ⟨fun item row hrow user hmem => hkeeps (h.rows item row hrow user hmem),
    fun other call hcall hstage userIds hids user hmem =>
      (h.checked other call hcall hstage userIds hids user hmem).imp_left hkeeps,
    h.hasRow⟩

/-- After its `deleteMany` the user has no assignment left, and the calls that name him are
overtaken. -/
theorem AssignmentInv.deleteAssignees (h : AssignmentInv s) {id : Nat} {kind : AssignableKind}
    (hstep : s.deleteAssignees id kind = some t) : AssignmentInv t := by
  simp only [AssignmentSystem.deleteAssignees, Option.map_eq_some_iff, Option.filter_eq_some_iff] at hstep
  obtain ⟨removal, ⟨hremoval, -⟩, rfl⟩ := hstep
  set t : AssignmentSystem := { s with
    db := { s.db with
      rows := fun item => (s.db.rows item).map fun row =>
        if item.kind = kind ∧ row.projectId = removal.projectId then
          { row with assignees := row.assignees.erase removal.userId }
        else row }
    removals := Function.update s.removals id (some { removal with pending := removal.pending.erase kind })
    overtaken := fun call =>
      if (s.mutations call).any (names · kind removal.projectId removal.userId) then
        insert removal.userId (s.overtaken call)
      else s.overtaken call } with ht
  -- only the removed user's assignments of this kind are not waited for any more
  have hkeeps : ∀ {kind' project user}, Belongs s kind' project user →
      Belongs t kind' project user ∨ (kind' = kind ∧ project = removal.projectId ∧ user = removal.userId) := by
    rintro kind' project user (hmember | ⟨other, found, hfound, hproject, huser, hpending⟩)
    · exact Or.inl (Or.inl hmember)
    · by_cases heq : other = id
      · subst heq
        obtain rfl := Option.some.inj (hremoval.symm.trans hfound)
        by_cases hkind : kind' = kind
        · exact Or.inr ⟨hkind, hproject.symm, huser.symm⟩
        · exact Or.inl (Or.inr ⟨other, _, Function.update_self .., hproject, huser, (List.mem_erase_of_ne hkind).mpr hpending⟩)
      · exact Or.inl (Or.inr ⟨other, found, (Function.update_of_ne heq ..).trans hfound, hproject, huser, hpending⟩)
  refine ⟨fun item row hrow user hmem => ?_, fun other call hcall hstage userIds hids user hmem => ?_,
    fun other call hcall hhas => ?_⟩
  · obtain ⟨old, hold, rfl⟩ := Option.map_eq_some_iff.mp hrow
    split at hmem
    · rename_i hmatches
      obtain ⟨hne, hmem⟩ := Finset.mem_erase.mp hmem
      rw [if_pos hmatches]
      exact (hkeeps (h.rows item old hold user hmem)).resolve_right fun hwhom => hne hwhom.2.2
    · rename_i hmatches
      rw [if_neg hmatches]
      exact (hkeeps (h.rows item old hold user hmem)).resolve_right fun hwhom => hmatches ⟨hwhom.1, hwhom.2.1⟩
  · rcases h.checked other call hcall hstage userIds hids user hmem with hbelongs | hovertaken
    · refine (hkeeps hbelongs).imp_right fun hwhom => ?_
      obtain ⟨hkind, hproject, rfl⟩ := hwhom
      have hnames : (s.mutations other).any (names · kind removal.projectId removal.userId) := by
        rw [show s.mutations other = some call from hcall, Option.any_some]
        simp [names, hkind, hproject, hids, hmem]
      show removal.userId ∈ ite _ _ _
      rw [if_pos hnames]
      exact Finset.mem_insert_self ..
    · right
      show user ∈ ite _ _ _
      split
      · exact Finset.mem_insert_of_mem hovertaken
      · exact hovertaken
  · obtain ⟨row, hrow, hproject⟩ := h.hasRow other call hcall hhas
    refine ⟨_, Option.map_eq_some_iff.mpr ⟨row, hrow, rfl⟩, ?_⟩
    split <;> exact hproject

/-! ### Over whole runs -/

theorem AssignmentInv.step (h : AssignmentInv s) {label : Label} (hclear : s.NotOvertaken label)
    (hstep : s.step label = some t) : AssignmentInv t := by
  cases label with
  | begin id mutation => exact h.begin hstep
  | check id => exact h.check hstep
  | store id => exact h.store hstep
  | openReplace id => exact h.openReplace hstep
  | commit id => exact h.commit hclear hstep
  | abort id => exact h.abort hstep
  | addMember projectId userId =>
      cases hstep
      exact h.addMember projectId userId
  | removeMember id projectId userId => exact h.removeMember hstep
  | deleteAssignees id kind => exact h.deleteAssignees hstep

/-- In every run in which no commit assigns a user who has been removed since the check of the call. -/
theorem assignees_are_members_of_not_overtaken (db : Assignments) (hdb : db.AssigneesAreMembers) (labels : List Label)
    (s : AssignmentSystem) (hrun : Runs.run step (initial db) labels = some s)
    (hclear : Runs.Along step NotOvertaken (initial db) labels) (hrest : s.AtRest) : s.db.AssigneesAreMembers := by
  have hinv : AssignmentInv s :=
    Runs.Along.run (P := AssignmentInv) (fun _ _ _ h hlabel hstep => h.step hlabel hstep) (assignmentInv_initial hdb) hclear hrun
  intro item row hrow userId hmem
  refine (hinv.rows item row hrow userId hmem).resolve_right ?_
  rintro ⟨id, removal, hremoval, -, -, hpending⟩
  rw [hrest.removals id removal hremoval] at hpending
  cases hpending

/-! ### An assignee who stays behind

The guest of a project is assigned to an event and to a task while he is being removed. -/

def event : Assignable := ⟨.calendarEvent, "event"⟩
def task : Assignable := ⟨.task, "task"⟩

def withGuest : Assignments where
  members projectId := if projectId = "project" then {"owner", "guest"} else ∅
  rows item := if item = event ∨ item = task then some ⟨"project", ∅⟩ else none

theorem withGuest_assigneesAreMembers : withGuest.AssigneesAreMembers := by
  intro item row hrow userId hmem
  simp only [withGuest, Option.ite_none_right_eq_some, Option.some.injEq] at hrow
  obtain ⟨-, rfl⟩ := hrow
  cases hmem

/-- Both updates name the guest and have checked that he is a member, the task's in its SERIALIZABLE
transaction. -/
def bothChecked : List Label :=
  [.begin 0 ⟨event, "project", false, .USER, some ["guest"]⟩, .check 0,
    .begin 1 ⟨task, "project", false, .USER, some ["guest"]⟩, .check 1, .store 1, .openReplace 1]

def removed : List Label :=
  [.removeMember 0 "project" "guest", .deleteAssignees 0 .task, .deleteAssignees 0 .calendarEvent]

def bothCommitted : List Label := [.store 0, .openReplace 0, .commit 0, .commit 1]

theorem atRest_of_two (hmutations : ∀ id, id < 2 → (s.mutations id).all (·.stage = .ended))
    (hmutations' : ∀ id, s.mutations (id + 2) = none) (hremovals : (s.removals 0).all (·.pending = []))
    (hremovals' : ∀ id, s.removals (id + 1) = none) : s.AtRest where
  mutations id call hcall := by
    by_cases hid : id < 2
    · have hended := hmutations id hid
      rw [hcall] at hended
      exact of_decide_eq_true hended
    · obtain ⟨later, rfl⟩ := Nat.exists_eq_add_of_le' (Nat.le_of_not_lt hid)
      rw [hmutations' later] at hcall
      cases hcall
  removals id removal hremoval := by
    cases id with
    | zero =>
        rw [hremoval] at hremovals
        exact of_decide_eq_true hremovals
    | succ id =>
        rw [hremovals' id] at hremoval
        cases hremoval

theorem not_assignees_are_members : ¬∀ db : Assignments, db.AssigneesAreMembers → ∀ (labels : List Label)
    (s : AssignmentSystem), Runs.run step (initial db) labels = some s → s.AtRest → s.db.AssigneesAreMembers := by
  intro hall
  have hend : ∃ s, Runs.run step (initial withGuest) (bothChecked ++ removed ++ bothCommitted) = some s ∧
      ((∀ id, id < 2 → (s.mutations id).all (·.stage = .ended)) ∧ (∀ id, s.mutations (id + 2) = none) ∧
        (s.removals 0).all (·.pending = []) ∧ ∀ id, s.removals (id + 1) = none) ∧
      s.db.rows event = some ⟨"project", {"guest"}⟩ ∧ s.db.rows task = some ⟨"project", {"guest"}⟩ ∧
      "guest" ∉ s.db.members "project" :=
    ⟨_, rfl, ⟨by decide, fun id => rfl, by decide, fun id => rfl⟩, by decide, by decide, by decide⟩
  obtain ⟨s, hrun, ⟨hmutations, hmutations', hremovals, hremovals'⟩, hevent, -, hgone⟩ := hend
  exact hgone (hall withGuest withGuest_assigneesAreMembers _ s hrun
    (atRest_of_two hmutations hmutations' hremovals hremovals') event _ hevent "guest" (by decide))

/-- Evaluates `NotOvertaken`. -/
def notOvertakenCheck (s : AssignmentSystem) : Label → Bool
  | .commit id => (s.mutations id).all fun call => s.overtaken id ⊆ s.db.members call.mutation.projectId
  | _ => true

theorem notOvertaken_of_check (s : AssignmentSystem) (label : Label) (h : notOvertakenCheck s label) :
    s.NotOvertaken label := by
  rintro id call rfl hcall userId hmem
  rw [notOvertakenCheck, hcall, Option.all_some, decide_eq_true_eq] at h
  exact h hmem

/-- The commits come between the `delete` of the membership and the two `deleteMany`, which then
find the assignments. -/
def commitsBefore : List Label :=
  bothChecked ++ [.removeMember 0 "project" "guest"] ++ bothCommitted ++
    [.deleteAssignees 0 .task, .deleteAssignees 0 .calendarEvent]

theorem assignees_are_members_of_commitsBefore : ∃ s, Runs.run step (initial withGuest) commitsBefore = some s ∧
    "guest" ∉ s.db.members "project" ∧ s.db.AssigneesAreMembers := by
  have hend : ∃ s, Runs.run step (initial withGuest) commitsBefore = some s ∧
      ((∀ id, id < 2 → (s.mutations id).all (·.stage = .ended)) ∧ (∀ id, s.mutations (id + 2) = none) ∧
        (s.removals 0).all (·.pending = []) ∧ ∀ id, s.removals (id + 1) = none) ∧ "guest" ∉ s.db.members "project" :=
    ⟨_, rfl, ⟨by decide, fun id => rfl, by decide, fun id => rfl⟩, by decide⟩
  obtain ⟨s, hrun, ⟨hmutations, hmutations', hremovals, hremovals'⟩, hgone⟩ := hend
  refine ⟨s, hrun, hgone, assignees_are_members_of_not_overtaken withGuest withGuest_assigneesAreMembers commitsBefore s
    hrun (.of_check notOvertaken_of_check ?_) (atRest_of_two hmutations hmutations' hremovals hremovals')⟩
  decide +kernel

end Transcendence.Projects.AssignmentSystem
