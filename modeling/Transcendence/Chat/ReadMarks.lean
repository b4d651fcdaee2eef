import Mathlib.Data.String.Basic
import Transcendence.Chat.Messages

/-!
# Read marks

A read state marks a place in the order of the messages, by time and then by id
(`ChatReadState.watermark`), and a project is unread for the messages of others that lie after it
(`mem_findUnreadProjectIds`).

The upsert of `markRead` writes what its caller has seen last, whatever stands there. So the mark goes
back where calls overtake each other, and messages that were marked read are unread again. What keeps
it are exactly the runs in which no upsert finds a later mark than its own (`watermarks_kept_iff`).
-/

namespace Transcendence.Chat

variable {MessageId : Type}

/-! ### What the statements find -/

theorem mem_findReadStates {db : Database MessageId} {userId : UserId} {projectIds : List ProjectId}
    {row : ProjectId × ChatReadState MessageId} :
    row ∈ db.findReadStates userId projectIds ↔
      row.1 ∈ projectIds ∧ db.chatReadStates userId row.1 = some row.2 := by
  simp only [Database.findReadStates, List.mem_filterMap, Option.map_eq_some_iff]
  constructor
  · rintro ⟨projectId, hmem, readState, hstate, rfl⟩
    exact ⟨hmem, hstate⟩
  · rintro ⟨hmem, hstate⟩
    exact ⟨row.1, hmem, row.2, hstate, rfl⟩

theorem find_findReadStates {db : Database MessageId} {userId : UserId} {projectIds : List ProjectId} {projectId : ProjectId}
    (h : projectId ∈ projectIds) :
    ((db.findReadStates userId projectIds).find? (·.1 = projectId)).map (·.2) = db.chatReadStates userId projectId := by
  cases hfind : (db.findReadStates userId projectIds).find? (·.1 = projectId) with
  | some row =>
      have hid : row.1 = projectId := by simpa using List.find?_some hfind
      rw [← hid, (mem_findReadStates.mp (List.mem_of_find?_eq_some hfind)).2]
      rfl
  | none =>
      cases hstate : db.chatReadStates userId projectId with
      | none => rfl
      | some readState =>
          have hmem : (projectId, readState) ∈ db.findReadStates userId projectIds := mem_findReadStates.mpr ⟨h, hstate⟩
          exact absurd (decide_eq_true rfl) (List.find?_eq_none.mp hfind _ hmem)

theorem mem_findMemberships {db : Database MessageId} {userId : UserId} {projectId : ProjectId} :
    projectId ∈ db.findMemberships userId ↔ ⟨userId, projectId⟩ ∈ db.projectMembers := by
  simp only [Database.findMemberships, List.mem_map, List.mem_filter, decide_eq_true_eq]
  constructor
  · rintro ⟨member, ⟨hmem, rfl⟩, rfl⟩
    exact hmem
  · intro hmem
    exact ⟨_, ⟨hmem, rfl⟩, rfl⟩

/-- The first condition of the last statement. -/
theorem author_ne_iff {author : Option UserId} {userId : UserId} :
    author.any (· ≠ userId) ∨ author = none ↔ author ≠ some userId := by
  cases author with
  | none => exact iff_of_true (.inr rfl) nofun
  | some author => simp only [Option.any_some, decide_eq_true_eq, reduceCtorEq, or_false, ne_eq, Option.some.injEq]

/-! ### The order of the messages -/

variable [LinearOrder MessageId]

/-- Where a message stands: after those from before it, and among those of its time by id. -/
def ChatMessage.position (message : ChatMessage MessageId) : Int ×ₗ WithTop MessageId :=
  toLex (message.createdAt, message.id)

/-- Without id all the messages of its time are read. -/
def ChatReadState.watermark (readState : ChatReadState MessageId) : Int ×ₗ WithTop MessageId :=
  toLex (readState.lastReadAt, readState.lastReadMessageId)

/-- The message is of someone else, or of nobody any more, and nothing was marked read up to it. -/
def Unread (db : Database MessageId) (userId : UserId) (message : ChatMessage MessageId) : Prop :=
  message.userId ≠ some userId ∧
    ∀ readState ∈ db.chatReadStates userId message.projectId, readState.watermark < message.position

theorem unreadCondition_some {projectId : ProjectId} {readState : ChatReadState MessageId} {message : ChatMessage MessageId} :
    unreadCondition projectId (some readState) message ↔
      message.projectId = projectId ∧ readState.watermark < message.position := by
  obtain ⟨lastReadAt, lastReadMessageId⟩ := readState
  rw [unreadCondition, Bool.and_eq_true, decide_eq_true_eq, Bool.or_eq_true, decide_eq_true_eq]
  apply and_congr_right'
  rw [ChatReadState.watermark, ChatMessage.position, Prod.Lex.toLex_lt_toLex]
  apply or_congr_right
  cases lastReadMessageId with
  | none =>
      refine iff_of_false Bool.false_ne_true fun h => ?_
      exact absurd h.2 (not_lt_of_ge le_top)
  | some id =>
      rw [Option.any_some, decide_eq_true_eq, eq_comm]
      exact and_congr_right' WithTop.coe_lt_coe.symm

theorem unreadCondition_none {projectId : ProjectId} {message : ChatMessage MessageId} :
    unreadCondition projectId none message ↔ message.projectId = projectId := by
  rw [unreadCondition, Bool.and_true, decide_eq_true_eq]

/-- The condition of the project of the message, on the read states as they were found. -/
theorem unreadCondition_iff {db : Database MessageId} {userId : UserId} {projectId : ProjectId}
    {message : ChatMessage MessageId} :
    unreadCondition projectId (db.chatReadStates userId projectId) message ↔
      message.projectId = projectId ∧
        ∀ readState ∈ db.chatReadStates userId message.projectId, readState.watermark < message.position := by
  cases hstate : db.chatReadStates userId projectId with
  | none =>
      rw [unreadCondition_none, iff_self_and]
      intro hproject readState hmem
      rw [hproject, hstate] at hmem
      cases hmem
  | some readState =>
      rw [unreadCondition_some]
      apply and_congr_right
      intro hproject
      rw [hproject, hstate]
      simp only [Option.mem_def, Option.some.injEq, forall_eq']

/-- What the three statements find, whatever runs between them. -/
theorem mem_findUnreadProjectIds {membershipsDb readStatesDb messagesDb : Database MessageId} {userId : UserId}
    {projectId : ProjectId} :
    projectId ∈ findUnreadProjectIds membershipsDb readStatesDb messagesDb userId ↔
      ⟨userId, projectId⟩ ∈ membershipsDb.projectMembers ∧
        ∃ message ∈ messagesDb.chatMessages, message.projectId = projectId ∧ Unread readStatesDb userId message := by
  rw [← mem_findMemberships]
  simp only [findUnreadProjectIds]
  split
  · next hnone =>
      rw [List.length_eq_zero_iff.mp hnone]
      exact iff_of_false List.not_mem_nil fun h => List.not_mem_nil h.1
  · simp only [List.mem_dedup, List.mem_map, List.mem_filter, Bool.decide_and, Bool.and_eq_true, decide_eq_true_eq, List.any_eq_true]
    constructor
    · rintro ⟨message, ⟨hmem, hauthor, member, hmember, hcondition⟩, rfl⟩
      rw [find_findReadStates hmember, unreadCondition_iff] at hcondition
      rw [hcondition.1]
      refine ⟨hmember, message, hmem, hcondition.1, ?_, hcondition.2⟩
      exact author_ne_iff.mp hauthor
    · rintro ⟨hmember, message, hmem, rfl, hauthor, hread⟩
      refine ⟨message, ⟨hmem, ?_, _, hmember, ?_⟩, rfl⟩
      · exact author_ne_iff.mpr hauthor
      · rw [find_findReadStates hmember, unreadCondition_iff]
        exact ⟨rfl, hread⟩

/-! ### Steps -/

/-- The upsert does not find a later mark than its own. -/
def InOrder (s : State MessageId) : Label MessageId → Prop
  | .upsert id => ∀ request readState, s.calls id = some ⟨request, .checked readState⟩ →
      request.userId ∈ s.db.users → request.projectId ∈ s.db.projects →
        ∀ stored ∈ s.db.chatReadStates request.userId request.projectId, stored.watermark ≤ readState.watermark
  | _ => True

/-- What a step does to the rows that read states refer to, and to them. -/
inductive Effect (s : State MessageId) (label : Label MessageId) (t : State MessageId) : Prop where
  | rests (husers : t.db.users = s.db.users) (hprojects : t.db.projects = s.db.projects)
      (hstates : t.db.chatReadStates = s.db.chatReadStates) (hissued : t.issued = s.issued)
  | marks {id : Nat} {request : Request MessageId} {readState : ChatReadState MessageId} (hlabel : label = .upsert id)
      (hcall : s.calls id = some ⟨request, .checked readState⟩) (huser : request.userId ∈ s.db.users)
      (hproject : request.projectId ∈ s.db.projects)
      (hdb : t.db = s.db.setReadState request.userId request.projectId readState) (hissued : t.issued = s.issued)
  | createsUser {userId : UserId} (hnew : userId ∉ s.issued) (husers : t.db.users = s.db.users ++ [userId])
      (hprojects : t.db.projects = s.db.projects) (hstates : t.db.chatReadStates = s.db.chatReadStates)
      (hissued : t.issued = userId :: s.issued)
  | createsProject {projectId : ProjectId} (hnew : projectId ∉ s.issued) (husers : t.db.users = s.db.users)
      (hprojects : t.db.projects = s.db.projects ++ [projectId]) (hstates : t.db.chatReadStates = s.db.chatReadStates)
      (hissued : t.issued = projectId :: s.issued)
  | deletesUser {userId : UserId} (huser : userId ∈ s.db.users) (hdb : t.db = s.db.deleteUser userId)
      (hissued : t.issued = s.issued)
  | deletesProject {projectId : ProjectId} (hproject : projectId ∈ s.db.projects)
      (hdb : t.db = s.db.deleteProject projectId) (hissued : t.issued = s.issued)

variable {s t : State MessageId} {label : Label MessageId}

theorem step_eq_upsert {id : Nat} {request : Request MessageId} {readState : ChatReadState MessageId}
    (hcall : s.calls id = some ⟨request, .checked readState⟩) (huser : request.userId ∈ s.db.users)
    (hproject : request.projectId ∈ s.db.projects) :
    s.step (.upsert id) = some { s.setPhase id request (.ended none) with
      db := s.db.setReadState request.userId request.projectId readState } := by
  rw [State.step, State.upsert, hcall, Option.bind_some]
  exact if_pos ⟨huser, hproject⟩

omit [LinearOrder MessageId] in
theorem effect_upsert {id : Nat} (h : s.upsert id = some t) : Effect s (.upsert id) t := by
  rw [State.upsert, Option.bind_eq_some_iff] at h
  obtain ⟨⟨request, phase⟩, hcall, h⟩ := h
  cases phase with
  | checked readState =>
      simp only at h
      split at h
      · next hpresent =>
          cases h
          exact .marks rfl hcall hpresent.1 hpresent.2 rfl rfl
      · cases h
        exact .rests rfl rfl rfl rfl
  | begun => cases h
  | ended error => cases h

theorem effect_step (h : s.step label = some t) : Effect s label t := by
  cases label with
  | begin id request =>
      rw [State.step, State.begin] at h
      split at h
      · cases h
      · cases h
        exact .rests rfl rfl rfl rfl
  | assertMembership id =>
      rw [State.step, State.assertMembership, Option.bind_eq_some_iff] at h
      obtain ⟨⟨request, phase⟩, _, h⟩ := h
      cases phase with
      | begun =>
          cases h
          exact .rests rfl rfl rfl rfl
      | checked readState => cases h
      | ended error => cases h
  | upsert id => exact effect_upsert h
  | abort id =>
      rw [State.step, State.abort, Option.bind_eq_some_iff] at h
      obtain ⟨⟨request, phase⟩, _, h⟩ := h
      cases phase with
      | ended error => cases h
      | begun =>
          cases h
          exact .rests rfl rfl rfl rfl
      | checked readState =>
          cases h
          exact .rests rfl rfl rfl rfl
  | createMessage message =>
      rw [State.step, State.createMessage] at h
      split at h
      · cases h
        exact .rests rfl rfl rfl rfl
      · cases h
  | removeMessage id =>
      cases h
      exact .rests rfl rfl rfl rfl
  | createUser userId =>
      rw [State.step, State.createUser] at h
      split at h
      · cases h
      · next hnew =>
          cases h
          exact .createsUser hnew rfl rfl rfl rfl
  | deleteUser userId =>
      rw [State.step] at h
      split at h
      · next huser =>
          cases h
          exact .deletesUser huser rfl rfl
      · cases h
  | createProject projectId userId =>
      rw [State.step, State.createProject] at h
      split at h
      · cases h
      · next hnew =>
          cases h
          exact .createsProject (not_or.mp hnew).1 rfl rfl rfl rfl
  | deleteProject projectId =>
      rw [State.step] at h
      split at h
      · next hproject =>
          cases h
          exact .deletesProject hproject rfl rfl
      · cases h
  | addMember member =>
      rw [State.step, State.addMember] at h
      split at h
      · cases h
        exact .rests rfl rfl rfl rfl
      · cases h
  | removeMember member =>
      cases h
      exact .rests rfl rfl rfl rfl

/-! ### What is not deleted -/

/-- Users and projects have ids that were issued. -/
structure Issued (s : State MessageId) : Prop where
  users : s.db.users ⊆ s.issued
  projects : s.db.projects ⊆ s.issued

/-- Neither is gone. -/
structure Remain (s : State MessageId) (userId : UserId) (projectId : ProjectId) : Prop where
  user : userId ∈ s.issued → userId ∈ s.db.users
  project : projectId ∈ s.issued → projectId ∈ s.db.projects

omit [LinearOrder MessageId] in
theorem Effect.issued_subset (h : Effect s label t) : s.issued ⊆ t.issued := by
  cases h with
  | createsUser _ _ _ _ hissued => exact hissued ▸ List.subset_cons_self ..
  | createsProject _ _ _ _ hissued => exact hissued ▸ List.subset_cons_self ..
  | rests _ _ _ hissued => exact hissued ▸ List.Subset.refl _
  | marks _ _ _ _ _ hissued => exact hissued ▸ List.Subset.refl _
  | deletesUser _ _ hissued => exact hissued ▸ List.Subset.refl _
  | deletesProject _ _ hissued => exact hissued ▸ List.Subset.refl _

omit [LinearOrder MessageId] in
/-- A user was there before, or is new. -/
theorem Effect.users (h : Effect s label t) {id : UserId} (hid : id ∈ t.db.users) :
    id ∈ s.db.users ∨ (id ∈ t.issued ∧ id ∉ s.issued) := by
  cases h with
  | rests husers _ _ _ => exact .inl (husers ▸ hid)
  | marks _ _ _ _ hdb _ =>
      rw [hdb] at hid
      exact .inl hid
  | createsUser hnew husers _ _ hissued =>
      rw [husers, List.mem_append, List.mem_singleton] at hid
      refine hid.imp_right fun hsame => ?_
      rw [hissued, hsame]
      exact ⟨List.mem_cons_self, hnew⟩
  | createsProject _ husers _ _ _ => exact .inl (husers ▸ hid)
  | deletesUser _ hdb _ =>
      rw [hdb] at hid
      exact .inl (List.mem_filter.mp hid).1
  | deletesProject _ hdb _ =>
      rw [hdb] at hid
      exact .inl hid

omit [LinearOrder MessageId] in
theorem Effect.projects (h : Effect s label t) {id : ProjectId} (hid : id ∈ t.db.projects) :
    id ∈ s.db.projects ∨ (id ∈ t.issued ∧ id ∉ s.issued) := by
  cases h with
  | rests _ hprojects _ _ => exact .inl (hprojects ▸ hid)
  | marks _ _ _ _ hdb _ =>
      rw [hdb] at hid
      exact .inl hid
  | createsUser _ _ hprojects _ _ => exact .inl (hprojects ▸ hid)
  | createsProject hnew _ hprojects _ hissued =>
      rw [hprojects, List.mem_append, List.mem_singleton] at hid
      refine hid.imp_right fun hsame => ?_
      rw [hissued, hsame]
      exact ⟨List.mem_cons_self, hnew⟩
  | deletesUser _ hdb _ =>
      rw [hdb] at hid
      exact .inl hid
  | deletesProject _ hdb _ =>
      rw [hdb] at hid
      exact .inl (List.mem_filter.mp hid).1

omit [LinearOrder MessageId] in
theorem issued_initial (db : Database MessageId) : Issued (.initial db) :=
  ⟨List.subset_append_left .., List.subset_append_right ..⟩

omit [LinearOrder MessageId] in
theorem Effect.issued (h : Effect s label t) (hs : Issued s) : Issued t where
  users _ hid := (h.users hid).elim (fun hold => h.issued_subset (hs.users hold)) And.left
  projects _ hid := (h.projects hid).elim (fun hold => h.issued_subset (hs.projects hold)) And.left

omit [LinearOrder MessageId] in
theorem Effect.remain (h : Effect s label t) {userId : UserId} {projectId : ProjectId} (hremain : Remain t userId projectId) :
    Remain s userId projectId where
  user hid := (h.users (hremain.user (h.issued_subset hid))).resolve_right fun hnew => hnew.2 hid
  project hid := (h.projects (hremain.project (h.issued_subset hid))).resolve_right fun hnew => hnew.2 hid

theorem issued_run {labels : List (Label MessageId)} (hs : Issued s) (hrun : Runs.run State.step s labels = some t) : Issued t := by
  have hkept : Runs.Preserved State.step fun s : State MessageId => Issued s :=
    fun _ _ _ hs hstep => (effect_step hstep).issued hs
  exact hkept.run hs hrun

theorem remain_run {labels : List (Label MessageId)} (hrun : Runs.run State.step s labels = some t) {userId : UserId}
    {projectId : ProjectId} (hremain : Remain t userId projectId) : Remain s userId projectId := by
  induction labels generalizing s with
  | nil =>
      cases hrun
      exact hremain
  | cons label labels ih =>
      obtain ⟨m, hstep, hrest⟩ := Runs.run_cons_eq_some.mp hrun
      exact (effect_step hstep).remain (ih hrest)

/-! ### Marks -/

/-- A mark stays or goes on, as long as there is something to mark. -/
theorem Effect.watermark_le (h : Effect s label t) (hs : Issued s) (horder : InOrder s label) {userId : UserId}
    {projectId : ProjectId} (hremain : Remain t userId projectId) {readState : ChatReadState MessageId}
    (hstate : s.db.chatReadStates userId projectId = some readState) :
    ∃ now ∈ t.db.chatReadStates userId projectId, readState.watermark ≤ now.watermark := by
  have hsame : t.db.chatReadStates = s.db.chatReadStates →
      ∃ now ∈ t.db.chatReadStates userId projectId, readState.watermark ≤ now.watermark :=
    fun hstates => ⟨readState, by rw [hstates]; exact hstate, le_refl _⟩
  cases h with
  | rests _ _ hstates _ => exact hsame hstates
  | createsUser _ _ _ hstates _ => exact hsame hstates
  | createsProject _ _ _ hstates _ => exact hsame hstates
  | @marks id request new hlabel hcall huser hproject hdb _ =>
      rw [hlabel] at horder
      rw [hdb]
      by_cases hmarked : userId = request.userId ∧ projectId = request.projectId
      · refine ⟨new, if_pos hmarked, ?_⟩
        rw [hmarked.1, hmarked.2] at hstate
        exact horder request new hcall huser hproject readState hstate
      · exact ⟨readState, (if_neg hmarked).trans hstate, le_refl _⟩
  | @deletesUser deleted huser hdb hissued =>
      rw [hdb]
      by_cases hdeleted : userId = deleted
      · have hleft := hremain.user (by rw [hissued, hdeleted]; exact hs.users huser)
        rw [hdb, hdeleted] at hleft
        exact absurd rfl (of_decide_eq_true (List.mem_filter.mp hleft).2)
      · exact ⟨readState, (if_neg hdeleted).trans hstate, le_refl _⟩
  | @deletesProject deleted hproject hdb hissued =>
      rw [hdb]
      by_cases hdeleted : projectId = deleted
      · have hleft := hremain.project (by rw [hissued, hdeleted]; exact hs.projects hproject)
        rw [hdb, hdeleted] at hleft
        exact absurd rfl (of_decide_eq_true (List.mem_filter.mp hleft).2)
      · exact ⟨readState, (if_neg hdeleted).trans hstate, le_refl _⟩

theorem watermark_le_run {labels : List (Label MessageId)} (hs : Issued s) (horder : Runs.Along State.step InOrder s labels)
    (hrun : Runs.run State.step s labels = some t) {userId : UserId} {projectId : ProjectId}
    (hremain : Remain t userId projectId) {readState : ChatReadState MessageId}
    (hstate : s.db.chatReadStates userId projectId = some readState) :
    ∃ now ∈ t.db.chatReadStates userId projectId, readState.watermark ≤ now.watermark := by
  induction labels generalizing s readState with
  | nil =>
      cases hrun
      exact ⟨readState, hstate, le_refl _⟩
  | cons label labels ih =>
      obtain ⟨m, hstep, hrest⟩ := Runs.run_cons_eq_some.mp hrun
      have heffect := effect_step hstep
      obtain ⟨next, hnext, hle⟩ := heffect.watermark_le hs horder.1 (remain_run hrest hremain) hstate
      obtain ⟨now, hnow, hle'⟩ := ih (heffect.issued hs) (horder.2 m hstep) hrest hnext
      exact ⟨now, hnow, hle.trans hle'⟩

/-- Of any two states of the run, the later one has no earlier mark, as long as the user and the
project are there. -/
def WatermarksKept (s : State MessageId) (labels : List (Label MessageId)) : Prop :=
  ∀ earlier later t u, earlier ++ later <+: labels → Runs.run State.step s earlier = some t →
    Runs.run State.step t later = some u →
      ∀ userId projectId, userId ∈ u.db.users → projectId ∈ u.db.projects →
        ∀ before ∈ t.db.chatReadStates userId projectId,
          ∃ now ∈ u.db.chatReadStates userId projectId, before.watermark ≤ now.watermark

/-- What makes a project unread after it was marked read lies after the message it was marked up to. -/
def StaysRead (s : State MessageId) (labels : List (Label MessageId)) : Prop :=
  ∀ earlier id later t u, earlier ++ .upsert id :: later <+: labels → Runs.run State.step s earlier = some t →
    Runs.run State.step t (.upsert id :: later) = some u →
      ∀ request readState, t.calls id = some ⟨request, .checked readState⟩ →
        request.userId ∈ t.db.users → request.projectId ∈ t.db.projects →
        request.userId ∈ u.db.users → request.projectId ∈ u.db.projects →
          ∀ message : ChatMessage MessageId, message.projectId = request.projectId →
            Unread u.db request.userId message → readState.watermark < message.position

theorem watermarksKept_of_inOrder {labels : List (Label MessageId)} (hs : Issued s)
    (horder : Runs.Along State.step InOrder s labels) : WatermarksKept s labels := by
  rintro earlier later t u ⟨rest, rfl⟩ hearlier hlater userId projectId huser hproject before hbefore
  exact watermark_le_run (issued_run hs hearlier) (horder.of_append.after hearlier) hlater
    ⟨fun _ => huser, fun _ => hproject⟩ hbefore

theorem inOrder_of_watermarksKept {labels : List (Label MessageId)} (hkept : WatermarksKept s labels) :
    Runs.Along State.step InOrder s labels := by
  rw [Runs.Along.iff_forall_label]
  rintro earlier label later t rfl hrun
  cases label with
  | upsert id =>
      intro request readState hcall huser hproject stored hstored
      have hstep := step_eq_upsert hcall huser hproject
      obtain ⟨now, hnow, hle⟩ := hkept earlier [.upsert id] t _
        ⟨later, by rw [List.append_assoc, List.singleton_append]⟩ hrun (Runs.run_cons_eq_some.mpr ⟨_, hstep, rfl⟩)
        request.userId request.projectId huser hproject stored hstored
      have hsame : now = readState := (Option.some.inj ((if_pos ⟨rfl, rfl⟩).symm.trans hnow)).symm
      rwa [hsame] at hle
  | _ => trivial

theorem staysRead_of_inOrder {labels : List (Label MessageId)} (hs : Issued s)
    (horder : Runs.Along State.step InOrder s labels) : StaysRead s labels := by
  rintro earlier id later t u ⟨rest, rfl⟩ hearlier hlater request readState hcall huser hproject huser' hproject' message hmessage
    ⟨_, hunread⟩
  have hissued := issued_run hs hearlier
  obtain ⟨m, hstep, hrest⟩ := Runs.run_cons_eq_some.mp hlater
  have hwrites : m.db.chatReadStates request.userId request.projectId = some readState := by
    obtain rfl := Option.some.inj ((step_eq_upsert hcall huser hproject).symm.trans hstep)
    exact if_pos ⟨rfl, rfl⟩
  obtain ⟨now, hnow, hle⟩ := watermark_le_run ((effect_step hstep).issued hissued)
    ((horder.of_append.after hearlier).2 m hstep) hrest ⟨fun _ => huser', fun _ => hproject'⟩ hwrites
  rw [hmessage] at hunread
  exact hle.trans_lt (hunread now hnow)

/-- The marks are kept in exactly the runs whose upserts come in the order of what they mark, and
there what is marked read stays read. What `findUnreadProjectIds` returns is right in every run. -/
theorem watermarks_kept_iff (db : Database MessageId) (labels : List (Label MessageId)) :
    (Runs.Along State.step InOrder (.initial db) labels ↔ WatermarksKept (.initial db) labels) ∧
    (Runs.Along State.step InOrder (.initial db) labels → StaysRead (.initial db) labels) ∧
    ∀ (membershipsDb readStatesDb messagesDb : Database MessageId) (userId : UserId) (projectId : ProjectId),
      projectId ∈ findUnreadProjectIds membershipsDb readStatesDb messagesDb userId ↔
        ⟨userId, projectId⟩ ∈ membershipsDb.projectMembers ∧
          ∃ message ∈ messagesDb.chatMessages, message.projectId = projectId ∧ Unread readStatesDb userId message :=
  ⟨⟨watermarksKept_of_inOrder (issued_initial db), inOrder_of_watermarksKept⟩,
    staysRead_of_inOrder (issued_initial db), fun _ _ _ _ _ => mem_findUnreadProjectIds⟩

/-! Two tabs: the one that opened the project first is the last whose mark is processed. -/

def teamChat : Database String where
  users := ["reader", "author"]
  projects := ["p"]
  projectMembers := [⟨"reader", "p"⟩, ⟨"author", "p"⟩]
  chatMessages := [⟨"m1", some "author", "p", "first", 1⟩, ⟨"m2", some "author", "p", "second", 2⟩]
  chatReadStates _ _ := none

def markUpTo (id : String) (createdAt : Int) : Request String := ⟨"p", "reader", ⟨some id, some createdAt⟩⟩

def overtakenMarks : List (Label String) :=
  [.begin 1 (markUpTo "m1" 1), .begin 2 (markUpTo "m2" 2), .assertMembership 1, .assertMembership 2, .upsert 2, .upsert 1]

/-- The second message was marked read, and makes the project unread again. -/
theorem not_staysRead_of_overtakenMarks :
    ¬StaysRead (.initial teamChat) overtakenMarks ∧ ¬WatermarksKept (.initial teamChat) overtakenMarks ∧
      ∃ s, Runs.run State.step (.initial teamChat) overtakenMarks = some s ∧
        "p" ∈ findUnreadProjectIds s.db s.db s.db "reader" := by
  have hruns : (Runs.run State.step (.initial teamChat) (overtakenMarks.take 4)).any fun t =>
      t.calls 2 = some ⟨markUpTo "m2" 2, .checked ⟨2, some "m2"⟩⟩ ∧ "reader" ∈ t.db.users ∧ "p" ∈ t.db.projects ∧
        (Runs.run State.step t (overtakenMarks.drop 4)).any fun u =>
          "reader" ∈ u.db.users ∧ "p" ∈ u.db.projects ∧ u.db.chatReadStates "reader" "p" = some ⟨1, some "m1"⟩ ∧
            "p" ∈ findUnreadProjectIds u.db u.db u.db "reader" := by
    decide +kernel
  obtain ⟨t, hearlier, ht⟩ := (Option.any_eq_true _ _).mp hruns
  obtain ⟨hcall, huser, hproject, hlater⟩ := of_decide_eq_true ht
  obtain ⟨u, hlater, hu⟩ := (Option.any_eq_true _ _).mp hlater
  obtain ⟨huser', hproject', hstate, hunread⟩ := of_decide_eq_true hu
  have hback : (⟨1, some "m1"⟩ : ChatReadState String).watermark < (⟨2, some "m2"⟩ : ChatReadState String).watermark :=
    Prod.Lex.toLex_lt_toLex.mpr (.inl (by decide))
  refine ⟨fun hstays => ?_, fun hkept => ?_, u, ?_, hunread⟩
  · refine lt_irrefl _ (hstays (overtakenMarks.take 4) 2 [.upsert 1] t u List.prefix_rfl hearlier hlater _ _ hcall huser
      hproject huser' hproject' ⟨"m2", some "author", "p", "second", 2⟩ rfl ⟨by decide, fun readState hmem => ?_⟩)
    obtain rfl := Option.some.inj (hstate.symm.trans hmem)
    exact hback
  · obtain ⟨m, hstep, hrest⟩ := Runs.run_cons_eq_some.mp hlater
    have hmarked := Option.some.inj ((step_eq_upsert hcall huser hproject).symm.trans hstep)
    obtain ⟨now, hnow, hle⟩ := hkept (overtakenMarks.take 4 ++ [.upsert 2]) [.upsert 1] m u List.prefix_rfl
      (Runs.run_append_eq_some.mpr ⟨t, hearlier, Runs.run_cons_eq_some.mpr ⟨m, hstep, rfl⟩⟩) hrest "reader" "p" huser' hproject'
      ⟨2, some "m2"⟩ (by rw [← hmarked]; rfl)
    obtain rfl := Option.some.inj (hstate.symm.trans hnow)
    exact absurd hback (not_lt_of_ge hle)
  · exact Runs.run_append_eq_some.mpr ⟨t, hearlier, hlater⟩

end Transcendence.Chat
