import Transcendence.Chat.ReadMarks

/-!
# The unread markers of a page

The store `lib/chatUnreadState.ts` of a signed-in user, beside the server. A fetch of the unread list
is a request, the three statements that `findUnreadProjectIds` runs for it, and its response, with
anything in between; several may be under way. What makes the page fetch the list (its start, a
`connect`, a `chat:deleted` or a `project:deleted`) is left open, and so is how long the event of a
message takes.

A response replaces the markers by what its snapshot had. So a message that was announced after the
snapshot loses its marker, and the markers that survive are those of exactly the runs in which the
snapshot of each response had something unread wherever a marker was due (`markers_kept_iff`).

What is not in the program are `State.created`, the messages there have been so far, and
`State.pending`, those that an event has announced as unread and that have not been read since.
-/

namespace Transcendence.Chat.UnreadStore

deriving instance DecidableEq for ChatMessage

variable {MessageId : Type}

/-- `snapshot` is what the page shows. -/
structure Resource where
  projectIds : List ProjectId
  activeProjectId : Option ProjectId
  snapshot : List ProjectId
  deriving DecidableEq

namespace Resource

def recomputeSnapshot (r : Resource) : Resource :=
  { r with snapshot := r.projectIds.filter fun id => some id ≠ r.activeProjectId }

def setActiveProjectId (r : Resource) (projectId : Option ProjectId) : Resource :=
  if r.activeProjectId = projectId then r else { r with activeProjectId := projectId }.recomputeSnapshot

def markRead (r : Resource) (projectId : ProjectId) : Resource :=
  if projectId ∈ r.projectIds then { r with projectIds := r.projectIds.filter (· ≠ projectId) }.recomputeSnapshot else r

/-- The response of a fetch. -/
def refresh (r : Resource) (ids : List ProjectId) : Resource := { r with projectIds := ids.eraseDups }.recomputeSnapshot

/-- The message is an echo of the user's own, or in the conversation on the screen. -/
def ignores (r : Resource) (currentUserId : Option UserId) (message : ChatMessage MessageId) : Bool :=
  (message.userId ≠ none ∧ message.userId = currentUserId) ∨ some message.projectId = r.activeProjectId

def onCreated (r : Resource) (currentUserId : Option UserId) (message : ChatMessage MessageId) : Resource :=
  if r.ignores currentUserId message then r
  else if message.projectId ∈ r.projectIds then r
  else { r with projectIds := r.projectIds ++ [message.projectId] }.recomputeSnapshot

end Resource

/-- A fetch, with the database as each of its statements has found it. -/
inductive Fetch (MessageId : Type) where
  | requested
  | foundMemberships (membershipsDb : Database MessageId)
  | foundReadStates (membershipsDb readStatesDb : Database MessageId)
  | foundMessages (membershipsDb readStatesDb messagesDb : Database MessageId)

/-- `currentUserId` is that of the session, while it is known. -/
structure State (MessageId : Type) where
  server : Chat.State MessageId
  resource : Resource
  currentUserId : Option UserId
  fetches : Nat → Option (Fetch MessageId)
  created : List (ChatMessage MessageId)
  pending : List (ChatMessage MessageId)

inductive Label (MessageId : Type) where
  | server (label : Chat.Label MessageId)
  | refresh (id : Nat)
  | findMemberships (id : Nat)
  | findReadStates (id : Nat)
  | findMessages (id : Nat)
  | respond (id : Nat)
  | fail (id : Nat)
  /-- A `chat:created` arrives. -/
  | onCreated (message : ChatMessage MessageId)
  /-- A `chat:read` arrives: the user has read the project elsewhere. -/
  | onRead (projectId : ProjectId)
  | markRead (projectId : ProjectId)
  | setActiveProjectId (projectId : Option ProjectId)
  /-- The page knows its session, or does not. -/
  | session (known : Bool)

variable [LinearOrder MessageId]

/-- The message is of someone else and not marked read. -/
def isUnread (db : Database MessageId) (userId : UserId) (message : ChatMessage MessageId) : Bool :=
  message.userId ≠ some userId ∧ unreadCondition message.projectId (db.chatReadStates userId message.projectId) message

namespace State

def initial (db : Database MessageId) : State MessageId where
  server := .initial db
  resource := ⟨[], none, []⟩
  currentUserId := none
  fetches _ := none
  created := db.chatMessages
  pending := []

def setFetch (s : State MessageId) (id : Nat) (fetch : Option (Fetch MessageId)) : State MessageId :=
  { s with fetches := Function.update s.fetches id fetch }

/-- A message that is created may be announced from now on, and one that is marked read is not
pending any more. -/
def onServer (s : State MessageId) (userId : UserId) (label : Chat.Label MessageId) : Option (State MessageId) :=
  (s.server.step label).map fun server =>
    { s with
      server := server
      created :=
        match label with
        | .createMessage message => message :: s.created
        | _ => s.created
      pending := s.pending.filter fun message => isUnread server.db userId message }

def read (s : State MessageId) (projectId : ProjectId) : State MessageId :=
  { s with
    resource := s.resource.markRead projectId
    pending := s.pending.filter fun message => message.projectId ≠ projectId }

def announce (s : State MessageId) (userId : UserId) (message : ChatMessage MessageId) : State MessageId :=
  { s with
    resource := s.resource.onCreated s.currentUserId message
    pending :=
      if !s.resource.ignores s.currentUserId message && isUnread s.server.db userId message then message :: s.pending
      else s.pending }

/-- The steps of the page of the user. -/
def step (userId : UserId) (s : State MessageId) : Label MessageId → Option (State MessageId)
  | .server label => s.onServer userId label
  | .refresh id => if (s.fetches id).isSome then none else some (s.setFetch id (some .requested))
  | .findMemberships id =>
      match s.fetches id with
      | some .requested => some (s.setFetch id (some (.foundMemberships s.server.db)))
      | _ => none
  | .findReadStates id =>
      match s.fetches id with
      | some (.foundMemberships membershipsDb) =>
          some (s.setFetch id (some (.foundReadStates membershipsDb s.server.db)))
      | _ => none
  | .findMessages id =>
      match s.fetches id with
      | some (.foundReadStates membershipsDb readStatesDb) =>
          some (s.setFetch id (some (.foundMessages membershipsDb readStatesDb s.server.db)))
      | _ => none
  | .respond id =>
      match s.fetches id with
      | some (.foundMessages membershipsDb readStatesDb messagesDb) =>
          some { s.setFetch id none with
            resource := s.resource.refresh (findUnreadProjectIds membershipsDb readStatesDb messagesDb userId) }
      | _ => none
  | .fail id => if (s.fetches id).isSome then some (s.setFetch id none) else none
  | .onCreated message => if message ∈ s.created then some (s.announce userId message) else none
  | .onRead projectId => some (s.read projectId)
  | .markRead projectId => some (s.read projectId)
  | .setActiveProjectId projectId => some { s with resource := s.resource.setActiveProjectId projectId }
  | .session known => some { s with currentUserId := if known then some userId else none }

end State

/-! ### What the page shows -/

/-- The page shows the markers of all conversations but the one on the screen. -/
def Resource.Shown (r : Resource) : Prop := r.snapshot = r.projectIds.filter fun id => some id ≠ r.activeProjectId

theorem Resource.shown_recomputeSnapshot (r : Resource) : r.recomputeSnapshot.Shown := rfl

theorem Resource.Shown.setActiveProjectId {r : Resource} (h : r.Shown) (projectId : Option ProjectId) :
    (r.setActiveProjectId projectId).Shown := by
  unfold Resource.setActiveProjectId
  split
  · exact h
  · exact shown_recomputeSnapshot _

theorem Resource.Shown.markRead {r : Resource} (h : r.Shown) (projectId : ProjectId) : (r.markRead projectId).Shown := by
  unfold Resource.markRead
  split
  · exact shown_recomputeSnapshot _
  · exact h

omit [LinearOrder MessageId] in
theorem Resource.Shown.onCreated {r : Resource} (h : r.Shown) (currentUserId : Option UserId)
    (message : ChatMessage MessageId) : (r.onCreated currentUserId message).Shown := by
  unfold Resource.onCreated
  split
  · exact h
  split
  · exact h
  · exact shown_recomputeSnapshot _

theorem Resource.projectIds_setActiveProjectId (r : Resource) (projectId : Option ProjectId) :
    (r.setActiveProjectId projectId).projectIds = r.projectIds := by
  unfold Resource.setActiveProjectId
  split <;> rfl

theorem Resource.mem_markRead {r : Resource} {id projectId : ProjectId} :
    id ∈ (r.markRead projectId).projectIds ↔ id ∈ r.projectIds ∧ id ≠ projectId := by
  unfold Resource.markRead
  split
  · show id ∈ r.projectIds.filter (· ≠ projectId) ↔ _
    rw [List.mem_filter, decide_eq_true_eq]
  · next hnone =>
      rw [iff_self_and]
      intro hid heq
      exact hnone (heq ▸ hid)

omit [LinearOrder MessageId] in
theorem Resource.mem_onCreated {r : Resource} {currentUserId : Option UserId} {message : ChatMessage MessageId}
    {id : ProjectId} :
    id ∈ (r.onCreated currentUserId message).projectIds ↔
      id ∈ r.projectIds ∨ (r.ignores currentUserId message = false ∧ id = message.projectId) := by
  unfold Resource.onCreated
  split
  · next hignores => simp [hignores]
  · next hignores =>
      rw [Bool.not_eq_true] at hignores
      split
      · next hmem =>
          rw [iff_self_or]
          rintro ⟨_, rfl⟩
          exact hmem
      · show id ∈ r.projectIds ++ [message.projectId] ↔ _
        simp [hignores]

theorem Resource.mem_refresh {r : Resource} {ids : List ProjectId} {id : ProjectId} :
    id ∈ (r.refresh ids).projectIds ↔ id ∈ ids := List.mem_eraseDups

theorem isUnread_iff {db : Database MessageId} {userId : UserId} {message : ChatMessage MessageId} :
    isUnread db userId message ↔ Unread db userId message := by
  rw [isUnread, Unread, decide_eq_true_eq, unreadCondition_iff]
  simp only [true_and]

/-! ### Which responses keep the markers -/

variable {userId : UserId} {s t : State MessageId} {label : Label MessageId}

/-- Every project with a message that was announced as unread and has not been read since is marked, and
is shown so unless it is on the screen. -/
def Marked (s : State MessageId) : Prop :=
  ∀ message ∈ s.pending, message.projectId ∈ s.resource.projectIds ∧
    (message.projectId ∈ s.resource.snapshot ∨ s.resource.activeProjectId = some message.projectId)

/-- Where a marker is due when a response arrives, its snapshot had a message of someone else that was not
marked read, in a project of the user. -/
def Covers (userId : UserId) (s : State MessageId) : Label MessageId → Prop
  | .respond id => ∀ membershipsDb readStatesDb messagesDb,
      s.fetches id = some (.foundMessages membershipsDb readStatesDb messagesDb) → ∀ message ∈ s.pending,
        ⟨userId, message.projectId⟩ ∈ membershipsDb.projectMembers ∧
          ∃ other ∈ messagesDb.chatMessages, other.projectId = message.projectId ∧ Unread readStatesDb userId other
  | _ => True

omit [LinearOrder MessageId] in
theorem marked_iff (h : s.resource.Shown) :
    Marked s ↔ ∀ message ∈ s.pending, message.projectId ∈ s.resource.projectIds := by
  refine forall₂_congr fun message hmessage => and_iff_left_of_imp fun hmem => ?_
  rw [h, List.mem_filter, decide_eq_true_eq]
  by_cases hactive : s.resource.activeProjectId = some message.projectId
  · exact Or.inr hactive
  · exact Or.inl ⟨hmem, fun heq => hactive heq.symm⟩

/-- What a step does to the markers, and to the announced messages that are unread. -/
inductive Change (userId : UserId) (s : State MessageId) : Label MessageId → State MessageId → Prop where
  | rests {label : Label MessageId} {t : State MessageId} (hcovers : Covers userId s label)
      (hresource : t.resource = s.resource) (hpending : t.pending ⊆ s.pending) : Change userId s label t
  | announces (message : ChatMessage MessageId) : Change userId s (.onCreated message) (s.announce userId message)
  | reads {label : Label MessageId} (projectId : ProjectId) (hcovers : Covers userId s label) :
      Change userId s label (s.read projectId)
  | opens (projectId : Option ProjectId) :
      Change userId s (.setActiveProjectId projectId) { s with resource := s.resource.setActiveProjectId projectId }
  | responds {id : Nat} {membershipsDb readStatesDb messagesDb : Database MessageId}
      (hfetch : s.fetches id = some (.foundMessages membershipsDb readStatesDb messagesDb)) :
      Change userId s (.respond id) { s.setFetch id none with
        resource := s.resource.refresh (findUnreadProjectIds membershipsDb readStatesDb messagesDb userId) }

theorem step_change (hstep : s.step userId label = some t) : Change userId s label t := by
  cases label with
  | server label =>
      obtain ⟨server, -, rfl⟩ := Option.map_eq_some_iff.mp hstep
      exact .rests trivial rfl List.filter_sublist.subset
  | refresh id =>
      obtain ⟨-, heq⟩ := Option.ite_none_left_eq_some.mp hstep
      obtain rfl := Option.some.inj heq
      exact .rests trivial rfl (List.Subset.refl _)
  | findMemberships id =>
      simp only [State.step] at hstep
      split at hstep <;> cases hstep
      exact .rests trivial rfl (List.Subset.refl _)
  | findReadStates id =>
      simp only [State.step] at hstep
      split at hstep <;> cases hstep
      exact .rests trivial rfl (List.Subset.refl _)
  | findMessages id =>
      simp only [State.step] at hstep
      split at hstep <;> cases hstep
      exact .rests trivial rfl (List.Subset.refl _)
  | respond id =>
      simp only [State.step] at hstep
      split at hstep
      · next hfetch =>
          obtain rfl := Option.some.inj hstep
          exact .responds hfetch
      · cases hstep
  | fail id =>
      obtain ⟨-, heq⟩ := Option.ite_none_right_eq_some.mp hstep
      obtain rfl := Option.some.inj heq
      exact .rests trivial rfl (List.Subset.refl _)
  | onCreated message =>
      obtain ⟨-, heq⟩ := Option.ite_none_right_eq_some.mp hstep
      obtain rfl := Option.some.inj heq
      exact .announces message
  | onRead projectId =>
      obtain rfl := Option.some.inj hstep
      exact .reads projectId trivial
  | markRead projectId =>
      obtain rfl := Option.some.inj hstep
      exact .reads projectId trivial
  | setActiveProjectId projectId =>
      obtain rfl := Option.some.inj hstep
      exact .opens projectId
  | session known =>
      obtain rfl := Option.some.inj hstep
      exact .rests trivial rfl (List.Subset.refl _)

theorem shown_step (h : s.resource.Shown) (hstep : s.step userId label = some t) : t.resource.Shown := by
  cases step_change hstep with
  | rests _ hresource _ => rwa [hresource]
  | announces message => exact h.onCreated s.currentUserId message
  | reads projectId _ => exact h.markRead projectId
  | opens projectId => exact h.setActiveProjectId projectId
  | responds _ => exact Resource.shown_recomputeSnapshot _

/-- The page itself never loses a marker: it adds one with what is announced, and takes one away
only for what is read. -/
theorem marked_announce (h : ∀ message ∈ s.pending, message.projectId ∈ s.resource.projectIds)
    (announced : ChatMessage MessageId) :
    ∀ message ∈ (s.announce userId announced).pending,
      message.projectId ∈ (s.announce userId announced).resource.projectIds := by
  intro message hmessage
  show message.projectId ∈ (s.resource.onCreated s.currentUserId announced).projectIds
  rw [Resource.mem_onCreated]
  unfold State.announce at hmessage
  dsimp only at hmessage
  split at hmessage
  · next hannounced =>
      rw [Bool.and_eq_true, Bool.not_eq_true'] at hannounced
      rcases List.mem_cons.mp hmessage with rfl | hold
      · exact Or.inr ⟨hannounced.1, rfl⟩
      · exact Or.inl (h message hold)
  · exact Or.inl (h message hmessage)

omit [LinearOrder MessageId] in
theorem marked_read (h : ∀ message ∈ s.pending, message.projectId ∈ s.resource.projectIds) (projectId : ProjectId) :
    ∀ message ∈ (s.read projectId).pending, message.projectId ∈ (s.read projectId).resource.projectIds := by
  intro message hmessage
  obtain ⟨hold, hother⟩ := List.mem_filter.mp hmessage
  exact Resource.mem_markRead.mpr ⟨h message hold, of_decide_eq_true hother⟩

/-- A response keeps the markers that its snapshot had. -/
theorem marked_respond_iff {id : Nat} {membershipsDb readStatesDb messagesDb : Database MessageId}
    (hfetch : s.fetches id = some (.foundMessages membershipsDb readStatesDb messagesDb)) :
    (∀ message ∈ s.pending,
      message.projectId ∈ (s.resource.refresh (findUnreadProjectIds membershipsDb readStatesDb messagesDb userId)).projectIds) ↔
      Covers userId s (.respond id) := by
  constructor
  · intro h membershipsDb' readStatesDb' messagesDb' hfetch' message hmessage
    obtain ⟨rfl, rfl, rfl⟩ := Fetch.foundMessages.inj (Option.some.inj (hfetch.symm.trans hfetch'))
    exact mem_findUnreadProjectIds.mp (Resource.mem_refresh.mp (h message hmessage))
  · intro h message hmessage
    exact Resource.mem_refresh.mpr
      (mem_findUnreadProjectIds.mpr (h membershipsDb readStatesDb messagesDb hfetch message hmessage))

theorem marked_step_iff (hshown : s.resource.Shown) (h : Marked s) (hstep : s.step userId label = some t) :
    Marked t ↔ Covers userId s label := by
  rw [marked_iff (shown_step hshown hstep)]
  rw [marked_iff hshown] at h
  cases step_change hstep with
  | rests hcovers hresource hpending =>
      refine iff_of_true (fun message hmessage => ?_) hcovers
      rw [hresource]
      exact h message (hpending hmessage)
  | announces message => exact iff_of_true (marked_announce h message) trivial
  | reads projectId hcovers => exact iff_of_true (marked_read h projectId) hcovers
  | opens projectId =>
      refine iff_of_true (fun message hmessage => ?_) trivial
      rw [Resource.projectIds_setActiveProjectId]
      exact h message hmessage
  | responds hfetch => exact marked_respond_iff hfetch

/-! ### Every run -/

/-- The markers survive in exactly the runs in which every response covers them. -/
theorem markers_kept_iff {db : Database MessageId} {labels : List (Label MessageId)}
    (hrun : Runs.run (State.step userId) (.initial db) labels = some t) :
    Runs.Along (State.step userId) (Covers userId) (.initial db) labels ↔
      ∀ earlier, earlier <+: labels → ∀ u, Runs.run (State.step userId) (.initial db) earlier = some u → Marked u :=
  Runs.Along.iff_forall_prefix (fun _ _ _ hshown hstep => shown_step hshown hstep)
    (fun _ _ _ hshown hmarked hstep => marked_step_iff hshown hmarked hstep) rfl
    (fun _ hmessage => nomatch hmessage) hrun

/-! Two fetches overlap a message: the response of the first, whose snapshot was taken before it, comes
last. -/

def quietChat : Database String where
  users := ["reader", "author"]
  projects := ["p"]
  projectMembers := [⟨"reader", "p"⟩, ⟨"author", "p"⟩]
  chatMessages := []
  chatReadStates _ _ := none

def firstMessage : ChatMessage String := ⟨"m1", some "author", "p", "first", 1⟩

def overtakenSnapshot : List (Label String) :=
  [.session true, .refresh 0, .findMemberships 0, .findReadStates 0, .findMessages 0, .server (.createMessage firstMessage),
    .onCreated firstMessage, .refresh 1, .findMemberships 1, .findReadStates 1, .findMessages 1, .respond 1, .respond 0]

/-- The message was announced and is unread, and nothing marks its project. -/
theorem not_marked_of_overtakenSnapshot :
    ∃ s, Runs.run (State.step "reader") (.initial quietChat) overtakenSnapshot = some s ∧ ¬ Marked s ∧
      Unread s.server.db "reader" firstMessage ∧ s.resource.projectIds = [] := by
  have hruns : (Runs.run (State.step "reader") (.initial quietChat) overtakenSnapshot).any fun s =>
      firstMessage ∈ s.pending ∧ isUnread s.server.db "reader" firstMessage ∧ s.resource.projectIds = [] := by
    decide +kernel
  obtain ⟨s, hrun, hs⟩ := (Option.any_eq_true _ _).mp hruns
  obtain ⟨hpending, hunread, hnone⟩ := of_decide_eq_true hs
  refine ⟨s, hrun, fun hmarked => ?_, isUnread_iff.mp hunread, hnone⟩
  have hmem := (hmarked firstMessage hpending).1
  rw [hnone] at hmem
  exact List.not_mem_nil hmem

/-- The same, with the responses in the order of their fetches and the message announced before the
second. -/
def orderedSnapshots : List (Label String) :=
  [.session true, .refresh 0, .findMemberships 0, .findReadStates 0, .findMessages 0, .server (.createMessage firstMessage),
    .refresh 1, .findMemberships 1, .findReadStates 1, .findMessages 1, .respond 0, .onCreated firstMessage, .respond 1]

def coversCheck (userId : UserId) (s : State MessageId) : Label MessageId → Bool
  | .respond id =>
      match s.fetches id with
      | some (.foundMessages membershipsDb readStatesDb messagesDb) => s.pending.all fun message =>
          (⟨userId, message.projectId⟩ ∈ membershipsDb.projectMembers) && messagesDb.chatMessages.any fun other =>
            (other.projectId = message.projectId) && isUnread readStatesDb userId other
      | _ => true
  | _ => true

theorem covers_of_check {s : State MessageId} {label : Label MessageId} (h : coversCheck userId s label) :
    Covers userId s label := by
  cases label with
  | respond id =>
      intro membershipsDb readStatesDb messagesDb hfetch message hmessage
      rw [coversCheck, hfetch] at h
      have hcovered := List.all_eq_true.mp h message hmessage
      rw [Bool.and_eq_true, decide_eq_true_eq, List.any_eq_true] at hcovered
      obtain ⟨hmember, other, hother, hunread⟩ := hcovered
      rw [Bool.and_eq_true, decide_eq_true_eq, isUnread_iff] at hunread
      exact ⟨hmember, other, hother, hunread⟩
  | _ => trivial

theorem markers_kept_of_orderedSnapshots :
    ∃ s, Runs.run (State.step "reader") (.initial quietChat) orderedSnapshots = some s ∧ Marked s ∧
      firstMessage ∈ s.pending := by
  have hruns : (Runs.run (State.step "reader") (.initial quietChat) orderedSnapshots).any fun s =>
      firstMessage ∈ s.pending := by decide +kernel
  obtain ⟨s, hrun, hpending⟩ := (Option.any_eq_true _ _).mp hruns
  have hcovers : Runs.Along (State.step "reader") (Covers "reader") (.initial quietChat) orderedSnapshots :=
    .of_check (fun _ _ => covers_of_check) (by decide +kernel)
  exact ⟨s, hrun, (markers_kept_iff hrun).mp hcovers _ List.prefix_rfl s hrun, of_decide_eq_true hpending⟩

end Transcendence.Chat.UnreadStore
