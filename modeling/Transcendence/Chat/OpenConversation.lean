import Mathlib.Data.String.Basic
import Transcendence.Chat.History

/-!
# An open conversation

The message list of the chat page (`chat.tsx` with `useLiveItemSync`) while it opens a conversation,
beside the server. A message that is created or deleted is committed first and announced later; what is
announced goes to the page in the order of the announcements. The fetch of the newest page is a request,
the statement that `findAll` runs for it, and its response, and so is the loading of earlier messages.
The answers to what the reader posts and deletes on the page come whenever they come: a message that was
posted is appended by `handleSend`, and one that `handleDelete` has taken away is put back if its DELETE
fails. The guards of these handlers against a change of the conversation compare two values of one
render, so that they hold always.

What is not in the program are `State.used`, the ids there have been, `State.created`, the messages
created since the request, `State.gone`, those whose deletion was delivered, and the database that a
response carries with it.
-/

namespace Transcendence.Chat.OpenConversation

variable {MessageId : Type}

def MESSAGES_PAGE_SIZE : Nat := 50

inductive Event (MessageId : Type) where
  | created (message : ChatMessage MessageId)
  | deleted (message : ChatMessage MessageId)

inductive Fetch (MessageId : Type) where
  | idle
  | requested
  /-- What `findAll` has returned, and the database it has read. -/
  | answered (fetchedMessages : List (ChatMessage MessageId)) (snapshot : Database MessageId)
  | applied
  | failed

/-- `handleLoadEarlier`: while it is loading its button is disabled. -/
inductive Earlier (MessageId : Type) where
  | idle
  | requested (projectId : ProjectId) (first : ChatMessage MessageId)
  | answered (older : List (ChatMessage MessageId))

structure State (MessageId : Type) where
  server : Chat.State MessageId
  used : List MessageId
  /-- Committed, and still to be emitted. -/
  unannounced : List (Event MessageId)
  /-- On its way to the page. -/
  queue : List (Event MessageId)
  fetch : Fetch MessageId
  earlier : Earlier MessageId
  messages : List (ChatMessage MessageId)
  /-- Created by the reader; those that were posted on the page are to be answered. -/
  posted : List (ChatMessage MessageId)
  /-- Taken away by the reader, until the DELETE is answered. -/
  deleting : List (ChatMessage MessageId)
  created : List (ChatMessage MessageId)
  gone : List (ChatMessage MessageId)

inductive Label (MessageId : Type) where
  | server (label : Chat.Label MessageId)
  /-- `emitToProject` for one of the commits that are still to be announced. -/
  | emit (index : Nat)
  | deliver
  | request
  | findAll
  | apply
  | fail
  /-- A POST of the page is answered. -/
  | sent (index : Nat)
  | delete (id : MessageId)
  | deleted (index : Nat)
  /-- A DELETE of the page fails, or its answer is lost. -/
  | notDeleted (index : Nat)
  /-- The project is that of the conversation the page shows. -/
  | loadEarlier (selectedProjectId : ProjectId)
  | findEarlier
  | prepend
  | failEarlier

/-- Before the request nothing is kept for it. -/
def Fetch.begun : Fetch MessageId → Bool
  | .idle => false
  | _ => true

def ids (messages : List (ChatMessage MessageId)) : List MessageId := messages.map (·.id)

section Messages

variable [DecidableEq MessageId]

/-- A message at the end of the list, unless it is there. -/
def append (messages : List (ChatMessage MessageId)) (message : ChatMessage MessageId) : List (ChatMessage MessageId) :=
  if messages.any (·.id = message.id) then messages else messages ++ [message]

/-- `handleCreated` of `useLiveItemSync`. -/
def handleCreated (projectId : ProjectId) (messages : List (ChatMessage MessageId)) (createdItem : ChatMessage MessageId) :
    List (ChatMessage MessageId) :=
  if createdItem.projectId ≠ projectId then messages else append messages createdItem

/-- `handleDeleted` of `useLiveItemSync`. -/
def handleDeleted (projectId : ProjectId) (messages : List (ChatMessage MessageId)) (deletedItem : ChatMessage MessageId) :
    List (ChatMessage MessageId) :=
  if deletedItem.projectId ≠ projectId then messages else messages.filter (·.id ≠ deletedItem.id)

/-- `handleDelete` when its DELETE has failed. -/
def putBack (messages : List (ChatMessage MessageId)) (message : ChatMessage MessageId) : List (ChatMessage MessageId) :=
  if messages.any (·.id = message.id) then messages
  else (messages ++ [message]).insertionSort fun a b => a.createdAt ≤ b.createdAt

end Messages

variable [LinearOrder MessageId]

namespace State

def initial (db : Database MessageId) (messages : List (ChatMessage MessageId)) : State MessageId where
  server := .initial db
  used := db.chatMessages.map (·.id)
  unannounced := []
  queue := []
  fetch := .idle
  earlier := .idle
  messages := messages
  posted := []
  deleting := []
  created := []
  gone := []

/-- The id of a new message is new; only a message that is there can be deleted. -/
def onServer (userId : UserId) (s : State MessageId) (label : Chat.Label MessageId) : Option (State MessageId) :=
  match label with
  | .createMessage message =>
      if message.id ∈ s.used then none
      else
        (s.server.step label).map fun server =>
          { s with
            server := server
            used := message.id :: s.used
            unannounced := s.unannounced ++ [.created message]
            posted := if message.userId = some userId then message :: s.posted else s.posted
            created := if s.fetch.begun then message :: s.created else s.created }
  | .removeMessage id =>
      (s.server.db.chatMessages.find? (·.id = id)).bind fun message =>
        (s.server.step label).map fun server =>
          { s with server := server, unannounced := s.unannounced ++ [.deleted message] }
  | _ => (s.server.step label).map fun server => { s with server := server }

def handle (s : State MessageId) (projectId : ProjectId) : Event MessageId → State MessageId
  | .created message => { s with messages := handleCreated projectId s.messages message }
  | .deleted message => { s with messages := handleDeleted projectId s.messages message, gone := message :: s.gone }

/-- The page of a user at a project. -/
def step (userId : UserId) (projectId : ProjectId) (s : State MessageId) : Label MessageId → Option (State MessageId)
  | .server label => s.onServer userId label
  | .emit index =>
      (s.unannounced[index]?).map fun event =>
        { s with unannounced := s.unannounced.eraseIdx index, queue := s.queue ++ [event] }
  | .deliver =>
      match s.queue with
      | event :: queue => some ({ s with queue := queue }.handle projectId event)
      | [] => none
  | .request =>
      match s.fetch with
      | .idle => some { s with fetch := .requested }
      | _ => none
  | .findAll =>
      match s.fetch with
      | .requested =>
          some { s with
            fetch :=
              match Chat.findAll s.server.db projectId userId ⟨none, none, some MESSAGES_PAGE_SIZE⟩ with
              | .ok fetchedMessages => .answered fetchedMessages s.server.db
              | .error _ => .failed }
      | _ => none
  | .apply =>
      match s.fetch with
      | .answered fetchedMessages _ => some { s with fetch := .applied, messages := fetchedMessages }
      | _ => none
  | .fail =>
      match s.fetch with
      | .requested => some { s with fetch := .failed }
      | .answered .. => some { s with fetch := .failed }
      | _ => none
  | .sent index =>
      (s.posted[index]?).map fun created =>
        { s with posted := s.posted.eraseIdx index, messages := append s.messages created }
  | .delete id =>
      (s.messages.find? (·.id = id)).map fun message =>
        { s with messages := s.messages.filter (·.id ≠ message.id), deleting := message :: s.deleting }
  | .deleted index =>
      -- the DELETE is answered once it has deleted the message
      (s.deleting[index]?).bind fun message =>
        if message.id ∈ ids s.server.db.chatMessages then none
        else some { s with deleting := s.deleting.eraseIdx index }
  | .notDeleted index =>
      (s.deleting[index]?).map fun message =>
        { s with deleting := s.deleting.eraseIdx index, messages := putBack s.messages message }
  | .loadEarlier selectedProjectId =>
      match s.earlier, s.messages with
      | .idle, first :: _ =>
          if s.fetch.begun = true ∧ selectedProjectId ≠ projectId then none
          else some { s with earlier := .requested selectedProjectId first }
      | _, _ => none
  | .findEarlier =>
      match s.earlier with
      | .requested selectedProjectId first =>
          some { s with
            earlier :=
              match Chat.findAll s.server.db selectedProjectId userId
                ⟨some first.id, some first.createdAt, some MESSAGES_PAGE_SIZE⟩ with
              | .ok older => .answered older
              | .error _ => .idle }
      | _ => none
  | .prepend =>
      match s.earlier with
      | .answered older => some { s with earlier := .idle, messages := older ++ s.messages }
      | _ => none
  | .failEarlier =>
      match s.earlier with
      | .requested .. => some { s with earlier := .idle }
      | .answered _ => some { s with earlier := .idle }
      | _ => none

end State

/-! ### The messages of the server -/

variable {userId : UserId} {projectId : ProjectId} {s t : State MessageId} {message other : ChatMessage MessageId}

/-- The message has not been deleted. -/
def State.Exists (s : State MessageId) (message : ChatMessage MessageId) : Prop :=
  message.id ∈ ids s.server.db.chatMessages

/-- What creates no message only takes messages away, or their authors. -/
theorem ids_sublist_of_step {server server' : Chat.State MessageId} {label : Chat.Label MessageId}
    (hlabel : ∀ message, label ≠ .createMessage message) (hstep : server.step label = some server') :
    (ids server'.db.chatMessages).Sublist (ids server.db.chatMessages) := by
  cases label with
  | begin id request =>
      obtain ⟨-, heq⟩ := Option.ite_none_left_eq_some.mp hstep
      obtain rfl := Option.some.inj heq
      exact List.Sublist.refl _
  | assertMembership id =>
      obtain ⟨call, -, heq⟩ := Option.bind_eq_some_iff.mp hstep
      split at heq <;> cases heq
      exact List.Sublist.refl _
  | upsert id =>
      obtain ⟨call, -, heq⟩ := Option.bind_eq_some_iff.mp hstep
      split at heq
      · split at heq <;> cases heq <;> exact List.Sublist.refl _
      · cases heq
  | abort id =>
      obtain ⟨call, -, heq⟩ := Option.bind_eq_some_iff.mp hstep
      split at heq <;> cases heq
      exact List.Sublist.refl _
  | createMessage message => exact absurd rfl (hlabel message)
  | removeMessage id =>
      obtain rfl := Option.some.inj hstep
      exact List.filter_sublist.map _
  | createUser userId =>
      obtain ⟨-, heq⟩ := Option.ite_none_left_eq_some.mp hstep
      obtain rfl := Option.some.inj heq
      exact List.Sublist.refl _
  | deleteUser userId =>
      obtain ⟨-, heq⟩ := Option.ite_none_right_eq_some.mp hstep
      obtain rfl := Option.some.inj heq
      rw [ids, ids, Database.deleteUser, List.map_map]
      exact List.Sublist.refl _
  | createProject projectId userId =>
      obtain ⟨-, heq⟩ := Option.ite_none_left_eq_some.mp hstep
      obtain rfl := Option.some.inj heq
      exact List.Sublist.refl _
  | deleteProject projectId =>
      obtain ⟨-, heq⟩ := Option.ite_none_right_eq_some.mp hstep
      obtain rfl := Option.some.inj heq
      exact List.filter_sublist.map _
  | addMember member =>
      obtain ⟨-, heq⟩ := Option.ite_none_right_eq_some.mp hstep
      obtain rfl := Option.some.inj heq
      exact List.Sublist.refl _
  | removeMember member =>
      obtain rfl := Option.some.inj hstep
      exact List.Sublist.refl _

theorem ids_createMessage {server server' : Chat.State MessageId} (hstep : server.step (.createMessage message) = some server') :
    ids server'.db.chatMessages = ids server.db.chatMessages ++ [message.id] := by
  obtain ⟨-, heq⟩ := Option.ite_none_right_eq_some.mp hstep
  obtain rfl := Option.some.inj heq
  exact List.map_append

theorem ids_removeMessage {server server' : Chat.State MessageId} {id : MessageId}
    (hstep : server.step (.removeMessage id) = some server') : id ∉ ids server'.db.chatMessages := by
  obtain rfl := Option.some.inj hstep
  intro hmem
  obtain ⟨row, hrow, heq⟩ := List.mem_map.mp hmem
  exact absurd heq (of_decide_eq_true (List.mem_filter.mp hrow).2)

/-! ### The page of the snapshot -/

/-- Fewer than a page of messages of the project are newer. -/
def InPage (db : Database MessageId) (projectId : ProjectId) (message : ChatMessage MessageId) : Prop :=
  message ∈ history db projectId ∧ (history db projectId).countP (key message < key ·) < MESSAGES_PAGE_SIZE

omit [LinearOrder MessageId] in
theorem key_nodup {db : Database MessageId} (h : (ids db.chatMessages).Nodup) (projectId : ProjectId) :
    ((history db projectId).map key).Nodup := by
  have hids : ((history db projectId).map (·.id)).Nodup := h.sublist (List.filter_sublist.map _)
  rw [List.Nodup, List.pairwise_map] at hids ⊢
  exact hids.imp fun hne heq => hne (congrArg (fun key => (ofLex key).2) heq)

/-- What `findAll` returns are the newest messages, each once. -/
theorem mem_findAll {db : Database MessageId} (h : (ids db.chatMessages).Nodup)
    {fetchedMessages : List (ChatMessage MessageId)}
    (hfetched : Chat.findAll db projectId userId ⟨none, none, some MESSAGES_PAGE_SIZE⟩ = .ok fetchedMessages) :
    (ids fetchedMessages).Nodup ∧ ∀ message, message ∈ fetchedMessages ↔ InPage db projectId message := by
  have hmember : ⟨userId, projectId⟩ ∈ db.projectMembers := by
    by_contra hmember
    rw [Chat.findAll, if_pos hmember] at hfetched
    cases hfetched
  have hpage := findAll_eq hmember MESSAGES_PAGE_SIZE ([] : List (ChatMessage MessageId))
  obtain rfl := Except.ok.inj (hpage.symm.trans hfetched)
  have hkeys := key_nodup h projectId
  refine ⟨?_, fun message => Keyset.mem_page_none_iff hkeys⟩
  rw [ids, List.Nodup, List.pairwise_map]
  refine (Keyset.page_sorted hkeys).imp_of_mem fun hfirst hsecond hlt heq => ?_
  have hrow := (Keyset.mem_of_mem_page hfirst).1
  have hrow' := (Keyset.mem_of_mem_page hsecond).1
  have hsame := List.inj_on_of_nodup_map h (List.mem_of_mem_filter hrow) (List.mem_of_mem_filter hrow') heq
  rw [hsame] at hlt
  exact lt_irrefl _ hlt

/-- What `findAll` returns before a cursor has each message once. -/
theorem nodup_findAll {db : Database MessageId} (h : (ids db.chatMessages).Nodup) {selectedProjectId : ProjectId}
    {query : FindChatMessagesDto MessageId} {older : List (ChatMessage MessageId)}
    (hfound : Chat.findAll db selectedProjectId userId query = .ok older) : (ids older).Nodup := by
  rw [Chat.findAll] at hfound
  split at hfound
  · cases hfound
  · obtain rfl := Except.ok.inj hfound
    rw [ids, List.map_reverse, List.nodup_reverse]
    refine List.Nodup.sublist ((List.take_sublist _ _).map _) ?_
    rw [((List.perm_insertionSort newerOrSame _).map _).nodup_iff]
    exact h.sublist (List.filter_sublist.map _)

/-! ### What every step keeps -/

structure Sound (userId : UserId) (projectId : ProjectId) (s : State MessageId) : Prop where
  nodup : (ids s.server.db.chatMessages).Nodup
  used : ids s.server.db.chatMessages ⊆ s.used
  created : ids s.created ⊆ s.used
  /-- What is announced as deleted, or is going to be, does not come back. -/
  deleted : ∀ message, .deleted message ∈ s.unannounced ∨ .deleted message ∈ s.queue ∨ message ∈ s.gone →
    message.id ∈ s.used ∧ ¬ s.Exists message
  answered : ∀ fetchedMessages snapshot, s.fetch = .answered fetchedMessages snapshot →
    Chat.findAll snapshot projectId userId ⟨none, none, some MESSAGES_PAGE_SIZE⟩ = .ok fetchedMessages ∧
      (ids snapshot.chatMessages).Nodup
  earlier : ∀ older, s.earlier = .answered older → (ids older).Nodup

theorem sound_initial {db : Database MessageId} (hids : (ids db.chatMessages).Nodup)
    (messages : List (ChatMessage MessageId)) : Sound userId projectId (State.initial db messages) := by
  refine ⟨hids, List.Subset.refl _, List.nil_subset _, fun message h => ?_, fun _ _ h => ?_, fun _ h => ?_⟩
  · rcases h with h | h | h <;> cases h
  · cases h
  · cases h

/-- What the server does without creating a message and without announcing anything. -/
theorem Sound.ofServer (h : Sound userId projectId s) {server : Chat.State MessageId}
    (hsub : (ids server.db.chatMessages).Sublist (ids s.server.db.chatMessages)) :
    Sound userId projectId { s with server := server } :=
  ⟨h.nodup.sublist hsub, fun _ hid => h.used (hsub.subset hid), h.created,
    fun message hdeleted => ⟨(h.deleted message hdeleted).1, fun hexists => (h.deleted message hdeleted).2 (hsub.subset hexists)⟩,
    h.answered, h.earlier⟩

theorem Sound.createMessage (h : Sound userId projectId s) {server : Chat.State MessageId}
    (hstep : s.server.step (.createMessage message) = some server) (hnew : message.id ∉ s.used)
    {created : List (ChatMessage MessageId)} (hcreated : created ⊆ message :: s.created)
    (posted : List (ChatMessage MessageId)) :
    Sound userId projectId { s with
      server := server
      used := message.id :: s.used
      unannounced := s.unannounced ++ [.created message]
      posted := posted
      created := created } := by
  have hids := ids_createMessage hstep
  refine ⟨?_, ?_, ?_, fun gone hgone => ?_, h.answered, h.earlier⟩
  · show (ids server.db.chatMessages).Nodup
    rw [hids, ← List.concat_eq_append]
    exact h.nodup.concat fun hmem => hnew (h.used hmem)
  · show ids server.db.chatMessages ⊆ message.id :: s.used
    rw [hids]
    intro id hid
    rcases List.mem_append.mp hid with hold | hlast
    · exact List.mem_cons_of_mem _ (h.used hold)
    · rw [List.mem_singleton.mp hlast]
      exact List.mem_cons_self
  · intro id hid
    obtain ⟨other, hother, rfl⟩ := List.mem_map.mp hid
    rcases List.mem_cons.mp (hcreated hother) with rfl | hold
    · exact List.mem_cons_self
    · exact List.mem_cons_of_mem _ (h.created (List.mem_map_of_mem hold))
  · have hold : .deleted gone ∈ s.unannounced ∨ .deleted gone ∈ s.queue ∨ gone ∈ s.gone := by
      refine hgone.imp_left fun hmem => ?_
      rcases List.mem_append.mp hmem with hmem | hlast
      · exact hmem
      · exact nomatch List.mem_singleton.mp hlast
    have hdeleted := h.deleted gone hold
    refine ⟨List.mem_cons_of_mem _ hdeleted.1, fun hexists => ?_⟩
    have hexists' : gone.id ∈ ids server.db.chatMessages := hexists
    rw [hids, List.mem_append, List.mem_singleton] at hexists'
    rcases hexists' with hmem | heq
    · exact hdeleted.2 hmem
    · exact hnew (heq ▸ hdeleted.1)

theorem Sound.removeMessage (h : Sound userId projectId s) {server : Chat.State MessageId} {id : MessageId}
    (hfound : s.server.db.chatMessages.find? (·.id = id) = some message)
    (hstep : s.server.step (.removeMessage id) = some server) :
    Sound userId projectId { s with server := server, unannounced := s.unannounced ++ [.deleted message] } := by
  have hlabel : ∀ message, Chat.Label.removeMessage id ≠ .createMessage message := fun _ heq => nomatch heq
  have hsub : (ids server.db.chatMessages).Sublist (ids s.server.db.chatMessages) :=
    ids_sublist_of_step hlabel hstep
  have hserver := h.ofServer hsub
  refine ⟨hserver.nodup, hserver.used, hserver.created, fun gone hgone => ?_, hserver.answered, hserver.earlier⟩
  by_cases hsame : gone = message
  · have hid : message.id = id := by simpa using List.find?_some hfound
    subst hsame
    refine ⟨h.used (List.mem_map_of_mem (List.mem_of_find?_eq_some hfound)), fun hexists => ?_⟩
    exact ids_removeMessage hstep (hid ▸ hexists)
  · refine hserver.deleted gone (hgone.imp_left fun hmem => ?_)
    rcases List.mem_append.mp hmem with hmem | hlast
    · exact hmem
    · exact absurd (Event.deleted.inj (List.mem_singleton.mp hlast)) hsame

theorem Sound.onServer (h : Sound userId projectId s) {label : Chat.Label MessageId}
    (hstep : s.onServer userId label = some t) : Sound userId projectId t := by
  unfold State.onServer at hstep
  split at hstep
  · next message =>
      obtain ⟨hnew, hstep⟩ := Option.ite_none_left_eq_some.mp hstep
      obtain ⟨server, hserver, rfl⟩ := Option.map_eq_some_iff.mp hstep
      refine h.createMessage hserver hnew ?_ _
      split
      · exact List.Subset.refl _
      · exact List.subset_cons_self ..
  · obtain ⟨message, hfound, hstep⟩ := Option.bind_eq_some_iff.mp hstep
    obtain ⟨server, hserver, rfl⟩ := Option.map_eq_some_iff.mp hstep
    exact h.removeMessage hfound hserver
  · next hcreate _ =>
      obtain ⟨server, hserver, rfl⟩ := Option.map_eq_some_iff.mp hstep
      exact h.ofServer (ids_sublist_of_step (fun message heq => hcreate message heq) hserver)

omit [LinearOrder MessageId] in
/-- An event that is emitted is still to be delivered. -/
theorem mem_emit {unannounced queue : List (Event MessageId)} {event emitted : Event MessageId} {index : Nat}
    (hemitted : unannounced[index]? = some emitted) :
    (event ∈ unannounced.eraseIdx index ∨ event ∈ queue ++ [emitted]) ↔ event ∈ unannounced ∨ event ∈ queue := by
  have hmem : event ∈ unannounced ↔ ∃ i, unannounced[i]? = some event := List.mem_iff_getElem?
  rw [List.mem_eraseIdx_iff_getElem?, List.mem_append, List.mem_singleton, hmem]
  constructor
  · rintro (⟨i, -, hi⟩ | hqueue | rfl)
    · exact Or.inl ⟨i, hi⟩
    · exact Or.inr hqueue
    · exact Or.inl ⟨index, hemitted⟩
  · rintro (⟨i, hi⟩ | hqueue)
    · by_cases hindex : i = index
      · rw [hindex, hemitted] at hi
        exact Or.inr (Or.inr (Option.some.inj hi).symm)
      · exact Or.inl ⟨i, hindex, hi⟩
    · exact Or.inr (Or.inl hqueue)

theorem Sound.deliver (h : Sound userId projectId s) {event : Event MessageId} {queue : List (Event MessageId)}
    (hqueue : s.queue = event :: queue) : Sound userId projectId ({ s with queue := queue }.handle projectId event) := by
  have hrest : ∀ message, .deleted message ∈ queue → .deleted message ∈ s.queue :=
    fun message hmem => hqueue ▸ List.mem_cons_of_mem _ hmem
  cases event with
  | created message =>
      refine ⟨h.nodup, h.used, h.created, fun gone hgone => ?_, h.answered, h.earlier⟩
      exact h.deleted gone (hgone.imp_right (Or.imp_left (hrest gone)))
  | deleted message =>
      refine ⟨h.nodup, h.used, h.created, fun gone hgone => h.deleted gone ?_, h.answered, h.earlier⟩
      refine hgone.imp_right fun hgone => ?_
      rcases hgone with hmem | hmem
      · exact Or.inl (hrest gone hmem)
      · rcases List.mem_cons.mp hmem with rfl | hold
        · exact Or.inl (hqueue ▸ List.mem_cons_self)
        · exact Or.inr hold

theorem Sound.step (h : Sound userId projectId s) {label : Label MessageId}
    (hstep : s.step userId projectId label = some t) : Sound userId projectId t := by
  cases label with
  | server label => exact h.onServer hstep
  | emit index =>
      obtain ⟨event, hevent, rfl⟩ := Option.map_eq_some_iff.mp hstep
      refine ⟨h.nodup, h.used, h.created, fun gone hgone => h.deleted gone ?_, h.answered, h.earlier⟩
      rw [← or_assoc] at hgone ⊢
      exact hgone.imp_left (mem_emit hevent).mp
  | deliver =>
      simp only [State.step] at hstep
      split at hstep
      · next hqueue =>
          obtain rfl := Option.some.inj hstep
          exact h.deliver hqueue
      · cases hstep
  | findAll =>
      simp only [State.step] at hstep
      split at hstep
      · obtain rfl := Option.some.inj hstep
        refine ⟨h.nodup, h.used, h.created, h.deleted, fun fetchedMessages snapshot hfetch => ?_, h.earlier⟩
        dsimp only at hfetch
        split at hfetch
        · next hfound =>
            obtain ⟨rfl, rfl⟩ := Fetch.answered.inj hfetch
            exact ⟨hfound, h.nodup⟩
        · cases hfetch
      · cases hstep
  | request | apply | fail =>
      simp only [State.step] at hstep
      split at hstep <;> cases hstep <;>
        exact ⟨h.nodup, h.used, h.created, h.deleted, (fun _ _ heq => nomatch heq), h.earlier⟩
  | sent index | delete id | notDeleted index =>
      obtain ⟨message, -, rfl⟩ := Option.map_eq_some_iff.mp hstep
      exact ⟨h.nodup, h.used, h.created, h.deleted, h.answered, h.earlier⟩
  | deleted index =>
      obtain ⟨message, -, hstep⟩ := Option.bind_eq_some_iff.mp hstep
      obtain ⟨-, hstep⟩ := Option.ite_none_left_eq_some.mp hstep
      obtain rfl := Option.some.inj hstep
      exact ⟨h.nodup, h.used, h.created, h.deleted, h.answered, h.earlier⟩
  | findEarlier =>
      simp only [State.step] at hstep
      split at hstep
      · obtain rfl := Option.some.inj hstep
        refine ⟨h.nodup, h.used, h.created, h.deleted, h.answered, fun older hearlier => ?_⟩
        dsimp only at hearlier
        split at hearlier
        · next hfound =>
            obtain rfl := Earlier.answered.inj hearlier
            exact nodup_findAll h.nodup hfound
        · cases hearlier
      · cases hstep
  | loadEarlier selectedProjectId =>
      simp only [State.step] at hstep
      split at hstep
      · split at hstep <;> cases hstep
        exact ⟨h.nodup, h.used, h.created, h.deleted, h.answered, fun _ heq => nomatch heq⟩
      · cases hstep
  | prepend | failEarlier =>
      simp only [State.step] at hstep
      split at hstep <;> cases hstep <;>
        exact ⟨h.nodup, h.used, h.created, h.deleted, h.answered, fun _ heq => nomatch heq⟩

end Transcendence.Chat.OpenConversation
