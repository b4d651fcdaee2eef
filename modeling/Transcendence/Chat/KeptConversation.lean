import Transcendence.Chat.OpenConversation

/-!
# An open conversation that is kept

The response of the fetch replaces the list, whatever has been delivered since the request. So what
arrives between the snapshot and the response is undone: a message that was created is lost, and one
that was deleted comes back. What is put into the list later does not look at what was deleted either.
The list is right in exactly the runs in which the snapshot knew of what was delivered before its
response, and nothing is put into the list that does not fit there any more
(`conversation_kept_iff`).
-/

namespace Transcendence.Chat.OpenConversation

variable {MessageId : Type} [LinearOrder MessageId] {userId : UserId} {projectId : ProjectId} {s t : State MessageId}
  {message other : ChatMessage MessageId} {messages messages' : List (ChatMessage MessageId)}

/-! ### The handlers -/

/-- The list after a message is put into it, unless its id is there. -/
structure Puts (messages : List (ChatMessage MessageId)) (message : ChatMessage MessageId)
    (messages' : List (ChatMessage MessageId)) : Prop where
  same : message.id ∈ ids messages → messages' = messages
  perm : message.id ∉ ids messages → messages'.Perm (message :: messages)

theorem any_id_iff : messages.any (·.id = message.id) = true ↔ message.id ∈ ids messages := by
  rw [List.any_eq_true, ids, List.mem_map]
  exact exists_congr fun row => and_congr_right fun _ => decide_eq_true_iff

theorem puts_append (messages : List (ChatMessage MessageId)) (message : ChatMessage MessageId) :
    Puts messages message (append messages message) where
  same h := if_pos (any_id_iff.mpr h)
  perm h := by
    rw [append, if_neg (mt any_id_iff.mp h)]
    exact List.perm_append_singleton message messages

theorem puts_putBack (messages : List (ChatMessage MessageId)) (message : ChatMessage MessageId) :
    Puts messages message (putBack messages message) where
  same h := if_pos (any_id_iff.mpr h)
  perm h := by
    rw [putBack, if_neg (mt any_id_iff.mp h)]
    exact (List.perm_insertionSort _ _).trans (List.perm_append_singleton message messages)

theorem Puts.mem_ids (h : Puts messages message messages') {id : MessageId} :
    id ∈ ids messages' ↔ id ∈ ids messages ∨ id = message.id := by
  by_cases hmem : message.id ∈ ids messages
  · rw [h.same hmem, iff_self_or]
    rintro rfl
    exact hmem
  · rw [ids, ((h.perm hmem).map _).mem_iff, List.map_cons, List.mem_cons, or_comm]
    rfl

theorem mem_ids_filter {id removed : MessageId} :
    id ∈ ids (messages.filter (·.id ≠ removed)) ↔ id ∈ ids messages ∧ id ≠ removed := by
  constructor
  · intro hmem
    obtain ⟨row, hrow, rfl⟩ := List.mem_map.mp hmem
    obtain ⟨hrow, hne⟩ := List.mem_filter.mp hrow
    exact ⟨List.mem_map_of_mem hrow, of_decide_eq_true hne⟩
  · rintro ⟨hmem, hne⟩
    obtain ⟨row, hrow, rfl⟩ := List.mem_map.mp hmem
    exact List.mem_map_of_mem (List.mem_filter.mpr ⟨hrow, decide_eq_true hne⟩)

/-! ### Which steps keep the list right -/

/-- Committed, emitted and delivered. -/
def State.Delivered (s : State MessageId) (message : ChatMessage MessageId) : Prop :=
  .created message ∉ s.unannounced ∧ .created message ∉ s.queue

/-- Created since the request, delivered, still there, and not taken away by the reader. -/
structure State.Due (s : State MessageId) (message : ChatMessage MessageId) : Prop where
  created : message ∈ s.created
  present : s.Exists message
  delivered : s.Delivered message
  kept : message.id ∉ ids s.deleting

/-- The message is one of the conversation, and its deletion has not been delivered. -/
structure Fits (projectId : ProjectId) (s : State MessageId) (message : ChatMessage MessageId) : Prop where
  inScope : message.projectId = projectId
  notGone : ∀ other ∈ s.gone, other.projectId = projectId → other.id ≠ message.id

/-- The list has messages of the conversation, each once, among them those that are due, and none whose
deletion is delivered. -/
structure Right (projectId : ProjectId) (s : State MessageId) : Prop where
  nodup : (ids s.messages).Nodup
  fits : ∀ message ∈ s.messages, Fits projectId s message
  due : ∀ message, s.Due message → message.projectId = projectId → message.id ∈ ids s.messages

/-- The list is right once the response is applied. -/
def Kept (projectId : ProjectId) (s : State MessageId) : Prop :=
  s.fetch = .applied → Right projectId s

/-- What is delivered before the response is applied was known to its snapshot. After it, a message is put
into the list only if it fits there: by the announcement of its creation, by the answer to its POST, by the
failure of its DELETE and, where the list does not have it yet, with the messages before those in it. -/
def Covers (projectId : ProjectId) (s : State MessageId) : Label MessageId → Prop
  | .apply => ∀ fetchedMessages snapshot, s.fetch = .answered fetchedMessages snapshot →
      (∀ message, s.Due message → message.projectId = projectId →
        ∃ row, InPage snapshot projectId row ∧ row.id = message.id) ∧
      ∀ message ∈ s.gone, message.projectId = projectId → ¬ ∃ row, InPage snapshot projectId row ∧ row.id = message.id
  | .deliver => s.fetch = .applied → ∀ message queue, s.queue = .created message :: queue →
      message.projectId = projectId → message.id ∉ ids s.messages → Fits projectId s message
  | .sent index => s.fetch = .applied → ∀ message, s.posted[index]? = some message →
      message.id ∉ ids s.messages → Fits projectId s message
  | .notDeleted index => s.fetch = .applied → ∀ message, s.deleting[index]? = some message →
      message.id ∉ ids s.messages → Fits projectId s message
  | .prepend => s.fetch = .applied → ∀ older, s.earlier = .answered older →
      ∀ message ∈ older, message.id ∉ ids s.messages ∧ Fits projectId s message
  | _ => True

omit [LinearOrder MessageId] in
theorem Right.notGone (h : Right projectId s) (hmem : other ∈ s.gone) (hproject : other.projectId = projectId) :
    other.id ∉ ids s.messages := by
  intro hid
  obtain ⟨shown, hshown, heq⟩ := List.mem_map.mp hid
  exact (h.fits shown hshown).notGone other hmem hproject heq.symm

omit [LinearOrder MessageId] in
/-- A step that leaves the list and the deletions delivered as they are. -/
theorem Kept.of_rests (h : Kept projectId s) (hfetch : t.fetch = s.fetch) (hmessages : t.messages = s.messages)
    (hgone : t.gone = s.gone) (hdue : ∀ message, t.Due message → s.Due message) : Kept projectId t := by
  intro happlied
  have hright := h (hfetch ▸ happlied)
  refine ⟨hmessages ▸ hright.nodup, fun message hmem => ?_, fun message hdue' hproject => ?_⟩
  · have hfits := hright.fits message (hmessages ▸ hmem)
    exact ⟨hfits.inScope, fun other hother => hfits.notGone other (hgone ▸ hother)⟩
  · rw [hmessages]
    exact hright.due message (hdue message hdue') hproject

/-- A step that puts one message into the list. -/
theorem Kept.puts_iff (h : Kept projectId s) (hputs : Puts s.messages message t.messages) (hfetch : t.fetch = s.fetch)
    (hgone : t.gone = s.gone) (hdue : ∀ other, t.Due other → other.id = message.id ∨ s.Due other) :
    Kept projectId t ↔ (s.fetch = .applied → message.id ∉ ids s.messages → Fits projectId s message) := by
  constructor
  · intro ht happlied hnew
    have hmem : message ∈ t.messages := (hputs.perm hnew).mem_iff.mpr List.mem_cons_self
    have hfits := (ht (hfetch.trans happlied)).fits message hmem
    exact ⟨hfits.inScope, fun other hother => hfits.notGone other (hgone ▸ hother)⟩
  · intro hcovers happlied
    have happlied' : s.fetch = .applied := hfetch.symm.trans happlied
    have hright := h happlied'
    have hin : ∀ other, t.Due other → other.projectId = projectId → other.id ∈ ids t.messages := by
      intro other hother hproject
      rw [hputs.mem_ids]
      rcases hdue other hother with heq | hother
      · exact Or.inr heq
      · exact Or.inl (hright.due other hother hproject)
    have hfits : ∀ other, Fits projectId s other → Fits projectId t other :=
      fun other hother => ⟨hother.inScope, fun deleted hdeleted => hother.notGone deleted (hgone ▸ hdeleted)⟩
    by_cases hmem : message.id ∈ ids s.messages
    · have hsame := hputs.same hmem
      refine ⟨hsame ▸ hright.nodup, fun other hother => ?_, hin⟩
      exact hfits other (hright.fits other (hsame ▸ hother))
    · have hperm := hputs.perm hmem
      refine ⟨?_, fun other hother => hfits other ?_, hin⟩
      · rw [ids, (hperm.map _).nodup_iff, List.map_cons, List.nodup_cons]
        exact ⟨hmem, hright.nodup⟩
      · rcases List.mem_cons.mp (hperm.mem_iff.mp hother) with rfl | hold
        · exact hcovers happlied' hmem
        · exact hright.fits other hold

/-! ### The steps of the server -/

theorem Kept.onServer (hsound : Sound userId projectId s) (h : Kept projectId s) {label : Chat.Label MessageId}
    (hstep : s.onServer userId label = some t) : Kept projectId t := by
  unfold State.onServer at hstep
  split at hstep
  · next created =>
      obtain ⟨hnew, hstep⟩ := Option.ite_none_left_eq_some.mp hstep
      obtain ⟨server, hserver, rfl⟩ := Option.map_eq_some_iff.mp hstep
      refine h.of_rests rfl rfl rfl fun message ⟨hmem, hexists, hdelivered, hkept⟩ => ?_
      have hold : message ∈ s.created := by
        dsimp only at hmem
        split at hmem
        · rcases List.mem_cons.mp hmem with rfl | hold
          · exact absurd (List.mem_append_right _ List.mem_cons_self) hdelivered.1
          · exact hold
        · exact hmem
      refine ⟨hold, ?_, ⟨fun hmem => hdelivered.1 (List.mem_append_left _ hmem), hdelivered.2⟩, hkept⟩
      have hexists' : message.id ∈ ids server.db.chatMessages := hexists
      rw [ids_createMessage hserver, List.mem_append, List.mem_singleton] at hexists'
      refine hexists'.resolve_right fun heq => hnew ?_
      exact heq ▸ hsound.created (List.mem_map_of_mem hold)
  · next id =>
      obtain ⟨deleted, -, hstep⟩ := Option.bind_eq_some_iff.mp hstep
      obtain ⟨server, hserver, rfl⟩ := Option.map_eq_some_iff.mp hstep
      have hlabel : ∀ message, Chat.Label.removeMessage id ≠ .createMessage message := fun _ heq => nomatch heq
      refine h.of_rests rfl rfl rfl fun message ⟨hmem, hexists, hdelivered, hkept⟩ => ?_
      exact ⟨hmem, (ids_sublist_of_step hlabel hserver).subset hexists,
        ⟨fun hmem => hdelivered.1 (List.mem_append_left _ hmem), hdelivered.2⟩, hkept⟩
  · next hcreate _ =>
      obtain ⟨server, hserver, rfl⟩ := Option.map_eq_some_iff.mp hstep
      refine h.of_rests rfl rfl rfl fun message ⟨hmem, hexists, hdelivered, hkept⟩ => ?_
      exact ⟨hmem, (ids_sublist_of_step (fun message heq => hcreate message heq) hserver).subset hexists, hdelivered, hkept⟩

omit [LinearOrder MessageId] in
theorem delivered_emit {event : Event MessageId} {index : Nat} (hevent : s.unannounced[index]? = some event)
    (hdelivered : State.Delivered { s with unannounced := s.unannounced.eraseIdx index, queue := s.queue ++ [event] }
      message) : s.Delivered message := by
  rw [State.Delivered, ← not_or] at hdelivered ⊢
  exact fun hmem => hdelivered ((mem_emit hevent).mpr hmem)

/-! ### The steps of the page -/

omit [LinearOrder MessageId] in
/-- What is neither the next event nor behind it is not on its way. -/
theorem created_not_mem_queue {event : Event MessageId} {queue : List (Event MessageId)} (hqueue : s.queue = event :: queue)
    {other : ChatMessage MessageId} (hne : .created other ≠ event) (hbehind : .created other ∉ queue) :
    .created other ∉ s.queue := by
  rw [hqueue, List.mem_cons, not_or]
  exact ⟨hne, hbehind⟩

/-- The next event is a creation. -/
theorem kept_created_iff (h : Kept projectId s) {queue : List (Event MessageId)}
    (hqueue : s.queue = .created message :: queue) :
    Kept projectId ({ s with queue := queue }.handle projectId (.created message)) ↔ Covers projectId s .deliver := by
  have hdue : ∀ other : ChatMessage MessageId,
      State.Due ({ s with queue := queue }.handle projectId (.created message)) other → other ≠ message → s.Due other := by
    intro other ⟨hmem, hexists, hdelivered, hkept⟩ hne
    have hqueued := created_not_mem_queue hqueue (fun heq => hne (Event.created.inj heq)) hdelivered.2
    exact ⟨hmem, hexists, ⟨hdelivered.1, hqueued⟩, hkept⟩
  by_cases hscope : message.projectId = projectId
  · have hputs : Puts s.messages message (handleCreated projectId s.messages message) := by
      rw [handleCreated, if_neg (not_not.mpr hscope)]
      exact puts_append s.messages message
    have hiff : Kept projectId ({ s with queue := queue }.handle projectId (.created message)) ↔
        (s.fetch = .applied → message.id ∉ ids s.messages → Fits projectId s message) := by
      refine h.puts_iff hputs rfl rfl fun other hother => ?_
      by_cases hsame : other = message
      · exact Or.inl (congrArg _ hsame)
      · exact Or.inr (hdue other hother hsame)
    refine hiff.trans ⟨fun hfits happlied created rest hhead _ hnew => ?_, fun hcovers happlied hnew => ?_⟩
    · obtain ⟨hsame, -⟩ := List.cons.inj (hqueue.symm.trans hhead)
      obtain rfl := Event.created.inj hsame
      exact hfits happlied hnew
    · exact hcovers happlied message queue hqueue hscope hnew
  · have hmessages : handleCreated projectId s.messages message = s.messages := if_pos hscope
    refine iff_of_true (fun happlied => ?_) fun _ created rest hhead hproject => ?_
    · have hright := h happlied
      refine ⟨(congrArg ids hmessages) ▸ hright.nodup, fun other hother => ?_, fun other hother hproject => ?_⟩
      · have hfits := hright.fits other (hmessages ▸ hother)
        exact ⟨hfits.inScope, hfits.notGone⟩
      · show other.id ∈ ids (handleCreated projectId s.messages message)
        rw [hmessages]
        exact hright.due other (hdue other hother fun heq => hscope (heq ▸ hproject)) hproject
    · obtain ⟨hsame, -⟩ := List.cons.inj (hqueue.symm.trans hhead)
      exact absurd (Event.created.inj hsame ▸ hproject) hscope

/-- The next event is a deletion: what it takes away does not exist. -/
theorem Kept.deleted (hsound : Sound userId projectId s) (h : Kept projectId s) {queue : List (Event MessageId)}
    (hqueue : s.queue = .deleted message :: queue) :
    Kept projectId ({ s with queue := queue }.handle projectId (.deleted message)) := by
  intro happlied
  have hright := h happlied
  have hgone := hsound.deleted message (Or.inr (Or.inl (hqueue ▸ List.mem_cons_self)))
  have hdue : ∀ other, State.Due ({ s with queue := queue }.handle projectId (.deleted message)) other → s.Due other := by
    intro other ⟨hmem, hexists, hdelivered, hkept⟩
    have hqueued := created_not_mem_queue hqueue (fun heq => nomatch heq) hdelivered.2
    exact ⟨hmem, hexists, ⟨hdelivered.1, hqueued⟩, hkept⟩
  by_cases hscope : message.projectId = projectId
  · have hmessages : handleDeleted projectId s.messages message = s.messages.filter (·.id ≠ message.id) :=
      if_neg (not_not.mpr hscope)
    refine ⟨?_, fun other hother => ?_, fun other hother hproject => ?_⟩
    · show (ids (handleDeleted projectId s.messages message)).Nodup
      rw [hmessages]
      exact hright.nodup.sublist (List.filter_sublist.map _)
    · have hother' : other ∈ handleDeleted projectId s.messages message := hother
      rw [hmessages] at hother'
      obtain ⟨hold, hne⟩ := List.mem_filter.mp hother'
      have hfits := hright.fits other hold
      refine ⟨hfits.inScope, fun deleted hdeleted hproject heq => ?_⟩
      rcases List.mem_cons.mp hdeleted with rfl | hdeleted
      · exact of_decide_eq_true hne heq.symm
      · exact hfits.notGone deleted hdeleted hproject heq
    · show other.id ∈ ids (handleDeleted projectId s.messages message)
      rw [hmessages, mem_ids_filter]
      refine ⟨hright.due other (hdue other hother) hproject, fun heq => hgone.2 ?_⟩
      have hexists : other.id ∈ ids s.server.db.chatMessages := (hdue other hother).present
      exact (show message.id ∈ ids s.server.db.chatMessages from heq ▸ hexists)
  · have hmessages : handleDeleted projectId s.messages message = s.messages := if_pos hscope
    refine ⟨(congrArg ids hmessages) ▸ hright.nodup, fun other hother => ?_, fun other hother hproject => ?_⟩
    · have hfits := hright.fits other (hmessages ▸ hother)
      refine ⟨hfits.inScope, fun deleted hdeleted hproject => ?_⟩
      rcases List.mem_cons.mp hdeleted with rfl | hdeleted
      · exact absurd hproject hscope
      · exact hfits.notGone deleted hdeleted hproject
    · show other.id ∈ ids (handleDeleted projectId s.messages message)
      rw [hmessages]
      exact hright.due other (hdue other hother) hproject

/-- The response is applied. -/
theorem kept_apply_iff (hsound : Sound userId projectId s) (hstep : s.step userId projectId .apply = some t) :
    Kept projectId t ↔ Covers projectId s .apply := by
  simp only [State.step] at hstep
  split at hstep
  · next fetchedMessages snapshot hfetch =>
      obtain rfl := Option.some.inj hstep
      obtain ⟨hfound, hnodup⟩ := hsound.answered fetchedMessages snapshot hfetch
      obtain ⟨honce, hmem⟩ := mem_findAll hnodup hfound
      have hpage : ∀ id, id ∈ ids fetchedMessages ↔ ∃ row, InPage snapshot projectId row ∧ row.id = id := by
        intro id
        rw [ids, List.mem_map]
        exact exists_congr fun row => and_congr_left' (hmem row)
      constructor
      · intro ht fetchedMessages' snapshot' hfetch'
        obtain ⟨rfl, rfl⟩ := Fetch.answered.inj (hfetch.symm.trans hfetch')
        have hright := ht rfl
        refine ⟨fun message hdue hproject => ?_, fun message hgone hproject hrow => ?_⟩
        · exact (hpage message.id).mp (hright.due message ⟨hdue.created, hdue.present, hdue.delivered, hdue.kept⟩ hproject)
        · exact hright.notGone hgone hproject ((hpage message.id).mpr hrow)
      · intro hcovers _
        obtain ⟨hshown, hnone⟩ := hcovers fetchedMessages snapshot hfetch
        refine ⟨honce, fun message hrow => ⟨?_, fun other hgone hproject heq => ?_⟩, fun message hdue hproject => ?_⟩
        · exact of_decide_eq_true (List.mem_filter.mp ((hmem message).mp hrow).1).2
        · exact hnone other hgone hproject ⟨message, (hmem message).mp hrow, heq.symm⟩
        · refine (hpage message.id).mpr (hshown message ?_ hproject)
          exact ⟨hdue.created, hdue.present, hdue.delivered, hdue.kept⟩
  · cases hstep

omit [LinearOrder MessageId] in
/-- An id is one of the rest or that of the message which is taken out. -/
theorem mem_ids_of_eraseIdx {index : Nat} (hat : messages[index]? = some message) {id : MessageId}
    (hid : id ∈ ids messages) : id = message.id ∨ id ∈ ids (messages.eraseIdx index) := by
  obtain ⟨row, hrow, rfl⟩ := List.mem_map.mp hid
  obtain ⟨i, hi⟩ := List.mem_iff_getElem?.mp hrow
  by_cases hindex : i = index
  · rw [hindex, hat] at hi
    exact Or.inl (congrArg _ (Option.some.inj hi).symm)
  · exact Or.inr (List.mem_map_of_mem (List.mem_eraseIdx_iff_getElem?.mpr ⟨i, hindex, hi⟩))

/-- The reader takes a message away. -/
theorem Kept.delete (h : Kept projectId s) {id : MessageId} (hstep : s.step userId projectId (.delete id) = some t) :
    Kept projectId t := by
  obtain ⟨message, -, rfl⟩ := Option.map_eq_some_iff.mp hstep
  intro happlied
  have hright := h happlied
  refine ⟨hright.nodup.sublist (List.filter_sublist.map _), fun other hother => ?_, fun other hdue hproject => ?_⟩
  · have hfits := hright.fits other (List.mem_of_mem_filter hother)
    exact ⟨hfits.inScope, hfits.notGone⟩
  · obtain ⟨hmem, hexists, hdelivered, hkept⟩ := hdue
    have hkept' : other.id ∉ message.id :: ids s.deleting := hkept
    rw [List.mem_cons, not_or] at hkept'
    exact mem_ids_filter.mpr ⟨hright.due other ⟨hmem, hexists, hdelivered, hkept'.2⟩ hproject, hkept'.1⟩

/-- Messages are put in front of the list. -/
theorem kept_prepend_iff (hsound : Sound userId projectId s) (h : Kept projectId s)
    (hstep : s.step userId projectId .prepend = some t) : Kept projectId t ↔ Covers projectId s .prepend := by
  simp only [State.step] at hstep
  split at hstep
  · next older hearlier =>
      obtain rfl := Option.some.inj hstep
      have hids : ids (older ++ s.messages) = ids older ++ ids s.messages := List.map_append
      constructor
      · intro ht happlied older' hearlier' message hmem
        obtain rfl := Earlier.answered.inj (hearlier.symm.trans hearlier')
        have hright := ht happlied
        have hfits := hright.fits message (List.mem_append_left _ hmem)
        refine ⟨fun hid => ?_, hfits.inScope, hfits.notGone⟩
        have hnodup : (ids older ++ ids s.messages).Nodup := hids ▸ hright.nodup
        exact (List.nodup_append.mp hnodup).2.2 _ (List.mem_map_of_mem hmem) _ hid rfl
      · intro hcovers happlied
        have hright := h happlied
        have hfit := hcovers happlied older hearlier
        refine ⟨?_, fun message hmem => ?_, fun message hdue hproject => ?_⟩
        · show (ids (older ++ s.messages)).Nodup
          rw [hids, List.nodup_append]
          refine ⟨hsound.earlier older hearlier, hright.nodup, fun id hid id' hid' heq => ?_⟩
          obtain ⟨message, hmem, rfl⟩ := List.mem_map.mp hid
          exact (hfit message hmem).1 (heq ▸ hid')
        · rcases List.mem_append.mp hmem with hmem | hmem
          · exact ⟨(hfit message hmem).2.inScope, (hfit message hmem).2.notGone⟩
          · exact ⟨(hright.fits message hmem).inScope, (hright.fits message hmem).notGone⟩
        · show message.id ∈ ids (older ++ s.messages)
          rw [hids]
          refine List.mem_append_right _ (hright.due message ?_ hproject)
          exact ⟨hdue.created, hdue.present, hdue.delivered, hdue.kept⟩
  · cases hstep

theorem kept_step_iff {label : Label MessageId} (hsound : Sound userId projectId s) (h : Kept projectId s)
    (hstep : s.step userId projectId label = some t) : Kept projectId t ↔ Covers projectId s label := by
  cases label with
  | apply => exact kept_apply_iff hsound hstep
  | prepend => exact kept_prepend_iff hsound h hstep
  | deliver =>
      simp only [State.step] at hstep
      split at hstep
      · next event queue hqueue =>
          obtain rfl := Option.some.inj hstep
          cases event with
          | created message => exact kept_created_iff h hqueue
          | deleted message =>
              refine iff_of_true (h.deleted hsound hqueue) ?_
              intro _ created rest hhead
              cases hqueue.symm.trans hhead
      · cases hstep
  | sent index =>
      obtain ⟨message, hat, rfl⟩ := Option.map_eq_some_iff.mp hstep
      refine Iff.trans (h.puts_iff (puts_append s.messages message) rfl rfl fun other hdue => Or.inr ?_)
        (forall_congr' fun _ => ⟨fun hfits other hother => ?_, fun hcovers => hcovers message hat⟩)
      · exact ⟨hdue.created, hdue.present, hdue.delivered, hdue.kept⟩
      · cases hat.symm.trans hother
        exact hfits
  | notDeleted index =>
      obtain ⟨message, hat, rfl⟩ := Option.map_eq_some_iff.mp hstep
      refine Iff.trans (h.puts_iff (puts_putBack s.messages message) rfl rfl fun other hdue => ?_)
        (forall_congr' fun _ => ⟨fun hfits other hother => ?_, fun hcovers => hcovers message hat⟩)
      · by_cases hid : other.id ∈ ids s.deleting
        · exact Or.inl ((mem_ids_of_eraseIdx hat hid).resolve_right hdue.kept)
        · exact Or.inr ⟨hdue.created, hdue.present, hdue.delivered, hid⟩
      · cases hat.symm.trans hother
        exact hfits
  | server label => exact iff_of_true (h.onServer hsound hstep) trivial
  | delete id => exact iff_of_true (h.delete hstep) trivial
  | deleted index =>
      obtain ⟨message, hat, hstep⟩ := Option.bind_eq_some_iff.mp hstep
      obtain ⟨hgone, hstep⟩ := Option.ite_none_left_eq_some.mp hstep
      obtain rfl := Option.some.inj hstep
      refine iff_of_true (h.of_rests rfl rfl rfl fun other hdue => ?_) trivial
      refine ⟨hdue.created, hdue.present, hdue.delivered, fun hid => ?_⟩
      have hexists : other.id ∈ ids s.server.db.chatMessages := hdue.present
      exact hgone ((mem_ids_of_eraseIdx hat hid).resolve_right hdue.kept ▸ hexists)
  | emit index =>
      obtain ⟨event, hevent, rfl⟩ := Option.map_eq_some_iff.mp hstep
      refine iff_of_true (h.of_rests rfl rfl rfl fun message hdue => ?_) trivial
      exact ⟨hdue.created, hdue.present, delivered_emit hevent hdue.delivered, hdue.kept⟩
  | request =>
      simp only [State.step] at hstep
      split at hstep <;> cases hstep
      refine iff_of_true (fun happlied => ?_) trivial
      cases happlied
  | findAll =>
      simp only [State.step] at hstep
      split at hstep
      · obtain rfl := Option.some.inj hstep
        refine iff_of_true (fun happlied => ?_) trivial
        dsimp only at happlied
        split at happlied <;> cases happlied
      · cases hstep
  | fail =>
      simp only [State.step] at hstep
      split at hstep <;> cases hstep <;> refine iff_of_true (fun happlied => ?_) trivial <;> cases happlied
  | loadEarlier selectedProjectId =>
      simp only [State.step] at hstep
      split at hstep
      · split at hstep <;> cases hstep
        refine iff_of_true (h.of_rests rfl rfl rfl fun message hdue => ?_) trivial
        exact ⟨hdue.created, hdue.present, hdue.delivered, hdue.kept⟩
      · cases hstep
  | findEarlier | failEarlier =>
      simp only [State.step] at hstep
      split at hstep <;> cases hstep <;> refine iff_of_true (h.of_rests rfl rfl rfl fun message hdue => ?_) trivial <;>
        exact ⟨hdue.created, hdue.present, hdue.delivered, hdue.kept⟩

/-! ### Every run -/

/-- The response is applied, all that was committed is delivered, and no DELETE of the page is to be
answered. -/
structure Settled (s : State MessageId) : Prop where
  applied : s.fetch = .applied
  unannounced : s.unannounced = []
  queue : s.queue = []
  deleting : s.deleting = []

/-- The list has every message created since the request and not deleted once, and none whose deletion was
delivered. -/
structure Complete (projectId : ProjectId) (s : State MessageId) : Prop where
  once : ∀ message ∈ s.created, message.projectId = projectId → s.Exists message →
    (ids s.messages).count message.id = 1
  gone : ∀ message ∈ s.gone, ∀ shown ∈ s.messages, shown.projectId = message.projectId → shown.id ≠ message.id

theorem Kept.complete (h : Kept projectId s) (hsettled : Settled s) : Complete projectId s := by
  have hright := h hsettled.applied
  refine ⟨fun message hmem hproject hexists => ?_, fun message hmem shown hshow hsame heq => ?_⟩
  · refine List.count_eq_one_of_mem hright.nodup (hright.due message ⟨hmem, hexists, ⟨?_, ?_⟩, ?_⟩ hproject)
    · rw [hsettled.unannounced]
      exact List.not_mem_nil
    · rw [hsettled.queue]
      exact List.not_mem_nil
    · rw [hsettled.deleting]
      exact List.not_mem_nil
  · have hfits := hright.fits shown hshow
    exact hfits.notGone message hmem (hsame.symm.trans hfits.inScope) heq.symm

/-- The list is kept right in exactly the runs whose steps meet the condition, and there the conversation
is complete once all is delivered. -/
theorem conversation_kept_iff {db : Database MessageId} (hids : (db.chatMessages.map (·.id)).Nodup)
    {messages : List (ChatMessage MessageId)} {labels : List (Label MessageId)}
    (hrun : Runs.run (State.step userId projectId) (.initial db messages) labels = some t) :
    (Runs.Along (State.step userId projectId) (Covers projectId) (.initial db messages) labels ↔
      ∀ earlier, earlier <+: labels → ∀ u,
        Runs.run (State.step userId projectId) (.initial db messages) earlier = some u → Kept projectId u) ∧
    (Runs.Along (State.step userId projectId) (Covers projectId) (.initial db messages) labels → Settled t →
      Complete projectId t) := by
  have hsound : Sound userId projectId (State.initial db messages) := sound_initial hids messages
  have hkept : Kept projectId (State.initial db messages) := fun happlied => nomatch happlied
  have hpreserved : Runs.Preserved (State.step userId projectId : State MessageId → _) (Sound userId projectId) :=
    fun _ _ _ hs hstep => Sound.step hs hstep
  have hkeeps : ∀ ⦃u : State MessageId⦄ ⦃label v⦄, Sound userId projectId u → Kept projectId u →
      u.step userId projectId label = some v → (Kept projectId v ↔ Covers projectId u label) :=
    fun _ _ _ hu hk hstep => kept_step_iff hu hk hstep
  have hiff := Runs.Along.iff_forall_prefix hpreserved hkeeps hsound hkept hrun
  refine ⟨hiff, fun halong hsettled => ?_⟩
  exact (hiff.mp halong labels List.prefix_rfl t hrun).complete hsettled

/-- A check that is enough for a message that is put into the list. -/
def fitsCheck (projectId : ProjectId) (s : State MessageId) (message : ChatMessage MessageId) : Bool :=
  (message.projectId = projectId) && s.gone.all fun other => other.id ≠ message.id

/-- A check that is enough for `Covers`. -/
def coversCheck (projectId : ProjectId) (s : State MessageId) : Label MessageId → Bool
  | .apply =>
      match s.fetch with
      | .answered _ snapshot =>
          (s.created.all fun message => (history snapshot projectId).any fun row =>
            row.id = message.id && (history snapshot projectId).countP (key row < key ·) < MESSAGES_PAGE_SIZE) &&
          s.gone.all fun message => (history snapshot projectId).all fun row => row.id ≠ message.id
      | _ => true
  | .deliver =>
      match s.queue with
      | .created message :: _ => fitsCheck projectId s message
      | _ => true
  | .sent index => (s.posted[index]?).all (fitsCheck projectId s)
  | .notDeleted index => (s.deleting[index]?).all (fitsCheck projectId s)
  | .prepend =>
      match s.earlier with
      | .answered older => older.all fun message => (s.messages.all fun shown => shown.id ≠ message.id) && fitsCheck projectId s message
      | _ => true
  | _ => true

theorem fits_of_check (h : fitsCheck projectId s message) : Fits projectId s message := by
  simp only [fitsCheck, Bool.and_eq_true, List.all_eq_true, decide_eq_true_eq] at h
  exact ⟨h.1, fun other hother _ => h.2 other hother⟩

theorem covers_of_check {label : Label MessageId} (h : coversCheck projectId s label) : Covers projectId s label := by
  cases label with
  | apply =>
      intro fetchedMessages snapshot hfetch
      simp only [coversCheck, hfetch, Bool.and_eq_true, List.all_eq_true, List.any_eq_true, decide_eq_true_eq] at h
      refine ⟨fun message hdue _ => ?_, fun message hmem _ hpage => ?_⟩
      · obtain ⟨row, hrow, hid, hcount⟩ := h.1 message hdue.created
        exact ⟨row, ⟨hrow, hcount⟩, hid⟩
      · obtain ⟨row, ⟨hrow, -⟩, hid⟩ := hpage
        exact h.2 message hmem row hrow hid
  | deliver =>
      intro _ message queue hqueue _ _
      simp only [coversCheck, hqueue] at h
      exact fits_of_check h
  | sent index =>
      intro _ message hat _
      simp only [coversCheck, hat, Option.all_some] at h
      exact fits_of_check h
  | notDeleted index =>
      intro _ message hat _
      simp only [coversCheck, hat, Option.all_some] at h
      exact fits_of_check h
  | prepend =>
      intro _ older hearlier message hmem
      simp only [coversCheck, hearlier, List.all_eq_true, Bool.and_eq_true, decide_eq_true_eq] at h
      refine ⟨fun hid => ?_, fits_of_check (h message hmem).2⟩
      obtain ⟨shown, hshown, heq⟩ := List.mem_map.mp hid
      exact (h message hmem).1 shown hshown heq
  | _ => trivial

/-! A message that is posted after the snapshot of the history and delivered before its response. -/

def quietProject : Database String where
  users := ["reader", "author"]
  projects := ["p"]
  projectMembers := [⟨"reader", "p"⟩, ⟨"author", "p"⟩]
  chatMessages := []
  chatReadStates _ _ := none

def posted : ChatMessage String := ⟨"m1", some "author", "p", "first", 1⟩

def overtaken : List (Label String) :=
  [.request, .findAll, .server (.createMessage posted), .emit 0, .deliver, .apply]

/-- What the examples look at in the state that is reached. -/
def settledWith (s : State MessageId) (present messages : List MessageId) : Bool :=
  s.unannounced.isEmpty && s.queue.isEmpty && s.deleting.isEmpty && (ids s.server.db.chatMessages = present) &&
    (ids s.messages = messages) &&
    match s.fetch with
    | .applied => true
    | _ => false

theorem settled_of_settledWith {present messages : List MessageId} (h : settledWith s present messages) :
    Settled s ∧ ids s.server.db.chatMessages = present ∧ ids s.messages = messages := by
  simp only [settledWith, Bool.and_eq_true, decide_eq_true_eq, List.isEmpty_iff] at h
  obtain ⟨⟨⟨⟨⟨hunannounced, hqueue⟩, hdeleting⟩, hpresent⟩, hmessages⟩, hfetch⟩ := h
  split at hfetch
  · next happlied => exact ⟨⟨happlied, hunannounced, hqueue, hdeleting⟩, hpresent, hmessages⟩
  · cases hfetch

/-- The message is on the server and was delivered, and the list does not have it. -/
theorem not_complete_of_overtaken :
    ∃ s, Runs.run (State.step "reader" "p") (.initial quietProject []) overtaken = some s ∧ Settled s ∧
      ¬ Complete "p" s ∧ posted ∈ s.created ∧ s.Exists posted := by
  have hruns : (Runs.run (State.step "reader" "p") (.initial quietProject []) overtaken).any fun s =>
      settledWith s ["m1"] [] := by decide +kernel
  have hcreated : (Runs.run (State.step "reader" "p") (.initial quietProject []) overtaken).map (·.created) =
      some [posted] := by rfl
  obtain ⟨s, hrun, hs⟩ := (Option.any_eq_true _ _).mp hruns
  obtain ⟨hsettled, hpresent, hmessages⟩ := settled_of_settledWith hs
  rw [hrun, Option.map_some, Option.some.injEq] at hcreated
  have hposted : posted ∈ s.created := hcreated ▸ List.mem_cons_self
  have hthere : s.Exists posted := by
    rw [State.Exists, hpresent]
    exact List.mem_cons_self
  refine ⟨s, hrun, hsettled, fun hcomplete => ?_, hposted, hthere⟩
  have honce := hcomplete.once posted hposted rfl hthere
  rw [hmessages] at honce
  cases honce

/-- The answer to a POST comes after the message was deleted. -/
example : (Runs.run (State.step "author" "p") (.initial quietProject [])
    [.request, .findAll, .apply, .server (.createMessage posted), .emit 0, .deliver, .server (.removeMessage "m1"), .emit 0,
      .deliver, .sent 0]).any (fun s => settledWith s [] ["m1"]) := by decide +kernel

/-- A message before the snapshot and one after the response; a third is deleted meanwhile, and a fourth is
posted and deleted on the page. -/
def inTime : List (Label String) :=
  [.request, .server (.createMessage posted), .findAll, .emit 0, .deliver, .apply,
    .server (.createMessage ⟨"m2", some "author", "p", "second", 2⟩),
    .server (.createMessage ⟨"m3", some "reader", "p", "third", 3⟩), .sent 0, .emit 0, .emit 0, .deliver,
    .server (.removeMessage "m2"), .emit 0, .deliver, .deliver,
    .server (.createMessage ⟨"m4", some "reader", "p", "fourth", 4⟩), .sent 0, .delete "m4",
    .server (.removeMessage "m4"), .deleted 0, .emit 0, .deliver, .emit 0, .deliver]

theorem conversation_kept_of_inTime :
    ∃ s, Runs.run (State.step "reader" "p") (.initial quietProject []) inTime = some s ∧ ids s.messages = ["m1", "m3"] ∧
      Complete "p" s := by
  have hruns : (Runs.run (State.step "reader" "p") (.initial quietProject []) inTime).any fun s =>
      settledWith s ["m1", "m3"] ["m1", "m3"] := by decide +kernel
  obtain ⟨s, hrun, hs⟩ := (Option.any_eq_true _ _).mp hruns
  obtain ⟨hsettled, -, hmessages⟩ := settled_of_settledWith hs
  have hcovers : Runs.Along (State.step "reader" "p") (Covers "p") (.initial quietProject []) inTime :=
    .of_check (fun _ _ => covers_of_check) (by decide +kernel)
  have hids : (quietProject.chatMessages.map (·.id)).Nodup := List.nodup_nil
  exact ⟨s, hrun, hmessages, (conversation_kept_iff hids hrun).2 hcovers hsettled⟩

end Transcendence.Chat.OpenConversation
