import Transcendence.Base.Keyset
import Transcendence.Chat.Messages

/-!
# The history of a chat

`ChatService.findAll` gives the newest messages before a message that is named by its time and its id.
Asking again and again with the oldest message received goes through the whole history, whatever is
posted and deleted in between.
-/

namespace Transcendence.Chat

open Keyset (EndRule Paging)

variable {MessageId : Type} [LinearOrder MessageId]

def CHAT_MESSAGES_DEFAULT_PAGE_SIZE : Nat :=
  50

def CHAT_MESSAGES_MAX_PAGE_SIZE : Nat :=
  100

/-- `beforeCreatedAt` is the time that the date string of the query names. -/
structure FindChatMessagesDto (MessageId : Type) where
  before : Option MessageId
  beforeCreatedAt : Option Int
  take : Option Nat
  deriving DecidableEq

/-- What the validators ask: each half of the cursor is required where the other is given. -/
def FindChatMessagesDto.valid (query : FindChatMessagesDto MessageId) : Bool :=
  query.before.isSome = query.beforeCreatedAt.isSome &&
    query.take.all fun take => 1 ≤ take ∧ take ≤ CHAT_MESSAGES_MAX_PAGE_SIZE

/-- The part of the `where` clause that the cursor adds. -/
def beforeCondition (query : FindChatMessagesDto MessageId) (message : ChatMessage MessageId) : Bool :=
  match query.beforeCreatedAt, query.before with
  | some beforeCreatedAt, some before =>
      message.createdAt < beforeCreatedAt ∨ message.createdAt = beforeCreatedAt ∧ message.id < before
  | _, _ => true

/-- `orderBy: [{ createdAt: "desc" }, { id: "desc" }]` -/
def newerOrSame (message other : ChatMessage MessageId) : Prop :=
  other.createdAt < message.createdAt ∨ other.createdAt = message.createdAt ∧ other.id ≤ message.id

instance : DecidableRel (newerOrSame : ChatMessage MessageId → ChatMessage MessageId → Prop) :=
  fun _ _ => inferInstanceAs (Decidable (_ ∨ _))

def findAll (db : Database MessageId) (projectId : ProjectId) (userId : UserId) (query : FindChatMessagesDto MessageId) :
    Except Error (List (ChatMessage MessageId)) :=
  if ⟨userId, projectId⟩ ∉ db.projectMembers then .error .notFound
  else
    let messages := ((db.chatMessages.filter fun message =>
      message.projectId = projectId ∧ beforeCondition query message).insertionSort newerOrSame).take
        (query.take.getD CHAT_MESSAGES_DEFAULT_PAGE_SIZE)
    .ok messages.reverse

/-! ### Going through the history -/

/-- The query for the messages before the oldest one received, and for the newest page at first. -/
def nextQuery (take : Nat) (received : List (ChatMessage MessageId)) : FindChatMessagesDto MessageId where
  before := received.head?.map (·.id)
  beforeCreatedAt := received.head?.map (·.createdAt)
  take := some take

/-- The pages received after some requests, each on the database as it is by then. A request that fails is made again. -/
def requests (dbs : Nat → Database MessageId) (projectId : ProjectId) (userId : UserId) {take : Nat} (rule : EndRule take) :
    Nat → Paging (ChatMessage MessageId)
  | 0 => ⟨[], false⟩
  | n + 1 =>
      let paging := requests dbs projectId userId rule n
      match findAll (dbs n) projectId userId (nextQuery take paging.received) with
      | .error _ => paging
      | .ok page => paging.next rule page

/-- The earliest time a timestamp of the database can be: the year 4713 BC, in milliseconds. -/
def minTimestamp : Int :=
  -210866803200000

/-- What the table itself sees to. -/
structure Stored (db : Database MessageId) : Prop where
  ids : (db.chatMessages.map (·.id)).Nodup
  times : ∀ message ∈ db.chatMessages, minTimestamp ≤ message.createdAt

/-- The order of a conversation. -/
def Before (message other : ChatMessage MessageId) : Prop :=
  message.createdAt < other.createdAt ∨ message.createdAt = other.createdAt ∧ message.id < other.id

def key (message : ChatMessage MessageId) : Int ×ₗ MessageId :=
  toLex (message.createdAt, message.id)

/-- The messages of a project. -/
def history (db : Database MessageId) (projectId : ProjectId) : List (ChatMessage MessageId) :=
  db.chatMessages.filter (·.projectId = projectId)

theorem key_lt_iff (message other : ChatMessage MessageId) : key message < key other ↔ Before message other :=
  Prod.Lex.lt_iff ..

theorem key_le_iff (message other : ChatMessage MessageId) : key message ≤ key other ↔ newerOrSame other message :=
  Prod.Lex.le_iff ..

theorem findAll_eq {db : Database MessageId} {projectId : ProjectId} {userId : UserId}
    (hmember : ⟨userId, projectId⟩ ∈ db.projectMembers) (take : Nat) (received : List (ChatMessage MessageId)) :
    findAll db projectId userId (nextQuery take received) =
      .ok (Keyset.page key (history db projectId) (received.head?.map key) take) := by
  have hcondition : (fun message : ChatMessage MessageId =>
      decide (message.projectId = projectId ∧ beforeCondition (nextQuery take received) message = true)) =
        fun message => decide (message.projectId = projectId) && Keyset.below key (received.head?.map key) message := by
    funext message
    rw [Bool.eq_iff_iff, decide_eq_true_eq, Bool.and_eq_true, decide_eq_true_eq, Keyset.below_iff]
    apply and_congr_right'
    cases received with
    | nil => simp [beforeCondition, nextQuery]
    | cons oldest received => simp [beforeCondition, nextQuery, key_lt_iff, Before]
  have hsort : ∀ messages : List (ChatMessage MessageId),
      messages.insertionSort newerOrSame = messages.insertionSort (key · ≥ key ·) := by
    intro messages
    have hmap := List.map_insertionSort (newerOrSame : ChatMessage MessageId → ChatMessage MessageId → Prop)
      (key · ≥ key ·) id messages fun message _ other _ => (key_le_iff other message).symm
    rwa [List.map_id, List.map_id] at hmap
  have hfilter : db.chatMessages.filter (fun message => decide (message.projectId = projectId) &&
      Keyset.below key (received.head?.map key) message) =
        (history db projectId).filter (Keyset.below key (received.head?.map key)) := by
    rw [history, List.filter_filter]
    apply List.filter_congr
    intro message _
    exact Bool.and_comm _ _
  rw [findAll, if_neg (not_not.mpr hmember), hcondition, Keyset.page, hfilter, hsort]
  rfl

theorem requests_eq {dbs : Nat → Database MessageId} {projectId : ProjectId} {userId : UserId}
    (hmember : ∀ n, ⟨userId, projectId⟩ ∈ (dbs n).projectMembers) {take : Nat} (rule : EndRule take) (n : Nat) :
    requests dbs projectId userId rule n = Keyset.pagings key rule (fun n => history (dbs n) projectId) n := by
  induction n with
  | zero => rfl
  | succ n ih =>
      rw [requests, findAll_eq (hmember n), ih]
      rfl

/-- No times go down for ever, nor ids at one time. -/
theorem wellFoundedOn_keys [WellFoundedLT MessageId] :
    {k : Int ×ₗ MessageId | minTimestamp ≤ (ofLex k).1}.WellFoundedOn (· < ·) := by
  let age (k : {k : Int ×ₗ MessageId | minTimestamp ≤ (ofLex k).1}) : Nat ×ₗ MessageId :=
    toLex (((ofLex k.val).1 - minTimestamp).toNat, (ofLex k.val).2)
  refine Subrelation.wf (r := InvImage (· < ·) age) ?_ (InvImage.wf age wellFounded_lt)
  intro k k' hlt
  have hk : minTimestamp ≤ (ofLex k.val).1 := k.property
  have hk' : minTimestamp ≤ (ofLex k'.val).1 := k'.property
  show age k < age k'
  rw [Prod.Lex.lt_iff]
  rcases Prod.Lex.lt_iff.mp hlt with hlt | heq
  · left
    show ((ofLex k.val).1 - minTimestamp).toNat < ((ofLex k'.val).1 - minTimestamp).toNat
    omega
  · right
    refine ⟨?_, heq.2⟩
    show ((ofLex k.val).1 - minTimestamp).toNat = ((ofLex k'.val).1 - minTimestamp).toNat
    rw [heq.1]

omit [LinearOrder MessageId] in
theorem nodup_keys {db : Database MessageId} (h : Stored db) (projectId : ProjectId) :
    ((history db projectId).map key).Nodup := by
  apply List.Nodup.of_map fun k : Int ×ₗ MessageId => (ofLex k).2
  rw [List.map_map]
  exact h.ids.sublist (List.filter_sublist.map _)

section Paged

variable {dbs : Nat → Database MessageId} {projectId : ProjectId} {userId : UserId} {take : Nat}

omit [LinearOrder MessageId] in
/-- Every query that is made is a valid one. -/
theorem nextQuery_valid (htake : 1 ≤ take) (hmax : take ≤ CHAT_MESSAGES_MAX_PAGE_SIZE)
    (received : List (ChatMessage MessageId)) : (nextQuery take received).valid = true := by
  cases received <;> simp [nextQuery, FindChatMessagesDto.valid, htake, hmax]

/-- Of the messages received, the one with an id is the one that was there throughout. -/
theorem count_received (hstored : ∀ n, Stored (dbs n)) {received : List (ChatMessage MessageId)} {n : Nat}
    (horigin : ∀ message ∈ received, ∃ i < n, message ∈ history (dbs i) projectId)
    (hsorted : received.Pairwise (key · < key ·)) {id : MessageId} {createdAt : Int}
    (hthroughout : ∀ i < n, ∃ message ∈ history (dbs i) projectId, key message = toLex (createdAt, id))
    (hin : toLex (createdAt, id) ∈ received.map key) : (received.map (·.id)).count id = 1 := by
  have hsame : ∀ message ∈ received, message.id = id ↔ key message = toLex (createdAt, id) := by
    intro message hmessage
    constructor
    · intro hid
      obtain ⟨i, hi, hmem⟩ := horigin message hmessage
      obtain ⟨other, hother, hkey⟩ := hthroughout i hi
      have hotherId : other.id = id := congrArg (fun k : Int ×ₗ MessageId => (ofLex k).2) hkey
      have heq := List.inj_on_of_nodup_map (hstored i).ids (List.mem_of_mem_filter hmem) (List.mem_of_mem_filter hother)
        (hid.trans hotherId.symm)
      rw [heq, hkey]
    · intro hkey
      exact congrArg (fun k : Int ×ₗ MessageId => (ofLex k).2) hkey
  have hnodup : (received.map key).Nodup := List.pairwise_map.mpr (hsorted.imp fun h => h.ne)
  calc (received.map (·.id)).count id = received.countP (·.id = id) := by
        rw [List.count_eq_countP, List.countP_map]
        apply List.countP_congr
        intro message _
        rw [Function.comp_apply, beq_iff_eq, decide_eq_true_eq]
    _ = received.countP (key · = toLex (createdAt, id)) := by
        apply List.countP_congr
        intro message hmessage
        rw [decide_eq_true_eq, decide_eq_true_eq, hsame message hmessage]
    _ = (received.map key).count (toLex (createdAt, id)) := by
        rw [List.count_eq_countP, List.countP_map]
        apply List.countP_congr
        intro message _
        rw [Function.comp_apply, beq_iff_eq, decide_eq_true_eq]
    _ = 1 := List.count_eq_one_of_mem hnodup hin

/-- The iteration ends, and by then it has received in order, and once, every message that was there for all its requests. Ids
are UUIDs, so none of their descending sequences is infinite. -/
theorem history_paged [WellFoundedLT MessageId] (hstored : ∀ n, Stored (dbs n))
    (hmember : ∀ n, ⟨userId, projectId⟩ ∈ (dbs n).projectMembers) (htake : 1 ≤ take) (rule : EndRule take) :
    (∃ n, (requests dbs projectId userId rule n).ended = true) ∧
    ∀ n, (requests dbs projectId userId rule n).ended = true →
      (requests dbs projectId userId rule n).received.Pairwise Before ∧
      ∀ id createdAt, (∀ i < n, ∃ message ∈ (dbs i).chatMessages,
          message.id = id ∧ message.projectId = projectId ∧ message.createdAt = createdAt) →
        ((requests dbs projectId userId rule n).received.map (·.id)).count id = 1 := by
  have hkeys : ∀ n, ((history (dbs n) projectId).map key).Nodup := fun n => nodup_keys (hstored n) projectId
  constructor
  · have hends : ∃ n, (Keyset.pagings key rule (fun n => history (dbs n) projectId) n).ended = true :=
      Keyset.exists_ended wellFoundedOn_keys fun n message hmessage =>
        (hstored n).times message (List.mem_of_mem_filter hmessage)
    obtain ⟨n, hn⟩ := hends
    exact ⟨n, by rwa [requests_eq hmember]⟩
  · intro n hended
    have hreceived : Keyset.Received key (fun n => history (dbs n) projectId) n
        (requests dbs projectId userId rule n) := by
      rw [requests_eq hmember]
      exact Keyset.received_pagings htake hkeys n
    refine ⟨hreceived.sorted.imp fun h => (key_lt_iff _ _).mp h, fun id createdAt hthroughout => ?_⟩
    have hthroughout' : ∀ i < n, ∃ message ∈ history (dbs i) projectId, key message = toLex (createdAt, id) := by
      intro i hi
      obtain ⟨message, hmem, hid, hproject, htime⟩ := hthroughout i hi
      exact ⟨message, List.mem_filter.mpr ⟨hmem, decide_eq_true hproject⟩, by rw [key, hid, htime]⟩
    apply count_received hstored hreceived.origin hreceived.sorted hthroughout'
    apply hreceived.complete _ hthroughout'
    intro hnot
    rw [hended] at hnot
    cases hnot

end Paged

/-- Three messages, two of them of one time, and pages of two. -/
def threeMessages : Database (Fin (2 ^ 128)) where
  users := ["u"]
  projects := ["p"]
  projectMembers := [⟨"u", "p"⟩]
  chatMessages := [⟨7, some "u", "p", "first", 1⟩, ⟨3, some "u", "p", "second", 1⟩, ⟨5, none, "p", "third", 2⟩]
  chatReadStates _ _ := none

/-- The rule of the page: a page that is not full is the last one. -/
def untilShort (take : Nat) (htake : 1 ≤ take) : EndRule take where
  ends length := length < take
  empty := decide_eq_true htake
  short _ h := of_decide_eq_true h

theorem stored_threeMessages : Stored threeMessages := by
  refine ⟨by decide, ?_⟩
  decide

theorem history_paged_of_three :
    (∃ n, (requests (fun _ => threeMessages) "p" "u" (untilShort 2 (by omega)) n).ended = true) ∧
    ∀ n, (requests (fun _ => threeMessages) "p" "u" (untilShort 2 (by omega)) n).ended = true →
      (requests (fun _ => threeMessages) "p" "u" (untilShort 2 (by omega)) n).received.Pairwise Before ∧
      ∀ id createdAt, (∀ i < n, ∃ message ∈ threeMessages.chatMessages,
          message.id = id ∧ message.projectId = "p" ∧ message.createdAt = createdAt) →
        ((requests (fun _ => threeMessages) "p" "u" (untilShort 2 (by omega)) n).received.map (·.id)).count id = 1 :=
  history_paged (fun _ => stored_threeMessages) (fun _ => List.mem_cons_self ..) (by omega) (untilShort 2 (by omega))

end Transcendence.Chat
