import Transcendence.Base.Runs
import Transcendence.Relationships.Service

/-!
# What a request does to the rows of a pair

`Change` lists everything a request can do to the table; each later result is a case analysis over
it. The first of them is the invariant of the table: a row that stands alone is a block, and a
pending row answers a row that is accepted or blocked.
-/

namespace Transcendence.Relationships

namespace UserRelationships

variable (rows : UserRelationships) {a b x y : UserId} (status : RelationshipStatus)

@[simp] theorem statusOf_setStatus_self : (rows.setStatus a b status).statusOf a b = some status :=
  OrderedMap.get_set_self ..

theorem statusOf_setStatus_of_ne (h : (x, y) ≠ (a, b)) : (rows.setStatus a b status).statusOf x y = rows.statusOf x y :=
  OrderedMap.get_set_of_ne _ _ h

theorem statusOf_setStatus :
    (rows.setStatus a b status).statusOf x y = if x = a ∧ y = b then some status else rows.statusOf x y := by
  split
  · next h =>
      obtain ⟨rfl, rfl⟩ := h
      apply statusOf_setStatus_self
  · next h =>
      apply statusOf_setStatus_of_ne
      simpa only [ne_eq, Prod.mk.injEq] using h

theorem statusOf_remove :
    (rows.remove a b).statusOf x y = if x = a ∧ y = b then none else rows.statusOf x y := by
  split
  · next h =>
      obtain ⟨rfl, rfl⟩ := h
      apply OrderedMap.get_delete_self
  · next h =>
      apply OrderedMap.get_delete_of_ne
      simpa only [ne_eq, Prod.mk.injEq] using h

theorem statusOf_removeUnlessBlocked :
    (rows.removeUnlessBlocked a b).statusOf x y =
      if x = a ∧ y = b ∧ rows.statusOf a b ≠ some .BLOCKED then none else rows.statusOf x y := by
  rw [removeUnlessBlocked]
  split
  · next h => simp [h]
  · next h => simp [statusOf_remove, h]

theorem insert_eq_ok {users : Users} {rows' : UserRelationships} (h : rows.insert users a b status = .ok rows') :
    rows' = rows.setStatus a b status := by
  rw [insert] at h
  split at h
  · exact (Except.ok.inj h).symm
  · cases h

end UserRelationships

open UserRelationships

/-- Everything a request can do to the table. -/
inductive Change (rows : UserRelationships) : Request → UserRelationships → Prop where
  | nothing {request : Request} : Change rows request rows
  | request {a b : UserId} (hne : a ≠ b) (hmine : rows.statusOf a b = none) (htheirs : rows.statusOf b a = none) :
      Change rows (.create b a) ((rows.setStatus a b .ACCEPTED).setStatus b a .PENDING_APPROVAL)
  | answer {a b : UserId} (hne : a ≠ b) (hmine : rows.statusOf a b = none)
      (htheirs : rows.statusOf b a = some .PENDING_APPROVAL) : Change rows (.create b a) (rows.setStatus a b .ACCEPTED)
  | renew {a b : UserId} (hne : a ≠ b) (hmine : rows.statusOf a b ≠ none) (hblocked : rows.statusOf a b ≠ some .BLOCKED)
      (htheirs : rows.statusOf b a = none) : Change rows (.create b a) (rows.setStatus b a .PENDING_APPROVAL)
  | block {a b : UserId} (hne : a ≠ b) (hmine : rows.statusOf a b ≠ some .BLOCKED) :
      Change rows (.update b .BLOCKED a) (rows.setStatus a b .BLOCKED)
  | accept {a b : UserId} (hne : a ≠ b) (hmine : rows.statusOf a b = some .PENDING_APPROVAL) :
      Change rows (.update b .ACCEPTED a) (rows.setStatus a b .ACCEPTED)
  | unblock {a b : UserId} (hne : a ≠ b) (hmine : rows.statusOf a b = some .BLOCKED)
      (htheirs : rows.statusOf b a = some .PENDING_APPROVAL ∨ rows.statusOf b a = some .ACCEPTED) :
      Change rows (.update b .ACCEPTED a) (rows.setStatus a b .ACCEPTED)
  | lift {a b : UserId} (hne : a ≠ b) (hmine : rows.statusOf a b = some .BLOCKED)
      (htheirs : rows.statusOf b a = none ∨ rows.statusOf b a = some .BLOCKED) :
      Change rows (.update b .ACCEPTED a) (rows.remove a b)
  | remove {a b : UserId} (hne : a ≠ b) :
      Change rows (.remove b a) ((rows.removeUnlessBlocked a b).removeUnlessBlocked b a)

variable {users : Users} {rows : UserRelationships} {a b : UserId}

/-- What the transaction of `create` answers to a requester who has not blocked the other user. -/
theorem createTransaction_of_theirs (hmine : rows.statusOf b a ≠ some .BLOCKED) :
    (rows.statusOf a b = some .ACCEPTED →
      createTransaction users rows a b = .error (.forbidden EXISTING_RELATION_ERR_MSG)) ∧
    (rows.statusOf a b = some .BLOCKED → createTransaction users rows a b = .ok (rows, true)) := by
  rw [createTransaction]
  cases hstatus : rows.statusOf b a with
  | none => exact ⟨fun htheirs => by rw [htheirs], fun htheirs => by rw [htheirs]⟩
  | some mine =>
      cases mine with
      | BLOCKED => exact absurd hstatus hmine
      | PENDING_APPROVAL | ACCEPTED => exact ⟨fun htheirs => by rw [htheirs], fun htheirs => by rw [htheirs]⟩

theorem change_of_createTransaction (hne : a ≠ b) {rows' : UserRelationships} {blocked : Bool}
    (h : createTransaction users rows b a = .ok (rows', blocked)) : Change rows (.create b a) rows' := by
  rw [createTransaction] at h
  split at h
  · cases h
  · next hblocked =>
      split at h
      · cases h
      · cases h
        exact .nothing
      · next haccepted hblocked' =>
          cases hmine : rows.statusOf a b with
          | none =>
              cases htheirs : rows.statusOf b a with
              | none =>
                  simp only [hmine, htheirs, Option.isNone_none, if_true] at h
                  cases hfirst : rows.insert users a b .ACCEPTED with
                  | error error => rw [hfirst] at h; cases h
                  | ok first =>
                      obtain rfl := rows.insert_eq_ok _ hfirst
                      rw [hfirst] at h
                      cases hsecond : (rows.setStatus a b .ACCEPTED).insert users b a .PENDING_APPROVAL with
                      | error error => simp [bind, Except.bind, hsecond] at h
                      | ok second =>
                          obtain rfl := insert_eq_ok _ _ hsecond
                          simp only [bind, Except.bind, hsecond, pure, Except.pure, Except.ok.injEq, Prod.mk.injEq] at h
                          obtain ⟨rfl, -⟩ := h
                          exact .request hne hmine htheirs
              | some theirs =>
                  obtain rfl : theirs = .PENDING_APPROVAL := by
                    cases theirs with
                    | PENDING_APPROVAL => rfl
                    | ACCEPTED => exact absurd htheirs haccepted
                    | BLOCKED => exact absurd htheirs hblocked'
                  cases hfirst : rows.insert users a b .ACCEPTED with
                  | error error => simp [bind, Except.bind, hmine, hfirst] at h
                  | ok first =>
                      obtain rfl := rows.insert_eq_ok _ hfirst
                      simp [bind, Except.bind, pure, Except.pure, hmine, htheirs, hfirst] at h
                      obtain ⟨rfl, -⟩ := h
                      exact .answer hne hmine htheirs
          | some mine =>
              cases htheirs : rows.statusOf b a with
              | none =>
                  cases hsecond : rows.insert users b a .PENDING_APPROVAL with
                  | error error => simp [bind, Except.bind, hmine, htheirs, hsecond] at h
                  | ok second =>
                      obtain rfl := rows.insert_eq_ok _ hsecond
                      simp [bind, Except.bind, pure, Except.pure, hmine, htheirs, hsecond] at h
                      obtain ⟨rfl, -⟩ := h
                      exact .renew hne (by simp [hmine]) hblocked htheirs
              | some theirs =>
                  simp [bind, Except.bind, pure, Except.pure, hmine, htheirs] at h
                  obtain ⟨rfl, -⟩ := h
                  exact .nothing

theorem change_of_create : Change rows (.create b a) (create users rows b a).rows := by
  rw [create]
  split
  · exact .nothing
  · next hne =>
      split
      · exact .nothing
      · split
        · exact .nothing
        · next h => exact change_of_createTransaction hne h

theorem change_of_updateTransaction (hne : a ≠ b) {status : RelationshipStatus} {rows' : UserRelationships}
    {updated : UserRelationship} (h : updateTransaction users rows b status a = .ok (rows', updated)) :
    Change rows (.update b status a) rows' := by
  rw [updateTransaction] at h
  split at h
  · next hmine =>
      split at h
      · next hstatus =>
          subst hstatus
          cases hinsert : rows.insert users a b .BLOCKED with
          | error error => rw [hinsert] at h; cases h
          | ok inserted =>
              obtain rfl := rows.insert_eq_ok _ hinsert
              rw [hinsert] at h
              cases h
              exact .block hne (by simp [hmine])
      · cases h
  · next current hmine =>
      split_ifs at h with hsame hsequence hlift
      · obtain ⟨rfl, -, halone⟩ := hlift
        cases h
        obtain rfl : status = .ACCEPTED := by
          cases status <;> simp_all
        refine .lift hne hmine ?_
        rw [standsAlone] at halone
        split at halone
        · next htheirs => exact .inl htheirs
        · next theirs htheirs =>
            obtain rfl := of_decide_eq_true halone
            exact .inr htheirs
      · cases h
        cases current with
        | PENDING_APPROVAL =>
            cases status with
            | PENDING_APPROVAL => exact absurd rfl hsame
            | ACCEPTED => exact .accept hne hmine
            | BLOCKED => exact .block hne (by simp [hmine])
        | ACCEPTED =>
            cases status with
            | PENDING_APPROVAL => simp at hsequence
            | ACCEPTED => exact absurd rfl hsame
            | BLOCKED => exact .block hne (by simp [hmine])
        | BLOCKED =>
            cases status with
            | PENDING_APPROVAL => simp at hsequence
            | BLOCKED => exact absurd rfl hsame
            | ACCEPTED =>
                refine .unblock hne hmine ?_
                cases htheirs : rows.statusOf b a with
                | none => simp [standsAlone, htheirs] at hlift
                | some theirs =>
                    cases theirs with
                    | PENDING_APPROVAL => exact .inl rfl
                    | ACCEPTED => exact .inr rfl
                    | BLOCKED => simp [standsAlone, htheirs] at hlift

theorem change_of_update {status : RelationshipStatus} :
    Change rows (.update b status a) (update users rows b status a).rows := by
  rw [update]
  split
  · exact .nothing
  · next hne =>
      split
      · exact .nothing
      · next h => exact change_of_updateTransaction hne h

theorem change_of_remove : Change rows (.remove b a) (remove rows b a).rows := by
  rw [remove]
  split
  · exact .nothing
  · next hne => exact .remove hne

theorem change_after (users : Users) (rows : UserRelationships) (request : Request) :
    Change rows request (after users rows request) := by
  cases request with
  | create addresseeId requesterId => exact change_of_create
  | update addresseeId status requesterId => exact change_of_update
  | remove addresseeId requesterId => exact change_of_remove

/-! ### The table in every reachable state -/

structure WellFormed (rows : UserRelationships) : Prop where
  alone : ∀ x y status, rows.statusOf x y = some status → rows.statusOf y x = none → status = .BLOCKED
  pending : ∀ x y, rows.statusOf x y = some .PENDING_APPROVAL →
    rows.statusOf y x = some .ACCEPTED ∨ rows.statusOf y x = some .BLOCKED

/-- What one request may do: it stays on its pair, a block is only lifted by who set it, and of the
other side's row only a request or a removal disposes. -/
structure Lawful (rows : UserRelationships) (request : Request) (after : UserRelationships) : Prop where
  pair : ∀ x y, after.statusOf x y ≠ rows.statusOf x y →
    x = request.requesterId ∧ y = request.addresseeId ∨ x = request.addresseeId ∧ y = request.requesterId
  blocked : ∀ x y, rows.statusOf x y = some .BLOCKED → after.statusOf x y ≠ some .BLOCKED → request.requesterId = x
  other : after.statusOf request.addresseeId request.requesterId = rows.statusOf request.addresseeId request.requesterId ∨
    (request = .create request.addresseeId request.requesterId ∧
      rows.statusOf request.addresseeId request.requesterId = none ∧
      after.statusOf request.addresseeId request.requesterId = some .PENDING_APPROVAL) ∨
    (request = .remove request.addresseeId request.requesterId ∧
      rows.statusOf request.addresseeId request.requesterId ≠ some .BLOCKED ∧
      after.statusOf request.addresseeId request.requesterId = none)

theorem wellFormed_nil : WellFormed ([] : UserRelationships) := ⟨fun _ _ _ h => (by cases h), fun _ _ h => (by cases h)⟩

/-- A change of one row keeps the invariant if the row and its counterpart go together. -/
theorem WellFormed.setStatus (h : WellFormed rows) (hne : a ≠ b) {status : RelationshipStatus}
    (halone : rows.statusOf b a = none → status = .BLOCKED)
    (hpending : status = .PENDING_APPROVAL → rows.statusOf b a = some .ACCEPTED ∨ rows.statusOf b a = some .BLOCKED)
    (hcounterpart : rows.statusOf b a = some .PENDING_APPROVAL → status ≠ .PENDING_APPROVAL) :
    WellFormed (rows.setStatus a b status) := by
  refine ⟨fun x y s hs hnone => ?_, fun x y hs => ?_⟩
  · rw [statusOf_setStatus] at hs hnone
    split at hs
    · next heq =>
        obtain ⟨rfl, rfl⟩ := heq
        obtain rfl := Option.some.inj hs
        rw [if_neg fun hswap => hne hswap.2] at hnone
        exact halone hnone
    · split at hnone
      · cases hnone
      · exact h.alone x y s hs hnone
  · rw [statusOf_setStatus] at hs ⊢
    split at hs
    · next heq =>
        obtain ⟨rfl, rfl⟩ := heq
        rw [if_neg fun hswap => hne hswap.2]
        exact hpending (Option.some.inj hs)
    · split
      · next hswap =>
          obtain ⟨rfl, rfl⟩ := hswap
          cases status with
          | PENDING_APPROVAL => exact absurd rfl (hcounterpart hs)
          | ACCEPTED => exact .inl rfl
          | BLOCKED => exact .inr rfl
      · exact h.pending x y hs

theorem WellFormed.change (h : WellFormed rows) {request : Request} {after : UserRelationships}
    (hchange : Change rows request after) : WellFormed after := by
  cases hchange with
  | nothing => exact h
  | @request a b hne hmine htheirs =>
      refine ⟨fun x y s hs hnone => ?_, fun x y hs => ?_⟩
      · simp only [statusOf_setStatus] at hs hnone
        split at hnone
        · cases hnone
        · split at hnone
          · cases hnone
          · next hback hforth =>
              rw [if_neg fun heq => hforth ⟨heq.2, heq.1⟩, if_neg fun heq => hback ⟨heq.2, heq.1⟩] at hs
              exact h.alone x y s hs hnone
      · simp only [statusOf_setStatus] at hs ⊢
        by_cases hback : x = b ∧ y = a
        · obtain ⟨rfl, rfl⟩ := hback
          rw [if_neg fun heq => hne heq.1, if_pos ⟨rfl, rfl⟩]
          exact .inl rfl
        · rw [if_neg hback] at hs
          split at hs
          · cases hs
          · next hforth =>
              rw [if_neg fun heq => hforth ⟨heq.2, heq.1⟩, if_neg fun heq => hback ⟨heq.2, heq.1⟩]
              exact h.pending x y hs
  | answer hne hmine htheirs =>
      exact h.setStatus hne (fun hnone => by rw [htheirs] at hnone; cases hnone) (fun heq => by cases heq) fun _ heq => by cases heq
  | @renew a b hne hmine hblocked htheirs =>
      obtain ⟨status, hstatus⟩ := Option.ne_none_iff_exists'.mp hmine
      exact absurd (hstatus ▸ congrArg some (h.alone a b status hstatus htheirs)) hblocked
  | block hne hmine =>
      exact h.setStatus hne (fun _ => rfl) (fun heq => by cases heq) fun _ heq => by cases heq
  | accept hne hmine =>
      refine h.setStatus hne (fun hnone => ?_) (fun heq => by cases heq) fun _ heq => by cases heq
      exact absurd (h.alone _ _ _ hmine hnone) (by decide)
  | unblock hne hmine htheirs =>
      refine h.setStatus hne (fun hnone => ?_) (fun heq => by cases heq) fun _ heq => by cases heq
      rw [hnone] at htheirs
      rcases htheirs with heq | heq <;> cases heq
  | @lift a b hne hmine htheirs =>
      refine ⟨fun x y s hs hnone => ?_, fun x y hs => ?_⟩
      · rw [statusOf_remove] at hs hnone
        split at hs
        · cases hs
        · split at hnone
          · next hswap =>
              obtain ⟨rfl, rfl⟩ := hswap
              rcases htheirs with heq | heq
              · cases heq.symm.trans hs
              · exact Option.some.inj (hs.symm.trans heq)
          · exact h.alone x y s hs hnone
      · rw [statusOf_remove] at hs ⊢
        split at hs
        · cases hs
        · rw [if_neg]
          · exact h.pending x y hs
          · rintro ⟨rfl, rfl⟩
            rcases htheirs with heq | heq <;> cases heq.symm.trans hs
  | @remove a b hne =>
      have hstatus : ∀ x y, ((rows.removeUnlessBlocked a b).removeUnlessBlocked b a).statusOf x y =
          if (x = a ∧ y = b ∨ x = b ∧ y = a) ∧ rows.statusOf x y ≠ some .BLOCKED then none else rows.statusOf x y := by
        intro x y
        simp only [statusOf_removeUnlessBlocked]
        grind
      refine ⟨fun x y s hs hnone => ?_, fun x y hs => ?_⟩
      · rw [hstatus] at hs hnone
        have := h.alone x y s
        grind
      · rw [hstatus] at hs ⊢
        have := h.pending x y
        grind

theorem Change.lawful {request : Request} {after : UserRelationships} (h : Change rows request after) :
    Lawful rows request after := by
  cases h with
  | nothing => exact ⟨fun _ _ hne => absurd rfl hne, fun _ _ hs hne => absurd hs hne, .inl rfl⟩
  | @request a b hne hmine htheirs =>
      refine ⟨fun x y hchanged => ?_, fun x y hs hgone => ?_, .inr (.inl ⟨rfl, htheirs, statusOf_setStatus_self ..⟩)⟩ <;>
        simp only [statusOf_setStatus, Request.requesterId, Request.addresseeId] at * <;> grind
  | @answer a b hne hmine htheirs | @block a b hne hmine | @accept a b hne hmine | @unblock a b hne hmine htheirs =>
      refine ⟨fun x y hchanged => ?_, fun x y hs hgone => ?_, .inl ?_⟩ <;>
        simp only [statusOf_setStatus, Request.requesterId, Request.addresseeId] at * <;> grind
  | @renew a b hne hmine hblocked htheirs =>
      refine ⟨fun x y hchanged => ?_, fun x y hs hgone => ?_, .inr (.inl ⟨rfl, htheirs, statusOf_setStatus_self ..⟩)⟩ <;>
        simp only [statusOf_setStatus, Request.requesterId, Request.addresseeId] at * <;> grind
  | @lift a b hne hmine htheirs =>
      refine ⟨fun x y hchanged => ?_, fun x y hs hgone => ?_, .inl ?_⟩ <;>
        simp only [statusOf_remove, Request.requesterId, Request.addresseeId] at * <;> grind
  | @remove a b hne =>
      refine ⟨fun x y hchanged => ?_, fun x y hs hgone => ?_, ?_⟩ <;>
        simp only [statusOf_removeUnlessBlocked, Request.requesterId, Request.addresseeId] at * <;> grind

theorem wellFormed_preserved (users : Users) : Runs.Preserved (step users) WellFormed := by
  intro rows request after' h hstep
  obtain rfl := Option.some.inj hstep
  exact h.change (change_after users rows request)

/-- For every run of requests, whoever makes them. -/
theorem table_invariant (users : Users) (requests : List Request) (rows : UserRelationships)
    (hrun : Runs.run (step users) [] requests = some rows) :
    WellFormed rows ∧ ∀ request, Lawful rows request (after users rows request) :=
  ⟨(wellFormed_preserved users).run wellFormed_nil hrun, fun request => (change_after users rows request).lawful⟩

/-! Two users: one sends a request, the other blocks the sender, who then takes the request back. -/

def pairUsers : Users := fun id => if id = "alice" ∨ id = "bob" then some ⟨id, .ACTIVE⟩ else none

def blockedRequest : List Request :=
  [.create "bob" "alice", .update "alice" .BLOCKED "bob", .remove "bob" "alice"]

theorem table_invariant_of_blockedRequest :
    ∃ rows, Runs.run (step pairUsers) [] blockedRequest = some rows ∧ rows.statusOf "bob" "alice" = some .BLOCKED ∧
      WellFormed rows ∧ ∀ request, Lawful rows request (after pairUsers rows request) := by
  have hrun : Runs.run (step pairUsers) [] blockedRequest = some [(("bob", "alice"), .BLOCKED)] := by decide +kernel
  exact ⟨_, hrun, by decide, table_invariant pairUsers blockedRequest _ hrun⟩

end Transcendence.Relationships
