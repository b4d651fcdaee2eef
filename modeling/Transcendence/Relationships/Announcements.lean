import Transcendence.Relationships.Table

/-!
# What a blocked user still sends

A request commits its transaction first, and notifies the other user afterwards; other requests run
in between. While a user blocks another one, `create` stays silent, because its transaction reads
the block. `update` does not read it, so accepting a request from before the block notifies its
sender, and nothing calls back what a request has still to announce when the block commits.
-/

namespace Transcendence.Relationships

open UserRelationships

def Effect.userId : Effect → UserId
  | .notification userId _ _ => userId
  | .emitted userId _ => userId

/-- What a request does after its transaction. -/
def effects (users : Users) (rows : UserRelationships) : Request → List Effect
  | .create addresseeId requesterId => (create users rows addresseeId requesterId).effects
  | .update addresseeId status requesterId => (update users rows addresseeId status requesterId).effects
  | .remove addresseeId requesterId => (remove rows addresseeId requesterId).effects

/-- The rows, and what the committed requests have still to announce, with who made them. -/
structure Announcements where
  rows : UserRelationships
  pending : List (UserId × List Effect)
  deriving DecidableEq

namespace Announcements

inductive Label where
  | request (request : Request)
  | announce (index : Nat)
  deriving DecidableEq, Repr

/-- The next announcement of a request. -/
def next (s : Announcements) (index : Nat) : Option (UserId × Effect) :=
  s.pending[index]?.bind fun p => p.2.head?.map fun effect => (p.1, effect)

def step (users : Users) (s : Announcements) : Label → Option Announcements
  | .request request =>
      some ⟨after users s.rows request,
        s.pending ++ [(request.requesterId, effects users s.rows request)]⟩
  | .announce index =>
      (s.next index).map fun _ =>
        { s with pending := s.pending.modify index fun p => (p.1, p.2.tail) }

/-- A request of `b` has still something to announce to `a`. -/
def Announces (s : Announcements) (b a : UserId) : Prop :=
  ∃ p ∈ s.pending, p.1 = b ∧ ∃ effect ∈ p.2, effect.userId = a

/-- No request accepts a pending row of a user who blocks the requester, and no block commits while
the blocked user has something to announce to the blocker. -/
structure Discreet (users : Users) (s : Announcements) (label : Label) : Prop where
  accept : ∀ a b, label = .request (.update a .ACCEPTED b) →
    s.rows.statusOf b a = some .PENDING_APPROVAL → s.rows.statusOf a b = some .BLOCKED →
      (findUser users b).toOption = none
  block : ∀ a b, label = .request (.update b .BLOCKED a) → ¬s.Announces b a

/-- A block of `b` by `a` in the step that starts from `s`. -/
structure Effective (s : Announcements) (label : Label) (t : Announcements) (a b : UserId) : Prop where
  row : ∀ request, label = .request request → request.requesterId ≠ a →
    t.rows.statusOf a b = some .BLOCKED
  silent : ∀ index effect, label = .announce index → s.next index = some (b, effect) →
    effect.userId ≠ a

/-- Whom a user blocks has nothing to announce to him. -/
def Silent (s : Announcements) : Prop :=
  ∀ a b, s.rows.statusOf a b = some .BLOCKED → ¬s.Announces b a

end Announcements

/-! ### What a request announces -/

variable {users : Users} {rows : UserRelationships} {a b : UserId}

theorem userId_of_announce {text event : String} {effect : Effect}
    (h : effect ∈ announce users b a text event) :
    effect.userId = a ∧ (findUser users b).toOption ≠ none := by
  rw [announce] at h
  split at h
  · cases h
  · next requester hfound =>
      refine ⟨?_, by rw [hfound]; exact nofun⟩
      simp only [notify, List.cons_append, List.nil_append, List.mem_cons, List.not_mem_nil,
        or_false] at h
      rcases h with rfl | rfl | rfl <;> rfl

/-- Who announces a request has not found himself blocked. -/
theorem mem_effects_create {addresseeId requesterId : UserId} {effect : Effect}
    (h : effect ∈ (create users rows addresseeId requesterId).effects) :
    ∃ after, createTransaction users rows addresseeId requesterId = .ok (after, false) ∧
      effect ∈ announce users requesterId addresseeId " wants to be your friend!" "friends:request-received" := by
  by_cases hself : requesterId = addresseeId
  · rw [create, if_pos hself] at h
    cases h
  · rw [create, if_neg hself] at h
    cases hfound : findUser users addresseeId with
    | error error =>
        rw [hfound] at h
        cases h
    | ok found =>
        rw [hfound] at h
        cases htransaction : createTransaction users rows addresseeId requesterId with
        | error error =>
            rw [htransaction] at h
            cases h
        | ok result =>
            rw [htransaction] at h
            obtain ⟨after, blocked⟩ := result
            cases blocked with
            | true => cases h
            | false => exact ⟨after, rfl, h⟩

/-- Only an acceptance of a pending row is announced. -/
theorem mem_effects_update {addresseeId requesterId : UserId} {status : RelationshipStatus} {effect : Effect}
    (h : effect ∈ (update users rows addresseeId status requesterId).effects) :
    (rows.statusOf requesterId addresseeId = some .PENDING_APPROVAL ∧ status = .ACCEPTED) ∧
      effect ∈ announce users requesterId addresseeId " is now your friend!" "friends:request-accepted" := by
  by_cases hself : requesterId = addresseeId
  · rw [update, if_pos hself] at h
    cases h
  · rw [update, if_neg hself] at h
    cases htransaction : updateTransaction users rows addresseeId status requesterId with
    | error error =>
        rw [htransaction] at h
        cases h
    | ok result =>
        rw [htransaction] at h
        have h : effect ∈ (if rows.statusOf requesterId addresseeId = some .PENDING_APPROVAL ∧ status = .ACCEPTED then
            announce users requesterId addresseeId " is now your friend!" "friends:request-accepted" else []) := h
        by_cases haccepts : rows.statusOf requesterId addresseeId = some .PENDING_APPROVAL ∧ status = .ACCEPTED
        · rw [if_pos haccepts] at h
          exact ⟨haccepts, h⟩
        · rw [if_neg haccepts] at h
          cases h

theorem effects_remove (addresseeId requesterId : UserId) : (remove rows addresseeId requesterId).effects = [] := by
  by_cases hself : requesterId = addresseeId
  · rw [remove, if_pos hself]
  · rw [remove, if_neg hself]

/-- A request announces to its addressee; to one who blocks the requester, only when it accepts his
pending row. -/
theorem announced_of_mem_effects {request : Request} {effect : Effect}
    (h : effect ∈ effects users rows request) :
    effect.userId = request.addresseeId ∧ (∀ x y, request ≠ .update x .BLOCKED y) ∧
      (rows.statusOf request.addresseeId request.requesterId = some .BLOCKED →
        request = .update request.addresseeId .ACCEPTED request.requesterId ∧
          rows.statusOf request.requesterId request.addresseeId = some .PENDING_APPROVAL ∧
            (findUser users request.requesterId).toOption ≠ none) := by
  cases request with
  | remove addresseeId requesterId =>
      rw [effects, effects_remove] at h
      cases h
  | update addresseeId status requesterId =>
      obtain ⟨⟨hpending, rfl⟩, hannounce⟩ := mem_effects_update h
      obtain ⟨hto, hactive⟩ := userId_of_announce hannounce
      exact ⟨hto, nofun, fun _ => ⟨rfl, hpending, hactive⟩⟩
  | create addresseeId requesterId =>
      obtain ⟨after, htransaction, hannounce⟩ := mem_effects_create h
      refine ⟨(userId_of_announce hannounce).1, nofun, fun htheirs => ?_⟩
      have hmine : rows.statusOf requesterId addresseeId ≠ some .BLOCKED := by
        intro hmine
        simp only [createTransaction, hmine, reduceCtorEq] at htransaction
      cases htransaction.symm.trans ((createTransaction_of_theirs hmine).2 htheirs)

/-- A row becomes a block only by a request of its owner. -/
theorem Change.eq_block {request : Request} {after : UserRelationships}
    (h : Change rows request after) (hafter : after.statusOf a b = some .BLOCKED)
    (hbefore : rows.statusOf a b ≠ some .BLOCKED) : request = .update b .BLOCKED a := by
  cases h with
  | nothing => exact absurd hafter hbefore
  | request | answer | renew | accept | unblock =>
      simp only [statusOf_setStatus] at hafter
      split_ifs at hafter <;> first | exact absurd hafter hbefore | cases hafter
  | block =>
      rw [statusOf_setStatus] at hafter
      split at hafter
      · next heq => rw [heq.1, heq.2]
      · exact absurd hafter hbefore
  | lift =>
      rw [statusOf_remove] at hafter
      split at hafter
      · cases hafter
      · exact absurd hafter hbefore
  | remove =>
      simp only [statusOf_removeUnlessBlocked] at hafter
      split_ifs at hafter <;> exact absurd hafter hbefore

namespace Announcements

variable {s t : Announcements} {label : Label}

theorem announces_request {request : Request} :
    Announces ⟨rows, s.pending ++ [(request.requesterId, effects users s.rows request)]⟩ b a ↔
      s.Announces b a ∨ request.requesterId = b ∧
        ∃ effect ∈ effects users s.rows request, effect.userId = a := by
  simp only [Announces, List.mem_append, List.mem_singleton, or_and_right, exists_or, exists_eq_left]

theorem Announces.of_tail {index : Nat}
    (h : Announces ⟨rows, s.pending.modify index fun p => (p.1, p.2.tail)⟩ b a) : s.Announces b a := by
  obtain ⟨p, hp, rfl, effect, heffect, hto⟩ := h
  obtain ⟨i, hi, rfl⟩ := List.mem_iff_getElem.mp hp
  rw [List.length_modify] at hi
  refine ⟨s.pending[i], List.getElem_mem hi, ?_, effect, ?_, hto⟩
  · rw [List.getElem_modify]
    split <;> rfl
  · rw [List.getElem_modify] at heffect
    split at heffect
    · exact List.mem_of_mem_tail heffect
    · exact heffect

/-- Silence is kept by the steps that are discreet. -/
theorem Silent.step (h : s.Silent) (hdiscreet : Discreet users s label)
    (hstep : s.step users label = some t) : t.Silent := by
  cases label with
  | announce index =>
      obtain ⟨-, -, rfl⟩ := Option.map_eq_some_iff.mp hstep
      exact fun a b hblocked hannounces => h a b hblocked hannounces.of_tail
  | request request =>
      obtain rfl := Option.some.inj hstep
      intro a b hblocked hannounces
      have hnew : s.rows.statusOf a b ≠ some .BLOCKED → request = .update b .BLOCKED a :=
        (change_after users s.rows request).eq_block hblocked
      rcases announces_request.mp hannounces with hold | ⟨rfl, effect, heffect, hto⟩
      · by_cases hbefore : s.rows.statusOf a b = some .BLOCKED
        · exact h a b hbefore hold
        · exact hdiscreet.block a b (congrArg Label.request (hnew hbefore)) hold
      · obtain ⟨hto', hnotBlock, haccept⟩ := announced_of_mem_effects heffect
        obtain rfl : request.addresseeId = a := hto'.symm.trans hto
        have hbefore : s.rows.statusOf request.addresseeId request.requesterId = some .BLOCKED := by
          by_contra hbefore
          exact hnotBlock _ _ (hnew hbefore)
        obtain ⟨heq, hpending, hactive⟩ := haccept hbefore
        exact hactive (hdiscreet.accept _ _ (congrArg Label.request heq) hpending hbefore)

/-- A block holds in every step that starts in silence. -/
theorem Silent.effective (h : s.Silent) (hstep : s.step users label = some t)
    (hblocked : s.rows.statusOf a b = some .BLOCKED) : Effective s label t a b := by
  constructor
  · rintro request rfl hother
    obtain rfl := Option.some.inj hstep
    by_contra hlifted
    exact hother ((change_after users s.rows request).lawful.blocked a b hblocked hlifted)
  · rintro index effect rfl hnext hto
    obtain ⟨p, hp, hhead⟩ := Option.bind_eq_some_iff.mp hnext
    obtain ⟨effect', heffect, heq⟩ := Option.map_eq_some_iff.mp hhead
    obtain ⟨rfl, rfl⟩ := Prod.mk.inj heq
    exact h a p.1 hblocked ⟨p, List.mem_of_getElem? hp, rfl, effect', List.mem_of_mem_head? heffect, hto⟩

/-- Every block is effective in a run whose steps are all discreet. -/
theorem block_effective_of_discreet (users : Users) (rows : UserRelationships) (labels : List Label)
    (t : Announcements) (hrun : Runs.run (step users) ⟨rows, []⟩ labels = some t)
    (hdiscreet : Runs.Along (step users) (Discreet users) ⟨rows, []⟩ labels) (earlier rest : List Label)
    (label : Label) (hlabels : labels = earlier ++ label :: rest) (s u : Announcements)
    (hearlier : Runs.run (step users) ⟨rows, []⟩ earlier = some s) (hstep : s.step users label = some u)
    (a b : UserId) (hblocked : s.rows.statusOf a b = some .BLOCKED) : Effective s label u a b := by
  subst hlabels
  have hsilent : s.Silent := by
    refine hdiscreet.of_append.run (fun _ _ _ h hlabel hstep => h.step hlabel hstep) ?_ hearlier
    rintro a b - ⟨p, hp, -⟩
    cases hp
  exact hsilent.effective hstep hblocked

/-! Alice blocks Bob, who then sends her a request. -/

def refused : List Label := [.request (.update "bob" .BLOCKED "alice"), .request (.create "alice" "bob")]

theorem block_effective_of_refused :
    ∃ s t, s.rows.statusOf "alice" "bob" = some .BLOCKED ∧
      s.step pairUsers (.request (.create "alice" "bob")) = some t ∧
        Effective s (.request (.create "alice" "bob")) t "alice" "bob" := by
  have hdiscreet : Runs.Along (step pairUsers) (Discreet pairUsers) ⟨[], []⟩ refused := by
    refine ⟨⟨fun a b hlabel => ?_, fun a b _ => ?_⟩, fun _ _ => ⟨⟨nofun, nofun⟩, fun _ _ => trivial⟩⟩
    · simp only [Label.request.injEq, Request.update.injEq, reduceCtorEq, false_and, and_false] at hlabel
    · rintro ⟨p, hp, -⟩
      cases hp
  refine ⟨⟨[(("alice", "bob"), .BLOCKED)], [("alice", [])]⟩,
    ⟨[(("alice", "bob"), .BLOCKED)], [("alice", []), ("bob", [])]⟩, by decide, by decide +kernel, ?_⟩
  exact block_effective_of_discreet pairUsers [] refused
    ⟨[(("alice", "bob"), .BLOCKED)], [("alice", []), ("bob", [])]⟩ (by decide +kernel) hdiscreet
    [.request (.update "bob" .BLOCKED "alice")] [] _ rfl _ _ (by decide +kernel) (by decide +kernel) _ _ (by decide)

/-! Alice sends Bob a request and blocks him; Bob then accepts, and Alice is told so. -/

def acceptedAfterBlock : List Label :=
  [.request (.create "bob" "alice"), .request (.update "bob" .BLOCKED "alice"), .request (.update "alice" .ACCEPTED "bob")]

def told : Announcements := (Runs.run (step pairUsers) ⟨[], []⟩ acceptedAfterBlock).get (by decide +kernel)

theorem not_block_effective_of_acceptedAfterBlock :
    Runs.run (step pairUsers) ⟨[], []⟩ acceptedAfterBlock = some told ∧
      told.rows.statusOf "alice" "bob" = some .BLOCKED ∧
        ∃ t, told.step pairUsers (.announce 2) = some t ∧ ¬Effective told (.announce 2) t "alice" "bob" := by
  have hstep : (told.step pairUsers (.announce 2)).isSome := by decide +kernel
  have hnext : told.next 2 = some ("bob", .notification "alice" "bob is now your friend!" "/friends?userId=bob") := by
    decide +kernel
  obtain ⟨t, ht⟩ := Option.isSome_iff_exists.mp hstep
  exact ⟨by decide +kernel, by decide +kernel, t, ht, fun h => h.silent 2 _ rfl hnext rfl⟩

end Announcements

end Transcendence.Relationships
