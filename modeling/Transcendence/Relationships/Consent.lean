import Transcendence.Relationships.Table

/-!
# Who has agreed to a friendship

Two users are friends when both rows of their pair are accepted. A row becomes accepted in three
ways only, each by a request of its own requester: he sends the request, he accepts one, or he lifts
a block while the other side's row stands. `agreed` follows a run and tells whether a user has done
one of the acts it counts since the pair last had no rows.
-/

namespace Transcendence.Relationships

open UserRelationships

/-- A `create` of `userId` that inserts rows for the pair. -/
def sends (users : Users) (rows : UserRelationships) (request : Request) (userId other : UserId) : Bool :=
  request = .create other userId && decide (after users rows request ≠ rows)

/-- An `update` of his own row by `userId` from `status` to accepted. -/
def turnsAccepted (status : RelationshipStatus) (users : Users) (rows : UserRelationships) (request : Request)
    (userId other : UserId) : Bool :=
  request = .update other .ACCEPTED userId && rows.statusOf userId other == some status &&
    (after users rows request).statusOf userId other == some .ACCEPTED

def accepts (users : Users) (rows : UserRelationships) (request : Request) (userId other : UserId) : Bool :=
  turnsAccepted .PENDING_APPROVAL users rows request userId other

def unblocks (users : Users) (rows : UserRelationships) (request : Request) (userId other : UserId) : Bool :=
  turnsAccepted .BLOCKED users rows request userId other

def sendsOrAccepts (users : Users) (rows : UserRelationships) (request : Request) (userId other : UserId) : Bool :=
  sends users rows request userId other || accepts users rows request userId other

def sendsAcceptsOrUnblocks (users : Users) (rows : UserRelationships) (request : Request) (userId other : UserId) : Bool :=
  sendsOrAccepts users rows request userId other || unblocks users rows request userId other

def noRows (rows : UserRelationships) (userId other : UserId) : Bool :=
  (rows.statusOf userId other).isNone && (rows.statusOf other userId).isNone

/-- Whether one of the requests that follow the rows, or an earlier one if `before`, was an act of
`userId` since the pair last had no rows. -/
def agreedSince (users : Users) (act : Users → UserRelationships → Request → UserId → UserId → Bool)
    (userId other : UserId) : UserRelationships → Bool → List Request → Bool
  | _, before, [] => before
  | rows, before, request :: requests =>
      agreedSince users act userId other (after users rows request)
        (!noRows (after users rows request) userId other && (before || act users rows request userId other)) requests

def agreed (users : Users) (act : Users → UserRelationships → Request → UserId → UserId → Bool)
    (requests : List Request) (userId other : UserId) : Bool := agreedSince users act userId other [] false requests

/-- Both rows of a pair are accepted only after both users have agreed. -/
def FriendsAgreed (users : Users) (act : Users → UserRelationships → Request → UserId → UserId → Bool)
    (requests : List Request) : Prop :=
  ∀ rows userId other, Runs.run (step users) [] requests = some rows →
    rows.statusOf userId other = some .ACCEPTED → rows.statusOf other userId = some .ACCEPTED →
    agreed users act requests userId other ∧ agreed users act requests other userId

/-- Blocking the sender of a request instead of answering it, and unblocking him at any later time,
makes the two users friends, if the block and the sender's row stand until then. -/
def UnblockedAreFriends (users : Users) (requests : List Request) : Prop :=
  ∀ rows userId other, Runs.run (step users) [] requests = some rows →
    rows.statusOf userId other = some .PENDING_APPROVAL → rows.statusOf other userId = some .ACCEPTED →
    let blocked := after users rows (.update other .BLOCKED userId)
    (blocked.statusOf userId other = some .BLOCKED ∧ blocked.statusOf other userId = some .ACCEPTED) ∧
      ∀ between rows', Runs.run (step users) blocked between = some rows' →
        rows'.statusOf userId other = some .BLOCKED → rows'.statusOf other userId = some .ACCEPTED →
        let unblocked := after users rows' (.update other .ACCEPTED userId)
        unblocked.statusOf userId other = some .ACCEPTED ∧ unblocked.statusOf other userId = some .ACCEPTED

variable {users : Users} {rows : UserRelationships} {userId other : UserId}

theorem noRows_eq_false {status : RelationshipStatus} (h : rows.statusOf userId other = some status) :
    noRows rows userId other = false := by simp [noRows, h]

theorem ne_of_statusOf_ne {rows' : UserRelationships} (h : rows'.statusOf userId other ≠ rows.statusOf userId other) :
    rows' ≠ rows := by
  rintro rfl
  exact h rfl

/-- A row that a request makes accepted was made so by an act of its requester. -/
theorem Change.acts {request : Request} (h : Change rows request (after users rows request))
    (hbefore : rows.statusOf userId other ≠ some .ACCEPTED)
    (hafter : (after users rows request).statusOf userId other = some .ACCEPTED) :
    sendsAcceptsOrUnblocks users rows request userId other := by
  have hrow : (after users rows request).statusOf userId other ≠ rows.statusOf userId other :=
    fun heq => hbefore (heq ▸ hafter)
  have hchanged := ne_of_statusOf_ne hrow
  have hsends : request = .create other userId → sendsAcceptsOrUnblocks users rows request userId other := by
    rintro rfl
    simp [sendsAcceptsOrUnblocks, sendsOrAccepts, sends, hchanged]
  generalize hrows' : after users rows request = rows' at h
  rw [hrows'] at hafter hchanged
  cases h with
  | nothing => exact absurd rfl hchanged
  | @request a b hne hmine htheirs =>
      simp only [statusOf_setStatus] at hafter
      split at hafter
      · cases hafter
      · split at hafter
        · next heq =>
            obtain ⟨rfl, rfl⟩ := heq
            exact hsends rfl
        · exact absurd hafter hbefore
  | @answer a b hne hmine htheirs =>
      rw [statusOf_setStatus] at hafter
      split at hafter
      · next heq =>
          obtain ⟨rfl, rfl⟩ := heq
          exact hsends rfl
      · exact absurd hafter hbefore
  | @renew a b hne hmine hblocked htheirs | @block a b hne hmine =>
      rw [statusOf_setStatus] at hafter
      split at hafter
      · cases hafter
      · exact absurd hafter hbefore
  | @accept a b hne hmine =>
      rw [statusOf_setStatus] at hafter
      split at hafter
      · next heq =>
          obtain ⟨rfl, rfl⟩ := heq
          simp [sendsAcceptsOrUnblocks, sendsOrAccepts, accepts, turnsAccepted, hmine, hrows']
      · exact absurd hafter hbefore
  | @unblock a b hne hmine htheirs =>
      rw [statusOf_setStatus] at hafter
      split at hafter
      · next heq =>
          obtain ⟨rfl, rfl⟩ := heq
          simp [sendsAcceptsOrUnblocks, unblocks, turnsAccepted, hmine, hrows']
      · exact absurd hafter hbefore
  | @lift a b hne hmine htheirs =>
      rw [statusOf_remove] at hafter
      split at hafter
      · cases hafter
      · exact absurd hafter hbefore
  | @remove a b hne =>
      rw [statusOf_removeUnlessBlocked] at hafter
      split at hafter
      · cases hafter
      · rw [statusOf_removeUnlessBlocked] at hafter
        split at hafter
        · cases hafter
        · exact absurd hafter hbefore

/-- Whoever owns an accepted row has agreed, by induction over the run. -/
theorem agreedSince_of_accepted (requests : List Request) (rows rows' : UserRelationships) (before : Bool)
    (hbefore : rows.statusOf userId other = some .ACCEPTED → before = true)
    (hrun : Runs.run (step users) rows requests = some rows')
    (haccepted : rows'.statusOf userId other = some .ACCEPTED) :
    agreedSince users sendsAcceptsOrUnblocks userId other rows before requests = true := by
  induction requests generalizing rows before with
  | nil =>
      cases hrun
      exact hbefore haccepted
  | cons request requests ih =>
      refine ih (after users rows request) _ (fun hafter => ?_) hrun
      rw [noRows_eq_false hafter, Bool.not_false, Bool.true_and, Bool.or_eq_true]
      by_cases hold : rows.statusOf userId other = some .ACCEPTED
      · exact .inl (hbefore hold)
      · exact .inr ((change_after users rows request).acts hold hafter)

/-! ### Blocking instead of answering -/

theorem ne_of_statusOf {mine theirs : RelationshipStatus} (hmine : rows.statusOf userId other = some mine)
    (htheirs : rows.statusOf other userId = some theirs) (hne : mine ≠ theirs) : userId ≠ other := by
  rintro rfl
  exact hne (Option.some.inj (hmine.symm.trans htheirs))

theorem after_block (hne : userId ≠ other) (hmine : rows.statusOf userId other = some .PENDING_APPROVAL) :
    after users rows (.update other .BLOCKED userId) = rows.setStatus userId other .BLOCKED := by
  simp [after, update, updateTransaction, hne, hmine]

/-- A block whose counterpart stands is lifted to accepted. -/
theorem after_unblock (hne : userId ≠ other) (hmine : rows.statusOf userId other = some .BLOCKED)
    (htheirs : rows.statusOf other userId = some .ACCEPTED) :
    after users rows (.update other .ACCEPTED userId) = rows.setStatus userId other .ACCEPTED := by
  simp [after, update, updateTransaction, standsAlone, hne, hmine, htheirs]

theorem statusOf_setStatus_swap (hne : userId ≠ other) (status : RelationshipStatus) :
    (rows.setStatus userId other status).statusOf other userId = rows.statusOf other userId := by
  rw [statusOf_setStatus, if_neg fun heq => hne heq.2]

theorem unblockedAreFriends (users : Users) (requests : List Request) : UnblockedAreFriends users requests := by
  intro rows userId other _ hmine htheirs
  have hne := ne_of_statusOf hmine htheirs (by decide)
  rw [after_block hne hmine]
  refine ⟨⟨statusOf_setStatus_self .., ?_⟩, fun between rows' _ hblocked hstands => ?_⟩
  · rw [statusOf_setStatus_swap hne, htheirs]
  · rw [after_unblock hne hblocked hstands]
    refine ⟨statusOf_setStatus_self .., ?_⟩
    rw [statusOf_setStatus_swap hne, hstands]

/-- For every run of requests: nobody is made a friend by others alone, and whoever unblocks the
sender of an unanswered request is his friend. -/
theorem friends_agreed (users : Users) (requests : List Request) :
    FriendsAgreed users sendsAcceptsOrUnblocks requests ∧ UnblockedAreFriends users requests := by
  refine ⟨fun rows userId other hrun hmine htheirs => ?_, unblockedAreFriends users requests⟩
  constructor
  · exact agreedSince_of_accepted requests [] rows false (fun h => by cases h) hrun hmine
  · exact agreedSince_of_accepted requests [] rows false (fun h => by cases h) hrun htheirs

/-! Bob blocks Alice instead of answering her request, and lifts the block again. -/

def unansweredRequest : List Request :=
  [.create "bob" "alice", .update "alice" .BLOCKED "bob", .update "alice" .ACCEPTED "bob"]

theorem not_friendsAgreed_of_unansweredRequest : ¬FriendsAgreed pairUsers sendsOrAccepts unansweredRequest := by
  intro h
  have hrun : Runs.run (step pairUsers) [] unansweredRequest =
      some [(("alice", "bob"), .ACCEPTED), (("bob", "alice"), .ACCEPTED)] := by decide +kernel
  have hbob := (h _ "alice" "bob" hrun (by decide) (by decide)).2
  have hnever : agreed pairUsers sendsOrAccepts unansweredRequest "bob" "alice" = false := by decide +kernel
  rw [hnever] at hbob
  cases hbob

end Transcendence.Relationships
