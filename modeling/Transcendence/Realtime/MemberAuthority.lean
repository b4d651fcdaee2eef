import Transcendence.Realtime.MembershipFencing

/-!
# The authority behind a change of the memberships

`addMember`, `removeMember` and `updateMemberRole` read roles, and write several awaits later.
`Known` says what each of them can rely on at every await: what it has read is still true, because
it holds the project's exclusive lock, and what it has checked still holds. At the write this gives
the authority of the one who asked for it.
-/

namespace Transcendence.Realtime

/-- The project whose memberships the request changes and the user who asks for it. -/
def Request.manager : Request → Option (ProjectId × UserId)
  | addMember projectId _ requestingUserId => some (projectId, requestingUserId)
  | removeMember projectId _ requestingUserId => some (projectId, requestingUserId)
  | updateMemberRole projectId _ _ requestingUserId => some (projectId, requestingUserId)
  | _ => none

namespace World

/-! ### The turns that change a membership -/

inductive MembershipTurn (w : World) : Request → Progress → (ProjectId → UserId → Option Role) → Progress → Prop where
  | same {request : Request} {progress progress' : Progress} : MembershipTurn w request progress w.members progress'
  | adds (projectId : ProjectId) (username : String) (requestingUserId userId : UserId)
      (hnone : w.members projectId userId = none) :
      MembershipTurn w (.addMember projectId username requestingUserId) (.operating userId)
        (w.setMember projectId userId (some .MEMBER)).members (.written userId)
  | removes (projectId : ProjectId) (userId requestingUserId target : UserId)
      (hsome : (w.members projectId userId).isSome) :
      MembershipTurn w (.removeMember projectId userId requestingUserId) (.operating target)
        (w.setMember projectId userId none).members (.written userId)
  | updates (projectId : ProjectId) (userId : UserId) (newRole : AssignableRole) (requestingUserId target : UserId)
      (hsome : (w.members projectId userId).isSome) :
      MembershipTurn w (.updateMemberRole projectId userId newRole requestingUserId) (.operating target)
        (w.setMember projectId userId (some newRole.role)).members (.written userId)

variable {w w' : World} {input : Input} {request : Request} {progress progress' : Progress}

theorem MembershipTurn.of_eq (h : w = w') : MembershipTurn w request progress w'.members progress' := by
  subst h
  exact .same

theorem membershipTurn_of_addMember {projectId : ProjectId} {username : String} {requestingUserId : UserId}
    (h : w.addMember input projectId username requestingUserId progress = some (w', progress')) :
    MembershipTurn w (.addMember projectId username requestingUserId) progress w'.members progress' := by
  cases progress with
  | operating userId =>
      simp only [addMember] at h
      split at h
      · rename_i hnone
        cases h
        exact .adds projectId username requestingUserId userId (Option.isNone_iff_eq_none.mp hnone.2)
      · exact .of_eq (threw_eq_some.mp h).1
  | written userId =>
      simp only [addMember] at h
      split at h
      · obtain ⟨rfl, -⟩ := returned_eq_some.mp h
        exact .same
      · exact .of_eq (threw_eq_some.mp h).1
  | membershipRead member | userRead role member =>
      refine .of_eq ?_
      cases member <;> simp only [addMember] at h
      · exact (threw_eq_some.mp h).1
      · first | split at h <;> simp_all | simp_all
  | begun | targetRead role userId target =>
      refine .of_eq ?_
      simp only [addMember] at h
      first | split at h <;> simp_all | simp_all
  | readingMembership | readingUser role | readingTarget role userId => exact .of_eq (await_eq_some.mp h).1
  | _ => cases h

theorem membershipTurn_of_removeMember {projectId : ProjectId} {userId requestingUserId : UserId}
    (h : w.removeMember input projectId userId requestingUserId progress = some (w', progress')) :
    MembershipTurn w (.removeMember projectId userId requestingUserId) progress w'.members progress' := by
  cases progress with
  | operating target =>
      simp only [removeMember] at h
      split at h
      · rename_i hsome
        cases h
        exact .removes projectId userId requestingUserId target hsome.2
      · exact .of_eq (threw_eq_some.mp h).1
  | written target =>
      simp only [removeMember] at h
      split at h
      · obtain ⟨rfl, -⟩ := returned_eq_some.mp h
        exact .same
      · exact .of_eq (threw_eq_some.mp h).1
  | membershipRead member | targetRead role target member =>
      refine .of_eq ?_
      cases member <;> simp only [removeMember] at h
      · exact (threw_eq_some.mp h).1
      · split_ifs at h <;> simp_all
  | begun =>
      cases h
      exact .same
  | readingMembership | readingTarget role target => exact .of_eq (await_eq_some.mp h).1
  | _ => cases h

theorem membershipTurn_of_updateMemberRole {projectId : ProjectId} {userId requestingUserId : UserId}
    {newRole : AssignableRole}
    (h : w.updateMemberRole input projectId userId newRole requestingUserId progress = some (w', progress')) :
    MembershipTurn w (.updateMemberRole projectId userId newRole requestingUserId) progress w'.members progress' := by
  cases progress with
  | operating target =>
      simp only [updateMemberRole] at h
      split at h
      · rename_i hsome
        cases h
        exact .updates projectId userId newRole requestingUserId target hsome.2
      · exact .of_eq (threw_eq_some.mp h).1
  | written target =>
      refine .of_eq ?_
      simp only [updateMemberRole] at h
      split at h <;> simp_all
  | membershipRead member | targetRead role target member =>
      refine .of_eq ?_
      cases member <;> simp only [updateMemberRole] at h
      · exact (threw_eq_some.mp h).1
      · split at h <;> simp_all
  | begun =>
      cases h
      exact .same
  | readingMembership | readingTarget role target => exact .of_eq (await_eq_some.mp h).1
  | _ => cases h

theorem members_of_joinRooms {client : Socket} {projectId : ProjectId}
    (h : w.joinRooms input client projectId progress = some (w', progress')) : w'.members = w.members := by
  cases progress with
  | begun | membershipRead member =>
      simp only [joinRooms] at h
      split at h
      · obtain ⟨rfl, -⟩ : _ = w' ∧ _ := by simpa [returned] using h
        rfl
      · rw [(returned_eq_some.mp h).1]
  | readingMembership => rw [(await_eq_some.mp h).1]
  | _ => cases h

theorem membershipTurn_of_body (h : w.body input progress request = some (w', progress')) :
    MembershipTurn w request progress w'.members progress' := by
  have heffect := body_effect h
  cases request with
  | addMember projectId username requestingUserId => exact membershipTurn_of_addMember h
  | removeMember projectId userId requestingUserId => exact membershipTurn_of_removeMember h
  | updateMemberRole projectId userId newRole requestingUserId => exact membershipTurn_of_updateMemberRole h
  | joinRoom client projectId =>
      rw [members_of_joinRooms h]
      exact .same
  | _ =>
      have hsame : w'.members = w.members := funext fun projectId => heffect.members_eq (Or.inl rfl)
      rw [hsame]
      exact .same

/-! ### What a body knows about the memberships of its project -/

/-- `requestingUserId` may add members. -/
def MayAdd (members : UserId → Option Role) (requestingUserId : UserId) : Prop :=
  ∃ role, members requestingUserId = some role ∧ mayManage role

/-- `requestingUserId` may remove `userId`. -/
def MayRemove (members : UserId → Option Role) (requestingUserId userId : UserId) : Prop :=
  ∃ requester target, members requestingUserId = some requester ∧ members userId = some target ∧
    mayRemove (requestingUserId == userId) requester target ∧ (requestingUserId = userId ∨ mayManage requester)

/-- `requestingUserId` may give `userId` the role `newRole`. -/
def MayUpdateRole (members : UserId → Option Role) (requestingUserId userId : UserId) (newRole : AssignableRole) : Prop :=
  ∃ requester target, members requestingUserId = some requester ∧ members userId = some target ∧
    mayUpdateRole newRole requester target ∧ mayManage requester

def KnownToAdd (members : UserId → Option Role) (requestingUserId : UserId) : Progress → Prop
  | .membershipRead member => ∀ role, member = some role → members requestingUserId = some role
  | .readingUser role => members requestingUserId = some role ∧ mayManage role
  | .userRead role _ => members requestingUserId = some role ∧ mayManage role
  | .readingTarget role _ => members requestingUserId = some role ∧ mayManage role
  | .targetRead role _ _ => members requestingUserId = some role ∧ mayManage role
  | .operating _ => MayAdd members requestingUserId
  | .written userId => (members userId).isSome
  | _ => True

def KnownToRemove (members : UserId → Option Role) (requestingUserId userId : UserId) : Progress → Prop
  | .membershipRead member => ∀ role, member = some role → members requestingUserId = some role
  | .readingTarget role _ => members requestingUserId = some role ∧ mayManage role ∧ requestingUserId ≠ userId
  | .targetRead role _ target =>
      members requestingUserId = some role ∧ mayManage role ∧ requestingUserId ≠ userId ∧ members userId = target
  | .operating _ => MayRemove members requestingUserId userId
  | _ => True

def KnownToUpdate (members : UserId → Option Role) (requestingUserId userId : UserId) (newRole : AssignableRole) :
    Progress → Prop
  | .membershipRead member => ∀ role, member = some role → members requestingUserId = some role
  | .readingTarget role _ => members requestingUserId = some role ∧ mayManage role
  | .targetRead role _ target => members requestingUserId = some role ∧ mayManage role ∧ members userId = target
  | .operating _ => MayUpdateRole members requestingUserId userId newRole
  | _ => True

def KnownToJoin (members : UserId → Option Role) (client : Socket) : Progress → Prop
  | .membershipRead member => members client.userId = member
  | _ => True

/-- What a body under the project's exclusive lock knows about the `members` of the project. -/
def Known (members : UserId → Option Role) : Request → Progress → Prop
  | .addMember _ _ requestingUserId => KnownToAdd members requestingUserId
  | .removeMember _ userId requestingUserId => KnownToRemove members requestingUserId userId
  | .updateMemberRole _ userId newRole requestingUserId => KnownToUpdate members requestingUserId userId newRole
  | .joinRoom client _ => KnownToJoin members client
  | _ => fun _ => True

theorem known_of_not_inside (members : UserId → Option Role) (request : Request) (h : progress.inside = false) :
    Known members request progress := by
  cases progress with
  | begun | settled result => cases request <;> trivial
  | _ => cases h

theorem known_of_addMember {projectId : ProjectId} {username : String} {requestingUserId : UserId}
    (h : w.addMember input projectId username requestingUserId progress = some (w', progress'))
    (hknown : KnownToAdd (w.members projectId) requestingUserId progress) :
    KnownToAdd (w'.members projectId) requestingUserId progress' := by
  cases progress with
  | begun =>
      cases h
      trivial
  | readingMembership =>
      obtain ⟨rfl, rfl⟩ := await_eq_some.mp h
      split
      · exact fun _ hread => hread
      · trivial
  | membershipRead member =>
      cases member with
      | none =>
          obtain ⟨rfl, rfl⟩ := threw_eq_some.mp h
          trivial
      | some role =>
          simp only [addMember] at h
          split at h
          · rename_i hmanage
            cases h
            exact ⟨hknown role rfl, hmanage⟩
          · obtain ⟨rfl, rfl⟩ := threw_eq_some.mp h
            trivial
  | readingUser role | readingTarget role userId =>
      obtain ⟨rfl, rfl⟩ := await_eq_some.mp h
      split
      · exact hknown
      · trivial
  | userRead role user =>
      cases user with
      | none =>
          obtain ⟨rfl, rfl⟩ := threw_eq_some.mp h
          trivial
      | some userId =>
          cases h
          exact hknown
  | targetRead role userId target =>
      simp only [addMember] at h
      split at h
      · obtain ⟨rfl, rfl⟩ := threw_eq_some.mp h
        trivial
      · cases h
        exact ⟨role, hknown⟩
  | operating userId =>
      simp only [addMember] at h
      split at h
      · cases h
        simp [KnownToAdd, record, setMember]
      · obtain ⟨rfl, rfl⟩ := threw_eq_some.mp h
        trivial
  | written userId =>
      simp only [addMember] at h
      split at h
      · obtain ⟨rfl, rfl⟩ := returned_eq_some.mp h
        trivial
      · obtain ⟨rfl, rfl⟩ := threw_eq_some.mp h
        trivial
  | _ => cases h

theorem known_of_removeMember {projectId : ProjectId} {userId requestingUserId : UserId}
    (h : w.removeMember input projectId userId requestingUserId progress = some (w', progress'))
    (hknown : KnownToRemove (w.members projectId) requestingUserId userId progress) :
    KnownToRemove (w'.members projectId) requestingUserId userId progress' := by
  cases progress with
  | begun =>
      cases h
      trivial
  | readingMembership =>
      obtain ⟨rfl, rfl⟩ := await_eq_some.mp h
      split
      · exact fun _ hread => hread
      · trivial
  | membershipRead member =>
      cases member with
      | none =>
          obtain ⟨rfl, rfl⟩ := threw_eq_some.mp h
          trivial
      | some role =>
          have hrole := hknown role rfl
          simp only [removeMember] at h
          split_ifs at h with hself hmay hmanage
          · cases h
            subst hself
            exact ⟨role, role, hrole, hrole, by rwa [beq_self_eq_true], Or.inl rfl⟩
          · obtain ⟨rfl, rfl⟩ := threw_eq_some.mp h
            trivial
          · cases h
            exact ⟨hrole, hmanage, hself⟩
          · obtain ⟨rfl, rfl⟩ := threw_eq_some.mp h
            trivial
  | readingTarget role target =>
      obtain ⟨rfl, rfl⟩ := await_eq_some.mp h
      split
      · exact ⟨hknown.1, hknown.2.1, hknown.2.2, rfl⟩
      · trivial
  | targetRead role target member =>
      cases member with
      | none =>
          obtain ⟨rfl, rfl⟩ := threw_eq_some.mp h
          trivial
      | some memberToRemove =>
          obtain ⟨hrole, hmanage, hne, htarget⟩ := hknown
          simp only [removeMember] at h
          split_ifs at h with hmay
          · cases h
            refine ⟨role, memberToRemove, hrole, htarget, ?_, Or.inr hmanage⟩
            rwa [beq_eq_false_iff_ne.mpr hne]
          · obtain ⟨rfl, rfl⟩ := threw_eq_some.mp h
            trivial
  | operating target =>
      simp only [removeMember] at h
      split at h
      · cases h
        trivial
      · obtain ⟨rfl, rfl⟩ := threw_eq_some.mp h
        trivial
  | written target =>
      simp only [removeMember] at h
      split at h
      · obtain ⟨rfl, rfl⟩ := returned_eq_some.mp h
        trivial
      · obtain ⟨rfl, rfl⟩ := threw_eq_some.mp h
        trivial
  | _ => cases h

theorem known_of_updateMemberRole {projectId : ProjectId} {userId requestingUserId : UserId} {newRole : AssignableRole}
    (h : w.updateMemberRole input projectId userId newRole requestingUserId progress = some (w', progress'))
    (hknown : KnownToUpdate (w.members projectId) requestingUserId userId newRole progress) :
    KnownToUpdate (w'.members projectId) requestingUserId userId newRole progress' := by
  cases progress with
  | begun =>
      cases h
      trivial
  | readingMembership =>
      obtain ⟨rfl, rfl⟩ := await_eq_some.mp h
      split
      · exact fun _ hread => hread
      · trivial
  | membershipRead member =>
      cases member with
      | none =>
          obtain ⟨rfl, rfl⟩ := threw_eq_some.mp h
          trivial
      | some role =>
          simp only [updateMemberRole] at h
          split_ifs at h with hmanage
          · cases h
            exact ⟨hknown role rfl, hmanage⟩
          · obtain ⟨rfl, rfl⟩ := threw_eq_some.mp h
            trivial
  | readingTarget role target =>
      obtain ⟨rfl, rfl⟩ := await_eq_some.mp h
      split
      · exact ⟨hknown.1, hknown.2, rfl⟩
      · trivial
  | targetRead role target member =>
      cases member with
      | none =>
          obtain ⟨rfl, rfl⟩ := threw_eq_some.mp h
          trivial
      | some memberToUpdate =>
          obtain ⟨hrole, hmanage, htarget⟩ := hknown
          simp only [updateMemberRole] at h
          split_ifs at h with hmay
          · cases h
            exact ⟨role, memberToUpdate, hrole, htarget, hmay, hmanage⟩
          · obtain ⟨rfl, rfl⟩ := threw_eq_some.mp h
            trivial
  | operating target | written target =>
      simp only [updateMemberRole] at h
      split_ifs at h
      all_goals
        cases h
        trivial
  | _ => cases h

theorem known_of_joinRooms {client : Socket} {projectId : ProjectId}
    (h : w.joinRooms input client projectId progress = some (w', progress')) :
    KnownToJoin (w'.members projectId) client progress' := by
  cases progress with
  | begun | membershipRead member =>
      simp only [joinRooms] at h
      split_ifs at h
      all_goals
        cases h
        trivial
  | readingMembership =>
      obtain ⟨rfl, rfl⟩ := await_eq_some.mp h
      split
      · rfl
      · trivial
  | _ => cases h

/-- A turn of a body keeps what it knows. -/
theorem known_of_body (h : w.body input progress request = some (w', progress'))
    (hknown : Known (w.members request.projectId) request progress) :
    Known (w'.members request.projectId) request progress' := by
  cases request with
  | addMember projectId username requestingUserId => exact known_of_addMember h hknown
  | removeMember projectId userId requestingUserId => exact known_of_removeMember h hknown
  | updateMemberRole projectId userId newRole requestingUserId => exact known_of_updateMemberRole h hknown
  | joinRoom client projectId => exact known_of_joinRooms h
  | _ => trivial

end World

namespace Server

open World (Known known_of_not_inside known_of_body MembershipTurn membershipTurn_of_body)

variable {s t : Server} {id : CallId} {input : Input} {call : CoordinatorCall} {task : Task} {progress : Progress}

/-! ### Over whole runs -/

def MembershipsKnown (s : Server) : Prop :=
  ∀ id task, s.tasks id = some task → Known (s.world.members task.request.projectId) task.request task.progress

/-- Between the turns of a body under the exclusive lock nobody else changes its project's
memberships. -/
theorem MembershipsKnown.turn (h : s.MembershipsKnown) (hinv : s.Inv) (hturn : Turn s t id input call task progress) :
    t.MembershipsKnown := by
  intro other task' htask'
  by_cases heq : other = id
  · subst heq
    obtain rfl := Option.some.inj (hturn.tasks_self.symm.trans htask')
    exact known_of_body hturn.hbody (h other task hturn.htask)
  · have hold := (hturn.tasks_of_ne heq).symm.trans htask'
    by_cases hinside : task'.progress.inside
    · rw [hturn.effect.members_eq (hinv.not_exclusive hturn hold hinside heq)]
      exact h other task' hold
    · exact known_of_not_inside _ _ (Bool.eq_false_iff.mpr hinside)

theorem MembershipsKnown.quiet (h : s.MembershipsKnown) (hquiet : Quiet s t) : t.MembershipsKnown := by
  intro id task htask
  rw [hquiet.members]
  rcases hquiet.tasks id task htask with ⟨old, hold, hrequest, hprogress⟩ | ⟨hbegun, -⟩
  · rw [← hrequest, ← hprogress]
    exact h id old hold
  · exact known_of_not_inside _ _ (by rw [hbegun]; rfl)

theorem membershipsKnown_initial (users : String → Option UserId) (members : ProjectId → UserId → Option Role) :
    (initial users members).MembershipsKnown := by
  intro id task htask
  cases htask

theorem membershipsKnown_preserved : Runs.Preserved step fun s => s.Inv ∧ s.MembershipsKnown := by
  rintro s label t ⟨hinv, hknown⟩ hstep
  refine ⟨inv_preserved hinv hstep, ?_⟩
  rcases turn_or_quiet hstep with ⟨id, input, call, task, progress, -, hturn⟩ | hquiet
  · exact hknown.turn hinv hturn
  · exact hknown.quiet hquiet

/-! ### The law -/

/-- The law for a change of the membership of `userId` that `requestingUserId` has asked for, where
`members` are the memberships of the project at that moment and `after` is what the membership
becomes. -/
structure Authorized (members : UserId → Option Role) (requestingUserId userId : UserId) (after : Option Role) : Prop where
  /-- The owner's membership stays, and no other user becomes owner. -/
  owner : members userId ≠ some .OWNER ∧ after ≠ some .OWNER
  /-- Another member who is ADMIN is removed or demoted by the owner. -/
  admin : members userId = some .ADMIN → requestingUserId ≠ userId → members requestingUserId = some .OWNER
  /-- The membership of another user is changed by the owner or an admin. -/
  other : requestingUserId ≠ userId →
    members requestingUserId = some .OWNER ∨ members requestingUserId = some .ADMIN
  /-- A member who is neither changes only the membership of his own. -/
  member : members requestingUserId = some .MEMBER → requestingUserId = userId

theorem owner_or_admin_of_mayManage {role : Role} (h : World.mayManage role) : role = .OWNER ∨ role = .ADMIN := by
  cases role with
  | OWNER => exact Or.inl rfl
  | ADMIN => exact Or.inr rfl
  | MEMBER => cases h

theorem Authorized.of_mayManage {members : UserId → Option Role} {requestingUserId userId : UserId} {after : Option Role}
    {role : Role} (hrole : members requestingUserId = some role) (hmanage : World.mayManage role)
    (howner : members userId ≠ some .OWNER ∧ after ≠ some .OWNER)
    (hadmin : members userId = some .ADMIN → requestingUserId ≠ userId → role = .OWNER) :
    Authorized members requestingUserId userId after where
  owner := howner
  admin htarget hne := by rw [hrole, hadmin htarget hne]
  other _ := by
    rw [hrole]
    rcases owner_or_admin_of_mayManage hmanage with rfl | rfl
    · exact Or.inl rfl
    · exact Or.inr rfl
  member hmember := by
    obtain rfl := Option.some.inj (hrole.symm.trans hmember)
    cases hmanage

theorem authorized_of_mayRemove {members : UserId → Option Role} {requestingUserId userId : UserId}
    (h : World.MayRemove members requestingUserId userId) : Authorized members requestingUserId userId none := by
  obtain ⟨requester, target, hrequester, htarget, hmay, hwho⟩ := h
  obtain ⟨hnotOwner, hrequired⟩ := Bool.and_eq_true _ _ ▸ hmay
  have howner : members userId ≠ some .OWNER := by
    rw [htarget]
    rintro ⟨⟩
    simp at hnotOwner
  by_cases hself : requestingUserId = userId
  · exact ⟨⟨howner, by simp⟩, fun _ hne => absurd hself hne, fun hne => absurd hself hne, fun _ => hself⟩
  · refine .of_mayManage hrequester (hwho.resolve_left hself) ⟨howner, by simp⟩ fun hadmin _ => ?_
    obtain rfl := Option.some.inj (htarget.symm.trans hadmin)
    rw [beq_eq_false_iff_ne.mpr hself, Bool.false_or] at hrequired
    simpa [World.ownerRequiredForAdminTarget] using hrequired

theorem authorized_of_mayUpdateRole {members : UserId → Option Role} {requestingUserId userId : UserId}
    {newRole : AssignableRole} (h : World.MayUpdateRole members requestingUserId userId newRole) :
    Authorized members requestingUserId userId (some newRole.role) := by
  obtain ⟨requester, target, hrequester, htarget, hmay, hmanage⟩ := h
  simp only [World.mayUpdateRole, Bool.and_eq_true, Bool.or_eq_true, decide_eq_true_eq] at hmay
  obtain ⟨⟨hnotOwner, hrequired⟩, hchanges⟩ := hmay
  refine .of_mayManage hrequester hmanage ⟨?_, by cases newRole <;> simp [AssignableRole.role]⟩ fun hadmin _ => ?_
  · rw [htarget]
    rintro ⟨⟩
    exact hnotOwner rfl
  · obtain rfl := Option.some.inj (htarget.symm.trans hadmin)
    cases newRole with
    | ADMIN => exact absurd rfl hchanges
    | MEMBER => simpa [World.ownerRequiredForAdminTarget] using hrequired

/-- A membership changes in the write of a request by a user who has the authority for it. -/
theorem authorized_of_membershipTurn {w : World} {request : Request} {progress progress' : Progress}
    {members' : ProjectId → UserId → Option Role} (h : MembershipTurn w request progress members' progress')
    (hknown : Known (w.members request.projectId) request progress) {projectId : ProjectId} {userId : UserId}
    (hchanged : members' projectId userId ≠ w.members projectId userId) :
    ∃ requestingUserId, request.manager = some (projectId, requestingUserId) ∧
      Authorized (w.members projectId) requestingUserId userId (members' projectId userId) := by
  cases h with
  | same => exact absurd rfl hchanged
  | adds projectId' username requestingUserId changed hnone =>
      obtain ⟨rfl, rfl⟩ := World.eq_of_setMember_ne w hchanged
      obtain ⟨role, hrole, hmanage⟩ : World.MayAdd (w.members projectId') requestingUserId := hknown
      refine ⟨requestingUserId, rfl, ?_⟩
      rw [World.setMember_self]
      refine .of_mayManage hrole hmanage ⟨by rw [hnone]; simp, by simp⟩ fun hadmin => ?_
      rw [hnone] at hadmin
      cases hadmin
  | removes projectId' changed requestingUserId target hsome =>
      obtain ⟨rfl, rfl⟩ := World.eq_of_setMember_ne w hchanged
      refine ⟨requestingUserId, rfl, ?_⟩
      rw [World.setMember_self]
      exact authorized_of_mayRemove hknown
  | updates projectId' changed newRole requestingUserId target hsome =>
      obtain ⟨rfl, rfl⟩ := World.eq_of_setMember_ne w hchanged
      refine ⟨requestingUserId, rfl, ?_⟩
      rw [World.setMember_self]
      exact authorized_of_mayUpdateRole hknown

/-- For any calls of the server's handlers, in any interleaving: a membership changes in the turn of
an `addMember`, a `removeMember` or an `updateMemberRole`, and the user who called it has the
authority at that moment. -/
theorem authorized_of_change (users : String → Option UserId) (members : ProjectId → UserId → Option Role)
    (labels : List Label) (s : Server) (hrun : Runs.run step (initial users members) labels = some s) (label : Label)
    (t : Server) (hstep : s.step label = some t) (projectId : ProjectId) (userId : UserId)
    (hchanged : t.world.members projectId userId ≠ s.world.members projectId userId) :
    ∃ id input task requestingUserId, label = .turn id input ∧ s.tasks id = some task ∧
      task.request.manager = some (projectId, requestingUserId) ∧
      Authorized (s.world.members projectId) requestingUserId userId (t.world.members projectId userId) := by
  obtain ⟨-, hknown⟩ :=
    membershipsKnown_preserved.run ⟨inv_initial users members, membershipsKnown_initial users members⟩ hrun
  rcases turn_or_quiet hstep with ⟨id, input, call, task, progress, rfl, hturn⟩ | hquiet
  · obtain ⟨requestingUserId, hmanager, hauthorized⟩ := authorized_of_membershipTurn
      (membershipTurn_of_body hturn.hbody) (hknown id task hturn.htask) hchanged
    exact ⟨id, input, task, requestingUserId, rfl, hturn.htask, hmanager, hauthorized⟩
  · exact absurd (congrFun (congrFun hquiet.members projectId) userId) hchanged

/-! The owner demotes an admin whose removal of a guest waits for the project. -/

def ownerAdminAndGuest (projectId : ProjectId) (userId : UserId) : Option Role :=
  if projectId = "project" ∧ userId = "admin" then some .ADMIN else ownerAndGuest projectId userId

def demotion : List Label :=
  [.request 0 (.updateMemberRole "project" "admin" .MEMBER "owner"), .request 1 (.removeMember "project" "guest" "admin"),
    .coordination (.enterProject 0), .turn 0 {}, .turn 0 {}, .turn 0 {}, .turn 0 {}, .turn 0 {}]

theorem authorized_of_demotion : ∃ s t task,
    Runs.run step (initial (fun _ => none) ownerAdminAndGuest) demotion = some s ∧ s.step (.turn 0 {}) = some t ∧
      s.tasks 0 = some task ∧ task.request.manager = some ("project", "owner") ∧
      Authorized (s.world.members "project") "owner" "admin" (t.world.members "project" "admin") := by
  have hroles : ((Runs.run step (initial (fun _ => none) ownerAdminAndGuest) demotion).bind fun s =>
      (s.step (.turn 0 {})).bind fun t => (s.tasks 0).map fun task =>
        (s.world.members "project" "admin", t.world.members "project" "admin", task.request.manager)) =
      some (some .ADMIN, some .MEMBER, some ("project", "owner")) := by decide
  simp only [Option.bind_eq_some_iff, Option.map_eq_some_iff, Prod.mk.injEq] at hroles
  obtain ⟨s, hrun, t, hstep, task, htask, hbefore, hafter, hmanager⟩ := hroles
  refine ⟨s, t, task, hrun, hstep, htask, hmanager, ?_⟩
  obtain ⟨id, input, task', requestingUserId, hlabel, htask', hmanager', hauthorized⟩ :=
    authorized_of_change (fun _ => none) ownerAdminAndGuest demotion s hrun (.turn 0 {}) t hstep "project" "admin"
      (by rw [hbefore, hafter]; decide)
  cases hlabel
  obtain rfl := Option.some.inj (htask.symm.trans htask')
  cases hmanager.symm.trans hmanager'
  exact hauthorized

end Server

end Transcendence.Realtime
