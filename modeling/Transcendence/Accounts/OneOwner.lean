import Transcendence.Accounts.Ownership
import Transcendence.Realtime.MemberAuthority

/-!
# Every project has one owner

A membership becomes OWNER only in the creation of a new project, and `removeMember` and
`updateMemberRole` do not touch one. Their checks and their writes are several awaits apart, and a
project or an account may be deleted in between; what they rely on is that a membership of an old
project which is not the owner's never becomes the owner's. So the owner of an existing project goes
only with his account, and this happens exactly when he has created the project between the check of
the account's removal and its `delete`.
-/

namespace Transcendence.Accounts

open Realtime

/-! ### What the bodies that write a membership have checked -/

/-- At every await: once the role is found not to be OWNER, the membership is `spared`. -/
def SparesOwner (spared isSelfRemoval : Prop) : Progress → Prop
  | .membershipRead (some role) => isSelfRemoval → role ≠ .OWNER → spared
  | .targetRead _ _ (some role) => role ≠ .OWNER → spared
  | .operating _ => spared
  | _ => True

def Spares (spared : ProjectId → UserId → Prop) : Request → Progress → Prop
  | .removeMember projectId userId requestingUserId => SparesOwner (spared projectId userId) (requestingUserId = userId)
  | .updateMemberRole projectId userId _ requestingUserId =>
      SparesOwner (spared projectId userId) (requestingUserId = userId)
  | _ => fun _ => True

section Bodies

variable {w w' : World} {input : Input} {request : Request} {progress progress' : Progress}

theorem SparesOwner.mono {spared spared' isSelfRemoval : Prop} (h : SparesOwner spared isSelfRemoval progress)
    (hmono : spared → spared') : SparesOwner spared' isSelfRemoval progress := by
  cases progress with
  | membershipRead member =>
      cases member with
      | none => trivial
      | some role => exact fun hself hrole => hmono (h hself hrole)
  | targetRead role userId target =>
      cases target with
      | none => trivial
      | some role => exact fun hrole => hmono (h hrole)
  | operating userId => exact hmono h
  | _ => trivial

theorem Spares.mono {spared spared' : ProjectId → UserId → Prop} (h : Spares spared request progress)
    (hmono : ∀ projectId userId, spared projectId userId → spared' projectId userId) :
    Spares spared' request progress := by
  cases request with
  | removeMember projectId userId requestingUserId => exact SparesOwner.mono h (hmono projectId userId)
  | updateMemberRole projectId userId newRole requestingUserId => exact SparesOwner.mono h (hmono projectId userId)
  | _ => trivial

theorem spares_begun (spared : ProjectId → UserId → Prop) (request : Request) : Spares spared request .begun := by
  cases request <;> trivial

theorem ne_owner_of_mayRemove {isSelfRemoval : Bool} {requester memberToRemove : Role}
    (h : World.mayRemove isSelfRemoval requester memberToRemove) : memberToRemove ≠ .OWNER := by
  rintro rfl
  simp [World.mayRemove] at h

theorem ne_owner_of_mayUpdateRole {newRole : AssignableRole} {requester memberToUpdate : Role}
    (h : World.mayUpdateRole newRole requester memberToUpdate) : memberToUpdate ≠ .OWNER := by
  rintro rfl
  simp [World.mayUpdateRole] at h

theorem sparesOwner_of_membershipRead {spared isSelfRemoval : Prop} {member : Option Role}
    (hread : isSelfRemoval → ∀ role, member = some role → role ≠ .OWNER → spared) :
    SparesOwner spared isSelfRemoval (.membershipRead member) := by
  cases member with
  | none => trivial
  | some role => exact fun hself => hread hself role rfl

theorem sparesOwner_of_targetRead {spared isSelfRemoval : Prop} {requester : Role} {userId : UserId}
    {target : Option Role} (hread : ∀ role, target = some role → role ≠ .OWNER → spared) :
    SparesOwner spared isSelfRemoval (.targetRead requester userId target) := by
  cases target with
  | none => trivial
  | some role => exact hread role rfl

theorem spares_of_removeMember {spared : Prop} {projectId : ProjectId} {userId requestingUserId : UserId}
    (h : w.removeMember input projectId userId requestingUserId progress = some (w', progress'))
    (hread : ∀ role, w.members projectId userId = some role → role ≠ .OWNER → spared)
    (hspares : SparesOwner spared (requestingUserId = userId) progress) :
    SparesOwner spared (requestingUserId = userId) progress' := by
  cases progress with
  | begun =>
      cases h
      trivial
  | readingMembership =>
      obtain ⟨rfl, rfl⟩ := World.await_eq_some.mp h
      split
      · refine sparesOwner_of_membershipRead fun hself => ?_
        rwa [hself]
      · trivial
  | membershipRead member =>
      cases member with
      | none =>
          obtain ⟨rfl, rfl⟩ := World.threw_eq_some.mp h
          trivial
      | some role =>
          simp only [World.removeMember] at h
          split_ifs at h with hself hmay hmanage
          · cases h
            exact hspares hself (ne_owner_of_mayRemove hmay)
          · obtain ⟨rfl, rfl⟩ := World.threw_eq_some.mp h
            trivial
          · cases h
            trivial
          · obtain ⟨rfl, rfl⟩ := World.threw_eq_some.mp h
            trivial
  | readingTarget role target =>
      obtain ⟨rfl, rfl⟩ := World.await_eq_some.mp h
      split
      · exact sparesOwner_of_targetRead hread
      · trivial
  | targetRead role target member =>
      cases member with
      | none =>
          obtain ⟨rfl, rfl⟩ := World.threw_eq_some.mp h
          trivial
      | some memberToRemove =>
          simp only [World.removeMember] at h
          split_ifs at h with hmay
          · cases h
            exact hspares (ne_owner_of_mayRemove hmay)
          · obtain ⟨rfl, rfl⟩ := World.threw_eq_some.mp h
            trivial
  | operating target | written target =>
      simp only [World.removeMember] at h
      split_ifs at h
      all_goals
        cases h
        trivial
  | _ => cases h

theorem spares_of_updateMemberRole {spared : Prop} {projectId : ProjectId} {userId requestingUserId : UserId}
    {newRole : AssignableRole}
    (h : w.updateMemberRole input projectId userId newRole requestingUserId progress = some (w', progress'))
    (hread : ∀ role, w.members projectId userId = some role → role ≠ .OWNER → spared)
    (hspares : SparesOwner spared (requestingUserId = userId) progress) :
    SparesOwner spared (requestingUserId = userId) progress' := by
  cases progress with
  | begun =>
      cases h
      trivial
  | readingMembership =>
      obtain ⟨rfl, rfl⟩ := World.await_eq_some.mp h
      split
      · refine sparesOwner_of_membershipRead fun hself => ?_
        rwa [hself]
      · trivial
  | membershipRead member =>
      cases member with
      | none =>
          obtain ⟨rfl, rfl⟩ := World.threw_eq_some.mp h
          trivial
      | some role =>
          simp only [World.updateMemberRole] at h
          split_ifs at h
          all_goals
            cases h
            trivial
  | readingTarget role target =>
      obtain ⟨rfl, rfl⟩ := World.await_eq_some.mp h
      split
      · exact sparesOwner_of_targetRead hread
      · trivial
  | targetRead role target member =>
      cases member with
      | none =>
          obtain ⟨rfl, rfl⟩ := World.threw_eq_some.mp h
          trivial
      | some memberToUpdate =>
          simp only [World.updateMemberRole] at h
          split_ifs at h with hmay
          · cases h
            exact hspares (ne_owner_of_mayUpdateRole hmay)
          · obtain ⟨rfl, rfl⟩ := World.threw_eq_some.mp h
            trivial
  | operating target | written target =>
      simp only [World.updateMemberRole] at h
      split_ifs at h
      all_goals
        cases h
        trivial
  | _ => cases h

/-- A turn keeps what the body has checked. -/
theorem spares_of_body {spared : ProjectId → UserId → Prop}
    (h : w.body input progress request = some (w', progress'))
    (hread : ∀ projectId userId role, w.members projectId userId = some role → role ≠ .OWNER → spared projectId userId)
    (hspares : Spares spared request progress) : Spares spared request progress' := by
  cases request with
  | removeMember projectId userId requestingUserId => exact spares_of_removeMember h (hread projectId userId) hspares
  | updateMemberRole projectId userId newRole requestingUserId =>
      exact spares_of_updateMemberRole h (hread projectId userId) hspares
  | _ => trivial

end Bodies

namespace Platform

/-! ### The invariant -/

/-- The membership is of a project that is not new, and not its owner's. -/
def NotOwners (s : Platform) (projectId : ProjectId) (userId : UserId) : Prop :=
  projectId ∈ s.used ∧ s.members projectId userId ≠ some .OWNER

structure Inv (s : Platform) : Prop where
  foreignKeys : ∀ projectId userId, (s.members projectId userId).isSome →
    projectId ∈ s.projects ∧ userId ∈ s.accounts
  used : s.projects ⊆ s.used
  /-- What the calls in flight have checked still holds. -/
  tasks : ∀ id task, s.server.tasks id = some task → Spares s.NotOwners task.request task.progress
  /-- A user has created the projects he owns after the check of the removal of his account. -/
  owned : ∀ id removal, s.accountRemovals id = some removal →
    ∀ projectId, s.members projectId removal.userId = some .OWNER → projectId ∈ removal.created
  /-- Nobody else owns them. -/
  created : ∀ id removal, s.accountRemovals id = some removal → ∀ projectId ∈ removal.created,
    projectId ∈ s.used ∧ ∀ userId, s.members projectId userId = some .OWNER → userId = removal.userId

theorem Inv.none_of_not_mem {s : Platform} (h : s.Inv) {projectId : ProjectId} (hnew : projectId ∉ s.projects)
    (userId : UserId) : s.members projectId userId = none := by
  by_contra hne
  exact hnew (h.foreignKeys projectId userId (Option.isSome_iff_ne_none.mpr hne)).1

theorem Inv.notOwners {s : Platform} (h : s.Inv) {projectId : ProjectId} {userId : UserId} {role : Role}
    (hmember : s.members projectId userId = some role) (hrole : role ≠ .OWNER) : s.NotOwners projectId userId := by
  refine ⟨h.used (h.foreignKeys projectId userId (by rw [hmember]; rfl)).1, fun howner => hrole ?_⟩
  rw [hmember] at howner
  exact Option.some.inj howner

theorem inv_initial (users : String → Option UserId) (db : Database) : (initial users db).Inv where
  foreignKeys := db.foreignKeys
  used := Finset.Subset.refl _
  tasks _ _ htask := by cases htask
  owned _ _ hremoval := by cases hremoval
  created _ _ hremoval := by cases hremoval

/-- A step after which nobody owns a project he has not owned before. -/
structure NoNewOwner (s t : Platform) : Prop where
  members : ∀ projectId userId, t.members projectId userId = some .OWNER → s.members projectId userId = some .OWNER
  projects : t.projects ⊆ s.projects
  used : t.used = s.used
  accountRemovals : ∀ id removal, t.accountRemovals id = some removal → s.accountRemovals id = some removal

theorem NoNewOwner.inv {s t : Platform} (h : NoNewOwner s t) (hinv : s.Inv)
    (hforeignKeys : ∀ projectId userId, (t.members projectId userId).isSome →
      projectId ∈ t.projects ∧ userId ∈ t.accounts)
    (htasks : ∀ id task, t.server.tasks id = some task → Spares s.NotOwners task.request task.progress) : t.Inv where
  foreignKeys := hforeignKeys
  used := by
    rw [h.used]
    exact h.projects.trans hinv.used
  tasks id task htask := (htasks id task htask).mono fun projectId userId hnot =>
    ⟨h.used ▸ hnot.1, fun howner => hnot.2 (h.members projectId userId howner)⟩
  owned id removal hremoval projectId howner :=
    hinv.owned id removal (h.accountRemovals id removal hremoval) projectId (h.members projectId _ howner)
  created id removal hremoval projectId hcreated := by
    obtain ⟨hused, honly⟩ := hinv.created id removal (h.accountRemovals id removal hremoval) projectId hcreated
    exact ⟨h.used ▸ hused, fun userId howner => honly userId (h.members projectId userId howner)⟩

/-! ### The steps of the server -/

/-- The turns of the bodies neither make an owner nor touch one's membership. -/
theorem owner_iff_of_membershipTurn {w : World} {request : Request} {progress progress' : Progress}
    {members' : ProjectId → UserId → Option Role} {spared : ProjectId → UserId → Prop}
    (h : World.MembershipTurn w request progress members' progress') (hspares : Spares spared request progress)
    (hspared : ∀ projectId userId, spared projectId userId → w.members projectId userId ≠ some .OWNER)
    (projectId : ProjectId) (userId : UserId) :
    members' projectId userId = some .OWNER ↔ w.members projectId userId = some .OWNER := by
  by_cases hsame : members' projectId userId = w.members projectId userId
  · rw [hsame]
  · cases h with
    | same => exact absurd rfl hsame
    | adds projectId' username requestingUserId changed hnone =>
        obtain ⟨rfl, rfl⟩ := World.eq_of_setMember_ne w hsame
        rw [World.setMember_self, hnone]
        simp
    | removes projectId' changed requestingUserId target hsome =>
        obtain ⟨rfl, rfl⟩ := World.eq_of_setMember_ne w hsame
        rw [World.setMember_self]
        exact iff_of_false (by simp) (hspared projectId' changed hspares)
    | updates projectId' changed newRole requestingUserId target hsome =>
        obtain ⟨rfl, rfl⟩ := World.eq_of_setMember_ne w hsame
        rw [World.setMember_self]
        refine iff_of_false ?_ (hspared projectId' changed hspares)
        cases newRole <;> simp [AssignableRole.role]

theorem succeeds_of_added {w w' : World} {input : Input} {projectId : ProjectId} {username : String}
    {requestingUserId userId : UserId}
    (h : w.body input (.operating userId) (.addMember projectId username requestingUserId) =
      some (w', .written userId)) : input.succeeds := by
  simp only [World.body, World.addMember] at h
  split at h
  · rename_i hsucceeds
    exact hsucceeds.1
  · cases h

/-- A membership that a turn inserts refers to rows that exist. -/
theorem foreignKeys_of_turn {s : Platform} (hinv : s.Inv) {t : Server} {id : CallId} {input : Input}
    {call : CoordinatorCall} {task : Task} {progress : Progress}
    (hturn : Server.Turn s.server t id input call task progress) (hallows : s.allows (.turn id input))
    (projectId : ProjectId) (userId : UserId) (hmember : (t.world.members projectId userId).isSome) :
    projectId ∈ s.projects ∧ userId ∈ s.accounts := by
  by_cases hsame : t.world.members projectId userId = s.server.world.members projectId userId
  · exact hinv.foreignKeys projectId userId (by rwa [members, ← hsame])
  · have hmembership := World.membershipTurn_of_body hturn.hbody
    have hbody := hturn.hbody
    have htask := hturn.htask
    obtain ⟨request, before, announced⟩ := task
    generalize t.world.members = members' at hmembership hsame hmember
    cases hmembership with
    | same => exact absurd rfl hsame
    | adds projectId' username requestingUserId changed hnone =>
        obtain ⟨rfl, rfl⟩ := World.eq_of_setMember_ne _ hsame
        have hsucceeds := succeeds_of_added hbody
        simpa [allows, htask, hsucceeds, foreignKeysExist] using hallows
    | removes projectId' changed requestingUserId target hsome =>
        obtain ⟨rfl, rfl⟩ := World.eq_of_setMember_ne _ hsame
        rw [World.setMember_self] at hmember
        cases hmember
    | updates projectId' changed newRole requestingUserId target hsome =>
        obtain ⟨rfl, rfl⟩ := World.eq_of_setMember_ne _ hsame
        exact hinv.foreignKeys projectId' changed hsome

/-! ### Every step -/

theorem noNewOwner_of_turn {s : Platform} (hinv : s.Inv) {t : Server} {id : CallId} {input : Input}
    {call : CoordinatorCall} {task : Task} {progress : Progress}
    (hturn : Server.Turn s.server t id input call task progress) (projectId : ProjectId) (userId : UserId) :
    t.world.members projectId userId = some .OWNER ↔ s.members projectId userId = some .OWNER :=
  owner_iff_of_membershipTurn (World.membershipTurn_of_body hturn.hbody) (hinv.tasks id task hturn.htask)
    (fun _ _ hnot => hnot.2) projectId userId

theorem spares_of_turn {s : Platform} (hinv : s.Inv) {t : Server} {id : CallId} {input : Input}
    {call : CoordinatorCall} {task : Task} {progress : Progress}
    (hturn : Server.Turn s.server t id input call task progress) (other : CallId) (next : Task)
    (hnext : t.tasks other = some next) : Spares s.NotOwners next.request next.progress := by
  by_cases heq : other = id
  · subst heq
    obtain rfl := Option.some.inj (hturn.tasks_self.symm.trans hnext)
    exact spares_of_body hturn.hbody (fun projectId userId role => hinv.notOwners) (hinv.tasks other task hturn.htask)
  · exact hinv.tasks other next ((hturn.tasks_of_ne heq).symm.trans hnext)

theorem spares_of_quiet {s : Platform} (hinv : s.Inv) {t : Server} (hquiet : Server.Quiet s.server t) (id : CallId)
    (task : Task) (htask : t.tasks id = some task) : Spares s.NotOwners task.request task.progress := by
  rcases hquiet.tasks id task htask with ⟨old, hold, hrequest, hprogress⟩ | ⟨hbegun, -⟩
  · rw [← hrequest, ← hprogress]
    exact hinv.tasks id old hold
  · rw [hbegun]
    exact spares_begun ..

/-- A step of the server leaves the owners alone. -/
theorem inv_and_owner_iff_of_serve {s t : Platform} (hinv : s.Inv) {label : Server.Label}
    (hstep : s.serve label = some t) :
    t.Inv ∧ t.projects = s.projects ∧
      ∀ projectId userId, t.members projectId userId = some .OWNER ↔ s.members projectId userId = some .OWNER := by
  simp only [serve] at hstep
  split at hstep
  · rename_i hallows
    obtain ⟨server, hserver, rfl⟩ := Option.map_eq_some_iff.mp hstep
    rcases Server.turn_or_quiet hserver with ⟨id, input, call, task, progress, rfl, hturn⟩ | hquiet
    · have howners := noNewOwner_of_turn hinv hturn
      exact ⟨NoNewOwner.inv (s := s) ⟨fun projectId userId => (howners projectId userId).mp, Finset.Subset.refl _, rfl,
        fun _ _ hremoval => hremoval⟩ hinv (foreignKeys_of_turn hinv hturn hallows) (spares_of_turn hinv hturn), rfl,
        howners⟩
    · have hmembers : server.world.members = s.members := hquiet.members
      have hsame : ∀ projectId userId, server.world.members projectId userId = s.members projectId userId :=
        fun projectId userId => by rw [hmembers]
      refine ⟨NoNewOwner.inv (s := s) ⟨fun projectId userId howner => ?_, Finset.Subset.refl _, rfl,
        fun _ _ hremoval => hremoval⟩ hinv (fun projectId userId hmember => ?_) (spares_of_quiet hinv hquiet), rfl,
        fun projectId userId => ?_⟩
      · exact (hsame projectId userId).symm.trans howner
      · exact hinv.foreignKeys projectId userId (by rw [← hsame]; exact hmember)
      · exact iff_of_eq (congrArg (· = some Role.OWNER) (hsame projectId userId))
  · cases hstep

/-! ### Creations and removals -/

@[simp] theorem noteCreated_userId (removal : AccountRemoval) (userId : UserId) (projectId : ProjectId) :
    (removal.noteCreated userId projectId).userId = removal.userId := by
  rw [AccountRemoval.noteCreated]
  split <;> rfl

theorem mem_noteCreated {removal : AccountRemoval} {userId : UserId} {projectId projectId' : ProjectId} :
    projectId' ∈ (removal.noteCreated userId projectId).created ↔
      projectId' ∈ removal.created ∨ (projectId' = projectId ∧ removal.userId = userId) := by
  rw [AccountRemoval.noteCreated]
  split
  · rename_i hsame
    rw [Finset.mem_insert, or_comm]
    simp only [hsame, and_true]
  · rename_i hother
    simp only [hother, and_false, or_false]

/-- The members of a new project, and of the others. -/
theorem Inv.members_of_create {s : Platform} (hinv : s.Inv) {projectId : ProjectId} (hnew : projectId ∉ s.used)
    (userId : UserId) (projectId' : ProjectId) (userId' : UserId) :
    (s.server.world.setMember projectId userId (some .OWNER)).members projectId' userId' =
      if projectId' = projectId then (if userId' = userId then some .OWNER else none)
      else s.members projectId' userId' := by
  by_cases hproject : projectId' = projectId
  · subst hproject
    rw [if_pos rfl]
    by_cases huser : userId' = userId
    · subst huser
      rw [if_pos rfl, World.setMember_self]
    · rw [if_neg huser, World.setMember_of_ne _ _ fun heq => huser heq.2]
      exact hinv.none_of_not_mem (fun hmem => hnew (hinv.used hmem)) userId'
  · rw [if_neg hproject, World.setMember_of_ne _ _ fun heq => hproject heq.1]
    rfl

/-- What the commit of a creation does. -/
structure Creates (s t : Platform) (userId : UserId) (projectId : ProjectId) : Prop where
  new : projectId ∉ s.used
  account : userId ∈ s.accounts
  members : ∀ projectId' userId', t.members projectId' userId' =
    if projectId' = projectId then (if userId' = userId then some .OWNER else none) else s.members projectId' userId'
  tasks : t.server.tasks = s.server.tasks
  accounts : t.accounts = s.accounts
  projects : t.projects = insert projectId s.projects
  used : t.used = insert projectId s.used
  accountRemovals : ∀ id removal, t.accountRemovals id = some removal →
    ∃ old, s.accountRemovals id = some old ∧ removal = old.noteCreated userId projectId

theorem Inv.creates {s t : Platform} (hinv : s.Inv) {id : Nat} {projectId : ProjectId}
    (hstep : s.commitCreate id projectId = some t) : ∃ userId, Creates s t userId projectId := by
  simp only [commitCreate] at hstep
  split at hstep
  · rename_i userId hopened
    split at hstep
    · cases hstep
    · rename_i hguard
      obtain ⟨hnew, haccount⟩ := not_or.mp hguard
      cases hstep
      refine ⟨userId, hnew, not_not.mp haccount, hinv.members_of_create hnew userId, rfl, rfl, rfl, rfl,
        fun removalId removal hremoval => ?_⟩
      obtain ⟨old, hold, hnoted⟩ := Option.map_eq_some_iff.mp hremoval
      exact ⟨old, hold, hnoted.symm⟩
  · cases hstep

variable {s t : Platform} {userId : UserId} {projectId : ProjectId}

theorem Creates.members_of_used (h : Creates s t userId projectId) {projectId' : ProjectId} (hused : projectId' ∈ s.used)
    (userId' : UserId) : t.members projectId' userId' = s.members projectId' userId' := by
  have hne : projectId' ≠ projectId := by
    rintro rfl
    exact h.new hused
  rw [h.members, if_neg hne]

theorem Creates.owner_iff (h : Creates s t userId projectId) (userId' : UserId) :
    t.members projectId userId' = some .OWNER ↔ userId' = userId := by
  rw [h.members, if_pos rfl]
  split
  · exact iff_of_true rfl ‹_›
  · exact iff_of_false (by simp) ‹_›

theorem Creates.inv (h : Creates s t userId projectId) (hinv : s.Inv) : t.Inv where
  foreignKeys projectId' userId' hmember := by
    rw [h.projects, h.accounts]
    rw [h.members] at hmember
    split at hmember
    · rename_i hproject
      split at hmember
      · rename_i huser
        rw [hproject, huser]
        exact ⟨Finset.mem_insert_self .., h.account⟩
      · cases hmember
    · obtain ⟨hproject, haccount⟩ := hinv.foreignKeys projectId' userId' hmember
      exact ⟨Finset.mem_insert_of_mem hproject, haccount⟩
  used := by
    rw [h.projects, h.used]
    exact Finset.insert_subset_insert _ hinv.used
  tasks id task htask := by
    rw [h.tasks] at htask
    refine (hinv.tasks id task htask).mono fun projectId' userId' hnot => ?_
    rw [NotOwners, h.members_of_used hnot.1, h.used]
    exact ⟨Finset.mem_insert_of_mem hnot.1, hnot.2⟩
  owned id removal hremoval projectId' howner := by
    obtain ⟨old, hold, rfl⟩ := h.accountRemovals id removal hremoval
    rw [noteCreated_userId] at howner
    rw [mem_noteCreated]
    by_cases hproject : projectId' = projectId
    · subst hproject
      exact Or.inr ⟨rfl, (h.owner_iff old.userId).mp howner⟩
    · rw [h.members, if_neg hproject] at howner
      exact Or.inl (hinv.owned id old hold projectId' howner)
  created id removal hremoval projectId' hcreated := by
    obtain ⟨old, hold, rfl⟩ := h.accountRemovals id removal hremoval
    rw [noteCreated_userId, h.used]
    rcases mem_noteCreated.mp hcreated with hearlier | ⟨rfl, hsame⟩
    · obtain ⟨hused, honly⟩ := hinv.created id old hold projectId' hearlier
      refine ⟨Finset.mem_insert_of_mem hused, fun userId' howner => honly userId' ?_⟩
      rwa [← h.members_of_used hused]
    · refine ⟨Finset.mem_insert_self .., fun userId' howner => ?_⟩
      rw [hsame]
      exact (h.owner_iff userId').mp howner

theorem Creates.oneOwner (h : Creates s t userId projectId) (hinv : s.Inv) (hone : s.OneOwner) : t.OneOwner := by
  intro projectId' hmem
  rw [h.projects, Finset.mem_insert] at hmem
  rcases hmem with rfl | hold
  · exact ⟨userId, (h.owner_iff userId).mpr rfl, fun userId' => (h.owner_iff userId').mp⟩
  · obtain ⟨owner, howner, honly⟩ := hone projectId' hold
    have hsame := h.members_of_used (hinv.used hold)
    refine ⟨owner, (hsame owner).trans howner, fun userId' howner' => honly userId' ?_⟩
    exact (hsame userId').symm.trans howner'

/-- A step that leaves the memberships and the projects alone. -/
structure SameOwners (s t : Platform) : Prop where
  members : t.members = s.members
  projects : t.projects = s.projects
  used : t.used = s.used
  accounts : s.accounts ⊆ t.accounts
  tasks : t.server.tasks = s.server.tasks
  accountRemovals : t.accountRemovals = s.accountRemovals

theorem SameOwners.inv (h : SameOwners s t) (hinv : s.Inv) : t.Inv := by
  refine NoNewOwner.inv (s := s) ⟨fun projectId userId howner => ?_, h.projects.subset, h.used,
    fun id removal hremoval => ?_⟩ hinv (fun projectId userId hmember => ?_) fun id task htask => ?_
  · rwa [← h.members]
  · rwa [← h.accountRemovals]
  · rw [h.members] at hmember
    obtain ⟨hproject, haccount⟩ := hinv.foreignKeys projectId userId hmember
    exact ⟨h.projects ▸ hproject, h.accounts haccount⟩
  · rw [h.tasks] at htask
    exact hinv.tasks id task htask

theorem SameOwners.oneOwner (h : SameOwners s t) (hone : s.OneOwner) : t.OneOwner := by
  intro projectId hmem
  rw [h.members]
  exact hone projectId (h.projects ▸ hmem)

theorem not_owner_of_not_ownsProject (hinv : s.Inv) (hfree : ¬s.ownsProject userId) (projectId : ProjectId) :
    s.members projectId userId ≠ some .OWNER := by
  intro howner
  refine hfree (decide_eq_true ⟨projectId, ?_, howner⟩)
  exact (hinv.foreignKeys projectId userId (by rw [howner]; rfl)).1

theorem inv_of_checkAccountRemoval (hinv : s.Inv) {id : Nat} (hstep : s.checkAccountRemoval id userId = some t) :
    t.Inv := by
  simp only [checkAccountRemoval] at hstep
  split at hstep
  · cases hstep
  · rename_i hguard
    have hfree := not_owner_of_not_ownsProject hinv (not_or.mp hguard).2
    cases hstep
    have hnew : ∀ removalId removal,
        Function.update s.accountRemovals id (some ⟨userId, ∅⟩) removalId = some removal →
        removal = ⟨userId, ∅⟩ ∨ s.accountRemovals removalId = some removal := by
      intro removalId removal hremoval
      by_cases heq : removalId = id
      · subst heq
        rw [Function.update_self] at hremoval
        exact Or.inl (Option.some.inj hremoval).symm
      · exact Or.inr ((Function.update_of_ne heq ..).symm.trans hremoval)
    refine ⟨hinv.foreignKeys, hinv.used, hinv.tasks, fun removalId removal hremoval => ?_,
      fun removalId removal hremoval => ?_⟩
    · rcases hnew removalId removal hremoval with rfl | hold
      · exact fun projectId howner => absurd howner (hfree projectId)
      · exact hinv.owned removalId removal hold
    · rcases hnew removalId removal hremoval with rfl | hold
      · exact fun projectId hmem => absurd hmem (Finset.notMem_empty projectId)
      · exact hinv.created removalId removal hold

theorem withoutProject_members (w : World) (projectId projectId' : ProjectId) (userId : UserId) :
    (withoutProject w projectId).members projectId' userId =
      if projectId' = projectId then none else w.members projectId' userId := by
  by_cases hproject : projectId' = projectId
  · subst hproject
    simp only [withoutProject, Function.update_self, if_true]
  · simp only [withoutProject, Function.update_of_ne hproject, if_neg hproject]

theorem withoutAccount_members (w : World) (userId userId' : UserId) (projectId : ProjectId) :
    (withoutAccount w userId).members projectId userId' =
      if userId' = userId then none else w.members projectId userId' := by
  by_cases huser : userId' = userId
  · subst huser
    rw [if_pos rfl]
    exact Function.update_self ..
  · rw [if_neg huser]
    exact Function.update_of_ne huser ..

/-- A removed project takes its memberships along, and leaves the others. -/
theorem inv_and_oneOwner_of_deleteProject (hinv : s.Inv) {id : Nat} (hstep : s.deleteProject id = some t) :
    t.Inv ∧ (s.OneOwner → t.OneOwner) := by
  obtain ⟨projectId, -, hstep⟩ := Option.map_eq_some_iff.mp hstep
  split at hstep
  · subst hstep
    have hmembers := withoutProject_members s.server.world projectId
    refine ⟨NoNewOwner.inv (s := s) ⟨fun projectId' userId howner => ?_, Finset.erase_subset .., rfl,
      fun _ _ hremoval => hremoval⟩ hinv (fun projectId' userId hmember => ?_) hinv.tasks, fun hone projectId' hmem => ?_⟩
    · rw [members, hmembers] at howner
      split at howner
      · cases howner
      · exact howner
    · rw [members, hmembers] at hmember
      split at hmember
      · cases hmember
      · rename_i hne
        obtain ⟨hproject, haccount⟩ := hinv.foreignKeys projectId' userId hmember
        exact ⟨Finset.mem_erase.mpr ⟨hne, hproject⟩, haccount⟩
    · obtain ⟨hne, hproject⟩ := Finset.mem_erase.mp hmem
      simp only [members, hmembers, if_neg hne]
      exact hone projectId' hproject
  · subst hstep
    have hsame : SameOwners s { s with projectRemovals := Function.update s.projectRemovals id none } :=
      ⟨rfl, rfl, rfl, Finset.Subset.refl _, rfl, rfl⟩
    exact ⟨hsame.inv hinv, hsame.oneOwner⟩

/-- A removed account takes its memberships along, and leaves the others. -/
structure Deletes (s t : Platform) (userId : UserId) : Prop where
  members : ∀ projectId userId', t.members projectId userId' =
    if userId' = userId then none else s.members projectId userId'
  accounts : ∀ userId', userId' ≠ userId → userId' ∈ s.accounts → userId' ∈ t.accounts
  projects : t.projects = s.projects
  used : t.used = s.used
  tasks : t.server.tasks = s.server.tasks
  accountRemovals : ∀ id removal, t.accountRemovals id = some removal → s.accountRemovals id = some removal

theorem Inv.deletes (hinv : s.Inv) {id : Nat} (hstep : s.deleteAccount id = some t) :
    ∃ removal, s.accountRemovals id = some removal ∧ Deletes s t removal.userId := by
  obtain ⟨removal, hremoval, hstep⟩ := Option.map_eq_some_iff.mp hstep
  have hended : ∀ other found, Function.update s.accountRemovals id none other = some found →
      s.accountRemovals other = some found := by
    intro other found hfound
    by_cases heq : other = id
    · subst heq
      rw [Function.update_self] at hfound
      cases hfound
    · rwa [Function.update_of_ne heq] at hfound
  refine ⟨removal, hremoval, ?_⟩
  split at hstep
  · subst hstep
    exact ⟨fun projectId userId' => withoutAccount_members .., fun userId' hne hmem => Finset.mem_erase.mpr ⟨hne, hmem⟩,
      rfl, rfl, rfl, hended⟩
  · rename_i hgone
    subst hstep
    refine ⟨fun projectId userId' => ?_, fun _ _ hmem => hmem, rfl, rfl, rfl, hended⟩
    split
    · rename_i huser
      by_contra hne
      exact hgone (huser ▸ (hinv.foreignKeys projectId userId' (Option.isSome_iff_ne_none.mpr hne)).2)
    · rfl

theorem Deletes.inv (h : Deletes s t userId) (hinv : s.Inv) : t.Inv := by
  refine NoNewOwner.inv (s := s) ⟨fun projectId userId' howner => ?_, h.projects.subset, h.used, h.accountRemovals⟩ hinv
    (fun projectId userId' hmember => ?_) fun id task htask => ?_
  · rw [h.members] at howner
    split at howner
    · cases howner
    · exact howner
  · rw [h.members] at hmember
    split at hmember
    · cases hmember
    · rename_i hne
      obtain ⟨hproject, haccount⟩ := hinv.foreignKeys projectId userId' hmember
      exact ⟨h.projects ▸ hproject, h.accounts userId' hne haccount⟩
  · rw [h.tasks] at htask
    exact hinv.tasks id task htask

/-- After the removal of an account every project has one owner, if and only if no project that its
user has created since the check is left. -/
theorem Deletes.oneOwner_iff {removal : AccountRemoval} (h : Deletes s t removal.userId) (hinv : s.Inv) {id : Nat}
    (hremoval : s.accountRemovals id = some removal) (hone : s.OneOwner) :
    t.OneOwner ↔ Disjoint removal.created s.projects := by
  rw [Finset.disjoint_left]
  constructor
  · intro hafter projectId hcreated hmem
    obtain ⟨owner, howner, -⟩ := hafter projectId (h.projects ▸ hmem)
    rw [h.members] at howner
    split at howner
    · cases howner
    · rename_i hne
      exact hne ((hinv.created id removal hremoval projectId hcreated).2 owner howner)
  · intro hdisjoint projectId hmem
    rw [h.projects] at hmem
    obtain ⟨owner, howner, honly⟩ := hone projectId hmem
    have hne : owner ≠ removal.userId := by
      rintro rfl
      exact hdisjoint (hinv.owned id removal hremoval projectId howner) hmem
    refine ⟨owner, by simp only [h.members, if_neg hne, howner], fun userId' howner' => honly userId' ?_⟩
    simp only [h.members] at howner'
    split at howner'
    · cases howner'
    · exact howner'

/-! ### Over whole runs -/

theorem sameOwners_of_joinCreated {id : Nat} (hstep : s.joinCreated id = some t) : SameOwners s t := by
  simp only [joinCreated] at hstep
  split at hstep
  · cases hstep
    exact ⟨rfl, rfl, rfl, Finset.Subset.refl _, rfl, rfl⟩
  · cases hstep

theorem sameOwners_of_register {username : String} (hstep : s.register username userId = some t) : SameOwners s t := by
  simp only [register] at hstep
  split at hstep
  · cases hstep
  · cases hstep
    exact ⟨rfl, rfl, rfl, Finset.subset_insert .., rfl, rfl⟩

/-- The other steps keep the one owner of every project. -/
theorem inv_and_oneOwner_of_step (hinv : s.Inv) {label : Label} (hstep : s.step label = some t)
    (hother : ∀ id, label ≠ .deleteAccount id) : t.Inv ∧ (s.OneOwner → t.OneOwner) := by
  have hsame : SameOwners s t → t.Inv ∧ (s.OneOwner → t.OneOwner) := fun h => ⟨h.inv hinv, h.oneOwner⟩
  cases label with
  | server label =>
      obtain ⟨hafter, hprojects, howners⟩ := inv_and_owner_iff_of_serve hinv hstep
      refine ⟨hafter, fun hone projectId hmem => ?_⟩
      obtain ⟨owner, howner, honly⟩ := hone projectId (hprojects ▸ hmem)
      exact ⟨owner, (howners projectId owner).mpr howner,
        fun userId howner' => honly userId ((howners projectId userId).mp howner')⟩
  | openCreate id userId =>
      simp only [step, openCreate] at hstep
      split at hstep
      · cases hstep
      · cases hstep
        exact hsame ⟨rfl, rfl, rfl, Finset.Subset.refl _, rfl, rfl⟩
  | commitCreate id projectId =>
      obtain ⟨userId, hcreates⟩ := hinv.creates hstep
      exact ⟨hcreates.inv hinv, hcreates.oneOwner hinv⟩
  | joinCreated id => exact hsame (sameOwners_of_joinCreated hstep)
  | checkProjectRemoval id projectId userId =>
      simp only [step, checkProjectRemoval] at hstep
      split at hstep
      · cases hstep
      · cases hstep
        exact hsame ⟨rfl, rfl, rfl, Finset.Subset.refl _, rfl, rfl⟩
  | deleteProject id => exact inv_and_oneOwner_of_deleteProject hinv hstep
  | checkAccountRemoval id userId =>
      refine ⟨inv_of_checkAccountRemoval hinv hstep, fun hone => ?_⟩
      simp only [step, checkAccountRemoval] at hstep
      split at hstep
      · cases hstep
      · cases hstep
        exact hone
  | deleteAccount id => exact absurd rfl (hother id)
  | register username userId => exact hsame (sameOwners_of_register hstep)

theorem inv_preserved : Runs.Preserved step Inv := by
  intro s label t hinv hstep
  cases label with
  | deleteAccount id =>
      obtain ⟨removal, -, hdeletes⟩ := hinv.deletes hstep
      exact hdeletes.inv hinv
  | _ => exact (inv_and_oneOwner_of_step hinv hstep nofun).1

/-- A step keeps the one owner of every project exactly when it does not delete an account whose
check is overtaken. -/
theorem oneOwner_iff_of_step (hinv : s.Inv) (hone : s.OneOwner) {label : Label} (hstep : s.step label = some t) :
    t.OneOwner ↔ s.NotOvertaken label := by
  cases label with
  | deleteAccount id =>
      obtain ⟨removal, hremoval, hdeletes⟩ := hinv.deletes hstep
      rw [hdeletes.oneOwner_iff hinv hremoval hone]
      refine ⟨fun hdisjoint id' found hlabel hfound => ?_, fun hnot => hnot id removal rfl hremoval⟩
      cases hlabel
      obtain rfl := Option.some.inj (hremoval.symm.trans hfound)
      exact hdisjoint
  | _ => exact iff_of_true ((inv_and_oneOwner_of_step hinv hstep nofun).2 hone) nofun

/-- For any interleaving of the calls from a database in which every project has one owner: every
state has one owner for every project, if and only if no account is deleted after a creation by its
user that has overtaken the check and whose project still exists. -/
theorem oneOwner_iff_notOvertaken (users : String → Option UserId) (db : Database) (hone : (initial users db).OneOwner)
    (labels : List Label) (s : Platform) (hrun : Runs.run step (initial users db) labels = some s) :
    (∀ earlier, earlier <+: labels → ∀ t, Runs.run step (initial users db) earlier = some t → t.OneOwner) ↔
      Runs.Along step NotOvertaken (initial users db) labels :=
  (Runs.Along.iff_forall_prefix inv_preserved (fun _ _ _ hinv hone hstep => oneOwner_iff_of_step hinv hone hstep)
    (inv_initial users db) hone hrun).symm

/-! A user creates a project and a guest leaves; then the user himself leaves while another creation
of his is in flight. -/

def oneAccount : Database where
  accounts := {"user"}
  projects := ∅
  members _ _ := none
  foreignKeys _ _ hmember := by cases hmember

theorem oneOwner_of_oneAccount : (initial (fun _ => none) oneAccount).OneOwner := fun _ hmem => by cases hmem

def checkNotOvertaken (s : Platform) : Label → Bool
  | .deleteAccount id => (s.accountRemovals id).all fun removal => decide (Disjoint removal.created s.projects)
  | _ => true

theorem notOvertaken_of_check (s : Platform) (label : Label) (h : s.checkNotOvertaken label) : s.NotOvertaken label := by
  rintro id removal rfl hremoval
  rw [checkNotOvertaken, hremoval] at h
  exact of_decide_eq_true h

def guestLeaves : List Label :=
  [.openCreate 0 "user", .commitCreate 0 "project", .joinCreated 0, .register "guest" "guest",
    .checkAccountRemoval 0 "guest", .openCreate 1 "user", .commitCreate 1 "other", .deleteAccount 0,
    .checkProjectRemoval 0 "other" "user", .deleteProject 0]

theorem oneOwner_of_guestLeaves : ∃ s, Runs.run step (initial (fun _ => none) oneAccount) guestLeaves = some s ∧
    s.projects = {"project"} ∧ ∀ earlier, earlier <+: guestLeaves →
      ∀ t, Runs.run step (initial (fun _ => none) oneAccount) earlier = some t → t.OneOwner := by
  have hsome : ((Runs.run step (initial (fun _ => none) oneAccount) guestLeaves).map (·.projects)) = some {"project"} := by
    decide +kernel
  obtain ⟨s, hrun, hprojects⟩ := Option.map_eq_some_iff.mp hsome
  exact ⟨s, hrun, hprojects,
    (oneOwner_iff_notOvertaken (fun _ => none) oneAccount oneOwner_of_oneAccount guestLeaves s hrun).mpr
      (Runs.Along.of_check notOvertaken_of_check (by decide +kernel))⟩

def ownerLeaves : List Label :=
  [.openCreate 0 "user", .checkAccountRemoval 0 "user", .commitCreate 0 "project", .deleteAccount 0]

/-- The project stays without an owner. -/
theorem not_oneOwner_of_ownerLeaves : ∃ s, (initial (fun _ => none) oneAccount).OneOwner ∧
    Runs.run step (initial (fun _ => none) oneAccount) ownerLeaves = some s ∧ "project" ∈ s.projects ∧
      (∀ userId, s.members "project" userId = none) ∧ ¬s.OneOwner := by
  have hleft : (Runs.run step (initial (fun _ => none) oneAccount) ownerLeaves).map (fun s => (s.projects, s.accounts)) =
      some ({"project"}, ∅) := by decide +kernel
  obtain ⟨s, hrun, hafter⟩ := Option.map_eq_some_iff.mp hleft
  obtain ⟨hprojects, haccounts⟩ := Prod.mk.inj hafter
  have hmem : "project" ∈ s.projects := by
    rw [hprojects]
    exact Finset.mem_singleton_self _
  have hnone : ∀ userId, s.members "project" userId = none := by
    intro userId
    by_contra hne
    have hinv := inv_preserved.run (inv_initial (fun _ => none) oneAccount) hrun
    have haccount := (hinv.foreignKeys "project" userId (Option.isSome_iff_ne_none.mpr hne)).2
    rw [haccounts] at haccount
    cases haccount
  refine ⟨s, oneOwner_of_oneAccount, hrun, hmem, hnone, fun hone => ?_⟩
  obtain ⟨owner, howner, -⟩ := hone "project" hmem
  rw [hnone owner] at howner
  cases howner

end Platform

end Transcendence.Accounts
