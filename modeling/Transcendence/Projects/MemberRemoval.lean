import Transcendence.Base.Effects
import Transcendence.Projects.Assignments
import Transcendence.Realtime.Handlers

/-!
# Removing a member

`removeMember` deletes the membership, deletes the member's assignments, tells the team, takes the
member's sockets out of the room and releases his field locks, in this order. Nothing undoes what is
done when a later step throws. So it is all or nothing just if deleting the membership throws, or if
what is not done would have had nothing to do.
-/

namespace Transcendence.Projects.MemberRemoval

open Effects (Action Frames ReturnsIff effect andThen inTurn all)
open Realtime (Role Leases)
open Realtime.World (mayManage mayRemove)

structure ProjectMember where
  projectId : ProjectId
  userId : UserId
  role : Role
  deriving DecidableEq

/-- A row of `TaskAssignee` or `CalendarAssignee`. -/
structure Assignee where
  itemId : String
  userId : UserId
  deriving DecidableEq

structure Notification where
  userId : UserId
  message : String
  link : Option String
  deriving DecidableEq

/-- A socket in the room of its user, with the projects whose rooms it is in. -/
structure Socket where
  userId : UserId
  rooms : List ProjectId
  deriving DecidableEq

inductive Emission where
  | notificationNew (notification : Notification)
  | memberRemoved (projectId : ProjectId) (userId excludeUserId : UserId)
  | fieldUnlocked (projectId : ProjectId) (key : String)
  deriving DecidableEq

structure State where
  projectName : ProjectId → Option String
  username : UserId → Option String
  projectMembers : List ProjectMember
  taskProject : String → Option ProjectId
  taskAssignees : List Assignee
  calendarEventProject : String → Option ProjectId
  calendarAssignees : List Assignee
  notifications : List Notification
  sockets : List Socket
  leases : Leases
  emitted : List Emission

/-- What can throw. The notifications of one user are told apart by the user, who is sent one only. -/
inductive Step where
  | deleteMembership
  | deleteTaskAssignees
  | deleteCalendarAssignees
  | findProject
  | findUser
  | findMembers
  | createNotification (userId : UserId)
  | emitNotification (userId : UserId)
  | emitMemberRemoved
  | leaveProjectRoom
  | releaseFieldLocks
  | emitFieldUnlock (key : String)
  deriving DecidableEq

/-- The arguments of `removeMember`. -/
structure Request where
  projectId : ProjectId
  userId : UserId
  requestingUserId : UserId
  deriving DecidableEq

namespace State

def role (s : State) (projectId : ProjectId) (userId : UserId) : Option Role :=
  (s.projectMembers.find? fun member => member.projectId = projectId ∧ member.userId = userId).map (·.role)

/-- The row the `delete` is about. -/
def isRemoved (request : Request) (member : ProjectMember) : Bool :=
  member.projectId = request.projectId ∧ member.userId = request.userId

def isTaskAssignee (s : State) (request : Request) (assignee : Assignee) : Bool :=
  assignee.userId = request.userId ∧ s.taskProject assignee.itemId = some request.projectId

def isCalendarAssignee (s : State) (request : Request) (assignee : Assignee) : Bool :=
  assignee.userId = request.userId ∧ s.calendarEventProject assignee.itemId = some request.projectId

def isPresent (request : Request) (socket : Socket) : Bool :=
  socket.userId = request.userId ∧ request.projectId ∈ socket.rooms

def isHeld (request : Request) (entry : String × Realtime.FieldLockLease) : Bool :=
  entry.2.userId = request.userId ∧ entry.2.projectId = request.projectId

def emit (s : State) (emission : Emission) : State :=
  { s with emitted := s.emitted ++ [emission] }

/-- The checks that come first. -/
def allows (s : State) (request : Request) : Bool :=
  match s.role request.projectId request.requestingUserId with
  | none => false
  | some requester =>
      if request.requestingUserId = request.userId then mayRemove true requester requester
      else mayManage requester && (s.role request.projectId request.userId).any (mayRemove false requester)

/-- The members who are told about it. -/
def remainingMembers (s : State) (request : Request) : List ProjectMember :=
  s.projectMembers.filter fun member =>
    member.projectId = request.projectId ∧ member.userId ≠ request.requestingUserId

end State

section Steps

variable (fails : Step → Bool) (request : Request)

/-- `projectMember.delete` -/
def deleteMembership : Action State := fun s =>
  effect (fails .deleteMembership || !s.projectMembers.any (State.isRemoved request)) (fun s =>
    { s with projectMembers := s.projectMembers.filter fun member => !State.isRemoved request member }) s

def deleteTaskAssignees : Action State :=
  effect (fails .deleteTaskAssignees) fun s =>
    { s with taskAssignees := s.taskAssignees.filter fun assignee => !s.isTaskAssignee request assignee }

def deleteCalendarAssignees : Action State :=
  effect (fails .deleteCalendarAssignees) fun s =>
    { s with calendarAssignees := s.calendarAssignees.filter fun assignee => !s.isCalendarAssignee request assignee }

/-- The two `findUniqueOrThrow` and the `findMany`. -/
def findTeam : Action State := fun s =>
  (s, !fails .findProject && (s.projectName request.projectId).isSome &&
    (!fails .findUser && (s.username request.userId).isSome) && !fails .findMembers)

/-- `NotificationsService.create` -/
def create (userId : UserId) (message : String) (link : Option String) : Action State :=
  andThen
    (effect (fails (.createNotification userId)) fun s =>
      { s with notifications := s.notifications ++ [⟨userId, message, link⟩] })
    (effect (fails (.emitNotification userId)) fun s => s.emit (.notificationNew ⟨userId, message, link⟩))

def isSelfRemoval : Bool :=
  request.requestingUserId = request.userId

def removalMessage (projectName username : String) : String :=
  if isSelfRemoval request then username ++ " left \"" ++ projectName ++ "\""
  else username ++ " was removed from \"" ++ projectName ++ "\""

/-- The notifications, with what has been found. -/
def notify (projectName username : String) (remainingMembers : List ProjectMember) : Action State :=
  andThen
    (all (remainingMembers.map fun member =>
      create fails member.userId (removalMessage request projectName username)
        (some ("/" ++ request.projectId ++ "/project-settings"))))
    (if isSelfRemoval request then inTurn []
      else create fails request.userId ("You were removed from \"" ++ projectName ++ "\"") none)

def notifyTeam : Action State := fun s =>
  notify fails request ((s.projectName request.projectId).getD "") ((s.username request.userId).getD "")
    (s.remainingMembers request) s

def emitMemberRemoved : Action State :=
  effect (fails .emitMemberRemoved) fun s =>
    s.emit (.memberRemoved request.projectId request.userId request.requestingUserId)

def leaveProjectRoom : Action State :=
  effect (fails .leaveProjectRoom) fun s =>
    { s with sockets := s.sockets.map fun socket =>
        if socket.userId = request.userId then { socket with rooms := socket.rooms.filter (· ≠ request.projectId) }
        else socket }

def releaseFieldLocks : Action State :=
  effect (fails .releaseFieldLocks) fun s =>
    { s with leases := (s.leases.releaseUserInProject request.userId request.projectId).1 }

/-- The loop over the released locks. -/
def emitFieldUnlocks (released : List Realtime.ReleasedFieldLock) : Action State :=
  inTurn (released.map fun released =>
    effect (fails (.emitFieldUnlock released.key)) fun s =>
      s.emit (.fieldUnlocked released.lock.projectId released.key))

def unlockFields : Action State := fun s =>
  andThen (releaseFieldLocks fails request)
    (emitFieldUnlocks fails (s.leases.releaseUserInProject request.userId request.projectId).2) s

/-- What comes before the member's sockets leave the room. -/
def announce : Action State :=
  inTurn [deleteMembership fails request,
    all [deleteTaskAssignees fails request, deleteCalendarAssignees fails request],
    findTeam fails request, notifyTeam fails request, emitMemberRemoved fails request]

/-- `removeMember`: the state it leaves and whether it returns, if these steps throw. -/
def removeMember : Action State := fun s =>
  if s.allows request then
    andThen (announce fails request) (andThen (leaveProjectRoom fails request) (unlockFields fails request)) s
  else (s, false)

end Steps

/-! ### What is removed, and what is left -/

/-- Nothing of the member is left in the project. -/
structure AllGone (request : Request) (t : State) : Prop where
  membership : ∀ member ∈ t.projectMembers, State.isRemoved request member = false
  taskAssignees : ∀ assignee ∈ t.taskAssignees, t.isTaskAssignee request assignee = false
  calendarAssignees : ∀ assignee ∈ t.calendarAssignees, t.isCalendarAssignee request assignee = false
  sockets : ∀ socket ∈ t.sockets, State.isPresent request socket = false
  leases : ∀ entry ∈ t.leases, State.isHeld request entry = false

/-- Everything is as it was. -/
structure NoneGone (s t : State) : Prop where
  membership : t.projectMembers = s.projectMembers
  taskAssignees : t.taskAssignees = s.taskAssignees
  calendarAssignees : t.calendarAssignees = s.calendarAssignees
  sockets : t.sockets = s.sockets
  leases : t.leases = s.leases

def AllOrNothing (request : Request) (s t : State) : Prop :=
  AllGone request t ∨ NoneGone s t

/-- Nothing throws until the sockets leave the room. -/
structure Announces (fails : Step → Bool) (request : Request) (s : State) : Prop where
  deleteMembership : fails .deleteMembership = false
  deleteTaskAssignees : fails .deleteTaskAssignees = false
  deleteCalendarAssignees : fails .deleteCalendarAssignees = false
  findProject : fails .findProject = false ∧ (s.projectName request.projectId).isSome
  findUser : fails .findUser = false ∧ (s.username request.userId).isSome
  findMembers : fails .findMembers = false
  remaining : ∀ member ∈ s.remainingMembers request, member.userId ≠ request.userId →
    fails (.createNotification member.userId) = false ∧ fails (.emitNotification member.userId) = false
  removed : request.requestingUserId ≠ request.userId →
    fails (.createNotification request.userId) = false ∧ fails (.emitNotification request.userId) = false
  emitMemberRemoved : fails .emitMemberRemoved = false

section Frames

variable {α : Type} (fails : Step → Bool) (request : Request)

/-- A part of the state that notifying does not touch. -/
structure Unannounced (f : State → α) : Prop where
  notifications : ∀ s notifications, f { s with notifications } = f s
  emitted : ∀ s emitted, f { s with emitted } = f s

variable {f : State → α}

theorem create_frames (hf : Unannounced f) (userId : UserId) (message : String) (link : Option String) :
    Frames f (create fails userId message link) :=
  (Frames.effect (fun s => hf.notifications s _) _).andThen (Frames.effect (fun s => hf.emitted s _) _)

theorem notifyTeam_frames (hf : Unannounced f) : Frames f (notifyTeam fails request) := by
  intro s
  have hnotify : ∀ projectName username members, Frames f (notify fails request projectName username members) := by
    intro projectName username members
    apply Frames.andThen
    · apply Frames.all
      intro a ha
      obtain ⟨member, _, rfl⟩ := List.mem_map.mp ha
      exact create_frames fails hf _ _ _
    · split
      · exact fun _ => rfl
      · exact create_frames fails hf _ _ _
  exact hnotify _ _ _ s

theorem findTeam_frames : Frames f (findTeam fails request) := fun _ => rfl

theorem emitMemberRemoved_frames (hf : Unannounced f) : Frames f (emitMemberRemoved fails request) :=
  Frames.effect (fun s => hf.emitted s _) _

/-- What is not about memberships and assignments is left alone until the sockets leave the room. -/
theorem announce_frames (hf : Unannounced f) (hmembers : ∀ s projectMembers, f { s with projectMembers } = f s)
    (htasks : ∀ s taskAssignees, f { s with taskAssignees } = f s)
    (hcalendar : ∀ s calendarAssignees, f { s with calendarAssignees } = f s) : Frames f (announce fails request) := by
  apply Frames.inTurn
  intro a ha
  simp only [List.mem_cons, List.not_mem_nil, or_false] at ha
  rcases ha with rfl | rfl | rfl | rfl | rfl
  · exact fun s => Frames.effect (fun s => hmembers s _) _ s
  · apply Frames.all
    intro a ha
    simp only [List.mem_cons, List.not_mem_nil, or_false] at ha
    rcases ha with rfl | rfl
    · exact Frames.effect (fun s => htasks s _) _
    · exact Frames.effect (fun s => hcalendar s _) _
  · exact findTeam_frames fails request
  · exact notifyTeam_frames fails request hf
  · exact emitMemberRemoved_frames fails request hf

/-- What is left once the sockets are to leave the room touches the sockets, the locks and what is emitted. -/
theorem unlockFields_frames (hemitted : ∀ s emitted, f { s with emitted } = f s)
    (hleases : ∀ s leases, f { s with leases } = f s) : Frames f (unlockFields fails request) := by
  intro s
  apply Frames.andThen
  · exact Frames.effect (fun s => hleases s _) _
  · apply Frames.inTurn
    intro a ha
    obtain ⟨released, _, rfl⟩ := List.mem_map.mp ha
    exact Frames.effect (fun s => hemitted s _) _

end Frames

/-! ### Which steps are taken -/

section Taken

variable {fails : Step → Bool} {request : Request} {s : State}

theorem role_isSome_iff {projectId : ProjectId} {userId : UserId} :
    (s.role projectId userId).isSome ↔ ∃ member ∈ s.projectMembers, member.projectId = projectId ∧ member.userId = userId := by
  rw [State.role, Option.isSome_map, List.find?_isSome]
  simp only [decide_eq_true_eq]

/-- Who may be removed is a member. -/
theorem any_isRemoved_of_allows (hallows : s.allows request = true) :
    s.projectMembers.any (State.isRemoved request) = true := by
  have hrole : (s.role request.projectId request.userId).isSome := by
    unfold State.allows at hallows
    split at hallows
    · cases hallows
    · case h_2 requester hrequester =>
        split at hallows
        · case isTrue hself => rw [← hself, hrequester]; rfl
        · rw [Bool.and_eq_true] at hallows
          obtain ⟨role, hrole, _⟩ := (Option.any_eq_true _ _).mp hallows.2
          rw [hrole]
          rfl
  obtain ⟨member, hmember, hremoved⟩ := role_isSome_iff.mp hrole
  exact List.any_eq_true.mpr ⟨member, hmember, decide_eq_true hremoved⟩

/-- The state once the membership is deleted. -/
def deleted (request : Request) (s : State) : State :=
  { s with projectMembers := s.projectMembers.filter fun member => !State.isRemoved request member }

theorem deleteMembership_eq (fails : Step → Bool) (hmember : s.projectMembers.any (State.isRemoved request) = true) :
    deleteMembership fails request s =
      if fails .deleteMembership then (s, false) else (deleted request s, true) := by
  unfold deleteMembership
  rw [hmember]
  cases fails .deleteMembership <;> rfl

/-- What tells the others about it. -/
def inform (fails : Step → Bool) (request : Request) : Action State :=
  inTurn [findTeam fails request, notifyTeam fails request, emitMemberRemoved fails request]

/-- The two `deleteMany`. -/
def deleteAssignees (fails : Step → Bool) (request : Request) : Action State :=
  all [deleteTaskAssignees fails request, deleteCalendarAssignees fails request]

theorem announce_eq (hmember : s.projectMembers.any (State.isRemoved request) = true)
    (hdelete : fails .deleteMembership = false) :
    announce fails request s = andThen (deleteAssignees fails request) (inform fails request) (deleted request s) := by
  have heq := deleteMembership_eq fails hmember
  rw [hdelete] at heq
  show andThen (deleteMembership fails request) _ s = _
  rw [Effects.andThen_of_returns (congrArg Prod.snd heq), heq]
  rfl

theorem create_returnsIff (userId : UserId) (message : String) (link : Option String) :
    ReturnsIff (create fails userId message link)
      (fails (.createNotification userId) = false ∧ fails (.emitNotification userId) = false) :=
  (Effects.effect_returnsIff _ _).andThen (Effects.effect_returnsIff _ _)

theorem notify_returnsIff (projectName username : String) (members : List ProjectMember) :
    ReturnsIff (notify fails request projectName username members)
      ((∀ member ∈ members,
          fails (.createNotification member.userId) = false ∧ fails (.emitNotification member.userId) = false) ∧
        (request.requestingUserId ≠ request.userId →
          fails (.createNotification request.userId) = false ∧ fails (.emitNotification request.userId) = false)) := by
  apply ReturnsIff.andThen
  · exact ReturnsIff.all fun member _ => create_returnsIff _ _ _
  · unfold isSelfRemoval
    by_cases hself : request.requestingUserId = request.userId
    · intro t
      simp [hself, inTurn]
    · rw [decide_eq_false hself]
      intro t
      rw [if_neg Bool.false_ne_true, create_returnsIff]
      exact ⟨fun h _ => h, fun h => h hself⟩

theorem deleteAssignees_returnsIff :
    ReturnsIff (deleteAssignees fails request)
      (fails .deleteTaskAssignees = false ∧ fails .deleteCalendarAssignees = false) := by
  intro t
  simp only [deleteAssignees, all, Bool.and_true, Bool.and_eq_true, deleteTaskAssignees, deleteCalendarAssignees]
  rw [Effects.effect_returnsIff, Effects.effect_returnsIff]

theorem deleteAssignees_frames {α : Type} {f : State → α} (htasks : ∀ s taskAssignees, f { s with taskAssignees } = f s)
    (hcalendar : ∀ s calendarAssignees, f { s with calendarAssignees } = f s) :
    Frames f (deleteAssignees fails request) := by
  apply Frames.all
  intro a ha
  simp only [List.mem_cons, List.not_mem_nil, or_false] at ha
  rcases ha with rfl | rfl
  · exact Frames.effect (fun s => htasks s _) _
  · exact Frames.effect (fun s => hcalendar s _) _

theorem inform_returns_iff (t : State) :
    (inform fails request t).2 = true ↔
      (fails .findProject = false ∧ (t.projectName request.projectId).isSome) ∧
        (fails .findUser = false ∧ (t.username request.userId).isSome) ∧ fails .findMembers = false ∧
          (∀ member ∈ t.remainingMembers request,
            fails (.createNotification member.userId) = false ∧ fails (.emitNotification member.userId) = false) ∧
          (request.requestingUserId ≠ request.userId →
            fails (.createNotification request.userId) = false ∧ fails (.emitNotification request.userId) = false) ∧
          fails .emitMemberRemoved = false := by
  have hfind : (findTeam fails request t).1 = t := rfl
  have hend : ∀ u : State, (inTurn [] u).2 = true ↔ True := fun _ => iff_of_true rfl trivial
  rw [inform, inTurn, Effects.andThen_returns_iff, inTurn, Effects.andThen_returns_iff, inTurn,
    Effects.andThen_returns_iff, hfind, notifyTeam, notify_returnsIff, emitMemberRemoved, Effects.effect_returnsIff, hend]
  simp only [findTeam, Bool.and_eq_true, Bool.not_eq_true']
  tauto

theorem announce_returns_iff (hmember : s.projectMembers.any (State.isRemoved request) = true) :
    (announce fails request s).2 = true ↔ Announces fails request s := by
  have hremaining : ∀ member, member ∈ (deleted request s).remainingMembers request ↔
      member ∈ s.remainingMembers request ∧ member.userId ≠ request.userId := by
    intro member
    simp only [State.remainingMembers, deleted, List.mem_filter, State.isRemoved, decide_eq_true_eq, Bool.not_eq_true',
      decide_eq_false_iff_not]
    tauto
  cases hdelete : fails .deleteMembership with
  | true =>
      have hthrows : ¬ (deleteMembership fails request s).2 = true := by
        rw [deleteMembership_eq fails hmember, hdelete]
        exact Bool.false_ne_true
      refine iff_of_false ?_ fun h => absurd (hdelete.symm.trans h.deleteMembership) Bool.noConfusion
      rw [announce, inTurn, Effects.andThen_of_throws hthrows]
      exact hthrows
  | false =>
      rw [announce_eq hmember hdelete, Effects.andThen_returns_iff, deleteAssignees_returnsIff, inform_returns_iff]
      have hname : ((deleteAssignees fails request) (deleted request s)).1.projectName = s.projectName :=
        deleteAssignees_frames (f := State.projectName) (fun _ _ => rfl) (fun _ _ => rfl) _
      have husername : ((deleteAssignees fails request) (deleted request s)).1.username = s.username :=
        deleteAssignees_frames (f := State.username) (fun _ _ => rfl) (fun _ _ => rfl) _
      have hmembers : ((deleteAssignees fails request) (deleted request s)).1.remainingMembers request =
          (deleted request s).remainingMembers request :=
        deleteAssignees_frames (f := fun t => t.remainingMembers request) (fun _ _ => rfl) (fun _ _ => rfl) _
      rw [hname, husername, hmembers]
      simp only [hremaining]
      constructor
      · intro h
        obtain ⟨⟨htasks, hcalendar⟩, hproject, huser, hfind, hrest, hremoved, hemit⟩ := h
        exact ⟨hdelete, htasks, hcalendar, hproject, huser, hfind, fun member hmember hne => hrest member ⟨hmember, hne⟩,
          hremoved, hemit⟩
      · intro h
        exact ⟨⟨h.deleteTaskAssignees, h.deleteCalendarAssignees⟩, h.findProject, h.findUser, h.findMembers,
          fun member hm => h.remaining member hm.1 hm.2, h.removed, h.emitMemberRemoved⟩

/-! ### The state that is left -/

theorem removeMember_of_fails (hallows : s.allows request = true) (hdelete : fails .deleteMembership = true) :
    removeMember fails request s = (s, false) := by
  have heq := deleteMembership_eq fails (any_isRemoved_of_allows hallows)
  rw [hdelete] at heq
  have hthrows : ¬ (deleteMembership fails request s).2 = true := by
    rw [heq]
    exact Bool.false_ne_true
  have hannounce : announce fails request s = (s, false) := by
    rw [announce, inTurn, Effects.andThen_of_throws hthrows, heq]
    rfl
  rw [removeMember, if_pos hallows, Effects.andThen_of_throws, hannounce]
  rw [hannounce]
  exact Bool.false_ne_true

/-- What the sockets and the locks have nothing to do with is as announcing leaves it. -/
theorem removeMember_fst {α : Type} {f : State → α} (hallows : s.allows request = true)
    (hsockets : ∀ s sockets, f { s with sockets } = f s) (hemitted : ∀ s emitted, f { s with emitted } = f s)
    (hleases : ∀ s leases, f { s with leases } = f s) :
    f (removeMember fails request s).1 = f (announce fails request s).1 := by
  rw [removeMember, if_pos hallows]
  apply Frames.andThen_right
  apply Frames.andThen
  · exact Frames.effect (fun s => hsockets s _) _
  · exact unlockFields_frames fails request hemitted hleases

/-- What notifying has nothing to do with is as the deletions leave it. -/
theorem announce_fst {α : Type} {f : State → α} (hallows : s.allows request = true)
    (hdelete : fails .deleteMembership = false) (hf : Unannounced f) :
    f (announce fails request s).1 = f (deleteAssignees fails request (deleted request s)).1 := by
  rw [announce_eq (any_isRemoved_of_allows hallows) hdelete]
  apply Frames.andThen_right
  apply Frames.inTurn
  intro a ha
  simp only [List.mem_cons, List.not_mem_nil, or_false] at ha
  rcases ha with rfl | rfl | rfl
  · exact findTeam_frames fails request
  · exact notifyTeam_frames fails request hf
  · exact emitMemberRemoved_frames fails request hf

theorem deleteAssignees_fst (t : State) :
    (deleteAssignees fails request t).1.taskAssignees =
        (if fails .deleteTaskAssignees then t.taskAssignees
          else t.taskAssignees.filter fun assignee => !t.isTaskAssignee request assignee) ∧
      (deleteAssignees fails request t).1.calendarAssignees =
        (if fails .deleteCalendarAssignees then t.calendarAssignees
          else t.calendarAssignees.filter fun assignee => !t.isCalendarAssignee request assignee) := by
  simp only [deleteAssignees, all, deleteTaskAssignees, deleteCalendarAssignees, Effects.effect_fst]
  constructor
  · split <;> split <;> rfl
  · split <;> split <;> rfl

theorem removeMember_of_announces (hallows : s.allows request = true) (hannounces : Announces fails request s) :
    removeMember fails request s =
      andThen (leaveProjectRoom fails request) (unlockFields fails request) (announce fails request s).1 := by
  rw [removeMember, if_pos hallows, Effects.andThen_of_returns]
  exact (announce_returns_iff (any_isRemoved_of_allows hallows)).mpr hannounces

theorem removeMember_of_not_announces (hallows : s.allows request = true) (hannounces : ¬ Announces fails request s) :
    removeMember fails request s = announce fails request s := by
  rw [removeMember, if_pos hallows, Effects.andThen_of_throws]
  exact fun h => hannounces ((announce_returns_iff (any_isRemoved_of_allows hallows)).mp h)

theorem announce_sockets : (announce fails request s).1.sockets = s.sockets :=
  announce_frames fails request (f := State.sockets) ⟨fun _ _ => rfl, fun _ _ => rfl⟩ (fun _ _ => rfl) (fun _ _ => rfl)
    (fun _ _ => rfl) s

theorem announce_leases : (announce fails request s).1.leases = s.leases :=
  announce_frames fails request (f := State.leases) ⟨fun _ _ => rfl, fun _ _ => rfl⟩ (fun _ _ => rfl) (fun _ _ => rfl)
    (fun _ _ => rfl) s

/-- One socket after `leaveProjectRoom`. -/
def left (request : Request) (socket : Socket) : Socket :=
  if socket.userId = request.userId then { socket with rooms := socket.rooms.filter (· ≠ request.projectId) } else socket

theorem sockets_of_leaves (hallows : s.allows request = true) (hannounces : Announces fails request s)
    (hleave : fails .leaveProjectRoom = false) :
    (removeMember fails request s).1.sockets = s.sockets.map (left request) := by
  rw [removeMember_of_announces hallows hannounces,
    (unlockFields_frames fails request (f := State.sockets) (fun _ _ => rfl) (fun _ _ => rfl)).andThen_right,
    leaveProjectRoom, hleave, Effects.effect_of_not_fails]
  dsimp only
  rw [announce_sockets]
  rfl

theorem sockets_of_stays (hallows : s.allows request = true)
    (hstays : ¬ (Announces fails request s ∧ fails .leaveProjectRoom = false)) :
    (removeMember fails request s).1.sockets = s.sockets := by
  by_cases hannounces : Announces fails request s
  · have hleave : fails .leaveProjectRoom = true := by
      rw [← Bool.not_eq_false]
      exact fun h => hstays ⟨hannounces, h⟩
    rw [removeMember_of_announces hallows hannounces,
      (unlockFields_frames fails request (f := State.sockets) (fun _ _ => rfl) (fun _ _ => rfl)).andThen_right,
      leaveProjectRoom, hleave, Effects.effect_of_fails, announce_sockets]
  · rw [removeMember_of_not_announces hallows hannounces, announce_sockets]

theorem unlockFields_leases (t : State) :
    (unlockFields fails request t).1.leases =
      if fails .releaseFieldLocks then t.leases
      else (t.leases.releaseUserInProject request.userId request.projectId).1 := by
  rw [unlockFields, Frames.andThen_right (f := State.leases), releaseFieldLocks, Effects.effect_fst]
  · split <;> rfl
  · apply Frames.inTurn
    intro a ha
    obtain ⟨released, _, rfl⟩ := List.mem_map.mp ha
    apply Frames.effect
    exact fun _ => rfl

theorem leases_of_releases (hallows : s.allows request = true) (hannounces : Announces fails request s)
    (hleave : fails .leaveProjectRoom = false) (hrelease : fails .releaseFieldLocks = false) :
    (removeMember fails request s).1.leases = (s.leases.releaseUserInProject request.userId request.projectId).1 := by
  rw [removeMember_of_announces hallows hannounces, leaveProjectRoom, hleave, Effects.andThen_of_returns rfl,
    unlockFields_leases, hrelease, if_neg Bool.false_ne_true, Effects.effect_of_not_fails]
  dsimp only
  rw [announce_leases]

theorem leases_of_keeps (hallows : s.allows request = true)
    (hkeeps : ¬ (Announces fails request s ∧ fails .leaveProjectRoom = false ∧ fails .releaseFieldLocks = false)) :
    (removeMember fails request s).1.leases = s.leases := by
  by_cases hannounces : Announces fails request s
  · rw [removeMember_of_announces hallows hannounces, leaveProjectRoom]
    cases hleave : fails .leaveProjectRoom with
    | true =>
        rw [Effects.andThen_of_throws Bool.false_ne_true, Effects.effect_of_fails, announce_leases]
    | false =>
        have hrelease : fails .releaseFieldLocks = true := by
          rw [← Bool.not_eq_false]
          exact fun h => hkeeps ⟨hannounces, hleave, h⟩
        rw [Effects.andThen_of_returns rfl, unlockFields_leases, hrelease, if_pos rfl, Effects.effect_of_not_fails]
        dsimp only
        rw [announce_leases]
  · rw [removeMember_of_not_announces hallows hannounces, announce_leases]

end Taken

/-! ### All or nothing -/

/-- What is not done has nothing to do. -/
structure NothingLeft (fails : Step → Bool) (request : Request) (s : State) : Prop where
  taskAssignees : fails .deleteTaskAssignees = true →
    ∀ assignee ∈ s.taskAssignees, s.isTaskAssignee request assignee = false
  calendarAssignees : fails .deleteCalendarAssignees = true →
    ∀ assignee ∈ s.calendarAssignees, s.isCalendarAssignee request assignee = false
  sockets : ¬ (Announces fails request s ∧ fails .leaveProjectRoom = false) →
    ∀ socket ∈ s.sockets, State.isPresent request socket = false
  leases : ¬ (Announces fails request s ∧ fails .leaveProjectRoom = false ∧ fails .releaseFieldLocks = false) →
    ∀ entry ∈ s.leases, State.isHeld request entry = false

section AllOrNothing

variable {fails : Step → Bool} {request : Request} {s : State}

theorem not_isPresent_left (socket : Socket) : State.isPresent request (left request socket) = false := by
  rw [State.isPresent, left, decide_eq_false_iff_not]
  split
  · case isTrue huser => simp
  · case isFalse huser => exact fun h => huser h.1

theorem not_isHeld_of_released {entry : String × Realtime.FieldLockLease}
    (hentry : entry ∈ (s.leases.releaseUserInProject request.userId request.projectId).1) :
    State.isHeld request entry = false := by
  have hheld := (List.mem_filter.mp hentry).2
  rw [decide_eq_true_eq] at hheld
  exact decide_eq_false hheld

/-- Up to the assignments, what is left is what the deletions leave. -/
theorem removeMember_fst_of_deletes {α : Type} {f : State → α} (hallows : s.allows request = true)
    (hdelete : fails .deleteMembership = false) (hf : Unannounced f) (hsockets : ∀ s sockets, f { s with sockets } = f s)
    (hleases : ∀ s leases, f { s with leases } = f s) :
    f (removeMember fails request s).1 = f (deleteAssignees fails request (deleted request s)).1 :=
  (removeMember_fst hallows hsockets hf.emitted hleases).trans (announce_fst hallows hdelete hf)

theorem removeMember_projectMembers (hallows : s.allows request = true) (hdelete : fails .deleteMembership = false) :
    (removeMember fails request s).1.projectMembers = (deleted request s).projectMembers :=
  (removeMember_fst_of_deletes hallows hdelete (f := State.projectMembers) ⟨fun _ _ => rfl, fun _ _ => rfl⟩
    (fun _ _ => rfl) (fun _ _ => rfl)).trans
      (deleteAssignees_frames (f := State.projectMembers) (fun _ _ => rfl) (fun _ _ => rfl) _)

/-- Filtering leaves nothing of a kind, and not filtering just if there was nothing. -/
theorem forall_mem_ite_iff {β : Type} {p : β → Bool} {xs : List β} {fails : Bool} :
    (∀ x ∈ (if fails then xs else xs.filter fun x => !p x), p x = false) ↔ (fails = true → ∀ x ∈ xs, p x = false) := by
  cases fails with
  | true => simp
  | false => simp

theorem allGone_iff (hallows : s.allows request = true) (hdelete : fails .deleteMembership = false) :
    AllGone request (removeMember fails request s).1 ↔ NothingLeft fails request s := by
  have htask : (removeMember fails request s).1.isTaskAssignee request = s.isTaskAssignee request :=
    (removeMember_fst_of_deletes hallows hdelete (f := fun t => t.isTaskAssignee request)
      ⟨fun _ _ => rfl, fun _ _ => rfl⟩ (fun _ _ => rfl) (fun _ _ => rfl)).trans
        (deleteAssignees_frames (f := fun t => t.isTaskAssignee request) (fun _ _ => rfl) (fun _ _ => rfl) _)
  have hcalendar : (removeMember fails request s).1.isCalendarAssignee request = s.isCalendarAssignee request :=
    (removeMember_fst_of_deletes hallows hdelete (f := fun t => t.isCalendarAssignee request)
      ⟨fun _ _ => rfl, fun _ _ => rfl⟩ (fun _ _ => rfl) (fun _ _ => rfl)).trans
        (deleteAssignees_frames (f := fun t => t.isCalendarAssignee request) (fun _ _ => rfl) (fun _ _ => rfl) _)
  have htasks := removeMember_fst_of_deletes hallows hdelete (f := State.taskAssignees) ⟨fun _ _ => rfl, fun _ _ => rfl⟩
    (fun _ _ => rfl) (fun _ _ => rfl)
  have hevents := removeMember_fst_of_deletes hallows hdelete (f := State.calendarAssignees)
    ⟨fun _ _ => rfl, fun _ _ => rfl⟩ (fun _ _ => rfl) (fun _ _ => rfl)
  rw [(deleteAssignees_fst _).1] at htasks
  rw [(deleteAssignees_fst _).2] at hevents
  have htasks_iff : (∀ assignee ∈ (removeMember fails request s).1.taskAssignees,
      (removeMember fails request s).1.isTaskAssignee request assignee = false) ↔
        (fails .deleteTaskAssignees = true → ∀ assignee ∈ s.taskAssignees, s.isTaskAssignee request assignee = false) := by
    rw [htask, htasks]
    exact forall_mem_ite_iff
  have hevents_iff : (∀ assignee ∈ (removeMember fails request s).1.calendarAssignees,
      (removeMember fails request s).1.isCalendarAssignee request assignee = false) ↔
        (fails .deleteCalendarAssignees = true →
          ∀ assignee ∈ s.calendarAssignees, s.isCalendarAssignee request assignee = false) := by
    rw [hcalendar, hevents]
    exact forall_mem_ite_iff
  have hsockets_iff : (∀ socket ∈ (removeMember fails request s).1.sockets, State.isPresent request socket = false) ↔
      (¬ (Announces fails request s ∧ fails .leaveProjectRoom = false) →
        ∀ socket ∈ s.sockets, State.isPresent request socket = false) := by
    by_cases hleaves : Announces fails request s ∧ fails .leaveProjectRoom = false
    · rw [sockets_of_leaves hallows hleaves.1 hleaves.2]
      refine iff_of_true ?_ fun h => absurd hleaves h
      intro socket hsocket
      obtain ⟨socket, _, rfl⟩ := List.mem_map.mp hsocket
      exact not_isPresent_left socket
    · rw [sockets_of_stays hallows hleaves]
      exact ⟨fun h _ => h, fun h => h hleaves⟩
  have hleases_iff : (∀ entry ∈ (removeMember fails request s).1.leases, State.isHeld request entry = false) ↔
      (¬ (Announces fails request s ∧ fails .leaveProjectRoom = false ∧ fails .releaseFieldLocks = false) →
        ∀ entry ∈ s.leases, State.isHeld request entry = false) := by
    by_cases hreleases : Announces fails request s ∧ fails .leaveProjectRoom = false ∧ fails .releaseFieldLocks = false
    · rw [leases_of_releases hallows hreleases.1 hreleases.2.1 hreleases.2.2]
      exact iff_of_true (fun _ => not_isHeld_of_released) fun h => absurd hreleases h
    · rw [leases_of_keeps hallows hreleases]
      exact ⟨fun h _ => h, fun h => h hreleases⟩
  constructor
  · intro h
    exact ⟨htasks_iff.mp h.taskAssignees, hevents_iff.mp h.calendarAssignees, hsockets_iff.mp h.sockets,
      hleases_iff.mp h.leases⟩
  · intro h
    refine ⟨?_, htasks_iff.mpr h.taskAssignees, hevents_iff.mpr h.calendarAssignees, hsockets_iff.mpr h.sockets,
      hleases_iff.mpr h.leases⟩
    intro member hmember
    rw [removeMember_projectMembers hallows hdelete] at hmember
    exact Bool.not_eq_true' _ ▸ (List.mem_filter.mp hmember).2

/-- A removal that throws is all or nothing just if it is the deletion of the membership that throws or
there is nothing to do for what is not done. -/
theorem removal_allOrNothing_iff (fails : Step → Bool) (hallows : s.allows request = true) :
    AllOrNothing request s (removeMember fails request s).1 ↔
      fails .deleteMembership = true ∨ NothingLeft fails request s := by
  cases hdelete : fails .deleteMembership with
  | true =>
      rw [removeMember_of_fails hallows hdelete]
      exact iff_of_true (.inr ⟨rfl, rfl, rfl, rfl, rfl⟩) (.inl rfl)
  | false =>
      rw [AllOrNothing, allGone_iff hallows hdelete]
      have hsome : ¬ NoneGone s (removeMember fails request s).1 := by
        intro hnone
        obtain ⟨member, hmember, hremoved⟩ := List.any_eq_true.mp (any_isRemoved_of_allows hallows)
        rw [← hnone.membership, removeMember_projectMembers hallows hdelete] at hmember
        have hkept := (List.mem_filter.mp hmember).2
        rw [hremoved] at hkept
        cases hkept
      exact ⟨fun h => .inr (h.resolve_right hsome), fun h => .inl (h.resolve_left Bool.false_ne_true)⟩

end AllOrNothing

/-! ### A notification that cannot be stored -/

def team : State where
  projectName := fun projectId => if projectId = "project" then some "Transcendence" else none
  username := fun userId => if userId ∈ ["owner", "ada", "grace"] then some userId else none
  projectMembers := [⟨"project", "owner", .OWNER⟩, ⟨"project", "ada", .MEMBER⟩, ⟨"project", "grace", .MEMBER⟩]
  taskProject := fun taskId => if taskId = "task" then some "project" else none
  taskAssignees := [⟨"task", "ada"⟩]
  calendarEventProject := fun _ => none
  calendarAssignees := []
  notifications := []
  sockets := [⟨"ada", ["project"]⟩]
  leases := [("task:1", ⟨⟨"ada", "ada", none, "project", "socket", 30000⟩, "token"⟩)]
  emitted := []

def kick : Request :=
  ⟨"project", "ada", "owner"⟩

def outage (step : Step) : Bool :=
  step = .createNotification "grace"

theorem removal_allOrNothing_iff_of_outage :
    AllOrNothing kick team (removeMember outage kick team).1 ↔
      outage .deleteMembership = true ∨ NothingLeft outage kick team :=
  removal_allOrNothing_iff outage (by decide)

/-- She is no member any more, and her socket is still in the room. -/
theorem not_allOrNothing_of_outage :
    team.allows kick = true ∧ ¬ AllOrNothing kick team (removeMember outage kick team).1 := by
  refine ⟨by decide, ?_⟩
  intro h
  cases h with
  | inl hgone =>
      have hpresent := hgone.sockets ⟨"ada", ["project"]⟩ (by decide)
      cases hpresent
  | inr hnone =>
      have hmembership : (removeMember outage kick team).1.projectMembers ≠ team.projectMembers := by decide
      exact hmembership hnone.membership

end Transcendence.Projects.MemberRemoval
