import Mathlib.Data.List.Find
import Transcendence.Accounts.Avatars

/-!
# Avatars can be removed

What is uploaded for a user can be served, and can be removed by him. What stands in `avatarUrl` after
an account of 42 was created or enriched cannot: its last segment is no key that `uploadAvatar` has
made, so that `removeAvatar` refuses it, or returns without clearing it, or deletes what someone else
has uploaded. So the avatars can be removed in exactly the runs in which no link of a profile is
stored, unless it ends in the key of an upload of the very user (`avatars_removable_iff`).
-/

namespace Transcendence.Accounts.Avatars

open Auth Replacements

namespace State

def UploadedBy (s : State) (userId key : String) : Prop :=
  ⟨userId, key⟩ ∈ s.uploads

/-- The link ends in the key of an upload of the user. -/
def OwnUpload (s : State) (userId : String) (avatarUrl : Option String) : Prop :=
  ∀ url, avatarUrl = some url → s.UploadedBy userId (lastPart url)

/-- A step stores no link of a profile, unless it ends in the key of an upload of the user. -/
def StoresNoLink (s : State) : Label → Prop
  | .signUp id _ profile => s.OwnUpload id.text profile.avatarUrl
  | .enrich userId profile =>
      ∀ user, s.findUser userId = some user → isBlank user.avatarUrl = true → isBlank profile.avatarUrl = false →
        s.OwnUpload userId (profile.avatarUrl.map btrim)
  | _ => True

/-- What removals have deleted was uploaded by the user, and by nobody else. -/
def RemovesOwn (s : State) : Prop :=
  ∀ deletion ∈ s.deletions, ∀ userId, deletion.request = .removeAvatar userId →
    s.UploadedBy userId deletion.key ∧ ∀ other, s.UploadedBy other deletion.key → other = userId

/-- A removal that begins now, and whose awaits all succeed, returns, has cleared the link and deleted
nothing that the user has not uploaded. -/
structure Removed (s : State) (id : Nat) (userId : String) (t : State) : Prop where
  returned : t.calls id = some ⟨.removeAvatar userId, .ended (.ok .removed)⟩
  cleared : ∃ user, t.findUser userId = some user ∧ user.avatarUrl = none
  removesOwn : t.RemovesOwn

end State

/-- The labels of a removal that waits `awaits` times. -/
def removalLabels (id : Nat) (userId : String) (awaits : Nat) : List Label :=
  .begin id (.removeAvatar userId) :: List.replicate awaits (.proceed id)

/-- Avatars can be served and removed. -/
structure Removable (s : State) : Prop where
  served : ∀ userId key, s.UploadedBy userId key → throwIfBadRequest key = .ok ()
  accepted : ∀ id userId message, s.calls id ≠ some ⟨.removeAvatar userId, .ended (.error (.badRequest message))⟩
  removesOwn : s.RemovesOwn
  removed : ∀ id userId, s.calls id = none → (s.findUser userId).isSome →
    ∃ awaits t, Runs.run State.step s (removalLabels id userId awaits) = some t ∧ s.Removed id userId t

/-! ### Steps -/

section Steps

variable {s t : State} {id : Nat} {request : Request} {phase : Phase} {userId key : String}

@[simp] theorem State.findUser_setPhase : (s.setPhase id request phase).findUser userId = s.findUser userId := rfl

@[simp] theorem State.calls_setPhase_self : (s.setPhase id request phase).calls id = some ⟨request, phase⟩ :=
  Function.update_self ..

theorem State.findUser_updateUsers {f : User → User} (hid : ∀ user, (f user).id = user.id) (other : String) :
    (s.updateUsers userId f).findUser other = (s.findUser other).map fun user => if user.id = userId then f user else user := by
  have h := Table.find?_update (p := fun user : User => user.id = userId) (f := f) (fun user : User => decide (user.id = other))
    (fun user _ => by rw [hid]) s.users
  simp only [decide_eq_true_eq] at h
  exact h

theorem State.id_of_findUser {user : User} (h : s.findUser userId = some user) : user.id = userId := by
  simpa using List.find?_some h

theorem State.mem_of_findUser {user : User} (h : s.findUser userId = some user) : user ∈ s.users :=
  List.mem_of_find?_eq_some h

theorem State.insertUser_eq_some {user : User} (h : s.insertUser user = some t) :
    s.findUser user.id = none ∧ t = { s with users := s.users ++ [user] } := by
  rw [State.insertUser] at h
  split at h
  · cases h
  · next hnew =>
      refine ⟨?_, (Option.some.inj h).symm⟩
      rw [State.findUser, List.find?_eq_none]
      intro other hother hsame
      apply hnew
      rw [List.any_eq_true]
      exact ⟨other, hother, by simp [of_decide_eq_true hsame]⟩

theorem State.findUser_append {user : User} (hnew : s.findUser user.id = none) (other : String) :
    ({ s with users := s.users ++ [user] } : State).findUser other = if other = user.id then some user else s.findUser other := by
  rw [State.findUser, List.find?_append]
  split
  · next heq =>
      subst heq
      have hnone : s.users.find? (fun row => row.id = user.id) = none := hnew
      rw [hnone]
      simp
  · next hne =>
      have hsingle : [user].find? (fun row => row.id = other) = none := by simpa [eq_comm] using hne
      rw [hsingle, Option.or_none]
      rfl

theorem State.findUser_of_findUser_filter {user : User}
    (h : ({ s with users := s.users.filter (·.id ≠ userId) } : State).findUser key = some user) :
    s.findUser key = some user := by
  have hkey : user.id = key := State.id_of_findUser h
  have hne : user.id ≠ userId := of_decide_eq_true (List.mem_filter.mp (State.mem_of_findUser h)).2
  have hsame : (fun row : User => decide (decide (row.id ≠ userId) = true ∧ decide (row.id = key) = true)) =
      fun row => decide (row.id = key) := by
    funext row
    by_cases hrow : row.id = key
    · simp [hrow, ← hkey, hne]
    · simp [hrow]
  rw [State.findUser, List.find?_filter] at h
  rwa [State.findUser, ← hsame]

theorem State.updateAvatarUrl_of_findUser {user : User} (h : s.findUser request.userId = some user) (avatarUrl : Option String)
    (next : User → Point) :
    s.updateAvatarUrl id request avatarUrl next =
      (s.updateUsers request.userId (setAvatarUrl avatarUrl)).setPhase id request
        (.running (next (setAvatarUrl avatarUrl user))) := by
  rw [State.updateAvatarUrl, h]

theorem State.onRunning_eq_some {f : Request → Point → Option State} (h : s.onRunning id f = some t) :
    ∃ request point, s.calls id = some ⟨request, .running point⟩ ∧ f request point = some t := by
  obtain ⟨⟨request, phase⟩, hcall, hf⟩ := Option.bind_eq_some_iff.mp h
  cases phase with
  | running point => exact ⟨request, point, hcall, hf⟩
  | ended _ => cases hf

end Steps

/-! ### What holds in every run -/

structure PhaseKept (uploads : List Upload) (request : Request) (phase : Phase) : Prop where
  named : ∀ point, phase = .running point → ∃ owner : Uuid, request.userId = owner.text
  stored : ∀ avatarUrl key, phase = .running (.stored avatarUrl key) → ⟨request.userId, key⟩ ∈ uploads

structure Kept (s : State) : Prop where
  users : ∀ user ∈ s.users, user.status = .ACTIVE ∧ ∃ owner : Uuid, user.id = owner.text
  uploads : ∀ upload ∈ s.uploads, ∃ (owner uuid : Uuid) (originalname : JsString),
    upload.userId = owner.text ∧ upload.key = avatarKey owner.text uuid originalname
  calls : ∀ id request phase, s.calls id = some ⟨request, phase⟩ → PhaseKept s.uploads request phase
  bounded : ∃ bound, ∀ id, bound ≤ id → s.calls id = none

theorem kept_initial : Kept initial where
  users _ h := by cases h
  uploads _ h := by cases h
  calls _ _ _ h := by cases h
  bounded := ⟨0, fun _ _ => rfl⟩

theorem PhaseKept.ended (uploads : List Upload) (request : Request) (result : Except Error Response) :
    PhaseKept uploads request (.ended result) where
  named _ h := by cases h
  stored _ _ h := by cases h

section Kept

variable {s t : State} {id : Nat} {request : Request} {phase : Phase}

theorem State.forall_calls_setPhase {Q : Request → Phase → Prop}
    (h : ∀ id request phase, s.calls id = some ⟨request, phase⟩ → Q request phase) (hphase : Q request phase) :
    ∀ id' request' phase', (s.setPhase id request phase).calls id' = some ⟨request', phase'⟩ → Q request' phase' := by
  intro id' request' phase' hcall
  rcases Calls.update_eq_some hcall with ⟨-, hsame⟩ | ⟨-, hold⟩
  · cases hsame
    exact hphase
  · exact h id' request' phase' hold

theorem Kept.setPhase (h : Kept s) (hphase : PhaseKept s.uploads request phase) : Kept (s.setPhase id request phase) where
  users := h.users
  uploads := h.uploads
  calls := State.forall_calls_setPhase h.calls hphase
  bounded := by
    obtain ⟨bound, hbound⟩ := h.bounded
    refine ⟨max bound (id + 1), fun other hother => ?_⟩
    have hne : other ≠ id := by omega
    show Function.update s.calls id _ other = none
    rw [Function.update_of_ne hne]
    exact hbound other (by omega)

theorem Kept.insertUser (h : Kept s) {user : User} (hstatus : user.status = .ACTIVE) (owner : Uuid) (hid : user.id = owner.text) :
    Kept { s with users := s.users ++ [user] } where
  users := by
    intro other hother
    rcases List.mem_append.mp hother with hold | hnew
    · exact h.users other hold
    · rw [List.mem_singleton.mp hnew]
      exact ⟨hstatus, owner, hid⟩
  uploads := h.uploads
  calls := h.calls
  bounded := h.bounded

theorem Kept.updateUsers (h : Kept s) {f : User → User} (hf : ∀ user, (f user).id = user.id ∧ (f user).status = user.status)
    (userId : String) : Kept (s.updateUsers userId f) where
  users := by
    intro user huser
    obtain ⟨old, hold, rfl⟩ := Table.mem_update.mp huser
    split
    · rw [(hf old).1, (hf old).2]
      exact h.users old hold
    · exact h.users old hold
  uploads := h.uploads
  calls := h.calls
  bounded := h.bounded

theorem Kept.putObject (h : Kept s) (owner uuid : Uuid) (originalname : JsString) (object : StoredObject) :
    Kept (s.putObject owner.text (avatarKey owner.text uuid originalname) object) where
  users := h.users
  uploads := by
    intro upload hupload
    rcases List.mem_cons.mp hupload with rfl | hold
    · exact ⟨owner, uuid, originalname, rfl, rfl⟩
    · exact h.uploads upload hold
  calls id request phase hcall :=
    { named := (h.calls id request phase hcall).named
      stored := fun avatarUrl key hphase => List.mem_cons_of_mem _ ((h.calls id request phase hcall).stored avatarUrl key hphase) }
  bounded := h.bounded

theorem Kept.deleteObject (h : Kept s) (request : Request) (key : String) : Kept (s.deleteObject request key) where
  users := h.users
  uploads := h.uploads
  calls := h.calls
  bounded := h.bounded

theorem Kept.updateAvatarUrl (h : Kept s) {avatarUrl : Option String} {next : User → Point}
    (hnext : ∀ user, PhaseKept s.uploads request (.running (next user))) : Kept (s.updateAvatarUrl id request avatarUrl next) := by
  rw [State.updateAvatarUrl]
  split
  · exact h.setPhase (.ended _ _ _)
  · have hupdated : Kept (s.updateUsers request.userId (setAvatarUrl avatarUrl)) :=
      h.updateUsers (f := setAvatarUrl avatarUrl) (fun user => ⟨rfl, rfl⟩) request.userId
    exact hupdated.setPhase (hnext _)

theorem State.findById_eq_ok {user : User} {userId : String} (h : s.findById userId = .ok user) :
    user ∈ s.users ∧ user.id = userId := by
  rw [State.findById] at h
  split at h
  · cases h
  · next found hfind =>
      cases h
      have hfound := List.find?_some hfind
      rw [Bool.and_eq_true, decide_eq_true_eq] at hfound
      exact ⟨List.mem_of_find?_eq_some hfind, hfound.1⟩

theorem Kept.findById_eq (h : Kept s) (userId : String) :
    s.findById userId = (s.findUser userId).elim (.error (.notFound USER_NOT_FOUND_ERR_MSG)) .ok := by
  have hfind : s.users.find? (fun user => user.id = userId && user.status = .ACTIVE) = s.findUser userId := by
    apply List.find?_congr
    intro user huser
    simp [(h.users user huser).1]
  rw [State.findById, hfind]
  cases s.findUser userId <;> rfl

/-- A call that goes on is for a user that was there. -/
theorem Kept.opening (h : Kept s) (request : Request) : PhaseKept s.uploads request (s.opening request) := by
  unfold State.opening
  split
  · exact .ended _ _ _
  · next user _ _ _ _ huser =>
      obtain ⟨hmem, hid⟩ := State.findById_eq_ok huser
      obtain ⟨-, owner, howner⟩ := h.users user hmem
      exact ⟨fun _ _ => ⟨owner, hid.symm.trans howner⟩, fun _ _ hphase => by cases hphase⟩
  · next user userId huser =>
      obtain ⟨hmem, hid⟩ := State.findById_eq_ok huser
      obtain ⟨-, owner, howner⟩ := h.users user hmem
      refine ⟨fun _ _ => ⟨owner, hid.symm.trans howner⟩, fun _ _ hphase => ?_⟩
      rw [removal] at hphase
      split at hphase
      · cases hphase
      · split at hphase <;> cases hphase

theorem Kept.advance (h : Kept s) {point : Point} (hcall : s.calls id = some ⟨request, .running point⟩)
    (hadvance : s.advance id request point = some t) : Kept t := by
  have hphase := h.calls id request _ hcall
  have howner := hphase.named point rfl
  cases point with
  | found avatarUrl =>
      cases request with
      | uploadAvatar userId file contentType uuid =>
          obtain ⟨owner, rfl⟩ := howner
          cases hadvance
          apply (h.putObject owner uuid file.originalname ⟨file.buffer, contentType⟩).setPhase
          refine ⟨fun _ _ => ⟨owner, rfl⟩, fun previousUrl key hstored => ?_⟩
          cases hstored
          exact List.mem_cons_self
      | removeAvatar userId => cases hadvance
  | stored avatarUrl key =>
      cases hadvance
      refine h.updateAvatarUrl fun user => ⟨fun _ _ => howner, fun previousUrl key hstored => ?_⟩
      rw [replacement] at hstored
      split at hstored <;> cases hstored
  | checked key =>
      cases hadvance
      exact h.updateAvatarUrl fun user => ⟨fun _ _ => howner, fun _ _ hstored => by cases hstored⟩
  | written key response =>
      cases hadvance
      apply (h.deleteObject request key).setPhase
      exact ⟨fun _ _ => howner, fun _ _ hstored => by cases hstored⟩
  | done response =>
      cases hadvance
      exact h.setPhase (.ended _ _ _)

theorem Kept.step (h : Kept s) {label : Label} (hstep : s.step label = some t) : Kept t := by
  cases label with
  | register owner email username =>
      obtain ⟨-, rfl⟩ := State.insertUser_eq_some hstep
      exact h.insertUser rfl owner rfl
  | signUp owner username profile =>
      obtain ⟨-, rfl⟩ := State.insertUser_eq_some hstep
      exact h.insertUser rfl owner rfl
  | enrich userId profile =>
      rw [State.step] at hstep
      split at hstep
      · cases hstep
      · cases hstep
        exact h.updateUsers (f := Auth.enrich profile) (fun user => ⟨rfl, rfl⟩) userId
  | remove userId =>
      cases hstep
      exact ⟨fun user huser => h.users user (List.mem_filter.mp huser).1, h.uploads, h.calls, h.bounded⟩
  | begin id request =>
      rw [State.step] at hstep
      split at hstep
      · cases hstep
      · cases hstep
        exact h.setPhase (h.opening request)
  | proceed id =>
      obtain ⟨request, point, hcall, hadvance⟩ := State.onRunning_eq_some hstep
      exact h.advance hcall hadvance
  | fail id =>
      simp only [State.step] at hstep
      obtain ⟨request, point, hcall, hfail⟩ := State.onRunning_eq_some hstep
      cases hfail
      exact h.setPhase (.ended _ _ _)

end Kept

/-! ### Own uploads -/

/-- The object that a call is going to delete. -/
def Point.deletes : Point → Option String
  | .found avatarUrl => storedKey avatarUrl
  | .stored avatarUrl _ => storedKey avatarUrl
  | .checked key => some key
  | .written key _ => some key
  | .done _ => none

structure PhaseOwn (uploads : List Upload) (request : Request) (phase : Phase) : Prop where
  deletes : ∀ point key, phase = .running point → point.deletes = some key → ⟨request.userId, key⟩ ∈ uploads
  accepted : ∀ message, phase ≠ .ended (.error (.badRequest message))

/-- Every link that is stored, and every object that is or will be deleted, is of an own upload. -/
structure Own (s : State) : Prop where
  pictures : ∀ userId user, s.findUser userId = some user → s.OwnUpload userId user.avatarUrl
  deletions : ∀ deletion ∈ s.deletions, s.UploadedBy deletion.request.userId deletion.key
  calls : ∀ id request phase, s.calls id = some ⟨request, phase⟩ → PhaseOwn s.uploads request phase

theorem own_initial : Own initial where
  pictures _ _ h := by cases h
  deletions _ h := by cases h
  calls _ _ _ h := by cases h

theorem PhaseOwn.running {uploads : List Upload} {request : Request} {point : Point}
    (h : ∀ key, point.deletes = some key → ⟨request.userId, key⟩ ∈ uploads) : PhaseOwn uploads request (.running point) where
  deletes _ key hpoint := by
    cases hpoint
    exact h key
  accepted _ heq := by cases heq

theorem PhaseOwn.ended (uploads : List Upload) (request : Request) {result : Except Error Response}
    (hresult : ∀ message, result ≠ .error (.badRequest message)) : PhaseOwn uploads request (.ended result) where
  deletes _ _ h := by cases h
  accepted message h := hresult message (Phase.ended.inj h)

theorem State.OwnUpload.uploadedBy {s : State} {userId key : String} {avatarUrl : Option String}
    (h : s.OwnUpload userId avatarUrl) (hkey : storedKey avatarUrl = some key) : s.UploadedBy userId key := by
  obtain ⟨⟨url, hurl, rfl⟩, -⟩ := storedKey_eq_some.mp hkey
  exact h url hurl

section Own

variable {s t : State} {id : Nat} {request : Request} {phase : Phase}

theorem Kept.eq_avatarKey (h : Kept s) {userId key : String} (hupload : s.UploadedBy userId key) :
    ∃ (owner uuid : Uuid) (originalname : JsString), userId = owner.text ∧ key = avatarKey owner.text uuid originalname :=
  h.uploads _ hupload

theorem Kept.throwIfBadRequest_eq_ok (h : Kept s) {userId key : String} (hupload : s.UploadedBy userId key) :
    throwIfBadRequest key = .ok () := by
  obtain ⟨owner, uuid, originalname, -, rfl⟩ := h.eq_avatarKey hupload
  exact throwIfBadRequest_avatarKey owner uuid originalname

/-- Nobody else has uploaded the object. -/
theorem Kept.userId_eq (h : Kept s) {userId other key : String} (hupload : s.UploadedBy userId key)
    (hother : s.UploadedBy other key) : other = userId := by
  obtain ⟨owner, uuid, originalname, howner, hkey⟩ := h.eq_avatarKey hupload
  obtain ⟨owner', uuid', originalname', howner', hkey'⟩ := h.eq_avatarKey hother
  calc
    other = owner'.text := howner'
    _ = owner.text := text_eq_of_avatarKey_eq (hkey'.symm.trans hkey)
    _ = userId := howner.symm

theorem Own.setPhase (h : Own s) (hphase : PhaseOwn s.uploads request phase) : Own (s.setPhase id request phase) where
  pictures := h.pictures
  deletions := h.deletions
  calls := State.forall_calls_setPhase h.calls hphase

theorem Own.insertUser (h : Own s) {user : User} (hnew : s.findUser user.id = none)
    (hpicture : s.OwnUpload user.id user.avatarUrl) : Own { s with users := s.users ++ [user] } where
  pictures := by
    intro userId found hfound
    rw [State.findUser_append hnew] at hfound
    split at hfound
    · next heq =>
        cases hfound
        rw [heq]
        exact hpicture
    · exact h.pictures userId found hfound
  deletions := h.deletions
  calls := h.calls

theorem Own.updateUsers (h : Own s) {userId : String} {f : User → User} (hid : ∀ user, (f user).id = user.id)
    (hpicture : ∀ user, s.findUser userId = some user → s.OwnUpload userId (f user).avatarUrl) :
    Own (s.updateUsers userId f) where
  pictures := by
    intro other found hfound
    rw [State.findUser_updateUsers hid, Option.map_eq_some_iff] at hfound
    obtain ⟨user, huser, hfound⟩ := hfound
    split at hfound
    · next heq =>
        have hsame : other = userId := (State.id_of_findUser huser).symm.trans heq
        rw [← hfound, hsame]
        exact hpicture user (hsame ▸ huser)
    · rw [← hfound]
      exact h.pictures other user huser
  deletions := h.deletions
  calls := h.calls

theorem Own.putObject (h : Own s) (userId key : String) (object : StoredObject) : Own (s.putObject userId key object) where
  pictures other user huser url hurl := List.mem_cons_of_mem _ (h.pictures other user huser url hurl)
  deletions deletion hdeletion := List.mem_cons_of_mem _ (h.deletions deletion hdeletion)
  calls id request phase hcall :=
    { deletes := fun point key hphase hkey => List.mem_cons_of_mem _ ((h.calls id request phase hcall).deletes point key hphase hkey)
      accepted := (h.calls id request phase hcall).accepted }

theorem Own.deleteObject (h : Own s) {key : String} (hkey : s.UploadedBy request.userId key) :
    Own (s.deleteObject request key) where
  pictures := h.pictures
  deletions := by
    intro deletion hdeletion
    rcases List.mem_cons.mp hdeletion with rfl | hold
    · exact hkey
    · exact h.deletions deletion hold
  calls := h.calls

theorem Own.updateAvatarUrl (h : Own s) {avatarUrl : Option String} {next : User → Point}
    (hpicture : s.OwnUpload request.userId avatarUrl)
    (hnext : ∀ user key, (next user).deletes = some key → s.UploadedBy request.userId key) :
    Own (s.updateAvatarUrl id request avatarUrl next) := by
  rw [State.updateAvatarUrl]
  split
  · exact h.setPhase (.ended _ _ fun _ => by simp)
  · have hupdated : Own (s.updateUsers request.userId (setAvatarUrl avatarUrl)) :=
      h.updateUsers (f := setAvatarUrl avatarUrl) (fun _ => rfl) fun _ _ => hpicture
    exact hupdated.setPhase (.running (hnext _))

/-- A removal of an own upload passes the check. -/
theorem phaseOwn_removal (hkept : Kept s) {avatarUrl : Option String} (hpicture : s.OwnUpload request.userId avatarUrl) :
    PhaseOwn s.uploads request (removal avatarUrl) := by
  rw [removal]
  split
  · exact .ended _ _ fun _ => by simp
  · next key hkey =>
      have hupload := hpicture.uploadedBy hkey
      rw [hkept.throwIfBadRequest_eq_ok hupload]
      refine .running fun deleted hdeleted => ?_
      cases hdeleted
      exact hupload

theorem Own.opening (h : Own s) (hkept : Kept s) (request : Request) : PhaseOwn s.uploads request (s.opening request) := by
  have hpicture : ∀ user, s.findById request.userId = .ok user → s.OwnUpload request.userId user.avatarUrl := by
    intro user huser
    rw [hkept.findById_eq] at huser
    cases hfound : s.findUser request.userId with
    | none =>
        rw [hfound] at huser
        cases huser
    | some found =>
        rw [hfound] at huser
        cases huser
        exact h.pictures _ _ hfound
  unfold State.opening
  split
  · next error _ herror =>
      rw [hkept.findById_eq] at herror
      refine .ended _ _ fun message heq => ?_
      cases heq
      cases hfound : s.findUser _ <;> rw [hfound] at herror <;> cases herror
  · next user _ _ _ _ huser => exact .running fun key hkey => (hpicture user huser).uploadedBy hkey
  · next user userId huser => exact phaseOwn_removal hkept (hpicture user huser)

theorem Own.advance (h : Own s) (hkept : Kept s) {point : Point} (hcall : s.calls id = some ⟨request, .running point⟩)
    (hadvance : s.advance id request point = some t) : Own t := by
  have hdeletes := fun key => (h.calls id request _ hcall).deletes point key rfl
  cases point with
  | found avatarUrl =>
      cases request with
      | uploadAvatar userId file contentType uuid =>
          cases hadvance
          apply (h.putObject _ _ _).setPhase
          exact .running fun key hkey => List.mem_cons_of_mem _ (hdeletes key hkey)
      | removeAvatar userId => cases hadvance
  | stored avatarUrl key =>
      cases hadvance
      apply h.updateAvatarUrl
      · intro url hurl
        cases hurl
        have hupload := (hkept.calls id request _ hcall).stored avatarUrl key rfl
        obtain ⟨owner, uuid, originalname, -, rfl⟩ := hkept.eq_avatarKey hupload
        rw [lastPart_avatarRoute]
        exact hupload
      · intro user previousKey hprevious
        rw [replacement] at hprevious
        split at hprevious
        · cases hprevious
        · next found hfound =>
            cases hprevious
            exact hdeletes previousKey hfound
  | checked key =>
      cases hadvance
      refine h.updateAvatarUrl (fun _ hurl => by cases hurl) fun _ deleted hdeleted => ?_
      exact hdeletes deleted hdeleted
  | written key response =>
      cases hadvance
      apply (h.deleteObject (hdeletes key rfl)).setPhase
      exact .running fun _ hnone => by cases hnone
  | done response =>
      cases hadvance
      exact h.setPhase (.ended _ _ fun _ => by simp)

/-- What a step without a new link of a profile keeps. -/
theorem Own.step (h : Own s) (hkept : Kept s) {label : Label} (hlink : s.StoresNoLink label) (hstep : s.step label = some t) :
    Own t := by
  cases label with
  | register owner email username =>
      obtain ⟨hnew, rfl⟩ := State.insertUser_eq_some hstep
      exact h.insertUser hnew fun _ hurl => by cases hurl
  | signUp owner username profile =>
      obtain ⟨hnew, rfl⟩ := State.insertUser_eq_some hstep
      exact h.insertUser hnew hlink
  | enrich userId profile =>
      rw [State.step] at hstep
      split at hstep
      · cases hstep
      · cases hstep
        refine h.updateUsers (f := Auth.enrich profile) (fun _ => rfl) fun user huser => ?_
        show s.OwnUpload userId (fill user.avatarUrl profile.avatarUrl)
        rw [fill]
        split
        · next hblank =>
            rw [Bool.and_eq_true, Bool.not_eq_true'] at hblank
            exact hlink user huser hblank.1 hblank.2
        · exact h.pictures userId user huser
  | remove userId =>
      cases hstep
      exact ⟨fun other user huser => h.pictures other user (State.findUser_of_findUser_filter huser), h.deletions, h.calls⟩
  | begin id request =>
      rw [State.step] at hstep
      split at hstep
      · cases hstep
      · cases hstep
        exact h.setPhase (h.opening hkept request)
  | proceed id =>
      obtain ⟨request, point, hcall, hadvance⟩ := State.onRunning_eq_some hstep
      exact h.advance hkept hcall hadvance
  | fail id =>
      simp only [State.step] at hstep
      obtain ⟨request, point, hcall, hfail⟩ := State.onRunning_eq_some hstep
      cases hfail
      exact h.setPhase (.ended _ _ fun _ => by simp)

end Own

/-! ### A removal on its own -/

section Removal

variable {s t u : State} {id : Nat} {request : Request} {userId : String} {user : User}

theorem State.step_begin (hfresh : s.calls id = none) (request : Request) :
    s.step (.begin id request) = some (s.setPhase id request (s.opening request)) := by
  rw [State.step, hfresh]
  rfl

theorem State.step_proceed {point : Point} (hcall : s.calls id = some ⟨request, .running point⟩) :
    s.step (.proceed id) = s.advance id request point := by
  rw [State.step, State.onRunning, hcall]
  rfl

theorem State.step_proceed_of_ended {result : Except Error Response} (hcall : s.calls id = some ⟨request, .ended result⟩) :
    s.step (.proceed id) = none := by
  rw [State.step, State.onRunning, hcall]
  rfl

/-- A call that goes on to its end comes to one end only. -/
theorem eq_of_proceeds {request' : Request} {result result' : Except Error Response} {n m : Nat}
    (ht : Runs.run State.step s (List.replicate n (.proceed id)) = some t)
    (htended : t.calls id = some ⟨request, .ended result⟩)
    (hu : Runs.run State.step s (List.replicate m (.proceed id)) = some u)
    (huended : u.calls id = some ⟨request', .ended result'⟩) : t = u := by
  induction n generalizing s m with
  | zero =>
      cases ht
      cases m with
      | zero =>
          cases hu
          rfl
      | succ m =>
          obtain ⟨mid, hstep, -⟩ := Runs.run_cons_eq_some.mp hu
          rw [State.step_proceed_of_ended htended] at hstep
          cases hstep
  | succ n ih =>
      obtain ⟨mid, hstep, hrest⟩ := Runs.run_cons_eq_some.mp ht
      cases m with
      | zero =>
          cases hu
          rw [State.step_proceed_of_ended huended] at hstep
          cases hstep
      | succ m =>
          obtain ⟨mid', hstep', hrest'⟩ := Runs.run_cons_eq_some.mp hu
          rw [hstep] at hstep'
          cases hstep'
          exact ih hrest hrest'

theorem Kept.opening_removeAvatar (h : Kept s) (huser : s.findUser userId = some user) :
    s.opening (.removeAvatar userId) = removal user.avatarUrl := by
  have hfind : s.findById userId = .ok user := by
    rw [h.findById_eq, huser]
    rfl
  simp only [State.opening, Request.userId, hfind]

/-- A removal that ends at once. -/
theorem Kept.run_removal_of_ended (h : Kept s) (hfresh : s.calls id = none) (huser : s.findUser userId = some user)
    {result : Except Error Response} (hended : removal user.avatarUrl = .ended result) :
    Runs.run State.step s (removalLabels id userId 0) = some (s.setPhase id (.removeAvatar userId) (.ended result)) := by
  refine Runs.run_cons_eq_some.mpr ⟨_, State.step_begin hfresh _, ?_⟩
  rw [h.opening_removeAvatar huser, hended]
  rfl

/-- A removal that has found and checked a key. -/
theorem Kept.run_removal_of_checked (h : Kept s) (hfresh : s.calls id = none) (huser : s.findUser userId = some user)
    {key : String} (hchecked : removal user.avatarUrl = .running (.checked key)) :
    ∃ t, Runs.run State.step s (removalLabels id userId 3) = some t ∧
      t.calls id = some ⟨.removeAvatar userId, .ended (.ok .removed)⟩ ∧
      t.findUser userId = some (setAvatarUrl none user) ∧
      t.uploads = s.uploads ∧ t.deletions = ⟨.removeAvatar userId, key⟩ :: s.deletions := by
  let checked := s.setPhase id (.removeAvatar userId) (.running (.checked key))
  let written := (checked.updateUsers userId (setAvatarUrl none)).setPhase id (.removeAvatar userId)
    (.running (.written key .removed))
  let deleted := (written.deleteObject (.removeAvatar userId) key).setPhase id (.removeAvatar userId) (.running (.done .removed))
  have hbegin : s.step (.begin id (.removeAvatar userId)) = some checked := by
    rw [State.step_begin hfresh, h.opening_removeAvatar huser, hchecked]
  have hwrite : checked.step (.proceed id) = some written := by
    rw [State.step_proceed State.calls_setPhase_self, State.advance, State.updateAvatarUrl_of_findUser huser]
    rfl
  have hdelete : written.step (.proceed id) = some deleted := by
    rw [State.step_proceed State.calls_setPhase_self]
    rfl
  have hreturn : deleted.step (.proceed id) = some (deleted.setPhase id (.removeAvatar userId) (.ended (.ok .removed))) := by
    rw [State.step_proceed State.calls_setPhase_self]
    rfl
  refine ⟨deleted.setPhase id (.removeAvatar userId) (.ended (.ok .removed)), ?_, State.calls_setPhase_self, ?_, rfl, rfl⟩
  · refine Runs.run_cons_eq_some.mpr ⟨checked, hbegin, ?_⟩
    refine Runs.run_cons_eq_some.mpr ⟨written, hwrite, ?_⟩
    refine Runs.run_cons_eq_some.mpr ⟨deleted, hdelete, ?_⟩
    exact Runs.run_cons_eq_some.mpr ⟨_, hreturn, rfl⟩
  · show (s.updateUsers userId (setAvatarUrl none)).findUser userId = _
    rw [State.findUser_updateUsers (f := setAvatarUrl none) (fun _ => rfl), huser, Option.map_some,
      if_pos (State.id_of_findUser huser)]

theorem eq_of_removals {request' : Request} {result result' : Except Error Response} {n m : Nat}
    (ht : Runs.run State.step s (removalLabels id userId n) = some t) (htended : t.calls id = some ⟨request, .ended result⟩)
    (hu : Runs.run State.step s (removalLabels id userId m) = some u) (huended : u.calls id = some ⟨request', .ended result'⟩) :
    t = u := by
  obtain ⟨mid, hbegin, hrest⟩ := Runs.run_cons_eq_some.mp ht
  obtain ⟨mid', hbegin', hrest'⟩ := Runs.run_cons_eq_some.mp hu
  rw [hbegin] at hbegin'
  cases hbegin'
  exact eq_of_proceeds hrest htended hrest' huended

end Removal

/-! ### Which avatars can be removed -/

section Removable

variable {s t : State} {userId : String} {user : User}

theorem Own.removesOwn (h : Own s) (hkept : Kept s) : s.RemovesOwn := by
  intro deletion hdeletion userId hrequest
  have hupload := h.deletions deletion hdeletion
  rw [hrequest] at hupload
  exact ⟨hupload, fun other hother => hkept.userId_eq hupload hother⟩

/-- The key of an own upload is not empty. -/
theorem State.OwnUpload.eq_none_of_storedKey (hkept : Kept s) {avatarUrl : Option String} (h : s.OwnUpload userId avatarUrl)
    (hkey : storedKey avatarUrl = none) : avatarUrl = none := by
  cases avatarUrl with
  | none => rfl
  | some url =>
      obtain ⟨owner, uuid, originalname, -, hmade⟩ := hkept.eq_avatarKey (h url rfl)
      have hne : lastPart url ≠ "" := by
        rw [hmade]
        exact avatarKey_ne_empty owner.text uuid originalname
      have hsome : storedKey (some url) = some (lastPart url) := storedKey_eq_some.mpr ⟨⟨url, rfl, rfl⟩, hne⟩
      rw [hsome] at hkey
      cases hkey

theorem removal_of_storedKey_eq_none {avatarUrl : Option String} (hkey : storedKey avatarUrl = none) :
    removal avatarUrl = .ended (.ok .removed) := by
  rw [removal, hkey]

theorem removal_of_refused {avatarUrl : Option String} {key : String} {error : Error} (hkey : storedKey avatarUrl = some key)
    (hcheck : throwIfBadRequest key = .error error) : removal avatarUrl = .ended (.error error) := by
  simp only [removal, hkey, hcheck]

theorem removal_of_checked {avatarUrl : Option String} {key : String} (hkey : storedKey avatarUrl = some key)
    (hcheck : throwIfBadRequest key = .ok ()) : removal avatarUrl = .running (.checked key) := by
  simp only [removal, hkey, hcheck]

/-- Where every link is of an own upload, every avatar can be removed. -/
theorem Own.removable (h : Own s) (hkept : Kept s) : Removable s where
  served userId key hupload := hkept.throwIfBadRequest_eq_ok hupload
  accepted id userId message hcall := (h.calls id _ _ hcall).accepted message rfl
  removesOwn := h.removesOwn hkept
  removed := by
    intro id userId hfresh huser
    obtain ⟨user, huser⟩ := Option.isSome_iff_exists.mp huser
    have hpicture := h.pictures userId user huser
    cases hkey : storedKey user.avatarUrl with
    | none =>
        have hended := removal_of_storedKey_eq_none hkey
        refine ⟨0, _, hkept.run_removal_of_ended hfresh huser hended, State.calls_setPhase_self, ?_, h.removesOwn hkept⟩
        exact ⟨user, huser, hpicture.eq_none_of_storedKey hkept hkey⟩
    | some key =>
        have hupload := hpicture.uploadedBy hkey
        have hchecked := removal_of_checked hkey (hkept.throwIfBadRequest_eq_ok hupload)
        obtain ⟨t, hrun, hreturned, hcleared, huploads, hdeletions⟩ := hkept.run_removal_of_checked hfresh huser hchecked
        refine ⟨3, t, hrun, hreturned, ⟨_, hcleared, rfl⟩, ?_⟩
        intro deletion hdeletion remover hrequest
        rw [hdeletions] at hdeletion
        simp only [State.UploadedBy, huploads]
        rcases List.mem_cons.mp hdeletion with rfl | hold
        · cases hrequest
          exact ⟨hupload, fun other hother => hkept.userId_eq hupload hother⟩
        · exact h.removesOwn hkept deletion hold remover hrequest

/-- What can be removed is of an own upload. -/
theorem Removable.ownUpload (h : Removable s) (hkept : Kept s) (huser : s.findUser userId = some user) :
    s.OwnUpload userId user.avatarUrl := by
  obtain ⟨id, hbound⟩ := hkept.bounded
  have hfresh := hbound id le_rfl
  obtain ⟨awaits, t, hrun, hremoved⟩ := h.removed id userId hfresh (Option.isSome_iff_exists.mpr ⟨user, huser⟩)
  cases hkey : storedKey user.avatarUrl with
  | none =>
      have hended := removal_of_storedKey_eq_none hkey
      have heq := eq_of_removals hrun hremoved.returned (hkept.run_removal_of_ended hfresh huser hended) State.calls_setPhase_self
      obtain ⟨found, hfound, hcleared⟩ := hremoved.cleared
      rw [heq, State.findUser_setPhase, huser] at hfound
      cases hfound
      intro url hurl
      rw [hcleared] at hurl
      cases hurl
  | some key =>
      cases hcheck : throwIfBadRequest key with
      | error error =>
          have hremoval := removal_of_refused hkey hcheck
          have heq := eq_of_removals hrun hremoved.returned (hkept.run_removal_of_ended hfresh huser hremoval)
            State.calls_setPhase_self
          have hreturned := hremoved.returned
          rw [heq, State.calls_setPhase_self] at hreturned
          cases hreturned
      | ok =>
          have hremoval := removal_of_checked hkey hcheck
          obtain ⟨t', hrun', hreturned', -, huploads, hdeletions⟩ := hkept.run_removal_of_checked hfresh huser hremoval
          obtain rfl := eq_of_removals hrun hremoved.returned hrun' hreturned'
          have hmem : ⟨.removeAvatar userId, key⟩ ∈ t.deletions := by
            rw [hdeletions]
            exact List.mem_cons_self
          have hupload := (hremoved.removesOwn _ hmem userId rfl).1
          rw [State.UploadedBy, huploads] at hupload
          intro url hurl
          obtain ⟨⟨stored, hstored, hlast⟩, -⟩ := storedKey_eq_some.mp hkey
          rw [hurl] at hstored
          cases hstored
          rw [hlast]
          exact hupload

/-- A step after which the avatars can be removed has stored no link of a profile. -/
theorem Removable.storesNoLink (h : Removable t) (hkept : Kept t) {label : Label} (hstep : s.step label = some t) :
    s.StoresNoLink label := by
  cases label with
  | signUp owner username profile =>
      obtain ⟨hnew, rfl⟩ := State.insertUser_eq_some hstep
      have hfound : State.findUser { s with users := s.users ++ [fortyTwoUser owner.text username profile] } owner.text =
          some (fortyTwoUser owner.text username profile) := by
        rw [State.findUser_append hnew]
        exact if_pos rfl
      exact h.ownUpload hkept hfound
  | enrich userId profile =>
      intro user huser hblank hsupplied
      rw [State.step] at hstep
      split at hstep
      · cases hstep
      · cases hstep
        have hfilled : (Auth.enrich profile user).avatarUrl = profile.avatarUrl.map btrim := by
          show fill user.avatarUrl profile.avatarUrl = _
          rw [fill, hblank, hsupplied]
          rfl
        rw [← hfilled]
        refine h.ownUpload hkept ?_
        rw [State.findUser_updateUsers (f := Auth.enrich profile) (fun _ => rfl), huser, Option.map_some,
          if_pos (State.id_of_findUser huser)]
  | register _ _ _ => trivial
  | remove _ => trivial
  | begin _ _ => trivial
  | proceed _ => trivial
  | fail _ => trivial

theorem kept_of_run {labels : List Label} (hrun : Runs.run State.step initial labels = some t) : Kept t :=
  Runs.Preserved.run (fun _ _ _ h hstep => Kept.step h hstep) kept_initial hrun

/-- The avatars of all users can be served and removed throughout a run exactly when none of its steps
stores the link of a profile, unless the link ends in the key of an upload of the very user. -/
theorem avatars_removable_iff {labels : List Label} (hrun : Runs.run State.step initial labels = some t) :
    Runs.Along State.step State.StoresNoLink initial labels ↔
      ∀ earlier, earlier <+: labels → ∀ u, Runs.run State.step initial earlier = some u → Removable u := by
  constructor
  · intro hlinks earlier hprefix u hu
    obtain ⟨later, rfl⟩ := hprefix
    have hinvariant : Kept u ∧ Own u := by
      refine Runs.Along.run (P := fun s => Kept s ∧ Own s) ?_ ⟨kept_initial, own_initial⟩ hlinks.of_append hu
      intro s label t h hlink hstep
      exact ⟨h.1.step hstep, h.2.step h.1 hlink hstep⟩
    exact hinvariant.2.removable hinvariant.1
  · intro hremovable
    refine Runs.Along.iff_forall_label.mpr fun earlier label later s hlabels hs => ?_
    rw [hlabels, List.append_cons] at hrun hremovable
    obtain ⟨u, hu, -⟩ := Runs.run_append_eq_some.mp hrun
    obtain ⟨s', hs', hlast⟩ := Runs.run_append_eq_some.mp hu
    rw [hs] at hs'
    cases hs'
    obtain ⟨u', hstep, hnil⟩ := Runs.run_cons_eq_some.mp hlast
    cases hnil
    exact (hremovable (earlier ++ [label]) (List.prefix_append _ _) u hu).storesNoLink (kept_of_run hu) hstep

end Removable

/-! ### Two runs -/

def jdoe : Uuid where
  text := "5f0c2d3e-8a41-4b7c-9d10-3e6f7a8b9c0d"
  length_text := by decide +kernel
  all_text := by decide +kernel

def jdoeProfile (avatarUrl : Option String) : FortyTwoProfile where
  subject := "4242"
  email := "jdoe@student.42.fr"
  username := "jdoe"
  displayName := "Jane Doe"
  firstName := some "Jane"
  lastName := some "Doe"
  avatarUrl := avatarUrl
  campus := some "Paris"

def fortyTwoLink : String := "https://cdn.intra.42.fr/users/jdoe.jpg"

/-- Whoever signs up with the picture of the 42 profile, and wants to remove it. -/
def linkRemoval : List Label :=
  [.signUp jdoe "jdoe" (jdoeProfile (some fortyTwoLink)), .begin 0 (.removeAvatar jdoe.text)]

/-- The removal is refused, and the link stays. -/
theorem not_removable_of_fortyTwoLink :
    ∃ s, Runs.run State.step initial linkRemoval = some s ∧ ¬ Removable s ∧
      (s.calls 0).map Calls.Call.phase = some (.ended (.error (.badRequest "Invalid avatar key"))) ∧
      (s.findUser jdoe.text).map User.avatarUrl = some (some fortyTwoLink) := by
  have hruns : (Runs.run State.step initial linkRemoval).any fun s =>
      s.uploads = [] ∧
        (s.calls 0).map Calls.Call.phase = some (.ended (.error (.badRequest "Invalid avatar key"))) ∧
        (s.findUser jdoe.text).map User.avatarUrl = some (some fortyTwoLink) := by decide +kernel
  obtain ⟨s, hrun, hs⟩ := (Option.any_eq_true _ _).mp hruns
  obtain ⟨huploads, hrefused, hlink⟩ := of_decide_eq_true hs
  refine ⟨s, hrun, fun hremovable => ?_, hrefused, hlink⟩
  obtain ⟨user, huser, hstored⟩ := Option.map_eq_some_iff.mp hlink
  have hupload := hremovable.ownUpload (kept_of_run hrun) huser fortyTwoLink hstored
  rw [State.UploadedBy, huploads] at hupload
  cases hupload

/-- Whoever has no picture at 42, uploads a file and removes it. -/
def uploadRemoval : List Label :=
  [.signUp jdoe "jdoe" (jdoeProfile none),
    .begin 0 (.uploadAvatar jdoe.text ⟨JsString.ofString "my..photo/é 😀.png", []⟩ "image/png" jdoe),
    .proceed 0, .proceed 0, .proceed 0, .enrich jdoe.text (jdoeProfile (some fortyTwoLink)),
    .begin 1 (.removeAvatar jdoe.text), .proceed 1, .proceed 1, .proceed 1]

def storesNoLinkCheck (s : State) : Label → Bool
  | .signUp _ _ profile => profile.avatarUrl = none
  | .enrich userId profile => (s.findUser userId).all fun user => !isBlank user.avatarUrl || isBlank profile.avatarUrl
  | _ => true

theorem storesNoLink_of_check {s : State} {label : Label} (h : storesNoLinkCheck s label) : s.StoresNoLink label := by
  cases label with
  | signUp owner username profile =>
      have hnone : profile.avatarUrl = none := of_decide_eq_true h
      intro url hurl
      rw [hnone] at hurl
      cases hurl
  | enrich userId profile =>
      intro user huser hblank hsupplied
      rw [storesNoLinkCheck, huser, Option.all_some, hblank, hsupplied] at h
      cases h
  | _ => trivial

theorem avatars_removable_of_uploadRemoval :
    ∃ s, Runs.run State.step initial uploadRemoval = some s ∧ Removable s ∧
      (s.calls 1).map Calls.Call.phase = some (.ended (.ok .removed)) := by
  have hruns : (Runs.run State.step initial uploadRemoval).any fun s =>
      (s.calls 1).map Calls.Call.phase = some (.ended (.ok .removed)) := by decide +kernel
  obtain ⟨s, hrun, hremoved⟩ := (Option.any_eq_true _ _).mp hruns
  have hlinks : Runs.Along State.step State.StoresNoLink initial uploadRemoval :=
    .of_check (fun _ _ => storesNoLink_of_check) (by decide +kernel)
  exact ⟨s, hrun, (avatars_removable_iff hrun).mp hlinks _ List.prefix_rfl s hrun, of_decide_eq_true hremoved⟩

end Transcendence.Accounts.Avatars
