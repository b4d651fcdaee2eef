import Transcendence.Auth.FortyTwoIdentities
import Transcendence.Base.JsStrings
import Transcendence.Base.Replacements

/-!
# Avatars

`getAvatar`, `uploadAvatar` and `removeAvatar` of `users.service.ts`, await by await and for any number
of calls at once, beside what else writes `avatarUrl`: an account of 42 is created with the link of its
profile, and `enrichFortyTwoUser` fills a blank one.

What is done here to a text of the database looks for ASCII characters only, so that it does not matter
whether characters or code units are counted. The name of an uploaded file is a string of code units.
Deleting an object that is not there is no error. The check of `remove` for projects owned is left out,
and so are the columns that are neither read nor written here.

The objects that were uploaded and deleted, and for whom, are kept in the state; the program does not
have these two lists.
-/

namespace Transcendence.Accounts.Avatars

open Auth Replacements

/-! ### Keys -/

def isUuidCharacter (c : Char) : Bool :=
  ('0' ≤ c && c ≤ '9') || ('a' ≤ c && c ≤ 'f') || c = '-'

/-- What `randomUUID` and `uuid.NewString` write. -/
structure Uuid where
  text : String
  length_text : text.toList.length = 36
  all_text : text.toList.all isUuidCharacter = true

/-- `[A-Za-z0-9._-]` -/
def isSafeUnit (unit : UInt16) : Bool :=
  (65 ≤ unit && unit ≤ 90) || (97 ≤ unit && unit ≤ 122) || (48 ≤ unit && unit ≤ 57) || unit = 46 || unit = 95 || unit = 45

def safeUnit (unit : UInt16) : Char :=
  if isSafeUnit unit then Char.ofNat unit.toNat else '_'

def safeOriginalName (originalname : JsString) : String :=
  String.ofList (replaceRuns '.' '_' 0 (originalname.map safeUnit))

def avatarKey (userId : String) (uuid : Uuid) (originalname : JsString) : String :=
  "avatar-" ++ userId ++ "-" ++ uuid.text ++ "-" ++ safeOriginalName originalname

/-- The route that serves the object. -/
def avatarRoute (key : String) : String :=
  "/api/users/avatar/" ++ key

inductive Error where
  | badRequest (message : String)
  | notFound (message : String)
  /-- An await that rejects. -/
  | failed
  deriving DecidableEq, Repr

def USER_NOT_FOUND_ERR_MSG : String := "User not found"

/-- `/^avatar-[^/\\]+$/` -/
def AVATAR_KEY_PATTERN (key : String) : Bool :=
  "avatar-".toList.isPrefixOf key.toList && !(key.toList.drop 7).isEmpty &&
    (key.toList.drop 7).all fun c => c ≠ '/' && c ≠ '\\'

def throwIfBadRequest (key : String) : Except Error Unit :=
  if !AVATAR_KEY_PATTERN key || Repeats '.' key.toList then .error (.badRequest "Invalid avatar key") else .ok ()

/-- `avatarUrl.split("/").pop()` -/
def lastPart (avatarUrl : String) : String :=
  String.ofList (lastSegment '/' avatarUrl.toList)

/-- `user.avatarUrl?.split("/").pop()`, if it is truthy. -/
def storedKey (avatarUrl : Option String) : Option String :=
  (avatarUrl.map lastPart).filter (· ≠ "")

/-! ### Calls -/

structure UploadedFile where
  originalname : JsString
  buffer : List UInt8

structure StoredObject where
  body : List UInt8
  contentType : Option String
  deriving DecidableEq, Repr

/-- What `SAFE_USER_SELECT` selects. -/
structure SafeUser where
  id : String
  email : String
  emailVerified : Bool
  username : String
  firstName : Option String
  lastName : Option String
  avatarUrl : Option String
  campus : Option String
  deriving DecidableEq, Repr

def safeUserSelect (user : User) : SafeUser where
  id := user.id
  email := user.email
  emailVerified := user.emailVerified
  username := user.username
  firstName := user.firstName
  lastName := user.lastName
  avatarUrl := user.avatarUrl
  campus := user.campus

inductive Request where
  /-- The random id of the upload is part of the request. -/
  | uploadAvatar (userId : String) (file : UploadedFile) (contentType : String) (uuid : Uuid)
  | removeAvatar (userId : String)

def Request.userId : Request → String
  | .uploadAvatar userId _ _ _ => userId
  | .removeAvatar userId => userId

inductive Response where
  | updated (user : SafeUser)
  | removed
  deriving DecidableEq, Repr

/-- How far a call has come. -/
inductive Point where
  /-- An upload has found the user. -/
  | found (avatarUrl : Option String)
  /-- The object is in the storage. -/
  | stored (avatarUrl : Option String) (key : String)
  /-- A removal has found a key and checked it. -/
  | checked (key : String)
  /-- The user is updated, and an object is still to be deleted. -/
  | written (key : String) (response : Response)
  | done (response : Response)
  deriving DecidableEq, Repr

inductive Phase where
  | running (point : Point)
  | ended (result : Except Error Response)
  deriving DecidableEq

abbrev Call := Calls.Call Request Phase

structure Upload where
  userId : String
  key : String
  deriving DecidableEq, Repr

structure Deletion where
  request : Request
  key : String

structure State where
  users : List User
  objects : String → Option StoredObject
  uploads : List Upload
  deletions : List Deletion
  calls : Nat → Option Call

def initial : State where
  users := []
  objects _ := none
  uploads := []
  deletions := []
  calls _ := none

inductive Label where
  /-- A local account is created. -/
  | register (id : Uuid) (email username : String)
  /-- `createFortyTwoUser` -/
  | signUp (id : Uuid) (username : String) (profile : FortyTwoProfile)
  /-- `enrichFortyTwoUser` -/
  | enrich (userId : String) (profile : FortyTwoProfile)
  | remove (userId : String)
  | begin (id : Nat) (request : Request)
  /-- What the call awaits is there. -/
  | proceed (id : Nat)
  | fail (id : Nat)

/-- The user that the registration of a local account inserts. -/
def localUser (id email username : String) : User where
  id := id
  email := email
  emailVerified := false
  username := username
  firstName := none
  lastName := none
  avatarUrl := none
  campus := none
  status := .ACTIVE
  globalRole := .USER

def setAvatarUrl (avatarUrl : Option String) (user : User) : User :=
  { user with avatarUrl := avatarUrl }

/-- What a removal does when it has found the user. -/
def removal (avatarUrl : Option String) : Phase :=
  match storedKey avatarUrl with
  | none => .ended (.ok .removed)
  | some key =>
      match throwIfBadRequest key with
      | .error error => .ended (.error error)
      | .ok () => .running (.checked key)

/-- What an upload goes on with when it has updated the user. -/
def replacement (previousUrl : Option String) (user : User) : Point :=
  match storedKey previousUrl with
  | none => .done (.updated (safeUserSelect user))
  | some previousKey => .written previousKey (.updated (safeUserSelect user))

namespace State

def findUser (s : State) (userId : String) : Option User :=
  s.users.find? (·.id = userId)

def findById (s : State) (userId : String) : Except Error User :=
  match s.users.find? fun user => user.id = userId && user.status = .ACTIVE with
  | none => .error (.notFound USER_NOT_FOUND_ERR_MSG)
  | some user => .ok user

def getAvatar (s : State) (key : String) : Except Error StoredObject :=
  match throwIfBadRequest key, s.objects key with
  | .error error, _ => .error error
  | .ok (), none => .error (.notFound ("Object not found: " ++ key))
  | .ok (), some object => .ok object

def setPhase (s : State) (id : Nat) (request : Request) (phase : Phase) : State :=
  { s with calls := Function.update s.calls id (some ⟨request, phase⟩) }

/-- The unique columns hold no value twice. -/
def insertUser (s : State) (user : User) : Option State :=
  if s.users.any fun other => other.id = user.id || other.email = user.email || other.username = user.username then none
  else some { s with users := s.users ++ [user] }

def putObject (s : State) (userId key : String) (object : StoredObject) : State :=
  { s with
    objects := Function.update s.objects key (some object)
    uploads := ⟨userId, key⟩ :: s.uploads }

def deleteObject (s : State) (request : Request) (key : String) : State :=
  { s with
    objects := Function.update s.objects key none
    deletions := ⟨request, key⟩ :: s.deletions }

def updateUsers (s : State) (userId : String) (f : User → User) : State :=
  { s with users := Table.update (·.id = userId) f s.users }

/-- `prisma.user.update`; a user that is not there is an error. -/
def updateAvatarUrl (s : State) (id : Nat) (request : Request) (avatarUrl : Option String) (next : User → Point) : State :=
  match s.findUser request.userId with
  | none => s.setPhase id request (.ended (.error .failed))
  | some user =>
      (s.updateUsers request.userId (setAvatarUrl avatarUrl)).setPhase id request
        (.running (next (setAvatarUrl avatarUrl user)))

/-- What a call does up to its first await after the user is found. -/
def opening (s : State) (request : Request) : Phase :=
  match s.findById request.userId, request with
  | .error error, _ => .ended (.error error)
  | .ok user, .uploadAvatar _ _ _ _ => .running (.found user.avatarUrl)
  | .ok user, .removeAvatar _ => removal user.avatarUrl

def advance (s : State) (id : Nat) (request : Request) : Point → Option State
  | .found avatarUrl =>
      match request with
      | .uploadAvatar userId file contentType uuid =>
          let key := avatarKey userId uuid file.originalname
          some ((s.putObject userId key ⟨file.buffer, contentType⟩).setPhase id request (.running (.stored avatarUrl key)))
      | .removeAvatar _ => none
  | .stored avatarUrl key => some (s.updateAvatarUrl id request (some (avatarRoute key)) (replacement avatarUrl))
  | .checked key => some (s.updateAvatarUrl id request none fun _ => .written key .removed)
  | .written key response => some ((s.deleteObject request key).setPhase id request (.running (.done response)))
  | .done response => some (s.setPhase id request (.ended (.ok response)))

/-- A step of a call that has not ended. -/
def onRunning (s : State) (id : Nat) (f : Request → Point → Option State) : Option State :=
  (s.calls id).bind fun call =>
    match call.phase with
    | .running point => f call.request point
    | .ended _ => none

def step (s : State) : Label → Option State
  | .register id email username => s.insertUser (localUser id.text email username)
  | .signUp id username profile => s.insertUser (fortyTwoUser id.text username profile)
  | .enrich userId profile =>
      if (s.findUser userId).isNone then none else some (s.updateUsers userId (Auth.enrich profile))
  | .remove userId => some { s with users := s.users.filter (·.id ≠ userId) }
  | .begin id request => if (s.calls id).isSome then none else some (s.setPhase id request (s.opening request))
  | .proceed id => s.onRunning id (s.advance id)
  | .fail id => s.onRunning id fun request _ => some (s.setPhase id request (.ended (.error .failed)))

end State

/-! ### The keys of uploads -/

theorem Uuid.isUuidCharacter_of_mem (uuid : Uuid) {c : Char} (hc : c ∈ uuid.text.toList) : isUuidCharacter c = true :=
  List.all_eq_true.mp uuid.all_text c hc

theorem Uuid.not_mem_text (uuid : Uuid) {c : Char} (hc : isUuidCharacter c = false) : c ∉ uuid.text.toList := by
  intro hmem
  rw [uuid.isUuidCharacter_of_mem hmem] at hc
  cases hc

theorem toNat_lt_of_isSafeUnit {unit : UInt16} (hsafe : isSafeUnit unit = true) : unit.toNat < 128 := by
  simp only [isSafeUnit, Bool.or_eq_true, Bool.and_eq_true, decide_eq_true_eq, UInt16.le_iff_toNat_le,
    ← UInt16.toNat_inj] at hsafe
  change (((((65 ≤ _ ∧ _ ≤ 90) ∨ 97 ≤ _ ∧ _ ≤ 122) ∨ 48 ≤ _ ∧ _ ≤ 57) ∨ _ = 46) ∨ _ = 95) ∨ _ = 45 at hsafe
  omega

/-- The code units that are kept are those of letters, digits and three signs. -/
theorem safeUnit_ne (unit : UInt16) {c : Char} (hc : c = '/' ∨ c = '\\') : safeUnit unit ≠ c := by
  have hascii : ∀ n < 128, isSafeUnit (UInt16.ofNat n) = true → Char.ofNat n ≠ '/' ∧ Char.ofNat n ≠ '\\' := by decide
  rw [safeUnit]
  split
  · next hsafe =>
      have hkept := hascii unit.toNat (toNat_lt_of_isSafeUnit hsafe) (by rwa [UInt16.ofNat_toNat])
      rcases hc with rfl | rfl
      · exact hkept.1
      · exact hkept.2
  · rcases hc with rfl | rfl <;> decide

theorem not_mem_safeOriginalName (originalname : JsString) {c : Char} (hc : c = '/' ∨ c = '\\') :
    c ∉ (safeOriginalName originalname).toList := by
  rw [safeOriginalName, String.toList_ofList]
  intro hmem
  rcases mem_replaceRuns hmem with heq | heq | hunit
  · rcases hc with rfl | rfl <;> cases heq
  · rcases hc with rfl | rfl <;> cases heq
  · obtain ⟨unit, -, hunit⟩ := List.mem_map.mp hunit
    exact safeUnit_ne unit hc hunit

theorem toList_avatarKey (userId : String) (uuid : Uuid) (originalname : JsString) :
    (avatarKey userId uuid originalname).toList =
      "avatar-".toList ++ (userId.toList ++ ('-' :: uuid.text.toList ++ '-' :: (safeOriginalName originalname).toList)) := by
  simp [avatarKey]

/-- Neither slash is in a key. -/
theorem not_mem_avatarKey (owner uuid : Uuid) (originalname : JsString) {c : Char} (hc : c = '/' ∨ c = '\\') :
    c ∉ (avatarKey owner.text uuid originalname).toList := by
  have howner : c ∉ owner.text.toList := owner.not_mem_text (by rcases hc with rfl | rfl <;> decide)
  have huuid : c ∉ uuid.text.toList := uuid.not_mem_text (by rcases hc with rfl | rfl <;> decide)
  have hname := not_mem_safeOriginalName originalname hc
  have hfixed : c ∉ "avatar-".toList ∧ c ≠ '-' := by rcases hc with rfl | rfl <;> decide
  rw [toList_avatarKey]
  simp only [List.mem_append, List.mem_cons, not_or]
  exact ⟨hfixed.1, howner, ⟨hfixed.2, huuid⟩, hfixed.2, hname⟩

theorem not_repeats_avatarKey (owner uuid : Uuid) (originalname : JsString) :
    ¬ Repeats '.' (avatarKey owner.text uuid originalname).toList := by
  rw [toList_avatarKey]
  apply not_repeats_append (by decide)
  apply not_repeats_append (owner.not_mem_text (by decide))
  apply not_repeats_append
  · rw [List.mem_cons, not_or]
    exact ⟨by decide, uuid.not_mem_text (by decide)⟩
  · rw [repeats_cons_of_ne (by decide), safeOriginalName, String.toList_ofList]
    exact not_repeats_replaceRuns (by decide) 0 _

/-- Every key that an upload makes passes the check of `getAvatar`. -/
theorem throwIfBadRequest_avatarKey (owner uuid : Uuid) (originalname : JsString) :
    throwIfBadRequest (avatarKey owner.text uuid originalname) = .ok () := by
  have hpattern : AVATAR_KEY_PATTERN (avatarKey owner.text uuid originalname) = true := by
    have hslash : '/' ∉ (avatarKey owner.text uuid originalname).toList :=
      not_mem_avatarKey owner uuid originalname (.inl rfl)
    have hbackslash : '\\' ∉ (avatarKey owner.text uuid originalname).toList :=
      not_mem_avatarKey owner uuid originalname (.inr rfl)
    rw [AVATAR_KEY_PATTERN, Bool.and_eq_true, Bool.and_eq_true, List.all_eq_true]
    refine ⟨⟨?_, ?_⟩, ?_⟩
    · rw [toList_avatarKey, List.isPrefixOf_iff_prefix]
      exact List.prefix_append _ _
    · have hlength : "avatar-".toList.length = 7 := by decide
      rw [toList_avatarKey, List.drop_left' hlength]
      simp
    · intro c hc
      have hmem : c ∈ (avatarKey owner.text uuid originalname).toList := List.mem_of_mem_drop hc
      rw [Bool.and_eq_true, decide_eq_true_eq, decide_eq_true_eq]
      exact ⟨fun heq => hslash (heq ▸ hmem), fun heq => hbackslash (heq ▸ hmem)⟩
  rw [throwIfBadRequest, if_neg]
  rw [hpattern]
  simpa using not_repeats_avatarKey owner uuid originalname

/-- A key says who has uploaded the object. -/
theorem text_eq_of_avatarKey_eq {owner owner' uuid uuid' : Uuid} {originalname originalname' : JsString}
    (h : avatarKey owner.text uuid originalname = avatarKey owner'.text uuid' originalname') : owner.text = owner'.text := by
  have hlists := congrArg String.toList h
  rw [toList_avatarKey, toList_avatarKey, List.append_cancel_left_eq] at hlists
  have hlength : owner.text.toList.length = owner'.text.toList.length := owner.length_text.trans owner'.length_text.symm
  exact String.toList_inj.mp (List.append_inj_left hlists hlength)

/-! ### Stored links -/

theorem toList_avatarRoute (key : String) : (avatarRoute key).toList = "/api/users/avatar".toList ++ '/' :: key.toList := by
  have hfixed : "/api/users/avatar/".toList = "/api/users/avatar".toList ++ ['/'] := by simp
  show ("/api/users/avatar/" ++ key).toList = _
  rw [String.toList_append, hfixed]
  simp only [List.append_assoc, List.singleton_append]

theorem lastPart_avatarRoute (owner uuid : Uuid) (originalname : JsString) :
    lastPart (avatarRoute (avatarKey owner.text uuid originalname)) = avatarKey owner.text uuid originalname := by
  have hslash : '/' ∉ (avatarKey owner.text uuid originalname).toList :=
    not_mem_avatarKey owner uuid originalname (.inl rfl)
  rw [lastPart, toList_avatarRoute, lastSegment_append '/' _ hslash, String.ofList_toList]

theorem avatarKey_ne_empty (userId : String) (uuid : Uuid) (originalname : JsString) : avatarKey userId uuid originalname ≠ "" := by
  intro heq
  have := congrArg String.toList heq
  rw [toList_avatarKey] at this
  cases this

theorem storedKey_eq_some {avatarUrl : Option String} {key : String} :
    storedKey avatarUrl = some key ↔ (∃ url, avatarUrl = some url ∧ lastPart url = key) ∧ key ≠ "" := by
  rw [storedKey, Option.filter_eq_some_iff, Option.map_eq_some_iff, decide_eq_true_eq]

end Transcendence.Accounts.Avatars
