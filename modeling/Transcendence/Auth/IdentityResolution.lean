import Transcendence.Auth.IdentitySteps

/-!
# A 42 subject belongs to one user

Whatever calls resolve and link identities at once, a subject is bound to one user and stays bound to
him; every login with it that succeeds ends with this user; and a user is created by the login that
binds his subject, in one commit.

A transaction under way has bound nothing yet: the subject it is about to bind, and the user it is
about to insert, are locked by it and in nobody's tables (`Placed`).
-/

namespace Transcendence.Auth

/-! ### Tables -/

namespace IdentityTables

def userIds (db : IdentityTables) : List String := db.users.map (·.id)

/-- Which provider subject belongs to which user. -/
def bindings (db : IdentityTables) : List ((AuthProvider × String) × String) :=
  db.identities.map fun row => (row.key, row.userId)

def Bound (db : IdentityTables) (subject userId : String) : Prop := ((.FORTY_TWO, subject), userId) ∈ db.bindings

/-- The unique columns and the foreign key. -/
structure Consistent (db : IdentityTables) : Prop where
  userIds : db.userIds.Nodup
  subjects : (db.bindings.map Prod.fst).Nodup
  owners : ∀ binding ∈ db.bindings, binding.2 ∈ db.userIds

theorem Consistent.bound_unique {db : IdentityTables} (h : db.Consistent) {subject userId other : String}
    (hbound : db.Bound subject userId) (hother : db.Bound subject other) : userId = other :=
  congrArg Prod.snd (Table.key_injective h.subjects hbound hother rfl)

theorem mem_userIds_of_find {db : IdentityTables} {userId : String} {user : User} (h : db.findUser userId = some user) :
    user.id = userId ∧ userId ∈ db.userIds := by
  rw [findUser] at h
  have hid := List.find?_some h
  rw [decide_eq_true_eq] at hid
  refine ⟨hid, ?_⟩
  rw [← hid]
  exact List.mem_map_of_mem (List.mem_of_find?_eq_some h)

theorem binding_of_found {db : IdentityTables} {provider : AuthProvider} {subject : String} {user : User}
    (h : db.findIdentityUser provider subject = some user) : ((provider, subject), user.id) ∈ db.bindings := by
  rw [findIdentityUser, Option.bind_eq_some_iff] at h
  obtain ⟨row, hrow, huser⟩ := h
  rw [findIdentity] at hrow
  have hkey := List.find?_some hrow
  rw [decide_eq_true_eq] at hkey
  rw [bindings, ← hkey, (mem_userIds_of_find huser).1]
  exact List.mem_map_of_mem (List.mem_of_find?_eq_some hrow)

theorem bound_of_found {db : IdentityTables} {subject : String} {user : User}
    (h : db.findIdentityUser .FORTY_TWO subject = some user) : db.Bound subject user.id := binding_of_found h

theorem mem_userIds_of_isSome {db : IdentityTables} {userId : String} (h : (db.findUser userId).isSome) : userId ∈ db.userIds := by
  obtain ⟨user, huser⟩ := Option.isSome_iff_exists.mp h
  exact (mem_userIds_of_find huser).2

end IdentityTables

/-! ### Profiles -/

theorem fill_of_not_blank {field supplied : Option String} (h : ¬isBlank field) : fill field supplied = field := by
  rw [fill, if_neg]
  rw [Bool.and_eq_true]
  exact fun hboth => h hboth.1

/-- The later user is the earlier one, with blank fields filled. -/
structure Enriched (user user' : User) : Prop where
  id : user'.id = user.id
  username : user'.username = user.username
  email : user'.email = user.email
  status : user'.status = user.status
  globalRole : user'.globalRole = user.globalRole
  firstName : ¬isBlank user.firstName → user'.firstName = user.firstName
  lastName : ¬isBlank user.lastName → user'.lastName = user.lastName
  avatarUrl : ¬isBlank user.avatarUrl → user'.avatarUrl = user.avatarUrl
  campus : ¬isBlank user.campus → user'.campus = user.campus

theorem Enriched.refl (user : User) : Enriched user user :=
  ⟨rfl, rfl, rfl, rfl, rfl, fun _ => rfl, fun _ => rfl, fun _ => rfl, fun _ => rfl⟩

theorem enriched_enrich (profile : FortyTwoProfile) (user : User) : Enriched user (enrich profile user) :=
  ⟨rfl, rfl, rfl, rfl, rfl, fill_of_not_blank, fill_of_not_blank, fill_of_not_blank, fill_of_not_blank⟩

theorem Enriched.trans {a b c : User} (hab : Enriched a b) (hbc : Enriched b c) : Enriched a c where
  id := hbc.id.trans hab.id
  username := hbc.username.trans hab.username
  email := hbc.email.trans hab.email
  status := hbc.status.trans hab.status
  globalRole := hbc.globalRole.trans hab.globalRole
  firstName h := (hbc.firstName (by rwa [hab.firstName h])).trans (hab.firstName h)
  lastName h := (hbc.lastName (by rwa [hab.lastName h])).trans (hab.lastName h)
  avatarUrl h := (hbc.avatarUrl (by rwa [hab.avatarUrl h])).trans (hab.avatarUrl h)
  campus h := (hbc.campus (by rwa [hab.campus h])).trans (hab.campus h)

namespace FortyTwoIdentities

open IdentityTables

/-! ### Writes -/

section Writes

variable (db : IdentityTables)

theorem userIds_user (user : User) : ((Write.user user).apply db).userIds = db.userIds ++ [user.id] := by
  simp [Write.apply, insertUser, userIds]

theorem userIds_identity (row : AuthIdentityRow) : ((Write.identity row).apply db).userIds = db.userIds := rfl

theorem userIds_enrich (userId : String) (profile : FortyTwoProfile) :
    ((Write.enrich userId profile).apply db).userIds = db.userIds := by
  rw [Write.apply, enrichFortyTwoUser, userIds, Table.map_update]
  · rfl
  · exact fun _ _ => rfl

theorem userIds_touch (userId : String) (profile : FortyTwoProfile) :
    ((Write.touch userId profile).apply db).userIds = db.userIds := rfl

theorem bindings_identity (row : AuthIdentityRow) :
    ((Write.identity row).apply db).bindings = db.bindings ++ [(row.key, row.userId)] := by
  simp [Write.apply, insertIdentity, bindings]

theorem bindings_enrich (userId : String) (profile : FortyTwoProfile) :
    ((Write.enrich userId profile).apply db).bindings = db.bindings := rfl

theorem bindings_touch (userId : String) (profile : FortyTwoProfile) :
    ((Write.touch userId profile).apply db).bindings = db.bindings := by
  rw [Write.apply, updateFortyTwoIdentity, bindings, Table.map_update]
  · rfl
  · exact fun _ _ => rfl

theorem exists_enriched (write : Write) {user : User} (hmem : user ∈ db.users) :
    ∃ user' ∈ (write.apply db).users, Enriched user user' := by
  cases write with
  | user new => exact ⟨user, List.mem_append_left _ hmem, .refl user⟩
  | identity => exact ⟨user, hmem, .refl user⟩
  | enrich userId profile =>
      refine ⟨_, Table.mem_update.mpr ⟨user, hmem, rfl⟩, ?_⟩
      split
      · exact enriched_enrich profile user
      · exact .refl user
  | touch => exact ⟨user, hmem, .refl user⟩

end Writes

variable {s t u : State} {id : Nat} {request : Request} {label : Label}

theorem view_append (s : State) (writes : List Write) (write : Write) :
    s.view (writes ++ [write]) = write.apply (s.view writes) := List.foldl_append ..

theorem exists_enriched_view (writes : List Write) {user : User} (hmem : user ∈ s.db.users) :
    ∃ user' ∈ (s.view writes).users, Enriched user user' := by
  induction writes using List.reverseRec with
  | nil => exact ⟨user, hmem, .refl user⟩
  | append_singleton writes write ih =>
      obtain ⟨between, hbetween, hfirst⟩ := ih
      obtain ⟨user', hmem', hsecond⟩ := exists_enriched (s.view writes) write hbetween
      rw [view_append]
      exact ⟨user', hmem', hfirst.trans hsecond⟩

/-! ### Transactions under way -/

/-- A link names the user. -/
def Target (request : Request) (userId : String) : Prop := ∀ userId' profile, request = .link userId' profile → userId = userId'

/-- What has been written for the user to bind: nothing, or the user that nobody else has or inserts. -/
inductive Provisional (s : State) (id : Nat) (request : Request) (userId : String) : List Write → Prop where
  | existing : Provisional s id request userId []
  | new {user : User} {profile} (hrequest : request = .resolve profile) (hid : user.id = userId)
      (hlock : s.locks (.newUser userId) = some id) (hnew : userId ∉ s.db.userIds) : Provisional s id request userId [.user user]

/-- Nobody else has the subject or binds it. -/
structure Unbound (s : State) (id : Nat) (request : Request) : Prop where
  lock : s.locks (.subject .FORTY_TWO request.profile.subject) = some id
  key : subjectKey request ∉ s.db.bindings.map Prod.fst

inductive Placed (s : State) (id : Nat) (request : Request) : Point → List Write → Prop where
  | begun : Placed s id request .begun []
  | known {userId} (hbound : s.db.Bound request.profile.subject userId) (htarget : Target request userId) :
      Placed s id request (.known userId) []
  | enriched {user : User} (hbound : s.db.Bound request.profile.subject user.id) (htarget : Target request user.id) :
      Placed s id request (.enriched user) [.enrich user.id request.profile]
  | unknown {profile} (hrequest : request = .resolve profile) : Placed s id request .unknown []
  | creating {attempt profile} (hrequest : request = .resolve profile) : Placed s id request (.creating attempt) []
  | chosen {userId autoLinked writes} (hprovisional : Provisional s id request userId writes) (htarget : Target request userId) :
      Placed s id request (.chosen userId autoLinked) writes
  | inserted {userId autoLinked writes} (hprovisional : Provisional s id request userId writes) (htarget : Target request userId)
      (hunbound : Unbound s id request) (howner : userId ∈ (s.view writes).userIds) :
      Placed s id request (.inserted userId autoLinked) (writes ++ [.identity (fortyTwoIdentity userId request.profile)])
  | readyKnown {user : User} (hbound : s.db.Bound request.profile.subject user.id) (htarget : Target request user.id) :
      Placed s id request (.ready (request.response user false))
        ([.enrich user.id request.profile] ++ [.touch user.id request.profile])
  | readyNew {userId autoLinked writes} {user : User} (hid : user.id = userId) (hprovisional : Provisional s id request userId writes)
      (htarget : Target request userId) (hunbound : Unbound s id request) (howner : userId ∈ (s.view writes).userIds) :
      Placed s id request (.ready (request.response user autoLinked))
        (writes ++ [.identity (fortyTwoIdentity userId request.profile)] ++ [.enrich userId request.profile])

/-- What a step of others leaves to a transaction: the tables only grow, by nothing it has locked. -/
structure Frame (s t : State) (id : Nat) : Prop where
  locks : ∀ lock, s.locks lock = some id → t.locks lock = some id
  bindings : ∀ binding ∈ s.db.bindings, binding ∈ t.db.bindings
  userIds : ∀ userId ∈ s.db.userIds, userId ∈ t.db.userIds
  newUser : ∀ userId, s.locks (.newUser userId) = some id → userId ∉ s.db.userIds → userId ∉ t.db.userIds
  subject : ∀ subject, s.locks (.subject .FORTY_TWO subject) = some id →
    (.FORTY_TWO, subject) ∉ s.db.bindings.map Prod.fst → (.FORTY_TWO, subject) ∉ t.db.bindings.map Prod.fst

theorem Provisional.frame {userId : String} {writes : List Write} (h : Provisional s id request userId writes) (hframe : Frame s t id) :
    Provisional t id request userId writes := by
  cases h with
  | existing => exact .existing
  | new hrequest hid hlock hnew => exact .new hrequest hid (hframe.locks _ hlock) (hframe.newUser userId hlock hnew)

theorem Unbound.frame (h : Unbound s id request) (hframe : Frame s t id) : Unbound t id request :=
  ⟨hframe.locks _ h.lock, hframe.subject _ h.lock h.key⟩

theorem Provisional.mem_userIds {userId : String} {writes : List Write} (h : Provisional s id request userId writes)
    (howner : userId ∈ (s.view writes).userIds) (hframe : Frame s t id) : userId ∈ (t.view writes).userIds := by
  cases h with
  | existing => exact hframe.userIds userId howner
  | @new user _ _ hid =>
      rw [show t.view [.user user] = (Write.user user).apply t.db from rfl, userIds_user, hid]
      exact List.mem_append_right _ List.mem_cons_self

theorem Placed.frame {point : Point} {writes : List Write} (h : Placed s id request point writes) (hframe : Frame s t id) :
    Placed t id request point writes := by
  cases h with
  | begun => exact .begun
  | known hbound htarget => exact .known (hframe.bindings _ hbound) htarget
  | enriched hbound htarget => exact .enriched (hframe.bindings _ hbound) htarget
  | unknown hrequest => exact .unknown hrequest
  | creating hrequest => exact .creating hrequest
  | chosen hprovisional htarget => exact .chosen (hprovisional.frame hframe) htarget
  | inserted hprovisional htarget hunbound howner =>
      exact .inserted (hprovisional.frame hframe) htarget (hunbound.frame hframe) (hprovisional.mem_userIds howner hframe)
  | readyKnown hbound htarget => exact .readyKnown (hframe.bindings _ hbound) htarget
  | readyNew hid hprovisional htarget hunbound howner =>
      exact .readyNew hid (hprovisional.frame hframe) htarget (hunbound.frame hframe) (hprovisional.mem_userIds howner hframe)

theorem view_congr (hdb : t.db = s.db) (writes : List Write) : t.view writes = s.view writes := by
  rw [State.view, State.view, hdb]

theorem locks_acquire {locks : List Lock} {lock : Lock} (hmem : lock ∈ locks) : (s.acquire id locks).locks lock = some id :=
  if_pos hmem

/-- The locks that a transaction takes leave it what it has. -/
theorem frame_acquire {locks : List Lock} (hdb : t.db = s.db) (hlocks : t.locks = (s.acquire id locks).locks) : Frame s t id where
  locks lock hlock := by
    rw [hlocks, State.acquire]
    dsimp only
    split
    · rfl
    · exact hlock
  bindings binding hmem := by rwa [hdb]
  userIds userId hmem := by rwa [hdb]
  newUser userId _ hnew := by rwa [hdb]
  subject subject _ hnew := by rwa [hdb]

theorem Placed.advance {point next : Point} {writes added : List Write} {locks : List Lock}
    (h : Placed s id request point writes) (hadvance : Advance s id request writes point next added locks)
    (hdb : t.db = s.db) (hlocks : t.locks = (s.acquire id locks).locks) : Placed t id request next (writes ++ added) := by
  have hframe : Frame s t id := frame_acquire hdb hlocks
  have hheld : ∀ lock ∈ locks, t.locks lock = some id := by
    intro lock hmem
    rw [hlocks, locks_acquire hmem]
  cases hadvance with
  | misses hrequest =>
      cases h
      exact .unknown hrequest
  | aims hrequest =>
      cases h
      refine .chosen .existing fun userId' profile hlink => ?_
      exact (Request.link.inj (hrequest.symm.trans hlink)).1
  | finds hfound hlink =>
      cases h
      exact .known (hframe.bindings _ (bound_of_found hfound)) hlink
  | startsCreating =>
      cases h with
      | unknown hrequest => exact .creating hrequest
  | links hfound =>
      cases h with
      | unknown hrequest =>
          subst hrequest
          exact .chosen .existing nofun
  | retries =>
      cases h with
      | creating hrequest => exact .creating hrequest
  | creates hlock hid =>
      cases h with
      | creating hrequest =>
          subst hrequest
          refine .chosen (.new rfl rfl (hheld _ hlock) ?_) nofun
          rw [hdb]
          intro hmem
          obtain ⟨user, huser, heq⟩ := List.mem_map.mp hmem
          exact hid user huser heq
  | inserts hlock hkey huser =>
      cases h with
      | chosen hprovisional htarget =>
          refine .inserted (hprovisional.frame hframe) htarget ⟨hheld _ hlock, ?_⟩ ?_
          · rw [hdb]
            intro hmem
            obtain ⟨binding, hbinding, heq⟩ := List.mem_map.mp hmem
            obtain ⟨row, hrow, rfl⟩ := List.mem_map.mp hbinding
            exact hkey row hrow heq
          · rw [view_congr hdb]
            exact mem_userIds_of_isSome huser
  | enrichesKnown huser =>
      cases h with
      | known hbound htarget =>
          obtain ⟨rfl, -⟩ := mem_userIds_of_find huser
          exact .enriched (hframe.bindings _ hbound) htarget
  | enrichesInserted huser =>
      cases h with
      | inserted hprovisional htarget hunbound howner =>
          refine .readyNew (mem_userIds_of_find huser).1 (hprovisional.frame hframe) htarget (hunbound.frame hframe) ?_
          exact hprovisional.mem_userIds howner hframe
  | touches =>
      cases h with
      | enriched hbound htarget => exact .readyKnown (hframe.bindings _ hbound) htarget

/-! ### Commits -/

/-- What the commit of a transaction that is ready does: the subject was the user's already, or becomes
his; and the user is known already, or new. -/
inductive Commits (s : State) (id : Nat) (request : Request) (response : Response) (db : IdentityTables) : Prop where
  | known {user : User} (hresponse : response = request.response user false) (htarget : Target request user.id)
      (hbound : s.db.Bound request.profile.subject user.id) (hids : db.userIds = s.db.userIds)
      (hbindings : db.bindings = s.db.bindings)
  | existing {user : User} {autoLinked} (hresponse : response = request.response user autoLinked)
      (htarget : Target request user.id) (hunbound : Unbound s id request) (howner : user.id ∈ s.db.userIds)
      (hids : db.userIds = s.db.userIds) (hbindings : db.bindings = s.db.bindings ++ [(subjectKey request, user.id)])
  | new {user : User} {autoLinked profile} (hrequest : request = .resolve profile) (hresponse : response = request.response user autoLinked)
      (htarget : Target request user.id) (hunbound : Unbound s id request) (hlock : s.locks (.newUser user.id) = some id)
      (hnew : user.id ∉ s.db.userIds) (hids : db.userIds = s.db.userIds ++ [user.id])
      (hbindings : db.bindings = s.db.bindings ++ [(subjectKey request, user.id)])

theorem Placed.commits {response : Response} {writes : List Write} (h : Placed s id request (.ready response) writes) :
    Commits s id request response (s.view writes) := by
  generalize hpoint : Point.ready response = point at h
  cases h with
  | @readyKnown user hbound htarget =>
      refine .known (Point.ready.inj hpoint) htarget hbound ?_ ?_
      · rw [view_append, userIds_touch]
        exact userIds_enrich ..
      · rw [view_append, bindings_touch]
        exact bindings_enrich ..
  | @readyNew userId autoLinked writes user hid hprovisional htarget hunbound howner =>
      subst hid
      have hids : (s.view (writes ++ [.identity (fortyTwoIdentity user.id request.profile)] ++
          [.enrich user.id request.profile])).userIds = (s.view writes).userIds := by
        rw [view_append, userIds_enrich, view_append, userIds_identity]
      have hbindings : (s.view (writes ++ [.identity (fortyTwoIdentity user.id request.profile)] ++
          [.enrich user.id request.profile])).bindings = (s.view writes).bindings ++ [(subjectKey request, user.id)] := by
        rw [view_append, bindings_enrich, view_append, bindings_identity]
        rfl
      cases hprovisional with
      | existing => exact .existing (Point.ready.inj hpoint) htarget hunbound howner hids hbindings
      | @new row profile hrequest hid hlock hnew =>
          refine .new hrequest (Point.ready.inj hpoint) htarget hunbound hlock hnew (hids.trans ?_) hbindings
          rw [← hid]
          exact userIds_user ..
  | _ => cases hpoint

variable {response : Response} {db : IdentityTables}

theorem Commits.consistent (h : Commits s id request response db) (hdb : s.db.Consistent) : db.Consistent := by
  have hconcat : Unbound s id request → ∀ user : User, db.bindings = s.db.bindings ++ [(subjectKey request, user.id)] →
      (db.bindings.map Prod.fst).Nodup := by
    intro hunbound user hbindings
    rw [hbindings]
    exact Table.nodup_concat hdb.subjects hunbound.key
  cases h with
  | known _ _ _ hids hbindings =>
      refine ⟨hids ▸ hdb.userIds, hbindings ▸ hdb.subjects, ?_⟩
      rw [hids, hbindings]
      exact hdb.owners
  | @existing user _ _ _ hunbound howner hids hbindings =>
      refine ⟨hids ▸ hdb.userIds, hconcat hunbound user hbindings, ?_⟩
      rw [hids, hbindings, List.forall_mem_append]
      exact ⟨hdb.owners, List.forall_mem_singleton.mpr howner⟩
  | @new user _ _ _ _ _ hunbound _ hnew hids hbindings =>
      refine ⟨?_, hconcat hunbound user hbindings, ?_⟩
      · rw [hids, List.nodup_append]
        refine ⟨hdb.userIds, List.nodup_singleton _, fun a ha b hb => ?_⟩
        rw [List.mem_singleton.mp hb]
        rintro rfl
        exact hnew ha
      · rw [hids, hbindings, List.forall_mem_append]
        exact ⟨fun binding hmem => List.mem_append_left _ (hdb.owners binding hmem),
          List.forall_mem_singleton.mpr (List.mem_append_right _ List.mem_cons_self)⟩

/-- What a commit leaves to the other transactions. -/
theorem Commits.frame (h : Commits s id request response t.db) {other : Nat} (hne : other ≠ id)
    (hlocks : t.locks = released s id) : Frame s t other := by
  have hkept : ∀ lock, s.locks lock = some other → t.locks lock = some other := by
    intro lock hlock
    rw [hlocks, released, if_neg, hlock]
    rw [hlock]
    exact fun heq => hne (Option.some.inj heq)
  have hsubject : Unbound s id request → ∀ user : User, t.db.bindings = s.db.bindings ++ [(subjectKey request, user.id)] →
      ∀ subject, s.locks (.subject .FORTY_TWO subject) = some other → (.FORTY_TWO, subject) ∉ s.db.bindings.map Prod.fst →
        (.FORTY_TWO, subject) ∉ t.db.bindings.map Prod.fst := by
    intro hunbound user hbindings subject hlock hnew hmem
    rw [hbindings, List.map_append] at hmem
    rcases List.mem_append.mp hmem with hold | hown
    · exact hnew hold
    · have hsame : subject = request.profile.subject := congrArg Prod.snd (List.mem_singleton.mp hown)
      rw [hsame, hunbound.lock] at hlock
      exact hne (Option.some.inj hlock).symm
  cases h with
  | known _ _ _ hids hbindings =>
      exact ⟨hkept, fun _ hmem => hbindings ▸ hmem, fun _ hmem => hids ▸ hmem, fun _ _ hnew => hids ▸ hnew,
        fun _ _ hnew => hbindings ▸ hnew⟩
  | @existing user _ _ _ hunbound _ hids hbindings =>
      refine ⟨hkept, fun _ hmem => ?_, fun _ hmem => hids ▸ hmem, fun _ _ hnew => hids ▸ hnew, hsubject hunbound user hbindings⟩
      rw [hbindings]
      exact List.mem_append_left _ hmem
  | @new user _ _ _ _ _ hunbound hlock _ hids hbindings =>
      refine ⟨hkept, fun _ hmem => ?_, fun _ hmem => ?_, fun userId hheld hnew hmem => ?_, hsubject hunbound user hbindings⟩
      · rw [hbindings]
        exact List.mem_append_left _ hmem
      · rw [hids]
        exact List.mem_append_left _ hmem
      · rw [hids] at hmem
        rcases List.mem_append.mp hmem with hold | hown
        · exact hnew hold
        · rw [List.mem_singleton.mp hown, hlock] at hheld
          exact hne (Option.some.inj hheld).symm

/-- Who gives his locks back, or takes none, leaves the others theirs. -/
theorem frame_of_eq {other : Nat} (hdb : t.db = s.db) (hlocks : ∀ lock, s.locks lock = some other → t.locks lock = some other) :
    Frame s t other where
  locks := hlocks
  bindings binding hmem := by rwa [hdb]
  userIds userId hmem := by rwa [hdb]
  newUser userId _ hnew := by rwa [hdb]
  subject subject _ hnew := by rwa [hdb]

theorem released_of_ne {other : Nat} (hne : other ≠ id) {lock : Lock} (hlock : s.locks lock = some other) :
    released s id lock = some other := by
  rw [released, if_neg, hlock]
  rw [hlock]
  exact fun heq => hne (Option.some.inj heq)

theorem acquire_of_ne {locks : List Lock} {other : Nat} (hne : other ≠ id) (hfree : ∀ lock ∈ locks, s.Free id lock) {lock : Lock}
    (hlock : s.locks lock = some other) : (s.acquire id locks).locks lock = some other := by
  refine (if_neg fun hmem => ?_).trans hlock
  rcases hfree lock hmem with hnone | hown
  · cases hnone.symm.trans hlock
  · exact hne (Option.some.inj (hlock.symm.trans hown))

/-! ### The invariant -/

structure IdentityInv (db : IdentityTables) (s : State) : Prop where
  consistent : s.db.Consistent
  placed : ∀ i request point writes, s.calls i = some ⟨request, .running point writes⟩ → Placed s i request point writes
  resolved : ∀ i profile r, s.calls i = some ⟨.resolve profile, .ended (.ok (.resolved r))⟩ → s.db.Bound profile.subject r.user.id
  linked : ∀ i userId profile, s.calls i = some ⟨.link userId profile, .ended (.ok .linked)⟩ → s.db.Bound profile.subject userId
  created : ∀ userId ∈ s.db.userIds, userId ∉ db.userIds →
    ∃ i profile r, s.calls i = some ⟨.resolve profile, .ended (.ok (.resolved r))⟩ ∧ r.user.id = userId

theorem identityInv_initial {db : IdentityTables} (hdb : db.Consistent) : IdentityInv db (initial db) where
  consistent := hdb
  placed _ _ _ _ := nofun
  resolved _ _ _ := nofun
  linked _ _ _ := nofun
  created _ hmem hnew := absurd hmem hnew

section Invariant

variable {db₀ : IdentityTables} {i : Nat} {profile : FortyTwoProfile}

theorem IdentityInv.placed_step (h : IdentityInv db₀ s) (hstep : Steps s t label) (i : Nat) (request : Request) (point : Point)
    (writes : List Write) (hcall : t.calls i = some ⟨request, .running point writes⟩) : Placed t i request point writes := by
  cases hstep with
  | begins _ _ hcalls hdb hlocks =>
      rw [hcalls] at hcall
      rcases Calls.update_eq_some hcall with ⟨-, hnew⟩ | ⟨-, hold⟩
      · cases hnew
        exact .begun
      · exact (h.placed i request point writes hold).frame (frame_of_eq hdb fun _ hlock => by rwa [hlocks])
  | proceeds hbefore hadvance hfree hcalls hdb hlocks =>
      rw [hcalls] at hcall
      rcases Calls.update_eq_some hcall with ⟨rfl, hnew⟩ | ⟨hne, hold⟩
      · cases hnew
        exact (h.placed i request _ _ hbefore).advance hadvance hdb hlocks
      · refine (h.placed i request point writes hold).frame (frame_of_eq hdb fun lock hlock => ?_)
        rw [hlocks]
        exact acquire_of_ne hne hfree hlock
  | commits hbefore hcalls hdb hlocks =>
      rw [hcalls] at hcall
      rcases Calls.update_eq_some hcall with ⟨-, hnew⟩ | ⟨hne, hold⟩
      · cases hnew
      · have hcommits := (h.placed _ _ _ _ hbefore).commits
        rw [← hdb] at hcommits
        exact (h.placed i request point writes hold).frame (hcommits.frame hne hlocks)
  | givesUp hbefore _ hafter hcalls hdb hlocks =>
      rw [hcalls] at hcall
      rcases Calls.update_eq_some hcall with ⟨-, hnew⟩ | ⟨hne, hold⟩
      · cases hnew
        cases hafter
      · refine (h.placed i request point writes hold).frame (frame_of_eq hdb fun lock hlock => ?_)
        rcases hlocks with hlocks | hlocks
        · rw [hlocks]
          exact released_of_ne hne hlock
        · rwa [hlocks]
  | recovers _ _ hcalls hdb hlocks =>
      rw [hcalls] at hcall
      rcases Calls.update_eq_some hcall with ⟨-, hnew⟩ | ⟨-, hold⟩
      · cases hnew
      · exact (h.placed i request point writes hold).frame (frame_of_eq hdb fun _ hlock => by rwa [hlocks])

/-- A step commits a transaction, or leaves the tables. -/
theorem IdentityInv.commits_or_eq (h : IdentityInv db₀ s) (hstep : Steps s t label) :
    t.db = s.db ∨ ∃ id request response point writes, s.calls id = some ⟨request, .running point writes⟩ ∧
      t.calls = Function.update s.calls id (some ⟨request, .ended (.ok response)⟩) ∧ t.db = s.view writes ∧
        Commits s id request response t.db := by
  cases hstep with
  | begins _ _ _ hdb => exact .inl hdb
  | proceeds _ _ _ _ hdb => exact .inl hdb
  | @commits id request response writes hbefore hcalls hdb =>
      have hcommits := (h.placed _ _ _ _ hbefore).commits
      rw [← hdb] at hcommits
      exact .inr ⟨id, request, response, _, writes, hbefore, hcalls, hdb, hcommits⟩
  | givesUp _ _ _ _ hdb => exact .inl hdb
  | recovers _ _ _ hdb => exact .inl hdb

theorem Commits.binding_mono (h : Commits s id request response db) {binding : (AuthProvider × String) × String}
    (hmem : binding ∈ s.db.bindings) : binding ∈ db.bindings := by
  cases h with
  | known _ _ _ _ hbindings => rwa [hbindings]
  | existing _ _ _ _ _ hbindings =>
      rw [hbindings]
      exact List.mem_append_left _ hmem
  | new _ _ _ _ _ _ _ hbindings =>
      rw [hbindings]
      exact List.mem_append_left _ hmem

theorem Commits.bound (h : Commits s id request response db) :
    ∃ user autoLinked, response = request.response user autoLinked ∧ Target request user.id ∧
      db.Bound request.profile.subject user.id := by
  cases h with
  | @known user hresponse htarget hbound _ hbindings => exact ⟨user, false, hresponse, htarget, by rwa [Bound, hbindings]⟩
  | @existing user autoLinked hresponse htarget _ _ _ hbindings =>
      refine ⟨user, autoLinked, hresponse, htarget, ?_⟩
      rw [Bound, hbindings]
      exact List.mem_append_right _ List.mem_cons_self
  | @new user autoLinked _ _ hresponse htarget _ _ _ _ hbindings =>
      refine ⟨user, autoLinked, hresponse, htarget, ?_⟩
      rw [Bound, hbindings]
      exact List.mem_append_right _ List.mem_cons_self

theorem IdentityInv.binding_step (h : IdentityInv db₀ s) (hstep : Steps s t label) {binding : (AuthProvider × String) × String}
    (hmem : binding ∈ s.db.bindings) : binding ∈ t.db.bindings := by
  rcases h.commits_or_eq hstep with hdb | ⟨id, request, response, point, writes, -, -, -, hcommits⟩
  · rwa [hdb]
  · exact hcommits.binding_mono hmem

theorem IdentityInv.bound_step (h : IdentityInv db₀ s) (hstep : Steps s t label) {subject userId : String}
    (hbound : s.db.Bound subject userId) : t.db.Bound subject userId := h.binding_step hstep hbound

/-- A call that has succeeded had before, or commits, or has found the identity that won. -/
theorem IdentityInv.ok_origin (h : IdentityInv db₀ s) (hstep : Steps s t label) {response : Response}
    (hcall : t.calls i = some ⟨request, .ended (.ok response)⟩) :
    s.calls i = some ⟨request, .ended (.ok response)⟩ ∨ Commits s i request response t.db ∨
      ∃ user, response = .resolved ⟨user, false⟩ ∧ t.db.Bound request.profile.subject user.id ∧ t.db = s.db := by
  cases hstep with
  | begins _ _ hcalls =>
      rw [hcalls] at hcall
      rcases Calls.update_eq_some hcall with ⟨-, hnew⟩ | ⟨-, hold⟩
      · cases hnew
      · exact .inl hold
  | proceeds _ _ _ hcalls =>
      rw [hcalls] at hcall
      rcases Calls.update_eq_some hcall with ⟨-, hnew⟩ | ⟨-, hold⟩
      · cases hnew
      · exact .inl hold
  | commits hbefore hcalls hdb =>
      rw [hcalls] at hcall
      rcases Calls.update_eq_some hcall with ⟨rfl, hnew⟩ | ⟨-, hold⟩
      · cases hnew
        rw [hdb]
        exact .inr (.inl (h.placed _ _ _ _ hbefore).commits)
      · exact .inl hold
  | givesUp _ _ hafter hcalls =>
      rw [hcalls] at hcall
      rcases Calls.update_eq_some hcall with ⟨-, hnew⟩ | ⟨-, hold⟩
      · cases hnew
        cases hafter
      · exact .inl hold
  | @recovers _ _ user _ hfound hcalls hdb =>
      rw [hcalls] at hcall
      rcases Calls.update_eq_some hcall with ⟨-, hnew⟩ | ⟨-, hold⟩
      · cases hnew
        rw [hdb]
        exact .inr (.inr ⟨user, rfl, bound_of_found hfound, rfl⟩)
      · exact .inl hold

theorem IdentityInv.resolved_step (h : IdentityInv db₀ s) (hstep : Steps s t label) (i : Nat) (profile : FortyTwoProfile)
    (r : FortyTwoLoginResolution) (hcall : t.calls i = some ⟨.resolve profile, .ended (.ok (.resolved r))⟩) :
    t.db.Bound profile.subject r.user.id := by
  rcases h.ok_origin hstep hcall with hold | hcommits | ⟨user, hresponse, hbound, -⟩
  · exact h.bound_step hstep (h.resolved i profile r hold)
  · obtain ⟨user, autoLinked, hresponse, -, hbound⟩ := hcommits.bound
    cases hresponse
    exact hbound
  · cases hresponse
    exact hbound

theorem IdentityInv.linked_step (h : IdentityInv db₀ s) (hstep : Steps s t label) (i : Nat) (userId : String)
    (profile : FortyTwoProfile) (hcall : t.calls i = some ⟨.link userId profile, .ended (.ok .linked)⟩) :
    t.db.Bound profile.subject userId := by
  rcases h.ok_origin hstep hcall with hold | hcommits | ⟨user, hresponse, -⟩
  · exact h.bound_step hstep (h.linked i userId profile hold)
  · obtain ⟨user, autoLinked, -, htarget, hbound⟩ := hcommits.bound
    rwa [htarget userId profile rfl] at hbound
  · cases hresponse

theorem Steps.moves (h : Steps s t label) :
    Calls.Moves (fun _ phase => phase = .running .begun []) (fun _ before _ => ¬before.hasEnded) s.calls t.calls := by
  cases h with
  | begins _ hnew hcalls => exact .begins hnew rfl hcalls
  | proceeds hcall _ _ hcalls => exact .proceeds hcall Bool.false_ne_true hcalls
  | commits hcall hcalls => exact .proceeds hcall Bool.false_ne_true hcalls
  | givesUp hcall hbefore _ hcalls => exact .proceeds hcall hbefore hcalls
  | recovers hcall _ hcalls => exact .proceeds hcall Bool.false_ne_true hcalls

/-- A call that has ended keeps its result. -/
theorem Steps.of_hasEnded (h : Steps s t label) {result : Except Error Response}
    (hcall : s.calls i = some ⟨request, .ended result⟩) : t.calls i = some ⟨request, .ended result⟩ :=
  h.moves.of_ended hcall fun _ hrunning => hrunning rfl

/-- A user who is new belongs to the login that has just bound an unbound subject to him. -/
theorem IdentityInv.new_user (h : IdentityInv db₀ s) (hstep : Steps s t label) {userId : String} (hmem : userId ∈ t.db.userIds)
    (hnew : userId ∉ s.db.userIds) : ∃ i profile r, t.calls i = some ⟨.resolve profile, .ended (.ok (.resolved r))⟩ ∧
      r.user.id = userId ∧ (∀ other, ¬s.db.Bound profile.subject other) ∧ t.db.Bound profile.subject userId ∧
        t.db.userIds = s.db.userIds ++ [userId] := by
  rcases h.commits_or_eq hstep with hdb | ⟨id, request, response, point, writes, -, hcalls, -, hcommits⟩
  · rw [hdb] at hmem
    exact absurd hmem hnew
  · cases hcommits with
    | known _ _ _ hids =>
        rw [hids] at hmem
        exact absurd hmem hnew
    | existing _ _ _ _ hids =>
        rw [hids] at hmem
        exact absurd hmem hnew
    | @new user autoLinked profile hrequest hresponse _ hunbound _ _ hids hbindings =>
        rw [hids] at hmem
        rcases List.mem_append.mp hmem with hold | hown
        · exact absurd hold hnew
        · obtain rfl := List.mem_singleton.mp hown
          subst hrequest hresponse
          refine ⟨id, profile, ⟨user, autoLinked⟩, by rw [hcalls, Function.update_self]; rfl, rfl, fun other hbound => ?_, ?_, hids⟩
          · exact hunbound.key (List.mem_map.mpr ⟨_, hbound, rfl⟩)
          · rw [Bound, hbindings]
            exact List.mem_append_right _ List.mem_cons_self

theorem IdentityInv.created_step (h : IdentityInv db₀ s) (hstep : Steps s t label) (userId : String) (hmem : userId ∈ t.db.userIds)
    (hnew : userId ∉ db₀.userIds) :
    ∃ i profile r, t.calls i = some ⟨.resolve profile, .ended (.ok (.resolved r))⟩ ∧ r.user.id = userId := by
  by_cases hold : userId ∈ s.db.userIds
  · obtain ⟨i, profile, r, hcall, hid⟩ := h.created userId hold hnew
    exact ⟨i, profile, r, hstep.of_hasEnded hcall, hid⟩
  · obtain ⟨i, profile, r, hcall, hid, -⟩ := h.new_user hstep hmem hold
    exact ⟨i, profile, r, hcall, hid⟩

theorem identityInv_step (h : IdentityInv db₀ s) (hstep : Steps s t label) : IdentityInv db₀ t where
  consistent := by
    rcases h.commits_or_eq hstep with hdb | ⟨_, _, _, _, _, -, -, -, hcommits⟩
    · rw [hdb]
      exact h.consistent
    · exact hcommits.consistent h.consistent
  placed := h.placed_step hstep
  resolved := h.resolved_step hstep
  linked := h.linked_step hstep
  created := h.created_step hstep

theorem identityInv_preserved (db₀ : IdentityTables) : Runs.Preserved State.step (IdentityInv db₀) :=
  fun _ _ _ h hstep => identityInv_step h (steps_of_step hstep)

theorem IdentityInv.exists_enriched (h : IdentityInv db₀ s) (hstep : Steps s t label) {user : User} (hmem : user ∈ s.db.users) :
    ∃ user' ∈ t.db.users, Enriched user user' := by
  rcases h.commits_or_eq hstep with hdb | ⟨_, _, _, _, writes, -, -, hdb, -⟩
  · exact ⟨user, by rwa [hdb], .refl user⟩
  · rw [hdb]
    exact exists_enriched_view writes hmem

end Invariant

/-! ### Over whole runs -/

/-- What holds of the identities in a state, and in every run from it on; `db` are the tables at the
beginning. -/
structure Resolution (db : IdentityTables) (s : State) : Prop where
  one_user : ∀ subject userId other, s.db.Bound subject userId → s.db.Bound subject other → userId = other
  stays_bound : ∀ subject userId, s.db.Bound subject userId → ∀ labels u, Runs.run State.step s labels = some u →
    u.db.Bound subject userId
  resolved : ∀ i profile r, s.calls i = some ⟨.resolve profile, .ended (.ok (.resolved r))⟩ → s.db.Bound profile.subject r.user.id
  same_user : ∀ i j profile profile' r r', s.calls i = some ⟨.resolve profile, .ended (.ok (.resolved r))⟩ →
    s.calls j = some ⟨.resolve profile', .ended (.ok (.resolved r'))⟩ → profile.subject = profile'.subject → r.user.id = r'.user.id
  /-- Every user who is new is the one that a successful login ends with. -/
  created : ∀ userId ∈ s.db.userIds, userId ∉ db.userIds →
    ∃ i profile r, s.calls i = some ⟨.resolve profile, .ended (.ok (.resolved r))⟩ ∧ r.user.id = userId
  /-- He is created, alone, in the step that binds the subject of this login, which nobody had. -/
  creates : ∀ label t, s.step label = some t → ∀ userId ∈ t.db.userIds, userId ∉ s.db.userIds →
    ∃ i profile r, t.calls i = some ⟨.resolve profile, .ended (.ok (.resolved r))⟩ ∧ r.user.id = userId ∧
      (∀ other, ¬s.db.Bound profile.subject other) ∧ t.db.Bound profile.subject userId ∧
        t.db.userIds = s.db.userIds ++ [userId]
  linked : ∀ i userId profile, s.calls i = some ⟨.link userId profile, .ended (.ok .linked)⟩ → s.db.Bound profile.subject userId
  /-- A step of a call that does not end it well, such as one that ends it in a conflict, changes
  nothing. -/
  unchanged : ∀ label t, s.step label = some t → ∀ i request phase, t.calls i = some ⟨request, phase⟩ → t.calls i ≠ s.calls i →
    (∀ response, phase ≠ .ended (.ok response)) → t.db = s.db
  enriches : ∀ user ∈ s.db.users, ∀ labels u, Runs.run State.step s labels = some u → ∃ user' ∈ u.db.users, Enriched user user'

/-- From any consistent tables, for any interleaving of any number of calls. -/
theorem resolution (db : IdentityTables) (hdb : db.Consistent) (labels : List Label) (s : State)
    (hrun : Runs.run State.step (initial db) labels = some s) : Resolution db s := by
  have h : IdentityInv db s := (identityInv_preserved db).run (identityInv_initial hdb) hrun
  constructor
  · exact fun subject userId other => h.consistent.bound_unique
  · intro subject userId hbound labels u hrun
    have hlater : Runs.Preserved State.step fun u => IdentityInv db u ∧ u.db.Bound subject userId :=
      fun _ _ _ hu hstep => ⟨identityInv_step hu.1 (steps_of_step hstep), hu.1.bound_step (steps_of_step hstep) hu.2⟩
    exact (hlater.run ⟨h, hbound⟩ hrun).2
  · exact h.resolved
  · intro i j profile profile' r r' hi hj hsubject
    have hbound := h.resolved i profile r hi
    rw [hsubject] at hbound
    exact h.consistent.bound_unique hbound (h.resolved j profile' r' hj)
  · exact h.created
  · exact fun label t hstep userId hmem hnew => h.new_user (steps_of_step hstep) hmem hnew
  · exact h.linked
  · intro label t hstep i request phase hcall hmoved hnotOk
    rcases h.commits_or_eq (steps_of_step hstep) with heq | ⟨id, request', response, _, _, -, hcalls, -, -⟩
    · exact heq
    · rw [hcalls] at hcall hmoved
      rcases Calls.update_eq_some hcall with ⟨-, hnew⟩ | ⟨hne, -⟩
      · cases hnew
        exact absurd rfl (hnotOk response)
      · exact absurd (Function.update_of_ne hne ..) hmoved
  · intro user hmem labels u hrun
    have hlater : Runs.Preserved State.step fun u => IdentityInv db u ∧ ∃ user' ∈ u.db.users, Enriched user user' := by
      rintro u label v ⟨hu, user', hmem', henriched⟩ hstep
      obtain ⟨user'', hmem'', hlater⟩ := hu.exists_enriched (steps_of_step hstep) hmem'
      exact ⟨identityInv_step hu (steps_of_step hstep), user'', hmem'', henriched.trans hlater⟩
    exact (hlater.run ⟨h, user, hmem, .refl user⟩ hrun).2

/-! Two first logins at once: the second meets the user whom the first has created. -/

def newcomer : FortyTwoProfile := ⟨"42", "new@example.org", "newcomer", "New Comer", some "New", none, none, none⟩

def firstLogins : List Label :=
  [.begin 0 (.resolve newcomer), .begin 1 (.resolve newcomer), .lookup 0, .lookup 1, .lookupLocal 0, .lookupLocal 1,
    .create 0 "first" "", .insertIdentity 0, .enrich 0, .commit 0, .create 1 "second" "", .create 1 "second" "abcdef0",
    .recover 1]

def Phase.userId : Phase → Option String
  | .ended (.ok (.resolved r)) => some r.user.id
  | _ => none

theorem resolution_of_firstLogins :
    ∃ s, Runs.run State.step (initial ⟨[], []⟩) firstLogins = some s ∧ (s.calls 0).map (·.phase.userId) = some (some "first") ∧
      (s.calls 1).map (·.phase.userId) = some (some "first") ∧ s.db.userIds = ["first"] ∧ Resolution ⟨[], []⟩ s := by
  have hends : (Runs.run State.step (initial ⟨[], []⟩) firstLogins).map
      (fun s => ((s.calls 0).map (·.phase.userId), (s.calls 1).map (·.phase.userId), s.db.userIds)) =
        some (some (some "first"), some (some "first"), ["first"]) := by decide +kernel
  obtain ⟨s, hrun, hends⟩ := Option.map_eq_some_iff.mp hends
  obtain ⟨hfirst, hends⟩ := Prod.mk.inj hends
  obtain ⟨hsecond, hids⟩ := Prod.mk.inj hends
  have hconsistent : IdentityTables.Consistent ⟨[], []⟩ := ⟨List.nodup_nil, List.nodup_nil, fun _ hmem => absurd hmem List.not_mem_nil⟩
  exact ⟨s, hrun, hfirst, hsecond, hids, resolution ⟨[], []⟩ hconsistent firstLogins s hrun⟩

end FortyTwoIdentities

end Transcendence.Auth
