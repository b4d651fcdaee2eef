import Transcendence.Auth.FortyTwoIdentities

/-!
# What a statement does to the identities

A transaction goes from point to point (`Advance`) and changes nothing that is committed; it commits
what it has written, or gives up. Every step is one of these (`Steps`).
-/

namespace Transcendence.Auth.FortyTwoIdentities

def subjectKey (request : Request) : AuthProvider × String := (.FORTY_TWO, request.profile.subject)

/-- A transaction goes from a point to the next, adds writes of its own and takes locks. -/
inductive Advance (s : State) (id : Nat) (request : Request) (writes : List Write) : Point → Point → List Write → List Lock → Prop where
  | misses {profile} (hrequest : request = .resolve profile) : Advance s id request writes .begun .unknown [] []
  | aims {userId profile} (hrequest : request = .link userId profile) :
      Advance s id request writes .begun (.chosen userId false) [] []
  | finds {user} (hfound : s.db.findIdentityUser .FORTY_TWO request.profile.subject = some user)
      (hlink : ∀ userId profile, request = .link userId profile → user.id = userId) {locks} :
      Advance s id request writes .begun (.known user.id) [] locks
  | startsCreating : Advance s id request writes .unknown (.creating 0) [] []
  | links {user} (hfound : s.db.findIdentityUser .LOCAL request.profile.email = some user) {locks} :
      Advance s id request writes .unknown (.chosen user.id true) [] locks
  | retries {attempt} : Advance s id request writes (.creating attempt) (.creating (attempt + 1)) [] []
  | creates {attempt newId username locks} (hlock : .newUser newId ∈ locks) (hid : ∀ user ∈ s.db.users, user.id ≠ newId) :
      Advance s id request writes (.creating attempt) (.chosen newId false) [.user (fortyTwoUser newId username request.profile)] locks
  | inserts {userId autoLinked locks} (hlock : .subject .FORTY_TWO request.profile.subject ∈ locks)
      (hkey : ∀ row ∈ s.db.identities, row.key ≠ subjectKey request) (huser : ((s.view writes).findUser userId).isSome) :
      Advance s id request writes (.chosen userId autoLinked) (.inserted userId autoLinked)
        [.identity (fortyTwoIdentity userId request.profile)] locks
  | enrichesKnown {userId user locks}
      (huser : (s.view (writes ++ [.enrich userId request.profile])).findUser userId = some user) :
      Advance s id request writes (.known userId) (.enriched user) [.enrich userId request.profile] locks
  | enrichesInserted {userId autoLinked user locks}
      (huser : (s.view (writes ++ [.enrich userId request.profile])).findUser userId = some user) :
      Advance s id request writes (.inserted userId autoLinked) (.ready (request.response user autoLinked))
        [.enrich userId request.profile] locks
  | touches {user} : Advance s id request writes (.enriched user) (.ready (request.response user false))
      [.touch user.id request.profile] []

/-- The phases in which a call has given up. -/
def Phase.isOver : Phase → Bool
  | .conflicted => true
  | .ended (.error _) => true
  | _ => false

def Phase.hasEnded : Phase → Bool
  | .ended _ => true
  | _ => false

def released (s : State) (id : Nat) : Lock → Option Nat := fun lock => if s.locks lock = some id then none else s.locks lock

inductive Steps (s t : State) (label : Label) : Prop where
  | begins {id request} (hlabel : label = .begin id request) (hnew : s.calls id = none)
      (hcalls : t.calls = Function.update s.calls id (some ⟨request, .running .begun []⟩)) (hdb : t.db = s.db)
      (hlocks : t.locks = s.locks)
  | proceeds {id request point next writes added locks} (hcall : s.calls id = some ⟨request, .running point writes⟩)
      (hadvance : Advance s id request writes point next added locks) (hfree : ∀ lock ∈ locks, s.Free id lock)
      (hcalls : t.calls = Function.update s.calls id (some ⟨request, .running next (writes ++ added)⟩)) (hdb : t.db = s.db)
      (hlocks : t.locks = (s.acquire id locks).locks)
  | commits {id request response writes} (hcall : s.calls id = some ⟨request, .running (.ready response) writes⟩)
      (hcalls : t.calls = Function.update s.calls id (some ⟨request, .ended (.ok response)⟩)) (hdb : t.db = s.view writes)
      (hlocks : t.locks = released s id)
  | givesUp {id request before after} (hcall : s.calls id = some ⟨request, before⟩) (hbefore : ¬before.hasEnded)
      (hafter : after.isOver) (hcalls : t.calls = Function.update s.calls id (some ⟨request, after⟩)) (hdb : t.db = s.db)
      (hlocks : t.locks = released s id ∨ t.locks = s.locks)
  | recovers {id request user} (hcall : s.calls id = some ⟨request, .conflicted⟩)
      (hfound : s.db.findIdentityUser .FORTY_TWO request.profile.subject = some user)
      (hcalls : t.calls = Function.update s.calls id (some ⟨request, .ended (.ok (.resolved ⟨user, false⟩))⟩)) (hdb : t.db = s.db)
      (hlocks : t.locks = s.locks)

variable {s t : State} {id : Nat} {request : Request} {label : Label}

theorem transaction_eq_some {statement : Request → Point → List Write → Option State}
    (h : s.transaction id statement = some t) :
    ∃ request point writes, s.calls id = some ⟨request, .running point writes⟩ ∧ statement request point writes = some t := by
  rw [State.transaction, Option.bind_eq_some_iff] at h
  obtain ⟨⟨request, phase⟩, hcall, h⟩ := h
  cases phase with
  | running point writes => exact ⟨request, point, writes, hcall, h⟩
  | conflicted => cases h
  | ended => cases h

theorem Steps.of_advance {point next : Point} {writes added : List Write} {locks : List Lock}
    (hcall : s.calls id = some ⟨request, .running point writes⟩) (hadvance : Advance s id request writes point next added locks)
    (hfree : ∀ lock ∈ locks, s.Free id lock) :
    Steps s ((s.acquire id locks).setPhase id request (.running next (writes ++ added))) label :=
  .proceeds hcall hadvance hfree rfl rfl rfl

theorem acquire_nil (s : State) (id : Nat) : s.acquire id [] = s := by
  simp [State.acquire]

theorem Steps.of_advance_nil {point next : Point} {writes added : List Write}
    (hcall : s.calls id = some ⟨request, .running point writes⟩) (hadvance : Advance s id request writes point next added []) :
    Steps s (s.setPhase id request (.running next (writes ++ added))) label := by
  have h : Steps s _ label := Steps.of_advance hcall hadvance fun _ hlock => absurd hlock List.not_mem_nil
  rwa [acquire_nil] at h

theorem Steps.of_giveUp {point : Point} {writes : List Write} {after : Phase}
    (hcall : s.calls id = some ⟨request, .running point writes⟩) (hafter : after.isOver) :
    Steps s (s.finish id request after) label := .givesUp hcall Bool.false_ne_true hafter rfl rfl (.inl rfl)

theorem Steps.of_lookup (hstep : s.lookup id = some t) : Steps s t label := by
  obtain ⟨request, point, writes, hcall, hstep⟩ := transaction_eq_some hstep
  split at hstep
  · cases request with
    | resolve profile =>
        cases hstep
        simpa using Steps.of_advance_nil hcall (.misses rfl)
    | link userId profile =>
        cases hstep
        simpa using Steps.of_advance_nil hcall (.aims rfl)
  · next user hfound =>
      rw [Option.ite_none_left_eq_some, not_not] at hstep
      obtain ⟨hfree, hstep⟩ := hstep
      cases request with
      | resolve profile =>
          cases hstep
          simpa using Steps.of_advance hcall (.finds hfound nofun) (List.forall_mem_singleton.mpr hfree)
      | link userId profile =>
          dsimp only at hstep
          split at hstep
          · cases hstep
            exact .of_giveUp hcall rfl
          · next hsame =>
              cases hstep
              rw [not_not] at hsame
              subst hsame
              simpa using Steps.of_advance hcall (.finds hfound fun _ _ hlink => (Request.link.inj hlink).1)
                (List.forall_mem_singleton.mpr hfree)
  · cases hstep

theorem Steps.of_lookupLocal (hstep : s.lookupLocal id = some t) : Steps s t label := by
  obtain ⟨request, point, writes, hcall, hstep⟩ := transaction_eq_some hstep
  split at hstep
  · cases hstep
    simpa using Steps.of_advance_nil hcall .startsCreating
  · next user hfound =>
      rw [Option.ite_none_left_eq_some, not_not] at hstep
      obtain ⟨hfree, hstep⟩ := hstep
      cases hstep
      simpa using Steps.of_advance hcall (.links hfound) (List.forall_mem_singleton.mpr hfree)
  · cases hstep

theorem Steps.of_create {newId suffix : String} (hstep : s.create id newId suffix = some t) : Steps s t label := by
  obtain ⟨request, point, writes, hcall, hstep⟩ := transaction_eq_some hstep
  split at hstep
  · next attempt =>
      dsimp only at hstep
      rw [Option.ite_none_left_eq_some, not_not] at hstep
      obtain ⟨husername, hstep⟩ := hstep
      split at hstep
      · split at hstep
        · cases hstep
          simpa using Steps.of_advance_nil hcall .retries
        · cases hstep
          exact .of_giveUp hcall rfl
      · rw [Option.ite_none_left_eq_some] at hstep
        obtain ⟨hfree, hstep⟩ := hstep
        rw [not_not] at hfree
        split at hstep
        · cases hstep
          exact .of_giveUp hcall rfl
        · next hnone =>
            cases hstep
            refine .of_advance hcall (.creates (by simp) fun user hmem hid => hnone ?_) ?_
            · refine List.any_eq_true.mpr ⟨user, hmem, ?_⟩
              rw [Bool.or_eq_true, decide_eq_true_eq, decide_eq_true_eq]
              exact .inr hid
            · simpa using ⟨husername, hfree⟩
  · cases hstep

theorem Steps.of_insertIdentity (hstep : s.insertIdentity id = some t) : Steps s t label := by
  obtain ⟨request, point, writes, hcall, hstep⟩ := transaction_eq_some hstep
  split at hstep
  · next userId autoLinked =>
      rw [Option.ite_none_left_eq_some] at hstep
      obtain ⟨hfree, hstep⟩ := hstep
      rw [not_not] at hfree
      split at hstep
      · cases request with
        | resolve profile =>
            cases hstep
            exact .of_giveUp hcall rfl
        | link =>
            cases hstep
            exact .of_giveUp hcall rfl
      · next hnone =>
          split at hstep
          · cases hstep
            exact .of_giveUp hcall rfl
          · next huser =>
              cases hstep
              refine .of_advance hcall (.inserts List.mem_cons_self (fun row hmem hkey => hnone ?_) ?_)
                (List.forall_mem_singleton.mpr hfree)
              · exact List.any_eq_true.mpr ⟨row, hmem, decide_eq_true hkey⟩
              · rwa [Bool.not_eq_true, Option.isNone_eq_false_iff] at huser
  · cases hstep

theorem Steps.of_enrich (hstep : s.enrich id = some t) : Steps s t label := by
  obtain ⟨request, point, writes, hcall, hstep⟩ := transaction_eq_some hstep
  dsimp only at hstep
  split at hstep
  · next userId =>
      rw [Option.ite_none_left_eq_some, not_not] at hstep
      obtain ⟨hfree, hstep⟩ := hstep
      split at hstep
      · cases hstep
        exact .of_giveUp hcall rfl
      · next user huser =>
          cases hstep
          exact .of_advance hcall (.enrichesKnown huser) (List.forall_mem_singleton.mpr hfree)
  · next userId autoLinked =>
      rw [Option.ite_none_left_eq_some, not_not] at hstep
      obtain ⟨hfree, hstep⟩ := hstep
      split at hstep
      · cases hstep
        exact .of_giveUp hcall rfl
      · next user huser =>
          cases hstep
          exact .of_advance hcall (.enrichesInserted huser) (List.forall_mem_singleton.mpr hfree)
  · cases hstep

theorem Steps.of_touch (hstep : s.touch id = some t) : Steps s t label := by
  obtain ⟨request, point, writes, hcall, hstep⟩ := transaction_eq_some hstep
  split at hstep
  · next user =>
      split at hstep
      · cases hstep
        exact .of_giveUp hcall rfl
      · cases hstep
        exact .of_advance_nil hcall .touches
  · cases hstep

theorem Steps.of_commit (hstep : s.commit id = some t) : Steps s t label := by
  obtain ⟨request, point, writes, hcall, hstep⟩ := transaction_eq_some hstep
  split at hstep
  · cases hstep
    exact .commits hcall rfl rfl rfl
  · cases hstep

theorem Steps.of_recover (hstep : s.recover id = some t) : Steps s t label := by
  rw [State.recover, Option.bind_eq_some_iff] at hstep
  obtain ⟨⟨request, phase⟩, hcall, hstep⟩ := hstep
  cases phase with
  | running => cases hstep
  | ended => cases hstep
  | conflicted =>
      dsimp only at hstep
      split at hstep
      · next user hfound =>
          cases hstep
          exact .recovers hcall hfound rfl rfl rfl
      · cases hstep
        exact .givesUp hcall Bool.false_ne_true rfl rfl rfl (.inr rfl)

theorem Steps.of_fail (hstep : s.fail id = some t) : Steps s t label := by
  rw [State.fail, Option.bind_eq_some_iff] at hstep
  obtain ⟨⟨request, phase⟩, hcall, hstep⟩ := hstep
  cases phase with
  | running =>
      cases hstep
      exact .givesUp hcall Bool.false_ne_true rfl rfl rfl (.inl rfl)
  | conflicted =>
      cases hstep
      exact .givesUp hcall Bool.false_ne_true rfl rfl rfl (.inl rfl)
  | ended => cases hstep

theorem steps_of_step (hstep : s.step label = some t) : Steps s t label := by
  cases label with
  | begin id request =>
      obtain ⟨hnew, hstep⟩ := Option.ite_none_left_eq_some.mp hstep
      cases hstep
      rw [Bool.not_eq_true, Option.isSome_eq_false_iff, Option.isNone_iff_eq_none] at hnew
      exact .begins rfl hnew rfl rfl rfl
  | lookup id => exact .of_lookup hstep
  | lookupLocal id => exact .of_lookupLocal hstep
  | create id newId suffix => exact .of_create hstep
  | insertIdentity id => exact .of_insertIdentity hstep
  | enrich id => exact .of_enrich hstep
  | touch id => exact .of_touch hstep
  | commit id => exact .of_commit hstep
  | recover id => exact .of_recover hstep
  | fail id => exact .of_fail hstep

end Transcendence.Auth.FortyTwoIdentities
