import Transcendence.Projects.Details

/-!
# Saved details

An accepted save replaces a row that has the version it expected, and what it replaces of the details is
what the save before it has written (`Chained`). Whether its caller had seen that save is another
matter: a version is a reading of the clock, and two writes of one millisecond have the same. No save
is lost in exactly the runs whose writes read versions that stand for no earlier save
(`saves_seen_iff`).
-/

namespace Transcendence.Projects.Details

open Stamps (Version StampsTell)

/-! ### Steps -/

/-- A save reads from the clock what no version has had yet, and any other write what none has had from
before the last save. -/
def FreshReading (s : State) : Label → Prop
  | .write id now =>
      (∀ userId dto role previous project, s.calls id = some ⟨.updateDetails userId dto, .read role previous⟩ →
        s.project = some project → project.updatedAt = dto.updatedAt → ∀ version ∈ s.versions, version.stamp ≠ now) ∧
      (∀ userId dto role previous project, s.calls id = some ⟨.update userId dto, .read role previous⟩ →
        s.project = some project → dto ≠ {} →
          ∀ version ∈ s.versions, version.stamp = now → version.epoch = s.saves.length)
  | _ => True

/-- What a step does to the row, the saves and the versions. -/
inductive Effect (s : State) (label : Label) (t : State) : Prop where
  | rests (hfresh : FreshReading s label) (hproject : t.project = s.project) (hsaves : t.saves = s.saves) (hversions : t.versions = s.versions)
  | removes (hlabel : label = .remove) (hproject : t.project = none) (hsaves : t.saves = s.saves) (hversions : t.versions = s.versions)
  | saves {id : Nat} {now : Int} {userId : UserId} {dto : UpdateProjectDetailsDto} {role : ProjectMemberRole}
      {previous project : Project} (hlabel : label = .write id now)
      (hcall : s.calls id = some ⟨.updateDetails userId dto, .read role previous⟩) (hproject : s.project = some project)
      (hversion : project.updatedAt = dto.updatedAt) (hsaved : t.project = some (dto.apply now project))
      (hsaves : t.saves = s.saves ++ [⟨id, dto.updatedAt, project, dto.apply now project⟩])
      (hversions : t.versions = s.versions ++ [⟨now, s.saves.length + 1⟩])
  | updates {id : Nat} {now : Int} {userId : UserId} {dto : UpdateProjectDto} {role : ProjectMemberRole}
      {previous project : Project} (hlabel : label = .write id now)
      (hcall : s.calls id = some ⟨.update userId dto, .read role previous⟩) (hproject : s.project = some project)
      (hdto : dto ≠ {}) (hupdated : t.project = some (dto.apply now project)) (hsaves : t.saves = s.saves)
      (hversions : t.versions = s.versions ++ [⟨now, s.saves.length⟩])

variable {s t : State} {label : Label}

theorem effect_saveDetails {id : Nat} {now : Int} {userId : UserId} {dto : UpdateProjectDetailsDto}
    {role : ProjectMemberRole} {previous : Project}
    (hcall : s.calls id = some ⟨.updateDetails userId dto, .read role previous⟩) :
    Effect s (.write id now) (s.saveDetails id userId dto role previous now) := by
  rw [State.saveDetails]
  cases hfind : s.project.filter (·.updatedAt = dto.updatedAt) with
  | none =>
      refine .rests ⟨?_, fun _ _ _ _ _ hother => ?_⟩ rfl rfl rfl
      · intro _ _ _ _ project hcall' hproject hversion
        cases hcall.symm.trans hcall'
        rw [hproject, Option.filter_some, if_pos (decide_eq_true hversion)] at hfind
        cases hfind
      · cases hcall.symm.trans hother
  | some project =>
      obtain ⟨hproject, hversion⟩ := Option.filter_eq_some_iff.mp hfind
      exact .saves rfl hcall hproject (of_decide_eq_true hversion) rfl rfl rfl

theorem effect_saveLifecycle {id : Nat} {now : Int} {userId : UserId} {dto : UpdateProjectDto} {role : ProjectMemberRole}
    {previous : Project} (hcall : s.calls id = some ⟨.update userId dto, .read role previous⟩) :
    Effect s (.write id now) (s.saveLifecycle id userId dto role previous now) := by
  rw [State.saveLifecycle]
  cases hproject : s.project with
  | none =>
      refine .rests ⟨fun _ _ _ _ _ hother => ?_, fun _ _ _ _ _ _ hsome => ?_⟩ rfl rfl rfl
      · cases hcall.symm.trans hother
      · cases hproject.symm.trans hsome
  | some project =>
      by_cases hdto : dto = {}
      · refine .rests ⟨fun _ _ _ _ _ hother => ?_, fun _ _ _ _ _ hcall' _ hne => ?_⟩ ?_ rfl ?_
        · cases hcall.symm.trans hother
        · cases hcall.symm.trans hcall'
          exact absurd hdto hne
        · rw [hproject]
          exact congrArg some (if_pos hdto)
        · simp only [hdto, if_true, List.append_nil]
      · refine .updates rfl hcall hproject hdto rfl rfl ?_
        simp only [hdto, if_false]

theorem effect_step (h : s.step label = some t) : Effect s label t := by
  cases label with
  | begin id request =>
      rw [State.step, State.begin] at h
      split at h
      · cases h
      · cases h
        exact .rests trivial rfl rfl rfl
  | assertMembership id =>
      rw [State.step, State.assertMembership, Option.map_eq_some_iff] at h
      obtain ⟨call, _, rfl⟩ := h
      exact .rests trivial rfl rfl rfl
  | findUniqueOrThrow id =>
      rw [State.step, State.findUniqueOrThrow, Option.bind_eq_some_iff] at h
      obtain ⟨⟨request, phase⟩, _, h⟩ := h
      cases phase with
      | authorized role =>
          cases h
          exact .rests trivial rfl rfl rfl
      | _ => cases h
  | write id now =>
      rw [State.step, State.write, Option.bind_eq_some_iff] at h
      obtain ⟨⟨request, phase⟩, hcall, h⟩ := h
      cases phase with
      | read role previous =>
          cases request with
          | updateDetails userId dto =>
              cases h
              exact effect_saveDetails hcall
          | update userId dto =>
              cases h
              exact effect_saveLifecycle hcall
      | _ => cases h
  | abort id =>
      rw [State.step, State.abort, Option.bind_eq_some_iff] at h
      obtain ⟨⟨request, phase⟩, _, h⟩ := h
      cases phase with
      | ended outcome => cases h
      | _ =>
          cases h
          exact .rests trivial rfl rfl rfl
  | setRole userId role =>
      cases h
      exact .rests trivial rfl rfl rfl
  | remove =>
      cases h
      exact .removes rfl rfl rfl rfl

/-- A save that is refused changes nothing. -/
theorem project_eq_of_refused {id : Nat} {now : Int} {userId : UserId} {dto : UpdateProjectDetailsDto} {phase : Phase}
    (hcall : s.calls id = some ⟨.updateDetails userId dto, phase⟩) (hstep : s.step (.write id now) = some t)
    (hrefused : t.saves = s.saves) : t.project = s.project ∧ t.versions = s.versions := by
  cases effect_step hstep with
  | rests _ hproject _ hversions => exact ⟨hproject, hversions⟩
  | removes hlabel _ _ _ => cases hlabel
  | saves _ _ _ _ _ hsaves _ =>
      have hlength := congrArg List.length (hrefused.symm.trans hsaves)
      rw [List.length_append, List.length_singleton] at hlength
      omega
  | updates hlabel hother _ _ _ _ _ =>
      cases hlabel
      cases hcall.symm.trans hother

/-! ### The chain of the saves -/

/-- The details that the last save has written. -/
def lastDetails (first : String × Option String) (saves : List Save) : String × Option String :=
  saves.getLast?.elim first (·.saved.details)

/-- A save replaces a row that has the version it expected and the details that the save before it has
written. -/
def Chained (first : String × Option String) : List Save → Prop
  | [] => True
  | save :: saves =>
      save.replaced.updatedAt = save.expected ∧ save.replaced.details = first ∧ Chained save.saved.details saves

theorem lastDetails_cons (first : String × Option String) (save : Save) (saves : List Save) :
    lastDetails first (save :: saves) = lastDetails save.saved.details saves := by
  rw [lastDetails, lastDetails, List.getLast?_cons]
  cases saves.getLast? <;> rfl

theorem lastDetails_concat (first : String × Option String) (saves : List Save) (save : Save) :
    lastDetails first (saves ++ [save]) = save.saved.details := by
  rw [lastDetails, List.getLast?_concat]
  rfl

theorem Chained.concat {first : String × Option String} {saves : List Save} {save : Save} (h : Chained first saves)
    (hexpected : save.replaced.updatedAt = save.expected) (hreplaced : save.replaced.details = lastDetails first saves) :
    Chained first (saves ++ [save]) := by
  induction saves generalizing first with
  | nil => exact ⟨hexpected, hreplaced, trivial⟩
  | cons head saves ih =>
      rw [lastDetails_cons] at hreplaced
      exact ⟨h.1, h.2.1, ih h.2.2 hreplaced⟩

theorem details_apply (dto : UpdateProjectDto) (now : Int) (project : Project) :
    (dto.apply now project).details = project.details := by
  rw [UpdateProjectDto.apply.eq_def]
  split <;> rfl

theorem updatedAt_apply {dto : UpdateProjectDto} (hdto : dto ≠ {}) (now : Int) (project : Project) :
    (dto.apply now project).updatedAt = now := by
  rw [UpdateProjectDto.apply.eq_def, if_neg hdto]

/-- What is known of the saves and the versions. -/
structure Sound (first : String × Option String) (s : State) : Prop where
  chained : Chained first s.saves
  details : ∀ project, s.project = some project → project.details = lastDetails first s.saves
  epochs : ∀ version ∈ s.versions, version.epoch ≤ s.saves.length
  current : ∀ project, s.project = some project → ⟨project.updatedAt, s.saves.length⟩ ∈ s.versions

theorem sound_initial (project : Project) (roles : UserId → Option ProjectMemberRole) :
    Sound project.details (.initial project roles) where
  chained := trivial
  details _ hproject := congrArg Project.details (Option.some.inj hproject).symm
  epochs version hversion := by
    rw [List.mem_singleton.mp hversion]
    exact Nat.le_refl _
  current project' hproject := by
    rw [← Option.some.inj hproject]
    exact List.mem_singleton_self _

theorem Effect.sound {first : String × Option String} (h : Effect s label t) (hs : Sound first s) : Sound first t := by
  cases h with
  | rests _ hproject hsaves hversions =>
      refine ⟨hsaves ▸ hs.chained, ?_, ?_, ?_⟩
      · rw [hproject, hsaves]
        exact hs.details
      · rw [hversions, hsaves]
        exact hs.epochs
      · rw [hproject, hversions, hsaves]
        exact hs.current
  | removes _ hproject hsaves hversions =>
      refine ⟨hsaves ▸ hs.chained, fun project hsome => ?_, ?_, fun project hsome => ?_⟩
      · cases hproject.symm.trans hsome
      · rw [hversions, hsaves]
        exact hs.epochs
      · cases hproject.symm.trans hsome
  | @saves id now _ dto _ _ project _ _ hproject hversion hsaved hsaves hversions =>
      refine ⟨?_, fun after hsome => ?_, fun version hmem => ?_, fun after hsome => ?_⟩
      · rw [hsaves]
        exact hs.chained.concat hversion (hs.details project hproject)
      · rw [hsaves, lastDetails_concat, Option.some.inj (hsome.symm.trans hsaved)]
      · rw [hversions, List.mem_append, List.mem_singleton] at hmem
        rw [hsaves, List.length_append, List.length_singleton]
        rcases hmem with hold | rfl
        · exact Nat.le_succ_of_le (hs.epochs version hold)
        · exact Nat.le_refl _
      · rw [Option.some.inj (hsome.symm.trans hsaved), hversions, hsaves, List.length_append, List.length_singleton]
        exact List.mem_concat_self
  | @updates id now _ dto _ _ project _ _ hproject hdto hupdated hsaves hversions =>
      refine ⟨hsaves ▸ hs.chained, fun after hsome => ?_, fun version hmem => ?_, fun after hsome => ?_⟩
      · rw [Option.some.inj (hsome.symm.trans hupdated), details_apply, hsaves]
        exact hs.details project hproject
      · rw [hversions, List.mem_append, List.mem_singleton] at hmem
        rw [hsaves]
        rcases hmem with hold | rfl
        · exact hs.epochs version hold
        · exact Nat.le_refl _
      · rw [Option.some.inj (hsome.symm.trans hupdated), updatedAt_apply hdto, hversions, hsaves]
        exact List.mem_concat_self

theorem preserved_sound (first : String × Option String) : Runs.Preserved State.step (Sound first) :=
  fun _ _ _ hs hstep => (effect_step hstep).sound hs

/-! ### Versions along a run -/

/-- What a step adds to the versions tells the saves apart if and only if its reading is fresh. -/
theorem Effect.stampsTell_iff {first : String × Option String} (h : Effect s label t) (hs : Sound first s)
    (htell : StampsTell s.versions) : StampsTell t.versions ↔ FreshReading s label := by
  cases h with
  | rests hfresh _ _ hversions => exact iff_of_true (hversions ▸ htell) hfresh
  | removes hlabel _ _ hversions => exact iff_of_true (hversions ▸ htell) (hlabel ▸ trivial)
  | saves hlabel hcall hproject hversion _ _ hversions =>
      rw [hversions, Stamps.stampsTell_concat_iff_of_lt htell fun v hv => Nat.lt_succ_of_le (hs.epochs v hv), hlabel]
      constructor
      · intro hnew
        exact ⟨fun _ _ _ _ _ _ _ _ => hnew, fun _ _ _ _ _ hother => (by cases hcall.symm.trans hother)⟩
      · exact fun hfresh => hfresh.1 _ _ _ _ _ hcall hproject hversion
  | updates hlabel hcall hproject hdto _ _ hversions =>
      rw [hversions, Stamps.stampsTell_concat_iff htell, hlabel]
      constructor
      · intro hnew
        exact ⟨fun _ _ _ _ _ hother => (by cases hcall.symm.trans hother), fun _ _ _ _ _ _ _ _ => hnew⟩
      · exact fun hfresh => hfresh.2 _ _ _ _ _ hcall hproject hdto

theorem Effect.saves_grow (h : Effect s label t) : s.saves <+: t.saves := by
  cases h with
  | rests _ _ hsaves _ => exact hsaves ▸ List.prefix_rfl
  | removes _ _ hsaves _ => exact hsaves ▸ List.prefix_rfl
  | saves _ _ _ _ _ hsaves _ => exact hsaves ▸ List.prefix_append ..
  | updates _ _ _ _ _ hsaves _ => exact hsaves ▸ List.prefix_rfl

theorem Effect.versions_grow (h : Effect s label t) : s.versions <+: t.versions := by
  cases h with
  | rests _ _ _ hversions => exact hversions ▸ List.prefix_rfl
  | removes _ _ _ hversions => exact hversions ▸ List.prefix_rfl
  | saves _ _ _ _ _ _ hversions => exact hversions ▸ List.prefix_append ..
  | updates _ _ _ _ _ _ hversions => exact hversions ▸ List.prefix_append ..

theorem prefix_run {labels : List Label} (hrun : Runs.run State.step s labels = some t) :
    s.saves <+: t.saves ∧ s.versions <+: t.versions := by
  have hkept : Runs.Preserved State.step fun u => s.saves <+: u.saves ∧ s.versions <+: u.versions :=
    fun _ _ _ hs hstep => ⟨hs.1.trans (effect_step hstep).saves_grow, hs.2.trans (effect_step hstep).versions_grow⟩
  exact hkept.run ⟨List.prefix_rfl, List.prefix_rfl⟩ hrun

/-- The version is that of the state in which the run ends. -/
def VersionAt (start : State) (labels : List Label) (version : Version Int) : Prop :=
  ∃ t row, Runs.run State.step start labels = some t ∧ t.project = some row ∧
    row.updatedAt = version.stamp ∧ t.saves.length = version.epoch

theorem Effect.mem_versions (h : Effect s label t) {version : Version Int} (hmem : version ∈ t.versions) :
    version ∈ s.versions ∨
      ∃ row, t.project = some row ∧ row.updatedAt = version.stamp ∧ t.saves.length = version.epoch := by
  cases h with
  | rests _ _ _ hversions => exact .inl (hversions ▸ hmem)
  | removes _ _ _ hversions => exact .inl (hversions ▸ hmem)
  | saves _ _ _ _ hsaved hsaves hversions =>
      rw [hversions, List.mem_append, List.mem_singleton] at hmem
      refine hmem.imp_right fun hnew => ⟨_, hsaved, ?_, ?_⟩
      · rw [hnew]
        rfl
      · rw [hnew, hsaves, List.length_append, List.length_singleton]
  | updates _ _ _ hdto hupdated hsaves hversions =>
      rw [hversions, List.mem_append, List.mem_singleton] at hmem
      refine hmem.imp_right fun hnew => ⟨_, hupdated, ?_, ?_⟩
      · rw [hnew, updatedAt_apply hdto]
      · rw [hnew, hsaves]

theorem exists_versionAt {project : Project} {roles : UserId → Option ProjectMemberRole} {labels : List Label}
    (hrun : Runs.run State.step (.initial project roles) labels = some s) {version : Version Int}
    (hmem : version ∈ s.versions) : ∃ earlier, earlier <+: labels ∧ VersionAt (.initial project roles) earlier version := by
  induction labels using List.reverseRecOn generalizing s with
  | nil =>
      cases hrun
      rw [List.mem_singleton.mp hmem]
      exact ⟨[], List.nil_prefix, _, project, rfl, rfl, rfl, rfl⟩
  | append_singleton labels label ih =>
      have hall := hrun
      obtain ⟨m, hm, hlast⟩ := Runs.run_append_eq_some.mp hrun
      obtain ⟨t, hstep, hend⟩ := Runs.run_cons_eq_some.mp hlast
      cases hend
      rcases (effect_step hstep).mem_versions hmem with hold | ⟨row, hrow, hstamp, hepoch⟩
      · obtain ⟨earlier, hprefix, hversion⟩ := ih hm hold
        exact ⟨earlier, hprefix.trans (List.prefix_append ..), hversion⟩
      · exact ⟨labels ++ [label], List.prefix_rfl, s, row, hall, hrow, hstamp, hepoch⟩

/-! ### Saves that were seen -/

/-- Whoever has loaded the project in one state of the run, and has the version that it has in a later
one, so that a save of theirs would be accepted there, has seen every save that was accepted. -/
def SavesSeen (start : State) (labels : List Label) : Prop :=
  ∀ earlier later t u, earlier ++ later <+: labels → Runs.run State.step start earlier = some t →
    Runs.run State.step t later = some u →
      ∀ loaded project, t.project = some loaded → u.project = some project →
        loaded.updatedAt = project.updatedAt → t.saves = u.saves

theorem savesSeen_of_stampsTell {project : Project} {roles : UserId → Option ProjectMemberRole} {labels : List Label}
    (hrun : Runs.run State.step (.initial project roles) labels = some s) (htell : StampsTell s.versions) :
    SavesSeen (.initial project roles) labels := by
  rintro earlier later t u ⟨rest, rfl⟩ hearlier hlater loaded row hloaded hrow hsame
  have hsound := sound_initial project roles
  have htsound := (preserved_sound _).run hsound hearlier
  have husound := (preserved_sound _).run htsound hlater
  have hall : Runs.run State.step u rest = some s := by
    obtain ⟨u', hu', hrest⟩ := Runs.run_append_eq_some.mp hrun
    obtain rfl := Option.some.inj (hu'.symm.trans (Runs.run_append_eq_some.mpr ⟨t, hearlier, hlater⟩))
    exact hrest
  have huv := (prefix_run hall).2.subset
  have htu := prefix_run hlater
  have hepochs := htell _ (huv (htu.2.subset (htsound.current loaded hloaded))) _ (huv (husound.current row hrow)) hsame
  exact htu.1.eq_of_length hepochs

theorem SavesSeen.epoch_eq {start : State} {labels first second : List Label} (hseen : SavesSeen start labels)
    (hfirst : first <+: second) (hsecond : second <+: labels) {v w : Version Int} (hv : VersionAt start first v)
    (hw : VersionAt start second w) (hsame : v.stamp = w.stamp) : v.epoch = w.epoch := by
  obtain ⟨later, rfl⟩ := hfirst
  obtain ⟨t, loaded, ht, hloaded, hvstamp, hvepoch⟩ := hv
  obtain ⟨u, row, hu, hrow, hwstamp, hwepoch⟩ := hw
  obtain ⟨t', ht', hlater⟩ := Runs.run_append_eq_some.mp hu
  obtain rfl := Option.some.inj (ht.symm.trans ht')
  have hversions : loaded.updatedAt = row.updatedAt := by rw [hvstamp, hwstamp, hsame]
  rw [← hvepoch, ← hwepoch, hseen first later t u hsecond ht hlater loaded row hloaded hrow hversions]

theorem stampsTell_of_savesSeen {project : Project} {roles : UserId → Option ProjectMemberRole} {labels : List Label}
    (hrun : Runs.run State.step (.initial project roles) labels = some s)
    (hseen : SavesSeen (.initial project roles) labels) : StampsTell s.versions := by
  intro v hv w hw hsame
  obtain ⟨first, hfirst, hvat⟩ := exists_versionAt hrun hv
  obtain ⟨second, hsecond, hwat⟩ := exists_versionAt hrun hw
  rcases List.prefix_or_prefix_of_prefix hfirst hsecond with hle | hle
  · exact hseen.epoch_eq hle hsecond hvat hwat hsame
  · exact (hseen.epoch_eq hle hfirst hwat hvat hsame.symm).symm

theorem along_freshReading_iff {project : Project} {roles : UserId → Option ProjectMemberRole} {labels : List Label}
    (hrun : Runs.run State.step (.initial project roles) labels = some s) :
    Runs.Along State.step FreshReading (.initial project roles) labels ↔ StampsTell s.versions := by
  rw [Runs.Along.iff_forall_prefix (P := fun s => StampsTell s.versions) (preserved_sound project.details)
    (fun _ _ _ hs htell hstep => (effect_step hstep).stampsTell_iff hs htell) (sound_initial project roles)
    (Stamps.stampsTell_singleton _) hrun]
  constructor
  · exact fun h => h labels List.prefix_rfl s hrun
  · rintro htell ms ⟨rest, rfl⟩ u hu
    obtain ⟨u', hu', hrest⟩ := Runs.run_append_eq_some.mp hrun
    obtain rfl := Option.some.inj (hu.symm.trans hu')
    have hsubset := (prefix_run hrest).2.subset
    exact fun v hv w hw => htell v (hsubset hv) w (hsubset hw)

/-- The accepted saves form a chain, refused saves change nothing, and the runs in which nobody can
overwrite a save without having seen it are exactly those whose writes read fresh versions. -/
theorem saves_seen_iff {project : Project} {roles : UserId → Option ProjectMemberRole} {labels : List Label}
    (hrun : Runs.run State.step (.initial project roles) labels = some s) :
    Chained project.details s.saves ∧
    (∀ id now userId dto phase t, s.calls id = some ⟨.updateDetails userId dto, phase⟩ →
      s.step (.write id now) = some t → t.saves = s.saves → t.project = s.project) ∧
    (Runs.Along State.step FreshReading (.initial project roles) labels ↔ SavesSeen (.initial project roles) labels) := by
  refine ⟨((preserved_sound _).run (sound_initial project roles) hrun).chained, ?_, ?_⟩
  · intro id now userId dto phase t hcall hstep hrefused
    exact (project_eq_of_refused hcall hstep hrefused).1
  · rw [along_freshReading_iff hrun]
    exact ⟨savesSeen_of_stampsTell hrun, stampsTell_of_savesSeen hrun⟩

/-! Three saves. The first two and the loads of the last two callers are of one millisecond. -/

def kickoff : Project := ⟨"kickoff", none, .IN_PROGRESS, none, false, 3⟩

def owner : UserId → Option ProjectMemberRole := fun _ => some .OWNER

def saveAs (userId : UserId) (name : String) (updatedAt : Int) : Request := .updateDetails userId ⟨name, none, updatedAt⟩

def sameMillisecond : List Label :=
  [.begin 1 (saveAs "ana" "first" 3), .assertMembership 1, .findUniqueOrThrow 1, .write 1 5,
    .begin 2 (saveAs "ben" "second" 5), .begin 3 (saveAs "cleo" "third" 5),
    .assertMembership 2, .findUniqueOrThrow 2, .write 2 5, .assertMembership 3, .findUniqueOrThrow 3, .write 3 9]

/-- The third save replaces the second one, and was loaded before it. -/
theorem not_savesSeen_of_sameMillisecond :
    ¬SavesSeen (.initial kickoff owner) sameMillisecond ∧
      ∃ s, Runs.run State.step (.initial kickoff owner) sameMillisecond = some s ∧
        s.saves.map (fun save => (save.replaced.name, save.saved.name)) =
          [("kickoff", "first"), ("first", "second"), ("second", "third")] := by
  have hruns : (Runs.run State.step (.initial kickoff owner) (sameMillisecond.take 4)).any fun t =>
      t.project.map (·.updatedAt) = some 5 ∧ t.saves.length = 1 ∧
        (Runs.run State.step t ((sameMillisecond.drop 4).take 5)).any fun u =>
          u.project.map (·.updatedAt) = some 5 ∧ u.saves.length = 2 := by
    decide +kernel
  have hend : (Runs.run State.step (.initial kickoff owner) sameMillisecond).any fun s =>
      s.saves.map (fun save => (save.replaced.name, save.saved.name)) =
        [("kickoff", "first"), ("first", "second"), ("second", "third")] := by
    decide +kernel
  refine ⟨fun hseen => ?_, ?_⟩
  · obtain ⟨t, hearlier, ht⟩ := (Option.any_eq_true _ _).mp hruns
    obtain ⟨hloaded, hone, hlater⟩ := of_decide_eq_true ht
    obtain ⟨u, hlater, hu⟩ := (Option.any_eq_true _ _).mp hlater
    obtain ⟨hrow, htwo⟩ := of_decide_eq_true hu
    obtain ⟨loaded, hloaded, hloadedAt⟩ := Option.map_eq_some_iff.mp hloaded
    obtain ⟨row, hrow, hrowAt⟩ := Option.map_eq_some_iff.mp hrow
    have hsame := hseen _ _ t u (by decide +kernel) hearlier hlater loaded row hloaded hrow (by rw [hloadedAt, hrowAt])
    rw [hsame, htwo] at hone
    cases hone
  · obtain ⟨s, hs, hsaves⟩ := (Option.any_eq_true _ _).mp hend
    exact ⟨s, hs, of_decide_eq_true hsaves⟩

theorem saves_seen_iff_of_sameMillisecond :
    ∃ s, Runs.run State.step (.initial kickoff owner) sameMillisecond = some s ∧ Chained kickoff.details s.saves ∧
      s.saves.length = 3 := by
  have hend : (Runs.run State.step (.initial kickoff owner) sameMillisecond).any (·.saves.length = 3) := by decide +kernel
  obtain ⟨s, hs, hlength⟩ := (Option.any_eq_true _ _).mp hend
  exact ⟨s, hs, (saves_seen_iff hs).1, of_decide_eq_true hlength⟩

end Transcendence.Projects.Details
