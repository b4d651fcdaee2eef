import Transcendence.Content.Containment

/-!
# Content caps

A container can hold more rows than a create has counted, by as many as its snapshot has missed
(`Sound`). When the create commits it has missed none, as the transactions are serializable, so there
was room.
-/

namespace Transcendence.Content

open SerialOrder (Serializable SeesThePast missed)

/-! ### Steps -/

/-- What a step does to the rows. -/
inductive Effect (s : State) (label : Label) (t : State) : Prop where
  | within (hdb : t.db.Within s.db) (hissued : t.issued = s.issued) (hhistory : t.history = s.history)
  | inserts {id : Nat} {rowId : String} {request : Request} {row : NewRow} {existingCount seen : Nat}
      (hlabel : label = .insert id rowId) (hcall : s.calls id = some ⟨request, .counted existingCount seen⟩)
      (hoperation : request.operation = .create row) (howner : s.db.hasOwner (request.container row))
      (hdb : t.db = s.db.insert rowId request row) (hissued : t.issued = rowId :: s.issued)
      (hhistory : t.history = s.history ++ [⟨request.container row, seen⟩])
  | seeds {projectId : ProjectId} {ids : List (BlockId × List ItemId)} (hlabel : label = .createProject projectId ids)
      (hfresh : ∀ id ∈ projectId :: ids.flatMap (fun block => block.1 :: block.2), id ∉ s.issued)
      (hdb : t.db = s.db.createProject projectId ids)
      (hissued : t.issued = (projectId :: ids.flatMap fun block => block.1 :: block.2) ++ s.issued)
      (hhistory : t.history = s.history)

/-- What a step does to the phase of a call. -/
inductive Change (s : State) (request : Request) : Phase → Phase → Prop where
  | guards (howner : ∀ row, request.operation = .create row → (request.container row).owner ∈ s.db.allIds) :
      Change s request .begun .guarded
  | counts {row : NewRow} (hoperation : request.operation = .create row)
      (hroom : s.db.count (request.container row) < (request.container row).cap) :
      Change s request .guarded (.counted (s.db.count (request.container row)) s.history.length)
  | writes {before : Phase} : Change s request before .written
  | ends {before : Phase} {error : Option Error} : Change s request before (.ended error)

def first (_ : Request) (phase : Phase) : Prop := phase = .begun

namespace State

variable {s t : State} {label : Label}

theorem exists_call {id : Nat} {call : Call} {phase : Phase} (h : (s.calls id).filter (·.phase = phase) = some call) :
    s.calls id = some ⟨call.request, phase⟩ := by
  obtain ⟨hcall, hphase⟩ := Option.filter_eq_some_iff.mp h
  obtain rfl := of_decide_eq_true hphase
  exact hcall

theorem moves_guard {id : Nat} {isMember : Bool} (h : s.guard id isMember = some t) :
    Calls.Moves first (Change s) s.calls t.calls ∧ t.db = s.db ∧ t.issued = s.issued ∧ t.history = s.history := by
  rw [guard, Option.map_eq_some_iff] at h
  obtain ⟨call, hcall, rfl⟩ := h
  refine ⟨.proceeds (exists_call hcall) ?_ rfl, rfl, rfl, rfl⟩
  cases haccess : s.db.access call.request isMember with
  | none => exact .guards fun row hrow => Database.owner_mem_of_access haccess hrow
  | some error => exact .ends

theorem moves_count {id : Nat} (h : s.count id = some t) :
    Calls.Moves first (Change s) s.calls t.calls ∧ t.db = s.db ∧ t.issued = s.issued ∧ t.history = s.history := by
  rw [count, Option.bind_eq_some_iff] at h
  obtain ⟨call, hcall, h⟩ := h
  cases hoperation : call.request.operation with
  | create row =>
      rw [hoperation] at h
      cases h
      refine ⟨.proceeds (exists_call hcall) ?_ rfl, rfl, rfl, rfl⟩
      split
      · exact .ends
      · next hroom => exact .counts hoperation (Nat.not_le.mp hroom)
  | _ =>
      rw [hoperation] at h
      cases h

theorem moves_insert {id : Nat} {rowId : String} (h : s.insert id rowId = some t) :
    Calls.Moves first (Change s) s.calls t.calls ∧ Effect s (.insert id rowId) t := by
  rw [insert, Option.bind_eq_some_iff] at h
  obtain ⟨⟨request, phase⟩, hcall, h⟩ := h
  cases phase with
  | counted existingCount seen =>
      cases hoperation : request.operation with
      | create row =>
          simp only [hoperation] at h
          split at h
          · cases h
          · next howner =>
              rw [not_or, Bool.not_eq_false] at howner
              cases h
              refine ⟨.proceeds hcall ?_ rfl, .inserts rfl hcall hoperation howner.2 rfl rfl rfl⟩
              cases row with
              | blockItem dto => exact .writes
              | block dto => exact .ends
              | checklistItem dto => exact .ends
      | _ =>
          simp only [hoperation] at h
          cases h
  | _ => cases h

theorem change_afterWrite (s : State) (request : Request) (db : Database) (operation : Operation) (before : Phase) :
    Change s request before (afterWrite db operation) := by
  rw [afterWrite.eq_def]
  cases db.writeError operation with
  | some error => exact .ends
  | none =>
      cases operation with
      | updateBlockItem id dto => exact .writes
      | removeBlockItem id => exact .writes
      | _ => exact .ends

theorem moves_write {id : Nat} (h : s.write id = some t) :
    Calls.Moves first (Change s) s.calls t.calls ∧ t.db.Within s.db ∧ t.issued = s.issued ∧ t.history = s.history := by
  rw [write, Option.bind_eq_some_iff] at h
  obtain ⟨call, hcall, h⟩ := h
  have hwithin := Database.within_write s.db call.request.operation
  cases hoperation : call.request.operation with
  | create row =>
      rw [hoperation] at h
      cases h
  | _ =>
      rw [hoperation] at h hwithin
      cases h
      exact ⟨.proceeds (exists_call hcall) (change_afterWrite ..) rfl, hwithin, rfl, rfl⟩

theorem moves_abort {id : Nat} (h : s.abort id = some t) :
    Calls.Moves first (Change s) s.calls t.calls ∧ t.db = s.db ∧ t.issued = s.issued ∧ t.history = s.history := by
  rw [abort, Option.bind_eq_some_iff] at h
  obtain ⟨⟨request, phase⟩, hcall, h⟩ := h
  cases phase with
  | ended error => cases h
  | _ =>
      cases h
      exact ⟨.proceeds hcall .ends rfl, rfl, rfl, rfl⟩

theorem step_cases (h : s.step label = some t) :
    Calls.Moves first (Change s) s.calls t.calls ∧ Effect s label t := by
  have hrests : ∀ {p : Prop}, p ∧ t.db = s.db ∧ t.issued = s.issued ∧ t.history = s.history → p ∧ Effect s label t :=
    fun ⟨hp, hdb, hissued, hhistory⟩ => ⟨hp, .within (hdb ▸ .refl _) hissued hhistory⟩
  cases label with
  | begin id request =>
      rw [step, begin] at h
      split at h
      · cases h
      · next hnew =>
          cases h
          exact hrests ⟨.begins (Option.not_isSome_iff_eq_none.mp hnew) rfl rfl, rfl, rfl, rfl⟩
  | guard id isMember => exact hrests (moves_guard h)
  | count id => exact hrests (moves_count h)
  | insert id rowId => exact moves_insert h
  | write id =>
      obtain ⟨hmoves, hdb, hissued, hhistory⟩ := moves_write h
      exact ⟨hmoves, .within hdb hissued hhistory⟩
  | recalculateStatus id =>
      rw [step, recalculateStatus, Option.map_eq_some_iff] at h
      obtain ⟨call, hcall, rfl⟩ := h
      exact ⟨.proceeds (exists_call hcall) .ends rfl, .within (Database.within_recalculateStatus _ _) rfl rfl⟩
  | abort id => exact hrests (moves_abort h)
  | createProject projectId ids =>
      rw [step, createProject] at h
      split at h
      · next hfresh =>
          cases h
          exact ⟨.rests rfl, .seeds rfl hfresh.2.2 rfl rfl rfl⟩
      · cases h
  | removeProject projectId =>
      cases h
      exact ⟨.rests rfl, .within (Database.within_deleteProject _ _) rfl rfl⟩

end State

/-! ### Invariant -/

/-- What is known of a create. -/
def Sound (s : State) (request : Request) : Phase → Prop
  | .guarded => ∀ row, request.operation = .create row → (request.container row).owner ∈ s.issued
  | .counted existingCount seen => ∀ row, request.operation = .create row →
      (request.container row).owner ∈ s.issued ∧ existingCount < (request.container row).cap ∧ seen ≤ s.history.length ∧
        s.db.count (request.container row) ≤ existingCount + missed s.history (request.container row) seen
  | _ => True

structure Invariant (s : State) : Prop where
  capped : ∀ container, s.db.count container ≤ container.cap
  seesThePast : SeesThePast s.history
  allIds : s.db.allIds ⊆ s.issued
  sound : ∀ id request phase, s.calls id = some ⟨request, phase⟩ → Sound s request phase

variable {s t : State} {label : Label}

theorem invariant_initial {db : Database} (h : ∀ container, db.count container ≤ container.cap) :
    Invariant (.initial db) where
  capped := h
  seesThePast _ _ hi := by simp [State.initial] at hi
  allIds := List.Subset.refl _
  sound _ _ _ hcall := by cases hcall

theorem Effect.issued_subset (h : Effect s label t) : s.issued ⊆ t.issued := by
  cases h with
  | within _ hissued _ => exact hissued ▸ List.Subset.refl _
  | inserts _ _ _ _ _ hissued _ => exact hissued ▸ List.subset_cons_self ..
  | seeds _ _ _ hissued _ => exact hissued ▸ List.subset_append_right ..

theorem Effect.history_grows (h : Effect s label t) : s.history <+: t.history := by
  cases h with
  | within _ _ hhistory => exact hhistory ▸ List.prefix_rfl
  | inserts _ _ _ _ _ _ hhistory => exact hhistory ▸ List.prefix_append ..
  | seeds _ _ _ _ hhistory => exact hhistory ▸ List.prefix_rfl

theorem Effect.allIds (h : Effect s label t) (hs : Invariant s) : t.db.allIds ⊆ t.issued := by
  cases h with
  | within hdb hissued _ => exact hissued ▸ List.Subset.trans hdb.allIds hs.allIds
  | inserts _ _ _ howner hdb hissued _ =>
      rw [hdb, hissued]
      exact List.Subset.trans (Database.allIds_insert howner) (List.cons_subset_cons _ hs.allIds)
  | seeds _ _ hdb hissued _ =>
      rw [hdb, hissued]
      exact List.Subset.trans (Database.allIds_createProject ..)
        (List.append_subset.mpr ⟨List.subset_append_left .., List.Subset.trans hs.allIds (List.subset_append_right ..)⟩)

/-- A container of something new is empty, and only such a one gets rows of a new project. -/
theorem count_createProject {projectId : ProjectId} {ids : List (BlockId × List ItemId)}
    (hs : Invariant s) (hfresh : ∀ id ∈ projectId :: ids.flatMap (fun block => block.1 :: block.2), id ∉ s.issued)
    (container : Container) :
    (container.owner ∈ s.issued ∧ (s.db.createProject projectId ids).count container = s.db.count container) ∨
      (container.owner ∉ s.issued ∧
        (s.db.createProject projectId ids).count container = (Database.seeds projectId ids).count container) := by
  rw [Database.count, Database.contents_createProject, List.length_append]
  by_cases howner : container.owner ∈ s.issued
  · refine .inl ⟨howner, ?_⟩
    have hnone : container.owner ∉ (Database.seeds projectId ids).allIds :=
      fun hmem => hfresh _ (Database.mem_allIds_seeds hmem) howner
    rw [Database.contents_eq_nil hnone, List.length_nil, Nat.add_zero, Database.count]
  · refine .inr ⟨howner, ?_⟩
    rw [Database.contents_eq_nil fun hmem => howner (hs.allIds hmem), List.length_nil, Nat.zero_add, Database.count]

/-- A container grows by what a create that has counted it has missed. -/
theorem Effect.count_le (h : Effect s label t) (hs : Invariant s) {container : Container}
    (howner : container.owner ∈ s.issued) {existingCount seen : Nat} (hseen : seen ≤ s.history.length)
    (hcount : s.db.count container ≤ existingCount + missed s.history container seen) :
    t.db.count container ≤ existingCount + missed t.history container seen := by
  cases h with
  | within hdb _ hhistory => exact hhistory ▸ (hdb.count_le container).trans hcount
  | inserts _ _ _ _ hdb _ hhistory =>
      rw [hdb, hhistory, Database.count_insert, SerialOrder.missed_concat hseen, ← Nat.add_assoc]
      exact Nat.add_le_add_right hcount _
  | seeds _ hfresh hdb _ hhistory =>
      rw [hdb, hhistory]
      rcases count_createProject hs hfresh container with ⟨_, hsame⟩ | ⟨hnew, _⟩
      · rwa [hsame]
      · exact absurd howner hnew

theorem Effect.capped (h : Effect s label t) (hs : Invariant s) (hserial : Serializable t.history) (container : Container) :
    t.db.count container ≤ container.cap := by
  cases h with
  | within hdb _ _ => exact (hdb.count_le container).trans (hs.capped container)
  | @inserts id rowId request row existingCount seen _ hcall hoperation _ hdb _ hhistory =>
      obtain ⟨_, hroom, _, hcount⟩ := hs.sound id request _ hcall row hoperation
      rw [hhistory] at hserial
      have hmissed := hserial.missed_eq_zero hs.seesThePast
      simp only at hmissed
      rw [hdb, Database.count_insert]
      split
      · next hsame =>
          rw [hsame] at hroom hcount hmissed
          omega
      · exact hs.capped container
  | seeds _ hfresh hdb _ _ =>
      rw [hdb]
      rcases count_createProject hs hfresh container with ⟨_, hsame⟩ | ⟨_, hnew⟩
      · exact hsame ▸ hs.capped container
      · exact hnew ▸ Database.count_seeds_le ..

theorem Effect.seesThePast (h : Effect s label t) (hs : Invariant s) : SeesThePast t.history := by
  cases h with
  | within _ _ hhistory => exact hhistory ▸ hs.seesThePast
  | @inserts id _ request row _ _ _ hcall hoperation _ _ _ hhistory =>
      exact hhistory ▸ hs.seesThePast.concat (hs.sound id request _ hcall row hoperation).2.2.1
  | seeds _ _ _ _ hhistory => exact hhistory ▸ hs.seesThePast

theorem Effect.sound (h : Effect s label t) (hs : Invariant s) {request : Request} {phase : Phase}
    (hsound : Sound s request phase) : Sound t request phase := by
  cases phase with
  | guarded => exact fun row hrow => h.issued_subset (hsound row hrow)
  | counted existingCount seen =>
      intro row hrow
      obtain ⟨howner, hroom, hseen, hcount⟩ := hsound row hrow
      exact ⟨h.issued_subset howner, hroom, hseen.trans h.history_grows.length_le, h.count_le hs howner hseen hcount⟩
  | _ => trivial

theorem Change.sound {request : Request} {before after : Phase} (h : Change s request before after) (hs : Invariant s)
    (hsound : Sound s request before) : Sound s request after := by
  cases h with
  | guards howner => exact fun row hrow => hs.allIds (howner row hrow)
  | @counts row hoperation hroom =>
      intro row' hrow
      cases hoperation.symm.trans hrow
      exact ⟨hsound row hrow, hroom, Nat.le_refl _, Nat.le_add_right ..⟩
  | writes => trivial
  | ends => trivial

theorem invariant_step (hs : Invariant s) (hserial : Serializable t.history) (hstep : s.step label = some t) : Invariant t := by
  obtain ⟨hmoves, heffect⟩ := State.step_cases hstep
  refine ⟨heffect.capped hs hserial, heffect.seesThePast hs, heffect.allIds hs, fun id request phase hcall => ?_⟩
  apply heffect.sound hs
  cases hmoves.origin hcall with
  | stays hcall => exact hs.sound id request phase hcall
  | begins _ hfirst =>
      rw [hfirst]
      trivial
  | proceeds hcall hchange => exact hchange.sound hs (hs.sound id request _ hcall)

theorem invariant_run {db : Database} {labels : List Label} (hdb : ∀ container, db.count container ≤ container.cap)
    (hrun : Runs.run State.step (.initial db) labels = some s) (hserial : Serializable s.history) : Invariant s := by
  have hkept : Runs.Preserved State.step fun s => Serializable s.history → Invariant s := by
    intro s label t hs hstep hserial
    obtain ⟨later, hlater⟩ := (State.step_cases hstep).2.history_grows
    exact invariant_step (hs (hlater ▸ hserial).of_append) hserial hstep
  exact hkept.run (fun _ => invariant_initial hdb) hrun hserial

/-! ### Caps -/

/-- How a row gets into a container. -/
inductive Enters (s : State) (container : Container) : Label → Prop where
  | counted {id : Nat} {rowId : String} {request : Request} {row : NewRow} {existingCount seen : Nat}
      (hcall : s.calls id = some ⟨request, .counted existingCount seen⟩) (hoperation : request.operation = .create row)
      (hcontainer : request.container row = container) : Enters s container (.insert id rowId)
  | seeded {projectId : ProjectId} {ids : List (BlockId × List ItemId)}
      (howner : container.owner ∈ projectId :: ids.flatMap fun block => block.1 :: block.2)
      (hnew : container.owner ∉ s.issued) : Enters s container (.createProject projectId ids)

theorem Effect.enters (h : Effect s label t) {container : Container} {rowId : String} (hmem : rowId ∈ t.db.contents container) :
    rowId ∈ s.db.contents container ∨ Enters s container label := by
  cases h with
  | within hdb _ _ => exact .inl ((hdb.contents container).subset hmem)
  | inserts hlabel hcall hoperation _ hdb _ _ =>
      rw [hdb, Database.contents_insert, List.mem_append] at hmem
      rcases hmem with hold | hnew
      · exact .inl hold
      · split at hnew
        · next hcontainer => exact .inr (hlabel ▸ .counted hcall hoperation hcontainer)
        · cases hnew
  | @seeds projectId ids hlabel hfresh hdb _ _ =>
      rw [hdb, Database.contents_createProject, List.mem_append] at hmem
      refine hmem.imp_right fun hnew => ?_
      have howner : container.owner ∈ (Database.seeds projectId ids).allIds := by
        by_contra hnone
        rw [Database.contents_eq_nil hnone] at hnew
        cases hnew
      have hid := Database.mem_allIds_seeds howner
      exact hlabel ▸ .seeded hid (hfresh _ hid)

/-- Where committed creates are serializable no container is ever above its cap, and no step moves a
row into a container: what enters one is counted there, or comes with the project. -/
theorem containers_capped {db : Database} {labels : List Label} (hdb : ∀ container, db.count container ≤ container.cap)
    (hrun : Runs.run State.step (.initial db) labels = some s) (hserial : Serializable s.history) :
    (∀ projectId, (s.db.contents (.project projectId)).length ≤ 20) ∧
    (∀ discoveryBlockId, (s.db.contents (.block discoveryBlockId)).length ≤ 30) ∧
    (∀ projectId itemSection, (s.db.contents (.checklist projectId itemSection)).length ≤ 50) ∧
    ∀ label t container rowId, s.step label = some t → rowId ∈ t.db.contents container →
      rowId ∈ s.db.contents container ∨ Enters s container label := by
  have hcapped := (invariant_run hdb hrun hserial).capped
  exact ⟨fun projectId => hcapped (.project projectId), fun discoveryBlockId => hcapped (.block discoveryBlockId),
    fun projectId itemSection => hcapped (.checklist projectId itemSection),
    fun _ _ _ _ hstep hmem => (State.step_cases hstep).2.enters hmem⟩

/-! A project with nineteen blocks, and two calls that create another one. -/

def crowded : Database where
  projects := ["p"]
  discoveryBlocks := (List.range 19).map fun i => ("block" ++ toString i, ⟨"p", "title", none, none, none, .NOT_STARTED, none⟩)
  discoveryBlockItems := []
  evaluationChecklistItems := []

def twoCreates : List Label :=
  let request : Request := ⟨"p", "", .create (.block { title := "title" })⟩
  [.begin 0 request, .begin 1 request, .guard 0 true, .guard 1 true, .count 0, .insert 0 "new", .count 1]

theorem containers_capped_of_twoCreates :
    ∃ s, Runs.run State.step (.initial crowded) twoCreates = some s ∧ (s.db.contents (.project "p")).length = 20 ∧
      ∀ projectId, (s.db.contents (.project projectId)).length ≤ 20 := by
  have hdb : ∀ container, crowded.count container ≤ container.cap := by
    intro container
    cases container with
    | project projectId =>
        rw [Database.count, Database.contents]
        refine (Rows.length_ids_le _ _).trans ?_
        show crowded.discoveryBlocks.length ≤ MAX_DISCOVERY_BLOCKS_PER_PROJECT
        decide
    | block discoveryBlockId => exact Nat.zero_le _
    | checklist projectId itemSection => exact Nat.zero_le _
  have hrun : (Runs.run State.step (.initial crowded) twoCreates).any fun s =>
      s.history.map (·.seen) = List.range s.history.length ∧ (s.db.contents (.project "p")).length = 20 := by
    decide +kernel
  obtain ⟨s, hs, hend⟩ := (Option.any_eq_true _ _).mp hrun
  obtain ⟨hserial, hlength⟩ := of_decide_eq_true hend
  exact ⟨s, hs, hlength, (containers_capped hdb hs (.of_serial hserial)).1⟩

end Transcendence.Content
