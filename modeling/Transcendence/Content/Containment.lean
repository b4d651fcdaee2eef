import Transcendence.Content.Containers

/-!
# What enters a container

A row never changes its container: an update keeps the project or the block it refers to and its
section, so a statement leaves a container with some of the rows it had (`Database.Within`). What adds
rows is the insert of a create, one row into the container that the create counts, and the transaction
that creates a project, whose containers are new and get no more than they can hold.
-/

namespace Transcendence.Content

open Discovery (DiscoveryBlockItem)

/-! ### Statements that add no row -/

namespace Rows

variable {α κ : Type} {later rows : Rows α} {key : α → κ}

def keys (rows : Rows α) (key : α → κ) : List (String × κ) := rows.map fun row => (row.1, key row.2)

/-- Rows of the table, with the keys they had. -/
def Within (key : α → κ) (later rows : Rows α) : Prop := (later.keys key).Sublist (rows.keys key)

theorem Within.refl (key : α → κ) (rows : Rows α) : Within key rows rows := List.Sublist.refl _

theorem within_filter (key : α → κ) (rows : Rows α) (keep : String × α → Bool) : Within key (rows.filter keep) rows :=
  List.filter_sublist.map _

theorem within_update (change : α → α) (hchange : ∀ a, key (change a) = key a) (rows : Rows α) (id : String) :
    Within key (rows.update id change) rows := by
  have hkeys : (rows.update id change).keys key = rows.keys key := by
    rw [keys, keys, update, List.map_map]
    apply List.map_congr_left
    intro row _
    simp only [Function.comp_apply]
    split
    · rw [hchange]
    · rfl
  rw [Within, hkeys]

theorem ids_eq (rows : Rows α) (holds : κ → Bool) :
    (rows.ids fun a => holds (key a)) = ((rows.keys key).filter fun row => holds row.2).map (·.1) := by
  rw [ids, keys, List.filter_map, List.map_map]
  rfl

theorem Within.ids (h : Within key later rows) (holds : κ → Bool) :
    (later.ids fun a => holds (key a)).Sublist (rows.ids fun a => holds (key a)) := by
  rw [ids_eq, ids_eq]
  exact (List.Sublist.filter _ h).map _

theorem Within.fst_subset (h : Within key later rows) : later.map (·.1) ⊆ rows.map (·.1) := by
  have hsub := (List.Sublist.map Prod.fst h).subset
  rwa [keys, keys, List.map_map, List.map_map] at hsub

theorem Within.key_subset (h : Within key later rows) (part : κ → String) :
    (later.map fun row => part (key row.2)) ⊆ rows.map fun row => part (key row.2) := by
  have hsub := (List.Sublist.map (fun row : String × κ => part row.2) h).subset
  rwa [keys, keys, List.map_map, List.map_map] at hsub

theorem ids_append (rows added : Rows α) (holds : α → Bool) : (rows ++ added).ids holds = rows.ids holds ++ added.ids holds := by
  rw [ids, ids, ids, List.filter_append, List.map_append]

theorem ids_concat (rows : Rows α) (id : String) (a : α) (holds : α → Bool) :
    Rows.ids (rows ++ [(id, a)]) holds = rows.ids holds ++ if holds a then [id] else [] := by
  rw [ids_append, ids, ids, List.filter_singleton]
  cases holds a <;> rfl

theorem ids_eq_nil {rows : Rows α} {holds : α → Bool} (h : ∀ row ∈ rows, ¬holds row.2) : rows.ids holds = [] := by
  rw [ids, List.map_eq_nil_iff, List.filter_eq_nil_iff]
  exact h

theorem length_ids_le (rows : Rows α) (holds : α → Bool) : (rows.ids holds).length ≤ rows.length := by
  rw [ids, List.length_map]
  exact List.length_filter_le ..

theorem mem_of_find {id : String} {a : α} (h : rows.find id = some a) : (id, a) ∈ rows := by
  rw [find, Option.map_eq_some_iff] at h
  obtain ⟨row, hrow, rfl⟩ := h
  have hid : row.1 = id := by simpa using List.find?_some hrow
  rw [← hid]
  exact List.mem_of_find?_eq_some hrow

end Rows

namespace Database

/-- What a statement that adds no row leaves. -/
structure Within (later db : Database) : Prop where
  projects : later.projects ⊆ db.projects
  discoveryBlocks : Rows.Within (·.projectId) later.discoveryBlocks db.discoveryBlocks
  discoveryBlockItems : Rows.Within (·.discoveryBlockId) later.discoveryBlockItems db.discoveryBlockItems
  evaluationChecklistItems : Rows.Within (fun item => (item.projectId, item.itemSection)) later.evaluationChecklistItems
    db.evaluationChecklistItems

theorem Within.refl (db : Database) : db.Within db :=
  ⟨List.Subset.refl _, .refl _ _, .refl _ _, .refl _ _⟩

theorem Within.contents {later db : Database} (h : later.Within db) (container : Container) :
    (later.contents container).Sublist (db.contents container) := by
  cases container with
  | project projectId => exact h.discoveryBlocks.ids (· = projectId)
  | block discoveryBlockId => exact h.discoveryBlockItems.ids (· = discoveryBlockId)
  | checklist projectId itemSection =>
      exact h.evaluationChecklistItems.ids fun key => key.1 = projectId ∧ key.2 = itemSection

theorem Within.count_le {later db : Database} (h : later.Within db) (container : Container) :
    later.count container ≤ db.count container := (h.contents container).length_le

theorem Within.allIds {later db : Database} (h : later.Within db) : later.allIds ⊆ db.allIds := by
  have hblocks := h.discoveryBlocks.key_subset id
  have hitems := h.discoveryBlockItems.key_subset id
  have hchecklist := h.evaluationChecklistItems.key_subset Prod.fst
  intro id hid
  simp only [Database.allIds, List.mem_append] at hid ⊢
  rcases hid with (((((hid | hid) | hid) | hid) | hid) | hid) | hid
  · exact .inl (.inl (.inl (.inl (.inl (.inl (h.projects hid))))))
  · exact .inl (.inl (.inl (.inl (.inl (.inr (h.discoveryBlocks.fst_subset hid))))))
  · exact .inl (.inl (.inl (.inl (.inr (hblocks hid)))))
  · exact .inl (.inl (.inl (.inr (h.discoveryBlockItems.fst_subset hid))))
  · exact .inl (.inl (.inr (hitems hid)))
  · exact .inl (.inr (h.evaluationChecklistItems.fst_subset hid))
  · exact .inr (hchecklist hid)

/-- No update names a project, a block or a section. -/
theorem within_write (db : Database) (operation : Operation) : (db.write operation).Within db := by
  cases operation with
  | create row => exact .refl db
  | updateBlock id dto =>
      exact { Within.refl db with discoveryBlocks := Rows.within_update dto.apply (fun _ => rfl) _ _ }
  | removeBlock id =>
      exact { Within.refl db with
        discoveryBlocks := Rows.within_filter _ _ _
        discoveryBlockItems := Rows.within_filter _ _ _ }
  | updateBlockItem id dto =>
      exact { Within.refl db with discoveryBlockItems := Rows.within_update dto.apply (fun _ => rfl) _ _ }
  | removeBlockItem id => exact { Within.refl db with discoveryBlockItems := Rows.within_filter _ _ _ }
  | updateChecklistItem id dto =>
      exact { Within.refl db with evaluationChecklistItems := Rows.within_update dto.apply (fun _ => rfl) _ _ }
  | removeChecklistItem id => exact { Within.refl db with evaluationChecklistItems := Rows.within_filter _ _ _ }

theorem within_recalculateStatus (db : Database) (discoveryBlockId : BlockId) :
    (db.recalculateStatus discoveryBlockId).Within db := by
  refine { Within.refl db with discoveryBlocks := ?_ }
  simp only [recalculateStatus]
  apply Rows.within_update
  intro block
  rfl

theorem within_deleteProject (db : Database) (projectId : ProjectId) : (db.deleteProject projectId).Within db where
  projects := List.filter_subset_self _
  discoveryBlocks := Rows.within_filter _ _ _
  discoveryBlockItems := Rows.within_filter _ _ _
  evaluationChecklistItems := Rows.within_filter _ _ _

/-! ### Statements that add rows -/

theorem contents_insert (db : Database) (id : String) (request : Request) (row : NewRow) (container : Container) :
    (db.insert id request row).contents container =
      db.contents container ++ if request.container row = container then [id] else [] := by
  cases row <;> cases container <;>
    simp only [insert, contents, Request.container, Rows.ids_concat, reduceCtorEq, if_false, List.append_nil,
      Container.project.injEq, Container.block.injEq, Container.checklist.injEq, decide_eq_true_eq]

theorem count_insert (db : Database) (id : String) (request : Request) (row : NewRow) (container : Container) :
    (db.insert id request row).count container =
      db.count container + if request.container row = container then 1 else 0 := by
  rw [count, contents_insert, List.length_append, count]
  split <;> rfl

theorem owner_mem_allIds {db : Database} {container : Container} (h : db.hasOwner container) :
    container.owner ∈ db.allIds := by
  simp only [allIds, List.mem_append]
  cases container with
  | project projectId => exact .inl (.inl (.inl (.inl (.inl (.inl (of_decide_eq_true h))))))
  | checklist projectId itemSection => exact .inl (.inl (.inl (.inl (.inl (.inl (of_decide_eq_true h))))))
  | block discoveryBlockId =>
      obtain ⟨block, hblock⟩ := Option.isSome_iff_exists.mp h
      exact .inl (.inl (.inl (.inl (.inl (.inr (List.mem_map_of_mem (f := (·.1)) (Rows.mem_of_find hblock)))))))

theorem allIds_insert {db : Database} {id : String} {request : Request} {row : NewRow}
    (howner : db.hasOwner (request.container row)) : (db.insert id request row).allIds ⊆ id :: db.allIds := by
  have hmem := owner_mem_allIds howner
  intro x hx
  cases row <;> simp only [insert, allIds, Request.container, Container.owner, List.map_append, List.map_cons, List.map_nil,
    List.mem_append, List.mem_cons, List.not_mem_nil, or_false] at hx hmem ⊢ <;> grind

/-- Rows refer to what their container belongs to. -/
theorem contents_eq_nil {db : Database} {container : Container} (h : container.owner ∉ db.allIds) :
    db.contents container = [] := by
  simp only [allIds, List.mem_append, not_or, List.mem_map, not_exists, not_and] at h
  cases container with
  | project projectId =>
      rw [contents]
      apply Rows.ids_eq_nil
      intro row hrow hsame
      exact h.1.1.1.1.2 row hrow (of_decide_eq_true hsame)
  | block discoveryBlockId =>
      rw [contents]
      apply Rows.ids_eq_nil
      intro row hrow hsame
      exact h.1.1.2 row hrow (of_decide_eq_true hsame)
  | checklist projectId itemSection =>
      rw [contents]
      apply Rows.ids_eq_nil
      intro row hrow hsame
      exact h.2 row hrow (of_decide_eq_true hsame).1

/-- The default items of blocks are as many as there are in the list. -/
theorem length_flatMap_seedItems (ids : List (BlockId × List ItemId)) (blocks : List DefaultDiscoveryBlock) :
    ((ids.zip blocks).flatMap fun seed => seedItems seed.1.1 seed.2 seed.1.2).length ≤
      (blocks.map (·.items.length)).sum := by
  induction blocks generalizing ids with
  | nil => simp
  | cons block blocks ih =>
      cases ids with
      | nil => simp
      | cons first ids =>
          have hfirst : (seedItems first.1 block first.2).length ≤ block.items.length := by
            rw [seedItems, List.length_mapIdx, List.length_zip]
            exact Nat.min_le_right ..
          rw [List.zip_cons_cons, List.flatMap_cons, List.length_append, List.map_cons, List.sum_cons]
          exact Nat.add_le_add hfirst (ih ids)

/-- The rows of a new project alone. -/
def seeds (projectId : ProjectId) (ids : List (BlockId × List ItemId)) : Database :=
  createProject ⟨[], [], [], []⟩ projectId ids

theorem contents_createProject (db : Database) (projectId : ProjectId) (ids : List (BlockId × List ItemId))
    (container : Container) :
    (db.createProject projectId ids).contents container =
      db.contents container ++ (seeds projectId ids).contents container := by
  cases container with
  | project _ => simp only [contents, seeds, createProject, Rows.ids_append, List.nil_append]
  | block _ => simp only [contents, seeds, createProject, Rows.ids_append, List.nil_append]
  | checklist _ _ => exact (List.append_nil _).symm

theorem mem_allIds_seeds {projectId : ProjectId} {ids : List (BlockId × List ItemId)} {id : String}
    (h : id ∈ (seeds projectId ids).allIds) : id ∈ projectId :: ids.flatMap fun block => block.1 :: block.2 := by
  have hseed : ∀ seed ∈ ids.zip DEFAULT_DISCOVERY_BLOCKS, ∀ id ∈ seed.1.1 :: seed.1.2,
      id ∈ projectId :: ids.flatMap fun block => block.1 :: block.2 := by
    intro seed hseed id hid
    exact List.mem_cons_of_mem _ (List.mem_flatMap.mpr ⟨seed.1, (List.of_mem_zip hseed).1, hid⟩)
  have hitem : ∀ seed : (BlockId × List ItemId) × DefaultDiscoveryBlock, ∀ row ∈ seedItems seed.1.1 seed.2 seed.1.2,
      row.1 ∈ seed.1.2 ∧ row.2.discoveryBlockId = seed.1.1 := by
    intro seed row hrow
    rw [seedItems, List.mem_mapIdx] at hrow
    obtain ⟨i, hi, rfl⟩ := hrow
    exact ⟨(List.of_mem_zip (List.getElem_mem hi)).1, rfl⟩
  simp only [seeds, createProject, allIds, List.nil_append, List.map_map, List.mem_append, List.mem_map, List.mem_flatMap,
    List.mem_singleton, List.map_nil, List.not_mem_nil, or_false, Function.comp_apply] at h
  rcases h with (((rfl | ⟨seed, hmem, rfl⟩) | ⟨seed, -, rfl⟩) | ⟨row, ⟨seed, hmem, hrow⟩, rfl⟩) | ⟨row, ⟨seed, hmem, hrow⟩, rfl⟩
  · exact List.mem_cons_self
  · exact hseed seed hmem _ List.mem_cons_self
  · exact List.mem_cons_self
  · exact hseed seed hmem _ (List.mem_cons_of_mem _ (hitem seed row hrow).1)
  · rw [(hitem seed row hrow).2]
    exact hseed seed hmem _ List.mem_cons_self

theorem allIds_createProject (db : Database) (projectId : ProjectId) (ids : List (BlockId × List ItemId)) :
    (db.createProject projectId ids).allIds ⊆ (projectId :: ids.flatMap fun block => block.1 :: block.2) ++ db.allIds := by
  intro id hid
  rw [List.mem_append]
  by_cases hseed : id ∈ (seeds projectId ids).allIds
  · exact .inl (mem_allIds_seeds hseed)
  · refine .inr ?_
    simp only [seeds, createProject, allIds, List.nil_append, List.map_append, List.mem_append] at hid hseed ⊢
    grind

/-- The default blocks and items fit. -/
theorem count_seeds_le (projectId : ProjectId) (ids : List (BlockId × List ItemId)) (container : Container) :
    (seeds projectId ids).count container ≤ container.cap := by
  cases container with
  | project _ =>
      rw [count, contents]
      refine (Rows.length_ids_le _ _).trans ?_
      simp only [seeds, createProject, List.nil_append, List.length_map, List.length_zip]
      exact (Nat.min_le_right ..).trans (by rw [Container.cap]; decide)
  | block _ =>
      rw [count, contents]
      refine (Rows.length_ids_le _ _).trans ?_
      simp only [seeds, createProject, List.nil_append]
      exact (length_flatMap_seedItems ..).trans (by rw [Container.cap]; decide)
  | checklist _ _ => exact Nat.zero_le _

/-- A create that the guard lets through has what its row will refer to. -/
theorem owner_mem_of_access {db : Database} {request : Request} {isMember : Bool} {row : NewRow}
    (h : db.access request isMember = none) (hoperation : request.operation = .create row) :
    (request.container row).owner ∈ db.allIds := by
  rw [access, hoperation] at h
  split at h
  · cases h
  · next hproject =>
      rw [not_or, not_not] at hproject
      apply owner_mem_allIds
      cases row with
      | block dto => exact decide_eq_true hproject.2
      | checklistItem dto => exact decide_eq_true hproject.2
      | blockItem dto =>
          simp only [findBlock] at h
          cases hfind : db.discoveryBlocks.find request.discoveryBlockId with
          | none =>
              rw [hfind] at h
              cases h
          | some block =>
              show (db.discoveryBlocks.find request.discoveryBlockId).isSome
              rw [hfind]
              rfl

end Database

end Transcendence.Content
