import Transcendence.Discovery.BlockItems

/-!
# The status of a discovery block

Whoever changes an item recalculates the status afterwards, so a status that is not the one of the
items has a request that is going to set it right (`State.Current`). A recalculation whose items are
out of date cannot replace a right status unnoticed: when nobody else is going to recalculate, the
block has been written since it was opened, and it cannot commit (`Tracked`). But the one that has
read the items as they are may fail as well, because an older one commits first, and it is not
repeated. As long as no such failure loses anything, every status is right when no request is in
flight.
-/

namespace Transcendence.Discovery

/-! ### The items of a block -/

namespace Database

variable {db : Database} {itemId : ItemId} {item : DiscoveryBlockItem} {id other : BlockId}

/-- Every item with the id is one of the block. -/
def OwnedBy (db : Database) (itemId : ItemId) (id : BlockId) : Prop :=
  ∀ entry ∈ db.items, entry.1 = itemId → entry.2.discoveryBlockId = id

theorem setBlock_blocks_self (projectId : ProjectId) (status : DiscoveryBlockStatus) :
    (db.setBlock id projectId status).blocks id = some ⟨projectId, status, db.transactions⟩ := Function.update_self ..

theorem setBlock_blocks_of_ne (projectId : ProjectId) (status : DiscoveryBlockStatus) (hne : other ≠ id) :
    (db.setBlock id projectId status).blocks other = db.blocks other := Function.update_of_ne hne ..

theorem itemsOf_setItem (howned : db.OwnedBy itemId id) (hitem : item.discoveryBlockId = id) (hne : other ≠ id) :
    (db.setItem itemId item).itemsOf other = db.itemsOf other := by
  apply congrArg (List.map Prod.snd)
  apply OrderedMap.filter_set
  · simpa [hitem] using hne.symm
  · intro entry hmem hkey
    simpa [howned entry hmem hkey] using hne.symm

theorem itemsOf_deleteItem (howned : db.OwnedBy itemId id) (hne : other ≠ id) :
    (db.deleteItem itemId).itemsOf other = db.itemsOf other := by
  apply congrArg (List.map Prod.snd)
  apply OrderedMap.filter_delete
  intro entry hmem hkey
  simpa [howned entry hmem hkey] using hne.symm

theorem itemsOf_deleteBlock (hne : other ≠ id) : (db.deleteBlock id).itemsOf other = db.itemsOf other := by
  apply congrArg (List.map Prod.snd)
  show (db.items.filter _).filter _ = _
  rw [List.filter_filter]
  refine List.filter_congr fun entry _ => ?_
  by_cases heq : entry.2.discoveryBlockId = other
  · simp [heq, hne]
  · simp [heq]

end Database

namespace State

variable {s t : State} {id other : Nat} {call : Call} {block : BlockId}

/-- The status of the block is right and nobody can commit another one, or it is going to be set
right. -/
def Tracked (s : State) (block : BlockId) : Prop :=
  (∃ id, s.Current id block) ∨ (s.db.Settled block ∧ ∀ id, ¬s.CanCommit id block)

/-- What a call relies on: its version is an old one, and the item it has found stays in its block. -/
structure CallOk (db : Database) (issued : List ItemId) (call : Call) : Prop where
  opened : ∀ item items version, call.phase = .recalculating item items (some version) → version < db.transactions
  owned : ∀ existing itemId, call.phase = .guarded existing → call.operation.itemId = some itemId →
    itemId ∈ issued ∧ db.OwnedBy itemId call.discoveryBlockId

structure TablesOk (db : Database) (issued : List ItemId) : Prop where
  keys : OrderedMap.UniqueKeys db.items
  versions : ∀ id block, db.blocks id = some block → block.version < db.transactions
  blocks : ∀ entry ∈ db.items, (db.blocks entry.2.discoveryBlockId).isSome
  issued : ∀ entry ∈ db.items, entry.1 ∈ issued

structure StatusInv (s : State) : Prop where
  tracked : ∀ block, s.Tracked block
  tables : TablesOk s.db s.issued
  calls : ∀ id call, s.calls id = some call → CallOk s.db s.issued call

/-! ### What other calls and other blocks notice -/

theorem current_congr (hcall : t.calls id = s.calls id) (hitems : t.db.itemsOf block = s.db.itemsOf block) :
    t.Current id block ↔ s.Current id block := by
  rw [Current, Current, hcall, hitems]

theorem canCommit_congr (hcall : t.calls id = s.calls id) (hblock : t.db.blocks block = s.db.blocks block) :
    t.CanCommit id block ↔ s.CanCommit id block := by
  rw [CanCommit, CanCommit, hcall, hblock]

theorem settled_congr {db db' : Database} (hblock : db'.blocks block = db.blocks block)
    (hitems : db'.itemsOf block = db.itemsOf block) : db'.Settled block ↔ db.Settled block := by
  rw [Database.Settled, Database.Settled, hblock, hitems]

/-- A step of one call, seen from a block whose rows it leaves. -/
theorem Tracked.of_call (h : s.Tracked block) (hcalls : ∀ other, other ≠ id → t.calls other = s.calls other)
    (hblock : t.db.blocks block = s.db.blocks block) (hitems : t.db.itemsOf block = s.db.itemsOf block)
    (hcurrent : s.Current id block → t.Tracked block) (hcommit : ¬t.CanCommit id block) : t.Tracked block := by
  rcases h with ⟨other, hother⟩ | ⟨hsettled, hnone⟩
  · by_cases heq : other = id
    · subst heq
      exact hcurrent hother
    · exact .inl ⟨other, (current_congr (hcalls other heq) hitems).mpr hother⟩
  · refine .inr ⟨(settled_congr hblock hitems).mpr hsettled, fun other => ?_⟩
    by_cases heq : other = id
    · rwa [heq]
    · rw [canCommit_congr (hcalls other heq) hblock]
      exact hnone other

theorem CallOk.mono {db db' : Database} {issued issued' : List ItemId} (h : CallOk db issued call)
    (htransactions : db.transactions ≤ db'.transactions) (hissued : issued ⊆ issued')
    (howned : ∀ itemId ∈ issued, ∀ block, db.OwnedBy itemId block → db'.OwnedBy itemId block) : CallOk db' issued' call where
  opened item items version hphase := (h.opened item items version hphase).trans_le htransactions
  owned existing itemId hphase hitem := by
    obtain ⟨hmem, hbefore⟩ := h.owned existing itemId hphase hitem
    exact ⟨hissued hmem, howned itemId hmem _ hbefore⟩

/-- Neither between its item and its recalculation nor in it. -/
def Phase.isIdle : Phase → Bool
  | .changed _ => false
  | .recalculating .. => false
  | _ => true

theorem not_current_of_isIdle (hcall : s.calls id = some call) (hidle : Phase.isIdle call.phase) :
    ¬s.Current id block := by
  rintro ⟨found, hfound, -, hphase⟩
  obtain rfl := Option.some.inj (hcall.symm.trans hfound)
  rcases hphase with ⟨item, hphase⟩ | ⟨item, version, hphase⟩ <;>
  · rw [hphase] at hidle
    cases hidle

theorem not_canCommit (hcall : s.calls id = some call)
    (hphase : ∀ item items version, call.phase ≠ .recalculating item items (some version)) : ¬s.CanCommit id block := by
  rintro ⟨found, row, item, items, hfound, -, -, hopen⟩
  obtain rfl := Option.some.inj (hcall.symm.trans hfound)
  exact hphase item items row.version hopen

/-! ### Steps that only move a call on -/

theorem setPhase_calls_self (phase : Phase) : (s.setPhase id call phase).calls id = some { call with phase } :=
  Function.update_self ..

theorem setPhase_calls_of_ne (phase : Phase) (hne : other ≠ id) :
    (s.setPhase id call phase).calls other = s.calls other := Function.update_of_ne hne ..

/-- A call that has not written its item goes on without writing it, or fails. -/
theorem StatusInv.setPhase (h : s.StatusInv) (hcall : s.calls id = some call) (hbefore : Phase.isIdle call.phase)
    {phase : Phase} (hafter : Phase.isIdle phase)
    (howned : ∀ existing itemId, phase = .guarded existing → call.operation.itemId = some itemId →
      itemId ∈ s.issued ∧ s.db.OwnedBy itemId call.discoveryBlockId) : (s.setPhase id call phase).StatusInv where
  tracked block := by
    refine (h.tracked block).of_call (fun other hne => setPhase_calls_of_ne phase hne) rfl rfl
      (fun hcurrent => absurd hcurrent (not_current_of_isIdle hcall hbefore)) (not_canCommit (setPhase_calls_self phase) ?_)
    rintro item items version rfl
    cases hafter
  tables := h.tables
  calls other found hfound := by
    by_cases heq : other = id
    · subst heq
      obtain rfl := Option.some.inj ((setPhase_calls_self phase).symm.trans hfound)
      refine ⟨fun item items version hphase => ?_, howned⟩
      have hphase : phase = .recalculating item items (some version) := hphase
      rw [hphase] at hafter
      cases hafter
    · rw [setPhase_calls_of_ne phase heq] at hfound
      exact (h.calls other found hfound)

theorem StatusInv.begin (h : s.StatusInv) {projectId : ProjectId} {operation : Operation}
    (hstep : s.begin id projectId block operation = some t) : t.StatusInv := by
  rw [State.begin, Option.ite_none_left_eq_some] at hstep
  obtain ⟨hfresh, hstep⟩ := hstep
  cases hstep
  have hnone : s.calls id = none := by simpa using hfresh
  refine ⟨fun block => ?_, h.tables, fun other found hfound => ?_⟩
  · refine (h.tracked block).of_call (fun other hne => Function.update_of_ne hne ..) rfl rfl ?_
      (not_canCommit (Function.update_self ..) nofun)
    rintro ⟨found, hfound, -⟩
    cases hnone.symm.trans hfound
  · by_cases heq : other = id
    · subst heq
      simp only [Function.update_self, Option.some.injEq] at hfound
      subst hfound
      exact ⟨nofun, nofun⟩
    · simp only [Function.update_of_ne heq] at hfound
      exact (h.calls other found hfound)

theorem StatusInv.guard (h : s.StatusInv) {isMember : Bool} (hstep : s.guard id isMember = some t) : t.StatusInv := by
  simp only [State.guard, Option.map_eq_some_iff, Option.filter_eq_some_iff, decide_eq_true_eq] at hstep
  obtain ⟨call, ⟨hcall, hbegun⟩, rfl⟩ := hstep
  have hidle : Phase.isIdle call.phase := by
    rw [hbegun]
    rfl
  cases haccess : access s.db call isMember with
  | error error => exact h.setPhase hcall hidle rfl nofun
  | ok existing =>
      refine h.setPhase hcall hidle rfl fun _ itemId _ hitem => ?_
      simp only [access, hitem] at haccess
      split_ifs at haccess
      split at haccess
      · cases haccess
      · next item hfound =>
          obtain ⟨hget, howner⟩ := Option.filter_eq_some_iff.mp hfound
          refine ⟨h.tables.issued _ (OrderedMap.mem_of_get hget), fun entry hmem hkey => ?_⟩
          have hsame := OrderedMap.get_of_mem h.tables.keys hmem
          rw [hkey, hget] at hsame
          rw [← Option.some.inj hsame]
          exact of_decide_eq_true howner

theorem StatusInv.count (h : s.StatusInv) (hstep : s.count id = some t) : t.StatusInv := by
  rw [State.count, Option.bind_eq_some_iff] at hstep
  obtain ⟨call, hcall, hstep⟩ := hstep
  split at hstep
  · next existing dto hguarded _ =>
      have hidle : Phase.isIdle call.phase := by
        rw [hguarded]
        rfl
      cases hstep
      split
      · exact h.setPhase hcall hidle rfl nofun
      · exact h.setPhase hcall hidle rfl nofun
  · cases hstep

/-! ### Changes of items -/

/-- A call that has written an item of its block is going to recalculate the status. -/
theorem StatusInv.change (h : s.StatusInv) (hcall : s.calls id = some call) {item : DiscoveryBlockItem}
    {items : OrderedMap ItemId DiscoveryBlockItem} {issued : List ItemId} (hkeys : OrderedMap.UniqueKeys items)
    (hblocks : ∀ entry ∈ items, (s.db.blocks entry.2.discoveryBlockId).isSome) (hitems : ∀ entry ∈ items, entry.1 ∈ issued)
    (hissued : s.issued ⊆ issued)
    (howned : ∀ itemId ∈ s.issued, ∀ block, s.db.OwnedBy itemId block → ({ s.db with items } : Database).OwnedBy itemId block)
    (hothers : ∀ block, block ≠ call.discoveryBlockId → ({ s.db with items } : Database).itemsOf block = s.db.itemsOf block) :
    StatusInv { s.setPhase id call (.changed item) with db := { s.db with items }, issued } where
  tracked block := by
    have hself : (s.setPhase id call (.changed item)).calls id = some { call with phase := .changed item } :=
      setPhase_calls_self _
    by_cases heq : block = call.discoveryBlockId
    · exact .inl ⟨id, _, hself, heq.symm, .inl ⟨item, rfl⟩⟩
    · refine (h.tracked block).of_call (fun other hne => setPhase_calls_of_ne _ hne) rfl (hothers block heq) ?_
        (not_canCommit hself nofun)
      rintro ⟨found, hfound, hblock, -⟩
      obtain rfl := Option.some.inj (hcall.symm.trans hfound)
      exact absurd hblock.symm heq
  tables := ⟨hkeys, h.tables.versions, hblocks, hitems⟩
  calls other found hfound := by
    by_cases heq : other = id
    · subst heq
      obtain rfl := Option.some.inj ((setPhase_calls_self (.changed item)).symm.trans hfound)
      exact ⟨nofun, nofun⟩
    · have hbefore : s.calls other = some found := (setPhase_calls_of_ne (.changed item) heq).symm.trans hfound
      exact (h.calls other found hbefore).mono le_rfl hissued howned

theorem StatusInv.insert (h : s.StatusInv) {itemId : ItemId} (hstep : s.insert id itemId = some t) : t.StatusInv := by
  rw [State.insert, Option.bind_eq_some_iff] at hstep
  obtain ⟨call, hcall, hstep⟩ := hstep
  split at hstep
  · next count dto _ _ =>
      rw [Option.ite_none_left_eq_some] at hstep
      obtain ⟨hfresh, hstep⟩ := hstep
      rw [not_or] at hfresh
      cases hstep
      have hnew : s.db.OwnedBy itemId call.discoveryBlockId := by
        rintro entry hmem rfl
        exact absurd (h.tables.issued entry hmem) hfresh.1
      refine h.change hcall (OrderedMap.uniqueKeys_set h.tables.keys ..) (fun entry hmem => ?_) (fun entry hmem => ?_)
        (List.subset_cons_self ..) (fun other hother block howned entry hmem hkey => ?_)
        (fun block hne => Database.itemsOf_setItem hnew rfl hne)
      · rcases OrderedMap.mem_of_mem_set hmem with hold | rfl
        · exact h.tables.blocks entry hold
        · simpa [Option.isSome_iff_ne_none] using hfresh.2
      · rcases OrderedMap.mem_of_mem_set hmem with hold | rfl
        · exact List.mem_cons_of_mem _ (h.tables.issued entry hold)
        · exact List.mem_cons_self
      · rcases OrderedMap.mem_of_mem_set hmem with hold | rfl
        · exact howned entry hold hkey
        · obtain rfl : itemId = other := hkey
          exact absurd hother hfresh.1
  · cases hstep

theorem StatusInv.write (h : s.StatusInv) (hstep : s.write id = some t) : t.StatusInv := by
  rw [State.write, Option.bind_eq_some_iff] at hstep
  obtain ⟨call, hcall, hstep⟩ := hstep
  split at hstep
  · next existing itemId dto hguarded hupdate =>
      have howned := ((h.calls id call hcall).owned existing itemId hguarded (by rw [hupdate]; rfl)).2
      split at hstep
      · cases hstep
        exact h.setPhase hcall (by rw [hguarded]; rfl) rfl nofun
      · next item hget =>
          cases hstep
          have hfound : (itemId, item) ∈ s.db.items := OrderedMap.mem_of_get hget
          have hblock : item.discoveryBlockId = call.discoveryBlockId := howned _ hfound rfl
          refine h.change hcall (OrderedMap.uniqueKeys_set h.tables.keys ..) (fun entry hmem => ?_) (fun entry hmem => ?_)
            (List.Subset.refl _) (fun other hother block hothers entry hmem hkey => ?_)
            (fun block hne => Database.itemsOf_setItem howned hblock hne)
          · rcases OrderedMap.mem_of_mem_set hmem with hold | rfl
            · exact h.tables.blocks entry hold
            · exact h.tables.blocks (itemId, item) hfound
          · rcases OrderedMap.mem_of_mem_set hmem with hold | rfl
            · exact h.tables.issued entry hold
            · exact h.tables.issued (itemId, item) hfound
          · rcases OrderedMap.mem_of_mem_set hmem with hold | rfl
            · exact hothers entry hold hkey
            · exact hothers (itemId, item) hfound hkey
  · next existingItem itemId hguarded hremove =>
      have howned := ((h.calls id call hcall).owned _ itemId hguarded (by rw [hremove]; rfl)).2
      split at hstep
      · cases hstep
        exact h.change hcall h.tables.keys h.tables.blocks h.tables.issued (List.Subset.refl _)
          (fun _ _ _ hothers => hothers) fun _ _ => rfl
      · cases hstep
        refine h.change hcall (OrderedMap.uniqueKeys_delete h.tables.keys _)
          (fun entry hmem => h.tables.blocks entry (OrderedMap.mem_of_mem_delete hmem))
          (fun entry hmem => h.tables.issued entry (OrderedMap.mem_of_mem_delete hmem)) (List.Subset.refl _)
          (fun other hother block hothers entry hmem => hothers entry (OrderedMap.mem_of_mem_delete hmem))
          fun block hne => Database.itemsOf_deleteItem howned hne
  · cases hstep

/-! ### Recalculations -/

theorem StatusInv.openRecalculation (h : s.StatusInv) (hstep : s.openRecalculation id = some t) : t.StatusInv := by
  rw [State.openRecalculation, Option.bind_eq_some_iff] at hstep
  obtain ⟨call, hcall, hstep⟩ := hstep
  split at hstep
  · next item hchanged =>
      cases hstep
      set phase := Phase.recalculating item (s.db.itemsOf call.discoveryBlockId)
        ((s.db.blocks call.discoveryBlockId).map (·.version)) with hphase
      refine ⟨fun block => ?_, h.tables, fun other found hfound => ?_⟩
      · by_cases heq : block = call.discoveryBlockId
        · subst heq
          exact .inl ⟨id, _, setPhase_calls_self phase, rfl, .inr ⟨item, _, hphase⟩⟩
        · refine (h.tracked block).of_call (fun other hne => setPhase_calls_of_ne phase hne) rfl rfl ?_ ?_
          · rintro ⟨found, hfound, hblock, -⟩
            obtain rfl := Option.some.inj (hcall.symm.trans hfound)
            exact absurd hblock.symm heq
          · rintro ⟨found, row, item', items, hfound, hblock, -⟩
            obtain rfl := Option.some.inj ((setPhase_calls_self phase).symm.trans hfound)
            exact absurd hblock.symm heq
      · by_cases heq : other = id
        · subst heq
          obtain rfl := Option.some.inj ((setPhase_calls_self phase).symm.trans hfound)
          refine ⟨fun item' items version hopen => ?_, nofun⟩
          have hversion : (s.db.blocks call.discoveryBlockId).map (·.version) = some version :=
            (Phase.recalculating.inj hopen).2.2
          obtain ⟨row, hrow, rfl⟩ := Option.map_eq_some_iff.mp hversion
          exact h.tables.versions _ row hrow
        · have hbefore : s.calls other = some found := (setPhase_calls_of_ne phase heq).symm.trans hfound
          exact (h.calls other found hbefore)
  · cases hstep

theorem TablesOk.setBlock {db : Database} {issued : List ItemId} (h : TablesOk db issued) (id : BlockId)
    (projectId : ProjectId) (status : DiscoveryBlockStatus) : TablesOk (db.setBlock id projectId status) issued where
  keys := h.keys
  versions other row hrow := by
    by_cases heq : other = id
    · subst heq
      obtain rfl := Option.some.inj ((Database.setBlock_blocks_self projectId status).symm.trans hrow)
      exact Nat.lt_succ_self _
    · rw [Database.setBlock_blocks_of_ne projectId status heq] at hrow
      exact (h.versions other row hrow).trans (Nat.lt_succ_self _)
  blocks entry hmem := by
    by_cases heq : entry.2.discoveryBlockId = id
    · rw [heq, Database.setBlock_blocks_self]
      rfl
    · rw [Database.setBlock_blocks_of_ne projectId status heq]
      exact h.blocks entry hmem
  issued := h.issued

/-- After a write of the block nobody can commit a recalculation that was open before. -/
theorem StatusInv.not_canCommit_setBlock (h : s.StatusInv) {projectId : ProjectId} {status : DiscoveryBlockStatus}
    (hcalls : ∀ call, t.calls id = some call → s.calls id = some call ∨ Phase.isIdle call.phase)
    (hdb : t.db = s.db.setBlock block projectId status) : ¬t.CanCommit id block := by
  rintro ⟨call, row, item, items, hcall, -, hrow, hopen⟩
  rw [hdb] at hrow
  obtain rfl := Option.some.inj ((Database.setBlock_blocks_self projectId status).symm.trans hrow)
  rcases hcalls call hcall with hbefore | hidle
  · exact absurd ((h.calls id call hbefore).opened item items _ hopen) (lt_irrefl _)
  · rw [hopen] at hidle
    cases hidle

/-- A write of a block by a request that is not a recalculation. -/
theorem StatusInv.setBlock (h : s.StatusInv) (id : BlockId) (projectId : ProjectId) {status : DiscoveryBlockStatus}
    (hstatus : s.db.Settled id → status = computeDiscoveryBlockStatus (s.db.itemsOf id)) :
    StatusInv { s with db := s.db.setBlock id projectId status } where
  tracked block := by
    rcases h.tracked block with ⟨other, hcurrent⟩ | ⟨hsettled, hnone⟩
    · exact .inl ⟨other, hcurrent⟩
    · by_cases heq : block = id
      · subst heq
        refine .inr ⟨fun row hrow => ?_, fun other => h.not_canCommit_setBlock (fun call hcall => .inl hcall) rfl⟩
        obtain rfl := Option.some.inj ((Database.setBlock_blocks_self projectId status).symm.trans hrow)
        exact hstatus hsettled
      · have hblock : (s.db.setBlock id projectId status).blocks block = s.db.blocks block :=
          Function.update_of_ne heq ..
        refine .inr ⟨(settled_congr hblock rfl).mpr hsettled, fun other hcan => hnone other ?_⟩
        exact (canCommit_congr (s := s) (t := { s with db := s.db.setBlock id projectId status }) rfl hblock).mp hcan
  tables := h.tables.setBlock id projectId status
  calls other call hcall := (h.calls other call hcall).mono (Nat.le_succ _) (List.Subset.refl _) fun _ _ _ howned => howned

theorem StatusInv.commitRecalculation (h : s.StatusInv) (hstep : s.commitRecalculation id = some t) : t.StatusInv := by
  rw [State.commitRecalculation, Option.bind_eq_some_iff] at hstep
  obtain ⟨call, hcall, hstep⟩ := hstep
  split at hstep
  · next item items version hopen =>
      simp only [Option.map_eq_some_iff, Option.filter_eq_some_iff, decide_eq_true_eq] at hstep
      obtain ⟨row, ⟨hrow, rfl⟩, rfl⟩ := hstep
      have hself : (s.setPhase id call (.ended (.ok item))).calls id = some { call with phase := .ended (.ok item) } :=
        setPhase_calls_self _
      have hothers : ∀ other, other ≠ id → (s.setPhase id call (.ended (.ok item))).calls other = s.calls other :=
        fun other hne => setPhase_calls_of_ne _ hne
      refine ⟨fun block => ?_, h.tables.setBlock .., fun other found hfound => ?_⟩
      · by_cases heq : block = call.discoveryBlockId
        · subst heq
          rcases h.tracked call.discoveryBlockId with ⟨other, hcurrent⟩ | ⟨-, hnone⟩
          · by_cases hother : other = id
            · -- it has read the items as they are
              obtain ⟨found, hfound, -, hphase⟩ := hcurrent
              rw [hother] at hfound
              obtain rfl := Option.some.inj (hcall.symm.trans hfound)
              simp only [hopen, reduceCtorEq, exists_false, Phase.recalculating.injEq, false_or] at hphase
              obtain ⟨-, -, -, rfl, -⟩ := hphase
              refine .inr ⟨fun after hafter => ?_, fun client => ?_⟩
              · obtain rfl := Option.some.inj ((Database.setBlock_blocks_self ..).symm.trans hafter)
                rfl
              · refine h.not_canCommit_setBlock (fun found hfound => ?_) rfl
                by_cases hclient : client = id
                · subst hclient
                  obtain rfl := Option.some.inj (hself.symm.trans hfound)
                  exact .inr rfl
                · exact .inl ((hothers client hclient).symm.trans hfound)
            · exact .inl ⟨other, (current_congr (hothers other hother) rfl).mpr hcurrent⟩
          · exact absurd ⟨call, row, item, items, hcall, rfl, hrow, hopen⟩ (hnone id)
        · refine (h.tracked block).of_call hothers (Database.setBlock_blocks_of_ne _ _ heq) rfl ?_ (not_canCommit hself nofun)
          rintro ⟨found, hfound, hblock, -⟩
          obtain rfl := Option.some.inj (hcall.symm.trans hfound)
          exact absurd hblock.symm heq
      · by_cases heq : other = id
        · subst heq
          obtain rfl := Option.some.inj (hself.symm.trans hfound)
          exact ⟨nofun, nofun⟩
        · have hbefore : s.calls other = some found := (hothers other heq).symm.trans hfound
          exact (h.calls other found hbefore).mono (Nat.le_succ _) (List.Subset.refl _) fun _ _ _ howned => howned
  · cases hstep

/-- A failure that loses nothing. -/
theorem StatusInv.abort (h : s.StatusInv) (hlost : s.NothingLost (.abort id)) (hstep : s.abort id = some t) :
    t.StatusInv := by
  rw [State.abort, Option.bind_eq_some_iff] at hstep
  obtain ⟨call, hcall, hstep⟩ := hstep
  split at hstep
  · next count hcounted =>
      cases hstep
      exact h.setPhase hcall (by rw [hcounted]; rfl) rfl nofun
  · next item items version hopen =>
      cases hstep
      have hself : (s.setPhase id call (.ended (.error .transaction))).calls id =
          some { call with phase := .ended (.error .transaction) } := setPhase_calls_self _
      have hothers : ∀ other, other ≠ id → (s.setPhase id call (.ended (.error .transaction))).calls other = s.calls other :=
        fun other hne => setPhase_calls_of_ne _ hne
      refine ⟨fun block => ?_, h.tables, fun other found hfound => ?_⟩
      · by_cases heq : block = call.discoveryBlockId
        · subst heq
          rcases hlost id call item items version rfl hcall hopen with ⟨other, hne, hcurrent⟩ | ⟨hsettled, hnone⟩
          · exact .inl ⟨other, (current_congr (hothers other hne) rfl).mpr hcurrent⟩
          · refine .inr ⟨hsettled, fun other => ?_⟩
            by_cases hother : other = id
            · rw [hother]
              exact not_canCommit hself nofun
            · rw [canCommit_congr (hothers other hother) rfl]
              exact hnone other hother
        · refine (h.tracked block).of_call hothers rfl rfl ?_ (not_canCommit hself nofun)
          rintro ⟨found, hfound, hblock, -⟩
          obtain rfl := Option.some.inj (hcall.symm.trans hfound)
          exact absurd hblock.symm heq
      · by_cases heq : other = id
        · subst heq
          obtain rfl := Option.some.inj (hself.symm.trans hfound)
          exact ⟨nofun, nofun⟩
        · exact h.calls other found ((hothers other heq).symm.trans hfound)
  · cases hstep

/-! ### Blocks -/

theorem StatusInv.createBlock (h : s.StatusInv) {projectId : ProjectId} (hstep : s.createBlock block projectId = some t) :
    t.StatusInv := by
  rw [State.createBlock, Option.ite_none_left_eq_some] at hstep
  obtain ⟨hnew, hstep⟩ := hstep
  cases hstep
  refine h.setBlock block projectId fun _ => ?_
  have hempty : s.db.itemsOf block = [] := by
    rw [Database.itemsOf, List.map_eq_nil_iff, List.filter_eq_nil_iff]
    intro entry hmem
    rw [decide_eq_true_eq]
    rintro rfl
    exact hnew (h.tables.blocks entry hmem)
  rw [hempty]
  rfl

theorem StatusInv.updateBlock (h : s.StatusInv) (hstep : s.updateBlock block = some t) : t.StatusInv := by
  obtain ⟨row, hrow, rfl⟩ := Option.map_eq_some_iff.mp hstep
  exact h.setBlock block row.projectId fun hsettled => hsettled row hrow

theorem StatusInv.removeBlock (h : s.StatusInv) (id : BlockId) : (s.removeBlock id).StatusInv where
  tracked block := by
    by_cases heq : block = id
    · subst heq
      have hgone : (s.removeBlock block).db.blocks block = none := Function.update_self ..
      refine .inr ⟨fun row hrow => ?_, fun other => ?_⟩
      · cases hgone.symm.trans hrow
      · rintro ⟨call, row, item, items, -, -, hrow, -⟩
        cases hgone.symm.trans hrow
    · have hblock : (s.removeBlock id).db.blocks block = s.db.blocks block := Function.update_of_ne heq ..
      have hitems : (s.removeBlock id).db.itemsOf block = s.db.itemsOf block := Database.itemsOf_deleteBlock heq
      rcases h.tracked block with ⟨other, hcurrent⟩ | ⟨hsettled, hnone⟩
      · exact .inl ⟨other, (current_congr (s := s) (t := s.removeBlock id) rfl hitems).mpr hcurrent⟩
      · refine .inr ⟨(settled_congr hblock hitems).mpr hsettled, fun other => ?_⟩
        rw [canCommit_congr (s := s) (t := s.removeBlock id) rfl hblock]
        exact hnone other
  tables := by
    refine ⟨OrderedMap.uniqueKeys_filter h.tables.keys _, fun other row hrow => ?_, fun entry hmem => ?_,
      fun entry hmem => h.tables.issued entry (List.mem_of_mem_filter hmem)⟩
    · by_cases heq : other = id
      · subst heq
        have hgone : (s.removeBlock other).db.blocks other = none := Function.update_self ..
        cases hgone.symm.trans hrow
      · exact h.tables.versions other row ((Function.update_of_ne heq ..).symm.trans hrow)
    · obtain ⟨hmem, hne⟩ := List.mem_filter.mp hmem
      have hkept : (s.removeBlock id).db.blocks entry.2.discoveryBlockId = s.db.blocks entry.2.discoveryBlockId :=
        Function.update_of_ne (of_decide_eq_true hne) ..
      rw [hkept]
      exact h.tables.blocks entry hmem
  calls other call hcall := (h.calls other call hcall).mono le_rfl (List.Subset.refl _)
    fun _ _ _ howned entry hmem => howned entry (List.mem_of_mem_filter hmem)

/-! ### Over whole runs -/

theorem StatusInv.step (h : s.StatusInv) {label : Label} (hlost : s.NothingLost label) (hstep : s.step label = some t) :
    t.StatusInv := by
  cases label with
  | begin id projectId discoveryBlockId operation => exact h.begin hstep
  | guard id isMember => exact h.guard hstep
  | count id => exact h.count hstep
  | insert id itemId => exact h.insert hstep
  | write id => exact h.write hstep
  | openRecalculation id => exact h.openRecalculation hstep
  | commitRecalculation id => exact h.commitRecalculation hstep
  | abort id => exact h.abort hlost hstep
  | createBlock id projectId => exact h.createBlock hstep
  | updateBlock id => exact h.updateBlock hstep
  | removeBlock id =>
      cases hstep
      exact h.removeBlock id

theorem statusInv_initial {db : Database} (htables : TablesOk db (db.items.map (·.1))) (hdb : ∀ block, db.Settled block) :
    (initial db).StatusInv where
  tracked block := .inr ⟨hdb block, by rintro id ⟨call, row, item, items, hcall, -⟩; cases hcall⟩
  tables := htables
  calls id call hcall := by cases hcall

/-- In every run from a database whose statuses are right, in which no failure of a recalculation
loses anything. -/
theorem status_right_of_nothing_lost (db : Database) (htables : TablesOk db (db.items.map (·.1)))
    (hdb : ∀ block, db.Settled block) (labels : List Label) (s : State)
    (hrun : Runs.run State.step (initial db) labels = some s)
    (hlost : Runs.Along State.step NothingLost (initial db) labels) (hrest : s.AtRest) : ∀ block, s.db.Settled block := by
  have hinv : s.StatusInv :=
    hlost.run (fun _ _ _ h hlost hstep => h.step hlost hstep) (statusInv_initial htables hdb) hrun
  intro block
  rcases hinv.tracked block with ⟨id, call, hcall, -, hphase⟩ | ⟨hsettled, -⟩
  · have hended := hrest id call hcall
    rcases hphase with ⟨item, hphase⟩ | ⟨item, version, hphase⟩ <;>
    · rw [hphase] at hended
      cases hended
  · exact hsettled

/-! Two members check the last two items of a block. -/

def twoItems : Database where
  blocks id := if id = "block" then some ⟨"project", .NOT_STARTED, 0⟩ else none
  items := [("first", ⟨"block", "First", false, 0⟩), ("second", ⟨"block", "Second", false, 1⟩)]
  transactions := 1

theorem twoItems_tablesOk : TablesOk twoItems (twoItems.items.map (·.1)) where
  keys := by
    rw [OrderedMap.UniqueKeys]
    decide
  versions id block hblock := by
    simp only [twoItems, Option.ite_none_right_eq_some, Option.some.injEq] at hblock
    obtain ⟨-, rfl⟩ := hblock
    decide
  blocks := by decide
  issued := by decide

theorem twoItems_settled (block : BlockId) : twoItems.Settled block := by
  intro row hrow
  simp only [twoItems, Option.ite_none_right_eq_some, Option.some.injEq] at hrow
  obtain ⟨rfl, rfl⟩ := hrow
  decide

/-- Both requests check their item and recalculate, the first one with what it has read before the
other check if `early`; the second one waits for it. -/
def bothChecked (early : Bool) : List Label :=
  [.begin 0 "project" "block" (.update "first" ⟨none, none, some true⟩), .guard 0 true, .write 0,
    .begin 1 "project" "block" (.update "second" ⟨none, none, some true⟩), .guard 1 true] ++
    (if early then [.openRecalculation 0, .write 1] else [.write 1, .openRecalculation 0]) ++
    [.openRecalculation 1, .commitRecalculation 0]

theorem atRest_of_two {s : State} (hcalls : ∀ id, id < 2 → (s.calls id).all (·.phase.hasEnded))
    (hnone : ∀ id, s.calls (id + 2) = none) : s.AtRest := by
  intro id call hcall
  by_cases hid : id < 2
  · have hended := hcalls id hid
    rwa [hcall, Option.all_some] at hended
  · obtain ⟨later, rfl⟩ := Nat.exists_eq_add_of_le' (Nat.le_of_not_lt hid)
    cases (hnone later).symm.trans hcall

theorem not_status_right : ¬∀ db : Database, TablesOk db (db.items.map (·.1)) → (∀ block, db.Settled block) →
    ∀ (labels : List Label) (s : State), Runs.run State.step (initial db) labels = some s → s.AtRest →
      ∀ block, s.db.Settled block := by
  intro hall
  have hend : ∃ s, Runs.run State.step (initial twoItems) (bothChecked true ++ [.abort 1]) = some s ∧
      ((∀ id, id < 2 → (s.calls id).all (·.phase.hasEnded)) ∧ ∀ id, s.calls (id + 2) = none) ∧
        s.db.blocks "block" = some ⟨"project", .IN_PROGRESS, 1⟩ ∧
          computeDiscoveryBlockStatus (s.db.itemsOf "block") = .COMPLETED :=
    ⟨_, rfl, ⟨by decide, fun id => rfl⟩, by decide, by decide⟩
  obtain ⟨s, hrun, ⟨hcalls, hnone⟩, hrow, hstatus⟩ := hend
  have hright := hall twoItems twoItems_tablesOk twoItems_settled _ s hrun (atRest_of_two hcalls hnone) "block" _ hrow
  rw [hstatus] at hright
  cases hright

theorem nothingLost_of_ne_abort {s : State} {label : Label} (h : ∀ id, label ≠ .abort id) : s.NothingLost label :=
  fun id _ _ _ _ hlabel => absurd hlabel (h id)

/-- When both have read the same items, the failure of the second one loses nothing. -/
theorem nothingLost_bothChecked :
    Runs.Along State.step NothingLost (initial twoItems) (bothChecked false ++ [.abort 1]) := by
  refine .concat (.of_forall (fun label hmem s => nothingLost_of_ne_abort ?_) _) fun s hrun => ?_
  · have hall : ∀ label ∈ bothChecked false, ∀ id, label ≠ .abort id := by
      simp only [bothChecked, List.cons_append, List.nil_append, Bool.false_eq_true, if_false, List.forall_mem_cons, ne_eq,
        reduceCtorEq, not_false_eq_true, implies_true, List.not_mem_nil, false_implies, and_self]
    exact hall label hmem
  · have hend : ∃ s, Runs.run State.step (initial twoItems) (bothChecked false) = some s ∧
        s.db.blocks "block" = some ⟨"project", .COMPLETED, 1⟩ ∧ computeDiscoveryBlockStatus (s.db.itemsOf "block") = .COMPLETED ∧
          (s.calls 0).all (·.phase.hasEnded) ∧ (s.calls 1).all (·.discoveryBlockId = "block") ∧
            ∀ id, s.calls (id + 2) = none :=
      ⟨_, rfl, by decide, by decide, by decide, by decide, fun id => rfl⟩
    obtain ⟨_, hend, hrow, hstatus, hfirst, hsecond, hnone⟩ := hend
    obtain rfl := Option.some.inj (hrun.symm.trans hend)
    intro id call item items version hlabel hcall hphase
    obtain rfl : 1 = id := Label.abort.inj hlabel
    rw [hcall, Option.all_some, decide_eq_true_eq] at hsecond
    rw [hsecond]
    refine .inr ⟨fun row hrow' => ?_, fun other hne => ?_⟩
    · obtain rfl := Option.some.inj (hrow.symm.trans hrow')
      exact hstatus.symm
    · rintro ⟨call', row, item', items', hcall', -, -, hopen⟩
      cases other with
      | zero =>
          rw [hcall', Option.all_some, hopen] at hfirst
          cases hfirst
      | succ other =>
          cases other with
          | zero => exact hne rfl
          | succ later => cases (hnone later).symm.trans hcall'

theorem status_right_of_bothChecked : ∃ s,
    Runs.run State.step (initial twoItems) (bothChecked false ++ [.abort 1]) = some s ∧
      s.calls 1 = some ⟨"project", "block", .update "second" ⟨none, none, some true⟩, .ended (.error .transaction)⟩ ∧
        ∀ block, s.db.Settled block := by
  have hend : ∃ s, Runs.run State.step (initial twoItems) (bothChecked false ++ [.abort 1]) = some s ∧
      ((∀ id, id < 2 → (s.calls id).all (·.phase.hasEnded)) ∧ ∀ id, s.calls (id + 2) = none) ∧
        s.calls 1 = some ⟨"project", "block", .update "second" ⟨none, none, some true⟩, .ended (.error .transaction)⟩ :=
    ⟨_, rfl, ⟨by decide, fun id => rfl⟩, by decide⟩
  obtain ⟨s, hrun, ⟨hcalls, hnone⟩, hfailed⟩ := hend
  exact ⟨s, hrun, hfailed, status_right_of_nothing_lost twoItems twoItems_tablesOk twoItems_settled _ s hrun
    nothingLost_bothChecked (atRest_of_two hcalls hnone)⟩

end State

end Transcendence.Discovery
