import Transcendence.Evaluation.Sections

/-!
# Completions are announced once

A request that has written its item decides from the section it has read whether it notifies. Its
write may complete the section in truth and not in that reading, or the other way round, when others
have written the section in between. As long as no request is overtaken in that way, what it decides
is what its write has done, so the requests that notify are the ones that complete a section, each
of them once.
-/

namespace Transcendence.Evaluation

def Phase.existing : Phase → Option EvaluationChecklistItem
  | .guarded existingItem => existingItem
  | .read existingItem _ => some existingItem
  | _ => none

/-- The request has not written its item. -/
def Phase.isOpen : Phase → Bool
  | .written .. => false
  | .ended _ => false
  | _ => true

theorem Phase.not_hasEnded {phase : Phase} (h : phase.isOpen) : ¬phase.hasEnded := by
  cases phase with
  | ended result => cases h
  | _ => exact Bool.false_ne_true

/-- The item a request is about. -/
def Operation.itemId : Operation → Option ItemId
  | .create _ => none
  | .update id _ => some id
  | .remove id => some id

/-- What a call relies on: its item stays in its section, and no section it has seen is too long. -/
structure CallOk (items : Items) (issued : List ItemId) (call : Call) : Prop where
  owned : ∀ existingItem itemId, call.phase.existing = some existingItem → call.operation.itemId = some itemId →
    itemId ∈ issued ∧ OwnedBy items itemId call.projectId existingItem.itemSection
  counted : ∀ existingItems, call.phase = .counted existingItems →
    existingItems.length < EVALUATION_CHECKLIST_MAX_ITEMS_PER_SECTION
  read : ∀ existingItem items, call.phase = .read existingItem items →
    items.length ≤ EVALUATION_CHECKLIST_MAX_ITEMS_PER_SECTION

structure TablesOk (items : Items) (issued : List ItemId) : Prop where
  keys : OrderedMap.UniqueKeys items
  issued : ∀ entry ∈ items, entry.1 ∈ issued
  short : ∀ projectId itemSection,
    (sectionItems items projectId itemSection).length ≤ EVALUATION_CHECKLIST_MAX_ITEMS_PER_SECTION

/-- The call has completed a section if it has decided to notify, and has notified if it has
completed one and ended. -/
structure Recorded (completions : List Completion) (announcements : List Announcement) (id : Nat) (call : Call) : Prop where
  unwritten : call.phase.isOpen → ∀ c ∈ completions, c.call ≠ id
  unannounced : ¬call.phase.hasEnded → ∀ a ∈ announcements, a.completion.call ≠ id
  decided : ∀ existingItem items currentItems result, call.phase = .written existingItem items currentItems result →
    sectionJustCompleted (computeSectionPercent items) currentItems →
      ⟨id, call.projectId, existingItem.itemSection⟩ ∈ completions
  completed : ∀ existingItem items currentItems result, call.phase = .written existingItem items currentItems result →
    ∀ c ∈ completions, c.call = id →
      c = ⟨id, call.projectId, existingItem.itemSection⟩ ∧ sectionJustCompleted (computeSectionPercent items) currentItems
  announced : call.phase.hasEnded → ∀ c ∈ completions, c.call = id → ∃ a ∈ announcements, a.completion = c

variable {s t : State} {id : Nat} {call : Call}

/-! ### One call -/

theorem CallOk.mono {items items' : Items} {issued issued' : List ItemId} (h : CallOk items issued call)
    (hissued : issued ⊆ issued')
    (howned : ∀ itemId ∈ issued, ∀ projectId itemSection,
      OwnedBy items itemId projectId itemSection → OwnedBy items' itemId projectId itemSection) :
    CallOk items' issued' call where
  owned existingItem itemId hexisting hitem := by
    obtain ⟨hmem, hbefore⟩ := h.owned existingItem itemId hexisting hitem
    exact ⟨hissued hmem, howned itemId hmem _ _ hbefore⟩
  counted := h.counted
  read := h.read

/-- What another call completes or announces leaves the records of a call. -/
theorem Recorded.append {completions completed : List Completion} {announcements announced : List Announcement}
    (h : Recorded completions announcements id call) (hcompleted : ∀ c ∈ completed, c.call ≠ id)
    (hannounced : ∀ a ∈ announced, a.completion.call ≠ id) :
    Recorded (completions ++ completed) (announcements ++ announced) id call where
  unwritten hopen c hmem := (List.mem_append.mp hmem).elim (h.unwritten hopen c) (hcompleted c)
  unannounced hended a hmem := (List.mem_append.mp hmem).elim (h.unannounced hended a) (hannounced a)
  decided existingItem items currentItems result hphase hdecides :=
    List.mem_append_left _ (h.decided existingItem items currentItems result hphase hdecides)
  completed existingItem items currentItems result hphase c hmem hid :=
    (List.mem_append.mp hmem).elim (fun hold => h.completed existingItem items currentItems result hphase c hold hid)
      fun hnew => absurd hid (hcompleted c hnew)
  announced hended c hmem hid := by
    rcases List.mem_append.mp hmem with hold | hnew
    · obtain ⟨a, ha, hc⟩ := h.announced hended c hold hid
      exact ⟨a, List.mem_append_left _ ha, hc⟩
    · exact absurd hid (hcompleted c hnew)

namespace State

structure CompletionInv (s : State) : Prop where
  tables : TablesOk s.items s.issued
  calls : ∀ id call, s.calls id = some call → CallOk s.items s.issued call
  recorded : ∀ id call, s.calls id = some call → Recorded s.completions s.announcements id call
  known : ∀ c ∈ s.completions, (s.calls c.call).isSome
  completedOnce : (s.completions.map (·.call)).Nodup
  announcedOnce : (s.announcements.map (·.completion)).Nodup
  sound : ∀ a ∈ s.announcements, a.completion ∈ s.completions

/-- A step of one call, which may write the items, complete a section and notify. -/
theorem CompletionInv.move (h : s.CompletionInv) {items : Items} {issued : List ItemId} (completed : List Completion)
    (announced : List Announcement) (htables : TablesOk items issued) (hissued : s.issued ⊆ issued)
    (howned : ∀ itemId ∈ s.issued, ∀ projectId itemSection,
      OwnedBy s.items itemId projectId itemSection → OwnedBy items itemId projectId itemSection)
    (hcall : CallOk items issued call)
    (hcompleted : ∀ c ∈ completed, c.call = id) (hannounced : ∀ a ∈ announced, a.completion.call = id)
    (hrecorded : Recorded (s.completions ++ completed) (s.announcements ++ announced) id call)
    (hcompletedOnce : ((s.completions ++ completed).map (·.call)).Nodup)
    (hannouncedOnce : ((s.announcements ++ announced).map (·.completion)).Nodup)
    (hsound : ∀ a ∈ announced, a.completion ∈ s.completions ++ completed) :
    CompletionInv { s with
      calls := Function.update s.calls id (some call), items, issued,
      completions := s.completions ++ completed, announcements := s.announcements ++ announced } where
  tables := htables
  calls other found hfound := by
    simp only [Function.update_apply] at hfound
    split at hfound
    · cases hfound
      exact hcall
    · exact (h.calls other found hfound).mono hissued howned
  recorded other found hfound := by
    simp only [Function.update_apply] at hfound
    split at hfound
    · next heq =>
        cases hfound
        rwa [heq]
    · next heq =>
        refine (h.recorded other found hfound).append (fun c hmem hid => ?_) fun a hmem hid => ?_
        · exact heq (hid.symm.trans (hcompleted c hmem))
        · exact heq (hid.symm.trans (hannounced a hmem))
  known c hmem := by
    simp only [Function.update_apply]
    split
    · rfl
    · next heq =>
        exact (List.mem_append.mp hmem).elim (h.known c) fun hnew => absurd (hcompleted c hnew) heq
  completedOnce := hcompletedOnce
  announcedOnce := hannouncedOnce
  sound a hmem := (List.mem_append.mp hmem).elim (fun hold => List.mem_append_left _ (h.sound a hold)) (hsound a)

/-! ### Before the write -/

/-- A call that has not written its item goes on without completing a section, or fails. -/
theorem CompletionInv.advance (h : s.CompletionInv) (hcall : s.calls id = some call) (hopen : call.phase.isOpen)
    {phase : Phase} (hphase : phase.isOpen ∨ phase.hasEnded) {items : Items} {issued : List ItemId}
    (htables : TablesOk items issued) (hissued : s.issued ⊆ issued)
    (howned : ∀ itemId ∈ s.issued, ∀ projectId itemSection,
      OwnedBy s.items itemId projectId itemSection → OwnedBy items itemId projectId itemSection)
    (hok : CallOk items issued { call with phase }) : CompletionInv { s.setPhase id call phase with items, issued } := by
  have hbefore := h.recorded id call hcall
  have hunwritten := hbefore.unwritten hopen
  have hrunning := Phase.not_hasEnded hopen
  have hnotWritten : ∀ existingItem read current result, phase ≠ .written existingItem read current result := by
    rintro existingItem read current result rfl
    rcases hphase with hcase | hcase <;> cases hcase
  have hrecorded : Recorded s.completions s.announcements id { call with phase } :=
    ⟨fun _ => hunwritten, fun _ => hbefore.unannounced hrunning,
      fun existingItem read current result heq => absurd heq (hnotWritten existingItem read current result),
      fun existingItem read current result heq => absurd heq (hnotWritten existingItem read current result),
      fun _ c hmem hid => absurd hid (hunwritten c hmem)⟩
  have hmove := h.move [] [] htables hissued howned hok nofun nofun
    (by simpa only [List.append_nil] using hrecorded) (by simpa only [List.append_nil] using h.completedOnce)
    (by simpa only [List.append_nil] using h.announcedOnce) nofun
  simp only [List.append_nil] at hmove
  exact hmove

theorem CompletionInv.setPhase (h : s.CompletionInv) (hcall : s.calls id = some call) (hopen : call.phase.isOpen)
    {phase : Phase} (hphase : phase.isOpen ∨ phase.hasEnded) (hok : CallOk s.items s.issued { call with phase }) :
    (s.setPhase id call phase).CompletionInv :=
  h.advance hcall hopen hphase h.tables (List.Subset.refl _) (fun _ _ _ _ howned => howned) hok

theorem callOk_ended {items : Items} {issued : List ItemId} (result : Except Error EvaluationChecklistItem) :
    CallOk items issued { call with phase := .ended result } := ⟨fun _ _ h => (by cases h), nofun, nofun⟩

theorem CompletionInv.begin (h : s.CompletionInv) {projectId : ProjectId} {userId : UserId} {operation : Operation}
    (hstep : s.begin id projectId userId operation = some t) : t.CompletionInv := by
  rw [State.begin, Option.ite_none_left_eq_some] at hstep
  obtain ⟨hfresh, hstep⟩ := hstep
  cases hstep
  have hnone : ∀ c ∈ s.completions, c.call ≠ id := by
    rintro c hmem rfl
    exact hfresh (h.known c hmem)
  have hrecorded : Recorded s.completions s.announcements id ⟨projectId, userId, operation, .begun⟩ :=
    ⟨fun _ => hnone, fun _ a hmem => hnone _ (h.sound a hmem), nofun, nofun, nofun⟩
  have hok : CallOk s.items s.issued ⟨projectId, userId, operation, .begun⟩ := ⟨fun _ _ h => (by cases h), nofun, nofun⟩
  have hmove := h.move [] [] h.tables (List.Subset.refl _) (fun _ _ _ _ howned => howned) hok nofun nofun
    (by simpa only [List.append_nil] using hrecorded) (by simpa only [List.append_nil] using h.completedOnce)
    (by simpa only [List.append_nil] using h.announcedOnce) nofun
  simp only [List.append_nil] at hmove
  exact hmove

theorem ownedBy_of_findById (h : s.CompletionInv) {projectId : ProjectId} {itemId : ItemId} {item : EvaluationChecklistItem}
    (hfound : s.findById projectId itemId = .ok item) :
    itemId ∈ s.issued ∧ OwnedBy s.items itemId projectId item.itemSection := by
  rw [findById] at hfound
  split at hfound
  · cases hfound
  · next found hget =>
      cases hfound
      obtain ⟨hget, hproject⟩ := Option.filter_eq_some_iff.mp hget
      refine ⟨h.tables.issued _ (OrderedMap.mem_of_get hget), fun entry hmem hkey => ?_⟩
      have hsame := OrderedMap.get_of_mem h.tables.keys hmem
      rw [hkey, hget] at hsame
      rw [← Option.some.inj hsame]
      exact ⟨of_decide_eq_true hproject, rfl⟩

theorem CompletionInv.guard (h : s.CompletionInv) (hstep : s.guard id = some t) : t.CompletionInv := by
  simp only [State.guard, Option.map_eq_some_iff, Option.filter_eq_some_iff, decide_eq_true_eq] at hstep
  obtain ⟨call, ⟨hcall, hbegun⟩, rfl⟩ := hstep
  have hopen : call.phase.isOpen := by
    rw [hbegun]
    rfl
  cases haccess : s.access call with
  | error error => exact h.setPhase hcall hopen (.inr rfl) (callOk_ended _)
  | ok existing =>
      refine h.setPhase hcall hopen (.inl rfl) ⟨fun existingItem itemId hexisting hitem => ?_, nofun, nofun⟩
      obtain rfl : existing = some existingItem := hexisting
      have hfound : (s.findById call.projectId itemId).map some = .ok (some existingItem) := by
        rw [access] at haccess
        split at haccess
        · cases haccess
        · cases hoperation : call.operation with
          | create dto =>
              rw [hoperation] at hitem
              cases hitem
          | update found dto | remove found =>
              rw [hoperation] at haccess hitem
              obtain rfl := Option.some.inj hitem
              exact haccess
      cases hitem : s.findById call.projectId itemId with
      | error error =>
          rw [hitem] at hfound
          cases hfound
      | ok item =>
          rw [hitem] at hfound
          cases hfound
          exact ownedBy_of_findById h hitem

theorem CompletionInv.count (h : s.CompletionInv) (hstep : s.count id = some t) : t.CompletionInv := by
  rw [State.count, Option.bind_eq_some_iff] at hstep
  obtain ⟨call, hcall, hstep⟩ := hstep
  split at hstep
  · next existing dto hguarded _ =>
      have hopen : call.phase.isOpen := by
        rw [hguarded]
        rfl
      cases hstep
      split
      · exact h.setPhase hcall hopen (.inr rfl) (callOk_ended _)
      · next hfew =>
          refine h.setPhase hcall hopen (.inl rfl) ⟨fun _ _ h => (by cases h), fun existingItems hcounted => ?_, nofun⟩
          obtain rfl := Phase.counted.inj hcounted
          exact Nat.lt_of_not_le hfew
  · cases hstep

theorem CompletionInv.read (h : s.CompletionInv) (hstep : s.read id = some t) : t.CompletionInv := by
  rw [State.read, Option.bind_eq_some_iff] at hstep
  obtain ⟨call, hcall, hstep⟩ := hstep
  split at hstep
  · cases hstep
  · next existingItem hguarded _ =>
      cases hstep
      refine h.setPhase hcall (by rw [hguarded]; rfl) (.inl rfl) ⟨fun found itemId hexisting hitem => ?_, nofun, ?_⟩
      · obtain rfl := Option.some.inj hexisting
        exact (h.calls id call hcall).owned existingItem itemId (by rw [hguarded]; rfl) hitem
      · intro found items hread
        rw [← (Phase.read.inj hread).2]
        exact h.tables.short _ _
  · cases hstep

theorem CompletionInv.abort (h : s.CompletionInv) (hstep : s.abort id = some t) : t.CompletionInv := by
  rw [State.abort, Option.bind_eq_some_iff] at hstep
  obtain ⟨call, hcall, hstep⟩ := hstep
  split at hstep
  · next existing hcounted =>
      cases hstep
      exact h.setPhase hcall (by rw [hcounted]; rfl) (.inr rfl) (callOk_ended _)
  · cases hstep

theorem CompletionInv.insert (h : s.CompletionInv) {itemId : ItemId} (hstep : s.insert id itemId = some t) :
    t.CompletionInv := by
  rw [State.insert, Option.bind_eq_some_iff] at hstep
  obtain ⟨call, hcall, hstep⟩ := hstep
  split at hstep
  · next existingItems dto hcounted _ =>
      rw [Option.ite_none_left_eq_some] at hstep
      obtain ⟨hfree, hstep⟩ := hstep
      rw [not_or, not_not] at hfree
      obtain ⟨hfresh, hcounts⟩ := hfree
      cases hstep
      have hnew : ∀ entry ∈ s.items, entry.1 ≠ itemId := by
        rintro entry hmem rfl
        exact hfresh (h.tables.issued entry hmem)
      refine h.advance hcall (by rw [hcounted]; rfl) (.inr rfl) ⟨OrderedMap.uniqueKeys_set h.tables.keys .., ?_, ?_⟩
        (List.subset_cons_self ..) ?_ (callOk_ended _)
      · intro entry hmem
        rcases OrderedMap.mem_of_mem_set hmem with hold | rfl
        · exact List.mem_cons_of_mem _ (h.tables.issued entry hold)
        · exact List.mem_cons_self
      · intro projectId itemSection
        rw [sectionItems_set_new hnew, List.length_append]
        split
        · next hsection =>
            -- the transaction has counted the items that are there
            obtain ⟨rfl, rfl⟩ := hsection
            have hfew := (h.calls id call hcall).counted existingItems hcounted
            have hlength := ((nodup_sectionItems h.tables.keys).subperm hcounts).length_le
            rw [List.length_map, List.length_map] at hlength
            exact Nat.succ_le_of_lt (hlength.trans_lt hfew)
        · exact h.tables.short projectId itemSection
      · intro other hother projectId itemSection howned entry hmem hkey
        rcases OrderedMap.mem_of_mem_set hmem with hold | rfl
        · exact howned entry hold hkey
        · obtain rfl : itemId = other := hkey
          exact absurd hother hfresh
  · cases hstep

/-! ### The write -/

/-- The write of a request that decides to notify if and only if the write completes the section. -/
theorem CompletionInv.writeItems (h : s.CompletionInv) (hcall : s.calls id = some call)
    {existingItem result : EvaluationChecklistItem} {read current : List SectionItem} {items : Items}
    (hread : call.phase = .read existingItem read) (htables : TablesOk items s.issued)
    (howned : ∀ itemId ∈ s.issued, ∀ projectId itemSection,
      OwnedBy s.items itemId projectId itemSection → OwnedBy items itemId projectId itemSection)
    (hjudged : sectionJustCompleted (computeSectionPercent read) current ↔
      Completes s.items items call.projectId existingItem.itemSection) :
    (s.writeItems id call existingItem.itemSection items (.written existingItem read current result)).CompletionInv := by
  have hopen : call.phase.isOpen := by
    rw [hread]
    rfl
  have hbefore := h.recorded id call hcall
  have hunwritten := hbefore.unwritten hopen
  have hunannounced := hbefore.unannounced (Phase.not_hasEnded hopen)
  set completed := if Completes s.items items call.projectId existingItem.itemSection then
    [(⟨id, call.projectId, existingItem.itemSection⟩ : Completion)] else [] with hcompleted
  have hmem : ∀ c, c ∈ completed ↔
      c = ⟨id, call.projectId, existingItem.itemSection⟩ ∧ Completes s.items items call.projectId existingItem.itemSection := by
    intro c
    rw [hcompleted]
    split
    · next hyes => rw [List.mem_singleton, and_iff_left hyes]
    · next hno => exact iff_of_false nofun fun hc => hno hc.2
  have hids : ∀ c ∈ completed, c.call = id := fun c hc => by rw [((hmem c).mp hc).1]
  have hrecorded : Recorded (s.completions ++ completed) s.announcements id
      { call with phase := .written existingItem read current result } := by
    refine ⟨nofun, fun _ => hunannounced, fun _ _ _ _ hphase hdecides => ?_, fun _ _ _ _ hphase c hc hid => ?_, nofun⟩
    · obtain ⟨rfl, rfl, rfl, -⟩ := Phase.written.inj hphase
      exact List.mem_append_right _ ((hmem _).mpr ⟨rfl, hjudged.mp hdecides⟩)
    · obtain ⟨rfl, rfl, rfl, -⟩ := Phase.written.inj hphase
      rcases List.mem_append.mp hc with hold | hnew
      · exact absurd hid (hunwritten c hold)
      · exact ⟨((hmem c).mp hnew).1, hjudged.mpr ((hmem c).mp hnew).2⟩
  have honce : ((s.completions ++ completed).map (·.call)).Nodup := by
    rw [List.map_append, List.nodup_append]
    refine ⟨h.completedOnce, ?_, ?_⟩
    · rw [hcompleted]
      split
      · exact List.nodup_singleton _
      · exact List.nodup_nil
    · intro first hfirst second hsecond
      obtain ⟨c, hc, rfl⟩ := List.mem_map.mp hfirst
      obtain ⟨d, hd, rfl⟩ := List.mem_map.mp hsecond
      rw [hids d hd]
      exact hunwritten c hc
  have hok : CallOk items s.issued { call with phase := .written existingItem read current result } :=
    ⟨fun _ _ h => (by cases h), nofun, nofun⟩
  have hmove := h.move completed [] htables (List.Subset.refl _) howned hok hids nofun
    (by simpa only [List.append_nil] using hrecorded) honce (by simpa only [List.append_nil] using h.announcedOnce) nofun
  simp only [List.append_nil] at hmove
  exact hmove

theorem CompletionInv.write (h : s.CompletionInv) (hclear : s.NotOvertaken (.write id)) (hstep : s.write id = some t) :
    t.CompletionInv := by
  rw [State.write, Option.bind_eq_some_iff] at hstep
  obtain ⟨call, hcall, hstep⟩ := hstep
  split at hstep
  · next existingItem read itemId dto hread hupdate =>
      have hcallOk := h.calls id call hcall
      have hlength := hcallOk.read existingItem read hread
      obtain ⟨hissued, howned⟩ := hcallOk.owned existingItem itemId (by rw [hread]; rfl) (by rw [hupdate]; rfl)
      split at hstep
      · cases hstep
        exact h.setPhase hcall (by rw [hread]; rfl) (.inr rfl) (callOk_ended _)
      · next item hget =>
          cases hstep
          have hfound : (itemId, item) ∈ s.items := OrderedMap.mem_of_get hget
          have hproject : (dto.apply item).projectId = call.projectId := (howned _ hfound rfl).1
          have hsection : (dto.apply item).itemSection = existingItem.itemSection := (howned _ hfound rfl).2
          have hsome : (OrderedMap.get s.items itemId).isSome := by
            rw [hget]
            rfl
          have hset := sectionItems_set howned hsome hproject hsection
          refine h.writeItems hcall hread ⟨OrderedMap.uniqueKeys_set h.tables.keys .., ?_, ?_⟩ ?_ ?_
          · intro entry hmem
            rcases OrderedMap.mem_of_mem_set hmem with hold | rfl
            · exact h.tables.issued entry hold
            · exact hissued
          · intro projectId itemSection
            by_cases heq : call.projectId = projectId ∧ existingItem.itemSection = itemSection
            · obtain ⟨rfl, rfl⟩ := heq
              rw [hset, setChecked, List.length_map]
              exact h.tables.short _ _
            · rw [sectionItems_set_other howned hproject hsection heq]
              exact h.tables.short _ _
          · intro other hother projectId itemSection hothers entry hmem hkey
            rcases OrderedMap.mem_of_mem_set hmem with hold | rfl
            · exact hothers entry hold hkey
            · exact hothers (itemId, item) hfound hkey
          · rw [sectionJustCompleted_iff hlength (by rw [List.length_map]; exact hlength), Completes, hset]
            show ¬IsComplete read ∧ IsComplete (setChecked read itemId _) ↔ _
            rw [isComplete_setChecked, isComplete_setChecked]
            refine and_congr_right fun hchecked => ?_
            exact (hclear id call existingItem read rfl hcall hread).1 itemId dto item hupdate hget hchecked
  · next existingItem read itemId hread hremove =>
      have hcallOk := h.calls id call hcall
      have hlength := hcallOk.read existingItem read hread
      obtain ⟨hissued, howned⟩ := hcallOk.owned existingItem itemId (by rw [hread]; rfl) (by rw [hremove]; rfl)
      cases hstep
      refine h.writeItems hcall hread ⟨OrderedMap.uniqueKeys_delete h.tables.keys _, ?_, ?_⟩ ?_ ?_
      · exact fun entry hmem => h.tables.issued entry (OrderedMap.mem_of_mem_delete hmem)
      · intro projectId itemSection
        rw [sectionItems_delete]
        exact (List.length_filter_le ..).trans (h.tables.short _ _)
      · exact fun other hother projectId itemSection hothers entry hmem =>
          hothers entry (OrderedMap.mem_of_mem_delete hmem)
      · rw [sectionJustCompleted_iff hlength ((List.length_filter_le ..).trans hlength), Completes, sectionItems_delete,
          isComplete_filter, isComplete_filter]
        exact (hclear id call existingItem read rfl hcall hread).2 itemId hremove
  · cases hstep

/-! ### The notification -/

theorem CompletionInv.notify (h : s.CompletionInv) (hstep : s.notify id = some t) : t.CompletionInv := by
  rw [State.notify, Option.bind_eq_some_iff] at hstep
  obtain ⟨call, hcall, hstep⟩ := hstep
  split at hstep
  · next existingItem read current result hwritten =>
      cases hstep
      have hbefore := h.recorded id call hcall
      have hunannounced : ∀ a ∈ s.announcements, a.completion.call ≠ id :=
        hbefore.unannounced (by rw [hwritten]; exact Bool.false_ne_true)
      set completion : Completion := ⟨id, call.projectId, existingItem.itemSection⟩
      set announced := if sectionJustCompleted (computeSectionPercent read) current then
        [(⟨completion, s.notifications call.projectId existingItem.itemSection call.userId⟩ : Announcement)]
        else [] with hannounced
      have hcompletion : ∀ a ∈ announced, a.completion = completion ∧ completion ∈ s.completions := by
        intro a ha
        rw [hannounced] at ha
        split at ha
        · next hdecides =>
            rw [List.mem_singleton.mp ha]
            exact ⟨rfl, hbefore.decided existingItem read current result hwritten hdecides⟩
        · cases ha
      have hids : ∀ a ∈ announced, a.completion.call = id := fun a ha => by rw [(hcompletion a ha).1]
      have hrecorded : Recorded s.completions (s.announcements ++ announced) id { call with phase := .ended (.ok result) } := by
        refine ⟨nofun, fun hrunning => absurd rfl hrunning, nofun, nofun, fun _ c hc hid => ?_⟩
        obtain ⟨rfl, hdecides⟩ := hbefore.completed existingItem read current result hwritten c hc hid
        refine ⟨⟨completion, s.notifications call.projectId existingItem.itemSection call.userId⟩,
          List.mem_append_right _ ?_, rfl⟩
        rw [hannounced, if_pos hdecides]
        exact List.mem_singleton_self _
      have honce : ((s.announcements ++ announced).map (·.completion)).Nodup := by
        rw [List.map_append, List.nodup_append]
        refine ⟨h.announcedOnce, ?_, ?_⟩
        · rw [hannounced]
          split
          · exact List.nodup_singleton _
          · exact List.nodup_nil
        · intro first hfirst second hsecond heq
          obtain ⟨a, ha, rfl⟩ := List.mem_map.mp hfirst
          obtain ⟨b, hb, rfl⟩ := List.mem_map.mp hsecond
          exact hunannounced a ha (by rw [heq, hids b hb])
      have hok : CallOk s.items s.issued { call with phase := .ended (.ok result) } := callOk_ended _
      have hmove := h.move [] announced h.tables (List.Subset.refl _) (fun _ _ _ _ howned => howned)
        hok nofun hids (by simpa only [List.append_nil] using hrecorded)
        (by simpa only [List.append_nil] using h.completedOnce) honce
        fun a ha => by rw [List.append_nil, (hcompletion a ha).1]; exact (hcompletion a ha).2
      simp only [List.append_nil] at hmove
      exact hmove
  · cases hstep

/-! ### What a step completes and announces -/

/-- The sections a step completes are the ones it remembers, and what it announces goes to every
member of the project but the user of the request. -/
structure Told (s t : State) : Prop where
  completions : ∀ projectId itemSection, Completes s.items t.items projectId itemSection ↔
    ∃ id, t.completions = s.completions ++ [⟨id, projectId, itemSection⟩]
  announcements : ∀ a, t.announcements = s.announcements ++ [a] → ∃ call, s.calls a.completion.call = some call ∧
    call.projectId = a.completion.projectId ∧
      a.notifications = s.notifications a.completion.projectId a.completion.itemSection call.userId

theorem not_completes {before after : Items} {projectId : ProjectId} {itemSection : EvaluationChecklistItemSection}
    (h : sectionItems after projectId itemSection = sectionItems before projectId itemSection) :
    ¬Completes before after projectId itemSection := by
  rw [Completes, h]
  exact fun hboth => hboth.1 hboth.2

/-- A step that completes nothing and announces nothing. -/
theorem Told.of_silent (hcompletes : ∀ projectId itemSection, ¬Completes s.items t.items projectId itemSection)
    (hcompletions : t.completions = s.completions) (hannouncements : t.announcements = s.announcements) : Told s t where
  completions projectId itemSection := by
    refine iff_of_false (hcompletes projectId itemSection) ?_
    rintro ⟨id, hid⟩
    rw [hcompletions, List.self_eq_append_right] at hid
    cases hid
  announcements a ha := by
    rw [hannouncements, List.self_eq_append_right] at ha
    cases ha

theorem Told.of_same_items (hitems : t.items = s.items) (hcompletions : t.completions = s.completions)
    (hannouncements : t.announcements = s.announcements) : Told s t :=
  .of_silent (fun _ _ => not_completes (by rw [hitems])) hcompletions hannouncements

theorem Told.insert (h : s.CompletionInv) {itemId : ItemId} (hstep : s.insert id itemId = some t) : Told s t := by
  rw [State.insert, Option.bind_eq_some_iff] at hstep
  obtain ⟨call, hcall, hstep⟩ := hstep
  split at hstep
  · next existingItems dto hcounted _ =>
      rw [Option.ite_none_left_eq_some] at hstep
      obtain ⟨hfree, hstep⟩ := hstep
      rw [not_or] at hfree
      cases hstep
      have hnew : ∀ entry ∈ s.items, entry.1 ≠ itemId := by
        rintro entry hmem rfl
        exact hfree.1 (h.tables.issued entry hmem)
      refine .of_silent (fun projectId itemSection hcompletes => ?_) rfl rfl
      set item : EvaluationChecklistItem := ⟨call.projectId, dto.label, false, dto.order, dto.itemSection⟩
      have hsection : sectionItems (OrderedMap.set s.items itemId item) projectId itemSection =
          sectionItems s.items projectId itemSection ++ _ := sectionItems_set_new hnew
      split at hsection
      · -- the new item is not checked
        have hchecked := hcompletes.2.2 ⟨itemId, false⟩ (by rw [hsection]; exact List.mem_append_right _ (List.mem_singleton_self _))
        cases hchecked
      · rw [List.append_nil] at hsection
        exact not_completes hsection hcompletes
  · cases hstep

theorem Told.writeItems {itemSection : EvaluationChecklistItemSection} {items : Items} {phase : Phase}
    (hothers : ∀ projectId other, ¬(call.projectId = projectId ∧ itemSection = other) →
      sectionItems items projectId other = sectionItems s.items projectId other) :
    Told s (s.writeItems id call itemSection items phase) where
  completions projectId other := by
    show _ ↔ ∃ client, s.completions ++ _ = _
    by_cases heq : call.projectId = projectId ∧ itemSection = other
    · obtain ⟨rfl, rfl⟩ := heq
      split
      · next hyes => exact iff_of_true hyes ⟨id, rfl⟩
      · next hno =>
          refine iff_of_false hno ?_
          rintro ⟨client, hclient⟩
          cases List.append_cancel_left hclient
    · refine iff_of_false (not_completes (hothers projectId other heq)) ?_
      rintro ⟨client, hclient⟩
      have hlast := List.append_cancel_left hclient
      split at hlast
      · cases hlast
        exact heq ⟨rfl, rfl⟩
      · cases hlast
  announcements a ha := by
    rw [show (s.writeItems id call itemSection items phase).announcements = s.announcements from rfl,
      List.self_eq_append_right] at ha
    cases ha

theorem Told.write (h : s.CompletionInv) (hstep : s.write id = some t) : Told s t := by
  rw [State.write, Option.bind_eq_some_iff] at hstep
  obtain ⟨call, hcall, hstep⟩ := hstep
  split at hstep
  · next existingItem read itemId dto hread hupdate =>
      obtain ⟨-, howned⟩ := (h.calls id call hcall).owned existingItem itemId (by rw [hread]; rfl) (by rw [hupdate]; rfl)
      split at hstep
      · cases hstep
        exact .of_same_items rfl rfl rfl
      · next item hget =>
          cases hstep
          obtain ⟨hproject, hsection⟩ := howned _ (OrderedMap.mem_of_get hget) rfl
          exact .writeItems fun projectId other hne => sectionItems_set_other howned hproject hsection hne
  · next existingItem read itemId hread hremove =>
      obtain ⟨-, howned⟩ := (h.calls id call hcall).owned existingItem itemId (by rw [hread]; rfl) (by rw [hremove]; rfl)
      cases hstep
      exact .writeItems fun projectId other hne => sectionItems_delete_other howned hne
  · cases hstep

theorem Told.notify (hstep : s.notify id = some t) : Told s t := by
  rw [State.notify, Option.bind_eq_some_iff] at hstep
  obtain ⟨call, hcall, hstep⟩ := hstep
  split at hstep
  · next existingItem read current result hwritten =>
      cases hstep
      have hsilent : Told s (s.setPhase id call (.ended (.ok result))) := .of_same_items rfl rfl rfl
      refine ⟨hsilent.completions, fun a ha => ?_⟩
      have hlast := List.append_cancel_left ha
      split at hlast
      · cases hlast
        exact ⟨call, hcall, rfl, rfl⟩
      · cases hlast
  · cases hstep

/-! ### Over whole runs -/

theorem CompletionInv.step (h : s.CompletionInv) {label : Label} (hclear : s.NotOvertaken label)
    (hstep : s.step label = some t) : t.CompletionInv := by
  cases label with
  | begin id projectId userId operation => exact h.begin hstep
  | guard id => exact h.guard hstep
  | count id => exact h.count hstep
  | insert id itemId => exact h.insert hstep
  | read id => exact h.read hstep
  | write id => exact h.write hclear hstep
  | notify id => exact h.notify hstep
  | abort id => exact h.abort hstep
  | setMembers projectId userIds =>
      cases hstep
      exact ⟨h.tables, h.calls, h.recorded, h.known, h.completedOnce, h.announcedOnce, h.sound⟩

theorem Told.of_step (h : s.CompletionInv) {label : Label} (hstep : s.step label = some t) : Told s t := by
  cases label with
  | begin id projectId userId operation =>
      obtain ⟨-, hstep⟩ := Option.ite_none_left_eq_some.mp hstep
      cases hstep
      exact .of_same_items rfl rfl rfl
  | guard id =>
      obtain ⟨call, -, rfl⟩ := Option.map_eq_some_iff.mp hstep
      exact .of_same_items rfl rfl rfl
  | count id | read id | abort id =>
      obtain ⟨call, -, hstep⟩ := Option.bind_eq_some_iff.mp hstep
      split at hstep <;> cases hstep
      exact .of_same_items rfl rfl rfl
  | insert id itemId => exact .insert h hstep
  | write id => exact .write h hstep
  | notify id => exact .notify hstep
  | setMembers projectId userIds =>
      cases hstep
      exact .of_same_items rfl rfl rfl

/-- The announcements are the completions whose requests are through, each of them once. -/
structure AnnouncedOnce (s : State) : Prop where
  completions : (s.completions.map (·.call)).Nodup
  announcements : (s.announcements.map (·.completion)).Nodup
  sound : ∀ a ∈ s.announcements, a.completion ∈ s.completions
  complete : ∀ c ∈ s.completions, c ∈ s.announcements.map (·.completion) ∨
    ∃ call, s.calls c.call = some call ∧ ¬call.phase.hasEnded

theorem CompletionInv.announcedOnce_of (h : s.CompletionInv) : s.AnnouncedOnce where
  completions := h.completedOnce
  announcements := h.announcedOnce
  sound := h.sound
  complete c hc := by
    obtain ⟨call, hcall⟩ := Option.isSome_iff_exists.mp (h.known c hc)
    by_cases hended : call.phase.hasEnded
    · obtain ⟨a, ha, heq⟩ := (h.recorded c.call call hcall).announced hended c hc rfl
      exact .inl (List.mem_map.mpr ⟨a, ha, heq⟩)
    · exact .inr ⟨call, hcall, hended⟩

theorem completionInv_initial {names : ProjectId → String} {members : ProjectId → List UserId} {items : Items}
    (hkeys : OrderedMap.UniqueKeys items)
    (hshort : ∀ projectId itemSection,
      (sectionItems items projectId itemSection).length ≤ EVALUATION_CHECKLIST_MAX_ITEMS_PER_SECTION) :
    (initial names members items).CompletionInv where
  tables := ⟨hkeys, fun entry hmem => List.mem_map_of_mem hmem, hshort⟩
  calls _ _ hcall := by cases hcall
  recorded _ _ hcall := by cases hcall
  known := nofun
  completedOnce := List.nodup_nil
  announcedOnce := List.nodup_nil
  sound := nofun

/-- In every run in which no request is overtaken. -/
theorem completions_announced_once (names : ProjectId → String) (members : ProjectId → List UserId) (items : Items)
    (hkeys : OrderedMap.UniqueKeys items)
    (hshort : ∀ projectId itemSection,
      (sectionItems items projectId itemSection).length ≤ EVALUATION_CHECKLIST_MAX_ITEMS_PER_SECTION)
    (labels : List Label) (s : State) (hrun : Runs.run State.step (initial names members items) labels = some s)
    (hclear : Runs.Along State.step NotOvertaken (initial names members items) labels) :
    s.AnnouncedOnce ∧ ∀ label t, s.step label = some t → Told s t := by
  have hinv : s.CompletionInv :=
    hclear.run (fun _ _ _ h hclear hstep => h.step hclear hstep) (completionInv_initial hkeys hshort) hrun
  exact ⟨hinv.announcedOnce_of, fun label t hstep => .of_step hinv hstep⟩

/-! Two members check the last two items of a section. -/

def twoItems : Items :=
  [("first", ⟨"project", "First", false, 0, .BONUS⟩), ("second", ⟨"project", "Second", false, 1, .BONUS⟩)]

theorem uniqueKeys_twoItems : OrderedMap.UniqueKeys twoItems := by
  rw [OrderedMap.UniqueKeys]
  decide

theorem twoItems_short (projectId : ProjectId) (itemSection : EvaluationChecklistItemSection) :
    (sectionItems twoItems projectId itemSection).length ≤ EVALUATION_CHECKLIST_MAX_ITEMS_PER_SECTION := by
  rw [sectionItems, List.length_map]
  exact (List.length_filter_le ..).trans (by decide)

def pair : State := initial (fun _ => "Project") (fun _ => ["alice", "bob"]) twoItems

/-- Each of them checks an item, and `bob` reads the section before `alice`'s check if `early`. -/
def bothChecked (early : Bool) : List Label :=
  [.begin 0 "project" "alice" (.update "first" ⟨none, none, some true⟩), .guard 0, .read 0,
    .begin 1 "project" "bob" (.update "second" ⟨none, none, some true⟩), .guard 1] ++
    (if early then [.read 1, .write 0] else [.write 0, .read 1]) ++ [.write 1, .notify 0, .notify 1]

instance (items : List SectionItem) (id : ItemId) : Decidable (OnlyUnchecked items id) :=
  inferInstanceAs (Decidable (_ ∧ _))

/-- Evaluates `NotOvertaken`. -/
def notOvertakenCheck (s : State) : Label → Bool
  | .write id =>
      (s.calls id).all fun call =>
        match call.phase, call.operation with
        | .read existingItem items, .update itemId dto =>
            (OrderedMap.get s.items itemId).all fun item =>
              !dto.isChecked.getD item.isChecked ||
                decide (OnlyUnchecked items itemId ↔
                  OnlyUnchecked (sectionItems s.items call.projectId existingItem.itemSection) itemId)
        | .read _ _, .remove _ => false
        | _, _ => true
  | _ => true

theorem notOvertaken_of_check (s : State) (label : Label) (h : notOvertakenCheck s label) : s.NotOvertaken label := by
  rintro id call existingItem items rfl hcall hread
  rw [notOvertakenCheck, hcall, Option.all_some, hread] at h
  refine ⟨fun itemId dto item hupdate hget hchecked => ?_, fun itemId hremove => ?_⟩
  · simp only [hupdate, hget, Option.all_some, hchecked, Bool.not_true, Bool.false_or, decide_eq_true_eq] at h
    exact h
  · simp only [hremove, Bool.false_eq_true] at h

theorem completions_announced_once_of_bothChecked : ∃ s, Runs.run State.step pair (bothChecked false) = some s ∧
    s.announcements = [⟨⟨1, "project", .BONUS⟩,
      [⟨"alice", "Bonus Part reached 100% on \"Project\"", "/project/evaluation-checklist"⟩]⟩] ∧
      s.AnnouncedOnce ∧ ∀ label t, s.step label = some t → Told s t := by
  have hend : ∃ s, Runs.run State.step pair (bothChecked false) = some s ∧
      s.announcements = [⟨⟨1, "project", .BONUS⟩,
        [⟨"alice", "Bonus Part reached 100% on \"Project\"", "/project/evaluation-checklist"⟩]⟩] := ⟨_, rfl, by decide⟩
  obtain ⟨s, hrun, hannounced⟩ := hend
  exact ⟨s, hrun, hannounced, completions_announced_once _ _ twoItems uniqueKeys_twoItems twoItems_short _ s hrun
    (.of_check notOvertaken_of_check (by decide +kernel))⟩

theorem not_completions_announced_once : ¬∀ (names : ProjectId → String) (members : ProjectId → List UserId) (items : Items),
    OrderedMap.UniqueKeys items →
    (∀ projectId itemSection,
      (sectionItems items projectId itemSection).length ≤ EVALUATION_CHECKLIST_MAX_ITEMS_PER_SECTION) →
    ∀ (labels : List Label) (s : State), Runs.run State.step (initial names members items) labels = some s →
      s.AnnouncedOnce := by
  intro hall
  have hend : (Runs.run State.step pair (bothChecked true)).map
      (fun s => (s.completions, s.announcements, (s.calls 1).all (·.phase.hasEnded))) =
        some ([⟨1, "project", .BONUS⟩], [], true) := by decide +kernel
  obtain ⟨s, hrun, hseen⟩ := Option.map_eq_some_iff.mp hend
  obtain ⟨hcompleted, hrest⟩ := Prod.mk.inj hseen
  obtain ⟨hannounced, hended⟩ := Prod.mk.inj hrest
  have honce := hall _ _ twoItems uniqueKeys_twoItems twoItems_short _ s hrun
  rcases honce.complete ⟨1, "project", .BONUS⟩ (by rw [hcompleted]; exact List.mem_singleton_self _) with
    hfound | ⟨call, hcall, hrunning⟩
  · rw [hannounced] at hfound
    cases hfound
  · rw [hcall, Option.all_some] at hended
    exact hrunning hended

end State

end Transcendence.Evaluation
