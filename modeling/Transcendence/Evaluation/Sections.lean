import Transcendence.Evaluation.ChecklistItems

/-!
# Sections of a checklist

What a write does to the section of its item and to the other sections, and when it completes the
section: a check does if the item is the only unchecked one, a removal if it is one of several and
the only unchecked one. The same goes for the section a request has read, which it patches in the
same way, and the percentages say the same as long as a section has no more than 50 items.
-/

namespace Transcendence.Evaluation

open State (OnlyUnchecked)

variable {items : List SectionItem} {id : ItemId}

/-! ### Percentages -/

theorem filter_isChecked_length_eq : (items.filter (·.isChecked)).length = items.length ↔ ∀ item ∈ items, item.isChecked :=
  List.length_filter_eq_length_iff

theorem computeSectionPercent_iff (hlength : items.length ≤ EVALUATION_CHECKLIST_MAX_ITEMS_PER_SECTION) :
    100 ≤ computeSectionPercent items ↔ IsComplete items := by
  have hchecked : (items.filter (·.isChecked)).length ≤ items.length := List.length_filter_le ..
  rw [EVALUATION_CHECKLIST_MAX_ITEMS_PER_SECTION] at hlength
  rw [IsComplete, ← filter_isChecked_length_eq, ne_eq, ← List.length_eq_zero_iff, computeSectionPercent]
  split
  · next hzero => simp only [hzero, not_true_eq_false, false_and, iff_false]; omega
  · next hpos =>
      rw [Nat.le_div_iff_mul_le (by omega)]
      omega

theorem sectionJustCompleted_iff {current : List SectionItem}
    (hlength : items.length ≤ EVALUATION_CHECKLIST_MAX_ITEMS_PER_SECTION)
    (hcurrent : current.length ≤ EVALUATION_CHECKLIST_MAX_ITEMS_PER_SECTION) :
    sectionJustCompleted (computeSectionPercent items) current ↔ ¬IsComplete items ∧ IsComplete current := by
  rw [← computeSectionPercent_iff hlength, ← computeSectionPercent_iff hcurrent, sectionJustCompleted]
  simp only [ge_iff_le, Bool.and_eq_true, Bool.not_eq_true', decide_eq_false_iff_not, not_le, not_lt]

/-! ### Writes of a section -/

/-- The section after the check mark of an item is set. -/
def setChecked (items : List SectionItem) (id : ItemId) (isChecked : Bool) : List SectionItem :=
  items.map fun item => if item.id = id then ⟨id, isChecked⟩ else item

/-- What is not complete has an unchecked item. -/
theorem exists_unchecked (h : ¬IsComplete items) (hne : items ≠ []) : ∃ item ∈ items, item.isChecked = false := by
  by_contra hnone
  refine h ⟨hne, fun item hmem => ?_⟩
  by_contra hunchecked
  exact hnone ⟨item, hmem, by simpa using hunchecked⟩

theorem OnlyUnchecked.not_isComplete (h : OnlyUnchecked items id) : ¬IsComplete items :=
  fun hcomplete => absurd (hcomplete.2 _ h.1) Bool.false_ne_true

theorem onlyUnchecked_of (h : ¬IsComplete items) (hne : items ≠ [])
    (hothers : ∀ item ∈ items, item.id ≠ id → item.isChecked) : OnlyUnchecked items id := by
  obtain ⟨⟨other, isChecked⟩, hmem, hunchecked⟩ := exists_unchecked h hne
  obtain rfl : isChecked = false := hunchecked
  have hid : other = id := by
    by_contra hid
    exact Bool.false_ne_true (hothers _ hmem hid)
  exact ⟨hid ▸ hmem, hothers⟩

theorem isComplete_setChecked {isChecked : Bool} :
    ¬IsComplete items ∧ IsComplete (setChecked items id isChecked) ↔ isChecked ∧ OnlyUnchecked items id := by
  constructor
  · rintro ⟨hbefore, hne, hafter⟩
    have hall : ∀ item ∈ items, if item.id = id then isChecked else item.isChecked := by
      intro item hmem
      have hchecked := hafter _ (List.mem_map_of_mem hmem)
      split at hchecked
      · next hid => rwa [if_pos hid]
      · next hid => rwa [if_neg hid]
    have honly : OnlyUnchecked items id := by
      refine onlyUnchecked_of hbefore (fun hnil => hne (by rw [hnil]; rfl)) fun item hmem hid => ?_
      have hchecked := hall item hmem
      rwa [if_neg hid] at hchecked
    have hself := hall _ honly.1
    rw [if_pos rfl] at hself
    exact ⟨hself, honly⟩
  · rintro ⟨hchecked, honly⟩
    refine ⟨OnlyUnchecked.not_isComplete honly, ?_, ?_⟩
    · rw [setChecked, ne_eq, List.map_eq_nil_iff]
      exact List.ne_nil_of_mem honly.1
    · intro item hmem
      obtain ⟨old, hold, rfl⟩ := List.mem_map.mp hmem
      split
      · exact hchecked
      · next hid => exact honly.2 old hold hid

theorem isComplete_filter :
    ¬IsComplete items ∧ IsComplete (items.filter (·.id ≠ id)) ↔
      OnlyUnchecked items id ∧ ∃ item ∈ items, item.id ≠ id := by
  constructor
  · rintro ⟨hbefore, hne, hafter⟩
    obtain ⟨item, hmem⟩ := List.exists_mem_of_ne_nil _ hne
    obtain ⟨hmem, hid⟩ := List.mem_filter.mp hmem
    refine ⟨onlyUnchecked_of hbefore (List.ne_nil_of_mem hmem) fun other hother hne => ?_,
      item, hmem, of_decide_eq_true hid⟩
    exact hafter other (List.mem_filter.mpr ⟨hother, decide_eq_true hne⟩)
  · rintro ⟨honly, item, hmem, hid⟩
    refine ⟨OnlyUnchecked.not_isComplete honly, ?_, ?_⟩
    · exact List.ne_nil_of_mem (List.mem_filter.mpr ⟨hmem, decide_eq_true hid⟩)
    · intro other hother
      obtain ⟨hother, hne⟩ := List.mem_filter.mp hother
      exact honly.2 other hother (of_decide_eq_true hne)

/-! ### Writes of an item -/

section Writes

variable {items : Items} {itemId : ItemId} {projectId other : ProjectId}
  {itemSection otherSection : EvaluationChecklistItemSection} {item : EvaluationChecklistItem}

/-- Every item with the id is one of the section. -/
def OwnedBy (items : Items) (itemId : ItemId) (projectId : ProjectId) (itemSection : EvaluationChecklistItemSection) : Prop :=
  ∀ entry ∈ items, entry.1 = itemId → entry.2.projectId = projectId ∧ entry.2.itemSection = itemSection

private theorem sectionItems_map (howned : OwnedBy items itemId projectId itemSection) (hproject : item.projectId = projectId)
    (hsection : item.itemSection = itemSection) :
    sectionItems (items.map fun entry => if entry.1 = itemId then (itemId, item) else entry) projectId itemSection =
      setChecked (sectionItems items projectId itemSection) itemId item.isChecked := by
  induction items with
  | nil => rfl
  | cons entry items ih =>
      rw [OwnedBy, List.forall_mem_cons] at howned
      have hrest := ih howned.2
      rw [sectionItems] at hrest ⊢
      by_cases hkey : entry.1 = itemId
      · obtain ⟨hproject', hsection'⟩ := howned.1 hkey
        simp only [sectionItems, setChecked, List.map_cons, if_pos hkey, List.filter_cons, hproject, hsection, hproject',
          hsection', and_self, decide_true, if_true, List.cons.injEq, true_and] at hrest ⊢
        exact hrest
      · rw [List.map_cons, if_neg hkey, List.filter_cons]
        split
        · next hin =>
            simp only [sectionItems, List.filter_cons, if_pos hin, setChecked, List.map_cons, if_neg hkey,
              List.cons.injEq, true_and] at hrest ⊢
            exact hrest
        · next hout =>
            simp only [sectionItems, List.filter_cons, if_neg hout] at hrest ⊢
            exact hrest

theorem sectionItems_set (howned : OwnedBy items itemId projectId itemSection)
    (hfound : (OrderedMap.get items itemId).isSome) (hproject : item.projectId = projectId)
    (hsection : item.itemSection = itemSection) :
    sectionItems (OrderedMap.set items itemId item) projectId itemSection =
      setChecked (sectionItems items projectId itemSection) itemId item.isChecked := by
  obtain ⟨old, hold⟩ := Option.isSome_iff_exists.mp hfound
  have hany : items.any (·.1 = itemId) :=
    List.any_eq_true.mpr ⟨_, OrderedMap.mem_of_get hold, decide_eq_true rfl⟩
  rw [OrderedMap.set, if_pos hany]
  exact sectionItems_map howned hproject hsection

theorem sectionItems_set_new (hnew : ∀ entry ∈ items, entry.1 ≠ itemId) :
    sectionItems (OrderedMap.set items itemId item) projectId itemSection =
      sectionItems items projectId itemSection ++
        if item.projectId = projectId ∧ item.itemSection = itemSection then [⟨itemId, item.isChecked⟩] else [] := by
  have hany : ¬items.any (·.1 = itemId) := by
    rw [List.any_eq_true]
    rintro ⟨entry, hmem, hkey⟩
    exact hnew entry hmem (of_decide_eq_true hkey)
  rw [OrderedMap.set, if_neg hany, sectionItems, sectionItems, List.filter_append, List.map_append, List.filter_cons]
  by_cases hin : item.projectId = projectId ∧ item.itemSection = itemSection
  · rw [if_pos (decide_eq_true hin), if_pos hin]
    rfl
  · rw [if_neg (by simpa using hin), if_neg hin]
    rfl

theorem sectionItems_delete : sectionItems (OrderedMap.delete items itemId) projectId itemSection =
    (sectionItems items projectId itemSection).filter (·.id ≠ itemId) := by
  rw [sectionItems, sectionItems, OrderedMap.delete, List.filter_map, List.filter_filter, List.filter_filter]
  congr 2
  funext entry
  simp only [Function.comp_apply, Bool.and_comm]

theorem sectionItems_set_other (howned : OwnedBy items itemId projectId itemSection) (hproject : item.projectId = projectId)
    (hsection : item.itemSection = itemSection) (hne : ¬(projectId = other ∧ itemSection = otherSection)) :
    sectionItems (OrderedMap.set items itemId item) other otherSection = sectionItems items other otherSection := by
  rw [sectionItems, sectionItems, OrderedMap.filter_set]
  · rw [hproject, hsection]
    exact decide_eq_false hne
  · intro entry hmem hkey
    rw [(howned entry hmem hkey).1, (howned entry hmem hkey).2]
    exact decide_eq_false hne

theorem sectionItems_delete_other (howned : OwnedBy items itemId projectId itemSection)
    (hne : ¬(projectId = other ∧ itemSection = otherSection)) :
    sectionItems (OrderedMap.delete items itemId) other otherSection = sectionItems items other otherSection := by
  rw [sectionItems, sectionItems, OrderedMap.filter_delete]
  intro entry hmem hkey
  rw [(howned entry hmem hkey).1, (howned entry hmem hkey).2]
  exact decide_eq_false hne

theorem nodup_sectionItems (hkeys : OrderedMap.UniqueKeys items) :
    ((sectionItems items projectId itemSection).map (·.id)).Nodup := by
  rw [sectionItems, List.map_map]
  exact OrderedMap.uniqueKeys_filter hkeys _

end Writes

end Transcendence.Evaluation
