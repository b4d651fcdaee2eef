import Transcendence.Evaluation.ChecklistItems
import Mathlib.Data.Rat.Floor
import Mathlib.Tactic

/-!
# Progress of a checklist

`computeProjectProgress` of the backend and `computeEvaluationChecklistProgress` of the frontend.
Both weigh the percentages of the three sections and let a section count once the one before it is
done; they differ in when that is, by the rounded percentage or by the items themselves, and in the
cap. They agree up to the cap all the same, as a section that is done only by its rounded percentage
has brought the total to 100 already. Quotients are exact.
-/

namespace Transcendence.Evaluation

/-- `Math.round`: a tie goes up. -/
def mathRound (x : ℚ) : ℤ := ⌊x + 1 / 2⌋

/-- What both sides read of an item. -/
structure ProgressItem where
  itemSection : EvaluationChecklistItemSection
  isChecked : Bool
  deriving DecidableEq, Repr

def sectionItemsOf (items : List ProgressItem) (itemSection : EvaluationChecklistItemSection) : List ProgressItem :=
  items.filter (·.itemSection = itemSection)

/-- The section percentage, which both sides compute in the same way. -/
def sectionPercent (items : List ProgressItem) : ℤ :=
  if items.length = 0 then 0
  else mathRound (((items.filter (·.isChecked)).length : ℚ) / items.length * 100)

/-! ### The backend -/

def computeProjectProgress (items : List ProgressItem) : ℤ :=
  let mandatoryPercent := sectionPercent (sectionItemsOf items .MANDATORY)
  let bonusPercent := sectionPercent (sectionItemsOf items .BONUS)
  let supplementalPercent := sectionPercent (sectionItemsOf items .SUPPLEMENTAL)
  let mandatoryComplete := mandatoryPercent ≥ 100
  let bonusComplete := bonusPercent ≥ 100
  let overallPercent : ℚ :=
    if mandatoryComplete then
      if bonusComplete then
        mandatoryPercent + (bonusPercent : ℚ) / 100 * 25 + (supplementalPercent : ℚ) / 100 * 25
      else mandatoryPercent + (bonusPercent : ℚ) / 100 * 25
    else mandatoryPercent
  min (mathRound overallPercent) 100

/-! ### The frontend -/

def EVALUATION_CHECKLIST_CATEGORY_WEIGHT : ℚ := 25

structure EvaluationChecklistProgress where
  currentValue : Nat
  completeAt : Nat
  percent : ℤ
  deriving DecidableEq, Repr

/-- Every item is checked, and there is one. -/
def isSectionComplete (items : List ProgressItem) : Bool := items.length > 0 && items.all (·.isChecked)

def computeEvaluationChecklistProgress (items : List ProgressItem) : EvaluationChecklistProgress :=
  let mandatoryItems := sectionItemsOf items .MANDATORY
  let bonusItems := sectionItemsOf items .BONUS
  let supplementalItems := sectionItemsOf items .SUPPLEMENTAL
  let mandatoryPercent := sectionPercent mandatoryItems
  let bonusPercent := sectionPercent bonusItems
  let supplementalPercent := sectionPercent supplementalItems
  let checked (items : List ProgressItem) : Nat := (items.filter (·.isChecked)).length
  if isSectionComplete mandatoryItems then
    if isSectionComplete bonusItems then
      { currentValue := checked mandatoryItems + checked bonusItems + checked supplementalItems
        completeAt := mandatoryItems.length + bonusItems.length + supplementalItems.length
        percent := mathRound (mandatoryPercent + (bonusPercent : ℚ) / 100 * EVALUATION_CHECKLIST_CATEGORY_WEIGHT +
          (supplementalPercent : ℚ) / 100 * EVALUATION_CHECKLIST_CATEGORY_WEIGHT) }
    else
      { currentValue := checked mandatoryItems + checked bonusItems
        completeAt := mandatoryItems.length + bonusItems.length
        percent := mathRound (mandatoryPercent + (bonusPercent : ℚ) / 100 * EVALUATION_CHECKLIST_CATEGORY_WEIGHT) }
  else
    { currentValue := checked mandatoryItems
      completeAt := mandatoryItems.length
      percent := mathRound mandatoryPercent }

example : (computeEvaluationChecklistProgress [⟨.MANDATORY, true⟩, ⟨.BONUS, true⟩, ⟨.BONUS, false⟩]).percent = 113 := by
  decide +kernel

/-! ### Rounding -/

theorem mathRound_mono {x y : ℚ} (h : x ≤ y) : mathRound x ≤ mathRound y := Int.floor_le_floor (by linarith)

@[simp] theorem mathRound_intCast (n : ℤ) : mathRound n = n := by
  rw [mathRound, Int.floor_eq_iff]
  constructor <;> linarith

/-! ### The percentage of a section -/

variable {items items' : List ProgressItem}

theorem sectionPercent_nonneg (items : List ProgressItem) : 0 ≤ sectionPercent items := by
  rw [sectionPercent]
  split
  · exact le_refl 0
  · rw [← mathRound_intCast 0]
    exact mathRound_mono (by positivity)

theorem sectionPercent_le (items : List ProgressItem) : sectionPercent items ≤ 100 := by
  rw [sectionPercent]
  split
  · decide
  · next hlength =>
      have hchecked : ((items.filter (·.isChecked)).length : ℚ) ≤ items.length := by
        exact_mod_cast List.length_filter_le ..
      have hquotient : ((items.filter (·.isChecked)).length : ℚ) / items.length ≤ 1 := div_le_one_of_le₀ hchecked (by positivity)
      rw [← mathRound_intCast 100]
      exact mathRound_mono (by push_cast; linarith)

theorem sectionPercent_of_complete (h : isSectionComplete items) : sectionPercent items = 100 := by
  rw [isSectionComplete, Bool.and_eq_true, decide_eq_true_eq] at h
  obtain ⟨hlength, hall⟩ := h
  have hchecked : items.filter (·.isChecked) = items := List.filter_eq_self.mpr (by simpa using hall)
  have hne : (items.length : ℚ) ≠ 0 := by exact_mod_cast hlength.ne'
  rw [sectionPercent, if_neg hlength.ne', hchecked, div_self hne, one_mul]
  exact mathRound_intCast 100

/-! ### Checking more items -/

/-- The item is in the same section, and still checked if it was. -/
def StaysChecked (item item' : ProgressItem) : Prop := item.itemSection = item'.itemSection ∧ (item.isChecked → item'.isChecked)

/-- The same items, of which some more may be checked. -/
abbrev ChecksMore (items items' : List ProgressItem) : Prop := List.Forall₂ StaysChecked items items'

def checkItem (items : List ProgressItem) (index : Nat) : List ProgressItem :=
  items.modify index fun item => { item with isChecked := true }

theorem StaysChecked.refl (item : ProgressItem) : StaysChecked item item := ⟨rfl, id⟩

theorem checksMore_checkItem (items : List ProgressItem) (index : Nat) : ChecksMore items (checkItem items index) := by
  induction items generalizing index with
  | nil =>
      rw [checkItem, List.modify_nil]
      exact .nil
  | cons item items ih =>
      cases index with
      | zero => exact .cons ⟨rfl, fun _ => rfl⟩ (List.forall₂_same.mpr fun item _ => .refl item)
      | succ index => exact .cons (.refl item) (ih index)

theorem ChecksMore.sectionItemsOf (h : ChecksMore items items') (itemSection : EvaluationChecklistItemSection) :
    ChecksMore (sectionItemsOf items itemSection) (sectionItemsOf items' itemSection) := by
  induction h with
  | nil => exact .nil
  | @cons item item' items items' hitem _ ih =>
      rw [Evaluation.sectionItemsOf, Evaluation.sectionItemsOf, List.filter_cons, List.filter_cons, ← hitem.1]
      split
      · exact .cons hitem ih
      · exact ih

theorem ChecksMore.length_filter_le (h : ChecksMore items items') :
    (items.filter (·.isChecked)).length ≤ (items'.filter (·.isChecked)).length := by
  induction h with
  | nil => exact le_refl 0
  | @cons item item' items items' hitem _ ih =>
      rw [List.filter_cons, List.filter_cons]
      by_cases hchecked : item.isChecked
      · rw [if_pos hchecked, if_pos (hitem.2 hchecked)]
        exact Nat.succ_le_succ ih
      · rw [if_neg hchecked]
        split
        · exact ih.trans (Nat.le_succ _)
        · exact ih

theorem ChecksMore.sectionPercent_le (h : ChecksMore items items') : sectionPercent items ≤ sectionPercent items' := by
  have hlength : items.length = items'.length := h.length_eq
  rw [sectionPercent, sectionPercent, ← hlength]
  split
  · exact le_refl 0
  · have hchecked : ((items.filter (·.isChecked)).length : ℚ) ≤ (items'.filter (·.isChecked)).length := by
      exact_mod_cast h.length_filter_le
    apply mathRound_mono
    gcongr

theorem ChecksMore.all_isChecked (h : ChecksMore items items') (hall : items.all (·.isChecked)) :
    items'.all (·.isChecked) := by
  induction h with
  | nil => rfl
  | cons hitem _ ih =>
      rw [List.all_cons, Bool.and_eq_true] at hall ⊢
      exact ⟨hitem.2 hall.1, ih hall.2⟩

theorem ChecksMore.isSectionComplete (h : ChecksMore items items') (hcomplete : isSectionComplete items) :
    isSectionComplete items' := by
  rw [Evaluation.isSectionComplete, Bool.and_eq_true, decide_eq_true_eq] at hcomplete ⊢
  exact ⟨h.length_eq ▸ hcomplete.1, h.all_isChecked hcomplete.2⟩

/-! ### The total -/

/-- The total before it is rounded, with what the sections add once the ones before them are done. -/
def overallPercent (mandatoryComplete bonusComplete : Prop) [Decidable mandatoryComplete] [Decidable bonusComplete]
    (mandatory bonus supplemental : ℤ) : ℚ :=
  mandatory + if mandatoryComplete then (bonus : ℚ) / 4 + if bonusComplete then (supplemental : ℚ) / 4 else 0 else 0

variable {mandatoryComplete bonusComplete mandatoryComplete' bonusComplete' : Prop} [Decidable mandatoryComplete]
  [Decidable bonusComplete] [Decidable mandatoryComplete'] [Decidable bonusComplete']
  {mandatory bonus supplemental mandatory' bonus' supplemental' : ℤ}

theorem overallPercent_mono (hm : mandatoryComplete → mandatoryComplete') (hb : bonusComplete → bonusComplete')
    (hmandatory : mandatory ≤ mandatory') (hbonus : bonus ≤ bonus') (hsupplemental : supplemental ≤ supplemental')
    (hbonus0 : 0 ≤ bonus) (hsupplemental0 : 0 ≤ supplemental) :
    overallPercent mandatoryComplete bonusComplete mandatory bonus supplemental ≤
      overallPercent mandatoryComplete' bonusComplete' mandatory' bonus' supplemental' := by
  have hmandatory : (mandatory : ℚ) ≤ mandatory' := by exact_mod_cast hmandatory
  have hbonus : (bonus : ℚ) ≤ bonus' := by exact_mod_cast hbonus
  have hsupplemental : (supplemental : ℚ) ≤ supplemental' := by exact_mod_cast hsupplemental
  have hbonus0 : (0 : ℚ) ≤ bonus := by exact_mod_cast hbonus0
  have hsupplemental0 : (0 : ℚ) ≤ supplemental := by exact_mod_cast hsupplemental0
  rw [overallPercent, overallPercent]
  split_ifs <;> first | linarith | simp_all

/-- The total of a list of items. -/
abbrev overallPercentOf (mandatoryComplete bonusComplete : Prop) [Decidable mandatoryComplete] [Decidable bonusComplete]
    (items : List ProgressItem) : ℚ :=
  overallPercent mandatoryComplete bonusComplete (sectionPercent (sectionItemsOf items .MANDATORY))
    (sectionPercent (sectionItemsOf items .BONUS)) (sectionPercent (sectionItemsOf items .SUPPLEMENTAL))

theorem overallPercentOf_mono (h : ChecksMore items items') (hm : mandatoryComplete → mandatoryComplete')
    (hb : bonusComplete → bonusComplete') :
    overallPercentOf mandatoryComplete bonusComplete items ≤ overallPercentOf mandatoryComplete' bonusComplete' items' :=
  overallPercent_mono hm hb (h.sectionItemsOf .MANDATORY).sectionPercent_le (h.sectionItemsOf .BONUS).sectionPercent_le
    (h.sectionItemsOf .SUPPLEMENTAL).sectionPercent_le (sectionPercent_nonneg _) (sectionPercent_nonneg _)

theorem computeProjectProgress_eq (items : List ProgressItem) :
    computeProjectProgress items = min (mathRound (overallPercentOf
      (100 ≤ sectionPercent (sectionItemsOf items .MANDATORY)) (100 ≤ sectionPercent (sectionItemsOf items .BONUS))
      items)) 100 := by
  rw [computeProjectProgress, overallPercentOf, overallPercent]
  split_ifs <;> (congr 2; ring)

theorem percent_eq (items : List ProgressItem) :
    (computeEvaluationChecklistProgress items).percent = mathRound (overallPercentOf
      (isSectionComplete (sectionItemsOf items .MANDATORY)) (isSectionComplete (sectionItemsOf items .BONUS)) items) := by
  rw [computeEvaluationChecklistProgress, overallPercentOf, overallPercent]
  simp only [EVALUATION_CHECKLIST_CATEGORY_WEIGHT]
  split_ifs <;> (dsimp only; congr 1; ring)

theorem mandatory_le_overallPercentOf (items : List ProgressItem) :
    sectionPercent (sectionItemsOf items .MANDATORY) ≤ mathRound (overallPercentOf mandatoryComplete bonusComplete items) := by
  rw [← mathRound_intCast (sectionPercent (sectionItemsOf items .MANDATORY))]
  apply mathRound_mono
  have hbonus : (0 : ℚ) ≤ sectionPercent (sectionItemsOf items .BONUS) := by exact_mod_cast sectionPercent_nonneg _
  have hsupplemental : (0 : ℚ) ≤ sectionPercent (sectionItemsOf items .SUPPLEMENTAL) := by
    exact_mod_cast sectionPercent_nonneg _
  rw [overallPercentOf, overallPercent]
  split_ifs <;> linarith

/-- A section that is not done adds nothing. -/
theorem overallPercentOf_of_not (h : ¬mandatoryComplete) (items : List ProgressItem) :
    overallPercentOf mandatoryComplete bonusComplete items = sectionPercent (sectionItemsOf items .MANDATORY) := by
  rw [overallPercentOf, overallPercent, if_neg h, add_zero]

/-! ### The two sides -/

/-- The card shows the percentage of the checklist page, capped, and checking an item lowers
neither. -/
structure ProgressAgrees (items : List ProgressItem) : Prop where
  equal : computeProjectProgress items = min 100 (computeEvaluationChecklistProgress items).percent
  backend_mono : ∀ index, computeProjectProgress items ≤ computeProjectProgress (checkItem items index)
  frontend_mono : ∀ index, (computeEvaluationChecklistProgress items).percent ≤
    (computeEvaluationChecklistProgress (checkItem items index)).percent

theorem computeProjectProgress_eq_min (items : List ProgressItem) :
    computeProjectProgress items = min 100 (computeEvaluationChecklistProgress items).percent := by
  rw [computeProjectProgress_eq, percent_eq, min_comm]
  by_cases hrounded : 100 ≤ sectionPercent (sectionItemsOf items .MANDATORY)
  · rw [min_eq_left (hrounded.trans (mandatory_le_overallPercentOf items)),
      min_eq_left (hrounded.trans (mandatory_le_overallPercentOf items))]
  · have hexact : ¬isSectionComplete (sectionItemsOf items .MANDATORY) :=
      fun hcomplete => hrounded (sectionPercent_of_complete hcomplete).ge
    rw [overallPercentOf_of_not hrounded, overallPercentOf_of_not hexact]

theorem computeProjectProgress_mono (h : ChecksMore items items') :
    computeProjectProgress items ≤ computeProjectProgress items' := by
  rw [computeProjectProgress_eq, computeProjectProgress_eq]
  refine min_le_min (mathRound_mono (overallPercentOf_mono h ?_ ?_)) (le_refl 100)
  · exact fun hcomplete => hcomplete.trans (h.sectionItemsOf .MANDATORY).sectionPercent_le
  · exact fun hcomplete => hcomplete.trans (h.sectionItemsOf .BONUS).sectionPercent_le

theorem percent_mono (h : ChecksMore items items') :
    (computeEvaluationChecklistProgress items).percent ≤ (computeEvaluationChecklistProgress items').percent := by
  rw [percent_eq, percent_eq]
  apply mathRound_mono
  apply overallPercentOf_mono h
  · exact (h.sectionItemsOf .MANDATORY).isSectionComplete
  · exact (h.sectionItemsOf .BONUS).isSectionComplete

theorem progress_agrees (items : List ProgressItem) : ProgressAgrees items where
  equal := computeProjectProgress_eq_min items
  backend_mono index := computeProjectProgress_mono (checksMore_checkItem items index)
  frontend_mono index := percent_mono (checksMore_checkItem items index)

/-! ### The percentage that tells whether a section is completed -/

/-- The items service rounds in the same way. -/
theorem computeSectionPercent_eq (items : List SectionItem) (itemSection : EvaluationChecklistItemSection) :
    (computeSectionPercent items : ℤ) = sectionPercent (items.map fun item => ⟨itemSection, item.isChecked⟩) := by
  have hchecked : ((items.map fun item => (⟨itemSection, item.isChecked⟩ : ProgressItem)).filter (·.isChecked)).length =
      (items.filter (·.isChecked)).length := by
    rw [List.filter_map, List.length_map]
    rfl
  rw [computeSectionPercent, sectionPercent, hchecked, List.length_map]
  split
  · rfl
  · next hlength =>
      have hne : (items.length : ℚ) ≠ 0 := by exact_mod_cast hlength
      rw [mathRound, Int.natCast_ediv, ← Rat.floor_natCast_div_natCast]
      congr 1
      push_cast
      field_simp
      ring

end Transcendence.Evaluation
