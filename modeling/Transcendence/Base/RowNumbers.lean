import Mathlib.Data.List.Sort

/-!
# Row numbers

`ROW_NUMBER()` over a partition in the order of a key. Where no two rows have the same key, the row with
number one is the least, and a partition with rows has exactly one.
-/

namespace RowNumbers

variable {ρ κ : Type*} [DecidableEq ρ] [LinearOrder κ] {key : ρ → κ} {partition : List ρ} {row : ρ}

/-- `ROW_NUMBER() OVER (ORDER BY key)` within the partition. -/
def rowNumber (key : ρ → κ) (partition : List ρ) (row : ρ) : Nat :=
  (partition.insertionSort (key · ≤ key ·)).idxOf row + 1

theorem rowNumber_eq_one_iff (hrow : row ∈ partition) (hkey : ∀ other ∈ partition, key other = key row → other = row) :
    rowNumber key partition row = 1 ↔ ∀ other ∈ partition, key row ≤ key other := by
  have hsorted := List.pairwise_insertionSort (key · ≤ key ·) partition
  have hmem : ∀ other, other ∈ partition.insertionSort (key · ≤ key ·) ↔ other ∈ partition :=
    fun other => List.mem_insertionSort _
  rw [rowNumber, Nat.add_eq_right]
  cases hsort : partition.insertionSort (key · ≤ key ·) with
  | nil =>
      rw [← hmem, hsort] at hrow
      cases hrow
  | cons first rest =>
      rw [hsort, List.pairwise_cons] at hsorted
      constructor
      · intro hindex other hother
        have hfirst : first = row := by
          by_contra hne
          rw [List.idxOf_cons_ne _ hne] at hindex
          exact Nat.succ_ne_zero _ hindex
        rw [← hmem, hsort] at hother
        cases hother with
        | head => exact (congrArg key hfirst).ge
        | tail _ hrest => exact hfirst ▸ hsorted.1 other hrest
      · intro hleast
        have hfirst : first ∈ partition := by
          rw [← hmem, hsort]
          exact List.mem_cons_self
        have hle : key first ≤ key row := by
          rw [← hmem, hsort] at hrow
          cases hrow with
          | head => exact le_refl _
          | tail _ hrest => exact hsorted.1 row hrest
        rw [hkey first hfirst (le_antisymm hle (hleast first hfirst))]
        exact List.idxOf_cons_self

/-- A partition that has rows has one with number one. -/
theorem exists_rowNumber_eq_one (hne : partition ≠ []) : ∃ row ∈ partition, rowNumber key partition row = 1 := by
  cases hsort : partition.insertionSort (key · ≤ key ·) with
  | nil =>
      have hlength := List.length_insertionSort (key · ≤ key ·) partition
      rw [hsort] at hlength
      exact absurd (List.eq_nil_of_length_eq_zero hlength.symm) hne
  | cons first rest =>
      refine ⟨first, ?_, ?_⟩
      · rw [← List.mem_insertionSort (key · ≤ key ·), hsort]
        exact List.mem_cons_self
      · rw [rowNumber, hsort, List.idxOf_cons_self]

end RowNumbers
