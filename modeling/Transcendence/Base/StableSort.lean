import Mathlib.Data.List.Sort
import Mathlib.Data.Nat.Cast.Order.Basic
import Mathlib.Tactic

/-!
# One item among ranked items, sorted stably

The others have the ranks `0, …, n - 1`. The item comes out at the place its own rank names when the
rank is a place, and when no item of that rank stood before it, which a stable sort leaves before it.
-/

namespace StableSort

variable {α β : Type*} [LinearOrder β] {key : α → β} {x y : α} {first last before after : List α}

/-- In a list of distinct items, what stands before an item is in the part before it. -/
theorem mem_of_pair_sublist (hnodup : (first ++ x :: last).Nodup) (h : [y, x].Sublist (first ++ x :: last)) : y ∈ first := by
  have hx : x ∉ last := (List.nodup_cons.mp (List.nodup_append.mp hnodup).2.1).1
  obtain ⟨l, l', heq, hl, hl'⟩ := List.sublist_append_iff.mp h
  cases l with
  | nil =>
      rw [List.nil_append] at heq
      rw [← heq] at hl'
      cases hl' with
      | cons _ hsub => exact absurd (hsub.subset (List.mem_cons_of_mem _ (List.mem_singleton_self x))) hx
      | cons_cons _ hsub => exact absurd (hsub.subset (List.mem_singleton_self x)) hx
  | cons z l =>
      obtain ⟨rfl, _⟩ := List.cons.inj heq
      exact hl.subset List.mem_cons_self

theorem mem_of_sublist_pair (hnodup : (first ++ x :: last).Nodup) (h : [x, y].Sublist (first ++ x :: last)) : y ∈ last := by
  obtain ⟨_, hdisjoint⟩ := List.nodup_append.mp hnodup
  have hx : x ∉ first := fun hin => hdisjoint.2 x hin x List.mem_cons_self rfl
  obtain ⟨l, l', heq, hl, hl'⟩ := List.sublist_append_iff.mp h
  cases l with
  | nil =>
      rw [List.nil_append] at heq
      rw [← heq] at hl'
      cases hl' with
      | cons _ hsub =>
          exact absurd (hsub.subset List.mem_cons_self) (List.nodup_cons.mp (List.nodup_append.mp hnodup).2.1).1
      | cons_cons _ hsub => exact hsub.subset (List.mem_singleton_self y)
  | cons z l =>
      obtain ⟨rfl, _⟩ := List.cons.inj heq
      exact absurd (hl.subset List.mem_cons_self) hx

theorem mem_first (hsort : (before ++ x :: after).insertionSort (key · ≤ key ·) = first ++ x :: last)
    (hnodup : (first ++ x :: last).Nodup) (hmem : y ∈ before) (hle : key y ≤ key x) : y ∈ first := by
  apply mem_of_pair_sublist hnodup
  rw [← hsort]
  apply List.pair_sublist_insertionSort (r := (key · ≤ key ·)) hle
  exact (List.singleton_sublist.mpr hmem).append (List.singleton_sublist.mpr List.mem_cons_self)

theorem mem_last (hsort : (before ++ x :: after).insertionSort (key · ≤ key ·) = first ++ x :: last)
    (hnodup : (first ++ x :: last).Nodup) (hmem : y ∈ after) (hle : key x ≤ key y) : y ∈ last := by
  apply mem_of_sublist_pair hnodup
  rw [← hsort]
  apply List.pair_sublist_insertionSort (r := (key · ≤ key ·)) hle
  exact ((List.singleton_sublist.mpr hmem).cons_cons x).trans (List.sublist_append_right ..)

variable [NatCast β]

/-- The item comes out at the place its rank names, exactly when the rank is a place that no item before it has. -/
theorem key_eq_length_iff (hcast : StrictMono ((↑) : Nat → β))
    (hsort : (before ++ x :: after).insertionSort (key · ≤ key ·) = first ++ x :: last)
    (hnodup : (before ++ x :: after).Nodup)
    (hranks : ((before ++ after).map key).Perm ((List.range (before ++ after).length).map (↑))) :
    key x = (first.length : β) ↔
      ∃ k : Nat, key x = k ∧ k ≤ (before ++ after).length ∧ ∀ y ∈ before, key y ≠ k := by
  have hperm : (first ++ x :: last).Perm (before ++ x :: after) := hsort ▸ List.perm_insertionSort _ _
  have hnodup' : (first ++ x :: last).Nodup := hperm.nodup_iff.mpr hnodup
  have hothers : (first ++ last).Perm (before ++ after) :=
    (List.perm_middle.symm.trans (hperm.trans List.perm_middle)).cons_inv
  have hsorted : (first ++ x :: last).Pairwise (key · ≤ key ·) := hsort ▸ List.pairwise_insertionSort _ _
  have hlength : (first ++ last).length = (before ++ after).length := hothers.length_eq
  -- the others are sorted, so their ranks are their places
  have hplaces : (first ++ last).map key = (List.range (first ++ last).length).map (↑) := by
    apply ((hothers.map key).trans (hlength ▸ hranks)).eq_of_pairwise (fun a b _ _ hab hba => le_antisymm hab hba)
    · exact List.pairwise_map.mpr (hsorted.sublist (List.sublist_cons_self x last |>.append_left first))
    · exact List.pairwise_map.mpr (List.pairwise_lt_range.imp fun hlt => (hcast hlt).le)
  have hplace : ∀ {i : Nat} (hi : i < (first ++ last).length), key (first ++ last)[i] = (i : β) := by
    intro i hi
    have h := List.getElem_of_eq hplaces (by rwa [List.length_map])
    rwa [List.getElem_map, List.getElem_map, List.getElem_range] at h
  have hfirst : ∀ {i : Nat} (hi : i < first.length), key first[i] = (i : β) := by
    intro i hi
    have h := hplace (i := i) (by rw [List.length_append]; omega)
    rwa [List.getElem_append_left hi] at h
  obtain ⟨_, htail, hcross⟩ := List.pairwise_append.mp hsorted
  have hle : ∀ y ∈ first, key y ≤ key x := fun y hy => hcross y hy x List.mem_cons_self
  have hge : ∀ y ∈ last, key x ≤ key y := (List.pairwise_cons.mp htail).1
  constructor
  · intro hkey
    refine ⟨first.length, hkey, ?_, fun y hy hrank => ?_⟩
    · rw [← hlength, List.length_append]
      omega
    · obtain ⟨i, hi, rfl⟩ := List.getElem_of_mem (mem_first hsort hnodup' hy (hrank.trans hkey.symm).le)
      rw [hfirst hi] at hrank
      exact absurd (hcast.injective hrank) hi.ne
  · intro ⟨k, hkey, hk, hnone⟩
    have hupper : first.length ≤ k := by
      by_contra hlt
      have hk' : k < first.length := by omega
      have hrank := hfirst hk'
      have hmem : first[k] ∈ before ++ after :=
        hothers.mem_iff.mp (List.mem_append_left _ (List.getElem_mem hk'))
      rcases List.mem_append.mp hmem with hin | hin
      · exact hnone _ hin hrank
      · have hin' := mem_last hsort hnodup' hin (hkey.trans hrank.symm).le
        exact (List.nodup_append.mp hnodup').2.2 _ (List.getElem_mem hk') _ (List.mem_cons_of_mem _ hin') rfl
    have hlower : k ≤ first.length := by
      by_contra hlt
      have hi : first.length < (first ++ last).length := by omega
      have hmem : (first ++ last)[first.length] ∈ last := by
        rw [List.getElem_append_right (Nat.le_refl _)]
        exact List.getElem_mem _
      have hrank := hge _ hmem
      rw [hkey, hplace hi] at hrank
      exact absurd (hcast.le_iff_le.mp hrank) (by omega)
    rw [hkey, Nat.le_antisymm hupper hlower]

end StableSort
