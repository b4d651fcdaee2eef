import Mathlib.Data.List.Perm.Basic
import Mathlib.Data.List.InsertIdx
import Mathlib.Data.List.Nodup
import Mathlib.Data.List.Sort
import Mathlib.Tactic

/-!
# Columns stored as ranked rows

A family of columns, each a list of distinct items, can be stored as one unordered table of rows
`⟨id, column, rank⟩` in which `rank` is the item's index in its column. `Represents` relates the
two. The table operations that close the gap an item leaves and open a slot for an item are erasing
it from its list and inserting it (`Represents.erase`, `Represents.insert`, `Represents.move`), and
a table is of this kind exactly if the ranks of each column are `0, …, n - 1` in some order
(`dense_iff_represents`).
-/

namespace RankedColumns

/-! ### Indices in a list of distinct items -/

section Lists

variable {ι : Type*} [DecidableEq ι] {l : List ι} {a b : ι}

theorem idxOf_erase (hnodup : l.Nodup) (hb : b ∈ l) (hne : b ≠ a) :
    (l.erase a).idxOf b = if l.idxOf a < l.idxOf b then l.idxOf b - 1 else l.idxOf b := by
  induction l with
  | nil => cases hb
  | cons c l ih =>
      have hrest := (List.nodup_cons.mp hnodup).2
      by_cases hca : c = a
      · subst hca
        rw [List.erase_cons_head, List.idxOf_cons_self, List.idxOf_cons_ne _ hne.symm]
        simp
      · rw [List.erase_cons_tail (by simpa using hca), List.idxOf_cons_ne _ hca]
        by_cases hcb : c = b
        · subst hcb
          simp [List.idxOf_cons_self]
        · have hmem : b ∈ l := (List.mem_cons.mp hb).resolve_left (Ne.symm hcb)
          rw [List.idxOf_cons_ne _ hcb, List.idxOf_cons_ne _ hcb, ih hrest hmem]
          split_ifs <;> omega

theorem idxOf_insertIdx_self {n : Nat} (ha : a ∉ l) (hn : n ≤ l.length) : (l.insertIdx n a).idxOf a = n := by
  induction l generalizing n with
  | nil =>
      obtain rfl : n = 0 := Nat.le_zero.mp hn
      simp
  | cons c l ih =>
      cases n with
      | zero => simp
      | succ n =>
          rw [List.mem_cons, not_or] at ha
          rw [List.insertIdx_succ_cons, List.idxOf_cons_ne _ (Ne.symm ha.1), ih ha.2 (Nat.le_of_succ_le_succ hn)]

theorem idxOf_insertIdx_of_mem {n : Nat} (hb : b ∈ l) (hne : b ≠ a) (hn : n ≤ l.length) :
    (l.insertIdx n a).idxOf b = if n ≤ l.idxOf b then l.idxOf b + 1 else l.idxOf b := by
  induction l generalizing n with
  | nil => cases hb
  | cons c l ih =>
      cases n with
      | zero => rw [List.insertIdx_zero, List.idxOf_cons_ne _ hne.symm, if_pos (Nat.zero_le _)]
      | succ n =>
          rw [List.insertIdx_succ_cons]
          by_cases hcb : c = b
          · subst hcb
            simp [List.idxOf_cons_self]
          · have hmem : b ∈ l := (List.mem_cons.mp hb).resolve_left (Ne.symm hcb)
            rw [List.idxOf_cons_ne _ hcb, List.idxOf_cons_ne _ hcb, ih hmem (Nat.le_of_succ_le_succ hn)]
            split_ifs <;> omega

omit [DecidableEq ι] in
theorem nodup_insertIdx {n : Nat} (hnodup : l.Nodup) (ha : a ∉ l) (hn : n ≤ l.length) : (l.insertIdx n a).Nodup :=
  (List.perm_insertIdx a l hn).nodup_iff.mpr (List.nodup_cons.mpr ⟨ha, hnodup⟩)

/-- Items taken from a list of distinct items have one arrangement that is sorted by their indices
in it. -/
theorem eq_of_perm_of_sorted_idxOf {m m' : List ι} (hperm : m.Perm m') (hsub : m'.Sublist l)
    (hsorted : m.Pairwise fun x y => l.idxOf x ≤ l.idxOf y) (hnodup : l.Nodup) : m = m' := by
  have hself : l.Pairwise fun x y => l.idxOf x ≤ l.idxOf y := by
    rw [List.pairwise_iff_getElem]
    intro i j hi hj hij
    rw [hnodup.idxOf_getElem, hnodup.idxOf_getElem]
    exact hij.le
  refine hperm.eq_of_pairwise (fun x y hx hy hxy hyx => ?_) hsorted (hself.sublist hsub)
  exact (List.idxOf_inj (hsub.subset (hperm.subset hx))).mp (Nat.le_antisymm hxy hyx)

/-- Sorting is stable: an element appended to the list ends up after those it is not below. -/
theorem insertionSort_append_singleton {α : Type*} (r : α → α → Prop) [DecidableRel r] [Std.Total r] [IsTrans α r]
    (l : List α) (a : α) :
    (l ++ [a]).insertionSort r =
      (l.insertionSort r).takeWhile (r · a) ++ a :: (l.insertionSort r).dropWhile (r · a) := by
  have hcommute : ∀ (b : α) (m : List α),
      (m.takeWhile (r · a) ++ a :: m.dropWhile (r · a)).orderedInsert r b =
        (m.orderedInsert r b).takeWhile (r · a) ++ a :: (m.orderedInsert r b).dropWhile (r · a) := by
    intro b m
    induction m with
    | nil => by_cases hba : r b a <;> simp [hba]
    | cons c m ih =>
        by_cases hca : r c a
        · by_cases hbc : r b c
          · have hba : r b a := IsTrans.trans b c a hbc hca
            simp [hca, hbc, hba]
          · simp [hca, hbc, ih]
        · by_cases hbc : r b c
          · by_cases hba : r b a <;> simp [hca, hbc, hba]
          · have hba : ¬ r b a := fun hba => hca (IsTrans.trans c b a ((Std.Total.total b c).resolve_left hbc) hba)
            simp [hca, hbc, hba]
  induction l with
  | nil => simp
  | cons b l ih => rw [List.cons_append, List.insertionSort_cons, List.insertionSort_cons, ih, hcommute]

end Lists

/-! ### Rows and columns -/

structure Position (ι κ : Type*) where
  id : ι
  column : κ
  rank : Int
  deriving DecidableEq, Repr

variable {ι κ : Type*} [DecidableEq ι] {ps qs : List (Position ι κ)} {columns : κ → List ι}

structure Represents (ps : List (Position ι κ)) (columns : κ → List ι) : Prop where
  ids : (ps.map (·.id)).Nodup
  nodup : ∀ k, (columns k).Nodup
  exists_row : ∀ k i, i ∈ columns k → ∃ p ∈ ps, p.id = i ∧ p.column = k
  rank : ∀ p ∈ ps, p.id ∈ columns p.column ∧ p.rank = (columns p.column).idxOf p.id

omit [DecidableEq ι] in
theorem eq_of_id_eq (h : (ps.map (·.id)).Nodup) {p q : Position ι κ} (hp : p ∈ ps) (hq : q ∈ ps)
    (hid : p.id = q.id) : p = q := List.inj_on_of_nodup_map h hp hq hid

namespace Represents

theorem mem_iff (h : Represents ps columns) {p : Position ι κ} :
    p ∈ ps ↔ p.id ∈ columns p.column ∧ p.rank = (columns p.column).idxOf p.id := by
  refine ⟨h.rank p, fun ⟨hmem, hrank⟩ => ?_⟩
  obtain ⟨q, hq, hid, hcolumn⟩ := h.exists_row _ _ hmem
  have hrank' := (h.rank q hq).2
  rw [hid, hcolumn, ← hrank] at hrank'
  obtain ⟨id, column, rank⟩ := p
  obtain ⟨id', column', rank'⟩ := q
  obtain rfl : id' = id := hid
  obtain rfl : column' = column := hcolumn
  obtain rfl : rank' = rank := hrank'
  exact hq

theorem perm (h : Represents ps columns) (hperm : qs.Perm ps) : Represents qs columns where
  ids := (hperm.map _).nodup_iff.mpr h.ids
  nodup := h.nodup
  exists_row k i hi := by
    obtain ⟨p, hp, hrow⟩ := h.exists_row k i hi
    exact ⟨p, hperm.mem_iff.mpr hp, hrow⟩
  rank p hp := h.rank p (hperm.mem_iff.mp hp)

/-- Two tables of the same columns have the same rows. -/
theorem unique (h : Represents ps columns) (h' : Represents qs columns) : ps.Perm qs :=
  (List.perm_ext_iff_of_nodup (List.Nodup.of_map _ h.ids) (List.Nodup.of_map _ h'.ids)).mpr
    fun _ => h.mem_iff.trans h'.mem_iff.symm

theorem column_eq (h : Represents ps columns) {p : Position ι κ} (hp : p ∈ ps) {k : κ} (hmem : p.id ∈ columns k) :
    p.column = k := by
  obtain ⟨q, hq, hid, hcolumn⟩ := h.exists_row k p.id hmem
  rw [← hcolumn, eq_of_id_eq h.ids hq hp hid]

theorem column_unique (h : Represents ps columns) {i : ι} {k k' : κ} (hk : i ∈ columns k) (hk' : i ∈ columns k') :
    k = k' := by
  obtain ⟨p, hp, rfl, rfl⟩ := h.exists_row k i hk
  exact h.column_eq hp hk'

/-- The rows of a table are determined by their ids and the columns. -/
theorem of_rows (h : Represents qs columns) (hids : (ps.map (·.id)).Perm (qs.map (·.id)))
    (hrows : ∀ p ∈ ps, p.id ∈ columns p.column ∧ p.rank = (columns p.column).idxOf p.id) : Represents ps columns where
  ids := hids.nodup_iff.mpr h.ids
  nodup := h.nodup
  exists_row k i hi := by
    obtain ⟨q, hq, rfl, rfl⟩ := h.exists_row k i hi
    obtain ⟨p, hp, hid⟩ := List.mem_map.mp (hids.mem_iff.mpr (List.mem_map_of_mem hq))
    have heq := eq_of_id_eq h.ids (h.mem_iff.mpr (hrows p hp)) hq hid
    exact ⟨p, hp, hid, congrArg Position.column heq⟩
  rank := hrows

/-- Some of the columns, under other names. -/
theorem restrict {κ' : Type*} {qs : List (Position ι κ')} {f : κ' → κ} (h : Represents ps columns)
    (hids : (qs.map (·.id)).Nodup) (hrows : ∀ q : Position ι κ', q ∈ qs ↔ ⟨q.id, f q.column, q.rank⟩ ∈ ps) :
    Represents qs fun k => columns (f k) where
  ids := hids
  nodup k := h.nodup (f k)
  exists_row k i hi :=
    ⟨⟨i, k, (columns (f k)).idxOf i⟩, (hrows _).mpr (h.mem_iff.mpr ⟨hi, rfl⟩), rfl, rfl⟩
  rank q hq := h.rank _ ((hrows q).mp hq)

variable [DecidableEq κ]

/-- The column's rows, in any order, are its items. -/
theorem map_id_filter_perm (h : Represents ps columns) (k : κ) :
    ((ps.filter (·.column = k)).map (·.id)).Perm (columns k) := by
  have hnodup : ((ps.filter (·.column = k)).map (·.id)).Nodup := h.ids.sublist (List.filter_sublist.map _)
  refine (List.perm_ext_iff_of_nodup hnodup (h.nodup k)).mpr fun i => ?_
  simp only [List.mem_map, List.mem_filter, decide_eq_true_eq]
  constructor
  · rintro ⟨p, ⟨hp, rfl⟩, rfl⟩
    exact (h.rank p hp).1
  · intro hi
    obtain ⟨p, hp, hid, hcolumn⟩ := h.exists_row k i hi
    exact ⟨p, ⟨hp, hcolumn⟩, hid⟩

theorem length_filter (h : Represents ps columns) (k : κ) :
    (ps.filter (·.column = k)).length = (columns k).length := by
  rw [← (h.map_id_filter_perm k).length_eq, List.length_map]

end Represents

variable [DecidableEq κ]

/-! ### Erasing, inserting and moving -/

def eraseItem (columns : κ → List ι) (i : ι) (k : κ) : List ι := (columns k).erase i

def insertItem (columns : κ → List ι) (i : ι) (k : κ) (n : Nat) : κ → List ι :=
  Function.update columns k ((columns k).insertIdx n i)

def moveItem (columns : κ → List ι) (i : ι) (k : κ) (n : Nat) : κ → List ι := insertItem (eraseItem columns i) i k n

/-- The row after an item of rank `vacated` has left the column `k`. -/
def Position.closeGap (k : κ) (vacated : Int) (p : Position ι κ) : Position ι κ :=
  if p.column = k ∧ vacated < p.rank then { p with rank := p.rank - 1 } else p

/-- The row after a slot has been opened at `rank` in the column `k`. -/
def Position.openSlot (k : κ) (rank : Int) (p : Position ι κ) : Position ι κ :=
  if p.column = k ∧ rank ≤ p.rank then { p with rank := p.rank + 1 } else p

omit [DecidableEq ι] in
@[simp] theorem Position.closeGap_id (k : κ) (vacated : Int) (p : Position ι κ) : (p.closeGap k vacated).id = p.id := by
  rw [closeGap]; split <;> rfl

omit [DecidableEq ι] in
@[simp] theorem Position.closeGap_column (k : κ) (vacated : Int) (p : Position ι κ) :
    (p.closeGap k vacated).column = p.column := by
  rw [closeGap]; split <;> rfl

omit [DecidableEq ι] in
@[simp] theorem Position.openSlot_id (k : κ) (rank : Int) (p : Position ι κ) : (p.openSlot k rank).id = p.id := by
  rw [openSlot]; split <;> rfl

omit [DecidableEq ι] in
@[simp] theorem Position.openSlot_column (k : κ) (rank : Int) (p : Position ι κ) :
    (p.openSlot k rank).column = p.column := by
  rw [openSlot]; split <;> rfl

omit [DecidableEq ι] in
theorem map_id_closeGap (l : List (Position ι κ)) (k : κ) (vacated : Int) :
    (l.map (Position.closeGap k vacated)).map (·.id) = l.map (·.id) := by
  rw [List.map_map]
  exact List.map_congr_left fun q _ => q.closeGap_id k vacated

omit [DecidableEq ι] in
theorem map_id_openSlot (l : List (Position ι κ)) (k : κ) (rank : Int) :
    (l.map (Position.openSlot k rank)).map (·.id) = l.map (·.id) := by
  rw [List.map_map]
  exact List.map_congr_left fun q _ => q.openSlot_id k rank

omit [DecidableEq κ] in
theorem Represents.not_mem_eraseItem (h : Represents ps columns) (i : ι) (k : κ) : i ∉ eraseItem columns i k :=
  (h.nodup k).not_mem_erase

namespace Represents

theorem erase (h : Represents ps columns) {p : Position ι κ} (hp : p ∈ ps) :
    Represents ((ps.filter (·.id ≠ p.id)).map (Position.closeGap p.column p.rank)) (eraseItem columns p.id) where
  ids := by
    rw [map_id_closeGap]
    exact h.ids.sublist (List.filter_sublist.map _)
  nodup k := (h.nodup k).erase _
  exists_row k i hi := by
    obtain ⟨hne, hi⟩ := (h.nodup k).mem_erase_iff.mp hi
    obtain ⟨q, hq, rfl, hcolumn⟩ := h.exists_row k i hi
    exact ⟨q.closeGap p.column p.rank, List.mem_map_of_mem (by simpa [hq] using hne), by simp, by simpa using hcolumn⟩
  rank q' hq' := by
    obtain ⟨q, hq, rfl⟩ := List.mem_map.mp hq'
    simp only [List.mem_filter, decide_eq_true_eq] at hq
    obtain ⟨hq, hne⟩ := hq
    obtain ⟨hmem, hrank⟩ := h.rank q hq
    rw [Position.closeGap_id, Position.closeGap_column, eraseItem]
    refine ⟨(List.mem_erase_of_ne hne).mpr hmem, ?_⟩
    rw [Position.closeGap]
    by_cases hcolumn : q.column = p.column
    · have hrank' := (h.rank p hp).2
      rw [idxOf_erase (h.nodup _) hmem hne]
      rw [hcolumn] at hrank ⊢
      rw [hrank, hrank']
      simp only [true_and, Nat.cast_lt]
      split_ifs with hlt
      · show ((columns p.column).idxOf q.id : Int) - 1 = _
        omega
      · exact hrank
    · have hnot : p.id ∉ columns q.column := fun hin => hcolumn (h.column_eq hp hin).symm
      rw [if_neg fun hand => hcolumn hand.1, List.erase_of_not_mem hnot]
      exact hrank

theorem insert (h : Represents ps columns) {i : ι} {k : κ} {n : Nat} (hfresh : ∀ k, i ∉ columns k)
    (hn : n ≤ (columns k).length) :
    Represents (ps.map (Position.openSlot k n) ++ [⟨i, k, n⟩]) (insertItem columns i k n) where
  ids := by
    rw [List.map_append, map_id_openSlot]
    refine List.nodup_append.mpr ⟨h.ids, List.nodup_singleton _, fun a ha b hb => ?_⟩
    obtain ⟨q, hq, rfl⟩ := List.mem_map.mp ha
    obtain rfl := List.mem_singleton.mp hb
    rintro rfl
    exact hfresh _ (h.rank q hq).1
  nodup k' := by
    rw [insertItem, Function.update_apply]
    split
    · exact nodup_insertIdx (h.nodup k) (hfresh k) hn
    · exact h.nodup k'
  exists_row k' j hj := by
    rw [insertItem, Function.update_apply] at hj
    by_cases hnew : k' = k ∧ j = i
    · obtain ⟨rfl, rfl⟩ := hnew
      exact ⟨⟨j, k', n⟩, by simp, rfl, rfl⟩
    · have hold : j ∈ columns k' := by
        split at hj
        · rename_i heq
          subst heq
          exact ((List.mem_insertIdx hn).mp hj).resolve_left fun hji => hnew ⟨rfl, hji⟩
        · exact hj
      obtain ⟨q, hq, hid, hcolumn⟩ := h.exists_row k' j hold
      exact ⟨q.openSlot k n, List.mem_append_left _ (List.mem_map_of_mem hq), by simpa using hid, by simpa using hcolumn⟩
  rank q' hq' := by
    rcases List.mem_append.mp hq' with hq' | hq'
    · obtain ⟨q, hq, rfl⟩ := List.mem_map.mp hq'
      obtain ⟨hmem, hrank⟩ := h.rank q hq
      have hne : q.id ≠ i := fun heq => hfresh _ (heq ▸ hmem)
      rw [Position.openSlot_id, Position.openSlot_column, insertItem, Function.update_apply, Position.openSlot]
      split
      · rename_i hcolumn
        rw [hcolumn] at hmem hrank
        refine ⟨(List.mem_insertIdx hn).mpr (Or.inr hmem), ?_⟩
        rw [idxOf_insertIdx_of_mem hmem hne hn, hrank]
        simp only [hcolumn, true_and, Nat.cast_le]
        split_ifs
        · show ((columns k).idxOf q.id : Int) + 1 = _
          omega
        · exact hrank
      · rename_i hcolumn
        rw [if_neg fun hand => hcolumn hand.1]
        exact ⟨hmem, hrank⟩
    · obtain rfl := List.mem_singleton.mp hq'
      simp only [insertItem, Function.update_self]
      exact ⟨(List.mem_insertIdx hn).mpr (Or.inl rfl), by rw [idxOf_insertIdx_self (hfresh k) hn]⟩

/-- Closing the gap of an item, opening a slot among the others and putting the item there, all on
one table. -/
theorem move (h : Represents ps columns) {p : Position ι κ} (hp : p ∈ ps) {k : κ} {n : Nat}
    (hn : n ≤ (eraseItem columns p.id k).length) :
    Represents (ps.map fun q => if q.id = p.id then ⟨p.id, k, n⟩
      else (q.closeGap p.column p.rank).openSlot k n) (moveItem columns p.id k n) := by
  refine ((h.erase hp).insert (h.not_mem_eraseItem p.id) hn).perm ?_
  obtain ⟨before, after, rfl⟩ := List.append_of_mem hp
  have hother : ∀ q ∈ before ++ after, q.id ≠ p.id := by
    intro q hq heq
    have hids := h.ids
    rw [List.map_append, List.map_cons, List.nodup_middle, List.nodup_cons, ← List.map_append] at hids
    exact hids.1 (heq ▸ List.mem_map_of_mem hq)
  have hmap : ∀ l : List (Position ι κ), (∀ q ∈ l, q ∈ before ++ after) →
      l.map (fun q => if q.id = p.id then ⟨p.id, k, n⟩ else (q.closeGap p.column p.rank).openSlot k n) =
        ((l.filter (·.id ≠ p.id)).map (Position.closeGap p.column p.rank)).map (Position.openSlot k n) := by
    intro l hl
    rw [List.filter_eq_self.mpr fun q hq => by simpa using hother q (hl q hq), List.map_map]
    exact List.map_congr_left fun q hq => if_neg (hother q (hl q hq))
  rw [List.map_append, List.map_cons, if_pos rfl, List.filter_append, List.filter_cons_of_neg (by simp),
    List.map_append, List.map_append, hmap before fun q hq => List.mem_append_left _ hq,
    hmap after fun q hq => List.mem_append_right _ hq]
  exact List.perm_middle.trans (List.perm_append_singleton _ _).symm

end Represents

omit [DecidableEq ι] in
@[simp] theorem insertItem_self (columns : κ → List ι) (i : ι) (k : κ) (n : Nat) :
    insertItem columns i k n k = (columns k).insertIdx n i := Function.update_self ..

omit [DecidableEq ι] in
theorem insertItem_of_ne (columns : κ → List ι) (i : ι) {k k' : κ} (n : Nat) (h : k' ≠ k) :
    insertItem columns i k n k' = columns k' := Function.update_of_ne h ..

@[simp] theorem moveItem_self (columns : κ → List ι) (i : ι) (k : κ) (n : Nat) :
    moveItem columns i k n k = (eraseItem columns i k).insertIdx n i := insertItem_self ..

theorem moveItem_of_ne (columns : κ → List ι) (i : ι) {k k' : κ} (n : Nat) (h : k' ≠ k) :
    moveItem columns i k n k' = eraseItem columns i k' := insertItem_of_ne _ _ _ h

omit [DecidableEq κ] in
theorem eraseItem_of_not_mem {i : ι} {k : κ} (h : i ∉ columns k) : eraseItem columns i k = columns k :=
  List.erase_of_not_mem h

omit [DecidableEq κ] in
theorem mem_eraseItem_of_ne {i j : ι} {k : κ} (h : j ∈ columns k) (hne : j ≠ i) : j ∈ eraseItem columns i k :=
  (List.mem_erase_of_ne hne).mpr h

theorem mem_moveItem_self (columns : κ → List ι) (i : ι) (k : κ) {n : Nat} (hn : n ≤ (eraseItem columns i k).length) :
    i ∈ moveItem columns i k n k := by
  rw [moveItem, insertItem, Function.update_self]
  exact (List.mem_insertIdx hn).mpr (Or.inl rfl)

/-- Where an item was put makes no difference once it is taken out. -/
theorem eraseItem_moveItem {columns : κ → List ι} {i : ι} {k : κ} {n : Nat} (hnodup : ∀ k, (columns k).Nodup)
    (hn : n ≤ (eraseItem columns i k).length) : eraseItem (moveItem columns i k n) i = eraseItem columns i := by
  funext k'
  have herased : i ∉ eraseItem columns i k' := (hnodup k').not_mem_erase
  rw [eraseItem]
  by_cases h : k' = k
  · subst h
    have hnew : (moveItem columns i k' n k').Nodup := by
      rw [moveItem_self]
      exact nodup_insertIdx ((hnodup k').erase i) herased hn
    rw [List.erase_eq_eraseIdx_of_idxOf (by rw [moveItem_self, idxOf_insertIdx_self herased hn]), moveItem_self,
      List.eraseIdx_insertIdx_self]
  · rw [moveItem_of_ne _ _ _ h, List.erase_of_not_mem herased]

theorem moveItem_congr {columns columns' : κ → List ι} {i : ι} (h : eraseItem columns i = eraseItem columns' i) (k : κ)
    (n : Nat) : moveItem columns i k n = moveItem columns' i k n := by
  rw [moveItem, h, ← moveItem]

/-- An item that is put where it is stays where it is. -/
theorem moveItem_idxOf {columns : κ → List ι} {i : ι} {k : κ} (hmem : i ∈ columns k) (hother : ∀ k', i ∈ columns k' → k' = k) :
    moveItem columns i k ((columns k).idxOf i) = columns := by
  funext k'
  by_cases h : k' = k
  · subst h
    have hlt : (columns k').idxOf i < (columns k').length := List.idxOf_lt_length_of_mem hmem
    have hget : (columns k')[(columns k').idxOf i] = i := List.getElem_idxOf hlt
    calc moveItem columns i k' ((columns k').idxOf i) k'
        = ((columns k').eraseIdx ((columns k').idxOf i)).insertIdx ((columns k').idxOf i)
            (columns k')[(columns k').idxOf i] := by
          rw [moveItem_self, eraseItem, List.erase_eq_eraseIdx_of_idxOf rfl, hget]
      _ = columns k' := List.insertIdx_eraseIdx_getElem hlt
  · rw [moveItem_of_ne _ _ _ h, eraseItem_of_not_mem fun hin => h (hother k' hin)]

omit [DecidableEq ι] in
theorem insertItem_restrict {κ' : Type*} [DecidableEq κ'] {f : κ' → κ} (hf : Function.Injective f)
    (columns : κ → List ι) (i : ι) (k : κ') (n : Nat) :
    (fun k' => insertItem columns i (f k) n (f k')) = insertItem (fun k' => columns (f k')) i k n := by
  funext k'
  simp only [insertItem, Function.update_apply, hf.eq_iff]

theorem moveItem_restrict {κ' : Type*} [DecidableEq κ'] {f : κ' → κ} (hf : Function.Injective f) (columns : κ → List ι)
    (i : ι) (k : κ') (n : Nat) :
    (fun k' => moveItem columns i (f k) n (f k')) = moveItem (fun k' => columns (f k')) i k n := by
  exact insertItem_restrict hf (eraseItem columns i) i k n

/-! ### Dense tables -/

/-- The ranks of every column are pairwise distinct and exactly `0, …, n - 1`. -/
def Dense (ps : List (Position ι κ)) : Prop :=
  ∀ k, ((ps.filter (·.column = k)).map (·.rank)).Perm ((List.range (ps.filter (·.column = k)).length).map (↑))

/-- The rows of a column in rank order. -/
def sortedColumn (ps : List (Position ι κ)) (k : κ) : List (Position ι κ) :=
  (ps.filter (·.column = k)).insertionSort (·.rank ≤ ·.rank)

def arrangement (ps : List (Position ι κ)) (k : κ) : List ι := (sortedColumn ps k).map (·.id)

theorem Represents.dense (h : Represents ps columns) : Dense ps := by
  intro k
  have hranks : (ps.filter (·.column = k)).map (·.rank) =
      ((ps.filter (·.column = k)).map (·.id)).map fun i => ((columns k).idxOf i : Int) := by
    rw [List.map_map]
    refine List.map_congr_left fun p hp => ?_
    obtain ⟨hmem, hcolumn⟩ := List.mem_filter.mp hp
    rw [decide_eq_true_eq] at hcolumn
    rw [(h.rank p hmem).2, hcolumn]
    rfl
  rw [hranks, h.length_filter k]
  refine ((h.map_id_filter_perm k).map _).trans (List.Perm.of_eq ?_)
  refine List.ext_getElem (by simp) fun i hi hi' => ?_
  simp only [List.getElem_map, List.getElem_range, Nat.cast_inj]
  exact (h.nodup k).idxOf_getElem i _

omit [DecidableEq ι] in
theorem Dense.rank_sortedColumn (h : Dense ps) (k : κ) :
    (sortedColumn ps k).map (·.rank) = (List.range (sortedColumn ps k).length).map (↑) := by
  have hperm : (sortedColumn ps k).Perm (ps.filter (·.column = k)) := List.perm_insertionSort _ _
  have hranks := (hperm.map (·.rank)).trans (h k)
  rw [← hperm.length_eq] at hranks
  refine hranks.eq_of_pairwise (fun a b _ _ hab hba => le_antisymm hab hba) ?_ ?_
  · exact List.pairwise_map.mpr (List.pairwise_insertionSort _ _)
  · exact List.pairwise_map.mpr (List.pairwise_lt_range.imp fun hlt => by omega)

theorem Dense.represents (h : Dense ps) (hids : (ps.map (·.id)).Nodup) : Represents ps (arrangement ps) where
  ids := hids
  nodup k := ((List.perm_insertionSort _ _).map _).nodup_iff.mpr (hids.sublist (List.filter_sublist.map _))
  exists_row k i hi := by
    obtain ⟨p, hp, rfl⟩ := List.mem_map.mp hi
    obtain ⟨hp, hcolumn⟩ := List.mem_filter.mp (List.mem_insertionSort _ |>.mp hp)
    exact ⟨p, hp, rfl, by simpa using hcolumn⟩
  rank p hp := by
    have hmem : p ∈ sortedColumn ps p.column :=
      (List.mem_insertionSort _).mpr (List.mem_filter.mpr ⟨hp, by simp⟩)
    obtain ⟨j, hj, hget⟩ := List.getElem_of_mem hmem
    have hnodup : (arrangement ps p.column).Nodup :=
      ((List.perm_insertionSort _ _).map _).nodup_iff.mpr (hids.sublist (List.filter_sublist.map _))
    have hj' : j < (arrangement ps p.column).length := by simpa [arrangement] using hj
    have hindex : (arrangement ps p.column)[j] = p.id := by simp [arrangement, hget]
    refine ⟨List.mem_map_of_mem hmem, ?_⟩
    rw [← hindex, hnodup.idxOf_getElem, ← hget]
    have hrank := List.getElem_of_eq (h.rank_sortedColumn p.column) (by simpa using hj)
    simpa using hrank

namespace Represents

omit [DecidableEq κ] in
/-- Rows of one column, sorted by rank, stand in the order of the column. -/
theorem map_id_insertionSort (h : Represents ps columns) {k : κ} {rows : List (Position ι κ)} {l : List ι}
    (hrows : ∀ p ∈ rows, p ∈ ps ∧ p.column = k) (hperm : (rows.map (·.id)).Perm l) (hsub : l.Sublist (columns k)) :
    (rows.insertionSort (·.rank ≤ ·.rank)).map (·.id) = l := by
  refine eq_of_perm_of_sorted_idxOf (((List.perm_insertionSort _ _).map _).trans hperm) hsub ?_ (h.nodup k)
  refine List.pairwise_map.mpr ((List.pairwise_insertionSort _ _).imp_of_mem fun {p q} hp hq hle => ?_)
  obtain ⟨hp, rfl⟩ := hrows p ((List.mem_insertionSort _).mp hp)
  obtain ⟨hq, hcolumn⟩ := hrows q ((List.mem_insertionSort _).mp hq)
  rw [(h.rank p hp).2, (h.rank q hq).2, hcolumn] at hle
  exact_mod_cast hle

theorem arrangement_eq (h : Represents ps columns) (k : κ) : arrangement ps k = columns k :=
  h.map_id_insertionSort (fun _ hp => ⟨List.mem_of_mem_filter hp, by simpa using (List.mem_filter.mp hp).2⟩)
    (h.map_id_filter_perm k) (List.Sublist.refl _)

omit [DecidableEq ι] [DecidableEq κ] in
private theorem takeWhile_append_dropWhile_eq (row : Position ι κ) {rank : Nat} (hrank : row.rank = rank) {first : Nat}
    {rows : List (Position ι κ)} (hrows : rows.map (·.rank) = (List.range' first rows.length).map (↑)) :
    rows.takeWhile (·.rank ≤ row.rank) ++ row :: rows.dropWhile (·.rank ≤ row.rank) =
      rows.insertIdx (min (rank + 1 - first) rows.length) row := by
  induction rows generalizing first with
  | nil => simp
  | cons head rows ih =>
      rw [List.length_cons, List.range'_succ, List.map_cons, List.map_cons, List.cons.injEq] at hrows
      obtain ⟨hhead, hrest⟩ := hrows
      by_cases hle : first ≤ rank
      · rw [List.takeWhile_cons_of_pos (by simp [hhead, hrank, hle]), List.dropWhile_cons_of_pos (by simp [hhead, hrank, hle]),
          List.cons_append, ih hrest, List.length_cons,
          show min (rank + 1 - first) (rows.length + 1) = min (rank + 1 - (first + 1)) rows.length + 1 by omega,
          List.insertIdx_succ_cons]
      · rw [List.takeWhile_cons_of_neg (by simpa [hhead, hrank] using hle),
          List.dropWhile_cons_of_neg (by simpa [hhead, hrank] using hle),
          show min (rank + 1 - first) (head :: rows).length = 0 by omega, List.insertIdx_zero, List.nil_append]

/-- An appended row that ties with a row of its column sorts one place below it. -/
theorem arrangement_append (h : Represents ps columns) (i : ι) (k : κ) (rank : Nat) :
    arrangement (ps ++ [⟨i, k, rank⟩]) k = (columns k).insertIdx (min (rank + 1) (columns k).length) i := by
  have hsorted : (sortedColumn ps k).map (·.rank) = (List.range' 0 (sortedColumn ps k).length).map (↑) := by
    rw [← List.range_eq_range']
    exact h.dense.rank_sortedColumn k
  have hlength : (sortedColumn ps k).length = (columns k).length := by
    rw [← h.arrangement_eq k, arrangement, List.length_map]
  rw [← h.arrangement_eq k, arrangement, sortedColumn, List.filter_append, List.filter_cons_of_pos (by simp),
    List.filter_nil, insertionSort_append_singleton]
  rw [← sortedColumn, takeWhile_append_dropWhile_eq ⟨i, k, rank⟩ rfl hsorted, h.arrangement_eq k, hlength, Nat.sub_zero,
    List.map_insertIdx, ← arrangement, h.arrangement_eq k]

/-- The columns are determined by the rows. -/
theorem columns_unique {columns' : κ → List ι} (h : Represents ps columns) (h' : Represents ps columns') :
    columns = columns' := by
  funext k
  rw [← h.arrangement_eq k, h'.arrangement_eq k]

end Represents

theorem dense_iff_represents (hids : (ps.map (·.id)).Nodup) : Dense ps ↔ ∃ columns, Represents ps columns :=
  ⟨fun h => ⟨_, h.represents hids⟩, fun ⟨_, h⟩ => h.dense⟩

end RankedColumns
