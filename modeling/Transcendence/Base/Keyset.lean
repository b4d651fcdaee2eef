import Mathlib.Data.List.Sort
import Mathlib.Order.WellFoundedSet
import Mathlib.Tactic

/-!
# Keyset pagination

Rows have keys in a linear order. A page holds the greatest rows below a cursor, and the next request
takes the key of the smallest row received as its cursor. The rows may change between the requests in
any way: what is there for all of them is received, and every key once.
-/

namespace Keyset

variable {α κ : Type*} [LinearOrder κ]

/-! ### One page -/

section Page

variable (key : α → κ)

def below (bound : Option κ) (row : α) : Bool :=
  bound.all fun c => key row < c

/-- The greatest rows below the cursor, the smallest of them first. -/
def page (rows : List α) (bound : Option κ) (take : Nat) : List α :=
  (((rows.filter (below key bound)).insertionSort (key · ≥ key ·)).take take).reverse

end Page

variable {key : α → κ} {rows : List α} {bound : Option κ} {take : Nat} {row : α}

theorem below_iff : below key bound row = true ↔ ∀ c ∈ bound, key row < c := by
  cases bound with
  | none => simp [below]
  | some c => simp [below]

theorem mem_of_mem_page (h : row ∈ page key rows bound take) : row ∈ rows ∧ ∀ c ∈ bound, key row < c := by
  rw [page, List.mem_reverse] at h
  obtain ⟨hrow, hbelow⟩ := List.mem_filter.mp ((List.mem_insertionSort _).mp (List.mem_of_mem_take h))
  exact ⟨hrow, below_iff.mp hbelow⟩

theorem sorted_rows (hkeys : (rows.map key).Nodup) :
    ((rows.filter (below key bound)).insertionSort (key · ≥ key ·)).Pairwise (key · > key ·) := by
  have hle := List.pairwise_insertionSort (key · ≥ key ·) (rows.filter (below key bound))
  have hne : (((rows.filter (below key bound)).insertionSort (key · ≥ key ·)).map key).Nodup :=
    ((List.perm_insertionSort _ _).map key).nodup_iff.mpr (hkeys.sublist (List.filter_sublist.map key))
  rw [List.Nodup, List.pairwise_map] at hne
  exact (hle.and hne).imp fun h => lt_of_le_of_ne h.1 h.2.symm

theorem page_sorted (hkeys : (rows.map key).Nodup) : (page key rows bound take).Pairwise (key · < key ·) := by
  rw [page, List.pairwise_reverse]
  exact (sorted_rows hkeys).sublist (List.take_sublist _ _)

/-- A row below the cursor is in the page, or the page is full of greater ones. -/
theorem mem_page_or (hkeys : (rows.map key).Nodup) (hrow : row ∈ rows) (hbelow : ∀ c ∈ bound, key row < c) :
    row ∈ page key rows bound take ∨
      (page key rows bound take).length = take ∧ ∀ other ∈ page key rows bound take, key row < key other := by
  have hsorted : ((rows.filter (below key bound)).insertionSort (key · ≥ key ·)).Pairwise (key · > key ·) :=
    sorted_rows hkeys
  have hmem : row ∈ (rows.filter (below key bound)).insertionSort (key · ≥ key ·) :=
    (List.mem_insertionSort _).mpr (List.mem_filter.mpr ⟨hrow, below_iff.mpr hbelow⟩)
  rw [page, List.mem_reverse, List.length_reverse, List.length_take]
  set sorted := (rows.filter (below key bound)).insertionSort (key · ≥ key ·)
  rw [← List.take_append_drop take sorted] at hmem hsorted
  rcases List.mem_append.mp hmem with htake | hdrop
  · exact Or.inl htake
  · have hlength : 0 < (sorted.drop take).length := List.length_pos_of_mem hdrop
    rw [List.length_drop] at hlength
    refine Or.inr ⟨by omega, fun other hother => ?_⟩
    exact (List.pairwise_append.mp hsorted).2.2 other (List.mem_reverse.mp hother) row hdrop

/-- In a list in descending order, the first `n` are those with fewer than `n` greater ones. -/
theorem mem_take_iff {l : List α} (h : l.Pairwise (key · > key ·)) {n : Nat} :
    row ∈ l.take n ↔ row ∈ l ∧ l.countP (key row < key ·) < n := by
  induction l generalizing n with
  | nil => simp
  | cons first l ih =>
      obtain ⟨hfirst, hrest⟩ := List.pairwise_cons.mp h
      cases n with
      | zero => simp
      | succ n =>
          rw [List.take_succ_cons, List.mem_cons, List.mem_cons, List.countP_cons, ih hrest]
          constructor
          · rintro (rfl | ⟨hmem, hcount⟩)
            · have hnone : l.countP (key row < key ·) = 0 := by
                rw [List.countP_eq_zero]
                intro other hother
                simpa using le_of_lt (hfirst other hother)
              refine ⟨Or.inl rfl, ?_⟩
              simp [hnone]
            · refine ⟨Or.inr hmem, ?_⟩
              rw [if_pos (decide_eq_true (hfirst row hmem))]
              omega
          · rintro ⟨rfl | hmem, hcount⟩
            · exact Or.inl rfl
            · rw [if_pos (decide_eq_true (hfirst row hmem))] at hcount
              exact Or.inr ⟨hmem, by omega⟩

/-- The page without a cursor. -/
theorem mem_page_none_iff (hkeys : (rows.map key).Nodup) :
    row ∈ page key rows none take ↔ row ∈ rows ∧ rows.countP (key row < key ·) < take := by
  have hfilter : rows.filter (below key none) = rows := List.filter_eq_self.mpr fun _ _ => rfl
  have hsorted : ((rows.filter (below key none)).insertionSort (key · ≥ key ·)).Pairwise (key · > key ·) :=
    sorted_rows hkeys
  rw [page, List.mem_reverse, mem_take_iff hsorted, hfilter, List.mem_insertionSort,
    (List.perm_insertionSort _ _).countP_eq]

/-! ### Page after page -/

/-- When the iteration ends, by the length of a page: after an empty page, and not after a full one. -/
structure EndRule (take : Nat) where
  ends : Nat → Bool
  empty : ends 0 = true
  short : ∀ length, ends length = true → length < take

structure Paging (α : Type*) where
  received : List α
  ended : Bool

def Paging.cursor (key : α → κ) (paging : Paging α) : Option κ :=
  paging.received.head?.map key

def Paging.next (rule : EndRule take) (paging : Paging α) (received : List α) : Paging α :=
  if paging.ended then paging else ⟨received ++ paging.received, rule.ends received.length⟩

/-- The iteration after some requests, each on the rows there are by then. -/
def pagings (key : α → κ) (rule : EndRule take) (rows : Nat → List α) : Nat → Paging α
  | 0 => ⟨[], false⟩
  | n + 1 =>
      (pagings key rule rows n).next rule (page key (rows n) ((pagings key rule rows n).cursor key) take)

variable {rule : EndRule take} {allRows : Nat → List α}

theorem pagings_succ_of_ended {n : Nat} (h : (pagings key rule allRows n).ended = true) :
    pagings key rule allRows (n + 1) = pagings key rule allRows n := by
  rw [pagings, Paging.next, if_pos h]

theorem pagings_succ {n : Nat} (h : (pagings key rule allRows n).ended = false) :
    pagings key rule allRows (n + 1) =
      ⟨page key (allRows n) ((pagings key rule allRows n).cursor key) take ++ (pagings key rule allRows n).received,
        rule.ends (page key (allRows n) ((pagings key rule allRows n).cursor key) take).length⟩ := by
  rw [pagings, Paging.next, h, if_neg Bool.false_ne_true]

/-- The requests so far have received `received`: in order, from rows there were, and all that was there throughout and is not
below the cursor, or all that was there throughout if this is the end. -/
structure Received (key : α → κ) (rows : Nat → List α) (n : Nat) (paging : Paging α) : Prop where
  sorted : paging.received.Pairwise (key · < key ·)
  origin : ∀ row ∈ paging.received, ∃ i < n, row ∈ rows i
  complete : ∀ k, (∀ i < n, ∃ row ∈ rows i, key row = k) → (paging.ended = false → ∃ c ∈ paging.cursor key, c ≤ k) →
    k ∈ paging.received.map key

theorem head_le {received : List α} (hsorted : received.Pairwise (key · < key ·)) {c : κ} (hc : c ∈ received.head?.map key)
    (hrow : row ∈ received) : c ≤ key row := by
  cases received with
  | nil => cases hrow
  | cons head received =>
      obtain rfl : key head = c := Option.some.inj hc
      rcases List.mem_cons.mp hrow with rfl | hrow
      · exact le_refl _
      · exact ((List.pairwise_cons.mp hsorted).1 row hrow).le

omit [LinearOrder κ] in
theorem Paging.exists_cursor (key : α → κ) {paging : Paging α} (h : paging.received ≠ []) : ∃ c, c ∈ paging.cursor key := by
  cases hreceived : paging.received with
  | nil => exact absurd hreceived h
  | cons head rest => exact ⟨key head, by rw [Paging.cursor, hreceived]; rfl⟩

theorem received_pagings (htake : 1 ≤ take) (hkeys : ∀ n, ((allRows n).map key).Nodup) (n : Nat) :
    Received key allRows n (pagings key rule allRows n) := by
  induction n with
  | zero =>
      refine ⟨List.Pairwise.nil, fun row hrow => absurd hrow List.not_mem_nil, fun k _ hend => ?_⟩
      obtain ⟨c, hc, _⟩ := hend rfl
      cases hc
  | succ n ih =>
      cases hended : (pagings key rule allRows n).ended with
      | true =>
          rw [pagings_succ_of_ended hended]
          refine ⟨ih.sorted, fun row hrow => ?_, fun k hthroughout hend => ?_⟩
          · obtain ⟨i, hi, hin⟩ := ih.origin row hrow
            exact ⟨i, by omega, hin⟩
          · exact ih.complete k (fun i hi => hthroughout i (by omega)) hend
      | false =>
          rw [pagings_succ hended]
          set before := pagings key rule allRows n
          set new := page key (allRows n) (before.cursor key) take
          have hcross : ∀ row ∈ new, ∀ old ∈ before.received, key row < key old := by
            intro row hrow old hold
            obtain ⟨c, hc⟩ := Paging.exists_cursor key (List.ne_nil_of_mem hold)
            exact lt_of_lt_of_le ((mem_of_mem_page hrow).2 c hc) (head_le ih.sorted hc hold)
          refine ⟨List.pairwise_append.mpr ⟨page_sorted (hkeys n), ih.sorted, hcross⟩, fun row hrow => ?_, ?_⟩
          · rcases List.mem_append.mp hrow with hrow | hrow
            · exact ⟨n, by omega, (mem_of_mem_page hrow).1⟩
            · obtain ⟨i, hi, hin⟩ := ih.origin row hrow
              exact ⟨i, by omega, hin⟩
          · intro k hthroughout hend
            rw [List.map_append, List.mem_append]
            by_cases habove : ∃ c ∈ before.cursor key, c ≤ k
            · exact Or.inr (ih.complete k (fun i hi => hthroughout i (by omega)) fun _ => habove)
            · left
              obtain ⟨row, hrow, rfl⟩ := hthroughout n (by omega)
              have hbelow : ∀ c ∈ before.cursor key, key row < c := fun c hc => not_le.mp fun hle => habove ⟨c, hc, hle⟩
              have hcases : row ∈ new ∨ new.length = take ∧ ∀ other ∈ new, key row < key other :=
                mem_page_or (hkeys n) hrow hbelow
              rcases hcases with hin | hfull
              · exact List.mem_map_of_mem hin
              · obtain ⟨hlength, hgreater⟩ := hfull
                -- a full page does not end the iteration, and its last row is above the one in question
                have hgoes : rule.ends new.length = false := by
                  rw [Bool.eq_false_iff]
                  intro hends
                  have hshort := rule.short _ hends
                  omega
                obtain ⟨c, hc, hle⟩ := hend hgoes
                cases hpage : new with
                | nil =>
                    rw [hpage, List.length_nil] at hlength
                    omega
                | cons head rest =>
                    rw [Paging.cursor, hpage] at hc
                    obtain rfl : key head = c := Option.some.inj hc
                    exact absurd (hgreater head (hpage ▸ List.mem_cons_self)) (not_lt.mpr hle)

/-- The cursor goes down with every request, so the iteration ends where no keys go down for ever. -/
theorem exists_ended {keys : Set κ} (hwf : keys.WellFoundedOn (· < ·)) (hmem : ∀ n, ∀ row ∈ allRows n, key row ∈ keys) :
    ∃ n, (pagings key rule allRows n).ended = true := by
  have hnext : ∀ n, (pagings key rule allRows n).ended = false →
      (pagings key rule allRows (n + 1)).ended = true ∨
        ∃ c ∈ keys, c ∈ (pagings key rule allRows (n + 1)).cursor key ∧
          ∀ c' ∈ (pagings key rule allRows n).cursor key, c < c' := by
    intro n hended
    rw [pagings_succ hended]
    cases hpage : page key (allRows n) ((pagings key rule allRows n).cursor key) take with
    | nil => exact Or.inl rule.empty
    | cons head rest =>
        right
        have hhead : head ∈ page key (allRows n) ((pagings key rule allRows n).cursor key) take :=
          hpage ▸ List.mem_cons_self
        obtain ⟨hrow, hbelow⟩ := mem_of_mem_page hhead
        exact ⟨key head, hmem n head hrow, rfl, hbelow⟩
  have hdown : ∀ c ∈ keys, ∀ n, c ∈ (pagings key rule allRows n).cursor key →
      ∃ m, (pagings key rule allRows m).ended = true := by
    intro c hc
    apply hwf.induction hc
    intro c _ ih n hcursor
    cases hended : (pagings key rule allRows n).ended with
    | true => exact ⟨n, hended⟩
    | false =>
        rcases hnext n hended with h | h
        · exact ⟨n + 1, h⟩
        · obtain ⟨c', hc', hcursor', hlt⟩ := h
          exact ih c' hc' (hlt c hcursor) (n + 1) hcursor'
  rcases hnext 0 rfl with h | h
  · exact ⟨1, h⟩
  · obtain ⟨c, hc, hcursor, _⟩ := h
    exact hdown c hc 1 hcursor

end Keyset
