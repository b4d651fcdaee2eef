import Mathlib.Data.List.Chain
import Mathlib.Data.List.Nodup

/-!
# Tables

A table is the list of its rows in the order they were inserted. An update rewrites the rows its condition selects, a lookup by a column that is unique finds the row that holds the value, and rows that refer to one another by key form a chain when each names the row after it.
-/

namespace Table

variable {ρ κ α : Type*}

/-- `UPDATE … SET f WHERE p`. -/
def update (p : ρ → Bool) (f : ρ → ρ) (rows : List ρ) : List ρ := rows.map fun r => if p r then f r else r

section Update

variable {p : ρ → Bool} {f : ρ → ρ}

theorem update_append (rows rows' : List ρ) : update p f (rows ++ rows') = update p f rows ++ update p f rows' :=
  List.map_append

theorem update_singleton (r : ρ) : update p f [r] = [if p r then f r else r] := rfl

theorem update_eq_self {rows : List ρ} (h : ∀ r ∈ rows, p r = false) : update p f rows = rows := by
  induction rows with
  | nil => rfl
  | cons r rows ih =>
      rw [List.forall_mem_cons] at h
      show (if p r then f r else r) :: update p f rows = r :: rows
      rw [h.1, ih h.2]
      rfl

theorem mem_update {rows : List ρ} {r : ρ} :
    r ∈ update p f rows ↔ ∃ old ∈ rows, (if p old then f old else old) = r := List.mem_map

/-- An update leaves a column it does not set. -/
theorem map_update (column : ρ → α) (h : ∀ r, p r → column (f r) = column r) (rows : List ρ) :
    (update p f rows).map column = rows.map column := by
  rw [update, List.map_map]
  refine List.map_congr_left fun r _ => ?_
  show column (if p r then f r else r) = column r
  split
  · next hp => exact h r hp
  · rfl

theorem filter_update (q : ρ → Bool) (h : ∀ r, p r → q (f r) = q r) (rows : List ρ) :
    (update p f rows).filter q = update p f (rows.filter q) := by
  induction rows with
  | nil => rfl
  | cons r rows ih =>
      have hq : q (if p r then f r else r) = q r := by
        split
        · next hp => exact h r hp
        · rfl
      show List.filter q ((if p r then f r else r) :: update p f rows) = _
      rw [List.filter_cons, List.filter_cons, hq, ih]
      split <;> rfl

theorem find?_update (q : ρ → Bool) (h : ∀ r, p r → q (f r) = q r) (rows : List ρ) :
    (update p f rows).find? q = (rows.find? q).map fun r => if p r then f r else r := by
  induction rows with
  | nil => rfl
  | cons r rows ih =>
      have hq : q (if p r then f r else r) = q r := by
        split
        · next hp => exact h r hp
        · rfl
      show List.find? q ((if p r then f r else r) :: update p f rows) = _
      rw [List.find?_cons, List.find?_cons, hq, ih]
      split <;> rfl

end Update

section Lookup

variable {key : ρ → κ} {rows : List ρ}

theorem key_injective (h : (rows.map key).Nodup) {r s : ρ} (hr : r ∈ rows) (hs : s ∈ rows) (heq : key r = key s) :
    r = s := List.inj_on_of_nodup_map h hr hs heq

theorem find?_eq_some_of_mem [DecidableEq κ] (h : (rows.map key).Nodup) {r : ρ} {k : κ} (hr : r ∈ rows)
    (hkey : key r = k) : (rows.find? fun s => key s = k) = some r := by
  induction rows with
  | nil => cases hr
  | cons s rows ih =>
      rw [List.map_cons, List.nodup_cons] at h
      rcases List.mem_cons.mp hr with rfl | hmem
      · exact List.find?_cons_of_pos (by simpa using hkey)
      · rw [List.find?_cons_of_neg, ih h.2 hmem]
        intro hs
        apply h.1
        rw [of_decide_eq_true hs, ← hkey]
        exact List.mem_map_of_mem hmem

theorem nodup_concat (h : (rows.map key).Nodup) {r : ρ} (hnew : key r ∉ rows.map key) :
    ((rows ++ [r]).map key).Nodup := by
  rw [List.map_append, List.nodup_append]
  refine ⟨h, List.nodup_singleton _, fun a ha b hb => ?_⟩
  obtain rfl : b = key r := List.mem_singleton.mp hb
  rintro rfl
  exact hnew ha

end Lookup

/-! ### Linked rows -/

/-- Each row names the key of the row after it, and the last one names nothing. -/
structure Linked (key : ρ → κ) (next : ρ → Option κ) (rows : List ρ) : Prop where
  chain : rows.IsChain fun r s => next r = some (key s)
  ends : ∃ init last, rows = init ++ [last] ∧ next last = none

section Linked

variable {key : ρ → κ} {next : ρ → Option κ} {init rows : List ρ} {r last : ρ}

theorem linked_singleton (h : next r = none) : Linked key next [r] := ⟨.singleton r, [], r, rfl, h⟩

theorem Linked.last_next (h : Linked key next (init ++ [last])) : next last = none := by
  obtain ⟨init', last', heq, hnext⟩ := h.ends
  obtain ⟨-, hlast⟩ := List.append_inj' heq rfl
  cases hlast
  exact hnext

theorem Linked.next_isSome (h : Linked key next (init ++ [last])) (hr : r ∈ init) :
    ∃ s ∈ init ++ [last], next r = some (key s) := by
  induction init with
  | nil => cases hr
  | cons x init ih =>
      have hchain := h.chain
      rcases List.mem_cons.mp hr with rfl | hmem
      · cases init with
        | nil => exact ⟨last, by simp, (List.isChain_cons_cons.mp hchain).1⟩
        | cons y init => exact ⟨y, by simp, (List.isChain_cons_cons.mp hchain).1⟩
      · obtain ⟨s, hs, hnext⟩ := ih ⟨hchain.tail, init, last, rfl, h.last_next⟩ hmem
        exact ⟨s, List.mem_cons_of_mem x hs, hnext⟩

/-- The last row is the only one that names nothing. -/
theorem Linked.filter_eq (h : Linked key next (init ++ [last])) :
    ((init ++ [last]).filter fun r => (next r).isNone) = [last] := by
  rw [List.filter_append, List.filter_eq_nil_iff.mpr, List.filter_cons_of_pos]
  · rfl
  · rw [h.last_next]
    rfl
  · intro r hr
    obtain ⟨s, -, hnext⟩ := h.next_isSome hr
    rw [hnext]
    exact Bool.false_ne_true

theorem Linked.eq_last (h : Linked key next (init ++ [last])) (hr : r ∈ init ++ [last]) (hnext : next r = none) :
    r = last := by
  rcases List.mem_append.mp hr with hmem | hmem
  · obtain ⟨s, -, hsome⟩ := h.next_isSome hmem
    cases hnext.symm.trans hsome
  · exact List.mem_singleton.mp hmem

/-- Appends a row behind the last one, which from then on names it. -/
theorem Linked.extend {last' new : ρ} (h : Linked key next (init ++ [last])) (hkey : key last' = key last)
    (hnext : next last' = some (key new)) (hnew : next new = none) : Linked key next (init ++ [last', new]) := by
  refine ⟨?_, init ++ [last'], new, by simp, hnew⟩
  have hchain := h.chain
  rw [List.isChain_append] at hchain ⊢
  refine ⟨hchain.1, List.isChain_pair.mpr hnext, fun x hx y hy => ?_⟩
  obtain rfl : last' = y := Option.some.inj hy
  rw [hkey]
  exact hchain.2.2 x hx last rfl

/-- An update that leaves the keys and the links. -/
theorem Linked.update {p : ρ → Bool} {f : ρ → ρ} (hkey : ∀ r, p r → key (f r) = key r)
    (hnext : ∀ r, p r → next (f r) = next r) (h : Linked key next rows) :
    Linked key next (update p f rows) := by
  have hkey' : ∀ r, key (if p r then f r else r) = key r := by
    intro r
    split
    · next hp => exact hkey r hp
    · rfl
  have hnext' : ∀ r, next (if p r then f r else r) = next r := by
    intro r
    split
    · next hp => exact hnext r hp
    · rfl
  obtain ⟨init, last, rfl, hlast⟩ := h.ends
  refine ⟨?_, Table.update p f init, if p last then f last else last, ?_, (hnext' last).trans hlast⟩
  · rw [Table.update, List.isChain_map]
    refine h.chain.imp fun r s hrs => ?_
    rw [hnext', hkey']
    exact hrs
  · rw [update_append, update_singleton]

end Linked

end Table
