import Mathlib.Tactic

/-!
# Insertion-ordered maps

A map that iterates over its entries in the order in which their keys were first inserted, as the
`Map` of JavaScript does: `set` on a present key replaces the value in place, `set` on a new key
appends, and `delete` followed by `set` moves a key to the end.
-/

/-- The entries of a map in iteration order. -/
abbrev OrderedMap (κ ν : Type*) := List (κ × ν)

namespace OrderedMap

variable {κ ν : Type*} [DecidableEq κ]

def get (m : OrderedMap κ ν) (k : κ) : Option ν := (m.find? (·.1 = k)).map (·.2)

def set (m : OrderedMap κ ν) (k : κ) (v : ν) : OrderedMap κ ν :=
  if m.any (·.1 = k) then m.map fun entry => if entry.1 = k then (k, v) else entry else m ++ [(k, v)]

def setAll (m : OrderedMap κ ν) (entries : List (κ × ν)) : OrderedMap κ ν :=
  entries.foldl (fun m entry => set m entry.1 entry.2) m

def delete (m : OrderedMap κ ν) (k : κ) : OrderedMap κ ν := m.filter (·.1 ≠ k)

theorem mem_of_get {m : OrderedMap κ ν} {k : κ} {v : ν} (h : get m k = some v) : (k, v) ∈ m := by
  obtain ⟨entry, hfind, rfl⟩ := Option.map_eq_some_iff.mp h
  have hkey : entry.1 = k := by simpa using List.find?_some hfind
  exact hkey ▸ List.mem_of_find?_eq_some hfind

@[simp] theorem get_delete_self (m : OrderedMap κ ν) (k : κ) : get (delete m k) k = none := by
  rw [get, Option.map_eq_none_iff, List.find?_eq_none]
  intro entry hmem
  simpa using (List.mem_filter.mp hmem).2

theorem get_delete_of_ne (m : OrderedMap κ ν) {k other : κ} (h : other ≠ k) :
    get (delete m k) other = get m other := by
  rw [get, get, delete, List.find?_filter]
  congr 2
  funext entry
  by_cases he : entry.1 = other
  · simp [he, h]
  · simp [he]

theorem mem_of_mem_delete {m : OrderedMap κ ν} {k : κ} {entry : κ × ν} (h : entry ∈ delete m k) : entry ∈ m :=
  List.mem_of_mem_filter h

theorem mem_of_mem_set {m : OrderedMap κ ν} {k : κ} {v : ν} {entry : κ × ν} (h : entry ∈ set m k v) :
    entry ∈ m ∨ entry = (k, v) := by
  rw [set] at h
  split at h
  · obtain ⟨old, hold, rfl⟩ := List.mem_map.mp h
    split
    · exact Or.inr rfl
    · exact Or.inl hold
  · simpa using h

private theorem filter_map_set {m : OrderedMap κ ν} {k : κ} {v : ν} {keep : κ × ν → Bool} (hnew : keep (k, v) = false)
    (hold : ∀ entry ∈ m, entry.1 = k → keep entry = false) :
    (m.map fun entry => if entry.1 = k then (k, v) else entry).filter keep = m.filter keep := by
  induction m with
  | nil => rfl
  | cons entry m ih =>
      rw [List.forall_mem_cons] at hold
      rw [List.map_cons, List.filter_cons, List.filter_cons, ih hold.2]
      split <;> simp_all

/-- A filter that passes neither the old value of a key nor the new one does not notice a `set`. -/
theorem filter_set {m : OrderedMap κ ν} {k : κ} {v : ν} {keep : κ × ν → Bool} (hnew : keep (k, v) = false)
    (hold : ∀ entry ∈ m, entry.1 = k → keep entry = false) : (set m k v).filter keep = m.filter keep := by
  rw [set]
  split
  · exact filter_map_set hnew hold
  · rw [List.filter_append, List.filter_cons_of_neg (by simp [hnew]), List.filter_nil, List.append_nil]

theorem filter_delete {m : OrderedMap κ ν} {k : κ} {keep : κ × ν → Bool}
    (hold : ∀ entry ∈ m, entry.1 = k → keep entry = false) : (delete m k).filter keep = m.filter keep := by
  rw [delete, List.filter_filter]
  refine List.filter_congr fun entry hmem => ?_
  by_cases hkey : entry.1 = k
  · rw [hold entry hmem hkey, Bool.false_and]
  · simp [hkey]

private theorem find?_map_set (m : OrderedMap κ ν) (k : κ) (v : ν) (other : κ) :
    (m.map fun entry => if entry.1 = k then (k, v) else entry).find? (·.1 = other) =
      (m.find? (·.1 = other)).map fun entry => if entry.1 = k then (k, v) else entry := by
  rw [List.find?_map]
  congr 2
  funext entry
  by_cases he : entry.1 = k <;> simp [he]

@[simp] theorem get_set_self (m : OrderedMap κ ν) (k : κ) (v : ν) : get (set m k v) k = some v := by
  rw [set]
  split
  · rename_i hany
    obtain ⟨entry, hfind⟩ : ∃ entry, m.find? (·.1 = k) = some entry := by
      rw [← Option.isSome_iff_exists, List.find?_isSome]
      simpa using hany
    have hkey : entry.1 = k := by simpa using List.find?_some hfind
    rw [get, find?_map_set, hfind]
    simp [hkey]
  · rename_i hany
    have hnone : m.find? (·.1 = k) = none := by
      rw [List.find?_eq_none]
      intro entry hmem hkey
      exact hany (List.any_eq_true.mpr ⟨entry, hmem, hkey⟩)
    rw [get, List.find?_append, hnone]
    simp

theorem get_set_of_ne (m : OrderedMap κ ν) {k other : κ} (v : ν) (h : other ≠ k) :
    get (set m k v) other = get m other := by
  rw [set]
  split
  · rw [get, get, find?_map_set]
    cases hfind : m.find? (·.1 = other) with
    | none => rfl
    | some entry =>
        have hkey : entry.1 = other := by simpa using List.find?_some hfind
        simp [hkey, h]
  · rw [get, get, List.find?_append]
    simp [Ne.symm h]

theorem get_setAll (m : OrderedMap κ ν) {entries : List (κ × ν)} (hkeys : (entries.map (·.1)).Nodup) (k : κ) :
    get (setAll m entries) k = (get entries k).or (get m k) := by
  induction entries generalizing m with
  | nil => rfl
  | cons entry entries ih =>
      rw [List.map_cons, List.nodup_cons] at hkeys
      rw [setAll, List.foldl_cons, ← setAll, ih _ hkeys.2]
      by_cases hkey : entry.1 = k
      · have hnone : get entries k = none := by
          rw [get, Option.map_eq_none_iff, List.find?_eq_none]
          intro other hmem heq
          exact hkeys.1 (hkey ▸ of_decide_eq_true heq ▸ List.mem_map_of_mem hmem)
        rw [hnone, ← hkey, get_set_self, get, List.find?_cons_of_pos (by simp)]
        rfl
      · have hskip : get (entry :: entries) k = get entries k := by
          rw [get, List.find?_cons_of_neg (by simpa using hkey), ← get]
        rw [get_set_of_ne m _ (Ne.symm hkey), hskip]

private theorem get_zipIdx {α : Type*} (items : List α) (key : α → κ) (value : Nat → ν) (first : Nat) (k : κ) :
    get ((items.zipIdx first).map fun entry => (key entry.1, value entry.2)) k =
      if k ∈ items.map key then some (value (first + (items.map key).idxOf k)) else none := by
  induction items generalizing first with
  | nil => simp [get]
  | cons item items ih =>
      rw [List.zipIdx_cons, List.map_cons, List.map_cons, get]
      by_cases hkey : key item = k
      · subst hkey
        simp
      · rw [List.find?_cons_of_neg (by simpa using hkey), ← get, ih, List.idxOf_cons_ne _ hkey]
        rw [show first + 1 + (items.map key).idxOf k = first + ((items.map key).idxOf k + 1) by omega]
        simp [Ne.symm hkey]

/-- Setting the keys of a list of items to values made of their indices. -/
theorem get_setAll_zipIdx {α : Type*} (m : OrderedMap κ ν) {items : List α} (key : α → κ) (value : Nat → ν)
    (hnodup : (items.map key).Nodup) (k : κ) :
    get (setAll m (items.zipIdx.map fun entry => (key entry.1, value entry.2))) k =
      if k ∈ items.map key then some (value ((items.map key).idxOf k)) else get m k := by
  have hkeys : ((fun entry : κ × ν => entry.1) ∘ fun entry : α × Nat => (key entry.1, value entry.2)) =
      key ∘ Prod.fst := rfl
  rw [get_setAll m (by rwa [List.map_map, hkeys, ← List.map_map, List.zipIdx_map_fst]), get_zipIdx, Nat.zero_add]
  split <;> rfl

theorem get_filter_of_get {m : OrderedMap κ ν} {k : κ} {v : ν} {keep : κ × ν → Bool} (hget : get m k = some v)
    (hkeep : keep (k, v)) : get (m.filter keep) k = some v := by
  induction m with
  | nil => cases hget
  | cons entry m ih =>
      by_cases hkey : entry.1 = k
      · obtain rfl : entry = (k, v) := by
          rw [get, List.find?_cons_of_pos (by simpa using hkey), Option.map_some] at hget
          exact Prod.ext hkey (Option.some.inj hget)
        rw [List.filter_cons_of_pos hkeep, get, List.find?_cons_of_pos (by simp), Option.map_some]
      · have hrest : get m k = some v := by rwa [get, List.find?_cons_of_neg (by simpa using hkey)] at hget
        by_cases hentry : keep entry
        · rw [List.filter_cons_of_pos hentry, get, List.find?_cons_of_neg (by simpa using hkey)]
          exact ih hrest
        · rw [List.filter_cons_of_neg hentry]
          exact ih hrest

theorem get_filter_of_none {m : OrderedMap κ ν} {k : κ} {keep : κ × ν → Bool} (hget : get m k = none) :
    get (m.filter keep) k = none := by
  rw [get, Option.map_eq_none_iff, List.find?_eq_none] at hget ⊢
  exact fun entry hmem => hget entry (List.mem_of_mem_filter hmem)

theorem any_of_get {m : OrderedMap κ ν} {k : κ} {v : ν} (hget : get m k = some v) : m.any (·.1 = k) = true :=
  List.any_eq_true.mpr ⟨(k, v), mem_of_get hget, decide_eq_true rfl⟩

theorem length_set_of_get {m : OrderedMap κ ν} {k : κ} {old : ν} (hget : get m k = some old) (v : ν) :
    (set m k v).length = m.length := by
  rw [set, if_pos (any_of_get hget), List.length_map]

theorem set_of_none {m : OrderedMap κ ν} {k : κ} (hget : get m k = none) (v : ν) : set m k v = m ++ [(k, v)] := by
  rw [get, Option.map_eq_none_iff, List.find?_eq_none] at hget
  rw [set, if_neg]
  intro hany
  obtain ⟨entry, hentry, hkey⟩ := List.any_eq_true.mp hany
  exact hget entry hentry hkey

theorem length_set_of_none {m : OrderedMap κ ν} {k : κ} (hget : get m k = none) (v : ν) :
    (set m k v).length = m.length + 1 := by
  rw [set_of_none hget, List.length_append, List.length_singleton]

/-! ### Maps without repeated keys -/

/-- No key has two entries, as is the case for every map built by `set` and `delete`. -/
def UniqueKeys (m : OrderedMap κ ν) : Prop := (m.map (·.1)).Nodup

omit [DecidableEq κ] in
theorem uniqueKeys_filter {m : OrderedMap κ ν} (h : UniqueKeys m) (keep : κ × ν → Bool) : UniqueKeys (m.filter keep) :=
  h.sublist (List.Sublist.map _ List.filter_sublist)

theorem uniqueKeys_delete {m : OrderedMap κ ν} (h : UniqueKeys m) (k : κ) : UniqueKeys (delete m k) :=
  uniqueKeys_filter h _

theorem uniqueKeys_set {m : OrderedMap κ ν} (h : UniqueKeys m) (k : κ) (v : ν) : UniqueKeys (set m k v) := by
  rw [set]
  split
  · rw [UniqueKeys, List.map_map]
    have hkeys : m.map ((·.1) ∘ fun entry => if entry.1 = k then (k, v) else entry) = m.map (·.1) := by
      refine List.map_congr_left fun entry _ => ?_
      by_cases hkey : entry.1 = k <;> simp [hkey]
    rw [hkeys]
    exact h
  · rename_i hany
    rw [UniqueKeys, List.map_append, List.nodup_append]
    refine ⟨h, List.nodup_singleton k, fun a ha b hb => ?_⟩
    obtain ⟨entry, hentry, rfl⟩ := List.mem_map.mp ha
    obtain rfl : b = k := by simpa using hb
    rintro rfl
    exact hany (List.any_eq_true.mpr ⟨entry, hentry, decide_eq_true rfl⟩)

theorem get_of_mem {m : OrderedMap κ ν} (h : UniqueKeys m) {k : κ} {v : ν} (hmem : (k, v) ∈ m) : get m k = some v := by
  cases hget : get m k with
  | none =>
      rw [get, Option.map_eq_none_iff, List.find?_eq_none] at hget
      exact absurd (decide_eq_true rfl) (hget (k, v) hmem)
  | some v' =>
      have hsame := List.inj_on_of_nodup_map h (mem_of_get hget) hmem rfl
      rw [(Prod.mk.inj hsame).2]

theorem get_filter_eq_some {m : OrderedMap κ ν} (h : UniqueKeys m) {keep : κ × ν → Bool} {k : κ} {v : ν} :
    get (m.filter keep) k = some v ↔ get m k = some v ∧ keep (k, v) := by
  constructor
  · intro hget
    obtain ⟨hmem, hkeep⟩ := List.mem_filter.mp (mem_of_get hget)
    exact ⟨get_of_mem h hmem, hkeep⟩
  · rintro ⟨hget, hkeep⟩
    exact get_filter_of_get hget hkeep

end OrderedMap
