import Mathlib.Data.List.Basic

/-!
# Counted inserts in a serial order

A transaction counts a container and inserts into it. It reads a snapshot, which shows the inserts
that had been committed when it was taken, so of two transactions that overlap neither shows the
other's. A history of such transactions, in commit order, is serializable if some order of them
explains what each one has seen: of those before it every insert into the container it counts, of
those after it none. Then no transaction that commits has missed an insert into its container
(`Serializable.missed_eq_zero`).
-/

namespace SerialOrder

/-- A committed transaction: the container it has counted and inserted into, and how many of the
transactions of the history had committed when its snapshot was taken. -/
structure Insert (κ : Type*) where
  container : κ
  seen : Nat
  deriving DecidableEq, Repr

variable {κ : Type*}

def Serializable (history : List (Insert κ)) : Prop :=
  ∃ rank : Nat → Nat, Function.Injective rank ∧
    ∀ i j first second, history[i]? = some first → history[j]? = some second → i ≠ j →
      first.container = second.container → (rank i < rank j ↔ i < second.seen)

/-- A snapshot shows transactions committed before it. -/
def SeesThePast (history : List (Insert κ)) : Prop :=
  ∀ (i : Nat) (insert : Insert κ), history[i]? = some insert → insert.seen ≤ i

theorem Serializable.of_append {history later : List (Insert κ)} (h : Serializable (history ++ later)) :
    Serializable history := by
  obtain ⟨rank, hrank, horder⟩ := h
  have hget : ∀ {i : Nat} {insert : Insert κ}, history[i]? = some insert → (history ++ later)[i]? = some insert :=
    fun hi => by rw [List.getElem?_append_left (List.getElem?_eq_some_iff.mp hi).1, hi]
  exact ⟨rank, hrank, fun i j first second hi hj => horder i j first second (hget hi) (hget hj)⟩

/-- Transactions that do not overlap, each of which has seen all that committed before it. -/
theorem Serializable.of_serial {history : List (Insert κ)} (h : history.map (·.seen) = List.range history.length) :
    Serializable history := by
  refine ⟨id, fun _ _ h => h, fun i j first second _ hj _ _ => ?_⟩
  have hseen : (history.map (·.seen))[j]? = some second.seen := by rw [List.getElem?_map, hj]; rfl
  rw [h, List.getElem?_range (List.getElem?_eq_some_iff.mp hj).1] at hseen
  rw [← Option.some.inj hseen]
  rfl

theorem SeesThePast.concat {history : List (Insert κ)} {last : Insert κ} (h : SeesThePast history)
    (hlast : last.seen ≤ history.length) : SeesThePast (history ++ [last]) := by
  intro i insert hi
  rcases Nat.lt_trichotomy i history.length with hlt | heq | hgt
  · rw [List.getElem?_append_left hlt] at hi
    exact h i insert hi
  · rw [heq, List.getElem?_concat_length] at hi
    obtain rfl := Option.some.inj hi
    rwa [heq]
  · rw [List.getElem?_eq_none (by rw [List.length_append, List.length_singleton]; exact hgt)] at hi
    cases hi

variable [DecidableEq κ]

/-- How many inserts into the container a snapshot does not show. -/
def missed (history : List (Insert κ)) (container : κ) (seen : Nat) : Nat :=
  ((history.drop seen).filter (·.container = container)).length

theorem missed_concat {history : List (Insert κ)} {last : Insert κ} {container : κ} {seen : Nat}
    (hseen : seen ≤ history.length) :
    missed (history ++ [last]) container seen =
      missed history container seen + if last.container = container then 1 else 0 := by
  rw [missed, missed, List.drop_append_of_le_length hseen, List.filter_append, List.length_append, List.filter_singleton]
  split <;> simp_all

/-- Either of two transactions that overlap would have to come before the other. -/
theorem Serializable.missed_eq_zero {history : List (Insert κ)} {last : Insert κ}
    (h : Serializable (history ++ [last])) (hpast : SeesThePast history) :
    missed history last.container last.seen = 0 := by
  obtain ⟨rank, hrank, horder⟩ := h
  rw [missed, List.length_eq_zero_iff, List.filter_eq_nil_iff]
  intro insert hmem hsame
  rw [decide_eq_true_eq] at hsame
  obtain ⟨k, hk⟩ := List.mem_iff_getElem?.mp hmem
  rw [List.getElem?_drop] at hk
  have hlt : last.seen + k < history.length := (List.getElem?_eq_some_iff.mp hk).1
  have hi : (history ++ [last])[last.seen + k]? = some insert := by rw [List.getElem?_append_left hlt, hk]
  have hj : (history ++ [last])[history.length]? = some last := List.getElem?_concat_length
  have hseen : insert.seen ≤ last.seen + k := hpast _ _ hk
  have hbefore := (horder _ _ _ _ hi hj (Nat.ne_of_lt hlt) hsame).not.mpr (by omega)
  have hafter := (horder _ _ _ _ hj hi (Nat.ne_of_gt hlt) hsame.symm).not.mpr (by omega)
  exact Nat.ne_of_lt hlt (hrank (Nat.le_antisymm (Nat.not_lt.mp hafter) (Nat.not_lt.mp hbefore)))

end SerialOrder
