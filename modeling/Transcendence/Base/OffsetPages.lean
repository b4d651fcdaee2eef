import Mathlib.Data.List.Basic
import Mathlib.Tactic

/-!
# Pages by offset

Pages of a fixed size of a list that stays as it is. The first pages, one after another, are the start of
the list; enough of them are all of it.
-/

namespace OffsetPages

variable {α β : Type*} {rows : List α} {limit : Nat}

/-- Page 1 is the first. -/
def page (rows : List α) (limit page : Nat) : List α :=
  (rows.drop ((page - 1) * limit)).take limit

/-- How many pages there are. -/
def pageCount (total limit : Nat) : Nat :=
  (total + limit - 1) / limit

theorem flatMap_page (rows : List α) (limit n : Nat) :
    ((List.range n).flatMap fun i => page rows limit (i + 1)) = rows.take (n * limit) := by
  induction n with
  | zero => simp
  | succ n ih =>
      rw [List.range_succ, List.flatMap_append, ih, List.flatMap_singleton, page, Nat.add_sub_cancel, Nat.succ_mul,
        List.take_add]

theorem le_pageCount_mul (hlimit : 1 ≤ limit) (total : Nat) : total ≤ pageCount total limit * limit := by
  have hdiv := Nat.div_add_mod (total + limit - 1) limit
  have hmod := Nat.mod_lt (total + limit - 1) hlimit
  rw [pageCount, Nat.mul_comm]
  omega

/-- All pages, one after another. -/
theorem flatMap_pages (hlimit : 1 ≤ limit) (rows : List α) :
    ((List.range (pageCount rows.length limit)).flatMap fun i => page rows limit (i + 1)) = rows := by
  rw [flatMap_page]
  exact List.take_of_length_le (le_pageCount_mul hlimit rows.length)

/-- What is made of each row is made of the rows of each page. -/
theorem flatMap_pages_map (hlimit : 1 ≤ limit) (rows : List α) (select : α → β) :
    ((List.range (pageCount rows.length limit)).flatMap fun i => (page rows limit (i + 1)).map select) = rows.map select := by
  rw [← List.map_flatMap, flatMap_pages hlimit]

end OffsetPages
