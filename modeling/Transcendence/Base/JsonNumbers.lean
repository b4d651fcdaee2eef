import Mathlib.Algebra.Order.Monoid.WithTop
import Mathlib.Algebra.Order.Floor.Semiring
import Mathlib.Algebra.Order.Ring.Rat
import Mathlib.Data.Nat.Cast.Order.Basic
import Mathlib.Data.Rat.Floor
import Mathlib.Order.WithBot
import Mathlib.Tactic

/-!
# Numbers that come from JSON

JSON has no NaN, but a literal that is too large is read as an infinity, so what comes is a rational
or one of the two infinities. That is a linear order, and the order is all that sorting and clamping
ask of it.
-/

abbrev JsonNumber :=
  WithBot (WithTop ℚ)

namespace JsonNumber

def ofInt (n : Int) : JsonNumber :=
  ((n : ℚ) : WithTop ℚ)

/-- The integer part of a number that is not negative, as an index of `splice`. -/
def toIndex : JsonNumber → Nat
  | none => 0
  | some none => 0
  | some (some q) => ⌊q⌋₊

/-- Where `splice` puts an item for `Math.max(0, Math.min(index, length))`. -/
def clampIndex (index : JsonNumber) (length : Nat) : Nat :=
  toIndex (max 0 (min index length))

theorem ofInt_natCast (n : Nat) : ofInt n = n := by
  rw [ofInt, Int.cast_natCast]
  rfl

theorem toIndex_natCast (n : Nat) : toIndex n = n :=
  Nat.floor_natCast n

theorem natCast_nonneg (n : Nat) : (0 : JsonNumber) ≤ n := by
  exact_mod_cast Nat.zero_le n

theorem toIndex_le {x : JsonNumber} {n : Nat} (h : x ≤ n) : toIndex x ≤ n := by
  cases x with
  | none => exact Nat.zero_le _
  | some x =>
      cases x with
      | top => exact Nat.zero_le _
      | coe q =>
          have hle : q ≤ n := WithTop.coe_le_coe.mp (WithBot.coe_le_coe.mp h)
          exact Nat.floor_le_of_le hle

theorem clampIndex_le (index : JsonNumber) (length : Nat) : clampIndex index length ≤ length :=
  toIndex_le (max_le (natCast_nonneg length) (min_le_right _ _))

/-- An index within the list is where the item goes. -/
theorem clampIndex_natCast {n length : Nat} (h : n ≤ length) : clampIndex n length = n := by
  have hmin : min (n : JsonNumber) length = n := min_eq_left (Nat.cast_le.mpr h)
  rw [clampIndex, hmin, max_eq_right (natCast_nonneg n), toIndex_natCast]

end JsonNumber
