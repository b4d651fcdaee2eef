import Mathlib.Algebra.Order.Ring.Int
import Transcendence.Base.Bounds

/-!
# Instants of a request and of a column

A request names an instant as a text, read here as the nanoseconds since the beginning of 2000, with
what comes after the ninth digit cut off. `new Date` of it keeps the whole milliseconds. A column of
type `TIMESTAMP(3)` gets the microseconds and rounds them to milliseconds, halves away from the
beginning of 2000. What a column holds is in milliseconds, so that both agree on what was read from it.
-/

namespace Instants

/-- `new Date(text)`. -/
def date (t : Int) : Int := t / 1000000

/-- The microseconds a parameter of a statement carries. -/
def micros (t : Int) : Int := if 0 ≤ t then t / 1000 else -(-t / 1000)

/-- What a `TIMESTAMP(3)` column keeps of an instant. -/
def timestamp3 (t : Int) : Int :=
  if 0 ≤ micros t then (micros t + 500) / 1000 else -((-micros t + 500) / 1000)

/-- `toISOString` of what a column holds. -/
def toISOString (t : Int) : Int := t * 1000000

@[simp] theorem date_toISOString (t : Int) : date (toISOString t) = t := by
  unfold date toISOString
  omega

theorem date_le_timestamp3 (t : Int) : date t ≤ timestamp3 t := by
  unfold date timestamp3 micros
  split_ifs <;> omega

theorem timestamp3_le (t : Int) : timestamp3 t ≤ date t + 1 := by
  unfold date timestamp3 micros
  split_ifs <;> omega

/-- The date that is checked: the one that is sent, or the one that was read. -/
theorem map_date_or (patch : Option (Option Int)) (read : Option Int) :
    (patch.join.or (read.map toISOString)).map date = Bounds.checked date patch read := by
  rw [Bounds.checked]
  cases patch.join with
  | none => cases read <;> simp
  | some t => rfl

theorem checked_some (patch : Option (Option Int)) (read : Int) :
    Bounds.checked date patch (some read) = some (date (patch.join.getD (toISOString read))) := by
  rw [Bounds.checked]
  cases patch.join with
  | none => simp
  | some t => rfl

/-- The column keeps the milliseconds of a date, or those after them. -/
theorem rounding : Bounds.Rounding date timestamp3 where
  floor_le := date_le_timestamp3
  round_le t _ h := (timestamp3_le t).trans (Int.add_one_le_iff.mpr h)

end Instants
