import Mathlib.Algebra.Order.Ring.Int

/-!
# Instants as Go has them

An instant is a count of seconds in 64 bits, from the beginning of the year 1, and nanoseconds. The
seconds of Unix are those less a constant, and both conversions wrap around, so that they undo each
other on every instant without nanoseconds (`ofUnix_unix`). Adding a duration stops at the ends of the
range instead.
-/

namespace GoTime

/-- Arithmetic of 64 bits with a sign wraps around. -/
def int64 (n : Int) : Int :=
  (n + 9223372036854775808) % 18446744073709551616 - 9223372036854775808

structure InInt64 (n : Int) : Prop where
  lower : -9223372036854775808 ≤ n
  upper : n ≤ 9223372036854775807

theorem inInt64_int64 (n : Int) : InInt64 (int64 n) := by
  constructor
  · unfold int64
    omega
  · unfold int64
    omega

theorem int64_eq_self {n : Int} (h : InInt64 n) : int64 n = n := by
  obtain ⟨hlower, hupper⟩ := h
  unfold int64
  omega

/-- A constant taken away with wrapping comes back with wrapping. -/
theorem int64_sub_add (n k : Int) : int64 (int64 (n - k) + k) = int64 n := by
  unfold int64
  omega

/-! ### Instants -/

structure Time where
  seconds : Int
  nanoseconds : Nat
  inInt64 : InInt64 seconds
  nanoseconds_lt : nanoseconds < 1000000000

namespace Time

@[ext]
theorem ext {t u : Time} (hseconds : t.seconds = u.seconds) (hnanoseconds : t.nanoseconds = u.nanoseconds) : t = u := by
  obtain ⟨_, _, _, _⟩ := t
  obtain ⟨_, _, _, _⟩ := u
  cases hseconds
  cases hnanoseconds
  rfl

def After (t u : Time) : Prop :=
  u.seconds < t.seconds ∨ u.seconds = t.seconds ∧ u.nanoseconds < t.nanoseconds

def Before (t u : Time) : Prop :=
  t.seconds < u.seconds ∨ t.seconds = u.seconds ∧ t.nanoseconds < u.nanoseconds

instance (t u : Time) : Decidable (After t u) := inferInstanceAs (Decidable (_ ∨ _))

instance (t u : Time) : Decidable (Before t u) := inferInstanceAs (Decidable (_ ∨ _))

/-- The zero instant, the beginning of the year 1. -/
def IsZero (t : Time) : Prop :=
  t.seconds = 0 ∧ t.nanoseconds = 0

instance (t : Time) : Decidable (IsZero t) := inferInstanceAs (Decidable (_ ∧ _))

/-- `Truncate(time.Second)` -/
def truncate (t : Time) : Time :=
  { t with nanoseconds := 0, nanoseconds_lt := by decide }

/-- A sum of seconds stops at the ends of the range, which are symmetric. -/
def saturated (n : Int) : Int :=
  if n < -9223372036854775808 then -9223372036854775807 else min n 9223372036854775807

theorem inInt64_saturated (n : Int) : InInt64 (saturated n) := by
  rw [saturated]
  split_ifs with hlow
  · exact ⟨by decide, by decide⟩
  · exact ⟨by omega, by omega⟩

/-- `Add`, by a duration in nanoseconds. -/
def add (t : Time) (d : Int) : Time where
  seconds := saturated (t.seconds + (t.nanoseconds + d) / 1000000000)
  nanoseconds := ((t.nanoseconds + d) % 1000000000).toNat
  inInt64 := inInt64_saturated _
  nanoseconds_lt := by omega

def unixToInternal : Int := 62135596800

/-- `Unix` -/
def unix (t : Time) : Int :=
  int64 (t.seconds - unixToInternal)

/-- `time.Unix(seconds, 0)` -/
def ofUnix (seconds : Int) : Time where
  seconds := int64 (seconds + unixToInternal)
  nanoseconds := 0
  inInt64 := inInt64_int64 _
  nanoseconds_lt := by decide

theorem inInt64_unix (t : Time) : InInt64 t.unix :=
  inInt64_int64 _

/-- The seconds of Unix keep an instant but for its nanoseconds, even where they wrap around. -/
theorem ofUnix_unix (t : Time) : ofUnix t.unix = t.truncate := by
  ext
  · show int64 (int64 (t.seconds - unixToInternal) + unixToInternal) = t.seconds
    rw [int64_sub_add, int64_eq_self t.inInt64]
  · rfl

theorem unix_nonneg {t : Time} (h : unixToInternal ≤ t.seconds) : 0 ≤ t.unix := by
  have hupper := t.inInt64.upper
  show 0 ≤ int64 (t.seconds - unixToInternal)
  unfold int64
  unfold unixToInternal at *
  omega

theorem lt_of_truncate_add_after {t : Time} {d : Int} (h : (t.add d).truncate.After t.truncate) :
    t.seconds < 9223372036854775807 := by
  have hupper := (inInt64_saturated (t.seconds + (t.nanoseconds + d) / 1000000000)).upper
  rcases h with hlt | ⟨-, hlt⟩
  · exact lt_of_lt_of_le hlt hupper
  · exact absurd hlt (Nat.lt_irrefl 0)

/-- An instant without nanoseconds is passed, to the second, after a whole second at the earliest. -/
theorem truncate_add_after_iff {t : Time} {d : Int} (hpos : 0 < d) (hzero : t.nanoseconds = 0)
    (hroom : t.seconds < 9223372036854775807) : (t.add d).truncate.After t ↔ 1000000000 ≤ d := by
  have hlower := t.inInt64.lower
  show (t.seconds < saturated (t.seconds + (t.nanoseconds + d) / 1000000000) ∨ _ ∧ t.nanoseconds < 0) ↔ _
  rw [hzero, Nat.cast_zero, zero_add, saturated]
  constructor
  · rintro (hlt | ⟨-, hlt⟩)
    · split_ifs at hlt with hlow
      · omega
      · omega
    · exact absurd hlt (Nat.lt_irrefl 0)
  · intro hd
    left
    split_ifs with hlow
    · omega
    · omega

/-! ### Instants as nanoseconds -/

/-- The nanoseconds from the beginning of the year 1, without an end to their range. -/
def elapsed (t : Time) : Int :=
  t.seconds * 1000000000 + t.nanoseconds

theorem after_iff (t u : Time) : t.After u ↔ u.elapsed < t.elapsed := by
  have ht := t.nanoseconds_lt
  have hu := u.nanoseconds_lt
  unfold After elapsed
  omega

theorem before_iff (t u : Time) : t.Before u ↔ t.elapsed < u.elapsed := by
  have ht := t.nanoseconds_lt
  have hu := u.nanoseconds_lt
  unfold Before elapsed
  omega

/-- The nanoseconds from 1970. -/
def sinceUnix (t : Time) : Int :=
  t.elapsed - unixToInternal * 1000000000

/-- The number of seconds from which on `ofUnix` wraps around. -/
def wrapsFrom : Int := 9223371974719179008

theorem seconds_ofUnix {n : Int} (hnonneg : 0 ≤ n) (hn : n < 9223372036854775808) :
    (ofUnix n).seconds = if n < wrapsFrom then n + unixToInternal else n + unixToInternal - 18446744073709551616 := by
  show int64 (n + unixToInternal) = _
  unfold int64 unixToInternal wrapsFrom
  split_ifs with hlt
  · omega
  · omega

theorem elapsed_truncate (t : Time) : t.truncate.elapsed = t.seconds * 1000000000 :=
  Int.add_zero _

/-- The end of the range lies after every full second, so that it does not matter that the sum stops there. -/
theorem truncate_after_add_iff {d : Int} (hd : 0 ≤ d) (t u : Time) :
    t.truncate.After (u.add d) ↔ u.elapsed + d < t.truncate.elapsed := by
  have ht := t.inInt64.upper
  have hlower := u.inInt64.lower
  rw [elapsed_truncate]
  show saturated (u.seconds + (u.nanoseconds + d) / 1000000000) < t.seconds ∨
    saturated (u.seconds + (u.nanoseconds + d) / 1000000000) = t.seconds ∧ ((u.nanoseconds + d) % 1000000000).toNat < 0 ↔ _
  unfold saturated elapsed
  split_ifs with hlow
  · omega
  · omega

/-- The sum stops at the end of the range, and the instant is in the last second, not before what is left of it. -/
structure AtEnd (t : Time) (d : Int) (u : Time) : Prop where
  stops : 9223372036854775807 < t.seconds + d / 1000000000
  last : u.seconds = 9223372036854775807
  not_before : d % 1000000000 ≤ u.nanoseconds

theorem before_truncate_add_iff {d : Int} (hd : 0 ≤ d) (t u : Time) :
    u.Before (t.truncate.add d) ↔ u.elapsed < t.truncate.elapsed + d ∧ ¬AtEnd t d u := by
  have hupper := u.inInt64.upper
  have hlower := t.inInt64.lower
  have hu := u.nanoseconds_lt
  have hend : AtEnd t d u ↔ 9223372036854775807 < t.seconds + d / 1000000000 ∧ u.seconds = 9223372036854775807 ∧
      d % 1000000000 ≤ u.nanoseconds := ⟨fun h => ⟨h.stops, h.last, h.not_before⟩, fun h => ⟨h.1, h.2.1, h.2.2⟩⟩
  rw [hend, elapsed_truncate]
  show u.seconds < saturated (t.seconds + ((0 : Nat) + d) / 1000000000) ∨
    u.seconds = saturated (t.seconds + ((0 : Nat) + d) / 1000000000) ∧
      u.nanoseconds < (((0 : Nat) + d) % 1000000000).toNat ↔ _
  unfold saturated elapsed
  rw [Nat.cast_zero, zero_add]
  split_ifs with hlow
  · omega
  · omega

end Time

end GoTime
