import Mathlib.Algebra.Order.Field.Power
import Mathlib.Algebra.Order.Floor.Ring
import Mathlib.Algebra.Order.Round
import Mathlib.Data.Int.Log
import Mathlib.Data.Rat.Floor
import Mathlib.Tactic.Linarith
import Mathlib.Tactic.NormNum
import Mathlib.Tactic.Positivity
import Mathlib.Tactic.Ring

/-!
# Double precision numbers

A double is a rational `n * 2 ^ e` of 53 bits. Arithmetic is exact and then rounded to the nearest
double, ties to even, so everything below is about that rounding (`nearest`): it fixes doubles, it
keeps the order, and a large double is a multiple of a large power of two.

The two zeros are one number here: no comparison tells them apart, and neither is a divisor below.
-/

namespace Binary64

/-! ### The nearest integer -/

/-- The integer nearest to `x`, the even one of two. -/
def nearestInt (x : ℚ) : ℤ :=
  if x - ⌊x⌋ < 1 / 2 then ⌊x⌋
  else if 1 / 2 < x - ⌊x⌋ then ⌊x⌋ + 1
  else if Even ⌊x⌋ then ⌊x⌋
  else ⌊x⌋ + 1

theorem nearestInt_intCast (n : ℤ) : nearestInt n = n := by
  rw [nearestInt, Int.floor_intCast, sub_self, if_pos (by norm_num)]

theorem floor_le_nearestInt (x : ℚ) : ⌊x⌋ ≤ nearestInt x := by
  rw [nearestInt]
  split_ifs <;> omega

theorem nearestInt_le_floor_add_one (x : ℚ) : nearestInt x ≤ ⌊x⌋ + 1 := by
  rw [nearestInt]
  split_ifs <;> omega

theorem nearestInt_mono {x y : ℚ} (h : x ≤ y) : nearestInt x ≤ nearestInt y := by
  rcases (Int.floor_le_floor h).lt_or_eq with hlt | heq
  · calc nearestInt x ≤ ⌊x⌋ + 1 := nearestInt_le_floor_add_one x
      _ ≤ ⌊y⌋ := hlt
      _ ≤ nearestInt y := floor_le_nearestInt y
  · have hfract : x - ⌊x⌋ ≤ y - ⌊y⌋ := by
      rw [heq]
      exact sub_le_sub_right h _
    rw [nearestInt, nearestInt, heq] at *
    split_ifs <;> first | omega | (exfalso; linarith)

/-! ### The nearest double -/

/-- The last place of the doubles as large as `x`: of their 53 bits, the last counts `2 ^ exponent x`. -/
def exponent (x : ℚ) : ℤ :=
  max (Int.log 2 |x| - 52) (-1074)

/-- The double nearest to `x`, as long as the doubles reach that far. -/
def nearest (x : ℚ) : ℚ :=
  nearestInt (x / 2 ^ exponent x) * 2 ^ exponent x

theorem abs_lt_of_exponent (x : ℚ) : |x| < 2 ^ (exponent x + 53) := by
  calc |x| < ((2 : ℕ) : ℚ) ^ (Int.log 2 |x| + 1) := Int.lt_zpow_succ_log_self (by norm_num) _
    _ ≤ 2 ^ (exponent x + 53) := by
      rw [Nat.cast_ofNat]
      exact zpow_le_zpow_right₀ (by norm_num) (by rw [exponent]; omega)

theorem nearest_zero : nearest 0 = 0 := by
  rw [nearest, zero_div, ← Int.cast_zero, nearestInt_intCast, Int.cast_zero, zero_mul]

/-- An integer of 53 bits, at a place that doubles have, is a double. -/
theorem nearest_of_lt {n e : ℤ} (hn : |n| < 2 ^ 53) (he : -1074 ≤ e) : nearest (n * 2 ^ e) = n * 2 ^ e := by
  rcases eq_or_ne n 0 with rfl | hne
  · rw [Int.cast_zero, zero_mul, nearest_zero]
  have hpow : (0 : ℚ) < 2 ^ e := by positivity
  have habs : |(n : ℚ) * 2 ^ e| < 2 ^ (53 + e) := by
    rw [abs_mul, abs_of_pos hpow, zpow_add₀ (by norm_num)]
    exact mul_lt_mul_of_pos_right (by exact_mod_cast hn) hpow
  have hpos : 0 < |(n : ℚ) * 2 ^ e| := abs_pos.mpr (mul_ne_zero (by exact_mod_cast hne) hpow.ne')
  have hlog : Int.log 2 |(n : ℚ) * 2 ^ e| < 53 + e :=
    (Int.lt_zpow_iff_log_lt (by norm_num) hpos).mp (by exact_mod_cast habs)
  obtain ⟨k, hk⟩ : ∃ k : ℕ, e = k + exponent (n * 2 ^ e) := by
    refine ⟨(e - exponent (n * 2 ^ e)).toNat, ?_⟩
    rw [exponent]
    omega
  have hquot : (n : ℚ) * 2 ^ e / 2 ^ exponent (n * 2 ^ e) = ((n * 2 ^ k : ℤ) : ℚ) := by
    rw [mul_div_assoc, ← zpow_sub₀ (by norm_num), show e - exponent (n * 2 ^ e) = k by omega]
    push_cast
    rw [zpow_natCast]
  rw [nearest, hquot, nearestInt_intCast, ← hquot, div_mul_cancel₀ _ (by positivity)]

/-- The rounding may reach the next power of two, which is a double as well. -/
theorem nearest_of_le {n e : ℤ} (hn : |n| ≤ 2 ^ 53) (he : -1074 ≤ e) : nearest (n * 2 ^ e) = n * 2 ^ e := by
  rcases hn.lt_or_eq with hlt | heq
  · exact nearest_of_lt hlt he
  · obtain ⟨m, hm, rfl⟩ : ∃ m : ℤ, |m| < 2 ^ 53 ∧ n = m * 2 := by
      rcases abs_eq (by norm_num) |>.mp heq with rfl | rfl
      · exact ⟨2 ^ 52, by norm_num, by norm_num⟩
      · exact ⟨-2 ^ 52, by norm_num, by norm_num⟩
    have hnext : ((m * 2 : ℤ) : ℚ) * 2 ^ e = m * 2 ^ (e + 1) := by
      rw [zpow_add₀ (by norm_num)]
      push_cast
      ring
    rw [hnext]
    exact nearest_of_lt hm (by omega)

theorem abs_nearestInt_le (x : ℚ) : |nearestInt (x / 2 ^ exponent x)| ≤ 2 ^ 53 := by
  have hpow : (0 : ℚ) < 2 ^ exponent x := by positivity
  have habs : |x / 2 ^ exponent x| ≤ 2 ^ 53 := by
    rw [abs_div, abs_of_pos hpow, div_le_iff₀ hpow, show (2 : ℚ) ^ 53 = 2 ^ (53 : ℤ) by norm_num,
      ← zpow_add₀ (by norm_num), add_comm]
    exact (abs_lt_of_exponent x).le
  obtain ⟨hlower, hupper⟩ := abs_le.mp habs
  rw [abs_le]
  constructor
  · have h := nearestInt_mono (x := ((-2 ^ 53 : ℤ) : ℚ)) (by exact_mod_cast hlower)
    rwa [nearestInt_intCast] at h
  · have h := nearestInt_mono (y := ((2 ^ 53 : ℤ) : ℚ)) (by exact_mod_cast hupper)
    rwa [nearestInt_intCast] at h

/-- Rounding twice is rounding once. -/
theorem nearest_nearest (x : ℚ) : nearest (nearest x) = nearest x :=
  nearest_of_le (abs_nearestInt_le x) (le_max_right _ _)

theorem exponent_mono {x y : ℚ} (hx : 0 < x) (h : x ≤ y) : exponent x ≤ exponent y := by
  have hlog := Int.log_mono_right (b := 2) hx h
  rw [exponent, exponent, abs_of_pos hx, abs_of_pos (hx.trans_le h)]
  omega

theorem nearest_nonneg {x : ℚ} (h : 0 ≤ x) : 0 ≤ nearest x := by
  have hpow : (0 : ℚ) < 2 ^ exponent x := by positivity
  have hint := nearestInt_mono (x := ((0 : ℤ) : ℚ)) (by exact_mod_cast div_nonneg h hpow.le)
  rw [nearestInt_intCast] at hint
  exact mul_nonneg (by exact_mod_cast hint) hpow.le

theorem nearest_mono {x y : ℚ} (hx : 0 ≤ x) (h : x ≤ y) : nearest x ≤ nearest y := by
  rcases hx.eq_or_lt with rfl | hx
  · rw [nearest_zero]
    exact nearest_nonneg h
  have hpow : (0 : ℚ) < 2 ^ exponent x := by positivity
  rcases (exponent_mono hx h).lt_or_eq with hlt | heq
  · -- A power of two lies between them, and it is a double.
    have hy : 0 < y := hx.trans_le h
    have hbetween : nearest x ≤ 2 ^ (exponent x + 53) := by
      rw [nearest, add_comm, zpow_add₀ (by norm_num)]
      exact mul_le_mul_of_nonneg_right (by exact_mod_cast (abs_le.mp (abs_nearestInt_le x)).2) hpow.le
    refine hbetween.trans ?_
    have hlog : exponent y = Int.log 2 |y| - 52 := by
      have := le_max_right (Int.log 2 |x| - 52) (-1074)
      rw [exponent] at hlt ⊢
      rw [exponent] at hlt
      omega
    have hle : (2 : ℚ) ^ (exponent y + 52) ≤ y := by
      rw [hlog, sub_add_cancel, abs_of_pos hy]
      exact_mod_cast Int.zpow_log_le_self (b := 2) (by norm_num) hy
    have hquot : ((2 ^ 52 : ℤ) : ℚ) ≤ y / 2 ^ exponent y := by
      rw [le_div_iff₀ (by positivity)]
      rw [add_comm, zpow_add₀ (by norm_num)] at hle
      exact_mod_cast hle
    calc (2 : ℚ) ^ (exponent x + 53) ≤ 2 ^ (52 + exponent y) := zpow_le_zpow_right₀ (by norm_num) (by omega)
      _ = ((2 ^ 52 : ℤ) : ℚ) * 2 ^ exponent y := by rw [zpow_add₀ (by norm_num)]; norm_num
      _ ≤ nearest y := by
        have hint := nearestInt_mono hquot
        rw [nearestInt_intCast] at hint
        exact mul_le_mul_of_nonneg_right (by exact_mod_cast hint) (by positivity)
  · rw [nearest, nearest, ← heq]
    exact mul_le_mul_of_nonneg_right
      (by exact_mod_cast nearestInt_mono (div_le_div_of_nonneg_right h hpow.le)) hpow.le

/-! ### Doubles that are integers -/

/-- A double from `2 ^ (52 + k)` on is a multiple of `2 ^ k`. -/
theorem exists_mul_two_pow {x : ℚ} {k : ℕ} (hx : nearest x = x) (hle : 2 ^ (52 + k) ≤ x) : ∃ m : ℤ, x = m * 2 ^ k := by
  have hpos : 0 < x := lt_of_lt_of_le (by positivity) hle
  have hlog : (52 + k : ℤ) ≤ Int.log 2 x :=
    (Int.zpow_le_iff_le_log (by norm_num) hpos).mp (by exact_mod_cast hle)
  obtain ⟨j, hj⟩ : ∃ j : ℕ, exponent x = j + k := by
    refine ⟨(exponent x - k).toNat, ?_⟩
    rw [exponent, abs_of_pos hpos]
    omega
  refine ⟨nearestInt (x / 2 ^ exponent x) * 2 ^ j, ?_⟩
  have hpow : (2 : ℚ) ^ exponent x = 2 ^ j * 2 ^ k := by
    rw [hj, zpow_add₀ (by norm_num), zpow_natCast, zpow_natCast]
  calc x = nearestInt (x / 2 ^ exponent x) * 2 ^ exponent x := hx.symm
    _ = nearestInt (x / 2 ^ exponent x) * 2 ^ j * 2 ^ k := by rw [mul_assoc, ← hpow]
    _ = _ := by
      push_cast
      rfl

/-- Rounding an integer gives an integer. -/
theorem exists_nearest_eq_intCast (n : ℤ) : ∃ m : ℤ, nearest n = m := by
  rcases le_total 0 (exponent n) with hle | hle
  · obtain ⟨k, hk⟩ := Int.eq_ofNat_of_zero_le hle
    refine ⟨nearestInt (n / 2 ^ exponent n) * 2 ^ k, ?_⟩
    rw [nearest, hk, zpow_natCast]
    push_cast
    rfl
  · obtain ⟨k, hk⟩ := Int.eq_ofNat_of_zero_le (neg_nonneg.mpr hle)
    refine ⟨n, ?_⟩
    have hquot : (n : ℚ) / 2 ^ exponent n = ((n * 2 ^ k : ℤ) : ℚ) := by
      rw [div_eq_mul_inv, ← zpow_neg, hk, zpow_natCast]
      push_cast
      rfl
    rw [nearest, hquot, nearestInt_intCast, ← hquot, div_mul_cancel₀ _ (by positivity)]

/-! ### Numbers -/

/-- A number that the doubles reach. -/
@[ext] structure Double where
  value : ℚ
  exact : nearest value = value
  bounded : |value| < 2 ^ 1024
  deriving DecidableEq

/-- What an operation on doubles gives. -/
inductive Number where
  | nan
  | infinite (negative : Bool)
  | finite (x : Double)
  deriving DecidableEq

namespace Number

/-- A rational as a double. -/
def ofRat (x : ℚ) : Number :=
  if h : |nearest x| < 2 ^ 1024 then .finite ⟨nearest x, nearest_nearest x, h⟩ else .infinite (x < 0)

theorem ofRat_eq_finite_iff {x : ℚ} {y : Double} : ofRat x = .finite y ↔ nearest x = y.value := by
  rw [ofRat]
  split_ifs with h
  · rw [finite.injEq, Double.ext_iff]
  · refine ⟨nofun, fun heq => absurd ?_ h⟩
    rw [heq]
    exact y.bounded

def isInteger : Number → Bool
  | .finite x => x.value.den == 1
  | _ => false

theorem isInteger_finite_iff {x : Double} : isInteger (.finite x) ↔ ∃ n : ℤ, x.value = n := by
  rw [isInteger, beq_iff_eq]
  constructor
  · intro h
    exact ⟨x.value.num, (Rat.den_eq_one_iff x.value).mp h |>.symm⟩
  · intro ⟨n, hn⟩
    rw [hn]
    rfl

def ofNat (n : ℕ) : Number :=
  ofRat n

/-- `m < n`, which no NaN is part of. -/
def lt : Number → Number → Bool
  | .finite x, .finite y => x.value < y.value
  | .finite _, .infinite negative => !negative
  | .infinite negative, .finite _ => negative
  | .infinite negative, .infinite negative' => negative && !negative'
  | _, _ => false

def sub : Number → Number → Number
  | .finite x, .finite y => ofRat (x.value - y.value)
  | .finite _, .infinite negative => .infinite !negative
  | .infinite negative, .finite _ => .infinite negative
  | .infinite negative, .infinite negative' => if negative = negative' then .nan else .infinite negative
  | _, _ => .nan

def mul : Number → Number → Number
  | .finite x, .finite y => ofRat (x.value * y.value)
  | .finite x, .infinite negative => if x.value = 0 then .nan else .infinite (negative != decide (x.value < 0))
  | .infinite negative, .finite x => if x.value = 0 then .nan else .infinite (negative != decide (x.value < 0))
  | .infinite negative, .infinite negative' => .infinite (negative != negative')
  | _, _ => .nan

/-- An integer of 53 bits is a double. -/
theorem exists_ofNat {n : ℕ} (h : n < 2 ^ 53) : ∃ x : Double, ofNat n = .finite x ∧ x.value = n := by
  have hexact : nearest n = n := by
    have hzero := nearest_of_lt (n := n) (e := 0) (by rw [abs_of_nonneg (by omega)]; exact_mod_cast h) (by omega)
    rwa [zpow_zero, mul_one, Int.cast_natCast] at hzero
  have hbounded : |(n : ℚ)| < 2 ^ 1024 := by
    rw [abs_of_nonneg (Nat.cast_nonneg n)]
    calc (n : ℚ) < 2 ^ 53 := by exact_mod_cast h
      _ ≤ 2 ^ 1024 := pow_le_pow_right₀ (by norm_num) (by norm_num)
  exact ⟨⟨n, hexact, hbounded⟩, ofRat_eq_finite_iff.mpr hexact, rfl⟩

/-- Below a double there is no overflow. -/
theorem exists_ofRat_of_le {x : Double} {y : ℚ} (hy : 0 ≤ y) (h : y ≤ x.value) :
    ∃ z : Double, ofRat y = .finite z ∧ z.value = nearest y := by
  have hle := nearest_mono hy h
  rw [x.exact] at hle
  have hbounded : |nearest y| < 2 ^ 1024 := by
    rw [abs_of_nonneg (nearest_nonneg hy)]
    exact hle.trans_lt ((le_abs_self _).trans_lt x.bounded)
  exact ⟨⟨nearest y, nearest_nearest y, hbounded⟩, ofRat_eq_finite_iff.mpr rfl, rfl⟩

/-- A signed integer of 64 bits. -/
def IsInt64 (n : Number) : Prop :=
  ∃ x : Double, n = .finite x ∧ ∃ m : ℤ, x.value = m ∧ -2 ^ 63 ≤ m ∧ m < 2 ^ 63

theorem isInt64_ofNat {n : ℕ} (h : n < 2 ^ 53) : IsInt64 (ofNat n) := by
  obtain ⟨x, hx, hvalue⟩ := exists_ofNat h
  refine ⟨x, hx, n, by exact_mod_cast hvalue, ?_, ?_⟩ <;> omega

theorem isInt64_ofRat_iff {x : ℚ} :
    IsInt64 (ofRat x) ↔ ∃ m : ℤ, nearest x = m ∧ -2 ^ 63 ≤ m ∧ m < 2 ^ 63 := by
  constructor
  · intro ⟨y, hy, m, hm, hrange⟩
    exact ⟨m, (ofRat_eq_finite_iff.mp hy).trans hm, hrange⟩
  · intro ⟨m, hm, hlower, hupper⟩
    have hbounded : |nearest x| < 2 ^ 1024 := by
      have habs : |m| ≤ 2 ^ 63 := abs_le.mpr ⟨by omega, by omega⟩
      calc |nearest x| ≤ 2 ^ 63 := by
            rw [hm]
            exact_mod_cast habs
        _ < 2 ^ 1024 := pow_lt_pow_right₀ (by norm_num) (by norm_num)
    exact ⟨⟨nearest x, nearest_nearest x, hbounded⟩, ofRat_eq_finite_iff.mpr rfl, m, hm, hlower, hupper⟩

end Number

end Binary64
