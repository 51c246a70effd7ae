/-
Rounding of rationals to a binary floating-point format, to the nearest
number and a tie to the even significand.

A format has significands of `precision` bits and exponents from `low` on;
it has no largest number, so overflow is for whoever uses it. A number of
the format (`Represents`) rounds to itself, and any other moves by at most
half a unit in its last place, which is a `2 ^ precision`-th of the number
(`round_error`), or half of the smallest unit there is.

The errors of two roundings with an exact product between them add up
(`round_mul_error`).
-/
import Mathlib

namespace LocalLLM.Rounding

/-- The nearest integer, and the even one of two. -/
def nearestEven (q : ℚ) : ℤ :=
  if q - ⌊q⌋ < 1 / 2 then ⌊q⌋
  else if 1 / 2 < q - ⌊q⌋ then ⌊q⌋ + 1
  else if ⌊q⌋ % 2 = 0 then ⌊q⌋
  else ⌊q⌋ + 1

@[simp] theorem nearestEven_intCast (n : ℤ) : nearestEven n = n := by
  unfold nearestEven
  rw [Int.floor_intCast, if_pos (by norm_num)]

theorem nearestEven_error (q : ℚ) : |(nearestEven q : ℚ) - q| ≤ 1 / 2 := by
  have hlow := Int.floor_le q
  have hhigh := Int.lt_floor_add_one q
  unfold nearestEven
  rw [abs_le]
  split_ifs
  · constructor <;> linarith
  · push_cast
    constructor <;> linarith
  · constructor <;> linarith
  · push_cast
    constructor <;> linarith

structure Format where
  precision : ℕ
  low : ℤ

namespace Format

variable (f : Format)

/-- The exponent of the last place of a number. -/
def exponent (q : ℚ) : ℤ := max (Int.log 2 |q| + 1 - f.precision) f.low

/-- A unit in the last place. -/
def unit (q : ℚ) : ℚ := 2 ^ f.exponent q

def round (q : ℚ) : ℚ := nearestEven (q / f.unit q) * f.unit q

/-- A number of the format. -/
def Represents (q : ℚ) : Prop :=
  ∃ m e : ℤ, q = m * 2 ^ e ∧ f.low ≤ e ∧ |m| < 2 ^ f.precision

variable {f} {q : ℚ}

theorem unit_pos (q : ℚ) : 0 < f.unit q := zpow_pos (by norm_num) _

@[simp] theorem round_zero : f.round 0 = 0 := by
  unfold round
  rw [zero_div, show nearestEven 0 = 0 from nearestEven_intCast 0,
    Int.cast_zero, zero_mul]

/-- The last place of a number of the format is not above its exponent. -/
theorem exponent_le {m e : ℤ} (hq : q = m * 2 ^ e) (hne : q ≠ 0)
    (hlow : f.low ≤ e) (hm : |m| < 2 ^ f.precision) : f.exponent q ≤ e := by
  have hsize : |q| < (2 : ℕ) ^ (e + f.precision) := by
    have hm' : (|m| : ℚ) < 2 ^ (f.precision : ℤ) := by
      rw [zpow_natCast]
      exact_mod_cast hm
    calc |q| = |(m : ℚ)| * 2 ^
      e := by rw [hq, abs_mul, abs_of_pos (a := (2 : ℚ) ^ e) (by positivity)]
      _ < 2 ^ (f.precision : ℤ) * 2 ^ e := by
          exact mul_lt_mul_of_pos_right hm' (by positivity)
      _ = (2 : ℕ) ^ (e + f.precision) := by
          rw [Nat.cast_ofNat, ← zpow_add₀ (by norm_num), add_comm]
  have hlog := (Int.lt_zpow_iff_log_lt (by norm_num) (abs_pos.2 hne)).1 hsize
  unfold exponent
  exact max_le (by omega) hlow

/-- A number of the format rounds to itself. -/
theorem Represents.round_self (h : f.Represents q) : f.round q = q := by
  obtain ⟨m, e, hq, hlow, hm⟩ := h
  by_cases hne : q = 0
  · rw [hne, round_zero]
  · have hle := exponent_le hq hne hlow hm
    have hwhole : q / f.unit q
        = ((m * 2 ^ (e - f.exponent q).toNat : ℤ) : ℚ) := by
      have hpower : (2 : ℚ) ^ (e - f.exponent q).toNat * 2 ^ f.exponent q
          = 2 ^ e := by
        rw [← zpow_natCast, ← zpow_add₀ (by norm_num),
          Int.toNat_of_nonneg (by omega),
          sub_add_cancel]
      rw [div_eq_iff (unit_pos q).ne']
      unfold unit
      push_cast
      rw [mul_assoc, hpower, ← hq]
    unfold round
    rw [hwhole, nearestEven_intCast, ← hwhole, div_mul_cancel₀ _
      (unit_pos q).ne']

/-- Whole numbers that fit in the significand. -/
theorem represents_intCast (hlow : f.low ≤ 0) {n : ℤ}
    (hn : |n| < 2 ^ f.precision) : f.Represents n :=
  ⟨n, 0, by simp, hlow, hn⟩

/-- Half a unit in the last place of a number. -/
def slack (f : Format) (q : ℚ) : ℚ := |q| / 2 ^ f.precision + 2 ^ f.low / 2

theorem half_unit_le (hne : q ≠ 0) : f.unit q / 2 ≤ f.slack q := by
  have hzero : (0 : ℚ) ≤ |q| / 2 ^ f.precision := by positivity
  have hlow : (0 : ℚ) < 2 ^ f.low / 2 := by positivity
  unfold unit exponent slack
  rcases max_choice (Int.log 2 |q| + 1 - f.precision) f.low with hmax | hmax
  · rw [hmax]
    have hlog := Int.zpow_log_le_self (b := 2) (by norm_num) (abs_pos.2 hne)
    have hunit : (2 : ℚ) ^ (Int.log 2 |q| + 1 - f.precision) / 2
        = (2 : ℕ) ^ Int.log 2 |q| / 2 ^ f.precision := by
      rw [zpow_sub₀ (by norm_num), zpow_add_one₀ (by norm_num), zpow_natCast,
        Nat.cast_ofNat]
      ring
    rw [hunit]
    calc _ ≤ |q| / 2 ^ f.precision :=
          div_le_div_of_nonneg_right hlog (by positivity)
      _ ≤ _ := le_add_of_nonneg_right hlow.le
  · rw [hmax]
    exact le_add_of_nonneg_left hzero

/-- No number moves further. -/
theorem round_error (q : ℚ) : |f.round q - q| ≤ f.slack q := by
  by_cases hne : q = 0
  · rw [hne, round_zero, sub_zero, abs_zero]
    unfold slack
    positivity
  have hpos := unit_pos (f := f) q
  have hscaled : f.round q - q
      = (nearestEven (q / f.unit q) - q / f.unit q) * f.unit q := by
    unfold round
    rw [sub_mul, div_mul_cancel₀ _ hpos.ne']
  rw [hscaled, abs_mul, abs_of_pos hpos]
  calc _ ≤ 1 / 2 * f.unit q :=
        mul_le_mul_of_nonneg_right (nearestEven_error _) hpos.le
    _ = f.unit q / 2 := by ring
    _ ≤ f.slack q := half_unit_le hne

/-- A number is not far above what it rounds to. -/
theorem abs_le_of_round (hp : 1 ≤ f.precision) (q : ℚ) :
    |q| ≤ 2 * |f.round q| + 2 ^ f.low := by
  have herror := round_error (f := f) q
  have hmoved : |q| ≤ |f.round q| + |f.round q - q| := by
    rw [abs_sub_comm]
    calc |q| = |f.round q + (q - f.round q)| := by ring_nf
      _ ≤ _ := abs_add_le _ _
  have hhalf : |q| / 2 ^ f.precision ≤ |q| / 2 :=
    div_le_div_of_nonneg_left (abs_nonneg q) (by norm_num)
      (le_self_pow₀ (by norm_num) (by omega))
  unfold slack at herror
  linarith

/-- The error of a rounding, in terms of what comes out. -/
theorem round_back_error (hp : 1 ≤ f.precision) (q : ℚ) :
    |f.round q - q| ≤ 2 * |f.round q| / 2 ^ f.precision + 2 ^ f.low := by
  have hlow : (0 : ℚ) < 2 ^ f.low := by positivity
  have hhalf : (2 : ℚ) ^ f.low / 2 ^ f.precision ≤ 2 ^ f.low / 2 :=
    div_le_div_of_nonneg_left hlow.le (by norm_num)
      (le_self_pow₀ (by norm_num) (by omega))
  calc |f.round q - q| ≤ |q| / 2 ^ f.precision + 2 ^ f.low / 2 := round_error q
    _ ≤ (2 * |f.round q| + 2 ^ f.low) / 2 ^ f.precision + 2 ^ f.low / 2 := by
        gcongr
        exact abs_le_of_round hp q
    _ ≤ 2 * |f.round q| / 2 ^ f.precision + 2 ^ f.low := by
        rw [add_div]
        linarith

/-- Two roundings with a product between them. -/
theorem round_mul_error (hp : 1 ≤ f.precision) (q : ℚ) {u : ℚ} (hu : 0 ≤ u) :
    |f.round (f.round q * u) - q * u|
      ≤ 6 * |f.round (f.round q * u)| / 2 ^ f.precision
        + (2 + u) * 2 ^ f.low := by
  have hlow : (0 : ℚ) < 2 ^ f.low := by positivity
  have hhalf : (2 : ℚ) ^ f.low / 2 ^ f.precision ≤ 2 ^ f.low / 2 :=
    div_le_div_of_nonneg_left hlow.le (by norm_num)
      (le_self_pow₀ (by norm_num) (by omega))
  have hinner := mul_le_mul_of_nonneg_right (round_back_error hp q) hu
  have houter := abs_le_of_round hp (f.round q * u)
  rw [abs_mul, abs_of_nonneg hu] at houter
  -- the first error, in terms of what comes out last
  have hfirst : 2 * (|f.round q| * u) / 2 ^ f.precision
      ≤ 4 * |f.round (f.round q * u)| / 2 ^ f.precision + 2 ^ f.low := by
    calc _ ≤ 2 * (2 * |f.round (f.round q * u)| + 2 ^ f.low) / 2 ^
        f.precision := by
          gcongr
      _ = 4 * |f.round (f.round q * u)| / 2 ^ f.precision
          + 2 * (2 ^ f.low / 2 ^ f.precision) := by ring
      _ ≤ _ := by linarith
  calc |f.round (f.round q * u) - q * u|
      = |(f.round (f.round q * u) - f.round q * u)
        + (f.round q - q) * u| := by ring_nf
    _ ≤ |f.round (f.round q * u) - f.round q * u| + |f.round q - q| * u := by
        rw [← abs_of_nonneg hu, ← abs_mul, abs_of_nonneg hu]
        exact abs_add_le _ _
    _ ≤ (2 * |f.round (f.round q * u)| / 2 ^ f.precision + 2 ^ f.low)
        + (2 * |f.round q| / 2 ^ f.precision + 2 ^ f.low) * u :=
        add_le_add (round_back_error hp _) hinner
    _ = 2 * |f.round (f.round q * u)| / 2 ^ f.precision
        + 2 * (|f.round q| * u) / 2 ^ f.precision
        + (1 + u) * 2 ^ f.low := by ring
    _ ≤ 2 * |f.round (f.round q * u)| / 2 ^ f.precision
        + (4 * |f.round (f.round q * u)| / 2 ^ f.precision + 2 ^ f.low)
        + (1 + u) * 2 ^ f.low := by linarith
    _ = _ := by ring

end Format

end LocalLLM.Rounding
