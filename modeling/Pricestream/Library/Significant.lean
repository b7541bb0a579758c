import Mathlib.Algebra.Order.Round
import Mathlib.Data.Int.Log
import Mathlib.Data.Rat.Floor

/-!
# Rounding to significant digits

A format has a base, a number of digits and a least place: a number is rounded to the nearest multiple
of its unit, ties to even, and the unit is the place of its last digit, or the least place if that is
higher. There is no greatest place, so nothing overflows; towards zero the digits run out, and what is
at most half of the least place is rounded to zero.

Multiples of the unit are kept. A power of the base between two numbers is a multiple of both units,
which is why rounding is monotone across the places where the unit changes.
-/

namespace Pricestream.Library

/-- The nearest integer, ties to even. -/
def halfEven (x : ℚ) : ℤ :=
  if x - ⌊x⌋ < 1 / 2 then ⌊x⌋
  else if 1 / 2 < x - ⌊x⌋ then ⌊x⌋ + 1
  else if ⌊x⌋ % 2 = 0 then ⌊x⌋ else ⌊x⌋ + 1

theorem halfEven_intCast (k : ℤ) : halfEven k = k := by
  simp [halfEven]

theorem halfEven_between (x : ℚ) : ⌊x⌋ ≤ halfEven x ∧ halfEven x ≤ ⌊x⌋ + 1 := by
  unfold halfEven
  split_ifs <;> constructor <;> omega

theorem halfEven_mono {x y : ℚ} (hxy : x ≤ y) : halfEven x ≤ halfEven y := by
  rcases (Int.floor_le_floor hxy).lt_or_eq with hlt | heq
  · have hx := (halfEven_between x).2
    have hy := (halfEven_between y).1
    omega
  · have hfrac : x - ⌊y⌋ ≤ y - ⌊y⌋ := sub_le_sub_right hxy _
    have hdown (hy : y - ⌊y⌋ < 1 / 2) : x - ⌊y⌋ < 1 / 2 := hfrac.trans_lt hy
    have hup (hx : 1 / 2 < x - ⌊y⌋) : 1 / 2 < y - ⌊y⌋ := hx.trans_le hfrac
    unfold halfEven
    rw [heq]
    split_ifs <;> first | omega | exact absurd (hdown ‹_›) ‹_› | exact absurd (hup ‹_›) ‹_›

theorem abs_halfEven_sub_le (x : ℚ) : |(halfEven x : ℚ) - x| ≤ 1 / 2 := by
  have hlow := Int.floor_le x
  have hhigh := Int.lt_floor_add_one x
  unfold halfEven
  rw [abs_le]
  split_ifs <;> push_cast <;> constructor <;> linarith

theorem halfEven_neg (x : ℚ) : halfEven (-x) = -halfEven x := by
  by_cases hint : x = ⌊x⌋
  · rw [hint, ← Int.cast_neg, halfEven_intCast, halfEven_intCast]
  · have hceil : ⌈x⌉ = ⌊x⌋ + 1 := by
      refine le_antisymm (Int.ceil_le_floor_add_one x) (Int.add_one_le_iff.mpr ?_)
      refine (Int.floor_le_ceil x).lt_of_ne fun heq => hint ?_
      exact le_antisymm (heq ▸ Int.le_ceil x) (Int.floor_le x)
    have hfloor : ⌊-x⌋ = -⌊x⌋ - 1 := by
      rw [Int.floor_neg, hceil]
      ring
    unfold halfEven
    rw [hfloor]
    push_cast
    split_ifs <;> first | omega | linarith

theorem halfEven_eq_zero_iff {x : ℚ} : halfEven x = 0 ↔ |x| ≤ 1 / 2 := by
  constructor
  · intro hzero
    have herror := abs_halfEven_sub_le x
    rwa [hzero, Int.cast_zero, zero_sub, abs_neg] at herror
  · intro hx
    obtain ⟨hlow, hhigh⟩ := abs_le.mp hx
    have hhalf : halfEven (1 / 2) = 0 := by norm_num [halfEven]
    have hbelow := halfEven_mono hlow
    have habove := halfEven_mono hhigh
    rw [halfEven_neg] at hbelow
    omega

structure Format where
  base : ℕ
  digits : ℕ
  least : ℤ
  one_lt_base : 1 < base
  digits_pos : 0 < digits

namespace Format

variable (f : Format)

/-- The exponent of a number's last digit. -/
def place (x : ℚ) : ℤ := max (Int.log f.base |x| + 1 - f.digits) f.least

def unit (x : ℚ) : ℚ := (f.base : ℚ) ^ f.place x

def round (x : ℚ) : ℚ := halfEven (x / f.unit x) * f.unit x

/-- The smallest positive number of the format. -/
def tiny : ℚ := (f.base : ℚ) ^ f.least

variable {f} {x y : ℚ}

theorem base_pos : (0 : ℚ) < f.base := by exact_mod_cast (zero_lt_one.trans f.one_lt_base)

theorem one_lt_base_rat : (1 : ℚ) < f.base := by exact_mod_cast f.one_lt_base

theorem unit_pos : 0 < f.unit x := zpow_pos base_pos _

theorem tiny_pos : 0 < f.tiny := zpow_pos base_pos _

theorem tiny_le_unit : f.tiny ≤ f.unit x := zpow_le_zpow_right₀ one_lt_base_rat.le (le_max_right _ _)

theorem unit_neg : f.unit (-x) = f.unit x := by rw [unit, place, abs_neg, unit, place]

theorem round_neg (x : ℚ) : f.round (-x) = -f.round x := by
  rw [round, round, unit_neg, neg_div, halfEven_neg]
  push_cast
  ring

@[simp] theorem round_zero : f.round 0 = 0 := by
  have hzero : halfEven 0 = 0 := by exact_mod_cast halfEven_intCast 0
  rw [round, zero_div, hzero]
  simp

/-! ### Multiples of the unit -/

theorem round_le_mul_unit {k : ℤ} (h : x ≤ k * f.unit x) : f.round x ≤ k * f.unit x := by
  have hscaled : x / f.unit x ≤ k := (div_le_iff₀ unit_pos).mpr h
  have hunits := halfEven_mono hscaled
  rw [halfEven_intCast] at hunits
  exact mul_le_mul_of_nonneg_right (by exact_mod_cast hunits) unit_pos.le

theorem mul_unit_le_round {k : ℤ} (h : k * f.unit x ≤ x) : k * f.unit x ≤ f.round x := by
  have hscaled : (k : ℚ) ≤ x / f.unit x := (le_div_iff₀ unit_pos).mpr h
  have hunits := halfEven_mono hscaled
  rw [halfEven_intCast] at hunits
  exact mul_le_mul_of_nonneg_right (by exact_mod_cast hunits) unit_pos.le

/-- A power of the base from the place on is a multiple of the unit. -/
theorem exists_pow_eq_mul_unit {n : ℤ} (h : f.place x ≤ n) :
    ∃ k : ℤ, (f.base : ℚ) ^ n = k * f.unit x := by
  obtain ⟨d, hd⟩ := Int.le.dest h
  refine ⟨(f.base : ℤ) ^ d, ?_⟩
  rw [unit, ← hd, zpow_add₀ base_pos.ne', zpow_natCast]
  push_cast
  ring

theorem round_le_pow {n : ℤ} (h : f.place x ≤ n) (hx : x ≤ (f.base : ℚ) ^ n) :
    f.round x ≤ (f.base : ℚ) ^ n := by
  obtain ⟨k, hk⟩ := exists_pow_eq_mul_unit h
  rw [hk] at hx ⊢
  exact round_le_mul_unit hx

theorem pow_le_round {n : ℤ} (h : f.place x ≤ n) (hx : (f.base : ℚ) ^ n ≤ x) :
    (f.base : ℚ) ^ n ≤ f.round x := by
  obtain ⟨k, hk⟩ := exists_pow_eq_mul_unit h
  rw [hk] at hx ⊢
  exact mul_unit_le_round hx

/-- **A number that has the digits is kept.** -/
theorem round_of_lt {k n : ℤ} (hk : |k| < (f.base : ℤ) ^ f.digits) (hn : f.least ≤ n) :
    f.round (k * (f.base : ℚ) ^ n) = k * (f.base : ℚ) ^ n := by
  by_cases hzero : (k : ℚ) * (f.base : ℚ) ^ n = 0
  · rw [hzero, round_zero]
  have hpow : (0 : ℚ) < (f.base : ℚ) ^ n := zpow_pos base_pos _
  have hlt : |(k : ℚ) * (f.base : ℚ) ^ n| < (f.base : ℚ) ^ (f.digits + n : ℤ) := by
    have hcast : |(k : ℚ)| < (f.base : ℚ) ^ f.digits := by exact_mod_cast hk
    rw [abs_mul, abs_of_pos hpow, zpow_add₀ base_pos.ne', zpow_natCast]
    exact mul_lt_mul_of_pos_right hcast hpow
  have hlog : Int.log f.base |(k : ℚ) * (f.base : ℚ) ^ n| < f.digits + n :=
    (Int.lt_zpow_iff_log_lt f.one_lt_base (abs_pos.mpr hzero)).mp hlt
  have hplace : f.place ((k : ℚ) * (f.base : ℚ) ^ n) ≤ n := max_le (by omega) hn
  obtain ⟨j, hj⟩ := exists_pow_eq_mul_unit hplace
  have hscaled : (k : ℚ) * (f.base : ℚ) ^ n / f.unit (k * (f.base : ℚ) ^ n) = ((k * j : ℤ) : ℚ) := by
    rw [div_eq_iff unit_pos.ne']
    conv_lhs => rw [hj]
    push_cast
    ring
  rw [round, hscaled, halfEven_intCast, ← hscaled, div_mul_cancel₀ _ unit_pos.ne']

/-! ### Monotonicity -/

theorem round_nonneg (hx : 0 ≤ x) : 0 ≤ f.round x := by
  have h := mul_unit_le_round (f := f) (x := x) (k := 0) (by simpa using hx)
  simpa using h

theorem round_mono_of_pos (hx : 0 < x) (hxy : x ≤ y) : f.round x ≤ f.round y := by
  have hy : 0 < y := hx.trans_le hxy
  have hlog : Int.log f.base |x| ≤ Int.log f.base |y| := by
    apply Int.log_mono_right (abs_pos.mpr hx.ne')
    rwa [abs_of_pos hx, abs_of_pos hy]
  have hplace : f.place x ≤ f.place y := max_le_max (by omega) le_rfl
  rcases hplace.lt_or_eq with hlt | heq
  -- a power of the base lies between the two
  · have hdigits := f.digits_pos
    have hy_place : f.place y ≤ Int.log f.base |y| := by
      unfold place at hlt ⊢
      omega
    have hbelow : x ≤ (f.base : ℚ) ^ Int.log f.base |y| := by
      have hne : Int.log f.base |x| < Int.log f.base |y| := by
        unfold place at hlt
        omega
      calc x = |x| := (abs_of_pos hx).symm
        _ ≤ (f.base : ℚ) ^ (Int.log f.base |x| + 1) := (Int.lt_zpow_succ_log_self f.one_lt_base _).le
        _ ≤ (f.base : ℚ) ^ Int.log f.base |y| := zpow_le_zpow_right₀ one_lt_base_rat.le hne
    have habove : (f.base : ℚ) ^ Int.log f.base |y| ≤ y := by
      conv_rhs => rw [← abs_of_pos hy]
      exact Int.zpow_log_le_self f.one_lt_base (abs_pos.mpr hy.ne')
    exact (round_le_pow (hlt.le.trans hy_place) hbelow).trans (pow_le_round hy_place habove)
  · have hunit : f.unit x = f.unit y := by rw [unit, heq, unit]
    have hunits := halfEven_mono (div_le_div_of_nonneg_right hxy (unit_pos (f := f) (x := x)).le)
    rw [round, round, ← hunit]
    exact mul_le_mul_of_nonneg_right (by exact_mod_cast hunits) unit_pos.le

/-- **Rounding is monotone.** -/
theorem round_mono : Monotone f.round := by
  intro x y hxy
  rcases lt_or_ge 0 x with hx | hx
  · exact round_mono_of_pos hx hxy
  rcases lt_or_ge y 0 with hy | hy
  · have hneg := round_mono_of_pos (f := f) (neg_pos.mpr hy) (neg_le_neg hxy)
    rw [round_neg, round_neg] at hneg
    exact neg_le_neg_iff.mp hneg
  · have hlow : 0 ≤ f.round (-x) := round_nonneg (neg_nonneg.mpr hx)
    rw [round_neg] at hlow
    exact (neg_nonneg.mp hlow).trans (round_nonneg hy)

/-! ### Error -/

theorem abs_round_sub_le (x : ℚ) : |f.round x - x| ≤ f.unit x / 2 := by
  have hscaled : f.round x - x = ((halfEven (x / f.unit x) : ℚ) - x / f.unit x) * f.unit x := by
    rw [round, sub_mul, div_mul_cancel₀ _ unit_pos.ne']
  rw [hscaled, abs_mul, abs_of_pos unit_pos]
  have hprod := mul_le_mul_of_nonneg_right (abs_halfEven_sub_le (x / f.unit x))
    (unit_pos (f := f) (x := x)).le
  linarith

/-- A multiple of the unit is where everything within half a unit of it goes. -/
theorem round_eq_of_abs_lt {k : ℤ} (h : |k * f.unit x - x| < f.unit x / 2) : f.round x = k * f.unit x := by
  have hpos := unit_pos (f := f) (x := x)
  have hnear : |(k : ℚ) - x / f.unit x| < 1 / 2 := by
    have hscaled : (k * f.unit x - x : ℚ) = (k - x / f.unit x) * f.unit x := by
      rw [sub_mul, div_mul_cancel₀ _ hpos.ne']
    rw [hscaled, abs_mul, abs_of_pos hpos] at h
    exact lt_of_mul_lt_mul_right (by linarith) hpos.le
  have herror := abs_le.mp (abs_halfEven_sub_le (x / f.unit x))
  have hbounds := abs_lt.mp hnear
  have hlow : ((halfEven (x / f.unit x) - k : ℤ) : ℚ) < 1 := by
    push_cast
    linarith [herror.2, hbounds.1]
  have hhigh : (-1 : ℚ) < ((halfEven (x / f.unit x) - k : ℤ) : ℚ) := by
    push_cast
    linarith [herror.1, hbounds.2]
  have hlow' : halfEven (x / f.unit x) - k < 1 := by exact_mod_cast hlow
  have hhigh' : -1 < halfEven (x / f.unit x) - k := by exact_mod_cast hhigh
  rw [round, show halfEven (x / f.unit x) = k by omega]

/-- Below a power of the base a number is moved by at most half of the last digit from there. -/
theorem abs_round_sub_le_of_lt {n : ℤ} (hn : f.least ≤ n - f.digits) (hx : |x| < (f.base : ℚ) ^ n) :
    |f.round x - x| ≤ (f.base : ℚ) ^ (n - f.digits) / 2 := by
  by_cases hzero : x = 0
  · have hpow : (0 : ℚ) < (f.base : ℚ) ^ (n - f.digits) := zpow_pos base_pos _
    rw [hzero, round_zero, sub_zero, abs_zero]
    exact (half_pos hpow).le
  have hlog : Int.log f.base |x| < n :=
    (Int.lt_zpow_iff_log_lt f.one_lt_base (abs_pos.mpr hzero)).mp hx
  have hplace : f.place x ≤ n - f.digits := max_le (by omega) hn
  have hunit : f.unit x ≤ (f.base : ℚ) ^ (n - f.digits) :=
    zpow_le_zpow_right₀ one_lt_base_rat.le hplace
  have herror := abs_round_sub_le (f := f) x
  linarith

/-- A number with all its digits is moved by at most half of the last, relative to its first. -/
theorem abs_round_sub_le_mul (hx : (f.base : ℚ) ^ (f.least + f.digits - 1) ≤ |x|) :
    |f.round x - x| ≤ (f.base : ℚ) ^ (1 - f.digits : ℤ) / 2 * |x| := by
  have hpos : 0 < |x| := (zpow_pos base_pos _).trans_le hx
  have hlog : f.least + f.digits - 1 ≤ Int.log f.base |x| :=
    (Int.zpow_le_iff_le_log f.one_lt_base hpos).mp hx
  have hplace : f.place x = Int.log f.base |x| + (1 - f.digits : ℤ) := by
    unfold place
    omega
  have hunit : f.unit x ≤ |x| * (f.base : ℚ) ^ (1 - f.digits : ℤ) := by
    rw [unit, hplace, zpow_add₀ base_pos.ne']
    exact mul_le_mul_of_nonneg_right (Int.zpow_log_le_self f.one_lt_base hpos)
      (zpow_pos base_pos _).le
  have herror := abs_round_sub_le (f := f) x
  linarith

/-! ### Towards zero -/

/-- **What is rounded to zero.** -/
theorem round_eq_zero_iff : f.round x = 0 ↔ |x| ≤ f.tiny / 2 := by
  have hunit : f.round x = 0 ↔ |x| ≤ f.unit x / 2 := by
    rw [round, mul_eq_zero, or_iff_left unit_pos.ne', Int.cast_eq_zero, halfEven_eq_zero_iff, abs_div,
      abs_of_pos unit_pos, div_le_iff₀ unit_pos]
    constructor <;> intro h <;> linarith
  rw [hunit]
  constructor
  · intro hx
    by_cases hzero : x = 0
    · rw [hzero, abs_zero]
      exact (half_pos tiny_pos).le
    -- above the least place the unit is at most the number
    have hdigits := f.digits_pos
    have hlow : f.unit x ≤ f.tiny := by
      by_contra hlt
      have hplace : f.place x ≤ Int.log f.base |x| := by
        by_contra hbelow
        have hleast : f.place x = f.least := by
          unfold place at hbelow ⊢
          omega
        exact hlt (by rw [unit, hleast, tiny])
      have hle : f.unit x ≤ |x| := (zpow_le_zpow_right₀ one_lt_base_rat.le hplace).trans
        (Int.zpow_log_le_self f.one_lt_base (abs_pos.mpr hzero))
      have hpos := unit_pos (f := f) (x := x)
      linarith
    linarith
  · intro hx
    have hle := tiny_le_unit (f := f) (x := x)
    linarith

theorem unit_eq_tiny (hzero : x ≠ 0) (hx : |x| < f.base * f.tiny) : f.unit x = f.tiny := by
  have hpow : (f.base : ℚ) * f.tiny = (f.base : ℚ) ^ (f.least + 1) := by
    rw [tiny, zpow_add_one₀ base_pos.ne', mul_comm]
  rw [hpow] at hx
  have hlog : Int.log f.base |x| < f.least + 1 :=
    (Int.lt_zpow_iff_log_lt f.one_lt_base (abs_pos.mpr hzero)).mp hx
  have hdigits := f.digits_pos
  rw [unit, tiny, place, max_eq_right (by omega)]

/-- What is rounded to the smallest positive number, or to zero. -/
theorem round_le_tiny_iff (hx : 0 ≤ x) : f.round x ≤ f.tiny ↔ x < 3 / 2 * f.tiny := by
  have htiny := tiny_pos (f := f)
  have hbase : (2 : ℚ) ≤ f.base := by exact_mod_cast f.one_lt_base
  have hbelow : 3 / 2 * f.tiny < f.base * f.tiny := mul_lt_mul_of_pos_right (by linarith) htiny
  constructor
  · intro hround
    by_contra hle
    have hpos : 0 < 3 / 2 * f.tiny := by linarith
    have hunit : f.unit (3 / 2 * f.tiny) = f.tiny :=
      unit_eq_tiny hpos.ne' (by rwa [abs_of_pos hpos])
    have htwo : f.round (3 / 2 * f.tiny) = 2 * f.tiny := by
      have heven : halfEven (3 / 2) = 2 := by norm_num [halfEven]
      rw [round, hunit, mul_div_cancel_right₀ _ htiny.ne', heven]
      norm_num
    have hmono := round_mono (f := f) (not_lt.mp hle)
    linarith
  · intro hlt
    rcases hx.eq_or_lt with rfl | hpos
    · rw [round_zero]
      exact htiny.le
    have hunit : f.unit x = f.tiny :=
      unit_eq_tiny hpos.ne' (by rw [abs_of_pos hpos]; exact hlt.trans hbelow)
    have hscaled : x / f.tiny < 3 / 2 := (div_lt_iff₀ htiny).mpr hlt
    have herror := (abs_le.mp (abs_halfEven_sub_le (x / f.tiny))).2
    have hunits : (halfEven (x / f.tiny) : ℚ) < 2 := by linarith
    have hone : halfEven (x / f.tiny) ≤ 1 := Int.lt_add_one_iff.mp (by exact_mod_cast hunits)
    rw [round, hunit]
    calc (halfEven (x / f.tiny) : ℚ) * f.tiny
        ≤ 1 * f.tiny := mul_le_mul_of_nonneg_right (by exact_mod_cast hone) htiny.le
      _ = f.tiny := one_mul _

theorem round_pos_iff : 0 < f.round x ↔ f.tiny / 2 < x := by
  constructor
  · intro hround
    have hx : 0 < x := by
      by_contra hx
      have hle := round_mono (f := f) (not_lt.mp hx)
      rw [round_zero] at hle
      exact hround.not_ge hle
    by_contra hle
    rw [round_eq_zero_iff.mpr (by rwa [abs_of_pos hx, ← not_lt])] at hround
    exact lt_irrefl _ hround
  · intro hx
    have hpos : 0 < x := (half_pos tiny_pos).trans hx
    refine (round_nonneg hpos.le).lt_of_ne fun hzero => ?_
    have hle := round_eq_zero_iff.mp hzero.symm
    rw [abs_of_pos hpos] at hle
    exact hx.not_ge hle

end Format

end Pricestream.Library
