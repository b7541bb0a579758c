import Pricestream.Library.Buckets
import Pricestream.Library.Significant

/-!
# `datetime.timedelta`

A `timedelta` is a number of microseconds, and shorter than 10^9 days. `total_seconds()` divides it by a
million in binary floating point, so that the quotient is the nearest double, and `int()` cuts what is
left of a second towards zero. Up to 2^34 seconds, some 544 years, this counts the seconds there are.
Over longer times the doubles lie too far apart for the last microseconds of a second: they are rounded
to the second that follows before anything is cut.
-/

namespace Pricestream.Python.TimeDelta

open Library

def second : ℤ := 1000000

theorem second_pos : 0 < second := by decide

/-- The doubles, but for their largest exponent. -/
def binary64 : Format := ⟨2, 53, -1074, by decide, by decide⟩

/-- `delta.total_seconds()`. -/
def totalSeconds (delta : ℤ) : ℚ := binary64.round (delta / second)

/-- `int(x)`. -/
def truncate (x : ℚ) : ℤ := if 0 ≤ x then ⌊x⌋ else ⌈x⌉

/-- `int(delta.total_seconds())`. -/
def intSeconds (delta : ℤ) : ℤ := truncate (totalSeconds delta)

/-- The seconds of 10^9 days. -/
def limit : ℤ := 86400000000000

/-! ### Whole seconds -/

theorem truncate_mono : Monotone truncate := by
  intro x y hxy
  unfold truncate
  split_ifs with hx hy
  · exact Int.floor_le_floor hxy
  · exact absurd (hx.trans hxy) hy
  · exact (Int.ceil_le.mpr (by exact_mod_cast (not_le.mp hx).le)).trans (Int.floor_nonneg.mpr ‹_›)
  · exact Int.ceil_le_ceil hxy

theorem truncate_intCast (n : ℤ) : truncate n = n := by simp [truncate]

theorem intSeconds_mono : Monotone intSeconds := by
  intro x y hxy
  have hcast : (x : ℚ) / second ≤ y / second := by
    have hpos : (0 : ℚ) < second := by norm_num [second]
    exact div_le_div_of_nonneg_right (by exact_mod_cast hxy) hpos.le
  exact truncate_mono (Format.round_mono hcast)

/-- Whole seconds are counted as they are, as far as the doubles have room for them. -/
theorem intSeconds_mul {n : ℤ} (hn : |n| < 2 ^ 53) : intSeconds (n * second) = n := by
  have heq : ((n * second : ℤ) : ℚ) / second = n * ((binary64.base : ℕ) : ℚ) ^ (0 : ℤ) := by
    rw [zpow_zero, mul_one, Int.cast_mul, mul_div_cancel_right₀]
    norm_num [second]
  have hkept : binary64.round (n * ((binary64.base : ℕ) : ℚ) ^ (0 : ℤ)) =
      n * ((binary64.base : ℕ) : ℚ) ^ (0 : ℤ) :=
    Format.round_of_lt (f := binary64) (by exact_mod_cast hn) (by decide)
  rw [intSeconds, totalSeconds, heq, hkept, zpow_zero, mul_one, truncate_intCast]

theorem intSeconds_neg (x : ℤ) : intSeconds (-x) = -intSeconds x := by
  have hneg : totalSeconds (-x) = -totalSeconds x := by
    rw [totalSeconds, totalSeconds, Int.cast_neg, neg_div, Format.round_neg]
  rw [intSeconds, intSeconds, hneg]
  rcases lt_trichotomy 0 (totalSeconds x) with hpos | hzero | hneg
  · have hlow : ¬ 0 ≤ -totalSeconds x := by linarith
    rw [truncate, if_neg hlow, truncate, if_pos hpos.le, Int.ceil_neg]
  · simp [← hzero, truncate]
  · have hlow : 0 ≤ -totalSeconds x := by linarith
    rw [truncate, if_pos hlow, truncate, if_neg hneg.not_ge, Int.floor_neg]

/-- `int(delta.total_seconds())` as a way of counting seconds. No `timedelta` is longer than the limit;
beyond it seconds are cut exactly. -/
def wholeSeconds : Count second where
  count x := if |x| ≤ limit * second then intSeconds x else x.tdiv second
  unit_pos := second_pos
  mono := by
    intro x y hxy
    have htop : intSeconds (limit * second) = limit := intSeconds_mul (by decide)
    have hbottom : intSeconds (-(limit * second)) = -limit := by rw [intSeconds_neg, htop]
    simp only [abs_le]
    split_ifs with hx hy hy
    · exact intSeconds_mono hxy
    · have hlong : limit * second ≤ y := by omega
      calc intSeconds x
          ≤ limit := htop ▸ intSeconds_mono hx.2
        _ = (limit * second).tdiv second := (Int.mul_tdiv_cancel _ second_pos.ne').symm
        _ ≤ y.tdiv second := Int.tdiv_le_tdiv second_pos hlong
    · have hlong : x ≤ -limit * second := by
        rw [neg_mul]
        omega
      calc x.tdiv second
          ≤ (-limit * second).tdiv second := Int.tdiv_le_tdiv second_pos hlong
        _ = -limit := Int.mul_tdiv_cancel _ second_pos.ne'
        _ ≤ intSeconds y := hbottom ▸ intSeconds_mono hy.1
    · exact Int.tdiv_le_tdiv second_pos hxy
  exact n := by
    rw [abs_mul, abs_of_pos second_pos]
    split_ifs with hn
    · have hshort : |n| ≤ limit := le_of_mul_le_mul_right hn second_pos
      exact intSeconds_mul (hshort.trans_lt (by decide))
    · exact Int.mul_tdiv_cancel n second_pos.ne'

theorem wholeSeconds_of_le {x : ℤ} (h : |x| ≤ limit * second) : wholeSeconds.count x = intSeconds x :=
  if_pos h

/-! ### Lost microseconds -/

/-- The binary exponent of the whole seconds of a time. -/
def exponent (x : ℤ) : ℕ := (x.natAbs / 1000000).log2

/-- How many of the last microseconds before a whole second are rounded up to it, at a distance from the
epoch. In the first 544 years there are none, and after four thousand years there are 15. -/
def margin (x : ℤ) : ℤ := second * 2 ^ exponent x / 2 ^ 53

theorem totalSeconds_nonneg {x : ℤ} (hx : 0 ≤ x) : 0 ≤ totalSeconds x := by
  have hpos : (0 : ℚ) < second := by norm_num [second]
  exact Format.round_nonneg (div_nonneg (by exact_mod_cast hx) hpos.le)

theorem div_second_lt {x : ℤ} (hx : 0 ≤ x) : (x : ℚ) / second < 2 ^ (exponent x + 1) := by
  have hself : (x.natAbs : ℤ) = x := Int.natAbs_of_nonneg hx
  have hlt : x.natAbs < 2 ^ (exponent x + 1) * 1000000 :=
    (Nat.div_lt_iff_lt_mul (by decide)).mp Nat.lt_log2_self
  have hcast : (x.natAbs : ℤ) < 2 ^ (exponent x + 1) * second := by
    rw [second]
    exact_mod_cast hlt
  rw [hself] at hcast
  rw [div_lt_iff₀ (by norm_num [second])]
  exact_mod_cast hcast

theorem le_div_second {x : ℤ} (hx : second ≤ x) : (2 : ℚ) ^ exponent x ≤ x / second := by
  have hself : (x.natAbs : ℤ) = x := Int.natAbs_of_nonneg (second_pos.le.trans hx)
  have hne : x.natAbs / 1000000 ≠ 0 := by
    rw [second] at hx
    omega
  have hle : 2 ^ exponent x * 1000000 ≤ x.natAbs :=
    (Nat.le_div_iff_mul_le (by decide)).mp (Nat.log2_self_le hne)
  have hcast : 2 ^ exponent x * second ≤ (x.natAbs : ℤ) := by
    rw [second]
    exact_mod_cast hle
  rw [hself] at hcast
  rw [le_div_iff₀ (by norm_num [second])]
  exact_mod_cast hcast

theorem exponent_le {x : ℤ} (hx : 0 ≤ x) (hlimit : x ≤ limit * second) : exponent x ≤ 46 := by
  rw [limit, second] at hlimit
  by_cases hzero : x.natAbs / 1000000 = 0
  · rw [exponent, hzero]
    decide
  · exact Nat.lt_succ_iff.mp ((Nat.log2_lt hzero).mpr (by omega))

/-- The doubles from a power of two to the next. -/
theorem unit_eq {x : ℚ} {k : ℕ} (hlow : 2 ^ k ≤ x) (hhigh : x < 2 ^ (k + 1)) :
    binary64.unit x = 2 ^ (k - 52 : ℤ) := by
  have hpos : 0 < x := (by positivity : (0 : ℚ) < 2 ^ k).trans_le hlow
  have hlog : Int.log 2 |x| = k := by
    rw [abs_of_pos hpos]
    refine le_antisymm (Int.lt_add_one_iff.mp ?_) ?_
    · exact (Int.lt_zpow_iff_log_lt (by decide) hpos).mp (by exact_mod_cast hhigh)
    · exact (Int.zpow_le_iff_le_log (by decide) hpos).mp (by exact_mod_cast hlow)
  have hplace : binary64.place x = k - 52 := by
    simp only [Format.place, binary64, hlog]
    omega
  rw [Format.unit, hplace]
  rfl

/-- The margin is half the distance of the doubles there. -/
theorem le_margin_iff (x n : ℤ) : n ≤ margin x ↔ (n : ℚ) / second ≤ 2 ^ (exponent x - 53 : ℤ) := by
  have hpow : (2 : ℚ) ^ (exponent x - 53 : ℤ) = 2 ^ exponent x / 2 ^ 53 := by
    rw [zpow_sub₀ two_ne_zero, zpow_natCast]
    norm_num
  rw [margin, Int.le_ediv_iff_mul_le (by decide), hpow, div_le_div_iff₀ (by norm_num [second]) (by norm_num),
    mul_comm second]
  exact_mod_cast Iff.rfl

/-- No microsecond lies in the middle between two doubles. -/
theorem div_second_ne {k : ℕ} (hk : k ≤ 46) (n : ℤ) : (n : ℚ) / second ≠ 2 ^ (k - 53 : ℤ) := by
  obtain ⟨j, hj⟩ := Nat.exists_eq_add_of_le hk
  have hpow : (2 : ℚ) ^ (k - 53 : ℤ) = 1 / 2 ^ (j + 7) := by
    have hexp : (k - 53 : ℤ) = -((j + 7 : ℕ) : ℤ) := by
      push_cast
      omega
    rw [hexp, zpow_neg, zpow_natCast, one_div]
  intro heq
  rw [hpow, div_eq_div_iff (by norm_num [second]) (by positivity), one_mul] at heq
  have hint : n * 2 ^ j * 128 = second := by
    have hcast : ((n * 2 ^ (j + 7) : ℤ) : ℚ) = ((second : ℤ) : ℚ) := by exact_mod_cast heq
    have hexact : n * 2 ^ (j + 7) = second := by exact_mod_cast hcast
    rw [← hexact, pow_add]
    ring
  rw [second] at hint
  omega

/-- What is missing to the next whole second. -/
theorem sub_emod_div (x : ℤ) :
    ((second - x % second : ℤ) : ℚ) / second = ((x / second + 1 : ℤ) : ℚ) - x / second := by
  have hpos : (0 : ℚ) < second := by norm_num [second]
  have hdiv : ((second * (x / second) + x % second : ℤ) : ℚ) = x := by rw [Int.mul_ediv_add_emod]
  push_cast at hdiv ⊢
  rw [div_eq_iff hpos.ne', sub_mul, div_mul_cancel₀ _ hpos.ne']
  linarith

theorem half_unit (k : ℕ) : (2 : ℚ) ^ (k - 52 : ℤ) / 2 = 2 ^ (k - 53 : ℤ) := by
  rw [show (k - 52 : ℤ) = k - 53 + 1 by ring, zpow_add_one₀ two_ne_zero]
  ring

/-- Within the margin the next whole second is the nearest double. -/
theorem totalSeconds_of_le_margin {x : ℤ} (hx : 0 ≤ x) (hlimit : x ≤ limit * second)
    (hlost : second - x % second ≤ margin x) : totalSeconds x = ((x / second + 1 : ℤ) : ℚ) := by
  have hk := exponent_le hx hlimit
  have hrem := Int.emod_lt_of_pos x second_pos
  have hlt := ((le_margin_iff x _).mp hlost).lt_of_ne (div_second_ne hk _)
  have hone : second ≤ x := by
    by_contra hsmall
    have hzero : exponent x = 0 := by
      rw [exponent, Nat.div_eq_of_lt (by rw [second] at hsmall; omega)]
      rfl
    have hmargin : margin x = 0 := by
      rw [margin, hzero]
      decide
    omega
  have hunit := unit_eq (le_div_second hone) (div_second_lt hx)
  have hwhole : (((x / second + 1) * 2 ^ (52 - exponent x) : ℤ) : ℚ) * binary64.unit (x / second) =
      ((x / second + 1 : ℤ) : ℚ) := by
    have hexp : (exponent x - 52 : ℤ) = -((52 - exponent x : ℕ) : ℤ) := by omega
    rw [hunit, hexp, zpow_neg, zpow_natCast]
    push_cast
    rw [mul_assoc, mul_inv_cancel₀ (by positivity), mul_one]
  have hnonneg : (0 : ℚ) ≤ ((x / second + 1 : ℤ) : ℚ) - x / second := by
    rw [← sub_emod_div]
    have hgap : 0 ≤ second - x % second := by omega
    exact div_nonneg (by exact_mod_cast hgap) (by norm_num [second])
  rw [totalSeconds, ← hwhole]
  refine Format.round_eq_of_abs_lt ?_
  rw [hwhole, abs_of_nonneg hnonneg, ← sub_emod_div, hunit, half_unit]
  exact hlt

/-- **What `int(delta.total_seconds())` is.** -/
theorem intSeconds_of_nonneg {x : ℤ} (hx : 0 ≤ x) (hlimit : x ≤ limit * second) :
    intSeconds x = x / second + if second - x % second ≤ margin x then 1 else 0 := by
  have hfloor : intSeconds x = ⌊totalSeconds x⌋ := by
    rw [intSeconds, truncate, if_pos (totalSeconds_nonneg hx)]
  split_ifs with hlost
  · rw [hfloor, totalSeconds_of_le_margin hx hlimit hlost, Int.floor_intCast]
  -- outside of it no rounding reaches the next whole second
  · have hcount := wholeSeconds.count_cases x
    rw [wholeSeconds_of_le (by rwa [abs_of_nonneg hx])] at hcount
    rw [add_zero]
    refine hcount.resolve_right fun ⟨hnext, _⟩ => hlost ((le_margin_iff x _).mpr ?_)
    have hreached : ((x / second + 1 : ℤ) : ℚ) ≤ totalSeconds x := by
      rw [← hnext, hfloor]
      exact Int.floor_le _
    have hlt : |(x : ℚ) / second| < ((binary64.base : ℕ) : ℚ) ^ ((exponent x : ℤ) + 1) := by
      have hquotient : (0 : ℚ) ≤ x / second := div_nonneg (by exact_mod_cast hx) (by norm_num [second])
      rw [abs_of_nonneg hquotient]
      exact_mod_cast div_second_lt hx
    have herror : |totalSeconds x - x / second| ≤ (2 : ℚ) ^ ((exponent x : ℤ) + 1 - 53) / 2 :=
      Format.abs_round_sub_le_of_lt (f := binary64) (n := exponent x + 1)
        (show (-1074 : ℤ) ≤ exponent x + 1 - (53 : ℕ) by omega) hlt
    rw [show (exponent x + 1 - 53 : ℤ) = exponent x - 52 by ring, half_unit] at herror
    rw [sub_emod_div]
    linarith [(abs_le.mp herror).2]

theorem margin_neg (x : ℤ) : margin (-x) = margin x := by
  rw [margin, exponent, Int.natAbs_neg, ← exponent, ← margin]

theorem margin_lt {x : ℤ} (h : |x| ≤ limit * second) : margin x < second := by
  have hexponent : exponent x ≤ 46 := by
    rcases le_total 0 x with hx | hx
    · exact exponent_le hx (abs_le.mp h).2
    · rw [exponent, ← Int.natAbs_neg]
      exact exponent_le (neg_nonneg.mpr hx) (by linarith [(abs_le.mp h).1])
  have hpow : (2 : ℤ) ^ exponent x ≤ 2 ^ 46 := pow_le_pow_right₀ (by decide) hexponent
  rw [margin, second]
  omega

theorem margin_nonneg (x : ℤ) : 0 ≤ margin x := by
  rw [margin, second]
  positivity

/-- How close before a whole second a reading is counted as having reached it. Before the epoch seconds
are cut upwards, so a reading has, unless it is rounded to the second behind it. -/
def reach (x : ℤ) : ℤ := if 0 ≤ x then margin x else second - 1 - margin x

/-- **What counting seconds amounts to.** -/
theorem wholeSeconds_eq {x : ℤ} (h : |x| ≤ limit * second) :
    wholeSeconds.count x = x / second + if second - x % second ≤ reach x then 1 else 0 := by
  rw [wholeSeconds_of_le h, reach]
  obtain ⟨hstart, hend⟩ := abs_le.mp h
  split_ifs with hx hreach hreach
  · rw [intSeconds_of_nonneg hx hend, if_pos hreach]
  · rw [intSeconds_of_nonneg hx hend, if_neg hreach]
  all_goals
    have hneg := intSeconds_of_nonneg (neg_nonneg.mpr (not_le.mp hx).le) (by linarith : -x ≤ _)
    have hlow := margin_nonneg x
    have hhigh := margin_lt h
    rw [intSeconds_neg, margin_neg] at hneg
    rw [second] at *
    split_ifs at hneg <;> omega

/-- A reading that is counted as having reached a multiple of `d` seconds. -/
def Drawn (d x : ℤ) : Prop := d * second - x % (d * second) ≤ reach x

instance (d x : ℤ) : Decidable (Drawn d x) := inferInstanceAs (Decidable (_ ≤ _))

theorem ahead_wholeSeconds_iff {d x : ℤ} (hd : 0 < d) (h : |x| ≤ limit * second) :
    Ahead wholeSeconds d x ↔ Drawn d x := by
  refine ahead_iff wholeSeconds hd ?_ (wholeSeconds_eq h)
  have hlow := margin_nonneg x
  have hhigh := margin_lt h
  rw [reach]
  split_ifs <;> omega

end Pricestream.Python.TimeDelta
