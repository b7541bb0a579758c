import Pricestream.Python.DateTime
import Pricestream.Python.Numeral
import Mathlib.Tactic.IntervalCases

/-!
# The range of `datetime`

What `fromisoformat` returns lies between the first microsecond of the year 1 and the last of the year
9999 on its own clock. A calendar date is checked field by field and a week date by its ordinal, and
the time of day is less than a day. One lemma for each part of the parser says what it returns.
-/

namespace Pricestream.Python.DateTime

/-! ### Dates -/

theorem isLeap_mod {year : ℕ} (h : isLeap year = true) : year % 4 = 0 := by
  simp only [isLeap, Bool.and_eq_true, beq_iff_eq] at h
  exact h.1

/-- The days of a year up to a date in it. -/
theorem daysBefore_add_le {year month day : ℕ} (hmonth : 1 ≤ month) (hmonth' : month ≤ 12)
    (hday : day ≤ daysInMonth year month) :
    ((List.range (month - 1)).map fun m => daysInMonth year (m + 1)).sum + day ≤
      if isLeap year then 366 else 365 := by
  interval_cases month <;> simp [List.range_succ, daysInMonth] at hday ⊢ <;> split_ifs at hday ⊢ <;> omega

/-- The days before a year whose number is at most 9999. -/
theorem daysBeforeYear_le (before : ℤ) (h : before ≤ 9998) :
    before * 365 + before / 4 - before / 100 + before / 400 ≤ 3651694 := by
  rcases h.lt_or_eq with hlt | rfl
  · omega
  · decide

theorem daysBeforeLeapYear_le (before : ℤ) (h : before ≤ 9995) :
    before * 365 + before / 4 - before / 100 + before / 400 + 366 ≤ maxOrdinal := by
  rw [maxOrdinal]
  omega

theorem ordinal_bounds {year month day : ℕ} (hyear : 1 ≤ year) (hyear' : year < 10000)
    (hmonth : 1 ≤ month) (hmonth' : month ≤ 12) (hday : 1 ≤ day)
    (hday' : day ≤ daysInMonth year month) :
    1 ≤ ordinal year month day ∧ ordinal year month day ≤ maxOrdinal := by
  have hdays := daysBefore_add_le hmonth hmonth' hday'
  simp only [ordinal]
  generalize ((List.range (month - 1)).map fun m => daysInMonth year (m + 1)).sum = months at *
  constructor
  · omega
  · by_cases hleap : isLeap year = true
    · have hmod := isLeap_mod hleap
      rw [if_pos hleap] at hdays
      have hbefore := daysBeforeLeapYear_le ((year : ℤ) - 1) (by omega)
      omega
    · rw [if_neg hleap] at hdays
      have hbefore := daysBeforeYear_le ((year : ℤ) - 1) (by omega)
      rw [maxOrdinal]
      omega

example : ordinal 1 1 1 = 1 ∧ ordinal 1970 1 1 = epochOrdinal ∧ ordinal 9999 12 31 = maxOrdinal := by
  decide

theorem civil?_bounds {year month day : ℕ} {n : ℤ} (hyear : year < 10000)
    (h : civil? year month day = some n) : 1 ≤ n ∧ n ≤ maxOrdinal := by
  unfold civil? at h
  split_ifs at h with hdate
  obtain rfl := Option.some.inj h
  obtain ⟨hyear', hmonth, hmonth', hday, hday'⟩ := hdate
  exact ordinal_bounds hyear' hyear hmonth hmonth' hday hday'

theorem isoWeek?_bounds {year week day : ℕ} {n : ℤ} (h : isoWeek? year week day = some n) :
    1 ≤ n ∧ n ≤ maxOrdinal := by
  unfold isoWeek? at h
  obtain ⟨hweek, hn⟩ := Option.ite_none_right_eq_some.mp h
  obtain rfl := Option.some.inj hn
  exact hweek.2.2.2.2.2

/-! ### Reading text -/

variable {s : Str} {pos stop count n : ℕ}

theorem digitsAt_lt (h : digitsAt s pos count = some n) : n < 10 ^ count := by
  unfold digitsAt at h
  obtain ⟨⟨hlength, hdigits⟩, hn⟩ := Option.ite_none_right_eq_some.mp h
  obtain rfl := Option.some.inj hn
  have hlt : ∀ d ∈ (((s.drop pos).take count).map (· - 0x30)).reverse, d < 10 := by
    intro d hd
    obtain ⟨c, hc, rfl⟩ := List.mem_map.mp (List.mem_reverse.mp hd)
    have hdigit := List.all_eq_true.mp hdigits c hc
    simp only [Str.isAsciiDigit, Bool.and_eq_true, decide_eq_true_eq] at hdigit
    omega
  have hbound := Nat.ofDigits_lt_base_pow_length (by decide : 1 < 10) hlt
  rw [List.length_reverse, List.length_map, hlength] at hbound
  rw [Str.ofDigits_eq]
  exact hbound

theorem isoDate?_bounds {day : ℤ} (h : isoDate? s stop = some day) : 1 ≤ day ∧ day ≤ maxOrdinal := by
  unfold isoDate? at h
  obtain ⟨year, hyear, h⟩ := Option.bind_eq_some_iff.mp h
  have hlt : year < 10000 := digitsAt_lt hyear
  simp only at h
  generalize (if charAt s 4 = 0x2d then 5 else 4) = pos at h
  by_cases hweek : charAt s pos = 0x57
  · rw [if_pos hweek] at h
    obtain ⟨week, _, h⟩ := Option.bind_eq_some_iff.mp h
    split_ifs at h
    · exact isoWeek?_bounds h
    · obtain ⟨_, _, h⟩ := Option.bind_eq_some_iff.mp h
      exact isoWeek?_bounds h
    · obtain ⟨_, _, h⟩ := Option.bind_eq_some_iff.mp h
      exact isoWeek?_bounds h
  · rw [if_neg hweek] at h
    obtain ⟨month, _, h⟩ := Option.bind_eq_some_iff.mp h
    split_ifs at h
    · obtain ⟨_, _, h⟩ := Option.bind_eq_some_iff.mp h
      exact civil?_bounds hlt h
    · obtain ⟨_, _, h⟩ := Option.bind_eq_some_iff.mp h
      exact civil?_bounds hlt h

/-- The microseconds of a clock reading are less than a second. -/
theorem fraction?_micros {values : List ℕ} {f : Fields} (h : fraction? s pos stop values = some f) :
    f.micros < 1000000 := by
  unfold fraction? at h
  obtain ⟨micros, hmicros, h⟩ := Option.bind_eq_some_iff.mp h
  obtain rfl := Option.some.inj h
  have hlt := digitsAt_lt hmicros
  have hcount : min 6 (stop - pos) + (6 - min 6 (stop - pos)) = 6 :=
    Nat.add_sub_of_le (Nat.min_le_left _ _)
  calc micros * 10 ^ (6 - min 6 (stop - pos))
      < 10 ^ min 6 (stop - pos) * 10 ^ (6 - min 6 (stop - pos)) :=
        Nat.mul_lt_mul_of_pos_right hlt (Nat.pow_pos (by decide))
    _ = 1000000 := by rw [← Nat.pow_add, hcount]

theorem clock?_micros {left : ℕ} {colons : Option Bool} {values : List ℕ} {f : Fields}
    (h : clock? s stop left colons pos values = some f) : f.micros < 1000000 := by
  induction left generalizing colons pos values with
  | zero => exact fraction?_micros h
  | succ left ih =>
      unfold clock? at h
      obtain ⟨value, _, h⟩ := Option.bind_eq_some_iff.mp h
      simp only at h
      split_ifs at h
      · obtain rfl := Option.some.inj h
        exact Nat.zero_lt_of_lt (by decide : 0 < 1000000)
      · exact ih h
      · exact fraction?_micros h
      · exact ih h

theorem timeOfDay?_lt {f : Fields} {time : ℕ} (hmicros : f.micros < 1000000)
    (h : f.timeOfDay? = some time) : time < 86400000000 := by
  unfold Fields.timeOfDay? at h
  obtain ⟨hclock, htime⟩ := Option.ite_none_right_eq_some.mp h
  obtain rfl := Option.some.inj htime
  rw [Fields.seconds]
  omega

theorem isoTime?_lt {time : ℕ} {zone : Option ℤ} (h : isoTime? s pos = some (time, zone)) :
    time < 86400000000 := by
  unfold isoTime? at h
  simp only at h
  obtain ⟨f, hclock, h⟩ := Option.bind_eq_some_iff.mp h
  have hlt : ∀ t, f.timeOfDay? = some t → t < 86400000000 := fun _ =>
    timeOfDay?_lt (clock?_micros hclock)
  -- a clock reading without a zone, with `Z` behind it, with an offset behind it
  split_ifs at h
  · obtain ⟨t, htime, h⟩ := Option.bind_eq_some_iff.mp h
    obtain ⟨rfl, -⟩ := Prod.mk.inj (Option.some.inj h)
    exact hlt t htime
  · obtain ⟨t, htime, h⟩ := Option.bind_eq_some_iff.mp h
    obtain ⟨rfl, -⟩ := Prod.mk.inj (Option.some.inj h)
    exact hlt t htime
  · obtain ⟨shift, _, h⟩ := Option.bind_eq_some_iff.mp h
    split_ifs at h
    obtain ⟨t, htime, h⟩ := Option.bind_eq_some_iff.mp h
    obtain ⟨offset, _, h⟩ := Option.bind_eq_some_iff.mp h
    obtain ⟨rfl, -⟩ := Prod.mk.inj (Option.some.inj h)
    exact hlt t htime

theorem inRange_of_bounds {day : ℤ} {time : ℕ} (hday : 1 ≤ day ∧ day ≤ maxOrdinal)
    (htime : time < 86400000000) (zone : Option ℤ) :
    InRange ⟨(day - epochOrdinal) * 86400000000 + time, zone⟩ := by
  obtain ⟨hlow, hhigh⟩ := hday
  rw [InRange]
  constructor <;> dsimp only <;> omega

/-- **What `fromisoformat` returns is in range.** -/
theorem fromisoformat_inRange {ts : DateTime} (h : fromisoformat s = some ts) : ts.InRange := by
  unfold fromisoformat at h
  split_ifs at h
  obtain ⟨bytes, _, h⟩ := Option.bind_eq_some_iff.mp h
  obtain ⟨stop, _, h⟩ := Option.bind_eq_some_iff.mp h
  obtain ⟨day, hday, h⟩ := Option.bind_eq_some_iff.mp h
  split_ifs at h
  · obtain ⟨⟨time, zone⟩, htime, h⟩ := Option.bind_eq_some_iff.mp h
    obtain rfl := Option.some.inj h
    exact inRange_of_bounds (isoDate?_bounds hday) (isoTime?_lt htime) zone
  · obtain rfl := Option.some.inj h
    exact inRange_of_bounds (isoDate?_bounds hday) (by decide) none

end Pricestream.Python.DateTime
