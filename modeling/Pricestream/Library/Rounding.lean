import Mathlib.Data.Int.ConditionallyCompleteOrder
import Mathlib.Algebra.Order.Archimedean.Basic
import Mathlib.Algebra.Order.Round
import Mathlib.Data.Rat.Floor
import Mathlib.Tactic.Linarith
import Mathlib.Tactic.Positivity
import Mathlib.Tactic.FieldSimp

/-!
# Rounding to decimal places and fixed-point columns

A database column of scale `places` does not store the number it is handed but a multiple of
`10 ^ -places` near it. Which one depends on the engine (PostgreSQL rounds ties away from zero,
SQLite under Django to even), and nothing here depends on that: a `Rounding` is any monotone map onto
the grid that leaves the grid alone. Idempotence, and the fact that a maximum or a minimum may be
taken before or after rounding, follow.

A `NumericColumn` adds the magnitude bound of `numeric(digits, places)`, and a `Cell` is a value such
a column can hold, so a stored number carries the proof that it is on the grid and in range.
-/

namespace Pricestream.Library

/-- A rounding to `places` decimal places: a monotone retraction onto the multiples of `10 ^ -places`. -/
structure Rounding (places : ℕ) where
  round : ℚ → ℚ
  mono : Monotone round
  grid : ∀ x, ∃ k : ℤ, round x = k / 10 ^ places
  fixes : ∀ k : ℤ, round (k / 10 ^ places) = k / 10 ^ places

namespace Rounding

variable {places : ℕ} (r : Rounding places)

@[simp] theorem round_round (x : ℚ) : r.round (r.round x) = r.round x := by
  obtain ⟨k, hk⟩ := r.grid x
  rw [hk, r.fixes]

/-- A number is left alone exactly if it is on the grid. -/
theorem round_eq_self_iff {x : ℚ} : r.round x = x ↔ ∃ k : ℤ, x = k / 10 ^ places := by
  constructor
  · intro h
    rw [← h]
    exact r.grid x
  · intro ⟨k, hk⟩
    rw [hk, r.fixes]

@[simp] theorem round_intCast (n : ℤ) : r.round n = n := by
  have h := r.fixes (n * 10 ^ places)
  have hpow : (10 : ℚ) ^ places ≠ 0 := by positivity
  push_cast at h
  rwa [mul_div_cancel_right₀ _ hpow] at h

@[simp] theorem round_zero : r.round 0 = 0 := by
  simpa using r.round_intCast 0

theorem round_nonneg {x : ℚ} (hx : 0 ≤ x) : 0 ≤ r.round x := by
  simpa using r.mono hx

theorem round_max (x y : ℚ) : r.round (max x y) = max (r.round x) (r.round y) :=
  r.mono.map_max

theorem round_min (x y : ℚ) : r.round (min x y) = min (r.round x) (r.round y) :=
  r.mono.map_min

theorem round_max_round (x y : ℚ) : r.round (max (r.round x) y) = r.round (max x y) := by
  simp only [round_max, round_round]

theorem round_min_round (x y : ℚ) : r.round (min (r.round x) y) = r.round (min x y) := by
  simp only [round_min, round_round]

/-- Scale to whole units, round to an integer, scale back. -/
def ofInteger (nearest : ℚ → ℤ) (hmono : Monotone nearest) (hint : ∀ k : ℤ, nearest k = k)
    (places : ℕ) : Rounding places where
  round x := nearest (x * 10 ^ places) / 10 ^ places
  mono x y hxy := by
    have hpow : (0 : ℚ) < 10 ^ places := by positivity
    have hscaled : x * 10 ^ places ≤ y * 10 ^ places := mul_le_mul_of_nonneg_right hxy hpow.le
    have hround : (nearest (x * 10 ^ places) : ℚ) ≤ nearest (y * 10 ^ places) := by
      exact_mod_cast hmono hscaled
    exact div_le_div_of_nonneg_right hround hpow.le
  grid x := ⟨_, rfl⟩
  fixes k := by
    have hpow : (10 : ℚ) ^ places ≠ 0 := by positivity
    rw [div_mul_cancel₀ _ hpow, hint]

/-- No number is moved by more than half a unit of the last place. -/
def IsNearest (r : Rounding places) : Prop := ∀ x, |r.round x - x| ≤ 1 / (2 * 10 ^ places)

theorem isNearest_ofInteger {nearest : ℚ → ℤ} {hmono : Monotone nearest}
    {hint : ∀ k : ℤ, nearest k = k} (h : ∀ x, |(nearest x : ℚ) - x| ≤ 1 / 2) :
    (ofInteger nearest hmono hint places).IsNearest := by
  intro x
  have hpow : (0 : ℚ) < 10 ^ places := by positivity
  have hscaled : (nearest (x * 10 ^ places) : ℚ) / 10 ^ places - x =
      ((nearest (x * 10 ^ places) : ℚ) - x * 10 ^ places) / 10 ^ places := by
    rw [sub_div, mul_div_cancel_right₀ _ hpow.ne']
  change |(nearest (x * 10 ^ places) : ℚ) / 10 ^ places - x| ≤ _
  rw [hscaled, abs_div, abs_of_pos hpow, ← div_div]
  exact div_le_div_of_nonneg_right (h _) hpow.le

/-- A difference rounded and the difference of the rounded numbers are at most one unit apart. -/
theorem IsNearest.sub_le {r : Rounding places} (h : r.IsNearest) {a b s : ℚ}
    (hs : |s - (b - a)| < 1 / (2 * 10 ^ places)) :
    |r.round s - (r.round b - r.round a)| ≤ 1 / 10 ^ places := by
  have hpow : (0 : ℚ) < 10 ^ places := by positivity
  have hunit : (2 : ℚ) / 10 ^ places = 4 * (1 / (2 * 10 ^ places)) := by
    field_simp
    norm_num
  have hlt : |r.round s - (r.round b - r.round a)| < 2 / 10 ^ places := by
    have hrs := abs_le.mp (h s)
    have hrb := abs_le.mp (h b)
    have hra := abs_le.mp (h a)
    have hdiff := abs_lt.mp hs
    rw [hunit, abs_lt]
    constructor <;> linarith
  obtain ⟨i, hi⟩ := r.grid s
  obtain ⟨j, hj⟩ := r.grid b
  obtain ⟨k, hk⟩ := r.grid a
  have hcount : r.round s - (r.round b - r.round a) = ((i - (j - k) : ℤ) : ℚ) / 10 ^ places := by
    rw [hi, hj, hk]
    push_cast
    ring
  rw [hcount, abs_div, abs_of_pos hpow] at hlt ⊢
  have hbelow : |i - (j - k)| < 2 := by
    have hcast := (div_lt_div_iff_of_pos_right hpow).mp hlt
    exact_mod_cast hcast
  apply div_le_div_of_nonneg_right _ hpow.le
  have hle : |i - (j - k)| ≤ 1 := by omega
  exact_mod_cast hle

end Rounding

/-! ### Ties away from zero -/

/-- The nearest integer, ties away from zero. -/
def halfAway (x : ℚ) : ℤ := if 0 ≤ x then ⌊x + 1 / 2⌋ else ⌈x - 1 / 2⌉

theorem halfAway_mono : Monotone halfAway := by
  intro x y hxy
  unfold halfAway
  split_ifs with hx hy hy
  · exact Int.floor_le_floor (by linarith)
  · exact absurd (hx.trans hxy) hy
  · have hleft : ⌈x - 1 / 2⌉ ≤ 0 := Int.ceil_le.mpr (by push_cast; linarith)
    have hright : 0 ≤ ⌊y + 1 / 2⌋ := Int.floor_nonneg.mpr (by linarith)
    exact hleft.trans hright
  · exact Int.ceil_le_ceil (by linarith)

theorem halfAway_intCast (k : ℤ) : halfAway k = k := by
  unfold halfAway
  split_ifs with hk
  · rw [Int.floor_eq_iff]
    constructor <;> linarith
  · rw [Int.ceil_eq_iff]
    constructor <;> linarith

/-- PostgreSQL's `numeric` rounding: the nearest multiple of `10 ^ -places`, ties away from zero. -/
def Rounding.halfAway (places : ℕ) : Rounding places where
  round x := Library.halfAway (x * 10 ^ places) / 10 ^ places
  mono x y hxy := by
    have hpow : (0 : ℚ) < 10 ^ places := by positivity
    have hscaled : x * 10 ^ places ≤ y * 10 ^ places := mul_le_mul_of_nonneg_right hxy hpow.le
    have hround : (Library.halfAway (x * 10 ^ places) : ℚ) ≤ Library.halfAway (y * 10 ^ places) := by
      exact_mod_cast halfAway_mono hscaled
    exact div_le_div_of_nonneg_right hround hpow.le
  grid x := ⟨_, rfl⟩
  fixes k := by
    have hpow : (10 : ℚ) ^ places ≠ 0 := by positivity
    rw [div_mul_cancel₀ _ hpow, halfAway_intCast]

theorem abs_halfAway_sub_le (x : ℚ) : |(halfAway x : ℚ) - x| ≤ 1 / 2 := by
  unfold halfAway
  rw [abs_le]
  split_ifs with hx
  · have hlow := Int.lt_floor_add_one (x + 1 / 2)
    have hhigh := Int.floor_le (x + 1 / 2)
    constructor <;> linarith
  · have hlow := Int.le_ceil (x - 1 / 2)
    have hhigh := Int.ceil_lt_add_one (x - 1 / 2)
    constructor <;> linarith

theorem isNearest_halfAway (places : ℕ) : (Rounding.halfAway places).IsNearest := by
  change (Rounding.ofInteger Library.halfAway halfAway_mono halfAway_intCast places).IsNearest
  exact Rounding.isNearest_ofInteger abs_halfAway_sub_le

/-! ### Fixed-point columns -/

structure NumericColumn where
  digits : ℕ
  places : ℕ
  rounding : Rounding places

namespace NumericColumn

variable (col : NumericColumn)

/-- What the column does to a number before it checks the range. -/
def round (x : ℚ) : ℚ := col.rounding.round x

def limit : ℚ := 10 ^ (col.digits - col.places)

/-- A value the column can hold. -/
structure Cell where
  value : ℚ
  rounded : col.round value = value
  inRange : |value| < col.limit
  deriving DecidableEq

/-- The numbers the column accepts. -/
def Fits (x : ℚ) : Prop := |col.round x| < col.limit

instance (x : ℚ) : Decidable (col.Fits x) := inferInstanceAs (Decidable (|col.round x| < col.limit))

def put (x : ℚ) (h : col.Fits x) : col.Cell := ⟨col.round x, col.rounding.round_round x, h⟩

@[simp] theorem put_value (x : ℚ) (h : col.Fits x) : (col.put x h).value = col.round x := rfl

/-- Write a number: round it, then refuse it if it is out of range. -/
def store (x : ℚ) : Option col.Cell := if h : col.Fits x then some (col.put x h) else none

theorem store_of_fits {x : ℚ} (h : col.Fits x) : col.store x = some (col.put x h) := dif_pos h

theorem store_eq_none_iff {x : ℚ} : col.store x = none ↔ ¬ col.Fits x := by
  unfold store
  split_ifs with h <;> simp [h]

theorem store_value {x : ℚ} {cell : col.Cell} (h : col.store x = some cell) :
    cell.value = col.round x := by
  unfold store at h
  split_ifs at h with hfits
  exact (Option.some.inj h) ▸ rfl

theorem limit_pos : 0 < col.limit := by
  unfold limit
  positivity

@[simp] theorem round_round (x : ℚ) : col.round (col.round x) = col.round x :=
  col.rounding.round_round x

/-- What a column accepts is an interval: a number between two accepted ones is accepted. -/
theorem fits_of_between {low x high : ℚ} (hlow : col.Fits low) (hhigh : col.Fits high)
    (hlx : low ≤ x) (hxh : x ≤ high) : col.Fits x := by
  have hleft := col.rounding.mono hlx
  have hright := col.rounding.mono hxh
  unfold Fits round at *
  rw [abs_lt] at *
  exact ⟨hlow.1.trans_le hleft, hright.trans_lt hhigh.2⟩

/-- The column holds the number as it is. -/
def Holds (x : ℚ) : Prop := col.round x = x ∧ |x| < col.limit

instance (x : ℚ) : Decidable (col.Holds x) := inferInstanceAs (Decidable (_ ∧ _))

theorem Holds.fits {x : ℚ} (h : col.Holds x) : col.Fits x := by
  unfold Fits
  rw [h.1]
  exact h.2

theorem fits_max {x y : ℚ} (hx : col.Fits x) (hy : col.Fits y) : col.Fits (max x y) := by
  rcases max_choice x y with h | h <;> rw [h] <;> assumption

theorem fits_min {x y : ℚ} (hx : col.Fits x) (hy : col.Fits y) : col.Fits (min x y) := by
  rcases min_choice x y with h | h <;> rw [h] <;> assumption

theorem Cell.fits (cell : col.Cell) : col.Fits cell.value := by
  unfold Fits
  rw [cell.rounded]
  exact cell.inRange

@[ext] theorem Cell.ext {a b : col.Cell} (h : a.value = b.value) : a = b := by
  cases a
  cases b
  simpa using h

def zero : col.Cell where
  value := 0
  rounded := col.rounding.round_zero
  inRange := by simpa using col.limit_pos

theorem fits_zero : col.Fits 0 := col.zero.fits

end NumericColumn

end Pricestream.Library
