import Mathlib.Data.Int.ConditionallyCompleteOrder
import Mathlib.Order.Monotone.Basic
import Mathlib.Tactic.Linarith
import Mathlib.Tactic.LinearCombination
import Mathlib.Tactic.Ring
import Mathlib.Algebra.Order.Ring.Int

/-!
# Count whole units, then floor to a bucket

A position in small ticks is counted in whole units and the count is floored to a multiple of the
bucket length, the way a timestamp in microseconds is put into a bucket of whole seconds. A `Count` is
any way of counting that is monotone and exact on whole units: cutting a fraction towards zero is one,
and so is rounding before it is cut. The count of a position is the number of units behind it or one
more, and where it is one more and a bucket starts there, the position is `Ahead`: its bucket starts
after it. A position that is not ahead is floored in ticks, as if it had never been counted in units.

What holds for every count is that the map is monotone, that a position lies before the end of its
bucket, that a bucket start lies in its own bucket, and that bucketing by a coarser length factors
through any finer length dividing it. `Early` are the positions that are ahead when fractions are cut.
-/

namespace Pricestream.Library

/-- The largest multiple of `d` not above `s`. -/
def floorTo (d s : ℤ) : ℤ := s / d * d

theorem floorTo_mono {d : ℤ} (hd : 0 < d) : Monotone (floorTo d) := fun _ _ h =>
  mul_le_mul_of_nonneg_right (Int.ediv_le_ediv hd h) hd.le

theorem floorTo_le {d : ℤ} (hd : 0 < d) (s : ℤ) : floorTo d s ≤ s := Int.ediv_mul_le s hd.ne'

theorem lt_floorTo_add {d : ℤ} (hd : 0 < d) (s : ℤ) : s < floorTo d s + d :=
  Int.lt_ediv_add_one_mul_self s hd |>.trans_eq (by rw [floorTo, add_mul, one_mul])

theorem dvd_floorTo (d s : ℤ) : d ∣ floorTo d s := Dvd.intro_left _ rfl

theorem floorTo_floorTo {d e : ℤ} (hd : 0 < d) (hde : d ∣ e) (s : ℤ) :
    floorTo e (floorTo d s) = floorTo e s := by
  obtain ⟨m, rfl⟩ := hde
  rw [floorTo, floorTo, floorTo, ← Int.ediv_ediv_of_nonneg hd.le, ← Int.ediv_ediv_of_nonneg hd.le,
    Int.mul_ediv_cancel _ hd.ne']

theorem floorTo_subset {d e : ℤ} (hd : 0 < d) (he : 0 < e) (hde : d ∣ e) (s : ℤ) :
    floorTo e s ≤ floorTo d s ∧ floorTo d s + d ≤ floorTo e s + e := by
  have hnest := floorTo_floorTo hd hde s
  constructor
  · have hle := floorTo_le he (floorTo d s)
    rwa [hnest] at hle
  · have hlt := lt_floorTo_add he (floorTo d s)
    rw [hnest] at hlt
    obtain ⟨i, hi⟩ := dvd_floorTo d s
    obtain ⟨j, hj⟩ := Int.dvd_add (hde.trans (dvd_floorTo e s)) hde
    rw [hi, hj] at hlt ⊢
    have hij : i < j := lt_of_mul_lt_mul_left hlt hd.le
    calc d * i + d = d * (i + 1) := by ring
      _ ≤ d * j := mul_le_mul_of_nonneg_left hij hd.le

/-- The multiple is found by its two bounds. -/
theorem floorTo_eq_iff {d : ℤ} (hd : 0 < d) (s k : ℤ) :
    floorTo d s = k * d ↔ k * d ≤ s ∧ s < k * d + d := by
  constructor
  · intro h
    rw [← h]
    exact ⟨floorTo_le hd s, lt_floorTo_add hd s⟩
  · rintro ⟨hlow, hhigh⟩
    rw [floorTo]
    congr 1
    rw [Int.ediv_eq_iff_of_pos hd]
    constructor <;> linarith

theorem floorTo_eq_floorTo_iff {d : ℤ} (hd : 0 < d) (s t : ℤ) :
    floorTo d s = floorTo d t ↔
      ∃ k, (k * d ≤ s ∧ s < k * d + d) ∧ k * d ≤ t ∧ t < k * d + d := by
  simp only [← floorTo_eq_iff hd]
  constructor
  · intro h
    exact ⟨s / d, rfl, h.symm⟩
  · rintro ⟨k, hs, ht⟩
    rw [hs, ht]

theorem floorTo_of_dvd {d s : ℤ} (h : d ∣ s) : floorTo d s = s := Int.ediv_mul_cancel h

theorem le_floorTo_iff {d k : ℤ} (hd : 0 < d) (hk : d ∣ k) (s : ℤ) : k ≤ floorTo d s ↔ k ≤ s := by
  constructor
  · exact fun h => h.trans (floorTo_le hd s)
  · intro h
    rw [← floorTo_of_dvd hk]
    exact floorTo_mono hd h

theorem floorTo_mul {d unit : ℤ} (hunit : 0 < unit) (x : ℤ) :
    floorTo (d * unit) x = floorTo d (x / unit) * unit := by
  rw [floorTo, floorTo, mul_comm d unit, ← Int.ediv_ediv_of_nonneg hunit.le]
  ring

/-- Before the next multiple, one more changes nothing; at it, it is the next multiple. -/
theorem floorTo_add_one {d : ℤ} (hd : 0 < d) (s : ℤ) :
    floorTo d (s + 1) = floorTo d s + if d ∣ s + 1 then d else 0 := by
  split_ifs with hdvd
  · obtain ⟨k, hk⟩ := hdvd
    obtain rfl : s = d * k - 1 := by linarith
    have hprev : floorTo d (d * k - 1) = (k - 1) * d :=
      (floorTo_eq_iff hd _ _).mpr ⟨by linarith, by linarith⟩
    rw [hprev, sub_add_cancel, floorTo_of_dvd (Dvd.intro k rfl)]
    ring
  · rw [add_zero]
    have hlow := floorTo_le hd s
    have hhigh := lt_floorTo_add hd s
    refine (floorTo_eq_iff hd _ _).mpr ⟨hlow.trans (by linarith), ?_⟩
    refine lt_of_le_of_ne (Int.add_one_le_iff.mpr hhigh) fun heq => hdvd ?_
    rw [heq]
    exact Int.dvd_add (dvd_floorTo d s) dvd_rfl

/-! ### Counting units -/

/-- A way of counting the whole units of `unit` ticks in a position. -/
structure Count (unit : ℤ) where
  count : ℤ → ℤ
  unit_pos : 0 < unit
  mono : Monotone count
  exact : ∀ n, count (n * unit) = n

namespace Count

/-- Cut what is left of a unit, towards zero. -/
def truncate {unit : ℤ} (h : 0 < unit) : Count unit where
  count x := x.tdiv unit
  unit_pos := h
  mono _ _ hle := Int.tdiv_le_tdiv h hle
  exact n := Int.mul_tdiv_cancel n h.ne'

variable {unit : ℤ} (c : Count unit)

/-- The units behind a position, or one more. -/
theorem count_cases (x : ℤ) :
    c.count x = x / unit ∨ c.count x = x / unit + 1 ∧ x < c.count x * unit := by
  have hlow : x / unit ≤ c.count x := by
    rw [← c.exact (x / unit)]
    exact c.mono (Int.ediv_mul_le x c.unit_pos.ne')
  have hlt : x < (x / unit + 1) * unit := Int.lt_ediv_add_one_mul_self x c.unit_pos
  have hhigh : c.count x ≤ x / unit + 1 := by
    rw [← c.exact (x / unit + 1)]
    exact c.mono hlt.le
  rcases hlow.eq_or_lt with heq | hmore
  · exact Or.inl heq.symm
  · have heq : c.count x = x / unit + 1 := by omega
    exact Or.inr ⟨heq, heq ▸ hlt⟩

end Count

variable {unit : ℤ} (c : Count unit)

/-- The start of the bucket of length `d` units, in ticks. -/
def bucket (d x : ℤ) : ℤ := floorTo d (c.count x) * unit

/-- A position that is counted ahead to where the next bucket starts. -/
def Ahead (d x : ℤ) : Prop := x < c.count x * unit ∧ d ∣ c.count x

instance (d x : ℤ) : Decidable (Ahead c d x) := inferInstanceAs (Decidable (_ ∧ _))

theorem dvd_bucket (d x : ℤ) : d * unit ∣ bucket c d x := mul_dvd_mul_right (dvd_floorTo d _) unit

theorem bucket_mono {d : ℤ} (hd : 0 < d) : Monotone (bucket c d) := fun _ _ h =>
  mul_le_mul_of_nonneg_right (floorTo_mono hd (c.mono h)) c.unit_pos.le

theorem bucket_bucket {d e : ℤ} (hd : 0 < d) (hde : d ∣ e) (x : ℤ) :
    bucket c e (bucket c d x) = bucket c e x := by
  rw [bucket, bucket, c.exact, floorTo_floorTo hd hde, bucket]

theorem bucket_subset {d e : ℤ} (hd : 0 < d) (he : 0 < e) (hde : d ∣ e) (x : ℤ) :
    bucket c e x ≤ bucket c d x ∧ bucket c d x + d * unit ≤ bucket c e x + e * unit := by
  obtain ⟨hstart, hend⟩ := floorTo_subset hd he hde (c.count x)
  refine ⟨mul_le_mul_of_nonneg_right hstart c.unit_pos.le, ?_⟩
  have hscaled := mul_le_mul_of_nonneg_right hend c.unit_pos.le
  rwa [add_mul, add_mul] at hscaled

theorem bucket_eq_iff {d e : ℤ} (hd : 0 < d) (he : 0 < e) (hde : d ∣ e) (x y : ℤ) :
    bucket c e (bucket c d x) = bucket c e y ↔
      bucket c e y ≤ bucket c d x ∧ bucket c d x < bucket c e y + e * unit := by
  constructor
  · intro h
    rw [bucket_bucket c hd hde] at h
    obtain ⟨hstart, hend⟩ := bucket_subset c hd he hde x
    rw [h] at hstart hend
    have hlen : 0 < d * unit := mul_pos hd c.unit_pos
    exact ⟨hstart, by linarith⟩
  · rintro ⟨hstart, hend⟩
    unfold bucket at hstart hend ⊢
    rw [c.exact]
    rw [← add_mul] at hend
    have hstart' := le_of_mul_le_mul_right hstart c.unit_pos
    have hend' := lt_of_mul_lt_mul_right hend c.unit_pos.le
    congr 1
    obtain ⟨k, hk⟩ := dvd_floorTo e (c.count y)
    rw [hk, mul_comm e k] at hstart' hend' ⊢
    exact (floorTo_eq_iff he _ _).mpr ⟨hstart', hend'⟩

/-! ### Where a bucket starts -/

/-- **Where a bucket starts.** -/
theorem bucket_eq {d : ℤ} (hd : 0 < d) (x : ℤ) :
    bucket c d x = floorTo (d * unit) x + if Ahead c d x then d * unit else 0 := by
  rw [floorTo_mul c.unit_pos]
  rcases c.count_cases x with hbehind | ⟨hnext, hlt⟩
  · have hahead : ¬ Ahead c d x := by
      rintro ⟨hlt, _⟩
      rw [hbehind] at hlt
      exact hlt.not_ge (Int.ediv_mul_le x c.unit_pos.ne')
    rw [bucket, hbehind, if_neg hahead, add_zero]
  · rw [bucket, hnext, floorTo_add_one hd, add_mul]
    have hiff : Ahead c d x ↔ d ∣ x / unit + 1 := by
      rw [Ahead, ← hnext]
      exact and_iff_right hlt
    by_cases hdvd : d ∣ x / unit + 1
    · rw [if_pos hdvd, if_pos (hiff.mpr hdvd)]
    · rw [if_neg hdvd, if_neg (mt hiff.mp hdvd), zero_mul]

variable {c} in
theorem bucket_eq_floorTo {d : ℤ} (hd : 0 < d) {x : ℤ} (h : ¬ Ahead c d x) :
    bucket c d x = floorTo (d * unit) x := by
  rw [bucket_eq c hd, if_neg h, add_zero]

theorem lt_bucket_add {d : ℤ} (hd : 0 < d) (x : ℤ) : x < bucket c d x + d * unit := by
  have hlen : 0 < d * unit := mul_pos hd c.unit_pos
  have hlt := lt_floorTo_add hlen x
  rw [bucket_eq c hd]
  split_ifs <;> linarith

/-- **A bucket starts behind every position but those that are ahead.** -/
theorem bucket_le_iff {d : ℤ} (hd : 0 < d) (x : ℤ) : bucket c d x ≤ x ↔ ¬ Ahead c d x := by
  have hlen : 0 < d * unit := mul_pos hd c.unit_pos
  have hle := floorTo_le hlen x
  have hlt := lt_floorTo_add hlen x
  rw [bucket_eq c hd]
  split_ifs with hahead
  · exact iff_of_false (by linarith) (not_not.mpr hahead)
  · exact iff_of_true (by linarith) hahead

/-- Two positions lie at the same place of their buckets exactly if they are a whole number of buckets
apart, unless one alone is ahead. -/
theorem bucket_sub_eq_iff {d : ℤ} (hd : 0 < d) (x y : ℤ) :
    bucket c d x - x = bucket c d y - y ↔ d * unit ∣ x - y ∧ (Ahead c d x ↔ Ahead c d y) := by
  have hlen : 0 < d * unit := mul_pos hd c.unit_pos
  have hplace : ∀ z, floorTo (d * unit) z = z - z % (d * unit) := by
    intro z
    have hz := Int.mul_ediv_add_emod z (d * unit)
    rw [floorTo]
    linarith
  have hx := Int.emod_lt_of_pos x hlen
  have hy := Int.emod_lt_of_pos y hlen
  have hx' := Int.emod_nonneg x hlen.ne'
  have hy' := Int.emod_nonneg y hlen.ne'
  have hmod : d * unit ∣ x - y ↔ x % (d * unit) = y % (d * unit) := by
    rw [Int.emod_eq_emod_iff_emod_sub_eq_zero, Int.dvd_iff_emod_eq_zero]
  rw [bucket_eq c hd, bucket_eq c hd, hplace, hplace, hmod]
  by_cases hax : Ahead c d x <;> by_cases hay : Ahead c d y <;>
    simp only [hax, hay, if_true, if_false, iff_true, iff_false, not_true, and_true, and_false,
      iff_self] <;> omega

/-! ### Which positions are ahead -/

theorem emod_mul_unit {d : ℤ} (hunit : 0 < unit) (x : ℤ) :
    x % (d * unit) = x / unit % d * unit + x % unit := by
  have hunits := Int.mul_ediv_add_emod x unit
  have hbuckets := Int.mul_ediv_add_emod (x / unit) d
  have hplace := Int.mul_ediv_add_emod x (d * unit)
  have hfloor := floorTo_mul (d := d) hunit x
  rw [floorTo, floorTo] at hfloor
  linear_combination hplace - hfloor - unit * hbuckets - hunits

theorem dvd_add_one_iff {d : ℤ} (hd : 0 < d) (s : ℤ) : d ∣ s + 1 ↔ s % d = d - 1 := by
  have hplace := Int.mul_ediv_add_emod s d
  constructor
  · rintro ⟨k, hk⟩
    have hs : s = d - 1 + d * (k - 1) := by linarith
    rw [hs, Int.add_mul_emod_self_left, Int.emod_eq_of_lt (by omega) (by omega)]
  · intro hlast
    exact ⟨s / d + 1, by linarith⟩

/-- A position counted one unit more where the next unit is at most `n` ticks away is ahead exactly if
the next bucket is. -/
theorem ahead_iff {d n x : ℤ} (hd : 0 < d) (hn : n < unit)
    (hcount : c.count x = x / unit + if unit - x % unit ≤ n then 1 else 0) :
    Ahead c d x ↔ d * unit - x % (d * unit) ≤ n := by
  have hunits := Int.mul_ediv_add_emod x unit
  have hrem := Int.emod_lt_of_pos x c.unit_pos
  have hlast := Int.emod_lt_of_pos (x / unit) hd
  have hrest : d * unit - x % (d * unit) = (d - 1 - x / unit % d) * unit + (unit - x % unit) := by
    rw [emod_mul_unit c.unit_pos]
    ring
  have hnonneg : 0 ≤ (d - 1 - x / unit % d) * unit :=
    mul_nonneg (by omega) c.unit_pos.le
  rw [Ahead, hcount, hrest]
  split_ifs with hnear
  · have hnext : x < (x / unit + 1) * unit := by linarith
    rw [and_iff_right hnext, dvd_add_one_iff hd]
    constructor
    · intro heq
      rw [heq, sub_self, zero_mul, zero_add]
      exact hnear
    · intro hle
      by_contra hne
      have hunit : unit ≤ (d - 1 - x / unit % d) * unit :=
        le_mul_of_one_le_left c.unit_pos.le (by omega)
      linarith
  · have hbehind : ¬ x < (x / unit + 0) * unit := by
      have hrem' := Int.emod_nonneg x c.unit_pos.ne'
      linarith
    exact iff_of_false (fun h => hbehind h.1) (by linarith)

/-- A position below zero in the open unit before a bucket starts. -/
def Early (unit d x : ℤ) : Prop := x < 0 ∧ (d - 1) * unit < x % (d * unit)

instance (unit d x : ℤ) : Decidable (Early unit d x) := inferInstanceAs (Decidable (_ ∧ _))

/-- **Which positions are ahead when fractions are cut.** -/
theorem ahead_truncate_iff {d : ℤ} (hd : 0 < d) (hunit : 0 < unit) (x : ℤ) :
    Ahead (.truncate hunit) d x ↔ Early unit d x := by
  have hrem := Int.emod_lt_of_pos x hunit
  have hrem' := Int.emod_nonneg x hunit.ne'
  have hcount : (Count.truncate hunit).count x =
      x / unit + if unit - x % unit ≤ (if 0 ≤ x then 0 else unit - 1) then 1 else 0 := by
    change x.tdiv unit = _
    have hdvd : unit ∣ x ↔ x % unit = 0 := Int.dvd_iff_emod_eq_zero
    rw [Int.tdiv_eq_ediv, Int.sign_eq_one_of_pos hunit]
    split_ifs <;> omega
  have hplace := Int.emod_lt_of_pos x (mul_pos hd hunit)
  rw [ahead_iff _ hd (by split_ifs <;> omega) hcount, Early, sub_mul, one_mul]
  split_ifs <;> omega

end Pricestream.Library
