import Pricestream.KafkaConsumer

/-!
# Which timestamps have buckets

`_bucket_start` floors what a timestamp's own clock reads and makes a date of it. Both ends of the range
of dates are full hours, so the floored reading is a date exactly if the seconds it was floored from
are: a timestamp has a bucket of every interval or of none. A timestamp without buckets is one of the
last 15 microseconds of the year 9999, whose seconds are rounded up to the year that follows.
-/

namespace Pricestream

open Library Python
open TimeDelta (second second_pos intSeconds limit wholeSeconds wholeSeconds_of_le)

theorem Interval.seconds_pos (interval : Interval) : 0 < interval.seconds := by
  cases interval <;> decide

/-- The length of an interval in microseconds. -/
def Interval.length (interval : Interval) : ℤ := interval.seconds * second

/-- The first second on the clock of a `datetime`, and the first one behind it. -/
def minSecond : ℤ := (1 - DateTime.epochOrdinal) * 86400
def endSecond : ℤ := (DateTime.maxOrdinal + 1 - DateTime.epochOrdinal) * 86400

/-- The seconds counted on a timestamp's own clock belong to a date. -/
def HasBuckets (seconds : Count second) (ts : DateTime) : Prop :=
  minSecond ≤ seconds.count ts.wall ∧ seconds.count ts.wall < endSecond

instance (seconds : Count second) (ts : DateTime) : Decidable (HasBuckets seconds ts) :=
  inferInstanceAs (Decidable (_ ∧ _))

variable {seconds : Count second} {ts : DateTime}

theorem flooredStart_instant (seconds : Count second) (ts : DateTime) (interval : Interval) :
    (flooredStart seconds ts interval).instant =
      bucket seconds interval.seconds ts.wall - ts.utcoffset.getD 0 := rfl

theorem flooredStart_flooredStart {fine coarse : Interval} (hdvd : fine.seconds ∣ coarse.seconds)
    (seconds : Count second) (ts : DateTime) :
    flooredStart seconds (flooredStart seconds ts fine) coarse = flooredStart seconds ts coarse := by
  simp only [flooredStart, bucket_bucket seconds fine.seconds_pos hdvd]

theorem minSecond_dvd (interval : Interval) : interval.seconds ∣ minSecond := by
  cases interval <;> decide

theorem endSecond_dvd (interval : Interval) : interval.seconds ∣ endSecond := by
  cases interval <;> decide

theorem hasBuckets_flooredStart_iff (interval : Interval) :
    HasBuckets seconds (flooredStart seconds ts interval) ↔ HasBuckets seconds ts := by
  simp only [HasBuckets, flooredStart, bucket, seconds.exact]
  rw [le_floorTo_iff interval.seconds_pos (minSecond_dvd interval), ← not_le,
    le_floorTo_iff interval.seconds_pos (endSecond_dvd interval), not_le]

/-- A floored reading is a date exactly if the seconds it was floored from are. -/
theorem inRange_flooredStart_iff (interval : Interval) :
    (flooredStart seconds ts interval).InRange ↔ HasBuckets seconds ts := by
  have hlow : (1 - DateTime.epochOrdinal) * 86400000000 = minSecond * second := by decide
  have hhigh : (DateTime.maxOrdinal + 1 - DateTime.epochOrdinal) * 86400000000 = endSecond * second := by
    decide
  rw [← hasBuckets_flooredStart_iff interval, DateTime.InRange, hlow, hhigh, HasBuckets, flooredStart,
    bucket, seconds.exact, mul_le_mul_iff_left₀ second_pos, mul_lt_mul_iff_left₀ second_pos]

/-- **What `_bucket_start` returns.** -/
theorem bucketStartBy_eq (seconds : Count second) (ts : DateTime) (interval : Interval) :
    bucketStartBy seconds ts interval =
      if HasBuckets seconds ts then .ok (flooredStart seconds ts interval) else .error .overflowError := by
  rw [bucketStartBy]
  by_cases h : HasBuckets seconds ts
  · rw [if_pos h]
    exact if_pos ((inRange_flooredStart_iff interval).mpr h)
  · rw [if_neg h]
    exact if_neg (mt (inRange_flooredStart_iff interval).mp h)

theorem bucketStart_of_hasBuckets (h : HasBuckets wholeSeconds ts) (interval : Interval) :
    bucketStart ts interval = .ok (flooredStart wholeSeconds ts interval) := by
  rw [bucketStart, bucketStartBy_eq, if_pos h]

theorem bucketStart_of_not_hasBuckets (h : ¬ HasBuckets wholeSeconds ts) (interval : Interval) :
    bucketStart ts interval = .error .overflowError := by
  rw [bucketStart, bucketStartBy_eq, if_neg h]

theorem bucketStart_bucketStart {fine coarse : Interval} (hdvd : fine.seconds ∣ coarse.seconds)
    (seconds : Count second) (ts : DateTime) :
    (bucketStartBy seconds ts fine).bind (bucketStartBy seconds · coarse) =
      bucketStartBy seconds ts coarse := by
  rw [bucketStartBy_eq, bucketStartBy_eq seconds ts coarse]
  split_ifs with h
  · rw [← hasBuckets_flooredStart_iff fine] at h
    rw [Except.bind, bucketStartBy_eq, if_pos h, flooredStart_flooredStart hdvd]
  · rfl

/-- 9999-12-31T23:59:59.999985 on a timestamp's own clock. -/
def bucketsEnd : ℤ := 253402300799999985

/-- **Which timestamps have buckets.** All but those of the last 15 microseconds of the year 9999. -/
theorem hasBuckets_iff (h : ts.InRange) : HasBuckets wholeSeconds ts ↔ ts.wall < bucketsEnd := by
  obtain ⟨hmin, hend⟩ := h
  have hfirst : wholeSeconds.count (minSecond * second) = minSecond := wholeSeconds.exact _
  have hbefore : wholeSeconds.count (bucketsEnd - 1) < endSecond := by decide +kernel
  have hbehind : endSecond ≤ wholeSeconds.count bucketsEnd := by decide +kernel
  constructor
  · rintro ⟨_, hlt⟩
    by_contra hlate
    exact hlt.not_ge (hbehind.trans (wholeSeconds.mono (not_lt.mp hlate)))
  · intro hlt
    refine ⟨?_, (wholeSeconds.mono (Int.le_sub_one_of_lt hlt)).trans_lt hbefore⟩
    rw [← hfirst]
    exact wholeSeconds.mono hmin

end Pricestream
