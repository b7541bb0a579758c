import Pricestream.Proof.Ohlc.Offsets
import Pricestream.Python.DateRange

/-!
# Timestamps and the boundaries of their buckets

A bucket is meant to hold the timestamps from its start up to the next one. It does from 1970 on, and
before 1970 except in the open last second before each boundary: `int()` cuts the seconds towards zero,
which there is upwards, before they are floored, and the timestamp goes into the bucket that starts
behind it. Nothing else is lost by the cut: a bucket start is a whole number of buckets from the epoch,
it lies in its own bucket, and later timestamps never have earlier buckets.
-/

namespace Pricestream

open Library Python
open DateTime (Instant)
open TimeDelta (second second_pos)

/-! ### What a bucket is -/

/-- `_bucket_start`, with `total_seconds()` taken as exact. -/
def exactBucketStart (ts : DateTime) (interval : Interval) : Except Exc DateTime :=
  bucketStartBy (.truncate second_pos) ts interval

/-- A timestamp falls inside the bucket that starts at `start`. -/
structure InBucket (interval : Interval) (ts start : DateTime) : Prop where
  returned : exactBucketStart ts interval = .ok start
  start_le : start.instant ≤ ts.instant
  lt_stop : ts.instant < start.instant + interval.length
  aligned : interval.length ∣ start.instant
  idempotent : exactBucketStart start interval = .ok start

/-- Two timestamps lie between the same two multiples of the length of an interval. -/
def SameRange (interval : Interval) (ts ts' : DateTime) : Prop :=
  ∃ k : ℤ, (k * interval.length ≤ ts.instant ∧ ts.instant < k * interval.length + interval.length) ∧
    k * interval.length ≤ ts'.instant ∧ ts'.instant < k * interval.length + interval.length

/-- The buckets of two timestamps are the ranges they lie in. -/
def BucketsFit (interval : Interval) (ts ts' : DateTime) : Prop :=
  ∃ start start', InBucket interval ts start ∧ InBucket interval ts' start' ∧
    (ts.instant ≤ ts'.instant → start.instant ≤ start'.instant) ∧
    (start.instant = start'.instant ↔ SameRange interval ts ts')

variable {interval : Interval} {ts ts' start start' : DateTime}

/-! ### Every timestamp has a bucket -/

/-- Counted exactly, the seconds of a date belong to a date. -/
theorem hasBuckets_truncate (h : ts.InRange) : HasBuckets (.truncate second_pos) ts := by
  obtain ⟨hlow, hhigh⟩ := h
  have hfirst : (Count.truncate second_pos).count (minSecond * second) = minSecond :=
    (Count.truncate second_pos).exact _
  have hlast : (Count.truncate second_pos).count (endSecond * second - 1) < endSecond := by decide
  refine ⟨?_, ((Count.truncate second_pos).mono (Int.le_sub_one_of_lt hhigh)).trans_lt hlast⟩
  rw [← hfirst]
  exact (Count.truncate second_pos).mono hlow

theorem exactBucketStart_eq (h : ts.InRange) (interval : Interval) :
    exactBucketStart ts interval = .ok (flooredStart (.truncate second_pos) ts interval) := by
  rw [exactBucketStart, bucketStartBy_eq, if_pos (hasBuckets_truncate h)]

/-! ### Where timestamps fall -/

theorem Interval.length_pos (interval : Interval) : 0 < interval.length :=
  mul_pos interval.seconds_pos second_pos

theorem instant_of_exactBucketStart (hutc : ts.IsUtc) (hrange : ts.InRange)
    (hstart : exactBucketStart ts interval = .ok start) :
    start.instant = bucket (.truncate second_pos) interval.seconds ts.instant := by
  rw [exactBucketStart_eq hrange] at hstart
  rw [← Except.ok.inj hstart, flooredStart_instant, DateTime.instant_of_isUtc hutc, hutc, Int.sub_zero]

theorem exists_inBucket_iff (hutc : ts.IsUtc) (hrange : ts.InRange) :
    (∃ start, InBucket interval ts start) ↔ ¬ Early second interval.seconds ts.instant := by
  rw [← ahead_truncate_iff interval.seconds_pos second_pos]
  constructor
  · rintro ⟨start, hin⟩
    have hle := hin.start_le
    rw [instant_of_exactBucketStart hutc hrange hin.returned] at hle
    exact (bucket_le_iff _ interval.seconds_pos _).mp hle
  · intro hbehind
    have hstart := exactBucketStart_eq hrange interval
    have hinstant := instant_of_exactBucketStart hutc hrange hstart
    refine ⟨_, hstart, ?_, ?_, ?_, ?_⟩
    · rw [hinstant]
      exact (bucket_le_iff _ interval.seconds_pos _).mpr hbehind
    · rw [hinstant]
      exact lt_bucket_add _ interval.seconds_pos _
    · rw [hinstant]
      exact dvd_bucket _ interval.seconds _
    · have hagain := bucketStart_bucketStart (dvd_refl interval.seconds) (.truncate second_pos) ts
      rw [← exactBucketStart, hstart] at hagain
      exact hagain

theorem shared_iff (hutc : ts.IsUtc) (hutc' : ts'.IsUtc) (hrange : ts.InRange) (hrange' : ts'.InRange)
    (hin : InBucket interval ts start) (hin' : InBucket interval ts' start') :
    start.instant = start'.instant ↔ SameRange interval ts ts' := by
  have hstart := instant_of_exactBucketStart hutc hrange hin.returned
  have hstart' := instant_of_exactBucketStart hutc' hrange' hin'.returned
  have hle := hstart ▸ hin.start_le
  have hle' := hstart' ▸ hin'.start_le
  rw [bucket_le_iff _ interval.seconds_pos] at hle hle'
  rw [hstart, hstart', bucket_eq_floorTo interval.seconds_pos hle,
    bucket_eq_floorTo interval.seconds_pos hle']
  exact floorTo_eq_floorTo_iff interval.length_pos _ _

/-- **When timestamps fall inside their buckets.** -/
theorem buckets_fit_iff (interval : Interval) (hutc : ts.IsUtc) (hutc' : ts'.IsUtc)
    (hrange : ts.InRange) (hrange' : ts'.InRange) :
    BucketsFit interval ts ts' ↔ ¬ Early second interval.seconds ts.instant ∧
      ¬ Early second interval.seconds ts'.instant := by
  rw [← exists_inBucket_iff hutc hrange, ← exists_inBucket_iff hutc' hrange']
  constructor
  · rintro ⟨start, start', hin, hin', _⟩
    exact ⟨⟨start, hin⟩, start', hin'⟩
  · rintro ⟨⟨start, hin⟩, start', hin'⟩
    refine ⟨start, start', hin, hin', fun hle => ?_, shared_iff hutc hutc' hrange hrange' hin hin'⟩
    rw [instant_of_exactBucketStart hutc hrange hin.returned,
      instant_of_exactBucketStart hutc' hrange' hin'.returned]
    exact bucket_mono _ interval.seconds_pos hle

/-- Two timestamps of the last minute before 1970, one of them with a fraction of a second. -/
theorem last_minute_fits : BucketsFit .m1 ⟨-60000000, some 0⟩ ⟨-1500000, some 0⟩ := by
  have hrange : (⟨-60000000, some 0⟩ : DateTime).InRange :=
    DateTime.fromisoformat_inRange (s := Str.ofString "1969-12-31T23:59:00+00:00") (by decide)
  have hrange' : (⟨-1500000, some 0⟩ : DateTime).InRange :=
    DateTime.fromisoformat_inRange (s := Str.ofString "1969-12-31T23:59:58.500000+00:00") (by decide)
  apply (buckets_fit_iff .m1 (by decide) (by decide) hrange hrange').mpr
  decide

/-! ### The last second before 1970 -/

/-- Half a second before 1970 is put into the first minute of 1970. -/
theorem last_half_second_misses :
    DateTime.fromisoformat (Str.ofString "1969-12-31T23:59:59.500000+00:00") = some ⟨-500000, some 0⟩ ∧
    exactBucketStart ⟨-500000, some 0⟩ .m1 = .ok ⟨0, some 0⟩ ∧
    ¬ BucketsFit .m1 ⟨-500000, some 0⟩ ⟨-500000, some 0⟩ := by
  have hstart : exactBucketStart ⟨-500000, some 0⟩ .m1 = .ok ⟨0, some 0⟩ := by rfl
  refine ⟨by decide, hstart, ?_⟩
  rintro ⟨start, _, hin, _⟩
  have hle := hin.start_le
  rw [← Except.ok.inj (hstart.symm.trans hin.returned)] at hle
  exact absurd hle (by decide)

end Pricestream
