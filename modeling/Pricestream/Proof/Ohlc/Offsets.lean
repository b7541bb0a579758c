import Pricestream.Proof.Ohlc.Rollup

/-!
# Buckets and the producer's clock

A bucket is found on the clock of the timestamp: the epoch it is counted from is midnight on that
clock, not in UTC. So two timestamps of one instant share a bucket only when their clocks are a whole
number of buckets apart, and an offset of half an hour puts a tick into an hour bar of its own that
overlaps the one everybody else writes.

Two more differences come from how seconds are counted, and tell two clocks apart by what they read.
Seconds are cut towards zero, so in the last second before a bucket starts a reading before 1970 is put
into the next bucket and a later one is not. And they are counted in floating point, which centuries
from 1970 draws the last microseconds before a bucket into it, one in the year 2514 and 15 in 9999.
-/

namespace Pricestream

open Library Python
open DateTime (Instant)
open TimeDelta (second limit wholeSeconds Drawn ahead_wholeSeconds_iff)

variable {db : Engine} {env : Env}

/-- `_bucket_start` returns for both, and the same instant. -/
def SharesBucket (interval : Interval) (ts ts' : DateTime) : Prop :=
  ∃ start start', bucketStart ts interval = .ok start ∧ bucketStart ts' interval = .ok start' ∧
    start.instant = start'.instant

/-- Two clocks are a whole number of buckets apart, both or neither are drawn into the next bucket, and
neither reads one of the last 15 microseconds of the year 9999. -/
structure Aligned (interval : Interval) (ts ts' : DateTime) : Prop where
  offsets : interval.length ∣ ts.utcoffset.getD 0 - ts'.utcoffset.getD 0
  drawn : Drawn interval.seconds ts.wall ↔ Drawn interval.seconds ts'.wall
  dated : ts.wall < bucketsEnd ∧ ts'.wall < bucketsEnd

theorem aligned_iff {interval : Interval} {ts ts' : DateTime} :
    Aligned interval ts ts' ↔ (interval.length ∣ ts.utcoffset.getD 0 - ts'.utcoffset.getD 0 ∧
      (Drawn interval.seconds ts.wall ↔ Drawn interval.seconds ts'.wall)) ∧
      ts.wall < bucketsEnd ∧ ts'.wall < bucketsEnd :=
  ⟨fun h => ⟨⟨h.offsets, h.drawn⟩, h.dated⟩, fun h => ⟨h.1.1, h.1.2, h.2⟩⟩

instance (interval : Interval) (ts ts' : DateTime) : Decidable (Aligned interval ts ts') :=
  decidable_of_iff' _ aligned_iff

/-- Whether an event changes the bar of a key. -/
def Updates (env : Env) (e : Event) (bars : BarTable db) (key : BarKey) : Prop :=
  (handleEvent env e.now e.payload bars).1.get? key ≠ bars.get? key

/-- Whether two bars of one instrument and interval share a moment. -/
structure BarKey.Overlaps (key other : BarKey) : Prop where
  instrument : key.instrument = other.instrument
  interval : key.interval = other.interval
  start : key.bucketStart < other.bucketEnd
  stop : other.bucketStart < key.bucketEnd

/-! ### Bucket starts -/

theorem sharesBucket_iff {ts ts' : DateTime} {interval : Interval} :
    SharesBucket interval ts ts' ↔
      (flooredStart wholeSeconds ts interval).instant = (flooredStart wholeSeconds ts' interval).instant ∧
        HasBuckets wholeSeconds ts ∧ HasBuckets wholeSeconds ts' := by
  simp only [SharesBucket, bucketStart, bucketStartBy_eq]
  split_ifs with h h' h' <;> simp [h, h']

theorem abs_wall_le {ts : DateTime} (h : ts.InRange) : |ts.wall| ≤ limit * second := by
  obtain ⟨hlow, hhigh⟩ := h
  have hmin : -(limit * second) ≤ (1 - DateTime.epochOrdinal) * 86400000000 := by decide
  have hmax : (DateTime.maxOrdinal + 1 - DateTime.epochOrdinal) * 86400000000 ≤ limit * second := by
    decide
  exact abs_le.mpr ⟨by linarith, by linarith⟩

theorem flooredStart_eq_iff {ts ts' : DateTime} (hts : ts.InRange) (hts' : ts'.InRange)
    (h : ts.instant = ts'.instant) (interval : Interval) :
    (flooredStart wholeSeconds ts interval).instant = (flooredStart wholeSeconds ts' interval).instant ↔
      interval.length ∣ ts.utcoffset.getD 0 - ts'.utcoffset.getD 0 ∧
        (Drawn interval.seconds ts.wall ↔ Drawn interval.seconds ts'.wall) := by
  have hwall : ts.wall - ts'.wall = ts.utcoffset.getD 0 - ts'.utcoffset.getD 0 := by
    rw [DateTime.instant, DateTime.instant] at h
    linarith
  have hplace := bucket_sub_eq_iff wholeSeconds interval.seconds_pos ts.wall ts'.wall
  rw [hwall, ahead_wholeSeconds_iff interval.seconds_pos (abs_wall_le hts),
    ahead_wholeSeconds_iff interval.seconds_pos (abs_wall_le hts')] at hplace
  rw [Interval.length, ← hplace, flooredStart_instant, flooredStart_instant]
  constructor <;> intro heq <;> linarith

theorem sharesBucket_iff_aligned {ts ts' : DateTime} (hts : ts.InRange) (hts' : ts'.InRange)
    (h : ts.instant = ts'.instant) (interval : Interval) :
    SharesBucket interval ts ts' ↔ Aligned interval ts ts' := by
  rw [sharesBucket_iff, aligned_iff, flooredStart_eq_iff hts hts' h, hasBuckets_iff hts,
    hasBuckets_iff hts']

theorem length_dvd_flooredStart (ts : DateTime) (interval : Interval) :
    interval.length ∣ (flooredStart wholeSeconds ts interval).instant + ts.utcoffset.getD 0 := by
  rw [flooredStart_instant, Int.sub_add_cancel]
  exact dvd_bucket wholeSeconds interval.seconds ts.wall

/-! ### What an event updates -/

theorem get?_applyTick (bars : BarTable db) (t : Tick db) (key : BarKey) :
    (applyTick bars t).get? key =
      if t.key key.interval = key then some (rebuildBar (bars.get? key) (t, key.interval))
      else bars.get? key := by
  have hfold : applyTick bars t = (hits [t]).foldl hitBar bars := foldl_applyTick [t] bars
  rw [hfold]
  refine (KeyedTable.get?_foldl key_rebuildBar (hits [t]) bars key).trans ?_
  rw [filter_hits, ticksAt, group, List.filter_cons, List.filter_nil]
  by_cases hkey : t.key key.interval = key
  · simp [hkey]
  · simp [hkey]

theorem updates_iff {e : Event} {t : Tick db} (ht : tickOf db env e = some t) (bars : BarTable db)
    (key : BarKey) : Updates env e bars key ↔ t.key key.interval = key := by
  rw [Updates, handleEvent_bars, ht, Option.elim_some, get?_applyTick]
  by_cases hkey : t.key key.interval = key
  · rw [if_pos hkey]
    exact iff_of_true (rebuildBar_ne _ _) hkey
  · rw [if_neg hkey]
    exact iff_of_false (fun h => h rfl) hkey

/-- Two events are handled, and update the same bars. -/
def UpdatesSame (env : Env) (e e' : Event) (bars bars' : BarTable db) : Prop :=
  (handleEvent env e.now e.payload bars).2 = none ∧ (handleEvent env e'.now e'.payload bars').2 = none ∧
    ∀ key, Updates env e bars key ↔ Updates env e' bars' key

theorem handled_iff {e : Event} {reading : Reading}
    (hread : readEvent env e.now e.payload = .ok (some reading)) (bars : BarTable db) :
    (handleEvent env e.now e.payload bars).2 = none ↔
      ∃ t, tickOf db env e = some t ∧ t.ts = reading.ts ∧ t.instrument = reading.instrument := by
  have htick : tickOf db env e = reading.tick? db := by rw [tickOf, hread]
  rcases handleEvent_cases env e bars with ⟨t, ht, hhandle⟩ | ⟨_, hnone, _⟩ | ⟨ht, _, exc, hhandle⟩
  · obtain rfl := Reading.tick?_eq_some (htick ▸ ht)
    exact iff_of_true (by rw [hhandle]) ⟨t, ht, rfl, rfl⟩
  · rw [hread] at hnone
    cases hnone
  · refine iff_of_false (by simp [hhandle]) ?_
    rintro ⟨t, ht', _⟩
    rw [ht] at ht'
    cases ht'

theorem exists_tick_of_reading_iff {e : Event} {reading : Reading}
    (hread : readEvent env e.now e.payload = .ok (some reading))
    (hmid : Storable (priceColumn db) reading.mid) :
    (∃ t, tickOf db env e = some t ∧ t.ts = reading.ts ∧ t.instrument = reading.instrument) ↔
      HasBuckets wholeSeconds reading.ts := by
  have htick : tickOf db env e = reading.tick? db := by rw [tickOf, hread]
  rw [htick]
  cases ht : reading.tick? db with
  | some t =>
      obtain rfl := Reading.tick?_eq_some ht
      exact iff_of_true ⟨t, rfl, rfl, rfl⟩ t.dated
  | none =>
      have hnone := (Reading.tick?_eq_none_iff.mp ht).resolve_left (not_not.mpr hmid)
      exact iff_of_false (by simp) hnone

theorem updatesSame_iff {e e' : Event} {r r' : Reading}
    (hread : readEvent env e.now e.payload = .ok (some r))
    (hread' : readEvent env e'.now e'.payload = .ok (some r'))
    (hmid : Storable (priceColumn db) r.mid) (hmid' : Storable (priceColumn db) r'.mid)
    (hname : r.instrument = r'.instrument) (hts : r.ts.InRange) (hts' : r'.ts.InRange)
    (hinstant : r.ts.instant = r'.ts.instant) (bars bars' : BarTable db) :
    UpdatesSame env e e' bars bars' ↔ ∀ interval, Aligned interval r.ts r'.ts := by
  simp only [← sharesBucket_iff_aligned hts hts' hinstant, sharesBucket_iff]
  constructor
  · rintro ⟨hhandled, hhandled', hsame⟩ interval
    obtain ⟨t, ht, hteq, htname⟩ := (handled_iff hread bars).mp hhandled
    obtain ⟨t', ht', hteq', htname'⟩ := (handled_iff hread' bars').mp hhandled'
    have hkey := (updates_iff ht' bars' _).mp
      ((hsame (t.key interval)).mp ((updates_iff ht bars _).mpr rfl))
    refine ⟨?_, hteq ▸ t.dated, hteq' ▸ t'.dated⟩
    rw [← hteq, ← hteq']
    exact (congrArg BarKey.bucketStart hkey).symm
  · intro hshares
    obtain ⟨t, ht, hteq, htname⟩ := (exists_tick_of_reading_iff hread hmid).mpr (hshares .m1).2.1
    obtain ⟨t', ht', hteq', htname'⟩ := (exists_tick_of_reading_iff hread' hmid').mpr (hshares .m1).2.2
    refine ⟨(handled_iff hread bars).mpr ⟨t, ht, hteq, htname⟩,
      (handled_iff hread' bars').mpr ⟨t', ht', hteq', htname'⟩, fun key => ?_⟩
    have hkey : t.key key.interval = t'.key key.interval := by
      rw [Tick.key, Tick.key, barKey, barKey, hteq, hteq', htname, htname', hname,
        (hshares key.interval).1]
    rw [updates_iff ht, updates_iff ht', hkey]

/-! ### Bars in time -/

theorem eq_of_dvd_of_lt {d x y : ℤ} (hd : d ∣ x - y) (hle : x < y + d) (hge : y < x + d) :
    x = y := by
  have hlow : -d < x - y := by linarith
  have hhigh : x - y < d := by linarith
  have hzero : x - y = 0 := Int.eq_zero_of_abs_lt_dvd hd (abs_lt.mpr ⟨hlow, hhigh⟩)
  linarith

/-- Bars whose ticks were stamped by aligned clocks do not overlap. -/
theorem key_eq_of_overlaps {t t' : Tick db} {interval : Interval}
    (hoffset : interval.length ∣ t.ts.utcoffset.getD 0 - t'.ts.utcoffset.getD 0)
    (h : (t.key interval).Overlaps (t'.key interval)) : t.key interval = t'.key interval := by
  have hgrid := Int.dvd_sub (length_dvd_flooredStart t.ts interval)
    (length_dvd_flooredStart t'.ts interval)
  have hapart : interval.length ∣
      (t.key interval).bucketStart - (t'.key interval).bucketStart := by
    have hsub := Int.dvd_sub hgrid hoffset
    have heq : (t.key interval).bucketStart + t.ts.utcoffset.getD 0 -
        ((t'.key interval).bucketStart + t'.ts.utcoffset.getD 0) -
        (t.ts.utcoffset.getD 0 - t'.ts.utcoffset.getD 0) =
        (t.key interval).bucketStart - (t'.key interval).bucketStart := by ring
    rwa [← heq]
  have hstart : (t.key interval).bucketStart = (t'.key interval).bucketStart :=
    eq_of_dvd_of_lt hapart h.start h.stop
  have hname : t.instrument = t'.instrument := h.instrument
  exact (BarKey.mk.injEq ..).mpr ⟨hname, rfl, hstart⟩

theorem not_overlaps_of_offsets {events : List Event} {instrument : Str} {interval : Interval}
    (hoffsets : ∀ t ∈ ticks db env events, ∀ t' ∈ ticks db env events,
      t.instrument = instrument → t'.instrument = instrument →
        interval.length ∣ t.ts.utcoffset.getD 0 - t'.ts.utcoffset.getD 0)
    {bar bar' : OHLCBar db} (hbar : bar ∈ (barsAfter db env events).rows)
    (hbar' : bar' ∈ (barsAfter db env events).rows) (hname : bar.key.instrument = instrument)
    (hinterval : bar.key.interval = interval) (hne : bar.key ≠ bar'.key) :
    ¬ bar.key.Overlaps bar'.key := by
  intro h
  obtain ⟨t, ht, hkey⟩ := exists_tick_of_mem_rows hbar
  obtain ⟨t', ht', hkey'⟩ := exists_tick_of_mem_rows hbar'
  rw [← h.interval, hinterval] at hkey'
  rw [hinterval] at hkey
  have htname : t.instrument = instrument := by
    rw [← hname, ← hkey]
    rfl
  have htname' : t'.instrument = instrument := by
    rw [← hname, h.instrument, ← hkey']
    rfl
  refine hne ?_
  rw [← hkey, ← hkey'] at h ⊢
  exact key_eq_of_overlaps (hoffsets t ht t' ht' htname htname') h

/-- **Which clocks agree on a bar.** -/
theorem buckets_agree_iff_aligned (db : Engine) (env : Env) :
    (∀ interval, ∀ ts ts' : DateTime, ts.InRange → ts'.InRange → ts.instant = ts'.instant →
      (SharesBucket interval ts ts' ↔ Aligned interval ts ts')) ∧
    (∀ e e' r r', readEvent env e.now e.payload = .ok (some r) →
      readEvent env e'.now e'.payload = .ok (some r') → Storable (priceColumn db) r.mid →
      Storable (priceColumn db) r'.mid → r.instrument = r'.instrument → r.ts.InRange → r'.ts.InRange →
      r.ts.instant = r'.ts.instant → ∀ bars bars' : BarTable db,
        (UpdatesSame env e e' bars bars' ↔ ∀ interval, Aligned interval r.ts r'.ts)) ∧
    ∀ events instrument interval,
      (∀ t ∈ ticks db env events, ∀ t' ∈ ticks db env events,
        t.instrument = instrument → t'.instrument = instrument →
          interval.length ∣ t.ts.utcoffset.getD 0 - t'.ts.utcoffset.getD 0) →
      ∀ bar ∈ (barsAfter db env events).rows, ∀ bar' ∈ (barsAfter db env events).rows,
        bar.key.instrument = instrument → bar.key.interval = interval → bar.key ≠ bar'.key →
          ¬ bar.key.Overlaps bar'.key :=
  ⟨fun interval _ _ hts hts' hinstant => sharesBucket_iff_aligned hts hts' hinstant interval,
    fun _ _ _ _ hread hread' hmid hmid' hname hts hts' hinstant bars bars' =>
      updatesSame_iff hread hread' hmid hmid' hname hts hts' hinstant bars bars',
    fun _ _ _ hoffsets _ hbar _ hbar' hname hinterval hne =>
      not_overlaps_of_offsets hoffsets hbar hbar' hname hinterval hne⟩

/-! ### Ten past twelve on three clocks -/

def utcQuote : Event :=
  quoteEvent 0 "BTC-USD" "kraken" "100" "102" "2026-01-01T12:10:00+00:00"

def hourAheadQuote : Event :=
  quoteEvent 0 "BTC-USD" "binance" "100" "102" "2026-01-01T13:10:00+01:00"

def halfHourAheadQuote : Event :=
  quoteEvent 0 "BTC-USD" "coinbase" "100" "102" "2026-01-01T17:40:00+05:30"

def utcTick : Tick .postgres := ⟨Str.ofString "BTC-USD", ⟨1767269400000000, some 0⟩, 101, soundTick.fits,
    by decide +kernel⟩

def hourAheadTick : Tick .postgres :=
  ⟨Str.ofString "BTC-USD", ⟨1767273000000000, some 3600000000⟩, 101, soundTick.fits,
    by decide +kernel⟩

def halfHourAheadTick : Tick .postgres :=
  ⟨Str.ofString "BTC-USD", ⟨1767289200000000, some 19800000000⟩, 101, soundTick.fits,
    by decide +kernel⟩

theorem tickOf_utcQuote : tickOf .postgres btcEnv utcQuote = some utcTick :=
  tickOf_quoteEvent (b := 100) (a := 102) rfl (by decide) (by decide +kernel) (by decide +kernel)
    (by decide) rfl (by norm_num [btcEnv, utcTick])

theorem tickOf_hourAheadQuote : tickOf .postgres btcEnv hourAheadQuote = some hourAheadTick :=
  tickOf_quoteEvent (b := 100) (a := 102) rfl (by decide) (by decide +kernel) (by decide +kernel)
    (by decide) rfl (by norm_num [btcEnv, hourAheadTick])

theorem tickOf_halfHourAheadQuote :
    tickOf .postgres btcEnv halfHourAheadQuote = some halfHourAheadTick :=
  tickOf_quoteEvent (b := 100) (a := 102) rfl (by decide) (by decide +kernel) (by decide +kernel)
    (by decide) rfl (by norm_num [btcEnv, halfHourAheadTick])

/-- A clock one hour ahead writes the bars UTC writes. -/
theorem hour_ahead_same_bars :
    utcTick.ts ≠ hourAheadTick.ts ∧
      UpdatesSame btcEnv utcQuote hourAheadQuote (KeyedTable.empty : BarTable .postgres)
        KeyedTable.empty := by
  refine ⟨by decide, ((buckets_agree_iff_aligned .postgres btcEnv).2.1 utcQuote hourAheadQuote
    utcTick.reading hourAheadTick.reading (readEvent_of_tickOf tickOf_utcQuote)
    (readEvent_of_tickOf tickOf_hourAheadQuote) utcTick.fits hourAheadTick.fits rfl (by decide)
    (by decide) (by decide) _ _).mpr ?_⟩
  intro interval
  cases interval <;> decide +kernel

/-- Half an hour off the grid: the hour bars of one instant start half an hour apart and overlap. -/
theorem half_hour_ahead_overlaps :
    utcTick.ts.instant = halfHourAheadTick.ts.instant ∧
    ¬ SharesBucket .h1 utcTick.ts halfHourAheadTick.ts ∧
    ¬ UpdatesSame btcEnv utcQuote halfHourAheadQuote (KeyedTable.empty : BarTable .postgres)
      KeyedTable.empty ∧
    ∃ bar ∈ (barsAfter .postgres btcEnv [utcQuote, halfHourAheadQuote]).rows,
      ∃ bar' ∈ (barsAfter .postgres btcEnv [utcQuote, halfHourAheadQuote]).rows,
        bar.key ≠ bar'.key ∧ bar.key.Overlaps bar'.key := by
  have hstart : (utcTick.key .h1).bucketStart ≠ (halfHourAheadTick.key .h1).bucketStart := by
    decide +kernel
  refine ⟨by decide, fun hshares => hstart (sharesBucket_iff.mp hshares).1, fun hsame => ?_, ?_⟩
  · have hkey := (updates_iff tickOf_halfHourAheadQuote _ _).mp
      ((hsame.2.2 (utcTick.key .h1)).mp ((updates_iff tickOf_utcQuote _ _).mpr rfl))
    exact hstart (congrArg BarKey.bucketStart hkey).symm
  · have hticks : ticks .postgres btcEnv [utcQuote, halfHourAheadQuote] =
        [utcTick, halfHourAheadTick] := by
      simp only [ticks, List.filterMap_cons, tickOf_utcQuote, tickOf_halfHourAheadQuote,
        List.filterMap_nil]
    have hmem : utcTick ∈ ticks .postgres btcEnv [utcQuote, halfHourAheadQuote] := by
      simp [hticks]
    have hmem' : halfHourAheadTick ∈ ticks .postgres btcEnv [utcQuote, halfHourAheadQuote] := by
      simp [hticks]
    obtain ⟨bar, hbar, hkey⟩ := exists_row_of_mem_ticks hmem .h1
    obtain ⟨bar', hbar', hkey'⟩ := exists_row_of_mem_ticks hmem' .h1
    have htimes : (utcTick.key .h1).bucketStart < (halfHourAheadTick.key .h1).bucketEnd ∧
        (halfHourAheadTick.key .h1).bucketStart < (utcTick.key .h1).bucketEnd := by decide +kernel
    refine ⟨bar, hbar, bar', hbar', ?_, ?_⟩
    · rw [hkey, hkey']
      exact fun h => hstart (congrArg BarKey.bucketStart h)
    · rw [hkey, hkey']
      exact ⟨rfl, rfl, htimes.1, htimes.2⟩

-- a microsecond before two o'clock in the year 2514, on two clocks an hour apart
example : ¬ Aligned .m1 ⟨17179869179999999, some 0⟩ ⟨17179872779999999, some 3600000000⟩ := by
  decide +kernel

end Pricestream
