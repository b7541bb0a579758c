import Pricestream.Proof.Ohlc.Refinement

/-!
# Coarse bars summarise the finer ones

The three intervals are kept by separate updates, yet each coarse bar is what one would compute from
the finer bars inside it. The reason is that buckets nest: the coarse bucket of a UTC timestamp is
the coarse bucket of its fine bucket's start. So the ticks of a coarse bar, grouped by fine bucket,
are the ticks of the fine bars, and counts, extremes and ends are compared group by group.

Only the first and last prices need more. They follow the order of arrival, so they agree with the
earliest and the latest finer bar when an instrument's ticks arrive in the order of their timestamps.
-/

namespace Pricestream

open Library Python
open DateTime (Instant)
open TimeDelta (wholeSeconds)

variable {db : Engine}

/-! ### Nesting -/

def BarKey.parent (key : BarKey) (coarse : Interval) : BarKey :=
  ⟨key.instrument, coarse, bucket wholeSeconds coarse.seconds key.bucketStart⟩

def BarKey.bucketEnd (key : BarKey) : Instant := key.bucketStart + key.interval.length

/-- Whether the bucket of a key lies inside another's. -/
structure BarKey.Within (key outer : BarKey) : Prop where
  instrument : key.instrument = outer.instrument
  start : outer.bucketStart ≤ key.bucketStart
  stop : key.bucketEnd ≤ outer.bucketEnd

/-- The bars of a finer interval inside a bar's bucket. -/
def children (bars : BarTable db) (key : BarKey) (fine : Interval) : List (OHLCBar db) :=
  bars.rows.filter fun bar => bar.key.interval = fine ∧ bar.key.instrument = key.instrument ∧
    key.bucketStart ≤ bar.key.bucketStart ∧ bar.key.bucketStart < key.bucketEnd

theorem Tick.key_eq_of_isUtc {t : Tick db} (h : t.ts.IsUtc) (interval : Interval) :
    t.key interval = ⟨t.instrument, interval, bucket wholeSeconds interval.seconds t.ts.wall⟩ := by
  rw [Tick.key, barKey, flooredStart_instant, h, Int.sub_zero]

theorem Tick.parent_key {t : Tick db} (h : t.ts.IsUtc) {fine coarse : Interval}
    (hdvd : fine.seconds ∣ coarse.seconds) : (t.key fine).parent coarse = t.key coarse := by
  rw [t.key_eq_of_isUtc h, t.key_eq_of_isUtc h, BarKey.parent,
    bucket_bucket wholeSeconds fine.seconds_pos hdvd]

theorem Tick.key_within {t : Tick db} (h : t.ts.IsUtc) {fine coarse : Interval}
    (hdvd : fine.seconds ∣ coarse.seconds) : (t.key fine).Within (t.key coarse) := by
  rw [t.key_eq_of_isUtc h, t.key_eq_of_isUtc h]
  obtain ⟨hstart, hstop⟩ :=
    bucket_subset wholeSeconds fine.seconds_pos coarse.seconds_pos hdvd t.ts.wall
  exact ⟨rfl, hstart, hstop⟩

/-- Among the keys of UTC ticks, lying in a coarse bucket is having it as parent. -/
theorem Tick.parent_eq_iff {t t' : Tick db} (h : t.ts.IsUtc) (h' : t'.ts.IsUtc)
    {fine coarse : Interval} (hdvd : fine.seconds ∣ coarse.seconds) :
    (t.key fine).parent coarse = t'.key coarse ↔
      (t.key fine).instrument = (t'.key coarse).instrument ∧
        (t'.key coarse).bucketStart ≤ (t.key fine).bucketStart ∧
        (t.key fine).bucketStart < (t'.key coarse).bucketEnd := by
  have hiff := bucket_eq_iff wholeSeconds fine.seconds_pos coarse.seconds_pos hdvd t.ts.wall t'.ts.wall
  rw [t.key_eq_of_isUtc h, t'.key_eq_of_isUtc h']
  simp only [BarKey.parent, BarKey.bucketEnd, Interval.length, BarKey.mk.injEq, true_and, hiff]

theorem Tick.key_mono {t t' : Tick db} (h : t.ts.IsUtc) (h' : t'.ts.IsUtc)
    (hle : t.ts.instant ≤ t'.ts.instant) (interval : Interval) :
    (t.key interval).bucketStart ≤ (t'.key interval).bucketStart := by
  rw [DateTime.instant_of_isUtc h, DateTime.instant_of_isUtc h'] at hle
  rw [t.key_eq_of_isUtc h, t'.key_eq_of_isUtc h']
  exact bucket_mono wholeSeconds interval.seconds_pos hle

/-! ### The ticks behind a row -/

variable {env : Env} {events : List Event}

theorem exists_tick_of_mem_rows {bar : OHLCBar db} (hbar : bar ∈ (barsAfter db env events).rows) :
    ∃ t ∈ ticks db env events, t.key bar.key.interval = bar.key := by
  have hget := KeyedTable.get?_of_mem_rows hbar
  have hne := isSome_get?_barsAfter_iff.mp (Option.isSome_of_eq_some hget)
  obtain ⟨t, ht⟩ := List.exists_mem_of_ne_nil _ hne
  exact ⟨t, mem_group.mp ht⟩

theorem exists_row_of_mem_ticks {t : Tick db} (ht : t ∈ ticks db env events) (interval : Interval) :
    ∃ bar ∈ (barsAfter db env events).rows, bar.key = t.key interval := by
  have hmem : t ∈ ticksAt (ticks db env events) (t.key interval) := mem_group.mpr ⟨ht, rfl⟩
  have hsome := isSome_get?_barsAfter_iff.mpr (List.ne_nil_of_mem hmem)
  obtain ⟨bar, hget⟩ := Option.isSome_iff_exists.mp hsome
  exact ⟨bar, KeyedTable.mem_rows_of_get? hget, KeyedTable.key_of_get? hget⟩

theorem shows_of_mem_rows {bar : OHLCBar db} (hbar : bar ∈ (barsAfter db env events).rows) :
    ∃ s : Summary ℚ, s.Describes (midsAt (ticks db env events) bar.key) ∧ bar.Shows s :=
  get?_barsAfter_shows (KeyedTable.get?_of_mem_rows hbar)

theorem tickCount_of_mem_rows {bar : OHLCBar db} (hbar : bar ∈ (barsAfter db env events).rows) :
    bar.tickCount = (ticksAt (ticks db env events) bar.key).length := by
  obtain ⟨s, hs, hshows⟩ := shows_of_mem_rows hbar
  rw [hshows.tickCount, ← hs.count, midsAt, List.length_map]

/-! ### A coarse bar and the finer bars inside it -/

/-- A bar's counts and extremes are those of the bars it is made of. -/
structure OHLCBar.RollsUp (bar : OHLCBar db) (parts : List (OHLCBar db)) : Prop where
  tickCount : bar.tickCount = (parts.map OHLCBar.tickCount).sum
  high : IsGreatest {x | x ∈ parts.map fun part => part.high.value} bar.high.value
  low : IsLeast {x | x ∈ parts.map fun part => part.low.value} bar.low.value

/-- A bar opens with its earliest part and closes with its latest. -/
structure OHLCBar.Chains (bar : OHLCBar db) (parts : List (OHLCBar db)) : Prop where
  «open» : ∃ part ∈ parts, bar.open = part.open ∧
    ∀ other ∈ parts, part.key.bucketStart ≤ other.key.bucketStart
  close : ∃ part ∈ parts, bar.close = part.close ∧
    ∀ other ∈ parts, other.key.bucketStart ≤ part.key.bucketStart

section Nested

variable (hutc : ∀ t ∈ ticks db env events, t.ts.IsUtc) {fine : Interval} {bar : OHLCBar db}
  (hbar : bar ∈ (barsAfter db env events).rows) (hdvd : fine.seconds ∣ bar.key.interval.seconds)
include hutc hbar hdvd

theorem mem_children_iff {part : OHLCBar db} :
    part ∈ children (barsAfter db env events) bar.key fine ↔
      part ∈ (barsAfter db env events).rows ∧ part.key.interval = fine ∧
        part.key.parent bar.key.interval = bar.key := by
  rw [children, List.mem_filter, decide_eq_true_eq]
  refine and_congr_right fun hpart => and_congr_right fun hfine => ?_
  obtain ⟨t, ht, hkey⟩ := exists_tick_of_mem_rows hpart
  obtain ⟨t', ht', hkey'⟩ := exists_tick_of_mem_rows hbar
  rw [hfine] at hkey
  have hiff := Tick.parent_eq_iff (hutc t ht) (hutc t' ht') hdvd
  rw [hkey, hkey'] at hiff
  exact hiff.symm

theorem group_ticksAt {part : OHLCBar db}
    (hpart : part ∈ children (barsAfter db env events) bar.key fine) :
    group (fun t => t.key fine) (ticksAt (ticks db env events) bar.key) part.key =
      ticksAt (ticks db env events) part.key := by
  obtain ⟨_, hfine, hparent⟩ := (mem_children_iff hutc hbar hdvd).mp hpart
  have hnest : ∀ t ∈ ticks db env events,
      (t.key fine).parent bar.key.interval = t.key bar.key.interval := fun t ht =>
    Tick.parent_key (hutc t ht) hdvd
  rw [ticksAt, ticksAt, hfine]
  exact group_group (fun key => key.parent bar.key.interval) hnest hparent

theorem exists_part_of_mem {t : Tick db} (ht : t ∈ ticksAt (ticks db env events) bar.key) :
    ∃ part ∈ children (barsAfter db env events) bar.key fine, part.key = t.key fine := by
  obtain ⟨hmem, hkey⟩ := mem_group.mp ht
  obtain ⟨part, hpart, hpartKey⟩ := exists_row_of_mem_ticks hmem fine
  refine ⟨part, (mem_children_iff hutc hbar hdvd).mpr ⟨hpart, ?_, ?_⟩, hpartKey⟩
  · rw [hpartKey]
    rfl
  · rw [hpartKey, Tick.parent_key (hutc t hmem) hdvd, hkey]

theorem mem_ticksAt_of_part {part : OHLCBar db}
    (hpart : part ∈ children (barsAfter db env events) bar.key fine) {t : Tick db}
    (ht : t ∈ ticksAt (ticks db env events) part.key) :
    t ∈ ticksAt (ticks db env events) bar.key ∧ t.key fine = part.key := by
  rw [← group_ticksAt hutc hbar hdvd hpart] at ht
  exact mem_group.mp ht

theorem tickCount_eq_sum :
    bar.tickCount = ((children (barsAfter db env events) bar.key fine).map OHLCBar.tickCount).sum := by
  have hcount : ∀ part ∈ children (barsAfter db env events) bar.key fine, part.tickCount =
      (group (fun t => t.key fine) (ticksAt (ticks db env events) bar.key) part.key).length := by
    intro part hpart
    rw [group_ticksAt hutc hbar hdvd hpart,
      tickCount_of_mem_rows ((mem_children_iff hutc hbar hdvd).mp hpart).1]
  have hkeys : ((children (barsAfter db env events) bar.key fine).map OHLCBar.key).Nodup :=
    (barsAfter db env events).unique.sublist (List.filter_sublist.map _)
  have hcover : ∀ t ∈ ticksAt (ticks db env events) bar.key,
      t.key fine ∈ (children (barsAfter db env events) bar.key fine).map OHLCBar.key := by
    intro t ht
    obtain ⟨part, hpart, hkey⟩ := exists_part_of_mem hutc hbar hdvd ht
    exact List.mem_map.mpr ⟨part, hpart, hkey⟩
  rw [tickCount_of_mem_rows hbar, ← sum_length_group hkeys hcover, List.map_map,
    List.map_congr_left hcount]
  rfl

/-- **Counts and extremes roll up.** -/
theorem rollsUp_children : bar.RollsUp (children (barsAfter db env events) bar.key fine) := by
  obtain ⟨s, hs, hshows⟩ := shows_of_mem_rows hbar
  have hmids : ∀ part ∈ children (barsAfter db env events) bar.key fine,
      ∀ x ∈ midsAt (ticks db env events) part.key, x ∈ midsAt (ticks db env events) bar.key := by
    intro part hpart x hx
    obtain ⟨t, ht, rfl⟩ := List.mem_map.mp hx
    exact List.mem_map_of_mem (mem_ticksAt_of_part hutc hbar hdvd hpart ht).1
  have hpart : ∀ x ∈ midsAt (ticks db env events) bar.key,
      ∃ part ∈ children (barsAfter db env events) bar.key fine, ∃ s' : Summary ℚ,
        s'.Describes (midsAt (ticks db env events) part.key) ∧ part.Shows s' ∧
        x ∈ midsAt (ticks db env events) part.key := by
    intro x hx
    obtain ⟨t, ht, rfl⟩ := List.mem_map.mp hx
    obtain ⟨part, hpart, hkey⟩ := exists_part_of_mem hutc hbar hdvd ht
    obtain ⟨hrow, hfine, _⟩ := (mem_children_iff hutc hbar hdvd).mp hpart
    obtain ⟨s', hs', hshows'⟩ := shows_of_mem_rows hrow
    have hmem : t ∈ ticksAt (ticks db env events) part.key := by
      rw [← group_ticksAt hutc hbar hdvd hpart]
      exact mem_group.mpr ⟨ht, hkey.symm⟩
    exact ⟨part, hpart, s', hs', hshows', List.mem_map_of_mem hmem⟩
  refine ⟨tickCount_eq_sum hutc hbar hdvd, ⟨?_, ?_⟩, ⟨?_, ?_⟩⟩
  · obtain ⟨part, hpart, s', hs', hshows', hx⟩ := hpart s.high hs.high.1
    have hle : s'.high ≤ s.high := hs.high.2 (hmids part hpart _ hs'.high.1)
    have heq : s'.high = s.high := le_antisymm hle (hs'.high.2 hx)
    refine List.mem_map.mpr ⟨part, hpart, ?_⟩
    rw [hshows'.high, hshows.high, heq]
  · rintro x hx
    obtain ⟨part, hpart, rfl⟩ := List.mem_map.mp hx
    obtain ⟨s', hs', hshows'⟩ := shows_of_mem_rows ((mem_children_iff hutc hbar hdvd).mp hpart).1
    rw [hshows'.high, hshows.high]
    exact db.price.mono (hs.high.2 (hmids part hpart _ hs'.high.1))
  · obtain ⟨part, hpart, s', hs', hshows', hx⟩ := hpart s.low hs.low.1
    have hle : s.low ≤ s'.low := hs.low.2 (hmids part hpart _ hs'.low.1)
    have heq : s'.low = s.low := le_antisymm (hs'.low.2 hx) hle
    refine List.mem_map.mpr ⟨part, hpart, ?_⟩
    rw [hshows'.low, hshows.low, heq]
  · rintro x hx
    obtain ⟨part, hpart, rfl⟩ := List.mem_map.mp hx
    obtain ⟨s', hs', hshows'⟩ := shows_of_mem_rows ((mem_children_iff hutc hbar hdvd).mp hpart).1
    rw [hshows'.low, hshows.low]
    exact db.price.mono (hs.low.2 (hmids part hpart _ hs'.low.1))

theorem exists_part_shows {t : Tick db} (ht : t ∈ ticksAt (ticks db env events) bar.key) :
    ∃ part ∈ children (barsAfter db env events) bar.key fine, ∃ s : Summary ℚ, part.Shows s ∧
      s.Describes ((group (fun t => t.key fine) (ticksAt (ticks db env events) bar.key)
        (t.key fine)).map Tick.mid) ∧ part.key = t.key fine := by
  obtain ⟨part, hpart, hkey⟩ := exists_part_of_mem hutc hbar hdvd ht
  obtain ⟨s, hs, hshows⟩ := shows_of_mem_rows ((mem_children_iff hutc hbar hdvd).mp hpart).1
  refine ⟨part, hpart, s, hshows, ?_, hkey⟩
  rw [← hkey, group_ticksAt hutc hbar hdvd hpart]
  exact hs

theorem exists_tick_of_part {part : OHLCBar db}
    (hpart : part ∈ children (barsAfter db env events) bar.key fine) :
    ∃ t ∈ ticksAt (ticks db env events) bar.key, t.key fine = part.key := by
  obtain ⟨hrow, _⟩ := (mem_children_iff hutc hbar hdvd).mp hpart
  obtain ⟨t, ht, hkey⟩ := exists_tick_of_mem_rows hrow
  exact ⟨t, mem_ticksAt_of_part hutc hbar hdvd hpart (mem_group.mpr ⟨ht, hkey⟩)⟩

/-- **Ends chain when ticks arrive in the order of their timestamps.** -/
theorem chains_children (horder : (ticks db env events).Pairwise fun t t' =>
      t.instrument = t'.instrument → t.ts.instant ≤ t'.ts.instant) :
    bar.Chains (children (barsAfter db env events) bar.key fine) := by
  obtain ⟨s, hs, hshows⟩ := shows_of_mem_rows hbar
  have hutcBar : ∀ t ∈ ticksAt (ticks db env events) bar.key, t.ts.IsUtc := fun t ht =>
    hutc t (mem_group.mp ht).1
  -- the ticks of one bar are of one instrument, so they are in order
  have hsorted : (ticksAt (ticks db env events) bar.key).Pairwise fun t t' =>
      t.ts.instant ≤ t'.ts.instant := by
    refine (horder.sublist List.filter_sublist).imp_of_mem fun {t t'} ht ht' hle => hle ?_
    rw [show t.instrument = (t.key bar.key.interval).instrument from rfl, (mem_group.mp ht).2,
      ← (mem_group.mp ht').2]
    rfl
  constructor
  · have hfirst := hs.first
    rw [midsAt, List.head?_map, Option.map_eq_some_iff] at hfirst
    obtain ⟨t, hhead, hmid⟩ := hfirst
    have ht := List.mem_of_mem_head? hhead
    obtain ⟨part, hpart, s', hshows', hs', hkey⟩ := exists_part_shows hutc hbar hdvd ht
    have hfirst' := hs'.first
    rw [List.head?_map, head?_group (f := fun t => t.key fine) hhead, Option.map_some] at hfirst'
    refine ⟨part, hpart, NumericColumn.Cell.ext _ ?_, fun other hother => ?_⟩
    · rw [hshows.open, hshows'.open, ← hmid, Option.some.inj hfirst']
    · obtain ⟨t', ht', hkey'⟩ := exists_tick_of_part hutc hbar hdvd hother
      have hle := le_of_head? (fun t : Tick db => le_refl t.ts.instant) hsorted hhead ht'
      rw [hkey, ← hkey']
      exact Tick.key_mono (hutcBar t ht) (hutcBar t' ht') hle fine
  · have hlast := hs.last
    rw [midsAt, List.getLast?_map, Option.map_eq_some_iff] at hlast
    obtain ⟨t, hend, hmid⟩ := hlast
    have ht := List.mem_of_mem_getLast? hend
    obtain ⟨part, hpart, s', hshows', hs', hkey⟩ := exists_part_shows hutc hbar hdvd ht
    have hlast' := hs'.last
    rw [List.getLast?_map, getLast?_group (f := fun t => t.key fine) hend, Option.map_some] at hlast'
    refine ⟨part, hpart, NumericColumn.Cell.ext _ ?_, fun other hother => ?_⟩
    · rw [hshows.close, hshows'.close, ← hmid, Option.some.inj hlast']
    · obtain ⟨t', ht', hkey'⟩ := exists_tick_of_part hutc hbar hdvd hother
      have hle := le_of_getLast? (fun t : Tick db => le_refl t.ts.instant) hsorted hend ht'
      rw [hkey, ← hkey']
      exact Tick.key_mono (hutcBar t' ht') (hutcBar t ht) hle fine

end Nested

theorem exists_outer (hutc : ∀ t ∈ ticks db env events, t.ts.IsUtc) {bar : OHLCBar db}
    (hbar : bar ∈ (barsAfter db env events).rows) {coarse : Interval}
    (hdvd : bar.key.interval.seconds ∣ coarse.seconds) :
    ∃ outer ∈ (barsAfter db env events).rows, outer.key.interval = coarse ∧
      bar.key.Within outer.key := by
  obtain ⟨t, ht, hkey⟩ := exists_tick_of_mem_rows hbar
  obtain ⟨outer, houter, houterKey⟩ := exists_row_of_mem_ticks ht coarse
  refine ⟨outer, houter, by rw [houterKey]; rfl, ?_⟩
  rw [← hkey, houterKey]
  exact Tick.key_within (hutc t ht) hdvd

theorem m1_dvd_m5 : Interval.m1.seconds ∣ Interval.m5.seconds := by decide

theorem m1_dvd_h1 : Interval.m1.seconds ∣ Interval.h1.seconds := by decide

theorem m5_dvd_h1 : Interval.m5.seconds ∣ Interval.h1.seconds := by decide

/-- The bars of the three intervals, after some events. -/
structure RollUp (db : Engine) (env : Env) (events : List Event) : Prop where
  nested : ∀ ts, (bucketStart ts .m1).bind (bucketStart · .m5) = bucketStart ts .m5 ∧
    (bucketStart ts .m1).bind (bucketStart · .h1) = bucketStart ts .h1 ∧
    (bucketStart ts .m5).bind (bucketStart · .h1) = bucketStart ts .h1
  inside : ∀ bar ∈ (barsAfter db env events).rows, bar.key.interval = .m1 →
    ∀ coarse : Interval, coarse = .m5 ∨ coarse = .h1 →
      ∃ outer ∈ (barsAfter db env events).rows, outer.key.interval = coarse ∧
        bar.key.Within outer.key
  rollsUp : ∀ bar ∈ (barsAfter db env events).rows,
    (bar.key.interval = .m5 → bar.RollsUp (children (barsAfter db env events) bar.key .m1)) ∧
    (bar.key.interval = .h1 → bar.RollsUp (children (barsAfter db env events) bar.key .m5))
  chains : ((ticks db env events).Pairwise fun t t' =>
      t.instrument = t'.instrument → t.ts.instant ≤ t'.ts.instant) →
    ∀ bar ∈ (barsAfter db env events).rows,
      (bar.key.interval = .m5 → bar.Chains (children (barsAfter db env events) bar.key .m1)) ∧
      (bar.key.interval = .h1 → bar.Chains (children (barsAfter db env events) bar.key .m5))

/-- **Roll-up.** Buckets nest; every minute bar lies in a five-minute and an hour bar; a coarse bar
counts the ticks and has the extremes of the finer bars inside it; and when each instrument's ticks
arrive in the order of their timestamps, it opens with the earliest and closes with the latest. -/
theorem bars_roll_up (db : Engine) (env : Env) (events : List Event)
    (hutc : ∀ e ∈ events, ∀ t : Tick db, tickOf db env e = some t → t.ts.IsUtc) :
    RollUp db env events := by
  have hutc' : ∀ t ∈ ticks db env events, t.ts.IsUtc := by
    intro t ht
    obtain ⟨e, he, htick⟩ := List.mem_filterMap.mp ht
    exact hutc e he t htick
  refine ⟨fun ts => ?_, fun bar hbar hfine coarse hcoarse => ?_, fun bar hbar => ?_,
    fun horder bar hbar => ?_⟩
  · exact ⟨bucketStart_bucketStart m1_dvd_m5 wholeSeconds ts,
      bucketStart_bucketStart m1_dvd_h1 wholeSeconds ts,
      bucketStart_bucketStart m5_dvd_h1 wholeSeconds ts⟩
  · rcases hcoarse with rfl | rfl
    · exact exists_outer hutc' hbar (hfine ▸ m1_dvd_m5)
    · exact exists_outer hutc' hbar (hfine ▸ m1_dvd_h1)
  · exact ⟨fun h => rollsUp_children hutc' hbar (h ▸ m1_dvd_m5),
      fun h => rollsUp_children hutc' hbar (h ▸ m5_dvd_h1)⟩
  · exact ⟨fun h => chains_children hutc' hbar (h ▸ m1_dvd_m5) horder,
      fun h => chains_children hutc' hbar (h ▸ m5_dvd_h1) horder⟩

def twoMinutes : List Event :=
  [quoteEvent 0 "BTC-USD" "binance" "100" "102" "2026-01-01T12:00:30+00:00",
    quoteEvent 0 "BTC-USD" "kraken" "110" "112" "2026-01-01T12:01:30+00:00"]

theorem twoMinutes_roll_up : RollUp .postgres btcEnv twoMinutes := by
  apply bars_roll_up
  intro e he t ht
  rcases List.mem_cons.mp he with rfl | he
  · rw [ts_of_quoteEvent ht]
    decide
  · obtain rfl := List.mem_singleton.mp he
    rw [ts_of_quoteEvent ht]
    decide

end Pricestream
