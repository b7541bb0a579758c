import Pricestream.Library.Summary
import Pricestream.Proof.Ohlc.Ticks

/-!
# The table of bars is a group-by

The consumer keeps a bar by reading the row back, taking the maximum and the minimum with the new mid
and writing the rounded result. The reference is a batch computation: put the ticks into groups, one
for each instrument, interval and bucket, and summarise each group. The two agree key by key, because
a keyed fold is a fold per key, and because rounding is monotone and idempotent: the rounded maximum
of a rounded maximum is the rounded maximum of everything.
-/

namespace Pricestream

open Library Python

variable {db : Engine}

def ticks (db : Engine) (env : Env) (events : List Event) : List (Tick db) :=
  events.filterMap (tickOf db env)

/-- The ticks of one bar, in order of arrival. -/
def ticksAt (ts : List (Tick db)) (key : BarKey) : List (Tick db) :=
  group (fun t => t.key key.interval) ts key

def midsAt (ts : List (Tick db)) (key : BarKey) : List ℚ := (ticksAt ts key).map Tick.mid

def barsAfter (db : Engine) (env : Env) (events : List Event) : BarTable db :=
  handleEvents env events KeyedTable.empty

/-- A row shows a summary: each price rounded into its column, and no volume. -/
structure OHLCBar.Shows (bar : OHLCBar db) (s : Summary ℚ) : Prop where
  «open» : bar.open.value = (priceColumn db).round s.first
  high : bar.high.value = (priceColumn db).round s.high
  low : bar.low.value = (priceColumn db).round s.low
  close : bar.close.value = (priceColumn db).round s.last
  volume : bar.volume.value = 0
  tickCount : bar.tickCount = s.count

/-! ### One bar -/

theorem rebuildBar_none_shows (t : Tick db) (interval : Interval) :
    (rebuildBar none (t, interval)).Shows (Summary.single t.mid) where
  «open» := rfl
  high := rfl
  low := rfl
  close := rfl
  volume := rfl
  tickCount := rfl

theorem rebuildBar_some_shows {bar : OHLCBar db} {s : Summary ℚ} (h : bar.Shows s) (t : Tick db)
    (interval : Interval) : (rebuildBar (some bar) (t, interval)).Shows (s.snoc t.mid) where
  «open» := h.open
  high := by
    show (priceColumn db).round (max bar.high.value t.mid) = (priceColumn db).round (max s.high t.mid)
    rw [h.high]
    exact db.price.round_max_round _ _
  low := by
    show (priceColumn db).round (min bar.low.value t.mid) = (priceColumn db).round (min s.low t.mid)
    rw [h.low]
    exact db.price.round_min_round _ _
  close := rfl
  volume := h.volume
  tickCount := by
    show bar.tickCount + 1 = s.count + 1
    rw [h.tickCount]

def foldBar (hits : List (Tick db × Interval)) : Option (OHLCBar db) :=
  hits.foldl (fun row hit => some (rebuildBar row hit)) none

theorem foldBar_concat (hits : List (Tick db × Interval)) (hit : Tick db × Interval) :
    foldBar (hits ++ [hit]) = some (rebuildBar (foldBar hits) hit) := by
  rw [foldBar, List.foldl_append]
  rfl

theorem foldBar_eq_none_iff {hits : List (Tick db × Interval)} : foldBar hits = none ↔ hits = [] := by
  induction hits using List.reverseRecOn with
  | nil => simp [foldBar]
  | append_singleton hits hit _ => simp [foldBar_concat]

theorem foldBar_shows {hits : List (Tick db × Interval)} {bar : OHLCBar db}
    (h : foldBar hits = some bar) :
    ∃ s : Summary ℚ, s.Describes (hits.map fun hit => hit.1.mid) ∧ bar.Shows s := by
  induction hits using List.reverseRecOn generalizing bar with
  | nil => exact absurd h (by simp [foldBar])
  | append_singleton hits hit ih =>
      rw [foldBar_concat] at h
      obtain rfl := Option.some.inj h
      rw [List.map_append]
      cases hrow : foldBar hits with
      | none =>
          rw [foldBar_eq_none_iff.mp hrow]
          exact ⟨_, Summary.single_describes hit.1.mid, rebuildBar_none_shows hit.1 hit.2⟩
      | some row =>
          obtain ⟨s, hs, hshows⟩ := ih hrow
          exact ⟨_, Summary.snoc_describes hs hit.1.mid, rebuildBar_some_shows hshows hit.1 hit.2⟩

theorem OHLCBar.Shows.ordered {bar : OHLCBar db} {s : Summary ℚ} {mids : List ℚ} (h : bar.Shows s)
    (hs : s.Describes mids) :
    (bar.low.value ≤ bar.open.value ∧ bar.open.value ≤ bar.high.value) ∧
      (bar.low.value ≤ bar.close.value ∧ bar.close.value ≤ bar.high.value) ∧ 1 ≤ bar.tickCount := by
  have hfirst : s.first ∈ mids := List.mem_of_mem_head? hs.first
  have hlast : s.last ∈ mids := List.mem_of_mem_getLast? hs.last
  have hcount : 0 < mids.length := List.length_pos_of_mem hfirst
  rw [h.open, h.high, h.low, h.close, h.tickCount, ← hs.count]
  exact ⟨⟨db.price.mono (hs.low.2 hfirst), db.price.mono (hs.high.2 hfirst)⟩,
    ⟨db.price.mono (hs.low.2 hlast), db.price.mono (hs.high.2 hlast)⟩, hcount⟩

/-! ### All bars -/

def hits (ts : List (Tick db)) : List (Tick db × Interval) :=
  ts.flatMap fun t => intervals.map fun interval => (t, interval)

theorem foldl_applyTick (ts : List (Tick db)) (bars : BarTable db) :
    ts.foldl applyTick bars = (hits ts).foldl hitBar bars := by
  rw [hits, List.foldl_flatMap]
  simp only [List.foldl_map]
  rfl

/-- A tick hits a bar once, in the interval of the bar, or not at all. -/
theorem filter_hits (ts : List (Tick db)) (key : BarKey) :
    ((hits ts).filter fun hit => hitKey hit = key) =
      (ticksAt ts key).map fun t => (t, key.interval) := by
  induction ts with
  | nil => rfl
  | cons t ts ih =>
      have hsplit : hits (t :: ts) = intervals.map (fun interval => (t, interval)) ++ hits ts := rfl
      have hone : (intervals.map fun interval => (t, interval)).filter (fun hit => hitKey hit = key) =
          if t.key key.interval = key then [(t, key.interval)] else [] := by
        obtain ⟨instrument, interval, start⟩ := key
        cases interval <;> simp [intervals, hitKey, Tick.key, barKey, List.filter_cons]
      rw [hsplit, List.filter_append, ih, hone, ticksAt, ticksAt, group, group, List.filter_cons]
      by_cases hkey : t.key key.interval = key <;> simp [hkey]

/-- **Every row is the fold of its own updates.** -/
theorem get?_foldl_hitBar (hits : List (Tick db × Interval)) (key : BarKey) :
    (hits.foldl hitBar KeyedTable.empty).get? key =
      foldBar (hits.filter fun hit => hitKey hit = key) :=
  KeyedTable.get?_foldl key_rebuildBar hits KeyedTable.empty key

theorem get?_barsAfter (env : Env) (events : List Event) (key : BarKey) :
    (barsAfter db env events).get? key =
      foldBar ((ticksAt (ticks db env events) key).map fun t => (t, key.interval)) := by
  rw [barsAfter, handleEvents_eq, foldl_applyTick, get?_foldl_hitBar, filter_hits]
  rfl

theorem isSome_get?_barsAfter_iff {env : Env} {events : List Event} {key : BarKey} :
    ((barsAfter db env events).get? key).isSome ↔ ticksAt (ticks db env events) key ≠ [] := by
  rw [get?_barsAfter, Option.isSome_iff_ne_none, Ne, foldBar_eq_none_iff, List.map_eq_nil_iff]

theorem get?_barsAfter_shows {env : Env} {events : List Event} {key : BarKey} {bar : OHLCBar db}
    (h : (barsAfter db env events).get? key = some bar) :
    ∃ s : Summary ℚ, s.Describes (midsAt (ticks db env events) key) ∧ bar.Shows s := by
  rw [get?_barsAfter] at h
  obtain ⟨s, hs, hshows⟩ := foldBar_shows h
  rw [List.map_map] at hs
  exact ⟨s, hs, hshows⟩

theorem barsAfter_concat (env : Env) (events : List Event) (e : Event) :
    barsAfter db env (events ++ [e]) =
      (tickOf db env e).elim (barsAfter db env events) (applyTick (barsAfter db env events)) := by
  rw [barsAfter, handleEvents, List.foldl_append]
  exact handleEvent_bars env e _

theorem get?_barsAfter_concat_of_ne {env : Env} {events : List Event} {e : Event} {key : BarKey}
    (hother : ∀ t, tickOf db env e = some t → t.key key.interval ≠ key) :
    (barsAfter db env (events ++ [e])).get? key = (barsAfter db env events).get? key := by
  have hgroup : ticksAt (ticks db env (events ++ [e])) key = ticksAt (ticks db env events) key := by
    rw [ticks, ticks, List.filterMap_append, ticksAt, ticksAt, group_append]
    cases ht : tickOf db env e with
    | none => simp [ht, group]
    | some t => simp [ht, group, hother t ht]
  rw [get?_barsAfter, get?_barsAfter, hgroup]

/-- **The table of bars is the group-by of the valid events.** For every run of events and every key
there is a bar exactly if some tick falls into it; the bar is then the only one of its key and shows
the summary of the ticks' mids in order of arrival. Nothing else moves a bar. -/
theorem bars_eq_groupBy (db : Engine) (env : Env) (events : List Event) (key : BarKey) :
    ((∃ bar ∈ (barsAfter db env events).rows, bar.key = key) ↔
      ∃ e ∈ events, ∃ t, tickOf db env e = some t ∧ t.key key.interval = key) ∧
    (∀ bar ∈ (barsAfter db env events).rows, bar.key = key →
      (∃! row, row ∈ (barsAfter db env events).rows ∧ row.key = key) ∧
      (∃ s : Summary ℚ, s.Describes (midsAt (ticks db env events) key) ∧ bar.Shows s) ∧
      (bar.low.value ≤ bar.open.value ∧ bar.open.value ≤ bar.high.value) ∧
      (bar.low.value ≤ bar.close.value ∧ bar.close.value ≤ bar.high.value) ∧ 1 ≤ bar.tickCount) ∧
    ∀ e, (tickOf db env e = none → barsAfter db env (events ++ [e]) = barsAfter db env events) ∧
      ((∀ t, tickOf db env e = some t → t.key key.interval ≠ key) →
        (barsAfter db env (events ++ [e])).get? key = (barsAfter db env events).get? key) := by
  refine ⟨?_, fun bar hbar hkey => ?_, fun e => ⟨fun hnone => ?_, get?_barsAfter_concat_of_ne⟩⟩
  · have hrows : (∃ bar ∈ (barsAfter db env events).rows, bar.key = key) ↔
        ((barsAfter db env events).get? key).isSome := by
      rw [← KeyedTable.mem_keys_iff, List.mem_map]
    rw [hrows, isSome_get?_barsAfter_iff, ← List.length_pos_iff, List.length_pos_iff_exists_mem]
    simp only [ticksAt, mem_group, ticks, List.mem_filterMap]
    constructor
    · rintro ⟨t, ⟨e, he, ht⟩, hkey⟩
      exact ⟨e, he, t, ht, hkey⟩
    · rintro ⟨e, he, t, ht, hkey⟩
      exact ⟨t, ⟨e, he, ht⟩, hkey⟩
  · have hget : (barsAfter db env events).get? key = some bar := hkey ▸ KeyedTable.get?_of_mem_rows hbar
    obtain ⟨s, hs, hshows⟩ := get?_barsAfter_shows hget
    exact ⟨KeyedTable.existsUnique_row hget, ⟨s, hs, hshows⟩, hshows.ordered hs⟩
  · rw [barsAfter_concat, hnone]
    rfl

/-- Its bid parses, to a mid that no column holds. -/
def nanQuote : Event := quoteEvent 0 "BTC-USD" "binance" "NaN" "102" "2026-01-01T12:00:30+00:00"

/-- A valid event makes a bar, and an invalid one after it changes nothing. -/
theorem bars_of_soundQuote :
    (∃ bar ∈ (barsAfter .postgres btcEnv [soundQuote]).rows,
      bar.key = soundTick.key .m1 ∧ bar.open.value = 101 ∧ bar.tickCount = 1) ∧
    barsAfter .postgres btcEnv [soundQuote, nanQuote] = barsAfter .postgres btcEnv [soundQuote] := by
  obtain ⟨hexists, hshows, hothers⟩ :=
    bars_eq_groupBy .postgres btcEnv [soundQuote] (soundTick.key .m1)
  constructor
  · obtain ⟨bar, hbar, hkey⟩ :=
      hexists.mpr ⟨soundQuote, List.mem_singleton_self _, soundTick, tickOf_soundQuote, rfl⟩
    obtain ⟨_, ⟨s, hs, hbarShows⟩, _⟩ := hshows bar hbar hkey
    have hmids : midsAt (ticks .postgres btcEnv [soundQuote]) (soundTick.key .m1) = [101] := by
      have hticks : ticks .postgres btcEnv [soundQuote] = [soundTick] :=
        List.filterMap_cons_some tickOf_soundQuote
      rw [hticks]
      decide +kernel
    rw [hmids] at hs
    refine ⟨bar, hbar, hkey, ?_, hbarShows.tickCount.trans hs.count.symm⟩
    rw [hbarShows.open, ← Option.some.inj hs.first]
    decide +kernel
  · have hnone : (tickOf .postgres btcEnv nanQuote).isNone := by decide +kernel
    exact (hothers nanQuote).1 (Option.isNone_iff_eq_none.mp hnone)

end Pricestream
