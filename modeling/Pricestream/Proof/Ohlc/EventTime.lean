import Pricestream.Proof.Ohlc.Refinement

/-!
# What the order of delivery decides

The first and the last price of a bar are those of the first and the last tick delivered, not of the
earliest and the latest. When the ticks of a bar are delivered in the order of their timestamps the
two readings agree. Everything else about the table, which bars there are, their extremes and their
counts, is the same for every order of the same events.
-/

namespace Pricestream

open Library Python

variable {db : Engine} {env : Env}

/-- A bar opens with the mid of its earliest tick and closes with the mid of its latest. -/
structure OHLCBar.FollowsEventTime (bar : OHLCBar db) (ts : List (Tick db)) : Prop where
  «open» : ∃ t ∈ ts, bar.open.value = (priceColumn db).round t.mid ∧
    ∀ t' ∈ ts, t.ts.instant ≤ t'.ts.instant
  close : ∃ t ∈ ts, bar.close.value = (priceColumn db).round t.mid ∧
    ∀ t' ∈ ts, t'.ts.instant ≤ t.ts.instant

/-- A bar opens with the first of its ticks delivered and closes with the last. -/
structure OHLCBar.FollowsArrival (bar : OHLCBar db) (ts : List (Tick db)) : Prop where
  «open» : ∃ t, ts.head? = some t ∧ bar.open.value = (priceColumn db).round t.mid
  close : ∃ t, ts.getLast? = some t ∧ bar.close.value = (priceColumn db).round t.mid

def OHLCBar.unordered (bar : OHLCBar db) : BarKey × Price db × Price db × Price db × ℕ :=
  (bar.key, bar.high, bar.low, bar.volume, bar.tickCount)

theorem followsArrival_of_get? {events : List Event} {key : BarKey} {bar : OHLCBar db}
    (h : (barsAfter db env events).get? key = some bar) :
    bar.FollowsArrival (ticksAt (ticks db env events) key) := by
  obtain ⟨s, hs, hshows⟩ := get?_barsAfter_shows h
  constructor
  · have hfirst := hs.first
    rw [midsAt, List.head?_map, Option.map_eq_some_iff] at hfirst
    obtain ⟨t, ht, hmid⟩ := hfirst
    exact ⟨t, ht, by rw [hshows.open, hmid]⟩
  · have hlast := hs.last
    rw [midsAt, List.getLast?_map, Option.map_eq_some_iff] at hlast
    obtain ⟨t, ht, hmid⟩ := hlast
    exact ⟨t, ht, by rw [hshows.close, hmid]⟩

/-- Delivered in the order of their timestamps, the first tick is the earliest and the last the latest. -/
theorem OHLCBar.FollowsArrival.followsEventTime {bar : OHLCBar db} {ts : List (Tick db)}
    (h : bar.FollowsArrival ts)
    (hsorted : ts.Pairwise fun t t' => t.ts.instant ≤ t'.ts.instant) : bar.FollowsEventTime ts := by
  obtain ⟨⟨first, hfirst, hopen⟩, ⟨last, hlast, hclose⟩⟩ := h
  constructor
  · exact ⟨first, List.mem_of_mem_head? hfirst, hopen, fun t ht =>
      le_of_head? (fun t : Tick db => le_refl t.ts.instant) hsorted hfirst ht⟩
  · exact ⟨last, List.mem_of_mem_getLast? hlast, hclose, fun t ht =>
      le_of_getLast? (fun t : Tick db => le_refl t.ts.instant) hsorted hlast ht⟩

theorem unordered_eq_of_shows {bar bar' : OHLCBar db} {s s' : Summary ℚ} (hkey : bar.key = bar'.key)
    (h : bar.Shows s) (h' : bar'.Shows s') (hs : s.unordered = s'.unordered) :
    bar.unordered = bar'.unordered := by
  obtain ⟨hhigh, hlow, hcount⟩ : s.high = s'.high ∧ s.low = s'.low ∧ s.count = s'.count := by
    simpa [Summary.unordered] using hs
  have hhigh' : bar.high = bar'.high := NumericColumn.Cell.ext _ (by rw [h.high, h'.high, hhigh])
  have hlow' : bar.low = bar'.low := NumericColumn.Cell.ext _ (by rw [h.low, h'.low, hlow])
  have hvolume : bar.volume = bar'.volume := NumericColumn.Cell.ext _ (by rw [h.volume, h'.volume])
  rw [OHLCBar.unordered, OHLCBar.unordered, hkey, hhigh', hlow', hvolume, h.tickCount, h'.tickCount,
    hcount]

theorem unordered_get?_perm {events events' : List Event} (hperm : events.Perm events')
    (key : BarKey) :
    ((barsAfter db env events).get? key).map OHLCBar.unordered =
      ((barsAfter db env events').get? key).map OHLCBar.unordered := by
  have hticks : (ticksAt (ticks db env events) key).Perm (ticksAt (ticks db env events') key) :=
    (hperm.filterMap _).filter _
  have hsome : ((barsAfter db env events).get? key).isSome ↔
      ((barsAfter db env events').get? key).isSome := by
    rw [isSome_get?_barsAfter_iff, isSome_get?_barsAfter_iff, ← List.length_pos_iff,
      ← List.length_pos_iff, hticks.length_eq]
  cases hbar : (barsAfter db env events).get? key with
  | none =>
      cases hbar' : (barsAfter db env events').get? key with
      | none => rfl
      | some bar' => simp [hbar, hbar'] at hsome
  | some bar =>
      cases hbar' : (barsAfter db env events').get? key with
      | none => simp [hbar, hbar'] at hsome
      | some bar' =>
          obtain ⟨s, hs, hshows⟩ := get?_barsAfter_shows hbar
          obtain ⟨s', hs', hshows'⟩ := get?_barsAfter_shows hbar'
          have hsummary := summarize_perm (hticks.map Tick.mid)
          have hs'' : summarize (midsAt (ticks db env events) key) = some s :=
            summarize_eq_some_iff.mpr hs
          have hs''' : summarize (midsAt (ticks db env events') key) = some s' :=
            summarize_eq_some_iff.mpr hs'
          rw [midsAt] at hs'' hs'''
          rw [hs'', hs'''] at hsummary
          have hkey := (KeyedTable.key_of_get? hbar).trans (KeyedTable.key_of_get? hbar').symm
          exact congrArg some (unordered_eq_of_shows hkey hshows hshows' (Option.some.inj hsummary))

/-- **Bars follow arrival.** Open and close are the mids of the first and the last tick delivered,
hence of the earliest and the latest when the bar's ticks are delivered in the order of their
timestamps; keys, extremes, volume and count do not depend on the order of delivery. -/
theorem bars_follow_arrival (db : Engine) (env : Env) (events : List Event) :
    (∀ bar ∈ (barsAfter db env events).rows,
      bar.FollowsArrival (ticksAt (ticks db env events) bar.key) ∧
      ((ticksAt (ticks db env events) bar.key).Pairwise
          (fun t t' => t.ts.instant ≤ t'.ts.instant) →
        bar.FollowsEventTime (ticksAt (ticks db env events) bar.key))) ∧
    ∀ events', events.Perm events' → ∀ key,
      ((barsAfter db env events).get? key).map OHLCBar.unordered =
        ((barsAfter db env events').get? key).map OHLCBar.unordered := by
  refine ⟨fun bar hbar => ?_, fun events' hperm key => unordered_get?_perm hperm key⟩
  have harrival := followsArrival_of_get? (KeyedTable.get?_of_mem_rows hbar)
  exact ⟨harrival, harrival.followsEventTime⟩

/-! ### Out of order -/

def earlyTick : Tick .postgres :=
  ⟨Str.ofString "BTC-USD", ⟨1767268830000000, some 0⟩, 101, soundTick.fits, soundTick.dated⟩

def lateTick : Tick .postgres :=
  ⟨Str.ofString "BTC-USD", ⟨1767268845000000, some 0⟩, 111, by decide +kernel,
    by decide +kernel⟩

def earlyQuote : Event :=
  quoteEvent 0 "BTC-USD" "binance" "100" "102" "2026-01-01T12:00:30+00:00"

def lateQuote : Event :=
  quoteEvent 0 "BTC-USD" "kraken" "110" "112" "2026-01-01T12:00:45+00:00"

theorem tickOf_earlyQuote : tickOf .postgres btcEnv earlyQuote = some earlyTick :=
  tickOf_quoteEvent (b := 100) (a := 102) rfl (by decide) (by decide +kernel) (by decide +kernel)
    (by decide) rfl (by norm_num [earlyTick, btcEnv])

theorem tickOf_lateQuote : tickOf .postgres btcEnv lateQuote = some lateTick :=
  tickOf_quoteEvent (b := 110) (a := 112) rfl (by decide) (by decide +kernel) (by decide +kernel)
    (by decide) rfl (by norm_num [lateTick, btcEnv])

theorem ticksAt_same_minute {ts : List (Tick .postgres)} (hts : ∀ t ∈ ts, t = earlyTick ∨ t = lateTick) :
    ticksAt ts (lateTick.key .m1) = ts := by
  refine List.filter_eq_self.mpr fun t ht => decide_eq_true ?_
  rcases hts t ht with rfl | rfl <;> decide +kernel

theorem exists_minute_bar {events : List Event} {first : Tick .postgres} {rest : List (Tick .postgres)}
    (hticks : ticks .postgres btcEnv events = first :: rest)
    (hts : ∀ t ∈ first :: rest, t = earlyTick ∨ t = lateTick) :
    ∃ bar, (barsAfter .postgres btcEnv events).get? (lateTick.key .m1) = some bar ∧
      ticksAt (ticks .postgres btcEnv events) (lateTick.key .m1) = first :: rest ∧
      bar.open.value = (priceColumn .postgres).round first.mid := by
  have hat := ticksAt_same_minute hts
  rw [← hticks] at hat
  have hne : ticksAt (ticks .postgres btcEnv events) (lateTick.key .m1) ≠ [] := by
    rw [hat, hticks]
    exact List.cons_ne_nil _ _
  obtain ⟨bar, hbar⟩ := Option.isSome_iff_exists.mp (isSome_get?_barsAfter_iff.mpr hne)
  obtain ⟨t, ht, hopen⟩ := (followsArrival_of_get? hbar).open
  rw [hat, hticks] at ht
  obtain rfl := Option.some.inj ht
  exact ⟨bar, hbar, hat.trans hticks, hopen⟩

theorem round_early_ne_round_late :
    (priceColumn .postgres).round earlyTick.mid ≠ (priceColumn .postgres).round lateTick.mid := by
  have hearly : (priceColumn .postgres).round earlyTick.mid = 101 :=
    Engine.postgres.price.round_intCast 101
  have hlate : (priceColumn .postgres).round lateTick.mid = 111 :=
    Engine.postgres.price.round_intCast 111
  rw [hearly, hlate]
  norm_num

/-- Two valid quotes of one minute, delivered late first: the bar does not open with its earliest
tick, and it is not the bar the other order gives. -/
theorem late_first_breaks_event_time :
    (∀ e ∈ [lateQuote, earlyQuote], ∃ t, tickOf .postgres btcEnv e = some t ∧ t.ts.IsUtc) ∧
    (ticks .postgres btcEnv [lateQuote, earlyQuote]).Pairwise
      (fun t t' => t.ts.instant ≠ t'.ts.instant) ∧
    ∃ bar ∈ (barsAfter .postgres btcEnv [lateQuote, earlyQuote]).rows,
      ¬ bar.FollowsEventTime (ticksAt (ticks .postgres btcEnv [lateQuote, earlyQuote]) bar.key) ∧
      (barsAfter .postgres btcEnv [earlyQuote, lateQuote]).get? bar.key ≠ some bar := by
  have hlate : ticks .postgres btcEnv [lateQuote, earlyQuote] = [lateTick, earlyTick] := by
    simp only [ticks, List.filterMap_cons, tickOf_lateQuote, tickOf_earlyQuote, List.filterMap_nil]
  have hearly : ticks .postgres btcEnv [earlyQuote, lateQuote] = [earlyTick, lateTick] := by
    simp only [ticks, List.filterMap_cons, tickOf_lateQuote, tickOf_earlyQuote, List.filterMap_nil]
  obtain ⟨bar, hbar, hat, hopen⟩ := exists_minute_bar hlate (by simp)
  obtain ⟨bar', hbar', _, hopen'⟩ := exists_minute_bar hearly (by simp)
  have hkey := KeyedTable.key_of_get? hbar
  refine ⟨?_, ?_, bar, KeyedTable.mem_rows_of_get? hbar, ?_, ?_⟩
  · intro e he
    rcases List.mem_cons.mp he with rfl | he
    · exact ⟨lateTick, tickOf_lateQuote, by decide⟩
    · rw [List.mem_singleton.mp he]
      exact ⟨earlyTick, tickOf_earlyQuote, by decide⟩
  · rw [hlate]
    decide
  · rw [hkey, hat]
    rintro ⟨⟨t, ht, hvalue, hleast⟩, _⟩
    rcases List.mem_cons.mp ht with rfl | ht
    · exact absurd (hleast earlyTick (by simp)) (by decide)
    · rw [List.mem_singleton.mp ht] at hvalue
      exact round_early_ne_round_late (hvalue.symm.trans hopen)
  · rw [hkey, hbar']
    intro hsame
    rw [Option.some.inj hsame] at hopen'
    exact round_early_ne_round_late (hopen'.symm.trans hopen)

end Pricestream
