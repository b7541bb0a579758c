import Pricestream.Listing
import Pricestream.Proof.Ohlc.Refinement

/-!
# Reading the bars while they are built

A client that follows the pages of an instrument's bars reads a table the consumer keeps adding to. A
bar never goes away, and its bucket never changes; it only takes up more ticks. So the client is shown
every bar there was when it asked for the first page, as it was then or with more ticks in it.
-/

namespace Pricestream

open Library Python
open DateTime (Instant)

variable {db : Engine}

/-! ### Bars that take up ticks -/

/-- The second bar is the first one with more ticks in it. -/
structure OHLCBar.Extends (bar bar' : OHLCBar db) : Prop where
  key : bar'.key = bar.key
  «open» : bar'.open.value = bar.open.value
  high : bar.high.value ≤ bar'.high.value
  low : bar'.low.value ≤ bar.low.value
  tickCount : bar.tickCount ≤ bar'.tickCount

theorem OHLCBar.Extends.refl (bar : OHLCBar db) : bar.Extends bar :=
  ⟨rfl, rfl, le_rfl, le_rfl, le_rfl⟩

theorem OHLCBar.Extends.trans {a b c : OHLCBar db} (hab : a.Extends b) (hbc : b.Extends c) :
    a.Extends c where
  key := hbc.key.trans hab.key
  «open» := hbc.open.trans hab.open
  high := hab.high.trans hbc.high
  low := hbc.low.trans hab.low
  tickCount := hab.tickCount.trans hbc.tickCount

/-- Rounding a maximum with a number that is on the grid leaves that number below. -/
theorem extends_rebuildBar (bar : OHLCBar db) (hit : Tick db × Interval) :
    bar.Extends (rebuildBar (some bar) hit) where
  key := rfl
  «open» := rfl
  high := by
    show bar.high.value ≤ (priceColumn db).round (max bar.high.value hit.1.mid)
    calc bar.high.value = (priceColumn db).round bar.high.value := bar.high.rounded.symm
      _ ≤ (priceColumn db).round (max bar.high.value hit.1.mid) := db.price.mono (le_max_left _ _)
  low := by
    show (priceColumn db).round (min bar.low.value hit.1.mid) ≤ bar.low.value
    calc (priceColumn db).round (min bar.low.value hit.1.mid)
        ≤ (priceColumn db).round bar.low.value := db.price.mono (min_le_left _ _)
      _ = bar.low.value := bar.low.rounded
  tickCount := Nat.le_succ _

/-- Every bar of the first table is extended by the bar of its key in the second. -/
def Grows (bars bars' : BarTable db) : Prop :=
  ∀ key bar, bars.get? key = some bar → ∃ bar', bars'.get? key = some bar' ∧ bar.Extends bar'

theorem Grows.refl (bars : BarTable db) : Grows bars bars := fun _ bar h => ⟨bar, h, .refl bar⟩

theorem Grows.trans {a b c : BarTable db} (hab : Grows a b) (hbc : Grows b c) : Grows a c := by
  intro key bar h
  obtain ⟨bar₁, h₁, hextends₁⟩ := hab key bar h
  obtain ⟨bar₂, h₂, hextends₂⟩ := hbc key bar₁ h₁
  exact ⟨bar₂, h₂, hextends₁.trans hextends₂⟩

theorem grows_hitBar (bars : BarTable db) (hit : Tick db × Interval) : Grows bars (hitBar bars hit) := by
  intro key bar h
  have hget : (hitBar bars hit).get? key =
      if hitKey hit = key then some (rebuildBar (bars.get? (hitKey hit)) hit) else bars.get? key := by
    rw [hitBar, KeyedTable.amend, KeyedTable.get?_upsert, key_rebuildBar]
  rw [hget]
  by_cases hkey : hitKey hit = key
  · subst hkey
    rw [if_pos rfl, h]
    exact ⟨_, rfl, extends_rebuildBar bar hit⟩
  · rw [if_neg hkey]
    exact ⟨bar, h, .refl bar⟩

theorem grows_applyTick (bars : BarTable db) (t : Tick db) : Grows bars (applyTick bars t) := by
  rw [applyTick]
  generalize intervals = is
  induction is generalizing bars with
  | nil => exact .refl bars
  | cons interval is ih => exact (grows_hitBar bars (t, interval)).trans (ih _)

/-- **The consumer only ever adds to the bars.** -/
theorem grows_handleEvents (env : Env) (events : List Event) (bars : BarTable db) :
    Grows bars (handleEvents env events bars) := by
  rw [handleEvents_eq]
  induction events.filterMap (tickOf db env) generalizing bars with
  | nil => exact .refl bars
  | cons t ts ih => exact (grows_applyTick bars t).trans (ih _)

/-! ### What a request shows -/

section Requests

variable {symbol : Str} {interval : Interval} {bars bars' : BarTable db} {order : BarOrder}

def barData (bar : OHLCBar db) : OHLCBarData where
  instrument := bar.key.instrument
  interval := bar.key.interval
  bucketStart := bar.key.bucketStart
  «open» := bar.open.value
  high := bar.high.value
  low := bar.low.value
  close := bar.close.value
  volume := bar.volume.value
  tickCount := bar.tickCount

theorem serializeOHLCBar_eq (bar : OHLCBar db) : serializeOHLCBar bar = .ok (barData bar) := by
  simp only [serializeOHLCBar, toRepresentation_price, bind, Except.bind]
  rfl

theorem ofValue_value (interval : Interval) : Interval.ofValue interval.value = some interval := by
  cases interval <;> decide

theorem queryParam_value (interval : Interval) :
    queryParam (some interval.value) = some interval.value := by
  cases interval <;> rfl

theorem mapM_textParam_eq_ok {found : Option Str} (h : (some symbol).mapM textParam = .ok found) :
    found = some symbol := by
  obtain ⟨text, htext, hfound⟩ := bind_eq_ok.mp h
  obtain rfl := eq_of_textParam htext
  exact (Except.ok.inj hfound).symm

theorem exists_page_of_listOhlc {arrangement : BarArrangement db order} {number : ℕ}
    {page : Page OHLCBarData} (hsymbol : symbol ≠ [])
    (h : listOhlc arrangement (some symbol) (some interval.value) number bars bars' = .ok (.data page)) :
    ∃ rows : Page (OHLCBar db), paginate pageSize number
        (ohlcBars (some symbol) (some interval) bars).length
        (arrangement.arrange (ohlcBars (some symbol) (some interval) bars')) = some rows ∧
      page = rows.map barData := by
  have hparam : queryParam (some symbol) = some symbol := by
    cases symbol with
    | nil => exact absurd rfl hsymbol
    | cons c symbol => rfl
  rw [listOhlc, queryParam_value, hparam, Option.map_some, ofValue_value] at h
  obtain ⟨found, hfound, h⟩ := bind_eq_ok.mp h
  obtain rfl : found = some symbol := mapM_textParam_eq_ok hfound
  dsimp only [Option.join_some] at h
  split at h
  · cases h
  · rename_i rows hrows
    rw [mapM_eq_ok fun bar _ => serializeOHLCBar_eq bar] at h
    refine ⟨rows, hrows, ?_⟩
    cases h
    rfl

/-! ### Reading through -/

theorem mem_ohlcBars {bar : OHLCBar db} :
    bar ∈ ohlcBars (some symbol) (some interval) bars ↔
      bar ∈ bars.rows ∧ bar.key.instrument = symbol ∧ bar.key.interval = interval := by
  simp [ohlcBars]

theorem score_injective {bar bar' : OHLCBar db} (hinstrument : bar.key.instrument = bar'.key.instrument)
    (hinterval : bar.key.interval = bar'.key.interval) (hscore : order.score bar = order.score bar') :
    bar.key = bar'.key := by
  have hstart : bar.key.bucketStart = bar'.key.bucketStart := by
    cases order with
    | bucketStart => exact hscore
    | minusBucketStart => exact neg_injective hscore
  obtain ⟨key, _⟩ := bar
  obtain ⟨key', _⟩ := bar'
  cases key
  cases key'
  simp_all

theorem score_of_key {bar bar' : OHLCBar db} (h : bar'.key = bar.key) :
    order.score bar' = order.score bar := by
  cases order with
  | bucketStart => exact congrArg BarKey.bucketStart h
  | minusBucketStart => exact congrArg (fun key => -key.bucketStart) h

/-- The bars of one instrument and interval have different scores, and none goes away. -/
theorem scores_subperm (h : ∀ key, (bars.get? key).isSome → (bars'.get? key).isSome) (order : BarOrder) :
    ((ohlcBars (some symbol) (some interval) bars).map order.score).Subperm
      ((ohlcBars (some symbol) (some interval) bars').map order.score) := by
  apply List.subperm_of_subset
  · refine List.Nodup.map_on (fun bar hbar bar' hbar' hscore => ?_) ?_
    · obtain ⟨hrow, hinstrument, hinterval⟩ := mem_ohlcBars.mp hbar
      obtain ⟨hrow', hinstrument', hinterval'⟩ := mem_ohlcBars.mp hbar'
      refine List.inj_on_of_nodup_map bars.unique hrow hrow' ?_
      exact score_injective (hinstrument.trans hinstrument'.symm) (hinterval.trans hinterval'.symm) hscore
    · exact (List.Nodup.of_map _ bars.unique).filter _
  · intro x hx
    obtain ⟨bar, hbar, rfl⟩ := List.mem_map.mp hx
    obtain ⟨hrow, hinstrument, hinterval⟩ := mem_ohlcBars.mp hbar
    obtain ⟨bar', hget⟩ := Option.isSome_iff_exists.mp
      (h bar.key (KeyedTable.mem_keys_iff.mp (List.mem_map_of_mem hrow)))
    have hkey := KeyedTable.key_of_get? hget
    refine List.mem_map.mpr ⟨bar', mem_ohlcBars.mpr ⟨KeyedTable.mem_rows_of_get? hget, ?_⟩, ?_⟩
    · rw [hkey]
      exact ⟨hinstrument, hinterval⟩
    · exact score_of_key hkey

end Requests

/-- A client that follows the pages of the bars while the consumer handles events: each request counts
one table and reads another. -/
structure ReadsBars (order : BarOrder) (symbol interval : Option Str) (counted fetched : ℕ → BarTable db)
    (pages : ℕ → Page OHLCBarData) (last : ℕ) : Prop where
  answer : ∀ k ≤ last, ∃ arrangement : BarArrangement db order,
    listOhlc arrangement symbol interval (k + 1) (counted k) (fetched k) = .ok (.data (pages k))
  next : ∀ k < last, (pages k).hasNext = true
  stop : (pages last).hasNext = false
  consumed : ∀ k ≤ last, ∃ env events, fetched k = handleEvents env events (counted k)
  consumed_next : ∀ k < last, ∃ env events, counted (k + 1) = handleEvents env events (fetched k)
  /-- No bar is created between the two queries of the last request. -/
  still : ∀ key, ((fetched last).get? key).isSome → ((counted last).get? key).isSome

section Reader

variable {order : BarOrder} {symbol : Str} {interval : Interval} {counted fetched : ℕ → BarTable db}
  {pages : ℕ → Page OHLCBarData} {last : ℕ}

theorem grows_of_consumed {bars bars' : BarTable db}
    (h : ∃ env events, bars' = handleEvents env events bars) : Grows bars bars' := by
  obtain ⟨env, events, rfl⟩ := h
  exact grows_handleEvents env events bars

theorem Grows.isSome {bars bars' : BarTable db} (h : Grows bars bars') {key : BarKey}
    (hkey : (bars.get? key).isSome) : (bars'.get? key).isSome := by
  obtain ⟨bar, hbar⟩ := Option.isSome_iff_exists.mp hkey
  obtain ⟨bar', hbar', _⟩ := h key bar hbar
  exact hbar' ▸ rfl

theorem ReadsBars.grows (h : ReadsBars order (some symbol) (some interval.value) counted fetched pages last) :
    ∀ k ≤ last, Grows (counted 0) (fetched k) := by
  intro k
  induction k with
  | zero => exact fun hk => grows_of_consumed (h.consumed 0 hk)
  | succ k ih =>
      intro hk
      exact ((ih (by omega)).trans (grows_of_consumed (h.consumed_next k hk))).trans
        (grows_of_consumed (h.consumed (k + 1) hk))

/-- **A client that follows the pages misses no bar.** -/
theorem reader_misses_no_bar (hsymbol : symbol ≠ [])
    (h : ReadsBars order (some symbol) (some interval.value) counted fetched pages last)
    {bar : OHLCBar db} (hbar : bar ∈ (counted 0).rows) (hinstrument : bar.key.instrument = symbol)
    (hinterval : bar.key.interval = interval) :
    ∃ k ≤ last, ∃ bar', barData bar' ∈ (pages k).results ∧ bar.Extends bar' := by
  have hanswer : ∀ k, ∃ rows : Page (OHLCBar db), k ≤ last →
      (∃ s : BarArrangement db order, paginate pageSize (k + 1)
        (ohlcBars (some symbol) (some interval) (counted k)).length
        (s.arrange (ohlcBars (some symbol) (some interval) (fetched k))) = some rows) ∧
      pages k = rows.map barData := by
    intro k
    by_cases hk : k ≤ last
    · obtain ⟨s, hs⟩ := h.answer k hk
      obtain ⟨rows, hrows, hpage⟩ := exists_page_of_listOhlc hsymbol hs
      exact ⟨rows, fun _ => ⟨⟨s, hrows⟩, hpage⟩⟩
    · exact ⟨⟨0, false, false, []⟩, fun hk' => absurd hk' hk⟩
  choose rows hrows using hanswer
  have hread : ReadThrough pageSize order.score
      (fun k => ohlcBars (some symbol) (some interval) (counted k))
      (fun k => ohlcBars (some symbol) (some interval) (fetched k)) rows last := by
    constructor
    case answer => exact fun k hk => (hrows k hk).1
    case next =>
      intro k hk
      have hnext := h.next k hk
      rwa [(hrows k hk.le).2] at hnext
    case stop =>
      have hstop := h.stop
      rwa [(hrows last le_rfl).2] at hstop
    case grows =>
      exact fun k hk => scores_subperm (fun _ => (grows_of_consumed (h.consumed k hk)).isSome) order
    case grows_next =>
      exact fun k hk => scores_subperm (fun _ => (grows_of_consumed (h.consumed_next k hk)).isSome) order
    case still =>
      have hsub : ((ohlcBars (some symbol) (some interval) (fetched last)).map order.score).Subperm
          ((ohlcBars (some symbol) (some interval) (counted last)).map order.score) :=
        scores_subperm h.still order
      have hlength := hsub.length_le
      rwa [List.length_map, List.length_map] at hlength
  have hmem : order.score bar ∈
      (ohlcBars (some symbol) (some interval) (counted 0)).map order.score :=
    List.mem_map_of_mem (mem_ohlcBars.mpr ⟨hbar, hinstrument, hinterval⟩)
  obtain ⟨k, hk, bar', hbar', hscore⟩ := hread.exists_seen (by decide) hmem
  obtain ⟨⟨s, hs⟩, hpage⟩ := hrows k hk
  refine ⟨k, hk, bar', hpage ▸ List.mem_map_of_mem hbar', ?_⟩
  -- The bar of that score is the bar of the key, and the table has grown.
  obtain ⟨hrow', hinstrument', hinterval'⟩ :=
    mem_ohlcBars.mp (s.mem_arrange.mp (subset_of_paginate hs hbar'))
  have hkey : bar'.key = bar.key := score_injective (hinstrument'.trans hinstrument.symm)
    (hinterval'.trans hinterval.symm) hscore
  obtain ⟨bar'', hget, hextends⟩ := h.grows k hk bar.key bar (KeyedTable.get?_of_mem_rows hbar)
  obtain rfl : bar' = bar'' := by
    have hget' := KeyedTable.get?_of_mem_rows hrow'
    rw [hkey, hget] at hget'
    exact (Option.some.inj hget').symm
  exact hextends

end Reader

/-! ### Two pages -/

/-- The page of an answer with data. -/
def pageOf {α : Type} : Except Exc (Response (Page α)) → Option (Page α)
  | .ok (.data page) => some page
  | .ok (.refused _ _) | .error _ => none

theorem exists_page_of_any {α : Type} {answer : Except Exc (Response (Page α))} {p : Page α → Bool}
    (h : (pageOf answer).any p = true) : ∃ page, answer = .ok (.data page) ∧ p page = true := by
  obtain ⟨page, hpage, hp⟩ := (Option.any_eq_true p _).mp h
  refine ⟨page, ?_, hp⟩
  cases answer with
  | error e => cases hpage
  | ok response =>
      cases response with
      | data found => exact congrArg (Except.ok ∘ Response.data) (Option.some.inj hpage)
      | refused status detail => cases hpage

/-- The database sorts by the latest bucket first, and leaves bars of one bucket as they are. -/
def latestFirst : BarArrangement .postgres .minusBucketStart :=
  .stable _ (fun _ _ _ => le_trans) fun _ _ => le_total _ _

/-- A quote of some minute: without a timestamp it is of the moment it is read at. -/
def minuteQuote (i : ℕ) : Event := quoteEvent (60000000 * i) "BTC-USD" "kraken" "100" "102" ""

/-- A quote of each of the first minutes. -/
def minuteBars : ℕ → BarTable .postgres
  | 0 => KeyedTable.empty
  | n + 1 => handleEvents btcEnv [minuteQuote n] (minuteBars n)

/-- Another quote of the last minute. -/
def lastBars : BarTable .postgres := handleEvents btcEnv [minuteQuote 52] (minuteBars 53)

/-- A minute begins between the two queries of the first request and another one before the second, and
a bar takes up a tick between the queries of that. -/
theorem readsBars_minuteBars : ∃ pages : ℕ → Page OHLCBarData,
    ReadsBars .minusBucketStart (some (Str.ofString "BTC-USD")) (some Interval.m1.value)
      (atFirst (minuteBars 51) (minuteBars 53)) (atFirst (minuteBars 52) lastBars) pages 1 := by
  -- Everything in one evaluation of the tables.
  have hpages : (pageOf (listOhlc latestFirst (some (Str.ofString "BTC-USD")) (some Interval.m1.value) 1
        (minuteBars 51) (minuteBars 52))).any Page.hasNext = true ∧
      (pageOf (listOhlc latestFirst (some (Str.ofString "BTC-USD")) (some Interval.m1.value) 2
        (minuteBars 53) lastBars)).any (fun page => !page.hasNext) = true ∧
      lastBars.rows.map OHLCBar.key = (minuteBars 53).rows.map OHLCBar.key := by
    decide +kernel
  obtain ⟨hfirst, hsecond, hkeys⟩ := hpages
  obtain ⟨page, hpage, hnext⟩ := exists_page_of_any hfirst
  obtain ⟨page', hpage', hstop⟩ := exists_page_of_any hsecond
  refine ⟨atFirst page page', ?_⟩
  constructor
  case answer =>
    intro k hk
    obtain rfl | rfl : k = 0 ∨ k = 1 := by omega
    · rw [atFirst_zero, atFirst_zero, atFirst_zero]
      exact ⟨latestFirst, hpage⟩
    · rw [atFirst_one, atFirst_one, atFirst_one]
      exact ⟨latestFirst, hpage'⟩
  case next =>
    intro k hk
    obtain rfl := Nat.lt_one_iff.mp hk
    exact hnext
  case stop => simpa using hstop
  case consumed =>
    intro k hk
    obtain rfl | rfl : k = 0 ∨ k = 1 := by omega
    · rw [atFirst_zero, atFirst_zero]
      exact ⟨btcEnv, [minuteQuote 51], rfl⟩
    · rw [atFirst_one, atFirst_one]
      exact ⟨btcEnv, [minuteQuote 52], rfl⟩
  case consumed_next =>
    intro k hk
    obtain rfl := Nat.lt_one_iff.mp hk
    rw [atFirst_one, atFirst_zero]
    exact ⟨btcEnv, [minuteQuote 52], rfl⟩
  case still =>
    intro key
    rw [atFirst_one, atFirst_one, ← KeyedTable.mem_keys_iff, ← KeyedTable.mem_keys_iff, hkeys]
    exact id

/-- The first page shows fifty bars, and by the second request there are two bars more. -/
theorem reader_misses_no_minuteBar : ∃ pages : ℕ → Page OHLCBarData,
    ReadsBars .minusBucketStart (some (Str.ofString "BTC-USD")) (some Interval.m1.value)
      (atFirst (minuteBars 51) (minuteBars 53)) (atFirst (minuteBars 52) lastBars) pages 1 ∧
    ((minuteBars 51).rows.filter fun bar => bar.key.interval = .m1).length = 51 ∧
    ∀ bar ∈ (minuteBars 51).rows, bar.key.interval = .m1 →
      ∃ k ≤ 1, ∃ bar', barData bar' ∈ (pages k).results ∧ bar.Extends bar' := by
  have hrows : ((minuteBars 51).rows.all fun bar =>
        bar.key.instrument = Str.ofString "BTC-USD") = true ∧
      ((minuteBars 51).rows.filter fun bar => bar.key.interval = .m1).length = 51 := by
    decide +kernel
  obtain ⟨hinstrument, hlength⟩ := hrows
  obtain ⟨pages, hread⟩ := readsBars_minuteBars
  refine ⟨pages, hread, hlength, fun bar hbar hinterval => ?_⟩
  have hsymbol := List.all_eq_true.mp hinstrument bar hbar
  exact reader_misses_no_bar (by decide) hread hbar (of_decide_eq_true hsymbol) hinterval

end Pricestream
