import Pricestream.Proof.Crossing
import Pricestream.Proof.Tasks.Partial

/-!
# Arbitrage and the staleness gate

The consolidated price of a round is computed from the quotes that are still fresh, the opportunity
from all of them: `consolidate` asks for the age of each quote, `detect_arbitrage` does not. When the
replies of a round are far enough apart, an opportunity is recorded on a venue that the consolidated
price has dropped. It is exactly then: the venues of every opportunity recorded are among the sources
of the consolidated price if, and only if, the widest crossing of each instrument is one of venues
that have a fresh quote.
-/

namespace Pricestream

open Library Python
open DateTime (Instant)

variable {db : Engine} {Venue : Type}

/-- The readings of the clock in the turn of an instrument, in the order in which they are taken. -/
def Round.readings (round : Round Venue) (symbol : Str) : List Instant :=
  (roundQuotes round symbol).map Quote.timestamp ++
    ((roundQuotes round symbol).zipIdx.filter fun (q, _) => isPositive q).map
      (fun (_, i) => round.clock.checked symbol i) ++
    [round.clock.priced symbol, round.clock.signalled symbol]

/-- Every opportunity recorded is one between sources of the consolidated price recorded with it. -/
def RestsOnTape (trace : List (Effect db Venue)) : Prop :=
  ∀ row, .insert (.arbitrage row) ∈ trace →
    (∃ price, .insert (.consolidated price) ∈ trace ∧ price.instrument = row.instrument) ∧
    ∀ price, .insert (.consolidated price) ∈ trace → price.instrument = row.instrument →
      row.buyVenue ∈ price.sources ∧ row.sellVenue ∈ price.sources

/-- The venue has a quote that is positive and fresh. -/
def HasFresh (round : Round Venue) (symbol : Str) (venue : Venue) : Prop :=
  ∃ i q, (roundQuotes round symbol)[i]? = some q ∧ q.source = venue ∧ isPositive q = true ∧
    isFresh round.maxAge (round.clock.checked symbol i) q = true

variable {round : Round Venue} {symbol : Str}

theorem arbitrageFits_of_store {arb : Arbitrage Venue} {row : ArbitrageOpportunity db Venue}
    (h : storeArbitrage db round symbol arb = .ok row) : arb.Fits db := by
  obtain ⟨bps, hbps, hrow⟩ := bind_eq_ok.mp h
  exact exists_arbitrageOpportunity_iff.mp ⟨bps, row, hbps, hrow⟩

variable [LinearOrder Venue] {instruments : InstrumentTable}

/-- The round comes to the turn of the instrument, and the turn goes through. -/
def GoesThrough (db : Engine) (round : Round Venue) (instruments : InstrumentTable) (symbol : Str) :
    Prop :=
  (∀ symbol ∈ round.configured, Listable round.upper symbol) ∧
    ∃ front back, round.symbols instruments = front ++ symbol :: back ∧
      ∀ s ∈ front ++ [symbol], Undisturbed db round s

/-- Of all pairs of positive quotes that cross, the widest is between venues with a fresh quote. -/
def CrossIsFresh (round : Round Venue) (symbol : Str) : Prop :=
  ∀ arb, IsFirstBest Arbitrage.spread
      (opportunities round.ctx ((roundQuotes round symbol).filter isPositive)) arb →
    HasFresh round symbol arb.buyVenue ∧ HasFresh round symbol arb.sellVenue

/-! ### The rows written -/

theorem sources_eq_of_roundBook {c : Consolidated Venue} (h : roundBook round symbol = some c) :
    c.sources =
      sortedSources (candidates round.maxAge (round.clock.checked symbol) (roundQuotes round symbol)) := by
  rcases consolidate_cases round.ctx round.maxAge (round.clock.checked symbol)
    (roundQuotes round symbol) with ⟨_, hnone⟩ | ⟨q, rest, hcands, hsome⟩
  · cases hnone.symm.trans h
  · obtain rfl := Option.some.inj (hsome.symm.trans h)
    rw [hcands, sources_book]

theorem sources_of_roundBook {c : Consolidated Venue} (h : roundBook round symbol = some c)
    (venue : Venue) : venue ∈ c.sources ↔ HasFresh round symbol venue := by
  rw [sources_eq_of_roundBook h, mem_sortedSources]
  simp only [mem_candidates]
  constructor
  · intro ⟨q, ⟨i, hi, hpos, hfresh⟩, hvenue⟩
    exact ⟨i, q, hi, hvenue, hpos, hfresh⟩
  · intro ⟨i, q, hi, hvenue, hpos, hfresh⟩
    exact ⟨q, ⟨i, hi, hpos, hfresh⟩, hvenue⟩

theorem sources_of_price {price : ConsolidatedPrice db Venue}
    (h : .insert (.consolidated price) ∈ ((fetchQuotes round instruments).2 : Task db Venue Counts).trace)
    (venue : Venue) : venue ∈ price.sources ↔ HasFresh round price.instrument venue := by
  obtain ⟨c, hbook, hstore⟩ := price_of_mem h
  obtain ⟨_, _, _, _, _, _, heq⟩ := ConsolidatedPrice.create_eq_ok.mp hstore
  rw [← sources_of_roundBook hbook, heq]

theorem goesThrough_iff :
    GoesThrough db round instruments symbol ↔
      (∀ symbol ∈ round.configured, Listable round.upper symbol) ∧
        ∃ front instrument back counts,
          round.instruments (round.created instruments) = front ++ instrument :: back ∧
          instrument.symbol = symbol ∧ Undisturbed db round symbol ∧
          (Traced.loop (fetchInstrument round) ⟨0, 0, 0⟩ front : Task db Venue Counts).Returns counts := by
  refine and_congr_right fun _ => ⟨?_, ?_⟩
  · intro ⟨front, back, hsplit, hundisturbed⟩
    obtain ⟨frontRows, rest, hrows, rfl, hrest⟩ := List.map_eq_append_iff.mp hsplit
    obtain ⟨instrument, backRows, rfl, rfl, rfl⟩ := List.map_eq_cons_iff.mp hrest
    have hturns : ∀ row ∈ frontRows, Undisturbed db round row.symbol := fun row hrow =>
      hundisturbed _ (List.mem_append_left _ (List.mem_map_of_mem hrow))
    have hreturns := (Traced.runs_loop (fun row hrow counts =>
      runs_fetchInstrument (hturns row hrow) counts) ⟨0, 0, 0⟩).returns
    exact ⟨frontRows, instrument, backRows, _, hrows, rfl,
      hundisturbed _ (List.mem_append_right _ (List.mem_singleton_self _)), hreturns⟩
  · intro ⟨front, instrument, back, counts, hrows, hsymbol, hundisturbed, hreturns⟩
    refine ⟨front.map Instrument.symbol, back.map Instrument.symbol, ?_, fun s hs => ?_⟩
    · rw [Round.symbols, hrows, List.map_append, List.map_cons, hsymbol]
    · rcases List.mem_append.mp hs with hs | hs
      · obtain ⟨row, hrow, rfl⟩ := List.mem_map.mp hs
        exact returns_turns hreturns row hrow
      · rw [List.mem_singleton.mp hs]
        exact hundisturbed

theorem arbitrage_mem_iff {row : ArbitrageOpportunity db Venue} :
    .insert (.arbitrage row) ∈ ((fetchQuotes round instruments).2 : Task db Venue Counts).trace ↔
      GoesThrough db round instruments row.instrument ∧ (roundBook round row.instrument).isSome ∧
        ∃ arb, roundArbitrage round row.instrument = some arb ∧
          storeArbitrage db round row.instrument arb = .ok row := by
  rw [mem_fetchQuotes, goesThrough_iff]
  constructor
  · intro ⟨hlist, front, instrument, back, counts, hrows, hreturns, hw⟩
    rcases mem_fetchInstrument.mp hw with hpoll | ⟨haccepted, c, hbook, hw⟩
    · cases only_pollClients _ _ hpoll
    · rcases hw with hpublish | ⟨⟨hfits, hcalls⟩, arb, harb, hrecord⟩
      · obtain ⟨_, _, heq⟩ := mem_publishConsolidated.mp hpublish
        simp at heq
      · obtain ⟨row', hrow, heq⟩ := mem_recordArbitrage.mp hrecord
        obtain rfl : row = row' := by simpa using heq
        have hlabel := (labels_of_storeArbitrage hrow).1
        rw [← hlabel] at hbook harb hrow haccepted hcalls
        have hundisturbed : Undisturbed db round row.instrument :=
          ⟨haccepted, ⟨fun c' hc' => Option.some.inj (hbook.symm.trans hc') ▸ hfits,
            fun _ => (roundArbitrage_eq_some_iff.mp harb).1, fun arb' _ harb' =>
              Option.some.inj (harb.symm.trans harb') ▸ arbitrageFits_of_store hrow⟩, fun _ => hcalls⟩
        exact ⟨⟨hlist, front, instrument, back, counts, hrows, hlabel.symm, hundisturbed, hreturns⟩,
          hbook ▸ rfl, arb, harb, hrow⟩
  · intro ⟨⟨hlist, front, instrument, back, counts, hrows, hlabel, hundisturbed, hreturns⟩, hsome, arb,
      harb, hrow⟩
    obtain ⟨c, hbook⟩ := Option.isSome_iff_exists.mp hsome
    refine ⟨hlist, front, instrument, back, counts, hrows, hreturns, mem_fetchInstrument.mpr (Or.inr ?_)⟩
    rw [hlabel]
    refine ⟨hundisturbed.accepted, c, hbook, Or.inr ⟨⟨hundisturbed.rowsFit.book c hbook,
      hundisturbed.callsSucceed hsome⟩, arb, harb, ?_⟩⟩
    exact mem_recordArbitrage.mpr ⟨row, hrow, Or.inl rfl⟩

theorem exists_price_of_goesThrough {c : Consolidated Venue}
    (h : GoesThrough db round instruments symbol) (hbook : roundBook round symbol = some c) :
    ∃ price, .insert (.consolidated price) ∈
        ((fetchQuotes round instruments).2 : Task db Venue Counts).trace ∧
      price.instrument = symbol := by
  obtain ⟨hlist, front, instrument, back, counts, hrows, rfl, hundisturbed, hreturns⟩ :=
    goesThrough_iff.mp h
  obtain ⟨price, hprice⟩ : ∃ price, storeBook db round instrument.symbol c = .ok price :=
    exists_consolidatedPrice_iff.mpr (hundisturbed.rowsFit.book c hbook)
  refine ⟨price, mem_fetchQuotes.mpr ⟨hlist, front, instrument, back, counts, hrows, hreturns, ?_⟩,
    label_of_storeBook hprice⟩
  refine mem_fetchInstrument.mpr (Or.inr ⟨hundisturbed.accepted, c, hbook, Or.inl ?_⟩)
  exact mem_publishConsolidated.mpr ⟨price, hprice, Or.inl rfl⟩

/-! ### When opportunities rest on the tape -/

/-- **Opportunities and the staleness gate.** -/
theorem rests_on_tape_iff (db : Engine) (round : Round Venue) (instruments : InstrumentTable) :
    RestsOnTape ((fetchQuotes round instruments).2 : Task db Venue Counts).trace ↔
      ∀ symbol, GoesThrough db round instruments symbol → HasCandidate round symbol →
        CrossIsFresh round symbol := by
  constructor
  · intro h symbol hgoes hcandidate arb hfirst
    have hsome := hasCandidate_iff.mp hcandidate
    obtain ⟨c, hbook⟩ := Option.isSome_iff_exists.mp hsome
    obtain ⟨_, _, _, _, _, _, _, hundisturbed, _⟩ := goesThrough_iff.mp hgoes
    have harb := roundArbitrage_eq_some_iff.mpr
      ⟨hundisturbed.rowsFit.mids hsome, firstBest_eq_some_iff.mpr hfirst⟩
    obtain ⟨bps, row, hbps, hrow⟩ := exists_arbitrageOpportunity_iff.mpr
      (hundisturbed.rowsFit.arbitrage arb hsome harb)
    have hstore : storeArbitrage db round symbol arb = .ok row := bind_eq_ok.mpr ⟨bps, hbps, hrow⟩
    obtain ⟨hlabel, hbuy, hsell⟩ := labels_of_storeArbitrage hstore
    subst hlabel
    obtain ⟨⟨price, hprice, hinstrument⟩, hall⟩ :=
      h row (arbitrage_mem_iff.mpr ⟨hgoes, hsome, arb, harb, hstore⟩)
    have hsources := sources_of_price hprice
    rw [← hbuy, ← hsell, ← hinstrument, ← hsources, ← hsources]
    exact hall price hprice hinstrument
  · intro h row hrow
    obtain ⟨hgoes, hsome, arb, harb, hstore⟩ := arbitrage_mem_iff.mp hrow
    obtain ⟨_, hbuy, hsell⟩ := labels_of_storeArbitrage hstore
    obtain ⟨c, hbook⟩ := Option.isSome_iff_exists.mp hsome
    obtain ⟨hbuyFresh, hsellFresh⟩ := h row.instrument hgoes (hasCandidate_iff.mpr hsome) arb
      (firstBest_isFirstBest (roundArbitrage_eq_some_iff.mp harb).2)
    refine ⟨exists_price_of_goesThrough hgoes hbook, fun price hprice hinstrument => ?_⟩
    have hsources := sources_of_price hprice
    rw [hsources, hsources, hinstrument, hbuy, hsell]
    exact ⟨hbuyFresh, hsellFresh⟩

/-! ### A slow venue -/

/-- The second venue replies 31 seconds after the first, and a quote lives for 30. -/
def slowRound : Round ℕ where
  ctx := .exact
  upper s := s
  collate a b := decide (a ≤ b)
  configured := [Str.ofString "BTC-USD"]
  maxAge := 30
  clients := [⟨0, fun _ => some (.finite 99, .finite 100)⟩, ⟨1, fun _ => some (.finite 105, .finite 106)⟩]
  clock := ⟨fun _ i => if i = 0 then 0 else 31000000, fun _ _ => 31000000, fun _ => 31000000,
    fun _ => 31000000⟩
  hasLayer := true
  side _ := none

/-- The opportunity buys on the first venue, and the consolidated price comes from the second alone. -/
theorem slow_venue_off_tape :
    ((slowRound.symbols KeyedTable.empty).flatMap slowRound.readings).Pairwise (· ≤ ·) ∧
    ¬ RestsOnTape ((fetchQuotes slowRound KeyedTable.empty).2 : Task .postgres ℕ Counts).trace := by
  have hbuy : (((fetchQuotes slowRound KeyedTable.empty).2 :
      Task .postgres ℕ Counts).trace.filterMap Effect.arbitrageRow?).map
        (fun row => (row.instrument, row.buyVenue)) = [(Str.ofString "BTC-USD", 0)] := by decide +kernel
  have hsources : (((fetchQuotes slowRound KeyedTable.empty).2 :
      Task .postgres ℕ Counts).trace.filterMap Effect.consolidatedRow?).map
        ConsolidatedPrice.sources = [[1]] := by decide +kernel
  refine ⟨by decide +kernel, fun h => ?_⟩
  obtain ⟨row, hrow, hlabel⟩ := List.mem_map.mp (hbuy ▸ List.mem_singleton_self _)
  have hw := Effect.mem_arbitrageRows.mp hrow
  obtain ⟨⟨price, hprice, hinstrument⟩, hall⟩ := h row hw
  have hmem : price.sources ∈ [[1]] := hsources ▸ List.mem_map_of_mem
    (Effect.mem_consolidatedRows.mpr hprice)
  have hbuyMem := (hall price hprice hinstrument).1
  rw [List.mem_singleton.mp hmem, (Prod.mk.inj hlabel).2] at hbuyMem
  exact absurd hbuyMem (by decide)

end Pricestream
