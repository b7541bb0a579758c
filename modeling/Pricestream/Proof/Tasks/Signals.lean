import Pricestream.Proof.Arbitrage
import Pricestream.Proof.Tasks.Published
import Pricestream.Proof.Tasks.Staleness

/-!
# What an opportunity on file says

The scan compares and subtracts the prices in memory, and then each of the three columns rounds its own
number. What is on file is ordered the way the prices were, but no longer strictly: a crossing thinner
than the last decimal place is stored as two equal prices, and its spread as zero. Between columns that
round to the nearest, the spread on file is at most one unit of the last place away from the difference
of the prices on file, and it is the difference when the venues quote ten decimal places.
-/

namespace Pricestream

open Library Python

variable {db : Engine} {Venue : Type}

/-- The row could be traded on as it stands. -/
structure SelfConsistent (row : ArbitrageOpportunity db Venue) : Prop where
  venues : row.buyVenue ≠ row.sellVenue
  buyPrice_pos : 0 < row.buyPrice.value
  crosses : row.buyPrice.value < row.sellPrice.value
  spread : row.spread.value = row.sellPrice.value - row.buyPrice.value

/-- What rounding leaves of that. -/
structure NearlyConsistent (row : ArbitrageOpportunity db Venue) : Prop where
  venues : row.buyVenue ≠ row.sellVenue
  buyPrice_nonneg : 0 ≤ row.buyPrice.value
  ordered : row.buyPrice.value ≤ row.sellPrice.value
  spread_nonneg : 0 ≤ row.spread.value
  spread_near : db.price.IsNearest →
    |row.spread.value - (row.sellPrice.value - row.buyPrice.value)| ≤ 1 / 10 ^ 10

/-- The row shows buying on one quote and selling on another, each number in its column. -/
structure Records (ctx : Context) (row : ArbitrageOpportunity db Venue) (buy sell : Quote Venue) :
    Prop where
  admissible : Admissible buy sell
  buyVenue : row.buyVenue = buy.source
  sellVenue : row.sellVenue = sell.source
  buyPrice : row.buyPrice.value = (priceColumn db).round buy.ask
  sellPrice : row.sellPrice.value = (priceColumn db).round sell.bid
  spread : row.spread.value = (priceColumn db).round (ctx.sub sell.bid buy.ask)
  spread_pos : 0 < ctx.sub sell.bid buy.ask

/-! ### From the scan to the row -/

theorem prices_of_storeArbitrage {round : Round Venue} {symbol : Str} {arb : Arbitrage Venue}
    {row : ArbitrageOpportunity db Venue} (h : storeArbitrage db round symbol arb = .ok row) :
    row.buyPrice.value = (priceColumn db).round arb.buyPrice ∧
      row.sellPrice.value = (priceColumn db).round arb.sellPrice ∧
      row.spread.value = (priceColumn db).round arb.spread := by
  obtain ⟨_, _, h⟩ := bind_eq_ok.mp h
  obtain ⟨_, hbuy, h⟩ := bind_eq_ok.mp h
  obtain ⟨_, hsell, h⟩ := bind_eq_ok.mp h
  obtain ⟨_, hspread, h⟩ := bind_eq_ok.mp h
  obtain ⟨_, _, h⟩ := bind_eq_ok.mp h
  obtain rfl := Except.ok.inj h
  exact ⟨writeDecimal_value hbuy, writeDecimal_value hsell, writeDecimal_value hspread⟩

variable [LinearOrder Venue] {round : Round Venue} {instruments : InstrumentTable}
  {row : ArbitrageOpportunity db Venue}

theorem exists_records
    (h : .insert (.arbitrage row) ∈ ((fetchQuotes round instruments).2 : Task db Venue Counts).trace) :
    ∃ buy ∈ roundQuotes round row.instrument, ∃ sell ∈ roundQuotes round row.instrument,
      Records round.ctx row buy sell ∧ (priceColumn db).Fits sell.bid := by
  obtain ⟨_, _, arb, harb, hstore⟩ := arbitrage_mem_iff.mp h
  have hfits := arbitrageFits_of_store hstore
  obtain ⟨_, hbuyVenue, hsellVenue⟩ := labels_of_storeArbitrage hstore
  obtain ⟨hbuyPrice, hsellPrice, hspread⟩ := prices_of_storeArbitrage hstore
  have hmem := (firstBest_isFirstBest (roundArbitrage_eq_some_iff.mp harb).2).mem
  obtain ⟨buy, hbuy, sell, hsell, hpair⟩ := mem_opportunities.mp hmem
  obtain ⟨hbuy, hbuyPos⟩ := List.mem_filter.mp hbuy
  obtain ⟨hsell, hsellPos⟩ := List.mem_filter.mp hsell
  obtain ⟨hvenues, hpos, rfl⟩ := crossingOf_eq_some_iff.mp hpair
  refine ⟨buy, hbuy, sell, hsell, ?_, hfits.sellPrice⟩
  exact
    { admissible := ⟨isPositive_iff.mp hbuyPos, isPositive_iff.mp hsellPos, hvenues, lt_of_sub_pos hpos⟩
      buyVenue := hbuyVenue
      sellVenue := hsellVenue
      buyPrice := hbuyPrice
      sellPrice := hsellPrice
      spread := hspread
      spread_pos := hpos }

/-! ### What the row says -/

section Row

omit [LinearOrder Venue]

variable {ctx : Context} {buy sell : Quote Venue}

theorem abs_sub_sub_lt (hctx : ctx = .exact ∨ ctx = .default) {x y : ℚ} (h : |x - y| < 10 ^ 15) :
    |ctx.sub x y - (x - y)| < 1 / (2 * 10 ^ 10) := by
  rcases hctx with rfl | rfl
  · rw [Context.exact_sub, sub_self]
    norm_num
  · exact Context.abs_default_round_sub_lt h

theorem Records.spread_near (h : Records ctx row buy sell) (hctx : ctx = .exact ∨ ctx = .default)
    (hfits : (priceColumn db).Fits sell.bid) (hnearest : db.price.IsNearest) :
    |row.spread.value - (row.sellPrice.value - row.buyPrice.value)| ≤ 1 / 10 ^ 10 := by
  have hask := h.admissible.buy_pos.2
  have hcross := h.admissible.crosses
  have hlimit : (priceColumn db).round sell.bid < 10 ^ 14 := (abs_lt.mp hfits).2
  have hround : sell.bid ≤ (priceColumn db).round sell.bid + 1 / (2 * 10 ^ 10) := by
    have hlow : -(1 / (2 * 10 ^ 10)) ≤ (priceColumn db).round sell.bid - sell.bid :=
      (abs_le.mp (hnearest sell.bid)).1
    linarith
  have hsmall : |sell.bid - buy.ask| < 10 ^ 15 := by
    rw [abs_of_pos (sub_pos.mpr hcross)]
    linarith
  rw [h.spread, h.sellPrice, h.buyPrice]
  exact hnearest.sub_le (abs_sub_sub_lt hctx hsmall)

theorem Records.nearlyConsistent (h : Records ctx row buy sell)
    (hctx : ctx = .exact ∨ ctx = .default) (hfits : (priceColumn db).Fits sell.bid) :
    NearlyConsistent row where
  venues := by
    rw [h.buyVenue, h.sellVenue]
    exact h.admissible.venues
  buyPrice_nonneg := by
    rw [h.buyPrice]
    exact db.price.round_nonneg h.admissible.buy_pos.2.le
  ordered := by
    rw [h.buyPrice, h.sellPrice]
    exact db.price.mono h.admissible.crosses.le
  spread_nonneg := by
    rw [h.spread]
    exact db.price.round_nonneg h.spread_pos.le
  spread_near := h.spread_near hctx hfits

theorem Records.selfConsistent (h : Records ctx row buy sell)
    (hctx : ctx = .exact ∨ ctx = .default) (hbuy : ExactQuote db buy) (hsell : ExactQuote db sell) :
    SelfConsistent row := by
  obtain ⟨hsub, hround⟩ := sub_of_exact hctx hsell.1 hbuy.2
  have hbuyPrice : row.buyPrice.value = buy.ask := h.buyPrice.trans hbuy.2.1
  have hsellPrice : row.sellPrice.value = sell.bid := h.sellPrice.trans hsell.1.1
  constructor
  · rw [h.buyVenue, h.sellVenue]
    exact h.admissible.venues
  · rw [hbuyPrice]
    exact h.admissible.buy_pos.2
  · rw [hbuyPrice, hsellPrice]
    exact h.admissible.crosses
  · rw [h.spread, hsub, hround, hbuyPrice, hsellPrice]

end Row

theorem isNearest_postgres : Engine.postgres.price.IsNearest := isNearest_halfAway 10

/-- **What an opportunity on file says.** -/
theorem recorded_arbitrage_rounds (hctx : round.ctx = .exact ∨ round.ctx = .default)
    (h : .insert (.arbitrage row) ∈ ((fetchQuotes round instruments).2 : Task db Venue Counts).trace) :
    NearlyConsistent row ∧
      (∃ buy ∈ roundQuotes round row.instrument, ∃ sell ∈ roundQuotes round row.instrument,
        Records round.ctx row buy sell) ∧
      ((∀ q ∈ roundQuotes round row.instrument, ExactQuote db q) → SelfConsistent row) := by
  obtain ⟨buy, hbuy, sell, hsell, hrecords, hfits⟩ := exists_records h
  refine ⟨hrecords.nearlyConsistent hctx hfits, ⟨buy, hbuy, sell, hsell, hrecords⟩, fun hexact => ?_⟩
  exact hrecords.selfConsistent hctx (hexact buy hbuy) (hexact sell hsell)

theorem crossedRound_selfConsistent :
    ∃ row, .insert (.arbitrage row) ∈
        ((fetchQuotes crossedRound KeyedTable.empty).2 : Task .postgres ℕ Counts).trace ∧
      SelfConsistent row := by
  have hrows : (((fetchQuotes crossedRound KeyedTable.empty).2 :
      Task .postgres ℕ Counts).trace.filterMap Effect.arbitrageRow?).map
        ArbitrageOpportunity.instrument = [Str.ofString "BTC-USD"] := by decide +kernel
  obtain ⟨row, hrow, hlabel⟩ := List.mem_map.mp (hrows ▸ List.mem_singleton_self _)
  have hw := Effect.mem_arbitrageRows.mp hrow
  refine ⟨row, hw, (recorded_arbitrage_rounds (Or.inl rfl) hw).2.2 ?_⟩
  rw [hlabel]
  decide +kernel

/-! ### A thin crossing -/

/-- The second venue bids four units of the eleventh decimal place more than the first one asks. -/
def thinRound : Round ℕ where
  ctx := .default
  upper s := s
  collate a b := decide (a ≤ b)
  configured := [Str.ofString "BTC-USD"]
  maxAge := 30
  clients := [⟨0, fun _ => some (.finite (1 / 2), .finite 1)⟩,
    ⟨1, fun _ => some (.finite (1 + 4 / 10 ^ 11), .finite 2)⟩]
  clock := ⟨fun _ _ => 0, fun _ _ => 0, fun _ => 0, fun _ => 0⟩
  hasLayer := true
  side _ := none

/-- On file, buying and selling cost the same and the spread is zero. -/
theorem thin_crossing_inconsistent :
    Accepted .postgres thinRound (Str.ofString "BTC-USD") ∧
    ∃ row, .insert (.arbitrage row) ∈
        ((fetchQuotes thinRound KeyedTable.empty).2 : Task .postgres ℕ Counts).trace ∧
      row.buyPrice.value = row.sellPrice.value ∧ row.spread.value = 0 ∧ ¬ SelfConsistent row := by
  have hrows : (((fetchQuotes thinRound KeyedTable.empty).2 :
      Task .postgres ℕ Counts).trace.filterMap Effect.arbitrageRow?).map
        (fun row => (row.buyPrice.value, row.sellPrice.value, row.spread.value)) = [(1, 1, 0)] := by
    decide +kernel
  obtain ⟨row, hrow, hfigures⟩ := List.mem_map.mp (hrows ▸ List.mem_singleton_self _)
  have hw := Effect.mem_arbitrageRows.mp hrow
  obtain ⟨hbuy, hrest⟩ := Prod.mk.inj hfigures
  obtain ⟨hsell, hspread⟩ := Prod.mk.inj hrest
  have hsame : row.buyPrice.value = row.sellPrice.value := hbuy.trans hsell.symm
  refine ⟨?_, row, hw, hsame, hspread, fun h => h.crosses.ne hsame⟩
  unfold Accepted
  decide +kernel

end Pricestream
