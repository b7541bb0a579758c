import Pricestream.Proof.Scan
import Pricestream.Proof.Units

/-!
# Consolidation and arbitrage detection agree on crossed books

`consolidate` calls a book crossed when the best bid exceeds the best ask; `detectArbitrage` scans all
ordered pairs of quotes, leaves out pairs of one venue, and compares the spreads it has rounded. Every
opportunity crosses the best prices, and if nothing is found, then all quotes whose spread is positive
belong to the venue that has both of the best prices. What rounding changes is that a spread may be
rounded away, and that two spreads may be rounded to the same number: then the opportunity found is not
the one at the best prices. Neither happens where the context computes spreads and mids exactly.
-/

namespace Pricestream

open Library Python
open DateTime (Instant)

variable {Venue : Type} {ctx : Context}

theorem lt_of_sub_pos {buy sell : Quote Venue} (h : 0 < ctx.sub sell.bid buy.ask) : buy.ask < sell.bid := by
  by_contra hle
  exact h.not_ge (ctx.round_nonpos (sub_nonpos.mpr (not_lt.mp hle)))

theorem relative_spread_le {ask bid bestAsk bestBid : ℚ} (hask : bestAsk ≤ ask) (hbid : bid ≤ bestBid)
    (hpos : 0 < bestAsk) (hbidPos : 0 < bid) :
    (bid - ask) / ((ask + bid) / 2) ≤ (bestBid - bestAsk) / ((bestAsk + bestBid) / 2) := by
  have hleft : 0 < (ask + bid) / 2 := by linarith
  have hright : 0 < (bestAsk + bestBid) / 2 := by linarith
  have hcross : bid * bestAsk ≤ bestBid * ask :=
    mul_le_mul hbid hask hpos.le (hbidPos.le.trans hbid)
  rw [div_le_div_iff₀ hleft hright]
  linarith

theorem bps_bounds {ask bid : ℚ} (hask : 0 < ask) (hlt : ask < bid) :
    0 < (bid - ask) / ((ask + bid) / 2) * 10000 ∧ (bid - ask) / ((ask + bid) / 2) * 10000 < 20000 := by
  have hwidth : 0 < bid - ask := sub_pos.mpr hlt
  have hmid : 0 < (ask + bid) / 2 := by linarith
  have hratio : (bid - ask) / ((ask + bid) / 2) < 2 := by
    rw [div_lt_iff₀ hmid]
    linarith
  constructor
  · positivity
  · linarith

/-! ### Against the best prices -/

/-- How what was found relates to the best prices of the quotes it was sought in. -/
structure Agrees (ctx : Context) (qs : List (Quote Venue)) (bestBid bestAsk : ℚ)
    (found : Option (Arbitrage Venue)) : Prop where
  crossed : ∀ arb, found = some arb →
    bestAsk < bestBid ∧ 0 < arb.spread ∧ arb.spread ≤ ctx.sub bestBid bestAsk
  one_venue : found = none →
    ∃ v, ∀ p ∈ qs, ∀ q ∈ qs, 0 < ctx.sub p.bid q.ask → p.source = v ∧ q.source = v
  complete : (∀ p ∈ qs, ∀ q ∈ qs, p.source = q.source → p.bid ≤ q.ask) →
    (found.isSome ↔ 0 < ctx.sub bestBid bestAsk)
  widest : (∀ p ∈ qs, ∀ q ∈ qs, p.source = q.source → p.bid ≤ q.ask) →
    ∀ arb, found = some arb → arb.spread = ctx.sub bestBid bestAsk ∧
      ∀ buy ∈ qs, ∀ sell ∈ qs, buy.source ≠ sell.source → ctx.sub sell.bid buy.ask ≤ arb.spread

/-- The same without any rounding of spreads, and with the prices that are traded at. -/
structure AgreesExactly (ctx : Context) (qs : List (Quote Venue)) (bestBid bestAsk : ℚ)
    (found : Option (Arbitrage Venue)) : Prop where
  crossed : ∀ arb, found = some arb →
    bestAsk < bestBid ∧ 0 < arb.spread ∧ arb.spread ≤ bestBid - bestAsk
  one_venue : bestAsk < bestBid → found = none →
    ∃ v, ∀ p ∈ qs, ∀ q ∈ qs, q.ask < p.bid → p.source = v ∧ q.source = v
  complete : (∀ p ∈ qs, ∀ q ∈ qs, p.source = q.source → p.bid ≤ q.ask) →
    (found.isSome ↔ bestAsk < bestBid)
  widest : (∀ p ∈ qs, ∀ q ∈ qs, p.source = q.source → p.bid ≤ q.ask) →
    ∀ arb, found = some arb →
      arb.buyPrice = bestAsk ∧ arb.sellPrice = bestBid ∧ arb.spread = bestBid - bestAsk ∧
      ∀ buy ∈ qs, ∀ sell ∈ qs, buy.source ≠ sell.source → sell.bid - buy.ask ≤ arb.spread ∧
        ctx.mul (ctx.div (sell.bid - buy.ask) ((buy.ask + sell.bid) / 2)) 10000 ≤ arb.spreadBps

/-- The context rounds neither the spreads nor the mids of some quotes. -/
def ComputesExactly (ctx : Context) (qs : List (Quote Venue)) : Prop :=
  ∀ buy ∈ qs, ∀ sell ∈ qs, ctx.sub sell.bid buy.ask = sell.bid - buy.ask ∧
    ctx.div (ctx.add buy.ask sell.bid) 2 = (buy.ask + sell.bid) / 2

/-- A context that rounds nothing does, and so does the default one for prices with ten decimals. -/
theorem computesExactly_of_exactQuotes {db : Engine} {qs : List (Quote Venue)}
    (h : ctx = .exact ∨ ctx = .default ∧ ∀ q ∈ qs, ExactQuote db q) : ComputesExactly ctx qs := by
  intro buy hbuy sell hsell
  rcases h with rfl | ⟨rfl, hexact⟩
  · exact ⟨rfl, rfl⟩
  · exact ⟨(sub_of_exact (Or.inr rfl) (hexact sell hsell).1 (hexact buy hbuy).2).1,
      half_of_exact (Or.inr rfl) (hexact buy hbuy).2 (hexact sell hsell).1⟩

variable [DecidableEq Venue] {qs : List (Quote Venue)} {bestBid bestAsk : ℚ}

omit [DecidableEq Venue] in
theorem sub_le_best (hbest : IsBest qs bestBid bestAsk) {buy sell : Quote Venue} (hbuy : buy ∈ qs)
    (hsell : sell ∈ qs) : ctx.sub sell.bid buy.ask ≤ ctx.sub bestBid bestAsk :=
  ctx.mono (sub_le_sub (hbest.bid_le hsell) (hbest.le_ask hbuy))

theorem crossed_of_mem (hbest : IsBest qs bestBid bestAsk) {arb : Arbitrage Venue}
    (harb : arb ∈ opportunities ctx qs) :
    bestAsk < bestBid ∧ 0 < arb.spread ∧ arb.spread ≤ ctx.sub bestBid bestAsk := by
  obtain ⟨buy, hbuy, sell, hsell, hpair⟩ := mem_opportunities.mp harb
  obtain ⟨_, hpos, rfl⟩ := crossingOf_eq_some_iff.mp hpair
  have hlt := lt_of_sub_pos hpos
  have hask := hbest.le_ask hbuy
  have hbid := hbest.bid_le hsell
  exact ⟨by linarith, hpos, sub_le_best hbest hbuy hsell⟩

theorem opportunities_eq_nil_iff :
    opportunities ctx qs = [] ↔
      ∀ buy ∈ qs, ∀ sell ∈ qs, 0 < ctx.sub sell.bid buy.ask → buy.source = sell.source := by
  rw [List.eq_nil_iff_forall_not_mem]
  constructor
  · intro hnone buy hbuy sell hsell hpos
    by_contra hvenue
    exact hnone _ (mem_opportunities.mpr
      ⟨buy, hbuy, sell, hsell, crossingOf_eq_some_iff.mpr ⟨hvenue, hpos, rfl⟩⟩)
  · intro hall arb harb
    obtain ⟨buy, hbuy, sell, hsell, hpair⟩ := mem_opportunities.mp harb
    obtain ⟨hvenue, hpos, _⟩ := crossingOf_eq_some_iff.mp hpair
    exact hvenue (hall buy hbuy sell hsell hpos)

/-- The holder of the best bid crosses every quote that crosses anything, and so does the holder of
the best ask. -/
theorem one_venue_of_nil (hbest : IsBest qs bestBid bestAsk) (hnil : opportunities ctx qs = []) :
    ∃ v, ∀ p ∈ qs, ∀ q ∈ qs, 0 < ctx.sub p.bid q.ask → p.source = v ∧ q.source = v := by
  have hsame := opportunities_eq_nil_iff.mp hnil
  obtain ⟨top, htop, htopBid⟩ := hbest.bid_mem
  obtain ⟨bottom, hbottom, hbottomAsk⟩ := hbest.ask_mem
  refine ⟨top.source, fun p hp q hq hpos => ?_⟩
  have hwide : 0 < ctx.sub bestBid bestAsk := hpos.trans_le (sub_le_best hbest hq hp)
  have hbid : 0 < ctx.sub p.bid bottom.ask := by
    rw [hbottomAsk]
    exact hpos.trans_le (ctx.mono (sub_le_sub_left (hbest.le_ask hq) _))
  have hask : 0 < ctx.sub top.bid q.ask := by
    rw [htopBid]
    exact hpos.trans_le (ctx.mono (sub_le_sub_right (hbest.bid_le hp) _))
  have hvenue : bottom.source = top.source :=
    hsame bottom hbottom top htop (by rwa [htopBid, hbottomAsk])
  exact ⟨(hsame bottom hbottom p hp hbid).symm.trans hvenue, hsame q hq top htop hask⟩

theorem best_pair_mem (hbest : IsBest qs bestBid bestAsk) (hcross : 0 < ctx.sub bestBid bestAsk)
    (hself : ∀ p ∈ qs, ∀ q ∈ qs, p.source = q.source → p.bid ≤ q.ask) :
    ∃ arb ∈ opportunities ctx qs, arb.spread = ctx.sub bestBid bestAsk := by
  obtain ⟨top, htop, rfl⟩ := hbest.bid_mem
  obtain ⟨bottom, hbottom, rfl⟩ := hbest.ask_mem
  have hlt := lt_of_sub_pos hcross
  have hvenue : bottom.source ≠ top.source := by
    intro hsame
    exact hlt.not_ge (hself top htop bottom hbottom hsame.symm)
  exact ⟨_, mem_opportunities.mpr ⟨bottom, hbottom, top, htop,
    crossingOf_eq_some_iff.mpr ⟨hvenue, hcross, rfl⟩⟩, rfl⟩

/-- **What the scan finds agrees with the best prices.** -/
theorem widest_agrees (hbest : IsBest qs bestBid bestAsk) :
    Agrees ctx qs bestBid bestAsk (firstBest Arbitrage.spread (opportunities ctx qs)) where
  crossed arb harb := crossed_of_mem hbest (firstBest_isFirstBest harb).mem
  one_venue hnone := one_venue_of_nil hbest (firstBest_eq_none_iff.mp hnone)
  complete hself := by
    rw [Option.isSome_iff_ne_none, Ne, firstBest_eq_none_iff]
    constructor
    · intro hne
      obtain ⟨arb, harb⟩ := List.exists_mem_of_ne_nil _ hne
      obtain ⟨_, hpos, hle⟩ := crossed_of_mem hbest harb
      exact hpos.trans_le hle
    · intro hcross
      obtain ⟨arb, harb, _⟩ := best_pair_mem hbest hcross hself
      exact List.ne_nil_of_mem harb
  widest hself arb harb := by
    have hfirst := firstBest_isFirstBest harb
    obtain ⟨_, hpos, hle⟩ := crossed_of_mem hbest hfirst.mem
    obtain ⟨wide, hwide, hspread⟩ := best_pair_mem hbest (hpos.trans_le hle) hself
    have heq : arb.spread = ctx.sub bestBid bestAsk :=
      le_antisymm hle (hspread ▸ hfirst.le wide hwide)
    exact ⟨heq, fun buy hbuy sell hsell _ => heq ▸ sub_le_best hbest hbuy hsell⟩

theorem best_of_widest (hexact : ComputesExactly ctx qs) (hpos : ∀ q ∈ qs, 0 < q.bid ∧ 0 < q.ask)
    (hbest : IsBest qs bestBid bestAsk) {arb : Arbitrage Venue} (harb : arb ∈ opportunities ctx qs)
    (hspread : bestBid - bestAsk ≤ arb.spread) :
    arb.buyPrice = bestAsk ∧ arb.sellPrice = bestBid ∧ arb.spread = bestBid - bestAsk ∧
      ∀ buy ∈ qs, ∀ sell ∈ qs, buy.source ≠ sell.source → sell.bid - buy.ask ≤ arb.spread ∧
        ctx.mul (ctx.div (sell.bid - buy.ask) ((buy.ask + sell.bid) / 2)) 10000 ≤ arb.spreadBps := by
  obtain ⟨buy, hbuy, sell, hsell, hpair⟩ := mem_opportunities.mp harb
  obtain ⟨_, _, rfl⟩ := crossingOf_eq_some_iff.mp hpair
  obtain ⟨hsub, hmid⟩ := hexact buy hbuy sell hsell
  have hask := hbest.le_ask hbuy
  have hbid := hbest.bid_le hsell
  have hwide : bestBid - bestAsk ≤ sell.bid - buy.ask := hsub ▸ hspread
  obtain rfl : buy.ask = bestAsk := by linarith
  obtain rfl : sell.bid = bestBid := by linarith
  refine ⟨rfl, rfl, hsub, fun buy' hbuy' sell' hsell' _ => ?_⟩
  have hask' := hbest.le_ask hbuy'
  have hbid' := hbest.bid_le hsell'
  have hrel := relative_spread_le hask' hbid' (hpos buy hbuy).2 (hpos sell' hsell').1
  simp only [hsub, hmid]
  exact ⟨sub_le_sub hbid' hask',
    ctx.mono (mul_le_mul_of_nonneg_right (ctx.mono hrel) (by norm_num))⟩

theorem Agrees.exactly (hexact : ComputesExactly ctx qs) (hpos : ∀ q ∈ qs, 0 < q.bid ∧ 0 < q.ask)
    (hbest : IsBest qs bestBid bestAsk)
    (h : Agrees ctx qs bestBid bestAsk (firstBest Arbitrage.spread (opportunities ctx qs))) :
    AgreesExactly ctx qs bestBid bestAsk (firstBest Arbitrage.spread (opportunities ctx qs)) := by
  obtain ⟨top, htop, htopBid⟩ := hbest.bid_mem
  obtain ⟨bottom, hbottom, hbottomAsk⟩ := hbest.ask_mem
  have hsub : ctx.sub bestBid bestAsk = bestBid - bestAsk := by
    rw [← htopBid, ← hbottomAsk]
    exact (hexact bottom hbottom top htop).1
  refine ⟨fun arb harb => hsub ▸ h.crossed arb harb, fun _ hnone => ?_, fun hself => ?_,
    fun hself arb harb => ?_⟩
  · obtain ⟨v, hv⟩ := h.one_venue hnone
    refine ⟨v, fun p hp q hq hlt => hv p hp q hq ?_⟩
    rw [(hexact q hq p hp).1]
    exact sub_pos.mpr hlt
  · rw [h.complete hself, hsub, sub_pos]
  · have hspread := (h.widest hself arb harb).1
    exact best_of_widest hexact hpos hbest (firstBest_isFirstBest harb).mem (by rw [hspread, hsub])

omit [DecidableEq Venue] in
theorem candidates_of_fresh {maxAge : ℚ} {clock : ℕ → Instant} {quotes : List (Quote Venue)}
    (hfresh : ∀ i q, quotes[i]? = some q → isFresh maxAge (clock i) q = true) :
    candidates maxAge clock quotes = quotes.filter isPositive := by
  apply candidates_eq_filter
  intro i q hi
  rw [hfresh i q hi, Bool.and_true]

/-- **Consolidation and arbitrage detection agree on what a crossed book is.** -/
theorem arbitrage_agrees_with_book {Venue : Type} [LinearOrder Venue] (db : Engine) (ctx : Context)
    {maxAge : ℚ} {clock : ℕ → Instant} {quotes : List (Quote Venue)}
    (hfresh : ∀ i q, quotes[i]? = some q → isFresh maxAge (clock i) q = true) :
    (quotes.filter isPositive = [] ∧ consolidate ctx maxAge clock quotes = none ∧
      detectArbitrage ctx quotes = .ok none) ∨
    ∃ bestBid bestAsk, IsBest (quotes.filter isPositive) bestBid bestAsk ∧
      consolidate ctx maxAge clock quotes =
        some (if bestAsk < bestBid then crossedBook ctx (quotes.filter isPositive) bestBid bestAsk
          else plainBook ctx (quotes.filter isPositive) bestBid bestAsk) ∧
      (∀ found, detectArbitrage ctx quotes = .ok found →
        Agrees ctx (quotes.filter isPositive) bestBid bestAsk found) ∧
      ((ctx = .exact ∨ ctx = .default ∧ ∀ q ∈ quotes.filter isPositive, ExactQuote db q) →
        ∃ found, detectArbitrage ctx quotes = .ok found ∧
          AgreesExactly ctx (quotes.filter isPositive) bestBid bestAsk found) := by
  have hcands := candidates_of_fresh hfresh
  rcases consolidate_cases ctx maxAge clock quotes with ⟨hnil, hnone⟩ | ⟨q, rest, hcons, hsome⟩
  · rw [hcands] at hnil
    have hhold : MidsHold ctx quotes := by
      intro buy hbuy
      rw [hnil] at hbuy
      cases hbuy
    refine Or.inl ⟨hnil, hnone, ?_⟩
    rw [detectArbitrage_of_midsHold hhold, widestCrossing, hnil]
    rfl
  · have hpos : ∀ p ∈ q :: rest, 0 < p.bid ∧ 0 < p.ask := fun p hp =>
      isPositive_of_mem_candidates (hcons ▸ hp)
    rw [hcands] at hcons
    have hbest := isBest_book q rest
    have hagrees : Agrees ctx (q :: rest) _ _ _ := widest_agrees hbest
    rw [hsome, hcons]
    refine Or.inr ⟨_, _, hbest, congrArg some (book_eq ctx q rest hbest), fun found hfound => ?_,
      fun hctx => ?_⟩
    · rw [(detectArbitrage_eq_ok_iff.mp hfound).2, widestCrossing, hcons]
      exact hagrees
    · have hexact := computesExactly_of_exactQuotes hctx
      have hhold : MidsHold ctx quotes := by
        refine midsHold_of_ne fun buy hbuy sell hsell => ?_
        rw [hcons] at hbuy hsell
        rw [(hexact buy hbuy sell hsell).2]
        have hask := (hpos buy hbuy).2
        have hbid := (hpos sell hsell).1
        linarith
      refine ⟨_, detectArbitrage_of_midsHold hhold, ?_⟩
      rw [widestCrossing, hcons]
      exact hagrees.exactly hexact hpos hbest

def twoVenues : List (Quote ℕ) := [⟨0, 101, 102, 0⟩, ⟨1, 99, 100, 0⟩]

theorem fresh_of_forall_mem {quotes : List (Quote ℕ)} (h : ∀ q ∈ quotes, isFresh 30 0 q = true) (i : ℕ)
    (q : Quote ℕ) (hq : quotes[i]? = some q) : isFresh 30 0 q = true := h q (List.mem_of_getElem? hq)

theorem arbitrage_agrees_on_twoVenues :
    ∃ bestBid bestAsk found, IsBest (twoVenues.filter isPositive) bestBid bestAsk ∧
      detectArbitrage .default twoVenues = .ok found ∧
      AgreesExactly .default (twoVenues.filter isPositive) bestBid bestAsk found := by
  have hfresh := fresh_of_forall_mem (by decide +kernel : ∀ q ∈ twoVenues, isFresh 30 0 q = true)
  rcases arbitrage_agrees_with_book .postgres .default hfresh with
    ⟨hnil, _⟩ | ⟨bestBid, bestAsk, hbest, _, _, hexactly⟩
  · exact absurd hnil (by decide +kernel)
  · obtain ⟨found, hfound, hagrees⟩ := hexactly (Or.inr ⟨rfl, by decide +kernel⟩)
    exact ⟨bestBid, bestAsk, found, hbest, hfound, hagrees⟩

/-! ### A difference behind the 28th digit -/

/-- Two of the asks differ in the fortieth decimal place. -/
def threeVenues : List (Quote ℕ) := [⟨0, 50, 100, 0⟩, ⟨1, 50, 100 - 1 / 10 ^ 40, 0⟩, ⟨2, 200, 201, 0⟩]

/-- Both spreads are rounded to 100, and the scan keeps the first: it buys at 100, above the best ask. -/
theorem equal_spreads_miss_best_ask :
    (∀ q ∈ threeVenues, isFresh 30 0 q = true) ∧
    (∀ p ∈ threeVenues, ∀ q ∈ threeVenues, p.source = q.source → p.bid ≤ q.ask) ∧
    IsLeast {x | x ∈ (threeVenues.filter isPositive).map Quote.ask} (100 - 1 / 10 ^ 40) ∧
    ∃ arb, detectArbitrage .default threeVenues = .ok (some arb) ∧ arb.buyPrice = 100 ∧
      arb.buyPrice ≠ 100 - 1 / 10 ^ 40 := by
  have hfound : ∃ arb ∈ (detectArbitrage .default threeVenues).toOption.join, arb.buyPrice = 100 := by
    decide +kernel
  obtain ⟨arb, harb, hprice⟩ := hfound
  have hlower : ∀ x ∈ (threeVenues.filter isPositive).map Quote.ask, 100 - 1 / 10 ^ 40 ≤ x := by
    decide +kernel
  refine ⟨by decide +kernel, by decide +kernel, ⟨by decide +kernel, hlower⟩, arb, ?_, hprice, ?_⟩
  · cases hscan : detectArbitrage .default threeVenues with
    | error e =>
        rw [hscan] at harb
        cases harb
    | ok found =>
        rw [hscan] at harb
        exact congrArg Except.ok harb
  · rw [hprice]
    norm_num

end Pricestream
