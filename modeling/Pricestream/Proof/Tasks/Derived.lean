import Pricestream.Proof.Crossing
import Pricestream.Proof.Tasks.Completion

/-!
# Derived rows fit

In exact arithmetic nothing computed from quotes the columns accept can overflow them. What a column
accepts is an interval. A mid and a mean of mids lie between prices of quotes, a side that is pulled
onto the mean is one of the two, a spread lies between zero and a price, and a relative spread stays
below two, which is twenty thousand basis points.
-/

namespace Pricestream

open Library Python

variable {db : Engine} {Venue : Type}

/-! ### The consolidated price -/

theorem fits_of_mem_prices {qs : List (Quote Venue)}
    (hfits : ∀ q ∈ qs, (priceColumn db).Fits q.bid ∧ (priceColumn db).Fits q.ask) {x : ℚ}
    (hx : x ∈ prices qs) : (priceColumn db).Fits x := by
  rcases List.mem_append.mp hx with hx | hx
  · obtain ⟨q, hq, rfl⟩ := List.mem_map.mp hx
    exact (hfits q hq).1
  · obtain ⟨q, hq, rfl⟩ := List.mem_map.mp hx
    exact (hfits q hq).2

theorem book_fits [LinearOrder Venue] {q : Quote Venue} {rest : List (Quote Venue)}
    (hfits : ∀ p ∈ q :: rest, (priceColumn db).Fits p.bid ∧ (priceColumn db).Fits p.ask) :
    (book .exact q rest).Fits db := by
  obtain ⟨bestBid, bestAsk, hbest⟩ : ∃ bestBid bestAsk, IsBest (q :: rest) bestBid bestAsk :=
    ⟨_, _, isBest_book q rest⟩
  obtain ⟨least, greatest, hleast, hgreatest⟩ :=
    exists_extremes (l := prices (q :: rest)) (by simp [prices])
  have hbid : (priceColumn db).Fits bestBid :=
    fits_of_mem_prices hfits (List.mem_append_left _ hbest.bid.1)
  have hask : (priceColumn db).Fits bestAsk :=
    fits_of_mem_prices hfits (List.mem_append_right _ hbest.ask.1)
  rw [book_eq .exact q rest hbest]
  split_ifs with hcross
  · have hbetween := meanMid_between (List.cons_ne_nil q rest) hleast hgreatest
    have hmid : (priceColumn db).Fits (meanMid (q :: rest)) :=
      (priceColumn db).fits_of_between (fits_of_mem_prices hfits hleast.1)
        (fits_of_mem_prices hfits hgreatest.1) hbetween.1 hbetween.2
    rw [crossedBook_exact]
    exact ⟨hmid, (priceColumn db).fits_min hbid hmid, (priceColumn db).fits_max hask hmid⟩
  · have hle : bestBid ≤ bestAsk := not_lt.mp hcross
    have hlow : bestBid ≤ (bestBid + bestAsk) / 2 := by linarith
    have hhigh : (bestBid + bestAsk) / 2 ≤ bestAsk := by linarith
    exact ⟨(priceColumn db).fits_of_between hbid hask hlow hhigh, hbid, hask⟩

/-! ### The opportunity -/

theorem exists_quantizeBps {x : ℚ} (hnonneg : 0 ≤ x) (hlt : x < 20000) :
    ∃ bps, quantizeBps x = .ok bps ∧ (bpsColumn db).Fits bps := by
  obtain ⟨hfloor, hceil⟩ := halfEven_between (x * 10 ^ 4)
  have hlow : 0 ≤ ⌊x * 10 ^ 4⌋ := Int.floor_nonneg.mpr (by positivity)
  have hhigh : ⌊x * 10 ^ 4⌋ < 200000000 := by
    rw [Int.floor_lt]
    push_cast
    linarith
  have hunits : 0 ≤ halfEven (x * 10 ^ 4) := hlow.trans hfloor
  have hunits' : halfEven (x * 10 ^ 4) ≤ 200000000 := by omega
  have hdigits : |halfEven (x * 10 ^ 4)| < 10 ^ 28 := by
    rw [abs_of_nonneg hunits]
    omega
  refine ⟨(halfEven (x * 10 ^ 4) : ℚ) / 10 ^ 4, if_pos hdigits, ?_⟩
  have hzero : (bpsColumn db).Fits 0 := (bpsColumn db).fits_zero
  have htop : (bpsColumn db).Fits 20000 := by
    have hround : (bpsColumn db).round 20000 = 20000 := by
      exact_mod_cast db.bps.round_intCast 20000
    unfold NumericColumn.Fits
    rw [hround]
    norm_num [NumericColumn.limit, bpsColumn]
  have hcast : (0 : ℚ) ≤ halfEven (x * 10 ^ 4) := by exact_mod_cast hunits
  have hcast' : (halfEven (x * 10 ^ 4) : ℚ) ≤ 200000000 := by exact_mod_cast hunits'
  refine (bpsColumn db).fits_of_between hzero htop (by positivity) ?_
  rw [div_le_iff₀ (by positivity)]
  linarith

theorem arbitrage_fits [DecidableEq Venue] {quotes : List (Quote Venue)} {arb : Arbitrage Venue}
    (hfits : ∀ q ∈ quotes, (priceColumn db).Fits q.bid ∧ (priceColumn db).Fits q.ask)
    (h : widestCrossing .exact quotes = some arb) : arb.Fits db := by
  obtain ⟨buy, hbuy, sell, hsell, hpair⟩ := mem_opportunities.mp (firstBest_isFirstBest h).mem
  obtain ⟨hbuy, hbuyPos⟩ := List.mem_filter.mp hbuy
  obtain ⟨hsell, _⟩ := List.mem_filter.mp hsell
  have hask : 0 < buy.ask := (isPositive_iff.mp hbuyPos).2
  obtain ⟨_, hpos, rfl⟩ := crossingOf_eq_some_iff.mp hpair
  have hlt : buy.ask < sell.bid := lt_of_sub_pos hpos
  have hspread : 0 ≤ sell.bid - buy.ask := by linarith
  have hbelow : sell.bid - buy.ask ≤ sell.bid := by linarith
  have hbps := bps_bounds hask hlt
  exact ⟨(hfits buy hbuy).2, (hfits sell hsell).1,
    (priceColumn db).fits_of_between (priceColumn db).fits_zero (hfits sell hsell).1 hspread hbelow,
    exists_quantizeBps hbps.1.le hbps.2⟩

/-- **In exact arithmetic, what is computed from accepted replies fits.** -/
theorem rowsFit_exact [LinearOrder Venue] {round : Round Venue} {symbol : Str}
    (hctx : round.ctx = .exact) (h : Accepted db round symbol) : RowsFit db round symbol := by
  have hfits := fun q (hq : q ∈ roundQuotes round symbol) => fits_of_mem_roundQuotes h hq
  refine ⟨fun c hc => ?_, fun _ => hctx ▸ midsHold_exact _, fun arb _ harb => ?_⟩
  · rw [roundBook, hctx] at hc
    rcases consolidate_cases .exact round.maxAge (round.clock.checked symbol)
      (roundQuotes round symbol) with ⟨_, hnone⟩ | ⟨q, rest, hcands, hsome⟩
    · rw [hnone] at hc
      cases hc
    · obtain rfl := Option.some.inj (hsome.symm.trans hc)
      refine book_fits fun p hp => hfits p ?_
      obtain ⟨i, hi, _⟩ := mem_candidates.mp (hcands ▸ hp)
      exact List.mem_of_getElem? hi
  · obtain ⟨_, hfound⟩ := roundArbitrage_eq_some_iff.mp harb
    rw [hctx] at hfound
    exact arbitrage_fits hfits hfound

end Pricestream
