import Mathlib.Algebra.Order.Group.MinMax
import Pricestream.Proof.Tasks.Derived
import Pricestream.Proof.Tasks.Signals
import Pricestream.Python.Precision

/-!
# The aggregator in 28 digits

Quotes with ten decimal places leave the default context little to round. Differences, mids and the sum
of up to a thousand mids have at most 28 digits. What is rounded is the mean of mids behind a crossed
book, once, and the two operations that turn a spread into basis points; neither is compared with
anything. So the aggregator takes every decision as it would on the rationals, and the book it builds is
as valid: rounding is monotone and keeps the prices it must stay between.
-/

namespace Pricestream

open Library Python

variable {db : Engine} {Venue : Type}

/-! ### Opportunities -/

/-- The opportunity, with its basis points computed in 28 digits. -/
def Arbitrage.rounded (arb : Arbitrage Venue) : Arbitrage Venue :=
  { arb with
    spreadBps := Context.default.mul
      (Context.default.div arb.spread ((arb.buyPrice + arb.sellPrice) / 2)) 10000 }

theorem holds_price (cell : Price db) : (priceColumn db).Holds cell.value := ⟨cell.rounded, cell.inRange⟩

theorem crossingOf_default [DecidableEq Venue] {buy sell : Quote Venue} (hbuy : ExactQuote db buy)
    (hsell : ExactQuote db sell) :
    crossingOf .default buy sell = (crossingOf .exact buy sell).map Arbitrage.rounded := by
  have hspread : Context.default.sub sell.bid buy.ask = Context.exact.sub sell.bid buy.ask :=
    (sub_of_exact (Or.inr rfl) hsell.1 hbuy.2).1
  have hmid := half_of_exact (Or.inr rfl) hbuy.2 hsell.1
  simp only [crossingOf, hspread, hmid]
  split_ifs <;> rfl

theorem opportunities_default [DecidableEq Venue] {qs : List (Quote Venue)}
    (hexact : ∀ q ∈ qs, ExactQuote db q) :
    opportunities .default qs = (opportunities .exact qs).map Arbitrage.rounded := by
  rw [opportunities, opportunities, List.map_flatMap]
  apply List.flatMap_congr
  intro buy hbuy
  rw [List.map_filterMap]
  apply List.filterMap_congr
  intro sell hsell
  exact crossingOf_default (hexact buy hbuy) (hexact sell hsell)

theorem midsHold_default_of_exact {quotes : List (Quote Venue)} (hexact : ∀ q ∈ quotes, ExactQuote db q) :
    MidsHold .default quotes := by
  refine midsHold_of_ne fun buy hbuy sell hsell => ?_
  obtain ⟨hbuy, hbuyPos⟩ := List.mem_filter.mp hbuy
  obtain ⟨hsell, hsellPos⟩ := List.mem_filter.mp hsell
  rw [half_of_exact (Or.inr rfl) (hexact buy hbuy).2 (hexact sell hsell).1]
  have hask := (isPositive_iff.mp hbuyPos).2
  have hbid := (isPositive_iff.mp hsellPos).1
  linarith

/-- **The scan finds the same pair.** -/
theorem detectArbitrage_default [DecidableEq Venue] {quotes : List (Quote Venue)}
    (hexact : ∀ q ∈ quotes, ExactQuote db q) :
    detectArbitrage .default quotes = .ok ((widestCrossing .exact quotes).map Arbitrage.rounded) := by
  have hpositive : ∀ q ∈ quotes.filter isPositive, ExactQuote db q := fun q hq =>
    hexact q (List.mem_of_mem_filter hq)
  rw [detectArbitrage_of_midsHold (midsHold_default_of_exact hexact), widestCrossing, widestCrossing,
    opportunities_default hpositive, firstBest_map]
  rfl

/-- A ratio below ten and its ten thousandfold are rounded in the 28th and the 24th place. -/
theorem abs_scaled_ratio_sub_le {ratio : ℚ} (hpos : 0 ≤ ratio) (hlt : ratio < 2) :
    |Context.default.mul (Context.default.round ratio) 10000 - ratio * 10000| ≤ 1 / 10 ^ 20 := by
  have hratio : |Context.default.round ratio - ratio| ≤ 10 ^ (1 - 28 : ℤ) / 2 := by
    apply Context.abs_default_round_sub_le (by norm_num)
    rw [abs_of_nonneg hpos]
    norm_num
    linarith
  obtain ⟨hlow, hhigh⟩ := abs_le.mp hratio
  norm_num at hlow hhigh
  have hscaled : |Context.default.round (Context.default.round ratio * 10000) -
      Context.default.round ratio * 10000| ≤ 10 ^ (5 - 28 : ℤ) / 2 := by
    apply Context.abs_default_round_sub_le (by norm_num)
    rw [abs_lt]
    norm_num
    constructor <;> linarith
  obtain ⟨hlow', hhigh'⟩ := abs_le.mp hscaled
  norm_num at hlow' hhigh'
  rw [Context.mul, abs_le]
  norm_num
  constructor <;> linarith

theorem abs_rounded_sub_le [DecidableEq Venue] {quotes : List (Quote Venue)} {arb : Arbitrage Venue}
    (h : widestCrossing .exact quotes = some arb) :
    (0 ≤ arb.spreadBps ∧ arb.spreadBps < 20000) ∧
      |arb.rounded.spreadBps - arb.spreadBps| ≤ 1 / 10 ^ 20 := by
  obtain ⟨buy, hbuy, sell, _, hpair⟩ := mem_opportunities.mp (firstBest_isFirstBest h).mem
  have hask : 0 < buy.ask := (isPositive_iff.mp (List.mem_filter.mp hbuy).2).2
  obtain ⟨_, hspread, rfl⟩ := crossingOf_eq_some_iff.mp hpair
  obtain ⟨hpos, hbelow⟩ := bps_bounds hask (lt_of_sub_pos hspread)
  simp only [Context.exact_sub, Context.exact_add, Context.exact_div, Context.exact_mul,
    Arbitrage.rounded]
  refine ⟨⟨hpos.le, hbelow⟩, abs_scaled_ratio_sub_le ?_ ?_⟩ <;> linarith

/-- Two figures this close are quantized to the same number of units or to neighbouring ones. -/
theorem quantizeBps_near {x y : ℚ} (hnonneg : 0 ≤ y) (hlt : y < 20000) (h : |x - y| ≤ 1 / 10 ^ 20) :
    ∃ i j : ℤ, quantizeBps x = .ok (i / 10 ^ 4) ∧ quantizeBps y = .ok (j / 10 ^ 4) ∧ |i - j| ≤ 1 ∧
      |i| ≤ 10 ^ 9 ∧ |j| ≤ 10 ^ 9 := by
  unfold quantizeBps
  obtain ⟨hx, hx'⟩ := abs_le.mp (abs_halfEven_sub_le (x * 10 ^ 4))
  obtain ⟨hy, hy'⟩ := abs_le.mp (abs_halfEven_sub_le (y * 10 ^ 4))
  obtain ⟨hlow, hhigh⟩ := abs_le.mp h
  norm_num at hlow hhigh
  generalize halfEven (x * 10 ^ 4) = i at *
  generalize halfEven (y * 10 ^ 4) = j at *
  have hnear : |i - j| < 2 := by
    have hcast : |(i : ℚ) - j| < 2 := by
      rw [abs_lt]
      constructor <;> linarith
    exact_mod_cast hcast
  have hj : |j| ≤ 10 ^ 9 - 1 := by
    have hcast : |(j : ℚ)| ≤ 10 ^ 9 - 1 := by
      rw [abs_le]
      constructor <;> linarith
    exact_mod_cast hcast
  have hi : |i| - |j| ≤ |i - j| := abs_sub_abs_le_abs_sub i j
  exact ⟨i, j, if_pos (by omega), if_pos (by omega), by omega, by omega, by omega⟩

/-! ### The book -/

section Book

variable [LinearOrder Venue]

/-- The numbers of two books agree to fourteen places. -/
structure NearBook (c c' : Consolidated Venue) : Prop where
  mid : |c.mid - c'.mid| ≤ 1 / (2 * 10 ^ 14)
  bid : |c.bid - c'.bid| ≤ 1 / (2 * 10 ^ 14)
  ask : |c.ask - c'.ask| ≤ 1 / (2 * 10 ^ 14)
  sources : c.sources = c'.sources

theorem abs_sub_self_le (x : ℚ) : |x - x| ≤ 1 / (2 * 10 ^ 14) := by
  rw [sub_self]
  norm_num

omit [LinearOrder Venue] in
theorem NearBook.refl (c : Consolidated Venue) : NearBook c c :=
  ⟨abs_sub_self_le _, abs_sub_self_le _, abs_sub_self_le _, rfl⟩

variable {q : Quote Venue} {rest : List (Quote Venue)}

omit [LinearOrder Venue] in
theorem of_mem_prices {P : ℚ → Prop} {qs : List (Quote Venue)} (h : ∀ q ∈ qs, P q.bid ∧ P q.ask)
    {x : ℚ} (hx : x ∈ prices qs) : P x := by
  rcases List.mem_append.mp hx with hx | hx
  · obtain ⟨q, hq, rfl⟩ := List.mem_map.mp hx
    exact (h q hq).1
  · obtain ⟨q, hq, rfl⟩ := List.mem_map.mp hx
    exact (h q hq).2

omit [LinearOrder Venue] in
/-- The rounded mean of the mids lies between the extreme prices, like the mean itself, and it is above
half the best ask. -/
theorem round_meanMid_bounds {qs : List (Quote Venue)} (hne : qs ≠ [])
    (hexact : ∀ q ∈ qs, ExactQuote db q) (hpos : ∀ q ∈ qs, 0 < q.bid ∧ 0 < q.ask)
    {bestBid bestAsk least greatest : ℚ} (hbest : IsBest qs bestBid bestAsk)
    (hleast : IsLeast {x | x ∈ prices qs} least)
    (hgreatest : IsGreatest {x | x ∈ prices qs} greatest) :
    least ≤ Context.default.round (meanMid qs) ∧ Context.default.round (meanMid qs) ≤ greatest ∧
      bestAsk / 2 ≤ Context.default.round (meanMid qs) ∧
      |Context.default.round (meanMid qs) - meanMid qs| ≤ 1 / (2 * 10 ^ 14) := by
  obtain ⟨hlow, hhigh⟩ := meanMid_between hne hleast hgreatest
  have hleastPos : 0 < least := of_mem_prices hpos hleast.1
  have hmean : 0 < meanMid qs := hleastPos.trans_le hlow
  have haskMem : bestAsk ∈ prices qs := List.mem_append_right _ hbest.ask.1
  have haskPos : 0 < bestAsk := of_mem_prices hpos haskMem
  obtain ⟨a, ha, halt⟩ := units_of_holds (of_mem_prices hexact haskMem)
  have hhalf : Context.default.round (bestAsk / 2) = bestAsk / 2 := by
    have hunits : bestAsk / 2 = ((5 * a : ℤ) : ℚ) / 10 ^ 11 := by
      rw [ha]
      push_cast
      ring
    have hdigits : |5 * a| < 10 ^ 28 := by
      rw [abs_mul]
      norm_num
      linarith
    rw [hunits]
    exact Context.default_round_of_lt hdigits (by norm_num)
  have hbelow := half_bestAsk_lt_meanMid hne hpos hbest
  refine ⟨?_, ?_, ?_, ?_⟩
  · rw [← default_round_of_exact (of_mem_prices hexact hleast.1)]
    exact Context.default.mono hlow
  · conv_rhs => rw [← default_round_of_exact (of_mem_prices hexact hgreatest.1)]
    exact Context.default.mono hhigh
  · rw [← hhalf]
    exact Context.default.mono hbelow.le
  · have hlimit := (of_mem_prices hexact hgreatest.1).2
    have htop : greatest < 10 ^ 14 := (abs_lt.mp hlimit).2
    have hsmall : |meanMid qs| < 10 ^ (14 : ℤ) := by
      rw [abs_of_pos hmean]
      norm_num at htop ⊢
      linarith
    refine (Context.abs_default_round_sub_le (by norm_num) hsmall).trans ?_
    norm_num

section Candidates

variable (hexact : ∀ p ∈ q :: rest, ExactQuote db p) (hcount : (q :: rest).length ≤ 1000)
  {bestBid bestAsk : ℚ} (hbest : IsBest (q :: rest) bestBid bestAsk)

include hexact hbest

theorem book_default_of_le (hle : bestBid ≤ bestAsk) :
    book .default q rest = book .exact q rest := by
  have hbid := of_mem_prices hexact (List.mem_append_left _ hbest.bid.1)
  have hask := of_mem_prices hexact (List.mem_append_right _ hbest.ask.1)
  rw [book_eq .default q rest hbest, book_eq .exact q rest hbest, if_neg hle.not_gt,
    if_neg hle.not_gt, plainBook_default hbid hask]

include hcount

theorem book_default_of_lt (hlt : bestAsk < bestBid) :
    book .default q rest =
      ⟨Context.default.round (meanMid (q :: rest)),
        min bestBid (Context.default.round (meanMid (q :: rest))),
        max bestAsk (Context.default.round (meanMid (q :: rest))), sortedSources (q :: rest)⟩ := by
  rw [book_eq .default q rest hbest, if_pos hlt, crossedBook_default hexact hcount]

variable (hpos : ∀ p ∈ q :: rest, 0 < p.bid ∧ 0 < p.ask)

include hpos

theorem book_near : NearBook (book .default q rest) (book .exact q rest) := by
  rcases le_or_gt bestBid bestAsk with hle | hlt
  · rw [book_default_of_le hexact hbest hle]
    exact .refl _
  · obtain ⟨least, greatest, hleast, hgreatest⟩ :=
      exists_extremes (l := prices (q :: rest)) (by simp [prices])
    obtain ⟨_, _, _, hmid⟩ :=
      round_meanMid_bounds (List.cons_ne_nil q rest) hexact hpos hbest hleast hgreatest
    rw [book_default_of_lt hexact hcount hbest hlt, book_eq .exact q rest hbest, if_pos hlt,
      crossedBook_exact]
    exact ⟨hmid, (abs_min_sub_min_le_max _ _ _ _).trans (max_le (abs_sub_self_le _) hmid),
      (abs_max_sub_max_le_max _ _ _ _).trans (max_le (abs_sub_self_le _) hmid), rfl⟩

/-- **The book of positive quotes is valid in 28 digits.** -/
theorem book_default_valid : ValidBook (q :: rest) (book .default q rest) := by
  rcases le_or_gt bestBid bestAsk with hle | hlt
  · rw [book_default_of_le hexact hbest hle]
    exact book_valid hpos
  · obtain ⟨least, greatest, hleast, hgreatest⟩ :=
      exists_extremes (l := prices (q :: rest)) (by simp [prices])
    obtain ⟨hlow, hhigh, hhalf, _⟩ :=
      round_meanMid_bounds (List.cons_ne_nil q rest) hexact hpos hbest hleast hgreatest
    rw [book_default_of_lt hexact hcount hbest hlt]
    generalize Context.default.round (meanMid (q :: rest)) = mid at *
    have hbidPos : 0 < bestBid := of_mem_prices hpos (List.mem_append_left _ hbest.bid.1)
    have haskPos : 0 < bestAsk := of_mem_prices hpos (List.mem_append_right _ hbest.ask.1)
    have hmid : 0 < mid := by linarith
    have hbid : min bestBid mid ≤ mid := min_le_right _ _
    have hask : mid ≤ max bestAsk mid := le_max_right _ _
    refine
      { bid_pos := lt_min hbidPos hmid
        bid_le_mid := hbid
        mid_le_ask := hask
        bid_le_best := ⟨_, _, hbest, min_le_left _ _, le_max_left _ _⟩
        mid_between := ⟨_, _, hleast, hgreatest, hlow, hhigh⟩
        spread := spread_bounds hmid (hbid.trans hask) ?_
        sources_sorted := sortedSources_pairwise _
        mem_sources := fun v => mem_sortedSources }
    rcases le_total mid bestAsk with hbelow | hbelow
    · rw [max_eq_left hbelow, min_eq_right (hbelow.trans hlt.le)]
      linarith
    · rw [max_eq_right hbelow]
      rcases le_total mid bestBid with habove | habove
      · rw [min_eq_right habove]
        linarith
      · rw [min_eq_left habove]
        linarith

theorem book_default_fits : (book .default q rest).Fits db := by
  have hfits : ∀ p ∈ q :: rest, (priceColumn db).Fits p.bid ∧ (priceColumn db).Fits p.ask :=
    fun p hp => ⟨(hexact p hp).1.fits, (hexact p hp).2.fits⟩
  rcases le_or_gt bestBid bestAsk with hle | hlt
  · rw [book_default_of_le hexact hbest hle]
    exact book_fits hfits
  · obtain ⟨least, greatest, hleast, hgreatest⟩ :=
      exists_extremes (l := prices (q :: rest)) (by simp [prices])
    obtain ⟨hlow, hhigh, _, _⟩ :=
      round_meanMid_bounds (List.cons_ne_nil q rest) hexact hpos hbest hleast hgreatest
    have hbid := of_mem_prices hfits (List.mem_append_left _ hbest.bid.1)
    have hask := of_mem_prices hfits (List.mem_append_right _ hbest.ask.1)
    have hmid := (priceColumn db).fits_of_between (of_mem_prices hfits hleast.1)
      (of_mem_prices hfits hgreatest.1) hlow hhigh
    rw [book_default_of_lt hexact hcount hbest hlt]
    exact ⟨hmid, (priceColumn db).fits_min hbid hmid, (priceColumn db).fits_max hask hmid⟩

end Candidates

/-- **Consolidation in both arithmetics.** -/
theorem consolidate_default {maxAge : ℚ} {clock : ℕ → DateTime.Instant} {quotes : List (Quote Venue)}
    (hexact : ∀ q ∈ quotes, ExactQuote db q) (hcount : quotes.length ≤ 1000) :
    (consolidate .default maxAge clock quotes = none ∧ consolidate .exact maxAge clock quotes = none) ∨
      ∃ c c', consolidate .default maxAge clock quotes = some c ∧
        consolidate .exact maxAge clock quotes = some c' ∧ NearBook c c' ∧
        (c.Fits db ∧ c'.Fits db) ∧ ValidBook (candidates maxAge clock quotes) c ∧
        ∀ bestBid bestAsk, IsBest (candidates maxAge clock quotes) bestBid bestAsk →
          bestBid ≤ bestAsk → c = c' := by
  have hlength : (candidates maxAge clock quotes).length ≤ 1000 := by
    refine le_trans ?_ hcount
    rw [candidates, List.length_map, ← List.length_zipIdx (l := quotes) (i := 0)]
    exact List.length_filter_le _ _
  have hmem : ∀ q ∈ candidates maxAge clock quotes, ExactQuote db q := by
    intro q hq
    obtain ⟨i, hi, _⟩ := mem_candidates.mp hq
    exact hexact q (List.mem_of_getElem? hi)
  have hpos := fun q (hq : q ∈ candidates maxAge clock quotes) => isPositive_of_mem_candidates hq
  unfold consolidate
  cases hcands : candidates maxAge clock quotes with
  | nil => exact Or.inl ⟨rfl, rfl⟩
  | cons q rest =>
      rw [hcands] at hlength hmem hpos
      have hfits : ∀ p ∈ q :: rest, (priceColumn db).Fits p.bid ∧ (priceColumn db).Fits p.ask :=
        fun p hp => ⟨(hmem p hp).1.fits, (hmem p hp).2.fits⟩
      have hbest := isBest_book q rest
      exact Or.inr ⟨_, _, rfl, rfl, book_near hmem hlength hbest hpos,
        ⟨book_default_fits hmem hlength hbest hpos, book_fits hfits⟩,
        book_default_valid hmem hlength hbest hpos, fun _ _ hbest' hle =>
          book_default_of_le hmem hbest' hle⟩

end Book

end Pricestream
