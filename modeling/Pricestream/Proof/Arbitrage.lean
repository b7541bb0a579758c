import Mathlib.Data.List.ProdSigma
import Mathlib.Data.List.Perm.Lattice
import Pricestream.Proof.Crossing

/-!
# The scan for arbitrage is exact and optimal

What `detectArbitrage` should find is stated without its loops: the pairs of quotes of a list, in the
order of a nested loop, that may trade with each other, and among these the first of the widest. The
three conditions under which the code skips a pair, and its early exit, leave exactly the admissible
pairs, so the scan returns the figures of that pair, and nothing if no pair is admissible. Which pair
is the first depends on the order of the list; how wide it is does not.
-/

namespace Pricestream

open Library Python

variable {Venue : Type}

/-- Buying on one quote and selling on the other earns something. -/
structure Admissible (buy sell : Quote Venue) : Prop where
  buy_pos : 0 < buy.bid ∧ 0 < buy.ask
  sell_pos : 0 < sell.bid ∧ 0 < sell.ask
  venues : buy.source ≠ sell.source
  crosses : buy.ask < sell.bid

theorem admissible_iff {buy sell : Quote Venue} :
    Admissible buy sell ↔ (isPositive buy = true ∧ isPositive sell = true) ∧
      buy.source ≠ sell.source ∧ buy.ask < sell.bid := by
  rw [isPositive_iff, isPositive_iff]
  constructor
  · intro h
    exact ⟨⟨h.buy_pos, h.sell_pos⟩, h.venues, h.crosses⟩
  · rintro ⟨⟨hbuy, hsell⟩, hvenues, hcrosses⟩
    exact ⟨hbuy, hsell, hvenues, hcrosses⟩

instance [DecidableEq Venue] (buy sell : Quote Venue) : Decidable (Admissible buy sell) :=
  decidable_of_iff _ admissible_iff.symm

/-- The pairs that may trade, by the buying quote first and the selling quote second. -/
def admissiblePairs [DecidableEq Venue] (quotes : List (Quote Venue)) :
    List (Quote Venue × Quote Venue) :=
  (quotes ×ˢ quotes).filter fun (buy, sell) => Admissible buy sell

def width (pair : Quote Venue × Quote Venue) : ℚ := pair.2.bid - pair.1.ask

/-- What trading on a pair comes to. -/
def figures (pair : Quote Venue × Quote Venue) : Arbitrage Venue where
  buyVenue := pair.1.source
  buyPrice := pair.1.ask
  sellVenue := pair.2.source
  sellPrice := pair.2.bid
  spread := width pair
  spreadBps := width pair / ((pair.1.ask + pair.2.bid) / 2) * 10000

variable [DecidableEq Venue] {quotes quotes' : List (Quote Venue)}

theorem mem_admissiblePairs {pair : Quote Venue × Quote Venue} :
    pair ∈ admissiblePairs quotes ↔
      pair.1 ∈ quotes ∧ pair.2 ∈ quotes ∧ Admissible pair.1 pair.2 := by
  rw [admissiblePairs, List.mem_filter, List.mem_product, and_assoc, decide_eq_true_eq]

/-! ### The scan meets the admissible pairs -/

theorem crossingOf_exact (buy sell : Quote Venue) :
    crossingOf .exact buy sell =
      if buy.source ≠ sell.source ∧ buy.ask < sell.bid then some (figures (buy, sell)) else none := by
  have hcross : 0 < Context.exact.sub sell.bid buy.ask ↔ buy.ask < sell.bid := sub_pos
  simp only [crossingOf, hcross]
  rfl

omit [DecidableEq Venue] in
theorem filter_product (p : Quote Venue → Bool) (l l' : List (Quote Venue)) :
    l.filter p ×ˢ l'.filter p = (l ×ˢ l').filter fun pair => p pair.1 && p pair.2 := by
  induction l with
  | nil => rfl
  | cons q l ih =>
      rw [List.product_cons, List.filter_append, ← ih, List.filter_map]
      by_cases hq : p q = true
      · rw [List.filter_cons_of_pos hq, List.product_cons]
        congr 3
        funext q'
        simp [hq]
      · rw [List.filter_cons_of_neg hq]
        simp [hq]

theorem opportunities_eq_map (quotes : List (Quote Venue)) :
    opportunities .exact (quotes.filter isPositive) = (admissiblePairs quotes).map figures := by
  have hloop : opportunities .exact (quotes.filter isPositive) =
      (quotes.filter isPositive ×ˢ quotes.filter isPositive).filterMap
        fun pair => crossingOf .exact pair.1 pair.2 := by
    show _ = List.filterMap _ (List.flatMap _ _)
    rw [opportunities, List.filterMap_flatMap]
    congr 1
    funext buy
    rw [List.filterMap_map]
    rfl
  rw [hloop, filter_product, List.filterMap_filter, admissiblePairs, ← List.filterMap_eq_map,
    List.filterMap_filter]
  congr 1
  funext pair
  rw [crossingOf_exact]
  by_cases hpos : isPositive pair.1 = true ∧ isPositive pair.2 = true
  · by_cases hcross : pair.1.source ≠ pair.2.source ∧ pair.1.ask < pair.2.bid
    · have hadm : Admissible pair.1 pair.2 := admissible_iff.mpr ⟨hpos, hcross⟩
      simp [hpos, hcross, hadm]
    · have hadm : ¬ Admissible pair.1 pair.2 := fun h => hcross (admissible_iff.mp h).2
      simp [hcross, hadm]
  · have hadm : ¬ Admissible pair.1 pair.2 := fun h => hpos (admissible_iff.mp h).1
    rw [← Bool.and_eq_true] at hpos
    simp [hpos, hadm]

theorem detectArbitrage_exact (quotes : List (Quote Venue)) :
    detectArbitrage .exact quotes = .ok ((firstBest width (admissiblePairs quotes)).map figures) := by
  rw [detectArbitrage_exact_eq, widestCrossing, opportunities_eq_map, firstBest_map]
  rfl

/-! ### What is found -/

/-- An opportunity is the best a list has to offer. -/
structure Optimal (quotes : List (Quote Venue)) (buy sell : Quote Venue) (arb : Arbitrage Venue) :
    Prop where
  buy_mem : buy ∈ quotes
  sell_mem : sell ∈ quotes
  venues : buy.source ≠ sell.source
  eq_figures : arb = figures (buy, sell)
  buyPrice_pos : 0 < arb.buyPrice
  spread_pos : 0 < arb.spread
  spreadBps : 0 < arb.spreadBps ∧ arb.spreadBps < 20000
  widest : ∀ buy' ∈ quotes, ∀ sell' ∈ quotes, Admissible buy' sell' → sell'.bid - buy'.ask ≤ arb.spread
  first : IsFirstBest width (admissiblePairs quotes) (buy, sell)

omit [DecidableEq Venue] in
theorem Admissible.spreadBps {buy sell : Quote Venue} (h : Admissible buy sell) :
    0 < (figures (buy, sell)).spreadBps ∧ (figures (buy, sell)).spreadBps < 20000 :=
  bps_bounds h.buy_pos.2 h.crosses

theorem optimal_of_firstBest {pair : Quote Venue × Quote Venue}
    (h : firstBest width (admissiblePairs quotes) = some pair) :
    Optimal quotes pair.1 pair.2 (figures pair) := by
  have hfirst := firstBest_isFirstBest h
  obtain ⟨hbuy, hsell, hadm⟩ := mem_admissiblePairs.mp hfirst.mem
  refine ⟨hbuy, hsell, hadm.venues, rfl, hadm.buy_pos.2, sub_pos.mpr hadm.crosses, hadm.spreadBps, ?_,
    hfirst⟩
  intro buy' hbuy' sell' hsell' hadm'
  exact hfirst.le (buy', sell') (mem_admissiblePairs.mpr ⟨hbuy', hsell', hadm'⟩)

theorem admissiblePairs_perm (h : quotes.Perm quotes') :
    (admissiblePairs quotes).Perm (admissiblePairs quotes') :=
  (h.product h).filter _

/-- **The scan is exact and optimal.** It never raises. It finds nothing exactly if no pair is
admissible, and otherwise the first of the widest; whether it finds something and how wide it is do not
depend on the order. -/
theorem detectArbitrage_optimal (quotes : List (Quote Venue)) :
    ∃ found, detectArbitrage .exact quotes = .ok found ∧
      (found = none ↔ ¬ ∃ buy ∈ quotes, ∃ sell ∈ quotes, Admissible buy sell) ∧
      (∀ arb, found = some arb → ∃ buy sell, Optimal quotes buy sell arb) ∧
      ∀ quotes', quotes.Perm quotes' → ∃ found', detectArbitrage .exact quotes' = .ok found' ∧
        found.map Arbitrage.spread = found'.map Arbitrage.spread := by
  refine ⟨_, detectArbitrage_exact quotes, ?_, fun arb harb => ?_, fun quotes' hperm => ?_⟩
  · rw [Option.map_eq_none_iff, firstBest_eq_none_iff, List.eq_nil_iff_forall_not_mem]
    constructor
    · rintro hnone ⟨buy, hbuy, sell, hsell, hadm⟩
      exact hnone (buy, sell) (mem_admissiblePairs.mpr ⟨hbuy, hsell, hadm⟩)
    · intro hnone pair hpair
      obtain ⟨hbuy, hsell, hadm⟩ := mem_admissiblePairs.mp hpair
      exact hnone ⟨_, hbuy, _, hsell, hadm⟩
  · obtain ⟨pair, hpair, rfl⟩ := Option.map_eq_some_iff.mp harb
    exact ⟨pair.1, pair.2, optimal_of_firstBest hpair⟩
  · refine ⟨_, detectArbitrage_exact quotes', ?_⟩
    rw [Option.map_map, Option.map_map]
    exact firstBest_perm (admissiblePairs_perm hperm)

end Pricestream
