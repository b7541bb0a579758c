import Pricestream.Proof.Book

/-!
# What the scan for arbitrage computes

`detectArbitrage` tries every ordered pair of quotes and keeps the widest opportunity. It raises if the
mid of a pair whose prices cross comes out as zero, which takes prices far below anything a column
holds; otherwise the nested loop, its early exit included, returns the first of the widest
opportunities. In exact arithmetic no mid of positive prices is zero, and in the default context the
pairs that have one are given by two bounds.
-/

namespace Pricestream

open Library Python
open Context (decimal28)

variable {Venue : Type} [DecidableEq Venue] (ctx : Context)

/-- The opportunity a pair of quotes offers. -/
def crossingOf (buy sell : Quote Venue) : Option (Arbitrage Venue) :=
  let spread := ctx.sub sell.bid buy.ask
  let mid := ctx.div (ctx.add buy.ask sell.bid) 2
  if buy.source ≠ sell.source ∧ 0 < spread then
    some ⟨buy.source, buy.ask, sell.source, sell.bid, spread, ctx.mul (ctx.div spread mid) 10000⟩
  else none

/-- Every opportunity among some quotes, in the order the nested loop meets them. -/
def opportunities (qs : List (Quote Venue)) : List (Arbitrage Venue) :=
  qs.flatMap fun buy => qs.filterMap (crossingOf ctx buy)

/-- The first of the widest opportunities between positive quotes. -/
def widestCrossing (quotes : List (Quote Venue)) : Option (Arbitrage Venue) :=
  firstBest Arbitrage.spread (opportunities ctx (quotes.filter isPositive))

/-- Two quotes cross, and their mid comes out as zero. -/
structure MidVanishes (buy sell : Quote Venue) : Prop where
  venues : buy.source ≠ sell.source
  spread : 0 < ctx.sub sell.bid buy.ask
  mid : ctx.div (ctx.add buy.ask sell.bid) 2 = 0

instance (buy sell : Quote Venue) : Decidable (MidVanishes ctx buy sell) :=
  decidable_of_iff (buy.source ≠ sell.source ∧ 0 < ctx.sub sell.bid buy.ask ∧
      ctx.div (ctx.add buy.ask sell.bid) 2 = 0)
    ⟨fun h => ⟨h.1, h.2.1, h.2.2⟩, fun h => ⟨h.venues, h.spread, h.mid⟩⟩

/-- No mid vanishes between positive quotes. -/
def MidsHold (quotes : List (Quote Venue)) : Prop :=
  ∀ buy ∈ quotes.filter isPositive, ∀ sell ∈ quotes.filter isPositive, ¬ MidVanishes ctx buy sell

instance (quotes : List (Quote Venue)) : Decidable (MidsHold ctx quotes) :=
  inferInstanceAs (Decidable (∀ buy ∈ quotes.filter isPositive, ∀ sell ∈ quotes.filter isPositive,
    ¬ MidVanishes ctx buy sell))

/-! ### One pair -/

variable {ctx} {buy sell : Quote Venue} {qs quotes : List (Quote Venue)} {arb : Arbitrage Venue}

theorem crossingOf_eq_some_iff :
    crossingOf ctx buy sell = some arb ↔
      buy.source ≠ sell.source ∧ 0 < ctx.sub sell.bid buy.ask ∧
        arb = ⟨buy.source, buy.ask, sell.source, sell.bid, ctx.sub sell.bid buy.ask,
          ctx.mul (ctx.div (ctx.sub sell.bid buy.ask) (ctx.div (ctx.add buy.ask sell.bid) 2)) 10000⟩ := by
  simp only [crossingOf]
  split_ifs with h
  · simp only [Option.some.injEq, h, true_and, ne_eq, not_false_eq_true]
    exact eq_comm
  · simp only [false_iff]
    exact fun ⟨hvenues, hspread, _⟩ => h ⟨hvenues, hspread⟩

theorem mem_opportunities :
    arb ∈ opportunities ctx qs ↔ ∃ buy ∈ qs, ∃ sell ∈ qs, crossingOf ctx buy sell = some arb := by
  simp [opportunities]

theorem arbitrageOf_of_not (h : ¬ MidVanishes ctx buy sell) :
    arbitrageOf ctx buy sell = .ok (crossingOf ctx buy sell) := by
  simp only [arbitrageOf, crossingOf]
  by_cases hvenues : buy.source = sell.source
  · rw [if_pos hvenues, if_neg fun hboth => hboth.1 hvenues]
    rfl
  · by_cases hspread : ctx.sub sell.bid buy.ask ≤ 0
    · rw [if_neg hvenues, if_pos hspread, if_neg fun hboth => hspread.not_gt hboth.2]
      rfl
    · have hmid : ctx.div (ctx.add buy.ask sell.bid) 2 ≠ 0 := fun hzero =>
        h ⟨hvenues, not_le.mp hspread, hzero⟩
      simp only [hvenues, hspread, if_false, Context.divide, hmid, bind, Except.bind, pure, Except.pure,
        ne_eq, not_false_eq_true, not_le.mp hspread, and_self, if_true]

theorem arbitrageOf_of_vanishes (h : MidVanishes ctx buy sell) :
    arbitrageOf ctx buy sell = .error .divisionByZero := by
  simp only [arbitrageOf, h.venues, h.spread.not_ge, h.spread.ne', h.mid, if_false, if_true,
    Context.divide]
  rfl

theorem scan_of_not (h : ¬ MidVanishes ctx buy sell) (best : Option (Arbitrage Venue)) :
    scan ctx buy best sell =
      .ok ((crossingOf ctx buy sell).elim best (better Arbitrage.spread best)) := by
  rw [scan, arbitrageOf_of_not h]
  cases crossingOf ctx buy sell <;> rfl

theorem scan_of_vanishes (h : MidVanishes ctx buy sell) (best : Option (Arbitrage Venue)) :
    scan ctx buy best sell = .error .divisionByZero := by
  rw [scan, arbitrageOf_of_vanishes h]
  rfl

/-! ### All pairs -/

theorem foldlM_scan (h : ∀ sell ∈ qs, ¬ MidVanishes ctx buy sell) (best : Option (Arbitrage Venue)) :
    qs.foldlM (scan ctx buy) best =
      .ok ((qs.filterMap (crossingOf ctx buy)).foldl (better Arbitrage.spread) best) := by
  rw [List.foldl_filterMap]
  refine (foldlM_eq_ok (fun sell hsell best => scan_of_not (h sell hsell) best) best).trans ?_
  congr 2
  funext best sell
  cases crossingOf ctx buy sell <;> rfl

theorem foldlM_scan_of_vanishes (h : ∃ sell ∈ qs, MidVanishes ctx buy sell)
    (best : Option (Arbitrage Venue)) : qs.foldlM (scan ctx buy) best = .error .divisionByZero := by
  refine foldlM_eq_error (fun sell _ => ?_) ?_ best
  · by_cases hvanishes : MidVanishes ctx buy sell
    · exact Or.inr (scan_of_vanishes hvanishes)
    · exact Or.inl fun best => ⟨_, scan_of_not hvanishes best⟩
  · obtain ⟨sell, hsell, hvanishes⟩ := h
    exact ⟨sell, hsell, scan_of_vanishes hvanishes⟩

/-- A venue does not trade with itself, so fewer than two quotes give no opportunity. -/
theorem eq_of_length_lt_two (h : qs.length < 2) (hbuy : buy ∈ qs) (hsell : sell ∈ qs) : buy = sell := by
  match qs with
  | [] => cases hbuy
  | [q] => rw [List.mem_singleton.mp hbuy, List.mem_singleton.mp hsell]
  | _ :: _ :: _ =>
      simp only [List.length_cons] at h
      omega

theorem opportunities_eq_nil (h : qs.length < 2) : opportunities ctx qs = [] := by
  rw [List.eq_nil_iff_forall_not_mem]
  intro arb harb
  obtain ⟨buy, hbuy, sell, hsell, hpair⟩ := mem_opportunities.mp harb
  obtain ⟨hvenues, _⟩ := crossingOf_eq_some_iff.mp hpair
  exact hvenues (congrArg Quote.source (eq_of_length_lt_two h hbuy hsell))

/-- **The scan returns the first of the widest opportunities**, unless a mid vanishes. -/
theorem detectArbitrage_of_midsHold (h : MidsHold ctx quotes) :
    detectArbitrage ctx quotes = .ok (widestCrossing ctx quotes) := by
  rw [detectArbitrage, widestCrossing]
  split_ifs with hlen
  · rw [opportunities_eq_nil hlen]
    rfl
  · rw [firstBest, opportunities, List.foldl_flatMap]
    exact foldlM_eq_ok (fun buy hbuy best => foldlM_scan (h buy hbuy) best) none

/-- **A mid that vanishes ends the scan.** -/
theorem detectArbitrage_of_not_midsHold (h : ¬ MidsHold ctx quotes) :
    detectArbitrage ctx quotes = .error .divisionByZero := by
  unfold MidsHold at h
  push Not at h
  obtain ⟨buy, hbuy, sell, hsell, hvanishes⟩ := h
  have hlen : ¬ (quotes.filter isPositive).length < 2 := fun hlen =>
    hvanishes.venues (congrArg Quote.source (eq_of_length_lt_two hlen hbuy hsell))
  rw [detectArbitrage]
  simp only [if_neg hlen]
  refine foldlM_eq_error (fun buy _ => ?_) ⟨buy, hbuy, foldlM_scan_of_vanishes ⟨sell, hsell, hvanishes⟩⟩ _
  by_cases hbad : ∃ sell ∈ quotes.filter isPositive, MidVanishes ctx buy sell
  · exact Or.inr (foldlM_scan_of_vanishes hbad)
  · push Not at hbad
    exact Or.inl fun best => ⟨_, foldlM_scan hbad best⟩

theorem detectArbitrage_eq_ok_iff {found : Option (Arbitrage Venue)} :
    detectArbitrage ctx quotes = .ok found ↔ MidsHold ctx quotes ∧ found = widestCrossing ctx quotes := by
  by_cases h : MidsHold ctx quotes
  · rw [detectArbitrage_of_midsHold h, Except.ok.injEq, and_iff_right h]
    exact eq_comm
  · rw [detectArbitrage_of_not_midsHold h]
    simp [h]

/-! ### Which mids vanish -/

omit [DecidableEq Venue] in
theorem midsHold_of_ne (h : ∀ buy ∈ quotes.filter isPositive, ∀ sell ∈ quotes.filter isPositive,
    ctx.div (ctx.add buy.ask sell.bid) 2 ≠ 0) : MidsHold ctx quotes :=
  fun buy hbuy sell hsell hvanishes => h buy hbuy sell hsell hvanishes.mid

omit [DecidableEq Venue] in
theorem midsHold_exact (quotes : List (Quote Venue)) : MidsHold .exact quotes := by
  refine midsHold_of_ne fun buy hbuy sell hsell => ?_
  have hask := (isPositive_iff.mp (List.mem_filter.mp hbuy).2).2
  have hbid := (isPositive_iff.mp (List.mem_filter.mp hsell).2).1
  rw [Context.exact_add, Context.exact_div]
  linarith

theorem detectArbitrage_exact_eq (quotes : List (Quote Venue)) :
    detectArbitrage .exact quotes = .ok (widestCrossing .exact quotes) :=
  detectArbitrage_of_midsHold (midsHold_exact quotes)

omit [DecidableEq Venue] in
/-- **In the default context the mids that vanish are those of two prices that are more than half of the
smallest decimal apart, and together less than one and a half.** -/
theorem midVanishes_default_iff (hask : 0 < buy.ask) (hbid : 0 < sell.bid) :
    MidVanishes .default buy sell ↔ buy.source ≠ sell.source ∧
      decimal28.tiny / 2 < sell.bid - buy.ask ∧ buy.ask + sell.bid < 3 / 2 * decimal28.tiny := by
  have hspread : 0 < Context.default.sub sell.bid buy.ask ↔ decimal28.tiny / 2 < sell.bid - buy.ask :=
    Format.round_pos_iff
  have hsum : 0 ≤ Context.default.add buy.ask sell.bid := Context.default.round_nonneg (by linarith)
  have hmid : Context.default.div (Context.default.add buy.ask sell.bid) 2 = 0 ↔
      buy.ask + sell.bid < 3 / 2 * decimal28.tiny := by
    rw [← Format.round_le_tiny_iff (f := decimal28) (by linarith)]
    have hzero : Context.default.div (Context.default.add buy.ask sell.bid) 2 = 0 ↔
        |Context.default.add buy.ask sell.bid / 2| ≤ decimal28.tiny / 2 := Format.round_eq_zero_iff
    rw [hzero, abs_of_nonneg (by linarith), div_le_div_iff_of_pos_right two_pos]
    rfl
  constructor
  · rintro ⟨hvenues, hpositive, hvanishes⟩
    exact ⟨hvenues, hspread.mp hpositive, hmid.mp hvanishes⟩
  · rintro ⟨hvenues, hapart, htogether⟩
    exact ⟨hvenues, hspread.mpr hapart, hmid.mpr htogether⟩

/-- Where positive prices of two venues cross by more than half of the smallest decimal, `1E-1000026`,
they add up to at least one and a half of it. -/
def ClearOfTiny (quotes : List (Quote Venue)) : Prop :=
  ∀ buy ∈ quotes.filter isPositive, ∀ sell ∈ quotes.filter isPositive, buy.source ≠ sell.source →
    decimal28.tiny / 2 < sell.bid - buy.ask → 3 / 2 * decimal28.tiny ≤ buy.ask + sell.bid

omit [DecidableEq Venue] in
theorem midsHold_default_iff : MidsHold .default quotes ↔ ClearOfTiny quotes := by
  refine forall₂_congr fun buy hbuy => forall₂_congr fun sell hsell => ?_
  have hask := (isPositive_iff.mp (List.mem_filter.mp hbuy).2).2
  have hbid := (isPositive_iff.mp (List.mem_filter.mp hsell).2).1
  rw [midVanishes_default_iff hask hbid]
  push Not
  rfl

end Pricestream
