import Pricestream.Aggregator

/-!
# The consolidated book is valid

What a published snapshot promises: a positive bid, a mid between the two sides, sides no better than
the best price on offer, a relative spread below two, and each contributing venue named once. The
two branches of `consolidate` meet it for different reasons. An uncrossed book has its mid halfway
between the best prices. A crossed one takes the mean of the mids, which need not lie between the
best prices at all; then one side is pulled onto the mean, and the spread stays bounded because every
mid exceeds half the best ask.
-/

namespace Pricestream

open Library Python
open DateTime (Instant)

variable {Venue : Type}

def prices (qs : List (Quote Venue)) : List ℚ := qs.map Quote.bid ++ qs.map Quote.ask

structure IsBest (qs : List (Quote Venue)) (bestBid bestAsk : ℚ) : Prop where
  bid : IsGreatest {x | x ∈ qs.map Quote.bid} bestBid
  ask : IsLeast {x | x ∈ qs.map Quote.ask} bestAsk

/-- What a snapshot of a list of quotes promises. -/
structure ValidBook [LinearOrder Venue] (qs : List (Quote Venue)) (c : Consolidated Venue) : Prop where
  bid_pos : 0 < c.bid
  bid_le_mid : c.bid ≤ c.mid
  mid_le_ask : c.mid ≤ c.ask
  bid_le_best : ∃ bestBid bestAsk, IsBest qs bestBid bestAsk ∧ c.bid ≤ bestBid ∧ bestAsk ≤ c.ask
  mid_between : ∃ least greatest, IsLeast {x | x ∈ prices qs} least ∧
    IsGreatest {x | x ∈ prices qs} greatest ∧ least ≤ c.mid ∧ c.mid ≤ greatest
  spread : 0 ≤ (c.ask - c.bid) / c.mid ∧ (c.ask - c.bid) / c.mid < 2
  sources_sorted : c.sources.Pairwise (· < ·)
  mem_sources : ∀ v, v ∈ c.sources ↔ ∃ q ∈ qs, q.source = v

theorem isBest_book (q : Quote Venue) (rest : List (Quote Venue)) :
    IsBest (q :: rest) (maxOf q.bid (rest.map Quote.bid)) (minOf q.ask (rest.map Quote.ask)) where
  bid := maxOf_isGreatest _ _
  ask := minOf_isLeast _ _

theorem IsBest.bid_mem {qs : List (Quote Venue)} {bestBid bestAsk : ℚ}
    (h : IsBest qs bestBid bestAsk) : ∃ q ∈ qs, q.bid = bestBid := List.mem_map.mp h.bid.1

theorem IsBest.ask_mem {qs : List (Quote Venue)} {bestBid bestAsk : ℚ}
    (h : IsBest qs bestBid bestAsk) : ∃ q ∈ qs, q.ask = bestAsk := List.mem_map.mp h.ask.1

theorem IsBest.bid_le {qs : List (Quote Venue)} {bestBid bestAsk : ℚ}
    (h : IsBest qs bestBid bestAsk) {q : Quote Venue} (hq : q ∈ qs) : q.bid ≤ bestBid :=
  h.bid.2 (List.mem_map_of_mem hq)

theorem IsBest.le_ask {qs : List (Quote Venue)} {bestBid bestAsk : ℚ}
    (h : IsBest qs bestBid bestAsk) {q : Quote Venue} (hq : q ∈ qs) : bestAsk ≤ q.ask :=
  h.ask.2 (List.mem_map_of_mem hq)

/-! ### Who takes part -/

theorem isPositive_iff {q : Quote Venue} : isPositive q = true ↔ 0 < q.bid ∧ 0 < q.ask := by
  simp [isPositive]

theorem mem_candidates {maxAge : ℚ} {clock : ℕ → Instant} {quotes : List (Quote Venue)}
    {q : Quote Venue} :
    q ∈ candidates maxAge clock quotes ↔
      ∃ i, quotes[i]? = some q ∧ isPositive q = true ∧ isFresh maxAge (clock i) q = true := by
  simp [candidates, List.mem_zipIdx_iff_getElem?]

theorem isPositive_of_mem_candidates {maxAge : ℚ} {clock : ℕ → Instant}
    {quotes : List (Quote Venue)} {q : Quote Venue} (hq : q ∈ candidates maxAge clock quotes) :
    0 < q.bid ∧ 0 < q.ask := by
  obtain ⟨i, _, hpos, _⟩ := mem_candidates.mp hq
  exact isPositive_iff.mp hpos

/-- The gate is a filter when what it asks of a quote does not depend on the quote's place. -/
theorem candidates_eq_filter {maxAge : ℚ} {clock : ℕ → Instant} {quotes : List (Quote Venue)}
    {p : Quote Venue → Bool}
    (h : ∀ i q, quotes[i]? = some q → (isPositive q && isFresh maxAge (clock i) q) = p q) :
    candidates maxAge clock quotes = quotes.filter p := by
  have hkeep : ∀ qi ∈ quotes.zipIdx, (isPositive qi.1 && isFresh maxAge (clock qi.2) qi.1) = p qi.1 :=
    fun qi hqi => h qi.2 qi.1 (List.mem_zipIdx_iff_getElem?.mp hqi)
  calc candidates maxAge clock quotes
      = (quotes.zipIdx.filter fun qi => p qi.1).map Prod.fst := by
        rw [candidates, List.filter_congr hkeep]
    _ = (quotes.zipIdx.map Prod.fst).filter p := by
        rw [List.filter_map]
        rfl
    _ = quotes.filter p := by rw [List.zipIdx_map_fst]

theorem consolidate_cases [LinearOrder Venue] (ctx : Context) (maxAge : ℚ) (clock : ℕ → Instant)
    (quotes : List (Quote Venue)) :
    (candidates maxAge clock quotes = [] ∧ consolidate ctx maxAge clock quotes = none) ∨
      ∃ q rest, candidates maxAge clock quotes = q :: rest ∧
        consolidate ctx maxAge clock quotes = some (book ctx q rest) := by
  unfold consolidate
  cases hc : candidates maxAge clock quotes with
  | nil => exact Or.inl ⟨rfl, rfl⟩
  | cons q rest => exact Or.inr ⟨q, rest, rfl, rfl⟩

theorem isSome_consolidate_iff [LinearOrder Venue] {ctx : Context} {maxAge : ℚ}
    {clock : ℕ → Instant} {quotes : List (Quote Venue)} :
    (consolidate ctx maxAge clock quotes).isSome ↔ ∃ q, q ∈ candidates maxAge clock quotes := by
  rcases consolidate_cases ctx maxAge clock quotes with ⟨hcands, hnone⟩ | ⟨q, rest, hcands, hsome⟩
  · simp [hcands, hnone]
  · rw [hsome, hcands]
    exact iff_of_true rfl ⟨q, List.mem_cons_self⟩

/-! ### Sources -/

theorem sortedSources_pairwise [LinearOrder Venue] (qs : List (Quote Venue)) :
    (sortedSources qs).Pairwise (· < ·) := by
  have hperm := List.perm_insertionSort (· ≤ ·) (qs.map Quote.source).dedup
  have hnodup : (sortedSources qs).Nodup := hperm.nodup_iff.mpr (List.nodup_dedup _)
  have hsorted : (sortedSources qs).Pairwise (· ≤ ·) := List.pairwise_insertionSort _ _
  exact (hsorted.and hnodup).imp fun h => lt_of_le_of_ne h.1 h.2

theorem mem_sortedSources [LinearOrder Venue] {qs : List (Quote Venue)} {v : Venue} :
    v ∈ sortedSources qs ↔ ∃ q ∈ qs, q.source = v := by
  rw [sortedSources, List.mem_insertionSort, List.mem_dedup, List.mem_map]

/-! ### The two branches -/

theorem exact_mid (q : Quote Venue) : q.mid .exact = (q.bid + q.ask) / 2 := rfl

def meanMid (qs : List (Quote Venue)) : ℚ := (qs.map (Quote.mid .exact)).sum / qs.length

theorem book_eq [LinearOrder Venue] (ctx : Context) (q : Quote Venue) (rest : List (Quote Venue))
    {bestBid bestAsk : ℚ} (hbest : IsBest (q :: rest) bestBid bestAsk) :
    book ctx q rest =
      if bestAsk < bestBid then crossedBook ctx (q :: rest) bestBid bestAsk
      else plainBook ctx (q :: rest) bestBid bestAsk := by
  have hbid := (isBest_book q rest).bid.unique hbest.bid
  have hask := (isBest_book q rest).ask.unique hbest.ask
  simp only [book, hbid, hask]

theorem sources_book [LinearOrder Venue] (ctx : Context) (q : Quote Venue) (rest : List (Quote Venue)) :
    (book ctx q rest).sources = sortedSources (q :: rest) := by
  rw [book_eq ctx q rest (isBest_book q rest)]
  split_ifs <;> rfl

theorem crossedBook_exact [LinearOrder Venue] (qs : List (Quote Venue)) (bestBid bestAsk : ℚ) :
    crossedBook .exact qs bestBid bestAsk =
      ⟨meanMid qs, min bestBid (meanMid qs), max bestAsk (meanMid qs), sortedSources qs⟩ := by
  have hsum : (qs.map (Quote.mid .exact)).foldl Context.exact.add 0
      = (qs.map (Quote.mid .exact)).sum := by
    rw [List.sum_eq_foldl]
    rfl
  simp only [crossedBook, hsum]
  rfl

theorem meanMid_between {qs : List (Quote Venue)} (hne : qs ≠ []) {least greatest : ℚ}
    (hleast : IsLeast {x | x ∈ prices qs} least)
    (hgreatest : IsGreatest {x | x ∈ prices qs} greatest) :
    least ≤ meanMid qs ∧ meanMid qs ≤ greatest := by
  have hbid : ∀ q ∈ qs, q.bid ∈ prices qs := fun q hq =>
    List.mem_append_left _ (List.mem_map_of_mem hq)
  have hask : ∀ q ∈ qs, q.ask ∈ prices qs := fun q hq =>
    List.mem_append_right _ (List.mem_map_of_mem hq)
  have hmids : qs.map (Quote.mid .exact) ≠ [] := by simpa using hne
  have hlow : ∀ x ∈ qs.map (Quote.mid .exact), least ≤ x := by
    intro x hx
    obtain ⟨q, hq, rfl⟩ := List.mem_map.mp hx
    have h1 := hleast.2 (hbid q hq)
    have h2 := hleast.2 (hask q hq)
    rw [exact_mid]
    linarith
  have hhigh : ∀ x ∈ qs.map (Quote.mid .exact), x ≤ greatest := by
    intro x hx
    obtain ⟨q, hq, rfl⟩ := List.mem_map.mp hx
    have h1 := hgreatest.2 (hbid q hq)
    have h2 := hgreatest.2 (hask q hq)
    rw [exact_mid]
    linarith
  simpa [meanMid] using mean_mem_Icc hmids hlow hhigh

theorem half_bestAsk_lt_meanMid {qs : List (Quote Venue)} (hne : qs ≠ [])
    (hpos : ∀ q ∈ qs, 0 < q.bid ∧ 0 < q.ask) {bestBid bestAsk : ℚ}
    (hbest : IsBest qs bestBid bestAsk) : bestAsk / 2 < meanMid qs := by
  have hmids : qs.map (Quote.mid .exact) ≠ [] := by simpa using hne
  have hlow : ∀ x ∈ qs.map (Quote.mid .exact), bestAsk / 2 < x := by
    intro x hx
    obtain ⟨q, hq, rfl⟩ := List.mem_map.mp hx
    have hbid := (hpos q hq).1
    have hask := hbest.le_ask hq
    rw [exact_mid]
    linarith
  simpa [meanMid] using lt_mean hmids hlow

theorem exists_extremes {l : List ℚ} (hne : l ≠ []) :
    ∃ least greatest, IsLeast {x | x ∈ l} least ∧ IsGreatest {x | x ∈ l} greatest := by
  obtain ⟨a, l, rfl⟩ := List.exists_cons_of_ne_nil hne
  exact ⟨_, _, minOf_isLeast a l, maxOf_isGreatest a l⟩

theorem spread_bounds {bid mid ask : ℚ} (hmid : 0 < mid) (hside : bid ≤ ask)
    (hspread : ask - bid < 2 * mid) : 0 ≤ (ask - bid) / mid ∧ (ask - bid) / mid < 2 := by
  have hdiff : 0 ≤ ask - bid := by linarith
  refine ⟨div_nonneg hdiff hmid.le, ?_⟩
  rw [div_lt_iff₀ hmid]
  exact hspread

/-- **The book of positive quotes is valid.** -/
theorem book_valid [LinearOrder Venue] {q : Quote Venue} {rest : List (Quote Venue)}
    (hpos : ∀ p ∈ q :: rest, 0 < p.bid ∧ 0 < p.ask) : ValidBook (q :: rest) (book .exact q rest) := by
  obtain ⟨bestBid, bestAsk, hbest⟩ : ∃ bestBid bestAsk, IsBest (q :: rest) bestBid bestAsk :=
    ⟨_, _, isBest_book q rest⟩
  obtain ⟨least, greatest, hleast, hgreatest⟩ :=
    exists_extremes (l := prices (q :: rest)) (by simp [prices])
  obtain ⟨p, hp, hpbid⟩ := hbest.bid_mem
  obtain ⟨p', hp', hpask⟩ := hbest.ask_mem
  have hbidPos : 0 < bestBid := hpbid ▸ (hpos p hp).1
  have haskPos : 0 < bestAsk := hpask ▸ (hpos p' hp').2
  have hbidMem : bestBid ∈ prices (q :: rest) := List.mem_append_left _ hbest.bid.1
  have haskMem : bestAsk ∈ prices (q :: rest) := List.mem_append_right _ hbest.ask.1
  rw [book_eq .exact q rest hbest]
  split_ifs with hcross
  · rw [crossedBook_exact]
    have hhalf := half_bestAsk_lt_meanMid (List.cons_ne_nil q rest) hpos hbest
    have hbetween := meanMid_between (List.cons_ne_nil q rest) hleast hgreatest
    have hmid : 0 < meanMid (q :: rest) := by linarith
    have hbid : min bestBid (meanMid (q :: rest)) ≤ meanMid (q :: rest) := min_le_right _ _
    have hask : meanMid (q :: rest) ≤ max bestAsk (meanMid (q :: rest)) := le_max_right _ _
    refine
      { bid_pos := lt_min hbidPos hmid
        bid_le_mid := hbid
        mid_le_ask := hask
        bid_le_best := ⟨_, _, hbest, min_le_left _ _, le_max_left _ _⟩
        mid_between := ⟨_, _, hleast, hgreatest, hbetween⟩
        spread := spread_bounds hmid (hbid.trans hask) ?_
        sources_sorted := sortedSources_pairwise _
        mem_sources := fun v => mem_sortedSources }
    -- where the mean falls decides which side is pulled onto it
    rcases le_total (meanMid (q :: rest)) bestAsk with hlow | hlow
    · rw [max_eq_left hlow, min_eq_right (hlow.trans hcross.le)]
      linarith
    · rw [max_eq_right hlow]
      rcases le_total (meanMid (q :: rest)) bestBid with hhigh | hhigh
      · rw [min_eq_right hhigh]
        linarith
      · rw [min_eq_left hhigh]
        linarith
  · have hle : bestBid ≤ bestAsk := not_lt.mp hcross
    have hmid : 0 < (bestBid + bestAsk) / 2 := by linarith
    refine
      { bid_pos := hbidPos
        bid_le_mid := ?_
        mid_le_ask := ?_
        bid_le_best := ⟨_, _, hbest, le_rfl, le_rfl⟩
        mid_between := ⟨_, _, hleast, hgreatest, ?_, ?_⟩
        spread := spread_bounds hmid hle ?_
        sources_sorted := sortedSources_pairwise _
        mem_sources := fun v => mem_sortedSources }
    · show bestBid ≤ (bestBid + bestAsk) / 2
      linarith
    · show (bestBid + bestAsk) / 2 ≤ bestAsk
      linarith
    · have h1 := hleast.2 hbidMem
      have h2 := hleast.2 haskMem
      show least ≤ (bestBid + bestAsk) / 2
      linarith
    · have h1 := hgreatest.2 hbidMem
      have h2 := hgreatest.2 haskMem
      show (bestBid + bestAsk) / 2 ≤ greatest
      linarith
    · show bestAsk - bestBid < 2 * ((bestBid + bestAsk) / 2)
      linarith

/-! ### Rows -/

theorem ConsolidatedPrice.create_ordered {db : Engine} {instrument : Str} {mid bid ask : ℚ}
    {sources : List Venue} {timestamp : Instant} {row : ConsolidatedPrice db Venue}
    (hrow : ConsolidatedPrice.create db instrument mid bid ask sources timestamp = .ok row)
    (hbid : 0 ≤ bid) (hmid : bid ≤ mid) (hask : mid ≤ ask) :
    0 ≤ row.bid.value ∧ row.bid.value ≤ row.mid.value ∧ row.mid.value ≤ row.ask.value := by
  obtain ⟨m, b, a, hm, hb, ha, rfl⟩ := ConsolidatedPrice.create_eq_ok.mp hrow
  rw [writeDecimal_value hm, writeDecimal_value hb, writeDecimal_value ha]
  exact ⟨db.price.round_nonneg hbid, db.price.mono hmid, db.price.mono hask⟩

/-- **A consolidated snapshot is a valid book, as computed and as stored.** -/
theorem consolidate_valid_book [LinearOrder Venue] (db : Engine) (maxAge : ℚ) (clock : ℕ → Instant)
    (quotes : List (Quote Venue)) :
    ((consolidate .exact maxAge clock quotes).isSome ↔
      ∃ i q, quotes[i]? = some q ∧ 0 < q.bid ∧ 0 < q.ask ∧
        ((clock i - q.timestamp : ℤ) : ℚ) ≤ maxAge * 1000000) ∧
    ∀ c, consolidate .exact maxAge clock quotes = some c →
      ValidBook (candidates maxAge clock quotes) c ∧
      ∀ instrument timestamp row,
        ConsolidatedPrice.create db instrument c.mid c.bid c.ask c.sources timestamp = .ok row →
        0 ≤ row.bid.value ∧ row.bid.value ≤ row.mid.value ∧ row.mid.value ≤ row.ask.value := by
  have hvalid : ∀ c, consolidate .exact maxAge clock quotes = some c →
      ValidBook (candidates maxAge clock quotes) c := by
    intro c hc
    rcases consolidate_cases .exact maxAge clock quotes with ⟨_, hnone⟩ | ⟨q, rest, hcands, hsome⟩
    · rw [hnone] at hc
      simp at hc
    · obtain rfl : book .exact q rest = c := Option.some.inj (hsome.symm.trans hc)
      rw [hcands]
      exact book_valid fun p hp => isPositive_of_mem_candidates (hcands ▸ hp)
  refine ⟨?_, fun c hc => ⟨hvalid c hc, fun instrument timestamp row hrow => ?_⟩⟩
  · rw [isSome_consolidate_iff]
    simp only [mem_candidates, isPositive_iff, isFresh, decide_eq_true_eq, and_assoc]
    exact exists_comm
  · have h := hvalid c hc
    exact ConsolidatedPrice.create_ordered hrow h.bid_pos.le h.bid_le_mid h.mid_le_ask

end Pricestream
