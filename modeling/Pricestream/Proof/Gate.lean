import Pricestream.Proof.Units

/-!
# The staleness gate

While the clock stands still, the gate is a filter. What `consolidate` computes from the quotes let
through does not depend on their order, so its result depends on the live quotes alone, whatever
stale or non-positive ones come with them. Only a mean of mids takes a sum, whose order shows where the
decimal context rounds it; it does not with prices of ten decimal places.

The clock of a real call moves on while the list is scanned, and each quote is measured by a reading
of its own. A quote is let through at an earlier place whenever one no newer is let through at a later
place. At a later place it may be too late: of two quotes of one moment, the first can be let through
and the second dropped. That takes a quote which turns stale between two readings, and when there is
none the gate has one cut-off and the order of the list does not matter.
-/

namespace Pricestream

open Library Python
open DateTime (Instant)

variable {db : Engine} {Venue : Type} {ctx : Context} {maxAge : ℚ} {clock : ℕ → Instant}
  {quotes quotes' : List (Quote Venue)}

/-- Positive, and fresh at a reading of the clock. -/
def isLive (maxAge : ℚ) (now : Instant) (q : Quote Venue) : Bool := isPositive q && isFresh maxAge now q

/-! ### The order of the candidates -/

theorem sortedSources_perm [LinearOrder Venue] (h : quotes.Perm quotes') :
    sortedSources quotes = sortedSources quotes' := by
  have hperm : (sortedSources quotes).Perm (sortedSources quotes') :=
    calc (sortedSources quotes).Perm (quotes.map Quote.source).dedup := List.perm_insertionSort _ _
      _ |>.Perm (quotes'.map Quote.source).dedup := (h.map _).dedup
      _ |>.Perm (sortedSources quotes') := (List.perm_insertionSort _ _).symm
  exact hperm.eq_of_pairwise' (sortedSources_pairwise quotes) (sortedSources_pairwise quotes')

theorem meanMid_perm (h : quotes.Perm quotes') : meanMid quotes = meanMid quotes' := by
  rw [meanMid, meanMid, (h.map _).sum_eq, h.length_eq]

theorem IsBest.perm {bestBid bestAsk : ℚ} (hbest : IsBest quotes bestBid bestAsk)
    (h : quotes.Perm quotes') : IsBest quotes' bestBid bestAsk := by
  have hbid : ∀ x, x ∈ quotes.map Quote.bid ↔ x ∈ quotes'.map Quote.bid := fun _ => (h.map _).mem_iff
  have hask : ∀ x, x ∈ quotes.map Quote.ask ↔ x ∈ quotes'.map Quote.ask := fun _ => (h.map _).mem_iff
  constructor
  · simpa only [hbid] using hbest.bid
  · simpa only [hask] using hbest.ask

/-- The context adds up the mids of the quotes as they are. -/
def AddsExactly (db : Engine) (ctx : Context) (qs : List (Quote Venue)) : Prop :=
  ctx = .exact ∨ ctx = .default ∧ qs.length ≤ 1000 ∧ ∀ q ∈ qs, ExactQuote db q

/-- No bid is above an ask. -/
def Uncrossed (qs : List (Quote Venue)) : Prop := ∀ p ∈ qs, ∀ q ∈ qs, p.bid ≤ q.ask

theorem crossedBook_perm [LinearOrder Venue] (hadds : AddsExactly db ctx quotes)
    (h : quotes.Perm quotes') (bestBid bestAsk : ℚ) :
    crossedBook ctx quotes bestBid bestAsk = crossedBook ctx quotes' bestBid bestAsk := by
  rcases hadds with rfl | ⟨rfl, hcount, hexact⟩
  · rw [crossedBook_exact, crossedBook_exact, meanMid_perm h, sortedSources_perm h]
  · have hexact' : ∀ q ∈ quotes', ExactQuote db q := fun q hq => hexact q (h.mem_iff.mpr hq)
    rw [crossedBook_default hexact hcount, crossedBook_default hexact' (h.length_eq ▸ hcount),
      meanMid_perm h, sortedSources_perm h]

theorem book_perm [LinearOrder Venue] {q q' : Quote Venue} {rest rest' : List (Quote Venue)}
    (hadds : Uncrossed (q :: rest) ∨ AddsExactly db ctx (q :: rest)) (h : (q :: rest).Perm (q' :: rest')) :
    book ctx q rest = book ctx q' rest' := by
  have hbest := isBest_book q rest
  rw [book_eq ctx q rest hbest, book_eq ctx q' rest' (hbest.perm h)]
  split_ifs with hcross
  · refine crossedBook_perm (hadds.resolve_left fun huncrossed => ?_) h _ _
    obtain ⟨top, htop, htopBid⟩ := hbest.bid_mem
    obtain ⟨bottom, hbottom, hbottomAsk⟩ := hbest.ask_mem
    rw [← htopBid, ← hbottomAsk] at hcross
    exact hcross.not_ge (huncrossed top htop bottom hbottom)
  · rw [plainBook, plainBook, sortedSources_perm h]

/-- What `consolidate` makes of the quotes it lets through. -/
def bookOf [LinearOrder Venue] (ctx : Context) : List (Quote Venue) → Option (Consolidated Venue)
  | [] => none
  | q :: rest => some (book ctx q rest)

theorem consolidate_eq_bookOf [LinearOrder Venue] (ctx : Context) (maxAge : ℚ) (clock : ℕ → Instant)
    (quotes : List (Quote Venue)) :
    consolidate ctx maxAge clock quotes = bookOf ctx (candidates maxAge clock quotes) := by
  unfold consolidate bookOf
  cases candidates maxAge clock quotes <;> rfl

/-- **The order of the candidates does not matter.** -/
theorem bookOf_perm [LinearOrder Venue] (hadds : Uncrossed quotes ∨ AddsExactly db ctx quotes)
    (h : quotes.Perm quotes') : bookOf ctx quotes = bookOf ctx quotes' := by
  cases quotes with
  | nil => rw [h.nil_eq]
  | cons q rest =>
      cases quotes' with
      | nil => exact absurd h.eq_nil (List.cons_ne_nil q rest)
      | cons q' rest' => exact congrArg some (book_perm hadds h)

/-- Half of the last place is lost on one, twice, but not the sum of two halves. -/
example : bookOf .default [(⟨0, 1, 1, 0⟩ : Quote ℕ), ⟨1, 5 / 10 ^ 28, 5 / 10 ^ 28, 0⟩,
      ⟨2, 5 / 10 ^ 28, 5 / 10 ^ 28, 0⟩] ≠
    bookOf .default [(⟨1, 5 / 10 ^ 28, 5 / 10 ^ 28, 0⟩ : Quote ℕ), ⟨2, 5 / 10 ^ 28, 5 / 10 ^ 28, 0⟩,
      ⟨0, 1, 1, 0⟩] := by decide +kernel

/-! ### One reading -/

theorem candidates_const (maxAge : ℚ) (now : Instant) (quotes : List (Quote Venue)) :
    candidates maxAge (fun _ => now) quotes = quotes.filter (isLive maxAge now) := by
  apply candidates_eq_filter
  intro i q _
  rfl

/-- **Consolidation depends on the live quotes alone.** -/
theorem consolidate_of_live [LinearOrder Venue] {now : Instant}
    (h : (quotes.filter (isLive maxAge now)).Perm (quotes'.filter (isLive maxAge now))) :
    consolidate .exact maxAge (fun _ => now) quotes =
      consolidate .exact maxAge (fun _ => now) quotes' := by
  rw [consolidate_eq_bookOf, consolidate_eq_bookOf, candidates_const, candidates_const]
  have hadds : AddsExactly .postgres .exact (quotes.filter (isLive maxAge now)) := Or.inl rfl
  exact bookOf_perm (Or.inr hadds) h

/-- A minute after the epoch: two live quotes, and the same two among a stale and a non-positive one. -/
theorem consolidate_of_live_shuffled :
    consolidate .exact 30 (fun _ => 60000000)
        [(⟨0, 100, 102, 60000000⟩ : Quote ℕ), ⟨1, 103, 104, 50000000⟩] =
      consolidate .exact 30 (fun _ => 60000000)
        [⟨1, 103, 104, 50000000⟩, ⟨2, 1, 2, 0⟩, ⟨3, 0, 5, 60000000⟩, ⟨0, 100, 102, 60000000⟩] := by
  apply consolidate_of_live
  decide +kernel

/-! ### One reading for each quote -/

/-- The quotes `consolidate` lets through, with their places in the list. -/
def kept (maxAge : ℚ) (clock : ℕ → Instant) (quotes : List (Quote Venue)) : List (Quote Venue × ℕ) :=
  quotes.zipIdx.filter fun (q, i) => isPositive q && isFresh maxAge (clock i) q

theorem candidates_eq_kept (maxAge : ℚ) (clock : ℕ → Instant) (quotes : List (Quote Venue)) :
    candidates maxAge clock quotes = (kept maxAge clock quotes).map Prod.fst := rfl

/-- The readings are taken in the order of the list: one for each positive quote. -/
def ReadsForward (clock : ℕ → Instant) (quotes : List (Quote Venue)) : Prop :=
  ∀ i j q q', i ≤ j → quotes[i]? = some q → quotes[j]? = some q' →
    isPositive q = true → isPositive q' = true → clock i ≤ clock j

/-- Every reading is taken in a stretch of time. -/
def ReadsWithin (first last : Instant) (clock : ℕ → Instant) (quotes : List (Quote Venue)) : Prop :=
  ∀ i q, quotes[i]? = some q → isPositive q = true → first ≤ clock i ∧ clock i ≤ last

/-- Whatever is no older than a quote let through is let through. -/
def CutsOnce (maxAge : ℚ) (clock : ℕ → Instant) (quotes : List (Quote Venue)) : Prop :=
  ∀ i j q q', (q, i) ∈ kept maxAge clock quotes → quotes[j]? = some q' → isPositive q' = true →
    q.timestamp ≤ q'.timestamp → (q', j) ∈ kept maxAge clock quotes

theorem isFresh_of_le {q q' : Quote Venue} {now now' : Instant} (hnow : now' ≤ now)
    (hts : q.timestamp ≤ q'.timestamp) (h : isFresh maxAge now q = true) :
    isFresh maxAge now' q' = true := by
  have hage : ((now - q.timestamp : ℤ) : ℚ) ≤ maxAge * 1000000 := of_decide_eq_true h
  have hyounger : ((now' - q'.timestamp : ℤ) : ℚ) ≤ ((now - q.timestamp : ℤ) : ℚ) := by
    exact_mod_cast sub_le_sub hnow hts
  exact decide_eq_true (hyounger.trans hage)

theorem mem_kept {i : ℕ} {q : Quote Venue} :
    (q, i) ∈ kept maxAge clock quotes ↔
      quotes[i]? = some q ∧ isPositive q = true ∧ isFresh maxAge (clock i) q = true := by
  simp [kept, List.mem_zipIdx_iff_getElem?]

theorem kept_of_earlier (hclock : ReadsForward clock quotes) {i j : ℕ} {q q' : Quote Venue}
    (hle : j ≤ i) (hkept : (q, i) ∈ kept maxAge clock quotes) (hj : quotes[j]? = some q')
    (hpos : isPositive q' = true) (hts : q.timestamp ≤ q'.timestamp) :
    (q', j) ∈ kept maxAge clock quotes := by
  obtain ⟨hi, hpos', hfresh⟩ := mem_kept.mp hkept
  exact mem_kept.mpr ⟨hj, hpos, isFresh_of_le (hclock j i q' q hle hj hi hpos hpos') hts hfresh⟩

/-- What is dropped though no older turned stale between the two readings. -/
theorem turned_stale (hclock : ReadsForward clock quotes) {i j : ℕ} {q q' : Quote Venue}
    (hkept : (q, i) ∈ kept maxAge clock quotes) (hj : quotes[j]? = some q')
    (hpos : isPositive q' = true) (hts : q.timestamp ≤ q'.timestamp)
    (hdropped : (q', j) ∉ kept maxAge clock quotes) :
    i < j ∧ isFresh maxAge (clock i) q' = true ∧ isFresh maxAge (clock j) q' = false := by
  obtain ⟨_, _, hfresh⟩ := mem_kept.mp hkept
  refine ⟨?_, isFresh_of_le le_rfl hts hfresh, ?_⟩
  · by_contra hle
    exact hdropped (kept_of_earlier hclock (not_lt.mp hle) hkept hj hpos hts)
  · rw [← Bool.not_eq_true]
    intro hstill
    exact hdropped (mem_kept.mpr ⟨hj, hpos, hstill⟩)

/-! ### No quote turns stale -/

section Steady

variable {first last : Instant}

theorem isFresh_iff_of_steady (hwithin : ReadsWithin first last clock quotes)
    (hsteady : ∀ q ∈ quotes, isPositive q = true → isFresh maxAge first q = true →
      isFresh maxAge last q = true) {i : ℕ} {q : Quote Venue} (hi : quotes[i]? = some q)
    (hpos : isPositive q = true) :
    isFresh maxAge (clock i) q = true ↔ isFresh maxAge first q = true := by
  obtain ⟨hfirst, hlast⟩ := hwithin i q hi hpos
  constructor
  · exact isFresh_of_le hfirst le_rfl
  · intro h
    exact isFresh_of_le hlast le_rfl (hsteady q (List.mem_of_getElem? hi) hpos h)

theorem candidates_of_steady (hwithin : ReadsWithin first last clock quotes)
    (hsteady : ∀ q ∈ quotes, isPositive q = true → isFresh maxAge first q = true →
      isFresh maxAge last q = true) :
    candidates maxAge clock quotes = quotes.filter (isLive maxAge first) := by
  apply candidates_eq_filter
  intro i q hi
  rw [isLive, Bool.eq_iff_iff, Bool.and_eq_true, Bool.and_eq_true]
  exact and_congr_right fun hpos => isFresh_iff_of_steady hwithin hsteady hi hpos

theorem cutsOnce_of_steady (hwithin : ReadsWithin first last clock quotes)
    (hsteady : ∀ q ∈ quotes, isPositive q = true → isFresh maxAge first q = true →
      isFresh maxAge last q = true) : CutsOnce maxAge clock quotes := by
  intro i j q q' hkept hj hpos hts
  obtain ⟨hi, hpos', hfresh⟩ := mem_kept.mp hkept
  have hfirst := (isFresh_iff_of_steady hwithin hsteady hi hpos').mp hfresh
  apply mem_kept.mpr
  exact ⟨hj, hpos,
    (isFresh_iff_of_steady hwithin hsteady hj hpos).mpr (isFresh_of_le le_rfl hts hfirst)⟩

end Steady

/-- **The gate measures each quote by its own reading.** -/
theorem gate_measures_each_quote [LinearOrder Venue] (db : Engine) (hclock : ReadsForward clock quotes) :
    (∀ ctx, consolidate ctx maxAge clock quotes =
      bookOf ctx ((kept maxAge clock quotes).map Prod.fst)) ∧
    (∀ i j q q', j ≤ i → (q, i) ∈ kept maxAge clock quotes → quotes[j]? = some q' →
      isPositive q' = true → q.timestamp ≤ q'.timestamp → (q', j) ∈ kept maxAge clock quotes) ∧
    (∀ i j q q', (q, i) ∈ kept maxAge clock quotes → quotes[j]? = some q' → isPositive q' = true →
      q.timestamp ≤ q'.timestamp → (q', j) ∉ kept maxAge clock quotes →
        i < j ∧ isFresh maxAge (clock i) q' = true ∧ isFresh maxAge (clock j) q' = false) ∧
    ∀ first last, ReadsWithin first last clock quotes →
      (∀ q ∈ quotes, isPositive q = true → isFresh maxAge first q = true →
        isFresh maxAge last q = true) →
      CutsOnce maxAge clock quotes ∧
      ∀ quotes' clock', quotes'.Perm quotes → ReadsWithin first last clock' quotes' →
        (candidates maxAge clock' quotes').Perm (candidates maxAge clock quotes) ∧
        ∀ ctx, Uncrossed (candidates maxAge clock quotes) ∨
            AddsExactly db ctx (candidates maxAge clock quotes) →
          consolidate ctx maxAge clock quotes = consolidate ctx maxAge clock' quotes' := by
  refine ⟨fun ctx => candidates_eq_kept maxAge clock quotes ▸ consolidate_eq_bookOf ctx maxAge clock quotes,
    fun i j q q' hle hkept hj hpos hts => kept_of_earlier hclock hle hkept hj hpos hts,
    fun i j q q' hkept hj hpos hts hdropped => turned_stale hclock hkept hj hpos hts hdropped, ?_⟩
  intro first last hwithin hsteady
  refine ⟨cutsOnce_of_steady hwithin hsteady, fun quotes' clock' hperm hwithin' => ?_⟩
  have hsteady' : ∀ q ∈ quotes', isPositive q = true → isFresh maxAge first q = true →
      isFresh maxAge last q = true := fun q hq => hsteady q (hperm.mem_iff.mp hq)
  have hcands : (candidates maxAge clock' quotes').Perm (candidates maxAge clock quotes) := by
    rw [candidates_of_steady hwithin hsteady, candidates_of_steady hwithin' hsteady']
    exact hperm.filter _
  refine ⟨hcands, fun ctx hadds => ?_⟩
  rw [consolidate_eq_bookOf, consolidate_eq_bookOf]
  exact bookOf_perm hadds hcands.symm

/-! ### Thirty seconds later -/

/-- Two venues quoted at the same moment. -/
def sameMoment : List (Quote ℕ) := [⟨0, 100, 102, 0⟩, ⟨1, 101, 103, 0⟩]

/-- A reading each microsecond from a given one on. -/
def ticking (start : Instant) (i : ℕ) : Instant := start + i

theorem readsForward_ticking (start : Instant) : ReadsForward (ticking start) sameMoment := by
  intro i j q q' hle _ _ _ _
  have hcast : (i : ℤ) ≤ j := by exact_mod_cast hle
  exact Int.add_le_add_left hcast start

theorem readsWithin_ticking {qs : List (Quote ℕ)} (hlen : qs.length = 2) (start : Instant) :
    ReadsWithin start (start + 1) (ticking start) qs := by
  intro i q hi _
  have hlt : i < qs.length := (List.getElem?_eq_some_iff.mp hi).1
  have hstep : (0 : ℤ) ≤ i ∧ (i : ℤ) ≤ 1 := by omega
  exact ⟨Int.le_add_of_nonneg_right hstep.1, Int.add_le_add_left hstep.2 start⟩

/-- Well within the limit, the gate cuts once, and either order gives the same. -/
theorem sameMoment_cutsOnce :
    CutsOnce 30 (ticking 1000000) sameMoment ∧
      consolidate .default 30 (ticking 1000000) sameMoment =
        consolidate .default 30 (ticking 1000000) sameMoment.reverse := by
  obtain ⟨_, _, _, hsteady⟩ :=
    gate_measures_each_quote .postgres (readsForward_ticking 1000000)
  have hfresh : ∀ q ∈ sameMoment, isPositive q = true → isFresh 30 1000000 q = true →
      isFresh 30 1000001 q = true := by decide +kernel
  obtain ⟨hcuts, hsame⟩ := hsteady 1000000 1000001 (readsWithin_ticking rfl 1000000) hfresh
  refine ⟨hcuts, (hsame sameMoment.reverse (ticking 1000000) (List.reverse_perm sameMoment)
    (readsWithin_ticking rfl 1000000)).2 .default (Or.inr (Or.inr ⟨rfl, ?_⟩))⟩
  decide +kernel

/-- At the limit the first of the two is kept and the second dropped, whichever comes first. -/
theorem sameMoment_split :
    ReadsForward (ticking 30000000) sameMoment ∧ ¬ CutsOnce 30 (ticking 30000000) sameMoment ∧
      consolidate .default 30 (ticking 30000000) sameMoment ≠
        consolidate .default 30 (ticking 30000000) sameMoment.reverse := by
  have hkept : ((⟨0, 100, 102, 0⟩ : Quote ℕ), 0) ∈ kept 30 (ticking 30000000) sameMoment := by
    decide +kernel
  have hdropped : ((⟨1, 101, 103, 0⟩ : Quote ℕ), 1) ∉ kept 30 (ticking 30000000) sameMoment := by
    decide +kernel
  refine ⟨readsForward_ticking 30000000, fun hcuts => hdropped ?_, by decide +kernel⟩
  exact hcuts 0 1 ⟨0, 100, 102, 0⟩ ⟨1, 101, 103, 0⟩ hkept rfl (by decide +kernel) le_rfl

end Pricestream
