import Pricestream.Proof.Tasks.Derived
import Pricestream.Serializers

/-!
# Derived rows can be stored

Division of decimals raises when the divisor is zero. The aggregator computes two quotients whose
divisor is not a constant: a spread relative to a mid, and a mean over the candidates. A mid of positive
prices is positive in exact arithmetic, and there is a candidate to take a mean over: `consolidate` is
written once more with a division that raises, and never raises. Since what is computed fits its columns
as well, nothing stands between a round's accepted quotes and the rows derived from them.
-/

namespace Pricestream

open Library Python
open DateTime (Instant)

variable {db : Engine} {Venue : Type}

/-! ### Division -/

section Checked

variable [LinearOrder Venue] (ctx : Context)

def checkedCrossedBook (qs : List (Quote Venue)) (bestBid bestAsk : ℚ) :
    Except Exc (Consolidated Venue) := do
  let mid ← ctx.divide ((qs.map (Quote.mid ctx)).foldl ctx.add 0) qs.length
  pure ⟨mid, min bestBid mid, max bestAsk mid, sortedSources qs⟩

def checkedBook (q : Quote Venue) (rest : List (Quote Venue)) : Except Exc (Consolidated Venue) :=
  let bestBid := maxOf q.bid (rest.map Quote.bid)
  let bestAsk := minOf q.ask (rest.map Quote.ask)
  if bestAsk < bestBid then checkedCrossedBook ctx (q :: rest) bestBid bestAsk
  else pure (plainBook ctx (q :: rest) bestBid bestAsk)

/-- `consolidate`, with the exceptions of its divisions. -/
def checkedConsolidate (maxAge : ℚ) (clock : ℕ → Instant) (quotes : List (Quote Venue)) :
    Except Exc (Option (Consolidated Venue)) :=
  match candidates maxAge clock quotes with
  | [] => pure none
  | q :: rest => do return some (← checkedBook ctx q rest)

theorem checkedBook_eq (q : Quote Venue) (rest : List (Quote Venue)) :
    checkedBook ctx q rest = .ok (book ctx q rest) := by
  have hlength : (((q :: rest).length : ℕ) : ℚ) ≠ 0 := by
    rw [List.length_cons]
    exact Nat.cast_ne_zero.mpr (Nat.succ_ne_zero _)
  unfold checkedBook book
  simp only
  split_ifs with hcross
  · simp only [checkedCrossedBook, Context.divide, if_neg hlength]
    rfl
  · rfl

/-- **`consolidate` divides by no zero.** -/
theorem checkedConsolidate_eq (maxAge : ℚ) (clock : ℕ → Instant) (quotes : List (Quote Venue)) :
    checkedConsolidate ctx maxAge clock quotes = .ok (consolidate ctx maxAge clock quotes) := by
  unfold checkedConsolidate consolidate
  cases candidates maxAge clock quotes with
  | nil => rfl
  | cons q rest =>
      simp only [checkedBook_eq, bind, Except.bind]
      rfl

end Checked

/-! ### Rows -/

section Rows

variable [LinearOrder Venue] {round : Round Venue} {symbol : Str}

/-- Whatever a round derives from the quotes of an instrument is computed and stored. -/
structure DerivedStored (db : Engine) (round : Round Venue) (symbol : Str) : Prop where
  computes_book : checkedConsolidate round.ctx round.maxAge (round.clock.checked symbol)
    (roundQuotes round symbol) = .ok (roundBook round symbol)
  computes_arbitrage : detectArbitrage round.ctx (roundQuotes round symbol) =
    .ok (roundArbitrage round symbol)
  book : ∀ c, roundBook round symbol = some c →
    c.Fits db ∧ ∃ row, storeBook db round symbol c = .ok row
  arbitrage : ∀ arb, roundArbitrage round symbol = some arb →
    arb.Fits db ∧ ∃ row, storeArbitrage db round symbol arb = .ok row

/-- What a client is shown of a stored quote. -/
def RendersBetween (row : QuoteRow db Venue) : Prop :=
  ∃ data, serializeQuote .exact row = .ok data ∧
    data.mid = priceField.round (row.mid .exact) ∧
    min row.bid.value row.ask.value ≤ data.mid ∧ data.mid ≤ max row.bid.value row.ask.value

theorem derivedStored_of_accepted (hctx : round.ctx = .exact) (h : Accepted db round symbol) :
    DerivedStored db round symbol where
  computes_book := checkedConsolidate_eq _ _ _ _
  computes_arbitrage := by
    apply detectArbitrage_eq_roundArbitrage
    rw [hctx]
    exact midsHold_exact _
  book c hc := by
    have hfits := (rowsFit_exact hctx h).book c hc
    exact ⟨hfits, exists_consolidatedPrice_iff.mpr hfits⟩
  arbitrage arb harb := by
    have hfits : arb.Fits db := by
      obtain ⟨_, hfound⟩ := roundArbitrage_eq_some_iff.mp harb
      rw [hctx] at hfound
      exact arbitrage_fits (fun q hq => fits_of_mem_roundQuotes h hq) hfound
    obtain ⟨bps, row, hbps, hrow⟩ := exists_arbitrageOpportunity_iff.mpr hfits
    exact ⟨hfits, row, bind_eq_ok.mpr ⟨bps, hbps, hrow⟩⟩

omit [LinearOrder Venue] in
theorem rendersBetween (row : QuoteRow db Venue) : RendersBetween row := by
  obtain ⟨mid, hdata, hround, hlow, hhigh⟩ := serializeQuote_eq row
  exact ⟨_, hdata, hround, hlow, hhigh⟩

/-- **Derived rows can be stored, and stored quotes rendered.** -/
theorem derived_rows_stored (db : Engine) (hctx : round.ctx = .exact) :
    (∀ symbol, Accepted db round symbol → DerivedStored db round symbol) ∧
      ∀ row : QuoteRow db Venue, RendersBetween row :=
  ⟨fun _ h => derivedStored_of_accepted hctx h, rendersBetween⟩

end Rows

/-! ### At the edge of the column -/

/-- A price beyond the largest that can be stored, which rounds down to it. -/
def edge : ℚ := 10 ^ 14 - 6 / 10 ^ 11

/-- One venue quotes at the edge, the other half a unit. -/
def edgeRound : Round ℕ where
  ctx := .exact
  upper s := s
  collate a b := decide (a ≤ b)
  configured := [Str.ofString "BTC-USD"]
  maxAge := 30
  clients := [⟨0, fun _ => some (.finite edge, .finite edge)⟩,
    ⟨1, fun _ => some (.finite 1, .finite (1 / 2))⟩]
  clock := ⟨fun _ _ => 0, fun _ _ => 0, fun _ => 0, fun _ => 0⟩
  hasLayer := true
  side _ := none

theorem accepted_edgeRound : Accepted .postgres edgeRound (Str.ofString "BTC-USD") := by
  unfold Accepted
  decide +kernel

theorem edgeRound_stored :
    (roundArbitrage edgeRound (Str.ofString "BTC-USD")).isSome ∧
      DerivedStored .postgres edgeRound (Str.ofString "BTC-USD") :=
  ⟨by decide +kernel, (derived_rows_stored .postgres rfl).1 _ accepted_edgeRound⟩

end Pricestream
