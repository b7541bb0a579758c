import Pricestream.Models

/-!
# What a client is shown of a row

A serializer renders a row field by field. A price field quantizes the number to its decimal places
with as many digits as the field allows, ties to even, and raises when these do not suffice; the mid
of a quote is no column but computed from the row as it is rendered. What is rendered is kept as a
number: its text has all the places of the field.
-/

namespace Pricestream

open Library Python
open DateTime (Instant)

/-- `serializers.DecimalField(max_digits=24, decimal_places=10)`. -/
def priceField : NumericColumn :=
  ⟨24, 10, .ofInteger halfEven (fun _ _ h => halfEven_mono h) halfEven_intCast 10⟩

/-- `to_representation` of a decimal field. -/
def toRepresentation (field : NumericColumn) (x : ℚ) : Except Exc ℚ := do
  let cell ← orRaise .invalidOperation (field.store x)
  pure cell.value

variable {db : Engine} {Venue : Type}

/-- `Quote.mid`, of a stored quote. -/
def QuoteRow.mid (ctx : Context) (row : QuoteRow db Venue) : ℚ :=
  ctx.div (ctx.add row.bid.value row.ask.value) 2

structure QuoteData (Venue : Type) where
  instrument : Str
  source : Venue
  bid : ℚ
  ask : ℚ
  mid : ℚ
  timestamp : Instant

/-- `QuoteSerializer(row).data`. -/
def serializeQuote (ctx : Context) (row : QuoteRow db Venue) : Except Exc (QuoteData Venue) := do
  let bid ← toRepresentation priceField row.bid.value
  let ask ← toRepresentation priceField row.ask.value
  let mid ← toRepresentation priceField (row.mid ctx)
  pure ⟨row.instrument, row.source, bid, ask, mid, row.timestamp⟩

structure ConsolidatedPriceData (Venue : Type) where
  instrument : Str
  mid : ℚ
  bid : ℚ
  ask : ℚ
  sources : List Venue
  timestamp : Instant

/-- `ConsolidatedPriceSerializer(row).data`. -/
def serializeConsolidatedPrice (row : ConsolidatedPrice db Venue) :
    Except Exc (ConsolidatedPriceData Venue) := do
  let mid ← toRepresentation priceField row.mid.value
  let bid ← toRepresentation priceField row.bid.value
  let ask ← toRepresentation priceField row.ask.value
  pure ⟨row.instrument, mid, bid, ask, row.sources, row.timestamp⟩

/-! ### What is rendered -/

theorem toRepresentation_of_fits {field : NumericColumn} {x : ℚ} (h : field.Fits x) :
    toRepresentation field x = .ok (field.round x) := by
  rw [toRepresentation, field.store_of_fits h]
  rfl

/-- A stored price is on the grid of a price field already. -/
theorem round_price (cell : Price db) : priceField.round cell.value = cell.value := by
  obtain ⟨k, hk⟩ := db.price.round_eq_self_iff.mp cell.rounded
  exact priceField.rounding.round_eq_self_iff.mpr ⟨k, hk⟩

theorem fits_price (cell : Price db) : priceField.Fits cell.value := by
  rw [NumericColumn.Fits, round_price]
  exact cell.inRange

theorem toRepresentation_price (cell : Price db) :
    toRepresentation priceField cell.value = .ok cell.value := by
  rw [toRepresentation_of_fits (fits_price cell), round_price]

theorem serializeConsolidatedPrice_eq (row : ConsolidatedPrice db Venue) :
    serializeConsolidatedPrice row = .ok
      ⟨row.instrument, row.mid.value, row.bid.value, row.ask.value, row.sources, row.timestamp⟩ := by
  simp only [serializeConsolidatedPrice, toRepresentation_price, bind, Except.bind]
  rfl

/-- **A quote can be rendered.** Its mid lies between the two prices, whatever their signs. -/
theorem serializeQuote_eq (row : QuoteRow db Venue) :
    ∃ mid, serializeQuote .exact row = .ok
        ⟨row.instrument, row.source, row.bid.value, row.ask.value, mid, row.timestamp⟩ ∧
      mid = priceField.round ((row.bid.value + row.ask.value) / 2) ∧
      min row.bid.value row.ask.value ≤ mid ∧ mid ≤ max row.bid.value row.ask.value := by
  have hlow : min row.bid.value row.ask.value ≤ (row.bid.value + row.ask.value) / 2 := by
    have hbid := min_le_left row.bid.value row.ask.value
    have hask := min_le_right row.bid.value row.ask.value
    linarith
  have hhigh : (row.bid.value + row.ask.value) / 2 ≤ max row.bid.value row.ask.value := by
    have hbid := le_max_left row.bid.value row.ask.value
    have hask := le_max_right row.bid.value row.ask.value
    linarith
  have hfits : priceField.Fits ((row.bid.value + row.ask.value) / 2) :=
    priceField.fits_of_between (priceField.fits_min (fits_price row.bid) (fits_price row.ask))
      (priceField.fits_max (fits_price row.bid) (fits_price row.ask)) hlow hhigh
  have hmin : priceField.round (min row.bid.value row.ask.value) = min row.bid.value row.ask.value := by
    rcases min_choice row.bid.value row.ask.value with h | h <;> rw [h, round_price]
  have hmax : priceField.round (max row.bid.value row.ask.value) = max row.bid.value row.ask.value := by
    rcases max_choice row.bid.value row.ask.value with h | h <;> rw [h, round_price]
  refine ⟨_, ?_, rfl, hmin ▸ priceField.rounding.mono hlow, hmax ▸ priceField.rounding.mono hhigh⟩
  have hmid : row.mid .exact = (row.bid.value + row.ask.value) / 2 := rfl
  simp only [serializeQuote, toRepresentation_price, hmid, toRepresentation_of_fits hfits, bind,
    Except.bind]
  rfl

end Pricestream
