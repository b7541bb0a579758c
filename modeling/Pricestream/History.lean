import Mathlib.Data.List.Lex
import Pricestream.Exchanges
import Pricestream.Listing

/-!
# Listing quotes and opportunities

The quotes and the opportunities are listed like the bars, a page at a time, by default the latest
first. What a list view keeps of the table, in which order and what it shows of a row is all that the
two differ in. An opportunity may be listed by several keys, the first that tells two rows apart
deciding; a venue among its parameters is any text, without the white space around it.
-/

namespace Pricestream

open Library Python
open DateTime (Instant)

variable {db : Engine} {α β κ : Type}

/-- What is kept of a table, in which order, and what is shown of a row. -/
structure View (α β κ : Type) where
  keep : α → Bool
  score : α → κ
  render : α → Except Exc β

/-- Answers to a query for rows in the order of a view. -/
abbrev View.Sorts [LE κ] (view : View α β κ) := Arrangement fun a b => view.score a ≤ view.score b

/-- A page of a view. The rows are counted in one table and read in another. -/
def View.list [LE κ] (view : View α β κ) (arrangement : view.Sorts) (number : ℕ)
    (counted fetched : List α) : Except Exc (Response (Page β)) :=
  match paginate pageSize number (counted.filter view.keep).length
      (arrangement.arrange (fetched.filter view.keep)) with
  | none => pure (.refused 404 none)
  | some page => do
      let results ← page.results.mapM view.render
      pure (.data { page with results })

/-! ### Quotes -/

/-- `ordering=timestamp`, and the default. -/
inductive QuoteOrder where
  | timestamp
  | minusTimestamp
  deriving DecidableEq, Repr

def QuoteOrder.score : QuoteOrder → QuoteRow db Source → ℤ
  | .timestamp, row => row.timestamp
  | .minusTimestamp, row => -row.timestamp

/-- `QuoteViewSet.get_queryset`, its filter and its order. -/
def quoteView (db : Engine) (ctx : Context) (order : QuoteOrder) (symbol : Option Str)
    (source : Option Source) : View (QuoteRow db Source) (QuoteData Source) ℤ where
  keep row := symbol.all (row.instrument = ·) && source.all (row.source = ·)
  score := order.score
  render := serializeQuote ctx

/-- The list of `QuoteViewSet`, for a query that asks for rows in some order. A source that is no choice
is refused before there is a query. -/
def listQuotes (ctx : Context) (order : QuoteOrder) (symbol source : Option Str)
    (arrangement : (quoteView db ctx order none none).Sorts) (number : ℕ)
    (counted fetched : List (QuoteRow db Source)) : Except Exc (Response (Page (QuoteData Source))) :=
  match (queryParam source).map Source.ofValue with
  | some none => pure (.refused 400 none)
  | source => do
      let symbol ← (queryParam symbol).mapM textParam
      (quoteView db ctx order symbol source.join).list arrangement number counted fetched

/-! ### Opportunities -/

/-- A term of `ordering`. -/
inductive SignalKey where
  | timestamp
  | minusTimestamp
  | spreadBps
  | minusSpreadBps
  deriving DecidableEq, Repr

def SignalKey.value : SignalKey → ArbitrageOpportunity db Source → ℚ
  | .timestamp, row => row.timestamp
  | .minusTimestamp, row => -row.timestamp
  | .spreadBps, row => row.spreadBps.value
  | .minusSpreadBps, row => -row.spreadBps.value

/-- The terms of `ordering`, or the default if none of them is known. -/
def signalScore (keys : List SignalKey) (row : ArbitrageOpportunity db Source) : List ℚ :=
  (if keys = [] then [.minusTimestamp] else keys).map fun key => key.value row

/-- The text a filter on a text column asks for, if any; a text with a NUL is refused. -/
def charFilter : Option Str → Option (Option Str)
  | none => some none
  | some text =>
      let text := Str.strip text
      if text = [] then some none else if text.contains 0 then none else some (some text)

structure ArbitrageOpportunityData where
  instrument : Str
  buyVenue : Source
  buyPrice : ℚ
  sellVenue : Source
  sellPrice : ℚ
  spread : ℚ
  spreadBps : ℚ
  timestamp : Instant

/-- `serializers.DecimalField(max_digits=12, decimal_places=4)`. -/
def bpsField : NumericColumn :=
  ⟨12, 4, .ofInteger halfEven (fun _ _ h => halfEven_mono h) halfEven_intCast 4⟩

/-- `ArbitrageOpportunitySerializer(row).data`. -/
def serializeArbitrageOpportunity (row : ArbitrageOpportunity db Source) :
    Except Exc ArbitrageOpportunityData := do
  let buyPrice ← toRepresentation priceField row.buyPrice.value
  let sellPrice ← toRepresentation priceField row.sellPrice.value
  let spread ← toRepresentation priceField row.spread.value
  let spreadBps ← toRepresentation bpsField row.spreadBps.value
  pure ⟨row.instrument, row.buyVenue, buyPrice, row.sellVenue, sellPrice, spread, spreadBps,
    row.timestamp⟩

/-- `ArbitrageOpportunityViewSet.get_queryset`, its filters and its order. -/
def signalView (db : Engine) (keys : List SignalKey) (symbol buyVenue sellVenue : Option Str) :
    View (ArbitrageOpportunity db Source) ArbitrageOpportunityData (List ℚ) where
  keep row := symbol.all (row.instrument = ·) && buyVenue.all (row.buyVenue.value = ·) &&
    sellVenue.all (row.sellVenue.value = ·)
  score := signalScore keys
  render := serializeArbitrageOpportunity

/-- The list of `ArbitrageOpportunityViewSet`. -/
def listSignals (keys : List SignalKey) (symbol buyVenue sellVenue : Option Str)
    (arrangement : (signalView db keys none none none).Sorts) (number : ℕ)
    (counted fetched : List (ArbitrageOpportunity db Source)) :
    Except Exc (Response (Page ArbitrageOpportunityData)) :=
  match charFilter buyVenue, charFilter sellVenue with
  | some buyVenue, some sellVenue => do
      let symbol ← (queryParam symbol).mapM textParam
      let buyVenue ← buyVenue.mapM textParam
      let sellVenue ← sellVenue.mapM textParam
      (signalView db keys symbol buyVenue sellVenue).list arrangement number counted fetched
  | _, _ => pure (.refused 400 none)

end Pricestream
