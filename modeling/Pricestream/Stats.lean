import Pricestream.Library.Arrangement
import Pricestream.Library.Extrema
import Pricestream.Serializers

/-!
# Reading the tape

Two ways of reading the consolidated tape of an instrument: its statistics over the last seconds, and
its latest row. Both ask the database for rows in the order of their timestamps, one ascending over a
window, the other descending over everything. The database answers with any arrangement that respects
the order it was asked for, so the arrangements are arguments, one for each query.

`pstdev` stands for the standard deviation, which is computed in floating point and turned back into a
decimal; `none` is its `StatisticsError`. The view clamps the window to a day, which keeps the start of
the window a date. A symbol that is looked up is a text parameter like any other.
-/

namespace Pricestream

open Library Python
open DateTime (Instant)

variable {db : Engine} {Venue : Type}

/-! ### Queries -/

abbrev NotAfter (a b : ConsolidatedPrice db Venue) : Prop := a.timestamp ≤ b.timestamp

/-- Answers to `order_by("timestamp")`. -/
abbrev Ascending (db : Engine) (Venue : Type) := Arrangement (@NotAfter db Venue)

/-- Answers to `order_by("-timestamp")`. -/
abbrev Descending (db : Engine) (Venue : Type) :=
  Arrangement fun a b : ConsolidatedPrice db Venue => NotAfter b a

/-- `filter(instrument=instrument)`. -/
def pricesFor (instrument : Str) (prices : List (ConsolidatedPrice db Venue)) :
    List (ConsolidatedPrice db Venue) :=
  prices.filter fun row => row.instrument = instrument

/-- `filter(instrument=instrument, timestamp__gte=now - timedelta(seconds=window_seconds))`. -/
def pricesSince (instrument : Str) (windowSeconds : ℤ) (now : Instant)
    (prices : List (ConsolidatedPrice db Venue)) : List (ConsolidatedPrice db Venue) :=
  prices.filter fun row => row.instrument = instrument ∧ now - windowSeconds * 1000000 ≤ row.timestamp

/-! ### Statistics -/

structure RollingStats where
  instrument : Str
  windowSeconds : ℤ
  samples : ℕ
  lastMid : Option ℚ
  avgMid : Option ℚ
  minMid : Option ℚ
  maxMid : Option ℚ
  midStdev : Option ℚ
  avgSpreadBps : Option ℚ
  deriving DecidableEq

/-- The spread of a row in basis points of its mid. -/
def ConsolidatedPrice.spreadBps (ctx : Context) (row : ConsolidatedPrice db Venue) : ℚ :=
  ctx.mul (ctx.div (ctx.sub row.ask.value row.bid.value) row.mid.value) 10000

/-- The spreads of the rows with a positive mid. -/
def spreadsBps (ctx : Context) (rows : List (ConsolidatedPrice db Venue)) : List ℚ :=
  (rows.filter fun row => 0 < row.mid.value).map (ConsolidatedPrice.spreadBps ctx)

/-- `sum(xs, Decimal(0)) / Decimal(len(xs))`. -/
def average (ctx : Context) (xs : List ℚ) : ℚ := ctx.div (xs.foldl ctx.add 0) xs.length

/-- The statistics of the rows of a window, in the order the database returns them. -/
def statsOf (ctx : Context) (pstdev : List ℚ → Option ℚ) (instrument : Str) (windowSeconds : ℤ) :
    List (ConsolidatedPrice db Venue) → RollingStats
  | [] => ⟨instrument, windowSeconds, 0, none, none, none, none, none, none⟩
  | row :: rest =>
      let mids := (row :: rest).map fun row => row.mid.value
      let spreads := spreadsBps ctx (row :: rest)
      { instrument
        windowSeconds
        samples := (row :: rest).length
        lastMid := mids.getLast?
        avgMid := some (average ctx mids)
        minMid := some (minOf row.mid.value (rest.map fun row => row.mid.value))
        maxMid := some (maxOf row.mid.value (rest.map fun row => row.mid.value))
        midStdev := some ((pstdev mids).getD 0)
        avgSpreadBps := if spreads = [] then none else some (average ctx spreads) }

/-- Compute descriptive stats over the last `window_seconds` of consolidated prices. -/
def computeRollingStats (ctx : Context) (pstdev : List ℚ → Option ℚ) (asc : Ascending db Venue)
    (prices : List (ConsolidatedPrice db Venue)) (instrument : Str) (windowSeconds : ℤ) (now : Instant) :
    RollingStats :=
  statsOf ctx pstdev instrument windowSeconds
    (asc.arrange (pricesSince instrument windowSeconds now prices))

/-! ### Views -/

/-- A response with data, or one with a status and the text of its detail, if the view chose one. -/
inductive Response (α : Type) where
  | data (body : α)
  | refused (status : ℕ) (detail : Option Str)

/-- `get_object_or_404(Instrument, symbol=symbol)`, for a parameter that is there and not empty. -/
def findInstrument (instruments : InstrumentTable) (symbol : Str) : Except Exc (Option Instrument) := do
  let symbol ← textParam symbol
  pure (instruments.get? symbol)

/-- The first row of an instrument's tape in descending order. -/
def latestPrice (desc : Descending db Venue) (prices : List (ConsolidatedPrice db Venue))
    (instrument : Str) : Option (ConsolidatedPrice db Venue) :=
  (desc.arrange (pricesFor instrument prices)).head?

/-- `QuoteViewSet.latest`: the latest consolidated mid-price for an instrument. -/
def latest (desc : Descending db Venue) (instruments : InstrumentTable)
    (prices : List (ConsolidatedPrice db Venue)) (symbol : Option Str) :
    Except Exc (Response (ConsolidatedPriceData Venue)) :=
  match symbol with
  | none | some [] => pure (.refused 400 (some (Str.ofString "instrument query param required.")))
  | some symbol => do
      match ← findInstrument instruments symbol with
      | none => pure (.refused 404 none)
      | some instrument =>
          match latestPrice desc prices instrument.symbol with
          | none => pure (.refused 404 (some (Str.ofString "no consolidated price yet.")))
          | some row => return .data (← serializeConsolidatedPrice row)

/-- `RollingStatsView.get`; `window` is the parameter as `int` reads it, `none` its `ValueError`. -/
def rollingStats (ctx : Context) (pstdev : List ℚ → Option ℚ) (asc : Ascending db Venue)
    (instruments : InstrumentTable) (prices : List (ConsolidatedPrice db Venue)) (now : Instant)
    (symbol : Option Str) (window : Option ℤ) : Except Exc (Response RollingStats) :=
  match symbol, window with
  | none, _ | some [], _ => pure (.refused 400 (some (Str.ofString "instrument query param required.")))
  | some _, none => pure (.refused 400 (some (Str.ofString "window must be an integer.")))
  | some symbol, some window => do
      let window := max 1 (min window 86400)
      match ← findInstrument instruments symbol with
      | none => pure (.refused 404 none)
      | some instrument =>
          pure (.data (computeRollingStats ctx pstdev asc prices instrument.symbol window now))

end Pricestream
