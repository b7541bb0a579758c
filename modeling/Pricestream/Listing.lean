import Pricestream.Library.Paging
import Pricestream.KafkaConsumer
import Pricestream.Stats

/-!
# Listing bars

The bars are listed a page at a time, filtered by instrument and interval and by default the latest
bucket first. A page is two queries, the count and the rows, and each sees the table as it is when it
runs. The rows come in any arrangement that respects the order of their buckets.
-/

namespace Pricestream

open Library Python
open DateTime (Instant)

variable {db : Engine}

/-- `PAGE_SIZE`. -/
def pageSize : ℕ := 50

/-- `ordering=bucket_start`, and the default. -/
inductive BarOrder where
  | bucketStart
  | minusBucketStart
  deriving DecidableEq, Repr

def BarOrder.score : BarOrder → OHLCBar db → ℤ
  | .bucketStart, bar => bar.key.bucketStart
  | .minusBucketStart, bar => -bar.key.bucketStart

/-- Answers to a query for bars in some order. -/
abbrev BarArrangement (db : Engine) (order : BarOrder) :=
  Arrangement fun a b : OHLCBar db => order.score a ≤ order.score b

/-- The values of `OHLCBar.Interval`. -/
def Interval.value : Interval → Str
  | .m1 => Str.ofString "1m"
  | .m5 => Str.ofString "5m"
  | .h1 => Str.ofString "1h"

def Interval.ofValue (value : Str) : Option Interval := intervals.find? fun i => i.value = value

/-- A query parameter that is there and not empty. -/
def queryParam : Option Str → Option Str
  | none | some [] => none
  | some text => some text

/-- `OHLCViewSet.get_queryset`. -/
def ohlcBars (symbol : Option Str) (interval : Option Interval) (bars : BarTable db) :
    List (OHLCBar db) :=
  bars.rows.filter fun bar =>
    symbol.all (bar.key.instrument = ·) ∧ interval.all (bar.key.interval = ·)

structure OHLCBarData where
  instrument : Str
  interval : Interval
  bucketStart : Instant
  «open» : ℚ
  high : ℚ
  low : ℚ
  close : ℚ
  volume : ℚ
  tickCount : ℕ

/-- `OHLCBarSerializer(bar).data`. -/
def serializeOHLCBar (bar : OHLCBar db) : Except Exc OHLCBarData := do
  let «open» ← toRepresentation priceField bar.open.value
  let high ← toRepresentation priceField bar.high.value
  let low ← toRepresentation priceField bar.low.value
  let close ← toRepresentation priceField bar.close.value
  let volume ← toRepresentation priceField bar.volume.value
  pure ⟨bar.key.instrument, bar.key.interval, bar.key.bucketStart, «open», high, low, close, volume,
    bar.tickCount⟩

/-- The list of `OHLCViewSet`. An interval that is no choice is refused before there is a query; the
rows are counted in one table and read in another. -/
def listOhlc {order : BarOrder} (arrangement : BarArrangement db order) (symbol interval : Option Str)
    (number : ℕ) (counted fetched : BarTable db) : Except Exc (Response (Page OHLCBarData)) :=
  match (queryParam interval).map Interval.ofValue with
  | some none => pure (.refused 400 none)
  | interval => do
      let symbol ← (queryParam symbol).mapM textParam
      let rows := ohlcBars symbol interval.join
      match paginate pageSize number (rows counted).length (arrangement.arrange (rows fetched)) with
      | none => pure (.refused 404 none)
      | some page => do
          let results ← page.results.mapM serializeOHLCBar
          pure (.data { page with results })

end Pricestream
