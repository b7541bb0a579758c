import Pricestream.Models
import Pricestream.Python.JsonText
import Pricestream.Python.TimeDelta

/-!
# The consumer that turns quote events into bars

`handleEvent` reads one event and updates a bar for each interval. Reading comes first and writes
nothing: an event without a known instrument, or whose bid or ask does not parse, is dropped, and
whatever else goes wrong is an exception that leaves the function. The three updates are transactions
of their own, so an exception at one of them keeps what the earlier ones wrote; that is why
`applyIntervals` returns a table together with an optional exception.

`_bucket_start` works on the reading of the event's own clock, and counts its seconds through a
floating-point number. The count is an argument of `bucketStartBy`, so that the buckets of the program
can be compared with those of an exact one. In the last microseconds of the year 9999 the count is that
of the next year, which is not a date. The database is taken to hold the start of any bucket that is a
date on the clock of its event. The loop's stop signals are left out: they end it between two polls.
-/

namespace Pricestream

open Library Python
open DateTime (Instant)
open TimeDelta (second wholeSeconds)

/-! ### Bars -/

/-- `INTERVAL_TO_DELTA`, in seconds. -/
def Interval.seconds : Interval → ℤ
  | .m1 => 60
  | .m5 => 300
  | .h1 => 3600

/-- The intervals in the order `handle_event` updates them. -/
def intervals : List Interval := [.m1, .m5, .h1]

/-- `epoch + timedelta(seconds=floored)`, which need not be a date. -/
def flooredStart (seconds : Count second) (ts : DateTime) (interval : Interval) : DateTime :=
  ⟨bucket seconds interval.seconds ts.wall, ts.utcoffset⟩

/-- `_bucket_start`, for a way of counting the seconds of a `timedelta`. -/
def bucketStartBy (seconds : Count second) (ts : DateTime) (interval : Interval) : Except Exc DateTime :=
  let start := flooredStart seconds ts interval
  if start.InRange then pure start else throw .overflowError

/-- The start of the bucket a timestamp falls into, on the timestamp's own clock. -/
def bucketStart (ts : DateTime) (interval : Interval) : Except Exc DateTime :=
  bucketStartBy wholeSeconds ts interval

variable {db : Engine}

/-- The row `get_or_create` inserts; its four price columns are handed the same number. -/
def createBar (db : Engine) (key : BarKey) (price : Decimal) : Except Exc (OHLCBar db) := do
  let cell ← writeDecimal (priceColumn db) price
  pure ⟨key, cell, cell, cell, cell, (priceColumn db).zero, 1⟩

/-- The row `save` writes back. -/
def amendBar (bar : OHLCBar db) (price : Decimal) : Except Exc (OHLCBar db) := do
  let high ← Decimal.max (.finite bar.high.value) price
  let low ← Decimal.min (.finite bar.low.value) price
  let high ← writeDecimal (priceColumn db) high
  let low ← writeDecimal (priceColumn db) low
  let close ← writeDecimal (priceColumn db) price
  pure { bar with high, low, close, tickCount := bar.tickCount + 1 }

/-- `_update_bar`: one transaction, which either commits or leaves the table as it was. -/
def updateBar (instrument : Str) (interval : Interval) (ts : DateTime) (price : Decimal)
    (bars : BarTable db) : Except Exc (BarTable db) := do
  let start ← bucketStart ts interval
  let key := ⟨instrument, interval, start.instant⟩
  match bars.get? key with
  | none => do
      let bar ← createBar db key price
      orRaise .integrityError (bars.insert bar)
  | some bar => do
      let bar ← amendBar bar price
      orRaise .databaseError (bars.save bar)

/-! ### Events -/

/-- What an event is handled with: the decimal context, the instruments, and `str()` of a decoded
value that is not text. -/
structure Env where
  ctx : Context
  instruments : InstrumentTable
  str : Json → Str

/-- What `handle_event` has worked out of an event before it touches a bar. -/
structure Reading where
  instrument : Str
  ts : DateTime
  mid : Decimal

/-- The text a symbol is looked up by: a text as it is, any other value as `str()` prints it. -/
def symbolText (env : Env) : Json → Str
  | .str s => s
  | symbol => env.str symbol

/-- `Instrument.objects.get(symbol=symbol)`; `none` is `DoesNotExist`. -/
def getInstrument (env : Env) (symbol : Json) : Except Exc (Option Instrument) := do
  let symbol ← textParam (symbolText env symbol)
  pure (env.instruments.get? symbol)

def readPrices (fields : List (Str × Json)) : Except Exc (Decimal × Decimal) := do
  let bid ← Decimal.ofJson (← Json.getItem fields (Str.ofString "bid"))
  let ask ← Decimal.ofJson (← Json.getItem fields (Str.ofString "ask"))
  pure (bid, ask)

/-- The timestamp of an event: now, unless the event has one that parses. -/
def readTs (now : Instant) (ts : Json) : Except Exc DateTime :=
  if ts.truthy then
    match ts with
    | .str s => pure ((DateTime.fromisoformat s).getD (.ofInstant now))
    | _ => throw .typeError
  else pure (.ofInstant now)

/-- The part of `handle_event` before the updates; `none` where it returns early. -/
def readEvent (env : Env) (now : Instant) (payload : Json) : Except Exc (Option Reading) :=
  match payload with
  | .obj fields => do
      let symbol := Json.get fields (Str.ofString "instrument")
      if symbol.truthy then
        match ← getInstrument env symbol with
        | none => pure none
        | some instrument =>
            match readPrices fields with
            | .error _ => pure none
            | .ok (bid, ask) => do
                let mid ← Decimal.divNat env.ctx (← Decimal.add env.ctx bid ask) 2
                let ts ← readTs now (Json.get fields (Str.ofString "ts"))
                pure (some ⟨instrument.symbol, ts, mid⟩)
      else pure none
  | _ => throw .attributeError

/-- Update the bars of some intervals in turn. An exception ends the loop and keeps what was written. -/
def applyIntervals (reading : Reading) : List Interval → BarTable db → BarTable db × Option Exc
  | [], bars => (bars, none)
  | interval :: rest, bars =>
      match updateBar reading.instrument interval reading.ts reading.mid bars with
      | .ok bars => applyIntervals reading rest bars
      | .error e => (bars, some e)

/-- Consume one event payload and update bars for every configured interval. -/
def handleEvent (env : Env) (now : Instant) (payload : Json) (bars : BarTable db) :
    BarTable db × Option Exc :=
  match readEvent env now payload with
  | .error e => (bars, some e)
  | .ok none => (bars, none)
  | .ok (some reading) => applyIntervals reading intervals bars

/-! ### The loop -/

/-- `json.loads(msg.value().decode("utf-8"))`. -/
def decodeValue (parseFloat : Str → Python.Float) (value : List ℕ) : Option Json := do
  let text ← Str.decodeUtf8 value
  Json.loads parseFloat text

/-- What one poll yields: nothing, a Kafka error, bytes that do not decode, or a decoded payload with
the reading of the clock at which it is handled. -/
inductive PollResult where
  | none
  | error
  | undecodable
  | message (now : Instant) (payload : Json)

/-- `stop_after is not None and processed >= stop_after`. -/
def reached (stopAfter : Option ℕ) (processed : ℕ) : Bool :=
  stopAfter.any (· ≤ processed)

end Pricestream
