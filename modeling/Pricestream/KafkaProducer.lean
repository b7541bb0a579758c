import Pricestream.Models
import Pricestream.Python.DecimalText
import Pricestream.Python.IsoFormat
import Pricestream.Python.JsonText

/-!
# The producer of quote events

`publishQuote` writes a quote as a JSON object of texts. It prints the numbers and the timestamp as they
are held in memory, with all their digits, so a quote is kept here the way Python holds it; `toQuote`
says which quote of the other modules it is. The topic and the delivery reports are left out.
-/

namespace Pricestream

open Library Python

/-- A `Quote` in memory, with finite prices. -/
structure QuoteObject where
  source : Str
  bid : DecimalTuple
  ask : DecimalTuple
  timestamp : UtcDateTime

def QuoteObject.toQuote (quote : QuoteObject) : Quote Str :=
  ⟨quote.source, quote.bid.value, quote.ask.value, quote.timestamp.toDateTime.instant⟩

/-- What is handed to `produce`. -/
structure Record where
  key : List ℕ
  value : List ℕ
  deriving DecidableEq

def QuoteObject.payload (symbol : Str) (quote : QuoteObject) : List (Str × Str) :=
  [(Str.ofString "instrument", symbol),
    (Str.ofString "source", quote.source),
    (Str.ofString "bid", quote.bid.str),
    (Str.ofString "ask", quote.ask.str),
    (Str.ofString "ts", quote.timestamp.isoformat)]

def publishQuote (symbol : Str) (quote : QuoteObject) : Except Exc Record := do
  let key ← Str.encodeUtf8 symbol
  let value ← Str.encodeUtf8 (Json.dumps (quote.payload symbol))
  pure ⟨key, value⟩

end Pricestream
