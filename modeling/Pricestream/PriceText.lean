import Pricestream.Consumers
import Pricestream.Exchanges
import Pricestream.Python.DecimalText
import Pricestream.Python.IsoFormat
import Pricestream.Python.JsonDump

/-!
# The texts of prices

What goes into the cache and to the group is a dictionary of texts and a list of them, and what a client
is sent is that dictionary as JSON. `connect` puts the instrument in front of the dictionary from the
cache; the payload of a group message has it already. Both are made from the object of the consolidated
price, whose numbers print as they are held in memory.
-/

namespace Pricestream

open Library Python

/-- A `ConsolidatedPrice` in memory. -/
structure PriceObject where
  mid : DecimalTuple
  bid : DecimalTuple
  ask : DecimalTuple
  sources : List Source
  timestamp : UtcDateTime

namespace PriceObject

variable (cp : PriceObject)

def toSnapshot : Snapshot Source :=
  ⟨cp.mid.value, cp.bid.value, cp.ask.value, cp.sources, cp.timestamp.toDateTime.instant⟩

/-- What `cache.set` is given. -/
def cached : List (Str × Plain) :=
  [(Str.ofString "mid", .str cp.mid.str),
    (Str.ofString "bid", .str cp.bid.str),
    (Str.ofString "ask", .str cp.ask.str),
    (Str.ofString "sources", .list (cp.sources.map fun s => .str s.value)),
    (Str.ofString "ts", .str cp.timestamp.isoformat)]

/-- The payload that `_broadcast_ws` sends to the group. -/
def payload (symbol : Str) : List (Str × Plain) :=
  [(Str.ofString "instrument", .str symbol),
    (Str.ofString "mid", .str cp.mid.str),
    (Str.ofString "bid", .str cp.bid.str),
    (Str.ofString "ask", .str cp.ask.str),
    (Str.ofString "sources", .list (cp.sources.map fun s => .str s.value)),
    (Str.ofString "ts", .str cp.timestamp.isoformat)]

end PriceObject

namespace QuoteConsumer

/-- What `connect` sends: `json.dumps({"instrument": self.symbol, **snapshot})`. -/
def snapshotText (consumer : QuoteConsumer) (snapshot : List (Str × Plain)) : Str :=
  (Plain.dict ((Str.ofString "instrument", .str consumer.symbol) :: snapshot)).dumps

/-- What `quote_update` sends: `json.dumps(event["payload"])`. -/
def updateText (payload : List (Str × Plain)) : Str := (Plain.dict payload).dumps

end QuoteConsumer

/-! ### What a client can make of a text -/

def textOf? : Json → Option Str
  | .str s => some s
  | _ => none

/-- A text that is a number. -/
def numberOf? (value : Json) : Option ℚ := do
  match ← Decimal.ofStr (← textOf? value) with
  | .finite x => some x
  | _ => none

def sourcesOf? : Json → Option (List Source)
  | .arr elems => elems.mapM fun elem => do Source.ofValue (← textOf? elem)
  | _ => none

/-- The price that an object tells of. -/
def Payload.ofJson : Json → Option (Payload Source)
  | .obj fields => do
      let instrument ← textOf? (Json.get fields (Str.ofString "instrument"))
      let mid ← numberOf? (Json.get fields (Str.ofString "mid"))
      let bid ← numberOf? (Json.get fields (Str.ofString "bid"))
      let ask ← numberOf? (Json.get fields (Str.ofString "ask"))
      let sources ← sourcesOf? (Json.get fields (Str.ofString "sources"))
      let ts ← DateTime.fromisoformat (← textOf? (Json.get fields (Str.ofString "ts")))
      some ⟨instrument, mid, bid, ask, sources, ts.instant⟩
  | _ => none

end Pricestream
