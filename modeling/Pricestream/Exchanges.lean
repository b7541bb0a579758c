import Mathlib.Order.Basic
import Pricestream.Python.Json
import Pricestream.Tasks

/-!
# The clients of the exchanges

A client asks the ticker endpoint of its venue for one instrument and takes a bid and an ask out of the
document it gets. Whatever is raised on the way is caught, so a reply is either two decimals or none,
and in the model an expression that raises is `none`.

The HTTP library is a parameter. `HttpSession` says what its client answers to the request made in the turn
of an instrument: an exception, or a response, of which the status is looked at and the body decoded.
Which of these requests are slow, and what is logged, is left out.
-/

namespace Pricestream

open Library Python

/-! ### Venues -/

/-- `Quote.Source`. -/
inductive Source where
  | binance
  | coinbase
  | kraken
  deriving DecidableEq, Repr

namespace Source

def value : Source → Str
  | .binance => Str.ofString "binance"
  | .coinbase => Str.ofString "coinbase"
  | .kraken => Str.ofString "kraken"

/-- The choice among `Quote.Source` of this value. -/
def ofValue (value : Str) : Option Source :=
  [Source.binance, .coinbase, .kraken].find? fun s => s.value = value

theorem ofValue_value (s : Source) : ofValue s.value = some s := by
  cases s <;> decide

def rank : Source → ℕ
  | .binance => 0
  | .coinbase => 1
  | .kraken => 2

theorem rank_injective : Function.Injective rank := by
  intro s t h
  cases s <;> cases t <;> first | rfl | cases h

instance : LinearOrder Source := LinearOrder.lift' rank rank_injective

/-! Venues come in the order of their names. -/

example (s t : Source) : s < t ↔ s.value < t.value := by
  cases s <;> cases t <;> decide

end Source

/-! ### Requests and responses -/

structure Request where
  url : Str
  params : List (Str × Str)
  deriving DecidableEq

/-- A response, with what `r.json()` returns if it does. -/
structure HttpResponse where
  status : ℕ
  json : Option Json

abbrev HttpSession := Str → Request → Option HttpResponse

/-- `r.raise_for_status()` and then `r.json()`. -/
def HttpResponse.data (r : HttpResponse) : Option Json :=
  if 200 ≤ r.status ∧ r.status < 300 then r.json else none

/-! ### Taking documents apart -/

/-- `value[name]`. -/
def atName (value : Json) (name : Str) : Option Json :=
  match value with
  | .obj fields => fields.reverse.lookup name
  | _ => none

/-- `value[0]`, which of a text is its first character. -/
def atZero : Json → Option Json
  | .arr (elem :: _) => some elem
  | .str (c :: _) => some (.str [c])
  | _ => none

/-- `(_, item), = value.items()`: the value of an object that has one name. -/
def soleItem : Json → Option Json
  | .obj fields =>
      match (fields.map Prod.fst).dedup with
      | [name] => fields.reverse.lookup name
      | _ => none
  | _ => none

/-- `Decimal(value)`. -/
def toDecimal (value : Json) : Option Decimal := (Decimal.ofJson value).toOption

/-! ### The clients -/

/-- What the `fetch` of every client does: ask, and take the bid and the ask out of the document. -/
def fetchTicker (request : Str → Request) (read : Json → Option (Decimal × Decimal)) (session : HttpSession)
    (symbol : Str) : Option (Decimal × Decimal) := do
  let r ← session symbol (request symbol)
  let data ← r.data
  read data

namespace BinanceClient

/-- `_to_binance_symbol`: Binance trades USDT, not USD. -/
def toBinanceSymbol (upper : Str → Str) (symbol : Str) : Str :=
  let (base, quote) := partition symbol
  let quote := if upper quote = Str.ofString "USD" then Str.ofString "USDT" else quote
  upper base ++ upper quote

def request (upper : Str → Str) (symbol : Str) : Request where
  url := Str.ofString "https://api.binance.com" ++ Str.ofString "/api/v3/ticker/bookTicker"
  params := [(Str.ofString "symbol", toBinanceSymbol upper symbol)]

def read (data : Json) : Option (Decimal × Decimal) := do
  let bid ← toDecimal (← atName data (Str.ofString "bidPrice"))
  let ask ← toDecimal (← atName data (Str.ofString "askPrice"))
  some (bid, ask)

def fetch (upper : Str → Str) : HttpSession → Str → Option (Decimal × Decimal) :=
  fetchTicker (request upper) read

end BinanceClient

namespace CoinbaseClient

/-- `_to_coinbase_symbol`. -/
def toCoinbaseSymbol (upper : Str → Str) (symbol : Str) : Str := upper symbol

def request (upper : Str → Str) (symbol : Str) : Request where
  url := Str.ofString "https://api.exchange.coinbase.com" ++ Str.ofString "/products/" ++
    toCoinbaseSymbol upper symbol ++ Str.ofString "/book"
  params := [(Str.ofString "level", Str.ofString "1")]

def read (data : Json) : Option (Decimal × Decimal) := do
  let bid ← toDecimal (← atZero (← atZero (← atName data (Str.ofString "bids"))))
  let ask ← toDecimal (← atZero (← atZero (← atName data (Str.ofString "asks"))))
  some (bid, ask)

def fetch (upper : Str → Str) : HttpSession → Str → Option (Decimal × Decimal) :=
  fetchTicker (request upper) read

end CoinbaseClient

namespace KrakenClient

/-- `_to_kraken_symbol`: Kraken uses XBT for BTC. -/
def toKrakenSymbol (upper : Str → Str) (symbol : Str) : Str :=
  let (base, quote) := partition symbol
  let base := if upper base = Str.ofString "BTC" then Str.ofString "XBT" else upper base
  base ++ upper quote

def request (upper : Str → Str) (symbol : Str) : Request where
  url := Str.ofString "https://api.kraken.com" ++ Str.ofString "/0/public/Ticker"
  params := [(Str.ofString "pair", toKrakenSymbol upper symbol)]

def read (payload : Json) : Option (Decimal × Decimal) :=
  match payload with
  | .obj fields =>
      if (Json.get fields (Str.ofString "error")).truthy then none
      else do
        let ticker ← soleItem (← atName payload (Str.ofString "result"))
        let bid ← toDecimal (← atZero (← atName ticker (Str.ofString "b")))
        let ask ← toDecimal (← atZero (← atName ticker (Str.ofString "a")))
        some (bid, ask)
  | _ => none

def fetch (upper : Str → Str) : HttpSession → Str → Option (Decimal × Decimal) :=
  fetchTicker (request upper) read

end KrakenClient

/-- `all_clients()`. -/
def allClients (upper : Str → Str) (session : HttpSession) : List (Client Source) :=
  [⟨.binance, BinanceClient.fetch upper session⟩, ⟨.coinbase, CoinbaseClient.fetch upper session⟩,
    ⟨.kraken, KrakenClient.fetch upper session⟩]

end Pricestream
