import Mathlib.Data.List.Sort
import Pricestream.Library.Extrema
import Pricestream.Models

/-!
# Cross-venue aggregation

`consolidate` turns one round of quotes into a single bid, mid and ask; `detectArbitrage` scans the
same quotes for a pair of venues whose books cross. Every quote is checked against its own reading of
the clock, since `_is_fresh` asks for the time again each time it is called: `clock i` is the reading
for the quote at position `i`.

Quotes whose bid or ask is not positive take part in neither computation.
-/

namespace Pricestream

open Library Python
open DateTime (Instant)

variable {Venue : Type}

structure Consolidated (Venue : Type) where
  mid : ℚ
  bid : ℚ
  ask : ℚ
  sources : List Venue
  deriving DecidableEq

structure Arbitrage (Venue : Type) where
  buyVenue : Venue
  buyPrice : ℚ
  sellVenue : Venue
  sellPrice : ℚ
  spread : ℚ
  spreadBps : ℚ
  deriving DecidableEq

/-- The age of a quote is at most `maxAge` seconds. `total_seconds()` is a double, but an age past a
whole limit of up to `2 ^ 33` seconds, by a microsecond or more, is not rounded to it. -/
def isFresh (maxAge : ℚ) (now : Instant) (q : Quote Venue) : Bool :=
  decide (((now - q.timestamp : ℤ) : ℚ) ≤ maxAge * 1000000)

def isPositive (q : Quote Venue) : Bool := decide (0 < q.bid) && decide (0 < q.ask)

def candidates (maxAge : ℚ) (clock : ℕ → Instant) (quotes : List (Quote Venue)) :
    List (Quote Venue) :=
  (quotes.zipIdx.filter fun (q, i) => isPositive q && isFresh maxAge (clock i) q).map Prod.fst

/-- `sorted({q.source for q in candidates})`. -/
def sortedSources [LinearOrder Venue] (qs : List (Quote Venue)) : List Venue :=
  (qs.map Quote.source).dedup.insertionSort (· ≤ ·)

/-- The crossed branch: the mean of the mids, with each side pulled back to it. -/
def crossedBook [LinearOrder Venue] (ctx : Context) (qs : List (Quote Venue)) (bestBid bestAsk : ℚ) :
    Consolidated Venue :=
  let mid := ctx.div ((qs.map (Quote.mid ctx)).foldl ctx.add 0) qs.length
  ⟨mid, min bestBid mid, max bestAsk mid, sortedSources qs⟩

def plainBook [LinearOrder Venue] (ctx : Context) (qs : List (Quote Venue)) (bestBid bestAsk : ℚ) :
    Consolidated Venue :=
  ⟨ctx.div (ctx.add bestBid bestAsk) 2, bestBid, bestAsk, sortedSources qs⟩

def book [LinearOrder Venue] (ctx : Context) (q : Quote Venue) (rest : List (Quote Venue)) :
    Consolidated Venue :=
  let bestBid := maxOf q.bid (rest.map Quote.bid)
  let bestAsk := minOf q.ask (rest.map Quote.ask)
  if bestAsk < bestBid then crossedBook ctx (q :: rest) bestBid bestAsk
  else plainBook ctx (q :: rest) bestBid bestAsk

/-- Compute a tight-side mid-price across multiple venues. -/
def consolidate [LinearOrder Venue] (ctx : Context) (maxAge : ℚ) (clock : ℕ → Instant)
    (quotes : List (Quote Venue)) : Option (Consolidated Venue) :=
  match candidates maxAge clock quotes with
  | [] => none
  | q :: rest => some (book ctx q rest)

/-- The figures for buying on one quote and selling on another, unless the two are of one venue or do
not cross. Between prices so small that their mid underflows to zero, the division raises. -/
def arbitrageOf [DecidableEq Venue] (ctx : Context) (buy sell : Quote Venue) :
    Except Exc (Option (Arbitrage Venue)) :=
  if buy.source = sell.source then pure none
  else
    let spread := ctx.sub sell.bid buy.ask
    if spread ≤ 0 then pure none
    else do
      let mid := ctx.div (ctx.add buy.ask sell.bid) 2
      let spreadBps := ctx.mul (← ctx.divide spread mid) 10000
      pure (some ⟨buy.source, buy.ask, sell.source, sell.bid, spread, spreadBps⟩)

def scan [DecidableEq Venue] (ctx : Context) (buy : Quote Venue) (best : Option (Arbitrage Venue))
    (sell : Quote Venue) : Except Exc (Option (Arbitrage Venue)) := do
  match ← arbitrageOf ctx buy sell with
  | none => pure best
  | some arb => pure (better Arbitrage.spread best arb)

/-- The largest cross-venue arbitrage opportunity, if any. -/
def detectArbitrage [DecidableEq Venue] (ctx : Context) (quotes : List (Quote Venue)) :
    Except Exc (Option (Arbitrage Venue)) :=
  let qs := quotes.filter isPositive
  if qs.length < 2 then pure none
  else qs.foldlM (fun best buy => qs.foldlM (scan ctx buy) best) none

end Pricestream
