import Pricestream.Aggregator
import Pricestream.Library.Traced

/-!
# The round of `fetch_quotes`

A round creates the configured instruments, polls every venue for every active one of them, and for
each instrument writes the quotes, the consolidated price and the arbitrage opportunity, in this
order. Every statement commits on its own, so a round is a program with a trace: what it did before
an exception stays done.

`Round` collects what a round depends on besides the instrument table: the settings, the venues'
replies, the readings of the clock and which of the calls to other services raise. The clock is read
once for each quote, once more for each quote whose freshness is checked, and once for each of the
other rows. `upper` is `str.upper` and `collate` the collation the database sorts symbols by.

The gauges are left out, which hold floating-point numbers; so is the histogram of durations. A
venue's name fits the columns it goes into, as the three names in use do.
-/

namespace Pricestream

open Library Python
open DateTime (Instant)

/-! ### What a round depends on -/

/-- A venue's client. `fetch` never raises: whatever goes wrong is a missing reply. -/
structure Client (Venue : Type) where
  name : Venue
  fetch : Str → Option (Decimal × Decimal)

/-- The readings of the clock, by the instrument and, where it matters, the position of the quote. -/
structure Clock where
  fetched : Str → ℕ → Instant
  checked : Str → ℕ → Instant
  priced : Str → Instant
  signalled : Str → Instant

/-- The calls to Kafka, the cache and the channel layer. -/
inductive SideCall where
  | publish (symbol : Str) (client : ℕ)
  | cacheSet (symbol : Str)
  | groupSend (symbol : Str)
  deriving DecidableEq

structure Round (Venue : Type) where
  ctx : Context
  upper : Str → Str
  collate : Str → Str → Bool
  configured : List Str
  maxAge : ℚ
  clients : List (Client Venue)
  clock : Clock
  hasLayer : Bool
  side : SideCall → Option Exc

/-! ### What a round does -/

inductive Row (db : Engine) (Venue : Type) where
  | quote (row : QuoteRow db Venue)
  | consolidated (row : ConsolidatedPrice db Venue)
  | arbitrage (row : ArbitrageOpportunity db Venue)
  deriving DecidableEq

/-- The counters, with their labels. No function increments `staleQuotes`. -/
inductive Counter (Venue : Type) where
  | quotesFetched (instrument : Str) (source : Venue)
  | quotesFailed (instrument : Str) (source : Venue)
  | consolidated (instrument : Str)
  | staleQuotes (instrument : Str) (source : Venue)
  | arbitrageDetected (instrument : Str) (buyVenue sellVenue : Venue)
  | kafkaPublished
  | kafkaPublishFailed
  deriving DecidableEq

/-- What goes into the cache and to the subscribers: the numbers of the object in memory. -/
structure Snapshot (Venue : Type) where
  mid : ℚ
  bid : ℚ
  ask : ℚ
  sources : List Venue
  ts : Instant
  deriving DecidableEq

inductive Effect (db : Engine) (Venue : Type) where
  | insert (row : Row db Venue)
  | inc (counter : Counter Venue)
  | publish (symbol : Str) (quote : Quote Venue)
  | cacheSet (key : Str) (snapshot : Snapshot Venue)
  | groupSend (group : Str) (instrument : Str) (snapshot : Snapshot Venue)
  deriving DecidableEq

def Effect.row? {db : Engine} {Venue : Type} : Effect db Venue → Option (Row db Venue)
  | .insert row => some row
  | .inc _ | .publish _ _ | .cacheSet _ _ | .groupSend _ _ _ => none

abbrev Task (db : Engine) (Venue : Type) := Traced Exc (Effect db Venue)

/-- The quotes, consolidated prices and opportunities written, in order. -/
def rowsWritten {db : Engine} {Venue α : Type} (task : Task db Venue α) : List (Row db Venue) :=
  task.trace.filterMap Effect.row?

structure Counts where
  quotes : ℕ
  consolidated : ℕ
  arbitrages : ℕ
  deriving DecidableEq, Repr

/-! ### Instruments -/

/-- The row of an instrument, if its columns take its texts. -/
def Instrument.create (instrument : Instrument) : Except Exc Instrument := do
  let symbol ← charField 20 instrument.symbol
  let base ← charField 10 instrument.base
  let quote ← charField 10 instrument.quote
  pure ⟨symbol, base, quote, instrument.isActive⟩

def newInstrument (upper : Str → Str) (symbol : Str) : Except Exc Instrument := do
  let (base, quote) ← Instrument.parseSymbol upper symbol
  pure ⟨symbol, base, quote, true⟩

/-- `bulk_create` with `ignore_conflicts`: one statement for all the rows. -/
def bulkCreate (objects : List Instrument) (instruments : InstrumentTable) :
    Except Exc InstrumentTable := do
  let rows ← objects.mapM Instrument.create
  pure (instruments.insertNew rows)

def createInstruments {Venue : Type} (round : Round Venue) (instruments : InstrumentTable) :
    Except Exc InstrumentTable := do
  let objects ← round.configured.mapM (newInstrument round.upper)
  bulkCreate objects instruments

/-- The active configured instruments, in the order of their symbols. -/
def Round.instruments {Venue : Type} (round : Round Venue) (instruments : InstrumentTable) :
    List Instrument :=
  (instruments.rows.filter fun row => row.isActive && round.configured.contains row.symbol).mergeSort
    fun a b => round.collate a.symbol b.symbol

/-! ### One venue -/

variable {db : Engine} {Venue : Type}

/-- `Quote.objects.create`. The object keeps the numbers it was given; one that is not a number is
refused before the statement is sent. -/
def createQuote (symbol : Str) (source : Venue) (bid ask : Decimal) (timestamp : Instant) :
    Task db Venue (Quote Venue) :=
  match bid, ask with
  | .finite b, .finite a => do
      let row ← Traced.ofExcept (QuoteRow.create db symbol source (.finite b) (.finite a) timestamp)
      Traced.emit (.insert (.quote row))
      pure ⟨source, b, a, timestamp⟩
  | _, _ => Traced.raise .dataError

/-- Fire and forget: an error is counted, never raised. -/
def publishToKafka (round : Round Venue) (symbol : Str) (client : ℕ) (quote : Quote Venue) :
    Task db Venue Unit := do
  Traced.emit (.publish symbol quote)
  match round.side (.publish symbol client) with
  | none => Traced.emit (.inc .kafkaPublished)
  | some _ => Traced.emit (.inc .kafkaPublishFailed)

/-- Poll one venue. -/
def pollClient (round : Round Venue) (symbol : Str) (client : Client Venue) (i : ℕ) :
    Task db Venue (Option (Quote Venue)) :=
  match client.fetch symbol with
  | none => do
      Traced.emit (.inc (.quotesFailed symbol client.name))
      pure none
  | some (bid, ask) => do
      let quote ← createQuote symbol client.name bid ask (round.clock.fetched symbol i)
      Traced.emit (.inc (.quotesFetched symbol client.name))
      publishToKafka round symbol i quote
      pure (some quote)

/-- `written += 1` and `round_quotes.append(quote)`, for a venue that replied. -/
def addQuote : ℕ × List (Quote Venue) → Option (Quote Venue) → ℕ × List (Quote Venue)
  | acc, none => acc
  | (written, quotes), some quote => (written + 1, quotes ++ [quote])

def pollClients (round : Round Venue) (symbol : Str) (written : ℕ) :
    Task db Venue (ℕ × List (Quote Venue)) :=
  Traced.loop
    (fun acc (client, i) => do return addQuote acc (← pollClient round symbol client i))
    (written, []) round.clients.zipIdx

/-! ### One instrument -/

def cacheKey (symbol : Str) : Str := Str.ofString "pricestream:mid:" ++ symbol

def groupName (symbol : Str) : Str := Str.ofString "quotes." ++ symbol

/-- A call to another service that is not guarded. -/
def sideCall (round : Round Venue) (call : SideCall) (effect : Effect db Venue) : Task db Venue Unit :=
  match round.side call with
  | none => Traced.emit effect
  | some e => Traced.raise e

/-- Push the consolidated price to subscribers of the matching group, if there is a channel layer. -/
def broadcastWs (round : Round Venue) (symbol : Str) (snapshot : Snapshot Venue) :
    Task db Venue Unit :=
  if round.hasLayer then
    sideCall round (.groupSend symbol) (.groupSend (groupName symbol) symbol snapshot)
  else pure ()

/-- Write the consolidated price, and tell the cache and the subscribers. -/
def publishConsolidated (round : Round Venue) (symbol : Str) (c : Consolidated Venue) :
    Task db Venue Unit := do
  let timestamp := round.clock.priced symbol
  let row ← Traced.ofExcept (ConsolidatedPrice.create db symbol c.mid c.bid c.ask c.sources timestamp)
  Traced.emit (.insert (.consolidated row))
  Traced.emit (.inc (.consolidated symbol))
  let snapshot := ⟨c.mid, c.bid, c.ask, c.sources, timestamp⟩
  sideCall round (.cacheSet symbol) (.cacheSet (cacheKey symbol) snapshot)
  broadcastWs round symbol snapshot

/-- `quantize(Decimal("0.0001"))`, which refuses a result of more than 28 digits. -/
def quantizeBps (x : ℚ) : Except Exc ℚ :=
  let units := halfEven (x * 10 ^ 4)
  if |units| < 10 ^ 28 then pure (units / 10 ^ 4) else throw .invalidOperation

def recordArbitrage (round : Round Venue) (symbol : Str) (arb : Arbitrage Venue) :
    Task db Venue Unit := do
  let spreadBps ← Traced.ofExcept (quantizeBps arb.spreadBps)
  let row ← Traced.ofExcept (ArbitrageOpportunity.create db symbol arb.buyVenue arb.buyPrice
    arb.sellVenue arb.sellPrice arb.spread spreadBps (round.clock.signalled symbol))
  Traced.emit (.insert (.arbitrage row))
  Traced.emit (.inc (.arbitrageDetected symbol arb.buyVenue arb.sellVenue))

/-- Cross-venue arbitrage detection, among all the quotes of the round. -/
def signalArbitrage [DecidableEq Venue] (round : Round Venue) (counts : Counts) (symbol : Str)
    (quotes : List (Quote Venue)) : Task db Venue Counts := do
  match ← Traced.ofExcept (detectArbitrage round.ctx quotes) with
  | none => pure counts
  | some arb => do
      recordArbitrage round symbol arb
      pure { counts with arbitrages := counts.arbitrages + 1 }

/-- The rest of an instrument's turn, once its venues were polled. -/
def consolidateQuotes [LinearOrder Venue] (round : Round Venue) (counts : Counts) (symbol : Str)
    (quotes : List (Quote Venue)) : Task db Venue Counts :=
  match consolidate round.ctx round.maxAge (round.clock.checked symbol) quotes with
  | none => pure counts
  | some c => do
      publishConsolidated round symbol c
      signalArbitrage round { counts with consolidated := counts.consolidated + 1 } symbol quotes

def fetchInstrument [LinearOrder Venue] (round : Round Venue) (counts : Counts)
    (instrument : Instrument) : Task db Venue Counts := do
  let polled ← pollClients round instrument.symbol counts.quotes
  consolidateQuotes round { counts with quotes := polled.1 } instrument.symbol polled.2

/-- Poll every configured exchange for every active instrument. -/
def fetchQuotes [LinearOrder Venue] (round : Round Venue) (instruments : InstrumentTable) :
    InstrumentTable × Task db Venue Counts :=
  match createInstruments round instruments with
  | .error e => (instruments, Traced.raise e)
  | .ok instruments =>
      (instruments, Traced.loop (fetchInstrument round) ⟨0, 0, 0⟩ (round.instruments instruments))

end Pricestream
