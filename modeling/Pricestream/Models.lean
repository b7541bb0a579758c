import Pricestream.Library.KeyedTable
import Pricestream.Library.Rounding
import Pricestream.Python.DateTime
import Pricestream.Python.Decimal

/-!
# The domain models

Rows as the database holds them. Every price is a `numeric(24, 10)` and every basis-point figure a
`numeric(12, 4)`, so a row carries cells, never raw numbers; `Engine` fixes how the database rounds
into those two scales. An instrument is known to the other tables by its symbol, which is unique.

Before a row is written it is an object in memory whose attributes are what the program assigned, not
what the column will hold. `Quote` is such an object: the aggregator computes on it before it is read
back. `tick_count` is a natural number here: its column would need two thousand million ticks in one
bucket to overflow.
-/

namespace Pricestream

open Library Python
open DateTime (Instant)

/-! ### Columns -/

/-- How the database engine rounds at the two scales the models use. -/
structure Engine where
  price : Rounding 10
  bps : Rounding 4

def Engine.postgres : Engine := ⟨.halfAway 10, .halfAway 4⟩

/-- `DecimalField(max_digits=24, decimal_places=10)`. -/
def priceColumn (db : Engine) : NumericColumn := ⟨24, 10, db.price⟩

/-- `DecimalField(max_digits=12, decimal_places=4)`. -/
def bpsColumn (db : Engine) : NumericColumn := ⟨12, 4, db.bps⟩

abbrev Price (db : Engine) := (priceColumn db).Cell

/-- Write a decimal into a column. What is not finite or does not fit is refused. -/
def writeDecimal (col : NumericColumn) : Decimal → Except Exc col.Cell
  | .finite x => orRaise .dataError (col.store x)
  | .infinity _ | .nan _ => throw .dataError

def Storable (col : NumericColumn) : Decimal → Prop
  | .finite x => col.Fits x
  | _ => False

instance (col : NumericColumn) : DecidablePred (Storable col)
  | .finite x => inferInstanceAs (Decidable (col.Fits x))
  | .infinity _ => inferInstanceAs (Decidable False)
  | .nan _ => inferInstanceAs (Decidable False)

/-- Send a text to the database, which takes neither a lone surrogate nor a NUL. -/
def textParam (s : Str) : Except Exc Str :=
  if s.any Str.isSurrogate then throw .unicodeEncodeError
  else if s.contains 0 then throw .dataError
  else pure s

def IsText (s : Str) : Prop := s.any Str.isSurrogate = false ∧ s.contains 0 = false

instance (s : Str) : Decidable (IsText s) := inferInstanceAs (Decidable (_ ∧ _))

theorem textParam_of_isText {s : Str} (h : IsText s) : textParam s = .ok s := by
  rw [textParam, h.1, h.2]
  rfl

theorem textParam_of_not_isText {s : Str} (h : ¬ IsText s) : ∃ e, textParam s = .error e := by
  rw [textParam]
  split_ifs with hsurrogate hnul
  · exact ⟨_, rfl⟩
  · exact ⟨_, rfl⟩
  · exact absurd ⟨by simpa using hsurrogate, by simpa using hnul⟩ h

theorem eq_of_textParam {s text : Str} (h : textParam s = .ok text) : text = s := by
  rw [textParam] at h
  split_ifs at h
  exact (Except.ok.inj h).symm

/-- `CharField(max_length=n)`. -/
def charField (n : ℕ) (s : Str) : Except Exc Str := do
  let s ← textParam s
  if s.length ≤ n then pure s else throw .dataError

theorem writeDecimal_of_storable {col : NumericColumn} {x : ℚ} (h : col.Fits x) :
    writeDecimal col (.finite x) = .ok (col.put x h) := by
  rw [writeDecimal, col.store_of_fits h, orRaise_some]

theorem writeDecimal_of_not_storable {col : NumericColumn} {d : Decimal} (h : ¬ Storable col d) :
    writeDecimal col d = .error .dataError := by
  cases d with
  | finite x =>
      have hrefused : col.store x = none := col.store_eq_none_iff.mpr h
      rw [writeDecimal, hrefused, orRaise_none]
  | infinity negative => rfl
  | nan signaling => rfl

theorem writeDecimal_eq_ok {col : NumericColumn} {d : Decimal} {cell : col.Cell}
    (h : writeDecimal col d = .ok cell) : ∃ x, d = .finite x ∧ col.store x = some cell := by
  cases d with
  | finite x =>
      refine ⟨x, rfl, ?_⟩
      rw [writeDecimal] at h
      cases hstore : col.store x with
      | none => rw [hstore, orRaise_none] at h; exact absurd h (by simp)
      | some found => rw [hstore, orRaise_some] at h; exact congrArg some (Except.ok.inj h)
  | infinity negative => exact absurd h (by simp [writeDecimal, throw, throwThe, MonadExceptOf.throw])
  | nan signaling => exact absurd h (by simp [writeDecimal, throw, throwThe, MonadExceptOf.throw])

theorem writeDecimal_value {col : NumericColumn} {x : ℚ} {cell : col.Cell}
    (h : writeDecimal col (.finite x) = .ok cell) : cell.value = col.round x := by
  obtain ⟨y, hy, hstore⟩ := writeDecimal_eq_ok h
  obtain rfl : x = y := Decimal.finite.inj hy
  exact col.store_value hstore

/-! ### Instruments -/

structure Instrument where
  symbol : Str
  base : Str
  quote : Str
  isActive : Bool
  deriving DecidableEq

abbrev InstrumentTable := KeyedTable Instrument.symbol

/-- `str.partition("-")`, without the separator. -/
def partition (s : Str) : Str × Str :=
  (s.takeWhile (· != 0x2d), (s.dropWhile (· != 0x2d)).drop 1)

/-- Split `BTC-USD` into `BTC` and `USD`. -/
def Instrument.parseSymbol (upper : Str → Str) (symbol : Str) : Except Exc (Str × Str) :=
  let (base, quote) := partition symbol
  if quote = [] then throw .valueError else pure (upper base, upper quote)

/-! ### Quotes, the tape and signals -/

/-- One venue's bid and ask, before they are rounded into their columns. -/
structure Quote (Venue : Type) where
  source : Venue
  bid : ℚ
  ask : ℚ
  timestamp : Instant
  deriving DecidableEq

def Quote.mid {Venue : Type} (ctx : Context) (q : Quote Venue) : ℚ := ctx.div (ctx.add q.bid q.ask) 2

/-- A stored `Quote`. -/
structure QuoteRow (db : Engine) (Venue : Type) where
  instrument : Str
  source : Venue
  bid : Price db
  ask : Price db
  timestamp : Instant
  deriving DecidableEq

def QuoteRow.create {Venue : Type} (db : Engine) (instrument : Str) (source : Venue)
    (bid ask : Decimal) (timestamp : Instant) : Except Exc (QuoteRow db Venue) := do
  let bid ← writeDecimal (priceColumn db) bid
  let ask ← writeDecimal (priceColumn db) ask
  pure ⟨instrument, source, bid, ask, timestamp⟩

/-- A stored `ConsolidatedPrice`. -/
structure ConsolidatedPrice (db : Engine) (Venue : Type) where
  instrument : Str
  mid : Price db
  bid : Price db
  ask : Price db
  sources : List Venue
  timestamp : Instant
  deriving DecidableEq

def ConsolidatedPrice.create {Venue : Type} (db : Engine) (instrument : Str) (mid bid ask : ℚ)
    (sources : List Venue) (timestamp : Instant) : Except Exc (ConsolidatedPrice db Venue) := do
  let mid ← writeDecimal (priceColumn db) (.finite mid)
  let bid ← writeDecimal (priceColumn db) (.finite bid)
  let ask ← writeDecimal (priceColumn db) (.finite ask)
  pure ⟨instrument, mid, bid, ask, sources, timestamp⟩

theorem ConsolidatedPrice.create_eq_ok {Venue : Type} {db : Engine} {instrument : Str}
    {mid bid ask : ℚ} {sources : List Venue} {timestamp : Instant}
    {row : ConsolidatedPrice db Venue} :
    ConsolidatedPrice.create db instrument mid bid ask sources timestamp = .ok row ↔
      ∃ m b a, writeDecimal (priceColumn db) (.finite mid) = .ok m ∧
        writeDecimal (priceColumn db) (.finite bid) = .ok b ∧
        writeDecimal (priceColumn db) (.finite ask) = .ok a ∧
        row = ⟨instrument, m, b, a, sources, timestamp⟩ := by
  unfold ConsolidatedPrice.create
  cases writeDecimal (priceColumn db) (.finite mid) <;>
    cases writeDecimal (priceColumn db) (.finite bid) <;>
      cases writeDecimal (priceColumn db) (.finite ask) <;>
        simp [bind, Except.bind, pure, Except.pure, eq_comm]

/-- A stored `ArbitrageOpportunity`. -/
structure ArbitrageOpportunity (db : Engine) (Venue : Type) where
  instrument : Str
  buyVenue : Venue
  buyPrice : Price db
  sellVenue : Venue
  sellPrice : Price db
  spread : Price db
  spreadBps : (bpsColumn db).Cell
  timestamp : Instant
  deriving DecidableEq

def ArbitrageOpportunity.create {Venue : Type} (db : Engine) (instrument : Str) (buyVenue : Venue)
    (buyPrice : ℚ) (sellVenue : Venue) (sellPrice spread spreadBps : ℚ) (timestamp : Instant) :
    Except Exc (ArbitrageOpportunity db Venue) := do
  let buyPrice ← writeDecimal (priceColumn db) (.finite buyPrice)
  let sellPrice ← writeDecimal (priceColumn db) (.finite sellPrice)
  let spread ← writeDecimal (priceColumn db) (.finite spread)
  let spreadBps ← writeDecimal (bpsColumn db) (.finite spreadBps)
  pure ⟨instrument, buyVenue, buyPrice, sellVenue, sellPrice, spread, spreadBps, timestamp⟩

/-! ### Bars -/

/-- `OHLCBar.Interval`. -/
inductive Interval where
  | m1
  | m5
  | h1
  deriving DecidableEq, Repr

/-- What `unique_together` on `OHLCBar` makes unique. -/
structure BarKey where
  instrument : Str
  interval : Interval
  bucketStart : Instant
  deriving DecidableEq

structure OHLCBar (db : Engine) where
  key : BarKey
  «open» : Price db
  high : Price db
  low : Price db
  close : Price db
  volume : Price db
  tickCount : ℕ
  deriving DecidableEq

abbrev BarTable (db : Engine) := KeyedTable (@OHLCBar.key db)

end Pricestream
