import Pricestream.KafkaConsumer

/-!
# `_update_bar` when the database fails

`updateBar` is one call of `_update_bar` with a database that carries out what it is asked. Here the call
is written operation by operation, and each of them may raise: `Faults` says which do, in each of the
three calls `handle_event` makes. A call is one transaction, so what it did before an exception is rolled
back; the three calls are three transactions, and nothing is around them.

`get_or_create` inserts under a savepoint of its own. If the insertion raises an `IntegrityError`, it looks
the row up a second time, and if it is still missing the error is raised.
-/

namespace Pricestream

open Library Python
open DateTime (Instant)

variable {db : Engine}

/-- The database operations of one call. -/
inductive Operation where
  | begin
  | select
  | savepoint
  | insert
  | release
  | reselect
  | update
  | commit
  deriving DecidableEq, Repr

/-- What each operation of each interval's call raises, if it does. -/
def Faults := Interval → Operation → Option Exc

def attempt (fails : Operation → Option Exc) (operation : Operation) : Except Exc Unit :=
  match fails operation with
  | none => pure ()
  | some e => throw e

/-- The insertion of `get_or_create`, between its savepoint and the end of it. -/
def insertBar (fails : Operation → Option Exc) (key : BarKey) (price : Decimal) (bars : BarTable db) :
    Except Exc (BarTable db) := do
  attempt fails .savepoint
  let bar ← createBar db key price
  attempt fails .insert
  let bars ← orRaise .integrityError (bars.insert bar)
  attempt fails .release
  pure bars

/-- `select_for_update().get_or_create`: the table, and the row if it was there. -/
def getOrCreateBar (fails : Operation → Option Exc) (key : BarKey) (price : Decimal)
    (bars : BarTable db) : Except Exc (BarTable db × Option (OHLCBar db)) := do
  attempt fails .select
  match bars.get? key with
  | some bar => pure (bars, some bar)
  | none =>
      match insertBar fails key price bars with
      | .ok bars => pure (bars, none)
      | .error .integrityError => do
          attempt fails .reselect
          match bars.get? key with
          | some bar => pure (bars, some bar)
          | none => throw .integrityError
      | .error e => throw e

/-- Rewrite the row, unless it has just been created. -/
def amendFound (fails : Operation → Option Exc) (price : Decimal) :
    BarTable db × Option (OHLCBar db) → Except Exc (BarTable db)
  | (bars, none) => pure bars
  | (bars, some bar) => do
      let bar ← amendBar bar price
      attempt fails .update
      orRaise .databaseError (bars.save bar)

def tryUpdateBar (fails : Operation → Option Exc) (instrument : Str) (interval : Interval)
    (ts : DateTime) (price : Decimal) (bars : BarTable db) : Except Exc (BarTable db) := do
  let start ← bucketStart ts interval
  let key := ⟨instrument, interval, start.instant⟩
  attempt fails .begin
  let bars ← amendFound fails price (← getOrCreateBar fails key price bars)
  attempt fails .commit
  pure bars

/-- The loop of `handle_event`. -/
def tryIntervals (faults : Faults) (reading : Reading) : List Interval → BarTable db →
    BarTable db × Option Exc
  | [], bars => (bars, none)
  | interval :: rest, bars =>
      match tryUpdateBar (faults interval) reading.instrument interval reading.ts reading.mid bars with
      | .ok bars => tryIntervals faults reading rest bars
      | .error e => (bars, some e)

/-- `handle_event`, with a database that may fail. -/
def tryHandleEvent (faults : Faults) (env : Env) (now : Instant) (payload : Json) (bars : BarTable db) :
    BarTable db × Option Exc :=
  match readEvent env now payload with
  | .error e => (bars, some e)
  | .ok none => (bars, none)
  | .ok (some reading) => tryIntervals faults reading intervals bars

end Pricestream
