import Pricestream.Tasks

/-!
# Management commands

`bootstrap_instruments` creates the configured instruments one after the other, each with a
`get_or_create` of its own. A symbol that does not parse ends the command with an exception, and the
instruments created until then stay.
-/

namespace Pricestream

open Library Python

/-- `Instrument.objects.get_or_create`: the table, and whether a row was created. -/
def getOrCreateInstrument (instrument : Instrument) (instruments : InstrumentTable) :
    Except Exc (InstrumentTable × Bool) := do
  let symbol ← textParam instrument.symbol
  match instruments.get? symbol with
  | some _ => pure (instruments, false)
  | none => do
      let row ← instrument.create
      let instruments ← orRaise .integrityError (instruments.insert row)
      pure (instruments, true)

/-- One turn of the loop of `handle`. -/
def bootstrapSymbol (upper : Str → Str) (symbol : Str) (instruments : InstrumentTable) :
    Except Exc (InstrumentTable × Bool) := do
  let instrument ← newInstrument upper symbol
  getOrCreateInstrument instrument instruments

/-- The rest of the loop, with the instruments created so far. -/
def bootstrapLoop (upper : Str → Str) :
    List Str → ℕ → InstrumentTable → InstrumentTable × Except Exc ℕ
  | [], created, instruments => (instruments, .ok created)
  | symbol :: rest, created, instruments =>
      match bootstrapSymbol upper symbol instruments with
      | .error e => (instruments, .error e)
      | .ok (instruments, true) => bootstrapLoop upper rest (created + 1) instruments
      | .ok (instruments, false) => bootstrapLoop upper rest created instruments

/-- `Command.handle`: the table, and the two numbers of its message. -/
def bootstrapInstruments (upper : Str → Str) (configured : List Str) (instruments : InstrumentTable) :
    InstrumentTable × Except Exc (ℕ × ℕ) :=
  let (instruments, result) := bootstrapLoop upper configured 0 instruments
  (instruments, result.map fun created => (created, configured.length))

end Pricestream
