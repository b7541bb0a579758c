import Pricestream.Commands

/-!
# Writes to the instruments

Three things write to the instrument table: a round, which creates what is configured and missing, the
command that does the same, and the admin site, where an instrument is switched on and off. They come
in any order. Of the admin site only the switch is part of the model, not the editing of symbols and the
deletion of rows.
-/

namespace Pricestream

open Library Python

variable {Venue : Type}

inductive InstrumentWrite (Venue : Type) where
  | fetchQuotes (round : Round Venue)
  | bootstrapInstruments (upper : Str → Str) (configured : List Str)
  | setActive (symbol : Str) (active : Bool)

/-- The form of an instrument is saved with `is_active` on or off. -/
def setActive (symbol : Str) (active : Bool) (instruments : InstrumentTable) : InstrumentTable :=
  match instruments.get? symbol with
  | none => instruments
  | some row => instruments.upsert { row with isActive := active }

/-- The table after a write, and what else it has done. -/
def InstrumentWrite.run (db : Engine) [LinearOrder Venue] (instruments : InstrumentTable) :
    InstrumentWrite Venue → InstrumentTable × List (Effect db Venue)
  | .fetchQuotes round =>
      let (instruments, task) := Pricestream.fetchQuotes round instruments
      (instruments, task.trace)
  | .bootstrapInstruments upper configured =>
      ((Pricestream.bootstrapInstruments upper configured instruments).1, [])
  | .setActive symbol active => (Pricestream.setActive symbol active instruments, [])

def runWrites (db : Engine) [LinearOrder Venue] :
    List (InstrumentWrite Venue) → InstrumentTable → InstrumentTable × List (Effect db Venue)
  | [], instruments => (instruments, [])
  | write :: rest, instruments =>
      let (instruments, effects) := write.run db instruments
      let (instruments, more) := runWrites db rest instruments
      (instruments, effects ++ more)

end Pricestream
