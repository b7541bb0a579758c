import Pricestream.KafkaProducer
import Pricestream.Library.Interleaving
import Pricestream.Library.LazyCell

/-!
# The threads that publish

The producer of a process is made by the first thread that publishes a quote, behind a lock, and kept
in a global variable. Any number of threads publish quotes, each one after the other; a quote that is
not handed to the producer raises, and the caller counts it and goes on with the next one. What the
producer does with a record is not part of the model; `V` stands for producers.
-/

namespace Pricestream

open Library Python

variable {ι V : Type}

/-- `_producer`, `_lock` and the threads at `_get_producer`, with the quotes each has yet to publish. -/
structure Publishers (ι V : Type) where
  cell : LazyCell.State ι V Record
  todo : ι → List (Str × QuoteObject)

/-- The steps of `_get_producer` by which it neither begins nor ends. -/
def IsInner : LazyCell.Event V Record → Prop
  | .check | .acquire | .recheck | .make _ | .store | .release | .read => True
  | .call | .fail | .use _ | .drop => False

namespace Publishers

def init (todo : ι → List (Str × QuoteObject)) : Publishers ι V := ⟨LazyCell.init, todo⟩

variable [DecidableEq ι]

/-- The thread goes on to its next quote. -/
def next (s : Publishers ι V) (i : ι) (cell : LazyCell.State ι V Record)
    (rest : List (Str × QuoteObject)) : Publishers ι V :=
  ⟨cell, Function.update s.todo i rest⟩

/-- One step of a thread in `publish_quote`. -/
inductive Step (s : Publishers ι V) : Publishers ι V → Prop where
  | call (i : ι) (quote : Str × QuoteObject) (rest : List (Str × QuoteObject))
      (cell : LazyCell.State ι V Record) (htodo : s.todo i = quote :: rest)
      (hcell : LazyCell.Step s.cell i .call cell) : Step s { s with cell }
  | getProducer (i : ι) (e : LazyCell.Event V Record) (cell : LazyCell.State ι V Record) (he : IsInner e)
      (hcell : LazyCell.Step s.cell i e cell) : Step s { s with cell }
  /-- `Producer(…)` raises. -/
  | refuse (i : ι) (quote : Str × QuoteObject) (rest : List (Str × QuoteObject))
      (cell : LazyCell.State ι V Record) (htodo : s.todo i = quote :: rest)
      (hcell : LazyCell.Step s.cell i .fail cell) : Step s (s.next i cell rest)
  /-- The record is handed to the producer that was returned. -/
  | produce (i : ι) (symbol : Str) (quote : QuoteObject) (rest : List (Str × QuoteObject))
      (record : Record) (cell : LazyCell.State ι V Record) (htodo : s.todo i = (symbol, quote) :: rest)
      (hrecord : publishQuote symbol quote = .ok record)
      (hcell : LazyCell.Step s.cell i (.use record) cell) : Step s (s.next i cell rest)
  /-- The record cannot be encoded, or `produce` raises. -/
  | raise (i : ι) (quote : Str × QuoteObject) (rest : List (Str × QuoteObject))
      (cell : LazyCell.State ι V Record) (htodo : s.todo i = quote :: rest)
      (hcell : LazyCell.Step s.cell i .drop cell) : Step s (s.next i cell rest)

def Reachable (todo : ι → List (Str × QuoteObject)) : Publishers ι V → Prop :=
  Relation.ReflTransGen Step (init todo)

/-- What a thread has handed to producers, in order. -/
def handed (s : Publishers ι V) (i : ι) : List (Option V × Record) := actionsOf i s.cell.used

end Publishers

end Pricestream
