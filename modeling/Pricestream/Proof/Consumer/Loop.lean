import Pricestream.Proof.Consumer.Hazards
import Pricestream.Proof.Ohlc.Refinement

/-!
# When the consumer loop survives

The loop skips polls without a message and bytes that do not decode, but it calls `handle_event`
unguarded, so an exception there ends it. A run is compared with the one that was meant: every
decoded message handled, the ticks among them applied in order, and the loop left after `stop_after`
messages. The two agree exactly when no message handled is hazardous.
-/

namespace Pricestream

open Library Python

variable {db : Engine} {env : Env}

def messages : List PollResult → List Event
  | [] => []
  | .message now payload :: polls => ⟨now, payload⟩ :: messages polls
  | .none :: polls | .error :: polls | .undecodable :: polls => messages polls

/-- The messages the loop is meant to handle when it has handled `processed` before. -/
def consumedFrom (stopAfter : Option ℕ) (processed : ℕ) (events : List Event) : List Event :=
  stopAfter.elim events fun n => events.take (n - processed)

/-- The messages handled in a run from the start: all of them, or the first `stop_after`. -/
def consumed (stopAfter : Option ℕ) (polls : List PollResult) : List Event :=
  consumedFrom stopAfter 0 (messages polls)

end Pricestream
