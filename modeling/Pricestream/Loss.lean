import Pricestream.Hub

/-!
# Losing updates

A snapshot is set with a timeout of a minute, and a channel has room for so many messages and keeps them
for so long. So an entry of the cache may be gone at any time after it was set, and so may a message that
is queued for a client, one that finds the channel full as soon as it comes. None of this is a step of
the program, and it may happen between any two of its steps.
-/

namespace Pricestream

open Library Python

variable {db : Engine} {Venue ι : Type}

/-- A step of the hub, or a loss. -/
inductive LossyEvent (ι : Type) where
  | step (event : Parties.Event ι Subscriber.Event)
  | expire (key : Str)
  | lose (i : ι) (n : ℕ)
  deriving DecidableEq

def LossyEvent.expires (key : Str) : LossyEvent ι → Bool
  | .expire key' => key' = key
  | .step _ | .lose _ _ => false

def LossyEvent.loses [DecidableEq ι] (i : ι) : LossyEvent ι → Bool
  | .lose j _ => j = i
  | .step _ | .expire _ => false

/-- The hub with a cache that forgets and channels that drop messages. -/
def lossyStep [DecidableEq ι] (consumers : ι → QuoteConsumer) (c : HubState db Venue ι) :
    LossyEvent ι → Option (HubState db Venue ι)
  | .step event => (hub consumers).step c event
  | .expire key => some ({ c.1 with cache := Function.update c.1.cache key none }, c.2)
  | .lose i n =>
      some (c.1, Function.update c.2 i { c.2 i with queue := (c.2 i).queue.eraseIdx n })

def lossyRun [DecidableEq ι] (consumers : ι → QuoteConsumer) (c : HubState db Venue ι)
    (events : List (LossyEvent ι)) : Option (HubState db Venue ι) := events.foldlM (lossyStep consumers) c

end Pricestream
