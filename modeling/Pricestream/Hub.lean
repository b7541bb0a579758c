import Pricestream.Consumers
import Pricestream.Library.Parties

/-!
# All clients of the WebSocket consumer

A process serves any number of clients, each on the path of some symbol, beside one publisher. A step
of the publisher is a step for all of them: what it sets is in the one cache they all read, and what it
sends to a group is queued for each of its members. Everything else a client does by itself, as a
`Session` does it.
-/

namespace Pricestream

open Library Python

variable {db : Engine} {Venue ι : Type}

/-- What all clients share: the effects the publisher still has to perform, and the cache. -/
structure Feed (db : Engine) (Venue : Type) where
  script : List (Effect db Venue)
  cache : Str → Option (Snapshot Venue)

/-- What a client has of its own: its consumer's state, its channel, and what it was sent. -/
structure Subscriber (Venue : Type) where
  phase : Phase Venue
  queue : List (Payload Venue)
  received : List (Message Venue)

/-- The steps of a `Session` that are not the publisher's. -/
inductive Subscriber.Event where
  | groupAdd
  | accept
  | cacheGet
  | send
  | quoteUpdate
  | disconnect
  deriving DecidableEq, Repr

/-- The step of a session: its client's, or else the publisher's. -/
def Subscriber.Event.inSession : Option Subscriber.Event → Session.Event
  | none => .publish
  | some .groupAdd => .groupAdd
  | some .accept => .accept
  | some .cacheGet => .cacheGet
  | some .send => .send
  | some .quoteUpdate => .quoteUpdate
  | some .disconnect => .disconnect

/-- A client with the feed it reads. -/
def Subscriber.session (v : Feed db Venue × Subscriber Venue) : Session db Venue :=
  ⟨v.1.script, v.1.cache, v.2.phase, v.2.queue, v.2.received⟩

/-- The publisher performs its next effect, as far as the cache is concerned. -/
def Feed.advance (feed : Feed db Venue) : Option (Feed db Venue) :=
  match feed.script with
  | [] => none
  | .cacheSet key snapshot :: rest =>
      some { script := rest, cache := Function.update feed.cache key (some snapshot) }
  | _ :: rest => some { feed with script := rest }

/-- The next effect of the publisher, as far as a client's channel is concerned. -/
def Subscriber.hear (consumer : QuoteConsumer) (feed : Feed db Venue) (subscriber : Subscriber Venue) :
    Subscriber Venue :=
  match feed.script with
  | .groupSend group instrument snapshot :: _ =>
      if subscriber.phase.isMember ∧ group = consumer.group then
        { subscriber with queue := subscriber.queue ++ [⟨instrument, snapshot⟩] }
      else subscriber
  | _ => subscriber

/-- A client's own step. -/
def Subscriber.act (consumer : QuoteConsumer) (feed : Feed db Venue) (subscriber : Subscriber Venue)
    (event : Subscriber.Event) : Option (Subscriber Venue) :=
  ((Subscriber.session (feed, subscriber)).step consumer (Subscriber.Event.inSession (some event))).map
    fun s => ⟨s.phase, s.queue, s.received⟩

/-- The clients `i`, each with its consumer. -/
def hub (consumers : ι → QuoteConsumer) :
    Parties ι (Feed db Venue) (Subscriber Venue) Subscriber.Event where
  advance := Feed.advance
  hear := fun i => Subscriber.hear (consumers i)
  act := fun i => Subscriber.act (consumers i)

/-- The state of the feed and of all clients. -/
abbrev HubState (db : Engine) (Venue ι : Type) := Feed db Venue × (ι → Subscriber Venue)

/-- Nobody is connected, and the cache is empty. -/
def HubState.init (script : List (Effect db Venue)) : HubState db Venue ι :=
  (⟨script, fun _ => none⟩, fun _ => ⟨.start, [], []⟩)

/-- A client's session in the hub. -/
def HubState.session (hub : HubState db Venue ι) (i : ι) : Session db Venue :=
  Subscriber.session (Parties.view i hub)

/-- The steps of a client's session among those of all. -/
def sessionEvents [DecidableEq ι] (i : ι) (events : List (Parties.Event ι Subscriber.Event)) :
    List Session.Event :=
  (events.filterMap (Parties.Event.seenBy i)).map Subscriber.Event.inSession

end Pricestream
