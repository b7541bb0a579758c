import Pricestream.Tasks

/-!
# The WebSocket consumer

A client that connects to `/ws/quotes/<symbol>/` is added to the group of its instrument, accepted,
and sent the snapshot found in the cache; then the messages queued for it are dispatched, one at a
time and in the order in which the group sent them. Each of these is a step of its own, and the
publisher's steps may come between any two of them.

`Session` is one client together with a publisher that still has some effects to perform. The cache
keeps its entries, and a group message reaches every member there is when it is sent. The symbol in
a path is ASCII, so `upper()` is the ASCII one. What is sent is the texts of the numbers of a
snapshot, made by the same expressions for the cache and for the group; the model keeps the numbers.
-/

namespace Pricestream

open Library Python

/-! ### Routing -/

/-- `[A-Za-z0-9\-]`. -/
def isSymbolChar (c : ℕ) : Bool :=
  (0x41 ≤ c && c ≤ 0x5a) || (0x61 ≤ c && c ≤ 0x7a) || (0x30 ≤ c && c ≤ 0x39) || c == 0x2d

/-- The symbol in a path, which has its leading slashes removed and must match as a whole. -/
def routeSymbol (path : Str) : Option Str :=
  let path := path.dropWhile (· == 0x2f)
  let symbol := (path.drop 10).takeWhile isSymbolChar
  if path = Str.ofString "ws/quotes/" ++ symbol ++ Str.ofString "/" ∧ symbol ≠ [] then some symbol
  else none

structure QuoteConsumer where
  symbol : Str

namespace QuoteConsumer

/-- The consumer for the symbol of a path. -/
def ofRoute (kwarg : Str) : QuoteConsumer := ⟨Str.asciiUpper kwarg⟩

def group (consumer : QuoteConsumer) : Str := Str.ofString "quotes." ++ consumer.symbol

/-- The key `connect` reads. -/
def snapshotKey (consumer : QuoteConsumer) : Str :=
  Str.ofString "pricestream:mid:" ++ consumer.symbol

end QuoteConsumer

/-! ### A session -/

variable {db : Engine} {Venue : Type}

/-- The JSON object a client receives. -/
structure Payload (Venue : Type) where
  instrument : Str
  snapshot : Snapshot Venue
  deriving DecidableEq

/-- A message to the client, by the handler that sends it. -/
inductive Message (Venue : Type) where
  | snapshot (payload : Payload Venue)
  | update (payload : Payload Venue)
  deriving DecidableEq

/-- How far `connect` has come. -/
inductive Phase (Venue : Type) where
  | start
  | joined
  | accepted
  | fetched (snapshot : Option (Snapshot Venue))
  | connected
  | closed
  deriving DecidableEq

/-- The client's channel is in its group. -/
def Phase.isMember : Phase Venue → Bool
  | .joined | .accepted | .fetched _ | .connected => true
  | .start | .closed => false

structure Session (db : Engine) (Venue : Type) where
  script : List (Effect db Venue)
  cache : Str → Option (Snapshot Venue)
  phase : Phase Venue
  queue : List (Payload Venue)
  received : List (Message Venue)

inductive Session.Event where
  | publish
  | groupAdd
  | accept
  | cacheGet
  | send
  | quoteUpdate
  | disconnect
  deriving DecidableEq, Repr

def Session.init (script : List (Effect db Venue)) : Session db Venue :=
  ⟨script, fun _ => none, .start, [], []⟩

/-- An effect of the publisher, as far as the cache and the client's channel are concerned. -/
def Session.perform (consumer : QuoteConsumer) (s : Session db Venue) :
    Effect db Venue → Session db Venue
  | .cacheSet key snapshot => { s with cache := Function.update s.cache key (some snapshot) }
  | .groupSend group instrument snapshot =>
      if s.phase.isMember ∧ group = consumer.group then
        { s with queue := s.queue ++ [⟨instrument, snapshot⟩] }
      else s
  | .insert _ | .inc _ | .publish _ _ => s

/-- One step of the publisher, of `connect`, of the dispatch of a group message, or of `disconnect`. -/
def Session.step (consumer : QuoteConsumer) (s : Session db Venue) :
    Session.Event → Option (Session db Venue)
  | .publish =>
      match s.script with
      | [] => none
      | effect :: rest => some { s.perform consumer effect with script := rest }
  | .groupAdd =>
      match s.phase with
      | .start => some { s with phase := .joined }
      | _ => none
  | .accept =>
      match s.phase with
      | .joined => some { s with phase := .accepted }
      | _ => none
  | .cacheGet =>
      match s.phase with
      | .accepted => some { s with phase := .fetched (s.cache consumer.snapshotKey) }
      | _ => none
  | .send =>
      match s.phase with
      | .fetched none => some { s with phase := .connected }
      | .fetched (some snapshot) =>
          some { s with
            phase := .connected
            received := s.received ++ [.snapshot ⟨consumer.symbol, snapshot⟩] }
      | _ => none
  | .quoteUpdate =>
      match s.phase, s.queue with
      | .connected, payload :: rest =>
          some { s with queue := rest, received := s.received ++ [.update payload] }
      | _, _ => none
  | .disconnect =>
      match s.phase with
      | .connected => some { s with phase := .closed, queue := [] }
      | _ => none

def Session.run (consumer : QuoteConsumer) (s : Session db Venue) (events : List Session.Event) :
    Option (Session db Venue) := events.foldlM (Session.step consumer) s

end Pricestream
