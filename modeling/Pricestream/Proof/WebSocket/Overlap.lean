import Pricestream.Proof.Tasks.Overlap
import Pricestream.Proof.WebSocket.Loss

/-!
# The deployed system

Several workers are in rounds at the same time, each with its own replies from the exchanges, and any of
them may be broken off. What they do reaches one cache and one channel layer, in any interleaving, and
both may lose it. Every client is still shown only prices that some worker has stored before, and each
can be worked out again from the documents that this worker read.
-/

namespace Pricestream

open Library Python

variable {db : Engine} {κ ι : Type} [DecidableEq κ] [DecidableEq ι]

theorem caused_round {Venue : Type} [LinearOrder Venue] (round : Round Venue) (table : InstrumentTable) :
    Caused Effect.IsTold (Vouches [(round, table)])
      ((fetchQuotes round table).2 : Task db Venue Counts).trace := by
  have h := @caused_rounds db Venue _ [(round, table)]
  rwa [roundsScript, List.flatMap_singleton] at h

theorem row_of_received {Venue : Type} [LinearOrder Venue] {rounds : κ → Round Venue}
    {tables : κ → InstrumentTable} {history : List (κ × Effect db Venue)}
    {consumers : ι → QuoteConsumer} {events : List (LossyEvent ι)} {c : HubState db Venue ι}
    (hhistory : Advances (programs db rounds tables) history)
    (hrun : lossyRun consumers (HubState.init (history.map Prod.snd)) events = some c)
    {i : ι} {m : Message Venue} (hm : m ∈ (c.session i).received) :
    ∃ past k row, past <+: history ∧ past.map Prod.snd ++ c.1.script = history.map Prod.snd ∧
      (k, .insert (.consolidated row)) ∈ past ∧ m.payload.instrument = (consumers i).symbol ∧
      Priced [(rounds k, tables k)] (consumers i).symbol m.payload.snapshot row := by
  obtain ⟨events', c', hrun', htrails⟩ := exists_lossless hrun
  obtain ⟨done, h⟩ := (sourced_init _ _).run (session_of_run hrun' i)
  obtain ⟨past, rest, rfl, rfl, hrest⟩ := List.map_eq_append_iff.mp h.split.symm
  obtain ⟨w, hw, htold, hpriced⟩ := (h.received m ((htrails.clients i).received.subset hm)).priced
  obtain ⟨⟨k, w⟩, hdone, rfl⟩ := List.mem_map.mp hw
  have hpast : Advances (programs db rounds tables) past := hhistory.of_prefix (List.prefix_append past rest)
  obtain ⟨w', hw', hvouches⟩ := hpast.caused (caused_round (rounds k) (tables k)) hdone htold
  obtain ⟨row, rfl, hinstrument, hrow⟩ := hpriced _ w' hvouches
  refine ⟨past, k, row, List.prefix_append past rest, ?_, hw', hinstrument, hrow⟩
  rw [List.map_append, hrest, htrails.script]
  rfl

/-- **No client is shown a price that was not stored and cannot be worked out again.** Whatever workers
overlap or stop, and whatever the cache and the channels lose. -/
theorem deployed_shows_stored {polls : κ → Poll} {tables : κ → InstrumentTable}
    {history : List (κ × Effect db Source)} {consumers : ι → QuoteConsumer} {events : List (LossyEvent ι)}
    {c : HubState db Source ι}
    (hhistory : Advances (programs db (fun k => (polls k).live) tables) history)
    (hrun : lossyRun consumers (HubState.init (history.map Prod.snd)) events = some c)
    (i : ι) (m : Message Source) (hm : m ∈ (c.session i).received) :
    ∃ past k row, past <+: history ∧ past.map Prod.snd ++ c.1.script = history.map Prod.snd ∧
      (k, .insert (.consolidated row)) ∈ past ∧ row.instrument = (consumers i).symbol ∧
      m.payload.instrument = (consumers i).symbol ∧ Mirrors m.payload.snapshot row ∧
      RestsOn (polls k) (consumers i).symbol m.payload.snapshot ∧
      ((polls k).round.ctx = .default →
        (∀ s q, (polls k).quote? (consumers i).symbol s = some q → ExactQuote db q) →
        ValidBook (m.payload.snapshot.sources.filterMap ((polls k).quote? (consumers i).symbol))
          m.payload.snapshot.book) := by
  obtain ⟨past, k, row, hpast, hscript, hrow, hinstrument, hpriced⟩ := row_of_received hhistory hrun hm
  obtain ⟨p, hp, book, hbook, hstore, hsnapshot⟩ := hpriced.computed
  obtain rfl := List.mem_singleton.mp hp
  have hrests : RestsOn (polls k) (consumers i).symbol m.payload.snapshot :=
    hsnapshot ▸ restsOn_of_roundBook hbook
  refine ⟨past, k, row, hpast, hscript, hrow, label_of_storeBook hstore, hinstrument, ?_, hrests,
    hrests.valid⟩
  rw [hsnapshot]
  exact create_mirrors hstore

/-! ### A worker that is broken off -/

/-- The two venues are polled again five seconds later. -/
def laterPoll (second : Bool) : Poll :=
  { twoExchanges with
    round := { twoExchanges.round with clock := (roundAt (if second then 90066000001 else 90061000001)).clock } }

def pollPrograms : Bool → List (Effect .postgres Source) :=
  programs .postgres (fun second => (laterPoll second).live) fun _ => KeyedTable.empty

/-- One worker is about to write its snapshot when the other does its round. Then it writes the snapshot,
and is broken off. -/
def brokenOff : List (Bool × Effect .postgres Source) :=
  ((pollPrograms false).take 11).map (false, ·) ++ (pollPrograms true).map (true, ·) ++
    (((pollPrograms false).drop 11).take 1).map (false, ·)

/-- The client joins, loses the update, and reads the snapshot that was written late. -/
def connectsLate : List (LossyEvent Unit) :=
  [.step (.act () .groupAdd)] ++ List.replicate 25 (.step .advance) ++
    [.lose () 0, .step (.act () .accept), .step (.act () .cacheGet), .step (.act () .send)]

theorem advances_brokenOff : Advances pollPrograms brokenOff := by
  intro second
  cases second <;> decide +kernel

theorem exact_laterPoll (second : Bool) (s : Source) (q : Quote Source)
    (h : (laterPoll second).quote? (Str.ofString "BTC-USD") s = some q) : ExactQuote .postgres q := by
  have hall : ∀ s ∈ Source.all, ∀ q ∈ ((laterPoll second).quote? (Str.ofString "BTC-USD") s).toList,
      ExactQuote .postgres q := by
    cases second <;> decide +kernel
  refine hall s ?_ q (Option.mem_toList.mpr h)
  cases s <;> decide

/-- What it is shown is the price of the worker that was broken off. -/
theorem exists_received_brokenOff :
    ∃ c : HubState .postgres Source Unit,
      lossyRun oneClient (HubState.init (brokenOff.map Prod.snd)) connectsLate = some c ∧
      c.1.script = [] ∧ ∃ m ∈ (c.session ()).received, m.payload.snapshot.ts = 90061000001 := by
  have hsome : (lossyRun oneClient (HubState.init (brokenOff.map Prod.snd)) connectsLate).map
      (fun c : HubState .postgres Source Unit =>
        (c.1.script.length, (c.session ()).received.map fun m => m.payload.snapshot.ts)) =
      some (0, [90061000001]) := by
    decide +kernel
  obtain ⟨c, hrun, hc⟩ := Option.map_eq_some_iff.mp hsome
  obtain ⟨hscript, hreceived⟩ := Prod.mk.inj hc
  obtain ⟨m, hm, hts⟩ := List.mem_map.mp (hreceived ▸ List.mem_singleton_self (90061000001 : ℤ))
  exact ⟨c, hrun, List.eq_nil_of_length_eq_zero hscript, m, hm, hts⟩

theorem brokenOff_shows_stored :
    ∃ c : HubState .postgres Source Unit,
      lossyRun oneClient (HubState.init (brokenOff.map Prod.snd)) connectsLate = some c ∧
      ∃ m ∈ (c.session ()).received, m.payload.snapshot.ts = 90061000001 ∧
        ∃ k row, (k, .insert (.consolidated row)) ∈ brokenOff ∧
          Mirrors m.payload.snapshot row ∧
          RestsOn (laterPoll k) (Str.ofString "BTC-USD") m.payload.snapshot ∧
          ValidBook (m.payload.snapshot.sources.filterMap
            ((laterPoll k).quote? (Str.ofString "BTC-USD"))) m.payload.snapshot.book := by
  obtain ⟨c, hrun, _, m, hm, hts⟩ := exists_received_brokenOff
  obtain ⟨past, k, row, hpast, _, hrow, _, _, hmirrors, hrests, hvalid⟩ :=
    deployed_shows_stored advances_brokenOff hrun () m hm
  exact ⟨c, hrun, m, hm, hts, k, row, hpast.subset hrow, hmirrors, hrests,
    hvalid rfl (exact_laterPoll k)⟩

end Pricestream
