import Pricestream.Library.Ledger
import Pricestream.Proof.Tasks.Partial

/-!
# What can be read off a task that was stopped

A worker may be stopped at any effect, and a round may raise. What it leaves behind is a part of the
trace of its rounds. In it the counters lag behind the rows and the messages they count by at most one,
and whatever the cache or the subscribers were told is the snapshot of a consolidated price that is in
the database.
-/

namespace Pricestream

open Library Python

variable {db : Engine} {Venue : Type} {round : Round Venue} {symbol : Str}

/-! ### The parts of a turn -/

theorem trace_createQuote (db : Engine) (symbol : Str) (source : Venue) (bid ask : Decimal)
    (timestamp : DateTime.Instant) :
    (createQuote symbol source bid ask timestamp : Task db Venue _).Raises ∧
        (createQuote symbol source bid ask timestamp : Task db Venue _).trace = [] ∨
      ∃ row b a, bid = .finite b ∧ ask = .finite a ∧ storeQuote db symbol ⟨source, b, a, timestamp⟩ = .ok row ∧
        (createQuote symbol source bid ask timestamp : Task db Venue _).Runs
          [.insert (.quote row)] ⟨source, b, a, timestamp⟩ := by
  unfold createQuote
  split
  · rename_i b a
    cases hrow : QuoteRow.create db symbol source (.finite b) (.finite a) timestamp with
    | error e => exact Or.inl ⟨⟨e, rfl⟩, rfl⟩
    | ok row => exact Or.inr ⟨row, b, a, rfl, rfl, hrow, rfl⟩
  · exact Or.inl ⟨⟨_, rfl⟩, rfl⟩

/-- What polling a venue leaves behind: a failure counted, nothing, or a row counted and a message
counted as sent or as failed, both of the quote it replied. -/
theorem trace_pollClient (db : Engine) (round : Round Venue) (symbol : Str) (client : Client Venue) (i : ℕ) :
    (pollClient round symbol client i : Task db Venue _).trace = [.inc (.quotesFailed symbol client.name)] ∨
      (pollClient round symbol client i : Task db Venue _).trace = [] ∨
      ∃ row quote counter, quoteOf round symbol client i = some quote ∧
        storeQuote db symbol quote = .ok row ∧
        (counter = .kafkaPublished ∨ counter = .kafkaPublishFailed) ∧
        (pollClient round symbol client i : Task db Venue _).trace =
          [.insert (.quote row), .inc (.quotesFetched symbol client.name), .publish symbol quote,
            .inc counter] := by
  unfold pollClient
  split
  · exact Or.inl rfl
  · rename_i bid ask hreply
    rcases trace_createQuote db symbol client.name bid ask
        (round.clock.fetched symbol i) with ⟨hraises, htrace⟩ | ⟨row, b, a, rfl, rfl, hrow, hruns⟩
    · refine Or.inr (Or.inl ?_)
      rw [hraises.trace_bind, htrace]
    · have hquote : quoteOf round symbol client i =
          some ⟨client.name, b, a, round.clock.fetched symbol i⟩ := by
        rw [quoteOf, hreply]
      refine Or.inr (Or.inr ⟨row, ⟨client.name, b, a, round.clock.fetched symbol i⟩, ?_⟩)
      have hpublish : ∃ counter, (counter = .kafkaPublished ∨ counter = .kafkaPublishFailed) ∧
          (publishToKafka round symbol i ⟨client.name, b, a, round.clock.fetched symbol i⟩ :
            Task db Venue Unit).Runs
            [.publish symbol ⟨client.name, b, a, round.clock.fetched symbol i⟩, .inc counter] () := by
        unfold publishToKafka
        cases round.side (.publish symbol i) with
        | none => exact ⟨_, Or.inl rfl, rfl⟩
        | some e => exact ⟨_, Or.inr rfl, rfl⟩
      obtain ⟨counter, hcounter, hpublish⟩ := hpublish
      refine ⟨counter, hquote, hrow, hcounter, ?_⟩
      rw [(hruns.bind ((Traced.runs_emit _).bind
        (hpublish.bind (Traced.runs_pure (some _))))).trace_eq]
      rfl

theorem trace_publishConsolidated (db : Engine) (round : Round Venue) (symbol : Str) (c : Consolidated Venue) :
    (publishConsolidated round symbol c : Task db Venue Unit).trace = [] ∨
      ∃ row told, storeBook db round symbol c = .ok row ∧
        (∀ w ∈ told, w = .cacheSet (cacheKey symbol) (snapshotOf round symbol c) ∨
          w = .groupSend (groupName symbol) symbol (snapshotOf round symbol c)) ∧
        (publishConsolidated round symbol c : Task db Venue Unit).trace =
          .insert (.consolidated row) :: .inc (.consolidated symbol) :: told := by
  unfold publishConsolidated
  cases hrow : ConsolidatedPrice.create db symbol c.mid c.bid c.ask c.sources (round.clock.priced symbol) with
  | error e =>
      left
      exact Traced.Raises.trace_bind ⟨e, hrow⟩ _
  | ok row =>
      right
      refine ⟨row, _, hrow, fun w hw => ?_, (Traced.returns_ofExcept hrow).trace_bind⟩
      rcases mem_sideCall_bind.mp hw with ⟨_, rfl | hw⟩
      · exact Or.inl rfl
      · exact Or.inr (mem_broadcastWs.mp hw).2.2

theorem trace_recordArbitrage (db : Engine) (round : Round Venue) (symbol : Str) (arb : Arbitrage Venue) :
    (recordArbitrage round symbol arb : Task db Venue Unit).trace = [] ∨
      ∃ row, storeArbitrage db round symbol arb = .ok row ∧
        (recordArbitrage round symbol arb : Task db Venue Unit).trace =
          [.insert (.arbitrage row), .inc (.arbitrageDetected symbol arb.buyVenue arb.sellVenue)] := by
  unfold recordArbitrage
  cases hbps : quantizeBps arb.spreadBps with
  | error e =>
      left
      exact Traced.Raises.trace_bind ⟨e, rfl⟩ _
  | ok bps =>
      rw [(Traced.returns_ofExcept rfl).trace_bind]
      cases hrow : ArbitrageOpportunity.create db symbol arb.buyVenue arb.buyPrice arb.sellVenue
          arb.sellPrice arb.spread bps (round.clock.signalled symbol) with
      | error e =>
          left
          exact Traced.Raises.trace_bind ⟨e, rfl⟩ _
      | ok row =>
          right
          exact ⟨row, bind_eq_ok.mpr ⟨bps, hbps, hrow⟩, (Traced.returns_ofExcept rfl).trace_bind⟩

/-! ### Rounds -/

section Rounds

variable [LinearOrder Venue] {instruments : InstrumentTable} {P : List (Effect db Venue) → Prop}

theorem sequential_turn (hP : Sequential P) {instrument : Instrument}
    (hpoll : ∀ client i, (client, i) ∈ round.clients.zipIdx →
      P (pollClient round instrument.symbol client i : Task db Venue _).trace)
    (hprice : ∀ c, roundBook round instrument.symbol = some c →
      P (publishConsolidated round instrument.symbol c : Task db Venue Unit).trace)
    (hsignal : ∀ arb, roundArbitrage round instrument.symbol = some arb →
      P (recordArbitrage round instrument.symbol arb : Task db Venue Unit).trace) (counts : Counts) :
    P (fetchInstrument round counts instrument : Task db Venue Counts).trace := by
  refine hP.bind (hP.loop (fun acc c hc => ?_) _) fun polled hpolled => ?_
  · exact hP.bind (hpoll c.1 c.2 hc) fun _ _ => hP.nil
  · obtain ⟨_, rfl⟩ := returns_pollClients hpolled
    cases hbook : roundBook round instrument.symbol with
    | none =>
        rw [consolidateQuotes_of_none hbook]
        exact hP.nil
    | some c =>
        rw [consolidateQuotes_of_some hbook]
        refine hP.bind (hprice c hbook) fun _ _ => ?_
        refine hP.bind hP.nil fun found hfound => ?_
        have hscan : roundArbitrage round instrument.symbol = found := by
          have hresult : detectArbitrage round.ctx (roundQuotes round instrument.symbol) = .ok found := hfound
          rw [roundArbitrage, hresult]
          rfl
        cases found with
        | none => exact hP.nil
        | some arb => exact hP.bind (hsignal arb hscan) fun _ _ => hP.nil

theorem sequential_round (hP : Sequential P)
    (hpoll : ∀ symbol client i, (client, i) ∈ round.clients.zipIdx →
      P (pollClient round symbol client i : Task db Venue _).trace)
    (hprice : ∀ symbol c, roundBook round symbol = some c →
      P (publishConsolidated round symbol c : Task db Venue Unit).trace)
    (hsignal : ∀ symbol arb, roundArbitrage round symbol = some arb →
      P (recordArbitrage round symbol arb : Task db Venue Unit).trace) :
    P ((fetchQuotes round instruments).2 : Task db Venue Counts).trace := by
  have hturn : ∀ counts instrument,
      P (fetchInstrument round counts instrument : Task db Venue Counts).trace := fun counts instrument =>
    sequential_turn hP (hpoll instrument.symbol) (hprice instrument.symbol) (hsignal instrument.symbol) counts
  by_cases hlist : ∀ symbol ∈ round.configured, Listable round.upper symbol
  · rw [fetchQuotes_of_listable hlist]
    exact hP.loop (fun counts instrument _ => hturn counts instrument) _
  · obtain ⟨e, he⟩ : ∃ e, (fetchQuotes round instruments : _ × Task db Venue Counts) =
        (instruments, Traced.raise e) := fetchQuotes_of_not_listable hlist
    rw [he]
    exact hP.nil

end Rounds

/-! ### Rows and counters -/

/-- What is counted: the quotes of a venue, the messages to Kafka, the consolidated prices of an
instrument, and the opportunities between two venues. -/
inductive Account (Venue : Type) where
  | quotes (instrument : Str) (source : Venue)
  | messages
  | prices (instrument : Str)
  | opportunities (instrument : Str) (buyVenue sellVenue : Venue)
  deriving DecidableEq

/-- A row or a message is an entry, the increment of its counter a receipt. -/
def Effect.posting? : Effect db Venue → Option (Posting (Account Venue))
  | .insert (.quote row) => some (.entry (.quotes row.instrument row.source))
  | .insert (.consolidated row) => some (.entry (.prices row.instrument))
  | .insert (.arbitrage row) => some (.entry (.opportunities row.instrument row.buyVenue row.sellVenue))
  | .publish _ _ => some (.entry .messages)
  | .inc (.quotesFetched instrument source) => some (.receipt (.quotes instrument source))
  | .inc (.consolidated instrument) => some (.receipt (.prices instrument))
  | .inc (.arbitrageDetected instrument buy sell) => some (.receipt (.opportunities instrument buy sell))
  | .inc .kafkaPublished | .inc .kafkaPublishFailed => some (.receipt .messages)
  | .inc (.quotesFailed _ _) | .inc (.staleQuotes _ _) | .cacheSet _ _ | .groupSend _ _ _ => none

theorem balanced_pollClient (client : Client Venue) (i : ℕ) :
    Balanced Effect.posting? (pollClient round symbol client i : Task db Venue _).trace := by
  rcases trace_pollClient db round symbol client i with
    htrace | htrace | ⟨row, quote, counter, hquote, hrow, hcounter, htrace⟩
  · rw [htrace]
    exact ⟨[], rfl⟩
  · rw [htrace]
    exact ⟨[], rfl⟩
  · obtain ⟨rfl, hlabel⟩ := labels_of_storeQuote hrow
    rw [htrace, ← source_of_quoteOf hquote, ← hlabel]
    refine ⟨[.quotes row.instrument row.source, .messages], ?_⟩
    rcases hcounter with rfl | rfl <;> rfl

theorem balanced_publishConsolidated (c : Consolidated Venue) :
    Balanced Effect.posting? (publishConsolidated round symbol c : Task db Venue Unit).trace := by
  rcases trace_publishConsolidated db round symbol c with
    htrace | ⟨row, told, hrow, htold, htrace⟩
  · rw [htrace]
    exact ⟨[], rfl⟩
  · have hsilent : told.filterMap Effect.posting? = [] := by
      refine List.filterMap_eq_nil_iff.mpr fun w hw => ?_
      rcases htold w hw with rfl | rfl <;> rfl
    rw [htrace, ← label_of_storeBook hrow]
    refine ⟨[.prices row.instrument], ?_⟩
    simp only [List.filterMap_cons, Effect.posting?, hsilent]
    rfl

theorem balanced_recordArbitrage (arb : Arbitrage Venue) :
    Balanced Effect.posting? (recordArbitrage round symbol arb : Task db Venue Unit).trace := by
  rcases trace_recordArbitrage db round symbol arb with
    htrace | ⟨row, hrow, htrace⟩
  · rw [htrace]
    exact ⟨[], rfl⟩
  · obtain ⟨rfl, hbuy, hsell⟩ := labels_of_storeArbitrage hrow
    rw [htrace, ← hbuy, ← hsell]
    exact ⟨[.opportunities row.instrument row.buyVenue row.sellVenue], rfl⟩

section Books

variable [LinearOrder Venue]

theorem balanced_rounds (rounds : List (Round Venue × InstrumentTable)) :
    Balanced Effect.posting? (roundsScript db rounds) := by
  refine sequential_balanced.flatMap fun p _ => sequential_round sequential_balanced ?_ ?_ ?_
  · exact fun _ client i _ => balanced_pollClient client i
  · exact fun _ c _ => balanced_publishConsolidated c
  · exact fun _ arb _ => balanced_recordArbitrage arb

/-- **The counters count what is there.** -/
theorem counters_count_rows (rounds : List (Round Venue × InstrumentTable)) :
    (∀ account, entries Effect.posting? account (roundsScript db rounds) =
      receipts Effect.posting? account (roundsScript db rounds)) ∧
    ∀ front, front <+: roundsScript db rounds → ∃ pending : Option (Account Venue), ∀ account,
      entries Effect.posting? account front =
        receipts Effect.posting? account front + if pending = some account then 1 else 0 :=
  ⟨(balanced_rounds rounds).entries_eq, fun _ => (balanced_rounds rounds).stopped⟩

end Books

/-! ### What is told is stored -/

/-- The cache or the subscribers are told something. -/
def Effect.IsTold : Effect db Venue → Prop
  | .cacheSet _ _ | .groupSend _ _ _ => True
  | .insert _ | .inc _ | .publish _ _ => False

/-- A round computed this consolidated price of the instrument, and this is its row. -/
structure Priced (rounds : List (Round Venue × InstrumentTable)) [LinearOrder Venue] (symbol : Str)
    (snapshot : Snapshot Venue) (row : ConsolidatedPrice db Venue) : Prop where
  computed : ∃ p ∈ rounds, ∃ book, roundBook p.1 symbol = some book ∧
    storeBook db p.1 symbol book = .ok row ∧ snapshot = snapshotOf p.1 symbol book

/-- The first effect is the row of the snapshot that the second tells of an instrument. -/
def Vouches [LinearOrder Venue] (rounds : List (Round Venue × InstrumentTable))
    (w' w : Effect db Venue) : Prop :=
  ∃ symbol snapshot row, Priced rounds symbol snapshot row ∧ w' = .insert (.consolidated row) ∧
    (w = .cacheSet (cacheKey symbol) snapshot ∨ w = .groupSend (groupName symbol) symbol snapshot)

section Vouching

variable [LinearOrder Venue] {rounds : List (Round Venue × InstrumentTable)}

theorem caused_publishConsolidated {p : Round Venue × InstrumentTable} (hp : p ∈ rounds)
    {c : Consolidated Venue} (hc : roundBook p.1 symbol = some c) :
    Caused Effect.IsTold (Vouches rounds)
      (publishConsolidated p.1 symbol c : Task db Venue Unit).trace := by
  rcases trace_publishConsolidated db p.1 symbol c with
    htrace | ⟨row, told, hrow, htold, htrace⟩
  · rw [htrace]
    exact sequential_caused.nil
  · rw [htrace]
    refine caused_cons id fun w hw hneeds => ?_
    rcases List.mem_cons.mp hw with rfl | hw
    · exact absurd hneeds id
    · exact ⟨symbol, _, row, ⟨p, hp, c, hc, hrow, rfl⟩, rfl, htold w hw⟩

/-- Whatever is told has its row, wherever the rounds are stopped. -/
theorem caused_rounds (rounds : List (Round Venue × InstrumentTable)) :
    Caused Effect.IsTold (Vouches rounds) (roundsScript db rounds) := by
  refine sequential_caused.flatMap fun p hp => sequential_round sequential_caused ?_ ?_ ?_
  · intro symbol client i _
    refine caused_of_not_needs fun w hw hneeds => ?_
    cases only_pollClient client i w hw <;> exact hneeds
  · exact fun symbol c hc => caused_publishConsolidated hp hc
  · intro symbol arb _
    refine caused_of_not_needs fun w hw hneeds => ?_
    obtain ⟨_, _, rfl | rfl⟩ := mem_recordArbitrage.mp hw <;> exact hneeds

end Vouching

/-! ### What is published is stored -/

def Effect.IsPublished : Effect db Venue → Prop
  | .publish _ _ => True
  | .insert _ | .inc _ | .cacheSet _ _ | .groupSend _ _ _ => False

/-- The first effect is the row of the quote that the second publishes, which some venue replied. -/
def Backs (round : Round Venue) (w' w : Effect db Venue) : Prop :=
  ∃ symbol quote row, quote ∈ roundQuotes round symbol ∧ storeQuote db symbol quote = .ok row ∧
    w' = .insert (.quote row) ∧ w = .publish symbol quote

theorem caused_pollClient {client : Client Venue} {i : ℕ} (hclient : (client, i) ∈ round.clients.zipIdx) :
    Caused Effect.IsPublished (Backs round) (pollClient round symbol client i : Task db Venue _).trace := by
  rcases trace_pollClient db round symbol client i with
    htrace | htrace | ⟨row, quote, counter, hquote, hrow, _, htrace⟩
  · rw [htrace]
    exact caused_cons id fun w hw _ => absurd hw List.not_mem_nil
  · rw [htrace]
    exact sequential_caused.nil
  · rw [htrace]
    refine caused_cons id fun w hw hneeds => ?_
    simp only [List.mem_cons, List.not_mem_nil, or_false] at hw
    rcases hw with rfl | rfl | rfl
    · exact absurd hneeds id
    · exact ⟨symbol, quote, row, List.mem_filterMap.mpr ⟨(client, i), hclient, hquote⟩, hrow, rfl, rfl⟩
    · exact absurd hneeds id

theorem caused_published [LinearOrder Venue] (round : Round Venue) (table : InstrumentTable) :
    Caused Effect.IsPublished (Backs round) ((fetchQuotes round table).2 : Task db Venue Counts).trace := by
  refine sequential_round sequential_caused (fun _ client i hclient => caused_pollClient hclient) ?_ ?_
  · intro symbol c _
    refine caused_of_not_needs fun w hw hneeds => ?_
    obtain ⟨_, _, rfl | rfl | ⟨_, rfl | ⟨_, _, rfl⟩⟩⟩ := mem_publishConsolidated.mp hw <;> exact hneeds
  · intro symbol arb _
    refine caused_of_not_needs fun w hw hneeds => ?_
    obtain ⟨_, _, rfl | rfl⟩ := mem_recordArbitrage.mp hw <;> exact hneeds

end Pricestream
