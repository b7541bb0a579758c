import Pricestream.Proof.Scan
import Pricestream.Proof.Tasks.Creation

/-!
# What a round does

When nothing raises, a round is a fixed sequence of effects, and this module writes it down: for each
instrument visited, a quote row with its counters and its event for every venue that replied and a
counter for every one that did not, and then, if some quote is fit for it, the consolidated price
with its snapshot and the arbitrage opportunity. Each function of a round gets one lemma, which says
what it does and what it returns under the conditions on which it does not raise.
-/

namespace Pricestream

open Library Python

variable {db : Engine} {Venue : Type}

/-! ### Rows -/

theorem exists_writeDecimal_iff {col : NumericColumn} {d : Decimal} :
    (∃ cell, writeDecimal col d = .ok cell) ↔ Storable col d := by
  constructor
  · rintro ⟨cell, hcell⟩
    by_contra hnot
    rw [writeDecimal_of_not_storable hnot] at hcell
    cases hcell
  · intro h
    cases d with
    | finite x => exact ⟨_, writeDecimal_of_storable h⟩
    | infinity _ | nan _ => exact h.elim

theorem exists_quoteRow_iff {instrument : Str} {source : Venue} {bid ask : Decimal}
    {timestamp : DateTime.Instant} :
    (∃ row, QuoteRow.create db instrument source bid ask timestamp = .ok row) ↔
      Storable (priceColumn db) bid ∧ Storable (priceColumn db) ask := by
  rw [← exists_writeDecimal_iff, ← exists_writeDecimal_iff]
  constructor
  · rintro ⟨row, hrow⟩
    obtain ⟨b, hb, hrow⟩ := bind_eq_ok.mp hrow
    obtain ⟨a, ha, _⟩ := bind_eq_ok.mp hrow
    exact ⟨⟨b, hb⟩, ⟨a, ha⟩⟩
  · rintro ⟨⟨b, hb⟩, ⟨a, ha⟩⟩
    exact ⟨_, bind_eq_ok.mpr ⟨b, hb, bind_eq_ok.mpr ⟨a, ha, rfl⟩⟩⟩

structure Consolidated.Fits (db : Engine) (c : Consolidated Venue) : Prop where
  mid : (priceColumn db).Fits c.mid
  bid : (priceColumn db).Fits c.bid
  ask : (priceColumn db).Fits c.ask

instance (db : Engine) : DecidablePred fun c : Consolidated Venue => c.Fits db := fun c =>
  decidable_of_iff ((priceColumn db).Fits c.mid ∧ (priceColumn db).Fits c.bid ∧
      (priceColumn db).Fits c.ask)
    ⟨fun h => ⟨h.1, h.2.1, h.2.2⟩, fun h => ⟨h.mid, h.bid, h.ask⟩⟩

theorem exists_consolidatedPrice_iff {instrument : Str} {c : Consolidated Venue}
    {timestamp : DateTime.Instant} :
    (∃ row, ConsolidatedPrice.create db instrument c.mid c.bid c.ask c.sources timestamp = .ok row) ↔
      c.Fits db := by
  constructor
  · rintro ⟨row, hrow⟩
    obtain ⟨m, b, a, hm, hb, ha, _⟩ := ConsolidatedPrice.create_eq_ok.mp hrow
    exact ⟨exists_writeDecimal_iff.mp ⟨m, hm⟩, exists_writeDecimal_iff.mp ⟨b, hb⟩,
      exists_writeDecimal_iff.mp ⟨a, ha⟩⟩
  · intro h
    exact ⟨_, ConsolidatedPrice.create_eq_ok.mpr ⟨_, _, _, writeDecimal_of_storable h.mid,
      writeDecimal_of_storable h.bid, writeDecimal_of_storable h.ask, rfl⟩⟩

structure Arbitrage.Fits (db : Engine) (arb : Arbitrage Venue) : Prop where
  buyPrice : (priceColumn db).Fits arb.buyPrice
  sellPrice : (priceColumn db).Fits arb.sellPrice
  spread : (priceColumn db).Fits arb.spread
  spreadBps : ∃ bps, quantizeBps arb.spreadBps = .ok bps ∧ (bpsColumn db).Fits bps

instance (db : Engine) : DecidablePred fun arb : Arbitrage Venue => arb.Fits db := fun arb =>
  decidable_of_iff ((priceColumn db).Fits arb.buyPrice ∧ (priceColumn db).Fits arb.sellPrice ∧
      (priceColumn db).Fits arb.spread ∧
      ∃ bps ∈ (quantizeBps arb.spreadBps).toOption, (bpsColumn db).Fits bps)
    ⟨fun h => ⟨h.1, h.2.1, h.2.2.1, h.2.2.2.imp fun _ hbps => ⟨toOption_eq_some.mp hbps.1, hbps.2⟩⟩,
      fun h => ⟨h.buyPrice, h.sellPrice, h.spread,
        h.spreadBps.imp fun _ hbps => ⟨toOption_eq_some.mpr hbps.1, hbps.2⟩⟩⟩

theorem exists_arbitrageOpportunity_iff {instrument : Str} {arb : Arbitrage Venue}
    {timestamp : DateTime.Instant} :
    (∃ bps row, quantizeBps arb.spreadBps = .ok bps ∧
      ArbitrageOpportunity.create db instrument arb.buyVenue arb.buyPrice arb.sellVenue arb.sellPrice
        arb.spread bps timestamp = .ok row) ↔ arb.Fits db := by
  constructor
  · rintro ⟨bps, row, hbps, hrow⟩
    obtain ⟨buy, hbuy, hrow⟩ := bind_eq_ok.mp hrow
    obtain ⟨sell, hsell, hrow⟩ := bind_eq_ok.mp hrow
    obtain ⟨spread, hspread, hrow⟩ := bind_eq_ok.mp hrow
    obtain ⟨cell, hcell, _⟩ := bind_eq_ok.mp hrow
    exact ⟨exists_writeDecimal_iff.mp ⟨buy, hbuy⟩, exists_writeDecimal_iff.mp ⟨sell, hsell⟩,
      exists_writeDecimal_iff.mp ⟨spread, hspread⟩, bps, hbps, exists_writeDecimal_iff.mp ⟨cell, hcell⟩⟩
  · rintro ⟨hbuy, hsell, hspread, bps, hbps, hfits⟩
    refine ⟨bps, _, hbps, bind_eq_ok.mpr ⟨_, writeDecimal_of_storable hbuy, bind_eq_ok.mpr ⟨_,
      writeDecimal_of_storable hsell, bind_eq_ok.mpr ⟨_, writeDecimal_of_storable hspread,
        bind_eq_ok.mpr ⟨_, writeDecimal_of_storable hfits, rfl⟩⟩⟩⟩⟩

/-! ### Storing -/

/-- The row of a quote. -/
def storeQuote (db : Engine) (symbol : Str) (q : Quote Venue) : Except Exc (QuoteRow db Venue) :=
  QuoteRow.create db symbol q.source (.finite q.bid) (.finite q.ask) q.timestamp

/-- The row of a consolidated price. -/
def storeBook (db : Engine) (round : Round Venue) (symbol : Str) (c : Consolidated Venue) :
    Except Exc (ConsolidatedPrice db Venue) :=
  ConsolidatedPrice.create db symbol c.mid c.bid c.ask c.sources (round.clock.priced symbol)

/-- The row of an opportunity. -/
def storeArbitrage (db : Engine) (round : Round Venue) (symbol : Str) (arb : Arbitrage Venue) :
    Except Exc (ArbitrageOpportunity db Venue) := do
  let spreadBps ← quantizeBps arb.spreadBps
  ArbitrageOpportunity.create db symbol arb.buyVenue arb.buyPrice arb.sellVenue arb.sellPrice
    arb.spread spreadBps (round.clock.signalled symbol)

/-- Insert a row, if there is one. -/
def insertEffects {α : Type} (toRow : α → Row db Venue) : Except Exc α → List (Effect db Venue)
  | .ok row => [.insert (toRow row)]
  | .error _ => []

/-! ### One venue -/

/-- A reply the columns of a quote take; no reply is fine too. -/
def AcceptedReply (db : Engine) (reply : Option (Decimal × Decimal)) : Prop :=
  ∀ bid ask, reply = some (bid, ask) →
    Storable (priceColumn db) bid ∧ Storable (priceColumn db) ask

instance (db : Engine) : DecidablePred (AcceptedReply db)
  | none => .isTrue fun _ _ h => nomatch h
  | some (bid, ask) =>
      decidable_of_iff (Storable (priceColumn db) bid ∧ Storable (priceColumn db) ask)
        ⟨fun h _ _ he => by cases he; exact h, fun h => h bid ask rfl⟩

theorem acceptedReply_none (db : Engine) : AcceptedReply db none := by
  intro bid ask he
  cases he

theorem acceptedReply_some {bid ask : Decimal} :
    AcceptedReply db (some (bid, ask)) ↔
      Storable (priceColumn db) bid ∧ Storable (priceColumn db) ask := by
  constructor
  · exact fun h => h bid ask rfl
  · intro h bid' ask' he
    cases he
    exact h

def quoteOf (round : Round Venue) (symbol : Str) (client : Client Venue) (i : ℕ) :
    Option (Quote Venue) :=
  match client.fetch symbol with
  | some (.finite bid, .finite ask) => some ⟨client.name, bid, ask, round.clock.fetched symbol i⟩
  | _ => none

/-- The quotes of a round for one instrument. -/
def roundQuotes (round : Round Venue) (symbol : Str) : List (Quote Venue) :=
  round.clients.zipIdx.filterMap fun (client, i) => quoteOf round symbol client i

/-- The counter an attempt to publish moves. -/
def kafkaCounter (round : Round Venue) (symbol : Str) (client : ℕ) : Counter Venue :=
  match round.side (.publish symbol client) with
  | none => .kafkaPublished
  | some _ => .kafkaPublishFailed

def pollEffects (db : Engine) (round : Round Venue) (symbol : Str) (client : Client Venue) (i : ℕ) :
    List (Effect db Venue) :=
  match quoteOf round symbol client i with
  | none => [.inc (.quotesFailed symbol client.name)]
  | some quote =>
      insertEffects .quote (storeQuote db symbol quote) ++
        [.inc (.quotesFetched symbol client.name), .publish symbol quote,
          .inc (kafkaCounter round symbol i)]

theorem runs_publishToKafka (round : Round Venue) (symbol : Str) (i : ℕ) (quote : Quote Venue) :
    (publishToKafka round symbol i quote : Task db Venue Unit).Runs
      [.publish symbol quote, .inc (kafkaCounter round symbol i)] () := by
  unfold publishToKafka kafkaCounter
  cases round.side (.publish symbol i) <;>
    exact (Traced.runs_emit _).bind (Traced.runs_emit _)

theorem runs_createQuote {symbol : Str} {source : Venue} {b a : ℚ} {timestamp : DateTime.Instant}
    (hb : (priceColumn db).Fits b) (ha : (priceColumn db).Fits a) :
    (createQuote symbol source (.finite b) (.finite a) timestamp : Task db Venue _).Runs
      (insertEffects .quote (storeQuote db symbol ⟨source, b, a, timestamp⟩))
      ⟨source, b, a, timestamp⟩ := by
  obtain ⟨row, hrow⟩ : ∃ row, storeQuote db symbol ⟨source, b, a, timestamp⟩ = .ok row :=
    exists_quoteRow_iff.mpr ⟨hb, ha⟩
  rw [hrow]
  exact (Traced.runs_ofExcept hrow).bind ((Traced.runs_emit _).bind (Traced.runs_pure _))

theorem runs_pollClient {round : Round Venue} {symbol : Str} {client : Client Venue} {i : ℕ}
    (h : AcceptedReply db (client.fetch symbol)) :
    (pollClient round symbol client i : Task db Venue _).Runs (pollEffects db round symbol client i)
      (quoteOf round symbol client i) := by
  unfold pollClient pollEffects quoteOf
  cases hreply : client.fetch symbol with
  | none => exact (Traced.runs_emit _).bind (Traced.runs_pure _)
  | some reply =>
      obtain ⟨bid, ask⟩ := reply
      obtain ⟨hbid, hask⟩ := h bid ask hreply
      cases bid with
      | infinity _ | nan _ => exact hbid.elim
      | finite b =>
          cases ask with
          | infinity _ | nan _ => exact hask.elim
          | finite a =>
              refine (runs_createQuote hbid hask).bind ((Traced.runs_emit _).bind ?_)
              exact (runs_publishToKafka round symbol i _).bind (Traced.runs_pure _)

/-! ### All venues -/

/-- Every reply for an instrument can be stored. -/
def Accepted (db : Engine) (round : Round Venue) (symbol : Str) : Prop :=
  ∀ client ∈ round.clients, AcceptedReply db (client.fetch symbol)

instance (db : Engine) (round : Round Venue) : DecidablePred (Accepted db round) := fun symbol =>
  inferInstanceAs (Decidable (∀ client ∈ round.clients, AcceptedReply db (client.fetch symbol)))

theorem foldl_addQuote {β : Type} (f : β → Option (Quote Venue)) (l : List β) (written : ℕ)
    (quotes : List (Quote Venue)) :
    l.foldl (fun acc b => addQuote acc (f b)) (written, quotes) =
      (written + (l.filterMap f).length, quotes ++ l.filterMap f) := by
  induction l generalizing written quotes with
  | nil => simp
  | cons b l ih =>
      rw [List.foldl_cons, List.filterMap_cons]
      cases hb : f b with
      | none => exact ih written quotes
      | some quote =>
          refine (ih (written + 1) (quotes ++ [quote])).trans ?_
          rw [List.append_assoc, List.singleton_append, List.length_cons, Nat.add_assoc, Nat.add_comm 1]

theorem fits_of_mem_roundQuotes {round : Round Venue} {symbol : Str} (h : Accepted db round symbol)
    {q : Quote Venue} (hq : q ∈ roundQuotes round symbol) :
    (priceColumn db).Fits q.bid ∧ (priceColumn db).Fits q.ask := by
  obtain ⟨⟨client, i⟩, hclient, hquote⟩ := List.mem_filterMap.mp hq
  have haccepted := h client (List.fst_mem_of_mem_zipIdx hclient)
  cases hreply : client.fetch symbol with
  | none =>
      simp only [quoteOf, hreply] at hquote
      cases hquote
  | some reply =>
      obtain ⟨bid, ask⟩ := reply
      obtain ⟨hbid, hask⟩ := haccepted bid ask hreply
      cases bid with
      | infinity _ | nan _ => exact hbid.elim
      | finite b =>
          cases ask with
          | infinity _ | nan _ => exact hask.elim
          | finite a =>
              simp only [quoteOf, hreply] at hquote
              obtain rfl := Option.some.inj hquote
              exact ⟨hbid, hask⟩

def pollsEffects (db : Engine) (round : Round Venue) (symbol : Str) : List (Effect db Venue) :=
  round.clients.zipIdx.flatMap fun (client, i) => pollEffects db round symbol client i

theorem runs_pollClients {round : Round Venue} {symbol : Str} (h : Accepted db round symbol)
    (written : ℕ) :
    (pollClients round symbol written : Task db Venue _).Runs (pollsEffects db round symbol)
      (written + (roundQuotes round symbol).length, roundQuotes round symbol) := by
  have hloop : (pollClients round symbol written : Task db Venue _).Runs (pollsEffects db round symbol)
      (round.clients.zipIdx.foldl (fun acc c => addQuote acc (quoteOf round symbol c.1 c.2))
        (written, [])) := by
    refine Traced.runs_loop (fun c hc acc => ?_) _
    have hpoll : (pollClient round symbol c.1 c.2 : Task db Venue _).Runs
        (pollEffects db round symbol c.1 c.2) (quoteOf round symbol c.1 c.2) :=
      runs_pollClient (h c.1 (List.fst_mem_of_mem_zipIdx hc))
    exact hpoll.bind_nil (Traced.runs_pure _)
  rw [foldl_addQuote, List.nil_append] at hloop
  exact hloop

/-! ### One instrument -/

def roundBook [LinearOrder Venue] (round : Round Venue) (symbol : Str) : Option (Consolidated Venue) :=
  consolidate round.ctx round.maxAge (round.clock.checked symbol) (roundQuotes round symbol)

/-- The opportunity the scan returns, if it returns one. -/
def roundArbitrage [LinearOrder Venue] (round : Round Venue) (symbol : Str) :
    Option (Arbitrage Venue) :=
  (detectArbitrage round.ctx (roundQuotes round symbol)).toOption.join

theorem detectArbitrage_eq_roundArbitrage [LinearOrder Venue] {round : Round Venue} {symbol : Str}
    (h : MidsHold round.ctx (roundQuotes round symbol)) :
    detectArbitrage round.ctx (roundQuotes round symbol) = .ok (roundArbitrage round symbol) := by
  rw [roundArbitrage, detectArbitrage_of_midsHold h]
  rfl

theorem roundArbitrage_eq_some_iff [LinearOrder Venue] {round : Round Venue} {symbol : Str}
    {arb : Arbitrage Venue} :
    roundArbitrage round symbol = some arb ↔ MidsHold round.ctx (roundQuotes round symbol) ∧
      widestCrossing round.ctx (roundQuotes round symbol) = some arb := by
  by_cases h : MidsHold round.ctx (roundQuotes round symbol)
  · rw [roundArbitrage, detectArbitrage_of_midsHold h]
    simp [h, Except.toOption]
  · rw [roundArbitrage, detectArbitrage_of_not_midsHold h]
    simp [h, Except.toOption]

/-- The calls for an instrument's consolidated price go through. -/
def CallsSucceed (round : Round Venue) (symbol : Str) : Prop :=
  round.side (.cacheSet symbol) = none ∧ (round.hasLayer = true → round.side (.groupSend symbol) = none)

instance (round : Round Venue) : DecidablePred (CallsSucceed round) := fun _ =>
  inferInstanceAs (Decidable (_ ∧ _))

/-- What the cache and the subscribers are told. -/
def snapshotOf (round : Round Venue) (symbol : Str) (c : Consolidated Venue) : Snapshot Venue :=
  ⟨c.mid, c.bid, c.ask, c.sources, round.clock.priced symbol⟩

def broadcastEffects (db : Engine) (round : Round Venue) (symbol : Str) (snapshot : Snapshot Venue) :
    List (Effect db Venue) :=
  if round.hasLayer then [.groupSend (groupName symbol) symbol snapshot] else []

def bookEffects (db : Engine) (round : Round Venue) (symbol : Str) (c : Consolidated Venue) :
    List (Effect db Venue) :=
  insertEffects .consolidated (storeBook db round symbol c) ++
    [.inc (.consolidated symbol), .cacheSet (cacheKey symbol) (snapshotOf round symbol c)] ++
      broadcastEffects db round symbol (snapshotOf round symbol c)

def arbitrageEffects (db : Engine) (round : Round Venue) (symbol : Str) (arb : Arbitrage Venue) :
    List (Effect db Venue) :=
  insertEffects .arbitrage (storeArbitrage db round symbol arb) ++
    [.inc (.arbitrageDetected symbol arb.buyVenue arb.sellVenue)]

theorem runs_sideCall {round : Round Venue} {call : SideCall} (h : round.side call = none)
    (effect : Effect db Venue) : (sideCall round call effect).Runs [effect] () := by
  simp only [sideCall, h]
  exact Traced.runs_emit _

theorem runs_broadcastWs {round : Round Venue} {symbol : Str} (h : CallsSucceed round symbol)
    (snapshot : Snapshot Venue) :
    (broadcastWs round symbol snapshot : Task db Venue Unit).Runs
      (broadcastEffects db round symbol snapshot) () := by
  unfold broadcastWs broadcastEffects
  split_ifs with hlayer
  · exact runs_sideCall (h.2 hlayer) _
  · exact Traced.runs_pure ()

theorem runs_publishConsolidated {round : Round Venue} {symbol : Str} {c : Consolidated Venue}
    (hfits : c.Fits db) (hcalls : CallsSucceed round symbol) :
    (publishConsolidated round symbol c : Task db Venue _).Runs (bookEffects db round symbol c) () := by
  obtain ⟨row, hrow⟩ : ∃ row, storeBook db round symbol c = .ok row :=
    exists_consolidatedPrice_iff.mpr hfits
  unfold bookEffects
  rw [hrow]
  refine (Traced.runs_ofExcept hrow).bind ((Traced.runs_emit _).bind ((Traced.runs_emit _).bind ?_))
  exact (runs_sideCall hcalls.1 _).bind (runs_broadcastWs hcalls _)

theorem runs_recordArbitrage {round : Round Venue} {symbol : Str} {arb : Arbitrage Venue}
    (h : arb.Fits db) :
    (recordArbitrage round symbol arb : Task db Venue _).Runs (arbitrageEffects db round symbol arb)
      () := by
  obtain ⟨bps, row, hbps, hrow⟩ : ∃ bps row, quantizeBps arb.spreadBps = .ok bps ∧
      ArbitrageOpportunity.create db symbol arb.buyVenue arb.buyPrice arb.sellVenue arb.sellPrice
        arb.spread bps (round.clock.signalled symbol) = .ok row := exists_arbitrageOpportunity_iff.mpr h
  have hstore : storeArbitrage db round symbol arb = .ok row := bind_eq_ok.mpr ⟨bps, hbps, hrow⟩
  unfold arbitrageEffects
  rw [hstore]
  refine (Traced.runs_ofExcept hbps).bind ((Traced.runs_ofExcept hrow).bind ?_)
  exact (Traced.runs_emit _).bind (Traced.runs_emit _)

/-- What is computed from the replies for an instrument comes out, and can be stored. -/
structure RowsFit [LinearOrder Venue] (db : Engine) (round : Round Venue) (symbol : Str) : Prop where
  book : ∀ c, roundBook round symbol = some c → c.Fits db
  mids : (roundBook round symbol).isSome → MidsHold round.ctx (roundQuotes round symbol)
  arbitrage : ∀ arb, (roundBook round symbol).isSome → roundArbitrage round symbol = some arb →
    arb.Fits db

instance [LinearOrder Venue] (db : Engine) (round : Round Venue) : DecidablePred (RowsFit db round) :=
  fun symbol => decidable_of_iff ((∀ c ∈ roundBook round symbol, c.Fits db) ∧
      ((roundBook round symbol).isSome → MidsHold round.ctx (roundQuotes round symbol)) ∧
      ((roundBook round symbol).isSome → ∀ arb ∈ roundArbitrage round symbol, arb.Fits db))
    ⟨fun h => ⟨h.1, h.2.1, fun arb hsome harb => h.2.2 hsome arb harb⟩,
      fun h => ⟨h.book, h.mids, fun hsome arb harb => h.arbitrage arb hsome harb⟩⟩

/-- Nothing raises in the turn of an instrument. -/
structure Undisturbed [LinearOrder Venue] (db : Engine) (round : Round Venue) (symbol : Str) :
    Prop where
  accepted : Accepted db round symbol
  rowsFit : RowsFit db round symbol
  callsSucceed : (roundBook round symbol).isSome → CallsSucceed round symbol

instance [LinearOrder Venue] (db : Engine) (round : Round Venue) :
    DecidablePred (Undisturbed db round) := fun symbol =>
  decidable_of_iff (Accepted db round symbol ∧ RowsFit db round symbol ∧
      ((roundBook round symbol).isSome → CallsSucceed round symbol))
    ⟨fun h => ⟨h.1, h.2.1, h.2.2⟩, fun h => ⟨h.accepted, h.rowsFit, h.callsSucceed⟩⟩

def countsAfter [LinearOrder Venue] (round : Round Venue) (counts : Counts) (symbol : Str) : Counts :=
  let quotes := counts.quotes + (roundQuotes round symbol).length
  match roundBook round symbol, roundArbitrage round symbol with
  | none, _ => { counts with quotes }
  | some _, none => ⟨quotes, counts.consolidated + 1, counts.arbitrages⟩
  | some _, some _ => ⟨quotes, counts.consolidated + 1, counts.arbitrages + 1⟩

def turnEffects [LinearOrder Venue] (db : Engine) (round : Round Venue) (symbol : Str) :
    List (Effect db Venue) :=
  match roundBook round symbol, roundArbitrage round symbol with
  | none, _ => []
  | some c, none => bookEffects db round symbol c
  | some c, some arb => bookEffects db round symbol c ++ arbitrageEffects db round symbol arb

/-- Everything done in the turn of an instrument. -/
def instrumentEffects [LinearOrder Venue] (db : Engine) (round : Round Venue) (symbol : Str) :
    List (Effect db Venue) :=
  pollsEffects db round symbol ++ turnEffects db round symbol

theorem runs_signalArbitrage_of_none [LinearOrder Venue] {round : Round Venue} {symbol : Str}
    (hmids : MidsHold round.ctx (roundQuotes round symbol)) (h : roundArbitrage round symbol = none)
    (counts : Counts) :
    (signalArbitrage round counts symbol (roundQuotes round symbol) : Task db Venue Counts).Runs []
      counts := by
  have hscan := detectArbitrage_eq_roundArbitrage hmids
  rw [h] at hscan
  exact (Traced.runs_ofExcept hscan).bind (Traced.runs_pure counts)

theorem runs_signalArbitrage [LinearOrder Venue] {round : Round Venue} {symbol : Str}
    {arb : Arbitrage Venue} (h : roundArbitrage round symbol = some arb) (hfits : arb.Fits db)
    (counts : Counts) :
    (signalArbitrage round counts symbol (roundQuotes round symbol) : Task db Venue Counts).Runs
      (arbitrageEffects db round symbol arb) { counts with arbitrages := counts.arbitrages + 1 } := by
  have hscan := detectArbitrage_eq_roundArbitrage (roundArbitrage_eq_some_iff.mp h).1
  rw [h] at hscan
  exact (Traced.runs_ofExcept hscan).bind ((runs_recordArbitrage hfits).bind_nil (Traced.runs_pure _))

theorem consolidateQuotes_of_none [LinearOrder Venue] {round : Round Venue} {symbol : Str}
    (h : roundBook round symbol = none) (counts : Counts) :
    (consolidateQuotes round counts symbol (roundQuotes round symbol) : Task db Venue Counts) =
      pure counts := by
  unfold roundBook at h
  simp only [consolidateQuotes, h]

theorem consolidateQuotes_of_some [LinearOrder Venue] {round : Round Venue} {symbol : Str}
    {c : Consolidated Venue} (h : roundBook round symbol = some c) (counts : Counts) :
    (consolidateQuotes round counts symbol (roundQuotes round symbol) : Task db Venue Counts) =
      publishConsolidated round symbol c >>= fun _ =>
        signalArbitrage round { counts with consolidated := counts.consolidated + 1 } symbol
          (roundQuotes round symbol) := by
  unfold roundBook at h
  simp only [consolidateQuotes, h]

theorem runs_consolidateQuotes [LinearOrder Venue] {round : Round Venue} {symbol : Str}
    (h : Undisturbed db round symbol) (counts : Counts) :
    (consolidateQuotes round { counts with quotes := counts.quotes + (roundQuotes round symbol).length }
      symbol (roundQuotes round symbol) : Task db Venue Counts).Runs (turnEffects db round symbol)
        (countsAfter round counts symbol) := by
  unfold countsAfter turnEffects
  cases hbook : roundBook round symbol with
  | none =>
      rw [consolidateQuotes_of_none hbook]
      exact Traced.runs_pure _
  | some c =>
      have hsome : (roundBook round symbol).isSome := hbook ▸ rfl
      have hpublish : (publishConsolidated round symbol c : Task db Venue _).Runs _ () :=
        runs_publishConsolidated (h.rowsFit.book c hbook) (h.callsSucceed hsome)
      rw [consolidateQuotes_of_some hbook]
      cases hfound : roundArbitrage round symbol with
      | none =>
          exact hpublish.bind_nil (runs_signalArbitrage_of_none (h.rowsFit.mids hsome) hfound _)
      | some arb =>
          exact hpublish.bind (runs_signalArbitrage hfound (h.rowsFit.arbitrage arb hsome hfound) _)

theorem runs_fetchInstrument [LinearOrder Venue] {round : Round Venue} {instrument : Instrument}
    (h : Undisturbed db round instrument.symbol) (counts : Counts) :
    (fetchInstrument round counts instrument : Task db Venue _).Runs
      (instrumentEffects db round instrument.symbol) (countsAfter round counts instrument.symbol) :=
  (runs_pollClients h.accepted counts.quotes).bind (runs_consolidateQuotes h counts)

/-! ### What there is in a turn -/

section Members

variable [LinearOrder Venue] {round : Round Venue} {symbol : Str}

/-- The opportunity of a turn, which is looked for only if there is a consolidated price. -/
def turnArbitrage (round : Round Venue) (symbol : Str) : Option (Arbitrage Venue) :=
  (roundBook round symbol).bind fun _ => roundArbitrage round symbol

theorem turnEffects_eq (db : Engine) (round : Round Venue) (symbol : Str) :
    turnEffects db round symbol =
      (roundBook round symbol).toList.flatMap (bookEffects db round symbol) ++
        (turnArbitrage round symbol).toList.flatMap (arbitrageEffects db round symbol) := by
  unfold turnEffects turnArbitrage
  cases roundBook round symbol with
  | none => rfl
  | some c => cases roundArbitrage round symbol <;> simp

omit [LinearOrder Venue]

theorem mem_insertEffects {α : Type} {toRow : α → Row db Venue} {x : Except Exc α} {w : Effect db Venue} :
    w ∈ insertEffects toRow x ↔ ∃ row, x = .ok row ∧ w = .insert (toRow row) := by
  cases x <;> simp [insertEffects]

theorem source_of_quoteOf {client : Client Venue} {i : ℕ} {q : Quote Venue}
    (h : quoteOf round symbol client i = some q) : q.source = client.name := by
  unfold quoteOf at h
  split at h
  · obtain rfl := Option.some.inj h
    rfl
  · cases h

theorem kafkaCounter_eq (round : Round Venue) (symbol : Str) (i : ℕ) :
    kafkaCounter round symbol i = .kafkaPublished ∨
      kafkaCounter round symbol i = .kafkaPublishFailed := by
  unfold kafkaCounter
  cases round.side (.publish symbol i) with
  | none => exact Or.inl rfl
  | some e => exact Or.inr rfl

theorem mem_pollsEffects {w : Effect db Venue} (hw : w ∈ pollsEffects db round symbol) :
    (∃ q row, storeQuote db symbol q = .ok row ∧ w = .insert (.quote row)) ∨
      (∃ source, w = .inc (.quotesFetched symbol source) ∨ w = .inc (.quotesFailed symbol source)) ∨
      (∃ q ∈ roundQuotes round symbol, w = .publish symbol q) ∨
      w = .inc .kafkaPublished ∨ w = .inc .kafkaPublishFailed := by
  obtain ⟨⟨client, i⟩, hclient, hw⟩ := List.mem_flatMap.mp hw
  cases hq : quoteOf round symbol client i with
  | none =>
      simp only [pollEffects, hq] at hw
      exact Or.inr (Or.inl ⟨client.name, Or.inr (List.mem_singleton.mp hw)⟩)
  | some q =>
      simp only [pollEffects, hq] at hw
      rcases List.mem_append.mp hw with hw | hw
      · obtain ⟨row, hrow, rfl⟩ := mem_insertEffects.mp hw
        exact Or.inl ⟨q, row, hrow, rfl⟩
      · simp only [List.mem_cons, List.not_mem_nil, or_false] at hw
        rcases hw with rfl | rfl | rfl
        · exact Or.inr (Or.inl ⟨client.name, Or.inl rfl⟩)
        · exact Or.inr (Or.inr (Or.inl ⟨q, List.mem_filterMap.mpr ⟨_, hclient, hq⟩, rfl⟩))
        · rcases kafkaCounter_eq round symbol i with h | h
          · exact Or.inr (Or.inr (Or.inr (Or.inl (by rw [h]))))
          · exact Or.inr (Or.inr (Or.inr (Or.inr (by rw [h]))))

theorem mem_bookEffects {c : Consolidated Venue} {w : Effect db Venue} :
    w ∈ bookEffects db round symbol c ↔
      (∃ row, storeBook db round symbol c = .ok row ∧ w = .insert (.consolidated row)) ∨
      w = .inc (.consolidated symbol) ∨ w = .cacheSet (cacheKey symbol) (snapshotOf round symbol c) ∨
      (round.hasLayer = true ∧
        w = .groupSend (groupName symbol) symbol (snapshotOf round symbol c)) := by
  have hbroadcast : w ∈ broadcastEffects db round symbol (snapshotOf round symbol c) ↔
      round.hasLayer = true ∧
        w = .groupSend (groupName symbol) symbol (snapshotOf round symbol c) := by
    unfold broadcastEffects
    split_ifs with hlayer <;> simp [hlayer]
  rw [bookEffects, List.mem_append, List.mem_append, mem_insertEffects, hbroadcast]
  simp only [List.mem_cons, List.not_mem_nil, or_false, or_assoc]

theorem mem_arbitrageEffects {arb : Arbitrage Venue} {w : Effect db Venue} :
    w ∈ arbitrageEffects db round symbol arb ↔
      (∃ row, storeArbitrage db round symbol arb = .ok row ∧ w = .insert (.arbitrage row)) ∨
      w = .inc (.arbitrageDetected symbol arb.buyVenue arb.sellVenue) := by
  rw [arbitrageEffects, List.mem_append, mem_insertEffects, List.mem_singleton]

end Members

/-! ### The round -/

/-- A round in which nothing raises. -/
structure Sound [LinearOrder Venue] (db : Engine) (round : Round Venue)
    (instruments : InstrumentTable) : Prop where
  listable : ∀ symbol ∈ round.configured, Listable round.upper symbol
  undisturbed : ∀ symbol, Visited round instruments symbol → Undisturbed db round symbol

/-- **What a round does.** -/
theorem runs_fetchQuotes [LinearOrder Venue] {round : Round Venue} {instruments : InstrumentTable}
    (h : Sound db round instruments) :
    ((fetchQuotes round instruments).2 : Task db Venue Counts).Runs
      ((round.instruments (round.created instruments)).flatMap
        fun instrument => instrumentEffects db round instrument.symbol)
      ((round.instruments (round.created instruments)).foldl
        (fun counts instrument => countsAfter round counts instrument.symbol) ⟨0, 0, 0⟩) := by
  rw [fetchQuotes_of_listable h.listable]
  refine Traced.runs_loop (fun instrument hmem counts => ?_) _
  exact runs_fetchInstrument
    (h.undisturbed _ (exists_mem_instruments_iff.mp ⟨instrument, hmem, rfl⟩)) counts

end Pricestream
