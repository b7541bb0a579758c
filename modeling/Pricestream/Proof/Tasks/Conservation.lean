import Pricestream.Proof.Book
import Pricestream.Proof.Tasks.Completion

/-!
# Conservation

The rows a round writes, the counters it moves, the events it hands to the producer and the counts it
returns are advanced at different places of its loops, and they agree. Each of them is an observation
of the round's trace, and each observation comes down to one of three lists: the quotes of the round,
its consolidated prices and its opportunities, every entry under the symbol whose turn it belongs to.
Only instruments visited appear in them, and each of these at most once among the prices and at most
once among the opportunities.
-/

namespace Pricestream

open Library Python

variable {db : Engine} {Venue : Type}

/-! ### Observations -/

namespace Effect

def quoteRow? : Effect db Venue → Option (QuoteRow db Venue)
  | .insert (.quote row) => some row
  | _ => none

def consolidatedRow? : Effect db Venue → Option (ConsolidatedPrice db Venue)
  | .insert (.consolidated row) => some row
  | _ => none

def arbitrageRow? : Effect db Venue → Option (ArbitrageOpportunity db Venue)
  | .insert (.arbitrage row) => some row
  | _ => none

theorem quoteRow?_eq_some {w : Effect db Venue} {row : QuoteRow db Venue} :
    w.quoteRow? = some row ↔ w = .insert (.quote row) := by
  unfold quoteRow?
  split <;> simp_all

theorem consolidatedRow?_eq_some {w : Effect db Venue} {row : ConsolidatedPrice db Venue} :
    w.consolidatedRow? = some row ↔ w = .insert (.consolidated row) := by
  unfold consolidatedRow?
  split <;> simp_all

theorem arbitrageRow?_eq_some {w : Effect db Venue} {row : ArbitrageOpportunity db Venue} :
    w.arbitrageRow? = some row ↔ w = .insert (.arbitrage row) := by
  unfold arbitrageRow?
  split <;> simp_all

theorem mem_consolidatedRows {trace : List (Effect db Venue)} {row : ConsolidatedPrice db Venue} :
    row ∈ trace.filterMap consolidatedRow? ↔ .insert (.consolidated row) ∈ trace := by
  simp only [List.mem_filterMap, consolidatedRow?_eq_some, exists_eq_right]

theorem mem_arbitrageRows {trace : List (Effect db Venue)} {row : ArbitrageOpportunity db Venue} :
    row ∈ trace.filterMap arbitrageRow? ↔ .insert (.arbitrage row) ∈ trace := by
  simp only [List.mem_filterMap, arbitrageRow?_eq_some, exists_eq_right]

/-- The labels of an increment of `quotes_fetched_total`. -/
def fetched? : Effect db Venue → Option (Str × Venue)
  | .inc (.quotesFetched symbol source) => some (symbol, source)
  | _ => none

/-- The labels of an increment of `quotes_fetched_total` or of `quotes_failed_total`. -/
def polled? : Effect db Venue → Option (Str × Venue)
  | .inc (.quotesFetched symbol source) => some (symbol, source)
  | .inc (.quotesFailed symbol source) => some (symbol, source)
  | _ => none

/-- The label of an increment of `consolidated_total`. -/
def consolidated? : Effect db Venue → Option Str
  | .inc (.consolidated symbol) => some symbol
  | _ => none

/-- The labels of an increment of `arbitrage_detected_total`. -/
def detected? : Effect db Venue → Option (Str × Venue × Venue)
  | .inc (.arbitrageDetected symbol buyVenue sellVenue) => some (symbol, buyVenue, sellVenue)
  | _ => none

/-- An increment of `kafka_published_total` or of `kafka_publish_failed_total`. -/
def kafka? : Effect db Venue → Option Unit
  | .inc .kafkaPublished => some ()
  | .inc .kafkaPublishFailed => some ()
  | _ => none

/-- An event handed to the producer. -/
def event? : Effect db Venue → Option (Str × Quote Venue)
  | .publish symbol quote => some (symbol, quote)
  | _ => none

/-- The effect belongs to an instrument. -/
def About (symbol : Str) : Effect db Venue → Prop
  | .insert (.quote row) => row.instrument = symbol
  | .insert (.consolidated row) => row.instrument = symbol
  | .insert (.arbitrage row) => row.instrument = symbol
  | .inc (.quotesFetched instrument _) | .inc (.quotesFailed instrument _)
  | .inc (.consolidated instrument) | .inc (.staleQuotes instrument _)
  | .inc (.arbitrageDetected instrument _ _) => instrument = symbol
  | .inc .kafkaPublished | .inc .kafkaPublishFailed => False
  | .publish instrument _ => instrument = symbol
  | .cacheSet key _ => key = cacheKey symbol
  | .groupSend group instrument _ => group = groupName symbol ∨ instrument = symbol

/-- Which part of a turn an effect belongs to. -/
inductive Stage where
  | poll
  | price
  | signal
  deriving DecidableEq

def stage : Effect db Venue → Stage
  | .insert (.quote _) | .publish _ _ => .poll
  | .inc (.quotesFetched _ _) | .inc (.quotesFailed _ _) | .inc (.staleQuotes _ _) => .poll
  | .inc .kafkaPublished | .inc .kafkaPublishFailed => .poll
  | .insert (.consolidated _) | .inc (.consolidated _) => .price
  | .cacheSet _ _ | .groupSend _ _ _ => .price
  | .insert (.arbitrage _) | .inc (.arbitrageDetected _ _ _) => .signal

end Effect

/-- The symbols a round visits, in order. -/
def Round.symbols (round : Round Venue) (instruments : InstrumentTable) : List Str :=
  (round.instruments (round.created instruments)).map Instrument.symbol

/-- Some quote for the instrument is positive and fresh. -/
def HasCandidate (round : Round Venue) (symbol : Str) : Prop :=
  ∃ i q, (roundQuotes round symbol)[i]? = some q ∧ isPositive q = true ∧
    isFresh round.maxAge (round.clock.checked symbol i) q = true

/-- What the counts returned and the trace of a round say about each other and about its inputs. -/
structure Conserves [LinearOrder Venue] (round : Round Venue) (instruments : InstrumentTable)
    (counts : Counts) (trace : List (Effect db Venue)) : Prop where
  symbols : (round.symbols instruments).Nodup ∧
    ∀ symbol, symbol ∈ round.symbols instruments ↔ Visited round instruments symbol
  quotes : counts.quotes = (trace.filterMap Effect.quoteRow?).length
  fetched : trace.filterMap Effect.fetched? =
    (trace.filterMap Effect.quoteRow?).map fun row => (row.instrument, row.source)
  consolidated : counts.consolidated = (trace.filterMap Effect.consolidatedRow?).length
  consolidatedTotal : trace.filterMap Effect.consolidated? =
    (trace.filterMap Effect.consolidatedRow?).map ConsolidatedPrice.instrument
  arbitrages : counts.arbitrages = (trace.filterMap Effect.arbitrageRow?).length
  detected : trace.filterMap Effect.detected? =
    (trace.filterMap Effect.arbitrageRow?).map fun row => (row.instrument, row.buyVenue, row.sellVenue)
  polled : trace.filterMap Effect.polled? =
    (round.symbols instruments).flatMap fun symbol => round.clients.map fun client =>
      (symbol, client.name)
  polledTotal : (trace.filterMap Effect.polled?).length =
    (round.symbols instruments).length * round.clients.length
  kafka : (trace.filterMap Effect.kafka?).length = counts.quotes
  events : (trace.filterMap Effect.event?).map (fun (symbol, quote) => storeQuote db symbol quote) =
    (trace.filterMap Effect.quoteRow?).map .ok
  one_price : ∀ symbol, Visited round instruments symbol →
    ((trace.filterMap Effect.consolidatedRow?).map ConsolidatedPrice.instrument).count symbol ≤ 1 ∧
    (((trace.filterMap Effect.consolidatedRow?).map ConsolidatedPrice.instrument).count symbol = 1 ↔
      HasCandidate round symbol)
  one_arbitrage : ∀ symbol,
    ((trace.filterMap Effect.arbitrageRow?).map ArbitrageOpportunity.instrument).count symbol ≤ 1 ∧
    (symbol ∈ (trace.filterMap Effect.arbitrageRow?).map ArbitrageOpportunity.instrument →
      symbol ∈ (trace.filterMap Effect.consolidatedRow?).map ConsolidatedPrice.instrument)
  others : ∀ w ∈ trace, ∀ symbol, w.About symbol → Visited round instruments symbol

/-! ### Three lists -/

section Lists

variable [LinearOrder Venue] (round : Round Venue) (symbols : List Str)

/-- The quotes of some turns, each under the symbol of its turn. -/
def quotesOf (round : Round Venue) (symbols : List Str) : List (Str × Quote Venue) :=
  symbols.flatMap fun symbol => (roundQuotes round symbol).map fun q => (symbol, q)

def pricesOf (round : Round Venue) (symbols : List Str) : List (Str × Consolidated Venue) :=
  symbols.flatMap fun symbol => (roundBook round symbol).toList.map fun c => (symbol, c)

def signalsOf (round : Round Venue) (symbols : List Str) : List (Str × Arbitrage Venue) :=
  symbols.flatMap fun symbol => (turnArbitrage round symbol).toList.map fun arb => (symbol, arb)

theorem countsAfter_eq (counts : Counts) (symbol : Str) :
    countsAfter round counts symbol =
      ⟨counts.quotes + (roundQuotes round symbol).length,
        counts.consolidated + (roundBook round symbol).toList.length,
        counts.arbitrages + (turnArbitrage round symbol).toList.length⟩ := by
  rw [countsAfter, turnArbitrage]
  cases roundBook round symbol with
  | none => rfl
  | some c => cases roundArbitrage round symbol <;> rfl

theorem countsAfter_foldl (counts : Counts) :
    symbols.foldl (countsAfter round) counts =
      ⟨counts.quotes + (quotesOf round symbols).length,
        counts.consolidated + (pricesOf round symbols).length,
        counts.arbitrages + (signalsOf round symbols).length⟩ := by
  induction symbols generalizing counts with
  | nil => rfl
  | cons symbol symbols ih =>
      rw [List.foldl_cons, ih, countsAfter_eq]
      simp only [quotesOf, pricesOf, signalsOf, List.flatMap_cons, List.length_append, List.length_map,
        Nat.add_assoc]

omit [LinearOrder Venue] in
theorem map_fst_flatMap {α : Type} (f : Str → Option α) :
    (symbols.flatMap fun symbol => (f symbol).toList.map fun a => (symbol, a)).map Prod.fst =
      symbols.filter fun symbol => (f symbol).isSome := by
  induction symbols with
  | nil => rfl
  | cons symbol symbols ih =>
      rw [List.flatMap_cons, List.map_append, ih, List.filter_cons]
      cases f symbol <;> rfl

end Lists

/-! ### What an observer sees of some turns -/

section Observe

variable [LinearOrder Venue] {round : Round Venue} {symbol : Str} {γ : Type}
  {see : Effect db Venue → Option γ}

omit [LinearOrder Venue] in
theorem stage_of_mem_polls {w : Effect db Venue} (hw : w ∈ pollsEffects db round symbol) :
    w.stage = .poll := by
  rcases mem_pollsEffects hw with ⟨_, _, _, rfl⟩ | ⟨_, rfl | rfl⟩ | ⟨_, _, rfl⟩ | rfl | rfl <;> rfl

omit [LinearOrder Venue] in
theorem stage_of_mem_book {c : Consolidated Venue} {w : Effect db Venue}
    (hw : w ∈ bookEffects db round symbol c) : w.stage = .price := by
  rcases mem_bookEffects.mp hw with ⟨_, _, rfl⟩ | rfl | rfl | ⟨_, rfl⟩ <;> rfl

omit [LinearOrder Venue] in
theorem stage_of_mem_arbitrage {arb : Arbitrage Venue} {w : Effect db Venue}
    (hw : w ∈ arbitrageEffects db round symbol arb) : w.stage = .signal := by
  rcases mem_arbitrageEffects.mp hw with ⟨_, _, rfl⟩ | rfl <;> rfl

theorem stage_of_mem_turn {w : Effect db Venue} (hw : w ∈ turnEffects db round symbol) :
    w.stage ≠ .poll := by
  rw [turnEffects_eq] at hw
  rcases List.mem_append.mp hw with hw | hw
  · obtain ⟨c, _, hw⟩ := List.mem_flatMap.mp hw
    rw [stage_of_mem_book hw]
    decide
  · obtain ⟨arb, _, hw⟩ := List.mem_flatMap.mp hw
    rw [stage_of_mem_arbitrage hw]
    decide

omit [LinearOrder Venue] in
theorem filterMap_eq_nil_of_stage {k : Effect.Stage} (hsee : ∀ w, w.stage ≠ k → see w = none)
    {l : List (Effect db Venue)} (hl : ∀ w ∈ l, w.stage ≠ k) : l.filterMap see = [] :=
  List.filterMap_eq_nil_iff.mpr fun w hw => hsee w (hl w hw)

omit [LinearOrder Venue] in
theorem filterMap_pollsEffects {k : Effect.Stage} (hsee : ∀ w, w.stage ≠ k → see w = none)
    (hk : k ≠ .poll) : (pollsEffects db round symbol).filterMap see = [] := by
  refine filterMap_eq_nil_of_stage hsee fun w hw => ?_
  rw [stage_of_mem_polls hw]
  exact hk.symm

theorem filterMap_bookEffects {k : Effect.Stage} (hsee : ∀ w, w.stage ≠ k → see w = none)
    (hk : k ≠ .price) :
    ((roundBook round symbol).toList.flatMap (bookEffects db round symbol)).filterMap see = [] := by
  refine filterMap_eq_nil_of_stage hsee fun w hw => ?_
  obtain ⟨c, _, hw⟩ := List.mem_flatMap.mp hw
  rw [stage_of_mem_book hw]
  exact hk.symm

theorem filterMap_arbitrageEffects {k : Effect.Stage} (hsee : ∀ w, w.stage ≠ k → see w = none)
    (hk : k ≠ .signal) :
    ((turnArbitrage round symbol).toList.flatMap (arbitrageEffects db round symbol)).filterMap see =
      [] := by
  refine filterMap_eq_nil_of_stage hsee fun w hw => ?_
  obtain ⟨arb, _, hw⟩ := List.mem_flatMap.mp hw
  rw [stage_of_mem_arbitrage hw]
  exact hk.symm

omit [LinearOrder Venue] in
theorem filterMap_insertEffects {α : Type} (toRow : α → Row db Venue) (x : Except Exc α) :
    (insertEffects toRow x).filterMap see =
      (x.toOption.bind fun row => see (.insert (toRow row))).toList := by
  cases x with
  | error e => rfl
  | ok row =>
      show ([Effect.insert (toRow row)]).filterMap see = (see (.insert (toRow row))).toList
      cases hsee : see (.insert (toRow row)) <;> simp [hsee]

omit [LinearOrder Venue] in
theorem filterMap_flatMap_items {α : Type} {items : Str → List α} {effects : Str → List (Effect db Venue)}
    {g : Str → α → Option γ}
    (h : ∀ symbol, (effects symbol).filterMap see = (items symbol).filterMap (g symbol))
    (symbols : List Str) :
    (symbols.flatMap effects).filterMap see =
      (symbols.flatMap fun symbol => (items symbol).map fun a => (symbol, a)).filterMap
        fun p => g p.1 p.2 := by
  rw [List.filterMap_flatMap, List.filterMap_flatMap]
  congr 1
  funext symbol
  rw [h, List.filterMap_map]
  rfl

theorem observe_quotes {g : Str → Quote Venue → Option γ}
    (hsee : ∀ w, w.stage ≠ .poll → see w = none)
    (hfailed : ∀ symbol source, see (.inc (.quotesFailed symbol source)) = none)
    (hquote : ∀ symbol q i,
      ((storeQuote db symbol q).toOption.bind fun row => see (.insert (.quote row))).toList ++
        [Effect.inc (.quotesFetched symbol q.source), Effect.publish symbol q,
          Effect.inc (kafkaCounter round symbol i)].filterMap see = (g symbol q).toList)
    (symbols : List Str) :
    (symbols.flatMap (instrumentEffects db round)).filterMap see =
      (quotesOf round symbols).filterMap fun p => g p.1 p.2 := by
  refine filterMap_flatMap_items (fun symbol => ?_) symbols
  have hpolls : (pollsEffects db round symbol).filterMap see =
      (roundQuotes round symbol).filterMap (g symbol) := by
    rw [pollsEffects, List.filterMap_flatMap, roundQuotes, List.filterMap_filterMap,
      List.filterMap_eq_flatMap_toList]
    congr 1
    funext ⟨client, i⟩
    show (pollEffects db round symbol client i).filterMap see =
      ((quoteOf round symbol client i).bind (g symbol)).toList
    unfold pollEffects
    cases hq : quoteOf round symbol client i with
    | none => simp [hfailed]
    | some q =>
        rw [← source_of_quoteOf hq, Option.bind_some, ← hquote symbol q i, ← filterMap_insertEffects,
          ← List.filterMap_append]
  have hturn : (turnEffects db round symbol).filterMap see = [] :=
    filterMap_eq_nil_of_stage hsee fun w hw => stage_of_mem_turn hw
  rw [instrumentEffects, List.filterMap_append, hpolls, hturn, List.append_nil]

theorem observe_prices {g : Str → Consolidated Venue → Option γ}
    (hsee : ∀ w, w.stage ≠ .price → see w = none)
    (hbook : ∀ symbol c, (bookEffects db round symbol c).filterMap see = (g symbol c).toList)
    (symbols : List Str) :
    (symbols.flatMap (instrumentEffects db round)).filterMap see =
      (pricesOf round symbols).filterMap fun p => g p.1 p.2 := by
  refine filterMap_flatMap_items (fun symbol => ?_) symbols
  rw [instrumentEffects, turnEffects_eq, List.filterMap_append, List.filterMap_append,
    filterMap_pollsEffects hsee (by decide), filterMap_arbitrageEffects hsee (by decide),
    List.nil_append, List.append_nil, List.filterMap_flatMap, List.filterMap_eq_flatMap_toList]
  congr 1
  funext c
  exact hbook symbol c

theorem observe_signals {g : Str → Arbitrage Venue → Option γ}
    (hsee : ∀ w, w.stage ≠ .signal → see w = none)
    (harbitrage : ∀ symbol arb,
      (arbitrageEffects db round symbol arb).filterMap see = (g symbol arb).toList)
    (symbols : List Str) :
    (symbols.flatMap (instrumentEffects db round)).filterMap see =
      (signalsOf round symbols).filterMap fun p => g p.1 p.2 := by
  refine filterMap_flatMap_items (fun symbol => ?_) symbols
  rw [instrumentEffects, turnEffects_eq, List.filterMap_append, List.filterMap_append,
    filterMap_pollsEffects hsee (by decide), filterMap_bookEffects hsee (by decide),
    List.nil_append, List.nil_append, List.filterMap_flatMap, List.filterMap_eq_flatMap_toList]
  congr 1
  funext arb
  exact harbitrage symbol arb

end Observe

/-! ### Each observation -/

theorem fetched?_of_stage {w : Effect db Venue} (hw : w.stage ≠ .poll) : w.fetched? = none := by
  unfold Effect.fetched?
  split
  · exact absurd rfl hw
  · rfl

theorem event?_of_stage {w : Effect db Venue} (hw : w.stage ≠ .poll) : w.event? = none := by
  unfold Effect.event?
  split
  · exact absurd rfl hw
  · rfl

section Each

variable [LinearOrder Venue] (db : Engine) (round : Round Venue) (symbols : List Str)

theorem seen_quoteRow :
    (symbols.flatMap (instrumentEffects db round)).filterMap Effect.quoteRow? =
      (quotesOf round symbols).filterMap fun p => (storeQuote db p.1 p.2).toOption := by
  refine observe_quotes (g := fun symbol q => (storeQuote db symbol q).toOption) ?_ (fun _ _ => rfl) ?_
    symbols
  · intro w hw
    unfold Effect.quoteRow?
    split
    · exact absurd rfl hw
    · rfl
  · intro symbol q i
    cases storeQuote db symbol q <;> rfl

theorem seen_fetched :
    (symbols.flatMap (instrumentEffects db round)).filterMap Effect.fetched? =
      (quotesOf round symbols).map fun p => (p.1, p.2.source) := by
  rw [← List.filterMap_eq_map]
  refine observe_quotes (g := fun symbol q => some (symbol, q.source)) (fun _ => fetched?_of_stage)
    (fun _ _ => rfl) ?_ symbols
  · intro symbol q i
    rcases kafkaCounter_eq round symbol i with h | h <;> rw [h] <;>
      cases storeQuote db symbol q <;> rfl

theorem seen_kafka :
    (symbols.flatMap (instrumentEffects db round)).filterMap Effect.kafka? =
      (quotesOf round symbols).map fun _ => () := by
  rw [← List.filterMap_eq_map]
  refine observe_quotes (g := fun _ _ => some ()) ?_ (fun _ _ => rfl) ?_ symbols
  · intro w hw
    unfold Effect.kafka?
    split
    · exact absurd rfl hw
    · exact absurd rfl hw
    · rfl
  · intro symbol q i
    rcases kafkaCounter_eq round symbol i with h | h <;> rw [h] <;>
      cases storeQuote db symbol q <;> rfl

theorem seen_event :
    (symbols.flatMap (instrumentEffects db round)).filterMap Effect.event? = quotesOf round symbols := by
  rw [observe_quotes (g := fun symbol q => some (symbol, q)) (fun _ => event?_of_stage) (fun _ _ => rfl)
    ?_ symbols]
  · exact List.filterMap_some
  · intro symbol q i
    cases storeQuote db symbol q <;> rfl

theorem seen_polled :
    (symbols.flatMap (instrumentEffects db round)).filterMap Effect.polled? =
      symbols.flatMap fun symbol => round.clients.map fun client => (symbol, client.name) := by
  have hsee : ∀ w : Effect db Venue, w.stage ≠ .poll → w.polled? = none := by
    intro w hw
    unfold Effect.polled?
    split
    · exact absurd rfl hw
    · exact absurd rfl hw
    · rfl
  rw [List.filterMap_flatMap]
  congr 1
  funext symbol
  have hturn : (turnEffects db round symbol).filterMap Effect.polled? = [] :=
    filterMap_eq_nil_of_stage hsee fun w hw => stage_of_mem_turn hw
  have hpoll : ∀ client i, (pollEffects db round symbol client i).filterMap Effect.polled? =
      [(symbol, client.name)] := by
    intro client i
    unfold pollEffects
    cases quoteOf round symbol client i with
    | none => rfl
    | some q =>
        show (insertEffects .quote (storeQuote db symbol q) ++ _).filterMap Effect.polled? = _
        rw [List.filterMap_append, filterMap_insertEffects]
        rcases kafkaCounter_eq round symbol i with h | h <;> rw [h] <;>
          cases storeQuote db symbol q <;> rfl
  rw [instrumentEffects, List.filterMap_append, hturn, List.append_nil, pollsEffects,
    List.filterMap_flatMap]
  simp only [hpoll]
  rw [← List.map_eq_flatMap, ← List.zipIdx_map_fst 0 round.clients, List.map_map]
  rw [List.zipIdx_map_fst]
  rfl

theorem seen_consolidatedRow :
    (symbols.flatMap (instrumentEffects db round)).filterMap Effect.consolidatedRow? =
      (pricesOf round symbols).filterMap fun p => (storeBook db round p.1 p.2).toOption := by
  refine observe_prices (g := fun symbol c => (storeBook db round symbol c).toOption) ?_ ?_ symbols
  · intro w hw
    unfold Effect.consolidatedRow?
    split
    · exact absurd rfl hw
    · rfl
  · intro symbol c
    rw [bookEffects, List.filterMap_append, List.filterMap_append, filterMap_insertEffects,
      broadcastEffects]
    cases storeBook db round symbol c <;> split_ifs <;> rfl

theorem seen_consolidated :
    (symbols.flatMap (instrumentEffects db round)).filterMap Effect.consolidated? =
      (pricesOf round symbols).map Prod.fst := by
  rw [← List.filterMap_eq_map]
  refine observe_prices (g := fun symbol _ => some symbol) ?_ ?_ symbols
  · intro w hw
    unfold Effect.consolidated?
    split
    · exact absurd rfl hw
    · rfl
  · intro symbol c
    rw [bookEffects, List.filterMap_append, List.filterMap_append, filterMap_insertEffects,
      broadcastEffects]
    cases storeBook db round symbol c <;> split_ifs <;> rfl

theorem seen_arbitrageRow :
    (symbols.flatMap (instrumentEffects db round)).filterMap Effect.arbitrageRow? =
      (signalsOf round symbols).filterMap fun p => (storeArbitrage db round p.1 p.2).toOption := by
  refine observe_signals (g := fun symbol arb => (storeArbitrage db round symbol arb).toOption) ?_ ?_
    symbols
  · intro w hw
    unfold Effect.arbitrageRow?
    split
    · exact absurd rfl hw
    · rfl
  · intro symbol arb
    rw [arbitrageEffects, List.filterMap_append, filterMap_insertEffects]
    cases storeArbitrage db round symbol arb <;> rfl

theorem seen_detected :
    (symbols.flatMap (instrumentEffects db round)).filterMap Effect.detected? =
      (signalsOf round symbols).map fun p => (p.1, p.2.buyVenue, p.2.sellVenue) := by
  rw [← List.filterMap_eq_map]
  refine observe_signals (g := fun symbol arb => some (symbol, arb.buyVenue, arb.sellVenue)) ?_ ?_
    symbols
  · intro w hw
    unfold Effect.detected?
    split
    · exact absurd rfl hw
    · rfl
  · intro symbol arb
    rw [arbitrageEffects, List.filterMap_append, filterMap_insertEffects]
    cases storeArbitrage db round symbol arb <;> rfl

end Each

/-! ### The round -/

theorem map_filterMap_toOption {ε α β γ : Type} {store : α → Except ε β} {g : β → γ} {k : α → γ}
    {l : List α} (h : ∀ a ∈ l, ∃ b, store a = .ok b ∧ g b = k a) :
    (l.filterMap fun a => (store a).toOption).map g = l.map k := by
  induction l with
  | nil => rfl
  | cons a l ih =>
      obtain ⟨b, hb, hg⟩ := h a List.mem_cons_self
      have hrest := ih fun a' ha' => h a' (List.mem_cons_of_mem _ ha')
      rw [List.map_cons, ← hg, ← hrest, List.filterMap_cons_some (by rw [hb]; rfl), List.map_cons]

theorem length_filterMap_toOption {ε α β : Type} {store : α → Except ε β} {l : List α}
    (h : ∀ a ∈ l, ∃ b, store a = .ok b) : (l.filterMap fun a => (store a).toOption).length = l.length := by
  have hmap : (l.filterMap fun a => (store a).toOption).map (fun _ => ()) = l.map fun _ => () :=
    map_filterMap_toOption fun a ha => (h a ha).imp fun b hb => ⟨hb, rfl⟩
  simpa using congrArg List.length hmap

theorem labels_of_storeQuote {symbol : Str} {q : Quote Venue} {row : QuoteRow db Venue}
    (h : storeQuote db symbol q = .ok row) : row.instrument = symbol ∧ row.source = q.source := by
  obtain ⟨_, _, h⟩ := bind_eq_ok.mp h
  obtain ⟨_, _, h⟩ := bind_eq_ok.mp h
  obtain rfl := Except.ok.inj h
  exact ⟨rfl, rfl⟩

theorem label_of_storeBook {round : Round Venue} {symbol : Str} {c : Consolidated Venue}
    {row : ConsolidatedPrice db Venue} (h : storeBook db round symbol c = .ok row) :
    row.instrument = symbol := by
  obtain ⟨_, _, _, _, _, _, rfl⟩ := ConsolidatedPrice.create_eq_ok.mp h
  rfl

theorem labels_of_storeArbitrage {round : Round Venue} {symbol : Str} {arb : Arbitrage Venue}
    {row : ArbitrageOpportunity db Venue} (h : storeArbitrage db round symbol arb = .ok row) :
    row.instrument = symbol ∧ row.buyVenue = arb.buyVenue ∧ row.sellVenue = arb.sellVenue := by
  obtain ⟨_, _, h⟩ := bind_eq_ok.mp h
  obtain ⟨_, _, h⟩ := bind_eq_ok.mp h
  obtain ⟨_, _, h⟩ := bind_eq_ok.mp h
  obtain ⟨_, _, h⟩ := bind_eq_ok.mp h
  obtain ⟨_, _, h⟩ := bind_eq_ok.mp h
  obtain rfl := Except.ok.inj h
  exact ⟨rfl, rfl, rfl⟩

theorem cacheKey_injective : Function.Injective cacheKey := List.append_right_injective _

theorem groupName_injective : Function.Injective groupName := List.append_right_injective _

theorem mem_symbols {round : Round Venue} {instruments : InstrumentTable} {symbol : Str} :
    symbol ∈ round.symbols instruments ↔ Visited round instruments symbol := by
  rw [← exists_mem_instruments_iff, Round.symbols, List.mem_map]

theorem nodup_symbols (round : Round Venue) (instruments : InstrumentTable) :
    (round.symbols instruments).Nodup := by
  have hperm := List.mergeSort_perm ((round.created instruments).rows.filter fun row =>
    row.isActive && round.configured.contains row.symbol) fun a b => round.collate a.symbol b.symbol
  refine (hperm.map Instrument.symbol).nodup_iff.mpr ?_
  exact (round.created instruments).unique.sublist (List.filter_sublist.map _)

section Round

variable [LinearOrder Venue] {round : Round Venue} {instruments : InstrumentTable}

theorem runs_symbols (h : Sound db round instruments) :
    ((fetchQuotes round instruments).2 : Task db Venue Counts).Runs
      ((round.symbols instruments).flatMap (instrumentEffects db round))
      ⟨(quotesOf round (round.symbols instruments)).length,
        (pricesOf round (round.symbols instruments)).length,
        (signalsOf round (round.symbols instruments)).length⟩ := by
  have hrun := runs_fetchQuotes h
  have hcounts : (round.instruments (round.created instruments)).foldl
      (fun counts instrument => countsAfter round counts instrument.symbol) ⟨0, 0, 0⟩ =
        (round.symbols instruments).foldl (countsAfter round) ⟨0, 0, 0⟩ := by
    rw [Round.symbols, List.foldl_map]
  rw [hcounts, countsAfter_foldl, Nat.zero_add, Nat.zero_add, Nat.zero_add] at hrun
  rw [Round.symbols, List.flatMap_map]
  exact hrun

theorem Sound.storeQuote (h : Sound db round instruments) :
    ∀ p ∈ quotesOf round (round.symbols instruments), ∃ row, storeQuote db p.1 p.2 = .ok row := by
  intro p hp
  obtain ⟨symbol, hsymbol, hp⟩ := List.mem_flatMap.mp hp
  obtain ⟨q, hq, rfl⟩ := List.mem_map.mp hp
  exact exists_quoteRow_iff.mpr
    (fits_of_mem_roundQuotes (h.undisturbed symbol (mem_symbols.mp hsymbol)).accepted hq)

theorem Sound.storeBook (h : Sound db round instruments) :
    ∀ p ∈ pricesOf round (round.symbols instruments), ∃ row, storeBook db round p.1 p.2 = .ok row := by
  intro p hp
  obtain ⟨symbol, hsymbol, hp⟩ := List.mem_flatMap.mp hp
  obtain ⟨c, hc, rfl⟩ := List.mem_map.mp hp
  exact exists_consolidatedPrice_iff.mpr
    ((h.undisturbed symbol (mem_symbols.mp hsymbol)).rowsFit.book c (Option.mem_toList.mp hc))

theorem Sound.storeArbitrage (h : Sound db round instruments) :
    ∀ p ∈ signalsOf round (round.symbols instruments),
      ∃ row, storeArbitrage db round p.1 p.2 = .ok row := by
  intro p hp
  obtain ⟨symbol, hsymbol, hp⟩ := List.mem_flatMap.mp hp
  obtain ⟨arb, harb, rfl⟩ := List.mem_map.mp hp
  obtain ⟨c, hc, harb⟩ := Option.bind_eq_some_iff.mp (Option.mem_toList.mp harb)
  have hfits := (h.undisturbed symbol (mem_symbols.mp hsymbol)).rowsFit.arbitrage arb (hc ▸ rfl) harb
  obtain ⟨bps, row, hbps, hrow⟩ := exists_arbitrageOpportunity_iff.mpr hfits
  exact ⟨row, bind_eq_ok.mpr ⟨bps, hbps, hrow⟩⟩

theorem hasCandidate_iff {symbol : Str} :
    HasCandidate round symbol ↔ (roundBook round symbol).isSome := by
  rw [roundBook, isSome_consolidate_iff, HasCandidate, exists_comm]
  simp only [mem_candidates]

theorem isSome_roundBook_of_turnArbitrage {symbol : Str} (h : (turnArbitrage round symbol).isSome) :
    (roundBook round symbol).isSome := by
  obtain ⟨arb, harb⟩ := Option.isSome_iff_exists.mp h
  obtain ⟨c, hc, _⟩ := Option.bind_eq_some_iff.mp harb
  rw [hc]
  rfl

/-- Whatever a turn does, it does under its own instrument's name. -/
theorem about_of_mem_turn {symbol symbol' : Str} {w : Effect db Venue}
    (hw : w ∈ instrumentEffects db round symbol) (habout : w.About symbol') : symbol' = symbol := by
  rw [instrumentEffects, turnEffects_eq] at hw
  rcases List.mem_append.mp hw with hw | hw
  · rcases mem_pollsEffects hw with ⟨q, row, hrow, rfl⟩ | ⟨_, rfl | rfl⟩ | ⟨_, _, rfl⟩ | rfl | rfl
    · exact habout.symm.trans (labels_of_storeQuote hrow).1
    · exact habout.symm
    · exact habout.symm
    · exact habout.symm
    · exact habout.elim
    · exact habout.elim
  · rcases List.mem_append.mp hw with hw | hw
    · obtain ⟨c, _, hw⟩ := List.mem_flatMap.mp hw
      rcases mem_bookEffects.mp hw with ⟨row, hrow, rfl⟩ | rfl | rfl | ⟨_, rfl⟩
      · exact habout.symm.trans (label_of_storeBook hrow)
      · exact habout.symm
      · exact (cacheKey_injective habout).symm
      · exact habout.elim (fun h => (groupName_injective h).symm) Eq.symm
    · obtain ⟨arb, _, hw⟩ := List.mem_flatMap.mp hw
      rcases mem_arbitrageEffects.mp hw with ⟨row, hrow, rfl⟩ | rfl
      · exact habout.symm.trans (labels_of_storeArbitrage hrow).1
      · exact habout.symm

theorem conserves_of_sound (h : Sound db round instruments) :
    Conserves round instruments
      ⟨(quotesOf round (round.symbols instruments)).length,
        (pricesOf round (round.symbols instruments)).length,
        (signalsOf round (round.symbols instruments)).length⟩
      ((round.symbols instruments).flatMap (instrumentEffects db round)) := by
  have hnodup := nodup_symbols round instruments
  have hquoteLabels := map_filterMap_toOption (g := fun row => (row.instrument, row.source))
    (k := fun p => (p.1, p.2.source)) fun p hp => (h.storeQuote p hp).imp fun row hrow =>
      ⟨hrow, Prod.ext (labels_of_storeQuote hrow).1 (labels_of_storeQuote hrow).2⟩
  have hpriceLabels := map_filterMap_toOption (g := ConsolidatedPrice.instrument) (k := Prod.fst)
    fun p hp => (h.storeBook p hp).imp fun row hrow => ⟨hrow, label_of_storeBook hrow⟩
  have hsignalLabels := map_filterMap_toOption (g := ArbitrageOpportunity.instrument) (k := Prod.fst)
    fun p hp => (h.storeArbitrage p hp).imp fun row hrow => ⟨hrow, (labels_of_storeArbitrage hrow).1⟩
  have hprices : (pricesOf round (round.symbols instruments)).map Prod.fst =
      (round.symbols instruments).filter fun symbol => (roundBook round symbol).isSome :=
    map_fst_flatMap _ _
  have hsignals : (signalsOf round (round.symbols instruments)).map Prod.fst =
      (round.symbols instruments).filter fun symbol => (turnArbitrage round symbol).isSome :=
    map_fst_flatMap _ _
  constructor
  case symbols => exact ⟨hnodup, fun symbol => mem_symbols⟩
  case quotes => rw [seen_quoteRow, length_filterMap_toOption h.storeQuote]
  case fetched => rw [seen_fetched, seen_quoteRow, hquoteLabels]
  case consolidated => rw [seen_consolidatedRow, length_filterMap_toOption h.storeBook]
  case consolidatedTotal => rw [seen_consolidated, seen_consolidatedRow, hpriceLabels]
  case arbitrages => rw [seen_arbitrageRow, length_filterMap_toOption h.storeArbitrage]
  case detected =>
    rw [seen_detected, seen_arbitrageRow]
    refine (map_filterMap_toOption fun p hp => (h.storeArbitrage p hp).imp fun row hrow => ?_).symm
    obtain ⟨hsymbol, hbuy, hsell⟩ := labels_of_storeArbitrage hrow
    exact ⟨hrow, by rw [hsymbol, hbuy, hsell]⟩
  case polled => exact seen_polled db round _
  case polledTotal =>
    rw [seen_polled, List.length_flatMap]
    simp only [List.length_map, List.map_const', List.sum_replicate_nat]
  case kafka => rw [seen_kafka, List.length_map]
  case events =>
    rw [seen_event, seen_quoteRow]
    exact (map_filterMap_toOption fun p hp => (h.storeQuote p hp).imp fun row hrow =>
      ⟨hrow, hrow.symm⟩).symm
  case one_price =>
    intro symbol hvisited
    rw [seen_consolidatedRow, hpriceLabels, hprices, hasCandidate_iff]
    have hsub := hnodup.filter fun symbol => (roundBook round symbol).isSome
    refine ⟨List.nodup_iff_count_le_one.mp hsub symbol, ?_⟩
    rw [hsub.count]
    simp [mem_symbols, hvisited, Option.isSome_iff_ne_none]
  case one_arbitrage =>
    intro symbol
    rw [seen_arbitrageRow, hsignalLabels, hsignals, seen_consolidatedRow, hpriceLabels, hprices]
    refine ⟨List.nodup_iff_count_le_one.mp (hnodup.filter _) symbol, fun hmem => ?_⟩
    rw [List.mem_filter] at hmem ⊢
    exact ⟨hmem.1, isSome_roundBook_of_turnArbitrage hmem.2⟩
  case others =>
    intro w hw symbol habout
    obtain ⟨symbol', hsymbol', hw⟩ := List.mem_flatMap.mp hw
    rw [about_of_mem_turn hw habout]
    exact mem_symbols.mp hsymbol'

end Round

/-- **Conservation.** A round that returns conserves. -/
theorem round_conserves [LinearOrder Venue] {round : Round Venue} {instruments : InstrumentTable}
    {counts : Counts}
    (h : ((fetchQuotes round instruments).2 : Task db Venue Counts).Returns counts) :
    Conserves round instruments counts
      ((fetchQuotes round instruments).2 : Task db Venue Counts).trace := by
  have hsound : Sound db round instruments := completes_iff.mp ⟨counts, h⟩
  have hrun := runs_symbols hsound
  obtain rfl := Except.ok.inj (hrun.returns.symm.trans h)
  rw [hrun.trace_eq]
  exact conserves_of_sound hsound

/-- Two venues cross, a third does not reply, and publishing one of the quotes fails. -/
def crossedRound : Round ℕ where
  ctx := .exact
  upper s := s
  collate a b := decide (a ≤ b)
  configured := [Str.ofString "BTC-USD"]
  maxAge := 30
  clients := [⟨0, fun _ => some (.finite 99, .finite 100)⟩, ⟨1, fun _ => none⟩,
    ⟨2, fun _ => some (.finite 101, .finite 102)⟩]
  clock := ⟨fun _ _ => 0, fun _ _ => 0, fun _ => 0, fun _ => 0⟩
  hasLayer := true
  side call := if call = .publish (Str.ofString "BTC-USD") 2 then some .connectionError else none

theorem crossedRound_conserves :
    ((fetchQuotes crossedRound KeyedTable.empty).2 : Task .postgres ℕ Counts).Returns ⟨2, 1, 1⟩ ∧
      Conserves crossedRound KeyedTable.empty ⟨2, 1, 1⟩
        ((fetchQuotes crossedRound KeyedTable.empty).2 : Task .postgres ℕ Counts).trace := by
  have hcounts : ((fetchQuotes crossedRound KeyedTable.empty).2 :
      Task .postgres ℕ Counts).result.toOption = some ⟨2, 1, 1⟩ := by decide +kernel
  have hreturns := toOption_eq_some.mp hcounts
  exact ⟨hreturns, round_conserves hreturns⟩

end Pricestream
