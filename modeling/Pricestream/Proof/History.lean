import Pricestream.History
import Pricestream.Proof.Listing
import Pricestream.Proof.Tasks.Books
import Pricestream.Proof.Tasks.Overlap
import Pricestream.Proof.Tasks.Precision
import Pricestream.Proof.Tasks.Staleness

/-!
# Reading quotes and opportunities while they are written

Rounds write rows of their own and never touch one that is there, so what a list view reads is what was
written in the first steps of a history. A client that follows the pages while rounds go on, however
they overlap, is shown only rows that some round computed from what the venues replied, and of every
time there was a row for at its first request it is shown a row.
-/

namespace Pricestream

open Library Python

/-! ### Views of a log -/

section Views

variable {α β κ σ : Type} {view : View α β κ} {see : σ → Option α} {log : List σ}

theorem View.rows_of_list [LE κ] {arrangement : view.Sorts} {number : ℕ} {counted fetched : List α}
    {page : Page β} (h : view.list arrangement number counted fetched = .ok (.data page)) :
    ∃ rows, paginate pageSize number (counted.filter view.keep).length
        (arrangement.arrange (fetched.filter view.keep)) = some rows ∧
      page.hasNext = rows.hasNext ∧ rows.results.mapM view.render = .ok page.results := by
  rw [View.list] at h
  split at h
  · cases h
  · rename_i rows hrows
    obtain ⟨results, hresults, h⟩ := bind_eq_ok.mp h
    cases h
    exact ⟨rows, hrows, rfl, hresults⟩

/-- A client that follows the pages of a view while a log goes on: each request counts after some of its
steps, and reads after some more. -/
structure Reads (view : View α β κ) (see : σ → Option α) (Answers : ℕ → List α → List α → Page β → Prop)
    (log : List σ) (counted fetched : ℕ → ℕ) (pages : ℕ → Page β) (last : ℕ) : Prop where
  answer : ∀ k ≤ last,
    Answers (k + 1) (rowsOf see log (counted k)) (rowsOf see log (fetched k)) (pages k)
  next : ∀ k < last, (pages k).hasNext = true
  stop : (pages last).hasNext = false
  later : ∀ k ≤ last, counted k ≤ fetched k
  later_next : ∀ k < last, fetched k ≤ counted (k + 1)
  /-- No row of the view is written between the two queries of the last request. -/
  still : ∀ row ∈ ((log.take (fetched last)).drop (counted last)).filterMap see, view.keep row = false

/-- The pages show rows of the view, and for every row there was at the first request one that the order
does not tell from it. -/
structure Shows (view : View α β κ) (see : σ → Option α) (log : List σ) (counted fetched : ℕ → ℕ)
    (pages : ℕ → Page β) (last : ℕ) : Prop where
  sound : ∀ k ≤ last, ∀ data ∈ (pages k).results, ∃ row ∈ rowsOf see log (fetched k),
    view.keep row = true ∧ view.render row = .ok data
  complete : ∀ row ∈ rowsOf see log (counted 0), view.keep row = true →
    ∃ k ≤ last, ∃ data ∈ (pages k).results, ∃ row' ∈ rowsOf see log (fetched k),
      view.keep row' = true ∧ view.score row' = view.score row ∧ view.render row' = .ok data

variable {Answers : ℕ → List α → List α → Page β → Prop} {counted fetched : ℕ → ℕ} {pages : ℕ → Page β}
  {last : ℕ}

/-- **Following the pages of a log.** -/
theorem Reads.shows [LinearOrder κ] (h : Reads view see Answers log counted fetched pages last)
    (hanswer : ∀ number rows rows' page, Answers number rows rows' page →
      ∃ arrangement : view.Sorts, view.list arrangement number rows rows' = .ok (.data page)) :
    Shows view see log counted fetched pages last := by
  have hpages : ∀ k, ∃ rows : Page α, k ≤ last →
      (∃ s : view.Sorts, paginate pageSize (k + 1)
        ((rowsOf see log (counted k)).filter view.keep).length
        (s.arrange ((rowsOf see log (fetched k)).filter view.keep)) = some rows) ∧
      (pages k).hasNext = rows.hasNext ∧ rows.results.mapM view.render = .ok (pages k).results := by
    intro k
    by_cases hk : k ≤ last
    · obtain ⟨s, hs⟩ := hanswer _ _ _ _ (h.answer k hk)
      obtain ⟨rows, hrows, hnext, hshown⟩ := View.rows_of_list hs
      exact ⟨rows, fun _ => ⟨⟨s, hrows⟩, hnext, hshown⟩⟩
    · exact ⟨⟨0, false, false, []⟩, fun hk' => absurd hk' hk⟩
  choose rows hrows using hpages
  have hkept : ∀ k ≤ last, ∀ row ∈ (rows k).results,
      row ∈ rowsOf see log (fetched k) ∧ view.keep row = true := by
    intro k hk row hrow
    obtain ⟨⟨s, hs⟩, _⟩ := hrows k hk
    exact List.mem_filter.mp (s.mem_arrange.mp (subset_of_paginate hs hrow))
  have hread : ReadThrough pageSize view.score
      (fun k => (rowsOf see log (counted k)).filter view.keep)
      (fun k => (rowsOf see log (fetched k)).filter view.keep) rows last := by
    constructor
    case answer => exact fun k hk => (hrows k hk).1
    case next => exact fun k hk => (hrows k hk.le).2.1 ▸ h.next k hk
    case stop => exact (hrows last le_rfl).2.1 ▸ h.stop
    case grows => exact fun k hk => scores_rowsOf_subperm (h.later k hk) view.score
    case grows_next => exact fun k hk => scores_rowsOf_subperm (h.later_next k hk) view.score
    case still => exact length_rowsOf_le h.still
  constructor
  case sound =>
    intro k hk data hdata
    obtain ⟨row, hrow, hrender⟩ := (mem_of_mapM (hrows k hk).2.2).1 data hdata
    exact ⟨row, (hkept k hk row hrow).1, (hkept k hk row hrow).2, hrender⟩
  case complete =>
    intro row hrow hkeep
    obtain ⟨k, hk, row', hrow', hscore⟩ := hread.exists_seen (by decide)
      (List.mem_map_of_mem (List.mem_filter.mpr ⟨hrow, hkeep⟩))
    obtain ⟨data, hdata, hrender⟩ := (mem_of_mapM (hrows k hk).2.2).2 row' hrow'
    exact ⟨k, hk, data, hdata, row', (hkept k hk row' hrow').1, (hkept k hk row' hrow').2, hscore, hrender⟩

theorem reads_twice {m n m' n' : ℕ} {page page' : Page β}
    (hfirst : Answers 1 (rowsOf see log m) (rowsOf see log n) page) (hnext : page.hasNext = true)
    (hsecond : Answers 2 (rowsOf see log m') (rowsOf see log n') page') (hstop : page'.hasNext = false)
    (horder : [m, n, m', n'].Pairwise (· ≤ ·))
    (hstill : ∀ row ∈ ((log.take n').drop m').filterMap see, view.keep row = false) :
    Reads view see Answers log (atFirst m m') (atFirst n n') (atFirst page page') 1 := by
  simp only [List.pairwise_cons, List.mem_cons, List.not_mem_nil, or_false, forall_eq_or_imp,
    forall_eq] at horder
  obtain ⟨⟨hmn, _⟩, ⟨hnm', _⟩, hmn', _⟩ := horder
  constructor
  case answer =>
    intro k hk
    obtain rfl | rfl : k = 0 ∨ k = 1 := by omega
    · exact hfirst
    · exact hsecond
  case next =>
    intro k hk
    obtain rfl := Nat.lt_one_iff.mp hk
    exact hnext
  case stop => exact hstop
  case later =>
    intro k hk
    obtain rfl | rfl : k = 0 ∨ k = 1 := by omega
    · exact hmn
    · exact hmn'
  case later_next =>
    intro k hk
    obtain rfl := Nat.lt_one_iff.mp hk
    exact hnm'
  case still => exact hstill

end Views

/-! ### What was written -/

section Written

variable {db : Engine} {Venue : Type} {round : Round Venue} {symbol : Str}

theorem quote_of_pollClient {client : Client Venue} {i : ℕ} {row : QuoteRow db Venue}
    (h : .insert (.quote row) ∈ (pollClient round symbol client i : Task db Venue _).trace) :
    ∃ quote, quoteOf round symbol client i = some quote ∧ storeQuote db symbol quote = .ok row := by
  rcases trace_pollClient db round symbol client i with
    htrace | htrace | ⟨row', quote, _, hquote, hrow, _, htrace⟩
  · simp [htrace] at h
  · simp [htrace] at h
  · obtain rfl : row = row' := by simpa [htrace] using h
    exact ⟨quote, hquote, hrow⟩

variable [LinearOrder Venue] {instruments : InstrumentTable}

theorem quote_of_mem {row : QuoteRow db Venue}
    (h : .insert (.quote row) ∈ ((fetchQuotes round instruments).2 : Task db Venue Counts).trace) :
    ∃ quote ∈ roundQuotes round row.instrument, storeQuote db row.instrument quote = .ok row := by
  obtain ⟨_, _, instrument, _, counts, _, _, hturn⟩ := mem_fetchQuotes.mp h
  rcases mem_fetchInstrument.mp hturn with hpoll | ⟨_, c, _, hpublish | ⟨_, arb, _, hrecord⟩⟩
  · obtain ⟨front, ⟨client, i⟩, back, acc, hclients, _, hw⟩ := Traced.mem_trace_loop.mp hpoll
    rcases Traced.mem_trace_bind.mp hw with hw | ⟨_, _, hw⟩
    · obtain ⟨quote, hquote, hstore⟩ := quote_of_pollClient hw
      rw [(labels_of_storeQuote hstore).1]
      refine ⟨quote, List.mem_filterMap.mpr ⟨(client, i), ?_, hquote⟩, hstore⟩
      exact hclients ▸ List.mem_append_right _ List.mem_cons_self
    · exact absurd hw List.not_mem_nil
  · obtain ⟨_, _, heq⟩ := mem_publishConsolidated.mp hpublish
    simp at heq
  · obtain ⟨_, _, heq⟩ := mem_recordArbitrage.mp hrecord
    simp at heq

end Written

/-! ### What is shown of a row -/

section Shown

variable {db : Engine}

/-- The default context renders a quote as exact arithmetic does. -/
theorem serializeQuote_default (row : QuoteRow db Source) :
    serializeQuote .default row = .ok ⟨row.instrument, row.source, row.bid.value, row.ask.value,
      priceField.round ((row.bid.value + row.ask.value) / 2), row.timestamp⟩ := by
  have hmid : row.mid .default = row.mid .exact :=
    half_of_exact (Or.inr rfl) (holds_price row.bid) (holds_price row.ask)
  obtain ⟨mid, hrender, rfl, _⟩ := serializeQuote_eq row
  rw [← hrender, serializeQuote, serializeQuote, hmid]

theorem toRepresentation_bps (cell : (bpsColumn db).Cell) :
    toRepresentation bpsField cell.value = .ok cell.value := by
  have hround : bpsField.round cell.value = cell.value := by
    obtain ⟨k, hk⟩ := db.bps.round_eq_self_iff.mp cell.rounded
    exact bpsField.rounding.round_eq_self_iff.mpr ⟨k, hk⟩
  have hfits : bpsField.Fits cell.value := by
    rw [NumericColumn.Fits, hround]
    exact cell.inRange
  rw [toRepresentation_of_fits hfits, hround]

theorem serializeArbitrageOpportunity_eq (row : ArbitrageOpportunity db Source) :
    serializeArbitrageOpportunity row = .ok ⟨row.instrument, row.buyVenue, row.buyPrice.value,
      row.sellVenue, row.sellPrice.value, row.spread.value, row.spreadBps.value, row.timestamp⟩ := by
  simp only [serializeArbitrageOpportunity, toRepresentation_price, toRepresentation_bps, bind, Except.bind]
  rfl

variable {ι : Type}

/-- A quote that some round got from a venue, as its columns hold it. -/
structure QuoteShown (db : Engine) (rounds : ι → Round Source) (data : QuoteData Source) : Prop where
  quoted : ∃ i, ∃ quote ∈ roundQuotes (rounds i) data.instrument,
    data.source = quote.source ∧ data.bid = (priceColumn db).round quote.bid ∧
      data.ask = (priceColumn db).round quote.ask ∧ data.timestamp = quote.timestamp
  mid : data.mid = priceField.round ((data.bid + data.ask) / 2)

/-- An opportunity that some round found in the quotes it got, as its columns hold it. -/
structure SignalShown (db : Engine) (rounds : ι → Round Source) (data : ArbitrageOpportunityData) :
    Prop where
  detected : ∃ i arb, roundArbitrage (rounds i) data.instrument = some arb ∧
    data.buyVenue = arb.buyVenue ∧ data.buyPrice = (priceColumn db).round arb.buyPrice ∧
      data.sellVenue = arb.sellVenue ∧ data.sellPrice = (priceColumn db).round arb.sellPrice ∧
      data.spread = (priceColumn db).round arb.spread ∧ quantizeBps arb.spreadBps = .ok data.spreadBps ∧
      data.timestamp = (rounds i).clock.signalled data.instrument

variable {rounds : ι → Round Source} {i : ι}

theorem round_quantizeBps {x bps : ℚ} (h : quantizeBps x = .ok bps) : (bpsColumn db).round bps = bps := by
  rw [quantizeBps] at h
  split_ifs at h
  rw [← Except.ok.inj h]
  exact db.bps.fixes _

theorem quoteShown_of_render {row : QuoteRow db Source} {quote : Quote Source} {data : QuoteData Source}
    (hquote : quote ∈ roundQuotes (rounds i) row.instrument)
    (hstore : storeQuote db row.instrument quote = .ok row)
    (hrender : serializeQuote .default row = .ok data) : QuoteShown db rounds data := by
  rw [serializeQuote_default] at hrender
  obtain rfl := Except.ok.inj hrender
  obtain ⟨bid, hbid, hstore⟩ := bind_eq_ok.mp hstore
  obtain ⟨ask, hask, hstore⟩ := bind_eq_ok.mp hstore
  have hrow := Except.ok.inj hstore
  refine ⟨⟨i, quote, hquote, ?_, ?_, ?_, ?_⟩, rfl⟩ <;> rw [← hrow]
  · exact writeDecimal_value hbid
  · exact writeDecimal_value hask

theorem signalShown_of_render {row : ArbitrageOpportunity db Source} {arb : Arbitrage Source}
    {data : ArbitrageOpportunityData} (harb : roundArbitrage (rounds i) row.instrument = some arb)
    (hstore : storeArbitrage db (rounds i) row.instrument arb = .ok row)
    (hrender : serializeArbitrageOpportunity row = .ok data) : SignalShown db rounds data := by
  rw [serializeArbitrageOpportunity_eq] at hrender
  obtain rfl := Except.ok.inj hrender
  obtain ⟨bps, hbps, hstore⟩ := bind_eq_ok.mp hstore
  obtain ⟨buy, hbuy, hstore⟩ := bind_eq_ok.mp hstore
  obtain ⟨sell, hsell, hstore⟩ := bind_eq_ok.mp hstore
  obtain ⟨spread, hspread, hstore⟩ := bind_eq_ok.mp hstore
  obtain ⟨cell, hcell, hstore⟩ := bind_eq_ok.mp hstore
  have hrow := Except.ok.inj hstore
  have hcellValue : cell.value = bps := by
    rw [writeDecimal_value hcell]
    exact round_quantizeBps hbps
  refine ⟨⟨i, arb, harb, ?_, ?_, ?_, ?_, ?_, ?_, ?_⟩⟩ <;> rw [← hrow]
  · exact writeDecimal_value hbuy
  · exact writeDecimal_value hsell
  · exact writeDecimal_value hspread
  · rw [hbps, hcellValue]

end Shown

/-! ### The list views -/

section Lists

variable {db : Engine} {number : ℕ}

theorem eq_of_mapM_textParam {text found : Option Str} (h : text.mapM textParam = .ok found) :
    found = text := by
  cases text with
  | none => exact (Except.ok.inj h).symm
  | some symbol => exact mapM_textParam_eq_ok h

/-- The quotes a request asks for. -/
def askedQuotes (db : Engine) (order : QuoteOrder) (symbol source : Option Str) :
    View (QuoteRow db Source) (QuoteData Source) ℤ :=
  quoteView db .default order (queryParam symbol) ((queryParam source).map Source.ofValue).join

/-- A request for quotes may be answered with this page. -/
def AnswersQuotes (db : Engine) (order : QuoteOrder) (symbol source : Option Str) (number : ℕ)
    (counted fetched : List (QuoteRow db Source)) (page : Page (QuoteData Source)) : Prop :=
  ∃ arrangement,
    listQuotes .default order symbol source arrangement number counted fetched = .ok (.data page)

theorem list_of_answersQuotes {order : QuoteOrder} {symbol source : Option Str}
    {counted fetched : List (QuoteRow db Source)} {page : Page (QuoteData Source)}
    (h : AnswersQuotes db order symbol source number counted fetched page) :
    ∃ arrangement : (askedQuotes db order symbol source).Sorts,
      (askedQuotes db order symbol source).list arrangement number counted fetched = .ok (.data page) := by
  obtain ⟨arrangement, h⟩ := h
  refine ⟨arrangement, ?_⟩
  rw [listQuotes] at h
  split at h
  · cases h
  · obtain ⟨found, hfound, h⟩ := bind_eq_ok.mp h
    obtain rfl := eq_of_mapM_textParam hfound
    exact h

/-- The opportunities a request asks for. -/
def askedSignals (db : Engine) (keys : List SignalKey) (symbol buyVenue sellVenue : Option Str) :
    View (ArbitrageOpportunity db Source) ArbitrageOpportunityData (List ℚ) :=
  signalView db keys (queryParam symbol) (charFilter buyVenue).join (charFilter sellVenue).join

/-- A request for opportunities may be answered with this page. -/
def AnswersSignals (db : Engine) (keys : List SignalKey) (symbol buyVenue sellVenue : Option Str)
    (number : ℕ) (counted fetched : List (ArbitrageOpportunity db Source))
    (page : Page ArbitrageOpportunityData) : Prop :=
  ∃ arrangement,
    listSignals keys symbol buyVenue sellVenue arrangement number counted fetched = .ok (.data page)

theorem list_of_answersSignals {keys : List SignalKey} {symbol buyVenue sellVenue : Option Str}
    {counted fetched : List (ArbitrageOpportunity db Source)} {page : Page ArbitrageOpportunityData}
    (h : AnswersSignals db keys symbol buyVenue sellVenue number counted fetched page) :
    ∃ arrangement : (askedSignals db keys symbol buyVenue sellVenue).Sorts,
      (askedSignals db keys symbol buyVenue sellVenue).list arrangement number counted fetched =
        .ok (.data page) := by
  obtain ⟨arrangement, h⟩ := h
  refine ⟨arrangement, ?_⟩
  rw [listSignals] at h
  split at h
  · rename_i buy sell hbuy hsell
    obtain ⟨found, hfound, h⟩ := bind_eq_ok.mp h
    obtain rfl := (eq_of_mapM_textParam hfound).symm
    obtain ⟨found, hfound, h⟩ := bind_eq_ok.mp h
    obtain rfl := (eq_of_mapM_textParam hfound).symm
    obtain ⟨found, hfound, h⟩ := bind_eq_ok.mp h
    obtain rfl := (eq_of_mapM_textParam hfound).symm
    obtain rfl : (charFilter buyVenue).join = buy := by rw [hbuy, Option.join_some]
    obtain rfl : (charFilter sellVenue).join = sell := by rw [hsell, Option.join_some]
    exact h
  · cases h

end Lists

section Rounds

variable {db : Engine} {ι : Type} [DecidableEq ι] {rounds : ι → Round Source}
  {tables : ι → InstrumentTable} {history : List (ι × Effect db Source)}

/-- The rows the two list views read. -/
def quoteStep? (step : ι × Effect db Source) : Option (QuoteRow db Source) := step.2.quoteRow?

def signalStep? (step : ι × Effect db Source) : Option (ArbitrageOpportunity db Source) :=
  step.2.arbitrageRow?

/-- **The list views while rounds write.** -/
theorem lists_show_rounds (hrounds : Interleaves (programs db rounds tables) history) :
    (∀ order symbol source counted fetched pages last,
      Reads (askedQuotes db order symbol source) quoteStep? (AnswersQuotes db order symbol source) history
        counted fetched pages last →
      Shows (askedQuotes db order symbol source) quoteStep? history counted fetched pages last ∧
        ∀ k ≤ last, ∀ data ∈ (pages k).results, QuoteShown db rounds data) ∧
    ∀ keys symbol buyVenue sellVenue counted fetched pages last,
      Reads (askedSignals db keys symbol buyVenue sellVenue) signalStep?
        (AnswersSignals db keys symbol buyVenue sellVenue) history counted fetched pages last →
      Shows (askedSignals db keys symbol buyVenue sellVenue) signalStep? history counted fetched pages
          last ∧
        ∀ k ≤ last, ∀ data ∈ (pages k).results, SignalShown db rounds data := by
  constructor
  · intro order symbol source counted fetched pages last h
    have hshows := h.shows fun _ _ _ _ => list_of_answersQuotes
    refine ⟨hshows, fun k hk data hdata => ?_⟩
    obtain ⟨row, hrow, _, hrender⟩ := hshows.sound k hk data hdata
    obtain ⟨⟨i, w⟩, hstep, hw⟩ := mem_rowsOf hrow
    obtain rfl := Effect.quoteRow?_eq_some.mp hw
    obtain ⟨quote, hquote, hstore⟩ := quote_of_mem (hrounds.mem_iff.mp hstep)
    exact quoteShown_of_render hquote hstore hrender
  · intro keys symbol buyVenue sellVenue counted fetched pages last h
    have hshows := h.shows fun _ _ _ _ => list_of_answersSignals
    refine ⟨hshows, fun k hk data hdata => ?_⟩
    obtain ⟨row, hrow, _, hrender⟩ := hshows.sound k hk data hdata
    obtain ⟨⟨i, w⟩, hstep, hw⟩ := mem_rowsOf hrow
    obtain rfl := Effect.arbitrageRow?_eq_some.mp hw
    obtain ⟨_, _, arb, harb, hstore⟩ := arbitrage_mem_iff.mp (hrounds.mem_iff.mp hstep)
    exact signalShown_of_render harb hstore hrender

end Rounds

/-! ### Two pages of each -/

/-- In every second one venue bids more than the other one asks. -/
def wideRounds (i : Fin 52) : Round Source where
  ctx := .default
  upper s := s
  collate a b := decide (a ≤ b)
  configured := [Str.ofString "BTC-USD"]
  maxAge := 30
  clients := [⟨.binance, fun _ => some (.finite 100, .finite 101)⟩,
    ⟨.kraken, fun _ => some (.finite 102, .finite 103)⟩]
  clock := ⟨fun _ _ => 1000000 * i, fun _ _ => 1000000 * i, fun _ => 1000000 * i,
    fun _ => 1000000 * i⟩
  hasLayer := true
  side _ := none

def widePrograms : Fin 52 → List (Effect .postgres Source) :=
  programs .postgres wideRounds fun _ => KeyedTable.empty

/-- Each of these rounds takes fourteen steps. -/
def wideHistory : List (Fin 52 × Effect .postgres Source) :=
  (List.finRange 52).flatMap fun i => (widePrograms i).map (i, ·)

theorem interleaves_wideHistory : Interleaves widePrograms wideHistory :=
  interleaves_flatMap (List.nodup_finRange 52) List.mem_finRange

/-- The quotes of one venue, latest first. -/
abbrev binanceQuotes : View (QuoteRow .postgres Source) (QuoteData Source) ℤ :=
  askedQuotes .postgres .minusTimestamp none (some (Str.ofString "binance"))

/-- The opportunities to buy at that venue, widest first and then in the order of time. -/
abbrev binanceSignals : View (ArbitrageOpportunity .postgres Source) ArbitrageOpportunityData (List ℚ) :=
  askedSignals .postgres [.minusSpreadBps, .timestamp] none (some (Str.ofString " binance ")) none

/-- The last round writes its first quote within the first request. -/
theorem reads_binanceQuotes : ∃ pages,
    Reads binanceQuotes quoteStep?
      (AnswersQuotes .postgres .minusTimestamp none (some (Str.ofString "binance"))) wideHistory
      (atFirst 714 725) (atFirst 720 728) pages 1 ∧
    ∃ data ∈ (pages 1).results, data.bid = 100 := by
  -- Both pages in one evaluation of the history.
  have hpages : (pageOf (listQuotes .default .minusTimestamp none (some (Str.ofString "binance"))
        (.stable _ (fun _ _ _ => le_trans) fun _ _ => le_total _ _) 1
        (rowsOf quoteStep? wideHistory 714) (rowsOf quoteStep? wideHistory 720))).any
          Page.hasNext = true ∧
      (pageOf (listQuotes .default .minusTimestamp none (some (Str.ofString "binance"))
        (.stable _ (fun _ _ _ => le_trans) fun _ _ => le_total _ _) 2
        (rowsOf quoteStep? wideHistory 725) (rowsOf quoteStep? wideHistory 728))).any
          (fun page => !page.hasNext && page.results.any fun data => data.bid = 100) = true ∧
      ∀ row ∈ ((wideHistory.take 728).drop 725).filterMap quoteStep?, binanceQuotes.keep row = false := by
    decide +kernel
  obtain ⟨hfirst, hsecond, hstill⟩ := hpages
  obtain ⟨page, hanswer, hnext⟩ := exists_page_of_any hfirst
  obtain ⟨page', hanswer', hlast⟩ := exists_page_of_any hsecond
  obtain ⟨hstop, hany⟩ := Bool.and_eq_true_iff.mp hlast
  obtain ⟨data, hdata, hbid⟩ := List.any_eq_true.mp hany
  exact ⟨_, reads_twice ⟨_, hanswer⟩ hnext ⟨_, hanswer'⟩ (by simpa using hstop) (by decide) hstill,
    data, hdata, of_decide_eq_true hbid⟩

/-- The last round writes its opportunity between the two requests. -/
theorem reads_binanceSignals : ∃ pages,
    Reads binanceSignals signalStep?
      (AnswersSignals .postgres [.minusSpreadBps, .timestamp] none (some (Str.ofString " binance ")) none)
      wideHistory (atFirst 714 728) (atFirst 720 728) pages 1 ∧
    ∃ data ∈ (pages 1).results, data.spreadBps = 98.5222 := by
  have hpages : (pageOf (listSignals [.minusSpreadBps, .timestamp] none (some (Str.ofString " binance "))
        none (.stable _ (fun _ _ _ => le_trans) fun _ _ => le_total _ _) 1
        (rowsOf signalStep? wideHistory 714) (rowsOf signalStep? wideHistory 720))).any
          Page.hasNext = true ∧
      (pageOf (listSignals [.minusSpreadBps, .timestamp] none (some (Str.ofString " binance "))
        none (.stable _ (fun _ _ _ => le_trans) fun _ _ => le_total _ _) 2
        (rowsOf signalStep? wideHistory 728) (rowsOf signalStep? wideHistory 728))).any
          (fun page => !page.hasNext && page.results.any fun data => data.spreadBps = 98.5222) = true ∧
      ∀ row ∈ ((wideHistory.take 728).drop 728).filterMap signalStep?, binanceSignals.keep row = false := by
    decide +kernel
  obtain ⟨hfirst, hsecond, hstill⟩ := hpages
  obtain ⟨page, hanswer, hnext⟩ := exists_page_of_any hfirst
  obtain ⟨page', hanswer', hlast⟩ := exists_page_of_any hsecond
  obtain ⟨hstop, hany⟩ := Bool.and_eq_true_iff.mp hlast
  obtain ⟨data, hdata, hbps⟩ := List.any_eq_true.mp hany
  exact ⟨_, reads_twice ⟨_, hanswer⟩ hnext ⟨_, hanswer'⟩ (by simpa using hstop) (by decide) hstill,
    data, hdata, of_decide_eq_true hbps⟩

theorem lists_show_wideRounds :
    (∃ pages, Reads binanceQuotes quoteStep?
        (AnswersQuotes .postgres .minusTimestamp none (some (Str.ofString "binance"))) wideHistory
        (atFirst 714 725) (atFirst 720 728) pages 1 ∧
      Shows binanceQuotes quoteStep? wideHistory (atFirst 714 725) (atFirst 720 728) pages 1 ∧
      ∃ data ∈ (pages 1).results, data.bid = 100 ∧ QuoteShown .postgres wideRounds data) ∧
    ∃ pages, Reads binanceSignals signalStep?
        (AnswersSignals .postgres [.minusSpreadBps, .timestamp] none (some (Str.ofString " binance ")) none)
        wideHistory (atFirst 714 728) (atFirst 720 728) pages 1 ∧
      Shows binanceSignals signalStep? wideHistory (atFirst 714 728) (atFirst 720 728) pages 1 ∧
      ∃ data ∈ (pages 1).results, data.spreadBps = 98.5222 ∧ SignalShown .postgres wideRounds data := by
  obtain ⟨hquotes, hsignals⟩ := lists_show_rounds interleaves_wideHistory
  constructor
  · obtain ⟨pages, hreads, data, hdata, hbid⟩ := reads_binanceQuotes
    obtain ⟨hshows, hshown⟩ := hquotes _ _ _ _ _ _ _ hreads
    exact ⟨pages, hreads, hshows, data, hdata, hbid, hshown 1 le_rfl data hdata⟩
  · obtain ⟨pages, hreads, data, hdata, hbps⟩ := reads_binanceSignals
    obtain ⟨hshows, hshown⟩ := hsignals _ _ _ _ _ _ _ _ hreads
    exact ⟨pages, hreads, hshows, data, hdata, hbps, hshown 1 le_rfl data hdata⟩

end Pricestream
