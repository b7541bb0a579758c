import Pricestream.Proof.Ohlc.Refinement
import Pricestream.Proof.Consumer.Hazards
import Pricestream.Proof.Tasks.Partial
import Pricestream.Proof.Wire.Events
import Pricestream.Python.DateRange

/-!
# Quotes the aggregator rejects

`consolidate` and `detect_arbitrage` leave out a quote whose bid or ask is not positive. The producer
publishes it all the same, before either has seen it, and the consumer does not look at the signs. So
such a quote makes its way into the bars unless its instrument is unknown to the consumer, its mid does
not fit, or it is made in the last microseconds a timestamp can show.
-/

namespace Pricestream

open Library Python
open DateTime (Instant)

variable {db : Engine} {Venue : Type}

/-! ### From the round to the consumer -/

/-- The quotes that were published without an error, by symbol. -/
def onTopic : List (Effect db Venue) → List (Str × Quote Venue)
  | .publish symbol quote :: .inc .kafkaPublished :: rest => (symbol, quote) :: onTopic rest
  | _ :: rest => onTopic rest
  | [] => []

/-- A published quote as it is handed to `handle_event`. -/
structure Delivery (name : Venue → Str) (parseFloat : Str → Python.Float) where
  symbol : Str
  quote : Quote Venue
  object : QuoteObject
  record : Record
  event : Event
  holds : object.toQuote = ⟨name quote.source, quote.bid, quote.ask, quote.timestamp⟩
  published : publishQuote symbol object = .ok record
  decoded : decodeValue parseFloat record.value = some event.payload

/-- The consumer finds the instrument. -/
def Known (instruments : InstrumentTable) (symbol : Str) : Prop :=
  IsText symbol ∧ (instruments.get? symbol).isSome

/-- The consumer can put the quote into a bar. -/
structure Usable (db : Engine) (ctx : Context) (q : Quote Venue) : Prop where
  fits : (priceColumn db).Fits (q.mid ctx)
  dated : q.timestamp < bucketsEnd

instance (ctx : Context) : DecidablePred (Usable db ctx : Quote Venue → Prop) := fun q =>
  decidable_of_iff ((priceColumn db).Fits (q.mid ctx) ∧ q.timestamp < bucketsEnd)
    ⟨fun h => ⟨h.1, h.2⟩, fun h => ⟨h.fits, h.dated⟩⟩

variable {name : Venue → Str} {parseFloat : Str → Python.Float}

def eventsOf (deliveries : List (Delivery name parseFloat)) : List Event := deliveries.map Delivery.event

/-- What the deliveries make of the bars when no quote is used that is not positive. -/
structure BarsPositive (db : Engine) (env : Env) (deliveries : List (Delivery name parseFloat)) :
    Prop where
  /-- A quote that is not positive leaves the table as it is. -/
  skipped : ∀ before d after, deliveries = before ++ d :: after → isPositive d.quote = false →
    barsAfter db env (eventsOf (before ++ [d])) = barsAfter db env (eventsOf before)
  /-- A bar is built from positive quotes only. -/
  positive : ∀ before after, deliveries = before ++ after →
    ∀ bar ∈ (barsAfter db env (eventsOf before)).rows, ∀ d ∈ before, ∀ t,
      tickOf db env d.event = some t → t.key bar.key.interval = bar.key → isPositive d.quote = true
  /-- Its low is positive, unless a positive mid was rounded to zero. -/
  low : ∀ before after, deliveries = before ++ after →
    ∀ bar ∈ (barsAfter db env (eventsOf before)).rows, bar.low.value ≤ 0 →
      ∃ d ∈ before, isPositive d.quote = true ∧ 0 < d.quote.mid .exact ∧
        (priceColumn db).round (d.quote.mid env.ctx) = 0 ∧ bar.low.value = 0

/-! ### The tick of a delivery -/

section Ticks

variable {env : Env} {d : Delivery name parseFloat}

theorem getInstrument_eq_some_iff {symbol : Str} :
    (∃ instrument, getInstrument env (.str symbol) = .ok (some instrument)) ↔
      Known env.instruments symbol := by
  by_cases htext : IsText symbol
  · have hget : getInstrument env (.str symbol) = .ok (env.instruments.get? symbol) :=
      getInstrument_of_isText htext
    rw [hget, Known, and_iff_right htext, Option.isSome_iff_exists]
    simp only [Except.ok.injEq]
  · obtain ⟨e, he⟩ : ∃ e, getInstrument env (.str symbol) = .error e :=
      getInstrument_of_not_isText htext
    rw [he]
    refine iff_of_false (fun h => ?_) fun h => htext h.1
    obtain ⟨_, h⟩ := h
    cases h

theorem Delivery.payload_eq (d : Delivery name parseFloat) :
    d.event.payload = .obj (decodedFields d.symbol d.object) :=
  Option.some.inj (d.decoded.symm.trans (decodeValue_published parseFloat d.published))

theorem Delivery.mid_eq (d : Delivery name parseFloat) (ctx : Context) :
    d.object.toQuote.mid ctx = d.quote.mid ctx := by
  rw [d.holds]
  rfl

theorem readEvent_of_unknown {symbol : Str} (h : ¬ Known env.instruments symbol) (now : Instant)
    (quote : QuoteObject) (reading : Reading) :
    readEvent env now (.obj (decodedFields symbol quote)) ≠ .ok (some reading) := by
  intro hread
  obtain ⟨fields, instrument, _, _, _, _, _, hobj, _, hinst, _⟩ := readEvent_eq_some_iff.mp hread
  obtain rfl := Json.obj.inj hobj
  exact h (getInstrument_eq_some_iff.mp ⟨instrument, hinst⟩)

/-- The consumer reads the time of the quote, on a clock that shows UTC. -/
theorem Delivery.timestamp_eq (d : Delivery name parseFloat) :
    d.object.timestamp.toDateTime = .ofInstant d.quote.timestamp := by
  have htimestamp := congrArg Quote.timestamp d.holds
  have hwall : d.object.timestamp.toDateTime.wall = d.quote.timestamp := by
    simpa [QuoteObject.toQuote, DateTime.instant, UtcDateTime.toDateTime] using htimestamp
  rw [DateTime.ofInstant, ← hwall]
  rfl

theorem Delivery.hasBuckets_iff (d : Delivery name parseFloat) :
    HasBuckets TimeDelta.wholeSeconds d.object.timestamp.toDateTime ↔ d.quote.timestamp < bucketsEnd := by
  have hrange := DateTime.fromisoformat_inRange d.object.timestamp.fromisoformat_isoformat
  rw [Pricestream.hasBuckets_iff hrange, d.timestamp_eq]
  rfl

/-- **Which deliveries are ticks.** -/
theorem exists_tick_iff (hsymbol : d.symbol ≠ []) :
    (∃ t, tickOf db env d.event = some t) ↔
      Known env.instruments d.symbol ∧ Usable db env.ctx d.quote := by
  by_cases hknown : Known env.instruments d.symbol
  · obtain ⟨instrument, hfound⟩ := getInstrument_eq_some_iff.mpr hknown
    have hread := readEvent_decoded hfound hsymbol d.event.now d.object
    rw [← d.payload_eq, QuoteObject.reading, d.mid_eq] at hread
    rw [and_iff_right hknown, tickOf, hread]
    simp only [Reading.tick?]
    split_ifs with hvalid
    · exact iff_of_true ⟨_, rfl⟩ ⟨hvalid.1, d.hasBuckets_iff.mp hvalid.2⟩
    · refine iff_of_false (fun h => ?_) fun h => hvalid ⟨h.fits, d.hasBuckets_iff.mpr h.dated⟩
      obtain ⟨_, h⟩ := h
      cases h
  · refine iff_of_false (fun h => ?_) fun h => hknown h.1
    obtain ⟨t, ht⟩ := h
    rw [tickOf, d.payload_eq] at ht
    split at ht
    · rename_i reading hread
      exact readEvent_of_unknown hknown _ _ _ hread
    · cases ht
    · cases ht

theorem mid_of_tick (hsymbol : d.symbol ≠ []) {t : Tick db} (h : tickOf db env d.event = some t) :
    t.mid = d.quote.mid env.ctx := by
  obtain ⟨instrument, hfound⟩ := getInstrument_eq_some_iff.mpr ((exists_tick_iff hsymbol).mp ⟨t, h⟩).1
  have hread := readEvent_decoded hfound hsymbol d.event.now d.object
  rw [← d.payload_eq, QuoteObject.reading, d.mid_eq] at hread
  simp only [tickOf, hread] at h
  exact (Decimal.finite.inj (Reading.mk.inj (Reading.tick?_eq_some h)).2.2).symm

end Ticks

/-! ### The table -/

theorem tickCount_barsAfter (env : Env) (events : List Event) (key : BarKey) :
    ((barsAfter db env events).get? key).elim 0 OHLCBar.tickCount =
      (ticksAt (ticks db env events) key).length := by
  cases hget : (barsAfter db env events).get? key with
  | none =>
      have hnone : ¬ ((barsAfter db env events).get? key).isSome := by simp [hget]
      rw [isSome_get?_barsAfter_iff, not_not] at hnone
      rw [hnone]
      rfl
  | some bar =>
      obtain ⟨s, hs, hshows⟩ := get?_barsAfter_shows hget
      have hcount := hs.count
      rw [midsAt, List.length_map] at hcount
      exact hshows.tickCount.trans hcount.symm

theorem barsAfter_concat_ne {env : Env} {events : List Event} {e : Event} {t : Tick db}
    (h : tickOf db env e = some t) : barsAfter db env (events ++ [e]) ≠ barsAfter db env events := by
  intro heq
  have hticks : ticks db env (events ++ [e]) = ticks db env events ++ [t] := by
    rw [ticks, List.filterMap_append, List.filterMap_cons, h]
    rfl
  have hone : ticksAt [t] (t.key .m1) = [t] := by
    simp [ticksAt, group, Tick.key, barKey]
  have hcount : ((barsAfter db env (events ++ [e])).get? (t.key .m1)).elim 0 _ = _ :=
    tickCount_barsAfter env (events ++ [e]) (t.key .m1)
  rw [heq, tickCount_barsAfter, hticks, ticksAt, ticksAt, group_append, List.length_append] at hcount
  have hlength : (group (fun t' => t'.key (t.key Interval.m1).interval) [t] (t.key .m1)).length = 1 :=
    congrArg List.length hone
  omega

theorem eventsOf_concat (before : List (Delivery name parseFloat)) (d : Delivery name parseFloat) :
    eventsOf (before ++ [d]) = eventsOf before ++ [d.event] := List.map_append

theorem delivery_of_tick {env : Env} {deliveries : List (Delivery name parseFloat)} {key : BarKey}
    {t : Tick db} (h : t ∈ ticksAt (ticks db env (eventsOf deliveries)) key) :
    ∃ d ∈ deliveries, tickOf db env d.event = some t ∧ t.key key.interval = key := by
  obtain ⟨hmem, hkey⟩ := mem_group.mp h
  obtain ⟨e, he, ht⟩ := List.mem_filterMap.mp hmem
  obtain ⟨d, hd, rfl⟩ := List.mem_map.mp he
  exact ⟨d, hd, ht, hkey⟩

theorem mid_pos {q : Quote Venue} (h : isPositive q = true) : 0 < q.mid .exact := by
  obtain ⟨hbid, hask⟩ := isPositive_iff.mp h
  rw [exact_mid]
  linarith

/-- A mid of positive prices may underflow, but it is not negative. -/
theorem mid_nonneg {q : Quote Venue} (h : isPositive q = true) (ctx : Context) : 0 ≤ q.mid ctx := by
  obtain ⟨hbid, hask⟩ := isPositive_iff.mp h
  exact ctx.round_nonneg (div_nonneg (ctx.round_nonneg (by linarith)) (by norm_num))

theorem low_of_positive {env : Env} {deliveries : List (Delivery name parseFloat)}
    (hsymbols : ∀ d ∈ deliveries, d.symbol ≠ []) {bar : OHLCBar db}
    (hbar : bar ∈ (barsAfter db env (eventsOf deliveries)).rows)
    (hpositive : ∀ d ∈ deliveries, ∀ t : Tick db, tickOf db env d.event = some t →
      isPositive d.quote = true) (hlow : bar.low.value ≤ 0) :
    ∃ d ∈ deliveries, isPositive d.quote = true ∧ 0 < d.quote.mid .exact ∧
      (priceColumn db).round (d.quote.mid env.ctx) = 0 ∧ bar.low.value = 0 := by
  obtain ⟨s, hs, hshows⟩ := get?_barsAfter_shows (KeyedTable.get?_of_mem_rows hbar)
  obtain ⟨t, ht, hmid⟩ := List.mem_map.mp hs.low.1
  obtain ⟨d, hd, htick, _⟩ := delivery_of_tick ht
  have hpos := hpositive d hd t htick
  rw [mid_of_tick (hsymbols d hd) htick] at hmid
  have hround : bar.low.value = (priceColumn db).round (d.quote.mid env.ctx) := by
    rw [hshows.low, ← hmid]
  have hzero : (priceColumn db).round (d.quote.mid env.ctx) = 0 := by
    refine le_antisymm (hround ▸ hlow) ?_
    exact (priceColumn db).rounding.round_nonneg (mid_nonneg hpos env.ctx)
  exact ⟨d, hd, hpos, mid_pos hpos, hzero, hround.trans hzero⟩

/-! ### Every sequence of rounds -/

theorem mem_of_mem_onTopic {symbol : Str} {q : Quote Venue} {l : List (Effect db Venue)}
    (h : (symbol, q) ∈ onTopic l) : .publish symbol q ∈ l := by
  induction l using onTopic.induct with
  | case1 symbol' quote rest ih =>
      rcases List.mem_cons.mp h with heq | h
      · obtain ⟨rfl, rfl⟩ := Prod.mk.inj heq
        exact List.mem_cons_self
      · exact List.mem_cons_of_mem _ (List.mem_cons_of_mem _ (ih h))
  | case2 w rest hne ih =>
      rw [onTopic] at h
      · exact List.mem_cons_of_mem _ (ih h)
      · exact hne
  | case3 => exact absurd h List.not_mem_nil

/-- A round publishes under symbols that `parse_symbol` accepts, so none is empty. -/
theorem ne_nil_of_publish [LinearOrder Venue] {round : Round Venue} {instruments : InstrumentTable}
    {symbol : Str} {q : Quote Venue}
    (h : .publish symbol q ∈ ((fetchQuotes round instruments).2 : Task db Venue Counts).trace) :
    symbol ≠ [] := by
  obtain ⟨hlist, front, instrument, back, counts, hrows, _, hturn⟩ := mem_fetchQuotes.mp h
  have hmem : instrument ∈ round.instruments (round.created instruments) := by
    rw [hrows]
    exact List.mem_append_right _ List.mem_cons_self
  have hconfigured : instrument.symbol ∈ round.configured :=
    (exists_mem_instruments_iff.mp ⟨instrument, hmem, rfl⟩).1
  have hsymbol : symbol = instrument.symbol := by
    rcases mem_fetchInstrument.mp hturn with hpoll | ⟨_, c, _, hpublish | ⟨_, arb, _, hrecord⟩⟩
    · cases only_pollClients _ _ hpoll
      rfl
    · obtain ⟨row, _, hw | hw | ⟨_, hw | ⟨_, _, hw⟩⟩⟩ := mem_publishConsolidated.mp hpublish <;> cases hw
    · obtain ⟨row, _, hw | hw⟩ := mem_recordArbitrage.mp hrecord <;> cases hw
  rintro rfl
  exact (hlist _ hconfigured).quote_ne (hsymbol ▸ rfl)

/-- **Which rounds put only positive quotes into the bars.** -/
theorem bars_positive_iff [LinearOrder Venue] {rounds : List (Round Venue × InstrumentTable)}
    {deliveries : List (Delivery name parseFloat)}
    (h : deliveries.map (fun d => (d.symbol, d.quote)) = onTopic (roundsScript db rounds))
    (instruments : InstrumentTable) (str : Json → Str) :
    BarsPositive db ⟨.default, instruments, str⟩ deliveries ↔
      ∀ p ∈ onTopic (roundsScript db rounds), Known instruments p.1 → Usable db .default p.2 →
        isPositive p.2 = true := by
  have hsymbols : ∀ d ∈ deliveries, d.symbol ≠ [] := by
    intro d hd
    have hmem : (d.symbol, d.quote) ∈ onTopic (roundsScript db rounds) := h ▸ List.mem_map_of_mem hd
    obtain ⟨p, _, hpublish⟩ := List.mem_flatMap.mp (mem_of_mem_onTopic hmem)
    exact ne_nil_of_publish hpublish
  rw [← h, List.forall_mem_map]
  constructor
  · intro hbars d hd hknown husable
    obtain ⟨before, after, hsplit⟩ := List.append_of_mem hd
    obtain ⟨t, ht⟩ : ∃ t : Tick db, tickOf db ⟨.default, instruments, str⟩ d.event = some t :=
      (exists_tick_iff (hsymbols d hd)).mpr ⟨hknown, husable⟩
    show isPositive d.quote = true
    cases hpositive : isPositive d.quote with
    | true => rfl
    | false =>
        have hskip := hbars.skipped before d after hsplit hpositive
        rw [eventsOf_concat] at hskip
        exact absurd hskip (barsAfter_concat_ne ht)
  · intro hall
    have hpositive : ∀ d ∈ deliveries, ∀ t : Tick db,
        tickOf db ⟨.default, instruments, str⟩ d.event = some t → isPositive d.quote = true := by
      intro d hd t ht
      obtain ⟨hknown, husable⟩ := (exists_tick_iff (hsymbols d hd)).mp ⟨t, ht⟩
      exact hall d hd hknown husable
    have hfront : ∀ before after, deliveries = before ++ after → ∀ d ∈ before, d ∈ deliveries :=
      fun before after hsplit d hd => hsplit ▸ List.mem_append_left after hd
    constructor
    case skipped =>
      intro before d after hsplit hnot
      have hd : d ∈ deliveries := hsplit ▸ List.mem_append_right before List.mem_cons_self
      have hnone : tickOf db ⟨.default, instruments, str⟩ d.event = none := by
        rw [Option.eq_none_iff_forall_ne_some]
        intro t ht
        rw [hpositive d hd t ht] at hnot
        cases hnot
      rw [eventsOf_concat, barsAfter_concat, hnone]
      rfl
    case positive =>
      intro before after hsplit bar _ d hd t ht _
      exact hpositive d (hfront before after hsplit d hd) t ht
    case low =>
      intro before after hsplit bar hbar
      exact low_of_positive (fun d hd => hsymbols d (hfront before after hsplit d hd)) hbar
        fun d hd => hpositive d (hfront before after hsplit d hd)

/-! ### One venue -/

/-- A round in which the only venue replies with these prices. -/
def oneVenue (bid ask : DecimalTuple) : Round ℕ where
  ctx := .default
  upper := Str.asciiUpper
  collate _ _ := true
  configured := [Str.ofString "BTC-USD"]
  maxAge := 30
  clients := [⟨0, fun _ => some (.finite bid.value, .finite ask.value)⟩]
  clock := ⟨fun _ _ => 1767268830500000, fun _ _ => 1767268830500000, fun _ => 1767268830500000,
    fun _ => 1767268830500000⟩
  hasLayer := false
  side _ := none

def oneObject (bid ask : DecimalTuple) : QuoteObject where
  source := Str.ofString "kraken"
  bid := bid
  ask := ask
  timestamp := tinyQuote.timestamp

theorem exists_delivery (symbol : Str) (venue : ℕ) (bid ask : DecimalTuple)
    (h : (publishQuote symbol (oneObject bid ask)).toOption.isSome) :
    ∃ d : Delivery (fun _ : ℕ => Str.ofString "kraken") (fun _ => .nan),
      (d.symbol, d.quote) = (symbol, ⟨venue, bid.value, ask.value, 1767268830500000⟩) := by
  obtain ⟨record, hrecord⟩ := Option.isSome_iff_exists.mp h
  have hpublish := toOption_eq_some.mp hrecord
  have hts : tinyQuote.timestamp.toDateTime.instant = 1767268830500000 := by decide +kernel
  have hholds : (oneObject bid ask).toQuote =
      ⟨Str.ofString "kraken", bid.value, ask.value, 1767268830500000⟩ := by
    rw [QuoteObject.toQuote, oneObject, hts]
  exact ⟨⟨_, ⟨venue, bid.value, ask.value, 1767268830500000⟩, oneObject bid ask, record, ⟨0, _⟩, hholds,
    hpublish, decodeValue_published _ hpublish⟩, rfl⟩

def zeroPrice : DecimalTuple := ⟨false, 0, 0, by decide⟩

def hundred : DecimalTuple := ⟨false, 100, 0, by decide⟩

/-- A price that its column holds, but whose mid is rounded up out of it. -/
def edgePrice : DecimalTuple := ⟨true, 9999999999999999999999994999999999, -20, by decide⟩

/-- One venue is sound, the second one's message is lost, and the third one's mid does not fit. -/
def mixedRound : Round ℕ :=
  { oneVenue hundred hundred with
    clients := [⟨0, fun _ => some (.finite hundred.value, .finite hundred.value)⟩,
      ⟨1, fun _ => some (.finite zeroPrice.value, .finite zeroPrice.value)⟩,
      ⟨2, fun _ => some (.finite edgePrice.value, .finite edgePrice.value)⟩]
    side call := if call = .publish (Str.ofString "BTC-USD") 1 then some .connectionError else none }

/-- The consumer does not know this instrument. -/
def etherRound : Round ℕ := { oneVenue zeroPrice zeroPrice with configured := [Str.ofString "ETH-USD"] }

def mixedRounds : List (Round ℕ × InstrumentTable) :=
  [(mixedRound, KeyedTable.empty), (etherRound, KeyedTable.empty)]

theorem onTopic_mixedRounds : onTopic (roundsScript .postgres mixedRounds) =
    [(Str.ofString "BTC-USD", ⟨0, hundred.value, hundred.value, 1767268830500000⟩),
      (Str.ofString "BTC-USD", ⟨2, edgePrice.value, edgePrice.value, 1767268830500000⟩),
      (Str.ofString "ETH-USD", ⟨0, zeroPrice.value, zeroPrice.value, 1767268830500000⟩)] := by
  decide +kernel

theorem exists_mixedDeliveries :
    ∃ deliveries : List (Delivery (fun _ : ℕ => Str.ofString "kraken") (fun _ => .nan)),
      deliveries.map (fun d => (d.symbol, d.quote)) = onTopic (roundsScript .postgres mixedRounds) := by
  obtain ⟨sound, hsound⟩ := exists_delivery (Str.ofString "BTC-USD") 0 hundred hundred (by decide +kernel)
  obtain ⟨edge, hedge⟩ :=
    exists_delivery (Str.ofString "BTC-USD") 2 edgePrice edgePrice (by decide +kernel)
  obtain ⟨ether, hether⟩ :=
    exists_delivery (Str.ofString "ETH-USD") 0 zeroPrice zeroPrice (by decide +kernel)
  exact ⟨[sound, edge, ether], by simp [onTopic_mixedRounds, hsound, hedge, hether]⟩

/-- Two of the quotes on the topic are not positive: the mid of one does not fit, and the other one's
instrument is unknown. -/
theorem bars_positive_mixedRounds :
    ∃ deliveries : List (Delivery (fun _ : ℕ => Str.ofString "kraken") (fun _ => .nan)),
      deliveries.map (fun d => (d.symbol, d.quote)) = onTopic (roundsScript .postgres mixedRounds) ∧
      deliveries.map (fun d => isPositive d.quote) = [true, false, false] ∧
      BarsPositive .postgres ⟨.default, btcEnv.instruments, fun _ => []⟩ deliveries := by
  obtain ⟨deliveries, hdelivered⟩ := exists_mixedDeliveries
  refine ⟨deliveries, hdelivered, ?_, (bars_positive_iff hdelivered _ _).mpr fun p hp hknown husable => ?_⟩
  · have hsigns := congrArg (List.map fun p : Str × Quote ℕ => isPositive p.2) hdelivered
    rw [List.map_map, onTopic_mixedRounds] at hsigns
    exact hsigns.trans (by decide +kernel)
  · have hall : ∀ p ∈ onTopic (roundsScript .postgres mixedRounds),
        (btcEnv.instruments.get? p.1).isSome → Usable .postgres .default p.2 →
          isPositive p.2 = true := by
      rw [onTopic_mixedRounds]
      decide +kernel
    exact hall p hp hknown.2 husable

/-- A halted market that answers 0 and 0 makes a bar. -/
theorem halted_market_makes_bar :
    ∃ deliveries : List (Delivery (fun _ : ℕ => Str.ofString "kraken") (fun _ => .nan)),
      deliveries.map (fun d => (d.symbol, d.quote)) =
        onTopic (roundsScript .postgres [(oneVenue zeroPrice zeroPrice, KeyedTable.empty)]) ∧
      ¬ BarsPositive .postgres ⟨.default, btcEnv.instruments, fun _ => []⟩ deliveries := by
  obtain ⟨d, hd⟩ := exists_delivery (Str.ofString "BTC-USD") 0 zeroPrice zeroPrice (by decide +kernel)
  obtain ⟨hsymbol, hquote⟩ := Prod.mk.inj hd
  have htopic : onTopic (roundsScript .postgres [(oneVenue zeroPrice zeroPrice, KeyedTable.empty)]) =
      [(Str.ofString "BTC-USD", ⟨0, zeroPrice.value, zeroPrice.value, 1767268830500000⟩)] := by
    decide +kernel
  refine ⟨[d], ?_, fun h => ?_⟩
  · rw [htopic, List.map_singleton, hsymbol, hquote]
  · have hne : d.symbol ≠ [] := by
      rw [hsymbol]
      decide
    have hknown : Known btcEnv.instruments d.symbol := by
      rw [hsymbol]
      exact ⟨by decide, rfl⟩
    have husable : Usable .postgres .default d.quote := by
      rw [hquote]
      decide +kernel
    have hnot : isPositive d.quote = false := by
      rw [hquote]
      decide +kernel
    obtain ⟨t, ht⟩ : ∃ t : Tick .postgres,
        tickOf .postgres ⟨.default, btcEnv.instruments, fun _ => []⟩ d.event = some t :=
      (exists_tick_iff hne).mpr ⟨hknown, husable⟩
    have hskip := h.skipped [] d [] rfl hnot
    rw [eventsOf_concat] at hskip
    exact barsAfter_concat_ne ht hskip

end Pricestream
