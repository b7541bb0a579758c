import Pricestream.Exchanges
import Pricestream.Proof.Tasks.Precision
import Pricestream.Proof.WebSocket.Hub

/-!
# Prices and the documents they rest on

Polled through the clients of the exchanges, a round has at most one quote of each venue, in the order
of their names, and a quote has the numbers that the venue's document states. So the sources of a
consolidated price are not only names: the price is the book of what exactly these venues state, and
can be worked out again from their documents. It is a valid book of them, also as it is computed in 28
digits, if they state ten decimal places.
-/

namespace Pricestream

open Library Python

/-! ### What a venue states -/

namespace Source

def all : List Source := [.binance, .coinbase, .kraken]

def request (upper : Str → Str) : Source → Str → Request
  | .binance => BinanceClient.request upper
  | .coinbase => CoinbaseClient.request upper
  | .kraken => KrakenClient.request upper

def read : Source → Json → Option (Decimal × Decimal)
  | .binance => BinanceClient.read
  | .coinbase => CoinbaseClient.read
  | .kraken => KrakenClient.read

theorem pairwise_all : all.Pairwise (· < ·) := by decide

end Source

/-- The venue answers the request for the instrument's market with success, and its document states
these prices. -/
def States (upper : Str → Str) (session : HttpSession) (symbol : Str) (s : Source) (bid ask : Decimal) : Prop :=
  ∃ r document, session symbol (s.request upper symbol) = some r ∧ 200 ≤ r.status ∧ r.status < 300 ∧
    r.json = some document ∧ s.read document = some (bid, ask)

theorem fetchTicker_eq_some_iff {upper : Str → Str} {session : HttpSession} {symbol : Str} {s : Source}
    {bid ask : Decimal} :
    fetchTicker (s.request upper) s.read session symbol = some (bid, ask) ↔
      States upper session symbol s bid ask := by
  simp only [fetchTicker, HttpResponse.data, States, Option.bind_eq_bind, Option.bind_eq_some_iff,
    Option.ite_none_right_eq_some]
  constructor
  · rintro ⟨r, hr, document, ⟨⟨hlow, hhigh⟩, hjson⟩, hread⟩
    exact ⟨r, document, hr, hlow, hhigh, hjson, hread⟩
  · rintro ⟨r, document, hr, hlow, hhigh, hjson, hread⟩
    exact ⟨r, hr, document, ⟨⟨hlow, hhigh⟩, hjson⟩, hread⟩

/-! ### Polls -/

/-- A round of the program as it is deployed, which polls all the exchanges there are. -/
structure Poll where
  round : Round Source
  session : HttpSession

namespace Poll

variable (p : Poll) (symbol : Str)

def live : Round Source := { p.round with clients := allClients p.round.upper p.session }

/-- A venue's quote of an instrument. -/
def quote? (s : Source) : Option (Quote Source) :=
  match fetchTicker (s.request p.round.upper) s.read p.session symbol with
  | some (.finite bid, .finite ask) => some ⟨s, bid, ask, p.round.clock.fetched symbol s.rank⟩
  | _ => none

variable {p symbol} {s : Source} {q : Quote Source}

theorem roundQuotes_live : roundQuotes p.live symbol = Source.all.filterMap (p.quote? symbol) := rfl

theorem quote?_eq_some (h : p.quote? symbol s = some q) :
    q.source = s ∧ States p.round.upper p.session symbol s (.finite q.bid) (.finite q.ask) := by
  unfold quote? at h
  split at h
  · rename_i bid ask hfetch
    obtain rfl := Option.some.inj h
    exact ⟨rfl, fetchTicker_eq_some_iff.mp hfetch⟩
  · cases h

theorem sublist_filterMap {l : List Source} {f : Source → Option (Quote Source)}
    (hkey : ∀ s q, f s = some q → q.source = s) {kept : List (Quote Source)}
    (h : kept.Sublist (l.filterMap f)) :
    (kept.map Quote.source).Sublist l ∧ kept = (kept.map Quote.source).filterMap f := by
  induction l generalizing kept with
  | nil =>
      rw [List.filterMap_nil, List.sublist_nil] at h
      subst h
      exact ⟨List.Sublist.refl _, rfl⟩
  | cons s l ih =>
      cases hf : f s with
      | none =>
          rw [List.filterMap_cons_none hf] at h
          obtain ⟨hsub, heq⟩ := ih h
          exact ⟨hsub.cons s, heq⟩
      | some q =>
          rw [List.filterMap_cons_some hf] at h
          cases h with
          | cons _ h =>
              obtain ⟨hsub, heq⟩ := ih h
              exact ⟨hsub.cons s, heq⟩
          | cons_cons _ h =>
              obtain ⟨hsub, heq⟩ := ih h
              rw [List.map_cons, hkey s q hf, List.filterMap_cons_some hf, ← heq]
              exact ⟨hsub.cons_cons s, rfl⟩

theorem candidates_sublist {Venue : Type} (maxAge : ℚ) (clock : ℕ → DateTime.Instant)
    (quotes : List (Quote Venue)) : (candidates maxAge clock quotes).Sublist quotes := by
  have hfst : (quotes.zipIdx.map Prod.fst).Sublist quotes := by rw [List.zipIdx_map_fst]
  exact (List.filter_sublist.map Prod.fst).trans hfst

theorem sortedSources_of_pairwise {Venue : Type} [LinearOrder Venue] {quotes : List (Quote Venue)}
    (h : (quotes.map Quote.source).Pairwise (· < ·)) : sortedSources quotes = quotes.map Quote.source := by
  have hnodup : (quotes.map Quote.source).Nodup := h.imp ne_of_lt
  have hperm : (sortedSources quotes).Perm (quotes.map Quote.source) := by
    rw [sortedSources, hnodup.dedup]
    exact List.perm_insertionSort _ _
  exact hperm.eq_of_pairwise' (sortedSources_pairwise quotes) h

end Poll

/-! ### What a price rests on -/

/-- A snapshot is the book of what its sources state in the poll. -/
structure RestsOn (p : Poll) (symbol : Str) (snapshot : Snapshot Source) : Prop where
  sorted : snapshot.sources.Pairwise (· < ·)
  stated : ∀ s ∈ snapshot.sources, ∃ q, p.quote? symbol s = some q ∧
    States p.round.upper p.session symbol s (.finite q.bid) (.finite q.ask) ∧ 0 < q.bid ∧ 0 < q.ask ∧
      ∃ i, isFresh p.round.maxAge (p.round.clock.checked symbol i) q = true
  recomputed : ∃ q rest, snapshot.sources.filterMap (p.quote? symbol) = q :: rest ∧
    snapshot.mid = (book p.round.ctx q rest).mid ∧ snapshot.bid = (book p.round.ctx q rest).bid ∧
      snapshot.ask = (book p.round.ctx q rest).ask

theorem restsOn_of_roundBook {p : Poll} {symbol : Str} {c : Consolidated Source}
    (h : roundBook p.live symbol = some c) : RestsOn p symbol (snapshotOf p.live symbol c) := by
  rcases consolidate_cases p.live.ctx p.live.maxAge (p.live.clock.checked symbol)
    (roundQuotes p.live symbol) with ⟨_, hnone⟩ | ⟨q, rest, hcands, hsome⟩
  · cases h.symm.trans hnone
  · obtain rfl := Option.some.inj (hsome.symm.trans h)
    have hsub := Poll.candidates_sublist p.live.maxAge (p.live.clock.checked symbol)
      (roundQuotes p.live symbol)
    rw [hcands, Poll.roundQuotes_live] at hsub
    obtain ⟨hsorted, hfound⟩ := Poll.sublist_filterMap (fun s q h => (Poll.quote?_eq_some h).1) hsub
    have hpairwise := Source.pairwise_all.sublist hsorted
    have hsources : (book p.live.ctx q rest).sources = (q :: rest).map Quote.source :=
      (sources_book _ q rest).trans (Poll.sortedSources_of_pairwise hpairwise)
    refine ⟨?_, fun s hs => ?_, q, rest, ?_, rfl, rfl, rfl⟩
    · rw [snapshotOf, hsources]
      exact hpairwise
    · rw [snapshotOf, hsources] at hs
      obtain ⟨q', hq', rfl⟩ := List.mem_map.mp hs
      have hmem : q' ∈ (((q :: rest).map Quote.source).filterMap (p.quote? symbol)) := hfound ▸ hq'
      obtain ⟨s, _, hs⟩ := List.mem_filterMap.mp hmem
      obtain ⟨rfl, hstates⟩ := Poll.quote?_eq_some hs
      obtain ⟨i, _, hpos, hfresh⟩ := mem_candidates.mp (hcands ▸ hq')
      obtain ⟨hbid, hask⟩ := isPositive_iff.mp hpos
      exact ⟨q', hs, hstates, hbid, hask, i, hfresh⟩
    · rw [snapshotOf, hsources]
      exact hfound.symm

/-! ### What a price promises -/

def Snapshot.book {Venue : Type} (snapshot : Snapshot Venue) : Consolidated Venue :=
  ⟨snapshot.mid, snapshot.bid, snapshot.ask, snapshot.sources⟩

section Valid

variable {p : Poll} {symbol : Str} {snapshot : Snapshot Source}

theorem RestsOn.positive (h : RestsOn p symbol snapshot) {q : Quote Source}
    (hq : q ∈ snapshot.sources.filterMap (p.quote? symbol)) : 0 < q.bid ∧ 0 < q.ask := by
  obtain ⟨s, hs, hquote⟩ := List.mem_filterMap.mp hq
  obtain ⟨q', hquote', _, hbid, hask, _⟩ := h.stated s hs
  obtain rfl := Option.some.inj (hquote.symm.trans hquote')
  exact ⟨hbid, hask⟩

theorem RestsOn.mem_sources_iff (h : RestsOn p symbol snapshot) (s : Source) :
    s ∈ snapshot.sources ↔ ∃ q ∈ snapshot.sources.filterMap (p.quote? symbol), q.source = s := by
  constructor
  · intro hs
    obtain ⟨q, hquote, _⟩ := h.stated s hs
    exact ⟨q, List.mem_filterMap.mpr ⟨s, hs, hquote⟩, (Poll.quote?_eq_some hquote).1⟩
  · rintro ⟨q, hq, rfl⟩
    obtain ⟨s, hs, hquote⟩ := List.mem_filterMap.mp hq
    rw [(Poll.quote?_eq_some hquote).1]
    exact hs

theorem RestsOn.length_le (h : RestsOn p symbol snapshot) :
    (snapshot.sources.filterMap (p.quote? symbol)).length ≤ 3 := by
  have hsubset : snapshot.sources ⊆ Source.all := by
    intro s _
    cases s <;> decide
  have hnodup : snapshot.sources.Nodup := h.sorted.imp ne_of_lt
  exact (List.length_filterMap_le _ _).trans (hnodup.subperm hsubset).length_le

theorem RestsOn.valid {db : Engine} (h : RestsOn p symbol snapshot) (hctx : p.round.ctx = .default)
    (hexact : ∀ s q, p.quote? symbol s = some q → ExactQuote db q) :
    ValidBook (snapshot.sources.filterMap (p.quote? symbol)) snapshot.book := by
  obtain ⟨q, rest, hquotes, hmid, hbid, hask⟩ := h.recomputed
  have hlength := h.length_le
  have hpos := fun p' => h.positive (q := p')
  have hunits : ∀ p' ∈ snapshot.sources.filterMap (p.quote? symbol), ExactQuote db p' := by
    intro p' hp'
    obtain ⟨s, _, hquote⟩ := List.mem_filterMap.mp hp'
    exact hexact s p' hquote
  have hsources := h.mem_sources_iff
  rw [hquotes] at hlength hpos hunits hsources ⊢
  rw [hctx] at hmid hbid hask
  have hvalid := book_default_valid hunits (hlength.trans (by norm_num)) (isBest_book q rest) hpos
  have hnumbers : snapshot.book = { book .default q rest with sources := snapshot.sources } := by
    rw [Snapshot.book, hmid, hbid, hask]
  rw [hnumbers]
  exact { hvalid with sources_sorted := h.sorted, mem_sources := hsources }

end Valid

/-! ### What is shown -/

theorem rests_of_received {db : Engine} {ι : Type} [DecidableEq ι] {consumers : ι → QuoteConsumer}
    {polls : List (Poll × InstrumentTable)} {events : List (Parties.Event ι Subscriber.Event)}
    {c : HubState db Source ι}
    (hrun : (hub consumers).run
      (HubState.init (roundsScript db (polls.map fun p => (p.1.live, p.2)))) events = some c)
    {i : ι} {m : Message Source} (hm : m ∈ (c.session i).received) :
    ∃ p ∈ polls, RestsOn p.1 (consumers i).symbol m.payload.snapshot := by
  obtain ⟨_, _, _, _, _, hpriced⟩ := priced_of_received hrun hm
  obtain ⟨round, hround, book, hbook, _, hsnapshot⟩ := hpriced.computed
  obtain ⟨p, hp, rfl⟩ := List.mem_map.mp hround
  exact ⟨p, hp, hsnapshot ▸ restsOn_of_roundBook hbook⟩

/-- **A price that is shown can be worked out again from the documents of its sources.** -/
theorem shown_rests_on_documents {db : Engine} {ι : Type} [DecidableEq ι] {consumers : ι → QuoteConsumer}
    {polls : List (Poll × InstrumentTable)} {events : List (Parties.Event ι Subscriber.Event)}
    {c : HubState db Source ι}
    (hrun : (hub consumers).run
      (HubState.init (roundsScript db (polls.map fun p => (p.1.live, p.2)))) events = some c)
    (i : ι) (m : Message Source) (hm : m ∈ (c.session i).received) :
    ∃ p ∈ polls, RestsOn p.1 (consumers i).symbol m.payload.snapshot :=
  rests_of_received hrun hm

/-- **A price that is shown is a valid book of what its sources state.** -/
theorem shown_is_valid {db : Engine} {ι : Type} [DecidableEq ι] {consumers : ι → QuoteConsumer}
    {polls : List (Poll × InstrumentTable)} {events : List (Parties.Event ι Subscriber.Event)}
    {c : HubState db Source ι}
    (hrun : (hub consumers).run
      (HubState.init (roundsScript db (polls.map fun p => (p.1.live, p.2)))) events = some c)
    (i : ι) (hctx : ∀ p ∈ polls, p.1.round.ctx = .default)
    (hexact : ∀ p ∈ polls, ∀ s q, p.1.quote? (consumers i).symbol s = some q → ExactQuote db q)
    (m : Message Source) (hm : m ∈ (c.session i).received) :
    ∃ p ∈ polls, ValidBook (m.payload.snapshot.sources.filterMap (p.1.quote? (consumers i).symbol))
      m.payload.snapshot.book := by
  obtain ⟨p, hp, hrests⟩ := rests_of_received hrun hm
  exact ⟨p, hp, hrests.valid (hctx p hp) (hexact p hp)⟩

/-- Two of the venues answer, one of them with a book in which it is the highest bidder. -/
def twoExchanges : Poll where
  round := {
    ctx := .default
    upper := Str.asciiUpper
    collate := fun _ _ => true
    configured := [Str.ofString "BTC-USD"]
    maxAge := 30
    clients := []
    clock := ⟨fun _ _ => 90061000001, fun _ _ => 90061000001, fun _ => 90061000001, fun _ => 90061000001⟩
    hasLayer := true
    side := fun _ => none }
  session symbol request :=
    if request = BinanceClient.request Str.asciiUpper symbol then
      some ⟨200, some (.obj [(Str.ofString "bidPrice", .str (Str.ofString "100.5")),
        (Str.ofString "askPrice", .str (Str.ofString "102.65"))])⟩
    else if request = KrakenClient.request Str.asciiUpper symbol then
      some ⟨200, some (.obj [(Str.ofString "error", .arr []), (Str.ofString "result", .obj
        [(Str.ofString "XXBTZUSD", .obj [(Str.ofString "b", .arr [.str (Str.ofString "101.25")]),
          (Str.ofString "a", .arr [.str (Str.ofString "103")])])])])⟩
    else some ⟨503, none⟩

/-- A client connects, and is there for the update. -/
def connectsOnce : List (Parties.Event Unit Subscriber.Event) :=
  [.act () .groupAdd, .act () .accept, .act () .cacheGet, .act () .send] ++
    List.replicate 13 .advance ++ [.act () .quoteUpdate]

/-- The client is shown one price, and it is of the two venues that answered. -/
theorem exists_received_twoExchanges :
    ∃ c : HubState .postgres Source Unit,
      (hub fun _ => .ofRoute (Str.ofString "btc-usd")).run
        (HubState.init (roundsScript .postgres [(twoExchanges.live, KeyedTable.empty)])) connectsOnce = some c ∧
      ∃ m ∈ (c.session ()).received, m.payload.snapshot.sources = [.binance, .kraken] ∧
        m.payload.snapshot.bid = 101.25 ∧ m.payload.snapshot.ask = 102.65 := by
  have hsome : ((hub fun _ : Unit => .ofRoute (Str.ofString "btc-usd")).run
      (HubState.init (roundsScript .postgres [(twoExchanges.live, KeyedTable.empty)])) connectsOnce).map
        (fun c : HubState .postgres Source Unit => (c.session ()).received.map fun m =>
          (m.payload.snapshot.sources, m.payload.snapshot.bid, m.payload.snapshot.ask)) =
      some [([.binance, .kraken], 101.25, 102.65)] := by
    decide +kernel
  obtain ⟨c, hrun, hreceived⟩ := Option.map_eq_some_iff.mp hsome
  obtain ⟨m, hm, hshown⟩ := List.mem_map.mp (hreceived ▸ List.mem_singleton_self
    (([.binance, .kraken], 101.25, 102.65) : List Source × ℚ × ℚ))
  obtain ⟨hsources, hprices⟩ := Prod.mk.inj hshown
  obtain ⟨hbid, hask⟩ := Prod.mk.inj hprices
  exact ⟨c, hrun, m, hm, hsources, hbid, hask⟩

theorem twoExchanges_shown :
    ∃ c : HubState .postgres Source Unit,
      (hub fun _ => .ofRoute (Str.ofString "btc-usd")).run
        (HubState.init (roundsScript .postgres [(twoExchanges.live, KeyedTable.empty)])) connectsOnce = some c ∧
      ∃ m ∈ (c.session ()).received, m.payload.snapshot.sources = [.binance, .kraken] ∧
        m.payload.snapshot.bid = 101.25 ∧ m.payload.snapshot.ask = 102.65 ∧
        ∃ p ∈ [(twoExchanges, (KeyedTable.empty : InstrumentTable))],
          RestsOn p.1 (Str.ofString "BTC-USD") m.payload.snapshot := by
  obtain ⟨c, hrun, m, hm, hsources, hbid, hask⟩ := exists_received_twoExchanges
  exact ⟨c, hrun, m, hm, hsources, hbid, hask,
    @shown_rests_on_documents _ _ _ _ [(twoExchanges, KeyedTable.empty)] _ _ hrun () m hm⟩

theorem exact_twoExchanges (s : Source) (q : Quote Source)
    (h : twoExchanges.quote? (Str.ofString "BTC-USD") s = some q) : ExactQuote .postgres q := by
  have hall : ∀ s ∈ Source.all, ∀ q ∈ (twoExchanges.quote? (Str.ofString "BTC-USD") s).toList,
      ExactQuote .postgres q := by decide +kernel
  refine hall s ?_ q (Option.mem_toList.mpr h)
  cases s <;> decide

theorem twoExchanges_valid :
    ∃ c : HubState .postgres Source Unit,
      (hub fun _ => .ofRoute (Str.ofString "btc-usd")).run
        (HubState.init (roundsScript .postgres [(twoExchanges.live, KeyedTable.empty)])) connectsOnce = some c ∧
      ∃ m ∈ (c.session ()).received,
        ∃ p ∈ [(twoExchanges, (KeyedTable.empty : InstrumentTable))],
          ValidBook (m.payload.snapshot.sources.filterMap (p.1.quote? (Str.ofString "BTC-USD")))
            m.payload.snapshot.book := by
  obtain ⟨c, hrun, m, hm, _⟩ := exists_received_twoExchanges
  have hpoll : ∀ p ∈ [(twoExchanges, (KeyedTable.empty : InstrumentTable))], p.1 = twoExchanges :=
    fun p hp => congrArg Prod.fst (List.mem_singleton.mp hp)
  refine ⟨c, hrun, m, hm, @shown_is_valid .postgres _ _ _ [(twoExchanges, KeyedTable.empty)] _ _ hrun ()
    (fun p hp => ?_) (fun p hp s q hq => ?_) m hm⟩
  · rw [hpoll p hp]
    rfl
  · rw [hpoll p hp] at hq
    exact exact_twoExchanges s q hq

end Pricestream
