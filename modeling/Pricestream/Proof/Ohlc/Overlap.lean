import Pricestream.Proof.Consumer.Delivery
import Pricestream.Proof.Ohlc.Offsets
import Pricestream.Proof.WebSocket.Overlap
import Pricestream.Proof.Wire.PriceText
import Pricestream.Proof.Wire.Reconcile

/-!
# Where a bar comes from

Several workers are in rounds at the same time and publish what they have stored, and any of them may be
broken off. The topic may lose their messages, bring them again, and mix them in any order. The consumer
may die at any moment and handle messages again that it had handled, in whole or in part. A bar is still
the open, the high, the low and the close of quotes that some worker has stored, and that the exchanges
state in the documents this worker read.
-/

namespace Pricestream

open Library Python
open DateTime (Instant)

variable {db : Engine} {κ : Type}

/-- What is on the topic was published by one of the workers. -/
def Carries {Venue : Type} (name : Venue → Str) (parseFloat : Str → Python.Float)
    (history : List (κ × Effect db Venue)) (log : List (Option Json)) : Prop :=
  ∀ payload, some payload ∈ log → ∃ k, ∃ d : Delivery name parseFloat,
    (k, .publish d.symbol d.quote) ∈ history ∧ d.event.payload = payload

/-- The same message, handled at another time. -/
def Delivery.again {Venue : Type} {name : Venue → Str} {parseFloat : Str → Python.Float}
    (d : Delivery name parseFloat) (now : Instant) : Delivery name parseFloat :=
  { d with event := ⟨now, d.event.payload⟩ }

/-- A worker has stored a quote of the bar's instrument and time and then published it, and its venue
states it in what the worker read. -/
structure QuotedIn (polls : κ → Poll) (history : List (κ × Effect db Source)) (key : BarKey) (k : κ)
    (q : Quote Source) : Prop where
  stored_published : ∃ past row, past ++ [(k, .publish key.instrument q)] <+: history ∧
    (k, .insert (.quote row)) ∈ past ∧ storeQuote db key.instrument q = .ok row
  stated : States (polls k).round.upper (polls k).session key.instrument q.source (.finite q.bid)
    (.finite q.ask)
  falls : bucket TimeDelta.wholeSeconds key.interval.seconds q.timestamp = key.bucketStart

section Bars

variable [DecidableEq κ] {polls : κ → Poll} {tables : κ → InstrumentTable}
  {history : List (κ × Effect db Source)} {name : Source → Str} {parseFloat : Str → Python.Float}
  {log : List (Option Json)} {env : Env}

theorem stored_of_published (hhistory : Advances (programs db (fun k => (polls k).live) tables) history)
    {k : κ} {symbol : Str} {q : Quote Source} (h : (k, .publish symbol q) ∈ history) :
    (∃ past row, past ++ [(k, .publish symbol q)] <+: history ∧ (k, .insert (.quote row)) ∈ past ∧
      storeQuote db symbol q = .ok row) ∧
      States (polls k).round.upper (polls k).session symbol q.source (.finite q.bid) (.finite q.ask) := by
  obtain ⟨past, later, hsplit⟩ := List.append_of_mem h
  have hpast : past ++ [(k, .publish symbol q)] <+: history :=
    ⟨later, by rw [hsplit, List.append_assoc, List.singleton_append]⟩
  have hlast : (k, .publish symbol q) ∈ past ++ [(k, .publish symbol q)] :=
    List.mem_append_right past (List.mem_singleton_self _)
  obtain ⟨w', hw', _, _, row, hquote, hrow, rfl, heq⟩ :=
    (hhistory.of_prefix hpast).caused (caused_published (polls k).live (tables k)) hlast trivial
  obtain ⟨rfl, rfl⟩ := Effect.publish.inj heq
  have hbefore : (k, .insert (.quote row)) ∈ past := by simpa using hw'
  rw [Poll.roundQuotes_live] at hquote
  obtain ⟨s, _, hs⟩ := List.mem_filterMap.mp hquote
  obtain ⟨rfl, hstates⟩ := Poll.quote?_eq_some hs
  exact ⟨⟨past, row, hpast, hbefore, hrow⟩, hstates⟩

theorem quotedIn_of_sound (hhistory : Advances (programs db (fun k => (polls k).live) tables) history)
    (hlog : Carries name parseFloat history log) {a : Applied} (ha : a.Sound db env log)
    {hit : Tick db × Interval} (hhit : a.hit? db = some hit) :
    ∃ u : κ × Quote Source, QuotedIn polls history (hitKey hit) u.1 u.2 ∧ u.2.mid env.ctx = hit.1.mid := by
  obtain ⟨payload, now, t, hmessage, htick, hsame⟩ := ha
  obtain rfl := Option.some.inj (hsame.symm.trans hhit)
  obtain ⟨k, d, hpublished, rfl⟩ := hlog payload (List.mem_of_getElem? hmessage)
  have hsymbol : d.symbol ≠ [] :=
    ne_nil_of_publish ((hhistory k).subset (mem_actionsOf.mpr hpublished))
  have hkey : t.key a.interval = ⟨d.symbol, a.interval, _⟩ :=
    key_of_tick (d := d.again now) hsymbol htick a.interval
  obtain ⟨hstored, hstated⟩ := stored_of_published hhistory hpublished
  refine ⟨(k, d.quote), ?_, (mid_of_tick (d := d.again now) hsymbol htick).symm⟩
  rw [hitKey, hkey]
  exact ⟨hstored, hstated, rfl⟩

/-- **Bars show nothing that was not quoted.** Whatever workers overlap or stop, whatever the topic does
to their messages, and wherever the consumer dies. -/
theorem bars_rest_on_documents {tables : κ → InstrumentTable}
    (hhistory : Advances (programs db (fun k => (polls k).live) tables) history)
    (hlog : Carries name parseFloat history log) {allowed : Group db → Action → Prop} {start : ℕ}
    {g : Group db} (hrun : GroupRun env log allowed (Group.init KeyedTable.empty start) g)
    {key : BarKey} {bar : OHLCBar db} (hbar : g.bars.get? key = some bar) :
    ∃ used : List (κ × Quote Source), (∀ u ∈ used, QuotedIn polls history key u.1 u.2) ∧
      ∃ s : Summary ℚ, s.Describes (used.map fun u => u.2.mid env.ctx) ∧ bar.Shows s := by
  have hbooked := hrun.booked
  rw [hbooked.bars_eq, get?_foldl_hitBar] at hbar
  obtain ⟨s, hs, hshows⟩ := foldBar_shows hbar
  have hmids : (((g.applied.filterMap (Applied.hit? db)).filter fun hit => hitKey hit = key).map
      fun hit => hit.1.mid) ∈ Set.range (List.map
        fun u : {u : κ × Quote Source // QuotedIn polls history key u.1 u.2} => u.1.2.mid env.ctx) := by
    rw [Set.range_list_map]
    intro x hx
    obtain ⟨hit, hhit, rfl⟩ := List.mem_map.mp hx
    obtain ⟨hhit, hkey⟩ := List.mem_filter.mp hhit
    obtain ⟨a, ha, hhit⟩ := List.mem_filterMap.mp hhit
    obtain ⟨u, hu, hmid⟩ := quotedIn_of_sound hhistory hlog (hbooked.sound a ha) hhit
    rw [of_decide_eq_true hkey] at hu
    exact ⟨⟨u, hu⟩, hmid⟩
  obtain ⟨used, hused⟩ := hmids
  refine ⟨used.map Subtype.val, fun u hu => ?_, s, ?_, hshows⟩
  · obtain ⟨u, _, rfl⟩ := List.mem_map.mp hu
    exact u.2
  · rw [List.map_map]
    exact hused ▸ hs

end Bars

/-! ### A message that is brought again -/

/-- What the worker that is broken off has published of one venue. -/
def binanceObject : QuoteObject where
  source := Source.binance.value
  bid := ⟨false, 1005, -1, by decide⟩
  ask := twoExchangesPrice.ask
  timestamp := twoExchangesPrice.timestamp

def binanceQuote : Quote Source := ⟨.binance, 100.5, 102.65, 90061000001⟩

theorem exists_binanceDelivery : ∃ d : Delivery Source.value (fun _ => .nan),
    d.symbol = Str.ofString "BTC-USD" ∧ d.quote = binanceQuote := by
  have hsome : (publishQuote (Str.ofString "BTC-USD") binanceObject).toOption.isSome := by decide +kernel
  obtain ⟨record, hrecord⟩ := Option.isSome_iff_exists.mp hsome
  have hpublish := toOption_eq_some.mp hrecord
  have hholds : binanceObject.toQuote = ⟨Source.binance.value, 100.5, 102.65, 90061000001⟩ := by
    decide +kernel
  exact ⟨⟨_, binanceQuote, binanceObject, record, ⟨0, _⟩, hholds, hpublish,
    decodeValue_published _ hpublish⟩, rfl, rfl⟩

/-- The consumer dies after it has handled the message, and handles it again. -/
theorem exists_handled_twice {payload : Json} {t : Tick .postgres}
    (ht : tickOf .postgres btcEnv ⟨0, payload⟩ = some t) :
    ∃ g, GroupRun btcEnv [some payload] (fun _ _ => True) newGroup g ∧
      g.bars = applyTick (applyTick KeyedTable.empty t) t := by
  have hup : GroupRun btcEnv [some payload] (fun _ _ => True) newGroup oneGroup :=
    .one (.restart _ rfl) trivial
  have hfirst := hup.trans (groupRun_deliver (fun _ _ _ _ => trivial) rfl rfl ht)
  have hcrash := hfirst.step (.crash _ 1 _ rfl) trivial
  have hagain := hcrash.step (.restart _ rfl) trivial
  exact ⟨_, hagain.trans (groupRun_deliver (fun _ _ _ _ => trivial) rfl rfl ht), rfl⟩

/-- The bar shows one quote twice. -/
theorem handled_twice_rests_on_document :
    ∃ (log : List (Option Json)) (g : Group .postgres) (bar : OHLCBar .postgres),
      Carries Source.value (fun _ => .nan) brokenOff log ∧
      GroupRun btcEnv log (fun _ _ => True) newGroup g ∧
      g.bars.get? ⟨Str.ofString "BTC-USD", .m1, 90060000000⟩ = some bar ∧ bar.tickCount = 2 ∧
      ∃ used : List (Bool × Quote Source),
        (∀ u ∈ used, QuotedIn laterPoll brokenOff ⟨Str.ofString "BTC-USD", .m1, 90060000000⟩ u.1 u.2) ∧
        ∃ s : Summary ℚ, s.Describes (used.map fun u => u.2.mid .exact) ∧ bar.Shows s := by
  obtain ⟨d, hsymbol, hquote⟩ := exists_binanceDelivery
  have hpublished : (false, .publish d.symbol d.quote) ∈ brokenOff := by
    rw [hsymbol, hquote]
    decide +kernel
  have hlog : Carries Source.value (fun _ => .nan) brokenOff [some d.event.payload] := by
    intro payload hpayload
    obtain rfl := Option.some.inj (List.mem_singleton.mp hpayload)
    exact ⟨false, d, hpublished, rfl⟩
  have hne : (d.again 0).symbol ≠ [] := by
    show d.symbol ≠ []
    rw [hsymbol]
    decide
  obtain ⟨t, ht⟩ : ∃ t : Tick .postgres, tickOf .postgres btcEnv (d.again 0).event = some t := by
    refine (exists_tick_iff hne).mpr ⟨?_, ?_⟩
    · show Known _ d.symbol
      rw [hsymbol]
      exact ⟨by decide, rfl⟩
    · show Usable .postgres _ d.quote
      rw [hquote]
      decide +kernel
  obtain ⟨g, hrun, hbars⟩ := exists_handled_twice ht
  have hkey : t.key .m1 = ⟨Str.ofString "BTC-USD", .m1, 90060000000⟩ := by
    rw [key_of_tick hne ht]
    show (⟨d.symbol, .m1, bucket _ _ d.quote.timestamp⟩ : BarKey) = _
    rw [hsymbol, hquote]
    decide +kernel
  have hbar : (g.bars.get? (t.key .m1)) =
      some (rebuildBar (some (rebuildBar none (t, .m1))) (t, .m1)) := by
    simp [hbars, get?_applyTick, Tick.key, barKey]
  rw [hkey] at hbar
  exact ⟨_, g, _, hlog, hrun, hbar, rfl, bars_rest_on_documents advances_brokenOff hlog hrun hbar⟩

end Pricestream
