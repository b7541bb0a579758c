import Pricestream.Proof.Tasks.Books
import Pricestream.Proof.Wire.Positive

/-!
# The quotes against the bars

Every quote a round writes is followed by an attempt to publish it. The consumer turns what was
published into bars without looking at the database again, so the table of quotes and the table of
bars are two accounts of one stream. For every bucket of a known instrument they are reconciled: each
row is a tick of the bar, or its message was not published, or the consumer cannot use the quote.
-/

namespace Pricestream

open Library Python
open DateTime (Instant)
open TimeDelta (wholeSeconds)

variable {db : Engine} {Venue : Type}

/-! ### The journal of the quotes -/

/-- A quote that was written, and whether its message was published. -/
structure Posted (db : Engine) (Venue : Type) where
  row : QuoteRow db Venue
  symbol : Str
  quote : Quote Venue
  sent : Bool

/-- What went to the topic. -/
def Posted.message (p : Posted db Venue) : Str × Quote Venue := (p.symbol, p.quote)

/-- All that was written and published, in one list. -/
structure Journal (posted : List (Posted db Venue)) (l : List (Effect db Venue)) : Prop where
  stored : ∀ p ∈ posted, storeQuote db p.symbol p.quote = .ok p.row
  rows : l.filterMap Effect.quoteRow? = posted.map Posted.row
  topic : ∀ rest, onTopic (l ++ rest) = (posted.filter Posted.sent).map Posted.message ++ onTopic rest

section Journals

variable {l : List (Effect db Venue)}

theorem onTopic_cons_of_not_publish {w : Effect db Venue} (h : ∀ symbol quote, w ≠ .publish symbol quote)
    (rest : List (Effect db Venue)) : onTopic (w :: rest) = onTopic rest := by
  cases w with
  | publish symbol quote => exact absurd rfl (h symbol quote)
  | insert _ | inc _ | cacheSet _ _ | groupSend _ _ _ => rfl

theorem journal_nil (hrow : ∀ w ∈ l, w.quoteRow? = none)
    (hmessage : ∀ w ∈ l, ∀ symbol quote, w ≠ .publish symbol quote) :
    Journal ([] : List (Posted db Venue)) l where
  stored := fun _ hp => absurd hp List.not_mem_nil
  rows := List.filterMap_eq_nil_iff.mpr hrow
  topic := by
    intro rest
    induction l with
    | nil => rfl
    | cons w l ih =>
        rw [List.cons_append, onTopic_cons_of_not_publish (hmessage w List.mem_cons_self)]
        exact ih (fun w' hw' => hrow w' (List.mem_cons_of_mem w hw'))
          fun w' hw' => hmessage w' (List.mem_cons_of_mem w hw')

theorem Journal.append {posted posted' : List (Posted db Venue)} {l' : List (Effect db Venue)}
    (h : Journal posted l) (h' : Journal posted' l') : Journal (posted ++ posted') (l ++ l') where
  stored := fun p hp => (List.mem_append.mp hp).elim (h.stored p) (h'.stored p)
  rows := by rw [List.filterMap_append, h.rows, h'.rows, List.map_append]
  topic := by
    intro rest
    rw [List.append_assoc, h.topic, h'.topic, List.filter_append, List.map_append, List.append_assoc]

theorem sequential_journal : Sequential fun l => ∃ posted : List (Posted db Venue), Journal posted l where
  nil := ⟨[], journal_nil (fun _ hw => absurd hw List.not_mem_nil) fun _ hw => absurd hw List.not_mem_nil⟩
  append := by
    rintro l l' ⟨posted, h⟩ ⟨posted', h'⟩
    exact ⟨posted ++ posted', h.append h'⟩

variable {round : Round Venue} {symbol : Str}

theorem journal_pollClient (client : Client Venue) (i : ℕ) :
    ∃ posted, Journal posted (pollClient round symbol client i : Task db Venue _).trace := by
  rcases trace_pollClient db round symbol client i with
    htrace | htrace | ⟨row, quote, counter, _, hrow, hcounter, htrace⟩
  · rw [htrace]
    refine ⟨[], journal_nil (fun w hw => ?_) fun w hw => ?_⟩
    · rw [List.mem_singleton.mp hw]
      rfl
    · rw [List.mem_singleton.mp hw]
      simp
  · rw [htrace]
    exact sequential_journal.nil
  · rw [htrace]
    rcases hcounter with rfl | rfl
    · exact ⟨[⟨row, symbol, quote, true⟩], by simpa using hrow, rfl, fun _ => rfl⟩
    · exact ⟨[⟨row, symbol, quote, false⟩], by simpa using hrow, rfl, fun _ => rfl⟩

/-- Rounds have a journal, whether they complete or raise. -/
theorem journal_rounds (db : Engine) [LinearOrder Venue] (rounds : List (Round Venue × InstrumentTable)) :
    ∃ posted, Journal posted (roundsScript db rounds) := by
  refine sequential_journal.flatMap fun p _ => sequential_round sequential_journal ?_ ?_ ?_
  · exact fun _ client i _ => journal_pollClient client i
  · intro symbol c _
    have hprice : ∀ w ∈ (publishConsolidated p.1 symbol c : Task db Venue Unit).trace,
        w.quoteRow? = none ∧ ∀ symbol quote, w ≠ .publish symbol quote := by
      intro w hw
      obtain ⟨_, _, rfl | rfl | ⟨_, rfl | ⟨_, _, rfl⟩⟩⟩ := mem_publishConsolidated.mp hw <;>
        exact ⟨rfl, by simp⟩
    exact ⟨[], journal_nil (fun w hw => (hprice w hw).1) fun w hw => (hprice w hw).2⟩
  · intro symbol arb _
    have hsignal : ∀ w ∈ (recordArbitrage p.1 symbol arb : Task db Venue Unit).trace,
        w.quoteRow? = none ∧ ∀ symbol quote, w ≠ .publish symbol quote := by
      intro w hw
      obtain ⟨_, _, rfl | rfl⟩ := mem_recordArbitrage.mp hw <;> exact ⟨rfl, by simp⟩
    exact ⟨[], journal_nil (fun w hw => (hsignal w hw).1) fun w hw => (hsignal w hw).2⟩

theorem Journal.onTopic_eq {posted : List (Posted db Venue)} (h : Journal posted l) :
    onTopic l = (posted.filter Posted.sent).map Posted.message := by
  have htopic := h.topic []
  rwa [List.append_nil, onTopic, List.append_nil] at htopic

end Journals

/-! ### The ticks of what was published -/

/-- The quote belongs to this bar. -/
def Quote.FallsInto (symbol : Str) (q : Quote Venue) (key : BarKey) : Prop :=
  symbol = key.instrument ∧ bucket wholeSeconds key.interval.seconds q.timestamp = key.bucketStart

instance (symbol : Str) (q : Quote Venue) : DecidablePred (q.FallsInto symbol) := fun _ =>
  inferInstanceAs (Decidable (_ ∧ _))

/-- The mid a message brings to a bar, if the consumer makes a tick of it. -/
def midFor (db : Engine) (ctx : Context) (key : BarKey) (message : Str × Quote Venue) : Option ℚ :=
  if message.2.FallsInto message.1 key ∧ Usable db ctx message.2 then
    some (message.2.mid ctx)
  else none

section Deliveries

variable {name : Venue → Str} {parseFloat : Str → Python.Float} {env : Env}
  {d : Delivery name parseFloat}

theorem key_of_tick (hsymbol : d.symbol ≠ []) {t : Tick db} (h : tickOf db env d.event = some t)
    (interval : Interval) :
    t.key interval = ⟨d.symbol, interval, bucket wholeSeconds interval.seconds d.quote.timestamp⟩ := by
  obtain ⟨instrument, hfound⟩ := getInstrument_eq_some_iff.mpr ((exists_tick_iff hsymbol).mp ⟨t, h⟩).1
  have hread := readEvent_decoded hfound hsymbol d.event.now d.object
  rw [← d.payload_eq, QuoteObject.reading] at hread
  simp only [tickOf, hread] at h
  obtain ⟨hinstrument, hts, _⟩ := Reading.mk.inj (Reading.tick?_eq_some h)
  rw [Tick.key, ← hinstrument, ← hts, d.timestamp_eq, barKey, flooredStart_instant]
  simp [DateTime.ofInstant]

theorem mid_of_delivery (hsymbol : d.symbol ≠ []) {key : BarKey}
    (hknown : Known env.instruments key.instrument) :
    (((tickOf db env d.event).filter fun t => t.key key.interval = key).map Tick.mid) =
      midFor db env.ctx key (d.symbol, d.quote) := by
  cases htick : tickOf db env d.event with
  | none =>
      have hnot : ¬ (d.quote.FallsInto d.symbol key ∧ Usable db env.ctx d.quote) := by
        rintro ⟨⟨hinstrument, _⟩, husable⟩
        obtain ⟨t, ht⟩ : ∃ t : Tick db, tickOf db env d.event = some t :=
          (exists_tick_iff hsymbol).mpr ⟨hinstrument ▸ hknown, husable⟩
        rw [htick] at ht
        cases ht
      rw [midFor, if_neg hnot]
      rfl
  | some t =>
      have husable := ((exists_tick_iff hsymbol).mp ⟨t, htick⟩).2
      have hkey : t.key key.interval = key ↔ d.quote.FallsInto d.symbol key := by
        obtain ⟨instrument, interval, start⟩ := key
        rw [key_of_tick hsymbol htick, Quote.FallsInto, BarKey.mk.injEq]
        simp
      rw [midFor, Option.filter_some]
      by_cases hfalls : d.quote.FallsInto d.symbol key
      · simp [hkey, hfalls, husable, mid_of_tick hsymbol htick]
      · simp [hkey, hfalls]

end Deliveries

/-! ### The two accounts -/

/-- The quote of a row falls into the bar. -/
def Posted.FallsInto (p : Posted db Venue) (key : BarKey) : Prop :=
  p.row.instrument = key.instrument ∧ bucket wholeSeconds key.interval.seconds p.row.timestamp = key.bucketStart

instance (key : BarKey) : DecidablePred fun p : Posted db Venue => p.FallsInto key := fun _ =>
  inferInstanceAs (Decidable (_ ∧ _))

/-- The rows of a bucket that are in the bar. -/
def usedIn (ctx : Context) (key : BarKey) (posted : List (Posted db Venue)) : List (Posted db Venue) :=
  posted.filter fun p => p.FallsInto key ∧ p.sent = true ∧ Usable db ctx p.quote

/-- How the quotes that were written and the bars compare. -/
structure Reconciled (ctx : Context) (posted : List (Posted db Venue)) (bars : BarTable db)
    (key : BarKey) : Prop where
  /-- There is a bar if some row of its bucket is used, -/
  exists_iff : (bars.get? key).isSome ↔ usedIn ctx key posted ≠ []
  /-- and it shows the summary of the mids of those rows, in the order in which they were written. -/
  shows : ∀ bar, bars.get? key = some bar → ∃ s : Summary ℚ,
    s.Describes ((usedIn ctx key posted).map fun p => p.quote.mid ctx) ∧ bar.Shows s
  /-- The rows of a bucket are the ticks, the messages that failed, and the quotes nobody can use. -/
  count : (posted.countP fun p => p.FallsInto key) =
    (bars.get? key).elim 0 OHLCBar.tickCount +
      (posted.countP fun p => p.FallsInto key ∧ p.sent = false) +
      posted.countP fun p => p.FallsInto key ∧ p.sent = true ∧ ¬ Usable db ctx p.quote

section Accounts

variable {name : Venue → Str} {parseFloat : Str → Python.Float} {ctx : Context} {key : BarKey}
  {posted : List (Posted db Venue)} {l : List (Effect db Venue)}

theorem fallsInto_iff (h : Journal posted l) {p : Posted db Venue} (hp : p ∈ posted) :
    p.FallsInto key ↔ p.quote.FallsInto p.symbol key := by
  obtain ⟨_, _, hrow⟩ := bind_eq_ok.mp (h.stored p hp)
  obtain ⟨_, _, hrow⟩ := bind_eq_ok.mp hrow
  rw [Posted.FallsInto, ← Except.ok.inj hrow]
  exact Iff.rfl

theorem midFor_journal (h : Journal posted l) :
    (onTopic l).filterMap (midFor db ctx key) = (usedIn ctx key posted).map fun p => p.quote.mid ctx := by
  rw [h.onTopic_eq, List.filterMap_map, List.filterMap_filter, usedIn, ← List.filterMap_eq_map,
    List.filterMap_filter]
  refine List.filterMap_congr fun p hp => ?_
  have hfalls : p.FallsInto key ↔ p.quote.FallsInto p.symbol key := fallsInto_iff h hp
  show (if p.sent = true then (if p.quote.FallsInto p.symbol key ∧ _ then _ else _) else none) = _
  by_cases hsent : p.sent = true
  · by_cases hused : p.quote.FallsInto p.symbol key ∧ Usable db ctx p.quote
    · simp [hsent, hfalls, hused, Posted.message]
    · simp [hsent, hfalls, hused, Posted.message]
  · simp [hsent]

theorem midsAt_deliveries {env : Env} {deliveries : List (Delivery name parseFloat)}
    (hsymbols : ∀ d ∈ deliveries, d.symbol ≠ []) (hknown : Known env.instruments key.instrument) :
    midsAt (ticks db env (eventsOf deliveries)) key =
      (deliveries.map fun d => (d.symbol, d.quote)).filterMap (midFor db env.ctx key) := by
  rw [midsAt, ticksAt, group, ticks, eventsOf, List.filterMap_map, List.filterMap_map,
    List.filter_filterMap, List.map_filterMap]
  refine List.filterMap_congr fun d hd => ?_
  exact mid_of_delivery (hsymbols d hd) hknown

theorem get?_of_unknown {env : Env} {deliveries : List (Delivery name parseFloat)}
    (hsymbols : ∀ d ∈ deliveries, d.symbol ≠ []) (hunknown : ¬ Known env.instruments key.instrument) :
    (barsAfter db env (eventsOf deliveries)).get? key = none := by
  rw [← Option.not_isSome_iff_eq_none, isSome_get?_barsAfter_iff, not_not,
    List.eq_nil_iff_forall_not_mem]
  intro t ht
  obtain ⟨d, hd, htick, hkey⟩ := delivery_of_tick ht
  have hinstrument : d.symbol = key.instrument := by
    rw [← hkey, key_of_tick (hsymbols d hd) htick]
  exact hunknown (hinstrument ▸ ((exists_tick_iff (hsymbols d hd)).mp ⟨t, htick⟩).1)

/-- Rows of a bucket: used, not published, or published with a mid that is not used. -/
theorem count_posted (p : Posted db Venue → Prop) [DecidablePred p] (q : Posted db Venue → Prop)
    [DecidablePred q] (posted : List (Posted db Venue)) :
    posted.countP (fun x => p x) =
      (posted.filter fun x => p x ∧ x.sent = true ∧ q x).length +
        posted.countP (fun x => p x ∧ x.sent = false) +
        posted.countP (fun x => p x ∧ x.sent = true ∧ ¬ q x) := by
  rw [← List.countP_eq_length_filter]
  induction posted with
  | nil => rfl
  | cons x posted ih =>
      simp only [List.countP_cons, ih]
      by_cases hp : p x <;> by_cases hq : q x <;> cases hsent : x.sent <;> simp [hp, hq] <;> omega

/-- **The quotes and the bars are two accounts of one stream.** -/
theorem bars_reconcile [LinearOrder Venue] {rounds : List (Round Venue × InstrumentTable)}
    {deliveries : List (Delivery name parseFloat)}
    (h : deliveries.map (fun d => (d.symbol, d.quote)) = onTopic (roundsScript db rounds)) (env : Env) :
    ∃ posted : List (Posted db Venue),
      (roundsScript db rounds).filterMap Effect.quoteRow? = posted.map Posted.row ∧
      (∀ p ∈ posted, storeQuote db p.symbol p.quote = .ok p.row) ∧
      onTopic (roundsScript db rounds) = (posted.filter Posted.sent).map Posted.message ∧
      ∀ key : BarKey,
        (Known env.instruments key.instrument →
          Reconciled env.ctx posted (barsAfter db env (eventsOf deliveries)) key) ∧
        (¬ Known env.instruments key.instrument →
          (barsAfter db env (eventsOf deliveries)).get? key = none) := by
  obtain ⟨posted, hposted⟩ := journal_rounds db rounds
  refine ⟨posted, hposted.rows, hposted.stored, hposted.onTopic_eq, fun key => ?_⟩
  have hsymbols : ∀ d ∈ deliveries, d.symbol ≠ [] := by
    intro d hd
    have hmem : (d.symbol, d.quote) ∈ onTopic (roundsScript db rounds) := h ▸ List.mem_map_of_mem hd
    obtain ⟨p, _, hpublish⟩ := List.mem_flatMap.mp (mem_of_mem_onTopic hmem)
    exact ne_nil_of_publish hpublish
  refine ⟨fun hknown => ?_, get?_of_unknown hsymbols⟩
  have hmids : midsAt (ticks db env (eventsOf deliveries)) key =
      (usedIn env.ctx key posted).map fun p => p.quote.mid env.ctx := by
    rw [midsAt_deliveries hsymbols hknown, h, midFor_journal hposted]
  have hlength : (ticksAt (ticks db env (eventsOf deliveries)) key).length =
      (usedIn env.ctx key posted).length := by
    have hlengths := congrArg List.length hmids
    rwa [midsAt, List.length_map, List.length_map] at hlengths
  constructor
  case exists_iff =>
    rw [isSome_get?_barsAfter_iff, ← List.length_pos_iff, ← List.length_pos_iff, hlength]
  case shows =>
    intro bar hbar
    obtain ⟨s, hs, hshows⟩ := get?_barsAfter_shows hbar
    exact ⟨s, hmids ▸ hs, hshows⟩
  case count =>
    have htickCount : ((barsAfter db env (eventsOf deliveries)).get? key).elim 0 OHLCBar.tickCount = _ :=
      tickCount_barsAfter env (eventsOf deliveries) key
    rw [htickCount, hlength]
    exact count_posted _ _ posted

end Accounts

/-- Of three rows of the bucket one is a tick, one was not published and one cannot be used, and of the
unknown instrument there is no bar. -/
theorem mixedRounds_reconcile :
    ∃ deliveries : List (Delivery (fun _ : ℕ => Str.ofString "kraken") (fun _ => .nan)),
      deliveries.map (fun d => (d.symbol, d.quote)) = onTopic (roundsScript .postgres mixedRounds) ∧
      ∃ posted : List (Posted .postgres ℕ),
        (roundsScript .postgres mixedRounds).filterMap Effect.quoteRow? = posted.map Posted.row ∧
        Reconciled .default posted
          (barsAfter .postgres ⟨.default, btcEnv.instruments, fun _ => []⟩ (eventsOf deliveries))
          ⟨Str.ofString "BTC-USD", .m1, 1767268800000000⟩ ∧
        (posted.countP fun p => p.FallsInto ⟨Str.ofString "BTC-USD", .m1, 1767268800000000⟩) = 3 ∧
        (barsAfter .postgres ⟨.default, btcEnv.instruments, fun _ => []⟩ (eventsOf deliveries)).get?
          ⟨Str.ofString "ETH-USD", .m1, 1767268800000000⟩ = none := by
  obtain ⟨deliveries, hdelivered⟩ := exists_mixedDeliveries
  obtain ⟨posted, hrows, _, _, hkeys⟩ :=
    bars_reconcile hdelivered ⟨.default, btcEnv.instruments, fun _ => []⟩
  have hcount : ((roundsScript .postgres mixedRounds).filterMap Effect.quoteRow?).countP
      (fun row => row.instrument = Str.ofString "BTC-USD" ∧
        bucket wholeSeconds Interval.m1.seconds row.timestamp = 1767268800000000) = 3 := by decide +kernel
  rw [hrows, List.countP_map] at hcount
  refine ⟨deliveries, hdelivered, posted, hrows, (hkeys _).1 ⟨by decide, rfl⟩, hcount,
    (hkeys _).2 fun hknown => ?_⟩
  cases hknown.2

end Pricestream
