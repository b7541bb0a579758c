import Pricestream.Proof.Ohlc.Buckets

/-!
# What one event does to the bars

A tick is what a valid event amounts to: an instrument that is known, a timestamp that has buckets, and a
mid that the price columns can hold. Everything the consumer does to a table is said in terms of ticks. An event
that is a tick rebuilds one bar per interval and nothing else; any other event, whether it is dropped
or raises, leaves the table as it found it. So a run of the consumer is a fold of ticks, whatever
else was on the topic.
-/

namespace Pricestream

open Library Python
open DateTime (Instant)
open TimeDelta (wholeSeconds)

structure Event where
  now : Instant
  payload : Json

structure Tick (db : Engine) where
  instrument : Str
  ts : DateTime
  mid : ℚ
  fits : (priceColumn db).Fits mid
  dated : HasBuckets wholeSeconds ts

variable {db : Engine}

/-- The bar an instrument has for a timestamp with buckets. -/
def barKey (instrument : Str) (interval : Interval) (ts : DateTime) : BarKey :=
  ⟨instrument, interval, (flooredStart wholeSeconds ts interval).instant⟩

def Tick.key (t : Tick db) (interval : Interval) : BarKey := barKey t.instrument interval t.ts

def Tick.reading (t : Tick db) : Reading := ⟨t.instrument, t.ts, .finite t.mid⟩

def Reading.tick? (db : Engine) (reading : Reading) : Option (Tick db) :=
  match reading.mid with
  | .finite mid =>
      if h : (priceColumn db).Fits mid ∧ HasBuckets wholeSeconds reading.ts then
        some ⟨reading.instrument, reading.ts, mid, h.1, h.2⟩
      else none
  | .infinity _ | .nan _ => none

/-- The tick an event amounts to, if it is valid. -/
def tickOf (db : Engine) (env : Env) (e : Event) : Option (Tick db) :=
  match readEvent env e.now e.payload with
  | .ok (some reading) => reading.tick? db
  | .ok none | .error _ => none

/-- The row a tick turns a row into. -/
def rebuildBar (found : Option (OHLCBar db)) (hit : Tick db × Interval) : OHLCBar db :=
  let (t, interval) := hit
  let cell := (priceColumn db).put t.mid t.fits
  match found with
  | none => ⟨t.key interval, cell, cell, cell, cell, (priceColumn db).zero, 1⟩
  | some bar =>
      { bar with
        high := (priceColumn db).put _ ((priceColumn db).fits_max bar.high.fits t.fits)
        low := (priceColumn db).put _ ((priceColumn db).fits_min bar.low.fits t.fits)
        close := cell
        tickCount := bar.tickCount + 1 }

def hitKey (hit : Tick db × Interval) : BarKey := hit.1.key hit.2

def hitBar (bars : BarTable db) (hit : Tick db × Interval) : BarTable db :=
  bars.amend hitKey rebuildBar hit

def applyTick (bars : BarTable db) (t : Tick db) : BarTable db :=
  intervals.foldl (fun bars interval => hitBar bars (t, interval)) bars

/-- Hand a sequence of events to `handle_event`, one after the other. -/
def handleEvents (env : Env) (events : List Event) (bars : BarTable db) : BarTable db :=
  events.foldl (fun bars e => (handleEvent env e.now e.payload bars).1) bars

/-! ### Updates -/

theorem createBar_of_fits {key : BarKey} {x : ℚ} (h : (priceColumn db).Fits x) :
    createBar db key (.finite x) =
      .ok ⟨key, (priceColumn db).put x h, (priceColumn db).put x h, (priceColumn db).put x h,
        (priceColumn db).put x h, (priceColumn db).zero, 1⟩ := by
  rw [createBar, writeDecimal_of_storable h]
  rfl

theorem amendBar_of_fits (bar : OHLCBar db) {x : ℚ} (h : (priceColumn db).Fits x) :
    amendBar bar (.finite x) = .ok
      { bar with
        high := (priceColumn db).put _ ((priceColumn db).fits_max bar.high.fits h)
        low := (priceColumn db).put _ ((priceColumn db).fits_min bar.low.fits h)
        close := (priceColumn db).put x h
        tickCount := bar.tickCount + 1 } := by
  have hhigh := writeDecimal_of_storable ((priceColumn db).fits_max bar.high.fits h)
  have hlow := writeDecimal_of_storable ((priceColumn db).fits_min bar.low.fits h)
  rw [amendBar, Decimal.max_finite, Decimal.min_finite]
  simp only [bind, Except.bind, hhigh, hlow, writeDecimal_of_storable h]
  rfl

theorem createBar_of_not_storable (key : BarKey) {price : Decimal}
    (h : ¬ Storable (priceColumn db) price) : ∃ e, createBar db key price = .error e := by
  rw [createBar, writeDecimal_of_not_storable h]
  exact ⟨_, rfl⟩

/-- A price that cannot be stored fails at the latest when it is written as the close. -/
theorem amendBar_of_not_storable (bar : OHLCBar db) {price : Decimal}
    (h : ¬ Storable (priceColumn db) price) : ∃ e, amendBar bar price = .error e := by
  rw [amendBar]
  cases Decimal.max (.finite bar.high.value) price with
  | error e => exact ⟨e, rfl⟩
  | ok high =>
      cases Decimal.min (.finite bar.low.value) price with
      | error e => exact ⟨e, rfl⟩
      | ok low =>
          simp only [bind, Except.bind, writeDecimal_of_not_storable h]
          cases writeDecimal (priceColumn db) high with
          | error e => exact ⟨e, rfl⟩
          | ok high =>
              cases writeDecimal (priceColumn db) low with
              | error e => exact ⟨e, rfl⟩
              | ok low => exact ⟨_, rfl⟩

theorem key_rebuildBar (bars : BarTable db) (hit : Tick db × Interval) :
    (rebuildBar (bars.get? (hitKey hit)) hit).key = hitKey hit := by
  cases hget : bars.get? (hitKey hit) with
  | none => rfl
  | some bar =>
      show bar.key = hitKey hit
      exact KeyedTable.key_of_get? hget

theorem rebuildBar_ne (found : Option (OHLCBar db)) (hit : Tick db × Interval) :
    some (rebuildBar found hit) ≠ found := by
  cases found with
  | none => exact Option.some_ne_none _
  | some bar =>
      intro h
      have hcount : bar.tickCount + 1 = bar.tickCount := congrArg OHLCBar.tickCount (Option.some.inj h)
      exact absurd hcount (Nat.succ_ne_self _)

theorem updateBar_of_hasBuckets {instrument : Str} {interval : Interval} {ts : DateTime}
    (h : HasBuckets wholeSeconds ts) (price : Decimal) (bars : BarTable db) :
    updateBar instrument interval ts price bars =
      match bars.get? (barKey instrument interval ts) with
      | none => createBar db (barKey instrument interval ts) price >>= fun bar =>
          orRaise .integrityError (bars.insert bar)
      | some bar => amendBar bar price >>= fun bar => orRaise .databaseError (bars.save bar) := by
  rw [updateBar, bucketStart_of_hasBuckets h]
  rfl

theorem updateBar_tick (t : Tick db) (interval : Interval) (bars : BarTable db) :
    updateBar t.instrument interval t.ts (.finite t.mid) bars = .ok (hitBar bars (t, interval)) := by
  rw [updateBar_of_hasBuckets t.dated]
  show _ = Except.ok (bars.upsert (rebuildBar (bars.get? (t.key interval)) (t, interval)))
  rw [Tick.key]
  cases hget : bars.get? (barKey t.instrument interval t.ts) with
  | none =>
      have hinsert : bars.insert (rebuildBar none (t, interval)) = some (bars.upsert _) :=
        KeyedTable.insert_eq_some hget
      simp only [createBar_of_fits t.fits, bind, Except.bind]
      exact congrArg (orRaise _) hinsert
  | some bar =>
      have hrow : bars.get? (rebuildBar (some bar) (t, interval)).key = some bar :=
        (KeyedTable.key_of_get? hget).symm ▸ hget
      have hsave : bars.save (rebuildBar (some bar) (t, interval)) = some (bars.upsert _) :=
        KeyedTable.save_eq_some hrow
      simp only [amendBar_of_fits bar t.fits, bind, Except.bind]
      exact congrArg (orRaise _) hsave

theorem updateBar_of_not_hasBuckets (instrument : Str) (interval : Interval) {ts : DateTime}
    (price : Decimal) (bars : BarTable db) (h : ¬ HasBuckets wholeSeconds ts) :
    updateBar instrument interval ts price bars = .error .overflowError := by
  rw [updateBar, bucketStart_of_not_hasBuckets h]
  rfl

theorem updateBar_of_not_storable (instrument : Str) (interval : Interval) (ts : DateTime)
    {price : Decimal} (bars : BarTable db) (h : ¬ Storable (priceColumn db) price) :
    ∃ e, updateBar instrument interval ts price bars = .error e := by
  by_cases hdated : HasBuckets wholeSeconds ts
  · rw [updateBar_of_hasBuckets hdated]
    cases bars.get? (barKey instrument interval ts) with
    | none =>
        obtain ⟨e, he⟩ := createBar_of_not_storable (barKey instrument interval ts) h
        exact ⟨e, by simp only [he, bind, Except.bind]⟩
    | some bar =>
        obtain ⟨e, he⟩ := amendBar_of_not_storable bar h
        exact ⟨e, by simp only [he, bind, Except.bind]⟩
  · exact ⟨_, updateBar_of_not_hasBuckets instrument interval price bars hdated⟩

/-! ### Events -/

theorem applyIntervals_tick (t : Tick db) (is : List Interval) (bars : BarTable db) :
    applyIntervals t.reading is bars =
      (is.foldl (fun bars interval => hitBar bars (t, interval)) bars, none) := by
  induction is generalizing bars with
  | nil => rfl
  | cons interval is ih =>
      simp only [applyIntervals, Tick.reading, updateBar_tick, List.foldl_cons]
      exact ih _

theorem Reading.tick?_eq_some {reading : Reading} {t : Tick db} (h : reading.tick? db = some t) :
    reading = t.reading := by
  obtain ⟨instrument, ts, mid⟩ := reading
  cases mid with
  | finite mid =>
      simp only [Reading.tick?] at h
      split_ifs at h with hfits
      obtain rfl := Option.some.inj h
      rfl
  | infinity negative => exact absurd h (by simp [Reading.tick?])
  | nan signaling => exact absurd h (by simp [Reading.tick?])

theorem readEvent_of_tickOf {env : Env} {e : Event} {t : Tick db} (h : tickOf db env e = some t) :
    readEvent env e.now e.payload = .ok (some t.reading) := by
  cases hread : readEvent env e.now e.payload with
  | error exc => simp [tickOf, hread] at h
  | ok read =>
      cases read with
      | none => simp [tickOf, hread] at h
      | some reading =>
          simp only [tickOf, hread] at h
          rw [Reading.tick?_eq_some h]

theorem Reading.tick?_eq_none_iff {reading : Reading} :
    reading.tick? db = none ↔
      ¬ Storable (priceColumn db) reading.mid ∨ ¬ HasBuckets wholeSeconds reading.ts := by
  obtain ⟨instrument, ts, mid⟩ := reading
  cases mid with
  | finite mid =>
      simp only [Reading.tick?, Storable, ← not_and_or]
      split_ifs with hvalid <;> simp [hvalid]
  | infinity negative => simp [Reading.tick?, Storable]
  | nan signaling => simp [Reading.tick?, Storable]

theorem updateBar_of_not_tick {reading : Reading} (h : reading.tick? db = none) (interval : Interval)
    (bars : BarTable db) :
    ∃ e, updateBar reading.instrument interval reading.ts reading.mid bars = .error e := by
  rcases Reading.tick?_eq_none_iff.mp h with hmid | hts
  · exact updateBar_of_not_storable _ interval _ bars hmid
  · exact ⟨_, updateBar_of_not_hasBuckets _ interval _ bars hts⟩

/-- **What `handle_event` can do.** It applies a tick, or drops the event, or raises; only the first
touches the table. -/
theorem handleEvent_cases (env : Env) (e : Event) (bars : BarTable db) :
    (∃ t, tickOf db env e = some t ∧ handleEvent env e.now e.payload bars = (applyTick bars t, none)) ∨
    (tickOf db env e = none ∧ readEvent env e.now e.payload = .ok none ∧
      handleEvent env e.now e.payload bars = (bars, none)) ∨
    (tickOf db env e = none ∧ readEvent env e.now e.payload ≠ .ok none ∧
      ∃ exc, handleEvent env e.now e.payload bars = (bars, some exc)) := by
  cases hread : readEvent env e.now e.payload with
  | error exc =>
      exact Or.inr (Or.inr ⟨by rw [tickOf, hread], by simp, exc, by rw [handleEvent, hread]⟩)
  | ok read =>
      cases read with
      | none =>
          exact Or.inr (Or.inl ⟨by rw [tickOf, hread], rfl, by rw [handleEvent, hread]⟩)
      | some reading =>
          have htick : tickOf db env e = reading.tick? db := by rw [tickOf, hread]
          have hhandle : handleEvent env e.now e.payload bars
              = applyIntervals reading intervals bars := by rw [handleEvent, hread]
          rw [htick, hhandle]
          cases ht : reading.tick? db with
          | some t =>
              rw [Reading.tick?_eq_some ht, applyIntervals_tick]
              exact Or.inl ⟨t, rfl, rfl⟩
          | none =>
              obtain ⟨exc, hexc⟩ := updateBar_of_not_tick ht .m1 bars
              refine Or.inr (Or.inr ⟨rfl, by simp, exc, ?_⟩)
              simp only [intervals, applyIntervals, hexc]

theorem handleEvent_bars (env : Env) (e : Event) (bars : BarTable db) :
    (handleEvent env e.now e.payload bars).1 = (tickOf db env e).elim bars (applyTick bars) := by
  rcases handleEvent_cases env e bars with ⟨t, ht, h⟩ | ⟨ht, _, h⟩ | ⟨ht, _, exc, h⟩ <;>
    rw [ht, h] <;> rfl

/-- **A run of events is a fold of their ticks.** -/
theorem handleEvents_eq (env : Env) (events : List Event) (bars : BarTable db) :
    handleEvents env events bars = (events.filterMap (tickOf db env)).foldl applyTick bars := by
  rw [handleEvents, List.foldl_filterMap]
  congr 1
  funext bars e
  rw [handleEvent_bars]
  cases tickOf db env e <;> rfl

/-! ### Valid events -/

/-- Everything `handle_event` gets through when it reaches the updates. -/
theorem readEvent_eq_some_iff {env : Env} {now : Instant} {payload : Json} {reading : Reading} :
    readEvent env now payload = .ok (some reading) ↔
      ∃ fields instrument bid ask sum mid ts, payload = .obj fields ∧
        (Json.get fields (Str.ofString "instrument")).truthy = true ∧
        getInstrument env (Json.get fields (Str.ofString "instrument")) = .ok (some instrument) ∧
        readPrices fields = .ok (bid, ask) ∧
        Decimal.add env.ctx bid ask = .ok sum ∧ Decimal.divNat env.ctx sum 2 = .ok mid ∧
        readTs now (Json.get fields (Str.ofString "ts")) = .ok ts ∧
        reading = ⟨instrument.symbol, ts, mid⟩ := by
  constructor
  · intro h
    cases payload with
    | obj fields =>
        simp only [readEvent] at h
        split_ifs at h with htruthy
        · obtain ⟨found, hinst, h⟩ := bind_eq_ok.mp h
          cases found with
          | none => cases h
          | some instrument =>
              cases hprices : readPrices fields with
              | error e =>
                  simp only [hprices] at h
                  cases h
              | ok prices =>
                  obtain ⟨bid, ask⟩ := prices
                  simp only [hprices] at h
                  obtain ⟨sum, hsum, h⟩ := bind_eq_ok.mp h
                  obtain ⟨mid, hmid, h⟩ := bind_eq_ok.mp h
                  obtain ⟨ts, hts, h⟩ := bind_eq_ok.mp h
                  exact ⟨fields, instrument, bid, ask, sum, mid, ts, rfl, htruthy, hinst, hprices, hsum,
                    hmid, hts, (Option.some.inj (Except.ok.inj h)).symm⟩
        · cases h
    | null | bool _ | int _ | float _ | str _ | arr _ => cases h
  · rintro ⟨fields, instrument, bid, ask, sum, mid, ts, rfl, htruthy, hinst, hprices, hsum, hmid, hts,
      rfl⟩
    simp [readEvent, htruthy, hinst, hprices, hsum, hmid, hts, bind, Except.bind, pure, Except.pure]

/-- **Valid events.** A tick comes from an object that names a known instrument, whose bid and ask
parse to numbers with a storable mid, and whose timestamp is text or absent and has buckets. -/
theorem tickOf_eq_some_iff {env : Env} {e : Event} {t : Tick db} :
    tickOf db env e = some t ↔
      ∃ fields instrument bid ask, e.payload = .obj fields ∧
        (Json.get fields (Str.ofString "instrument")).truthy = true ∧
        getInstrument env (Json.get fields (Str.ofString "instrument")) = .ok (some instrument) ∧
        readPrices fields = .ok (.finite bid, .finite ask) ∧
        readTs e.now (Json.get fields (Str.ofString "ts")) = .ok t.ts ∧
        t.instrument = instrument.symbol ∧ t.mid = env.ctx.div (env.ctx.add bid ask) 2 := by
  constructor
  · intro h
    obtain ⟨fields, instrument, bid, ask, sum, mid, ts, hobj, htruthy, hinst, hprices, hsum, hmid,
      hts, heq⟩ := readEvent_eq_some_iff.mp (readEvent_of_tickOf h)
    obtain ⟨hsymbol, rfl, rfl⟩ := Reading.mk.inj heq
    obtain ⟨s, rfl, hdiv⟩ := Decimal.divNat_eq_finite hmid
    obtain ⟨a, b, rfl, rfl, rfl⟩ := Decimal.add_eq_finite hsum
    exact ⟨fields, instrument, a, b, hobj, htruthy, hinst, hprices, hts, hsymbol, hdiv⟩
  · rintro ⟨fields, instrument, bid, ask, hobj, htruthy, hinst, hprices, hts, hsymbol, hmid⟩
    have hread : readEvent env e.now e.payload = .ok (some ⟨t.instrument, t.ts, .finite t.mid⟩) :=
      readEvent_eq_some_iff.mpr ⟨fields, instrument, .finite bid, .finite ask, _, _, t.ts, hobj,
        htruthy, hinst, hprices, rfl, rfl, hts, by rw [hsymbol, hmid]; rfl⟩
    simp only [tickOf, hread, Reading.tick?]
    rw [dif_pos ⟨t.fits, t.dated⟩]

/-- What the consumer asks of an event. -/
structure Event.Valid (db : Engine) (env : Env) (e : Event) (fields : List (Str × Json))
    (instrument : Instrument) (bid ask : ℚ) (ts : DateTime) : Prop where
  object : e.payload = .obj fields
  named : (Json.get fields (Str.ofString "instrument")).truthy = true
  known : getInstrument env (Json.get fields (Str.ofString "instrument")) = .ok (some instrument)
  prices : readPrices fields = .ok (.finite bid, .finite ask)
  timestamp : readTs e.now (Json.get fields (Str.ofString "ts")) = .ok ts
  fits : (priceColumn db).Fits (env.ctx.div (env.ctx.add bid ask) 2)
  dated : HasBuckets wholeSeconds ts

/-- **Which events are ticks**, and of what. -/
theorem exists_tickOf_iff {env : Env} {e : Event} {reading : Reading} :
    (∃ t : Tick db, tickOf db env e = some t ∧ t.reading = reading) ↔
      ∃ fields instrument bid ask ts, e.Valid db env fields instrument bid ask ts ∧
        reading = ⟨instrument.symbol, ts, .finite (env.ctx.div (env.ctx.add bid ask) 2)⟩ := by
  constructor
  · rintro ⟨t, ht, rfl⟩
    obtain ⟨fields, instrument, bid, ask, hobj, htruthy, hinst, hprices, hts, hsymbol, hmid⟩ :=
      tickOf_eq_some_iff.mp ht
    refine ⟨fields, instrument, bid, ask, t.ts, ⟨hobj, htruthy, hinst, hprices, hts, ?_, t.dated⟩, ?_⟩
    · exact hmid ▸ t.fits
    · rw [Tick.reading, hsymbol, hmid]
  · rintro ⟨fields, instrument, bid, ask, ts, h, rfl⟩
    refine ⟨⟨instrument.symbol, ts, _, h.fits, h.dated⟩, ?_, rfl⟩
    exact tickOf_eq_some_iff.mpr ⟨fields, instrument, bid, ask, h.object, h.named, h.known, h.prices,
      h.timestamp, rfl, rfl⟩

/-! ### Published quotes -/

/-- The payload `publish_quote` serialises, from the texts it puts into it. -/
def quoteFields (instrument source bid ask ts : String) : List (Str × Json) :=
  [(Str.ofString "instrument", .str (Str.ofString instrument)),
    (Str.ofString "source", .str (Str.ofString source)),
    (Str.ofString "bid", .str (Str.ofString bid)),
    (Str.ofString "ask", .str (Str.ofString ask)),
    (Str.ofString "ts", .str (Str.ofString ts))]

def quoteEvent (now : Instant) (instrument source bid ask ts : String) : Event :=
  ⟨now, .obj (quoteFields instrument source bid ask ts)⟩

/-- A table with one instrument, and exact arithmetic. -/
def btcEnv : Env where
  ctx := .exact
  instruments :=
    ⟨[⟨Str.ofString "BTC-USD", Str.ofString "BTC", Str.ofString "USD", true⟩], List.nodup_singleton _⟩
  str _ := []

theorem readTs_of_quoteEvent {env : Env} {now : Instant} {instrument source bid ask ts : String}
    {t : Tick db} (h : tickOf db env (quoteEvent now instrument source bid ask ts) = some t) :
    readTs now (.str (Str.ofString ts)) = .ok t.ts := by
  obtain ⟨fields, _, _, _, hobj, _, _, _, hts, _⟩ := tickOf_eq_some_iff.mp h
  obtain rfl := Json.obj.inj hobj
  exact hts

theorem ts_of_quoteEvent {env : Env} {now : Instant} {instrument source bid ask ts : String}
    {t : Tick db} (h : tickOf db env (quoteEvent now instrument source bid ask ts) = some t) :
    t.ts = (DateTime.fromisoformat (Str.ofString ts)).getD (.ofInstant now) := by
  have hread := readTs_of_quoteEvent h
  rw [readTs] at hread
  split_ifs at hread with htruthy
  · exact (Except.ok.inj hread).symm
  · have hempty : Str.ofString ts = [] := by simpa [Json.truthy] using htruthy
    rw [hempty]
    exact (Except.ok.inj hread).symm

theorem readPrices_quoteFields {instrument source bid ask ts : String} {b a : Decimal}
    (hbid : Decimal.ofStr (Str.ofString bid) = some b)
    (hask : Decimal.ofStr (Str.ofString ask) = some a) :
    readPrices (quoteFields instrument source bid ask ts) = .ok (b, a) := by
  have hb : Json.getItem (quoteFields instrument source bid ask ts) (Str.ofString "bid")
      = .ok (.str (Str.ofString bid)) := rfl
  have ha : Json.getItem (quoteFields instrument source bid ask ts) (Str.ofString "ask")
      = .ok (.str (Str.ofString ask)) := rfl
  simp only [readPrices, hb, ha, bind, Except.bind, Decimal.ofJson, hbid, hask, orRaise_some]
  rfl

theorem tickOf_quoteEvent {env : Env} {now : Instant} {instrument source bid ask ts : String}
    {found : Instrument} {b a : ℚ} {t : Tick db}
    (hinst : getInstrument env (.str (Str.ofString instrument)) = .ok (some found))
    (hname : Str.ofString instrument ≠ []) (hbid : Decimal.ofStr (Str.ofString bid) = some (.finite b))
    (hask : Decimal.ofStr (Str.ofString ask) = some (.finite a))
    (hts : DateTime.fromisoformat (Str.ofString ts) = some t.ts)
    (hsymbol : t.instrument = found.symbol) (hmid : t.mid = env.ctx.div (env.ctx.add b a) 2) :
    tickOf db env (quoteEvent now instrument source bid ask ts) = some t := by
  refine tickOf_eq_some_iff.mpr ⟨_, found, b, a, rfl, ?_, hinst, ?_, ?_, hsymbol, hmid⟩
  · show (!(Str.ofString instrument).isEmpty) = true
    simp [hname]
  · exact readPrices_quoteFields hbid hask
  · show readTs now (.str (Str.ofString ts)) = .ok t.ts
    have hne : Str.ofString ts ≠ [] := by
      intro hempty
      rw [hempty] at hts
      cases hts
    rw [readTs, if_pos (by simp [Json.truthy, hne]), hts]
    rfl

def soundQuote : Event := quoteEvent 0 "BTC-USD" "kraken" "100" "102" "2026-01-01T12:00:30+00:00"

def soundTick : Tick .postgres :=
  ⟨Str.ofString "BTC-USD", ⟨1767268830000000, some 0⟩, 101, by decide +kernel,
    by decide +kernel⟩

theorem tickOf_soundQuote : tickOf .postgres btcEnv soundQuote = some soundTick :=
  tickOf_quoteEvent (b := 100) (a := 102) rfl (by decide) (by decide +kernel) (by decide +kernel)
    (by decide) rfl (by norm_num [btcEnv, soundTick])

end Pricestream
