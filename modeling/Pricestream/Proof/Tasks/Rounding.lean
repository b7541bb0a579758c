import Pricestream.Library.Lockstep
import Pricestream.Proof.Tasks.Precision

/-!
# Rounding decides nothing

A round computes in 28 digits. It is compared with the same round on the rationals: if the venues quote
ten decimal places, the two run in lockstep. They poll, write, count, publish, cache and broadcast the
same things for the same instruments in the same order and end alike, with the same counts or the same
exception. Only numbers differ, and only behind a crossed book and in basis points, by at most a unit of
the last place on file.
-/

namespace Pricestream

open Library Python

variable {db : Engine} {Venue : Type}

/-- The same round, on the rationals. -/
def Round.unrounded (round : Round Venue) : Round Venue := { round with ctx := .exact }

/-! ### What differs -/

structure NearSnapshot (s s' : Snapshot Venue) : Prop where
  mid : |s.mid - s'.mid| ≤ 1 / (2 * 10 ^ 14)
  bid : |s.bid - s'.bid| ≤ 1 / (2 * 10 ^ 14)
  ask : |s.ask - s'.ask| ≤ 1 / (2 * 10 ^ 14)
  sources : s.sources = s'.sources
  ts : s.ts = s'.ts

/-- The rows differ by at most one unit of the last place in each number. -/
structure NearRow (row row' : ConsolidatedPrice db Venue) : Prop where
  instrument : row.instrument = row'.instrument
  mid : |row.mid.value - row'.mid.value| ≤ 1 / 10 ^ 10
  bid : |row.bid.value - row'.bid.value| ≤ 1 / 10 ^ 10
  ask : |row.ask.value - row'.ask.value| ≤ 1 / 10 ^ 10
  sources : row.sources = row'.sources
  timestamp : row.timestamp = row'.timestamp

/-- The rows are the same up to one unit of the last place in the basis points. -/
structure NearSignal (row row' : ArbitrageOpportunity db Venue) : Prop where
  rest : { row with spreadBps := row'.spreadBps } = row'
  spreadBps : |row.spreadBps.value - row'.spreadBps.value| ≤ 1 / 10 ^ 4

/-- The same act, perhaps with other digits. -/
inductive NearEffect : Effect db Venue → Effect db Venue → Prop where
  | same (w : Effect db Venue) : NearEffect w w
  | price {row row' : ConsolidatedPrice db Venue} (h : NearRow row row') :
      NearEffect (.insert (.consolidated row)) (.insert (.consolidated row'))
  | signal {row row' : ArbitrageOpportunity db Venue} (h : NearSignal row row') :
      NearEffect (.insert (.arbitrage row)) (.insert (.arbitrage row'))
  | cached (key : Str) {s s' : Snapshot Venue} (h : NearSnapshot s s') :
      NearEffect (.cacheSet key s) (.cacheSet key s')
  | sent (group instrument : Str) {s s' : Snapshot Venue} (h : NearSnapshot s s') :
      NearEffect (.groupSend group instrument s) (.groupSend group instrument s')

/-- The two programs do the same things up to digits, and end alike. -/
abbrev SameRun {α : Type} (x y : Task db Venue α) : Prop := Traced.Lockstep NearEffect Eq x y

theorem SameRun.refl {α : Type} (x : Task db Venue α) : SameRun x x := by
  obtain ⟨htrace, hends⟩ := Traced.Lockstep.refl NearEffect.same x
  refine ⟨htrace, ?_⟩
  cases hresult : x.result with
  | error e => exact .error e
  | ok a => exact .ok rfl

/-! ### Rows -/

/-- Between columns that round to the nearest, close numbers are stored at most one unit apart. -/
theorem stored_near (hnearest : db.price.IsNearest) {x y : ℚ} (h : |x - y| ≤ 1 / (2 * 10 ^ 14)) :
    |(priceColumn db).round x - (priceColumn db).round y| ≤ 1 / 10 ^ 10 := by
  have hclose : |x - (y - 0)| < 1 / (2 * 10 ^ 10) := by
    rw [sub_zero]
    refine h.trans_lt ?_
    norm_num
  have hsub := hnearest.sub_le hclose
  rwa [db.price.round_zero, sub_zero] at hsub

theorem storeBook_near {round : Round Venue} {symbol : Str} {c c' : Consolidated Venue}
    (hnearest : db.price.IsNearest) (h : NearBook c c') (hfits : c.Fits db) (hfits' : c'.Fits db) :
    EndAlike NearRow (storeBook db round symbol c) (storeBook db round.unrounded symbol c') := by
  obtain ⟨row, hrow⟩ : ∃ row, storeBook db round symbol c = .ok row :=
    exists_consolidatedPrice_iff.mpr hfits
  obtain ⟨row', hrow'⟩ : ∃ row, storeBook db round.unrounded symbol c' = .ok row :=
    exists_consolidatedPrice_iff.mpr hfits'
  rw [hrow, hrow']
  obtain ⟨m, b, a, hm, hb, ha, rfl⟩ := ConsolidatedPrice.create_eq_ok.mp hrow
  obtain ⟨m', b', a', hm', hb', ha', rfl⟩ := ConsolidatedPrice.create_eq_ok.mp hrow'
  refine .ok ⟨rfl, ?_, ?_, ?_, h.sources, rfl⟩
  · rw [writeDecimal_value hm, writeDecimal_value hm']
    exact stored_near hnearest h.mid
  · rw [writeDecimal_value hb, writeDecimal_value hb']
    exact stored_near hnearest h.bid
  · rw [writeDecimal_value ha, writeDecimal_value ha']
    exact stored_near hnearest h.ask

theorem fits_bps {i : ℤ} (hi : |i| ≤ 10 ^ 9) :
    (bpsColumn db).Fits (i / 10 ^ 4) ∧ (bpsColumn db).round (i / 10 ^ 4) = i / 10 ^ 4 := by
  have hround : (bpsColumn db).round (i / 10 ^ 4) = i / 10 ^ 4 := db.bps.fixes i
  refine ⟨?_, hround⟩
  have hcast : |(i : ℚ)| ≤ 10 ^ 9 := by exact_mod_cast hi
  unfold NumericColumn.Fits
  rw [hround, abs_div, abs_of_pos (by norm_num : (0 : ℚ) < 10 ^ 4), div_lt_iff₀ (by norm_num)]
  refine hcast.trans_lt ?_
  norm_num [NumericColumn.limit, bpsColumn]

theorem storeArbitrage_near {round : Round Venue} {symbol : Str} [DecidableEq Venue]
    {quotes : List (Quote Venue)} {arb : Arbitrage Venue}
    (hfound : widestCrossing .exact quotes = some arb) (hfits : arb.Fits db) :
    EndAlike NearSignal (storeArbitrage db round symbol arb.rounded)
      (storeArbitrage db round.unrounded symbol arb) := by
  obtain ⟨⟨hnonneg, hlt⟩, hclose⟩ := abs_rounded_sub_le hfound
  obtain ⟨i, j, hi, hj, hij, hiBound, hjBound⟩ := quantizeBps_near hnonneg hlt hclose
  obtain ⟨hbuy, hsell, hspread, _⟩ := hfits
  obtain ⟨hiFits, hiRound⟩ : (bpsColumn db).Fits (i / 10 ^ 4) ∧ _ := fits_bps hiBound
  obtain ⟨hjFits, hjRound⟩ : (bpsColumn db).Fits (j / 10 ^ 4) ∧ _ := fits_bps hjBound
  have hrow : ∀ (r : Round Venue) (arb' : Arbitrage Venue) (bps : ℚ) (h : (bpsColumn db).Fits bps),
      quantizeBps arb'.spreadBps = .ok bps → arb' = { arb with spreadBps := arb'.spreadBps } →
      storeArbitrage db r symbol arb' = .ok ⟨symbol, arb.buyVenue, (priceColumn db).put _ hbuy,
        arb.sellVenue, (priceColumn db).put _ hsell, (priceColumn db).put _ hspread,
        (bpsColumn db).put _ h, r.clock.signalled symbol⟩ := by
    intro r arb' bps h hbps harb
    rw [harb]
    exact bind_eq_ok.mpr ⟨bps, hbps, bind_eq_ok.mpr ⟨_, writeDecimal_of_storable hbuy,
      bind_eq_ok.mpr ⟨_, writeDecimal_of_storable hsell, bind_eq_ok.mpr ⟨_,
        writeDecimal_of_storable hspread, bind_eq_ok.mpr ⟨_, writeDecimal_of_storable h, rfl⟩⟩⟩⟩⟩
  rw [hrow round arb.rounded _ hiFits hi rfl, hrow round.unrounded arb _ hjFits hj rfl]
  refine .ok ⟨rfl, ?_⟩
  have hdiff : (i : ℚ) / 10 ^ 4 - j / 10 ^ 4 = ((i - j : ℤ) : ℚ) / 10 ^ 4 := by
    push_cast
    ring
  have hcast : |((i - j : ℤ) : ℚ)| ≤ 1 := by exact_mod_cast hij
  rw [NumericColumn.put_value, NumericColumn.put_value, hiRound, hjRound, hdiff, abs_div,
    abs_of_pos (by norm_num : (0 : ℚ) < 10 ^ 4)]
  exact div_le_div_of_nonneg_right hcast (by norm_num)

/-! ### The turn of an instrument -/

section Turn

variable {round : Round Venue} {symbol : Str}

theorem sameRun_sideCall (call : SideCall) {w w' : Effect db Venue} (h : NearEffect w w') :
    SameRun (sideCall round call w) (sideCall round.unrounded call w') := by
  have hside : round.unrounded.side = round.side := rfl
  unfold sideCall
  rw [hside]
  cases round.side call with
  | none => exact Traced.lockstep_emit h
  | some e => exact Traced.lockstep_raise e

theorem sameRun_publishConsolidated {c c' : Consolidated Venue} (hnearest : db.price.IsNearest)
    (h : NearBook c c') (hfits : c.Fits db) (hfits' : c'.Fits db) :
    SameRun (publishConsolidated round symbol c : Task db Venue Unit)
      (publishConsolidated round.unrounded symbol c') := by
  have hsnapshot : NearSnapshot (snapshotOf round symbol c) (snapshotOf round.unrounded symbol c') :=
    ⟨h.mid, h.bid, h.ask, h.sources, rfl⟩
  have hstored : EndAlike NearRow (storeBook db round symbol c)
      (storeBook db round.unrounded symbol c') := storeBook_near hnearest h hfits hfits'
  refine (Traced.lockstep_ofExcept hstored).bind fun row row' hrow => ?_
  refine (Traced.lockstep_emit (.price hrow)).bind fun _ _ _ => ?_
  refine (SameRun.refl _).bind fun _ _ _ => ?_
  refine (sameRun_sideCall _ (.cached _ hsnapshot)).bind fun _ _ _ => ?_
  have hlayer : round.unrounded.hasLayer = round.hasLayer := rfl
  unfold broadcastWs
  rw [hlayer]
  split_ifs
  · exact sameRun_sideCall _ (.sent _ _ hsnapshot)
  · exact SameRun.refl _

theorem recordArbitrage_eq (round : Round Venue) (symbol : Str) (arb : Arbitrage Venue) :
    (recordArbitrage round symbol arb : Task db Venue Unit) =
      Traced.ofExcept (storeArbitrage db round symbol arb) >>= fun row =>
        Traced.emit (.insert (.arbitrage row)) >>= fun _ =>
          Traced.emit (.inc (.arbitrageDetected symbol arb.buyVenue arb.sellVenue)) := by
  unfold recordArbitrage storeArbitrage
  cases quantizeBps arb.spreadBps <;> rfl

variable [LinearOrder Venue]

theorem sameRun_signalArbitrage (hctx : round.ctx = .default) {quotes : List (Quote Venue)}
    (hexact : ∀ q ∈ quotes, ExactQuote db q) (counts : Counts) :
    SameRun (signalArbitrage round counts symbol quotes : Task db Venue Counts)
      (signalArbitrage round.unrounded counts symbol quotes) := by
  have hexactCtx : round.unrounded.ctx = .exact := rfl
  have hfits : ∀ q ∈ quotes, (priceColumn db).Fits q.bid ∧ (priceColumn db).Fits q.ask :=
    fun q hq => ⟨(hexact q hq).1.fits, (hexact q hq).2.fits⟩
  unfold signalArbitrage
  rw [hctx, hexactCtx, detectArbitrage_default hexact, detectArbitrage_exact_eq]
  cases hfound : widestCrossing .exact quotes with
  | none => exact SameRun.refl _
  | some arb =>
      have hstored : EndAlike NearSignal (storeArbitrage db round symbol arb.rounded)
          (storeArbitrage db round.unrounded symbol arb) :=
        storeArbitrage_near hfound (arbitrage_fits hfits hfound)
      have hrecord : SameRun (recordArbitrage round symbol arb.rounded : Task db Venue Unit)
          (recordArbitrage round.unrounded symbol arb) := by
        rw [recordArbitrage_eq, recordArbitrage_eq]
        refine (Traced.lockstep_ofExcept hstored).bind fun row row' hrow => ?_
        exact (Traced.lockstep_emit (.signal hrow)).bind fun _ _ _ => SameRun.refl _
      exact hrecord.bind fun _ _ _ => SameRun.refl _

theorem sameRun_consolidateQuotes (hnearest : db.price.IsNearest) (hctx : round.ctx = .default)
    {quotes : List (Quote Venue)} (hexact : ∀ q ∈ quotes, ExactQuote db q)
    (hcount : quotes.length ≤ 1000) (counts : Counts) :
    SameRun (consolidateQuotes round counts symbol quotes : Task db Venue Counts)
      (consolidateQuotes round.unrounded counts symbol quotes) := by
  have hsame : round.unrounded.ctx = .exact ∧ round.unrounded.maxAge = round.maxAge ∧
      round.unrounded.clock = round.clock := ⟨rfl, rfl, rfl⟩
  unfold consolidateQuotes
  rw [hctx, hsame.1, hsame.2.1, hsame.2.2]
  rcases consolidate_default hexact hcount with ⟨hnone, hnone'⟩ |
    ⟨c, c', hsome, hsome', hnear, ⟨hfits, hfits'⟩, _, _⟩
  · rw [hnone, hnone']
    exact SameRun.refl _
  · rw [hsome, hsome']
    exact (sameRun_publishConsolidated hnearest hnear hfits hfits').bind fun _ _ _ =>
      sameRun_signalArbitrage hctx hexact _

omit [LinearOrder Venue] in
theorem length_roundQuotes_le (round : Round Venue) (symbol : Str) :
    (roundQuotes round symbol).length ≤ round.clients.length := by
  rw [← List.length_zipIdx (l := round.clients) (i := 0)]
  exact List.length_filterMap_le _ _

theorem sameRun_fetchInstrument (hnearest : db.price.IsNearest) (hctx : round.ctx = .default)
    (hcount : round.clients.length ≤ 1000) {instrument : Instrument}
    (hexact : ∀ q ∈ roundQuotes round instrument.symbol, ExactQuote db q) (counts : Counts) :
    SameRun (fetchInstrument round counts instrument : Task db Venue Counts)
      (fetchInstrument round.unrounded counts instrument) := by
  refine (Traced.Lockstep.refl NearEffect.same _).bind fun polled polled' hpolled => ?_
  obtain ⟨rfl, hreturns⟩ := hpolled
  obtain ⟨_, rfl⟩ := returns_pollClients hreturns
  exact sameRun_consolidateQuotes hnearest hctx hexact ((length_roundQuotes_le _ _).trans hcount) _

end Turn

/-! ### The round -/

section Round

variable [LinearOrder Venue] {round : Round Venue} {instruments : InstrumentTable}

/-- **Rounding decides nothing.** -/
theorem rounding_decides_nothing (hnearest : db.price.IsNearest) (hctx : round.ctx = .default)
    (hcount : round.clients.length ≤ 1000)
    (hexact : ∀ symbol ∈ round.configured, ∀ q ∈ roundQuotes round symbol, ExactQuote db q) :
    (fetchQuotes round instruments : _ × Task db Venue Counts).1 =
        (fetchQuotes round.unrounded instruments : _ × Task db Venue Counts).1 ∧
      SameRun ((fetchQuotes round instruments).2 : Task db Venue Counts)
        (fetchQuotes round.unrounded instruments).2 ∧
      ∀ symbol ∈ round.configured, ∀ bestBid bestAsk,
        IsBest (candidates round.maxAge (round.clock.checked symbol) (roundQuotes round symbol))
          bestBid bestAsk → bestBid ≤ bestAsk →
        roundBook round symbol = roundBook round.unrounded symbol := by
  have hcreate : createInstruments round.unrounded instruments =
      createInstruments round instruments := rfl
  refine ⟨?_, ?_, fun symbol hsymbol bestBid bestAsk hbest hle => ?_⟩
  · unfold fetchQuotes
    rw [hcreate]
    cases createInstruments round instruments <;> rfl
  · unfold fetchQuotes
    rw [hcreate]
    cases createInstruments round instruments with
    | error e => exact Traced.lockstep_raise e
    | ok created =>
        refine Traced.Lockstep.loop (fun instrument hmem counts counts' hsame => ?_) rfl
        rw [← hsame]
        refine sameRun_fetchInstrument hnearest hctx hcount (hexact _ ?_) counts
        have hlisted := List.mem_mergeSort.mp hmem
        simpa using (Bool.and_eq_true_iff.mp (List.mem_filter.mp hlisted).2).2
  · have hbooks : roundBook round.unrounded symbol = consolidate .exact round.maxAge
        (round.clock.checked symbol) (roundQuotes round symbol) := rfl
    rw [hbooks, roundBook, hctx]
    have hlength := (length_roundQuotes_le round symbol).trans hcount
    rcases consolidate_default (hexact symbol hsymbol) hlength with ⟨hnone, hnone'⟩ |
      ⟨c, c', hsome, hsome', _, _, _, hplain⟩
    · rw [hnone, hnone']
    · rw [hsome, hsome', hplain bestBid bestAsk hbest hle]

end Round

/-! ### A mean that does not end -/

/-- Three venues, crossed, whose mids add up to 301. -/
def thirdsRound : Round ℕ where
  ctx := .default
  upper s := s
  collate a b := decide (a ≤ b)
  configured := [Str.ofString "BTC-USD"]
  maxAge := 30
  clients := [⟨0, fun _ => some (.finite 101, .finite 102)⟩,
    ⟨1, fun _ => some (.finite 99, .finite 100)⟩, ⟨2, fun _ => some (.finite 100, .finite 100)⟩]
  clock := ⟨fun _ _ => 0, fun _ _ => 0, fun _ => 0, fun _ => 0⟩
  hasLayer := true
  side _ := none

/-- The two mids differ, and nothing else comes of it. -/
theorem thirdsRound_decides_nothing :
    roundBook thirdsRound (Str.ofString "BTC-USD") ≠
        roundBook thirdsRound.unrounded (Str.ofString "BTC-USD") ∧
      SameRun ((fetchQuotes thirdsRound KeyedTable.empty).2 : Task .postgres ℕ Counts)
        (fetchQuotes thirdsRound.unrounded KeyedTable.empty).2 := by
  refine ⟨by decide +kernel, (rounding_decides_nothing isNearest_postgres rfl ?_ ?_).2.1⟩
  · decide
  · decide +kernel

end Pricestream
