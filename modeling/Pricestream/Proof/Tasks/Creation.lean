import Pricestream.Tasks

/-!
# Which instruments a round visits

A round begins by creating the configured instruments, all in one statement after all of them were
parsed, so a single symbol that is malformed or does not fit its columns ends the round before
anything is written. Otherwise the symbols visited are the configured ones that no inactive row was
there for: a row that was there keeps its place, and a new one is active.
-/

namespace Pricestream

open Library Python

/-! ### Columns -/

theorem charField_of_fits {n : ℕ} {s : Str} (htext : IsText s) (hlength : s.length ≤ n) :
    charField n s = .ok s := by
  simp only [charField, textParam_of_isText htext, bind, Except.bind]
  exact if_pos hlength

theorem charField_of_not_fits {n : ℕ} {s : Str} (h : ¬ (IsText s ∧ s.length ≤ n)) :
    ∃ e, charField n s = .error e := by
  by_cases htext : IsText s
  · have hlength : ¬ s.length ≤ n := fun hle => h ⟨htext, hle⟩
    simp only [charField, textParam_of_isText htext, bind, Except.bind]
    exact ⟨_, if_neg hlength⟩
  · obtain ⟨e, he⟩ := textParam_of_not_isText htext
    exact ⟨e, by simp only [charField, he, bind, Except.bind]⟩

structure Instrument.Fits (instrument : Instrument) : Prop where
  symbol : IsText instrument.symbol ∧ instrument.symbol.length ≤ 20
  base : IsText instrument.base ∧ instrument.base.length ≤ 10
  quote : IsText instrument.quote ∧ instrument.quote.length ≤ 10

instance (instrument : Instrument) : Decidable instrument.Fits :=
  decidable_of_iff ((IsText instrument.symbol ∧ instrument.symbol.length ≤ 20) ∧
      (IsText instrument.base ∧ instrument.base.length ≤ 10) ∧
      IsText instrument.quote ∧ instrument.quote.length ≤ 10)
    ⟨fun h => ⟨h.1, h.2.1, h.2.2⟩, fun h => ⟨h.symbol, h.base, h.quote⟩⟩

theorem Instrument.create_of_fits {instrument : Instrument} (h : instrument.Fits) :
    instrument.create = .ok instrument := by
  simp only [Instrument.create, charField_of_fits h.symbol.1 h.symbol.2,
    charField_of_fits h.base.1 h.base.2, charField_of_fits h.quote.1 h.quote.2, bind, Except.bind]
  rfl

theorem Instrument.create_of_not_fits {instrument : Instrument} (h : ¬ instrument.Fits) :
    ∃ e, instrument.create = .error e := by
  by_cases hsymbol : IsText instrument.symbol ∧ instrument.symbol.length ≤ 20
  · by_cases hbase : IsText instrument.base ∧ instrument.base.length ≤ 10
    · obtain ⟨e, he⟩ := charField_of_not_fits fun hquote => h ⟨hsymbol, hbase, hquote⟩
      exact ⟨e, by simp only [Instrument.create, charField_of_fits hsymbol.1 hsymbol.2,
        charField_of_fits hbase.1 hbase.2, he, bind, Except.bind]⟩
    · obtain ⟨e, he⟩ := charField_of_not_fits hbase
      exact ⟨e, by simp only [Instrument.create, charField_of_fits hsymbol.1 hsymbol.2, he, bind,
        Except.bind]⟩
  · obtain ⟨e, he⟩ := charField_of_not_fits hsymbol
    exact ⟨e, by simp only [Instrument.create, he, bind, Except.bind]⟩

/-! ### Symbols -/

variable {Venue : Type} {round : Round Venue} {instruments : InstrumentTable}

/-- The instrument a symbol stands for, split at its first hyphen. -/
def parsed (upper : Str → Str) (symbol : Str) : Instrument :=
  ⟨symbol, upper (partition symbol).1, upper (partition symbol).2, true⟩

/-- A symbol that can be created: it has a quote part, and its texts fit. -/
structure Listable (upper : Str → Str) (symbol : Str) : Prop where
  quote_ne : (partition symbol).2 ≠ []
  fits : (parsed upper symbol).Fits

instance (upper : Str → Str) : DecidablePred (Listable upper) := fun symbol =>
  decidable_of_iff ((partition symbol).2 ≠ [] ∧ (parsed upper symbol).Fits)
    ⟨fun h => ⟨h.1, h.2⟩, fun h => ⟨h.quote_ne, h.fits⟩⟩

theorem newInstrument_of_quote {upper : Str → Str} {symbol : Str} (h : (partition symbol).2 ≠ []) :
    newInstrument upper symbol = .ok (parsed upper symbol) := by
  simp only [newInstrument, Instrument.parseSymbol, if_neg h]
  rfl

theorem newInstrument_of_no_quote {upper : Str → Str} {symbol : Str} (h : (partition symbol).2 = []) :
    newInstrument upper symbol = .error .valueError := by
  simp only [newInstrument, Instrument.parseSymbol, if_pos h]
  rfl

def Round.created (round : Round Venue) (instruments : InstrumentTable) : InstrumentTable :=
  instruments.insertNew (round.configured.map (parsed round.upper))

theorem createInstruments_of_listable (h : ∀ symbol ∈ round.configured, Listable round.upper symbol) :
    createInstruments round instruments = .ok (round.created instruments) := by
  have hparse : round.configured.mapM (newInstrument round.upper) =
      .ok (round.configured.map (parsed round.upper)) :=
    mapM_eq_ok fun symbol hsymbol => newInstrument_of_quote (h symbol hsymbol).quote_ne
  have hcreate : (round.configured.map (parsed round.upper)).mapM Instrument.create =
      .ok ((round.configured.map (parsed round.upper)).map id) := by
    refine mapM_eq_ok fun instrument hinstrument => ?_
    obtain ⟨symbol, hsymbol, rfl⟩ := List.mem_map.mp hinstrument
    exact Instrument.create_of_fits (h symbol hsymbol).fits
  rw [List.map_id] at hcreate
  simp only [createInstruments, hparse, bulkCreate, hcreate, bind, Except.bind]
  rfl

theorem createInstruments_of_not_listable
    (h : ¬ ∀ symbol ∈ round.configured, Listable round.upper symbol) :
    ∃ e, createInstruments round instruments = .error e := by
  by_cases hquotes : ∀ symbol ∈ round.configured, (partition symbol).2 ≠ []
  · have hparse : round.configured.mapM (newInstrument round.upper) =
        .ok (round.configured.map (parsed round.upper)) :=
      mapM_eq_ok fun symbol hsymbol => newInstrument_of_quote (hquotes symbol hsymbol)
    obtain ⟨e, he⟩ : ∃ e, (round.configured.map (parsed round.upper)).mapM Instrument.create =
        .error e := by
      push Not at h
      obtain ⟨symbol, hsymbol, hnot⟩ := h
      have hunfit : ¬ (parsed round.upper symbol).Fits := fun hfits =>
        hnot ⟨hquotes symbol hsymbol, hfits⟩
      exact exists_mapM_eq_error ⟨_, List.mem_map_of_mem hsymbol, Instrument.create_of_not_fits hunfit⟩
    exact ⟨e, by simp only [createInstruments, hparse, bulkCreate, he, bind, Except.bind]⟩
  · push Not at hquotes
    obtain ⟨symbol, hsymbol, hnone⟩ := hquotes
    obtain ⟨e, he⟩ : ∃ e, round.configured.mapM (newInstrument round.upper) = .error e :=
      exists_mapM_eq_error ⟨symbol, hsymbol, _, newInstrument_of_no_quote hnone⟩
    exact ⟨e, by simp only [createInstruments, he, bind, Except.bind]⟩

/-! ### How a round begins -/

theorem fetchQuotes_of_listable [LinearOrder Venue] {db : Engine}
    (h : ∀ symbol ∈ round.configured, Listable round.upper symbol) :
    (fetchQuotes round instruments : _ × Task db Venue Counts) =
      (round.created instruments,
        Traced.loop (fetchInstrument round) ⟨0, 0, 0⟩
          (round.instruments (round.created instruments))) := by
  simp only [fetchQuotes, createInstruments_of_listable h]

theorem fetchQuotes_of_not_listable [LinearOrder Venue] {db : Engine}
    (h : ¬ ∀ symbol ∈ round.configured, Listable round.upper symbol) :
    ∃ e, (fetchQuotes round instruments : _ × Task db Venue Counts) =
      (instruments, Traced.raise e) := by
  obtain ⟨e, he⟩ : ∃ e, createInstruments round instruments = .error e :=
    createInstruments_of_not_listable h
  exact ⟨e, by simp only [fetchQuotes, he]⟩

/-! ### The instruments visited -/

theorem mem_instruments {instrument : Instrument} :
    instrument ∈ round.instruments instruments ↔ instrument ∈ instruments.rows ∧
      instrument.isActive = true ∧ instrument.symbol ∈ round.configured := by
  rw [Round.instruments, List.mem_mergeSort, List.mem_filter, Bool.and_eq_true,
    List.contains_iff_mem]

/-- A configured symbol that no inactive instrument has. -/
def Visited (round : Round Venue) (instruments : InstrumentTable) (symbol : Str) : Prop :=
  symbol ∈ round.configured ∧ ∀ row, instruments.get? symbol = some row → row.isActive = true

theorem exists_created (round : Round Venue) (instruments : InstrumentTable) {symbol : Str}
    (h : symbol ∈ round.configured) :
    ∃ row, (round.created instruments).get? symbol = some row ∧
      (instruments.get? symbol = some row ∨
        instruments.get? symbol = none ∧ row.isActive = true) := by
  rw [Round.created, KeyedTable.get?_insertNew]
  cases hget : instruments.get? symbol with
  | some row => exact ⟨row, rfl, Or.inl rfl⟩
  | none =>
      obtain ⟨row, hrow⟩ : ∃ row, (round.configured.map (parsed round.upper)).find?
          (fun row => row.symbol = symbol) = some row := by
        rw [← Option.isSome_iff_exists, List.find?_isSome]
        exact ⟨parsed round.upper symbol, List.mem_map_of_mem h, by simp [parsed]⟩
      obtain ⟨s, _, rfl⟩ := List.mem_map.mp (List.mem_of_find?_eq_some hrow)
      exact ⟨_, hrow, Or.inr ⟨rfl, rfl⟩⟩

/-- **The symbols visited.** -/
theorem exists_mem_instruments_iff {symbol : Str} :
    (∃ instrument ∈ round.instruments (round.created instruments), instrument.symbol = symbol) ↔
      Visited round instruments symbol := by
  constructor
  · rintro ⟨instrument, hmem, rfl⟩
    obtain ⟨hrow, hactive, hconfigured⟩ := mem_instruments.mp hmem
    refine ⟨hconfigured, fun row hget => ?_⟩
    obtain ⟨found, hfound, hold | ⟨hnone, _⟩⟩ := exists_created round instruments hconfigured
    · have hsame : found = instrument :=
        Option.some.inj (hfound.symm.trans (KeyedTable.get?_of_mem_rows hrow))
      obtain rfl := Option.some.inj (hget.symm.trans hold)
      exact hsame ▸ hactive
    · rw [hnone] at hget
      cases hget
  · rintro ⟨hconfigured, hactive⟩
    obtain ⟨row, hrow, horigin⟩ := exists_created round instruments hconfigured
    have hsymbol : row.symbol = symbol := KeyedTable.key_of_get? hrow
    have hon : row.isActive = true := horigin.elim (hactive row) And.right
    exact ⟨row, mem_instruments.mpr ⟨KeyedTable.mem_rows_of_get? hrow, hon, hsymbol ▸ hconfigured⟩,
      hsymbol⟩

end Pricestream
