import Pricestream.Commands
import Pricestream.Proof.Tasks.Creation

/-!
# Two ways of creating the instruments

A round creates the configured instruments in one statement, the command creates them one by one. On a
list without malformed symbols both come to the same: every symbol that is missing is added once, with
its two parts, and a row that is there stays as it is. A malformed symbol makes both raise, but at
different moments: the round writes nothing before it has parsed everything, the command has by then
written what comes before the symbol.
-/

namespace Pricestream

open Library Python

variable {upper : Str → Str} {instruments : InstrumentTable} {configured : List Str}

/-! ### Symbols -/

/-- A symbol without a quote part, or one that is no text for the database. -/
def Malformed (symbol : Str) : Prop := (partition symbol).2 = [] ∨ ¬ IsText symbol

/-- A symbol and its two parts are no longer than their columns. -/
structure WithinColumns (upper : Str → Str) (symbol : Str) : Prop where
  symbol_length : symbol.length ≤ 20
  base_length : (upper (partition symbol).1).length ≤ 10
  quote_length : (upper (partition symbol).2).length ≤ 10

theorem isText_iff {s : Str} : IsText s ↔ ∀ c ∈ s, Str.isSurrogate c = false ∧ c ≠ 0 := by
  have hnul : s.contains 0 = false ↔ ∀ c ∈ s, c ≠ 0 := by
    rw [← Bool.not_eq_true, List.contains_iff_mem]
    exact ⟨fun h c hc hzero => h (hzero ▸ hc), fun h hc => h 0 hc rfl⟩
  have hsurrogate : s.any Str.isSurrogate = false ↔ ∀ c ∈ s, Str.isSurrogate c = false := by
    simp only [List.any_eq_false, Bool.not_eq_true]
  rw [IsText, hsurrogate, hnul]
  exact ⟨fun h c hc => ⟨h.1 c hc, h.2 c hc⟩, fun h => ⟨fun c hc => (h c hc).1, fun c hc => (h c hc).2⟩⟩

theorem listable_of_not_malformed (hupper : ∀ s, IsText s → IsText (upper s)) {symbol : Str}
    (hcolumns : WithinColumns upper symbol) (h : ¬ Malformed symbol) : Listable upper symbol := by
  obtain ⟨hquote, htext⟩ := not_or.mp h
  rw [not_not] at htext
  have hbase : IsText (partition symbol).1 :=
    isText_iff.mpr fun c hc => isText_iff.mp htext c (List.takeWhile_subset _ hc)
  have hrest : IsText (partition symbol).2 := isText_iff.mpr fun c hc =>
    isText_iff.mp htext c ((List.dropWhile_sublist _).mem (List.mem_of_mem_drop hc))
  exact ⟨hquote, ⟨htext, hcolumns.symbol_length⟩, ⟨hupper _ hbase, hcolumns.base_length⟩,
    ⟨hupper _ hrest, hcolumns.quote_length⟩⟩

theorem Malformed.not_listable {symbol : Str} (h : Malformed symbol) : ¬ Listable upper symbol := by
  intro hlist
  rcases h with hquote | htext
  · exact hlist.quote_ne hquote
  · exact htext hlist.fits.symbol.1

/-! ### The command -/

theorem bootstrapSymbol_of_listable {symbol : Str} (h : Listable upper symbol) :
    bootstrapSymbol upper symbol instruments =
      .ok ((instruments.insert (parsed upper symbol)).getD instruments,
        (instruments.get? symbol).isNone) := by
  have hparse : newInstrument upper symbol = .ok (parsed upper symbol) :=
    newInstrument_of_quote h.quote_ne
  have htext : textParam (parsed upper symbol).symbol = .ok symbol :=
    textParam_of_isText h.fits.symbol.1
  simp only [bootstrapSymbol, getOrCreateInstrument, hparse, htext, bind, Except.bind]
  cases hget : instruments.get? symbol with
  | some row =>
      have htaken : (instruments.get? (parsed upper symbol).symbol).isSome := Option.isSome_of_eq_some hget
      rw [KeyedTable.getD_insert_of_isSome htaken]
      rfl
  | none =>
      have hfree : instruments.get? (parsed upper symbol).symbol = none := hget
      simp only [Instrument.create_of_fits h.fits, KeyedTable.insert_eq_some hfree, orRaise_some]
      rfl

theorem exists_bootstrapSymbol_of_malformed (upper : Str → Str) {symbol : Str} (h : Malformed symbol) :
    ∃ e, ∀ instruments, bootstrapSymbol upper symbol instruments = .error e := by
  by_cases hquote : (partition symbol).2 = []
  · refine ⟨.valueError, fun instruments => ?_⟩
    simp only [bootstrapSymbol, newInstrument_of_no_quote hquote, bind, Except.bind]
  · obtain ⟨e, he⟩ := textParam_of_not_isText (h.resolve_left hquote)
    have hparse : newInstrument upper symbol = .ok (parsed upper symbol) :=
      newInstrument_of_quote hquote
    have htext : textParam (parsed upper symbol).symbol = .error e := he
    refine ⟨e, fun instruments => ?_⟩
    simp only [bootstrapSymbol, getOrCreateInstrument, hparse, htext, bind, Except.bind]

theorem bootstrapLoop_append {front : List Str} (h : ∀ symbol ∈ front, Listable upper symbol)
    (rest : List Str) (created : ℕ) (instruments : InstrumentTable) :
    ∃ n, bootstrapLoop upper (front ++ rest) created instruments =
        bootstrapLoop upper rest (created + n) (instruments.insertNew (front.map (parsed upper))) ∧
      (instruments.insertNew (front.map (parsed upper)) = instruments → n = 0) := by
  induction front generalizing created instruments with
  | nil => exact ⟨0, rfl, fun _ => rfl⟩
  | cons symbol front ih =>
      have hfront := fun s hs => h s (List.mem_cons_of_mem _ hs)
      have hsymbol : bootstrapSymbol upper symbol instruments =
          .ok ((instruments.insert (parsed upper symbol)).getD instruments,
            (instruments.get? symbol).isNone) :=
        bootstrapSymbol_of_listable (h symbol List.mem_cons_self)
      have hcons : instruments.insertNew ((symbol :: front).map (parsed upper)) =
          ((instruments.insert (parsed upper symbol)).getD instruments).insertNew
            (front.map (parsed upper)) := rfl
      rw [List.cons_append, hcons]
      simp only [bootstrapLoop, hsymbol]
      cases hget : instruments.get? symbol with
      | some row =>
          have htaken : (instruments.get? (parsed upper symbol).symbol).isSome :=
            Option.isSome_of_eq_some hget
          rw [KeyedTable.getD_insert_of_isSome htaken]
          exact ih hfront created instruments
      | none =>
          obtain ⟨n, hn, _⟩ := ih hfront (created + 1)
            ((instruments.insert (parsed upper symbol)).getD instruments)
          refine ⟨n + 1, ?_, fun hsame => ?_⟩
          · rw [← Nat.add_assoc, Nat.add_right_comm]
            exact hn
          · rw [← hcons, KeyedTable.insertNew_eq_self_iff] at hsame
            have htaken := hsame (parsed upper symbol) List.mem_cons_self
            have hfree : instruments.get? (parsed upper symbol).symbol = none := hget
            rw [hfree] at htaken
            cases htaken

theorem bootstrapInstruments_of_listable (h : ∀ symbol ∈ configured, Listable upper symbol)
    (instruments : InstrumentTable) :
    ∃ created, bootstrapInstruments upper configured instruments =
        (instruments.insertNew (configured.map (parsed upper)), .ok (created, configured.length)) ∧
      (instruments.insertNew (configured.map (parsed upper)) = instruments → created = 0) := by
  obtain ⟨n, hloop, hzero⟩ := bootstrapLoop_append h [] 0 instruments
  rw [List.append_nil] at hloop
  refine ⟨0 + n, ?_, fun hsame => by rw [hzero hsame]⟩
  rw [bootstrapInstruments, hloop]
  rfl

theorem exists_bootstrapInstruments_of_malformed {front : List Str} {bad : Str}
    (h : ∀ symbol ∈ front, Listable upper symbol) (hbad : Malformed bad) (back : List Str) :
    ∃ e, ∀ instruments, bootstrapInstruments upper (front ++ bad :: back) instruments =
      (instruments.insertNew (front.map (parsed upper)), .error e) := by
  obtain ⟨e, he⟩ := exists_bootstrapSymbol_of_malformed upper hbad
  refine ⟨e, fun instruments => ?_⟩
  obtain ⟨n, hloop, _⟩ := bootstrapLoop_append h (bad :: back) 0 instruments
  rw [bootstrapInstruments, hloop]
  simp only [bootstrapLoop, he]
  rfl

/-! ### Both ways -/

/-- The missing ones of some symbols were added, and nothing else changed. -/
structure Adds (upper : Str → Str) (symbols : List Str) (before after : InstrumentTable) : Prop where
  added : ∀ symbol ∈ symbols, before.get? symbol = none → after.get? symbol = some (parsed upper symbol)
  kept : ∀ symbol row, before.get? symbol = some row → after.get? symbol = some row
  others : ∀ symbol, symbol ∉ symbols → after.get? symbol = before.get? symbol

theorem find?_parsed (upper : Str → Str) (symbols : List Str) (symbol : Str) :
    (symbols.map (parsed upper)).find? (fun row => row.symbol = symbol) =
      if symbol ∈ symbols then some (parsed upper symbol) else none := by
  induction symbols with
  | nil => rfl
  | cons head symbols ih =>
      rw [List.map_cons, List.find?_cons, ih]
      change (match decide (head = symbol) with
        | true => some (parsed upper head)
        | false => if symbol ∈ symbols then some (parsed upper symbol) else none) = _
      by_cases heq : head = symbol
      · simp [heq]
      · simp [heq, Ne.symm heq]

theorem adds_insertNew (upper : Str → Str) (symbols : List Str) (instruments : InstrumentTable) :
    Adds upper symbols instruments (instruments.insertNew (symbols.map (parsed upper))) := by
  constructor
  · intro symbol hsymbol hnone
    rw [KeyedTable.get?_insertNew, hnone, find?_parsed, if_pos hsymbol, Option.none_or]
  · intro symbol row hrow
    rw [KeyedTable.get?_insertNew, hrow, Option.some_or]
  · intro symbol hsymbol
    rw [KeyedTable.get?_insertNew, find?_parsed, if_neg hsymbol, Option.or_none]

theorem created_eq_self_iff {symbols : List Str} :
    instruments.insertNew (symbols.map (parsed upper)) = instruments ↔
      ∀ symbol ∈ symbols, (instruments.get? symbol).isSome := by
  rw [KeyedTable.insertNew_eq_self_iff]
  simp only [List.mem_map, forall_exists_index, and_imp, forall_apply_eq_imp_iff₂]
  exact Iff.rfl

/-- **Two ways of creating the instruments.** -/
theorem creation_paths_agree {Venue : Type} [LinearOrder Venue] (db : Engine) (round : Round Venue)
    (hupper : ∀ s, IsText s → IsText (round.upper s))
    (hcolumns : ∀ symbol ∈ round.configured, WithinColumns round.upper symbol)
    (instruments : InstrumentTable) :
    ((∀ symbol ∈ round.configured, ¬ Malformed symbol) → ∃ after created,
      createInstruments round instruments = .ok after ∧
      (fetchQuotes round instruments : InstrumentTable × Task db Venue Counts).1 = after ∧
      bootstrapInstruments round.upper round.configured instruments =
        (after, .ok (created, round.configured.length)) ∧
      Adds round.upper round.configured instruments after ∧
      createInstruments round after = .ok after ∧
      bootstrapInstruments round.upper round.configured after =
        (after, .ok (0, round.configured.length))) ∧
    ∀ front bad back, round.configured = front ++ bad :: back →
      (∀ symbol ∈ front, ¬ Malformed symbol) → Malformed bad → ∃ after e,
      (∃ e, createInstruments round instruments = .error e) ∧
      (fetchQuotes round instruments : InstrumentTable × Task db Venue Counts).1 = instruments ∧
      bootstrapInstruments round.upper round.configured instruments = (after, .error e) ∧
      Adds round.upper front instruments after ∧
      (after = instruments ↔ ∀ symbol ∈ front, (instruments.get? symbol).isSome) ∧
      (∃ e, createInstruments round after = .error e) ∧
      bootstrapInstruments round.upper round.configured after = (after, .error e) := by
  have hlistable : ∀ symbol ∈ round.configured, ¬ Malformed symbol → Listable round.upper symbol :=
    fun symbol hsymbol => listable_of_not_malformed hupper (hcolumns symbol hsymbol)
  constructor
  · intro hformed
    have hlist : ∀ symbol ∈ round.configured, Listable round.upper symbol := fun symbol hsymbol =>
      hlistable symbol hsymbol (hformed symbol hsymbol)
    have hagain : (round.created instruments).insertNew (round.configured.map (parsed round.upper)) =
        round.created instruments := KeyedTable.insertNew_insertNew _ _
    obtain ⟨created, hboot, _⟩ := bootstrapInstruments_of_listable hlist instruments
    obtain ⟨created', hboot', hzero⟩ :=
      bootstrapInstruments_of_listable hlist (round.created instruments)
    rw [hzero hagain, hagain] at hboot'
    refine ⟨round.created instruments, created, createInstruments_of_listable hlist, ?_, hboot,
      adds_insertNew _ _ _, ?_, hboot'⟩
    · rw [fetchQuotes_of_listable hlist]
    · rw [createInstruments_of_listable hlist]
      exact congrArg Except.ok hagain
  · intro front bad back hsplit hfront hbad
    have hlist : ∀ symbol ∈ front, Listable round.upper symbol := fun symbol hsymbol =>
      hlistable symbol (hsplit ▸ List.mem_append_left _ hsymbol) (hfront symbol hsymbol)
    have hnot : ¬ ∀ symbol ∈ round.configured, Listable round.upper symbol := by
      intro hall
      have hmem : bad ∈ round.configured := hsplit ▸ List.mem_append_right _ List.mem_cons_self
      exact hbad.not_listable (hall bad hmem)
    obtain ⟨e, he⟩ : ∃ e, createInstruments round instruments = .error e :=
      createInstruments_of_not_listable hnot
    obtain ⟨e', hboot⟩ := exists_bootstrapInstruments_of_malformed hlist hbad back
    rw [← hsplit] at hboot
    refine ⟨instruments.insertNew (front.map (parsed round.upper)), e', ⟨e, he⟩, ?_, hboot instruments,
      adds_insertNew _ _ _, created_eq_self_iff, createInstruments_of_not_listable hnot, ?_⟩
    · obtain ⟨_, hquotes⟩ : ∃ e, (fetchQuotes round instruments : _ × Task db Venue Counts) =
          (instruments, Traced.raise e) := fetchQuotes_of_not_listable hnot
      rw [hquotes]
    · rw [hboot, KeyedTable.insertNew_insertNew]

/-! ### Two symbols -/

def listingRound (configured : List Str) : Round ℕ where
  ctx := .exact
  upper := Str.asciiUpper
  collate a b := decide (a ≤ b)
  configured
  maxAge := 30
  clients := []
  clock := ⟨fun _ _ => 0, fun _ _ => 0, fun _ => 0, fun _ => 0⟩
  hasLayer := false
  side _ := none

theorem isText_asciiUpper {s : Str} (h : IsText s) : IsText (Str.asciiUpper s) := by
  apply isText_iff.mpr
  intro c hc
  obtain ⟨c, hmem, rfl⟩ := List.mem_map.mp hc
  have hchar := isText_iff.mp h c hmem
  split_ifs with hlower
  · rw [Bool.and_eq_true, decide_eq_true_eq, decide_eq_true_eq] at hlower
    refine ⟨?_, by omega⟩
    simp only [Str.isSurrogate, Bool.and_eq_false_iff, decide_eq_false_iff_not]
    omega
  · exact hchar

/-- Both ways create a symbol once that is listed twice. -/
theorem repeated_symbol_agrees :
    ∃ after created,
      createInstruments (listingRound [Str.ofString "BTC-usd", Str.ofString "BTC-usd"])
        KeyedTable.empty = .ok after ∧
      bootstrapInstruments Str.asciiUpper [Str.ofString "BTC-usd", Str.ofString "BTC-usd"]
        KeyedTable.empty = (after, .ok (created, 2)) := by
  have hsame : ∀ symbol ∈ [Str.ofString "BTC-usd", Str.ofString "BTC-usd"],
      symbol = Str.ofString "BTC-usd" := by simp
  have hcolumns : ∀ symbol ∈ [Str.ofString "BTC-usd", Str.ofString "BTC-usd"],
      WithinColumns Str.asciiUpper symbol := by
    intro symbol hsymbol
    have hlengths : (Str.ofString "BTC-usd").length ≤ 20 ∧
        (Str.asciiUpper (partition (Str.ofString "BTC-usd")).1).length ≤ 10 ∧
        (Str.asciiUpper (partition (Str.ofString "BTC-usd")).2).length ≤ 10 := by decide
    rw [hsame symbol hsymbol]
    exact ⟨hlengths.1, hlengths.2.1, hlengths.2.2⟩
  have hformed : ∀ symbol ∈ [Str.ofString "BTC-usd", Str.ofString "BTC-usd"], ¬ Malformed symbol := by
    intro symbol hsymbol
    rw [hsame symbol hsymbol, Malformed]
    decide
  obtain ⟨after, created, hcreate, _, hboot, _⟩ := (creation_paths_agree .postgres
    (listingRound [Str.ofString "BTC-usd", Str.ofString "BTC-usd"]) (fun _ => isText_asciiUpper)
      hcolumns KeyedTable.empty).1 hformed
  exact ⟨after, created, hcreate, hboot⟩

/-- A malformed symbol behind a good one: the command has created the good one, the round nothing. -/
theorem malformed_symbol_differs :
    (∃ e, createInstruments (listingRound [Str.ofString "BTC-USD", Str.ofString "BTCUSD"])
      KeyedTable.empty = .error e) ∧
    (fetchQuotes (listingRound [Str.ofString "BTC-USD", Str.ofString "BTCUSD"]) KeyedTable.empty :
      InstrumentTable × Task .postgres ℕ Counts).1.rows = [] ∧
    (bootstrapInstruments Str.asciiUpper [Str.ofString "BTC-USD", Str.ofString "BTCUSD"]
      KeyedTable.empty).1.rows =
        [⟨Str.ofString "BTC-USD", Str.ofString "BTC", Str.ofString "USD", true⟩] :=
  ⟨⟨.valueError, rfl⟩, by decide, by decide⟩

end Pricestream
