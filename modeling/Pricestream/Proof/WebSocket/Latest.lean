import Pricestream.Library.Paging
import Pricestream.Proof.Stats
import Pricestream.Proof.Tasks.Activity
import Pricestream.Proof.WebSocket.Overlap

/-!
# The latest price and the messages

A client can be sent prices over the WebSocket and can ask for the latest one. What it is sent may be old,
or lost, or sent out of order. What it asks for is read from the database, to which rounds only ever add,
and every price is there before anybody is told of it. So the latest price is never behind a message that
has been sent, and never goes back.
-/

namespace Pricestream

open Library Python

variable {db : Engine} {Venue κ ι : Type}

/-! ### Newest rows -/

/-- The consolidated prices in the database after so many steps. -/
def pricesAfter (history : List (κ × Effect db Venue)) (n : ℕ) : List (ConsolidatedPrice db Venue) :=
  rowsOf (fun step => step.2.consolidatedRow?) history n

theorem mem_pricesAfter {history : List (κ × Effect db Venue)} {n : ℕ} {row : ConsolidatedPrice db Venue} :
    row ∈ pricesAfter history n ↔ ∃ k, (k, .insert (.consolidated row)) ∈ history.take n := by
  simp only [pricesAfter, rowsOf, List.mem_filterMap, Effect.consolidatedRow?_eq_some, Prod.exists,
    exists_eq_right]

theorem symbol_of_findInstrument {instruments : InstrumentTable} {symbol : Str} {found : Instrument}
    (h : findInstrument instruments symbol = .ok (some found)) : found.symbol = symbol := by
  obtain ⟨text, htext, hget⟩ := bind_eq_ok.mp h
  obtain rfl := eq_of_textParam htext
  exact KeyedTable.key_of_get? (Except.ok.inj hget)

theorem newest_of_latest {desc : Descending db Venue} {instruments : InstrumentTable}
    {prices : List (ConsolidatedPrice db Venue)} {symbol : Str} {data : ConsolidatedPriceData Venue}
    (h : latest desc instruments prices (some symbol) = .ok (.data data)) :
    ∃ row, IsNewest symbol prices row ∧ data = ⟨row.instrument, row.mid.value, row.bid.value,
      row.ask.value, row.sources, row.timestamp⟩ := by
  unfold latest at h
  split at h
  · cases h
  · cases h
  · rename_i hcase
    obtain rfl := Option.some.inj hcase
    obtain ⟨found, hfound, h⟩ := bind_eq_ok.mp h
    cases found with
    | none => cases h
    | some found =>
        cases hrow : latestPrice desc prices found.symbol with
        | none =>
            simp only [hrow] at h
            cases h
        | some row =>
            simp only [hrow, serializeConsolidatedPrice_eq] at h
            rw [symbol_of_findInstrument hfound] at hrow
            refine ⟨row, Arrangement.isLast_head? desc (fun r => le_refl r.timestamp) hrow, ?_⟩
            cases h
            rfl

theorem IsNewest.row_mem {symbol : Str} {prices : List (ConsolidatedPrice db Venue)}
    {row : ConsolidatedPrice db Venue} (h : IsNewest symbol prices row) :
    row ∈ prices ∧ row.instrument = symbol := mem_pricesFor.mp h.1

/-! ### The tape that is served -/

/-- The data is the book of what some worker read, in its columns. -/
structure ServedFrom (db : Engine) (polls : κ → Poll) (symbol : Str) (data : ConsolidatedPriceData Source) :
    Prop where
  rests : ∃ k snapshot, RestsOn (polls k) symbol snapshot ∧
    data.mid = (priceColumn db).round snapshot.mid ∧ data.bid = (priceColumn db).round snapshot.bid ∧
      data.ask = (priceColumn db).round snapshot.ask ∧ data.sources = snapshot.sources ∧
      data.timestamp = snapshot.ts
  instrument : data.instrument = symbol

section Served

variable [DecidableEq κ] [DecidableEq ι] {polls : κ → Poll} {tables : κ → InstrumentTable}
  {history : List (κ × Effect db Source)} {n n' : ℕ} {symbol : Str}
  {desc desc' : Descending db Source} {instruments instruments' : InstrumentTable}
  {data data' : ConsolidatedPriceData Source}

theorem servedFrom_of_latest
    (hhistory : Advances (programs db (fun k => (polls k).live) tables) history)
    (h : latest desc instruments (pricesAfter history n) (some symbol) = .ok (.data data)) :
    ServedFrom db polls symbol data := by
  obtain ⟨row, hnewest, rfl⟩ := newest_of_latest h
  obtain ⟨hrow, rfl⟩ := hnewest.row_mem
  obtain ⟨k, hstep⟩ := mem_pricesAfter.mp hrow
  have hdone := (hhistory k).subset (mem_actionsOf.mpr (List.mem_of_mem_take hstep))
  obtain ⟨book, hbook, hstore⟩ := price_of_mem hdone
  have hmirrors := create_mirrors hstore
  exact ⟨⟨k, _, restsOn_of_roundBook hbook, hmirrors.mid, hmirrors.bid, hmirrors.ask, hmirrors.sources,
    hmirrors.timestamp⟩, rfl⟩

omit [DecidableEq κ] in
theorem timestamp_le_of_latest (hle : n ≤ n')
    (h : latest desc instruments (pricesAfter history n) (some symbol) = .ok (.data data))
    (h' : latest desc' instruments' (pricesAfter history n') (some symbol) = .ok (.data data')) :
    data.timestamp ≤ data'.timestamp := by
  obtain ⟨row, hnewest, rfl⟩ := newest_of_latest h
  obtain ⟨row', hnewest', rfl⟩ := newest_of_latest h'
  obtain ⟨hrow, hlabel⟩ := hnewest.row_mem
  exact hnewest'.2 row (mem_pricesFor.mpr ⟨(rowsOf_sublist hle).subset hrow, hlabel⟩)

/-- **The latest price is never behind a message, and never goes back.** -/
theorem latest_not_behind {consumers : ι → QuoteConsumer} {events : List (LossyEvent ι)}
    {c : HubState db Source ι}
    (hhistory : Advances (programs db (fun k => (polls k).live) tables) history)
    (hrun : lossyRun consumers (HubState.init (history.map Prod.snd)) events = some c) :
    (∀ i, ∀ m ∈ (c.session i).received, ∀ n, history.length ≤ n + c.1.script.length →
      ∀ (desc : Descending db Source) (instruments : InstrumentTable) (found : Instrument),
        findInstrument instruments (consumers i).symbol = .ok (some found) →
        ∃ data, latest desc instruments (pricesAfter history n) (some (consumers i).symbol) =
            .ok (.data data) ∧ m.payload.snapshot.ts ≤ data.timestamp) ∧
    (∀ n (desc : Descending db Source) (instruments : InstrumentTable) symbol data,
      latest desc instruments (pricesAfter history n) (some symbol) = .ok (.data data) →
        ServedFrom db polls symbol data ∧
        ∀ n' ≥ n, ∀ (desc' : Descending db Source) (instruments' : InstrumentTable) data',
          latest desc' instruments' (pricesAfter history n') (some symbol) = .ok (.data data') →
            data.timestamp ≤ data'.timestamp) := by
  constructor
  · intro i m hm n hn desc instruments found hfound
    obtain ⟨past, k, row, ⟨rest, rfl⟩, hscript, hrow, _, hpriced⟩ := row_of_received hhistory hrun hm
    obtain ⟨p, hp, book, hbook, hstore, hsnapshot⟩ := hpriced.computed
    obtain rfl := List.mem_singleton.mp hp
    have hlabel : row.instrument = (consumers i).symbol := label_of_storeBook hstore
    -- The row is among the first steps: the script is what is left of the history.
    have hlength : past.length ≤ n := by
      have hsplit := congrArg List.length hscript
      simp only [List.length_append, List.length_map] at hsplit hn
      omega
    have hstep : (k, .insert (.consolidated row)) ∈ (past ++ rest).take n := by
      rw [List.take_append, List.take_of_length_le hlength]
      exact List.mem_append_left _ hrow
    have hmem : row ∈ pricesFor found.symbol (pricesAfter (past ++ rest) n) := by
      rw [symbol_of_findInstrument hfound]
      exact mem_pricesFor.mpr ⟨mem_pricesAfter.mpr ⟨k, hstep⟩, hlabel⟩
    obtain ⟨newest, hnewest, hlatest⟩ := exists_latestPrice desc (List.ne_nil_of_mem hmem)
    have hdone := (hhistory k).subset (mem_actionsOf.mpr (List.mem_append_left rest hrow))
    have hsymbol : (consumers i).symbol ≠ [] := ne_nil_of_concerns hdone hlabel
    refine ⟨_, latest_of_latestPrice hsymbol hfound hlatest, ?_⟩
    have hts : m.payload.snapshot.ts = row.timestamp := by
      rw [hsnapshot]
      exact (create_mirrors hstore).timestamp.symm
    rw [hts]
    exact hnewest.2 row hmem
  · intro n desc instruments symbol data h
    exact ⟨servedFrom_of_latest hhistory h, fun n' hle desc' instruments' data' h' =>
      timestamp_le_of_latest hle h h'⟩

end Served

/-- The client is sent the price of the worker that was late, and the view answers with the newer one. -/
theorem latest_not_behind_brokenOff :
    ∃ c : HubState .postgres Source Unit,
      lossyRun oneClient (HubState.init (brokenOff.map Prod.snd)) connectsLate = some c ∧
      ∃ m ∈ (c.session ()).received, m.payload.snapshot.ts = 90061000001 ∧
        ∃ data, latest byTimestampDesc btcTable (pricesAfter brokenOff 25) (some btc) = .ok (.data data) ∧
          data.timestamp = 90066000001 ∧ m.payload.snapshot.ts ≤ data.timestamp ∧
          ServedFrom .postgres laterPoll btc data := by
  obtain ⟨c, hrun, hscript, m, hm, hts⟩ := exists_received_brokenOff
  obtain ⟨hahead, hserved⟩ := latest_not_behind advances_brokenOff hrun
  have hlength : brokenOff.length ≤ 25 + c.1.script.length := by
    rw [hscript]
    decide +kernel
  obtain ⟨data, hdata, hle⟩ := hahead () m hm 25 hlength byTimestampDesc btcTable _ findInstrument_btc
  have hanswer : (latestPrice byTimestampDesc (pricesAfter brokenOff 25) btc).map
      ConsolidatedPrice.timestamp = some 90066000001 := by
    decide +kernel
  obtain ⟨row, hrow, hnewest⟩ := Option.map_eq_some_iff.mp hanswer
  have hsame := latest_of_latestPrice (by decide) findInstrument_btc hrow
  obtain rfl := Response.data.inj (Except.ok.inj (hdata.symm.trans hsame))
  exact ⟨c, hrun, m, hm, hts, _, hdata, hnewest, hle, (hserved _ _ _ _ _ hdata).1⟩

end Pricestream
