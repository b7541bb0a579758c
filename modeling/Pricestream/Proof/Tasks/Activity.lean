import Pricestream.Library.Interleaving
import Pricestream.InstrumentWrites
import Pricestream.Proof.Tasks.Books
import Pricestream.Proof.Wire.Positive

/-!
# Who decides what is polled

Rounds and the bootstrap command create instruments and leave those that are there alone. So whether an
instrument is active is what the admin site has set it to last, whatever else has run since, and a round
does something about an instrument only if it is configured and active: one that is switched off stays
off, and nothing is written, counted, published or told about it until it is switched on again.
-/

namespace Pricestream

open Library Python

variable {db : Engine} {Venue : Type} {symbol : Str} {row : Instrument}
  {instruments instruments' : InstrumentTable}

/-! ### The instrument table -/

theorem get?_of_insert {e : Exc} {new : Instrument} (h : orRaise e (instruments.insert new) = .ok instruments')
    (hrow : instruments.get? symbol = some row) : instruments'.get? symbol = some row := by
  rw [KeyedTable.insert] at h
  split_ifs at h with htaken
  · cases h
  · obtain rfl := Except.ok.inj h
    have hne : new.symbol ≠ symbol := by
      rintro rfl
      exact htaken (hrow ▸ rfl)
    rw [KeyedTable.get?_upsert, if_neg hne]
    exact hrow

theorem get?_bootstrapSymbol {upper : Str → Str} {s : Str} {created : Bool}
    (h : bootstrapSymbol upper s instruments = .ok (instruments', created))
    (hrow : instruments.get? symbol = some row) : instruments'.get? symbol = some row := by
  obtain ⟨instrument, _, h⟩ := bind_eq_ok.mp h
  obtain ⟨text, _, h⟩ := bind_eq_ok.mp h
  split at h
  · obtain ⟨rfl, _⟩ := Prod.mk.inj (Except.ok.inj h)
    exact hrow
  · obtain ⟨new, _, h⟩ := bind_eq_ok.mp h
    obtain ⟨table, htable, h⟩ := bind_eq_ok.mp h
    obtain ⟨rfl, _⟩ := Prod.mk.inj (Except.ok.inj h)
    exact get?_of_insert htable hrow

theorem get?_bootstrapLoop {upper : Str → Str} (symbols : List Str) (created : ℕ)
    (hrow : instruments.get? symbol = some row) :
    (bootstrapLoop upper symbols created instruments).1.get? symbol = some row := by
  induction symbols generalizing created instruments with
  | nil => exact hrow
  | cons s symbols ih =>
      rw [bootstrapLoop]
      split
      · exact hrow
      · rename_i h
        exact ih _ (get?_bootstrapSymbol h hrow)
      · rename_i h
        exact ih _ (get?_bootstrapSymbol h hrow)

theorem get?_fetchQuotes [LinearOrder Venue] (round : Round Venue)
    (hrow : instruments.get? symbol = some row) :
    (fetchQuotes round instruments : _ × Task db Venue Counts).1.get? symbol = some row := by
  by_cases hlist : ∀ symbol ∈ round.configured, Listable round.upper symbol
  · rw [fetchQuotes_of_listable hlist, Round.created, KeyedTable.get?_insertNew, hrow]
    rfl
  · obtain ⟨e, he⟩ : ∃ e, (fetchQuotes round instruments : _ × Task db Venue Counts) =
        (instruments, Traced.raise e) := fetchQuotes_of_not_listable hlist
    rw [he]
    exact hrow

/-- What the admin site sets the activity of an instrument to. -/
def InstrumentWrite.toggle? (symbol : Str) : InstrumentWrite Venue → Option Bool
  | .setActive s active => if s = symbol then some active else none
  | .fetchQuotes _ | .bootstrapInstruments _ _ => none

theorem get?_setActive (s : Str) (active : Bool) (hrow : instruments.get? symbol = some row) :
    (setActive s active instruments).get? symbol =
      some (if s = symbol then { row with isActive := active } else row) := by
  rw [setActive]
  by_cases hs : s = symbol
  · subst hs
    rw [hrow, if_pos rfl]
    exact (KeyedTable.get?_upsert _ _ _).trans (if_pos (KeyedTable.key_of_get? hrow))
  · rw [if_neg hs]
    cases hget : instruments.get? s with
    | none => exact hrow
    | some found =>
        have hne : found.symbol ≠ symbol := fun h => hs ((KeyedTable.key_of_get? hget).symm.trans h)
        refine (KeyedTable.get?_upsert instruments { found with isActive := active } symbol).trans ?_
        rw [if_neg hne]
        exact hrow

/-- **A write leaves a row alone, unless it switches it.** -/
theorem get?_write [LinearOrder Venue] (write : InstrumentWrite Venue)
    (hrow : instruments.get? symbol = some row) :
    (write.run db instruments).1.get? symbol =
      some { row with isActive := (write.toggle? symbol).getD row.isActive } := by
  cases write with
  | fetchQuotes round => exact get?_fetchQuotes round hrow
  | bootstrapInstruments upper configured => exact get?_bootstrapLoop configured 0 hrow
  | setActive s active =>
      refine (get?_setActive s active hrow).trans ?_
      by_cases hs : s = symbol <;> simp [InstrumentWrite.toggle?, hs]

/-- What the admin site has set the activity to last. -/
def activityAfter (symbol : Str) (writes : List (InstrumentWrite Venue)) (start : Bool) : Bool :=
  (register (InstrumentWrite.toggle? symbol) writes).getD start

theorem activityAfter_cons (write : InstrumentWrite Venue) (writes : List (InstrumentWrite Venue))
    (start : Bool) : activityAfter symbol (write :: writes) start =
      activityAfter symbol writes ((write.toggle? symbol).getD start) := by
  rw [activityAfter, activityAfter, register, register, List.filterMap_cons]
  cases hwrite : write.toggle? symbol with
  | none => rfl
  | some active =>
      rw [List.getLast?_cons, Option.getD_some, Option.getD_some]

theorem get?_runWrites [LinearOrder Venue] (writes : List (InstrumentWrite Venue))
    (hrow : instruments.get? symbol = some row) :
    (runWrites db writes instruments).1.get? symbol =
      some { row with isActive := activityAfter symbol writes row.isActive } := by
  induction writes generalizing instruments row with
  | nil => exact hrow
  | cons write writes ih =>
      rw [activityAfter_cons]
      exact ih (get?_write write hrow)

/-! ### What a turn is about -/

/-- An effect is about an instrument. -/
def Effect.Concerns (symbol : Str) : Effect db Venue → Prop
  | .insert (.quote row) => row.instrument = symbol
  | .insert (.consolidated row) => row.instrument = symbol
  | .insert (.arbitrage row) => row.instrument = symbol
  | .inc (.quotesFetched instrument _) | .inc (.quotesFailed instrument _) | .inc (.consolidated instrument)
  | .inc (.staleQuotes instrument _) | .inc (.arbitrageDetected instrument _ _) => instrument = symbol
  | .inc .kafkaPublished | .inc .kafkaPublishFailed => False
  | .publish instrument _ => instrument = symbol
  | .cacheSet key _ => key = cacheKey symbol
  | .groupSend group instrument _ => group = groupName symbol ∨ instrument = symbol

/-- The effects are about no instrument but this one. -/
def OnlyConcern (symbol : Str) (l : List (Effect db Venue)) : Prop :=
  ∀ w ∈ l, ∀ s, w.Concerns s → s = symbol

variable {round : Round Venue}

theorem onlyConcern_pollClient (client : Client Venue) (i : ℕ) :
    OnlyConcern symbol (pollClient round symbol client i : Task db Venue _).trace := by
  intro w hw s hs
  rcases trace_pollClient db round symbol client i with
    htrace | htrace | ⟨row, quote, counter, _, hrow, hcounter, htrace⟩
  · rw [htrace] at hw
    obtain rfl := List.mem_singleton.mp hw
    exact hs.symm
  · rw [htrace] at hw
    cases hw
  · obtain ⟨hlabel, _⟩ := labels_of_storeQuote hrow
    rw [htrace] at hw
    simp only [List.mem_cons, List.not_mem_nil, or_false] at hw
    rcases hw with rfl | rfl | rfl | rfl
    · exact hs.symm.trans hlabel
    · exact hs.symm
    · exact hs.symm
    · rcases hcounter with rfl | rfl <;> exact hs.elim

theorem onlyConcern_publishConsolidated (c : Consolidated Venue) :
    OnlyConcern symbol (publishConsolidated round symbol c : Task db Venue Unit).trace := by
  intro w hw s hs
  obtain ⟨row, hrow, rfl | rfl | ⟨_, rfl | ⟨_, _, rfl⟩⟩⟩ := mem_publishConsolidated.mp hw
  · exact hs.symm.trans (label_of_storeBook hrow)
  · exact hs.symm
  · exact (cacheKey_injective hs).symm
  · exact hs.elim (fun h => (groupName_injective h).symm) Eq.symm

theorem onlyConcern_recordArbitrage (arb : Arbitrage Venue) :
    OnlyConcern symbol (recordArbitrage round symbol arb : Task db Venue Unit).trace := by
  intro w hw s hs
  obtain ⟨row, hrow, rfl | rfl⟩ := mem_recordArbitrage.mp hw
  · exact hs.symm.trans (labels_of_storeArbitrage hrow).1
  · exact hs.symm

variable [LinearOrder Venue]

/-- **A round does something about the instruments it visits only.** -/
theorem visited_of_concerns {w : Effect db Venue}
    (hw : w ∈ ((fetchQuotes round instruments).2 : Task db Venue Counts).trace) (hs : w.Concerns symbol) :
    Visited round instruments symbol := by
  obtain ⟨_, front, instrument, back, counts, hrows, _, hturn⟩ := mem_fetchQuotes.mp hw
  have honly := sequential_turn sequential_forall
    (fun client i _ => onlyConcern_pollClient client i) (fun c _ => onlyConcern_publishConsolidated c)
    (fun arb _ => onlyConcern_recordArbitrage arb) counts w hturn symbol hs
  have hmem : instrument ∈ round.instruments (round.created instruments) := by
    rw [hrows]
    exact List.mem_append_right _ List.mem_cons_self
  exact exists_mem_instruments_iff.mp ⟨instrument, hmem, honly.symm⟩

theorem ne_nil_of_concerns {w : Effect db Venue}
    (hw : w ∈ ((fetchQuotes round instruments).2 : Task db Venue Counts).trace) (hs : w.Concerns symbol) :
    symbol ≠ [] := by
  obtain ⟨hlist, _⟩ := mem_fetchQuotes.mp hw
  rintro rfl
  exact (hlist _ (visited_of_concerns hw hs).1).quote_ne rfl

/-- A venue's reply, or its lack, is counted. -/
def IsPolled (symbol : Str) (source : Venue) (l : List (Effect db Venue)) : Prop :=
  .inc (.quotesFetched symbol source) ∈ l ∨ .inc (.quotesFailed symbol source) ∈ l

theorem isPolled_of_visited (hcompletes : Completes db round instruments)
    (hvisited : Visited round instruments symbol) {client : Client Venue} (hclient : client ∈ round.clients) :
    IsPolled symbol client.name ((fetchQuotes round instruments).2 : Task db Venue Counts).trace := by
  obtain ⟨instrument, hmem, rfl⟩ := exists_mem_instruments_iff.mpr hvisited
  obtain ⟨i, hi⟩ := List.mem_iff_getElem?.mp hclient
  have hpoll : ∀ w ∈ pollEffects db round instrument.symbol client i,
      w ∈ ((fetchQuotes round instruments).2 : Task db Venue Counts).trace := by
    intro w hw
    rw [runs_fetchQuotes (completes_iff.mp hcompletes)]
    refine List.mem_flatMap.mpr ⟨instrument, hmem, List.mem_append_left _ ?_⟩
    exact List.mem_flatMap.mpr ⟨(client, i), List.mem_zipIdx_iff_getElem?.mpr hi, hw⟩
  cases hquote : quoteOf round instrument.symbol client i with
  | none =>
      refine Or.inr (hpoll _ ?_)
      simp [pollEffects, hquote]
  | some quote =>
      refine Or.inl (hpoll _ ?_)
      simp [pollEffects, hquote]

omit [LinearOrder Venue] in
theorem visited_iff_of_row (hrow : instruments.get? symbol = some row) :
    Visited round instruments symbol ↔ symbol ∈ round.configured ∧ row.isActive = true := by
  refine and_congr_right fun _ => ⟨fun h => h row hrow, fun h row' hrow' => ?_⟩
  obtain rfl := Option.some.inj (hrow.symm.trans hrow')
  exact h

/-! ### Main result -/

/-- **An instrument is polled as the admin site has it, whatever else runs.** -/
theorem only_admin_switches (db : Engine) (writes : List (InstrumentWrite Venue))
    (hrow : instruments.get? symbol = some row) (round : Round Venue) :
    (runWrites db writes instruments).1.get? symbol =
        some { row with isActive := activityAfter symbol writes row.isActive } ∧
      (∀ w ∈ ((fetchQuotes round (runWrites db writes instruments).1).2 : Task db Venue Counts).trace,
        w.Concerns symbol → symbol ∈ round.configured ∧ activityAfter symbol writes row.isActive = true) ∧
      (Completes db round (runWrites db writes instruments).1 → symbol ∈ round.configured →
        activityAfter symbol writes row.isActive = true → ∀ client ∈ round.clients,
          IsPolled symbol client.name
            ((fetchQuotes round (runWrites db writes instruments).1).2 : Task db Venue Counts).trace) := by
  have hafter : (runWrites db writes instruments).1.get? symbol = _ := get?_runWrites writes hrow
  have hvisited : Visited round (runWrites db writes instruments).1 symbol ↔ _ := visited_iff_of_row hafter
  refine ⟨hafter, fun w hw hconcerns => ?_, fun hcompletes hconfigured hactive client hclient => ?_⟩
  · exact hvisited.mp (visited_of_concerns hw hconcerns)
  · exact isPolled_of_visited hcompletes (hvisited.mpr ⟨hconfigured, hactive⟩) hclient

def btcListed : InstrumentTable :=
  KeyedTable.empty.upsert ⟨Str.ofString "BTC-USD", Str.ofString "BTC", Str.ofString "USD", true⟩

/-- The instrument is switched off, and everything that creates instruments runs. -/
def switchedOff : List (InstrumentWrite ℕ) :=
  [.setActive (Str.ofString "BTC-USD") false, .fetchQuotes (oneVenue hundred hundred),
    .bootstrapInstruments Str.asciiUpper [Str.ofString "BTC-USD"]]

theorem switchedOff_stays_silent :
    (runWrites .postgres switchedOff btcListed).1.get? (Str.ofString "BTC-USD") =
        some ⟨Str.ofString "BTC-USD", Str.ofString "BTC", Str.ofString "USD", false⟩ ∧
      ∀ w ∈ ((fetchQuotes (oneVenue hundred hundred) (runWrites .postgres switchedOff btcListed).1).2 :
        Task .postgres ℕ Counts).trace, ¬ w.Concerns (Str.ofString "BTC-USD") := by
  have hrow : btcListed.get? (Str.ofString "BTC-USD") = some _ := rfl
  obtain ⟨hafter, hsilent, _⟩ :=
    only_admin_switches .postgres switchedOff hrow (oneVenue hundred hundred)
  exact ⟨hafter, fun w hw hconcerns => absurd (hsilent w hw hconcerns).2 (by decide)⟩

end Pricestream
