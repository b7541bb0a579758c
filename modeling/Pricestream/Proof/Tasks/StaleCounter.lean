import Pricestream.Proof.Tasks.Staleness
import Pricestream.Proof.Tasks.Turns

/-!
# The counter of stale quotes

`stale_quotes_total` is declared, described as the number of quotes the staleness gate drops, and
never incremented: the gate is a filter inside `consolidate`, which knows no counter. The accounts of
some rounds are written down here turn by turn, also where a round raises. Every quote that was fetched
is one that a consolidated price lists, one with a price that is not positive, one that the gate
dropped, or one that an exception left without a price. The counter is right, and the books balance
without the last two kinds, exactly when there are no quotes of these kinds.
-/

namespace Pricestream

open Library Python
open DateTime (Instant)

variable {db : Engine} {Venue : Type}

/-! ### Accounts -/

/-- The labels of an increment of `stale_quotes_total`. -/
def Effect.stale? : Effect db Venue → Option (Str × Venue)
  | .inc (.staleQuotes symbol source) => some (symbol, source)
  | _ => none

def labels (symbol : Str) (q : Quote Venue) : Str × Venue := (symbol, q.source)

/-- The labels of the quotes listed in the sources of the consolidated prices written. -/
def listed (trace : List (Effect db Venue)) : List (Str × Venue) :=
  (trace.filterMap Effect.consolidatedRow?).flatMap fun row =>
    row.sources.map fun source => (row.instrument, source)

/-- The labels of the quotes handed on with a price that is not positive. -/
def nonPositive (trace : List (Effect db Venue)) : List (Str × Venue) :=
  ((trace.filterMap Effect.event?).filter fun (_, q) => !isPositive q).map
    fun (symbol, q) => labels symbol q

/-- The positive quotes that the gate drops, each at its own reading of the clock. -/
def gateDrops (round : Round Venue) (symbol : Str) : List (Quote Venue) :=
  ((roundQuotes round symbol).zipIdx.filter fun (q, i) =>
    isPositive q && !isFresh round.maxAge (round.clock.checked symbol i) q).map Prod.fst

variable [LinearOrder Venue]

/-- The labels of the quotes dropped by the gate, in the turns that come to `consolidate`. -/
def dropped (db : Engine) (rounds : List (Round Venue × InstrumentTable)) : List (Str × Venue) :=
  (turnsOf db rounds).flatMap fun (round, symbol) =>
    if Accepted db round symbol then (gateDrops round symbol).map (labels symbol) else []

/-- The stale quotes of some rounds are accounted for. -/
structure StaleAccounted (db : Engine) (rounds : List (Round Venue × InstrumentTable)) : Prop where
  counted : ∀ symbol source,
    ((roundsScript db rounds).filterMap Effect.stale?).count (symbol, source) =
      (dropped db rounds).count (symbol, source)
  split : ∀ symbol source,
    ((roundsScript db rounds).filterMap Effect.fetched?).count (symbol, source) =
      (listed (roundsScript db rounds)).count (symbol, source) +
      ((roundsScript db rounds).filterMap Effect.stale?).count (symbol, source) +
      (nonPositive (roundsScript db rounds)).count (symbol, source)

/-- No positive quote of a turn is stale when its age is asked for, and none is left without a price
by an exception. -/
structure TurnBalances (db : Engine) (round : Round Venue) (symbol : Str) : Prop where
  fresh : Accepted db round symbol → ∀ i q, (roundQuotes round symbol)[i]? = some q →
    isPositive q = true → isFresh round.maxAge (round.clock.checked symbol i) q = true
  stored : Accepted db round symbol → ∀ c, roundBook round symbol = some c → c.Fits db
  polled : ¬ Accepted db round symbol → ∀ q ∈ writtenQuotes db round symbol, isPositive q = false

variable {round : Round Venue} {symbol : Str} {instruments : InstrumentTable}

/-! ### The balance of a turn -/

theorem seen_stale {counts : Counts} {instrument : Instrument} :
    (fetchInstrument round counts instrument : Task db Venue Counts).trace.filterMap Effect.stale? =
      [] := by
  apply List.filterMap_eq_nil_iff.mpr
  intro w hw
  rcases mem_fetchInstrument.mp hw with hpoll | ⟨_, c, _, hpublish | ⟨_, arb, _, hrecord⟩⟩
  · cases only_pollClients _ _ hpoll <;> rfl
  · obtain ⟨row, _, rfl | rfl | ⟨_, rfl | ⟨_, _, rfl⟩⟩⟩ := mem_publishConsolidated.mp hpublish <;> rfl
  · obtain ⟨row, _, rfl | rfl⟩ := mem_recordArbitrage.mp hrecord <;> rfl

/-- The quotes that go into the consolidated price. -/
def keptQuotes (round : Round Venue) (symbol : Str) : List (Quote Venue) :=
  candidates round.maxAge (round.clock.checked symbol) (roundQuotes round symbol)

/-- The positive quotes that no consolidated price lists: the gate dropped them, or an exception came
before the price was written. -/
def unlisted (db : Engine) (round : Round Venue) (symbol : Str) : List (Quote Venue) :=
  if Accepted db round symbol then
    gateDrops round symbol ++
      if ∀ c ∈ roundBook round symbol, c.Fits db then [] else keptQuotes round symbol
  else (writtenQuotes db round symbol).filter isPositive

/-- The labels that the consolidated price of a turn lists. -/
def listedInTurn (db : Engine) (round : Round Venue) (symbol : Str) : List (Str × Venue) :=
  (writtenPrice db round symbol).toList.flatMap fun row =>
    row.sources.map fun source => (row.instrument, source)

section Quotes

omit [LinearOrder Venue]

theorem quotes_split (round : Round Venue) (symbol : Str) :
    (keptQuotes round symbol ++ gateDrops round symbol ++
      (roundQuotes round symbol).filter fun q => !isPositive q).Perm (roundQuotes round symbol) := by
  have hpositive : (roundQuotes round symbol).filter isPositive =
      ((roundQuotes round symbol).zipIdx.filter fun p => isPositive p.1).map Prod.fst := by
    conv_lhs => rw [← List.zipIdx_map_fst 0 (roundQuotes round symbol), List.filter_map]
    rfl
  have hgate : (keptQuotes round symbol ++ gateDrops round symbol).Perm
      ((roundQuotes round symbol).filter isPositive) := by
    have hsplit := List.filter_append_perm
      (fun p : Quote Venue × ℕ => isFresh round.maxAge (round.clock.checked symbol p.2) p.1)
      ((roundQuotes round symbol).zipIdx.filter fun p => isPositive p.1)
    rw [List.filter_filter, List.filter_filter] at hsplit
    rw [keptQuotes, candidates, gateDrops, hpositive, ← List.map_append]
    simpa only [Bool.and_comm] using hsplit.map Prod.fst
  exact (hgate.append_right _).trans (List.filter_append_perm isPositive _)

theorem sources_sublist (round : Round Venue) (symbol : Str) (l : List (Client Venue × ℕ)) :
    ((l.filterMap fun (client, i) => quoteOf round symbol client i).map Quote.source).Sublist
      (l.map fun c => c.1.name) := by
  induction l with
  | nil => exact .refl _
  | cons c l ih =>
      obtain ⟨client, i⟩ := c
      rw [List.filterMap_cons]
      cases hq : quoteOf round symbol client i with
      | none =>
          simp only [hq]
          exact ih.cons _
      | some q =>
          simp only [hq, List.map_cons, source_of_quoteOf hq]
          exact ih.cons_cons _

theorem nodup_sources (hnames : (round.clients.map Client.name).Nodup) (symbol : Str) :
    ((keptQuotes round symbol).map Quote.source).Nodup := by
  have hkept : (keptQuotes round symbol).Sublist (roundQuotes round symbol) := by
    have hsub := (List.filter_sublist (l := (roundQuotes round symbol).zipIdx)
      (p := fun (q, i) => isPositive q && isFresh round.maxAge (round.clock.checked symbol i) q)).map
        Prod.fst
    rwa [List.zipIdx_map_fst] at hsub
  have hquotes := sources_sublist round symbol round.clients.zipIdx
  have hclients : round.clients.zipIdx.map (fun c => c.1.name) = round.clients.map Client.name := by
    conv_rhs => rw [← List.zipIdx_map_fst 0 round.clients, List.map_map]
    rfl
  rw [hclients] at hquotes
  exact hnames.sublist ((hkept.map Quote.source).trans hquotes)

end Quotes

theorem keptQuotes_eq_nil_iff : keptQuotes round symbol = [] ↔ roundBook round symbol = none := by
  rcases consolidate_cases round.ctx round.maxAge (round.clock.checked symbol)
    (roundQuotes round symbol) with ⟨hcands, hnone⟩ | ⟨q, rest, hcands, hsome⟩
  · rw [keptQuotes, hcands, roundBook, hnone]
    simp
  · rw [keptQuotes, hcands, roundBook, hsome]
    simp

theorem listedInTurn_perm (hnames : (round.clients.map Client.name).Nodup)
    (haccepted : Accepted db round symbol) (hfits : ∀ c ∈ roundBook round symbol, c.Fits db) :
    (listedInTurn db round symbol).Perm ((keptQuotes round symbol).map (labels symbol)) := by
  rw [listedInTurn, writtenPrice, if_pos haccepted]
  cases hbook : roundBook round symbol with
  | none =>
      rw [keptQuotes_eq_nil_iff.mpr hbook]
      exact .refl _
  | some c =>
      obtain ⟨row, hrow⟩ : ∃ row, storeBook db round symbol c = .ok row :=
        exists_consolidatedPrice_iff.mpr (hfits c hbook)
      have hsources : row.sources = sortedSources (keptQuotes round symbol) := by
        obtain ⟨_, _, _, _, _, _, rfl⟩ := ConsolidatedPrice.create_eq_ok.mp hrow
        exact sources_eq_of_roundBook hbook
      have hperm : row.sources.Perm ((keptQuotes round symbol).map Quote.source) := by
        rw [hsources, sortedSources, (nodup_sources hnames symbol).dedup]
        exact List.perm_insertionSort _ _
      have hlabels := hperm.map fun source => (symbol, source)
      rw [List.map_map] at hlabels
      rw [Option.bind_some, hrow]
      change (row.sources.map (fun source => (row.instrument, source)) ++ []).Perm _
      rw [List.append_nil, label_of_storeBook hrow]
      exact hlabels

theorem listedInTurn_of_not (h : ¬ (Accepted db round symbol ∧ ∀ c ∈ roundBook round symbol, c.Fits db)) :
    listedInTurn db round symbol = [] := by
  unfold listedInTurn writtenPrice
  split_ifs with haccepted
  · obtain ⟨c, hbook, hnot⟩ : ∃ c, roundBook round symbol = some c ∧ ¬ c.Fits db := by
      by_contra hall
      push Not at hall
      exact h ⟨haccepted, hall⟩
    rw [hbook, Option.bind_some]
    cases hstore : storeBook db round symbol c with
    | error e => rfl
    | ok row => exact absurd (exists_consolidatedPrice_iff.mp ⟨row, hstore⟩) hnot
  · rfl

theorem turn_split (hnames : (round.clients.map Client.name).Nodup) :
    ((writtenQuotes db round symbol).map (labels symbol)).Perm
      (listedInTurn db round symbol ++
        ((writtenQuotes db round symbol).filter fun q => !isPositive q).map (labels symbol) ++
        (unlisted db round symbol).map (labels symbol)) := by
  unfold unlisted
  split_ifs with haccepted hfits
  · have hlisted := listedInTurn_perm hnames haccepted hfits
    have hsplit := (quotes_split round symbol).map (labels symbol)
    rw [writtenQuotes_of_accepted haccepted, List.append_nil]
    rw [List.map_append, List.map_append] at hsplit
    refine hsplit.symm.trans (((hlisted.symm.append_right _).append_right _).trans ?_)
    rw [List.append_assoc, List.append_assoc]
    exact List.perm_append_comm.append_left _
  · have hsplit := (quotes_split round symbol).map (labels symbol)
    rw [writtenQuotes_of_accepted haccepted, listedInTurn_of_not fun h => hfits h.2, List.nil_append]
    rw [List.map_append, List.map_append] at hsplit
    rw [List.map_append]
    refine hsplit.symm.trans (List.perm_append_comm.trans (List.Perm.append_left _ ?_))
    exact List.perm_append_comm
  · have hsplit := (List.filter_append_perm isPositive (writtenQuotes db round symbol)).map (labels symbol)
    rw [List.map_append] at hsplit
    rw [listedInTurn_of_not fun h => haccepted h.1, List.nil_append]
    exact hsplit.symm.trans List.perm_append_comm

omit [LinearOrder Venue] in
theorem gateDrops_eq_nil_iff :
    gateDrops round symbol = [] ↔ ∀ i q, (roundQuotes round symbol)[i]? = some q →
      isPositive q = true → isFresh round.maxAge (round.clock.checked symbol i) q = true := by
  rw [gateDrops, List.map_eq_nil_iff, List.filter_eq_nil_iff]
  constructor
  · intro h i q hi hpos
    have hkept := h (q, i) (List.mk_mem_zipIdx_iff_getElem?.mpr hi)
    simpa [hpos] using hkept
  · intro h p hp hdrop
    rw [Bool.and_eq_true, Bool.not_eq_true'] at hdrop
    have hfresh := h p.2 p.1 (List.mk_mem_zipIdx_iff_getElem?.mp hp) hdrop.1
    rw [hfresh] at hdrop
    cases hdrop.2

theorem unlisted_eq_nil_iff : unlisted db round symbol = [] ↔ TurnBalances db round symbol := by
  unfold unlisted
  split_ifs with haccepted hfits
  · rw [List.append_nil, gateDrops_eq_nil_iff]
    exact ⟨fun hfresh => ⟨fun _ => hfresh, fun _ => hfits, fun hnot => absurd haccepted hnot⟩,
      fun h => h.fresh haccepted⟩
  · have hkept : keptQuotes round symbol ≠ [] := by
      intro hnil
      apply hfits
      intro c hc
      rw [keptQuotes_eq_nil_iff.mp hnil] at hc
      cases hc
    constructor
    · exact fun h => absurd (List.append_eq_nil_iff.mp h).2 hkept
    · exact fun h => absurd (h.stored haccepted) hfits
  · rw [List.filter_eq_nil_iff]
    simp only [Bool.not_eq_true]
    exact ⟨fun hpolled => ⟨fun h => absurd h haccepted, fun h => absurd h haccepted, fun _ => hpolled⟩,
      fun h => h.polled haccepted⟩

/-! ### The balance of some rounds -/

section Rounds

variable (db) (rounds : List (Round Venue × InstrumentTable))

theorem stale_eq_nil : (roundsScript db rounds).filterMap Effect.stale? = [] := by
  rw [seen_rounds (fun _ _ => []) (fun _ _ _ => seen_stale) rounds, List.flatMap_eq_nil_iff]
  exact fun _ _ => rfl

theorem fetched_eq : (roundsScript db rounds).filterMap Effect.fetched? =
    (turnsOf db rounds).flatMap fun t => (writtenQuotes db t.1 t.2).map (labels t.2) := by
  apply seen_rounds fun round symbol => (writtenQuotes db round symbol).map (labels symbol)
  intro round counts instrument
  exact seen_written (fun _ => fetched?_of_stage) fetched_pollEffects

theorem event_eq : (roundsScript db rounds).filterMap Effect.event? =
    (turnsOf db rounds).flatMap fun t => (writtenQuotes db t.1 t.2).map fun q => (t.2, q) := by
  apply seen_rounds fun round symbol => (writtenQuotes db round symbol).map fun q => (symbol, q)
  intro round counts instrument
  exact seen_written (fun _ => event?_of_stage) event_pollEffects

theorem nonPositive_eq : nonPositive (roundsScript db rounds) =
    (turnsOf db rounds).flatMap fun t =>
      ((writtenQuotes db t.1 t.2).filter fun q => !isPositive q).map (labels t.2) := by
  rw [nonPositive, event_eq, List.filter_flatMap, List.map_flatMap]
  congr 1
  funext ⟨round, symbol⟩
  rw [List.filter_map, List.map_map]
  rfl

theorem listed_eq : listed (roundsScript db rounds) =
    (turnsOf db rounds).flatMap fun t => listedInTurn db t.1 t.2 := by
  rw [listed, seen_rounds (fun round symbol => (writtenPrice db round symbol).toList)
    (fun _ _ _ => seen_price) rounds, List.flatMap_assoc]
  rfl

variable {rounds}

theorem dropped_eq_nil_iff :
    dropped db rounds = [] ↔
      ∀ t ∈ turnsOf db rounds, Accepted db t.1 t.2 → gateDrops t.1 t.2 = [] := by
  rw [dropped, List.flatMap_eq_nil_iff]
  constructor
  · intro h t ht haccepted
    have hturn : (if Accepted db t.1 t.2 then (gateDrops t.1 t.2).map (labels t.2) else []) = [] := h t ht
    rw [if_pos haccepted] at hturn
    exact List.map_eq_nil_iff.mp hturn
  · intro h t ht
    show (if Accepted db t.1 t.2 then (gateDrops t.1 t.2).map (labels t.2) else []) = []
    split_ifs with haccepted
    · rw [h t ht haccepted, List.map_nil]
    · rfl

/-- The counter is right exactly when the gate has dropped nothing. -/
theorem counter_right_iff :
    (∀ symbol source, ((roundsScript db rounds).filterMap Effect.stale?).count (symbol, source) =
        (dropped db rounds).count (symbol, source)) ↔
      ∀ t ∈ turnsOf db rounds, Accepted db t.1 t.2 → gateDrops t.1 t.2 = [] := by
  rw [stale_eq_nil, ← dropped_eq_nil_iff]
  constructor
  · intro h
    apply List.eq_nil_iff_forall_not_mem.mpr
    intro ⟨symbol, source⟩ hmem
    have hcount := h symbol source
    have hpos := List.count_pos_iff.mpr hmem
    rw [List.count_nil] at hcount
    omega
  · intro h symbol source
    rw [h]

theorem rounds_split (hnames : ∀ r ∈ rounds, (r.1.clients.map Client.name).Nodup) :
    ((roundsScript db rounds).filterMap Effect.fetched?).Perm
      (listed (roundsScript db rounds) ++ nonPositive (roundsScript db rounds) ++
        (turnsOf db rounds).flatMap fun t => (unlisted db t.1 t.2).map (labels t.2)) := by
  rw [fetched_eq, listed_eq, nonPositive_eq]
  have hturns : ((turnsOf db rounds).flatMap fun t => (writtenQuotes db t.1 t.2).map (labels t.2)).Perm
      ((turnsOf db rounds).flatMap fun t => listedInTurn db t.1 t.2 ++
        ((writtenQuotes db t.1 t.2).filter fun q => !isPositive q).map (labels t.2) ++
        (unlisted db t.1 t.2).map (labels t.2)) := by
    apply List.Perm.flatMap_left
    intro t ht
    obtain ⟨r, hr, ht⟩ := List.mem_flatMap.mp ht
    obtain ⟨symbol, _, rfl⟩ := List.mem_map.mp ht
    exact turn_split (hnames r hr)
  refine hturns.trans ((List.flatMap_append_perm _ _ _).symm.trans (List.Perm.append_right _ ?_))
  exact (List.flatMap_append_perm _ _ _).symm

end Rounds

/-- **When stale drops are accounted for.** -/
theorem stale_drops_accounted_iff (db : Engine) {rounds : List (Round Venue × InstrumentTable)}
    (hnames : ∀ r ∈ rounds, (r.1.clients.map Client.name).Nodup) :
    StaleAccounted db rounds ↔ ∀ t ∈ turnsOf db rounds, TurnBalances db t.1 t.2 := by
  have hsplit := rounds_split db hnames
  have hstale := stale_eq_nil db rounds
  constructor
  · intro h t ht
    have hnil : ((turnsOf db rounds).flatMap fun t => (unlisted db t.1 t.2).map (labels t.2)) = [] := by
      apply List.eq_nil_iff_forall_not_mem.mpr
      intro ⟨symbol, source⟩ hmem
      have hcount := hsplit.count_eq (symbol, source)
      have hbalance := h.split symbol source
      rw [hstale, List.count_nil] at hbalance
      rw [List.count_append, List.count_append] at hcount
      have hpos := List.count_pos_iff.mpr hmem
      omega
    have hturn := List.flatMap_eq_nil_iff.mp hnil t ht
    exact unlisted_eq_nil_iff.mp (List.map_eq_nil_iff.mp hturn)
  · intro h
    have hunlisted : ((turnsOf db rounds).flatMap fun t => (unlisted db t.1 t.2).map (labels t.2)) =
        [] := by
      apply List.flatMap_eq_nil_iff.mpr
      intro t ht
      rw [unlisted_eq_nil_iff.mpr (h t ht), List.map_nil]
    rw [hunlisted, List.append_nil] at hsplit
    constructor
    · apply (counter_right_iff db).mpr
      intro t ht haccepted
      exact gateDrops_eq_nil_iff.mpr ((h t ht).fresh haccepted)
    · intro symbol source
      rw [hstale, List.count_nil, Nat.add_zero, hsplit.count_eq, List.count_append]

/-- Nothing was stale, and everything fetched is listed. -/
theorem crossedRound_accounted : StaleAccounted .postgres [(crossedRound, KeyedTable.empty)] := by
  have hnames : ∀ r ∈ [(crossedRound, (KeyedTable.empty : InstrumentTable))],
      (r.1.clients.map Client.name).Nodup := by
    intro r hr
    rw [List.mem_singleton.mp hr]
    decide
  have hturns : crossedRound.turns .postgres KeyedTable.empty = [Str.ofString "BTC-USD"] := by
    decide +kernel
  apply (stale_drops_accounted_iff .postgres hnames).mpr
  intro t ht
  obtain ⟨r, hr, ht⟩ := List.mem_flatMap.mp ht
  obtain rfl := List.mem_singleton.mp hr
  obtain ⟨symbol, hsymbol, rfl⟩ := List.mem_map.mp ht
  obtain rfl := List.mem_singleton.mp (hturns ▸ hsymbol)
  have hunlisted : unlisted .postgres crossedRound (Str.ofString "BTC-USD") = [] := by decide +kernel
  exact unlisted_eq_nil_iff.mp hunlisted

/-- The gate has dropped the quote of the first venue, and no counter tells. -/
theorem slow_venue_uncounted : ¬ StaleAccounted .postgres [(slowRound, KeyedTable.empty)] := by
  have hdropped : dropped .postgres [(slowRound, KeyedTable.empty)] = [(Str.ofString "BTC-USD", 0)] := by
    decide +kernel
  have hstale : (roundsScript .postgres [(slowRound, KeyedTable.empty)]).filterMap Effect.stale? = [] := by
    decide +kernel
  intro h
  have hcounted := h.counted (Str.ofString "BTC-USD") 0
  rw [hdropped, hstale] at hcounted
  cases hcounted

end Pricestream
