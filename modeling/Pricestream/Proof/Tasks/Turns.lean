import Mathlib.Data.List.TakeWhile
import Pricestream.Proof.Tasks.Partial

/-!
# The turns of a round

What a round has done, turn by turn and in order, whether it returns or raises. The turns a round comes
to are those up to and including the first that raises. In such a turn the quotes are written up to the
first reply that is refused, and the consolidated price if all replies were stored and the price fits
its columns. An observer of the trace of a round, or of many, sees what these turns show of themselves.
-/

namespace Pricestream

open Library Python

variable {db : Engine} {Venue : Type}

/-! ### Turns -/

/-- The quotes that the turn of an instrument writes: its replies up to the first that is refused. -/
def writtenQuotes (db : Engine) (round : Round Venue) (symbol : Str) : List (Quote Venue) :=
  (round.clients.zipIdx.takeWhile fun (client, _) => AcceptedReply db (client.fetch symbol)).filterMap
    fun (client, i) => quoteOf round symbol client i

variable [LinearOrder Venue]

/-- The consolidated price that a turn writes. -/
def writtenPrice (db : Engine) (round : Round Venue) (symbol : Str) :
    Option (ConsolidatedPrice db Venue) :=
  if Accepted db round symbol then
    (roundBook round symbol).bind fun c => (storeBook db round symbol c).toOption
  else none

/-- The turns a round comes to: up to and including the first that raises. -/
def Round.turns (db : Engine) (round : Round Venue) (instruments : InstrumentTable) : List Str :=
  if ∀ symbol ∈ round.configured, Listable round.upper symbol then
    Traced.reached (Undisturbed db round) (round.symbols instruments)
  else []

def turnsOf (db : Engine) (rounds : List (Round Venue × InstrumentTable)) : List (Round Venue × Str) :=
  rounds.flatMap fun (round, instruments) =>
    (round.turns db instruments).map fun symbol => (round, symbol)

variable {round : Round Venue} {symbol : Str} {instruments : InstrumentTable}

/-! ### The turns of a round -/

theorem raises_fetchInstrument_iff {counts : Counts} {instrument : Instrument} :
    (fetchInstrument round counts instrument : Task db Venue Counts).Raises ↔
      ¬ Undisturbed db round instrument.symbol := by
  constructor
  · intro hraises hundisturbed
    exact Traced.not_raises_iff.mpr ⟨_, (runs_fetchInstrument hundisturbed counts).returns⟩ hraises
  · exact fun hnot => raises_fetchInstrument hnot counts

theorem seen_fetchQuotes {γ : Type} {see : Effect db Venue → Option γ} {seen : Str → List γ}
    (hseen : ∀ counts instrument, (fetchInstrument round counts instrument :
      Task db Venue Counts).trace.filterMap see = seen instrument.symbol) :
    ((fetchQuotes round instruments).2 : Task db Venue Counts).trace.filterMap see =
      (round.turns db instruments).flatMap seen := by
  unfold Round.turns
  split_ifs with hlist
  · rw [fetchQuotes_of_listable hlist, Round.symbols, Traced.reached_map, List.flatMap_map]
    exact Traced.seen_loop (fun instrument _ counts => hseen counts instrument)
      (fun _ _ _ => raises_fetchInstrument_iff) _
  · obtain ⟨e, he⟩ : ∃ e, (fetchQuotes round instruments : _ × Task db Venue Counts) =
        (instruments, Traced.raise e) := fetchQuotes_of_not_listable hlist
    rw [he]
    rfl

theorem seen_rounds {γ : Type} {see : Effect db Venue → Option γ} (seen : Round Venue → Str → List γ)
    (hseen : ∀ round counts instrument, (fetchInstrument round counts instrument :
      Task db Venue Counts).trace.filterMap see = seen round instrument.symbol)
    (rounds : List (Round Venue × InstrumentTable)) :
    (roundsScript db rounds).filterMap see = (turnsOf db rounds).flatMap fun t => seen t.1 t.2 := by
  rw [roundsScript, turnsOf, List.filterMap_flatMap, List.flatMap_assoc]
  congr 1
  funext ⟨round, instruments⟩
  rw [List.flatMap_map]
  exact seen_fetchQuotes (hseen round)

/-! ### What is seen of a turn -/

omit [LinearOrder Venue] in
theorem writtenQuotes_of_accepted (h : Accepted db round symbol) :
    writtenQuotes db round symbol = roundQuotes round symbol := by
  have hall : round.clients.zipIdx.takeWhile (fun (client, _) => AcceptedReply db (client.fetch symbol)) =
      round.clients.zipIdx := by
    apply List.takeWhile_eq_self_iff.mpr
    intro c hc
    exact decide_eq_true (h c.1 (List.fst_mem_of_mem_zipIdx hc))
  rw [writtenQuotes, hall, roundQuotes]

omit [LinearOrder Venue] in
theorem trace_pollClient_of_not_accepted {client : Client Venue} {i : ℕ}
    (h : ¬ AcceptedReply db (client.fetch symbol)) :
    (pollClient round symbol client i : Task db Venue _).trace = [] := by
  unfold pollClient
  cases hreply : client.fetch symbol with
  | none =>
      rw [hreply] at h
      exact absurd (acceptedReply_none db) h
  | some reply =>
      obtain ⟨bid, ask⟩ := reply
      rw [hreply, acceptedReply_some] at h
      have hraises : ∀ timestamp,
          (createQuote symbol client.name bid ask timestamp : Task db Venue _).Raises :=
        fun _ => raises_createQuote h
      rw [(hraises _).trace_bind]
      cases bid with
      | infinity _ | nan _ => rfl
      | finite b =>
          cases ask with
          | infinity _ | nan _ => rfl
          | finite a =>
              have hrow : ¬ ∃ row, QuoteRow.create db symbol client.name (.finite b) (.finite a)
                  (round.clock.fetched symbol i) = .ok row := fun hok => h (exists_quoteRow_iff.mp hok)
              exact (Traced.raises_ofExcept hrow).trace_bind _

omit [LinearOrder Venue] in
theorem seen_pollClients {γ : Type} {see : Effect db Venue → Option γ} {g : Quote Venue → γ}
    (hsee : ∀ client i, (pollEffects db round symbol client i).filterMap see =
      ((quoteOf round symbol client i).map g).toList) (written : ℕ) :
    (pollClients round symbol written : Task db Venue _).trace.filterMap see =
      (writtenQuotes db round symbol).map g := by
  have hloop : (pollClients round symbol written : Task db Venue _).trace.filterMap see =
      (Traced.reached (fun c : Client Venue × ℕ => AcceptedReply db (c.1.fetch symbol))
        round.clients.zipIdx).flatMap fun c =>
          if AcceptedReply db (c.1.fetch symbol) then
            ((quoteOf round symbol c.1 c.2).map g).toList else [] := by
    refine Traced.seen_loop (fun c _ acc => ?_) (fun c _ acc => ?_) _
    · rw [Traced.seen_bind_left fun _ _ w hw => absurd hw List.not_mem_nil]
      split_ifs with haccepted
      · rw [(runs_pollClient haccepted).trace_eq, hsee]
      · rw [trace_pollClient_of_not_accepted haccepted]
        rfl
    · constructor
      · intro hraises haccepted
        obtain ⟨e, he⟩ := hraises
        have hpoll : (pollClient round symbol c.1 c.2 : Task db Venue _).Returns
            (quoteOf round symbol c.1 c.2) := (runs_pollClient haccepted).returns
        have hreturns := hpoll.bind (f := fun quote => pure (addQuote acc quote)) (Traced.returns_pure _)
        cases he.symm.trans hreturns
      · exact fun hnot => (raises_pollClient hnot).bind _
  have hnone : ∀ c : Client Venue × ℕ, ¬ AcceptedReply db (c.1.fetch symbol) →
      (if AcceptedReply db (c.1.fetch symbol) then
        ((quoteOf round symbol c.1 c.2).map g).toList else []) = [] := fun _ hc => if_neg hc
  rw [hloop, Traced.flatMap_reached hnone, writtenQuotes, List.map_filterMap,
    List.filterMap_eq_flatMap_toList]
  apply List.flatMap_congr
  intro c hc
  exact if_pos (by simpa using List.mem_takeWhile_imp hc)

omit [LinearOrder Venue] in
theorem event_pollEffects (client : Client Venue) (i : ℕ) :
    (pollEffects db round symbol client i).filterMap Effect.event? =
      ((quoteOf round symbol client i).map fun q => (symbol, q)).toList := by
  unfold pollEffects
  cases quoteOf round symbol client i with
  | none => rfl
  | some q =>
      rcases kafkaCounter_eq round symbol i with hkafka | hkafka <;> simp only [hkafka] <;>
        cases storeQuote db symbol q <;> rfl

omit [LinearOrder Venue] in
theorem fetched_pollEffects (client : Client Venue) (i : ℕ) :
    (pollEffects db round symbol client i).filterMap Effect.fetched? =
      ((quoteOf round symbol client i).map fun q => (symbol, q.source)).toList := by
  unfold pollEffects
  cases hq : quoteOf round symbol client i with
  | none => rfl
  | some q =>
      rw [← source_of_quoteOf hq]
      rcases kafkaCounter_eq round symbol i with hkafka | hkafka <;> simp only [hkafka] <;>
        cases storeQuote db symbol q <;> rfl

theorem stage_of_mem_consolidateQuotes {counts : Counts} {w : Effect db Venue}
    (hw : w ∈ (consolidateQuotes round counts symbol (roundQuotes round symbol) :
      Task db Venue Counts).trace) : w.stage = .price ∨ w.stage = .signal := by
  obtain ⟨c, _, hpublish | ⟨_, arb, _, hrecord⟩⟩ := mem_consolidateQuotes.mp hw
  · obtain ⟨row, _, rfl | rfl | ⟨_, rfl | ⟨_, _, rfl⟩⟩⟩ := mem_publishConsolidated.mp hpublish <;>
      exact Or.inl rfl
  · obtain ⟨row, _, rfl | rfl⟩ := mem_recordArbitrage.mp hrecord <;> exact Or.inr rfl

theorem seen_written {γ : Type} {see : Effect db Venue → Option γ} {g : Quote Venue → γ}
    {counts : Counts} {instrument : Instrument} (hstage : ∀ w, w.stage ≠ .poll → see w = none)
    (hsee : ∀ client i, (pollEffects db round instrument.symbol client i).filterMap see =
      ((quoteOf round instrument.symbol client i).map g).toList) :
    (fetchInstrument round counts instrument : Task db Venue Counts).trace.filterMap see =
      (writtenQuotes db round instrument.symbol).map g := by
  rw [fetchInstrument, Traced.seen_bind_left, seen_pollClients hsee]
  intro polled hpolled w hw
  obtain ⟨_, rfl⟩ := returns_pollClients hpolled
  apply hstage
  rcases stage_of_mem_consolidateQuotes hw with hw | hw <;> rw [hw] <;> decide

omit [LinearOrder Venue] in
theorem seen_publishConsolidated {c : Consolidated Venue} :
    (publishConsolidated round symbol c : Task db Venue Unit).trace.filterMap Effect.consolidatedRow? =
      (storeBook db round symbol c).toOption.toList := by
  have htail : ∀ w ∈ (do
      Traced.emit (.inc (.consolidated symbol))
      sideCall round (.cacheSet symbol) (.cacheSet (cacheKey symbol) (snapshotOf round symbol c))
      broadcastWs round symbol (snapshotOf round symbol c) : Task db Venue Unit).trace,
      w.consolidatedRow? = none := by
    intro w hw
    rw [Traced.mem_trace_emit_bind, mem_sideCall_bind, mem_broadcastWs] at hw
    rcases hw with rfl | ⟨_, rfl | ⟨_, _, rfl⟩⟩ <;> rfl
  unfold publishConsolidated
  change (Traced.ofExcept (storeBook db round symbol c) >>= _).trace.filterMap _ = _
  cases hstore : storeBook db round symbol c with
  | error e => rfl
  | ok row =>
      have hseen : ([.insert (.consolidated row)] : List (Effect db Venue)).filterMap
          Effect.consolidatedRow? = [row] := rfl
      rw [(Traced.returns_ofExcept rfl).trace_bind, (Traced.returns_emit _).trace_bind,
        List.filterMap_append, List.filterMap_append]
      change [] ++ (([.insert (.consolidated row)] : List (Effect db Venue)).filterMap
        Effect.consolidatedRow? ++ _) = [row]
      rw [hseen, List.nil_append]
      exact congrArg ([row] ++ ·) (List.filterMap_eq_nil_iff.mpr htail)

theorem seen_price {counts : Counts} {instrument : Instrument} :
    (fetchInstrument round counts instrument : Task db Venue Counts).trace.filterMap
      Effect.consolidatedRow? = (writtenPrice db round instrument.symbol).toList := by
  have hpolls : (pollClients round instrument.symbol counts.quotes :
      Task db Venue _).trace.filterMap Effect.consolidatedRow? = [] := by
    apply List.filterMap_eq_nil_iff.mpr
    intro w hw
    cases only_pollClients _ _ hw <;> rfl
  unfold writtenPrice
  split_ifs with haccepted
  · rw [fetchInstrument, (runs_pollClients haccepted counts.quotes).returns.trace_bind,
      List.filterMap_append, hpolls, List.nil_append]
    cases hbook : roundBook round instrument.symbol with
    | none =>
        rw [consolidateQuotes_of_none hbook]
        rfl
    | some c =>
        rw [consolidateQuotes_of_some hbook, Traced.seen_bind_left, seen_publishConsolidated]
        · rfl
        · intro _ _ w hw
          rcases mem_signalArbitrage.mp hw with ⟨arb, _, hrecord⟩
          obtain ⟨row, _, rfl | rfl⟩ := mem_recordArbitrage.mp hrecord <;> rfl
  · rw [fetchInstrument, (raises_pollClients haccepted counts.quotes).trace_bind, hpolls]
    rfl

end Pricestream
