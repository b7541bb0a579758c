import Pricestream.Proof.Tasks.Conservation

/-!
# What a round has done, also when it raises

An exception leaves behind what was done before it, and a claim about the rows of a round is about
those too. Here the trace of each part of a round is described without asking whether the part
returns: an effect of a later stage is there only if everything before that stage went through.
-/

namespace Pricestream

open Library Python

variable {db : Engine} {Venue : Type} {round : Round Venue} {symbol : Str} {w : Effect db Venue}

/-! ### The parts of a turn -/

/-- What polling the venues of an instrument may do. -/
inductive PollEffect (symbol : Str) : Effect db Venue → Prop where
  | row (row : QuoteRow db Venue) : PollEffect symbol (.insert (.quote row))
  | fetched (source : Venue) : PollEffect symbol (.inc (.quotesFetched symbol source))
  | failed (source : Venue) : PollEffect symbol (.inc (.quotesFailed symbol source))
  | publish (quote : Quote Venue) : PollEffect symbol (.publish symbol quote)
  | published : PollEffect symbol (.inc .kafkaPublished)
  | publishFailed : PollEffect symbol (.inc .kafkaPublishFailed)

theorem PollEffect.stage (h : PollEffect symbol w) : w.stage = .poll := by
  cases h <;> rfl

theorem only_createQuote (source : Venue) (bid ask : Decimal) (timestamp : DateTime.Instant) :
    (createQuote symbol source bid ask timestamp : Task db Venue _).Only (PollEffect symbol) := by
  unfold createQuote
  split
  · refine (Traced.only_ofExcept _).bind fun row => Traced.Only.bind ?_ fun _ => Traced.only_pure _
    exact Traced.only_emit (.row row)
  · exact Traced.only_raise _

theorem only_publishToKafka (i : ℕ) (quote : Quote Venue) :
    (publishToKafka round symbol i quote : Task db Venue _).Only (PollEffect symbol) := by
  unfold publishToKafka
  apply Traced.Only.bind
  · exact Traced.only_emit (.publish quote)
  · intro _
    split
    · exact Traced.only_emit .published
    · exact Traced.only_emit .publishFailed

theorem only_pollClient (client : Client Venue) (i : ℕ) :
    (pollClient round symbol client i : Task db Venue _).Only (PollEffect symbol) := by
  unfold pollClient
  split
  · apply Traced.Only.bind
    · exact Traced.only_emit (.failed client.name)
    · exact fun _ => Traced.only_pure _
  · refine (only_createQuote _ _ _ _).bind fun quote => Traced.Only.bind ?_ fun _ =>
      (only_publishToKafka _ _).bind fun _ => Traced.only_pure _
    exact Traced.only_emit (.fetched client.name)

theorem only_pollClients (written : ℕ) :
    (pollClients round symbol written : Task db Venue _).Only (PollEffect symbol) :=
  Traced.only_loop (fun c _ _ => (only_pollClient c.1 c.2).bind fun _ => Traced.only_pure _) _

theorem returns_pollClients {written : ℕ} {polled : ℕ × List (Quote Venue)}
    (h : (pollClients round symbol written : Task db Venue _).Returns polled) :
    Accepted db round symbol ∧
      polled = (written + (roundQuotes round symbol).length, roundQuotes round symbol) := by
  have haccepted : Accepted db round symbol := by
    by_contra hnot
    exact Traced.not_raises_iff.mpr ⟨polled, h⟩ (raises_pollClients hnot written)
  exact ⟨haccepted, Except.ok.inj (h.symm.trans (runs_pollClients haccepted written).returns)⟩

theorem mem_sideCall {call : SideCall} {effect : Effect db Venue} :
    w ∈ (sideCall round call effect).trace ↔ round.side call = none ∧ w = effect := by
  unfold sideCall
  cases round.side call with
  | none => simp [Traced.emit]
  | some e => simp [Traced.raise]

theorem mem_sideCall_bind {call : SideCall} {effect : Effect db Venue} {β : Type}
    {f : Unit → Task db Venue β} :
    w ∈ (sideCall round call effect >>= f).trace ↔
      round.side call = none ∧ (w = effect ∨ w ∈ (f ()).trace) := by
  unfold sideCall
  cases round.side call with
  | none => simp [Traced.mem_trace_emit_bind]
  | some e => simp [Traced.raise, Bind.bind]

theorem mem_broadcastWs {snapshot : Snapshot Venue} :
    w ∈ (broadcastWs round symbol snapshot : Task db Venue Unit).trace ↔
      round.hasLayer = true ∧ round.side (.groupSend symbol) = none ∧
        w = .groupSend (groupName symbol) symbol snapshot := by
  unfold broadcastWs
  split_ifs with hlayer
  · rw [mem_sideCall]
    simp [hlayer]
  · simp [hlayer, pure]

theorem mem_publishConsolidated {c : Consolidated Venue} :
    w ∈ (publishConsolidated round symbol c : Task db Venue Unit).trace ↔
      ∃ row, storeBook db round symbol c = .ok row ∧
        (w = .insert (.consolidated row) ∨ w = .inc (.consolidated symbol) ∨
          round.side (.cacheSet symbol) = none ∧
            (w = .cacheSet (cacheKey symbol) (snapshotOf round symbol c) ∨
              round.hasLayer = true ∧ round.side (.groupSend symbol) = none ∧
                w = .groupSend (groupName symbol) symbol (snapshotOf round symbol c))) := by
  unfold publishConsolidated
  simp only [Traced.mem_trace_ofExcept_bind, Traced.mem_trace_emit_bind, mem_sideCall_bind,
    mem_broadcastWs]
  rfl

theorem mem_recordArbitrage {arb : Arbitrage Venue} :
    w ∈ (recordArbitrage round symbol arb : Task db Venue Unit).trace ↔
      ∃ row, storeArbitrage db round symbol arb = .ok row ∧
        (w = .insert (.arbitrage row) ∨
          w = .inc (.arbitrageDetected symbol arb.buyVenue arb.sellVenue)) := by
  have hemit : ∀ effect, w ∈ (Traced.emit effect : Task db Venue Unit).trace ↔ w = effect :=
    fun effect => List.mem_singleton
  unfold recordArbitrage
  simp only [Traced.mem_trace_ofExcept_bind, Traced.mem_trace_emit_bind, hemit, storeArbitrage,
    bind_eq_ok]
  constructor
  · intro ⟨bps, hbps, row, hrow, hw⟩
    exact ⟨row, ⟨bps, hbps, hrow⟩, hw⟩
  · intro ⟨row, ⟨bps, hbps, hrow⟩, hw⟩
    exact ⟨bps, hbps, row, hrow, hw⟩

theorem returns_publishConsolidated {c : Consolidated Venue} :
    (publishConsolidated round symbol c : Task db Venue Unit).Returns () ↔
      c.Fits db ∧ CallsSucceed round symbol := by
  constructor
  · intro h
    by_contra hnot
    exact Traced.not_raises_iff.mpr ⟨_, h⟩ (raises_publishConsolidated hnot)
  · intro ⟨hfits, hcalls⟩
    exact (runs_publishConsolidated hfits hcalls).returns

/-! ### The turn and the round -/

variable [LinearOrder Venue] {instruments : InstrumentTable}

theorem mem_signalArbitrage {counts : Counts} :
    w ∈ (signalArbitrage round counts symbol (roundQuotes round symbol) : Task db Venue Counts).trace ↔
      ∃ arb, roundArbitrage round symbol = some arb ∧
        w ∈ (recordArbitrage round symbol arb : Task db Venue Unit).trace := by
  unfold signalArbitrage roundArbitrage
  rw [Traced.mem_trace_ofExcept_bind]
  cases detectArbitrage round.ctx (roundQuotes round symbol) with
  | error e => simp [Except.toOption]
  | ok found =>
      cases found with
      | none => simp [Except.toOption, pure]
      | some arb => simp [Except.toOption, Traced.mem_trace_bind, pure]

theorem mem_consolidateQuotes {counts : Counts} :
    w ∈ (consolidateQuotes round counts symbol (roundQuotes round symbol) :
        Task db Venue Counts).trace ↔
      ∃ c, roundBook round symbol = some c ∧
        (w ∈ (publishConsolidated round symbol c : Task db Venue Unit).trace ∨
          (c.Fits db ∧ CallsSucceed round symbol) ∧ ∃ arb, roundArbitrage round symbol = some arb ∧
            w ∈ (recordArbitrage round symbol arb : Task db Venue Unit).trace) := by
  cases hbook : roundBook round symbol with
  | none =>
      rw [consolidateQuotes_of_none hbook]
      simp [pure]
  | some c =>
      rw [consolidateQuotes_of_some hbook, Traced.mem_trace_bind]
      simp only [mem_signalArbitrage, Option.some.injEq, exists_eq_left', ← returns_publishConsolidated]
      exact or_congr_right ⟨fun ⟨_, h⟩ => h, fun h => ⟨(), h⟩⟩

theorem mem_fetchInstrument {counts : Counts} {instrument : Instrument} :
    w ∈ (fetchInstrument round counts instrument : Task db Venue Counts).trace ↔
      w ∈ (pollClients round instrument.symbol counts.quotes : Task db Venue _).trace ∨
        Accepted db round instrument.symbol ∧ ∃ c, roundBook round instrument.symbol = some c ∧
          (w ∈ (publishConsolidated round instrument.symbol c : Task db Venue Unit).trace ∨
            (c.Fits db ∧ CallsSucceed round instrument.symbol) ∧
              ∃ arb, roundArbitrage round instrument.symbol = some arb ∧
                w ∈ (recordArbitrage round instrument.symbol arb : Task db Venue Unit).trace) := by
  rw [fetchInstrument, Traced.mem_trace_bind]
  refine or_congr_right ⟨?_, ?_⟩
  · intro ⟨polled, hpolled, hw⟩
    obtain ⟨haccepted, rfl⟩ := returns_pollClients hpolled
    exact ⟨haccepted, mem_consolidateQuotes.mp hw⟩
  · intro ⟨haccepted, hw⟩
    exact ⟨_, (runs_pollClients haccepted counts.quotes).returns, mem_consolidateQuotes.mpr hw⟩

theorem returns_turns {l : List Instrument} {start counts : Counts}
    (h : (Traced.loop (fetchInstrument round) start l : Task db Venue Counts).Returns counts) :
    ∀ instrument ∈ l, Undisturbed db round instrument.symbol := by
  by_contra hnot
  push Not at hnot
  obtain ⟨instrument, hmem, hnot⟩ := hnot
  exact Traced.not_raises_iff.mpr ⟨counts, h⟩
    (Traced.raises_loop ⟨instrument, hmem, fun counts => raises_fetchInstrument hnot counts⟩ start)

/-- What some rounds do, one after the other. -/
def roundsScript (db : Engine) (rounds : List (Round Venue × InstrumentTable)) :
    List (Effect db Venue) :=
  rounds.flatMap fun (round, instruments) =>
    ((fetchQuotes round instruments).2 : Task db Venue Counts).trace

theorem mem_fetchQuotes :
    w ∈ ((fetchQuotes round instruments).2 : Task db Venue Counts).trace ↔
      (∀ symbol ∈ round.configured, Listable round.upper symbol) ∧
        ∃ front instrument back counts,
          round.instruments (round.created instruments) = front ++ instrument :: back ∧
          (Traced.loop (fetchInstrument round) ⟨0, 0, 0⟩ front : Task db Venue Counts).Returns counts ∧
          w ∈ (fetchInstrument round counts instrument : Task db Venue Counts).trace := by
  by_cases hlist : ∀ symbol ∈ round.configured, Listable round.upper symbol
  · rw [fetchQuotes_of_listable hlist, and_iff_right hlist]
    exact Traced.mem_trace_loop
  · obtain ⟨e, he⟩ : ∃ e, (fetchQuotes round instruments : _ × Task db Venue Counts) =
        (instruments, Traced.raise e) := fetchQuotes_of_not_listable hlist
    rw [he]
    simp only [Traced.raise, List.not_mem_nil, hlist, false_and]

/-- What is done about a consolidated price is done in the turn that computed it, behind its row. -/
theorem turn_of_stage_price (hstage : w.stage = .price)
    (hw : w ∈ ((fetchQuotes round instruments).2 : Task db Venue Counts).trace) :
    ∃ symbol c row, roundBook round symbol = some c ∧ storeBook db round symbol c = .ok row ∧
      .insert (.consolidated row) ∈
        ((fetchQuotes round instruments).2 : Task db Venue Counts).trace ∧
      w ∈ bookEffects db round symbol c := by
  obtain ⟨hlist, front, instrument, back, counts, hrows, hreturns, hturn⟩ := mem_fetchQuotes.mp hw
  rcases mem_fetchInstrument.mp hturn with hpoll | ⟨haccepted, c, hbook, hpublish | ⟨_, arb, _, hrecord⟩⟩
  · rw [(only_pollClients _ _ hpoll).stage] at hstage
    cases hstage
  · obtain ⟨row, hrow, hw⟩ := mem_publishConsolidated.mp hpublish
    refine ⟨instrument.symbol, c, row, hbook, hrow, ?_, ?_⟩
    · refine mem_fetchQuotes.mpr ⟨hlist, front, instrument, back, counts, hrows, hreturns, ?_⟩
      refine mem_fetchInstrument.mpr (Or.inr ⟨haccepted, c, hbook, Or.inl ?_⟩)
      exact mem_publishConsolidated.mpr ⟨row, hrow, Or.inl rfl⟩
    · rw [mem_bookEffects]
      rcases hw with hw | hw | ⟨_, hw | ⟨hlayer, _, hw⟩⟩
      · exact Or.inl ⟨row, hrow, hw⟩
      · exact Or.inr (Or.inl hw)
      · exact Or.inr (Or.inr (Or.inl hw))
      · exact Or.inr (Or.inr (Or.inr ⟨hlayer, hw⟩))
  · obtain ⟨row, _, rfl | rfl⟩ := mem_recordArbitrage.mp hrecord <;> cases hstage

theorem price_of_mem {price : ConsolidatedPrice db Venue}
    (h : .insert (.consolidated price) ∈ ((fetchQuotes round instruments).2 : Task db Venue Counts).trace) :
    ∃ c, roundBook round price.instrument = some c ∧ storeBook db round price.instrument c = .ok price := by
  obtain ⟨symbol, c, row, hbook, hrow, _, hmem⟩ := turn_of_stage_price rfl h
  have heq : price = row := by
    rcases mem_bookEffects.mp hmem with ⟨row', hrow', heq⟩ | heq | heq | ⟨_, heq⟩
    · obtain rfl := Except.ok.inj (hrow.symm.trans hrow')
      simpa using heq
    · simp at heq
    · simp at heq
    · simp at heq
  obtain rfl := heq
  obtain rfl := label_of_storeBook hrow
  exact ⟨c, hbook, hrow⟩

end Pricestream
