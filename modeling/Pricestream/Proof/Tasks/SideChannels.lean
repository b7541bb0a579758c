import Pricestream.Proof.Tasks.Replies

/-!
# What the side channels can do to the tape

Publishing to Kafka is wrapped, so a failure only moves a counter. Setting the cache and sending to
the channel layer are not, and either of them raising ends the round between an instrument's
consolidated price and its opportunity, with every later instrument unvisited. A round is compared
with the same round in which no call raises: an observer who sees only the rows cannot tell the two
apart as long as the calls for the consolidated prices go through.
-/

namespace Pricestream

open Library Python

variable {db : Engine} {Venue : Type}

def Round.quiet (round : Round Venue) : Round Venue := { round with side := fun _ => none }

/-- The side channels leave the tape alone: the round completes, and writes what it writes when every
call goes through. -/
structure TapeUndisturbed [LinearOrder Venue] (db : Engine) (round : Round Venue)
    (instruments : InstrumentTable) : Prop where
  completes : Completes db round instruments
  rows : rowsWritten ((fetchQuotes round instruments).2 : Task db Venue Counts) =
    rowsWritten ((fetchQuotes round.quiet instruments).2 : Task db Venue Counts)

/-! ### What an observer of the rows sees -/

abbrev SameRows {α : Type} (x y : Task db Venue α) : Prop := Traced.Alike Effect.row? x y

theorem sameRows_publishToKafka (round : Round Venue) (symbol : Str) (i : ℕ) (quote : Quote Venue) :
    SameRows (publishToKafka round symbol i quote : Task db Venue Unit)
      (publishToKafka round.quiet symbol i quote) := by
  unfold publishToKafka
  refine (Traced.Alike.refl _).bind fun _ _ => ?_
  cases round.side (.publish symbol i) with
  | none => exact ⟨rfl, rfl⟩
  | some e => exact ⟨rfl, rfl⟩

theorem sameRows_pollClients (round : Round Venue) (symbol : Str) (written : ℕ) :
    SameRows (pollClients round symbol written : Task db Venue _)
      (pollClients round.quiet symbol written) := by
  refine Traced.Alike.loop (fun c _ acc => ?_) _
  refine Traced.Alike.bind ?_ fun _ _ => .refl _
  unfold pollClient
  cases c.1.fetch symbol with
  | none => exact .refl _
  | some reply =>
      refine (Traced.Alike.refl _).bind fun quote _ => (Traced.Alike.refl _).bind fun _ _ => ?_
      exact (sameRows_publishToKafka round symbol c.2 quote).bind fun _ _ => .refl _

theorem sideCall_quiet {round : Round Venue} {call : SideCall} (h : round.side call = none)
    (effect : Effect db Venue) : sideCall round call effect = sideCall round.quiet call effect := by
  simp only [sideCall, h, Round.quiet]

theorem broadcastWs_quiet {round : Round Venue} {symbol : Str} (h : CallsSucceed round symbol)
    (snapshot : Snapshot Venue) :
    (broadcastWs round symbol snapshot : Task db Venue Unit) =
      broadcastWs round.quiet symbol snapshot := by
  unfold broadcastWs
  by_cases hlayer : round.hasLayer = true
  · have hlayer' : round.quiet.hasLayer = true := hlayer
    rw [if_pos hlayer, if_pos hlayer']
    exact sideCall_quiet (h.2 hlayer) _
  · have hlayer' : ¬ round.quiet.hasLayer = true := hlayer
    rw [if_neg hlayer, if_neg hlayer']

theorem sameRows_publishConsolidated {round : Round Venue} {symbol : Str}
    (h : CallsSucceed round symbol) (c : Consolidated Venue) :
    SameRows (publishConsolidated round symbol c : Task db Venue Unit)
      (publishConsolidated round.quiet symbol c) := by
  refine (Traced.Alike.refl _).bind fun _ _ => (Traced.Alike.refl _).bind fun _ _ =>
    (Traced.Alike.refl _).bind fun _ _ => Traced.Alike.bind ?_ fun _ _ => ?_
  · rw [sideCall_quiet h.1]
    exact .refl _
  · rw [broadcastWs_quiet h]
    exact .refl _

theorem sameRows_consolidateQuotes [LinearOrder Venue] {round : Round Venue} {symbol : Str}
    (hcalls : (roundBook round symbol).isSome → CallsSucceed round symbol) (counts : Counts) :
    SameRows (consolidateQuotes round counts symbol (roundQuotes round symbol) : Task db Venue Counts)
      (consolidateQuotes round.quiet counts symbol (roundQuotes round symbol)) := by
  have hquotes : roundQuotes round.quiet symbol = roundQuotes round symbol := rfl
  cases hbook : roundBook round symbol with
  | none =>
      have hbook' : roundBook round.quiet symbol = none := hbook
      rw [consolidateQuotes_of_none hbook, ← hquotes, consolidateQuotes_of_none hbook']
      exact .refl _
  | some c =>
      have hbook' : roundBook round.quiet symbol = some c := hbook
      rw [consolidateQuotes_of_some hbook, ← hquotes, consolidateQuotes_of_some hbook']
      exact (sameRows_publishConsolidated (hcalls (hbook ▸ rfl)) c).bind fun _ _ => .refl _

theorem sameRows_fetchInstrument [LinearOrder Venue] {round : Round Venue} {instrument : Instrument}
    (haccepted : Accepted db round instrument.symbol)
    (hcalls : (roundBook round instrument.symbol).isSome → CallsSucceed round instrument.symbol)
    (counts : Counts) :
    SameRows (fetchInstrument round counts instrument : Task db Venue Counts)
      (fetchInstrument round.quiet counts instrument) := by
  refine (sameRows_pollClients round instrument.symbol counts.quotes).bind fun polled hpolled => ?_
  obtain rfl := Except.ok.inj (hpolled.symm.trans (runs_pollClients haccepted counts.quotes).returns)
  exact sameRows_consolidateQuotes hcalls _

theorem sameRows_fetchQuotes [LinearOrder Venue] {round : Round Venue} {instruments : InstrumentTable}
    (h : Sound db round instruments) :
    SameRows ((fetchQuotes round instruments).2 : Task db Venue Counts)
      (fetchQuotes round.quiet instruments).2 := by
  have hlist : ∀ symbol ∈ round.quiet.configured, Listable round.quiet.upper symbol := h.listable
  rw [fetchQuotes_of_listable h.listable, fetchQuotes_of_listable hlist]
  refine Traced.Alike.loop (fun instrument hmem counts => ?_) _
  have hundisturbed := h.undisturbed _ (exists_mem_instruments_iff.mp ⟨instrument, hmem, rfl⟩)
  exact sameRows_fetchInstrument hundisturbed.accepted hundisturbed.callsSucceed counts

/-- **When the side channels leave the tape alone.** Whatever publishing to Kafka does, a round
completes and writes the rows it writes when no call raises exactly if, besides the configured symbols
and the replies being sound, setting the cache and sending to the channel layer go through for each
instrument visited that has a consolidated price. -/
theorem tapeUndisturbed_iff [LinearOrder Venue] (db : Engine) (round : Round Venue)
    (instruments : InstrumentTable) :
    (TapeUndisturbed db round instruments ↔ Sound db round instruments) ∧
    (round.ctx = .exact →
      (TapeUndisturbed db round instruments ↔
        (∀ symbol ∈ round.configured, Listable round.upper symbol) ∧
          ∀ symbol, Visited round instruments symbol →
            Accepted db round symbol ∧
              ((roundBook round symbol).isSome → CallsSucceed round symbol))) ∧
    (round.ctx = .default →
      (TapeUndisturbed db round instruments ↔
        (∀ symbol ∈ round.configured, Listable round.upper symbol) ∧
          ∀ symbol, Visited round instruments symbol →
            Accepted db round symbol ∧ ∀ c, roundBook round symbol = some c →
              (c.Fits db ∧ ∀ arb, roundArbitrage round symbol = some arb → arb.Fits db) ∧
                ClearOfTiny (roundQuotes round symbol) ∧ CallsSucceed round symbol)) := by
  have hiff : TapeUndisturbed db round instruments ↔ Sound db round instruments := by
    constructor
    · intro h
      exact completes_iff.mp h.completes
    · intro h
      exact ⟨completes_iff.mpr h, (sameRows_fetchQuotes h).seen⟩
  exact ⟨hiff, fun hctx => hiff.trans (sound_exact_iff hctx), fun hctx =>
    hiff.trans (sound_default_iff hctx)⟩

/-! ### A cache that is down -/

def cacheDownRound : Round ℕ where
  ctx := .exact
  upper s := s
  collate a b := decide (a ≤ b)
  configured := [Str.ofString "BTC-USD", Str.ofString "ETH-USD"]
  maxAge := 30
  clients := [⟨0, fun _ => some (.finite 100, .finite 101)⟩]
  clock := ⟨fun _ _ => 0, fun _ _ => 0, fun _ => 0, fun _ => 0⟩
  hasLayer := true
  side call := if call = .cacheSet (Str.ofString "BTC-USD") then some .connectionError else none

/-- The round raises, though it completes when the cache is up. -/
theorem cache_down_disturbs_tape :
    (∃ e, ((fetchQuotes cacheDownRound KeyedTable.empty).2 : Task .postgres ℕ Counts).result =
      .error e) ∧
    Completes .postgres cacheDownRound.quiet KeyedTable.empty ∧
    ¬ TapeUndisturbed .postgres cacheDownRound KeyedTable.empty := by
  have hlist : ∀ symbol ∈ cacheDownRound.configured, Listable cacheDownRound.upper symbol :=
    listable_nanRound
  have hreplies : ∀ symbol, Accepted .postgres cacheDownRound symbol := by
    intro symbol client hclient bid ask hreply
    obtain rfl := List.mem_singleton.mp hclient
    obtain ⟨rfl, rfl⟩ := Prod.mk.inj (Option.some.inj hreply)
    exact ⟨by decide +kernel, by decide +kernel⟩
  have hnot : ¬ Sound .postgres cacheDownRound KeyedTable.empty := by
    intro hsound
    have hvisited : Visited cacheDownRound KeyedTable.empty (Str.ofString "BTC-USD") :=
      ⟨List.mem_cons_self, fun _ hrow => nomatch hrow⟩
    have hbook : (roundBook cacheDownRound (Str.ofString "BTC-USD")).isSome := by decide +kernel
    have hcalls := (hsound.undisturbed _ hvisited).callsSucceed hbook
    exact nomatch hcalls.1
  have hquiet : Sound .postgres cacheDownRound.quiet KeyedTable.empty :=
    (sound_exact_iff rfl).mpr ⟨hlist, fun symbol _ => ⟨hreplies symbol, fun _ => ⟨rfl, fun _ => rfl⟩⟩⟩
  refine ⟨raises_fetchQuotes hnot, completes_iff.mpr hquiet, fun h => hnot ?_⟩
  exact completes_iff.mp h.completes

end Pricestream
