import Pricestream.Proof.Tasks.Derived

/-!
# What one bad reply does to a round

The clients turn whatever goes wrong into a missing reply, but they pass on any pair of decimals, and
a reply the quote columns refuse raises out of the unguarded loops. So a round is harmed by every
reply of an instrument visited that its columns cannot store: it ends there, and neither the rest of
that instrument nor any later one is written. Where there is none, the replies are those of the
sanitized round, and so is everything the round does.
-/

namespace Pricestream

open Library Python

variable {db : Engine} {Venue : Type}

/-- A client whose replies that cannot be stored are missing. -/
def Client.sanitize (db : Engine) (client : Client Venue) : Client Venue where
  name := client.name
  fetch symbol := if AcceptedReply db (client.fetch symbol) then client.fetch symbol else none

def Round.sanitize (db : Engine) (round : Round Venue) : Round Venue :=
  { round with clients := round.clients.map (Client.sanitize db) }

/-- Bad replies do no harm: the round completes, and writes what it writes without them. -/
structure Harmless [LinearOrder Venue] (db : Engine) (round : Round Venue)
    (instruments : InstrumentTable) : Prop where
  completes : Completes db round instruments
  rows : rowsWritten ((fetchQuotes round instruments).2 : Task db Venue Counts) =
    rowsWritten ((fetchQuotes (round.sanitize db) instruments).2 : Task db Venue Counts)

/-! ### Sanitized rounds -/

theorem accepted_sanitize (db : Engine) (round : Round Venue) (symbol : Str) :
    Accepted db (round.sanitize db) symbol := by
  intro client hclient
  obtain ⟨client, _, rfl⟩ := List.mem_map.mp hclient
  show AcceptedReply db (if AcceptedReply db (client.fetch symbol) then client.fetch symbol else none)
  split_ifs with haccepted
  · exact haccepted
  · intro _ _ hreply
    cases hreply

theorem pollClients_sanitize {round : Round Venue} {symbol : Str} (h : Accepted db round symbol)
    (written : ℕ) :
    (pollClients (round.sanitize db) symbol written : Task db Venue _) =
      pollClients round symbol written := by
  have hclients : (round.sanitize db).clients.zipIdx =
      round.clients.zipIdx.map (Prod.map (Client.sanitize db) id) := List.zipIdx_map ..
  unfold pollClients
  rw [hclients, Traced.loop_map]
  refine Traced.loop_congr (fun c hc acc => ?_) _
  have hreply : (Client.sanitize db c.1).fetch symbol = c.1.fetch symbol :=
    if_pos (h c.1 (List.fst_mem_of_mem_zipIdx hc))
  have hpoll : (pollClient (round.sanitize db) symbol (Client.sanitize db c.1) c.2 :
      Task db Venue _) = pollClient round symbol c.1 c.2 := by
    unfold pollClient
    rw [hreply]
    rfl
  show (do return addQuote acc (← pollClient (round.sanitize db) symbol (Client.sanitize db c.1) c.2)) = _
  rw [hpoll]

theorem fetchQuotes_sanitize [LinearOrder Venue] {round : Round Venue} {instruments : InstrumentTable}
    (hlist : ∀ symbol ∈ round.configured, Listable round.upper symbol)
    (h : ∀ symbol, Visited round instruments symbol → Accepted db round symbol) :
    (fetchQuotes (round.sanitize db) instruments : _ × Task db Venue Counts) =
      fetchQuotes round instruments := by
  have hlist' : ∀ symbol ∈ (round.sanitize db).configured, Listable (round.sanitize db).upper symbol :=
    hlist
  rw [fetchQuotes_of_listable hlist, fetchQuotes_of_listable hlist']
  refine Prod.ext rfl (Traced.loop_congr (fun instrument hmem counts => ?_) _)
  have haccepted : Accepted db round instrument.symbol :=
    h _ (exists_mem_instruments_iff.mp ⟨instrument, hmem, rfl⟩)
  simp only [fetchInstrument, pollClients_sanitize haccepted]
  rfl

/-! ### Soundness -/

/-- In exact arithmetic the replies alone decide whether rows fit. -/
theorem sound_exact_iff [LinearOrder Venue] {round : Round Venue} {instruments : InstrumentTable}
    (hctx : round.ctx = .exact) :
    Sound db round instruments ↔
      (∀ symbol ∈ round.configured, Listable round.upper symbol) ∧
        ∀ symbol, Visited round instruments symbol →
          Accepted db round symbol ∧ ((roundBook round symbol).isSome → CallsSucceed round symbol) := by
  constructor
  · rintro ⟨hlist, hundisturbed⟩
    exact ⟨hlist, fun symbol hvisited =>
      ⟨(hundisturbed symbol hvisited).accepted, (hundisturbed symbol hvisited).callsSucceed⟩⟩
  · rintro ⟨hlist, hgood⟩
    refine ⟨hlist, fun symbol hvisited => ?_⟩
    obtain ⟨haccepted, hcalls⟩ := hgood symbol hvisited
    exact ⟨haccepted, rowsFit_exact hctx haccepted, hcalls⟩

/-- In the default context it also takes that the rows fit and that no mid vanishes. -/
theorem sound_default_iff [LinearOrder Venue] {round : Round Venue} {instruments : InstrumentTable}
    (hctx : round.ctx = .default) :
    Sound db round instruments ↔
      (∀ symbol ∈ round.configured, Listable round.upper symbol) ∧
        ∀ symbol, Visited round instruments symbol →
          Accepted db round symbol ∧ ∀ c, roundBook round symbol = some c →
            (c.Fits db ∧ ∀ arb, roundArbitrage round symbol = some arb → arb.Fits db) ∧
              ClearOfTiny (roundQuotes round symbol) ∧ CallsSucceed round symbol := by
  constructor
  · rintro ⟨hlist, hundisturbed⟩
    refine ⟨hlist, fun symbol hvisited => ?_⟩
    obtain ⟨haccepted, hfit, hcalls⟩ := hundisturbed symbol hvisited
    refine ⟨haccepted, fun c hbook => ?_⟩
    have hsome : (roundBook round symbol).isSome := hbook ▸ rfl
    exact ⟨⟨hfit.book c hbook, fun arb harb => hfit.arbitrage arb hsome harb⟩,
      midsHold_default_iff.mp (hctx ▸ hfit.mids hsome), hcalls hsome⟩
  · rintro ⟨hlist, hgood⟩
    refine ⟨hlist, fun symbol hvisited => ?_⟩
    obtain ⟨haccepted, hbooked⟩ := hgood symbol hvisited
    have hsome : (roundBook round symbol).isSome → ∃ c, roundBook round symbol = some c :=
      Option.isSome_iff_exists.mp
    refine ⟨haccepted, ⟨fun c hbook => (hbooked c hbook).1.1, fun h => ?_, fun arb h harb => ?_⟩,
      fun h => ?_⟩
    · obtain ⟨c, hbook⟩ := hsome h
      rw [hctx]
      exact midsHold_default_iff.mpr (hbooked c hbook).2.1
    · obtain ⟨c, hbook⟩ := hsome h
      exact (hbooked c hbook).1.2 arb harb
    · obtain ⟨c, hbook⟩ := hsome h
      exact (hbooked c hbook).2.2

/-- **When no reply does harm.** A round completes, and writes the rows of the sanitized round, exactly
if the configured symbols can be created and, for each instrument visited, every reply can be stored,
the rows computed from them come out and can be stored, and the cache and the channel layer take the
consolidated price. In exact arithmetic the rows come out and can be stored whenever the replies can; in
the default context they come out unless two prices cross and vanish. -/
theorem harmless_iff [LinearOrder Venue] (db : Engine) (round : Round Venue)
    (instruments : InstrumentTable) :
    (Harmless db round instruments ↔ Sound db round instruments) ∧
    (round.ctx = .exact →
      (Harmless db round instruments ↔
        (∀ symbol ∈ round.configured, Listable round.upper symbol) ∧
          ∀ symbol, Visited round instruments symbol →
            Accepted db round symbol ∧
              ((roundBook round symbol).isSome → CallsSucceed round symbol))) ∧
    (round.ctx = .default →
      (Harmless db round instruments ↔
        (∀ symbol ∈ round.configured, Listable round.upper symbol) ∧
          ∀ symbol, Visited round instruments symbol →
            Accepted db round symbol ∧ ∀ c, roundBook round symbol = some c →
              (c.Fits db ∧ ∀ arb, roundArbitrage round symbol = some arb → arb.Fits db) ∧
                ClearOfTiny (roundQuotes round symbol) ∧ CallsSucceed round symbol)) := by
  have hiff : Harmless db round instruments ↔ Sound db round instruments := by
    constructor
    · intro h
      exact completes_iff.mp h.completes
    · intro h
      have hsame := fetchQuotes_sanitize h.listable fun symbol hvisited =>
        (h.undisturbed symbol hvisited).accepted
      exact ⟨completes_iff.mpr h, by rw [hsame]⟩
  exact ⟨hiff, fun hctx => hiff.trans (sound_exact_iff hctx), fun hctx =>
    hiff.trans (sound_default_iff hctx)⟩

/-! ### A reply that is not a number -/

def nanRound : Round ℕ where
  ctx := .exact
  upper s := s
  collate a b := decide (a ≤ b)
  configured := [Str.ofString "BTC-USD", Str.ofString "ETH-USD"]
  maxAge := 30
  clients :=
    [⟨0, fun symbol => if symbol = Str.ofString "BTC-USD" then some (.nan false, .finite 102)
        else some (.finite 10, .finite 11)⟩,
      ⟨1, fun _ => some (.finite 100, .finite 101)⟩]
  clock := ⟨fun _ _ => 0, fun _ _ => 0, fun _ => 0, fun _ => 0⟩
  hasLayer := true
  side _ := none

theorem listable_nanRound : ∀ symbol ∈ nanRound.configured, Listable nanRound.upper symbol := by
  intro symbol hsymbol
  rcases List.mem_pair.mp hsymbol with rfl | rfl
  · exact ⟨by decide, by decide, by decide, by decide⟩
  · exact ⟨by decide, by decide, by decide, by decide⟩

/-- The round raises, and the sound replies behind the bad one are lost with it. -/
theorem nan_reply_does_harm :
    (∃ e, ((fetchQuotes nanRound KeyedTable.empty).2 : Task .postgres ℕ Counts).result = .error e) ∧
    Completes .postgres (nanRound.sanitize .postgres) KeyedTable.empty ∧
    ¬ Harmless .postgres nanRound KeyedTable.empty := by
  have hnot : ¬ Sound .postgres nanRound KeyedTable.empty := by
    intro hsound
    have hvisited : Visited nanRound KeyedTable.empty (Str.ofString "BTC-USD") :=
      ⟨List.mem_cons_self, fun _ hrow => nomatch hrow⟩
    obtain ⟨hbid, _⟩ := (hsound.undisturbed _ hvisited).accepted _ List.mem_cons_self
      (.nan false) (.finite 102) rfl
    exact hbid
  have hsanitized : Sound .postgres (nanRound.sanitize .postgres) KeyedTable.empty :=
    (sound_exact_iff rfl).mpr ⟨listable_nanRound, fun symbol _ =>
      ⟨accepted_sanitize .postgres nanRound symbol, fun _ => ⟨rfl, fun _ => rfl⟩⟩⟩
  refine ⟨raises_fetchQuotes hnot, completes_iff.mpr hsanitized, fun h => hnot ?_⟩
  exact completes_iff.mp h.completes

end Pricestream
