import Pricestream.Proof.Tasks.Effects

/-!
# When a round completes

The loops over instruments and venues are unguarded, so a round completes exactly when nothing in it
raises: every configured symbol can be created, every reply of an instrument visited can be stored,
what is computed from the replies comes out and can be stored, and the calls to the cache and to the
channel layer go through for each instrument that has a consolidated price. Kafka does not matter. What each function
of a round does on these inputs is already known from its effects. Here it gets the lemma that it
raises on all others, and the loops add them up.
-/

namespace Pricestream

open Library Python

variable {db : Engine} {Venue : Type}

/-! ### One venue -/

theorem raises_createQuote {symbol : Str} {source : Venue} {bid ask : Decimal}
    {timestamp : DateTime.Instant}
    (h : ¬ (Storable (priceColumn db) bid ∧ Storable (priceColumn db) ask)) :
    (createQuote symbol source bid ask timestamp : Task db Venue _).Raises := by
  cases bid with
  | infinity _ | nan _ => exact Traced.raises_raise _
  | finite b =>
      cases ask with
      | infinity _ | nan _ => exact Traced.raises_raise _
      | finite a =>
          have hrow : ¬ ∃ row, QuoteRow.create db symbol source (.finite b) (.finite a) timestamp = .ok row :=
            fun hok => h (exists_quoteRow_iff.mp hok)
          exact (Traced.raises_ofExcept hrow).bind _

theorem raises_pollClient {round : Round Venue} {symbol : Str} {client : Client Venue} {i : ℕ}
    (h : ¬ AcceptedReply db (client.fetch symbol)) :
    (pollClient round symbol client i : Task db Venue _).Raises := by
  unfold pollClient
  cases hreply : client.fetch symbol with
  | none =>
      rw [hreply] at h
      exact absurd (acceptedReply_none db) h
  | some reply =>
      obtain ⟨bid, ask⟩ := reply
      rw [hreply, acceptedReply_some] at h
      exact (raises_createQuote h).bind _

/-! ### All venues -/

theorem raises_pollClients {round : Round Venue} {symbol : Str} (h : ¬ Accepted db round symbol)
    (written : ℕ) : (pollClients round symbol written : Task db Venue _).Raises := by
  unfold Accepted at h
  push Not at h
  obtain ⟨client, hclient, hnot⟩ := h
  obtain ⟨i, hi⟩ : ∃ i, (client, i) ∈ round.clients.zipIdx := by
    obtain ⟨i, hlt, rfl⟩ := List.mem_iff_getElem.mp hclient
    exact ⟨i, List.mk_mem_zipIdx_iff_getElem?.mpr (List.getElem?_eq_getElem hlt)⟩
  exact Traced.raises_loop ⟨(client, i), hi, fun acc => (raises_pollClient hnot).bind _⟩ _

/-! ### One instrument -/

theorem raises_sideCall {round : Round Venue} {call : SideCall} (h : round.side call ≠ none)
    (effect : Effect db Venue) : (sideCall round call effect).Raises := by
  obtain ⟨e, he⟩ := Option.ne_none_iff_exists'.mp h
  simp only [sideCall, he]
  exact Traced.raises_raise e

theorem raises_publishConsolidated {round : Round Venue} {symbol : Str} {c : Consolidated Venue}
    (h : ¬ (c.Fits db ∧ CallsSucceed round symbol)) :
    (publishConsolidated round symbol c : Task db Venue _).Raises := by
  by_cases hok : ∃ row, ConsolidatedPrice.create db symbol c.mid c.bid c.ask c.sources
      (round.clock.priced symbol) = .ok row
  · have hfits := exists_consolidatedPrice_iff.mp hok
    obtain ⟨row, hrow⟩ := hok
    refine (Traced.returns_ofExcept hrow).bind_raises ((Traced.returns_emit _).bind_raises
      ((Traced.returns_emit _).bind_raises ?_))
    by_cases hcache : round.side (.cacheSet symbol) = none
    · refine (runs_sideCall hcache _).returns.bind_raises ?_
      have hsend : ¬ (round.hasLayer = true → round.side (.groupSend symbol) = none) :=
        fun hsend => h ⟨hfits, hcache, hsend⟩
      rw [Classical.not_imp] at hsend
      unfold broadcastWs
      rw [if_pos hsend.1]
      exact raises_sideCall hsend.2 _
    · exact (raises_sideCall hcache _).bind _
  · exact (Traced.raises_ofExcept hok).bind _

theorem raises_recordArbitrage {round : Round Venue} {symbol : Str} {arb : Arbitrage Venue}
    (h : ¬ arb.Fits db) : (recordArbitrage round symbol arb : Task db Venue _).Raises := by
  by_cases hbps : ∃ bps, quantizeBps arb.spreadBps = .ok bps
  · obtain ⟨bps, hbps⟩ := hbps
    have hrow : ¬ ∃ row, ArbitrageOpportunity.create db symbol arb.buyVenue arb.buyPrice
        arb.sellVenue arb.sellPrice arb.spread bps (round.clock.signalled symbol) = .ok row :=
      fun ⟨row, hrow⟩ => h (exists_arbitrageOpportunity_iff.mp ⟨bps, row, hbps, hrow⟩)
    exact (Traced.returns_ofExcept hbps).bind_raises ((Traced.raises_ofExcept hrow).bind _)
  · exact (Traced.raises_ofExcept hbps).bind _

theorem raises_signalArbitrage [LinearOrder Venue] {round : Round Venue} {symbol : Str}
    {arb : Arbitrage Venue} (h : roundArbitrage round symbol = some arb) (hfits : ¬ arb.Fits db)
    (counts : Counts) :
    (signalArbitrage round counts symbol (roundQuotes round symbol) : Task db Venue Counts).Raises := by
  have hscan := detectArbitrage_eq_roundArbitrage (roundArbitrage_eq_some_iff.mp h).1
  rw [h] at hscan
  exact (Traced.returns_ofExcept hscan).bind_raises ((raises_recordArbitrage hfits).bind _)

/-- Between prices so small that their mid vanishes the scan raises, and with it the round. -/
theorem raises_signalArbitrage_of_vanishes [LinearOrder Venue] {round : Round Venue} {symbol : Str}
    (h : ¬ MidsHold round.ctx (roundQuotes round symbol)) (counts : Counts) :
    (signalArbitrage round counts symbol (roundQuotes round symbol) : Task db Venue Counts).Raises := by
  refine (Traced.raises_ofExcept ?_).bind _
  rintro ⟨found, hfound⟩
  exact h (detectArbitrage_eq_ok_iff.mp hfound).1

theorem raises_consolidateQuotes [LinearOrder Venue] {round : Round Venue} {symbol : Str}
    (haccepted : Accepted db round symbol) (h : ¬ Undisturbed db round symbol) (counts : Counts) :
    (consolidateQuotes round counts symbol (roundQuotes round symbol) : Task db Venue Counts).Raises := by
  cases hbook : roundBook round symbol with
  | none =>
      have hnot : ¬ (roundBook round symbol).isSome := by
        rw [hbook]
        exact Bool.false_ne_true
      exact absurd ⟨haccepted, ⟨fun c hc => absurd (hc ▸ rfl) hnot, fun hsome => absurd hsome hnot,
        fun _ hsome => absurd hsome hnot⟩, fun hsome => absurd hsome hnot⟩ h
  | some c =>
      rw [consolidateQuotes_of_some hbook]
      by_cases hfirst : c.Fits db ∧ CallsSucceed round symbol
      · refine (runs_publishConsolidated hfirst.1 hfirst.2).returns.bind_raises ?_
        by_cases hmids : MidsHold round.ctx (roundQuotes round symbol)
        · obtain ⟨arb, hfound, hnot⟩ :
              ∃ arb, roundArbitrage round symbol = some arb ∧ ¬ arb.Fits db := by
            by_contra hall
            push Not at hall
            refine h ⟨haccepted, ⟨fun c' hc' => ?_, fun _ => hmids, fun arb _ harb => hall arb harb⟩,
              fun _ => hfirst.2⟩
            exact Option.some.inj (hbook.symm.trans hc') ▸ hfirst.1
          exact raises_signalArbitrage hfound hnot _
        · exact raises_signalArbitrage_of_vanishes hmids _
      · exact (raises_publishConsolidated hfirst).bind _

theorem raises_fetchInstrument [LinearOrder Venue] {round : Round Venue} {instrument : Instrument}
    (h : ¬ Undisturbed db round instrument.symbol) (counts : Counts) :
    (fetchInstrument round counts instrument : Task db Venue _).Raises := by
  by_cases haccepted : Accepted db round instrument.symbol
  · exact (runs_pollClients haccepted counts.quotes).returns.bind_raises
      (raises_consolidateQuotes haccepted h _)
  · exact (raises_pollClients haccepted counts.quotes).bind _

/-! ### The round -/

def Completes [LinearOrder Venue] (db : Engine) (round : Round Venue) (instruments : InstrumentTable) :
    Prop :=
  ∃ counts, ((fetchQuotes round instruments).2 : Task db Venue Counts).Returns counts

theorem raises_fetchQuotes [LinearOrder Venue] {round : Round Venue} {instruments : InstrumentTable}
    (h : ¬ Sound db round instruments) :
    ((fetchQuotes round instruments).2 : Task db Venue Counts).Raises := by
  by_cases hlist : ∀ symbol ∈ round.configured, Listable round.upper symbol
  · obtain ⟨symbol, hvisited, hnot⟩ :
        ∃ symbol, Visited round instruments symbol ∧ ¬ Undisturbed db round symbol := by
      by_contra hall
      push Not at hall
      exact h ⟨hlist, hall⟩
    obtain ⟨instrument, hmem, rfl⟩ := exists_mem_instruments_iff.mpr hvisited
    rw [fetchQuotes_of_listable hlist]
    exact Traced.raises_loop ⟨instrument, hmem, fun counts => raises_fetchInstrument hnot counts⟩ _
  · obtain ⟨e, he⟩ : ∃ e, (fetchQuotes round instruments : _ × Task db Venue Counts) =
        (instruments, Traced.raise e) := fetchQuotes_of_not_listable hlist
    rw [he]
    exact Traced.raises_raise e

/-- **When a round completes.** -/
theorem completes_iff [LinearOrder Venue] {round : Round Venue} {instruments : InstrumentTable} :
    Completes db round instruments ↔ Sound db round instruments := by
  constructor
  · intro hcompletes
    by_contra hnot
    exact Traced.not_raises_iff.mpr hcompletes (raises_fetchQuotes hnot)
  · intro h
    exact ⟨_, (runs_fetchQuotes h).returns⟩

end Pricestream
