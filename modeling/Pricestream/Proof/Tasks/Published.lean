import Pricestream.Proof.Units
import Pricestream.Proof.Tasks.Partial

/-!
# What is published and what is stored

The cache and the subscribers are told the numbers of the object in memory, the tape holds what its
columns make of them. They are the same numbers as long as these have ten decimal places. Best bids
and asks are numbers that were quoted, so they have; a mid is half a sum, and has unless exactly one
of the two best prices has an odd last digit; a mean of mids has whatever places the division leaves.
-/

namespace Pricestream

open Library Python

variable {db : Engine} {Venue : Type}

/-- A snapshot of the instrument went into the cache or to the subscribers. -/
def Published (trace : List (Effect db Venue)) (symbol : Str) (snapshot : Snapshot Venue) : Prop :=
  .cacheSet (cacheKey symbol) snapshot ∈ trace ∨
    .groupSend (groupName symbol) symbol snapshot ∈ trace

/-- The row is the snapshot in its columns. -/
structure Mirrors (snapshot : Snapshot Venue) (row : ConsolidatedPrice db Venue) : Prop where
  mid : row.mid.value = (priceColumn db).round snapshot.mid
  bid : row.bid.value = (priceColumn db).round snapshot.bid
  ask : row.ask.value = (priceColumn db).round snapshot.ask
  sources : row.sources = snapshot.sources
  timestamp : row.timestamp = snapshot.ts

/-- The snapshot and the row denote the same numbers. -/
structure SameNumbers (snapshot : Snapshot Venue) (row : ConsolidatedPrice db Venue) : Prop where
  mid : snapshot.mid = row.mid.value
  bid : snapshot.bid = row.bid.value
  ask : snapshot.ask = row.ask.value

/-! ### The columns -/

theorem half_on_grid_iff (b a : ℤ) :
    (∃ k : ℤ, ((b : ℚ) / 10 ^ 10 + a / 10 ^ 10) / 2 = k / 10 ^ 10) ↔ b % 2 = a % 2 := by
  have hscale : ∀ k : ℤ, ((b : ℚ) / 10 ^ 10 + a / 10 ^ 10) / 2 = k / 10 ^ 10 ↔ b + a = 2 * k := by
    intro k
    rw [← Int.cast_inj (α := ℚ)]
    push_cast
    constructor <;> intro h <;> linarith
  simp only [hscale]
  constructor
  · intro ⟨k, hk⟩
    omega
  · intro h
    exact ⟨(b + a) / 2, by omega⟩

theorem create_mirrors {round : Round Venue} {symbol : Str} {c : Consolidated Venue}
    {row : ConsolidatedPrice db Venue} (h : storeBook db round symbol c = .ok row) :
    Mirrors (snapshotOf round symbol c) row := by
  obtain ⟨m, b, a, hm, hb, ha, rfl⟩ := ConsolidatedPrice.create_eq_ok.mp h
  exact ⟨writeDecimal_value hm, writeDecimal_value hb, writeDecimal_value ha, rfl, rfl⟩

section Row

variable {snapshot : Snapshot Venue} {row : ConsolidatedPrice db Venue}

theorem Mirrors.mid_eq_iff (h : Mirrors snapshot row) :
    snapshot.mid = row.mid.value ↔ ∃ k : ℤ, snapshot.mid = k / 10 ^ 10 := by
  have hround : (priceColumn db).round snapshot.mid = snapshot.mid ↔ _ := round_price_eq_self_iff
  rw [← hround, h.mid]
  exact eq_comm

theorem Mirrors.bid_eq_iff (h : Mirrors snapshot row) :
    snapshot.bid = row.bid.value ↔ ∃ k : ℤ, snapshot.bid = k / 10 ^ 10 := by
  have hround : (priceColumn db).round snapshot.bid = snapshot.bid ↔ _ := round_price_eq_self_iff
  rw [← hround, h.bid]
  exact eq_comm

theorem Mirrors.ask_eq_iff (h : Mirrors snapshot row) :
    snapshot.ask = row.ask.value ↔ ∃ k : ℤ, snapshot.ask = k / 10 ^ 10 := by
  have hround : (priceColumn db).round snapshot.ask = snapshot.ask ↔ _ := round_price_eq_self_iff
  rw [← hround, h.ask]
  exact eq_comm

end Row

/-! ### A round -/

section Round

variable [LinearOrder Venue] {round : Round Venue} {instruments : InstrumentTable} {symbol : Str}
  {snapshot : Snapshot Venue}

theorem row_of_published
    (h : Published ((fetchQuotes round instruments).2 : Task db Venue Counts).trace symbol snapshot) :
    ∃ c row, roundBook round symbol = some c ∧ snapshot = snapshotOf round symbol c ∧
      storeBook db round symbol c = .ok row ∧
      .insert (.consolidated row) ∈ ((fetchQuotes round instruments).2 : Task db Venue Counts).trace := by
  rcases h with h | h
  · obtain ⟨symbol', c, row, hbook, hrow, hmem, hw⟩ := turn_of_stage_price rfl h
    rcases mem_bookEffects.mp hw with ⟨_, _, heq⟩ | heq | heq | ⟨_, heq⟩
    · cases heq
    · cases heq
    · obtain ⟨hkey, rfl⟩ := Effect.cacheSet.inj heq
      obtain rfl := cacheKey_injective hkey
      exact ⟨c, row, hbook, rfl, hrow, hmem⟩
    · cases heq
  · obtain ⟨symbol', c, row, hbook, hrow, hmem, hw⟩ := turn_of_stage_price rfl h
    rcases mem_bookEffects.mp hw with ⟨_, _, heq⟩ | heq | heq | ⟨_, heq⟩
    · cases heq
    · cases heq
    · cases heq
    · obtain ⟨_, rfl, rfl⟩ := Effect.groupSend.inj heq
      exact ⟨c, row, hbook, rfl, hrow, hmem⟩

theorem exists_best_units (hquotes : ∀ q ∈ roundQuotes round symbol, ExactQuote db q)
    {c : Consolidated Venue} (h : roundBook round symbol = some c) :
    ∃ q rest, candidates round.maxAge (round.clock.checked symbol) (roundQuotes round symbol) = q :: rest ∧
      c = book round.ctx q rest ∧
      ∃ b a : ℤ, |b| < 10 ^ 24 ∧ |a| < 10 ^ 24 ∧ IsBest (q :: rest) (b / 10 ^ 10) (a / 10 ^ 10) := by
  rcases consolidate_cases round.ctx round.maxAge (round.clock.checked symbol)
    (roundQuotes round symbol) with ⟨_, hnone⟩ | ⟨q, rest, hcands, hsome⟩
  · cases hnone.symm.trans h
  · have hexact : ∀ p ∈ q :: rest, ExactQuote db p := by
      intro p hp
      obtain ⟨i, hi, _⟩ := mem_candidates.mp (hcands ▸ hp)
      exact hquotes p (List.mem_of_getElem? hi)
    have hbest := isBest_book q rest
    obtain ⟨p, hp, hbid⟩ := hbest.bid_mem
    obtain ⟨p', hp', hask⟩ := hbest.ask_mem
    obtain ⟨b, hb, hblt⟩ := units_of_holds (hexact p hp).1
    obtain ⟨a, ha, halt⟩ := units_of_holds (hexact p' hp').2
    rw [← hbid, ← hask, hb, ha] at hbest
    exact ⟨q, rest, hcands, (Option.some.inj (hsome.symm.trans h)).symm, b, a, hblt, halt, hbest⟩

theorem units_lt_iff {a b : ℤ} : (a : ℚ) / 10 ^ 10 < b / 10 ^ 10 ↔ a < b := by
  rw [div_lt_div_iff_of_pos_right (by norm_num)]
  exact Int.cast_lt

/-- **What is published and what is stored.** -/
theorem published_mirrors_stored (hctx : round.ctx = .exact ∨ round.ctx = .default)
    (hquotes : ∀ q ∈ roundQuotes round symbol, ExactQuote db q)
    (h : Published ((fetchQuotes round instruments).2 : Task db Venue Counts).trace symbol snapshot) :
    (∃ row, .insert (.consolidated row) ∈
        ((fetchQuotes round instruments).2 : Task db Venue Counts).trace ∧ row.instrument = symbol) ∧
    ∀ row, .insert (.consolidated row) ∈
        ((fetchQuotes round instruments).2 : Task db Venue Counts).trace → row.instrument = symbol →
      Mirrors snapshot row ∧
      ∃ b a : ℤ, IsBest (candidates round.maxAge (round.clock.checked symbol) (roundQuotes round symbol))
          (b / 10 ^ 10) (a / 10 ^ 10) ∧
        (b ≤ a → snapshot.bid = row.bid.value ∧ snapshot.ask = row.ask.value ∧
          (snapshot.mid = row.mid.value ↔ b % 2 = a % 2)) ∧
        (a < b → (SameNumbers snapshot row ↔ snapshot.mid = row.mid.value) ∧
          (snapshot.mid = row.mid.value ↔ ∃ k : ℤ, snapshot.mid = k / 10 ^ 10) ∧
          (round.ctx = .exact → snapshot.mid = meanMid
            (candidates round.maxAge (round.clock.checked symbol) (roundQuotes round symbol)))) := by
  obtain ⟨c, row, hbook, rfl, hstore, hmem⟩ := row_of_published h
  refine ⟨⟨row, hmem, label_of_storeBook hstore⟩, fun row' hrow' hlabel => ?_⟩
  obtain ⟨c', hbook', hstore'⟩ := price_of_mem hrow'
  rw [hlabel] at hbook' hstore'
  obtain rfl := Option.some.inj (hbook.symm.trans hbook')
  have hmirrors := create_mirrors hstore'
  obtain ⟨q, rest, hcands, rfl, b, a, hb, ha, hbest⟩ := exists_best_units hquotes hbook
  refine ⟨hmirrors, b, a, hcands ▸ hbest, fun hle => ?_, fun hlt => ?_⟩
  · have hplain : book round.ctx q rest = plainBook round.ctx (q :: rest) (b / 10 ^ 10) (a / 10 ^ 10) := by
      rw [book_eq _ _ _ hbest, if_neg (units_lt_iff.not.mpr (not_lt.mpr hle))]
    rw [hplain] at hmirrors ⊢
    refine ⟨hmirrors.bid_eq_iff.mpr ⟨b, rfl⟩, hmirrors.ask_eq_iff.mpr ⟨a, rfl⟩, ?_⟩
    rw [hmirrors.mid_eq_iff, ← half_on_grid_iff]
    simp only [snapshotOf, plainBook, half_sum_units hctx hb ha]
  · have hcrossed : book round.ctx q rest =
        crossedBook round.ctx (q :: rest) (b / 10 ^ 10) (a / 10 ^ 10) := by
      rw [book_eq _ _ _ hbest, if_pos (units_lt_iff.mpr hlt)]
    rw [hcrossed] at hmirrors ⊢
    refine ⟨⟨SameNumbers.mid, fun hmid => ?_⟩, hmirrors.mid_eq_iff, fun hexact => ?_⟩
    · obtain ⟨k, hk⟩ := hmirrors.mid_eq_iff.mp hmid
      refine ⟨hmid, hmirrors.bid_eq_iff.mpr ?_, hmirrors.ask_eq_iff.mpr ?_⟩
      · rcases min_choice ((b : ℚ) / 10 ^ 10) _ with hmin | hmin
        · exact ⟨b, hmin⟩
        · exact ⟨k, hmin.trans hk⟩
      · rcases max_choice ((a : ℚ) / 10 ^ 10) _ with hmax | hmax
        · exact ⟨a, hmax⟩
        · exact ⟨k, hmax.trans hk⟩
    · rw [hcands, hexact, crossedBook_exact]
      rfl

end Round

/-! ### An odd last digit -/

/-- One venue, whose ask is one unit in the last place above its bid. -/
def oddRound : Round ℕ where
  ctx := .default
  upper s := s
  collate a b := decide (a ≤ b)
  configured := [Str.ofString "BTC-USD"]
  maxAge := 30
  clients := [⟨0, fun _ => some (.finite 1, .finite (1 + 1 / 10 ^ 10))⟩]
  clock := ⟨fun _ _ => 0, fun _ _ => 0, fun _ => 0, fun _ => 0⟩
  hasLayer := true
  side _ := none

def oddSnapshot : Snapshot ℕ := ⟨1 + 1 / (2 * 10 ^ 10), 1, 1 + 1 / 10 ^ 10, [0], 0⟩

theorem exact_oddRound :
    ∀ q ∈ roundQuotes oddRound (Str.ofString "BTC-USD"), ExactQuote .postgres q := by
  decide +kernel

theorem published_oddRound :
    Published ((fetchQuotes oddRound KeyedTable.empty).2 : Task .postgres ℕ Counts).trace
      (Str.ofString "BTC-USD") oddSnapshot := by
  apply Or.inl
  decide +kernel

theorem oddRound_mirrors :
    ∃ row, .insert (.consolidated row) ∈
        ((fetchQuotes oddRound KeyedTable.empty).2 : Task .postgres ℕ Counts).trace ∧
      Mirrors oddSnapshot row := by
  obtain ⟨⟨row, hrow, hlabel⟩, hall⟩ :=
    published_mirrors_stored (Or.inr rfl) exact_oddRound published_oddRound
  exact ⟨row, hrow, (hall row hrow hlabel).1⟩

/-- The mid has eleven places, and the row has ten of them. -/
theorem odd_book_differs :
    (∀ q ∈ roundQuotes oddRound (Str.ofString "BTC-USD"), ExactQuote .postgres q) ∧
    (roundBook oddRound (Str.ofString "BTC-USD")).isSome ∧
    ∃ snapshot row,
      Published ((fetchQuotes oddRound KeyedTable.empty).2 : Task .postgres ℕ Counts).trace
        (Str.ofString "BTC-USD") snapshot ∧
      .insert (.consolidated row) ∈
        ((fetchQuotes oddRound KeyedTable.empty).2 : Task .postgres ℕ Counts).trace ∧
      row.instrument = Str.ofString "BTC-USD" ∧ ¬ SameNumbers snapshot row := by
  have hrows : (((fetchQuotes oddRound KeyedTable.empty).2 :
      Task .postgres ℕ Counts).trace.filterMap Effect.consolidatedRow?).map
        (fun row => (row.instrument, row.mid.value)) =
          [(Str.ofString "BTC-USD", 1 + 1 / 10 ^ 10)] := by decide +kernel
  obtain ⟨row, hrow, hlabel⟩ := List.mem_map.mp (hrows ▸ List.mem_singleton_self _)
  have hw := Effect.mem_consolidatedRows.mp hrow
  obtain ⟨hinstrument, hmid⟩ := Prod.mk.inj hlabel
  refine ⟨exact_oddRound, by decide +kernel, oddSnapshot, row, published_oddRound, hw, hinstrument,
    fun h => ?_⟩
  have hsame := h.mid
  rw [hmid, oddSnapshot] at hsame
  norm_num at hsame

end Pricestream
