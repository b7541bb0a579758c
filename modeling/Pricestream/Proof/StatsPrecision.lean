import Pricestream.Proof.Stats
import Pricestream.Proof.Tasks.Precision

/-!
# Statistics in 28 digits

The statistics of a window are sums and quotients of the prices of its rows, and the default context
rounds after each of them. What is counted or picked out is not affected. A mean of mids is rounded once
as long as their sum has room for ten decimal places, and then it lies between the extreme mids. The
mean of the spreads is rounded at every step: it is off by a factor that grows with the number of rows,
and may leave the spreads it is the mean of.
-/

namespace Pricestream

open Library Python
open DateTime (Instant)
open Context (slack Clear)

variable {db : Engine} {Venue : Type}

/-! ### Means -/

theorem within_average {s : ℚ} (hs : 1 ≤ s) {xs ys : List ℚ} (h : List.Forall₂ (Within s) xs ys)
    (hclear : ∀ x ∈ xs, Clear (-24) x) (hnonneg : ∀ y ∈ ys, 0 ≤ y) (hcount : xs.length < 2 ^ 63) :
    Within (slack ^ (xs.length + 1) * s) (average .default xs) (average .exact ys) := by
  have hspos : 0 < s := zero_lt_one.trans_le hs
  have hslack : 0 < slack := zero_lt_one.trans_le Context.one_le_slack
  have hadd : ∀ a b, Clear (-24) a → Clear (-24) b →
      Clear (-24) (Context.default.add a b) ∧ Within slack (Context.default.add a b) (a + b) := by
    intro a b ha hb
    exact ⟨(ha.add hb).round (by norm_num), ((ha.add hb).mono (by norm_num)).within_round⟩
  obtain ⟨hsumClear, hsum⟩ := Within.foldl (fun _ => Clear.nonneg) hadd Context.one_le_slack hs h
    hclear (Or.inl rfl) (.refl hs le_rfl) le_rfl hnonneg le_rfl
  rw [zero_add] at hsum
  have hpow : 0 < slack ^ xs.length * s := mul_pos (pow_pos hslack _) hspos
  have hlength : (0 : ℚ) ≤ xs.length := Nat.cast_nonneg _
  have hlimit : (xs.length : ℚ) ≤ 10 ^ (19 : ℤ) := by
    have hcast : (xs.length : ℚ) < 2 ^ 63 := by exact_mod_cast hcount
    refine hcast.le.trans ?_
    norm_num
  have hquotient := (hsumClear.div hlength hlimit).mono (m := -999999) (by norm_num)
  have hdiv := hquotient.within_round.trans hslack.le hpow.le (hsum.div_right hlength)
  rw [pow_succ', mul_assoc, average_exact, ← h.length_eq]
  exact hdiv

theorem average_nonneg {xs : List ℚ} (h : ∀ x ∈ xs, 0 ≤ x) : 0 ≤ average .exact xs := by
  rw [average_exact]
  exact div_nonneg (List.sum_nonneg h) (Nat.cast_nonneg _)

theorem clear_units {k : ℤ} (h : 0 ≤ (k : ℚ) / 10 ^ 10) : Clear (-10) ((k : ℚ) / 10 ^ 10) := by
  rcases h.eq_or_lt with hzero | hpos
  · exact Or.inl hzero.symm
  · have hk : 1 ≤ k := by
      rw [lt_div_iff₀ (by norm_num), zero_mul] at hpos
      exact_mod_cast hpos
    have hone : (1 : ℚ) ≤ k := by exact_mod_cast hk
    refine Or.inr ?_
    rw [zpow_neg, ← one_div]
    exact div_le_div_of_nonneg_right hone (by positivity)

theorem clear_price {cell : Price db} (h : 0 ≤ cell.value) : Clear (-10) cell.value := by
  obtain ⟨k, hk, _⟩ := units_of_holds (holds_price cell)
  rw [hk] at h ⊢
  exact clear_units h

/-- The spread of a row takes three operations, none of which comes near the smallest decimals. -/
theorem within_spreadBps {row : ConsolidatedPrice db Venue} (h : row.Ordered) :
    Clear (-24) (row.spreadBps .default) ∧
      Within (slack ^ 3) (row.spreadBps .default) (row.spreadBps .exact) := by
  have hslack : 0 < slack := zero_lt_one.trans_le Context.one_le_slack
  have hwidth : Clear (-10) (row.ask.value - row.bid.value) := by
    obtain ⟨a, ha, _⟩ := units_of_holds (holds_price row.ask)
    obtain ⟨b, hb, _⟩ := units_of_holds (holds_price row.bid)
    have hunits : row.ask.value - row.bid.value = ((a - b : ℤ) : ℚ) / 10 ^ 10 := by
      rw [ha, hb]
      push_cast
      ring
    have hnonneg : 0 ≤ row.ask.value - row.bid.value := sub_nonneg.mpr h.2
    rw [hunits] at hnonneg ⊢
    exact clear_units hnonneg
  have hsub : Within slack (Context.default.sub row.ask.value row.bid.value)
      (row.ask.value - row.bid.value) := (hwidth.mono (by norm_num)).within_round
  have hmid : row.mid.value ≤ 10 ^ (14 : ℤ) := (abs_lt.mp (holds_price row.mid).2).2.le
  have hratio : Clear (-24) (Context.default.sub row.ask.value row.bid.value / row.mid.value) :=
    (hwidth.round (by norm_num)).div h.1.le hmid
  have hdiv := (hratio.mono (m := -999999) (by norm_num)).within_round.trans hslack.le hslack.le
    (hsub.div_right h.1.le)
  have hscaled := (hratio.round (by norm_num)).mul (y := 10000) (by norm_num)
  have hmul := (hscaled.mono (m := -999999) (by norm_num)).within_round.trans hslack.le
    (mul_pos hslack hslack).le (hdiv.mul_right (by norm_num))
  rw [pow_succ', pow_two]
  exact ⟨hscaled.round (by norm_num), hmul⟩

/-! ### The statistics of some rows -/

/-- The relative error so many operations add up to. -/
def OffBy (n : ℕ) (x y : ℚ) : Prop := |x - y| ≤ n / 10 ^ 27 * y

theorem slack_pow_le {n : ℕ} (hn : n ≤ 10 ^ 27) : slack ^ n ≤ 1 + n / 10 ^ 27 := by
  have heq : (n : ℚ) * (2 * Context.roundoff) = n / 10 ^ 27 := by
    rw [Context.roundoff]
    ring
  have hle : (n : ℚ) ≤ 10 ^ 27 := by exact_mod_cast hn
  rw [← heq]
  apply Within.pow_le
  · norm_num [Context.roundoff]
  · norm_num [Context.roundoff]
  · rw [heq, div_le_one (by norm_num)]
    exact hle

theorem offBy_of_within {n : ℕ} {x y : ℚ} (h : Within (slack ^ n) x y) (hn : n ≤ 10 ^ 27) (hy : 0 ≤ y) :
    OffBy n x y := by
  have hslack : 0 < slack ^ n := pow_pos (zero_lt_one.trans_le Context.one_le_slack) n
  exact (h.mono (slack_pow_le hn) (h.nonneg hslack hy) hy).abs_sub_le (by positivity) hy

/-- The same statistics, but for what their means were rounded by. -/
structure RollingStats.Near (stats exact : RollingStats) : Prop where
  same : stats = { exact with avgMid := stats.avgMid, avgSpreadBps := stats.avgSpreadBps }
  avgMid : Option.Rel (Within (slack ^ (exact.samples + 1))) stats.avgMid exact.avgMid
  avgSpreadBps : Option.Rel (Within (slack ^ (exact.samples + 4))) stats.avgSpreadBps exact.avgSpreadBps
  offBy : exact.samples + 4 ≤ 10 ^ 27 →
    Option.Rel (OffBy (exact.samples + 1)) stats.avgMid exact.avgMid ∧
      Option.Rel (OffBy (exact.samples + 4)) stats.avgSpreadBps exact.avgSpreadBps

section Rows

variable {pstdev : List ℚ → Option ℚ} {instrument : Str} {window : ℤ}
  {rows : List (ConsolidatedPrice db Venue)}

theorem midsOf_nonneg (hrows : ∀ row ∈ rows, row.Ordered) : ∀ x ∈ midsOf rows, 0 ≤ x := by
  intro x hx
  obtain ⟨row, hrow, rfl⟩ := List.mem_map.mp hx
  exact (hrows row hrow).1.le

theorem near_statsOf (hrows : ∀ row ∈ rows, row.Ordered) (hcount : rows.length < 2 ^ 63) :
    (statsOf .default pstdev instrument window rows).Near
      (statsOf .exact pstdev instrument window rows) := by
  cases rows with
  | nil => exact ⟨rfl, .none, .none, fun _ => ⟨.none, .none⟩⟩
  | cons row rest =>
      have hmids : List.Forall₂ (Within 1) (midsOf (row :: rest)) (midsOf (row :: rest)) :=
        List.forall₂_same.mpr fun x hx => .refl le_rfl (midsOf_nonneg hrows x hx)
      have hmidsClear : ∀ x ∈ midsOf (row :: rest), Clear (-24) x := by
        intro x hx
        obtain ⟨r, hr, rfl⟩ := List.mem_map.mp hx
        exact (clear_price (hrows r hr).1.le).mono (by norm_num)
      have hmean := within_average le_rfl hmids hmidsClear (midsOf_nonneg hrows)
        (by rwa [midsOf, List.length_map])
      rw [mul_one, midsOf, List.length_map] at hmean
      have hspreads : List.Forall₂ (Within (slack ^ 3)) ((row :: rest).map (·.spreadBps .default))
          ((row :: rest).map (·.spreadBps .exact)) := by
        rw [List.forall₂_map_left_iff, List.forall₂_map_right_iff]
        exact List.forall₂_same.mpr fun r hr => (within_spreadBps (hrows r hr)).2
      have hspreadsClear : ∀ x ∈ (row :: rest).map (·.spreadBps .default), Clear (-24) x := by
        intro x hx
        obtain ⟨r, hr, rfl⟩ := List.mem_map.mp hx
        exact (within_spreadBps (hrows r hr)).1
      have hspreadsPos : ∀ x ∈ (row :: rest).map (·.spreadBps .exact), 0 ≤ x := by
        intro x hx
        obtain ⟨r, hr, rfl⟩ := List.mem_map.mp hx
        exact (hrows r hr).spreadBps_nonneg
      have hmeanSpread :=
        within_average (one_le_pow₀ Context.one_le_slack) hspreads hspreadsClear hspreadsPos
          (by rwa [List.length_map])
      rw [← pow_add, List.length_map] at hmeanSpread
      have hspread : ∀ ctx, (statsOf ctx pstdev instrument window (row :: rest)).avgSpreadBps =
          some (average ctx ((row :: rest).map (·.spreadBps ctx))) := by
        intro ctx
        simp only [statsOf, spreadsBps_of_ordered hrows]
        exact if_neg (List.cons_ne_nil _ _)
      constructor
      case same => rfl
      case avgMid => exact .some hmean
      case avgSpreadBps =>
        rw [hspread, hspread]
        exact .some hmeanSpread
      case offBy =>
        intro hcount
        rw [hspread, hspread]
        refine ⟨.some (offBy_of_within hmean ?_ (average_nonneg (midsOf_nonneg hrows))),
          .some (offBy_of_within hmeanSpread hcount (average_nonneg hspreadsPos))⟩
        exact le_trans (Nat.add_le_add_left (by norm_num) _) hcount

/-- With room for all places of the sum, only the quotient is rounded. -/
theorem average_default (hrows : ∀ row ∈ rows, row.Ordered) (hroom : (midsOf rows).sum < 10 ^ 18) :
    average .default (midsOf rows) = Context.default.round (average .exact (midsOf rows)) := by
  have hunits : ∀ x ∈ midsOf rows, ∃ k : ℕ, x = k / 10 ^ 10 := by
    intro x hx
    have hpos := midsOf_nonneg hrows x hx
    obtain ⟨row, _, rfl⟩ := List.mem_map.mp hx
    obtain ⟨k, hk, _⟩ := units_of_holds (holds_price row.mid)
    rw [hk] at hpos ⊢
    have hnonneg : 0 ≤ k := by
      rw [le_div_iff₀ (by norm_num), zero_mul] at hpos
      exact_mod_cast hpos
    exact ⟨k.toNat, by rw [← Int.cast_natCast, Int.toNat_of_nonneg hnonneg]⟩
  have hsum := Context.foldl_default_add_of_sum_lt (by norm_num) hunits (s := 0) (by norm_num; linarith)
  rw [Nat.cast_zero, zero_div, zero_add] at hsum
  rw [average, hsum, average_exact]
  rfl

theorem average_default_between (hrows : ∀ row ∈ rows, row.Ordered) (hne : rows ≠ [])
    (hroom : (midsOf rows).sum < 10 ^ 18) {low high : ℚ} (hlow : IsLeast {x | x ∈ midsOf rows} low)
    (hhigh : IsGreatest {x | x ∈ midsOf rows} high) :
    low ≤ average .default (midsOf rows) ∧ average .default (midsOf rows) ≤ high := by
  have hfixed : ∀ x ∈ midsOf rows, Context.default.round x = x := by
    intro x hx
    obtain ⟨row, _, rfl⟩ := List.mem_map.mp hx
    exact default_round_of_exact (holds_price row.mid)
  have hpos : 0 < low := by
    obtain ⟨row, hrow, rfl⟩ := List.mem_map.mp hlow.1
    exact (hrows row hrow).1
  obtain ⟨hle, hge⟩ := average_between (mt List.map_eq_nil_iff.mp hne) hlow hhigh
  rw [average_default hrows hroom]
  constructor
  · rw [← hfixed low hlow.1]
    exact Context.default.mono hle
  · conv_rhs => rw [← hfixed high hhigh.1]
    exact Context.default.mono hge

end Rows

/-! ### The statistics of a window -/

/-- **Statistics in 28 digits.** -/
theorem rolling_stats_near {instrument : Str} {prices : List (ConsolidatedPrice db Venue)}
    (pstdev : List ℚ → Option ℚ) (asc : Ascending db Venue)
    (hrows : ∀ row ∈ prices, row.instrument = instrument → row.Ordered) (hcount : prices.length < 2 ^ 63)
    (window : ℤ) (now : Instant) :
    (computeRollingStats .default pstdev asc prices instrument window now).Near
      (computeRollingStats .exact pstdev asc prices instrument window now) ∧
    ((midsOf (pricesSince instrument window now prices)).sum < 10 ^ 18 → ∀ low avg high,
      (computeRollingStats .default pstdev asc prices instrument window now).minMid = some low →
      (computeRollingStats .default pstdev asc prices instrument window now).avgMid = some avg →
      (computeRollingStats .default pstdev asc prices instrument window now).maxMid = some high →
      low ≤ avg ∧ avg ≤ high) := by
  have hordered : ∀ row ∈ asc.arrange (pricesSince instrument window now prices), row.Ordered := by
    intro row hrow
    obtain ⟨hmem, hlabel, _⟩ := mem_pricesSince.mp (asc.mem_arrange.mp hrow)
    exact hrows row hmem hlabel
  have hfew : (asc.arrange (pricesSince instrument window now prices)).length < 2 ^ 63 := by
    rw [(asc.perm _).length_eq]
    exact (List.length_filter_le _ _).trans_lt hcount
  refine ⟨near_statsOf hordered hfew, fun hroom low avg high hlow havg hhigh => ?_⟩
  have hsum : (midsOf (asc.arrange (pricesSince instrument window now prices))).sum < 10 ^ 18 := by
    have hperm := ((asc.perm (pricesSince instrument window now prices)).map
      fun row => row.mid.value).sum_eq
    rwa [midsOf, hperm]
  unfold computeRollingStats at hlow havg hhigh
  generalize asc.arrange (pricesSince instrument window now prices) = rows at *
  cases rows with
  | nil => cases hlow
  | cons row rest =>
      obtain rfl := Option.some.inj hlow
      obtain rfl := Option.some.inj havg
      obtain rfl := Option.some.inj hhigh
      exact average_default_between hordered (List.cons_ne_nil _ _) hsum (minOf_isLeast _ _)
        (maxOf_isGreatest _ _)

/-! ### A mean outside -/

theorem fits_wideRow : (priceColumn .postgres).Fits 3 ∧ (priceColumn .postgres).Fits 2 ∧
    (priceColumn .postgres).Fits 4 := by decide +kernel

/-- Two rows whose spread has no end in decimals. -/
def wideRows : List (ConsolidatedPrice .postgres ℕ) :=
  [priceRow 2 3 4 [0] 5000000 fits_wideRow, priceRow 2 3 4 [0] 9000000 fits_wideRow]

theorem ordered_wideRows : ∀ row ∈ wideRows, row.instrument = btc → row.Ordered := by decide +kernel

/-- The mean of two equal spreads is below them, in the last digit. -/
theorem wideRows_near :
    (∀ row ∈ wideRows, row.spreadBps .default = 6666.666666666666666666666667) ∧
    (computeRollingStats .default (fun _ => none) byTimestamp wideRows btc 60 10000000).avgSpreadBps =
      some 6666.666666666666666666666665 ∧
    (computeRollingStats .default (fun _ => none) byTimestamp wideRows btc 60 10000000).Near
      (computeRollingStats .exact (fun _ => none) byTimestamp wideRows btc 60 10000000) :=
  ⟨by decide +kernel, by decide +kernel,
    (rolling_stats_near (fun _ => none) byTimestamp ordered_wideRows (by decide) 60 10000000).1⟩

end Pricestream
