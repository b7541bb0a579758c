import Pricestream.Proof.Book
import Pricestream.Stats

/-!
# Statistics and the latest price

The statistics of a window are those of its rows, so they are bounded by the rows: the last mid is one
of the mids, the averages are means. A longer window has more rows, which can only widen the extremes.
What the statistics call the last mid is the mid of a newest row of the window, which is a newest row
of the whole tape as well, since a window reaches up to the present and beyond. The other reading of the
tape takes a newest row too. When several rows share the greatest timestamp the two may differ, as
neither query says which of them comes first.
-/

namespace Pricestream

open Library Python
open DateTime (Instant)
open Arrangement (IsLast)

variable {db : Engine} {Venue : Type} {rows rows' prices prices' : List (ConsolidatedPrice db Venue)}

/-! ### What statistics say -/

def midsOf (rows : List (ConsolidatedPrice db Venue)) : List ℚ := rows.map fun row => row.mid.value

/-- The statistics are about the rows. -/
structure RollingStats.Describes (stats : RollingStats) (rows : List (ConsolidatedPrice db Venue)) :
    Prop where
  samples : stats.samples = rows.length
  empty : rows = [] → stats.lastMid = none ∧ stats.avgMid = none ∧ stats.minMid = none ∧
    stats.maxMid = none ∧ stats.midStdev = none ∧ stats.avgSpreadBps = none
  last : rows ≠ [] → ∃ row, IsLast NotAfter rows row ∧ stats.lastMid = some row.mid.value
  extremes : rows ≠ [] → ∃ low high, stats.minMid = some low ∧ stats.maxMid = some high ∧
    IsLeast {x | x ∈ midsOf rows} low ∧ IsGreatest {x | x ∈ midsOf rows} high
  mids : rows ≠ [] → ∃ low last avg high, stats.minMid = some low ∧ stats.lastMid = some last ∧
    stats.avgMid = some avg ∧ stats.maxMid = some high ∧ (low ≤ last ∧ last ≤ high) ∧
    low ≤ avg ∧ avg ≤ high
  avgSpreadBps : rows ≠ [] → ∃ low avg high, stats.avgSpreadBps = some avg ∧
    IsLeast {x | ∃ row ∈ rows, row.spreadBps .exact = x} low ∧
    IsGreatest {x | ∃ row ∈ rows, row.spreadBps .exact = x} high ∧ 0 ≤ low ∧ low ≤ avg ∧ avg ≤ high

/-- A row with a positive mid and its sides in order. -/
def ConsolidatedPrice.Ordered (row : ConsolidatedPrice db Venue) : Prop :=
  0 < row.mid.value ∧ row.bid.value ≤ row.ask.value

instance (row : ConsolidatedPrice db Venue) : Decidable row.Ordered :=
  inferInstanceAs (Decidable (_ ∧ _))

theorem average_exact (xs : List ℚ) : average .exact xs = xs.sum / xs.length := by
  have hsum : xs.foldl Context.exact.add 0 = xs.sum := by
    rw [List.sum_eq_foldl]
    rfl
  rw [average, hsum]
  rfl

theorem average_between {xs : List ℚ} (hne : xs ≠ []) {low high : ℚ} (hlow : IsLeast {x | x ∈ xs} low)
    (hhigh : IsGreatest {x | x ∈ xs} high) :
    low ≤ average .exact xs ∧ average .exact xs ≤ high := by
  rw [average_exact]
  exact mean_mem_Icc hne (fun x hx => hlow.2 hx) (fun x hx => hhigh.2 hx)

theorem spreadsBps_of_ordered (h : ∀ row ∈ rows, row.Ordered) (ctx : Context) :
    spreadsBps ctx rows = rows.map (ConsolidatedPrice.spreadBps ctx) := by
  have hall : rows.filter (fun row => 0 < row.mid.value) = rows :=
    List.filter_eq_self.mpr fun row hrow => decide_eq_true (h row hrow).1
  rw [spreadsBps, hall]

theorem ConsolidatedPrice.Ordered.spreadBps_nonneg {row : ConsolidatedPrice db Venue}
    (h : row.Ordered) : 0 ≤ row.spreadBps .exact := by
  have hwidth : 0 ≤ row.ask.value - row.bid.value := sub_nonneg.mpr h.2
  have hratio := div_nonneg hwidth h.1.le
  change 0 ≤ (row.ask.value - row.bid.value) / row.mid.value * 10000
  positivity

section Stats

variable {pstdev : List ℚ → Option ℚ} {instrument : Str} {window window' : ℤ} {now : Instant}

/-- **The statistics of some rows are about them.** -/
theorem describes_statsOf (hsorted : rows.Pairwise NotAfter) (hrows : ∀ row ∈ rows, row.Ordered) :
    (statsOf .exact pstdev instrument window rows).Describes rows := by
  cases rows with
  | nil =>
      constructor
      · rfl
      · intro _
        exact ⟨rfl, rfl, rfl, rfl, rfl, rfl⟩
      all_goals
        intro hne
        exact absurd rfl hne
  | cons row rest =>
      have hleast := minOf_isLeast row.mid.value (rest.map fun row => row.mid.value)
      have hgreatest := maxOf_isGreatest row.mid.value (rest.map fun row => row.mid.value)
      have hmids : midsOf (row :: rest) ≠ [] := List.cons_ne_nil _ _
      have hmean := average_between hmids hleast hgreatest
      have hlastMid : (statsOf .exact pstdev instrument window (row :: rest)).lastMid =
          some ((row :: rest).getLast (List.cons_ne_nil row rest)).mid.value := by
        change (midsOf (row :: rest)).getLast? = _
        rw [midsOf, List.getLast?_map, List.getLast?_eq_some_getLast (List.cons_ne_nil row rest)]
        rfl
      constructor
      · rfl
      · intro hnil
        exact absurd hnil (List.cons_ne_nil _ _)
      · intro hne
        refine ⟨(row :: rest).getLast hne, ⟨List.getLast_mem hne, fun other hother => ?_⟩, hlastMid⟩
        exact le_of_getLast? (fun r => le_refl r.timestamp) hsorted
          (List.getLast?_eq_some_getLast hne) hother
      · intro _
        exact ⟨_, _, rfl, rfl, hleast, hgreatest⟩
      · intro hne
        have hmem : ((row :: rest).getLast hne).mid.value ∈ midsOf (row :: rest) :=
          List.mem_map_of_mem (List.getLast_mem hne)
        exact ⟨_, _, _, _, rfl, hlastMid, rfl, rfl, ⟨hleast.2 hmem, hgreatest.2 hmem⟩, hmean⟩
      · intro _
        obtain ⟨low, high, hlow, hhigh⟩ :=
          exists_extremes (l := (row :: rest).map (ConsolidatedPrice.spreadBps .exact))
            (List.cons_ne_nil _ _)
        have hmeanSpread := average_between (List.cons_ne_nil _ _) hlow hhigh
        have hspreads := spreadsBps_of_ordered hrows .exact
        simp only [List.mem_map] at hlow hhigh
        obtain ⟨least, hmem, hleast⟩ := hlow.1
        refine ⟨low, _, high, ?_, hlow, hhigh, hleast ▸ (hrows least hmem).spreadBps_nonneg, hmeanSpread⟩
        change (if spreadsBps .exact (row :: rest) = [] then none
          else some (average .exact (spreadsBps .exact (row :: rest)))) = _
        rw [hspreads]
        exact if_neg (List.cons_ne_nil _ _)

theorem RollingStats.Describes.perm {stats : RollingStats} (h : stats.Describes rows)
    (hperm : rows.Perm rows') : stats.Describes rows' := by
  have hmem : ∀ row, row ∈ rows ↔ row ∈ rows' := fun _ => hperm.mem_iff
  have hmids : ∀ x, x ∈ midsOf rows ↔ x ∈ midsOf rows' := fun _ => (hperm.map _).mem_iff
  have hne : rows' ≠ [] → rows ≠ [] := by
    rintro hne rfl
    exact hne hperm.nil_eq.symm
  constructor
  · rw [h.samples, hperm.length_eq]
  · rintro rfl
    exact h.empty hperm.eq_nil
  · intro hrows
    simpa only [IsLast, hmem] using h.last (hne hrows)
  · intro hrows
    simpa only [hmids] using h.extremes (hne hrows)
  · intro hrows
    exact h.mids (hne hrows)
  · intro hrows
    simpa only [hmem] using h.avgSpreadBps (hne hrows)

/-! ### Windows -/

theorem mem_pricesSince {row : ConsolidatedPrice db Venue} :
    row ∈ pricesSince instrument window now prices ↔
      row ∈ prices ∧ row.instrument = instrument ∧ now - window * 1000000 ≤ row.timestamp := by
  rw [pricesSince, List.mem_filter, decide_eq_true_eq]

theorem mem_pricesFor {row : ConsolidatedPrice db Venue} :
    row ∈ pricesFor instrument prices ↔ row ∈ prices ∧ row.instrument = instrument := by
  rw [pricesFor, List.mem_filter, decide_eq_true_eq]

theorem pricesSince_eq_filter (hle : window ≤ window') :
    pricesSince instrument window now prices =
      (pricesSince instrument window' now prices).filter
        fun row => now - window * 1000000 ≤ row.timestamp := by
  rw [pricesSince, pricesSince, List.filter_filter]
  apply List.filter_congr
  intro row _
  have hstart : now - window' * 1000000 ≤ now - window * 1000000 := by
    apply Int.sub_le_sub_left
    omega
  by_cases hyoung : now - window * 1000000 ≤ row.timestamp
  · simp [hyoung, hstart.trans hyoung]
  · simp [hyoung]

theorem pricesSince_congr (h : pricesFor instrument prices' = pricesFor instrument prices) :
    pricesSince instrument window now prices' = pricesSince instrument window now prices := by
  have hfactor : ∀ l : List (ConsolidatedPrice db Venue), pricesSince instrument window now l =
      (pricesFor instrument l).filter fun row => now - window * 1000000 ≤ row.timestamp := by
    intro l
    rw [pricesSince, pricesFor, List.filter_filter]
    apply List.filter_congr
    intro row _
    simp only [Bool.decide_and, Bool.and_comm]
  rw [hfactor, hfactor, h]

theorem describes_computeRollingStats (pstdev : List ℚ → Option ℚ) (asc : Ascending db Venue)
    (hrows : ∀ row ∈ prices, row.instrument = instrument → row.Ordered) (window : ℤ) (now : Instant) :
    (computeRollingStats .exact pstdev asc prices instrument window now).Describes
      (pricesSince instrument window now prices) := by
  have hordered : ∀ row ∈ asc.arrange (pricesSince instrument window now prices), row.Ordered := by
    intro row hrow
    obtain ⟨hmem, hlabel, _⟩ := mem_pricesSince.mp (asc.mem_arrange.mp hrow)
    exact hrows row hmem hlabel
  exact (describes_statsOf (asc.sorted _) hordered).perm (asc.perm _)

theorem samples_computeRollingStats (ctx : Context) (asc : Ascending db Venue) :
    (computeRollingStats ctx pstdev asc prices instrument window now).samples =
      (pricesSince instrument window now prices).length := by
  rw [← asc.length_arrange, computeRollingStats]
  cases asc.arrange (pricesSince instrument window now prices) <;> rfl

theorem extremes_widen {stats stats' : RollingStats} (h : stats.Describes rows)
    (h' : stats'.Describes rows') (hsub : ∀ row ∈ rows, row ∈ rows') (hne : rows ≠ []) :
    ∃ low low' high high', stats.minMid = some low ∧ stats'.minMid = some low' ∧
      stats.maxMid = some high ∧ stats'.maxMid = some high' ∧ low' ≤ low ∧ high ≤ high' := by
  obtain ⟨row, hrow⟩ := List.exists_mem_of_ne_nil rows hne
  obtain ⟨low, high, hlow, hhigh, hleast, hgreatest⟩ := h.extremes hne
  obtain ⟨low', high', hlow', hhigh', hleast', hgreatest'⟩ :=
    h'.extremes (List.ne_nil_of_mem (hsub row hrow))
  have hmids : ∀ x ∈ midsOf rows, x ∈ midsOf rows' := by
    intro x hx
    obtain ⟨row, hrow, rfl⟩ := List.mem_map.mp hx
    exact List.mem_map_of_mem (hsub row hrow)
  exact ⟨low, low', high, high', hlow, hlow', hhigh, hhigh', hleast'.2 (hmids low hleast.1),
    hgreatest'.2 (hmids high hgreatest.1)⟩

/-- **Statistics are bounded, and monotone in the window.** -/
theorem rolling_stats_bounded (pstdev : List ℚ → Option ℚ) (asc asc' : Ascending db Venue)
    (hrows : ∀ row ∈ prices, row.instrument = instrument → row.Ordered) (now : Instant)
    (hle : window ≤ window') :
    (computeRollingStats .exact pstdev asc prices instrument window now).Describes
      (pricesSince instrument window now prices) ∧
    (computeRollingStats .exact pstdev asc prices instrument window now).samples ≤
      (computeRollingStats .exact pstdev asc' prices instrument window' now).samples ∧
    (0 < (computeRollingStats .exact pstdev asc prices instrument window now).samples →
      ∃ low low' high high',
        (computeRollingStats .exact pstdev asc prices instrument window now).minMid = some low ∧
        (computeRollingStats .exact pstdev asc' prices instrument window' now).minMid = some low' ∧
        (computeRollingStats .exact pstdev asc prices instrument window now).maxMid = some high ∧
        (computeRollingStats .exact pstdev asc' prices instrument window' now).maxMid = some high' ∧
        low' ≤ low ∧ high ≤ high') ∧
    ∀ others : List (ConsolidatedPrice db Venue),
      pricesFor instrument others = pricesFor instrument prices →
      computeRollingStats .exact pstdev asc others instrument window now =
        computeRollingStats .exact pstdev asc prices instrument window now := by
  have hdescribes := describes_computeRollingStats pstdev asc hrows window now
  have hdescribes' := describes_computeRollingStats pstdev asc' hrows window' now
  have hsub := List.filter_sublist (l := pricesSince instrument window' now prices)
    (p := fun row => decide (now - window * 1000000 ≤ row.timestamp))
  rw [← pricesSince_eq_filter hle] at hsub
  refine ⟨hdescribes, ?_, fun hpos => ?_, fun others hothers => ?_⟩
  · rw [hdescribes.samples, hdescribes'.samples]
    exact hsub.length_le
  · rw [hdescribes.samples] at hpos
    exact extremes_widen hdescribes hdescribes' (fun row => hsub.mem) (List.ne_nil_of_length_pos hpos)
  · rw [computeRollingStats, computeRollingStats, pricesSince_congr hothers]

/-- What the endpoint answers is about a window of a second to a day, whatever it was asked for. -/
theorem describes_rollingStats {pstdev : List ℚ → Option ℚ} {asc : Ascending db Venue}
    {instruments : InstrumentTable} {symbol : Option Str} {asked : Option ℤ} {stats : RollingStats}
    (hrows : ∀ row ∈ prices, row.Ordered)
    (h : rollingStats .exact pstdev asc instruments prices now symbol asked = .ok (.data stats)) :
    ∃ found window, instruments.get? found.symbol = some found ∧ 1 ≤ window ∧ window ≤ 86400 ∧
      stats.Describes (pricesSince found.symbol window now prices) := by
  unfold rollingStats at h
  split at h
  · cases h
  · cases h
  · cases h
  · rename_i symbol asked _
    obtain ⟨row, hrow, h⟩ := bind_eq_ok.mp h
    cases row with
    | none => cases h
    | some found =>
        obtain ⟨text, _, hget⟩ := bind_eq_ok.mp hrow
        have hfound : instruments.get? text = some found := Except.ok.inj hget
        obtain rfl : found.symbol = text := KeyedTable.key_of_get? hfound
        obtain rfl := Response.data.inj (Except.ok.inj h)
        refine ⟨found, max 1 (min asked 86400), hfound, le_max_left _ _, by omega, ?_⟩
        exact describes_computeRollingStats pstdev asc (fun row hmem _ => hrows row hmem) _ now

/-! ### The newest row -/

/-- No row of the instrument is newer. -/
def IsNewest (instrument : Str) (prices : List (ConsolidatedPrice db Venue))
    (row : ConsolidatedPrice db Venue) : Prop := IsLast NotAfter (pricesFor instrument prices) row

/-- The order of a database that keeps rows with equal timestamps as they are. -/
def byTimestamp : Ascending db Venue :=
  .stable NotAfter (fun _ _ _ hab hbc => le_trans hab hbc) fun a b => le_total a.timestamp b.timestamp

def byTimestampDesc : Descending db Venue :=
  .stable _ (fun _ _ _ hab hbc => le_trans hbc hab) fun a b => le_total b.timestamp a.timestamp

theorem isNewest_of_window {row : ConsolidatedPrice db Venue}
    (h : IsLast NotAfter (pricesSince instrument window now prices) row) :
    IsNewest instrument prices row := by
  obtain ⟨hmem, hlabel, hyoung⟩ := mem_pricesSince.mp h.1
  refine ⟨mem_pricesFor.mpr ⟨hmem, hlabel⟩, fun other hother => ?_⟩
  obtain ⟨hmem', hlabel'⟩ := mem_pricesFor.mp hother
  by_cases hyoung' : now - window * 1000000 ≤ other.timestamp
  · exact h.2 other (mem_pricesSince.mpr ⟨hmem', hlabel', hyoung'⟩)
  · exact (not_le.mp hyoung').le.trans hyoung

theorem IsNewest.isLast_window {row : ConsolidatedPrice db Venue} (h : IsNewest instrument prices row)
    (hne : pricesSince instrument window now prices ≠ []) :
    IsLast NotAfter (pricesSince instrument window now prices) row := by
  obtain ⟨other, hother⟩ := List.exists_mem_of_ne_nil _ hne
  obtain ⟨hmem, hlabel, hyoung⟩ := mem_pricesSince.mp hother
  have hle : other.timestamp ≤ row.timestamp := h.2 other (mem_pricesFor.mpr ⟨hmem, hlabel⟩)
  obtain ⟨hrow, hname⟩ := mem_pricesFor.mp h.1
  refine ⟨mem_pricesSince.mpr ⟨hrow, hname, hyoung.trans hle⟩, fun r hr => ?_⟩
  obtain ⟨hr, hrname, _⟩ := mem_pricesSince.mp hr
  exact h.2 r (mem_pricesFor.mpr ⟨hr, hrname⟩)

theorem lastMid_computeRollingStats (ctx : Context) (asc : Ascending db Venue) :
    (computeRollingStats ctx pstdev asc prices instrument window now).lastMid =
      (asc.arrange (pricesSince instrument window now prices)).getLast?.map fun row => row.mid.value := by
  rw [computeRollingStats]
  cases asc.arrange (pricesSince instrument window now prices) with
  | nil => rfl
  | cons row rest =>
      change (midsOf (row :: rest)).getLast? = _
      rw [midsOf, List.getLast?_map]

theorem exists_lastMid (ctx : Context) (pstdev : List ℚ → Option ℚ) (asc : Ascending db Venue)
    (hne : pricesSince instrument window now prices ≠ []) :
    ∃ row, IsNewest instrument prices row ∧
      (computeRollingStats ctx pstdev asc prices instrument window now).lastMid =
        some row.mid.value := by
  have harranged : asc.arrange (pricesSince instrument window now prices) ≠ [] :=
    fun hnil => hne (asc.arrange_eq_nil_iff.mp hnil)
  have hlast := List.getLast?_eq_some_getLast harranged
  refine ⟨_, isNewest_of_window (asc.isLast_getLast? (fun r => le_refl r.timestamp) hlast), ?_⟩
  rw [lastMid_computeRollingStats, hlast]
  rfl

theorem exists_latestPrice (desc : Descending db Venue) (hne : pricesFor instrument prices ≠ []) :
    ∃ row, IsNewest instrument prices row ∧ latestPrice desc prices instrument = some row := by
  have harranged : desc.arrange (pricesFor instrument prices) ≠ [] :=
    fun hnil => hne (desc.arrange_eq_nil_iff.mp hnil)
  have hfirst := List.head?_eq_some_head harranged
  exact ⟨_, Arrangement.isLast_head? desc (fun r => le_refl r.timestamp) hfirst, hfirst⟩

theorem latest_of_latestPrice {desc : Descending db Venue} {instruments : InstrumentTable}
    {symbol : Str} {found : Instrument} {row : ConsolidatedPrice db Venue} (hne : symbol ≠ [])
    (hfound : findInstrument instruments symbol = .ok (some found))
    (hrow : latestPrice desc prices found.symbol = some row) :
    latest desc instruments prices (some symbol) = .ok (.data ⟨row.instrument, row.mid.value,
      row.bid.value, row.ask.value, row.sources, row.timestamp⟩) := by
  obtain ⟨c, rest, rfl⟩ := List.exists_cons_of_ne_nil hne
  simp only [latest, hfound, bind, Except.bind, hrow, serializeConsolidatedPrice_eq]
  rfl

/-- **The two readings of the latest price.** Both take a newest row of the instrument; they agree
whatever the database does exactly if its newest rows have one mid, or the window is empty. -/
theorem latest_prices_agree_iff (ctx : Context) (pstdev : List ℚ → Option ℚ)
    {instruments : InstrumentTable} {symbol : Str} {found : Instrument} (hne : symbol ≠ [])
    (hfound : findInstrument instruments symbol = .ok (some found))
    (prices : List (ConsolidatedPrice db Venue)) (window : ℤ) (now : Instant) :
    (∀ (asc : Ascending db Venue) (desc : Descending db Venue),
      0 < (computeRollingStats ctx pstdev asc prices found.symbol window now).samples →
      ∃ row row' body, IsNewest found.symbol prices row ∧ IsNewest found.symbol prices row' ∧
        (computeRollingStats ctx pstdev asc prices found.symbol window now).lastMid =
          some row.mid.value ∧
        latest desc instruments prices (some symbol) = .ok (.data body) ∧
        body.mid = row'.mid.value ∧ body.timestamp = row'.timestamp) ∧
    ((∀ (asc : Ascending db Venue) (desc : Descending db Venue) body,
      0 < (computeRollingStats ctx pstdev asc prices found.symbol window now).samples →
      latest desc instruments prices (some symbol) = .ok (.data body) →
      (computeRollingStats ctx pstdev asc prices found.symbol window now).lastMid = some body.mid) ↔
    pricesSince found.symbol window now prices = [] ∨
      ∀ row row', IsNewest found.symbol prices row → IsNewest found.symbol prices row' →
        row.mid.value = row'.mid.value) := by
  have hboth : ∀ (asc : Ascending db Venue) (desc : Descending db Venue),
      0 < (computeRollingStats ctx pstdev asc prices found.symbol window now).samples →
      ∃ row row', IsNewest found.symbol prices row ∧ IsNewest found.symbol prices row' ∧
        (computeRollingStats ctx pstdev asc prices found.symbol window now).lastMid =
          some row.mid.value ∧
        latest desc instruments prices (some symbol) = .ok (.data ⟨row'.instrument, row'.mid.value,
          row'.bid.value, row'.ask.value, row'.sources, row'.timestamp⟩) := by
    intro asc desc hpos
    rw [samples_computeRollingStats] at hpos
    obtain ⟨row, hnewest, hlast⟩ :=
      exists_lastMid ctx pstdev asc (List.ne_nil_of_length_pos hpos)
    obtain ⟨row', hnewest', hfirst⟩ := exists_latestPrice desc (List.ne_nil_of_mem hnewest.1)
    exact ⟨row, row', hnewest, hnewest', hlast, latest_of_latestPrice hne hfound hfirst⟩
  refine ⟨fun asc desc hpos => ?_, ?_, ?_⟩
  · obtain ⟨row, row', hnewest, hnewest', hlast, hlatest⟩ := hboth asc desc hpos
    exact ⟨row, row', _, hnewest, hnewest', hlast, hlatest, rfl, rfl⟩
  · intro hagree
    by_cases hempty : pricesSince found.symbol window now prices = []
    · exact Or.inl hempty
    · refine Or.inr fun row row' hnewest hnewest' => ?_
      -- the database may put either of the two at the end it is asked for
      have hlast : (computeRollingStats ctx pstdev (byTimestamp.favour row) prices found.symbol window
          now).lastMid = some row.mid.value := by
        rw [lastMid_computeRollingStats, Arrangement.getLast?_favour _ (IsNewest.isLast_window hnewest hempty)]
        rfl
      have hfirst : latestPrice (byTimestamp.favour row').reverse prices found.symbol = some row' :=
        Arrangement.head?_reverse_favour byTimestamp hnewest'
      have hlatest := latest_of_latestPrice hne hfound hfirst
      have hpos : 0 < (computeRollingStats ctx pstdev (byTimestamp.favour row) prices found.symbol
          window now).samples := by
        rw [samples_computeRollingStats]
        exact List.length_pos_of_ne_nil hempty
      exact Option.some.inj (hlast.symm.trans (hagree _ _ _ hpos hlatest))
  · intro hsame asc desc body hpos hbody
    obtain ⟨row, row', hnewest, hnewest', hlast, hlatest⟩ := hboth asc desc hpos
    rw [samples_computeRollingStats] at hpos
    have hmid := hsame.resolve_left (List.ne_nil_of_length_pos hpos) row row' hnewest hnewest'
    rw [hlatest] at hbody
    obtain rfl := Response.data.inj (Except.ok.inj hbody)
    rw [hlast, hmid]

end Stats

/-! ### Rows on a tape -/

def btc : Str := Str.ofString "BTC-USD"

def btcTable : InstrumentTable :=
  ⟨[⟨btc, Str.ofString "BTC", Str.ofString "USD", true⟩], List.nodup_singleton _⟩

/-- A row of the tape, for numbers that fit their columns. -/
def priceRow (bid mid ask : ℚ) (sources : List ℕ) (timestamp : Instant)
    (h : (priceColumn .postgres).Fits mid ∧ (priceColumn .postgres).Fits bid ∧
      (priceColumn .postgres).Fits ask) : ConsolidatedPrice .postgres ℕ where
  instrument := btc
  mid := (priceColumn .postgres).put mid h.1
  bid := (priceColumn .postgres).put bid h.2.1
  ask := (priceColumn .postgres).put ask h.2.2
  sources
  timestamp

theorem fits_firstRow : (priceColumn .postgres).Fits 100 ∧ (priceColumn .postgres).Fits 99 ∧
    (priceColumn .postgres).Fits 101 := by decide +kernel

theorem fits_secondRow : (priceColumn .postgres).Fits 104 ∧ (priceColumn .postgres).Fits 103 ∧
    (priceColumn .postgres).Fits 105 := by decide +kernel

def firstRow : ConsolidatedPrice .postgres ℕ := priceRow 99 100 101 [0] 5000000 fits_firstRow

def secondRow : ConsolidatedPrice .postgres ℕ := priceRow 103 104 105 [0, 1] 9000000 fits_secondRow

/-- A row that a concurrent round stamped at the moment of the second one. -/
def tiedRow : ConsolidatedPrice .postgres ℕ := { firstRow with timestamp := 9000000 }

theorem ordered_twoRows : ∀ row ∈ [firstRow, secondRow], row.instrument = btc → row.Ordered := by
  decide +kernel

theorem twoRows_bounded :
    (computeRollingStats .exact (fun _ => none) byTimestamp [firstRow, secondRow] btc 2 10000000).Describes
      (pricesSince btc 2 10000000 [firstRow, secondRow]) := by
  have hle : (2 : ℤ) ≤ 60 := by decide
  exact (rolling_stats_bounded (fun _ => none) byTimestamp byTimestamp ordered_twoRows 10000000 hle).1

theorem findInstrument_btc : findInstrument btcTable btc =
    .ok (some ⟨btc, Str.ofString "BTC", Str.ofString "USD", true⟩) := by decide

/-- With two timestamps there is one newest row, and both readings take it. -/
theorem twoRows_agree :
    ∃ row row' body, IsNewest btc [firstRow, secondRow] row ∧ IsNewest btc [firstRow, secondRow] row' ∧
      (computeRollingStats .exact (fun _ => none) byTimestamp [firstRow, secondRow] btc 2
        10000000).lastMid = some row.mid.value ∧
      latest byTimestampDesc btcTable [firstRow, secondRow] (some btc) = .ok (.data body) ∧
      body.mid = row'.mid.value ∧ body.timestamp = row'.timestamp :=
  (latest_prices_agree_iff .exact (fun _ => none) (List.cons_ne_nil _ _) findInstrument_btc
    [firstRow, secondRow] 2 10000000).1 byTimestamp byTimestampDesc (by decide +kernel)

/-- A database that keeps rows with equal timestamps as they are gives two latest prices. -/
theorem tied_rows_differ :
    (computeRollingStats .exact (fun _ => none) byTimestamp [secondRow, tiedRow] btc 2
      10000000).samples = 2 ∧
    ∃ body, latest byTimestampDesc btcTable [secondRow, tiedRow] (some btc) = .ok (.data body) ∧
      (computeRollingStats .exact (fun _ => none) byTimestamp [secondRow, tiedRow] btc 2
        10000000).lastMid ≠ some body.mid := by
  have hfirst : latestPrice byTimestampDesc [secondRow, tiedRow] btc = some secondRow := by
    decide +kernel
  have hlast : (computeRollingStats .exact (fun _ => none) byTimestamp [secondRow, tiedRow] btc 2
      10000000).lastMid = some 100 := by decide +kernel
  refine ⟨by decide +kernel, _,
    latest_of_latestPrice (List.cons_ne_nil _ _) findInstrument_btc hfirst, ?_⟩
  rw [hlast]
  decide +kernel

end Pricestream
