import Pricestream.Library.Interleaving
import Pricestream.Proof.Tasks.Published

/-!
# Rounds that overlap

Two workers may be in a round at the same time, and creating the row of a consolidated price and
writing its snapshot to the cache are two steps. The cache keeps the snapshot that was written last,
whatever the timestamp in it. That is one of the instrument's rows, and it is the newest one when the
snapshots are written in the order of their timestamps, which is so when no two rounds are between
these two steps for one instrument at the same time.
-/

namespace Pricestream

open Library Python

variable {db : Engine} {Venue ι : Type}

/-- The snapshot the effect writes under a key of the cache. -/
def Effect.set? (key : Str) : Effect db Venue → Option (Snapshot Venue)
  | .cacheSet key' snapshot => if key' = key then some snapshot else none
  | .insert _ | .inc _ | .publish _ _ | .groupSend _ _ _ => none

/-- The effect creates a consolidated price of the instrument, or sets its snapshot. -/
def Effect.prices (symbol : Str) : Effect db Venue → Bool
  | .insert (.consolidated row) => row.instrument = symbol
  | .cacheSet key _ => key = cacheKey symbol
  | _ => false

theorem Effect.set?_eq_some {key : Str} {w : Effect db Venue} {snapshot : Snapshot Venue} :
    w.set? key = some snapshot ↔ w = .cacheSet key snapshot := by
  cases w with
  | cacheSet key' snapshot' => simp [Effect.set?]
  | insert _ | inc _ | publish _ _ | groupSend _ _ _ => simp [Effect.set?]

/-- What the cache holds under a key after a history. -/
def cached (key : Str) (history : List (ι × Effect db Venue)) : Option (Snapshot Venue) :=
  register (fun step => step.2.set? key) history

/-- Once an instrument has a row, its snapshot in the cache is that of a row no older than any. -/
def KeepsNewest (symbol : Str) (history : List (ι × Effect db Venue)) : Prop :=
  ∀ i row, (i, .insert (.consolidated row)) ∈ history → row.instrument = symbol →
    ∃ snapshot j newest, cached (cacheKey symbol) history = some snapshot ∧
      (j, .insert (.consolidated newest)) ∈ history ∧ newest.instrument = symbol ∧
      Mirrors snapshot newest ∧ row.timestamp ≤ newest.timestamp

/-- Of the snapshots of an instrument, the one written last is the newest. -/
def LastSetIsNewest (symbol : Str) (history : List (ι × Effect db Venue)) : Prop :=
  ∀ last, cached (cacheKey symbol) history = some last →
    ∀ step ∈ history, ∀ snapshot, step.2.set? (cacheKey symbol) = some snapshot → snapshot.ts ≤ last.ts

/-- The snapshots of an instrument are written in the order of their timestamps. -/
def SetInOrder (symbol : Str) (history : List (ι × Effect db Venue)) : Prop :=
  (history.filterMap fun step => step.2.set? (cacheKey symbol)).Pairwise fun s s' => s.ts ≤ s'.ts

/-- Rounds take turns at an instrument: each writes the snapshot of its row before the next one creates
a row, and these rows come in the order of their timestamps. -/
def TakeTurns (symbol : Str) (history : List (ι × Effect db Venue)) : Prop :=
  ∃ turns : List (ι × ConsolidatedPrice db Venue × Snapshot Venue),
    (history.filter fun step => step.2.prices symbol) =
      turns.flatMap (fun (i, row, snapshot) =>
        [(i, .insert (.consolidated row)), (i, .cacheSet (cacheKey symbol) snapshot)]) ∧
    turns.Pairwise fun t t' => t.2.1.timestamp ≤ t'.2.1.timestamp

variable [LinearOrder Venue]

/-- What each of some rounds does. -/
def programs (db : Engine) (rounds : ι → Round Venue) (tables : ι → InstrumentTable) (i : ι) :
    List (Effect db Venue) :=
  ((fetchQuotes (rounds i) (tables i)).2 : Task db Venue Counts).trace

section Round

variable {round : Round Venue} {instruments : InstrumentTable}

theorem set_of_row (h : Completes db round instruments) {row : ConsolidatedPrice db Venue}
    (hrow : .insert (.consolidated row) ∈ ((fetchQuotes round instruments).2 : Task db Venue Counts).trace) :
    ∃ snapshot, .cacheSet (cacheKey row.instrument) snapshot ∈
        ((fetchQuotes round instruments).2 : Task db Venue Counts).trace ∧
      snapshot.ts = row.timestamp := by
  obtain ⟨c, hbook, hstore⟩ := price_of_mem hrow
  rw [(runs_symbols (completes_iff.mp h)).trace_eq] at hrow ⊢
  obtain ⟨symbol, hsymbol, hmem⟩ := List.mem_flatMap.mp hrow
  obtain rfl : row.instrument = symbol := about_of_mem_turn hmem rfl
  refine ⟨snapshotOf round row.instrument c, List.mem_flatMap.mpr ⟨_, hsymbol, ?_⟩,
    (create_mirrors hstore).timestamp.symm⟩
  rw [instrumentEffects, turnEffects_eq, hbook]
  refine List.mem_append_right _ (List.mem_append_left _ (List.mem_flatMap.mpr ⟨c, ?_, ?_⟩))
  · exact List.mem_singleton_self c
  · exact mem_bookEffects.mpr (Or.inr (Or.inr (Or.inl rfl)))

theorem ts_of_set_of_row {symbol : Str} {snapshot : Snapshot Venue} {row : ConsolidatedPrice db Venue}
    (hset : .cacheSet (cacheKey symbol) snapshot ∈
      ((fetchQuotes round instruments).2 : Task db Venue Counts).trace)
    (hrow : .insert (.consolidated row) ∈
      ((fetchQuotes round instruments).2 : Task db Venue Counts).trace)
    (hsymbol : row.instrument = symbol) : snapshot.ts = row.timestamp := by
  obtain ⟨c, _, _, rfl, _, _⟩ := row_of_published (Or.inl hset)
  obtain ⟨c', _, hstore⟩ := price_of_mem hrow
  rw [hsymbol] at hstore
  exact (create_mirrors hstore).timestamp.symm

end Round

variable [DecidableEq ι] {rounds : ι → Round Venue} {tables : ι → InstrumentTable}
  {history : List (ι × Effect db Venue)} {symbol : Str}

omit [LinearOrder Venue] [DecidableEq ι] in
theorem filterMap_set_filter_prices :
    (history.filter fun step => step.2.prices symbol).filterMap
        (fun step => step.2.set? (cacheKey symbol)) =
      history.filterMap fun step => step.2.set? (cacheKey symbol) := by
  rw [List.filterMap_filter]
  congr 1
  funext ⟨i, w⟩
  cases w with
  | insert row => cases row <;> simp [Effect.set?]
  | cacheSet key snapshot => simp [Effect.set?, Effect.prices]
  | inc _ | publish _ _ | groupSend _ _ _ => simp [Effect.set?]

theorem setInOrder_of_takeTurns (h : Interleaves (programs db rounds tables) history)
    (hturns : TakeTurns symbol history) : SetInOrder symbol history := by
  obtain ⟨turns, hfilter, horder⟩ := hturns
  have hturn : ∀ turn ∈ turns, turn.2.2.ts = turn.2.1.timestamp := by
    intro ⟨i, row, snapshot⟩ hmem
    have hsteps : ∀ step ∈ [(i, .insert (.consolidated row)), (i, .cacheSet (cacheKey symbol) snapshot)],
        step ∈ history ∧ step.2.prices symbol = true := by
      intro step hstep
      exact List.mem_filter.mp (hfilter ▸ List.mem_flatMap.mpr ⟨_, hmem, hstep⟩)
    obtain ⟨hrow, hsymbol⟩ := hsteps _ List.mem_cons_self
    obtain ⟨hset, _⟩ := hsteps _ (List.mem_cons_of_mem _ List.mem_cons_self)
    exact ts_of_set_of_row (h.mem_iff.mp hset) (h.mem_iff.mp hrow) (of_decide_eq_true hsymbol)
  have hsets : (history.filterMap fun step => step.2.set? (cacheKey symbol)) =
      turns.map fun turn => turn.2.2 := by
    rw [← filterMap_set_filter_prices, hfilter, List.filterMap_flatMap, List.map_eq_flatMap]
    congr 1
    funext ⟨i, row, snapshot⟩
    simp [Effect.set?]
  rw [SetInOrder, hsets, List.pairwise_map]
  refine horder.imp_of_mem fun ht ht' hle => ?_
  rwa [hturn _ ht, hturn _ ht']

theorem row_of_cached (h : Interleaves (programs db rounds tables) history)
    {snapshot : Snapshot Venue} (hcached : cached (cacheKey symbol) history = some snapshot) :
    ∃ i row, (i, .insert (.consolidated row)) ∈ history ∧ row.instrument = symbol ∧
      Mirrors snapshot row := by
  obtain ⟨⟨i, w⟩, hw, hset⟩ := exists_write_of_register hcached
  obtain rfl : w = _ := Effect.set?_eq_some.mp hset
  obtain ⟨c, row, hbook, rfl, hstore, hrow⟩ := row_of_published (Or.inl (h.mem_iff.mp hw))
  exact ⟨i, row, h.mem_iff.mpr hrow, label_of_storeBook hstore, create_mirrors hstore⟩

theorem keepsNewest_iff (h : Interleaves (programs db rounds tables) history)
    (hcompletes : ∀ i, Completes db (rounds i) (tables i)) :
    KeepsNewest symbol history ↔ LastSetIsNewest symbol history := by
  constructor
  · intro hkeeps last hlast ⟨i, w⟩ hw snapshot hset
    obtain rfl : w = _ := Effect.set?_eq_some.mp hset
    obtain ⟨c, row, _, rfl, hstore, hrow⟩ := row_of_published (Or.inl (h.mem_iff.mp hw))
    obtain ⟨snapshot, j, newest, hcached, _, _, hmirrors, hle⟩ :=
      hkeeps i row (h.mem_iff.mpr hrow) (label_of_storeBook hstore)
    obtain rfl := Option.some.inj (hcached.symm.trans hlast)
    rw [← (create_mirrors hstore).timestamp, ← hmirrors.timestamp]
    exact hle
  · intro hlast i row hrow hsymbol
    obtain ⟨snapshot, hset, hts⟩ := set_of_row (hcompletes i) (h.mem_iff.mp hrow)
    rw [hsymbol] at hset
    have hwrite : (i, Effect.cacheSet (cacheKey symbol) snapshot) ∈ history := h.mem_iff.mpr hset
    have hset : (Effect.cacheSet (cacheKey symbol) snapshot : Effect db Venue).set? (cacheKey symbol) =
        some snapshot := Effect.set?_eq_some.mpr rfl
    obtain ⟨last, hcached⟩ : ∃ last, cached (cacheKey symbol) history = some last := by
      rw [← Option.ne_none_iff_exists', cached, Ne, register_eq_none_iff]
      intro hnone
      cases (hnone _ hwrite).symm.trans hset
    obtain ⟨j, newest, hnewest, hlabel, hmirrors⟩ := row_of_cached h hcached
    refine ⟨last, j, newest, hcached, hnewest, hlabel, hmirrors, ?_⟩
    rw [hmirrors.timestamp, ← hts]
    exact hlast last hcached _ hwrite snapshot hset

/-- **What the cache holds.** -/
theorem cache_keeps_last_set (h : Interleaves (programs db rounds tables) history) (symbol : Str) :
    (∀ snapshot, cached (cacheKey symbol) history = some snapshot →
      ∃ i row, (i, .insert (.consolidated row)) ∈ history ∧ row.instrument = symbol ∧
        Mirrors snapshot row) ∧
    ((∀ i, Completes db (rounds i) (tables i)) →
      (KeepsNewest symbol history ↔ LastSetIsNewest symbol history)) ∧
    (SetInOrder symbol history → LastSetIsNewest symbol history) ∧
    (TakeTurns symbol history → SetInOrder symbol history) :=
  ⟨fun _ => row_of_cached h, keepsNewest_iff h,
    fun horder _ hlast _ hstep _ hset => le_register horder hlast hstep hset,
    setInOrder_of_takeTurns h⟩

/-! ### A late write -/

/-- A round at a given time, with one venue. -/
def roundAt (now : DateTime.Instant) : Round ℕ where
  ctx := .exact
  upper s := s
  collate a b := decide (a ≤ b)
  configured := [Str.ofString "BTC-USD"]
  maxAge := 30
  clients := [⟨0, fun _ => some (.finite 100, .finite 101)⟩]
  clock := ⟨fun _ _ => now, fun _ _ => now, fun _ => now, fun _ => now⟩
  hasLayer := true
  side _ := none

/-- Two rounds, five seconds apart. -/
def twoRounds (second : Bool) : Round ℕ := roundAt (if second then 5000000 else 0)

def twoPrograms : Bool → List (Effect .postgres ℕ) :=
  programs .postgres twoRounds fun _ => KeyedTable.empty

/-- The first round creates its row, the second one runs, and the first one goes on. -/
def lateHistory : List (Bool × Effect .postgres ℕ) :=
  ((twoPrograms false).take 6).map (false, ·) ++ (twoPrograms true).map (true, ·) ++
    ((twoPrograms false).drop 6).map (false, ·)

theorem interleaves_lateHistory : Interleaves twoPrograms lateHistory := by
  intro second
  cases second <;> decide +kernel

theorem completes_twoRounds (second : Bool) :
    Completes .postgres (twoRounds second) KeyedTable.empty := by
  have hcounts : ((fetchQuotes (twoRounds second) KeyedTable.empty).2 :
      Task .postgres ℕ Counts).result.toOption = some ⟨1, 1, 0⟩ := by
    cases second <;> decide +kernel
  exact ⟨_, toOption_eq_some.mp hcounts⟩

/-- Both rounds poll, and then the first one finishes before the second one goes on. -/
def turnHistory : List (Bool × Effect .postgres ℕ) :=
  ((twoPrograms false).take 4).map (false, ·) ++ ((twoPrograms true).take 4).map (true, ·) ++
    (((twoPrograms false).drop 4).map (false, ·) ++ ((twoPrograms true).drop 4).map (true, ·))

theorem interleaves_turnHistory : Interleaves twoPrograms turnHistory := by
  intro second
  cases second <;> decide +kernel

theorem prices_of_twoPrograms (second : Bool) : ∃ row snapshot,
    ((twoPrograms second).drop 4).filter (Effect.prices (Str.ofString "BTC-USD")) =
      [.insert (.consolidated row), .cacheSet (cacheKey (Str.ofString "BTC-USD")) snapshot] ∧
    row.timestamp = if second then 5000000 else 0 := by
  have hread : (((twoPrograms second).drop 4).filter (Effect.prices (Str.ofString "BTC-USD"))).map
      (fun w => (w.consolidatedRow?.map ConsolidatedPrice.timestamp,
        (w.set? (cacheKey (Str.ofString "BTC-USD"))).isSome)) =
      [(some (if second then 5000000 else 0), false), (none, true)] := by
    cases second <;> decide +kernel
  obtain ⟨w, w', hfilter⟩ : ∃ w w',
      ((twoPrograms second).drop 4).filter (Effect.prices (Str.ofString "BTC-USD")) = [w, w'] :=
    List.length_eq_two.mp (by simpa using congrArg List.length hread)
  rw [hfilter] at hread
  simp only [List.map_cons, List.map_nil, List.cons.injEq, Prod.mk.injEq] at hread
  obtain ⟨⟨hrow, _⟩, ⟨_, hset⟩, _⟩ := hread
  obtain ⟨row, hrow, htime⟩ := Option.map_eq_some_iff.mp hrow
  obtain ⟨snapshot, hset⟩ := Option.isSome_iff_exists.mp hset
  refine ⟨row, snapshot, ?_, htime⟩
  rw [hfilter, Effect.consolidatedRow?_eq_some.mp hrow, Effect.set?_eq_some.mp hset]

theorem takeTurns_turnHistory : TakeTurns (Str.ofString "BTC-USD") turnHistory := by
  have hpoll (second : Bool) :
      ((twoPrograms second).take 4).filter (Effect.prices (Str.ofString "BTC-USD")) = [] := by
    rw [← List.isEmpty_iff]
    cases second <;> decide +kernel
  have hblock (second : Bool) (ws : List (Effect .postgres ℕ)) :
      ((ws.map (second, ·)).filter fun step => step.2.prices (Str.ofString "BTC-USD")) =
        (ws.filter (Effect.prices (Str.ofString "BTC-USD"))).map (second, ·) := by
    rw [List.filter_map]
    rfl
  obtain ⟨row, snapshot, hprices, htime⟩ := prices_of_twoPrograms false
  obtain ⟨row', snapshot', hprices', htime'⟩ := prices_of_twoPrograms true
  refine ⟨[(false, row, snapshot), (true, row', snapshot')], ?_, ?_⟩
  · simp only [turnHistory, List.filter_append, hblock, hpoll, hprices, hprices', List.map_nil,
      List.nil_append]
    rfl
  · rw [List.pairwise_pair, htime, htime']
    decide

/-- The two overlap in both histories: once the older snapshot is set last, and once they take turns. -/
theorem overlapping_rounds_keep_last_set :
    (KeepsNewest (Str.ofString "BTC-USD") lateHistory ↔
      LastSetIsNewest (Str.ofString "BTC-USD") lateHistory) ∧
    TakeTurns (Str.ofString "BTC-USD") turnHistory ∧ SetInOrder (Str.ofString "BTC-USD") turnHistory ∧
    KeepsNewest (Str.ofString "BTC-USD") turnHistory := by
  obtain ⟨_, hiff, _, _⟩ := cache_keeps_last_set interleaves_lateHistory (Str.ofString "BTC-USD")
  obtain ⟨_, hiff', hnewest, hinOrder⟩ :=
    cache_keeps_last_set interleaves_turnHistory (Str.ofString "BTC-USD")
  have horder := hinOrder takeTurns_turnHistory
  exact ⟨hiff completes_twoRounds, takeTurns_turnHistory, horder,
    (hiff' completes_twoRounds).mpr (hnewest horder)⟩

/-- The cache ends up with the older snapshot. -/
theorem late_set_wins :
    Interleaves twoPrograms lateHistory ∧
    (∀ second, Completes .postgres (twoRounds second) KeyedTable.empty) ∧
    ¬ KeepsNewest (Str.ofString "BTC-USD") lateHistory := by
  refine ⟨interleaves_lateHistory, completes_twoRounds, fun hkeeps => ?_⟩
  have hlast := (keepsNewest_iff interleaves_lateHistory completes_twoRounds).mp hkeeps
  have hcached : cached (cacheKey (Str.ofString "BTC-USD")) lateHistory =
      some ⟨201 / 2, 100, 101, [0], 0⟩ := by decide +kernel
  have hset : (true, .cacheSet (cacheKey (Str.ofString "BTC-USD"))
      ⟨201 / 2, 100, 101, [0], 5000000⟩) ∈ lateHistory := by decide +kernel
  exact absurd (hlast _ hcached _ hset _ (Effect.set?_eq_some.mpr rfl)) (by decide)

end Pricestream
