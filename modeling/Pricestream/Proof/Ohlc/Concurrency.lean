import Pricestream.Library.RowLocks
import Pricestream.Proof.Ohlc.Refinement

/-!
# Concurrent updates of bars

Two consumers may call `_update_bar` for the same bar at once. The call is a get-or-create under a row
lock, so the library's account of such transactions applies once `_update_bar` is seen to be one: run
alone it does what the job does, for any price, storable or not. What follows is that the committed
table is the result of the committed calls in the order of their commits, and hence that each row is
the summary of exactly the prices committed to it.
-/

namespace Pricestream

open Library Python RowLocks
open TimeDelta (wholeSeconds)

variable {db : Engine}

/-- A call that comes to its transaction. One whose timestamp has no bucket raises before. -/
structure Update where
  instrument : Str
  interval : Interval
  ts : DateTime
  price : Decimal
  dated : HasBuckets wholeSeconds ts

def Update.key (u : Update) : BarKey := barKey u.instrument u.interval u.ts

def Update.run (u : Update) (bars : BarTable db) : Except Exc (BarTable db) :=
  updateBar u.instrument u.interval u.ts u.price bars

def updateBars {ι : Type} (updates : ι → Update) (log : List ι) (bars : BarTable db) :
    Except Exc (BarTable db) :=
  log.foldlM (fun bars i => (updates i).run bars) bars

/-! ### The transaction -/

theorem key_createBar {key : BarKey} {price : Decimal} {bar : OHLCBar db}
    (h : createBar db key price = .ok bar) : bar.key = key := by
  obtain ⟨cell, _, hbar⟩ := bind_eq_ok.mp h
  obtain rfl := Except.ok.inj hbar
  rfl

theorem key_amendBar {bar bar' : OHLCBar db} {price : Decimal} (h : amendBar bar price = .ok bar') :
    bar'.key = bar.key := by
  obtain ⟨_, _, h⟩ := bind_eq_ok.mp h
  obtain ⟨_, _, h⟩ := bind_eq_ok.mp h
  obtain ⟨_, _, h⟩ := bind_eq_ok.mp h
  obtain ⟨_, _, h⟩ := bind_eq_ok.mp h
  obtain ⟨_, _, h⟩ := bind_eq_ok.mp h
  obtain rfl := Except.ok.inj h
  rfl

/-- `_update_bar` as a get-or-create transaction. -/
def updateJob (db : Engine) (u : Update) : Job (@OHLCBar.key db) where
  target := u.key
  create := (createBar db u.key u.price).toOption
  amend bar := (amendBar bar u.price).toOption
  key_create _ h := key_createBar (toOption_eq_some.mp h)
  key_amend _ _ hkey h := (key_amendBar (toOption_eq_some.mp h)).trans hkey

theorem updateJob_run (u : Update) (bars : BarTable db) :
    (updateJob db u).run bars = (u.run bars).toOption := by
  cases hget : bars.get? u.key with
  | none =>
      have hjob : (updateJob db u).run bars = (createBar db u.key u.price).toOption.map bars.upsert := by
        simp only [Job.run, updateJob, hget]
      have hcall : u.run bars = createBar db u.key u.price >>= fun bar =>
          orRaise .integrityError (bars.insert bar) := by
        rw [Update.run, updateBar_of_hasBuckets u.dated, ← Update.key]
        simp only [hget]
      rw [hjob, hcall]
      cases hcreate : createBar db u.key u.price with
      | error e => rfl
      | ok bar =>
          have hinsert : bars.insert bar = some (bars.upsert bar) :=
            KeyedTable.insert_eq_some ((key_createBar hcreate).symm ▸ hget)
          simp only [bind, Except.bind, hinsert]
          rfl
  | some row =>
      have hjob : (updateJob db u).run bars = (amendBar row u.price).toOption.map bars.upsert := by
        simp only [Job.run, updateJob, hget]
      have hcall : u.run bars = amendBar row u.price >>= fun bar =>
          orRaise .databaseError (bars.save bar) := by
        rw [Update.run, updateBar_of_hasBuckets u.dated, ← Update.key]
        simp only [hget]
      rw [hjob, hcall]
      cases hamend : amendBar row u.price with
      | error e => rfl
      | ok bar =>
          have hkey : bar.key = u.key := (key_amendBar hamend).trans (KeyedTable.key_of_get? hget)
          have hsave : bars.save bar = some (bars.upsert bar) :=
            KeyedTable.save_eq_some (hkey.symm ▸ hget)
          simp only [bind, Except.bind, hsave]
          rfl

theorem serial_updateJob {ι : Type} (updates : ι → Update) (log : List ι) (bars : BarTable db) :
    serial (fun i => updateJob db (updates i)) log bars = (updateBars updates log bars).toOption := by
  induction log generalizing bars with
  | nil => rfl
  | cons i log ih =>
      rw [serial, updateBars, List.foldlM_cons, List.foldlM_cons, updateJob_run]
      cases (updates i).run bars with
      | error e => rfl
      | ok bars' => exact ih bars'

/-! ### What the committed calls leave -/

def Update.hit? (db : Engine) (u : Update) : Option (Tick db × Interval) :=
  (Reading.tick? db ⟨u.instrument, u.ts, u.price⟩).map fun t => (t, u.interval)

theorem Update.hit?_eq_some {u : Update} {hit : Tick db × Interval} (h : u.hit? db = some hit) :
    u.key = hitKey hit ∧ u.price = .finite hit.1.mid ∧
      ∀ bars : BarTable db, u.run bars = .ok (hitBar bars hit) := by
  obtain ⟨instrument, interval, ts, price, _⟩ := u
  obtain ⟨t, ht, rfl⟩ := Option.map_eq_some_iff.mp h
  obtain ⟨rfl, rfl, rfl⟩ := Reading.mk.inj (Reading.tick?_eq_some ht)
  exact ⟨rfl, rfl, fun bars => updateBar_tick t interval bars⟩

theorem Update.isSome_hit?_of_run {u : Update} {bars bars' : BarTable db} (h : u.run bars = .ok bars') :
    ∃ hit, u.hit? db = some hit := by
  cases hit : Reading.tick? db ⟨u.instrument, u.ts, u.price⟩ with
  | some t => exact ⟨(t, u.interval), by rw [Update.hit?, hit]; rfl⟩
  | none =>
      obtain ⟨e, he⟩ := updateBar_of_not_tick hit u.interval bars
      rw [Update.run, he] at h
      cases h

theorem updateBars_eq_ok {ι : Type} {updates : ι → Update} {log : List ι} {bars bars' : BarTable db}
    (h : updateBars updates log bars = .ok bars') :
    ∃ hits : List (Tick db × Interval), bars' = hits.foldl hitBar bars ∧
      ∀ key, (log.filter fun i => (updates i).key = key).map (fun i => (updates i).price) =
        ((hits.filter fun hit => hitKey hit = key).map fun hit => hit.1.mid).map .finite := by
  induction log generalizing bars with
  | nil =>
      obtain rfl := Except.ok.inj h
      exact ⟨[], rfl, fun key => rfl⟩
  | cons i log ih =>
      rw [updateBars, List.foldlM_cons] at h
      obtain ⟨middle, hrun, hrest⟩ := bind_eq_ok.mp h
      obtain ⟨hit, hhit⟩ := Update.isSome_hit?_of_run hrun
      obtain ⟨hkey, hprice, hrun'⟩ := Update.hit?_eq_some hhit
      obtain rfl := Except.ok.inj ((hrun' bars).symm.trans hrun)
      obtain ⟨hits, hfold, hprices⟩ := ih hrest
      refine ⟨hit :: hits, hfold, fun key => ?_⟩
      by_cases hk : hitKey hit = key
      · rw [List.filter_cons_of_pos (by simpa [hkey] using hk),
          List.filter_cons_of_pos (by simpa using hk), List.map_cons, List.map_cons, List.map_cons,
          hprices, hprice]
      · rw [List.filter_cons_of_neg (by simpa [hkey] using hk),
          List.filter_cons_of_neg (by simpa using hk), hprices]

/-- What a committed table says about the calls that were committed to it. -/
structure Accounts {ι : Type} (db : Engine) (updates : ι → Update) (s : State (OHLCBar db) ι) : Prop where
  shows : ∀ bar ∈ s.rows, ∃ mids : List ℚ,
    (s.log.filter fun i => (updates i).key = bar.key).map (fun i => (updates i).price) =
      mids.map .finite ∧
    (∃ sm : Summary ℚ, sm.Describes mids ∧ bar.Shows sm) ∧
    bar.tickCount = (s.log.filter fun i => (updates i).key = bar.key).length
  creator : ∀ i, s.phase i = .committed true → ∃ x, (updates i).price = .finite x ∧
    ∀ bar ∈ s.rows, bar.key = (updates i).key → bar.open.value = (priceColumn db).round x

variable {ι : Type} [DecidableEq ι] {updates : ι → Update} {s : State (OHLCBar db) ι}

theorem accounts_of_reachable
    (h : Reachable (fun i => updateJob db (updates i)) KeyedTable.empty s) : Accounts db updates s := by
  have hinv := inv_of_reachable h
  obtain ⟨t, ht, hrows⟩ := hinv.serial
  rw [serial_updateJob, toOption_eq_some] at ht
  obtain ⟨hits, hfold, hprices⟩ := updateBars_eq_ok ht
  have hshows : ∀ bar ∈ s.rows, ∃ sm : Summary ℚ,
      sm.Describes ((hits.filter fun hit => hitKey hit = bar.key).map fun hit => hit.1.mid) ∧
        bar.Shows sm := by
    intro bar hbar
    have hget := KeyedTable.get?_of_mem_rows (t := t) (hrows.symm ▸ hbar)
    rw [hfold, get?_foldl_hitBar] at hget
    exact foldBar_shows hget
  constructor
  · intro bar hbar
    obtain ⟨sm, hsm, hsmShows⟩ := hshows bar hbar
    refine ⟨_, hprices bar.key, ⟨sm, hsm, hsmShows⟩, ?_⟩
    have hlength := congrArg List.length (hprices bar.key)
    rw [List.length_map, List.length_map] at hlength
    rw [hsmShows.tickCount, ← hsm.count, hlength]
  · intro i hi
    -- the creating call is the first committed one of its key
    have hhead := hinv.creator i hi
    have hprice := congrArg List.head? (hprices (updates i).key)
    rw [List.head?_map, List.head?_map] at hprice
    have hlog : (s.log.filter fun j => (updates j).key = (updates i).key).head? = some i := hhead
    rw [hlog, Option.map_some] at hprice
    obtain ⟨x, hx, hfinite⟩ := Option.map_eq_some_iff.mp hprice.symm
    refine ⟨x, hfinite.symm, fun bar hbar hkey => ?_⟩
    obtain ⟨sm, hsm, hsmShows⟩ := hshows bar hbar
    have hfirst := hsm.first
    rw [hkey, hx] at hfirst
    rw [hsmShows.open, Option.some.inj hfirst]

/-- **No update is lost.** However the statements of any calls interleave, from any table, the
committed rows are those of the committed calls run one after another; no key has two rows and no
calls wait for each other in a circle. From an empty table each bar accounts for the calls committed
to it. -/
theorem concurrent_updates_serialize (db : Engine) {ι : Type} [DecidableEq ι] (updates : ι → Update)
    (bars₀ : BarTable db) (s : State (OHLCBar db) ι)
    (h : Reachable (fun i => updateJob db (updates i)) bars₀ s) :
    (∃ bars : BarTable db, updateBars updates s.log bars₀ = .ok bars ∧ bars.rows = s.rows) ∧
    s.log.Nodup ∧ (∀ i, i ∈ s.log ↔ (s.phase i).IsCommitted) ∧ (s.rows.map OHLCBar.key).Nodup ∧
    (bars₀ = KeyedTable.empty → Accounts db updates s) ∧
    ∀ i, ¬ Relation.TransGen (Waits (fun i => updateJob db (updates i)) s) i i := by
  obtain ⟨bars, hserial, hrows, hnodup, hlog⟩ := serializable h
  rw [serial_updateJob, toOption_eq_some] at hserial
  refine ⟨⟨bars, hserial, hrows⟩, hnodup, hlog, hrows ▸ bars.unique, ?_, not_transGen_waits s⟩
  rintro rfl
  exact accounts_of_reachable h

/-! ### A race -/

def raceTick (b : Bool) : Tick .postgres :=
  ⟨Str.ofString "BTC-USD", .ofInstant 0, if b then 101 else 100, by cases b <;> decide +kernel,
    by decide +kernel⟩

def raceUpdate (b : Bool) : Update :=
  ⟨(raceTick b).instrument, .m1, (raceTick b).ts, .finite (raceTick b).mid, (raceTick b).dated⟩

/-- Both find no row, one inserts it, and the other meets the conflict and updates the row instead. -/
theorem race_reachable : ∃ s, s.log = [true, false] ∧
    Reachable (fun b => updateJob .postgres (raceUpdate b)) KeyedTable.empty s := by
  let row : OHLCBar .postgres := rebuildBar none (raceTick true, .m1)
  let row' : OHLCBar .postgres := rebuildBar (some row) (raceTick false, .m1)
  have hcreate : (updateJob .postgres (raceUpdate true)).create = some row := by
    show (createBar _ _ (.finite (raceTick true).mid)).toOption = _
    rw [createBar_of_fits (raceTick true).fits]
    rfl
  have hamend : (updateJob .postgres (raceUpdate false)).amend row = some row' := by
    show (amendBar row (.finite (raceTick false).mid)).toOption = _
    rw [amendBar_of_fits row (raceTick false).fits]
    rfl
  have habsent : ¬ HasKey OHLCBar.key ([] : List (OHLCBar .postgres)) (raceUpdate true).key := by
    rintro ⟨r, hr, _⟩
    exact List.not_mem_nil hr
  have hpresent : HasKey OHLCBar.key [row] (raceUpdate false).key := ⟨row, List.mem_singleton_self _, rfl⟩
  refine ⟨_, ?_, Relation.ReflTransGen.refl
    |>.tail (.miss _ true rfl habsent)
    |>.tail (.miss _ false rfl habsent)
    |>.tail (.insert _ true row rfl habsent ?_ hcreate)
    |>.tail (.commitInsert _ true row rfl)
    |>.tail (.conflict _ false rfl hpresent)
    |>.tail (.select _ false row (Or.inr rfl) (List.mem_singleton_self _) rfl ?_)
    |>.tail (.update _ false row row' rfl hamend)
    |>.tail (.commitUpdate _ false row' rfl)⟩
  · rfl
  · rintro ⟨j, hj, _, r, hphase⟩
    cases j with
    | false => cases hphase
    | true => exact hj rfl
  · rintro ⟨j, hj, _, ⟨r, hphase⟩ | ⟨r, hphase⟩⟩ <;>
      cases j with
      | false => exact hj rfl
      | true => cases hphase

theorem race_serializes : ∃ s : State (OHLCBar .postgres) Bool, s.log = [true, false] ∧
    (∃ bars : BarTable .postgres, updateBars raceUpdate s.log KeyedTable.empty = .ok bars ∧
      bars.rows = s.rows) ∧
    s.log.Nodup ∧ (∀ i, i ∈ s.log ↔ (s.phase i).IsCommitted) ∧ (s.rows.map OHLCBar.key).Nodup ∧
    ((KeyedTable.empty : BarTable .postgres) = KeyedTable.empty → Accounts .postgres raceUpdate s) ∧
    ∀ i, ¬ Relation.TransGen (Waits (fun i => updateJob .postgres (raceUpdate i)) s) i i := by
  obtain ⟨s, hlog, hreach⟩ := race_reachable
  exact ⟨s, hlog, concurrent_updates_serialize .postgres raceUpdate KeyedTable.empty s hreach⟩

end Pricestream
