import Pricestream.BarTransaction
import Pricestream.Proof.Ohlc.Refinement

/-!
# What is left of an event when the database fails

Each call of `_update_bar` is all or nothing, and `handle_event` makes three of them. If an operation of
one raises, the calls before it stay committed: the tick is counted in the first intervals of `1m`, `5m`,
`1h` and not in the others. That is all that can happen, so in every state reached a tick that is counted
in a coarser bar is counted in the finer ones, and a call that raised has left the table alone exactly if
it raised before the first of the three was committed.
-/

namespace Pricestream

open Library Python
open DateTime (Instant)

variable {db : Engine}

/-! ### Doing the same, or raising -/

/-- The second computation does what the first does, or raises. -/
def MayRaise {α : Type} (x y : Except Exc α) : Prop := y = x ∨ ∃ e, y = .error e

namespace MayRaise

variable {α β : Type} {x y : Except Exc α}

theorem refl (x : Except Exc α) : MayRaise x x := Or.inl rfl

theorem bind {f g : α → Except Exc β} (hxy : MayRaise x y)
    (hfg : ∀ a, x = .ok a → MayRaise (f a) (g a)) : MayRaise (x >>= f) (y >>= g) := by
  rcases hxy with rfl | ⟨e, rfl⟩
  · cases y with
    | error e => exact Or.inl rfl
    | ok a => exact hfg a rfl
  · exact Or.inr ⟨e, rfl⟩

theorem attempt (fails : Operation → Option Exc) (operation : Operation) :
    MayRaise (pure ()) (attempt fails operation) := by
  unfold Pricestream.attempt
  cases fails operation with
  | none => exact .refl _
  | some e => exact Or.inr ⟨e, rfl⟩

theorem attempt_bind (fails : Operation → Option Exc) (operation : Operation) {f : Except Exc α}
    {g : Unit → Except Exc α} (h : MayRaise f (g ())) :
    MayRaise f (Pricestream.attempt fails operation >>= g) :=
  (attempt fails operation).bind fun _ _ => h

theorem bind_attempt (fails : Operation → Option Exc) (operation : Operation) (h : MayRaise x y) :
    MayRaise x (y >>= fun a => Pricestream.attempt fails operation >>= fun _ => pure a) := by
  have hbind : MayRaise (x >>= pure) (y >>= fun a => Pricestream.attempt fails operation >>= fun _ =>
      pure a) := h.bind fun a _ => attempt_bind fails operation (.refl (pure a))
  rwa [bind_pure] at hbind

end MayRaise

/-! ### One transaction -/

section Transaction

variable (fails : Operation → Option Exc)

theorem mayRaise_insertBar (key : BarKey) (price : Decimal) (bars : BarTable db) :
    MayRaise (createBar db key price >>= fun bar => orRaise .integrityError (bars.insert bar))
      (insertBar fails key price bars) := by
  refine .attempt_bind fails .savepoint ((MayRaise.refl _).bind fun bar _ => ?_)
  refine .attempt_bind fails .insert ?_
  exact (MayRaise.refl _).bind_attempt fails .release

theorem mayRaise_getOrCreateBar (key : BarKey) (price : Decimal) (bars : BarTable db) :
    MayRaise
      (match bars.get? key with
        | some bar => pure (bars, some bar)
        | none => createBar db key price >>= fun bar =>
            orRaise .integrityError (bars.insert bar) >>= fun bars => pure (bars, none))
      (getOrCreateBar fails key price bars) := by
  refine .attempt_bind fails .select ?_
  cases hget : bars.get? key with
  | some bar => exact .refl _
  | none =>
      have hinsert := mayRaise_insertBar fails key price bars
      cases hdone : insertBar fails key price bars with
      | ok bars' =>
          rcases hinsert with hsame | ⟨e, he⟩
          · left
            rw [← bind_assoc, ← hsame, hdone]
            rfl
          · cases hdone.symm.trans he
      | error e =>
          -- the second lookup finds nothing either, so this branch raises whatever the error is
          right
          cases e with
          | integrityError =>
              cases hfails : fails .reselect with
              | none => exact ⟨.integrityError, by simp [attempt, hfails, bind, Except.bind]; rfl⟩
              | some e => exact ⟨e, by simp [attempt, hfails, bind, Except.bind]; rfl⟩
          | _ => exact ⟨_, rfl⟩

theorem mayRaise_amendFound (price : Decimal) (bars : BarTable db) (bar : OHLCBar db) :
    MayRaise (amendBar bar price >>= fun bar => orRaise .databaseError (bars.save bar))
      (amendFound fails price (bars, some bar)) :=
  (MayRaise.refl _).bind fun _ _ => .attempt_bind fails .update (.refl _)

/-- **One call is all or nothing.** It does what a call does that nothing interrupts, or raises. -/
theorem mayRaise_tryUpdateBar (instrument : Str) (interval : Interval) (ts : DateTime) (price : Decimal)
    (bars : BarTable db) :
    MayRaise (updateBar instrument interval ts price bars)
      (tryUpdateBar fails instrument interval ts price bars) := by
  refine (MayRaise.refl (bucketStart ts interval)).bind fun start _ => ?_
  have hget := mayRaise_getOrCreateBar fails ⟨instrument, interval, start.instant⟩ price bars
  refine .attempt_bind fails .begin ?_
  rw [← bind_assoc]
  refine MayRaise.bind_attempt fails .commit ?_
  cases hrow : bars.get? ⟨instrument, interval, start.instant⟩ with
  | some bar =>
      rw [hrow] at hget
      simp only [hrow]
      refine hget.bind (f := fun _ => _) fun p hp => ?_
      obtain rfl := Except.ok.inj hp
      exact mayRaise_amendFound fails price bars bar
  | none =>
      rw [hrow] at hget
      simp only [hrow]
      have hcreate := hget.bind (f := fun p => pure p.1) (g := amendFound fails price) fun p hp => by
        obtain ⟨_, _, hp⟩ := bind_eq_ok.mp hp
        obtain ⟨_, _, hp⟩ := bind_eq_ok.mp hp
        obtain rfl := Except.ok.inj hp
        exact .refl _
      rw [bind_assoc] at hcreate
      simp only [bind_assoc, pure_bind, bind_pure] at hcreate
      exact hcreate

end Transaction

/-- With a database that does not fail, it is the call. -/
theorem tryUpdateBar_of_no_faults (instrument : Str) (interval : Interval) (ts : DateTime)
    (price : Decimal) (bars : BarTable db) :
    tryUpdateBar (fun _ => none) instrument interval ts price bars =
      updateBar instrument interval ts price bars := by
  have hcall : ∀ operation, attempt (fun _ => none) operation = .ok () := fun _ => rfl
  rw [updateBar, tryUpdateBar]
  refine congrArg _ (funext fun start => ?_)
  simp only [getOrCreateBar, hcall, bind, Except.bind]
  cases hrow : bars.get? ⟨instrument, interval, start.instant⟩ with
  | some bar =>
      simp only [pure, Except.pure, amendFound, hcall, bind, Except.bind]
      cases amendBar bar price with
      | error e => rfl
      | ok bar =>
          cases hsave : bars.save bar <;> simp only [hsave, orRaise_some, orRaise_none]
  | none =>
      simp only [insertBar, hcall, bind, Except.bind]
      cases createBar db ⟨instrument, interval, start.instant⟩ price with
      | error e => cases e <;> rfl
      | ok bar =>
          cases hinsert : bars.insert bar with
          | none =>
              simp only [hinsert, orRaise_none]
              rfl
          | some bars' =>
              simp only [hinsert, orRaise_some]
              rfl

/-! ### One event -/

/-- A tick is counted in the first intervals. -/
def countIn (t : Tick db) (n : ℕ) (bars : BarTable db) : BarTable db :=
  (intervals.take n).foldl (fun bars interval => hitBar bars (t, interval)) bars

theorem tryIntervals_tick (faults : Faults) (t : Tick db) (is : List Interval) (bars : BarTable db) :
    ∃ n, n ≤ is.length ∧
      (tryIntervals faults t.reading is bars).1 =
        (is.take n).foldl (fun bars interval => hitBar bars (t, interval)) bars ∧
      ((tryIntervals faults t.reading is bars).2 = none ↔ n = is.length) := by
  induction is generalizing bars with
  | nil => exact ⟨0, le_rfl, rfl, iff_of_true rfl rfl⟩
  | cons interval is ih =>
      have hcall := mayRaise_tryUpdateBar (faults interval) t.instrument interval t.ts (.finite t.mid) bars
      rw [updateBar_tick] at hcall
      simp only [tryIntervals, Tick.reading]
      rcases hcall with hdone | ⟨e, he⟩
      · rw [hdone]
        obtain ⟨n, hle, hbars, hnone⟩ := ih (hitBar bars (t, interval))
        refine ⟨n + 1, Nat.succ_le_succ hle, hbars, ?_⟩
        rw [List.length_cons, Nat.add_left_inj]
        exact hnone
      · rw [he]
        exact ⟨0, Nat.zero_le _, rfl, by simp⟩

theorem tryIntervals_of_not_tick (faults : Faults) {reading : Reading} (bars : BarTable db)
    (h : reading.tick? db = none) :
    ∃ e, tryIntervals faults reading intervals bars = (bars, some e) := by
  have hcall := mayRaise_tryUpdateBar (faults .m1) reading.instrument .m1 reading.ts reading.mid bars
  obtain ⟨e, he⟩ := updateBar_of_not_tick h .m1 bars
  rw [he] at hcall
  obtain ⟨e, he⟩ : ∃ e, tryUpdateBar (faults .m1) reading.instrument .m1 reading.ts reading.mid bars =
      .error e := hcall.elim (fun h => ⟨e, h⟩) id
  exact ⟨e, by simp only [intervals, tryIntervals, he]⟩

/-- **What an event can leave behind.** -/
theorem tryHandleEvent_cases (faults : Faults) (env : Env) (e : Event) (bars : BarTable db) :
    (∃ t n, tickOf db env e = some t ∧ n ≤ intervals.length ∧
      (tryHandleEvent faults env e.now e.payload bars).1 = countIn t n bars ∧
      ((tryHandleEvent faults env e.now e.payload bars).2 = none ↔ n = intervals.length)) ∨
    (tickOf db env e = none ∧ (tryHandleEvent faults env e.now e.payload bars).1 = bars) := by
  unfold tryHandleEvent
  cases hread : readEvent env e.now e.payload with
  | error exc => exact Or.inr ⟨by rw [tickOf, hread], rfl⟩
  | ok read =>
      cases read with
      | none => exact Or.inr ⟨by rw [tickOf, hread], rfl⟩
      | some reading =>
          have htick : tickOf db env e = reading.tick? db := by rw [tickOf, hread]
          rw [htick]
          cases ht : reading.tick? db with
          | some t =>
              obtain ⟨n, hle, hbars, hnone⟩ := tryIntervals_tick faults t intervals bars
              rw [Reading.tick?_eq_some ht]
              exact Or.inl ⟨t, n, rfl, hle, hbars, hnone⟩
          | none =>
              obtain ⟨exc, hexc⟩ := tryIntervals_of_not_tick faults bars ht
              exact Or.inr ⟨rfl, congrArg Prod.fst hexc⟩

theorem countIn_eq_self_iff {t : Tick db} {n : ℕ} {bars : BarTable db} :
    countIn t n bars = bars ↔ n = 0 := by
  constructor
  · intro h
    by_contra hn
    obtain ⟨m, rfl⟩ := Nat.exists_eq_succ_of_ne_zero hn
    have hfirst : countIn t (m + 1) bars =
        ((intervals.take (m + 1)).map fun interval => (t, interval)).foldl hitBar bars := by
      rw [List.foldl_map]
      rfl
    have hrow : (countIn t (m + 1) bars).get? (t.key .m1) =
        some (rebuildBar (bars.get? (t.key .m1)) (t, .m1)) := by
      rw [hfirst]
      refine (KeyedTable.get?_foldl key_rebuildBar _ bars _).trans ?_
      have hhits : (((intervals.take (m + 1)).map fun interval => (t, interval)).filter
          fun hit => hitKey hit = t.key .m1) = [(t, .m1)] := by
        match m with
        | 0 | 1 | m + 2 => simp [intervals, hitKey, Tick.key, barKey]
      rw [hhits]
      rfl
    rw [h] at hrow
    exact rebuildBar_ne _ _ hrow.symm
  · rintro rfl
    rfl

/-! ### A sequence of events -/

/-- A call of `handle_event`, and what fails in it. -/
structure Call where
  event : Event
  faults : Faults

def tryHandleEvents (env : Env) (calls : List Call) (bars : BarTable db) : BarTable db :=
  calls.foldl (fun bars c => (tryHandleEvent c.faults env c.event.now c.event.payload bars).1) bars

/-- The updates of ticks that are counted in some of the intervals. -/
def countedHits (counted : List (Tick db × ℕ)) : List (Tick db × Interval) :=
  counted.flatMap fun p => (intervals.take p.2).map fun interval => (p.1, interval)

/-- The place of an interval in the loop. -/
def Interval.rank : Interval → ℕ
  | .m1 => 0
  | .m5 => 1
  | .h1 => 2

/-- How many ticks the bar of a key counts, if there is one. -/
def tickCountAt (bars : BarTable db) (key : BarKey) : ℕ := (bars.get? key).elim 0 OHLCBar.tickCount

theorem tryHandleEvents_counted (env : Env) (calls : List Call) (bars : BarTable db) :
    ∃ counted : List (Tick db × ℕ), counted.map Prod.fst = ticks db env (calls.map Call.event) ∧
      (∀ p ∈ counted, p.2 ≤ intervals.length) ∧
      tryHandleEvents env calls bars = (countedHits counted).foldl hitBar bars := by
  induction calls generalizing bars with
  | nil => exact ⟨[], rfl, fun _ hp => absurd hp List.not_mem_nil, rfl⟩
  | cons c calls ih =>
      obtain ⟨counted, hticks, hle, hbars⟩ :=
        ih (tryHandleEvent c.faults env c.event.now c.event.payload bars).1
      have hrun : tryHandleEvents env (c :: calls) bars = (countedHits counted).foldl hitBar
          (tryHandleEvent c.faults env c.event.now c.event.payload bars).1 := hbars
      rw [hrun, List.map_cons, ticks, List.filterMap_cons]
      rcases tryHandleEvent_cases c.faults env c.event bars with ⟨t, n, ht, hn, hone, _⟩ | ⟨ht, hone⟩
      · refine ⟨(t, n) :: counted, ?_, ?_, ?_⟩
        · rw [ht, List.map_cons, hticks]
          rfl
        · intro p hp
          rcases List.mem_cons.mp hp with rfl | hp
          · exact hn
          · exact hle p hp
        · have hfirst : countedHits ((t, n) :: counted) =
              (intervals.take n).map (fun interval => (t, interval)) ++ countedHits counted := rfl
          rw [hone, hfirst, List.foldl_append, List.foldl_map]
          rfl
      · refine ⟨counted, ?_, hle, by rw [hone]⟩
        rw [ht, hticks]
        rfl

theorem filter_countedHits (counted : List (Tick db × ℕ)) (key : BarKey) :
    ((countedHits counted).filter fun hit => hitKey hit = key) =
      (counted.filter fun p => p.1.key key.interval = key ∧ key.interval.rank < p.2).map
        fun p => (p.1, key.interval) := by
  induction counted with
  | nil => rfl
  | cons p counted ih =>
      have hone : ((intervals.take p.2).map fun interval => (p.1, interval)).filter
          (fun hit => hitKey hit = key) =
          if p.1.key key.interval = key ∧ key.interval.rank < p.2 then [(p.1, key.interval)] else [] := by
        obtain ⟨instrument, interval, start⟩ := key
        obtain ⟨t, n⟩ := p
        match n with
        | 0 => simp
        | 1 | 2 | n + 3 =>
            cases interval <;> simp [intervals, hitKey, Tick.key, barKey, Interval.rank, List.filter_cons]
      rw [countedHits, List.flatMap_cons, List.filter_append, hone, List.filter_cons]
      rw [countedHits] at ih
      rw [ih]
      by_cases hp : p.1.key key.interval = key ∧ key.interval.rank < p.2 <;> simp [hp]

theorem tickCountAt_foldl_hitBar (counted : List (Tick db × ℕ)) (key : BarKey) :
    tickCountAt ((countedHits counted).foldl hitBar KeyedTable.empty) key =
      (counted.filter fun p => p.1.key key.interval = key ∧ key.interval.rank < p.2).length := by
  have hget := get?_foldl_hitBar (countedHits counted) key
  rw [filter_countedHits] at hget
  rw [tickCountAt, hget]
  cases hbar : foldBar ((counted.filter fun p => p.1.key key.interval = key ∧
      key.interval.rank < p.2).map fun p => (p.1, key.interval)) with
  | none =>
      rw [foldBar_eq_none_iff, List.map_eq_nil_iff] at hbar
      rw [hbar]
      rfl
  | some bar =>
      obtain ⟨s, hs, hshows⟩ := foldBar_shows hbar
      rw [Option.elim_some, hshows.tickCount, ← hs.count, List.length_map, List.length_map]

/-- What a call of `handle_event` leaves if `n` of its three updates were committed. -/
structure KeepsFront (env : Env) (e : Event) (bars : BarTable db) (after : BarTable db × Option Exc)
    (n : ℕ) : Prop where
  le : n ≤ intervals.length
  table : after.1 = (tickOf db env e).elim bars fun t => countIn t n bars
  returns : after.2 = none → n = intervals.length
  raises : after.2 ≠ none → tickOf db env e = none ∨ n < intervals.length
  unchanged : after.1 = bars ↔ tickOf db env e = none ∨ n = 0

/-- **What an interrupted event leaves.** -/
theorem interrupted_event_keeps_front (db : Engine) (env : Env) :
    (∀ faults e, ∀ bars : BarTable db,
      ∃ n, KeepsFront env e bars (tryHandleEvent faults env e.now e.payload bars) n) ∧
    ∀ calls, ∃ counted : List (Tick db × ℕ),
      counted.map Prod.fst = ticks db env (calls.map Call.event) ∧
      (∀ p ∈ counted, p.2 ≤ intervals.length) ∧
      ∀ key, tickCountAt (tryHandleEvents env calls (KeyedTable.empty : BarTable db)) key =
        (counted.filter fun p => p.1.key key.interval = key ∧ key.interval.rank < p.2).length := by
  constructor
  · intro faults e bars
    rcases tryHandleEvent_cases faults env e bars with ⟨t, n, ht, hle, hbars, hnone⟩ | ⟨ht, hbars⟩
    · refine ⟨n, hle, ?_, hnone.mp, fun hraises => Or.inr ?_, ?_⟩
      · rw [hbars, ht]
        rfl
      · exact lt_of_le_of_ne hle fun hn => hraises (hnone.mpr hn)
      · rw [hbars, countIn_eq_self_iff, ht]
        simp
    · refine ⟨intervals.length, le_rfl, ?_, fun _ => rfl, fun _ => Or.inl ht, ?_⟩
      · rw [hbars, ht]
        rfl
      · exact iff_of_true hbars (Or.inl ht)
  · intro calls
    obtain ⟨counted, hticks, hle, hbars⟩ := tryHandleEvents_counted env calls
      (KeyedTable.empty : BarTable db)
    refine ⟨counted, hticks, hle, fun key => ?_⟩
    rw [hbars, tickCountAt_foldl_hitBar]

/-- The lookup of the `5m` bar fails. -/
def lostConnection : Faults
  | .m5, .select => some .databaseError
  | _, _ => none

/-- The tick is counted in its `1m` bar and nowhere else. -/
theorem half_counted_tick :
    (tryHandleEvent lostConnection btcEnv soundQuote.now soundQuote.payload
      (KeyedTable.empty : BarTable .postgres)).2 = some .databaseError ∧
    (tryHandleEvent lostConnection btcEnv soundQuote.now soundQuote.payload
      (KeyedTable.empty : BarTable .postgres)).1 ≠ KeyedTable.empty ∧
    intervals.map (fun interval => tickCountAt (tryHandleEvent lostConnection btcEnv soundQuote.now
      soundQuote.payload (KeyedTable.empty : BarTable .postgres)).1 (soundTick.key interval)) =
        [1, 0, 0] := by
  have hcounts : intervals.map (fun interval => tickCountAt (tryHandleEvent lostConnection btcEnv
      soundQuote.now soundQuote.payload (KeyedTable.empty : BarTable .postgres)).1
        (soundTick.key interval)) = [1, 0, 0] := by decide +kernel
  refine ⟨by decide +kernel, fun hempty => ?_, hcounts⟩
  rw [hempty] at hcounts
  cases hcounts

end Pricestream
