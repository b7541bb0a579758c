import Pricestream.Python.DateRange
import Pricestream.Proof.Ohlc.Ticks

/-!
# The events that escape the guards

`handle_event` checks its input piecemeal. Decoding is guarded by the loop, the two prices by one
`try`, the text of the timestamp by another; everything between them is not. An event is hazardous
when it reaches one of the unguarded expressions with a value it cannot take: the payload is not an
object, the symbol is a text the database refuses, the prices parse but their mid is not a number the
columns can store, or the timestamp is a value that is neither empty nor text, or one without buckets.
These are exactly the events that make `handle_event` raise.
-/

namespace Pricestream

open Library Python
open DateTime (Instant)
open TimeDelta (wholeSeconds)

variable {db : Engine} {env : Env}

/-- A timestamp that `fromisoformat` refuses with a `TypeError`. -/
def IsBadTs (ts : Json) : Prop := ts.truthy = true ∧ ∀ s, ts ≠ .str s

/-- The event is handled with a timestamp that has no buckets, its own or the time of the clock. -/
def IsLateTs (now : Instant) (ts : Json) : Prop :=
  ∃ t, readTs now ts = .ok t ∧ ¬ HasBuckets wholeSeconds t

theorem readTs_eq_ok_iff {now : Instant} {ts : Json} :
    (∃ t, readTs now ts = .ok t) ↔ ¬ IsBadTs ts := by
  by_cases htruthy : ts.truthy = true
  · cases ts with
    | str s =>
        exact iff_of_true ⟨_, by unfold readTs; rw [if_pos htruthy]; rfl⟩ (fun hbad => hbad.2 s rfl)
    | null | bool _ | int _ | float _ | arr _ | obj _ =>
        refine iff_of_false ?_ fun hgood => hgood ⟨htruthy, fun s hs => by cases hs⟩
        rintro ⟨t, ht⟩
        unfold readTs at ht
        rw [if_pos htruthy] at ht
        cases ht
  · exact iff_of_true ⟨_, by unfold readTs; rw [if_neg htruthy]; rfl⟩ (fun hbad => htruthy hbad.1)

/-- **The times without buckets.** A timestamp of the event's own, or else the clock, reads one of the last
15 microseconds of the year 9999. -/
theorem isLateTs_iff {now : Instant} (hnow : (DateTime.ofInstant now).InRange) {ts : Json} :
    IsLateTs now ts ↔
      (∃ s t, ts = .str s ∧ DateTime.fromisoformat s = some t ∧ bucketsEnd ≤ t.wall) ∨
      ((ts.truthy = false ∨ ∃ s, ts = .str s ∧ DateTime.fromisoformat s = none) ∧
        bucketsEnd ≤ now) := by
  have hclock : ¬ HasBuckets wholeSeconds (.ofInstant now) ↔ bucketsEnd ≤ now := by
    rw [hasBuckets_iff hnow, not_lt]
    rfl
  have hempty : DateTime.fromisoformat [] = none := rfl
  cases ts with
  | str s =>
      cases hparse : DateTime.fromisoformat s with
      | none =>
          have hread : readTs now (.str s) = .ok (.ofInstant now) := by
            simp [readTs, hparse, pure, Except.pure]
          simp [IsLateTs, hread, hclock, hparse]
      | some t =>
          have hne : s ≠ [] := by
            rintro rfl
            rw [hempty] at hparse
            cases hparse
          have hread : readTs now (.str s) = .ok t := by
            simp [readTs, Json.truthy, hne, hparse, pure, Except.pure]
          simp [IsLateTs, hread, hparse, hasBuckets_iff (DateTime.fromisoformat_inRange hparse),
            Json.truthy, hne]
  | null | bool _ | int _ | float _ | arr _ | obj _ =>
      simp only [IsLateTs, readTs]
      split_ifs with htruthy <;> simp [htruthy, hclock, pure, Except.pure]

theorem getInstrument_of_isText {symbol : Json} (h : IsText (symbolText env symbol)) :
    getInstrument env symbol = .ok (env.instruments.get? (symbolText env symbol)) := by
  rw [getInstrument, textParam_of_isText h]
  rfl

theorem getInstrument_of_not_isText {symbol : Json} (h : ¬ IsText (symbolText env symbol)) :
    ∃ e, getInstrument env symbol = .error e := by
  obtain ⟨e, he⟩ := textParam_of_not_isText h
  exact ⟨e, by rw [getInstrument, he]; rfl⟩

end Pricestream
