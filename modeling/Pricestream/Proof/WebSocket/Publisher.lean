import Pricestream.Proof.Tasks.Overlap
import Pricestream.Proof.WebSocket.Naming

/-!
# The publisher of an instrument

A round that completes announces the consolidated price of an instrument in two steps: it sets the
snapshot in the cache and then sends it to the group. One round after the other, the publisher goes
through its updates in this way, so wherever it stands it has set whatever it has sent.
-/

namespace Pricestream

open Library Python

variable {db : Engine} {Venue : Type}

/-! ### Announcements -/

/-- The update the effect sends to the group of an instrument. -/
def Effect.sent? (symbol : Str) : Effect db Venue → Option (Payload Venue)
  | .groupSend group instrument snapshot =>
      if group = groupName symbol then some ⟨instrument, snapshot⟩ else none
  | .insert _ | .inc _ | .publish _ _ | .cacheSet _ _ => none

/-- A step of the publisher at an instrument. -/
inductive TapeStep (Venue : Type) where
  | set (snapshot : Snapshot Venue)
  | send (payload : Payload Venue)
  deriving DecidableEq

def Effect.tape? (symbol : Str) : Effect db Venue → Option (TapeStep Venue)
  | .cacheSet key snapshot => if key = cacheKey symbol then some (.set snapshot) else none
  | .groupSend group instrument snapshot =>
      if group = groupName symbol then some (.send ⟨instrument, snapshot⟩) else none
  | .insert _ | .inc _ | .publish _ _ => none

/-- Setting an update in the cache, and then sending it. -/
def announce (symbol : Str) (update : Snapshot Venue) : List (TapeStep Venue) :=
  [.set update, .send ⟨symbol, update⟩]

/-- As far as the instrument is concerned, the script announces these updates one after the other. -/
def Announces (symbol : Str) (updates : List (Snapshot Venue)) (script : List (Effect db Venue)) : Prop :=
  script.filterMap (Effect.tape? symbol) = updates.flatMap (announce symbol)

def TapeStep.snapshot? : TapeStep Venue → Option (Snapshot Venue)
  | .set snapshot => some snapshot
  | .send _ => none

def TapeStep.payload? : TapeStep Venue → Option (Payload Venue)
  | .set _ => none
  | .send payload => some payload

/-- The updates set and the updates sent after a part of the announcements. -/
theorem progress_of_prefix {symbol : Str} {updates : List (Snapshot Venue)}
    {before after : List (TapeStep Venue)} (h : before ++ after = updates.flatMap (announce symbol)) :
    ∃ written sent, sent ≤ written ∧ written ≤ updates.length ∧
      before.filterMap TapeStep.snapshot? = updates.take written ∧
      before.filterMap TapeStep.payload? = (updates.take sent).map (Payload.mk symbol) ∧
      (after = [] → sent = updates.length) := by
  induction updates generalizing before with
  | nil =>
      obtain ⟨rfl, rfl⟩ := List.append_eq_nil_iff.mp h
      exact ⟨0, 0, le_rfl, le_rfl, rfl, rfl, fun _ => rfl⟩
  | cons update updates ih =>
      match before with
      | [] =>
          refine ⟨0, 0, le_rfl, Nat.zero_le _, rfl, rfl, fun hafter => ?_⟩
          rw [hafter] at h
          cases h
      | [step] =>
          obtain ⟨rfl, hafter⟩ := List.cons.inj h
          refine ⟨1, 0, Nat.zero_le _, by simp, rfl, rfl, fun hnil => ?_⟩
          rw [hnil] at hafter
          cases hafter
      | step :: step' :: before =>
          obtain ⟨rfl, htail⟩ := List.cons.inj h
          obtain ⟨rfl, hrest⟩ := List.cons.inj htail
          obtain ⟨written, sent, hle, hlen, hset, hsent, hdone⟩ := ih hrest
          refine ⟨written + 1, sent + 1, by omega, by simpa using hlen, ?_, ?_, ?_⟩
          · exact congrArg (List.cons update) hset
          · exact congrArg (List.cons ⟨symbol, update⟩) hsent
          · intro hafter
            rw [hdone hafter, List.length_cons]

theorem filterMap_tape_set (symbol : Str) (l : List (Effect db Venue)) :
    (l.filterMap (Effect.tape? symbol)).filterMap TapeStep.snapshot? =
      l.filterMap (Effect.set? (cacheKey symbol)) := by
  rw [List.filterMap_filterMap]
  congr 1
  funext w
  cases w with
  | cacheSet key snapshot =>
      rw [Effect.tape?, Effect.set?]
      split_ifs <;> rfl
  | groupSend group instrument snapshot =>
      rw [Effect.tape?]
      split_ifs <;> rfl
  | insert _ | inc _ | publish _ _ => rfl

theorem filterMap_tape_sent (symbol : Str) (l : List (Effect db Venue)) :
    (l.filterMap (Effect.tape? symbol)).filterMap TapeStep.payload? =
      l.filterMap (Effect.sent? symbol) := by
  rw [List.filterMap_filterMap]
  congr 1
  funext w
  cases w with
  | cacheSet key snapshot =>
      rw [Effect.tape?]
      split_ifs <;> rfl
  | groupSend group instrument snapshot =>
      rw [Effect.tape?, Effect.sent?]
      split_ifs <;> rfl
  | insert _ | inc _ | publish _ _ => rfl

/-! ### Rounds announce -/

section Rounds

variable [LinearOrder Venue] {round : Round Venue} {instruments : InstrumentTable}

/-- The updates of an instrument in some rounds. -/
def updatesOf (symbol : Str) (rounds : List (Round Venue × InstrumentTable)) : List (Snapshot Venue) :=
  rounds.flatMap fun (round, instruments) =>
    if symbol ∈ round.symbols instruments then
      (roundBook round symbol).toList.map (snapshotOf round symbol)
    else []

omit [LinearOrder Venue] in
theorem tape_of_stage (symbol : Str) (w : Effect db Venue) (h : w.stage ≠ .price) :
    w.tape? symbol = none := by
  cases w with
  | cacheSet _ _ | groupSend _ _ _ => exact absurd rfl h
  | insert _ | inc _ | publish _ _ => rfl

omit [LinearOrder Venue] in
theorem flatMap_ite_of_nodup {α : Type} {l : List Str} (hnodup : l.Nodup) (symbol : Str) (x : List α) :
    (l.flatMap fun s => if s = symbol then x else []) = if symbol ∈ l then x else [] := by
  induction l with
  | nil => rfl
  | cons s l ih =>
      obtain ⟨hs, hl⟩ := List.nodup_cons.mp hnodup
      rw [List.flatMap_cons, ih hl]
      by_cases heq : s = symbol
      · subst heq
        simp [hs]
      · have hne : symbol ≠ s := fun h => heq h.symm
        simp [heq, hne]

omit [LinearOrder Venue] in
theorem tape_bookEffects (hlayer : round.hasLayer = true) (symbol s : Str) (c : Consolidated Venue) :
    (bookEffects db round s c).filterMap (Effect.tape? symbol) =
      if s = symbol then announce symbol (snapshotOf round symbol c) else [] := by
  rw [bookEffects, List.filterMap_append, List.filterMap_append, filterMap_insertEffects,
    broadcastEffects, if_pos hlayer]
  by_cases hs : s = symbol
  · subst hs
    simp [Effect.tape?, announce, List.filterMap_cons]
  · have hkey : cacheKey s ≠ cacheKey symbol := fun h => hs (cacheKey_injective h)
    have hgroup : groupName s ≠ groupName symbol := fun h => hs (groupName_injective h)
    simp [Effect.tape?, hs, hkey, hgroup]

theorem tape_instrumentEffects (hlayer : round.hasLayer = true) (symbol s : Str) :
    (instrumentEffects db round s).filterMap (Effect.tape? symbol) =
      if s = symbol then
        ((roundBook round symbol).toList.map (snapshotOf round symbol)).flatMap (announce symbol)
      else [] := by
  rw [instrumentEffects, turnEffects_eq, List.filterMap_append, List.filterMap_append,
    filterMap_pollsEffects (tape_of_stage symbol) (by decide),
    filterMap_arbitrageEffects (tape_of_stage symbol) (by decide), List.nil_append, List.append_nil,
    List.filterMap_flatMap]
  simp only [tape_bookEffects hlayer]
  by_cases hs : s = symbol
  · subst hs
    simp [List.flatMap_map]
  · simp [hs]

theorem announces_round (h : Completes db round instruments) (hlayer : round.hasLayer = true)
    (symbol : Str) :
    Announces symbol (updatesOf symbol [(round, instruments)])
      ((fetchQuotes round instruments).2 : Task db Venue Counts).trace := by
  rw [Announces, (runs_symbols (completes_iff.mp h)).trace_eq, List.filterMap_flatMap]
  simp only [tape_instrumentEffects hlayer]
  rw [flatMap_ite_of_nodup (nodup_symbols round instruments)]
  simp only [updatesOf, List.flatMap_cons, List.flatMap_nil, List.append_nil]
  split_ifs <;> rfl

theorem announces_rounds {rounds : List (Round Venue × InstrumentTable)}
    (h : ∀ p ∈ rounds, Completes db p.1 p.2 ∧ p.1.hasLayer = true) (symbol : Str) :
    Announces symbol (updatesOf symbol rounds) (roundsScript db rounds) := by
  induction rounds with
  | nil => rfl
  | cons p rounds ih =>
      have hfirst := announces_round (h p List.mem_cons_self).1 (h p List.mem_cons_self).2 symbol
      have hrest := ih fun p' hp' => h p' (List.mem_cons_of_mem _ hp')
      rw [Announces] at hfirst hrest ⊢
      have hsplit : updatesOf symbol (p :: rounds) = updatesOf symbol [p] ++ updatesOf symbol rounds := by
        simp [updatesOf]
      rw [hsplit, List.flatMap_append, ← hfirst, ← hrest, roundsScript, List.flatMap_cons,
        List.filterMap_append]
      rfl

end Rounds

end Pricestream
