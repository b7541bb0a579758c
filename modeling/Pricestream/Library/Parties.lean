import Mathlib.Data.List.Basic
import Mathlib.Logic.Function.Basic

/-!
# Parties around a shared state

Every party keeps a state of its own, and all of them read one shared state. The shared state moves by
itself, and each party may take something from the move; a party acts on its own state alone. So a
party never sees another: a run of all of them is, as far as one can tell, a run of that one with the
shared state, and runs of each that move the shared state alike make a run of all.
-/

namespace Pricestream.Library

structure Parties (ι σ τ α : Type) where
  /-- The next move of the shared state, if there is one. -/
  advance : σ → Option σ
  /-- What a party takes from the move that the shared state makes from here. -/
  hear : ι → σ → τ → τ
  /-- What a party does on its own. -/
  act : ι → σ → τ → α → Option τ

/-- The shared state moves, or one of the parties acts. -/
inductive Parties.Event (ι α : Type) where
  | advance
  | act (i : ι) (a : α)
  deriving DecidableEq, Repr

namespace Parties

variable {ι σ τ α : Type} [DecidableEq ι] (p : Parties ι σ τ α)

def step (c : σ × (ι → τ)) : Event ι α → Option (σ × (ι → τ))
  | .advance => (p.advance c.1).map fun s => (s, fun i => p.hear i c.1 (c.2 i))
  | .act i a => (p.act i c.1 (c.2 i) a).map fun t => (c.1, Function.update c.2 i t)

def run (c : σ × (ι → τ)) (events : List (Event ι α)) : Option (σ × (ι → τ)) := events.foldlM p.step c

/-- One party alone with the shared state, which moves at `none`. -/
def soloStep (i : ι) (c : σ × τ) : Option α → Option (σ × τ)
  | none => (p.advance c.1).map fun s => (s, p.hear i c.1 c.2)
  | some a => (p.act i c.1 c.2 a).map fun t => (c.1, t)

def soloRun (i : ι) (c : σ × τ) (events : List (Option α)) : Option (σ × τ) :=
  events.foldlM (p.soloStep i) c

/-- What a party sees of an event. -/
def Event.seenBy (i : ι) : Event ι α → Option (Option α)
  | .advance => some none
  | .act j a => if j = i then some (some a) else none

@[simp] theorem Event.seenBy_advance (i : ι) :
    (Event.advance : Event ι α).seenBy i = some none := rfl

@[simp] theorem Event.seenBy_act_self (i : ι) (a : α) : (Event.act i a).seenBy i = some (some a) :=
  if_pos rfl

@[simp] theorem Event.seenBy_act_of_ne {i j : ι} (h : i ≠ j) (a : α) : (Event.act j a).seenBy i = none :=
  if_neg (Ne.symm h)

/-- What a party sees of a state. -/
def view (i : ι) (c : σ × (ι → τ)) : σ × τ := (c.1, c.2 i)

@[simp] theorem view_update_self (i : ι) (s : σ) (l : ι → τ) (t : τ) :
    view i (s, Function.update l i t) = (s, t) := by
  simp [view]

@[simp] theorem view_update_of_ne {i j : ι} (h : i ≠ j) (s : σ) (l : ι → τ) (t : τ) :
    view i (s, Function.update l j t) = (s, l i) := by
  simp [view, h]

/-! ### Steps -/

section Steps

variable {p} {c c' : σ × (ι → τ)} {i : ι}

theorem advance_step (h : p.step c .advance = some c') :
    ∃ s, p.advance c.1 = some s ∧ c' = (s, fun i => p.hear i c.1 (c.2 i)) := by
  obtain ⟨s, hs, rfl⟩ := Option.map_eq_some_iff.mp h
  exact ⟨s, hs, rfl⟩

theorem act_step {a : α} (h : p.step c (.act i a) = some c') :
    ∃ t, p.act i c.1 (c.2 i) a = some t ∧ c' = (c.1, Function.update c.2 i t) := by
  obtain ⟨t, ht, rfl⟩ := Option.map_eq_some_iff.mp h
  exact ⟨t, ht, rfl⟩

/-- A step that a party sees is its own step. -/
theorem soloStep_of_seen {event : Event ι α} {e : Option α} (hseen : event.seenBy i = some e)
    (h : p.step c event = some c') : p.soloStep i (view i c) e = some (view i c') := by
  cases event with
  | advance =>
      obtain rfl := Option.some.inj hseen
      obtain ⟨s, hs, rfl⟩ := advance_step h
      exact Option.map_eq_some_iff.mpr ⟨s, hs, rfl⟩
  | act j a =>
      rw [Event.seenBy, Option.ite_none_right_eq_some] at hseen
      obtain ⟨rfl, he⟩ := hseen
      obtain rfl := Option.some.inj he
      obtain ⟨t, ht, rfl⟩ := act_step h
      refine Option.map_eq_some_iff.mpr ⟨t, ht, ?_⟩
      exact (view_update_self j c.1 c.2 t).symm

/-- A step that it does not see leaves its view alone. -/
theorem view_of_unseen {event : Event ι α} (hseen : event.seenBy i = none)
    (h : p.step c event = some c') : view i c' = view i c := by
  cases event with
  | advance => cases hseen
  | act j a =>
      obtain ⟨t, _, rfl⟩ := act_step h
      have hij : i ≠ j := by
        rintro rfl
        rw [Event.seenBy_act_self] at hseen
        cases hseen
      exact view_update_of_ne hij c.1 c.2 t

end Steps

/-! ### Runs -/

section Runs

variable {p} {c c' : σ × (ι → τ)} {events : List (Event ι α)}

theorem run_cons {event : Event ι α} :
    p.run c (event :: events) = some c' ↔ ∃ c₁, p.step c event = some c₁ ∧ p.run c₁ events = some c' :=
  Option.bind_eq_some_iff

theorem run_append {before after : List (Event ι α)} :
    p.run c (before ++ after) = some c' ↔ ∃ c₁, p.run c before = some c₁ ∧ p.run c₁ after = some c' := by
  rw [run, List.foldlM_append]
  exact Option.bind_eq_some_iff

/-- What a party can do on its own, it can do among the others. -/
theorem run_acts {s : σ} {l : ι → τ} {i : ι} {as : List α} {t : τ}
    (h : as.foldlM (p.act i s) (l i) = some t) :
    p.run (s, l) (as.map (Event.act i)) = some (s, Function.update l i t) := by
  induction as generalizing l with
  | nil =>
      obtain rfl := Option.some.inj h
      rw [Function.update_eq_self]
      rfl
  | cons a as ih =>
      rw [List.foldlM_cons] at h
      obtain ⟨u, hu, hrest⟩ := Option.bind_eq_some_iff.mp h
      have hstep : p.step (s, l) (.act i a) = some (s, Function.update l i u) :=
        Option.map_eq_some_iff.mpr ⟨u, hu, rfl⟩
      have hlater := ih (l := Function.update l i u) (by rwa [Function.update_self])
      rw [Function.update_idem] at hlater
      exact run_cons.mpr ⟨_, hstep, hlater⟩

/-- What every step keeps, every run keeps. -/
theorem run_keeps {I : σ × (ι → τ) → Prop}
    (hstep : ∀ c event c', I c → p.step c event = some c' → I c')
    (hinit : I c) (hrun : p.run c events = some c') : I c' := by
  induction events generalizing c with
  | nil =>
      obtain rfl := Option.some.inj hrun
      exact hinit
  | cons event events ih =>
      obtain ⟨c₁, hfirst, hrest⟩ := run_cons.mp hrun
      exact ih (hstep c event c₁ hinit hfirst) hrest

omit [DecidableEq ι] in
theorem soloRun_cons {i : ι} {e : Option α} {l : List (Option α)} {v v' : σ × τ} :
    p.soloRun i v (e :: l) = some v' ↔ ∃ v₁, p.soloStep i v e = some v₁ ∧ p.soloRun i v₁ l = some v' :=
  Option.bind_eq_some_iff

/-- A run of all is a run of each. -/
theorem soloRun_of_run (h : p.run c events = some c') (i : ι) :
    p.soloRun i (view i c) (events.filterMap (Event.seenBy i)) = some (view i c') := by
  induction events generalizing c with
  | nil =>
      obtain rfl := Option.some.inj h
      rfl
  | cons event events ih =>
      obtain ⟨c₁, hstep, hrest⟩ := run_cons.mp h
      rw [List.filterMap_cons]
      cases hseen : event.seenBy i with
      | none =>
          rw [← view_of_unseen hseen hstep]
          exact ih hrest
      | some e => exact soloRun_cons.mpr ⟨view i c₁, soloStep_of_seen hseen hstep, ih hrest⟩

/-- Nobody is in another's way: if each can take its part of the events, all can take them. -/
theorem exists_run_of_soloRuns [Inhabited ι]
    (h : ∀ i, ∃ v, p.soloRun i (view i c) (events.filterMap (Event.seenBy i)) = some v) :
    ∃ c', p.run c events = some c' := by
  induction events generalizing c with
  | nil => exact ⟨c, rfl⟩
  | cons event events ih =>
      -- A party that sees the event can take it, and then all can.
      obtain ⟨i, e, hseen⟩ : ∃ i e, event.seenBy i = some e := by
        cases event with
        | advance => exact ⟨default, none, Event.seenBy_advance default⟩
        | act j a => exact ⟨j, some a, Event.seenBy_act_self j a⟩
      obtain ⟨c₁, hstep⟩ : ∃ c₁, p.step c event = some c₁ := by
        obtain ⟨v, hv⟩ := h i
        rw [List.filterMap_cons, hseen] at hv
        obtain ⟨v₁, hfirst, _⟩ := soloRun_cons.mp hv
        cases event with
        | advance =>
            obtain rfl := Option.some.inj hseen
            obtain ⟨s, hs, _⟩ := Option.map_eq_some_iff.mp hfirst
            exact ⟨_, Option.map_eq_some_iff.mpr ⟨s, hs, rfl⟩⟩
        | act j a =>
            rw [Event.seenBy, Option.ite_none_right_eq_some] at hseen
            obtain ⟨rfl, he⟩ := hseen
            obtain rfl := Option.some.inj he
            obtain ⟨t, ht, _⟩ := Option.map_eq_some_iff.mp hfirst
            exact ⟨_, Option.map_eq_some_iff.mpr ⟨t, ht, rfl⟩⟩
      have hrest : ∀ i, ∃ v, p.soloRun i (view i c₁) (events.filterMap (Event.seenBy i)) = some v := by
        intro i
        obtain ⟨v, hv⟩ := h i
        rw [List.filterMap_cons] at hv
        cases hseen : event.seenBy i with
        | none =>
            rw [hseen] at hv
            rw [view_of_unseen hseen hstep]
            exact ⟨v, hv⟩
        | some e =>
            rw [hseen] at hv
            obtain ⟨v₁, hfirst, hlater⟩ := soloRun_cons.mp hv
            rw [soloStep_of_seen hseen hstep] at hfirst
            obtain rfl := Option.some.inj hfirst
            exact ⟨v, hlater⟩
      obtain ⟨c', hc'⟩ := ih hrest
      exact ⟨c', run_cons.mpr ⟨c₁, hstep, hc'⟩⟩

omit [DecidableEq ι] in
/-- The views of all make up the state. -/
theorem eq_of_views [Inhabited ι] (h : ∀ i, view i c = view i c') : c = c' := by
  refine Prod.ext ?_ (funext fun i => ?_)
  · exact (Prod.ext_iff.mp (h default)).1
  · exact (Prod.ext_iff.mp (h i)).2

/-- **A run of all is nothing but a run of each.** -/
theorem run_iff [Inhabited ι] :
    p.run c events = some c' ↔
      ∀ i, p.soloRun i (view i c) (events.filterMap (Event.seenBy i)) = some (view i c') := by
  refine ⟨soloRun_of_run, fun h => ?_⟩
  obtain ⟨c₁, hrun⟩ := exists_run_of_soloRuns fun i => ⟨_, h i⟩
  have hviews : ∀ i, view i c₁ = view i c' := by
    intro i
    exact Option.some.inj ((soloRun_of_run hrun i).symm.trans (h i))
  rw [hrun, eq_of_views hviews]

end Runs

end Parties

end Pricestream.Library
