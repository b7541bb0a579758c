import Mathlib.Data.List.Basic
import Mathlib.Order.Basic
import Pricestream.Library.Ledger

/-!
# Interleaved runs and shared registers

Several runs act at the same time, each in the order of its own program. What happens is a history:
the actions of all runs in one sequence, each tagged with the run it belongs to, such that the actions
of every run are its program. Nothing else is assumed about the order. In a history that is not over, or
in which runs are broken off, they are the first actions of its program.

A register keeps what was written to it last. What a program writes is an observation of its actions,
so a register's value is a function of the history, and it is the greatest of the values written when
these were written in order.
-/

namespace Pricestream.Library

variable {ι ω β γ : Type}

/-! ### Histories -/

/-- What one run did in a history. -/
def actionsOf [DecidableEq ι] (i : ι) (history : List (ι × ω)) : List ω :=
  history.filterMap fun step => if step.1 = i then some step.2 else none

/-- The history is an interleaving of complete runs of these programs. -/
def Interleaves [DecidableEq ι] (programs : ι → List ω) (history : List (ι × ω)) : Prop :=
  ∀ i, actionsOf i history = programs i

theorem mem_actionsOf [DecidableEq ι] {i : ι} {w : ω} {history : List (ι × ω)} :
    w ∈ actionsOf i history ↔ (i, w) ∈ history := by
  simp only [actionsOf, List.mem_filterMap, Option.ite_none_right_eq_some, Option.some.injEq,
    Prod.exists]
  constructor
  · intro ⟨j, w', hmem, hj, hw⟩
    rwa [← hj, ← hw]
  · intro hmem
    exact ⟨i, w, hmem, rfl, rfl⟩

theorem Interleaves.mem_iff [DecidableEq ι] {programs : ι → List ω} {history : List (ι × ω)}
    (h : Interleaves programs history) {i : ι} {w : ω} : (i, w) ∈ history ↔ w ∈ programs i := by
  rw [← mem_actionsOf, h i]

theorem actionsOf_flatMap [DecidableEq ι] (programs : ι → List ω) (i : ι) {is : List ι} (h : is.Nodup) :
    actionsOf i (is.flatMap fun j => (programs j).map (j, ·)) = if i ∈ is then programs i else [] := by
  induction is with
  | nil => rfl
  | cons j is ih =>
      obtain ⟨hj, his⟩ := List.nodup_cons.mp h
      have hrest := ih his
      rw [actionsOf] at hrest ⊢
      rw [List.flatMap_cons, List.filterMap_append, hrest, List.filterMap_map]
      by_cases hij : j = i
      · subst hij
        rw [if_neg hj, if_pos List.mem_cons_self, List.append_nil]
        simp
      · have hmem : i ∈ j :: is ↔ i ∈ is := by simp [Ne.symm hij]
        simp [hij, hmem]

/-- Runs that follow one another. -/
theorem interleaves_flatMap [DecidableEq ι] {programs : ι → List ω} {is : List ι} (hnodup : is.Nodup)
    (hall : ∀ i, i ∈ is) : Interleaves programs (is.flatMap fun i => (programs i).map (i, ·)) := by
  intro i
  rw [actionsOf_flatMap programs i hnodup, if_pos (hall i)]

/-- The history is an interleaving of runs of these programs, each as far as it has come. -/
def Advances [DecidableEq ι] (programs : ι → List ω) (history : List (ι × ω)) : Prop :=
  ∀ i, actionsOf i history <+: programs i

theorem Advances.of_prefix [DecidableEq ι] {programs : ι → List ω} {past history : List (ι × ω)}
    (h : Advances programs history) (hpast : past <+: history) : Advances programs past :=
  fun i => (hpast.filterMap _).trans (h i)

/-- What has a cause in its program has one in the history, in its own run. -/
theorem Advances.caused [DecidableEq ι] {programs : ι → List ω} {history : List (ι × ω)}
    {needs : ω → Prop} {cause : ω → ω → Prop} (h : Advances programs history) {i : ι}
    (hcaused : Caused needs cause (programs i)) {w : ω} (hw : (i, w) ∈ history) (hneeds : needs w) :
    ∃ w', (i, w') ∈ history ∧ cause w' w := by
  obtain ⟨w', hw', hcause⟩ := hcaused _ (h i) w (mem_actionsOf.mpr hw) hneeds
  exact ⟨w', mem_actionsOf.mp hw', hcause⟩

/-! ### Registers -/

/-- The value of a register that is empty at first. -/
def register (write? : ω → Option β) (actions : List ω) : Option β :=
  (actions.filterMap write?).getLast?

variable {write? : ω → Option β} {actions : List ω}

theorem register_concat (w : ω) :
    register write? (actions ++ [w]) = (write? w).or (register write? actions) := by
  rw [register, List.filterMap_append, List.getLast?_append, List.filterMap_cons]
  cases write? w <;> rfl

theorem register_eq_none_iff :
    register write? actions = none ↔ ∀ w ∈ actions, write? w = none := by
  rw [register, List.getLast?_eq_none_iff, List.filterMap_eq_nil_iff]

theorem exists_write_of_register {b : β} (h : register write? actions = some b) :
    ∃ w ∈ actions, write? w = some b :=
  List.mem_filterMap.mp (List.mem_of_getLast? h)

/-- What is written in order leaves the greatest behind. -/
theorem le_register [Preorder γ] {score : β → γ} {b : β}
    (horder : (actions.filterMap write?).Pairwise fun x y => score x ≤ score y)
    (hb : register write? actions = some b) {w : ω} {x : β} (hw : w ∈ actions)
    (hx : write? w = some x) : score x ≤ score b := by
  obtain ⟨front, hfront⟩ := List.getLast?_eq_some_iff.mp hb
  have hmem : x ∈ front ++ [b] := hfront ▸ List.mem_filterMap.mpr ⟨w, hw, hx⟩
  rw [hfront] at horder
  rcases List.mem_append.mp hmem with hx | hx
  · exact (List.pairwise_append.mp horder).2.2 x hx b (List.mem_singleton_self b)
  · rw [List.mem_singleton.mp hx]

end Pricestream.Library
