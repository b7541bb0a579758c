import Mathlib.Data.List.Forall2
import Pricestream.Library.Traced

/-!
# Programs in lockstep

Two programs are in lockstep if they do related things one for one and end alike: both with related
values, or both with the same exception. Running one program after another keeps the two in lockstep
if the continuations do on related values, and so does a loop whose turns do.
-/

namespace Pricestream.Library

/-- Both values are related, or the exceptions are the same. -/
inductive EndAlike {ε α β : Type} (V : α → β → Prop) : Except ε α → Except ε β → Prop where
  | ok {a : α} {b : β} (h : V a b) : EndAlike V (.ok a) (.ok b)
  | error (e : ε) : EndAlike V (.error e) (.error e)

namespace Traced

/-- Related acts in the same order, and related ends. -/
structure Lockstep {ε ω ω' α β : Type} (R : ω → ω' → Prop) (V : α → β → Prop) (x : Traced ε ω α)
    (y : Traced ε ω' β) : Prop where
  trace : List.Forall₂ R x.trace y.trace
  ends : EndAlike V x.result y.result

variable {ε ω ω' α β γ δ : Type} {R : ω → ω' → Prop} {V : α → β → Prop} {W : γ → δ → Prop}

theorem lockstep_pure {a : α} {b : β} (h : V a b) :
    Lockstep R V (pure a : Traced ε ω α) (pure b : Traced ε ω' β) := ⟨.nil, .ok h⟩

theorem lockstep_raise (e : ε) : Lockstep R V (raise e : Traced ε ω α) (raise e : Traced ε ω' β) :=
  ⟨.nil, .error e⟩

theorem lockstep_emit {w : ω} {w' : ω'} (h : R w w') :
    Lockstep R Eq (emit w : Traced ε ω Unit) (emit w' : Traced ε ω' Unit) :=
  ⟨.cons h .nil, .ok rfl⟩

theorem lockstep_ofExcept {x : Except ε α} {y : Except ε β} (h : EndAlike V x y) :
    Lockstep R V (ofExcept x : Traced ε ω α) (ofExcept y : Traced ε ω' β) := ⟨.nil, h⟩

/-- A program is in lockstep with itself, and ends with what it returns. -/
theorem Lockstep.refl {R : ω → ω → Prop} (hR : ∀ w, R w w) (x : Traced ε ω α) :
    Lockstep R (fun a b => a = b ∧ x.Returns a) x x := by
  refine ⟨List.forall₂_same.mpr fun w _ => hR w, ?_⟩
  unfold Returns
  cases x.result with
  | error e => exact .error e
  | ok a => exact .ok ⟨rfl, rfl⟩

theorem Lockstep.bind {x : Traced ε ω α} {y : Traced ε ω' β} {f : α → Traced ε ω γ}
    {g : β → Traced ε ω' δ} (hxy : Lockstep R V x y) (hfg : ∀ a b, V a b → Lockstep R W (f a) (g b)) :
    Lockstep R W (x >>= f) (y >>= g) := by
  obtain ⟨trace, result⟩ := x
  obtain ⟨trace', result'⟩ := y
  obtain ⟨htrace, hends⟩ := hxy
  cases hends with
  | error e => exact ⟨htrace, .error e⟩
  | ok hab =>
      obtain ⟨hrest, hends⟩ := hfg _ _ hab
      exact ⟨List.rel_append htrace hrest, hends⟩

/-- Loops over the same items are in lockstep if their turns are, from related accumulators. -/
theorem Lockstep.loop {ι : Type} {turn : α → ι → Traced ε ω α} {turn' : β → ι → Traced ε ω' β}
    {l : List ι} (h : ∀ i ∈ l, ∀ a b, V a b → Lockstep R V (turn a i) (turn' b i)) {a : α} {b : β}
    (hab : V a b) : Lockstep R V (Traced.loop turn a l) (Traced.loop turn' b l) := by
  induction l generalizing a b with
  | nil => exact lockstep_pure hab
  | cons i rest ih =>
      have hturn := h i List.mem_cons_self a b hab
      exact hturn.bind fun a' b' hab' => ih (fun j hj => h j (List.mem_cons_of_mem _ hj)) hab'

end Traced

end Pricestream.Library
