import Mathlib.Data.List.Basic

/-!
# Simulation by several steps

Two systems take steps, each only where it can. If whatever the first does in one step the second can do
in some steps of its own, none or many, such that the two stay related, then every run of the first is
matched by a run of the second. The relation may depend on what the first has done so far.
-/

namespace Pricestream.Library

variable {σ σ' α β : Type} {step : σ → α → Option σ} {step' : σ' → β → Option σ'}
  {R : List α → σ → σ' → Prop}

/-- Each step of the first system is matched by steps of the second. -/
def Simulates (step : σ → α → Option σ) (step' : σ' → β → Option σ') (R : List α → σ → σ' → Prop) : Prop :=
  ∀ past s s' a t, R past s s' → step s a = some t →
    ∃ (bs : List β) (t' : σ'), bs.foldlM step' s' = some t' ∧ R (past ++ [a]) t t'

/-- So is each run. -/
theorem Simulates.run (h : Simulates step step' R) {past : List α} {s t : σ} {s' : σ'} {as : List α}
    (hR : R past s s') (hrun : as.foldlM step s = some t) :
    ∃ (bs : List β) (t' : σ'), bs.foldlM step' s' = some t' ∧ R (past ++ as) t t' := by
  induction as generalizing past s s' with
  | nil =>
      obtain rfl := Option.some.inj hrun
      exact ⟨[], s', rfl, (List.append_nil past).symm ▸ hR⟩
  | cons a as ih =>
      rw [List.foldlM_cons] at hrun
      obtain ⟨s₁, hstep, hrest⟩ := Option.bind_eq_some_iff.mp hrun
      obtain ⟨bs₁, s₁', hbs₁, hR₁⟩ := h past s s' a s₁ hR hstep
      obtain ⟨bs, t', hbs, hRt⟩ := ih hR₁ hrest
      refine ⟨bs₁ ++ bs, t', ?_, ?_⟩
      · rw [List.foldlM_append]
        exact Option.bind_eq_some_iff.mpr ⟨s₁', hbs₁, hbs⟩
      · rw [List.append_assoc, List.singleton_append] at hRt
        exact hRt

end Pricestream.Library
