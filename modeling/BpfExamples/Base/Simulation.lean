import Mathlib.Algebra.Ring.Int.Defs
import Mathlib.Algebra.Ring.Nat
import Mathlib.Tactic.Common

/-!
# Runs of a labelled system, and simulation

A system is a relation `step : σ → ι → σ → Prop`, whose labels are what can be seen of a step.
`Run` is any number of steps with the list of their labels. `Run.inv` is the invariant rule;
`Run.simulates` says that a relation which every step preserves is preserved by runs, so that
one system shows nothing that the other does not show.
-/

namespace BpfExamples

universe u v w

variable {σ : Type u} {τ : Type v} {ι : Type w} {step : σ → ι → σ → Prop} {s s' : σ}
  {l : List ι}

/-- Steps one after the other, and their labels. -/
inductive Run (step : σ → ι → σ → Prop) : σ → List ι → σ → Prop
  | nil (s : σ) : Run step s [] s
  | cons {s s' s'' : σ} {i : ι} {l : List ι} (first : step s i s') (rest : Run step s' l s'') :
      Run step s (i :: l) s''

namespace Run

/-- The invariant rule. -/
theorem inv {I : σ → Prop} (hstep : ∀ s i s', I s → step s i s' → I s') (h : Run step s l s')
    (hs : I s) : I s' := by
  induction h with
  | nil => exact hs
  | cons first _ ih => exact ih (hstep _ _ _ hs first)

/-- The simulation rule: where each step can be answered, each run can. -/
theorem simulates {step' : τ → ι → τ → Prop} {R : σ → τ → Prop}
    (hstep : ∀ s t i s', R s t → step s i s' → ∃ t', R s' t' ∧ step' t i t')
    (h : Run step s l s') : ∀ {t : τ}, R s t → ∃ t', R s' t' ∧ Run step' t l t' := by
  induction h with
  | nil => exact fun hR => ⟨_, hR, .nil _⟩
  | cons first _ ih =>
    intro t hR
    obtain ⟨t₁, hR₁, hfirst⟩ := hstep _ _ _ _ hR first
    obtain ⟨t', hR', hrest⟩ := ih hR₁
    exact ⟨t', hR', .cons hfirst hrest⟩

end Run

end BpfExamples
