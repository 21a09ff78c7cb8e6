import Mathlib.Algebra.Ring.Int.Defs
import Mathlib.Algebra.Ring.Nat
import Mathlib.Tactic.Common

/-!
# Runs of a state machine

A machine is a partial step function `step : σ → ι → Except ε σ` with a guard
`ok` that says which inputs its users may give in which state. `Reach` collects
the states of all runs. `Reach.inv` is the invariant rule: what holds at the
start and is kept by every allowed step holds in every state of every run.
-/

namespace BpfExamples

universe u v w

section

variable {σ : Type u} {ι : Type v} {ε : Type w}

/-- The states that allowed steps lead to from a start state. -/
inductive Reach (init : σ → Prop) (ok : σ → ι → Prop)
    (step : σ → ι → Except ε σ) : σ → Prop
  | start {s : σ} : init s → Reach init ok step s
  | step {s s' : σ} {i : ι} : Reach init ok step s → ok s i → step s i = .ok s' →
      Reach init ok step s'

variable {init : σ → Prop} {ok : σ → ι → Prop} {step : σ → ι → Except ε σ}

/-- The invariant rule. -/
theorem Reach.inv {I : σ → Prop} (h0 : ∀ s, init s → I s)
    (hstep : ∀ s i s', I s → ok s i → step s i = .ok s' → I s')
    {s : σ} (h : Reach init ok step s) : I s := by
  induction h with
  | start hi => exact h0 _ hi
  | step _ hok hs ih => exact hstep _ _ _ ih hok hs

/-- A run along a list of inputs, as long as each is allowed and no step fails. -/
def runAlong (ok : σ → ι → Prop) [∀ s i, Decidable (ok s i)] (step : σ → ι → Except ε σ) :
    σ → List ι → Option σ
  | s, [] => some s
  | s, i :: is =>
    if ok s i then
      match step s i with
      | .ok s' => runAlong ok step s' is
      | .error _ => none
    else none

theorem Reach.of_runAlong [∀ s i, Decidable (ok s i)] :
    ∀ {is : List ι} {s s' : σ}, Reach init ok step s → runAlong ok step s is = some s' →
      Reach init ok step s'
  | [], s, s', hs, h => Option.some.inj h ▸ hs
  | i :: is, s, s', hs, h => by
    rw [runAlong] at h
    split at h
    · next hok =>
      cases hstep : step s i with
      | ok s₁ =>
        rw [hstep] at h
        exact Reach.of_runAlong (hs.step hok hstep) h
      | error e =>
        rw [hstep] at h
        cases h
    · cases h

end

/-! ## Computations that may stop -/

section

variable {ε : Type u} {α β : Type v}

/-- A sequence that ends well ran its first part well. -/
theorem bind_eq_ok {x : Except ε α} {f : α → Except ε β} {b : β} :
    (x >>= f) = .ok b ↔ ∃ a, x = .ok a ∧ f a = .ok b := by
  cases x with
  | error e =>
    constructor
    · intro h
      cases h
    · rintro ⟨a, h, -⟩
      cases h
  | ok a =>
    constructor
    · intro h
      exact ⟨a, rfl, h⟩
    · rintro ⟨a', h, h'⟩
      cases h
      exact h'

@[simp] theorem ok_bind (a : α) (f : α → Except ε β) : (Except.ok a >>= f) = f a := rfl

@[simp] theorem error_bind (e : ε) (f : α → Except ε β) :
    ((Except.error e : Except ε α) >>= f) = .error e := rfl

end

end BpfExamples
