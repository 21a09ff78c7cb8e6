import BpfExamples.Base.Programs

/-!
# Programs seen through a view of their state

A program on states `σ` that are seen as `view s : τ` mirrors a program on `τ` if, run from `s`
and from `view s`, the two end in the same way, with states that the view relates:
`Mirrors view x s y Q`. Where both end well, `Q` relates their values and the last state of the
first. The rules are those of a logic of two programs side by side: a step of both
(`Mirrors.bind`), and a step of the first alone, which the view does not show (`Mirrors.skip`).
-/

namespace BpfExamples

universe u

variable {ε σ τ α β α' β' : Type u} {view : σ → τ} {s : σ}

/-- Seen through the view, `x` from `s` ends as `y` does. -/
def Mirrors (view : σ → τ) (x : EStateM ε σ α) (s : σ) (y : EStateM ε τ β)
    (Q : α → β → σ → Prop) : Prop :=
  Ends x s (fun a s' => ∃ b, y (view s) = .ok b (view s') ∧ Q a b s') fun e s' =>
    y (view s) = .error e (view s')

namespace Mirrors

theorem pure {Q : α → β → σ → Prop} {a : α} {b : β} (h : Q a b s) :
    Mirrors view (Pure.pure a : EStateM ε σ α) s (Pure.pure b) Q :=
  ends_pure.mpr ⟨b, rfl, h⟩

/-- Both change their states, in the same way as far as the view shows it. -/
theorem update {Q : PUnit → PUnit → σ → Prop} {f : σ → σ} {g : τ → τ}
    (hview : view (f s) = g (view s)) (h : Q ⟨⟩ ⟨⟩ (f s)) :
    Mirrors view (modify f : EStateM ε σ PUnit) s (modify g) Q := by
  have hrun : (modify f : EStateM ε σ PUnit) s = .ok ⟨⟩ (f s) := rfl
  refine (ends_of_ok hrun).mpr ⟨⟨⟩, ?_, h⟩
  rw [hview]
  rfl

/-- A step of both. -/
theorem bind {Q : α → β → σ → Prop} {R : α' → β' → σ → Prop} {x : EStateM ε σ α}
    {y : EStateM ε τ β} {f : α → EStateM ε σ α'} {g : β → EStateM ε τ β'}
    (hx : Mirrors view x s y Q) (hf : ∀ a b s', Q a b s' → Mirrors view (f a) s' (g b) R) :
    Mirrors view (x >>= f) s (y >>= g) R := by
  have herror : Ends x s (fun a s' => ∃ b, y (view s) = .ok b (view s') ∧ Q a b s')
      fun e s' => (y >>= g) (view s) = .error e (view s') :=
    Ends.mono hx (fun _ _ h => h) fun e s' h => bind_of_error h
  refine herror.bind ?_
  rintro a s' ⟨b, hy, hab⟩
  unfold Mirrors at hf
  rw [bind_of_ok hy]
  exact hf a b s' hab

/-- A step of the first program that the view does not show. -/
theorem skip {Q : α → σ → Prop} {R : α' → β → σ → Prop} {x : EStateM ε σ α} {y : EStateM ε τ β}
    {f : α → EStateM ε σ α'}
    (hx : Ends x s (fun a s' => view s' = view s ∧ Q a s') fun _ _ => False)
    (hf : ∀ a s', Q a s' → Mirrors view (f a) s' y R) : Mirrors view (x >>= f) s y R := by
  have herror := hx.mono (fun _ _ h => h) fun e s' h =>
    (False.elim h : y (view s) = .error e (view s'))
  refine herror.bind ?_
  rintro a s' ⟨hview, hq⟩
  have hnext := hf a s' hq
  unfold Mirrors at hnext
  rw [hview] at hnext
  exact hnext

/-- The first program goes on alone, and the view does not show it. -/
theorem andThen {Q : α → β → σ → Prop} {R : α' → β → σ → Prop} {x : EStateM ε σ α}
    {y : EStateM ε τ β} {f : α → EStateM ε σ α'} (hx : Mirrors view x s y Q)
    (hf : ∀ a b s', Q a b s' → Ends (f a) s' (fun a' s'' => view s'' = view s' ∧ R a' b s'')
      fun _ _ => False) :
    Mirrors view (x >>= f) s y R := by
  refine Ends.bind hx ?_
  rintro a s' ⟨b, hy, hab⟩
  refine (hf a b s' hab).mono ?_ fun _ _ h => h.elim
  rintro a' s'' ⟨hview, hr⟩
  exact ⟨b, hview ▸ hy, hr⟩

/-- The first program runs into another one, and the view does not show it. -/
theorem runsInto {Q : α → β → σ → Prop} {x x' : EStateM ε σ α} {y : EStateM ε τ β} {s' : σ}
    (h : x s = x' s') (hview : view s' = view s) (hx : Mirrors view x' s' y Q) :
    Mirrors view x s y Q := by
  unfold Mirrors at hx
  rw [hview] at hx
  exact (ends_congr h).mpr hx

/-- Both branches of a test that the two make together. -/
theorem ite {Q : α → β → σ → Prop} {c : Prop} [Decidable c] {x x' : EStateM ε σ α}
    {y y' : EStateM ε τ β} (h : c → Mirrors view x s y Q) (h' : ¬ c → Mirrors view x' s y' Q) :
    Mirrors view (if c then x else x') s (if c then y else y') Q := by
  split
  · exact h ‹_›
  · exact h' ‹_›

end Mirrors

end BpfExamples
