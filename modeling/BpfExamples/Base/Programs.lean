import Mathlib.Algebra.Ring.Int.Defs
import Mathlib.Algebra.Ring.Nat
import Mathlib.Tactic.Common

/-!
# Programs whose state survives a failure

A program is an `EStateM ε σ α`: it ends with a value or with an error, and with a state
either way. `Ends x s Q E` is its weakest precondition at the start state `s`: a normal end
satisfies `Q`, a failed one `E`. The rules are those of a sequential language; a step that
fails ends the whole program, so `E` is the same for all steps of a sequence.

`Grows` is the special case of a quantity that only grows, whichever way the program ends, and
`StopsIn` the one of the errors a program can fail with.
-/

namespace BpfExamples

universe u

section

variable {ε σ α β : Type u} {s : σ} {Q : α → σ → Prop} {R : β → σ → Prop} {E : ε → σ → Prop}

/-- From `s`, the program ends well in `Q` or fails in `E`. -/
def Ends (x : EStateM ε σ α) (s : σ) (Q : α → σ → Prop) (E : ε → σ → Prop) : Prop :=
  match x s with
  | .ok a s' => Q a s'
  | .error e s' => E e s'

theorem ends_of_ok {x : EStateM ε σ α} {a : α} {s' : σ} (h : x s = .ok a s') :
    Ends x s Q E ↔ Q a s' := by
  rw [Ends, h]

theorem ends_of_error {x : EStateM ε σ α} {e : ε} {s' : σ} (h : x s = .error e s') :
    Ends x s Q E ↔ E e s' := by
  rw [Ends, h]

/-- What a program does is what the program it runs into does. -/
theorem ends_congr {x y : EStateM ε σ α} {s' : σ} (h : x s = y s') :
    Ends x s Q E ↔ Ends y s' Q E := by
  rw [Ends, Ends, h]

@[simp] theorem ends_pure {a : α} : Ends (pure a : EStateM ε σ α) s Q E ↔ Q a s := Iff.rfl

@[simp] theorem ends_throw {e : ε} : Ends (throw e : EStateM ε σ α) s Q E ↔ E e s := Iff.rfl

theorem ends_true (x : EStateM ε σ α) (s : σ) : Ends x s (fun _ _ => True) fun _ _ => True := by
  cases h : x s with
  | ok a s' => exact (ends_of_ok h).mpr trivial
  | error e s' => exact (ends_of_error h).mpr trivial

/-! ## Sequences -/

theorem bind_of_ok {x : EStateM ε σ α} {f : α → EStateM ε σ β} {a : α} {s' : σ}
    (h : x s = .ok a s') : (x >>= f) s = f a s' := by
  show EStateM.bind x f s = f a s'
  rw [EStateM.bind, h]

theorem bind_of_error {x : EStateM ε σ α} {f : α → EStateM ε σ β} {e : ε} {s' : σ}
    (h : x s = .error e s') : (x >>= f) s = .error e s' := by
  show EStateM.bind x f s = .error e s'
  rw [EStateM.bind, h]

theorem ends_map {x : EStateM ε σ α} (f : α → β) :
    Ends (f <$> x) s R E ↔ Ends x s (fun a => R (f a)) E := by
  have hmap : (f <$> x) s = EStateM.map f x s := rfl
  rw [Ends, Ends, hmap, EStateM.map]
  cases x s <;> exact Iff.rfl

/-- A mapped program ends well where the program itself does. -/
theorem map_eq_ok {x : EStateM ε σ α} {f : α → β} {b : β} {s' : σ} :
    (f <$> x) s = .ok b s' ↔ ∃ a, x s = .ok a s' ∧ f a = b := by
  have hmap : (f <$> x) s = EStateM.map f x s := rfl
  rw [hmap, EStateM.map]
  cases x s with
  | ok a s₁ =>
    constructor
    · intro h
      cases h
      exact ⟨a, rfl, rfl⟩
    · rintro ⟨a', h, rfl⟩
      cases h
      rfl
  | error e s₁ =>
    constructor
    · intro h
      cases h
    · rintro ⟨a, h, -⟩
      cases h

theorem ends_bind_of_ok {x : EStateM ε σ α} {f : α → EStateM ε σ β} {a : α} {s' : σ}
    (h : x s = .ok a s') : Ends (x >>= f) s R E ↔ Ends (f a) s' R E := by
  rw [Ends, bind_of_ok h]
  rfl

theorem ends_bind_of_error {x : EStateM ε σ α} {f : α → EStateM ε σ β} {e : ε} {s' : σ}
    (h : x s = .error e s') : Ends (x >>= f) s R E ↔ E e s' := by
  rw [Ends, bind_of_error h]

theorem ends_get_bind {f : σ → EStateM ε σ β} : Ends (get >>= f) s R E ↔ Ends (f s) s R E :=
  ends_bind_of_ok rfl

theorem ends_set_bind {f : PUnit → EStateM ε σ β} {s' : σ} :
    Ends (set s' >>= f) s R E ↔ Ends (f ⟨⟩) s' R E :=
  ends_bind_of_ok rfl

theorem ends_modify_bind {f : PUnit → EStateM ε σ β} {g : σ → σ} :
    Ends (modify g >>= f) s R E ↔ Ends (f ⟨⟩) (g s) R E :=
  ends_bind_of_ok rfl

/-- What the first step establishes is what the rest starts from. -/
theorem Ends.bind {x : EStateM ε σ α} {f : α → EStateM ε σ β} (hx : Ends x s Q E)
    (hf : ∀ a s', Q a s' → Ends (f a) s' R E) : Ends (x >>= f) s R E := by
  cases h : x s with
  | ok a s' =>
    have hq : Q a s' := (ends_of_ok h).mp hx
    have hstep := hf a s' hq
    rw [Ends, bind_of_ok h]
    exact hstep
  | error e s' =>
    rw [Ends, bind_of_error h]
    exact (ends_of_error h).mp hx

theorem Ends.mono {Q' : α → σ → Prop} {E' : ε → σ → Prop} {x : EStateM ε σ α}
    (hx : Ends x s Q E) (hq : ∀ a s', Q a s' → Q' a s') (he : ∀ e s', E e s' → E' e s') :
    Ends x s Q' E' := by
  cases h : x s with
  | ok a s' => exact (ends_of_ok h).mpr (hq a s' ((ends_of_ok h).mp hx))
  | error e s' => exact (ends_of_error h).mpr (he e s' ((ends_of_error h).mp hx))

/-- Two facts about the same run. -/
theorem Ends.and {Q' : α → σ → Prop} {E' : ε → σ → Prop} {x : EStateM ε σ α} (hx : Ends x s Q E)
    (hx' : Ends x s Q' E') :
    Ends x s (fun a s' => Q a s' ∧ Q' a s') fun e s' => E e s' ∧ E' e s' := by
  cases h : x s with
  | ok a s' => exact (ends_of_ok h).mpr ⟨(ends_of_ok h).mp hx, (ends_of_ok h).mp hx'⟩
  | error e s' =>
    exact (ends_of_error h).mpr ⟨(ends_of_error h).mp hx, (ends_of_error h).mp hx'⟩

/-- What holds however a program ends does not depend on it. -/
theorem Ends.out {P : Prop} {x : EStateM ε σ α} (hx : Ends x s Q E) (hq : ∀ a s', Q a s' → P)
    (he : ∀ e s', E e s' → P) : P := by
  cases h : x s with
  | ok a s' => exact hq a s' ((ends_of_ok h).mp hx)
  | error e s' => exact he e s' ((ends_of_error h).mp hx)

/-- A program ends in one way only. -/
theorem Ends.not {Q' : α → σ → Prop} {E' : ε → σ → Prop} {x : EStateM ε σ α} (hx : Ends x s Q E)
    (hq : ∀ a s', Q a s' → ¬ Q' a s') (he : ∀ e s', E e s' → ¬ E' e s') : ¬ Ends x s Q' E' := by
  cases h : x s with
  | ok a s' =>
    rw [ends_of_ok h]
    exact hq a s' ((ends_of_ok h).mp hx)
  | error e s' =>
    rw [ends_of_error h]
    exact he e s' ((ends_of_error h).mp hx)

/-- Both branches of a test. -/
theorem Ends.ite {c : Prop} [Decidable c] {x y : EStateM ε σ α} (hx : c → Ends x s Q E)
    (hy : ¬ c → Ends y s Q E) : Ends (if c then x else y) s Q E := by
  split
  · exact hx ‹_›
  · exact hy ‹_›

end

-- programs are reasoned about by the rules, and never run by unfolding
attribute [irreducible] Ends

/-! ## Quantities that only grow -/

section

variable {ε σ α β : Type u} {le : σ → σ → Prop}

/-- However the program ends, its last state is above its first. -/
def Grows (le : σ → σ → Prop) (x : EStateM ε σ α) : Prop :=
  ∀ s, Ends x s (fun _ s' => le s s') fun _ s' => le s s'

theorem Grows.pure (hr : ∀ s, le s s) (a : α) : Grows le (Pure.pure a : EStateM ε σ α) :=
  fun s => ends_pure.mpr (hr s)

theorem Grows.throw (hr : ∀ s, le s s) (e : ε) :
    Grows le (MonadExcept.throw e : EStateM ε σ α) :=
  fun s => ends_throw.mpr (hr s)

theorem Grows.bind (ht : ∀ s₁ s₂ s₃, le s₁ s₂ → le s₂ s₃ → le s₁ s₃) {x : EStateM ε σ α}
    {f : α → EStateM ε σ β} (hx : Grows le x) (hf : ∀ a, Grows le (f a)) :
    Grows le (x >>= f) := by
  intro s
  refine (hx s).bind fun a s' h => ?_
  exact (hf a s').mono (fun _ s'' => ht s s' s'' h) fun _ s'' => ht s s' s'' h

theorem Grows.ite {c : Prop} [Decidable c] {x y : EStateM ε σ α} (hx : Grows le x)
    (hy : Grows le y) : Grows le (if c then x else y) := by
  intro s
  exact Ends.ite (fun _ => hx s) fun _ => hy s

end

/-! ## The errors of a program -/

section

variable {ε σ α β : Type u} {P : ε → Prop}

/-- A computation fails in `P` only. -/
def FailsIn (P : ε → Prop) (x : Except ε α) : Prop := ∀ e, x = .error e → P e

theorem FailsIn.ok (a : α) : FailsIn P (.ok a : Except ε α) := fun _ h => nomatch h

theorem FailsIn.error {e : ε} (h : P e) : FailsIn P (.error e : Except ε α) := by
  intro e' he
  cases he
  exact h

theorem FailsIn.bind {x : Except ε α} {f : α → Except ε β} (hx : FailsIn P x)
    (hf : ∀ a, FailsIn P (f a)) : FailsIn P (x >>= f) := by
  cases x with
  | ok a => exact hf a
  | error e => exact FailsIn.error (hx e rfl)

theorem FailsIn.ite {c : Prop} [Decidable c] {x y : Except ε α} (hx : FailsIn P x)
    (hy : FailsIn P y) : FailsIn P (if c then x else y) := by
  split
  · exact hx
  · exact hy

/-- A program fails in `P` only, wherever it starts. -/
def StopsIn (P : ε → Prop) (x : EStateM ε σ α) : Prop :=
  ∀ s, Ends x s (fun _ _ => True) fun e _ => P e

theorem StopsIn.pure (a : α) : StopsIn P (Pure.pure a : EStateM ε σ α) :=
  fun _ => ends_pure.mpr trivial

theorem StopsIn.throw {e : ε} (h : P e) : StopsIn P (MonadExcept.throw e : EStateM ε σ α) :=
  fun _ => ends_throw.mpr h

theorem StopsIn.bind {x : EStateM ε σ α} {f : α → EStateM ε σ β} (hx : StopsIn P x)
    (hf : ∀ a, StopsIn P (f a)) : StopsIn P (x >>= f) := by
  intro s
  exact (hx s).bind fun a s' _ => hf a s'

theorem StopsIn.ite {c : Prop} [Decidable c] {x y : EStateM ε σ α} (hx : StopsIn P x)
    (hy : StopsIn P y) : StopsIn P (if c then x else y) := by
  intro s
  exact Ends.ite (fun _ => hx s) fun _ => hy s

end

end BpfExamples
