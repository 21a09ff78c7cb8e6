import Mathlib.Algebra.Ring.Int.Defs
import Mathlib.Algebra.Ring.Nat
import Mathlib.Data.List.Basic
import Mathlib.Logic.Function.Basic
import Mathlib.Tactic.Common

/-!
# Singly linked chains

A chain is given by its link function: `Seg next a xs z` says that following
`next` from `a` visits exactly the nodes `xs` and arrives at `z`. Nothing here
mentions a memory: a list in memory is the chain of the function that reads a
node's link word, and a store to a link word is an update of that function.

A list head outside the nodes is handled by `link`: the place that holds the
pointer to the node after a prefix is either the head (`none`) or the last node
of the prefix.
-/

namespace BpfExamples

/-- Following `next` from `a` visits `xs` and arrives at `z`. -/
def Seg (next : Nat → Nat) : Nat → List Nat → Nat → Prop
  | a, [], z => a = z
  | a, x :: xs, z => a = x ∧ Seg next (next x) xs z

namespace Seg

variable {next next' : Nat → Nat}

theorem append : ∀ {a z : Nat} {xs ys : List Nat},
    Seg next a (xs ++ ys) z ↔ ∃ b, Seg next a xs b ∧ Seg next b ys z
  | a, z, [], ys => by
    constructor
    · intro h
      exact ⟨a, rfl, h⟩
    · rintro ⟨b, rfl, h⟩
      exact h
  | a, z, x :: xs, ys => by
    constructor
    · rintro ⟨rfl, h⟩
      obtain ⟨b, h₁, h₂⟩ := append.mp h
      exact ⟨b, ⟨rfl, h₁⟩, h₂⟩
    · rintro ⟨b, ⟨rfl, h₁⟩, h₂⟩
      exact ⟨rfl, append.mpr ⟨b, h₁, h₂⟩⟩

/-- A chain reads only the links of its own nodes. -/
theorem congr : ∀ {a z : Nat} {xs : List Nat}, Seg next a xs z →
    (∀ x ∈ xs, next' x = next x) → Seg next' a xs z
  | _, _, [], h, _ => h
  | _, _, x :: xs, ⟨rfl, h⟩, hn => by
    refine ⟨rfl, ?_⟩
    rw [hn _ List.mem_cons_self]
    exact congr h fun y hy => hn y (List.mem_cons_of_mem _ hy)

/-- The holder of the pointer that follows the prefix `xs`. -/
def link : List Nat → Option Nat → Option Nat
  | [], p => p
  | x :: xs, _ => link xs (some x)

theorem link_append_singleton : ∀ (xs : List Nat) (x : Nat) (p : Option Nat),
    link (xs ++ [x]) p = some x
  | [], _, _ => rfl
  | _ :: xs, x, _ => link_append_singleton xs x _

/-- The holder is the head, or a node of the prefix. -/
theorem link_mem : ∀ {xs : List Nat} {p : Option Nat} {c : Nat},
    link xs p = some c → p = some c ∨ c ∈ xs
  | [], _, _, h => .inl h
  | x :: xs, _, c, h => by
    have hrest : link xs (some x) = some c := h
    rcases link_mem hrest with h | h
    · exact .inr (by simp [Option.some.inj h])
    · exact .inr (List.mem_cons_of_mem _ h)

theorem link_none : ∀ {xs : List Nat}, link xs none = none → xs = []
  | [], _ => rfl
  | x :: xs, h => by
    rcases List.eq_nil_or_concat (x :: xs) with h' | ⟨ys, y, h'⟩
    · cases h'
    · rw [h', List.concat_eq_append, link_append_singleton] at h
      cases h

/-- **Redirecting** the pointer after a prefix: the nodes of the prefix keep
their order and now lead to `y`. -/
theorem redirect {a z y c : Nat} {xs : List Nat} (h : Seg next a xs z)
    (hnd : xs.Nodup) (hlink : link xs none = some c)
    (hc : next' c = y) (hother : ∀ x ∈ xs, x ≠ c → next' x = next x) :
    Seg next' a xs y := by
  obtain ⟨ys, d, rfl⟩ : ∃ ys d, xs = ys ++ [d] := by
    rcases List.eq_nil_or_concat xs with rfl | ⟨ys, d, rfl⟩
    · cases hlink
    · exact ⟨ys, d, by rw [List.concat_eq_append]⟩
  rw [link_append_singleton] at hlink
  obtain rfl := Option.some.inj hlink
  obtain ⟨b, h₁, rfl, -⟩ := append.mp h
  refine append.mpr ⟨b, h₁.congr fun x hx => ?_, rfl, hc⟩
  refine hother x (List.mem_append_left _ hx) ?_
  rintro rfl
  exact (List.nodup_append.mp hnd).2.2 x hx x (by simp) rfl

end Seg

end BpfExamples
