import Mathlib.Algebra.Ring.Int.Defs
import Mathlib.Algebra.Ring.Nat
import Mathlib.Data.List.Nodup
import Mathlib.Data.List.Range
import Mathlib.Logic.Function.Basic
import Mathlib.Logic.Nontrivial.Basic
import Mathlib.Tactic.Common

/-!
# Copies between a store and scattered cells

Two ways of copying between a store that is addressed in a row and the cells of a list, in the
order of the list: `overwrite` puts values into the store, `scatter` puts values of the store
into the cells, where a cell that the list names twice keeps the last one.

Both tell lists apart: two lists of cells give the same copies for every content only if they
are equal (`overwrite_map_iff`, `scatter_iff`).
-/

namespace BpfExamples

universe u

variable {α : Type u}

/-- The store with the values from `o` on replaced. -/
def overwrite (f : Nat → α) (o : Nat) (l : List α) : Nat → α :=
  fun p => if o ≤ p then l[p - o]?.getD (f p) else f p

/-- The cells get the values of the store from `o` on, one after the other. -/
def scatter (src : Nat → α) : Nat → List Nat → (Nat → α) → Nat → α
  | _, [], mem => mem
  | o, a :: c, mem => scatter src (o + 1) c (Function.update mem a (src o))

/-! ## Copies in several parts -/

theorem overwrite_nil (f : Nat → α) (o : Nat) : overwrite f o [] = f := by
  funext p
  simp [overwrite]

theorem overwrite_append (f : Nat → α) (o : Nat) (l l' : List α) :
    overwrite f o (l ++ l') = overwrite (overwrite f o l) (o + l.length) l' := by
  funext p
  unfold overwrite
  by_cases h₀ : o ≤ p
  · rw [if_pos h₀, if_pos h₀]
    by_cases h₁ : o + l.length ≤ p
    · rw [if_pos h₁, List.getElem?_append_right (by omega), List.getElem?_eq_none (l := l)
        (by omega), Nat.sub_sub]
      rfl
    · rw [if_neg h₁, List.getElem?_append_left (by omega)]
  · rw [if_neg h₀, if_neg h₀, if_neg (by omega)]

theorem scatter_append (src : Nat → α) (c' : List Nat) :
    ∀ (o : Nat) (c : List Nat) (mem : Nat → α),
      scatter src o (c ++ c') mem = scatter src (o + c.length) c' (scatter src o c mem)
  | o, [], mem => rfl
  | o, a :: c, mem => by
    rw [List.cons_append, scatter, scatter, scatter_append src c' (o + 1) c, List.length_cons,
      Nat.add_assoc o 1, Nat.add_comm 1]

/-! ## What a cell holds -/

theorem scatter_of_notMem {a : Nat} (src : Nat → α) :
    ∀ {c : List Nat} (o : Nat) (mem : Nat → α), a ∉ c → scatter src o c mem a = mem a
  | [], o, mem, _ => rfl
  | b :: c, o, mem, h => by
    rw [List.mem_cons, not_or] at h
    rw [scatter, scatter_of_notMem src (o + 1) _ h.2, Function.update_of_ne h.1]

/-- A cell of the list has the value for its last place. -/
theorem scatter_of_mem {a : Nat} :
    ∀ {l : List Nat}, a ∈ l → ∃ x, l[x]? = some a ∧ (∀ y, l[y]? = some a → y ≤ x) ∧
      ∀ (src : Nat → α) (o : Nat) (mem : Nat → α), scatter src o l mem a = src (o + x)
  | b :: l, h => by
    by_cases hc : a ∈ l
    · obtain ⟨x, hx, hlast, hval⟩ := scatter_of_mem hc
      refine ⟨x + 1, hx, ?_, fun src o mem => ?_⟩
      · intro y hy
        cases y with
        | zero => exact Nat.zero_le _
        | succ y => exact Nat.succ_le_succ (hlast y hy)
      · rw [scatter, hval, Nat.add_assoc, Nat.add_comm 1]
    · obtain rfl : a = b := (List.mem_cons.mp h).resolve_right hc
      refine ⟨0, rfl, ?_, fun src o mem => ?_⟩
      · intro y hy
        cases y with
        | zero => exact Nat.le_refl 0
        | succ y => exact absurd (List.mem_of_getElem? (l := l) hy) hc
      · rw [scatter, scatter_of_notMem src _ _ hc, Function.update_self, Nat.add_zero]

/-! ## Telling lists of cells apart -/

section

variable [Nontrivial α]

/-- Contents tell cells apart. -/
theorem eq_of_contents {a b : Nat} (h : ∀ f : Nat → α, f a = f b) : a = b := by
  obtain ⟨u, v, huv⟩ := exists_pair_ne α
  by_contra hne
  have := h fun z => if z = a then u else v
  rw [if_pos rfl, if_neg (Ne.symm hne)] at this
  exact huv this

/-- Two stores have nothing to do with each other. -/
theorem not_contents (a b : Nat) : ¬ ∀ f g : Nat → α, f a = g b := by
  intro h
  obtain ⟨u, v, huv⟩ := exists_pair_ne α
  exact huv (h (fun _ => u) fun _ => v)

theorem overwrite_map_iff (o : Nat) (l s : List Nat) :
    (∀ f mem : Nat → α, overwrite f o (l.map mem) = overwrite f o (s.map mem)) ↔ l = s := by
  constructor
  · intro h
    refine List.ext_getElem? fun x => ?_
    have hx : ∀ f mem : Nat → α, (l[x]?.map mem).getD (f (o + x)) = (s[x]?.map mem).getD
        (f (o + x)) := by
      intro f mem
      have := congrFun (h f mem) (o + x)
      simpa [overwrite] using this
    cases hc : l[x]? with
    | none =>
      cases hs : s[x]? with
      | none => rfl
      | some b =>
        rw [hc, hs] at hx
        exact absurd hx (not_contents (o + x) b)
    | some a =>
      cases hs : s[x]? with
      | none =>
        rw [hc, hs] at hx
        exact absurd (fun f g => hx g f) (not_contents a (o + x))
      | some b =>
        rw [hc, hs] at hx
        exact congrArg some (eq_of_contents fun mem => hx mem mem)
  · rintro rfl f mem
    rfl

/-- The cells of `s` get the values in the order of `s`, and no other cell changes: only the
list itself does that. -/
theorem scatter_iff (o : Nat) {l s : List Nat} (hs : s.Nodup) :
    (∀ src mem : Nat → α, (∀ x a : Nat, s[x]? = some a → scatter src o l mem a = src (o + x)) ∧
      ∀ a, a ∉ s → scatter src o l mem a = mem a) ↔ l = s := by
  constructor
  · intro h
    -- a cell of `s` is written last at its place in `s`
    have hplace : ∀ x a : Nat, s[x]? = some a → l[x]? = some a ∧
        ∀ y, l[y]? = some a → y ≤ x := by
      intro x a hx
      have ha : a ∈ l := by
        by_contra ha
        refine not_contents (α := α) a (o + x) fun mem src => ?_
        rw [← (h src mem).1 x a hx, scatter_of_notMem src o mem ha]
      obtain ⟨y, hy, hlast, hval⟩ := scatter_of_mem (α := α) ha
      have hxy : o + y = o + x := eq_of_contents fun src : Nat → α => by
        rw [← hval src o src, (h src src).1 x a hx]
      obtain rfl : y = x := Nat.add_left_cancel hxy
      exact ⟨hy, hlast⟩
    have hmem : ∀ a, a ∈ l → a ∈ s := by
      intro a ha
      by_contra has
      obtain ⟨y, -, -, hval⟩ := scatter_of_mem (α := α) ha
      refine not_contents (α := α) (o + y) a fun src mem => ?_
      rw [← hval src o mem, (h src mem).2 a has]
    refine List.ext_getElem? fun x => ?_
    cases hx : s[x]? with
    | some a => exact (hplace x a hx).1
    | none =>
      -- a further cell of `l` would be written after its place in `s`
      by_contra hne
      obtain ⟨a, ha⟩ := Option.ne_none_iff_exists'.mp hne
      obtain ⟨z, hz⟩ := List.getElem?_of_mem (hmem a (List.mem_of_getElem? ha))
      have hxz := (hplace z a hz).2 x ha
      have hlt := (List.getElem?_eq_some_iff.mp hz).1
      exact absurd (List.getElem?_eq_none_iff.mp hx) (by omega)
  · rintro rfl src mem
    refine ⟨fun x a hx => ?_, fun a ha => scatter_of_notMem src o mem ha⟩
    obtain ⟨y, hy, -, hval⟩ := scatter_of_mem (α := α) (List.mem_of_getElem? hx)
    obtain ⟨hx₁, hx₂⟩ := List.getElem?_eq_some_iff.mp hx
    obtain ⟨hy₁, hy₂⟩ := List.getElem?_eq_some_iff.mp hy
    rw [hval, (List.Nodup.getElem_inj_iff hs).mp (hy₂.trans hx₂.symm)]

end

/-! ## Rows of cells -/

/-- Rows that start at the same places and, one behind the other, are the same cells have the
same lengths. -/
theorem rows_inj {β : Type u} (start len : β → Nat) {n : Nat} (hn : 0 < n) (l : List β)
    (hlen : ∀ b ∈ l, 0 < len b)
    (h : (l.flatMap fun b => List.range' (start b) n) = l.flatMap fun b =>
      List.range' (start b) (len b)) :
    ∀ b ∈ l, len b = n := by
  -- from the last row on, which ends where the other last row ends
  induction l using List.reverseRecOn with
  | nil => exact fun b hb => absurd hb List.not_mem_nil
  | append_singleton l b ih =>
    rw [List.flatMap_append, List.flatMap_append, List.flatMap_singleton,
      List.flatMap_singleton] at h
    have hpos := hlen b (List.mem_append_right _ (List.mem_singleton_self b))
    have hlast : ∀ {a k : Nat} (pre : List Nat), 0 < k → (pre ++ List.range' a k).getLast? =
        some (a + k - 1) := by
      intro a k pre hk
      obtain ⟨k, rfl⟩ := Nat.exists_eq_succ_of_ne_zero (Nat.ne_of_gt hk)
      rw [Nat.succ_eq_add_one, List.range'_concat, ← List.append_assoc, List.getLast?_concat]
      simp
    have heq : len b = n := by
      have := congrArg List.getLast? h
      rw [hlast _ hn, hlast _ hpos] at this
      have := Option.some.inj this
      omega
    rw [heq] at h
    have hrest := ih (fun b hb => hlen b (List.mem_append_left _ hb))
      (List.append_cancel_right h)
    intro c hc
    rcases List.mem_append.mp hc with hc | hc
    · exact hrest c hc
    · rw [List.mem_singleton.mp hc, heq]

end BpfExamples
