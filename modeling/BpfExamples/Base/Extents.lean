import Mathlib.Algebra.Ring.Int.Defs
import Mathlib.Algebra.Ring.Nat
import Mathlib.Data.List.Basic
import Mathlib.Data.List.Pairwise
import Mathlib.Data.List.Perm.Basic
import Mathlib.Tactic.Common

/-!
# Extents and tilings

An extent is a half-open range of addresses. A list of extents *tiles*
`[lo, hi)` when its members are non-empty, pairwise apart, inside the range,
and leave no address of it uncovered. The four edits an allocator makes to a
tiling are lemmas here: growing it at the top, giving the topmost extent back,
cutting one extent in two, and listing the extents in another order.
-/

namespace BpfExamples

/-- The range `[addr, addr + size)`. -/
structure Extent where
  addr : Nat
  size : Nat
deriving DecidableEq, Repr

namespace Extent

/-- One past the last address. -/
def fin (e : Extent) : Nat := e.addr + e.size

/-- Membership of an address. -/
def Has (e : Extent) (a : Nat) : Prop := e.addr ≤ a ∧ a < e.fin

/-- Two extents share no address. -/
def Apart (e f : Extent) : Prop := e.fin ≤ f.addr ∨ f.fin ≤ e.addr

instance (e f : Extent) : Decidable (Apart e f) := inferInstanceAs (Decidable (_ ∨ _))

theorem Apart.symm {e f : Extent} (h : e.Apart f) : f.Apart e := Or.symm h

instance : Std.Symm Apart := ⟨fun _ _ h => h.symm⟩

/-- Apart extents have no common address. -/
theorem Apart.not_has {e f : Extent} (h : e.Apart f) {a : Nat} (he : e.Has a) :
    ¬ f.Has a := by
  unfold Apart at h
  unfold Has at he ⊢
  omega

/-- Distinct members of a pairwise-apart list are apart. -/
theorem apart_of_mem {l : List Extent} (hp : l.Pairwise Apart) {e f : Extent}
    (he : e ∈ l) (hf : f ∈ l) (hne : e ≠ f) : e.Apart f :=
  hp.forall he hf hne

end Extent

/-- `l` tiles `[lo, hi)`. -/
structure Tiles (lo hi : Nat) (l : List Extent) : Prop where
  le : lo ≤ hi
  pos : ∀ e ∈ l, 0 < e.size
  apart : l.Pairwise Extent.Apart
  inside : ∀ e ∈ l, lo ≤ e.addr ∧ e.fin ≤ hi
  cover : ∀ a, lo ≤ a → a < hi → ∃ e ∈ l, e.Has a

namespace Tiles

variable {lo hi : Nat} {l l' : List Extent} {e : Extent}

theorem nil (lo : Nat) : Tiles lo lo [] where
  le := Nat.le_refl lo
  pos := by simp
  apart := List.Pairwise.nil
  inside := by simp
  cover a h₁ h₂ := by omega

/-- The order of the extents does not matter. -/
theorem perm (h : Tiles lo hi l) (hp : l.Perm l') : Tiles lo hi l' where
  le := h.le
  pos f hf := h.pos f (hp.mem_iff.mpr hf)
  apart := (hp.pairwise_iff fun hxy => hxy.symm).mp h.apart
  inside f hf := h.inside f (hp.mem_iff.mpr hf)
  cover a h₁ h₂ := by
    obtain ⟨f, hf, ha⟩ := h.cover a h₁ h₂
    exact ⟨f, hp.mem_iff.mp hf, ha⟩

/-- Growing the tiled range by one extent at its top. -/
theorem push (h : Tiles lo hi l) {n : Nat} (hn : 0 < n) :
    Tiles lo (hi + n) (⟨hi, n⟩ :: l) where
  le := by have := h.le; omega
  pos := by
    intro f hf
    rcases List.mem_cons.mp hf with rfl | hf
    · exact hn
    · exact h.pos f hf
  apart := by
    refine List.pairwise_cons.mpr ⟨fun f hf => ?_, h.apart⟩
    exact .inr (h.inside f hf).2
  inside := by
    intro f hf
    rcases List.mem_cons.mp hf with rfl | hf
    · exact ⟨h.le, Nat.le_refl _⟩
    · have := h.inside f hf
      omega
  cover a h₁ h₂ := by
    by_cases ha : a < hi
    · obtain ⟨f, hf, hfa⟩ := h.cover a h₁ ha
      exact ⟨f, List.mem_cons_of_mem _ hf, hfa⟩
    · exact ⟨_, List.mem_cons_self, Nat.le_of_not_lt ha, h₂⟩

/-- Giving the topmost extent back. -/
theorem pop (h : Tiles lo hi (e :: l)) (htop : e.fin = hi) : Tiles lo e.addr l := by
  have hap := List.pairwise_cons.mp h.apart
  have hin : ∀ f ∈ l, lo ≤ f.addr ∧ f.fin ≤ e.addr := by
    intro f hf
    have hf' := h.inside f (List.mem_cons_of_mem _ hf)
    have hpos := h.pos f (List.mem_cons_of_mem _ hf)
    refine ⟨hf'.1, ?_⟩
    rcases hap.1 f hf with hef | hfe
    · -- an extent above `e` would stick out of the range
      unfold Extent.fin at *
      omega
    · exact hfe
  refine ⟨(h.inside e List.mem_cons_self).1, fun f hf => h.pos f (List.mem_cons_of_mem _ hf),
    hap.2, hin, fun a h₁ h₂ => ?_⟩
  obtain ⟨f, hf, hfa⟩ := h.cover a h₁ (by unfold Extent.fin at htop; omega)
  rcases List.mem_cons.mp hf with rfl | hf
  · exact absurd hfa.1 (by omega)
  · exact ⟨f, hf, hfa⟩

/-- Cutting one extent in two. -/
theorem split (h : Tiles lo hi (e :: l)) {n : Nat} (hn : 0 < n) (hlt : n < e.size) :
    Tiles lo hi (⟨e.addr, n⟩ :: ⟨e.addr + n, e.size - n⟩ :: l) := by
  have hap := List.pairwise_cons.mp h.apart
  have hein := h.inside e List.mem_cons_self
  refine ⟨h.le, ?_, ?_, ?_, fun a h₁ h₂ => ?_⟩
  · intro f hf
    rcases List.mem_cons.mp hf with rfl | hf
    · exact hn
    rcases List.mem_cons.mp hf with rfl | hf
    · exact Nat.sub_pos_of_lt hlt
    · exact h.pos f (List.mem_cons_of_mem _ hf)
  · refine List.pairwise_cons.mpr ⟨fun f hf => ?_,
      List.pairwise_cons.mpr ⟨fun f hf => ?_, hap.2⟩⟩
    · rcases List.mem_cons.mp hf with rfl | hf
      · exact .inl (Nat.le_refl _)
      · have := hap.1 f hf
        unfold Extent.Apart Extent.fin at *
        simp only at *
        omega
    · have := hap.1 f hf
      unfold Extent.Apart Extent.fin at *
      simp only at *
      omega
  · intro f hf
    rcases List.mem_cons.mp hf with rfl | hf
    · unfold Extent.fin at *
      simp only
      omega
    rcases List.mem_cons.mp hf with rfl | hf
    · unfold Extent.fin at *
      simp only
      omega
    · exact h.inside f (List.mem_cons_of_mem _ hf)
  · obtain ⟨f, hf, hfa⟩ := h.cover a h₁ h₂
    rcases List.mem_cons.mp hf with rfl | hf
    · by_cases ha : a < f.addr + n
      · exact ⟨_, List.mem_cons_self, hfa.1, ha⟩
      · refine ⟨_, List.mem_cons_of_mem _ List.mem_cons_self, Nat.le_of_not_lt ha, ?_⟩
        have := hfa.2
        unfold Extent.fin at *
        simp only
        omega
    · exact ⟨f, List.mem_cons_of_mem _ (List.mem_cons_of_mem _ hf), hfa⟩

/-- No two extents of a tiling start at the same address. -/
theorem nodup_addr (h : Tiles lo hi l) : (l.map Extent.addr).Nodup := by
  refine List.pairwise_map.mpr (h.apart.imp_of_mem fun {e f} he hf hap => ?_)
  have hpe := h.pos e he
  have hpf := h.pos f hf
  unfold Extent.Apart Extent.fin at hap
  omega

/-- Taking the lowest extent away. -/
theorem bottom (h : Tiles lo hi (e :: l)) (hlo : e.addr = lo) : Tiles e.fin hi l := by
  have hap := List.pairwise_cons.mp h.apart
  refine ⟨(h.inside e List.mem_cons_self).2, fun f hf => h.pos f (List.mem_cons_of_mem _ hf),
    hap.2, fun f hf => ?_, fun a h₁ h₂ => ?_⟩
  · have hf' := h.inside f (List.mem_cons_of_mem _ hf)
    have hpos := h.pos f (List.mem_cons_of_mem _ hf)
    refine ⟨?_, hf'.2⟩
    rcases hap.1 f hf with hef | hfe
    · exact hef
    · unfold Extent.fin at hfe
      omega
  · have he := h.pos e List.mem_cons_self
    obtain ⟨f, hf, hfa⟩ := h.cover a (by unfold Extent.fin at h₁; omega) h₂
    rcases List.mem_cons.mp hf with rfl | hf
    · exact absurd hfa.2 (Nat.not_lt.mpr h₁)
    · exact ⟨f, hf, hfa⟩

/-- A range that is not empty has a lowest extent. -/
theorem first (h : Tiles lo hi l) (hlt : lo < hi) : ∃ e l', l.Perm (e :: l') ∧ e.addr = lo := by
  obtain ⟨e, he, hlo⟩ := h.cover lo (Nat.le_refl lo) hlt
  have hin := h.inside e he
  exact ⟨e, l.erase e, List.perm_cons_erase he, Nat.le_antisymm hlo.1 hin.1⟩

/-- Below the top an extent is followed by another one. -/
theorem next (h : Tiles lo hi l) (he : e ∈ l) (hlt : e.fin < hi) : ∃ f ∈ l, f.addr = e.fin := by
  have hin := h.inside e he
  have hpos := h.pos e he
  obtain ⟨f, hf, hhas⟩ := h.cover e.fin (by unfold Extent.fin; omega) hlt
  have hne : e ≠ f := by
    rintro rfl
    exact Nat.lt_irrefl _ hhas.2
  refine ⟨f, hf, ?_⟩
  have hap := Extent.apart_of_mem h.apart he hf hne
  unfold Extent.Apart Extent.Has Extent.fin at *
  omega

theorem eq_nil (h : Tiles lo lo l) : l = [] := by
  refine List.eq_nil_iff_forall_not_mem.mpr fun e he => ?_
  have hin := h.inside e he
  have hpos := h.pos e he
  unfold Extent.fin at hin
  omega

/-- The extents are as long as the range together. -/
theorem sum_size (h : Tiles lo hi l) : lo + (l.map Extent.size).sum = hi := by
  induction hn : l.length generalizing lo l with
  | zero =>
    obtain rfl := List.length_eq_zero_iff.mp hn
    rcases Nat.lt_or_eq_of_le h.le with hlt | heq
    · obtain ⟨e, he, -⟩ := h.cover lo (Nat.le_refl lo) hlt
      cases he
    · exact heq
  | succ n ih =>
    have hlt : lo < hi := by
      rcases Nat.lt_or_eq_of_le h.le with hlt | rfl
      · exact hlt
      · rw [h.eq_nil] at hn
        cases hn
    obtain ⟨e, l', hp, rfl⟩ := h.first hlt
    have hlen : l'.length = n := by
      have := hp.length_eq
      rw [List.length_cons] at this
      omega
    have hrest := ih ((h.perm hp).bottom rfl) hlen
    rw [(hp.map Extent.size).sum_nat, List.map_cons, List.sum_cons]
    unfold Extent.fin at hrest
    omega

end Tiles

end BpfExamples
