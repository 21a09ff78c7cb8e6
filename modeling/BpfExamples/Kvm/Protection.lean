import BpfExamples.Kvm.PagingRuns

/-!
# `mprotect` in every run

The leaf words behind `mprotect`, seen through `translate`. The kernel may have
lost its own entries by then (`kernelMappings_lost`): what `mprotect` does to the
user's pages does not depend on them, and it does not change them.

- `KernelInv.present_iff`: the pages `mprotect` may change are the user pages
  that are mapped;
- `KernelInv.reprotected`: what a page of the range becomes;
- `mprotect_permissions`: all of it, for every state of every run.
-/

namespace BpfExamples.Kvm

open Mem

variable {h h' : Heap} {blocks blocks' : List Extent} {leaf leaf' : Nat → Nat} {b : Bool}
  {a : Nat}

/-- What a user address translates to, whatever stands above its low 48 bits. -/
theorem KernelInv.translate_user (inv : KernelInv h blocks leaf b) (ha : Outside (a % 2 ^ 48))
    (u w : Bool) :
    translate h.mem a u w = (leafTranslate (leaf (a % 2 ^ 48 / 0x1000)) a u w).getD
      minusOne := by
  have hoff : a % 2 ^ 48 % 0x1000 = a % 0x1000 := by omega
  rw [translate, translateWalk_mod, inv.walk_user ha, leafTranslate, leafTranslate, hoff]

/-- A user page is mapped where its leaf is present. -/
theorem KernelInv.mapped_iff (inv : KernelInv h blocks leaf b) (ha : Outside (a % 2 ^ 48)) :
    translate h.mem a false false ≠ minusOne ↔ leaf (a % 2 ^ 48 / 0x1000) % 2 = 1 := by
  rw [inv.translate_user ha]
  cases hleaf : leafTranslate (leaf (a % 2 ^ 48 / 0x1000)) a false false with
  | none =>
    constructor
    · exact fun h => absurd rfl h
    · intro hp
      rw [leafTranslate,
        if_pos ⟨hp, fun h => Bool.noConfusion h, fun h => Bool.noConfusion h⟩] at hleaf
      cases hleaf
  | some p =>
    constructor
    · intro _
      by_contra hp
      rw [leafTranslate, if_neg fun h => hp h.1] at hleaf
      cases hleaf
    · exact fun _ => leafTranslate_ne_minusOne hleaf

theorem KernelInv.present_iff (inv : KernelInv h blocks leaf b) (v : Nat) :
    Present leaf v ↔ userMemRangeOk v = true ∧ translate h.mem v false false ≠ minusOne := by
  refine and_congr_right fun hv => ?_
  have hout := outside_of_userMemRangeOk hv
  have hmod : v % 2 ^ 48 = v := Nat.mod_eq_of_lt hout.2.1
  rw [inv.mapped_iff (by rw [hmod]; exact hout), hmod]

/-- Translations depend on the leaf of the page alone, and those of the kernel's own pages on
none. -/
theorem KernelInv.translate_same (inv : KernelInv h blocks leaf b)
    (inv' : KernelInv h' blocks' leaf' b)
    (hleaf : Outside (a % 2 ^ 48) → leaf' (a % 2 ^ 48 / 0x1000) = leaf (a % 2 ^ 48 / 0x1000))
    (u w : Bool) : translate h'.mem a u w = translate h.mem a u w := by
  have hlt : a % 2 ^ 48 < 2 ^ 48 := Nat.mod_lt a (by decide)
  by_cases ha : Outside (a % 2 ^ 48)
  · rw [inv.translate_user ha, inv'.translate_user ha, hleaf ha]
  · rw [translate, translate, translateWalk_mod h'.mem, translateWalk_mod h.mem,
      inv.walk_kernel_congr inv' hlt ha]

/-- What `mprotect` makes of an address of its range: mapped where it was, and open to the user
as far as `prot` allows. A page that the user may write is one that it may read. -/
structure Reprotected (m m' : Mem) (prot a : Nat) : Prop where
  same : translate m' a false false = translate m a false false
  readable : translate m' a true false ≠ minusOne ↔ hasFlag prot protR = true
  writable : translate m' a true true ≠ minusOne ↔ hasFlag prot protR = true ∧
    hasFlag prot protW = true

theorem KernelInv.reprotected (inv : KernelInv h blocks leaf b)
    (inv' : KernelInv h' blocks' leaf' b) (ha : Outside (a % 2 ^ 48))
    (hmapped : translate h.mem a false false ≠ minusOne) {prot : Nat}
    (hleaf : leaf' (a % 2 ^ 48 / 0x1000) = leafModified (leaf (a % 2 ^ 48 / 0x1000)) prot) :
    Reprotected h.mem h'.mem prot a := by
  have hp := (inv.mapped_iff ha).mp hmapped
  have hall : ∀ u w, translate h'.mem a u w =
      if (u = true → hasFlag prot protR = true) ∧ (w = true → hasFlag prot protW = true) then
        translate h.mem a false false else minusOne := by
    intro u w
    rw [inv'.translate_user ha, inv.translate_user ha, hleaf,
      leafTranslate_leafModified (inv.leaf_lt _) hp]
    split <;> rfl
  refine ⟨?_, ?_, ?_⟩
  · rw [hall]
    exact if_pos ⟨nofun, nofun⟩
  · rw [hall]
    by_cases hr : hasFlag prot protR = true <;> simp [hr, hmapped]
  · rw [hall]
    by_cases hr : hasFlag prot protR = true <;> by_cases hw : hasFlag prot protW = true <;>
      simp [hr, hw, hmapped]

/-- **`mprotect` changes permissions and nothing else.** In every state of every run, for a
range that starts at a page: it returns 0 if and only if every page of the range is a mapped
user page; then each of them has the new permissions at its old place, and every other page
translates as before. No call at all changes what a kernel page translates to. -/
theorem mprotect_permissions (k : Kernel) (hr : Kernel.Reachable (fun _ _ => True) k)
    (addr len prot : Nat) :
    ∃ k' ret, mprotect k addr len prot = (k', ret) ∧
      (addr % 0x1000 = 0 →
        (ret = 0 ↔ ∀ j, j < (len + 0xfff) / 0x1000 → userMemRangeOk (pageAt addr 0 j) = true ∧
          translate k.heap.mem (pageAt addr 0 j) false false ≠ minusOne) ∧
        (ret = 0 → ∀ a,
          (AmongPages addr 0 ((len + 0xfff) / 0x1000) (a % 2 ^ 48 / 0x1000) →
            Reprotected k.heap.mem k'.heap.mem prot a) ∧
          (¬ AmongPages addr 0 ((len + 0xfff) / 0x1000) (a % 2 ^ 48 / 0x1000) →
            ∀ u w, translate k'.heap.mem a u w = translate k.heap.mem a u w))) ∧
      ∀ a, userMemRangeOk (a % 2 ^ 48) = false →
        ∀ u w, translate k'.heap.mem a u w = translate k.heap.mem a u w := by
  obtain ⟨blocks, leaf, b, inv⟩ := hr.usable
  obtain ⟨m, ret, leaf', heq, inv', -, hdone⟩ := mprotect_spec inv addr len prot
  refine ⟨_, ret, heq, fun hal => ?_, fun a ha u w => ?_⟩
  · obtain ⟨hret, hleaf⟩ := hdone hal
    refine ⟨hret.trans (forall₂_congr fun j _ => inv.present_iff _),
      fun h0 a => ⟨?_, fun hnot u w => ?_⟩⟩
    · rintro ⟨j, hj, hpage⟩
      obtain ⟨hv, hp⟩ := hret.mp h0 j hj
      have hvout := outside_of_userMemRangeOk hv
      have hlt : a % 2 ^ 48 < 2 ^ 48 := Nat.mod_lt a (by decide)
      have hout : Outside (a % 2 ^ 48) := by
        unfold Outside at *
        omega
      refine inv.reprotected inv' hout ((inv.mapped_iff hout).mpr (by rw [hpage]; exact hp)) ?_
      rw [hleaf h0, protLeaves_of_among (inv.leaf_lt _) ⟨j, hj, hpage⟩]
    · refine inv.translate_same inv' (fun _ => ?_) u w
      rw [hleaf h0, protLeaves_of_not hnot]
  · refine inv.translate_same inv' (fun hout => ?_) u w
    rw [userMemRangeOk_iff.mpr hout] at ha
    cases ha

/-- A page that was mapped for writing is made read-only. -/
theorem mprotect_permissions_page :
    ∃ k k', Kernel.Reachable (fun _ _ => True) k ∧ mprotect k 0x400000 0x1000 protR = (k', 0) ∧
      translate k.heap.mem 0x400123 true true ≠ minusOne ∧
        translate k'.heap.mem 0x400123 true true = minusOne ∧
      translate k'.heap.mem 0x400123 true false ≠ minusOne := by
  obtain ⟨k₀, hk, inv₀, -, harena, -⟩ := kernelBoot_spec (m := fun _ => 0) fun _ _ _ => rfl
  rcases addTransUser_spec inv₀ (v := 0x400000) (by decide) 0x300000 protRW with ⟨h₁, hok,
    inv, -⟩ | ⟨-, hroom⟩
  · have hboot : Booted k₀ := ⟨_, fun _ _ _ => rfl, hk⟩
    have hstep : k₀.step (.addTransUser 0x400000 0x300000 protRW) =
        .ok { k₀ with heap := h₁ } := by
      rw [Kernel.step, hok]
      rfl
    have hr : Kernel.Reachable (fun _ _ => True) { k₀ with heap := h₁ } :=
      .step (.start hboot) trivial hstep
    -- the page at 0x300000, for any address in it
    have hpage : ∀ a, a / 0x1000 = 0x400 →
        ∀ u w, translate h₁.mem a u w = 0x300000 + a % 0x1000 := by
      intro a ha u w
      have hmod : a % 2 ^ 48 / 0x1000 = 0x400 := by omega
      rw [inv.translate_user (by unfold Outside; omega), hmod, Function.update_self,
        leafTranslate_leafWord (p := 0x300000) (by decide) (by decide) (.inl rfl),
        if_pos ⟨fun _ => by decide, fun _ => by decide⟩]
      rfl
    obtain ⟨k', ret, heq, hall, -⟩ := mprotect_permissions _ hr 0x400000 0x1000 protR
    obtain ⟨hret, hdone⟩ := hall (by decide)
    obtain rfl : ret = 0 := hret.mpr fun j hj => by
      obtain rfl : j = 0 := by omega
      refine ⟨by decide, ?_⟩
      rw [hpage _ (by decide)]
      decide
    have hprot := (hdone rfl 0x400123).1 ⟨0, by decide, by decide⟩
    refine ⟨_, k', hr, heq, ?_, ?_, hprot.readable.mpr (by decide)⟩
    · rw [hpage _ (by decide)]
      decide
    · by_contra hne
      exact absurd (hprot.writable.mp hne).2 (by decide)
  · rw [harena] at hroom
    exact absurd hroom (by decide)

end BpfExamples.Kvm
