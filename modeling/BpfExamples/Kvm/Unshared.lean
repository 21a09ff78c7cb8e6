import BpfExamples.Kvm.AnyHost
import BpfExamples.Kvm.InitialStack
import BpfExamples.Kvm.MmapPages

/-!
# No byte is mapped twice

Each page that the user gets is in a block of its own, so no two of the user's addresses lead to
the same byte (`Unshared`). For the pages themselves the invariant is `Separate`: their physical
pages begin in blocks, and no two are the same. Every area that is laid down keeps it, from the
arguments' page on, and so does every `sys_mmap`, whatever it returns.

A page may well end behind its block, as that of the arguments does: what is there belongs to
others, but to none of the user's pages.
-/

namespace BpfExamples.Kvm

open Mem

variable {σ : Type} {s s' : Sys σ} {tabs blocks used used' : List Extent}
  {leaf leaf' : Nat → Nat} {host : Host σ}

/-- No two addresses of the program lead to the same byte. -/
def Unshared (m : Mem) : Prop :=
  ∀ v v' p, Outside v → Outside v' → translateWalk m v true false = some p →
    translateWalk m v' true false = some p →
    v = v'

/-- It is a matter of the leaves. -/
theorem Unshared.congr (h : Unshared s.mem) (inv : KernelInv s.heap used leaf)
    (inv' : KernelInv s'.heap used' leaf) : Unshared s'.mem := by
  intro v v' p hv hv' hp hp'
  have hwalk : ∀ v, Outside v → translateWalk s'.mem v true false =
    translateWalk s.mem v true false := fun v hv =>
    inv.walk_congr inv' hv.2.1 rfl true false
  rw [hwalk _ hv] at hp
  rw [hwalk _ hv'] at hp'
  exact h v v' p hv hv' hp hp'

/-! ## The pages of the user -/

/-- The page `q` is mapped to the physical page at `p`. -/
def MappedTo (leaf : Nat → Nat) (q p : Nat) : Prop :=
  leafTranslate (leaf q) 0 false false = some p

/-- The physical pages of the user begin in blocks, and each is mapped once. -/
structure Separate (blocks : List Extent) (leaf : Nat → Nat) : Prop where
  aligned : ∀ q p, MappedTo leaf q p → p % 0x1000 = 0
  inside : ∀ q p, MappedTo leaf q p → Payload blocks (0x8000000000 + p)
  once : ∀ q q' p, MappedTo leaf q p → MappedTo leaf q' p → q = q'

/-- If it is mapped, the page `q` is in blocks from its start to its end. -/
def Whole (blocks : List Extent) (leaf : Nat → Nat) (q : Nat) : Prop :=
  ∀ p, MappedTo leaf q p → ∀ i, i < 0x1000 → Payload blocks (0x8000000000 + p + i)

/-- An address is an offset in its page. -/
theorem mappedTo_of_translate {v p : Nat} {u w : Bool}
    (h : leafTranslate (leaf (v / 0x1000)) v u w = some p) :
    ∃ f, MappedTo leaf (v / 0x1000) f ∧ p = f + v % 0x1000 := by
  unfold leafTranslate at h
  split at h
  · next hc =>
    refine ⟨_, if_pos ⟨hc.1, fun h => Bool.noConfusion h, fun h => Bool.noConfusion h⟩, ?_⟩
    rw [Nat.zero_mod, Nat.add_zero]
    exact (Option.some.inj h).symm
  · cases h

theorem Separate.unshared (h : Separate blocks leaf) (inv : KernelInv s.heap used leaf) :
    Unshared s.mem := by
  intro v v' p hv hv' hp hp'
  rw [show translateWalk s.mem v true false = _ from inv.walk_user hv true false] at hp
  rw [show translateWalk s.mem v' true false = _ from inv.walk_user hv' true false] at hp'
  obtain ⟨f, hf, rfl⟩ := mappedTo_of_translate hp
  obtain ⟨f', hf', heq⟩ := mappedTo_of_translate hp'
  have hal := h.aligned _ _ hf
  have hal' := h.aligned _ _ hf'
  obtain rfl : f = f' := by omega
  have hpage := h.once _ _ _ hf hf'
  omega

theorem Separate.mono {blocks' : List Extent} (h : Separate blocks leaf)
    (hsub : blocks ⊆ blocks') : Separate blocks' leaf where
  aligned := h.aligned
  inside q p hq :=
    let ⟨e, he, hin⟩ := h.inside q p hq
    ⟨e, hsub he, hin⟩
  once := h.once

section

variable {v n prot q p : Nat} {c : Extent} (h : Extends s' blocks leaf v n prot c)
  (hp : MappedTo (pageLeaves leaf v n (c.addr + 16) prot) q p)

include h hp

/-- New pages are those of their block, -/
theorem Extends.mappedTo_of_mem (h₁ : v ≤ q) (h₂ : q < v + n) :
    0x8000000000 + p = c.addr + 16 + 0x1000 * (q - v) := by
  obtain ⟨f, hcell, hmod, hlt, hleaf⟩ := h.leaf_eq h₁ h₂
  rw [MappedTo, hleaf, leafTranslate_leafWord hmod hlt (.inr rfl),
    if_pos ⟨fun h => Bool.noConfusion h, fun h => Bool.noConfusion h⟩, Option.some.injEq] at hp
  omega

omit h in
/-- and the others stay. -/
theorem Extends.mappedTo_of_notMem (hq : ¬ (v ≤ q ∧ q < v + n)) : MappedTo leaf q p := by
  rwa [MappedTo, pageLeaves, if_neg hq] at hp

end

section

variable {v n prot : Nat} {c : Extent} (h : Extends s' blocks leaf v n prot c)

include h

/-- **More pages**, in a block of their own. -/
theorem Extends.separate (hsep : Separate blocks leaf) :
    Separate (c :: blocks) (pageLeaves leaf v n (c.addr + 16) prot) := by
  obtain ⟨tabs, rep⟩ := h.inv.rep
  have hal := h.aligned
  have hfits := h.fits
  have hb := h.inv.bounds (e := c) List.mem_cons_self
  -- a new page is not one of those that were there
  have hapart : ∀ q q' p, v ≤ q ∧ q < v + n →
      ¬ (v ≤ q' ∧ q' < v + n) → MappedTo (pageLeaves leaf v n (c.addr + 16) prot) q p →
      ¬ MappedTo (pageLeaves leaf v n (c.addr + 16) prot) q' p := by
    intro q q' p hq hq' hp hp'
    have hcell := h.mappedTo_of_mem hp hq.1 hq.2
    have hout := rep.head_apart (hsep.inside q' p (Extends.mappedTo_of_notMem hp' hq'))
    unfold Extent.fin at hout
    omega
  refine ⟨fun q p hp => ?_, fun q p hp => ?_, fun q q' p hp hp' => ?_⟩
  · by_cases hq : v ≤ q ∧ q < v + n
    · have := h.mappedTo_of_mem hp hq.1 hq.2
      omega
    · exact hsep.aligned q p (Extends.mappedTo_of_notMem hp hq)
  · by_cases hq : v ≤ q ∧ q < v + n
    · have hcell := h.mappedTo_of_mem hp hq.1 hq.2
      exact ⟨c, List.mem_cons_self, by omega, by unfold Extent.fin; omega⟩
    · obtain ⟨e, he, hin⟩ := hsep.inside q p (Extends.mappedTo_of_notMem hp hq)
      exact ⟨e, List.mem_cons_of_mem c he, hin⟩
  · by_cases hq : v ≤ q ∧ q < v + n <;> by_cases hq' : v ≤ q' ∧ q' < v + n
    · have h₁ := h.mappedTo_of_mem hp hq.1 hq.2
      have h₂ := h.mappedTo_of_mem hp' hq'.1 hq'.2
      omega
    · exact absurd hp' (hapart q q' p hq hq' hp)
    · exact absurd hp (hapart q' q p hq' hq hp')
    · exact hsep.once q q' p (Extends.mappedTo_of_notMem hp hq)
        (Extends.mappedTo_of_notMem hp' hq')

/-- All of them are in the block. -/
theorem Extends.whole {q : Nat} (hq : Whole blocks leaf q) :
    Whole (c :: blocks) (pageLeaves leaf v n (c.addr + 16) prot) q := by
  intro p hp i hi
  by_cases hin : v ≤ q ∧ q < v + n
  · have hcell := h.mappedTo_of_mem hp hin.1 hin.2
    have hfits := h.fits
    exact ⟨c, List.mem_cons_self, by omega, by unfold Extent.fin; omega⟩
  · obtain ⟨e, he, hpay⟩ := hq p (Extends.mappedTo_of_notMem hp hin) i hi
    exact ⟨e, List.mem_cons_of_mem c he, hpay⟩

end

theorem Laid.separate {l : List Area} {blocks' : List Extent}
    (h : Laid l s blocks leaf s' blocks' leaf') (hsep : Separate blocks leaf) :
    Separate blocks' leaf' := by
  induction h with
  | nil => exact hsep
  | cons first _ ih => exact ih (first.extends.separate hsep)

theorem Laid.whole {l : List Area} {blocks' : List Extent}
    (h : Laid l s blocks leaf s' blocks' leaf') {q : Nat} (hq : Whole blocks leaf q) :
    Whole blocks' leaf' q := by
  induction h with
  | nil => exact hq
  | cons first _ ih => exact ih (first.extends.whole hq)

/-- The arguments' page, before there is any other. -/
theorem mappedTo_argument {q p : Nat} (hp : MappedTo argumentLeaf q p) :
    q = 0x201 ∧ p = 0x201000 := by
  unfold MappedTo argumentLeaf at hp
  by_cases hq : q = 0x201
  · rw [hq, Function.update_self, leafTranslate_leafWord (by decide) (by decide) (.inl rfl),
      if_pos ⟨fun _ => rfl, fun _ => rfl⟩] at hp
    exact ⟨hq, (Option.some.inj hp).symm⟩
  · rw [Function.update_of_ne hq] at hp
    cases hp

theorem separate_argument {len : Nat} (hlen : 0 < len) :
    Separate [argumentBlock len] argumentLeaf := by
  obtain ⟨-, hge, -⟩ := alignupTo_spec (len + 16)
  refine ⟨fun q p hp => by rw [(mappedTo_argument hp).2], fun q p hp => ?_,
    fun q q' p hp hp' => ?_⟩
  · rw [(mappedTo_argument hp).2]
    refine ⟨_, List.mem_cons_self, show 0x8000200ff0 + 16 ≤ _ by omega, ?_⟩
    show _ < 0x8000200ff0 + alignupTo (len + 16) 0x80
    omega
  · rw [(mappedTo_argument hp).1, (mappedTo_argument hp').1]

/-! ## Runs of `sys_mmap` -/

section

variable {addr len prot flags offset : Nat} {fd : Int}

/-- Where the arguments of `sys_mmap` are turned down, nothing has happened. -/
theorem newPages_invalid (inv : KernelInv s.heap blocks leaf) (hlast : s.kernel.LastAligned)
    (hlen : len < 2 ^ 64) :
    Ends (newPages addr len prot flags) s
      (fun a s₁ => a = .error (-eINVAL) ∧ s₁ = s ∨ a = .error (-eNOMEM) ∨
        s₁.kernel.LastAligned ∧
        ∃ t n c, a = .ok (0x1000 * t) ∧ alignup len = 0x1000 * n ∧ 0 < len ∧ len ≤ 0x1000 * n ∧
          Extends s₁ blocks leaf t n (prot ||| protRW) c)
      fun _ _ => True := by
  have hsame : Ends (newPages addr len prot flags) s (fun a s₁ => a = .error (-eINVAL) → s₁ = s)
      fun _ _ => True := by
    refine Ends.ite (fun _ => ends_pure.mpr fun _ => rfl) fun _ => (ends_true _ s).bind
      fun a s₁ _ => ?_
    exact Ends.ite (fun _ => ends_pure.mpr fun h => by cases h) fun _ => ends_pure.mpr
      fun h => by cases h
  refine ((hsame.and (newPages_lastAligned addr len prot flags hlast)).and
    (newPages_at inv hlast hlen)).mono ?_ fun _ _ _ => trivial
  rintro a s₁ ⟨⟨hsame, hlast₁⟩, ha | ha | ⟨t, n, c, ha, hn, hpos, hle, hadds, -⟩⟩
  · exact .inl ⟨ha, hsame ha⟩
  · exact .inr (.inl ha)
  · exact .inr (.inr ⟨hlast₁, t, n, c, ha, hn, hpos, hle, hadds.extends⟩)

/-- **`sys_mmap`**, whatever it returns: nothing, or more pages in a block of their own, unless
memory is short. -/
theorem sysMmap_extends (hhost : HostErrnos host) (inv : KernelInv s.heap blocks leaf)
    (hlast : s.kernel.LastAligned) (hlen : len < 2 ^ 64) :
    Ends (sysMmap host addr len prot flags fd offset) s
      (fun r s' => s' = s ∨ r = ofInt (-eNOMEM) ∨ s'.kernel.LastAligned ∧
        ∃ t n prot' c, Extends s' blocks leaf t n prot' c)
      fun _ _ => True := by
  rw [sysMmap_eq]
  refine (newPages_invalid inv hlast hlen).bind ?_
  rintro a s₁ (⟨rfl, rfl⟩ | rfl | ⟨hlast₁, t, n, c, rfl, hn, hpos, hle, hext⟩)
  · exact ends_pure.mpr (.inl rfl)
  · exact ends_pure.mpr (.inr (.inl rfl))
  · show Ends (finishMmap host fd (0x1000 * t) len (alignup len) prot offset) s₁ _ _
    refine (fillPages_any hhost hext hpos hle).bind fun ret s₂ h₂ => ?_
    obtain ⟨-, hext₂, hsame⟩ := h₂
    have hlast₂ : s₂.kernel.LastAligned := by
      unfold Kernel.LastAligned at hlast₁ ⊢
      rwa [hsame]
    refine Ends.ite (fun _ => ends_pure.mpr (.inr (.inr ⟨hlast₂, t, n, _, c, hext₂⟩))) fun _ =>
      ?_
    obtain ⟨s₃, hdo, inv₃, -, -, hsame₃, -⟩ :=
      doMprotect_spec hext₂.inv hext₂.user hext₂.fits hext₂.aligned prot
    rw [hn, ends_bind_of_ok hdo, ends_pure]
    refine .inr (.inr ⟨?_, t, n, prot, c, { hext₂ with inv := inv₃ }⟩)
    unfold Kernel.LastAligned at hlast₂ ⊢
    rwa [hsame₃]

end

/-- A call of `sys_mmap` that comes back, and not for lack of memory. -/
def MmapReturns (host : Host σ) (s s' : Sys σ) : Prop :=
  ∃ addr len prot flags fd offset r, len < 2 ^ 64 ∧
    sysMmap host addr len prot flags fd offset s = .ok r s' ∧ r ≠ ofInt (-eNOMEM)

/-- The user's pages are each in a block of their own. -/
def Orderly (s : Sys σ) : Prop :=
  s.kernel.LastAligned ∧ ∃ blocks leaf, KernelInv s.heap blocks leaf ∧ Separate blocks leaf

theorem Orderly.mmap (hhost : HostErrnos host) (h : Orderly s) (hstep : MmapReturns host s s') :
    Orderly s' := by
  obtain ⟨hlast, blocks, leaf, inv, hsep⟩ := h
  obtain ⟨addr, len, prot, flags, fd, offset, r, hlen, hrun, hr⟩ := hstep
  rcases (ends_of_ok hrun).mp (sysMmap_extends hhost inv hlast hlen) with rfl | hmem |
    ⟨hlast', t, n, prot', c, hext⟩
  · exact ⟨hlast, blocks, leaf, inv, hsep⟩
  · exact absurd hmem hr
  · exact ⟨hlast', _, _, hext.inv, hext.separate hsep⟩

/-- **No mapping aliases another.** In every run of calls of `sys_mmap` with any arguments and
any host, successful or not, as long as none of them runs out of memory, no two of the user's
addresses come to lead to the same byte. -/
theorem mmapRun_unshared (host : Host σ) (hhost : HostErrnos host) (s₀ s : Sys σ)
    (h₀ : Orderly s₀) (hrun : Relation.ReflTransGen (MmapReturns host) s₀ s) :
    Unshared s.mem := by
  obtain ⟨-, blocks, leaf, inv, hsep⟩ : Orderly s := by
    induction hrun with
    | refl => exact h₀
    | tail _ hstep ih => exact ih.mmap hhost hstep
  exact hsep.unshared inv

/-- A kernel that has just booted maps a page of a file. -/
theorem mmapRun_unshared_boot :
    ∃ (k : Kernel) (s : Sys Nat), Booted k ∧
      Relation.ReflTransGen (MmapReturns (fileHost 0 helloElf)) (Sys.start k 0) s ∧
      Unshared s.mem := by
  obtain ⟨k, hk, hlast, s', c, hrun, -⟩ := sysMmap_boot helloElf 0
  have h₀ : Orderly (Sys.start k (0 : Nat)) := by
    have hnone : ∀ q p, ¬ MappedTo (fun _ => 0) q p := fun q p h => by cases h
    exact ⟨hlast, [], fun _ => 0, booted_empty hk, fun q p h => absurd h (hnone q p),
      fun q p h => absurd h (hnone q p), fun q q' p h _ => absurd h (hnone q p)⟩
  have hstep : Relation.ReflTransGen (MmapReturns (fileHost 0 helloElf)) (Sys.start k 0) s' :=
    .single ⟨_, _, _, _, _, _, _, by decide, hrun, by unfold ofInt; decide⟩
  exact ⟨k, s', hk, hstep, mmapRun_unshared _ (fileHost_errnos 0 helloElf) _ s' h₀ hstep⟩

end BpfExamples.Kvm
