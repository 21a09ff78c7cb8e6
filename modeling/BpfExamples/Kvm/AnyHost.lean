import BpfExamples.Kvm.FdRuns
import BpfExamples.Kvm.MmapCalls

/-!
# The loader with any host

What holds of `sys_mmap` and `load_binary` whatever the host answers. Pages that are mapped lead
into a block of their own (`Extends`), so a block that the user did not see stays out of sight
(`Spreads`). All that is asked of the host is that a call that fails says why (`HostErrnos`).

- `sysMmap_any`: an error number, or pages where `mmap` has put them;
- `loadBinary_any`: an error, or the loader's buffer and what was mapped after it.
-/

namespace BpfExamples.Kvm

open Mem

variable {σ : Type} {s s₁ s' : Sys σ} {tabs blocks blocks₁ blocks' : List Extent}
  {leaf leaf₁ leaf' : Nat → Nat} {host : Host σ} {fd : Int}
  {addr len prot flags offset v n : Nat} {c : Extent}

/-! ## Error numbers -/

/-- A call that fails sets `errno`, which is an `int`. -/
structure HostErrnos (host : Host σ) : Prop where
  set : ∀ w call, (host w call).2.ret < 0 → 0 < (host w call).2.errno
  int : ∀ w call, (host w call).2.errno < 2 ^ 31

theorem fileHost_errnos (rfd : Int) (content : List UInt8) :
    HostErrnos (fileHost rfd content) := by
  have hall : ∀ w call,
      ((fileHost rfd content w call).2.ret < 0 → 0 < (fileHost rfd content w call).2.errno) ∧
      (fileHost rfd content w call).2.errno < 2 ^ 31 := by
    intro w call
    have hnone : (0 : Int) < 2 ^ 31 := by decide
    have hbad : 0 < eBADF ∧ eBADF < 2 ^ 31 := by decide
    unfold fileHost
    split
    · split
      · exact ⟨fun h => absurd h (Int.not_lt.mpr (Int.natCast_nonneg _)), hnone⟩
      · exact ⟨fun _ => hbad.1, hbad.2⟩
    · split
      · exact ⟨fun h => absurd h (Int.not_lt.mpr (Int.natCast_nonneg _)), hnone⟩
      · exact ⟨fun _ => hbad.1, hbad.2⟩
    · exact ⟨fun h => absurd h (Int.lt_irrefl 0), hnone⟩
  exact ⟨fun w call => (hall w call).1, fun w call => (hall w call).2⟩

/-- A negative `int`, extended to 64 bits. -/
def ErrorNumber (r : Nat) : Prop := ∃ e : Int, r = ofInt e ∧ -2 ^ 31 < e ∧ e < 0

theorem ErrorNumber.le {r : Nat} (h : ErrorNumber r) : 2 ^ 64 - 2 ^ 31 ≤ r := by
  obtain ⟨e, rfl, h₁, h₂⟩ := h
  unfold ofInt
  omega

theorem ErrorNumber.failed {r : Nat} (h : ErrorNumber r) : Failed r :=
  Nat.le_trans (by decide) h.le

theorem ErrorNumber.cut {r : Nat} (h : ErrorNumber r) : toInt32 r < 0 := by
  obtain ⟨e, rfl, h₁, h₂⟩ := h
  rw [toInt32, Int.bmod_def]
  unfold ofInt
  split <;> omega

theorem HostErrnos.resultOf_gt (hhost : HostErrnos host) (w : σ) (call : HostCall) :
    -2 ^ 31 < resultOf (host w call).2 := by
  have h := hhost.int w call
  unfold resultOf
  split <;> omega

/-- `hp_lseek` returns an `int`. -/
theorem hpLseek_int (hhost : HostErrnos host) (fd : Int) (off : Nat) (s : Sys σ) :
    Ends (hpLseek host fd off seekSet) s (fun ret _ => -2 ^ 31 < ret) fun _ _ => True := by
  have hhandler : ∀ {t g data a}, hpHandler .lseek t g data = .ok a →
      (∃ t', a = .answer t' (-eBADF)) ∨ ∃ call after, a = .host call after ∧
      ∀ r, (after r).2 = resultOf r := by
    intro t g data a h
    change hpHandleLseek t g data = .ok a at h
    unfold hpHandleLseek at h
    obtain ⟨-, -, h⟩ := bind_eq_ok.mp h
    obtain ⟨w₀, -, h⟩ := bind_eq_ok.mp h
    obtain ⟨w₁, -, h⟩ := bind_eq_ok.mp h
    obtain ⟨w₂, -, h⟩ := bind_eq_ok.mp h
    rcases processOnFd_ok h with ⟨-, rfl⟩ | ⟨-, call, -, rfl⟩
    · exact .inl ⟨_, rfl⟩
    · exact .inr ⟨call, _, rfl, fun _ => rfl⟩
  have hcall : ∀ s₁ pa, Ends (hypercall host .lseek pa) s₁ (fun ret _ => -2 ^ 31 < ret)
      fun _ _ => True := by
    intro s₁ pa
    refine (hypercall_spec (s := s₁) host .lseek pa (W := fun _ => True) (P :=
      fun ret => -2 ^ 31 < ret) ?_ ?_ fun _ _ _ _ _ _ _ _ => trivial).mono (fun _ _ h => h.1)
      fun _ _ _ => trivial
    · intro t ret h
      rcases hhandler h with ⟨t', ha⟩ | ⟨_, _, ha, -⟩
      · rw [(Action.answer.inj ha).2]
        decide
      · cases ha
    · intro call after h
      rcases hhandler h with ⟨t', ha⟩ | ⟨_, _, ha, hr⟩
      · cases ha
      · obtain ⟨-, rfl⟩ := Action.host.inj ha
        rw [hr]
        exact hhost.resultOf_gt _ _
  unfold hpLseek
  refine (ends_true _ s).bind fun kbuf s₁ _ => ?_
  refine (ends_true _ s₁).bind fun _ s₂ _ => (ends_true _ s₂).bind fun _ s₃ _ => ?_
  refine (ends_true _ s₃).bind fun _ s₄ _ => (ends_true _ s₄).bind fun pa s₅ _ => ?_
  refine (hcall s₅ pa).bind fun ret s₆ h => (ends_true _ s₆).bind fun _ s₇ _ => ends_pure.mpr h

/-! ## Pages in a block of their own -/

/-- One more block, and the pages `[v, v + n)` lead into it. -/
structure Extends (s' : Sys σ) (blocks : List Extent) (leaf : Nat → Nat) (v n prot : Nat)
    (c : Extent) : Prop where
  inv : KernelInv s'.heap (c :: blocks) (pageLeaves leaf v n (c.addr + 16) prot)
  user : InUser v n
  fits : 0x1000 * n + 16 ≤ c.size
  aligned : (c.addr + 16) % 0x1000 = 0

theorem Adds.extends {A : Area} (h : Adds s s' blocks leaf A c) :
    Extends s' blocks leaf A.page A.count A.prot c :=
  ⟨h.inv, h.user, h.fits, h.aligned⟩

/-- The heap is too small for more than 511 pages in one block. -/
theorem Extends.small (h : Extends s' blocks leaf v n prot c) : n < 0x200 := by
  have hb := h.inv.bounds (e := c) List.mem_cons_self
  have hfits := h.fits
  unfold Extent.fin at hb
  omega

/-- The leaf of a page in the range: it is present, and leads into the block. -/
theorem Extends.leaf_eq (h : Extends s' blocks leaf v n prot c) {q : Nat} (h₁ : v ≤ q)
    (h₂ : q < v + n) :
    ∃ p, 0x8000000000 + p = c.addr + 16 + 0x1000 * (q - v) ∧ p % 0x1000 = 0 ∧ p < 2 ^ 39 ∧
      pageLeaves leaf v n (c.addr + 16) prot q = leafWord (0x8000000000 + p) prot := by
  have hb := h.inv.bounds (e := c) List.mem_cons_self
  have hfits := h.fits
  have hal := h.aligned
  unfold Extent.fin at hb
  refine ⟨c.addr + 16 + 0x1000 * (q - v) - 0x8000000000, by omega, by omega, by omega, ?_⟩
  rw [pageLeaves, if_pos ⟨h₁, h₂⟩]
  exact congrArg (leafWord · prot) (by omega)

/-- **The bytes of new pages**, wherever they come from. -/
theorem fillPages_any (hhost : HostErrnos host)
    (h : Extends s blocks leaf v n (prot ||| protRW) c) (hpos : 0 < len)
    (hle : len ≤ 0x1000 * n) :
    Ends (fillPages host fd (0x1000 * v) len offset) s
      (fun ret s' => -2 ^ 31 < ret ∧ Extends s' blocks leaf v n (prot ||| protRW) c ∧
        s'.kernel.lastMmapped = s.kernel.lastMmapped) fun _ _ => True := by
  obtain ⟨tabs, rep⟩ := h.inv.rep
  have hb := h.inv.bounds (e := c) List.mem_cons_self
  have hfits := h.fits
  unfold Extent.fin at hb
  refine Ends.ite (fun _ => ?_) fun _ => ends_pure.mpr ⟨by decide, h, rfl⟩
  refine Ends.bind (((hpLseek_int hhost fd _ s).and (hpLseek_neutral host fd _ rep)).mono
    (fun _ _ h => h) fun _ _ _ => trivial) fun ret s₁ h₁ => ?_
  have he₁ : Extends s₁ blocks leaf v n (prot ||| protRW) c := { h with inv := h₁.2.rep.inv }
  refine Ends.ite (fun _ => ends_pure.mpr ⟨h₁.1, he₁, h₁.2.last⟩) fun _ => ?_
  have hown : BufferOwned (c :: blocks) (c.addr + 16 - 0x8000000000) len := by
    refine ⟨by omega, fun x h₁ h₂ => ⟨c, List.mem_cons_self, by omega, ?_⟩⟩
    unfold Extent.fin
    omega
  rw [ends_bind_of_ok (translate_newPages he₁.inv h.user h.fits h.aligned (by omega))]
  refine (hpRw_neutral host .read fd h₁.2.rep hown).bind fun _ s₂ h₂ =>
    ends_pure.mpr ⟨by decide, ?_, ?_⟩
  · exact { h with inv := h₂.2.rep.inv }
  · exact h₂.2.last.trans h₁.2.last

/-- **`sys_mmap`**: an error number, or pages where `mmap` puts them. The seek reports its error
with the pages mapped. -/
theorem sysMmap_any (hhost : HostErrnos host) (inv : KernelInv s.heap blocks leaf)
    (hlast : s.kernel.LastAligned) (hlen : len < 2 ^ 64) :
    Ends (sysMmap host addr len prot flags fd offset) s
      (fun r s' => r = ofInt (-eINVAL) ∨ r = ofInt (-eNOMEM) ∨
        ∃ t n c prot', 0 < len ∧ len ≤ 0x1000 * n ∧ alignup len = 0x1000 * n ∧
          chosenAddr s addr len flags = 0x1000 * t ∧
          Extends s' blocks leaf t n prot' c ∧ s'.kernel.lastMmapped =
            mmapLast s.kernel.lastMmapped (if hasFlag flags mapFixed then addr else 0)
              (alignup len) ∧
          (r = 0x1000 * t ∨ ErrorNumber r))
      fun _ _ => True := by
  rw [sysMmap_eq]
  refine (newPages_at inv hlast hlen).bind ?_
  rintro a s₁ (rfl | rfl | ⟨t, n, c, rfl, hn, hpos, hle, hadds, -, haddr, hnext⟩)
  · exact ends_pure.mpr (.inl rfl)
  · exact ends_pure.mpr (.inr (.inl rfl))
  · show Ends (finishMmap host fd (0x1000 * t) len (alignup len) prot offset) s₁ _ _
    refine (fillPages_any hhost hadds.extends hpos hle).bind fun ret s₂ h₂ => ?_
    obtain ⟨hint, hext, hsame⟩ := h₂
    refine Ends.ite (fun hneg => ?_) fun _ => ?_
    · exact ends_pure.mpr (.inr (.inr ⟨t, n, c, _, hpos, hle, hn, haddr, hext,
        hsame.trans hnext, .inr ⟨ret, rfl, hint, hneg⟩⟩))
    · obtain ⟨s₃, hdo, inv₃, -, -, hsame₃, -⟩ :=
        doMprotect_spec hext.inv hext.user hext.fits hext.aligned prot
      rw [hn, ends_bind_of_ok hdo, ends_pure]
      refine .inr (.inr ⟨t, n, c, prot, hpos, hle, rfl, ?_, { hext with inv := inv₃ },
        ?_, .inl rfl⟩)
      · exact haddr
      · rw [hsame₃, hsame, hnext, hn]

/-! ## Blocks that the user does not see -/

/-- No page leads to the chunk. -/
def Hidden (leaf : Nat → Nat) (b : Extent) : Prop :=
  ∀ a, Outside a → ∀ p, leafTranslate (leaf (a / 0x1000)) a false false = some p →
    ¬ b.Has (0x8000000000 + p)

/-- More blocks and more pages, which lead to none of the blocks before. -/
structure Spreads (s' : Sys σ) (blocks : List Extent) (leaf : Nat → Nat) (blocks' : List Extent)
    (leaf' : Nat → Nat) : Prop where
  inv : KernelInv s'.heap blocks' leaf'
  sub : blocks ⊆ blocks'
  hidden : ∀ b ∈ blocks, Hidden leaf b → Hidden leaf' b

theorem Spreads.refl (inv : KernelInv s.heap blocks leaf) : Spreads s blocks leaf blocks leaf :=
  ⟨inv, List.Subset.refl _, fun _ _ => id⟩

theorem Spreads.trans (h₁ : Spreads s₁ blocks leaf blocks₁ leaf₁)
    (h₂ : Spreads s' blocks₁ leaf₁ blocks' leaf') : Spreads s' blocks leaf blocks' leaf' :=
  ⟨h₂.inv, List.Subset.trans h₁.sub h₂.sub, fun b hb h => h₂.hidden b (h₁.sub hb)
    (h₁.hidden b hb h)⟩

theorem Extends.spreads (h : Extends s' blocks leaf v n prot c) :
    Spreads s' blocks leaf (c :: blocks) (pageLeaves leaf v n (c.addr + 16) prot) := by
  refine ⟨h.inv, List.subset_cons_self _ _, fun b hb hid a ha p hp hhas => ?_⟩
  by_cases hin : v ≤ a / 0x1000 ∧ a / 0x1000 < v + n
  · -- the page leads into the new block
    obtain ⟨p₀, hp₀, hmod, hlt, hleaf⟩ := h.leaf_eq hin.1 hin.2
    have hfits := h.fits
    rw [hleaf, leafTranslate_leafWord hmod hlt (.inr rfl), if_pos ⟨nofun, nofun⟩] at hp
    obtain rfl := Option.some.inj hp
    have hap := (List.pairwise_cons.mp h.inv.apart).1 b hb
    exact hap.not_has (a := 0x8000000000 + (p₀ + a % 0x1000))
      ⟨by omega, by unfold Extent.fin; omega⟩ hhas
  · rw [pageLeaves, if_neg hin] at hp
    exact hid a ha p hp hhas

theorem Laid.spreads {l : List Area} (h : Laid l s blocks leaf s' blocks' leaf')
    (inv : KernelInv s.heap blocks leaf) : Spreads s' blocks leaf blocks' leaf' := by
  induction h with
  | nil => exact .refl inv
  | cons first _ ih => exact first.extends.spreads.trans (ih first.inv)

/-! ## `load_binary` -/

/-- A word that is read has the bytes it was read from. -/
theorem peekLE_any (k : Nat) :
    ∀ v, Ends (peekLE v k) s (fun x s' => s' = s ∧ x < 256 ^ k) fun _ _ => True := by
  induction k with
  | zero => exact fun v => ends_pure.mpr ⟨rfl, Nat.one_pos⟩
  | succ k ih =>
    intro v
    refine Ends.bind ((still_peek v s).mono (fun _ _ h => h) fun _ _ _ => trivial)
      fun b s₁ h₁ => ?_
    obtain rfl : s₁ = s := h₁
    refine (ih (v + 1)).bind fun rest s₂ h₂ => ends_pure.mpr ⟨h₂.1, ?_⟩
    have hb := b.toNat_lt
    have hrest := h₂.2
    rw [Nat.pow_succ]
    omega

theorem field_any (buf off k : Nat) :
    Ends (field buf off k) s (fun x s' => s' = s ∧ x < 256 ^ k) fun _ _ => True :=
  Ends.ite (fun _ => peekLE_any k _) fun _ => ends_throw.mpr trivial

theorem sameBytes_any (buf : Nat) (l : List Nat) :
    ∀ i, Ends (sameBytes buf l i) s (fun _ s' => s' = s) fun _ _ => True := by
  induction l with
  | nil => exact fun i => ends_pure.mpr rfl
  | cons c l ih =>
    intro i
    refine (field_any buf i 1).bind fun b s₁ h₁ => ?_
    obtain rfl := h₁.1
    exact Ends.ite (fun _ => ih (i + 1)) fun _ => ends_pure.mpr rfl

/-- The header is turned down with an error number, or the image is loaded at a page. -/
theorem checkHeader_any (buf : Nat) (p : Process) :
    Ends (checkHeader buf p) s
      (fun r s' => s' = s ∧ (∀ e, r.1 = .error e → e < 0) ∧ ∀ k, r.1 = .ok k →
        r.2.loadAddr % 0x1000 = 0)
      fun _ _ => True := by
  have herror : ∀ {e : Int} {p' : Process} {s₁ : Sys σ}, s₁ = s → e < 0 →
      Ends (pure (.error e, p') : KernelM σ (Except Int Nat × Process)) s₁
        (fun r s' => s' = s ∧ (∀ e, r.1 = .error e → e < 0) ∧ ∀ k, r.1 = .ok k →
          r.2.loadAddr % 0x1000 = 0)
        fun _ _ => True := fun hs he =>
    ends_pure.mpr ⟨hs, fun _ h => Except.error.inj h ▸ he, nofun⟩
  refine (sameBytes_any buf elfIdent 0).bind fun same s₁ h₁ => ?_
  obtain rfl := h₁
  refine Ends.ite (fun _ => herror rfl (by decide)) fun _ => ?_
  refine (field_any buf 24 8).bind fun entry s₂ h₂ => ?_
  obtain rfl := h₂.1
  refine (field_any buf 16 2).bind fun type s₃ h₃ => ?_
  obtain rfl := h₃.1
  refine Ends.ite (fun _ => herror rfl (by decide)) fun _ => ?_
  refine (field_any buf 32 8).bind fun phoff s₄ h₄ => ?_
  obtain rfl := h₄.1
  refine Ends.ite (fun _ => herror rfl (by decide)) fun _ => ?_
  refine (field_any buf 54 2).bind fun phentsize s₅ h₅ => ?_
  obtain rfl := h₅.1
  refine Ends.ite (fun _ => herror rfl (by decide)) fun _ => ?_
  refine (field_any buf 56 2).bind fun phnum s₆ h₆ => ?_
  obtain rfl := h₆.1
  refine Ends.ite (fun _ => herror rfl (by decide)) fun _ => ?_
  refine ends_pure.mpr ⟨rfl, nofun, fun _ _ => ?_⟩
  show (if type = etDyn then 0x555555554000 else 0) % 0x1000 = 0
  split <;> rfl

theorem readPhdr_any (buf base : Nat) :
    Ends (readPhdr buf base) s (fun ph s' => s' = s ∧ ph.Words) fun _ _ => True := by
  refine (field_any buf (base + 4) 4).bind fun f₁ s₁ h₁ => ?_
  obtain rfl := h₁.1
  refine (field_any buf (base + 8) 8).bind fun f₂ s₂ h₂ => ?_
  obtain rfl := h₂.1
  refine (field_any buf (base + 16) 8).bind fun f₃ s₃ h₃ => ?_
  obtain rfl := h₃.1
  refine (field_any buf (base + 32) 8).bind fun f₄ s₄ h₄ => ?_
  obtain rfl := h₄.1
  refine (field_any buf (base + 40) 8).bind fun f₅ s₅ h₅ => ?_
  exact ends_pure.mpr ⟨h₅.1, h₂.2, h₃.2, h₄.2, h₅.2⟩

/-- What a step of the loader leaves behind when it goes on. -/
def GoesOn (s' : Sys σ) (blocks : List Extent) (leaf : Nat → Nat) : Prop :=
  LastOk s' ∧ ∃ blocks' leaf', Spreads s' blocks leaf blocks' leaf'

theorem GoesOn.after (h₁ : Spreads s₁ blocks leaf blocks₁ leaf₁)
    (h₂ : GoesOn s' blocks₁ leaf₁) : GoesOn s' blocks leaf := by
  obtain ⟨hlast, blocks', leaf', h₂⟩ := h₂
  exact ⟨hlast, blocks', leaf', h₁.trans h₂⟩

/-- How a step of the loader ends: with an error, or it goes on. -/
def StepEnds (blocks : List Extent) (leaf : Nat → Nat) (ret : Option Int) (s' : Sys σ) : Prop :=
  (∃ e, ret = some e ∧ e < 0) ∨ ret = none ∧ GoesOn s' blocks leaf

theorem loadBss_any (inv : KernelInv s.heap blocks leaf) (hlast : LastOk s) {load : Nat}
    (hload : load % 0x1000 = 0) {ph : Phdr} (hed : ph.ed load ≠ 0) :
    Ends (loadBss load ph) s (StepEnds blocks leaf) fun _ _ => True := by
  refine (loadBss_spec inv hlast hload hed).mono ?_ fun _ _ _ => trivial
  rintro ret s' (⟨-, rfl⟩ | ⟨-, hends⟩)
  · exact .inl ⟨_, rfl, by decide⟩
  · generalize hv : ph.bssVerdict load = verdict at hends
    cases hends with
    | loads h =>
      obtain ⟨⟨blocks', leaf', hl⟩, hlast'⟩ := h
      exact .inr ⟨rfl, hlast', blocks', leaf', hl.spreads inv⟩
    | rejects e => exact .inl ⟨e, rfl, (Phdr.bssVerdict_rejects hv).2⟩
    | bad h => exact .inl ⟨_, rfl, h⟩

/-- **One segment.** -/
theorem loadSegment_any (hhost : HostErrnos host) (inv : KernelInv s.heap blocks leaf)
    (hlast : LastOk s) {load : Nat} (hload : load % 0x1000 = 0) {ph : Phdr} (hw : ph.Words) :
    Ends (loadSegment host fd load ph) s (StepEnds blocks leaf) fun _ _ => True := by
  have hpage := Phdr.st_page hload ph
  have haligned : s.kernel.LastAligned := hlast.imp id fun h => by rw [h]
  have hstop : ∀ {e : Int} {s₁ : Sys σ}, e < 0 → -4095 ≤ e → Ends (if ofInt e ≠ ph.st load then
      pure (some (toInt32 (ofInt e : Nat))) else loadBss load ph) s₁ (StepEnds blocks leaf)
      fun _ _ => True := fun h₁ h₂ => by
    have hmod := ofInt_neg_mod h₂ h₁
    rw [if_pos (by omega), ends_pure]
    exact .inl ⟨_, rfl, by rwa [toInt32_ofInt_neg h₂ h₁]⟩
  refine (sysMmap_any hhost inv haligned ph.fileLen_lt).bind ?_
  rintro r s₁ (rfl | rfl | ⟨t, n, c, prot, hpos, hle, hn, haddr, hext, hnext, hr⟩)
  · exact hstop (by decide) (by decide)
  · exact hstop (by decide) (by decide)
  have hsmall := hext.small
  have huser := hext.user
  have hfixed : (if hasFlag mapFixed mapFixed = true then ph.st load else 0) = ph.st load := rfl
  rw [chosenAddr, hfixed, hn] at haddr
  rw [hfixed] at hnext
  obtain ⟨hu₁, hu₂, -⟩ := hext.user
  by_cases hzero : ph.st load = 0
  · -- the kernel has chosen, which is not what the loader asked for
    rw [hzero, show 0 = 0x1000 * 0 from rfl, mmapAddr_eq hlast (by omega)] at haddr
    have hcut : r ≠ ph.st load ∧ toInt32 r < 0 := by
      rw [hzero]
      rcases hr with rfl | hr
      · rw [← haddr]
        exact ⟨(target_zero hsmall).1, (target_zero hsmall).2⟩
      · exact ⟨by have := hr.le; omega, hr.cut⟩
    rw [if_pos hcut.1, ends_pure]
    exact .inl ⟨_, rfl, hcut.2⟩
  · have hst : ph.st load = 0x1000 * t := by
      rw [← haddr, mmapAddr, if_neg hzero]
    rcases hr with rfl | hr
    · rw [if_neg (fun h => h hst.symm)]
      have hpages : ph.st load / 0x1000 = t ∧ alignup ph.fileLen / 0x1000 = n := by omega
      have hed := Phdr.ed_ne_zero_of_user hw hload hpos (by omega) (by omega)
        (by rw [hpages.1, hpages.2]; exact huser)
      have hlast₁ : LastOk s₁ := .inr (by rw [hnext, hst, mmapLast_eq hlast (by omega)])
      refine (loadBss_any hext.inv hlast₁ hload hed).mono (fun ret s₂ h => ?_) fun _ _ h => h
      exact h.imp_right fun h => ⟨h.1, h.2.after hext.spreads⟩
    · rw [if_pos (by have := hr.le; omega), ends_pure]
      exact .inl ⟨_, rfl, hr.cut⟩

/-- **The loop over the program headers.** -/
theorem loadSegments_any (hhost : HostErrnos host) {load : Nat} (hload : load % 0x1000 = 0)
    (buf k : Nat) :
    ∀ (i : Nat) {s : Sys σ} {blocks : List Extent} {leaf : Nat → Nat},
      KernelInv s.heap blocks leaf → LastOk s →
      Ends (loadSegments host fd load buf k i) s (StepEnds blocks leaf) fun _ _ => True := by
  induction k with
  | zero =>
    exact fun i s blocks leaf inv hlast =>
      ends_pure.mpr (.inr ⟨rfl, hlast, blocks, leaf, .refl inv⟩)
  | succ k ih =>
    intro i s blocks leaf inv hlast
    refine (field_any buf _ 4).bind fun type s₁ h₁ => ?_
    obtain rfl := h₁.1
    refine Ends.ite (fun _ => ?_) fun _ => ih (i + 1) inv hlast
    refine (readPhdr_any buf _).bind fun ph s₂ h₂ => ?_
    obtain rfl := h₂.1
    refine (loadSegment_any hhost inv hlast hload h₂.2).bind ?_
    rintro ret s₃ (⟨e, rfl, he⟩ | ⟨rfl, hlast₃, blocks₃, leaf₃, h₃⟩)
    · exact ends_pure.mpr (.inl ⟨e, rfl, he⟩)
    · exact (ih (i + 1) h₃.inv hlast₃).mono (fun ret s₄ h => h.imp_right fun h =>
        ⟨h.1, h.2.after h₃⟩) fun _ _ h => h

/-- **`load_binary`**: an error, or the loader has its buffer `b` and the program is mapped
after it. -/
theorem loadBinary_any (hhost : HostErrnos host) (fd : Int)
    (rep : KernelRep s.heap tabs blocks leaf) (hlast : LastOk s) (p : Process) :
    Ends (loadBinary host fd p) s
      (fun r s' => r.1 < 0 ∨ ∃ (s₁ : Sys σ) (b : Extent),
        KernelRep s₁.heap tabs (b :: blocks) leaf ∧ 0x1010 ≤ b.size ∧
        GoesOn s' (b :: blocks) leaf)
      fun _ _ => True := by
  refine Ends.bind ((doKmalloc_spec rep bufSize (.inl rfl)).mono (fun _ _ h => h)
    fun _ _ _ => trivial) ?_
  rintro buf s₁ (⟨b, rfl, ht⟩ | ⟨rfl, -⟩ | ⟨rfl, -⟩)
  · obtain ⟨q, hq, hroom, hbuf, -⟩ := ht.buffer
    have hphys : ofExec (physical (b.addr + 16)) s₁ = .ok q s₁ := by
      rw [hq, physical_window (by omega)]
      rfl
    have hsize : 0x1010 ≤ b.size := ht.alloc.fits
    rw [ends_bind_of_ok hphys]
    refine (hpRw_neutral host .read fd ht.alloc.rep hbuf).bind fun _ s₂ h₂ => ?_
    have hlast₂ : LastOk s₂ := hlast.imp (fun h => (h₂.2.last.trans ht.last).trans h) fun h =>
      (h₂.2.last.trans ht.last).trans h
    refine (checkHeader_any (b.addr + 16) p).bind ?_
    rintro ⟨phnum, p'⟩ s₃ ⟨rfl, herr, hload⟩
    cases phnum with
    | error e => exact ends_pure.mpr (.inl (herr e rfl))
    | ok phnum =>
      refine (loadSegments_any hhost (hload phnum rfl) _ phnum 0 h₂.2.rep.inv hlast₂).bind ?_
      rintro ret s₄ (⟨e, rfl, he⟩ | ⟨rfl, hlast₄, blocks₄, leaf₄, h₄⟩)
      · exact ends_pure.mpr (.inl he)
      · refine (setUpStack_spec h₄.inv hlast₄ p').mono ?_ fun _ _ _ => trivial
        rintro r s₅ ⟨-, ⟨-, hr⟩ | ⟨-, ⟨c, ha⟩, hlast₅⟩⟩
        · exact .inl (hr ▸ by decide)
        · exact .inr ⟨s₁, b, ht.alloc.rep, hsize, hlast₅, _, _, h₄.trans ha.extends.spreads⟩
  · rw [ends_bind_of_error (physical_zero s₁)]
    trivial
  · rw [ends_bind_of_error (physical_zero s₁)]
    trivial

end BpfExamples.Kvm
