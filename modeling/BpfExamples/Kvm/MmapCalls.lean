import BpfExamples.Kvm.FileOffsets
import BpfExamples.Kvm.Neutral

/-!
# `sys_mmap` with any arguments

What holds of `sys_mmap` whatever it is called with, and whatever the host answers.

- `sysMmap_validates_iff`: its checks keep it from the panics of `mmap` and `add_trans_user`
  where the length does not wrap to nothing and the whole range is the user's; the checks
  themselves only look at the first address.
- `sysMmap_failed_iff`: an error leaves the address space as it was unless it comes from the
  file, when the pages are mapped already, or from a request that is turned down and has cleared
  the page tables.
-/

namespace BpfExamples.Kvm

open Mem

variable {σ α : Type} {s s₁ s' : Sys σ} {tabs blocks : List Extent} {leaf : Nat → Nat}
  {host : Host σ} {fd : Int} {addr len prot flags offset : Nat}

/-! ## Panics over a mapping -/

/-- The panics of `mmap` and `add_trans_user` over what they are asked to map. -/
def Stop.ofMapping : Stop → Bool
  | .panic .mmapLength | .panic .addTransNotAllowed | .panic .addTransInvalid => true
  | _ => false

/-- Any other end of a routine. -/
abbrev Elsewhere (e : Stop) : Prop := e.ofMapping = false

theorem insertSortedFrom_elsewhere (m : Mem) (size : Nat) (fuel : Nat) :
    ∀ prev now, FailsIn Elsewhere (insertSortedFrom m size fuel prev now) := by
  induction fuel with
  | zero => exact fun _ _ => .error rfl
  | succ fuel ih =>
    intro prev now
    exact .ite (ih _ _) (.ok _)

theorem insertSorted_elsewhere (h : Heap) (c : Nat) : FailsIn Elsewhere (insertSorted h c) := by
  unfold insertSorted
  refine FailsIn.bind (insertSortedFrom_elsewhere _ _ _ _ _) ?_
  rintro ⟨prev, now⟩
  exact .ok _

theorem memsetFrom_elsewhere (sp : Space) (b : Nat) (c : UInt8) (n : Nat) :
    ∀ i m, FailsIn Elsewhere (memsetFrom sp b c n i m) := by
  induction n with
  | zero => exact fun _ _ => .ok _
  | succ n ih =>
    intro i m
    rw [memsetFrom]
    split
    · exact .error rfl
    · exact ih _ _

theorem fetchChunk_elsewhere (sp : Space) (h : Heap) (nb : Nat) (prev : Option Nat)
    (now : Nat) : FailsIn Elsewhere (fetchChunk sp h nb prev now) := by
  unfold fetchChunk splitChunk memset
  refine FailsIn.bind (.ite (.ok _) (insertSorted_elsewhere _ _)) fun h₁ => ?_
  exact FailsIn.bind (memsetFrom_elsewhere _ _ _ _ _ _) fun m => .ok _

theorem fetchSortedBinFrom_elsewhere (sp : Space) (h : Heap) (nb : Nat) (fuel : Nat) :
    ∀ prev now, FailsIn Elsewhere (fetchSortedBinFrom sp h nb fuel prev now) := by
  induction fuel with
  | zero => exact fun _ _ => .error rfl
  | succ fuel ih =>
    intro prev now
    rw [fetchSortedBinFrom]
    split
    · exact .ok _
    · split
      · exact .error rfl
      · split
        · exact fetchChunk_elsewhere sp h nb prev now
        · exact ih _ _

theorem kfree_elsewhere (h : Heap) (mem : Nat) : FailsIn Elsewhere (kfree h mem) := by
  unfold kfree
  dsimp only
  split
  · exact .ok _
  · split
    · exact .error rfl
    · split
      · exact .ok _
      · exact insertSorted_elsewhere _ _

theorem fetchSortedBin_elsewhere (sp : Space) (h : Heap) (nb : Nat) :
    FailsIn Elsewhere (fetchSortedBin sp h nb) := by
  unfold fetchSortedBin
  generalize walkFuel = fuel
  exact fetchSortedBinFrom_elsewhere sp h nb fuel _ _

theorem intKmalloc_elsewhere (sp : Space) (h : Heap) (nb align : Nat) :
    FailsIn Elsewhere (intKmalloc sp h nb align) := by
  have hbin := fetchSortedBin_elsewhere sp h nb
  unfold intKmalloc
  -- the loop is not to be unrolled, nor the gap computed
  generalize fetchSortedBin sp h nb = x at hbin ⊢
  generalize consume h.arena.top align = skip
  split
  · exact hbin.bind fun r => .ite (.ok _) (.ok _)
  · refine .ite (.error rfl) (.ite (.ok _) ?_)
    generalize mallocTop h skip = r
    obtain ⟨h₁, gap⟩ := r
    exact .ite (.ok _) (FailsIn.bind (kfree_elsewhere _ _) fun _ => .ok _)

theorem onHeap_elsewhere {f : Heap → Exec (Heap × α)} (hf : ∀ h, FailsIn Elsewhere (f h)) :
    StopsIn Elsewhere (onHeap f : KernelM σ α) := by
  intro s
  cases h : f s.heap with
  | ok r =>
    have heq : onHeap f s = .ok r.2 (s.setHeap r.1 fun x => r.1.mem x ≠ s.mem x) := by
      simp only [onHeap, h]
    exact (ends_of_ok heq).mpr trivial
  | error e =>
    have heq : onHeap f s = .error e s := by simp only [onHeap, h]
    exact (ends_of_error heq).mpr (hf _ e h)

theorem poke_elsewhere (v : Nat) (b : UInt8) :
    StopsIn Elsewhere (poke v b : KernelM σ Unit) := by
  intro s
  cases hc : cellAt s.mem true v with
  | some c => exact (ends_of_ok (poke_of_cell hc)).mpr trivial
  | none => exact (ends_of_error (poke_of_none hc)).mpr rfl

theorem pokeLE_elsewhere (n : Nat) :
    ∀ v x, StopsIn Elsewhere (pokeLE v n x : KernelM σ Unit) := by
  induction n with
  | zero => exact fun _ _ => .pure _
  | succ n ih => exact fun v x => (poke_elsewhere v _).bind fun _ => ih _ _

theorem doMemsetFrom_elsewhere (b : Nat) (c : UInt8) (n : Nat) :
    ∀ i, StopsIn Elsewhere (doMemsetFrom b c n i : KernelM σ Unit) := by
  induction n with
  | zero => exact fun _ => .pure _
  | succ n ih => exact fun i => (poke_elsewhere _ _).bind fun _ => ih _

theorem doKmalloc_elsewhere (len align : Nat) :
    StopsIn Elsewhere (doKmalloc len align : KernelM σ Nat) := by
  refine .ite (.pure _) ((onHeap_elsewhere fun h => intKmalloc_elsewhere _ _ _ _).bind
    fun victim => ?_)
  refine .ite (.throw rfl) (StopsIn.bind (fun s => (ends_of_ok (x := note _) rfl).mpr trivial)
    fun _ => ?_)
  exact (doMemsetFrom_elsewhere _ _ _ _).bind fun _ => .pure _

theorem doKfree_elsewhere (p : Nat) : StopsIn Elsewhere (doKfree p : KernelM σ Unit) := by
  refine onHeap_elsewhere fun h e he => kfree_elsewhere h p e ?_
  cases hk : kfree h p with
  | ok h' =>
    rw [hk] at he
    cases he
  | error e' =>
    rw [hk] at he
    cases he
    rfl

theorem physical_elsewhere (v : Nat) :
    StopsIn Elsewhere (ofExec (physical v) : KernelM σ Nat) := by
  intro s
  unfold physical
  split
  · exact (ends_of_ok (x := ofExec (.ok _)) rfl).mpr trivial
  · exact (ends_of_error (x := ofExec (.error _)) rfl).mpr rfl

theorem hypercall_elsewhere (host : Host σ) (nr : HpNr) (data : Nat) :
    StopsIn Elsewhere (hypercall host nr data) := by
  intro s
  refine (hypercall_spec (s := s) host nr data (W := fun _ => True) (P := fun _ => True)
    (fun _ _ _ => trivial) (fun _ _ _ => trivial) fun _ _ _ _ _ _ _ _ => trivial).mono
    (fun _ _ _ => trivial) fun e _ h => ?_
  rw [h.1]
  rfl

theorem hpLseek_elsewhere (host : Host σ) (fd : Int) (off : Nat) (whence : Int) :
    StopsIn Elsewhere (hpLseek host fd off whence) :=
  (doKmalloc_elsewhere _ _).bind fun _ => (pokeLE_elsewhere _ _ _).bind fun _ =>
    (pokeLE_elsewhere _ _ _).bind fun _ =>
    (pokeLE_elsewhere _ _ _).bind fun _ => (physical_elsewhere _).bind fun _ =>
      (hypercall_elsewhere _ _ _).bind fun _ =>
    (doKfree_elsewhere _).bind fun _ => .pure _

theorem hpRead_elsewhere (host : Host σ) (fd : Int) (paddr n : Nat) :
    StopsIn Elsewhere (hpRead host fd paddr n) :=
  (doKmalloc_elsewhere _ _).bind fun _ => (pokeLE_elsewhere _ _ _).bind fun _ =>
    (pokeLE_elsewhere _ _ _).bind fun _ =>
    (pokeLE_elsewhere _ _ _).bind fun _ => (physical_elsewhere _).bind fun _ =>
      (hypercall_elsewhere _ _ _).bind fun _ =>
    (doKfree_elsewhere _).bind fun _ => .pure _

/-- **Behind `mmap`** no routine panics over a mapping. -/
theorem afterPages_elsewhere (host : Host σ) (fd : Int) (len prot offset : Nat)
    (a : Except Int Nat) : StopsIn Elsewhere (afterPages host fd len prot offset a) := by
  cases a with
  | error e => exact .pure _
  | ok a =>
    have hmem : ∀ f : Mem → Nat, StopsIn Elsewhere (onMem f : KernelM σ Nat) := fun f s =>
      (ends_of_ok (x := onMem f) rfl).mpr trivial
    have hfill : StopsIn Elsewhere (fillPages host fd a len offset) := by
      refine .ite ((hpLseek_elsewhere _ _ _ _).bind fun _ => .ite (.pure _) ?_) (.pure _)
      exact (hmem _).bind fun _ => (hpRead_elsewhere _ _ _ _).bind fun _ => .pure _
    have hprot : StopsIn Elsewhere (doMprotect a (alignup len) prot : KernelM σ Int) := fun s =>
      (ends_of_ok (x := doMprotect a (alignup len) prot) rfl).mpr trivial
    exact hfill.bind fun _ => .ite (.pure _) (hprot.bind fun _ => .pure _)

/-! ## What the checks of `sys_mmap` are worth -/

/-- The call can go on behind its checks: the length is one, and it is more than `kmalloc` takes
or all of the range is the user's. -/
def Mappable (s : Sys σ) (addr len flags : Nat) : Prop :=
  alignup len ≠ 0 ∧
    (2 ^ 32 ≤ alignup len ∨ InUserRange (chosenAddr s addr len flags) 0 (alignup len / 0x1000))

/-- No request for memory is turned down on the way. -/
def MemoryHolds (x : KernelM σ α) (s : Sys σ) : Prop :=
  Ends x s (fun _ s' => s'.refused = false) fun _ s' => s'.refused = false

/-- **What `sys_mmap` validates.** As long as memory lasts, it keeps clear of the panics over a
mapping just when it turns the call down or the range can be mapped as a whole. -/
theorem sysMmap_validates_iff (host : Host σ) (s : Sys σ) (inv : s.kernel.Inv)
    (addr len prot flags : Nat) (fd : Int) (offset : Nat) (hlen : len < 2 ^ 64)
    (hmem : MemoryHolds (sysMmap host addr len prot flags fd offset) s) :
    (∀ p s', sysMmap host addr len prot flags fd offset s = .error (.panic p) s' →
      p ≠ .mmapLength ∧ p ≠ .addTransNotAllowed ∧ p ≠ .addTransInvalid) ↔
      Rejected addr len flags ∨ Mappable s addr len flags := by
  obtain ⟨blocks, leaf, inv⟩ := inv
  -- the panics, as a property of how the call ends
  have hends : (∀ p s', sysMmap host addr len prot flags fd offset s = .error (.panic p) s' →
      p ≠ .mmapLength ∧ p ≠ .addTransNotAllowed ∧ p ≠ .addTransInvalid) ↔
      Ends (sysMmap host addr len prot flags fd offset) s (fun _ _ => True) fun e _ =>
      Elsewhere e := by
    cases hrun : sysMmap host addr len prot flags fd offset s with
    | ok r s' => exact iff_of_true nofun ((ends_of_ok hrun).mpr trivial)
    | error e s' =>
      rw [ends_of_error hrun]
      constructor
      · intro h
        cases e with
        | panic p =>
          obtain ⟨h₁, h₂, h₃⟩ := h p s' rfl
          cases p <;> first | rfl | contradiction
        | _ => rfl
      · rintro he p s'' heq
        cases heq
        refine ⟨?_, ?_, ?_⟩ <;>
          · rintro rfl
            exact absurd he (by decide)
  rw [hends]
  rw [sysMmap_eq] at hmem ⊢
  by_cases hgood : Rejected addr len flags
  · refine iff_of_true ?_ (.inl hgood)
    rw [ends_bind_of_ok (newPages_rejected hgood)]
    exact afterPages_elsewhere _ _ _ _ _ _ _
  rw [or_iff_right hgood]
  rcases newPages_cases inv prot hlen hgood with
    ⟨hwrap, herr⟩ | ⟨s₁, c, hok, -, -, hwrap, -, hm⟩ | ⟨hnot, hlt, -, s₁, herr⟩ |
      ⟨hlong, -, s₁, hok, -⟩ | ⟨-, -, s₁, hok, href, -⟩ | ⟨e, s₁, herr, href⟩
  · rw [ends_bind_of_error herr]
    exact iff_of_false (by decide) fun h => h.1 hwrap
  · rw [ends_bind_of_ok hok]
    exact iff_of_true (afterPages_elsewhere _ _ _ _ _ _ _) ⟨hwrap, .inr hm.allowed⟩
  · rw [ends_bind_of_error herr]
    exact iff_of_false (by decide) fun h => h.2.elim (Nat.not_le.mpr hlt) hnot
  · rw [ends_bind_of_ok hok]
    refine iff_of_true (afterPages_elsewhere _ _ _ _ _ _ _) ⟨by omega, .inl hlong⟩
  · -- the request that was turned down stays on record
    rw [MemoryHolds, ends_bind_of_ok hok] at hmem
    have hkept : s₁.refused = false := (ends_pure (a := ofInt (-eNOMEM))).mp hmem
    exact absurd (href.symm.trans hkept) (by decide)
  · rw [MemoryHolds, ends_bind_of_error herr, href] at hmem
    exact absurd hmem (by decide)

/-- The first page of a file, where the kernel has room. -/
theorem sysMmap_validates_page :
    ∃ k : Kernel, Booted k ∧
      MemoryHolds (sysMmap (fileHost 0 helloElf) 0 0x1000 protR 0 0 0) (Sys.start k 0) ∧
      (Rejected 0 0x1000 0 ∨ Mappable (Sys.start k 0) 0 0x1000 0) := by
  obtain ⟨k, hk, -, s', c, hrun, hadds, -⟩ := sysMmap_boot helloElf 0
  have hmem : MemoryHolds (sysMmap (fileHost 0 helloElf) 0 0x1000 protR 0 0 0)
    (Sys.start k 0) := (ends_of_ok hrun).mpr hadds.refused
  refine ⟨k, hk, hmem,
    (sysMmap_validates_iff _ _ (booted_inv hk) 0 0x1000 protR 0 0 0 (by decide) hmem).mp ?_⟩
  intro p s'' herr
  rw [hrun] at herr
  cases herr

/-- A length that wraps to nothing, and two pages of which the second is the kernel's: both pass
the checks and end in a panic, with all of the memory still there. -/
theorem sysMmap_unchecked :
    ∃ k : Kernel, Booted k ∧
      (∃ s', sysMmap (fileHost 0 helloElf) 0 (2 ^ 64 - 1) protR 0 (-1) 0 (Sys.start k 0) =
        .error (.panic .mmapLength) s' ∧ s'.refused = false) ∧
      ∃ s', sysMmap (fileHost 0 helloElf) 0x7ffffff000 0x2000 protR mapFixed (-1) 0
          (Sys.start k 0) =
        .error (.panic .addTransNotAllowed) s' ∧ s'.refused = false := by
  obtain ⟨k, hk, inv, hlast, harena, -⟩ := kernelBoot_spec (m := fun _ => 0) fun _ _ _ => rfl
  refine ⟨k, ⟨_, fun _ _ _ => rfl, hk⟩, ⟨Sys.start k 0, ?_, rfl⟩, ⟨Sys.start k 0, ?_, rfl⟩⟩
  · rw [sysMmap_eq]
    exact bind_of_error (bind_of_error (doMmap_of_error (mmap_badLength k _ _ (.inl rfl))))
  · have hend : ¬ InUserRange (mmapAddr k.lastMmapped 0x7ffffff000 0x2000) 0
        (0x2000 / 0x1000) := by
      rw [mmapAddr, if_neg (by decide)]
      intro h
      have hsecond := h 1 (by decide)
      exact absurd hsecond (by decide)
    have htop : k.heap.arena.topSize = 0x200000 := by rw [harena]
    have hmap : mmap k 0x7ffffff000 0x2000 (protR ||| protRW) =
        .error (.panic .addTransNotAllowed) := by
      rcases mmap_spec inv 0x7ffffff000 (protR ||| protRW) (show 0 < 0x2000 by decide)
        (by decide) with
        ⟨k', c, -, hm⟩ | ⟨herr, -⟩ | ⟨-, hshort⟩ | ⟨hlong, -⟩ | ⟨-, -, h', -, hd⟩ | ⟨hgt, -⟩
      · exact absurd hm.allowed hend
      · exact herr
      · omega
      · omega
      · have := hd.short
        omega
      · omega
    rw [sysMmap_eq]
    exact bind_of_error (bind_of_error (doMmap_of_error hmap))

/-! ## Calls that fail -/

/-- **`hp_lseek`** gives its block back, whoever answers. -/
theorem hpLseek_neutral (host : Host σ) (fd : Int) (off : Nat)
    (rep : KernelRep s.heap tabs blocks leaf) :
    KeepsHeap (hpLseek host fd off seekSet) s tabs blocks leaf := by
  rcases doKmalloc_cases rep (.inl rfl) (show 12 < 2 ^ 32 by decide) with ⟨-, c, s₁, hok, ht⟩ |
    ⟨-, hno⟩
  · obtain ⟨s₂, hrun, hst, -⟩ := hpLseek_posted host fd off hok ht
    obtain ⟨q, hq, hroom, -⟩ := ht.buffer
    have hfits := ht.alloc.fits
    have hn₂ : Neutral s₁ s₂ tabs (c :: blocks) leaf :=
      Neutral.of_stores ht.alloc.rep hst fun x hx =>
      .inl ⟨c, List.mem_cons_self, hx.1, by unfold Extent.fin; omega⟩
    have hphys : ofExec (physical (c.addr + 16)) s₂ = .ok q s₂ := by
      rw [hq, physical_window (by omega)]
      rfl
    rw [KeepsHeap, ends_congr hrun, finishRequest, ends_bind_of_ok hphys]
    exact (hypercall_neutral host (by decide) q hn₂.rep).bind fun ret s₃ h₃ =>
      ht.neutral (hn₂.trans h₃) ret
  · exact (hpLseek_refused host fd off hno).mono (fun _ _ h => h.elim) fun _ _ _ => trivial

/-- The translations are as before, and no chunk is in use that was not. -/
structure Undisturbed (h h' : Heap) : Prop where
  walks : ∀ a u w, translate h'.mem a u w = translate h.mem a u w
  chunks : ∀ e ∈ liveChunks h', e ∈ liveChunks h

theorem Undisturbed.refl (h : Heap) : Undisturbed h h := ⟨fun _ _ _ => rfl, fun _ he => he⟩

/-- A request that was turned down disturbs nothing unless it clears the root of the tables. -/
theorem Declined.undisturbed_iff {h h' : Heap} {n : Nat} (hd : Declined h h' n)
    (inv : KernelInv h blocks leaf) (hpage : n % 0x1000 = 0) :
    Undisturbed h h' ↔ n ≤ 0x1f7000 := by
  obtain ⟨tabs, rep⟩ := inv.rep
  constructor
  · intro hu
    by_contra hlarge
    have htop : 0x8000200000 ≤ h.arena.top := by
      obtain ⟨bin, T, pinv, -⟩ := rep
      exact pinv.heap.tiles.le
    have hzero := hu.walks 0 false true
    rw [translate, translate, hd.walk_zero (by omega) htop, inv.walk_low (by decide)] at hzero
    exact absurd hzero (by decide)
  · intro hle
    have rep' := hd.rep hle rep
    exact ⟨fun a u w => inv.translate_congr rep'.inv a u w, fun e he =>
      (rep.mem_liveChunks e).mpr ((rep'.mem_liveChunks e).mp he)⟩

/-- A block that holds new pages comes from the unused area. -/
theorem Mapped.above {k k' : Kernel} {n : Nat} {c : Extent}
    (hm : Mapped k k' blocks leaf addr n prot c) (inv : KernelInv k.heap blocks leaf) :
    k.heap.arena.top ≤ c.addr := by
  obtain ⟨tabs, rep⟩ := inv.rep
  obtain ⟨h₁, hblock⟩ := hm.block
  rcases rep.kmalloc n (.inr rfl) with ⟨h', d, hok, ha⟩ | ⟨-, hok⟩ | ⟨-, h', hok, -⟩ |
    ⟨-, -, -, -, hok⟩
  all_goals rw [hblock] at hok
  · have haddr : c.addr + 16 = d.addr + 16 := (Prod.mk.inj (Except.ok.inj hok)).2
    have hplaced := ha.placed
    generalize hal : mallocPageAlign = align at hplaced
    cases hplaced with
    | page addr left top => omega
    | bin => exact absurd hal (by decide)
    | top => exact absurd hal (by decide)
  all_goals cases hok

/-- Every chunk in use lies below it. -/
theorem KernelInv.live_below {h : Heap} (inv : KernelInv h blocks leaf) {e : Extent}
    (hlive : e ∈ liveChunks h) : e.addr < h.arena.top := by
  obtain ⟨tabs, rep⟩ := inv.rep
  have hmem := (rep.mem_liveChunks e).mp hlive
  obtain ⟨bin, T, pinv, -⟩ := rep
  have hb := pinv.heap.bounds (List.mem_append_right bin hmem)
  unfold Extent.fin at hb
  omega

/-- The block of new pages comes from there. -/
theorem newPages_above (inv : KernelInv s.heap blocks leaf) (hlen : len < 2 ^ 64) {a : Nat}
    (hnew : newPages addr len prot flags s = .ok (.ok a) s₁) {c : Extent}
    (hc : s₁.handed = (c.addr + 16) :: s.handed) : s.heap.arena.top ≤ c.addr := by
  have hgood : ¬ Rejected addr len flags :=
    fun hrej => absurd (hnew.symm.trans (newPages_rejected hrej)) nofun
  rcases newPages_cases inv prot hlen hgood with
    ⟨-, herr⟩ | ⟨s₂, d, hok, -, -, -, hd, hm⟩ | ⟨-, -, -, s₂, herr⟩ | ⟨-, -, s₂, hok, -⟩ |
      ⟨-, -, s₂, hok, -⟩ | ⟨e, s₂, herr, -⟩
  · exact absurd (hnew.symm.trans herr) nofun
  · obtain ⟨-, rfl⟩ := EStateM.Result.ok.inj (hnew.symm.trans hok)
    have haddr : c.addr + 16 = d.addr + 16 := (List.cons.inj (hc.symm.trans hd)).1
    have habove := hm.above inv
    show s.kernel.heap.arena.top ≤ c.addr
    omega
  · exact absurd (hnew.symm.trans herr) nofun
  · exact absurd (hnew.symm.trans hok) nofun
  · exact absurd (hnew.symm.trans hok) nofun
  · exact absurd (hnew.symm.trans herr) nofun

/-- The call ends with an error number: a negative `int`, extended to 64 bits. -/
def Failed (r : Nat) : Prop := 2 ^ 63 ≤ r

/-- Behind the pages, only the seek reports an error, and by then nothing has been given
back. -/
theorem afterPages_failed (host : Host σ) (fd : Int) (len prot offset : Nat) {a : Nat}
    (rep : KernelRep s.heap tabs blocks leaf) (ha : a < 2 ^ 48) :
    Ends (afterPages host fd len prot offset (.ok a)) s (fun r s' => Failed r →
      KernelRep s'.heap tabs blocks leaf)
      fun _ _ => True := by
  have hdone : ∀ s₁ : Sys σ, Ends (doMprotect a (alignup len) prot >>= fun _ => pure a) s₁
      (fun r s' => Failed r → KernelRep s'.heap tabs blocks leaf) fun _ _ => True :=
      fun s₁ => by
    refine (ends_true _ s₁).bind fun _ s₂ _ => ends_pure.mpr fun hfail => ?_
    unfold Failed at hfail
    omega
  have hfill : Ends (fillPages host fd a len offset) s
      (fun ret s' => ret < 0 → KernelRep s'.heap tabs blocks leaf) fun _ _ => True := by
    refine Ends.ite (fun _ => ?_) fun _ => ends_pure.mpr fun _ => rep
    refine (hpLseek_neutral host fd _ rep).bind fun ret s₁ h₁ => ?_
    refine Ends.ite (fun _ => ends_pure.mpr fun _ => h₁.rep) fun _ => ?_
    refine (ends_true _ s₁).bind fun _ s₂ _ => (ends_true _ s₂).bind fun _ s₃ _ => ends_pure.mpr
      fun hneg => ?_
    exact absurd hneg (by decide)
  refine hfill.bind fun ret s₁ h₁ => Ends.ite (fun hneg => ends_pure.mpr fun _ => h₁ hneg)
    fun _ => hdone s₁

/-- **A call of `sys_mmap` that fails** leaves the kernel as it was just when its arguments are
turned down, or there is no block for the pages and asking for one did not clear the page
tables. What is mapped before the seek stays. -/
theorem sysMmap_failed_iff (host : Host σ) (s s' : Sys σ) (inv : s.kernel.Inv)
    (addr len prot flags : Nat) (fd : Int) (offset r : Nat) (hlen : len < 2 ^ 64)
    (hrun : sysMmap host addr len prot flags fd offset s = .ok r s') (hfail : Failed r) :
    Undisturbed s.heap s'.heap ↔ Rejected addr len flags ∨
      Unbacked s len ∧ (alignup len ≤ 0x1f7000 ∨ 2 ^ 32 ≤ alignup len) := by
  obtain ⟨blocks, leaf, inv⟩ := inv
  rw [sysMmap_eq] at hrun
  by_cases hgood : Rejected addr len flags
  · rw [bind_of_ok (newPages_rejected hgood)] at hrun
    cases hrun
    exact iff_of_true (Undisturbed.refl _) (.inl hgood)
  rw [or_iff_right hgood]
  have hmod := (alignup_spec hlen).1
  rcases newPages_cases inv prot hlen hgood with
    ⟨-, herr⟩ | ⟨s₁, c, hok, -, hbacked, hwrap, -, hm⟩ | ⟨-, -, -, s₁, herr⟩ |
      ⟨hlong, hnone, s₁, hok, hsame⟩ | ⟨hle, hnone, s₁, hok, -, hd⟩ | ⟨e, s₁, herr, -⟩
  · rw [bind_of_error herr] at hrun
    cases hrun
  · -- the pages are there: the seek failed
    rw [bind_of_ok hok] at hrun
    obtain ⟨tabs, rep₁⟩ := hm.inv.rep
    have haddr := (chosenAddr_user hgood hm.allowed (by omega)).2.1
    refine iff_of_false (fun hu => ?_) fun h => hbacked h.1
    have rep' :=
      (ends_of_ok hrun).mp (afterPages_failed host fd len prot offset rep₁ haddr) hfail
    have hlive := (rep'.mem_liveChunks c).mpr (List.mem_append_right tabs List.mem_cons_self)
    exact Nat.not_le.mpr (inv.live_below (hu.chunks c hlive)) (hm.above inv)
  · rw [bind_of_error herr] at hrun
    cases hrun
  · rw [bind_of_ok hok] at hrun
    cases hrun
    rw [show s'.heap = s.heap from congrArg Kernel.heap hsame]
    exact iff_of_true (Undisturbed.refl _) ⟨hnone, .inr hlong⟩
  · rw [bind_of_ok hok] at hrun
    cases hrun
    rw [hd.undisturbed_iff inv hmod]
    exact ⟨fun h => ⟨hnone, .inl h⟩, fun h => h.2.resolve_right (by omega)⟩
  · rw [bind_of_error herr] at hrun
    cases hrun

/-- A call for a megabyte, where a block of a megabyte is in use already. -/
theorem sysMmap_failed_full :
    ∃ s : Sys Nat, s.kernel.Inv ∧ Unbacked s 0x100000 ∧
      ∃ s', sysMmap (fileHost 0 helloElf) 0 0x100000 protR 0 (-1) 0 s =
        .ok (ofInt (-eNOMEM)) s' ∧
        Undisturbed s.heap s'.heap := by
  obtain ⟨k, -, inv, -, harena, -⟩ := kernelBoot_spec (m := fun _ => 0) fun _ _ _ => rfl
  obtain ⟨tabs, rep⟩ := inv.rep
  obtain ⟨h, c, -, ha⟩ : ∃ h c, kmalloc kernelSpace k.heap 0x100000 mallocNoAlign = .ok (h,
    c.addr + 16) ∧ Allocated k.heap h tabs [] (fun _ => 0) 0x100000 mallocNoAlign c := by
    rcases rep.kmalloc 0x100000 (.inl rfl) with hserved | ⟨hbig, -⟩ | ⟨-, h', -, hd⟩ | ⟨hgt, -⟩
    · exact hserved
    · omega
    · have hshort := hd.short
      have htop : k.heap.arena.topSize = 0x200000 := by rw [harena]
      omega
    · omega
  let s : Sys Nat := Sys.start { k with heap := h } 0
  have hinv : KernelInv s.heap [c] fun _ => 0 := ha.rep.inv
  -- less than a megabyte is left behind the block
  have hfull : ¬ RoomOnPage s.heap (chunkSize (alignup 0x100000)) := by
    obtain ⟨bin, T, pinv, -⟩ := ha.rep
    have hb := pinv.heap.bounds
      (List.mem_append_right bin (List.mem_append_right tabs List.mem_cons_self))
    have hlimit : h.arena.top + h.arena.topSize = 0x8000400000 := pinv.heap.limit
    have hbase : kernelSpan.base = 0x8000200000 := rfl
    have hsize : chunkSize (alignup 0x100000) = 0x100080 := by decide
    have hfits := ha.fits
    unfold Extent.fin at hb
    unfold RoomOnPage
    rw [hsize, show s.heap.arena.topSize = h.arena.topSize from rfl]
    omega
  have hun : Unbacked s 0x100000 := .inr hfull
  obtain ⟨h', hmap, -⟩ := mmap_noRoom (k := s.kernel) hinv 0 (protR ||| protRW)
    (show 0 < alignup 0x100000 by decide) (by decide) (by decide) hfull
  have hrun : ∃ s', sysMmap (fileHost 0 helloElf) 0 0x100000 protR 0 (-1) 0 s =
      .ok (ofInt (-eNOMEM)) s' := by
    have hgood : ¬ Rejected 0 0x100000 0 := by decide
    have hnew : ∃ s', newPages 0 0x100000 protR 0 s = .ok (.error (-eNOMEM)) s' := by
      rw [newPages, if_neg (show ¬ (_ ∨ _) from hgood), if_neg (show ¬ hasFlag 0 mapFixed =
        true by decide), bind_of_ok (doMmap_of_ok hmap), if_pos rfl]
      exact ⟨_, rfl⟩
    obtain ⟨s', hs'⟩ := hnew
    refine ⟨s', ?_⟩
    rw [sysMmap_eq, bind_of_ok hs']
    rfl
  obtain ⟨s', hs'⟩ := hrun
  exact ⟨s, ⟨_, _, hinv⟩, hun, s', hs', (sysMmap_failed_iff _ s s' ⟨_, _, hinv⟩ 0 0x100000 protR
    0 (-1) 0 _ (by decide) hs' (by unfold Failed; decide)).mpr (.inr ⟨hun, .inl (by decide)⟩)⟩

/-- **A descriptor that is not open**: the call fails with a page mapped for reading and writing
that was not mapped before, in a block that was not in use. -/
theorem sysMmap_failed_mapped :
    ∃ k : Kernel, Booted k ∧
      ∃ s', sysMmap (fileHost 0 helloElf) 0 0x1000 protR 0 7 0 (Sys.start k 0) =
        .ok (ofInt (-eBADF)) s' ∧
        translate k.heap.mem 0x7ffff7ffe000 true true = minusOne ∧
        translate s'.mem 0x7ffff7ffe000 true true ≠ minusOne ∧ ∃ c ∈ liveChunks s'.heap,
          c ∉ liveChunks k.heap := by
  obtain ⟨k, hk, hlast, hroom, s₁, c, hdo, hadds, hroom₁⟩ := doMmap_boot (0 : Nat) 0
    (protR ||| protRW) (by decide) (show InUser 0x7ffff7ffe 1 by unfold InUser; omega)
  have hnew : newPages 0 0x1000 protR 0 (Sys.start k 0) = .ok (.ok (0x1000 * 0x7ffff7ffe)) s₁ :=
    bind_of_ok hdo
  have hclosed : s₁.fds.table (7 : Int).toNat = none := hadds.table ▸ rfl
  have hseek := hpLseek_closed (fileHost 0 helloElf) hadds.inv (by decide)
    (by decide) hclosed (0 % 2 ^ 32)
  have hcost : mapCost 1 = 0x8240 := rfl
  cases hlseek : hpLseek (fileHost 0 helloElf) 7 (0 % 2 ^ 32) seekSet s₁ with
  | error e s₂ =>
    have hshort := ((ends_of_error hlseek).mp hseek).room
    omega
  | ok ret s₂ =>
    obtain ⟨rfl, hsteady⟩ := (ends_of_ok hlseek).mp hseek
    have hrun : sysMmap (fileHost 0 helloElf) 0 0x1000 protR 0 7 0 (Sys.start k 0) =
        .ok (ofInt (-eBADF)) s₂ := by
      rw [sysMmap_eq, bind_of_ok hnew]
      exact afterPages_of_seek (by decide) hlseek (by decide)
    have hout : Outside 0x7ffff7ffe000 := by unfold Outside; omega
    refine ⟨k, hk, s₂, hrun, ?_, ?_, ?_⟩
    · rw [translate, (booted_empty hk).walk_user hout]
      rfl
    · have hwalk : translateWalk s₂.mem 0x7ffff7ffe000 true true =
        some (c.addr + 16 + 0 - 0x8000000000) :=
        area_walk hsteady.inv List.mem_cons_self hadds.aligned hadds.fits
        (fun q hq => Area.leaves_of_has hq _ _) hadds.user (Nat.le_refl _) (by decide) true true
      have hb := hsteady.inv.bounds (e := c) List.mem_cons_self
      unfold Extent.fin at hb
      rw [translate, hwalk, Option.getD_some]
      unfold minusOne
      omega
    · have inv : KernelInv (Sys.start k 0).heap [] fun _ => 0 := booted_empty hk
      obtain ⟨tabs, rep⟩ := hsteady.inv.rep
      exact ⟨c, (rep.mem_liveChunks c).mpr (List.mem_append_right tabs List.mem_cons_self),
        fun hlive => Nat.not_le.mpr (inv.live_below hlive)
        (newPages_above inv (by decide) hnew hadds.handed)⟩

end BpfExamples.Kvm
