import BpfExamples.Kvm.HeapView
import BpfExamples.Kvm.SyscallFrames

/-!
# The heap over file system calls

`sys_read`, `sys_write`, `sys_open` and `sys_close` take their blocks from the allocator and
give them back in the reverse order. A call that returns leaves the heap as it found it
(`Neutral`): the same chunks are in use, and the top is where it was or lower. The exceptions
are memory that a call is made to overwrite: a buffer of `sys_read` that shares its page with
the allocator's chunks, and the null pointer, where a refused `kmalloc` clears the page tables
(`CallOk`).
-/

namespace BpfExamples.Kvm

open Mem

variable {σ : Type} {s s₁ s₂ s' : Sys σ} {tabs blocks : List Extent} {leaf : Nat → Nat}
  {host : Host σ}

/-! ## Neutral steps -/

/-- A step from `s` to `s'` over a heap with these tables and blocks: they are still there, the
top is no higher, the user has been given nothing, and `mmap` has chosen no address. -/
structure Neutral (s s' : Sys σ) (tabs blocks : List Extent) (leaf : Nat → Nat) : Prop where
  rep : KernelRep s'.heap tabs blocks leaf
  top : s'.heap.arena.top ≤ s.heap.arena.top
  handed : s'.handed = s.handed
  last : s'.kernel.lastMmapped = s.kernel.lastMmapped

/-- A routine that is neutral whenever it returns. -/
def KeepsHeap {α : Type} (x : KernelM σ α) (s : Sys σ) (tabs blocks : List Extent)
    (leaf : Nat → Nat) : Prop :=
  Ends x s (fun _ s' => Neutral s s' tabs blocks leaf) fun _ _ => True

theorem Neutral.refl (rep : KernelRep s.heap tabs blocks leaf) : Neutral s s tabs blocks leaf :=
  ⟨rep, Nat.le_refl _, rfl, rfl⟩

theorem Neutral.trans (h₁ : Neutral s s₁ tabs blocks leaf)
    (h₂ : Neutral s₁ s' tabs blocks leaf) : Neutral s s' tabs blocks leaf :=
  ⟨h₂.rep, h₂.top.trans h₁.top, h₂.handed.trans h₁.handed, h₂.last.trans h₁.last⟩

/-- There is as much memory left. -/
theorem Neutral.room_le (h : Neutral s s' tabs blocks leaf)
    (rep : KernelRep s.heap tabs blocks leaf) : s.room ≤ s'.room :=
  rep.room_of_top h.rep h.top

/-- Stores into memory that has an owner. -/
theorem Neutral.of_stores {W : Nat → Prop} (rep : KernelRep s.heap tabs blocks leaf)
    (hst : Stores W s s') (hW : ∀ x, W x → Free blocks x) : Neutral s s' tabs blocks leaf :=
  ⟨rep.stores hst hW, by rw [hst.arena], hst.handed, hst.last⟩

/-- **A block between its request and its release.** -/
theorem Taken.neutral {len : Nat} {c : Extent}
    (ht : Taken s s₁ tabs blocks leaf len mallocNoAlign c)
    (hn : Neutral s₁ s₂ tabs (c :: blocks) leaf) (ret : Int) :
    Ends (doKfree (c.addr + 16) >>= fun _ => pure ret) s₂
      (fun _ s' => Neutral s s' tabs blocks leaf)
      fun _ _ => True := by
  obtain ⟨s₃, hfree, rep₃, hl₃, -⟩ := doKfree_spec hn.rep
  rw [ends_bind_of_ok hfree, ends_pure]
  exact ⟨rep₃, ht.top_le hn.rep hn.top hfree, hl₃.handed.trans (hn.handed.trans ht.handed),
    hl₃.last.trans (hn.last.trans ht.last)⟩

/-- A routine that starts with a request for a block. -/
theorem doKmalloc_neutral {f : Nat → KernelM σ Int} (rep : KernelRep s.heap tabs blocks leaf)
    (len : Nat)
    (hserved : ∀ c s₁, Taken s s₁ tabs blocks leaf len mallocNoAlign c →
      Ends (f (c.addr + 16)) s₁ (fun _ s' => Neutral s s' tabs blocks leaf) fun _ _ => True)
    (hnull : ∀ s₁, Ends (f 0) s₁ (fun _ s' => Neutral s s' tabs blocks leaf) fun _ _ => True) :
    KeepsHeap (doKmalloc len mallocNoAlign >>= f) s tabs blocks leaf := by
  refine ((doKmalloc_spec rep len (.inl rfl)).mono (fun _ _ h => h) fun _ _ _ => trivial).bind
    fun p s₁ hp => ?_
  rcases hp with ⟨c, rfl, ht⟩ | ⟨rfl, -, -⟩ | ⟨rfl, -⟩
  · exact hserved c s₁ ht
  · exact hnull s₁
  · exact hnull s₁

theorem physical_zero (s : Sys σ) :
    ofExec (physical 0) s = .error (.panic .physicalNonKernel) s :=
  rfl

/-- Filling a block from wherever the source is. -/
theorem memcpy_neutral {c : Extent} (rep : KernelRep s.heap tabs (c :: blocks) leaf) (src : Nat)
    {n : Nat} (hfits : n + 16 ≤ c.size) :
    KeepsHeap (memcpy (c.addr + 16) src n) s tabs (c :: blocks) leaf := by
  have hb := rep.inv.bounds (e := c) List.mem_cons_self
  unfold Extent.fin at hb
  have hfree : ∀ x, CopyCells leaf (c.addr + 16) 0 n x → Free (c :: blocks) x := fun x hx => by
    have hin := copyCells_window (by omega) (by omega) hx
    exact .inl ⟨c, List.mem_cons_self, hin.1, by unfold Extent.fin; omega⟩
  exact (memcpyFrom_spec (c.addr + 16) src n 0 rep hfree).mono (fun _ _ hst =>
    Neutral.of_stores rep hst hfree) fun _ _ _ => trivial

/-- **A request to the hypervisor** is neutral: without its block it does not return. -/
theorem hpRw_neutral {paddr nbyte : Nat} (host : Host σ) (nr : HpNr) (fildes : Int)
    (rep : KernelRep s.heap tabs blocks leaf) (hbuf : BufferOwned blocks paddr nbyte) :
    Ends (hpRw nr host fildes paddr nbyte) s
      (fun ret s' => (nr = .read → ReplyFits host s.world nbyte → ret ≤ nbyte) ∧
        Neutral s s' tabs blocks leaf)
      fun _ _ => True := by
  rcases doKmalloc_cases rep (.inl rfl) (show 24 < 2 ^ 32 by decide) with ⟨-, c, s₁, hok, ht⟩ |
    ⟨-, hend⟩
  · exact (hpRw_served host nr fildes hbuf hok ht).mono (fun _ _ h =>
      ⟨h.1, h.2.1, h.2.2.2, h.2.2.1.handed, h.2.2.1.last⟩) fun _ _ _ => trivial
  · exact (hpRw_refused host nr fildes paddr nbyte hend).mono (fun _ _ h => h.elim)
      fun _ _ _ => trivial

/-- A hypercall other than `HP_NR_read` leaves the guest alone. -/
theorem hypercall_neutral (host : Host σ) {nr : HpNr} (hnr : nr ≠ .read) (data : Nat)
    (rep : KernelRep s.heap tabs blocks leaf) :
    KeepsHeap (hypercall host nr data) s tabs blocks leaf := by
  have hspec := hypercall_spec (s := s) host nr data (W := fun _ => False) (P := fun _ => True)
    (fun _ _ _ => trivial) (fun _ _ _ => trivial) fun fd buf n after hh _ _ _ =>
    hnr (hpHandler_read hh).1
  exact hspec.mono (fun _ _ h => Neutral.of_stores rep h.2 fun _ => False.elim)
    fun _ _ _ => trivial

/-! ## The calls -/

/-- The copy to the user, into blocks. -/
theorem copyBack_neutral {nbyte : Nat} {ret : Int} (buf dst : Nat)
    (rep : KernelRep s.heap tabs blocks leaf) (hret : ret ≤ nbyte)
    (hcells : ∀ n x, n ≤ nbyte → CopyCells leaf buf 0 n x → Payload blocks x) :
    KeepsHeap (copyBack buf dst ret) s tabs blocks leaf := by
  have hfree : ∀ x, CopyCells leaf buf 0 ret.toNat x → Free blocks x := fun x hx =>
    .inl (hcells ret.toNat x (by omega) hx)
  refine Ends.ite (fun _ => ?_) fun _ => ends_pure.mpr (Neutral.refl rep)
  exact (memcpyFrom_spec buf dst ret.toNat 0 rep hfree).mono (fun _ _ hst =>
    Neutral.of_stores rep hst hfree) fun _ _ _ => trivial

/-- `sys_read` whose reply fits its buffer, into memory that the user has. -/
theorem sysRead_neutral (fildes : Int) {buf nbyte : Nat}
    (rep : KernelRep s.heap tabs blocks leaf)
    (hok : 0 ≤ fildes → accessOk s.mem true buf nbyte = true → ReplyFits host s.world nbyte ∧
      BufferInside blocks s.mem buf nbyte) :
    KeepsHeap (sysRead host fildes buf nbyte) s tabs blocks leaf := by
  by_cases hrej : fildes < 0 ∨ accessOk s.mem true buf nbyte = false
  · obtain ⟨ret, -, hret⟩ := sysRead_rejected host hrej
    exact (ends_of_ok hret).mpr (Neutral.refl rep)
  obtain ⟨hf, hacc⟩ := not_or.mp hrej
  have hacc := Bool.eq_true_of_not_eq_false hacc
  obtain ⟨hreply, hin⟩ := hok (by omega) hacc
  rw [KeepsHeap, ends_congr (sysRead_checked hf hacc), sysReadBody]
  refine doKmalloc_neutral rep nbyte (fun c s₁ ht => ?_) fun s₁ => ?_
  · obtain ⟨q, hq, hroom, hbuf, -⟩ := ht.buffer
    have hphys : ofExec (physical (c.addr + 16)) s₁ = .ok q s₁ := by
      rw [hq, physical_window (by omega)]
      rfl
    have hreq := hpRw_neutral host .read fildes ht.alloc.rep hbuf
    rw [ends_bind_of_ok hphys]
    refine hreq.bind fun ret s₂ h₂ => ?_
    -- what the user gets lies in its own blocks
    have hcopy := copyBack_neutral buf (c.addr + 16) h₂.2.rep
        (h₂.1 rfl (ht.world.symm ▸ hreply)) fun n x hn hx => by
      obtain ⟨e, he, hex⟩ := hin x ((copyCells_user rep.inv hacc (by omega) hn hx).mono hn)
      exact ⟨e, List.mem_cons_of_mem c he, hex⟩
    exact hcopy.bind fun _ s₃ h₃ => ht.neutral (h₂.2.trans h₃) ret
  · rw [ends_bind_of_error (physical_zero s₁)]
    trivial

/-- `sys_write`, always. -/
theorem sysWrite_neutral (fildes : Int) (buf nbyte : Nat)
    (rep : KernelRep s.heap tabs blocks leaf) :
    KeepsHeap (sysWrite host fildes buf nbyte) s tabs blocks leaf := by
  by_cases hrej : fildes < 0 ∨ accessOk s.mem false buf nbyte = false
  · obtain ⟨ret, hret⟩ := sysWrite_rejected host hrej
    exact (ends_of_ok hret).mpr (Neutral.refl rep)
  obtain ⟨hf, hacc⟩ := not_or.mp hrej
  rw [KeepsHeap, ends_congr (sysWrite_checked hf (Bool.eq_true_of_not_eq_false hacc)),
    sysWriteBody]
  refine doKmalloc_neutral rep nbyte (fun c s₁ ht => ?_) fun s₁ => ?_
  · obtain ⟨q, hq, hroom, hbuf, -⟩ := ht.buffer
    refine (memcpy_neutral ht.alloc.rep buf ht.alloc.fits).bind fun _ s₂ h₂ => ?_
    have hphys : ofExec (physical (c.addr + 16)) s₂ = .ok q s₂ := by
      rw [hq, physical_window (by omega)]
      rfl
    rw [ends_bind_of_ok hphys]
    exact (hpRw_neutral host .write fildes h₂.rep hbuf).bind fun ret s₃ h₃ =>
      ht.neutral (h₂.trans h₃.2) ret
  · -- the copy may go to address 0, but the call does not come back from there
    refine ((inside_memcpyFrom 0 buf nbyte 0 s₁).mono (fun _ _ h => h) fun _ _ _ =>
      trivial).bind fun _ s₂ _ => ?_
    rw [ends_bind_of_error (physical_zero s₂)]
    trivial

/-- Nothing has changed. -/
def Still (s s' : Sys σ) : Prop := s' = s

theorem Still.refl (s : Sys σ) : Still s s := rfl

theorem Still.trans (s₁ s₂ s₃ : Sys σ) (h₁ : Still s₁ s₂) (h₂ : Still s₂ s₃) : Still s₁ s₃ :=
  Eq.trans h₂ h₁

theorem still_peek (v : Nat) : Grows Still (peek v : KernelM σ UInt8) := by
  intro s
  cases hc : cellAt s.mem false v with
  | none => exact (ends_of_error (peek_of_none hc)).mpr (Still.refl s)
  | some c => exact (ends_of_ok (peek_of_cell hc)).mpr (Still.refl s)

theorem still_strnlenFrom (v n : Nat) :
    ∀ i, Grows Still (strnlenFrom v n i : KernelM σ Nat) := by
  induction n with
  | zero => exact fun i => Grows.pure Still.refl i
  | succ n ih =>
    intro i
    exact Grows.bind Still.trans (still_peek _) fun b => Grows.ite (Grows.pure Still.refl i)
      (ih (i + 1))

theorem still_onMem {α : Type} (f : Mem → α) : Grows Still (onMem f : KernelM σ α) := fun s =>
  (ends_of_ok (show onMem f s = .ok (f s.mem) s from rfl)).mpr (Still.refl s)

theorem still_accessStringOkFrom (fuel : Nat) :
    ∀ v, Grows Still (accessStringOkFrom fuel v : KernelM σ Bool) := by
  induction fuel with
  | zero => exact fun v => Grows.throw Still.refl _
  | succ fuel ih =>
    intro v
    refine Grows.bind Still.trans (still_onMem _) fun ok => ?_
    refine Grows.ite (Grows.pure Still.refl false) ?_
    refine Grows.bind Still.trans (still_strnlenFrom _ _ _) fun l => ?_
    exact Grows.ite (ih _) (Grows.pure Still.refl true)

/-- The length that `copy_str_from_user` asks for. -/
def copyLength (l : Nat) : Nat := ofInt (toInt32 l + 1)

/-- If there is no block for the copy of the path, the request is not so long that its clearing
reaches the page tables. -/
def OpenLasts (s : Sys σ) (path : Nat) : Prop :=
  ∀ l, strlen path s = .ok l s → Serves s (copyLength l) mallocNoAlign ∨ 2 ^ 32 ≤ copyLength l ∨
    copyLength l ≤ 0x1f7000

theorem copyStrFromUser_neutral {path : Nat} (rep : KernelRep s.heap tabs blocks leaf)
    (hok : OpenLasts s path) :
    Ends (copyStrFromUser path) s
      (fun dst s₂ => (dst = 0 ∧ Neutral s s₂ tabs blocks leaf) ∨
        ∃ c s₁ len, dst = c.addr + 16 ∧ Taken s s₁ tabs blocks leaf len mallocNoAlign c ∧
          Neutral s₁ s₂ tabs (c :: blocks) leaf)
      fun _ _ => True := by
  have hstill := still_strnlenFrom path (2 ^ 63 - 1) 0 s
  rw [copyStrFromUser]
  cases hl : strlen path s with
  | error e s₁ =>
    rw [ends_bind_of_error hl]
    trivial
  | ok l s₁ =>
    obtain rfl : s₁ = s := (ends_of_ok hl).mp hstill
    rw [ends_bind_of_ok hl]
    show Ends (doKmalloc (copyLength l) mallocNoAlign >>= fun dst =>
      if dst = 0 then pure 0 else memcpy dst path (copyLength l) >>= fun _ => pure dst) s₁ _ _
    have hlast := hok l hl
    have hspec := doKmalloc_spec rep (copyLength l) (.inl rfl)
    cases hk : doKmalloc (copyLength l) mallocNoAlign s₁ with
    | error e s₂ =>
      rw [ends_bind_of_error hk]
      trivial
    | ok p s₂ =>
      rw [ends_bind_of_ok hk]
      rcases (ends_of_ok hk).mp hspec with ⟨c, rfl, ht⟩ | ⟨rfl, -, rfl⟩ | ⟨rfl, hturned⟩
      · rw [if_neg (Nat.succ_ne_zero _)]
        refine (memcpy_neutral ht.alloc.rep path ht.alloc.fits).bind fun _ s₃ h₃ => ?_
        exact ends_pure.mpr (.inr ⟨c, s₂, _, rfl, ht, h₃⟩)
      · exact ends_pure.mpr (.inl ⟨rfl, Neutral.refl rep⟩)
      · -- refused, but short: only memory below the tables is cleared
        have hsmall := hturned.small
        have hle : copyLength l ≤ 0x1f7000 := by
          rcases hlast with ⟨q, s₃, hq, hne⟩ | hbig | hle
          · rw [hk] at hq
            cases hq
            exact absurd rfl hne
          · omega
          · exact hle
        have hd := hturned.declined (by omega)
        exact ends_pure.mpr (.inl ⟨rfl, hd.rep hle rep, by rw [hd.arena],
          hturned.handed (by omega), hturned.last (by omega)⟩)

/-- `sys_open`. -/
theorem sysOpen_neutral {path : Nat} (rep : KernelRep s.heap tabs blocks leaf)
    (hok : OpenLasts s path) : KeepsHeap (sysOpen host path) s tabs blocks leaf := by
  rw [KeepsHeap, sysOpen]
  refine ((still_accessStringOkFrom _ path s).mono (fun _ _ h => h) fun _ _ _ => trivial).bind
    fun ok s₁ h₁ => ?_
  obtain rfl : s₁ = s := h₁
  refine Ends.ite (fun _ => ends_pure.mpr (Neutral.refl rep)) fun _ => ?_
  refine (copyStrFromUser_neutral rep hok).bind fun dst s₂ h₂ => ?_
  rcases h₂ with ⟨rfl, hn⟩ | ⟨c, s₁', len, rfl, ht, hn⟩
  · rw [if_pos rfl]
    exact ends_pure.mpr hn
  · obtain ⟨q, hq, hroom, -, -⟩ := ht.buffer
    have hphys : ofExec (physical (c.addr + 16)) s₂ = .ok q s₂ := by
      rw [hq, physical_window (by omega)]
      rfl
    rw [if_neg (Nat.succ_ne_zero _), ends_bind_of_ok hphys]
    exact (hypercall_neutral host (by decide) q hn.rep).bind fun fd s₃ h₃ =>
      ht.neutral (hn.trans h₃) fd

/-! ## Runs -/

/-- What a call must not be made to overwrite: a buffer of `sys_read` lies in blocks, and the
reply is no longer than the buffer; a path for which there is no block is not too long. -/
def CallOk (host : Host σ) (blocks : List Extent) (s : Sys σ) : SysCall → Prop
  | .read fildes buf nbyte => 0 ≤ fildes → accessOk s.mem true buf nbyte = true →
      ReplyFits host s.world nbyte ∧ BufferInside blocks s.mem buf nbyte
  | .write _ _ _ => True
  | .openFile path => OpenLasts s path
  | .close _ => True

theorem SysCall.keepsHeap (rep : KernelRep s.heap tabs blocks leaf) (op : SysCall)
    (hok : CallOk host blocks s op) : KeepsHeap (op.run host) s tabs blocks leaf := by
  cases op with
  | read fildes buf nbyte => exact sysRead_neutral fildes rep hok
  | write fildes buf nbyte => exact sysWrite_neutral fildes buf nbyte rep
  | openFile path => exact sysOpen_neutral rep hok
  | close fildes =>
    exact hypercall_neutral host (show HpNr.close ≠ .read by decide) (ofInt fildes) rep

theorem Sys.call_of_ok (op : SysCall) {ret : Int} (h : op.run host s = .ok ret s') :
    s.call host op = .ok s' := by
  rw [Sys.call, h]

/-- A call that returns, in terms of the step it makes. -/
theorem Sys.call_neutral (rep : KernelRep s.heap tabs blocks leaf) {op : SysCall}
    (hok : CallOk host blocks s op) (hcall : s.call host op = .ok s') :
    Neutral s s' tabs blocks leaf := by
  have hends := SysCall.keepsHeap rep op hok
  rw [Sys.call] at hcall
  split at hcall
  · next ret s'' hrun =>
    cases hcall
    exact (ends_of_ok hrun).mp hends
  · cases hcall

end BpfExamples.Kvm
