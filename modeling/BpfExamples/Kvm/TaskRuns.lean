import BpfExamples.Kvm.CallRuns
import BpfExamples.Kvm.Delivery

/-!
# Whole runs of a program

A run of a program is any number of loads, stores and system calls, with all that can be seen of
them. As long as the program stays in the blocks that are its own (`Within`), each of its runs
is a run of the small machine, and the kernel's memory is out of its reach. This holds from any
state that is in order, and so from the state in which `sys_execve` leaves a program
(`program_refines`, `program_isolated`).

The program need not be well behaved otherwise: it may pass any pointer, length, number or path.
What it must not use is the rest of a page of which only the start is its own, where the
allocator has its chunks (`sysRead_shared_page`).
-/

namespace BpfExamples.Kvm

open Mem

variable {σ : Type} {s s' s₁ : Sys σ} {tabs blocks used used' : List Extent} {leaf : Nat → Nat}
  {host : Host σ}

/-! ## Steps -/

/-- The memory that a call is given is the program's own. A path is not so long that its copy
would fill the kernel's memory. -/
def CallWithin (blocks : List Extent) (s : Sys σ) : SysCall → Prop
  | .read _ buf n => ∀ i, i < n → Owns blocks s.mem (buf + i)
  | .write _ buf n => ∀ i, i < n → Owns blocks s.mem (buf + i)
  | .openFile path => ∀ k, IsString s.mem path k → k < 0x1f7000 ∧ ∀ i, i ≤ k →
    Owns blocks s.mem (path + i)
  | .close _ => True

/-- So is the memory that an instruction accesses. -/
def Within (blocks : List Extent) (s : Sys σ) : Event → Prop
  | .load v _ => v < 2 ^ 47 ∧ Owns blocks s.mem v
  | .store v _ => v < 2 ^ 47 ∧ Owns blocks s.mem v
  | .syscall nr arg0 arg1 arg2 _ _ => ∀ op, syscallTable (nr % 2 ^ 32) arg0 arg1 arg2 =
    some (.call op) → CallWithin blocks s op

/-- The numbers in a call are 32-bit ones. -/
def SysCall.Narrow : SysCall → Prop
  | .read fd _ _ => -2 ^ 31 ≤ fd ∧ fd < 2 ^ 31
  | .write fd _ _ => -2 ^ 31 ≤ fd ∧ fd < 2 ^ 31
  | .openFile _ => True
  | .close fd => -2 ^ 31 ≤ fd ∧ fd < 2 ^ 31

theorem syscallTable_narrow {nr arg0 arg1 arg2 : Nat} {op : SysCall}
    (h : syscallTable nr arg0 arg1 arg2 = some (.call op)) : op.Narrow := by
  unfold syscallTable at h
  split at h <;> cases h
  · exact toInt32_range _
  · exact toInt32_range _
  · trivial
  · exact toInt32_range _

/-- A call, to the program. -/
theorem SysCall.seen_task (hhost : HostReads host) (hblind : Blind host)
    (rep : KernelRep s.heap tabs blocks leaf) (hun : Unshared s.mem) (op : SysCall)
    (hnarrow : op.Narrow) (hin : CallWithin blocks s op) :
    Ends (op.seen host) s (fun r s' => Task.Call host (accessOk s.mem)
      (task blocks s) op r.1 r.2 (task blocks s'))
      fun _ _ => True := by
  cases op with
  | read fd buf n =>
    exact ((sysRead_task hblind rep hun hnarrow.2 (hhost.replyFits s.world n) hin).mono
      (fun _ _ h => h) fun _ _ _ => trivial).bind fun ret s' h => ends_pure.mpr h
  | write fd buf n =>
    exact (sysWriteSeen_task hblind rep hnarrow.2 hin).mono (fun _ _ h => h)
      fun _ _ _ => trivial
  | openFile path => exact (sysOpen_task rep hin).bind fun ret s' h => ends_pure.mpr h
  | close fd =>
    exact ((sysClose_task (accessOk s.mem) hnarrow.1 hnarrow.2).mono (fun _ _ h => h)
      fun _ _ _ => trivial).bind fun ret s' h => ends_pure.mpr h

/-! ## What a call leaves alone -/

/-- The cells that a call may write: the program's, and what nobody has. -/
def Touched (tabs blocks : List Extent) (x : Nat) : Prop :=
  OwnCell (tabs ++ blocks) x ∨ Payload blocks x

/-- Only such cells have been written, unless a request for memory was turned down. -/
def Spares (tabs blocks : List Extent) (s s' : Sys σ) : Prop :=
  s'.refused = true ∨ Writes (Touched tabs blocks) s s'

theorem Spares.trans {s'' : Sys σ} (h₁ : Spares tabs blocks s s')
    (h₂ : Spares tabs blocks s' s'') : Spares tabs blocks s s'' := by
  rcases h₂ with h₂ | h₂
  · exact .inl h₂
  · rcases h₁ with h₁ | h₁
    · exact .inl (h₂.refused.trans h₁)
    · exact .inr (h₁.trans h₂)

section

variable {fd : Int} {buf n path : Nat}

/-- A request to the hypervisor that comes back. -/
theorem hpRw_writes (host : Host σ) (nr : HpNr) (fd : Int) {paddr : Nat}
    (rep : KernelRep s.heap tabs blocks leaf) (hbuf : BufferOwned blocks paddr n) :
    Ends (hpRw nr host fd paddr n) s
      (fun _ s' => Writes (RwCells (tabs ++ blocks) paddr n) s s') fun _ _ => True := by
  rcases doKmalloc_cases rep (.inl rfl) (show 24 < 2 ^ 32 by decide) with ⟨-, c, s₁, hok, ht⟩ |
    ⟨-, hno⟩
  · exact (hpRw_served host nr fd hbuf hok ht).mono (fun _ _ h => h.2.2.1) fun _ _ _ => trivial
  · exact (hpRw_refused host nr fd paddr n hno).mono (fun _ _ h => h.elim) fun _ _ _ => trivial

/-- The buffer of `sys_read` is in blocks. -/
theorem bufferInside_of_owns (inv : KernelInv s.heap used leaf)
    (hacc : accessOk s.mem true buf n = true) (hn : n < 2 ^ 32)
    (hown : ∀ i, i < n → Owns blocks s.mem (buf + i)) : BufferInside blocks s.mem buf n := by
  rintro x ⟨i, p, hi, hp, rfl⟩
  exact hown i hi p (inv.walk_read (userMemRangeOk_iff.mp (accessOk_spec inv hacc hn hi).1) hp)

/-- **`sys_read`** keeps to the program's buffer and the kernel's own blocks. -/
theorem sysRead_spares (hreply : ReplyFits host s.world n)
    (rep : KernelRep s.heap tabs blocks leaf)
    (hown : ∀ i, i < n → Owns blocks s.mem (buf + i)) :
    Ends (sysRead host fd buf n) s (fun _ s' => Neutral s s' tabs blocks leaf ∧
      Spares tabs blocks s s') fun _ _ => True := by
  by_cases hrej : fd < 0 ∨ accessOk s.mem true buf n = false
  · obtain ⟨ret, -, hret⟩ := sysRead_rejected host hrej
    exact (ends_of_ok hret).mpr ⟨Neutral.refl rep, .inr (Writes.refl _ s)⟩
  obtain ⟨hneg, hacc⟩ := not_or.mp hrej
  have hacc := Bool.eq_true_of_not_eq_false hacc
  rw [ends_congr (sysRead_checked hneg hacc), sysReadBody]
  refine ((doKmalloc_null_or rep n).mono (fun _ _ h => h) fun _ _ _ => trivial).bind
    fun dst s₁ hdst => ?_
  rcases hdst with ⟨rfl, -⟩ | ⟨c, rfl, ht⟩
  · rw [ends_bind_of_error (physical_zero s₁)]
    trivial
  obtain ⟨q, hq, hroom, hbuf, hcells⟩ := ht.buffer
  have hphys : ofExec (physical (c.addr + 16)) s₁ = .ok q s₁ := by
    rw [hq, physical_window (by omega)]
    rfl
  have hin := bufferInside_of_owns rep.inv hacc (by omega) hown
  rw [ends_bind_of_ok hphys]
  refine (((hpRw_writes host .read fd ht.alloc.rep hbuf).and (hpRw_neutral host .read fd
    ht.alloc.rep hbuf)).mono (fun _ _ h => h) fun _ _ _ => trivial).bind fun ret s₂ h₂ => ?_
  obtain ⟨hw₂, hle, hn₂⟩ := h₂
  have hle := hle rfl (ht.world.symm ▸ hreply)
  have hmine : ∀ k x, k ≤ n → CopyCells leaf buf 0 k x → Payload blocks x := fun k x hk hx =>
    hin x ((copyCells_user rep.inv hacc (by omega) hk hx).mono hk)
  have hfree : ∀ x, CopyCells leaf buf 0 ret.toNat x → Free (c :: blocks) x := fun x hx => by
    obtain ⟨e, he, hex⟩ := hmine ret.toNat x (by omega) hx
    exact .inl ⟨e, List.mem_cons_of_mem _ he, hex⟩
  have hcopy : Ends (copyBack buf (c.addr + 16) ret) s₂
    (fun _ s₃ => Stores (CopyCells leaf buf 0 ret.toNat) s₂ s₃) fun _ _ => True :=
    Ends.ite (fun _ => (memcpyFrom_spec buf (c.addr + 16) ret.toNat 0 hn₂.rep hfree).mono
    (fun _ _ h => h) fun _ _ _ => trivial) fun _ => ends_pure.mpr (Stores.refl _ s₂)
  refine hcopy.bind fun _ s₃ hst₃ => ?_
  have hn₃ : Neutral s₁ s₃ tabs (c :: blocks) leaf :=
    hn₂.trans (Neutral.of_stores hn₂.rep hst₃ hfree)
  obtain ⟨s₄, hrun, rep₄, hl₄, -⟩ := doKfree_spec hn₃.rep
  have hneutral := ht.neutral hn₃ ret
  rw [ends_bind_of_ok hrun, ends_pure] at hneutral ⊢
  refine ⟨hneutral, .inr ?_⟩
  -- the block, the request, the copy, and the block again
  refine (ht.toWrites.mono fun x => .inl).trans
    ((hw₂.mono fun x hx => .inl (hcells x hx)).trans ?_)
  exact (hst₃.toWrites.mono fun x hx => .inr (hmine ret.toNat x (by omega) hx)).trans
    (hl₄.toWrites.mono fun x => .inl)

/-- **`sys_write`** keeps to the kernel's own blocks. -/
theorem sysWrite_spares (rep : KernelRep s.heap tabs blocks leaf) :
    Ends (sysWrite host fd buf n) s (fun _ s' => Neutral s s' tabs blocks leaf ∧
      Spares tabs blocks s s') fun _ _ => True := by
  by_cases hrej : fd < 0 ∨ accessOk s.mem false buf n = false
  · obtain ⟨ret, hret⟩ := sysWrite_rejected host hrej
    exact (ends_of_ok hret).mpr ⟨Neutral.refl rep, .inr (Writes.refl _ s)⟩
  obtain ⟨hneg, hacc⟩ := not_or.mp hrej
  rw [ends_congr (sysWrite_checked hneg (Bool.eq_true_of_not_eq_false hacc)), sysWriteBody]
  refine ((doKmalloc_null_or rep n).mono (fun _ _ h => h) fun _ _ _ => trivial).bind
    fun dst s₁ hdst => ?_
  rcases hdst with ⟨rfl, -⟩ | ⟨c, rfl, ht⟩
  · refine ((inside_memcpyFrom 0 buf n 0 s₁).mono (fun _ _ h => h) fun _ _ _ => trivial).bind
      fun _ s₂ _ => ?_
    rw [ends_bind_of_error (physical_zero s₂)]
    trivial
  obtain ⟨q, hq, hroom, hbuf, hcells⟩ := ht.buffer
  have hmine : ∀ x, CopyCells leaf (c.addr + 16) 0 n x → 0x8000000000 + q ≤ x ∧
      x < 0x8000000000 + q + n := fun x hx => by
    have := copyCells_window (by omega) (by omega) hx
    omega
  have hfree : ∀ x, CopyCells leaf (c.addr + 16) 0 n x → Free (c :: blocks) x := fun x hx =>
    .inl (hbuf.2 x (hmine x hx).1 (hmine x hx).2)
  refine ((memcpyFrom_spec (c.addr + 16) buf n 0 ht.alloc.rep hfree).mono (fun _ _ h => h)
    fun _ _ _ => trivial).bind fun _ s₂ hst₂ => ?_
  have hn₂ := Neutral.of_stores ht.alloc.rep hst₂ hfree
  have hphys : ofExec (physical (c.addr + 16)) s₂ = .ok q s₂ := by
    rw [hq, physical_window (by omega)]
    rfl
  rw [ends_bind_of_ok hphys]
  refine (((hpRw_writes host .write fd hn₂.rep hbuf).and (hpRw_neutral host .write fd hn₂.rep
    hbuf)).mono (fun _ _ h => h) fun _ _ _ => trivial).bind fun ret s₃ h₃ => ?_
  obtain ⟨hw₃, -, hn₃⟩ := h₃
  obtain ⟨s₄, hrun, rep₄, hl₄, -⟩ := doKfree_spec hn₃.rep
  have hneutral := ht.neutral (hn₂.trans hn₃) ret
  rw [ends_bind_of_ok hrun, ends_pure] at hneutral ⊢
  refine ⟨hneutral, .inr ?_⟩
  refine (ht.toWrites.mono fun x => .inl).trans
    ((hst₂.toWrites.mono fun x hx => .inl (hcells x (.inr (hmine x hx)))).trans ?_)
  exact (hw₃.mono fun x hx => .inl (hcells x hx)).trans (hl₄.toWrites.mono fun x => .inl)

/-- A hypercall other than `HP_NR_read`. -/
theorem hypercall_spares (host : Host σ) {nr : HpNr} (hnr : nr ≠ .read) (data : Nat)
    (rep : KernelRep s.heap tabs blocks leaf) :
    Ends (hypercall host nr data) s (fun _ s' => Neutral s s' tabs blocks leaf ∧
      Stores (fun _ => False) s s') fun _ _ => True := by
  have hspec := hypercall_spec (s := s) host nr data (W := fun _ => False) (P := fun _ => True)
    (fun _ _ _ => trivial) (fun _ _ _ => trivial) fun fd buf n after hh _ _ _ =>
    hnr (hpHandler_read hh).1
  exact hspec.mono (fun _ _ h => ⟨Neutral.of_stores rep h.2 fun _ => False.elim, h.2⟩)
    fun _ _ _ => trivial

/-- **`sys_open`** keeps to the kernel's own blocks, if it gets one. -/
theorem sysOpen_spares (rep : KernelRep s.heap tabs blocks leaf)
    (hpath : ∀ k, IsString s.mem path k → k < 0x1f7000) :
    Ends (sysOpen host path) s (fun _ s' => Neutral s s' tabs blocks leaf ∧
      Spares tabs blocks s s') fun _ _ => True := by
  refine sysOpen_ends rep (fun k hk => by have := hpath k hk; omega)
    (fun _ => ⟨Neutral.refl rep, .inr (Writes.refl _ s)⟩) (fun k s' hstr _ htd _ => ?_)
    fun k c s₁ s₂ _ _ ht _ rep₂ hst _ => ?_
  · have hk := hpath k hstr
    have hd := htd.declined (by omega)
    exact ⟨⟨hd.rep (by omega) rep, by rw [hd.arena], htd.handed (by omega),
      htd.last (by omega)⟩, .inl htd.refused⟩
  · obtain ⟨q, hq, hroom, -, -⟩ := ht.buffer
    have hphys : ofExec (physical (c.addr + 16)) s₂ = .ok q s₂ := by
      rw [hq, physical_window (by omega)]
      rfl
    have hn₂ : Neutral s₁ s₂ tabs (c :: blocks) leaf :=
      ⟨rep₂, by rw [hst.arena], hst.handed, hst.last⟩
    rw [openCopy, ends_bind_of_ok hphys]
    refine (hypercall_spares host (by decide) q rep₂).bind fun ret s₃ h₃ => ?_
    obtain ⟨hn₃, hst₃⟩ := h₃
    obtain ⟨s₄, hrun, rep₄, hl₄, -⟩ := doKfree_spec hn₃.rep
    have hneutral := ht.neutral (hn₂.trans hn₃) ret
    rw [ends_bind_of_ok hrun, ends_pure] at hneutral ⊢
    refine ⟨hneutral, .inr ?_⟩
    refine (ht.toWrites.mono fun x => .inl).trans
      ((hst.toWrites.mono fun x hx => .inl (ht.alloc.rep.own_of_has hx)).trans ?_)
    exact (hst₃.toWrites.mono fun x => False.elim).trans (hl₄.toWrites.mono fun x => .inl)

end

/-- A call, to the kernel. -/
theorem SysCall.run_spares (hhost : HostReads host) (rep : KernelRep s.heap tabs blocks leaf)
    (op : SysCall) (hin : CallWithin blocks s op) :
    Ends (op.run host) s (fun _ s' => Neutral s s' tabs blocks leaf ∧ Spares tabs blocks s s')
      fun _ _ => True := by
  cases op with
  | read fd buf n => exact sysRead_spares (hhost.replyFits s.world n) rep hin
  | write fd buf n => exact sysWrite_spares rep
  | openFile path => exact sysOpen_spares rep fun k hk => (hin k hk).1
  | close fd =>
    exact (hypercall_spares host (show HpNr.close ≠ .read by decide) (ofInt fd) rep).mono
      (fun _ _ h => ⟨h.1, .inr (h.2.toWrites.mono fun x => False.elim)⟩) fun _ _ => id

/-! ## Runs -/

/-- The check of a buffer depends on the leaves alone. -/
theorem accessOk_congr (inv : KernelInv s.heap used leaf)
    (inv' : KernelInv s'.heap used' leaf) : accessOk s'.mem = accessOk s.mem := by
  have hpages : ∀ type n v, accessPages s'.mem type n v = accessPages s.mem type n v := by
    intro type n
    induction n with
    | zero => exact fun v => rfl
    | succ n ih =>
      intro v
      rw [accessPages, accessPages, ih, show translate s'.mem v true type = _
        from inv.translate_congr inv' v true type]
      rfl
  funext type addr size
  rw [accessOk, accessOk, hpages]

/-- A byte that the program may store passes as writable. -/
theorem accessOk_store (inv : KernelInv s.heap used leaf) {v p : Nat} (hv : v < 2 ^ 48)
    (h : translateWalk s.mem v true true = some p) : accessOk s.mem true v 1 = true :=
  (accessOk_inPage (by decide) (Nat.mod_lt v (by decide))).mpr
    ⟨userMemRangeOk_iff.mpr (inv.outside_of_user hv h), p, h⟩

/-- **A store** of the program, to it and to the kernel. -/
theorem store_task (rep : KernelRep s.heap tabs blocks leaf) (hun : Unshared s.mem) {v p : Nat}
    {b : UInt8} (hv : v < 2 ^ 47) (hown : Owns blocks s.mem v)
    (walk : translateWalk s.mem v true true = some p)
    (hst : Stores (· = kernelBaseOffset + p) s s') (hb : s'.mem (kernelBaseOffset + p) = b)
    (hfds : s'.fds = s.fds) (hworld : s'.world = s.world) :
    Task.Step host (accessOk s.mem) (task blocks s) (.store v b) (task blocks s') ∧
      Neutral s s' tabs blocks leaf ∧
      Spares tabs blocks s s' := by
  have hout := rep.inv.outside_of_user (show v < 2 ^ 48 by omega) walk
  have hread := rep.inv.walk_read hout walk
  have hpay := hown p hread
  have hn := Neutral.of_stores rep hst fun x hx => .inl (hx ▸ hpay)
  have hmine : (task blocks s).byte v ≠ none :=
    Option.ne_none_iff_exists'.mpr ⟨_, (task_byte_iff rep.inv).mpr ⟨hv, p, hread, hpay, rfl⟩⟩
  refine ⟨?_, hn, .inr (hst.toWrites.mono fun x hx => .inr (hx ▸ hpay))⟩
  have hput : (task blocks s').byte = Task.put (task blocks s).byte v 1 fun _ => b := by
    refine task_put rep.inv hn.rep.inv (fun i hi => ?_) fun v' p' hv' hp' hpay' => ?_
    · obtain rfl : i = 0 := by omega
      exact hmine
    · by_cases heq : p' = p
      · -- the same byte, so the same address
        subst heq
        obtain rfl := hun v v' p' hout hv' hread hp'
        rw [if_pos ⟨Nat.le_refl v, Nat.lt_succ_self v⟩, hb]
      · have hne : v' ≠ v := by
          rintro rfl
          rw [hread] at hp'
          exact heq (Option.some.inj hp').symm
        rw [if_neg (by omega), hst.mem _ (by omega)]
  have hbyte : (task blocks s').byte = Function.update (task blocks s).byte v (some b) := by
    rw [hput]
    funext w
    by_cases hw : w = v
    · rw [hw, Function.update_self, Task.put, if_pos ⟨Nat.le_refl v, Nat.lt_succ_self v⟩]
    · rw [Function.update_of_ne hw, Task.put, if_neg (by omega)]
  rw [task_eq (t :=
    { task blocks s with byte := Function.update (task blocks s).byte v (some b) }) hbyte
    (by rw [hfds]; rfl) hworld]
  exact .store hmine (accessOk_store rep.inv (by omega) walk)

/-- **One step**: the program sees one of the small machine, and the kernel is spared. -/
theorem UserStep.task_step (hhost : HostReads host) (hblind : Blind host)
    (rep : KernelRep s.heap tabs blocks leaf) (hun : Unshared s.mem) {e : Event}
    (hin : Within blocks s e) (h : UserStep host s e s') :
    Task.Step host (accessOk s.mem) (task blocks s) e (task blocks s') ∧
      Neutral s s' tabs blocks leaf ∧
      Spares tabs blocks s s' := by
  have hsame : Neutral s s tabs blocks leaf ∧ Spares tabs blocks s s :=
    ⟨Neutral.refl rep, .inr (Writes.refl _ s)⟩
  cases h with
  | load canonical walk =>
    exact ⟨.load ((task_byte_iff rep.inv).mpr ⟨hin.1, _, walk, hin.2 _ walk, rfl⟩), hsame⟩
  | store canonical walk =>
    exact store_task rep hun hin.1 hin.2 walk (stores_setMem fun x hx =>
      Function.update_of_ne hx _ _) (Function.update_self _ _ _) rfl rfl
  | @syscall _ nr arg0 arg1 arg2 ret out run =>
    rcases syscallSeen_cases run with ⟨hentry, rfl, rfl, rfl⟩ | ⟨op, r, hentry, rfl, hseen⟩
    · exact ⟨.unknown hentry, hsame⟩
    · have hcall := (ends_of_ok hseen).mp
        (SysCall.seen_task hhost hblind rep hun op (syscallTable_narrow hentry) (hin op hentry))
      have hrun : op.run host s = .ok r s' := run_of_seen (op.seen_fst host) hseen
      exact ⟨.call hentry hcall,
        (ends_of_ok hrun).mp (SysCall.run_spares hhost rep op (hin op hentry))⟩

/-- A step of a program that stays in its own memory. -/
def OwnStep (host : Host σ) (blocks : List Extent) (s : Sys σ) (e : Event) (s' : Sys σ) :
    Prop :=
  Within blocks s e ∧ UserStep host s e s'

section

variable {s₀ : Sys σ} {events : List Event} (hhost : HostReads host) (hblind : Blind host)
  (rep : KernelRep s₀.heap tabs blocks leaf) (hun : Unshared s₀.mem)
  (hrun : Run (OwnStep host blocks) s₀ events s)

include hhost hblind rep hun hrun

/-- Every run is one of the small machine. -/
theorem ownRun_task :
    Run (Task.Step host (accessOk s₀.mem)) (task blocks s₀) events (task blocks s) := by
  -- each step starts from the tables of the first state
  have hstep : ∀ s t e s', KernelRep s.heap tabs blocks leaf ∧ t = task blocks s →
      OwnStep host blocks s e s' → ∃ t', (KernelRep s'.heap tabs blocks leaf ∧
      t' = task blocks s') ∧ Task.Step host (accessOk s₀.mem) t e t' := by
    rintro s _ e s' ⟨rep', rfl⟩ ⟨hin, hstep⟩
    obtain ⟨hsmall, hn, -⟩ := hstep.task_step hhost hblind rep' (hun.congr rep.inv rep'.inv) hin
    rw [accessOk_congr rep.inv rep'.inv] at hsmall
    exact ⟨_, ⟨hn.rep, rfl⟩, hsmall⟩
  obtain ⟨_, ⟨-, rfl⟩, hsmall⟩ := hrun.simulates hstep ⟨rep, rfl⟩
  exact hsmall

/-- Every run spares the kernel. -/
theorem ownRun_spares : Neutral s₀ s tabs blocks leaf ∧ Spares tabs blocks s₀ s := by
  refine Run.inv (I := fun s => Neutral s₀ s tabs blocks leaf ∧ Spares tabs blocks s₀ s) ?_ hrun
    ⟨Neutral.refl rep, .inr (Writes.refl _ s₀)⟩
  rintro s e s' ⟨hn, hs⟩ ⟨hin, hstep⟩
  obtain ⟨-, hn', hs'⟩ := hstep.task_step hhost hblind hn.rep (hun.congr rep.inv hn.rep.inv) hin
  exact ⟨hn.trans hn', hs.trans hs'⟩

end

/-! ## From the start -/

/-- Outside of the page of the arguments, everything that the program finds is its own. -/
theorem InPlace.owns (h : InPlace s blocks leaf) {v : Nat} (hv : v < 2 ^ 47)
    (hpage : v / 0x1000 ≠ 0x201) : Owns blocks s.mem v := by
  intro p hp
  have hout := h.inv.outside_of_user (show v < 2 ^ 48 by omega) hp
  rw [show translateWalk s.mem v true false = _ from h.inv.walk_user hout true false] at hp
  obtain ⟨f, hf, rfl⟩ := mappedTo_of_translate hp
  have hpay := h.whole _ hpage f hf (v % 0x1000) (Nat.mod_lt v (by decide))
  rwa [Nat.add_assoc] at hpay

/-- A program that has one argument looks for it, puts a letter in its place, reads that again
and writes it out. Then it closes a file that it does not have, and makes a call that there is
not. -/
def helloEvents (rsp : Nat) : List Event :=
  [.load rsp 1, .store rsp 104, .load rsp 104, .syscall 1 1 rsp 1 0 (some (1, [104])),
    .syscall 3 7 0 0 0xfffffff7 none, .syscall 39 0 0 0 0xffffffffffffffda none]

section

variable {v p : Nat} {b : UInt8}

/-- A store to memory that is the program's, and what can be loaded then. -/
theorem ownStep_store (host : Host σ) (rep : KernelRep s.heap tabs blocks leaf)
    (hv : v < 2 ^ 47) (hown : Owns blocks s.mem v)
    (hwalk : translateWalk s.mem v true true = some p) (b : UInt8) :
    ∃ s', OwnStep host blocks s (.store v b) s' ∧ OwnStep host blocks s' (.load v b) s' ∧
      KernelRep s'.heap tabs blocks leaf ∧ s'.fds = s.fds ∧ s'.room = s.room ∧
        (task blocks s').byte v = some b := by
  have hread :=
    rep.inv.walk_read (rep.inv.outside_of_user (show v < 2 ^ 48 by omega) hwalk) hwalk
  have hpay := hown p hread
  obtain ⟨s', hs'⟩ : ∃ s', s' = s.setMem (Function.update s.mem (kernelBaseOffset + p) b)
    (· = kernelBaseOffset + p) := ⟨_, rfl⟩
  have hstore : UserStep host s (.store v b) s' := hs' ▸ .store (.inl hv) hwalk
  have hsafe : SafeStep host blocks s (.store v b) s' := by
    refine ⟨fun p' hp' => ?_, hstore⟩
    rw [hwalk] at hp'
    exact Option.some.inj hp' ▸ hpay
  have rep' := (hsafe.neutral rep).rep
  have hread' : translateWalk s'.mem v true false = some p :=
    (rep.inv.walk_congr rep'.inv (by omega) rfl true false).trans hread
  have hbyte : s'.mem (kernelBaseOffset + p) = b := by
    rw [hs']
    exact Function.update_self _ _ _
  have hload : UserStep host s' (.load v b) s' := hbyte ▸ .load (.inl hv) hread'
  have hown' : Owns blocks s'.mem v := fun q hq => by
    rw [hread'] at hq
    exact Option.some.inj hq ▸ hpay
  exact ⟨s', ⟨⟨hv, hown⟩, hstore⟩, ⟨⟨hv, hown'⟩, hload⟩, rep', by rw [hs']; rfl, by
      rw [hs']; rfl, (task_byte_iff rep'.inv).mpr ⟨hv, p, hread', hpay, hbyte⟩⟩

/-- One byte of the program's, written to a file that is open. -/
theorem ownStep_write (hblind : Blind host) (rep : KernelRep s.heap tabs blocks leaf)
    (hroom : 0x4000 ≤ s.room) (hbyte : (task blocks s).byte v = some b) {rfd : Int}
    (hopen : Opened s.fds 1 rfd) (hret : ∀ q, resultOf (host s.world (.write rfd q 1)).2 = 0) :
    ∃ s', OwnStep host blocks s (.syscall 1 1 v 1 0 (some (rfd, [b]))) s' ∧
      s'.fds.table = s.fds.table := by
  obtain ⟨hv, p, hread, hpay, -⟩ := (task_byte_iff rep.inv).mp hbyte
  have hout := rep.inv.outside_of_user (show v < 2 ^ 48 by omega) hread
  have hown : ∀ i, i < 1 → Owns blocks s.mem (v + i) := fun i hi q hq => by
    obtain rfl : i = 0 := by omega
    rw [Nat.add_zero, hread] at hq
    exact Option.some.inj hq ▸ hpay
  have hacc : accessOk s.mem false v 1 = true := (accessOk_inPage (by decide)
    (Nat.mod_lt v (by decide))).mpr ⟨userMemRangeOk_iff.mpr hout, p, hread⟩
  have hspec := sysWriteSeen_task hblind rep (show (1 : Int) < 2 ^ 31 by decide) hown
  cases hrun : sysWriteSeen host 1 v 1 s with
  | error e s' =>
    rcases (ends_of_error hrun).mp hspec with hshort | ⟨j, hj, hhigh⟩ | ⟨rfd', q, hopen', hmark⟩
    · omega
    · omega
    · obtain rfl : rfd' = rfd := Option.some.inj (hopen'.2.symm.trans hopen.2)
      rw [hret q] at hmark
      exact absurd hmark (by decide)
  | ok r s' =>
    obtain ⟨ret, out⟩ := r
    obtain ⟨hret', hfile, data, hdata, hlen, hbytes⟩ :=
      ((ends_of_ok hrun).mp hspec).write_of_has hacc hopen
    dsimp only at hret' hdata
    obtain ⟨b', rfl⟩ := List.length_eq_one_iff.mp hlen
    obtain rfl : b = b' := Option.some.inj (hbyte.symm.trans (hbytes 0 b' rfl))
    have hzero : ret = 0 := hret'.trans (hret 0)
    subst hzero hdata
    refine ⟨s', ⟨fun op hop => ?_, .of_seen (.write 1 v 1) rfl hrun⟩, hfile⟩
    cases hop
    exact hown

end

theorem hello_run (hblind : Blind host) (hret : ∀ w q, resultOf (host w (.write 1 q 1)).2 = 0)
    {a content : List UInt8} {entry rsp : Nat} (rep : KernelRep s.heap tabs blocks leaf)
    (hready : ProgramReady [a] content s entry rsp) (hcost : elfCost content ≤ 0x1e0000)
    (howns : ∀ v, v < 2 ^ 47 → v / 0x1000 ≠ 0x201 → Owns blocks s.mem v) :
    ∃ s', Run (OwnStep host blocks) s (helloEvents rsp) s' := by
  obtain ⟨place, harr⟩ := hready.stack
  have hlow := harr.low
  have hhigh := harr.inside 0 a rfl
  have hroom := hready.memory
  have hrsp : rsp < 2 ^ 47 ∧ rsp / 0x1000 ≠ 0x201 := by omega
  have hown := howns rsp hrsp.1 hrsp.2
  have hread := harr.argc.2 0 (by decide)
  rw [show UInt8.ofNat ([a].length / 256 ^ 0) = 1 by rw [List.length_singleton]; decide]
    at hread
  obtain ⟨q, hq, -, hbyte⟩ := userRead_cell hrsp.1 hread
  have hload : UserStep host s (.load rsp 1) s := by
    rw [← hbyte]
    exact .load (.inl hrsp.1) hq
  obtain ⟨p, hp⟩ := hready.writable rsp (by omega) (by omega)
  obtain ⟨s₁, hstore, hload₁, rep₁, hfds₁, hroom₁, hbyte₁⟩ :=
    ownStep_store host rep hrsp.1 hown hp 104
  have hopen : Opened s₁.fds 1 1 := by
    rw [hfds₁]
    exact ⟨by decide, by rw [hready.files]; rfl⟩
  obtain ⟨s₂, hwrite, hfile⟩ := ownStep_write hblind rep₁ (by omega) hbyte₁ hopen (hret _)
  -- file 7 is not open
  have hlacks : ∀ rfd, ¬ Opened s₂.fds 7 rfd := by
    rintro rfd ⟨-, h⟩
    rw [hfile, hfds₁, hready.files] at h
    cases h
  have hclose : ∃ s₃, OwnStep host blocks s₂ (.syscall 3 7 0 0 0xfffffff7 none) s₃ := by
    have hspec : Ends (sysClose host 7) s₂ (fun ret s' => Task.Call host (accessOk s₂.mem)
      (task blocks s₂) (.close 7) ret none (task blocks s')) _ :=
      sysClose_task _ (by decide) (by decide)
    cases hrun : sysClose host 7 s₂ with
    | error e s₃ =>
      obtain ⟨rfd, h, -⟩ := (ends_of_error hrun).mp hspec
      exact absurd h (hlacks rfd)
    | ok ret s₃ =>
      have hcall := (ends_of_ok hrun).mp hspec
      obtain rfl : ret = -eBADF := by
        generalize task blocks s₃ = t' at hcall
        cases hcall with
        | closeClosed closed => rfl
        | close isOpen asked => exact absurd isOpen (hlacks _)
      refine ⟨s₃, fun op hop => ?_, .of_seen (.close 7) rfl (bind_of_ok hrun)⟩
      cases hop
      trivial
  obtain ⟨s₃, hclose⟩ := hclose
  have hlast : OwnStep host blocks s₃ (.syscall 39 0 0 0 0xffffffffffffffda none) s₃ := by
    refine ⟨fun op hop => ?_, .syscall rfl⟩
    cases hop
  exact ⟨s₃, .cons ⟨⟨hrsp.1, hown⟩, hload⟩
    (.cons hstore (.cons hload₁ (.cons hwrite (.cons hclose (.cons hlast (.nil s₃))))))⟩

section

variable (host : Host σ) (w : σ) (a : List UInt8) (rfd : Int) (content : List UInt8)
  (errno : Int) (pos : σ → Nat) (prog : ProgramHost host w a rfd content errno pos)
  (hblind : Blind host) (p : Process) (m : Mem) (hz : TablesClear m) (args : List (List UInt8))
  (hargs : CommandLine args) (ha : args[0]? = some a)
  (hloads : elfVerdict errno content = .loads) (hclear : ClearOfArguments content)
  (entry rsp : Nat) (s₀ : Sys σ) (hstart : launch host p m w args = .ok (.started entry rsp) s₀)

include prog hz hargs ha hloads hclear hstart in
theorem launch_inPlace : ∃ blocks leaf, InPlace s₀ blocks leaf := by
  have hends := launch_ends prog p hz hargs ha hloads hclear
  rw [hstart] at hends
  cases hends with
  | started fits ready place => exact ⟨_, _, place⟩

include prog hblind hz hargs ha hloads hclear hstart

/-- **A program sees the small machine.** Let a program be started with any command line, from
any file that can be loaded and is clear of the arguments. Then every run of it that stays in
its own memory, with the bytes it loads, the results of its calls and the bytes they hand to the
host, is a run of the machine that has nothing but the program's bytes, its files and the host.
All that it finds outside of the page of the arguments is its own. -/
theorem program_refines :
    ∃ tabs blocks leaf, KernelRep s₀.heap tabs blocks leaf ∧
      (∀ v, v < 2 ^ 47 → v / 0x1000 ≠ 0x201 → Owns blocks s₀.mem v) ∧
      ∀ events s, Run (OwnStep host blocks) s₀ events s →
        Run (Task.Step host (accessOk s₀.mem)) (task blocks s₀) events (task blocks s) := by
  obtain ⟨blocks, leaf, hplace⟩ := launch_inPlace host w a rfd content errno pos prog p m hz
    args hargs ha hloads hclear entry rsp s₀ hstart
  obtain ⟨tabs, rep⟩ := hplace.inv.rep
  exact ⟨tabs, blocks, leaf, rep, fun v => hplace.owns, fun events s hrun =>
    ownRun_task prog.reads hblind rep (hplace.separate.unshared hplace.inv) hrun⟩

omit prog hblind hz hargs ha hloads hclear hstart in
/-- The program at `0x400000`, with its name for a command line. -/
theorem program_refines_hello :
    ∃ entry rsp s₀ s blocks,
      launch (fileHost 0 helloElf) ⟨0, 0, 0, 0, 0⟩ (fun _ => 0) 0 [[97]] =
        .ok (.started entry rsp) s₀ ∧
      Run (OwnStep (fileHost 0 helloElf) blocks) s₀ (helloEvents rsp) s ∧
      Run (Task.Step (fileHost 0 helloElf) (accessOk s₀.mem)) (task blocks s₀) (helloEvents rsp)
        (task blocks s) := by
  obtain ⟨entry, rsp, s₀, hstart, hready⟩ := launch_hello
  obtain ⟨tabs, blocks, leaf, rep, howns, hall⟩ :=
    program_refines (fileHost 0 helloElf) 0 [97] 0 helloElf 0 id (fileHost_program _ _)
    (fileHost_blind 0 helloElf) ⟨0, 0, 0, 0, 0⟩ (fun _ => 0) (fun _ _ _ => rfl)
    [[97]] commandLine_a rfl helloElf_loads helloElf_clear entry rsp s₀ hstart
  obtain ⟨s, hrun⟩ := hello_run (fileHost_blind 0 helloElf) (fun _ _ => rfl) rep hready
    (by decide +kernel) howns
  exact ⟨entry, rsp, s₀, s, blocks, hstart, hrun, hall _ _ hrun⟩

/-- **The kernel is out of the program's reach.** In every such run the heap stays as it was,
the tables translate as they did, and unless a request for memory was turned down, no cell has
changed but those of the program's blocks and those that no table and no block has. -/
theorem program_isolated :
    ∃ tabs blocks leaf, KernelRep s₀.heap tabs blocks leaf ∧
      (∀ v, v < 2 ^ 47 → v / 0x1000 ≠ 0x201 → Owns blocks s₀.mem v) ∧
      ∀ events s, Run (OwnStep host blocks) s₀ events s →
        HeapNeutral s₀ s ∧ (∀ v u w, translate s.mem v u w = translate s₀.mem v u w) ∧
        (s.refused = true ∨ ∀ x, ¬ Payload blocks x → ¬ OwnCell (tabs ++ blocks) x →
          s.mem x = s₀.mem x) := by
  obtain ⟨blocks, leaf, hplace⟩ := launch_inPlace host w a rfd content errno pos prog p m hz
    args hargs ha hloads hclear entry rsp s₀ hstart
  obtain ⟨tabs, rep⟩ := hplace.inv.rep
  refine ⟨tabs, blocks, leaf, rep, fun v => hplace.owns, fun events s hrun => ?_⟩
  obtain ⟨hn, hs⟩ :=
    ownRun_spares prog.reads hblind rep (hplace.separate.unshared hplace.inv) hrun
  refine ⟨hn.heapNeutral rep, fun v u w => rep.inv.translate_congr hn.rep.inv v u w,
    hs.imp_right fun hw x hpay hown => ?_⟩
  exact hw.mem x fun h => h.elim hown hpay

omit prog hblind hz hargs ha hloads hclear hstart in
/-- The same program, to the kernel. -/
theorem program_isolated_hello :
    ∃ entry rsp s₀ s blocks,
      launch (fileHost 0 helloElf) ⟨0, 0, 0, 0, 0⟩ (fun _ => 0) 0 [[97]] =
        .ok (.started entry rsp) s₀ ∧
      Run (OwnStep (fileHost 0 helloElf) blocks) s₀ (helloEvents rsp) s ∧ HeapNeutral s₀ s ∧
      ∀ v u w, translate s.mem v u w = translate s₀.mem v u w := by
  obtain ⟨entry, rsp, s₀, hstart, hready⟩ := launch_hello
  obtain ⟨tabs, blocks, leaf, rep, howns, hall⟩ :=
    program_isolated (fileHost 0 helloElf) 0 [97] 0 helloElf 0 id (fileHost_program _ _)
    (fileHost_blind 0 helloElf) ⟨0, 0, 0, 0, 0⟩ (fun _ => 0) (fun _ _ _ => rfl)
    [[97]] commandLine_a rfl helloElf_loads helloElf_clear entry rsp s₀ hstart
  obtain ⟨s, hrun⟩ := hello_run (fileHost_blind 0 helloElf) (fun _ _ => rfl) rep hready
    (by decide +kernel) howns
  exact ⟨entry, rsp, s₀, s, blocks, hstart, hrun, (hall _ _ hrun).1, (hall _ _ hrun).2.1⟩

end

end BpfExamples.Kvm
