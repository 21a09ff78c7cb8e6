import BpfExamples.Kvm.SharedPage
import BpfExamples.Kvm.TaskCalls

/-!
# Runs of system calls

Any number of calls, one after the other, and the loads and stores of the program between them.
A run that is not made to overwrite the kernel's memory is heap-neutral (`calls_heapNeutral`,
`safeRun_neutral`); one read into the rest of the arguments' page is not.

So the tables and blocks of the first state are those of every later one, and in each of them
`sys_read` and `sys_write` keep to their own memory exactly if there is room for their two
blocks (`readWrite_frame`). A write of a length that wraps does not.
-/

namespace BpfExamples.Kvm

open Mem

variable {σ : Type} {s s' : Sys σ} {tabs blocks : List Extent} {leaf : Nat → Nat}
  {host : Host σ}

/-- The heap's memory shows the same chunks in use, as much unused memory as before, and a top
that has not moved up. -/
structure HeapNeutral (s s' : Sys σ) : Prop where
  live : ∀ e, e ∈ liveChunks s'.heap ↔ e ∈ liveChunks s.heap
  free : freeTotal s'.heap = freeTotal s.heap
  room : s.room ≤ s'.room
  top : s'.heap.arena.top ≤ s.heap.arena.top

theorem Neutral.heapNeutral (rep : KernelRep s.heap tabs blocks leaf)
    (hn : Neutral s s' tabs blocks leaf) : HeapNeutral s s' := by
  have hroom := hn.room_le rep
  obtain ⟨⟨bin', T', inv', -⟩, htop, -⟩ := hn
  obtain ⟨bin, T, inv, -⟩ := rep
  refine ⟨fun e => ?_, ?_, hroom, htop⟩
  · rw [inv'.heap.mem_liveChunks, inv.heap.mem_liveChunks]
  · have hfree := inv.heap.freeTotal_eq
    have hfree' := inv'.heap.freeTotal_eq
    omega

/-! ## A page of the user -/

/-- A system whose program has the page at `0x400000`, and the kernel memory for its calls. -/
structure OnePage (s : Sys σ) (tabs blocks : List Extent) (leaf : Nat → Nat) : Prop where
  rep : KernelRep s.heap tabs blocks leaf
  unshared : Unshared s.mem
  page : UserBuffer blocks s.mem true 0x400000 0x1000
  room : 0x4000 ≤ s.room

theorem OnePage.neutral (h : OnePage s tabs blocks leaf) (hn : Neutral s s' tabs blocks leaf) :
    OnePage s' tabs blocks leaf :=
  ⟨hn.rep, h.unshared.congr h.rep.inv hn.rep.inv, h.page.congr h.rep.inv hn.rep.inv,
    h.room.trans (hn.room_le h.rep)⟩

/-- A kernel that has just booted is brought there by one `mmap`. -/
theorem exists_onePage (w : σ) :
    ∃ k k' tabs blocks leaf, Booted k ∧ mmap k 0x400000 0x1000 protRW = .ok (k', 0x400000) ∧
      OnePage (Sys.start k' w) tabs blocks leaf := by
  obtain ⟨k, k', c, hboot, -, hok, hm, hroom⟩ := booted_mmap protRW
  obtain ⟨tabs, rep⟩ := hm.inv.rep
  have hleaves : mapLeaves (mmapAddr k.lastMmapped 0x400000 0x1000) (c.addr + 16) protRW
      (0x1000 / 0x1000) 0 (fun _ => 0) =
        Function.update (fun _ => 0) 0x400 (leafWord (c.addr + 16) protRW) := by
    rw [show mmapAddr k.lastMmapped 0x400000 0x1000 = 0x400000 from rfl]
    rfl
  rw [hleaves] at rep
  have hb := rep.inv.bounds (e := c) List.mem_cons_self
  have hfits := hm.fits
  have hal := hm.aligned
  unfold Extent.fin at hb
  obtain ⟨q, hq⟩ : ∃ q, c.addr + 16 = 0x8000000000 + q := ⟨c.addr + 16 - 0x8000000000, by omega⟩
  have hleaf : ∀ a u w,
      leafTranslate (leafWord (c.addr + 16) protRW) a u w = some (q + a % 0x1000) := by
    intro a u w
    rw [leafTranslate_leafWord (by omega) (by omega) (.inr hq)]
    exact if_pos ⟨fun _ => by decide, fun _ => by decide⟩
  refine ⟨k, k', tabs, [c], _, hboot, hok, rep, fun v v' p hv hv' hp hp' => ?_,
    fun i hi => ?_, ?_⟩
  · -- there is one page only
    have hpage : ∀ v p, Outside v → translateWalk k'.heap.mem v true false = some p →
        v / 0x1000 = 0x400 ∧ p = q + v % 0x1000 := by
      intro v p hv hp
      rw [rep.inv.walk_user hv] at hp
      by_cases hv' : v / 0x1000 = 0x400
      · rw [hv', Function.update_self, hleaf] at hp
        exact ⟨hv', (Option.some.inj hp).symm⟩
      · rw [Function.update_of_ne hv'] at hp
        cases hp
    have h₁ := hpage v p hv hp
    have h₂ := hpage v' p hv' hp'
    omega
  · have hout : Outside (0x400000 + i) := ⟨by omega, by omega, by omega⟩
    have hwalk : translateWalk k'.heap.mem (0x400000 + i) true true = some (q + i) := by
      rw [rep.inv.walk_user hout, show (0x400000 + i) / 0x1000 = 0x400 by omega,
        Function.update_self, hleaf, show (0x400000 + i) % 0x1000 = i by omega]
    refine ⟨userMemRangeOk_iff.mpr hout, _, hwalk, c, List.mem_cons_self, ?_⟩
    unfold Extent.fin kernelBaseOffset
    omega
  · show 0x4000 ≤ k'.heap.arena.topSize
    omega

section

variable (hhost : HostReads host) (herrno : ∀ w call, (host w call).2.errno ≤ 4095)
  (hblind : Blind host) (h : OnePage s tabs blocks leaf) {n : Nat} (hn : n ≤ 0x1000)

include hhost herrno h hn

theorem OnePage.not_stalls (call : Int → Nat → Nat → HostCall) (fd : Int) :
    ¬ Stalls host call s fd 0x400000 n := by
  have hroom := h.room
  rintro (hshort | ⟨j, hj, hhigh⟩ | ⟨rfd, q, -, hmark⟩)
  · omega
  · omega
  · exact resultOf_ne_unused (hhost.errno _ _) (herrno _ _) hmark

include hblind

/-- A write from the page comes back. -/
theorem OnePage.write (fd : Int) (hfd : fd < 2 ^ 31) :
    ∃ ret out s', sysWriteSeen host fd 0x400000 n s = .ok (ret, out) s' := by
  have hspec := sysWriteSeen_task hblind h.rep hfd fun i hi =>
    h.page.owns h.rep.inv (Nat.lt_of_lt_of_le hi hn)
  cases hrun : sysWriteSeen host fd 0x400000 n s with
  | ok r s' => exact ⟨r.1, r.2, s', rfl⟩
  | error e s' =>
    exact absurd ((ends_of_error hrun).mp hspec) (h.not_stalls hhost herrno hn _ _)

/-- So does a read to it. -/
theorem OnePage.read (fd : Int) (hfd : fd < 2 ^ 31) :
    ∃ ret s', sysRead host fd 0x400000 n s = .ok ret s' := by
  have hspec := sysRead_task hblind h.rep h.unshared hfd (hhost.replyFits s.world n) fun i hi =>
    h.page.owns h.rep.inv (Nat.lt_of_lt_of_le hi hn)
  cases hrun : sysRead host fd 0x400000 n s with
  | ok ret s' => exact ⟨ret, s', rfl⟩
  | error e s' =>
    exact absurd ((ends_of_error hrun).mp hspec) (h.not_stalls hhost herrno hn _ _)

omit herrno hblind in
theorem OnePage.callOk (fd : Int) : CallOk host blocks s (.read fd 0x400000 n) := by
  refine fun _ _ => ⟨hhost.replyFits s.world n, ?_⟩
  rintro x ⟨i, p, hi, hp, rfl⟩
  obtain ⟨-, p', hp', hpay⟩ := h.page i (by omega)
  rw [hp] at hp'
  exact Option.some.inj hp' ▸ hpay

end

/-! ## Calls -/

/-- **System calls are heap-neutral.** From any state whose heap and page tables are in order,
in every run of the four calls in which each call returns and none is made to overwrite the
kernel's memory, each state has the heap of the first one, and each further call leaves it as it
was. -/
theorem calls_heapNeutral (host : Host σ) (s₀ : Sys σ) (tabs blocks : List Extent)
    (leaf : Nat → Nat) (rep : KernelRep s₀.heap tabs blocks leaf) (s : Sys σ)
    (hr : Reach (· = s₀) (CallOk host blocks) (Sys.call host) s) :
    HeapNeutral s₀ s ∧
      ∀ op s', CallOk host blocks s op → s.call host op = .ok s' → HeapNeutral s s' := by
  have hn : Neutral s₀ s tabs blocks leaf := by
    refine Reach.inv (I := fun s => Neutral s₀ s tabs blocks leaf) ?_ ?_ hr
    · rintro s rfl
      exact Neutral.refl rep
    · intro s op s' hn hok hcall
      exact hn.trans (Sys.call_neutral hn.rep hok hcall)
  exact ⟨hn.heapNeutral rep, fun op s' hok hcall =>
    (Sys.call_neutral hn.rep hok hcall).heapNeutral hn.rep⟩

/-- A write and a read of a program that has one page. -/
theorem calls_heapNeutral_page :
    ∃ (k k' : Kernel) (s₁ s₂ : Sys Nat), Booted k ∧
      mmap k 0x400000 0x1000 protRW = .ok (k', 0x400000) ∧
      (Sys.start k' 0).call (fileHost 0 [104, 105]) (.write 1 0x400000 2) = .ok s₁ ∧
      s₁.call (fileHost 0 [104, 105]) (.read 0 0x400000 2) = .ok s₂ ∧
      HeapNeutral (Sys.start k' 0) s₂ := by
  obtain ⟨k, k', tabs, blocks, leaf, hboot, hok, hpage⟩ := exists_onePage (0 : Nat)
  have hhost := fileHost_reads 0 [104, 105]
  have herrno := fun w call => (fileHost_errno 0 [104, 105] w call).2
  have hblind := fileHost_blind 0 [104, 105]
  have hn : 2 ≤ 0x1000 := by decide
  obtain ⟨ret₁, out, s₁, hwrite⟩ := hpage.write hhost herrno hblind hn 1 (by decide)
  have hcall₁ := Sys.call_of_ok (.write 1 0x400000 2)
    (run_of_seen (sysWriteSeen_fst _ 1 0x400000 2) hwrite)
  have hok₁ : CallOk (fileHost 0 [104, 105]) blocks (Sys.start k' 0) (.write 1 0x400000 2) :=
    trivial
  have hpage₁ := hpage.neutral (Sys.call_neutral hpage.rep hok₁ hcall₁)
  obtain ⟨ret₂, s₂, hread⟩ := hpage₁.read hhost herrno hblind hn 0 (by decide)
  have hcall₂ := Sys.call_of_ok (.read 0 0x400000 2) hread
  have hreach : Reach (· = Sys.start k' 0) (CallOk (fileHost 0 [104, 105]) blocks)
    (Sys.call _) s₂ := .step (.step (.start rfl) hok₁ hcall₁) (hpage₁.callOk hhost hn 0) hcall₂
  exact ⟨k, k', s₁, s₂, hboot, hok, hcall₁, hcall₂,
    (calls_heapNeutral _ _ tabs blocks leaf hpage.rep s₂ hreach).1⟩

/-- **A call that is not neutral**: behind the arguments' block of 0x80 bytes, a read puts 0x60
where the allocator keeps the size of a chunk. -/
theorem sysRead_shared_page :
    ∃ (k : Kernel) (s s' : Sys Nat), Booted k ∧ argumentArea 0x20 (Sys.start k 0) =
      .ok (0x8000201000, 0x201000) s ∧
      s.call (fileHost 0 [0x60, 0, 0, 0, 0, 0, 0, 0]) (.read 0 0x201070 8) = .ok s' ∧
        ¬ HeapNeutral s s' := by
  have hz : TablesClear fun _ => 0 := fun _ _ _ => rfl
  obtain ⟨s, t, hrun, hpage⟩ := argumentArea_spec (s :=
    Sys.start ⟨bootHeap fun _ => 0, minusOne⟩ 0) hz rfl (show 0x20 ≤ 0x4000 by decide)
  have htable : t.addr = 0x8000201ff0 := hpage.table
  have hfd : Opened s.fds 0 0 := by
    rw [hpage.fds]
    exact ⟨Int.le_refl 0, rfl⟩
  have hworld : id s.world = 0 := hpage.world
  have hroom := hpage.room
  have hpaged : ∀ e ∈ [t] ++ [argumentBlock 0x20], (e.addr + 16) % 0x1000 = 0 := by
    intro e he
    rcases List.mem_cons.mp he with rfl | he
    · rw [htable]
    · rw [List.mem_singleton.mp he]
      decide
  obtain ⟨ret, s', hread, htotal⟩ :=
    sysRead_header 0x20 (by decide) hpage.rep List.mem_cons_self rfl hpaged ⟨t,
    List.mem_cons_self, by rw [htable]; decide⟩ (by omega) (fileHost_file 0 _) hworld hfd
  exact ⟨_, s, s', ⟨_, hz, rfl⟩, hrun, Sys.call_of_ok (.read 0 0x201070 8) hread,
    fun hn => htotal hn.free⟩

/-! ## Programs -/

/-- What a step must not be made to overwrite: a store of the program goes into blocks, and so
does what a call gives it. -/
def EventOk (host : Host σ) (blocks : List Extent) (s : Sys σ) : Event → Prop
  | .load _ _ => True
  | .store v _ =>
    ∀ p, translateWalk s.mem v true true = some p → Payload blocks (kernelBaseOffset + p)
  | .syscall nr arg0 arg1 arg2 _ _ =>
    ∀ op, syscallTable (nr % 2 ^ 32) arg0 arg1 arg2 = some (.call op) → CallOk host blocks s op

/-- A step of a program that overwrites nothing of the kernel's. -/
def SafeStep (host : Host σ) (blocks : List Extent) (s : Sys σ) (e : Event) (s' : Sys σ) :
    Prop :=
  EventOk host blocks s e ∧ UserStep host s e s'

theorem SafeStep.neutral (rep : KernelRep s.heap tabs blocks leaf) {e : Event}
    (h : SafeStep host blocks s e s') : Neutral s s' tabs blocks leaf := by
  obtain ⟨hok, h⟩ := h
  cases h with
  | load canonical walk => exact Neutral.refl rep
  | store canonical walk =>
    exact Neutral.of_stores rep (stores_setMem fun x hx => Function.update_of_ne hx _ _)
      fun x hx => .inl (hx ▸ hok _ walk)
  | syscall run =>
    rcases syscallSeen_cases run with ⟨-, -, -, rfl⟩ | ⟨op, r, hentry, -, hseen⟩
    · exact Neutral.refl rep
    · have hrun := run_of_seen (op.seen_fst host) hseen
      exact (ends_of_ok hrun).mp (SysCall.keepsHeap rep op (hok op hentry))

/-- Over any number of steps the heap, the tables and the blocks are the same. -/
theorem safeRun_neutral {s₀ : Sys σ} {events : List Event}
    (rep : KernelRep s₀.heap tabs blocks leaf) (hrun : Run (SafeStep host blocks) s₀ events s) :
    Neutral s₀ s tabs blocks leaf :=
  Run.inv (I := fun s => Neutral s₀ s tabs blocks leaf)
    (fun _ _ _ hn h => hn.trans (h.neutral hn.rep)) hrun (Neutral.refl rep)

/-- The state with nothing on record. -/
def Sys.fresh (s : Sys σ) : Sys σ := { s with written := fun _ => False }

/-- **The writes of `sys_read` and `sys_write`.** From any state whose heap and page tables are
in order, in every run of a program that overwrites nothing of the kernel's, in each state and
for all arguments: a call of `sys_write` writes nothing but cells of the arena that no page
table and no live block has, exactly when it is rejected or served; and so does a call of
`sys_read` whose buffer is in blocks, apart from the bytes of the buffer that it returns. -/
theorem readWrite_frame (host : Host σ) (hhost : HostReads host) (s₀ : Sys σ)
    (tabs blocks : List Extent) (leaf : Nat → Nat) (rep : KernelRep s₀.heap tabs blocks leaf)
    (events : List Event) (s : Sys σ) (hrun : Run (SafeStep host blocks) s₀ events s)
    (fildes : Int) (buf nbyte : Nat) :
    (Ends (sysWrite host fildes buf nbyte) s.fresh (fun _ => OnlyOwn (tabs ++ blocks))
      (fun _ => OnlyOwn (tabs ++ blocks)) ↔ WriteServed s fildes buf nbyte) ∧
    (CallOk host blocks s (.read fildes buf nbyte) →
      (ReadOwns (tabs ++ blocks) buf nbyte s.fresh (sysRead host fildes buf nbyte) ↔
        ReadServed s fildes buf nbyte)) := by
  have rep' : KernelRep s.fresh.heap tabs blocks leaf := (safeRun_neutral rep hrun).rep
  exact ⟨sysWrite_frame rep' (fun _ => id) fildes buf nbyte, fun hok =>
    sysRead_frame hhost rep' (fun _ => id) fildes fun h₀ hacc => (hok h₀ hacc).2⟩

/-- With a page of its own and memory left, a program's calls are served. -/
theorem OnePage.served (h : OnePage s tabs blocks leaf) (fd : Int) {n : Nat} (hn : n ≤ 0x1000) :
    WriteServed s fd 0x400000 n ∧ ReadServed s fd 0x400000 n := by
  have hroom : 0x4000 ≤ s.heap.arena.topSize := h.room
  have hchunk := (alignupTo_spec (n + 16)).2.2
  have hsmall : chunkSize 24 = 0x80 := rfl
  have hfirst : RoomFor s.heap (chunkSize n) := .inr (by unfold chunkSize; omega)
  have hthen : RoomAfter s.heap (chunkSize n) (chunkSize 24) := by
    unfold RoomAfter
    split
    · exact .inr (.inr (by omega))
    · refine .inr ?_
      unfold chunkSize at hsmall ⊢
      omega
  exact ⟨.inr (.inr (.inr (.inr ⟨by omega, hfirst, .inl hthen⟩))),
    .inr (.inr (.inr (.inr ⟨hfirst, hthen⟩)))⟩

/-- A program with one page stores a byte, writes it out and reads two others; in the state
behind that, a write and a read are served. -/
theorem readWrite_frame_page :
    ∃ (k k' : Kernel) (s : Sys Nat) (tabs blocks : List Extent) (r₁ r₂ : Nat) (out : Output),
      Booted k ∧ mmap k 0x400000 0x1000 protRW = .ok (k', 0x400000) ∧
      Run (SafeStep (fileHost 0 [104, 105]) blocks) (Sys.start k' 0)
        [.store 0x400000 33, .syscall 1 1 0x400000 1 r₁ out,
          .syscall 0 0 0x400000 2 r₂ none] s ∧
      (∃ ret s', sysWrite (fileHost 0 [104, 105]) 1 0x400000 2 s.fresh = .ok ret s' ∧
        OnlyOwn (tabs ++ blocks) s') ∧
      ∃ ret s', sysRead (fileHost 0 [104, 105]) 0 0x400000 2 s.fresh = .ok ret s' ∧
        OnlyRead (tabs ++ blocks) s.mem 0x400000 ret.toNat s' := by
  obtain ⟨k, k', tabs, blocks, leaf, hboot, hok, hpage⟩ := exists_onePage (0 : Nat)
  have hhost := fileHost_reads 0 [104, 105]
  have herrno := fun w call => (fileHost_errno 0 [104, 105] w call).2
  have hblind := fileHost_blind 0 [104, 105]
  have hn : 2 ≤ 0x1000 := by decide
  -- the store
  obtain ⟨-, p, hp, hpay⟩ := hpage.page 0 (by decide)
  obtain ⟨s₁, hstep₁⟩ : ∃ s₁, SafeStep (fileHost 0 [104, 105]) blocks (Sys.start k' 0)
      (.store 0x400000 33) s₁ := by
    refine ⟨_, fun p' hp' => ?_, .store (.inl (by decide)) hp⟩
    rw [hp] at hp'
    exact Option.some.inj hp' ▸ hpay
  have hpage₁ := hpage.neutral (hstep₁.neutral hpage.rep)
  -- the write
  obtain ⟨r₁, out, s₂, hwrite⟩ :=
    hpage₁.write hhost herrno hblind (show 1 ≤ 0x1000 by decide) 1 (by decide)
  have hstep₂ : SafeStep (fileHost 0 [104, 105]) blocks s₁
      (.syscall 1 1 0x400000 1 (ofInt r₁) out) s₂ := by
    refine ⟨fun op hop => ?_, .of_seen (.write 1 0x400000 1) rfl hwrite⟩
    cases hop
    trivial
  have hpage₂ := hpage₁.neutral (hstep₂.neutral hpage₁.rep)
  -- the read
  obtain ⟨r₂, s₃, hread⟩ := hpage₂.read hhost herrno hblind hn 0 (by decide)
  have hstep₃ : SafeStep (fileHost 0 [104, 105]) blocks s₂
      (.syscall 0 0 0x400000 2 (ofInt r₂) none) s₃ := by
    refine ⟨fun op hop => ?_, .of_seen (.read 0 0x400000 2) rfl ?_⟩
    · cases hop
      exact hpage₂.callOk hhost hn 0
    · exact bind_of_ok hread
  have hpage₃ := hpage₂.neutral (hstep₃.neutral hpage₂.rep)
  have hrun : Run (SafeStep (fileHost 0 [104, 105]) blocks) (Sys.start k' 0) [.store 0x400000
    33, .syscall 1 1 0x400000 1 (ofInt r₁) out, .syscall 0 0 0x400000 2 (ofInt r₂) none] s₃ :=
    .cons hstep₁ (.cons hstep₂ (.cons hstep₃ (.nil s₃)))
  have hframe :=
    fun fd => readWrite_frame _ hhost _ tabs blocks leaf hpage.rep _ s₃ hrun fd 0x400000 2
  have hfresh : OnePage s₃.fresh tabs blocks leaf :=
    ⟨hpage₃.rep, hpage₃.unshared, hpage₃.page, hpage₃.room⟩
  obtain ⟨w, out', s₄, hseen⟩ := hfresh.write hhost herrno hblind hn 1 (by decide)
  have hwritten := run_of_seen (sysWriteSeen_fst _ 1 0x400000 2) hseen
  obtain ⟨r, s₅, hread'⟩ := hfresh.read hhost herrno hblind hn 0 (by decide)
  have hw := (ends_of_ok hwritten).mp ((hframe 1).1.mpr (hpage₃.served 1 hn).1)
  have hr := (ends_of_ok hread').mp
    (((hframe 0).2 (hpage₃.callOk hhost hn 0)).mpr (hpage₃.served 0 hn).2)
  exact ⟨k, k', s₃, tabs, blocks, ofInt r₁, ofInt r₂, out, hboot, hok, hrun,
    ⟨w, s₄, hwritten, hw⟩, r, s₅, hread', hr.2⟩

/-- **A write that leaves its memory**: one page of the user is mapped at `0x400000`, and the
length is so large that the end of the buffer wraps to `0x200000`. `access_ok` finds both ends
in the user range and has no page to look at, `kmalloc` returns null, and the copy goes to
address 0, where the kernel is. -/
theorem sysWrite_wrapped :
    ∃ k k', Booted k ∧ mmap k 0x400000 0x1000 protRW = .ok (k', 0x400000) ∧
      (∃ tabs blocks leaf, KernelRep k'.heap tabs blocks leaf) ∧
      Ends (sysWrite (fileHost 0 []) 1 0x400000 0xffffffffffe00001) (Sys.start k' 0)
        (fun _ s' => s'.written 0x8000000000) (fun _ s' => s'.written 0x8000000000) := by
  obtain ⟨k, k', tabs, blocks, leaf, hboot, hok, hpage⟩ := exists_onePage (0 : Nat)
  refine ⟨k, k', hboot, hok, ⟨_, _, _, hpage.rep⟩, ?_⟩
  -- the first byte of the buffer is there
  obtain ⟨hr, p, hp, -⟩ := hpage.page 0 (by decide)
  have hwalk := hpage.rep.inv.walk_read (userMemRangeOk_iff.mp hr) hp
  have hcell : cellAt k'.heap.mem false 0x400000 = some (kernelBaseOffset + p) :=
    (hpage.rep.inv.cellAt_eq false 0x400000).trans
    (hpage.rep.inv.leafCell_user hr (by decide) hwalk)
  have hacc : accessOk k'.heap.mem false 0x400000 0xffffffffffe00001 = true := rfl
  refine (ends_congr (sysWrite_checked (by decide) hacc)).mpr ?_
  exact (sysWriteBody_long (s := Sys.start k' 0) _ 1 0x400000 (by decide)).2 _ hcell

end BpfExamples.Kvm
