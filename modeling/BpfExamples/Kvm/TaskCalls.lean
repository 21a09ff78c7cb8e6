import BpfExamples.Kvm.TaskView

/-!
# The system calls as the program sees them

A system call that returns makes a step of the small machine on what the program has of the
system, whatever the allocator, the copies and the request to the hypervisor do in between, as
long as the program stays in its own memory: `sysRead_task`, `sysWriteSeen_task`, `sysOpen_task`
and `sysClose_task`.
-/

namespace BpfExamples.Kvm

open Mem

variable {σ : Type} {s s₁ s₂ s' : Sys σ} {tabs blocks : List Extent} {leaf : Nat → Nat}
  {host : Host σ}

/-! ## `sys_read` and `sys_write` -/

/-- The host does not look at where in the guest a buffer is. -/
structure Blind (host : Host σ) : Prop where
  read : ∀ w fd buf n, host w (.read fd buf n) = host w (.read fd 0 n)
  write : ∀ w fd buf n, host w (.write fd buf n) = host w (.write fd 0 n)

theorem fileHost_blind (rfd : Int) (content : List UInt8) : Blind (fileHost rfd content) :=
  ⟨fun _ _ _ _ => rfl, fun _ _ _ _ => rfl⟩

/-- The physical address of a block is one of the guest's memory. -/
theorem Taken.lt_memory {len align : Nat} {c : Extent}
    (ht : Taken s s' tabs blocks leaf len align c) {q : Nat}
    (hq : c.addr + 16 = 0x8000000000 + q) : q < 0x400000 := by
  have hb := ht.alloc.rep.inv.bounds (e := c) List.mem_cons_self
  have hsize := ht.alloc.size
  have hup := alignupTo_spec (len + 16)
  unfold Extent.fin at hb
  omega

/-- `kmalloc` returns a block unless there is little memory left. -/
theorem doKmalloc_null_or (rep : KernelRep s.heap tabs blocks leaf) (len : Nat) :
    Ends (doKmalloc len mallocNoAlign) s
      (fun dst s' => (dst = 0 ∧ s.room < len + 0x1090) ∨
        ∃ c, dst = c.addr + 16 ∧ Taken s s' tabs blocks leaf len mallocNoAlign c)
      fun _ _ => s.room < len + 0x1090 := by
  refine (doKmalloc_spec rep len (.inl rfl)).mono (fun dst s' h => ?_) fun _ _ h => h.1.short
  rcases h with h | ⟨h, hbig, -⟩ | ⟨h, htd⟩
  · exact .inr h
  · have hroom := rep.room_le
    exact .inl ⟨h, by omega⟩
  · exact .inl ⟨h, htd.short⟩

/-- What can keep a call that moves bytes from coming back: too little memory, a buffer that
ends above the middle of the 48-bit range, or a result of the host that is the mark for none. -/
def Stalls (host : Host σ) (call : Int → Nat → Nat → HostCall) (s : Sys σ) (fd : Int)
    (buf n : Nat) : Prop :=
  s.room < n + 0x2138 ∨ (∃ j, j < n ∧ 2 ^ 47 ≤ buf + j) ∨
    ∃ rfd q, Opened s.fds fd rfd ∧ resultOf (host s.world (call rfd q n)).2 = unusedVar

section

variable {fd : Int} {buf n : Nat}

/-- The copy back, to the program's buffer. -/
theorem copyBack_task {c : Extent} {ret : Int} (rep : KernelRep s.heap tabs (c :: blocks) leaf)
    (hfits : n + 16 ≤ c.size) (hbuf : UserBuffer blocks s.mem true buf n) (hun : Unshared s.mem)
    (hret : ret ≤ n) :
    Ends (copyBack buf (c.addr + 16) ret) s
      (fun _ s' => KernelRep s'.heap tabs (c :: blocks) leaf ∧ s'.fds = s.fds ∧
        s'.world = s.world ∧
        (∀ i, i < ret.toNat → buf + i < 2 ^ 47) ∧
        ∀ v p, Outside v → translateWalk s.mem v true false = some p →
          Payload blocks (kernelBaseOffset + p) →
          s'.mem (kernelBaseOffset + p) =
            if buf ≤ v ∧ v < buf + ret.toNat then s.mem (c.addr + 16 + (v - buf))
              else s.mem (kernelBaseOffset + p))
      fun _ _ => ∃ j, j < n ∧ 2 ^ 47 ≤ buf + j := by
  unfold copyBack
  refine Ends.ite (fun hpos => ?_) fun hneg => ?_
  · have hbuf' : UserBuffer blocks s.mem true buf ret.toNat := fun j hj => hbuf j (by omega)
    refine (memcpy_toUser rep (by omega) hbuf' hun).mono (fun _ s' h => ?_)
      fun _ _ ⟨j, hj, hhigh⟩ => ⟨j, by omega, hhigh⟩
    obtain ⟨hcopy, hst, hfds, hworld⟩ := h
    refine ⟨rep.stores hst ?_, hfds, hworld, fun i hi => (hcopy i hi).1,
      fun v p hv hp hpay => ?_⟩
    · rintro x ⟨j, p, hj, hp, rfl⟩
      obtain ⟨-, q, hq, e, he, hex⟩ := hbuf' j hj
      rw [hp] at hq
      exact .inl ⟨e, List.mem_cons_of_mem _ he, Option.some.inj hq ▸ hex⟩
    · by_cases hr : buf ≤ v ∧ v < buf + ret.toNat
      · obtain ⟨j, rfl⟩ : ∃ j, v = buf + j := ⟨v - buf, by omega⟩
        obtain ⟨-, q, hq, -⟩ := hbuf' j (by omega)
        have hsame := rep.inv.walk_read hv hq
        rw [hp] at hsame
        rw [if_pos hr, Nat.add_sub_cancel_left, Option.some.inj hsame]
        exact (hcopy j (by omega)).2 q hq
      · rw [if_neg hr]
        refine hst.mem _ ?_
        rintro ⟨j, q, hj, hq, heq⟩
        have hout : Outside (buf + j) := userMemRangeOk_iff.mp (hbuf' j hj).1
        rw [← Nat.add_left_cancel heq] at hq
        have := hun v (buf + j) p hv hout hp (rep.inv.walk_read hout hq)
        omega
  · have hz : ret.toNat = 0 := by omega
    refine ends_pure.mpr ⟨rep, rfl, rfl, fun i hi => by omega, fun v p _ _ _ => ?_⟩
    rw [if_neg (by omega)]

/-- What a read has put into the block `c`. -/
inductive Fetched (host : Host σ) (fd : Int) (n : Nat) (c : Extent) (s s' : Sys σ) : Int → Prop
  | closed (isClosed : (task [] s).Lacks fd) (world : s'.world = s.world) :
      Fetched host fd n c s s' (-eBADF)
  | opened {rfd : Int} {w : σ} {r : HostReply} (isOpen : Opened s.fds fd rfd)
      (asked : host s.world (.read rfd 0 n) = (w, r)) (world : s'.world = w)
      (bytes : ∀ i, i < n → s'.mem (c.addr + 16 + i) = Task.fetched r n i) :
      Fetched host fd n c s s' (resultOf r)

theorem lacks_of_none (h : s.fds.table fd.toNat = none) : (task blocks s).Lacks fd := by
  rintro rfd ⟨-, hopen⟩
  rw [show s.fds.table fd.toNat = some rfd from hopen] at h
  cases h

/-- **The request of `sys_read`**, in a block that was just taken for it. -/
theorem hpRead_fetched (hblind : Blind host) {c : Extent}
    (ht : Taken s s₁ tabs blocks leaf n mallocNoAlign c) {q : Nat}
    (hq : c.addr + 16 = 0x8000000000 + q) (h₀ : 0 ≤ fd) (hfd : fd < 2 ^ 31)
    (hreply : ReplyFits host s.world n) :
    Ends (hpRead host fd q n) s₁
      (fun ret s₂ => Fetched host fd n c s s₂ ret ∧ KernelRep s₂.heap tabs (c :: blocks) leaf ∧
        ret ≤ n ∧
        s₂.fds.table = s.fds.table ∧ ∀ x, Payload blocks x → s₂.mem x = s.mem x)
      fun _ _ => s₁.room < 0x10a8 ∨
        ∃ rfd, Opened s.fds fd rfd ∧ resultOf (host s.world (.read rfd q n)).2 = unusedVar := by
  have hfits := ht.alloc.fits
  have hb := ht.alloc.rep.inv.bounds (e := c) List.mem_cons_self
  unfold Extent.fin at hb
  have hbuf : BufferOwned (c :: blocks) q n :=
    ⟨by omega, fun x h₁ h₂ => ⟨c, List.mem_cons_self, by omega, by unfold Extent.fin; omega⟩⟩
  have hworld : s₁.world = s.world := ht.world
  have hasked := hpRwSeen_asked host .read .read (fun _ _ _ => rfl)
    (fun _ => .inl rfl) ht.alloc.rep hbuf (ht.lt_memory hq) h₀ hfd
  rw [hpRead, ← hpRwSeen_fst, ends_map]
  have hneutral := hpRw_neutral host .read fd ht.alloc.rep hbuf
  rw [← hpRwSeen_fst, ends_map] at hneutral
  rw [ht.fds, hworld] at hasked
  refine (hasked.and hneutral).mono ?_ fun _ _ h => h.1
  rintro ⟨ret, out⟩ s₂ ⟨⟨hask, htab⟩, hle, hn⟩
  refine ⟨?_, hn.rep, hle rfl (hworld.symm ▸ hreply), htab, fun x hx => ?_⟩
  · cases hask with
    | closed isClosed world mem =>
      exact .closed (lacks_of_none (by rw [← ht.fds]; exact isClosed)) (world.trans hworld)
    | @opened rfd isOpen world mem =>
      refine .opened (by rw [← ht.fds]; exact isOpen) ?_ world fun i hi => ?_
      · rw [← hworld, ← hblind.read]
      · have hzero : s₁.mem (c.addr + 16 + i) = 0 := ht.alloc.zero _ (by omega) (by omega)
        rw [mem _ ⟨c, List.mem_cons_self, by omega, by unfold Extent.fin; omega⟩,
          Task.fetched, ← hzero, hq]
        exact splice_add _ _ _ _
  · -- nobody else's block
    have hold := ht.mem x (hx.not_own tabs)
    have hsub : Payload (c :: blocks) x := by
      obtain ⟨e, he, hex⟩ := hx
      exact ⟨e, List.mem_cons_of_mem _ he, hex⟩
    cases hask with
    | closed isClosed world mem => exact (mem x hsub).trans hold
    | @opened rfd isOpen world mem =>
      refine (mem x hsub).trans (((receive_stores _ _).mem x ?_).trans hold)
      rintro ⟨fd', buf', n', heq, h₁, h₂⟩
      cases heq
      refine hx.not_own tabs (ht.alloc.rep.own_of_has ⟨by omega, ?_⟩)
      unfold Extent.fin
      omega

/-- **`sys_read`** into memory that is the program's. It comes back unless it stalls. -/
theorem sysRead_task (hblind : Blind host) (rep : KernelRep s.heap tabs blocks leaf)
    (hun : Unshared s.mem) (hfd : fd < 2 ^ 31) (hreply : ReplyFits host s.world n)
    (hown : ∀ i, i < n → Owns blocks s.mem (buf + i)) :
    Ends (sysRead host fd buf n) s
      (fun ret s' => Task.Call host (accessOk s.mem) (task blocks s)
        (.read fd buf n) ret none (task blocks s'))
      fun _ _ => Stalls host .read s fd buf n := by
  by_cases hneg : fd < 0
  · rw [sysRead, if_pos hneg, ends_pure]
    exact .readNegative hneg
  cases hacc : accessOk s.mem true buf n with
  | false =>
    have hon : onMem (fun m => accessOk m true buf n) s = .ok false s := by rw [onMem, hacc]
    rw [sysRead, if_neg hneg, ends_bind_of_ok hon]
    exact ends_pure.mpr (.readFault (by omega) hacc)
  | true =>
  rw [ends_congr (sysRead_checked hneg hacc), sysReadBody]
  refine ((doKmalloc_null_or rep n).mono (fun _ _ h => h) fun _ _ h => .inl (by omega)).bind
    fun dst s₁ hdst => ?_
  rcases hdst with ⟨rfl, hshort⟩ | ⟨c, rfl, ht⟩
  · rw [ends_bind_of_error (physical_zero s₁)]
    exact .inl (by omega)
  have hroom₁ : s.room ≤ s₁.room + n + 0x1090 := ht.alloc.room
  obtain ⟨q, hq, hroom, -, -⟩ := ht.buffer
  have hphys : ofExec (physical (c.addr + 16)) s₁ = .ok q s₁ := by
    rw [hq, physical_window (by omega)]
    rfl
  have hbuf := userBuffer_of_accessOk rep.inv hacc (by omega) hown
  rw [ends_bind_of_ok hphys]
  refine ((hpRead_fetched hblind ht hq (by omega) hfd hreply).mono (fun _ _ h => h) fun _ _ h =>
    ?_).bind fun ret s₂ h₂ => ?_
  · rcases h with h | ⟨rfd, hopen, hres⟩
    · exact .inl (by omega)
    · exact .inr (.inr ⟨rfd, q, hopen, hres⟩)
  obtain ⟨hfetch, rep₂, hle, htab, hmem₂⟩ := h₂
  refine ((copyBack_task rep₂ ht.alloc.fits (hbuf.congr rep.inv rep₂.inv)
    (hun.congr rep.inv rep₂.inv) hle).mono (fun _ _ h => h) fun _ _ h => .inr (.inl h)).bind
    fun _ s₃ h₃ => ?_
  obtain ⟨rep₃, hfds₃, hworld₃, hlow, hmem₃⟩ := h₃
  obtain ⟨s₄, hfree, rep₄, hl₄, -⟩ := doKfree_spec rep₃
  rw [ends_bind_of_ok hfree, ends_pure]
  have hfile : s₄.fds.table = s.fds.table := by rw [hl₄.fds, hfds₃, htab]
  have hworld₄ : s₄.world = s₂.world := hl₄.world.trans hworld₃
  -- what has become of the bytes of the program
  have hmem : ∀ v p, Outside v →
      translateWalk s.mem v true false = some p → Payload blocks (kernelBaseOffset + p) →
      s₄.mem (kernelBaseOffset + p) = if buf ≤ v ∧ v < buf + ret.toNat then
      s₂.mem (c.addr + 16 + (v - buf)) else s.mem (kernelBaseOffset + p) := by
    intro v p hv hp hpay
    rw [hl₄.mem _ (hpay.not_own tabs), ← hmem₂ _ hpay]
    exact hmem₃ v p hv ((rep.inv.walk_congr rep₂.inv hv.2.1 rfl true false).trans hp) hpay
  cases hfetch with
  | closed isClosed world =>
    have hsame : task blocks s₄ = task blocks s :=
      task_eq (task_byte_congr rep.inv rep₄.inv fun v p hv hp hpay =>
        (hmem v p hv hp hpay).trans (if_neg (by have : (-eBADF).toNat = 0 := rfl; omega))) hfile
          (hworld₄.trans world)
    rw [hsame]
    exact .readClosed (by omega) hacc isClosed
  | @opened rfd w r isOpen asked world bytes =>
    have hafter : (task blocks s₄).byte = Task.put (task blocks s).byte buf (resultOf r).toNat
        (Task.fetched r n) := by
      refine task_put rep.inv rep₄.inv (fun i hi => ?_) fun v p hv hp hpay => ?_
      · -- the buffer is the program's
        obtain ⟨hr, p, hp, hpay⟩ := hbuf i (by omega)
        refine Option.ne_none_iff_exists'.mpr ⟨_,
          (task_byte_iff rep.inv).mpr ⟨hlow i hi, p, ?_, hpay, rfl⟩⟩
        exact rep.inv.walk_read (userMemRangeOk_iff.mp hr) hp
      · rw [hmem v p hv hp hpay]
        split
        · exact bytes _ (by omega)
        · rfl
    rw [task_eq (t := { task blocks s with byte := _, world := w }) hafter hfile
      (hworld₄.trans world)]
    exact .read hacc isOpen asked

/-- **`sys_write`** from memory that is the program's: the host gets its bytes. It comes back
unless it stalls. -/
theorem sysWriteSeen_task (hblind : Blind host) (rep : KernelRep s.heap tabs blocks leaf)
    (hfd : fd < 2 ^ 31) (hown : ∀ i, i < n → Owns blocks s.mem (buf + i)) :
    Ends (sysWriteSeen host fd buf n) s
      (fun r s' => Task.Call host (accessOk s.mem) (task blocks s)
        (.write fd buf n) r.1 r.2 (task blocks s'))
      fun _ _ => Stalls host .write s fd buf n := by
  by_cases hneg : fd < 0
  · rw [sysWriteSeen, if_pos hneg, ends_pure]
    exact .writeNegative hneg
  rw [sysWriteSeen, if_neg hneg]
  cases hacc : accessOk s.mem false buf n with
  | false =>
    have hon : onMem (fun m => accessOk m false buf n) s = .ok false s := by rw [onMem, hacc]
    rw [ends_bind_of_ok hon]
    exact ends_pure.mpr (.writeFault (by omega) hacc)
  | true =>
  have hon : onMem (fun m => accessOk m false buf n) s = .ok true s := by rw [onMem, hacc]
  rw [ends_bind_of_ok hon, if_neg (by decide)]
  refine ((doKmalloc_null_or rep n).mono (fun _ _ h => h) fun _ _ h => .inl (by omega)).bind
    fun dst s₁ hdst => ?_
  rcases hdst with ⟨rfl, hshort⟩ | ⟨c, rfl, ht⟩
  · -- the call does not come back from the null pointer
    refine ((inside_memcpyFrom 0 buf n 0 s₁).mono (fun _ _ h => h) fun _ _ _ =>
      .inl (by omega)).bind fun _ s₂ _ => ?_
    rw [ends_bind_of_error (physical_zero s₂)]
    exact .inl (by omega)
  have hroom₁ : s.room ≤ s₁.room + n + 0x1090 := ht.alloc.room
  obtain ⟨q, hq, hroom, hbufq, -⟩ := ht.buffer
  have hbuf := userBuffer_of_accessOk rep.inv hacc (by omega) hown
  have hold : ∀ x, Payload blocks x → s₁.mem x = s.mem x :=
    fun x hx => ht.mem x (hx.not_own tabs)
  have hbyte₁ : (task blocks s₁).byte = (task blocks s).byte :=
    task_byte_congr rep.inv ht.alloc.rep.inv fun v p _ _ hpay => hold _ hpay
  refine ((memcpy_fromUser ht.alloc.rep ht.alloc.fits (hbuf.congr rep.inv
    ht.alloc.rep.inv)).mono (fun _ _ h => h) fun _ _ h => .inr (.inl h)).bind fun _ s₂ h₂ => ?_
  obtain ⟨hdata, hst₂, hfds₂, hworld₂⟩ := h₂
  have hfits := ht.alloc.fits
  have hmine : ∀ x, c.addr + 16 ≤ x ∧ x < c.addr + 16 + n → c.addr + 16 ≤ x ∧ x < c.fin :=
      fun x hx => by
    unfold Extent.fin
    omega
  have rep₂ : KernelRep s₂.heap tabs (c :: blocks) leaf := ht.alloc.rep.stores hst₂ fun x hx =>
    .inl ⟨c, List.mem_cons_self, hmine x hx⟩
  have hmem₂ : ∀ x, Payload blocks x → s₂.mem x = s.mem x := fun x hx => by
    rw [hst₂.mem x fun hin =>
      hx.not_own tabs (ht.alloc.rep.own_of_has ⟨by omega, (hmine x hin).2⟩), hold x hx]
  have hphys : ofExec (physical (c.addr + 16)) s₂ = .ok q s₂ := by
    rw [hq, physical_window (by omega)]
    rfl
  rw [ends_bind_of_ok hphys]
  have hasked := hpRwSeen_asked host .write .write (fun _ _ _ => rfl)
    (fun _ => .inr rfl) rep₂ hbufq (ht.lt_memory hq) (by omega) hfd
  have hneutral := hpRw_neutral host .write fd rep₂ hbufq
  rw [← hpRwSeen_fst, ends_map] at hneutral
  have hroom₂ : s₂.room = s₁.room := congrArg Arena.topSize hst₂.arena
  have hworld : s₂.world = s.world := hworld₂.trans ht.world
  have hfds : s₂.fds = s.fds := hfds₂.trans ht.fds
  refine ((hasked.and hneutral).mono (fun _ _ h => h) fun _ _ h => ?_).bind ?_
  · rcases h.1 with h | ⟨rfd, hopen, hres⟩
    · exact .inl (by omega)
    · exact .inr (.inr ⟨rfd, q, hfds ▸ hopen, hworld ▸ hres⟩)
  rintro ⟨ret, out⟩ s₃ ⟨⟨hask, htab⟩, -, hn⟩
  obtain ⟨s₄, hfree, rep₄, hl₄, -⟩ := doKfree_spec hn.rep
  rw [ends_bind_of_ok hfree, ends_pure]
  have hfile : s₄.fds.table = s.fds.table := by rw [hl₄.fds, htab, hfds₂, ht.fds]
  have hsub : ∀ x, Payload blocks x → Payload (c :: blocks) x := by
    rintro x ⟨e, he, hex⟩
    exact ⟨e, List.mem_cons_of_mem _ he, hex⟩
  -- a `write` does not change the guest's memory
  have hmem₃ : ∀ x, Payload blocks x → s₃.mem x = s.mem x := fun x hx => by
    cases hask with
    | closed isClosed world mem => exact (mem x (hsub x hx)).trans (hmem₂ x hx)
    | opened isOpen world mem => exact (mem x (hsub x hx)).trans (hmem₂ x hx)
  have hbyte₄ : (task blocks s₄).byte = (task blocks s).byte := task_byte_congr rep.inv rep₄.inv
    fun v p _ _ hpay => by rw [hl₄.mem _ (hpay.not_own tabs), hmem₃ _ hpay]
  cases hask with
  | closed isClosed world mem =>
    rw [show task blocks s₄ = task blocks s
      from task_eq hbyte₄ hfile (hl₄.world.trans (world.trans hworld))]
    exact .writeClosed (by omega) hacc (lacks_of_none (hfds ▸ isClosed))
  | @opened rfd isOpen world mem =>
    rw [task_eq (t := { task blocks s with world := (host s₂.world (.write rfd q n)).1 }) hbyte₄
      hfile (hl₄.world.trans world)]
    have hopen : Opened s.fds fd rfd := hfds ▸ isOpen
    show Task.Call host (accessOk s.mem) (task blocks s)
      (.write fd buf n) _ (some (rfd, s₂.guest.bytes q n)) _
    refine .write hacc hopen ?_ (fun i b hb => ?_) ?_
    · rw [Guest.bytes, List.length_map, List.length_range]
    · obtain ⟨hi, rfl⟩ : i < n ∧ s₂.mem (c.addr + 16 + i) = b := by
        have hi : i < n := by
          have := (List.getElem?_eq_some_iff.mp hb).1
          rwa [Guest.bytes, List.length_map, List.length_range] at this
        rw [Guest.bytes, List.getElem?_map, List.getElem?_range hi] at hb
        refine ⟨hi, (congrArg s₂.mem ?_).trans (Option.some.inj hb)⟩
        show c.addr + 16 + i = 0x8000000000 + (q + i)
        omega
      rw [← hbyte₁]
      exact hdata i hi
    · show host s.world _ = _
      rw [hworld, ← hblind.write _ _ q]

/-! ## `sys_open` and `sys_close` -/

/-- The hypervisor's answer to an `open` of `name`. -/
inductive OpenReply (host : Host σ) (name : List UInt8) (s s' : Sys σ) : Int → Prop
  | full (full : ∀ n, n ≤ maxFd → s.fds.table n ≠ none) (table : s'.fds.table = s.fds.table)
      (world : s'.world = s.world) : OpenReply host name s s' (-eNFILE)
  | failed {w : σ} {r : HostReply} (asked : host s.world (.openFile name) = (w, r))
      (failed : r.ret < 0) (table : s'.fds.table = s.fds.table) (world : s'.world = w) :
      OpenReply host name s s' (-r.errno)
  | opened {n : Nat} {w : σ} {r : HostReply} (asked : host s.world (.openFile name) = (w, r))
      (worked : 0 ≤ r.ret) (le : n ≤ maxFd) (free : s.fds.table n = none)
      (least : ∀ m, m < n → s.fds.table m ≠ none)
      (table : s'.fds.table = Function.update s.fds.table n (some r.ret))
      (world : s'.world = w) : OpenReply host name s s' n

theorem NoneFree.table {t : FdMap} (h : NoneFree t) {n : Nat} (hn : n ≤ maxFd) :
    t.table n ≠ none := by
  obtain ⟨-, -, hall, -⟩ := firstFree_spec (mayInitFdMap t).handle (maxFd + 1) 0
  unfold NoneFree at h
  rw [FdMap.table, if_pos ⟨hn, hall n (Nat.zero_le n) (by omega)⟩]
  exact Option.some_ne_none _

/-- **The hypervisor's part of an `open`**, for the name that it finds. -/
theorem hypercall_openReply (host : Host σ) {q k : Nat} (hq : q < 0x400000)
    (hlen : s.guest.strlen q = .ok k) :
    Ends (hypercall host .openFile q) s
      (fun ret s' => OpenReply host (s.guest.bytes q k) s s' ret ∧ s'.kernel = s.kernel)
        fun _ _ => True := by
  have hsize : s.guest.memSize = 0x400000 := rfl
  have hin := (Guest.strlen_eq_ok_iff.mp hlen).1
  have hend : s.guest.checkOob ((q + k) % 2 ^ 32) = .ok () :=
    Guest.checkOob_pos (by rw [Nat.mod_eq_of_lt (by omega)]; exact hin)
  have hhandler : hpHandler .openFile s.fds s.guest (q % 2 ^ 32) =
      hpHandleOpen s.fds s.guest q := by
    rw [Nat.mod_eq_of_lt (by omega)]
    rfl
  cases hact : hpHandleOpen s.fds s.guest q with
  | error e =>
    have heq : hypercall host .openFile q s = .error .hypervisor s := by
      simp only [hypercall, hhandler, hact]
    exact (ends_of_error heq).mpr trivial
  | ok a =>
    have heffect := hpHandleOpen_effect hact
    rw [hact] at hhandler
    rw [hpHandleOpen, Guest.checkOob_pos (by omega), ok_bind, hlen, ok_bind, hend,
      ok_bind] at hact
    dsimp only at hact
    by_cases hfull : NoneFree s.fds
    · rw [if_pos (show maxFd < firstFree _ _ _ from hfull)] at hact
      cases hact
      exact (ends_of_ok (hypercall_answer hhandler (by decide))).mpr
        ⟨.full (fun n hn => hfull.table hn) (table_mayInitFdMap s.fds) rfl, rfl⟩
    · rw [if_neg (show ¬ maxFd < firstFree _ _ _ from hfull)] at hact
      obtain ⟨after, rfl⟩ : ∃ after, a = .host (.openFile (s.guest.bytes q k)) after :=
        ⟨_, (Except.ok.inj hact).symm⟩
      cases heffect with
      | uses on => cases on
      | opens isOpen le free least fails works =>
        by_cases hret : (after (host s.world (.openFile (s.guest.bytes q k))).2).2 = unusedVar
        · obtain ⟨s', hrun⟩ := hypercall_unused hhandler hret
          exact (ends_of_error hrun).mpr trivial
        refine (ends_of_ok (hypercall_host hhandler hret)).mpr ⟨?_, rfl⟩
        by_cases hneg : (host s.world (.openFile (s.guest.bytes q k))).2.ret < 0
        · rw [(fails _ hneg).2]
          exact .failed rfl hneg (fails _ hneg).1 rfl
        · have hw := works _ (Int.not_lt.mp hneg)
          rw [hw.2]
          exact .opened rfl (Int.not_lt.mp hneg) le free least hw.1 rfl

variable {path k : Nat}

/-- A string of the program's, as the bytes it has. -/
theorem names_of_isString (hstr : IsString s.mem path k) (hlow : path + k < 2 ^ 47)
    (hown : ∀ i, i ≤ k → Owns blocks s.mem (path + i)) :
    (task blocks s).Names path (pathName s.mem path k) := by
  have hbyte : ∀ j, j < k → (pathName s.mem path k)[j]? = userRead s.mem (path + j) := by
    intro j hj
    obtain ⟨b, hb, -⟩ := hstr.1 j hj
    rw [pathName, List.getElem?_map, List.getElem?_range hj, Option.map_some, hb]
    rfl
  have hlen : (pathName s.mem path k).length = k := by
    rw [pathName, List.length_map, List.length_range]
  constructor
  · intro hz
    obtain ⟨j, hj⟩ := List.getElem?_of_mem hz
    have hlt : j < k := hlen ▸ (List.getElem?_eq_some_iff.mp hj).1
    obtain ⟨b, hb, hne⟩ := hstr.1 j hlt
    rw [hbyte j hlt, hb] at hj
    exact hne (Option.some.inj hj)
  · intro j b hb
    rw [task_byte]
    have hlt := (List.getElem?_eq_some_iff.mp hb).1
    rw [List.length_append, hlen, List.length_singleton] at hlt
    refine ⟨by omega, ?_, hown j (by omega)⟩
    by_cases hj : j < k
    · rw [List.getElem?_append_left (by omega), hbyte j hj] at hb
      exact hb
    · obtain rfl : j = k := by omega
      rw [List.getElem?_append_right (by omega), hlen, Nat.sub_self] at hb
      rw [hstr.2]
      exact hb

theorem isString_of_names {name : List UInt8} (h : (task blocks s).Names path name) :
    IsString s.mem path name.length := by
  refine ⟨fun j hj => ⟨_, (task_byte.mp (h.2.byte hj)).2.1, getD_ne_zero h.1 hj⟩,
    (task_byte.mp h.2.zero).2.1⟩

/-- Without a block for the copy nothing happens that the program could see. -/
theorem TurnedDown.task_eq {len : Nat} (rep : KernelRep s.heap tabs blocks leaf)
    (ht : TurnedDown s s' (tabs ++ blocks) len) (hlen : len ≤ 0x1f7000) (hin : Inside s s') :
    task blocks s' = task blocks s := by
  have hd := ht.declined (by omega)
  refine Kvm.task_eq (task_byte_congr rep.inv (hd.rep hlen rep).inv fun v p _ _ hpay => ?_)
    (by rw [hin.fds]; rfl) hin.world
  have hb : 0x8000200000 ≤ kernelBaseOffset + p := by
    obtain ⟨e, he, h₁, -⟩ := hpay
    have := (rep.inv.bounds he).1
    omega
  rw [show s'.mem _ = _ from rep.mem_of_declined hd (hpay.not_own tabs), if_neg (by omega)]
  rfl

/-- The hypervisor finds the program's name in the copy of it. -/
theorem openCopy_name {c : Extent} {q : Nat} (rep : KernelRep s.heap tabs blocks leaf)
    (ht : Taken s s₁ tabs blocks leaf (k + 1) mallocNoAlign c) (hstr : IsString s.mem path k)
    (hlow : path + k < 2 ^ 47) (hown : ∀ i, i ≤ k → Owns blocks s.mem (path + i))
    (hcp : memcpy (c.addr + 16) path (k + 1) s₁ = .ok () s₂)
    (hq : c.addr + 16 = 0x8000000000 + q) :
    s₂.guest.strlen q = .ok k ∧ s₂.guest.bytes q k = pathName s.mem path k := by
  have hfits := ht.alloc.fits
  have hb := ht.alloc.rep.inv.bounds (e := c) List.mem_cons_self
  unfold Extent.fin at hb
  have hread : ∀ j, j < k + 1 → ∃ b, userRead s.mem (path + j) = some b := by
    intro j hj
    by_cases hjk : j < k
    · obtain ⟨b, hb, -⟩ := hstr.1 j hjk
      exact ⟨b, hb⟩
    · obtain rfl : j = k := by omega
      exact ⟨0, hstr.2⟩
  have hbuf : UserBuffer blocks s.mem false path (k + 1) := by
    intro j hj
    obtain ⟨b, hb⟩ := hread j hj
    obtain ⟨p, hp, -, -⟩ := userRead_cell (by omega) hb
    refine ⟨userMemRangeOk_iff.mpr (rep.inv.outside_of_user (by omega) hp), p, hp,
      hown j (by omega) p hp⟩
  have hcopy := ((ends_of_ok hcp).mp
    (memcpy_fromUser ht.alloc.rep hfits (hbuf.congr rep.inv ht.alloc.rep.inv))).1
  have hbyte : ∀ j, j < k + 1 → userRead s.mem (path + j) = some (s₂.guest.byte (q + j)) := by
    intro j hj
    have hj' := hcopy j hj
    rw [task_byte_congr rep.inv ht.alloc.rep.inv fun v p _ _ hpay =>
      ht.mem _ (hpay.not_own tabs), task_byte] at hj'
    refine hj'.2.1.trans (congrArg (fun x => some (s₂.mem x)) ?_)
    show c.addr + 16 + j = 0x8000000000 + (q + j)
    omega
  have hsize : s₂.guest.memSize = 0x400000 := rfl
  refine ⟨Guest.strlen_eq_ok_iff.mpr ⟨by omega, ?_, fun j hj => ?_⟩,
    bytes_eq_iff.mpr ⟨rfl, fun j hj => ?_⟩⟩
  · have hz := hbyte k (by omega)
    rw [hstr.2] at hz
    exact (Option.some.inj hz).symm
  · obtain ⟨b, hb, hne⟩ := hstr.1 j hj
    rw [hbyte j (by omega)] at hb
    exact Option.some.inj hb ▸ hne
  · rw [hbyte j (by omega)]
    rfl

/-- **The ways through `sys_open`** that come back: no string, no block for its copy, or a copy
that the hypervisor is asked about. -/
theorem sysOpen_ends (rep : KernelRep s.heap tabs blocks leaf)
    (hshort : ∀ k, IsString s.mem path k → k < 2 ^ 31 - 1) {Q : Int → Sys σ → Prop}
    (hfault : (∀ k, ¬ IsString s.mem path k) → Q (-eFAULT) s)
    (hnomem : ∀ k s', IsString s.mem path k → path + k < 2 ^ 47 →
      TurnedDown s s' (tabs ++ blocks) (k + 1) → Inside s s' → Q (-eNOMEM) s')
    (hcopy : ∀ k c s₁ s₂, IsString s.mem path k → path + k < 2 ^ 47 →
      Taken s s₁ tabs blocks leaf (k + 1) mallocNoAlign c → memcpy (c.addr + 16) path
      (k + 1) s₁ = .ok () s₂ → KernelRep s₂.heap tabs (c :: blocks) leaf → Stores c.Has s₁ s₂ →
      Private s s₂ → Ends (openCopy host (c.addr + 16)) s₂ Q fun _ _ => True) :
    Ends (sysOpen host path) s Q fun _ _ => True := by
  rcases accessStringOkFrom_spec (s := s) (2 ^ 36 + 1) path (by decide) (by omega) with
    ⟨ok, hcheck, hiff, hlow⟩ | ⟨hstop, -⟩
  swap
  · rw [sysOpen, ends_bind_of_error (show accessStringOk path s = _ from hstop)]
    trivial
  cases ok with
  | false =>
    rw [sysOpen, ends_bind_of_ok (show accessStringOk path s = _ from hcheck),
      if_pos rfl, ends_pure]
    exact hfault fun k hk => absurd (hiff.mpr ⟨k, hk⟩) (by decide)
  | true =>
  obtain ⟨k, hstr⟩ := hiff.mp rfl
  have hk := hshort k hstr
  have hlow := hlow k hstr.reaches
  by_cases hserved : Serves s (k + 1) mallocNoAlign
  · obtain ⟨c, s₁, s₂, -, hcp, ht, rep₂, hst, hpriv, -, hrun⟩ :=
      sysOpen_copies host rep hstr hlow (by omega) hserved
    rw [ends_congr hrun]
    exact hcopy k c s₁ s₂ hstr hlow ht hcp rep₂ hst hpriv
  · obtain ⟨-, hno⟩ := (doKmalloc_cases rep (.inl rfl) (by omega)).resolve_left
      fun h => hserved h.1
    have hlen : ofInt (toInt32 (k : Int) + 1) = k + 1 := by
      rw [toInt32_of_lt (by omega)]
      unfold ofInt
      omega
    rw [sysOpen, ends_bind_of_ok (show accessStringOk path s = _ from hcheck),
      if_neg (by decide)]
    refine Ends.bind (Q := fun dst s' => dst = 0 ∧ Q (-eNOMEM) s') ?_ fun dst s' h => ?_
    · rw [copyStrFromUser, strlen, ends_bind_of_ok (strnlen_string hstr (by omega) hlow)]
      dsimp only
      rw [hlen]
      refine ((hno.and (inside_doKmalloc _ _ s)).mono (fun _ _ h => h) fun _ _ _ =>
        trivial).bind fun dst s' h => ?_
      obtain ⟨⟨rfl, htd⟩, hin⟩ := h
      rw [if_pos rfl, ends_pure]
      exact ⟨rfl, hnomem k s' hstr hlow htd hin⟩
    · rw [if_pos h.1, ends_pure]
      exact h.2

/-- **`sys_open`** of a name that is the program's. -/
theorem sysOpen_task (rep : KernelRep s.heap tabs blocks leaf)
    (hpath : ∀ k, IsString s.mem path k → k < 0x1f7000 ∧ ∀ i, i ≤ k →
      Owns blocks s.mem (path + i)) :
    Ends (sysOpen host path) s
      (fun ret s' => Task.Call host (accessOk s.mem) (task blocks s)
        (.openFile path) ret none (task blocks s'))
      fun _ _ => True := by
  refine sysOpen_ends rep (fun k hk => by have := (hpath k hk).1; omega) (fun hno => ?_)
    (fun k s' hstr hlow htd hin => ?_) fun k c s₁ s₂ hstr hlow ht hcp rep₂ hst hpriv => ?_
  · exact .openFault fun name hname => hno _ (isString_of_names hname)
  · obtain ⟨hk, hown⟩ := hpath k hstr
    rw [htd.task_eq rep (by omega) hin]
    exact .openNoMemory (names_of_isString hstr hlow hown)
  obtain ⟨hk, hown⟩ := hpath k hstr
  obtain ⟨hfds₂, hworld₂⟩ := hpriv
  have hnames := names_of_isString hstr hlow hown
  obtain ⟨q, hq, hroom, -, -⟩ := ht.buffer
  have hphys : ofExec (physical (c.addr + 16)) s₂ = .ok q s₂ := by
    rw [hq, physical_window (by omega)]
    rfl
  obtain ⟨hlen, hname⟩ := openCopy_name rep ht hstr hlow hown hcp hq
  rw [openCopy, ends_bind_of_ok hphys]
  refine (hypercall_openReply host (ht.lt_memory hq) hlen).bind fun ret s₃ h₃ => ?_
  obtain ⟨hreply, hkernel⟩ := h₃
  have rep₃ : KernelRep s₃.heap tabs (c :: blocks) leaf := by
    rw [Sys.heap, hkernel]
    exact rep₂
  obtain ⟨s₄, hfree, rep₄, hl₄, -⟩ := doKfree_spec rep₃
  rw [ends_bind_of_ok hfree, ends_pure]
  have hbyte : (task blocks s₄).byte = (task blocks s).byte :=
    task_byte_congr rep.inv rep₄.inv fun v p _ _ hpay => by
      have hnot := hpay.not_own tabs
      rw [hl₄.mem _ hnot, Sys.mem, hkernel, ← Sys.mem, hst.mem _ fun hin =>
        hnot (ht.alloc.rep.own_of_has hin), ht.mem _ hnot]
  rw [hname] at hreply
  have hworld₄ : s₄.world = s₃.world := hl₄.world
  have hfds₄ : s₄.fds = s₃.fds := hl₄.fds
  cases hreply with
  | full full table world =>
    rw [show task blocks s₄ = task blocks s from
      task_eq hbyte (by rw [hfds₄, table, hfds₂]; rfl) (hworld₄.trans (world.trans hworld₂))]
    rw [hfds₂] at full
    exact .openFull hnames full
  | @failed w r asked failed table world =>
    rw [task_eq (t := { task blocks s with world := w }) hbyte
      (by rw [hfds₄, table, hfds₂]; rfl) (hworld₄.trans world)]
    rw [hworld₂] at asked
    exact .openFailed hnames asked failed
  | @opened fd w r asked worked le free least table world =>
    rw [task_eq (t :=
      { task blocks s with file := Function.update s.fds.table fd (some r.ret), world := w })
      hbyte (by rw [hfds₄, table, hfds₂]) (hworld₄.trans world)]
    rw [hworld₂] at asked
    rw [hfds₂] at free least
    exact .opened hnames asked worked le free least

/-- A number that is not open is turned down. -/
theorem processOnFd_lacks {t : FdMap} (h : ∀ rfd, ¬ Opened t fd rfd)
    (work : Int → Except Halt HostCall) (t' : FdMap → FdMap) :
    processOnFd t fd work t' = .ok (.answer (mayInitFdMap t) (-eBADF)) := by
  cases hbad : badFd (mayInitFdMap t) fd with
  | true =>
    rw [processOnFd, hbad]
    rfl
  | false =>
    obtain ⟨hopen, -, hpos⟩ := table_of_badFd_false hbad
    exact absurd ⟨hpos, hopen⟩ (h _)

/-- **`sys_close`**. It comes back unless the result of the host is the mark for none. -/
theorem sysClose_task (check : Bool → Nat → Nat → Bool) (h₁ : -2 ^ 31 ≤ fd) (h₂ : fd < 2 ^ 31) :
    Ends (sysClose host fd) s
      (fun ret s' => Task.Call host check (task blocks s) (.close fd) ret none (task blocks s'))
      fun _ _ => ∃ rfd, Opened s.fds fd rfd ∧ resultOf (host s.world (.close rfd)).2 =
        unusedVar := by
  have hhandler : hpHandler .close s.fds s.guest (ofInt fd % 2 ^ 32) =
      processOnFd s.fds fd (fun realFd => .ok (.close realFd)) (doClose fd.toNat) := by
    simp only [hpHandler, hpHandleClose, toInt32_word h₁ h₂]
  by_cases hopen : ∃ rfd, Opened s.fds fd rfd
  · obtain ⟨rfd, hopen⟩ := hopen
    rw [processOnFd_opened hopen] at hhandler
    change hpHandler .close s.fds s.guest (ofInt fd % 2 ^ 32) = .ok (.host (.close rfd) fun r =>
      (doClose fd.toNat (mayInitFdMap s.fds), resultOf r)) at hhandler
    by_cases hret : resultOf (host s.world (.close rfd)).2 = unusedVar
    · obtain ⟨s', hrun⟩ := hypercall_unused hhandler hret
      exact (ends_of_error hrun).mpr ⟨rfd, hopen, hret⟩
    refine (ends_of_ok (hypercall_host hhandler hret)).mpr ?_
    obtain ⟨-, -, hle⟩ := hopen.entry
    have htable : (doClose fd.toNat (mayInitFdMap s.fds)).table =
        Function.update s.fds.table fd.toNat none := by
      rw [doClose, table_update (mayInitFdMap_started s.fds)
        (by have : maxFd = 255 := rfl; omega), table_mayInitFdMap]
      rfl
    have hafter : task blocks { s with
          fds := doClose fd.toNat (mayInitFdMap s.fds)
          world := (host s.world (.close rfd)).1 } =
        { task blocks s with
          file := Function.update s.fds.table fd.toNat none
          world := (host s.world (.close rfd)).1 } :=
      task_eq rfl htable rfl
    show Task.Call host check (task blocks s)
      (.close fd) _ none (task blocks { s with fds := _, world := _ })
    rw [hafter]
    exact .close hopen rfl
  · rw [processOnFd_lacks fun rfd h => hopen ⟨rfd, h⟩] at hhandler
    refine (ends_of_ok (hypercall_answer hhandler (by decide))).mpr ?_
    have hafter : task blocks { s with fds := mayInitFdMap s.fds } = task blocks s :=
      task_eq rfl (table_mayInitFdMap s.fds) rfl
    rw [hafter]
    exact .closeClosed fun rfd h => hopen ⟨rfd, h⟩

end

end BpfExamples.Kvm
