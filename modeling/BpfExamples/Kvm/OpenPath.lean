import BpfExamples.Kvm.TakenMemory
import BpfExamples.Kvm.UserStrings

/-!
# `sys_open` and the host (`kernel/syscalls/sys_open.c`, `hypervisor/hypercall.c`)

The kernel measures the user's string, asks `kmalloc` for a block, copies the string into it and
passes the block to the hypervisor, which reads the name from there. Between the check and the
copy the allocator clears the block and rewrites chunk headers: where the string itself lies in
memory that the allocator takes for its own, the copy is of something else. `PathOutlasts` says
in terms of the heap before the call which strings come through, and `sysOpen_path_iff` that for
these the host is asked for the user's path.

The host here keeps a record of its calls, and answers by all of it.
-/

namespace BpfExamples.Kvm

open Mem

variable {tabs blocks : List Extent} {leaf : Nat → Nat} {path k : Nat}

section

variable {σ : Type} {s s' : Sys σ}

/-! ## The copy -/

/-- What follows the copy in `sys_open`. -/
def openCopy (host : Host σ) (dst : Nat) : KernelM σ Int := do
  let pa ← ofExec (physical dst)
  let fd ← hypercall host .openFile pa
  doKfree dst
  return fd

/-- The hypervisor and the host are left alone. -/
def Private (s s' : Sys σ) : Prop := s'.fds = s.fds ∧ s'.world = s.world

/-- **The copy of a string** into a block goes through. Where a byte is read from the part of
the block that has been written before, it is the byte that is there now. -/
theorem memcpy_string {c : Extent} (rep : KernelRep s.heap tabs (c :: blocks) leaf) {n : Nat}
    (hread : ∀ j, j < n → leafCell leaf false (path + j) ≠ none) (hfits : n + 16 ≤ c.size) :
    ∃ s', memcpy (c.addr + 16) path n s = .ok () s' ∧
      KernelRep s'.heap tabs (c :: blocks) leaf ∧
      Stores c.Has s s' ∧ Private s s' ∧ ∀ j x, j < n →
        leafCell leaf false (path + j) = some x →
        s'.mem (c.addr + 16 + j) =
          if c.addr + 16 ≤ x ∧ x < c.addr + 16 + j then s'.mem x else s.mem x := by
  have hb := rep.inv.bounds (e := c) List.mem_cons_self
  unfold Extent.fin at hb
  have hfree : ∀ x, c.addr + 16 + 0 ≤ x → x < c.addr + 16 + 0 + n → Free (c :: blocks) x :=
    fun x h₁ h₂ => .inl ⟨c, List.mem_cons_self, h₁, by unfold Extent.fin; omega⟩
  obtain ⟨s', hrun, hst, hfds, hworld, hcopy⟩ := memcpyFrom_window path (show 0x8000000000 ≤
    c.addr + 16 by omega) n 0 rep (by omega) hfree fun j _ hj => hread j (by omega)
  refine ⟨s', hrun, rep.stores hst fun x hx => hfree x hx.1 hx.2, hst.mono fun x hx => ?_,
    ⟨hfds, hworld⟩, fun j x hj hx => hcopy j x (Nat.zero_le j) (by omega) hx⟩
  exact ⟨by omega, by unfold Extent.fin; omega⟩

/-- A string below the middle of the 48-bit range is measured, and copied to a block if
there is one. -/
theorem sysOpen_copies (host : Host σ) (rep : KernelRep s.heap tabs blocks leaf)
    (hstr : IsString s.mem path k) (hlow : path + k < 2 ^ 47) (hk : k < 2 ^ 31)
    (hserved : Serves s (k + 1) mallocNoAlign) :
    ∃ c s₁ s₂, doKmalloc (k + 1) mallocNoAlign s = .ok (c.addr + 16) s₁ ∧
      memcpy (c.addr + 16) path (k + 1) s₁ = .ok () s₂ ∧
        Taken s s₁ tabs blocks leaf (k + 1) mallocNoAlign c ∧
      KernelRep s₂.heap tabs (c :: blocks) leaf ∧ Stores c.Has s₁ s₂ ∧ Private s s₂ ∧
      (∀ j x, j < k + 1 → leafCell leaf false (path + j) = some x → s₂.mem (c.addr + 16 + j) =
        if c.addr + 16 ≤ x ∧ x < c.addr + 16 + j then s₂.mem x else s₁.mem x) ∧
      sysOpen host path s = openCopy host (c.addr + 16) s₂ := by
  obtain ⟨-, c, s₁, hok, ht⟩ := (doKmalloc_cases rep (.inl rfl) (by omega)).resolve_right
    fun h => h.1 hserved
  -- every byte that is copied can be read
  have hread : ∀ j, j < k + 1 → leafCell leaf false (path + j) ≠ none := by
    intro j hj hnone
    obtain ⟨b, hb⟩ : ∃ b, userRead s.mem (path + j) = some b := by
      by_cases hjk : j < k
      · obtain ⟨b, hb, -⟩ := hstr.1 j hjk
        exact ⟨b, hb⟩
      · obtain rfl : j = k := by omega
        exact ⟨0, hstr.2⟩
    obtain ⟨x, hx, -⟩ := cellAt_userRead (by omega) hb
    rw [show cellAt s.mem false (path + j) = _ from rep.inv.cellAt_eq false (path + j),
      hnone] at hx
    cases hx
  obtain ⟨s₂, hcopy, rep₂, hst, hquiet, hbytes⟩ :=
    memcpy_string ht.alloc.rep hread ht.alloc.fits
  refine ⟨c, s₁, s₂, hok, hcopy, ht, rep₂, hst,
    ⟨hquiet.1.trans ht.fds, hquiet.2.trans ht.world⟩, hbytes, ?_⟩
  obtain ⟨b, hcheck, hb⟩ := accessStringOk_iff.mpr fun d hd => by
    have := hstr.le_of_nonZero hd.1
    omega
  have hlen : ofInt (toInt32 (k : Int) + 1) = k + 1 := by
    rw [toInt32_of_lt hk]
    unfold ofInt
    omega
  have hdst : copyStrFromUser path s = .ok (c.addr + 16) s₂ := by
    rw [copyStrFromUser, strlen, bind_of_ok (strnlen_string hstr (by omega) hlow), hlen,
      bind_of_ok hok, if_neg (by omega), bind_of_ok hcopy]
    rfl
  rw [sysOpen, bind_of_ok hcheck, if_neg (by simp [hb.mpr ⟨k, hstr⟩]), bind_of_ok hdst,
    if_neg (by omega)]
  rfl

/-- **The request for a block**, byte by byte. -/
theorem doKmalloc_takenMem {c : Extent} {s₁ : Sys σ} {len : Nat}
    (rep : KernelRep s.heap tabs blocks leaf) (hlen : len < 2 ^ 32)
    (hroom : RoomFor s.heap (chunkSize len))
    (hok : doKmalloc len mallocNoAlign s = .ok (c.addr + 16) s₁) :
    c.addr = (chunkFor s.heap (chunkSize len)).addr ∧ s₁.mem = takenMem s.heap len := by
  obtain ⟨bin, T, inv, -⟩ := rep
  obtain ⟨h', hk, hmem⟩ := kmalloc_takenMem isolated_kernelSpan inv.heap hlen hroom
  obtain ⟨w, hdo, -⟩ := doKmalloc_of_ok hlen hk
  have heq := hok.symm.trans hdo
  injection heq with haddr hs
  exact ⟨Nat.add_right_cancel haddr, hs ▸ hmem⟩

end

variable {s s' : Sys (List HostCall)} {reply : List HostCall → HostCall → HostReply}

/-! ## The host's record -/

/-- A host that records its calls, the last one first. -/
def recorded (reply : List HostCall → HostCall → HostReply) : Host (List HostCall) :=
  fun log call => (call :: log, reply log call)

/-- Every descriptor of the guest is open. -/
def NoneFree (t : FdMap) : Prop := maxFd < firstFree (mayInitFdMap t).handle (maxFd + 1) 0

instance (t : FdMap) : Decidable (NoneFree t) := inferInstanceAs (Decidable (maxFd < _))

/-- The record after the hypervisor was told to open the name at `offset`. -/
def recordAfter (s : Sys (List HostCall)) (offset : Nat) : List HostCall :=
  match s.guest.strlen offset with
  | .error _ => s.world
  | .ok len =>
    if NoneFree s.fds then s.world else .openFile (s.guest.bytes offset len) :: s.world

/-- **The hypervisor's part**: it asks for the name that it reads from the block. -/
theorem hypercall_open {offset : Nat} (ho : offset < memSize) :
    Ends (hypercall (recorded reply) .openFile offset) s
      (fun _ s' => s'.world = recordAfter s offset ∧ s'.kernel = s.kernel)
      fun _ s' => s'.world = recordAfter s offset := by
  have hsize : s.guest.memSize = memSize := rfl
  have hm : memSize = 0x400000 := rfl
  have hmod : offset % 2 ^ 32 = offset := Nat.mod_eq_of_lt (by omega)
  cases hlen : s.guest.strlen offset with
  | error e =>
    have hhandler : hpHandler .openFile s.fds s.guest (offset % 2 ^ 32) = .error e := by
      show hpHandleOpen _ _ _ = _
      rw [hmod, hpHandleOpen, Guest.checkOob_pos (by omega), ok_bind, hlen]
      rfl
    have heq : hypercall (recorded reply) .openFile offset s = .error .hypervisor s := by
      simp only [hypercall, hhandler]
    rw [ends_of_error heq, recordAfter, hlen]
  | ok len =>
    have hin := (Guest.strlen_eq_ok_iff.mp hlen).1
    have hend : s.guest.checkOob ((offset + len) % 2 ^ 32) = .ok () :=
      Guest.checkOob_pos (by rw [Nat.mod_eq_of_lt (by omega)]; exact hin)
    by_cases hfull : NoneFree s.fds
    · have hhandler : hpHandler .openFile s.fds s.guest (offset % 2 ^ 32) =
          .ok (.answer (mayInitFdMap s.fds) (-eNFILE)) := by
        show hpHandleOpen _ _ _ = _
        rw [hmod, hpHandleOpen, Guest.checkOob_pos (by omega), ok_bind, hlen, ok_bind,
          hend, ok_bind]
        exact if_pos hfull
      have heq : hypercall (recorded reply) .openFile offset s =
          readPort (-eNFILE) { s with fds := mayInitFdMap s.fds } := by
        simp only [hypercall, hhandler]
      rw [ends_congr heq, recordAfter, hlen]
      simp only [hfull, if_true]
      refine (readPort_spec _ _).mono (fun v s' h => ?_) fun e s' h => ?_
      · rw [h.2]
        exact ⟨rfl, rfl⟩
      · rw [h.2]
    · obtain ⟨after, hhandler⟩ : ∃ after, hpHandler .openFile s.fds s.guest (offset % 2 ^ 32) =
          .ok (.host (.openFile (s.guest.bytes offset len)) after) := by
        show ∃ after, hpHandleOpen _ _ _ = _
        rw [hmod]
        generalize hact : hpHandleOpen s.fds s.guest offset = act
        rw [hpHandleOpen, Guest.checkOob_pos (by omega), ok_bind, hlen, ok_bind, hend,
          ok_bind] at hact
        dsimp only at hact
        rw [if_neg (show ¬ maxFd < firstFree (mayInitFdMap s.fds).handle (maxFd + 1) 0
          from hfull)] at hact
        exact ⟨_, hact.symm⟩
      obtain ⟨t, ret, heq⟩ : ∃ t ret, hypercall (recorded reply) .openFile offset s = readPort
        ret { s with fds := t, world := .openFile (s.guest.bytes offset len) :: s.world } := by
        simp only [hypercall, hhandler]
        exact ⟨_, _, rfl⟩
      rw [ends_congr heq, recordAfter, hlen]
      simp only [hfull, if_false]
      refine (readPort_spec _ _).mono (fun v s' h => ?_) fun e s' h => ?_
      · rw [h.2]
        exact ⟨rfl, rfl⟩
      · rw [h.2]

/-- The block is given back, which is no business of the host. -/
theorem openCopy_world {c : Extent} (rep : KernelRep s.heap tabs (c :: blocks) leaf) :
    Ends (openCopy (recorded reply) (c.addr + 16)) s
      (fun _ s' => s'.world = recordAfter s (c.addr + 16 - 0x8000000000))
      fun _ s' => s'.world = recordAfter s (c.addr + 16 - 0x8000000000) := by
  have hb := rep.inv.bounds (e := c) List.mem_cons_self
  unfold Extent.fin at hb
  have hm : memSize = 0x400000 := rfl
  have hphys : ofExec (physical (c.addr + 16)) s = .ok (c.addr + 16 - 0x8000000000) s := by
    obtain ⟨q, hq⟩ : ∃ q, c.addr + 16 = 0x8000000000 + q :=
      ⟨c.addr + 16 - 0x8000000000, by omega⟩
    rw [hq, physical_window (by omega), Nat.add_sub_cancel_left]
    rfl
  rw [openCopy, ends_bind_of_ok hphys]
  refine (hypercall_open (by omega)).bind fun fd s₁ h₁ => ?_
  have hheap : s₁.heap = s.heap := by rw [Sys.heap, h₁.2, Sys.heap]
  obtain ⟨s₂, hfree, -, hl, -⟩ := doKfree_spec (hheap ▸ rep)
  rw [ends_bind_of_ok hfree, ends_pure]
  exact hl.world.trans h₁.1

/-! ## The user's path -/

/-- `access_string_ok` ends, with the right verdict. -/
def Checked (s : Sys (List HostCall)) (path : Nat) : Prop :=
  ∃ b, accessStringOk path s = .ok b s ∧ (b = true ↔ ∃ k, IsString s.mem path k)

/-- The `k` bytes at `path`. -/
def pathName (m : Mem) (path k : Nat) : List UInt8 :=
  (List.range k).map fun j => (userRead m (path + j)).getD 0

/-- The record of the host when `sys_open` has passed on the `k` bytes at `path`. -/
def passedOn (s : Sys (List HostCall)) (path k : Nat) : List HostCall :=
  if NoneFree s.fds then s.world else .openFile (pathName s.mem path k) :: s.world

/-- `sys_open` hands the host exactly the user's path. -/
structure OpensPath (reply : List HostCall → HostCall → HostReply) (path : Nat)
    (s : Sys (List HostCall)) : Prop where
  checked : Checked s path
  /-- The name in the host's `open` is the string, however the call ends then. -/
  named : ∀ k, IsString s.mem path k → k < 2 ^ 31 → RoomFor s.heap (chunkSize (k + 1)) →
    Ends (sysOpen (recorded reply) path) s (fun _ s' => s'.world = passedOn s path k)
      fun _ s' => s'.world = passedOn s path k
  /-- Without a string nothing happens. -/
  refused : (¬ ∃ k, IsString s.mem path k) → sysOpen (recorded reply) path s = .ok (-eFAULT) s

/-- The scan of the string stays below the middle of the 48-bit range. -/
def Low (s : Sys (List HostCall)) (path : Nat) : Prop :=
  ∀ d, Reaches s.mem path d → path + d < 2 ^ 47

/-- The block to which a path of `k` bytes is copied. -/
def copyAt (h : Heap) (k : Nat) : Nat := (chunkFor h (chunkSize (k + 1))).addr + 16

/-- The path of `k` bytes comes through the request for its block and its own copy. Byte `i` is
read from the cell `x`. If an earlier byte has gone there, it was the same one; and if none
has, the request has left the cell alone. -/
def PathOutlasts (s : Sys (List HostCall)) (path k : Nat) : Prop :=
  ∀ i x, i ≤ k → cellAt s.mem false (path + i) = some x →
    if copyAt s.heap k ≤ x ∧ x < copyAt s.heap k + i then
      userRead s.mem (path + (x - copyAt s.heap k)) = userRead s.mem (path + i)
    else takenMem s.heap (k + 1) x = s.mem x

theorem IsString.read (hstr : IsString s.mem path k) {j : Nat} (hj : j ≤ k) :
    ∃ b, userRead s.mem (path + j) = some b := by
  by_cases hjk : j < k
  · obtain ⟨b, hb, -⟩ := hstr.1 j hjk
    exact ⟨b, hb⟩
  · obtain rfl : j = k := by omega
    exact ⟨0, hstr.2⟩

/-- **The copy is the path** if and only if the path comes through. -/
theorem pathOutlasts_iff {s₁ s₂ : Sys (List HostCall)} {c : Extent}
    (rep : KernelRep s.heap tabs blocks leaf) (hstr : IsString s.mem path k)
    (hlow : path + k < 2 ^ 47) (haddr : c.addr + 16 = copyAt s.heap k)
    (hmem : s₁.mem = takenMem s.heap (k + 1))
    (hcopy : ∀ j x, j < k + 1 → leafCell leaf false (path + j) = some x →
      s₂.mem (c.addr + 16 + j) =
        if c.addr + 16 ≤ x ∧ x < c.addr + 16 + j then s₂.mem x else s₁.mem x) :
    PathOutlasts s path k ↔ ∀ j, j ≤ k →
      userRead s.mem (path + j) = some (s₂.mem (c.addr + 16 + j)) := by
  have hcellAt : ∀ v, cellAt s.mem false v = leafCell leaf false v := rep.inv.cellAt_eq false
  -- each byte has its cell
  have hcell : ∀ i, i ≤ k → ∃ x, cellAt s.mem false (path + i) = some x ∧
      userRead s.mem (path + i) = some (s.mem x) := by
    intro i hi
    obtain ⟨b, hb⟩ := hstr.read hi
    obtain ⟨x, hx, rfl⟩ := cellAt_userRead (by omega) hb
    exact ⟨x, hx, hb⟩
  rw [PathOutlasts, ← haddr, ← hmem]
  constructor
  · -- byte by byte: an earlier byte that is read again was copied right
    intro h i
    induction i using Nat.strongRecOn with
    | ind i ih =>
      intro hi
      obtain ⟨x, hx, hread⟩ := hcell i hi
      have hcond := h i x hi hx
      have hbyte := hcopy i x (by omega) ((hcellAt _).symm.trans hx)
      split at hcond
      · next hin =>
        have hback : c.addr + 16 + (x - (c.addr + 16)) = x := by omega
        rw [if_pos hin] at hbyte
        rw [← hcond, ih (x - (c.addr + 16)) (by omega) (by omega), hback, hbyte]
      · next hout =>
        rw [if_neg hout] at hbyte
        rw [hread, hbyte, hcond]
  · intro h i x hi hx
    obtain ⟨x', hx', hread⟩ := hcell i hi
    obtain rfl : x = x' := Option.some.inj (hx.symm.trans hx')
    have hbyte := hcopy i x (by omega) ((hcellAt _).symm.trans hx)
    split
    · next hin =>
      have hback : c.addr + 16 + (x - (c.addr + 16)) = x := by omega
      rw [if_pos hin] at hbyte
      rw [h (x - (c.addr + 16)) (by omega), hback, h i hi, hbyte]
    · next hout =>
      rw [if_neg hout] at hbyte
      rw [h i hi, hbyte] at hread
      exact Option.some.inj hread

theorem bytes_eq_iff {g : Guest} {offset len n : Nat} {f : Nat → UInt8} :
    g.bytes offset len = (List.range n).map f ↔ len = n ∧ ∀ j, j < n →
      g.byte (offset + j) = f j := by
  constructor
  · intro h
    have hlen : len = n := by simpa [Guest.bytes] using congrArg List.length h
    subst hlen
    exact ⟨rfl, fun j hj => List.map_inj_left.mp h j (List.mem_range.mpr hj)⟩
  · rintro ⟨rfl, h⟩
    exact List.map_congr_left fun j hj => h j (List.mem_range.mp hj)

/-- **What the hypervisor reads** is the path if and only if the copy is. -/
theorem recordAfter_eq_iff {s₂ : Sys (List HostCall)} {c : Extent}
    (hstr : IsString s.mem path k) (hq : Private s s₂) (hbase : 0x8000000000 ≤ c.addr + 16)
    (hend : c.addr + 16 + k < 0x8000400000) (hfree : ¬ NoneFree s.fds) :
    recordAfter s₂ (c.addr + 16 - 0x8000000000) = passedOn s path k ↔
      ∀ j, j ≤ k → userRead s.mem (path + j) = some (s₂.mem (c.addr + 16 + j)) := by
  have hbyte : ∀ j, s₂.guest.byte (c.addr + 16 - 0x8000000000 + j) =
      s₂.mem (c.addr + 16 + j) := by
    intro j
    show s₂.mem (0x8000000000 + (c.addr + 16 - 0x8000000000 + j)) = _
    rw [← Nat.add_assoc, Nat.add_sub_cancel' hbase]
  have hsize : s₂.guest.memSize = 0x400000 := rfl
  -- the bytes of the string, as the copy is compared with them
  have hchar : ∀ j, j < k → ∃ b, userRead s.mem (path + j) = some b ∧ b ≠ 0 := hstr.1
  have hcopy : s₂.guest.strlen (c.addr + 16 - 0x8000000000) = .ok k ∧ (∀ j, j < k →
      s₂.guest.byte (c.addr + 16 - 0x8000000000 + j) = (userRead s.mem (path + j)).getD 0) ↔
      ∀ j, j ≤ k → userRead s.mem (path + j) = some (s₂.mem (c.addr + 16 + j)) := by
    rw [Guest.strlen_eq_ok_iff]
    simp only [hbyte]
    constructor
    · rintro ⟨⟨-, hz, -⟩, heq⟩ j hj
      by_cases hjk : j < k
      · obtain ⟨b, hb, -⟩ := hchar j hjk
        rw [heq j hjk, hb]
        rfl
      · obtain rfl : j = k := by omega
        rw [hz, hstr.2]
    · intro h
      refine ⟨⟨by omega, ?_, fun j hj => ?_⟩, fun j hj => ?_⟩
      · have hk := h k (Nat.le_refl k)
        rw [hstr.2] at hk
        exact (Option.some.inj hk).symm
      · obtain ⟨b, hb, hne⟩ := hchar j hj
        rw [h j (by omega)] at hb
        exact Option.some.inj hb ▸ hne
      · rw [h j (by omega)]
        rfl
  rw [← hcopy, recordAfter, passedOn, if_neg hfree, hq.2]
  cases hlen : s₂.guest.strlen (c.addr + 16 - 0x8000000000) with
  | error e =>
    refine iff_of_false (fun h => ?_) fun h => nomatch h.1
    exact absurd (congrArg List.length h) (by simp)
  | ok len =>
    have hfree₂ : ¬ NoneFree s₂.fds := hq.1 ▸ hfree
    simp only [hfree₂, if_false, List.cons.injEq, HostCall.openFile.injEq, and_true,
      Except.ok.injEq, pathName]
    exact bytes_eq_iff

theorem ends_world_iff {x : KernelM (List HostCall) Int} {w w' : List HostCall}
    (h : Ends x s (fun _ s' => s'.world = w) fun _ s' => s'.world = w) :
    (Ends x s (fun _ s' => s'.world = w') fun _ s' => s'.world = w') ↔ w = w' := by
  cases hx : x s with
  | ok a s' => rw [ends_of_ok hx] at h ⊢; rw [h]
  | error e s' => rw [ends_of_error hx] at h ⊢; rw [h]

/-- **`sys_open` and the user's path.** The check is right in any memory unless it reaches an
address that is not canonical; in a kernel that is in order the host is then asked for the path
exactly if the path comes through the request for its block. -/
theorem sysOpen_path_iff (reply : List HostCall → HostCall → HostReply)
    (s : Sys (List HostCall)) (path : Nat) :
    (Checked s path ↔ Low s path) ∧
    (s.kernel.Inv → (OpensPath reply path s ↔ Low s path ∧
      ∀ k, IsString s.mem path k → k < 2 ^ 31 → RoomFor s.heap (chunkSize (k + 1)) →
        ¬ NoneFree s.fds → PathOutlasts s path k)) := by
  refine ⟨accessStringOk_iff, ?_⟩
  rintro ⟨blocks, leaf, inv⟩
  obtain ⟨tabs, rep⟩ := inv.rep
  -- a string, its copy, and the record that follows from it
  have hcopy : Low s path → ∀ k, IsString s.mem path k → k < 2 ^ 31 →
      RoomFor s.heap (chunkSize (k + 1)) → ((Ends (sysOpen (recorded reply) path) s
      (fun _ s' => s'.world = passedOn s path k) fun _ s' => s'.world = passedOn s path k) ↔
      (¬ NoneFree s.fds → PathOutlasts s path k)) := by
    intro hlow k hstr hk hroom
    have hserved : Serves s (k + 1) mallocNoAlign := by
      rw [rep.serves_iff (.inl rfl) (by omega), Room, if_pos rfl]
      exact hroom
    obtain ⟨c, s₁, s₂, hok, -, ht, rep₂, -, hq, hbytes, hrun⟩ :=
      sysOpen_copies (recorded reply) rep hstr (hlow k hstr.reaches) hk hserved
    obtain ⟨haddr, hmem⟩ := doKmalloc_takenMem rep (by omega) hroom hok
    have hfits := ht.alloc.fits
    have hb := rep₂.inv.bounds (e := c) List.mem_cons_self
    unfold Extent.fin at hb
    rw [ends_congr hrun, ends_world_iff (openCopy_world rep₂)]
    by_cases hfull : NoneFree s.fds
    · refine iff_of_true ?_ fun h => absurd hfull h
      have hfull₂ : NoneFree s₂.fds := hq.1 ▸ hfull
      rw [recordAfter, passedOn, if_pos hfull, hq.2]
      cases s₂.guest.strlen (c.addr + 16 - 0x8000000000) with
      | error e => rfl
      | ok len => exact if_pos hfull₂
    · rw [recordAfter_eq_iff hstr hq (by omega) (by omega) hfull,
        ← pathOutlasts_iff rep hstr (hlow k hstr.reaches) (congrArg (· + 16) haddr) hmem hbytes]
      exact ⟨fun h _ => h, fun h => h hfull⟩
  constructor
  · intro h
    have hlow : Low s path := accessStringOk_iff.mp h.checked
    exact ⟨hlow, fun k hstr hk hroom =>
      (hcopy hlow k hstr hk hroom).mp (h.named k hstr hk hroom)⟩
  · rintro ⟨hlow, houtlasts⟩
    refine ⟨accessStringOk_iff.mpr hlow, fun k hstr hk hroom => ?_, fun hno => ?_⟩
    · exact (hcopy hlow k hstr hk hroom).mpr (houtlasts k hstr hk hroom)
    · obtain ⟨b, hrun, hb⟩ := accessStringOk_iff.mpr hlow
      obtain rfl : b = false := by
        rw [← Bool.not_eq_true, hb]
        exact hno
      rw [sysOpen, bind_of_ok hrun]
      rfl

/-! ## Strings in the user's own blocks -/

/-- A string that the user keeps in blocks that were handed out, and not in what surrounds them,
comes through. -/
theorem pathOutlasts_of_payload (rep : KernelRep s.heap tabs blocks leaf) (hk : k < 2 ^ 31)
    (hroom : RoomFor s.heap (chunkSize (k + 1)))
    (hpay : ∀ j x, j ≤ k → cellAt s.mem false (path + j) = some x → Payload blocks x) :
    PathOutlasts s path k := by
  have hserved : Serves s (k + 1) mallocNoAlign := by
    rw [rep.serves_iff (.inl rfl) (by omega), Room, if_pos rfl]
    exact hroom
  obtain ⟨-, c, s₁, hok, ht⟩ := (doKmalloc_cases rep (.inl rfl) (by omega)).resolve_right
    fun h => h.1 hserved
  obtain ⟨haddr, hmem⟩ := doKmalloc_takenMem rep (by omega) hroom hok
  have hfits := ht.alloc.fits
  intro i x hi hx
  have hown := (hpay i x hi hx).not_own tabs
  rw [copyAt, ← haddr, if_neg, ← hmem]
  · exact ht.mem x hown
  · -- the block is nobody else's
    rintro ⟨h₁, h₂⟩
    refine hown (ht.alloc.rep.own_of_has ⟨by omega, ?_⟩)
    unfold Extent.fin
    omega

/-- What the user reads in a readable area, and which block it is in. -/
theorem Area.userRead {A : Area} {c : Extent} (inv : KernelInv s.heap blocks leaf)
    (hc : c ∈ blocks) (hal : (c.addr + 16) % 0x1000 = 0)
    (hfits : 0x1000 * A.count + 16 ≤ c.size)
    (hleaf : ∀ q, A.Has q → leaf q = leafWord (c.addr + 16 + 0x1000 * (q - A.page)) A.prot)
    (hu : A.User) (hr : hasFlag A.prot protR = true) {i : Nat} (hi : i < 0x1000 * A.count) :
    userRead s.mem (0x1000 * A.page + i) = some (s.mem (c.addr + 16 + i)) ∧
      (0x1000 * A.page + i < 2 ^ 47 → cellAt s.mem false (0x1000 * A.page + i) =
        some (c.addr + 16 + i)) := by
  have hb := inv.bounds hc
  unfold Extent.fin at hb
  obtain ⟨hu₁, hu₂, hu₃⟩ := hu
  have hrange : userMemRangeOk (0x1000 * A.page + i) = true :=
    userMemRangeOk_iff.mpr ⟨by omega, by omega, by omega⟩
  have hcell : 0x8000000000 + (c.addr + 16 + i - 0x8000000000) = c.addr + 16 + i := by omega
  have hwalk : ∀ u, translateWalk s.mem (0x1000 * A.page + i) u false =
      some (c.addr + 16 + i - 0x8000000000) := by
    intro u
    rw [area_walk inv hc hal hfits hleaf ⟨hu₁, hu₂, hu₃⟩ (by omega) (by omega),
      Nat.add_sub_cancel_left, if_pos ⟨fun _ => hr, nofun⟩]
  constructor
  · rw [Kvm.userRead, if_pos hrange, hwalk, Option.map_some]
    exact congrArg (fun x => some (s.mem x)) hcell
  · intro hlow
    simp only [cellAt, kernelSpace_user hrange, hlow, if_true, hwalk, Option.map_some]
    exact congrArg some hcell

/-- **A name in a mapped file**: the first bytes of an executable are a string of seven bytes,
and the host is asked for it. -/
theorem sysOpen_path_mapped :
    ∃ s : Sys (List HostCall), s.kernel.Inv ∧ IsString s.mem 0x7ffff7ffe000 7 ∧
      RoomFor s.heap (chunkSize 8) ∧
      OpensPath (fun _ _ => ⟨3, 0, []⟩) 0x7ffff7ffe000 s := by
  obtain ⟨k, -, -, s', c, -, hadds, hroom⟩ := sysMmap_boot helloElf 0
  set s : Sys (List HostCall) := Sys.start s'.kernel [] with hs
  have inv : KernelInv s.heap [c] _ := hadds.inv
  obtain ⟨tabs, rep⟩ := inv.rep
  have hfits : 0x1000 * 1 + 16 ≤ c.size := hadds.fits
  -- the page holds the start of the file
  have hpage : ∀ i, i < 0x1000 →
      userRead s.mem (0x7ffff7ffe000 + i) = some (fileData helloElf 0 0x1000 i) ∧
      cellAt s.mem false (0x7ffff7ffe000 + i) = some (c.addr + 16 + i) := by
    intro i hi
    obtain ⟨hread, hcell⟩ := Area.userRead inv List.mem_cons_self hadds.aligned hadds.fits
      (fun q hq => Area.leaves_of_has hq _ _) hadds.user rfl hi
    refine ⟨hread.trans (congrArg some (hadds.data i hi)), hcell ?_⟩
    show 0x7ffff7ffe000 + i < 2 ^ 47
    omega
  have hstr : IsString s.mem 0x7ffff7ffe000 7 := by
    have hchars : ∀ j, j < 7 → fileData helloElf 0 0x1000 j ≠ 0 := by decide +kernel
    have hzero : fileData helloElf 0 0x1000 7 = 0 := by decide +kernel
    refine ⟨fun j hj => ⟨_, (hpage j (by omega)).1, hchars j hj⟩, ?_⟩
    rw [(hpage 7 (by decide)).1, hzero]
  have hroom : RoomFor s.heap (chunkSize 8) := by
    have hleft : (Sys.start k 0).room ≤ s'.room + areaCost 1 := hadds.room
    have hcost : areaCost 1 = 0xa3b0 := rfl
    have hchunk : chunkSize 8 = 0x80 := rfl
    have hsame : s.heap.arena.topSize = s'.room := rfl
    exact .inr (by omega)
  refine ⟨s, ⟨_, _, inv⟩, hstr, hroom, ?_⟩
  refine ((sysOpen_path_iff _ s 0x7ffff7ffe000).2 ⟨_, _, inv⟩).mpr ⟨fun d hd => ?_,
    fun k hk hlt hfits' _ => ?_⟩
  · have := hstr.le_of_nonZero hd.1
    omega
  · have hk7 := hstr.le_of_nonZero hk.1
    refine pathOutlasts_of_payload rep hlt hfits' fun j x hj hx => ?_
    rw [(hpage j (by omega)).2] at hx
    cases hx
    refine ⟨c, List.mem_cons_self, by omega, ?_⟩
    unfold Extent.fin
    show c.addr + 16 + j < c.addr + c.size
    omega

/-- **A page above the middle** of the 48-bit range: `mmap` gives it out, `access_ok` accepts
it, and the kernel faults at the first byte of the path. -/
theorem sysOpen_path_high :
    ∃ (k : Kernel) (s : Sys (List HostCall)), Booted k ∧
      doMmap 0x800000000000 0x1000 protR (Sys.start k []) = .ok 0x800000000000 s ∧
        s.kernel.Inv ∧
      accessStringOk 0x800000000000 s = .error .fault s ∧
        ∀ reply, ¬ OpensPath reply 0x800000000000 s := by
  obtain ⟨k, hk, -, -, s, c, hdo, hadds, -⟩ := doMmap_boot ([] : List HostCall) 0x800000000
    protR (by decide) (show InUser 0x800000000 1 by unfold InUser; omega)
  obtain ⟨hread, -⟩ := Area.userRead hadds.inv List.mem_cons_self hadds.aligned hadds.fits
    (fun q hq => Area.leaves_of_has hq _ _) hadds.user rfl (show 0 < 0x1000 * 1 by decide)
  have hreach : Reaches s.mem 0x800000000000 0 :=
    ⟨fun j hj => absurd hj (Nat.not_lt_zero j), _, hread⟩
  have hfault : accessStringOk 0x800000000000 s = .error .fault s := by
    rcases accessStringOkFrom_spec (s := s) (2 ^ 36 + 1) 0x800000000000 (by decide)
      (by decide) with
      ⟨-, -, -, hlow⟩ | ⟨h, -⟩
    · exact absurd (hlow 0 hreach) (by decide)
    · exact h
  refine ⟨k, s, hk, hdo, ⟨_, _, hadds.inv⟩, hfault, fun reply h => ?_⟩
  obtain ⟨b, hb, -⟩ := h.checked
  rw [hfault] at hb
  cases hb

end BpfExamples.Kvm
