import BpfExamples.Kvm.PagingRuns
import BpfExamples.Kvm.Syscalls
import BpfExamples.Kvm.SystemSpec

/-!
# What `sys_read` and `sys_write` write

Both calls copy between a user buffer and a kernel block of `nbyte` bytes, and neither looks
at what `kmalloc` returned. `sysWrite_frame` and `sysRead_frame` say for every call exactly
when all its writes fall into memory it owns: when the request is rejected, or both of its
blocks are there.
-/

namespace BpfExamples.Kvm

open Mem

variable {σ : Type} {s s' : Sys σ} {tabs blocks : List Extent} {leaf : Nat → Nat}
  {host : Host σ}

/-! ## The host -/

/-- What `read(2)` promises, and that `errno` is a number of an error. -/
structure HostReads (host : Host σ) : Prop where
  read : ∀ w fd buf n, -1 ≤ (host w (.read fd buf n)).2.ret ∧
    (host w (.read fd buf n)).2.ret ≤ n
  errno : ∀ w call, 0 ≤ (host w call).2.errno

theorem resultOf_le {r : HostReply} {n : Nat} (h₁ : -1 ≤ r.ret) (h₂ : r.ret ≤ n)
    (he : 0 ≤ r.errno) : resultOf r ≤ n := by
  unfold resultOf
  split
  · omega
  · next hpos =>
    by_cases hneg : r.ret < 0
    · have hone : r.ret = -1 := by omega
      rw [hone] at hpos
      exact absurd (show toInt32 (-1) < 0 by decide) hpos
    · have hle : toInt32 r.ret ≤ r.ret := by
        rw [toInt32, Int.bmod_def]
        split <;> omega
      omega

/-- In the state `w` the host reads no more than it is asked for. -/
def ReplyFits (host : Host σ) (w : σ) (n : Nat) : Prop :=
  ∀ fd buf, resultOf (host w (.read fd buf n)).2 ≤ n

theorem HostReads.replyFits (hhost : HostReads host) (w : σ) (n : Nat) : ReplyFits host w n :=
  fun fd buf =>
    resultOf_le (hhost.read w fd buf n).1 (hhost.read w fd buf n).2 (hhost.errno w _)

/-- A read returns no more than was asked for. -/
theorem hpHandler_read_le {t : FdMap} {g : Guest} {data : Nat} {w : σ} {call : HostCall}
    {after : HostReply → FdMap × Int} (hhost : ReplyFits host w (loadLE g.byte (data + 16) 8))
    (h : hpHandler .read t g data = .ok (.host call after)) :
    (after (host w call).2).2 ≤ loadLE g.byte (data + 16) 8 := by
  obtain ⟨⟨fd, rfl⟩, hafter⟩ := handleRw_host (show handleRw .read t g data = _ from h)
  rw [hafter]
  exact hhost fd _

/-! ## `hp_read` and `hp_write` -/

/-- The three words of a request at the start of a block. -/
def rwWords (m : Mem) (kbuf a b n : Nat) : Mem :=
  store64 (store64 (store64 m kbuf a) (kbuf + 8) b) (kbuf + 16) n

theorem rwWords_frame {m : Mem} {kbuf a b n x : Nat} (h : x < kbuf ∨ kbuf + 24 ≤ x) :
    rwWords m kbuf a b n x = m x := by
  rw [rwWords, store64_of_notMem (by omega), store64_of_notMem (by omega),
    store64_of_notMem (by omega)]

theorem load64_rwWords (m : Mem) (kbuf a b n : Nat) :
    load64 (rwWords m kbuf a b n) kbuf = a % 2 ^ 64 ∧
      load64 (rwWords m kbuf a b n) (kbuf + 8) = b % 2 ^ 64 ∧
      load64 (rwWords m kbuf a b n) (kbuf + 16) = n % 2 ^ 64 := by
  unfold rwWords
  refine ⟨?_, ?_, load64_store64 _ _ _⟩
  · rw [load64_store64_of_apart (by omega), load64_store64_of_apart (by omega), load64_store64]
  · rw [load64_store64_of_apart (by omega), load64_store64]

/-- Filling in the request. -/
theorem pokeWords (a b n : Nat) {kbuf : Nat} (h₁ : 0x8000000000 ≤ kbuf)
    (h₂ : kbuf + 24 ≤ 0x8040000000) {β : Type} (f : KernelM σ β) :
    (pokeLE kbuf 8 a >>= fun _ => pokeLE (kbuf + 8) 8 b >>= fun _ =>
        pokeLE (kbuf + 16) 8 n >>= fun _ => f) s =
      f (s.setMem (rwWords s.mem kbuf a b n) fun x => kbuf ≤ x ∧ x < kbuf + 24) := by
  rw [bind_of_ok (pokeLE_window 8 kbuf a h₁ (by omega)),
    bind_of_ok (pokeLE_window 8 (kbuf + 8) b (by omega) (by omega)),
    bind_of_ok (pokeLE_window 8 (kbuf + 16) n (by omega) (by omega)),
    setMem_setMem (w := fun x => kbuf + 8 ≤ x ∧ x < kbuf + 24) fun x => by omega,
    setMem_setMem (w := fun x => kbuf ≤ x ∧ x < kbuf + 24) fun x => by omega]
  rfl

/-- The first byte of memory was cleared for a request that was turned down. -/
def Marked (s : Sys σ) : Prop := s.refused = true ∧ s.written 0x8000000000

theorem marked_of_grows {β : Type} {x : KernelM σ β} (hx : Grows Later x) (hs : Marked s) :
    Ends x s (fun _ => Marked) fun _ => Marked :=
  (hx s).mono (fun _ _ h => ⟨h.1 hs.1, h.2 _ hs.2⟩) fun _ _ h => ⟨h.1 hs.1, h.2 _ hs.2⟩

/-- The cells of a request: the allocator's, and the buffer of a read. -/
def RwCells (used : List Extent) (paddr nbyte x : Nat) : Prop :=
  OwnCell used x ∨ 0x8000000000 + paddr ≤ x ∧ x < 0x8000000000 + paddr + nbyte

/-- The buffer of a request is a block's, or what is behind it. -/
def BufferOwned (blocks : List Extent) (paddr nbyte : Nat) : Prop :=
  paddr + nbyte ≤ 0x400000 ∧
    ∀ x, 0x8000000000 + paddr ≤ x → x < 0x8000000000 + paddr + nbyte → Payload blocks x

/-- **A request that has its block** touches nothing but its own memory. -/
theorem hpRw_served {paddr nbyte : Nat} (host : Host σ) (nr : HpNr) (fildes : Int)
    (hbuf : BufferOwned blocks paddr nbyte) {c : Extent}
    (hok : doKmalloc 24 mallocNoAlign s = .ok (c.addr + 16) s')
    (ht : Taken s s' tabs blocks leaf 24 mallocNoAlign c) :
    Ends (hpRw nr host fildes paddr nbyte) s
      (fun ret s' => (nr = .read → ReplyFits host s.world nbyte → ret ≤ nbyte) ∧
        KernelRep s'.heap tabs blocks leaf ∧
        Writes (RwCells (tabs ++ blocks) paddr nbyte) s s' ∧
          s'.heap.arena.top ≤ s.heap.arena.top)
      fun e s' => e = .hypervisor ∧ Writes (RwCells (tabs ++ blocks) paddr nbyte) s s' := by
  have hb := ht.alloc.rep.inv.bounds (e := c) List.mem_cons_self
  have hfits := ht.alloc.fits
  unfold Extent.fin at hb
  obtain ⟨q, hq⟩ : ∃ q, c.addr + 16 = 0x8000000000 + q := ⟨c.addr + 16 - 0x8000000000, by omega⟩
  obtain ⟨hn, hpay⟩ := hbuf
  rw [hpRw, ends_bind_of_ok hok,
    ends_congr (pokeWords (ofInt fildes) paddr nbyte (by omega) (by omega) _), hq]
  set s₂ := s'.setMem (rwWords s'.mem (0x8000000000 + q) (ofInt fildes) paddr nbyte) fun x =>
    0x8000000000 + q ≤ x ∧ x < 0x8000000000 + q + 24 with hs₂
  -- the words of the request are the block's
  have hst₂ : Stores (fun x => 0x8000000000 + q ≤ x ∧ x < 0x8000000000 + q + 24) s' s₂ :=
    stores_setMem fun x hx => rwWords_frame (by omega)
  have hmine : ∀ x, 0x8000000000 + q ≤ x ∧ x < 0x8000000000 + q + 24 → c.Has x := fun x hx =>
    ⟨by omega, by unfold Extent.fin; omega⟩
  have rep₂ : KernelRep s₂.heap tabs (c :: blocks) leaf := ht.alloc.rep.stores hst₂ fun x hx =>
    .inl ⟨c, List.mem_cons_self, by omega, (hmine x hx).2⟩
  have hw₂ : Writes (RwCells (tabs ++ blocks) paddr nbyte) s s₂ :=
    (ht.toWrites.mono fun x => .inl).trans
      (hst₂.toWrites.mono fun x hx => .inl (ht.alloc.rep.own_of_has (hmine x hx)))
  have hword : ∀ k, loadLE s₂.guest.byte (q % 2 ^ 32 + k) 8 = load64 s₂.mem
      (0x8000000000 + (q + k)) := by
    intro k
    rw [Nat.mod_eq_of_lt (by omega)]
    exact loadLE_shift s₂.mem 0x8000000000 8 (q + k)
  have hwords := load64_rwWords s'.mem (0x8000000000 + q) (ofInt fildes) paddr nbyte
  have haddr : loadLE s₂.guest.byte (q % 2 ^ 32 + 8) 8 = paddr := by
    rw [hword, ← Nat.add_assoc]
    exact hwords.2.1.trans (Nat.mod_eq_of_lt (by omega))
  have hlen : loadLE s₂.guest.byte (q % 2 ^ 32 + 16) 8 = nbyte := by
    rw [hword, ← Nat.add_assoc]
    exact hwords.2.2.trans (Nat.mod_eq_of_lt (by omega))
  have hphys : ofExec (physical (0x8000000000 + q)) s₂ = .ok q s₂ := by
    rw [physical_window (by omega)]
    rfl
  rw [ends_bind_of_ok hphys]
  have hcall : Ends (hypercall host nr q) s₂ (fun ret s₃ => (nr = .read →
      ReplyFits host s.world nbyte → ret ≤ nbyte) ∧ Stores (fun x => 0x8000000000 + paddr ≤ x ∧
      x < 0x8000000000 + paddr + nbyte) s₂ s₃) fun e s₃ => e = .hypervisor ∧
      Stores (fun x => 0x8000000000 + paddr ≤ x ∧ x < 0x8000000000 + paddr + nbyte) s₂ s₃ := by
    refine hypercall_spec host nr q (fun t ret hh => ?_) (fun call after hh => ?_)
      fun fd buf n after hh x h₁ h₂ => ?_
    · rintro - -
      cases hpHandler_effect hh with
      | refused _ neg => omega
    · rintro rfl hhost
      have hfits : ReplyFits host s₂.world nbyte :=
        (show s₂.world = s.world from ht.world) ▸ hhost
      rw [← hlen] at hfits ⊢
      exact hpHandler_read_le hfits hh
    · obtain ⟨-, hbuf, hcount⟩ := hpHandler_read hh
      rw [haddr] at hbuf
      rw [hlen] at hcount
      exact ⟨hbuf ▸ h₁, hcount ▸ hbuf ▸ h₂⟩
  refine Ends.bind (hcall.mono (fun _ _ h => h) fun e s₃ h =>
    ⟨h.1, hw₂.trans (h.2.toWrites.mono fun x => .inr)⟩) fun ret s₃ hs₃ => ?_
  have rep₃ : KernelRep s₃.heap tabs (c :: blocks) leaf := rep₂.stores hs₃.2 fun x hx => by
    obtain ⟨e, he, hex⟩ := hpay x hx.1 hx.2
    exact .inl ⟨e, List.mem_cons_of_mem _ he, hex⟩
  obtain ⟨s₄, hfree, rep₄, hl₄, -⟩ := doKfree_spec rep₃
  rw [← hq, ends_bind_of_ok hfree, ends_pure]
  refine ⟨hs₃.1, rep₄, (hw₂.trans (hs₃.2.toWrites.mono fun x => .inr)).trans (hl₄.toWrites.mono
    fun x => .inl), ?_⟩
  exact ht.top_le rep₃ (by rw [hs₃.2.arena, hst₂.arena]) hfree

/-- **A request without its block** writes its words to address 0 before `physical` ends it. -/
theorem hpRw_refused (host : Host σ) (nr : HpNr) (fildes : Int) (paddr nbyte : Nat)
    {used : List Extent}
    (hno : Ends (doKmalloc 24 mallocNoAlign) s (fun p s' => p = 0 ∧ TurnedDown s s' used 24)
      fun _ s' => TurnedDown s s' used 24 ∧ 0 < 24) :
    Ends (hpRw nr host fildes paddr nbyte) s (fun _ _ => False) fun _ => Marked := by
  have hmark : ∀ {s'}, TurnedDown s s' used 24 → Marked s' := fun h =>
    ⟨h.refused, h.cleared (by decide)⟩
  unfold hpRw
  refine (hno.mono (fun _ _ h => h) fun _ _ h => hmark h.1).bind fun p s₁ h₁ => ?_
  refine (marked_of_grows (laterFrame.of (inside_pokeLE 8 p _)) (hmark h₁.2)).bind
    fun _ s₂ h₂ => ?_
  refine (marked_of_grows (laterFrame.of (inside_pokeLE 8 (p + 8) _)) h₂).bind fun _ s₃ h₃ => ?_
  refine (marked_of_grows (laterFrame.of (inside_pokeLE 8 (p + 16) _)) h₃).bind
    fun _ s₄ h₄ => ?_
  have hphys : ofExec (physical p) s₄ = .error (.panic .physicalNonKernel) s₄ := by
    rw [h₁.1, physical_null]
    rfl
  rw [ends_bind_of_error hphys]
  exact h₄

/-! ## User buffers -/

theorem accessPages_spec {m : Mem} {type : Bool} :
    ∀ {n v : Nat}, accessPages m type n v = true →
      ∀ k, k < n → ∃ p, translateWalk m (v + 0x1000 * k) true type = some p
  | 0, v, _, k, hk => absurd hk (Nat.not_lt_zero k)
  | n + 1, v, h, k, hk => by
    rw [accessPages, Bool.and_eq_true] at h
    cases k with
    | zero =>
      cases ht : translateWalk m v true type with
      | none =>
        rw [translate, ht] at h
        exact absurd h.1 (by decide)
      | some p => exact ⟨p, rfl⟩
    | succ k =>
      have hrest := accessPages_spec h.2 k (by omega)
      rwa [show v + 0x1000 + 0x1000 * k = v + 0x1000 * (k + 1) by omega] at hrest

/-- A buffer of less than 4 GB that `access_ok` lets pass is accessible in every byte. -/
theorem accessOk_spec {h : Heap} (inv : KernelInv h blocks leaf) {type : Bool} {addr size : Nat}
    (hok : accessOk h.mem type addr size = true) (hsize : size < 2 ^ 32) {j : Nat}
    (hj : j < size) :
    userMemRangeOk (addr + j) = true ∧ ∃ p, translateWalk h.mem (addr + j) true type =
      some p := by
  rw [accessOk, Bool.and_eq_true, Bool.and_eq_true] at hok
  obtain ⟨⟨hstart, hend⟩, hpages⟩ := hok
  rw [userMemRangeOk_iff] at hstart hend
  have hmod : (addr + size) % 2 ^ 64 = addr + size := Nat.mod_eq_of_lt (by omega)
  have hlast : (addr + size + (2 ^ 64 - 1)) % 2 ^ 64 = addr + size - 1 := by omega
  rw [hlast] at hend
  rw [hmod] at hpages
  have hout : Outside (addr + j) := ⟨by omega, by omega, by omega⟩
  refine ⟨userMemRangeOk_iff.mpr hout, ?_⟩
  have hup : addr + size ≤ alignup (addr + size) ∧ alignup (addr + size) % 0x1000 = 0 := by
    rw [alignup_eq (by omega)]
    omega
  have hdown := aligndown_eq addr
  -- the page of the byte is among those that were looked at
  obtain ⟨k, hk⟩ : ∃ k, (addr + j) / 0x1000 = addr / 0x1000 + k :=
    ⟨(addr + j) / 0x1000 - addr / 0x1000, by omega⟩
  obtain ⟨p, hp⟩ := accessPages_spec hpages k (by omega)
  have hv : aligndown addr + 0x1000 * k = 0x1000 * ((addr + j) / 0x1000) := by omega
  rw [hv, inv.walk_user ⟨by omega, by omega, by omega⟩] at hp
  rw [inv.walk_user hout]
  rw [Nat.mul_div_cancel_left _ (by decide)] at hp
  unfold leafTranslate at hp ⊢
  split at hp
  · next hcond => exact ⟨_, if_pos hcond⟩
  · cases hp

/-! ## `sys_write` -/

/-- Every cell on record is the allocator's or a fresh block's. -/
def OnlyOwn (used : List Extent) (s : Sys σ) : Prop := ∀ x, s.written x → OwnCell used x

/-- The first byte of memory is on record. -/
def Tainted (s : Sys σ) : Prop := s.written 0x8000000000

theorem Tainted.not_onlyOwn {used : List Extent} (h : Tainted s) : ¬ OnlyOwn used s :=
  fun hown => by
  have := (hown _ h).1
  omega

theorem tainted_of_grows {β : Type} {x : KernelM σ β} (hx : Grows Later x) (hs : Tainted s) :
    Ends x s (fun _ => Tainted) fun _ => Tainted :=
  (hx s).mono (fun _ _ h => h.2 _ hs) fun _ _ h => h.2 _ hs

theorem grows_hpRw (nr : HpNr) (host : Host σ) (fildes : Int) (paddr nbyte : Nat) :
    Grows Later (hpRw nr host fildes paddr nbyte) :=
  laterFrame.hpRw (grows_hypercall host nr) fildes paddr nbyte

/-- `sys_write` behind its checks. -/
def sysWriteBody (host : Host σ) (fildes : Int) (buf nbyte : Nat) : KernelM σ Int := do
  let dst ← doKmalloc nbyte mallocNoAlign
  memcpy dst buf nbyte
  let pa ← ofExec (physical dst)
  let ret ← hpWrite host fildes pa nbyte
  doKfree dst
  return ret

theorem sysWrite_rejected (host : Host σ) {fildes : Int} {buf nbyte : Nat}
    (h : fildes < 0 ∨ accessOk s.mem false buf nbyte = false) :
    ∃ ret, sysWrite host fildes buf nbyte s = .ok ret s := by
  by_cases hf : fildes < 0
  · exact ⟨-eBADF, by rw [sysWrite, if_pos hf]; rfl⟩
  · have hacc := h.resolve_left hf
    refine ⟨-eFAULT, ?_⟩
    have hon : onMem (fun m => accessOk m false buf nbyte) s = .ok false s := by
      rw [onMem, hacc]
    rw [sysWrite, if_neg hf, bind_of_ok hon]
    rfl

theorem sysWrite_checked {fildes : Int} {buf nbyte : Nat} (hf : ¬ fildes < 0)
    (hacc : accessOk s.mem false buf nbyte = true) :
    sysWrite host fildes buf nbyte s = sysWriteBody host fildes buf nbyte s := by
  have hon : onMem (fun m => accessOk m false buf nbyte) s = .ok true s := by
    rw [onMem, hacc]
  rw [sysWrite, if_neg hf, bind_of_ok hon]
  rfl

theorem copyCells_window {dst n x : Nat} (h₁ : 0x8000000000 ≤ dst) (h₂ : dst + n ≤ 0x8040000000)
    (hx : CopyCells leaf dst 0 n x) : dst ≤ x ∧ x < dst + n := by
  obtain ⟨j, -, hj, hcell⟩ := hx
  rw [leafCell_window true (by omega) (by omega)] at hcell
  cases hcell
  omega

theorem grows_writeRest (host : Host σ) (fildes : Int) (buf nbyte dst : Nat) :
    Grows Later (do
      memcpy dst buf nbyte
      let pa ← ofExec (physical dst)
      let ret ← hpWrite host fildes pa nbyte
      doKfree dst
      return ret : KernelM σ Int) := by
  refine laterFrame.bind (laterFrame.of (inside_memcpyFrom _ _ _ _)) fun _ => ?_
  refine laterFrame.bind (laterFrame.of (inside_ofExec _)) fun pa => ?_
  refine laterFrame.bind (grows_hpRw _ _ _ _ _) fun ret => ?_
  exact laterFrame.bind (laterFrame.of (inside_doKfree _)) fun _ => laterFrame.pure _

/-- A length that `kmalloc` does not accept: the copy goes to address 0, if there is a first
byte to copy. -/
theorem sysWriteBody_long (host : Host σ) (fildes : Int) (buf : Nat) {nbyte : Nat}
    (hn : 2 ^ 32 ≤ nbyte) :
    (cellAt s.mem false buf = none → sysWriteBody host fildes buf nbyte s = .error .fault s) ∧
    (∀ c, cellAt s.mem false buf = some c →
      Ends (sysWriteBody host fildes buf nbyte) s (fun _ => Tainted) fun _ => Tainted) := by
  have hnull : doKmalloc nbyte mallocNoAlign s = .ok 0 s := by
    rw [doKmalloc, if_pos hn]
    rfl
  obtain ⟨n, rfl⟩ : ∃ n, nbyte = n + 1 := ⟨nbyte - 1, by omega⟩
  constructor
  · intro hc
    have hcopy : memcpy 0 buf (n + 1) s = .error .fault s := by
      rw [memcpy, memcpyFrom, Nat.add_zero, bind_of_error (peek_of_none hc)]
    rw [sysWriteBody, bind_of_ok hnull, bind_of_error hcopy]
  · intro c hc
    have hcopy : Ends (memcpy 0 buf (n + 1)) s (fun _ => Tainted) fun _ => Tainted := by
      have hpoke := poke_of_cell (s := s) (b := s.mem c)
        (cellAt_low true (show 0 + 0 < 0x200000 by decide))
      rw [memcpy, memcpyFrom, Nat.add_zero buf, ends_bind_of_ok (peek_of_cell hc),
        ends_bind_of_ok hpoke]
      exact tainted_of_grows (laterFrame.of (inside_memcpyFrom 0 buf n 1)) (.inl rfl)
    rw [sysWriteBody, ends_bind_of_ok hnull]
    refine hcopy.bind fun _ s₁ h₁ => ?_
    refine (tainted_of_grows (laterFrame.of (inside_ofExec _)) h₁).bind fun pa s₂ h₂ => ?_
    refine (tainted_of_grows (grows_hpRw _ _ _ _ _) h₂).bind fun ret s₃ h₃ => ?_
    exact (tainted_of_grows (laterFrame.of (inside_doKfree _)) h₃).bind fun _ s₄ h₄ =>
      ends_pure.mpr h₄

/-- No block for the data. -/
theorem sysWriteBody_refused (host : Host σ) (fildes : Int) (buf : Nat) {nbyte : Nat}
    {used : List Extent} (hfresh : ∀ x, ¬ s.written x)
    (hno : Ends (doKmalloc nbyte mallocNoAlign) s (fun p s' => p = 0 ∧
      TurnedDown s s' used nbyte) fun _ s' => TurnedDown s s' used nbyte ∧ 0 < nbyte) :
    (nbyte = 0 → Ends (sysWriteBody host fildes buf nbyte) s (fun _ => OnlyOwn used) fun _ =>
      OnlyOwn used) ∧
    (0 < nbyte → Ends (sysWriteBody host fildes buf nbyte) s (fun _ => Tainted) fun _ =>
      Tainted) := by
  constructor
  · rintro rfl
    refine Ends.bind (hno.mono (fun _ _ h => h) fun _ _ h => absurd h.2 (Nat.lt_irrefl 0))
      fun p s₁ h₁ => ?_
    obtain ⟨rfl, htd⟩ := h₁
    -- nothing to copy, and `physical` ends the call
    have hcopy : memcpy 0 buf 0 s₁ = .ok () s₁ := rfl
    have hphys : ofExec (physical 0) s₁ = .error (.panic .physicalNonKernel) s₁ := rfl
    rw [ends_bind_of_ok hcopy, ends_bind_of_error hphys]
    exact fun x hx => (htd.quiet rfl x hx).resolve_right (hfresh x)
  · intro hpos
    refine Ends.bind (hno.mono (fun _ _ h => h) fun _ _ h => h.1.cleared hpos) fun p s₁ h₁ => ?_
    exact tainted_of_grows (grows_writeRest host fildes buf nbyte p) (h₁.2.cleared hpos)

theorem OwnCell.mono {used used' : List Extent} {x : Nat} (h : OwnCell used x)
    (hsub : used' ⊆ used) : OwnCell used' x :=
  ⟨h.1, h.2.1, fun e he => h.2.2 e (hsub he)⟩

theorem subset_middle (c : Extent) : tabs ++ blocks ⊆ tabs ++ c :: blocks := by
  intro e he
  rcases List.mem_append.mp he with h | h
  · exact List.mem_append_left _ h
  · exact List.mem_append_right _ (List.mem_cons_of_mem _ h)

/-- The physical address of a block, and what a request on it may write. -/
theorem Taken.buffer {len align : Nat} {c : Extent}
    (ht : Taken s s' tabs blocks leaf len align c) :
    ∃ q, c.addr + 16 = 0x8000000000 + q ∧ q + len ≤ 0x200000 + 0x200000 ∧
      BufferOwned (c :: blocks) q len ∧
      ∀ x, RwCells (tabs ++ c :: blocks) q len x → OwnCell (tabs ++ blocks) x := by
  have hb := ht.alloc.rep.inv.bounds (e := c) List.mem_cons_self
  have hfits := ht.alloc.fits
  unfold Extent.fin at hb
  refine ⟨c.addr + 16 - 0x8000000000, by omega, by omega, ⟨by omega, fun x h₁ h₂ => ?_⟩, ?_⟩
  · exact ⟨c, List.mem_cons_self, by omega, by unfold Extent.fin; omega⟩
  · rintro x (hx | ⟨h₁, h₂⟩)
    · exact hx.mono (subset_middle c)
    · exact ht.alloc.rep.own_of_has ⟨by omega, by unfold Extent.fin; omega⟩

theorem OnlyOwn.writes {used : List Extent} {W : Nat → Prop} (h : OnlyOwn used s)
    (hw : Writes W s s') (hW : ∀ x, W x → OwnCell used x) : OnlyOwn used s' := fun x hx =>
  (hw.written x hx).elim (hW x) (h x)

/-- Once the data is in its block, everything hangs on the block for the request. -/
theorem hpWrite_free_iff (fildes : Int) {q nbyte : Nat} {c : Extent}
    (rep : KernelRep s.heap tabs (c :: blocks) leaf) (hbuf : BufferOwned (c :: blocks) q nbyte)
    (hcells : ∀ x, RwCells (tabs ++ c :: blocks) q nbyte x → OwnCell (tabs ++ blocks) x)
    (hown : OnlyOwn (tabs ++ blocks) s) :
    Ends (hpWrite host fildes q nbyte >>= fun ret =>
          doKfree (c.addr + 16) >>= fun _ => pure ret) s
        (fun _ => OnlyOwn (tabs ++ blocks)) (fun _ => OnlyOwn (tabs ++ blocks)) ↔
      Serves s 24 mallocNoAlign := by
  rcases doKmalloc_cases rep (.inl rfl) (show 24 < 2 ^ 32 by decide) with
    ⟨hserves, d, s₃, hok₃, ht₃⟩ | ⟨hno, hend⟩
  · refine iff_of_true ?_ hserves
    have hreq : Ends (hpWrite host fildes q nbyte) s
        (fun _ s₄ => KernelRep s₄.heap tabs (c :: blocks) leaf ∧ OnlyOwn (tabs ++ blocks) s₄)
        fun _ => OnlyOwn (tabs ++ blocks) :=
      (hpRw_served host .write fildes hbuf hok₃ ht₃).mono
        (fun _ _ h => ⟨h.2.1, hown.writes h.2.2.1 hcells⟩) fun _ _ h => hown.writes h.2 hcells
    refine hreq.bind fun ret s₄ h₄ => ?_
    obtain ⟨s₅, hfree, -, hl₅, -⟩ := doKfree_spec h₄.1
    rw [ends_bind_of_ok hfree, ends_pure]
    exact h₄.2.writes hl₅.toWrites fun _ => id
  · refine iff_of_false ?_ hno
    have htaint : Ends (hpWrite host fildes q nbyte >>= fun ret =>
      doKfree (c.addr + 16) >>= fun _ => pure ret) s (fun _ => Tainted) fun _ => Tainted :=
      ((hpRw_refused host .write fildes q nbyte hend).mono (fun _ _ h => h) fun e s₄ h =>
      h.2).bind fun ret s₄ h₄ => h₄.elim
    exact htaint.not (fun _ _ => Tainted.not_onlyOwn) fun _ _ => Tainted.not_onlyOwn

/-- With a block for the data, everything hangs on the copy and the block for the request. -/
theorem sysWriteBody_served (fildes : Int) {buf nbyte : Nat} {c : Extent}
    (rep : KernelRep s.heap tabs blocks leaf) (hfresh : ∀ x, ¬ s.written x)
    (hok : doKmalloc nbyte mallocNoAlign s = .ok (c.addr + 16) s')
    (ht : Taken s s' tabs blocks leaf nbyte mallocNoAlign c) :
    Ends (sysWriteBody host fildes buf nbyte) s (fun _ => OnlyOwn (tabs ++ blocks))
        (fun _ => OnlyOwn (tabs ++ blocks)) ↔
      RoomAfter s.heap (chunkSize nbyte) (chunkSize 24) ∨
        ∃ j, j < nbyte ∧ cellAt s.mem false (buf + j) = none := by
  obtain ⟨q, hq, hlen, hbuf, hcells⟩ := ht.buffer
  have hown₁ : OnlyOwn (tabs ++ blocks) s' := fun x hx =>
    (ht.written x hx).resolve_right (hfresh x)
  have hin : ∀ x, CopyCells leaf (c.addr + 16) 0 nbyte x →
      0x8000000000 + q ≤ x ∧ x < 0x8000000000 + q + nbyte := fun x hx => by
    have := copyCells_window (by omega) (by omega) hx
    omega
  have hfree : ∀ x, CopyCells leaf (c.addr + 16) 0 nbyte x → Free (c :: blocks) x := fun x hx =>
    .inl (hbuf.2 x (hin x hx).1 (hin x hx).2)
  have hspec : Ends (memcpy (c.addr + 16) buf nbyte) s' _ _ :=
    memcpyFrom_spec (c.addr + 16) buf nbyte 0 ht.alloc.rep hfree
  have hcell : ∀ j, cellAt s.mem false (buf + j) = leafCell leaf false (buf + j) := fun j =>
    rep.inv.cellAt_eq false (buf + j)
  rw [sysWriteBody, ends_bind_of_ok hok]
  cases hm : memcpy (c.addr + 16) buf nbyte s' with
  | error e s₂ =>
    obtain ⟨-, hst, j, -, hj, hnone⟩ := (ends_of_error hm).mp hspec
    rw [ends_bind_of_error hm]
    refine iff_of_true (hown₁.writes hst.toWrites fun x hx => hcells x (.inr (hin x hx)))
      (.inr ⟨j, by omega, ?_⟩)
    rw [hcell]
    refine hnone.resolve_right fun hdst => ?_
    rw [leafCell_window true (by omega) (by omega)] at hdst
    cases hdst
  | ok u s₂ =>
    have hst : Stores (CopyCells leaf (c.addr + 16) 0 nbyte) s' s₂ := (ends_of_ok hm).mp hspec
    have rep₂ : KernelRep s₂.heap tabs (c :: blocks) leaf := ht.alloc.rep.stores hst hfree
    have hown₂ : OnlyOwn (tabs ++ blocks) s₂ :=
      hown₁.writes hst.toWrites fun x hx => hcells x (.inr (hin x hx))
    have hphys : ofExec (physical (c.addr + 16)) s₂ = .ok q s₂ := by
      rw [hq, physical_window (by omega)]
      rfl
    -- the copy has come to its end, so that it could read every byte
    have hread : ¬ ∃ j, j < nbyte ∧ cellAt s.mem false (buf + j) = none := by
      rintro ⟨j, hj, hnone⟩
      rw [hcell] at hnone
      have hkeep : ∀ m k x b, KernelRep { s'.heap with mem := m } tabs (c :: blocks) leaf →
          0 ≤ k → k < 0 + nbyte → cellAt m true (c.addr + 16 + k) = some x →
          KernelRep { s'.heap with mem := Function.update m x b } tabs (c :: blocks) leaf := by
        intro m k x b hm _ hk hx
        refine hm.write fun a ha => Function.update_of_ne ?_ _ _
        rintro rfl
        exact ha (hfree a ⟨k, Nat.zero_le k, by omega, (hm.inv.cellAt_eq true _).symm.trans hx⟩)
      have hstuck := memcpyFrom_stuck (c.addr + 16) buf (fun m hm =>
        .inl ((hm.inv.cellAt_eq false (buf + j)).trans hnone)) nbyte 0 s' ht.alloc.rep hkeep
        (Nat.zero_le j) (by omega)
      exact (ends_of_ok hm).mp hstuck
    rw [ends_bind_of_ok hm, ends_bind_of_ok hphys, hpWrite_free_iff fildes rep₂ hbuf
      hcells hown₂, or_iff_left hread, rep₂.serves_iff (.inl rfl) (by decide), Room, if_pos rfl,
      ht.alloc.rep.roomFor_stores hst hfree, ht.roomFor_iff rep (by decide)]

/-- The calls of `sys_write` that are rejected or have their memory: a bad descriptor or buffer;
a length that `kmalloc` does not accept, with nothing to read at the buffer; an empty write
without a block; a block for the data, and one for the request unless the copy faults. -/
def WriteServed (s : Sys σ) (fildes : Int) (buf nbyte : Nat) : Prop :=
  fildes < 0 ∨ accessOk s.mem false buf nbyte = false ∨
    (2 ^ 32 ≤ nbyte ∧ cellAt s.mem false buf = none) ∨
    (nbyte = 0 ∧ ¬ RoomFor s.heap (chunkSize nbyte)) ∨
    (nbyte < 2 ^ 32 ∧ RoomFor s.heap (chunkSize nbyte) ∧ (RoomAfter s.heap (chunkSize nbyte)
      (chunkSize 24) ∨ ∃ j, j < nbyte ∧ cellAt s.mem false (buf + j) = none))

/-- **`sys_write` stays in its own memory exactly when it is served.** -/
theorem sysWrite_frame (rep : KernelRep s.heap tabs blocks leaf)
    (hfresh : ∀ x, ¬ s.written x) (fildes : Int) (buf nbyte : Nat) :
    Ends (sysWrite host fildes buf nbyte) s (fun _ => OnlyOwn (tabs ++ blocks))
      (fun _ => OnlyOwn (tabs ++ blocks)) ↔ WriteServed s fildes buf nbyte := by
  have hown : OnlyOwn (tabs ++ blocks) s := fun x hx => absurd hx (hfresh x)
  by_cases hrej : fildes < 0 ∨ accessOk s.mem false buf nbyte = false
  · obtain ⟨ret, hret⟩ := sysWrite_rejected host hrej
    exact iff_of_true ((ends_of_ok hret).mpr hown) (hrej.imp_right .inl)
  obtain ⟨hf, hacc⟩ := not_or.mp hrej
  rw [ends_congr (sysWrite_checked hf (Bool.eq_true_of_not_eq_false hacc)), WriteServed,
    or_iff_right hf, or_iff_right hacc]
  by_cases hlong : 2 ^ 32 ≤ nbyte
  · -- `kmalloc` returns null at once
    obtain ⟨hnone, hsome⟩ := sysWriteBody_long (s := s) host fildes buf hlong
    cases hc : cellAt s.mem false buf with
    | none => exact iff_of_true ((ends_of_error (hnone hc)).mpr hown) (.inl ⟨hlong, rfl⟩)
    | some c =>
      refine iff_of_false ((hsome c hc).not (fun _ _ => Tainted.not_onlyOwn) fun _ _ =>
        Tainted.not_onlyOwn) ?_
      rintro (⟨-, h⟩ | ⟨h, -⟩ | ⟨h, -⟩)
      · cases h
      · omega
      · omega
  · rw [or_iff_right fun h => hlong h.1]
    have hlen := Nat.lt_of_not_le hlong
    have hroom := rep.serves_iff (.inl rfl) hlen
    rw [Room, if_pos rfl] at hroom
    rw [← hroom, and_iff_right hlen]
    rcases doKmalloc_cases rep (.inl rfl) hlen with ⟨hserves, c, s₁, hok, ht⟩ | ⟨hno, hend⟩
    · have hne : ¬ (nbyte = 0 ∧ ¬ Serves s nbyte mallocNoAlign) := fun h => h.2 hserves
      rw [sysWriteBody_served fildes rep hfresh hok ht, or_iff_right hne, and_iff_right hserves]
    · obtain ⟨hzero, hpos⟩ := sysWriteBody_refused host fildes buf hfresh hend
      by_cases hn : nbyte = 0
      · exact iff_of_true (hzero hn) (.inl ⟨hn, hno⟩)
      · refine iff_of_false ((hpos (by omega)).not (fun _ _ => Tainted.not_onlyOwn)
          fun _ _ => Tainted.not_onlyOwn) ?_
        rintro (⟨h, -⟩ | ⟨h, -⟩)
        · exact hn h
        · exact hno h

/-! ## `sys_read` -/

/-- `sys_read` behind its checks. -/
def sysReadBody (host : Host σ) (fildes : Int) (buf nbyte : Nat) : KernelM σ Int := do
  let dst ← doKmalloc nbyte mallocNoAlign
  let pa ← ofExec (physical dst)
  let ret ← hpRead host fildes pa nbyte
  copyBack buf dst ret
  doKfree dst
  return ret

theorem sysRead_rejected (host : Host σ) {fildes : Int} {buf nbyte : Nat}
    (h : fildes < 0 ∨ accessOk s.mem true buf nbyte = false) :
    ∃ ret, ret < 0 ∧ sysRead host fildes buf nbyte s = .ok ret s := by
  by_cases hf : fildes < 0
  · exact ⟨-eBADF, by decide, by rw [sysRead, if_pos hf]; rfl⟩
  · have hacc := h.resolve_left hf
    refine ⟨-eFAULT, by decide, ?_⟩
    have hon : onMem (fun m => accessOk m true buf nbyte) s = .ok false s := by
      rw [onMem, hacc]
    rw [sysRead, if_neg hf, bind_of_ok hon]
    rfl

theorem sysRead_checked {fildes : Int} {buf nbyte : Nat} (hf : ¬ fildes < 0)
    (hacc : accessOk s.mem true buf nbyte = true) :
    sysRead host fildes buf nbyte s = sysReadBody host fildes buf nbyte s := by
  have hon : onMem (fun m => accessOk m true buf nbyte) s = .ok true s := by
    rw [onMem, hacc]
  rw [sysRead, if_neg hf, bind_of_ok hon]
  rfl

theorem grows_readRest (host : Host σ) (fildes : Int) (buf nbyte dst : Nat) :
    Grows Later (do
      let pa ← ofExec (physical dst)
      let ret ← hpRead host fildes pa nbyte
      copyBack buf dst ret
      doKfree dst
      return ret : KernelM σ Int) := by
  refine laterFrame.bind (laterFrame.of (inside_ofExec _)) fun pa => ?_
  refine laterFrame.bind (grows_hpRw _ _ _ _ _) fun ret => ?_
  refine laterFrame.bind ?_ fun _ => ?_
  · exact Grows.ite (laterFrame.of (inside_memcpyFrom _ _ _ _)) (laterFrame.pure ())
  · exact laterFrame.bind (laterFrame.of (inside_doKfree _)) fun _ => laterFrame.pure _

/-- Bytes of the user's buffer below `n` that the user may write. -/
def UserCells (m : Mem) (buf n x : Nat) : Prop :=
  ∃ i p, i < n ∧ translateWalk m (buf + i) true true = some p ∧ x = 0x8000000000 + p

/-- The buffer lies in blocks: the user reaches no byte of a block's surroundings through it. -/
def BufferInside (blocks : List Extent) (m : Mem) (buf n : Nat) : Prop :=
  ∀ x, UserCells m buf n x → Payload blocks x

/-- Every cell on record is the allocator's, a fresh block's, or one of the first `n` bytes of
the user's buffer. -/
def OnlyRead (used : List Extent) (m : Mem) (buf n : Nat) (s : Sys σ) : Prop :=
  ∀ x, s.written x → OwnCell used x ∨ UserCells m buf n x

/-- The user range is none of the kernel's own mappings. -/
theorem kernelSpace_user {v : Nat} (hv : userMemRangeOk v = true) : kernelSpace v = none := by
  rw [userMemRangeOk_iff] at hv
  by_cases hlow : v < 0x8000000000
  · exact kernelSpace_none hv.1 hlow
  · have hlo : ¬ v < kernelPagingSize := by unfold kernelPagingSize; omega
    have hwin : ¬ (kernelBaseOffset ≤ v ∧ v < kernelBaseOffset + kernelWindowSize) := by
      unfold kernelBaseOffset kernelWindowSize
      omega
    exact (if_neg hlo).trans (if_neg hwin)

/-- What a kernel-mode store reaches where the user may store. -/
theorem leafCell_user {writable : Bool} {v p x : Nat} (hv : userMemRangeOk v = true)
    (ht : leafTranslate (leaf (v / 0x1000)) v true writable = some p)
    (hx : leafCell leaf writable v = some x) : x = 0x8000000000 + p := by
  have hmode : leafTranslate (leaf (v / 0x1000)) v false writable = some p := by
    unfold leafTranslate at ht ⊢
    split at ht
    · next hcond => rw [if_pos ⟨hcond.1, fun h => absurd h (by decide), hcond.2.2⟩]; exact ht
    · cases ht
  simp only [leafCell, kernelSpace_user hv, hmode, Option.map_some] at hx
  split at hx
  · exact (Option.some.inj hx).symm
  · cases hx

theorem UserCells.mono {m : Mem} {buf n n' x : Nat} (h : UserCells m buf n x) (hn : n ≤ n') :
    UserCells m buf n' x := by
  obtain ⟨i, p, hi, hp⟩ := h
  exact ⟨i, p, by omega, hp⟩

theorem Tainted.not_onlyRead {h : Heap} {used : List Extent} {m : Mem} {buf n : Nat}
    (inv : KernelInv h blocks leaf) (hin : BufferInside blocks m buf n) (ht : Tainted s) :
    ¬ OnlyRead used m buf n s := fun hread => by
  rcases hread _ ht with hown | huser
  · have := hown.1
    omega
  · obtain ⟨e, he, h₁, -⟩ := hin _ huser
    have hb := (inv.bounds he).1
    omega

/-- The copy to the user's buffer writes bytes that the user may write. -/
theorem copyCells_user {h : Heap} (inv : KernelInv h blocks leaf) {buf nbyte n x : Nat}
    (hacc : accessOk h.mem true buf nbyte = true) (hlen : nbyte < 2 ^ 32) (hn : n ≤ nbyte)
    (hx : CopyCells leaf buf 0 n x) : UserCells h.mem buf n x := by
  obtain ⟨j, -, hj, hcell⟩ := hx
  obtain ⟨hrange, p, hp⟩ := accessOk_spec inv hacc hlen (show j < nbyte by omega)
  refine ⟨j, p, by omega, hp, ?_⟩
  rw [inv.walk_user (userMemRangeOk_iff.mp hrange)] at hp
  exact leafCell_user hrange hp hcell

/-- The copy back, in a state whose record is the call's own. -/
theorem copyBack_spec {used : List Extent} {m : Mem} {buf nbyte : Nat} {ret : Int} (dst : Nat)
    (rep : KernelRep s.heap tabs blocks leaf) (hret : ret ≤ nbyte) (hown : OnlyOwn used s)
    (hcells : ∀ n x, n ≤ nbyte → CopyCells leaf buf 0 n x → UserCells m buf n x)
    (hin : ∀ x, UserCells m buf nbyte x → Payload blocks x) :
    Ends (copyBack buf dst ret) s
      (fun _ s' => KernelRep s'.heap tabs blocks leaf ∧ OnlyRead used m buf ret.toNat s')
      fun _ s' => OnlyRead used m buf nbyte s' := by
  by_cases hpos : 0 ≤ ret
  · have hle : ret.toNat ≤ nbyte := by omega
    have hfree : ∀ x, CopyCells leaf buf 0 ret.toNat x → Free blocks x := fun x hx =>
      .inl (hin x ((hcells _ x hle hx).mono hle))
    have hrec : ∀ {s'}, Stores (CopyCells leaf buf 0 ret.toNat) s s' →
        OnlyRead used m buf ret.toNat s' := fun hst x hx =>
      (hst.written x hx).elim (fun h => .inr (hcells _ x hle h)) fun h => .inl (hown x h)
    rw [copyBack, if_pos hpos]
    refine (memcpyFrom_spec buf dst ret.toNat 0 rep hfree).mono (fun _ s' hst => ?_)
      fun _ s' h => ?_
    · exact ⟨rep.stores hst hfree, hrec hst⟩
    · exact fun x hx => (hrec h.2.1 x hx).imp_right fun hu => hu.mono hle
  · rw [copyBack, if_neg hpos, ends_pure]
    exact ⟨rep, fun x hx => .inl (hown x hx)⟩

/-- A call that writes its own memory and the user's buffer: the first `ret` bytes if it
returns `ret`, some of it if it stops. -/
def ReadOwns (used : List Extent) (buf nbyte : Nat) (s : Sys σ) (x : KernelM σ Int) : Prop :=
  Ends x s (fun ret s' => ret ≤ nbyte ∧ OnlyRead used s.mem buf ret.toNat s')
    fun _ s' => OnlyRead used s.mem buf nbyte s'

theorem readOwns_of_onlyOwn {used : List Extent} {buf nbyte : Nat} {x : KernelM σ Int}
    (h : Ends x s (fun ret s' => ret ≤ nbyte ∧ OnlyOwn used s') fun _ => OnlyOwn used) :
    ReadOwns used buf nbyte s x :=
  h.mono (fun _ _ h => ⟨h.1, fun x hx => .inl (h.2 x hx)⟩) fun _ _ h x hx => .inl (h x hx)

theorem not_readOwns_of_tainted {h : Heap} {used : List Extent} {buf nbyte : Nat}
    {x : KernelM σ Int} (inv : KernelInv h blocks leaf)
    (hin : BufferInside blocks s.mem buf nbyte)
    (ht : Ends x s (fun _ => Tainted) fun _ => Tainted) : ¬ ReadOwns used buf nbyte s x := by
  refine ht.not (fun ret s' ht h => ?_) fun _ s' ht => ht.not_onlyRead inv hin
  have hle : ret.toNat ≤ nbyte := by omega
  exact ht.not_onlyRead inv hin fun x hx => (h.2 x hx).imp_right fun hu => hu.mono hle

/-- With a block for the data, everything hangs on the block for the request. -/
theorem sysReadBody_served (hhost : HostReads host) (fildes : Int) {buf nbyte : Nat}
    {c : Extent} (rep : KernelRep s.heap tabs blocks leaf) (hfresh : ∀ x, ¬ s.written x)
    (hlen : nbyte < 2 ^ 32) (hacc : accessOk s.mem true buf nbyte = true)
    (hin : BufferInside blocks s.mem buf nbyte)
    (hok : doKmalloc nbyte mallocNoAlign s = .ok (c.addr + 16) s')
    (ht : Taken s s' tabs blocks leaf nbyte mallocNoAlign c) :
    ReadOwns (tabs ++ blocks) buf nbyte s (sysReadBody host fildes buf nbyte) ↔
      RoomAfter s.heap (chunkSize nbyte) (chunkSize 24) := by
  obtain ⟨q, hq, hroom, hbuf, hcells⟩ := ht.buffer
  have hown₁ : OnlyOwn (tabs ++ blocks) s' := fun x hx =>
    (ht.written x hx).resolve_right (hfresh x)
  have hphys : ofExec (physical (c.addr + 16)) s' = .ok q s' := by
    rw [hq, physical_window (by omega)]
    rfl
  have hserves := ht.alloc.rep.serves_iff (s := s') (.inl rfl) (show 24 < 2 ^ 32 by decide)
  rw [Room, if_pos rfl, ht.roomFor_iff rep (by decide)] at hserves
  rw [← hserves]
  rcases doKmalloc_cases ht.alloc.rep (.inl rfl) (show 24 < 2 ^ 32 by decide) with
    ⟨hserves, d, s₃, hok₃, ht₃⟩ | ⟨hno, hend⟩
  · refine iff_of_true ?_ hserves
    rw [ReadOwns, sysReadBody, ends_bind_of_ok hok, ends_bind_of_ok hphys]
    have hreq : Ends (hpRead host fildes q nbyte) s'
        (fun ret s₄ => ret ≤ nbyte ∧ KernelRep s₄.heap tabs (c :: blocks) leaf ∧
          OnlyOwn (tabs ++ blocks) s₄)
        fun _ s₄ => OnlyRead (tabs ++ blocks) s.mem buf nbyte s₄ :=
      (hpRw_served host .read fildes hbuf hok₃ ht₃).mono
        (fun _ _ h => ⟨h.1 rfl (hhost.replyFits _ _), h.2.1, hown₁.writes h.2.2.1 hcells⟩)
        fun _ _ h x hx => .inl (hown₁.writes h.2 hcells x hx)
    refine hreq.bind fun ret s₄ h₄ => ?_
    obtain ⟨hret, rep₄, hown₄⟩ := h₄
    have hin' : BufferInside (c :: blocks) s.mem buf nbyte := by
      intro x hx
      obtain ⟨e, he, hex⟩ := hin x hx
      exact ⟨e, List.mem_cons_of_mem _ he, hex⟩
    have hcopy := copyBack_spec (m := s.mem) (c.addr + 16) rep₄ hret hown₄
      (fun n x hn hx => copyCells_user rep.inv hacc hlen hn hx) hin'
    refine hcopy.bind fun _ s₅ h₅ => ?_
    obtain ⟨s₆, hfree, -, hl₆, -⟩ := doKfree_spec h₅.1
    rw [ends_bind_of_ok hfree, ends_pure]
    refine ⟨hret, fun x hx => (hl₆.written x hx).elim .inl (h₅.2 x)⟩
  · refine iff_of_false (not_readOwns_of_tainted rep.inv hin ?_) hno
    rw [sysReadBody, ends_bind_of_ok hok, ends_bind_of_ok hphys]
    exact ((hpRw_refused host .read fildes q nbyte hend).mono (fun _ _ h => h) fun e s₄ h =>
      h.2).bind fun ret s₄ h₄ => h₄.elim

/-- The calls of `sys_read` that are rejected or have their memory. A length that `kmalloc` does
not accept is stopped by `physical`. -/
def ReadServed (s : Sys σ) (fildes : Int) (buf nbyte : Nat) : Prop :=
  fildes < 0 ∨ accessOk s.mem true buf nbyte = false ∨ 2 ^ 32 ≤ nbyte ∨
    (nbyte = 0 ∧ ¬ RoomFor s.heap (chunkSize nbyte)) ∨
    (RoomFor s.heap (chunkSize nbyte) ∧ RoomAfter s.heap (chunkSize nbyte) (chunkSize 24))

/-- **`sys_read` stays in its own memory and the user's buffer exactly when it is served.** -/
theorem sysRead_frame (hhost : HostReads host) (rep : KernelRep s.heap tabs blocks leaf)
    (hfresh : ∀ x, ¬ s.written x) (fildes : Int) {buf nbyte : Nat}
    (hin : 0 ≤ fildes → accessOk s.mem true buf nbyte = true →
      BufferInside blocks s.mem buf nbyte) :
    ReadOwns (tabs ++ blocks) buf nbyte s (sysRead host fildes buf nbyte) ↔
      ReadServed s fildes buf nbyte := by
  have hown : OnlyOwn (tabs ++ blocks) s := fun x hx => absurd hx (hfresh x)
  by_cases hrej : fildes < 0 ∨ accessOk s.mem true buf nbyte = false
  · obtain ⟨ret, hle, hret⟩ := sysRead_rejected host hrej
    exact iff_of_true (readOwns_of_onlyOwn ((ends_of_ok hret).mpr ⟨by omega, hown⟩))
      (hrej.imp_right .inl)
  obtain ⟨hf, hacc⟩ := not_or.mp hrej
  have hacc := Bool.eq_true_of_not_eq_false hacc
  replace hin := hin (by omega) hacc
  have hbody : ReadOwns (tabs ++ blocks) buf nbyte s (sysRead host fildes buf nbyte) ↔
      ReadOwns (tabs ++ blocks) buf nbyte s (sysReadBody host fildes buf nbyte) :=
    ends_congr (sysRead_checked hf hacc)
  rw [hbody, ReadServed, or_iff_right hf, or_iff_right (by simp [hacc])]
  by_cases hlong : 2 ^ 32 ≤ nbyte
  · have hnull : doKmalloc nbyte mallocNoAlign s = .ok 0 s := by
      rw [doKmalloc, if_pos hlong]
      rfl
    have hphys : ofExec (physical 0) s = .error (.panic .physicalNonKernel) s := rfl
    refine iff_of_true (readOwns_of_onlyOwn ?_) (.inl hlong)
    rw [sysReadBody, ends_bind_of_ok hnull, ends_bind_of_error hphys]
    exact hown
  · rw [or_iff_right hlong]
    have hlen := Nat.lt_of_not_le hlong
    have hroom := rep.serves_iff (.inl rfl) hlen
    rw [Room, if_pos rfl] at hroom
    rw [← hroom]
    rcases doKmalloc_cases rep (.inl rfl) hlen with ⟨hserves, c, s₁, hok, ht⟩ | ⟨hno, hend⟩
    · rw [sysReadBody_served hhost fildes rep hfresh hlen hacc hin hok ht, or_iff_right fun h =>
        h.2 hserves, and_iff_right hserves]
    · by_cases hn : nbyte = 0
      · refine iff_of_true (readOwns_of_onlyOwn ?_) (.inl ⟨hn, hno⟩)
        refine Ends.bind (hend.mono (fun _ _ h => h) fun _ _ h => absurd h.2 (by omega))
          fun p s₁ h₁ => ?_
        obtain ⟨rfl, htd⟩ := h₁
        have hphys : ofExec (physical 0) s₁ = .error (.panic .physicalNonKernel) s₁ := rfl
        rw [ends_bind_of_error hphys]
        exact fun x hx => (htd.quiet hn x hx).resolve_right (hfresh x)
      · have hpos : 0 < nbyte := Nat.pos_of_ne_zero hn
        refine iff_of_false (not_readOwns_of_tainted rep.inv hin ?_) ?_
        · refine Ends.bind (hend.mono (fun _ _ h => h) fun _ _ h => h.1.cleared hpos)
            fun p s₁ h₁ => ?_
          exact tainted_of_grows (grows_readRest host fildes buf nbyte p) (h₁.2.cleared hpos)
        · rintro (⟨h, -⟩ | ⟨h, -⟩)
          · exact hn h
          · exact hno h

/-! ## The system at its start -/

/-- The system on a kernel, before anything has happened. -/
def Sys.start (k : Kernel) (w : σ) : Sys σ := ⟨k, FdMap.static, w, fun _ => False, false, []⟩

end BpfExamples.Kvm
