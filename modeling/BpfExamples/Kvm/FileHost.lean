import BpfExamples.Kvm.Execve
import BpfExamples.Kvm.HypercallBounds
import BpfExamples.Kvm.SyscallFrames

/-!
# Reading a file through the hypervisor

`hp_read` and `hp_lseek` on a descriptor behind which the host keeps a regular file. Both
allocate a block for the request; where there is none they end in a panic, and otherwise the
file's bytes arrive in the buffer and nothing else changes that has an owner.
-/

namespace BpfExamples.Kvm

open Mem

variable {σ : Type} {s s' s'' : Sys σ} {tabs blocks : List Extent} {leaf : Nat → Nat}
  {host : Host σ} {fd rfd errno : Int} {content : List UInt8} {pos : σ → Nat}

/-! ## The file -/

/-- Behind the host's descriptor `rfd` there is a regular file, and `pos` is the position in
it. Its calls succeed, so `errno` is what an earlier call left there. -/
structure FileHost (host : Host σ) (rfd : Int) (content : List UInt8) (errno : Int)
    (pos : σ → Nat) : Prop where
  errno_range : 0 ≤ errno ∧ errno ≤ 4095
  read : ∀ w buf n, (host w (.read rfd buf n)).2 =
    ⟨(min n (content.length - pos w) : Nat), errno, (content.drop (pos w)).take n⟩
  read_pos : ∀ w buf n, pos (host w (.read rfd buf n)).1 = pos w + min n
    (content.length - pos w)
  lseek : ∀ w off, (host w (.lseek rfd off seekSet)).2 = ⟨off, errno, []⟩
  lseek_pos : ∀ w off, pos (host w (.lseek rfd off seekSet)).1 = off

/-- A host with one file, whose descriptor is `rfd`. Its state is the position. -/
def fileHost (rfd : Int) (content : List UInt8) : Host Nat := fun pos call =>
  match call with
  | .read fd _ n =>
    if fd = rfd then
      (pos + min n (content.length - pos),
        ⟨(min n (content.length - pos) : Nat), 0, (content.drop pos).take n⟩)
    else (pos, ⟨-1, eBADF, []⟩)
  | .lseek fd off _ => if fd = rfd then (off, ⟨off, 0, []⟩) else (pos, ⟨-1, eBADF, []⟩)
  | _ => (pos, ⟨0, 0, []⟩)

theorem fileHost_file (rfd : Int) (content : List UInt8) :
    FileHost (fileHost rfd content) rfd content 0 id := by
  refine ⟨by decide, ?_, ?_, ?_, ?_⟩ <;> intros <;> simp [fileHost]

/-- It sets `errno` to numbers of errors. -/
theorem fileHost_errno (rfd : Int) (content : List UInt8) (w : Nat) (call : HostCall) :
    0 ≤ (fileHost rfd content w call).2.errno ∧
      (fileHost rfd content w call).2.errno ≤ 4095 := by
  have hnone : (0 : Int) ≤ 0 ∧ (0 : Int) ≤ 4095 := by decide
  have hbad : 0 ≤ eBADF ∧ eBADF ≤ 4095 := by decide
  unfold fileHost
  split
  · split
    · exact hnone
    · exact hbad
  · split
    · exact hnone
    · exact hbad
  · exact hnone

theorem fileHost_reads (rfd : Int) (content : List UInt8) :
    HostReads (fileHost rfd content) where
  read w fd buf n := by
    unfold fileHost
    dsimp only
    split
    · exact ⟨by dsimp only; omega, by dsimp only; omega⟩
    · exact ⟨Int.le_refl _, by dsimp only; omega⟩
  errno w call := (fileHost_errno rfd content w call).1

/-- The guest's descriptor `fd` is the host's `rfd`. -/
def Opened (t : FdMap) (fd rfd : Int) : Prop := 0 ≤ fd ∧ t.table fd.toNat = some rfd

theorem Opened.entry {t : FdMap} (h : Opened t fd rfd) :
    badFd (mayInitFdMap t) fd = false ∧ ((mayInitFdMap t).handle fd.toNat).realFd = rfd ∧
      fd ≤ 255 := by
  obtain ⟨hpos, htab⟩ := h
  unfold FdMap.table at htab
  split at htab
  · next hopen =>
    obtain ⟨hle, hopening⟩ := hopen
    have hmax : maxFd = 255 := rfl
    have hge : ¬ fd < 0 := by omega
    have hlt : ¬ (maxFd : Int) < fd := by omega
    refine ⟨?_, Option.some.inj htab, by omega⟩
    simp [badFd, hge, hlt, hopening]
  · cases htab

theorem processOnFd_opened {t : FdMap} (h : Opened t fd rfd) (work : Int → Except Halt HostCall)
    (t' : FdMap → FdMap) :
    processOnFd t fd work t' = do
      let call ← work rfd
      return .host call fun r => (t' (mayInitFdMap t), resultOf r) := by
  obtain ⟨hgood, hreal, -⟩ := h.entry
  rw [processOnFd, hgood, hreal]
  rfl

theorem processOnFd_closed {t : FdMap} (hpos : 0 ≤ fd) (h : t.table fd.toNat = none)
    (work : Int → Except Halt HostCall) (t' : FdMap → FdMap) :
    processOnFd t fd work t' = .ok (.answer (mayInitFdMap t) (-eBADF)) := by
  have hbad : badFd (mayInitFdMap t) fd = true := by
    unfold FdMap.table at h
    split at h
    · cases h
    · next hnot =>
      by_contra hgood
      simp only [badFd, Bool.or_eq_true, decide_eq_true_eq, Bool.not_eq_true', not_or] at hgood
      exact hnot ⟨by omega, by simpa using hgood.2⟩
  rw [processOnFd, hbad]
  rfl

/-! ## The handlers -/

theorem toInt32_ofInt (h₁ : 0 ≤ fd) (h₂ : fd ≤ 255) : toInt32 (ofInt fd : Nat) = fd := by
  rw [toInt32, Int.bmod_def]
  unfold ofInt
  split <;> omega

theorem toInt32_of_lt {n : Nat} (h : n < 2 ^ 31) : toInt32 n = n := by
  rw [toInt32, Int.bmod_def]
  split <;> omega

/-- The call behind a `read` of an open descriptor. -/
theorem hpHandler_read_eq {t : FdMap} (hfd : Opened t fd rfd) {g : Guest} {data paddr n : Nat}
    (hdata : data + 24 ≤ g.memSize) (h₀ : toInt32 (loadLE g.byte data 8) = fd)
    (h₁ : loadLE g.byte (data + 8) 8 = paddr) (h₂ : loadLE g.byte (data + 16) 8 = n)
    (hbuf : paddr + n ≤ g.memSize) (hn : 0 < n) (hsize : g.memSize < 2 ^ 64) :
    hpHandler .read t g data = .ok (.host (.read rfd paddr n) fun r =>
      (mayInitFdMap t, resultOf r)) := by
  have hin : (!(decide (paddr ≤ (paddr + n) % 2 ^ 64) && decide
      ((paddr + n) % 2 ^ 64 ≤ g.memSize))) = false := by
    rw [Nat.mod_eq_of_lt (by omega)]
    simp [hbuf]
  show handleRw .read t g data = _
  rw [handleRw, Guest.checkOob_pos (by omega), ok_bind, Guest.word_pos (by omega), ok_bind,
    Guest.word_pos (by omega), ok_bind, Guest.word_pos (by omega), ok_bind, h₀, h₁, h₂]
  simp only [hin, Bool.false_eq_true, if_false]
  rw [processOnFd_opened hfd, Guest.checkOob_pos (by omega)]
  rfl

/-- A hypercall that asks the host, and whose result is not the mark for none. -/
theorem hypercall_host {nr : HpNr} {data : Nat} {call : HostCall}
    {after : HostReply → FdMap × Int}
    (h : hpHandler nr s.fds s.guest (data % 2 ^ 32) = .ok (.host call after))
    (hret : (after (host s.world call).2).2 ≠ unusedVar) :
    hypercall host nr data s = .ok (after (host s.world call).2).2
      ({ s with
          fds := (after (host s.world call).2).1
          world := (host s.world call).1 }.receive call (host s.world call).2) := by
  simp only [hypercall, h]
  exact readPort_of_ne hret _

/-- One whose result is that mark. -/
theorem hypercall_unused {nr : HpNr} {data : Nat} {call : HostCall}
    {after : HostReply → FdMap × Int}
    (h : hpHandler nr s.fds s.guest (data % 2 ^ 32) = .ok (.host call after))
    (hret : (after (host s.world call).2).2 = unusedVar) :
    ∃ s', hypercall host nr data s = .error .hypervisor s' := by
  refine ⟨{ s with
      fds := (after (host s.world call).2).1
      world := (host s.world call).1 }.receive call (host s.world call).2, ?_⟩
  simp only [hypercall, h, readPort, thenReturn, hret, if_true]

/-- One that the hypervisor answers itself. -/
theorem hypercall_answer {nr : HpNr} {data : Nat} {t : FdMap} {ret : Int}
    (h : hpHandler nr s.fds s.guest (data % 2 ^ 32) = .ok (.answer t ret))
    (hret : ret ≠ unusedVar) : hypercall host nr data s = .ok ret { s with fds := t } := by
  simp only [hypercall, h]
  exact readPort_of_ne hret _

/-! ## Running out of memory -/

/-- A request was turned down, on less than `cost` bytes of unused memory. -/
structure Short (cost : Nat) (s s' : Sys σ) : Prop where
  refused : s'.refused = true
  room : s.room < cost

theorem Short.mono {c c' : Nat} (h : Short c s s') (hc : c ≤ c') : Short c' s s' :=
  ⟨h.refused, Nat.lt_of_lt_of_le h.room hc⟩

/-- What ran out in a later step, seen from an earlier state. -/
theorem Short.after {c c' : Nat} (h : Short c' s' s'') (hr : s.room ≤ s'.room + c) :
    Short (c + c') s s'' :=
  ⟨h.refused, by have := h.room; omega⟩

/-! ## A step that leaves owned memory alone -/

/-- The blocks and the leaf words are as before, and so are the blocks' bytes outside `W`; the
unused memory has lost at most `cost` bytes. -/
structure Steady (cost : Nat) (W : Nat → Prop) (s s' : Sys σ) (blocks : List Extent)
    (leaf : Nat → Nat) : Prop where
  inv : KernelInv s'.heap blocks leaf
  kept : ∀ x, Payload blocks x → ¬ W x → s'.mem x = s.mem x
  table : s'.fds.table = s.fds.table
  last : s'.kernel.lastMmapped = s.kernel.lastMmapped
  refused : s'.refused = s.refused
  handed : s'.handed = s.handed
  room : s.room ≤ s'.room + cost

theorem Steady.mono {c : Nat} {W W' : Nat → Prop} (h : Steady c W s s' blocks leaf)
    (hW : ∀ x, W x → W' x) : Steady c W' s s' blocks leaf :=
  { h with kept := fun x hx hw => h.kept x hx fun hw' => hw (hW x hw') }

theorem Steady.trans {c c' : Nat} {W : Nat → Prop} (h₁ : Steady c W s s' blocks leaf)
    (h₂ : Steady c' W s' s'' blocks leaf) : Steady (c + c') W s s'' blocks leaf where
  inv := h₂.inv
  kept x hx hw := (h₂.kept x hx hw).trans (h₁.kept x hx hw)
  table := h₂.table.trans h₁.table
  last := h₂.last.trans h₁.last
  refused := h₂.refused.trans h₁.refused
  handed := h₂.handed.trans h₁.handed
  room := by
    have := h₁.room
    have := h₂.room
    omega

/-- What has an owner is not the allocator's. -/
theorem Payload.not_own (tabs : List Extent) {x : Nat} (hx : Payload blocks x) :
    ¬ OwnCell (tabs ++ blocks) x := by
  obtain ⟨e, he, h₁, h₂⟩ := hx
  exact fun hown => hown.2.2 e (List.mem_append_right tabs he) ⟨by omega, h₂⟩

theorem Opened.steady {c : Nat} {W : Nat → Prop} (h : Opened s.fds fd rfd)
    (hs : Steady c W s s' blocks leaf) : Opened s'.fds fd rfd :=
  ⟨h.1, hs.table ▸ h.2⟩

/-! ## Requests -/

/-- The end of a request whose words are in place: the hypercall, and the block given back. -/
def finishRequest (host : Host σ) (nr : HpNr) (kbuf : Nat) : KernelM σ Int := do
  let pa ← ofExec (physical kbuf)
  let ret ← hypercall host nr pa
  doKfree kbuf
  return ret

/-- **A request that has its block**: only the buffer changes. -/
theorem finishRequest_served {nr : HpNr} {len : Nat} {c : Extent} {s₁ s₂ s₃ : Sys σ} {ret : Int}
    {W : Nat → Prop} (ht : Taken s s₁ tabs blocks leaf len mallocNoAlign c)
    (hwords : Stores (fun x => c.addr + 16 ≤ x ∧ x < c.addr + 16 + len) s₁ s₂)
    (hfds : s₂.fds = s₁.fds)
    (hcall : hypercall host nr (c.addr + 16 - 0x8000000000) s₂ = .ok ret s₃)
    (hst : Stores W s₂ s₃) (hW : ∀ x, W x → Payload blocks x)
    (htab : s₃.fds.table = s₂.fds.table) :
    ∃ s₄, finishRequest host nr (c.addr + 16) s₂ = .ok ret s₄ ∧
      Steady (len + 0x1090) W s s₄ blocks leaf ∧
      (∀ x, W x → s₄.mem x = s₃.mem x) ∧ s₄.world = s₃.world := by
  have hb := ht.alloc.rep.inv.bounds (e := c) List.mem_cons_self
  have hfits := ht.alloc.fits
  unfold Extent.fin at hb
  -- the words of the request are the block's
  have hmine : ∀ x, c.addr + 16 ≤ x ∧ x < c.addr + 16 + len → c.Has x := fun x hx =>
    ⟨by omega, by unfold Extent.fin; omega⟩
  have rep₂ : KernelRep s₂.heap tabs (c :: blocks) leaf :=
    ht.alloc.rep.stores hwords fun x hx =>
    .inl ⟨c, List.mem_cons_self, hx.1, (hmine x hx).2⟩
  have rep₃ : KernelRep s₃.heap tabs (c :: blocks) leaf := rep₂.stores hst fun x hx => by
    obtain ⟨e, he, hex⟩ := hW x hx
    exact .inl ⟨e, List.mem_cons_of_mem _ he, hex⟩
  obtain ⟨s₄, hfree, rep₄, hl₄, hroom₄⟩ := doKfree_spec rep₃
  have hphys : ofExec (physical (c.addr + 16)) s₂ = .ok (c.addr + 16 - 0x8000000000) s₂ := by
    obtain ⟨q, hq⟩ : ∃ q, c.addr + 16 = 0x8000000000 + q :=
      ⟨c.addr + 16 - 0x8000000000, by omega⟩
    rw [hq, physical_window (by omega), Nat.add_sub_cancel_left]
    rfl
  refine ⟨s₄, ?_, ⟨rep₄.inv, fun x hx hw => ?_, ?_, ?_, ?_, ?_, ?_⟩, fun x hw => ?_, hl₄.world⟩
  · rw [finishRequest, bind_of_ok hphys, bind_of_ok hcall, bind_of_ok hfree]
    rfl
  · have hnot := hx.not_own tabs
    rw [hl₄.mem x hnot, hst.mem x hw, hwords.mem x fun hin =>
      hnot (ht.alloc.rep.own_of_has (hmine x hin)), ht.mem x hnot]
  · rw [hl₄.fds, htab, hfds, ht.fds]
  · rw [hl₄.last, hst.last, hwords.last, ht.last]
  · rw [hl₄.refused, hst.refused, hwords.refused, ht.refused]
  · rw [hl₄.handed, hst.handed, hwords.handed, ht.handed]
  · have hroom := ht.alloc.room
    rw [hst.arena, hwords.arena] at hroom₄
    have hs : s.room = s.heap.arena.topSize := rfl
    have hs₄ : s₄.room = s₄.heap.arena.topSize := rfl
    omega
  · exact hl₄.mem x ((hW x hw).not_own tabs)

/-- The block is lost where the hypervisor stops the guest. -/
theorem finishRequest_failed {nr : HpNr} {kbuf : Nat} {Q : Int → Sys σ → Prop}
    {E : Stop → Sys σ → Prop} {e : Stop} (hbuf : 0x8000000000 ≤ kbuf ∧ kbuf < 0x8000400000)
    (hcall : hypercall host nr (kbuf - 0x8000000000) s = .error e s') :
    Ends (finishRequest host nr kbuf) s Q E ↔ E e s' := by
  obtain ⟨q, rfl⟩ : ∃ q, kbuf = 0x8000000000 + q := ⟨kbuf - 0x8000000000, by omega⟩
  have hphys : ofExec (physical (0x8000000000 + q)) s = .ok q s := by
    rw [physical_window (by omega)]
    rfl
  rw [Nat.add_sub_cancel_left] at hcall
  rw [finishRequest, ends_bind_of_ok hphys, ends_bind_of_error hcall]

/-! ## `hp_read` -/

theorem splice_add (m : Mem) (a i : Nat) (l : List UInt8) :
    splice m a l (a + i) = (l[i]?).getD (m (a + i)) := by
  by_cases h : i < l.length
  · rw [splice_of_mem (by omega) (by omega), Nat.add_sub_cancel_left]
    simp [h]
  · rw [splice_of_notMem (by omega), List.getElem?_eq_none (by omega), Option.getD_none]

/-- The bytes that a read of the file puts at index `i` of its buffer, if any. -/
theorem read_bytes {w i n : Nat} (h : i < n) :
    (((content.drop w).take n).take n)[i]? = content[w + i]? := by
  rw [List.take_take, Nat.min_self, List.getElem?_take_of_lt h, List.getElem?_drop]

/-- **`hp_read`** on an open descriptor puts the host's bytes into the buffer. The mark for no
result is the only one that the guest does not get to see. -/
theorem hpRead_host (host : Host σ) (inv : KernelInv s.heap blocks leaf)
    (hfd : Opened s.fds fd rfd) {paddr n : Nat} (hbuf : BufferOwned blocks paddr n)
    (hn : 0 < n) :
    Ends (hpRead host fd paddr n) s
      (fun ret s' => Steady 0x10a8 (fun x => 0x8000000000 + paddr ≤ x ∧
        x < 0x8000000000 + paddr + n) s s'
          blocks leaf ∧
        (∀ i, i < n → s'.mem (0x8000000000 + paddr + i) =
          (((host s.world (.read rfd paddr n)).2.bytes.take n)[i]?).getD
            (s.mem (0x8000000000 + paddr + i))) ∧
        ret = resultOf (host s.world (.read rfd paddr n)).2)
      fun _ s' => Short 0x10a8 s s' ∨ resultOf (host s.world (.read rfd paddr n)).2 =
        unusedVar := by
  obtain ⟨tabs, rep⟩ := inv.rep
  rcases doKmalloc_cases rep (.inl rfl) (show 24 < 2 ^ 32 by decide) with ⟨-, c, s₁, hok, ht⟩ |
    ⟨-, hno⟩
  · have hb := ht.alloc.rep.inv.bounds (e := c) List.mem_cons_self
    have hfits := ht.alloc.fits
    unfold Extent.fin at hb
    obtain ⟨hend, hpay⟩ := hbuf
    obtain ⟨-, -, hle⟩ := hfd.entry
    rw [hpRead, hpRw, ends_bind_of_ok hok,
      ends_congr (pokeWords (ofInt fd) paddr n (by omega) (by omega) _)]
    change Ends (finishRequest host .read (c.addr + 16)) _ _ _
    set s₂ := s₁.setMem (rwWords s₁.mem (c.addr + 16) (ofInt fd) paddr n) fun x =>
      c.addr + 16 ≤ x ∧ x < c.addr + 16 + 24 with hs₂
    have hst₂ : Stores (fun x => c.addr + 16 ≤ x ∧ x < c.addr + 16 + 24) s₁ s₂ :=
      stores_setMem fun x hx => rwWords_frame (by omega)
    -- the request, as the hypervisor reads it
    obtain ⟨q, hq⟩ : ∃ q, c.addr + 16 = 0x8000000000 + q :=
      ⟨c.addr + 16 - 0x8000000000, by omega⟩
    have hwords := load64_rwWords s₁.mem (0x8000000000 + q) (ofInt fd) paddr n
    have hword : ∀ k, loadLE s₂.guest.byte (q + k) 8 = load64 (rwWords s₁.mem (0x8000000000 + q)
        (ofInt fd) paddr n) (0x8000000000 + q + k) := by
      intro k
      rw [Nat.add_assoc, ← hq]
      exact loadLE_shift s₂.mem 0x8000000000 8 (q + k)
    have hhandler : hpHandler .read s₂.fds s₂.guest ((c.addr + 16 - 0x8000000000) % 2 ^ 32) =
        .ok (.host (.read rfd paddr n) fun r => (mayInitFdMap s₂.fds, resultOf r)) := by
      have hfd₂ : Opened s₂.fds fd rfd := ⟨hfd.1, ht.fds ▸ hfd.2⟩
      have hsize : s₂.guest.memSize = 0x400000 := rfl
      rw [hq, Nat.add_sub_cancel_left, Nat.mod_eq_of_lt (by omega)]
      refine hpHandler_read_eq hfd₂ (by omega) ?_ ?_ ?_ (by omega) hn (by omega)
      · rw [← Nat.add_zero q, hword 0, Nat.add_zero, hwords.1,
          Nat.mod_eq_of_lt (by unfold ofInt; omega)]
        exact toInt32_ofInt hfd.1 hle
      · rw [hword, hwords.2.1, Nat.mod_eq_of_lt (by omega)]
      · rw [hword, hwords.2.2, Nat.mod_eq_of_lt (by omega)]
    have hworld : s₂.world = s.world := ht.world
    by_cases hret : resultOf (host s₂.world (.read rfd paddr n)).2 = unusedVar
    · obtain ⟨s₃, hcall⟩ := hypercall_unused hhandler hret
      exact (finishRequest_failed (by omega) hcall).mpr (.inr (hworld ▸ hret))
    have hcall := hypercall_host hhandler hret
    have hst : Stores (fun x => 0x8000000000 + paddr ≤ x ∧ x < 0x8000000000 + paddr + n) s₂
        ({ s₂ with
            fds := mayInitFdMap s₂.fds
            world := (host s₂.world (.read rfd paddr n)).1 }.receive (.read rfd paddr n)
              (host s₂.world (.read rfd paddr n)).2) := by
      refine (stores_set s₂ _ _ _).trans ((receive_stores _ _).mono ?_)
      rintro x ⟨fd', buf, n', heq, h₁, h₂⟩
      cases heq
      exact ⟨h₁, h₂⟩
    obtain ⟨s₄, hrun, hsteady, hmem, -⟩ := finishRequest_served ht hst₂ rfl hcall hst
      (fun x hx => hpay x hx.1 hx.2) (table_mayInitFdMap s₂.fds)
    refine (ends_of_ok hrun).mpr ⟨hsteady, fun i hi => ?_, by rw [← hworld]⟩
    have hown := (hpay (0x8000000000 + paddr + i) (by omega) (by omega)).not_own tabs
    have hold : s₂.mem (0x8000000000 + paddr + i) = s.mem (0x8000000000 + paddr + i) := by
      rw [hst₂.mem _ fun hin =>
        hown (ht.alloc.rep.own_of_has ⟨by omega, by unfold Extent.fin; omega⟩), ht.mem _ hown]
    rw [hmem _ ⟨by omega, by omega⟩, ← hold, ← hworld]
    exact splice_add _ _ _ _
  · have hroom : s.room < 24 + 0x1090 := hno.out (fun _ _ h => h.2.short) fun _ _ h => h.1.short
    exact (hpRw_refused host .read fd paddr n hno).mono (fun _ _ h => h.elim) fun _ _ h =>
      .inl ⟨h.1, hroom⟩

/-- **`hp_read` of a file** puts its bytes into the buffer. -/
theorem hpRead_file (hfile : FileHost host rfd content errno pos)
    (inv : KernelInv s.heap blocks leaf) (hfd : Opened s.fds fd rfd) {paddr n : Nat}
    (hbuf : BufferOwned blocks paddr n) (hn : 0 < n) :
    Ends (hpRead host fd paddr n) s
      (fun ret s' => Steady 0x10a8 (fun x => 0x8000000000 + paddr ≤ x ∧
        x < 0x8000000000 + paddr + n) s s'
          blocks leaf ∧
        (∀ i, i < n → s'.mem (0x8000000000 + paddr + i) =
          (content[pos s.world + i]?).getD (s.mem (0x8000000000 + paddr + i))) ∧
        ret = (min n (content.length - pos s.world) : Nat))
      fun _ => Short 0x10a8 s := by
  have hend : paddr + n ≤ 0x400000 := hbuf.1
  have hres : resultOf (host s.world (.read rfd paddr n)).2 =
      (min n (content.length - pos s.world) : Nat) := by
    rw [hfile.read, resultOf]
    dsimp only
    rw [toInt32_of_lt (by omega), if_neg (by omega)]
  have hread := hpRead_host host inv hfd hbuf hn
  rw [hres, hfile.read] at hread
  refine hread.mono (fun ret s' h => ⟨h.1, fun i hi => ?_, h.2.2⟩) fun _ _ h =>
    h.resolve_right ?_
  · rw [h.2.1 i hi, read_bytes hi]
  · have hun := unusedVar_lt
    omega

/-! ## `hp_lseek` -/

/-- The three words of an `lseek`. -/
def seekWords (m : Mem) (kbuf a b n : Nat) : Mem :=
  storeLE (storeLE (storeLE m kbuf 4 a) (kbuf + 4) 4 b) (kbuf + 8) 4 n

theorem seekWords_frame {m : Mem} {kbuf a b n x : Nat} (h : x < kbuf ∨ kbuf + 12 ≤ x) :
    seekWords m kbuf a b n x = m x := by
  rw [seekWords, storeLE_of_notMem (by omega), storeLE_of_notMem (by omega),
    storeLE_of_notMem (by omega)]

theorem loadLE_storeLE_of_apart {m : Mem} {a b n k v : Nat} (h : a + n ≤ b ∨ b + k ≤ a) :
    loadLE (storeLE m b k v) a n = loadLE m a n :=
  loadLE_congr fun x h₁ h₂ => storeLE_of_notMem (by omega)

theorem loadLE_seekWords (m : Mem) (kbuf a b n : Nat) :
    loadLE (seekWords m kbuf a b n) kbuf 4 = a % 2 ^ 32 ∧
      loadLE (seekWords m kbuf a b n) (kbuf + 4) 4 = b % 2 ^ 32 ∧
      loadLE (seekWords m kbuf a b n) (kbuf + 8) 4 = n % 2 ^ 32 := by
  unfold seekWords
  refine ⟨?_, ?_, loadLE_storeLE _ _ _ _⟩
  · rw [loadLE_storeLE_of_apart (by omega), loadLE_storeLE_of_apart (by omega), loadLE_storeLE]
    rfl
  · rw [loadLE_storeLE_of_apart (by omega), loadLE_storeLE]
    rfl

/-- What the guest is told of a seek to `off`: past `2^31` the position looks like an error. -/
def seekResult (errno : Int) (off : Nat) : Int := if off < 2 ^ 31 then off else -errno

theorem resultOf_seek {off : Nat} (hoff : off < 2 ^ 32) :
    resultOf ⟨off, errno, []⟩ = seekResult errno off := by
  unfold resultOf seekResult
  dsimp only
  rw [toInt32, Int.bmod_def]
  split <;> split <;> split <;> omega

/-- **The request of `hp_lseek`**, as the hypervisor gets it, once there is a block for it. -/
theorem hpLseek_posted (host : Host σ) (fd : Int) (off : Nat) {c : Extent} {s₁ : Sys σ}
    (hok : doKmalloc 12 mallocNoAlign s = .ok (c.addr + 16) s₁)
    (ht : Taken s s₁ tabs blocks leaf 12 mallocNoAlign c) :
    ∃ s₂, hpLseek host fd off seekSet s = finishRequest host .lseek (c.addr + 16) s₂ ∧
      Stores (fun x => c.addr + 16 ≤ x ∧ x < c.addr + 16 + 12) s₁ s₂ ∧ s₂.fds = s₁.fds ∧
        s₂.world = s₁.world ∧
      hpHandler .lseek s₂.fds s₂.guest ((c.addr + 16 - 0x8000000000) % 2 ^ 32) =
        processOnFd s₂.fds (toInt32 (ofInt fd % 2 ^ 32 : Nat))
          (fun r => .ok (.lseek r (off % 2 ^ 32) seekSet)) id := by
  have hb := ht.alloc.rep.inv.bounds (e := c) List.mem_cons_self
  have hfits := ht.alloc.fits
  unfold Extent.fin at hb
  refine ⟨s₁.setMem (seekWords s₁.mem (c.addr + 16) (ofInt fd) off (ofInt seekSet)) fun x =>
    c.addr + 16 ≤ x ∧ x < c.addr + 16 + 12, ?_, stores_setMem fun x hx =>
      seekWords_frame (by omega), rfl, rfl, ?_⟩
  · rw [hpLseek, bind_of_ok hok, bind_of_ok (pokeLE_window 4 (c.addr + 16) (ofInt fd) (by omega)
      (by omega)), bind_of_ok (pokeLE_window 4 (c.addr + 16 + 4) off (by omega) (by omega)),
      bind_of_ok (pokeLE_window 4 (c.addr + 16 + 8) (ofInt seekSet) (by omega) (by omega)),
      setMem_setMem (w := fun x => c.addr + 16 + 4 ≤ x ∧ x < c.addr + 16 + 12)
      fun x => by omega, setMem_setMem (w := fun x => c.addr + 16 ≤ x ∧ x < c.addr + 16 + 12)
      fun x => by omega]
    rfl
  · set s₂ := s₁.setMem (seekWords s₁.mem (c.addr + 16) (ofInt fd) off (ofInt seekSet)) fun x =>
      c.addr + 16 ≤ x ∧ x < c.addr + 16 + 12 with hs₂
    obtain ⟨q, hq⟩ : ∃ q, c.addr + 16 = 0x8000000000 + q :=
      ⟨c.addr + 16 - 0x8000000000, by omega⟩
    have hwords := loadLE_seekWords s₁.mem (0x8000000000 + q) (ofInt fd) off (ofInt seekSet)
    have hword : ∀ k, loadLE s₂.guest.byte (q + k) 4 = loadLE (seekWords s₁.mem
        (0x8000000000 + q) (ofInt fd) off (ofInt seekSet)) (0x8000000000 + q + k) 4 := by
      intro k
      rw [Nat.add_assoc, ← hq]
      exact loadLE_shift s₂.mem 0x8000000000 4 (q + k)
    have h₀ : loadLE s₂.guest.byte q 4 = ofInt fd % 2 ^ 32 := (hword 0).trans hwords.1
    have h₁ : loadLE s₂.guest.byte (q + 4) 4 = off % 2 ^ 32 := (hword 4).trans hwords.2.1
    have h₂ : loadLE s₂.guest.byte (q + 8) 4 = ofInt seekSet % 2 ^ 32 :=
      (hword 8).trans hwords.2.2
    have hsize : s₂.guest.memSize = 0x400000 := rfl
    rw [hq, Nat.add_sub_cancel_left, Nat.mod_eq_of_lt (by omega)]
    show hpHandleLseek s₂.fds s₂.guest q = _
    rw [hpHandleLseek, Guest.checkOob_pos (by omega), ok_bind, Guest.word_pos (by omega),
      ok_bind, Guest.word_pos (by omega), ok_bind, Guest.word_pos (by omega),
      ok_bind, h₀, h₁, h₂]
    rfl

/-- **Without its block** the request of `hp_lseek` ends in `physical`. -/
theorem hpLseek_refused (host : Host σ) (fd : Int) (off : Nat) {used : List Extent}
    (hno : Ends (doKmalloc 12 mallocNoAlign) s (fun p s' => p = 0 ∧ TurnedDown s s' used 12)
      fun _ s' => TurnedDown s s' used 12 ∧ 0 < 12) :
    Ends (hpLseek host fd off seekSet) s (fun _ _ => False) fun _ => Short 0x109c s := by
  have hroom : s.room < 12 + 0x1090 := hno.out (fun _ _ h => h.2.short) fun _ _ h => h.1.short
  have hmark : ∀ {s'}, TurnedDown s s' used 12 → Marked s' := fun h =>
    ⟨h.refused, h.cleared (by decide)⟩
  unfold hpLseek
  refine (hno.mono (fun _ _ h => h) fun _ _ h => ⟨h.1.refused, hroom⟩).bind fun p s₁ h₁ => ?_
  refine Ends.mono ?_ (fun _ _ h => h) fun _ _ (h : Marked _) => ⟨h.1, hroom⟩
  refine (marked_of_grows (laterFrame.of (inside_pokeLE 4 p _)) (hmark h₁.2)).bind
    fun _ s₂ h₂ => ?_
  refine (marked_of_grows (laterFrame.of (inside_pokeLE 4 (p + 4) _)) h₂).bind fun _ s₃ h₃ => ?_
  refine (marked_of_grows (laterFrame.of (inside_pokeLE 4 (p + 8) _)) h₃).bind fun _ s₄ h₄ => ?_
  have hphys : ofExec (physical p) s₄ = .error (.panic .physicalNonKernel) s₄ := by
    rw [h₁.1, physical_null]
    rfl
  rw [ends_bind_of_error hphys]
  exact h₄

/-- **`hp_lseek`** on an open descriptor is the host's. -/
theorem hpLseek_host (host : Host σ) (inv : KernelInv s.heap blocks leaf)
    (hfd : Opened s.fds fd rfd) {off : Nat} (hoff : off < 2 ^ 32) :
    Ends (hpLseek host fd off seekSet) s
      (fun ret s' => ret = resultOf (host s.world (.lseek rfd off seekSet)).2 ∧
        Steady 0x109c (fun _ => False) s s' blocks leaf ∧
          s'.world = (host s.world (.lseek rfd off seekSet)).1)
      fun _ s' => Short 0x109c s s' ∨ resultOf (host s.world (.lseek rfd off seekSet)).2 =
        unusedVar := by
  obtain ⟨tabs, rep⟩ := inv.rep
  rcases doKmalloc_cases rep (.inl rfl) (show 12 < 2 ^ 32 by decide) with ⟨-, c, s₁, hok, ht⟩ |
    ⟨-, hno⟩
  · obtain ⟨s₂, hrun, hst₂, hfds, hworld, hhandler⟩ := hpLseek_posted host fd off hok ht
    obtain ⟨-, -, hle⟩ := hfd.entry
    have hge := hfd.1
    have hfd₂ : Opened s₂.fds fd rfd := by
      rw [hfds, ht.fds]
      exact hfd
    rw [Nat.mod_eq_of_lt (show ofInt fd < 2 ^ 32 by unfold ofInt; omega), toInt32_ofInt hge hle,
      Nat.mod_eq_of_lt hoff, processOnFd_opened hfd₂] at hhandler
    replace hworld : s₂.world = s.world := hworld.trans ht.world
    rw [ends_congr hrun]
    by_cases hret : resultOf (host s₂.world (.lseek rfd off seekSet)).2 = unusedVar
    · obtain ⟨s₃, hcall⟩ := hypercall_unused hhandler hret
      have hb := ht.alloc.rep.inv.bounds (e := c) List.mem_cons_self
      have hfits := ht.alloc.fits
      unfold Extent.fin at hb
      exact (finishRequest_failed (by omega) hcall).mpr (.inr (hworld ▸ hret))
    have hcall := hypercall_host hhandler hret
    obtain ⟨s₄, hrun, hsteady, -, hw₄⟩ := finishRequest_served ht hst₂ hfds hcall
      (stores_set s₂ _ _ fun _ => False) (fun x hx => hx.elim) (table_mayInitFdMap s₂.fds)
    refine (ends_of_ok hrun).mpr ⟨by rw [← hworld], hsteady, ?_⟩
    rw [hw₄, ← hworld]
    rfl
  · exact (hpLseek_refused host fd off hno).mono (fun _ _ h => h.elim) fun _ _ => .inl

/-- **`hp_lseek`** on a descriptor that is not open is turned down. -/
theorem hpLseek_closed (host : Host σ) (inv : KernelInv s.heap blocks leaf) (hpos : 0 ≤ fd)
    (hlt : fd < 2 ^ 31) (hclosed : s.fds.table fd.toNat = none) (off : Nat) :
    Ends (hpLseek host fd off seekSet) s
      (fun ret s' => ret = -eBADF ∧ Steady 0x109c (fun _ => False) s s' blocks leaf) fun _ =>
        Short 0x109c s := by
  obtain ⟨tabs, rep⟩ := inv.rep
  rcases doKmalloc_cases rep (.inl rfl) (show 12 < 2 ^ 32 by decide) with ⟨-, c, s₁, hok, ht⟩ |
    ⟨-, hno⟩
  · obtain ⟨s₂, hrun, hst₂, hfds, -, hhandler⟩ := hpLseek_posted host fd off hok ht
    have hfd : toInt32 (ofInt fd % 2 ^ 32 : Nat) = fd := by
      have hword : ofInt fd % 2 ^ 32 = fd.toNat := by
        unfold ofInt
        omega
      rw [hword, toInt32_of_lt (by omega), Int.toNat_of_nonneg hpos]
    have htab : s₂.fds.table fd.toNat = none := by
      rw [hfds, ht.fds]
      exact hclosed
    rw [hfd, processOnFd_closed hpos htab] at hhandler
    have hcall : hypercall host .lseek _ s₂ = _ := hypercall_answer hhandler (by decide)
    obtain ⟨s₄, hdone, hsteady, -⟩ := finishRequest_served ht hst₂ hfds hcall
      (stores_set s₂ _ _ fun _ => False) (fun x hx => hx.elim) (table_mayInitFdMap s₂.fds)
    exact (ends_congr hrun).mpr ((ends_of_ok hdone).mpr ⟨rfl, hsteady⟩)
  · exact (hpLseek_refused host fd off hno).mono (fun _ _ h => h.elim) fun _ _ => id

/-- **`hp_lseek` on a file** moves the position, and reports what `seekResult` says. -/
theorem hpLseek_file (hfile : FileHost host rfd content errno pos)
    (inv : KernelInv s.heap blocks leaf) (hfd : Opened s.fds fd rfd) {off : Nat}
    (hoff : off < 2 ^ 32) :
    Ends (hpLseek host fd off seekSet) s
      (fun ret s' => ret = seekResult errno off ∧
        Steady 0x109c (fun _ => False) s s' blocks leaf ∧
        pos s'.world = off)
      fun _ => Short 0x109c s := by
  have hres : resultOf (host s.world (.lseek rfd off seekSet)).2 = seekResult errno off := by
    rw [hfile.lseek, resultOf_seek hoff]
  have hseek := hpLseek_host host inv hfd hoff
  rw [hres] at hseek
  refine hseek.mono (fun ret s' h => ⟨h.1, h.2.1, ?_⟩) fun _ _ h => h.resolve_right ?_
  · rw [h.2.2]
    exact hfile.lseek_pos s.world off
  · have hlow := unusedVar_lt
    have he := hfile.errno_range
    unfold seekResult
    split <;> omega

end BpfExamples.Kvm
