import BpfExamples.Kvm.ExecveLeaks
import BpfExamples.Kvm.OpenPath
import BpfExamples.Kvm.Task
import BpfExamples.Kvm.Unshared

/-!
# What the program has of the system

`task blocks s` is what a program has of the system `s`: the bytes of its blocks at the
addresses that lead there, the numbers of its files, and the host. `task_put` says what becomes
of it in a step of the kernel, from what the step has done to the blocks.

The system calls are put together from three things: a request to the hypervisor
(`hpRwSeen_asked`), a copy from the program to a block of the kernel (`memcpy_fromUser`) and one
in the other direction (`memcpy_toUser`).
-/

namespace BpfExamples.Kvm

open Mem

variable {σ : Type} {s s₁ s₂ s' : Sys σ} {tabs blocks used used' : List Extent}
  {leaf : Nat → Nat} {host : Host σ} {v p : Nat} {b : UInt8}

/-! ## What the program has -/

/-- What the program finds at `v` is in one of the blocks. -/
def Owns (blocks : List Extent) (m : Mem) (v : Nat) : Prop :=
  ∀ p, translateWalk m v true false = some p → Payload blocks (kernelBaseOffset + p)

/-- User mode gets at none of the kernel's addresses. -/
theorem KernelInv.outside_of_user (inv : KernelInv s.heap used leaf) {w : Bool}
    (hv : v < 2 ^ 48) (h : translateWalk s.mem v true w = some p) : Outside v := by
  by_contra hout
  by_cases hlow : v < 0x200000
  · rw [show translateWalk s.mem v true w = _ from inv.walk_low hlow true w] at h
    cases h
  · obtain ⟨a, rfl⟩ : ∃ a, v = 0x8000000000 + a :=
      ⟨v - 0x8000000000, by unfold Outside at hout; omega⟩
    have ha : a < 2 ^ 39 := by
      unfold Outside at hout
      omega
    rw [show translateWalk s.mem _ true w = _ from inv.walk_window ha true w,
      if_neg (by simp)] at h
    cases h

/-- Where the program may store it may load. -/
theorem KernelInv.walk_read (inv : KernelInv s.heap used leaf) {w : Bool} (hout : Outside v)
    (h : translateWalk s.mem v true w = some p) :
    translateWalk s.mem v true false = some p := by
  rw [show translateWalk s.mem v true w = _ from inv.walk_user hout true w] at h
  rw [show translateWalk s.mem v true false = _ from inv.walk_user hout true false]
  unfold leafTranslate at h ⊢
  split at h
  · next hcond =>
    rw [if_pos ⟨hcond.1, hcond.2.1, fun hf => absurd hf (by decide)⟩]
    exact h
  · cases h

theorem userHolds_iff (inv : KernelInv s.heap used leaf) :
    UserHolds s.mem blocks v b ↔ v < 2 ^ 47 ∧ ∃ p, translateWalk s.mem v true false = some p ∧
      Payload blocks (kernelBaseOffset + p) ∧ s.mem (kernelBaseOffset + p) = b := by
  constructor
  · rintro ⟨hv, hread, hpay⟩
    obtain ⟨p, hp, -, hb⟩ := userRead_cell hv hread
    exact ⟨hv, p, hp, hpay p hp, hb⟩
  · rintro ⟨hv, p, hp, hpay, rfl⟩
    have hr := userMemRangeOk_iff.mpr (inv.outside_of_user (by omega) hp)
    refine ⟨hv, ?_, fun q hq => ?_⟩
    · rw [userRead, if_pos hr, hp, Option.map_some]
    · rw [hp] at hq
      exact Option.some.inj hq ▸ hpay

open Classical in
/-- **What the program has of the system**, in the blocks that are its own. -/
noncomputable def task (blocks : List Extent) (s : Sys σ) : Task σ where
  byte v := if v < 2 ^ 47 ∧ Owns blocks s.mem v then userRead s.mem v else none
  file := s.fds.table
  world := s.world

theorem task_byte : (task blocks s).byte v = some b ↔ UserHolds s.mem blocks v b := by
  unfold task UserHolds
  dsimp only
  split
  · next h => exact ⟨fun hb => ⟨h.1, hb, h.2⟩, fun hb => hb.2.1⟩
  · next h => exact ⟨fun hb => (by cases hb), fun hb => absurd ⟨hb.1, hb.2.2⟩ h⟩

theorem task_byte_iff (inv : KernelInv s.heap used leaf) :
    (task blocks s).byte v = some b ↔ v < 2 ^ 47 ∧
      ∃ p, translateWalk s.mem v true false = some p ∧
      Payload blocks (kernelBaseOffset + p) ∧ s.mem (kernelBaseOffset + p) = b :=
  task_byte.trans (userHolds_iff inv)

/-- **The bytes after a step** that has left the leaves alone, from what it has done to the
blocks. -/
theorem task_put (inv : KernelInv s.heap used leaf) (inv' : KernelInv s'.heap used' leaf)
    {a n : Nat} {f : Nat → UInt8} (hin : ∀ i, i < n → (task blocks s).byte (a + i) ≠ none)
    (hmem : ∀ v p, Outside v → translateWalk s.mem v true false = some p → Payload blocks
      (kernelBaseOffset + p) → s'.mem (kernelBaseOffset + p) = if a ≤ v ∧ v < a + n then
      f (v - a) else s.mem (kernelBaseOffset + p)) :
    (task blocks s').byte = Task.put (task blocks s).byte a n f := by
  funext v
  refine Option.ext fun b => ?_
  have hwalk : v < 2 ^ 47 → translateWalk s'.mem v true false =
    translateWalk s.mem v true false := fun hv =>
    inv.walk_congr inv' (by omega) rfl true false
  rw [task_byte_iff inv', Task.put]
  by_cases hr : a ≤ v ∧ v < a + n
  · -- a byte of the range
    obtain ⟨c, hc⟩ := Option.ne_none_iff_exists'.mp (hin (v - a) (by omega))
    rw [Nat.add_sub_cancel' hr.1, task_byte_iff inv] at hc
    obtain ⟨hv, p, hp, hpay, -⟩ := hc
    have hnew := hmem v p (inv.outside_of_user (by omega) hp) hp hpay
    rw [if_pos hr] at hnew ⊢
    rw [hwalk hv, Option.some.injEq, ← hnew]
    constructor
    · rintro ⟨-, q, hq, -, rfl⟩
      rw [hp] at hq
      cases hq
      rfl
    · rintro rfl
      exact ⟨hv, p, hp, hpay, rfl⟩
  · rw [if_neg hr, task_byte_iff inv]
    refine and_congr_right fun hv => exists_congr fun p => ?_
    rw [hwalk hv]
    refine and_congr_right fun hp => and_congr_right fun hpay => ?_
    rw [hmem v p (inv.outside_of_user (by omega) hp) hp hpay, if_neg hr]

/-- A step that has left all of them alone. -/
theorem task_byte_congr (inv : KernelInv s.heap used leaf) (inv' : KernelInv s'.heap used' leaf)
    (hmem : ∀ v p, Outside v → translateWalk s.mem v true false = some p → Payload blocks
      (kernelBaseOffset + p) → s'.mem (kernelBaseOffset + p) = s.mem (kernelBaseOffset + p)) :
    (task blocks s').byte = (task blocks s).byte := by
  have hput : (task blocks s').byte = Task.put (task blocks s).byte 0 0 fun _ => 0 :=
    task_put inv inv' (fun i hi => absurd hi (Nat.not_lt_zero i)) fun v p hv hp hpay => by
      rw [if_neg (by omega), hmem v p hv hp hpay]
  refine hput.trans (funext fun v => ?_)
  rw [Task.put, if_neg (by omega)]

theorem task_eq {t : Task σ} (hb : (task blocks s).byte = t.byte) (hf : s.fds.table = t.file)
    (hw : s.world = t.world) : task blocks s = t := by
  cases t
  cases hb
  cases hf
  cases hw
  rfl

/-! ## Requests to the hypervisor -/

/-- A call on a descriptor has come back with a result. -/
inductive Asked (host : Host σ) (call : Int → HostCall) (fd : Int) (blocks : List Extent)
    (s s' : Sys σ) :
    Int → Output → Prop
  | closed (isClosed : s.fds.table fd.toNat = none) (world : s'.world = s.world)
      (mem : ∀ x, Payload blocks x → s'.mem x = s.mem x) :
      Asked host call fd blocks s s' (-eBADF) none
  | opened {rfd : Int} (isOpen : Opened s.fds fd rfd)
      (world : s'.world = (host s.world (call rfd)).1)
      (mem : ∀ x, Payload blocks x →
        s'.mem x = (s.receive (call rfd) (host s.world (call rfd)).2).mem x) :
      Asked host call fd blocks s s' (resultOf (host s.world (call rfd)).2)
        (s.output (call rfd))

/-- A descriptor, as the hypervisor gets it from the word of a request. -/
theorem toInt32_word {fd : Int} (h₁ : -2 ^ 31 ≤ fd) (h₂ : fd < 2 ^ 31) :
    toInt32 (ofInt fd % 2 ^ 32 : Nat) = fd := by
  rw [toInt32, Int.bmod_def]
  unfold ofInt
  split <;> omega

theorem toInt32_range (x : Int) : -2 ^ 31 ≤ toInt32 x ∧ toInt32 x < 2 ^ 31 := by
  rw [toInt32, Int.bmod_def]
  split <;> omega

/-- `handle_rw` on a request whose buffer is guest memory. -/
theorem handleRw_eq {fptr : Int → Nat → Nat → HostCall} {t : FdMap} {g : Guest}
    {data paddr n : Nat} (hdata : data + 24 ≤ g.memSize)
    (h₁ : loadLE g.byte (data + 8) 8 = paddr) (h₂ : loadLE g.byte (data + 16) 8 = n)
    (hbuf : paddr + n ≤ g.memSize) (hlt : paddr < g.memSize) (hsize : g.memSize < 2 ^ 64) :
    handleRw fptr t g data = processOnFd t (toInt32 (loadLE g.byte data 8))
      (fun rfd => .ok (fptr rfd paddr n)) id := by
  have hin : (!(decide (paddr ≤ (paddr + n) % 2 ^ 64) && decide
      ((paddr + n) % 2 ^ 64 ≤ g.memSize))) = false := by
    rw [Nat.mod_eq_of_lt (by omega)]
    simp [hbuf]
  rw [handleRw, Guest.checkOob_pos (by omega), ok_bind, Guest.word_pos (by omega), ok_bind,
    Guest.word_pos (by omega), ok_bind, Guest.word_pos (by omega), ok_bind, h₁, h₂]
  simp only [hin, Bool.false_eq_true, if_false]
  rw [Guest.checkOob_pos hlt]
  rfl

/-- The words of a request are in place. -/
def posted (s : Sys σ) (kbuf : Nat) (fd : Int) (paddr n : Nat) : Sys σ :=
  s.setMem (rwWords s.mem kbuf (ofInt fd) paddr n) fun x => kbuf ≤ x ∧ x < kbuf + 24

/-- What the hypervisor makes of them. -/
theorem posted_handler {nr : HpNr} {fptr : Int → Nat → Nat → HostCall}
    (hnr : ∀ t g data, hpHandler nr t g data = handleRw fptr t g data) {fd : Int} (h₀ : 0 ≤ fd)
    (h₁ : fd < 2 ^ 31) {q paddr n : Nat} (hq : q + 24 ≤ 0x400000) (hbuf : paddr + n ≤ 0x400000)
    (hlt : paddr < 0x400000) :
    hpHandler nr s.fds (posted s (0x8000000000 + q) fd paddr n).guest (q % 2 ^ 32) =
      processOnFd s.fds fd (fun rfd => .ok (fptr rfd paddr n)) id := by
  set s₂ := posted s (0x8000000000 + q) fd paddr n with hs₂
  have hwords := load64_rwWords s.mem (0x8000000000 + q) (ofInt fd) paddr n
  have hword : ∀ k, loadLE s₂.guest.byte (q + k) 8 =
      load64 (rwWords s.mem (0x8000000000 + q) (ofInt fd) paddr n) (0x8000000000 + q + k) := by
    intro k
    rw [Nat.add_assoc]
    exact loadLE_shift s₂.mem 0x8000000000 8 (q + k)
  have hfd : toInt32 (loadLE s₂.guest.byte q 8) = fd := by
    have hsmall : ofInt fd % 2 ^ 64 = ofInt fd % 2 ^ 32 := by
      unfold ofInt
      omega
    rw [← Nat.add_zero q, hword 0, Nat.add_zero, hwords.1, hsmall]
    exact toInt32_word (by omega) h₁
  have haddr : loadLE s₂.guest.byte (q + 8) 8 = paddr := by
    rw [hword, hwords.2.1, Nat.mod_eq_of_lt (by omega)]
  have hlen : loadLE s₂.guest.byte (q + 16) 8 = n := by
    rw [hword, hwords.2.2, Nat.mod_eq_of_lt (by omega)]
  have hsize : s₂.guest.memSize = 0x400000 := rfl
  rw [hnr, Nat.mod_eq_of_lt (by omega), handleRw_eq (by omega) haddr hlen (by omega) (by omega)
    (by omega), hfd]

/-- The end of a request, with its output. -/
def finishSeen (host : Host σ) (nr : HpNr) (kbuf : Nat) : KernelM σ (Int × Output) := do
  let pa ← ofExec (physical kbuf)
  let ret ← seenBefore (handedOut nr pa) (hypercall host nr pa)
  doKfree kbuf
  return ret

theorem finishSeen_of_ok {nr : HpNr} {q : Nat} {ret : Int} (hq : q < 0x400000)
    (h : finishRequest host nr (0x8000000000 + q) s = .ok ret s') :
    finishSeen host nr (0x8000000000 + q) s = .ok (ret, handedOut nr q s) s' := by
  have hphys : ofExec (physical (0x8000000000 + q)) s = .ok q s := by
    rw [physical_window (by omega)]
    rfl
  rw [finishRequest, bind_of_ok hphys] at h
  rw [finishSeen, bind_of_ok hphys]
  cases hc : hypercall host nr q s with
  | error e s₁ =>
    rw [bind_of_error hc] at h
    cases h
  | ok r s₁ =>
    have hseen : seenBefore (handedOut nr q) (hypercall host nr q) s = .ok (r,
        handedOut nr q s) s₁ := by
      simp only [seenBefore, hc]
    rw [bind_of_ok hc] at h
    rw [bind_of_ok hseen]
    cases hf : doKfree (0x8000000000 + q) s₁ with
    | error e s₂ =>
      rw [bind_of_error hf] at h
      cases h
    | ok u s₂ =>
      rw [bind_of_ok hf] at h ⊢
      cases h
      rfl

/-- What arrives in a cell depends on that cell alone. -/
theorem receive_mem {x : Nat} (h : s'.mem x = s.mem x) (call : HostCall) (r : HostReply) :
    (s'.receive call r).mem x = (s.receive call r).mem x := by
  cases call with
  | read fd buf n =>
    show splice s'.mem _ _ x = splice s.mem _ _ x
    by_cases hx : kernelBaseOffset + buf ≤ x ∧
      x < kernelBaseOffset + buf + (r.bytes.take n).length
    · rw [splice_of_mem hx.1 hx.2, splice_of_mem hx.1 hx.2]
    · rw [splice_of_notMem (by omega), splice_of_notMem (by omega), h]
  | openFile name => exact h
  | write fd buf n => exact h
  | lseek fd off whence => exact h
  | close fd => exact h

theorem receive_world (s : Sys σ) (call : HostCall) (r : HostReply) :
    (s.receive call r).world = s.world := by
  cases call <;> rfl

/-- **A request that comes back** has asked the host, or the descriptor is not open. It does not
come back if there is no block for it, or if the host's result is the mark for none. -/
theorem hpRwSeen_asked (host : Host σ) (nr : HpNr) (fptr : Int → Nat → Nat → HostCall)
    {fd : Int} {paddr n : Nat}
    (hnr : ∀ t g data, hpHandler nr t g data = handleRw fptr t g data)
    (hkind : ∀ rfd, fptr rfd paddr n = .read rfd paddr n ∨
      fptr rfd paddr n = .write rfd paddr n) (rep : KernelRep s.heap tabs blocks leaf)
    (hbuf : BufferOwned blocks paddr n) (hlt : paddr < 0x400000) (h₀ : 0 ≤ fd)
    (h₁ : fd < 2 ^ 31) :
    Ends (hpRwSeen nr host fd paddr n) s
      (fun r s' => Asked host (fun rfd => fptr rfd paddr n) fd blocks s s' r.1 r.2 ∧
        s'.fds.table = s.fds.table)
      fun _ _ => s.room < 0x10a8 ∨
        ∃ rfd, Opened s.fds fd rfd ∧ resultOf (host s.world (fptr rfd paddr n)).2 =
          unusedVar := by
  rcases doKmalloc_cases rep (.inl rfl) (show 24 < 2 ^ 32 by decide) with ⟨-, c, s₁, hok, ht⟩ |
    ⟨-, hno⟩
  swap
  · have hrefused := hpRw_refused host nr fd paddr n hno
    have hroom : s.room < 24 + 0x1090 := hno.out (fun _ _ h => h.2.short) fun _ _ h => h.1.short
    rw [← hpRwSeen_fst, ends_map] at hrefused
    exact hrefused.mono (fun _ _ h => h.elim) fun _ _ _ => .inl hroom
  have hb := ht.alloc.rep.inv.bounds (e := c) List.mem_cons_self
  have hfits := ht.alloc.fits
  unfold Extent.fin at hb
  obtain ⟨q, hq⟩ : ∃ q, c.addr + 16 = 0x8000000000 + q := ⟨c.addr + 16 - 0x8000000000, by omega⟩
  obtain ⟨hend, hpay⟩ := hbuf
  rw [hpRwSeen, ends_bind_of_ok hok, hq,
    ends_congr (pokeWords (ofInt fd) paddr n (by omega) (by omega) _)]
  change Ends (finishSeen host nr (0x8000000000 + q))
    (posted s₁ (0x8000000000 + q) fd paddr n) _ _
  set s₂ := posted s₁ (0x8000000000 + q) fd paddr n with hs₂
  have hhandler : hpHandler nr s₂.fds s₂.guest (q % 2 ^ 32) =
      processOnFd s.fds fd (fun rfd => .ok (fptr rfd paddr n)) id :=
    (posted_handler hnr h₀ h₁ (by omega) hend hlt).trans (by rw [ht.fds])
  have hst₂ : Stores (fun x => c.addr + 16 ≤ x ∧ x < c.addr + 16 + 24) s₁ s₂ :=
    hq ▸ stores_setMem fun x hx => rwWords_frame (by omega)
  have hworld : s₂.world = s.world := ht.world
  have hsub : c.addr + 16 - 0x8000000000 = q := by omega
  -- the words are in nobody else's block
  have hold : ∀ x, Payload blocks x → s₂.mem x = s.mem x := fun x hx => by
    have hown := hx.not_own tabs
    rw [hst₂.mem _ fun hin =>
      hown (ht.alloc.rep.own_of_has ⟨by omega, by unfold Extent.fin; omega⟩), ht.mem _ hown]
  cases htab : s.fds.table fd.toNat with
  | none =>
    rw [processOnFd_closed h₀ htab] at hhandler
    have hcall : hypercall host nr q s₂ = .ok (-eBADF) _ :=
      hypercall_answer hhandler (by decide)
    obtain ⟨s₄, hrun, hsteady, -, hw₄⟩ :=
      finishRequest_served ht hst₂ rfl (hsub ▸ hcall) (stores_set s₂ _ s₂.world fun _ => False)
      (fun x hx => hx.elim) (by rw [table_mayInitFdMap]; exact ht.fds ▸ rfl)
    rw [hq] at hrun
    rw [ends_of_ok (finishSeen_of_ok (by omega) hrun)]
    have hout : handedOut nr q s₂ = none := by simp only [handedOut, hhandler]
    rw [hout]
    exact ⟨.closed htab (hw₄.trans hworld) fun x hx => hsteady.kept x hx id, hsteady.table⟩
  | some rfd =>
    have hopen : Opened s.fds fd rfd := ⟨h₀, htab⟩
    rw [processOnFd_opened hopen] at hhandler
    change hpHandler nr s₂.fds s₂.guest (q % 2 ^ 32) =
      .ok (.host (fptr rfd paddr n) fun r => (mayInitFdMap s.fds, resultOf r)) at hhandler
    by_cases hret : resultOf (host s₂.world (fptr rfd paddr n)).2 = unusedVar
    · obtain ⟨s₃, hcall⟩ := hypercall_unused hhandler hret
      have hphys : ofExec (physical (0x8000000000 + q)) s₂ = .ok q s₂ := by
        rw [physical_window (by omega)]
        rfl
      have hseen : seenBefore (handedOut nr q) (hypercall host nr q) s₂ =
          .error .hypervisor s₃ := by
        simp only [seenBefore, hcall]
      rw [finishSeen, ends_bind_of_ok hphys, ends_bind_of_error hseen]
      exact .inr ⟨rfd, hopen, hworld ▸ hret⟩
    have hcall : hypercall host nr q s₂ = .ok _ _ := hypercall_host hhandler hret
    have hst : Stores (fun x => 0x8000000000 + paddr ≤ x ∧ x < 0x8000000000 + paddr + n) s₂
        ({ s₂ with
            fds := mayInitFdMap s.fds
            world := (host s₂.world (fptr rfd paddr n)).1 }.receive (fptr rfd paddr n)
              (host s₂.world (fptr rfd paddr n)).2) := by
      refine (stores_set s₂ _ _ _).trans ((receive_stores _ _).mono ?_)
      rintro x ⟨fd', buf, n', heq, hx₁, hx₂⟩
      rcases hkind rfd with hk | hk
      all_goals rw [hk] at heq; cases heq
      exact ⟨hx₁, hx₂⟩
    obtain ⟨s₄, hrun, hsteady, hmem, hw₄⟩ :=
      finishRequest_served ht hst₂ rfl (hsub ▸ hcall) hst (fun x hx => hpay x hx.1 hx.2)
      (by rw [receive_fds, table_mayInitFdMap]; exact ht.fds ▸ rfl)
    rw [hq] at hrun
    rw [ends_of_ok (finishSeen_of_ok (by omega) hrun)]
    have hout : handedOut nr q s₂ = s.output (fptr rfd paddr n) := by
      have hbytes : s₂.guest.bytes paddr n = s.guest.bytes paddr n :=
          List.map_congr_left fun i hi => by
        have hlt := List.mem_range.mp hi
        exact hold (0x8000000000 + (paddr + i)) (hpay _ (by omega) (by omega))
      simp only [handedOut, hhandler]
      rcases hkind rfd with hk | hk
      · rw [hk]
        rfl
      · rw [hk]
        exact congrArg (fun l => some (rfd, l)) hbytes
    rw [hout, hworld]
    refine ⟨.opened hopen ?_ fun x hx => ?_, hsteady.table⟩
    · rw [hw₄, receive_world, hworld]
    · by_cases hin : 0x8000000000 + paddr ≤ x ∧ x < 0x8000000000 + paddr + n
      · rw [hmem x hin, hworld]
        refine receive_mem ?_ _ _
        exact hold x hx
      · rw [hsteady.kept x hx hin, (receive_stores (s := s) (fptr rfd paddr n) _).mem x]
        rintro ⟨fd', buf, n', heq, hx₁, hx₂⟩
        rcases hkind rfd with hk | hk
        all_goals rw [hk] at heq; cases heq
        exact hin ⟨hx₁, hx₂⟩

/-! ## Buffers of the program -/

/-- Every byte of the buffer is one that the program may access, and in one of the blocks. -/
def UserBuffer (blocks : List Extent) (m : Mem) (w : Bool) (buf n : Nat) : Prop :=
  ∀ j, j < n → userMemRangeOk (buf + j) = true ∧
    ∃ p, translateWalk m (buf + j) true w = some p ∧
    Payload blocks (kernelBaseOffset + p)

theorem userBuffer_of_accessOk (inv : KernelInv s.heap used leaf) {w : Bool} {buf n : Nat}
    (hacc : accessOk s.mem w buf n = true) (hn : n < 2 ^ 32)
    (hown : ∀ i, i < n → Owns blocks s.mem (buf + i)) : UserBuffer blocks s.mem w buf n := by
  intro j hj
  obtain ⟨hr, p, hp⟩ := accessOk_spec inv hacc hn hj
  exact ⟨hr, p, hp, hown j hj p (inv.walk_read (userMemRangeOk_iff.mp hr) hp)⟩

theorem UserBuffer.congr {w : Bool} {buf n : Nat} (h : UserBuffer blocks s.mem w buf n)
    (inv : KernelInv s.heap used leaf) (inv' : KernelInv s'.heap used' leaf) :
    UserBuffer blocks s'.mem w buf n := by
  intro j hj
  obtain ⟨hr, p, hp, hpay⟩ := h j hj
  have hwalk : translateWalk s'.mem (buf + j) true w = translateWalk s.mem (buf + j) true w :=
    inv.walk_congr inv' (userMemRangeOk_iff.mp hr).2.1 rfl true w
  exact ⟨hr, p, hwalk.trans hp, hpay⟩

theorem UserBuffer.owns {buf n i : Nat} (h : UserBuffer blocks s.mem true buf n)
    (inv : KernelInv s.heap used leaf) (hi : i < n) : Owns blocks s.mem (buf + i) := by
  intro p hp
  obtain ⟨hr, p', hp', hpay⟩ := h i hi
  rw [show translateWalk s.mem (buf + i) true false = _
    from inv.walk_read (userMemRangeOk_iff.mp hr) hp'] at hp
  exact Option.some.inj hp ▸ hpay

/-- Where the program gets to, below the middle of the 48-bit range, the kernel gets as well. -/
theorem KernelInv.leafCell_user (inv : KernelInv s.heap used leaf) {w : Bool}
    (hr : userMemRangeOk v = true) (hv : v < 2 ^ 47)
    (h : translateWalk s.mem v true w = some p) :
    leafCell leaf w v = some (kernelBaseOffset + p) := by
  rw [← show cellAt s.mem w v = leafCell leaf w v from inv.cellAt_eq w v]
  simp only [cellAt, kernelSpace_user hr, hv, if_true, translateWalk_kernel h, Option.map_some]

theorem cellAt_high {w : Bool} (hr : userMemRangeOk v = true) (hv : ¬ v < 2 ^ 47) (m : Mem) :
    cellAt m w v = none := by
  simp only [cellAt, kernelSpace_user hr, hv, if_false]

section

variable {c : Extent} {buf n : Nat}

/-- **The copy from the program** to a block: what was in the buffer is in the block. -/
theorem memcpy_fromUser (rep : KernelRep s.heap tabs (c :: blocks) leaf)
    (hfits : n + 16 ≤ c.size) (hbuf : UserBuffer blocks s.mem false buf n) :
    Ends (memcpy (c.addr + 16) buf n) s
      (fun _ s' =>
        (∀ j, j < n → (task blocks s).byte (buf + j) = some (s'.mem (c.addr + 16 + j))) ∧
        Stores (fun x => c.addr + 16 ≤ x ∧ x < c.addr + 16 + n) s s' ∧ s'.fds = s.fds ∧
          s'.world = s.world)
      fun _ _ => ∃ j, j < n ∧ 2 ^ 47 ≤ buf + j := by
  by_cases hlow : ∀ j, j < n → buf + j < 2 ^ 47
  swap
  · -- the kernel faults at an address that is not canonical
    obtain ⟨j, hj⟩ := not_forall.mp hlow
    obtain ⟨hj, hhigh⟩ := Classical.not_imp.mp hj
    exact (memcpyFrom_stuck (P := fun _ => True) (c.addr + 16) buf (fun m _ =>
      .inl (cellAt_high (hbuf j hj).1 hhigh m)) n 0 s trivial (fun _ _ _ _ _ _ _ _ => trivial)
      (Nat.zero_le j) (by omega)).mono (fun _ _ h => h.elim) fun _ _ _ => ⟨j, hj, by omega⟩
  have hb := rep.inv.bounds (e := c) List.mem_cons_self
  unfold Extent.fin at hb
  have hcell : ∀ j, j < n → ∃ p, translateWalk s.mem (buf + j) true false = some p ∧
      Payload blocks (kernelBaseOffset + p) ∧ leafCell leaf false (buf + j) =
      some (kernelBaseOffset + p) := by
    intro j hj
    obtain ⟨hr, p, hp, hpay⟩ := hbuf j hj
    exact ⟨p, hp, hpay, rep.inv.leafCell_user hr (hlow j hj) hp⟩
  obtain ⟨s', hrun, hst, hfds, hworld, hcopy⟩ :=
    memcpyFrom_copies buf (show 0x8000000000 ≤ c.addr + 16 by omega) n 0 rep (by omega)
    (fun x h₁ h₂ => .inl ⟨c, List.mem_cons_self, by omega, by unfold Extent.fin; omega⟩)
    fun j _ hj => by
      obtain ⟨p, -, hpay, hx⟩ := hcell j (by omega)
      refine ⟨_, hx, fun hin => hpay.not_own tabs (rep.own_of_has ⟨by omega, ?_⟩)⟩
      unfold Extent.fin
      omega
  refine (ends_of_ok hrun).mpr ⟨fun j hj => ?_, hst, hfds, hworld⟩
  obtain ⟨p, hp, hpay, hx⟩ := hcell j hj
  rw [hcopy j _ (Nat.zero_le j) (by omega) hx, task_byte_iff rep.inv]
  exact ⟨hlow j hj, p, hp, hpay, rfl⟩

/-- **The copy to the program** from a block, and to nothing else. -/
theorem memcpy_toUser (rep : KernelRep s.heap tabs (c :: blocks) leaf) (hfits : n + 16 ≤ c.size)
    (hbuf : UserBuffer blocks s.mem true buf n) (hun : Unshared s.mem) :
    Ends (memcpy buf (c.addr + 16) n) s
      (fun _ s' =>
        (∀ j, j < n → buf + j < 2 ^ 47 ∧ ∀ p, translateWalk s.mem (buf + j) true true = some p →
          s'.mem (kernelBaseOffset + p) = s.mem (c.addr + 16 + j)) ∧
        Stores (fun x => ∃ j p, j < n ∧ translateWalk s.mem (buf + j) true true = some p ∧
          x = kernelBaseOffset + p) s s' ∧
        s'.fds = s.fds ∧ s'.world = s.world)
      fun _ _ => ∃ j, j < n ∧ 2 ^ 47 ≤ buf + j := by
  by_cases hlow : ∀ j, j < n → buf + j < 2 ^ 47
  swap
  · obtain ⟨j, hj⟩ := not_forall.mp hlow
    obtain ⟨hj, hhigh⟩ := Classical.not_imp.mp hj
    exact (memcpyFrom_stuck (P := fun _ => True) buf (c.addr + 16) (fun m _ =>
      .inr (cellAt_high (hbuf j hj).1 hhigh m)) n 0 s trivial (fun _ _ _ _ _ _ _ _ => trivial)
      (Nat.zero_le j) (by omega)).mono (fun _ _ h => h.elim) fun _ _ _ => ⟨j, hj, by omega⟩
  have hb := rep.inv.bounds (e := c) List.mem_cons_self
  unfold Extent.fin at hb
  -- the cell of each byte, which no other byte has
  obtain ⟨g, hg⟩ : ∃ g : Nat → Nat, ∀ j, j < n → Payload blocks (kernelBaseOffset + g j) ∧
      translateWalk s.mem (buf + j) true true = some (g j) ∧
      leafCell leaf true (buf + j) = some (kernelBaseOffset + g j) := by
    refine ⟨fun j => (translateWalk s.mem (buf + j) true true).getD 0, fun j hj => ?_⟩
    obtain ⟨hr, p, hp, hpay⟩ := hbuf j hj
    simp only [hp, Option.getD_some]
    exact ⟨hpay, trivial, rep.inv.leafCell_user hr (hlow j hj) hp⟩
  have hout : ∀ j, j < n → Outside (buf + j) := fun j hj => userMemRangeOk_iff.mp (hbuf j hj).1
  have hinj : ∀ j k, j < k → k < n → kernelBaseOffset + g j ≠ kernelBaseOffset + g k := by
    intro j k hjk hk heq
    have hj := rep.inv.walk_read (hout j (by omega)) (hg j (by omega)).2.1
    have hk' := rep.inv.walk_read (hout k hk) (hg k hk).2.1
    rw [Nat.add_left_cancel heq] at hj
    have := hun _ _ _ (hout j (by omega)) (hout k hk) hj hk'
    omega
  have hapart : ∀ j k, j < n → k < n → kernelBaseOffset + g j ≠ c.addr + 16 + k := by
    intro j k hj hk heq
    refine (hg j hj).1.not_own tabs (rep.own_of_has ⟨by omega, ?_⟩)
    unfold Extent.fin
    omega
  have hcell : ∀ m, KernelRep { s.heap with mem := m } tabs (c :: blocks) leaf →
      ∀ j, 0 ≤ j → j < 0 + n → cellAt m false (c.addr + 16 + j) = some (c.addr + 16 + j) ∧
      cellAt m true (buf + j) = some (kernelBaseOffset + g j) := by
    intro m hm j _ hj
    exact ⟨cellAt_window false (by omega) (by omega),
      (hm.inv.cellAt_eq true (buf + j)).trans (hg j (by omega)).2.2⟩
  have hkeep : ∀ m j b, KernelRep { s.heap with mem := m } tabs (c :: blocks) leaf → 0 ≤ j → j <
      0 + n → KernelRep { s.heap with mem := Function.update m (kernelBaseOffset + g j) b } tabs
      (c :: blocks) leaf := by
    intro m j b hm _ hj
    refine hm.write fun a ha => Function.update_of_ne ?_ _ _
    rintro rfl
    obtain ⟨e, he, hex⟩ := (hg j (by omega)).1
    exact ha (.inl ⟨e, List.mem_cons_of_mem _ he, hex⟩)
  obtain ⟨s', hrun, hst, hfds, hworld, -, hcopy⟩ := memcpyFrom_cells buf (c.addr + 16) n 0 rep
    hcell hkeep fun j k _ hjk hk => ⟨hapart j k (by omega) (by omega), hinj j k hjk (by omega)⟩
  refine (ends_of_ok hrun).mpr ⟨fun j hj => ⟨hlow j hj, fun p hp => ?_⟩, hst.mono ?_,
    hfds, hworld⟩
  · rw [(hg j hj).2.1] at hp
    rw [← Option.some.inj hp]
    exact hcopy j (Nat.zero_le j) (by omega)
  · rintro x ⟨j, -, hj, rfl⟩
    exact ⟨j, g j, by omega, (hg j (by omega)).2.1, rfl⟩

end

end BpfExamples.Kvm
