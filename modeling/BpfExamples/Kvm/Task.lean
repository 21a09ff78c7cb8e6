import BpfExamples.Base.Simulation
import BpfExamples.Kvm.InitialStack
import BpfExamples.Kvm.Neutral

/-!
# A program and its system calls (`kernel/syscalls/syscall_handler.c`)

Once it is started, a program loads and stores bytes of its own and enters the kernel through
`syscall_handler`. `UserStep` are its steps on the system.

What such a program should see is a much smaller machine, `Task`: bytes at addresses, numbered
files, and the host behind them. `Task.Step` says what loads, stores and calls do there; it
knows nothing of page tables, of the allocator or of the buffers that the kernel and the
hypervisor pass on. Both machines show the same events, so that one can be compared with the
other.

The bytes of a `write` are not part of the model's host calls, since the host finds them in
guest memory. `SysCall.seen` is the call together with the bytes that are there when the
hypervisor passes them on.
-/

namespace BpfExamples.Kvm

open Mem

variable {σ α β : Type}

/-! ## The dispatcher -/

/-- `ENOSYS` (errno.h). -/
def eNOSYS : Int := 38

/-- What `syscall_table` has for a number, with the arguments as the function there takes
them. -/
inductive TableEntry
  | call (op : SysCall)
  | exit (status : Int)

/-- `syscall_table` (syscall_handler.c:5–15); all other entries are null, or behind
`MAX_SYS_NR`. -/
def syscallTable (nr arg0 arg1 arg2 : Nat) : Option TableEntry :=
  match nr with
  | 0 => some (.call (.read (toInt32 arg0) arg1 arg2))
  | 1 => some (.call (.write (toInt32 arg0) arg1 arg2))
  | 2 => some (.call (.openFile arg0))
  | 3 => some (.call (.close (toInt32 arg0)))
  | 60 => some (.exit (toInt32 arg0))
  | _ => none

/-- `sys_exit` (sys_exit.c:4–6). -/
def sysExit (host : Host σ) (status : Int) : KernelM σ Int :=
  hypercall host .exit (ofInt status)

/-- A 32-bit `int` that a function has left in `eax`: the upper half of `rax` is clear. -/
def eax (x : Int) : Nat := (x % 2 ^ 32).toNat

/-- What a call has left in `rax`: `sys_read` and `sys_write` return an `int64_t`, `sys_open`
and `hp_close` an `int`, and `syscall_handler` calls all of them as functions to `uint64_t`. -/
def SysCall.rax : SysCall → Int → Nat
  | .read _ _ _, ret => ofInt ret
  | .write _ _ _, ret => ofInt ret
  | .openFile _, ret => eax ret
  | .close _, ret => eax ret

/-- `syscall_handler` (syscall_handler.c:17–33); `nr` is what the program has in `rax`, and so
is the result. -/
def syscallHandler (host : Host σ) (nr arg0 arg1 arg2 : Nat) : KernelM σ Nat :=
  match syscallTable (nr % 2 ^ 32) arg0 arg1 arg2 with
  | none => pure (ofInt (-eNOSYS))
  | some (.exit status) => eax <$> sysExit host status
  | some (.call op) => op.rax <$> op.run host

/-! ## What is written -/

/-- The descriptor and the bytes of a `write` on the host, if there is one. -/
abbrev Output := Option (Int × List UInt8)

/-- What the host gets with a call. -/
def Sys.output (s : Sys σ) : HostCall → Output
  | .write fd buf nbytes => some (fd, s.guest.bytes buf nbytes)
  | _ => none

/-- What the hypervisor passes on when it is called with the words at `data`. -/
def handedOut (nr : HpNr) (data : Nat) (s : Sys σ) : Output :=
  match hpHandler nr s.fds s.guest (data % 2 ^ 32) with
  | .ok (.host call _) => s.output call
  | _ => none

/-- A routine, and what `f` makes of the state in which it starts. -/
def seenBefore (f : Sys σ → β) (x : KernelM σ α) : KernelM σ (α × β) := fun s =>
  match x s with
  | .ok a s' => .ok (a, f s) s'
  | .error e s' => .error e s'

theorem seenBefore_fst (f : Sys σ → β) (x : KernelM σ α) : Prod.fst <$> seenBefore f x = x := by
  funext s
  show EStateM.map Prod.fst (seenBefore f x) s = x s
  cases h : x s <;> simp only [EStateM.map, seenBefore, h]

/-- `hpRw` with its output. -/
def hpRwSeen (nr : HpNr) (host : Host σ) (fildes : Int) (phyAddr nbyte : Nat) :
    KernelM σ (Int × Output) :=
  do
  let kbuf ← doKmalloc 24 mallocNoAlign
  pokeLE kbuf 8 (ofInt fildes)
  pokeLE (kbuf + 8) 8 phyAddr
  pokeLE (kbuf + 16) 8 nbyte
  let pa ← ofExec (physical kbuf)
  let ret ← seenBefore (handedOut nr pa) (hypercall host nr pa)
  doKfree kbuf
  return ret

/-- `sysWrite` with its output. -/
def sysWriteSeen (host : Host σ) (fildes : Int) (buf nbyte : Nat) : KernelM σ (Int × Output) :=
  if fildes < 0 then pure (-eBADF, none)
  else do
    let ok ← onMem fun m => accessOk m false buf nbyte
    if ok = false then return (-eFAULT, none)
    else do
      let dst ← doKmalloc nbyte mallocNoAlign
      memcpy dst buf nbyte
      let pa ← ofExec (physical dst)
      let ret ← hpRwSeen .write host fildes pa nbyte
      doKfree dst
      return ret

/-- A call with its output. -/
def SysCall.seen (host : Host σ) : SysCall → KernelM σ (Int × Output)
  | .write fildes buf nbyte => sysWriteSeen host fildes buf nbyte
  | op => do
    let ret ← op.run host
    return (ret, none)

/-- `syscallHandler` with its output. -/
def syscallSeen (host : Host σ) (nr arg0 arg1 arg2 : Nat) : KernelM σ (Nat × Output) :=
  match syscallTable (nr % 2 ^ 32) arg0 arg1 arg2 with
  | none => pure (ofInt (-eNOSYS), none)
  | some (.exit status) => do
    let ret ← sysExit host status
    return (eax ret, none)
  | some (.call op) => do
    let (ret, out) ← op.seen host
    return (op.rax ret, out)

theorem hpRwSeen_fst (nr : HpNr) (host : Host σ) (fildes : Int) (phyAddr nbyte : Nat) :
    Prod.fst <$> hpRwSeen nr host fildes phyAddr nbyte = hpRw nr host fildes phyAddr nbyte := by
  simp only [hpRwSeen, hpRw, map_bind, map_pure]
  refine bind_congr fun kbuf => bind_congr fun _ => bind_congr fun _ => bind_congr fun _ =>
    bind_congr fun pa => ?_
  conv_rhs => rw [← seenBefore_fst (handedOut nr pa) (hypercall host nr pa), bind_map_left]

theorem sysWriteSeen_fst (host : Host σ) (fildes : Int) (buf nbyte : Nat) :
    Prod.fst <$> sysWriteSeen host fildes buf nbyte = sysWrite host fildes buf nbyte := by
  unfold sysWriteSeen sysWrite
  split
  · rfl
  · rw [map_bind]
    refine bind_congr fun ok => ?_
    split
    · rfl
    · simp only [map_bind, map_pure]
      refine bind_congr fun dst => bind_congr fun _ => bind_congr fun pa => ?_
      rw [hpWrite, ← hpRwSeen_fst, bind_map_left]

/-- **To look at the output changes nothing.** -/
theorem SysCall.seen_fst (host : Host σ) (op : SysCall) :
    Prod.fst <$> op.seen host = op.run host := by
  cases op with
  | write fildes buf nbyte => exact sysWriteSeen_fst host fildes buf nbyte
  | read fildes buf nbyte => simp [SysCall.seen]
  | openFile path => simp [SysCall.seen]
  | close fildes => simp [SysCall.seen]

theorem syscallSeen_fst (host : Host σ) (nr arg0 arg1 arg2 : Nat) :
    Prod.fst <$> syscallSeen host nr arg0 arg1 arg2 =
      syscallHandler host nr arg0 arg1 arg2 := by
  unfold syscallSeen syscallHandler
  split
  · rfl
  · simp
  · rw [← SysCall.seen_fst, map_bind, Functor.map_map, ← bind_pure_comp]
    rfl

/-- A routine that ends well with a pair ends well with its first part. -/
theorem run_of_seen {x : KernelM σ (α × β)} {y : KernelM σ α} (h : Prod.fst <$> x = y)
    {s s' : Sys σ} {a : α} {b : β} (hx : x s = .ok (a, b) s') : y s = .ok a s' := by
  rw [← h]
  exact map_eq_ok.mpr ⟨_, hx, rfl⟩

/-- `sys_exit` does not come back. -/
theorem sysExit_ends (host : Host σ) (status : Int) (s : Sys σ) :
    sysExit host status s = .error .hypervisor s :=
  rfl

/-- **What a call is that comes back**: a number that there is not, or one of the four calls. -/
theorem syscallSeen_cases {host : Host σ} {s s' : Sys σ} {nr arg0 arg1 arg2 ret : Nat}
    {out : Output} (run : syscallSeen host nr arg0 arg1 arg2 s = .ok (ret, out) s') :
    (syscallTable (nr % 2 ^ 32) arg0 arg1 arg2 = none ∧ ret = ofInt (-eNOSYS) ∧
      out = none ∧ s' = s) ∨
      ∃ op r, syscallTable (nr % 2 ^ 32) arg0 arg1 arg2 = some (.call op) ∧ ret = op.rax r ∧
        op.seen host s = .ok (r, out) s' := by
  rcases hentry : syscallTable (nr % 2 ^ 32) arg0 arg1 arg2 with _ | (op | status)
  all_goals rw [syscallSeen, hentry] at run
  · cases run
    exact .inl ⟨rfl, rfl, rfl, rfl⟩
  · obtain ⟨⟨r, out'⟩, hseen, hr⟩ : ∃ r, op.seen host s = .ok r s' ∧
      (op.rax r.1, r.2) = (ret, out) := map_eq_ok.mp run
    obtain ⟨rfl, rfl⟩ := Prod.mk.inj hr
    exact .inr ⟨op, r, rfl, rfl, hseen⟩
  · dsimp only at run
    rw [bind_of_error (sysExit_ends host status s)] at run
    cases run

/-! ## The program's steps -/

/-- What can be seen of a step: the byte of a load or a store, or the registers of a call with
what it has left in `rax` and what it has handed to the host. -/
inductive Event
  | load (v : Nat) (b : UInt8)
  | store (v : Nat) (b : UInt8)
  | syscall (nr arg0 arg1 arg2 ret : Nat) (out : Output)

/-- An address of the processor. -/
def Canonical (v : Nat) : Prop := v < 2 ^ 47 ∨ 2 ^ 64 - 2 ^ 47 ≤ v ∧ v < 2 ^ 64

/-- A step of a program. One that faults, or that ends the system, is none. -/
inductive UserStep (host : Host σ) : Sys σ → Event → Sys σ → Prop
  | load {s : Sys σ} {v p : Nat} (canonical : Canonical v)
      (walk : translateWalk s.mem v true false = some p) :
      UserStep host s (.load v (s.mem (kernelBaseOffset + p))) s
  | store {s : Sys σ} {v p : Nat} {b : UInt8} (canonical : Canonical v)
      (walk : translateWalk s.mem v true true = some p) :
      UserStep host s (.store v b)
        (s.setMem (Function.update s.mem (kernelBaseOffset + p) b) (· = kernelBaseOffset + p))
  | syscall {s s' : Sys σ} {nr arg0 arg1 arg2 ret : Nat} {out : Output}
      (run : syscallSeen host nr arg0 arg1 arg2 s = .ok (ret, out) s') :
      UserStep host s (.syscall nr arg0 arg1 arg2 ret out) s'

theorem UserStep.of_seen {host : Host σ} {s s' : Sys σ} {nr arg0 arg1 arg2 : Nat} {ret : Int}
    {out : Output} (op : SysCall)
    (hentry : syscallTable (nr % 2 ^ 32) arg0 arg1 arg2 = some (.call op))
    (hseen : op.seen host s = .ok (ret, out) s') :
    UserStep host s (.syscall nr arg0 arg1 arg2 (op.rax ret) out) s' := by
  refine .syscall ?_
  rw [syscallSeen, hentry]
  exact map_eq_ok.mpr ⟨_, hseen, rfl⟩

/-- **The calls of a program** are those of `syscall_handler`. -/
theorem userStep_syscall {host : Host σ} {s s' : Sys σ} {nr arg0 arg1 arg2 ret : Nat} :
    (∃ out, UserStep host s (.syscall nr arg0 arg1 arg2 ret out) s') ↔
      syscallHandler host nr arg0 arg1 arg2 s = .ok ret s' := by
  constructor
  · rintro ⟨out, h⟩
    cases h with
    | syscall run => exact run_of_seen (syscallSeen_fst host nr arg0 arg1 arg2) run
  · intro h
    rw [← syscallSeen_fst] at h
    obtain ⟨r, hseen, rfl⟩ := map_eq_ok.mp h
    exact ⟨r.2, .syscall hseen⟩

/-! ## The machine the program should see -/

/-- What a program works with: the bytes at its addresses, the host's descriptors behind its
file numbers, and the host. -/
structure Task (σ : Type) where
  byte : Nat → Option UInt8
  file : Nat → Option Int
  world : σ

namespace Task

variable {t : Task σ}

/-- The memory with `f 0`, `f 1`, … in place of the `n` bytes at `a`. -/
def put (byte : Nat → Option UInt8) (a n : Nat) (f : Nat → UInt8) : Nat → Option UInt8 :=
  fun v => if a ≤ v ∧ v < a + n then some (f (v - a)) else byte v

/-- The bytes of a buffer that the host was to fill and that was clear before. -/
def fetched (r : HostReply) (n : Nat) : Nat → UInt8 := fun i => ((r.bytes.take n)[i]?).getD 0

/-- The number is an open file, and the host knows it as `rfd`. -/
def Has (t : Task σ) (fd rfd : Int) : Prop := 0 ≤ fd ∧ t.file fd.toNat = some rfd

/-- The number is no open file. -/
def Lacks (t : Task σ) (fd : Int) : Prop := ∀ rfd, ¬ t.Has fd rfd

/-- The program has this string at `path`. -/
def Names (t : Task σ) (path : Nat) (name : List UInt8) : Prop :=
  0 ∉ name ∧ ShowsString (fun v b => t.byte v = some b) path name

/-- What a call does, for a host, and for `check type addr size`, the buffers that pass as
readable (`false`) or writable (`true`). -/
inductive Call (host : Host σ) (check : Bool → Nat → Nat → Bool) (t : Task σ) :
    SysCall → Int → Output → Task σ → Prop
  | readNegative {fd : Int} {buf n : Nat} (neg : fd < 0) :
      Call host check t (.read fd buf n) (-eBADF) none t
  | readFault {fd : Int} {buf n : Nat} (nonneg : 0 ≤ fd) (bad : check true buf n = false) :
      Call host check t (.read fd buf n) (-eFAULT) none t
  | readClosed {fd : Int} {buf n : Nat} (nonneg : 0 ≤ fd) (ok : check true buf n = true)
      (closed : t.Lacks fd) : Call host check t (.read fd buf n) (-eBADF) none t
  /-- As many bytes as the host says are there, and the rest of the buffer is as it was. -/
  | read {fd rfd : Int} {buf n : Nat} {w : σ} {r : HostReply} (ok : check true buf n = true)
      (isOpen : t.Has fd rfd) (asked : host t.world (.read rfd 0 n) = (w, r)) :
      Call host check t (.read fd buf n) (resultOf r) none
        { t with byte := put t.byte buf (resultOf r).toNat (fetched r n), world := w }
  | writeNegative {fd : Int} {buf n : Nat} (neg : fd < 0) :
      Call host check t (.write fd buf n) (-eBADF) none t
  | writeFault {fd : Int} {buf n : Nat} (nonneg : 0 ≤ fd) (bad : check false buf n = false) :
      Call host check t (.write fd buf n) (-eFAULT) none t
  | writeClosed {fd : Int} {buf n : Nat} (nonneg : 0 ≤ fd) (ok : check false buf n = true)
      (closed : t.Lacks fd) : Call host check t (.write fd buf n) (-eBADF) none t
  /-- The host is given the program's bytes. -/
  | write {fd rfd : Int} {buf n : Nat} {w : σ} {r : HostReply} {data : List UInt8}
      (ok : check false buf n = true) (isOpen : t.Has fd rfd) (length : data.length = n)
      (bytes : ∀ i b, data[i]? = some b → t.byte (buf + i) = some b)
      (asked : host t.world (.write rfd 0 n) = (w, r)) :
      Call host check t (.write fd buf n) (resultOf r) (some (rfd, data)) { t with world := w }
  | openFault {path : Nat} (unnamed : ∀ name, ¬ t.Names path name) :
      Call host check t (.openFile path) (-eFAULT) none t
  | openNoMemory {path : Nat} {name : List UInt8} (named : t.Names path name) :
      Call host check t (.openFile path) (-eNOMEM) none t
  | openFull {path : Nat} {name : List UInt8} (named : t.Names path name)
      (full : ∀ n, n ≤ maxFd → t.file n ≠ none) :
      Call host check t (.openFile path) (-eNFILE) none t
  | openFailed {path : Nat} {name : List UInt8} {w : σ} {r : HostReply}
      (named : t.Names path name) (asked : host t.world (.openFile name) = (w, r))
      (failed : r.ret < 0) :
      Call host check t (.openFile path) (-r.errno) none { t with world := w }
  /-- The smallest number that is free. -/
  | opened {path fd : Nat} {name : List UInt8} {w : σ} {r : HostReply}
      (named : t.Names path name) (asked : host t.world (.openFile name) = (w, r))
      (worked : 0 ≤ r.ret) (le : fd ≤ maxFd) (free : t.file fd = none)
      (least : ∀ n, n < fd → t.file n ≠ none) :
      Call host check t (.openFile path) fd none
        { t with file := Function.update t.file fd (some r.ret), world := w }
  | closeClosed {fd : Int} (closed : t.Lacks fd) : Call host check t (.close fd) (-eBADF) none t
  /-- The number is free again, whatever the host answers. -/
  | close {fd rfd : Int} {w : σ} {r : HostReply} (isOpen : t.Has fd rfd)
      (asked : host t.world (.close rfd) = (w, r)) :
      Call host check t (.close fd)
        (resultOf r) none { t with file := Function.update t.file fd.toNat none, world := w }

/-- A write to a file that is open, from a buffer that passes. -/
theorem Call.write_of_has {host : Host σ} {check : Bool → Nat → Nat → Bool} {t' : Task σ}
    {fd rfd ret : Int} {buf n : Nat} {out : Output}
    (h : Call host check t (.write fd buf n) ret out t') (hok : check false buf n = true)
    (hopen : t.Has fd rfd) :
    ret = resultOf (host t.world (.write rfd 0 n)).2 ∧ t'.file = t.file ∧
      ∃ data, out = some (rfd, data) ∧ data.length = n ∧ ∀ i b, data[i]? = some b →
        t.byte (buf + i) = some b := by
  cases h with
  | writeNegative neg => exact absurd hopen.1 (by omega)
  | writeFault nonneg bad => exact absurd (hok.symm.trans bad) (by decide)
  | writeClosed nonneg ok closed => exact absurd hopen (closed rfd)
  | @write _ rfd' _ _ w r data ok isOpen length bytes asked =>
    obtain rfl : rfd' = rfd := Option.some.inj (isOpen.2.symm.trans hopen.2)
    exact ⟨by rw [asked], rfl, data, rfl, length, bytes⟩

/-- A step of the program on this machine. -/
inductive Step (host : Host σ) (check : Bool → Nat → Nat → Bool) :
    Task σ → Event → Task σ → Prop
  | load {t : Task σ} {v : Nat} {b : UInt8} (has : t.byte v = some b) :
      Step host check t (.load v b) t
  | store {t : Task σ} {v : Nat} {b : UInt8} (has : t.byte v ≠ none)
      (ok : check true v 1 = true) :
      Step host check t (.store v b) { t with byte := Function.update t.byte v (some b) }
  | unknown {t : Task σ} {nr arg0 arg1 arg2 : Nat}
      (unknown : syscallTable (nr % 2 ^ 32) arg0 arg1 arg2 = none) :
      Step host check t (.syscall nr arg0 arg1 arg2 (ofInt (-eNOSYS)) none) t
  | call {t t' : Task σ} {nr arg0 arg1 arg2 : Nat} {op : SysCall} {ret : Int} {out : Output}
      (entry : syscallTable (nr % 2 ^ 32) arg0 arg1 arg2 = some (.call op))
      (call : Call host check t op ret out t') :
      Step host check t (.syscall nr arg0 arg1 arg2 (op.rax ret) out) t'

end Task

end BpfExamples.Kvm
