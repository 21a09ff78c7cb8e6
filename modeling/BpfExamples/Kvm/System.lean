import BpfExamples.Base.Programs
import BpfExamples.Kvm.Hypercall
import BpfExamples.Kvm.Translate

/-!
# The running system

The kernel above its allocator and page tables, together with the hypervisor that serves
its hypercalls. A kernel routine is a program over `Sys`: the kernel's memory and statics,
the hypervisor's descriptor table, and the host behind it. It keeps its state when it
stops, because what was written before a panic was written.

The host is a parameter: `Host σ` answers the hypervisor's system calls from a state of its
own. The last three fields of `Sys` are bookkeeping that no code reads.

The kernel's code and the stack frames of its routines are not part of the modelled
memory. Kernel mode reaches its own mappings as if they were cached; other addresses go
through the tables (`cellAt`).
-/

namespace BpfExamples.Kvm

open Mem

/-- What the host does with a system call of the hypervisor. -/
abbrev Host (σ : Type) := σ → HostCall → σ × HostReply

/-- `MEM_SIZE` (hypervisor.c:21). -/
def memSize : Nat := 0x400000

/-- The system. -/
structure Sys (σ : Type) where
  kernel : Kernel
  fds : FdMap
  world : σ
  /-- The cells written so far. -/
  written : Nat → Prop
  /-- A request that `kmalloc` accepts was turned down. -/
  refused : Bool
  /-- The blocks handed to the user: what `switch_user` and `mmap` allocated for it. -/
  handed : List Nat

/-- A routine of the kernel. -/
abbrev KernelM (σ : Type) := EStateM Stop (Sys σ)

variable {σ α : Type}

namespace Sys

def heap (s : Sys σ) : Heap := s.kernel.heap

def mem (s : Sys σ) : Mem := s.kernel.heap.mem

/-- Memory and allocator become `h`, and the cells of `w` were written. -/
def setHeap (s : Sys σ) (h : Heap) (w : Nat → Prop) : Sys σ :=
  { s with kernel := { s.kernel with heap := h }, written := fun x => w x ∨ s.written x }

/-- Memory becomes `m`, and the cells of `w` were written. -/
def setMem (s : Sys σ) (m : Mem) (w : Nat → Prop) : Sys σ :=
  s.setHeap { s.heap with mem := m } w

/-- The size of the unused area of the heap. -/
def room (s : Sys σ) : Nat := s.kernel.heap.arena.topSize

/-- What the hypervisor sees of the guest. -/
def guest (s : Sys σ) : Guest := ⟨fun o => s.mem (kernelBaseOffset + o), memSize⟩

end Sys

/-! ## Memory accesses in kernel mode -/

/-- The cell that a kernel-mode access reaches. Below the window's mappings the tables
decide; `CR0.WP` makes a read-only page read-only for the kernel as well
(hypervisor.c:79), and an address that is not canonical faults. -/
def cellAt (m : Mem) (writable : Bool) (v : Nat) : Option Nat :=
  match kernelSpace v with
  | some c => some c
  | none =>
    if v < 2 ^ 47 then (translateWalk m v false writable).map (kernelBaseOffset + ·) else none

/-- Read a byte. -/
def peek (v : Nat) : KernelM σ UInt8 := fun s =>
  match cellAt s.mem false v with
  | some c => .ok (s.mem c) s
  | none => .error .fault s

/-- Write a byte. -/
def poke (v : Nat) (b : UInt8) : KernelM σ Unit := fun s =>
  match cellAt s.mem true v with
  | some c => .ok () (s.setMem (Function.update s.mem c b) (· = c))
  | none => .error .fault s

/-- Read a word of `n` bytes. -/
def peekLE (v : Nat) : Nat → KernelM σ Nat
  | 0 => pure 0
  | n + 1 => do
    let b ← peek v
    let rest ← peekLE (v + 1) n
    return b.toNat + 256 * rest

/-- Write the low `n` bytes of `x`. -/
def pokeLE (v : Nat) : Nat → Nat → KernelM σ Unit
  | 0, _ => pure ()
  | n + 1, x => do
    poke v (UInt8.ofNat x)
    pokeLE (v + 1) n (x / 256)

/-- The copy of `memcpy` (string.c:24–31) from index `i`, `n` bytes left. -/
def memcpyFrom (dst src : Nat) : Nat → Nat → KernelM σ Unit
  | 0, _ => pure ()
  | n + 1, i => do
    let b ← peek (src + i)
    poke (dst + i) b
    memcpyFrom dst src n (i + 1)

/-- `memcpy(dst, src, n)`. -/
def memcpy (dst src n : Nat) : KernelM σ Unit := memcpyFrom dst src n 0

/-- The byte stores of `memset`, from index `i`, `n` of them left. -/
def doMemsetFrom (b : Nat) (c : UInt8) : Nat → Nat → KernelM σ Unit
  | 0, _ => pure ()
  | n + 1, i => do
    poke (b + i) c
    doMemsetFrom b c n (i + 1)

/-- The loop of `strnlen` (string.c:9–16), `n` bytes left of `maxlen`. -/
def strnlenFrom (v : Nat) : Nat → Nat → KernelM σ Nat
  | 0, i => pure i
  | n + 1, i => do
    let b ← peek (v + i)
    if b = 0 then return i else strnlenFrom v n (i + 1)

/-- `strnlen`. -/
def strnlen (v maxlen : Nat) : KernelM σ Nat := strnlenFrom v maxlen 0

/-- `strlen` (string.c:5–7). -/
def strlen (v : Nat) : KernelM σ Nat := strnlen v (2 ^ 63 - 1)

/-! ## The routines of the memory manager, as steps of the system -/

/-- A computation that only looks. -/
def ofExec (x : Exec α) : KernelM σ α := fun s =>
  match x with
  | .ok a => .ok a s
  | .error e => .error e s

/-- A routine of the allocator or the page tables. The cells it wrote are those it
changed. -/
def onHeap (f : Heap → Exec (Heap × α)) : KernelM σ α := fun s =>
  match f s.heap with
  | .ok (h, a) => .ok a (s.setHeap h fun x => h.mem x ≠ s.mem x)
  | .error e => .error e s

/-- Remember that a request was turned down. -/
def note (refused : Bool) : KernelM σ Unit := fun s =>
  .ok () { s with refused := refused || s.refused }

/-- `kmalloc` (kmalloc.c:111–121) with its clearing of the block as single stores. -/
def doKmalloc (len align : Nat) : KernelM σ Nat :=
  if 2 ^ 32 ≤ len then pure 0
  else do
    let victim ← onHeap fun h => intKmalloc kernelSpace h (alignupTo (len + 16) 0x80) align
    if align ≠ mallocNoAlign ∧ victim &&& (align - 1) ≠ 0 then
      throw (.panic .alignmentRequest)
    else do
      note (victim == 0)
      doMemsetFrom victim 0 len 0
      return victim

/-- `kfree`. -/
def doKfree (p : Nat) : KernelM σ Unit := onHeap fun h => (kfree h p).map (·, ())

/-! ## Hypercalls -/

/-- The bytes of a `read` arrive in guest memory. -/
def Sys.receive (s : Sys σ) (call : HostCall) (r : HostReply) : Sys σ :=
  match call with
  | .read _ buf nbytes =>
    let a := kernelBaseOffset + buf
    let l := r.bytes.take nbytes
    s.setMem (splice s.mem a l) fun x => a ≤ x ∧ x < a + l.length
  | _ => s

/-- The `in` that fetches the result. -/
def readPort (ret : Int) : KernelM σ Int := fun s =>
  match thenReturn ret with
  | .ok v => .ok v s
  | .error _ => .error .hypervisor s

/-- `hypercall` (kernel/hypercalls/hypercall.c:3–16): `out` runs the handler, `in` fetches
its result. -/
def hypercall (host : Host σ) (nr : HpNr) (data : Nat) : KernelM σ Int := fun s =>
  match hpHandler nr s.fds s.guest (data % 2 ^ 32) with
  | .error _ => .error .hypervisor s
  | .ok (.answer t ret) => readPort ret { s with fds := t }
  | .ok (.host call after) =>
    let (w, r) := host s.world call
    let (t, ret) := after r
    readPort ret ({ s with fds := t, world := w }.receive call r)

/-- A 32-bit `int` as the 64-bit word it is extended to. -/
def ofInt (x : Int) : Nat := (x % 2 ^ 64).toNat

/-- `hp_read` and `hp_write`, which differ in the number of the hypercall only
(hp_read.c:5–13, hp_write.c:5–13). -/
def hpRw (nr : HpNr) (host : Host σ) (fildes : Int) (phyAddr nbyte : Nat) : KernelM σ Int := do
  let kbuf ← doKmalloc 24 mallocNoAlign
  pokeLE kbuf 8 (ofInt fildes)
  pokeLE (kbuf + 8) 8 phyAddr
  pokeLE (kbuf + 16) 8 nbyte
  let pa ← ofExec (physical kbuf)
  let ret ← hypercall host nr pa
  doKfree kbuf
  return ret

/-- `hp_read`. -/
def hpRead (host : Host σ) : Int → Nat → Nat → KernelM σ Int := hpRw .read host

/-- `hp_write`. -/
def hpWrite (host : Host σ) : Int → Nat → Nat → KernelM σ Int := hpRw .write host

end BpfExamples.Kvm
