import BpfExamples.Kvm.Kmalloc

/-!
# Page tables (`kernel/mm/translate.c`, `kernel/mm/mmap.c`)

The four-level tables live in the guest's memory. `setup_paging` of the
hypervisor and `init_pagetable` of the kernel build five static tables below
the kernel stack; `add_trans_user` allocates the others from the heap the same
pages come from.

An entry is a 64-bit word. A pointer to an entry is the window address the
kernel uses for it (`| KERNEL_BASE_OFFSET`), which is the name of its cell.
-/

namespace BpfExamples.Kvm

open Mem

/-! ## Constants -/

/-- `PROT_R`, `PROT_W`, `PROT_X` (translate.h:8–10). -/
def protR : Nat := 1
@[inherit_doc protR] def protW : Nat := 2
@[inherit_doc protR] def protX : Nat := 4

/-- `PROT_RW` (translate.h:11). -/
def protRW : Nat := protR ||| protW

/-- The page entry bits the code uses (translate.h:15–20). -/
def pde64Present : Nat := 1
@[inherit_doc pde64Present] def pde64RW : Nat := 2
@[inherit_doc pde64Present] def pde64User : Nat := 4
@[inherit_doc pde64Present] def pde64PS : Nat := 0x80

/-- `MAX_KERNEL_SIZE` (hypervisor.c:20), the physical address of the top table
and the value of `cr3`. -/
def maxKernelSize : Nat := 0x1f7000

/-- `USER_MEM_RANGE_OK` (translate.h:29–31). -/
def userMemRangeOk (v : Nat) : Bool :=
  0x200000 ≤ v && v >>> 48 == 0 && v >>> 39 != 1

/-- `aligndown`, `alignup` and `alignok` on 64-bit values (misc.h:4–6). -/
def aligndown (v : Nat) : Nat := v - v % 0x1000
@[inherit_doc aligndown] def alignup (v : Nat) : Nat :=
  if v % 0x1000 ≠ 0 then (aligndown v + 0x1000) % 2 ^ 64 else v
@[inherit_doc aligndown] def alignok (v : Nat) : Bool := v == aligndown v

/-- `x & bit` is not zero. -/
def hasFlag (x bit : Nat) : Bool := x &&& bit != 0

/-- `physical` (translate.c:98–102). -/
def physical (v : Nat) : Exec Nat :=
  if hasFlag v kernelBaseOffset then .ok (v ^^^ kernelBaseOffset)
  else .error (.panic .physicalNonKernel)

/-- `get_pml4_addr` (translate.c:19–23). -/
def pml4Addr : Nat := maxKernelSize ||| kernelBaseOffset

/-- `_OFFSET(v, bits)` (translate.c:25): the index of `v` in a table. -/
def offset (v bits : Nat) : Nat := (v >>> bits) % 512

/-- `&table[_OFFSET(v, bits)]`. -/
def slot (table v bits : Nat) : Nat := table + 8 * offset v bits

/-- The table an entry points to: `(*p & -0x1000) | KERNEL_BASE_OFFSET`. -/
def tableOf (e : Nat) : Nat := aligndown e ||| kernelBaseOffset

/-! ## Boot -/

/-- The entries `setup_paging` writes (hypervisor.c:62–76). -/
def setupPaging (m : Mem) : Mem :=
  let pml4 := kernelBaseOffset + maxKernelSize
  let pdp := pml4 + 0x1000
  let pd := pdp + 0x1000
  let m := store64 m pml4 (pde64Present ||| pde64RW ||| pde64User ||| (maxKernelSize + 0x1000))
  let m := store64 m pdp (pde64Present ||| pde64RW ||| pde64User ||| (maxKernelSize + 0x2000))
  store64 m pd (pde64Present ||| pde64RW ||| pde64PS)

/-- The loop of `init_pagetable` (translate.c:15–16) over the first `n` entries. -/
def initKernelPd (pd : Nat) : Nat → Mem → Mem
  | 0, m => m
  | n + 1, m =>
    store64 (initKernelPd pd n m) (pd + 8 * n)
      (pde64Present ||| pde64RW ||| pde64PS ||| (n * kernelPagingSize))

/-- `init_pagetable` (translate.c:8–17). Its pointers are low addresses, which
reach the cells at the same offset in the window. -/
def initPagetable (m : Mem) : Mem :=
  let pml4 := kernelBaseOffset + maxKernelSize
  let pdp := pml4 + 0x3000
  let pd := pdp + 0x1000
  let m := store64 m (pml4 + 8) (pde64Present ||| pde64RW ||| (maxKernelSize + 0x3000))
  let m := store64 m pdp (pde64Present ||| pde64RW ||| (maxKernelSize + 0x4000))
  initKernelPd pd 0x200 m

/-! ## Walking the tables -/

/-- `PAGING` of `translate` (translate.c:80–85); `none` is `return -1`. -/
def translateStep (m : Mem) (usermode writable : Bool) (p : Nat) : Option Nat :=
  let e := load64 m p
  if !hasFlag e pde64Present then none
  else if usermode && !hasFlag e pde64User then none
  else if writable && !hasFlag e pde64RW then none
  else some (tableOf e)

/-- The walk of `translate` (translate.c:79–94). -/
def translateWalk (m : Mem) (v : Nat) (usermode writable : Bool) : Option Nat := do
  let pdp ← translateStep m usermode writable (slot pml4Addr v 39)
  let pd ← translateStep m usermode writable (slot pdp v 30)
  let pt ← translateStep m usermode writable (slot pd v 21)
  let e := load64 m (slot pd v 21)
  if hasFlag e pde64PS then return e - e % 0x200000 + v % 0x200000
  else do
    let ret ← translateStep m usermode writable (slot pt v 12)
    return (ret ^^^ kernelBaseOffset) + v % 0x1000

/-- `(uint64_t) -1`. -/
def minusOne : Nat := 2 ^ 64 - 1

/-- `translate` (translate.c:78–95). -/
def translate (m : Mem) (v : Nat) (usermode writable : Bool) : Nat :=
  (translateWalk m v usermode writable).getD minusOne

/-- `PAGING` of `add_trans_user` (translate.c:39–47). -/
def addTransStep (h : Heap) (p : Nat) : Exec (Heap × Nat) :=
  let e := load64 h.mem p
  if !hasFlag e pde64Present then do
    let (h, c) ← kmalloc kernelSpace h 0x1000 mallocPageAlign
    let pa ← physical c
    return ({ h with mem := store64 h.mem p (pde64Present ||| pde64RW ||| pde64User ||| pa) },
      c)
  else if !hasFlag e pde64User then .error (.panic .addTransInvalid)
  else .ok (h, tableOf e)

/-- The permission bits of a leaf entry (translate.c:53–54, 70–71). -/
def withProt (e prot : Nat) : Nat :=
  let e := if hasFlag prot protR then e ||| pde64User else e
  if hasFlag prot protW then e ||| pde64RW else e

/-- `paddr & ~KERNEL_BASE_OFFSET` on 64-bit values. -/
def dropWindowBit (paddr : Nat) : Nat := paddr &&& ((2 ^ 64 - 1) ^^^ kernelBaseOffset)

/-- `add_trans_user` (translate.c:33–55). -/
def addTransUser (h : Heap) (vaddr paddr prot : Nat) : Exec Heap :=
  if !userMemRangeOk vaddr then .error (.panic .addTransNotAllowed)
  else do
    let (h, pdp) ← addTransStep h (slot pml4Addr vaddr 39)
    let (h, pd) ← addTransStep h (slot pdp vaddr 30)
    let (h, pt) ← addTransStep h (slot pd vaddr 21)
    let e := withProt (pde64Present ||| dropWindowBit paddr) prot
    return { h with mem := store64 h.mem (slot pt vaddr 12) e }

/-- `PAGING` of `modify_permission` (translate.c:59–62). -/
def modifyStep (m : Mem) (p : Nat) : Option Nat :=
  let e := load64 m p
  if !hasFlag e pde64Present then none else some (tableOf e)

/-- `*e &= ~(PDE64_USER | PDE64_RW)` on 64-bit values. -/
def dropProt (e : Nat) : Nat := e &&& ((2 ^ 64 - 1) ^^^ (pde64User ||| pde64RW))

/-- `modify_permission` (translate.c:57–73); `none` is `return -1`. -/
def modifyPermission (m : Mem) (vaddr prot : Nat) : Option Mem := do
  let pdp ← modifyStep m (slot pml4Addr vaddr 39)
  let pd ← modifyStep m (slot pdp vaddr 30)
  let pt ← modifyStep m (slot pd vaddr 21)
  let p := slot pt vaddr 12
  let e := load64 m p
  if !hasFlag e pde64Present then none
  else return store64 m p (withProt (dropProt e) prot)

/-! ## `mmap` and `mprotect` -/

/-- The kernel's own state: its memory, the allocator, and `mmap`'s static
`last_mmapped`. -/
structure Kernel where
  heap : Heap
  lastMmapped : Nat

/-- The loop of `mmap` (mmap.c:21–22), with `n` pages left. -/
def mmapPages (addr ret prot : Nat) : Nat → Nat → Heap → Exec Heap
  | 0, _, h => .ok h
  | n + 1, i, h => do
    let h ← addTransUser h ((addr + i) % 2 ^ 64) (ret + i) prot
    mmapPages addr ret prot n (i + 0x1000) h

/-- `mmap` (mmap.c:11–24). `last_mmapped` starts as `-1`. -/
def mmap (k : Kernel) (addr len prot : Nat) : Exec (Kernel × Nat) :=
  if len = 0 ∨ len &&& 0xfff ≠ 0 then .error (.panic .mmapLength)
  else do
    let (h, ret) ← kmalloc kernelSpace k.heap len mallocPageAlign
    if ret = 0 then return ({ k with heap := h }, 0)
    else do
      let last := if k.lastMmapped = minusOne then 0x7ffff7fff000 else k.lastMmapped
      let chosen := (last + 2 ^ 64 - len) % 2 ^ 64
      let (last, addr) := if addr = 0 then (chosen, chosen) else (last, addr)
      let h ← mmapPages addr ret prot (len / 0x1000) 0 h
      return (⟨h, last⟩, addr)

/-- The loop of `mprotect` (mmap.c:28–32), with `n` pages left; the second
result is what it returns. -/
def mprotectPages (addr prot : Nat) : Nat → Nat → Mem → Mem × Int
  | 0, _, m => (m, 0)
  | n + 1, i, m =>
    let v := (addr + i) % 2 ^ 64
    if !userMemRangeOk v then (m, -eACCES)
    else
      match modifyPermission m v prot with
      | none => (m, -eACCES)
      | some m => mprotectPages addr prot n (i + 0x1000) m

/-- `mprotect` (mmap.c:26–34). The loop makes `len / 0x1000` turns, rounded up;
it leaves the user range long before its counter could wrap. -/
def mprotect (k : Kernel) (addr len prot : Nat) : Kernel × Int :=
  if !alignok addr then (k, -eINVAL)
  else
    let (m, ret) := mprotectPages addr prot ((len + 0xfff) / 0x1000) 0 k.heap.mem
    ({ k with heap := { k.heap with mem := m } }, ret)

/-- The kernel behind `init_pagetable` and `init_allocator` (kernel_main.c:55–58)
in a guest whose memory the hypervisor has prepared: `addr` and `len` are
`PS_LIMIT` and `MEM_SIZE - PS_LIMIT` (hypervisor.c:53–54). -/
def kernelBoot (m : Mem) : Exec Kernel := do
  let h ← initAllocator (initPagetable (setupPaging m)) (0x200000 ||| kernelBaseOffset) 0x200000
  return ⟨h, minusOne⟩

end BpfExamples.Kvm
