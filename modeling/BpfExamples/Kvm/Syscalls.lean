import BpfExamples.Kvm.System

/-!
# System calls on files (`kernel/mm/uaccess.c`, `kernel/syscalls/`)

`sys_read`, `sys_write`, `sys_open` and `sys_close`, with the checks of user pointers they
make first. A user pointer is an arbitrary 64-bit number, and all arithmetic on it is
modulo `2^64`.
-/

namespace BpfExamples.Kvm

variable {σ α : Type}

/-- A result that only depends on memory. -/
def onMem (f : BpfExamples.Mem → α) : KernelM σ α := fun s => .ok (f s.mem) s

/-! ## User pointers -/

/-- The loop of `access_ok` (uaccess.c:11–12), with `n` pages left. -/
def accessPages (m : BpfExamples.Mem) (type : Bool) : Nat → Nat → Bool
  | 0, _ => true
  | n + 1, v => translate m v true type != minusOne && accessPages m type n (v + 0x1000)

/-- `access_ok` (uaccess.c:7–14); `type` is `true` for `VERIFY_WRITE`. The loop does not run
at all when `addr + size` has wrapped to a smaller number. -/
def accessOk (m : BpfExamples.Mem) (type : Bool) (addr size : Nat) : Bool :=
  userMemRangeOk addr && userMemRangeOk ((addr + size + (2 ^ 64 - 1)) % 2 ^ 64) &&
    accessPages m type ((alignup ((addr + size) % 2 ^ 64) - aligndown addr) / 0x1000)
      (aligndown addr)

/-- `access_string_ok` (uaccess.c:17–26), for at most `fuel` pages. -/
def accessStringOkFrom : Nat → Nat → KernelM σ Bool
  | 0, _ => throw .hang
  | fuel + 1, addr => do
    let ok ← onMem fun m => accessOk m false addr 1
    if ok = false then return false
    else do
      let remainSize := 0x1000 - addr % 0x1000
      let l ← strnlen addr remainSize
      if l = remainSize then accessStringOkFrom fuel (addr + l) else return true

/-- `access_string_ok`. There are `2^36` pages that `access_ok` lets pass. -/
def accessStringOk (addr : Nat) : KernelM σ Bool := accessStringOkFrom (2 ^ 36 + 1) addr

/-- `copy_str_from_user` (uaccess.c:28–34). -/
def copyStrFromUser (v : Nat) : KernelM σ Nat := do
  let l ← strlen v
  let len := toInt32 l
  let dst ← doKmalloc (ofInt (len + 1)) mallocNoAlign
  if dst = 0 then return 0
  else do
    memcpy dst v (ofInt (len + 1))
    return dst

/-! ## The calls -/

/-- `if(ret >= 0) memcpy(buf, dst, ret)` (sys_read.c:14). -/
def copyBack (buf dst : Nat) (ret : Int) : KernelM σ Unit :=
  if 0 ≤ ret then memcpy buf dst ret.toNat else pure ()

/-- `sys_read` (sys_read.c:9–17). -/
def sysRead (host : Host σ) (fildes : Int) (buf nbyte : Nat) : KernelM σ Int :=
  if fildes < 0 then pure (-eBADF)
  else do
    let ok ← onMem fun m => accessOk m true buf nbyte
    if ok = false then return -eFAULT
    else do
      let dst ← doKmalloc nbyte mallocNoAlign
      let pa ← ofExec (physical dst)
      let ret ← hpRead host fildes pa nbyte
      copyBack buf dst ret
      doKfree dst
      return ret

/-- `sys_write` (sys_write.c:9–17). -/
def sysWrite (host : Host σ) (fildes : Int) (buf nbyte : Nat) : KernelM σ Int :=
  if fildes < 0 then pure (-eBADF)
  else do
    let ok ← onMem fun m => accessOk m false buf nbyte
    if ok = false then return -eFAULT
    else do
      let dst ← doKmalloc nbyte mallocNoAlign
      memcpy dst buf nbyte
      let pa ← ofExec (physical dst)
      let ret ← hpWrite host fildes pa nbyte
      doKfree dst
      return ret

/-- `sys_open` (sys_open.c:8–15). -/
def sysOpen (host : Host σ) (path : Nat) : KernelM σ Int := do
  let ok ← accessStringOk path
  if ok = false then return -eFAULT
  else do
    let dst ← copyStrFromUser path
    if dst = 0 then return -eNOMEM
    else do
      let pa ← ofExec (physical dst)
      let fd ← hypercall host .openFile pa
      doKfree dst
      return fd

/-- `sys_close` is `hp_close` (sys_close.h, hp_close.c:3–5). -/
def sysClose (host : Host σ) (fildes : Int) : KernelM σ Int :=
  hypercall host .close (ofInt fildes)

/-- The calls, with what the user passes. -/
inductive SysCall
  | read (fildes : Int) (buf nbyte : Nat)
  | write (fildes : Int) (buf nbyte : Nat)
  | openFile (path : Nat)
  | close (fildes : Int)

def SysCall.run (host : Host σ) : SysCall → KernelM σ Int
  | .read fildes buf nbyte => sysRead host fildes buf nbyte
  | .write fildes buf nbyte => sysWrite host fildes buf nbyte
  | .openFile path => sysOpen host path
  | .close fildes => sysClose host fildes

/-- The state in which a call returns. -/
def Sys.call (host : Host σ) (s : Sys σ) (op : SysCall) : Except Stop (Sys σ) :=
  match op.run host s with
  | .ok _ s' => .ok s'
  | .error e _ => .error e

end BpfExamples.Kvm
