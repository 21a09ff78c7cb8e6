import BpfExamples.Kvm.Execve

/-!
# Starting the program (`hypervisor.c`, `entry.s`, `kernel_main.c`, `sys_execve.c`)

The command line goes through three places. `copy_argv` puts it on the kernel's stack, with
physical addresses for pointers; `switch_user` copies it to a page of the user and moves the
pointers there; `create_elf_info` copies it once more, to the stack of the program that
`load_binary` has loaded in between.

A C string is the list of its bytes, without the zero behind them.
-/

namespace BpfExamples.Kvm

open Mem

variable {σ : Type}

/-! ## The hypervisor -/

/-- The first loop of `copy_argv` (hypervisor.c:218–222), from the last string down: the memory,
the stack pointer, and where the strings are. The hypervisor works on its own pointers, and the
cells below the window are what it has below the guest's memory. (No string `main` is given is
so long that `int len` overflows.) -/
def placeStrings (m : Mem) (sp : Nat) : List (List UInt8) → Mem × Nat × List Nat
  | [] => (m, sp, [])
  | a :: args =>
    let (m, sp, ptrs) := placeStrings m sp args
    let p := sp - (a.length + 1)
    (splice m p (a ++ [0]), p, p :: ptrs)

/-- Pushing the words of a list, the last one first (hypervisor.c:225–229). -/
def placeWords (m : Mem) (sp : Nat) : List Nat → Mem × Nat
  | [] => (m, sp)
  | x :: l =>
    let (m, sp) := placeWords m sp l
    (store64 m (sp - 8) x, sp - 8)

/-- `p - (char*) vm->mem`, the guest's address of a cell. -/
def guestAddr (p : Nat) : Nat := (p + 2 ^ 64 - kernelBaseOffset) % 2 ^ 64

/-- `copy_argv` (hypervisor.c:212–234): the memory, and `rsp`. Guest memory starts on a page of
the host, so that rounding the host's pointer rounds the guest's. -/
def copyArgv (m : Mem) (rsp : Nat) (args : List (List UInt8)) : Mem × Nat :=
  let (m, sp, ptrs) := placeStrings m (kernelBaseOffset + rsp) args
  let (m, sp) := placeWords m (sp - sp % 0x10) (args.length :: ptrs.map guestAddr ++ [0])
  (m, guestAddr sp)

/-! ## `sys_execve` -/

/-- The loop of `check_and_get_count` (sys_execve.c:64–69), for at most `fuel` entries. -/
def checkCountFrom : Nat → Nat → Nat → KernelM σ Int
  | 0, _, _ => throw .hang
  | fuel + 1, ary, i => do
    let a ← peekLE ary 8
    if a = 0 then return toInt32 i
    else do
      let ok ← accessStringOk a
      if ok = false then return -eFAULT
      else do
        let ok ← onMem fun m => accessOk m false ((ary + 8) % 2 ^ 64) 8
        if ok = false then return -eFAULT else checkCountFrom fuel ((ary + 8) % 2 ^ 64) (i + 1)

/-- `check_and_get_count` (sys_execve.c:61–71). There are `2^45` words that `access_ok` lets
pass. -/
def checkAndGetCount (ary : Nat) : KernelM σ Int := do
  let ok ← onMem fun m => accessOk m false ary 8
  if ok = false then return -eFAULT else checkCountFrom (2 ^ 45 + 1) ary 0

/-- `STACK_ALLOC` (sys_execve.c:73). -/
def stackAlloc (sp len : Nat) : Nat := (sp + 2 ^ 64 - len) % 2 ^ 64

/-- One string onto the stack (sys_execve.c:85–87, 91–93): `ary[i]`, whose new address goes to
`copy[j]`. -/
def pushString (copy ary j i rsp : Nat) : KernelM σ Nat := do
  let a ← peekLE (ary + 8 * i) 8
  let l ← strlen a
  let rsp := stackAlloc rsp (l + 1)
  pokeLE (copy + 8 * j) 8 rsp
  let dst ← peekLE (copy + 8 * j) 8
  let src ← peekLE (ary + 8 * i) 8
  memcpy dst src (l + 1)
  return rsp

/-- The loops over the strings (sys_execve.c:84–88, 90–94), `n` of them left. -/
def pushStrings (copy ary off : Nat) : Nat → Nat → KernelM σ Nat
  | 0, rsp => pure rsp
  | n + 1, rsp => do
    let rsp ← pushString copy ary (off + n) n rsp
    pushStrings copy ary off n rsp

/-- The loop that pushes the pointers (sys_execve.c:104–105), `n` of them left. -/
def pushWords (copy : Nat) : Nat → Nat → KernelM σ Nat
  | 0, rsp => pure rsp
  | n + 1, rsp => do
    let x ← peekLE (copy + 8 * n) 8
    pokeLE (stackAlloc rsp 8) 8 x
    pushWords copy n (stackAlloc rsp 8)

/-- `ROUNDDOWN`, and the word that keeps the final `rsp` aligned (sys_execve.c:100–101). -/
def roundStack (rsp count : Nat) : Nat :=
  let rsp := rsp - rsp % 0x10
  if (count + 1) % 2 = 1 then stackAlloc rsp 8 else rsp

/-- The part of `create_elf_info` behind its checks (sys_execve.c:83–109). -/
def pushElfInfo (rsp argv envp argc envc : Nat) : KernelM σ Nat := do
  let copy ← doKmalloc ((argc + envc + 2) * 8) mallocNoAlign
  let rsp ← pushStrings copy envp (argc + 1) envc rsp
  let rsp ← pushStrings copy argv 0 argc rsp
  let rsp ← pushWords copy (argc + envc + 2) (roundStack rsp (argc + envc + 2))
  doKfree copy
  pokeLE (stackAlloc rsp 8) 8 argc
  return stackAlloc rsp 8

/-- `create_elf_info` (sys_execve.c:76–111); the second result is `p` afterwards. -/
def createElfInfo (p : Process) (argv envp : Nat) : KernelM σ (Int × Process) := do
  let argc ← checkAndGetCount argv
  if argc < 0 then return (argc, p)
  else do
    let envc ← checkAndGetCount envp
    if envc < 0 then return (envc, p)
    else do
      let rsp ← pushElfInfo p.rsp argv envp argc.toNat envc.toNat
      return (0, { p with rsp := rsp })

/-- How `sys_execve` ends: with the `sysret` into the program, or with an error that its caller
does not look at. -/
inductive Launch
  | started (entry rsp : Nat)
  | failed (ret : Int)
deriving DecidableEq, Repr

/-- `sys_execve` up to the arguments (sys_execve.c:115–120); `p` is what the uninitialised
record holds. -/
def openAndLoad (host : Host σ) (p : Process) (path : Nat) :
    KernelM σ (Except Int Process) := do
  let fd ← sysOpen host path
  if fd < 0 then return .error fd
  else do
    let (ret, p) ← loadBinary host fd p
    if ret < 0 then return .error ret
    else do
      let _ ← sysClose host fd
      return .ok p

/-- The rest of `sys_execve` (sys_execve.c:121–149). -/
def enterProgram (argv envp : Nat) : Except Int Process → KernelM σ Launch
  | .error ret => pure (.failed ret)
  | .ok p => do
    let (ret, p) ← createElfInfo p argv envp
    if ret ≠ 0 then return .failed (-eFAULT)
    else return .started ((p.entry + p.loadAddr) % 2 ^ 64) p.rsp

/-- `sys_execve` (sys_execve.c:114–150). -/
def sysExecve (host : Host σ) (p : Process) (path argv envp : Nat) : KernelM σ Launch := do
  let r ← openAndLoad host p path
  enterProgram argv envp r

/-! ## `kernel_main` -/

/-- `add_trans_user` as a step of the system. -/
def doAddTransUser (vaddr paddr prot : Nat) : KernelM σ Unit :=
  onHeap fun h => (addTransUser h vaddr paddr prot).map (·, ())

/-- Remember that a block is the user's. -/
def handOver (p : Nat) : KernelM σ Unit := fun s => .ok () { s with handed := p :: s.handed }

/-- The user's area for the arguments (kernel_main.c:39–43): where the kernel reaches it, and
where the user does. -/
def argumentArea (totalLen : Nat) : KernelM σ (Nat × Nat) := do
  let a ← doKmalloc totalLen mallocPageAlign
  let sp ← ofExec (physical a)
  doAddTransUser sp sp protRW
  handOver a
  return (a, sp)

/-- The loop that moves the pointers (kernel_main.c:46–47), from index `i` on with `n` of them
left. -/
def relocateFrom (argv sp : Nat) : Nat → Nat → KernelM σ Unit
  | 0, _ => pure ()
  | n + 1, i => do
    let a ← peekLE (argv + 8 * i) 8
    pokeLE (argv + 8 * i) 8 ((a + 2 ^ 64 - argv + sp) % 2 ^ 64)
    relocateFrom argv sp n (i + 1)

/-- `switch_user` up to the arguments' new place (kernel_main.c:37–48): `sp`, and `argv[0]`. -/
def moveArguments (argc argv : Nat) : KernelM σ (Nat × Nat) := do
  let last ← peekLE ((argv + 8 * argc + (2 ^ 64 - 8)) % 2 ^ 64) 8
  let l ← strlen last
  let totalLen := toInt32 ((last + l + 1 : Nat) - (argv : Int))
  let (a, sp) ← argumentArea (ofInt totalLen)
  relocateFrom argv sp argc 0
  memcpy a argv (ofInt totalLen)
  let path ← peekLE argv 8
  return (sp, path)

/-- `switch_user` (kernel_main.c:36–53). -/
def switchUser (host : Host σ) (p : Process) (argc argv : Nat) : KernelM σ Launch := do
  let (sp, path) ← moveArguments argc argv
  sysExecve host p path sp (sp + argc * 8)

/-- `kernel_main` (kernel_main.c:55–62). -/
def kernelMain (host : Host σ) (p : Process) (addr len argc argv : Nat) : KernelM σ Launch := do
  onHeap fun h => (initAllocator (initPagetable h.mem) (addr ||| kernelBaseOffset) len).map (·,
    ())
  switchUser host p argc argv

/-- `_start` (entry.s:4–7), with the registers of `setup_regs` (hypervisor.c:48–57). -/
def startKernel (host : Host σ) (p : Process) (rsp : Nat) : KernelM σ Launch := do
  let argc ← peekLE rsp 8
  kernelMain host p 0x200000 (memSize - 0x200000) argc (rsp + 8)

/-- The guest as `main` of the hypervisor starts it (hypervisor.c:236–251): `m` is the memory
with the kernel in it. -/
def Sys.power (m : Mem) (w : σ) : Sys σ :=
  ⟨⟨⟨m, ⟨0, 0, 0, 0⟩⟩, minusOne⟩, FdMap.static, w, fun _ => False, false, []⟩

/-- The whole start, from the command line to the program. -/
def launch (host : Host σ) (p : Process) (m : Mem) (w : σ) (args : List (List UInt8)) :
    EStateM.Result Stop (Sys σ) Launch :=
  let (m, rsp) := copyArgv (setupPaging m) 0x200000 args
  startKernel host p rsp (.power m w)

end BpfExamples.Kvm
