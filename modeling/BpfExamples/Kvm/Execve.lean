import BpfExamples.Kvm.Syscalls

/-!
# The ELF loader (`kernel/syscalls/sys_mmap.c`, `kernel/syscalls/sys_execve.c`)

`sys_mmap` and `load_binary`. The loader reads the first page of the file into a buffer of
its own, checks the ELF header there, and maps every `PT_LOAD` segment and a stack. All
numbers of a segment are the file's, and the arithmetic on them is modulo `2^64`.
-/

namespace BpfExamples.Kvm

variable {σ α : Type}

/-! ## Mappings as steps of the system -/

/-- The block that `mmap` allocates for a request. -/
def mmapBlock (h : Heap) (len : Nat) : Nat :=
  match kmalloc kernelSpace h len mallocPageAlign with
  | .ok (_, p) => p
  | .error _ => 0

/-- How `mmap` ends when `kmalloc` has no page table for it, or no block and clears more of
the null page than is mapped. -/
def outOfMemory : Stop → Bool
  | .panic .physicalNonKernel => true
  | .fault => true
  | _ => false

/-- `mmap` (mmap.c:11–24). Its block is the user's from now on. -/
def doMmap (addr len prot : Nat) : KernelM σ Nat := fun s =>
  match mmap s.kernel addr len prot with
  | .ok (k, a) =>
    .ok a { s with
      kernel := k
      written := fun x => k.heap.mem x ≠ s.mem x ∨ s.written x
      refused := a == 0 && decide (len < 2 ^ 32) || s.refused
      handed := if a = 0 then s.handed else mmapBlock s.heap len :: s.handed }
  | .error e => .error e { s with refused := outOfMemory e || s.refused }

/-- `mprotect` (mmap.c:26–34). -/
def doMprotect (addr len prot : Nat) : KernelM σ Int := fun s =>
  let r := mprotect s.kernel addr len prot
  .ok r.2 { s with
    kernel := r.1
    written := fun x => r.1.heap.mem x ≠ s.mem x ∨ s.written x }

/-! ## `sys_mmap` -/

/-- `MAP_FIXED` (sys_mmap.h:6). -/
def mapFixed : Nat := 0x10

/-- `SEEK_SET` (hp_lseek.h:6). -/
def seekSet : Int := 0

/-- `hp_lseek` (hp_lseek.c:5–13). -/
def hpLseek (host : Host σ) (fildes : Int) (offset : Nat) (whence : Int) : KernelM σ Int := do
  let kbuf ← doKmalloc 12 mallocNoAlign
  pokeLE kbuf 4 (ofInt fildes)
  pokeLE (kbuf + 4) 4 offset
  pokeLE (kbuf + 8) 4 (ofInt whence)
  let pa ← ofExec (physical kbuf)
  let ret ← hypercall host .lseek pa
  doKfree kbuf
  return ret

/-- The part of `sys_mmap` that fills the new pages from a file (sys_mmap.c:23–27); a
negative result is what `sys_mmap` returns. -/
def fillPages (host : Host σ) (fd : Int) (addr len offset : Nat) : KernelM σ Int :=
  if 0 ≤ fd then do
    let ret ← hpLseek host fd (offset % 2 ^ 32) seekSet
    if ret < 0 then return ret
    else do
      let pa ← onMem fun m => translate m addr true true
      let _ ← hpRead host fd pa len
      return 0
  else pure 0

/-- `sys_mmap` (sys_mmap.c:9–33). -/
def sysMmap (host : Host σ) (addr len prot flags : Nat) (fd : Int) (offset : Nat) :
    KernelM σ Nat :=
  if !alignok addr then pure (ofInt (-eINVAL))
  else if len = 0 then pure (ofInt (-eINVAL))
  else if hasFlag flags mapFixed ∧ addr ≠ 0 ∧ !userMemRangeOk addr then pure (ofInt (-eINVAL))
  else do
    let alignedLen := alignup len
    -- without `MAP_FIXED` the address is the kernel's choice
    let addr ← doMmap (if hasFlag flags mapFixed then addr else 0) alignedLen (prot ||| protRW)
    if addr = 0 then return ofInt (-eNOMEM)
    else do
      let ret ← fillPages host fd addr len offset
      if ret < 0 then return ofInt ret
      else do
        let _ ← doMprotect addr alignedLen prot
        return addr

/-! ## `load_binary` -/

/-- `ET_EXEC` and `ET_DYN` (elf.h:25–26). -/
def etExec : Nat := 2
@[inherit_doc etExec] def etDyn : Nat := 3

/-- `PT_LOAD` (elf.h:46). -/
def ptLoad : Nat := 1

/-- `PF_R`, `PF_W` and `PF_X` (elf.h:49–51). -/
def pfR : Nat := 4
@[inherit_doc pfR] def pfW : Nat := 2
@[inherit_doc pfR] def pfX : Nat := 1

/-- `pf_to_prot` (translate.c:104–110). -/
def pfToProt (pf : Nat) : Nat :=
  (if hasFlag pf pfR then protR else 0) ||| (if hasFlag pf pfW then protW else 0) |||
    (if hasFlag pf pfX then protX else 0)

/-- `process` (sys_execve.h:6–12). -/
structure Process where
  loadAddr : Nat
  entry : Nat
  stackBase : Nat
  stackSize : Nat
  rsp : Nat

/-- The fields of `Elf64_Phdr` that the loader uses (elf.h:53–62). -/
structure Phdr where
  flags : Nat
  offset : Nat
  vaddr : Nat
  filesz : Nat
  memsz : Nat
deriving DecidableEq, Repr

/-- The size of the loader's buffer, and of the two headers. -/
def bufSize : Nat := 0x1000
@[inherit_doc bufSize] def ehdrSize : Nat := 64
@[inherit_doc bufSize] def phdrSize : Nat := 56

/-- A field of `n` bytes at offset `off` of the buffer. -/
def field (buf off n : Nat) : KernelM σ Nat :=
  if off + n ≤ bufSize then peekLE (buf + off) n else throw .overrun

/-- The first bytes of a 64-bit little-endian ELF file (sys_execve.c:20). -/
def elfIdent : List Nat := [0x7f, 0x45, 0x4c, 0x46, 2, 1, 1, 0, 0, 0, 0, 0, 0, 0, 0, 0]

/-- `memcmp` of the buffer from offset `i` on with the bytes `l`: whether they are the same. -/
def sameBytes (buf : Nat) : List Nat → Nat → KernelM σ Bool
  | [], _ => pure true
  | c :: l, i => do
    let b ← field buf i 1
    if b = c then sameBytes buf l (i + 1) else return false

/-- The checks of the header (sys_execve.c:20–29): the error to return, or `e_phnum`. -/
def checkHeader (buf : Nat) (p : Process) : KernelM σ (Except Int Nat × Process) := do
  let same ← sameBytes buf elfIdent 0
  if same = false then return (.error (-eNOEXEC), p)
  else do
    let entry ← field buf 24 8
    let type ← field buf 16 2
    if type ≠ etExec ∧ type ≠ etDyn then
      return (.error (-eNOEXEC), { p with entry := entry, loadAddr := 0 })
    else do
      let p := { p with entry := entry, loadAddr := if type = etDyn then 0x555555554000 else 0 }
      let phoff ← field buf 32 8
      if phoff ≠ ehdrSize then return (.error (-eINVAL), p)
      else do
        let phentsize ← field buf 54 2
        if phentsize ≠ phdrSize then return (.error (-eINVAL), p)
        else do
          let phnum ← field buf 56 2
          if bufSize < (phoff + phentsize * phnum) % 2 ^ 64 then return (.error (-eINVAL), p)
          else return (.ok phnum, p)

/-- The fields of the program header at offset `base`. -/
def readPhdr (buf base : Nat) : KernelM σ Phdr := do
  let flags ← field buf (base + 4) 4
  let offset ← field buf (base + 8) 8
  let vaddr ← field buf (base + 16) 8
  let filesz ← field buf (base + 32) 8
  let memsz ← field buf (base + 40) 8
  return ⟨flags, offset, vaddr, filesz, memsz⟩

/-- `st`, `ed` and `bss_ed` of the loader (sys_execve.c:34–35, 45). -/
def Phdr.st (ph : Phdr) (load : Nat) : Nat := (load + aligndown ph.vaddr) % 2 ^ 64
@[inherit_doc Phdr.st] def Phdr.ed (ph : Phdr) (load : Nat) : Nat :=
  (load + alignup ((ph.vaddr + ph.filesz) % 2 ^ 64)) % 2 ^ 64
@[inherit_doc Phdr.st] def Phdr.bssEd (ph : Phdr) (load : Nat) : Nat :=
  (load + alignup ((ph.vaddr + ph.memsz) % 2 ^ 64)) % 2 ^ 64

/-- The length of the file part, from the start of its first page (sys_execve.c:39). -/
def Phdr.fileLen (ph : Phdr) : Nat := (ph.filesz + ph.offset % 0x1000) % 2 ^ 64

/-- The length of the pages behind it. -/
def Phdr.bssLen (ph : Phdr) (load : Nat) : Nat := (ph.bssEd load + 2 ^ 64 - ph.ed load) % 2 ^ 64

/-- The zero pages of a segment (sys_execve.c:44–50); `some ret` is `return ret`. -/
def loadBss (load : Nat) (ph : Phdr) : KernelM σ (Option Int) :=
  if ph.filesz < ph.memsz ∧ ph.bssEd load ≠ ph.ed load then do
    let r ← doMmap (ph.ed load) (ph.bssLen load) (pfToProt ph.flags)
    if r ≠ ph.ed load then return some (-eNOMEM) else return none
  else pure none

/-- One segment (sys_execve.c:33–50); `some ret` is `return ret`. -/
def loadSegment (host : Host σ) (fd : Int) (load : Nat) (ph : Phdr) :
    KernelM σ (Option Int) := do
  let r ← sysMmap host (ph.st load) ph.fileLen (pfToProt ph.flags) mapFixed fd
    (aligndown ph.offset)
  if r ≠ ph.st load then return some (toInt32 r) else loadBss load ph

/-- The loop over the program headers (sys_execve.c:31–51), from header `i` on with `n`
of them left. -/
def loadSegments (host : Host σ) (fd : Int) (load buf : Nat) :
    Nat → Nat → KernelM σ (Option Int)
  | 0, _ => pure none
  | n + 1, i => do
    let type ← field buf (ehdrSize + phdrSize * i) 4
    if type = ptLoad then do
      let ph ← readPhdr buf (ehdrSize + phdrSize * i)
      let ret ← loadSegment host fd load ph
      match ret with
      | some ret => return some ret
      | none => loadSegments host fd load buf n (i + 1)
    else loadSegments host fd load buf n (i + 1)

/-- The stack (sys_execve.c:53–58). -/
def setUpStack (p : Process) : KernelM σ (Int × Process) := do
  let p := { p with
    stackBase := 0x7ffffffff000
    stackSize := 0x40000
    rsp := 0x7ffffffff000 - 0x1000 }
  let st := p.stackBase - p.stackSize
  let r ← doMmap st p.stackSize protRW
  if r ≠ st then return (-eNOMEM, p) else return (0, p)

/-- `load_binary` (sys_execve.c:16–59). `p` is what the caller's uninitialised record holds;
the second result is the record afterwards. -/
def loadBinary (host : Host σ) (fd : Int) (p : Process) : KernelM σ (Int × Process) := do
  let buf ← doKmalloc bufSize mallocNoAlign
  let pa ← ofExec (physical buf)
  let _ ← hpRead host fd pa bufSize
  let (phnum, p) ← checkHeader buf p
  match phnum with
  | .error ret => return (ret, p)
  | .ok phnum => do
    let ret ← loadSegments host fd p.loadAddr buf phnum 0
    match ret with
    | some ret => return (ret, p)
    | none => setUpStack p

end BpfExamples.Kvm
