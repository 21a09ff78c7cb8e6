import BpfExamples.Kvm.Machine

/-!
# Hypercalls (`hypervisor/hypercall.c`)

The hypervisor's handlers. Guest memory is `mem_size` bytes; a read behind its end is
not one the hypervisor is entitled to, and ends the model's run with `outOfRange`.

A handler makes at most one call to the host. It is modelled as the part before that
call, which ends in an `Action`: an answer, or the call together with what the handler
does with the host's reply. So the host stays open, and a caller of the model supplies
the replies.
-/

namespace BpfExamples.Kvm

open Mem

/-! ## Guest memory -/

/-- `vm->mem` and `vm->mem_size` (definition.h). -/
structure Guest where
  byte : Mem
  memSize : Nat

/-- Why the hypervisor process ends while it serves a hypercall. -/
inductive Halt
  | assertion
  | outOfRange
  | exit (status : Int)
  | panic (message : List UInt8)
  | failed
deriving DecidableEq, Repr

namespace Guest

/-- `CHECK_OOB` (hypercall.c:71). -/
def checkOob (g : Guest) (offset : Nat) : Except Halt Unit :=
  if offset < g.memSize then .ok () else .error .assertion

/-- A word of `n` bytes. -/
def word (g : Guest) (offset n : Nat) : Except Halt Nat :=
  if offset + n ≤ g.memSize then .ok (loadLE g.byte offset n) else .error .outOfRange

/-- The scan of `strlen`, with `n` bytes of memory left. -/
def strlenFrom (g : Guest) : Nat → Nat → Except Halt Nat
  | 0, _ => .error .outOfRange
  | n + 1, offset =>
    if g.byte offset = 0 then .ok 0
    else do
      let len ← g.strlenFrom n (offset + 1)
      return len + 1

/-- `strlen` of the string at `offset`. -/
def strlen (g : Guest) (offset : Nat) : Except Halt Nat :=
  g.strlenFrom (g.memSize - offset) offset

/-- The bytes of `[offset, offset + n)`. -/
def bytes (g : Guest) (offset n : Nat) : List UInt8 :=
  (List.range n).map fun i => g.byte (offset + i)

end Guest

/-! ## The host -/

/-- A system call of the hypervisor process. Buffers are offsets in guest memory. -/
inductive HostCall
  | openFile (name : List UInt8)
  | read (fd : Int) (buf nbytes : Nat)
  | write (fd : Int) (buf nbytes : Nat)
  | lseek (fd : Int) (off : Nat) (whence : Int)
  | close (fd : Int)
deriving DecidableEq, Repr

/-- What the host answers: the result, `errno` afterwards, and for `read` the bytes it
put into the buffer. -/
structure HostReply where
  ret : Int
  errno : Int
  bytes : List UInt8

/-- Conversion to a 32-bit `int`. -/
def toInt32 (x : Int) : Int := x.bmod (2 ^ 32)

/-! ## Guest file descriptors -/

/-- `struct fd_handle` (hypercall.c:39–42). -/
structure FdHandle where
  realFd : Int
  opening : Bool
deriving DecidableEq, Repr

/-- `MAX_FD` (hypercall.c:44). -/
def maxFd : Nat := 255

/-- `fd_map`, and `fd_map_init` of `MAY_INIT_FD_MAP`. -/
structure FdMap where
  started : Bool
  handle : Nat → FdHandle

/-- The static table before its first use: all zero. -/
def FdMap.static : FdMap := ⟨false, fun _ => ⟨0, false⟩⟩

/-- `MAY_INIT_FD_MAP` (hypercall.c:48–58). -/
def mayInitFdMap (t : FdMap) : FdMap :=
  if t.started then t
  else
    ⟨true, fun i =>
      if i ≤ 2 then ⟨i, true⟩
      else if i ≤ maxFd then ⟨(t.handle i).realFd, false⟩
      else t.handle i⟩

/-- `BADFD` (hypercall.c:104). -/
def badFd (t : FdMap) (fd : Int) : Bool :=
  fd < 0 || (maxFd : Int) < fd || !(t.handle fd.toNat).opening

/-- What a handler leaves to do. -/
inductive Action
  | answer (t : FdMap) (ret : Int)
  | host (call : HostCall) (after : HostReply → FdMap × Int)

/-- `if(ret < 0) ret = -errno` on the 32-bit result (hypercall.c:110). -/
def resultOf (r : HostReply) : Int :=
  if toInt32 r.ret < 0 then -r.errno else toInt32 r.ret

/-- `PROCESS_ON_FD` (hypercall.c:105–112): `work` is the call on the real descriptor, `t'`
the table the work leaves behind. -/
def processOnFd (t : FdMap) (fd : Int) (work : Int → Except Halt HostCall)
    (t' : FdMap → FdMap) : Except Halt Action :=
  let t := mayInitFdMap t
  if badFd t fd then .ok (.answer t (-eBADF))
  else do
    let call ← work (t.handle fd.toNat).realFd
    return .host call fun r => (t' t, resultOf r)

/-! ## The handlers -/

/-- The loop of `hp_handle_open` (hypercall.c:86–88) from `min_fd = i` on, with `n` turns
left: the first entry that is not open, `MAX_FD + 1` if there is none. -/
def firstFree (handle : Nat → FdHandle) : Nat → Nat → Nat
  | 0, i => i
  | n + 1, i => if (handle i).opening then firstFree handle n (i + 1) else i

/-- `hp_handle_open` (hypercall.c:78–102). -/
def hpHandleOpen (t : FdMap) (g : Guest) (offset : Nat) : Except Halt Action := do
  g.checkOob offset
  let len ← g.strlen offset
  g.checkOob ((offset + len) % 2 ^ 32)
  let t := mayInitFdMap t
  let minFd := firstFree t.handle (maxFd + 1) 0
  if maxFd < minFd then return .answer t (-eNFILE)
  else
    return .host (.openFile (g.bytes offset len)) fun r =>
      if r.ret < 0 then (t, -r.errno)
      else ({ t with handle := Function.update t.handle minFd ⟨r.ret, true⟩ }, minFd)

/-- `handle_rw` (hypercall.c:114–129). -/
def handleRw (fptr : Int → Nat → Nat → HostCall) (t : FdMap) (g : Guest) (offset : Nat) :
    Except Halt Action := do
  g.checkOob offset
  let kbuf₀ ← g.word offset 8
  let paddr ← g.word (offset + 8) 8
  let nbytes ← g.word (offset + 16) 8
  let fd := toInt32 kbuf₀
  let fin := (paddr + nbytes) % 2 ^ 64
  if !(paddr ≤ fin && fin ≤ g.memSize) then return .answer t (-eACCES)
  else
    processOnFd t fd (fun realFd => do
      g.checkOob paddr
      return fptr realFd paddr nbytes) id

/-- `hp_handle_read` (hypercall.c:131–133). -/
def hpHandleRead : FdMap → Guest → Nat → Except Halt Action := handleRw .read

/-- `hp_handle_write` (hypercall.c:135–141). -/
def hpHandleWrite : FdMap → Guest → Nat → Except Halt Action := handleRw .write

/-- `do_close` clears the entry before the host is asked (hypercall.c:143–146). -/
def doClose (fd : Nat) (t : FdMap) : FdMap :=
  { t with handle := Function.update t.handle fd ⟨(t.handle fd).realFd, false⟩ }

/-- `hp_handle_close` (hypercall.c:148–157). -/
def hpHandleClose (t : FdMap) (data : Nat) : Except Halt Action :=
  let fd := toInt32 data
  processOnFd t fd (fun realFd => .ok (.close realFd)) (doClose fd.toNat)

/-- `hp_handle_lseek` (hypercall.c:159–172). -/
def hpHandleLseek (t : FdMap) (g : Guest) (offset : Nat) : Except Halt Action := do
  g.checkOob offset
  let kbuf₀ ← g.word offset 4
  let off ← g.word (offset + 4) 4
  let kbuf₂ ← g.word (offset + 8) 4
  let fd := toInt32 kbuf₀
  let whence := toInt32 kbuf₂
  processOnFd t fd (fun realFd => .ok (.lseek realFd off whence)) id

/-- `hp_handle_panic` (hypercall.c:179–184). -/
def hpHandlePanic (g : Guest) (offset : Nat) : Except Halt Action := do
  g.checkOob offset
  let len ← g.strlen offset
  .error (.panic (g.bytes offset len))

/-- The hypercall numbers (hypercall_table.h), without `HP_NR_MARK`. -/
inductive HpNr
  | openFile
  | read
  | write
  | close
  | lseek
  | exit
  | panic
deriving DecidableEq, Repr

/-- `hp_handler` (hypercall.c:21–37), for a value written to the port. -/
def hpHandler (nr : HpNr) (t : FdMap) (g : Guest) (data : Nat) : Except Halt Action :=
  match nr with
  | .openFile => hpHandleOpen t g data
  | .read => hpHandleRead t g data
  | .write => hpHandleWrite t g data
  | .close => hpHandleClose t data
  | .lseek => hpHandleLseek t g data
  | .exit => .error (.exit (toInt32 data))
  | .panic => hpHandlePanic g data

/-- `UNUSED_VAR` as an `int` (hypercall.c:60). -/
def unusedVar : Int := toInt32 0xdeadffff

/-- `THEN_RETURN` (hypercall.c:65–69): the guest reads the result. A handler whose result
is `UNUSED_VAR` makes `execute` give up. -/
def thenReturn (ret : Int) : Except Halt Int :=
  if ret = unusedVar then .error .failed else .ok ret

end BpfExamples.Kvm
