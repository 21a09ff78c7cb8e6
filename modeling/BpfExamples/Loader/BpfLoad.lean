import BpfExamples.Base.Bytes
import BpfExamples.Base.Programs

/-!
# The loader of object files (`bpf_load.c`)

`load_bpf_file` reads an object file through libelf, creates the maps that its section `maps`
declares, puts the descriptors of the maps into the instructions that its relocations name, and
gives each program section to the kernel, where it is attached according to the name of the
section. The same file lies in `kprobe_file_read`, in `crash_systemd` and, with one more kind of
program, in `fexit_example`, whose lines are cited.

The two sides of the loader are parameters: `Elf` is what libelf hands out for a file, and the
kernel is a function that answers requests. A run keeps the list of its requests and their
answers. What C leaves undefined ends it with a `Fault`. Sections are smaller than 2 GiB and
have their bytes in the file.
-/

namespace BpfExamples.Loader

universe u

/-! ## C -/

/-- What ends the loader without a result. -/
inductive Fault
  | outOfBounds
  | nullPointer
  | uninitialised
  | divideByZero
  | assertion
deriving DecidableEq, Repr

/-- The bytes of a string literal, without its final zero. -/
def ascii (s : String) : List UInt8 := s.toList.map fun c => UInt8.ofNat c.toNat

/-- A value as an `int`. -/
def int32 (x : Int) : Int := x.bmod (2 ^ 32)

/-- A pointer into a string table: the bytes from there to the end of the table, the last of
which is zero. -/
structure CStr where
  mem : List UInt8
  closed : mem.getLast? = some 0
deriving DecidableEq

namespace CStr

/-- The string that starts at the pointer. -/
def text (p : CStr) : List UInt8 := p.mem.takeWhile (· ≠ 0)

/-- `*p` -/
def head (p : CStr) : UInt8 := p.mem.headD 0

/-- `strncmp(p, lit, strlen(lit)) == 0` -/
def starts (p : CStr) (lit : String) : Bool := (ascii lit).isPrefixOf p.mem

/-- `p += n`, for a pointer that is read afterwards. -/
def advance (p : CStr) (n : Nat) : Except Fault CStr :=
  if h : n < p.mem.length then
    .ok ⟨p.mem.drop n, by rw [List.getLast?_drop, if_neg (Nat.not_le.mpr h)]; exact p.closed⟩
  else .error .outOfBounds

end CStr

/-- `isdigit` -/
def isdigit (c : UInt8) : Bool := decide (48 ≤ c ∧ c ≤ 57)

/-- `isspace` -/
def isspace (c : UInt8) : Bool := decide (c = 32 ∨ 9 ≤ c ∧ c ≤ 13)

/-- The digits at the front, as `strtol` reads them. -/
def decimal (l : List UInt8) : Int :=
  (l.takeWhile isdigit).foldl (fun n c => 10 * n + (c.toNat - 48 : Int)) 0

/-- `atoi`: the `int` of what `strtol` finds, which stays between `LONG_MIN` and `LONG_MAX`. -/
def atoi (l : List UInt8) : Int :=
  let l := l.dropWhile isspace
  let value := match l with
    | 45 :: l => - decimal l
    | 43 :: l => decimal l
    | l => decimal l
  int32 (max (-(2 ^ 63)) (min value (2 ^ 63 - 1)))

/-! ## libelf -/

/-- `Elf_Data`: the contents of a section. -/
structure Data where
  size : Nat
  buf : Mem
  small : size < 2 ^ 31

/-- `Elf_Data.d_buf[0 .. d_size)` -/
def Data.bytes (d : Data) : List UInt8 := (List.range d.size).map d.buf

/-- `GElf_Shdr` -/
structure Shdr where
  name : Nat
  type : Nat
  flags : Nat
  link : Nat
  info : Nat
  size : Nat
  entsize : Nat
deriving DecidableEq

/-- `Elf_Scn`: what `gelf_getshdr` finds, and the descriptors that `elf_getdata` goes
through. -/
structure Scn where
  shdr : Option Shdr
  data : List Data

/-- `GElf_Ehdr` -/
structure Ehdr where
  shnum : Nat
  shstrndx : Nat
deriving DecidableEq

/-- An open object file: `gelf_getehdr`, `elf_getscn` and `elf_strptr`. -/
structure Elf where
  ehdr : Option Ehdr
  scn : Nat → Option Scn
  strptr : Nat → Nat → Option CStr

/-- `GElf_Sym` -/
structure Sym where
  name : Nat
  shndx : Nat
  value : Nat
deriving DecidableEq, Repr

/-- `GElf_Rel` -/
structure Rel where
  offset : Nat
  info : Nat
deriving DecidableEq, Repr

/-- `sizeof(GElf_Sym)` -/
def symSize : Nat := 24

/-- `gelf_getsym` -/
def gelfGetsym (symbols : Data) (ndx : Nat) : Option Sym :=
  if symSize * (ndx + 1) ≤ symbols.size then
    some ⟨symbols.buf.loadLE (symSize * ndx) 4, symbols.buf.loadLE (symSize * ndx + 6) 2,
      symbols.buf.loadLE (symSize * ndx + 8) 8⟩
  else none

/-- `gelf_getrel` -/
def gelfGetrel (data : Data) (ndx : Nat) : Option Rel :=
  if 16 * (ndx + 1) ≤ data.size then
    some ⟨data.buf.loadLE (16 * ndx) 8, data.buf.loadLE (16 * ndx + 8) 8⟩
  else none

/-- `GELF_R_SYM` -/
def gelfRSym (info : Nat) : Nat := info / 2 ^ 32

/-- `SHT_PROGBITS` -/
def shtProgbits : Nat := 1

/-- `SHT_SYMTAB` -/
def shtSymtab : Nat := 2

/-- `SHT_REL` -/
def shtRel : Nat := 9

/-- `SHF_EXECINSTR` -/
def shfExecinstr : Nat := 4

/-- What `get_sec` finds out about a section. -/
structure Sec where
  shname : CStr
  shdr : Shdr
  data : Data

/-- `get_sec` (bpf_load.c:321–342). -/
def getSec (elf : Elf) (ehdr : Ehdr) (i : Nat) : Except Nat Sec :=
  match elf.scn i with
  | none => .error 1
  | some scn =>
    match scn.shdr with
    | none => .error 2
    | some shdr =>
      match elf.strptr ehdr.shstrndx shdr.name with
      | none => .error 3
      | some shname =>
        if shdr.size = 0 then .error 3
        else match scn.data with
          | [data] => .ok ⟨shname, shdr, data⟩
          | _ => .error 4

/-- The contents of a section are changed in place. -/
def Elf.setBuf (elf : Elf) (i : Nat) (buf : Mem) : Elf :=
  { elf with
    scn := fun j =>
      if j = i then (elf.scn j).map fun scn =>
        { scn with data := scn.data.map fun d => { d with buf := buf } }
      else elf.scn j }

/-! ## The kernel -/

/-- `enum bpf_prog_type`, as far as it is used. -/
inductive ProgType
  | socketFilter | kprobe | tracepoint | rawTracepoint | xdp | perfEvent
  | cgroupSkb | cgroupSock | sockOps | skSkb | skMsg | tracing
deriving DecidableEq, Repr

/-- The flags that files are opened with. -/
inductive OpenFlags
  | rdonly
  | wronlyTrunc
  | wronlyAppend
deriving DecidableEq, Repr

/-- The requests to the kernel, directly or through libbpf. -/
inductive Request
  | open (path : List UInt8) (flags : OpenFlags)
  | close (fd : Int)
  | read (fd : Int) (count : Nat)
  | write (fd : Int) (data : List UInt8)
  | createMapNode (type : Nat) (name : List UInt8) (keySize valueSize maxEntries flags : Nat)
      (node : Int)
  | createMapInMapNode (type : Nat) (name : List UInt8) (keySize : Nat) (innerMapFd : Int)
      (maxEntries flags : Nat) (node : Int)
  | loadProgram (type : ProgType) (insns : List UInt8) (license : List UInt8)
      (kernVersion : Int)
  | mapUpdateElem (fd : Int) (key value : List UInt8)
  | rawTracepointOpen (name : List UInt8) (progFd : Int)
  | perfEventOpen (config : Int)
  | ioctlEnable (fd : Int)
  | ioctlSetBpf (fd progFd : Int)
deriving DecidableEq, Repr

/-- The value that a request returns, and the bytes that it reads. -/
structure Reply where
  ret : Int
  data : List UInt8
deriving DecidableEq, Repr

/-- What the loader runs on: the kernel, with a state of its own, and libelf. The order that
`qsort` leaves equal symbols in is its own affair. -/
structure World (σ : Type u) where
  ask : σ → Request → σ × Reply
  /-- `elf_begin` -/
  elf : σ → Int → Option Elf
  /-- `elf_version(EV_CURRENT) != EV_NONE` -/
  evCurrent : Bool
  qsort : List Sym → List Sym
  qsort_perm : ∀ l, (qsort l).Perm l
  qsort_sorted : ∀ l, (qsort l).Pairwise fun a b => a.value ≤ b.value

/-! ## The loader's variables -/

/-- `MAX_MAPS` -/
abbrev maxMaps : Nat := 32

/-- `MAX_PROGS` -/
abbrev maxProgs : Nat := 32

/-- `struct bpf_load_map_def` -/
structure MapDef where
  type : Nat
  keySize : Nat
  valueSize : Nat
  maxEntries : Nat
  mapFlags : Nat
  innerMapIdx : Nat
  numaNode : Nat
deriving DecidableEq, Repr

/-- `sizeof(struct bpf_load_map_def)` -/
def mapDefSize : Nat := 28

/-- The fields of a `struct bpf_load_map_def` in memory. -/
def MapDef.ofMem (m : Mem) : MapDef :=
  ⟨m.loadLE 0 4, m.loadLE 4 4, m.loadLE 8 4, m.loadLE 12 4, m.loadLE 16 4, m.loadLE 20 4,
    m.loadLE 24 4⟩

/-- `struct bpf_map_data` -/
structure MapData where
  fd : Int
  name : List UInt8
  elfOffset : Nat
  mapDef : MapDef
deriving DecidableEq, Repr

/-- The kernel, the requests so far, and the variables that programs are loaded with. -/
structure Sys (σ : Type u) where
  kernel : σ
  asked : List (Request × Reply)
  license : Vector UInt8 128
  kernVersion : Int
  mapFd : Vector Int maxMaps
  progFd : Vector Int maxProgs
  eventFd : Vector Int maxProgs
  progCnt : Nat
  progArrayFd : Int

/-- All variables of the loader. -/
structure Globals (σ : Type u) extends Sys σ where
  processedSec : Vector Bool 128
  mapData : Vector MapData maxMaps
  mapDataCount : Nat

/-- A part of the loader that deals with the kernel. -/
abbrev SysM (σ : Type) := EStateM Fault (Sys σ)

/-- A part of the loader. -/
abbrev LoadM (σ : Type) := EStateM Fault (Globals σ)

/-- The part runs on its variables and leaves the others alone. -/
def onSys {σ α : Type} (x : SysM σ α) : LoadM σ α := fun s =>
  match x s.toSys with
  | .ok a t => .ok a { s with toSys := t }
  | .error e t => .error e { s with toSys := t }

/-- A computation that touches no variable. -/
def orFault {σ α : Type} : Except Fault α → EStateM Fault σ α
  | .ok a => pure a
  | .error e => throw e

theorem orFault_ok {σ α : Type} (a : α) (s : σ) : orFault (.ok a) s = .ok a s := rfl

theorem orFault_error {σ α : Type} (e : Fault) (s : σ) :
    (orFault (.error e) : EStateM Fault σ α) s = .error e s :=
  rfl

section

variable {σ : Type} (W : World σ)

/-- A request, and its answer. -/
def ask (req : Request) : SysM σ Reply := do
  let s ← get
  let (kernel, reply) := W.ask s.kernel req
  set { s with kernel := kernel, asked := s.asked ++ [(req, reply)] }
  pure reply

/-! ## Attaching -/

/-- The four bytes of an `int`. -/
def intBytes (x : Int) : List UInt8 :=
  (List.range 4).map fun j => UInt8.ofNat ((x % 2 ^ 32).toNat / 256 ^ j)

/-- `populate_prog_array` (bpf_load.c:45–55). -/
def populateProgArray (event : CStr) (progFd : Int) : SysM σ Int := do
  let ind := atoi event.text
  let s ← get
  let err ← ask W (.mapUpdateElem s.progArrayFd (intBytes ind) (intBytes progFd))
  if err.ret < 0 then pure (-1) else pure 0

/-- `DEBUGFS` -/
def debugfs : List UInt8 := ascii "/sys/kernel/debug/tracing/"

/-- `write_kprobe_events` (bpf_load.c:57–74), for a string that is there. -/
def writeKprobeEvents (val : List UInt8) : SysM σ Int := do
  let fd ← ask W (.open (debugfs ++ ascii "kprobe_events") (if val = [] then .wronlyTrunc
    else .wronlyAppend))
  let ret ← ask W (.write fd.ret val)
  let _ ← ask W (.close fd.ret)
  pure ret.ret

/-- The copy of the loader: only that of `fexit_example` knows sections `fexit`. -/
inductive Copy
  | plain
  | fexit
deriving DecidableEq, Repr

/-- The section is `fexit`, in the copy that looks for it. -/
def Copy.isF (c : Copy) (event : CStr) : Bool := decide (c = .fexit) && event.starts "fexit"

/-- The choice of `prog_type` (bpf_load.c:104–131). -/
def progType (c : Copy) (event : CStr) : Option ProgType :=
  if event.starts "socket" then some .socketFilter
  else if event.starts "kprobe/" || event.starts "kretprobe/" then some .kprobe
  else if event.starts "tracepoint/" then some .tracepoint
  else if event.starts "raw_tracepoint/" then some .rawTracepoint
  else if event.starts "xdp" then some .xdp
  else if event.starts "perf_event" then some .perfEvent
  else if event.starts "cgroup/skb" then some .cgroupSkb
  else if event.starts "cgroup/sock" then some .cgroupSock
  else if event.starts "sockops" then some .sockOps
  else if event.starts "sk_skb" then some .skSkb
  else if event.starts "sk_msg" then some .skMsg
  else if c.isF event then some .tracing
  else none

/-- `sizeof(buf)` -/
def bufSize : Nat := 256

/-- `strcpy` and `strcat` into `buf`. -/
def strcat (parts : List (List UInt8)) : Except Fault (List UInt8) :=
  if parts.flatten.length < bufSize then .ok parts.flatten else .error .outOfBounds

/-- The probe that is asked for, as `snprintf` leaves it in `buf`. -/
def probeSpec (isKprobe : Bool) (pre event : List UInt8) : List UInt8 :=
  ((if isKprobe then ascii "p:" else ascii "r:") ++ pre ++ event ++ ascii
    " " ++ pre ++ event).take (bufSize - 1)

/-- The attempt with the name that a system call has on this machine (bpf_load.c:191–199):
whether it succeeds. -/
def registerX64 (isKprobe : Bool) (event : CStr) : SysM σ Bool :=
  if event.starts "sys_" then do
    let err ← writeKprobeEvents W (probeSpec isKprobe (ascii "__x64_") event.text)
    pure (decide (0 ≤ err))
  else pure false

/-- The registration of a kprobe (bpf_load.c:190–210): what its name starts with in the kernel,
or nothing. -/
def registerKprobe (isKprobe : Bool) (event : CStr) : SysM σ (Option (List UInt8)) := do
  let x64 ← registerX64 W isKprobe event
  if x64 then pure (some (ascii "__x64_"))
  else do
    let err ← writeKprobeEvents W (probeSpec isKprobe [] event.text)
    if err < 0 then pure none else pure (some [])

/-- What is in `buf` at the `open` (bpf_load.c:173–228), where the function has not returned by
then. -/
def eventPath (event : CStr) (fd : Int) : SysM σ (Except Int (List UInt8)) :=
  let isKprobe := event.starts "kprobe/"
  if isKprobe || event.starts "kretprobe/" then do
    let event ← orFault (event.advance (if isKprobe then 7 else 10))
    if event.head = 0 then pure (.error (-1))
    else if isdigit event.head then do
      let ret ← populateProgArray W event fd
      pure (.error ret)
    else do
      match ← registerKprobe W isKprobe event with
      | none => pure (.error (-1))
      | some pre => do
        let path ← orFault (strcat [debugfs, ascii "events/kprobes/", pre, event.text,
          ascii "/id"])
        pure (.ok path)
  else if event.starts "tracepoint/" then do
    let event ← orFault (event.advance 11)
    if event.head = 0 then pure (.error (-1))
    else do
      let path ← orFault (strcat [debugfs, ascii "events/", event.text, ascii "/id"])
      pure (.ok path)
  else throw .uninitialised

/-- `event_fd[prog_cnt - 1] = efd` -/
def setEventFd (efd : Int) : SysM σ Unit := do
  let s ← get
  if h : 0 < s.progCnt ∧ s.progCnt - 1 < maxProgs then
    set { s with eventFd := s.eventFd.set (s.progCnt - 1) efd h.2 }
  else throw .outOfBounds

/-- The event of a program (bpf_load.c:230–267). -/
def enableEvent (path : List UInt8) (fd : Int) : SysM σ Int := do
  let efd ← ask W (.open path .rdonly)
  if efd.ret < 0 then pure (-1)
  else do
    let err ← ask W (.read efd.ret bufSize)
    if err.ret < 0 ∨ (bufSize : Int) ≤ err.ret then pure (-1)
    else do
      let _ ← ask W (.close efd.ret)
      let id := atoi ((err.data.take err.ret.toNat).takeWhile (· ≠ 0))
      let efd ← ask W (.perfEventOpen id)
      if efd.ret < 0 then pure (-1)
      else do
        setEventFd efd.ret
        let err ← ask W (.ioctlEnable efd.ret)
        if err.ret < 0 then pure (-1)
        else do
          let err ← ask W (.ioctlSetBpf efd.ret fd)
          if err.ret < 0 then pure (-1) else pure 0

/-- `prog_fd[prog_cnt++] = fd` -/
def pushProgFd (fd : Int) : SysM σ Unit := do
  let s ← get
  if h : s.progCnt < maxProgs then
    set { s with progFd := s.progFd.set s.progCnt fd h, progCnt := s.progCnt + 1 }
  else throw .outOfBounds

/-- What follows the load of a program (bpf_load.c:145–267). -/
def attach (event : CStr) (fd : Int) : SysM σ Int :=
  let isSocket := event.starts "socket"
  if event.starts "xdp" || event.starts "perf_event" || event.starts "cgroup/skb" ||
      event.starts "cgroup/sock" then
    pure 0
  else if isSocket || event.starts "sockops" || event.starts "sk_skb" ||
      event.starts "sk_msg" then do
    let event ← orFault (event.advance (if isSocket then 6 else 7))
    if event.head ≠ 47 then pure 0
    else do
      let event ← orFault (event.advance 1)
      if !isdigit event.head then pure (-1)
      else populateProgArray W event fd
  else if event.starts "raw_tracepoint/" then do
    let name ← orFault (event.advance 15)
    let efd ← ask W (.rawTracepointOpen name.text fd)
    if efd.ret < 0 then pure (-1)
    else do
      setEventFd efd.ret
      pure 0
  else do
    match ← eventPath W event fd with
    | .error ret => pure ret
    | .ok path => enableEvent W path fd

/-- `load_and_attach` (bpf_load.c:76–268). -/
def loadAndAttach (c : Copy) (event : CStr) (prog : List UInt8) : SysM σ Int :=
  match progType c event with
  | none => pure (-1)
  | some type => do
    let s ← get
    if s.progCnt = maxProgs then pure (-1)
    else do
      let insns := prog.take (8 * (prog.length / 8))
      let fd ← ask W (.loadProgram type insns s.license.toList s.kernVersion)
      if fd.ret < 0 then pure (-1)
      else do
        pushProgFd fd.ret
        attach W event fd.ret

/-! ## Maps -/

/-- `map_fd[i] = fd` -/
def setMapFd (i : Nat) (fd : Int) : SysM σ Unit := do
  if h : i < maxMaps then modify fun s => { s with mapFd := s.mapFd.set i fd h }
  else throw .outOfBounds

/-- `BPF_MAP_TYPE_PROG_ARRAY` -/
def mapTypeProgArray : Nat := 3

/-- The map is an array or a hash of maps. -/
def MapDef.ofMaps (d : MapDef) : Bool := decide (d.type = 12 ∨ d.type = 13)

/-- `numa_node`, for `BPF_F_NUMA_NODE`. -/
def MapDef.node (d : MapDef) : Int := if d.mapFlags / 4 % 2 = 1 then int32 d.numaNode else -1

/-- The request that creates a map. -/
def createRequest (mapFd : Vector Int maxMaps) (name : List UInt8) (d : MapDef) :
    Except Fault Request :=
  if d.ofMaps then
    if h : d.innerMapIdx < maxMaps then
      .ok (.createMapInMapNode d.type name d.keySize mapFd[d.innerMapIdx] d.maxEntries
        d.mapFlags d.node)
    else .error .outOfBounds
  else .ok (.createMapNode d.type name d.keySize d.valueSize d.maxEntries d.mapFlags d.node)

/-- `prog_array_fd` is the last map of that type (bpf_load.c:315–316). -/
def noteProgArray (d : MapDef) (fd : Int) : SysM σ Unit :=
  if d.type = mapTypeProgArray then modify fun s => { s with progArrayFd := fd } else pure ()

/-- The creation of the `i`-th map (bpf_load.c:285–316): its descriptor, where it has one. -/
def createMap (i : Nat) (name : List UInt8) (d : MapDef) : SysM σ (Option Int) := do
  let s ← get
  let req ← orFault (createRequest s.mapFd name d)
  let fd ← ask W req
  setMapFd i fd.ret
  if fd.ret < 0 then pure none
  else do
    noteProgArray d fd.ret
    pure (some fd.ret)

/-- `fixup_map_cb`: what the callback leaves in a map. -/
abbrev Fixup := MapData → Nat → MapData

/-- One turn of `load_maps` (bpf_load.c:275–317): whether the next one comes. -/
def loadMap (fixup : Option Fixup) (i : Nat) : LoadM σ Bool := do
  if h : i < maxMaps then do
    let s ← get
    let m := (fixup.getD fun m _ => m) s.mapData[i] i
    set { s with mapData := s.mapData.set i m h }
    if fixup.isSome ∧ m.fd ≠ -1 then do
      onSys (setMapFd i m.fd)
      pure true
    else do
      match ← onSys (createMap W i m.name m.mapDef) with
      | none => pure false
      | some fd => do
        modify fun s => { s with mapData := s.mapData.set i { m with fd := fd } h }
        pure true
  else throw .outOfBounds

/-- `load_maps` (bpf_load.c:270–319) from a map on. -/
def loadMaps (fixup : Option Fixup) : List Nat → LoadM σ Int
  | [] => pure 0
  | i :: is => do
    if ← loadMap W fixup i then loadMaps fixup is else pure 1

end

/-! ## Reading the maps of a file -/

/-- The symbols of the section `maps` (bpf_load.c:430–440), with those that are found
already. -/
def mapSymbols (symbols : Data) (mapsShndx : Nat) :
    List Nat → List Sym → Except Fault (List Sym)
  | [], found => .ok found
  | i :: is, found =>
    if found.length < maxMaps + 1 then
      match gelfGetsym symbols i with
      | none => mapSymbols symbols mapsShndx is found
      | some sym =>
        if sym.shndx ≠ mapsShndx then mapSymbols symbols mapsShndx is found
        else mapSymbols symbols mapsShndx is (found ++ [sym])
    else .error .assertion

/-- Whether the bytes of a declaration that the loader does not know are zero
(bpf_load.c:497–506). -/
def restZero (data : Data) : List Nat → Except Fault Bool
  | [] => .ok true
  | a :: as =>
    if a < data.size then if data.buf a ≠ 0 then .ok false else restZero data as
    else .error .outOfBounds

/-- The declaration at an offset of the section, of which so many bytes are copied. -/
def copyDef (data : Data) (offset mapSzCopy : Nat) : Except Fault MapDef :=
  if mapSzCopy = 0 ∨ offset + mapSzCopy ≤ data.size then
    .ok (.ofMem fun x => if x < mapSzCopy then data.buf (offset + x) else 0)
  else .error .outOfBounds

/-- One declaration (bpf_load.c:475–506): the map it stands for, and whether the loader knows
all of it. -/
def readMap (elf : Elf) (strtabidx : Nat) (data : Data) (mapSzElf : Nat) (sym : Sym)
    (m : MapData) : Except Fault (MapData × Bool) :=
  let mapSzCopy := min mapSzElf mapDefSize
  match elf.strptr strtabidx sym.name with
  | none => .error .nullPointer
  | some mapName => do
    let mapDef ← copyDef data sym.value mapSzCopy
    let known ← restZero data (List.range' (sym.value + mapSzCopy) (mapSzElf - mapSzCopy))
    .ok ({ m with name := mapName.text, elfOffset := sym.value, mapDef := mapDef }, known)

/-- The declarations from the `i`-th on (bpf_load.c:474–507). -/
def readMaps (elf : Elf) (strtabidx : Nat) (data : Data) (mapSzElf : Nat) :
    List Sym → Nat → Vector MapData maxMaps → Except Fault (Bool × Vector MapData maxMaps)
  | [], _, maps => .ok (true, maps)
  | sym :: syms, i, maps =>
    if h : i < maxMaps then do
      let (m, known) ← readMap elf strtabidx data mapSzElf sym maps[i]
      if known then readMaps elf strtabidx data mapSzElf syms (i + 1) (maps.set i m h)
      else .ok (false, maps.set i m h)
    else .error .outOfBounds

/-- `load_elf_maps_section` (bpf_load.c:404–511): the number of maps or a negative error, and
the maps. -/
def loadElfMapsSection {σ : Type} (W : World σ) (maps : Vector MapData maxMaps)
    (mapsShndx : Int) (elf : Elf) (symbols : Option Data) (strtabidx : Nat) :
    Except Fault (Int × Vector MapData maxMaps) :=
  if mapsShndx < 0 then .ok (-22, maps)
  else match symbols with
    | none => .ok (-22, maps)
    | some symbols =>
      match (elf.scn mapsShndx.toNat).bind fun scn => scn.data.head? with
      | none => .ok (-22, maps)
      | some dataMaps => do
        let found ← mapSymbols symbols mapsShndx.toNat (List.range (symbols.size / symSize)) []
        let sym := W.qsort found
        if sym = [] then .error .divideByZero
        else do
          let (known, maps) ← readMaps elf strtabidx dataMaps
            (dataMaps.size / sym.length) sym 0 maps
          .ok (if known then sym.length else -27, maps)

/-! ## Relocation -/

/-- `BPF_LD | BPF_IMM | BPF_DW` -/
def ldImm64 : UInt8 := 0x18

/-- `BPF_PSEUDO_MAP_FD`, in the upper half of the byte that `src_reg` shares with `dst_reg`. -/
def pseudoMapFd (b : UInt8) : UInt8 := (b &&& 0x0f) ||| 0x10

/-- The map whose offset is the value of the symbol (bpf_load.c:372–378), which is only read
where there are maps to compare it with. -/
def findMap (maps : List MapData) (sym : Option Sym) : Except Fault (Option MapData) :=
  if maps = [] then .ok none
  else match sym with
    | none => .error .uninitialised
    | some sym => .ok (maps.find? fun m => m.elfOffset = sym.value)

/-- One relocation (bpf_load.c:353–385): the instructions after it, and whether the next one
comes. -/
def applyRelo (data symbols : Data) (maps : List MapData) (i : Nat) (insn : Data) :
    Except Fault (Data × Bool) :=
  match gelfGetrel data i with
  | none => .error .uninitialised
  | some rel =>
    let insnIdx := rel.offset / 8 % 2 ^ 32
    let sym := gelfGetsym symbols (gelfRSym rel.info)
    if 8 * insnIdx < insn.size then
      if insn.buf (8 * insnIdx) ≠ ldImm64 then .ok (insn, false)
      else if 8 * insnIdx + 1 < insn.size then
        let marked := Function.update insn.buf (8 * insnIdx + 1)
          (pseudoMapFd (insn.buf (8 * insnIdx + 1)))
        match findMap maps sym with
        | .error e => .error e
        | .ok none => .ok ({ insn with buf := marked }, false)
        | .ok (some m) =>
          if 8 * insnIdx + 8 ≤ insn.size then
            .ok ({ insn with
              buf := Mem.storeLE marked (8 * insnIdx + 4) 4 (m.fd % 2 ^ 32).toNat }, true)
          else .error .outOfBounds
      else .error .outOfBounds
    else .error .outOfBounds

/-- The relocations from one on, to the first that fails. -/
def applyRelos (data symbols : Data) (maps : List MapData) :
    List Nat → Data → Except Fault (Data × Bool)
  | [], insn => .ok (insn, true)
  | i :: is, insn => do
    let (insn, next) ← applyRelo data symbols maps i insn
    if next then applyRelos data symbols maps is insn else .ok (insn, false)

/-- `parse_relo_and_apply` (bpf_load.c:344–389): the instructions after it, and whether it
returns 0. -/
def parseReloAndApply (data symbols : Data) (shdr : Shdr) (insn : Data) (maps : List MapData) :
    Except Fault (Data × Bool) :=
  if shdr.entsize = 0 then .error .divideByZero
  else applyRelos data symbols maps (List.range (shdr.size / shdr.entsize)) insn

/-! ## Whole files -/

section

variable {σ : Type}

/-- `processed_sec[i] = true` -/
def setProcessed (i : Nat) : LoadM σ Unit := do
  if h : i < 128 then modify fun s => { s with processedSec := s.processedSec.set i true h }
  else throw .outOfBounds

/-- `processed_sec[i]` -/
def isProcessed (i : Nat) : LoadM σ Bool := do
  let s ← get
  if h : i < 128 then pure s.processedSec[i] else throw .outOfBounds

/-- `memcpy(license, data->d_buf, data->d_size)` -/
def copyLicense (data : Data) : LoadM σ Unit := do
  if data.size ≤ 128 then
    modify fun s => { s with
      license := Vector.ofFn fun j =>
        if j.val < data.size then data.buf j else s.license.get j }
  else throw .outOfBounds

/-- What the first look at the sections finds. -/
structure Scanned where
  mapsShndx : Int
  dataMaps : Bool
  strtabidx : Int
  symbols : Option Data

/-- `maps_shndx = -1`, `data_maps = NULL` and so on. -/
def Scanned.init : Scanned := ⟨-1, false, -1, none⟩

/-- One section of the first loop (bpf_load.c:557–578), unless the function returns. -/
def scanSection (i : Nat) (sec : Sec) (v : Scanned) : LoadM σ (Option Scanned) :=
  if sec.shname.text = ascii "license" then do
    setProcessed i
    copyLicense sec.data
    pure (some v)
  else if sec.shname.text = ascii "version" then do
    setProcessed i
    if sec.data.size ≠ 4 then pure none
    else do
      modify fun s => { s with kernVersion := int32 (sec.data.buf.loadLE 0 4) }
      pure (some v)
  else if sec.shname.text = ascii "maps" then do
    modify fun s => { s with mapData := s.mapData.map fun m => { m with fd := -1 } }
    pure (some { v with mapsShndx := i, dataMaps := true })
  else if sec.shdr.type = shtSymtab then
    pure (some { v with strtabidx := sec.shdr.link, symbols := some sec.data })
  else pure (some v)

/-- The first loop, from a section on. -/
def scanSections (elf : Elf) (ehdr : Ehdr) : List Nat → Scanned → LoadM σ (Option Scanned)
  | [], v => pure (some v)
  | i :: is, v =>
    match getSec elf ehdr i with
    | .error _ => scanSections elf ehdr is v
    | .ok sec => do
      match ← scanSection i sec v with
      | none => pure none
      | some v => scanSections elf ehdr is v

/-- One section of the second loop (bpf_load.c:605–629). -/
def relocateSection (ehdr : Ehdr) (symbols : Data) (nrMaps i : Nat) (elf : Elf) :
    LoadM σ Elf := do
  if ← isProcessed i then pure elf
  else match getSec elf ehdr i with
    | .error _ => pure elf
    | .ok sec =>
      if sec.shdr.type = shtRel then
        match getSec elf ehdr sec.shdr.info with
        | .error _ => pure elf
        | .ok prog =>
          if prog.shdr.type ≠ shtProgbits ∨ prog.shdr.flags / shfExecinstr % 2 = 0 then pure elf
          else do
            setProcessed i
            let s ← get
            let (insn, _) ← orFault (parseReloAndApply sec.data symbols sec.shdr prog.data
              (s.mapData.toList.take nrMaps))
            pure (elf.setBuf sec.shdr.info insn.buf)
      else pure elf

/-- The second loop, from a section on. -/
def relocateSections (ehdr : Ehdr) (symbols : Data) (nrMaps : Nat) :
    List Nat → Elf → LoadM σ Elf
  | [], elf => pure elf
  | i :: is, elf => do
    let elf ← relocateSection ehdr symbols nrMaps i elf
    relocateSections ehdr symbols nrMaps is elf

/-- The section holds a program, by its name (bpf_load.c:641–652). -/
def isProgram (c : Copy) (shname : CStr) : Bool :=
  shname.starts "kprobe/" || shname.starts "kretprobe/" || shname.starts "tracepoint/" ||
    shname.starts "raw_tracepoint/" || shname.starts "xdp" || shname.starts "perf_event" ||
    shname.starts "socket" || shname.starts "cgroup/" || shname.starts "sockops" ||
    shname.starts "sk_skb" || shname.starts "sk_msg" || c.isF shname

variable (W : World σ)

/-- The third loop (bpf_load.c:633–658), from a section on, with the value of `ret`. -/
def loadPrograms (c : Copy) (elf : Elf) (ehdr : Ehdr) : List Nat → Int → LoadM σ Int
  | [], ret => pure ret
  | i :: is, ret => do
    if ← isProcessed i then loadPrograms c elf ehdr is ret
    else match getSec elf ehdr i with
      | .error _ => loadPrograms c elf ehdr is ret
      | .ok sec =>
        if isProgram c sec.shname then do
          let ret ← onSys (loadAndAttach W c sec.shname sec.data.bytes)
          if ret ≠ 0 then pure ret else loadPrograms c elf ehdr is ret
        else loadPrograms c elf ehdr is ret

/-- The maps of the file (bpf_load.c:588–601): their number, unless something fails. -/
def makeMaps (fixup : Option Fixup) (elf : Elf) (v : Scanned) (symbols : Data) :
    LoadM σ (Option Nat) :=
  if v.dataMaps then do
    let s ← get
    let (nrMaps, maps) ← orFault (loadElfMapsSection W s.mapData v.mapsShndx elf
      (some symbols) v.strtabidx.toNat)
    set { s with mapData := maps }
    if nrMaps < 0 then pure none
    else do
      let ret ← loadMaps W fixup (List.range nrMaps.toNat)
      if ret ≠ 0 then pure none
      else do
        modify fun s => { s with mapDataCount := nrMaps.toNat }
        setProcessed v.mapsShndx.toNat
        pure (some nrMaps.toNat)
  else pure (some 0)

/-- The sections that the loops go through. -/
def Ehdr.sections (ehdr : Ehdr) : List Nat := List.range' 1 (ehdr.shnum - 1)

/-- What is done with the sections (bpf_load.c:581–658), up to `done`. -/
def loadSections (c : Copy) (fixup : Option Fixup) (elf : Elf) (ehdr : Ehdr) (v : Scanned) :
    LoadM σ Int :=
  match v.symbols with
  | none => pure 1
  | some symbols => do
    match ← makeMaps W fixup elf v symbols with
    | none => pure 1
    | some nrMaps => do
      let elf ← relocateSections ehdr symbols nrMaps ehdr.sections elf
      loadPrograms W c elf ehdr ehdr.sections 1

/-- `do_load_bpf_file` (bpf_load.c:513–663). -/
def doLoadBpfFile (c : Copy) (path : List UInt8) (fixup : Option Fixup) : LoadM σ Int := do
  modify fun s => { s with
    kernVersion := 0
    license := Vector.replicate 128 0
    processedSec := Vector.replicate 128 false }
  if !W.evCurrent then pure 1
  else do
    let fd ← onSys (ask W (.open path .rdonly))
    if fd.ret < 0 then pure 1
    else do
      let s ← get
      match W.elf s.kernel fd.ret with
      | none => pure 1
      | some elf =>
        match elf.ehdr with
        | none => pure 1
        | some ehdr => do
          let _ ← onSys (writeKprobeEvents W [])
          match ← scanSections elf ehdr ehdr.sections .init with
          | none => pure 1
          | some v => do
            let ret ← loadSections W c fixup elf ehdr v
            let _ ← onSys (ask W (.close fd.ret))
            pure ret

/-- `load_bpf_file` (bpf_load.c:665–668). -/
def loadBpfFile (c : Copy) (path : List UInt8) : LoadM σ Int := doLoadBpfFile W c path none

/-- `load_bpf_file_fixup_map` (bpf_load.c:670–673). -/
def loadBpfFileFixupMap (c : Copy) (path : List UInt8) (fixup : Fixup) : LoadM σ Int :=
  doLoadBpfFile W c path (some fixup)

end

end BpfExamples.Loader
