import BpfExamples.Loader.BpfLoad

/-!
# What an object file is loaded as

An `Object` is what a file says, apart from ELF: a license and a version, maps, and programs
whose instructions may load the address of a map by its number. To load it is to create its
maps, to put their descriptors into the instructions that name them, and to give the programs to
the kernel (`Object.load`).

`Holds` says when a file holds an object: its sections can come in any order and among any
others; the maps are found by their symbols, and the instructions that name a map by
relocations.
-/

namespace BpfExamples.Loader

/-! ## Objects -/

/-- `struct bpf_insn` -/
structure Insn where
  code : UInt8
  dst : BitVec 4
  src : BitVec 4
  off : BitVec 16
  imm : BitVec 32
deriving DecidableEq, Repr, Inhabited

/-- A byte of the instruction. -/
def Insn.byte (i : Insn) : Nat → UInt8
  | 0 => i.code
  | 1 => UInt8.ofNat (i.dst.toNat + 16 * i.src.toNat)
  | 2 => UInt8.ofNat i.off.toNat
  | 3 => UInt8.ofNat (i.off.toNat / 256)
  | j + 4 => UInt8.ofNat (i.imm.toNat / 256 ^ j)

/-- Instructions in memory. -/
def codeBytes (l : List Insn) : List UInt8 := l.flatMap fun i => (List.range 8).map i.byte

/-- An instruction of an object file, and the map whose address it loads. -/
structure Word where
  insn : Insn
  map : Option Nat
deriving DecidableEq, Repr

/-- The instruction with the descriptor of its map. -/
def Word.link (fds : List Int) (w : Word) : Insn :=
  match w.map with
  | none => w.insn
  | some m => { w.insn with src := 1, imm := BitVec.ofInt 32 (fds.getD m 0) }

/-- A map that is declared. -/
structure MapDecl where
  name : List UInt8
  mapDef : MapDef
deriving DecidableEq, Repr

/-- A program: the event that it is for, and its instructions. -/
structure Program where
  event : CStr
  code : List Word

/-- What is to be loaded. -/
structure Object where
  license : List UInt8
  version : Int
  maps : List MapDecl
  programs : List Program

section

variable {σ : Type} (W : World σ)

/-- The maps are created in order, from the `i`-th on; their descriptors, unless one cannot be
created. -/
def createMaps : Nat → List MapDecl → SysM σ (Option (List Int))
  | _, [] => pure (some [])
  | i, d :: ds => do
    match ← createMap W i d.name d.mapDef with
    | none => pure none
    | some fd => do
      match ← createMaps (i + 1) ds with
      | none => pure none
      | some fds => pure (some (fd :: fds))

/-- The programs are loaded in order, up to the first that fails. -/
def loadLinked (c : Copy) (fds : List Int) : List Program → Int → SysM σ Int
  | [], ret => pure ret
  | p :: ps, _ => do
    let ret ← loadAndAttach W c p.event (codeBytes (p.code.map (Word.link fds)))
    if ret ≠ 0 then pure ret else loadLinked c fds ps ret

/-- A license as the loader keeps it. -/
def padded (license : List UInt8) : Vector UInt8 128 := Vector.ofFn fun j => license.getD j 0

/-- The maps and the programs of an object. -/
def Object.loadParts (o : Object) (c : Copy) : SysM σ Int := do
  match ← createMaps W 0 o.maps with
  | none => pure 1
  | some fds => loadLinked W c fds o.programs 1

/-- The object is loaded from the file `path`. -/
def Object.load (o : Object) (c : Copy) (path : List UInt8) : SysM σ Int := do
  modify fun s => { s with kernVersion := 0, license := Vector.replicate 128 0 }
  let fd ← ask W (.open path .rdonly)
  if fd.ret < 0 then pure 1
  else do
    let _ ← writeKprobeEvents W []
    modify fun s => { s with kernVersion := o.version, license := padded o.license }
    let ret ← o.loadParts W c
    let _ ← ask W (.close fd.ret)
    pure ret

end

/-! ## Files -/

/-- The section is one of those that the loader goes through and can read. -/
def Elf.HasSec (elf : Elf) (ehdr : Ehdr) (i : Nat) (sec : Sec) : Prop :=
  i ∈ ehdr.sections ∧ getSec elf ehdr i = .ok sec

/-- `strcmp(shname, lit) == 0` -/
def Sec.Named (sec : Sec) (lit : String) : Prop := sec.shname.text = ascii lit

instance Sec.decidableNamed (sec : Sec) (lit : String) : Decidable (sec.Named lit) :=
  inferInstanceAs (Decidable (_ = _))

/-- The section is handled by its name. -/
def Sec.Special (sec : Sec) : Prop :=
  sec.Named "license" ∨ sec.Named "version" ∨ sec.Named "maps"

instance Sec.decidableSpecial (sec : Sec) : Decidable sec.Special :=
  inferInstanceAs (Decidable (_ ∨ _))

/-- The section holds instructions. -/
def Sec.Executable (sec : Sec) : Prop :=
  sec.shdr.type = shtProgbits ∧ sec.shdr.flags / shfExecinstr % 2 = 1

/-- The section `i` has relocations for the instructions in `prog`. -/
structure Elf.Relocates (elf : Elf) (ehdr : Ehdr) (i : Nat) (sec prog : Sec) : Prop where
  has : elf.HasSec ehdr i sec
  plain : ¬ sec.Special
  type : sec.shdr.type = shtRel
  target : getSec elf ehdr sec.shdr.info = .ok prog
  executable : prog.Executable

/-- The `j`-th relocation of a section is for the instruction `k` of its target. -/
def Sec.Relocation (sec : Sec) (j k : Nat) (rel : Rel) : Prop :=
  j < sec.shdr.size / sec.shdr.entsize ∧ gelfGetrel sec.data j = some rel ∧ rel.offset / 8 = k

/-- How the parts of an object lie in a file: the symbols, the section of the maps with the
offsets of the maps in it, and the instructions of each section that holds some. -/
structure Layout where
  symbols : Data
  strtab : Nat
  mapsShndx : Nat
  mapSyms : List Sym
  code : Nat → List Word

/-- The program of a section. -/
def Layout.programAt (L : Layout) (elf : Elf) (ehdr : Ehdr) (c : Copy) (i : Nat) :
    Option Program :=
  match getSec elf ehdr i with
  | .error _ => none
  | .ok sec => if isProgram c sec.shname then some ⟨sec.shname, L.code i⟩ else none

/-- The symbol declares a map: the bytes of the declaration that the loader knows are those of
`d`, and the others are zero. -/
structure Declares (elf : Elf) (strtab : Nat) (data : Data) (stride : Nat) (sym : Sym)
    (d : MapDecl) : Prop where
  name : ∃ p, elf.strptr strtab sym.name = some p ∧ p.text = d.name
  inside : sym.value + stride ≤ data.size
  known : d.mapDef = .ofMem fun x => if x < min stride mapDefSize then
    data.buf (sym.value + x) else 0
  unknown : ∀ x, mapDefSize ≤ x → x < stride → data.buf (sym.value + x) = 0

/-- The symbols of a section. -/
def symsIn (symbols : Data) (shndx : Nat) : List Sym :=
  ((List.range (symbols.size / symSize)).filterMap (gelfGetsym symbols)).filter
    fun sym => sym.shndx = shndx

/-- The section of the maps: their symbols, by increasing offset, and their declarations, all of
one size. -/
structure HoldsMaps (elf : Elf) (L : Layout) (data : Data) (maps : List MapDecl) : Prop where
  nonempty : L.mapSyms ≠ []
  few : L.mapSyms.length ≤ maxMaps
  symbols : L.mapSyms.Perm (symsIn L.symbols L.mapsShndx)
  increasing : L.mapSyms.Pairwise fun a b => a.value < b.value
  declared : List.Forall₂ (Declares elf L.strtab data (data.size / L.mapSyms.length))
    L.mapSyms maps

/-- The `j`-th relocation of a section is for the load of the `m`-th map at the instruction
`w`. -/
structure Points (L : Layout) (rsec : Sec) (j : Nat) (rel : Rel) (sym : Sym) (w : Word)
    (m : Nat) : Prop where
  getrel : gelfGetrel rsec.data j = some rel
  getsym : gelfGetsym L.symbols (gelfRSym rel.info) = some sym
  insn : (L.code rsec.shdr.info)[rel.offset / 8]? = some w
  load : w.insn.code = ldImm64
  map : w.map = some m
  shndx : sym.shndx = L.mapsShndx
  offset : (L.mapSyms.map Sym.value)[m]? = some sym.value

/-- The file holds the object. -/
structure Holds (elf : Elf) (ehdr : Ehdr) (c : Copy) (L : Layout) (o : Object) : Prop where
  few : ehdr.shnum ≤ 128
  license : ∀ i sec, elf.HasSec ehdr i sec → sec.Named "license" → sec.data.bytes = o.license ∧
    sec.data.size ≤ 128
  noLicense : (∀ i sec, elf.HasSec ehdr i sec → ¬ sec.Named "license") → o.license = []
  version : ∀ i sec, elf.HasSec ehdr i sec → sec.Named "version" →
    sec.data.size = 4 ∧ int32 (sec.data.buf.loadLE 0 4) = o.version
  noVersion : (∀ i sec, elf.HasSec ehdr i sec → ¬ sec.Named "version") → o.version = 0
  symtab : ∃ i sec, elf.HasSec ehdr i sec ∧ ¬ sec.Special ∧ sec.shdr.type = shtSymtab
  symbols : ∀ i sec, elf.HasSec ehdr i sec → ¬ sec.Special → sec.shdr.type = shtSymtab →
    sec.data = L.symbols ∧ sec.shdr.link = L.strtab
  maps : ∀ i sec, elf.HasSec ehdr i sec → sec.Named "maps" → i = L.mapsShndx ∧
    HoldsMaps elf L sec.data o.maps
  noMaps : (∀ i sec, elf.HasSec ehdr i sec → ¬ sec.Named "maps") → o.maps = [] ∧ L.mapSyms = []
  programs : o.programs = ehdr.sections.filterMap (L.programAt elf ehdr c)
  code : ∀ i sec, elf.HasSec ehdr i sec → isProgram c sec.shname = true →
    sec.shdr.type ≠ shtRel ∧ sec.data.bytes = codeBytes ((L.code i).map Word.insn)
  relocated : ∀ i sec, elf.HasSec ehdr i sec → isProgram c sec.shname = true →
    ∀ k w, (L.code i)[k]? = some w → w.map ≠ none →
      ∃ r rsec j rel, elf.Relocates ehdr r rsec sec ∧ rsec.shdr.info = i ∧
        rsec.Relocation j k rel
  relocations : ∀ r rsec prog, elf.Relocates ehdr r rsec prog →
    rsec.shdr.entsize ≠ 0 ∧
      prog.data.bytes = codeBytes ((L.code rsec.shdr.info).map Word.insn) ∧
      ∀ j < rsec.shdr.size / rsec.shdr.entsize, ∃ rel sym w m, Points L rsec j rel sym w m

end BpfExamples.Loader
