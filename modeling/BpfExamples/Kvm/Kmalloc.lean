import BpfExamples.Kvm.Machine

/-!
# The kernel allocator (`kernel/mm/kmalloc.c`)

The functions of `kmalloc.c` over a byte memory. A chunk is its address; its
`size` field is the word at `+0` and its `next` field the word at `+16`
(`struct chunk`, kmalloc.c:10–14), so headers, links and user data share one
memory. The static `arena` is a record beside the memory. Its `sorted_bin` is a
`struct chunk` of which only `next` is ever read; a `struct chunk *prev` that
may be `&arena.sorted_bin` is an `Option`, with `none` for that static chunk.

The list loops carry fuel. A walk of `2^64` nodes has met some node twice, and
since the walk changes nothing it never ends, so running out of fuel is `hang`.
-/

namespace BpfExamples.Kvm

open Mem

/-- `struct kmalloc_arena` (kmalloc.c:6–15). -/
structure Arena where
  top : Nat
  topSize : Nat
  minAddr : Nat
  sortedBin : Nat

/-- What the allocator works on: the memory and the static `arena`. -/
structure Heap where
  mem : Mem
  arena : Arena

/-- `sizeof(struct chunk)`. -/
def sizeofChunk : Nat := 24

/-- `chunk2mem` (kmalloc.c:20); `offsetof(struct chunk, next)` is 16. -/
def chunk2mem (c : Nat) : Nat := c + 16

/-- `mem2chunk` (kmalloc.c:21). -/
def mem2chunk (m : Nat) : Nat := m - 16

/-- `c->size`. -/
def sizeOf (m : Mem) (c : Nat) : Nat := load64 m c

/-- `c->next`. -/
def nextOf (m : Mem) (c : Nat) : Nat := load64 m (c + 16)

namespace Heap

/-- `c->size = v`. -/
def setSize (h : Heap) (c v : Nat) : Heap := { h with mem := store64 h.mem c v }

/-- `prev->next = v`, where `prev` may be the static list head. -/
def setNext (h : Heap) (prev : Option Nat) (v : Nat) : Heap :=
  match prev with
  | none => { h with arena := { h.arena with sortedBin := v } }
  | some c => { h with mem := store64 h.mem (c + 16) v }

end Heap

/-- `init_allocator` (kmalloc.c:23–30). -/
def initAllocator (m : Mem) (addr len : Nat) : Exec Heap :=
  if len = 0 ∨ len &&& 0xfff ≠ 0 then .error (.panic .initAllocatorLength)
  else .ok ⟨m, ⟨addr, len, addr, 0⟩⟩

/-- `invalid_chunk_size` (kmalloc.c:32–37). -/
def invalidChunkSize (s : Nat) : Bool :=
  s == 0 || 2 ^ 32 ≤ s || s &&& 0xf != 0

/-- The fuel of the list loops. -/
def walkFuel : Nat := 2 ^ 64

/-- The loop of `insert_sorted` (kmalloc.c:40–44): the place after which the
chunk of size `s` goes, and the chunk that will follow it. -/
def insertSortedFrom (m : Mem) (s : Nat) : Nat → Option Nat → Nat → Exec (Option Nat × Nat)
  | 0, _, _ => .error .hang
  | fuel + 1, prev, now =>
    if now ≠ 0 ∧ sizeOf m now < s then
      insertSortedFrom m s fuel (some now) (nextOf m now)
    else .ok (prev, now)

/-- `insert_sorted` (kmalloc.c:39–48). -/
def insertSorted (h : Heap) (c : Nat) : Exec Heap := do
  let (prev, now) ← insertSortedFrom h.mem (sizeOf h.mem c) walkFuel none h.arena.sortedBin
  return (h.setNext prev c).setNext (some c) now

/-- The split of a fetched chunk (kmalloc.c:59–65). -/
def splitChunk (h : Heap) (now nb : Nat) : Exec Heap :=
  if sizeOf h.mem now = nb then .ok h
  else insertSorted (h.setSize (now + nb) (sizeOf h.mem now - nb)) (now + nb)

/-- The body of `fetch_sorted_bin` once a chunk fits (kmalloc.c:56–68). -/
def fetchChunk (sp : Space) (h : Heap) (nb : Nat) (prev : Option Nat) (now : Nat) :
    Exec (Heap × Nat) := do
  let h ← splitChunk (h.setNext prev (nextOf h.mem now)) now nb
  let m ← memset sp h.mem now 0 sizeofChunk
  return (({ h with mem := m } : Heap).setSize now nb, chunk2mem now)

/-- The loop of `fetch_sorted_bin` (kmalloc.c:52–75). -/
def fetchSortedBinFrom (sp : Space) (h : Heap) (nb : Nat) :
    Nat → Option Nat → Nat → Exec (Heap × Nat)
  | 0, _, _ => .error .hang
  | fuel + 1, prev, now =>
    if now = 0 then .ok (h, 0)
    else if invalidChunkSize (sizeOf h.mem now) then .error (.panic .sortedBinSize)
    else if nb ≤ sizeOf h.mem now then fetchChunk sp h nb prev now
    else fetchSortedBinFrom sp h nb fuel (some now) (nextOf h.mem now)

/-- `fetch_sorted_bin` (kmalloc.c:50–76). -/
def fetchSortedBin (sp : Space) (h : Heap) (nb : Nat) : Exec (Heap × Nat) :=
  fetchSortedBinFrom sp h nb walkFuel none h.arena.sortedBin

/-- `malloc_top` (kmalloc.c:78–85). -/
def mallocTop (h : Heap) (nb : Nat) : Heap × Nat :=
  if h.arena.topSize < nb then (h, 0)
  else
    ({ mem := store64 h.mem h.arena.top nb
       arena := { h.arena with
         topSize := h.arena.topSize - nb
         top := h.arena.top + nb } }, chunk2mem h.arena.top)

/-- `kfree` (kmalloc.c:123–133). -/
def kfree (h : Heap) (mem : Nat) : Exec Heap :=
  if mem = 0 then .ok h
  else
    let c := mem2chunk mem
    let s := sizeOf h.mem c
    if invalidChunkSize s then .error (.panic .kfreeSize)
    else if s + c = h.arena.top then
      .ok { mem := store64 h.mem c 0
            arena := { h.arena with top := c, topSize := h.arena.topSize + s } }
    else insertSorted h c

/-- `MALLOC_NO_ALIGN` (kmalloc.h:8). -/
def mallocNoAlign : Nat := 0

/-- `MALLOC_PAGE_ALIGN` (kmalloc.h:9). -/
def mallocPageAlign : Nat := 0x1000

/-- The bytes to skip so that the next block is aligned, in 64-bit unsigned
arithmetic (kmalloc.c:97–98). -/
def consume (top align : Nat) : Nat :=
  (align - 16 + 2 ^ 64 - (top &&& (align - 1))) % 2 ^ 64 &&& (align - 1)

/-- `int_kmalloc` (kmalloc.c:87–108). -/
def intKmalloc (sp : Space) (h : Heap) (nb align : Nat) : Exec (Heap × Nat) :=
  if align = mallocNoAlign then do
    let (h, ret) ← fetchSortedBin sp h nb
    if ret = 0 then return mallocTop h nb else return (h, ret)
  else if align ≠ mallocPageAlign then .error (.panic .kmallocAlignment)
  else
    let skip := consume h.arena.top align
    if skip = 0 then .ok (mallocTop h nb)
    else
      let (h, gap) := mallocTop h skip
      if gap = 0 then .ok (h, 0)
      else do
        let (h, ret) := mallocTop h nb
        let h ← kfree h gap
        return (h, ret)

/-- The rounding macro `alignup(v, p)` (kmalloc.c:110), for `p` a power of two. -/
def alignupTo (v p : Nat) : Nat := if v % p = 0 then v else v - v % p + p

/-- `kmalloc` (kmalloc.c:111–121). The block is cleared even when it is null. -/
def kmalloc (sp : Space) (h : Heap) (len align : Nat) : Exec (Heap × Nat) :=
  if 2 ^ 32 ≤ len then .ok (h, 0)
  else do
    let (h, victim) ← intKmalloc sp h (alignupTo (len + 16) 0x80) align
    if align ≠ mallocNoAlign ∧ victim &&& (align - 1) ≠ 0 then
      throw (.panic .alignmentRequest)
    else do
      let m ← memset sp h.mem victim 0 len
      return ({ h with mem := m }, victim)

end BpfExamples.Kvm
