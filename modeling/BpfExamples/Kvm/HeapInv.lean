import BpfExamples.Base.Chain
import BpfExamples.Base.Extents
import BpfExamples.Kvm.Kmalloc
import Mathlib.Data.List.Sort

/-!
# What the allocator's memory represents

An abstract heap is two lists of chunks: the free ones in `sorted_bin` order
and the ones in use. `HeapInv` says that a memory and an `arena` represent it:
the chunks tile `[min_addr, top)`, every header stores its chunk's size, and the
`next` words thread the free chunks in ascending size.

A free chunk keeps its link 16 bytes past its header, so a chunk below 24 bytes
would have its link in its neighbour. Sizes are only known to be multiples of
16, and the invariant that rules such chunks out is a congruence (`ChunkOk`):
chunks start and end at addresses that are `0` or `0x70` modulo `0x80`, and have
a size that is `0` or `0x70` modulo `0x80`.
-/

namespace BpfExamples.Kvm

open Mem

/-- An address range that an arena can be set up on: page-aligned, in or above the
kernel window, and of any length that `init_allocator` takes. -/
structure Range where
  base : Nat
  len : Nat
  high : 0x8000000000 ≤ base
  paged : base % 0x1000 = 0
  nonzero : 0 < len
  whole : len % 0x1000 = 0
  fits : base + len < 2 ^ 64

/-- One past the last address of the arena. -/
def Range.limit (S : Range) : Nat := S.base + S.len

theorem Range.base_pos (S : Range) : 2 ^ 39 ≤ S.base := S.high

theorem Range.limit_lt (S : Range) : S.limit < 2 ^ 64 := S.fits

/-- A range that is at most as long as the window. -/
structure Span extends Range where
  bounded : len ≤ 0x40000000

instance : Coe Span Range := ⟨Span.toRange⟩

theorem Span.limit_le (S : Span) : S.limit ≤ S.base + 2 ^ 30 :=
  Nat.add_le_add_left S.bounded _

/-- The arena that `kernel_main` sets up. -/
def kernelSpan : Span where
  base := 0x8000200000
  len := 0x200000
  high := by decide
  paged := by decide
  nonzero := by decide
  whole := by decide
  bounded := by decide
  fits := by decide

/-- A space in which the arena's addresses are their own cells, and in which no
address below 4 GB leads into the arena. -/
structure Isolated (sp : Space) (S : Range) : Prop where
  own : ∀ a, S.base ≤ a → a < S.limit → sp a = some a
  low : ∀ v a, v < 2 ^ 32 → sp v = some a → a < S.base ∨ S.limit ≤ a

theorem isolated_flat (S : Range) : Isolated flat S where
  own _ _ _ := rfl
  low v a hv h := by
    have := S.base_pos
    cases h
    omega

/-- Where the kernel's low mapping ends below the arena, the kernel's own space
keeps the arena isolated. -/
theorem isolated_kernelSpace (S : Range) (hbase : 0x8000200000 ≤ S.base)
    (hlimit : S.limit ≤ 0x8040000000) : Isolated kernelSpace S where
  own a h₁ h₂ := kernelSpace_window (by omega) (by omega)
  low v a hv h := by
    by_cases hlow : v < 0x200000
    · rw [kernelSpace_low hlow] at h
      cases h
      omega
    · rw [kernelSpace_none (by omega) (by omega)] at h
      cases h

theorem isolated_kernelSpan : Isolated kernelSpace kernelSpan :=
  isolated_kernelSpace kernelSpan (by decide) (by decide)

/-! ## The bin in memory -/

/-- The free chunks `bin` are threaded from `head`, each with its size stored. -/
structure Bin (m : Mem) (head : Nat) (bin : List Extent) : Prop where
  chain : Seg (nextOf m) head (bin.map Extent.addr) 0
  stored : ∀ e ∈ bin, sizeOf m e.addr = e.size

/-- A bin reads only the first three words of its chunks. -/
theorem Bin.frame {m m' : Mem} {head : Nat} {bin : List Extent} (h : Bin m head bin)
    (hm : ∀ e ∈ bin, ∀ a, e.addr ≤ a → a < e.addr + 24 → m' a = m a) : Bin m' head bin where
  chain := by
    refine h.chain.congr fun x hx => ?_
    obtain ⟨e, he, rfl⟩ := List.mem_map.mp hx
    exact load64_congr fun a h₁ h₂ => hm e he a (by omega) (by omega)
  stored e he := by
    rw [← h.stored e he]
    exact load64_congr fun a h₁ h₂ => hm e he a h₁ (by omega)

/-- The address of the first chunk, null when there is none. -/
def headAddr : List Extent → Nat
  | [] => 0
  | e :: _ => e.addr

theorem Bin.head_eq {m : Mem} {head : Nat} :
    ∀ {bin : List Extent}, Bin m head bin → head = headAddr bin
  | [], h => h.chain
  | _ :: _, h => h.chain.1

theorem Bin.tail {m : Mem} {head : Nat} {e : Extent} {bin : List Extent}
    (h : Bin m head (e :: bin)) : Bin m (nextOf m e.addr) bin :=
  ⟨h.chain.2, fun f hf => h.stored f (List.mem_cons_of_mem _ hf)⟩

/-- Insertion by size: before the first chunk that is not smaller. -/
def binInsert (c : Extent) (bin : List Extent) : List Extent :=
  bin.orderedInsert (fun a b => a.size ≤ b.size) c

theorem binInsert_perm (c : Extent) (bin : List Extent) : (binInsert c bin).Perm (c :: bin) :=
  List.perm_orderedInsert _ _ _

theorem mem_binInsert {c e : Extent} {bin : List Extent} :
    e ∈ binInsert c bin ↔ e = c ∨ e ∈ bin :=
  List.mem_orderedInsert _

/-- A bin is in ascending size order. -/
def BySize (bin : List Extent) : Prop := bin.Pairwise fun a b => a.size ≤ b.size

instance : Std.Total fun a b : Extent => a.size ≤ b.size := ⟨fun _ _ => Nat.le_total _ _⟩

instance : IsTrans Extent fun a b => a.size ≤ b.size := ⟨fun _ _ _ => Nat.le_trans⟩

theorem BySize.insert {bin : List Extent} (h : BySize bin) (c : Extent) :
    BySize (binInsert c bin) :=
  List.Pairwise.orderedInsert c bin h

/-! ## The shape of chunks -/

/-- Where chunks may begin and end. -/
def Boundary (a : Nat) : Prop := a % 0x80 = 0 ∨ a % 0x80 = 0x70

/-- The congruences every chunk obeys. -/
structure ChunkOk (e : Extent) : Prop where
  start : Boundary e.addr
  stop : Boundary e.fin
  size : Boundary e.size

/-- A non-empty chunk has room for its header and link. -/
theorem ChunkOk.room {e : Extent} (h : ChunkOk e) (hpos : 0 < e.size) : 0x70 ≤ e.size := by
  rcases h.size with hs | hs <;> omega

/-- Cutting `nb` bytes off the front of a chunk. -/
theorem ChunkOk.cut {e : Extent} (h : ChunkOk e) {nb : Nat} (hnb : nb % 0x80 = 0)
    (hle : nb ≤ e.size) : ChunkOk ⟨e.addr, nb⟩ ∧ ChunkOk ⟨e.addr + nb, e.size - nb⟩ := by
  obtain ⟨h₁, h₂, h₃⟩ := h
  unfold Boundary Extent.fin at *
  refine ⟨⟨h₁, ?_, .inl hnb⟩, ⟨?_, ?_, ?_⟩⟩ <;> unfold Boundary <;> simp only [Extent.fin] <;>
    omega

/-- **The heap invariant**: `h` represents the free chunks `bin` and the chunks
in use `used`. -/
structure HeapInv (S : Range) (h : Heap) (bin used : List Extent) : Prop where
  minAddr : h.arena.minAddr = S.base
  limit : h.arena.top + h.arena.topSize = S.limit
  threaded : Bin h.mem h.arena.sortedBin bin
  sorted : BySize bin
  small : ∀ e ∈ bin, e.size < 2 ^ 32
  stored : ∀ e ∈ used, sizeOf h.mem e.addr = e.size
  tiles : Tiles S.base h.arena.top (bin ++ used)
  shape : ∀ e ∈ bin ++ used, ChunkOk e
  top : Boundary h.arena.top

/-- The bytes behind a header of the listed chunks. -/
def Payload (used : List Extent) (a : Nat) : Prop :=
  ∃ e ∈ used, e.addr + 16 ≤ a ∧ a < e.fin

namespace HeapInv

variable {S : Range} {h h' : Heap} {bin used : List Extent} {e : Extent}

/-- `init_allocator` sets up the empty heap. -/
theorem init (S : Range) (m : Mem) : HeapInv S ⟨m, ⟨S.base, S.len, S.base, 0⟩⟩ [] [] where
  minAddr := rfl
  limit := rfl
  threaded := ⟨rfl, by simp⟩
  sorted := List.Pairwise.nil
  small := by simp
  stored := by simp
  tiles := Tiles.nil _
  shape := by simp
  top := by
    have := S.paged
    unfold Boundary
    simp only
    omega

/-- Where the chunks of a heap lie. -/
theorem bounds (inv : HeapInv S h bin used) (he : e ∈ bin ++ used) :
    S.base ≤ e.addr ∧ e.fin ≤ h.arena.top ∧ 0x70 ≤ e.size := by
  have h₁ := inv.tiles.inside e he
  exact ⟨h₁.1, h₁.2, (inv.shape e he).room (inv.tiles.pos e he)⟩

theorem top_le (inv : HeapInv S h bin used) : h.arena.top ≤ S.limit := by
  have := inv.limit
  omega

/-- The size of a chunk below 4 GB is one that `invalid_chunk_size` lets through. -/
theorem valid_size (inv : HeapInv S h bin used) (he : e ∈ bin ++ used) (hlt : e.size < 2 ^ 32) :
    invalidChunkSize e.size = false := by
  have hb := inv.bounds he
  have hs := (inv.shape e he).size
  have hand : e.size &&& 0xf = e.size % 16 := Nat.and_two_pow_sub_one_eq_mod e.size 4
  unfold Boundary at hs
  simp only [invalidChunkSize, hand, Bool.or_eq_false_iff, beq_eq_false_iff_ne, ne_eq,
    decide_eq_false_iff_not, bne_eq_false_iff_eq]
  omega

/-- In an arena no longer than the window all chunks are that small. -/
theorem size_lt {S : Span} (inv : HeapInv S h bin used) (he : e ∈ bin ++ used) :
    e.size < 2 ^ 32 := by
  have hb := inv.bounds he
  have htop := inv.top_le
  have hlim := S.limit_le
  unfold Extent.fin at hb
  omega

/-- There are fewer chunks than any walk has fuel for. -/
theorem length_lt (inv : HeapInv S h bin used) : (bin ++ used).length < walkFuel := by
  have hsub : (bin ++ used).map Extent.addr ⊆ List.range' S.base S.len := by
    intro a ha
    obtain ⟨e, he, rfl⟩ := List.mem_map.mp ha
    have hb := inv.bounds he
    have htop := inv.top_le
    refine List.mem_range'_1.mpr ?_
    unfold Range.limit Extent.fin at *
    omega
  have hlen := (List.subperm_of_subset inv.tiles.nodup_addr hsub).length_le
  have := S.fits
  unfold walkFuel
  simp only [List.length_map, List.length_range'] at hlen
  omega

theorem bin_length (inv : HeapInv S h bin used) : bin.length < walkFuel := by
  have := inv.length_lt
  rw [List.length_append] at this
  omega

/-- Headers and links are all the invariant reads. -/
theorem frame (inv : HeapInv S h bin used) (harena : h'.arena = h.arena)
    (hbin : ∀ e ∈ bin, ∀ a, e.addr ≤ a → a < e.addr + 24 → h'.mem a = h.mem a)
    (hused : ∀ e ∈ used, ∀ a, e.addr ≤ a → a < e.addr + 8 → h'.mem a = h.mem a) :
    HeapInv S h' bin used where
  minAddr := by rw [harena, inv.minAddr]
  limit := by rw [harena, inv.limit]
  threaded := by
    rw [harena]
    exact inv.threaded.frame hbin
  sorted := inv.sorted
  small := inv.small
  stored e he := by
    rw [← inv.stored e he]
    exact load64_congr fun a h₁ h₂ => hused e he a h₁ h₂
  tiles := by
    rw [harena]
    exact inv.tiles
  shape := inv.shape
  top := by
    rw [harena]
    exact inv.top

/-- Bytes behind the headers of chunks in use are the users', and what lies
outside the arena is not the allocator's. -/
theorem write (inv : HeapInv S h bin used) {m' : Mem}
    (hm : ∀ a, S.base ≤ a ∧ a < S.limit → ¬ Payload used a → m' a = h.mem a) :
    HeapInv S { h with mem := m' } bin used := by
  have hin : ∀ {e}, e ∈ bin ++ used → ∀ {a}, e.addr ≤ a → a < e.addr + 24 →
      (S.base ≤ a ∧ a < S.limit) ∧ e.Has a := by
    intro e he a h₁ h₂
    have hb := inv.bounds he
    have htop := inv.top_le
    unfold Extent.Has
    unfold Extent.fin at *
    omega
  refine inv.frame rfl (fun e he a h₁ h₂ => ?_) fun e he a h₁ h₂ => ?_
  · obtain ⟨hspan, hea⟩ := hin (List.mem_append_left used he) h₁ h₂
    refine hm a hspan ?_
    rintro ⟨f, hf, h₃, h₄⟩
    have hap := (List.pairwise_append.mp inv.tiles.apart).2.2 e he f hf
    exact hap.not_has hea ⟨by omega, h₄⟩
  · obtain ⟨hspan, hea⟩ := hin (List.mem_append_right bin he) h₁ (by omega)
    refine hm a hspan ?_
    rintro ⟨f, hf, h₃, h₄⟩
    by_cases hfe : e = f
    · subst hfe
      omega
    · have hap := Extent.apart_of_mem inv.tiles.apart (List.mem_append_right bin he)
        (List.mem_append_right bin hf) hfe
      exact hap.not_has hea ⟨by omega, h₄⟩

/-- The order in which the used chunks are listed does not matter. -/
theorem perm_used (inv : HeapInv S h bin used) {used' : List Extent} (hp : used.Perm used') :
    HeapInv S h bin used' where
  minAddr := inv.minAddr
  limit := inv.limit
  threaded := inv.threaded
  sorted := inv.sorted
  small := inv.small
  stored e he := inv.stored e (hp.mem_iff.mpr he)
  tiles := inv.tiles.perm (hp.append_left bin)
  shape e he := inv.shape e ((hp.append_left bin).mem_iff.mpr he)
  top := inv.top

end HeapInv

end BpfExamples.Kvm
