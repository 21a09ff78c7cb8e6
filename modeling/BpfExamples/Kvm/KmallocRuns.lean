import BpfExamples.Kvm.KmallocSpec

/-!
# Runs of the allocator and its clients

A client allocates, frees what it still holds, and writes inside the blocks it
holds. Addresses are virtual and each is its own cell (`flat`): the arena lies
at `0x8000000000` or above, and `kmalloc` clears a null block over addresses
below 4 GB.

- `heap_represented`: in every state of every run the chunks tile the arena up
  to `top`, the bin is a finite sorted list of the free ones, and the next call
  does not panic.
- `kmalloc_client`: what a block is worth to its owner.
-/

namespace BpfExamples.Kvm

open Mem

/-- A pointer `kmalloc` returned, with the length that was asked for. -/
structure Block where
  mem : Nat
  len : Nat
deriving DecidableEq, Repr

/-- `a` is one of the bytes the client owns. -/
def Block.Has (b : Block) (a : Nat) : Prop := b.mem ≤ a ∧ a < b.mem + b.len

/-- The allocator together with the blocks its clients hold. -/
structure HeapRun where
  heap : Heap
  live : List Block

/-- What a client can do. -/
inductive HeapOp
  | kmalloc (len align : Nat)
  | kfree (mem : Nat)
  | write (a : Nat) (b : UInt8)

namespace HeapRun

/-- One call, or one byte written. -/
def step (s : HeapRun) : HeapOp → Exec HeapRun
  | .kmalloc len align => do
    let (h, p) ← Kvm.kmalloc flat s.heap len align
    return ⟨h, if p = 0 then s.live else ⟨p, len⟩ :: s.live⟩
  | .kfree mem => do
    let h ← Kvm.kfree s.heap mem
    return ⟨h, s.live.filter (·.mem ≠ mem)⟩
  | .write a b => .ok ⟨{ s.heap with mem := Function.update s.heap.mem a b }, s.live⟩

/-- The calls and writes a client may make. -/
def Allowed (s : HeapRun) : HeapOp → Prop
  | .kmalloc len align => len < 2 ^ 64 ∧ (align = mallocNoAlign ∨ align = mallocPageAlign)
  | .kfree mem => mem = 0 ∨ ∃ b ∈ s.live, b.mem = mem
  | .write a _ => ∃ b ∈ s.live, b.Has a

instance decidableAllowed : ∀ (s : HeapRun) (op : HeapOp), Decidable (s.Allowed op)
  | _, .kmalloc _ _ => inferInstanceAs (Decidable (_ ∧ _))
  | s, .kfree mem => inferInstanceAs (Decidable (mem = 0 ∨ ∃ b ∈ s.live, b.mem = mem))
  | s, .write a _ => inferInstanceAs (Decidable (∃ b ∈ s.live, b.mem ≤ a ∧ a < b.mem + b.len))

/-- A fresh arena on `S`, in a memory with any content. -/
def Start (S : Range) (s : HeapRun) : Prop :=
  (∃ m, initAllocator m S.base S.len = .ok s.heap) ∧ s.live = []

/-- The states of all runs on `S`. -/
abbrev Reachable (S : Range) : HeapRun → Prop := Reach (Start S) Allowed step

end HeapRun

/-- The chunk at `c`, with the size its header stores. -/
def chunkAt (m : Mem) (c : Nat) : Extent := ⟨c, sizeOf m c⟩

/-- The chunk of a live block. -/
def liveChunk (m : Mem) (b : Block) : Extent := chunkAt m (mem2chunk b.mem)

/-- The invariant of the runs. -/
structure RunInv (S : Range) (s : HeapRun) (bin : List Extent) : Prop where
  heap : HeapInv S s.heap bin (s.live.map (liveChunk s.heap.mem))
  fits : ∀ b ∈ s.live, 16 ≤ b.mem ∧ b.len + 16 ≤ (liveChunk s.heap.mem b).size

namespace RunInv

variable {S : Range} {s : HeapRun} {bin : List Extent} {b : Block}

/-- Chunks whose headers were kept are the same chunks. -/
theorem map_liveChunk {m m' : Mem} {live : List Block}
    (h : ∀ e ∈ live.map (liveChunk m), sizeOf m' e.addr = e.size) :
    live.map (liveChunk m') = live.map (liveChunk m) := by
  refine List.map_congr_left fun b hb => ?_
  have := h _ (List.mem_map_of_mem hb)
  exact congrArg (Extent.mk (mem2chunk b.mem)) this

theorem chunk_mem (hb : b ∈ s.live) :
    liveChunk s.heap.mem b ∈ bin ++ s.live.map (liveChunk s.heap.mem) :=
  List.mem_append_right _ (List.mem_map_of_mem hb)

theorem mem_eq (inv : RunInv S s bin) (hb : b ∈ s.live) :
    (liveChunk s.heap.mem b).addr + 16 = b.mem :=
  Nat.sub_add_cancel (inv.fits b hb).1

/-- A live block lies in its chunk, behind the header. -/
theorem has_chunk (inv : RunInv S s bin) (hb : b ∈ s.live) {a : Nat} (ha : b.Has a) :
    (liveChunk s.heap.mem b).addr + 16 ≤ a ∧ (liveChunk s.heap.mem b).Has a := by
  have h₁ := inv.mem_eq hb
  have h₂ := (inv.fits b hb).2
  unfold Block.Has at ha
  unfold Extent.Has Extent.fin
  omega

/-- No two live blocks share a pointer. -/
theorem nodup_mem (inv : RunInv S s bin) : (s.live.map Block.mem).Nodup := by
  have h := inv.heap.tiles.nodup_addr
  rw [List.map_append, List.map_map] at h
  have h' := (List.nodup_append.mp h).2.1
  refine List.pairwise_map.mpr ((List.pairwise_map.mp h').imp fun {b c} hbc heq => hbc ?_)
  show mem2chunk b.mem = mem2chunk c.mem
  rw [heq]

/-- Giving a block back takes exactly that block out of the live ones. -/
theorem perm_filter : ∀ {live : List Block}, (live.map Block.mem).Nodup → b ∈ live →
    live.Perm (b :: live.filter (·.mem ≠ b.mem))
  | c :: live, hnd, hb => by
    rw [List.map_cons, List.nodup_cons] at hnd
    by_cases hbc : b = c
    · subst hbc
      have hrest : live.filter (·.mem ≠ b.mem) = live := by
        refine List.filter_eq_self.mpr fun d hd => ?_
        have : d.mem ≠ b.mem := fun heq => hnd.1 (heq ▸ List.mem_map_of_mem hd)
        simpa using this
      rw [List.filter_cons_of_neg (by simp), hrest]
    · have hb' : b ∈ live := (List.mem_cons.mp hb).resolve_left hbc
      have hne : c.mem ≠ b.mem := fun heq => hnd.1 (heq ▸ List.mem_map_of_mem hb')
      rw [List.filter_cons_of_pos (by simpa using hne)]
      exact ((perm_filter hnd.2 hb').cons c).trans (List.Perm.swap _ _ _)

end RunInv

/-! ## One step -/

section

variable {S : Range} {s : HeapRun} {bin : List Extent}

/-- A null result of `kmalloc` leaves the arena as it was, since the addresses
it clears are below 4 GB. -/
theorem memset_null_flat (S : Range) (m : Mem) {len : Nat} (hlen : len < 2 ^ 32) :
    ∃ m', memset flat m 0 0 len = .ok m' ∧ ∀ a, S.base ≤ a → m' a = m a := by
  have hbase := S.base_pos
  exact ⟨fill m 0 len 0, memset_shift fun _ _ => rfl, fun a ha => fill_of_notMem (by omega)⟩

/-- `kmalloc` in a run: it returns, with a block or without. -/
theorem kmalloc_run (inv : RunInv S s bin) (len align : Nat)
    (halign : align = mallocNoAlign ∨ align = mallocPageAlign) :
    (∃ h' c bin', kmalloc flat s.heap len align = .ok (h', c.addr + 16) ∧ len + 16 ≤ c.size ∧
      Served S s.heap h' (s.live.map (liveChunk s.heap.mem)) c bin' ∧
      (∀ a, c.addr + 16 ≤ a → a < c.addr + 16 + len → h'.mem a = 0) ∧
      (align = mallocPageAlign → (c.addr + 16) % 0x1000 = 0)) ∨
    ∃ h', kmalloc flat s.heap len align = .ok (h', 0) ∧ h'.arena = s.heap.arena ∧
      ∀ a, S.base ≤ a → a < s.heap.arena.top → h'.mem a = s.heap.mem a := by
  rcases kmalloc_spec len (isolated_flat S) inv.heap halign with
    ⟨h', c, bin', hok, hlen, -, hs, hzero, hal, -⟩ | ⟨-, hok⟩ | ⟨hlt, -, h₁, href, -, hok⟩
  · exact .inl ⟨h', c, bin', hok, hlen, hs, hzero, hal⟩
  · exact .inr ⟨s.heap, hok, rfl, fun _ _ _ => rfl⟩
  · obtain ⟨m, hset, hm⟩ := memset_null_flat S h₁.mem hlt
    refine .inr ⟨{ h₁ with mem := m }, ?_, href.arena, fun a ha₁ ha₂ => ?_⟩
    · rw [hok, hset]
      rfl
    · rw [show ({ h₁ with mem := m } : Heap).mem a = m a from rfl, hm a ha₁]
      exact href.mem a (.inl ha₂)

/-- The blocks that stay have the chunks they had. -/
def KeepsChunks (s s' : HeapRun) : Prop :=
  ∀ b ∈ s'.live, b ∈ s.live → liveChunk s'.heap.mem b = liveChunk s.heap.mem b

/-- A heap that still represents some of the blocks, with their chunks. -/
theorem RunInv.of_live (inv : RunInv S s bin) {s' : HeapRun} {bin' : List Extent}
    (hsub : s'.live ⊆ s.live)
    (hheap : HeapInv S s'.heap bin' (s'.live.map (liveChunk s.heap.mem))) :
    RunInv S s' bin' ∧ KeepsChunks s s' := by
  have hsame := RunInv.map_liveChunk hheap.stored
  have hchunk : ∀ b ∈ s'.live, liveChunk s'.heap.mem b = liveChunk s.heap.mem b :=
    List.map_inj_left.mp hsame
  refine ⟨⟨hsame.symm ▸ hheap, fun b hb => ?_⟩, fun b hb _ => hchunk b hb⟩
  rw [hchunk b hb]
  exact inv.fits b (hsub hb)

/-- A heap whose chunks were not written represents the same blocks. -/
theorem RunInv.of_chunks (inv : RunInv S s bin) {h' : Heap} (harena : h'.arena = s.heap.arena)
    (hm : ∀ a, S.base ≤ a → a < s.heap.arena.top → h'.mem a = s.heap.mem a) :
    RunInv S ⟨h', s.live⟩ bin ∧ KeepsChunks s ⟨h', s.live⟩ := by
  refine inv.of_live (List.Subset.refl _) ?_
  refine inv.heap.frame harena (fun e he a h₁ h₂ => hm a ?_ ?_) fun e he a h₁ h₂ => hm a ?_ ?_
  all_goals
    first
      | have hb := inv.heap.bounds (List.mem_append_left _ he)
      | have hb := inv.heap.bounds (List.mem_append_right _ he)
    unfold Extent.fin at hb
    omega

/-- A block that was served joins the live ones. -/
theorem RunInv.served (inv : RunInv S s bin) {h' : Heap} {c : Extent} {bin' : List Extent}
    {len : Nat} (hs : Served S s.heap h' (s.live.map (liveChunk s.heap.mem)) c bin')
    (hlen : len + 16 ≤ c.size) :
    RunInv S ⟨h', ⟨c.addr + 16, len⟩ :: s.live⟩ bin' ∧
      KeepsChunks s ⟨h', ⟨c.addr + 16, len⟩ :: s.live⟩ ∧
      liveChunk h'.mem ⟨c.addr + 16, len⟩ = c := by
  have hsame := RunInv.map_liveChunk fun e he => hs.inv.stored e (List.mem_cons_of_mem _ he)
  have hnew : liveChunk h'.mem ⟨c.addr + 16, len⟩ = c := by
    have := hs.inv.stored c List.mem_cons_self
    exact congrArg (Extent.mk c.addr) this
  refine ⟨⟨?_, fun b hb => ?_⟩, fun b _ hb => List.map_inj_left.mp hsame b hb, hnew⟩
  · rw [List.map_cons, hnew, hsame]
    exact hs.inv
  · rcases List.mem_cons.mp hb with rfl | hb
    · rw [hnew]
      exact ⟨Nat.le_add_left _ _, hlen⟩
    · rw [List.map_inj_left.mp hsame b hb]
      exact inv.fits b hb

theorem RunInv.kmalloc_step (inv : RunInv S s bin) {len align : Nat}
    (halign : align = mallocNoAlign ∨ align = mallocPageAlign) :
    ∃ s' bin', s.step (.kmalloc len align) = .ok s' ∧ RunInv S s' bin' ∧ KeepsChunks s s' := by
  rcases kmalloc_run inv len align halign with
    ⟨h', c, bin', hok, hlen, hs, -, -⟩ | ⟨h', hok, harena, hm⟩
  · obtain ⟨hinv, hkeep, -⟩ := inv.served hs hlen
    refine ⟨⟨h', ⟨c.addr + 16, len⟩ :: s.live⟩, bin', ?_, hinv, hkeep⟩
    rw [HeapRun.step, hok]
    rfl
  · refine ⟨⟨h', s.live⟩, bin, ?_, inv.of_chunks harena hm⟩
    rw [HeapRun.step, hok]
    rfl

/-- Listing the chunk of a live block first. -/
theorem RunInv.pick (inv : RunInv S s bin) {b : Block} (hb : b ∈ s.live) :
    HeapInv S s.heap bin (liveChunk s.heap.mem b ::
      (s.live.filter (·.mem ≠ b.mem)).map (liveChunk s.heap.mem)) :=
  inv.heap.perm_used ((RunInv.perm_filter inv.nodup_mem hb).map _)

theorem RunInv.kfree_step (inv : RunInv S s bin) {b : Block} (hb : b ∈ s.live)
    (hlt : (liveChunk s.heap.mem b).size < 2 ^ 32) :
    ∃ s' bin', s.step (.kfree b.mem) = .ok s' ∧ RunInv S s' bin' ∧ KeepsChunks s s' := by
  obtain ⟨h', bin', hok, hinv, -, -⟩ := kfree_spec (inv.pick hb) hlt
  rw [inv.mem_eq hb] at hok
  refine ⟨⟨h', s.live.filter (·.mem ≠ b.mem)⟩, bin', ?_, inv.of_live ?_ hinv⟩
  · rw [HeapRun.step, hok]
    rfl
  · exact fun d hd => List.mem_of_mem_filter hd

/-- A block of 4 GB or more cannot be given back. -/
theorem RunInv.kfree_huge (inv : RunInv S s bin) {b : Block} (hb : b ∈ s.live)
    (hge : 2 ^ 32 ≤ (liveChunk s.heap.mem b).size) :
    kfree s.heap b.mem = .error (.panic .kfreeSize) := by
  have hmem := (inv.fits b hb).1
  have hinvalid : invalidChunkSize (sizeOf s.heap.mem (mem2chunk b.mem)) = true := by
    have hge' : 2 ^ 32 ≤ sizeOf s.heap.mem (mem2chunk b.mem) := hge
    simp only [invalidChunkSize, Bool.or_eq_true, decide_eq_true_eq]
    exact .inl (.inr hge')
  rw [kfree, if_neg (by omega)]
  exact if_pos hinvalid

theorem RunInv.kfree_null (inv : RunInv S s bin) : s.step (.kfree 0) = .ok s := by
  have hlive : s.live.filter (·.mem ≠ 0) = s.live := by
    refine List.filter_eq_self.mpr fun b hb => ?_
    have := (inv.fits b hb).1
    simp only [ne_eq, decide_not, Bool.not_eq_eq_eq_not, Bool.not_true, decide_eq_false_iff_not]
    omega
  show (do let h ← kfree s.heap 0; return (⟨h, s.live.filter (·.mem ≠ 0)⟩ : HeapRun)) = .ok s
  rw [hlive]
  rfl

theorem RunInv.write_step (inv : RunInv S s bin) {a : Nat} {v : UInt8}
    (ha : ∃ b ∈ s.live, b.Has a) :
    ∃ s', s.step (.write a v) = .ok s' ∧ RunInv S s' bin ∧ KeepsChunks s s' := by
  obtain ⟨b, hb, hba⟩ := ha
  have hown := inv.has_chunk hb hba
  refine ⟨_, rfl, inv.of_live (List.Subset.refl _) ?_⟩
  refine inv.heap.write fun x _ hx => ?_
  refine Function.update_of_ne (fun heq => hx ?_) _ _
  rw [heq]
  exact ⟨_, List.mem_map_of_mem hb, hown.1, hown.2.2⟩

/-- **Every allowed step returns and keeps the invariant**, except that `kfree` does not take
back a block of 4 GB. -/
theorem RunInv.step_cases (inv : RunInv S s bin) {op : HeapOp} (hop : s.Allowed op) :
    (∃ s' bin', s.step op = .ok s' ∧ RunInv S s' bin' ∧ KeepsChunks s s') ∨
      ∃ b ∈ s.live, op = .kfree b.mem ∧ 2 ^ 32 ≤ (liveChunk s.heap.mem b).size ∧
        s.step op = .error (.panic .kfreeSize) := by
  cases op with
  | kmalloc len align => exact .inl (inv.kmalloc_step hop.2)
  | kfree mem =>
    rcases hop with rfl | ⟨b, hb, rfl⟩
    · exact .inl ⟨s, bin, inv.kfree_null, inv, fun _ _ _ => rfl⟩
    · by_cases hlt : (liveChunk s.heap.mem b).size < 2 ^ 32
      · exact .inl (inv.kfree_step hb hlt)
      · refine .inr ⟨b, hb, rfl, Nat.le_of_not_lt hlt, ?_⟩
        rw [HeapRun.step, inv.kfree_huge hb (Nat.le_of_not_lt hlt)]
        rfl
  | write a v =>
    obtain ⟨s', hs, hinv⟩ := inv.write_step hop
    exact .inl ⟨s', bin, hs, hinv⟩

/-- **Every step that returns keeps the invariant.** -/
theorem RunInv.step_ok (inv : RunInv S s bin) {op : HeapOp} (hop : s.Allowed op) {s' : HeapRun}
    (hs : s.step op = .ok s') : ∃ bin', RunInv S s' bin' ∧ KeepsChunks s s' := by
  rcases inv.step_cases hop with ⟨s₁, bin₁, hs₁, hinv⟩ | ⟨b, -, -, -, herr⟩
  · obtain rfl : s₁ = s' := Except.ok.inj (hs₁.symm.trans hs)
    exact ⟨bin₁, hinv⟩
  · exact absurd (herr.symm.trans hs) nofun

/-- In an arena no longer than the window every allowed step returns. -/
theorem RunInv.step {S : Span} (inv : RunInv S s bin) {op : HeapOp} (hop : s.Allowed op) :
    ∃ s' bin', s.step op = .ok s' ∧ RunInv S s' bin' := by
  rcases inv.step_cases hop with ⟨s', bin', hs, hinv, -⟩ | ⟨b, hb, -, hge, -⟩
  · exact ⟨s', bin', hs, hinv⟩
  · exact absurd (inv.heap.size_lt (RunInv.chunk_mem hb)) (Nat.not_lt.mpr hge)

theorem runInv_start {s : HeapRun} (h : HeapRun.Start S s) : RunInv S s [] := by
  obtain ⟨⟨m, hm⟩, hlive⟩ := h
  have hand : S.len &&& 0xfff = S.len % 0x1000 := Nat.and_two_pow_sub_one_eq_mod S.len 12
  have h₁ := S.nonzero
  rw [initAllocator, if_neg (by rw [hand, S.whole]; omega)] at hm
  have heq : (⟨m, ⟨S.base, S.len, S.base, 0⟩⟩ : Heap) = s.heap := Except.ok.inj hm
  refine ⟨?_, fun b hb => by simp [hlive] at hb⟩
  rw [hlive, List.map_nil, ← heq]
  exact HeapInv.init S m

theorem runInv_of_reachable (hr : HeapRun.Reachable S s) : ∃ bin, RunInv S s bin := by
  refine hr.inv (I := fun s => ∃ bin, RunInv S s bin) (fun s h => ⟨[], runInv_start h⟩) ?_
  rintro s op s' ⟨bin, inv⟩ hop hs
  obtain ⟨bin', hinv, -⟩ := inv.step_ok hop hs
  exact ⟨bin', hinv⟩

end

/-! ## The heap in every reachable state -/

/-- How a heap looks from outside: `bin` are the addresses on `sorted_bin`. The
chunks are taken with the sizes their headers store. -/
structure Represents (S : Range) (s : HeapRun) (bin : List Nat) : Prop where
  tiles : Tiles s.heap.arena.minAddr s.heap.arena.top
    ((bin ++ s.live.map fun b => mem2chunk b.mem).map (chunkAt s.heap.mem))
  minAddr : s.heap.arena.minAddr = S.base
  limit : s.heap.arena.top + s.heap.arena.topSize = S.base + S.len
  sizes : ∀ c ∈ bin ++ s.live.map fun b => mem2chunk b.mem,
    sizeOf s.heap.mem c ≠ 0 ∧ sizeOf s.heap.mem c % 16 = 0
  list : Seg (nextOf s.heap.mem) s.heap.arena.sortedBin bin 0
  nodup : bin.Nodup
  ascending : bin.Pairwise fun c d => sizeOf s.heap.mem c ≤ sizeOf s.heap.mem d

theorem RunInv.represents {S : Range} {s : HeapRun} {bin : List Extent} (inv : RunInv S s bin) :
    Represents S s (bin.map Extent.addr) := by
  have hbin : (bin.map Extent.addr).map (chunkAt s.heap.mem) = bin := by
    rw [List.map_map]
    refine (List.map_congr_left fun e he => ?_).trans (List.map_id bin)
    exact congrArg (Extent.mk e.addr) (inv.heap.threaded.stored e he)
  have hall : ((bin.map Extent.addr ++ s.live.map fun b => mem2chunk b.mem).map
      (chunkAt s.heap.mem)) = bin ++ s.live.map (liveChunk s.heap.mem) := by
    rw [List.map_append, hbin, List.map_map]
    rfl
  have hnd := inv.heap.tiles.nodup_addr
  rw [List.map_append] at hnd
  refine ⟨?_, inv.heap.minAddr, inv.heap.limit, fun c hc => ?_, inv.heap.threaded.chain,
    (List.nodup_append.mp hnd).1, ?_⟩
  · rw [hall, inv.heap.minAddr]
    exact inv.heap.tiles
  · have hmem : chunkAt s.heap.mem c ∈ bin ++ s.live.map (liveChunk s.heap.mem) :=
      hall ▸ List.mem_map_of_mem hc
    have h₁ := inv.heap.tiles.pos _ hmem
    have h₂ := (inv.heap.shape _ hmem).size
    unfold Boundary at h₂
    simp only [chunkAt] at h₁ h₂
    omega
  · refine List.pairwise_map.mpr (inv.heap.sorted.imp_of_mem fun {e f} he hf hle => ?_)
    rw [inv.heap.threaded.stored e he, inv.heap.threaded.stored f hf]
    exact hle

/-- **The representation invariant of the heap.** In every state that calls of
`kmalloc` and `kfree` and writes into live blocks lead to, the live chunks and
the chunks on `sorted_bin` tile `[min_addr, top)` with the sizes their headers
store, `top + top_size` is the end of the arena, the bin is a finite list
without repetition in ascending size order, and no further call stops the
kernel. -/
theorem heap_represented (S : Span) (s : HeapRun) (hr : HeapRun.Reachable S s) :
    (∃ bin, Represents S s bin) ∧
      ∀ op, s.Allowed op → ∃ s', s.step op = .ok s' := by
  obtain ⟨bin, inv⟩ := runInv_of_reachable hr
  refine ⟨⟨_, inv.represents⟩, fun op hop => ?_⟩
  obtain ⟨s', -, hs, -⟩ := inv.step hop
  exact ⟨s', hs⟩

/-- A block of 16 bytes, and the arena right after it was handed out. -/
theorem heap_represented_one_block :
    ∃ s, HeapRun.Reachable kernelSpan s ∧ s.live = [⟨0x8000200010, 0x10⟩] ∧
      ((∃ bin, Represents kernelSpan s bin) ∧
        ∀ op, s.Allowed op → ∃ s', s.step op = .ok s') := by
  let s₀ : HeapRun := ⟨⟨fun _ => 0, ⟨0x8000200000, 0x200000, 0x8000200000, 0⟩⟩, []⟩
  have h₀ : HeapRun.Reachable kernelSpan s₀ := .start ⟨⟨fun _ => 0, rfl⟩, rfl⟩
  have hop : s₀.Allowed (.kmalloc 0x10 mallocNoAlign) := ⟨by decide, .inl rfl⟩
  have h₁ := Reach.step h₀ hop rfl
  exact ⟨_, h₁, rfl, heap_represented kernelSpan _ h₁⟩

/-! ## What a client gets -/

section

variable {S : Range} {s : HeapRun} {bin bin' : List Extent} {h : Heap} {c : Extent}
  {len align : Nat}

/-- A block that is handed out, to its owner and to the others. -/
theorem RunInv.served_client (inv : RunInv S s bin)
    (hs : Served S s.heap h (s.live.map (liveChunk s.heap.mem)) c bin')
    (hlen : len + 16 ≤ c.size)
    (hzero : ∀ a, c.addr + 16 ≤ a → a < c.addr + 16 + len → h.mem a = 0)
    (hal : align = mallocPageAlign → (c.addr + 16) % 0x1000 = 0) :
    (c.addr + 16 ≠ 0 → S.base ≤ c.addr + 16 ∧ c.addr + 16 + len ≤ S.base + S.len ∧
      (∀ b ∈ s.live, ∀ a, b.Has a → ¬ (c.addr + 16 ≤ a ∧ a < c.addr + 16 + len)) ∧
      (∀ a, c.addr + 16 ≤ a → a < c.addr + 16 + len → h.mem a = 0) ∧
      (align = mallocPageAlign → (c.addr + 16) % 0x1000 = 0)) ∧
    ∀ b ∈ s.live, ∀ a, b.Has a → h.mem a = s.heap.mem a := by
  have hcin : c ∈ bin' ++ c :: s.live.map (liveChunk s.heap.mem) := by simp
  have hcb := hs.inv.bounds hcin
  have htop := hs.inv.top_le
  unfold Extent.fin at hcb
  unfold Range.limit at htop
  refine ⟨fun _ => ⟨by omega, by omega, fun b hb a ha hpa => ?_, hzero, hal⟩,
    fun b hb a ha => ?_⟩
  · have hap := (List.pairwise_cons.mp (hs.inv.tiles.perm List.perm_middle).apart).1
      (liveChunk s.heap.mem b) (RunInv.chunk_mem hb)
    refine hap.not_has ⟨?_, ?_⟩ (inv.has_chunk hb ha).2
    · omega
    · unfold Extent.fin
      omega
  · exact hs.untouched.used _ (List.mem_map_of_mem hb) a (inv.has_chunk hb ha).2

/-- A request that is turned down, to the others. -/
theorem RunInv.null_client (inv : RunInv S s bin)
    (hm : ∀ a, S.base ≤ a → a < s.heap.arena.top → h.mem a = s.heap.mem a) :
    ∀ b ∈ s.live, ∀ a, b.Has a → h.mem a = s.heap.mem a := by
  intro b hb a ha
  have hcb := inv.heap.bounds (RunInv.chunk_mem hb)
  have hhas := (inv.has_chunk hb ha).2
  unfold Extent.Has at hhas
  exact hm a (by omega) (by omega)

/-- A block that is given back, to the others. -/
theorem RunInv.kfree_client {S : Span} (inv : RunInv S s bin) {b : Block} (hb : b ∈ s.live) :
    ∃ h, kfree s.heap b.mem = .ok h ∧
      ∀ d ∈ s.live, d ≠ b → ∀ a, d.Has a → h.mem a = s.heap.mem a := by
  obtain ⟨h, bin', hok, -, hun, -⟩ :=
    kfree_spec (inv.pick hb) (inv.heap.size_lt (RunInv.chunk_mem hb))
  rw [inv.mem_eq hb] at hok
  refine ⟨h, hok, fun d hd hdb a ha => ?_⟩
  have hne : d.mem ≠ b.mem := fun heq => hdb (List.inj_on_of_nodup_map inv.nodup_mem hd hb heq)
  have hmem : d ∈ s.live.filter (·.mem ≠ b.mem) := List.mem_filter.mpr ⟨hd, by simpa using hne⟩
  exact hun.used _ (List.mem_map_of_mem hmem) a (inv.has_chunk hd ha).2

end

/-- **The client's guarantee.** From every reachable state `kmalloc` returns. A
block it hands out lies in the arena, overlaps no live block, is zero, and is
page-aligned when that was asked for. Neither `kmalloc` nor `kfree` of a live
pointer changes a byte of another live block. -/
theorem kmalloc_client (S : Span) (s : HeapRun) (hr : HeapRun.Reachable S s) :
    (∀ len align, align = mallocNoAlign ∨ align = mallocPageAlign →
      ∃ h p, kmalloc flat s.heap len align = .ok (h, p) ∧
        (p ≠ 0 → S.base ≤ p ∧ p + len ≤ S.base + S.len ∧
          (∀ b ∈ s.live, ∀ a, b.Has a → ¬ (p ≤ a ∧ a < p + len)) ∧
          (∀ a, p ≤ a → a < p + len → h.mem a = 0) ∧
          (align = mallocPageAlign → p % 0x1000 = 0)) ∧
        ∀ b ∈ s.live, ∀ a, b.Has a → h.mem a = s.heap.mem a) ∧
    ∀ b ∈ s.live, ∃ h, kfree s.heap b.mem = .ok h ∧
      ∀ d ∈ s.live, d ≠ b → ∀ a, d.Has a → h.mem a = s.heap.mem a := by
  obtain ⟨bin, inv⟩ := runInv_of_reachable hr
  refine ⟨fun len align halign => ?_, fun b hb => inv.kfree_client hb⟩
  rcases kmalloc_run inv len align halign with
    ⟨h, c, bin', hok, hlen, hs, hzero, hal⟩ | ⟨h, hok, -, hm⟩
  · exact ⟨h, c.addr + 16, hok, inv.served_client hs hlen hzero hal⟩
  · exact ⟨h, 0, hok, fun hne => absurd rfl hne, inv.null_client hm⟩

/-- A fresh arena in a memory full of the byte `b`. -/
def freshRun (S : Range) (b : UInt8) : HeapRun := ⟨⟨fun _ => b, ⟨S.base, S.len, S.base, 0⟩⟩, []⟩

theorem freshRun_start (S : Range) (b : UInt8) : HeapRun.Start S (freshRun S b) := by
  refine ⟨⟨fun _ => b, if_neg ?_⟩, rfl⟩
  have hand : S.len &&& 0xfff = S.len % 0x1000 := Nat.and_two_pow_sub_one_eq_mod S.len 12
  have := S.nonzero
  rw [hand, S.whole]
  omega

theorem freshRun_reachable (S : Range) (b : UInt8) : HeapRun.Reachable S (freshRun S b) :=
  .start (freshRun_start S b)

/-- A block with something in it, while another one is asked for. -/
theorem kmalloc_client_second :
    ∃ s : HeapRun, HeapRun.Reachable kernelSpan s ∧ s.live = [⟨0x8000200010, 0x10⟩] ∧
      s.heap.mem 0x8000200011 = 9 ∧
      (∃ h, kmalloc flat s.heap 0x10 mallocPageAlign = .ok (h, 0x8000201000) ∧
        (∀ a, 0x8000201000 ≤ a → a < 0x8000201010 → h.mem a = 0) ∧ h.mem 0x8000200011 = 9) ∧
      ∃ h, kfree s.heap 0x8000200010 = .ok h := by
  have hrun : (runAlong HeapRun.Allowed HeapRun.step (freshRun kernelSpan 7)
      [.kmalloc 0x10 mallocNoAlign, .write 0x8000200011 9]).map
        (fun s => (s.live, s.heap.mem 0x8000200011,
          (kmalloc flat s.heap 0x10 mallocPageAlign).map Prod.snd)) =
      some ([⟨0x8000200010, 0x10⟩], 9, .ok 0x8000201000) := by decide +kernel
  obtain ⟨s, halong, hs⟩ := Option.map_eq_some_iff.mp hrun
  obtain ⟨hlive, hbyte, hval⟩ : s.live = [⟨0x8000200010, 0x10⟩] ∧ s.heap.mem 0x8000200011 = 9 ∧
      (kmalloc flat s.heap 0x10 mallocPageAlign).map Prod.snd = .ok 0x8000201000 := by
    simpa using hs
  have hr := Reach.of_runAlong (freshRun_reachable kernelSpan 7) halong
  have hb : (⟨0x8000200010, 0x10⟩ : Block) ∈ s.live := hlive ▸ List.mem_singleton_self _
  obtain ⟨hkmalloc, hkfree⟩ := kmalloc_client kernelSpan s hr
  obtain ⟨h, p, hok, hp, hkept⟩ := hkmalloc 0x10 mallocPageAlign (.inr rfl)
  rw [hok] at hval
  obtain rfl : p = 0x8000201000 := Except.ok.inj hval
  obtain ⟨h', hfree, -⟩ := hkfree _ hb
  have hsame := hkept _ hb 0x8000200011 ⟨by decide, by decide⟩
  exact ⟨s, hr, hlive, hbyte, ⟨h, hok, (hp (by decide)).2.2.2.1, hsame.trans hbyte⟩, h', hfree⟩

end BpfExamples.Kvm
