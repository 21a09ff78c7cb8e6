import BpfExamples.Kvm.KmallocSpec

/-!
# What the heap's memory shows

The chunks of a heap, read off its memory: `allChunks` goes from header to header,
`freeChunks` along `sorted_bin`, and the rest is live. Where the invariant holds, these are the
lists it speaks of, so that the unused memory is what the live chunks leave over
(`freeTotal_eq`).

`RoomFor`, `RoomOnPage` and `RoomAfter` say on the free chunks and the unused area of a heap
which requests it can serve.
-/

namespace BpfExamples.Kvm

open Mem

variable {S : Range} {h h' : Heap} {bin used : List Extent} {m : Mem}

/-- The chunks from the header at an address up to `hi`, for at most `fuel` of them. -/
def chunksFrom (m : Mem) (hi : Nat) : Nat → Nat → List Extent
  | 0, _ => []
  | fuel + 1, a => if hi ≤ a then []
    else ⟨a, sizeOf m a⟩ :: chunksFrom m hi fuel (a + sizeOf m a)

/-- The chunks along the links from `c` on. -/
def binFrom (m : Mem) : Nat → Nat → List Extent
  | 0, _ => []
  | fuel + 1, c => if c = 0 then [] else ⟨c, sizeOf m c⟩ :: binFrom m fuel (nextOf m c)

def allChunks (h : Heap) : List Extent := chunksFrom h.mem h.arena.top walkFuel h.arena.minAddr

def freeChunks (h : Heap) : List Extent := binFrom h.mem walkFuel h.arena.sortedBin

/-- The chunks that are in use. -/
def liveChunks (h : Heap) : List Extent :=
  (allChunks h).filter fun e => !(freeChunks h).contains e

/-- `top_size` and the sizes in `sorted_bin`. -/
def freeTotal (h : Heap) : Nat := h.arena.topSize + ((freeChunks h).map Extent.size).sum

/-- `nb`, the size of the chunk for `len` bytes (kmalloc.c:113). -/
def chunkSize (len : Nat) : Nat := alignupTo (len + 16) 0x80

/-- There is a chunk for `nb` bytes: a free one that is large enough, or the unused area. -/
def RoomFor (h : Heap) (nb : Nat) : Prop :=
  (∃ e ∈ freeChunks h, nb ≤ e.size) ∨ nb ≤ h.arena.topSize

/-- There is one on a page of its own, behind a gap of the unused area. -/
def RoomOnPage (h : Heap) (nb : Nat) : Prop :=
  consume h.arena.top mallocPageAlign + nb ≤ h.arena.topSize

/-- The heap has a block for a request. -/
def Room (h : Heap) (len align : Nat) : Prop :=
  if align = mallocNoAlign then RoomFor h (chunkSize len) else RoomOnPage h (chunkSize len)

/-- The free chunk that a request for `nb` bytes is served from: the first that is large
enough. -/
def fitting (h : Heap) (nb : Nat) : Option Extent := (freeChunks h).find? fun e => nb ≤ e.size

/-- Once `nb` bytes are taken, there is a chunk for `nb'` more: another free one, or what is
left of the first that fits or of the unused area. -/
def RoomAfter (h : Heap) (nb nb' : Nat) : Prop :=
  match fitting h nb with
  | some e =>
    (∃ f ∈ freeChunks h, f ≠ e ∧ nb' ≤ f.size) ∨ nb + nb' ≤ e.size ∨ nb' ≤ h.arena.topSize
  | none => (∃ f ∈ freeChunks h, nb' ≤ f.size) ∨ nb + nb' ≤ h.arena.topSize

theorem mem_chunksFrom {hi : Nat} (fuel : Nat) : ∀ {lo : Nat} {l : List Extent}, Tiles lo hi l →
    (∀ e ∈ l, sizeOf m e.addr = e.size) → hi - lo < fuel → ∀ e, e ∈ chunksFrom m hi fuel lo ↔
      e ∈ l := by
  induction fuel with
  | zero => exact fun _ _ hf => absurd hf (Nat.not_lt_zero _)
  | succ fuel ih =>
    intro lo l ht hstored hf e
    rw [chunksFrom]
    by_cases hend : hi ≤ lo
    · obtain rfl : lo = hi := Nat.le_antisymm ht.le hend
      rw [if_pos hend, ht.eq_nil]
    · obtain ⟨c, l', hp, rfl⟩ := ht.first (Nat.lt_of_not_le hend)
      have hsize : sizeOf m c.addr = c.size := hstored c (hp.mem_iff.mpr List.mem_cons_self)
      have hpos := ht.pos c (hp.mem_iff.mpr List.mem_cons_self)
      have hrest := ih ((ht.perm hp).bottom rfl) (fun f hf =>
        hstored f (hp.mem_iff.mpr (List.mem_cons_of_mem _ hf))) (by unfold Extent.fin; omega) e
      rw [if_neg hend, hsize, List.mem_cons, hp.mem_iff, List.mem_cons]
      exact or_congr_right hrest

theorem binFrom_eq (fuel : Nat) :
    ∀ {head : Nat} {bin : List Extent}, Bin m head bin → (∀ e ∈ bin, e.addr ≠ 0) →
    bin.length < fuel → binFrom m fuel head = bin := by
  induction fuel with
  | zero => exact fun _ _ hf => absurd hf (Nat.not_lt_zero _)
  | succ fuel ih =>
    intro head bin hb hne hf
    cases bin with
    | nil => rw [binFrom, hb.head_eq, headAddr, if_pos rfl]
    | cons e bin =>
      have hsize := hb.stored e List.mem_cons_self
      have hrest := ih hb.tail (fun f hf => hne f (List.mem_cons_of_mem _ hf))
        (Nat.lt_of_succ_lt_succ hf)
      rw [binFrom, hb.head_eq, headAddr, if_neg (hne e List.mem_cons_self), hsize, hrest]

namespace HeapInv

theorem freeChunks_eq (inv : HeapInv S h bin used) : freeChunks h = bin := by
  refine binFrom_eq walkFuel inv.threaded (fun e he => ?_) inv.bin_length
  have hb := (inv.bounds (List.mem_append_left used he)).1
  have hbase := S.base_pos
  omega

theorem mem_allChunks (inv : HeapInv S h bin used) (e : Extent) :
    e ∈ allChunks h ↔ e ∈ bin ++ used := by
  have hlim := S.limit_lt
  have htop := inv.top_le
  rw [allChunks, inv.minAddr]
  refine mem_chunksFrom walkFuel inv.tiles (fun f hf => ?_) (by unfold walkFuel; omega) e
  rcases List.mem_append.mp hf with hf | hf
  · exact inv.threaded.stored f hf
  · exact inv.stored f hf

/-- **The live chunks** are those in use. -/
theorem mem_liveChunks (inv : HeapInv S h bin used) (e : Extent) :
    e ∈ liveChunks h ↔ e ∈ used := by
  have hnd : (bin ++ used).Nodup := List.Nodup.of_map _ inv.tiles.nodup_addr
  rw [liveChunks, List.mem_filter, inv.mem_allChunks, inv.freeChunks_eq]
  simp only [Bool.not_eq_true', List.contains_eq_mem, decide_eq_false_iff_not, List.mem_append]
  constructor
  · rintro ⟨hb | hu, hnot⟩
    · exact absurd hb hnot
    · exact hu
  · exact fun hu => ⟨.inr hu, fun hb => (List.nodup_append.mp hnd).2.2 e hb e hu rfl⟩

/-- **The unused memory** is what the live chunks leave over. -/
theorem freeTotal_eq (inv : HeapInv S h bin used) :
    freeTotal h + (used.map Extent.size).sum = S.len := by
  have hsum := inv.tiles.sum_size
  have hlimit := inv.limit
  rw [List.map_append, List.sum_append] at hsum
  rw [freeTotal, inv.freeChunks_eq]
  unfold Range.limit at hlimit
  omega

end HeapInv

/-! ## Room -/

theorem exists_mem_binAfter {bin : List Extent} {e : Extent} {nb nb' : Nat} (hpos : 0 < nb') :
    (∃ f ∈ binAfter bin e nb, nb' ≤ f.size) ↔ (∃ f ∈ bin, nb' ≤ f.size) ∨
      nb + nb' ≤ e.size := by
  unfold binAfter
  split
  · next heq =>
    constructor
    · exact .inl
    · rintro (h | h)
      · exact h
      · omega
  · constructor
    · rintro ⟨f, hf, hle⟩
      rcases mem_binInsert.mp hf with rfl | hf
      · refine .inr ?_
        simp only at hle
        omega
      · exact .inl ⟨f, hf, hle⟩
    · rintro (⟨f, hf, hle⟩ | hle)
      · exact ⟨f, mem_binInsert.mpr (.inr hf), hle⟩
      · exact ⟨_, mem_binInsert.mpr (.inl rfl), by simp only; omega⟩

/-- Where a chunk was placed, there was room for it. -/
theorem Placed.room {bin' : List Extent} {c : Extent} {len align : Nat}
    (inv : HeapInv S h bin used) (inv' : HeapInv S h' bin' (c :: used))
    (hp : Placed h h' bin bin' c align) (hsize : c.size = chunkSize len) :
    Room h len align := by
  have hlimit := inv.limit
  have hlimit' := inv'.limit
  unfold Room
  rw [← hsize]
  cases hp with
  | @bin pre post e split first fits addr left top =>
    rw [if_pos rfl, RoomFor, inv.freeChunks_eq, split]
    exact .inl ⟨e, List.mem_append_right _ List.mem_cons_self, fits⟩
  | top none addr left top =>
    rw [if_pos rfl]
    refine .inr ?_
    unfold Extent.fin at top
    omega
  | page addr left top =>
    rw [if_neg (by decide)]
    unfold RoomOnPage
    unfold Extent.fin at top
    omega

/-- **A request is served** exactly if there is room for it. -/
theorem HeapInv.kmalloc_served_iff {sp : Space} {len align : Nat} (iso : Isolated sp S)
    (inv : HeapInv S h bin used) (halign : align = mallocNoAlign ∨ align = mallocPageAlign)
    (hlen : len < 2 ^ 32) :
    (∃ h' p, kmalloc sp h len align = .ok (h', p) ∧ p ≠ 0) ↔ Room h len align := by
  constructor
  · rintro ⟨h', p, hok, hp⟩
    rcases kmalloc_spec len iso inv halign with
      ⟨h₁, c, bin₁, -, -, -, hs, -, -, hplaced, hsize⟩ | ⟨hbig, -⟩ | ⟨-, -, h₁, -, -, hnull⟩
    · exact hplaced.room inv hs.inv hsize
    · omega
    · rw [hok] at hnull
      obtain ⟨m, -, hret⟩ := bind_eq_ok.mp hnull.symm
      cases hret
      exact absurd rfl hp
  · intro hroom
    obtain ⟨hnb, hge, -⟩ := alignupTo_spec (len + 16)
    -- what `int_kmalloc` says of a heap that it finds too small
    have hserved : ∃ h' c bin', intKmalloc sp h (chunkSize len) align = .ok (h', c.addr + 16) ∧
        c.size = chunkSize len ∧ (align = mallocPageAlign → (c.addr + 16) % 0x1000 = 0) ∧
        Served S h h' used c bin' := by
      unfold Room at hroom
      rcases halign with rfl | rfl
      · rw [if_pos rfl, RoomFor, inv.freeChunks_eq] at hroom
        rcases intKmalloc_noAlign iso inv hnb (by omega) with ⟨-, hbin, htop⟩ |
          ⟨h', c, bin', hok, hc, hs, -⟩
        · rcases hroom with ⟨e, he, hle⟩ | hle
          · exact absurd (hbin e he) (Nat.not_lt.mpr hle)
          · exact absurd htop (Nat.not_lt.mpr hle)
        · exact ⟨h', c, bin', hok, hc, fun h => absurd h (by decide), hs⟩
      · rw [if_neg (by decide)] at hroom
        rcases intKmalloc_page sp inv hnb (by omega) with ⟨-, -, -, hshort⟩ |
          ⟨h', c, bin', hok, hc, hal, hs, -⟩
        · exact absurd hshort (Nat.not_lt.mpr hroom)
        · exact ⟨h', c, bin', hok, hc, fun _ => hal, hs⟩
    obtain ⟨h', c, bin', hok, hc, hal, hs⟩ := hserved
    have hfits : len + 16 ≤ c.size := hge.trans_eq hc.symm
    obtain ⟨m, hkmalloc, -⟩ := kmalloc_of_served hlen iso halign hok hfits hal hs
    exact ⟨_, _, hkmalloc, Nat.succ_ne_zero _⟩

/-- **A request after another one**: what is left once a chunk has been placed. -/
theorem Placed.roomFor_iff {c : Extent} {nb' : Nat} (hpos : 0 < nb')
    (hnodup : (freeChunks h).Nodup)
    (hlimit : h'.arena.top + h'.arena.topSize = h.arena.top + h.arena.topSize)
    (hp : Placed h h' (freeChunks h) (freeChunks h') c mallocNoAlign) :
    RoomFor h' nb' ↔ RoomAfter h c.size nb' := by
  cases hp with
  | @bin pre post e split first fits addr left top =>
    have hfind : fitting h c.size = some e := by
      rw [fitting, split, List.find?_append, List.find?_eq_none.mpr fun f hf => by
          simpa using first f hf, Option.none_or, List.find?_cons_of_pos (by simpa using fits)]
    rw [split] at hnodup
    have hother : ∀ f, f ∈ pre ++ post ↔ f ∈ freeChunks h ∧ f ≠ e := by
      intro f
      have hmid : (pre ++ e :: post).Perm (e :: (pre ++ post)) := List.perm_middle
      have hcons := List.nodup_cons.mp (hmid.nodup_iff.mp hnodup)
      rw [split, hmid.mem_iff, List.mem_cons]
      constructor
      · exact fun hf => ⟨.inr hf, fun heq => hcons.1 (heq ▸ hf)⟩
      · exact fun hf => hf.1.resolve_left hf.2
    have hothers : (∃ f ∈ pre ++ post, nb' ≤ f.size) ↔ ∃ f ∈ freeChunks h, f ≠ e ∧
      nb' ≤ f.size := exists_congr fun f => by rw [hother f, and_assoc]
    have htop : h'.arena.topSize = h.arena.topSize := by omega
    simp only [RoomAfter, hfind]
    rw [RoomFor, left, exists_mem_binAfter hpos, htop, hothers, or_assoc]
  | top none addr left top =>
    have hfind : fitting h c.size = Option.none :=
      List.find?_eq_none.mpr fun f hf => by simpa using none f hf
    simp only [RoomAfter, hfind]
    rw [RoomFor, left]
    refine or_congr_right ?_
    unfold Extent.fin at top
    omega

end BpfExamples.Kvm
