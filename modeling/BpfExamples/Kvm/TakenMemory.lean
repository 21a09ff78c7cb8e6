import BpfExamples.Kvm.HeapView

/-!
# The memory behind a request

`takenMem` is the memory that an unaligned request of `kmalloc` leaves when it is served. It is
read off the free chunks and the unused area of the heap before the call: the words of the free
list as it will be, the size in the header of the chunk that is taken, and zeros in the block.
Every other byte stays. `kmalloc_takenMem` says that `kmalloc` does just this.
-/

namespace BpfExamples.Kvm

open Mem

variable {sp : Space} {S : Range} {h h' : Heap} {bin used : List Extent} {m : Mem} {nb x : Nat}

/-! ## Words -/

/-- The words of a list of free chunks, each with its address: sizes and links. -/
def binWords : List Extent → List (Nat × Nat)
  | [] => []
  | e :: bin => (e.addr, e.size) :: (e.addr + 16, headAddr bin) :: binWords bin

/-- The byte at `x`, if it is one of a word in the list. -/
def wordByte (words : List (Nat × Nat)) (x : Nat) : Option UInt8 :=
  (words.find? fun w => w.1 ≤ x ∧ x < w.1 + 8).map fun w => UInt8.ofNat (w.2 / 256 ^ (x - w.1))

theorem Bin.words {head : Nat} (hb : Bin m head bin) :
    ∀ w ∈ binWords bin, load64 m w.1 = w.2 := by
  induction bin generalizing head with
  | nil => exact fun w hw => absurd hw List.not_mem_nil
  | cons e bin ih =>
    intro w hw
    rcases List.mem_cons.mp hw with rfl | hw
    · exact hb.stored e List.mem_cons_self
    rcases List.mem_cons.mp hw with rfl | hw
    · exact hb.tail.head_eq
    · exact ih hb.tail w hw

/-- Each free chunk has its two words there. -/
theorem mem_binWords {e : Extent} (he : e ∈ bin) :
    (e.addr, e.size) ∈ binWords bin ∧ ∃ y, (e.addr + 16, y) ∈ binWords bin := by
  induction bin with
  | nil => exact absurd he List.not_mem_nil
  | cons f bin ih =>
    rcases List.mem_cons.mp he with rfl | he
    · exact ⟨List.mem_cons_self, _, List.mem_cons_of_mem _ List.mem_cons_self⟩
    · obtain ⟨hsize, y, hy⟩ := ih he
      exact ⟨List.mem_cons_of_mem _ (List.mem_cons_of_mem _ hsize), y,
        List.mem_cons_of_mem _ (List.mem_cons_of_mem _ hy)⟩

/-- A memory that has the words has their bytes. -/
theorem wordByte_eq {words : List (Nat × Nat)} {b : UInt8}
    (hwords : ∀ w ∈ words, load64 m w.1 = w.2) (hx : wordByte words x = some b) : m x = b := by
  obtain ⟨w, hw, rfl⟩ := Option.map_eq_some_iff.mp hx
  have hin := List.find?_some hw
  simp only [decide_eq_true_eq] at hin
  have hbyte := loadLE_byte m 8 w.1 (j := x - w.1) (by omega)
  rw [Nat.add_sub_cancel' hin.1] at hbyte
  rw [hbyte, ← hwords w (List.mem_of_find?_eq_some hw), load64]

theorem wordByte_none {words : List (Nat × Nat)} (hx : wordByte words x = none) {w : Nat × Nat}
    (hw : w ∈ words) : x < w.1 ∨ w.1 + 8 ≤ x := by
  have hout := List.find?_eq_none.mp (Option.map_eq_none_iff.mp hx) w hw
  simp only [decide_eq_true_eq] at hout
  omega

/-! ## The request -/

/-- The chunk that is taken: the front of that one, or else of the unused area. -/
def chunkFor (h : Heap) (nb : Nat) : Extent :=
  match fitting h nb with
  | some e => ⟨e.addr, nb⟩
  | none => ⟨h.arena.top, nb⟩

/-- The free chunks then: the others, and what is left of the one that was cut. -/
def freeAfter (h : Heap) (nb : Nat) : List Extent :=
  match fitting h nb with
  | some e => binAfter ((freeChunks h).erase e) e nb
  | none => freeChunks h

/-- The bytes that `fetch_sorted_bin` clears behind the size of a chunk from the list. -/
def Cleared (h : Heap) (nb x : Nat) : Prop :=
  (fitting h nb).isSome = true ∧ (chunkFor h nb).addr + 8 ≤ x ∧ x < (chunkFor h nb).addr + 24

instance decidableCleared (h : Heap) (nb x : Nat) : Decidable (Cleared h nb x) :=
  inferInstanceAs (Decidable (_ ∧ _))

/-- The words of the allocator once `nb` bytes are taken. -/
def takenWords (h : Heap) (nb : Nat) : List (Nat × Nat) :=
  ((chunkFor h nb).addr, nb) :: binWords (freeAfter h nb)

/-- Memory once the chunk is taken, before its block is cleared. -/
def carvedMem (h : Heap) (nb : Nat) : Mem := fun x =>
  (wordByte (takenWords h nb) x).getD (if Cleared h nb x then 0 else h.mem x)

/-- Memory once a block of `len` bytes is taken. -/
def takenMem (h : Heap) (len : Nat) : Mem := fun x =>
  if (chunkFor h (chunkSize len)).addr + 16 ≤ x ∧
    x < (chunkFor h (chunkSize len)).addr + 16 + len then 0
  else carvedMem h (chunkSize len) x

/-- What makes a memory the one in which the chunk is taken. -/
theorem carvedMem_eq (hwords : ∀ w ∈ takenWords h nb, load64 m w.1 = w.2)
    (hzero : ∀ x, Cleared h nb x → m x = 0)
    (hframe : ∀ x, (∀ w ∈ takenWords h nb, x < w.1 ∨ w.1 + 8 ≤ x) → ¬ Cleared h nb x →
      m x = h.mem x) :
    m = carvedMem h nb := by
  funext x
  rw [carvedMem]
  cases hx : wordByte (takenWords h nb) x with
  | some b => rw [Option.getD_some, wordByte_eq hwords hx]
  | none =>
    rw [Option.getD_none]
    split
    · next hc => exact hzero x hc
    · next hc => exact hframe x (fun w hw => wordByte_none hx hw) hc

/-- From the list. -/
theorem fetchChunk_carvedMem {pre post : List Extent} {e : Extent} (iso : Isolated sp S)
    (inv : HeapInv S h (pre ++ e :: post) used) (hfirst : ∀ f ∈ pre, f.size < nb)
    (hnb : nb % 0x80 = 0) (hpos : 0 < nb) (hle : nb ≤ e.size) :
    ∃ h', fetchChunk sp h nb (placeAfter pre) e.addr = .ok (h', (chunkFor h nb).addr + 16) ∧
      h'.mem = carvedMem h nb := by
  obtain ⟨h', hok, hbin, hsize, -, hzero, hframe⟩ := fetchChunk_mem iso inv hnb hpos hle
  have hfit : fitting h nb = some e := by
    rw [fitting, inv.freeChunks_eq, List.find?_append,
      List.find?_eq_none.mpr fun f hf => by simpa using hfirst f hf, Option.none_or,
      List.find?_cons_of_pos (by simpa using hle)]
  have hchunk : chunkFor h nb = ⟨e.addr, nb⟩ := by rw [chunkFor, hfit]
  have hlist : freeAfter h nb = binAfter (pre ++ post) e nb := by
    have hnotin : e ∉ pre := fun hin => absurd (hfirst e hin) (Nat.not_lt.mpr hle)
    rw [freeAfter, hfit]
    dsimp only
    rw [inv.freeChunks_eq, List.erase_append_right _ hnotin, List.erase_cons_head]
  have hcleared : ∀ x, Cleared h nb x ↔ e.addr + 8 ≤ x ∧ x < e.addr + 24 := fun x => by
    rw [Cleared, hfit, hchunk]
    exact and_iff_right rfl
  have hwords : takenWords h nb = (e.addr, nb) :: binWords (binAfter (pre ++ post) e nb) := by
    rw [takenWords, hchunk, hlist]
  refine ⟨h', by rw [hok, hchunk], carvedMem_eq ?_ ?_ ?_⟩
  · intro w hw
    rw [hwords] at hw
    rcases List.mem_cons.mp hw with rfl | hw
    · exact hsize
    · exact hbin.words w hw
  · exact fun x hx => hzero x ((hcleared x).mp hx).1 ((hcleared x).mp hx).2
  · intro x hx hc
    rw [hcleared] at hc
    rw [hwords] at hx
    have hhead := hx _ List.mem_cons_self
    have hoff : ∀ f ∈ binAfter (pre ++ post) e nb,
        (x < f.addr ∨ f.addr + 8 ≤ x) ∧ (x < f.addr + 16 ∨ f.addr + 24 ≤ x) := fun f hf => by
      obtain ⟨hs, y, hy⟩ := mem_binWords hf
      exact ⟨hx _ (List.mem_cons_of_mem _ hs), hx _ (List.mem_cons_of_mem _ hy)⟩
    dsimp only at hhead
    refine hframe x (fun f hf => ?_) (by omega) fun hne => ?_
    · refine (hoff f ?_).2
      unfold binAfter
      split
      · exact hf
      · exact mem_binInsert.mpr (.inr hf)
    · have hrest : (⟨e.addr + nb, e.size - nb⟩ : Extent) ∈ binAfter (pre ++ post) e nb := by
        rw [binAfter, if_neg hne]
        exact mem_binInsert.mpr (.inl rfl)
      refine ⟨fun f hf => ?_, (hoff _ hrest).1⟩
      rw [List.mem_singleton.mp hf]
      exact (hoff _ hrest).2

/-- From the unused area. -/
theorem mallocTop_carvedMem (inv : HeapInv S h bin used) (hall : ∀ f ∈ bin, f.size < nb)
    (hnb : nb % 0x80 = 0) (hpos : 0 < nb) (hroom : nb ≤ h.arena.topSize) :
    ∃ h', mallocTop h nb = (h', (chunkFor h nb).addr + 16) ∧ h'.mem = carvedMem h nb := by
  have hfit : fitting h nb = none := by
    rw [fitting, inv.freeChunks_eq]
    exact List.find?_eq_none.mpr fun f hf => by simpa using hall f hf
  have hchunk : chunkFor h nb = ⟨h.arena.top, nb⟩ := by rw [chunkFor, hfit]
  have hwords : takenWords h nb = (h.arena.top, nb) :: binWords bin := by
    rw [takenWords, hchunk, freeAfter, hfit]
    dsimp only
    rw [inv.freeChunks_eq]
  have htop := inv.top
  have hb : Boundary (h.arena.top + nb) := by
    unfold Boundary at *
    omega
  obtain ⟨h', heq, inv', -, hmem⟩ := mallocTop_spec inv hpos (.inl hnb) hb hroom
  refine ⟨h', by rw [heq, hchunk], carvedMem_eq ?_ ?_ ?_⟩
  · intro w hw
    rw [hwords] at hw
    rcases List.mem_cons.mp hw with rfl | hw
    · exact inv'.stored _ List.mem_cons_self
    · exact inv'.threaded.words w hw
  · rintro x ⟨hsome, -⟩
    rw [hfit] at hsome
    cases hsome
  · intro x hx _
    rw [hwords] at hx
    exact hmem x (hx _ List.mem_cons_self)

theorem intKmalloc_carvedMem (iso : Isolated sp S) (inv : HeapInv S h bin used)
    (hnb : nb % 0x80 = 0) (hpos : 0 < nb) (hroom : RoomFor h nb) :
    ∃ h', intKmalloc sp h nb mallocNoAlign = .ok (h', (chunkFor h nb).addr + 16) ∧
      h'.mem = carvedMem h nb := by
  rw [intKmalloc, if_pos rfl, fetchSortedBin, inv.threaded.head_eq]
  rw [RoomFor, inv.freeChunks_eq] at hroom
  rcases fetchSortedBinFrom_spec iso hnb hpos inv bin [] walkFuel rfl (by simp) inv.bin_length
    with ⟨hall, hnone⟩ | ⟨pre, e, post, rfl, hpre, hfit, heq⟩
  · have htop : nb ≤ h.arena.topSize := by
      refine hroom.resolve_left ?_
      rintro ⟨f, hf, hle⟩
      exact absurd (hall f hf) (Nat.not_lt.mpr hle)
    obtain ⟨h', hcarve, hmem⟩ := mallocTop_carvedMem inv hall hnb hpos htop
    refine ⟨h', ?_, hmem⟩
    rw [show placeAfter [] = none from rfl] at hnone
    rw [hnone, ok_bind]
    dsimp only
    rw [if_pos rfl, hcarve]
    rfl
  · obtain ⟨h', hcarve, hmem⟩ := fetchChunk_carvedMem iso inv hpre hnb hpos hfit
    refine ⟨h', ?_, hmem⟩
    rw [show placeAfter [] = none from rfl] at heq
    rw [heq, hcarve, ok_bind]
    rfl

/-- **`kmalloc`**, byte by byte. -/
theorem kmalloc_takenMem {len : Nat} (iso : Isolated sp S) (inv : HeapInv S h bin used)
    (hlen : len < 2 ^ 32) (hroom : RoomFor h (chunkSize len)) :
    ∃ h', kmalloc sp h len mallocNoAlign = .ok (h', (chunkFor h (chunkSize len)).addr + 16) ∧
      h'.mem = takenMem h len := by
  obtain ⟨hnb, hge, -⟩ := alignupTo_spec (len + 16)
  obtain ⟨h', hok, hmem⟩ := intKmalloc_carvedMem iso inv hnb (by omega) hroom
  rcases intKmalloc_noAlign iso inv hnb (by omega) with ⟨hno, -⟩ |
    ⟨h₁, c, bin', hok₁, hc, hs, -⟩
  · have heq := hok.symm.trans hno
    injection heq with heq
    exact absurd (congrArg Prod.snd heq) (Nat.succ_ne_zero _)
  -- the block is where the chunk is
  obtain ⟨rfl, haddr⟩ : h' = h₁ ∧ (chunkFor h (chunkSize len)).addr + 16 = c.addr + 16 := by
    have heq := hok.symm.trans hok₁
    injection heq with heq
    exact ⟨congrArg Prod.fst heq, congrArg Prod.snd heq⟩
  have hset : memset sp h'.mem (c.addr + 16) 0 len = .ok (fill h'.mem (c.addr + 16) len 0) := by
    have hb := hs.inv.bounds (e := c) (by simp)
    have htop := hs.inv.top_le
    unfold Extent.fin at hb
    exact memset_shift fun j hj => iso.own _ (by omega) (by omega)
  refine ⟨{ h' with mem := fill h'.mem (c.addr + 16) len 0 }, ?_, ?_⟩
  · rw [kmalloc, if_neg (Nat.not_le.mpr hlen)]
    rw [show intKmalloc sp h (alignupTo (len + 16) 0x80) mallocNoAlign = _ from hok₁, ok_bind]
    dsimp only
    rw [if_neg (fun h => h.1 rfl), hset, haddr]
    rfl
  · funext x
    show fill h'.mem (c.addr + 16) len 0 x = takenMem h len x
    rw [takenMem, haddr]
    split
    · next hin => exact fill_of_mem hin.1 hin.2
    · next hout =>
      rw [fill_of_notMem (by omega), hmem]
      rfl

end BpfExamples.Kvm
