import BpfExamples.Kvm.HeapInv

/-!
# The allocator keeps its invariant

One specification per routine of `kmalloc.c`, each from `HeapInv` to `HeapInv`:

- `insertSorted_spec`: linking a chunk in is `binInsert`;
- `fetchSortedBin_spec`: the bin is searched for the first chunk that fits, and
  the rest of it goes back into the bin;
- `mallocTop_spec`, `kfree_spec`: the two ways the top moves;
- `intKmalloc_spec`, `kmalloc_spec`: the whole allocation, with the alignment
  gap that is carved and given back inside it.

Each also says which memory it leaves alone (`Untouched`): every chunk in use,
header included, and everything outside the arena.
-/

namespace BpfExamples.Kvm

open Mem

/-! ## Field writes -/

namespace Heap

variable {h : Heap} {prev : Option Nat} {c v a : Nat}

theorem setNext_mem (ha : ∀ p, prev = some p → a < p + 16 ∨ p + 24 ≤ a) :
    (h.setNext prev v).mem a = h.mem a := by
  cases prev with
  | none => rfl
  | some p => exact store64_of_notMem (ha p rfl)

theorem setSize_mem (ha : a < c ∨ c + 8 ≤ a) : (h.setSize c v).mem a = h.mem a :=
  store64_of_notMem ha

/-- Only the list head of the arena changes, and only through `none`. -/
theorem setNext_arena (h : Heap) (prev : Option Nat) (v : Nat) :
    (h.setNext prev v).arena
      = { h.arena with sortedBin := (h.setNext prev v).arena.sortedBin } := by
  cases prev <;> rfl

end Heap

/-! ## `insert_sorted` -/

/-- The loop stops behind the chunks that are smaller than `s`. -/
theorem insertSortedFrom_spec {m : Mem} {s : Nat} :
    ∀ {bin : List Extent} {fuel : Nat} {prev : Option Nat} {now : Nat},
      Bin m now bin → (∀ e ∈ bin, e.addr ≠ 0) → bin.length < fuel →
      insertSortedFrom m s fuel prev now = .ok
        (Seg.link ((bin.takeWhile fun e => ¬ s ≤ e.size).map Extent.addr) prev,
          headAddr (bin.dropWhile fun e => ¬ s ≤ e.size))
  | _, 0, _, _, _, _, hf => absurd hf (Nat.not_lt_zero _)
  | [], fuel + 1, prev, now, hb, _, _ => by
    have hnow : now = 0 := hb.chain
    rw [insertSortedFrom, if_neg fun h => h.1 hnow, hnow]
    rfl
  | e :: bin, fuel + 1, prev, now, hb, hnn, hf => by
    obtain rfl : now = e.addr := hb.head_eq
    have hsize := hb.stored e List.mem_cons_self
    have hne := hnn e List.mem_cons_self
    rw [insertSortedFrom, hsize]
    by_cases hlt : e.size < s
    · rw [if_pos ⟨hne, hlt⟩, insertSortedFrom_spec hb.tail
        (fun f hf => hnn f (List.mem_cons_of_mem _ hf)) (Nat.lt_of_succ_lt_succ hf)]
      simp [hlt, Seg.link]
    · rw [if_neg fun h => hlt h.2]
      simp [hlt, Seg.link, headAddr]

/-! ### Redirecting a link -/

/-- Chunks that are apart and have room for their fields. -/
structure Spread (l : List Extent) : Prop where
  apart : l.Pairwise Extent.Apart
  room : ∀ e ∈ l, 24 ≤ e.size ∧ e.addr < 2 ^ 64

namespace Spread

variable {l l' : List Extent} {e f : Extent}

theorem sublist (h : Spread l) (hl : l'.Sublist l) : Spread l' :=
  ⟨h.apart.sublist hl, fun e he => h.room e (hl.subset he)⟩

theorem perm (h : Spread l) (hp : l.Perm l') : Spread l' :=
  ⟨(hp.pairwise_iff fun hxy => hxy.symm).mp h.apart, fun e he => h.room e (hp.mem_iff.mpr he)⟩

/-- The fields of one chunk are outside the fields of another. -/
theorem fields (h : Spread l) (he : e ∈ l) (hf : f ∈ l) (hne : e ≠ f) :
    e.addr + 24 ≤ f.addr ∨ f.addr + 24 ≤ e.addr := by
  have hap := Extent.apart_of_mem h.apart he hf hne
  have h₁ := h.room e he
  have h₂ := h.room f hf
  unfold Extent.Apart Extent.fin at hap
  omega

theorem nodup_addr (h : Spread l) : (l.map Extent.addr).Nodup := by
  refine List.pairwise_map.mpr (h.apart.imp_of_mem fun {e f} he hf hap => ?_)
  have h₁ := h.room e he
  have h₂ := h.room f hf
  unfold Extent.Apart Extent.fin at hap
  omega

end Spread

/-- The byte at `a` belongs to no link word of `l`. -/
def OffLinks (l : List Extent) (a : Nat) : Prop :=
  ∀ e ∈ l, a < e.addr + 16 ∨ e.addr + 24 ≤ a

/-- The place after `pre`, as `insert_sorted` and `fetch_sorted_bin` find it. -/
def placeAfter (pre : List Extent) : Option Nat := Seg.link (pre.map Extent.addr) none

theorem placeAfter_mem {pre : List Extent} {p : Nat} (h : placeAfter pre = some p) :
    ∃ e ∈ pre, e.addr = p := by
  rcases Seg.link_mem h with h0 | hmem
  · cases h0
  · exact List.mem_map.mp hmem

theorem setNext_placeAfter_mem {h : Heap} {pre : List Extent} {y a : Nat}
    (ha : OffLinks pre a) : (h.setNext (placeAfter pre) y).mem a = h.mem a := by
  refine Heap.setNext_mem fun p hp => ?_
  obtain ⟨e, he, rfl⟩ := placeAfter_mem hp
  exact ha e he

/-- Redirecting the link after `pre` makes `pre` lead to the new target. -/
theorem setNext_placeAfter_seg {h : Heap} {pre : List Extent} {b y : Nat}
    (hseg : Seg (nextOf h.mem) h.arena.sortedBin (pre.map Extent.addr) b) (hs : Spread pre)
    (hy : y < 2 ^ 64) :
    Seg (nextOf (h.setNext (placeAfter pre) y).mem)
      (h.setNext (placeAfter pre) y).arena.sortedBin
      (pre.map Extent.addr) y := by
  cases hp : placeAfter pre with
  | none =>
    rw [Seg.link_none hp]
    rfl
  | some p =>
    obtain ⟨e, he, rfl⟩ := placeAfter_mem hp
    refine hseg.redirect hs.nodup_addr hp (load64_store64_of_lt hy) fun x hx hne => ?_
    obtain ⟨f, hf, rfl⟩ := List.mem_map.mp hx
    have hef := hs.fields he hf fun heq => hne (by rw [heq])
    exact load64_store64_of_apart (by omega)

/-- Headers are off every link word. -/
theorem Spread.offLinks_header {l : List Extent} (h : Spread l) {e : Extent} (he : e ∈ l)
    {a : Nat} (h₁ : e.addr ≤ a) (h₂ : a < e.addr + 8) : OffLinks l a := by
  intro f hf
  by_cases hef : e = f
  · subst hef
    omega
  · have := h.fields he hf hef
    omega

/-- A chunk's own link is off the links of the others. -/
theorem Spread.offLinks_link {l : List Extent} {e : Extent} (h : Spread (e :: l))
    {a : Nat} (h₁ : e.addr ≤ a) (h₂ : a < e.addr + 24) : OffLinks l a := by
  intro f hf
  have hap := (List.pairwise_cons.mp h.apart).1 f hf
  have h₃ := h.room e List.mem_cons_self
  have h₄ := h.room f (List.mem_cons_of_mem _ hf)
  unfold Extent.Apart Extent.fin at hap
  omega

theorem nextOf_congr {m m' : Mem} {c : Nat}
    (h : ∀ a, c + 16 ≤ a → a < c + 24 → m' a = m a) : nextOf m' c = nextOf m c :=
  load64_congr fun a h₁ h₂ => h a h₁ (by omega)

theorem sizeOf_congr {m m' : Mem} {c : Nat}
    (h : ∀ a, c ≤ a → a < c + 8 → m' a = m a) : sizeOf m' c = sizeOf m c :=
  load64_congr h

theorem Bin.append {m : Mem} {head : Nat} {pre post : List Extent} :
    Bin m head (pre ++ post) ↔ Seg (nextOf m) head (pre.map Extent.addr) (headAddr post) ∧
      Bin m (headAddr post) post ∧ ∀ e ∈ pre, sizeOf m e.addr = e.size := by
  constructor
  · rintro ⟨hc, hs⟩
    rw [List.map_append] at hc
    obtain ⟨b, h₁, h₂⟩ := Seg.append.mp hc
    have hpost : Bin m b post := ⟨h₂, fun e he => hs e (List.mem_append_right _ he)⟩
    rw [hpost.head_eq] at h₁ hpost
    exact ⟨h₁, hpost, fun e he => hs e (List.mem_append_left _ he)⟩
  · rintro ⟨h₁, h₂, h₃⟩
    refine ⟨?_, fun e he => ?_⟩
    · rw [List.map_append]
      exact Seg.append.mpr ⟨_, h₁, h₂.chain⟩
    · rcases List.mem_append.mp he with he | he
      · exact h₃ e he
      · exact h₂.stored e he

/-- Unlinking the chunk between two parts of the bin. -/
theorem Bin.unlink {h : Heap} {pre post : List Extent} {c : Extent}
    (hb : Bin h.mem h.arena.sortedBin (pre ++ c :: post)) (hs : Spread (pre ++ c :: post)) :
    let h' := h.setNext (placeAfter pre) (nextOf h.mem c.addr)
    Bin h'.mem h'.arena.sortedBin (pre ++ post) := by
  intro h'
  obtain ⟨hpre, hcpost, hsizes⟩ := Bin.append.mp hb
  have hnext : nextOf h.mem c.addr = headAddr post := hcpost.tail.head_eq
  have hspre : Spread pre := hs.sublist (List.sublist_append_left _ _)
  have hmid : Spread (c :: post ++ pre) := hs.perm List.perm_append_comm
  refine Bin.append.mpr ⟨?_, ?_, fun e he => ?_⟩
  · rw [← hnext]
    exact setNext_placeAfter_seg hpre hspre (load64_lt _ _)
  · have hpost : Bin h.mem (headAddr post) post := hnext ▸ hcpost.tail
    refine hpost.frame fun e he a h₁ h₂ => setNext_placeAfter_mem ?_
    have hsp : Spread (e :: pre) :=
      hmid.sublist ((List.singleton_sublist.mpr (List.mem_cons_of_mem _ he)).append
        (List.Sublist.refl pre))
    exact hsp.offLinks_link h₁ h₂
  · rw [← hsizes e he]
    exact sizeOf_congr fun a h₁ h₂ =>
      setNext_placeAfter_mem (hspre.offLinks_header he h₁ h₂)

/-- Linking a chunk in between two parts of the bin. -/
theorem Bin.link {h : Heap} {pre post : List Extent} {c : Extent}
    (hb : Bin h.mem h.arena.sortedBin (pre ++ post)) (hc : sizeOf h.mem c.addr = c.size)
    (hs : Spread (c :: (pre ++ post))) :
    let h' := (h.setNext (placeAfter pre) c.addr).setNext (some c.addr) (headAddr post)
    Bin h'.mem h'.arena.sortedBin (pre ++ c :: post) := by
  intro h'
  obtain ⟨hpre, hpost, hsizes⟩ := Bin.append.mp hb
  have hspre : Spread (c :: pre) := hs.sublist ((List.sublist_append_left _ _).cons_cons _)
  have hpost_lt : headAddr post < 2 ^ 64 := by
    cases post with
    | nil => simp [headAddr]
    | cons e _ => exact (hs.room e (by simp)).2
  -- bytes that neither of the two stores reaches
  have hmem : ∀ a, OffLinks (c :: pre) a → h'.mem a = h.mem a := by
    intro a ha
    have h₁ : h'.mem a = (h.setNext (placeAfter pre) c.addr).mem a := by
      refine Heap.setNext_mem fun p hp => ?_
      cases hp
      exact ha c List.mem_cons_self
    rw [h₁]
    exact setNext_placeAfter_mem fun e he => ha e (List.mem_cons_of_mem _ he)
  have hafter : ∀ e ∈ post, ∀ a, e.addr ≤ a → a < e.addr + 24 → h'.mem a = h.mem a := by
    intro e he a h₁ h₂
    refine hmem a ?_
    have hperm : Spread (c :: pre ++ post) := hs
    have hsp : Spread (e :: (c :: pre)) :=
      (hperm.perm List.perm_append_comm).sublist
        ((List.singleton_sublist.mpr he).append (List.Sublist.refl _))
    exact hsp.offLinks_link h₁ h₂
  refine Bin.append.mpr ⟨?_, ⟨⟨rfl, ?_⟩, fun e he => ?_⟩, fun e he => ?_⟩
  · refine (setNext_placeAfter_seg hpre (hspre.sublist (List.sublist_cons_self _ _))
      (hs.room c List.mem_cons_self).2).congr fun x hx => ?_
    obtain ⟨e, he, rfl⟩ := List.mem_map.mp hx
    refine nextOf_congr fun a h₁ h₂ => Heap.setNext_mem fun p hp => ?_
    cases hp
    have hap := (List.pairwise_cons.mp hspre.apart).1 e he
    have h₃ := hspre.room c List.mem_cons_self
    have h₄ := hspre.room e (List.mem_cons_of_mem _ he)
    unfold Extent.Apart Extent.fin at hap
    omega
  · have hcn : nextOf h'.mem c.addr = headAddr post := load64_store64_of_lt hpost_lt
    rw [hcn]
    exact (hpost.frame hafter).chain
  · rcases List.mem_cons.mp he with rfl | he
    · rw [← hc]
      exact sizeOf_congr fun a h₁ h₂ =>
        hmem a (hspre.offLinks_header List.mem_cons_self h₁ h₂)
    · exact (hpost.frame hafter).stored e he
  · rw [← hsizes e he]
    exact sizeOf_congr fun a h₁ h₂ =>
      hmem a (hspre.offLinks_header (List.mem_cons_of_mem _ he) h₁ h₂)

/-- **`insert_sorted` is `binInsert`.** -/
theorem insertSorted_spec {h : Heap} {bin : List Extent} {c : Extent}
    (hb : Bin h.mem h.arena.sortedBin bin) (hc : sizeOf h.mem c.addr = c.size)
    (hs : Spread (c :: bin)) (hnn : ∀ e ∈ bin, e.addr ≠ 0) (hlen : bin.length < walkFuel) :
    ∃ h', insertSorted h c.addr = .ok h' ∧ Bin h'.mem h'.arena.sortedBin (binInsert c bin) ∧
      h'.arena = { h.arena with sortedBin := h'.arena.sortedBin } ∧
      ∀ a, OffLinks (c :: bin) a → h'.mem a = h.mem a := by
  set pre := bin.takeWhile fun e => ¬ c.size ≤ e.size with hpre
  set post := bin.dropWhile fun e => ¬ c.size ≤ e.size with hpost
  have hsplit : pre ++ post = bin := List.takeWhile_append_dropWhile
  have hins : binInsert c bin = pre ++ c :: post := by
    rw [binInsert, List.orderedInsert_eq_take_drop]
  refine ⟨(h.setNext (placeAfter pre) c.addr).setNext (some c.addr) (headAddr post),
    ?_, ?_, ?_, ?_⟩
  · rw [insertSorted, hc, insertSortedFrom_spec hb hnn hlen]
    rfl
  · rw [hins]
    rw [← hsplit] at hb hs
    exact Bin.link hb hc hs
  · exact Heap.setNext_arena h (placeAfter pre) c.addr
  · intro a ha
    have h₁ : ∀ p, some c.addr = some p → a < p + 16 ∨ p + 24 ≤ a := by
      intro p hp
      cases hp
      exact ha c List.mem_cons_self
    rw [Heap.setNext_mem h₁]
    refine setNext_placeAfter_mem fun e he => ha e (List.mem_cons_of_mem _ ?_)
    rw [← hsplit]
    exact List.mem_append_left _ he

/-! ## `fetch_sorted_bin` -/

/-- What the bin holds after `nb` bytes were taken from the front of `e`. -/
def binAfter (bin : List Extent) (e : Extent) (nb : Nat) : List Extent :=
  if e.size = nb then bin else binInsert ⟨e.addr + nb, e.size - nb⟩ bin

/-- The memory a routine leaves alone: the chunks `used`, and everything
outside the arena. -/
structure Untouched (S : Range) (m m' : Mem) (used : List Extent) : Prop where
  used : ∀ e ∈ used, ∀ a, e.Has a → m' a = m a
  outside : ∀ a, a < S.base ∨ S.limit ≤ a → m' a = m a

theorem Untouched.trans {S : Range} {m m' m'' : Mem} {used : List Extent}
    (h₁ : Untouched S m m' used) (h₂ : Untouched S m' m'' used) : Untouched S m m'' used where
  used e he a ha := (h₂.used e he a ha).trans (h₁.used e he a ha)
  outside a ha := (h₂.outside a ha).trans (h₁.outside a ha)

theorem Untouched.refl (S : Range) (m : Mem) (used : List Extent) : Untouched S m m used :=
  ⟨fun _ _ _ _ => rfl, fun _ _ => rfl⟩

theorem Untouched.mono {S : Range} {m m' : Mem} {used used' : List Extent}
    (h : Untouched S m m' used) (hsub : used' ⊆ used) : Untouched S m m' used' :=
  ⟨fun e he => h.used e (hsub he), h.outside⟩

theorem HeapInv.spread {S : Range} {h : Heap} {bin used : List Extent}
    (inv : HeapInv S h bin used) : Spread (bin ++ used) where
  apart := inv.tiles.apart
  room e he := by
    have h₁ := inv.bounds he
    have h₂ := inv.top_le
    have h₃ := S.limit_lt
    unfold Extent.fin at h₁
    omega

/-- Splitting a chunk that is out of the bin. -/
theorem splitChunk_spec {h : Heap} {bin : List Extent} {e : Extent} (nb : Nat)
    (hb : Bin h.mem h.arena.sortedBin bin) (he : sizeOf h.mem e.addr = e.size)
    (hs : e.size ≠ nb → Spread (⟨e.addr + nb, e.size - nb⟩ :: bin))
    (hlt : e.size < 2 ^ 64) (hnn : ∀ f ∈ bin, f.addr ≠ 0) (hlen : bin.length < walkFuel) :
    ∃ h', splitChunk h e.addr nb = .ok h' ∧
      Bin h'.mem h'.arena.sortedBin (binAfter bin e nb) ∧
      h'.arena = { h.arena with sortedBin := h'.arena.sortedBin } ∧
      ∀ a, OffLinks bin a →
        (e.size ≠ nb → OffLinks [⟨e.addr + nb, e.size - nb⟩] a ∧
          (a < e.addr + nb ∨ e.addr + nb + 8 ≤ a)) →
        h'.mem a = h.mem a := by
  by_cases hsz : e.size = nb
  · refine ⟨h, ?_, ?_, rfl, fun _ _ _ => rfl⟩
    · rw [splitChunk, he, if_pos hsz]
    · rw [binAfter, if_pos hsz]
      exact hb
  · set r : Extent := ⟨e.addr + nb, e.size - nb⟩ with hr
    have hsr := hs hsz
    have hsub : r.size < 2 ^ 64 := by
      simp only [hr]
      omega
    have hb₁ : Bin (h.setSize r.addr r.size).mem
        (h.setSize r.addr r.size).arena.sortedBin bin := by
      refine hb.frame fun f hf a h₁ h₂ => Heap.setSize_mem ?_
      have hap := (List.pairwise_cons.mp hsr.apart).1 f hf
      have h₃ := hsr.room r List.mem_cons_self
      have h₄ := hsr.room f (List.mem_cons_of_mem _ hf)
      unfold Extent.Apart Extent.fin at hap
      omega
    obtain ⟨h', hok, hbin, harena, hmem⟩ :=
      insertSorted_spec hb₁ (load64_store64_of_lt hsub) hsr hnn hlen
    refine ⟨h', ?_, ?_, harena, fun a ha hra => ?_⟩
    · rw [splitChunk, he, if_neg hsz]
      exact hok
    · rw [binAfter, if_neg hsz]
      exact hbin
    · obtain ⟨hlink, hsize⟩ := hra hsz
      have hoff : OffLinks (r :: bin) a := by
        intro f hf
        rcases List.mem_cons.mp hf with rfl | hf
        · exact hlink _ List.mem_cons_self
        · exact ha f hf
      rw [hmem a hoff]
      exact Heap.setSize_mem hsize

section

variable {sp : Space} {S : Range} {h : Heap} {bin used pre post : List Extent} {e : Extent}
  {nb : Nat}

/-- Taking `nb` bytes from the front of a free chunk, as a tiling. -/
theorem tiles_take {lo hi : Nat} (ht : Tiles lo hi ((pre ++ e :: post) ++ used)) (hpos : 0 < nb)
    (hle : nb ≤ e.size) :
    Tiles lo hi (binAfter (pre ++ post) e nb ++ ⟨e.addr, nb⟩ :: used) := by
  have hperm : ((pre ++ e :: post) ++ used).Perm (e :: (pre ++ post ++ used)) :=
    (List.perm_middle.append_right used)
  have hfront : (pre ++ post ++ ⟨e.addr, nb⟩ :: used).Perm
      (⟨e.addr, nb⟩ :: (pre ++ post ++ used)) := List.perm_middle
  have ht' := ht.perm hperm
  by_cases hsz : e.size = nb
  · have heq : (⟨e.addr, nb⟩ : Extent) = e := by rw [← hsz]
    rw [binAfter, if_pos hsz]
    refine ht'.perm ?_
    rw [heq] at hfront ⊢
    exact hfront.symm
  · rw [binAfter, if_neg hsz]
    refine (ht'.split hpos (by omega)).perm ?_
    have hins := binInsert_perm ⟨e.addr + nb, e.size - nb⟩ (pre ++ post)
    refine List.Perm.trans ?_ (hins.append_right _).symm
    exact (List.Perm.swap _ _ _).trans (List.Perm.cons _ hfront.symm)

theorem mem_binAfter {f : Extent} (hf : f ∈ binAfter bin e nb) :
    f ∈ bin ∨ (e.size ≠ nb ∧ f = ⟨e.addr + nb, e.size - nb⟩) := by
  unfold binAfter at hf
  split at hf
  · exact .inl hf
  · next hsz =>
    rcases mem_binInsert.mp hf with hf | hf
    · exact .inr ⟨hsz, hf⟩
    · exact .inl hf

theorem mem_around {f : Extent} (hf : f ∈ pre ++ post) : f ∈ pre ++ e :: post := by
  rcases List.mem_append.mp hf with hf | hf
  · exact List.mem_append_left _ hf
  · exact List.mem_append_right _ (List.mem_cons_of_mem _ hf)

/-- The block, the new bin and the chunks in use obey the congruences. -/
theorem HeapInv.cut_shape (inv : HeapInv S h (pre ++ e :: post) used) (hnb : nb % 0x80 = 0)
    (hle : nb ≤ e.size) :
    ∀ f ∈ binAfter (pre ++ post) e nb ++ ⟨e.addr, nb⟩ :: used, ChunkOk f := by
  have hcut := (inv.shape e (by simp)).cut hnb hle
  intro f hf
  rcases List.mem_append.mp hf with hf | hf
  · rcases mem_binAfter hf with hf | ⟨-, rfl⟩
    · exact inv.shape f (List.mem_append_left _ (mem_around hf))
    · exact hcut.2
  · rcases List.mem_cons.mp hf with rfl | hf
    · exact hcut.1
    · exact inv.shape f (List.mem_append_right _ hf)

/-- And they keep to themselves. -/
theorem HeapInv.cut_spread (inv : HeapInv S h (pre ++ e :: post) used) (hnb : nb % 0x80 = 0)
    (hpos : 0 < nb) (hle : nb ≤ e.size) :
    Spread (binAfter (pre ++ post) e nb ++ ⟨e.addr, nb⟩ :: used) := by
  have ht := tiles_take inv.tiles hpos hle
  have htop := inv.top_le
  have hlim := S.limit_lt
  refine ⟨ht.apart, fun f hf => ?_⟩
  have h₁ := ht.inside f hf
  have h₂ := (inv.cut_shape hnb hle f hf).room (ht.pos f hf)
  unfold Extent.fin at h₁
  omega

/-- The chunk that fits is cut, cleared and handed out: the memory that this writes. -/
theorem fetchChunk_mem (iso : Isolated sp S) (inv : HeapInv S h (pre ++ e :: post) used)
    (hnb : nb % 0x80 = 0) (hpos : 0 < nb) (hle : nb ≤ e.size) :
    ∃ h', fetchChunk sp h nb (placeAfter pre) e.addr = .ok (h', e.addr + 16) ∧
      Bin h'.mem h'.arena.sortedBin (binAfter (pre ++ post) e nb) ∧ sizeOf h'.mem e.addr = nb ∧
      h'.arena = { h.arena with sortedBin := h'.arena.sortedBin } ∧
      (∀ a, e.addr + 8 ≤ a → a < e.addr + 24 → h'.mem a = 0) ∧
      ∀ a, OffLinks (pre ++ post) a → a < e.addr ∨ e.addr + 24 ≤ a →
        (e.size ≠ nb → OffLinks [⟨e.addr + nb, e.size - nb⟩] a ∧
          (a < e.addr + nb ∨ e.addr + nb + 8 ≤ a)) →
        h'.mem a = h.mem a := by
  have hbase := S.base_pos
  have hlim := S.limit_lt
  have htop := inv.top_le
  have he := inv.bounds (show e ∈ (pre ++ e :: post) ++ used by simp)
  unfold Extent.fin at he
  have hspread := inv.cut_spread hnb hpos hle
  have ht := tiles_take inv.tiles hpos hle
  -- unlink
  have hsbin : Spread (pre ++ e :: post) := inv.spread.sublist (List.sublist_append_left _ _)
  have hb₁ := Bin.unlink inv.threaded hsbin
  set h₁ := h.setNext (placeAfter pre) (nextOf h.mem e.addr) with hh₁
  have he₁ : sizeOf h₁.mem e.addr = e.size := by
    rw [← inv.threaded.stored e (by simp)]
    refine sizeOf_congr fun a ha₁ ha₂ => setNext_placeAfter_mem fun f hf => ?_
    exact hsbin.offLinks_header (by simp) ha₁ ha₂ f (List.mem_append_left _ hf)
  -- split
  have hs₂ : e.size ≠ nb → Spread (⟨e.addr + nb, e.size - nb⟩ :: (pre ++ post)) := by
    intro hsz
    have hsub := hspread.sublist (List.sublist_append_left _ _)
    rw [binAfter, if_neg hsz] at hsub
    exact hsub.perm (binInsert_perm _ _)
  have hlen : (pre ++ post).length < walkFuel := by
    have := inv.bin_length
    simp only [List.length_append, List.length_cons] at this ⊢
    omega
  have hnn : ∀ f ∈ pre ++ post, f.addr ≠ 0 := by
    intro f hf
    have := (inv.bounds (List.mem_append_left used (mem_around hf))).1
    omega
  obtain ⟨h₂, hok₂, hb₂, harena₂, hmem₂⟩ :=
    splitChunk_spec nb hb₁ he₁ hs₂ (by omega) hnn hlen
  -- clear
  have hset : memset sp h₂.mem e.addr 0 sizeofChunk = .ok (fill h₂.mem e.addr 24 0) :=
    memset_shift fun j hj =>
      iso.own _ (by omega) (by unfold sizeofChunk at hj; omega)
  set h₃ : Heap := ({ h₂ with mem := fill h₂.mem e.addr 24 0 } : Heap).setSize e.addr nb
    with hh₃
  have hmem₃ : ∀ a, a < e.addr ∨ e.addr + 24 ≤ a → h₃.mem a = h₂.mem a := by
    intro a ha
    exact (Heap.setSize_mem (by omega)).trans (fill_of_notMem ha)
  refine ⟨h₃, ?_, ?_, load64_store64_of_lt (by omega), ?_, fun a ha₁ ha₂ => ?_, ?_⟩
  · rw [fetchChunk, hok₂]
    simp only [ok_bind, hset]
    rfl
  · refine hb₂.frame fun f hf a ha₁ ha₂ => hmem₃ a ?_
    have hap := (List.pairwise_append.mp ht.apart).2.2 f hf ⟨e.addr, nb⟩ List.mem_cons_self
    have hroom := hspread.room f (List.mem_append_left _ hf)
    have hroom' := hspread.room ⟨e.addr, nb⟩ (by simp)
    unfold Extent.Apart Extent.fin at hap
    simp only at hap hroom'
    omega
  · show h₂.arena = { h.arena with sortedBin := h₂.arena.sortedBin }
    rw [harena₂, hh₁, Heap.setNext_arena]
  · exact (Heap.setSize_mem (by omega)).trans (fill_of_mem (by omega) ha₂)
  · intro a ha hae hsz
    rw [hmem₃ a hae, hmem₂ a ha hsz]
    exact setNext_placeAfter_mem fun f hf => ha f (List.mem_append_left _ hf)

/-- Bytes of another chunk of the heap are off the links of the bin. -/
theorem HeapInv.offLinks_used (inv : HeapInv S h bin used) {f : Extent} (hf : f ∈ used)
    {a : Nat} (ha : f.Has a) : OffLinks bin a := by
  intro g hg
  have hap := (List.pairwise_append.mp inv.tiles.apart).2.2 g hg f hf
  have hroom := inv.spread.room g (List.mem_append_left _ hg)
  unfold Extent.Apart Extent.fin at hap
  unfold Extent.Has Extent.fin at ha
  omega

/-- Bytes outside of the arena are, too. -/
theorem HeapInv.offLinks_outside (inv : HeapInv S h bin used) {a : Nat}
    (ha : a < S.base ∨ S.limit ≤ a) : OffLinks bin a := by
  intro g hg
  have hgb := inv.bounds (List.mem_append_left used hg)
  have htop := inv.top_le
  unfold Extent.fin at hgb
  omega

/-- The bytes of the block behind the fields of its chunk are left as they are. -/
theorem HeapInv.offLinks_block (inv : HeapInv S h (pre ++ e :: post) used) {a : Nat}
    (ha : e.Has a) : OffLinks (pre ++ post) a := by
  intro g hg
  have hs := inv.spread.perm (List.perm_middle.append_right used)
  have hap := (List.pairwise_cons.mp hs.apart).1 g (List.mem_append_left _ hg)
  have hroom := hs.room g (List.mem_cons_of_mem _ (List.mem_append_left _ hg))
  unfold Extent.Apart Extent.fin at hap
  unfold Extent.Has Extent.fin at ha
  omega

/-- **A fetched chunk**: the invariant, and what is left alone. -/
theorem fetchChunk_spec (iso : Isolated sp S) (inv : HeapInv S h (pre ++ e :: post) used)
    (hnb : nb % 0x80 = 0) (hpos : 0 < nb) (hle : nb ≤ e.size) :
    ∃ h', fetchChunk sp h nb (placeAfter pre) e.addr = .ok (h', e.addr + 16) ∧
      HeapInv S h' (binAfter (pre ++ post) e nb) (⟨e.addr, nb⟩ :: used) ∧
      h'.arena = { h.arena with sortedBin := h'.arena.sortedBin } ∧
      Untouched S h.mem h'.mem used ∧
      ∀ a, e.addr + 24 ≤ a → a < e.addr + nb → h'.mem a = h.mem a := by
  obtain ⟨h', hok, hbin, hsize, harena, -, hframe⟩ := fetchChunk_mem iso inv hnb hpos hle
  have hmem : ∀ a, OffLinks (pre ++ post) a → a < e.addr ∨ e.addr + 24 ≤ a →
      (e.size ≠ nb → a < e.addr + nb ∨ e.addr + nb + 24 ≤ a) → h'.mem a = h.mem a := by
    refine fun a ha hae hsz => hframe a ha hae fun hne => ⟨fun f hf => ?_, ?_⟩
    · have := hsz hne
      rw [List.mem_singleton.mp hf]
      dsimp only
      omega
    · have := hsz hne
      omega
  have hin : e ∈ pre ++ e :: post := by simp
  have he := inv.bounds (List.mem_append_left used hin)
  have htop := inv.top_le
  have hblock : e.size ≠ nb → e.addr + nb + 24 ≤ e.fin := by
    intro hsz
    have hs := inv.cut_spread hnb hpos hle
    have hmem' : (⟨e.addr + nb, e.size - nb⟩ : Extent) ∈ binAfter (pre ++ post) e nb := by
      rw [binAfter, if_neg hsz]
      exact mem_binInsert.mpr (.inl rfl)
    have := hs.room _ (List.mem_append_left _ hmem')
    unfold Extent.fin
    simp only at this
    omega
  have hoff : ∀ a, OffLinks (pre ++ e :: post) a → a < e.addr ∨ e.fin ≤ a →
      h'.mem a = h.mem a := by
    intro a ha hae
    have hroom := he.2.2
    refine hmem a (fun f hf => ha f (mem_around hf)) ?_ fun hsz => ?_
    · unfold Extent.fin at hae
      omega
    · have := hblock hsz
      omega
  have hun : Untouched S h.mem h'.mem used := by
    refine ⟨fun f hf a ha => hoff a (inv.offLinks_used hf ha) ?_,
      fun a ha => hoff a (inv.offLinks_outside ha) ?_⟩
    · have hap := (List.pairwise_append.mp inv.tiles.apart).2.2 e hin f hf
      unfold Extent.Apart at hap
      unfold Extent.Has at ha
      omega
    · omega
  refine ⟨h', hok, ⟨?_, ?_, hbin, ?_, fun f hf => ?_,
    fun f hf => ?_, ?_, inv.cut_shape hnb hle, ?_⟩, harena, hun, fun a h₁ h₂ => hmem a
    (inv.offLinks_block ⟨by omega, by unfold Extent.fin; omega⟩) (.inr h₁) fun _ => .inl h₂⟩
  · rw [harena]
    exact inv.minAddr
  · rw [harena]
    exact inv.limit
  · unfold binAfter
    have hsorted : BySize (pre ++ post) :=
      inv.sorted.sublist ((List.Sublist.refl pre).append (List.sublist_cons_self _ _))
    split
    · exact hsorted
    · exact hsorted.insert _
  · rcases mem_binAfter hf with hf | ⟨-, rfl⟩
    · exact inv.small f (mem_around hf)
    · exact Nat.lt_of_le_of_lt (Nat.sub_le _ _) (inv.small e hin)
  · rcases List.mem_cons.mp hf with rfl | hf
    · exact hsize
    · rw [← inv.stored f hf]
      refine sizeOf_congr fun a ha₁ ha₂ => hun.used f hf a ⟨ha₁, ?_⟩
      have := inv.bounds (List.mem_append_right (pre ++ e :: post) hf)
      unfold Extent.fin
      omega
  · rw [harena]
    exact tiles_take inv.tiles hpos hle
  · rw [harena]
    exact inv.top

/-- The loop of `fetch_sorted_bin`, standing before the chunks `rest`. -/
theorem fetchSortedBinFrom_spec (iso : Isolated sp S) (hnb : nb % 0x80 = 0) (hpos : 0 < nb)
    (inv : HeapInv S h bin used) :
    ∀ (rest pre : List Extent) (fuel : Nat), bin = pre ++ rest → (∀ f ∈ pre, f.size < nb) →
      rest.length < fuel →
      ((∀ f ∈ rest, f.size < nb) ∧
        fetchSortedBinFrom sp h nb fuel (placeAfter pre) (headAddr rest) = .ok (h, 0)) ∨
      ∃ pre' e post, bin = pre' ++ e :: post ∧ (∀ f ∈ pre', f.size < nb) ∧ nb ≤ e.size ∧
        fetchSortedBinFrom sp h nb fuel (placeAfter pre) (headAddr rest)
          = fetchChunk sp h nb (placeAfter pre') e.addr
  | _, _, 0, _, _, hf => absurd hf (Nat.not_lt_zero _)
  | [], pre, fuel + 1, _, _, _ => by
    refine .inl ⟨by simp, ?_⟩
    rw [headAddr, fetchSortedBinFrom, if_pos rfl]
  | e :: rest, pre, fuel + 1, hbin, hpre, hf => by
    have hin : e ∈ bin := by simp [hbin]
    have hne : e.addr ≠ 0 := by
      have h₁ := (inv.bounds (List.mem_append_left used hin)).1
      have h₂ := S.base_pos
      omega
    have hsize := inv.threaded.stored e hin
    have hvalid := inv.valid_size (List.mem_append_left used hin) (inv.small e hin)
    rw [headAddr, fetchSortedBinFrom, if_neg hne, hsize, hvalid, if_neg Bool.false_ne_true]
    by_cases hfit : nb ≤ e.size
    · rw [if_pos hfit]
      exact .inr ⟨pre, e, rest, hbin, hpre, hfit, rfl⟩
    · rw [if_neg hfit]
      have hplace : some e.addr = placeAfter (pre ++ [e]) := by
        rw [placeAfter, List.map_append, List.map_cons, List.map_nil, Seg.link_append_singleton]
      have hnext : nextOf h.mem e.addr = headAddr rest := by
        have hb := inv.threaded
        rw [hbin] at hb
        exact (Bin.append.mp hb).2.1.tail.head_eq
      rw [hplace, hnext]
      have hpre' : ∀ f ∈ pre ++ [e], f.size < nb := by
        intro f hf
        rcases List.mem_append.mp hf with hf | hf
        · exact hpre f hf
        · rw [List.mem_singleton.mp hf]
          omega
      rcases fetchSortedBinFrom_spec iso hnb hpos inv rest (pre ++ [e]) fuel (by
          rw [hbin, List.append_assoc]; rfl) hpre' (Nat.lt_of_succ_lt_succ hf) with hall | hsome
      · refine .inl ⟨fun f hf => ?_, hall.2⟩
        rcases List.mem_cons.mp hf with rfl | hf
        · omega
        · exact hall.1 f hf
      · exact .inr hsome

/-- **`fetch_sorted_bin` is a first fit in the sorted bin.** -/
theorem fetchSortedBin_spec (iso : Isolated sp S) (inv : HeapInv S h bin used)
    (hnb : nb % 0x80 = 0) (hpos : 0 < nb) :
    ((∀ f ∈ bin, f.size < nb) ∧ fetchSortedBin sp h nb = .ok (h, 0)) ∨
    ∃ pre e post h', bin = pre ++ e :: post ∧ (∀ f ∈ pre, f.size < nb) ∧ nb ≤ e.size ∧
      fetchSortedBin sp h nb = .ok (h', e.addr + 16) ∧
      HeapInv S h' (binAfter (pre ++ post) e nb) (⟨e.addr, nb⟩ :: used) ∧
      h'.arena = { h.arena with sortedBin := h'.arena.sortedBin } ∧
      Untouched S h.mem h'.mem used ∧ ∀ a, e.addr + 24 ≤ a → a < e.addr + nb →
        h'.mem a = h.mem a := by
  have hwalk := fetchSortedBinFrom_spec iso hnb hpos inv bin [] walkFuel rfl (by simp)
    inv.bin_length
  rw [fetchSortedBin, inv.threaded.head_eq]
  rcases hwalk with hall | ⟨pre, e, post, rfl, hpre, hfit, heq⟩
  · exact .inl hall
  · obtain ⟨h', hok, hrest⟩ := fetchChunk_spec iso inv hnb hpos hfit
    exact .inr ⟨pre, e, post, h', rfl, hpre, hfit, heq.trans hok, hrest⟩

end

/-! ## The top of the arena -/

section

variable {sp : Space} {S : Range} {h : Heap} {bin used : List Extent} {e : Extent}
  {nb align : Nat}

/-- `malloc_top` carves a chunk off the unused area. -/
theorem mallocTop_spec (inv : HeapInv S h bin used) (hpos : 0 < nb) (hnb : Boundary nb)
    (htop : Boundary (h.arena.top + nb)) (hroom : nb ≤ h.arena.topSize) :
    ∃ h', mallocTop h nb = (h', h.arena.top + 16) ∧
      HeapInv S h' bin (⟨h.arena.top, nb⟩ :: used) ∧
      h'.arena = { h.arena with top := h.arena.top + nb, topSize := h.arena.topSize - nb } ∧
      ∀ a, a < h.arena.top ∨ h.arena.top + 8 ≤ a → h'.mem a = h.mem a := by
  have hlimit := inv.limit
  have hlt := S.limit_lt
  have hinside : ∀ f ∈ bin ++ used, f.addr + f.size ≤ h.arena.top ∧ 0x70 ≤ f.size :=
    fun f hf => (inv.bounds hf).2
  refine ⟨_, if_neg (by omega), ?_, rfl, fun a ha => store64_of_notMem ha⟩
  refine ⟨inv.minAddr, ?_, ?_, inv.sorted, inv.small, fun f hf => ?_, ?_, fun f hf => ?_, htop⟩
  · simp only
    omega
  · refine inv.threaded.frame fun f hf a h₁ h₂ => store64_of_notMem ?_
    have := hinside f (List.mem_append_left _ hf)
    omega
  · rcases List.mem_cons.mp hf with rfl | hf
    · exact load64_store64_of_lt (by omega)
    · rw [← inv.stored f hf]
      refine load64_store64_of_apart ?_
      have := hinside f (List.mem_append_right _ hf)
      omega
  · exact (inv.tiles.push hpos).perm List.perm_middle.symm
  · rcases List.mem_append.mp hf with hf | hf
    · exact inv.shape f (List.mem_append_left _ hf)
    · rcases List.mem_cons.mp hf with rfl | hf
      · exact ⟨inv.top, htop, hnb⟩
      · exact inv.shape f (List.mem_append_right _ hf)

theorem mallocTop_refuse (hroom : h.arena.topSize < nb) : mallocTop h nb = (h, 0) :=
  if_pos hroom

/-- What the two branches of `kfree` have in common. -/
theorem kfree_eq (inv : HeapInv S h bin (e :: used)) (hlt : e.size < 2 ^ 32) :
    kfree h (e.addr + 16) = if e.fin = h.arena.top then
      .ok { mem := store64 h.mem e.addr 0
            arena := { h.arena with top := e.addr, topSize := h.arena.topSize + e.size } }
    else insertSorted h e.addr := by
  have hin : e ∈ bin ++ e :: used := by simp
  have hvalid := inv.valid_size hin hlt
  have hsize := inv.stored e List.mem_cons_self
  rw [kfree, if_neg (by omega)]
  simp only [mem2chunk, Nat.add_sub_cancel, hsize, hvalid, Bool.false_eq_true, if_false]
  rw [Nat.add_comm e.size e.addr]
  rfl

/-- `kfree` of the chunk below the top gives it back to the unused area. -/
theorem kfree_top (inv : HeapInv S h bin (e :: used)) (hlt : e.size < 2 ^ 32)
    (htop : e.fin = h.arena.top) :
    ∃ h', kfree h (e.addr + 16) = .ok h' ∧ HeapInv S h' bin used ∧
      h'.arena = { h.arena with top := e.addr, topSize := h.arena.topSize + e.size } ∧
      ∀ a, a < e.addr ∨ e.addr + 8 ≤ a → h'.mem a = h.mem a := by
  have hin : e ∈ bin ++ e :: used := by simp
  have hlimit := inv.limit
  have hap : ∀ f ∈ bin ++ used, f.addr + 24 ≤ e.addr ∨ e.addr + 24 ≤ f.addr := by
    have hs := inv.spread.perm List.perm_middle
    intro f hf
    have h₁ := (List.pairwise_cons.mp hs.apart).1 f hf
    have h₂ := hs.room e List.mem_cons_self
    have h₃ := hs.room f (List.mem_cons_of_mem _ hf)
    unfold Extent.Apart Extent.fin at h₁
    omega
  refine ⟨_, (kfree_eq inv hlt).trans (if_pos htop), ?_, rfl, fun a ha => store64_of_notMem ha⟩
  refine ⟨inv.minAddr, ?_, ?_, inv.sorted, inv.small, fun f hf => ?_, ?_, fun f hf => ?_, ?_⟩
  · simp only
    unfold Extent.fin at htop
    omega
  · refine inv.threaded.frame fun f hf a h₁ h₂ => store64_of_notMem ?_
    have := hap f (List.mem_append_left _ hf)
    omega
  · rw [← inv.stored f (List.mem_cons_of_mem _ hf)]
    refine load64_store64_of_apart ?_
    have := hap f (List.mem_append_right _ hf)
    omega
  · exact (inv.tiles.perm List.perm_middle).pop htop
  · exact inv.shape f (List.perm_middle.mem_iff.mpr (List.mem_cons_of_mem _ hf))
  · exact (inv.shape e hin).start

/-- `kfree` of any other chunk puts it into the bin. -/
theorem kfree_bin (inv : HeapInv S h bin (e :: used)) (hlt : e.size < 2 ^ 32)
    (htop : e.fin ≠ h.arena.top) :
    ∃ h', kfree h (e.addr + 16) = .ok h' ∧ HeapInv S h' (binInsert e bin) used ∧
      h'.arena = { h.arena with sortedBin := h'.arena.sortedBin } ∧
      Untouched S h.mem h'.mem used := by
  have hs := inv.spread.perm List.perm_middle
  have hsbin : Spread (e :: bin) := hs.sublist ((List.sublist_append_left _ _).cons_cons _)
  have hnn : ∀ f ∈ bin, f.addr ≠ 0 := by
    intro f hf
    have h₁ := (inv.bounds (List.mem_append_left _ hf)).1
    have h₂ := S.base_pos
    omega
  obtain ⟨h', hok, hbin, harena, hmem⟩ := insertSorted_spec inv.threaded
    (inv.stored e List.mem_cons_self) hsbin hnn inv.bin_length
  have hperm : (bin ++ e :: used).Perm (binInsert e bin ++ used) :=
    List.perm_middle.trans ((binInsert_perm e bin).symm.append_right used)
  have hun : Untouched S h.mem h'.mem used := by
    refine ⟨fun f hf a ha => hmem a fun g hg => ?_, fun a ha => hmem a fun g hg => ?_⟩
    · have hap :=
        (List.pairwise_append.mp (hs.apart : (e :: bin ++ used).Pairwise _)).2.2 g hg f hf
      have hroom := hsbin.room g hg
      unfold Extent.Apart Extent.fin at hap
      unfold Extent.Has Extent.fin at ha
      omega
    · have hg' : g ∈ bin ++ e :: used :=
        List.perm_middle.mem_iff.mpr (List.mem_append_left _ hg : g ∈ (e :: bin) ++ used)
      have hgb := inv.bounds hg'
      have htl := inv.top_le
      unfold Extent.fin at hgb
      omega
  refine ⟨h', (kfree_eq inv hlt).trans ((if_neg htop).trans hok), ?_, harena, hun⟩
  refine ⟨?_, ?_, hbin, inv.sorted.insert e, fun f hf => ?_, fun f hf => ?_, ?_,
    fun f hf => ?_, ?_⟩
  · rw [harena]
    exact inv.minAddr
  · rw [harena]
    exact inv.limit
  · rcases mem_binInsert.mp hf with rfl | hf
    · exact hlt
    · exact inv.small f hf
  · rw [← inv.stored f (List.mem_cons_of_mem _ hf)]
    refine sizeOf_congr fun a h₁ h₂ => hun.used f hf a ⟨h₁, ?_⟩
    have := inv.bounds (List.mem_append_right bin (List.mem_cons_of_mem _ hf))
    unfold Extent.fin
    omega
  · rw [harena]
    exact inv.tiles.perm hperm
  · exact inv.shape f (hperm.mem_iff.mpr hf)
  · rw [harena]
    exact inv.top

/-- A write below or above every chunk in use and inside the arena. -/
theorem HeapInv.untouched_of_top (inv : HeapInv S h bin used) {m' : Mem}
    (hm : ∀ a, a < h.arena.top ∨ S.limit ≤ a → m' a = h.mem a) :
    Untouched S h.mem m' used := by
  refine ⟨fun f hf a ha => hm a (.inl ?_), fun a ha => hm a ?_⟩
  · have := (inv.bounds (List.mem_append_right bin hf)).2.1
    unfold Extent.Has at ha
    omega
  · have := inv.tiles.le
    omega

/-- **`kfree` keeps the invariant.** -/
theorem kfree_spec (inv : HeapInv S h bin (e :: used)) (hlt : e.size < 2 ^ 32) :
    ∃ h' bin', kfree h (e.addr + 16) = .ok h' ∧ HeapInv S h' bin' used ∧
      Untouched S h.mem h'.mem used ∧ h.arena.topSize ≤ h'.arena.topSize := by
  by_cases htop : e.fin = h.arena.top
  · obtain ⟨h', hok, hinv, harena, hmem⟩ := kfree_top inv hlt htop
    have he := inv.bounds (show e ∈ bin ++ e :: used by simp)
    have hlimit := inv.top_le
    have hs := inv.tiles.perm List.perm_middle
    refine ⟨h', bin, hok, hinv, ⟨fun f hf a ha => hmem a ?_, fun a ha => hmem a ?_⟩, ?_⟩
    · have hap := (List.pairwise_cons.mp hs.apart).1 f (List.mem_append_right _ hf)
      unfold Extent.Apart at hap
      unfold Extent.Has at ha
      unfold Extent.fin at *
      omega
    · unfold Extent.fin at *
      omega
    · rw [harena]
      exact Nat.le_add_right _ _
  · obtain ⟨h', hok, hinv, harena, hun⟩ := kfree_bin inv hlt htop
    exact ⟨h', binInsert e bin, hok, hinv, hun, by rw [harena]⟩

/-! ## `int_kmalloc` -/

/-- A request the allocator turned down: the arena is as it was, and only the
unused area was written. -/
structure Refused (S : Range) (h h' : Heap) : Prop where
  arena : h'.arena = h.arena
  mem : ∀ a, a < h.arena.top ∨ S.limit ≤ a → h'.mem a = h.mem a

theorem Refused.refl (S : Range) (h : Heap) : Refused S h h := ⟨rfl, fun _ _ => rfl⟩

theorem Refused.inv {h' : Heap} (hr : Refused S h h') (inv : HeapInv S h bin used) :
    HeapInv S h' bin used := by
  have hin : ∀ f ∈ bin ++ used, f.addr + f.size ≤ h.arena.top ∧ 0x70 ≤ f.size :=
    fun f hf => (inv.bounds hf).2
  refine inv.frame hr.arena (fun f hf a h₁ h₂ => hr.mem a ?_) fun f hf a h₁ h₂ => hr.mem a ?_
  · have := hin f (List.mem_append_left _ hf)
    omega
  · have := hin f (List.mem_append_right _ hf)
    omega

/-- A request that was served with the chunk `c`, for which the unused area gave
up at most the chunk and a gap before it. -/
structure Served (S : Range) (h h' : Heap) (used : List Extent) (c : Extent)
    (bin' : List Extent) : Prop where
  inv : HeapInv S h' bin' (c :: used)
  untouched : Untouched S h.mem h'.mem used
  room : h.arena.topSize ≤ h'.arena.topSize + c.size + 0x1000

theorem mallocTop_served (inv : HeapInv S h bin used) (hpos : 0 < nb) (hnb : nb % 0x80 = 0)
    (hroom : nb ≤ h.arena.topSize) :
    ∃ h', mallocTop h nb = (h', h.arena.top + 16) ∧
      Served S h h' used ⟨h.arena.top, nb⟩ bin ∧ h.arena.topSize = h'.arena.topSize + nb ∧
      ∀ a, h.arena.top + 8 ≤ a → h'.mem a = h.mem a := by
  have htop := inv.top
  have hlimit := inv.limit
  have hb : Boundary (h.arena.top + nb) := by
    unfold Boundary at *
    omega
  obtain ⟨h', heq, hinv, harena, hmem⟩ := mallocTop_spec inv hpos (.inl hnb) hb hroom
  have hsize : h.arena.topSize = h'.arena.topSize + nb := by
    rw [harena]
    exact (Nat.sub_add_cancel hroom).symm
  refine ⟨h', heq, ⟨hinv, inv.untouched_of_top fun a ha => hmem a ?_, by simp only; omega⟩,
    hsize, fun a ha => hmem a (.inr ha)⟩
  rcases ha with ha | ha
  · exact .inl ha
  · have hnb' : 8 ≤ nb := by omega
    omega

/-- **Where a request gets its chunk**, by its alignment: the first chunk in the bin that is
large enough, else the start of the unused area; for a page-aligned block the unused area behind
a gap, which goes to the bin. -/
inductive Placed (h h' : Heap) (bin bin' : List Extent) (c : Extent) : Nat → Prop
  | bin {pre post : List Extent} {e : Extent} (split : bin = pre ++ e :: post)
      (first : ∀ f ∈ pre, f.size < c.size) (fits : c.size ≤ e.size) (addr : c.addr = e.addr)
      (left : bin' = binAfter (pre ++ post) e c.size) (top : h'.arena.top = h.arena.top) :
      Placed h h' bin bin' c mallocNoAlign
  | top (none : ∀ f ∈ bin, f.size < c.size) (addr : c.addr = h.arena.top) (left : bin' = bin)
      (top : h'.arena.top = c.fin) : Placed h h' bin bin' c mallocNoAlign
  | page (addr : c.addr = h.arena.top + consume h.arena.top mallocPageAlign)
      (left : bin' = if consume h.arena.top mallocPageAlign = 0 then bin else
        binInsert ⟨h.arena.top, consume h.arena.top mallocPageAlign⟩ bin)
      (top : h'.arena.top = c.fin) : Placed h h' bin bin' c mallocPageAlign

/-- Only the arena counts. -/
theorem Placed.setMem {h' : Heap} {bin' : List Extent} {c : Extent}
    (hp : Placed h h' bin bin' c align) (m : Mem) :
    Placed h { h' with mem := m } bin bin' c align := by
  cases hp with
  | bin split first fits addr left top => exact .bin split first fits addr left top
  | top none addr left top => exact .top none addr left top
  | page addr left top => exact .page addr left top

/-- **Unaligned requests** are served from the bin if it has a chunk that fits,
else from the top. -/
theorem intKmalloc_noAlign (iso : Isolated sp S) (inv : HeapInv S h bin used)
    (hnb : nb % 0x80 = 0) (hpos : 0 < nb) :
    (intKmalloc sp h nb mallocNoAlign = .ok (h, 0) ∧
      (∀ f ∈ bin, f.size < nb) ∧ h.arena.topSize < nb) ∨
    ∃ h' c bin', intKmalloc sp h nb mallocNoAlign = .ok (h', c.addr + 16) ∧ c.size = nb ∧
      Served S h h' used c bin' ∧ Placed h h' bin bin' c mallocNoAlign ∧
      ∀ a, c.addr + 24 ≤ a → a < c.addr + nb → h'.mem a = h.mem a := by
  rw [intKmalloc, if_pos rfl]
  rcases fetchSortedBin_spec iso inv hnb hpos with
    ⟨hall, hok⟩ | ⟨pre, e, post, h', hbin, hpre, hfit, hok, hinv, harena, hun, hkept⟩
  · rw [hok]
    simp only [ok_bind, if_true]
    by_cases hroom : h.arena.topSize < nb
    · exact .inl ⟨by rw [mallocTop_refuse hroom]; rfl, hall, hroom⟩
    · obtain ⟨h', heq, hserved, hsize, hkept⟩ :=
        mallocTop_served inv hpos hnb (Nat.le_of_not_lt hroom)
      refine .inr ⟨h', _, bin, ?_, rfl, hserved, .top hall rfl rfl ?_, fun a ha _ => hkept a ?_⟩
      · rw [heq]
        rfl
      · have h₁ := inv.limit
        have h₂ := hserved.inv.limit
        unfold Extent.fin
        simp only
        omega
      · exact Nat.le_trans (Nat.add_le_add_left (by decide) _) ha
  · refine .inr ⟨h', ⟨e.addr, nb⟩, _, ?_, rfl, ⟨hinv, hun, ?_⟩, .bin hbin hpre hfit rfl rfl ?_,
      hkept⟩
    · rw [hok]
      rfl
    · rw [harena]
      simp only
      omega
    · rw [harena]

/-- The gap brings the next block onto a page boundary, and is itself a
well-shaped chunk. -/
theorem consume_page {top : Nat} (htop : Boundary top) :
    (top + consume top mallocPageAlign) % 0x1000 = 0xff0 ∧
      Boundary (consume top mallocPageAlign) ∧ consume top mallocPageAlign < 0x1000 := by
  have hand : ∀ v : Nat, v &&& (mallocPageAlign - 1) = v % 0x1000 :=
    fun v => Nat.and_two_pow_sub_one_eq_mod v 12
  have heq : consume top mallocPageAlign
      = (0xff0 + 2 ^ 64 - top % 0x1000) % 2 ^ 64 % 0x1000 := by
    rw [consume, hand, hand]
    rfl
  rw [heq]
  unfold Boundary at *
  omega

/-- **Page-aligned requests** are served from the top, behind a gap that goes
back to the heap before the routine returns. -/
theorem intKmalloc_page (sp : Space) (inv : HeapInv S h bin used) (hnb : nb % 0x80 = 0)
    (hpos : 0 < nb) :
    (∃ h', intKmalloc sp h nb mallocPageAlign = .ok (h', 0) ∧ Refused S h h' ∧
      h.arena.topSize < consume h.arena.top mallocPageAlign + nb) ∨
    ∃ h' c bin', intKmalloc sp h nb mallocPageAlign = .ok (h', c.addr + 16) ∧ c.size = nb ∧
      (c.addr + 16) % 0x1000 = 0 ∧ Served S h h' used c bin' ∧
        Placed h h' bin bin' c mallocPageAlign := by
  obtain ⟨halign, hskip, hsmall⟩ := consume_page inv.top
  set skip := consume h.arena.top mallocPageAlign with hdef
  have hlimit := inv.limit
  have hlt := S.limit_lt
  have hbase := S.base_pos
  have hle := inv.tiles.le
  have htopskip : Boundary (h.arena.top + skip) := by
    unfold Boundary
    omega
  have hunfold : intKmalloc sp h nb mallocPageAlign
      = if skip = 0 then .ok (mallocTop h nb)
        else if (mallocTop h skip).2 = 0 then .ok ((mallocTop h skip).1, 0)
        else do
          let h₂ ← kfree (mallocTop (mallocTop h skip).1 nb).1 (mallocTop h skip).2
          return (h₂, (mallocTop (mallocTop h skip).1 nb).2) := by
    rw [intKmalloc, if_neg (by decide), if_neg (by simp)]
  rw [hunfold]
  by_cases hz : skip = 0
  · rw [if_pos hz]
    by_cases hroom : h.arena.topSize < nb
    · exact .inl ⟨h, by rw [mallocTop_refuse hroom], Refused.refl S h, by omega⟩
    · obtain ⟨h', heq, hserved, hsize, -⟩ :=
        mallocTop_served inv hpos hnb (Nat.le_of_not_lt hroom)
      have htop : h'.arena.top = h.arena.top + nb := by
        have := hserved.inv.limit
        omega
      exact .inr ⟨h', _, bin, by rw [heq], rfl, by simp only; omega, hserved,
        .page (by simp only; omega) (if_pos hz).symm htop⟩
  rw [if_neg hz]
  by_cases hgap : h.arena.topSize < skip
  · rw [mallocTop_refuse hgap]
    exact .inl ⟨h, if_pos rfl, Refused.refl S h, by omega⟩
  obtain ⟨h₁, heq₁, hinv₁, harena₁, hmem₁⟩ :=
    mallocTop_spec inv (Nat.pos_of_ne_zero hz) hskip htopskip (Nat.le_of_not_lt hgap)
  have htop₁ : h₁.arena.top = h.arena.top + skip := by rw [harena₁]
  have hsize₁ : h₁.arena.topSize = h.arena.topSize - skip := by rw [harena₁]
  rw [heq₁]
  simp only
  rw [if_neg (by omega)]
  have hskip16 : 16 ≤ skip := by
    unfold Boundary at hskip
    omega
  have hmemtop : ∀ a, a < h.arena.top ∨ S.limit ≤ a → h₁.mem a = h.mem a := by
    intro a ha
    exact hmem₁ a (by omega)
  by_cases hroom : h₁.arena.topSize < nb
  · -- the block does not fit: the gap is the topmost chunk and merges back
    rw [mallocTop_refuse hroom]
    obtain ⟨h₂, hok₂, -, harena₂, hmem₂⟩ :=
      kfree_top (e := ⟨h.arena.top, skip⟩) hinv₁ (by simp only; omega) htop₁.symm
    refine .inl ⟨h₂, ?_, ⟨?_, fun a ha => ?_⟩, by omega⟩
    · simp only [hok₂, ok_bind]
      rfl
    · rw [harena₂, harena₁]
      simp only [Nat.sub_add_cancel (Nat.le_of_not_lt hgap)]
    · rw [hmem₂ a (by simp only; omega)]
      exact hmemtop a ha
  · -- the gap lies below the block, so it goes to the bin
    obtain ⟨h₂, heq₂, hserved, hsize₂, -⟩ :=
      mallocTop_served hinv₁ hpos hnb (Nat.le_of_not_lt hroom)
    rw [heq₂]
    have hinv₂ : HeapInv S h₂ bin (⟨h.arena.top, skip⟩ :: ⟨h₁.arena.top, nb⟩ :: used) :=
      hserved.inv.perm_used (List.Perm.swap _ _ _)
    have htop₂ : h₂.arena.top = h₁.arena.top + nb := by
      have := hserved.inv.limit
      omega
    obtain ⟨h₃, hok₃, hinv₃, harena₃, hun₃⟩ := kfree_bin hinv₂ (by simp only; omega)
      (by unfold Extent.fin; simp only; omega)
    refine .inr ⟨h₃, ⟨h₁.arena.top, nb⟩, _, ?_, rfl, ?_, ⟨hinv₃, ?_, ?_⟩,
      .page htop₁ (if_neg hz).symm ?_⟩
    · simp only [hok₃, ok_bind]
      rfl
    · simp only [htop₁]
      omega
    · refine (inv.untouched_of_top hmemtop).trans ?_
      refine Untouched.trans (hserved.untouched.mono (List.subset_cons_self _ _)) ?_
      exact hun₃.mono (List.subset_cons_self _ _)
    · rw [harena₃]
      simp only
      omega
    · rw [harena₃]
      exact htop₂

/-! ## `kmalloc` -/

theorem alignupTo_spec (v : Nat) : alignupTo v 0x80 % 0x80 = 0 ∧ v ≤ alignupTo v 0x80 ∧
    alignupTo v 0x80 < v + 0x80 := by
  unfold alignupTo
  split <;> omega

/-- The block is cleared. -/
theorem kmalloc_clear (len : Nat) {h' : Heap} {c : Extent} {bin' : List Extent}
    (iso : Isolated sp S) (hs : Served S h h' used c bin') (hlen : len + 16 ≤ c.size) :
    ∃ m, memset sp h'.mem (c.addr + 16) 0 len = .ok m ∧
      Served S h { h' with mem := m } used c bin' ∧
      ∀ a, c.addr + 16 ≤ a → a < c.addr + 16 + len → m a = 0 := by
  have hin : c ∈ bin' ++ c :: used := by simp
  have hb := hs.inv.bounds hin
  have htop := hs.inv.top_le
  unfold Extent.fin at hb
  have hset : memset sp h'.mem (c.addr + 16) 0 len = .ok (fill h'.mem (c.addr + 16) len 0) :=
    memset_shift fun j hj => iso.own _ (by omega) (by omega)
  have hspread := hs.inv.spread.perm List.perm_middle
  have hap := (List.pairwise_cons.mp hspread.apart).1
  -- the cleared bytes are the chunk's own, behind its header
  have hother : ∀ f ∈ bin' ++ used, ∀ a, f.Has a →
      fill h'.mem (c.addr + 16) len 0 a = h'.mem a := by
    intro f hf a ha
    refine fill_of_notMem ?_
    have := hap f hf
    unfold Extent.Apart Extent.Has Extent.fin at *
    omega
  have hsize : ∀ f ∈ bin' ++ c :: used, 0x70 ≤ f.size := fun f hf => (hs.inv.bounds hf).2.2
  refine ⟨_, hset, ⟨?_, ?_, hs.room⟩, fun a h₁ h₂ => fill_of_mem h₁ h₂⟩
  · refine hs.inv.frame rfl (fun f hf a h₁ h₂ => ?_) fun f hf a h₁ h₂ => ?_
    · have hroom := hsize f (List.mem_append_left _ hf)
      refine hother f (List.mem_append_left _ hf) a ⟨h₁, ?_⟩
      unfold Extent.fin
      omega
    · rcases List.mem_cons.mp hf with rfl | hf
      · exact fill_of_notMem (by omega)
      · have hroom := hsize f (List.mem_append_right _ (List.mem_cons_of_mem _ hf))
        refine hother f (List.mem_append_right _ hf) a ⟨h₁, ?_⟩
        unfold Extent.fin
        omega
  · refine hs.untouched.trans ⟨fun f hf a ha => hother f (List.mem_append_right _ hf) a ha,
      fun a ha => fill_of_notMem ?_⟩
    omega

/-- **`int_kmalloc`** turns a request down or serves it. -/
theorem intKmalloc_spec (iso : Isolated sp S) (inv : HeapInv S h bin used)
    (halign : align = mallocNoAlign ∨ align = mallocPageAlign) (hnb : nb % 0x80 = 0)
    (hpos : 0 < nb) :
    (∃ h', intKmalloc sp h nb align = .ok (h', 0) ∧ Refused S h h' ∧
      h.arena.topSize < nb + 0x1000) ∨
    ∃ h' c bin', intKmalloc sp h nb align = .ok (h', c.addr + 16) ∧ c.size = nb ∧
      (align = mallocPageAlign → (c.addr + 16) % 0x1000 = 0) ∧ Served S h h' used c bin' ∧
      Placed h h' bin bin' c align := by
  rcases halign with rfl | rfl
  · rcases intKmalloc_noAlign iso inv hnb hpos with ⟨hok, -, hroom⟩ |
      ⟨h', c, bin', hok, hc, hs, hplaced, -⟩
    · exact .inl ⟨h, hok, Refused.refl S h, by omega⟩
    · exact .inr ⟨h', c, bin', hok, hc, fun h => absurd h (by decide), hs, hplaced⟩
  · rcases intKmalloc_page sp inv hnb hpos with
      ⟨h', hok, href, hroom⟩ | ⟨h', c, bin', hok, hc, hal, hs, hplaced⟩
    · have hgap := (consume_page inv.top).2.2
      exact .inl ⟨h', hok, href, by omega⟩
    · exact .inr ⟨h', c, bin', hok, hc, fun _ => hal, hs, hplaced⟩

/-- The check of the result's alignment passes for null and for an aligned block. -/
theorem alignment_ok {p : Nat} (hp : align = mallocPageAlign → p % 0x1000 = 0)
    (halign : align = mallocNoAlign ∨ align = mallocPageAlign) :
    ¬ (align ≠ mallocNoAlign ∧ p &&& (align - 1) ≠ 0) := by
  rintro ⟨hne, hbits⟩
  rcases halign with rfl | rfl
  · exact hne rfl
  · exact hbits ((Nat.and_two_pow_sub_one_eq_mod p 12).trans (hp rfl))

/-- `kmalloc` of a request that `int_kmalloc` turned down. -/
theorem kmalloc_of_refused {len : Nat} {h' : Heap} (hlt : len < 2 ^ 32)
    (halign : align = mallocNoAlign ∨ align = mallocPageAlign)
    (hok : intKmalloc sp h (alignupTo (len + 16) 0x80) align = .ok (h', 0)) :
    kmalloc sp h len align = do
      let m ← memset sp h'.mem 0 0 len
      return ({ h' with mem := m }, 0) := by
  rw [kmalloc, if_neg (Nat.not_le.mpr hlt), hok]
  simp only [ok_bind]
  rw [if_neg (alignment_ok (fun _ => rfl) halign)]

/-- `kmalloc` of a request that `int_kmalloc` served. -/
theorem kmalloc_of_served {len : Nat} {h' : Heap} {c : Extent} {bin' : List Extent}
    (hlt : len < 2 ^ 32) (iso : Isolated sp S)
    (halign : align = mallocNoAlign ∨ align = mallocPageAlign)
    (hok : intKmalloc sp h (alignupTo (len + 16) 0x80) align = .ok (h', c.addr + 16))
    (hlen : len + 16 ≤ c.size) (hal : align = mallocPageAlign → (c.addr + 16) % 0x1000 = 0)
    (hs : Served S h h' used c bin') :
    ∃ m, kmalloc sp h len align = .ok ({ h' with mem := m }, c.addr + 16) ∧
      Served S h { h' with mem := m } used c bin' ∧
      ∀ a, c.addr + 16 ≤ a → a < c.addr + 16 + len → m a = 0 := by
  obtain ⟨m, hset, hrest⟩ := kmalloc_clear len iso hs hlen
  refine ⟨m, ?_, hrest⟩
  rw [kmalloc, if_neg (Nat.not_le.mpr hlt), hok]
  simp only [ok_bind, hset]
  rw [if_neg (alignment_ok hal halign)]
  rfl

/-- **`kmalloc`**: a request is served with a fresh block that is cleared, or comes back null. A
null result below 4 GB has gone through `memset` at address 0. -/
theorem kmalloc_spec (len : Nat) (iso : Isolated sp S) (inv : HeapInv S h bin used)
    (halign : align = mallocNoAlign ∨ align = mallocPageAlign) :
    (∃ h' c bin', kmalloc sp h len align = .ok (h', c.addr + 16) ∧ len + 16 ≤ c.size ∧
      c.size < len + 16 + 0x80 ∧ Served S h h' used c bin' ∧
      (∀ a, c.addr + 16 ≤ a → a < c.addr + 16 + len → h'.mem a = 0) ∧
      (align = mallocPageAlign → (c.addr + 16) % 0x1000 = 0) ∧ Placed h h' bin bin' c align ∧
      c.size = alignupTo (len + 16) 0x80) ∨
    (2 ^ 32 ≤ len ∧ kmalloc sp h len align = .ok (h, 0)) ∨
    (len < 2 ^ 32 ∧ h.arena.topSize < len + 0x1090 ∧ ∃ h', Refused S h h' ∧
      intKmalloc sp h (alignupTo (len + 16) 0x80) align = .ok (h', 0) ∧
      kmalloc sp h len align = do
        let m ← memset sp h'.mem 0 0 len
        return ({ h' with mem := m }, 0)) := by
  by_cases hbig : 2 ^ 32 ≤ len
  · exact .inr (.inl ⟨hbig, if_pos hbig⟩)
  obtain ⟨hnb, hge, hlt⟩ := alignupTo_spec (len + 16)
  rcases intKmalloc_spec iso inv halign hnb (by omega) with
    ⟨h', hok, href, hroom⟩ | ⟨h', c, bin', hok, hc, hal, hs, hplaced⟩
  · exact .inr (.inr ⟨by omega, by omega, h', href, hok,
      kmalloc_of_refused (by omega) halign hok⟩)
  · obtain ⟨m, hkmalloc, hs', hzero⟩ :=
      kmalloc_of_served (by omega) iso halign hok (by omega) hal hs
    exact .inl ⟨_, c, bin', hkmalloc, by omega, by omega, hs', hzero, hal, hplaced.setMem m, hc⟩

end

end BpfExamples.Kvm
