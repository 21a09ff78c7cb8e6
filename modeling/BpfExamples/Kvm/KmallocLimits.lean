import BpfExamples.Kvm.KmallocRuns
import BpfExamples.Kvm.HeapView

/-!
# Unaligned blocks: where they come from, and how large they can be (`kernel/mm/kmalloc.c`)

Here the arena has any length that `init_allocator` takes.

- `kmalloc_best_fit`: an unaligned block is the front of the smallest free chunk that is large
  enough, else the front of the unused area, and is null exactly if neither is large enough.
- `kmalloc_large_iff`: `kmalloc` lets requests below 4 GB through and clears their blocks, but
  `kfree` wants the size of the chunk, header and rounding included, below 4 GB.
-/

namespace BpfExamples.Kvm

open Mem

variable {sp : Space} {S : Range} {h h' : Heap} {s s' : HeapRun} {bin used : List Extent}
  {len p : Nat}

/-- **An unaligned request**: null if nothing is large enough, else a block that is cleared. -/
theorem HeapInv.kmalloc_noAlign (iso : Isolated sp S) (inv : HeapInv S h bin used)
    (hlen : len < 2 ^ 32) :
    ((∀ f ∈ bin, f.size < chunkSize len) ∧ h.arena.topSize < chunkSize len ∧
      kmalloc sp h len mallocNoAlign = do
        let m ← memset sp h.mem 0 0 len
        return ({ h with mem := m }, 0)) ∨
    ∃ h' c bin', kmalloc sp h len mallocNoAlign = .ok (h', c.addr + 16) ∧
      c.size = chunkSize len ∧
      Served S h h' used c bin' ∧ Placed h h' bin bin' c mallocNoAlign ∧
      ∀ a, c.addr + 16 ≤ a → a < c.addr + 16 + len → h'.mem a = 0 := by
  obtain ⟨hnb, hge, -⟩ := alignupTo_spec (len + 16)
  rcases intKmalloc_noAlign iso inv hnb (by omega) with ⟨hok, hbin, htop⟩ |
    ⟨h', c, bin', hok, hc, hs, hplaced, -⟩
  · exact .inl ⟨hbin, htop, kmalloc_of_refused hlen (.inl rfl) hok⟩
  · obtain ⟨m, hkmalloc, hs', hzero⟩ :=
      kmalloc_of_served hlen iso (.inl rfl) hok (by omega) (fun h => absurd h (by decide)) hs
    exact .inr ⟨_, c, bin', hkmalloc, hc, hs', hplaced.setMem m, hzero⟩

/-! ## Best fit -/

/-- The block is the front of a free chunk, of the smallest size that is large enough. The rest
of the chunk, if there is any, is back in the bin. -/
structure FromBin (h h' : Heap) (nb p : Nat) (e : Extent) : Prop where
  free : e ∈ freeChunks h
  fits : nb ≤ e.size
  best : ∀ f ∈ freeChunks h, nb ≤ f.size → e.size ≤ f.size
  block : p = chunk2mem e.addr
  header : sizeOf h'.mem e.addr = nb
  rest : ∃ others, (freeChunks h).Perm (e :: others) ∧
    (freeChunks h').Perm (if e.size = nb then others else ⟨e.addr + nb, e.size - nb⟩ :: others)
  top : h'.arena.top = h.arena.top ∧ h'.arena.topSize = h.arena.topSize

/-- The block is the front of the unused area. -/
structure FromTop (h h' : Heap) (nb p : Nat) : Prop where
  block : p = chunk2mem h.arena.top
  header : sizeOf h'.mem h.arena.top = nb
  top : h'.arena.top = h.arena.top + nb ∧ h'.arena.topSize + nb = h.arena.topSize
  bin : freeChunks h' = freeChunks h

theorem binAfter_perm (bin : List Extent) (e : Extent) (nb : Nat) :
    (binAfter bin e nb).Perm (if e.size = nb then bin
      else ⟨e.addr + nb, e.size - nb⟩ :: bin) := by
  unfold binAfter
  split
  · exact List.Perm.refl _
  · exact binInsert_perm _ _

/-- In a sorted bin the first chunk that is large enough is a smallest one. -/
theorem BySize.first_best {pre post : List Extent} {e : Extent} {nb : Nat}
    (hs : BySize (pre ++ e :: post)) (hpre : ∀ f ∈ pre, f.size < nb) :
    ∀ f ∈ pre ++ e :: post, nb ≤ f.size → e.size ≤ f.size := by
  intro f hf hfit
  have hpost := (List.pairwise_cons.mp (List.pairwise_append.mp hs).2.1).1
  rcases List.mem_append.mp hf with hf | hf
  · exact absurd (hpre f hf) (Nat.not_lt.mpr hfit)
  · rcases List.mem_cons.mp hf with rfl | hf
    · exact Nat.le_refl _
    · exact hpost f hf

/-- Where the chunk was placed, as the memory shows it. -/
theorem Placed.shown {c : Extent} {bin' : List Extent} (inv : HeapInv S h bin used)
    (hs : Served S h h' used c bin') (hp : Placed h h' bin bin' c mallocNoAlign) :
    (∃ e, FromBin h h' c.size (c.addr + 16) e) ∨
      (∀ f ∈ bin, f.size < c.size) ∧ c.size ≤ h.arena.topSize ∧
        FromTop h h' c.size (c.addr + 16) := by
  have hbin := inv.freeChunks_eq
  have hbin' := hs.inv.freeChunks_eq
  have hheader := hs.inv.stored c List.mem_cons_self
  have hlim := inv.limit
  have hlim' := hs.inv.limit
  cases hp with
  | @bin pre post e split first fits addr left top =>
    refine .inl ⟨e, ?_, fits, ?_, congrArg chunk2mem addr, addr ▸ hheader,
      ⟨pre ++ post, ?_, ?_⟩, top, by omega⟩
    · rw [hbin, split]
      exact List.mem_append_right _ List.mem_cons_self
    · rw [hbin, split]
      exact BySize.first_best (split ▸ inv.sorted) first
    · rw [hbin, split]
      exact List.perm_middle
    · rw [hbin', left]
      exact binAfter_perm _ _ _
  | top none addr left top =>
    unfold Extent.fin at top
    refine .inr ⟨none, by omega, congrArg chunk2mem addr, addr ▸ hheader, by omega, ?_⟩
    rw [hbin, hbin', left]

/-- What an unaligned request gets. -/
structure BestFit (h h' : Heap) (len p : Nat) : Prop where
  null : p = 0 ↔ (∀ e ∈ freeChunks h, e.size < chunkSize len) ∧ h.arena.topSize < chunkSize len
  bin : (∃ e ∈ freeChunks h, chunkSize len ≤ e.size) → ∃ e, FromBin h h' (chunkSize len) p e
  top : (∀ e ∈ freeChunks h, e.size < chunkSize len) → chunkSize len ≤ h.arena.topSize →
    FromTop h h' (chunkSize len) p

/-- Nothing is large enough. -/
def NothingFits (h : Heap) (len : Nat) : Prop :=
  (∀ e ∈ freeChunks h, e.size < chunkSize len) ∧ h.arena.topSize < chunkSize len

theorem NothingFits.bestFit (hno : NothingFits h len) : BestFit h h' len 0 := by
  refine ⟨⟨fun _ => hno, fun _ => rfl⟩, ?_, fun _ hfit => absurd hno.2 (Nat.not_lt.mpr hfit)⟩
  rintro ⟨e, he, hfit⟩
  exact absurd (hno.1 e he) (Nat.not_lt.mpr hfit)

/-- An unaligned request gets the best fit, or clears a null block. -/
theorem HeapInv.bestFit (iso : Isolated sp S) (inv : HeapInv S h bin used)
    (hlen : len < 2 ^ 32) :
    (NothingFits h len ∧ kmalloc sp h len mallocNoAlign = do
      let m ← memset sp h.mem 0 0 len
      return ({ h with mem := m }, 0)) ∨
    ∃ h' p, kmalloc sp h len mallocNoAlign = .ok (h', p) ∧ BestFit h h' len p := by
  have hbin := inv.freeChunks_eq
  rcases inv.kmalloc_noAlign iso hlen with ⟨hall, htop, hok⟩ |
    ⟨h', c, bin', hok, hc, hs, hplaced, -⟩
  · exact .inl ⟨⟨hbin ▸ hall, htop⟩, hok⟩
  have hshown := hplaced.shown inv hs
  rw [hc, ← hbin] at hshown
  refine .inr ⟨h', c.addr + 16, hok,
    ⟨fun h => absurd h (Nat.succ_ne_zero _), fun ⟨hall, htop⟩ => ?_⟩, ?_, fun hall _ => ?_⟩
  · rcases hshown with ⟨e, hfrom⟩ | ⟨-, hfit, -⟩
    · exact absurd (hall e hfrom.free) (Nat.not_lt.mpr hfrom.fits)
    · exact absurd htop (Nat.not_lt.mpr hfit)
  · rintro ⟨e, he, hfit⟩
    rcases hshown with hfrom | ⟨hall, -⟩
    · exact hfrom
    · exact absurd (hall e he) (Nat.not_lt.mpr hfit)
  · rcases hshown with ⟨e, hfrom⟩ | ⟨-, -, hfrom⟩
    · exact absurd (hall e hfrom.free) (Nat.not_lt.mpr hfrom.fits)
    · exact hfrom

/-- **Best fit.** From every reachable state an unaligned request below 4 GB returns. It is null
exactly if every free chunk and the unused area are too small; with a free chunk that is large
enough it gets the front of a smallest one, otherwise the front of the unused area. -/
theorem kmalloc_best_fit (S : Range) (s : HeapRun) (hr : HeapRun.Reachable S s) (len : Nat)
    (hlen : len < 2 ^ 32) :
    ∃ h' p, kmalloc flat s.heap len mallocNoAlign = .ok (h', p) ∧
      (p = 0 ↔ (∀ e ∈ freeChunks s.heap, e.size < chunkSize len) ∧
        s.heap.arena.topSize < chunkSize len) ∧
      ((∃ e ∈ freeChunks s.heap, chunkSize len ≤ e.size) →
        ∃ e, FromBin s.heap h' (chunkSize len) p e) ∧
      ((∀ e ∈ freeChunks s.heap, e.size < chunkSize len) →
        chunkSize len ≤ s.heap.arena.topSize →
        FromTop s.heap h' (chunkSize len) p) := by
  obtain ⟨bin, inv⟩ := runInv_of_reachable hr
  rcases inv.heap.bestFit (isolated_flat S) hlen with ⟨hno, hok⟩ | ⟨h', p, hok, hbest⟩
  · obtain ⟨m, hset, -⟩ := memset_null_flat S s.heap.mem hlen
    have hbest : BestFit s.heap { s.heap with mem := m } len 0 := hno.bestFit
    refine ⟨{ s.heap with mem := m }, 0, ?_, hbest.null, hbest.bin, hbest.top⟩
    rw [hok, hset]
    rfl
  · exact ⟨h', p, hok, hbest.null, hbest.bin, hbest.top⟩

/-- Two free chunks, of 0x180 and of 0x280 bytes, and requests that fit both, one and none of
them. -/
theorem kmalloc_best_fit_two :
    ∃ s : HeapRun, HeapRun.Reachable kernelSpan s ∧
      freeChunks s.heap = [⟨0x8000200000, 0x180⟩, ⟨0x8000200200, 0x280⟩] ∧
      (∃ h' e, kmalloc flat s.heap 0x100 mallocNoAlign = .ok (h', 0x8000200010) ∧
        FromBin s.heap h' 0x180 0x8000200010 e) ∧
      (∃ h' e, kmalloc flat s.heap 0x1f0 mallocNoAlign = .ok (h', 0x8000200210) ∧
        FromBin s.heap h' 0x200 0x8000200210 e) ∧
      ∃ h', kmalloc flat s.heap 0x300 mallocNoAlign = .ok (h', 0x8000200510) ∧
        FromTop s.heap h' 0x380 0x8000200510 := by
  have hrun : (runAlong HeapRun.Allowed HeapRun.step (freshRun kernelSpan 7)
      [.kmalloc 0x100 mallocNoAlign, .kmalloc 0x10 mallocNoAlign, .kmalloc 0x200 mallocNoAlign,
        .kmalloc 0x10 mallocNoAlign, .kfree 0x8000200010, .kfree 0x8000200210]).map
        (fun s => (freeChunks s.heap, s.heap.arena.topSize,
          (kmalloc flat s.heap 0x100 mallocNoAlign).map Prod.snd,
          (kmalloc flat s.heap 0x1f0 mallocNoAlign).map Prod.snd,
          (kmalloc flat s.heap 0x300 mallocNoAlign).map Prod.snd)) =
      some ([⟨0x8000200000, 0x180⟩, ⟨0x8000200200, 0x280⟩], 0x1ffb00, .ok 0x8000200010,
        .ok 0x8000200210, .ok 0x8000200510) := by decide +kernel
  obtain ⟨s, halong, hs⟩ := Option.map_eq_some_iff.mp hrun
  obtain ⟨hfree, hrest⟩ := Prod.mk.inj hs
  obtain ⟨htop, hrest⟩ := Prod.mk.inj hrest
  obtain ⟨hboth, hrest⟩ := Prod.mk.inj hrest
  obtain ⟨hone, hnone⟩ := Prod.mk.inj hrest
  have hr := Reach.of_runAlong (freshRun_reachable kernelSpan 7) halong
  have hval : ∀ {len p q : Nat} {h' : Heap}, (kmalloc flat s.heap len mallocNoAlign).map
      Prod.snd = .ok q → kmalloc flat s.heap len mallocNoAlign = .ok (h', p) → p = q := by
    intro len p q h' hq hok
    rw [hok] at hq
    exact Except.ok.inj hq
  obtain ⟨h₁, p₁, hok₁, -, hbin₁, -⟩ := kmalloc_best_fit kernelSpan s hr 0x100 (by decide)
  obtain ⟨h₂, p₂, hok₂, -, hbin₂, -⟩ := kmalloc_best_fit kernelSpan s hr 0x1f0 (by decide)
  obtain ⟨h₃, p₃, hok₃, -, -, htop₃⟩ := kmalloc_best_fit kernelSpan s hr 0x300 (by decide)
  rw [hfree] at hbin₁ hbin₂ htop₃
  obtain rfl := hval hboth hok₁
  obtain rfl := hval hone hok₂
  obtain rfl := hval hnone hok₃
  obtain ⟨e₁, hfrom₁⟩ := hbin₁ (by decide)
  obtain ⟨e₂, hfrom₂⟩ := hbin₂ (by decide)
  exact ⟨s, hr, hfree, ⟨h₁, e₁, hok₁, hfrom₁⟩, ⟨h₂, e₂, hok₂, hfrom₂⟩, h₃, hok₃,
    htop₃ (by decide) (htop ▸ by decide)⟩

/-! ## Large blocks -/

/-- A block that was handed out, as the run sees it. -/
theorem RunInv.kmalloc_block (inv : RunInv S s bin) (hlen : len < 2 ^ 32)
    (hok : kmalloc flat s.heap len mallocNoAlign = .ok (h', p)) (hp : p ≠ 0) :
    (∃ bin', RunInv S ⟨h', ⟨p, len⟩ :: s.live⟩ bin') ∧
      (liveChunk h'.mem ⟨p, len⟩).size = chunkSize len ∧
      ∀ a, p ≤ a → a < p + len → h'.mem a = 0 := by
  rcases inv.heap.kmalloc_noAlign (isolated_flat S) hlen with
    ⟨-, -, hnull⟩ | ⟨h₁, c, bin', hok₁, hc, hs, -, hzero⟩
  · obtain ⟨m, hset, -⟩ := memset_null_flat S s.heap.mem hlen
    rw [hok, hset] at hnull
    exact absurd (Prod.mk.inj (Except.ok.inj hnull)).2 hp
  · obtain ⟨rfl, rfl⟩ := Prod.mk.inj (Except.ok.inj (hok.symm.trans hok₁))
    have hsize : len + 16 ≤ chunkSize len := (alignupTo_spec (len + 16)).2.1
    obtain ⟨hinv, -, hchunk⟩ := inv.served hs (hsize.trans_eq hc.symm)
    refine ⟨⟨bin', hinv⟩, ?_, hzero⟩
    rw [hchunk]
    exact hc

/-- The chunk is below 4 GB exactly if there is room for the header and the rounding. -/
theorem chunkSize_lt_iff (len : Nat) : chunkSize len < 2 ^ 32 ↔ len + 0x90 ≤ 2 ^ 32 := by
  unfold chunkSize alignupTo
  split <;> omega

/-- A live block stays live until it is given back. -/
theorem HeapRun.stays_live {op : HeapOp} {b : Block} (hs : s.step op = .ok s') (hb : b ∈ s.live)
    (hop : op ≠ .kfree b.mem) : b ∈ s'.live := by
  cases op with
  | kmalloc len align =>
    obtain ⟨⟨h, q⟩, -, hret⟩ := bind_eq_ok.mp hs
    rw [← Except.ok.inj hret]
    show b ∈ if q = 0 then s.live else ⟨q, len⟩ :: s.live
    split
    · exact hb
    · exact List.mem_cons_of_mem _ hb
  | kfree mem =>
    obtain ⟨h, -, hret⟩ := bind_eq_ok.mp hs
    rw [← Except.ok.inj hret]
    refine List.mem_filter.mpr ⟨hb, ?_⟩
    have hne : b.mem ≠ mem := fun heq => hop (by rw [heq])
    simpa using hne
  | write a v =>
    rw [← Except.ok.inj hs]
    exact hb

/-- The states after `s` in which `p` has not been given back. -/
abbrev HeapRun.Later (s : HeapRun) (p : Nat) : HeapRun → Prop :=
  Reach (· = s) (fun t op => t.Allowed op ∧ op ≠ .kfree p) HeapRun.step

/-- A block keeps the chunk it was given. -/
theorem RunInv.later {b : Block} (inv : RunInv S s bin) (hb : b ∈ s.live) {t : HeapRun}
    (ht : s.Later b.mem t) :
    ∃ bin', RunInv S t bin' ∧ b ∈ t.live ∧ liveChunk t.heap.mem b = liveChunk s.heap.mem b := by
  refine ht.inv (I := fun t => ∃ bin', RunInv S t bin' ∧ b ∈ t.live ∧
    liveChunk t.heap.mem b = liveChunk s.heap.mem b) ?_ ?_
  · rintro t rfl
    exact ⟨bin, inv, hb, rfl⟩
  · rintro t op t' ⟨bin₁, hinv, hlive, hchunk⟩ ⟨hop, hne⟩ hs
    obtain ⟨bin₂, hinv', hkeep⟩ := hinv.step_ok hop hs
    have hlive' := HeapRun.stays_live hs hlive hne
    exact ⟨bin₂, hinv', hlive', (hkeep b hlive' hlive).trans hchunk⟩

/-- `kfree` of a live block panics exactly if its chunk has 4 GB. -/
theorem RunInv.kfree_panics_iff (inv : RunInv S s bin) {b : Block} (hb : b ∈ s.live) :
    (∃ x, kfree s.heap b.mem = .error (.panic x)) ↔ 2 ^ 32 ≤ (liveChunk s.heap.mem b).size := by
  constructor
  · rintro ⟨x, herr⟩
    by_contra hlt
    obtain ⟨h', bin', hok, -⟩ := kfree_spec (inv.pick hb) (Nat.lt_of_not_le hlt)
    rw [inv.mem_eq hb, herr] at hok
    cases hok
  · exact fun hge => ⟨_, inv.kfree_huge hb hge⟩

/-- **Large blocks.** A block that an unaligned request gets in a reachable state is all zero,
and no later `kfree` of it panics, exactly if its chunk, with the header and the rounding, is
below 4 GB. -/
theorem kmalloc_large_iff (S : Range) (s : HeapRun) (hr : HeapRun.Reachable S s) (len : Nat)
    (hlen : len < 2 ^ 32) (h' : Heap) (p : Nat)
    (hok : kmalloc flat s.heap len mallocNoAlign = .ok (h', p)) (hp : p ≠ 0) :
    ((∀ a, p ≤ a → a < p + len → h'.mem a = 0) ∧
      ∀ t, HeapRun.Later ⟨h', ⟨p, len⟩ :: s.live⟩ p t →
        ¬ ∃ x, kfree t.heap p = .error (.panic x)) ↔
    len + 0x90 ≤ 2 ^ 32 := by
  obtain ⟨bin, inv⟩ := runInv_of_reachable hr
  obtain ⟨⟨bin', hinv⟩, hsize, hzero⟩ := inv.kmalloc_block hlen hok hp
  have hb : (⟨p, len⟩ : Block) ∈ (⟨h', ⟨p, len⟩ :: s.live⟩ : HeapRun).live := List.mem_cons_self
  rw [and_iff_right hzero, ← chunkSize_lt_iff, ← Nat.not_le, ← hsize]
  constructor
  · exact fun h hge => h _ (.start rfl) ((hinv.kfree_panics_iff hb).mpr hge)
  · intro hlt t ht
    obtain ⟨bin₁, hinv₁, hlive, hchunk⟩ := hinv.later hb ht
    rw [hinv₁.kfree_panics_iff hlive, hchunk]
    exact hlt

/-- An arena of 8 GB. -/
def wideRange : Range where
  base := 0x8000000000
  len := 0x200000000
  high := by decide
  paged := by decide
  nonzero := by decide
  whole := by decide
  fits := by decide

/-- In a fresh arena that is large enough there is a block. -/
theorem kmalloc_freshRun (S : Range) (b : UInt8) {len : Nat} (hlen : len < 2 ^ 32)
    (hroom : chunkSize len ≤ S.len) :
    ∃ h' p, kmalloc flat (freshRun S b).heap len mallocNoAlign = .ok (h', p) ∧ p ≠ 0 := by
  rcases (HeapInv.init S fun _ => b).kmalloc_noAlign (isolated_flat S) hlen with ⟨-, htop, -⟩ |
    ⟨h', c, bin', hok, -⟩
  · exact absurd htop (Nat.not_lt.mpr hroom)
  · exact ⟨h', c.addr + 16, hok, Nat.succ_ne_zero _⟩

/-- The largest block that is cleared and can be given back. -/
theorem kmalloc_large_last :
    ∃ h' p,
      kmalloc flat (freshRun wideRange 7).heap (2 ^ 32 - 0x90) mallocNoAlign = .ok (h', p) ∧
      p ≠ 0 ∧ (∀ a, p ≤ a → a < p + (2 ^ 32 - 0x90) → h'.mem a = 0) ∧
      ¬ ∃ x, kfree h' p = .error (.panic x) := by
  obtain ⟨h', p, hok, hp⟩ :=
    kmalloc_freshRun wideRange 7 (show 2 ^ 32 - 0x90 < 2 ^ 32 by decide) (by decide)
  have hlarge := (kmalloc_large_iff wideRange (freshRun wideRange 7) (freshRun_reachable _ 7)
    (2 ^ 32 - 0x90) (by decide) h' p hok hp).mpr (by decide)
  have hfree := hlarge.2 ⟨h', ⟨p, 2 ^ 32 - 0x90⟩ :: (freshRun wideRange 7).live⟩
    (Reach.start rfl)
  exact ⟨h', p, hok, hp, hlarge.1, hfree⟩

/-- **One byte less than 4 GB**: the chunk has 0x100000080 bytes, and `kfree` panics. -/
theorem kmalloc_large_fails :
    chunkSize (2 ^ 32 - 1) = 0x100000080 ∧
    ∃ h' p, kmalloc flat (freshRun wideRange 7).heap (2 ^ 32 - 1) mallocNoAlign = .ok (h', p) ∧
      p ≠ 0 ∧ kfree h' p = .error (.panic .kfreeSize) := by
  obtain ⟨bin, inv⟩ := runInv_of_reachable (freshRun_reachable wideRange 7)
  obtain ⟨h', p, hok, hp⟩ :=
    kmalloc_freshRun wideRange 7 (show 2 ^ 32 - 1 < 2 ^ 32 by decide) (by decide)
  obtain ⟨⟨bin', hinv⟩, hsize, -⟩ := inv.kmalloc_block (by decide) hok hp
  exact ⟨by decide, h', p, hok, hp, hinv.kfree_huge List.mem_cons_self (hsize ▸ by decide)⟩

end BpfExamples.Kvm
