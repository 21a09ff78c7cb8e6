import BpfExamples.Kvm.KernelHeap
import BpfExamples.Kvm.KmallocMachine

/-!
# When the allocator has no block

The runs of `KmallocMachine` on the kernel's arena. `kmalloc` clears the block it returns
without asking whether there is one, so a request that is turned down costs the first `len`
bytes of memory, and one of more than 2 MB does not return.
-/

namespace BpfExamples.Kvm

open Mem

/-- **A request that is turned down** was too long to be looked at, or has cleared the start of
memory. -/
theorem kmalloc_null {h h' : Heap} {bin used : List Extent} {len align : Nat}
    (inv : HeapInv kernelSpan h bin used)
    (halign : align = mallocNoAlign ∨ align = mallocPageAlign)
    (hok : kmalloc kernelSpace h len align = .ok (h', 0)) :
    2 ^ 32 ≤ len ∧ h' = h ∨ len ≤ 0x200000 ∧ Declined h h' len := by
  rcases kmalloc_machine len inv halign with
    ⟨h₁, c, bin', hc, -⟩ | ⟨hbig, heq⟩ | ⟨hlen, h₁, heq, hd⟩ | ⟨-, -, -, -, herr⟩
  · rw [hok] at hc
    have hzero : 0 = c.addr + 16 := congrArg Prod.snd (Except.ok.inj hc)
    omega
  · rw [hok] at heq
    cases heq
    exact .inl ⟨hbig, rfl⟩
  · rw [hok] at heq
    cases heq
    exact .inr ⟨hlen, hd⟩
  · rw [hok] at herr
    cases herr

/-- Nothing happened to the heap, and nothing outside its unused area. -/
structure Harmless (h h' : Heap) : Prop where
  arena : h'.arena = h.arena
  bin : freeChunks h' = freeChunks h
  mem : ∀ a, a < h.arena.top ∨ h.arena.top + h.arena.topSize ≤ a → h'.mem a = h.mem a

theorem Harmless.refl (h : Heap) : Harmless h h := ⟨rfl, rfl, fun _ _ => rfl⟩

/-- What a declined request clears is all that it can harm. -/
theorem Declined.harmless_iff {h h' : Heap} {bin used : List Extent} {len : Nat}
    (inv : HeapInv kernelSpan h bin used) (hlen : len ≤ 0x200000) (hd : Declined h h' len) :
    Harmless h h' ↔ ∀ a, 0x8000000000 ≤ a → a < 0x8000000000 + len → h.mem a = 0 := by
  have hbase : kernelSpan.base = 0x8000200000 := rfl
  have hlimit : h.arena.top + h.arena.topSize = 0x8000400000 := inv.limit
  have htop := inv.tiles.le
  constructor
  · intro hh a h₁ h₂
    have hkept := hh.mem a (by omega)
    rwa [hd.mem a (by omega), if_pos ⟨h₁, h₂⟩, eq_comm] at hkept
  · intro hz
    have hmem : ∀ a, a < h.arena.top ∨ 0x8000400000 ≤ a → h'.mem a = h.mem a := by
      intro a ha
      rw [hd.mem a ha]
      split
      · next hin => exact (hz a hin.1 hin.2).symm
      · rfl
    have inv' : HeapInv kernelSpan h' bin used := Refused.inv ⟨hd.arena, hmem⟩ inv
    exact ⟨hd.arena, by rw [inv'.freeChunks_eq, inv.freeChunks_eq],
      fun a ha => hmem a (by omega)⟩

/-- **A failed allocation is harmless** just where there was nothing to clear: the request was
refused by its length alone, or the bytes at the null pointer were zero already. -/
theorem kmalloc_null_harmless_iff (s : HeapRun) (hr : HeapRun.OnMachine kernelSpan s)
    (len align : Nat) (halign : align = mallocNoAlign ∨ align = mallocPageAlign) (h' : Heap)
    (hok : kmalloc kernelSpace s.heap len align = .ok (h', 0)) :
    Harmless s.heap h' ↔
      2 ^ 32 ≤ len ∨ ∀ a, kernelBaseOffset ≤ a → a < kernelBaseOffset + len →
        s.heap.mem a = 0 := by
  obtain ⟨bin, inv⟩ := runInv_of_onMachine inWindow_kernelSpan hr
  rcases kmalloc_null inv.heap halign hok with ⟨hbig, rfl⟩ | ⟨hlen, hd⟩
  · exact iff_of_true (Harmless.refl _) (.inl hbig)
  · rw [hd.harmless_iff inv.heap hlen, or_iff_right (by omega)]
    rfl

/-- The arena has no room for a block of 2 MB. -/
theorem HeapInv.declines {h : Heap} {bin used : List Extent}
    (inv : HeapInv kernelSpan h bin used) :
    ∃ h', kmalloc kernelSpace h 0x200000 mallocPageAlign = .ok (h', 0) ∧
      Declined h h' 0x200000 := by
  rcases kmalloc_machine 0x200000 inv (.inr rfl) with
    ⟨h', c, bin', -, hlen, -, hserved, -⟩ | ⟨hbig, -⟩ | ⟨-, hdeclined⟩ | ⟨hgt, -⟩
  · have hb := hserved.inv.bounds (List.mem_append_right bin' List.mem_cons_self)
    have htop := hserved.inv.top_le
    have hbase : kernelSpan.base = 0x8000200000 := rfl
    have hlimit : kernelSpan.limit = 0x8000400000 := rfl
    unfold Extent.fin at hb
    omega
  · omega
  · exact hdeclined
  · omega

/-- Where the first 2 MB are zero, clearing them does no harm. -/
theorem kmalloc_null_harmless_zero :
    ∃ s h', HeapRun.OnMachine kernelSpan s ∧
      kmalloc kernelSpace s.heap 0x200000 mallocPageAlign = .ok (h', 0) ∧
      s.heap.mem 0x8000200000 = 7 ∧ Harmless s.heap h' := by
  let m : Mem := fun a => if a < 0x8000200000 then 0 else 7
  let s : HeapRun := ⟨⟨m, ⟨0x8000200000, 0x200000, 0x8000200000, 0⟩⟩, []⟩
  have hr : HeapRun.OnMachine kernelSpan s := .start ⟨⟨m, rfl⟩, rfl⟩
  obtain ⟨bin, inv⟩ := runInv_of_onMachine inWindow_kernelSpan hr
  obtain ⟨h', hok, -⟩ := inv.heap.declines
  have hzero : ∀ a, kernelBaseOffset ≤ a → a < kernelBaseOffset + 0x200000 → s.heap.mem a = 0 :=
    fun a _ ha => if_pos ha
  exact ⟨s, h', hr, hok, rfl, (kmalloc_null_harmless_iff s hr _ _ (.inr rfl) _ hok).mpr
    (.inr hzero)⟩

/-- **It is not in general**: the arena has no room for a block of 2 MB, and the request for one
clears the first byte of memory. -/
theorem kmalloc_null_clears :
    ∃ s h', HeapRun.OnMachine kernelSpan s ∧
      kmalloc kernelSpace s.heap 0x200000 mallocPageAlign = .ok (h', 0) ∧
      s.heap.mem kernelBaseOffset = 7 ∧ h'.mem kernelBaseOffset = 0 ∧ ¬ Harmless s.heap h' := by
  let s : HeapRun := ⟨⟨fun _ => 7, ⟨0x8000200000, 0x200000, 0x8000200000, 0⟩⟩, []⟩
  have hr : HeapRun.OnMachine kernelSpan s := .start ⟨⟨fun _ => 7, rfl⟩, rfl⟩
  obtain ⟨bin, inv⟩ := runInv_of_onMachine inWindow_kernelSpan hr
  obtain ⟨h', hok, hd⟩ := inv.heap.declines
  have hzero : h'.mem kernelBaseOffset = 0 := by
    rw [hd.mem _ (.inl (by decide)), if_pos ⟨Nat.le_refl _, by decide⟩]
  have hharm : ¬ Harmless s.heap h' := fun hh =>
    absurd ((hd.harmless_iff inv.heap (Nat.le_refl _)).mp hh kernelBaseOffset (Nat.le_refl _)
      (by decide)) (by decide)
  exact ⟨s, h', hr, hok, rfl, hzero, hharm⟩

end BpfExamples.Kvm
