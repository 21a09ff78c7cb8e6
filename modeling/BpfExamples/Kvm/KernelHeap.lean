import BpfExamples.Kvm.HeapView
import BpfExamples.Kvm.Paging

/-!
# The allocator under the page tables

`kmalloc`, `kfree` and writes of a block's owner, over the kernel's invariant.
Whatever the allocator does, the leaves stay; the exception is a request it
turns down, because `kmalloc` then clears memory at the null pointer, where the
kernel's low mapping reaches the static tables (`Declined`).
-/

namespace BpfExamples.Kvm

open Mem

variable {h h' : Heap} {tabs blocks : List Extent} {leaf : Nat → Nat} {b : Bool}

namespace KernelInv

/-- What the invariant says about the addresses of user pages. -/
theorem walk_user (inv : KernelInv h blocks leaf b) {a : Nat} (ha : Outside a) (u w : Bool) :
    translateWalk h.mem a u w = leafTranslate (leaf (a / 0x1000)) a u w := by
  obtain ⟨bin, tabs, T, inv, rfl⟩ := inv
  exact translateWalk_user inv.tree ha u w

theorem walk_low (inv : KernelInv h blocks leaf) {a : Nat} (ha : a < 0x200000) (u w : Bool) :
    translateWalk h.mem a u w = if u then none else some a := by
  obtain ⟨bin, tabs, T, inv, rfl⟩ := inv
  exact translateWalk_low inv.tree ha u w

theorem walk_window (inv : KernelInv h blocks leaf) {a : Nat} (ha : a < 2 ^ 39) (u w : Bool) :
    translateWalk h.mem (0x8000000000 + a) u w =
      if u = false ∧ a < 0x40000000 then some a else none := by
  obtain ⟨bin, tabs, T, inv, rfl⟩ := inv
  exact translateWalk_window inv.tree ha u w

theorem walk_cleared (inv : KernelInv h blocks leaf false) {a : Nat} (ha : a < 2 ^ 48)
    (hout : ¬ Outside a) (u w : Bool) : translateWalk h.mem a u w = none := by
  obtain ⟨bin, tabs, T, inv, rfl⟩ := inv
  exact translateWalk_cleared inv.tree ha hout u w

/-- The kernel's own ranges: what they translate to does not depend on the leaves. -/
theorem walk_kernel_congr {blocks' : List Extent} {leaf' : Nat → Nat}
    (inv : KernelInv h blocks leaf b) (inv' : KernelInv h' blocks' leaf' b) {a : Nat}
    (ha : a < 2 ^ 48) (hout : ¬ Outside a) (u w : Bool) :
    translateWalk h'.mem a u w = translateWalk h.mem a u w := by
  cases b with
  | false => rw [inv.walk_cleared ha hout, inv'.walk_cleared ha hout]
  | true =>
    by_cases hlow : a < 0x200000
    · rw [inv.walk_low hlow, inv'.walk_low hlow]
    · have hwin : a / 2 ^ 39 = 1 := by
        unfold Outside at hout
        omega
      obtain ⟨c, rfl⟩ : ∃ c, a = 0x8000000000 + c := ⟨a - 0x8000000000, by omega⟩
      rw [inv.walk_window (by omega), inv'.walk_window (by omega)]

/-- A leaf is a machine word. -/
theorem leaf_lt (inv : KernelInv h blocks leaf b) (q : Nat) : leaf q < 2 ^ 64 := by
  obtain ⟨bin, tabs, T, -, rfl⟩ := inv
  unfold leafOf
  split
  · exact load64_lt _ _
  · decide

/-- The blocks lie in the arena, in chunks of their own. -/
theorem bounds (inv : KernelInv h blocks leaf b) {e : Extent} (he : e ∈ blocks) :
    0x8000200000 ≤ e.addr ∧ e.fin ≤ 0x8000400000 ∧ 0x70 ≤ e.size := by
  obtain ⟨bin, tabs, T, inv, rfl⟩ := inv
  have hb := inv.heap.bounds (List.mem_append_right bin (List.mem_append_right tabs he))
  exact ⟨hb.1, hb.2.1.trans inv.heap.top_le, hb.2.2⟩

theorem apart (inv : KernelInv h blocks leaf b) : blocks.Pairwise Extent.Apart := by
  obtain ⟨bin, tabs, T, inv, rfl⟩ := inv
  exact (List.pairwise_append.mp (List.pairwise_append.mp inv.heap.tiles.apart).2.1).2.1

/-- The order of the blocks does not matter. -/
theorem perm (inv : KernelInv h blocks leaf b) {blocks' : List Extent}
    (hp : blocks.Perm blocks') : KernelInv h blocks' leaf b := by
  obtain ⟨bin, tabs, T, inv, rfl⟩ := inv
  exact ⟨bin, tabs, T, ⟨inv.heap.perm_used (hp.append_left tabs), inv.tree, inv.owned⟩, rfl⟩

end KernelInv

/-- The leaf of a page that was mapped, read by a walk. -/
theorem leafTranslate_leafWord {p paddr : Nat} (hp : p % 0x1000 = 0) (hlt : p < 2 ^ 39)
    (hform : paddr = p ∨ paddr = 0x8000000000 + p) (prot a : Nat) (u w : Bool) :
    leafTranslate (leafWord paddr prot) a u w =
      if (u = true → hasFlag prot protR = true) ∧ (w = true → hasFlag prot protW = true) then
        some (p + a % 0x1000) else none := by
  have hdrop : dropWindowBit paddr = p := by
    rcases hform with rfl | rfl
    · exact dropWindowBit_physical hlt
    · exact dropWindowBit_window hlt
  have hword : leafWord paddr prot = p + (1 + protFlags prot) := by
    rw [leafWord, hdrop, leafWord_eq hp]
    omega
  have hr : hasFlag prot protR = decide (prot % 2 = 1) := hasFlag_present prot
  have hw : hasFlag prot protW = decide (prot / 2 % 2 = 1) := hasFlag_rw prot
  have hf := protFlags_le prot
  rw [leafTranslate, hword, tableOf_add hp hlt (by omega), xor_base hlt, hr, hw]
  refine if_congr ?_ rfl rfl
  unfold protFlags
  by_cases h₁ : prot % 2 = 1 <;> by_cases h₂ : prot / 2 % 2 = 1 <;> cases u <;> cases w <;>
    simp [h₁, h₂] <;> omega

/-- The leaf of a page that is present, behind `modify_permission`: the same page, with the new
permissions. -/
theorem leafTranslate_leafModified {e : Nat} (he : e < 2 ^ 64) (hp : e % 2 = 1) (prot a : Nat)
    (u w : Bool) :
    leafTranslate (leafModified e prot) a u w =
      if (u = true → hasFlag prot protR = true) ∧ (w = true → hasFlag prot protW = true) then
        leafTranslate e a false false else none := by
  have hr : hasFlag prot protR = decide (prot % 2 = 1) := hasFlag_present prot
  have hw : hasFlag prot protW = decide (prot / 2 % 2 = 1) := hasFlag_rw prot
  have hf := protFlags_le prot
  have hpage : aligndown (leafModified e prot) = aligndown e := by
    rw [leafModified_eq he, aligndown_eq, aligndown_eq]
    omega
  have hread : leafTranslate e a false false =
    some ((tableOf e ^^^ kernelBaseOffset) + a % 0x1000) := if_pos ⟨hp, nofun, nofun⟩
  rw [hread, leafTranslate, tableOf, hpage, ← tableOf, hr, hw, leafModified_eq he]
  refine if_congr ?_ rfl rfl
  unfold protFlags
  by_cases h₁ : prot % 2 = 1 <;> by_cases h₂ : prot / 2 % 2 = 1 <;> cases u <;> cases w <;>
    simp [h₁, h₂] <;> omega

/-- No physical address is the `-1` that `translate` returns for a failure. -/
theorem leafTranslate_ne_minusOne {e a p : Nat} {u w : Bool}
    (h : leafTranslate e a u w = some p) : p ≠ minusOne := by
  unfold leafTranslate at h
  split at h
  · obtain rfl := Option.some.inj h
    have hpage : aligndown e % 0x1000 = 0 := aligndown_mod e
    have hone : minusOne = 0xffffffffffffffff := rfl
    rw [tableOf_xor_base, hone]
    generalize aligndown e = x at hpage
    omega
  · cases h

/-- A walk in any address of the tables depends on the leaf word of its page alone. -/
theorem KernelInv.walk_congr {blocks' : List Extent} {leaf' : Nat → Nat}
    (inv : KernelInv h blocks leaf b) (inv' : KernelInv h' blocks' leaf' b) {a : Nat}
    (ha : a < 2 ^ 48) (hleaf : leaf' (a / 0x1000) = leaf (a / 0x1000)) (u w : Bool) :
    translateWalk h'.mem a u w = translateWalk h.mem a u w := by
  by_cases hout : Outside a
  · rw [inv.walk_user hout, inv'.walk_user hout, hleaf]
  · exact inv.walk_kernel_congr inv' ha hout u w

/-- So a heap with the same leaf words has the same translations. -/
theorem KernelInv.translate_congr {blocks' : List Extent} (inv : KernelInv h blocks leaf b)
    (inv' : KernelInv h' blocks' leaf b) (a : Nat) (u w : Bool) :
    translate h'.mem a u w = translate h.mem a u w := by
  rw [translate, translate, translateWalk_mod h'.mem, translateWalk_mod h.mem,
    inv.walk_congr inv' (Nat.mod_lt a (by decide)) rfl]

/-- The invariant with the chunks that hold page tables named: the allocator's calls do not
change which they are. -/
def KernelRep (h : Heap) (tabs blocks : List Extent) (leaf : Nat → Nat)
    (intact : Bool := true) : Prop :=
  ∃ bin T, PageInv h bin tabs blocks T intact ∧ leafOf h.mem T = leaf

theorem KernelRep.inv (rep : KernelRep h tabs blocks leaf b) : KernelInv h blocks leaf b := by
  obtain ⟨bin, T, inv, hleaf⟩ := rep
  exact ⟨bin, tabs, T, inv, hleaf⟩

theorem KernelInv.rep (inv : KernelInv h blocks leaf b) :
    ∃ tabs, KernelRep h tabs blocks leaf b := by
  obtain ⟨bin, tabs, T, inv, hleaf⟩ := inv
  exact ⟨tabs, bin, T, inv, hleaf⟩

/-! ## `kmalloc` -/

/-- A request that was served: one more block, cleared, and nothing else changed
that anyone uses. -/
structure Allocated (h h' : Heap) (tabs blocks : List Extent) (leaf : Nat → Nat)
    (len align : Nat) (c : Extent) (intact : Bool := true) : Prop where
  rep : KernelRep h' tabs (c :: blocks) leaf intact
  size : c.size = alignupTo (len + 16) 0x80
  untouched : Untouched kernelSpan h.mem h'.mem (tabs ++ blocks)
  zero : ∀ a, c.addr + 16 ≤ a → a < c.addr + 16 + len → h'.mem a = 0
  aligned : align = mallocPageAlign → (c.addr + 16) % 0x1000 = 0
  room : h.arena.topSize ≤ h'.arena.topSize + len + 0x1090
  placed : Placed h h' (freeChunks h) (freeChunks h') c align

theorem Allocated.fits {len align : Nat} {c : Extent}
    (ha : Allocated h h' tabs blocks leaf len align c b) : len + 16 ≤ c.size := by
  rw [ha.size]
  exact (alignupTo_spec (len + 16)).2.1

theorem Allocated.tight {len align : Nat} {c : Extent}
    (ha : Allocated h h' tabs blocks leaf len align c b) : c.size < len + 16 + 0x80 := by
  rw [ha.size]
  exact (alignupTo_spec (len + 16)).2.2

/-- A request below 2 MB that was turned down: the first `len` bytes of memory
are zero, and otherwise only the unused area was written. -/
structure Declined (h h' : Heap) (len : Nat) : Prop where
  short : h.arena.topSize < len + 0x1090
  arena : h'.arena = h.arena
  mem : ∀ a, a < h.arena.top ∨ 0x8000400000 ≤ a →
    h'.mem a = if 0x8000000000 ≤ a ∧ a < 0x8000000000 + len then 0 else h.mem a

/-- A request that is turned down leaves the chunks of the arena alone. -/
theorem Declined.has_same {len : Nat} (hd : Declined h h' len) (hlen : len ≤ 0x200000)
    {bin used : List Extent} (inv : HeapInv kernelSpan h bin used) {e : Extent}
    (he : e ∈ bin ++ used) {a : Nat} (ha : e.Has a) : h'.mem a = h.mem a := by
  have hbase : kernelSpan.base = 0x8000200000 := rfl
  have hb := inv.bounds he
  unfold Extent.Has at ha
  rw [hd.mem a (.inl (by omega)), if_neg (by omega)]

theorem Declined.heap {len : Nat} (hd : Declined h h' len) (hlen : len ≤ 0x200000)
    {bin used : List Extent} (inv : HeapInv kernelSpan h bin used) :
    HeapInv kernelSpan h' bin used := by
  refine inv.frame hd.arena (fun e he a h₁ h₂ => ?_) fun e he a h₁ h₂ => ?_
  · have hb := inv.bounds (List.mem_append_left _ he)
    exact hd.has_same hlen inv (List.mem_append_left _ he) ⟨h₁, by unfold Extent.fin; omega⟩
  · have hb := inv.bounds (List.mem_append_right bin he)
    exact hd.has_same hlen inv (List.mem_append_right _ he) ⟨h₁, by unfold Extent.fin; omega⟩

/-- The invariant of a declined request, as long as the clearing ends below the static
tables. -/
theorem Declined.rep {len : Nat} (hd : Declined h h' len) (hlen : len ≤ 0x1f7000)
    (rep : KernelRep h tabs blocks leaf b) : KernelRep h' tabs blocks leaf b := by
  obtain ⟨bin, T, inv, rfl⟩ := rep
  have htop := inv.heap.tiles.le
  have hbase : kernelSpan.base = 0x8000200000 := rfl
  have hsame : ∀ a, 0x80001f7000 ≤ a → a < h.arena.top → h'.mem a = h.mem a := fun a h₁ h₂ => by
    rw [hd.mem a (.inl h₂), if_neg (by omega)]
  have htab : ∀ {l q t}, T l q = some t → ∀ a, t ≤ a → a < t + 0x1000 → h'.mem a = h.mem a := by
    intro l q t ht a h₁ h₂
    rcases inv.table_byte ht h₁ h₂ with hs | ⟨e, he, h₃, h₄⟩
    · exact hsame a (by omega) (by omega)
    · exact hd.has_same (by omega) inv.heap
        (List.mem_append_right _ (List.mem_append_left _ he)) ⟨by omega, h₄⟩
  exact ⟨bin, T, ⟨hd.heap (by omega) inv.heap, inv.tree.frame (fun a h₁ h₂ => hsame a (by omega)
    (by omega)) fun ht _ => htab ht, inv.owned⟩, TreeInv.leafOf_frame fun ht => htab ht⟩

/-- The tables of a tree that is nothing but its root. -/
def rootTables : Tables := fun l q => if l = 4 ∧ q = 0 then some 0x80001f7000 else none

theorem rootTables_cases {l q t : Nat} (h : rootTables l q = some t) :
    l = 4 ∧ q = 0 ∧ t = 0x80001f7000 := by
  unfold rootTables at h
  split at h
  · next hkey => exact ⟨hkey.1, hkey.2, (Option.some.inj h).symm⟩
  · cases h

/-- A root without entries is a tree that has lost the kernel's own. -/
theorem rootTree {m : Mem} (hz : ∀ a, 0x80001f7000 ≤ a → a < 0x80001f8000 → m a = 0) :
    TreeInv m rootTables false := by
  have hword : ∀ {l q t}, rootTables (l + 1) (q / 512) = some t →
      load64 m (t + 8 * (q % 512)) = 0 := by
    intro l q t h
    obtain ⟨-, -, rfl⟩ := rootTables_cases h
    exact loadLE_eq_zero fun a h₁ h₂ => hz a (by omega) (by omega)
  refine ⟨?_, rfl, nofun, nofun, ?_, ?_, ?_, ?_, ?_, ?_, nofun, ?_⟩
  · intro l q c h
    have := rootTables_cases h
    omega
  · intro l q hs
    unfold KernelSlot at hs
    exact if_neg (by omega)
  · intro l q t hl ht hk
    have hroot := rootTables_cases ht
    have hnone : rootTables l q = none := if_neg (by omega)
    rw [hnone, hword ht]
    rfl
  · intro l q c h hl
    have := rootTables_cases h
    omega
  · intro l q l' q' c h h'
    have h₁ := rootTables_cases h
    have h₂ := rootTables_cases h'
    omega
  · intro l q c h
    have := rootTables_cases h
    omega
  · intro l q c h
    have := rootTables_cases h
    omega
  · intro _ l q t _ ht
    rw [hword ht]

/-- Where the clearing takes the whole root, no page is mapped any more, and the kernel goes on
without its own entries. -/
theorem Declined.cleared {len : Nat} (hd : Declined h h' len) (hlen : 0x1f8000 ≤ len)
    (hle : len ≤ 0x200000) (inv : KernelInv h blocks leaf b) :
    KernelInv h' blocks (fun _ => 0) false := by
  obtain ⟨bin, tabs, T, inv, -⟩ := inv
  have htop := inv.heap.tiles.le
  have hbase : kernelSpan.base = 0x8000200000 := rfl
  refine ⟨bin, tabs, rootTables, ⟨hd.heap hle inv.heap, rootTree fun a h₁ h₂ => ?_,
    fun ht => ?_⟩, ?_⟩
  · rw [hd.mem a (.inl (by omega)), if_pos (by omega)]
  · have := rootTables_cases ht
    exact .inl (by omega)
  · exact funext fun q => leafOf_none (if_neg (by omega))

/-- The root's first entry is gone when the clearing reaches it, and with it the low mapping. -/
theorem Declined.walk_zero {len : Nat} (hd : Declined h h' len) (hlen : 0x1f7008 ≤ len)
    (htop : 0x8000200000 ≤ h.arena.top) (u w : Bool) : translateWalk h'.mem 0 u w = none := by
  have hword : load64 h'.mem 0x80001f7000 = 0 := loadLE_eq_zero fun a h₁ h₂ => by
    rw [hd.mem a (.inl (by omega)), if_pos (by omega)]
  have hstep : translateStep h'.mem u w 0x80001f7000 = none := by
    rw [translateStep_eq, hword]
    rfl
  rw [translateWalk, pml4Addr_eq, show slot 0x80001f7000 0 39 = 0x80001f7000 from rfl, hstep]
  rfl

theorem Declined.inv {len : Nat} (hd : Declined h h' len) (hlen : len ≤ 0x1f7000)
    (inv : KernelInv h blocks leaf b) : KernelInv h' blocks leaf b := by
  obtain ⟨tabs, rep⟩ := inv.rep
  exact (hd.rep hlen rep).inv

/-- **`kmalloc` on the machine**: served, too long, declined, or a fault in the clearing of the
null pointer. -/
theorem kmalloc_machine {bin used : List Extent} (len : Nat) {align : Nat}
    (inv : HeapInv kernelSpan h bin used)
    (halign : align = mallocNoAlign ∨ align = mallocPageAlign) :
    (∃ h' c bin', kmalloc kernelSpace h len align = .ok (h', c.addr + 16) ∧ len + 16 ≤ c.size ∧
      c.size = alignupTo (len + 16) 0x80 ∧ Served kernelSpan h h' used c bin' ∧
      (∀ a, c.addr + 16 ≤ a → a < c.addr + 16 + len → h'.mem a = 0) ∧
      (align = mallocPageAlign → (c.addr + 16) % 0x1000 = 0) ∧ Placed h h' bin bin' c align) ∨
    (2 ^ 32 ≤ len ∧ kmalloc kernelSpace h len align = .ok (h, 0)) ∨
    (len ≤ 0x200000 ∧ ∃ h', kmalloc kernelSpace h len align = .ok (h', 0) ∧ Declined h h' len) ∨
    (0x200000 < len ∧ len < 2 ^ 32 ∧ h.arena.topSize < len + 0x1090 ∧
      (∃ h₁, intKmalloc kernelSpace h (alignupTo (len + 16) 0x80) align = .ok (h₁, 0)) ∧
      kmalloc kernelSpace h len align = .error .fault) := by
  have hbase : kernelSpan.base = 0x8000200000 := rfl
  have hlimit : kernelSpan.limit = 0x8000400000 := rfl
  rcases kmalloc_spec len isolated_kernelSpan inv halign with
    ⟨h', c, bin', hok, hfit, -, hs, hzero, hal, hplaced, hsize⟩ | ⟨hbig, hok⟩ |
      ⟨hlt, hroom, h₁, href, hint, hok⟩
  · exact .inl ⟨h', c, bin', hok, hfit, hsize, hs, hzero, hal, hplaced⟩
  · exact .inr (.inl ⟨hbig, hok⟩)
  · by_cases hlen : len ≤ 0x200000
    · refine .inr (.inr (.inl ⟨hlen, { h₁ with mem := fill h₁.mem 0x8000000000 len 0 }, ?_,
        hroom, href.arena, fun a ha => ?_⟩))
      · rw [hok, memset_null _ hlen]
        rfl
      · have hsame := href.mem a (by omega)
        by_cases hin : 0x8000000000 ≤ a ∧ a < 0x8000000000 + len
        · rw [if_pos hin]
          exact fill_of_mem hin.1 hin.2
        · rw [if_neg hin, ← hsame]
          exact fill_of_notMem (by omega)
    · refine .inr (.inr (.inr ⟨by omega, hlt, hroom, ⟨h₁, hint⟩, ?_⟩))
      rw [hok, memset_null_fault _ (by omega)]
      rfl

/-- **`kmalloc` over the kernel's invariant**: a block that was served is one more block, and
the leaves stay. -/
theorem KernelRep.kmalloc (rep : KernelRep h tabs blocks leaf b) (len : Nat) {align : Nat}
    (halign : align = mallocNoAlign ∨ align = mallocPageAlign) :
    (∃ h' c, kmalloc kernelSpace h len align = .ok (h', c.addr + 16) ∧
      Allocated h h' tabs blocks leaf len align c b) ∨
    (2 ^ 32 ≤ len ∧ Kvm.kmalloc kernelSpace h len align = .ok (h, 0)) ∨
    (len ≤ 0x200000 ∧ ∃ h', Kvm.kmalloc kernelSpace h len align = .ok (h', 0) ∧
      Declined h h' len) ∨
    (0x200000 < len ∧ len < 2 ^ 32 ∧ h.arena.topSize < len + 0x1090 ∧
      (∃ h₁, intKmalloc kernelSpace h (alignupTo (len + 16) 0x80) align = .ok (h₁, 0)) ∧
      Kvm.kmalloc kernelSpace h len align = .error .fault) := by
  obtain ⟨bin, T, inv, rfl⟩ := rep
  rcases kmalloc_machine len inv.heap halign with ⟨h', c, bin', hok, -, hsize, hs, hzero, hal,
    hplaced⟩ | hnull
  · have hheap : HeapInv kernelSpan h' bin' (tabs ++ c :: blocks) :=
      hs.inv.perm_used List.perm_middle.symm
    obtain ⟨hinv, hleaf⟩ := inv.realloc hheap (hs.untouched.mono (List.subset_append_left _ _))
    have hr := hs.room
    have htight := (alignupTo_spec (len + 16)).2.2
    refine .inl ⟨h', c, hok, ⟨bin', T, hinv, hleaf⟩, hsize, hs.untouched, hzero,
      hal, by omega, ?_⟩
    rw [inv.heap.freeChunks_eq, hheap.freeChunks_eq]
    exact hplaced
  · exact .inr hnull

/-- Where a request is turned down, there was no room for it. -/
theorem KernelRep.not_room {len align : Nat} (rep : KernelRep h tabs blocks leaf b)
    (halign : align = mallocNoAlign ∨ align = mallocPageAlign) (hlen : len < 2 ^ 32)
    (hnull : Kvm.kmalloc kernelSpace h len align = .ok (h', 0)) : ¬ Room h len align := by
  obtain ⟨bin, T, inv, rfl⟩ := rep
  rw [← inv.heap.kmalloc_served_iff isolated_kernelSpan halign hlen]
  rintro ⟨h'', p, hok, hp⟩
  rw [hnull] at hok
  cases hok
  exact hp rfl

/-! ## `kfree` and the owners' writes -/

/-- **`kfree`** takes a block back. -/
theorem KernelRep.kfree {c : Extent} (rep : KernelRep h tabs (c :: blocks) leaf b) :
    ∃ h', Kvm.kfree h (c.addr + 16) = .ok h' ∧ KernelRep h' tabs blocks leaf b ∧
      Untouched kernelSpan h.mem h'.mem (tabs ++ blocks) ∧
        h.arena.topSize ≤ h'.arena.topSize := by
  obtain ⟨bin, T, inv, rfl⟩ := rep
  have hused := inv.heap.perm_used List.perm_middle
  obtain ⟨h', bin', hok, hheap, hun, hroom⟩ := kfree_spec hused (hused.size_lt (by simp))
  obtain ⟨hinv, hleaf⟩ := inv.realloc hheap (hun.mono (List.subset_append_left _ _))
  exact ⟨h', hok, ⟨bin', T, hinv, hleaf⟩, hun, hroom⟩

/-- Only the block right below the top moves the top. -/
theorem KernelRep.kfree_top {h' : Heap} {c : Extent}
    (rep : KernelRep h tabs (c :: blocks) leaf b) (hok : Kvm.kfree h (c.addr + 16) = .ok h') :
    h'.arena.top = if c.fin = h.arena.top then c.addr else h.arena.top := by
  obtain ⟨bin, T, inv, rfl⟩ := rep
  have hheap := inv.heap.perm_used List.perm_middle
  have hlt := hheap.size_lt (e := c) (by simp)
  split
  · next htop =>
    obtain ⟨h₁, hok₁, -, harena, -⟩ := Kvm.kfree_top hheap hlt htop
    rw [hok] at hok₁
    cases hok₁
    rw [harena]
  · next htop =>
    obtain ⟨h₁, hok₁, -, harena, -⟩ := kfree_bin hheap hlt htop
    rw [hok] at hok₁
    cases hok₁
    rw [harena]

theorem KernelRep.fin_le_top (rep : KernelRep h tabs blocks leaf b) {e : Extent}
    (he : e ∈ blocks) : e.fin ≤ h.arena.top := by
  obtain ⟨bin, T, inv, rfl⟩ := rep
  exact (inv.heap.bounds (List.mem_append_right bin (List.mem_append_right tabs he))).2.1

/-- The live chunks are the tables and the blocks. -/
theorem KernelRep.mem_liveChunks (rep : KernelRep h tabs blocks leaf b) (e : Extent) :
    e ∈ liveChunks h ↔ e ∈ tabs ++ blocks := by
  obtain ⟨bin, T, inv, rfl⟩ := rep
  exact inv.heap.mem_liveChunks e

theorem KernelRep.nodup_addr (rep : KernelRep h tabs blocks leaf b) :
    ((tabs ++ blocks).map Extent.addr).Nodup := by
  obtain ⟨bin, T, inv, rfl⟩ := rep
  have hnd := inv.heap.tiles.nodup_addr
  rw [List.map_append] at hnd
  exact (List.nodup_append.mp hnd).2.1

/-- Live chunks do not overlap. -/
theorem KernelRep.apart (rep : KernelRep h tabs blocks leaf b) {e f : Extent}
    (he : e ∈ liveChunks h) (hf : f ∈ liveChunks h) (hne : e ≠ f) : e.Apart f := by
  rw [rep.mem_liveChunks] at he hf
  obtain ⟨bin, T, inv, rfl⟩ := rep
  have hpair := (List.pairwise_append.mp inv.heap.spread.apart).2.1
  have hsymm : Std.Symm Extent.Apart := ⟨fun _ _ => Or.symm⟩
  exact hpair.forall he hf hne

/-- No live chunk starts where a new block does. -/
theorem Allocated.fresh {len align : Nat} {c : Extent}
    (ha : Allocated h h' tabs blocks leaf len align c b) (rep : KernelRep h tabs blocks leaf b)
    {e : Extent} (he : e ∈ liveChunks h) : e.addr ≠ c.addr := by
  have hnd : ((c :: (tabs ++ blocks)).map Extent.addr).Nodup :=
    (List.perm_middle.map Extent.addr).nodup_iff.mp ha.rep.nodup_addr
  rw [List.map_cons, List.nodup_cons] at hnd
  intro heq
  exact hnd.1 (heq ▸ List.mem_map_of_mem ((rep.mem_liveChunks e).mp he))

/-- Memory that neither the allocator nor the tables use: the payload of the blocks, and
everything outside the arena and the static tables. -/
def Free (blocks : List Extent) (a : Nat) : Prop :=
  Payload blocks a ∨ a < 0x80001f7000 ∨ 0x80001fc000 ≤ a ∧ a < 0x8000200000 ∨ 0x8000400000 ≤ a

/-- Writes to such memory leave the chunks as they are. -/
theorem PageInv.heap_write {bin : List Extent} {T : Tables}
    (inv : PageInv h bin tabs blocks T b) {m' : Mem}
    (hm : ∀ a, ¬ Free blocks a → m' a = h.mem a) :
    HeapInv kernelSpan { h with mem := m' } bin (tabs ++ blocks) := by
  have hbase : kernelSpan.base = 0x8000200000 := rfl
  have hlimit : kernelSpan.limit = 0x8000400000 := rfl
  refine inv.heap.write fun a hspan hpay => hm a ?_
  rintro (⟨e, he, hea⟩ | hlow | hmid | hhigh)
  · exact hpay ⟨e, List.mem_append_right _ he, hea⟩
  all_goals omega

/-- **Writes** to such memory keep the invariant. -/
theorem KernelRep.write (rep : KernelRep h tabs blocks leaf b) {m' : Mem}
    (hm : ∀ a, ¬ Free blocks a → m' a = h.mem a) :
    KernelRep { h with mem := m' } tabs blocks leaf b := by
  obtain ⟨bin, T, inv, rfl⟩ := rep
  have hbase : kernelSpan.base = 0x8000200000 := rfl
  have hlimit : kernelSpan.limit = 0x8000400000 := rfl
  have htab : ∀ {l q t}, T l q = some t → ∀ a, t ≤ a → a < t + 0x1000 → m' a = h.mem a := by
    intro l q t ht a h₁ h₂
    refine hm a ?_
    rintro (⟨e, he, h₃, h₄⟩ | hout)
    · exact inv.table_apart ht h₁ h₂ he ⟨by omega, h₄⟩
    · rcases inv.table_byte ht h₁ h₂ with hs | ⟨f, hf, h₃, h₄⟩
      · omega
      · have hb := inv.heap.bounds (List.mem_append_right bin (List.mem_append_left blocks hf))
        have htop := inv.heap.top_le
        omega
  refine ⟨bin, T, ⟨inv.heap_write hm, inv.tree.frame (fun a h₁ h₂ => hm a ?_) fun ht _ =>
    htab ht, inv.owned⟩, TreeInv.leafOf_frame fun ht => htab ht⟩
  rintro (⟨e, he, h₃, -⟩ | hout)
  · have hb := (inv.heap.bounds (List.mem_append_right bin (List.mem_append_right tabs he))).1
    omega
  · omega

/-- The free chunks are those that they were. -/
theorem KernelRep.freeChunks_write (rep : KernelRep h tabs blocks leaf b) {m' : Mem}
    (hm : ∀ a, ¬ Free blocks a → m' a = h.mem a) :
    freeChunks { h with mem := m' } = freeChunks h := by
  obtain ⟨bin, T, inv, -⟩ := rep
  rw [(inv.heap_write hm).freeChunks_eq, inv.heap.freeChunks_eq]

end BpfExamples.Kvm
