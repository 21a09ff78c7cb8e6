import BpfExamples.Kvm.PageTree

/-!
# The kernel's memory: heap and page tables together

The tables below the heap's start are static; every other table is a chunk of
the heap, and the heap's remaining chunks in use are the `blocks` the kernel has
handed out. `PageInv` ties the two representations together, and `KernelInv`
hides everything but the blocks and the leaf words:

- `addTransUser_spec`: `add_trans_user` sets one leaf, or panics for want of
  memory;
- `modifyPermission_spec`: `modify_permission` edits one leaf that is present;
- `PageInv.realloc`, `PageInv.setLeaf`: what the allocator and a store in a last table leave of
  it.
-/

namespace BpfExamples.Kvm

open Mem

/-! ## The invariant -/

/-- A heap that holds the page tables `T` in its chunks `tabs`. -/
structure PageInv (h : Heap) (bin tabs blocks : List Extent) (T : Tables)
    (intact : Bool := true) : Prop where
  heap : HeapInv kernelSpan h bin (tabs ++ blocks)
  tree : TreeInv h.mem T intact
  owned : ∀ {l q c}, T l q = some c →
    c < 0x80001fa000 ∨ ∃ e ∈ tabs, c = e.addr + 16 ∧ 0x1010 ≤ e.size

/-- What a routine that works on the tables leaves alone: the blocks, and all
memory outside the heap and the five static tables. -/
structure Kept (m m' : Mem) (blocks : List Extent) : Prop where
  blocks : ∀ e ∈ blocks, ∀ a, e.Has a → m' a = m a
  outside : ∀ a, a < 0x80001f7000 ∨ 0x80001fc000 ≤ a → a < 0x8000200000 ∨ 0x8000400000 ≤ a →
    m' a = m a

theorem Kept.refl (m : Mem) (blocks : List Extent) : Kept m m blocks :=
  ⟨fun _ _ _ _ => rfl, fun _ _ _ => rfl⟩

theorem Kept.trans {m m' m'' : Mem} {blocks : List Extent} (h₁ : Kept m m' blocks)
    (h₂ : Kept m' m'' blocks) : Kept m m'' blocks where
  blocks e he a ha := (h₂.blocks e he a ha).trans (h₁.blocks e he a ha)
  outside a h₃ h₄ := (h₂.outside a h₃ h₄).trans (h₁.outside a h₃ h₄)

theorem Untouched.kept {m m' : Mem} {tabs blocks : List Extent}
    (h : Untouched kernelSpan m m' (tabs ++ blocks)) : Kept m m' blocks where
  blocks e he := h.used e (List.mem_append_right _ he)
  outside a _ h₂ := h.outside a h₂

namespace PageInv

variable {h h' : Heap} {bin bin' tabs blocks blocks' : List Extent} {T : Tables} {b : Bool}
  {l q t c : Nat}

/-- The bytes of a table are static or a chunk's payload. -/
theorem table_byte (inv : PageInv h bin tabs blocks T b) (ht : T l q = some t) {a : Nat}
    (h₁ : t ≤ a) (h₂ : a < t + 0x1000) :
    0x80001f7000 ≤ a ∧ a < 0x80001fa000 ∨ Payload tabs a := by
  have hp := inv.tree.page ht
  rcases inv.owned ht with hlow | ⟨e, he, rfl, hsz⟩
  · exact .inl (by omega)
  · refine .inr ⟨e, he, h₁, ?_⟩
    unfold Extent.fin
    omega

/-- Where the tables' chunks are untouched, so are the tables. -/
theorem table_same (inv : PageInv h bin tabs blocks T b) {m' : Mem}
    (hun : Untouched kernelSpan h.mem m' tabs) (ht : T l q = some t) {a : Nat} (h₁ : t ≤ a)
    (h₂ : a < t + 0x1000) : m' a = h.mem a := by
  have hbase : kernelSpan.base = 0x8000200000 := rfl
  rcases inv.table_byte ht h₁ h₂ with hs | ⟨e, he, h₃, h₄⟩
  · exact hun.outside a (by omega)
  · exact hun.used e he a ⟨by omega, h₄⟩

/-- The allocator's work on other chunks keeps the tables. -/
theorem realloc (inv : PageInv h bin tabs blocks T b)
    (hheap : HeapInv kernelSpan h' bin' (tabs ++ blocks'))
    (hun : Untouched kernelSpan h.mem h'.mem tabs) :
    PageInv h' bin' tabs blocks' T b ∧ leafOf h'.mem T = leafOf h.mem T := by
  have hbase : kernelSpan.base = 0x8000200000 := rfl
  refine ⟨⟨hheap, inv.tree.frame (fun a h₁ h₂ => hun.outside a (by omega)) fun ht _ a =>
    inv.table_same hun ht, inv.owned⟩, TreeInv.leafOf_frame fun ht a => inv.table_same hun ht⟩

/-- A table's byte is in no block, and in no memory outside the heap but the static
tables. -/
theorem table_apart (inv : PageInv h bin tabs blocks T b) (ht : T l q = some t) {a : Nat}
    (h₁ : t ≤ a) (h₂ : a < t + 0x1000) {e : Extent} (he : e ∈ blocks) : ¬ e.Has a := by
  intro hea
  have hin := (inv.heap.bounds (List.mem_append_right bin (List.mem_append_right tabs he))).1
  have hbase : kernelSpan.base = 0x8000200000 := rfl
  rcases inv.table_byte ht h₁ h₂ with hs | ⟨f, hf, h₃, h₄⟩
  · have := hea.1
    omega
  · have hused := (List.pairwise_append.mp inv.heap.tiles.apart).2.1
    have hap := (List.pairwise_append.mp hused).2.2 f hf e he
    exact hap.not_has ⟨by omega, h₄⟩ hea

/-- A store into a table is none of the allocator's business. -/
theorem heap_store (inv : PageInv h bin tabs blocks T b) (ht : T l q = some t) {i : Nat}
    (e : Nat) (hi : i < 512) :
    HeapInv kernelSpan { h with mem := store64 h.mem (t + 8 * i) e } bin (tabs ++ blocks) := by
  have hbase : kernelSpan.base = 0x8000200000 := rfl
  refine inv.heap.write fun a hspan hpay => store64_of_notMem ?_
  by_contra hin
  rcases inv.table_byte ht (a := a) (by omega) (by omega) with hs | ⟨f, hf, hfa⟩
  · omega
  · exact hpay ⟨f, List.mem_append_left _ hf, hfa⟩

theorem kept_store (inv : PageInv h bin tabs blocks T b) (ht : T l q = some t) {i : Nat}
    (e : Nat) (hi : i < 512) : Kept h.mem (store64 h.mem (t + 8 * i) e) blocks where
  blocks f hf a ha := by
    refine store64_of_notMem ?_
    by_contra hin
    exact inv.table_apart ht (a := a) (by omega) (by omega) hf ha
  outside a h₁ h₂ := by
    refine store64_of_notMem ?_
    by_contra hin
    rcases inv.table_byte ht (a := a) (by omega) (by omega) with hs | ⟨f, hf, h₃, h₄⟩
    · omega
    · have hb := inv.heap.bounds (List.mem_append_right bin (List.mem_append_left blocks hf))
      have htop := inv.heap.top_le
      have hbase : kernelSpan.base = 0x8000200000 := rfl
      have hlimit : kernelSpan.limit = 0x8000400000 := rfl
      omega

/-- A leaf word is no concern of the allocator. -/
theorem setLeaf (inv : PageInv h bin tabs blocks T b) (ht : T 1 q = some t) {i : Nat} (e : Nat)
    (hi : i < 512) :
    PageInv { h with mem := store64 h.mem (t + 8 * i) e } bin tabs blocks T b :=
  ⟨inv.heap_store ht e hi, inv.tree.setLeaf ht e hi, inv.owned⟩

/-- A fresh chunk is none of the tables'. -/
theorem fresh (inv : PageInv h bin tabs blocks T b) {c : Extent}
    (hheap : HeapInv kernelSpan h' bin' (c :: (tabs ++ blocks))) :
    T l q ≠ some (c.addr + 16) := by
  intro ht
  have hin := (hheap.bounds (e := c) (by simp)).1
  have hbase : kernelSpan.base = 0x8000200000 := rfl
  rcases inv.owned ht with hlow | ⟨e, he, heq, -⟩
  · omega
  · have hnd := hheap.tiles.nodup_addr
    rw [List.map_append, List.map_cons] at hnd
    have hnot := (List.nodup_cons.mp (List.nodup_append.mp hnd).2.1).1
    refine hnot ?_
    have haddr : c.addr = e.addr := by omega
    rw [haddr]
    exact List.mem_map_of_mem (List.mem_append_left _ he)

/-! ## `PAGING` of `add_trans_user` -/

/-- A table that is there is followed. -/
theorem addTransStep_there (inv : PageInv h bin tabs blocks T b) (hl : 1 ≤ l)
    (ht : T (l + 1) (q / 512) = some t) (hk : ¬ KernelSlot l q) (hc : T l q = some c) :
    addTransStep h (t + 8 * (q % 512)) = .ok (h, c) := by
  have he := inv.tree.linked hl ht hk
  rw [hc] at he
  have hz : load64 h.mem (t + 8 * (q % 512)) = c - 0x8000000000 + 7 := he
  have hp := inv.tree.page hc
  have hback : 0x8000000000 + (c - 0x8000000000) = c := by omega
  have hpres : hasFlag (c - 0x8000000000 + 7) pde64Present = true := by
    rw [hasFlag_present]
    exact decide_eq_true (by omega)
  have huser : hasFlag (c - 0x8000000000 + 7) pde64User = true := by
    rw [hasFlag_user]
    exact decide_eq_true (by omega)
  simp only [addTransStep, hz, hpres, huser, Bool.not_true, Bool.false_eq_true, if_false]
  rw [tableOf_add (by omega) (by omega) (by decide), hback]

/-- A table that is missing is allocated and hung in. Without memory for it the
kernel panics on the null pointer. -/
theorem addTransStep_missing (inv : PageInv h bin tabs blocks T b) (hl : 1 ≤ l)
    (ht : T (l + 1) (q / 512) = some t) (hk : ¬ KernelSlot l q) (hnone : T l q = none) :
    (∃ h' c bin', addTransStep h (t + 8 * (q % 512)) = .ok (h', c.addr + 16) ∧
      PageInv h' bin' (c :: tabs) blocks (T.set l q (c.addr + 16)) b ∧
      leafOf h'.mem (T.set l q (c.addr + 16)) = leafOf h.mem T ∧ Kept h.mem h'.mem blocks ∧
      h.arena.topSize ≤ h'.arena.topSize + 0x2090 ∧ Placed h h' bin bin' c mallocPageAlign ∧
        c.size = 0x1080) ∨
    addTransStep h (t + 8 * (q % 512)) = .error (.panic .physicalNonKernel) ∧
      h.arena.topSize < 0x2090 := by
  have he := inv.tree.linked hl ht hk
  rw [hnone] at he
  have hz : load64 h.mem (t + 8 * (q % 512)) % 2 = 0 := he
  have hi : q % 512 < 512 := Nat.mod_lt _ (by decide)
  have habsent : hasFlag (load64 h.mem (t + 8 * (q % 512))) pde64Present = false := by
    rw [hasFlag_present]
    exact decide_eq_false (by omega)
  simp only [addTransStep, habsent, Bool.not_false, if_true]
  rcases kmalloc_spec 0x1000 isolated_kernelSpan inv.heap (.inr rfl) with
    ⟨h₁, c, bin', hok, hsz, hsz', hs, hzero, hal, hplaced, hsize⟩ | ⟨hbig, -⟩ |
      ⟨-, hroom, h₁, -, -, hok⟩
  · have hb := hs.inv.bounds (e := c) (by simp)
    have htop := hs.inv.top_le
    have hbase : kernelSpan.base = 0x8000200000 := rfl
    have hlimit : kernelSpan.limit = 0x8000400000 := rfl
    unfold Extent.fin at hb
    have hpage := hal rfl
    obtain ⟨p, hp⟩ : ∃ p, c.addr + 16 = 0x8000000000 + p :=
      ⟨c.addr + 16 - 0x8000000000, by omega⟩
    -- the allocation first, then the entry
    have hstep : PageInv h₁ bin' (c :: tabs) blocks T b ∧ leafOf h₁.mem T = leafOf h.mem T := by
      have hheap : HeapInv kernelSpan h₁ bin' (tabs ++ c :: blocks) :=
        hs.inv.perm_used List.perm_middle.symm
      obtain ⟨h₂, h₃⟩ := inv.realloc hheap (hs.untouched.mono (List.subset_append_left _ _))
      exact ⟨⟨hs.inv, h₂.tree, fun ht' => (inv.owned ht').imp id
        fun ⟨e, he, h⟩ => ⟨e, List.mem_cons_of_mem _ he, h⟩⟩, h₃⟩
    obtain ⟨inv₁, hleaf⟩ := hstep
    have hfresh : ∀ {l' q'}, T l' q' ≠ some (c.addr + 16) := inv.fresh hs.inv
    have hc : (c.addr + 16) % 0x1000 = 0 ∧ 0x8000200000 ≤ c.addr + 16 ∧
        c.addr + 16 < 0x8040000000 := by
      omega
    have hclear : ∀ a, c.addr + 16 ≤ a → a < c.addr + 16 + 0x1000 → h₁.mem a = 0 := hzero
    have hword : pde64Present ||| pde64RW ||| pde64User ||| p =
        c.addr + 16 - 0x8000000000 + 7 := by
      rw [tablePointer_eq (by omega)]
      omega
    refine .inl
      ⟨{ h₁ with mem := store64 h₁.mem (t + 8 * (q % 512)) (c.addr + 16 - 0x8000000000 + 7) },
      c, bin', ?_, ⟨inv₁.heap_store ht _ hi, ?_, ?_⟩, ?_, ?_, ?_, hplaced.setMem _, hsize⟩
    · rw [hok]
      simp only [ok_bind]
      rw [hp, physical_window (by omega), ← hp]
      simp only [ok_bind, hword]
      rfl
    · exact inv₁.tree.grow hl ht hnone hk hc hfresh hclear
    · intro l' q' c' h'
      rcases Tables.set_cases h' with ⟨-, rfl⟩ | ⟨-, hold⟩
      · exact .inr ⟨c, List.mem_cons_self, rfl, hsz⟩
      · exact inv₁.owned hold
    · exact (inv₁.tree.leafOf_grow hl ht hnone hk hc hfresh hclear).trans hleaf
    · exact hs.untouched.kept.trans (inv₁.kept_store ht _ hi)
    · have := hs.room
      show h.arena.topSize ≤ h₁.arena.topSize + 0x2090
      omega
  · omega
  · have hnull : kmalloc kernelSpace h 0x1000 mallocPageAlign =
        .ok ({ h₁ with mem := fill h₁.mem 0x8000000000 0x1000 0 }, 0) := by
      rw [hok, memset_null _ (by decide)]
      rfl
    refine .inr ⟨?_, by omega⟩
    rw [hnull]
    simp only [ok_bind, physical_null, error_bind]

/-- **One step of the walk**, in either case. -/
theorem addTransStep_spec (inv : PageInv h bin tabs blocks T b) (hl : 1 ≤ l)
    (ht : T (l + 1) (q / 512) = some t) (hk : ¬ KernelSlot l q) :
    (∃ h' c bin' tabs' T', addTransStep h (t + 8 * (q % 512)) = .ok (h', c) ∧
      PageInv h' bin' tabs' blocks T' b ∧ T' l q = some c ∧
      leafOf h'.mem T' = leafOf h.mem T ∧ Kept h.mem h'.mem blocks ∧
      h.arena.topSize ≤ h'.arena.topSize + 0x2090) ∨
    addTransStep h (t + 8 * (q % 512)) = .error (.panic .physicalNonKernel) ∧
      h.arena.topSize < 0x2090 := by
  cases hc : T l q with
  | some c =>
    exact .inl ⟨h, c, bin, tabs, T, inv.addTransStep_there hl ht hk hc, inv, hc, rfl,
      Kept.refl _ _, Nat.le_add_right _ _⟩
  | none =>
    rcases inv.addTransStep_missing hl ht hk hc with ⟨h', c, bin', hok, hinv, hleaf, hkept,
      hroom, -⟩ | hpanic
    · exact .inl ⟨h', _, bin', _, _, hok, hinv, Tables.set_self _ _ _ _, hleaf, hkept, hroom⟩
    · exact .inr hpanic

end PageInv

/-! ## `add_trans_user` -/

/-- **The kernel's invariant**: `blocks` are the chunks it has handed out, `leaf` the
leaf words of all pages. -/
def KernelInv (h : Heap) (blocks : List Extent) (leaf : Nat → Nat) (intact : Bool := true) :
    Prop :=
  ∃ bin tabs T, PageInv h bin tabs blocks T intact ∧ leafOf h.mem T = leaf

/-- The word `add_trans_user` stores in the leaf. -/
def leafWord (paddr prot : Nat) : Nat := withProt (pde64Present ||| dropWindowBit paddr) prot

theorem withProt_lt {e : Nat} (he : e < 2 ^ 64) (prot : Nat) : withProt e prot < 2 ^ 64 := by
  have huser : e ||| pde64User < 2 ^ 64 := Nat.or_lt_two_pow he (by decide)
  unfold withProt
  split <;> split
  · exact Nat.or_lt_two_pow huser (by decide)
  · exact huser
  · exact Nat.or_lt_two_pow he (by decide)
  · exact he

theorem leafWord_lt (paddr prot : Nat) : leafWord paddr prot < 2 ^ 64 :=
  withProt_lt (Nat.or_lt_two_pow (by decide) (Nat.and_lt_two_pow _ (by decide))) prot

/-- The user range is outside the kernel's own. -/
theorem outside_of_userMemRangeOk {v : Nat} (hv : userMemRangeOk v = true) : Outside v :=
  userMemRangeOk_iff.mp hv

section

variable {h : Heap} {blocks : List Extent} {leaf : Nat → Nat} {b : Bool} {v : Nat}

/-- **`add_trans_user`** sets the leaf of one page. It fails only by the panic that
a table without memory ends in. -/
theorem addTransUser_spec (inv : KernelInv h blocks leaf b) (hv : userMemRangeOk v = true)
    (paddr prot : Nat) :
    (∃ h', addTransUser h v paddr prot = .ok h' ∧
      KernelInv h' blocks (Function.update leaf (v / 0x1000) (leafWord paddr prot)) b ∧
      Kept h.mem h'.mem blocks ∧ h.arena.topSize ≤ h'.arena.topSize + 0x61b0) ∨
    addTransUser h v paddr prot = .error (.panic .physicalNonKernel) ∧
      h.arena.topSize < 0x61b0 := by
  obtain ⟨bin, tabs, T, inv, rfl⟩ := inv
  have hout := outside_of_userMemRangeOk hv
  obtain ⟨hk₃, hk₂, hk₁⟩ := hout.not_kernelSlot
  have hroot : T (3 + 1) (v / 2 ^ 39 / 512) = some 0x80001f7000 := by
    have h48 : v / 2 ^ 39 / 512 = 0 := by
      have := hout.2.1
      omega
    rw [h48]
    exact inv.tree.root
  simp only [addTransUser, hv, Bool.not_true, Bool.false_eq_true, if_false, slot_eq,
    pml4Addr_eq]
  rcases inv.addTransStep_spec (by decide) hroot hk₃ with
    ⟨h₁, pdp, bin₁, tabs₁, T₁, hok₁, inv₁, ht₁, hleaf₁, hkept₁, hroom₁⟩ | ⟨hpanic, hroom⟩
  swap
  · exact .inr ⟨by rw [hpanic, error_bind], by omega⟩
  rw [hok₁, ok_bind]
  have hpdp : T₁ (2 + 1) (v / 2 ^ 30 / 512) = some pdp := by
    rw [prefix_up]
    exact ht₁
  rcases inv₁.addTransStep_spec (by decide) hpdp hk₂ with
    ⟨h₂, pd, bin₂, tabs₂, T₂, hok₂, inv₂, ht₂, hleaf₂, hkept₂, hroom₂⟩ | ⟨hpanic, hroom⟩
  swap
  · exact .inr ⟨by rw [hpanic, error_bind], by omega⟩
  rw [hok₂, ok_bind]
  have hpd : T₂ (1 + 1) (v / 2 ^ 21 / 512) = some pd := by
    rw [prefix_up]
    exact ht₂
  rcases inv₂.addTransStep_spec (by decide) hpd hk₁ with
    ⟨h₃, pt, bin₃, tabs₃, T₃, hok₃, inv₃, ht₃, hleaf₃, hkept₃, hroom₃⟩ | ⟨hpanic, hroom⟩
  swap
  · exact .inr ⟨by rw [hpanic, error_bind], by omega⟩
  rw [hok₃, ok_bind]
  have hi : v / 2 ^ 12 % 512 < 512 := Nat.mod_lt _ (by decide)
  have hpage : v / 2 ^ 21 * 512 + v / 2 ^ 12 % 512 = v / 0x1000 := by omega
  have hset := inv₃.tree.leafOf_setLeaf ht₃ (leafWord paddr prot) hi
  rw [hpage, Nat.mod_eq_of_lt (leafWord_lt paddr prot), hleaf₃, hleaf₂, hleaf₁] at hset
  have hkept := inv₃.kept_store ht₃ (leafWord paddr prot) hi
  exact .inl
    ⟨{ h₃ with mem := store64 h₃.mem (pt + 8 * (v / 2 ^ 12 % 512)) (leafWord paddr prot) },
    rfl, ⟨bin₃, tabs₃, T₃, inv₃.setLeaf ht₃ (leafWord paddr prot) hi, hset⟩,
    (hkept₁.trans hkept₂).trans (hkept₃.trans hkept), by simp only; omega⟩

/-! ## `modify_permission` -/

/-- The word `modify_permission` leaves in a leaf. -/
def leafModified (e prot : Nat) : Nat := withProt (dropProt e) prot

/-- Only the two permission bits are new. -/
theorem leafModified_eq {e : Nat} (he : e < 2 ^ 64) (prot : Nat) :
    leafModified e prot = e - e % 8 + e % 2 + protFlags prot := by
  rw [leafModified, dropProt_eq he]
  exact withProt_eq (by omega) (by omega)

theorem leafModified_lt {e : Nat} (he : e < 2 ^ 64) (prot : Nat) :
    leafModified e prot < 2 ^ 64 :=
  withProt_lt (Nat.and_le_left.trans_lt he) prot

/-- Changing permissions a second time in the same way changes nothing. -/
theorem leafModified_idem {e : Nat} (he : e < 2 ^ 64) (prot : Nat) :
    leafModified (leafModified e prot) prot = leafModified e prot := by
  have hf := protFlags_le prot
  rw [leafModified_eq he, leafModified_eq (by omega)]
  omega

/-- The leaf tables of a user address, as `modify_permission` finds them. -/
theorem modifyPermission_eq {m : Mem} {T : Tables} (inv : TreeInv m T b) (hout : Outside v)
    (prot : Nat) :
    modifyPermission m v prot =
      match T 1 (v / 2 ^ 21) with
      | none => none
      | some pt =>
        let p := pt + 8 * (v / 0x1000 % 512)
        if load64 m p % 2 = 1 then some (store64 m p (leafModified (load64 m p) prot))
          else none := by
  obtain ⟨hk₃, hk₂, hk₁⟩ := hout.not_kernelSlot
  have hroot : T (3 + 1) (v / 2 ^ 39 / 512) = some 0x80001f7000 := by
    have h48 : v / 2 ^ 39 / 512 = 0 := by
      have := hout.2.1
      omega
    rw [h48]
    exact inv.root
  simp only [modifyPermission, slot_eq, pml4Addr_eq, Option.bind_eq_bind]
  rw [inv.modifyStep_child (by decide) hroot hk₃]
  cases h₃ : T 3 (v / 2 ^ 39) with
  | none =>
    have h₂ := inv.orphan (l := 2) (q := v / 2 ^ 30) (by decide) (by rw [prefix_up]; exact h₃)
    have h₁ := inv.orphan (l := 1) (q := v / 2 ^ 21) (by decide) (by rw [prefix_up]; exact h₂)
    rw [h₁]
    rfl
  | some pdp =>
    have hpdp : T (2 + 1) (v / 2 ^ 30 / 512) = some pdp := by
      rw [prefix_up]
      exact h₃
    rw [Option.bind_some, inv.modifyStep_child (by decide) hpdp hk₂]
    cases h₂ : T 2 (v / 2 ^ 30) with
    | none =>
      have h₁ := inv.orphan (l := 1) (q := v / 2 ^ 21) (by decide) (by rw [prefix_up]; exact h₂)
      rw [h₁]
      rfl
    | some pd =>
      have hpd : T (1 + 1) (v / 2 ^ 21 / 512) = some pd := by
        rw [prefix_up]
        exact h₂
      rw [Option.bind_some, inv.modifyStep_child (by decide) hpd hk₁]
      cases h₁ : T 1 (v / 2 ^ 21) with
      | none => rfl
      | some pt =>
        rw [Option.bind_some, hasFlag_present, show (2 : Nat) ^ 12 = 0x1000 from rfl]
        dsimp only
        generalize pt + 8 * (v / 0x1000 % 512) = p
        by_cases hp : load64 m p % 2 = 1 <;> simp [hp, leafModified]

/-- **`modify_permission`** edits the leaf of a page that is present. -/
theorem modifyPermission_spec (inv : KernelInv h blocks leaf b) (hout : Outside v) (prot : Nat)
    (hp : leaf (v / 0x1000) % 2 = 1) :
    ∃ m, modifyPermission h.mem v prot = some m ∧
      KernelInv { h with mem := m } blocks
        (Function.update leaf (v / 0x1000) (leafModified (leaf (v / 0x1000)) prot)) b ∧
      Kept h.mem m blocks := by
  obtain ⟨bin, tabs, T, inv, rfl⟩ := inv
  have hup : v / 0x1000 / 512 = v / 2 ^ 21 := prefix_up v 12
  have hi : v / 0x1000 % 512 < 512 := Nat.mod_lt _ (by decide)
  rw [modifyPermission_eq inv.tree hout]
  cases h₁ : T 1 (v / 2 ^ 21) with
  | none =>
    rw [leafOf_none (by rw [hup]; exact h₁)] at hp
    cases hp
  | some pt =>
    have hleaf : leafOf h.mem T (v / 0x1000) = load64 h.mem (pt + 8 * (v / 0x1000 % 512)) :=
      leafOf_some (by rw [hup]; exact h₁)
    rw [hleaf] at hp ⊢
    set e := leafModified (load64 h.mem (pt + 8 * (v / 0x1000 % 512))) prot with he
    have hpage : v / 2 ^ 21 * 512 + v / 0x1000 % 512 = v / 0x1000 := by omega
    have hlt : e < 2 ^ 64 := leafModified_lt (load64_lt _ _) prot
    have hset := inv.tree.leafOf_setLeaf h₁ e hi
    rw [hpage, Nat.mod_eq_of_lt hlt] at hset
    exact ⟨_, if_pos hp, ⟨bin, tabs, T, inv.setLeaf h₁ e hi, hset⟩, inv.kept_store h₁ e hi⟩

/-- It refuses any other page. -/
theorem modifyPermission_absent (inv : KernelInv h blocks leaf b) (hout : Outside v)
    (prot : Nat) (hp : leaf (v / 0x1000) % 2 ≠ 1) : modifyPermission h.mem v prot = none := by
  obtain ⟨bin, tabs, T, inv, rfl⟩ := inv
  have hup : v / 0x1000 / 512 = v / 2 ^ 21 := prefix_up v 12
  rw [modifyPermission_eq inv.tree hout]
  cases h₁ : T 1 (v / 2 ^ 21) with
  | none => rfl
  | some pt =>
    rw [leafOf_some (t := pt) (by rw [hup]; exact h₁)] at hp
    exact if_neg hp

end

end BpfExamples.Kvm
