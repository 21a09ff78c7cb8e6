import BpfExamples.Kvm.Mmap

/-!
# The kernel at boot

`setup_paging` and `init_pagetable` build the smallest tree: three tables on
the way to the low pages, and no user page. `init_allocator` then sets up an
empty heap behind the static tables.
-/

namespace BpfExamples.Kvm

open Mem

/-- The tables of `setup_paging`. -/
def bootTables : Tables
  | 4, 0 => some 0x80001f7000
  | 3, 0 => some 0x80001f8000
  | 2, 0 => some 0x80001f9000
  | _, _ => none

theorem bootTables_cases {l q t : Nat} (h : bootTables l q = some t) :
    q = 0 ∧ (l = 4 ∧ t = 0x80001f7000 ∨ l = 3 ∧ t = 0x80001f8000 ∨ l = 2 ∧
      t = 0x80001f9000) := by
  unfold bootTables at h
  split at h
  · exact ⟨rfl, .inl ⟨rfl, (Option.some.inj h).symm⟩⟩
  · exact ⟨rfl, .inr (.inl ⟨rfl, (Option.some.inj h).symm⟩)⟩
  · exact ⟨rfl, .inr (.inr ⟨rfl, (Option.some.inj h).symm⟩)⟩
  · cases h

theorem bootTables_leaf (q : Nat) : bootTables 1 q = none := rfl

theorem bootTables_pos {l q : Nat} (h : 0 < q) : bootTables l q = none := by
  cases hb : bootTables l q with
  | none => rfl
  | some t =>
    have := (bootTables_cases hb).1
    omega

/-! ## The large pages of the window -/

theorem initKernelPd_frame (pd : Nat) {a : Nat} :
    ∀ {n : Nat} {m : Mem}, a < pd ∨ pd + 8 * n ≤ a → initKernelPd pd n m a = m a
  | 0, _, _ => rfl
  | n + 1, m, h => by
    rw [initKernelPd, store64_of_notMem (by omega)]
    exact initKernelPd_frame pd (by omega)

theorem initKernelPd_entry (pd : Nat) {i : Nat} :
    ∀ {n : Nat} {m : Mem}, i < n → n ≤ 512 →
      load64 (initKernelPd pd n m) (pd + 8 * i) = i * 0x200000 + 0x83
  | 0, _, h, _ => absurd h (Nat.not_lt_zero i)
  | n + 1, m, h, hn => by
    rw [initKernelPd]
    by_cases hi : i = n
    · subst hi
      have hword : pde64Present ||| pde64RW ||| pde64PS ||| (i * kernelPagingSize) =
          i * 0x200000 + 0x83 := kernelLargePage_eq (Nat.mul_mod_left i _)
      rw [hword, load64_store64_of_lt (by omega)]
    · rw [load64_store64_of_apart (by omega)]
      exact initKernelPd_entry pd (by omega) (by omega)

/-! ## The boot memory -/

/-- The words the two routines store, one behind the other. -/
theorem initPagetable_eq (m : Mem) : initPagetable (setupPaging m) =
    initKernelPd 0x80001fb000 512
      (store64
        (store64 (store64 (store64 (store64 m 0x80001f7000 0x1f8007) 0x80001f8000 0x1f9007)
        0x80001f9000 0x83) 0x80001f7008 0x1fa003) 0x80001fa000 0x1fb003) := rfl

/-- The five entries outside the large pages. -/
theorem initPagetable_entries (m : Mem) :
    let b := initPagetable (setupPaging m)
    load64 b 0x80001f7000 = 0x1f8007 ∧ load64 b 0x80001f8000 = 0x1f9007 ∧
      load64 b 0x80001f9000 = 0x83 ∧ load64 b 0x80001f7008 = 0x1fa003 ∧
      load64 b 0x80001fa000 = 0x1fb003 := by
  have hpd : ∀ m : Mem, ∀ a, a + 8 ≤ 0x80001fb000 → load64 (initKernelPd 0x80001fb000 512 m) a =
      load64 m a :=
    fun m a h => load64_congr fun x h₁ h₂ => initKernelPd_frame _ (.inl (by omega))
  rw [initPagetable_eq]
  refine ⟨?_, ?_, ?_, ?_, ?_⟩ <;> rw [hpd _ _ (by decide)]
  · rw [load64_store64_of_apart (by decide), load64_store64_of_apart (by decide),
      load64_store64_of_apart (by decide), load64_store64_of_apart (by decide),
      load64_store64_of_lt (by decide)]
  · rw [load64_store64_of_apart (by decide), load64_store64_of_apart (by decide),
      load64_store64_of_apart (by decide), load64_store64_of_lt (by decide)]
  · rw [load64_store64_of_apart (by decide), load64_store64_of_apart (by decide),
      load64_store64_of_lt (by decide)]
  · rw [load64_store64_of_apart (by decide), load64_store64_of_lt (by decide)]
  · rw [load64_store64_of_lt (by decide)]

/-- Every other byte is as it was. -/
theorem initPagetable_frame {m : Mem} {a : Nat} (h₁ : a < 0x80001f7000 ∨ 0x80001f7010 ≤ a)
    (h₂ : a < 0x80001f8000 ∨ 0x80001f8008 ≤ a) (h₃ : a < 0x80001f9000 ∨ 0x80001f9008 ≤ a)
    (h₄ : a < 0x80001fa000 ∨ 0x80001fa008 ≤ a) (h₅ : a < 0x80001fb000 ∨ 0x80001fc000 ≤ a) :
    initPagetable (setupPaging m) a = m a := by
  rw [initPagetable_eq, initKernelPd_frame _ (by omega), store64_of_notMem (by omega),
    store64_of_notMem (by omega), store64_of_notMem (by omega), store64_of_notMem (by omega),
    store64_of_notMem (by omega)]

/-- The hypervisor starts the guest with a cleared table area: its memory is an
anonymous mapping, into which a kernel of at most `MAX_KERNEL_SIZE` bytes is
copied (hypervisor.c:133–140, 244). -/
def TablesClear (m : Mem) : Prop := ∀ a, 0x80001f7000 ≤ a → a < 0x80001fc000 → m a = 0

/-- A word of the table area that boot does not write. -/
theorem initPagetable_zero {m : Mem} (hz : TablesClear m) {a : Nat} (h₀ : 0x80001f7010 ≤ a)
    (h₂ : a + 8 ≤ 0x80001f8000 ∨ 0x80001f8008 ≤ a)
    (h₃ : a + 8 ≤ 0x80001f9000 ∨ 0x80001f9008 ≤ a)
    (h₄ : a + 8 ≤ 0x80001fa000 ∨ 0x80001fa008 ≤ a) (h₅ : a + 8 ≤ 0x80001fb000) :
    load64 (initPagetable (setupPaging m)) a = 0 :=
  loadLE_eq_zero fun x h₆ h₇ => by
    rw [initPagetable_frame (by omega) (by omega) (by omega) (by omega) (by omega)]
    exact hz x (by omega) (by omega)

/-- The tree the kernel starts with. -/
theorem bootTree {m : Mem} (hz : TablesClear m) :
    TreeInv (initPagetable (setupPaging m)) bootTables := by
  obtain ⟨e₁, e₂, e₃, e₄, e₅⟩ := initPagetable_entries m
  refine ⟨?_, rfl, fun _ => rfl, fun _ => rfl, ?_, ?_, ?_, ?_, ?_, ?_,
    fun _ => ⟨e₃, e₄, e₅, ?_, ?_⟩, nofun⟩
  · intro l q c h
    have := bootTables_cases h
    omega
  · rintro l q (⟨rfl, rfl⟩ | ⟨rfl, rfl⟩) <;> rfl
  · intro l q t hl ht hk
    obtain ⟨hq, hcase⟩ := bootTables_cases ht
    unfold KernelSlot at hk
    by_cases h0 : q = 0
    · subst h0
      rcases hcase with ⟨hl4, rfl⟩ | ⟨hl3, rfl⟩ | ⟨hl2, rfl⟩
      · obtain rfl : l = 3 := by omega
        exact e₁
      · obtain rfl : l = 2 := by omega
        exact e₂
      · omega
    · rw [bootTables_pos (Nat.pos_of_ne_zero h0)]
      have hword : load64 (initPagetable (setupPaging m)) (t + 8 * (q % 512)) = 0 :=
        initPagetable_zero hz (by omega) (by omega) (by omega) (by omega) (by omega)
      rw [hword]
      rfl
  · intro l q c h hl
    obtain ⟨rfl, hcase⟩ := bootTables_cases h
    rcases hcase with ⟨rfl, -⟩ | ⟨rfl, -⟩ | ⟨rfl, -⟩
    · omega
    · exact ⟨_, rfl⟩
    · exact ⟨_, rfl⟩
  · intro l q l' q' c h h'
    have h₁ := bootTables_cases h
    have h₂ := bootTables_cases h'
    omega
  · intro l q c h
    have := bootTables_cases h
    omega
  · intro l q c h
    have := bootTables_cases h
    omega
  · intro i h0 hi
    rw [initPagetable_zero hz (by omega) (by omega) (by omega) (by omega) (by omega)]
  · intro i hi
    rw [initPagetable_eq]
    exact initKernelPd_entry _ hi (Nat.le_refl _)

/-- The memory and the arena behind `init_allocator`. -/
def bootHeap (m : Mem) : Heap :=
  ⟨initPagetable (setupPaging m), ⟨0x8000200000, 0x200000, 0x8000200000, 0⟩⟩

theorem bootHeap_inv {m : Mem} (hz : TablesClear m) :
    PageInv (bootHeap m) [] [] [] bootTables where
  heap := HeapInv.init kernelSpan _
  tree := bootTree hz
  owned h := .inl (by have := bootTables_cases h; omega)

theorem bootHeap_leaf (m : Mem) : leafOf (bootHeap m).mem bootTables = fun _ => 0 :=
  funext fun _ => leafOf_none (bootTables_leaf _)

theorem bootHeap_frame (m : Mem) {a : Nat} (ha : a < 0x80001f7000 ∨ 0x80001fc000 ≤ a) :
    (bootHeap m).mem a = m a :=
  initPagetable_frame (by omega) (by omega) (by omega) (by omega) (by omega)

/-- **Boot** gives a kernel with an empty heap and no user page. -/
theorem kernelBoot_spec {m : Mem} (hz : TablesClear m) :
    ∃ k, kernelBoot m = .ok k ∧ KernelInv k.heap [] (fun _ => 0) ∧ k.lastMmapped = minusOne ∧
      k.heap.arena = ⟨0x8000200000, 0x200000, 0x8000200000, 0⟩ ∧
      ∀ a, a < 0x80001f7000 ∨ 0x80001fc000 ≤ a → k.heap.mem a = m a :=
  ⟨⟨bootHeap m, minusOne⟩, rfl, ⟨[], [], bootTables, bootHeap_inv hz, bootHeap_leaf m⟩, rfl,
    rfl, fun _ => bootHeap_frame m⟩

end BpfExamples.Kvm
