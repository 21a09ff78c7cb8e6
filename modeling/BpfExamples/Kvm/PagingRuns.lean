import BpfExamples.Kvm.Boot

/-!
# Every run of the paging calls

From boot on, any sequence of `add_trans_user`, `mmap` and `mprotect`.

- `addTransUser_translate`: in a run that has memory, mapping a page changes the
  translation of that page and of no other;
- `kernelMappings_kept`: the kernel's own pages stay as they are and stay
  hidden, in every run in which no large `mmap` fails;
- `kernelMappings_lost`: an `mmap` that fails for want of memory can clear the
  top page table.
-/

namespace BpfExamples.Kvm

open Mem

/-! ## Runs -/

/-- The calls. -/
inductive PagingOp
  | addTransUser (vaddr paddr prot : Nat)
  | mmap (addr len prot : Nat)
  | mprotect (addr len prot : Nat)

/-- One call; what the routine returns to its caller is dropped. -/
def Kernel.step (k : Kernel) : PagingOp → Exec Kernel
  | .addTransUser vaddr paddr prot => do
    let h ← addTransUser k.heap vaddr paddr prot
    return { k with heap := h }
  | .mmap addr len prot => do
    let (k, _) ← mmap k addr len prot
    return k
  | .mprotect addr len prot => .ok (mprotect k addr len prot).1

/-- A kernel that has just booted. -/
def Booted (k : Kernel) : Prop := ∃ m, TablesClear m ∧ kernelBoot m = .ok k

/-- The unused area has room for the pages of an `mmap`. A table that cannot be allocated ends
the run by itself; `mmap` reports a block that cannot by a null pointer. -/
def MemoryLasts (k : Kernel) : PagingOp → Prop
  | .mmap _ len _ => len < 2 ^ 32 → RoomOnPage k.heap (chunkSize len)
  | _ => True

/-- It has, if they are more than `MAX_KERNEL_SIZE` bytes. -/
def LargeLasts (k : Kernel) : PagingOp → Prop
  | .mmap _ len _ => 0x1f7000 < len → len < 2 ^ 32 → RoomOnPage k.heap (chunkSize len)
  | _ => True

theorem MemoryLasts.large {k : Kernel} {op : PagingOp} (h : MemoryLasts k op) :
    LargeLasts k op := by
  cases op with
  | addTransUser vaddr paddr prot => trivial
  | mmap addr len prot => exact fun _ => h
  | mprotect addr len prot => trivial

/-- The invariant of a run. -/
def Kernel.Inv (k : Kernel) : Prop := ∃ blocks leaf, KernelInv k.heap blocks leaf

/-- A kernel that has just booted has no blocks and maps nothing for the user. -/
theorem booted_empty {k : Kernel} (h : Booted k) : KernelInv k.heap [] fun _ => 0 := by
  obtain ⟨m, hz, hk⟩ := h
  obtain ⟨k', hk', inv, -⟩ := kernelBoot_spec hz
  obtain rfl : k = k' := Except.ok.inj (hk.symm.trans hk')
  exact inv

theorem booted_inv {k : Kernel} (h : Booted k) : k.Inv := ⟨_, _, booted_empty h⟩

/-- **What a call leaves**: the invariant as it was before, or, behind a large `mmap` that
fails, a kernel without its own entries. -/
theorem Kernel.step_cases {k k' : Kernel} {op : PagingOp} {blocks : List Extent}
    {leaf : Nat → Nat} {b : Bool} (inv : KernelInv k.heap blocks leaf b)
    (hs : k.step op = .ok k') :
    (∃ blocks' leaf', KernelInv k'.heap blocks' leaf' b) ∨
      ¬ LargeLasts k op ∧ ∃ blocks' leaf', KernelInv k'.heap blocks' leaf' false := by
  cases op with
  | addTransUser vaddr paddr prot =>
    by_cases hv : userMemRangeOk vaddr = true
    · rcases addTransUser_spec inv hv paddr prot with ⟨h', heq, inv', -⟩ | ⟨herr, -⟩
      · rw [Kernel.step, heq] at hs
        cases hs
        exact .inl ⟨_, _, inv'⟩
      · rw [Kernel.step, herr] at hs
        cases hs
    · rw [Kernel.step, addTransUser, (Bool.not_eq_true _).mp hv] at hs
      cases hs
  | mmap addr len prot =>
    by_cases hlen : len = 0 ∨ len % 0x1000 ≠ 0
    · rw [Kernel.step, mmap_badLength k addr prot hlen] at hs
      cases hs
    · rcases mmap_spec inv addr prot (show 0 < len by omega) (by omega) with
        ⟨k₁, c, heq, hm⟩ | ⟨herr, -⟩ | ⟨herr, -⟩ | ⟨-, heq⟩ | ⟨hle, hfull, h', heq, hd⟩ |
          ⟨-, -, -, herr⟩
      · rw [Kernel.step, heq] at hs
        cases hs
        exact .inl ⟨_, _, hm.inv⟩
      · rw [Kernel.step, herr] at hs
        cases hs
      · rw [Kernel.step, herr] at hs
        cases hs
      · rw [Kernel.step, heq] at hs
        cases hs
        exact .inl ⟨_, _, inv⟩
      · rw [Kernel.step, heq] at hs
        cases hs
        -- the clearing stops before the tables, or takes all of the first
        by_cases hsmall : len ≤ 0x1f7000
        · exact .inl ⟨_, _, hd.inv hsmall inv⟩
        · exact .inr ⟨fun hok => hfull (hok (by omega) (by omega)), _, _,
            hd.cleared (by omega) hle inv⟩
      · rw [Kernel.step, herr] at hs
        cases hs
  | mprotect addr len prot =>
    obtain ⟨m, ret, leaf', heq, inv', -⟩ := mprotect_spec inv addr len prot
    rw [Kernel.step, heq] at hs
    cases hs
    exact .inl ⟨_, _, inv'⟩

/-- **Every call keeps the invariant**, unless it is a large `mmap` that fails. -/
theorem Kernel.step_inv {k k' : Kernel} {op : PagingOp} (inv : k.Inv) (hok : LargeLasts k op)
    (hs : k.step op = .ok k') : k'.Inv := by
  obtain ⟨blocks, leaf, inv⟩ := inv
  rcases Kernel.step_cases inv hs with hinv | ⟨hnot, -⟩
  · exact hinv
  · exact absurd hok hnot

/-- What every call keeps: the user's part of the tables is in order, with the kernel's own
entries in place or cleared. -/
def Kernel.Usable (k : Kernel) : Prop := ∃ blocks leaf b, KernelInv k.heap blocks leaf b

theorem Kernel.step_usable {k k' : Kernel} {op : PagingOp} (inv : k.Usable)
    (hs : k.step op = .ok k') : k'.Usable := by
  obtain ⟨blocks, leaf, b, inv⟩ := inv
  rcases Kernel.step_cases inv hs with ⟨blocks', leaf', inv'⟩ | ⟨-, blocks', leaf', inv'⟩
  · exact ⟨blocks', leaf', b, inv'⟩
  · exact ⟨blocks', leaf', false, inv'⟩

/-- The states of runs whose calls all meet a condition. -/
def Kernel.Reachable (ok : Kernel → PagingOp → Prop) : Kernel → Prop :=
  Reach Booted ok Kernel.step

theorem Kernel.Reachable.inv {ok : Kernel → PagingOp → Prop}
    (hok : ∀ k op, ok k op → LargeLasts k op) {k : Kernel} (hr : Kernel.Reachable ok k) :
    k.Inv :=
  Reach.inv (I := Kernel.Inv) (fun _ => booted_inv)
    (fun k op _ inv h hs => Kernel.step_inv inv (hok k op h) hs) hr

theorem Kernel.Reachable.usable {ok : Kernel → PagingOp → Prop} {k : Kernel}
    (hr : Kernel.Reachable ok k) : k.Usable :=
  Reach.inv (I := Kernel.Usable) (fun _ h => ⟨_, _, true, booted_empty h⟩)
    (fun _ _ _ inv _ hs => Kernel.step_usable inv hs) hr

/-! ## Mapping one page -/

/-- **Mapping one user page changes exactly that page's translation.** In every
run that does not run out of memory, a further `add_trans_user` makes its page
translate to the physical page as far as `prot` allows, and leaves every other
translation as it was. It fails to return only where the unused area of the heap
is too small for its three tables. -/
theorem addTransUser_translate (k : Kernel) (hr : Kernel.Reachable MemoryLasts k)
    (v p paddr prot : Nat) (hv : userMemRangeOk v = true) (hp : p % 0x1000 = 0)
    (hlt : p < 0x40000000) (hform : paddr = p ∨ paddr = kernelBaseOffset + p) :
    (∃ h', addTransUser k.heap v paddr prot = .ok h' ∧
      ∀ a, a < 2 ^ 48 → ∀ u w,
        (a / 0x1000 = v / 0x1000 →
          translate h'.mem a u w =
            if (u = true → hasFlag prot protR = true) ∧
              (w = true → hasFlag prot protW = true) then
              p + a % 0x1000 else minusOne) ∧
        (a / 0x1000 ≠ v / 0x1000 → translate h'.mem a u w = translate k.heap.mem a u w)) ∨
    addTransUser k.heap v paddr prot = .error (.panic .physicalNonKernel) ∧
      k.heap.arena.topSize < 0x61b0 := by
  obtain ⟨blocks, leaf, inv⟩ := hr.inv fun _ _ => MemoryLasts.large
  rcases addTransUser_spec inv hv paddr prot with ⟨h', hok, inv', -⟩ | hpanic
  · refine .inl ⟨h', hok, fun a ha u w => ⟨fun hpage => ?_, fun hpage => ?_⟩⟩
    · have hvout := outside_of_userMemRangeOk hv
      have hout : Outside a := by
        unfold Outside at *
        omega
      rw [translate, inv'.walk_user hout, hpage, Function.update_self,
        leafTranslate_leafWord hp (by omega) hform]
      split <;> rfl
    · rw [translate, translate, inv.walk_congr inv' ha (Function.update_of_ne hpage _ _)]
  · exact .inr hpanic

/-- Right after boot there is memory for the tables: a page mapped for reading is
readable by the user, and not writable. -/
theorem addTransUser_translate_boot :
    ∃ k h', Kernel.Reachable MemoryLasts k ∧
      addTransUser k.heap 0x400000 0x8000300000 protR = .ok h' ∧
      translate h'.mem 0x400123 true false = 0x300123 ∧
      translate h'.mem 0x400123 true true = minusOne := by
  obtain ⟨k, hk, -, -, harena, -⟩ := kernelBoot_spec (m := fun _ => 0) fun _ _ _ => rfl
  have hr : Kernel.Reachable MemoryLasts k := .start ⟨_, fun _ _ _ => rfl, hk⟩
  rcases addTransUser_translate k hr 0x400000 0x300000 0x8000300000 protR (by decide)
    (by decide) (by decide) (.inr rfl) with ⟨h', hok, hall⟩ | ⟨-, hroom⟩
  · have h₁ := (hall 0x400123 (by decide) true false).1 (by decide)
    have h₂ := (hall 0x400123 (by decide) true true).1 (by decide)
    exact ⟨k, h', hr, hok, h₁.trans (if_pos (by decide)), h₂.trans (if_neg (by decide))⟩
  · rw [harena] at hroom
    exact absurd hroom (by decide)

/-! ## The kernel's own mappings -/

/-- The kernel's own mappings: two ranges for the kernel, and nothing of them for
the user. -/
structure KernelMappings (m : Mem) : Prop where
  low : ∀ a, a < 0x200000 → translate m a false true = a
  window : ∀ a, 0x8000000000 ≤ a → a < 0x8040000000 →
    translate m a false true = a - 0x8000000000
  rest : ∀ a, 0x8040000000 ≤ a → a < 0x10000000000 → ∀ u w, translate m a u w = minusOne
  hidden : ∀ a, a < 0x200000 ∨ 0x8000000000 ≤ a ∧ a < 0x10000000000 → ∀ w,
    translate m a true w = minusOne

theorem KernelInv.mappings {h : Heap} {blocks : List Extent} {leaf : Nat → Nat}
    (inv : KernelInv h blocks leaf) : KernelMappings h.mem := by
  -- the second slot, by offset
  have hslot : ∀ a, 0x8000000000 ≤ a → a < 0x10000000000 → ∀ u w, translateWalk h.mem a u w =
      if u = false ∧ a < 0x8040000000 then some (a - 0x8000000000) else none := by
    intro a h₁ h₂ u w
    obtain ⟨b, rfl⟩ : ∃ b, a = 0x8000000000 + b := ⟨a - 0x8000000000, by omega⟩
    rw [inv.walk_window (by omega), Nat.add_sub_cancel_left]
    exact if_congr (and_congr_right fun _ => by omega) rfl rfl
  refine ⟨fun a ha => ?_, fun a h₁ h₂ => ?_, fun a h₁ h₂ u w => ?_, fun a ha w => ?_⟩
  · rw [translate, inv.walk_low ha, if_neg Bool.false_ne_true, Option.getD_some]
  · rw [translate, hslot a h₁ (by omega), if_pos ⟨rfl, h₂⟩, Option.getD_some]
  · rw [translate, hslot a (by omega) h₂, if_neg (fun h => Nat.not_lt.mpr h₁ h.2),
      Option.getD_none]
  · rcases ha with ha | ⟨h₁, h₂⟩
    · rw [translate, inv.walk_low ha, if_pos rfl, Option.getD_none]
    · rw [translate, hslot a h₁ h₂, if_neg (fun h => Bool.noConfusion h.1), Option.getD_none]

/-- No call of the kernel comes upon one of the kernel's own entries. -/
theorem Kernel.step_ne_addTransInvalid {k : Kernel} (inv : k.Inv) (op : PagingOp) :
    k.step op ≠ .error (.panic .addTransInvalid) := by
  obtain ⟨blocks, leaf, inv⟩ := inv
  cases op with
  | addTransUser vaddr paddr prot =>
    by_cases hv : userMemRangeOk vaddr = true
    · rcases addTransUser_spec inv hv paddr prot with ⟨h', heq, -⟩ | ⟨heq, -⟩ <;>
        · rw [Kernel.step, heq]
          rintro ⟨⟩
    · rw [Kernel.step, addTransUser, (Bool.not_eq_true _).mp hv]
      rintro ⟨⟩
  | mmap addr len prot =>
    by_cases hlen : len = 0 ∨ len % 0x1000 ≠ 0
    · rw [Kernel.step, mmap_badLength k addr prot hlen]
      rintro ⟨⟩
    · rcases mmap_spec inv addr prot (show 0 < len by omega) (by omega) with
        ⟨k₁, c, heq, -⟩ | ⟨heq, -⟩ | ⟨heq, -⟩ | ⟨-, heq⟩ | ⟨-, -, h', heq, -⟩ |
          ⟨-, -, -, heq⟩ <;>
        · rw [Kernel.step, heq]
          rintro ⟨⟩
  | mprotect addr len prot => rintro ⟨⟩

/-- **The kernel's own mappings are kept and hidden** in every state of every run in
which no `mmap` of more than `MAX_KERNEL_SIZE` bytes fails for want of memory; and
`add_trans_user` never comes upon one of the kernel's entries. -/
theorem kernelMappings_kept (k : Kernel) (hr : Kernel.Reachable LargeLasts k) :
    KernelMappings k.heap.mem ∧ ∀ op, k.step op ≠ .error (.panic .addTransInvalid) := by
  have inv := hr.inv fun _ _ => id
  obtain ⟨blocks, leaf, hinv⟩ := inv
  exact ⟨hinv.mappings, Kernel.step_ne_addTransInvalid ⟨blocks, leaf, hinv⟩⟩

/-- A page of the user, on a kernel that has just booted. -/
theorem booted_mmap (prot : Nat) :
    ∃ k k' c, Booted k ∧ RoomOnPage k.heap (chunkSize 0x1000) ∧
      mmap k 0x400000 0x1000 prot = .ok (k', 0x400000) ∧
      Mapped k k' [] (fun _ => 0) 0x400000 0x1000 prot c ∧
        0x1f7000 ≤ k'.heap.arena.topSize := by
  obtain ⟨k, hk, inv, -, harena, -⟩ := kernelBoot_spec (m := fun _ => 0) fun _ _ _ => rfl
  have hroom : RoomOnPage k.heap (chunkSize 0x1000) := by
    rw [RoomOnPage, harena]
    decide
  rcases mmap_spec inv 0x400000 prot (show 0 < 0x1000 by decide) (by decide) with
    ⟨k', c, hok, hm⟩ | ⟨-, hnot⟩ | ⟨-, hshort⟩ | ⟨hbig, -⟩ | ⟨-, hfull, -⟩ | ⟨hgt, -⟩
  · refine ⟨k, k', c, ⟨_, fun _ _ _ => rfl, hk⟩, hroom, hok, hm, ?_⟩
    have hleft := hm.room
    rw [harena] at hleft
    dsimp only at hleft
    omega
  · refine absurd (fun j hj => ?_) hnot
    obtain rfl : j = 0 := by omega
    show userMemRangeOk 0x400000 = true
    decide
  · rw [harena] at hshort
    dsimp only at hshort
    omega
  · omega
  · exact absurd hroom hfull
  · omega

/-- The state behind boot, a page for the user and a change of its permissions. -/
theorem kernelMappings_kept_mmap :
    ∃ k k₁ k₂, Booted k ∧ k.step (.mmap 0x400000 0x1000 protRW) = .ok k₁ ∧
      k₁.step (.mprotect 0x400000 0x1000 protR) = .ok k₂ ∧
      KernelMappings k₂.heap.mem ∧ ∀ op, k₂.step op ≠ .error (.panic .addTransInvalid) := by
  obtain ⟨k, k₁, c, hboot, hroom, hok, -, -⟩ := booted_mmap protRW
  have hmmap : k.step (.mmap 0x400000 0x1000 protRW) = .ok k₁ := by
    rw [Kernel.step, hok]
    rfl
  have hlasts : MemoryLasts k (.mmap 0x400000 0x1000 protRW) := fun _ => hroom
  have hr : Kernel.Reachable LargeLasts k₁ := .step (.start hboot) hlasts.large hmmap
  have hop : LargeLasts k₁ (.mprotect 0x400000 0x1000 protR) := trivial
  exact ⟨k, k₁, _, hboot, hmmap, rfl, kernelMappings_kept _ (.step hr hop rfl)⟩

/-- **They can be lost**: the heap of a kernel that has just booted has no room for
a block of 2 MB. `kmalloc` clears that many bytes at the null pointer all the
same, the static tables among them, and `mmap` returns to its caller. -/
theorem kernelMappings_lost :
    ∃ k k', Booted k ∧ k.step (.mmap 0x400000 0x200000 protRW) = .ok k' ∧
      translate k'.heap.mem 0 false true = minusOne := by
  obtain ⟨k, hk, inv, -, harena, -⟩ := kernelBoot_spec (m := fun _ => 0) fun _ _ _ => rfl
  have hboot : Booted k := ⟨_, fun _ _ _ => rfl, hk⟩
  obtain ⟨tabs, rep⟩ := inv.rep
  rcases rep.kmalloc 0x200000 (.inr rfl) with ⟨h', c, hok, hs⟩ | ⟨hbig, -⟩ |
    ⟨-, h', hok, hd⟩ | ⟨hgt, -⟩
  · -- a block that large does not fit the arena
    have hb := hs.rep.inv.bounds (e := c) List.mem_cons_self
    have hf := hs.fits
    unfold Extent.fin at hb
    omega
  · omega
  · refine ⟨k, { k with heap := h' }, hboot, ?_, ?_⟩
    · rw [Kernel.step, mmap, if_neg (by decide), hok]
      rfl
    · show translate h'.mem 0 false true = minusOne
      rw [translate, hd.walk_zero (by decide) (by rw [harena])]
      rfl
  · omega

end BpfExamples.Kvm
