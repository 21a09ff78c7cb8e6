import BpfExamples.Base.Bytes
import BpfExamples.Base.Runs

/-!
# The guest machine under the example kernel

Constants of `kernel/mm/translate.h`, the ways a kernel routine can fail to
return, and the byte loop of `kernel/utils/string.c`.

Memory cells are named by the kernel-window address that reaches them: the
byte at physical address `p` is the cell `kernelBaseOffset + p`
(translate.c:5–7, "Maps 1G"). A `Space` says which cell a kernel-mode access to
a virtual address reaches, and `none` where the access faults. Two spaces are
used:

- `flat`: every address is its own cell;
- `kernelSpace`: the mappings of `setup_paging` and `init_pagetable`. The low
  2 MB are the same bytes as the start of the window, and the rest is not
  kernel memory.

The kernel installs no interrupt table, so a fault ends the guest
(hypervisor.c:198–199).
-/

namespace BpfExamples.Kvm

open Mem

/-- `KERNEL_BASE_OFFSET` (translate.h:25). -/
def kernelBaseOffset : Nat := 0x8000000000

/-- `KERNEL_PAGING_SIZE`, also the size of the low identity mapping. -/
def kernelPagingSize : Nat := 0x200000

/-- The window `init_pagetable` maps is 1 GB. -/
def kernelWindowSize : Nat := 0x40000000

/-- The error numbers the kernel and the hypervisor return (errno.h). -/
def eNOEXEC : Int := 8
@[inherit_doc eNOEXEC] def eBADF : Int := 9
@[inherit_doc eNOEXEC] def eNOMEM : Int := 12
@[inherit_doc eNOEXEC] def eACCES : Int := 13
@[inherit_doc eNOEXEC] def eFAULT : Int := 14
@[inherit_doc eNOEXEC] def eINVAL : Int := 22
@[inherit_doc eNOEXEC] def eNFILE : Int := 23

/-! ## How a routine can end without returning -/

/-- The panics of the kernel. -/
inductive Panic
  | initAllocatorLength
  | sortedBinSize
  | kmallocAlignment
  | alignmentRequest
  | kfreeSize
  | addTransNotAllowed
  | addTransInvalid
  | physicalNonKernel
  | mmapLength
deriving DecidableEq, Repr

/-- The text each panic hands to the hypervisor. -/
def Panic.text : Panic → String
  | .initAllocatorLength => "kmalloc.c#init_allocator: invalid length"
  | .sortedBinSize => "kmalloc.c: invalid size of sorted bin"
  | .kmallocAlignment => "kmalloc.c#kmalloc: invalid alignment"
  | .alignmentRequest => "kmalloc.c#kmalloc: alignment request failed"
  | .kfreeSize => "kmalloc.c#kfree: invalid size"
  | .addTransNotAllowed => "translate.c#add_trans_user: not allowed"
  | .addTransInvalid => "translate.c#add_trans_user: invalid address"
  | .physicalNonKernel => "translate.c#physical: don't pass non-kernel based address"
  | .mmapLength => "mmap.c: invalid length"

/-- Why a routine did not return: a panic, a page fault, a loop that never
ends, or the hypervisor process giving up while it served a hypercall. `overrun`
stands for a read behind the end of the ELF loader's buffer, which no check of
the machine would catch. -/
inductive Stop
  | panic (p : Panic)
  | fault
  | hang
  | hypervisor
  | overrun
deriving DecidableEq, Repr

/-- A kernel computation. -/
abbrev Exec := Except Stop

/-! ## Address spaces -/

/-- The cell behind a virtual address. -/
abbrev Space := Nat → Option Nat

/-- Every address is its own cell. -/
def flat : Space := some

/-- Kernel-mode addresses under the boot mappings. -/
def kernelSpace : Space := fun v =>
  if v < kernelPagingSize then some (kernelBaseOffset + v)
  else if kernelBaseOffset ≤ v ∧ v < kernelBaseOffset + kernelWindowSize then some v
  else none

theorem kernelSpace_low {v : Nat} (h : v < 0x200000) :
    kernelSpace v = some (0x8000000000 + v) :=
  if_pos h

theorem kernelSpace_window {v : Nat} (h₁ : 0x8000000000 ≤ v) (h₂ : v < 0x8040000000) :
    kernelSpace v = some v := by
  have hlow : ¬ v < kernelPagingSize := by
    unfold kernelPagingSize
    omega
  exact (if_neg hlow).trans (if_pos ⟨h₁, h₂⟩)

theorem kernelSpace_none {v : Nat} (h₁ : 0x200000 ≤ v) (h₂ : v < 0x8000000000) :
    kernelSpace v = none := by
  have hlow : ¬ v < kernelPagingSize := Nat.not_lt.mpr h₁
  have hwin : ¬ (kernelBaseOffset ≤ v ∧ v < kernelBaseOffset + kernelWindowSize) :=
    fun h => absurd h.1 (Nat.not_le.mpr h₂)
  exact (if_neg hlow).trans (if_neg hwin)

/-! ## `memset` (string.c:18–22) -/

/-- The byte stores of `memset`, from index `i`, `n` of them left. -/
def memsetFrom (sp : Space) (b : Nat) (c : UInt8) : Nat → Nat → Mem → Exec Mem
  | 0, _, m => .ok m
  | n + 1, i, m =>
    match sp (b + i) with
    | none => .error .fault
    | some x => memsetFrom sp b c n (i + 1) (Function.update m x c)

/-- `memset(b, c, len)`. The index of the loop is an `int`, which must not overflow: with the
Makefile's flags (`-Os`, no `-fwrapv`) it is counted in 64 bits, like `len`. -/
def memset (sp : Space) (m : Mem) (b : Nat) (c : UInt8) (len : Nat) : Exec Mem :=
  memsetFrom sp b c len 0 m

/-- Where a space is a shift, `memset` fills the shifted range. -/
theorem memsetFrom_shift {sp : Space} {b d : Nat} {c : UInt8} :
    ∀ {n i : Nat} {m : Mem}, (∀ j, i ≤ j → j < i + n → sp (b + j) = some (d + j)) →
      memsetFrom sp b c n i m = .ok (fill m (d + i) n c)
  | 0, i, m, _ => by simp [memsetFrom]
  | n + 1, i, m, h => by
    rw [memsetFrom, h i (Nat.le_refl i) (by omega)]
    simp only
    rw [memsetFrom_shift fun j h₁ h₂ => h j (by omega) (by omega)]
    congr 1
    funext x
    by_cases hx : x = d + i
    · rw [fill_of_notMem (by omega), hx, Function.update_self,
        fill_of_mem (by omega) (by omega)]
    · by_cases hin : d + i ≤ x ∧ x < d + i + (n + 1)
      · rw [fill_of_mem (by omega) (by omega), fill_of_mem (by omega) (by omega)]
      · rw [fill_of_notMem (by omega), Function.update_of_ne hx, fill_of_notMem (by omega)]

theorem memset_shift {sp : Space} {m : Mem} {b d len : Nat} {c : UInt8}
    (h : ∀ j, j < len → sp (b + j) = some (d + j)) :
    memset sp m b c len = .ok (fill m d len c) :=
  memsetFrom_shift fun j _ hj => h j (by omega)

/-- Whatever `memset` reaches, a cell it does not reach keeps its byte. -/
theorem memsetFrom_frame {sp : Space} {b : Nat} {c : UInt8} {x : Nat} :
    ∀ {n i : Nat} {m m' : Mem}, memsetFrom sp b c n i m = .ok m' →
      (∀ j, i ≤ j → j < i + n → sp (b + j) ≠ some x) → m' x = m x
  | 0, _, _, _, h, _ => by
    cases h
    rfl
  | n + 1, i, m, m', h, hx => by
    rw [memsetFrom] at h
    split at h
    · cases h
    · next y hy =>
      have hne : x ≠ y := by
        rintro rfl
        exact hx i (Nat.le_refl i) (by omega) hy
      rw [memsetFrom_frame h fun j h₁ h₂ => hx j (by omega) (by omega),
        Function.update_of_ne hne]

theorem memset_frame {sp : Space} {m m' : Mem} {b len x : Nat} {c : UInt8}
    (h : memset sp m b c len = .ok m')
    (hx : ∀ j, j < len → sp (b + j) ≠ some x) : m' x = m x :=
  memsetFrom_frame h fun j _ hj => hx j (by omega)

/-- An address on the way that reaches no cell faults. -/
theorem memsetFrom_fault {sp : Space} {b : Nat} {c : UInt8} {j : Nat} (hj : sp (b + j) = none) :
    ∀ {n i : Nat} {m : Mem}, i ≤ j → j < i + n → memsetFrom sp b c n i m = .error .fault
  | 0, i, m, h₁, h₂ => by omega
  | n + 1, i, m, h₁, h₂ => by
    rw [memsetFrom]
    split
    · rfl
    · next x hx =>
      have hne : i ≠ j := by
        rintro rfl
        rw [hj] at hx
        cases hx
      exact memsetFrom_fault hj (by omega) (by omega)

/-- Clearing at the null pointer: below 2 MB it goes through, and clears the cells
at the start of the window. -/
theorem memset_null (m : Mem) {len : Nat} (h : len ≤ 0x200000) :
    memset kernelSpace m 0 0 len = .ok (fill m 0x8000000000 len 0) :=
  memset_shift fun j hj => by
    rw [Nat.zero_add]
    exact kernelSpace_low (by omega)

/-- Past 2 MB it runs into an address that is not mapped. -/
theorem memset_null_fault (m : Mem) {len : Nat} (h : 0x200000 < len) :
    memset kernelSpace m 0 0 len = .error .fault := by
  refine memsetFrom_fault (j := 0x200000) ?_ (Nat.zero_le _) ?_
  · exact kernelSpace_none (by decide) (by decide)
  · omega

end BpfExamples.Kvm
