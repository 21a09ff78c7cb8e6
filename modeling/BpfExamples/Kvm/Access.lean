import BpfExamples.Kvm.UserStrings

/-!
# What `access_ok` decides (`kernel/mm/uaccess.c`)

`access_ok` looks at the two ends of a buffer and at its pages. For any page tables
`accessOk_iff` says what passes: the buffers that are the user's in every byte
(`Accessible`), the ones whose end has wrapped around below their start (`WrapsAround`), and the
ones that enclose the kernel's slot, should its pages be open to the user (`CrossesSlot`).
-/

namespace BpfExamples.Kvm

open Mem

variable {m : Mem} {type : Bool} {addr size : Nat}

/-- `v` translates in user mode, for writing if that is asked for. -/
def UserMapped (m : Mem) (type : Bool) (v : Nat) : Prop :=
  ∃ p, translateWalk m v true type = some p

/-- All bytes of the buffer lie in the user range and translate. -/
def Accessible (m : Mem) (type : Bool) (addr size : Nat) : Prop :=
  addr + size ≤ 2 ^ 48 ∧ ∀ j, j < size → userMemRangeOk (addr + j) = true ∧
    UserMapped m type (addr + j)

/-- The end of the buffer has wrapped, and lies in the user range like its start. The loop looks
at one page if the two share it, else at none. -/
def WrapsAround (m : Mem) (type : Bool) (addr size : Nat) : Prop :=
  2 ^ 64 < addr + size ∧ userMemRangeOk addr = true ∧
    userMemRangeOk (addr + size - 1 - 2 ^ 64) = true ∧
    (aligndown addr < addr + size - 2 ^ 64 → UserMapped m type addr)

/-- The buffer starts below the kernel's slot and ends above it, and all of it translates. -/
def CrossesSlot (m : Mem) (type : Bool) (addr size : Nat) : Prop :=
  0x200000 ≤ addr ∧ addr < 2 ^ 39 ∧ 2 ^ 40 < addr + size ∧ addr + size ≤ 2 ^ 48 ∧
    ∀ j, j < size → UserMapped m type (addr + j)

/-! ## Pages -/

theorem userMapped_page {v : Nat} : UserMapped m type v ↔ UserMapped m type (aligndown v) := by
  unfold UserMapped
  rw [translateWalk_page m v]
  cases translateWalk m (aligndown v) true type <;> simp

/-- The loop of `access_ok` looks at every page from `v` on. -/
theorem accessPages_iff (n : Nat) : ∀ {v : Nat}, v % 0x1000 = 0 →
    (accessPages m type n v = true ↔ ∀ k, k < n → UserMapped m type (v + 0x1000 * k)) := by
  induction n with
  | zero => simp [accessPages]
  | succ n ih =>
    intro v hv
    have hpage : aligndown v = v := by simp [aligndown, hv]
    have hfirst := translate_page_ne (m := m) (u := true) (w := type) (v := v)
    rw [hpage] at hfirst
    have hshift : ∀ k, v + 0x1000 + 0x1000 * k = v + 0x1000 * (k + 1) := fun k => by omega
    rw [accessPages, Bool.and_eq_true, bne_iff_ne, hfirst, ih (by omega)]
    constructor
    · rintro ⟨h₀, hrest⟩ k hk
      cases k with
      | zero => exact h₀
      | succ k => exact hshift k ▸ hrest k (Nat.lt_of_succ_lt_succ hk)
    · intro h
      exact ⟨h 0 (Nat.succ_pos n), fun k hk => (hshift k).symm ▸ h (k + 1)
        (Nat.succ_lt_succ hk)⟩

/-- The pages of a buffer translate just when its bytes do. -/
theorem pages_iff_bytes (hsize : 1 ≤ size) (hle : addr + size ≤ 2 ^ 48) :
    (∀ k, k < (alignup (addr + size) - aligndown addr) / 0x1000 →
      UserMapped m type (aligndown addr + 0x1000 * k)) ↔
      ∀ j, j < size → UserMapped m type (addr + j) := by
  have hup : addr + size ≤ alignup (addr + size) ∧
      alignup (addr + size) < addr + size + 0x1000 ∧ alignup (addr + size) % 0x1000 = 0 := by
    rw [alignup_eq (by omega)]
    omega
  have hdown := aligndown_eq addr
  constructor
  · intro h j hj
    -- the page of the byte, counted from the first
    obtain ⟨k, hk⟩ : ∃ k, (addr + j) / 0x1000 = addr / 0x1000 + k :=
      ⟨(addr + j) / 0x1000 - addr / 0x1000, by omega⟩
    have hpage : aligndown (addr + j) = aligndown addr + 0x1000 * k := by
      rw [hdown, aligndown_eq]
      omega
    rw [userMapped_page, hpage]
    exact h k (by omega)
  · intro h k hk
    -- a byte of the page: its first, or the start of the buffer
    obtain ⟨j, hj, hpage⟩ : ∃ j, j < size ∧
      aligndown (addr + j) = aligndown addr + 0x1000 * k := by
      refine ⟨aligndown addr + 0x1000 * k - addr, by omega, ?_⟩
      rw [hdown, aligndown_eq]
      omega
    rw [← hpage, ← userMapped_page]
    exact h j hj

/-! ## The two ways past the check -/

theorem WrapsAround.not_accessible (h : WrapsAround m type addr size) :
    ¬ Accessible m type addr size :=
  fun hacc => by
  have h₁ := h.1
  have h₂ := hacc.1
  omega

theorem CrossesSlot.not_accessible (h : CrossesSlot m type addr size) :
    ¬ Accessible m type addr size :=
  fun hacc => by
  obtain ⟨-, hlow, hhigh, -⟩ := h
  obtain ⟨j, hj⟩ : ∃ j, addr + j = 2 ^ 39 := ⟨2 ^ 39 - addr, by omega⟩
  have hok := (hacc.2 j (by omega)).1
  rw [hj] at hok
  exact absurd hok (by decide)

/-- A buffer below `2^48`: both ends are looked at, and every page. -/
theorem accessOk_straight (hsize : 1 ≤ size) (hle : addr + size ≤ 2 ^ 48) :
    accessOk m type addr size = true ↔ userMemRangeOk addr = true ∧
      userMemRangeOk (addr + size - 1) = true ∧
      ∀ j, j < size → UserMapped m type (addr + j) := by
  have hlast : (addr + size + (2 ^ 64 - 1)) % 2 ^ 64 = addr + size - 1 := by omega
  have hend : (addr + size) % 2 ^ 64 = addr + size := Nat.mod_eq_of_lt (by omega)
  rw [accessOk, Bool.and_eq_true, Bool.and_eq_true, hlast, hend,
    accessPages_iff _ (aligndown_mod addr), pages_iff_bytes hsize hle, and_assoc]

/-- A buffer whose end wraps. -/
theorem accessOk_wrapped (haddr : addr < 2 ^ 64) (hsize : size < 2 ^ 64)
    (hwrap : 2 ^ 64 < addr + size) :
    accessOk m type addr size = true ↔ WrapsAround m type addr size := by
  have hlast : (addr + size + (2 ^ 64 - 1)) % 2 ^ 64 = addr + size - 1 - 2 ^ 64 := by omega
  have hend : (addr + size) % 2 ^ 64 = addr + size - 2 ^ 64 := by omega
  rw [accessOk, Bool.and_eq_true, Bool.and_eq_true, hlast,
    hend, accessPages_iff _ (aligndown_mod addr), WrapsAround, and_iff_right hwrap, and_assoc,
    userMapped_page (v := addr)]
  refine and_congr_right fun hstart => and_congr_right' ?_
  have hrange := userMemRangeOk_iff.mp hstart
  -- the loop ends where it starts, or one page later
  have hturns : (alignup (addr + size - 2 ^ 64) - aligndown addr) / 0x1000 =
      if aligndown addr < addr + size - 2 ^ 64 then 1 else 0 := by
    rw [alignup_eq (by omega), aligndown_eq]
    split <;> omega
  rw [hturns]
  constructor
  · intro h hshared
    exact h 0 (by rw [if_pos hshared]; exact Nat.one_pos)
  · intro h k hk
    split at hk
    · next hshared =>
      obtain rfl : k = 0 := Nat.lt_one_iff.mp hk
      exact h hshared
    · exact absurd hk (Nat.not_lt_zero k)

/-- **What `access_ok` lets pass.** -/
theorem accessOk_iff (haddr : addr < 2 ^ 64) (h₁ : 1 ≤ size) (hsize : size < 2 ^ 64) :
    accessOk m type addr size = true ↔
      Accessible m type addr size ∨ WrapsAround m type addr size ∨
        CrossesSlot m type addr size := by
  by_cases hwrap : 2 ^ 64 < addr + size
  · rw [accessOk_wrapped haddr hsize hwrap]
    refine ⟨fun h => .inr (.inl h), ?_⟩
    rintro (hacc | h | hcross)
    · have := hacc.1
      omega
    · exact h
    · have := hcross.2.2.2.1
      omega
  have hnot : ¬ WrapsAround m type addr size := fun h => hwrap h.1
  rw [or_iff_right (a := WrapsAround m type addr size) hnot]
  by_cases hle : addr + size ≤ 2 ^ 48
  · rw [accessOk_straight h₁ hle, userMemRangeOk_iff, userMemRangeOk_iff]
    constructor
    · rintro ⟨hstart, hend, hmapped⟩
      by_cases hcross : addr < 2 ^ 39 ∧ 2 ^ 40 < addr + size
      · exact .inr ⟨hstart.1, hcross.1, hcross.2, hle, hmapped⟩
      · refine .inl ⟨hle, fun j hj => ⟨userMemRangeOk_iff.mpr ?_, hmapped j hj⟩⟩
        exact ⟨by omega, by omega, by omega⟩
    · rintro (⟨-, hbytes⟩ | ⟨hlow, hslot, hhigh, -, hmapped⟩)
      · have hstart := userMemRangeOk_iff.mp (hbytes 0 h₁).1
        have hend := userMemRangeOk_iff.mp (hbytes (size - 1) (by omega)).1
        rw [← Nat.add_sub_assoc h₁] at hend
        exact ⟨hstart, hend, fun j hj => (hbytes j hj).2⟩
      · exact ⟨⟨hlow, by omega, by omega⟩, ⟨by omega, by omega, by omega⟩, hmapped⟩
  · -- the last byte is no user address
    have hlast : userMemRangeOk ((addr + size + (2 ^ 64 - 1)) % 2 ^ 64) = false := by
      rw [show (addr + size + (2 ^ 64 - 1)) % 2 ^ 64 = addr + size - 1 by
          omega, ← Bool.not_eq_true, userMemRangeOk_iff]
      omega
    rw [accessOk, hlast, Bool.and_false, Bool.false_and]
    refine iff_of_false Bool.false_ne_true ?_
    rintro (hacc | hcross)
    · exact hle hacc.1
    · exact hle hcross.2.2.2.1

/-- **`access_ok` is exact** for the buffers that neither wrap around into the user range nor
enclose the kernel's slot with all of their pages open to the user, and for no others. -/
theorem accessOk_exact_iff (m : Mem) (type : Bool) (addr size : Nat) (haddr : addr < 2 ^ 64)
    (h₁ : 1 ≤ size) (hsize : size < 2 ^ 64) :
    (accessOk m type addr size = true ↔ Accessible m type addr size) ↔
      ¬ WrapsAround m type addr size ∧ ¬ CrossesSlot m type addr size := by
  rw [accessOk_iff haddr h₁ hsize]
  constructor
  · intro h
    exact ⟨fun hw => hw.not_accessible (h.mp (.inr (.inl hw))),
      fun hc => hc.not_accessible (h.mp (.inr (.inr hc)))⟩
  · rintro ⟨hw, hc⟩
    rw [or_iff_left]
    rintro (h | h)
    · exact hw h
    · exact hc h

/-- Tables that open the two pages from `0x400000` on to the user. -/
def twoPages : Mem :=
  let m := store64 (fun _ => 0) (slot pml4Addr 0x400000 39) 0x1007
  let m := store64 m (slot (tableOf 0x1007) 0x400000 30) 0x2007
  let m := store64 m (slot (tableOf 0x2007) 0x400000 21) 0x3007
  let m := store64 m (slot (tableOf 0x3007) 0x400000 12) 0x204007
  store64 m (slot (tableOf 0x3007) 0x401000 12) 0x205007

/-- A buffer on the two pages passes, since all of it is the user's, and one that leaves them
does not. -/
theorem accessOk_exact_pages :
    Accessible twoPages true 0x400ff0 0x20 ∧ accessOk twoPages true 0x400ff0 0x1020 = false ∧
      ¬ Accessible twoPages true 0x400ff0 0x1020 := by
  have hw : ∀ size, size < 2 ^ 32 → ¬ WrapsAround twoPages true 0x400ff0 size := by
    intro size hsize h
    have := h.1
    omega
  have hc : ∀ size, size < 2 ^ 32 → ¬ CrossesSlot twoPages true 0x400ff0 size := by
    intro size hsize h
    have := h.2.2.1
    omega
  have hin := (accessOk_exact_iff twoPages true 0x400ff0 0x20 (by decide) (by decide)
    (by decide)).mpr ⟨hw _ (by decide), hc _ (by decide)⟩
  have hout := (accessOk_exact_iff twoPages true 0x400ff0 0x1020 (by decide) (by decide)
    (by decide)).mpr ⟨hw _ (by decide), hc _ (by decide)⟩
  have hyes : accessOk twoPages true 0x400ff0 0x20 = true := by decide +kernel
  have hno : accessOk twoPages true 0x400ff0 0x1020 = false := by decide +kernel
  refine ⟨hin.mp hyes, hno, fun hacc => ?_⟩
  rw [hout.mpr hacc] at hno
  cases hno

/-- **A buffer of nearly `2^64` bytes passes** with nothing mapped: its end wraps to `0x300000`,
and the loop makes no turn. -/
theorem accessOk_wraps_around :
    accessOk (fun _ => 0) false 0x400000 (2 ^ 64 - 0x100000) = true ∧
      ¬ Accessible (fun _ => 0) false 0x400000 (2 ^ 64 - 0x100000) := by
  have hw : WrapsAround (fun _ => 0) false 0x400000 (2 ^ 64 - 0x100000) :=
    ⟨by decide, by decide, by decide, fun h => absurd h (by decide)⟩
  exact ⟨(accessOk_iff (by decide) (by decide) (by decide)).mpr (.inr (.inl hw)),
    hw.not_accessible⟩

end BpfExamples.Kvm
