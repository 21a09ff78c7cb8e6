import BpfExamples.Base.Bits
import BpfExamples.Kvm.Translate

/-!
# Page entries as numbers

What the masks and shifts of `translate.c` compute. An entry of a table is the
physical address of a page plus flags below `0x1000`, so every test and update
of it is arithmetic with constants:

- `hasFlag_*`: one flag each;
- `tablePointer_eq`, `leafWord_eq`: the words `add_trans_user` stores;
- `tableOf_add`, `physical_window`: from a physical address to the window and back;
- `userMemRangeOk_iff`: the user range.
-/

namespace BpfExamples.Kvm

open Bits

/-! ## Flags -/

theorem hasFlag_two_pow (x k : Nat) : hasFlag x (2 ^ k) = decide (x / 2 ^ k % 2 = 1) :=
  and_two_pow_ne_zero

theorem hasFlag_present (e : Nat) : hasFlag e pde64Present = decide (e % 2 = 1) := by
  have h := hasFlag_two_pow e 0
  rwa [Nat.pow_zero, Nat.div_one] at h

theorem hasFlag_rw (e : Nat) : hasFlag e pde64RW = decide (e / 2 % 2 = 1) :=
  hasFlag_two_pow e 1

theorem hasFlag_user (e : Nat) : hasFlag e pde64User = decide (e / 4 % 2 = 1) :=
  hasFlag_two_pow e 2

theorem hasFlag_ps (e : Nat) : hasFlag e pde64PS = decide (e / 0x80 % 2 = 1) :=
  hasFlag_two_pow e 7

theorem hasFlag_base (v : Nat) : hasFlag v kernelBaseOffset = decide (v / 2 ^ 39 % 2 = 1) :=
  hasFlag_two_pow v 39

/-! ## Physical and window addresses -/

/-- The window address of a physical one below 512 GB. -/
theorem or_base {p : Nat} (h : p < 2 ^ 39) : p ||| kernelBaseOffset = 0x8000000000 + p := by
  have hclear : p / 2 ^ 39 % 2 = 0 := by rw [Nat.div_eq_of_lt h]
  exact (or_two_pow_of_clear hclear).trans (Nat.add_comm _ _)

theorem xor_base {p : Nat} (h : p < 2 ^ 39) :
    (0x8000000000 + p) ^^^ kernelBaseOffset = p := by
  have hset : (0x8000000000 + p) / 2 ^ 39 % 2 = 1 := by omega
  exact (xor_two_pow_of_set hset).trans (by omega)

theorem physical_window {p : Nat} (h : p < 2 ^ 39) : physical (0x8000000000 + p) = .ok p := by
  have hset : hasFlag (0x8000000000 + p) kernelBaseOffset = true := by
    rw [hasFlag_base]
    exact decide_eq_true (by omega)
  rw [physical, if_pos hset, xor_base h]

/-- `physical` of a null pointer. -/
theorem physical_null : physical 0 = .error (.panic .physicalNonKernel) := rfl

theorem pml4Addr_eq : pml4Addr = 0x80001f7000 := by decide

/-! Rounding to pages. -/

theorem aligndown_eq (v : Nat) : aligndown v = 0x1000 * (v / 0x1000) := by
  unfold aligndown
  omega

theorem aligndown_mod (v : Nat) : aligndown v % 0x1000 = 0 := by
  rw [aligndown_eq, Nat.mul_mod_right]

/-- Where nothing wraps around. -/
theorem alignup_eq {v : Nat} (h : v + 0xfff < 2 ^ 64) :
    alignup v = 0x1000 * ((v + 0xfff) / 0x1000) := by
  unfold alignup aligndown
  split <;> omega

/-- The table behind an entry that holds the page at `p` with flags `f`. -/
theorem tableOf_add {p f : Nat} (hp : p % 0x1000 = 0) (hlt : p < 2 ^ 39) (hf : f < 0x1000) :
    tableOf (p + f) = 0x8000000000 + p := by
  have hdown : aligndown (p + f) = p := by
    rw [aligndown_eq]
    omega
  rw [tableOf, hdown, or_base hlt]

/-- The page behind any entry, as a physical address: the window's bit is dropped. -/
theorem tableOf_xor_base (e : Nat) :
    tableOf e ^^^ kernelBaseOffset = aligndown e - aligndown e / 2 ^ 39 % 2 * 2 ^ 39 := by
  rcases Nat.mod_two_eq_zero_or_one (aligndown e / 2 ^ 39) with hbit | hbit
  · have hor : tableOf e = aligndown e + 2 ^ 39 := or_two_pow_of_clear hbit
    have hset : (aligndown e + 2 ^ 39) / 2 ^ 39 % 2 = 1 := by omega
    have hxor : (aligndown e + 2 ^ 39) ^^^ kernelBaseOffset = aligndown e + 2 ^ 39 - 2 ^ 39 :=
      xor_two_pow_of_set hset
    rw [hor, hxor, hbit]
    omega
  · have hor : tableOf e = aligndown e := or_two_pow_of_set hbit
    have hxor : aligndown e ^^^ kernelBaseOffset = aligndown e - 2 ^ 39 :=
      xor_two_pow_of_set hbit
    rw [hor, hxor, hbit, Nat.one_mul]

/-! ## The words in the tables -/

/-- The word of an entry that points to the next table. -/
theorem tablePointer_eq {p : Nat} (hp : p % 0x1000 = 0) :
    pde64Present ||| pde64RW ||| pde64User ||| p = p + 7 :=
  or_low (i := 12) (by decide) hp

/-- A large page of the kernel. -/
theorem kernelLargePage_eq {p : Nat} (hp : p % 0x200000 = 0) :
    pde64Present ||| pde64RW ||| pde64PS ||| p = p + 0x83 :=
  or_low (i := 21) (by decide) hp

/-- The flags a protection gives a leaf. -/
def protFlags (prot : Nat) : Nat :=
  (if prot % 2 = 1 then 4 else 0) + (if prot / 2 % 2 = 1 then 2 else 0)

theorem protFlags_le (prot : Nat) : protFlags prot ≤ 6 ∧ protFlags prot % 2 = 0 := by
  unfold protFlags
  split <;> split <;> decide

/-- Permission bits go onto a word whose two bits for them are clear. -/
theorem withProt_eq {e prot : Nat} (h₁ : e / 2 % 2 = 0) (h₂ : e / 4 % 2 = 0) :
    withProt e prot = e + protFlags prot := by
  have hr : hasFlag prot protR = decide (prot % 2 = 1) := hasFlag_present prot
  have hw : hasFlag prot protW = decide (prot / 2 % 2 = 1) := hasFlag_rw prot
  have huser : e ||| pde64User = e + 4 := or_two_pow_of_clear (k := 2) h₂
  have hrw : e ||| pde64RW = e + 2 := or_two_pow_of_clear (k := 1) h₁
  have hboth : (e + 4) ||| pde64RW = e + 4 + 2 :=
    or_two_pow_of_clear (k := 1) (show (e + 4) / 2 % 2 = 0 by omega)
  unfold withProt protFlags
  rw [hr, hw]
  by_cases h₃ : prot % 2 = 1 <;> by_cases h₄ : prot / 2 % 2 = 1 <;>
    simp [h₃, h₄, huser, hrw, hboth]

/-- The leaf `add_trans_user` stores for the page at `p`. -/
theorem leafWord_eq {p : Nat} (hp : p % 0x1000 = 0) (prot : Nat) :
    withProt (pde64Present ||| p) prot = p + 1 + protFlags prot := by
  have hone : pde64Present ||| p = p + 1 := or_low (i := 12) (by decide) hp
  rw [hone]
  exact withProt_eq (by omega) (by omega)

theorem dropWindowBit_physical {p : Nat} (h : p < 2 ^ 39) : dropWindowBit p = p :=
  andNot_two_pow_of_clear (n := 64) (k := 39) (by omega) (by omega)

theorem dropWindowBit_window {p : Nat} (h : p < 2 ^ 39) :
    dropWindowBit (0x8000000000 + p) = p := by
  have hset : (0x8000000000 + p) / 2 ^ 39 % 2 = 1 := by omega
  exact (andNot_two_pow_of_set (n := 64) (k := 39) (by omega) hset).trans (by omega)

/-- `modify_permission` clears the two permission bits first. -/
theorem dropProt_eq {e : Nat} (h : e < 2 ^ 64) : dropProt e = e - e % 8 + e % 2 := by
  have hmask : (2 ^ 64 - 1) ^^^ (pde64User ||| pde64RW) =
      ((2 ^ 64 - 1) ^^^ 2 ^ 2) &&& ((2 ^ 64 - 1) ^^^ 2 ^ 1) := by decide
  have huser : e &&& ((2 ^ 64 - 1) ^^^ 2 ^ 2) = e - e / 4 % 2 * 4 := by
    rcases Nat.mod_two_eq_zero_or_one (e / 4) with hb | hb
    · rw [andNot_two_pow_of_clear h hb, hb]
      rfl
    · rw [andNot_two_pow_of_set h hb, hb]
      rfl
  have hlt : e - e / 4 % 2 * 4 < 2 ^ 64 := by omega
  rw [dropProt, hmask, ← Nat.and_assoc, huser]
  rcases Nat.mod_two_eq_zero_or_one ((e - e / 4 % 2 * 4) / 2) with hb | hb
  · rw [andNot_two_pow_of_clear hlt hb]
    omega
  · rw [andNot_two_pow_of_set hlt hb]
    omega

/-- Its effect on a leaf: the page stays, the permissions are the new ones. -/
theorem withProt_dropProt {p prot prot' : Nat} (hp : p % 0x1000 = 0) (hlt : p < 2 ^ 39) :
    withProt (dropProt (p + 1 + protFlags prot)) prot' = p + 1 + protFlags prot' := by
  have hf := protFlags_le prot
  have hdrop : dropProt (p + 1 + protFlags prot) = p + 1 := by
    rw [dropProt_eq (by omega)]
    omega
  rw [hdrop]
  exact withProt_eq (by omega) (by omega)

/-! ## Addresses -/

theorem userMemRangeOk_iff {v : Nat} :
    userMemRangeOk v = true ↔ 0x200000 ≤ v ∧ v < 2 ^ 48 ∧ v / 2 ^ 39 ≠ 1 := by
  simp only [userMemRangeOk, Nat.shiftRight_eq_div_pow, Bool.and_eq_true, decide_eq_true_eq,
    beq_iff_eq, bne_iff_ne, ne_eq]
  omega

theorem offset_eq (v k : Nat) : offset v k = v / 2 ^ k % 512 := by
  rw [offset, Nat.shiftRight_eq_div_pow]

end BpfExamples.Kvm
