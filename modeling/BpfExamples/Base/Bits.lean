import Mathlib.Algebra.Ring.Int.Defs
import Mathlib.Algebra.Ring.Nat
import Mathlib.Data.Nat.Bitwise

/-!
# Single bits of a number

Setting, clearing and testing one bit, read as arithmetic: the bit of `x` at
weight `2 ^ k` is `x / 2 ^ k % 2`, and setting or clearing it adds or takes away
`2 ^ k`. With these a fixed mask turns into divisions and remainders by
constants.
-/

namespace BpfExamples.Bits

/-- Testing a bit. -/
theorem and_two_pow_ne_zero {x k : Nat} : (x &&& 2 ^ k != 0) = decide (x / 2 ^ k % 2 = 1) := by
  have hpos : 2 ^ k ≠ 0 := (Nat.two_pow_pos k).ne'
  rw [Nat.and_two_pow, Nat.testBit_eq_decide_div_mod_eq]
  by_cases h : x / 2 ^ k % 2 = 1
  · simp [h]
  · simp [h]

/-- Values that use only low bits and multiples of the next power do not meet. -/
theorem or_low {x f i : Nat} (hf : f < 2 ^ i) (hx : x % 2 ^ i = 0) : f ||| x = x + f := by
  have hmul : 2 ^ i * (x / 2 ^ i) = x := Nat.mul_div_cancel' (Nat.dvd_of_mod_eq_zero hx)
  have h := Nat.two_pow_add_eq_or_of_lt hf (x / 2 ^ i)
  rw [hmul] at h
  rw [Nat.or_comm, h]

/-- A number is its half and its last bit. -/
theorem eq_of_halves {x y : Nat} (hdiv : x / 2 = y / 2) (hmod : x % 2 = y % 2) : x = y := by
  omega

/-- The bit at weight `2 ^ (k + 1)` is the bit of the half at weight `2 ^ k`. -/
theorem half_bit (x k : Nat) : x / 2 / 2 ^ k % 2 = x / 2 ^ (k + 1) % 2 := by
  rw [Nat.div_div_eq_div_mul, Nat.pow_succ, Nat.mul_comm]

/-- Flipping a bit that is clear adds its weight. -/
theorem xor_two_pow_of_clear :
    ∀ {k x : Nat}, x / 2 ^ k % 2 = 0 → x ^^^ 2 ^ k = x + 2 ^ k
  | 0, x, h => by
    have hx : x % 2 = 0 := by simpa using h
    refine eq_of_halves ?_ ?_
    · rw [Nat.xor_div_two]
      simp
      omega
    · have := Nat.xor_mod_two_eq_one (a := x) (b := 1)
      simp only [Nat.pow_zero]
      omega
  | k + 1, x, h => by
    have ih := xor_two_pow_of_clear (k := k) (x := x / 2) (by rw [half_bit]; exact h)
    have hhalf : 2 ^ (k + 1) / 2 = 2 ^ k := by rw [Nat.pow_succ]; omega
    have hmod := Nat.xor_mod_two_eq_one (a := x) (b := 2 ^ (k + 1))
    have hpow : 2 ^ (k + 1) % 2 = 0 := by rw [Nat.pow_succ]; omega
    refine eq_of_halves ?_ ?_
    · rw [Nat.xor_div_two, hhalf, ih]
      rw [Nat.pow_succ] at *
      omega
    · omega

/-- Flipping a bit that is set takes its weight away. -/
theorem xor_two_pow_of_set {k x : Nat} (h : x / 2 ^ k % 2 = 1) : x ^^^ 2 ^ k = x - 2 ^ k := by
  have hle : 2 ^ k ≤ x := by
    by_contra hlt
    rw [Nat.div_eq_of_lt (Nat.lt_of_not_le hlt)] at h
    cases h
  have hclear : (x - 2 ^ k) / 2 ^ k % 2 = 0 := by
    rw [Nat.div_eq_sub_div (Nat.two_pow_pos k) hle] at h
    omega
  calc x ^^^ 2 ^ k = (x - 2 ^ k + 2 ^ k) ^^^ 2 ^ k := by rw [Nat.sub_add_cancel hle]
    _ = ((x - 2 ^ k) ^^^ 2 ^ k) ^^^ 2 ^ k := by rw [xor_two_pow_of_clear hclear]
    _ = x - 2 ^ k := by rw [Nat.xor_assoc, Nat.xor_self, Nat.xor_zero]

theorem testBit_of_clear {k x : Nat} (h : x / 2 ^ k % 2 = 0) : x.testBit k = false := by
  rw [Nat.testBit_eq_decide_div_mod_eq, h]
  rfl

theorem testBit_of_set {k x : Nat} (h : x / 2 ^ k % 2 = 1) : x.testBit k = true := by
  rw [Nat.testBit_eq_decide_div_mod_eq, h]
  rfl

/-- Setting a bit that is clear adds its weight. -/
theorem or_two_pow_of_clear {k x : Nat} (h : x / 2 ^ k % 2 = 0) : x ||| 2 ^ k = x + 2 ^ k := by
  rw [← xor_two_pow_of_clear h]
  refine Nat.eq_of_testBit_eq fun i => ?_
  rw [Nat.testBit_or, Nat.testBit_xor, Nat.testBit_two_pow]
  by_cases hi : k = i
  · subst hi
    simp [testBit_of_clear h]
  · simp [hi]

/-- Setting a bit that is set changes nothing. -/
theorem or_two_pow_of_set {k x : Nat} (h : x / 2 ^ k % 2 = 1) : x ||| 2 ^ k = x := by
  refine Nat.eq_of_testBit_eq fun i => ?_
  rw [Nat.testBit_or, Nat.testBit_two_pow]
  by_cases hi : k = i
  · subst hi
    simp [testBit_of_set h]
  · simp [hi]

/-- `&= ~bit` on an `n`-bit value clears a bit that is set. -/
theorem andNot_two_pow_of_set {n k x : Nat} (hx : x < 2 ^ n) (h : x / 2 ^ k % 2 = 1) :
    x &&& ((2 ^ n - 1) ^^^ 2 ^ k) = x - 2 ^ k := by
  rw [← xor_two_pow_of_set h]
  refine Nat.eq_of_testBit_eq fun i => ?_
  rw [Nat.testBit_and, Nat.testBit_xor, Nat.testBit_xor, Nat.testBit_two_pow,
    Nat.testBit_two_pow_sub_one]
  by_cases hi : k = i
  · subst hi
    have hk : k < n := by
      by_contra hn
      have :=
        Nat.testBit_lt_two_pow (hx.trans_le (Nat.pow_le_pow_right (by decide) (not_lt.mp hn)))
      rw [testBit_of_set h] at this
      cases this
    simp [testBit_of_set h, hk]
  · by_cases hn : i < n
    · simp [hi, hn]
    · have :=
        Nat.testBit_lt_two_pow (hx.trans_le (Nat.pow_le_pow_right (by decide) (not_lt.mp hn)))
      simp [hi, this]

/-- `&= ~bit` leaves a value alone whose bit is clear. -/
theorem andNot_two_pow_of_clear {n k x : Nat} (hx : x < 2 ^ n) (h : x / 2 ^ k % 2 = 0) :
    x &&& ((2 ^ n - 1) ^^^ 2 ^ k) = x := by
  refine Nat.eq_of_testBit_eq fun i => ?_
  rw [Nat.testBit_and, Nat.testBit_xor, Nat.testBit_two_pow, Nat.testBit_two_pow_sub_one]
  by_cases hi : k = i
  · subst hi
    simp [testBit_of_clear h]
  · by_cases hn : i < n
    · simp [hi, hn]
    · have :=
        Nat.testBit_lt_two_pow (hx.trans_le (Nat.pow_le_pow_right (by decide) (not_lt.mp hn)))
      simp [this]

end BpfExamples.Bits
