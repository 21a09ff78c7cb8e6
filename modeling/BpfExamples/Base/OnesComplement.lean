import Mathlib.Algebra.Ring.Int.Defs
import Mathlib.Algebra.Ring.Nat
import Mathlib.Tactic.Common

/-!
# Ones'-complement sums

The sum of 16-bit words in which a carry out of the top comes back in at the bottom, as the
Internet checksum uses it. Up to multiples of `0xffff` it is the ordinary sum (`onesSum_mod`);
of the two words for zero it is `0` only if all words are `0` (`onesSum_eq_zero`). A checksum is
valid if the sum is `0xffff`, and `onesSum_eq_ffff_iff` says what that means for the ordinary
sum.

Bytes are summed two at a time (`netWords`). A byte counts by its place in the word
(`wordSum_netWords_set`).
-/

namespace BpfExamples

/-- Addition with the carry brought around. -/
def onesAdd (x y : Nat) : Nat := if x + y < 0x10000 then x + y else x + y - 0xffff

/-- The ones'-complement sum. -/
def onesSum : List UInt16 → Nat
  | [] => 0
  | x :: l => onesAdd x.toNat (onesSum l)

/-- The ordinary sum. -/
def wordSum (l : List UInt16) : Nat := (l.map UInt16.toNat).sum

@[simp] theorem wordSum_nil : wordSum [] = 0 := rfl

@[simp] theorem wordSum_cons (x : UInt16) (l : List UInt16) :
    wordSum (x :: l) = x.toNat + wordSum l := by
  rw [wordSum, List.map_cons, List.sum_cons, wordSum]

@[simp] theorem wordSum_append (l l' : List UInt16) :
    wordSum (l ++ l') = wordSum l + wordSum l' := by
  rw [wordSum, List.map_append, List.sum_append, wordSum, wordSum]

theorem onesSum_le (l : List UInt16) : onesSum l ≤ 0xffff := by
  induction l with
  | nil => exact Nat.zero_le _
  | cons x l ih =>
    have hx := x.toNat_lt
    rw [onesSum, onesAdd]
    split <;> omega

theorem onesSum_mod (l : List UInt16) : onesSum l % 0xffff = wordSum l % 0xffff := by
  induction l with
  | nil => rfl
  | cons x l ih =>
    rw [onesSum, onesAdd, wordSum_cons]
    split <;> omega

theorem onesSum_eq_zero (l : List UInt16) : onesSum l = 0 ↔ ∀ x ∈ l, x = 0 := by
  induction l with
  | nil => exact ⟨fun _ _ h => absurd h List.not_mem_nil, fun _ => rfl⟩
  | cons x l ih =>
    have hzero : x = 0 ↔ x.toNat = 0 := ⟨fun h => h ▸ rfl, fun h => UInt16.toNat.inj h⟩
    rw [onesSum, onesAdd, List.forall_mem_cons, ← ih, hzero]
    split <;> omega

/-- **A sum is `0xffff`** if the words are not all zero and their ordinary sum is a multiple
of `0xffff`. -/
theorem onesSum_eq_ffff_iff (l : List UInt16) :
    onesSum l = 0xffff ↔ wordSum l % 0xffff = 0 ∧ ∃ x ∈ l, x ≠ 0 := by
  have hle := onesSum_le l
  have hmod := onesSum_mod l
  have hzero : (∃ x ∈ l, x ≠ 0) ↔ onesSum l ≠ 0 := by
    rw [ne_eq, onesSum_eq_zero]
    push Not
    rfl
  rw [hzero]
  omega

/-! ## Words of bytes -/

/-- The words of a stream of bytes in network order, with a zero behind an odd one. -/
def netWords : List UInt8 → List UInt16
  | [] => []
  | [x] => [UInt16.ofNat (256 * x.toNat)]
  | x :: y :: l => UInt16.ofNat (256 * x.toNat + y.toNat) :: netWords l

/-- What the `i`th byte counts in the sum. -/
def byteWeight (i : Nat) : Nat := if i % 2 = 0 then 256 else 1

@[simp] theorem byteWeight_zero : byteWeight 0 = 256 := rfl

@[simp] theorem byteWeight_one : byteWeight 1 = 1 := rfl

@[simp] theorem byteWeight_add_two (i : Nat) : byteWeight (i + 2) = byteWeight i := by
  rw [byteWeight, Nat.add_mod_right, byteWeight]

theorem toNat_netWord (x y : UInt8) :
    (UInt16.ofNat (256 * x.toNat + y.toNat)).toNat = 256 * x.toNat + y.toNat := by
  have hx := x.toNat_lt
  have hy := y.toNat_lt
  rw [UInt16.toNat_ofNat']
  omega

/-- **A new byte** takes the weight of the old one. -/
theorem wordSum_netWords_set (b : UInt8) : ∀ (l : List UInt8) (i : Nat), i < l.length →
    wordSum (netWords (l.set i b)) + byteWeight i * (l.getD i 0).toNat =
      wordSum (netWords l) + byteWeight i * b.toNat
  | [x], 0, _ => by
    have hx : (UInt16.ofNat (256 * x.toNat)).toNat = 256 * x.toNat := toNat_netWord x 0
    have hb : (UInt16.ofNat (256 * b.toNat)).toNat = 256 * b.toNat := toNat_netWord b 0
    simp only [List.set_cons_zero, netWords, wordSum_cons, hx, hb, List.getD_cons_zero,
      byteWeight_zero]
    omega
  | x :: y :: l, 0, _ => by
    simp only [List.set_cons_zero, netWords, wordSum_cons, toNat_netWord, List.getD_cons_zero,
      byteWeight_zero]
    omega
  | x :: y :: l, 1, _ => by
    simp only [List.set_cons_succ, List.set_cons_zero, netWords, wordSum_cons, toNat_netWord,
      List.getD_cons_succ, List.getD_cons_zero, byteWeight_one]
    omega
  | x :: y :: l, i + 2, h => by
    have hrest := wordSum_netWords_set b l i (Nat.lt_of_succ_lt_succ (Nat.lt_of_succ_lt_succ h))
    simp only [List.set_cons_succ, netWords, wordSum_cons, List.getD_cons_succ,
      byteWeight_add_two]
    omega

end BpfExamples
