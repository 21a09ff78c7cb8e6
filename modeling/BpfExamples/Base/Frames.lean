import Mathlib.Algebra.Ring.Int.Defs
import Mathlib.Algebra.Ring.Nat
import Mathlib.Tactic.Common

/-!
# Network frames

A frame is a list of bytes. Programs read single bytes of it (`byteAt`), fields of its headers
in network order (`wordAt`, `fromBytesBig`) and parts of it (`slice`). A part has the length
that the frame leaves it, and a field of a fixed length determines its bytes
(`fromBytesBig_inj`).
-/

namespace BpfExamples

/-- The bytes of an Ethernet frame. -/
abbrev Frame := List UInt8

/-- The results of an XDP program. -/
inductive XdpAction
  | drop
  | pass
deriving DecidableEq, Repr

/-- A byte of the frame. -/
def byteAt (f : Frame) (i : Nat) : Nat := (f.getD i 0).toNat

/-- A 16-bit field in network order. -/
def wordAt (f : Frame) (i : Nat) : Nat := 256 * byteAt f i + byteAt f (i + 1)

/-- The bytes from index `i` to index `j`, as far as they are there. -/
def slice (f : Frame) (i j : Nat) : List UInt8 := (f.drop i).take (j - i)

/-- A number in network order. -/
def fromBytesBig (l : List UInt8) : Nat := l.foldl (fun n b => n * 256 + b.toNat) 0

variable {f : Frame} {i j n : Nat} {l l' : List UInt8}

theorem byteAt_lt (f : Frame) (i : Nat) : byteAt f i < 256 := UInt8.toNat_lt _

theorem length_slice (f : Frame) (i j : Nat) : (slice f i j).length = min j f.length - i := by
  unfold slice
  rw [List.length_take, List.length_drop]
  omega

theorem slice_length (h : j ≤ f.length) : (slice f i j).length = j - i := by
  rw [length_slice, Nat.min_eq_left h]

theorem slice_take (h : i + n ≤ j) (f : Frame) : (slice f i j).take n = slice f i (i + n) := by
  unfold slice
  rw [List.take_take, Nat.add_sub_cancel_left, Nat.min_eq_left (by omega)]

theorem foldl_bytes_lt : ∀ (l : List UInt8) (n : Nat),
    l.foldl (fun n b => n * 256 + b.toNat) n < (n + 1) * 256 ^ l.length
  | [], n => by simp
  | b :: l, n => by
    have hb : b.toNat < 256 := UInt8.toNat_lt b
    rw [List.foldl_cons, List.length_cons, Nat.pow_succ']
    calc _ < (n * 256 + b.toNat + 1) * 256 ^ l.length := foldl_bytes_lt l _
      _ ≤ (n + 1) * 256 * 256 ^ l.length := Nat.mul_le_mul_right _ (by omega)
      _ = _ := Nat.mul_assoc _ _ _

/-- A number of two bytes. -/
theorem fromBytesBig_slice_lt (f : Frame) (i : Nat) :
    fromBytesBig (slice f i (i + 2)) < 65536 := by
  have hlt := foldl_bytes_lt (slice f i (i + 2)) 0
  have hlen : (slice f i (i + 2)).length ≤ 2 := by
    rw [length_slice]
    omega
  calc fromBytesBig (slice f i (i + 2)) < (0 + 1) * 256 ^ (slice f i (i + 2)).length := hlt
    _ ≤ (0 + 1) * 256 ^ 2 := Nat.mul_le_mul_left _ (Nat.pow_le_pow_right (by decide) hlen)

theorem foldl_bytes_inj : ∀ {l l' : List UInt8} {n n' : Nat}, l.length = l'.length →
    l.foldl (fun n b => n * 256 + b.toNat) n = l'.foldl (fun n b => n * 256 + b.toNat) n' →
      n = n' ∧ l = l'
  | [], [], _, _, _, h => ⟨h, rfl⟩
  | b :: l, b' :: l', n, n', hlen, h => by
    rw [List.foldl_cons, List.foldl_cons] at h
    obtain ⟨hn, rfl⟩ := foldl_bytes_inj (Nat.succ.inj hlen) h
    have hb : b.toNat < 256 := UInt8.toNat_lt b
    have hb' : b'.toNat < 256 := UInt8.toNat_lt b'
    have heq : b.toNat = b'.toNat := by omega
    exact ⟨by omega, congrArg (· :: l) (UInt8.toNat_inj.mp heq)⟩

/-- Different bytes are different numbers. -/
theorem fromBytesBig_inj (hlen : l.length = l'.length) (h : fromBytesBig l = fromBytesBig l') :
    l = l' := (foldl_bytes_inj hlen h).2

end BpfExamples
