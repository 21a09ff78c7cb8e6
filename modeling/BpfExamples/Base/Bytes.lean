import Mathlib.Algebra.Ring.Int.Defs
import Mathlib.Algebra.Ring.Nat
import Mathlib.Logic.Function.Basic
import Mathlib.Tactic.Common

/-!
# Byte memory

A memory is a total map from addresses to bytes. Words are little-endian and
are read and written as natural numbers:

- `loadLE m a n` / `storeLE m a n v`: an `n`-byte word at `a`;
- `fill m a n c`: `n` bytes from `a` set to `c`;
- `splice m a l`: the bytes `l` from `a` on.

The laws are those of an array of bytes: a word reads back what was written
there (`loadLE_storeLE`), and a read looks only at its own bytes
(`loadLE_congr`), so that every frame condition is a statement about single
bytes.
-/

namespace BpfExamples

/-- A byte-addressed memory. -/
abbrev Mem := Nat → UInt8

namespace Mem

/-- The `n`-byte little-endian word at `a`. -/
def loadLE (m : Mem) (a : Nat) : Nat → Nat
  | 0 => 0
  | n + 1 => (m a).toNat + 256 * loadLE m (a + 1) n

/-- Write the low `n` bytes of `v` at `a`. -/
def storeLE (m : Mem) (a n v : Nat) : Mem :=
  fun x => if a ≤ x ∧ x < a + n then UInt8.ofNat (v / 256 ^ (x - a)) else m x

/-- Set the `n` bytes from `a` to `c`. -/
def fill (m : Mem) (a n : Nat) (c : UInt8) : Mem :=
  fun x => if a ≤ x ∧ x < a + n then c else m x

/-- Put the bytes `l` at `a`. -/
def splice (m : Mem) (a : Nat) (l : List UInt8) : Mem :=
  fun x => if a ≤ x ∧ x < a + l.length then l.getD (x - a) 0 else m x

/-- A 64-bit load. -/
def load64 (m : Mem) (a : Nat) : Nat := loadLE m a 8

/-- A 64-bit store. -/
def store64 (m : Mem) (a v : Nat) : Mem := storeLE m a 8 v

/-! ## Reads -/

/-- A read looks only at its own bytes. -/
theorem loadLE_congr {m m' : Mem} :
    ∀ {n a : Nat}, (∀ x, a ≤ x → x < a + n → m' x = m x) →
      loadLE m' a n = loadLE m a n
  | 0, _, _ => rfl
  | n + 1, a, h => by
    have hrest : loadLE m' (a + 1) n = loadLE m (a + 1) n :=
      loadLE_congr fun x h₁ h₂ => h x (by omega) (by omega)
    rw [loadLE, loadLE, hrest, h a (by omega) (by omega)]

/-- Reading through a window that starts at `b`. -/
theorem loadLE_shift (m : Mem) (b : Nat) :
    ∀ n a : Nat, loadLE (fun x => m (b + x)) a n = loadLE m (b + a) n
  | 0, _ => rfl
  | n + 1, a => by
    rw [loadLE, loadLE, loadLE_shift m b n (a + 1), Nat.add_assoc]

theorem loadLE_lt (m : Mem) : ∀ (n a : Nat), loadLE m a n < 256 ^ n
  | 0, _ => by simp [loadLE]
  | n + 1, a => by
    have hb : (m a).toNat < 256 := (m a).toNat_lt
    have hrest := loadLE_lt m n (a + 1)
    rw [loadLE, Nat.pow_succ]
    omega

theorem load64_congr {m m' : Mem} {a : Nat}
    (h : ∀ x, a ≤ x → x < a + 8 → m' x = m x) : load64 m' a = load64 m a :=
  loadLE_congr h

theorem load64_lt (m : Mem) (a : Nat) : load64 m a < 2 ^ 64 :=
  loadLE_lt m 8 a

/-- A word of zero bytes is zero. -/
theorem loadLE_eq_zero {m : Mem} :
    ∀ {n a : Nat}, (∀ x, a ≤ x → x < a + n → m x = 0) → loadLE m a n = 0
  | 0, _, _ => rfl
  | n + 1, a, h => by
    have hrest : loadLE m (a + 1) n = 0 :=
      loadLE_eq_zero fun x h₁ h₂ => h x (by omega) (by omega)
    rw [loadLE, hrest, h a (by omega) (by omega)]
    rfl

/-- The bytes of a word, lowest first. -/
theorem loadLE_byte (m : Mem) :
    ∀ (n a : Nat) {j : Nat}, j < n → m (a + j) = UInt8.ofNat (loadLE m a n / 256 ^ j)
  | 0, _, _, hj => absurd hj (Nat.not_lt_zero _)
  | n + 1, a, 0, _ => by
    have hb : (m a).toNat < 256 := (m a).toNat_lt
    refine UInt8.toNat_inj.mp ?_
    rw [loadLE, Nat.pow_zero, Nat.div_one, UInt8.toNat_ofNat']
    show (m a).toNat = _
    omega
  | n + 1, a, j + 1, hj => by
    have hb : (m a).toNat < 256 := (m a).toNat_lt
    have hrest := loadLE_byte m n (a + 1) (Nat.lt_of_succ_lt_succ hj)
    have hdiv : ((m a).toNat + 256 * loadLE m (a + 1) n) / 256 = loadLE m (a + 1) n := by omega
    rw [loadLE, Nat.pow_succ', ← Nat.div_div_eq_div_mul, hdiv, ← hrest, Nat.add_right_comm,
      Nat.add_assoc]

/-- Words that are equal have the same bytes. -/
theorem eq_of_load64_eq {m m' : Mem} {a x : Nat} (h : load64 m' a = load64 m a) (h₁ : a ≤ x)
    (h₂ : x < a + 8) : m' x = m x := by
  have hx : x = a + (x - a) := by omega
  rw [hx, loadLE_byte m' 8 a (by omega), loadLE_byte m 8 a (by omega), ← load64, ← load64, h]

/-! ## Writes -/

theorem storeLE_of_mem {m : Mem} {a n v x : Nat} (h₁ : a ≤ x) (h₂ : x < a + n) :
    storeLE m a n v x = UInt8.ofNat (v / 256 ^ (x - a)) :=
  if_pos ⟨h₁, h₂⟩

theorem storeLE_of_notMem {m : Mem} {a n v x : Nat} (h : x < a ∨ a + n ≤ x) :
    storeLE m a n v x = m x :=
  if_neg (by omega)

theorem store64_of_notMem {m : Mem} {a v x : Nat} (h : x < a ∨ a + 8 ≤ x) :
    store64 m a v x = m x :=
  storeLE_of_notMem h

theorem fill_of_mem {m : Mem} {a n x : Nat} {c : UInt8} (h₁ : a ≤ x) (h₂ : x < a + n) :
    fill m a n c x = c :=
  if_pos ⟨h₁, h₂⟩

theorem fill_of_notMem {m : Mem} {a n x : Nat} {c : UInt8} (h : x < a ∨ a + n ≤ x) :
    fill m a n c x = m x :=
  if_neg (by omega)

theorem splice_of_mem {m : Mem} {a x : Nat} {l : List UInt8} (h₁ : a ≤ x)
    (h₂ : x < a + l.length) : splice m a l x = l.getD (x - a) 0 :=
  if_pos ⟨h₁, h₂⟩

theorem splice_of_notMem {m : Mem} {a x : Nat} {l : List UInt8} (h : x < a ∨ a + l.length ≤ x) :
    splice m a l x = m x :=
  if_neg (by omega)

@[simp] theorem fill_zero (m : Mem) (a : Nat) (c : UInt8) : fill m a 0 c = m := by
  funext x
  exact fill_of_notMem (by omega)

/-! ## Reading back a write -/

/-- Reading any part of a word that was just written. -/
theorem loadLE_storeLE_tail (m : Mem) (a n v : Nat) :
    ∀ k i, i + k = n → loadLE (storeLE m a n v) (a + i) k = v / 256 ^ i % 256 ^ k
  | 0, i, _ => by simp [loadLE, Nat.mod_one]
  | k + 1, i, hi => by
    have ih := loadLE_storeLE_tail m a n v k (i + 1) (by omega)
    have hbyte : (storeLE m a n v (a + i)).toNat = v / 256 ^ i % 256 := by
      rw [storeLE_of_mem (by omega) (by omega), Nat.add_sub_cancel_left, UInt8.toNat_ofNat']
    rw [loadLE, hbyte, show a + i + 1 = a + (i + 1) from rfl, ih, Nat.pow_succ,
      ← Nat.div_div_eq_div_mul, Nat.pow_succ, Nat.mul_comm (256 ^ k) 256, Nat.mod_mul]

theorem loadLE_storeLE (m : Mem) (a n v : Nat) :
    loadLE (storeLE m a n v) a n = v % 256 ^ n := by
  have h := loadLE_storeLE_tail m a n v n 0 (by omega)
  simpa using h

@[simp] theorem load64_store64 (m : Mem) (a v : Nat) :
    load64 (store64 m a v) a = v % 2 ^ 64 :=
  loadLE_storeLE m a 8 v

theorem load64_store64_of_lt {m : Mem} {a v : Nat} (h : v < 2 ^ 64) :
    load64 (store64 m a v) a = v := by
  rw [load64_store64, Nat.mod_eq_of_lt h]

theorem load64_store64_of_apart {m : Mem} {a b v : Nat} (h : a + 8 ≤ b ∨ b + 8 ≤ a) :
    load64 (store64 m b v) a = load64 m a :=
  load64_congr fun _ _ _ => store64_of_notMem (by omega)

end Mem

end BpfExamples
