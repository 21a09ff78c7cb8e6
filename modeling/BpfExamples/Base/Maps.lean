import Mathlib.Algebra.Ring.Int.Defs
import Mathlib.Algebra.Ring.Nat
import Mathlib.Data.Finset.Card
import Mathlib.Data.List.AList
import Mathlib.Tactic.Common

/-!
# Maps of bounded size

A `Table` is a finite map, `AList` with one type of values. The maps of the BPF programs hold a
fixed number of entries at most: a new key is turned down when the map is full, a key that is
there already can always be overwritten (`hasRoom`).

`lookup` after each operation is one equation, and so is the effect on the size where it
matters.
-/

namespace BpfExamples

universe u v

/-- A finite map. -/
abbrev Table (κ : Type u) (ν : Type v) := AList fun _ : κ => ν

namespace Table

variable {κ : Type u} {ν : Type v} [DecidableEq κ] {m : Table κ ν} {k k' : κ} {x : ν}
  {cap : Nat}

/-- The number of entries. -/
def size (m : Table κ ν) : Nat := m.keys.length

/-- Whether an entry can be written for `k`. -/
def hasRoom (cap : Nat) (k : κ) (m : Table κ ν) : Bool :=
  decide (k ∈ m) || decide (m.size < cap)

/-- Write an entry, unless the map is full. -/
def put (cap : Nat) (k : κ) (x : ν) (m : Table κ ν) : Option (Table κ ν) :=
  if m.hasRoom cap k then some (m.insert k x) else none

/-- The keys. -/
def keySet (m : Table κ ν) : Finset κ := m.keys.toFinset

/-- Remove the entries that fail `p`. -/
def keep (p : κ → ν → Bool) (m : Table κ ν) : Table κ ν :=
  ⟨m.entries.filter fun e => p e.1 e.2, m.nodupKeys.sublist List.filter_sublist⟩

theorem hasRoom_of_mem (h : k ∈ m) : m.hasRoom cap k = true := by
  simp [hasRoom, h]

theorem hasRoom_of_lt (h : m.size < cap) : m.hasRoom cap k = true := by
  simp [hasRoom, h]

theorem hasRoom_of_notMem (h : k ∉ m) : m.hasRoom cap k = decide (m.size < cap) := by
  simp [hasRoom, h]

theorem lookup_insert_eq (m : Table κ ν) (k k' : κ) (x : ν) :
    (m.insert k x).lookup k' = if k' = k then some x else m.lookup k' := by
  split
  · next h =>
    subst h
    exact AList.lookup_insert m
  · next h => exact AList.lookup_insert_ne h

theorem lookup_erase_eq (m : Table κ ν) (k k' : κ) :
    (m.erase k).lookup k' = if k' = k then none else m.lookup k' := by
  split
  · next h =>
    subst h
    exact AList.lookup_erase k' m
  · next h => exact AList.lookup_erase_ne h

theorem mem_iff_lookup : k ∈ m ↔ ∃ x, m.lookup k = some x := by
  rw [← AList.lookup_isSome, Option.isSome_iff_exists]

@[simp]
theorem mem_keySet : k ∈ m.keySet ↔ k ∈ m := List.mem_toFinset.trans AList.mem_keys.symm

theorem card_keySet (m : Table κ ν) : m.keySet.card = m.size :=
  List.toFinset_card_of_nodup m.keys_nodup

theorem keySet_insert (m : Table κ ν) (k : κ) (x : ν) :
    keySet (m.insert k x) = insert k m.keySet := by
  ext k'
  rw [mem_keySet, AList.mem_insert, Finset.mem_insert, mem_keySet]

theorem size_insert_of_mem (h : k ∈ m) : size (m.insert k x) = m.size := by
  rw [← card_keySet, keySet_insert, Finset.insert_eq_of_mem (mem_keySet.mpr h), card_keySet]

theorem lookup_keep (p : κ → ν → Bool) (m : Table κ ν) (k : κ) :
    (m.keep p).lookup k = (m.lookup k).filter (p k) := by
  ext y
  have hkeep : (m.keep p).lookup k = some y ↔ (⟨k, y⟩ : Sigma fun _ : κ => ν) ∈ m.entries ∧
      p k y = true := by
    rw [← Option.mem_def, AList.mem_lookup_iff]
    exact List.mem_filter
  rw [hkeep, Option.filter_eq_some_iff, ← Option.mem_def, AList.mem_lookup_iff]

end Table

end BpfExamples
