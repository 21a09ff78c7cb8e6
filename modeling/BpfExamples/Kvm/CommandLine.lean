import BpfExamples.Kvm.ArgumentArea
import BpfExamples.Kvm.UserStrings

/-!
# The command line on its way to the user

`copy_argv` lays the command line out as one block at the end of the kernel's stack: the
pointers to the strings, a null pointer, and the strings themselves, of which the last one ends
where the stack does. `switch_user` moves the pointers and copies the block to the arguments'
page. The block has the same shape in both places (`ArgBlock`), only its pointers differ
(`copyArgv_spec`, `moveArguments_spec`).
-/

namespace BpfExamples.Kvm

open Mem

variable {σ : Type} {s s' : Sys σ} {m : Mem} {args : List (List UInt8)}

/-! ## The block -/

/-- The length of the strings, each with its zero. -/
def stringsLen (args : List (List UInt8)) : Nat := (args.map fun a => a.length + 1).sum

@[simp] theorem stringsLen_nil : stringsLen [] = 0 := rfl

@[simp] theorem stringsLen_cons (a : List UInt8) (args : List (List UInt8)) :
    stringsLen (a :: args) = a.length + 1 + stringsLen args := by
  rw [stringsLen, List.map_cons, List.sum_cons, stringsLen]

theorem stringsLen_drop (args : List (List UInt8)) (i : Nat) :
    stringsLen (args.drop i) ≤ stringsLen args := by
  induction args generalizing i with
  | nil => rw [List.drop_nil]
  | cons a args ih =>
    cases i with
    | zero => exact Nat.le_refl _
    | succ i =>
      rw [List.drop_succ_cons, stringsLen_cons]
      have := ih i
      omega

/-- The string `i` takes its place. -/
theorem stringsLen_drop_eq {i : Nat} {a : List UInt8} (h : args[i]? = some a) :
    stringsLen (args.drop i) = a.length + 1 + stringsLen (args.drop (i + 1)) := by
  obtain ⟨hi, rfl⟩ := List.getElem?_eq_some_iff.mp h
  rw [List.drop_eq_getElem_cons hi, stringsLen_cons]

/-- The length of the block: the pointers with the null pointer, and the strings on a multiple
of 16 bytes. -/
def blockLen (args : List (List UInt8)) : Nat :=
  8 * (args.length + 1) + alignupTo (stringsLen args) 0x10

theorem blockLen_ge (args : List (List UInt8)) :
    8 * (args.length + 1) + stringsLen args ≤ blockLen args := by
  unfold blockLen alignupTo
  split <;> omega

/-- Where string `i` begins in the block. -/
def stringAt (args : List (List UInt8)) (i : Nat) : Nat :=
  blockLen args - stringsLen (args.drop i)

theorem stringAt_ge (args : List (List UInt8)) (i : Nat) :
    8 * (args.length + 1) ≤ stringAt args i := by
  have h₁ := blockLen_ge args
  have h₂ := stringsLen_drop args i
  unfold stringAt
  omega

/-- A string ends where the next one begins. -/
theorem stringAt_succ {i : Nat} {a : List UInt8} (h : args[i]? = some a) :
    stringAt args i + (a.length + 1) = stringAt args (i + 1) := by
  have h₁ := blockLen_ge args
  have h₂ := stringsLen_drop args i
  have h₃ := stringsLen_drop_eq h
  unfold stringAt
  omega

theorem stringAt_le (args : List (List UInt8)) (i : Nat) : stringAt args i ≤ blockLen args :=
  Nat.sub_le _ _

/-- A command line that `copy_argv` can place in the kernel's stack of 0x4000 bytes, with its
pointers and `argc`. -/
structure Stackable (args : List (List UInt8)) : Prop where
  some : args ≠ []
  strings : ∀ a ∈ args, 0 ∉ a
  fits : blockLen args + 8 ≤ 0x4000

/-- The part of the stack that is left to the frames of the kernel's routines, which go on below
`argc`. No routine has an array in its frame, and their calls nest about a dozen deep. -/
def kernelFrames : Nat := 0x1000

/-- A command line with which the kernel can run: it leaves room for the kernel's frames. With
less room they grow into the page tables, which are below the stack. -/
structure CommandLine (args : List (List UInt8)) : Prop where
  some : args ≠ []
  strings : ∀ a ∈ args, 0 ∉ a
  fits : blockLen args + 8 + kernelFrames ≤ 0x4000

theorem CommandLine.stackable (h : CommandLine args) : Stackable args :=
  ⟨h.some, h.strings, by have := h.fits; omega⟩

/-- The command line `a`. -/
theorem commandLine_a : CommandLine [[97]] := ⟨by decide, by decide, by decide⟩

/-- The block is in memory from the cell `base` on, for a reader who finds it at `origin`. -/
structure ArgBlock (m : Mem) (base origin : Nat) (args : List (List UInt8)) : Prop where
  pointer : ∀ i, i < args.length → load64 m (base + 8 * i) = origin + stringAt args i
  null : load64 m (base + 8 * args.length) = 0
  byte : ∀ i a, args[i]? = some a → ∀ j, j ≤ a.length →
    m (base + stringAt args i + j) = a.getD j 0

/-- The block's bytes are all that counts. -/
theorem ArgBlock.copy {m' : Mem} {base base' origin : Nat} (h : ArgBlock m base origin args)
    (hm : ∀ i, i < blockLen args → m' (base' + i) = m (base + i)) :
    ArgBlock m' base' origin args := by
  have hge := blockLen_ge args
  have hword : ∀ i, i ≤ args.length → load64 m' (base' + 8 * i) = load64 m (base + 8 * i) := by
    intro i hi
    rw [load64, load64, ← loadLE_shift m' base', ← loadLE_shift m base]
    exact loadLE_congr fun x _ hx => hm x (by omega)
  refine ⟨fun i hi => ?_, ?_, fun i a ha j hj => ?_⟩
  · rw [hword i (by omega), h.pointer i hi]
  · rw [hword _ (Nat.le_refl _), h.null]
  · have h₁ := stringAt_succ ha
    have h₂ := stringAt_le args (i + 1)
    rw [Nat.add_assoc, hm _ (by omega), ← Nat.add_assoc]
    exact h.byte i a ha j hj

/-! ## `copy_argv` -/

theorem guestAddr_window {d : Nat} (h : d < 2 ^ 48) : guestAddr (0x8000000000 + d) = d := by
  unfold guestAddr kernelBaseOffset
  omega

/-- How far down the first loop goes. -/
theorem placeStrings_sp (m : Mem) (sp : Nat) (args : List (List UInt8)) :
    (placeStrings m sp args).2.1 = sp - stringsLen args := by
  induction args with
  | nil => rfl
  | cons a args ih =>
    simp only [placeStrings, stringsLen_cons, ih]
    omega

/-- The first loop: the strings lie one behind the other, up to where the stack began. -/
theorem placeStrings_spec (m : Mem) (sp : Nat) (args : List (List UInt8))
    (hle : stringsLen args ≤ sp) :
    (placeStrings m sp args).2.2 = (List.range args.length).map
      (fun i => sp - stringsLen (args.drop i)) ∧
      (∀ i a, args[i]? = some a → ∀ j, j ≤ a.length →
        (placeStrings m sp args).1 (sp - stringsLen (args.drop i) + j) = a.getD j 0) ∧
      ∀ x, x < sp - stringsLen args ∨ sp ≤ x → (placeStrings m sp args).1 x = m x := by
  induction args with
  | nil => exact ⟨rfl, nofun, fun _ _ => rfl⟩
  | cons a args ih =>
    rw [stringsLen_cons] at hle ⊢
    obtain ⟨hptrs, hbytes, hframe⟩ := ih (by omega)
    have hp : sp - stringsLen args - (a.length + 1) =
      sp - (a.length + 1 + stringsLen args) := by omega
    have hlen : (a ++ [0]).length = a.length + 1 := List.length_append
    simp only [placeStrings, placeStrings_sp, hptrs, hp]
    refine ⟨?_, fun i b hb j hj => ?_, fun x hx => ?_⟩
    · rw [List.length_cons, List.range_succ_eq_map, List.map_cons, List.map_map, List.drop_zero,
        stringsLen_cons]
      rfl
    · cases i with
      | zero =>
        cases hb
        rw [List.drop_zero, stringsLen_cons, splice_of_mem (by omega) (by omega),
          Nat.add_sub_cancel_left]
        by_cases hj' : j < a.length
        · simp [List.getD_eq_getElem?_getD, List.getElem?_append_left hj']
        · obtain rfl : j = a.length := by omega
          simp [List.getD_eq_getElem?_getD]
      | succ i =>
        have hdrop := stringsLen_drop args i
        rw [List.drop_succ_cons, splice_of_notMem (by omega)]
        exact hbytes i b hb j hj
    · rw [splice_of_notMem (by omega), hframe x (by omega)]

/-- How far down the second loop goes. -/
theorem placeWords_sp (m : Mem) (sp : Nat) (l : List Nat) :
    (placeWords m sp l).2 = sp - 8 * l.length := by
  induction l with
  | nil => rfl
  | cons x l ih =>
    simp only [placeWords, List.length_cons, ih]
    omega

/-- The second loop: the words in order, below `sp`. -/
theorem placeWords_spec (m : Mem) (sp : Nat) (l : List Nat) (hle : 8 * l.length ≤ sp)
    (hl : ∀ x ∈ l, x < 2 ^ 64) :
    (∀ i x, l[i]? = some x → load64 (placeWords m sp l).1 (sp - 8 * l.length + 8 * i) = x) ∧
      ∀ x, x < sp - 8 * l.length ∨ sp ≤ x → (placeWords m sp l).1 x = m x := by
  induction l with
  | nil => exact ⟨nofun, fun _ _ => rfl⟩
  | cons x l ih =>
    rw [List.length_cons] at hle ⊢
    obtain ⟨hwords, hframe⟩ := ih (by omega) fun y hy => hl y (List.mem_cons_of_mem x hy)
    have hp : sp - 8 * l.length - 8 = sp - 8 * (l.length + 1) := by omega
    simp only [placeWords, placeWords_sp, hp]
    refine ⟨fun i y hy => ?_, fun z hz => ?_⟩
    · cases i with
      | zero =>
        cases hy
        exact load64_store64_of_lt (hl x List.mem_cons_self)
      | succ i =>
        have haddr : sp - 8 * (l.length + 1) + 8 * (i + 1) = sp - 8 * l.length + 8 * i := by
          omega
        rw [haddr, load64_store64_of_apart (by omega)]
        exact hwords i y hy
    · rw [store64_of_notMem (by omega), hframe z (by omega)]

theorem placeStrings_length (m : Mem) (sp : Nat) (args : List (List UInt8)) :
    (placeStrings m sp args).2.2.length = args.length := by
  induction args with
  | nil => rfl
  | cons a args ih => simp only [placeStrings, List.length_cons, ih]

/-- The memory behind both loops. -/
theorem copyArgv_mem (m : Mem) (args : List (List UInt8)) :
    (copyArgv m 0x200000 args).1 = (placeWords (placeStrings m 0x8000200000 args).1
      (0x8000200000 - stringsLen args - (0x8000200000 - stringsLen args) % 0x10)
      (args.length :: (placeStrings m 0x8000200000 args).2.2.map guestAddr ++ [0])).1 := by
  have hstart : kernelBaseOffset + 0x200000 = 0x8000200000 := rfl
  simp only [copyArgv, hstart, placeStrings_sp]

/-- The last word written is `argc`, below the strings and the pointers. -/
theorem copyArgv_argc (m : Mem) (args : List (List UInt8)) :
    ∃ m₁ : Mem, (copyArgv m 0x200000 args).1 = store64 m₁ (0x8000200000 - stringsLen args -
      (0x8000200000 - stringsLen args) % 0x10 - 8 * (args.length + 1) - 8) args.length := by
  refine ⟨(placeWords (placeStrings m 0x8000200000 args).1
    (0x8000200000 - stringsLen args - (0x8000200000 - stringsLen args) % 0x10)
    ((placeStrings m 0x8000200000 args).2.2.map guestAddr ++ [0])).1, ?_⟩
  simp only [copyArgv_mem, List.cons_append, placeWords, placeWords_sp, List.length_append,
    List.length_map, List.length_singleton, placeStrings_length]

/-- **`copy_argv`**: `argc` at `rsp`, and the block behind it. -/
theorem copyArgv_spec (m : Mem) (h : Stackable args) :
    (copyArgv m 0x200000 args).2 = 0x200000 - blockLen args - 8 ∧
      load64 (copyArgv m 0x200000 args).1 (0x8000200000 - blockLen args - 8) = args.length ∧
      ArgBlock (copyArgv m 0x200000 args).1 (0x8000200000 - blockLen args)
        (0x200000 - blockLen args) args ∧
      ∀ x, x < 0x80001fc000 ∨ 0x8000200000 ≤ x → (copyArgv m 0x200000 args).1 x = m x := by
  have hge := blockLen_ge args
  have hfits := h.fits
  have hsp := placeStrings_sp m 0x8000200000 args
  obtain ⟨hptrs, hbytes, hframe⟩ := placeStrings_spec m 0x8000200000 args (by omega)
  -- the words, with the guest's addresses
  set l := args.length :: (List.range args.length).map
    (fun i => 0x200000 - stringsLen (args.drop i)) ++ [0] with hl
  have hguest : args.length :: (placeStrings m 0x8000200000 args).2.2.map guestAddr ++ [0] =
      l := by
    have hmap : (List.range args.length).map (guestAddr ∘ fun i =>
        0x8000200000 - stringsLen (args.drop i)) = (List.range args.length).map fun i =>
        0x200000 - stringsLen (args.drop i) := by
      refine List.map_congr_left fun i _ => ?_
      have hdrop := stringsLen_drop args i
      rw [Function.comp_apply, show 0x8000200000 - stringsLen (args.drop i) = 0x8000000000 +
        (0x200000 - stringsLen (args.drop i)) by omega, guestAddr_window (by omega)]
    rw [hptrs, List.map_map, hmap]
  have hround : 0x8000200000 - stringsLen args - (0x8000200000 - stringsLen args) % 0x10 =
      0x8000200000 - alignupTo (stringsLen args) 0x10 := by
    unfold blockLen at hfits
    unfold alignupTo at hfits ⊢
    split at hfits <;> rename_i hz <;> simp only [hz, if_true, if_false] <;> omega
  have hlen : l.length = args.length + 2 := by
    simp [hl]
  have hblock : blockLen args = 8 * (args.length + 1) + alignupTo (stringsLen args) 0x10 := rfl
  have hsmall : ∀ x ∈ l, x < 2 ^ 64 := by
    intro x hx
    simp only [hl, List.cons_append, List.mem_cons, List.mem_append, List.mem_map,
      List.not_mem_nil, or_false] at hx
    rcases hx with rfl | ⟨i, -, rfl⟩ | rfl <;> omega
  obtain ⟨hwords, hbelow⟩ := placeWords_spec (placeStrings m 0x8000200000 args).1
    (0x8000200000 - alignupTo (stringsLen args) 0x10) l (by omega) hsmall
  have hrsp := placeWords_sp (placeStrings m 0x8000200000 args).1
    (0x8000200000 - alignupTo (stringsLen args) 0x10) l
  have hstart : 0x8000200000 - alignupTo (stringsLen args) 0x10 - 8 * (args.length + 2) =
      0x8000200000 - blockLen args - 8 := by
    omega
  rw [hlen, hstart] at hrsp hwords hbelow
  have hcopy : copyArgv m 0x200000 args = ((placeWords (placeStrings m 0x8000200000 args).1
      (0x8000200000 - alignupTo (stringsLen args) 0x10) l).1,
      guestAddr (0x8000200000 - blockLen args - 8)) := by
    rw [← hrsp, ← hround, ← hguest, ← hsp]
    rfl
  rw [hcopy]
  -- a word of the block is one of the list
  have hword : ∀ i x, l[i + 1]? = some x →
      load64 (placeWords (placeStrings m 0x8000200000 args).1 (0x8000200000 - alignupTo
      (stringsLen args) 0x10) l).1 (0x8000200000 - blockLen args + 8 * i) = x := by
    intro i x hx
    rw [← hwords (i + 1) x hx]
    congr 1
    omega
  refine ⟨?_, ?_, ⟨fun i hi => ?_, ?_, fun i a ha j hj => ?_⟩, fun x hx => ?_⟩
  · rw [show 0x8000200000 - blockLen args - 8 = 0x8000000000 + (0x200000 - blockLen args - 8) by
        omega]
    exact guestAddr_window (by omega)
  · rw [← hwords 0 args.length rfl]
    congr 1
  · have hdrop := stringsLen_drop args i
    refine hword i _ ?_
    simp only [hl, List.cons_append, List.getElem?_cons_succ]
    rw [List.getElem?_append_left (by simpa using hi), List.getElem?_map,
      List.getElem?_range hi, Option.map_some]
    unfold stringAt
    congr 1
    omega
  · refine hword args.length 0 ?_
    simp only [hl, List.cons_append, List.getElem?_cons_succ]
    rw [List.getElem?_append_right (by simp)]
    simp
  · have h₁ := stringAt_succ ha
    have h₂ := stringAt_le args (i + 1)
    have h₃ := stringAt_ge args i
    have hdrop := stringsLen_drop args i
    have hat : stringAt args i = blockLen args - stringsLen (args.drop i) := rfl
    have haddr : 0x8000200000 - blockLen args + stringAt args i + j = 0x8000200000 - stringsLen
        (args.drop i) + j := by
      omega
    rw [haddr, hbelow _ (by omega)]
    exact hbytes i a ha j hj
  · rw [hbelow x (by omega), hframe x (by omega)]

/-! ### What of the command line a reader gets back -/

/-- The string `a` is at `c`, with its zero. -/
structure CString (m : Mem) (c : Nat) (a : List UInt8) : Prop where
  text : 0 ∉ a
  bytes : ∀ j, j ≤ a.length → m (c + j) = a.getD j 0

/-- `argc`, the pointers with their null pointer, and the strings, for a reader at `rsp` in the
guest's memory. -/
structure Decodes (m : Mem) (rsp : Nat) (args : List (List UInt8)) : Prop where
  argc : load64 m (kernelBaseOffset + rsp) = args.length
  argv : ∀ i a, args[i]? = some a →
    CString m (kernelBaseOffset + load64 m (kernelBaseOffset + rsp + 8 + 8 * i)) a
  null : load64 m (kernelBaseOffset + rsp + 8 + 8 * args.length) = 0

/-- All that `copy_argv` writes is in the kernel's stack: whatever memory it finds, it leaves
the rest of it alone. -/
def StaysInStack (args : List (List UInt8)) : Prop :=
  ∀ (m : Mem) x, x < kernelBaseOffset + 0x1fc000 ∨ kernelBaseOffset + 0x200000 ≤ x →
    (copyArgv m 0x200000 args).1 x = m x

/-- A block of the guest with its number of strings before it. -/
theorem ArgBlock.decodes {r : Nat} (hargc : load64 m (0x8000000000 + r) = args.length)
    (hb : ArgBlock m (0x8000000000 + r + 8) (r + 8) args) (hstr : ∀ a ∈ args, 0 ∉ a) :
    Decodes m r args := by
  refine ⟨hargc, fun i a ha => ⟨hstr a (List.mem_of_getElem? ha), fun j hj => ?_⟩, hb.null⟩
  have hptr : load64 m (kernelBaseOffset + r + 8 + 8 * i) = r + 8 + stringAt args i :=
    hb.pointer i (List.getElem?_eq_some_iff.mp ha).1
  have hcell : kernelBaseOffset + (r + 8 + stringAt args i) + j =
      0x8000000000 + r + 8 + stringAt args i + j := by
    unfold kernelBaseOffset
    omega
  rw [hptr, hcell, hb.byte i a ha j hj]

theorem copyArgv_decodes (m : Mem) (h : Stackable args) :
    Decodes (copyArgv m 0x200000 args).1 (copyArgv m 0x200000 args).2 args := by
  have hfits := h.fits
  obtain ⟨hrsp, hargc, hblock, -⟩ := copyArgv_spec m h
  have hcell : 0x8000000000 + (0x200000 - blockLen args - 8) =
    0x8000200000 - blockLen args - 8 := by omega
  have hbehind : 0x8000200000 - blockLen args - 8 + 8 = 0x8000200000 - blockLen args := by omega
  have horigin : 0x200000 - blockLen args - 8 + 8 = 0x200000 - blockLen args := by omega
  rw [hrsp]
  refine ArgBlock.decodes ?_ ?_ h.strings
  · rw [hcell, hargc]
  · rw [hcell, hbehind, horigin]
    exact hblock

/-- A block too long for the stack: `argc` ends up below it. -/
theorem not_staysInStack (h : 0x4000 < blockLen args + 8) : ¬ StaysInStack args := by
  intro hstays
  set c := 0x8000200000 - stringsLen args - (0x8000200000 - stringsLen args) % 0x10 - 8 *
    (args.length + 1) - 8 with hc
  have hbelow : c < kernelBaseOffset + 0x1fc000 := by
    unfold blockLen alignupTo at h
    unfold kernelBaseOffset
    split at h <;> omega
  -- its first byte is the same whatever was there, so it was written
  have hbyte : ∀ m : Mem, (copyArgv m 0x200000 args).1 c = UInt8.ofNat args.length := by
    intro m
    obtain ⟨m₁, hm₁⟩ := copyArgv_argc m args
    rw [hm₁, ← hc, store64, storeLE_of_mem (Nat.le_refl c)
      (Nat.lt_add_of_pos_right (by decide)), Nat.sub_self, Nat.pow_zero, Nat.div_one]
  have h₀ := (hbyte fun _ => 0).symm.trans (hstays (fun _ => 0) c (.inl hbelow))
  have h₁ := (hbyte fun _ => 1).symm.trans (hstays (fun _ => 1) c (.inl hbelow))
  exact absurd (h₀.symm.trans h₁) (by decide)

/-- **`copy_argv` stays inside the kernel's stack**, and leaves a command line that reads back,
just when the block with `argc` fits there. -/
theorem copyArgv_inside_iff (args : List (List UInt8)) (hsome : args ≠ [])
    (hstr : ∀ a ∈ args, 0 ∉ a) :
    (StaysInStack args ∧
      ∀ m, Decodes (copyArgv m 0x200000 args).1 (copyArgv m 0x200000 args).2 args) ↔
      blockLen args + 8 ≤ 0x4000 := by
  constructor
  · rintro ⟨hstays, -⟩
    by_contra hlong
    exact not_staysInStack (Nat.lt_of_not_le hlong) hstays
  · intro hfits
    have h : Stackable args := ⟨hsome, hstr, hfits⟩
    exact ⟨fun m => (copyArgv_spec m h).2.2.2, fun m => copyArgv_decodes m h⟩

/-- One short argument. -/
theorem copyArgv_inside_short :
    StaysInStack [[0x61]] ∧ ∀ m, Decodes (copyArgv m 0x200000 [[0x61]]).1
      (copyArgv m 0x200000 [[0x61]]).2 [[0x61]] :=
  (copyArgv_inside_iff [[0x61]] (by decide) (by decide)).mpr (by decide)

/-- **It need not stay there**: an argument of 0x4000 bytes begins in the last of the page
tables. -/
theorem copyArgv_overruns :
    ∃ a : List UInt8, a.length = 0x4000 ∧ 0 ∉ a ∧
      (∀ m, (copyArgv m 0x200000 [a]).1 (kernelBaseOffset + 0x1fbfff) = 0x61) ∧
      ¬ StaysInStack [a] := by
  obtain ⟨a, hlen, hfirst, hzero⟩ : ∃ a : List UInt8, a.length = 0x4000 ∧
    a.getD 0 0 = 0x61 ∧ 0 ∉ a := by
    refine ⟨0x61 :: List.replicate 0x3fff 0x61, ?_, rfl, fun h => ?_⟩
    · rw [List.length_cons, List.length_replicate]
    · rw [← List.replicate_succ] at h
      exact absurd (List.eq_of_mem_replicate h) (by decide)
  have htotal : stringsLen [a] = 0x4001 := by rw [stringsLen_cons, hlen, stringsLen_nil]
  have hge := blockLen_ge [a]
  refine ⟨a, hlen, hzero, fun m => ?_, not_staysInStack (by omega)⟩
  have hcell : kernelBaseOffset + 0x1fbfff = 0x8000200000 - 0x4001 + 0 := by decide
  have hround : 0x8000200000 - 0x4001 - (0x8000200000 - 0x4001) % 0x10 = 0x80001fbff0 := by
    decide
  obtain ⟨-, hbytes, -⟩ := placeStrings_spec m 0x8000200000 [a] (by omega)
  have hbyte := hbytes 0 a rfl 0 (Nat.zero_le _)
  rw [List.drop_zero, htotal, hfirst] at hbyte
  have hwords : ∀ x ∈ [a].length :: (placeStrings m 0x8000200000 [a]).2.2.map guestAddr ++ [0],
      x < 2 ^ 64 := by
    intro x hx
    simp only [List.cons_append, List.mem_cons, List.mem_append, List.mem_map, List.not_mem_nil,
      or_false] at hx
    rcases hx with rfl | ⟨p, -, rfl⟩ | rfl
    · exact Nat.one_lt_two_pow (by decide)
    · exact Nat.mod_lt _ (by decide)
    · decide
  -- the pointers and `argc` go below the string
  rw [copyArgv_mem, htotal, hround, hcell, ← hbyte]
  refine (placeWords_spec _ 0x80001fbff0 _ ?_ hwords).2 _ (.inr (by decide))
  simp [placeStrings_length]

/-! ## `switch_user` -/

/-- The loop that moves the pointers, below the kernel's 2 MB. -/
theorem relocateFrom_spec (argv sp n : Nat) :
    ∀ (i : Nat) {s : Sys σ}, argv + 8 * (i + n) ≤ 0x200000 →
    ∃ s', relocateFrom argv sp n i s = .ok () s' ∧
      Stores (fun x => 0x8000000000 + argv + 8 * i ≤ x ∧
        x < 0x8000000000 + argv + 8 * (i + n)) s s' ∧
      s'.fds = s.fds ∧ s'.world = s.world ∧
      ∀ k, i ≤ k → k < i + n → load64 s'.mem (0x8000000000 + argv + 8 * k) =
        (load64 s.mem (0x8000000000 + argv + 8 * k) + 2 ^ 64 - argv + sp) % 2 ^ 64 := by
  induction n with
  | zero =>
    exact fun i s _ => ⟨s, rfl, Stores.refl _ s, rfl, rfl, fun k h₁ h₂ => absurd h₂ (by omega)⟩
  | succ n ih =>
    intro i s hend
    have hread : peekLE (argv + 8 * i) 8 s =
        .ok (load64 s.mem (0x8000000000 + argv + 8 * i)) s := by
      rw [peekLE_low 8 (argv + 8 * i) (by omega), ← Nat.add_assoc]
      rfl
    set x := (load64 s.mem (0x8000000000 + argv + 8 * i) + 2 ^ 64 - argv + sp) % 2 ^ 64 with hx
    have hwrite := pokeLE_low (s := s) 8 (argv + 8 * i) x (by omega)
    rw [← Nat.add_assoc] at hwrite
    set s₁ := s.setMem (storeLE s.mem (0x8000000000 + argv + 8 * i) 8 x) fun y =>
      0x8000000000 + argv + 8 * i ≤ y ∧ y < 0x8000000000 + argv + 8 * i + 8 with hs₁
    have hone : Stores (fun y => 0x8000000000 + argv + 8 * i ≤ y ∧
      y < 0x8000000000 + argv + 8 * i + 8) s s₁ := stores_setMem fun y hy =>
      storeLE_of_notMem (by omega)
    obtain ⟨s', hrun, hst, hfds, hworld, hwords⟩ := ih (i + 1) (s := s₁) (by omega)
    refine ⟨s', ?_, (hone.mono fun y hy => by omega).trans (hst.mono fun y hy => by omega),
      hfds, hworld, fun k h₁ h₂ => ?_⟩
    · rw [relocateFrom, bind_of_ok hread, bind_of_ok hwrite]
      exact hrun
    · by_cases hk : k = i
      · -- the word just moved stays
        subst hk
        have hstays : load64 s'.mem (0x8000000000 + argv + 8 * k) = load64 s₁.mem
          (0x8000000000 + argv + 8 * k) := load64_congr fun y h₃ h₄ => hst.mem y (by omega)
        rw [hstays]
        exact load64_store64_of_lt (Nat.mod_lt _ (by decide))
      · rw [hwords k (by omega) (by omega)]
        have hsame : load64 s₁.mem (0x8000000000 + argv + 8 * k) = load64 s.mem
          (0x8000000000 + argv + 8 * k) := load64_congr fun y h₃ h₄ => hone.mem y (by omega)
        rw [hsame]

/-- The step from boot to a kernel with the arguments in the user's page. -/
structure Moved (s s' : Sys σ) (args : List (List UInt8)) (t : Extent) : Prop where
  rep : KernelRep s'.heap [t] [argumentBlock (blockLen args)] argumentLeaf
  block : ArgBlock s'.mem 0x8000201000 0x201000 args
  above : (argumentBlock (blockLen args)).fin ≤ t.addr
  fds : s'.fds = s.fds
  world : s'.world = s.world
  last : s'.kernel.lastMmapped = s.kernel.lastMmapped
  refused : s'.refused = s.refused
  handed : s'.handed = 0x8000201000 :: s.handed
  room : 0x1f0000 ≤ s'.room

theorem getD_ne_zero {a : List UInt8} (h : 0 ∉ a) {j : Nat} (hj : j < a.length) :
    a.getD j 0 ≠ 0 := by
  rw [List.getD_eq_getElem?_getD, List.getElem?_eq_getElem hj, Option.getD_some]
  exact fun hz => h (hz ▸ List.getElem_mem hj)

/-- The pointer to the last string, and its length: the block ends with it. -/
theorem lastString (h : Stackable args)
    (hb : ArgBlock s.mem (0x8000200000 - blockLen args) (0x200000 - blockLen args) args) :
    ∃ a : List UInt8, a.length < 0x4000 ∧
      peekLE ((0x200000 - blockLen args + 8 * args.length + (2 ^ 64 - 8)) % 2 ^ 64) 8 s =
        .ok (0x200000 - (a.length + 1)) s ∧ strlen (0x200000 - (a.length + 1)) s =
          .ok a.length s := by
  have hfits := h.fits
  have hge := blockLen_ge args
  have hpos : 0 < args.length := List.length_pos_of_ne_nil h.some
  obtain ⟨a, ha⟩ : ∃ a, args[args.length - 1]? = some a :=
    ⟨_, List.getElem?_eq_getElem (by omega)⟩
  have hat := stringAt_succ ha
  have hend : stringAt args (args.length - 1 + 1) = blockLen args := by
    rw [Nat.sub_add_cancel hpos, stringAt, List.drop_length, stringsLen_nil, Nat.sub_zero]
  have hstart : 0x200000 - blockLen args + stringAt args (args.length - 1) =
    0x200000 - (a.length + 1) := by omega
  refine ⟨a, by omega, ?_, ?_⟩
  · have haddr : (0x200000 - blockLen args + 8 * args.length + (2 ^ 64 - 8)) % 2 ^ 64 =
        0x200000 - blockLen args + 8 * (args.length - 1) := by omega
    have hcell : 0x8000000000 + (0x200000 - blockLen args + 8 * (args.length - 1)) =
        0x8000200000 - blockLen args + 8 * (args.length - 1) := by omega
    rw [haddr, peekLE_low _ _ (by omega), hcell, ← hstart, ← hb.pointer _ (by omega)]
    rfl
  · have hbyte : ∀ j, j ≤ a.length → ∃ c, cellAt s.mem false (0x200000 - (a.length + 1) + j) =
        some c ∧ s.mem c = a.getD j 0 := by
      intro j hj
      refine ⟨_, cellAt_low false (by omega), ?_⟩
      rw [← hb.byte _ a ha j hj]
      congr 1
      omega
    refine strnlen_cells (fun j hj => ?_) ?_ (by omega)
    · obtain ⟨c, hc, hval⟩ := hbyte j (by omega)
      exact ⟨c, hc, hval ▸ getD_ne_zero (h.strings a (List.mem_of_getElem? ha)) hj⟩
    · obtain ⟨c, hc, hval⟩ := hbyte a.length (Nat.le_refl _)
      refine ⟨c, hc, hval.trans ?_⟩
      simp

/-- **`switch_user` up to `sys_execve`**: the block is in the user's page, and `argv` points to
it. -/
theorem moveArguments_spec (hz : TablesClear m) (hs : s.heap = bootHeap m)
    (h : CommandLine args)
    (hb : ArgBlock m (0x8000200000 - blockLen args) (0x200000 - blockLen args) args) :
    ∃ s' t, moveArguments args.length (0x200000 - blockLen args) s = .ok (0x201000,
      0x201000 + stringAt args 0) s' ∧
      Moved s s' args t ∧ t.addr < (argumentBlock (blockLen args)).fin + 0x1000 := by
  have hfits := h.fits
  have hge := blockLen_ge args
  have hpos : 0 < args.length := List.length_pos_of_ne_nil h.some
  have hmem : s.mem = (bootHeap m).mem := congrArg Heap.mem hs
  have hb₀ : ArgBlock s.mem (0x8000200000 - blockLen args) (0x200000 - blockLen args) args :=
      hb.copy fun i hi => by
    rw [hmem, bootHeap_frame m (by omega)]
  obtain ⟨a, hlen, hlast, hstrlen⟩ := lastString h.stackable hb₀
  have htotal : ofInt (toInt32 ((0x200000 - (a.length + 1) + a.length + 1 :
      Nat) - (0x200000 - blockLen args : Nat) : Int)) = blockLen args := by
    have hdiff : ((0x200000 - (a.length + 1) + a.length + 1 : Nat) - (0x200000 - blockLen args :
      Nat) : Int) = (blockLen args : Nat) := by omega
    rw [hdiff, toInt32_of_lt (by omega)]
    unfold ofInt
    omega
  obtain ⟨s₁, t, harea, hpage⟩ := argumentArea_spec hz hs (show blockLen args ≤ 0x4000 by omega)
  have hb₁ : ArgBlock s₁.mem (0x8000200000 - blockLen args) (0x200000 - blockLen args) args :=
    hb₀.copy fun i hi => hpage.kept _ (by omega) (by omega)
  -- the pointers
  obtain ⟨s₂, hmove, hst₂, hfds₂, hworld₂, hwords⟩ :=
    relocateFrom_spec (0x200000 - blockLen args) 0x201000 args.length 0 (s := s₁) (by omega)
  have hbase : 0x8000000000 + (0x200000 - blockLen args) = 0x8000200000 - blockLen args := by
    omega
  simp only [hbase, Nat.zero_add, Nat.mul_zero, Nat.add_zero] at hst₂ hwords
  have hb₂ : ArgBlock s₂.mem (0x8000200000 - blockLen args) 0x201000 args := by
    refine ⟨fun i hi => ?_, ?_, fun i b hb j hj => ?_⟩
    · have hat := stringAt_le args i
      rw [hwords i (Nat.zero_le i) hi, hb₁.pointer i hi]
      omega
    · rw [← hb₁.null]
      exact load64_congr fun x h₁ h₂ => hst₂.mem x (by omega)
    · have hat := stringAt_ge args i
      rw [hst₂.mem _ (by omega), hb₁.byte i b hb j hj]
  have rep₂ : KernelRep s₂.heap [t] [argumentBlock (blockLen args)] argumentLeaf :=
    hpage.rep.stores hst₂ fun x hx =>
    .inr (.inr (.inl (by omega)))
  -- the copy
  obtain ⟨-, hround, -⟩ := alignupTo_spec (blockLen args + 16)
  have hfin : (argumentBlock (blockLen args)).fin = 0x8000200ff0 + alignupTo
    (blockLen args + 16) 0x80 := rfl
  have hlow : ∀ j, 0 ≤ j → j < 0 + blockLen args →
    ∃ x, leafCell argumentLeaf false (0x200000 - blockLen args + j) = some x ∧
    ¬ (0x8000201000 + 0 ≤ x ∧ x < 0x8000201000 + 0 + blockLen args) := fun j _ hj =>
    ⟨_, leafCell_low false (by omega), by omega⟩
  have hpay : ∀ x, 0x8000201000 + 0 ≤ x → x < 0x8000201000 + 0 + blockLen args →
      Free [argumentBlock (blockLen args)] x := fun x h₁ h₂ =>
    .inl ⟨_, List.mem_cons_self, show 0x8000200ff0 + 16 ≤ x by omega, by omega⟩
  obtain ⟨s₃, hcopy, hst₃, hfds₃, hworld₃, hcopied⟩ :=
    memcpyFrom_copies (0x200000 - blockLen args) (show 0x8000000000 ≤ 0x8000201000 by decide)
    (blockLen args) 0 rep₂ (by omega) hpay hlow
  have hb₃ : ArgBlock s₃.mem 0x8000201000 0x201000 args := hb₂.copy fun i hi => by
    rw [hcopied i _ (Nat.zero_le i) (by omega) (leafCell_low false (by omega)), ← Nat.add_assoc,
      hbase]
  have hpath : peekLE (0x200000 - blockLen args) 8 s₃ =
      .ok (0x201000 + stringAt args 0) s₃ := by
    have hword : load64 s₃.mem (0x8000200000 - blockLen args) = load64 s₂.mem
      (0x8000200000 - blockLen args) := load64_congr fun x h₁ h₂ => hst₃.mem x (by omega)
    rw [peekLE_low _ _ (by omega), hbase]
    exact congrArg (fun x => EStateM.Result.ok x s₃) (hword.trans (hb₂.pointer 0 hpos))
  refine ⟨s₃, t, ?_, ⟨rep₂.stores hst₃ fun x hx => hpay x hx.1 hx.2, hb₃, ?_, ?_, ?_, ?_, ?_,
    ?_, ?_⟩, hpage.near⟩
  · rw [moveArguments, bind_of_ok hlast, bind_of_ok hstrlen]
    dsimp only
    rw [htotal, bind_of_ok harea]
    dsimp only
    rw [bind_of_ok hmove, memcpy, bind_of_ok hcopy, bind_of_ok hpath]
    rfl
  · rw [hpage.table]
    exact Nat.le_add_right _ _
  · rw [hfds₃, hfds₂, hpage.fds]
  · rw [hworld₃, hworld₂, hpage.world]
  · rw [hst₃.last, hst₂.last, hpage.last]
  · rw [hst₃.refused, hst₂.refused, hpage.refused]
  · rw [hst₃.handed, hst₂.handed, hpage.handed]
  · have hroom := hpage.room
    show 0x1f0000 ≤ s₃.heap.arena.topSize
    rw [hst₃.arena, hst₂.arena]
    exact hroom

/-! ## From power-on to `sys_execve` -/

/-- What the hypervisor writes into the stack could have been there before it built the page
tables. -/
theorem setupPaging_patch {m m' : Mem}
    (h : ∀ x, x < 0x80001fc000 ∨ 0x8000200000 ≤ x → m' x = setupPaging m x) :
    ∃ m₂, m' = setupPaging m₂ ∧ (∀ x, x < 0x80001fc000 ∨ 0x8000200000 ≤ x → m₂ x = m x) ∧
      ∀ x, 0x80001fc000 ≤ x → x < 0x8000200000 → m₂ x = m' x := by
  have hwords : ∀ m : Mem, setupPaging m = store64 (store64
    (store64 m 0x80001f7000 0x1f8007) 0x80001f8000 0x1f9007) 0x80001f9000 0x83 := fun _ => rfl
  have hstack : ∀ (m : Mem) x, 0x80001fc000 ≤ x → setupPaging m x = m x := by
    intro m x hx
    rw [hwords, store64_of_notMem (by omega), store64_of_notMem (by omega),
      store64_of_notMem (by omega)]
  have hcongr : ∀ (m₁ m₂ : Mem) x, m₁ x = m₂ x → setupPaging m₁ x = setupPaging m₂ x := by
    intro m₁ m₂ x hx
    simp only [hwords, store64, storeLE]
    split
    · rfl
    · split
      · rfl
      · split
        · rfl
        · exact hx
  refine ⟨fun x => if 0x80001fc000 ≤ x ∧ x < 0x8000200000 then m' x else m x, ?_,
    fun x hx => if_neg (by omega), fun x h₁ h₂ => if_pos ⟨h₁, h₂⟩⟩
  funext x
  by_cases hx : 0x80001fc000 ≤ x ∧ x < 0x8000200000
  · rw [hstack _ x hx.1, if_pos hx]
  · rw [h x (by omega)]
    exact hcongr m _ x (if_neg hx).symm

/-- The kernel as it calls `sys_execve` for the first time. -/
structure Prepared (w : σ) (args : List (List UInt8)) (s : Sys σ) (t : Extent) : Prop where
  rep : KernelRep s.heap [t] [argumentBlock (blockLen args)] argumentLeaf
  block : ArgBlock s.mem 0x8000201000 0x201000 args
  above : (argumentBlock (blockLen args)).fin ≤ t.addr
  fds : s.fds = FdMap.static
  world : s.world = w
  last : s.kernel.lastMmapped = minusOne
  refused : s.refused = false
  handed : s.handed = [0x8000201000]
  room : 0x1f0000 ≤ s.room

/-- **The start up to `sys_execve`** goes through for every command line that leaves the kernel
its frames. -/
theorem launch_prepared (host : Host σ) (p : Process) (w : σ) (hz : TablesClear m)
    (h : CommandLine args) :
    ∃ s t, launch host p m w args =
        sysExecve host p (0x201000 + stringAt args 0) 0x201000 (0x201000 + args.length * 8) s ∧
          Prepared w args s t ∧
      t.addr < (argumentBlock (blockLen args)).fin + 0x1000 := by
  have hfits := h.fits
  obtain ⟨hrsp, hargc, hblock, hframe⟩ := copyArgv_spec (setupPaging m) h.stackable
  obtain ⟨m₂, hm₂, hsame, hstack⟩ := setupPaging_patch hframe
  have hz₂ : TablesClear m₂ := fun x h₁ h₂ => by rw [hsame x (by omega), hz x h₁ h₂]
  have hb₂ : ArgBlock m₂ (0x8000200000 - blockLen args) (0x200000 - blockLen args) args :=
    hblock.copy fun i hi =>
    hstack _ (by omega) (by omega)
  set s₀ : Sys σ := (Sys.power (setupPaging m₂) w).setHeap (bootHeap m₂) fun x =>
    (bootHeap m₂).mem x ≠ (Sys.power (setupPaging m₂) w).mem x with hs₀
  obtain ⟨s, t, hmove, hmoved, hnear⟩ := moveArguments_spec (s := s₀) hz₂ rfl h hb₂
  refine ⟨s, t, ?_, ⟨hmoved.rep, hmoved.block, hmoved.above, hmoved.fds, hmoved.world,
    hmoved.last, hmoved.refused, hmoved.handed, hmoved.room⟩, hnear⟩
  have hread : peekLE (0x200000 - blockLen args - 8) 8 (Sys.power (setupPaging m₂) w) =
      .ok args.length (Sys.power (setupPaging m₂) w) := by
    have hcell : 0x8000000000 + (0x200000 - blockLen args - 8) =
      0x8000200000 - blockLen args - 8 := by omega
    have hmem : (Sys.power (setupPaging m₂) w).mem = setupPaging m₂ := rfl
    rw [hm₂] at hargc
    rw [peekLE_low _ _ (by omega), hcell, hmem, ← load64, hargc]
  have hinit : initAllocator (initPagetable (setupPaging m₂)) (0x200000 ||| kernelBaseOffset)
    (memSize - 0x200000) = .ok (bootHeap m₂) := rfl
  have hboot : onHeap (fun h => (initAllocator (initPagetable h.mem)
      (0x200000 ||| kernelBaseOffset) (memSize - 0x200000)).map (·, ()))
      (Sys.power (setupPaging m₂) w) = .ok () s₀ := by
    have hheap : (Sys.power (setupPaging m₂) w).heap.mem = setupPaging m₂ := rfl
    simp only [onHeap, hheap, hinit, Except.map, hs₀]
  have hargv : 0x200000 - blockLen args - 8 + 8 = 0x200000 - blockLen args := by omega
  show startKernel host p (copyArgv (setupPaging m) 0x200000 args).2
    (.power (copyArgv (setupPaging m) 0x200000 args).1 w) = _
  rw [hrsp, hm₂, startKernel, bind_of_ok hread, hargv, kernelMain, bind_of_ok hboot, switchUser,
    bind_of_ok hmove]

end BpfExamples.Kvm
