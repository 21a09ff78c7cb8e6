import BpfExamples.Kvm.KernelHeap

/-!
# `mmap`, `mprotect` and boot over the kernel's invariant

The loops of `mmap.c` as changes of the leaf words: `mapLeaves` and
`protLeaves` are what the pages of a range become, and `mmap_spec` and
`mprotect_spec` say that the code computes them, or how else it ends.
-/

namespace BpfExamples.Kvm

open Mem

variable {h h' : Heap} {blocks : List Extent} {leaf : Nat → Nat} {b : Bool}

/-! ## `mmap` -/

/-- The leaves behind `n` turns of `mmap`'s loop from byte `i` on. -/
def mapLeaves (addr ret prot : Nat) : Nat → Nat → (Nat → Nat) → Nat → Nat
  | 0, _, leaf => leaf
  | n + 1, i, leaf =>
    mapLeaves addr ret prot n (i + 0x1000)
      (Function.update leaf ((addr + i) % 2 ^ 64 / 0x1000) (leafWord (ret + i) prot))

/-- The `j`-th page of a range that starts at `addr + i`. -/
def pageAt (addr i j : Nat) : Nat := (addr + (i + 0x1000 * j)) % 2 ^ 64

theorem pageAt_zero (addr i : Nat) : pageAt addr i 0 = (addr + i) % 2 ^ 64 := rfl

theorem pageAt_succ (addr i j : Nat) : pageAt addr i (j + 1) = pageAt addr (i + 0x1000) j := by
  unfold pageAt
  congr 2
  omega

/-- All `n` pages of a range are user addresses. -/
def InUserRange (addr i n : Nat) : Prop := ∀ j, j < n → userMemRangeOk (pageAt addr i j) = true

theorem inUserRange_succ {addr i n : Nat} :
    InUserRange addr i (n + 1) ↔
      userMemRangeOk ((addr + i) % 2 ^ 64) = true ∧ InUserRange addr (i + 0x1000) n := by
  constructor
  · intro h
    refine ⟨h 0 (Nat.succ_pos n), fun j hj => ?_⟩
    rw [← pageAt_succ]
    exact h (j + 1) (Nat.succ_lt_succ hj)
  · rintro ⟨h₀, hs⟩ j hj
    cases j with
    | zero => exact h₀
    | succ j =>
      rw [pageAt_succ]
      exact hs j (Nat.lt_of_succ_lt_succ hj)

/-- **`mmap`'s loop** maps every page, stops at one outside the user range, or runs
out of memory for a table. -/
theorem mmapPages_spec (addr ret prot : Nat) :
    ∀ (n i : Nat) {h : Heap} {leaf : Nat → Nat}, KernelInv h blocks leaf b →
      (∃ h', mmapPages addr ret prot n i h = .ok h' ∧
        InUserRange addr i n ∧
        KernelInv h' blocks (mapLeaves addr ret prot n i leaf) b ∧ Kept h.mem h'.mem blocks ∧
        h.arena.topSize ≤ h'.arena.topSize + 0x61b0 * n) ∨
      (mmapPages addr ret prot n i h = .error (.panic .addTransNotAllowed) ∧
        ¬ InUserRange addr i n) ∨
      (mmapPages addr ret prot n i h = .error (.panic .physicalNonKernel) ∧
        h.arena.topSize < 0x61b0 * n)
  | 0, i, h, leaf, inv =>
    .inl ⟨h, rfl, fun j hj => absurd hj (Nat.not_lt_zero j), inv, Kept.refl _ _, Nat.le_refl _⟩
  | n + 1, i, h, leaf, inv => by
    rw [mmapPages]
    by_cases hv : userMemRangeOk ((addr + i) % 2 ^ 64) = true
    · rcases addTransUser_spec inv hv (ret + i) prot with ⟨h₁, hok, inv₁, hkept₁, hroom₁⟩ |
        ⟨herr, hroom⟩
      · rw [hok, ok_bind]
        rcases mmapPages_spec addr ret prot n (i + 0x1000) inv₁ with
          ⟨h₂, hok₂, hall, inv₂, hkept₂, hroom₂⟩ | ⟨herr, hall⟩ | ⟨herr, hroom⟩
        · refine .inl ⟨h₂, hok₂, inUserRange_succ.mpr ⟨hv, hall⟩, inv₂, hkept₁.trans hkept₂, ?_⟩
          calc h.arena.topSize ≤ h₁.arena.topSize + 0x61b0 := hroom₁
            _ ≤ h₂.arena.topSize + 0x61b0 * n + 0x61b0 := Nat.add_le_add_right hroom₂ _
            _ = h₂.arena.topSize + 0x61b0 * (n + 1) := by rw [Nat.mul_succ, Nat.add_assoc]
        · exact .inr (.inl ⟨herr, fun h => hall (inUserRange_succ.mp h).2⟩)
        · exact .inr (.inr ⟨herr, by omega⟩)
      · exact .inr (.inr ⟨by rw [herr, error_bind], by omega⟩)
    · have herr : addTransUser h ((addr + i) % 2 ^ 64) (ret + i) prot =
          .error (.panic .addTransNotAllowed) := by
        rw [addTransUser, Bool.not_eq_true _ |>.mp hv]
        rfl
      exact .inr (.inl ⟨by rw [herr, error_bind], fun h => hv (inUserRange_succ.mp h).1⟩)

/-- The address `mmap` works on: the caller's, or the next one down from the last. -/
def mmapAddr (last addr len : Nat) : Nat :=
  if addr = 0 then ((if last = minusOne then 0x7ffff7fff000 else last) + 2 ^ 64 - len) % 2 ^ 64
    else addr

/-- `last_mmapped` afterwards. -/
def mmapLast (last addr len : Nat) : Nat :=
  if addr = 0 then mmapAddr last addr len else if last = minusOne then 0x7ffff7fff000 else last

/-- What an `mmap` that returns an address has done. -/
structure Mapped (k k' : Kernel) (blocks : List Extent) (leaf : Nat → Nat) (addr len prot : Nat)
    (c : Extent) (intact : Bool := true) : Prop where
  allowed : InUserRange (mmapAddr k.lastMmapped addr len) 0 (len / 0x1000)
  inv : KernelInv k'.heap (c :: blocks)
    (mapLeaves (mmapAddr k.lastMmapped addr len)
      (c.addr + 16) prot (len / 0x1000) 0 leaf) intact
  fits : len + 16 ≤ c.size
  tight : c.size < len + 16 + 0x80
  aligned : (c.addr + 16) % 0x1000 = 0
  zero : ∀ a, c.addr + 16 ≤ a → a < c.addr + 16 + len → k'.heap.mem a = 0
  kept : Kept k.heap.mem k'.heap.mem blocks
  last : k'.lastMmapped = mmapLast k.lastMmapped addr len
  room : k.heap.arena.topSize ≤ k'.heap.arena.topSize + len + 0x1090 + 0x61b0 * (len / 0x1000)
  block : ∃ h, kmalloc kernelSpace k.heap len mallocPageAlign = .ok (h, c.addr + 16)

/-- **`mmap`**, in every way it can end. -/
theorem mmap_spec {k : Kernel} (inv : KernelInv k.heap blocks leaf b) (addr prot : Nat)
    {len : Nat} (hlen : 0 < len) (hpage : len % 0x1000 = 0) :
    (∃ k' c, mmap k addr len prot = .ok (k', mmapAddr k.lastMmapped addr len) ∧
      Mapped k k' blocks leaf addr len prot c b) ∨
    (mmap k addr len prot = .error (.panic .addTransNotAllowed) ∧
      ¬ InUserRange (mmapAddr k.lastMmapped addr len) 0 (len / 0x1000)) ∨
    (mmap k addr len prot = .error (.panic .physicalNonKernel) ∧
      k.heap.arena.topSize < len + 0x1090 + 0x61b0 * (len / 0x1000)) ∨
    (2 ^ 32 ≤ len ∧ mmap k addr len prot = .ok (k, 0)) ∨
    (len ≤ 0x200000 ∧ ¬ RoomOnPage k.heap (chunkSize len) ∧
      ∃ h', mmap k addr len prot = .ok ({ k with heap := h' }, 0) ∧ Declined k.heap h' len) ∨
    (0x200000 < len ∧ len < 2 ^ 32 ∧ k.heap.arena.topSize < len + 0x1090 ∧
      mmap k addr len prot = .error .fault) := by
  have hand : len &&& 0xfff = len % 0x1000 := Nat.and_two_pow_sub_one_eq_mod len 12
  have hgood : ¬ (len = 0 ∨ len &&& 0xfff ≠ 0) := by omega
  rw [mmap, if_neg hgood]
  obtain ⟨tabs, rep⟩ := inv.rep
  rcases rep.kmalloc len (.inr rfl) with ⟨h₁, c, hok, hs⟩ | ⟨hbig, hok⟩ | ⟨hle, h', hok, hd⟩ |
    ⟨hgt, hlt, hroom, -, herr⟩
  · have hne : c.addr + 16 ≠ 0 := by omega
    have hlast : (if addr = 0 then
          (((if k.lastMmapped = minusOne then 0x7ffff7fff000
            else k.lastMmapped) + 2 ^ 64 - len) % 2 ^ 64, ((if k.lastMmapped = minusOne then
            0x7ffff7fff000 else k.lastMmapped) + 2 ^ 64 - len) % 2 ^ 64)
        else (if k.lastMmapped = minusOne then 0x7ffff7fff000 else k.lastMmapped, addr)) =
        (mmapLast k.lastMmapped addr len, mmapAddr k.lastMmapped addr len) := by
      unfold mmapLast mmapAddr
      by_cases ha : addr = 0 <;> simp only [ha, if_true, if_false]
    rw [hok, ok_bind]
    simp only [hne, if_false, hlast]
    rcases mmapPages_spec (mmapAddr k.lastMmapped addr len)
      (c.addr + 16) prot (len / 0x1000) 0 hs.rep.inv with
      ⟨h₂, hok₂, hall, inv₂, hkept₂, hroom₂⟩ | ⟨herr, hall⟩ | ⟨herr, hroom⟩
    · have hr := hs.room
      refine .inl ⟨⟨h₂, mmapLast k.lastMmapped addr len⟩,
        c, by rw [hok₂]; rfl, hall, inv₂, hs.fits, hs.tight, hs.aligned rfl, fun a h₁ h₂ => ?_,
        ⟨fun e he a ha => ?_, fun a h₁ h₂ => ?_⟩, rfl, ?_, h₁, hok⟩
      · have hf := hs.fits
        rw [hkept₂.blocks c List.mem_cons_self a ⟨by omega, by unfold Extent.fin; omega⟩]
        exact hs.zero a h₁ h₂
      · exact (hkept₂.blocks e (List.mem_cons_of_mem _ he) a ha).trans
          (hs.untouched.kept.blocks e he a ha)
      · exact (hkept₂.outside a h₁ h₂).trans (hs.untouched.outside a h₂)
      · show k.heap.arena.topSize ≤ h₂.arena.topSize + _ + _ + _
        omega
    · exact .inr (.inl ⟨by rw [herr]; rfl, hall⟩)
    · have hr := hs.room
      exact .inr (.inr (.inl ⟨by rw [herr]; rfl, by omega⟩))
  · exact .inr (.inr (.inr (.inl ⟨hbig, by rw [hok]; rfl⟩)))
  · have hfull : ¬ Room k.heap len mallocPageAlign := rep.not_room (.inr rfl) (by omega) hok
    rw [Room, if_neg (by decide)] at hfull
    exact .inr (.inr (.inr (.inr (.inl ⟨hle, hfull, h', by rw [hok]; rfl, hd⟩))))
  · exact .inr (.inr (.inr (.inr (.inr ⟨hgt, hlt, hroom, by rw [herr]; rfl⟩))))

/-- Where there is no room for the pages, none are mapped. -/
theorem mmap_noRoom {k : Kernel} (inv : KernelInv k.heap blocks leaf b) (addr prot : Nat)
    {len : Nat} (hlen : 0 < len) (hpage : len % 0x1000 = 0) (hle : len ≤ 0x200000)
    (hfull : ¬ RoomOnPage k.heap (chunkSize len)) :
    ∃ h', mmap k addr len prot = .ok ({ k with heap := h' }, 0) ∧ Declined k.heap h' len := by
  have hand : len &&& 0xfff = len % 0x1000 := Nat.and_two_pow_sub_one_eq_mod len 12
  have hgood : ¬ (len = 0 ∨ len &&& 0xfff ≠ 0) := by omega
  have hroom : ¬ Room k.heap len mallocPageAlign := by rwa [Room, if_neg (by decide)]
  obtain ⟨tabs, bin, T, pinv, hleaf⟩ := inv.rep
  rw [mmap, if_neg hgood]
  rcases kmalloc_machine len pinv.heap (.inr rfl) with ⟨h', c, bin', hok, -⟩ | ⟨hbig, -⟩ |
    ⟨-, h', hok, hd⟩ | ⟨hgt, -⟩
  · refine absurd
      ((pinv.heap.kmalloc_served_iff isolated_kernelSpan (.inr rfl) (by omega)).mp ?_) hroom
    exact ⟨h', _, hok, Nat.succ_ne_zero _⟩
  · omega
  · exact ⟨h', by rw [hok]; rfl, hd⟩
  · omega

/-- Any other length ends in the panic. -/
theorem mmap_badLength (k : Kernel) (addr prot : Nat) {len : Nat}
    (h : len = 0 ∨ len % 0x1000 ≠ 0) : mmap k addr len prot = .error (.panic .mmapLength) := by
  have hand : len &&& 0xfff = len % 0x1000 := Nat.and_two_pow_sub_one_eq_mod len 12
  exact if_pos (by rw [hand]; exact h)

/-! ## `mprotect` -/

/-- The leaves behind `n` turns of `mprotect`'s loop from byte `i` on. -/
def protLeaves (addr prot : Nat) : Nat → Nat → (Nat → Nat) → Nat → Nat
  | 0, _, leaf => leaf
  | n + 1, i, leaf =>
    let q := (addr + i) % 2 ^ 64 / 0x1000
    protLeaves addr prot n (i + 0x1000) (Function.update leaf q (leafModified (leaf q) prot))

/-- Page `q` is among the `n` pages of a range. -/
def AmongPages (addr i n q : Nat) : Prop := ∃ j, j < n ∧ q = pageAt addr i j / 0x1000

theorem amongPages_succ {addr i n q : Nat} :
    AmongPages addr i (n + 1) q ↔ q = (addr + i) % 2 ^ 64 / 0x1000 ∨
      AmongPages addr (i + 0x1000) n q := by
  constructor
  · rintro ⟨j, hj, hq⟩
    cases j with
    | zero => exact .inl hq
    | succ j =>
      rw [pageAt_succ] at hq
      exact .inr ⟨j, Nat.lt_of_succ_lt_succ hj, hq⟩
  · rintro (hq | ⟨j, hj, hq⟩)
    · exact ⟨0, Nat.succ_pos n, hq⟩
    · exact ⟨j + 1, Nat.succ_lt_succ hj, by rw [pageAt_succ]; exact hq⟩

/-- A page outside the range keeps its leaf. -/
theorem protLeaves_of_not {addr prot q : Nat} :
    ∀ {n i : Nat} {leaf : Nat → Nat}, ¬ AmongPages addr i n q →
      protLeaves addr prot n i leaf q = leaf q
  | 0, _, _, _ => rfl
  | n + 1, i, leaf, hq => by
    rw [amongPages_succ, not_or] at hq
    rw [protLeaves, protLeaves_of_not hq.2, Function.update_of_ne hq.1]

/-- A page of the range has its permissions changed, once or more often: that makes no
difference. -/
theorem protLeaves_of_among {addr prot q : Nat} :
    ∀ {n i : Nat} {leaf : Nat → Nat}, leaf q < 2 ^ 64 → AmongPages addr i n q →
      protLeaves addr prot n i leaf q = leafModified (leaf q) prot
  | 0, _, _, _, ⟨j, hj, _⟩ => absurd hj (Nat.not_lt_zero j)
  | n + 1, i, leaf, hlt, hq => by
    rw [protLeaves]
    by_cases hlater : AmongPages addr (i + 0x1000) n q
    · by_cases hnow : q = (addr + i) % 2 ^ 64 / 0x1000
      · rw [← hnow, protLeaves_of_among
          (by rw [Function.update_self]; exact leafModified_lt hlt prot) hlater,
          Function.update_self, leafModified_idem hlt]
      · have hsame := Function.update_of_ne hnow
          (leafModified (leaf ((addr + i) % 2 ^ 64 / 0x1000)) prot) leaf
        rw [protLeaves_of_among (by rw [hsame]; exact hlt) hlater, hsame]
    · obtain rfl := (amongPages_succ.mp hq).resolve_right hlater
      rw [protLeaves_of_not hlater, Function.update_self]

/-- A page that `mprotect` may change: a user page that is present. -/
def Present (leaf : Nat → Nat) (v : Nat) : Prop :=
  userMemRangeOk v = true ∧ leaf (v / 0x1000) % 2 = 1

theorem withProt_mod_two (e prot : Nat) : withProt e prot % 2 = e % 2 := by
  have huser : ∀ e : Nat, (e ||| pde64User) % 2 = e % 2 := fun e => by
    have := Nat.or_mod_two_pow (a := e) (b := pde64User) (n := 1)
    simpa [pde64User] using this
  have hrw : ∀ e : Nat, (e ||| pde64RW) % 2 = e % 2 := fun e => by
    have := Nat.or_mod_two_pow (a := e) (b := pde64RW) (n := 1)
    simpa [pde64RW] using this
  unfold withProt
  split <;> split <;> simp [huser, hrw]

/-- Changing permissions does not make a page appear or vanish. -/
theorem leafModified_mod_two (e prot : Nat) : leafModified e prot % 2 = e % 2 := by
  rw [leafModified, withProt_mod_two]
  have h := Nat.and_mod_two_pow (a := e) (b := (2 ^ 64 - 1) ^^^ (pde64User ||| pde64RW))
    (n := 1)
  simpa [dropProt, pde64User, pde64RW] using h

theorem present_update {leaf : Nat → Nat} {q prot v : Nat} :
    Present (Function.update leaf q (leafModified (leaf q) prot)) v ↔ Present leaf v := by
  unfold Present
  by_cases hq : v / 0x1000 = q
  · rw [hq, Function.update_self, leafModified_mod_two]
  · rw [Function.update_of_ne hq]

/-- **`mprotect`'s loop** changes the pages up to the first that is not present. -/
theorem mprotectPages_spec (addr prot : Nat) :
    ∀ (n i : Nat) {h : Heap} {leaf : Nat → Nat}, KernelInv h blocks leaf b →
      ∃ m ret j, mprotectPages addr prot n i h.mem = (m, ret) ∧
        KernelInv { h with mem := m } blocks (protLeaves addr prot j i leaf) b ∧
        Kept h.mem m blocks ∧
        (ret = 0 ∧ j = n ∧ (∀ j, j < n → Present leaf (pageAt addr i j)) ∨
          ret = -eACCES ∧ ¬ ∀ j, j < n → Present leaf (pageAt addr i j))
  | 0, i, h, leaf, inv =>
    ⟨h.mem, 0, 0, rfl, inv, Kept.refl _ _,
      .inl ⟨rfl, rfl, fun j hj => absurd hj (Nat.not_lt_zero j)⟩⟩
  | n + 1, i, h, leaf, inv => by
    rw [mprotectPages]
    by_cases hv : userMemRangeOk ((addr + i) % 2 ^ 64) = true
    · have hout := outside_of_userMemRangeOk hv
      by_cases hp : leaf ((addr + i) % 2 ^ 64 / 0x1000) % 2 = 1
      · obtain ⟨m, hok, inv₁, hkept₁⟩ := modifyPermission_spec inv hout prot hp
        obtain ⟨m', ret, j, heq, inv₂, hkept₂, hret⟩ :=
          mprotectPages_spec addr prot n (i + 0x1000) inv₁
        simp only [hv, Bool.not_true, Bool.false_eq_true, if_false, hok]
        refine ⟨m', ret, j + 1, heq, inv₂, hkept₁.trans hkept₂, ?_⟩
        rcases hret with ⟨rfl, rfl, hall⟩ | ⟨rfl, hnot⟩
        · refine .inl ⟨rfl, rfl, fun j' hj' => ?_⟩
          cases j' with
          | zero => exact ⟨hv, hp⟩
          | succ j' =>
            rw [pageAt_succ]
            exact present_update.mp (hall j' (Nat.lt_of_succ_lt_succ hj'))
        · refine .inr ⟨rfl, fun hall => hnot fun j' hj' => ?_⟩
          rw [present_update, ← pageAt_succ]
          exact hall (j' + 1) (Nat.succ_lt_succ hj')
      · have hnone := modifyPermission_absent inv hout prot hp
        simp only [hv, Bool.not_true, Bool.false_eq_true, if_false, hnone]
        exact ⟨h.mem, _, 0, rfl, inv, Kept.refl _ _,
          .inr ⟨rfl, fun hall => hp (hall 0 (Nat.succ_pos n)).2⟩⟩
    · have hv' := (Bool.not_eq_true _).mp hv
      simp only [hv', Bool.not_false, if_true]
      exact ⟨h.mem, _, 0, rfl, inv, Kept.refl _ _,
        .inr ⟨rfl, fun hall => hv (hall 0 (Nat.succ_pos n)).1⟩⟩

/-- **`mprotect`.** -/
theorem mprotect_spec {k : Kernel} (inv : KernelInv k.heap blocks leaf b)
    (addr len prot : Nat) :
    ∃ m ret leaf', mprotect k addr len prot = ({ k with heap := { k.heap with mem := m } },
      ret) ∧
      KernelInv { k.heap with mem := m } blocks leaf' b ∧ Kept k.heap.mem m blocks ∧
      (addr % 0x1000 = 0 →
        (ret = 0 ↔ ∀ j, j < (len + 0xfff) / 0x1000 → Present leaf (pageAt addr 0 j)) ∧
        (ret = 0 → leaf' = protLeaves addr prot ((len + 0xfff) / 0x1000) 0 leaf)) := by
  rw [mprotect]
  by_cases hal : addr % 0x1000 = 0
  · have hok : alignok addr = true := by
      simp [alignok, aligndown, hal]
    obtain ⟨m, ret, j, heq, inv', hkept, hret⟩ :=
      mprotectPages_spec addr prot ((len + 0xfff) / 0x1000) 0 inv
    simp only [hok, Bool.not_true, Bool.false_eq_true, if_false, heq]
    refine ⟨m, ret, _, rfl, inv', hkept, fun _ => ?_⟩
    rcases hret with ⟨rfl, rfl, hall⟩ | ⟨rfl, hnot⟩
    · exact ⟨⟨fun _ => hall, fun _ => rfl⟩, fun _ => rfl⟩
    · exact ⟨⟨fun h => absurd h (by decide), fun hall => absurd hall hnot⟩,
        fun h => absurd h (by decide)⟩
  · have hbad : alignok addr = false := by
      simp only [alignok, aligndown, beq_eq_false_iff_ne, ne_eq]
      omega
    simp only [hbad, Bool.not_false, if_true]
    exact ⟨k.heap.mem, _, leaf, rfl, inv, Kept.refl _ _, fun h => absurd h hal⟩

end BpfExamples.Kvm
