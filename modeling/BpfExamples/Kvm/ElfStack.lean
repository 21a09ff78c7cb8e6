import BpfExamples.Kvm.Access
import BpfExamples.Kvm.CommandLine

/-!
# Building the program's stack (`kernel/syscalls/sys_execve.c`)

`create_elf_info` copies the strings of two arrays below the stack pointer that `load_binary`
has left, keeps their new addresses in a block of its own, and pushes these below the strings.
Where everything goes is known from the strings alone (`pushedAt`, `stackWord`).

- `Desk`: the cells it works on, the stack's and those of the block;
- `Pushed.pushStrings`: one of the two loops over the strings;
- `Desk.pushWords`: the loop over the pointers;
- `pushElfInfo_spec`: all of it, whether there is a block or not.
-/

namespace BpfExamples.Kvm

open Mem

variable {σ : Type} {s s₁ s' : Sys σ} {m m' : Mem} {tabs used blocks : List Extent}
  {leaf : Nat → Nat} {st : Extent} {all args envs : List (List UInt8)} {a : List UInt8}
  {cp cc n : Nat}

/-! ## Where things go -/

/-- The address of string `i` on the stack; the first strings are pushed last. -/
def pushedAt (all : List (List UInt8)) (i : Nat) : Nat :=
  0x7fffffffe000 - stringsLen (all.drop i)

theorem pushedAt_succ {i : Nat} (h : all[i]? = some a) (hfits : stringsLen all ≤ 0x3f000) :
    pushedAt all i + (a.length + 1) = pushedAt all (i + 1) := by
  have h₁ := stringsLen_drop_eq h
  have h₂ := stringsLen_drop all i
  unfold pushedAt
  omega

theorem pushedAt_le (all : List (List UInt8)) (i : Nat) : pushedAt all i ≤ 0x7fffffffe000 :=
  Nat.sub_le _ _

theorem pushedAt_ge (hfits : stringsLen all ≤ 0x3f000) (i : Nat) :
    0x7ffffffbf000 ≤ pushedAt all i := by
  have h := stringsLen_drop all i
  unfold pushedAt
  omega

theorem pushedAt_length (all : List (List UInt8)) :
    pushedAt all all.length = 0x7fffffffe000 := by
  rw [pushedAt, List.drop_length]
  rfl

/-- Later strings are further up. -/
theorem pushedAt_mono (all : List (List UInt8)) {i j : Nat} (hij : i ≤ j) :
    pushedAt all i ≤ pushedAt all j := by
  have h := stringsLen_drop (all.drop i) (j - i)
  rw [List.drop_drop, show i + (j - i) = j by omega] at h
  unfold pushedAt
  omega

/-- The place of string `i` among the pointers: a null pointer comes between the arrays. -/
def copySlot (argc i : Nat) : Nat := if i < argc then i else i + 1

theorem copySlot_inj {argc i j : Nat} (h : copySlot argc i = copySlot argc j) : i = j := by
  unfold copySlot at h
  split at h <;> split at h <;> omega

/-- The pointers, with the null pointers behind both arrays. -/
def stackWord (args envs : List (List UInt8)) (j : Nat) : Nat :=
  if j < args.length then pushedAt (args ++ envs) j
  else if args.length < j ∧ j ≤ args.length + envs.length then pushedAt (args ++ envs) (j - 1)
  else 0

/-! ## What the arrays hold -/

/-- The word `x`, for a reader who sees the byte `b` at `v` where `H v b`. -/
def ShowsWord (H : Nat → UInt8 → Prop) (v x : Nat) : Prop :=
  x < 2 ^ 64 ∧ ∀ j, j < 8 → H (v + j) (UInt8.ofNat (x / 256 ^ j))

/-- The string `a` with its zero. -/
def ShowsString (H : Nat → UInt8 → Prop) (v : Nat) (a : List UInt8) : Prop :=
  ∀ j b, (a ++ [0])[j]? = some b → H (v + j) b

/-- An array of pointers to the strings `l`, with a null pointer at its end. -/
structure ShowsArray (H : Nat → UInt8 → Prop) (ary : Nat) (l : List (List UInt8)) : Prop where
  entry : ∀ i a, l[i]? = some a → 0 ∉ a ∧ ∃ p, p ≠ 0 ∧ ShowsWord H (ary + 8 * i) p ∧
    ShowsString H p a
  null : ShowsWord H (ary + 8 * l.length) 0

section

variable {H H' : Nat → UInt8 → Prop} (hH : ∀ v b, H v b → H' v b)

include hH

theorem ShowsWord.mono {v x : Nat} (h : ShowsWord H v x) : ShowsWord H' v x :=
  ⟨h.1, fun j hj => hH _ _ (h.2 j hj)⟩

theorem ShowsString.mono {v : Nat} (h : ShowsString H v a) : ShowsString H' v a :=
  fun j b hb => hH _ _ (h j b hb)

theorem ShowsArray.mono {ary : Nat} {l : List (List UInt8)} (h : ShowsArray H ary l) :
    ShowsArray H' ary l := by
  refine ⟨fun i a ha => ?_, h.null.mono hH⟩
  obtain ⟨hnz, p, hp, hword, hstr⟩ := h.entry i a ha
  exact ⟨hnz, p, hp, hword.mono hH, hstr.mono hH⟩

end

/-- The kernel sees the byte `b` at `v`, and it is in one of the blocks. -/
def Holds (leaf : Nat → Nat) (blocks : List Extent) (m : Mem) (v : Nat) (b : UInt8) : Prop :=
  ∃ x, leafCell leaf false v = some x ∧ Payload blocks x ∧ m x = b

theorem Holds.frame (hm : ∀ x, Payload blocks x → m' x = m x) (v : Nat) (b : UInt8)
    (h : Holds leaf blocks m v b) : Holds leaf blocks m' v b := by
  obtain ⟨x, hx, hpay, hb⟩ := h
  exact ⟨x, hx, hpay, (hm x hpay).trans hb⟩

/-- The kernel reads it. -/
theorem Holds.cell {v : Nat} {b : UInt8} (h : Holds leaf blocks s.mem v b)
    (inv : KernelInv s.heap used leaf) : ∃ c, cellAt s.mem false v = some c ∧ s.mem c = b := by
  obtain ⟨x, hx, -, hb⟩ := h
  exact ⟨x, (inv.cellAt_eq false v).trans hx, hb⟩

/-- A word, byte by byte. -/
theorem peekLE_bytes (n : Nat) : ∀ (v x : Nat), x < 256 ^ n →
    (∀ j, j < n → ∃ c, cellAt s.mem false (v + j) = some c ∧
      s.mem c = UInt8.ofNat (x / 256 ^ j)) →
    peekLE v n s = .ok x s := by
  induction n with
  | zero =>
    intro v x hx _
    obtain rfl : x = 0 := by omega
    rfl
  | succ n ih =>
    intro v x hx hcell
    obtain ⟨c, hc, hb⟩ := hcell 0 (Nat.succ_pos n)
    have hc : cellAt s.mem false v = some c := hc
    have hrest := ih (v + 1) (x / 256) (by rw [Nat.pow_succ] at hx; omega) fun j hj => by
      obtain ⟨c, hc, hb⟩ := hcell (j + 1) (by omega)
      refine ⟨c, by rwa [Nat.add_right_comm v 1 j], ?_⟩
      rw [hb, Nat.div_div_eq_div_mul, ← Nat.pow_succ']
    rw [Nat.pow_zero, Nat.div_one] at hb
    have hfirst : (UInt8.ofNat x).toNat + 256 * (x / 256) = x := by
      rw [UInt8.toNat_ofNat']
      omega
    rw [peekLE, bind_of_ok (peek_of_cell hc), bind_of_ok hrest, hb]
    show EStateM.Result.ok _ s = _
    rw [hfirst]

theorem ShowsWord.peekLE {v x : Nat} (h : ShowsWord (Holds leaf blocks s.mem) v x)
    (inv : KernelInv s.heap used leaf) : peekLE v 8 s = .ok x s :=
  peekLE_bytes 8 v x h.1 fun j hj => (h.2 j hj).cell inv

theorem ShowsString.byte {H : Nat → UInt8 → Prop} {v : Nat} (h : ShowsString H v a) {j : Nat}
    (hj : j < a.length) : H (v + j) (a.getD j 0) := by
  refine h j _ ?_
  rw [List.getElem?_append_left hj, List.getD_eq_getElem?_getD, List.getElem?_eq_getElem hj]
  rfl

theorem ShowsString.zero {H : Nat → UInt8 → Prop} {v : Nat} (h : ShowsString H v a) :
    H (v + a.length) 0 :=
  h _ 0 (by simp)

theorem ShowsString.strlen {v : Nat} (h : ShowsString (Holds leaf blocks s.mem) v a)
    (hnz : 0 ∉ a) (hlen : a.length < 2 ^ 62) (inv : KernelInv s.heap used leaf) :
    strlen v s = .ok a.length s := by
  refine strnlen_cells (fun j hj => ?_) (h.zero.cell inv) (by omega)
  obtain ⟨c, hc, hb⟩ := (h.byte hj).cell inv
  exact ⟨c, hc, hb ▸ getD_ne_zero hnz hj⟩

/-- A word stored to cells that follow one another. -/
theorem KernelRep.pokeLE (rep : KernelRep s.heap tabs used leaf) {v c k : Nat} (x : Nat)
    (hcell : ∀ j, j < k → leafCell leaf true (v + j) = some (c + j))
    (hfree : ∀ j, j < k → Free used (c + j)) :
    ∃ s', pokeLE v k x s = .ok () s' ∧ KernelRep s'.heap tabs used leaf ∧
      s'.mem = storeLE s.mem c k x ∧
      Stores (fun y => c ≤ y ∧ y < c + k) s s' := by
  have hst : Stores (fun y => c ≤ y ∧ y < c + k) s (s.setMem (storeLE s.mem c k x) fun y =>
    c ≤ y ∧ y < c + k) := stores_setMem fun y hy => storeLE_of_notMem (by omega)
  have hfree' : ∀ y, c ≤ y ∧ y < c + k → Free used y := by
    rintro y ⟨h₁, h₂⟩
    obtain ⟨j, rfl⟩ : ∃ j, y = c + j := ⟨y - c, by omega⟩
    exact hfree j (by omega)
  refine ⟨_, pokeLE_cells (P := fun m => KernelRep { s.heap with mem := m } tabs used leaf) k v
    c x rep ?_ ?_, rep.stores hst hfree', rfl, hst⟩
  · intro m hm j hj
    exact (hm.inv.cellAt_eq true (v + j)).trans (hcell j hj)
  · intro m j b hm hj
    refine hm.write fun y hy => Function.update_of_ne ?_ _ _
    rintro rfl
    exact hy (hfree j hj)

/-! ## The cells that are worked on -/

/-- The cell behind an address of the stack, whose block is `st`. -/
def stackCell (st : Extent) (v : Nat) : Nat := st.addr + 16 + (v - 0x7ffffffbf000)

theorem stackCell_add {v : Nat} (hv : 0x7ffffffbf000 ≤ v) (j : Nat) :
    stackCell st (v + j) = stackCell st v + j := by
  unfold stackCell
  omega

/-- The cells behind the addresses from `lo` to `hi`. -/
def StackCells (st : Extent) (lo hi x : Nat) : Prop := stackCell st lo ≤ x ∧ x < stackCell st hi

theorem stackCell_le (st : Extent) {v v' : Nat} (h : v ≤ v') :
    stackCell st v ≤ stackCell st v' :=
  Nat.add_le_add_left (Nat.sub_le_sub_right h _) _

theorem StackCells.mono {lo hi lo' hi' x : Nat} (h : StackCells st lo hi x) (h₁ : lo' ≤ lo)
    (h₂ : hi ≤ hi') : StackCells st lo' hi' x :=
  ⟨Nat.le_trans (stackCell_le st h₁) h.1, Nat.lt_of_lt_of_le h.2 (stackCell_le st h₂)⟩

theorem StackCells.bounds {lo hi x : Nat} (h : StackCells st lo hi x)
    (h₁ : hi ≤ 0x7ffffffff000) : st.addr + 16 ≤ x ∧ x < st.addr + 16 + 0x40000 := by
  unfold StackCells stackCell at h
  omega

/-- The pages of the stack lead into the block `st`. -/
structure StackIn (leaf : Nat → Nat) (st : Extent) : Prop where
  cell : ∀ v w, 0x7ffffffbf000 ≤ v → v < 0x7ffffffff000 →
    leafCell leaf w v = some (stackCell st v)
  size : 0x40010 ≤ st.size

theorem StackIn.free (S : StackIn leaf st) (hst : st ∈ used) {v : Nat} (h₁ : 0x7ffffffbf000 ≤ v)
    (h₂ : v < 0x7ffffffff000) : Free used (stackCell st v) := by
  have hsize := S.size
  refine .inl ⟨st, hst, Nat.le_add_right _ _, ?_⟩
  unfold stackCell Extent.fin
  omega

theorem StackIn.poke (S : StackIn leaf st) (hst : st ∈ used)
    (rep : KernelRep s.heap tabs used leaf) {v : Nat} (h₁ : 0x7ffffffbf000 ≤ v)
    (h₂ : v + 8 ≤ 0x7ffffffff000) (x : Nat) :
    ∃ s', pokeLE v 8 x s = .ok () s' ∧ KernelRep s'.heap tabs used leaf ∧
      s'.mem = store64 s.mem (stackCell st v) x ∧ Stores (StackCells st v (v + 8)) s s' := by
  obtain ⟨s', hrun, rep', hmem, hst⟩ := rep.pokeLE (v := v) (c := stackCell st v) (k := 8) x
    (fun i hi => by rw [← stackCell_add h₁]; exact S.cell (v + i) true (by omega) (by omega))
    fun i hi => by rw [← stackCell_add h₁]; exact S.free hst (by omega) (by omega)
  refine ⟨s', hrun, rep', hmem, hst.mono fun y hy => ⟨hy.1, ?_⟩⟩
  rw [stackCell_add h₁]
  exact hy.2

/-- The stack is in the block `st`, and the `n` words at `cp` are in the cells from `cc` on. The
`blocks` are other memory. -/
structure Desk (leaf : Nat → Nat) (used blocks : List Extent) (st : Extent) (cp cc n : Nat) :
    Prop where
  stack : StackIn leaf st
  mine : st ∈ used
  copy : ∀ j w, j < 8 * n → leafCell leaf w (cp + j) = some (cc + j)
  copyFree : ∀ j, j < 8 * n → Free used (cc + j)
  apart : st.addr + 16 + 0x40000 ≤ cc ∨ cc + 8 * n ≤ st.addr + 16
  others : ∀ x, Payload blocks x → (x < cc ∨ cc + 8 * n ≤ x) ∧
    (x < st.addr + 16 ∨ st.addr + 16 + 0x40000 ≤ x)

namespace Desk

theorem peek_copy (D : Desk leaf used blocks st cp cc n) (inv : KernelInv s.heap used leaf)
    {j : Nat} (hj : j < n) : peekLE (cp + 8 * j) 8 s = .ok (load64 s.mem (cc + 8 * j)) s :=
  peekLE_cells 8 _ _ fun i hi => by
    rw [Nat.add_assoc, Nat.add_assoc]
    exact (inv.cellAt_eq false _).trans (D.copy (8 * j + i) false (by omega))

theorem poke_copy (D : Desk leaf used blocks st cp cc n) (rep : KernelRep s.heap tabs used leaf)
    {j : Nat} (hj : j < n) (x : Nat) :
    ∃ s', pokeLE (cp + 8 * j) 8 x s = .ok () s' ∧ KernelRep s'.heap tabs used leaf ∧
      s'.mem = store64 s.mem (cc + 8 * j) x ∧
        Stores (fun y => cc + 8 * j ≤ y ∧ y < cc + 8 * j + 8) s s' := by
  refine rep.pokeLE x (fun i hi => ?_) fun i hi => ?_
  · rw [Nat.add_assoc, Nat.add_assoc]
    exact D.copy (8 * j + i) true (by omega)
  · rw [Nat.add_assoc]
    exact D.copyFree (8 * j + i) (by omega)

/-- **One string**: its copy is on the stack, and its address among the pointers. -/
theorem pushString (D : Desk leaf used blocks st cp cc n)
    (rep : KernelRep s.heap tabs used leaf) {ary i j p : Nat} (rsp : Nat)
    (hword : ShowsWord (Holds leaf blocks s.mem) (ary + 8 * i) p)
    (hstr : ShowsString (Holds leaf blocks s.mem) p a) (hnz : 0 ∉ a) (hj : j < n)
    (hlow : 0x7ffffffbf000 + (a.length + 1) ≤ rsp) (hhigh : rsp ≤ 0x7ffffffff000) :
    ∃ s', Kvm.pushString cp ary j i rsp s = .ok (rsp - (a.length + 1)) s' ∧
      KernelRep s'.heap tabs used leaf ∧
      Stores (fun x => (cc + 8 * j ≤ x ∧ x < cc + 8 * j + 8) ∨
        StackCells st (rsp - (a.length + 1)) rsp x) s s' ∧
      load64 s'.mem (cc + 8 * j) = rsp - (a.length + 1) ∧
      ∀ k b, (a ++ [0])[k]? = some b →
        s'.mem (stackCell st (rsp - (a.length + 1) + k)) = b := by
  obtain ⟨dst, hdst⟩ : ∃ dst, dst = rsp - (a.length + 1) := ⟨_, rfl⟩
  have hrsp : dst + (a.length + 1) = rsp := by omega
  have halloc : stackAlloc rsp (a.length + 1) = dst := by
    unfold stackAlloc
    omega
  have hlen := hstr.strlen hnz (by omega) rep.inv
  -- the pointer
  obtain ⟨s₁, hpoke, rep₁, hmem₁, hst₁⟩ := D.poke_copy rep hj dst
  have hsame₁ : ∀ x, Payload blocks x → s₁.mem x = s.mem x := fun x hx => by
    have := (D.others x hx).1
    exact hst₁.mem x (by omega)
  have hback : load64 s₁.mem (cc + 8 * j) = dst := by
    rw [hmem₁, load64_store64_of_lt (by omega)]
  have hpeek := D.peek_copy rep₁.inv hj
  rw [hback] at hpeek
  -- the bytes
  have hsrc : ∀ k, k < a.length + 1 → ∃ x, leafCell leaf false (p + k) = some x ∧
      Payload blocks x ∧ s₁.mem x = (a ++ [0]).getD k 0 := fun k hk => by
    have hk' : k < (a ++ [0]).length := by rw [List.length_append]; exact hk
    obtain ⟨x, hx, hpay, hb⟩ :=
      hstr.mono (Holds.frame hsame₁) k _ (List.getElem?_eq_getElem hk')
    exact ⟨x, hx, hpay, by
        rw [hb, List.getD_eq_getElem?_getD, List.getElem?_eq_getElem hk', Option.getD_some]⟩
  have hcell : ∀ m, KernelRep { s₁.heap with mem := m } tabs used leaf → ∀ k, 0 ≤ k → k < 0 +
      (a.length + 1) → cellAt m false (p + k) = some ((leafCell leaf false (p + k)).getD 0) ∧
      cellAt m true (dst + k) = some (stackCell st (dst + k)) := fun m hm k _ hk => by
    obtain ⟨x, hx, -⟩ := hsrc k (by omega)
    refine ⟨(hm.inv.cellAt_eq false (p + k)).trans (by rw [hx, Option.getD_some]), ?_⟩
    exact (hm.inv.cellAt_eq true (dst + k)).trans (D.stack.cell _ true (by omega) (by omega))
  have hkeep : ∀ m k b, KernelRep { s₁.heap with mem := m } tabs used leaf →
      0 ≤ k → k < 0 + (a.length + 1) → KernelRep
      { s₁.heap with mem := Function.update m (stackCell st (dst + k)) b } tabs used leaf := by
    intro m k b hm _ hk
    refine hm.write fun y hy => Function.update_of_ne (fun heq => hy ?_) _ _
    rw [heq]
    exact D.stack.free D.mine (by omega) (by omega)
  have hstk : ∀ k, stackCell st (dst + k) = stackCell st dst + k := stackCell_add (by omega)
  have hwin : st.addr + 16 ≤ stackCell st dst ∧ stackCell st dst + (a.length + 1) ≤
      st.addr + 16 + 0x40000 := by
    unfold stackCell
    omega
  obtain ⟨s₂, hcopy, hst₂, -, -, rep₂, hbytes⟩ :=
    memcpyFrom_cells dst p (g := fun k => stackCell st (dst + k)) (a.length + 1) 0 (s := s₁)
    (P := fun m => KernelRep { s₁.heap with mem := m } tabs used leaf) rep₁ hcell hkeep
    fun k l _ hkl hl => by
      obtain ⟨x, hx, hpay, -⟩ := hsrc l (by omega)
      have hout := (D.others x hpay).2
      rw [hx, Option.getD_some, hstk, hstk]
      exact ⟨by omega, by omega⟩
  have hst₂' : Stores (StackCells st dst rsp) s₁ s₂ := hst₂.mono fun x ⟨k, _, hk, hx⟩ => by
    rw [StackCells, hx, hstk, ← hrsp, hstk]
    omega
  have rep₂' : KernelRep s₂.heap tabs used leaf := by
    refine rep₁.stores hst₂' fun x hx => ?_
    unfold StackCells at hx
    rw [← hrsp, hstk] at hx
    have hx' : x = stackCell st (dst + (x - stackCell st dst)) := by rw [hstk]; omega
    rw [hx']
    exact D.stack.free D.mine (by omega) (by omega)
  have hcells : ∀ x, StackCells st dst rsp x → st.addr + 16 ≤ x ∧ x < st.addr + 16 + 0x40000 :=
      fun x hx => by
    unfold StackCells at hx
    rw [← hrsp, hstk] at hx
    omega
  refine ⟨s₂, ?_, rep₂', ?_, ?_, fun k b hb => ?_⟩
  · rw [Kvm.pushString, bind_of_ok (hword.peekLE rep.inv), bind_of_ok hlen, halloc]
    rw [bind_of_ok hpoke, bind_of_ok hpeek, bind_of_ok
      ((hword.mono (Holds.frame hsame₁)).peekLE rep₁.inv), memcpy, bind_of_ok hcopy, hdst]
    rfl
  · exact (hst₁.mono fun x hx => .inl hx).trans (hst₂'.mono fun x hx => .inr (hdst ▸ hx))
  · rw [← hdst, ← hback]
    refine load64_congr fun x h₁ h₂ => hst₂'.mem x fun hx => ?_
    have := hcells x hx
    have hap := D.apart
    omega
  · have hk : k < a.length + 1 := by
      have := (List.getElem?_eq_some_iff.mp hb).1
      rwa [List.length_append] at this
    obtain ⟨x, hx, -, hval⟩ := hsrc k hk
    have hread := hbytes k (Nat.zero_le k) (by omega)
    rw [hx, Option.getD_some, hval, List.getD_eq_getElem?_getD, hb] at hread
    rw [← hdst]
    exact hread

end Desk

/-! ## The loops over the strings -/

/-- The strings from `k` on have been pushed; the other pointers are still null. -/
structure Pushed (s₀ s : Sys σ) (tabs used : List Extent) (leaf : Nat → Nat) (st : Extent)
    (cc : Nat) (all : List (List UInt8)) (argc k : Nat) : Prop where
  rep : KernelRep s.heap tabs used leaf
  stores : Stores (fun x => (cc ≤ x ∧ x < cc + 8 * (all.length + 2)) ∨
    StackCells st (pushedAt all k) 0x7fffffffe000 x) s₀ s
  strings : ∀ i a, k ≤ i → all[i]? = some a → ∀ j b, (a ++ [0])[j]? = some b →
    s.mem (stackCell st (pushedAt all i + j)) = b
  words : ∀ i, k ≤ i → i < all.length → load64 s.mem (cc + 8 * copySlot argc i) = pushedAt all i
  zeros : ∀ j, j < all.length + 2 → (∀ i, k ≤ i → i < all.length → copySlot argc i ≠ j) →
    load64 s.mem (cc + 8 * j) = 0

theorem Pushed.start (rep : KernelRep s.heap tabs used leaf) (argc : Nat)
    (hzero : ∀ j, j < all.length + 2 → load64 s.mem (cc + 8 * j) = 0) :
    Pushed s s tabs used leaf st cc all argc all.length := by
  refine ⟨rep, Stores.refl _ s, fun i a hi ha => ?_, fun i h₁ h₂ => by omega,
    fun j hj _ => hzero j hj⟩
  have := (List.getElem?_eq_some_iff.mp ha).1
  omega

section

variable {s₀ : Sys σ} {argc : Nat} (D : Desk leaf used blocks st cp cc (all.length + 2))
  (hfits : stringsLen all ≤ 0x3f000)

include D hfits

/-- **One turn** of a loop. -/
theorem Pushed.push {k ary i p : Nat} (h : Pushed s₀ s tabs used leaf st cc all argc (k + 1))
    (ha : all[k]? = some a) (hnz : 0 ∉ a)
    (hword : ShowsWord (Holds leaf blocks s₀.mem) (ary + 8 * i) p)
    (hstr : ShowsString (Holds leaf blocks s₀.mem) p a) :
    ∃ s', pushString cp ary (copySlot argc k) i (pushedAt all (k + 1)) s =
      .ok (pushedAt all k) s' ∧
      Pushed s₀ s' tabs used leaf st cc all argc k := by
  have hlt := (List.getElem?_eq_some_iff.mp ha).1
  have hnext := pushedAt_succ ha hfits
  have hlow := pushedAt_ge hfits k
  have htop := pushedAt_le all (k + 1)
  have hslot : ∀ i, i < all.length → copySlot argc i < all.length + 2 := fun i hi => by
    unfold copySlot
    split <;> omega
  have hdst : pushedAt all (k + 1) - (a.length + 1) = pushedAt all k := by omega
  have hap := D.apart
  -- the arrays are where they were
  have hsame : ∀ x, Payload blocks x → s.mem x = s₀.mem x := fun x hx => h.stores.mem x
      fun hin => by
    have hout := D.others x hx
    rcases hin with hin | hin
    · omega
    · have := hin.bounds (by decide)
      omega
  obtain ⟨s', hrun, rep', hst, hword', hbytes⟩ := D.pushString h.rep (pushedAt all (k + 1))
    (hword.mono (Holds.frame hsame)) (hstr.mono (Holds.frame hsame)) hnz (hslot k hlt)
    (by omega) (by omega)
  rw [hdst] at hrun hst hword' hbytes
  have hcells : ∀ {x}, StackCells st (pushedAt all k) (pushedAt all (k + 1)) x → _ :=
    fun hx => hx.bounds (by omega)
  refine ⟨s', hrun, rep', ?_, fun i b hi hb j c hc => ?_, fun i h₁ h₂ => ?_, fun j hj hno => ?_⟩
  · have hs := hslot k hlt
    refine Stores.trans (h.stores.mono fun x hx => ?_) (hst.mono fun x hx => ?_)
    · exact hx.imp_right fun hx => hx.mono (by omega) (Nat.le_refl _)
    · exact hx.imp (fun hx => by omega) fun hx => hx.mono (Nat.le_refl _) htop
  · by_cases hik : i = k
    · subst hik
      obtain rfl : a = b := Option.some.inj (ha.symm.trans hb)
      exact hbytes j c hc
    · -- further up
      have hle := pushedAt_mono all (show k + 1 ≤ i by omega)
      have hj := (List.getElem?_eq_some_iff.mp hc).1
      rw [List.length_append, List.length_singleton] at hj
      have hsucc := pushedAt_succ hb hfits
      have hle' := pushedAt_le all (i + 1)
      rw [hst.mem _ fun hx => ?_]
      · exact h.strings i b (by omega) hb j c hc
      · have hcell : stackCell st (pushedAt all i + j) =
          st.addr + 16 + (pushedAt all i + j - 0x7ffffffbf000) := rfl
        rcases hx with hx | hx
        · have hs := hslot k hlt
          omega
        · have := hx.2
          unfold stackCell at this
          omega
  · by_cases hik : i = k
    · subst hik
      exact hword'
    · have hne : copySlot argc i ≠ copySlot argc k := fun heq => hik (copySlot_inj heq)
      rw [← h.words i (by omega) h₂]
      refine load64_congr fun x hx₁ hx₂ => hst.mem x fun hx => ?_
      have hs := hslot i h₂
      rcases hx with hx | hx
      · omega
      · have := hcells hx
        omega
  · rw [← h.zeros j hj fun i h₁ h₂ => hno i (by omega) h₂]
    have hne := hno k (Nat.le_refl k) hlt
    refine load64_congr fun x hx₁ hx₂ => hst.mem x fun hx => ?_
    rcases hx with hx | hx
    · omega
    · have := hcells hx
      omega

/-- **One of the loops**: the strings of the array `l`, which are those from `d` on. -/
theorem Pushed.pushStrings {ary off d : Nat} {l : List (List UInt8)}
    (harr : ShowsArray (Holds leaf blocks s₀.mem) ary l)
    (hall : ∀ i a, l[i]? = some a → all[d + i]? = some a)
    (hslot : ∀ i, i < l.length → copySlot argc (d + i) = off + i) (k : Nat) :
    ∀ {s : Sys σ}, k ≤ l.length → Pushed s₀ s tabs used leaf st cc all argc (d + k) →
      ∃ s', pushStrings cp ary off k (pushedAt all (d + k)) s = .ok (pushedAt all d) s' ∧
        Pushed s₀ s' tabs used leaf st cc all argc d := by
  induction k with
  | zero => exact fun {s} _ h => ⟨s, rfl, h⟩
  | succ k ih =>
    intro s hk h
    have hget : l[k]? = some (l.get ⟨k, hk⟩) := List.getElem?_eq_getElem hk
    obtain ⟨hnz, p, -, hword, hstr⟩ := harr.entry k _ hget
    rw [← Nat.add_assoc] at h ⊢
    obtain ⟨s₁, hpush, h₁⟩ := h.push D hfits (hall k _ hget) hnz hword hstr
    obtain ⟨s', hrest, h'⟩ := ih (Nat.le_of_succ_le hk) h₁
    refine ⟨s', ?_, h'⟩
    rw [hslot k hk] at hpush
    rw [Kvm.pushStrings, bind_of_ok hpush]
    exact hrest

end

/-! ## The loop over the pointers -/

/-- **The pointers** are copied to the stack, below `rsp`. -/
theorem Desk.pushWords (D : Desk leaf used blocks st cp cc n) (k : Nat) :
    ∀ (rsp : Nat) {s : Sys σ}, k ≤ n →
    KernelRep s.heap tabs used leaf → 0x7ffffffbf000 + 8 * k ≤ rsp → rsp ≤ 0x7fffffffe000 →
    ∃ s', pushWords cp k rsp s = .ok (rsp - 8 * k) s' ∧ KernelRep s'.heap tabs used leaf ∧
      Stores (StackCells st (rsp - 8 * k) rsp) s s' ∧
      ∀ j, j < k → load64 s'.mem (stackCell st (rsp - 8 * k + 8 * j)) =
        load64 s.mem (cc + 8 * j) := by
  induction k with
  | zero =>
    exact fun rsp {s} _ rep _ _ => ⟨s, rfl, rep, Stores.refl _ s,
      fun j hj => absurd hj (Nat.not_lt_zero j)⟩
  | succ k ih =>
    intro rsp s hk rep hlow hhigh
    have halloc : stackAlloc rsp 8 = rsp - 8 := by
      unfold stackAlloc
      omega
    have hap := D.apart
    have hcell : stackCell st (rsp - 8) = st.addr + 16 + (rsp - 8 - 0x7ffffffbf000) := rfl
    obtain ⟨s₁, hpoke, rep₁, hmem₁, hst₁⟩ := D.stack.poke D.mine rep (v := rsp - 8) (by omega)
      (by omega) (load64 s.mem (cc + 8 * k))
    obtain ⟨s', hrest, rep', hst, hwords⟩ :=
      ih (rsp - 8) (Nat.le_of_succ_le hk) rep₁ (by omega) (by omega)
    have hend : rsp - 8 - 8 * k = rsp - 8 * (k + 1) := by omega
    have hword : load64 s₁.mem (stackCell st (rsp - 8)) = load64 s.mem (cc + 8 * k) := by
      rw [hmem₁, load64_store64_of_lt (load64_lt _ _)]
    rw [hend] at hrest hst hwords
    refine ⟨s', ?_, rep', Stores.trans (hst₁.mono fun x hx => ?_) (hst.mono fun x hx => ?_),
      fun j hj => ?_⟩
    · rw [Kvm.pushWords, bind_of_ok (D.peek_copy rep.inv hk), halloc, bind_of_ok hpoke]
      exact hrest
    · exact hx.mono (by omega) (by omega)
    · exact hx.mono (Nat.le_refl _) (by omega)
    · by_cases hjk : j = k
      · subst hjk
        rw [show rsp - 8 * (j + 1) + 8 * j = rsp - 8 by omega, ← hword]
        refine load64_congr fun x h₁ h₂ => hst.mem x fun hx => ?_
        unfold StackCells stackCell at hx
        omega
      · rw [hwords j (by omega)]
        refine load64_congr fun x h₁ h₂ => hst₁.mem x fun hx => ?_
        unfold StackCells stackCell at hx
        omega

/-! ## All of it -/

/-- The stack pointer in the end. -/
def elfRsp (all : List (List UInt8)) : Nat :=
  pushedAt all 0 - pushedAt all 0 % 16 - (if (all.length + 3) % 2 = 1 then 8
    else 0) - 8 * (all.length + 2) - 8

/-- Strings and pointers fit between the start of the stack and the pointer that `load_binary`
leaves. -/
def FitsStack (all : List (List UInt8)) : Prop := 0x7ffffffbf000 ≤ elfRsp all

instance (all : List (List UInt8)) : Decidable (FitsStack all) :=
  inferInstanceAs (Decidable (_ ≤ _))

/-- What is known of such strings. -/
structure StackLayout (all : List (List UInt8)) : Prop where
  strings : stringsLen all ≤ 0x3f000
  words : 8 * (all.length + 3) ≤ 0x3f000
  rounded : roundStack (pushedAt all 0) (all.length + 2) = elfRsp all + 8 + 8 * (all.length + 2)
  below : elfRsp all + 8 + 8 * (all.length + 2) ≤ pushedAt all 0
  aligned : elfRsp all % 16 = 0

theorem FitsStack.layout (h : FitsStack all) : StackLayout all := by
  have htop := pushedAt_le all 0
  have hlen : pushedAt all 0 = 0x7fffffffe000 - stringsLen all := rfl
  have hrsp : elfRsp all = pushedAt all 0 - pushedAt all
    0 % 16 - (if (all.length + 3) % 2 = 1 then 8 else 0) - 8 * (all.length + 2) - 8 := rfl
  have hround : roundStack (pushedAt all 0) (all.length + 2) = if (all.length + 3) % 2 = 1 then
      stackAlloc (pushedAt all 0 - pushedAt all 0 % 16) 8
        else pushedAt all 0 - pushedAt all 0 % 16 := rfl
  unfold FitsStack at h
  unfold stackAlloc at hround
  split at hrsp
  · next hodd =>
    rw [if_pos hodd] at hround
    exact ⟨by omega, by omega, by omega, by omega, by omega⟩
  · next hodd =>
    rw [if_neg hodd] at hround
    exact ⟨by omega, by omega, by omega, by omega, by omega⟩

/-- The strings and the pointers are on the stack. -/
structure OnStack (m : Mem) (st : Extent) (args envs : List (List UInt8)) : Prop where
  strings : ∀ i a, (args ++ envs)[i]? = some a → ∀ j b, (a ++ [0])[j]? = some b →
    m (stackCell st (pushedAt (args ++ envs) i + j)) = b
  words : ∀ j, j < (args ++ envs).length + 2 →
    load64 m (stackCell st (elfRsp (args ++ envs) + 8 + 8 * j)) = stackWord args envs j

/-- They are above the word of `argc`. -/
theorem OnStack.frame (h : OnStack m st args envs) (hfits : FitsStack (args ++ envs))
    (hm : ∀ v, elfRsp (args ++ envs) + 8 ≤ v → v < 0x7fffffffe000 →
      m' (stackCell st v) = m (stackCell st v)) :
    OnStack m' st args envs := by
  have hlay := hfits.layout
  have hbelow := hlay.below
  have htop := pushedAt_le (args ++ envs) 0
  have hlow : 0x7ffffffbf000 ≤ elfRsp (args ++ envs) := hfits
  refine ⟨fun i a ha j b hb => ?_, fun j hj => ?_⟩
  · have hge := pushedAt_mono (args ++ envs) (Nat.zero_le i)
    have hnext := pushedAt_succ ha hlay.strings
    have hle := pushedAt_le (args ++ envs) (i + 1)
    have hj := (List.getElem?_eq_some_iff.mp hb).1
    rw [List.length_append, List.length_singleton] at hj
    rw [hm _ (by omega) (by omega)]
    exact h.strings i a ha j b hb
  · rw [← h.words j hj]
    refine load64_congr fun x h₁ h₂ => ?_
    have hx : x = stackCell st (elfRsp (args ++ envs) + 8 + 8 * j + (x - stackCell st
        (elfRsp (args ++ envs) + 8 + 8 * j))) := by
      rw [stackCell_add (by omega)]
      omega
    rw [hx]
    exact hm _ (by omega) (by omega)

/-- All pointers, when all strings have been pushed. -/
theorem Pushed.word {s₀ : Sys σ}
    (h : Pushed s₀ s tabs used leaf st cc (args ++ envs) args.length 0) {j : Nat}
    (hj : j < (args ++ envs).length + 2) :
    load64 s.mem (cc + 8 * j) = stackWord args envs j := by
  have hlen : (args ++ envs).length = args.length + envs.length := List.length_append
  unfold stackWord
  split
  · next hlt =>
    have hword := h.words j (Nat.zero_le j) (by omega)
    rwa [copySlot, if_pos hlt] at hword
  · next hge =>
    split
    · next hin =>
      have hword := h.words (j - 1) (Nat.zero_le _) (by omega)
      rwa [copySlot, if_neg (by omega), show j - 1 + 1 = j by omega] at hword
    · next hout =>
      refine h.zeros j hj fun i _ hi => ?_
      unfold copySlot
      split <;> omega

/-- **The loops of `create_elf_info`**, between its `kmalloc` and its `kfree`. -/
theorem Desk.build {argv envp : Nat}
    (D : Desk leaf used blocks st cp cc ((args ++ envs).length + 2))
    (hfits : StackLayout (args ++ envs)) (hlow : FitsStack (args ++ envs))
    (rep : KernelRep s.heap tabs used leaf)
    (hzero : ∀ j, j < (args ++ envs).length + 2 → load64 s.mem (cc + 8 * j) = 0)
    (hargs : ShowsArray (Holds leaf blocks s.mem) argv args)
    (henvs : ShowsArray (Holds leaf blocks s.mem) envp envs) :
    ∃ s₁ s₂ s', pushStrings cp envp (args.length + 1) envs.length 0x7fffffffe000 s =
        .ok (pushedAt (args ++ envs) args.length) s₁ ∧
      pushStrings cp argv 0 args.length (pushedAt (args ++ envs) args.length) s₁ =
        .ok (pushedAt (args ++ envs) 0) s₂ ∧
      Kvm.pushWords cp ((args ++ envs).length + 2)
        (roundStack (pushedAt (args ++ envs) 0) ((args ++ envs).length + 2)) s₂ =
        .ok (elfRsp (args ++ envs) + 8) s' ∧
      KernelRep s'.heap tabs used leaf ∧ OnStack s'.mem st args envs ∧
      (∀ j, j < (args ++ envs).length + 2 →
        load64 s'.mem (cc + 8 * j) = stackWord args envs j) ∧
      Stores (fun x => (cc ≤ x ∧ x < cc + 8 * ((args ++ envs).length + 2)) ∨
        StackCells st (elfRsp (args ++ envs) + 8) 0x7fffffffe000 x) s s' := by
  have hlen : (args ++ envs).length = args.length + envs.length := List.length_append
  have h₀ : Pushed s s tabs used leaf st cc (args ++ envs) args.length
    (args.length + envs.length) := hlen ▸ Pushed.start rep args.length hzero
  -- the second array first
  obtain ⟨s₁, henv, h₁⟩ :=
    Pushed.pushStrings D hfits.strings henvs (d := args.length) (fun i a ha => by
      rw [List.getElem?_append_right (Nat.le_add_right _ _), Nat.add_sub_cancel_left]; exact ha)
    (fun i hi => show copySlot args.length (args.length + i) = args.length + 1 + i by
      rw [copySlot, if_neg (by omega)]; omega) envs.length (Nat.le_refl _) h₀
  rw [← hlen, pushedAt_length] at henv
  obtain ⟨s₂, harg, h₂⟩ := Pushed.pushStrings D hfits.strings hargs (d := 0)
    (fun i a ha => by
      rw [Nat.zero_add, List.getElem?_append_left (List.getElem?_eq_some_iff.mp ha).1]
      exact ha)
    (fun i hi => show copySlot args.length (0 + i) = 0 + i by rw [copySlot, if_pos (by omega)])
    args.length (Nat.le_refl _) (by rw [Nat.zero_add]; exact h₁)
  rw [Nat.zero_add] at harg
  -- the pointers
  have hbelow := hfits.below
  have htop := pushedAt_le (args ++ envs) 0
  unfold FitsStack at hlow
  obtain ⟨s', hwords, rep', hst, hstack⟩ :=
    D.pushWords _ (elfRsp (args ++ envs) + 8 + 8 * ((args ++ envs).length + 2))
    (Nat.le_refl _) h₂.rep (by omega) (by omega)
  rw [Nat.add_sub_cancel, ← hfits.rounded] at hwords
  rw [Nat.add_sub_cancel] at hst hstack
  have hap := D.apart
  have hcopy : ∀ j, j < (args ++ envs).length + 2 → load64 s'.mem (cc + 8 * j) = load64 s₂.mem
      (cc + 8 * j) := fun j hj => load64_congr fun x hx₁ hx₂ => hst.mem x fun hx => by
      have := hx.bounds (by omega)
      omega
  refine ⟨s₁, s₂, s', henv, harg, hwords, rep', ⟨fun i a ha j b hb => ?_, fun j hj => ?_⟩,
    fun j hj => ?_, Stores.trans (h₂.stores.mono fun x hx => ?_) (hst.mono fun x hx => ?_)⟩
  · rw [hst.mem _ fun hx => ?_]
    · exact h₂.strings i a (Nat.zero_le i) ha j b hb
    · -- the strings are above the pointers
      have hge := pushedAt_mono (args ++ envs) (Nat.zero_le i)
      have hcell := stackCell_le st (show elfRsp (args ++ envs) + 8 + 8 *
        ((args ++ envs).length + 2) ≤ pushedAt (args ++ envs) i + j by omega)
      have := hx.2
      omega
  · rw [hstack j hj, h₂.word hj]
  · rw [hcopy j hj, h₂.word hj]
  · exact hx.imp_right fun hx => hx.mono (by omega) (Nat.le_refl _)
  · exact .inr (hx.mono (Nat.le_refl _) (by omega))

/-! ## With and without a block -/

/-- A request of less than 2 MB returns, with a block or without. -/
theorem doKmalloc_small (rep : KernelRep s.heap tabs blocks leaf) {len align : Nat}
    (halign : align = mallocNoAlign ∨ align = mallocPageAlign) (hlen : len ≤ 0x200000) :
    (Serves s len align ∧ ∃ c s', doKmalloc len align s = .ok (c.addr + 16) s' ∧
      Taken s s' tabs blocks leaf len align c) ∨
    (¬ Serves s len align ∧ ∃ s', doKmalloc len align s = .ok 0 s' ∧
      Declined s.heap s'.heap len) := by
  refine (doKmalloc_cases rep halign (by omega)).imp_right fun ⟨hno, _⟩ => ⟨hno, ?_⟩
  rcases rep.kmalloc len halign with ⟨h', c, hok, -⟩ | ⟨hbig, -⟩ | ⟨-, h', hok, hd⟩ | ⟨hgt, -⟩
  · obtain ⟨w, hdo, -⟩ := doKmalloc_of_ok (by omega) hok
    exact absurd ⟨_, _, hdo, by omega⟩ hno
  · omega
  · obtain ⟨w, hdo, -⟩ := doKmalloc_of_ok (by omega) hok
    exact ⟨_, hdo, hd⟩
  · omega

theorem doKfree_null (s : Sys σ) : doKfree 0 s = .ok () s := by
  have hsame : s.setHeap s.heap (fun x => s.mem x ≠ s.mem x) = s := by
    simp [Sys.setHeap, Sys.heap]
  show EStateM.Result.ok () (s.setHeap s.heap fun x => s.mem x ≠ s.mem x) = _
  rw [hsame]

/-- The memory of one block is not that of the others. -/
theorem KernelRep.head_apart {c : Extent} (rep : KernelRep s.heap tabs (c :: blocks) leaf)
    {x : Nat} (hx : Payload blocks x) : x < c.addr ∨ c.fin ≤ x := by
  by_contra hin
  exact hx.not_own tabs (rep.own_of_has ⟨by omega, by omega⟩)

theorem StackIn.payload (S : StackIn leaf st) {x : Nat} (h₁ : st.addr + 16 ≤ x)
    (h₂ : x < st.addr + 16 + 0x40000) : Payload (st :: blocks) x := by
  have hsize := S.size
  exact ⟨st, List.mem_cons_self, h₁, by unfold Extent.fin; omega⟩

section

variable (S : StackIn leaf st) (rep : KernelRep s.heap tabs (st :: blocks) leaf)

include S rep

/-- With a block of its own for the pointers. -/
theorem Taken.desk {c : Extent}
    (ht : Taken s s₁ tabs (st :: blocks) leaf (n * 8) mallocNoAlign c) :
    Desk leaf (c :: st :: blocks) blocks st (c.addr + 16) (c.addr + 16) n := by
  have hfits := ht.alloc.fits
  have hsize := S.size
  have hb := ht.alloc.rep.inv.bounds (e := c) List.mem_cons_self
  have hap : ∀ x, Payload (st :: blocks) x → x < c.addr ∨ c.fin ≤ x :=
    fun x hx => ht.alloc.rep.head_apart hx
  unfold Extent.fin at hb hap
  refine ⟨S, List.mem_cons_of_mem c List.mem_cons_self, fun j w hj =>
    leafCell_window w (by omega) (by omega), fun j hj => ?_, ?_, fun x hx => ⟨?_, ?_⟩⟩
  · exact .inl ⟨c, List.mem_cons_self, by omega, by unfold Extent.fin; omega⟩
  · -- the first byte of the stack and that of the block
    by_contra hover
    have h₁ := hap (max (c.addr + 16) (st.addr + 16)) (S.payload (by omega) (by omega))
    omega
  · obtain ⟨e, he, hin⟩ := hx
    have := hap x ⟨e, List.mem_cons_of_mem st he, hin⟩
    omega
  · have := rep.head_apart hx
    unfold Extent.fin at this
    omega

/-- Without: the words at the null pointer are taken for it. -/
theorem StackIn.nullDesk (hn : 8 * n ≤ 0x1f7000) :
    Desk leaf (st :: blocks) blocks st 0 0x8000000000 n := by
  have hsize := S.size
  have hb := rep.inv.bounds (e := st) List.mem_cons_self
  refine ⟨S, List.mem_cons_self, fun j w hj => ?_, fun j hj => .inr (.inl (by omega)),
    .inr (by omega), fun x hx => ⟨?_, ?_⟩⟩
  · rw [Nat.zero_add]
    exact leafCell_low w (by omega)
  · obtain ⟨e, he, h₁, h₂⟩ := hx
    have hbe := rep.inv.bounds (List.mem_cons_of_mem st he)
    omega
  · have := rep.head_apart hx
    unfold Extent.fin at this
    omega

end

/-- **The last word**: `argc`, below everything else. -/
theorem OnStack.argc {argc : Nat} (h : OnStack s.mem st args envs) (S : StackIn leaf st)
    (rep : KernelRep s.heap tabs (st :: blocks) leaf) (hfits : FitsStack (args ++ envs))
    (hargc : argc < 2 ^ 64) :
    ∃ s', pokeLE (elfRsp (args ++ envs)) 8 argc s = .ok () s' ∧
      KernelRep s'.heap tabs (st :: blocks) leaf ∧
      OnStack s'.mem st args envs ∧
        load64 s'.mem (stackCell st (elfRsp (args ++ envs))) = argc ∧
      Stores (StackCells st (elfRsp (args ++ envs)) (elfRsp (args ++ envs) + 8)) s s' := by
  have hbelow := hfits.layout.below
  have htop := pushedAt_le (args ++ envs) 0
  have hlow : 0x7ffffffbf000 ≤ elfRsp (args ++ envs) := hfits
  obtain ⟨s', hrun, rep', hmem, hst⟩ := S.poke List.mem_cons_self rep hlow (by omega) argc
  refine ⟨s', hrun, rep', h.frame hfits fun v hv _ => ?_, ?_, hst⟩
  · exact hst.mem _ fun hx => absurd hx.2 (Nat.not_lt.mpr (stackCell_le st hv))
  · rw [hmem, load64_store64_of_lt hargc]

/-- **`create_elf_info` behind its checks.** Strings and pointers are on the stack either way.
With a block for the pointers nothing else changes but the heap's own memory; without one the
pointers are at the start of the kernel's memory as well. -/
theorem pushElfInfo_spec {argv envp : Nat} (S : StackIn leaf st)
    (rep : KernelRep s.heap tabs (st :: blocks) leaf) (hfits : FitsStack (args ++ envs))
    (hargs : ShowsArray (Holds leaf blocks s.mem) argv args)
    (henvs : ShowsArray (Holds leaf blocks s.mem) envp envs) :
    ∃ s', pushElfInfo 0x7fffffffe000 argv envp args.length envs.length s =
      .ok (elfRsp (args ++ envs)) s' ∧
      KernelRep s'.heap tabs (st :: blocks) leaf ∧ s'.heap.arena.top ≤ s.heap.arena.top ∧
        OnStack s'.mem st args envs ∧
      load64 s'.mem (stackCell st (elfRsp (args ++ envs))) = args.length ∧
      ((Serves s (((args ++ envs).length + 2) * 8) mallocNoAlign ∧
        ∀ x, ¬ StackCells st (elfRsp (args ++ envs)) 0x7fffffffe000 x →
          ¬ OwnCell (tabs ++ st :: blocks) x →
          s'.mem x = s.mem x) ∨
      (¬ Serves s (((args ++ envs).length + 2) * 8) mallocNoAlign ∧
        (∀ j, j < (args ++ envs).length + 2 → load64 s'.mem (0x8000000000 + 8 * j) =
          stackWord args envs j) ∧
        ∀ x, ¬ StackCells st (elfRsp (args ++ envs)) 0x7fffffffe000 x →
          ¬ OwnCell (tabs ++ st :: blocks) x →
          x < 0x8000000000 ∨ 0x8000000000 + 8 * ((args ++ envs).length + 2) ≤ x →
            s'.mem x = s.mem x)) := by
  have hlen : (args ++ envs).length = args.length + envs.length := List.length_append
  have hlay := hfits.layout
  have hwords := hlay.words
  have hbelow := hlay.below
  have htop := pushedAt_le (args ++ envs) 0
  have hargc : args.length < 2 ^ 64 := by omega
  have hrsp : stackAlloc (elfRsp (args ++ envs) + 8) 8 = elfRsp (args ++ envs) := by
    unfold stackAlloc
    omega
  have hsub : ∀ x, Payload blocks x → Payload (st :: blocks) x := fun x ⟨e, he, hin⟩ =>
    ⟨e, List.mem_cons_of_mem st he, hin⟩
  unfold pushElfInfo
  rw [← hlen]
  rcases doKmalloc_small rep (.inl rfl)
    (show ((args ++ envs).length + 2) * 8 ≤ 0x200000 by omega) with
    ⟨hserves, c, s₁, hrun, ht⟩ | ⟨hno, s₁, hrun, hd⟩
  · have D := ht.desk S rep
    have hsame : ∀ x, Payload blocks x → s₁.mem x = s.mem x :=
      fun x hx => ht.mem x ((hsub x hx).not_own tabs)
    have hzero : ∀ j, j < (args ++ envs).length + 2 → load64 s₁.mem (c.addr + 16 + 8 * j) = 0 :=
      fun j hj => loadLE_eq_zero fun x h₁ h₂ => ht.alloc.zero x (by omega) (by omega)
    obtain ⟨s₂, s₃, s₄, henv, harg, hwords, rep₄, hon, -, hst⟩ := D.build hlay hfits
      ht.alloc.rep hzero (hargs.mono (Holds.frame hsame)) (henvs.mono (Holds.frame hsame))
    obtain ⟨s₅, hfree, rep₅, hloc, -⟩ := doKfree_spec rep₄
    -- the stack is not the allocator's
    obtain ⟨s', hargc, rep', hon', hword, hst'⟩ := (hon.frame hfits fun v h₁ h₂ => hloc.mem _
      ((S.payload (by unfold stackCell; omega) (by unfold stackCell; omega)).not_own tabs)).argc
      S rep₅ hfits hargc
    refine ⟨s', ?_, rep', ?_, hon', hword, .inl ⟨hserves, fun x hx hown => ?_⟩⟩
    · rw [bind_of_ok hrun, bind_of_ok henv, bind_of_ok harg, bind_of_ok hwords,
        bind_of_ok hfree, hrsp, bind_of_ok hargc]
      rfl
    · rw [hst'.arena]
      exact ht.top_le rep₄ (by rw [hst.arena]) hfree
    · have hblock : ¬ (c.addr + 16 ≤ x ∧ x < c.addr + 16 + 8 * ((args ++ envs).length + 2)) :=
        fun hin => hown (ht.alloc.rep.own_of_has
          ⟨by omega, by have := ht.alloc.fits; unfold Extent.fin; omega⟩)
      calc s'.mem x
          _ = s₅.mem x := hst'.mem x fun h => hx (h.mono (Nat.le_refl _) (by omega))
          _ = s₄.mem x := hloc.mem x hown
          _ = s₁.mem x := hst.mem x fun h => h.elim hblock fun h =>
            hx (h.mono (by omega) (Nat.le_refl _))
          _ = s.mem x := ht.mem x hown
  · have D := S.nullDesk rep (n := (args ++ envs).length + 2) (by omega)
    have rep₁ := hd.rep (by omega) rep
    have hsame : ∀ x, ¬ OwnCell (tabs ++ st :: blocks) x → x < 0x8000000000 ∨
      0x8000000000 + 8 * ((args ++ envs).length + 2) ≤ x → s₁.mem x = s.mem x :=
      fun x hown hout => (rep.mem_of_declined hd hown).trans (if_neg (by omega))
    have hpay : ∀ x, Payload blocks x → s₁.mem x = s.mem x := fun x hx =>
      hsame x ((hsub x hx).not_own tabs) (D.others x hx).1
    have hzero : ∀ j, j < (args ++ envs).length + 2 →
        load64 s₁.mem (0x8000000000 + 8 * j) = 0 := fun j hj =>
      loadLE_eq_zero fun x h₁ h₂ =>
        (rep.mem_of_declined hd fun h => by have := h.1; omega).trans (if_pos (by omega))
    obtain ⟨s₂, s₃, s₄, henv, harg, hwords, rep₄, hon, hlow, hst⟩ := D.build hlay hfits rep₁
      hzero (hargs.mono (Holds.frame hpay)) (henvs.mono (Holds.frame hpay))
    obtain ⟨s', hargc, rep', hon', hword, hst'⟩ := hon.argc S rep₄ hfits hargc
    have hap := D.apart
    refine ⟨s', ?_, rep', ?_, hon', hword, .inr ⟨hno, fun j hj => ?_, fun x hx hown hout => ?_⟩⟩
    · rw [bind_of_ok hrun, bind_of_ok henv, bind_of_ok harg, bind_of_ok hwords,
        bind_of_ok (doKfree_null s₄), hrsp, bind_of_ok hargc]
      rfl
    · rw [hst'.arena, hst.arena, hd.arena]
    · rw [← hlow j hj]
      refine load64_congr fun x h₁ h₂ => hst'.mem x fun hx => ?_
      have := hx.bounds (by omega)
      omega
    · calc s'.mem x
          _ = s₄.mem x := hst'.mem x fun h => hx (h.mono (Nat.le_refl _) (by omega))
          _ = s₁.mem x := hst.mem x fun h => h.elim (by omega) fun h =>
            hx (h.mono (by omega) (Nat.le_refl _))
          _ = s.mem x := hsame x hown hout

end BpfExamples.Kvm
