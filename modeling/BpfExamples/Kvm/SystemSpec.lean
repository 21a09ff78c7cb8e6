import BpfExamples.Kvm.FdRuns
import BpfExamples.Kvm.KernelHeap
import BpfExamples.Kvm.System

/-!
# The system's steps over the kernel's invariant

What the primitive steps of `System.lean` do in a state that satisfies `KernelRep`:

- `KernelInv.cellAt_eq`: which cell an access reaches is decided by the leaf words;
- `memcpyFrom_spec`, `pokeLE_window`: stores into memory that has an owner keep the
  invariant;
- `doKmalloc_spec`, `doKfree_spec`: the allocator;
- `hypercall_spec`: the hypervisor writes only where it was told to.

Effects are stated as frames: `Writes W s s'` says that the step from `s` to `s'` wrote only
cells of `W`. `Later` is the order in which the bookkeeping grows.
-/

namespace BpfExamples.Kvm

open Mem

variable {σ α : Type} {s s' s'' : Sys σ} {h : Heap} {tabs blocks : List Extent}
  {leaf : Nat → Nat}

/-! ## Frames -/

/-- Only cells of `W` were written, and no request was turned down. -/
structure Writes (W : Nat → Prop) (s s' : Sys σ) : Prop where
  mem : ∀ x, ¬ W x → s'.mem x = s.mem x
  written : ∀ x, s'.written x → W x ∨ s.written x
  kept : ∀ x, s.written x → s'.written x
  last : s'.kernel.lastMmapped = s.kernel.lastMmapped
  refused : s'.refused = s.refused
  handed : s'.handed = s.handed

/-- The same, without the hypervisor. -/
structure Local (W : Nat → Prop) (s s' : Sys σ) : Prop extends Writes W s s' where
  fds : s'.fds = s.fds
  world : s'.world = s.world

theorem Writes.refl (W : Nat → Prop) (s : Sys σ) : Writes W s s :=
  ⟨fun _ _ => rfl, fun _ => .inr, fun _ => id, rfl, rfl, rfl⟩

theorem Writes.trans {W : Nat → Prop} (h₁ : Writes W s s') (h₂ : Writes W s' s'') :
    Writes W s s'' where
  mem x hx := (h₂.mem x hx).trans (h₁.mem x hx)
  written x hx := (h₂.written x hx).elim .inl (h₁.written x)
  kept x hx := h₂.kept x (h₁.kept x hx)
  last := h₂.last.trans h₁.last
  refused := h₂.refused.trans h₁.refused
  handed := h₂.handed.trans h₁.handed

theorem Writes.mono {W W' : Nat → Prop} (h : Writes W s s') (hW : ∀ x, W x → W' x) :
    Writes W' s s' where
  mem x hx := h.mem x fun hw => hx (hW x hw)
  written x hx := (h.written x hx).imp_left (hW x)
  kept := h.kept
  last := h.last
  refused := h.refused
  handed := h.handed

theorem Local.refl (W : Nat → Prop) (s : Sys σ) : Local W s s := ⟨Writes.refl W s, rfl, rfl⟩

theorem Local.trans {W : Nat → Prop} (h₁ : Local W s s') (h₂ : Local W s' s'') :
    Local W s s'' :=
  ⟨h₁.toWrites.trans h₂.toWrites, h₂.fds.trans h₁.fds, h₂.world.trans h₁.world⟩

theorem Local.mono {W W' : Nat → Prop} (h : Local W s s') (hW : ∀ x, W x → W' x) :
    Local W' s s' :=
  ⟨h.toWrites.mono hW, h.fds, h.world⟩

/-- The same, without the allocator. -/
structure Stores (W : Nat → Prop) (s s' : Sys σ) : Prop extends Writes W s s' where
  arena : s'.heap.arena = s.heap.arena

theorem Stores.refl (W : Nat → Prop) (s : Sys σ) : Stores W s s := ⟨Writes.refl W s, rfl⟩

theorem Stores.trans {W : Nat → Prop} (h₁ : Stores W s s') (h₂ : Stores W s' s'') :
    Stores W s s'' :=
  ⟨h₁.toWrites.trans h₂.toWrites, h₂.arena.trans h₁.arena⟩

theorem Stores.mono {W W' : Nat → Prop} (h : Stores W s s') (hW : ∀ x, W x → W' x) :
    Stores W' s s' :=
  ⟨h.toWrites.mono hW, h.arena⟩

theorem stores_setMem {m : Mem} {w : Nat → Prop} (hm : ∀ x, ¬ w x → m x = s.mem x) :
    Stores w s (s.setMem m w) :=
  ⟨⟨hm, fun _ hx => hx, fun _ => .inr, rfl, rfl, rfl⟩, rfl⟩

/-- Stores into memory that has an owner keep the invariant. -/
theorem KernelRep.stores {W : Nat → Prop} (rep : KernelRep s.heap tabs blocks leaf)
    (h : Stores W s s') (hW : ∀ x, W x → Free blocks x) :
    KernelRep s'.heap tabs blocks leaf := by
  have hheap : s'.heap = ⟨s'.mem, s.heap.arena⟩ := by
    rw [← h.arena]
    rfl
  rw [hheap]
  exact rep.write fun x hx => h.mem x fun hw => hx (hW x hw)

/-- A lower top leaves more room. -/
theorem KernelRep.room_of_top {tabs' blocks' : List Extent} {leaf' : Nat → Nat}
    (rep : KernelRep s.heap tabs blocks leaf) (rep' : KernelRep s'.heap tabs' blocks' leaf')
    (htop : s'.heap.arena.top ≤ s.heap.arena.top) : s.room ≤ s'.room := by
  obtain ⟨bin, T, inv, -⟩ := rep
  obtain ⟨bin', T', inv', -⟩ := rep'
  have hlimit := inv.heap.limit
  have hlimit' := inv'.heap.limit
  show s.heap.arena.topSize ≤ s'.heap.arena.topSize
  omega

/-- The unused area is part of the arena. -/
theorem KernelRep.room_le (rep : KernelRep s.heap tabs blocks leaf) : s.room ≤ 0x200000 := by
  obtain ⟨bin, T, inv, -⟩ := rep
  have hlimit := inv.heap.limit
  have hle := inv.heap.tiles.le
  have hbase : kernelSpan.base = 0x8000200000 := rfl
  have hend : kernelSpan.limit = 0x8000400000 := rfl
  show s.heap.arena.topSize ≤ 0x200000
  omega

/-- Such stores leave as much room as there was. -/
theorem KernelRep.roomFor_stores {W : Nat → Prop} (rep : KernelRep s.heap tabs blocks leaf)
    (h : Stores W s s') (hW : ∀ x, W x → Free blocks x) (nb : Nat) :
    RoomFor s'.heap nb ↔ RoomFor s.heap nb := by
  have hheap : s'.heap = ⟨s'.mem, s.heap.arena⟩ := by
    rw [← h.arena]
    rfl
  have hsame : freeChunks ⟨s'.mem, s.heap.arena⟩ = freeChunks s.heap :=
    rep.freeChunks_write fun x hx => h.mem x fun hw => hx (hW x hw)
  rw [hheap, RoomFor, RoomFor, hsame]

/-- The bookkeeping of `s'` is at least that of `s`. -/
def Later (s s' : Sys σ) : Prop :=
  (s.refused = true → s'.refused = true) ∧ ∀ x, s.written x → s'.written x

theorem Later.refl (s : Sys σ) : Later s s := ⟨id, fun _ => id⟩

theorem Later.trans (s₁ s₂ s₃ : Sys σ) (h₁ : Later s₁ s₂) (h₂ : Later s₂ s₃) : Later s₁ s₃ :=
  ⟨fun h => h₂.1 (h₁.1 h), fun x h => h₂.2 x (h₁.2 x h)⟩

theorem Writes.later {W : Nat → Prop} (h : Writes W s s') : Later s s' :=
  ⟨fun hr => h.refused.trans hr, h.kept⟩

theorem later_setHeap (s : Sys σ) (h : Heap) (w : Nat → Prop) : Later s (s.setHeap h w) :=
  ⟨id, fun _ => .inr⟩

/-! ## Cells -/

/-- The cell behind an address, from the leaf words. -/
def leafCell (leaf : Nat → Nat) (writable : Bool) (v : Nat) : Option Nat :=
  match kernelSpace v with
  | some c => some c
  | none =>
    if v < 2 ^ 47 ∧ v / 2 ^ 39 ≠ 1 then
      (leafTranslate (leaf (v / 0x1000)) v false writable).map (0x8000000000 + ·)
    else none

theorem kernelSpace_eq_none {v : Nat} (hv : kernelSpace v = none) :
    0x200000 ≤ v ∧ (v < 0x8000000000 ∨ 0x8040000000 ≤ v) := by
  by_contra hnot
  by_cases hlow : v < 0x200000
  · rw [kernelSpace_low hlow] at hv
    cases hv
  · rw [kernelSpace_window (by omega) (by omega)] at hv
    cases hv

/-- Which cell an access reaches is decided by the leaf words. -/
theorem KernelInv.cellAt_eq (inv : KernelInv h blocks leaf) (writable : Bool) (v : Nat) :
    cellAt h.mem writable v = leafCell leaf writable v := by
  cases hv : kernelSpace v with
  | some c => simp only [cellAt, leafCell, hv]
  | none =>
    simp only [cellAt, leafCell, hv]
    obtain ⟨hge, hwin⟩ := kernelSpace_eq_none hv
    by_cases hcan : v < 2 ^ 47
    · by_cases hslot : v / 2 ^ 39 = 1
      · -- the rest of the kernel's slot is not mapped
        obtain ⟨b, rfl⟩ : ∃ b, v = 0x8000000000 + b := ⟨v - 0x8000000000, by omega⟩
        rw [if_pos hcan, if_neg (fun h => h.2 hslot), inv.walk_window (by omega),
          if_neg (by omega)]
        rfl
      · rw [if_pos hcan, if_pos ⟨hcan, hslot⟩, inv.walk_user ⟨hge, by omega, hslot⟩]
        rfl
    · rw [if_neg hcan, if_neg (fun h => hcan h.1)]

theorem leafCell_window {v : Nat} (writable : Bool) (h₁ : 0x8000000000 ≤ v)
    (h₂ : v < 0x8040000000) : leafCell leaf writable v = some v := by
  rw [leafCell, kernelSpace_window h₁ h₂]

theorem leafCell_low {v : Nat} (writable : Bool) (h : v < 0x200000) :
    leafCell leaf writable v = some (0x8000000000 + v) := by
  rw [leafCell, kernelSpace_low h]

/-! ## Single accesses -/

theorem peek_of_cell {v c : Nat} (hc : cellAt s.mem false v = some c) :
    peek v s = .ok (s.mem c) s := by
  simp only [peek, hc]

theorem poke_of_cell {v c : Nat} {b : UInt8} (hc : cellAt s.mem true v = some c) :
    poke v b s = .ok () (s.setMem (Function.update s.mem c b) (· = c)) := by
  simp only [poke, hc]

theorem poke_of_none {v : Nat} {b : UInt8} (hc : cellAt s.mem true v = none) :
    poke v b s = .error .fault s := by
  simp only [poke, hc]

theorem peek_of_none {v : Nat} (hc : cellAt s.mem false v = none) :
    peek v s = .error .fault s := by
  simp only [peek, hc]

theorem cellAt_window {m : Mem} {v : Nat} (writable : Bool) (h₁ : 0x8000000000 ≤ v)
    (h₂ : v < 0x8040000000) : cellAt m writable v = some v := by
  rw [cellAt, kernelSpace_window h₁ h₂]

theorem cellAt_low {m : Mem} {v : Nat} (writable : Bool) (h : v < 0x200000) :
    cellAt m writable v = some (0x8000000000 + v) := by
  rw [cellAt, kernelSpace_low h]

/-! ## Words in the kernel window -/

/-- A word whose cells follow one another. -/
theorem peekLE_cells (n : Nat) :
    ∀ (v c : Nat), (∀ j, j < n → cellAt s.mem false (v + j) = some (c + j)) →
    peekLE v n s = .ok (loadLE s.mem c n) s := by
  induction n with
  | zero => exact fun v c _ => rfl
  | succ n ih =>
    intro v c hcell
    have hrest := ih (v + 1) (c + 1) fun j hj => by
      rw [Nat.add_right_comm v 1 j, Nat.add_right_comm c 1 j]
      exact hcell (j + 1) (by omega)
    have hfirst : cellAt s.mem false v = some c := hcell 0 (Nat.succ_pos n)
    rw [peekLE, bind_of_ok (peek_of_cell hfirst), bind_of_ok hrest]
    rfl

theorem peekLE_window (n v : Nat) (h₁ : 0x8000000000 ≤ v) (h₂ : v + n ≤ 0x8040000000) :
    peekLE v n s = .ok (loadLE s.mem v n) s :=
  peekLE_cells n v v fun _ _ => cellAt_window false (by omega) (by omega)

theorem peekLE_low (n v : Nat) (h : v + n ≤ 0x200000) :
    peekLE v n s = .ok (loadLE s.mem (0x8000000000 + v) n) s :=
  peekLE_cells n v _ fun j _ => by rw [Nat.add_assoc]; exact cellAt_low false (by omega)

theorem storeLE_succ (m : Mem) (a n x : Nat) :
    storeLE (Function.update m a (UInt8.ofNat x)) (a + 1) n (x / 256) =
      storeLE m a (n + 1) x := by
  funext y
  by_cases hy : y = a
  · subst hy
    rw [storeLE_of_notMem (by omega), storeLE_of_mem (Nat.le_refl y) (by omega),
      Function.update_self, Nat.sub_self, Nat.pow_zero, Nat.div_one]
  · by_cases hin : a + 1 ≤ y ∧ y < a + 1 + n
    · rw [storeLE_of_mem hin.1 hin.2, storeLE_of_mem (by omega) (by omega),
        Nat.div_div_eq_div_mul, ← Nat.pow_succ', show (y - (a + 1)).succ = y - a by omega]
    · rw [storeLE_of_notMem (by omega), storeLE_of_notMem (by omega), Function.update_of_ne hy]

/-- Stores that follow one another are one store. -/
theorem setMem_setMem {m₁ m₂ : Mem} {w₁ w₂ w : Nat → Prop} (hw : ∀ x, w x ↔ w₂ x ∨ w₁ x) :
    (s.setMem m₁ w₁).setMem m₂ w₂ = s.setMem m₂ w := by
  have hlog : (fun x => w₂ x ∨ w₁ x ∨ s.written x) = fun x => w x ∨ s.written x := by
    funext x
    rw [hw x, or_assoc]
  simp only [Sys.setMem, Sys.setHeap, Sys.heap, hlog]

theorem setMem_self {w : Nat → Prop} (hw : ∀ x, ¬ w x) : s.setMem s.mem w = s := by
  have hlog : (fun x => w x ∨ s.written x) = s.written := by
    funext x
    simp [hw x]
  show { s with written := fun x => w x ∨ s.written x } = s
  rw [hlog]

/-- A word is stored, one byte after the other; `P` is what the stores keep of memory. -/
theorem pokeLE_cells {P : Mem → Prop} (n : Nat) : ∀ (v c x : Nat) {s : Sys σ}, P s.mem →
    (∀ m, P m → ∀ j, j < n → cellAt m true (v + j) = some (c + j)) →
    (∀ m j b, P m → j < n → P (Function.update m (c + j) b)) →
    pokeLE v n x s = .ok () (s.setMem (storeLE s.mem c n x) fun y => c ≤ y ∧ y < c + n) := by
  induction n with
  | zero =>
    intro v c x s _ _ _
    have hsame : storeLE s.mem c 0 x = s.mem := by
      funext y
      exact storeLE_of_notMem (by omega)
    rw [hsame, setMem_self fun y => by omega]
    rfl
  | succ n ih =>
    intro v c x s hP hcell hkeep
    have hrest := ih (v + 1) (c + 1) (x / 256) (s := s.setMem (Function.update s.mem c
        (UInt8.ofNat x)) (· = c)) (hkeep s.mem 0 _ hP (Nat.succ_pos n)) (fun m hm j hj => by
        rw [Nat.add_right_comm v 1 j, Nat.add_right_comm c 1 j]
        exact hcell m hm (j + 1) (by omega))
      fun m j b hm hj => by
        rw [Nat.add_right_comm c 1 j]
        exact hkeep m (j + 1) b hm (by omega)
    have hfirst : cellAt s.mem true v = some c := hcell s.mem hP 0 (Nat.succ_pos n)
    rw [pokeLE, bind_of_ok (poke_of_cell hfirst), hrest]
    congr 1
    have hmem : (s.setMem (Function.update s.mem c (UInt8.ofNat x)) (· = c)).mem =
        Function.update s.mem c (UInt8.ofNat x) := rfl
    rw [hmem, storeLE_succ]
    exact setMem_setMem fun y => by omega

theorem pokeLE_window (n v x : Nat) (h₁ : 0x8000000000 ≤ v) (h₂ : v + n ≤ 0x8040000000) :
    pokeLE v n x s = .ok () (s.setMem (storeLE s.mem v n x) fun y => v ≤ y ∧ y < v + n) :=
  pokeLE_cells (P := fun _ => True) n v v x trivial (fun _ _ _ _ =>
    cellAt_window true (by omega) (by omega))
    fun _ _ _ _ _ => trivial

theorem pokeLE_low (n v x : Nat) (h : v + n ≤ 0x200000) :
    pokeLE v n x s = .ok () (s.setMem (storeLE s.mem (0x8000000000 + v) n x) fun y =>
      0x8000000000 + v ≤ y ∧ y < 0x8000000000 + v + n) :=
  pokeLE_cells (P := fun _ => True) n v _ x trivial
    (fun _ _ j _ => by rw [Nat.add_assoc]; exact cellAt_low true (by omega))
      fun _ _ _ _ _ => trivial

/-! ## Copies -/

/-- The cells that a copy to `dst` writes. -/
def CopyCells (leaf : Nat → Nat) (dst i n x : Nat) : Prop :=
  ∃ j, i ≤ j ∧ j < i + n ∧ leafCell leaf true (dst + j) = some x

theorem CopyCells.succ {dst i n x : Nat} (h : CopyCells leaf dst (i + 1) n x) :
    CopyCells leaf dst i (n + 1) x := by
  obtain ⟨j, h₁, h₂, hj⟩ := h
  exact ⟨j, by omega, by omega, hj⟩

/-- **`memcpy`** into memory that has an owner. It fails only at a byte that cannot be
accessed. -/
theorem memcpyFrom_spec (dst src : Nat) :
    ∀ (n i : Nat) {s : Sys σ}, KernelRep s.heap tabs blocks leaf →
      (∀ x, CopyCells leaf dst i n x → Free blocks x) →
      Ends (memcpyFrom dst src n i) s (fun _ s' => Stores (CopyCells leaf dst i n) s s')
        fun e s' =>
        e = .fault ∧ Stores (CopyCells leaf dst i n) s s' ∧
          ∃ j, i ≤ j ∧ j < i + n ∧
            (leafCell leaf false (src + j) = none ∨ leafCell leaf true (dst + j) = none)
  | 0, i, s, rep, hfree => ends_pure.mpr (Stores.refl _ s)
  | n + 1, i, s, rep, hfree => by
    rw [memcpyFrom]
    have hsrc := rep.inv.cellAt_eq false (src + i)
    have hdst := rep.inv.cellAt_eq true (dst + i)
    cases hc : leafCell leaf false (src + i) with
    | none =>
      rw [ends_bind_of_error (peek_of_none (hsrc.trans hc))]
      exact ⟨rfl, Stores.refl _ s, i, Nat.le_refl i, by omega, .inl hc⟩
    | some c =>
      cases hd : leafCell leaf true (dst + i) with
      | none =>
        rw [ends_bind_of_ok (peek_of_cell (hsrc.trans hc)),
          ends_bind_of_error (poke_of_none (hdst.trans hd))]
        exact ⟨rfl, Stores.refl _ s, i, Nat.le_refl i, by omega, .inr hd⟩
      | some d =>
        have hmine : CopyCells leaf dst i (n + 1) d := ⟨i, Nat.le_refl i, by omega, hd⟩
        have hstore : Stores (CopyCells leaf dst i (n + 1)) s
            (s.setMem (Function.update s.mem d (s.mem c)) (· = d)) := by
          refine (stores_setMem fun x hx => Function.update_of_ne hx _ _).mono fun x hx => ?_
          exact hx ▸ hmine
        have hrest := memcpyFrom_spec dst src n (i + 1) (rep.stores hstore hfree) fun x hx =>
          hfree x hx.succ
        rw [ends_bind_of_ok (peek_of_cell (hsrc.trans hc)),
          ends_bind_of_ok (poke_of_cell (hdst.trans hd))]
        refine Ends.mono hrest (fun _ s' hs => ?_) fun e s' => ?_
        · exact hstore.trans (hs.mono fun x => CopyCells.succ)
        · rintro ⟨he, hs, j, h₁, h₂, hj⟩
          exact ⟨he, hstore.trans (hs.mono fun x => CopyCells.succ), j, by omega, by omega, hj⟩

/-- A copy does not get past a byte that is not there. `P` is what the stores keep of memory. -/
theorem memcpyFrom_stuck {P : Mem → Prop} (dst src : Nat) {j : Nat}
    (hj : ∀ m, P m → cellAt m false (src + j) = none ∨ cellAt m true (dst + j) = none)
    (n : Nat) :
    ∀ (i : Nat) (s : Sys σ), P s.mem →
      (∀ m k x b, P m → i ≤ k → k < i + n → cellAt m true (dst + k) = some x →
        P (Function.update m x b)) →
      i ≤ j → j < i + n → Ends (memcpyFrom dst src n i) s (fun _ _ => False)
        fun _ _ => True := by
  induction n with
  | zero =>
    intro i s _ _ h₁ h₂
    omega
  | succ n ih =>
    intro i s hP hkeep h₁ h₂
    rw [memcpyFrom]
    cases hc : cellAt s.mem false (src + i) with
    | none =>
      rw [ends_bind_of_error (peek_of_none hc)]
      trivial
    | some c =>
      rw [ends_bind_of_ok (peek_of_cell hc)]
      cases hd : cellAt s.mem true (dst + i) with
      | none =>
        rw [ends_bind_of_error (poke_of_none hd)]
        trivial
      | some d =>
        rw [ends_bind_of_ok (poke_of_cell hd)]
        refine ih (i + 1) _ (hkeep _ i d _ hP (Nat.le_refl i) (by omega) hd)
          (fun m k x b hm hk₁ hk₂ => hkeep m k x b hm (by omega) (by omega)) ?_ (by omega)
        by_contra hlt
        obtain rfl : i = j := by omega
        rcases hj s.mem hP with h | h
        · rw [hc] at h
          cases h
        · rw [hd] at h
          cases h

/-- **`memcpy`, cell by cell**: byte `j` goes from the cell `f j` to the cell `g j`, or to both
from where an earlier byte went if that is `f j`. `P` is what the stores keep of memory. -/
theorem memcpyFrom_overlapping (dst src : Nat) {f g : Nat → Nat} {P : Mem → Prop} (n : Nat) :
    ∀ (i : Nat) {s : Sys σ}, P s.mem →
      (∀ m, P m → ∀ j, i ≤ j → j < i + n →
        cellAt m false (src + j) = some (f j) ∧ cellAt m true (dst + j) = some (g j)) →
      (∀ m j b, P m → i ≤ j → j < i + n → P (Function.update m (g j) b)) →
      (∀ j k, i ≤ j → j < k → k < i + n → g j ≠ g k) →
      ∃ s', memcpyFrom dst src n i s = .ok () s' ∧
        Stores (fun x => ∃ j, i ≤ j ∧ j < i + n ∧ x = g j) s s' ∧
        s'.fds = s.fds ∧ s'.world = s.world ∧ P s'.mem ∧ ∀ j, i ≤ j → j < i + n →
          ((∀ k, i ≤ k → k < j → g k ≠ f j) → s'.mem (g j) = s.mem (f j)) ∧
          ∀ k, i ≤ k → k < j → g k = f j → s'.mem (g j) = s'.mem (g k) := by
  induction n with
  | zero =>
    intro i s hP _ _ _
    exact ⟨s, rfl, Stores.refl _ s, rfl, rfl, hP, fun j hj hlt => absurd hlt (by omega)⟩
  | succ n ih =>
    intro i s hP hcell hkeep hfresh
    obtain ⟨hsrc, hdst⟩ := hcell s.mem hP i (Nat.le_refl i) (by omega)
    let s₁ := s.setMem (Function.update s.mem (g i) (s.mem (f i))) (· = g i)
    have hone : Stores (fun x => ∃ j, i ≤ j ∧ j < i + (n + 1) ∧ x = g j) s s₁ :=
      (stores_setMem fun x hx => Function.update_of_ne hx _ _).mono fun x hx =>
        ⟨i, Nat.le_refl i, by omega, hx⟩
    have hset : s₁.mem (g i) = s.mem (f i) := Function.update_self _ _ _
    have hold : ∀ x, x ≠ g i → s₁.mem x = s.mem x := fun x hx => Function.update_of_ne hx _ _
    obtain ⟨s', hrun, hst, hfds, hworld, hP', hcopy⟩ := ih (i + 1) (s := s₁)
      (hkeep _ i _ hP (Nat.le_refl i) (by omega))
      (fun m hm j h₁ h₂ => hcell m hm j (by omega) (by omega))
      (fun m j b hm h₁ h₂ => hkeep m j b hm (by omega) (by omega))
      fun j k h₁ h₂ h₃ => hfresh j k (by omega) h₂ (by omega)
    -- the byte just written stays
    have hstays : s'.mem (g i) = s₁.mem (g i) := by
      refine hst.mem _ ?_
      rintro ⟨k, h₃, h₄, heq⟩
      exact hfresh i k (Nat.le_refl i) (by omega) (by omega) heq
    refine ⟨s', ?_, hone.trans (hst.mono ?_), hfds, hworld, hP', fun j h₁ h₂ => ?_⟩
    · rw [memcpyFrom, bind_of_ok (peek_of_cell hsrc), bind_of_ok (poke_of_cell hdst)]
      exact hrun
    · rintro x ⟨j, h₁, h₂, hx⟩
      exact ⟨j, by omega, by omega, hx⟩
    by_cases hj : j = i
    · subst hj
      exact ⟨fun _ => hstays.trans hset, fun k h₃ h₄ => absurd h₄ (by omega)⟩
    obtain ⟨hfirst, hthen⟩ := hcopy j (by omega) (by omega)
    constructor
    · intro hnone
      rw [hfirst fun k h₃ h₄ => hnone k (by omega) h₄]
      exact hold _ (Ne.symm (hnone i (Nat.le_refl i) (by omega)))
    · intro k h₃ h₄ hk
      by_cases hki : k = i
      · subst hki
        have hnone : ∀ k', k + 1 ≤ k' → k' < j → g k' ≠ f j := fun k' h₅ h₆ heq =>
          hfresh k k' (Nat.le_refl k) (by omega) (by omega) (hk.trans heq.symm)
        rw [hfirst hnone, hstays, ← hk]
      · exact hthen k (by omega) h₄ hk

/-- The same where no byte is overwritten before it has been read. -/
theorem memcpyFrom_cells (dst src : Nat) {f g : Nat → Nat} {P : Mem → Prop} (n i : Nat)
    (hP : P s.mem)
    (hcell : ∀ m, P m → ∀ j, i ≤ j → j < i + n → cellAt m false (src + j) = some (f j) ∧
      cellAt m true (dst + j) = some (g j))
    (hkeep : ∀ m j b, P m → i ≤ j → j < i + n → P (Function.update m (g j) b))
    (hfresh : ∀ j k, i ≤ j → j < k → k < i + n → g j ≠ f k ∧ g j ≠ g k) :
    ∃ s', memcpyFrom dst src n i s = .ok () s' ∧
      Stores (fun x => ∃ j, i ≤ j ∧ j < i + n ∧ x = g j) s s' ∧ s'.fds = s.fds ∧
        s'.world = s.world ∧
      P s'.mem ∧ ∀ j, i ≤ j → j < i + n → s'.mem (g j) = s.mem (f j) := by
  obtain ⟨s', hrun, hst, hfds, hworld, hP', hcopy⟩ := memcpyFrom_overlapping dst src n i hP
    hcell hkeep fun j k h₁ h₂ h₃ => (hfresh j k h₁ h₂ h₃).2
  exact ⟨s', hrun, hst, hfds, hworld, hP', fun j h₁ h₂ =>
    (hcopy j h₁ h₂).1 fun k h₃ h₄ => (hfresh k j h₃ h₄ h₂).1⟩

/-- **`memcpy`** into a range of the window. Where a byte comes from the part of the range that
has been written before, it is the byte that is there now. -/
theorem memcpyFrom_window {dst : Nat} (src : Nat) (h₁ : 0x8000000000 ≤ dst) (n i : Nat)
    (rep : KernelRep s.heap tabs blocks leaf) (h₂ : dst + i + n ≤ 0x8040000000)
    (hfree : ∀ x, dst + i ≤ x → x < dst + i + n → Free blocks x)
    (hsrc : ∀ j, i ≤ j → j < i + n → leafCell leaf false (src + j) ≠ none) :
    ∃ s', memcpyFrom dst src n i s = .ok () s' ∧
      Stores (fun x => dst + i ≤ x ∧ x < dst + i + n) s s' ∧ s'.fds = s.fds ∧
        s'.world = s.world ∧
      ∀ j x, i ≤ j → j < i + n → leafCell leaf false (src + j) = some x →
        s'.mem (dst + j) = if dst + i ≤ x ∧ x < dst + j then s'.mem x else s.mem x := by
  have hcell : ∀ m, KernelRep { s.heap with mem := m } tabs blocks leaf → ∀ j, i ≤ j →
      j < i + n → cellAt m false (src + j) = some ((leafCell leaf false (src + j)).getD 0) ∧
      cellAt m true (dst + j) = some (dst + j) := by
    intro m hm j hj₁ hj₂
    obtain ⟨x, hx⟩ := Option.ne_none_iff_exists'.mp (hsrc j hj₁ hj₂)
    refine ⟨(hm.inv.cellAt_eq false (src + j)).trans ?_,
      cellAt_window true (by omega) (by omega)⟩
    rw [hx, Option.getD_some]
  have hkeep : ∀ m j b, KernelRep { s.heap with mem := m } tabs blocks leaf → i ≤ j → j < i +
      n → KernelRep { s.heap with mem := Function.update m (dst + j) b } tabs blocks leaf := by
    intro m j b hm hj₁ hj₂
    refine hm.write fun a ha => Function.update_of_ne ?_ _ _
    rintro rfl
    exact ha (hfree _ (by omega) (by omega))
  obtain ⟨s', hrun, hst, hfds, hworld, -, hcopy⟩ := memcpyFrom_overlapping dst src (g :=
    fun j => dst + j) n i rep hcell hkeep fun j k hj₁ hj₂ hj₃ => by omega
  refine ⟨s', hrun, hst.mono ?_, hfds, hworld, fun j x hj₁ hj₂ hx => ?_⟩
  · rintro x ⟨j, hj₁, hj₂, rfl⟩
    omega
  obtain ⟨hfirst, hthen⟩ := hcopy j hj₁ hj₂
  rw [hx, Option.getD_some] at hfirst hthen
  split
  · next hin =>
    have hback : dst + (x - dst) = x := by omega
    rw [hthen (x - dst) (by omega) (by omega) hback, hback]
  · next hout => exact hfirst fun k hk₁ hk₂ heq => hout (by omega)

/-- **`memcpy`** into a range of the window, from cells outside of it: what was there is there
twice. -/
theorem memcpyFrom_copies {dst : Nat} (src : Nat) (h₁ : 0x8000000000 ≤ dst) (n i : Nat)
    (rep : KernelRep s.heap tabs blocks leaf) (h₂ : dst + i + n ≤ 0x8040000000)
    (hfree : ∀ x, dst + i ≤ x → x < dst + i + n → Free blocks x)
    (hsrc : ∀ j, i ≤ j → j < i + n → ∃ x, leafCell leaf false (src + j) = some x ∧
      ¬ (dst + i ≤ x ∧ x < dst + i + n)) :
    ∃ s', memcpyFrom dst src n i s = .ok () s' ∧
      Stores (fun x => dst + i ≤ x ∧ x < dst + i + n) s s' ∧
      s'.fds = s.fds ∧ s'.world = s.world ∧
      ∀ j x, i ≤ j → j < i + n → leafCell leaf false (src + j) = some x →
        s'.mem (dst + j) = s.mem x := by
  have hmapped : ∀ j, i ≤ j → j < i + n → leafCell leaf false (src + j) ≠ none := by
    intro j hj₁ hj₂ hnone
    obtain ⟨x, hx, -⟩ := hsrc j hj₁ hj₂
    rw [hnone] at hx
    cases hx
  obtain ⟨s', hrun, hst, hfds, hworld, hcopy⟩ :=
    memcpyFrom_window src h₁ n i rep h₂ hfree hmapped
  refine ⟨s', hrun, hst, hfds, hworld, fun j x hj₁ hj₂ hx => ?_⟩
  obtain ⟨x', hx', hout⟩ := hsrc j hj₁ hj₂
  obtain rfl : x = x' := Option.some.inj (hx.symm.trans hx')
  rw [hcopy j x hj₁ hj₂ hx, if_neg fun hin => hout ⟨hin.1, by omega⟩]

/-! ## Inside the guest -/

/-- The hypervisor and the host are left alone, and the bookkeeping only grows. -/
structure Inside (s s' : Sys σ) : Prop where
  later : Later s s'
  fds : s'.fds = s.fds
  world : s'.world = s.world

theorem Inside.refl (s : Sys σ) : Inside s s := ⟨Later.refl s, rfl, rfl⟩

theorem Inside.trans (s₁ s₂ s₃ : Sys σ) (h₁ : Inside s₁ s₂) (h₂ : Inside s₂ s₃) :
    Inside s₁ s₃ :=
  ⟨Later.trans s₁ s₂ s₃ h₁.later h₂.later, h₂.fds.trans h₁.fds, h₂.world.trans h₁.world⟩

theorem inside_setHeap (s : Sys σ) (h : Heap) (w : Nat → Prop) : Inside s (s.setHeap h w) :=
  ⟨later_setHeap s h w, rfl, rfl⟩

theorem inside_peek (v : Nat) : Grows Inside (peek v : KernelM σ UInt8) := by
  intro s
  cases hc : cellAt s.mem false v with
  | none => exact (ends_of_error (peek_of_none hc)).mpr (Inside.refl s)
  | some c => exact (ends_of_ok (peek_of_cell hc)).mpr (Inside.refl s)

theorem inside_poke (v : Nat) (b : UInt8) : Grows Inside (poke v b : KernelM σ Unit) := by
  intro s
  cases hc : cellAt s.mem true v with
  | none => exact (ends_of_error (poke_of_none hc)).mpr (Inside.refl s)
  | some c => exact (ends_of_ok (poke_of_cell hc)).mpr (inside_setHeap _ _ _)

theorem inside_pokeLE (n : Nat) : ∀ v x, Grows Inside (pokeLE v n x : KernelM σ Unit) := by
  induction n with
  | zero => exact fun _ _ => Grows.pure Inside.refl ()
  | succ n ih =>
    exact fun v x => Grows.bind Inside.trans (inside_poke v _) fun _ => ih (v + 1) (x / 256)

theorem inside_memcpyFrom (dst src n : Nat) :
    ∀ i, Grows Inside (memcpyFrom dst src n i : KernelM σ Unit) := by
  induction n with
  | zero => exact fun _ => Grows.pure Inside.refl ()
  | succ n ih =>
    intro i
    exact Grows.bind Inside.trans (inside_peek _) fun _ =>
      Grows.bind Inside.trans (inside_poke _ _) fun _ => ih (i + 1)

theorem inside_doMemsetFrom (b : Nat) (c : UInt8) (n : Nat) :
    ∀ i, Grows Inside (doMemsetFrom b c n i : KernelM σ Unit) := by
  induction n with
  | zero => exact fun _ => Grows.pure Inside.refl ()
  | succ n ih => exact fun i => Grows.bind Inside.trans (inside_poke _ _) fun _ => ih (i + 1)

theorem inside_ofExec (x : Exec α) : Grows Inside (ofExec x : KernelM σ α) := by
  intro s
  cases x with
  | ok a => exact (ends_of_ok rfl).mpr (Inside.refl s)
  | error e => exact (ends_of_error rfl).mpr (Inside.refl s)

theorem inside_onHeap (f : Heap → Exec (Heap × α)) : Grows Inside (onHeap f : KernelM σ α) := by
  intro s
  cases hf : f s.heap with
  | ok p =>
    have heq : onHeap f s = .ok p.2 (s.setHeap p.1 fun x => p.1.mem x ≠ s.mem x) := by
      simp only [onHeap, hf]
    exact (ends_of_ok heq).mpr (inside_setHeap _ _ _)
  | error e =>
    have heq : onHeap f s = .error e s := by simp only [onHeap, hf]
    exact (ends_of_error heq).mpr (Inside.refl s)

theorem inside_note (b : Bool) : Grows Inside (note b : KernelM σ Unit) := by
  intro s
  have hnote : note b s = .ok () { s with refused := b || s.refused } := rfl
  exact (ends_of_ok hnote).mpr ⟨⟨fun h => by simp [h], fun _ => id⟩, rfl, rfl⟩

theorem inside_doKmalloc (len align : Nat) :
    Grows Inside (doKmalloc len align : KernelM σ Nat) := by
  unfold doKmalloc
  refine Grows.ite (Grows.pure Inside.refl 0) (Grows.bind Inside.trans (inside_onHeap _)
    fun victim => ?_)
  refine Grows.ite (Grows.throw Inside.refl _) ?_
  refine Grows.bind Inside.trans (inside_note _) fun _ => ?_
  exact Grows.bind Inside.trans (inside_doMemsetFrom _ _ _ _) fun _ => Grows.pure Inside.refl _

theorem inside_doKfree (p : Nat) : Grows Inside (doKfree p : KernelM σ Unit) := inside_onHeap _

/-- An order that every step inside the guest follows. -/
structure Frame (le : Sys σ → Sys σ → Prop) : Prop where
  inside : ∀ {s s'}, Inside s s' → le s s'
  trans : ∀ s₁ s₂ s₃, le s₁ s₂ → le s₂ s₃ → le s₁ s₃

theorem laterFrame : Frame (Later (σ := σ)) := ⟨Inside.later, Later.trans⟩

namespace Frame

variable {le : Sys σ → Sys σ → Prop}

theorem of (F : Frame le) {x : KernelM σ α} (hx : Grows Inside x) : Grows le x := fun s =>
  (hx s).mono (fun _ _ => F.inside) fun _ _ => F.inside

theorem pure (F : Frame le) (a : α) : Grows le (Pure.pure a : KernelM σ α) :=
  F.of (Grows.pure Inside.refl a)

theorem bind {β : Type} (F : Frame le) {x : KernelM σ α} {f : α → KernelM σ β} (hx : Grows le x)
    (hf : ∀ a, Grows le (f a)) : Grows le (x >>= f) := Grows.bind F.trans hx hf

/-- A request of three words to the hypervisor, around the hypercall. -/
theorem request (F : Frame le) {host : Host σ} {nr : HpNr}
    (hcall : ∀ pa, Grows le (hypercall host nr pa)) (len n₁ n₂ n₃ x₁ x₂ x₃ o₂ o₃ : Nat) :
    Grows le (do
      let kbuf ← doKmalloc len mallocNoAlign
      pokeLE kbuf n₁ x₁
      pokeLE (kbuf + o₂) n₂ x₂
      pokeLE (kbuf + o₃) n₃ x₃
      let pa ← ofExec (physical kbuf)
      let ret ← hypercall host nr pa
      doKfree kbuf
      return ret : KernelM σ Int) := by
  refine F.bind (F.of (inside_doKmalloc _ _)) fun kbuf => ?_
  refine F.bind (F.of (inside_pokeLE _ _ _)) fun _ => ?_
  refine F.bind (F.of (inside_pokeLE _ _ _)) fun _ => ?_
  refine F.bind (F.of (inside_pokeLE _ _ _)) fun _ => ?_
  refine F.bind (F.of (inside_ofExec _)) fun pa => ?_
  exact F.bind (hcall pa) fun ret => F.bind (F.of (inside_doKfree _)) fun _ => F.pure ret

/-- `hp_read` and `hp_write`. -/
theorem hpRw (F : Frame le) {host : Host σ} {nr : HpNr}
    (hcall : ∀ pa, Grows le (hypercall host nr pa)) (fildes : Int) (paddr nbyte : Nat) :
    Grows le (Kvm.hpRw nr host fildes paddr nbyte) :=
  F.request hcall 24 8 8 8 _ _ _ 8 16

end Frame

/-! ## `kmalloc` and `kfree` -/

/-- A cell of the arena that belongs to none of the chunks `used`. -/
def OwnCell (used : List Extent) (x : Nat) : Prop :=
  0x8000200000 ≤ x ∧ x < 0x8000400000 ∧ ∀ e ∈ used, ¬ e.Has x

/-- A chunk's bytes are nobody else's. -/
theorem KernelRep.own_of_has {c : Extent} (rep : KernelRep h tabs (c :: blocks) leaf) {x : Nat}
    (hx : c.Has x) : OwnCell (tabs ++ blocks) x := by
  obtain ⟨bin, T, inv, -⟩ := rep
  have hb :=
    inv.heap.bounds (List.mem_append_right bin (List.mem_append_right tabs List.mem_cons_self))
  have htop := inv.heap.top_le
  have hbase : kernelSpan.base = 0x8000200000 := rfl
  have hlimit : kernelSpan.limit = 0x8000400000 := rfl
  have hap := (List.pairwise_append.mp inv.heap.tiles.apart).2.1
  have hall := List.pairwise_cons.mp (hap.perm List.perm_middle fun h => h.symm)
  have h₁ := hx.1
  have h₂ := hx.2
  exact ⟨by omega, by omega, fun e he hex => (hall.1 e he).not_has hx hex⟩

/-- What the allocator changed behind its users' backs is its own. -/
theorem Untouched.own {m m' : Mem} {used : List Extent} (hun : Untouched kernelSpan m m' used)
    {x : Nat} (hx : m' x ≠ m x) : OwnCell used x := by
  have hbase : kernelSpan.base = 0x8000200000 := rfl
  have hlimit : kernelSpan.limit = 0x8000400000 := rfl
  have hin : ¬ (x < kernelSpan.base ∨ kernelSpan.limit ≤ x) := fun h => hx (hun.outside x h)
  exact ⟨by omega, by omega, fun e he hex => hx (hun.used e he x hex)⟩

/-- The unused area is the allocator's. -/
theorem KernelRep.own_of_top {x : Nat} (rep : KernelRep h tabs blocks leaf)
    (h₁ : h.arena.top ≤ x) (h₂ : x < 0x8000400000) : OwnCell (tabs ++ blocks) x := by
  obtain ⟨bin, T, inv, -⟩ := rep
  have hle := inv.heap.tiles.le
  have hbase : kernelSpan.base = 0x8000200000 := rfl
  refine ⟨by omega, h₂, fun e he hex => ?_⟩
  have hb := (inv.heap.bounds (List.mem_append_right bin he)).2.1
  have h₁ := hex.2
  omega

/-- A request that is turned down clears the start of memory. -/
theorem KernelRep.mem_of_declined {h' : Heap} {len x : Nat} (rep : KernelRep h tabs blocks leaf)
    (hd : Declined h h' len) (hx : ¬ OwnCell (tabs ++ blocks) x) :
    h'.mem x = if 0x8000000000 ≤ x ∧ x < 0x8000000000 + len then 0 else h.mem x := by
  refine hd.mem x ?_
  by_contra hin
  exact hx (rep.own_of_top (by omega) (by omega))

/-- An empty request that is turned down may have used the unused area. -/
theorem KernelRep.own_of_declined {h' : Heap} {len x : Nat} (rep : KernelRep h tabs blocks leaf)
    (hd : Declined h h' len) (hz : len = 0) (hx : h'.mem x ≠ h.mem x) :
    OwnCell (tabs ++ blocks) x := by
  by_contra hown
  exact hx ((rep.mem_of_declined hd hown).trans (if_neg (by omega)))

theorem doMemsetFrom_of_ok (b : Nat) (c : UInt8) :
    ∀ (n i : Nat) {s : Sys σ} {m : Mem}, memsetFrom kernelSpace b c n i s.mem = .ok m →
      doMemsetFrom b c n i s =
        .ok () (s.setMem m fun x => ∃ j, i ≤ j ∧ j < i + n ∧ kernelSpace (b + j) = some x)
  | 0, i, s, m, hm => by
    cases hm
    rw [setMem_self fun x => by rintro ⟨j, h₁, h₂, -⟩; omega]
    rfl
  | n + 1, i, s, m, hm => by
    rw [memsetFrom] at hm
    cases hc : kernelSpace (b + i) with
    | none =>
      rw [hc] at hm
      cases hm
    | some x =>
      rw [hc] at hm
      have hcell : cellAt s.mem true (b + i) = some x := by simp only [cellAt, hc]
      have hrest := doMemsetFrom_of_ok b c n (i + 1)
        (s := s.setMem (Function.update s.mem x c) (· = x)) hm
      rw [doMemsetFrom, bind_of_ok (poke_of_cell hcell), hrest]
      congr 1
      refine setMem_setMem fun y => ⟨?_, ?_⟩
      · rintro ⟨j, h₁, h₂, hj⟩
        by_cases hji : j = i
        · subst hji
          exact .inr (Option.some.inj (hj.symm.trans hc))
        · exact .inl ⟨j, by omega, by omega, hj⟩
      · rintro (⟨j, h₁, h₂, hj⟩ | rfl)
        · exact ⟨j, by omega, by omega, hj⟩
        · exact ⟨i, Nat.le_refl i, by omega, hc⟩

/-- `doKmalloc` is `kmalloc`, and writes what it changed and what it cleared. -/
theorem doKmalloc_of_ok {len align p : Nat} {h' : Heap} (hlen : len < 2 ^ 32)
    (hk : kmalloc kernelSpace s.heap len align = .ok (h', p)) :
    ∃ w, doKmalloc len align s = .ok p { s.setHeap h' w with refused := p == 0 || s.refused } ∧
      (∀ x, w x → h'.mem x ≠ s.mem x ∨ ∃ j, j < len ∧ kernelSpace (p + j) = some x) ∧
      ∀ x j, j < len → kernelSpace (p + j) = some x → w x := by
  rw [kmalloc, if_neg (Nat.not_le.mpr hlen)] at hk
  obtain ⟨⟨h₁, victim⟩, hint, hk⟩ := bind_eq_ok.mp hk
  by_cases hal : align ≠ mallocNoAlign ∧ victim &&& (align - 1) ≠ 0
  · simp only [hal, ne_eq, not_false_eq_true, and_self, if_true] at hk
    cases hk
  simp only [hal, if_false] at hk
  obtain ⟨m, hset, hk⟩ := bind_eq_ok.mp hk
  cases hk
  have hheap : onHeap (fun h => intKmalloc kernelSpace h (alignupTo (len + 16) 0x80) align) s =
      .ok p (s.setHeap h₁ fun x => h₁.mem x ≠ s.mem x) := by
    simp only [onHeap, hint]
  have hclear := doMemsetFrom_of_ok p 0 len 0 (s :=
    { s.setHeap h₁ (fun x => h₁.mem x ≠ s.mem x) with refused := p == 0 || s.refused }) hset
  refine ⟨fun x => (∃ j, 0 ≤ j ∧ j < 0 + len ∧ kernelSpace (p + j) = some x) ∨
    h₁.mem x ≠ s.mem x, ?_, ?_, ?_⟩
  · rw [doKmalloc, if_neg (Nat.not_le.mpr hlen), bind_of_ok hheap, if_neg hal]
    show (doMemsetFrom p 0 len 0 >>= fun _ => pure p)
      { s.setHeap h₁ (fun x => h₁.mem x ≠ s.mem x) with refused := p == 0 || s.refused } = _
    rw [bind_of_ok hclear]
    show EStateM.Result.ok p _ = EStateM.Result.ok p _
    congr 1
    simp only [Sys.setMem, Sys.setHeap, Sys.heap, or_assoc]
  · rintro x (⟨j, -, hj, hx⟩ | hx)
    · exact .inr ⟨j, by omega, hx⟩
    · by_cases hcl : ∃ j, j < len ∧ kernelSpace (p + j) = some x
      · exact .inr hcl
      · refine .inl ?_
        have hsame : m x = h₁.mem x := memset_frame hset fun j hj hjx => hcl ⟨j, hj, hjx⟩
        show m x ≠ s.mem x
        rwa [hsame]
  · intro x j hj hx
    exact .inl ⟨j, Nat.zero_le j, by omega, hx⟩

/-- A request was served: `c` is a chunk of the caller's now. -/
structure Taken (s s' : Sys σ) (tabs blocks : List Extent) (leaf : Nat → Nat) (len align : Nat)
    (c : Extent) : Prop extends Local (OwnCell (tabs ++ blocks)) s s' where
  alloc : Allocated s.heap s'.heap tabs blocks leaf len align c

/-- A request was turned down. Unless it is empty, the first byte of memory has been
cleared. -/
structure TurnedDown (s s' : Sys σ) (used : List Extent) (len : Nat) : Prop where
  small : len < 2 ^ 32
  short : s.heap.arena.topSize < len + 0x1090
  refused : s'.refused = true
  cleared : 0 < len → s'.written 0x8000000000
  quiet : len = 0 → ∀ x, s'.written x → OwnCell used x ∨ s.written x
  declined : len ≤ 0x200000 → Declined s.heap s'.heap len
  handed : len ≤ 0x200000 → s'.handed = s.handed
  last : len ≤ 0x200000 → s'.kernel.lastMmapped = s.kernel.lastMmapped

/-- A request turned down for lack of memory, however it ends. -/
theorem doKmalloc_refused {len align : Nat} {h₁ : Heap} (hlen : len < 2 ^ 32) (hpos : 0 < len)
    (halign : align = mallocNoAlign ∨ align = mallocPageAlign)
    (hint : intKmalloc kernelSpace s.heap (alignupTo (len + 16) 0x80) align = .ok (h₁, 0)) :
    Ends (doKmalloc len align) s
      (fun p s' => p = 0 ∧ s'.refused = true ∧ s'.written 0x8000000000)
      fun _ s' => s'.refused = true ∧ s'.written 0x8000000000 := by
  have hheap : onHeap (fun h => intKmalloc kernelSpace h (alignupTo (len + 16) 0x80) align) s =
      .ok 0 (s.setHeap h₁ fun x => h₁.mem x ≠ s.mem x) := by
    simp only [onHeap, hint]
  obtain ⟨n, rfl⟩ : ∃ n, len = n + 1 := ⟨len - 1, by omega⟩
  have hnote : note ((0 : Nat) == 0) (s.setHeap h₁ fun x => h₁.mem x ≠ s.mem x) =
      .ok () { s.setHeap h₁ (fun x => h₁.mem x ≠ s.mem x) with refused := true } := rfl
  rw [doKmalloc, if_neg (Nat.not_le.mpr hlen), ends_bind_of_ok hheap,
    if_neg (alignment_ok (fun _ => rfl) halign), ends_bind_of_ok hnote]
  -- the first byte is stored, and what follows keeps it on record
  have hmark : Ends (doMemsetFrom 0 0 (n + 1) 0)
      { s.setHeap h₁ (fun x => h₁.mem x ≠ s.mem x) with refused := true }
      (fun _ s' => s'.refused = true ∧ s'.written 0x8000000000)
      fun _ s' => s'.refused = true ∧ s'.written 0x8000000000 := by
    rw [doMemsetFrom]
    have hstore : Ends (poke 0 0)
      { s.setHeap h₁ (fun x => h₁.mem x ≠ s.mem x) with refused := true }
      (fun _ s' => s'.refused = true ∧ s'.written 0x8000000000) fun _ s' => s'.refused = true ∧
      s'.written 0x8000000000 := (ends_of_ok (poke_of_cell (cellAt_low true (by decide)))).mpr
      ⟨rfl, .inl rfl⟩
    refine hstore.bind fun _ s₂ hs₂ => ?_
    refine (laterFrame.of (inside_doMemsetFrom 0 0 n 1) s₂).mono (fun _ s' h => ?_)
      fun _ s' h => ?_
    · exact ⟨h.1 hs₂.1, h.2 _ hs₂.2⟩
    · exact ⟨h.1 hs₂.1, h.2 _ hs₂.2⟩
  exact hmark.bind fun _ s' hs' => ends_pure.mpr ⟨rfl, hs'⟩

/-- **`kmalloc`**: served, longer than it accepts, or turned down. -/
theorem doKmalloc_spec (rep : KernelRep s.heap tabs blocks leaf) (len : Nat) {align : Nat}
    (halign : align = mallocNoAlign ∨ align = mallocPageAlign) :
    Ends (doKmalloc len align) s
      (fun p s' => (∃ c, p = c.addr + 16 ∧ Taken s s' tabs blocks leaf len align c) ∨
        (p = 0 ∧ 2 ^ 32 ≤ len ∧ s' = s) ∨ (p = 0 ∧ TurnedDown s s' (tabs ++ blocks) len))
      fun _ s' => TurnedDown s s' (tabs ++ blocks) len ∧ 0 < len := by
  rcases rep.kmalloc len halign with ⟨h', c, hok, ha⟩ | ⟨hbig, -⟩ | ⟨hle, h', hok, hd⟩ |
    ⟨hgt, hlt, hroom, ⟨h₁, hint⟩, -⟩
  · have hb := ha.rep.inv.bounds (e := c) List.mem_cons_self
    have hfits := ha.fits
    unfold Extent.fin at hb
    obtain ⟨w, hdo, hw, -⟩ := doKmalloc_of_ok (show len < 2 ^ 32 by omega) hok
    -- the block's bytes and the allocator's own writes are nobody else's
    have hown : ∀ x, w x → OwnCell (tabs ++ blocks) x := fun x hx => by
      rcases hw x hx with hch | ⟨j, hj, hcell⟩
      · exact ha.untouched.own hch
      · rw [kernelSpace_window (by omega) (by omega)] at hcell
        cases hcell
        exact ha.rep.own_of_has ⟨by omega, by unfold Extent.fin; omega⟩
    have hne : (c.addr + 16 == 0) = false := by simp
    refine (ends_of_ok hdo).mpr (.inl ⟨c, rfl,
      ⟨⟨fun x hx => ?_, fun x => ?_, fun _ => .inr, rfl, ?_, rfl⟩, rfl, rfl⟩, ha⟩)
    · by_contra hch
      exact hx (ha.untouched.own hch)
    · exact Or.imp_left (hown x)
    · show ((c.addr + 16 == 0) || s.refused) = s.refused
      rw [hne, Bool.false_or]
  · have hdo : doKmalloc len align s = .ok 0 s := by
      rw [doKmalloc, if_pos hbig]
      rfl
    exact (ends_of_ok hdo).mpr (.inr (.inl ⟨rfl, hbig, rfl⟩))
  · obtain ⟨w, hdo, hw, hwrite⟩ := doKmalloc_of_ok (show len < 2 ^ 32 by omega) hok
    refine (ends_of_ok hdo).mpr (.inr (.inr ⟨rfl, by omega, hd.short, rfl, fun hpos => ?_,
      fun hz x => ?_, fun _ => hd, fun _ => rfl, fun _ => rfl⟩))
    · exact .inl (hwrite _ 0 hpos (kernelSpace_low (by decide)))
    · rintro (hx | hx)
      · rcases hw x hx with hch | ⟨j, hj, -⟩
        · exact .inl (rep.own_of_declined hd hz hch)
        · omega
      · exact .inr hx
  · refine (doKmalloc_refused hlt (by omega) halign hint).mono (fun p s' h => ?_)
      fun _ s' h => ?_
    · exact .inr (.inr ⟨h.1, hlt, hroom, h.2.1, fun _ => h.2.2, fun hz => by omega,
        fun hle => by omega, fun hle => by omega, fun hle => by omega⟩)
    · exact ⟨⟨hlt, hroom, h.1, fun _ => h.2, fun hz => by omega, fun hle => by omega,
        fun hle => by omega, fun hle => by omega⟩, by omega⟩

/-- `kmalloc` has a block for the request. -/
def Serves (s : Sys σ) (len align : Nat) : Prop :=
  ∃ p s', doKmalloc len align s = .ok p s' ∧ p ≠ 0

theorem doKmalloc_cases (rep : KernelRep s.heap tabs blocks leaf) {len align : Nat}
    (halign : align = mallocNoAlign ∨ align = mallocPageAlign) (hlen : len < 2 ^ 32) :
    (Serves s len align ∧ ∃ c s', doKmalloc len align s = .ok (c.addr + 16) s' ∧
      Taken s s' tabs blocks leaf len align c) ∨
    (¬ Serves s len align ∧ Ends (doKmalloc len align) s
      (fun p s' => p = 0 ∧ TurnedDown s s' (tabs ++ blocks) len)
      fun _ s' => TurnedDown s s' (tabs ++ blocks) len ∧ 0 < len) := by
  have hspec := doKmalloc_spec rep len halign
  cases hd : doKmalloc len align s with
  | ok p s' =>
    rcases (ends_of_ok hd).mp hspec with ⟨c, rfl, ht⟩ | ⟨-, hbig, -⟩ | ⟨rfl, ht⟩
    · exact .inl ⟨⟨_, _, hd, by omega⟩, c, s', rfl, ht⟩
    · omega
    · refine .inr ⟨?_, (ends_of_ok hd).mpr ⟨rfl, ht⟩⟩
      rintro ⟨p, s'', hp, hne⟩
      rw [hd] at hp
      cases hp
      exact hne rfl
  | error e s' =>
    refine .inr ⟨?_, (ends_of_error hd).mpr ((ends_of_error hd).mp hspec)⟩
    rintro ⟨p, s'', hp, -⟩
    rw [hd] at hp
    cases hp

/-- **What is served** is what there is room for. -/
theorem KernelRep.serves_iff (rep : KernelRep s.heap tabs blocks leaf) {len align : Nat}
    (halign : align = mallocNoAlign ∨ align = mallocPageAlign) (hlen : len < 2 ^ 32) :
    Serves s len align ↔ Room s.heap len align := by
  have hall := rep
  obtain ⟨bin, T, inv, -⟩ := rep
  rw [← inv.heap.kmalloc_served_iff isolated_kernelSpan halign hlen]
  constructor
  · intro hserves
    rcases hall.kmalloc len halign with ⟨h', c, hok, -⟩ | ⟨hbig, -⟩ | ⟨-, h', hok, -⟩ |
      ⟨hgt, -, -, ⟨h₁, hint⟩, -⟩
    · exact ⟨h', c.addr + 16, hok, Nat.succ_ne_zero _⟩
    · omega
    · obtain ⟨p, s', hp, hne⟩ := hserves
      obtain ⟨w, hdo, -⟩ := doKmalloc_of_ok hlen hok
      rw [hdo] at hp
      cases hp
      exact absurd rfl hne
    · obtain ⟨p, s', hp, hne⟩ := hserves
      have hzero := (ends_of_ok hp).mp (doKmalloc_refused hlen (by omega) halign hint)
      exact absurd hzero.1 hne
  · rintro ⟨h', p, hok, hp⟩
    obtain ⟨w, hdo, -⟩ := doKmalloc_of_ok hlen hok
    exact ⟨p, _, hdo, hp⟩

/-- **A second request**: there is room for it if the first has left some. -/
theorem Taken.roomFor_iff {len nb : Nat} {c : Extent} (rep : KernelRep s.heap tabs blocks leaf)
    (ht : Taken s s' tabs blocks leaf len mallocNoAlign c) (hpos : 0 < nb) :
    RoomFor s'.heap nb ↔ RoomAfter s.heap (chunkSize len) nb := by
  obtain ⟨bin, T, inv, -⟩ := rep
  obtain ⟨bin', T', inv', -⟩ := ht.alloc.rep
  have hlimit := inv.heap.limit
  have hlimit' := inv'.heap.limit
  have hnodup : (freeChunks s.heap).Nodup := by
    rw [inv.heap.freeChunks_eq]
    exact ((List.sublist_append_left bin _).nodup
      (List.Nodup.of_map _ inv.heap.tiles.nodup_addr))
  have hsize : c.size = chunkSize len := ht.alloc.size
  rw [← hsize]
  exact ht.alloc.placed.roomFor_iff hpos hnodup (by omega)

/-- **`kfree`** of a block. -/
theorem doKfree_spec {c : Extent} (rep : KernelRep s.heap tabs (c :: blocks) leaf) :
    ∃ s', doKfree (c.addr + 16) s = .ok () s' ∧ KernelRep s'.heap tabs blocks leaf ∧
      Local (OwnCell (tabs ++ blocks)) s s' ∧ s.heap.arena.topSize ≤ s'.heap.arena.topSize := by
  obtain ⟨h', hok, rep', hun, hroom⟩ := rep.kfree
  refine ⟨s.setHeap h' fun x => h'.mem x ≠ s.mem x, ?_, rep',
    ⟨⟨fun x hx => ?_, fun x => ?_, fun _ => .inr, rfl, rfl, rfl⟩, rfl, rfl⟩, hroom⟩
  · simp only [doKfree, onHeap, hok, Except.map]
  · by_contra hch
    exact hx (hun.own hch)
  · exact Or.imp_left fun hch => hun.own hch

/-- **Last in, first out**: a block that is given back after everything above it leaves the top
where it was, or further down. -/
theorem Taken.top_le {s₁ s₂ s₃ : Sys σ} {len : Nat} {c : Extent}
    (ht : Taken s s₁ tabs blocks leaf len mallocNoAlign c)
    (rep₂ : KernelRep s₂.heap tabs (c :: blocks) leaf)
    (htop : s₂.heap.arena.top ≤ s₁.heap.arena.top)
    (hfree : doKfree (c.addr + 16) s₂ = .ok () s₃) : s₃.heap.arena.top ≤ s.heap.arena.top := by
  obtain ⟨h', hok, -, -, -⟩ := rep₂.kfree
  have hheap : s₃.heap = h' := by
    simp only [doKfree, onHeap, hok, Except.map] at hfree
    cases hfree
    rfl
  have hc := rep₂.fin_le_top List.mem_cons_self
  have hpos := (ht.alloc.rep.inv.bounds (e := c) List.mem_cons_self).2
  rw [hheap, rep₂.kfree_top hok]
  cases ht.alloc.placed with
  | bin _ _ _ _ _ hbin =>
    split
    · unfold Extent.fin at *
      omega
    · omega
  | top _ haddr _ htop₁ =>
    rw [if_pos (by omega)]
    omega

/-! ## Hypercalls -/

/-- The call that `handle_rw` makes: on the buffer that the guest names. -/
theorem handleRw_host {fptr : Int → Nat → Nat → HostCall} {t : FdMap} {g : Guest} {data : Nat}
    {call : HostCall} {after : HostReply → FdMap × Int}
    (h : handleRw fptr t g data = .ok (.host call after)) :
    (∃ fd, call = fptr fd (loadLE g.byte (data + 8) 8) (loadLE g.byte (data + 16) 8)) ∧
      ∀ r, (after r).2 = resultOf r := by
  unfold handleRw at h
  obtain ⟨-, -, h⟩ := bind_eq_ok.mp h
  obtain ⟨w₀, -, h⟩ := bind_eq_ok.mp h
  obtain ⟨w₁, h₁, h⟩ := bind_eq_ok.mp h
  obtain ⟨w₂, h₂, h⟩ := bind_eq_ok.mp h
  rw [Guest.word_ok h₁, Guest.word_ok h₂] at h
  dsimp only at h
  split at h
  · cases h
  · rcases processOnFd_ok h with ⟨-, heq⟩ | ⟨-, call, hc, heq⟩
    · cases heq
    · obtain ⟨-, -, hc⟩ := bind_eq_ok.mp hc
      cases hc
      injection heq with hcall hafter
      exact ⟨⟨_, hcall⟩, fun r => by rw [hafter]⟩

/-- The only request that makes the hypervisor read into guest memory, and where. -/
theorem hpHandler_read {nr : HpNr} {t : FdMap} {g : Guest} {data : Nat} {fd : Int} {buf n : Nat}
    {after : HostReply → FdMap × Int}
    (h : hpHandler nr t g data = .ok (.host (.read fd buf n) after)) :
    nr = .read ∧ buf = loadLE g.byte (data + 8) 8 ∧ n = loadLE g.byte (data + 16) 8 := by
  cases nr with
  | openFile =>
    cases hpHandleOpen_effect h with
    | uses _ _ about => cases about
  | read =>
    obtain ⟨⟨fd', heq⟩, -⟩ := handleRw_host (show handleRw .read t g data = _ from h)
    cases heq
    exact ⟨rfl, rfl, rfl⟩
  | write =>
    obtain ⟨⟨fd', heq⟩, -⟩ := handleRw_host (show handleRw .write t g data = _ from h)
    cases heq
  | close =>
    change hpHandleClose t data = _ at h
    unfold hpHandleClose at h
    rcases processOnFd_ok h with ⟨-, heq⟩ | ⟨-, call, hc, heq⟩
    · cases heq
    · cases hc
      cases heq
  | lseek =>
    change hpHandleLseek t g data = _ at h
    unfold hpHandleLseek at h
    obtain ⟨-, -, h⟩ := bind_eq_ok.mp h
    obtain ⟨w₀, -, h⟩ := bind_eq_ok.mp h
    obtain ⟨w₁, -, h⟩ := bind_eq_ok.mp h
    obtain ⟨w₂, -, h⟩ := bind_eq_ok.mp h
    rcases processOnFd_ok h with ⟨-, heq⟩ | ⟨-, call, hc, heq⟩
    · cases heq
    · cases hc
      cases heq
  | exit => cases h
  | panic =>
    change hpHandlePanic g data = _ at h
    unfold hpHandlePanic at h
    obtain ⟨-, -, h⟩ := bind_eq_ok.mp h
    obtain ⟨len, -, h⟩ := bind_eq_ok.mp h
    cases h

theorem receive_stores (call : HostCall) (r : HostReply) :
    Stores (fun x => ∃ fd buf n, call = .read fd buf n ∧ 0x8000000000 + buf ≤ x ∧
      x < 0x8000000000 + buf + n) s (s.receive call r) := by
  cases call with
  | read fd buf n =>
    have hlen : (r.bytes.take n).length ≤ n := List.length_take_le n r.bytes
    have hbase : kernelBaseOffset = 0x8000000000 := rfl
    refine (stores_setMem fun x hx => splice_of_notMem (by omega)).mono fun x hx => ?_
    exact ⟨fd, buf, n, rfl, hx.1, by omega⟩
  | openFile name => exact Stores.refl _ s
  | write fd buf n => exact Stores.refl _ s
  | lseek fd off whence => exact Stores.refl _ s
  | close fd => exact Stores.refl _ s

/-- What the hypervisor and the host keep for themselves. -/
theorem stores_set (s : Sys σ) (t : FdMap) (w : σ) (W : Nat → Prop) :
    Stores W s { s with fds := t, world := w } :=
  ⟨⟨fun _ _ => rfl, fun _ => .inr, fun _ => id, rfl, rfl, rfl⟩, rfl⟩

theorem readPort_of_ne {ret : Int} (h : ret ≠ unusedVar) (s : Sys σ) :
    readPort ret s = .ok ret s := by
  simp only [readPort, thenReturn, h, if_false]

theorem readPort_spec (ret : Int) (s : Sys σ) :
    Ends (readPort ret) s (fun v s' => v = ret ∧ s' = s) fun e s' => e = .hypervisor ∧
      s' = s := by
  by_cases hr : ret = unusedVar
  · have heq : readPort ret s = .error .hypervisor s := by
      simp only [readPort, thenReturn, hr, if_true]
    exact (ends_of_error heq).mpr ⟨rfl, rfl⟩
  · exact (ends_of_ok (readPort_of_ne hr s)).mpr ⟨rfl, rfl⟩

/-- **A hypercall** writes guest memory only where a read was asked for, and returns what the
handler says. -/
theorem hypercall_spec (host : Host σ) (nr : HpNr) (data : Nat) {W : Nat → Prop}
    {P : Int → Prop}
    (hanswer : ∀ t ret, hpHandler nr s.fds s.guest (data % 2 ^ 32) = .ok (.answer t ret) →
      P ret)
    (hhost : ∀ call after, hpHandler nr s.fds s.guest (data % 2 ^ 32) = .ok (.host call after) →
      P (after (host s.world call).2).2)
    (hW : ∀ fd buf n after,
      hpHandler nr s.fds s.guest (data % 2 ^ 32) = .ok (.host (.read fd buf n) after) →
      ∀ x, 0x8000000000 + buf ≤ x → x < 0x8000000000 + buf + n → W x) :
    Ends (hypercall host nr data) s (fun ret s' => P ret ∧ Stores W s s') fun e s' =>
      e = .hypervisor ∧ Stores W s s' := by
  cases hh : hpHandler nr s.fds s.guest (data % 2 ^ 32) with
  | error e =>
    have heq : hypercall host nr data s = .error .hypervisor s := by simp only [hypercall, hh]
    exact (ends_of_error heq).mpr ⟨rfl, Stores.refl W s⟩
  | ok a =>
    cases a with
    | answer t ret =>
      have heq : hypercall host nr data s = readPort ret { s with fds := t } := by
        simp only [hypercall, hh]
      rw [ends_congr heq]
      refine (readPort_spec ret _).mono (fun v s' h => ?_) fun e s' h => ⟨h.1, ?_⟩
      · obtain ⟨rfl, rfl⟩ := h
        exact ⟨hanswer t v hh, stores_set s t s.world W⟩
      · exact h.2 ▸ stores_set s t s.world W
    | host call after =>
      have heq : hypercall host nr data s =
          readPort (after (host s.world call).2).2
            ({ s with
                fds := (after (host s.world call).2).1
                world := (host s.world call).1 }.receive call (host s.world call).2) := by
        simp only [hypercall, hh]
      have hst : Stores W s
          ({ s with
              fds := (after (host s.world call).2).1
              world := (host s.world call).1 }.receive call (host s.world call).2) := by
        refine (stores_set s _ _ W).trans ((receive_stores call _).mono ?_)
        rintro x ⟨fd, buf, n, rfl, h₁, h₂⟩
        exact hW fd buf n after hh x h₁ h₂
      rw [ends_congr heq]
      refine (readPort_spec _ _).mono (fun v s' h => ?_) fun e s' h => ⟨h.1, ?_⟩
      · obtain ⟨rfl, rfl⟩ := h
        exact ⟨hhost call after hh, hst⟩
      · exact h.2 ▸ hst

theorem grows_hypercall (host : Host σ) (nr : HpNr) (data : Nat) :
    Grows Later (hypercall host nr data) := by
  intro s
  refine (hypercall_spec (s := s) host nr data (W := fun _ => True) (P := fun _ => True)
    (fun _ _ _ => trivial) (fun _ _ _ => trivial) fun _ _ _ _ _ _ _ _ => trivial).mono ?_ ?_
  · exact fun _ s' h => h.2.toWrites.later
  · exact fun _ s' h => h.2.toWrites.later

end BpfExamples.Kvm
