import BpfExamples.Kvm.Boot
import BpfExamples.Kvm.Start
import BpfExamples.Kvm.SystemSpec

/-!
# The page of the arguments (`kernel/kernel_main.c`)

`switch_user` is the first to allocate anything after boot, so where its block and its page
table end up is known (`argumentArea_spec`): the block is at `0x201000`, behind a gap of the
heap, and the table on the first page that is left. The block is not a multiple of a page, but
it is a whole page that the user gets.
-/

namespace BpfExamples.Kvm

open Mem

variable {σ : Type} {s s' : Sys σ}

/-- `add_trans_user` where the last table alone is missing: it is allocated on a page of its
own. -/
theorem PageInv.addTransUser_table {h : Heap} {bin tabs blocks : List Extent} {T : Tables}
    {v pdp pd : Nat} (inv : PageInv h bin tabs blocks T) (hv : userMemRangeOk v = true)
    (h₃ : T 3 (v / 2 ^ 39) = some pdp) (h₂ : T 2 (v / 2 ^ 30) = some pd)
    (h₁ : T 1 (v / 2 ^ 21) = none) (paddr prot : Nat) :
    (∃ h' t bin', addTransUser h v paddr prot = .ok h' ∧
      PageInv h' bin' (t :: tabs) blocks (T.set 1 (v / 2 ^ 21) (t.addr + 16)) ∧
      leafOf h'.mem (T.set 1 (v / 2 ^ 21) (t.addr + 16)) =
        Function.update (leafOf h.mem T) (v / 0x1000) (leafWord paddr prot) ∧
      Kept h.mem h'.mem blocks ∧ h.arena.topSize ≤ h'.arena.topSize + 0x2090 ∧
      Placed h h' bin bin' t mallocPageAlign ∧ t.size = 0x1080) ∨
    h.arena.topSize < 0x2090 := by
  have hout := outside_of_userMemRangeOk hv
  obtain ⟨hk₃, hk₂, hk₁⟩ := hout.not_kernelSlot
  have hroot : T (3 + 1) (v / 2 ^ 39 / 512) = some 0x80001f7000 := by
    have h48 : v / 2 ^ 39 / 512 = 0 := by
      have := hout.2.1
      omega
    rw [h48]
    exact inv.tree.root
  have hpdp : T (2 + 1) (v / 2 ^ 30 / 512) = some pdp := by
    rw [prefix_up]
    exact h₃
  have hpd : T (1 + 1) (v / 2 ^ 21 / 512) = some pd := by
    rw [prefix_up]
    exact h₂
  simp only [addTransUser, hv, Bool.not_true, Bool.false_eq_true, if_false, slot_eq,
    pml4Addr_eq]
  rw [inv.addTransStep_there (by decide) hroot hk₃ h₃, ok_bind,
    inv.addTransStep_there (by decide) hpdp hk₂ h₂, ok_bind]
  rcases inv.addTransStep_missing (by decide) hpd hk₁ h₁ with
    ⟨h', t, bin', hok, inv', hleaf, hkept, hleft, hplaced, hsize⟩ | ⟨-, hroom⟩
  swap
  · exact .inr hroom
  have hi : v / 2 ^ 12 % 512 < 512 := Nat.mod_lt _ (by decide)
  have hpage : v / 2 ^ 21 * 512 + v / 2 ^ 12 % 512 = v / 0x1000 := by omega
  have ht : T.set 1 (v / 2 ^ 21) (t.addr + 16) 1 (v / 2 ^ 21) = some (t.addr + 16) :=
    Tables.set_self _ _ _ _
  have hset := inv'.tree.leafOf_setLeaf ht (leafWord paddr prot) hi
  rw [hpage, Nat.mod_eq_of_lt (leafWord_lt paddr prot), hleaf] at hset
  refine .inl ⟨_, t, bin', by rw [hok]; rfl, inv'.setLeaf ht (leafWord paddr prot) hi, hset,
    hkept.trans (inv'.kept_store ht (leafWord paddr prot) hi), hleft, hplaced.setMem _, hsize⟩

/-- Where all tables are there, `add_trans_user` writes one word. -/
theorem PageInv.addTransUser_there {h : Heap} {bin tabs blocks : List Extent} {T : Tables}
    {v pt : Nat} (inv : PageInv h bin tabs blocks T) (hv : userMemRangeOk v = true)
    (h₁ : T 1 (v / 2 ^ 21) = some pt) (paddr prot : Nat) :
    addTransUser h v paddr prot =
      .ok { h with
        mem := store64 h.mem (pt + 8 * (v / 0x1000 % 512)) (leafWord paddr prot) } := by
  have hout := outside_of_userMemRangeOk hv
  obtain ⟨hk₃, hk₂, hk₁⟩ := hout.not_kernelSlot
  have hroot : T (3 + 1) (v / 2 ^ 39 / 512) = some 0x80001f7000 := by
    have h48 : v / 2 ^ 39 / 512 = 0 := by
      have := hout.2.1
      omega
    rw [h48]
    exact inv.tree.root
  -- a table hangs in a table
  obtain ⟨pd, hpd⟩ : ∃ pd, T (1 + 1) (v / 2 ^ 21 / 512) = some pd := by
    refine Option.ne_none_iff_exists'.mp fun hnone => ?_
    rw [inv.tree.orphan (by decide) hnone] at h₁
    cases h₁
  have h₂ : T 2 (v / 2 ^ 30) = some pd := by
    rw [prefix_up] at hpd
    exact hpd
  obtain ⟨pdp, hpdp⟩ : ∃ pdp, T (2 + 1) (v / 2 ^ 30 / 512) = some pdp := by
    refine Option.ne_none_iff_exists'.mp fun hnone => ?_
    rw [inv.tree.orphan (by decide) hnone] at h₂
    cases h₂
  have h₃ : T 3 (v / 2 ^ 39) = some pdp := by
    rw [prefix_up] at hpdp
    exact hpdp
  simp only [addTransUser, hv, Bool.not_true, Bool.false_eq_true, if_false, slot_eq,
    pml4Addr_eq]
  rw [inv.addTransStep_there (by decide) hroot hk₃ h₃, ok_bind, inv.addTransStep_there
    (by decide) hpdp hk₂ h₂, ok_bind, inv.addTransStep_there (by decide) hpd hk₁ h₁, ok_bind]
  rfl

/-- The gap below the arguments' block. -/
def firstGap : Extent := ⟨0x8000200000, 0xff0⟩

/-- The block for `len` bytes of arguments. -/
def argumentBlock (len : Nat) : Extent := ⟨0x8000200ff0, alignupTo (len + 16) 0x80⟩

/-- The leaf words when the arguments' page is all that the user has. -/
def argumentLeaf : Nat → Nat := Function.update (fun _ => 0) 0x201 (leafWord 0x201000 protRW)

/-- The arguments' page is mapped to itself. -/
theorem leafTranslate_argument {a : Nat} (ha : a / 0x1000 = 0x201) (u w : Bool) :
    leafTranslate (leafWord 0x201000 protRW) a u w = some a := by
  rw [leafTranslate_leafWord (by decide) (by decide) (.inl rfl),
    if_pos ⟨fun _ => rfl, fun _ => rfl⟩]
  congr 1
  omega

/-- The step from boot to a kernel with the arguments' page. -/
structure ArgumentPage (s s' : Sys σ) (len : Nat) (t : Extent) : Prop where
  rep : KernelRep s'.heap [t] [argumentBlock len] argumentLeaf
  free : freeChunks s'.heap =
    if consume (argumentBlock len).fin mallocPageAlign = 0 then [firstGap]
    else binInsert ⟨(argumentBlock len).fin, consume (argumentBlock len).fin mallocPageAlign⟩
      [firstGap]
  table : t.addr = (argumentBlock len).fin + consume (argumentBlock len).fin mallocPageAlign
  zero : ∀ i, i < len → s'.mem (0x8000201000 + i) = 0
  kept : ∀ a, 0x80001fc000 ≤ a → a < 0x8000200000 → s'.mem a = s.mem a
  fds : s'.fds = s.fds
  world : s'.world = s.world
  last : s'.kernel.lastMmapped = s.kernel.lastMmapped
  refused : s'.refused = s.refused
  handed : s'.handed = 0x8000201000 :: s.handed
  room : 0x1f0000 ≤ s'.room

/-- The table is in the first place behind the block where it can be. -/
theorem ArgumentPage.near {s s' : Sys σ} {len : Nat} {t : Extent}
    (h : ArgumentPage s s' len t) : t.addr < (argumentBlock len).fin + 0x1000 := by
  have hgap : consume (argumentBlock len).fin mallocPageAlign < 0x1000 := by
    unfold consume
    exact Nat.and_lt_two_pow _ (show mallocPageAlign - 1 < 2 ^ 12 by decide)
  rw [h.table]
  omega

/-- **`switch_user` on a kernel that has just booted** has the memory for its block and its
table, and the table is the last thing below the top. -/
theorem argumentArea_top {m : Mem} (hz : TablesClear m) (hs : s.heap = bootHeap m) {len : Nat}
    (hlen : len ≤ 0x4000) :
    ∃ s' t, argumentArea len s = .ok (0x8000201000, 0x201000) s' ∧ ArgumentPage s s' len t ∧
      t.size = 0x1080 ∧
      s'.heap.arena.top = t.fin := by
  have inv := bootHeap_inv hz
  have htop : (bootHeap m).arena.top = 0x8000200000 := rfl
  have hsize : (bootHeap m).arena.topSize = 0x200000 := rfl
  obtain ⟨-, hge, hlt⟩ := alignupTo_spec (len + 16)
  have hgap : consume 0x8000200000 mallocPageAlign = 0xff0 := by decide
  -- the block
  obtain ⟨h₁, c, bin₁, hok₁, hs₁, hzero, hplaced₁, hcsize⟩ : ∃ h₁ c bin₁, kmalloc kernelSpace
    (bootHeap m) len mallocPageAlign = .ok (h₁, c.addr + 16) ∧ Served kernelSpan (bootHeap m) h₁
    ([] ++ []) c bin₁ ∧ (∀ a, c.addr + 16 ≤ a → a < c.addr + 16 + len → h₁.mem a = 0) ∧
    Placed (bootHeap m) h₁ [] bin₁ c mallocPageAlign ∧ c.size = alignupTo (len + 16) 0x80 := by
    rcases kmalloc_spec len isolated_kernelSpan inv.heap (.inr rfl) with
      ⟨h₁, c, bin₁, hok₁, -, -, hs₁, hzero, -, hplaced₁, hcsize⟩ | ⟨hbig, -⟩ | ⟨-, hroom, -⟩
    · exact ⟨h₁, c, bin₁, hok₁, hs₁, hzero, hplaced₁, hcsize⟩
    · omega
    · omega
  cases hplaced₁ with
  | page haddr hbin₁ htop₁ =>
    rw [htop, hgap] at haddr hbin₁
    obtain rfl : c = argumentBlock len := by
      obtain ⟨addr, size⟩ := c
      cases haddr
      cases hcsize
      rfl
    obtain rfl : bin₁ = [firstGap] := hbin₁
    have hbase : (argumentBlock len).addr + 16 = 0x8000201000 := rfl
    rw [hbase] at hok₁ hzero
    obtain ⟨inv₁, hleaf₁⟩ : PageInv h₁ [firstGap] [] [argumentBlock len] bootTables ∧
      leafOf h₁.mem bootTables = leafOf (bootHeap m).mem bootTables :=
      inv.realloc hs₁.inv hs₁.untouched
    have hfin : (argumentBlock len).fin = 0x8000200ff0 + alignupTo (len + 16) 0x80 := rfl
    -- the table
    have hroom₁ : 0x1f2090 ≤ h₁.arena.topSize := by
      have := inv₁.heap.limit
      have hlimit : kernelSpan.limit = 0x8000400000 := rfl
      omega
    obtain ⟨h₂, t, bin₂, hok₂, inv₂, hleaf₂, hkept₂, hroom₂, hplaced₂, htsize⟩ :=
      (inv₁.addTransUser_table (v := 0x201000)
      (by decide) (show bootTables 3 _ = some 0x80001f8000 from rfl) (show bootTables 2 _ =
      some 0x80001f9000 from rfl) rfl 0x201000 protRW).resolve_right (by omega)
    cases hplaced₂ with
    | page haddr₂ hbin₂ htop₂ =>
      rw [htop₁] at haddr₂ hbin₂
      rw [← hs] at hok₁
      obtain ⟨w, hdo, -, -⟩ := doKmalloc_of_ok (show len < 2 ^ 32 by omega) hok₁
      set s₁ : Sys σ := { s.setHeap h₁ w with refused := 0x8000201000 == 0 || s.refused }
        with hs₁def
      have hmap : doAddTransUser 0x201000 0x201000 protRW s₁ = .ok ()
          (s₁.setHeap h₂ fun x => h₂.mem x ≠ s₁.mem x) := by
        have hheap : s₁.heap = h₁ := rfl
        simp only [doAddTransUser, onHeap, hheap, hok₂, Except.map]
      have hphys : ofExec (physical 0x8000201000) s₁ = .ok 0x201000 s₁ := by
        rw [show physical 0x8000201000 = .ok 0x201000 from rfl]
        rfl
      refine ⟨{ s₁.setHeap h₂ (fun x => h₂.mem x ≠ s₁.mem x) with
          handed := 0x8000201000 :: s.handed },
        t, ?_, ⟨⟨bin₂, _, inv₂, ?_⟩, ?_, haddr₂, fun i hi => ?_, fun a hlo hhi => ?_, rfl, rfl,
        rfl, rfl, rfl, ?_⟩, htsize, htop₂⟩
      · rw [argumentArea, bind_of_ok hdo, bind_of_ok hphys, bind_of_ok hmap]
        rfl
      · refine hleaf₂.trans ?_
        rw [hleaf₁, bootHeap_leaf]
        rfl
      · exact inv₂.heap.freeChunks_eq.trans hbin₂
      · -- the table is another chunk
        refine (hkept₂.blocks _ List.mem_cons_self _ ⟨?_, ?_⟩).trans
          (hzero _ (by omega) (by omega))
        · show 0x8000200ff0 ≤ _
          omega
        · omega
      · have hboot : s.mem a = (bootHeap m).mem a := congrArg (fun h : Heap => h.mem a) hs
        have hblock := hs₁.untouched.outside a (.inl (show a < 0x8000200000 from hhi))
        exact (hkept₂.outside a (.inr hlo) (.inl hhi)).trans (hblock.trans hboot.symm)
      · show 0x1f0000 ≤ h₂.arena.topSize
        omega

theorem argumentArea_spec {m : Mem} (hz : TablesClear m) (hs : s.heap = bootHeap m) {len : Nat}
    (hlen : len ≤ 0x4000) :
    ∃ s' t, argumentArea len s = .ok (0x8000201000, 0x201000) s' ∧ ArgumentPage s s' len t := by
  obtain ⟨s', t, hrun, hpage, -⟩ := argumentArea_top hz hs hlen
  exact ⟨s', t, hrun, hpage⟩

end BpfExamples.Kvm
