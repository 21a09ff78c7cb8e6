import BpfExamples.Kvm.ArgumentArea
import BpfExamples.Kvm.FileHost
import BpfExamples.Kvm.Neutral
import BpfExamples.Kvm.UserStrings

/-!
# The page that the user shares with the allocator

The arguments' block is mapped as a whole page, of which a short block is only a part. Behind it
lies the header of another chunk, and the user can write it. What becomes of the heap when
`sys_read` is made to do so: the chunk is given back with a size that is not its own
(`sysRead_header`).
-/

namespace BpfExamples.Kvm

open Mem

variable {S : Span} {h : Heap} {bin used : List Extent} {d e : Extent}

/-! ## Overwritten sizes -/

/-- The chunk `f` when the size in the header of `e` is overwritten with `x`. -/
def resize (e : Extent) (x : Nat) (f : Extent) : Extent :=
  if f.addr = e.addr then ⟨e.addr, x⟩ else f

theorem resize_addr (e : Extent) (x : Nat) (f : Extent) : (resize e x f).addr = f.addr := by
  unfold resize
  split
  · next h => exact h.symm
  · rfl

theorem resize_self (e : Extent) (x : Nat) : resize e x e = ⟨e.addr, x⟩ := if_pos rfl

theorem resize_of_ne {x : Nat} {f : Extent} (h : f.addr ≠ e.addr) : resize e x f = f := if_neg h

/-- Chunks that are apart stay apart when one of them gets smaller. -/
theorem Spread.resize {l : List Extent} {x : Nat} (hs : Spread l) (he : e ∈ l) (h₁ : 24 ≤ x)
    (h₂ : x ≤ e.size) : Spread (l.map (Kvm.resize e x)) := by
  have hsub : ∀ f ∈ l, (Kvm.resize e x f).size ≤ f.size := by
    intro f hf
    by_cases hfe : f.addr = e.addr
    · obtain rfl : f = e := by
        by_contra hne
        have := hs.fields hf he hne
        omega
      rw [resize_self]
      exact h₂
    · rw [resize_of_ne hfe]
  refine ⟨List.pairwise_map.mpr (hs.apart.imp_of_mem fun {f g} hf hg hap => ?_), fun f hf => ?_⟩
  · have hsf := hsub f hf
    have hsg := hsub g hg
    unfold Extent.Apart Extent.fin at hap ⊢
    rw [resize_addr, resize_addr]
    omega
  · obtain ⟨g, hg, rfl⟩ := List.mem_map.mp hf
    rw [resize_addr]
    refine ⟨?_, (hs.room g hg).2⟩
    by_cases hge : g.addr = e.addr
    · rw [Kvm.resize, if_pos hge]
      exact h₁
    · rw [resize_of_ne hge]
      exact (hs.room g hg).1

/-- The total changes by the difference. -/
theorem Spread.sum_resize {l : List Extent} {x : Nat} (hs : Spread l) (he : e ∈ l) :
    ((l.map (Kvm.resize e x)).map Extent.size).sum + e.size = (l.map Extent.size).sum + x := by
  have hp : l.Perm (e :: l.erase e) := List.perm_cons_erase he
  have hs' := hs.perm hp
  have hrest : (l.erase e).map (Kvm.resize e x) = l.erase e := by
    refine (List.map_congr_left fun f hf => ?_).trans (List.map_id _)
    refine resize_of_ne fun hfe => ?_
    have hap := (List.pairwise_cons.mp hs'.apart).1 f hf
    have he' := hs'.room e List.mem_cons_self
    have hf' := hs'.room f (List.mem_cons_of_mem _ hf)
    unfold Extent.Apart Extent.fin at hap
    omega
  rw [((hp.map _).map _).sum_nat, (hp.map _).sum_nat, List.map_cons, List.map_cons,
    List.map_cons, hrest, resize_self, List.sum_cons, List.sum_cons]
  show x + _ + e.size = e.size + _ + x
  omega

/-- **`kfree` in a heap one of whose sizes was overwritten**: the total of the unused memory
takes the new size for the old one. -/
theorem kfree_resized {m' : Mem} {x : Nat} (inv : HeapInv S h bin (d :: used))
    (he : e ∈ d :: bin) (hm : ∀ a, a < e.addr ∨ e.addr + 8 ≤ a → m' a = h.mem a)
    (hx : sizeOf m' e.addr = x) (h₁ : 24 ≤ x) (h₂ : x ≤ e.size)
    (hv : invalidChunkSize x = false) :
    ∃ h', kfree ⟨m', h.arena⟩ (d.addr + 16) = .ok h' ∧
      freeTotal h' + e.size = freeTotal h + d.size + x := by
  have hs : Spread (d :: bin) :=
    (inv.spread.perm List.perm_middle).sublist ((List.sublist_append_left bin used).cons_cons d)
  have hs' := hs.resize he h₁ h₂
  have hsum := hs.sum_resize (x := x) he
  have hvalid : ∀ f ∈ d :: bin, invalidChunkSize (resize e x f).size = false := by
    intro f hf
    unfold resize
    split
    · exact hv
    · have hin : f ∈ bin ++ d :: used := by
        rcases List.mem_cons.mp hf with rfl | hf
        · exact List.mem_append_right bin List.mem_cons_self
        · exact List.mem_append_left _ hf
      exact inv.valid_size hin (inv.size_lt hin)
  -- the sizes that are found now
  have hstored : ∀ f ∈ d :: bin, sizeOf m' f.addr = (resize e x f).size := by
    intro f hf
    by_cases hfe : f.addr = e.addr
    · rw [resize, if_pos hfe, hfe]
      exact hx
    · have hne : f ≠ e := fun heq => hfe (heq ▸ rfl)
      have hfields := hs.fields hf he hne
      rw [resize_of_ne hfe, sizeOf_congr fun a ha₁ ha₂ => hm a (by omega)]
      rcases List.mem_cons.mp hf with rfl | hf
      · exact inv.stored f List.mem_cons_self
      · exact inv.threaded.stored f hf
  have hbin : Bin m' h.arena.sortedBin (bin.map (resize e x)) := by
    refine ⟨?_, fun f hf => ?_⟩
    · have haddr : (bin.map (resize e x)).map Extent.addr = bin.map Extent.addr := by
        rw [List.map_map]
        exact List.map_congr_left fun f _ => resize_addr e x f
      rw [haddr]
      refine inv.threaded.chain.congr fun y hy => ?_
      obtain ⟨f, hf, rfl⟩ := List.mem_map.mp hy
      refine nextOf_congr fun a ha₁ ha₂ => hm a ?_
      by_cases hfe : f = e
      · subst hfe
        omega
      · have := hs.fields (List.mem_cons_of_mem d hf) he hfe
        omega
    · obtain ⟨g, hg, rfl⟩ := List.mem_map.mp hf
      rw [resize_addr]
      exact hstored g (List.mem_cons_of_mem d hg)
  have hnn : ∀ f ∈ bin.map (resize e x), f.addr ≠ 0 := by
    intro f hf
    obtain ⟨g, hg, rfl⟩ := List.mem_map.mp hf
    have hb := (inv.bounds (List.mem_append_left (d :: used) hg)).1
    have hbase := S.base_pos
    rw [resize_addr]
    omega
  have hlen : (bin.map (resize e x)).length < walkFuel := by
    rw [List.length_map]
    exact inv.bin_length
  have hfree : freeTotal h = h.arena.topSize + (bin.map Extent.size).sum := by
    rw [freeTotal, inv.freeChunks_eq]
  rw [List.map_cons, List.map_cons, List.map_cons, List.sum_cons, List.sum_cons] at hsum
  rw [kfree, if_neg (Nat.succ_ne_zero _)]
  simp only [mem2chunk, Nat.add_sub_cancel, hstored d List.mem_cons_self,
    hvalid d List.mem_cons_self, Bool.false_eq_true, if_false]
  split
  · -- right below the top
    refine ⟨_, rfl, ?_⟩
    have hbin' : Bin (store64 m' d.addr 0) h.arena.sortedBin (bin.map (resize e x)) := by
      refine hbin.frame fun f hf a ha₁ ha₂ => store64_of_notMem ?_
      have hap := (List.pairwise_cons.mp (List.map_cons ▸ hs'.apart)).1 f hf
      have hd := hs'.room _ (List.mem_map_of_mem List.mem_cons_self)
      have hf' := hs'.room f (List.mem_map.mpr (by
        obtain ⟨g, hg, rfl⟩ := List.mem_map.mp hf
        exact ⟨g, List.mem_cons_of_mem d hg, rfl⟩))
      unfold Extent.Apart Extent.fin at hap
      rw [resize_addr] at hap
      omega
    have hlist : freeChunks ⟨store64 m' d.addr 0, { h.arena with
        top := d.addr, topSize := h.arena.topSize + (resize e x d).size }⟩ =
          bin.map (resize e x) :=
      binFrom_eq walkFuel hbin' hnn hlen
    rw [freeTotal, hlist, hfree]
    show h.arena.topSize + (resize e x d).size + _ + e.size = _
    omega
  · obtain ⟨h', hok, hbin', harena, -⟩ := insertSorted_spec (h := ⟨m', h.arena⟩) (c :=
      resize e x d) hbin (by rw [resize_addr]; exact hstored d List.mem_cons_self) hs' hnn hlen
    rw [resize_addr] at hok
    refine ⟨h', hok, ?_⟩
    have hlist : freeChunks h' = binInsert (resize e x d) (bin.map (resize e x)) := by
      refine binFrom_eq walkFuel hbin' (fun f hf => ?_) ?_
      · rcases mem_binInsert.mp hf with rfl | hf
        · have hb :=
            (inv.bounds (List.mem_append_right bin (List.mem_cons_self (a := d) (l := used)))).1
          have hbase := S.base_pos
          rw [resize_addr]
          omega
        · exact hnn f hf
      · have hlt := inv.length_lt
        rw [List.length_append, List.length_cons] at hlt
        rw [(binInsert_perm _ _).length_eq, List.length_cons, List.length_map]
        omega
    rw [freeTotal, hlist, harena, ((binInsert_perm _ _).map _).sum_nat, List.map_cons,
      List.sum_cons, hfree]
    show h.arena.topSize + _ + e.size = _
    omega

/-! ## `sys_read` into a header -/

section

variable {σ : Type} {s : Sys σ} {tabs blocks : List Extent} {leaf : Nat → Nat} {host : Host σ}
  {fd rfd errno : Int} {pos : σ → Nat} {T : Tables}

/-- The walks of user addresses, as long as the tables' chunks are left alone. -/
theorem PageInv.walk_frame (inv : PageInv h bin tabs blocks T) {m' : Mem}
    (hun : Untouched kernelSpan h.mem m' tabs) {a : Nat} (ha : Outside a) (u w : Bool) :
    translateWalk m' a u w = leafTranslate (leafOf h.mem T (a / 0x1000)) a u w := by
  have hbase : kernelSpan.base = 0x8000200000 := rfl
  have htree : TreeInv m' T := inv.tree.frame (fun a h₁ h₂ => hun.outside a (by omega))
    fun ht _ a => inv.table_same hun ht
  have hleaf : leafOf m' T = leafOf h.mem T := TreeInv.leafOf_frame fun ht a =>
    inv.table_same hun ht
  rw [translateWalk_user htree ha, hleaf]

/-- **A read into the header behind the arguments**: the size found there is part of the heap's
total when the call is over. -/
theorem sysRead_header (len : Nat) (hlen : len ≤ 0xf70)
    (rep : KernelRep s.heap tabs blocks leaf) (hc : argumentBlock len ∈ blocks)
    (hleaf : leaf 0x201 = leafWord 0x201000 protRW)
    (hpaged : ∀ e ∈ tabs ++ blocks, (e.addr + 16) % 0x1000 = 0)
    (habove : ∃ f ∈ tabs ++ blocks, (argumentBlock len).fin ≤ f.addr) (hroom : 0x3000 ≤ s.room)
    (hfile : FileHost host rfd [0x60, 0, 0, 0, 0, 0, 0, 0] errno pos) (hpos : pos s.world = 0)
    (hfd : Opened s.fds fd rfd) :
    ∃ ret s', sysRead host fd ((argumentBlock len).fin - 0x8000000000) 8 s = .ok ret s' ∧
      freeTotal s'.heap ≠ freeTotal s.heap := by
  obtain ⟨hmod, hge, hlt⟩ := alignupTo_spec (len + 16)
  have hfin : (argumentBlock len).fin = 0x8000200ff0 + alignupTo (len + 16) 0x80 := rfl
  obtain ⟨v, hv⟩ : ∃ v, (argumentBlock len).fin = 0x8000000000 + v :=
    ⟨(argumentBlock len).fin - 0x8000000000, by omega⟩
  rw [hv, Nat.add_sub_cancel_left]
  have hout : ∀ j, j < 8 → Outside (v + j) := fun j hj => ⟨by omega, by omega, by omega⟩
  have hpage : ∀ j, j < 8 → (v + j) / 0x1000 = 0x201 := fun j hj => by omega
  have hacc : accessOk s.mem true v 8 = true := by
    refine (accessOk_inPage (by decide) (by omega)).mpr
      ⟨userMemRangeOk_iff.mpr (hout 0 (by decide)), v, ?_⟩
    refine (rep.inv.walk_user (hout 0 (by decide)) true true).trans ?_
    rw [hpage 0 (by decide), hleaf]
    exact leafTranslate_argument (hpage 0 (by decide)) true true
  -- the block of the call
  rcases doKmalloc_cases rep (.inl rfl) (show 8 < 2 ^ 32 by decide) with ⟨-, d, s₁, hok, ht⟩ |
    ⟨-, hno⟩
  swap
  · have hshort : s.room < 8 + 0x1090 := hno.out (fun _ _ h => h.2.short) fun _ _ h => h.1.short
    omega
  obtain ⟨q, hq, hend, hbuf, -⟩ := ht.buffer
  have hphys : ofExec (physical (d.addr + 16)) s₁ = .ok q s₁ := by
    rw [hq, physical_window (by omega)]
    rfl
  have hread := hpRead_file hfile ht.alloc.rep.inv ⟨hfd.1, ht.fds ▸ hfd.2⟩ hbuf (by decide)
  have hkeeps := hpRw_neutral host .read fd ht.alloc.rep hbuf
  have hroom₁ : s.room ≤ s₁.room + 8 + 0x1090 := ht.alloc.room
  rw [show pos s₁.world = 0 from ht.world ▸ hpos, ← hq] at hread
  cases hrun : hpRead host fd q 8 s₁ with
  | error e' s₂ =>
    have hshort := ((ends_of_error hrun).mp hread).room
    omega
  | ok ret s₂ =>
    obtain ⟨-, hbytes, hret⟩ := (ends_of_ok hrun).mp hread
    obtain rfl : ret = 8 := hret
    obtain ⟨-, hn⟩ := (ends_of_ok hrun).mp hkeeps
    obtain ⟨bin, T, inv, hleaf₂⟩ := hn.rep
    have hused : HeapInv kernelSpan s₂.heap bin (d :: (tabs ++ blocks)) :=
      inv.heap.perm_used List.perm_middle
    -- the chunk behind the arguments is free, or the one of this call
    obtain ⟨e, he, haddr⟩ : ∃ e ∈ d :: bin, e.addr = (argumentBlock len).fin := by
      have hmem : ∀ f ∈ tabs ++ blocks, f ∈ bin ++ d :: (tabs ++ blocks) := fun f hf =>
        List.mem_append_right bin (List.mem_cons_of_mem d hf)
      obtain ⟨f, hf, hle⟩ := habove
      have hfb := hused.bounds (hmem f hf)
      obtain ⟨e, he, haddr⟩ := hused.tiles.next (hmem _ (List.mem_append_right tabs hc))
        (by unfold Extent.fin at *; omega)
      refine ⟨e, ?_, haddr⟩
      rcases List.mem_append.mp he with he | he
      · exact List.mem_cons_of_mem d he
      · rcases List.mem_cons.mp he with rfl | he
        · exact List.mem_cons_self
        · have := hpaged e he
          omega
    have hd := hused.bounds (e := d) (List.mem_append_right bin List.mem_cons_self)
    have hlimit : s₂.heap.arena.top ≤ 0x8000400000 := hused.top_le
    have hdsize := ht.alloc.fits
    have hs : Spread (d :: bin) := (hused.spread.perm List.perm_middle).sublist
      ((List.sublist_append_left bin _).cons_cons d)
    have hheap : e ∈ bin ++ d :: (tabs ++ blocks) := by
      rcases List.mem_cons.mp he with rfl | he
      · exact List.mem_append_right bin List.mem_cons_self
      · exact List.mem_append_left _ he
    have hb := hused.bounds hheap
    unfold Extent.fin at hb hd
    -- the copy to the user
    have hcells : ∀ m, (∀ a, a < e.addr ∨ e.addr + 8 ≤ a → m a = s₂.mem a) →
        ∀ j, 0 ≤ j → j < 0 + 8 → cellAt m false (d.addr + 16 + j) = some (d.addr + 16 + j) ∧
        cellAt m true (v + j) = some (e.addr + j) := by
      intro m hm j _ hj
      refine ⟨cellAt_window false (by omega) (by omega), ?_⟩
      have hun : Untouched kernelSpan s₂.heap.mem m tabs := by
        refine ⟨fun f hf a ha => hm a ?_, fun a ha => hm a ?_⟩
        · have hne : e ≠ f := by
            rintro rfl
            have := hpaged e (List.mem_append_left blocks hf)
            omega
          have hap := Extent.apart_of_mem hused.tiles.apart hheap (List.mem_append_right bin
            (List.mem_cons_of_mem d (List.mem_append_left blocks hf))) hne
          unfold Extent.Apart Extent.Has Extent.fin at *
          omega
        · have hbase : kernelSpan.base = 0x8000200000 := rfl
          have hspan : kernelSpan.limit = 0x8000400000 := rfl
          omega
      have hwalk := inv.walk_frame hun (hout j (by omega)) false true
      rw [hpage j (by omega), congrFun hleaf₂ 0x201, hleaf,
        leafTranslate_argument (hpage j (by omega))] at hwalk
      rw [cellAt, kernelSpace_user (userMemRangeOk_iff.mpr (hout j (by omega)))]
      simp only [hwalk, Option.map_some]
      rw [if_pos (by omega), haddr, hv, Nat.add_assoc]
      rfl
    have hkeep : ∀ m j b, (∀ a, a < e.addr ∨ e.addr + 8 ≤ a → m a = s₂.mem a) → 0 ≤ j →
        j < 0 + 8 → ∀ a, a < e.addr ∨ e.addr + 8 ≤ a → Function.update m (e.addr + j) b a =
        s₂.mem a := by
      intro m j b hm _ hj a ha
      rw [Function.update_of_ne (by omega), hm a ha]
    have hfresh : ∀ j k, 0 ≤ j → j < k → k < 0 + 8 → e.addr + j ≠ d.addr + 16 + k ∧
        e.addr + j ≠ e.addr + k := by
      intro j k _ hjk hk
      refine ⟨?_, by omega⟩
      by_cases hde : d = e
      · subst hde
        omega
      · have := hs.fields List.mem_cons_self he hde
        omega
    obtain ⟨s₃, hcopy, hst, -, -, hrest, hcopied⟩ :=
      memcpyFrom_cells v (d.addr + 16) 8 0 (P := fun m => ∀ a, a < e.addr ∨ e.addr + 8 ≤ a →
      m a = s₂.mem a) (fun _ _ => rfl) hcells hkeep hfresh
    have hsize : sizeOf s₃.mem e.addr = 0x60 := by
      have hbyte : ∀ x, 0 ≤ x → x < 0 + 8 → s₃.mem (e.addr + x) = [0x60, 0, 0, 0, 0, 0, 0,
          0].getD x 0 := by
        intro x _ hx
        rw [hcopied x (Nat.zero_le x) hx, hbytes x (by omega), Nat.zero_add,
          List.getD_eq_getElem?_getD, List.getElem?_eq_getElem (show x < 8 by omega)]
        rfl
      refine (loadLE_shift s₃.mem e.addr 8 0).symm.trans ?_
      rw [loadLE_congr hbyte]
      decide
    obtain ⟨h', hfree, htotal⟩ := kfree_resized hused he hrest hsize (by decide)
      (by omega) (by decide)
    have hheap₃ : s₃.heap = ⟨s₃.mem, s₂.heap.arena⟩ := by
      rw [← hst.arena]
      rfl
    have hkfree : doKfree (d.addr + 16) s₃ = .ok ()
        (s₃.setHeap h' fun x => h'.mem x ≠ s₃.mem x) := by
      simp only [doKfree, onHeap, hheap₃, hfree, Except.map]
    refine ⟨8, s₃.setHeap h' fun x => h'.mem x ≠ s₃.mem x, ?_, ?_⟩
    · rw [sysRead_checked (Int.not_lt.mpr hfd.1) hacc, sysReadBody, bind_of_ok hok,
        bind_of_ok hphys, bind_of_ok hrun]
      show (memcpyFrom v (d.addr + 16) 8 0 >>= fun _ => doKfree (d.addr + 16) >>= fun _ =>
        pure 8) s₂ = _
      rw [bind_of_ok hcopy, bind_of_ok hkfree]
      rfl
    · -- the total before the call, and with the block of the call taken
      obtain ⟨bin₀, T₀, inv₀, -⟩ := rep
      have hsum₀ := inv₀.heap.freeTotal_eq
      have hsum := hused.freeTotal_eq
      rw [List.map_cons, List.sum_cons] at hsum
      have hshape := (hused.shape e hheap).size
      unfold Boundary at hshape
      show freeTotal h' ≠ _
      omega

end

end BpfExamples.Kvm
