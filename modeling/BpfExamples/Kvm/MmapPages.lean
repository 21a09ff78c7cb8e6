import BpfExamples.Kvm.ArgumentArea
import BpfExamples.Kvm.MmapCalls

/-!
# The pages of `sys_mmap` (`kernel/syscalls/sys_mmap.c`)

What a call of `sys_mmap` that returns an address has done to the address space (`MmapResult`):
its pages lead into one new block, hold the bytes that the host has read and then zeros, and no
other page is translated otherwise or has changed in the payload of a block (`sysMmap_result`).
A page may show more than that: the arguments' page shows words of the allocator, and these
change (`sysMmap_shared_page`).
-/

namespace BpfExamples.Kvm

open Mem

variable {σ : Type} {s s₁ s₂ s' : Sys σ} {blocks : List Extent} {leaf : Nat → Nat}
  {host : Host σ} {fd rfd : Int} {content : List UInt8} {pos : σ → Nat}
  {addr len prot flags offset : Nat}

/-! ## Files whose reads may come short -/

/-- Behind the host's descriptor `rfd` there is a regular file; every call may fail, and a read
may return less than there is. -/
structure PartialFile (host : Host σ) (rfd : Int) (content : List UInt8) (pos : σ → Nat) :
    Prop where
  lseek : ∀ w off, ((host w (.lseek rfd off seekSet)).2.ret = -1 ∧ 0 < (host w
    (.lseek rfd off seekSet)).2.errno ∧ (host w (.lseek rfd off seekSet)).2.errno ≤ 4095) ∨
    ((host w (.lseek rfd off seekSet)).2.ret = off ∧
      pos (host w (.lseek rfd off seekSet)).1 = off)
  read : ∀ w buf n, ((host w (.read rfd buf n)).2.ret = -1 ∧
    (host w (.read rfd buf n)).2.bytes = []) ∨
    ∃ k : Nat, k ≤ n ∧ k ≤ content.length - pos w ∧ (host w (.read rfd buf n)).2.ret = k ∧
      (host w (.read rfd buf n)).2.bytes = (content.drop (pos w)).take k

theorem FileHost.partialFile {errno : Int} (h : FileHost host rfd content errno pos) :
    PartialFile host rfd content pos where
  lseek w off := .inr ⟨by rw [h.lseek], h.lseek_pos w off⟩
  read w buf n := by
    refine .inr ⟨min n (content.length - pos w), by omega, by omega, by rw [h.read], ?_⟩
    rw [h.read]
    show (content.drop (pos w)).take n = _
    rw [List.take_eq_take_iff, List.length_drop]
    omega

/-- A seek that looks well to the guest has gone well. -/
theorem PartialFile.seek (hfile : PartialFile host rfd content pos) (w : σ) {off : Nat}
    (hoff : off < 2 ^ 31) :
    (-4095 ≤ resultOf (host w (.lseek rfd off seekSet)).2 ∧
      resultOf (host w (.lseek rfd off seekSet)).2 < 0) ∨
      (0 ≤ resultOf (host w (.lseek rfd off seekSet)).2 ∧
        pos (host w (.lseek rfd off seekSet)).1 = off) := by
  unfold resultOf
  rcases hfile.lseek w off with ⟨hret, h₁, h₂⟩ | ⟨hret, hpos⟩
  · left
    rw [hret, show toInt32 (-1) = -1 by decide, if_pos (by decide)]
    omega
  · right
    rw [hret, toInt32_of_lt hoff, if_neg (by omega)]
    exact ⟨Int.natCast_nonneg off, hpos⟩

/-- The bytes that arrive, as a function of the number that the read returns. -/
theorem PartialFile.bytes (hfile : PartialFile host rfd content pos) (w : σ) (buf n i : Nat) :
    (((host w (.read rfd buf n)).2.bytes.take n)[i]?).getD 0 =
      fileData content (pos w) (host w (.read rfd buf n)).2.ret.toNat i := by
  rcases hfile.read w buf n with ⟨hret, hbytes⟩ | ⟨k, hk, -, hret, hbytes⟩
  · rw [hret, hbytes]
    simp [fileData]
  · rw [hret, hbytes, Int.toNat_natCast, List.take_take, Nat.min_eq_right hk, fileData]
    by_cases hi : i < k
    · rw [if_pos hi, List.getElem?_take_of_lt hi, List.getElem?_drop,
        List.getD_eq_getElem?_getD]
    · rw [if_neg hi, List.getElem?_eq_none (by simp; omega), Option.getD_none]

/-! ## The result of a call -/

/-- The bytes of the pages, where the read of the file is made in the host's state `w`. -/
def mmapBytes (host : Host σ) (fd rfd : Int) (content : List UInt8) (offset len p : Nat) (w : σ)
    (i : Nat) : UInt8 :=
  if fd < 0 then 0 else fileData content offset (host w (.read rfd p len)).2.ret.toNat i

/-- The byte lies in the payload of a block that is in use and holds no page table. -/
def InBlock (s : Sys σ) (x : Nat) : Prop :=
  ∃ blocks leaf, KernelInv s.heap blocks leaf ∧ Payload blocks x

/-- How a call gets to its result `r`: new pages, their bytes and then their protection. -/
structure MmapDone (host : Host σ) (addr len prot flags : Nat) (fd : Int) (offset r : Nat)
    (s s₁ s₂ s' : Sys σ) : Prop where
  pages : newPages addr len prot flags s = .ok (.ok r) s₁
  fills : fillPages host fd r len offset s₁ = .ok 0 s₂
  protects : doMprotect r (alignup len) prot s₂ = .ok 0 s'

/-- A call that returns the address `r` has mapped `len` bytes there, to the physical pages from
`p` on. -/
structure MmapResult (s s' : Sys σ) (len prot : Nat) (bytes : Nat → UInt8) (r p : Nat) :
    Prop where
  /-- The range is the user's. -/
  user : ∀ i, i < alignup len → Outside (r + i)
  /-- Its pages lead to consecutive physical pages, with the protection that was asked for. -/
  walks : r % 0x1000 = 0 ∧ p % 0x1000 = 0 ∧ ∀ i, i < alignup len →
    ∀ u w, translateWalk s'.mem (r + i) u w =
    if (u = true → hasFlag prot protR = true) ∧ (w = true → hasFlag prot protW = true) then
      some (p + i) else none
  /-- These are in a chunk that was not in use, and that overlaps no other. -/
  fresh : ∃ c ∈ liveChunks s'.heap, c ∉ liveChunks s.heap ∧
    (∀ e ∈ liveChunks s'.heap, e ≠ c → e.Apart c) ∧
    ∀ i, i < alignup len → c.Has (0x8000000000 + p + i)
  /-- No other page of the user leads there. -/
  unshared : ∀ a, Outside a → (a < r ∨ r + alignup len ≤ a) →
    ∀ u w q, translateWalk s'.mem a u w = some q →
    q < p ∨ p + alignup len ≤ q
  bytes : ∀ i, i < alignup len → s'.mem (0x8000000000 + p + i) = bytes i
  /-- All other pages are translated as before, -/
  others : ∀ a, a < 2 ^ 48 → (a < r ∨ r + alignup len ≤ a) → ∀ u w, translateWalk s'.mem a u w =
    translateWalk s.mem a u w
  /-- and hold what they held, wherever they show a block. -/
  contents : ∀ a, Outside a → (a < r ∨ r + alignup len ≤ a) →
    ∀ q, translateWalk s.mem a false false = some q →
    InBlock s (0x8000000000 + q) → s'.mem (0x8000000000 + q) = s.mem (0x8000000000 + q)

/-- Nothing that is mapped for the user lies in the unused area. -/
def BelowTop (s : Sys σ) : Prop :=
  ∀ a, Outside a → ∀ q, translateWalk s.mem a false false = some q →
    0x8000000000 + q < s.heap.arena.top

/-- The invariant of the kernel, with the next area at a page and the unused area out of the
user's sight. -/
structure Settled (s : Sys σ) : Prop where
  inv : s.kernel.Inv
  last : s.kernel.LastAligned
  below : BelowTop s

/-- What one access may reach, the kernel may. -/
theorem KernelInv.walk_kernel (inv : KernelInv s.heap blocks leaf) {a q : Nat} (ha : Outside a)
    {u w : Bool} (h : translateWalk s.mem a u w = some q) :
    translateWalk s.mem a false false = some q := by
  have hwalk := fun u w => inv.walk_user ha u w
  rw [show translateWalk s.mem a u w = _ from hwalk u w, leafTranslate] at h
  rw [show translateWalk s.mem a false false = _ from hwalk false false, leafTranslate]
  split at h
  · next hc => rwa [if_pos ⟨hc.1, fun h => Bool.noConfusion h, fun h => Bool.noConfusion h⟩]
  · cases h

/-- **One more area** from the unused area leaves none of the rest in sight. -/
theorem Adds.belowTop {A : Area} {c : Extent} (h : Adds s s' blocks leaf A c)
    (inv : KernelInv s.heap blocks leaf) (hb : BelowTop s)
    (habove : s.heap.arena.top ≤ c.addr) : BelowTop s' := by
  intro a ha q hq
  have hfits := h.fits
  have hc := h.inv.bounds (e := c) List.mem_cons_self
  have htop : c.fin ≤ s'.heap.arena.top := by
    obtain ⟨bin, tabs, T, pinv, -⟩ := h.inv
    exact (pinv.heap.bounds
      (List.mem_append_right bin (List.mem_append_right tabs List.mem_cons_self))).2.1
  unfold Extent.fin at hc htop
  by_cases hin : A.Has (a / 0x1000)
  · unfold Area.Has at hin
    rw [area_walk h.inv List.mem_cons_self h.aligned h.fits (fun _ hq =>
      Area.leaves_of_has hq leaf _) h.user (by omega) (by omega), if_pos ⟨nofun, nofun⟩] at hq
    have hq := Option.some.inj hq
    omega
  · have hsame : translateWalk s'.mem a false false = translateWalk s.mem a false false :=
      inv.walk_congr h.inv ha.2.1 (Area.leaves_of_not_has hin leaf _) false false
    have hlow := hb a ha q (hsame ▸ hq)
    omega

/-- **One more area from the unused area**: everything that a call owes. -/
theorem Adds.result {v n : Nat} {data : Nat → UInt8} {c : Extent}
    (h : Adds s s' blocks leaf ⟨v, n, prot, data⟩ c) (inv : KernelInv s.heap blocks leaf)
    (hb : BelowTop s) (habove : s.heap.arena.top ≤ c.addr) (hn : alignup len = 0x1000 * n)
    (hkept : ∀ x, InBlock s x → s'.mem x = s.mem x) :
    MmapResult s s' len prot data (0x1000 * v) (c.addr + 16 - 0x8000000000) := by
  have hfits : 0x1000 * n + 16 ≤ c.size := h.fits
  have hal := h.aligned
  have hc := h.inv.bounds (e := c) List.mem_cons_self
  unfold Extent.fin at hc
  obtain ⟨hu₁, hu₂, hu₃⟩ : InUser v n := h.user
  have hcell : ∀ i, 0x8000000000 + (c.addr + 16 - 0x8000000000) + i = c.addr + 16 + i :=
    fun i => by omega
  have hothers : ∀ a, a < 2 ^ 48 → (a < 0x1000 * v ∨ 0x1000 * v + 0x1000 * n ≤ a) → ∀ u w,
      translateWalk s'.mem a u w = translateWalk s.mem a u w := by
    intro a ha hout u w
    refine inv.walk_congr h.inv ha (Area.leaves_of_not_has ?_ leaf _) u w
    rintro ⟨h₁, h₂⟩
    change v ≤ a / 0x1000 at h₁
    change a / 0x1000 < v + n at h₂
    omega
  refine ⟨?_, ⟨by omega, by omega, ?_⟩, ?_, ?_, ?_, ?_, ?_⟩
  all_goals rw [hn]
  · intro i hi
    exact ⟨by omega, by omega, by omega⟩
  · intro i hi u w
    have hwalk := area_walk h.inv List.mem_cons_self h.aligned h.fits (fun _ hq =>
      Area.leaves_of_has hq leaf _) h.user (a := 0x1000 * v + i) (Nat.le_add_right _ _)
      (by show _ < 0x1000 * (v + n); omega) u w
    rw [show translateWalk s'.mem (0x1000 * v + i) u w = _ from hwalk]
    refine if_congr Iff.rfl (congrArg some ?_) rfl
    show c.addr + 16 + (0x1000 * v + i - 0x1000 * v) - 0x8000000000 = _
    omega
  · obtain ⟨tabs, rep⟩ := h.inv.rep
    have hlive : c ∈ liveChunks s'.heap :=
      (rep.mem_liveChunks c).mpr (List.mem_append_right tabs List.mem_cons_self)
    refine ⟨c, hlive, fun hold => Nat.not_le.mpr (inv.live_below hold) habove,
      fun e he hne => rep.apart he hlive hne, fun i hi => ?_⟩
    rw [hcell]
    exact ⟨by omega, by unfold Extent.fin; omega⟩
  · -- what another page shows lies below the block
    intro a ha hout u w q hq
    rw [hothers a ha.2.1 hout] at hq
    have hlow := hb a ha q (inv.walk_kernel ha hq)
    omega
  · intro i hi
    rw [hcell]
    exact h.data i hi
  · exact hothers
  · exact fun a ha hout q hq hin => hkept _ hin

/-! ## The arguments' page -/

/-- `mprotect` leaves the allocator's chunks alone. -/
theorem PageInv.mprotectPages {bin tabs : List Extent} {T : Tables} (addr prot n : Nat) :
    ∀ {h : Heap} (i : Nat), PageInv h bin tabs blocks T →
      PageInv { h with mem := (Kvm.mprotectPages addr prot n i h.mem).1 } bin tabs
        blocks T := by
  induction n with
  | zero => exact fun _ inv => inv
  | succ n ih =>
    intro h i inv
    rw [Kvm.mprotectPages]
    by_cases hv : userMemRangeOk ((addr + i) % 2 ^ 64) = true
    · simp only [hv, Bool.not_true, Bool.false_eq_true, if_false]
      cases hmod : modifyPermission h.mem ((addr + i) % 2 ^ 64) prot with
      | none => exact inv
      | some m =>
        -- one leaf word has changed
        rw [modifyPermission_eq inv.tree (outside_of_userMemRangeOk hv)] at hmod
        cases hpt : T 1 ((addr + i) % 2 ^ 64 / 2 ^ 21) with
        | none =>
          rw [hpt] at hmod
          cases hmod
        | some pt =>
          rw [hpt] at hmod
          dsimp only at hmod
          split at hmod
          · have hmod := Option.some.inj hmod
            have inv' := inv.setLeaf hpt
              (leafModified (load64 h.mem (pt + 8 * ((addr + i) % 2 ^ 64 / 0x1000 % 512))) prot)
              (Nat.mod_lt ((addr + i) % 2 ^ 64 / 0x1000) (show 0 < 512 by decide))
            rw [hmod] at inv'
            exact ih (i + 0x1000) inv'
          · cases hmod
    · simp only [Bool.eq_false_iff.mpr hv, Bool.not_false, if_true]
      exact inv

/-- Pages without a file only get their protection. -/
theorem afterPages_anonymous (host : Host σ) (hfd : fd < 0) (a len prot offset : Nat)
    (s : Sys σ) :
    ∃ s', afterPages host fd len prot offset (.ok a) s = .ok a s' ∧ s'.refused = s.refused ∧
      s'.kernel = (mprotect s.kernel a (alignup len) prot).1 := by
  have hfill : fillPages host fd a len offset s = .ok 0 s := by
    rw [fillPages, if_neg (by omega)]
    rfl
  refine ⟨{ s with
    kernel := (mprotect s.kernel a (alignup len) prot).1
    written := fun x => (mprotect s.kernel a (alignup len) prot).1.heap.mem x ≠ s.mem x ∨
      s.written x }, ?_, rfl, rfl⟩
  rw [afterPages, finishMmap, bind_of_ok hfill]
  rfl

/-- The free chunk behind the arguments' block of 0x180 bytes. -/
def argumentRest : Extent := ⟨0x8000201170, 0xe80⟩

/-- **One anonymous page** next to the arguments': the chunk behind the arguments is linked to
another. -/
theorem sysMmap_next_page {t : Extent} {s₀ : Sys σ} (host : Host σ)
    (hpage : ArgumentPage s₀ s 0x100 t) (hsize : t.size = 0x1080)
    (htop : s.heap.arena.top = t.fin) :
    ∃ s', sysMmap host 0x202000 0x1000 protRW mapFixed (-1) 0 s = .ok 0x202000 s' ∧
      s'.refused = s.refused ∧
      nextOf s.mem argumentRest.addr = 0x8000200000 ∧ nextOf s'.mem argumentRest.addr =
        0x8000203070 := by
  obtain ⟨bin, T, inv, hleaf⟩ := hpage.rep
  have hbin : bin = [argumentRest, firstGap] := by
    rw [← inv.heap.freeChunks_eq]
    exact hpage.free.trans (by decide)
  have htable : t.addr = 0x8000201ff0 := hpage.table
  have htop : s.heap.arena.top = 0x8000203070 := by
    rw [htop, Extent.fin, htable, hsize]
  -- the table of the arguments' page has room for the next
  obtain ⟨pt, hpt⟩ : ∃ pt, T 1 1 = some pt := by
    refine Option.ne_none_iff_exists'.mp fun hnone => ?_
    have hzero : leafOf s.heap.mem T 0x201 = 0 := leafOf_none hnone
    rw [hleaf] at hzero
    exact absurd hzero (by decide)
  have hroom : 0x1f0000 ≤ s.heap.arena.topSize := hpage.room
  have hgap : consume 0x8000203070 mallocPageAlign = 0xf80 := by decide
  rcases kmalloc_machine 0x1000 inv.heap (.inr rfl) with
    ⟨h₁, c, bin₁, hok, -, -, hs, -, -, hplaced⟩ | ⟨hbig, -⟩ | ⟨-, h₁, -, hd⟩ | ⟨hbig, -⟩
  · cases hplaced with
    | page haddr hleft htop₁ =>
      -- the gap goes between the two free chunks
      rw [htop, hgap, hbin] at hleft
      obtain rfl : bin₁ = [argumentRest, ⟨0x8000203070, 0xf80⟩, firstGap] :=
        hleft.trans (by decide)
      have hheap : HeapInv kernelSpan h₁ _ ([t] ++ c :: [argumentBlock 0x100]) :=
        hs.inv.perm_used List.perm_middle.symm
      obtain ⟨inv₁, -⟩ := inv.realloc hheap (hs.untouched.mono (List.subset_append_left _ _))
      obtain ⟨h₂, hadd, inv₂⟩ : ∃ h₂, addTransUser h₁ 0x202000 (c.addr + 16)
        (protRW ||| protRW) = .ok h₂ ∧ PageInv h₂ [argumentRest,
        ⟨0x8000203070, 0xf80⟩, firstGap] [t] [c, argumentBlock 0x100] T :=
        ⟨_, inv₁.addTransUser_there (by decide) hpt _ _, inv₁.setLeaf hpt _ (by decide)⟩
      obtain ⟨k₂, hmmap, rfl⟩ : ∃ k₂ : Kernel, mmap s.kernel 0x202000 0x1000
        (protRW ||| protRW) = .ok (k₂, 0x202000) ∧ k₂.heap = h₂ := by
        have hpages : mmapPages 0x202000 (c.addr + 16) (protRW ||| protRW)
            (0x1000 / 0x1000) 0 h₁ = .ok h₂ := by
          show addTransUser h₁ 0x202000 (c.addr + 16) (protRW ||| protRW) >>= _ = _
          rw [hadd]
          rfl
        refine ⟨⟨h₂, if s.kernel.lastMmapped = minusOne then 0x7ffff7fff000
          else s.kernel.lastMmapped⟩, ?_, rfl⟩
        rw [mmap, if_neg (by decide),
          show kmalloc kernelSpace s.kernel.heap 0x1000 mallocPageAlign = _ from hok, ok_bind]
        simp only [Nat.add_eq_zero_iff, OfNat.ofNat_ne_zero, and_false, if_false,
          hpages, ok_bind]
        rfl
      have inv₃ := inv₂.mprotectPages 0x202000 protRW ((0x1000 + 0xfff) / 0x1000) 0
      have hnew : newPages 0x202000 0x1000 protRW mapFixed s = .ok (.ok 0x202000) _ :=
        bind_of_ok (doMmap_of_ok hmmap)
      -- the links, read off the two lists
      subst hbin
      obtain ⟨-, hold, -⟩ := inv.heap.threaded.chain
      obtain ⟨-, hlink, -⟩ := inv₃.heap.threaded.chain
      obtain ⟨s', hdone, href, hkernel⟩ := afterPages_anonymous host
        (show (-1 : Int) < 0 by decide) 0x202000 0x1000 protRW 0 { s with
          kernel := k₂
          written := fun x => k₂.heap.mem x ≠ s.mem x ∨ s.written x
          refused := (0x202000 : Nat) == 0 && decide (0x1000 < 2 ^ 32) || s.refused
          handed := if (0x202000 : Nat) = 0 then s.handed
            else mmapBlock s.heap 0x1000 :: s.handed }
      have hmem : s'.mem = (mprotectPages 0x202000 protRW ((0x1000 + 0xfff) / 0x1000) 0
        k₂.heap.mem).1 := congrArg (fun k : Kernel => k.heap.mem) hkernel
      refine ⟨s', ?_, href, hold, hmem ▸ hlink⟩
      rw [sysMmap_eq, bind_of_ok hnew]
      exact hdone
  · omega
  · have := hd.short
    omega
  · omega

/-- A kernel that has just booted has mapped nothing for the user. -/
theorem Booted.settled {k : Kernel} (h : Booted k) (hlast : k.LastAligned) (w : σ) :
    Settled (Sys.start k w) where
  inv := booted_inv h
  last := hlast
  below a ha q hq := by
    have hwalk : translateWalk k.heap.mem a false false = leafTranslate 0 a false false :=
      (booted_empty h).walk_user ha false false
    rw [show translateWalk k.heap.mem a false false = some q from hq] at hwalk
    cases hwalk

/-- Behind the arguments' page and its table begins the unused area. -/
theorem ArgumentPage.settled {t : Extent} {s₀ : Sys σ} {len : Nat}
    (hpage : ArgumentPage s₀ s len t) (hlast : s₀.kernel.lastMmapped = minusOne)
    (hsize : t.size = 0x1080) (htop : s.heap.arena.top = t.fin) : Settled s := by
  refine ⟨⟨_, _, hpage.rep.inv⟩, .inl (hpage.last.trans hlast), fun a ha q hq => ?_⟩
  rw [show translateWalk s.mem a false false = _
    from hpage.rep.inv.walk_user ha false false] at hq
  by_cases hpg : a / 0x1000 = 0x201
  · have hleaf : argumentLeaf 0x201 = leafWord 0x201000 protRW := rfl
    rw [hpg, hleaf, leafTranslate_argument hpg] at hq
    have hq := Option.some.inj hq
    have hb := hpage.rep.inv.bounds (e := argumentBlock len) List.mem_cons_self
    have haddr : (argumentBlock len).addr = 0x8000200ff0 := rfl
    have htable := hpage.table
    rw [htop]
    unfold Extent.fin at *
    omega
  · have hleaf : argumentLeaf (a / 0x1000) = 0 := Function.update_of_ne hpg _ _
    rw [hleaf] at hq
    exact absurd hq (by simp [leafTranslate])

/-! ## Runs -/

/-- Where the bytes of a call come from: nowhere, or from an open file. -/
def Source (host : Host σ) (s : Sys σ) (fd rfd : Int) (content : List UInt8) (pos : σ → Nat) :
    Prop :=
  fd < 0 ∨ Opened s.fds fd rfd ∧ PartialFile host rfd content pos

/-- **The bytes of new pages**, for both sources. -/
theorem fillPages_source {v n : Nat} {c : Extent} (hsource : Source host s₁ fd rfd content pos)
    (ha : Adds s s₁ blocks leaf ⟨v, n, prot ||| protRW, fun _ => 0⟩ c) (hlen : 0 < len)
    (hle : len ≤ 0x1000 * n) (hoff : offset < 2 ^ 31) :
    Ends (fillPages host fd (0x1000 * v) len offset) s₁
      (fun ret s' => (-4095 ≤ ret ∧ ret < 0) ∨
        (ret = 0 ∧ Steady 0x2144 (fun x => c.addr + 16 ≤ x ∧ x < c.addr + 16 + len) s₁ s'
            (c :: blocks) (pageLeaves leaf v n (c.addr + 16) (prot ||| protRW)) ∧
          ∃ w, (0 ≤ fd → pos w = offset) ∧ ∀ i, i < 0x1000 * n →
            s'.mem (c.addr + 16 + i) = mmapBytes host fd rfd content offset len
              (c.addr + 16 - 0x8000000000) w i))
      fun _ _ => True := by
  rcases hsource with hneg | ⟨hfd, hfile⟩
  · rw [fillPages, if_neg (by omega), ends_pure]
    refine .inr ⟨rfl, ⟨ha.inv, fun _ _ _ => rfl, rfl, rfl, rfl, rfl, Nat.le_add_right _ _⟩,
      s₁.world, fun h => absurd hneg (by omega), fun i hi => ?_⟩
    rw [mmapBytes, if_pos hneg]
    exact ha.data i hi
  · have hfill := fillPages_host host ha hfd hlen hle
      (show _ = host s₁.world (.lseek rfd (offset % 2 ^ 32) seekSet) from rfl) rfl
    rw [Nat.mod_eq_of_lt (show offset < 2 ^ 32 by omega)] at hfill
    refine hfill.mono (fun ret s₂ h => ?_) fun _ _ _ => trivial
    have hseek := hfile.seek s₁.world hoff
    rcases h with ⟨rfl, hneg, -⟩ | ⟨hpos, rfl, hsteady, hdata⟩
    · exact .inl (hseek.resolve_right fun h => by omega)
    · have hat := (hseek.resolve_left fun h => by omega).2
      refine .inr ⟨rfl, hsteady, _, fun _ => hat, fun i hi => ?_⟩
      rw [mmapBytes, if_neg (by have := hfd.1; omega), hdata i hi, hfile.bytes, hat]

theorem newPages_lastAligned (addr len prot flags : Nat) (hlast : s.kernel.LastAligned) :
    Ends (newPages addr len prot flags) s (fun _ s₁ => s₁.kernel.LastAligned)
      fun _ _ => True := by
  refine Ends.ite (fun _ => ends_pure.mpr hlast) fun _ => ?_
  have hmap : Ends (doMmap (if hasFlag flags mapFixed then addr else 0) (alignup len)
      (prot ||| protRW)) s (fun _ s₁ => s₁.kernel.LastAligned) fun _ _ => True := by
    cases hmap : mmap s.kernel (if hasFlag flags mapFixed then addr else 0) (alignup len)
      (prot ||| protRW) with
    | ok r => exact (ends_of_ok (doMmap_of_ok hmap)).mpr (mmap_lastAligned hlast hmap)
    | error e => exact (ends_of_error (doMmap_of_error hmap)).mpr trivial
  exact hmap.bind fun a s₁ h₁ => Ends.ite (fun _ => ends_pure.mpr h₁) fun _ => ends_pure.mpr h₁

/-- **A call that returns an address** has added one area. -/
theorem sysMmap_adds (inv : KernelInv s.heap blocks leaf) (hlast : s.kernel.LastAligned)
    (hsource : Source host s fd rfd content pos) (hlen : len < 2 ^ 64) (hoff : offset < 2 ^ 31)
    {r : Nat} (hrun : sysMmap host addr len prot flags fd offset s = .ok r s')
    (hok : ¬ Failed r) :
    ∃ t n c w s₁ s₂, r = 0x1000 * t ∧ alignup len = 0x1000 * n ∧ (0 ≤ fd → pos w = offset) ∧
      MmapDone host addr len prot flags fd offset r s s₁ s₂ s' ∧
      Adds s s' blocks leaf
        ⟨t, n, prot,
          mmapBytes host fd rfd content offset len (c.addr + 16 - 0x8000000000) w⟩ c ∧
      s.heap.arena.top ≤ c.addr ∧ s'.kernel.LastAligned := by
  have herror : ∀ {e : Int}, -4095 ≤ e → e < 0 → Failed (ofInt e) := fun h₁ h₂ => by
    unfold Failed ofInt
    omega
  rw [sysMmap_eq] at hrun
  cases hnew : newPages addr len prot flags s with
  | error e s₁ =>
    rw [bind_of_error hnew] at hrun
    cases hrun
  | ok a s₁ =>
    rw [bind_of_ok hnew] at hrun
    cases a with
    | error e =>
      cases hrun
      rcases (ends_of_ok hnew).mp (newPages_spec inv hlast hlen) with ⟨e', he, h₁, h₂⟩ |
        ⟨t, n, c, ha, -⟩
      · cases he
        exact absurd (herror h₁ h₂) hok
      · cases ha
    | ok a =>
      obtain ⟨t, n, c, rfl, hn, hpos, hle, hadds, hroom⟩ := newPages_adds inv hlast hlen hnew
      have habove := newPages_above inv hlen hnew hadds.handed
      have hsource₁ : Source host s₁ fd rfd content pos := hsource.imp_right fun h =>
        ⟨⟨h.1.1, hadds.table ▸ h.1.2⟩, h.2⟩
      have hfill := fillPages_source hsource₁ hadds hpos hle hoff
      rw [afterPages, finishMmap, hn] at hrun
      cases hdo : fillPages host fd (0x1000 * t) len offset s₁ with
      | error e s₂ =>
        rw [bind_of_error hdo] at hrun
        cases hrun
      | ok ret s₂ =>
        rw [bind_of_ok hdo] at hrun
        rcases (ends_of_ok hdo).mp hfill with ⟨h₁, h₂⟩ | ⟨rfl, hsteady, w, hw, hdata⟩
        · rw [if_pos h₂] at hrun
          cases hrun
          exact absurd (herror h₁ h₂) hok
        · obtain ⟨s₃, hprot, hdone, hlast₃⟩ := doMprotect_adds hadds hroom hle hsteady hdata
          rw [if_neg (by decide), bind_of_ok hprot] at hrun
          cases hrun
          have hlast₁ := (ends_of_ok hnew).mp (newPages_lastAligned addr len prot flags hlast)
          refine ⟨t, n, c, w, s₁, s₂, rfl, hn, hw, ⟨hnew, hdo, hn ▸ hprot⟩, hdone, habove, ?_⟩
          unfold Kernel.LastAligned
          rwa [hlast₃]

/-- **One call** on a settled kernel. -/
theorem sysMmap_step (h : Settled s) (hsource : Source host s fd rfd content pos)
    (hlen : len < 2 ^ 64) (hoff : offset < 2 ^ 31) {r : Nat}
    (hrun : sysMmap host addr len prot flags fd offset s = .ok r s') (hok : ¬ Failed r) :
    (∃ p w s₁ s₂, (0 ≤ fd → pos w = offset) ∧
      MmapDone host addr len prot flags fd offset r s s₁ s₂ s' ∧
        MmapResult s s' len prot (mmapBytes host fd rfd content offset len p w) r p) ∧
      Settled s' := by
  obtain ⟨⟨blocks, leaf, inv⟩, hlast, hbelow⟩ := h
  obtain ⟨t, n, c, w, s₁, s₂, rfl, hn, hw, hdone, hadds, habove, hlast'⟩ :=
    sysMmap_adds inv hlast hsource hlen hoff hrun hok
  -- a byte of a block, in whatever way the blocks are told from the tables
  have hkept : ∀ x, InBlock s x → s'.mem x = s.mem x := by
    rintro x ⟨blocks', leaf', inv', hx⟩
    obtain ⟨_, _, _, _, _, _, -, -, -, -, hadds', -⟩ :=
      sysMmap_adds inv' hlast hsource hlen hoff hrun hok
    exact hadds'.kept x hx
  exact ⟨⟨_, w, s₁, s₂, hw, hdone, hadds.result inv hbelow habove hn hkept⟩, ⟨_, _, hadds.inv⟩,
    hlast', hadds.belowTop inv hbelow habove⟩

/-- A call of the kind in question that has returned an address. -/
def MmapStep (host : Host σ) (s s' : Sys σ) : Prop :=
  ∃ addr len prot flags fd offset r rfd content pos, Source host s fd rfd content pos ∧
    len < 2 ^ 64 ∧ offset < 2 ^ 31 ∧
    sysMmap host addr len prot flags fd offset s = .ok r s' ∧ ¬ Failed r

/-- A run of them stays settled. -/
theorem Settled.run {s₀ : Sys σ} (h : Settled s₀)
    (hreach : Relation.ReflTransGen (MmapStep host) s₀ s) : Settled s := by
  induction hreach with
  | refl => exact h
  | tail _ hstep ih =>
    obtain ⟨_, _, _, _, _, _, _, _, _, _, hsource, hlen, hoff, hrun, hok⟩ := hstep
    exact (sysMmap_step ih hsource hlen hoff hrun hok).2

/-- **The result of `sys_mmap`**, in every run of such calls from a settled state. -/
theorem sysMmap_result (host : Host σ) (s₀ s s' : Sys σ) (hstart : Settled s₀)
    (hreach : Relation.ReflTransGen (MmapStep host) s₀ s) (fd rfd : Int) (content : List UInt8)
    (pos : σ → Nat) (hsource : Source host s fd rfd content pos)
    (addr len prot flags offset r : Nat) (hlen : len < 2 ^ 64) (hoff : offset < 2 ^ 31)
    (hrun : sysMmap host addr len prot flags fd offset s = .ok r s') (hok : ¬ Failed r) :
    ∃ p w s₁ s₂, (0 ≤ fd → pos w = offset) ∧
      MmapDone host addr len prot flags fd offset r s s₁ s₂ s' ∧
      MmapResult s s' len prot (mmapBytes host fd rfd content offset len p w) r p := by
  exact (sysMmap_step (hstart.run hreach) hsource hlen hoff hrun hok).1

/-- The page behind the arguments', while the user sees the start of a free chunk behind them;
and the first page of a file. -/
theorem sysMmap_result_arguments :
    (∃ (k : Kernel) (s s' s₁ s₂ : Sys Nat) (p w : Nat), Booted k ∧
      argumentArea 0x100 (Sys.start k 0) = .ok (0x8000201000, 0x201000) s ∧
      InBlock s 0x8000201000 ∧
      MmapDone (fileHost 0 helloElf) 0x202000 0x1000 protRW mapFixed (-1) 0 0x202000
        s s₁ s₂ s' ∧
      MmapResult s s' 0x1000 protRW
        (mmapBytes (fileHost 0 helloElf) (-1) 0 helloElf 0 0x1000 p w) 0x202000 p) ∧
    ∃ (k : Kernel) (s' s₁ s₂ : Sys Nat) (p w : Nat), Booted k ∧ w = 0 ∧
      MmapDone (fileHost 0 helloElf) 0 0x1000 protR 0 0 0 0x7ffff7ffe000
        (Sys.start k 0) s₁ s₂ s' ∧
      MmapResult (Sys.start k 0) s' 0x1000 protR
        (mmapBytes (fileHost 0 helloElf) 0 0 helloElf 0 0x1000 p w) 0x7ffff7ffe000 p := by
  constructor
  · have hz : TablesClear fun _ => 0 := fun _ _ _ => rfl
    obtain ⟨s, t, harea, hpage, hsize, htop⟩ := argumentArea_top (s :=
      Sys.start ⟨bootHeap fun _ => 0, minusOne⟩ 0) hz rfl (show 0x100 ≤ 0x4000 by decide)
    obtain ⟨s', hrun, -⟩ := sysMmap_next_page (fileHost 0 helloElf) hpage hsize htop
    obtain ⟨p, w, s₁, s₂, -, hdone, hres⟩ := sysMmap_result (fileHost 0 helloElf) s s s'
      (hpage.settled rfl hsize htop) .refl (-1) 0 helloElf id (.inl (by decide)) 0x202000 0x1000
      protRW mapFixed 0 _ (by decide) (by decide) hrun (by unfold Failed; decide)
    refine ⟨_, s, s', s₁, s₂, p, w, ⟨_, hz, rfl⟩, harea, ⟨_, _, hpage.rep.inv, ?_⟩, hdone, hres⟩
    exact ⟨_, List.mem_cons_self, by decide, by decide⟩
  · obtain ⟨k, hk, hlast, s', c, hrun, -⟩ := sysMmap_boot helloElf 0
    obtain ⟨p, w, s₁, s₂, hpos, hdone, hres⟩ := sysMmap_result (fileHost 0 helloElf) _ _ s'
      (hk.settled hlast 0) .refl 0 0 helloElf id
      (.inr ⟨⟨Int.le_refl 0, rfl⟩, (fileHost_file 0 helloElf).partialFile⟩) 0 0x1000 protR 0 0 _
      (by decide) (by decide) hrun (by unfold Failed; decide)
    exact ⟨k, s', s₁, s₂, p, w, hk, hpos (Int.le_refl 0), hdone, hres⟩

/-- **While the user has the arguments' page**, a call that succeeds changes bytes that the user
sees in it. -/
theorem sysMmap_shared_page :
    ∃ (k : Kernel) (s s' : Sys Nat) (a : Nat), Booted k ∧
      argumentArea 0x100 (Sys.start k 0) = .ok (0x8000201000, 0x201000) s ∧
      sysMmap (fileHost 0 helloElf) 0x202000 0x1000 protRW mapFixed (-1) 0 s = .ok 0x202000 s' ∧
        s'.refused = false ∧
      a / 0x1000 = 0x201 ∧ translateWalk s.mem a true true = some a ∧
      s'.mem (0x8000000000 + a) ≠ s.mem (0x8000000000 + a) := by
  have hz : TablesClear fun _ => 0 := fun _ _ _ => rfl
  obtain ⟨s, t, harea, hpage, hsize, htop⟩ := argumentArea_top (s :=
    Sys.start ⟨bootHeap fun _ => 0, minusOne⟩ 0) hz rfl (show 0x100 ≤ 0x4000 by decide)
  obtain ⟨s', hrun, href, hold, hlink⟩ :=
    sysMmap_next_page (fileHost 0 helloElf) hpage hsize htop
  -- one of the link's bytes is another
  obtain ⟨x, h₁, h₂, hx⟩ : ∃ x, argumentRest.addr + 16 ≤ x ∧ x < argumentRest.addr + 24 ∧
    s'.mem x ≠ s.mem x := by
    by_contra hall
    push Not at hall
    have hsame := nextOf_congr hall
    rw [hold, hlink] at hsame
    exact absurd hsame (by decide)
  have hrest : argumentRest.addr = 0x8000201170 := rfl
  obtain ⟨a, rfl⟩ : ∃ a, x = 0x8000000000 + a := ⟨x - 0x8000000000, by omega⟩
  have ha : a / 0x1000 = 0x201 := by omega
  have hout : Outside a := ⟨by omega, by omega, by omega⟩
  refine ⟨_, s, s', a, ⟨_, hz, rfl⟩, harea, hrun, href.trans hpage.refused, ha, ?_, hx⟩
  refine (hpage.rep.inv.walk_user hout true true).trans ?_
  rw [ha]
  exact leafTranslate_argument ha true true

end BpfExamples.Kvm
