import BpfExamples.Kvm.AnyHost
import BpfExamples.Kvm.Protection

/-!
# Pages that the kernel places (`kernel/mm/mmap.c`)

Without `MAP_FIXED`, `sys_mmap` maps the pages below a cursor, `last_mmapped`, which moves down
to them. Nobody looks at the page tables for it. So the pages that the kernel has placed itself
are all above the cursor, and a new choice can only meet pages that were placed otherwise: by
`load_binary`, or by a call with `MAP_FIXED` (`sysMmap_choice_iff`).
-/

namespace BpfExamples.Kvm

open Mem

variable {σ : Type} {s s₀ s₁ s₂ s' : Sys σ} {blocks : List Extent} {leaf : Nat → Nat}
  {host : Host σ} {q v n prot cur : Nat} {c : Extent}

/-! ## Mapped pages -/

/-- Page `q` is mapped for the user. -/
def PageMapped (s : Sys σ) (q : Nat) : Prop :=
  userMemRangeOk (0x1000 * q) = true ∧ translate s.mem (0x1000 * q) false false ≠ minusOne

theorem pageMapped_iff (inv : KernelInv s.heap blocks leaf) :
    PageMapped s q ↔ userMemRangeOk (0x1000 * q) = true ∧ leaf q % 2 = 1 := by
  have hpage : 0x1000 * q / 0x1000 = q := by omega
  have hpresent : PageMapped s q ↔ Present leaf (0x1000 * q) :=
    (inv.present_iff (0x1000 * q)).symm
  rw [hpresent, Present, hpage]

/-- The new pages are mapped, and those that were. -/
theorem Extends.pageMapped_iff (h : Extends s' blocks leaf v n prot c)
    (inv : KernelInv s.heap blocks leaf) :
    PageMapped s' q ↔ (v ≤ q ∧ q < v + n) ∨ PageMapped s q := by
  rw [Kvm.pageMapped_iff h.inv, Kvm.pageMapped_iff inv]
  by_cases hin : v ≤ q ∧ q < v + n
  · obtain ⟨p, -, hmod, hlt, hleaf⟩ := h.leaf_eq hin.1 hin.2
    have hflags := protFlags_le prot
    have huser := h.user
    unfold InUser at huser
    refine iff_of_true ⟨?_, ?_⟩ (.inl hin)
    · rw [userMemRangeOk_iff]
      omega
    · rw [hleaf, leafWord_window hmod hlt]
      omega
  · rw [pageLeaves, if_neg hin, or_iff_right hin]

/-! ## Runs of calls -/

/-- A call of `sys_mmap`, with what the user passes. -/
structure MmapCall where
  addr : Nat
  len : Nat
  prot : Nat
  flags : Nat
  fd : Int
  offset : Nat

namespace MmapCall

def run (host : Host σ) (k : MmapCall) : KernelM σ Nat :=
  sysMmap host k.addr k.len k.prot k.flags k.fd k.offset

/-- The address that `mmap` is asked for; 0 leaves the choice to it. -/
def wish (k : MmapCall) : Nat := if hasFlag k.flags mapFixed then k.addr else 0

/-- The caller places page `q`. -/
def Places (k : MmapCall) (q : Nat) : Prop :=
  k.wish ≠ 0 ∧ k.addr / 0x1000 ≤ q ∧ q < k.addr / 0x1000 + alignup k.len / 0x1000

end MmapCall

/-- Calls that have returned an address, the last one first. -/
inductive MmapRun (host : Host σ) (s₀ : Sys σ) : List MmapCall → Sys σ → Prop
  | nil : MmapRun host s₀ [] s₀
  | cons {k : MmapCall} {l : List MmapCall} {s s' : Sys σ} {r : Nat}
      (before : MmapRun host s₀ l s) (word : k.len < 2 ^ 64) (returns : k.run host s = .ok r s')
      (good : ¬ Failed r) : MmapRun host s₀ (k :: l) s'

/-- The address below which the kernel places its next pages. -/
def Kernel.cursor (k : Kernel) : Nat :=
  if k.lastMmapped = minusOne then 0x7ffff7fff000 else k.lastMmapped

/-- It is the start of page `cur`. -/
def Cursor (s : Sys σ) (cur : Nat) : Prop := s.kernel.cursor = 0x1000 * cur ∧ cur ≤ 0x7ffff7fff

theorem Cursor.aligned (h : Cursor s cur) : s.kernel.LastAligned := by
  by_cases hlast : s.kernel.lastMmapped = minusOne
  · exact .inl hlast
  · have hcur := h.1
    rw [Kernel.cursor, if_neg hlast] at hcur
    exact .inr (by omega)

theorem cursor_of_eq (hlast : s.kernel.lastMmapped = 0x1000 * cur) (hle : cur ≤ 0x7ffff7fff) :
    Cursor s cur := by
  have hne : 0x1000 * cur ≠ minusOne := by
    unfold minusOne
    omega
  exact ⟨by rw [Kernel.cursor, hlast, if_neg hne], hle⟩

theorem LastOk.cursor (h : LastOk s) : Cursor s 0x7ffff7fff := by
  rcases h with h | h
  · exact ⟨by rw [Kernel.cursor, if_pos h], Nat.le_refl _⟩
  · exact cursor_of_eq h (Nat.le_refl _)

/-- **A call that returns an address**: the caller's pages, and the cursor stays, or the pages
below the cursor, which moves to them. A choice beyond address 0 would wrap to addresses that
are not the user's. -/
theorem MmapCall.run_ok {k : MmapCall} {r : Nat} (hhost : HostErrnos host)
    (inv : KernelInv s.heap blocks leaf) (hcur : Cursor s cur) (hlen : k.len < 2 ^ 64)
    (hrun : k.run host s = .ok r s') (hok : ¬ Failed r) :
    ∃ t n c prot, r = 0x1000 * t ∧ alignup k.len = 0x1000 * n ∧
      Extends s' blocks leaf t n prot c ∧
      (k.wish ≠ 0 ∧ k.addr = 0x1000 * t ∧ Cursor s' cur ∨ k.wish = 0 ∧ t + n = cur ∧
        Cursor s' t) := by
  have hsmall : ∀ e : Int, -4095 ≤ e → e < 0 → Failed (ofInt e) := fun e h₁ h₂ => by
    unfold Failed ofInt
    omega
  rcases (ends_of_ok hrun).mp (sysMmap_any hhost inv hcur.aligned hlen) with
    rfl | rfl | ⟨t, n, c, prot, -, -, hn, haddr, hext, hnext, hr⟩
  · exact absurd (hsmall _ (by decide) (by decide)) hok
  · exact absurd (hsmall _ (by decide) (by decide)) hok
  obtain rfl : r = 0x1000 * t := hr.resolve_right fun he => hok he.failed
  refine ⟨t, n, c, prot, rfl, hn, hext, ?_⟩
  change mmapAddr s.kernel.lastMmapped k.wish (alignup k.len) = _ at haddr
  change s'.kernel.lastMmapped = mmapLast s.kernel.lastMmapped k.wish (alignup k.len) at hnext
  rw [hn] at haddr hnext
  have hstart : (if s.kernel.lastMmapped = minusOne then 0x7ffff7fff000
    else s.kernel.lastMmapped) = 0x1000 * cur := hcur.1
  by_cases hwish : k.wish = 0
  · rw [mmapLast, if_pos hwish, haddr] at hnext
    rw [mmapAddr, if_pos hwish, hstart] at haddr
    have hfew := hext.small
    have hle := hcur.2
    obtain ⟨hu₁, hu₂, -⟩ := hext.user
    have hdown : t + n = cur := by omega
    exact .inr ⟨hwish, hdown, cursor_of_eq hnext (by omega)⟩
  · rw [mmapLast, if_neg hwish, hstart] at hnext
    rw [mmapAddr, if_neg hwish] at haddr
    have hfixed : k.wish = k.addr := by
      unfold MmapCall.wish at hwish ⊢
      split at hwish
      · next hflag => rw [if_pos hflag]
      · exact absurd rfl hwish
    exact .inl ⟨hwish, hfixed ▸ haddr, cursor_of_eq hnext hcur.2⟩

/-- Page `q` was mapped when the run began, or a call of the run has placed it. -/
def PlacedIn (s₀ : Sys σ) (l : List MmapCall) (q : Nat) : Prop :=
  PageMapped s₀ q ∨ ∃ k ∈ l, k.Places q

/-- The kernel's own choices are the pages from the cursor on; all other mapped pages are those
that were placed. -/
structure Choices (s₀ : Sys σ) (l : List MmapCall) (s : Sys σ) (cur : Nat) : Prop where
  inv : s.kernel.Inv
  cursor : Cursor s cur
  placed : ∀ q, PlacedIn s₀ l q → PageMapped s q
  others : ∀ q, PageMapped s q → PlacedIn s₀ l q ∨ cur ≤ q

theorem placedIn_cons {k : MmapCall} {l : List MmapCall} :
    PlacedIn s₀ (k :: l) q ↔ k.Places q ∨ PlacedIn s₀ l q := by
  unfold PlacedIn
  constructor
  · rintro (h | ⟨d, hd, h⟩)
    · exact .inr (.inl h)
    · rcases List.mem_cons.mp hd with rfl | hd
      · exact .inl h
      · exact .inr (.inr ⟨d, hd, h⟩)
  · rintro (h | h | ⟨d, hd, h⟩)
    · exact .inr ⟨k, List.mem_cons_self, h⟩
    · exact .inl h
    · exact .inr ⟨d, List.mem_cons_of_mem k hd, h⟩

/-- **One call** keeps them apart. -/
theorem Choices.step {k : MmapCall} {l : List MmapCall} {r : Nat} (hhost : HostErrnos host)
    (h : Choices s₀ l s cur) (hlen : k.len < 2 ^ 64) (hrun : k.run host s = .ok r s')
    (hok : ¬ Failed r) : ∃ cur', Choices s₀ (k :: l) s' cur' := by
  obtain ⟨blocks, leaf, inv⟩ := h.inv
  obtain ⟨t, n, c, prot, -, hn, hext, hplace⟩ :=
    MmapCall.run_ok hhost inv h.cursor hlen hrun hok
  have hmapped := fun q => hext.pageMapped_iff (q := q) inv
  have hcount : alignup k.len / 0x1000 = n := by omega
  rcases hplace with ⟨hwish, haddr, hcur'⟩ | ⟨hwish, hdown, hcur'⟩
  · have hpage : k.addr / 0x1000 = t := by omega
    have hplaces : ∀ q, k.Places q ↔ t ≤ q ∧ q < t + n := fun q => by
      rw [MmapCall.Places, hpage, hcount]
      exact and_iff_right hwish
    refine ⟨cur, ⟨_, _, hext.inv⟩, hcur', fun q hq => ?_, fun q hq => ?_⟩
    · rw [hmapped, ← hplaces]
      exact (placedIn_cons.mp hq).imp_right (h.placed q)
    · rw [placedIn_cons, hplaces, or_assoc]
      exact ((hmapped q).mp hq).imp_right (h.others q)
  · have hplaces : ∀ q, ¬ k.Places q := fun q hq => hq.1 hwish
    refine ⟨t, ⟨_, _, hext.inv⟩, hcur', fun q hq => ?_, fun q hq => ?_⟩
    · rw [hmapped]
      exact .inr (h.placed q ((placedIn_cons.mp hq).resolve_left (hplaces q)))
    · rw [placedIn_cons, or_iff_right (hplaces q)]
      rcases (hmapped q).mp hq with hin | hold
      · exact .inr hin.1
      · exact (h.others q hold).imp_right fun hle => by omega

theorem MmapRun.choices {l : List MmapCall} (hhost : HostErrnos host) (h₀ : s₀.kernel.Inv)
    (hlast : LastOk s₀) (hrun : MmapRun host s₀ l s) : ∃ cur, Choices s₀ l s cur := by
  induction hrun with
  | nil =>
    refine ⟨_, h₀, hlast.cursor, ?_, fun q hq => .inl (.inl hq)⟩
    rintro q (hq | ⟨k, hk, -⟩)
    · exact hq
    · exact absurd hk List.not_mem_nil
  | cons _ word returns good ih =>
    obtain ⟨cur, hcur⟩ := ih
    exact hcur.step hhost word returns good

/-! ## One page without a file -/

/-- **One anonymous page**, while no `mmap` has chosen an address and there is memory. -/
theorem MmapCall.run_page (host : Host σ) (inv : KernelInv s.heap blocks leaf)
    (hlast : LastOk s) (hroom : mapCost 1 ≤ s.room) {k : MmapCall}
    (hgood : ¬ Rejected k.addr 0x1000 k.flags) (hlen : k.len = 0x1000) (hfd : k.fd = -1)
    {v : Nat} (hwish : k.wish = 0x1000 * v) (hv : v < 2 ^ 52) (hu : InUser (target v 1) 1) :
    ∃ s' c, k.run host s = .ok (0x1000 * target v 1) s' ∧
      Extends s' blocks leaf (target v 1) 1 k.prot c ∧
      (v ≠ 0 → LastOk s') ∧ s.room ≤ s'.room + mapCost 1 := by
  have hmap := doMmap_spec inv hlast hv (show 0 < 1 by decide) (k.prot ||| protRW)
  have hshort : ∀ {s'}, ¬ Short (mapCost 1) s s' :=
    fun h => absurd h.room (Nat.not_lt.mpr hroom)
  cases hdo : doMmap (0x1000 * v) (0x1000 * 1) (k.prot ||| protRW) s with
  | error e s₁ =>
    rcases (ends_of_error hdo).mp hmap with h | ⟨-, h, -⟩
    · exact absurd h hshort
    · exact absurd hu h
  | ok a s₁ =>
    rcases (ends_of_ok hdo).mp hmap with ⟨c, rfl, -, hadds, hroom₁, hlast₁⟩ |
      ⟨-, hbig, -⟩ | ⟨-, -, h⟩
    · obtain ⟨s₂, hprot, inv₂, -, -, hsame, -, -, hroom₂⟩ :=
        doMprotect_spec hadds.inv hadds.user hadds.fits hadds.aligned k.prot
      have huser : 0x200 ≤ target v 1 := hu.1
      have hnew : newPages k.addr 0x1000 k.prot k.flags s =
          .ok (.ok (0x1000 * target v 1)) s₁ := by
        rw [newPages, if_neg (show ¬ (_ ∨ _) from hgood),
          show (if hasFlag k.flags mapFixed = true then k.addr else 0) = _ from hwish,
          show alignup 0x1000 = 0x1000 * 1 from rfl, bind_of_ok hdo, if_neg (by omega)]
        rfl
      have hfill : fillPages host (-1) (0x1000 * target v 1) 0x1000 k.offset s₁ = .ok 0 s₁ :=
        rfl
      refine ⟨s₂, c, ?_, { hadds.extends with inv := inv₂ },
        fun hne => ?_, by rw [hroom₂]; exact hroom₁⟩
      · rw [MmapCall.run, hlen, hfd, sysMmap_eq, bind_of_ok hnew]
        show finishMmap host (-1) (0x1000 * target v 1) 0x1000 (0x1000 * 1) k.prot k.offset s₁ =
          _
        rw [finishMmap, bind_of_ok hfill, if_neg (by decide), bind_of_ok hprot]
        rfl
      · exact (hlast₁ hne).imp hsame.trans hsame.trans
    · omega
    · exact absurd h hshort

/-! ## Choices that meet nothing -/

/-- The range that a call has returned was not mapped before, and what was mapped is mapped to
the same place. -/
structure MeetsNothing (s s' : Sys σ) (r len : Nat) : Prop where
  fresh : ∀ q, r / 0x1000 ≤ q → q < r / 0x1000 + alignup len / 0x1000 → ¬ PageMapped s q
  kept : ∀ q, PageMapped s q → ∀ a, a / 0x1000 = q →
    ∀ u w, translate s'.mem a u w = translate s.mem a u w

/-- **A choice of the kernel** behind `load_binary` and any run of calls meets nothing just when
none of the pages right below the cursor was mapped when the run began or placed by a call of
the run. -/
theorem sysMmap_choice_iff (host : Host σ) (hhost : HostErrnos host) (s s₀ s₁ s₂ : Sys σ)
    (inv : s.kernel.Inv) (hlast : LastOk s) (fd : Int) (p p' : Process)
    (hload : loadBinary host fd p s = .ok (0, p') s₀) (l : List MmapCall)
    (hrun : MmapRun host s₀ l s₁) (k : MmapCall) (hchoice : hasFlag k.flags mapFixed = false)
    (hlen : k.len < 2 ^ 64) (r : Nat) (hcall : k.run host s₁ = .ok r s₂) (hok : ¬ Failed r) :
    MeetsNothing s₁ s₂ r k.len ↔
      ∀ q, s₁.kernel.cursor / 0x1000 ≤ q + alignup k.len / 0x1000 →
        q < s₁.kernel.cursor / 0x1000 →
        ¬ PlacedIn s₀ l q := by
  obtain ⟨blocks, leaf, inv⟩ := inv
  obtain ⟨tabs, rep⟩ := inv.rep
  obtain ⟨hlast₀, blocks₀, leaf₀, h₀⟩ : LastOk s₀ ∧ ∃ blocks₀ leaf₀,
    KernelInv s₀.heap blocks₀ leaf₀ := by
    rcases (ends_of_ok hload).mp (loadBinary_any hhost fd rep hlast p) with hneg |
      ⟨-, b, -, -, hlast₀, blocks₀, leaf₀, h₀⟩
    · exact absurd hneg (Int.lt_irrefl 0)
    · exact ⟨hlast₀, blocks₀, leaf₀, h₀.inv⟩
  obtain ⟨cur, hcur⟩ := hrun.choices hhost ⟨blocks₀, leaf₀, h₀⟩ hlast₀
  obtain ⟨blocks₁, leaf₁, inv₁⟩ := hcur.inv
  obtain ⟨t, n, c, prot, rfl, hn, hext, hplace⟩ :=
    MmapCall.run_ok hhost inv₁ hcur.cursor hlen hcall hok
  have hwish : k.wish = 0 := by rw [MmapCall.wish, hchoice, if_neg (by decide)]
  obtain ⟨-, hdown, -⟩ := hplace.resolve_left fun h => h.1 hwish
  have hpages : s₁.kernel.cursor / 0x1000 = t + n ∧ alignup k.len / 0x1000 = n := by
    rw [hcur.cursor.1]
    omega
  rw [hpages.1, hpages.2]
  constructor
  · intro h q h₁ h₂ hq
    exact h.fresh q (by omega) (by omega) (hcur.placed q hq)
  · intro h
    -- below the cursor there are placed pages only
    have hfresh : ∀ q, t ≤ q → q < t + n → ¬ PageMapped s₁ q := fun q h₁ h₂ hq =>
      (hcur.others q hq).elim (h q (by omega) h₂) (by omega)
    refine ⟨fun q h₁ h₂ => hfresh q (by omega) (by omega), fun q hq a ha u w => ?_⟩
    have hout : ¬ (t ≤ q ∧ q < t + n) := fun hin => hfresh q hin.1 hin.2 hq
    have huser := userMemRangeOk_iff.mp hq.1
    have hmod : a % 2 ^ 48 / 0x1000 = q := by omega
    refine inv₁.translate_same hext.inv (fun _ => ?_) u w
    rw [hmod, pageLeaves, if_neg hout]

/-- Pages outside the areas are as before. -/
theorem Laid.leaf_of_not {l : List Area} {blocks' : List Extent} {leaf' : Nat → Nat}
    (h : Laid l s blocks leaf s' blocks' leaf') (hq : ∀ A ∈ l, ¬ A.Has q) :
    leaf' q = leaf q := by
  induction h with
  | nil => rfl
  | cons first _ ih =>
    rw [ih fun A hA => hq A (List.mem_cons_of_mem _ hA)]
    exact Area.leaves_of_not_has (hq _ List.mem_cons_self) _ _

/-- A program of one page, loaded by a fresh kernel. -/
theorem loadBinary_hello :
    ∃ (k : Kernel) (p : Process) (s₀ : Sys Nat) (blocks : List Extent) (leaf : Nat → Nat),
      Booted k ∧
      k.lastMmapped = minusOne ∧ loadBinary (fileHost 0 helloElf) 0 ⟨0, 0, 0, 0, 0⟩
        (Sys.start k 0) = .ok (0, p) s₀ ∧
      LastOk s₀ ∧ KernelInv s₀.heap blocks leaf ∧ leaf 0x7ffff7ffe = 0 ∧ 0x20000 ≤ s₀.room := by
  obtain ⟨k, hk, inv, hlast, harena, -⟩ := kernelBoot_spec (m := fun _ => 0) fun _ _ _ => rfl
  have hroom : (Sys.start k 0).room = 0x200000 := by
    show k.heap.arena.topSize = _
    rw [harena]
  have hcost : elfCost helloElf ≤ 0x1e0000 := by decide +kernel
  have hinv : KernelInv (Sys.start k 0).heap [] fun _ => 0 := inv
  have hshort : ∀ {s'}, ¬ Short (elfCost helloElf) (Sys.start k 0) s' := fun h => by
    have := h.room
    omega
  have hspec := loadBinary_spec (fileHost_file 0 helloElf) hinv (.inl hlast)
    ⟨Int.le_refl 0, rfl⟩ rfl ⟨0, 0, 0, 0, 0⟩
  have hgood : elfVerdict 0 helloElf ≠ .bad := by
    rw [helloElf_loads]
    nofun
  cases hrun : loadBinary (fileHost 0 helloElf) 0 ⟨0, 0, 0, 0, 0⟩ (Sys.start k 0) with
  | error e s₀ =>
    exact ((ends_of_error hrun).mp hspec).elim (fun h => absurd h hshort) fun h =>
      absurd h.2 hgood
  | ok r s₀ =>
    obtain ⟨-, hends⟩ := ((ends_of_ok hrun).mp hspec).resolve_left fun h => hshort h.1
    rw [helloElf_loads] at hends
    obtain ⟨ret, p⟩ := r
    generalize hr : (ret, p).1 = x at hends
    cases hends with
    | loads h =>
      obtain ⟨⟨blocks, leaf, s₁, b, hhead, hlaid⟩, hlast₀, -⟩ := h
      obtain rfl : ret = 0 := hr
      refine ⟨k, p, s₀, blocks, leaf, ⟨_, fun _ _ _ => rfl, hk⟩, hlast, hrun, hlast₀,
        hlaid.inv hhead.inv, ?_, ?_⟩
      · have hnot : ∀ A ∈ elfAreas helloElf, ¬ A.Has 0x7ffff7ffe := by
          have hall : (elfAreas helloElf).all fun A =>
              !(decide (A.page ≤ 0x7ffff7ffe) && decide (0x7ffff7ffe < A.page + A.count)) := by
            decide +kernel
          intro A hA hhas
          have := List.all_eq_true.mp hall A hA
          simp [hhas.1, hhas.2] at this
        exact hlaid.leaf_of_not hnot
      · have h₁ := hhead.room
        have h₂ := hlaid.room
        unfold elfCost at hcost
        omega

/-- The call for one page wherever the kernel likes. -/
def anyPage : MmapCall := ⟨0, 0x1000, protRW, 0, -1, 0⟩

/-- The call for the page below `0x7ffff7fff000`. -/
def topPage : MmapCall := ⟨0x7ffff7ffe000, 0x1000, protRW, mapFixed, -1, 0⟩

/-- The first choice behind `load_binary`. -/
theorem sysMmap_choice_first :
    ∃ (k : Kernel) (p : Process) (s₀ s' : Sys Nat), Booted k ∧
      loadBinary (fileHost 0 helloElf) 0 ⟨0, 0, 0, 0, 0⟩ (Sys.start k 0) = .ok (0, p) s₀ ∧
      anyPage.run (fileHost 0 helloElf) s₀ = .ok 0x7ffff7ffe000 s' ∧
        MeetsNothing s₀ s' 0x7ffff7ffe000 0x1000 := by
  obtain ⟨k, p, s₀, blocks, leaf, hk, hlast, hload, hlast₀, inv, hleaf, hroom⟩ :=
    loadBinary_hello
  have hcost : mapCost 1 = 0x8240 := rfl
  obtain ⟨s', c, hrun, -⟩ := MmapCall.run_page (k := anyPage) (fileHost 0 helloElf) inv hlast₀
    (by omega) (by decide) rfl rfl (v := 0) rfl (by decide) (by decide)
  refine ⟨k, p, s₀, s', hk, hload, hrun, ?_⟩
  refine (sysMmap_choice_iff (fileHost 0 helloElf) (fileHost_errnos 0 helloElf)
    (Sys.start k 0) s₀ s₀ s' (booted_inv hk) (.inl hlast) 0 _ p hload [] .nil anyPage rfl
    (by decide) 0x7ffff7ffe000 hrun (by unfold Failed; decide)).mpr ?_
  rintro q h₁ h₂ (hq | ⟨d, hd, -⟩)
  · obtain rfl : q = 0x7ffff7ffe := by
      have hone : alignup anyPage.len / 0x1000 = 1 := rfl
      rw [hlast₀.cursor.1] at h₁ h₂
      omega
    have hp := ((pageMapped_iff inv).mp hq).2
    rw [hleaf] at hp
    exact absurd hp (by decide)
  · exact absurd hd List.not_mem_nil

/-- **A choice that replaces a page**: the caller has placed the page where the kernel looks
next. -/
theorem sysMmap_choice_meets :
    ∃ (k : Kernel) (p : Process) (s₀ s₁ s₂ : Sys Nat), Booted k ∧
      loadBinary (fileHost 0 helloElf) 0 ⟨0, 0, 0, 0, 0⟩ (Sys.start k 0) = .ok (0, p) s₀ ∧
      topPage.run (fileHost 0 helloElf) s₀ = .ok 0x7ffff7ffe000 s₁ ∧
      anyPage.run (fileHost 0 helloElf) s₁ = .ok 0x7ffff7ffe000 s₂ ∧ PageMapped s₁ 0x7ffff7ffe ∧
      ¬ MeetsNothing s₁ s₂ 0x7ffff7ffe000 0x1000 := by
  obtain ⟨k, p, s₀, blocks, leaf, hk, -, hload, hlast₀, inv, -, hroom⟩ := loadBinary_hello
  have hcost : mapCost 1 = 0x8240 := rfl
  obtain ⟨s₁, c₁, hrun₁, hext, hlast₁, hroom₁⟩ :=
    MmapCall.run_page (k := topPage) (fileHost 0 helloElf) inv hlast₀ (by omega)
    (by decide) rfl rfl (v := 0x7ffff7ffe) rfl (by decide) (by decide)
  obtain ⟨s₂, c₂, hrun₂, -⟩ := MmapCall.run_page (k := anyPage) (fileHost 0 helloElf) hext.inv
    (hlast₁ (by decide)) (by omega) (by decide) rfl rfl (v := 0) rfl (by decide) (by decide)
  have hmapped : PageMapped s₁ 0x7ffff7ffe := (hext.pageMapped_iff inv).mpr (.inl (by decide))
  exact ⟨k, p, s₀, s₁, s₂, hk, hload, hrun₁, hrun₂, hmapped,
    fun h => h.fresh 0x7ffff7ffe (by decide) (by decide) hmapped⟩

end BpfExamples.Kvm
