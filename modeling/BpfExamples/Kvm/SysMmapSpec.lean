import BpfExamples.Kvm.Areas
import BpfExamples.Kvm.FileHost

/-!
# `sys_mmap` of a file

`sysMmap_spec` says how `sys_mmap` ends when it maps a part of a file at a fixed address. What
the caller asks for has a `Verdict` (`mapVerdict`): it is mapped, turned down, or neither. An
area that is mapped was zero, writable pages first (`doMmap_spec`), then filled from the file
(`fillPages_spec`), and last given its protection (`doMprotect_spec`).
-/

namespace BpfExamples.Kvm

open Mem

variable {σ : Type} {s s' s'' : Sys σ} {blocks : List Extent} {leaf : Nat → Nat} {host : Host σ}
  {fd rfd errno : Int} {content : List UInt8} {pos : σ → Nat}

/-! ## Verdicts -/

/-- How the loader deals with a part of a file: it is mapped, turned down with an error that
says why, or neither. -/
inductive Verdict
  | loads
  | rejects (ret : Int)
  | bad
deriving DecidableEq, Repr

/-! ## `mmap` -/

/-- No `mmap` has chosen an address yet. -/
def LastOk (s : Sys σ) : Prop :=
  s.kernel.lastMmapped = minusOne ∨ s.kernel.lastMmapped = 0x7ffff7fff000

/-- The first page `mmap` maps, for a request of `n` pages at page `v`. -/
def target (v n : Nat) : Nat := if v = 0 then 0x7ffff7fff - n else v

theorem mmapAddr_eq (hlast : LastOk s) {v n : Nat} (hn : n < 2 ^ 20) :
    mmapAddr s.kernel.lastMmapped (0x1000 * v) (0x1000 * n) = 0x1000 * target v n := by
  have hbase : (if s.kernel.lastMmapped = minusOne then 0x7ffff7fff000
      else s.kernel.lastMmapped) = 0x7ffff7fff000 := by
    rcases hlast with h | h <;> rw [h] <;> rfl
  unfold mmapAddr target
  rw [hbase]
  by_cases hv : v = 0
  · rw [if_pos (by omega), if_pos hv]
    omega
  · rw [if_neg (by omega), if_neg hv]

theorem mmapLast_eq (hlast : LastOk s) {v len : Nat} (hv : v ≠ 0) :
    mmapLast s.kernel.lastMmapped (0x1000 * v) len = 0x7ffff7fff000 := by
  unfold mmapLast
  rw [if_neg (by omega)]
  rcases hlast with h | h <;> rw [h] <;> rfl

/-- More than `kmalloc` accepts. -/
theorem mmap_tooLong (k : Kernel) (addr prot : Nat) {n : Nat} (h : 2 ^ 20 ≤ n) :
    mmap k addr (0x1000 * n) prot = .ok (k, 0) := by
  have hand : 0x1000 * n &&& 0xfff = 0x1000 * n % 0x1000 := Nat.and_two_pow_sub_one_eq_mod _ 12
  have hk : kmalloc kernelSpace k.heap (0x1000 * n) mallocPageAlign = .ok (k.heap, 0) := by
    rw [kmalloc, if_pos (by omega)]
  rw [mmap, if_neg (by omega), hk]
  rfl

theorem doMmap_of_ok {addr len prot a : Nat} {k : Kernel}
    (h : mmap s.kernel addr len prot = .ok (k, a)) :
    doMmap addr len prot s = .ok a { s with
      kernel := k
      written := fun x => k.heap.mem x ≠ s.mem x ∨ s.written x
      refused := a == 0 && decide (len < 2 ^ 32) || s.refused
      handed := if a = 0 then s.handed else mmapBlock s.heap len :: s.handed } := by
  simp only [doMmap, h]

theorem doMmap_of_error {addr len prot : Nat} {e : Stop}
    (h : mmap s.kernel addr len prot = .error e) :
    doMmap addr len prot s = .error e { s with refused := outOfMemory e || s.refused } := by
  simp only [doMmap, h]

/-- What `n` pages can cost of the unused memory, with the three tables that each may need. -/
def mapCost (n : Nat) : Nat := 0x71b0 * n + 0x1090

/-- **`mmap` as a step of the system**, for a request whose first page is `t`: a zero area, a
request that is too long, no memory, or a panic at a page outside the user range. -/
theorem doMmap_at (inv : KernelInv s.heap blocks leaf) {addr t n : Nat} (ht : t < 2 ^ 52)
    (hn : 0 < n)
    (haddr : n < 2 ^ 20 → mmapAddr s.kernel.lastMmapped addr (0x1000 * n) = 0x1000 * t)
    (prot : Nat) :
    Ends (doMmap addr (0x1000 * n) prot) s
      (fun a s' =>
        (∃ c, a = 0x1000 * t ∧ n < 0x200 ∧ Adds s s' blocks leaf ⟨t, n, prot, fun _ => 0⟩ c ∧
          s.room ≤ s'.room + mapCost n ∧
          s'.kernel.lastMmapped = mmapLast s.kernel.lastMmapped addr (0x1000 * n)) ∨
        (a = 0 ∧ 2 ^ 20 ≤ n ∧ s'.refused = s.refused) ∨
          (a = 0 ∧ n < 2 ^ 20 ∧ Short (mapCost n) s s'))
      fun _ s' => Short (mapCost n) s s' ∨ n < 2 ^ 20 ∧ ¬ InUser t n ∧
        s'.refused = s.refused := by
  by_cases hbig : 2 ^ 20 ≤ n
  · refine (ends_of_ok (doMmap_of_ok (mmap_tooLong s.kernel _ prot hbig))).mpr
      (.inr (.inl ⟨rfl, hbig, ?_⟩))
    show ((0 : Nat) == 0 && decide (0x1000 * n < 2 ^ 32) || s.refused) = s.refused
    rw [decide_eq_false (by omega), Bool.and_false, Bool.false_or]
  · have hroom : s.room = s.kernel.heap.arena.topSize := rfl
    have hcost : mapCost n = 0x71b0 * n + 0x1090 := rfl
    have hpages : 0x1000 * n / 0x1000 = n := by omega
    replace haddr := haddr (by omega)
    have hrange := inUserRange_iff ht hn (by omega)
    rcases mmap_spec (k := s.kernel) inv addr prot (show 0 < 0x1000 * n by omega)
      (by omega) with
      ⟨k', c, heq, hm⟩ | ⟨herr, hnot⟩ | ⟨herr, hshort⟩ | ⟨hlong, -⟩ | ⟨-, -, h', heq, hd⟩ |
        ⟨-, -, hshort, herr⟩
    · -- mapped: the block is new, zero, and at page `t`
      have hin := hm.allowed
      have hinv := hm.inv
      rw [haddr, hpages] at hin hinv
      have huser := hrange.mp hin
      have hb := hinv.bounds (e := c) List.mem_cons_self
      have hfits := hm.fits
      unfold Extent.fin at hb
      have hne : 0x1000 * t ≠ 0 := by
        have := huser.1
        omega
      obtain ⟨h₁, hblock⟩ := hm.block
      have hleft := hm.room
      rw [hpages] at hleft
      rw [haddr] at heq
      refine (ends_of_ok (doMmap_of_ok heq)).mpr (.inl ⟨c, rfl, by omega, ⟨?_, huser, by omega,
        hm.aligned, fun i (hi : i < 0x1000 * n) => hm.zero _ (by omega) (by omega), ?_, rfl, ?_,
        ?_, ?_⟩, ?_, hm.last⟩)
      · rw [mapLeaves_eq (by have := huser.2.1; omega)] at hinv
        exact hinv
      · rintro x ⟨e, he, hx₁, hx₂⟩
        exact hm.kept.blocks e he x ⟨by omega, hx₂⟩
      · show (0x1000 * t == 0 && decide (0x1000 * n < 2 ^ 32) || s.refused) = s.refused
        rw [beq_eq_false_iff_ne.mpr hne, Bool.false_and, Bool.false_or]
      · show (if 0x1000 * t = 0 then s.handed else mmapBlock s.heap (0x1000 * n) :: s.handed) =
          _
        have hptr : mmapBlock s.heap (0x1000 * n) = c.addr + 16 := by
          rw [mmapBlock, show kmalloc kernelSpace s.heap (0x1000 * n) mallocPageAlign = _
            from hblock]
        rw [if_neg hne, hptr]
      · have hs' : areaCost n = 0x71b0 * n + 0x3200 := rfl
        show s.kernel.heap.arena.topSize ≤ k'.heap.arena.topSize + areaCost n
        omega
      · show s.kernel.heap.arena.topSize ≤ k'.heap.arena.topSize + mapCost n
        omega
    · rw [haddr, hpages] at hnot
      exact (ends_of_error (doMmap_of_error herr)).mpr
        (.inr ⟨by omega, fun h => hnot (hrange.mpr h), rfl⟩)
    · rw [hpages] at hshort
      exact (ends_of_error (doMmap_of_error herr)).mpr (.inl ⟨rfl, by omega⟩)
    · omega
    · have hshort := hd.short
      refine (ends_of_ok (doMmap_of_ok heq)).mpr (.inr (.inr ⟨rfl, by omega, ?_, by omega⟩))
      show ((0 : Nat) == 0 && decide (0x1000 * n < 2 ^ 32) || s.refused) = true
      rw [decide_eq_true (by omega)]
      rfl
    · exact (ends_of_error (doMmap_of_error herr)).mpr (.inl ⟨rfl, by omega⟩)

/-- The same at page `v`, while no `mmap` has chosen an address. -/
theorem doMmap_spec (inv : KernelInv s.heap blocks leaf) (hlast : LastOk s) {v n : Nat}
    (hv : v < 2 ^ 52) (hn : 0 < n) (prot : Nat) :
    Ends (doMmap (0x1000 * v) (0x1000 * n) prot) s
      (fun a s' =>
        (∃ c, a = 0x1000 * target v n ∧ n < 0x200 ∧
          Adds s s' blocks leaf ⟨target v n, n, prot, fun _ => 0⟩ c ∧
          s.room ≤ s'.room + mapCost n ∧ (v ≠ 0 → LastOk s')) ∨
        (a = 0 ∧ 2 ^ 20 ≤ n ∧ s'.refused = s.refused) ∨
          (a = 0 ∧ n < 2 ^ 20 ∧ Short (mapCost n) s s'))
      fun _ s' => Short (mapCost n) s s' ∨
        n < 2 ^ 20 ∧ ¬ InUser (target v n) n ∧ s'.refused = s.refused := by
  have htv : target v n < 2 ^ 52 := by
    unfold target
    split <;> omega
  refine (doMmap_at inv htv hn (mmapAddr_eq hlast) prot).mono (fun a s' h => h.imp_left ?_)
    fun _ _ h => h
  rintro ⟨c, ha, hsmall, hadds, hroom, hkept⟩
  exact ⟨c, ha, hsmall, hadds, hroom, fun hv₀ => .inr (hkept.trans (mmapLast_eq hlast hv₀))⟩

/-! ## `mprotect` -/

/-- **`mprotect` of pages that are mapped** gives them the new protection, and that is all. -/
theorem doMprotect_spec {v n prot₀ : Nat} {c : Extent}
    (inv : KernelInv s.heap (c :: blocks) (pageLeaves leaf v n (c.addr + 16) prot₀))
    (hu : InUser v n) (hfits : 0x1000 * n + 16 ≤ c.size) (hal : (c.addr + 16) % 0x1000 = 0)
    (prot : Nat) :
    ∃ s', doMprotect (0x1000 * v) (0x1000 * n) prot s = .ok 0 s' ∧
      KernelInv s'.heap (c :: blocks) (pageLeaves leaf v n (c.addr + 16) prot) ∧
      (∀ x, Payload (c :: blocks) x → s'.mem x = s.mem x) ∧ s'.fds = s.fds ∧
      s'.kernel.lastMmapped = s.kernel.lastMmapped ∧ s'.refused = s.refused ∧
        s'.handed = s.handed ∧
      s'.room = s.room := by
  obtain ⟨hu₁, hu₂, hu₃⟩ := hu
  have hb := inv.bounds (e := c) List.mem_cons_self
  unfold Extent.fin at hb
  have hcount : (0x1000 * n + 0xfff) / 0x1000 = n := by omega
  obtain ⟨m, ret, leaf', heq, inv', hkept, hdone⟩ :=
    mprotect_spec (k := s.kernel) inv (0x1000 * v) (0x1000 * n) prot
  rw [hcount] at hdone
  obtain ⟨hret, hleaf⟩ := hdone (by omega)
  obtain rfl : ret = 0 := hret.mpr fun j hj => by
    have hpage : pageAt (0x1000 * v) 0 j = 0x1000 * (v + j) := by
      unfold pageAt
      omega
    have hq : 0x1000 * (v + j) / 0x1000 = v + j := by omega
    refine ⟨?_, ?_⟩
    · rw [hpage, userMemRangeOk_iff]
      omega
    · obtain ⟨p, hp⟩ : ∃ p, c.addr + 16 + 0x1000 * (v + j - v) = 0x8000000000 + p :=
        ⟨c.addr + 16 + 0x1000 * (v + j - v) - 0x8000000000, by omega⟩
      have hf := protFlags_le prot₀
      rw [hpage, hq, pageLeaves, if_pos (by omega), hp, leafWord_window (by omega) (by omega)]
      omega
  rw [hleaf rfl, protLeaves_pageLeaves (by omega) (by omega) hal (by omega)] at inv'
  refine ⟨{ s with
    kernel := { s.kernel with heap := { s.kernel.heap with mem := m } }
    written := fun x => m x ≠ s.mem x ∨ s.written x }, ?_, inv', ?_, rfl, rfl, rfl, rfl, rfl⟩
  · simp only [doMprotect, heq]
  · rintro x ⟨e, he, h₁, h₂⟩
    exact hkept.blocks e he x ⟨by omega, h₂⟩

/-! ## `sys_mmap` -/

theorem hasFlag_or (a b k : Nat) : hasFlag (a ||| b) k = (hasFlag a k || hasFlag b k) := by
  unfold hasFlag
  rw [Nat.and_or_distrib_right, Bool.eq_iff_iff, Bool.or_eq_true, bne_iff_ne, bne_iff_ne,
    bne_iff_ne, ne_eq, Nat.or_eq_zero_iff]
  exact not_and_or

/-- The bytes of the pages that `sys_mmap` fills with `len` bytes from position `off` of the
file. -/
def fileData (content : List UInt8) (off len : Nat) (i : Nat) : UInt8 :=
  if i < len then content.getD (off + i) 0 else 0

/-- New pages are readable and writable for now, so the walk finds their block. -/
theorem translate_newPages {v n prot : Nat} {c : Extent}
    (inv : KernelInv s.heap (c :: blocks) (pageLeaves leaf v n (c.addr + 16) (prot ||| protRW)))
    (hu : InUser v n) (hfits : 0x1000 * n + 16 ≤ c.size) (hal : (c.addr + 16) % 0x1000 = 0)
    (hn : 0 < n) :
    onMem (fun m => translate m (0x1000 * v) true true) s =
      .ok (c.addr + 16 - 0x8000000000) s := by
  have hwalk := area_walk (A := ⟨v, n, prot ||| protRW, fun _ => 0⟩) inv List.mem_cons_self
    hal hfits (fun q hq => Area.leaves_of_has hq leaf _) hu (Nat.le_refl (0x1000 * v))
    (by show _ < 0x1000 * (v + n); omega) true true
  have hrw : (true = true → hasFlag (prot ||| protRW) protR = true) ∧
      (true = true → hasFlag (prot ||| protRW) protW = true) := by
    rw [hasFlag_or, hasFlag_or]
    exact ⟨fun _ => by rw [show hasFlag protRW protR = true from rfl, Bool.or_true],
      fun _ => by rw [show hasFlag protRW protW = true from rfl, Bool.or_true]⟩
  rw [if_pos hrw, Nat.sub_self, Nat.add_zero] at hwalk
  rw [onMem, translate, hwalk, Option.getD_some]

/-- **Filling new pages** with what the host reads after its seek. -/
theorem fillPages_host (host : Host σ) {s₁ : Sys σ} {v n len prot offset : Nat} {c : Extent}
    (ha : Adds s s₁ blocks leaf ⟨v, n, prot ||| protRW, fun _ => 0⟩ c)
    (hfd : Opened s₁.fds fd rfd) (hlen : 0 < len) (hle : len ≤ 0x1000 * n)
    {seek : σ × HostReply} (hseek : seek = host s₁.world (.lseek rfd (offset % 2 ^ 32) seekSet))
    {read : HostReply}
    (hread : read = (host seek.1 (.read rfd (c.addr + 16 - 0x8000000000) len)).2) :
    Ends (fillPages host fd (0x1000 * v) len offset) s₁
      (fun ret s' =>
        (ret = resultOf seek.2 ∧ ret < 0 ∧ s'.refused = s₁.refused) ∨
        (0 ≤ resultOf seek.2 ∧ ret = 0 ∧
          Steady 0x2144 (fun x => c.addr + 16 ≤ x ∧ x < c.addr + 16 + len) s₁ s' (c :: blocks)
            (pageLeaves leaf v n (c.addr + 16) (prot ||| protRW)) ∧
          ∀ i, i < 0x1000 * n → s'.mem (c.addr + 16 + i) = ((read.bytes.take len)[i]?).getD 0))
      fun _ s' => Short 0x2144 s₁ s' ∨ resultOf seek.2 = unusedVar ∨
        resultOf read = unusedVar := by
  have hfits : 0x1000 * n + 16 ≤ c.size := ha.fits
  have hb := ha.inv.bounds (e := c) List.mem_cons_self
  unfold Extent.fin at hb
  rw [fillPages, if_pos hfd.1]
  have hmove := hpLseek_host host ha.inv hfd (Nat.mod_lt offset (show 0 < 2 ^ 32 by decide))
  rw [← hseek] at hmove
  refine Ends.bind (hmove.mono (fun _ _ h => h) fun _ _ h =>
    h.imp (fun h => h.mono (by decide)) .inl) ?_
  rintro ret s₂ ⟨rfl, hs₂, hworld⟩
  by_cases hneg : resultOf seek.2 < 0
  · rw [if_pos hneg, ends_pure]
    exact .inl ⟨rfl, hneg, hs₂.refused⟩
  · have hpa := translate_newPages hs₂.inv ha.user ha.fits ha.aligned (show 0 < n by omega)
    rw [if_neg hneg, ends_bind_of_ok hpa]
    have hbase : 0x8000000000 + (c.addr + 16 - 0x8000000000) = c.addr + 16 := by omega
    have hown : BufferOwned (c :: blocks) (c.addr + 16 - 0x8000000000) len := by
      refine ⟨by omega, fun x h₁ h₂ => ⟨c, List.mem_cons_self, by omega, ?_⟩⟩
      unfold Extent.fin
      omega
    have hfetch := hpRead_host host hs₂.inv (hfd.steady hs₂) hown hlen
    rw [hbase, hworld, ← hread] at hfetch
    refine Ends.bind (hfetch.mono (fun _ _ h => h)
      fun _ _ h => h.imp (fun h => h.after hs₂.room) .inr) fun _ s₃ h₃ =>
      ends_pure.mpr (.inr ⟨by omega, rfl, ?_, fun i hi => ?_⟩)
    · exact (hs₂.mono fun _ h => h.elim).trans h₃.1
    · have hpay : Payload (c :: blocks) (c.addr + 16 + i) :=
        ⟨c, List.mem_cons_self, by omega, by unfold Extent.fin; omega⟩
      have hzero : s₂.mem (c.addr + 16 + i) = 0 :=
        (hs₂.kept _ hpay not_false).trans (ha.data i hi)
      by_cases hin : i < len
      · rw [h₃.2.1 i hin, hzero]
      · have hshort : (read.bytes.take len).length ≤ i :=
          (List.length_take_le _ _).trans (Nat.le_of_not_lt hin)
        rw [h₃.1.kept _ hpay (by omega), hzero, List.getElem?_eq_none hshort, Option.getD_none]

theorem seekResult_ge (hfile : FileHost host rfd content errno pos) (off : Nat) :
    -4095 ≤ seekResult errno off := by
  have he := hfile.errno_range
  unfold seekResult
  split <;> omega

/-- **Filling new pages from the file.** -/
theorem fillPages_spec (hfile : FileHost host rfd content errno pos) {s₁ : Sys σ}
    {v n len prot offset : Nat} {c : Extent}
    (ha : Adds s s₁ blocks leaf ⟨v, n, prot ||| protRW, fun _ => 0⟩ c)
    (hfd : Opened s₁.fds fd rfd) (hlen : 0 < len) (hle : len ≤ 0x1000 * n) :
    Ends (fillPages host fd (0x1000 * v) len offset) s₁
      (fun ret s' =>
        (ret = seekResult errno (offset % 2 ^ 32) ∧ ret < 0 ∧ s'.refused = s₁.refused) ∨
        (0 ≤ seekResult errno (offset % 2 ^ 32) ∧ ret = 0 ∧
          Steady 0x2144 (fun x => c.addr + 16 ≤ x ∧ x < c.addr + 16 + len) s₁ s' (c :: blocks)
            (pageLeaves leaf v n (c.addr + 16) (prot ||| protRW)) ∧
          ∀ i, i < 0x1000 * n →
            s'.mem (c.addr + 16 + i) = fileData content (offset % 2 ^ 32) len i))
      fun _ => Short 0x2144 s₁ := by
  have hfits : 0x1000 * n + 16 ≤ c.size := ha.fits
  have hb := ha.inv.bounds (e := c) List.mem_cons_self
  unfold Extent.fin at hb
  have he := hfile.errno_range
  have hun := unusedVar_lt
  have hfill := fillPages_host host ha hfd hlen hle
    (show _ = host s₁.world (.lseek rfd (offset % 2 ^ 32) seekSet) from rfl) rfl
  rw [hfile.read, hfile.lseek_pos, hfile.lseek,
    resultOf_seek (Nat.mod_lt offset (by decide))] at hfill
  refine hfill.mono (fun ret s' h => h.imp_right fun h => ⟨h.1, h.2.1, h.2.2.1, fun i hi => ?_⟩)
    fun _ _ h => ?_
  · rw [h.2.2.2 i hi, fileData]
    by_cases hin : i < len
    · rw [if_pos hin, read_bytes hin, List.getD_eq_getElem?_getD]
    · rw [if_neg hin, List.getElem?_eq_none (by simp; omega), Option.getD_none]
  · refine h.resolve_right fun h => ?_
    rcases h with h | h
    · have hseek := seekResult_ge hfile (offset % 2 ^ 32)
      omega
    · rw [resultOf] at h
      dsimp only at h
      rw [toInt32_of_lt (by omega), if_neg (by omega)] at h
      omega

/-- **The last step**: the pages get the protection they were asked for. -/
theorem doMprotect_adds {s₁ s₂ : Sys σ} {v n len prot : Nat} {data : Nat → UInt8} {c : Extent}
    (ha : Adds s s₁ blocks leaf ⟨v, n, prot ||| protRW, fun _ => 0⟩ c)
    (hroom : s.room ≤ s₁.room + mapCost n) (hle : len ≤ 0x1000 * n)
    (hsteady : Steady 0x2144 (fun x => c.addr + 16 ≤ x ∧ x < c.addr + 16 + len) s₁ s₂
      (c :: blocks) (pageLeaves leaf v n (c.addr + 16) (prot ||| protRW)))
    (hdata : ∀ i, i < 0x1000 * n → s₂.mem (c.addr + 16 + i) = data i) :
    ∃ s₃, doMprotect (0x1000 * v) (0x1000 * n) prot s₂ = .ok 0 s₃ ∧
      Adds s s₃ blocks leaf ⟨v, n, prot, data⟩ c ∧
      s₃.kernel.lastMmapped = s₁.kernel.lastMmapped := by
  obtain ⟨s₃, hdo, inv₃, hkept, hfds, hlast, href, hhand, hroom₃⟩ :=
    doMprotect_spec hsteady.inv ha.user ha.fits ha.aligned prot
  have hfits : 0x1000 * n + 16 ≤ c.size := ha.fits
  refine ⟨s₃, hdo, ⟨inv₃, ha.user, ha.fits, ha.aligned, fun i hi => ?_, fun x hx => ?_, ?_, ?_,
    ?_, ?_⟩, ?_⟩
  · have hi' : i < 0x1000 * n := hi
    rw [hkept _ ⟨c, List.mem_cons_self, by omega, by unfold Extent.fin; omega⟩]
    exact hdata i hi
  · -- the block's own bytes are no other block's
    obtain ⟨e, he, hx₁, hx₂⟩ := hx
    have hap := (List.pairwise_cons.mp ha.inv.apart).1 e he
    have hout : ¬ (c.addr + 16 ≤ x ∧ x < c.addr + 16 + len) := fun hin =>
      hap.not_has (a := x) ⟨by omega, by unfold Extent.fin; omega⟩ ⟨by omega, hx₂⟩
    rw [hkept _ ⟨e, List.mem_cons_of_mem _ he, hx₁, hx₂⟩,
      hsteady.kept _ ⟨e, List.mem_cons_of_mem _ he, hx₁, hx₂⟩ hout, ha.kept _ ⟨e, he, hx₁, hx₂⟩]
  · rw [hfds, hsteady.table, ha.table]
  · rw [href, hsteady.refused, ha.refused]
  · rw [hhand, hsteady.handed, ha.handed]
  · have hleft := hsteady.room
    have hcost : mapCost n + 0x2144 ≤ areaCost n := by
      unfold mapCost areaCost
      omega
    show s.room ≤ s₃.room + areaCost n
    omega
  · rw [hlast, hsteady.last]

theorem alignup_spec {len : Nat} (h : len < 2 ^ 64) :
    alignup len % 0x1000 = 0 ∧
      (alignup len ≠ 0 → len ≤ alignup len ∧ alignup len < len + 0x1000) := by
  unfold alignup aligndown
  split <;> omega

/-- Rounding up adds less than a page, modulo `2^64`. -/
theorem alignup_add {y : Nat} (h : y < 2 ^ 64) :
    ∃ r, r < 0x1000 ∧ alignup y = (y + r) % 2 ^ 64 := by
  unfold alignup aligndown
  split
  · exact ⟨0x1000 - y % 0x1000, by omega, by omega⟩
  · exact ⟨0, by omega, by omega⟩

/-- What becomes of the pages from page `v` on that are to hold `len` bytes from position
`off` of a file. A start outside the user range is noticed, an end outside is not; and page 0
stands for a free choice of the kernel, which is not what the caller asked for. -/
def mapVerdict (errno : Int) (v len off : Nat) : Verdict :=
  if len = 0 ∨ v ≠ 0 ∧ userMemRangeOk (0x1000 * v) = false then .rejects (-eINVAL)
  else if alignup len = 0 then .bad
  else if 2 ^ 32 ≤ alignup len then .rejects (-eNOMEM)
  else if ¬ InUser v (alignup len / 0x1000) ∨ seekResult errno off < 0 then .bad
  else .loads

/-- The result of `sys_mmap` for page `v`, by the verdict; `done` holds of what was mapped. -/
inductive MapEnds (v : Nat) (done : Prop) : Verdict → Nat → Prop
  | loads (h : done) : MapEnds v done .loads (0x1000 * v)
  | rejects (ret : Int) : MapEnds v done (.rejects ret) (ofInt ret)
  | bad {r : Nat} (other : r ≠ 0x1000 * v) (cut : toInt32 r < 0) : MapEnds v done .bad r

theorem toInt32_ofInt_neg {x : Int} (h₁ : -4095 ≤ x) (h₂ : x < 0) :
    toInt32 (ofInt x : Nat) = x := by
  rw [toInt32, Int.bmod_def]
  unfold ofInt
  split <;> omega

/-- A small negative number is no page address. -/
theorem ofInt_neg_mod {x : Int} (h₁ : -4095 ≤ x) (h₂ : x < 0) : ofInt x % 0x1000 ≠ 0 := by
  unfold ofInt
  omega

/-- The part of `sys_mmap` behind `mmap`. -/
def finishMmap (host : Host σ) (fd : Int) (addr len alignedLen prot offset : Nat) :
    KernelM σ Nat :=
  do
  let ret ← fillPages host fd addr len offset
  if ret < 0 then return ofInt ret
  else do
    let _ ← doMprotect addr alignedLen prot
    return addr

/-- **Behind `mmap`**: the seek is reported as failed, or the area is complete. -/
theorem finishMmap_spec (hfile : FileHost host rfd content errno pos) {s₁ : Sys σ}
    {v n len prot offset : Nat} {c : Extent}
    (ha : Adds s s₁ blocks leaf ⟨v, n, prot ||| protRW, fun _ => 0⟩ c)
    (hroom : s.room ≤ s₁.room + mapCost n) (hfd : Opened s₁.fds fd rfd) (hlen : 0 < len)
    (hle : len ≤ 0x1000 * n) :
    Ends (finishMmap host fd (0x1000 * v) len (0x1000 * n) prot offset) s₁
      (fun r s' =>
        (r = ofInt (seekResult errno (offset % 2 ^ 32)) ∧
          seekResult errno (offset % 2 ^ 32) < 0 ∧
          s'.refused = s.refused) ∨
        (0 ≤ seekResult errno (offset % 2 ^ 32) ∧ r = 0x1000 * v ∧
          Adds s s' blocks leaf ⟨v, n, prot, fileData content (offset % 2 ^ 32) len⟩ c ∧
          s'.kernel.lastMmapped = s₁.kernel.lastMmapped))
      fun _ => Short (areaCost n) s := by
  have hcost : mapCost n + 0x2144 ≤ areaCost n := by
    unfold mapCost areaCost
    omega
  unfold finishMmap
  refine Ends.bind ((fillPages_spec hfile ha hfd hlen hle).mono (fun _ _ h => h)
    fun _ _ h => (h.after hroom).mono hcost) ?_
  rintro ret s₂ (⟨rfl, hneg, href⟩ | ⟨hpos, rfl, hsteady, hdata⟩)
  · rw [if_pos hneg, ends_pure]
    exact .inl ⟨rfl, hneg, href.trans ha.refused⟩
  · obtain ⟨s₃, hdo, hadds, hlast⟩ := doMprotect_adds ha hroom hle hsteady hdata
    rw [if_neg (by decide), ends_bind_of_ok hdo, ends_pure]
    exact .inr ⟨hpos, rfl, hadds, hlast⟩

theorem not_inUser_zero (n : Nat) : ¬ InUser 0 n := fun h => absurd h.1 (by decide)

/-- An address that the kernel has chosen does not look like a page of the caller's, but,
cut to 32 bits, like an error. -/
theorem target_zero {n : Nat} (h : n < 0x200) :
    0x1000 * target 0 n ≠ 0x1000 * 0 ∧ toInt32 (0x1000 * target 0 n : Nat) < 0 := by
  have ht : target 0 n = 0x7ffff7fff - n := if_pos rfl
  rw [ht, toInt32, Int.bmod_def]
  refine ⟨by omega, ?_⟩
  split <;> omega

/-- **`sys_mmap` of a part of the file** at a fixed page. -/
theorem sysMmap_spec (hfile : FileHost host rfd content errno pos)
    (inv : KernelInv s.heap blocks leaf) (hlast : LastOk s) (hfd : Opened s.fds fd rfd)
    {v len : Nat} (hv : v < 2 ^ 52) (hlen : len < 2 ^ 64) (prot offset : Nat) :
    Ends (sysMmap host (0x1000 * v) len prot mapFixed fd offset) s
      (fun r s' => Short (areaCost (alignup len / 0x1000)) s s' ∧ r = ofInt (-eNOMEM) ∨
        s'.refused = s.refused ∧ MapEnds v ((∃ c, Adds s s' blocks leaf
            ⟨v, alignup len / 0x1000, prot, fileData content (offset % 2 ^ 32) len⟩ c) ∧
              LastOk s')
          (mapVerdict errno v len (offset % 2 ^ 32)) r)
      fun _ s' => Short (areaCost (alignup len / 0x1000)) s s' ∨
        s'.refused = s.refused ∧ mapVerdict errno v len (offset % 2 ^ 32) = .bad := by
  have hal : ¬ (!alignok (0x1000 * v)) = true := by simp [alignok, aligndown]
  have hflag : hasFlag mapFixed mapFixed = true := rfl
  rw [sysMmap, if_neg hal]
  by_cases hz : len = 0
  · rw [if_pos hz, ends_pure, mapVerdict, if_pos (.inl hz)]
    exact .inr ⟨rfl, .rejects _⟩
  rw [if_neg hz]
  by_cases hout : v ≠ 0 ∧ userMemRangeOk (0x1000 * v) = false
  · have hcheck : hasFlag mapFixed mapFixed = true ∧ 0x1000 * v ≠ 0 ∧
      (!userMemRangeOk (0x1000 * v)) = true := ⟨hflag, by omega, by rw [hout.2]; rfl⟩
    rw [if_pos hcheck, ends_pure, mapVerdict, if_pos (.inr hout)]
    exact .inr ⟨rfl, .rejects _⟩
  have hcheck : ¬ (hasFlag mapFixed mapFixed = true ∧ 0x1000 * v ≠ 0 ∧ (!userMemRangeOk
    (0x1000 * v)) = true) := fun h => hout ⟨by omega, (Bool.not_eq_true' _).mp h.2.2⟩
  have hverdict : mapVerdict errno v len (offset % 2 ^ 32) = if alignup len = 0 then
    .bad else if 2 ^ 32 ≤ alignup len then .rejects (-eNOMEM)
    else if ¬ InUser v (alignup len / 0x1000) ∨ seekResult errno (offset % 2 ^ 32) < 0 then .bad
    else .loads := if_neg fun h => h.elim hz hout
  rw [if_neg hcheck]
  simp only [hflag, if_true]
  by_cases hwrap : alignup len = 0
  · -- the length wrapped to nothing, which `mmap` does not take
    rw [hwrap, ends_bind_of_error (doMmap_of_error (mmap_badLength s.kernel _ _ (.inl rfl))),
      hverdict, if_pos hwrap]
    exact .inr ⟨rfl, rfl⟩
  · obtain ⟨hmod, hup⟩ := alignup_spec hlen
    obtain ⟨n, hn⟩ : ∃ n, alignup len = 0x1000 * n := ⟨alignup len / 0x1000, by omega⟩
    have hcount : 0x1000 * n / 0x1000 = n := by omega
    rw [hn, hcount] at hverdict
    rw [if_neg (by omega)] at hverdict
    simp only [hn, hcount]
    have hcost : mapCost n ≤ areaCost n := by
      unfold mapCost areaCost
      omega
    refine Ends.bind ((doMmap_spec inv hlast hv (by omega) _).mono (fun _ _ h => h)
      fun e s₁ h => ?_) ?_
    · -- a page outside the user range
      refine h.imp (fun h => h.mono hcost) fun h => ⟨h.2.2, ?_⟩
      have hnot : ¬ InUser v n := fun hin => h.2.1 <| by
        have hv₀ : v ≠ 0 := fun h₀ => not_inUser_zero n (h₀ ▸ hin)
        rwa [target, if_neg hv₀]
      rw [hverdict, if_neg (by omega), if_pos (.inl hnot)]
    rintro a s₁ (⟨c, rfl, hsmall, ha, hroom, hlast₁⟩ | ⟨rfl, hbig, href⟩ | ⟨rfl, -, hshort⟩)
    · have htarget := ha.user.1
      simp only at htarget
      rw [if_neg (by omega)]
      rw [if_neg (by omega)] at hverdict
      have hfd₁ : Opened s₁.fds fd rfd := ⟨hfd.1, ha.table ▸ hfd.2⟩
      refine (finishMmap_spec hfile ha hroom hfd₁ (by omega) (by omega)).mono (fun r s₂ h =>
        .inr ⟨?_, ?_⟩) fun _ _ => .inl
      · exact h.elim (fun h => h.2.2) fun h => h.2.2.1.refused
      have hge := seekResult_ge hfile (offset % 2 ^ 32)
      by_cases hv₀ : v = 0
      · -- the kernel has chosen
        rw [hverdict, if_pos (.inl (hv₀ ▸ not_inUser_zero n)), hv₀]
        rcases h with ⟨rfl, hneg, -⟩ | ⟨-, rfl, -⟩
        · have hmod := ofInt_neg_mod hge hneg
          refine .bad (fun h => by omega) ?_
          rwa [toInt32_ofInt_neg hge hneg]
        · rw [hv₀]
          exact .bad (target_zero hsmall).1 (target_zero hsmall).2
      · have htv : target v n = v := if_neg hv₀
        rw [htv] at h ha
        rcases h with ⟨rfl, hneg, -⟩ | ⟨hpos, rfl, ha₂, hlast₂⟩
        · have hmod := ofInt_neg_mod hge hneg
          rw [hverdict, if_pos (.inr hneg)]
          refine .bad (fun h => by omega) ?_
          rwa [toInt32_ofInt_neg hge hneg]
        · have hgood : ¬ (¬ InUser v n ∨ seekResult errno (offset % 2 ^ 32) < 0) :=
            fun h => h.elim (fun h => h ha.user) (by omega)
          rw [hverdict, if_neg hgood]
          exact .loads ⟨⟨c, ha₂⟩, (hlast₁ hv₀).imp hlast₂.trans hlast₂.trans⟩
    · rw [if_pos rfl, ends_pure, hverdict, if_pos (by omega)]
      exact .inr ⟨href, .rejects _⟩
    · rw [if_pos rfl, ends_pure]
      exact .inl ⟨hshort.mono hcost, rfl⟩

end BpfExamples.Kvm
