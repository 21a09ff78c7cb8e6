import BpfExamples.Kvm.LoadedImage

/-!
# File offsets (`kernel/syscalls/sys_mmap.c`, `kernel/hypercalls/hp_lseek.c`)

An offset is a 64-bit argument of `sys_mmap`. `hp_lseek` takes 32 bits of it, and the host's
answer comes back as a signed 32-bit result, in which a position from `2^31` on looks like a
failure. `sysMmap_offset_iff` says for which offsets the trip goes well.

`sys_mmap` is cut at the seek: `newPages` comes before it, `finishMmap` is the rest.
-/

namespace BpfExamples.Kvm

open Mem

variable {σ : Type} {s s' : Sys σ} {blocks : List Extent} {leaf : Nat → Nat} {host : Host σ}
  {fd rfd errno : Int} {content : List UInt8} {pos : σ → Nat} {addr len prot flags offset : Nat}

/-! ## The pages before the seek -/

/-- Where the next area goes is always the start of a page. -/
def Kernel.LastAligned (k : Kernel) : Prop :=
  k.lastMmapped = minusOne ∨ k.lastMmapped % 0x1000 = 0

/-- It stays so, since `mmap` only takes whole pages. -/
theorem mmap_lastAligned {k k' : Kernel} {a : Nat} (h : k.LastAligned)
    (hrun : mmap k addr len prot = .ok (k', a)) : k'.LastAligned := by
  unfold mmap at hrun
  split at hrun
  · cases hrun
  next hlen =>
  have hand : len &&& 0xfff = len % 0x1000 := Nat.and_two_pow_sub_one_eq_mod len 12
  obtain ⟨⟨h₁, ret⟩, -, hrun⟩ := bind_eq_ok.mp hrun
  dsimp only at hrun
  split at hrun
  · cases hrun
    exact h
  · obtain ⟨h₂, -, hrun⟩ := bind_eq_ok.mp hrun
    cases hrun
    have hlast : (if k.lastMmapped = minusOne then 0x7ffff7fff000 else k.lastMmapped) % 0x1000 =
        0 := by
      rcases h with h | h
      · rw [if_pos h]
      · split
        · rfl
        · exact h
    refine .inr ?_
    split <;> dsimp only <;> omega

/-- The part of `sys_mmap` before the seek: an error, or the address of new, zero pages. -/
def newPages (addr len prot flags : Nat) : KernelM σ (Except Int Nat) :=
  if (!alignok addr) = true ∨ len = 0 ∨ hasFlag flags mapFixed ∧ addr ≠ 0 ∧
    !userMemRangeOk addr then
    pure (.error (-eINVAL))
  else do
    let a ← doMmap (if hasFlag flags mapFixed then addr else 0) (alignup len) (prot ||| protRW)
    if a = 0 then return .error (-eNOMEM) else return .ok a

/-- What `sys_mmap` does with the pages. -/
def afterPages (host : Host σ) (fd : Int) (len prot offset : Nat) :
    Except Int Nat → KernelM σ Nat
  | .error e => pure (ofInt e)
  | .ok a => finishMmap host fd a len (alignup len) prot offset

theorem sysMmap_eq (host : Host σ) (addr len prot flags : Nat) (fd : Int) (offset : Nat) :
    sysMmap host addr len prot flags fd offset =
      newPages addr len prot flags >>= afterPages host fd len prot offset := by
  unfold sysMmap newPages
  by_cases h₁ : (!alignok addr) = true
  · rw [if_pos h₁, if_pos (.inl h₁)]
    rfl
  rw [if_neg h₁]
  by_cases h₂ : len = 0
  · rw [if_pos h₂, if_pos (.inr (.inl h₂))]
    rfl
  rw [if_neg h₂]
  by_cases h₃ : hasFlag flags mapFixed ∧ addr ≠ 0 ∧ !userMemRangeOk addr
  · rw [if_pos h₃, if_pos (.inr (.inr h₃))]
    rfl
  have hnot : ¬ ((!alignok addr) = true ∨ len = 0 ∨ hasFlag flags mapFixed ∧ addr ≠ 0 ∧
    !userMemRangeOk addr) := fun h => h.elim h₁ fun h => h.elim h₂ h₃
  rw [if_neg h₃, if_neg hnot, bind_assoc]
  refine bind_congr fun a => ?_
  by_cases ha : a = 0
  · rw [if_pos ha, if_pos ha]
    rfl
  · rw [if_neg ha, if_neg ha]
    rfl

/-- The page that the checks of `sys_mmap` let through to `mmap`. -/
theorem mmapAddr_page (hlast : s.kernel.LastAligned) (hal : ¬ (!alignok addr) = true)
    (hin : ¬ (hasFlag flags mapFixed ∧ addr ≠ 0 ∧ !userMemRangeOk addr)) (n : Nat) :
    ∃ t, t < 2 ^ 52 ∧
      mmapAddr s.kernel.lastMmapped (if hasFlag flags mapFixed then addr else 0) (0x1000 * n) =
        0x1000 * t := by
  have hpage : addr % 0x1000 = 0 := by
    simp only [alignok, aligndown, Bool.not_eq_true', beq_eq_false_iff_ne, ne_eq,
      not_not] at hal
    omega
  have hlast' : (if s.kernel.lastMmapped = minusOne then 0x7ffff7fff000
      else s.kernel.lastMmapped) % 0x1000 = 0 := by
    rcases hlast with h | h
    · rw [if_pos h]
    · split
      · rfl
      · exact h
  have hmul : ∀ x, x < 2 ^ 64 → x % 0x1000 = 0 → ∃ t, t < 2 ^ 52 ∧ x = 0x1000 * t :=
    fun x h₁ h₂ => ⟨x / 0x1000, by omega, by omega⟩
  unfold mmapAddr
  by_cases h₀ : (if hasFlag flags mapFixed then addr else 0) = 0
  · rw [if_pos h₀]
    exact hmul _ (Nat.mod_lt _ (by decide)) (by omega)
  · rw [if_neg h₀]
    have hfixed : hasFlag flags mapFixed = true := by
      by_contra hno
      exact h₀ (if_neg hno)
    rw [if_pos hfixed] at h₀ ⊢
    have hrange : userMemRangeOk addr = true := by
      by_contra hno
      exact hin ⟨hfixed, h₀, by simpa using hno⟩
    rw [userMemRangeOk_iff] at hrange
    exact hmul _ (by omega) hpage

/-- **Before the seek**: an error, or one new area at a page of the user range, which is the
caller's page or the next one down from the last. -/
theorem newPages_at (inv : KernelInv s.heap blocks leaf) (hlast : s.kernel.LastAligned)
    (hlen : len < 2 ^ 64) :
    Ends (newPages addr len prot flags) s
      (fun a s₁ => a = .error (-eINVAL) ∨ a = .error (-eNOMEM) ∨
        ∃ t n c, a = .ok (0x1000 * t) ∧ alignup len = 0x1000 * n ∧ 0 < len ∧ len ≤ 0x1000 * n ∧
          Adds s s₁ blocks leaf ⟨t, n, prot ||| protRW, fun _ => 0⟩ c ∧
            s.room ≤ s₁.room + mapCost n ∧
          mmapAddr s.kernel.lastMmapped (if hasFlag flags mapFixed then addr else 0)
            (alignup len) = 0x1000 * t ∧
          s₁.kernel.lastMmapped =
            mmapLast s.kernel.lastMmapped (if hasFlag flags mapFixed then addr else 0)
              (alignup len))
      fun _ _ => True := by
  refine Ends.ite (fun _ => ends_pure.mpr (.inl rfl)) fun hnot => ?_
  obtain ⟨hal, hpos, hin⟩ := not_or.mp hnot |>.imp_right not_or.mp
  by_cases hwrap : alignup len = 0
  · -- the length wrapped to nothing
    rw [hwrap, ends_bind_of_error (doMmap_of_error (mmap_badLength s.kernel _ _ (.inl rfl)))]
    trivial
  obtain ⟨hmod, hup⟩ := alignup_spec hlen
  obtain ⟨n, hn⟩ : ∃ n, alignup len = 0x1000 * n := ⟨alignup len / 0x1000, by omega⟩
  obtain ⟨t, ht, haddr⟩ := mmapAddr_page hlast hal hin n
  rw [hn]
  refine Ends.bind ((doMmap_at inv ht (by omega) (fun _ => haddr) _).mono (fun _ _ h => h)
    fun _ _ _ => trivial) ?_
  rintro a s₁ (⟨c, rfl, -, ha, hroom, hnext⟩ | ⟨rfl, -⟩ | ⟨rfl, -⟩)
  · have huser : 0x200 ≤ t := ha.user.1
    rw [if_neg (by omega), ends_pure]
    exact .inr (.inr ⟨t, n, c, rfl, rfl, by omega, by omega, ha, hroom, haddr, hnext⟩)
  · exact ends_pure.mpr (.inr (.inl rfl))
  · exact ends_pure.mpr (.inr (.inl rfl))

/-- In short: an error number, or one new area. -/
theorem newPages_spec (inv : KernelInv s.heap blocks leaf) (hlast : s.kernel.LastAligned)
    (hlen : len < 2 ^ 64) :
    Ends (newPages addr len prot flags) s
      (fun a s₁ => (∃ e : Int, a = .error e ∧ -4095 ≤ e ∧ e < 0) ∨
        ∃ t n c, a = .ok (0x1000 * t) ∧ alignup len = 0x1000 * n ∧ 0 < len ∧ len ≤ 0x1000 * n ∧
          Adds s s₁ blocks leaf ⟨t, n, prot ||| protRW, fun _ => 0⟩ c ∧
            s.room ≤ s₁.room + mapCost n)
      fun _ _ => True := by
  refine (newPages_at inv hlast hlen).mono ?_ fun _ _ h => h
  rintro a s₁ (rfl | rfl | ⟨t, n, c, ha, hn, hpos, hle, hadds, hroom, -⟩)
  · exact .inl ⟨_, rfl, by decide, by decide⟩
  · exact .inl ⟨_, rfl, by decide, by decide⟩
  · exact .inr ⟨t, n, c, ha, hn, hpos, hle, hadds, hroom⟩

/-! ## When there are pages -/

/-- The checks turn the call down. -/
def Rejected (addr len flags : Nat) : Prop :=
  (!alignok addr) = true ∨ len = 0 ∨ hasFlag flags mapFixed ∧ addr ≠ 0 ∧ !userMemRangeOk addr

instance decidableRejected (addr len flags : Nat) : Decidable (Rejected addr len flags) :=
  inferInstanceAs (Decidable (_ ∨ _ ∨ _))

/-- Where the call maps its pages: where the caller says, or where the kernel has room. -/
def chosenAddr (s : Sys σ) (addr len flags : Nat) : Nat :=
  mmapAddr s.kernel.lastMmapped (if hasFlag flags mapFixed then addr else 0) (alignup len)

/-- There is no block for the pages: they are more than `kmalloc` takes, or the unused area has
no room for them on a page of their own. -/
def Unbacked (s : Sys σ) (len : Nat) : Prop :=
  2 ^ 32 ≤ alignup len ∨ ¬ RoomOnPage s.heap (chunkSize (alignup len))

theorem newPages_rejected (h : Rejected addr len flags) :
    newPages addr len prot flags s = .ok (.error (-eINVAL)) s := by
  rw [newPages, if_pos (show _ ∨ _ from h)]
  rfl

/-- A range that can be mapped begins with an address of the user. -/
theorem chosenAddr_user (hgood : ¬ Rejected addr len flags)
    (hrange : InUserRange (chosenAddr s addr len flags) 0 (alignup len / 0x1000))
    (hpos : 0x1000 ≤ alignup len) : Outside (chosenAddr s addr len flags) := by
  have hfirst := userMemRangeOk_iff.mp (hrange 0 (by omega))
  have hlt : chosenAddr s addr len flags < 2 ^ 64 := by
    unfold chosenAddr mmapAddr
    by_cases hfixed : hasFlag flags mapFixed = true
    · rw [if_pos hfixed]
      by_cases hz : addr = 0
      · rw [if_pos hz]
        exact Nat.mod_lt _ (by decide)
      · have huser : userMemRangeOk addr = true := by
          by_contra hno
          exact hgood (.inr (.inr ⟨hfixed, hz, by simpa using hno⟩))
        rw [if_neg hz]
        exact Nat.lt_of_lt_of_le (userMemRangeOk_iff.mp huser).2.1 (by decide)
    · rw [if_neg hfixed, if_pos rfl]
      exact Nat.mod_lt _ (by decide)
  rwa [pageAt_zero, Nat.add_zero, Nat.mod_eq_of_lt hlt] at hfirst

/-- Where pages were mapped, there was room for them. -/
theorem Mapped.backed {k k' : Kernel} {n : Nat} {c : Extent}
    (hm : Mapped k k' blocks leaf addr n prot c) (inv : KernelInv k.heap blocks leaf) :
    n < 2 ^ 32 ∧ RoomOnPage k.heap (chunkSize n) := by
  obtain ⟨tabs, bin, T, pinv, -⟩ := inv.rep
  obtain ⟨h₁, hblock⟩ := hm.block
  have hlt : n < 2 ^ 32 := by
    by_contra hbig
    rw [kmalloc, if_pos (Nat.le_of_not_lt hbig)] at hblock
    cases hblock
  exact ⟨hlt, (pinv.heap.kmalloc_served_iff isolated_kernelSpan (.inr rfl) hlt).mp
    ⟨h₁, _, hblock, Nat.succ_ne_zero _⟩⟩

/-- **Before the seek**, in every way it can end: behind the checks it is `mmap`. -/
theorem newPages_cases (inv : KernelInv s.heap blocks leaf) (prot : Nat) (hlen : len < 2 ^ 64)
    (hgood : ¬ Rejected addr len flags) :
    (alignup len = 0 ∧ newPages addr len prot flags s = .error (.panic .mmapLength) s) ∨
    (∃ s₁ c, newPages addr len prot flags s = .ok (.ok (chosenAddr s addr len flags)) s₁ ∧
      s₁.refused = s.refused ∧
      ¬ Unbacked s len ∧ alignup len ≠ 0 ∧ s₁.handed = (c.addr + 16) :: s.handed ∧
      Mapped s.kernel s₁.kernel blocks leaf (if hasFlag flags mapFixed then addr else 0)
        (alignup len) (prot ||| protRW) c) ∨
    (¬ InUserRange (chosenAddr s addr len flags) 0 (alignup len / 0x1000) ∧
      alignup len < 2 ^ 32 ∧ alignup len ≠ 0 ∧
      ∃ s₁, newPages addr len prot flags s = .error (.panic .addTransNotAllowed) s₁) ∨
    (2 ^ 32 ≤ alignup len ∧ Unbacked s len ∧
      ∃ s₁, newPages addr len prot flags s = .ok (.error (-eNOMEM)) s₁ ∧ s₁.kernel = s.kernel) ∨
    (alignup len ≤ 0x200000 ∧ Unbacked s len ∧
      ∃ s₁, newPages addr len prot flags s = .ok (.error (-eNOMEM)) s₁ ∧ s₁.refused = true ∧
        Declined s.heap s₁.heap (alignup len)) ∨
    (∃ e s₁, newPages addr len prot flags s = .error e s₁ ∧ s₁.refused = true) := by
  rw [newPages, if_neg (show ¬ (_ ∨ _) from hgood)]
  by_cases hwrap : alignup len = 0
  · refine .inl ⟨hwrap, ?_⟩
    rw [hwrap]
    exact bind_of_error (doMmap_of_error (mmap_badLength s.kernel _ _ (.inl rfl)))
  obtain ⟨hmod, hup⟩ := alignup_spec hlen
  rcases mmap_spec (k := s.kernel) inv (if hasFlag flags mapFixed then addr else 0)
    (prot ||| protRW) (show 0 < alignup len by omega) hmod with
    ⟨k', c, heq, hm⟩ | ⟨herr, hnot⟩ | ⟨herr, hshort⟩ | ⟨hlong, heq⟩ |
      ⟨hle, hfull, h', heq, hd⟩ | ⟨hgt, hlt, hshort, herr⟩
  · -- an address of the user range is not null
    have huser := chosenAddr_user hgood hm.allowed (by omega)
    have hne : chosenAddr s addr len flags ≠ 0 := fun h₀ => absurd (h₀ ▸ huser.1) (by decide)
    obtain ⟨s₁, hs₁, hdo⟩ : ∃ s₁, s₁ = _ ∧
      doMmap _ _ _ s = .ok (chosenAddr s addr len flags) s₁ := ⟨_, rfl, doMmap_of_ok heq⟩
    obtain ⟨h₁, hblock⟩ := hm.block
    refine .inr (.inl ⟨s₁, c, ?_, ?_, ?_, hwrap, ?_, by rw [hs₁]; exact hm⟩)
    · rw [bind_of_ok hdo, if_neg hne]
      rfl
    · rw [hs₁]
      show (chosenAddr s addr len flags == 0 && _ || s.refused) = s.refused
      rw [beq_eq_false_iff_ne.mpr hne, Bool.false_and, Bool.false_or]
    · obtain ⟨hlt, hroom⟩ := hm.backed inv
      exact fun hun => hun.elim (Nat.not_le.mpr hlt) fun hno => hno hroom
    · rw [hs₁]
      show (if chosenAddr s addr len flags = 0 then s.handed
        else mmapBlock s.heap (alignup len) :: s.handed) = _
      have hptr : mmapBlock s.heap (alignup len) = c.addr + 16 := by
        rw [mmapBlock, show kmalloc kernelSpace s.heap (alignup len) mallocPageAlign = _
          from hblock]
      rw [if_neg hne, hptr]
  · by_cases hlong : 2 ^ 32 ≤ alignup len
    · obtain ⟨n, hn⟩ : ∃ n, alignup len = 0x1000 * n := ⟨alignup len / 0x1000, by omega⟩
      rw [hn, mmap_tooLong s.kernel _ _ (by omega)] at herr
      cases herr
    · exact .inr (.inr (.inl ⟨hnot, by omega, hwrap, _, bind_of_error (doMmap_of_error herr)⟩))
  · exact .inr (.inr (.inr (.inr (.inr ⟨_, _, bind_of_error (doMmap_of_error herr), rfl⟩))))
  · obtain ⟨s₁, hs₁, hdo⟩ : ∃ s₁, s₁ = _ ∧ doMmap _ _ _ s = .ok 0 s₁ :=
      ⟨_, rfl, doMmap_of_ok heq⟩
    refine .inr (.inr (.inr (.inl ⟨hlong, .inl hlong, s₁, ?_, by rw [hs₁]⟩)))
    rw [bind_of_ok hdo, if_pos rfl]
    rfl
  · obtain ⟨s₁, hs₁, hdo⟩ : ∃ s₁, s₁ = _ ∧ doMmap _ _ _ s = .ok 0 s₁ :=
      ⟨_, rfl, doMmap_of_ok heq⟩
    refine .inr (.inr (.inr (.inr (.inl ⟨hle, .inr hfull, s₁, ?_, ?_, by rw [hs₁]; exact hd⟩))))
    · rw [bind_of_ok hdo, if_pos rfl]
      rfl
    · rw [hs₁]
      show ((0 : Nat) == 0 && decide (alignup len < 2 ^ 32) || s.refused) = true
      rw [decide_eq_true (by omega)]
      rfl
  · exact .inr (.inr (.inr (.inr (.inr ⟨_, _, bind_of_error (doMmap_of_error herr), rfl⟩))))

/-! ## The whole call -/

/-- A result of a system call that is no error number. -/
def NoError (r : Nat) : Prop := r < 2 ^ 64 - 4095

theorem not_noError {e : Int} (h₁ : -4095 ≤ e) (h₂ : e < 0) : ¬ NoError (ofInt e) := by
  unfold NoError ofInt
  omega

/-- The call gets its pages, and comes to the seek: its checks let it through, and the unused
area has room. -/
def GetsPages (s : Sys σ) (addr len flags : Nat) : Prop :=
  ¬ Rejected addr len flags ∧ ¬ Unbacked s len

/-- The offset of `sys_mmap` has survived the trip to the host. -/
structure OffsetKept (host : Host σ) (rfd : Int) (content : List UInt8)
    (addr len prot flags : Nat) (fd : Int) (offset : Nat) (s : Sys σ) : Prop where
  /-- The mapping holds the file's bytes from the offset on. -/
  bytes : ∀ r s', sysMmap host addr len prot flags fd offset s = .ok r s' → NoError r →
    ∀ i, i < len →
    UserByte s'.mem (r + i) (content.getD (offset + i) 0) (hasFlag prot protR)
      (hasFlag prot protW)
  /-- An offset that the request has no room for is reported. -/
  carried : ∀ r s', sysMmap host addr len prot flags fd offset s = .ok r s' →
    2 ^ 32 ≤ offset → ¬ NoError r
  /-- `hp_lseek` reports a failure only where the host has. -/
  sought : ∀ a s₁ ret s₂, newPages addr len prot flags s = .ok (.ok a) s₁ →
    hpLseek host fd (offset % 2 ^ 32) seekSet s₁ = .ok ret s₂ → ret < 0 →
    (host s₁.world (.lseek rfd (offset % 2 ^ 32) seekSet)).2.ret < 0

/-- An offset that arrives: it is positive as an `int`, or at least fits the request while
`errno` is clear. -/
def OffsetOk (errno : Int) (offset : Nat) : Prop :=
  offset < 2 ^ 31 ∨ offset < 2 ^ 32 ∧ errno = 0

theorem offsetOk_iff (hfile : FileHost host rfd content errno pos) :
    OffsetOk errno offset ↔ offset < 2 ^ 32 ∧ 0 ≤ seekResult errno (offset % 2 ^ 32) := by
  have he := hfile.errno_range
  unfold OffsetOk seekResult
  split <;> omega

section

variable (hfile : FileHost host rfd content errno pos) (inv : KernelInv s.heap blocks leaf)
  (hlast : s.kernel.LastAligned) (hfd : Opened s.fds fd rfd) (hlen : len < 2 ^ 64)
include inv hlast hlen

/-- A call that returns without reaching the seek reports an error. -/
theorem sysMmap_stopped {r : Nat} {s₁ : Sys σ} {e : Int}
    (hnew : newPages addr len prot flags s = .ok (.error e) s₁)
    (hrun : sysMmap host addr len prot flags fd offset s = .ok r s') : ¬ NoError r := by
  rw [sysMmap_eq, bind_of_ok hnew] at hrun
  cases hrun
  rcases (ends_of_ok hnew).mp (newPages_spec inv hlast hlen) with ⟨e', he, h₁, h₂⟩ |
    ⟨t, n, c, ha, -⟩
  · cases he
    exact not_noError h₁ h₂
  · cases ha

/-- The pages of a call that reaches the seek. -/
theorem newPages_adds {a : Nat} {s₁ : Sys σ}
    (hnew : newPages addr len prot flags s = .ok (.ok a) s₁) :
    ∃ t n c, a = 0x1000 * t ∧ alignup len = 0x1000 * n ∧ 0 < len ∧ len ≤ 0x1000 * n ∧
      Adds s s₁ blocks leaf ⟨t, n, prot ||| protRW, fun _ => 0⟩ c ∧
        s.room ≤ s₁.room + mapCost n := by
  rcases (ends_of_ok hnew).mp (newPages_spec inv hlast hlen) with ⟨e, he, -⟩ |
    ⟨t, n, c, ha, hrest⟩
  · cases he
  · cases ha
    exact ⟨t, n, c, rfl, hrest⟩

include hfile hfd

theorem newPages_seek {a : Nat} {s₁ s₂ : Sys σ} {ret : Int}
    (hnew : newPages addr len prot flags s = .ok (.ok a) s₁)
    (hseek : hpLseek host fd (offset % 2 ^ 32) seekSet s₁ = .ok ret s₂) :
    ret = seekResult errno (offset % 2 ^ 32) := by
  obtain ⟨t, n, c, -, -, -, -, hadds, -⟩ := newPages_adds inv hlast hlen hnew
  have hfd₁ : Opened s₁.fds fd rfd := ⟨hfd.1, hadds.table ▸ hfd.2⟩
  exact ((ends_of_ok hseek).mp (hpLseek_file hfile hadds.inv hfd₁ (Nat.mod_lt _ (by decide)))).1

/-- **A call that reaches the seek** and returns: the seek looks like a failure, or the
mapping holds the file's bytes from the low 32 bits of the offset on. -/
theorem sysMmap_seeks {a r : Nat} {s₁ : Sys σ}
    (hnew : newPages addr len prot flags s = .ok (.ok a) s₁)
    (hrun : sysMmap host addr len prot flags fd offset s = .ok r s') :
    (seekResult errno (offset % 2 ^ 32) < 0 ∧ r = ofInt (seekResult errno (offset % 2 ^ 32))) ∨
    (0 ≤ seekResult errno (offset % 2 ^ 32) ∧ NoError r ∧ ∀ i, i < len →
      UserByte s'.mem (r + i) (content.getD (offset % 2 ^ 32 + i) 0) (hasFlag prot protR)
        (hasFlag prot protW)) := by
  rw [sysMmap_eq, bind_of_ok hnew] at hrun
  obtain ⟨t, n, c, rfl, hn, hpos, hle, hadds, hroom⟩ := newPages_adds inv hlast hlen hnew
  have hfd₁ : Opened s₁.fds fd rfd := ⟨hfd.1, hadds.table ▸ hfd.2⟩
  unfold afterPages at hrun
  rw [hn] at hrun
  rcases (ends_of_ok hrun).mp (finishMmap_spec hfile hadds hroom hfd₁ hpos hle) with
    ⟨rfl, hneg, -⟩ | ⟨hseek, rfl, hdone, -⟩
  · exact .inl ⟨hneg, rfl⟩
  · have huser : t + n ≤ 2 ^ 36 := hdone.user.2.1
    refine .inr ⟨hseek, by unfold NoError; omega, fun i hi => ?_⟩
    have hbyte := hdone.region.userByte hdone.inv hdone.user (a := 0x1000 * t + i)
      (Nat.le_add_right _ _) (by show _ < 0x1000 * (t + n); omega)
    have hdata : fileData content (offset % 2 ^ 32) len i =
      content.getD (offset % 2 ^ 32 + i) 0 := if_pos hi
    rw [Nat.add_sub_cancel_left] at hbyte
    exact hdata ▸ hbyte

end

/-- A seek that fails ends the call. -/
theorem afterPages_of_seek (hfd : 0 ≤ fd) {a : Nat} {s₁ s₂ : Sys σ} {ret : Int}
    (hseek : hpLseek host fd (offset % 2 ^ 32) seekSet s₁ = .ok ret s₂) (hneg : ret < 0) :
    afterPages host fd len prot offset (.ok a) s₁ = .ok (ofInt ret) s₂ := by
  have hfill : fillPages host fd a len offset s₁ = .ok ret s₂ := by
    rw [fillPages, if_pos hfd, bind_of_ok hseek, if_pos hneg]
    rfl
  rw [afterPages, finishMmap, bind_of_ok hfill, if_pos hneg]
  rfl

/-- Without the seek the call does not return. -/
theorem seek_of_afterPages (hfd : 0 ≤ fd) {a r : Nat} {s₁ s₂ : Sys σ}
    (hrun : afterPages host fd len prot offset (.ok a) s₁ = .ok r s₂) :
    ∃ ret s', hpLseek host fd (offset % 2 ^ 32) seekSet s₁ = .ok ret s' := by
  cases hseek : hpLseek host fd (offset % 2 ^ 32) seekSet s₁ with
  | ok ret s' => exact ⟨ret, s', rfl⟩
  | error e s' =>
    have hfill : fillPages host fd a len offset s₁ = .error e s' := by
      rw [fillPages, if_pos hfd, bind_of_error hseek]
    rw [afterPages, finishMmap, bind_of_error hfill] at hrun
    cases hrun

/-- **A call that returns** has got its pages just when the checks and the unused area say
so. -/
theorem newPages_ok_iff (inv : KernelInv s.heap blocks leaf) (hlen : len < 2 ^ 64) {r : Nat}
    (hrun : sysMmap host addr len prot flags fd offset s = .ok r s') :
    (∃ a s₁, newPages addr len prot flags s = .ok (.ok a) s₁) ↔ GetsPages s addr len flags := by
  rw [sysMmap_eq] at hrun
  by_cases hgood : Rejected addr len flags
  · refine iff_of_false ?_ fun h => h.1 hgood
    rintro ⟨a, s₁, hnew⟩
    rw [newPages_rejected hgood] at hnew
    cases hnew
  rcases newPages_cases inv prot hlen hgood with
    ⟨-, herr⟩ | ⟨s₁, c, hok, -, hbacked, -⟩ | ⟨-, -, -, s₁, herr⟩ | ⟨-, hnone, s₁, hok, -⟩ |
      ⟨-, hnone, s₁, hok, -⟩ | ⟨e, s₁, herr, -⟩
  · rw [bind_of_error herr] at hrun
    cases hrun
  · exact iff_of_true ⟨_, s₁, hok⟩ ⟨hgood, hbacked⟩
  · rw [bind_of_error herr] at hrun
    cases hrun
  · refine iff_of_false ?_ fun h => h.2 hnone
    rintro ⟨a, s₂, hnew⟩
    rw [hok] at hnew
    cases hnew
  · refine iff_of_false ?_ fun h => h.2 hnone
    rintro ⟨a, s₂, hnew⟩
    rw [hok] at hnew
    cases hnew
  · rw [bind_of_error herr] at hrun
    cases hrun

/-- **The offset of `sys_mmap`** survives exactly where it is small: on the other calls that
reach the seek the offset is cut or the position is taken for an error number. -/
theorem sysMmap_offset_iff (host : Host σ) (s s' : Sys σ) (fd rfd errno : Int)
    (content : List UInt8) (pos : σ → Nat) (addr len prot flags offset r : Nat)
    (hfile : FileHost host rfd content errno pos) (inv : s.kernel.Inv)
    (hlast : s.kernel.LastAligned) (hfd : Opened s.fds fd rfd) (hlen : len < 2 ^ 64)
    (hrun : sysMmap host addr len prot flags fd offset s = .ok r s') :
    OffsetKept host rfd content addr len prot flags fd offset s ↔
      (GetsPages s addr len flags → OffsetOk errno offset) := by
  obtain ⟨blocks, leaf, inv⟩ := inv
  rw [← newPages_ok_iff inv hlen hrun]
  constructor
  · rintro hkept ⟨a, s₁, hnew⟩
    rw [offsetOk_iff hfile]
    rcases sysMmap_seeks hfile inv hlast hfd hlen hnew hrun with ⟨hneg, rfl⟩ | ⟨hseek, hr, -⟩
    · -- the host has moved the position, whatever the guest is told
      rw [sysMmap_eq, bind_of_ok hnew] at hrun
      obtain ⟨ret, s₂, hret⟩ := seek_of_afterPages hfd.1 hrun
      obtain rfl := newPages_seek hfile inv hlast hfd hlen hnew hret
      have hhost := hkept.sought a s₁ _ s₂ hnew hret hneg
      rw [hfile.lseek] at hhost
      exact absurd hhost (Int.not_lt.mpr (Int.natCast_nonneg _))
    · exact ⟨by_contra fun hbig => hkept.carried r s' hrun (by omega) hr, hseek⟩
  · intro hok
    -- a call that returns no error has reached the seek
    have hreach : ∀ r s', sysMmap host addr len prot flags fd offset s = .ok r s' → NoError r →
        ∃ a s₁, newPages addr len prot flags s = .ok (.ok a) s₁ := by
      intro r s' hrun hr
      cases hnew : newPages addr len prot flags s with
      | ok a s₁ =>
        cases a with
        | ok a => exact ⟨a, s₁, rfl⟩
        | error e => exact absurd hr (sysMmap_stopped inv hlast hlen hnew hrun)
      | error e s₁ =>
        rw [sysMmap_eq, bind_of_error hnew] at hrun
        cases hrun
    constructor
    · intro r s' hrun hr i hi
      obtain ⟨a, s₁, hnew⟩ := hreach r s' hrun hr
      obtain ⟨hlt, hseek⟩ := (offsetOk_iff hfile).mp (hok ⟨a, s₁, hnew⟩)
      rcases sysMmap_seeks hfile inv hlast hfd hlen hnew hrun with ⟨hneg, -⟩ | ⟨-, -, hbytes⟩
      · omega
      · rw [Nat.mod_eq_of_lt hlt] at hbytes
        exact hbytes i hi
    · intro r s' hrun hbig hr
      obtain ⟨a, s₁, hnew⟩ := hreach r s' hrun hr
      have := ((offsetOk_iff hfile).mp (hok ⟨a, s₁, hnew⟩)).1
      omega
    · intro a s₁ ret s₂ hnew hret hneg
      have hseek := ((offsetOk_iff hfile).mp (hok ⟨a, s₁, hnew⟩)).2
      rw [newPages_seek hfile inv hlast hfd hlen hnew hret] at hneg
      omega

/-! ## A kernel that has just booted -/

/-- A fresh kernel maps a page where user pages may be. -/
theorem doMmap_boot (w : σ) (v prot : Nat) (hv : v < 2 ^ 52) (hu : InUser (target v 1) 1) :
    ∃ k : Kernel, Booted k ∧ k.lastMmapped = minusOne ∧ (Sys.start k w).room = 0x200000 ∧
      ∃ s₁ c, doMmap (0x1000 * v) (0x1000 * 1) prot (Sys.start k w) =
        .ok (0x1000 * target v 1) s₁ ∧
        Adds (Sys.start k w) s₁ [] (fun _ => 0) ⟨target v 1, 1, prot, fun _ => 0⟩ c ∧
        (Sys.start k w).room ≤ s₁.room + mapCost 1 := by
  obtain ⟨k, hk, inv, hlast, harena, -⟩ := kernelBoot_spec (m := fun _ => 0) fun _ _ _ => rfl
  have hinv : KernelInv (Sys.start k w).heap [] fun _ => 0 := inv
  have hroom : (Sys.start k w).room = 0x200000 := by
    show k.heap.arena.topSize = _
    rw [harena]
  have hshort : ∀ {s'}, ¬ Short (mapCost 1) (Sys.start k w) s' := fun h => by
    have hcost : mapCost 1 = 0x8240 := rfl
    have := h.room
    omega
  refine ⟨k, ⟨_, fun _ _ _ => rfl, hk⟩, hlast, hroom, ?_⟩
  have hmap := doMmap_spec hinv (.inl hlast) hv (show 0 < 1 by decide) prot
  cases hdo : doMmap (0x1000 * v) (0x1000 * 1) prot (Sys.start k w) with
  | ok a s₁ =>
    rw [ends_of_ok hdo] at hmap
    rcases hmap with ⟨c, rfl, -, hadds, hroom₁, -⟩ | ⟨-, hbig, -⟩ | ⟨-, -, h⟩
    · exact ⟨s₁, c, rfl, hadds, hroom₁⟩
    · omega
    · exact absurd h hshort
  | error e s₁ =>
    rw [ends_of_error hdo] at hmap
    rcases hmap with h | ⟨-, h, -⟩
    · exact absurd h hshort
    · exact absurd hu h

/-- It maps a page of any file at any offset, and returns no error. -/
theorem sysMmap_boot (content : List UInt8) (offset : Nat) :
    ∃ k : Kernel, Booted k ∧ k.LastAligned ∧
      ∃ s' c, sysMmap (fileHost 0 content) 0 0x1000 protR 0 0 offset (Sys.start k 0) =
          .ok (0x1000 * 0x7ffff7ffe) s' ∧
        Adds (Sys.start k 0) s' [] (fun _ => 0) ⟨0x7ffff7ffe, 1, protR,
          fileData content (offset % 2 ^ 32) 0x1000⟩ c ∧
        (Sys.start k 0).room = 0x200000 := by
  obtain ⟨k, hk, hlast, hroom, s₁, c, hdo, hadds, hroom₁⟩ := doMmap_boot (0 : Nat) 0
    (protR ||| protRW) (by decide) (show InUser 0x7ffff7ffe 1 by unfold InUser; omega)
  refine ⟨k, hk, .inl hlast, ?_⟩
  have hnew : newPages 0 0x1000 protR 0 (Sys.start k 0) = .ok (.ok (0x1000 * 0x7ffff7ffe)) s₁ :=
    bind_of_ok hdo
  -- the seek, which cannot look like a failure while `errno` is clear
  have hfd₁ : Opened s₁.fds 0 0 := ⟨Int.le_refl 0, hadds.table ▸ rfl⟩
  have hseek : 0 ≤ seekResult 0 (offset % 2 ^ 32) := by
    unfold seekResult
    split <;> omega
  have hrest : Ends (finishMmap
    (fileHost 0 content) 0 (0x1000 * 0x7ffff7ffe) 0x1000 (0x1000 * 1) protR offset) s₁ _ _ :=
    finishMmap_spec (fileHost_file 0 content) hadds hroom₁ hfd₁ (by decide) (by decide)
  cases hdo : finishMmap (fileHost 0 content) 0 (0x1000 * 0x7ffff7ffe) 0x1000
    (0x1000 * 1) protR offset s₁ with
  | ok r s' =>
    rw [ends_of_ok hdo] at hrest
    have hrun : sysMmap (fileHost 0 content) 0 0x1000 protR 0 0 offset (Sys.start k 0) =
        .ok r s' := by
      rw [sysMmap_eq, bind_of_ok hnew]
      exact hdo
    rcases hrest with ⟨-, hneg, -⟩ | ⟨-, rfl, hdone, -⟩
    · omega
    · exact ⟨s', c, hrun, hdone, hroom⟩
  | error e s' =>
    rw [ends_of_error hdo] at hrest
    have hcost : areaCost 1 = 0xa3b0 := rfl
    have := hrest.room
    omega

/-- The first page of a file arrives. -/
theorem sysMmap_offset_zero :
    ∃ (k : Kernel) (s' : Sys Nat), Booted k ∧ k.LastAligned ∧
      sysMmap (fileHost 0 helloElf) 0 0x1000 protR 0 0 0 (Sys.start k 0) =
        .ok (0x1000 * 0x7ffff7ffe) s' ∧
      OffsetKept (fileHost 0 helloElf) 0 helloElf 0 0x1000 protR 0 0 0 (Sys.start k 0) := by
  obtain ⟨k, hk, hlast, s', c, hrun, -⟩ := sysMmap_boot helloElf 0
  exact ⟨k, s', hk, hlast, hrun,
    (sysMmap_offset_iff _ _ s' 0 0 0 helloElf id 0 0x1000 protR 0 0 _ (fileHost_file 0 helloElf)
    (booted_inv hk) hlast ⟨Int.le_refl 0, rfl⟩ (by decide) hrun).mpr fun _ => .inl (by decide)⟩

/-- At offset `2^32` the first page arrives as well, and no error is reported. -/
theorem sysMmap_offset_cut :
    ∃ k : Kernel, Booted k ∧
      ¬ OffsetKept (fileHost 0 helloElf) 0 helloElf 0 0x1000 protR 0 0 (2 ^ 32)
        (Sys.start k 0) := by
  obtain ⟨k, hk, -, s', c, hrun, -⟩ := sysMmap_boot helloElf (2 ^ 32)
  exact ⟨k, hk, fun hkept => hkept.carried _ s' hrun (Nat.le_refl _) (by unfold NoError; omega)⟩

end BpfExamples.Kvm
