import BpfExamples.Kvm.AnyHost
import BpfExamples.Kvm.Program

/-!
# What a failed `sys_execve` leaves behind (`kernel/syscalls/sys_execve.c`)

`sys_execve` returns on errors only. Where `sys_open` has failed, nothing was taken. Behind it,
every way out leaves something: an error of `load_binary` comes back without `sys_close`, and
the loader's buffer is never freed, so it is still there when the arguments turn out to be bad
(`sysExecve_releases_iff`).
-/

namespace BpfExamples.Kvm

open Mem

variable {σ : Type} {s s₁ s' : Sys σ} {tabs blocks : List Extent} {leaf : Nat → Nat}
  {host : Host σ} {fd : Int} {path len : Nat} {c t : Extent}

/-! ## The descriptor table -/

/-- The guest's descriptors are as before. -/
def SameTable (s s' : Sys σ) : Prop := s'.fds.table = s.fds.table

theorem SameTable.trans (s₁ s₂ s₃ : Sys σ) (h₁ : SameTable s₁ s₂) (h₂ : SameTable s₂ s₃) :
    SameTable s₁ s₃ :=
  Eq.trans h₂ h₁

theorem tableFrame : Frame (SameTable (σ := σ)) :=
  ⟨fun h => by rw [SameTable, h.fds], SameTable.trans⟩

/-- The request leaves the table alone, whatever the host replies. -/
def Action.Keeps (t : FdMap) : Action → Prop
  | .answer t' _ => t'.table = t.table
  | .host _ after => ∀ r, (after r).1.table = t.table

theorem processOnFd_keeps {t : FdMap} {fd : Int} {work : Int → Except Halt HostCall}
    {a : Action} (h : processOnFd t fd work id = .ok a) : a.Keeps t := by
  rcases processOnFd_ok h with ⟨-, rfl⟩ | ⟨-, call, -, rfl⟩
  · exact table_mayInitFdMap t
  · exact fun r => table_mayInitFdMap t

theorem hpHandleRead_keeps {t : FdMap} {g : Guest} {data : Nat} {a : Action}
    (h : hpHandleRead t g data = .ok a) : a.Keeps t := by
  unfold hpHandleRead handleRw at h
  obtain ⟨-, -, h⟩ := bind_eq_ok.mp h
  obtain ⟨w₀, -, h⟩ := bind_eq_ok.mp h
  obtain ⟨w₁, -, h⟩ := bind_eq_ok.mp h
  obtain ⟨w₂, -, h⟩ := bind_eq_ok.mp h
  dsimp only at h
  split at h
  · obtain rfl := Except.ok.inj h
    rfl
  · exact processOnFd_keeps h

theorem hpHandleLseek_keeps {t : FdMap} {g : Guest} {data : Nat} {a : Action}
    (h : hpHandleLseek t g data = .ok a) : a.Keeps t := by
  unfold hpHandleLseek at h
  obtain ⟨-, -, h⟩ := bind_eq_ok.mp h
  obtain ⟨w₀, -, h⟩ := bind_eq_ok.mp h
  obtain ⟨w₁, -, h⟩ := bind_eq_ok.mp h
  obtain ⟨w₂, -, h⟩ := bind_eq_ok.mp h
  exact processOnFd_keeps h

theorem receive_fds (call : HostCall) (r : HostReply) : (s.receive call r).fds = s.fds := by
  cases call <;> rfl

/-- **What a hypercall returns, and its table**: `Q` holds of both if it does for what the
handler answers, and for what it makes of the host's reply. -/
theorem hypercall_answers (host : Host σ) (nr : HpNr) (data : Nat) {Q : Int → FdMap → Prop}
    (hanswer : ∀ t ret, hpHandler nr s.fds s.guest (data % 2 ^ 32) = .ok (.answer t ret) →
      Q ret t)
    (hhost : ∀ call after, hpHandler nr s.fds s.guest (data % 2 ^ 32) = .ok (.host call after) →
      Q (after (host s.world call).2).2 (after (host s.world call).2).1)
    {E : Stop → Sys σ → Prop}
    (herror : ∀ e s', (s'.fds = s.fds ∨ ∃ ret, Q ret s'.fds) → E e s') :
    Ends (hypercall host nr data) s (fun ret s' => Q ret s'.fds) E := by
  cases hh : hpHandler nr s.fds s.guest (data % 2 ^ 32) with
  | error e =>
    have heq : hypercall host nr data s = .error .hypervisor s := by simp only [hypercall, hh]
    exact (ends_of_error heq).mpr (herror _ _ (.inl rfl))
  | ok a =>
    cases a with
    | answer t ret =>
      have heq : hypercall host nr data s = readPort ret { s with fds := t } := by
        simp only [hypercall, hh]
      rw [ends_congr heq]
      refine (readPort_spec ret _).mono ?_ ?_
      · rintro v s' ⟨rfl, rfl⟩
        exact hanswer t v hh
      · rintro e s' ⟨-, rfl⟩
        exact herror _ _ (.inr ⟨ret, hanswer t ret hh⟩)
    | host call after =>
      have heq : hypercall host nr data s =
          readPort (after (host s.world call).2).2
            ({ s with
                fds := (after (host s.world call).2).1
                world := (host s.world call).1 }.receive call (host s.world call).2) := by
        simp only [hypercall, hh]
      rw [ends_congr heq]
      refine (readPort_spec _ _).mono ?_ ?_
      · rintro v s' ⟨rfl, rfl⟩
        rw [receive_fds]
        exact hhost call after hh
      · rintro e s' ⟨-, rfl⟩
        refine herror _ _ (.inr ⟨(after (host s.world call).2).2, ?_⟩)
        rw [receive_fds]
        exact hhost call after hh

theorem hypercall_keeps (host : Host σ) (nr : HpNr) (data : Nat)
    (hkeeps : ∀ {t g d a}, hpHandler nr t g d = .ok a → a.Keeps t) :
    Grows SameTable (hypercall host nr data) := by
  intro s
  refine hypercall_answers host nr data (Q := fun _ t => t.table = s.fds.table)
    (fun t ret h => hkeeps h) (fun call after h => hkeeps h _) ?_
  rintro e s' (h | ⟨-, h⟩)
  · exact congrArg FdMap.table h
  · exact h

theorem hpRead_keeps (host : Host σ) (fd : Int) (paddr nbyte : Nat) :
    Grows SameTable (hpRead host fd paddr nbyte) :=
  tableFrame.hpRw (fun pa => hypercall_keeps host .read pa fun h =>
    hpHandleRead_keeps h) fd paddr nbyte

theorem hpLseek_keeps (host : Host σ) (fd : Int) (off : Nat) (whence : Int) :
    Grows SameTable (hpLseek host fd off whence) :=
  tableFrame.request (fun pa => hypercall_keeps host .lseek pa fun h =>
    hpHandleLseek_keeps h) 12 4 4 4 _ _ _ 4 8

theorem inside_doMmap (addr len prot : Nat) :
    Grows Inside (doMmap addr len prot : KernelM σ Nat) := by
  intro s
  cases h : mmap s.kernel addr len prot with
  | ok r =>
    exact (ends_of_ok (doMmap_of_ok h)).mpr ⟨⟨fun hr => by simp [hr], fun _ => .inr⟩, rfl, rfl⟩
  | error e =>
    exact (ends_of_error (doMmap_of_error h)).mpr ⟨⟨fun hr => by simp [hr], fun _ => id⟩, rfl,
      rfl⟩

theorem inside_doMprotect (addr len prot : Nat) :
    Grows Inside (doMprotect addr len prot : KernelM σ Int) :=
  fun _ => (ends_of_ok (x := doMprotect addr len prot) rfl).mpr ⟨⟨id, fun _ => .inr⟩, rfl, rfl⟩

theorem inside_of_still {α : Type} {x : KernelM σ α} (hx : Grows Still x) : Grows Inside x := by
  intro s
  refine (hx s).mono ?_ ?_
  all_goals
    rintro _ s' rfl
    exact Inside.refl _

/-- **`sys_mmap`** opens and closes nothing. -/
theorem sysMmap_keeps (host : Host σ) (addr len prot flags : Nat) (fd : Int) (offset : Nat) :
    Grows SameTable (sysMmap host addr len prot flags fd offset) := by
  have hfill : ∀ a, Grows SameTable (fillPages host fd a len offset) := by
    intro a
    refine Grows.ite (tableFrame.bind (hpLseek_keeps host fd _ _) fun ret => ?_)
      (tableFrame.pure _)
    refine Grows.ite (tableFrame.pure _)
      (tableFrame.bind (tableFrame.of (inside_of_still (still_onMem _))) fun pa => ?_)
    exact tableFrame.bind (hpRead_keeps host fd pa len) fun _ => tableFrame.pure _
  refine Grows.ite (tableFrame.pure _)
    (Grows.ite (tableFrame.pure _) (Grows.ite (tableFrame.pure _) ?_))
  refine tableFrame.bind (tableFrame.of (inside_doMmap _ _ _)) fun a =>
    Grows.ite (tableFrame.pure _) ?_
  refine tableFrame.bind (hfill a) fun ret => Grows.ite (tableFrame.pure _) ?_
  exact tableFrame.bind (tableFrame.of (inside_doMprotect _ _ _)) fun _ => tableFrame.pure _

theorem loadSegment_keeps (host : Host σ) (fd : Int) (load : Nat) (ph : Phdr) :
    Grows SameTable (loadSegment host fd load ph) := by
  refine tableFrame.bind (sysMmap_keeps host _ _ _ _ fd _) fun r =>
    Grows.ite (tableFrame.pure _) ?_
  refine Grows.ite (tableFrame.bind (tableFrame.of (inside_doMmap _ _ _)) fun r => ?_)
    (tableFrame.pure _)
  exact Grows.ite (tableFrame.pure _) (tableFrame.pure _)

theorem loadSegments_keeps (host : Host σ) (fd : Int) (load buf k : Nat) :
    ∀ (i : Nat) (s : Sys σ), Ends (loadSegments host fd load buf k i) s
      (fun _ s' => SameTable s s') fun _ _ => True := by
  induction k with
  | zero => exact fun i s => ends_pure.mpr rfl
  | succ k ih =>
    intro i s
    refine (field_any buf _ 4).bind fun type s₁ h₁ => ?_
    obtain rfl := h₁.1
    refine Ends.ite (fun _ => ?_) fun _ => ih (i + 1) _
    refine (readPhdr_any buf _).bind fun ph s₂ h₂ => ?_
    obtain rfl := h₂.1
    refine Ends.bind ((loadSegment_keeps host fd load ph _).mono (fun _ _ h => h) fun _ _ _ =>
      trivial) fun ret s₃ h₃ => ?_
    cases ret with
    | some ret => exact ends_pure.mpr h₃
    | none =>
      exact (ih (i + 1) s₃).mono (fun _ _ h => SameTable.trans _ _ _ h₃ h) fun _ _ h => h

/-- **`load_binary`** does not close the descriptor it was given. -/
theorem loadBinary_keeps (host : Host σ) (fd : Int) (p : Process) (s : Sys σ) :
    Ends (loadBinary host fd p) s (fun _ s' => SameTable s s') fun _ _ => True := by
  have hstart : ∀ {α : Type} {x : KernelM σ α}, Grows SameTable x → ∀ s₁, SameTable s s₁ →
      Ends x s₁ (fun _ s' => SameTable s s') fun _ _ => True := fun hx s₁ h₁ =>
    (hx s₁).mono (fun _ _ h => SameTable.trans _ _ _ h₁ h) fun _ _ _ => trivial
  refine (hstart (tableFrame.of (inside_doKmalloc _ _)) s rfl).bind fun buf s₁ h₁ => ?_
  refine (hstart (tableFrame.of (inside_ofExec _)) s₁ h₁).bind fun pa s₂ h₂ => ?_
  refine (hstart (hpRead_keeps host fd pa _) s₂ h₂).bind fun _ s₃ h₃ => ?_
  refine (checkHeader_any buf p).bind ?_
  rintro ⟨phnum, p'⟩ s₄ ⟨rfl, -⟩
  cases phnum with
  | error e => exact ends_pure.mpr h₃
  | ok phnum =>
    refine Ends.bind ((loadSegments_keeps host fd _ buf phnum 0 s₄).mono (fun _ _ h =>
      SameTable.trans _ _ _ h₃ h) fun _ _ h => h) fun ret s₅ h₅ => ?_
    cases ret with
    | some ret => exact ends_pure.mpr h₅
    | none =>
      refine (hstart (tableFrame.of (inside_doMmap _ _ _)) s₅ h₅).bind fun r s₆ h₆ => ?_
      exact Ends.ite (fun _ => ends_pure.mpr h₆) fun _ => ends_pure.mpr h₆

/-- How a call that may open a file ends: with an error and the table as before, or with a
number that was free and no longer is. -/
def OpenEnds (s : Sys σ) (fd : Int) (t : FdMap) : Prop :=
  fd < 0 ∧ t.table = s.fds.table ∨ 0 ≤ fd ∧ s.fds.table fd.toNat = none ∧
    t.table fd.toNat ≠ none

theorem hypercall_openFile (hhost : HostErrnos host) (data : Nat) (s : Sys σ) :
    Ends (hypercall host .openFile data) s (fun fd s' => OpenEnds s fd s'.fds)
      fun _ _ => True := by
  refine hypercall_answers host .openFile data ?_ ?_ fun _ _ _ => trivial
  · intro t ret h
    cases hpHandler_effect h with
    | refused same neg => exact .inl ⟨neg, same⟩
  · intro call after h
    cases hpHandler_effect h with
    | @opens name _ _ isOpen le free least fails works =>
      by_cases hr : (host s.world (.openFile name)).2.ret < 0
      · obtain ⟨htable, hret⟩ := fails _ hr
        have hpos := hhost.set _ _ hr
        exact .inl ⟨by omega, htable⟩
      · obtain ⟨htable, hret⟩ := works _ (Int.not_lt.mp hr)
        refine .inr ⟨by omega, ?_, ?_⟩
        · rw [hret]
          exact free
        · rw [hret, htable, Int.toNat_natCast, Function.update_self]
          nofun
    | closes about => cases about
    | uses on notClose about => cases about

/-- **`sys_open`**, and the descriptor table. -/
theorem sysOpen_table (hhost : HostErrnos host) (path : Nat) (s : Sys σ) :
    Ends (sysOpen host path) s (fun fd s' => OpenEnds s fd s'.fds) fun _ _ => True := by
  refine Ends.bind ((still_accessStringOkFrom _ path s).mono (fun _ _ h => h) fun _ _ _ =>
    trivial) fun ok s₁ h₁ => ?_
  obtain rfl : s₁ = s := h₁
  refine Ends.ite (fun _ => ends_pure.mpr (.inl ⟨by decide, rfl⟩)) fun _ => ?_
  have hcopy : Grows Inside (copyStrFromUser path : KernelM σ Nat) := by
    refine Grows.bind Inside.trans (inside_of_still (still_strnlenFrom _ _ _)) fun l => ?_
    refine Grows.bind Inside.trans (inside_doKmalloc _ _) fun dst =>
      Grows.ite (Grows.pure Inside.refl _) ?_
    exact Grows.bind Inside.trans (inside_memcpyFrom _ _ _ _) fun _ => Grows.pure Inside.refl _
  refine Ends.bind ((hcopy s₁).mono (fun _ _ h => h) fun _ _ _ => trivial) fun dst s₂ h₂ => ?_
  refine Ends.ite (fun _ => ends_pure.mpr (.inl ⟨by decide, by rw [h₂.fds]⟩)) fun _ => ?_
  refine Ends.bind ((inside_ofExec (physical dst) s₂).mono (fun _ _ h => h) fun _ _ _ =>
    trivial) fun pa s₃ h₃ => ?_
  refine (hypercall_openFile hhost pa s₃).bind fun fd s₄ h₄ => ?_
  refine Ends.bind ((inside_doKfree dst s₄).mono (fun _ _ h => h) fun _ _ _ => trivial)
    fun _ s₅ h₅ => ends_pure.mpr ?_
  unfold OpenEnds at h₄ ⊢
  rwa [h₅.fds, ← h₂.fds, ← h₃.fds]

/-! ## The kernel's chunks -/

/-- The walk for the address `v` passes the table `c`. -/
def PassesTable (m : Mem) (v c : Nat) : Prop :=
  ∃ pdp, translateStep m false false (slot pml4Addr v 39) = some pdp ∧ (c = pdp ∨
    ∃ pd, translateStep m false false (slot pdp v 30) = some pd ∧ (c = pd ∨ translateStep m
    false false (slot pd v 21) = some c ∧ hasFlag (load64 m (slot pd v 21)) pde64PS = false))

/-- The chunk holds a page table of the user's addresses. -/
def IsTable (s : Sys σ) (c : Extent) : Prop :=
  ∃ v, userMemRangeOk v = true ∧ PassesTable s.mem v (c.addr + 16)

/-- A page of the user leads into the chunk. -/
def ShownTo (s : Sys σ) (c : Extent) : Prop :=
  ∃ v p, userMemRangeOk v = true ∧ translateWalk s.mem v false false = some p ∧
    c.Has (0x8000000000 + p)

/-- A live chunk that is the kernel's alone. -/
def KernelChunk (s : Sys σ) (c : Extent) : Prop :=
  c ∈ liveChunks s.heap ∧ ¬ IsTable s c ∧ ¬ ShownTo s c

/-- What was taken between `s` and `s'` was given back. -/
structure Released (s s' : Sys σ) : Prop where
  table : SameTable s s'
  chunks : ∀ c, KernelChunk s' c ↔ KernelChunk s c

/-- **The tables of a walk** are those of the tree. -/
theorem TreeInv.passesTable_iff {m : Mem} {T : Tables} (inv : TreeInv m T) {v c : Nat}
    (hv : Outside v) :
    PassesTable m v c ↔ T 3 (v / 2 ^ 39) = some c ∨ T 2 (v / 2 ^ 30) = some c ∨
      T 1 (v / 2 ^ 21) = some c := by
  obtain ⟨hk₃, hk₂, hk₁⟩ := hv.not_kernelSlot
  have hroot : T (3 + 1) (v / 2 ^ 39 / 512) = some 0x80001f7000 := by
    have h48 : v / 2 ^ 39 / 512 = 0 := by
      have := hv.2.1
      omega
    rw [h48]
    exact inv.root
  have horphan₂ : T 3 (v / 2 ^ 39) = none → T 2 (v / 2 ^ 30) = none := fun h =>
    inv.orphan (by decide) (by rw [prefix_up]; exact h)
  have horphan₁ : T 2 (v / 2 ^ 30) = none → T 1 (v / 2 ^ 21) = none := fun h =>
    inv.orphan (by decide) (by rw [prefix_up]; exact h)
  unfold PassesTable
  simp only [slot_eq, pml4Addr_eq]
  rw [inv.translateStep_child (by decide) hroot hk₃]
  cases h₃ : T 3 (v / 2 ^ 39) with
  | none =>
    rw [horphan₂ h₃, horphan₁ (horphan₂ h₃)]
    refine iff_of_false ?_ ?_
    · rintro ⟨pdp, h, -⟩
      cases h
    · rintro (h | h | h) <;> cases h
  | some pdp =>
    have hpdp : T (2 + 1) (v / 2 ^ 30 / 512) = some pdp := by
      rw [prefix_up]
      exact h₃
    simp only [Option.some.injEq, exists_eq_left', inv.translateStep_child (by decide) hpdp hk₂]
    cases h₂ : T 2 (v / 2 ^ 30) with
    | none =>
      rw [horphan₁ h₂]
      constructor
      · rintro (rfl | ⟨pd, h, -⟩)
        · exact .inl rfl
        · cases h
      · rintro (rfl | h | h)
        · exact .inl rfl
        · cases h
        · cases h
    | some pd =>
      have hpd : T (1 + 1) (v / 2 ^ 21 / 512) = some pd := by
        rw [prefix_up]
        exact h₂
      simp only [Option.some.injEq, exists_eq_left',
        inv.translateStep_child (by decide) hpd hk₁]
      refine or_congr eq_comm (or_congr eq_comm (and_iff_left_of_imp fun h₁ => ?_))
      exact inv.pointer_not_large (by decide) hpd h₁ hk₁

/-- A chunk that holds a table is one of those that are kept for tables. -/
theorem KernelRep.mem_of_isTable (rep : KernelRep s.heap tabs blocks leaf)
    (hc : c ∈ liveChunks s.heap) (h : IsTable s c) : c ∈ tabs := by
  obtain ⟨v, hv, hpass⟩ := h
  have hout := outside_of_userMemRangeOk hv
  have hlive := (rep.mem_liveChunks c).mp hc
  have hnd := rep.nodup_addr
  obtain ⟨bin, T, inv, -⟩ := rep
  have hlow : 0x8000200000 ≤ c.addr := (inv.heap.bounds (List.mem_append_right bin hlive)).1
  obtain ⟨l, q, hT⟩ : ∃ l q, T l q = some (c.addr + 16) := by
    rcases (inv.tree.passesTable_iff hout).mp hpass with h | h | h <;> exact ⟨_, _, h⟩
  rcases inv.owned hT with hstatic | ⟨e, he, haddr, -⟩
  · omega
  · -- chunks with one address are one chunk
    have heq : c = e := List.inj_on_of_nodup_map hnd hlive (List.mem_append_left _ he)
      (by omega)
    exact heq ▸ he

/-- Who is shown the chunk can be read off the leaves. -/
theorem KernelInv.shownTo_iff (inv : KernelInv s.heap blocks leaf) :
    ShownTo s c ↔ ¬ Hidden leaf c := by
  unfold ShownTo Hidden
  push Not
  constructor
  · rintro ⟨v, p, hv, hp, hc⟩
    have hout := outside_of_userMemRangeOk hv
    exact ⟨v, hout, p, (inv.walk_user hout false false).symm.trans hp, hc⟩
  · rintro ⟨v, hout, p, hp, hc⟩
    exact ⟨v, p, userMemRangeOk_iff.mpr hout, (inv.walk_user hout false false).trans hp, hc⟩

/-! ## The kernel at `sys_execve` -/

/-- The kernel as `switch_user` calls `sys_execve`: all that is live is the block of the
arguments, whose page the user has, and the table `t` behind it. -/
structure AtExecve (s : Sys σ) (len : Nat) (t : Extent) : Prop where
  rep : KernelRep s.heap [t] [argumentBlock len] argumentLeaf
  above : (argumentBlock len).fin ≤ t.addr
  near : t.addr < (argumentBlock len).fin + 0x1000
  last : LastOk s

/-- The table of the arguments' page is in `t`. -/
theorem KernelRep.argument_table (rep : KernelRep s.heap [t] blocks argumentLeaf) :
    IsTable s t ∧ (t.addr + 16) % 0x1000 = 0 ∧ 0x1010 ≤ t.size := by
  obtain ⟨bin, T, inv, hleaf⟩ := rep
  have hword : leafOf s.heap.mem T 0x201 = leafWord 0x201000 protRW := congrFun hleaf 0x201
  cases hT : T 1 (0x201 / 512) with
  | none =>
    rw [leafOf_none hT] at hword
    exact absurd hword (by decide)
  | some c =>
    obtain ⟨hmod, hlow, -⟩ := inv.tree.page hT
    rcases inv.owned hT with hstatic | ⟨e, he, rfl, hsize⟩
    · -- the static tables are those of the other levels
      have hcases : c = 0x80001f7000 ∨ c = 0x80001f8000 ∨ c = 0x80001f9000 := by omega
      rcases hcases with rfl | rfl | rfl
      · exact absurd (inv.tree.inj hT inv.tree.root).1 (by decide)
      · exact absurd (inv.tree.inj hT (inv.tree.pdp rfl)).1 (by decide)
      · exact absurd (inv.tree.inj hT (inv.tree.pd rfl)).1 (by decide)
    · obtain rfl := List.mem_singleton.mp he
      have hout : Outside 0x201000 := ⟨by decide, by decide, by decide⟩
      exact ⟨⟨0x201000, rfl, (inv.tree.passesTable_iff hout).mpr (.inr (.inr hT))⟩, hmod, hsize⟩

/-- So the heap as it was has the kernel's chunks it had. -/
theorem KernelRep.kernelChunk_same (rep : KernelRep s.heap [t] blocks argumentLeaf)
    (rep' : KernelRep s'.heap [t] blocks argumentLeaf) (c : Extent) :
    KernelChunk s' c ↔ KernelChunk s c := by
  have hlive : c ∈ liveChunks s'.heap ↔ c ∈ liveChunks s.heap := by
    rw [rep'.mem_liveChunks, rep.mem_liveChunks]
  have htable : ∀ {s₁ : Sys σ}, KernelRep s₁.heap [t] blocks argumentLeaf →
    c ∈ liveChunks s₁.heap → (IsTable s₁ c ↔ c = t) := fun rep₁ hc =>
    ⟨fun h => List.mem_singleton.mp (rep₁.mem_of_isTable hc h),
      fun h => h ▸ rep₁.argument_table.1⟩
  unfold KernelChunk
  rw [rep.inv.shownTo_iff, rep'.inv.shownTo_iff, hlive]
  refine and_congr_right fun hc => and_congr_left' ?_
  rw [htable rep hc, htable rep' (hlive.mpr hc)]

/-- The loader's buffer is too large for the memory around the arguments, so the user does not
see it. -/
theorem AtExecve.hidden (h : AtExecve s len t) {b : Extent} (hsize : 0x1010 ≤ b.size)
    (rep : KernelRep s₁.heap [t] [b, argumentBlock len] argumentLeaf) :
    Hidden argumentLeaf b := by
  obtain ⟨-, hmod, htsize⟩ := rep.argument_table
  have habove := h.above
  have hnear := h.near
  have hb := rep.inv.bounds (e := b) List.mem_cons_self
  have hblock := rep.inv.bounds (e := argumentBlock len)
    (List.mem_cons_of_mem b List.mem_cons_self)
  have haddr : (argumentBlock len).addr = 0x8000200ff0 := rfl
  have hap : b.Apart (argumentBlock len) :=
    (List.pairwise_cons.mp rep.inv.apart).1 _ List.mem_cons_self
  have hapt : t.Apart b := by
    obtain ⟨bin, T, inv, -⟩ := rep
    exact (List.pairwise_cons.mp (List.pairwise_append.mp inv.heap.tiles.apart).2.1).1 b
      List.mem_cons_self
  intro a ha p hp hhas
  by_cases hpage : a / 0x1000 = 0x201
  · have hleaf : argumentLeaf 0x201 = leafWord 0x201000 protRW := rfl
    rw [hpage, hleaf, leafTranslate_argument hpage] at hp
    obtain rfl := Option.some.inj hp
    unfold Extent.Has at hhas
    unfold Extent.Apart at hap hapt
    unfold Extent.fin at *
    omega
  · have hleaf : argumentLeaf (a / 0x1000) = 0 := Function.update_of_ne hpage _ _
    rw [hleaf] at hp
    exact absurd hp (by simp [leafTranslate])

/-! ## The ways out of `sys_execve` -/

theorem AtExecve.userRead_page (h : AtExecve s len t) {v : Nat} {b : UInt8}
    (hv : userRead s.mem v = some b) : v / 0x1000 = 0x201 := by
  rw [show userRead s.mem v = _ from userRead_argument h.rep.inv v] at hv
  by_contra hne
  rw [if_neg hne] at hv
  cases hv

/-- A string that the user can read lies in the page of the arguments. -/
theorem AtExecve.string_page (h : AtExecve s len t) {k : Nat} (hk : IsString s.mem path k) :
    path / 0x1000 = 0x201 ∧ (path + k) / 0x1000 = 0x201 := by
  refine ⟨?_, h.userRead_page hk.2⟩
  rcases Nat.eq_zero_or_pos k with rfl | hpos
  · exact h.userRead_page hk.2
  · obtain ⟨b, hb, -⟩ := hk.1 0 hpos
    exact h.userRead_page hb

theorem AtExecve.sysOpen_fault (h : AtExecve s len t) (host : Host σ)
    (hpath : ¬ ∃ k, IsString s.mem path k) : sysOpen host path s = .ok (-eFAULT) s := by
  obtain ⟨ok, hcheck, hok⟩ := accessStringOk_iff.mpr fun d (hd : Reaches s.mem path d) => by
    obtain ⟨b, hb⟩ := hd.2
    have := h.userRead_page hb
    omega
  rw [sysOpen, bind_of_ok hcheck, if_pos (Bool.eq_false_of_not_eq_true (hok.not.mpr hpath))]
  rfl

/-- **A path that cannot be opened**: the heap is as before, because no string is longer than
the page of the arguments. -/
theorem AtExecve.sysOpen_neutral (h : AtExecve s len t) (host : Host σ) (path : Nat) :
    KeepsHeap (sysOpen host path) s [t] [argumentBlock len] argumentLeaf := by
  by_cases hpath : ∃ k, IsString s.mem path k
  swap
  · exact (ends_of_ok (h.sysOpen_fault host hpath)).mpr (.refl h.rep)
  · obtain ⟨k, hk⟩ := hpath
    obtain ⟨hstart, hend⟩ := h.string_page hk
    refine Kvm.sysOpen_neutral h.rep fun l hl => .inr (.inr ?_)
    rw [strlen, strnlen_string hk (by omega) (by omega)] at hl
    obtain rfl : k = l := (EStateM.Result.ok.inj hl).1
    have hcopy : copyLength k = k + 1 := by
      unfold copyLength ofInt toInt32
      rw [Int.bmod_def]
      split <;> omega
    omega

theorem checkCountFrom_any (fuel : Nat) :
    ∀ ary i, Ends (checkCountFrom fuel ary i) s (fun _ s' => s' = s) fun _ _ => True := by
  induction fuel with
  | zero => exact fun ary i => ends_throw.mpr trivial
  | succ fuel ih =>
    intro ary i
    refine (peekLE_any 8 ary).bind fun a s₁ h₁ => ?_
    obtain rfl := h₁.1
    refine Ends.ite (fun _ => ends_pure.mpr rfl) fun _ => ?_
    refine Ends.bind ((still_accessStringOkFrom _ a s₁).mono (fun _ _ h => h) fun _ _ _ =>
      trivial) fun ok s₂ h₂ => ?_
    obtain rfl : s₂ = s₁ := h₂
    refine Ends.ite (fun _ => ends_pure.mpr rfl) fun _ => ?_
    refine Ends.bind ((still_onMem _ s₂).mono (fun _ _ h => h) fun _ _ _ => trivial)
      fun ok s₃ h₃ => ?_
    obtain rfl : s₃ = s₂ := h₃
    exact Ends.ite (fun _ => ends_pure.mpr rfl) fun _ => ih _ _

theorem checkAndGetCount_any (ary : Nat) :
    Ends (checkAndGetCount ary) s (fun _ s' => s' = s) fun _ _ => True := by
  refine Ends.bind ((still_onMem _ s).mono (fun _ _ h => h) fun _ _ _ => trivial)
    fun ok s₁ h₁ => ?_
  obtain rfl : s₁ = s := h₁
  exact Ends.ite (fun _ => ends_pure.mpr rfl) fun _ => checkCountFrom_any _ ary 0

/-- `create_elf_info` returns an error before it does anything. -/
theorem createElfInfo_any (p : Process) (argv envp : Nat) :
    Ends (createElfInfo p argv envp) s (fun r s' => r.1 ≠ 0 → s' = s) fun _ _ => True := by
  refine (checkAndGetCount_any argv).bind fun argc s₁ h₁ => ?_
  obtain rfl := h₁
  refine Ends.ite (fun _ => ends_pure.mpr fun _ => rfl) fun _ => ?_
  refine (checkAndGetCount_any envp).bind fun envc s₂ h₂ => ?_
  obtain rfl := h₂
  refine Ends.ite (fun _ => ends_pure.mpr fun _ => rfl) fun _ => ?_
  exact (ends_true _ _).bind fun rsp s₃ _ => ends_pure.mpr fun hne => absurd rfl hne

/-- **Behind an open file nothing is given back**: an error of the loader leaves the descriptor
open, and bad arguments leave the loader's buffer. -/
theorem AtExecve.opened_leaks (h : AtExecve s len t) (hhost : HostErrnos host)
    (hopen : sysOpen host path s = .ok fd s₁) (hfd : 0 ≤ fd) (p : Process) (argv envp : Nat) :
    Ends (sysExecve host p path argv envp) s (fun r s' => ∀ ret, r = .failed ret →
      ¬ Released s s') fun _ _ => True := by
  have hneutral := (ends_of_ok hopen).mp (h.sysOpen_neutral host path)
  have hlast : LastOk s₁ := h.last.imp hneutral.last.trans hneutral.last.trans
  obtain ⟨-, hfree, htaken⟩ := ((ends_of_ok hopen).mp (sysOpen_table hhost path s)).resolve_left
    fun hneg => by omega
  rw [sysExecve, openAndLoad, bind_assoc, ends_bind_of_ok hopen, if_neg (Int.not_lt.mpr hfd),
    bind_assoc]
  refine ((loadBinary_any hhost fd hneutral.rep hlast p).and
    (loadBinary_keeps host fd p s₁)).mono (fun _ _ h => h) (fun _ _ _ => trivial) |>.bind ?_
  rintro ⟨ret, p'⟩ s₂ ⟨hload, hsame⟩
  by_cases hret : ret < 0
  · dsimp only
    rw [if_pos hret]
    refine ends_pure.mpr fun _ _ hrel => htaken ?_
    rw [← hsame, hrel.table]
    exact hfree
  · obtain ⟨s₀, b, rep₀, hsize, -, blocks', leaf', hspread⟩ := hload.resolve_left hret
    obtain ⟨tabs', rep₂⟩ := hspread.inv.rep
    dsimp only
    rw [if_neg hret, bind_assoc]
    refine Ends.bind (hypercall_neutral host (show HpNr.close ≠ .read by decide) _ rep₂)
      fun _ s₃ h₃ => ?_
    refine (createElfInfo_any p' argv envp).bind ?_
    rintro ⟨ret', p''⟩ s₄ h₄
    refine Ends.ite (fun hbad => ends_pure.mpr fun _ _ hrel => ?_) fun _ => ends_pure.mpr
      fun _ hr => by cases hr
    obtain rfl := h₄ hbad
    -- the buffer
    have hb : b ∈ blocks' := hspread.sub List.mem_cons_self
    have hlive : b ∈ liveChunks s₄.heap :=
      (h₃.rep.mem_liveChunks b).mpr (List.mem_append_right _ hb)
    have hnotable : ¬ IsTable s₄ b := fun htab =>
      List.disjoint_of_nodup_append (List.Nodup.of_map _ h₃.rep.nodup_addr)
        (h₃.rep.mem_of_isTable hlive htab) hb
    have hunseen : ¬ ShownTo s₄ b := fun hs =>
      (h₃.rep.inv.shownTo_iff.mp hs) (hspread.hidden b List.mem_cons_self (h.hidden hsize rep₀))
    have hold : b ∈ [t] ++ [argumentBlock len] :=
      (h.rep.mem_liveChunks b).mp ((hrel.chunks b).mp ⟨hlive, hnotable, hunseen⟩).1
    have hnd := List.Nodup.of_map _ rep₀.nodup_addr
    simp only [List.cons_append, List.nil_append, List.nodup_cons, List.mem_cons,
      List.not_mem_nil, or_false] at hnd hold
    rcases hold with rfl | rfl
    · exact hnd.1 (.inl rfl)
    · exact hnd.2.1 rfl

/-- **A failed `sys_execve` gives back what it took** just when it could not open the file. -/
theorem sysExecve_releases_iff (host : Host σ) (hhost : HostErrnos host) (s s' : Sys σ)
    (len : Nat) (t : Extent) (hs : AtExecve s len t) (p : Process) (path argv envp : Nat)
    (ret : Int) (hrun : sysExecve host p path argv envp s = .ok (.failed ret) s') :
    Released s s' ↔ ∃ fd s₁, sysOpen host path s = .ok fd s₁ ∧ fd < 0 := by
  cases hopen : sysOpen host path s with
  | error e s₁ =>
    rw [sysExecve, openAndLoad, bind_assoc, bind_of_error hopen] at hrun
    cases hrun
  | ok fd s₁ =>
    by_cases hfd : fd < 0
    · refine iff_of_true ?_ ⟨fd, s₁, rfl, hfd⟩
      rw [sysExecve, openAndLoad, bind_assoc, bind_of_ok hopen, if_pos hfd] at hrun
      obtain rfl : s₁ = s' := (EStateM.Result.ok.inj hrun).2
      obtain ⟨-, htable⟩ := ((ends_of_ok hopen).mp (sysOpen_table hhost path s)).resolve_right
        fun hpos => by omega
      exact ⟨htable,
        hs.rep.kernelChunk_same ((ends_of_ok hopen).mp (hs.sysOpen_neutral host path)).rep⟩
    · refine iff_of_false ((ends_of_ok hrun).mp
        (hs.opened_leaks hhost hopen (Int.not_lt.mp hfd) p argv envp) ret rfl) ?_
      rintro ⟨fd', s₂, heq, hneg⟩
      obtain ⟨rfl, rfl⟩ := EStateM.Result.ok.inj heq
      exact hfd hneg

/-- The start of a program gets to such a state. -/
theorem launch_atExecve (host : Host σ) (p : Process) (w : σ) {m : Mem} (hz : TablesClear m)
    {args : List (List UInt8)} (hargs : CommandLine args) :
    ∃ s t, launch host p m w args =
        sysExecve host p (0x201000 + stringAt args 0) 0x201000 (0x201000 + args.length * 8) s ∧
          Prepared w args s t ∧
      AtExecve s (blockLen args) t := by
  obtain ⟨s, t, hrun, hprep, hnear⟩ := launch_prepared host p w hz hargs
  exact ⟨s, t, hrun, hprep, hprep.rep, hprep.above, hnear, .inl hprep.last⟩

/-- A host without files. -/
def noFiles : Host Unit := fun w call =>
  match call with
  | .openFile _ => (w, ⟨-1, 2, []⟩)
  | _ => (w, ⟨-1, eBADF, []⟩)

theorem noFiles_errnos : HostErrnos noFiles := by
  have hall : ∀ w call, 0 < (noFiles w call).2.errno ∧ (noFiles w call).2.errno < 2 ^ 31 := by
    have hbad : 0 < eBADF ∧ eBADF < 2 ^ 31 := by decide
    intro w call
    unfold noFiles
    split
    · exact (by decide : (0 : Int) < 2 ∧ (2 : Int) < 2 ^ 31)
    · exact hbad
  exact ⟨fun w call _ => (hall w call).1, fun w call => (hall w call).2⟩

/-- A program that does not exist: its name is copied, the host is asked, and the copy is given
back. -/
theorem sysExecve_releases_missing :
    ∃ (s s' : Sys Unit) (t : Extent), AtExecve s (blockLen [[97]]) t ∧
      launch noFiles ⟨0, 0, 0, 0, 0⟩ (fun _ => 0) () [[97]] =
        sysExecve noFiles ⟨0, 0, 0, 0, 0⟩ (0x201000 + stringAt [[97]] 0) 0x201000 0x201008 s ∧
      sysExecve noFiles ⟨0, 0, 0, 0, 0⟩ (0x201000 + stringAt [[97]] 0) 0x201000 0x201008 s =
        .ok (.failed (-2)) s' ∧
      Released s s' := by
  obtain ⟨s, t, hlaunch, hprep, hs⟩ := launch_atExecve noFiles ⟨0, 0, 0, 0, 0⟩ ()
    (m := fun _ => 0) (fun _ _ _ => rfl) commandLine_a
  obtain ⟨s', hopen, -⟩ := sysOpen_asks noFiles hprep commandLine_a rfl (by decide)
    (show (-2 : Int) ≠ unusedVar by decide)
  have hrun : sysExecve noFiles ⟨0, 0, 0, 0, 0⟩
      (0x201000 + stringAt [[97]] 0) 0x201000 0x201008 s = .ok (.failed (-2)) s' := by
    rw [sysExecve, openAndLoad, bind_assoc, bind_of_ok hopen, if_pos (by decide)]
    rfl
  exact ⟨s, s', t, hs, hlaunch, hrun, (sysExecve_releases_iff noFiles noFiles_errnos s s' _ t hs
    _ _ _ _ _ hrun).mpr ⟨_, s', hopen, by decide⟩⟩

/-- **An empty file**: the loader turns it down, and the descriptor stays open. -/
theorem sysExecve_keeps_descriptor :
    ∃ (s s' : Sys Nat) (t : Extent), AtExecve s (blockLen [[97]]) t ∧
      launch (fileHost 0 []) ⟨0, 0, 0, 0, 0⟩ (fun _ => 0) 0 [[97]] =
        sysExecve (fileHost 0 []) ⟨0, 0, 0, 0, 0⟩
          (0x201000 + stringAt [[97]] 0) 0x201000 0x201008 s ∧
      sysExecve (fileHost 0 []) ⟨0, 0, 0, 0, 0⟩
        (0x201000 + stringAt [[97]] 0) 0x201000 0x201008 s =
        .ok (.failed (-eNOEXEC)) s' ∧
      s.fds.table 3 = none ∧ s'.fds.table 3 = some 0 ∧ ¬ Released s s' := by
  obtain ⟨s, t, hlaunch, hprep, hs⟩ := launch_atExecve (fileHost 0 []) ⟨0, 0, 0, 0, 0⟩ 0 (m :=
    fun _ => 0) (fun _ _ _ => rfl) commandLine_a
  obtain ⟨s₁, hopen, h₁⟩ := sysOpen_program hprep commandLine_a rfl (by decide)
    (show (fileHost 0 [] 0 (.openFile [97])).2.ret = 0 from rfl) (Int.le_refl 0)
  have hroom : elfCost [] ≤ s₁.room := by
    have hneutral := (ends_of_ok hopen).mp (hs.sysOpen_neutral (fileHost 0 []) _)
    have hcost : elfCost [] ≤ 0x1e0000 := by decide +kernel
    have hbefore := hprep.room
    have hkept := hneutral.room_le hs.rep
    omega
  have hshort : ∀ {s'}, ¬ Short (elfCost []) s₁ s' :=
    fun h => absurd h.room (Nat.not_lt.mpr hroom)
  have hverdict : elfVerdict 0 [] = .rejects (-eNOEXEC) := by decide +kernel
  have hspec := loadBinary_spec (fileHost_file 0 []) h₁.rep.inv (.inl h₁.last) h₁.opened
    (by rw [h₁.world]; rfl) ⟨0, 0, 0, 0, 0⟩
  have hkeeps := loadBinary_keeps (fileHost 0 []) 3 ⟨0, 0, 0, 0, 0⟩ s₁
  cases hload : loadBinary (fileHost 0 []) 3 ⟨0, 0, 0, 0, 0⟩ s₁ with
  | error e s₂ =>
    rcases (ends_of_error hload).mp hspec with h | ⟨-, h⟩
    · exact absurd h hshort
    · rw [hverdict] at h
      cases h
  | ok r s₂ =>
    obtain ⟨-, hends⟩ := ((ends_of_ok hload).mp hspec).resolve_left fun h => hshort h.1
    obtain ⟨ret, p⟩ := r
    have hret : ret = -eNOEXEC := by
      rw [hverdict] at hends
      cases hends
      rfl
    have htable : s.fds.table 3 = none := by
      rw [hprep.fds]
      rfl
    have hopened : s₂.fds.table 3 = some 0 := by
      rw [(ends_of_ok hload).mp hkeeps]
      exact h₁.opened.2
    refine ⟨s, s₂, t, hs, hlaunch, ?_, htable, hopened, fun hrel => ?_⟩
    · rw [sysExecve, openAndLoad, bind_assoc, bind_of_ok hopen, if_neg (by decide), bind_assoc,
        bind_of_ok hload, hret]
      rfl
    · have := congrFun hrel.table 3
      rw [htable, hopened] at this
      cases this

end BpfExamples.Kvm
