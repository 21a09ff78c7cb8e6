import BpfExamples.Kvm.CommandLine
import BpfExamples.Kvm.LoaderSpec
import BpfExamples.Kvm.OpenPath

/-!
# `sys_execve` up to the arguments (`kernel/syscalls/sys_execve.c`)

The first program is opened by the name that the command line gives it, in the arguments' page.
`sys_open` finds the name only if all of it lies in that one page (`PathInPage`); then the file
is open as descriptor 3, and `load_binary` lays its areas over the pages that are there.
`Entered` is the state in which `create_elf_info` finds the kernel.
-/

namespace BpfExamples.Kvm

open Mem

variable {σ : Type} {s s' : Sys σ} {h : Heap} {m : Mem} {blocks : List Extent} {host : Host σ}
  {w : σ} {args : List (List UInt8)} {a content : List UInt8} {rfd errno : Int} {pos : σ → Nat}
  {t : Extent} {p : Process}

/-- The hypervisor's machine has the program: the file `name` can be opened, and read from its
start. The other calls of the host are answered with proper error numbers. -/
structure ProgramHost (host : Host σ) (w : σ) (name : List UInt8) (rfd : Int)
    (content : List UInt8) (errno : Int) (pos : σ → Nat) : Prop where
  file : FileHost host rfd content errno pos
  reads : HostReads host
  errnos : ∀ w call, (host w call).2.errno ≤ 4095
  opened : 0 ≤ rfd ∧ (host w (.openFile name)).2.ret = rfd
  start : pos (host w (.openFile name)).1 = 0

/-! ## The name of the program -/

/-- The program's name ends in the page of the arguments. -/
def PathInPage (args : List (List UInt8)) : Prop := stringAt args 1 ≤ 0x1000

instance (args : List (List UInt8)) : Decidable (PathInPage args) :=
  inferInstanceAs (Decidable (_ ≤ _))

/-- While the arguments' page is all that the user has, it is all that the user can read. -/
theorem userRead_argument (inv : KernelInv h blocks argumentLeaf) (v : Nat) :
    userRead h.mem v = if v / 0x1000 = 0x201 then some (h.mem (0x8000000000 + v))
      else none := by
  unfold userRead
  by_cases hv : v / 0x1000 = 0x201
  · have hout : Outside v := ⟨by omega, by omega, by omega⟩
    have hleaf : argumentLeaf (v / 0x1000) = leafWord 0x201000 protRW := by rw [hv]; rfl
    rw [if_pos (userMemRangeOk_iff.mpr hout), if_pos hv, inv.walk_user hout, hleaf,
      leafTranslate_argument hv]
    rfl
  · rw [if_neg hv]
    split
    · next hr =>
      have hleaf : argumentLeaf (v / 0x1000) = 0 := Function.update_of_ne hv _ _
      rw [inv.walk_user (userMemRangeOk_iff.mp hr), hleaf]
      rfl
    · rfl

/-- The bytes of the name, where they are in the page. -/
theorem Prepared.path_byte (prep : Prepared w args s t) (ha : args[0]? = some a) {j : Nat}
    (hj : j ≤ a.length) :
    userRead s.mem (0x201000 + stringAt args 0 + j) =
      if stringAt args 0 + j < 0x1000 then some (a.getD j 0) else none := by
  rw [show userRead s.mem _ = _
    from userRead_argument prep.rep.inv _, ← prep.block.byte 0 a ha j hj]
  refine if_congr (by omega) ?_ rfl
  rw [← Nat.add_assoc, ← Nat.add_assoc]
  rfl

theorem Prepared.path_isString (prep : Prepared w args s t) (hname : 0 ∉ a)
    (ha : args[0]? = some a) (hpage : PathInPage args) :
    IsString s.mem (0x201000 + stringAt args 0) a.length := by
  have hend : stringAt args 0 + (a.length + 1) = stringAt args 1 := stringAt_succ ha
  unfold PathInPage at hpage
  refine ⟨fun j hj => ⟨a.getD j 0, ?_, getD_ne_zero hname hj⟩, ?_⟩
  · rw [prep.path_byte ha (by omega), if_pos (by omega)]
  · rw [prep.path_byte ha (Nat.le_refl _), if_pos (by omega)]
    simp

/-- **What `access_string_ok` finds**: the name, if it ends in the page. -/
theorem Prepared.path_string (prep : Prepared w args s t) (hargs : CommandLine args)
    (ha : args[0]? = some a) :
    (∃ k, IsString s.mem (0x201000 + stringAt args 0) k) ↔ PathInPage args := by
  have hend : stringAt args 0 + (a.length + 1) = stringAt args 1 := stringAt_succ ha
  have hname := hargs.strings a (List.mem_of_getElem? ha)
  refine ⟨?_, fun hpage => ⟨a.length, prep.path_isString hname ha hpage⟩⟩
  rintro ⟨k, hnz, hz⟩
  by_contra hlong
  unfold PathInPage at hlong
  -- the zero that was found would have to be one of the name's bytes
  have hk : stringAt args 0 + k < 0x1000 := by
    have hpage := userRead_argument prep.rep.inv (0x201000 + stringAt args 0 + k)
    by_contra hout
    rw [if_neg (by omega)] at hpage
    rw [show userRead s.mem _ = none from hpage] at hz
    cases hz
  rw [prep.path_byte ha (by omega), if_pos hk] at hz
  exact getD_ne_zero hname (by omega) (Option.some.inj hz)

/-- The check ends, because nothing outside of the page is read. -/
theorem Prepared.path_checked (prep : Prepared w args s t) :
    ∃ b, accessStringOk (0x201000 + stringAt args 0) s = .ok b s ∧
      (b = true ↔ ∃ k, IsString s.mem (0x201000 + stringAt args 0) k) := by
  refine accessStringOk_iff.mpr fun d hd => ?_
  obtain ⟨b, hb⟩ := hd.2
  rw [show userRead s.mem _ = _ from userRead_argument prep.rep.inv _] at hb
  split at hb
  · omega
  · cases hb

theorem sysOpen_unchecked (prep : Prepared w args s t) (hargs : CommandLine args)
    (ha : args[0]? = some a) (hlong : ¬ PathInPage args) :
    sysOpen host (0x201000 + stringAt args 0) s = .ok (-eFAULT) s := by
  obtain ⟨b, hcheck, hb⟩ := prep.path_checked
  have hfalse : b = false := by
    rw [← Bool.not_eq_true, hb, prep.path_string hargs ha]
    exact hlong
  rw [sysOpen, bind_of_ok hcheck, if_pos hfalse]
  rfl

/-! ## Opening the program -/

/-- The descriptors once the program is open. -/
def programFds (rfd : Int) : FdMap :=
  { mayInitFdMap FdMap.static with
    handle := Function.update (mayInitFdMap FdMap.static).handle 3 ⟨rfd, true⟩ }

theorem programFds_opened (rfd : Int) : Opened (programFds rfd) 3 rfd := ⟨by decide, rfl⟩

/-- What the hypervisor makes of the host's answer. -/
def openAnswer (r : HostReply) : FdMap × Int :=
  if r.ret < 0 then (mayInitFdMap FdMap.static, -r.errno) else (programFds r.ret, 3)

/-- The hypervisor opens the name that it finds in guest memory. -/
theorem hypercall_opens (host : Host σ) {offset : Nat} (hfds : s.fds = FdMap.static)
    (hend : offset + a.length < memSize)
    (hbytes : ∀ j, j ≤ a.length → s.mem (0x8000000000 + offset + j) = a.getD j 0)
    (hname : 0 ∉ a) (hret : (openAnswer (host s.world (.openFile a)).2).2 ≠ unusedVar) :
    hypercall host .openFile offset s = .ok (openAnswer (host s.world (.openFile a)).2).2
      { s with
        fds := (openAnswer (host s.world (.openFile a)).2).1
        world := (host s.world (.openFile a)).1 } := by
  have hm : memSize = 0x400000 := rfl
  have hmod : ∀ i, i < memSize → i % 2 ^ 32 = i := fun i hi => Nat.mod_eq_of_lt (by omega)
  have hbyte : ∀ j, j ≤ a.length → s.guest.byte (offset + j) = a.getD j 0 := by
    intro j hj
    rw [← hbytes j hj, Nat.add_assoc]
    rfl
  have hlen : s.guest.strlen offset = .ok a.length := by
    refine Guest.strlen_eq_ok_iff.mpr ⟨hend, ?_, fun j hj => ?_⟩
    · rw [hbyte _ (Nat.le_refl _)]
      simp
    · rw [hbyte j (by omega)]
      exact getD_ne_zero hname hj
  have hlist : s.guest.bytes offset a.length = a := by
    refine List.ext_getElem (by simp [Guest.bytes]) fun j h₁ h₂ => ?_
    simp only [Guest.bytes, List.getElem_map, List.getElem_range, hbyte j (by omega)]
    rw [List.getD_eq_getElem?_getD, List.getElem?_eq_getElem h₂, Option.getD_some]
  have hfree : firstFree (mayInitFdMap FdMap.static).handle (maxFd + 1) 0 = 3 := rfl
  have hhandler : hpHandler .openFile s.fds s.guest (offset % 2 ^ 32) =
      .ok (.host (.openFile a) openAnswer) := by
    show hpHandleOpen _ _ _ = _
    rw [hmod offset (by omega), hpHandleOpen, Guest.checkOob_pos (show offset < s.guest.memSize
      from Nat.lt_of_le_of_lt (Nat.le_add_right _ _) hend), ok_bind, hlen, ok_bind, hmod _ hend,
      Guest.checkOob_pos (show offset + a.length < s.guest.memSize from hend), ok_bind,
      hlist, hfds]
    simp only [hfree]
    rfl
  exact hypercall_host hhandler hret

/-- The host was asked to open the program, and nothing but the descriptors has changed. -/
structure AskedToOpen (host : Host σ) (w : σ) (args : List (List UInt8)) (a : List UInt8)
    (s s' : Sys σ) (t : Extent) : Prop where
  rep : KernelRep s'.heap [t] [argumentBlock (blockLen args)] argumentLeaf
  kept : ∀ x, Payload [argumentBlock (blockLen args)] x → s'.mem x = s.mem x
  fds : s'.fds = (openAnswer (host w (.openFile a)).2).1
  world : s'.world = (host w (.openFile a)).1
  last : s'.kernel.lastMmapped = minusOne
  handed : s'.handed = [0x8000201000]

/-- The program is open. -/
structure ProgramOpen (host : Host σ) (w : σ) (args : List (List UInt8)) (a : List UInt8)
    (rfd : Int) (s s' : Sys σ) (t : Extent) :
    Prop extends AskedToOpen host w args a s s' t where
  opened : Opened s'.fds 3 rfd

theorem argument_payload {i : Nat} (hi : i < blockLen args) :
    Payload [argumentBlock (blockLen args)] (0x8000201000 + i) := by
  obtain ⟨-, hge, -⟩ := alignupTo_spec (blockLen args + 16)
  refine ⟨_, List.mem_cons_self, show 0x8000200ff0 + 16 ≤ _ by omega, ?_⟩
  show _ < 0x8000200ff0 + alignupTo (blockLen args + 16) 0x80
  omega

/-- The kernel reads the page of the arguments in their block. -/
theorem leafCell_argument {v : Nat} (hv : v / 0x1000 = 0x201) :
    leafCell argumentLeaf false v = some (0x8000000000 + v) := by
  have hleaf : argumentLeaf 0x201 = leafWord 0x201000 protRW := rfl
  rw [leafCell, kernelSpace_user (userMemRangeOk_iff.mpr ⟨by omega, by omega, by omega⟩), hv,
    hleaf, leafTranslate_argument hv]
  simp only [Option.map_some]
  rw [if_pos (by omega)]

/-- There is a block for the copy of a path in the page. -/
theorem Prepared.serves (prep : Prepared w args s t) {n : Nat} (hn : n ≤ 0x1000) :
    Serves s n mallocNoAlign := by
  have hroom := prep.room
  rcases doKmalloc_cases prep.rep (.inl rfl) (show n < 2 ^ 32 by omega) with ⟨hs, -⟩ | ⟨-, hno⟩
  · exact hs
  · have hshort : s.room < n + 0x1090 := hno.out (fun _ _ h => h.2.short) fun _ _ h => h.1.short
    omega

/-- **`sys_open` of the program's name** asks the host for this name. -/
theorem sysOpen_asks (host : Host σ) (prep : Prepared w args s t) (hargs : CommandLine args)
    (ha : args[0]? = some a) (hpage : PathInPage args)
    (hret : (openAnswer (host w (.openFile a)).2).2 ≠ unusedVar) :
    ∃ s', sysOpen host (0x201000 + stringAt args 0) s =
      .ok (openAnswer (host w (.openFile a)).2).2 s' ∧
      AskedToOpen host w args a s s' t := by
  have hend : stringAt args 0 + (a.length + 1) = stringAt args 1 := stringAt_succ ha
  have hle := stringAt_le args 1
  have hname := hargs.strings a (List.mem_of_getElem? ha)
  have hstr := prep.path_isString hname ha hpage
  unfold PathInPage at hpage
  obtain ⟨c, s₁, s₂, -, -, ht, rep₂, hst, hquiet, hbytes, hrun⟩ :=
    sysOpen_copies host prep.rep hstr (by omega) (by omega) (prep.serves (by omega))
  have hb := rep₂.inv.bounds (e := c) List.mem_cons_self
  have hfits := ht.alloc.fits
  unfold Extent.fin at hb
  -- the copy is the name
  have hpay : ∀ {x}, Payload [argumentBlock (blockLen args)] x → ¬ c.Has x ∧
      s₁.mem x = s.mem x := by
    intro x hx
    have hnot := hx.not_own [t]
    exact ⟨fun hc => hnot (ht.alloc.rep.own_of_has hc), ht.mem x hnot⟩
  have hcells : ∀ j, j ≤ a.length → leafCell argumentLeaf false
      (0x201000 + stringAt args 0 + j) = some (0x8000201000 + (stringAt args 0 + j)) := by
    intro j hj
    rw [leafCell_argument (by omega)]
    congr 1
    omega
  have hblock : ∀ j, j ≤ a.length → Payload [argumentBlock (blockLen args)]
    (0x8000201000 + (stringAt args 0 + j)) := fun j hj => argument_payload (by omega)
  have hname₂ : ∀ j, j ≤ a.length → s₂.mem (c.addr + 16 + j) = a.getD j 0 := by
    intro j hj
    have hout : ¬ (c.addr + 16 ≤ 0x8000201000 + (stringAt args 0 + j) ∧
        0x8000201000 + (stringAt args 0 + j) < c.addr + 16 + j) := by
      intro hin
      refine (hpay (hblock j hj)).1 ⟨by omega, ?_⟩
      unfold Extent.fin
      omega
    rw [hbytes j _ (by omega) (hcells j hj), if_neg hout,
      (hpay (hblock j hj)).2, ← Nat.add_assoc]
    exact prep.block.byte 0 a ha j hj
  -- the hypervisor
  obtain ⟨q, hq⟩ : ∃ q, c.addr + 16 = 0x8000000000 + q := ⟨c.addr + 16 - 0x8000000000, by omega⟩
  have hphys : ofExec (physical (c.addr + 16)) s₂ = .ok q s₂ := by
    rw [hq, physical_window (by omega)]
    rfl
  have hworld : s₂.world = w := hquiet.2.trans prep.world
  have hopen := hypercall_opens host (hquiet.1.trans prep.fds) (show q + a.length < 0x400000 by
      omega) (fun j hj => by rw [← hq]; exact hname₂ j hj) hname (by rw [hworld]; exact hret)
  rw [hworld] at hopen
  set s₃ : Sys σ := { s₂ with
    fds := (openAnswer (host w (.openFile a)).2).1
    world := (host w (.openFile a)).1 }
  obtain ⟨s₄, hfree, rep₄, hl, -⟩ := doKfree_spec (s := s₃) rep₂
  refine ⟨s₄, ?_, rep₄, fun x hx => ?_, hl.fds, hl.world, ?_, ?_⟩
  · rw [hrun, openCopy, bind_of_ok hphys, bind_of_ok hopen, bind_of_ok hfree]
    rfl
  · obtain ⟨hc, hsame⟩ := hpay hx
    exact (hl.mem x (hx.not_own [t])).trans ((hst.mem x hc).trans hsame)
  · exact hl.last.trans (hst.last.trans (ht.last.trans prep.last))
  · exact hl.handed.trans (hst.handed.trans (ht.handed.trans prep.handed))

/-- The program can be opened. -/
theorem sysOpen_program (prep : Prepared w args s t) (hargs : CommandLine args)
    (ha : args[0]? = some a) (hpage : PathInPage args)
    (hret : (host w (.openFile a)).2.ret = rfd) (hrfd : 0 ≤ rfd) :
    ∃ s', sysOpen host (0x201000 + stringAt args 0) s = .ok 3 s' ∧
      ProgramOpen host w args a rfd s s' t := by
  have hans : openAnswer (host w (.openFile a)).2 = (programFds rfd, 3) := by
    rw [openAnswer, if_neg (by omega), hret]
  obtain ⟨s', hrun, hasked⟩ := sysOpen_asks host prep hargs ha hpage
    (by rw [hans]; exact (by decide : (3 : Int) ≠ unusedVar))
  have hfds := hasked.fds
  rw [hans] at hrun hfds
  exact ⟨s', hrun, hasked, hfds ▸ programFds_opened rfd⟩

/-! ## Loading the program -/

theorem resultOf_ne_unused {r : HostReply} (h₁ : 0 ≤ r.errno) (h₂ : r.errno ≤ 4095) :
    resultOf r ≠ unusedVar := by
  have hmark := unusedVar_lt
  unfold resultOf
  split <;> omega

theorem hpHandleClose_cases (t : FdMap) (data : Nat) :
    (∃ t' ret, ret ≠ unusedVar ∧ hpHandleClose t data = .ok (.answer t' ret)) ∨
      ∃ call t', hpHandleClose t data = .ok (.host call fun r => (t', resultOf r)) := by
  have hbadf : -eBADF ≠ unusedVar := by
    have hmark := unusedVar_lt
    have hle : -4095 ≤ -eBADF := by decide
    omega
  unfold hpHandleClose processOnFd
  dsimp only
  split
  · exact .inl ⟨_, _, hbadf, rfl⟩
  · exact .inr ⟨_, _, rfl⟩

/-- `sys_close` returns, and is no business of the guest's memory. -/
theorem hypercall_close (prog : ProgramHost host w a rfd content errno pos) (data : Nat)
    (s : Sys σ) :
    ∃ ret s', hypercall host .close data s = .ok ret s' ∧ Stores (fun _ => False) s s' := by
  have hspec := hypercall_spec (s := s) host .close data (W := fun _ => False)
    (P := fun _ => True) (fun _ _ _ => trivial) (fun _ _ _ => trivial) fun _ _ _ _ hh _ _ _ =>
    nomatch (hpHandler_read hh).1
  suffices h : ∃ ret s', hypercall host .close data s = .ok ret s' by
    obtain ⟨ret, s', hrun⟩ := h
    exact ⟨ret, s', hrun, ((ends_of_ok hrun).mp hspec).2⟩
  rcases hpHandleClose_cases s.fds (data % 2 ^ 32) with ⟨t, ret, hret, hanswer⟩ |
    ⟨call, t, hhost⟩
  · have hhandler : hpHandler .close s.fds s.guest (data % 2 ^ 32) = .ok (.answer t ret) :=
      hanswer
    exact ⟨_, _, hypercall_answer hhandler hret⟩
  · have hhandler : hpHandler .close s.fds s.guest (data % 2 ^ 32) =
      .ok (.host call fun r => (t, resultOf r)) := hhost
    exact ⟨_, _,
      hypercall_host hhandler (resultOf_ne_unused (prog.reads.errno _ _) (prog.errnos _ _))⟩

/-- The kernel as `create_elf_info` finds it, in the state `s'`: over the arguments' page, which
is that of the state `s`, the areas of the program were laid down. The block `b` is the loader's
buffer. -/
structure Entered (args : List (List UInt8)) (content : List UInt8) (s s₀ s' : Sys σ)
    (b : Extent) (blocks : List Extent) (leaf : Nat → Nat) : Prop where
  inv₀ : KernelInv s₀.heap [b, argumentBlock (blockLen args)] argumentLeaf
  kept : ∀ x, Payload [argumentBlock (blockLen args)] x → s₀.mem x = s.mem x
  handed : s₀.handed = [0x8000201000]
  room : s.room ≤ s₀.room + headCost
  laid : Laid (elfAreas content) s₀ [b,
    argumentBlock (blockLen args)] argumentLeaf s' blocks leaf

end BpfExamples.Kvm
