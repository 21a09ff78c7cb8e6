import BpfExamples.Kvm.TaskCalls

/-!
# What the program is given

The whole start, from the command line of the hypervisor to the first instruction of the
program, for a file that can be loaded. The command line is copied to a block of the kernel's
heap of which the user gets the first page, so what decides is whether all of it is in that
page: if it is, the program starts with its image in memory and its arguments on the stack, and
if it is not, `sys_execve` returns `-EFAULT` (`launch_delivers`). The only other way to end is
to run out of memory.

No area of the file may be where the arguments are, in the four pages from `0x201000` on, and
the command line leaves a part of the kernel's stack to the kernel's own frames
(`kernelFrames`).
-/

namespace BpfExamples.Kvm

open Mem

variable {σ : Type} {s s' : Sys σ} {blocks used : List Extent} {leaf : Nat → Nat}
  {host : Host σ} {args : List (List UInt8)} {a content : List UInt8} {rfd errno : Int}
  {pos : σ → Nat} {w : σ} {t : Extent}

/-! ## The page of the arguments -/

section

variable (hblock : ArgBlock s.mem 0x8000201000 0x201000 args) (hargs : CommandLine args)
  (inv : KernelInv s.heap used leaf) (hleaf : leaf 0x201 = leafWord 0x201000 protRW)
  (hgap : ∀ q, 0x202 ≤ q → q < 0x205 → leaf q = 0)

include inv hleaf in
theorem argument_read {i : Nat} (hi : i < 0x1000) :
    userRead s.mem (0x201000 + i) = some (s.mem (0x8000201000 + i)) := by
  have hv : (0x201000 + i) / 0x1000 = 0x201 := by omega
  have hout : Outside (0x201000 + i) := ⟨by omega, by omega, by omega⟩
  rw [userRead, if_pos (userMemRangeOk_iff.mpr hout), show translateWalk s.mem _ _ _ = _
    from inv.walk_user hout true false, hv, hleaf, leafTranslate_argument hv,
    Option.map_some, ← Nat.add_assoc]
  rfl

include inv hgap in
/-- Behind the page there is nothing. -/
theorem argument_gap {v : Nat} (h₁ : 0x202000 ≤ v) (h₂ : v < 0x205000) :
    userRead s.mem v = none := by
  have hout : Outside v := ⟨by omega, by omega, by omega⟩
  rw [userRead, if_pos (userMemRangeOk_iff.mpr hout), show translateWalk s.mem _ _ _ = _
    from inv.walk_user hout true false, hgap _ (by omega) (by omega)]
  rfl

include hblock hargs inv hleaf hgap

/-- **`access_string_ok`** of an argument says whether it ends in the page. -/
theorem argument_checked {i : Nat} (ha : args[i]? = some a) :
    ∃ b, accessStringOk (0x201000 + stringAt args i) s = .ok b s ∧
      (b = true ↔ stringAt args (i + 1) ≤ 0x1000) := by
  have hend := stringAt_succ ha
  have hle := stringAt_le args (i + 1)
  have hfits := hargs.fits
  have hnz := hargs.strings a (List.mem_of_getElem? ha)
  have hstop : ∀ d, NonZero s.mem (0x201000 + stringAt args i) d →
      stringAt args i + d ≤ 0x1000 ∨ d = 0 := by
    intro d hd
    by_contra hlong
    -- the walk along the string would have read a byte behind the page
    obtain ⟨j, hj, hge⟩ : ∃ j, j < d ∧ 0x1000 ≤ stringAt args i + j ∧
      stringAt args i + j < 0x4000 := by
      by_cases hin : 0x1000 ≤ stringAt args i
      · exact ⟨0, by omega, by omega, by omega⟩
      · exact ⟨0x1000 - stringAt args i, by omega, by omega, by omega⟩
    obtain ⟨b, hb, -⟩ := hd j hj
    rw [argument_gap inv hgap (by omega) (by omega)] at hb
    cases hb
  obtain ⟨b, hrun, hb⟩ := accessStringOk_iff.mpr fun d hd => by
    have := hstop d hd.1
    omega
  refine ⟨b, hrun, hb.trans ⟨?_, fun hpage => ⟨a.length, fun j hj => ?_, ?_⟩⟩⟩
  · rintro ⟨k, hk⟩
    have hin := hstop k hk.1
    have hread : stringAt args i + k < 0x1000 := by
      by_contra hout
      have hnone := argument_gap inv hgap (v := 0x201000 + stringAt args i + k)
        (by omega) (by omega)
      exact absurd (hnone.symm.trans hk.2) (by simp)
    have hzero := hk.2
    rw [Nat.add_assoc, argument_read inv hleaf hread, Option.some.injEq] at hzero
    by_contra hlong
    rw [← Nat.add_assoc, hblock.byte i a ha k (by omega)] at hzero
    exact getD_ne_zero hnz (by omega) hzero
  · refine ⟨a.getD j 0, ?_, getD_ne_zero hnz hj⟩
    rw [Nat.add_assoc, argument_read inv hleaf (by omega), ← Nat.add_assoc,
      hblock.byte i a ha j (by omega)]
  · rw [Nat.add_assoc, argument_read inv hleaf (by omega), ← Nat.add_assoc,
      hblock.byte i a ha _ (Nat.le_refl _)]
    simp

omit hblock hargs hgap in
theorem argument_word {i : Nat} (hi : i ≤ args.length) (hpage : 8 * i + 8 ≤ 0x1000) :
    ShowsWord (UserHolds s.mem [argumentBlock (blockLen args)]) (0x201000 + 8 * i)
      (load64 s.mem (0x8000201000 + 8 * i)) := by
  have hge := blockLen_ge args
  refine ⟨load64_lt _ _, fun j hj => ⟨by omega, ?_, fun p hp => ?_⟩⟩
  · rw [Nat.add_assoc, argument_read inv hleaf (by omega), ← Nat.add_assoc,
      loadLE_byte s.mem 8 _ hj, ← load64]
  · have hv : (0x201000 + 8 * i + j) / 0x1000 = 0x201 := by omega
    have hout : Outside (0x201000 + 8 * i + j) := ⟨by omega, by omega, by omega⟩
    rw [show translateWalk s.mem _ _ _ = _ from inv.walk_user hout true false, hv, hleaf,
      leafTranslate_argument hv, Option.some.injEq] at hp
    rw [← hp, Nat.add_assoc, ← Nat.add_assoc]
    exact argument_payload (by omega)

/-- The loop of `check_and_get_count` stops at the first argument that is not in the page. -/
theorem checkCountFrom_long (hlong : 0x1000 < blockLen args) (k : Nat) :
    ∀ i fuel, i + k = args.length → k < fuel →
    stringAt args i ≤ 0x1000 → checkCountFrom fuel (0x201000 + 8 * i) i s =
      .ok (-eFAULT) s := by
  induction k with
  | zero =>
    intro i fuel hi _ hstart
    have hend : stringAt args args.length = blockLen args := by simp [stringAt, stringsLen]
    obtain rfl : i = args.length := by omega
    omega
  | succ k ih =>
    rintro i (_ | fuel) hi hfuel hstart
    · omega
    have hge := stringAt_ge args i
    have ha : args[i]? = some args[i] := List.getElem?_eq_getElem (by omega)
    have hword := argument_word inv hleaf (show i ≤ args.length by omega) (by omega)
    have hpeek := (hword.mono (UserHolds.holds inv)).peekLE inv
    rw [hblock.pointer i (by omega)] at hpeek
    obtain ⟨b, hcheck, hb⟩ := argument_checked hblock hargs inv hleaf hgap ha
    rw [checkCountFrom, bind_of_ok hpeek, if_neg (by omega), bind_of_ok hcheck]
    by_cases hin : stringAt args (i + 1) ≤ 0x1000
    · have hnext := argument_word inv hleaf (show i + 1 ≤ args.length by omega) (by omega)
      have haddr : (0x201000 + 8 * i + 8) % 2 ^ 64 = 0x201000 + 8 * (i + 1) := by omega
      have hok : onMem (fun m => accessOk m false (0x201000 + 8 * (i + 1)) 8) s = .ok true s :=
        congrArg (EStateM.Result.ok · s) hnext.accessOk
      rw [hb.mpr hin, if_neg (by decide), haddr, bind_of_ok hok, if_neg (by decide)]
      exact ih (i + 1) fuel (by omega) (by omega) hin
    · rw [if_pos (Bool.eq_false_iff.mpr fun h => hin (hb.mp h))]
      rfl

/-- **`create_elf_info`** turns down what does not fit in the page. -/
theorem createElfInfo_long (hlong : 0x1000 < blockLen args) (hpath : PathInPage args)
    (p : Process) (envp : Nat) : createElfInfo p 0x201000 envp s = .ok (-eFAULT, p) s := by
  obtain ⟨a, l, hl⟩ := List.exists_cons_of_ne_nil hargs.some
  have hend : stringAt args 0 + (a.length + 1) = stringAt args 1 :=
    stringAt_succ (by rw [hl]; rfl)
  have hge := stringAt_ge args 0
  unfold PathInPage at hpath
  have hok : onMem (fun m => accessOk m false 0x201000 8) s = .ok true s :=
    congrArg (EStateM.Result.ok · s) (argument_word inv hleaf (Nat.zero_le args.length)
    (by omega)).accessOk
  have hcount : checkAndGetCount 0x201000 s = .ok (-eFAULT) s := by
    have hlen := hargs.fits
    have hblen := blockLen_ge args
    rw [checkAndGetCount, bind_of_ok hok, if_neg (by decide)]
    exact checkCountFrom_long hblock hargs inv hleaf hgap hlong args.length 0 _ (Nat.zero_add _)
      (by omega) (by omega)
  rw [createElfInfo, bind_of_ok hcount, if_pos (by decide)]
  rfl

end

/-! ## `create_elf_info` and the hypervisor -/

theorem insideFrame : Frame (Inside (σ := σ)) := ⟨id, Inside.trans⟩

theorem inside_peekLE (n : Nat) : ∀ v, Grows Inside (peekLE v n : KernelM σ Nat) := by
  induction n with
  | zero => exact fun v => insideFrame.pure 0
  | succ n ih =>
    exact fun v => insideFrame.bind (inside_peek v) fun b => insideFrame.bind (ih _) fun rest =>
      insideFrame.pure _

theorem inside_pushString (copy ary j i rsp : Nat) :
    Grows Inside (pushString copy ary j i rsp : KernelM σ Nat) := by
  refine insideFrame.bind (inside_peekLE 8 _) fun a => ?_
  refine insideFrame.bind (inside_of_still (still_strnlenFrom _ _ _)) fun l => ?_
  refine insideFrame.bind (inside_pokeLE 8 _ _) fun _ => ?_
  refine insideFrame.bind (inside_peekLE 8 _) fun dst => insideFrame.bind (inside_peekLE 8 _)
    fun src => ?_
  exact insideFrame.bind (inside_memcpyFrom _ _ _ _) fun _ => insideFrame.pure _

theorem inside_pushStrings (copy ary off n : Nat) :
    ∀ rsp, Grows Inside (pushStrings copy ary off n rsp : KernelM σ Nat) := by
  induction n with
  | zero => exact fun rsp => insideFrame.pure rsp
  | succ n ih => exact fun rsp => insideFrame.bind (inside_pushString copy ary _ n rsp) ih

theorem inside_pushWords (copy n : Nat) :
    ∀ rsp, Grows Inside (pushWords copy n rsp : KernelM σ Nat) := by
  induction n with
  | zero => exact fun rsp => insideFrame.pure rsp
  | succ n ih =>
    exact fun rsp => insideFrame.bind (inside_peekLE 8 _) fun x =>
      insideFrame.bind (inside_pokeLE 8 _ x) fun _ => ih _

/-- To build the stack is no business of the hypervisor's. -/
theorem inside_pushElfInfo (rsp argv envp argc envc : Nat) :
    Grows Inside (pushElfInfo rsp argv envp argc envc : KernelM σ Nat) := by
  refine insideFrame.bind (inside_doKmalloc _ _) fun copy => ?_
  refine insideFrame.bind (inside_pushStrings copy envp _ envc _) fun rsp => ?_
  refine insideFrame.bind (inside_pushStrings copy argv _ argc _) fun rsp => ?_
  refine insideFrame.bind (inside_pushWords copy _ _) fun rsp => ?_
  exact insideFrame.bind (inside_doKfree copy) fun _ => insideFrame.bind (inside_pokeLE 8 _ _)
    fun _ => insideFrame.pure _

theorem createElfInfo_fds {p : Process} {argv envp : Nat} {r : Int × Process}
    (h : createElfInfo p argv envp s = .ok r s') : s'.fds = s.fds ∧ s'.world = s.world := by
  suffices hends : Ends (createElfInfo p argv envp) s (fun _ s' => Inside s s')
      fun _ _ => True from
    have hin := (ends_of_ok h).mp hends
    ⟨hin.fds, hin.world⟩
  refine (checkAndGetCount_any argv).bind fun argc s₁ h₁ => ?_
  obtain rfl := h₁
  refine Ends.ite (fun _ => ends_pure.mpr (Inside.refl _)) fun _ => ?_
  refine (checkAndGetCount_any envp).bind fun envc s₂ h₂ => ?_
  obtain rfl := h₂
  refine Ends.ite (fun _ => ends_pure.mpr (Inside.refl _)) fun _ => ?_
  exact ((inside_pushElfInfo _ _ _ _ _ s₂).mono (fun _ _ h => h) fun _ _ _ => trivial).bind
    fun rsp s₃ h₃ => ends_pure.mpr h₃

/-! ## The program in memory -/

/-- The page `q` shows the bytes of the area, to whom its protection lets see them. -/
def ShowsPage (m : Mem) (A : Area) (q : Nat) : Prop :=
  ∀ v, v / 0x1000 = q → ∃ p, m (0x8000000000 + p) = A.data (v - 0x1000 * A.page) ∧ ∀ u w,
    translateWalk m v u w =
      if (u = true → hasFlag A.prot protR = true) ∧
        (w = true → hasFlag A.prot protW = true) then some p else none

/-- A program that is about to start at `entry`, with its stack at `rsp`. -/
structure ProgramReady (args : List (List UInt8)) (content : List UInt8) (s : Sys σ)
    (entry rsp : Nat) : Prop where
  entry : entry = (fileField content 24 8 + loadAddrOf content) % 2 ^ 64
  aligned : rsp % 16 = 0
  /-- The arguments are on the stack, with an empty environment. -/
  stack : ∃ place, Arranged s.mem rsp args [] place
  /-- Every other page of the file shows the last of the areas that have it. -/
  image : ∀ q A, ¬ stackArea.Has q → lastArea (elfAreas content) q = some A →
    ShowsPage s.mem A q
  /-- Besides these and the page of the arguments the program has nothing. -/
  rest : ∀ v, Outside v → v / 0x1000 ≠ 0x201 → lastArea (elfAreas content) (v / 0x1000) = none →
    ∀ u w, translateWalk s.mem v u w = none
  /-- It has the standard files, and no others. -/
  files : s.fds.table = FdMap.static.table
  /-- It can write its stack. -/
  writable : ∀ v, 0x7ffffffbf000 ≤ v → v < 0x7ffffffff000 →
    ∃ p, translateWalk s.mem v true true = some p
  /-- What the file has not cost of the kernel's memory is left. -/
  memory : 0x1f0000 ≤ s.room + elfCost content

/-- The memory of a program, as the kernel has laid it out. -/
structure InPlace (s : Sys σ) (blocks : List Extent) (leaf : Nat → Nat) : Prop where
  inv : KernelInv s.heap blocks leaf
  separate : Separate blocks leaf
  whole : ∀ q, q ≠ 0x201 → Whole blocks leaf q

/-- No area of the file is where the arguments are. -/
def ClearOfArguments (content : List UInt8) : Prop :=
  ∀ q, 0x201 ≤ q → q < 0x205 → ∀ A ∈ elfAreas content, ¬ A.Has q

theorem fitsStack_of_page (hpage : blockLen args ≤ 0x1000) : FitsStack (args ++ []) := by
  have hge := blockLen_ge args
  rw [List.append_nil]
  unfold FitsStack elfRsp pushedAt
  rw [List.drop_zero]
  split <;> omega

section

variable {s₀ s₂ s₃ : Sys σ} {b : Extent} (h : Entered args content s s₀ s₂ b blocks leaf)
  (hblock : ArgBlock s.mem 0x8000201000 0x201000 args) (hargs : CommandLine args)
  (hclear : ClearOfArguments content)

include h in
theorem Entered.inPlace : InPlace s₂ blocks leaf := by
  have hpos : 0 < blockLen args := by
    have := blockLen_ge args
    omega
  refine ⟨h.laid.inv h.inv₀,
    h.laid.separate ((separate_argument hpos).mono (List.subset_cons_self _ _)), fun q hq => ?_⟩
  exact h.laid.whole fun p hp => absurd (mappedTo_argument hp).1 hq

include h hblock in
/-- The arguments are where they were. -/
theorem Entered.argBlock : ArgBlock s₂.mem 0x8000201000 0x201000 args :=
  hblock.copy fun i hi => by
  obtain ⟨e, he, hin⟩ : Payload [argumentBlock (blockLen args)] (0x8000201000 + i) :=
    argument_payload hi
  rw [h.laid.kept ⟨e, List.mem_cons_of_mem b he, hin⟩, h.kept _ ⟨e, he, hin⟩]

include h hclear in
theorem Entered.leaf_argument {q : Nat} (h₁ : 0x201 ≤ q) (h₂ : q < 0x205) :
    leaf q = argumentLeaf q :=
  h.laid.leaf_of_none (hclear q h₁ h₂)

include h hblock hargs hclear

/-- **The last part of `sys_execve`**, when the arguments are in their page. -/
theorem Entered.createElfInfo (hpage : blockLen args ≤ 0x1000)
    (hst : Stores (fun _ => False) s₂ s₃) {p : Process} (hrsp : p.rsp = 0x7fffffffe000) :
    ∃ s', createElfInfo p 0x201000 (0x201000 + args.length * 8) s₃ = .ok (0,
      { p with rsp := elfRsp (args ++ []) }) s' ∧
      InPlace s' blocks leaf ∧ s₃.room ≤ s'.room ∧ elfRsp (args ++ []) % 16 = 0 ∧
      (∀ v, 0x7ffffffbf000 ≤ v → v < 0x7ffffffff000 →
        ∃ p, translateWalk s'.mem v true true = some p) ∧
      Arranged s'.mem (elfRsp (args ++ [])) args [] (pushedAt (args ++ [])) ∧
      (∀ q A, ¬ stackArea.Has q → lastArea (elfAreas content) q = some A →
        PageIn s' blocks leaf A q) ∧
      ∀ q, q ≠ 0x201 → lastArea (elfAreas content) q = none → leaf q = 0 := by
  have hplace := h.inPlace
  have hleaf : leaf 0x201 = leafWord 0x201000 protRW :=
    h.leaf_argument hclear (by decide) (by decide)
  obtain ⟨tabs, rep₂⟩ := hplace.inv.rep
  have inv₃ : KernelInv s₃.heap blocks leaf := (rep₂.stores hst fun x hx => hx.elim).inv
  have hmem₃ : s₃.mem = s₂.mem := funext fun x => hst.mem x id
  have hblock₃ : ArgBlock s₃.mem 0x8000201000 0x201000 args := hmem₃ ▸ h.argBlock hblock
  -- the stack is the last of the areas
  obtain ⟨s₁, blocks₁, leaf₁, hsegs, hstack⟩ := h.laid.split
  cases hstack with
  | @cons _ _ _ _ _ _ _ _ _ st first rest =>
  cases rest
  have hmem : argumentBlock (blockLen args) ∈ blocks₁ :=
    hsegs.sub (List.mem_cons_of_mem _ List.mem_cons_self)
  obtain ⟨hargv, henvp⟩ := hblock₃.shows hargs.strings hpage inv₃ hleaf hmem
  have hfits := fitsStack_of_page hpage
  have hat : AtElfInfo s₃ blocks₁ _ st 0x201000 (0x201000 + 8 * args.length) args [] := ⟨inv₃,
    ⟨first.aligned, first.fits, fun q hq => Area.leaves_of_has hq _ _⟩, hargv, henvp, hfits⟩
  obtain ⟨s', hrun, inv', hroom, harr, hcases⟩ := hat.createElfInfo hrsp
  rw [Nat.mul_comm args.length 8]
  refine ⟨s', hrun, ⟨inv', hplace.separate, hplace.whole⟩, hroom, hfits.layout.aligned,
    fun v h₁ h₂ => ⟨_, hat.stack.walk inv' List.mem_cons_self h₁ h₂ true true⟩, harr,
    fun q A hq hlast => ?_, fun q hq hlast => ?_⟩
  · rw [elfAreas, lastArea_append, lastArea, lastArea, Option.none_or, if_neg hq,
      Option.none_or] at hlast
    refine (hsegs.pageIn hlast).mono (List.subset_cons_self _ _) (Area.leaves_of_not_has hq _ _)
      fun x hx => ?_
    have hnot : ¬ (st.addr + 16 ≤ x ∧ x < st.addr + 16 + 0x40000) := fun hin => by
      have hsize := first.fits
      have hcount : stackArea.count = 0x40 := rfl
      rcases rep₂.head_apart hx with hlt | hge
      · omega
      · unfold Extent.fin at hge
        omega
    have hown : ¬ OwnCell (liveChunks s₃.heap) x := by
      obtain ⟨tabs₃, rep₃⟩ := inv₃.rep
      rw [rep₃.ownCell_iff]
      obtain ⟨e, he, hin⟩ := hx
      exact Payload.not_own tabs₃ ⟨e, List.mem_cons_of_mem st he, hin⟩
    have hlow : 0x8000200000 ≤ x := by
      obtain ⟨e, he, hin⟩ := hx
      have := inv₃.bounds (List.mem_cons_of_mem st he)
      omega
    have hwords := hfits.layout.words
    rw [List.append_nil] at hwords
    have hkept : s'.mem x = s₃.mem x := by
      rcases hcases with ⟨-, hframe⟩ | ⟨-, -, hframe⟩
      · exact hframe x hnot hown
      · exact hframe x hnot hown (.inr (by rw [List.length_nil]; omega))
    rw [hkept, hmem₃, first.kept x hx]
  · rw [h.laid.leaf_of_none (lastArea_eq_none.mp hlast)]
    exact Function.update_of_ne hq _ _

end

/-! ## The start -/

section

variable {s₁ : Sys σ} (prog : ProgramHost host w a rfd content errno pos)
  (prep : Prepared w args s t) (hargs : CommandLine args) (ha : args[0]? = some a)
  (hpath : PathInPage args)

include prep hargs ha hpath

/-- The name of the program is one that `sys_open` can be given. -/
theorem Prepared.path_owns (k : Nat) (hk : IsString s.mem (0x201000 + stringAt args 0) k) :
    k < 0x1f7000 ∧ ∀ i, i ≤ k →
      Owns [argumentBlock (blockLen args)] s.mem (0x201000 + stringAt args 0 + i) := by
  have hend : stringAt args 0 + (a.length + 1) = stringAt args 1 := stringAt_succ ha
  have hle := stringAt_le args 1
  have hkle :=
    (prep.path_isString (hargs.strings a (List.mem_of_getElem? ha)) ha hpath).le_of_nonZero hk.1
  unfold PathInPage at hpath
  refine ⟨by omega, fun i hi p hp => ?_⟩
  have hv : (0x201000 + stringAt args 0 + i) / 0x1000 = 0x201 := by omega
  have hout : Outside (0x201000 + stringAt args 0 + i) := ⟨by omega, by omega, by omega⟩
  have hleaf : argumentLeaf 0x201 = leafWord 0x201000 protRW := rfl
  rw [show translateWalk s.mem _ _ _ = _ from prep.rep.inv.walk_user hout true false, hv, hleaf,
    leafTranslate_argument hv, Option.some.injEq] at hp
  rw [← hp, Nat.add_assoc, ← Nat.add_assoc]
  exact argument_payload (by omega)

include prog

/-- The program gets the first number that is free. -/
theorem sysOpen_files (hopen : sysOpen host (0x201000 + stringAt args 0) s = .ok 3 s₁) :
    ∃ r, s₁.fds.table = Function.update FdMap.static.table 3 (some r) := by
  have hcall := (ends_of_ok hopen).mp (sysOpen_task prep.rep (prep.path_owns hargs ha hpath))
  generalize hret : (3 : Int) = ret at hcall
  generalize hafter : task [argumentBlock (blockLen args)] s₁ = t' at hcall
  have hfile : s₁.fds.table = t'.file := congrArg Task.file hafter
  cases hcall with
  | openFault => exact absurd hret (by decide)
  | openNoMemory => exact absurd hret (by decide)
  | openFull => exact absurd hret (by decide)
  | openFailed named asked failed =>
    rename_i name w' r
    have herrno := prog.reads.errno (task [argumentBlock (blockLen args)] s).world
      (.openFile name)
    rw [asked] at herrno
    dsimp only at herrno
    omega
  | opened named asked worked le free least =>
    obtain rfl := Int.ofNat.inj hret
    rw [hfile, ← prep.fds]
    exact ⟨_, rfl⟩

end

/-- `sys_close` gives the number back. -/
theorem sysClose_files {fd : Nat} {r ret : Int} {T : Nat → Option Int} (hfd : fd < 256)
    (hnone : T fd = none) (htable : s.fds.table = Function.update T fd (some r))
    (hclose : sysClose host fd s = .ok ret s') : s'.fds.table = T := by
  have hspec : Ends (sysClose host fd) s (fun ret s' => Task.Call host (fun _ _ _ => true)
    (task [] s) (.close fd) ret none (task [] s')) fun _ _ => True :=
    (sysClose_task _ (by omega) (by omega)).mono (fun _ _ h => h) fun _ _ _ => trivial
  have hcall := (ends_of_ok hclose).mp hspec
  have hopen : (task [] s).Has fd r := ⟨by omega, by
    show s.fds.table fd = some r
    rw [htable, Function.update_self]⟩
  generalize hafter : task [] s' = t' at hcall
  have hfile : s'.fds.table = t'.file := congrArg Task.file hafter
  cases hcall with
  | closeClosed closed => exact absurd hopen (closed r)
  | close isOpen asked =>
    rw [hfile]
    show Function.update s.fds.table fd none = T
    rw [htable, Function.update_idem, ← hnone, Function.update_eq_self]

section

variable (prog : ProgramHost host w a rfd content errno pos) (prep : Prepared w args s t)
  (hargs : CommandLine args) (ha : args[0]? = some a) (hpath : PathInPage args)
  (hloads : elfVerdict errno content = .loads)

include prog prep hargs ha hpath hloads

/-- **`sys_execve` up to the arguments**, for a file that loads: it gets there, unless memory
runs out. -/
theorem openAndLoad_loads (hs : AtExecve s (blockLen args) t) (p : Process) :
    Ends (openAndLoad host p (0x201000 + stringAt args 0)) s
      (fun r s₃ => Short (elfCost content) s s₃ ∧ r = .error (-eNOMEM) ∨
        ∃ p', r = .ok p' ∧ p'.loadAddr = loadAddrOf content ∧
          p'.entry = fileField content 24 8 ∧ p'.rsp = 0x7fffffffe000 ∧
          s₃.fds.table = FdMap.static.table ∧
          ∃ s₀ s₂ b blocks leaf, Entered args content s s₀ s₂ b blocks leaf ∧
            Stores (fun _ => False) s₂ s₃)
      fun _ s₃ => Short (elfCost content) s s₃ := by
  obtain ⟨s₁, hopen, h₁⟩ := sysOpen_program prep hargs ha hpath prog.opened.2 prog.opened.1
  obtain ⟨r, hfiles⟩ := sysOpen_files prog prep hargs ha hpath hopen
  have hroom := ((ends_of_ok hopen).mp (hs.sysOpen_neutral host _)).room_le hs.rep
  have hshort : ∀ {s'}, Short (elfCost content) s₁ s' → Short (elfCost content) s s' := fun h =>
    ⟨h.refused, Nat.lt_of_le_of_lt hroom h.room⟩
  have hload := loadBinary_spec prog.file h₁.rep.inv (.inl h₁.last) h₁.opened
    (h₁.world ▸ prog.start) p
  have hkeeps := loadBinary_keeps host 3 p s₁
  rw [hloads] at hload
  rw [openAndLoad, ends_bind_of_ok hopen, if_neg (by decide)]
  cases hrun : loadBinary host 3 p s₁ with
  | error e s₂ =>
    rw [ends_bind_of_error hrun]
    rcases (ends_of_error hrun).mp hload with h | ⟨-, h⟩
    · exact hshort h
    · cases h
  | ok ret s₂ =>
    obtain ⟨ret, p₂⟩ := ret
    rw [ends_bind_of_ok hrun]
    rcases (ends_of_ok hrun).mp hload with ⟨h, hret⟩ | ⟨-, hends⟩
    · dsimp only at hret ⊢
      rw [hret, if_pos (by decide), ends_pure]
      exact .inl ⟨hshort h, rfl⟩
    · cases hends with
      | loads h =>
        obtain ⟨⟨blocks, leaf, s₀, b, hhead, hlaid⟩, -, haddr, hentry, hrsp⟩ := h
        obtain ⟨ret, s₃, hclose, hst⟩ := hypercall_close prog (ofInt 3) s₂
        have hsame : s₂.fds.table = s₁.fds.table := (ends_of_ok hrun).mp hkeeps
        have hfiles₃ : s₃.fds.table = FdMap.static.table :=
          sysClose_files (show 3 < 256 by decide) (by decide) (hsame.trans hfiles) hclose
        dsimp only
        rw [if_neg (by decide), sysClose, ends_bind_of_ok hclose, ends_pure]
        refine .inr ⟨p₂, rfl, haddr, hentry, hrsp, hfiles₃, s₀, s₂, b, blocks, leaf,
          ⟨hhead.inv, fun x hx => ?_, ?_, ?_, hlaid⟩, hst⟩
        · exact (hhead.kept x hx).trans (h₁.kept x hx)
        · exact hhead.handed.trans h₁.handed
        · exact hroom.trans hhead.room

end

/-! ## All of it -/

/-- How the start may end, for a file that can be loaded. -/
inductive LaunchEnds (args : List (List UInt8)) (content : List UInt8) :
    EStateM.Result Stop (Sys σ) Launch → Prop
  | started {entry rsp : Nat} {s : Sys σ} {blocks : List Extent} {leaf : Nat → Nat}
      (fits : blockLen args ≤ 0x1000) (ready : ProgramReady args content s entry rsp)
      (place : InPlace s blocks leaf) : LaunchEnds args content (.ok (.started entry rsp) s)
  | tooLong {s : Sys σ} (long : 0x1000 < blockLen args) :
      LaunchEnds args content (.ok (.failed (-eFAULT)) s)
  | noMemory {s : Sys σ} (refused : s.refused = true) (large : 0x1f0000 < elfCost content) :
      LaunchEnds args content (.ok (.failed (-eNOMEM)) s)
  | stopped {e : Stop} {s : Sys σ} (refused : s.refused = true)
      (large : 0x1f0000 < elfCost content) : LaunchEnds args content (.error e s)

theorem InPlace.walk_none (h : InPlace s blocks leaf) {v : Nat} (hv : Outside v)
    (hleaf : leaf (v / 0x1000) = 0) (u w : Bool) : translateWalk s.mem v u w = none := by
  rw [show translateWalk s.mem v u w = _ from h.inv.walk_user hv u w, hleaf]
  rfl

theorem PageIn.shows {A : Area} {q : Nat} (h : PageIn s blocks leaf A q)
    (inv : KernelInv s.heap blocks leaf) : ShowsPage s.mem A q := by
  intro v hv
  obtain ⟨p, hbyte, -, hwalk⟩ := h.walk inv hv
  exact ⟨p, hbyte, hwalk⟩

/-- The start as a whole, with what the kernel knows of it. -/
theorem launch_ends (prog : ProgramHost host w a rfd content errno pos) (p : Process) {m : Mem}
    (hz : TablesClear m) (hargs : CommandLine args) (ha : args[0]? = some a)
    (hloads : elfVerdict errno content = .loads) (hclear : ClearOfArguments content) :
    LaunchEnds args content (launch host p m w args) := by
  obtain ⟨s, t, hlaunch, prep, hs⟩ := launch_atExecve host p w hz hargs
  have hlarge : ∀ {s' : Sys σ}, Short (elfCost content) s s' → 0x1f0000 < elfCost content :=
    fun h => Nat.lt_of_le_of_lt prep.room h.room
  rw [hlaunch, sysExecve]
  by_cases hpath : PathInPage args
  swap
  · -- the name of the program is not in the page
    have hopen : openAndLoad host p (0x201000 + stringAt args 0) s =
        .ok (.error (-eFAULT)) s := by
      rw [openAndLoad, bind_of_ok (sysOpen_unchecked prep hargs ha hpath), if_pos (by decide)]
      rfl
    rw [bind_of_ok hopen]
    have hle := stringAt_le args 1
    unfold PathInPage at hpath
    exact .tooLong (by omega)
  have hspec := openAndLoad_loads prog prep hargs ha hpath hloads hs p
  cases hopen : openAndLoad host p (0x201000 + stringAt args 0) s with
  | error e s₃ =>
    have hshort := (ends_of_error hopen).mp hspec
    rw [bind_of_error hopen]
    exact .stopped hshort.refused (hlarge hshort)
  | ok r s₃ =>
    rw [bind_of_ok hopen]
    rcases (ends_of_ok hopen).mp hspec with ⟨h, rfl⟩ |
      ⟨p', rfl, haddr, hentry, hrsp, hfiles, s₀, s₂, b, blocks, leaf, h, hst⟩
    · exact .noMemory h.refused (hlarge h)
    rw [enterProgram]
    by_cases hpage : blockLen args ≤ 0x1000
    · obtain ⟨s', hrun, hplace, hroom, hal, hwrite, harr, himage, hrest⟩ :=
        h.createElfInfo prep.block hargs hclear hpage hst hrsp
      rw [bind_of_ok hrun]
      refine .started hpage ⟨?_, hal, ⟨_, harr⟩,
        fun q A hq hA => (himage q A hq hA).shows hplace.inv, ?_, ?_, hwrite, ?_⟩ hplace
      · rw [haddr, hentry]
      · exact fun v hv hne hnone => hplace.walk_none hv (hrest _ hne hnone)
      · rw [(createElfInfo_fds hrun).1, hfiles]
      · have hbefore := prep.room
        have hhead := h.room
        have hlaid := h.laid.room
        have hsame : s₃.room = s₂.room := congrArg Arena.topSize hst.arena
        have hcost : elfCost content = headCost + areasCost (elfAreas content) := rfl
        omega
    · -- some argument is not in the page
      have hmem : s₃.mem = s₂.mem := funext fun x => hst.mem x id
      obtain ⟨tabs, rep₂⟩ := h.inPlace.inv.rep
      have inv₃ : KernelInv s₃.heap blocks leaf := (rep₂.stores hst fun x hx => hx.elim).inv
      have hgap : ∀ q, 0x202 ≤ q → q < 0x205 → leaf q = 0 := fun q h₁ h₂ =>
        (h.leaf_argument hclear (by omega) h₂).trans (Function.update_of_ne (by omega) _ _)
      have hrun := createElfInfo_long (hmem ▸ h.argBlock prep.block) hargs inv₃ (h.leaf_argument
        hclear (by decide) (by decide)) hgap (by omega) hpath p' (0x201000 + args.length * 8)
      rw [bind_of_ok hrun]
      exact .tooLong (by omega)

/-- The host's one file is the program. -/
theorem fileHost_program (content name : List UInt8) :
    ProgramHost (fileHost 0 content) 0 name 0 content 0 id :=
  ⟨fileHost_file 0 content, fileHost_reads 0 content,
    fun w call => (fileHost_errno 0 content w call).2, ⟨Int.le_refl 0, rfl⟩, rfl⟩

theorem helloElf_clear : ClearOfArguments helloElf := by
  have hmap : (elfAreas helloElf).map (fun A => (A.page, A.count)) = [(0x400, 1),
    (0x7ffffffbf, 0x40)] := by decide +kernel
  intro q h₁ h₂ A hA
  have hmem := List.mem_map_of_mem (f := fun A : Area => (A.page, A.count)) hA
  rw [hmap] at hmem
  simp only [List.mem_cons, List.not_mem_nil, or_false, Prod.mk.injEq] at hmem
  unfold Area.Has
  omega

/-- The program at `0x400000` starts. -/
theorem launch_hello :
    ∃ entry rsp s, launch (fileHost 0 helloElf) ⟨0, 0, 0, 0, 0⟩ (fun _ => 0) 0 [[97]] =
      .ok (.started entry rsp) s ∧
    ProgramReady [[97]] helloElf s entry rsp := by
  have hends := launch_ends (fileHost_program helloElf [97]) ⟨0, 0, 0, 0, 0⟩ (m := fun _ => 0)
    (fun _ _ _ => rfl) commandLine_a rfl helloElf_loads helloElf_clear
  have hcost : elfCost helloElf ≤ 0x1f0000 := by decide +kernel
  generalize launch (fileHost 0 helloElf) ⟨0, 0, 0, 0, 0⟩ (fun _ => 0) 0 [[97]] = r at hends ⊢
  cases hends with
  | started fits ready place => exact ⟨_, _, _, rfl, ready⟩
  | tooLong long => exact absurd long (by decide)
  | noMemory refused large => omega
  | stopped refused large => omega

/-- **What the program is given.** For every command line that fits on the kernel's stack beside
the kernel's frames and every file that can be loaded and is clear of the arguments: if the
command line fits in a page, the program starts with its image, its arguments and the standard
files, and otherwise `sys_execve` returns `-EFAULT`, unless the file is so large that the
kernel's memory runs out. -/
theorem launch_delivers (host : Host σ) (w : σ) (a : List UInt8) (rfd : Int)
    (content : List UInt8) (errno : Int) (pos : σ → Nat)
    (prog : ProgramHost host w a rfd content errno pos) (p : Process) (m : Mem)
    (hz : TablesClear m) (args : List (List UInt8)) (hargs : CommandLine args)
    (ha : args[0]? = some a) (hloads : elfVerdict errno content = .loads)
    (hclear : ClearOfArguments content) :
    (blockLen args ≤ 0x1000 ∧
        ∃ entry rsp s, launch host p m w args = .ok (.started entry rsp) s ∧
          ProgramReady args content s entry rsp) ∨
      (0x1000 < blockLen args ∧ ∃ s, launch host p m w args = .ok (.failed (-eFAULT)) s) ∨
      (0x1f0000 < elfCost content ∧ ∃ s : Sys σ, s.refused = true ∧
        (launch host p m w args = .ok (.failed (-eNOMEM)) s ∨
          ∃ e, launch host p m w args = .error e s)) := by
  have hends := launch_ends prog p hz hargs ha hloads hclear
  generalize launch host p m w args = r at hends ⊢
  cases hends with
  | started fits ready place => exact .inl ⟨fits, _, _, _, rfl, ready⟩
  | tooLong long => exact .inr (.inl ⟨long, _, rfl⟩)
  | noMemory refused large => exact .inr (.inr ⟨large, _, refused, .inl rfl⟩)
  | stopped refused large => exact .inr (.inr ⟨large, _, refused, .inr ⟨_, rfl⟩⟩)

/-- The program at `0x400000`, with its name for a command line. -/
theorem launch_delivers_hello :
    ∃ entry rsp s, launch (fileHost 0 helloElf) ⟨0, 0, 0, 0, 0⟩ (fun _ => 0) 0 [[97]] =
      .ok (.started entry rsp) s ∧
      ProgramReady [[97]] helloElf s entry rsp := by
  have h := launch_delivers (fileHost 0 helloElf) 0 [97] 0 helloElf 0 id (fileHost_program _ _)
    ⟨0, 0, 0, 0, 0⟩ (fun _ => 0) (fun _ _ _ => rfl)
    [[97]] commandLine_a rfl helloElf_loads helloElf_clear
  have hcost : elfCost helloElf ≤ 0x1f0000 := by decide +kernel
  rcases h with ⟨-, h⟩ | ⟨hlong, -⟩ | ⟨hlarge, -⟩
  · exact h
  · exact absurd hlong (by decide)
  · omega

end BpfExamples.Kvm
