import BpfExamples.Kvm.ElfStack
import BpfExamples.Kvm.Program

/-!
# The initial stack of a program (`kernel/syscalls/sys_execve.c`)

`create_elf_info` counts two arrays of user strings and builds the stack of the program from
them. What the program finds there, reading from its `rsp` on, is `Arranged`: `argc`, the
pointers of both arrays with their null pointers, and the strings, all apart from one another.

The result is the right one whether or not `kmalloc` has a block for the pointers. Without one
they are collected at the null pointer, which is the first byte of the kernel's own memory
(`createElfInfo_stack_iff`).
-/

namespace BpfExamples.Kvm

open Mem

variable {σ : Type} {s s' : Sys σ} {m : Mem} {used blocks : List Extent} {leaf : Nat → Nat}
  {st : Extent} {args envs : List (List UInt8)} {a : List UInt8} {v x : Nat} {b : UInt8}

/-! ## The user's arrays -/

/-- The user reads the byte `b` at `v`. -/
def UserSees (m : Mem) (v : Nat) (b : UInt8) : Prop := userRead m v = some b

/-- The same for an address that exists, and the byte is in one of the blocks. -/
def UserHolds (m : Mem) (blocks : List Extent) (v : Nat) (b : UInt8) : Prop :=
  v < 2 ^ 47 ∧ userRead m v = some b ∧ ∀ p, translateWalk m v true false = some p →
    Payload blocks (kernelBaseOffset + p)

theorem UserHolds.holds (inv : KernelInv s.heap used leaf) (v : Nat) (b : UInt8)
    (h : UserHolds s.mem blocks v b) : Holds leaf blocks s.mem v b := by
  obtain ⟨hv, hread, hpay⟩ := h
  obtain ⟨p, hp, hc, hb⟩ := userRead_cell hv hread
  exact ⟨_, (inv.cellAt_eq false v).symm.trans hc, hpay p hp, hb⟩

theorem UserHolds.frame {used' blocks' : List Extent} (inv : KernelInv s.heap used leaf)
    (inv' : KernelInv s'.heap used' leaf) (hm : ∀ x, Payload blocks x → s'.mem x = s.mem x)
    (hsub : blocks ⊆ blocks') (v : Nat) (b : UInt8) (h : UserHolds s.mem blocks v b) :
    UserHolds s'.mem blocks' v b := by
  obtain ⟨hv, hread, hpay⟩ := h
  unfold userRead at hread
  split at hread
  swap
  · cases hread
  next hr =>
  have hwalk : translateWalk s'.mem v true false = translateWalk s.mem v true false :=
    (inv'.walk_user (userMemRangeOk_iff.mp hr) true false).trans
    (inv.walk_user (userMemRangeOk_iff.mp hr) true false).symm
  obtain ⟨p, hp, rfl⟩ := Option.map_eq_some_iff.mp hread
  refine ⟨hv, ?_, fun q hq => ?_⟩
  · rw [userRead, if_pos hr, hwalk, hp, Option.map_some, hm _ (hpay p hp)]
  · obtain ⟨e, he, hin⟩ := hpay q (hwalk ▸ hq)
    exact ⟨e, hsub he, hin⟩

theorem UserHolds.mapped (h : UserHolds m blocks v b) :
    userMemRangeOk v = true ∧ UserMapped m false v := by
  obtain ⟨hv, hread, -⟩ := h
  unfold userRead at hread
  split at hread
  · next hr =>
    obtain ⟨p, hp, -⟩ := Option.map_eq_some_iff.mp hread
    exact ⟨hr, p, hp⟩
  · cases hread

/-- A word of the user's passes `access_ok`. -/
theorem ShowsWord.accessOk (h : ShowsWord (UserHolds m blocks) v x) :
    accessOk m false v 8 = true := by
  have hlast := h.2 7 (by decide)
  have hlt := hlast.1
  refine (accessOk_straight (by decide) (by omega)).mpr ⟨(h.2 0 (by decide)).mapped.1,
    hlast.mapped.1, fun j hj => ?_⟩
  exact (h.2 j hj).mapped.2

/-- A string of the user's passes `access_string_ok`. -/
theorem ShowsString.accessStringOk (h : ShowsString (UserHolds s.mem blocks) v a)
    (hnz : 0 ∉ a) : accessStringOk v s = .ok true s := by
  have hstr : IsString s.mem v a.length :=
    ⟨fun j hj => ⟨_, (h.byte hj).2.1, getD_ne_zero hnz hj⟩, h.zero.2.1⟩
  obtain ⟨b, hrun, hb⟩ := accessStringOk_iff.mpr fun d hd => by
    have hle := hstr.le_of_nonZero hd.1
    have := h.zero.1
    omega
  rw [hrun, hb.mpr ⟨_, hstr⟩]

theorem ShowsArray.word {H : Nat → UInt8 → Prop} {ary : Nat} {l : List (List UInt8)}
    (h : ShowsArray H ary l) {i : Nat} (hi : i ≤ l.length) :
    ∃ p, ShowsWord H (ary + 8 * i) p := by
  by_cases hlt : i < l.length
  · obtain ⟨-, p, -, hword, -⟩ := h.entry i _ (List.getElem?_eq_getElem hlt)
    exact ⟨p, hword⟩
  · obtain rfl : i = l.length := by omega
    exact ⟨0, h.null⟩

section

variable {ary : Nat} {l : List (List UInt8)} (inv : KernelInv s.heap used leaf)
  (h : ShowsArray (UserHolds s.mem blocks) ary l) (hcount : l.length < 2 ^ 31)

include inv h hcount

/-- The loop of `check_and_get_count`, with `k` strings to go. -/
theorem checkCountFrom_spec (k : Nat) : ∀ i fuel, i + k = l.length → k < fuel →
    checkCountFrom fuel (ary + 8 * i) i s = .ok (l.length : Int) s := by
  induction k with
  | zero =>
    rintro i (_ | fuel) hi hfuel
    · omega
    · obtain rfl : i = l.length := by omega
      have hpeek := (h.null.mono (UserHolds.holds inv)).peekLE inv
      rw [checkCountFrom, bind_of_ok hpeek, if_pos rfl]
      exact congrArg (EStateM.Result.ok · s) (toInt32_of_lt hcount)
  | succ k ih =>
    rintro i (_ | fuel) hi hfuel
    · omega
    · obtain ⟨hnz, p, hp, hword, hstr⟩ :=
        h.entry i _ (List.getElem?_eq_getElem (show i < l.length by omega))
      obtain ⟨q, hnext⟩ := h.word (show i + 1 ≤ l.length by omega)
      have hlast := (hnext.2 0 (by decide)).1
      have haddr : (ary + 8 * i + 8) % 2 ^ 64 = ary + 8 * (i + 1) := by omega
      have hpeek := (hword.mono (UserHolds.holds inv)).peekLE inv
      have hok : onMem (fun m => accessOk m false (ary + 8 * (i + 1)) 8) s = .ok true s :=
        congrArg (EStateM.Result.ok · s) hnext.accessOk
      rw [checkCountFrom, bind_of_ok hpeek, if_neg hp, bind_of_ok (hstr.accessStringOk hnz),
        if_neg (by decide), haddr, bind_of_ok hok, if_neg (by decide)]
      exact ih (i + 1) fuel (by omega) (by omega)

/-- **`check_and_get_count`** counts the strings. -/
theorem checkAndGetCount_spec : checkAndGetCount ary s = .ok (l.length : Int) s := by
  obtain ⟨q, hfirst⟩ := h.word (Nat.zero_le _)
  have hok : onMem (fun m => accessOk m false ary 8) s = .ok true s :=
    congrArg (EStateM.Result.ok · s) hfirst.accessOk
  rw [checkAndGetCount, bind_of_ok hok, if_neg (by decide)]
  exact checkCountFrom_spec inv h hcount l.length 0 _ (Nat.zero_add _) (by omega)

end

/-! ## The user's stack -/

/-- The pages of the stack lead into the block `st`, and may be read and written. -/
structure StackMapped (leaf : Nat → Nat) (st : Extent) : Prop where
  aligned : (st.addr + 16) % 0x1000 = 0
  size : 0x1000 * stackArea.count + 16 ≤ st.size
  leaf : ∀ q, stackArea.Has q →
    leaf q = leafWord (st.addr + 16 + 0x1000 * (q - stackArea.page)) stackArea.prot

theorem KernelInv.stackCell_window (inv : KernelInv s.heap used leaf) (hst : st ∈ used)
    (v : Nat) : 0x8000000000 + (stackCell st v - 0x8000000000) = stackCell st v := by
  have hb := inv.bounds hst
  unfold stackCell
  omega

namespace StackMapped

variable (h : StackMapped leaf st) (inv : KernelInv s.heap used leaf) (hst : st ∈ used)

include h inv hst

theorem walk (h₁ : 0x7ffffffbf000 ≤ v) (h₂ : v < 0x7ffffffff000) (u w : Bool) :
    translateWalk s.mem v u w = some (stackCell st v - 0x8000000000) := by
  have hall : (u = true → hasFlag stackArea.prot protR = true) ∧
    (w = true → hasFlag stackArea.prot protW = true) := ⟨fun _ => by decide, fun _ => by decide⟩
  have hlo : 0x1000 * stackArea.page = 0x7ffffffbf000 := by decide
  have hhi : 0x1000 * (stackArea.page + stackArea.count) = 0x7ffffffff000 := by decide
  rw [area_walk inv hst h.aligned h.size h.leaf (show InUser _ _ by decide) (hlo ▸ h₁)
    (hhi ▸ h₂) u w, if_pos hall, hlo]
  rfl

theorem stackIn : StackIn leaf st := by
  refine ⟨fun v w h₁ h₂ => ?_, h.size⟩
  have hr : userMemRangeOk v = true := userMemRangeOk_iff.mpr ⟨by omega, by omega, by omega⟩
  have hcell : cellAt s.mem w v = some (stackCell st v) := by
    rw [cellAt, kernelSpace_user hr]
    show (if v < 2 ^ 47 then (translateWalk s.mem v false w).map (0x8000000000 + ·)
      else none) = _
    rw [if_pos (by omega), h.walk inv hst h₁ h₂, Option.map_some, inv.stackCell_window hst]
  exact (inv.cellAt_eq w v).symm.trans hcell

/-- What the user reads on the stack. -/
theorem sees (h₁ : 0x7ffffffbf000 ≤ v) (h₂ : v < 0x7ffffffff000) :
    UserSees s.mem v (s.mem (stackCell st v)) := by
  have hr : userMemRangeOk v = true := userMemRangeOk_iff.mpr ⟨by omega, by omega, by omega⟩
  show (if userMemRangeOk v then (translateWalk s.mem v true false).map fun p =>
    s.mem (0x8000000000 + p) else none) = _
  rw [if_pos hr, h.walk inv hst h₁ h₂, Option.map_some, inv.stackCell_window hst]

theorem seesWord (h₁ : 0x7ffffffbf000 ≤ v) (h₂ : v + 8 ≤ 0x7ffffffff000)
    (hx : load64 s.mem (stackCell st v) = x) : ShowsWord (UserSees s.mem) v x := by
  refine ⟨hx ▸ load64_lt _ _, fun j hj => ?_⟩
  have hsees := h.sees inv hst (v := v + j) (by omega) (by omega)
  rwa [stackCell_add h₁, loadLE_byte s.mem 8 _ hj, ← load64, hx] at hsees

end StackMapped

/-- What the program finds, reading from `rsp` on: `argc`, the pointers of both arrays with a
null pointer behind each, and behind the pointers the strings, that of number `i` at
`place i`. -/
structure Arranged (m : Mem) (rsp : Nat) (args envs : List (List UInt8)) (place : Nat → Nat) :
    Prop where
  low : 0x7ffffffff000 - 0x40000 ≤ rsp
  argc : ShowsWord (UserSees m) rsp args.length
  argv : ∀ i, i < args.length → ShowsWord (UserSees m) (rsp + 8 * (1 + i)) (place i)
  argvEnd : ShowsWord (UserSees m) (rsp + 8 * (1 + args.length)) 0
  envp : ∀ i, i < envs.length → ShowsWord (UserSees m) (rsp + 8 * (2 + args.length + i))
    (place (args.length + i))
  envpEnd : ShowsWord (UserSees m) (rsp + 8 * (2 + args.length + envs.length)) 0
  string : ∀ i a, (args ++ envs)[i]? = some a → ShowsString (UserSees m) (place i) a
  inside : ∀ i a, (args ++ envs)[i]? = some a →
    rsp + 8 * (3 + args.length + envs.length) ≤ place i ∧
      place i + (a.length + 1) ≤ 0x7ffffffff000
  apart : ∀ i j a b, i < j → (args ++ envs)[i]? = some a → (args ++ envs)[j]? = some b →
    place i + (a.length + 1) ≤ place j ∨ place j + (b.length + 1) ≤ place i

theorem OnStack.arranged (h : OnStack s.mem st args envs) (hst : StackMapped leaf st)
    (inv : KernelInv s.heap (st :: blocks) leaf) (hfits : FitsStack (args ++ envs))
    (hargc : load64 s.mem (stackCell st (elfRsp (args ++ envs))) = args.length) :
    Arranged s.mem (elfRsp (args ++ envs)) args envs (pushedAt (args ++ envs)) := by
  have hlen : (args ++ envs).length = args.length + envs.length := List.length_append
  have hlay := hfits.layout
  have hbelow := hlay.below
  have htop := pushedAt_le (args ++ envs) 0
  have hlow : 0x7ffffffbf000 ≤ elfRsp (args ++ envs) := hfits
  have hword : ∀ j, j < (args ++ envs).length + 2 → ShowsWord (UserSees s.mem)
      (elfRsp (args ++ envs) + 8 * (1 + j)) (stackWord args envs j) := fun j hj => by
    refine hst.seesWord inv List.mem_cons_self (by omega) (by omega) ?_
    rw [show elfRsp (args ++ envs) + 8 * (1 + j) = elfRsp (args ++ envs) + 8 + 8 * j by omega]
    exact h.words j hj
  have hplace : ∀ i a, (args ++ envs)[i]? = some a → pushedAt (args ++ envs) 0 ≤ pushedAt
      (args ++ envs) i ∧ pushedAt (args ++ envs) i + (a.length + 1) ≤ 0x7fffffffe000 := by
    intro i a ha
    have hnext := pushedAt_succ ha hlay.strings
    have hle := pushedAt_le (args ++ envs) (i + 1)
    exact ⟨pushedAt_mono _ (Nat.zero_le i), by omega⟩
  refine ⟨hlow, hst.seesWord inv List.mem_cons_self hlow (by omega) hargc,
    fun i hi => ?_, ?_, fun i hi => ?_, ?_, fun i a ha j b hb => ?_, fun i a ha => ?_,
    fun i j a b hij ha hb => .inl ?_⟩
  · have := hword i (by omega)
    rwa [stackWord, if_pos hi] at this
  · have := hword args.length (by omega)
    rwa [stackWord, if_neg (Nat.lt_irrefl _), if_neg (by omega)] at this
  · have := hword (args.length + 1 + i) (by omega)
    rwa [stackWord, if_neg (by omega),
      if_pos (by omega), show args.length + 1 + i - 1 = args.length + i by omega,
      show 1 + (args.length + 1 + i) = 2 + args.length + i by omega] at this
  · have := hword (args.length + envs.length + 1) (by omega)
    rwa [stackWord, if_neg (by omega), if_neg (by omega),
      show 1 + (args.length + envs.length + 1) = 2 + args.length + envs.length by omega] at this
  · have hp := hplace i a ha
    have hj := (List.getElem?_eq_some_iff.mp hb).1
    rw [List.length_append, List.length_singleton] at hj
    have hsees := hst.sees inv List.mem_cons_self (v := pushedAt (args ++ envs) i + j)
      (by omega) (by omega)
    rwa [h.strings i a ha j b hb] at hsees
  · have hp := hplace i a ha
    omega
  · have hnext := pushedAt_succ ha hlay.strings
    have := pushedAt_mono (args ++ envs) (show i + 1 ≤ j by omega)
    omega

/-! ## `create_elf_info` -/

/-- The state in which `create_elf_info` is called: the stack is mapped, and the arrays are the
user's and not on the stack. -/
structure AtElfInfo (s : Sys σ) (blocks : List Extent) (leaf : Nat → Nat) (st : Extent)
    (argv envp : Nat) (args envs : List (List UInt8)) : Prop where
  inv : KernelInv s.heap (st :: blocks) leaf
  stack : StackMapped leaf st
  argv : ShowsArray (UserHolds s.mem blocks) argv args
  envp : ShowsArray (UserHolds s.mem blocks) envp envs
  fits : FitsStack (args ++ envs)

/-- The words that are collected for the program. -/
def Pointers (m : Mem) (c : Nat) (args envs : List (List UInt8)) : Prop :=
  ∀ j, j < args.length + envs.length + 2 → load64 m (c + 8 * j) = stackWord args envs j

theorem KernelRep.ownCell_iff {h : Heap} {tabs : List Extent}
    (rep : KernelRep h tabs blocks leaf) :
    OwnCell (liveChunks h) x ↔ OwnCell (tabs ++ blocks) x := by
  simp only [OwnCell, rep.mem_liveChunks]

/-- **`create_elf_info`** for arrays that fit. -/
theorem AtElfInfo.createElfInfo {argv envp : Nat}
    (h : AtElfInfo s blocks leaf st argv envp args envs) {p : Process}
    (hrsp : p.rsp = 0x7fffffffe000) :
    ∃ s', createElfInfo p argv envp s = .ok (0, { p with rsp := elfRsp (args ++ envs) }) s' ∧
      KernelInv s'.heap (st :: blocks) leaf ∧ s.room ≤ s'.room ∧
      Arranged s'.mem (elfRsp (args ++ envs)) args envs (pushedAt (args ++ envs)) ∧
      ((Serves s ((args.length + envs.length + 2) * 8) mallocNoAlign ∧
        ∀ x, ¬ (st.addr + 16 ≤ x ∧ x < st.addr + 16 + 0x40000) →
          ¬ OwnCell (liveChunks s.heap) x → s'.mem x = s.mem x) ∨
      (¬ Serves s ((args.length + envs.length + 2) * 8) mallocNoAlign ∧
        Pointers s'.mem 0x8000000000 args envs ∧
        ∀ x, ¬ (st.addr + 16 ≤ x ∧ x < st.addr + 16 + 0x40000) →
          ¬ OwnCell (liveChunks s.heap) x →
          x < 0x8000000000 ∨ 0x8000000000 + 8 * (args.length + envs.length + 2) ≤ x →
            s'.mem x = s.mem x)) := by
  obtain ⟨tabs, rep⟩ := h.inv.rep
  have hlen : (args ++ envs).length = args.length + envs.length := List.length_append
  have hwords := h.fits.layout.words
  have hargc := checkAndGetCount_spec h.inv h.argv (by omega)
  have henvc := checkAndGetCount_spec h.inv h.envp (by omega)
  obtain ⟨s', hrun, rep', htop, hon, hword, hcases⟩ := pushElfInfo_spec
    (h.stack.stackIn h.inv List.mem_cons_self) rep h.fits (h.argv.mono (UserHolds.holds h.inv))
    (h.envp.mono (UserHolds.holds h.inv))
  have hstack : ∀ x, ¬ (st.addr + 16 ≤ x ∧ x < st.addr + 16 + 0x40000) → ¬ StackCells st
    (elfRsp (args ++ envs)) 0x7fffffffe000 x := fun x hx hin => hx (hin.bounds (by decide))
  rw [hlen] at hcases
  refine ⟨s', ?_, rep'.inv, rep.room_of_top rep' htop,
    hon.arranged h.stack rep'.inv h.fits hword, hcases.imp ?_ ?_⟩
  · rw [Kvm.createElfInfo, bind_of_ok hargc, if_neg (by omega), bind_of_ok henvc,
      if_neg (by omega), hrsp, Int.toNat_natCast, Int.toNat_natCast, bind_of_ok hrun]
    rfl
  · rintro ⟨hserves, hframe⟩
    exact ⟨hserves, fun x hx hown => hframe x (hstack x hx) fun h =>
      hown (rep.ownCell_iff.mpr h)⟩
  · rintro ⟨hno, hlow, hframe⟩
    exact ⟨hno, hlow, fun x hx hown hout => hframe x (hstack x hx)
      (fun h => hown (rep.ownCell_iff.mpr h)) hout⟩

/-! ## Two states -/

theorem getD_of_terminated {j : Nat} (h : (a ++ [0])[j]? = some b) : a.getD j 0 = b := by
  rw [List.getD_eq_getElem?_getD]
  by_cases hj : j < a.length
  · rw [List.getElem?_append_left hj] at h
    rw [h, Option.getD_some]
  · have hlt := (List.getElem?_eq_some_iff.mp h).1
    rw [List.length_append, List.length_singleton] at hlt
    obtain rfl : j = a.length := by omega
    rw [List.getElem?_concat_length] at h
    rw [List.getElem?_eq_none (Nat.le_refl _), Option.getD_none]
    exact Option.some.inj h

/-- The command line in the page of the arguments, as the user finds it; the environment is its
null pointer. -/
theorem ArgBlock.shows (hblock : ArgBlock s.mem 0x8000201000 0x201000 args)
    (hargs : ∀ a ∈ args, 0 ∉ a) (hpage : blockLen args ≤ 0x1000)
    (inv : KernelInv s.heap used leaf) (hleaf : leaf 0x201 = leafWord 0x201000 protRW)
    (hmem : argumentBlock (blockLen args) ∈ blocks) :
    ShowsArray (UserHolds s.mem blocks) 0x201000 args ∧
      ShowsArray (UserHolds s.mem blocks) (0x201000 + 8 * args.length) [] := by
  have hbyte : ∀ i, i < blockLen args → UserHolds s.mem blocks (0x201000 + i)
      (s.mem (0x8000201000 + i)) := by
    intro i hi
    have hout : Outside (0x201000 + i) := ⟨by omega, by omega, by omega⟩
    have hv : (0x201000 + i) / 0x1000 = 0x201 := by omega
    have hwalk : translateWalk s.mem (0x201000 + i) true false = some (0x201000 + i) := by
      rw [show translateWalk s.mem _ _ _ = _ from inv.walk_user hout true false, hv, hleaf,
        leafTranslate_argument hv]
    refine ⟨by omega, ?_, fun p hp => ?_⟩
    · rw [userRead, if_pos (userMemRangeOk_iff.mpr hout), hwalk,
        Option.map_some, ← Nat.add_assoc]
      rfl
    · obtain rfl : 0x201000 + i = p := Option.some.inj (hwalk.symm.trans hp)
      obtain ⟨e, he, hin⟩ := argument_payload hi
      rw [List.mem_singleton.mp he] at hin
      refine ⟨_, hmem, ?_⟩
      rwa [← Nat.add_assoc]
  have hge := blockLen_ge args
  have hword : ∀ i x, i ≤ args.length → load64 s.mem (0x8000201000 + 8 * i) = x →
      ShowsWord (UserHolds s.mem blocks) (0x201000 + 8 * i) x := by
    intro i x hi hx
    refine ⟨hx ▸ load64_lt _ _, fun j hj => ?_⟩
    have h := hbyte (8 * i + j) (by omega)
    rwa [← Nat.add_assoc, ← Nat.add_assoc, loadLE_byte s.mem 8 _ hj, ← load64, hx] at h
  refine ⟨⟨fun i a ha => ?_, hword _ 0 (Nat.le_refl _) hblock.null⟩,
    fun _ _ ha => absurd ha (by simp), hword _ 0 (Nat.le_refl _) hblock.null⟩
  have hi := (List.getElem?_eq_some_iff.mp ha).1
  refine ⟨hargs a (List.mem_of_getElem? ha), 0x201000 + stringAt args i, by omega,
    hword i _ (by omega) (hblock.pointer i hi), fun j b hb => ?_⟩
  have h₁ := stringAt_succ ha
  have h₂ := stringAt_le args (i + 1)
  have hj := (List.getElem?_eq_some_iff.mp hb).1
  rw [List.length_append, List.length_singleton] at hj
  have h := hbyte (stringAt args i + j) (by omega)
  rwa [← Nat.add_assoc, ← Nat.add_assoc, hblock.byte i a ha j (by omega),
    getD_of_terminated hb] at h

/-- A kernel that has the command line `a` and the stack. -/
theorem exists_atElfInfo :
    ∃ (s : Sys Nat) (blocks : List Extent) (leaf : Nat → Nat) (st : Extent),
    AtElfInfo s blocks leaf st 0x201000 0x201008 [[97]] [] ∧ 0x20000 ≤ s.room := by
  obtain ⟨s₀, t, -, prep, -⟩ := launch_prepared (fileHost 0 []) ⟨0, 0, 0, 0, 0⟩ 0 (m :=
    fun _ => 0) (fun _ _ _ => rfl) commandLine_a
  have hroom := prep.room
  have hcost : areaCost 0x40 ≤ 0x1d0000 := by decide
  have hspec := setUpStack_spec prep.rep.inv (.inl prep.last) ⟨0, 0, 0, 0, 0⟩
  have hshort : ∀ {s'}, ¬ Short (areaCost 0x40) s₀ s' := fun h => by
    have := h.room
    omega
  cases hrun : setUpStack ⟨0, 0, 0, 0, 0⟩ s₀ with
  | error e s => exact absurd ((ends_of_error hrun).mp hspec) hshort
  | ok r s =>
    obtain ⟨-, hends⟩ := (ends_of_ok hrun).mp hspec
    obtain ⟨-, ⟨st, hadds⟩, -⟩ := hends.resolve_left fun h => hshort h.1
    have hkept := hadds.room
    have hblock : ArgBlock s.mem 0x8000201000 0x201000 [[97]] :=
      prep.block.copy fun i hi => hadds.kept _ (argument_payload hi)
    have hleaf : stackArea.leaves argumentLeaf (st.addr + 16) 0x201 =
      leafWord 0x201000 protRW := Area.leaves_of_not_has (fun h => absurd h.1 (by decide)) _ _
    obtain ⟨hargv, henvp⟩ :=
      hblock.shows commandLine_a.strings (by decide) hadds.inv hleaf List.mem_cons_self
    refine ⟨s, _, _, st, ⟨hadds.inv, ⟨hadds.aligned, hadds.fits, fun q hq => ?_⟩, hargv,
      henvp, by decide⟩, ?_⟩
    · exact Area.leaves_of_has hq _ _
    · have hcount : stackArea.count = 0x40 := rfl
      rw [hcount] at hkept
      omega

theorem KernelRep.sum_size_le {h : Heap} {tabs : List Extent}
    (rep : KernelRep h tabs blocks leaf) : (blocks.map Extent.size).sum ≤ 0x200000 := by
  obtain ⟨bin, T, inv, -⟩ := rep
  have hsum := inv.heap.freeTotal_eq
  have hlen : kernelSpan.len = 0x200000 := rfl
  rw [List.map_append, List.sum_append] at hsum
  omega

/-- Requests that are served use the memory up in the end. -/
theorem KernelRep.exhaust {tabs : List Extent} {len : Nat} (hlen : len ≤ 0x200000) (n : Nat) :
    ∀ {s : Sys σ} {blocks : List Extent}, 0x200000 < (blocks.map Extent.size).sum + n →
      KernelRep s.heap tabs blocks leaf →
      ∃ s' more, KernelRep s'.heap tabs (more ++ blocks) leaf ∧ ¬ Serves s' len mallocNoAlign ∧
        Local (OwnCell (tabs ++ blocks)) s s' := by
  induction n with
  | zero =>
    intro s blocks hn rep
    have := rep.sum_size_le
    omega
  | succ n ih =>
    intro s blocks hn rep
    rcases doKmalloc_small rep (.inl rfl) hlen with ⟨-, c, s₁, -, ht⟩ | ⟨hno, -⟩
    · have hpos := (ht.alloc.rep.inv.bounds (e := c) List.mem_cons_self).2.2
      obtain ⟨s', more, rep', hno, hloc⟩ :=
        ih (by rw [List.map_cons, List.sum_cons]; omega) ht.alloc.rep
      refine ⟨s', more ++ [c], by rwa [List.append_assoc], hno,
        ht.toLocal.trans (hloc.mono fun x hx => ?_)⟩
      exact ⟨hx.1, hx.2.1,
        fun e he => hx.2.2 e (List.perm_middle.symm.subset (List.mem_cons_of_mem c he))⟩
    · exact ⟨s, [], rep, hno, Local.refl _ s⟩

/-- `create_elf_info` has built the stack, and has written to nothing but the stack and the
memory that the heap has not given out. -/
def StackBuilt (s : Sys σ) (st : Extent) (args envs : List (List UInt8)) :
    EStateM.Result Stop (Sys σ) (Int × Process) → Prop
  | .ok (ret, p) s' => ret = 0 ∧ p.rsp % 16 = 0 ∧
    (∃ place, Arranged s'.mem p.rsp args envs place) ∧
      ∀ x, ¬ (st.addr + 16 ≤ x ∧ x < st.addr + 16 + 0x40000) → ¬ OwnCell (liveChunks s.heap) x →
        s'.mem x = s.mem x
  | .error _ _ => False

/-- **The initial stack decodes to the arguments**, and nothing else has changed, exactly where
`kmalloc` has a block for the pointers, or else the kernel's memory begins with the very
pointers that are written over it. -/
theorem createElfInfo_stack_iff (s : Sys σ) (p : Process) (argv envp : Nat)
    (args envs : List (List UInt8)) (blocks : List Extent) (leaf : Nat → Nat) (st : Extent)
    (h : AtElfInfo s blocks leaf st argv envp args envs)
    (hrsp : p.rsp = 0x7ffffffff000 - 0x1000) :
    StackBuilt s st args envs (createElfInfo p argv envp s) ↔
      Serves s ((args.length + envs.length + 2) * 8) mallocNoAlign ∨
        Pointers s.mem 0x8000000000 args envs := by
  obtain ⟨s', hrun, -, -, harr, hcases⟩ := h.createElfInfo hrsp
  have hst := h.inv.bounds (e := st) List.mem_cons_self
  have hlen : (args ++ envs).length = args.length + envs.length := List.length_append
  have hlay := h.fits.layout
  have hwords := hlay.words
  have hbuilt : StackBuilt s st args envs (createElfInfo p argv envp s) ↔
      ∀ x, ¬ (st.addr + 16 ≤ x ∧ x < st.addr + 16 + 0x40000) → ¬ OwnCell (liveChunks s.heap) x →
      s'.mem x = s.mem x := by
    rw [hrun]
    exact ⟨fun h => h.2.2.2, fun hframe => ⟨rfl, hlay.aligned, ⟨_, harr⟩, hframe⟩⟩
  rw [hbuilt]
  rcases hcases with ⟨hserves, hframe⟩ | ⟨hno, hlow, hframe⟩
  · exact iff_of_true hframe (.inl hserves)
  · rw [or_iff_right hno]
    constructor
    · intro hall j hj
      rw [← hlow j hj]
      refine (load64_congr fun x h₁ h₂ => hall x ?_ fun hown => ?_).symm
      · omega
      · have := hown.1
        omega
    · intro hthere x hx hown
      by_cases hin : 0x8000000000 ≤ x ∧ x < 0x8000000000 + 8 * (args.length + envs.length + 2)
      · have hj : (x - 0x8000000000) / 8 < args.length + envs.length + 2 := by omega
        refine eq_of_load64_eq ((hlow _ hj).trans (hthere _ hj).symm) ?_ ?_ <;> omega
      · exact hframe x hx hown (by omega)

/-- With a heap that has memory. -/
theorem createElfInfo_stack_a :
    ∃ (s : Sys Nat) (blocks : List Extent) (leaf : Nat → Nat) (st : Extent),
    AtElfInfo s blocks leaf st 0x201000 0x201008 [[97]] [] ∧
      StackBuilt s st [[97]] []
        (createElfInfo ⟨0, 0, 0, 0, 0x7fffffffe000⟩ 0x201000 0x201008 s) := by
  obtain ⟨s, blocks, leaf, st, h, hroom⟩ := exists_atElfInfo
  obtain ⟨tabs, rep⟩ := h.inv.rep
  have hserves : Serves s 24 mallocNoAlign := by
    rcases doKmalloc_small rep (.inl rfl) (show 24 ≤ 0x200000 by decide) with ⟨hserves, -⟩ |
      ⟨-, s', -, hd⟩
    · exact hserves
    · have hshort := hd.short
      have hs : s.room = s.heap.arena.topSize := rfl
      omega
  exact ⟨s, blocks, leaf, st, h, (createElfInfo_stack_iff s ⟨0, 0, 0, 0,
    0x7fffffffe000⟩ _ _ _ _ blocks leaf st h rfl).mpr (.inl hserves)⟩

/-- **Without**: the first word of the kernel's memory, which is zero, becomes the address of
the string `a`. -/
theorem createElfInfo_overwrites_kernel :
    ∃ (s s' : Sys Nat) (blocks : List Extent) (leaf : Nat → Nat) (st : Extent) (p : Process),
    AtElfInfo s blocks leaf st 0x201000 0x201008 [[97]] [] ∧
      createElfInfo ⟨0, 0, 0, 0, 0x7fffffffe000⟩ 0x201000 0x201008 s = .ok (0, p) s' ∧
      load64 s.mem 0x8000000000 = 0 ∧ load64 s'.mem 0x8000000000 = 0x7fffffffdffe ∧
      ¬ StackBuilt s st [[97]] []
        (createElfInfo ⟨0, 0, 0, 0, 0x7fffffffe000⟩ 0x201000 0x201008 s) := by
  obtain ⟨s₀, blocks, leaf, st, h, -⟩ := exists_atElfInfo
  obtain ⟨tabs, rep⟩ := h.inv.rep
  -- the word is cleared, and the memory of the heap used up
  have hst : Stores (fun x => 0x8000000000 ≤ x ∧ x < 0x8000000008) s₀ (s₀.setMem
    (store64 s₀.mem 0x8000000000 0) _) := stores_setMem fun x hx => store64_of_notMem (by omega)
  have rep₁ := rep.stores hst fun x hx => .inr (.inl (by omega))
  obtain ⟨s, more, rep₂, hno, hloc⟩ := KernelRep.exhaust (show 24 ≤ 0x200000 by decide) 0x200001
    (by omega) rep₁
  have inv : KernelInv s.heap (st :: (more ++ blocks)) leaf := rep₂.inv.perm List.perm_middle
  have hlow : ∀ x, x < 0x8000200000 → s.mem x = store64 s₀.mem 0x8000000000 0 x :=
      fun x hx => hloc.mem x fun hown => by
    have := hown.1
    omega
  have hsame : ∀ x, Payload blocks x → s.mem x = s₀.mem x := by
    rintro x ⟨e, he, hin⟩
    have hb := rep.inv.bounds (List.mem_cons_of_mem st he)
    refine (hloc.mem x (Payload.not_own tabs ⟨e, List.mem_cons_of_mem st he, hin⟩)).trans
      (hst.mem x ?_)
    omega
  have hframe := UserHolds.frame h.inv inv hsame (List.subset_append_right more blocks)
  have hat : AtElfInfo s (more ++ blocks) leaf st 0x201000 0x201008 [[97]] [] :=
    ⟨inv, h.stack, h.argv.mono hframe, h.envp.mono hframe, h.fits⟩
  obtain ⟨s', hrun, -, -, -, hcases⟩ :=
    hat.createElfInfo (p := ⟨0, 0, 0, 0, 0x7fffffffe000⟩) rfl
  obtain ⟨-, hwords, -⟩ := hcases.resolve_left fun h => hno h.1
  have hbefore : load64 s.mem 0x8000000000 = 0 := by
    rw [load64_congr fun x _ hx => hlow x (by omega), load64_store64_of_lt (by decide)]
  have hafter : load64 s'.mem 0x8000000000 = 0x7fffffffdffe := hwords 0 (by decide)
  refine ⟨s, s', _, leaf, st, _, hat, hrun, hbefore, hafter, fun hbuilt => ?_⟩
  rw [hrun] at hbuilt
  have hb := inv.bounds (e := st) List.mem_cons_self
  have heq : load64 s'.mem 0x8000000000 = load64 s.mem 0x8000000000 :=
    load64_congr fun x _ hx =>
    hbuilt.2.2.2 x (by omega) fun hown => by
      have := hown.1
      omega
  rw [hbefore, hafter] at heq
  exact absurd heq (by decide)

end BpfExamples.Kvm
