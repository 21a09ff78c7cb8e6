import BpfExamples.Kvm.Execve
import BpfExamples.Kvm.Mmap
import BpfExamples.Kvm.SystemSpec

/-!
# User memory as a list of areas

An area is a range of user pages with one protection and given bytes. Each `mmap` of the
loader lays down one area in a block of its own, and leaves the others as they are:
`Laid l s s'` says that the step from `s` to `s'` has laid down the areas `l`, one after the
other. Areas that share no page can all be found afterwards (`Laid.region`).

Pages are counted, so page `v` starts at the address `0x1000 * v`.
-/

namespace BpfExamples.Kvm

open Mem

variable {σ : Type} {s s' s'' : Sys σ} {blocks : List Extent} {leaf : Nat → Nat}

/-! ## Leaf words of a range -/

/-- The pages `[v, v + n)` are mapped to the memory at `ret`. -/
def pageLeaves (leaf : Nat → Nat) (v n ret prot : Nat) : Nat → Nat := fun q =>
  if v ≤ q ∧ q < v + n then leafWord (ret + 0x1000 * (q - v)) prot else leaf q

theorem mapLeaves_apply (v ret prot q : Nat) :
    ∀ (n k : Nat) (leaf : Nat → Nat), v + k + n ≤ 2 ^ 52 →
      mapLeaves (0x1000 * v) ret prot n (0x1000 * k) leaf q =
        if v + k ≤ q ∧ q < v + k + n then leafWord (ret + 0x1000 * (q - v)) prot else leaf q
  | 0, k, leaf, _ => by
    rw [mapLeaves, if_neg (by omega)]
  | n + 1, k, leaf, h => by
    have hpage : (0x1000 * v + 0x1000 * k) % 2 ^ 64 / 0x1000 = v + k := by omega
    have hnext : 0x1000 * k + 0x1000 = 0x1000 * (k + 1) := by omega
    rw [mapLeaves, hpage, hnext, mapLeaves_apply v ret prot q n (k + 1) _ (by omega)]
    by_cases hq : q = v + k
    · rw [if_neg (by omega), if_pos (by omega), hq, Function.update_self,
        Nat.add_sub_cancel_left]
    · rw [Function.update_of_ne hq]
      exact if_congr (by omega) rfl rfl

theorem mapLeaves_eq {v n : Nat} (h : v + n ≤ 2 ^ 52) (ret prot : Nat) (leaf : Nat → Nat) :
    mapLeaves (0x1000 * v) ret prot n 0 leaf = pageLeaves leaf v n ret prot := by
  funext q
  exact mapLeaves_apply v ret prot q n 0 leaf h

theorem protLeaves_apply (v prot q : Nat) :
    ∀ (n k : Nat) (leaf : Nat → Nat), v + k + n ≤ 2 ^ 52 →
      protLeaves (0x1000 * v) prot n (0x1000 * k) leaf q =
        if v + k ≤ q ∧ q < v + k + n then leafModified (leaf q) prot else leaf q
  | 0, k, leaf, _ => by
    rw [protLeaves, if_neg (by omega)]
  | n + 1, k, leaf, h => by
    have hpage : (0x1000 * v + 0x1000 * k) % 2 ^ 64 / 0x1000 = v + k := by omega
    have hnext : 0x1000 * k + 0x1000 = 0x1000 * (k + 1) := by omega
    rw [protLeaves]
    simp only [hpage, hnext]
    rw [protLeaves_apply v prot q n (k + 1) _ (by omega)]
    by_cases hq : q = v + k
    · rw [if_neg (by omega), if_pos (by omega), hq, Function.update_self]
    · rw [Function.update_of_ne hq]
      exact if_congr (by omega) rfl rfl

/-- A leaf of the kernel window, as a number. -/
theorem leafWord_window {p : Nat} (hp : p % 0x1000 = 0) (hlt : p < 2 ^ 39) (prot : Nat) :
    leafWord (0x8000000000 + p) prot = p + 1 + protFlags prot := by
  rw [leafWord, dropWindowBit_window hlt, leafWord_eq hp]

/-- `mprotect` on a range that is mapped gives it the new protection. -/
theorem protLeaves_pageLeaves {v n ret : Nat} (h : v + n ≤ 2 ^ 52) (hret : 0x8000000000 ≤ ret)
    (hal : ret % 0x1000 = 0) (hend : ret + 0x1000 * n ≤ 0x8040000000) (prot prot' : Nat) :
    protLeaves (0x1000 * v) prot' n 0 (pageLeaves leaf v n ret prot) =
      pageLeaves leaf v n ret prot' := by
  funext q
  refine (protLeaves_apply v prot' q n 0 _ h).trans ?_
  rw [Nat.add_zero]
  unfold pageLeaves
  by_cases hq : v ≤ q ∧ q < v + n
  · obtain ⟨p, hp⟩ : ∃ p, ret + 0x1000 * (q - v) = 0x8000000000 + p :=
      ⟨ret + 0x1000 * (q - v) - 0x8000000000, by omega⟩
    rw [if_pos hq, if_pos hq, if_pos hq, hp, leafWord_window (by omega) (by omega),
      leafWord_window (by omega) (by omega), leafModified,
      withProt_dropProt (by omega) (by omega)]
  · rw [if_neg hq, if_neg hq, if_neg hq]

/-! ## User pages -/

/-- The pages `[v, v + n)` are outside the kernel's ranges. -/
def InUser (v n : Nat) : Prop := 0x200 ≤ v ∧ v + n ≤ 2 ^ 36 ∧ (v + n ≤ 2 ^ 27 ∨ 2 ^ 28 ≤ v)

instance (v n : Nat) : Decidable (InUser v n) := inferInstanceAs (Decidable (_ ∧ _ ∧ _))

/-- A range that is shorter than the kernel's slot cannot step over it. -/
theorem inUserRange_iff {v n : Nat} (hv : v < 2 ^ 52) (hn : 0 < n) (hlt : n < 2 ^ 20) :
    InUserRange (0x1000 * v) 0 n ↔ InUser v n := by
  have hpage : ∀ j, j < n → v + j < 2 ^ 52 → pageAt (0x1000 * v) 0 j = 0x1000 * (v + j) := by
    intro j hj hle
    unfold pageAt
    omega
  constructor
  · intro h
    have hfirst := userMemRangeOk_iff.mp (h 0 hn)
    rw [hpage 0 hn (by omega)] at hfirst
    have hlast := userMemRangeOk_iff.mp (h (n - 1) (by omega))
    rw [hpage (n - 1) (by omega) (by omega)] at hlast
    refine ⟨by omega, by omega, ?_⟩
    by_contra hcross
    -- the first page of the slot would be one of the range
    have hslot := userMemRangeOk_iff.mp (h (2 ^ 27 - v) (by omega))
    rw [hpage (2 ^ 27 - v) (by omega) (by omega)] at hslot
    omega
  · rintro ⟨h₁, h₂, h₃⟩ j hj
    rw [hpage j hj (by omega), userMemRangeOk_iff]
    omega

/-! ## Areas -/

/-- `count` pages from page `page` on, with one protection; `data i` is the byte at offset
`i` from their start. -/
structure Area where
  page : Nat
  count : Nat
  prot : Nat
  data : Nat → UInt8

namespace Area

/-- The page `q` belongs to the area. -/
def Has (A : Area) (q : Nat) : Prop := A.page ≤ q ∧ q < A.page + A.count

instance decidableHas (A : Area) (q : Nat) : Decidable (A.Has q) :=
  inferInstanceAs (Decidable (_ ∧ _))

/-- The areas share no page. -/
def Apart (A B : Area) : Prop := A.page + A.count ≤ B.page ∨ B.page + B.count ≤ A.page

theorem Apart.not_has {A B : Area} (h : A.Apart B) {q : Nat} (hq : A.Has q) : ¬ B.Has q := by
  unfold Apart at h
  unfold Has at *
  omega

/-- The area is where user pages may be. -/
def User (A : Area) : Prop := InUser A.page A.count

/-- The leaf words once the area is mapped to the block at `ret`. -/
def leaves (A : Area) (leaf : Nat → Nat) (ret : Nat) : Nat → Nat :=
  pageLeaves leaf A.page A.count ret A.prot

theorem leaves_of_has {A : Area} {q : Nat} (h : A.Has q) (leaf : Nat → Nat) (ret : Nat) :
    A.leaves leaf ret q = leafWord (ret + 0x1000 * (q - A.page)) A.prot :=
  if_pos h

theorem leaves_of_not_has {A : Area} {q : Nat} (h : ¬ A.Has q) (leaf : Nat → Nat) (ret : Nat) :
    A.leaves leaf ret q = leaf q :=
  if_neg h

end Area

/-- The area is in memory: its pages lead into one block, which holds its bytes. -/
def Region (s : Sys σ) (blocks : List Extent) (leaf : Nat → Nat) (A : Area) : Prop :=
  ∃ c ∈ blocks, (c.addr + 16) % 0x1000 = 0 ∧ 0x1000 * A.count + 16 ≤ c.size ∧
    (∀ q, A.Has q → leaf q = leafWord (c.addr + 16 + 0x1000 * (q - A.page)) A.prot) ∧
    ∀ i, i < 0x1000 * A.count → s.mem (c.addr + 16 + i) = A.data i

/-- What the walks for an address of an area say, from the leaf of its page. -/
theorem page_walk {A : Area} {c : Extent} (inv : KernelInv s.heap blocks leaf) (hc : c ∈ blocks)
    (hal : (c.addr + 16) % 0x1000 = 0) (hfits : 0x1000 * A.count + 16 ≤ c.size) {a : Nat}
    (hleaf : leaf (a / 0x1000) = leafWord (c.addr + 16 + 0x1000 * (a / 0x1000 - A.page)) A.prot)
    (hu : A.User) (hq : A.Has (a / 0x1000)) (u w : Bool) :
    translateWalk s.mem a u w =
      if (u = true → hasFlag A.prot protR = true) ∧
        (w = true → hasFlag A.prot protW = true) then
        some (c.addr + 16 + (a - 0x1000 * A.page) - 0x8000000000) else none := by
  obtain ⟨hu₁, hu₂, hu₃⟩ := hu
  have hb := inv.bounds hc
  unfold Extent.fin at hb
  unfold Area.Has at hq
  obtain ⟨p, hp⟩ : ∃ p, c.addr + 16 + 0x1000 * (a / 0x1000 - A.page) = 0x8000000000 + p :=
    ⟨c.addr + 16 + 0x1000 * (a / 0x1000 - A.page) - 0x8000000000, by omega⟩
  have hout : Outside a := ⟨by omega, by omega, by omega⟩
  have hcell : p + a % 0x1000 = c.addr + 16 + (a - 0x1000 * A.page) - 0x8000000000 := by omega
  have hwalk := inv.walk_user hout u w
  rw [hleaf, hp, leafTranslate_leafWord (by omega) (by omega) (.inr rfl), hcell] at hwalk
  exact hwalk

/-- The same for an area whose pages are all mapped to the block. -/
theorem area_walk {A : Area} {c : Extent} (inv : KernelInv s.heap blocks leaf) (hc : c ∈ blocks)
    (hal : (c.addr + 16) % 0x1000 = 0) (hfits : 0x1000 * A.count + 16 ≤ c.size)
    (hleaf : ∀ q, A.Has q → leaf q = leafWord (c.addr + 16 + 0x1000 * (q - A.page)) A.prot)
    (hu : A.User) {a : Nat} (h₁ : 0x1000 * A.page ≤ a) (h₂ : a < 0x1000 * (A.page + A.count))
    (u w : Bool) :
    translateWalk s.mem a u w =
      if (u = true → hasFlag A.prot protR = true) ∧
        (w = true → hasFlag A.prot protW = true) then
        some (c.addr + 16 + (a - 0x1000 * A.page) - 0x8000000000) else none := by
  have hq : A.Has (a / 0x1000) := ⟨by omega, by omega⟩
  exact page_walk inv hc hal hfits (hleaf _ hq) hu hq u w

/-- A byte of an area, and who may access it. -/
theorem Region.walk {A : Area} (hr : Region s blocks leaf A)
    (inv : KernelInv s.heap blocks leaf) (hu : A.User) {a : Nat} (h₁ : 0x1000 * A.page ≤ a)
    (h₂ : a < 0x1000 * (A.page + A.count)) :
    ∃ p, s.mem (0x8000000000 + p) = A.data (a - 0x1000 * A.page) ∧ p < 0x400000 ∧ ∀ u w,
      translateWalk s.mem a u w =
        if (u = true → hasFlag A.prot protR = true) ∧
          (w = true → hasFlag A.prot protW = true) then
          some p else none := by
  obtain ⟨c, hc, hal, hfits, hleaf, hdata⟩ := hr
  have hb := inv.bounds hc
  unfold Extent.fin at hb
  refine ⟨_, ?_, ?_, area_walk inv hc hal hfits hleaf hu h₁ h₂⟩
  · rw [show 0x8000000000 + (c.addr + 16 + (a - 0x1000 * A.page) - 0x8000000000) =
      c.addr + 16 + (a - 0x1000 * A.page) by omega]
    exact hdata _ (by omega)
  · omega

/-! ## Laying an area down -/

/-- What an area can cost of the unused memory: its pages, the three tables that each of them
may need, and the blocks of the requests for its bytes. -/
def areaCost (n : Nat) : Nat := 0x71b0 * n + 0x3200

/-- The same for a list of areas. -/
def areasCost (l : List Area) : Nat := (l.map fun A => areaCost A.count).sum

theorem areasCost_cons (A : Area) (l : List Area) :
    areasCost (A :: l) = areaCost A.count + areasCost l := by
  rw [areasCost, List.map_cons, List.sum_cons, areasCost]

theorem areasCost_append (l l' : List Area) :
    areasCost (l ++ l') = areasCost l + areasCost l' := by
  rw [areasCost, List.map_append, List.sum_append, areasCost, areasCost]

/-- One more area: the block `c` is new and holds it, and the blocks before are as they
were. -/
structure Adds (s s' : Sys σ) (blocks : List Extent) (leaf : Nat → Nat) (A : Area)
    (c : Extent) : Prop where
  inv : KernelInv s'.heap (c :: blocks) (A.leaves leaf (c.addr + 16))
  user : A.User
  fits : 0x1000 * A.count + 16 ≤ c.size
  aligned : (c.addr + 16) % 0x1000 = 0
  data : ∀ i, i < 0x1000 * A.count → s'.mem (c.addr + 16 + i) = A.data i
  kept : ∀ x, Payload blocks x → s'.mem x = s.mem x
  table : s'.fds.table = s.fds.table
  refused : s'.refused = s.refused
  handed : s'.handed = (c.addr + 16) :: s.handed
  room : s.room ≤ s'.room + areaCost A.count

theorem Adds.region {A : Area} {c : Extent} (h : Adds s s' blocks leaf A c) :
    Region s' (c :: blocks) (A.leaves leaf (c.addr + 16)) A :=
  ⟨c, List.mem_cons_self, h.aligned, h.fits, fun _ hq => Area.leaves_of_has hq leaf _, h.data⟩

/-- The areas that were there stay. -/
theorem Adds.region_of_apart {A B : Area} {c : Extent} (h : Adds s s' blocks leaf A c)
    (hap : B.Apart A) (hr : Region s blocks leaf B) :
    Region s' (c :: blocks) (A.leaves leaf (c.addr + 16)) B := by
  obtain ⟨d, hd, hal, hfits, hleaf, hdata⟩ := hr
  refine ⟨d, List.mem_cons_of_mem _ hd, hal, hfits, fun q hq => ?_, fun i hi => ?_⟩
  · rw [Area.leaves_of_not_has (hap.not_has hq), hleaf q hq]
  · have hpay : Payload blocks (d.addr + 16 + i) :=
      ⟨d, hd, by omega, by unfold Extent.fin; omega⟩
    rw [h.kept _ hpay, hdata i hi]

/-- Areas laid down one after the other. -/
inductive Laid :
    List Area → Sys σ → List Extent → (Nat → Nat) → Sys σ → List Extent → (Nat → Nat) → Prop
  | nil (s : Sys σ) (blocks : List Extent) (leaf : Nat → Nat) :
      Laid [] s blocks leaf s blocks leaf
  | cons {A : Area} {l : List Area} {s s₁ s' : Sys σ} {blocks blocks' : List Extent}
      {leaf leaf' : Nat → Nat} {c : Extent} (first : Adds s s₁ blocks leaf A c)
      (rest : Laid l s₁ (c :: blocks) (A.leaves leaf (c.addr + 16)) s' blocks' leaf') :
      Laid (A :: l) s blocks leaf s' blocks' leaf'

namespace Laid

variable {l l' : List Area} {blocks' blocks'' : List Extent} {leaf' leaf'' : Nat → Nat}

theorem single {A : Area} {c : Extent} (h : Adds s s' blocks leaf A c) :
    Laid [A] s blocks leaf s' (c :: blocks) (A.leaves leaf (c.addr + 16)) :=
  .cons h (.nil _ _ _)

theorem append (h₁ : Laid l s blocks leaf s' blocks' leaf')
    (h₂ : Laid l' s' blocks' leaf' s'' blocks'' leaf'') :
    Laid (l ++ l') s blocks leaf s'' blocks'' leaf'' := by
  induction h₁ with
  | nil => exact h₂
  | cons first _ ih => exact .cons first (ih h₂)

theorem inv (h : Laid l s blocks leaf s' blocks' leaf') (h₀ : KernelInv s.heap blocks leaf) :
    KernelInv s'.heap blocks' leaf' := by
  induction h with
  | nil => exact h₀
  | cons first _ ih => exact ih first.inv

theorem kept (h : Laid l s blocks leaf s' blocks' leaf') {x : Nat} (hx : Payload blocks x) :
    s'.mem x = s.mem x := by
  induction h with
  | nil => rfl
  | cons first _ ih =>
    obtain ⟨e, he, hex⟩ := hx
    rw [ih ⟨e, List.mem_cons_of_mem _ he, hex⟩, first.kept x ⟨e, he, hex⟩]

theorem sub (h : Laid l s blocks leaf s' blocks' leaf') : blocks ⊆ blocks' := by
  induction h with
  | nil => exact List.Subset.refl _
  | cons _ _ ih => exact fun e he => ih (List.mem_cons_of_mem _ he)

theorem table (h : Laid l s blocks leaf s' blocks' leaf') : s'.fds.table = s.fds.table := by
  induction h with
  | nil => rfl
  | cons first _ ih => exact ih.trans first.table

theorem refused (h : Laid l s blocks leaf s' blocks' leaf') : s'.refused = s.refused := by
  induction h with
  | nil => rfl
  | cons first _ ih => exact ih.trans first.refused

theorem room (h : Laid l s blocks leaf s' blocks' leaf') : s.room ≤ s'.room + areasCost l := by
  induction h with
  | nil => exact Nat.le_add_right _ _
  | cons first _ ih =>
    have hfirst := first.room
    rw [areasCost_cons]
    omega

/-- An area that shares no page with those laid down stays. -/
theorem region_of_apart (h : Laid l s blocks leaf s' blocks' leaf') {B : Area}
    (hap : ∀ A ∈ l, B.Apart A) (hr : Region s blocks leaf B) : Region s' blocks' leaf' B := by
  induction h with
  | nil => exact hr
  | cons first _ ih =>
    refine ih (fun A hA => hap A (List.mem_cons_of_mem _ hA)) ?_
    exact first.region_of_apart (hap _ List.mem_cons_self) hr

/-- **Areas that share no page** are all there in the end. -/
theorem region (h : Laid l s blocks leaf s' blocks' leaf') (hap : l.Pairwise Area.Apart) :
    ∀ A ∈ l, Region s' blocks' leaf' A ∧ A.User := by
  induction h with
  | nil => exact fun A hA => absurd hA List.not_mem_nil
  | cons first rest ih =>
    rw [List.pairwise_cons] at hap
    intro B hB
    rcases List.mem_cons.mp hB with rfl | hB
    · exact ⟨rest.region_of_apart hap.1 first.region, first.user⟩
    · exact ih hap.2 B hB

/-- A list of areas is laid down one part after the other. -/
theorem split : ∀ {l l' : List Area} {s : Sys σ} {blocks : List Extent} {leaf : Nat → Nat},
    Laid (l ++ l') s blocks leaf s'' blocks'' leaf'' →
      ∃ s' blocks' leaf', Laid l s blocks leaf s' blocks' leaf' ∧
        Laid l' s' blocks' leaf' s'' blocks'' leaf''
  | [], _, _, _, _, h => ⟨_, _, _, .nil _ _ _, h⟩
  | _ :: _, _, _, _, _, .cons first rest =>
    let ⟨s', blocks', leaf', h₁, h₂⟩ := rest.split
    ⟨s', blocks', leaf', .cons first h₁, h₂⟩

end Laid

/-! ## The areas of a page -/

/-- The area that a page ends up in: the last of the list that has it. -/
def lastArea : List Area → Nat → Option Area
  | [], _ => none
  | A :: l, q => (lastArea l q).or (if A.Has q then some A else none)

theorem lastArea_append (l l' : List Area) (q : Nat) :
    lastArea (l ++ l') q = (lastArea l' q).or (lastArea l q) := by
  induction l with
  | nil => rw [List.nil_append, lastArea, Option.or_none]
  | cons A l ih => rw [List.cons_append, lastArea, ih, lastArea, Option.or_assoc]

theorem lastArea_eq_none {l : List Area} {q : Nat} :
    lastArea l q = none ↔ ∀ A ∈ l, ¬ A.Has q := by
  induction l with
  | nil => simp [lastArea]
  | cons A l ih => simp [lastArea, ih, and_comm]

/-- The page `q` of the area is in memory. -/
def PageIn (s : Sys σ) (blocks : List Extent) (leaf : Nat → Nat) (A : Area) (q : Nat) : Prop :=
  A.User ∧ A.Has q ∧ ∃ c ∈ blocks, (c.addr + 16) % 0x1000 = 0 ∧ 0x1000 * A.count + 16 ≤ c.size ∧
    leaf q = leafWord (c.addr + 16 + 0x1000 * (q - A.page)) A.prot ∧
    ∀ i, i < 0x1000 * A.count → s.mem (c.addr + 16 + i) = A.data i

section

variable {l : List Area} {A : Area} {q : Nat} {blocks' : List Extent} {leaf' : Nat → Nat}

theorem Adds.pageIn {c : Extent} (h : Adds s s' blocks leaf A c) (hq : A.Has q) :
    PageIn s' (c :: blocks) (A.leaves leaf (c.addr + 16)) A q :=
  ⟨h.user, hq, c, List.mem_cons_self, h.aligned, h.fits, Area.leaves_of_has hq leaf _, h.data⟩

/-- Pages that no area has are left alone. -/
theorem Laid.leaf_of_none (h : Laid l s blocks leaf s' blocks' leaf')
    (hq : ∀ A ∈ l, ¬ A.Has q) : leaf' q = leaf q := by
  induction h with
  | nil => rfl
  | cons _ _ ih =>
    rw [ih fun A hA => hq A (List.mem_cons_of_mem _ hA),
      Area.leaves_of_not_has (hq _ List.mem_cons_self)]

theorem PageIn.mono (hp : PageIn s blocks leaf A q) (hsub : blocks ⊆ blocks')
    (hq : leaf' q = leaf q) (hmem : ∀ x, Payload blocks x → s'.mem x = s.mem x) :
    PageIn s' blocks' leaf' A q := by
  obtain ⟨hu, hA, c, hc, hal, hfits, hleaf, hdata⟩ := hp
  refine ⟨hu, hA, c, hsub hc, hal, hfits, hq.trans hleaf, fun i hi => ?_⟩
  rw [hmem _ ⟨c, hc, by omega, by unfold Extent.fin; omega⟩, hdata i hi]

/-- **The last area of a page** is the one that is found there. -/
theorem Laid.pageIn (h : Laid l s blocks leaf s' blocks' leaf') (hq : lastArea l q = some A) :
    PageIn s' blocks' leaf' A q := by
  induction h with
  | nil => cases hq
  | cons first rest ih =>
    rw [lastArea, Option.or_eq_some_iff] at hq
    rcases hq with hq | ⟨hnone, hq⟩
    · exact ih hq
    · split at hq
      · next hhas =>
        cases hq
        exact (first.pageIn hhas).mono rest.sub (rest.leaf_of_none (lastArea_eq_none.mp hnone))
          fun x => rest.kept
      · cases hq

/-- A byte of the page, and who may access it. -/
theorem PageIn.walk (hp : PageIn s blocks leaf A q) (inv : KernelInv s.heap blocks leaf)
    {a : Nat} (ha : a / 0x1000 = q) :
    ∃ p, s.mem (0x8000000000 + p) = A.data (a - 0x1000 * A.page) ∧
      Payload blocks (0x8000000000 + p) ∧ ∀ u w,
      translateWalk s.mem a u w =
        if (u = true → hasFlag A.prot protR = true) ∧
          (w = true → hasFlag A.prot protW = true) then
          some p else none := by
  subst ha
  obtain ⟨hu, hq, c, hc, hal, hfits, hleaf, hdata⟩ := hp
  have hb := inv.bounds hc
  have hcell : 0x8000000000 + (c.addr + 16 + (a - 0x1000 * A.page) - 0x8000000000) =
      c.addr + 16 + (a - 0x1000 * A.page) := by
    omega
  refine ⟨_, ?_, ?_, page_walk inv hc hal hfits hleaf hu hq⟩
  all_goals unfold Area.Has at hq
  · rw [hcell]
    exact hdata _ (by omega)
  · rw [hcell]
    exact ⟨c, hc, by omega, by unfold Extent.fin; omega⟩

end

end BpfExamples.Kvm
