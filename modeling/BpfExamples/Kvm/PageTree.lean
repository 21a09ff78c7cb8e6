import BpfExamples.Kvm.Entries
import BpfExamples.Kvm.KmallocSpec

/-!
# The tree of page tables

The abstract tables are a partial map: `T ℓ q` is the table of level `ℓ` for the
addresses whose bits above `12 + 9 ℓ` are `q` (level 4 is the top table, level 1
holds the leaves). `TreeInv` says that a memory holds such a tree: the entry for
each child points to it with all flags set, every other entry is absent, and two
entries of the tables belong to the kernel. No table is reached in two ways.

The tree goes on to work where the kernel's own entries have been cleared by
accident: `intact` says whether they are in place, as they are unless stated.

What user addresses translate to depends only on the leaf words (`leafOf`), one
for each page:

- `translateWalk_user`: the walk reads the leaf of the page;
- `TreeInv.grow`: hanging in a cleared table keeps all leaves;
- `TreeInv.setLeaf`: writing a leaf changes one of them;
- `translateWalk_low`, `translateWalk_window`: the kernel's own pages.
-/

namespace BpfExamples.Kvm

open Mem

/-- Which table serves level `ℓ` for the address bits `q`. -/
abbrev Tables := Nat → Nat → Option Nat

/-- Hanging in a table. -/
def Tables.set (T : Tables) (l q c : Nat) : Tables := fun l' q' =>
  if l' = l ∧ q' = q then some c else T l' q'

@[simp] theorem Tables.set_self (T : Tables) (l q c : Nat) : T.set l q c l q = some c :=
  if_pos ⟨rfl, rfl⟩

theorem Tables.set_of_ne {T : Tables} {l q c l' q' : Nat} (h : ¬ (l' = l ∧ q' = q)) :
    T.set l q c l' q' = T l' q' :=
  if_neg h

/-- Hanging in a table where there is none loses no table. -/
theorem Tables.set_of_some {T : Tables} {l q c l' q' t : Nat} (hnone : T l q = none)
    (h : T l' q' = some t) : T.set l q c l' q' = some t := by
  rw [Tables.set_of_ne, h]
  rintro ⟨rfl, rfl⟩
  rw [hnone] at h
  cases h

/-- The tables of the larger tree are the new one and those of the smaller. -/
theorem Tables.set_cases {T : Tables} {l q c l' q' t : Nat} (h : T.set l q c l' q' = some t) :
    (l' = l ∧ q' = q) ∧ t = c ∨ ¬ (l' = l ∧ q' = q) ∧ T l' q' = some t := by
  by_cases hkey : l' = l ∧ q' = q
  · obtain ⟨rfl, rfl⟩ := hkey
    rw [Tables.set_self] at h
    exact .inl ⟨⟨rfl, rfl⟩, (Option.some.inj h).symm⟩
  · rw [Tables.set_of_ne hkey] at h
    exact .inr ⟨hkey, h⟩

/-- The places of the tree where the kernel's own entries stand: the second entry
of the top table and the first entry of the lowest directory. -/
def KernelSlot (l q : Nat) : Prop := l = 3 ∧ q = 1 ∨ l = 1 ∧ q = 0

/-- They stand in tables above the leaves. -/
theorem KernelSlot.above {l q : Nat} (h : KernelSlot l q) : 2 ≤ l + 1 := by
  unfold KernelSlot at h
  omega

/-- The entry of a table that leads to its child, if there is one. -/
def EntryFor (child : Option Nat) (e : Nat) : Prop :=
  match child with
  | some c => e = c - 0x8000000000 + 7
  | none => e % 2 = 0

/-- The kernel's own entries: the low 2 MB, and the window. -/
structure KernelEntries (m : Mem) : Prop where
  low : load64 m 0x80001f9000 = 0x83
  top : load64 m 0x80001f7008 = 0x1fa003
  first : load64 m 0x80001fa000 = 0x1fb003
  others : ∀ i, 0 < i → i < 512 → load64 m (0x80001fa000 + 8 * i) % 2 = 0
  large : ∀ i, i < 512 → load64 m (0x80001fb000 + 8 * i) = i * 0x200000 + 0x83

/-- **The tree invariant.** -/
structure TreeInv (m : Mem) (T : Tables) (intact : Bool := true) : Prop where
  level : ∀ {l q c}, T l q = some c → 1 ≤ l ∧ l ≤ 4
  root : T 4 0 = some 0x80001f7000
  pdp : intact = true → T 3 0 = some 0x80001f8000
  pd : intact = true → T 2 0 = some 0x80001f9000
  vacant : ∀ {l q}, KernelSlot l q → T l q = none
  linked : ∀ {l q t}, 1 ≤ l → T (l + 1) (q / 512) = some t → ¬ KernelSlot l q →
    EntryFor (T l q) (load64 m (t + 8 * (q % 512)))
  parent : ∀ {l q c}, T l q = some c → l < 4 → ∃ t, T (l + 1) (q / 512) = some t
  inj : ∀ {l q l' q' c}, T l q = some c → T l' q' = some c → l = l' ∧ q = q'
  page : ∀ {l q c}, T l q = some c → c % 0x1000 = 0 ∧ 0x80001f7000 ≤ c ∧ c < 0x8040000000
  foreign : ∀ {l q c}, T l q = some c → c ≠ 0x80001fa000 ∧ c ≠ 0x80001fb000
  kernel : intact = true → KernelEntries m
  cleared : intact = false → ∀ {l q t}, KernelSlot l q → T (l + 1) (q / 512) = some t →
    load64 m (t + 8 * (q % 512)) % 2 = 0

/-- The leaf word of page `q`; a page without a table has none. -/
def leafOf (m : Mem) (T : Tables) (q : Nat) : Nat :=
  match T 1 (q / 512) with
  | some t => load64 m (t + 8 * (q % 512))
  | none => 0

theorem leafOf_some {m : Mem} {T : Tables} {q t : Nat} (h : T 1 (q / 512) = some t) :
    leafOf m T q = load64 m (t + 8 * (q % 512)) := by
  simp [leafOf, h]

theorem leafOf_none {m : Mem} {T : Tables} {q : Nat} (h : T 1 (q / 512) = none) :
    leafOf m T q = 0 := by
  simp [leafOf, h]

/-! ## What the walks read -/

/-- One step of `translate`: the flags decide, the address bits lead on. -/
theorem translateStep_eq (m : Mem) (u w : Bool) (p : Nat) :
    translateStep m u w p =
      if load64 m p % 2 = 1 ∧ (u = true → load64 m p / 4 % 2 = 1) ∧
          (w = true → load64 m p / 2 % 2 = 1) then some (tableOf (load64 m p)) else none := by
  simp only [translateStep, hasFlag_present, hasFlag_user, hasFlag_rw]
  by_cases h₁ : load64 m p % 2 = 1 <;> by_cases h₂ : load64 m p / 4 % 2 = 1 <;>
    by_cases h₃ : load64 m p / 2 % 2 = 1 <;> cases u <;> cases w <;> simp [h₁, h₂, h₃]

namespace TreeInv

variable {m m' : Mem} {T : Tables} {b : Bool} {l q t c : Nat}

/-- Two tables are the same one or lie in different pages. -/
theorem apart (inv : TreeInv m T b) {l' q' t' : Nat} (h : T l q = some t)
    (h' : T l' q' = some t') (hne : ¬ (l = l' ∧ q = q')) :
    t + 0x1000 ≤ t' ∨ t' + 0x1000 ≤ t := by
  have hp := inv.page h
  have hp' := inv.page h'
  have : t ≠ t' := by
    rintro rfl
    exact hne (inv.inj h h')
  omega

/-- An entry outside the kernel's own takes the walk to the child. -/
theorem translateStep_child (inv : TreeInv m T b) (hl : 1 ≤ l)
    (ht : T (l + 1) (q / 512) = some t) (hk : ¬ KernelSlot l q) (u w : Bool) :
    translateStep m u w (t + 8 * (q % 512)) = T l q := by
  have he := inv.linked hl ht hk
  rw [translateStep_eq]
  cases hc : T l q with
  | none =>
    rw [hc] at he
    have hz : load64 m (t + 8 * (q % 512)) % 2 = 0 := he
    rw [if_neg fun h => by omega]
  | some c =>
    rw [hc] at he
    have hz : load64 m (t + 8 * (q % 512)) = c - 0x8000000000 + 7 := he
    have hp := inv.page hc
    have hback : 0x8000000000 + (c - 0x8000000000) = c := by omega
    rw [hz, if_pos ⟨by omega, fun _ => by omega, fun _ => by omega⟩,
      tableOf_add (by omega) (by omega) (by decide), hback]

/-- `modify_permission` walks the same way. -/
theorem modifyStep_child (inv : TreeInv m T b) (hl : 1 ≤ l) (ht : T (l + 1) (q / 512) = some t)
    (hk : ¬ KernelSlot l q) : modifyStep m (t + 8 * (q % 512)) = T l q := by
  rw [← inv.translateStep_child hl ht hk false false, translateStep_eq, modifyStep]
  simp only [hasFlag_present]
  by_cases h : load64 m (t + 8 * (q % 512)) % 2 = 1 <;> simp [h]

/-- Without a parent there is no child. -/
theorem orphan (inv : TreeInv m T b) (hl : l < 4) (h : T (l + 1) (q / 512) = none) :
    T l q = none := by
  cases hc : T l q with
  | none => rfl
  | some c =>
    obtain ⟨t, ht⟩ := inv.parent hc hl
    rw [h] at ht
    cases ht

end TreeInv

/-! ## Translation of user addresses -/

/-- What a leaf word gives for an address of its page. -/
def leafTranslate (e a : Nat) (u w : Bool) : Option Nat :=
  if e % 2 = 1 ∧ (u = true → e / 4 % 2 = 1) ∧ (w = true → e / 2 % 2 = 1) then
    some ((tableOf e ^^^ kernelBaseOffset) + a % 0x1000)
  else none

/-- An address outside the kernel's own two ranges. -/
def Outside (v : Nat) : Prop := 0x200000 ≤ v ∧ v < 2 ^ 48 ∧ v / 2 ^ 39 ≠ 1

/-- The indices of a walk, as the address bits of each level. -/
theorem slot_eq (t v k : Nat) : slot t v k = t + 8 * (v / 2 ^ k % 512) := by
  rw [slot, offset_eq]

/-- A walk uses the low 48 bits of an address. -/
theorem translateWalk_mod (m : Mem) (v : Nat) (u w : Bool) :
    translateWalk m v u w = translateWalk m (v % 2 ^ 48) u w := by
  have hslot : ∀ t k, k ≤ 39 → slot t (v % 2 ^ 48) k = slot t v k := by
    intro t k hk
    have hdvd : 2 ^ k * 512 ∣ 2 ^ 48 := by
      rw [show 512 = 2 ^ 9 from rfl, ← Nat.pow_add]
      exact Nat.pow_dvd_pow 2 (by omega)
    rw [slot_eq, slot_eq, ← Nat.mod_mul_right_div_self, Nat.mod_mod_of_dvd _ hdvd,
      Nat.mod_mul_right_div_self]
  have hlarge : v % 2 ^ 48 % 0x200000 = v % 0x200000 := by omega
  have hsmall : v % 2 ^ 48 % 0x1000 = v % 0x1000 := by omega
  simp only [translateWalk, hlarge, hsmall, hslot _ 39 (by decide), hslot _ 30 (by decide),
    hslot _ 21 (by decide), hslot _ 12 (by decide)]

theorem Outside.not_kernelSlot {v : Nat} (hv : Outside v) :
    ¬ KernelSlot 3 (v / 2 ^ 39) ∧ ¬ KernelSlot 2 (v / 2 ^ 30) ∧
      ¬ KernelSlot 1 (v / 2 ^ 21) := by
  obtain ⟨h₁, h₂, h₃⟩ := hv
  unfold KernelSlot
  omega

/-- The prefixes of one address at neighbouring levels. -/
theorem prefix_up (v k : Nat) : v / 2 ^ k / 512 = v / 2 ^ (k + 9) := by
  rw [Nat.div_div_eq_div_mul, Nat.pow_add]

/-- The entry that points to a leaf table is no large page. -/
theorem TreeInv.pointer_not_large {m : Mem} {T : Tables} {b : Bool} {l q t c : Nat}
    (inv : TreeInv m T b) (hl : 1 ≤ l) (ht : T (l + 1) (q / 512) = some t) (hc : T l q = some c)
    (hk : ¬ KernelSlot l q) :
    hasFlag (load64 m (t + 8 * (q % 512))) pde64PS = false := by
  have he := inv.linked hl ht hk
  rw [hc] at he
  have hz : load64 m (t + 8 * (q % 512)) = c - 0x8000000000 + 7 := he
  have hp := inv.page hc
  rw [hz, hasFlag_ps]
  exact decide_eq_false (by omega)

/-- **Translation reads the leaf.** -/
theorem translateWalk_user {m : Mem} {T : Tables} {b : Bool} (inv : TreeInv m T b) {v : Nat}
    (hv : Outside v) (u w : Bool) :
    translateWalk m v u w = leafTranslate (leafOf m T (v / 0x1000)) v u w := by
  obtain ⟨hk₃, hk₂, hk₁⟩ := hv.not_kernelSlot
  have hroot : T (3 + 1) (v / 2 ^ 39 / 512) = some 0x80001f7000 := by
    have h48 : v / 2 ^ 39 / 512 = 0 := by
      have := hv.2.1
      omega
    rw [h48]
    exact inv.root
  have hleaf : v / 0x1000 / 512 = v / 2 ^ 21 := prefix_up v 12
  have habsent : T 1 (v / 2 ^ 21) = none →
      leafTranslate (leafOf m T (v / 0x1000)) v u w = none := by
    intro h
    rw [leafOf_none (by rw [hleaf]; exact h)]
    exact if_neg fun h => absurd h.1 (by decide)
  simp only [translateWalk, slot_eq, pml4Addr_eq, Option.bind_eq_bind]
  rw [inv.translateStep_child (by decide) hroot hk₃ u w]
  cases h₃ : T 3 (v / 2 ^ 39) with
  | none =>
    have h₂ := inv.orphan (l := 2) (q := v / 2 ^ 30) (by decide) (by rw [prefix_up]; exact h₃)
    have h₁ := inv.orphan (l := 1) (q := v / 2 ^ 21) (by decide) (by rw [prefix_up]; exact h₂)
    exact (habsent h₁).symm
  | some pdp =>
    have hpdp : T (2 + 1) (v / 2 ^ 30 / 512) = some pdp := by
      rw [prefix_up]
      exact h₃
    rw [Option.bind_some, inv.translateStep_child (by decide) hpdp hk₂ u w]
    cases h₂ : T 2 (v / 2 ^ 30) with
    | none =>
      have h₁ := inv.orphan (l := 1) (q := v / 2 ^ 21) (by decide) (by rw [prefix_up]; exact h₂)
      exact (habsent h₁).symm
    | some pd =>
      have hpd : T (1 + 1) (v / 2 ^ 21 / 512) = some pd := by
        rw [prefix_up]
        exact h₂
      rw [Option.bind_some, inv.translateStep_child (by decide) hpd hk₁ u w]
      cases h₁ : T 1 (v / 2 ^ 21) with
      | none => exact (habsent h₁).symm
      | some pt =>
        rw [Option.bind_some, inv.pointer_not_large (by decide) hpd h₁ hk₁, translateStep_eq,
          leafOf_some (by rw [hleaf]; exact h₁)]
        rw [if_neg Bool.false_ne_true, leafTranslate, show (2 : Nat) ^ 12 = 0x1000 from rfl]
        split
        · rw [Option.bind_some]
          rfl
        · rw [Option.bind_none]

/-! ## The kernel's own pages -/

section

variable {m : Mem} {T : Tables}

/-- The walk of a low address ends at the first entry of the lowest directory. -/
theorem translateWalk_low (inv : TreeInv m T) {a : Nat} (ha : a < 0x200000) (u w : Bool) :
    translateWalk m a u w = if u then none else some a := by
  have h39 : a / 2 ^ 39 = 0 := by omega
  have h30 : a / 2 ^ 30 = 0 := by omega
  have h21 : a / 2 ^ 21 = 0 := by omega
  have hmod : a % 0x200000 = a := Nat.mod_eq_of_lt ha
  have s₃ := inv.translateStep_child (l := 3) (q := 0)
    (by decide) inv.root (by unfold KernelSlot; omega) u w
  have s₂ := inv.translateStep_child (l := 2) (q := 0) (by decide) (inv.pdp rfl)
    (by unfold KernelSlot; omega) u w
  have s₁ : translateStep m u w 0x80001f9000 = if u then none else some (tableOf 0x83) := by
    rw [translateStep_eq, (inv.kernel rfl).low]
    cases u <;> simp
  rw [inv.pdp rfl] at s₃
  rw [inv.pd rfl] at s₂
  simp only [Nat.zero_mod, Nat.mul_zero, Nat.add_zero] at s₃ s₂
  simp only [translateWalk, slot_eq, pml4Addr_eq, Option.bind_eq_bind,
    h39, h30, h21, Nat.zero_mod, Nat.mul_zero, Nat.add_zero, s₃, s₂, s₁, Option.bind_some,
    (inv.kernel rfl).low]
  cases u with
  | true => rfl
  | false =>
    have hps : hasFlag 0x83 pde64PS = true := by decide
    simp only [Bool.false_eq_true, if_false, Option.bind_some, hps, if_true, hmod]
    simp

/-- Addresses of the second 512 GB slot: the first gigabyte is the window, the
rest is absent, and none of it is for user mode. -/
theorem translateWalk_window (inv : TreeInv m T) {a : Nat} (ha : a < 2 ^ 39) (u w : Bool) :
    translateWalk m (0x8000000000 + a) u w =
      if u = false ∧ a < 0x40000000 then some a else none := by
  have h39 : (0x8000000000 + a) / 2 ^ 39 % 512 = 1 := by omega
  have h30 : (0x8000000000 + a) / 2 ^ 30 % 512 = a / 2 ^ 30 := by omega
  have s₃ : translateStep m u w 0x80001f7008 = if u then none else some 0x80001fa000 := by
    have htab : tableOf 0x1fa003 = 0x80001fa000 := by decide
    rw [translateStep_eq, (inv.kernel rfl).top, htab]
    cases u <;> simp
  simp only [translateWalk, slot_eq, pml4Addr_eq, Option.bind_eq_bind, h39, h30]
  rw [show 0x80001f7000 + 8 * 1 = 0x80001f7008 from rfl, s₃]
  cases u with
  | true => rfl
  | false =>
    rw [if_neg Bool.false_ne_true, Option.bind_some]
    by_cases hin : a < 0x40000000
    · have h30' : a / 2 ^ 30 = 0 := by omega
      have h21 : (0x8000000000 + a) / 2 ^ 21 % 512 = a / 2 ^ 21 := by omega
      have s₂ : translateStep m false w 0x80001fa000 = some 0x80001fb000 := by
        have htab : tableOf 0x1fb003 = 0x80001fb000 := by decide
        rw [translateStep_eq, (inv.kernel rfl).first, htab]
        simp
      have hl := (inv.kernel rfl).large (a / 2 ^ 21) (by omega)
      have s₁ : translateStep m false w (0x80001fb000 + 8 * (a / 2 ^ 21)) =
          some (tableOf (a / 2 ^ 21 * 0x200000 + 0x83)) := by
        rw [translateStep_eq, hl, if_pos ⟨by omega, fun h => absurd h Bool.false_ne_true,
          fun _ => by omega⟩]
      have hps : hasFlag (a / 2 ^ 21 * 0x200000 + 0x83) pde64PS = true := by
        rw [hasFlag_ps]
        exact decide_eq_true (by omega)
      rw [h30', Nat.mul_zero, Nat.add_zero, s₂, Option.bind_some, h21, s₁, Option.bind_some, hl,
        if_pos hps, if_pos ⟨rfl, hin⟩]
      exact congrArg some (by omega)
    · have hz := (inv.kernel rfl).others (a / 2 ^ 30) (by omega) (by omega)
      rw [translateStep_eq, if_neg fun h => by omega, if_neg fun h => hin h.2]
      rfl

/-- Where the kernel's entries have been cleared, its ranges lead nowhere. -/
theorem translateWalk_cleared (inv : TreeInv m T false) {a : Nat} (ha : a < 2 ^ 48)
    (hout : ¬ Outside a) (u w : Bool) : translateWalk m a u w = none := by
  have hstep : ∀ {l q t}, KernelSlot l q → T (l + 1) (q / 512) = some t →
      translateStep m u w (t + 8 * (q % 512)) = none := by
    intro l q t hs ht
    have hz := inv.cleared rfl hs ht
    rw [translateStep_eq, if_neg fun h => by omega]
  simp only [translateWalk, slot_eq, pml4Addr_eq, Option.bind_eq_bind]
  by_cases hlow : a < 0x200000
  · have h39 : a / 2 ^ 39 = 0 := by omega
    have h30 : a / 2 ^ 30 = 0 := by omega
    have h21 : a / 2 ^ 21 = 0 := by omega
    rw [h39, h30, h21, inv.translateStep_child (l := 3) (q := 0)
      (by decide) inv.root (by unfold KernelSlot; omega)]
    cases h₃ : T 3 0 with
    | none => rfl
    | some pdp =>
      rw [Option.bind_some, inv.translateStep_child (l := 2) (q := 0)
        (by decide) h₃ (by unfold KernelSlot; omega)]
      cases h₂ : T 2 0 with
      | none => rfl
      | some pd =>
        rw [Option.bind_some, hstep (l := 1) (q := 0) (.inr ⟨rfl, rfl⟩) h₂]
        rfl
  · have h39 : a / 2 ^ 39 = 1 := by
      unfold Outside at hout
      omega
    rw [h39, hstep (l := 3) (q := 1) (.inl ⟨rfl, rfl⟩) inv.root]
    rfl

end

/-! ## Changes of the tree -/

/-- The kernel's entries stand in the five static tables. -/
theorem KernelEntries.frame {m m' : Mem} (h : KernelEntries m)
    (hm : ∀ a, 0x80001f7008 ≤ a → a < 0x80001f7010 → m' a = m a)
    (hpd : ∀ a, 0x80001f9000 ≤ a → a < 0x80001f9008 → m' a = m a)
    (hk : ∀ a, 0x80001fa000 ≤ a → a < 0x80001fc000 → m' a = m a) : KernelEntries m' where
  low := by
    rw [← h.low]
    exact load64_congr fun a h₁ h₂ => hpd a h₁ (by omega)
  top := by
    rw [← h.top]
    exact load64_congr fun a h₁ h₂ => hm a h₁ (by omega)
  first := by
    rw [← h.first]
    exact load64_congr fun a h₁ h₂ => hk a h₁ (by omega)
  others i h0 hi := by
    have he : load64 m' (0x80001fa000 + 8 * i) = load64 m (0x80001fa000 + 8 * i) :=
      load64_congr fun a h₁ h₂ => hk a (by omega) (by omega)
    rw [he]
    exact h.others i h0 hi
  large i hi := by
    rw [← h.large i hi]
    exact load64_congr fun a h₁ h₂ => hk a (by omega) (by omega)

namespace TreeInv

variable {m m' : Mem} {T : Tables} {b : Bool} {l q t c : Nat}

/-- The tree reads its tables above the leaves and the two of the window. -/
theorem frame (inv : TreeInv m T b)
    (hk : ∀ a, 0x80001fa000 ≤ a → a < 0x80001fc000 → m' a = m a)
    (ht : ∀ {l q t}, T l q = some t → 2 ≤ l → ∀ a, t ≤ a → a < t + 0x1000 → m' a = m a) :
    TreeInv m' T b where
  level := inv.level
  root := inv.root
  pdp := inv.pdp
  pd := inv.pd
  vacant := inv.vacant
  linked {l q t} hl h hq := by
    have he : load64 m' (t + 8 * (q % 512)) = load64 m (t + 8 * (q % 512)) :=
      load64_congr fun a h₁ h₂ => ht h (by omega) a (by omega) (by omega)
    rw [he]
    exact inv.linked hl h hq
  parent := inv.parent
  inj := inv.inj
  page := inv.page
  foreign := inv.foreign
  kernel hb :=
    (inv.kernel hb).frame (fun a h₁ h₂ => ht inv.root (by decide) a (by omega) (by omega))
    (fun a h₁ h₂ => ht (inv.pd hb) (by decide) a (by omega) (by omega)) hk
  cleared hb {l q t} hs h := by
    have he : load64 m' (t + 8 * (q % 512)) = load64 m (t + 8 * (q % 512)) :=
      load64_congr fun a h₁ h₂ => ht h (hs.above) a (by omega) (by omega)
    rw [he]
    exact inv.cleared hb hs h

/-- The leaves are read from the leaf tables. -/
theorem leafOf_frame (ht : ∀ {q t}, T 1 q = some t → ∀ a, t ≤ a → a < t + 0x1000 → m' a = m a) :
    leafOf m' T = leafOf m T := by
  funext q
  cases h : T 1 (q / 512) with
  | none => rw [leafOf_none h, leafOf_none h]
  | some t =>
    rw [leafOf_some h, leafOf_some h]
    exact load64_congr fun a h₁ h₂ => ht h a (by omega) (by omega)

/-- A store into one table leaves the other tables alone. -/
theorem store_other (inv : TreeInv m T b) (h : T l q = some t) {i e : Nat} (hi : i < 512)
    {l' q' t' : Nat} (h' : T l' q' = some t') (hne : ¬ (l = l' ∧ q = q')) {a : Nat}
    (h₁ : t' ≤ a) (h₂ : a < t' + 0x1000) : store64 m (t + 8 * i) e a = m a := by
  have := inv.apart h h' hne
  exact store64_of_notMem (by omega)

/-- Nor does it reach the two tables of the window. -/
theorem store_window (inv : TreeInv m T b) (h : T l q = some t) {i e : Nat} (hi : i < 512)
    {a : Nat} (h₁ : 0x80001fa000 ≤ a) (h₂ : a < 0x80001fc000) :
    store64 m (t + 8 * i) e a = m a := by
  have hp := inv.page h
  have hf := inv.foreign h
  exact store64_of_notMem (by omega)

/-- **Writing a leaf** keeps the tree. -/
theorem setLeaf (inv : TreeInv m T b) (h : T 1 q = some t) {i : Nat} (e : Nat) (hi : i < 512) :
    TreeInv (store64 m (t + 8 * i) e) T b :=
  inv.frame (fun _ => inv.store_window h hi)
    fun h' h2 _ => inv.store_other h hi h' (by omega)

/-- It changes one leaf word. -/
theorem leafOf_setLeaf (inv : TreeInv m T b) (h : T 1 q = some t) {i : Nat} (e : Nat)
    (hi : i < 512) :
    leafOf (store64 m (t + 8 * i) e) T =
      Function.update (leafOf m T) (q * 512 + i) (e % 2 ^ 64) := by
  funext x
  by_cases hx : x = q * 512 + i
  · have hq : x / 512 = q := by omega
    have hmod : x % 512 = i := by omega
    rw [leafOf_some (by rw [hq]; exact h), hx, Function.update_self, ← hx, hmod, load64_store64]
  · rw [Function.update_of_ne hx]
    cases h' : T 1 (x / 512) with
    | none => rw [leafOf_none h', leafOf_none h']
    | some t' =>
      rw [leafOf_some h', leafOf_some h']
      by_cases hq : q = x / 512
      · -- the same table: another index
        obtain rfl : t = t' := by
          rw [← hq, h] at h'
          exact Option.some.inj h'
        exact load64_store64_of_apart (by omega)
      · exact load64_congr fun a h₁ h₂ =>
          inv.store_other h hi h' (by omega) (by omega) (by omega)

section

variable (inv : TreeInv m T b) (hl : 1 ≤ l) (ht : T (l + 1) (q / 512) = some t)
  (hnone : T l q = none) (hk : ¬ KernelSlot l q)
  (hc : c % 0x1000 = 0 ∧ 0x8000200000 ≤ c ∧ c < 0x8040000000)
  (hfresh : ∀ {l' q'}, T l' q' ≠ some c) (hzero : ∀ a, c ≤ a → a < c + 0x1000 → m a = 0)

/-- The page of a table to be hung in is none of the tree's. -/
theorem fresh_apart {l' q' t' : Nat} (inv : TreeInv m T b) (hc : c % 0x1000 = 0)
    (hfresh : ∀ {l' q'}, T l' q' ≠ some c) (h' : T l' q' = some t') :
    c + 0x1000 ≤ t' ∨ t' + 0x1000 ≤ c := by
  have hp := inv.page h'
  have hne : t' ≠ c := by
    rintro rfl
    exact hfresh h'
  omega

/-- The entries of a table to be hung in are clear, also when it has been hung in. -/
theorem grow_zero {e i : Nat} (inv : TreeInv m T b) (ht : T (l + 1) (q / 512) = some t)
    (hc : c % 0x1000 = 0) (hfresh : ∀ {l' q'}, T l' q' ≠ some c)
    (hzero : ∀ a, c ≤ a → a < c + 0x1000 → m a = 0) (hi : i < 512) :
    load64 (store64 m (t + 8 * (q % 512)) e) (c + 8 * i) = 0 := by
  have hcl := fresh_apart inv hc hfresh ht
  exact loadLE_eq_zero fun a h₁ h₂ => by
    rw [store64_of_notMem (by omega)]
    exact hzero a (by omega) (by omega)

/-- The entry that leads to a new table is none of the kernel's. -/
theorem grow_slot {e l' q' t' : Nat} (inv : TreeInv m T b) (ht : T (l + 1) (q / 512) = some t)
    (hk : ¬ KernelSlot l q) (hs : KernelSlot l' q') (ht' : T (l' + 1) (q' / 512) = some t')
    (a : Nat) (h₁ : t' + 8 * (q' % 512) ≤ a) (h₂ : a < t' + 8 * (q' % 512) + 8) :
    store64 m (t + 8 * (q % 512)) e a = m a := by
  have hi : q % 512 < 512 := Nat.mod_lt _ (by decide)
  by_cases hpar : l + 1 = l' + 1 ∧ q / 512 = q' / 512
  · obtain ⟨h₃, h₄⟩ := hpar
    rw [← h₃, ← h₄, ht] at ht'
    obtain rfl : t = t' := Option.some.inj ht'
    have hne : q ≠ q' := by
      rintro rfl
      obtain rfl : l = l' := by omega
      exact hk hs
    exact store64_of_notMem (by omega)
  · exact inv.store_other ht hi ht' hpar (by omega) (by omega)

include inv hl ht hnone hk hc hfresh hzero

/-- The entries of the larger tree. -/
theorem grow_linked {l' q' t' : Nat} (hl' : 1 ≤ l')
    (h' : T.set l q c (l' + 1) (q' / 512) = some t') (hk' : ¬ KernelSlot l' q') :
    EntryFor (T.set l q c l' q')
      (load64 (store64 m (t + 8 * (q % 512)) (c - 0x8000000000 + 7))
        (t' + 8 * (q' % 512))) := by
  have hi : q % 512 < 512 := Nat.mod_lt _ (by decide)
  rcases Tables.set_cases h' with ⟨⟨rfl, rfl⟩, rfl⟩ | ⟨-, hold⟩
  · -- an entry of the new table: absent, like the child it would lead to
    have hchild := inv.orphan (l := l') (q := q') (by have := (inv.level ht).2; omega) hnone
    rw [Tables.set_of_ne (by omega), hchild,
      inv.grow_zero ht hc.1 hfresh hzero (Nat.mod_lt q' (by decide))]
    rfl
  · by_cases hkey : l' = l ∧ q' = q
    · obtain ⟨rfl, rfl⟩ := hkey
      obtain rfl : t = t' := Option.some.inj (ht.symm.trans hold)
      rw [Tables.set_self, load64_store64_of_lt (by omega)]
      rfl
    · rw [Tables.set_of_ne hkey]
      have he : load64 (store64 m (t + 8 * (q % 512)) (c - 0x8000000000 + 7))
          (t' + 8 * (q' % 512)) = load64 m (t' + 8 * (q' % 512)) := by
        by_cases hpar : l + 1 = l' + 1 ∧ q / 512 = q' / 512
        · obtain ⟨h₁, h₂⟩ := hpar
          rw [← h₁, ← h₂, ht] at hold
          obtain rfl : t = t' := Option.some.inj hold
          exact load64_store64_of_apart (by omega)
        · exact load64_congr fun a h₁ h₂ =>
            inv.store_other ht hi hold hpar (by omega) (by omega)
      rw [he]
      exact inv.linked hl' hold hk'

/-- **Hanging in a cleared table** keeps the tree. -/
theorem grow :
    TreeInv (store64 m (t + 8 * (q % 512)) (c - 0x8000000000 + 7)) (T.set l q c) b where
  level {l' q' c'} h := by
    rcases Tables.set_cases h with ⟨⟨rfl, -⟩, -⟩ | ⟨-, h⟩
    · have := inv.level ht
      omega
    · exact inv.level h
  root := Tables.set_of_some hnone inv.root
  pdp hb := Tables.set_of_some hnone (inv.pdp hb)
  pd hb := Tables.set_of_some hnone (inv.pd hb)
  vacant {l' q'} h := by
    rw [Tables.set_of_ne]
    · exact inv.vacant h
    · rintro ⟨rfl, rfl⟩
      exact hk h
  linked hl' h' hk' := inv.grow_linked hl ht hnone hk hc hfresh hzero hl' h' hk'
  parent {l' q' c'} h hl4 := by
    rcases Tables.set_cases h with ⟨⟨rfl, rfl⟩, -⟩ | ⟨-, h⟩
    · exact ⟨t, Tables.set_of_some hnone ht⟩
    · obtain ⟨t', ht'⟩ := inv.parent h hl4
      exact ⟨t', Tables.set_of_some hnone ht'⟩
  inj {l₁ q₁ l₂ q₂ c'} h₁ h₂ := by
    rcases Tables.set_cases h₁ with ⟨⟨rfl, rfl⟩, rfl⟩ | ⟨-, hold₁⟩ <;>
      rcases Tables.set_cases h₂ with ⟨⟨rfl, rfl⟩, hc'⟩ | ⟨-, hold₂⟩
    · exact ⟨rfl, rfl⟩
    · exact absurd hold₂ hfresh
    · rw [hc'] at hold₁
      exact absurd hold₁ hfresh
    · exact inv.inj hold₁ hold₂
  page {l' q' c'} h := by
    rcases Tables.set_cases h with ⟨-, rfl⟩ | ⟨-, h⟩
    · exact ⟨hc.1, by omega, hc.2.2⟩
    · exact inv.page h
  foreign {l' q' c'} h := by
    rcases Tables.set_cases h with ⟨-, rfl⟩ | ⟨-, h⟩
    · omega
    · exact inv.foreign h
  kernel hb := (inv.kernel hb).frame
    (inv.grow_slot ht hk (.inl ⟨rfl, rfl⟩) inv.root)
    (inv.grow_slot ht hk (.inr ⟨rfl, rfl⟩) (inv.pd hb))
    fun a => inv.store_window ht (Nat.mod_lt _ (by decide))
  cleared hb {l' q' t'} hs h' := by
    rcases Tables.set_cases h' with ⟨⟨rfl, rfl⟩, rfl⟩ | ⟨-, hold⟩
    · rw [inv.grow_zero ht hc.1 hfresh hzero (Nat.mod_lt q' (by decide))]
    · have he : load64 (store64 m (t + 8 * (q % 512)) (c - 0x8000000000 + 7))
          (t' + 8 * (q' % 512)) =
          load64 m (t' + 8 * (q' % 512)) := load64_congr (inv.grow_slot ht hk hs hold)
      rw [he]
      exact inv.cleared hb hs hold

/-- Hanging in a cleared table keeps every leaf. -/
theorem leafOf_grow :
    leafOf (store64 m (t + 8 * (q % 512)) (c - 0x8000000000 + 7)) (T.set l q c) =
      leafOf m T := by
  have hi : q % 512 < 512 := Nat.mod_lt _ (by decide)
  have hsame : leafOf (store64 m (t + 8 * (q % 512)) (c - 0x8000000000 + 7)) T = leafOf m T :=
    leafOf_frame fun h' a => inv.store_other ht hi h' (by omega)
  rw [← hsame]
  funext x
  by_cases hx : 1 = l ∧ x / 512 = q
  · obtain ⟨rfl, rfl⟩ := hx
    rw [leafOf_none hnone, leafOf_some (Tables.set_self T _ _ c)]
    exact inv.grow_zero ht hc.1 hfresh hzero (Nat.mod_lt x (by decide))
  · simp only [leafOf, Tables.set_of_ne hx]

end

end TreeInv

end BpfExamples.Kvm
