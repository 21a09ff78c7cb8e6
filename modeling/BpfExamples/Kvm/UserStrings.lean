import BpfExamples.Kvm.FileOffsets

/-!
# Path names (`kernel/mm/uaccess.c`, `kernel/syscalls/sys_open.c`)

`access_string_ok` walks over a user string page by page before `sys_open` copies it. The walk
itself needs nothing of the page tables: `accessStringOkFrom_spec` holds of any memory. A page
of the upper half of the 48-bit range passes the checks like any other, but its addresses are
not canonical, so the kernel faults when it reads there.
-/

namespace BpfExamples.Kvm

open Mem

variable {σ : Type} {s s' : Sys σ} {m : Mem} {path : Nat}

/-! ## What the user can read -/

/-- The byte that a user-mode read finds, in the range that is the user's. -/
def userRead (m : Mem) (v : Nat) : Option UInt8 :=
  if userMemRangeOk v then (translateWalk m v true false).map fun p => m (kernelBaseOffset + p)
    else none

/-- The `d` bytes from `path` on can be read and are not zero. -/
def NonZero (m : Mem) (path d : Nat) : Prop :=
  ∀ j, j < d → ∃ b, userRead m (path + j) = some b ∧ b ≠ 0

theorem nonZero_add {l d : Nat} :
    NonZero m path (l + d) ↔ NonZero m path l ∧ NonZero m (path + l) d := by
  constructor
  · intro h
    refine ⟨fun j hj => h j (by omega), fun j hj => ?_⟩
    rw [Nat.add_assoc]
    exact h (l + j) (by omega)
  · rintro ⟨h₁, h₂⟩ j hj
    by_cases hlt : j < l
    · exact h₁ j hlt
    · have hb := h₂ (j - l) (by omega)
      rwa [Nat.add_assoc, Nat.add_sub_cancel' (by omega)] at hb

/-- A scan for the end of the string at `path` gets to the byte at distance `d`. -/
def Reaches (m : Mem) (path d : Nat) : Prop :=
  NonZero m path d ∧ ∃ b, userRead m (path + d) = some b

/-- There is a string of `k` bytes at `path`. -/
def IsString (m : Mem) (path k : Nat) : Prop :=
  NonZero m path k ∧ userRead m (path + k) = some 0

theorem IsString.reaches {k : Nat} (h : IsString m path k) : Reaches m path k := ⟨h.1, 0, h.2⟩

/-- Nothing but zero can stop a scan before the end of the string. -/
theorem IsString.le_of_nonZero {k d : Nat} (h : IsString m path k) (hd : NonZero m path d) :
    d ≤ k := by
  by_contra hlt
  obtain ⟨b, hb, hne⟩ := hd k (by omega)
  rw [h.2] at hb
  exact hne (Option.some.inj hb).symm

theorem isString_skip {l : Nat} (hl : NonZero m path l) :
    (∃ k, IsString m path k) ↔ ∃ k, IsString m (path + l) k := by
  constructor
  · rintro ⟨k, h⟩
    obtain ⟨d, rfl⟩ := Nat.exists_eq_add_of_le (h.le_of_nonZero hl)
    exact ⟨d, (nonZero_add.mp h.1).2, by rw [Nat.add_assoc]; exact h.2⟩
  · rintro ⟨k, h⟩
    exact ⟨l + k, nonZero_add.mpr ⟨hl, h.1⟩, by rw [← Nat.add_assoc]; exact h.2⟩

theorem reaches_skip {l d : Nat} (hl : NonZero m path l) :
    Reaches m path (l + d) ↔ Reaches m (path + l) d := by
  rw [Reaches, Reaches, nonZero_add, Nat.add_assoc]
  exact and_congr_left' (and_iff_right hl)

/-! ## Pages -/

theorem aligndown_slot (t v : Nat) :
    slot t (aligndown v) 39 = slot t v 39 ∧ slot t (aligndown v) 30 = slot t v 30 ∧
    slot t (aligndown v) 21 = slot t v 21 ∧ slot t (aligndown v) 12 = slot t v 12 := by
  simp only [slot_eq, aligndown_eq]
  omega

/-- A walk is the walk to the page, and then the offset in it. -/
theorem translateWalk_page (m : Mem) (v : Nat) (u w : Bool) :
    translateWalk m v u w = (translateWalk m (aligndown v) u w).map (· + v % 0x1000) := by
  have hps : ∀ e, e - e % 0x200000 + v % 0x200000 =
      e - e % 0x200000 + aligndown v % 0x200000 + v % 0x1000 := by
    intro e
    rw [aligndown_eq]
    omega
  have hoff : aligndown v % 0x1000 = 0 := aligndown_mod v
  unfold translateWalk
  simp only [(aligndown_slot _ v).1, (aligndown_slot _ v).2.1, (aligndown_slot _ v).2.2.1,
    (aligndown_slot _ v).2.2.2, hoff, hps]
  cases translateStep m u w (slot pml4Addr v 39) with
  | none => rfl
  | some pdp =>
    simp only [Option.bind_eq_bind, Option.bind_some]
    cases translateStep m u w (slot pdp v 30) with
    | none => rfl
    | some pd =>
      simp only [Option.bind_some]
      cases translateStep m u w (slot pd v 21) with
      | none => rfl
      | some pt =>
        simp only [Option.bind_some]
        split
        · rfl
        · cases translateStep m u w (slot pt v 12) with
          | none => rfl
          | some ret => rfl

theorem translateStep_kernel {w : Bool} {p t : Nat} (h : translateStep m true w p = some t) :
    translateStep m false w p = some t := by
  simp only [translateStep] at h ⊢
  split at h
  · cases h
  · split at h
    · cases h
    · simpa [*] using h

/-- Where the user gets to, the kernel gets as well. -/
theorem translateWalk_kernel {w : Bool} {v p : Nat} (h : translateWalk m v true w = some p) :
    translateWalk m v false w = some p := by
  simp only [translateWalk, Option.bind_eq_bind, Option.bind_eq_some_iff] at h ⊢
  obtain ⟨pdp, h₁, pd, h₂, pt, h₃, h₄⟩ := h
  refine ⟨pdp, translateStep_kernel h₁, pd, translateStep_kernel h₂, pt,
    translateStep_kernel h₃, ?_⟩
  split at h₄
  · next hps => rwa [if_pos hps]
  · next hps =>
    obtain ⟨ret, h₅, h₆⟩ := Option.bind_eq_some_iff.mp h₄
    rw [if_neg hps, translateStep_kernel h₅]
    exact h₆

theorem tableOf_xor_mod (e : Nat) : (tableOf e ^^^ kernelBaseOffset) % 0x1000 = 0 := by
  have hdown : aligndown e % 2 ^ 12 = 0 := aligndown_mod e
  show _ % 2 ^ 12 = 0
  rw [Nat.xor_mod_two_pow, tableOf, Nat.or_mod_two_pow, hdown]
  rfl

/-- A page starts at a page. -/
theorem translateWalk_aligned {u w : Bool} {v p : Nat}
    (h : translateWalk m (aligndown v) u w = some p) : p % 0x1000 = 0 := by
  have hv := aligndown_mod v
  simp only [translateWalk, Option.bind_eq_bind, Option.bind_eq_some_iff] at h
  obtain ⟨pdp, -, pd, -, pt, -, h⟩ := h
  split at h
  · cases h
    omega
  · obtain ⟨ret, hret, h⟩ := Option.bind_eq_some_iff.mp h
    cases h
    have htab : (ret ^^^ kernelBaseOffset) % 0x1000 = 0 := by
      unfold translateStep at hret
      dsimp only at hret
      split at hret
      · cases hret
      · split at hret
        · cases hret
        · split at hret
          · cases hret
          · cases hret
            exact tableOf_xor_mod _
    omega

/-- So `translate` of it cannot be mistaken for an error. -/
theorem translate_page_ne {u w : Bool} {v : Nat} :
    translate m (aligndown v) u w ≠ minusOne ↔ ∃ p, translateWalk m (aligndown v) u w =
      some p := by
  unfold translate
  cases h : translateWalk m (aligndown v) u w with
  | none => simp
  | some p =>
    have hp := translateWalk_aligned h
    have hne : p ≠ minusOne := by
      unfold minusOne
      omega
    simpa using hne

/-- One page decides whether a buffer inside of it is accessible. -/
theorem accessOk_inPage {type : Bool} {addr n : Nat} (hn : 0 < n)
    (hpage : addr % 0x1000 + n ≤ 0x1000) :
    accessOk m type addr n = true ↔ userMemRangeOk addr = true ∧
      ∃ p, translateWalk m addr true type = some p := by
  unfold accessOk
  by_cases hr : userMemRangeOk addr = true
  · have hlt := userMemRangeOk_iff.mp hr
    have hlast : userMemRangeOk ((addr + n + (2 ^ 64 - 1)) % 2 ^ 64) = true := by
      rw [userMemRangeOk_iff]
      have := hlt.2.1
      omega
    have hone : (alignup ((addr + n) % 2 ^ 64) - aligndown addr) / 0x1000 = 1 := by
      have := hlt.2.1
      rw [alignup_eq (by omega), aligndown_eq]
      omega
    rw [hlast, hr, hone, translateWalk_page m addr]
    simp only [accessPages, Bool.and_true, Bool.true_and, bne_iff_ne,
      translate_page_ne, true_and]
    cases translateWalk m (aligndown addr) true type <;> simp
  · simp [hr]

theorem accessOk_one {addr : Nat} :
    accessOk m false addr 1 = true ↔ ∃ b, userRead m addr = some b := by
  rw [accessOk_inPage (by decide) (Nat.mod_lt addr (by decide)), userRead]
  by_cases hr : userMemRangeOk addr = true
  · simp only [hr, true_and, if_true]
    cases translateWalk m addr true false <;> simp
  · simp [hr]

/-- The bytes of a page are accessible together. -/
theorem userRead_page {v v' : Nat} (hpage : v' / 0x1000 = v / 0x1000)
    (h : ∃ b, userRead m v = some b) : ∃ b, userRead m v' = some b := by
  have hdown : aligndown v' = aligndown v := by rw [aligndown_eq, aligndown_eq, hpage]
  have hrange : userMemRangeOk v' = userMemRangeOk v := by
    rw [Bool.eq_iff_iff, userMemRangeOk_iff, userMemRangeOk_iff]
    omega
  unfold userRead at h ⊢
  rw [translateWalk_page] at h ⊢
  rw [hrange, hdown]
  by_cases hr : userMemRangeOk v = true
  · simp only [hr, if_true] at h ⊢
    cases hw : translateWalk m (aligndown v) true false with
    | none => simp [hw] at h
    | some p => simp
  · simp [hr] at h

/-! ## Reads by the kernel -/

/-- The kernel gets at what the user reads, below the middle of the 48-bit range. -/
theorem userRead_cell {v : Nat} {b : UInt8} (hv : v < 2 ^ 47) (h : userRead m v = some b) :
    ∃ p, translateWalk m v true false = some p ∧
      cellAt m false v = some (kernelBaseOffset + p) ∧
      m (kernelBaseOffset + p) = b := by
  unfold userRead at h
  split at h
  · next hr =>
    obtain ⟨p, hp, rfl⟩ := Option.map_eq_some_iff.mp h
    refine ⟨p, hp, ?_, rfl⟩
    simp only [cellAt, kernelSpace_user hr, hv, if_true, translateWalk_kernel hp,
      Option.map_some]
  · cases h

theorem cellAt_userRead {v : Nat} {b : UInt8} (hv : v < 2 ^ 47) (h : userRead m v = some b) :
    ∃ c, cellAt m false v = some c ∧ m c = b := by
  obtain ⟨p, -, hc, hb⟩ := userRead_cell hv h
  exact ⟨_, hc, hb⟩

/-- Above it the read faults. -/
theorem peek_high {v : Nat} {b : UInt8} (hv : 2 ^ 47 ≤ v) (h : userRead s.mem v = some b) :
    peek v s = .error .fault s := by
  unfold userRead at h
  split at h
  · next hr =>
    refine peek_of_none ?_
    simp only [cellAt, kernelSpace_user hr, Nat.not_lt.mpr hv, if_false]
  · cases h

/-! ## `strnlen` -/

/-- The bytes that can be read are a string's, or none of them is zero. -/
theorem nonZero_or_isString {a n : Nat} (h : ∀ j, j < n → ∃ b, userRead m (a + j) = some b) :
    NonZero m a n ∨ ∃ l, l < n ∧ IsString m a l := by
  induction n with
  | zero => exact .inl fun j hj => absurd hj (Nat.not_lt_zero j)
  | succ n ih =>
    rcases ih fun j hj => h j (by omega) with hnz | ⟨l, hl, hstr⟩
    · obtain ⟨b, hb⟩ := h n (Nat.lt_succ_self n)
      by_cases hz : b = 0
      · exact .inr ⟨n, Nat.lt_succ_self n, hnz, hz ▸ hb⟩
      · refine .inl fun j hj => ?_
        by_cases hj' : j < n
        · exact hnz j hj'
        · obtain rfl : j = n := by omega
          exact ⟨b, hb, hz⟩
    · exact .inr ⟨l, by omega, hstr⟩

/-- The scan goes on behind bytes that are not zero. -/
theorem strnlenFrom_skip {v : Nat} (l : Nat) : ∀ (i n : Nat),
    (∀ j, i ≤ j → j < i + l → ∃ c, cellAt s.mem false (v + j) = some c ∧ s.mem c ≠ 0) →
      strnlenFrom v (l + n) i s = strnlenFrom v n (i + l) s := by
  induction l with
  | zero =>
    intro i n _
    rw [Nat.zero_add, Nat.add_zero]
  | succ l ih =>
    intro i n hnz
    obtain ⟨c, hc, hne⟩ := hnz i (Nat.le_refl i) (by omega)
    rw [Nat.add_right_comm l 1 n, strnlenFrom, bind_of_ok (peek_of_cell hc), if_neg hne,
      ih (i + 1) n fun j h₁ h₂ => hnz j (by omega) (by omega), Nat.add_right_comm i 1 l]
    rfl

theorem strnlen_cells {v l n : Nat}
    (hnz : ∀ j, j < l → ∃ c, cellAt s.mem false (v + j) = some c ∧ s.mem c ≠ 0)
    (hz : ∃ c, cellAt s.mem false (v + l) = some c ∧ s.mem c = 0) (hl : l < n) :
    strnlen v n s = .ok l s := by
  obtain ⟨d, rfl⟩ : ∃ d, n = l + (d + 1) := ⟨n - l - 1, by omega⟩
  obtain ⟨c, hc, hzero⟩ := hz
  rw [strnlen, strnlenFrom_skip l 0 (d + 1) fun j _ hj => hnz j (by omega), Nat.zero_add,
    strnlenFrom, bind_of_ok (peek_of_cell hc), if_pos hzero]
  rfl

theorem NonZero.cells {v l : Nat} (h : NonZero s.mem v l) (hlow : v + l ≤ 2 ^ 47) :
    ∀ j, j < l → ∃ c, cellAt s.mem false (v + j) = some c ∧ s.mem c ≠ 0 := by
  intro j hj
  obtain ⟨b, hb, hne⟩ := h j hj
  obtain ⟨c, hc, rfl⟩ := cellAt_userRead (by omega) hb
  exact ⟨c, hc, hne⟩

/-- **`strnlen`** finds the end of a string below the middle of the 48-bit range. -/
theorem strnlen_string {v l n : Nat} (h : IsString s.mem v l) (hl : l < n)
    (hlow : v + l < 2 ^ 47) : strnlen v n s = .ok l s := by
  obtain ⟨c, hc, hz⟩ := cellAt_userRead hlow h.2
  exact strnlen_cells (h.1.cells (by omega)) ⟨c, hc, hz⟩ hl

/-- Where it finds none it goes through to the end. -/
theorem strnlen_nonZero {v n : Nat} (h : NonZero s.mem v n) (hlow : v + n ≤ 2 ^ 47) :
    strnlen v n s = .ok n s := by
  rw [strnlen, ← Nat.add_zero n, strnlenFrom_skip n 0 0 fun j _ hj => h.cells hlow j (by omega),
    Nat.zero_add]
  rfl

/-! ## `access_string_ok` -/

/-- **The walk over the pages**, with enough turns left: a verdict that is right, or a fault at
the first page it reaches above the middle. -/
theorem accessStringOkFrom_spec (fuel : Nat) :
    ∀ addr : Nat, 0 < fuel → 2 ^ 36 < fuel + addr / 0x1000 →
      (∃ b, accessStringOkFrom fuel addr s = .ok b s ∧ (b = true ↔ ∃ k, IsString s.mem addr k) ∧
        ∀ d, Reaches s.mem addr d → addr + d < 2 ^ 47) ∨
      (accessStringOkFrom fuel addr s = .error .fault s ∧ ∃ d, Reaches s.mem addr d ∧
        2 ^ 47 ≤ addr + d) := by
  induction fuel with
  | zero => exact fun _ h => absurd h (by decide)
  | succ fuel ih =>
    intro addr _ hfuel
    have hmem : ∀ b, accessOk s.mem false addr 1 = b →
        onMem (fun m => accessOk m false addr 1) s = .ok b s := by
      rintro b rfl
      rfl
    by_cases hread : ∃ b, userRead s.mem addr = some b
    · have hok := hmem true (accessOk_one.mpr hread)
      obtain ⟨rem, hrem⟩ : ∃ rem, 0x1000 - addr % 0x1000 = rem + 1 :=
        ⟨0x1000 - addr % 0x1000 - 1, by omega⟩
      have hlt : addr < 2 ^ 48 := by
        obtain ⟨b, hb⟩ := hread
        unfold userRead at hb
        split at hb
        · next hr => exact (userMemRangeOk_iff.mp hr).2.1
        · cases hb
      rw [accessStringOkFrom, bind_of_ok hok, if_neg (by decide)]
      simp only [hrem]
      by_cases hhigh : 2 ^ 47 ≤ addr
      · -- the first byte that `strnlen` looks at
        refine .inr ⟨?_, 0, ⟨fun j hj => absurd hj (Nat.not_lt_zero j), hread⟩, hhigh⟩
        obtain ⟨b, hb⟩ := hread
        have hfault : strnlen addr (rem + 1) s = .error .fault s := by
          rw [strnlen, strnlenFrom, Nat.add_zero, bind_of_error (peek_high hhigh hb)]
        rw [bind_of_error hfault]
      have hpage : ∀ j, j < rem + 1 → ∃ b, userRead s.mem (addr + j) = some b := fun j hj =>
        userRead_page (by omega) hread
      rcases nonZero_or_isString hpage with hnz | ⟨l, hl, hstr⟩
      · -- the string goes on in the next page
        rw [bind_of_ok (strnlen_nonZero hnz (by omega)), if_pos rfl]
        rcases ih (addr + (rem + 1)) (by omega) (by omega) with
          ⟨b, hrun, hiff, hlow⟩ | ⟨hrun, d, hd, hge⟩
        · refine .inl ⟨b, hrun, hiff.trans (isString_skip hnz).symm, fun d hd => ?_⟩
          by_cases hd' : d < rem + 1
          · omega
          · obtain ⟨e, rfl⟩ : ∃ e, d = rem + 1 + e := ⟨d - (rem + 1), by omega⟩
            have := hlow e ((reaches_skip hnz).mp hd)
            omega
        · exact .inr ⟨hrun, rem + 1 + d, (reaches_skip hnz).mpr hd, by omega⟩
      · rw [bind_of_ok (strnlen_string hstr hl (by omega)), if_neg (by omega)]
        refine .inl ⟨true, rfl, iff_of_true rfl ⟨l, hstr⟩, fun d hd => ?_⟩
        have := hstr.le_of_nonZero hd.1
        omega
    · -- not even the first byte
      have hno : accessOk s.mem false addr 1 = false := by
        rw [← Bool.not_eq_true, accessOk_one]
        exact hread
      have hnone : ∀ d, ¬ Reaches s.mem addr d := by
        rintro d ⟨hnz, hlast⟩
        cases d with
        | zero => exact hread hlast
        | succ d =>
          obtain ⟨b, hb, -⟩ := hnz 0 (Nat.succ_pos d)
          exact hread ⟨b, hb⟩
      refine .inl ⟨false, ?_, ?_, fun d hd => absurd hd (hnone d)⟩
      · rw [accessStringOkFrom, bind_of_ok (hmem false hno)]
        rfl
      · refine iff_of_false (by decide) ?_
        rintro ⟨k, hk⟩
        exact hnone k hk.reaches

/-- **`access_string_ok`** ends with the right verdict exactly when it reaches no address above
the middle. -/
theorem accessStringOk_iff :
    (∃ b, accessStringOk path s = .ok b s ∧ (b = true ↔ ∃ k, IsString s.mem path k)) ↔
      ∀ d, Reaches s.mem path d → path + d < 2 ^ 47 := by
  rcases accessStringOkFrom_spec (s := s) (2 ^ 36 + 1) path (by decide) (by omega) with
    ⟨b, hrun, hiff, hlow⟩ | ⟨hrun, d, hd, hge⟩
  · exact iff_of_true ⟨b, hrun, hiff⟩ hlow
  · refine iff_of_false ?_ fun h => Nat.not_lt.mpr hge (h d hd)
    rintro ⟨b, hb, -⟩
    rw [accessStringOk, hrun] at hb
    cases hb

end BpfExamples.Kvm
