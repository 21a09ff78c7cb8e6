import BpfExamples.Kvm.Hypercall

/-!
# Which guest memory the handlers touch

`CHECK_OOB` looks at the first byte of an argument block. The handlers then read
24 bytes (`read`, `write`), 12 bytes (`lseek`) or up to the next zero byte
(`open`). `hpHandler_inBounds` is the exact condition under which none of that
leaves guest memory; buffers handed to the host never do.
-/

namespace BpfExamples.Kvm

open Mem

/-! ## `strlen` -/

namespace Guest

variable {g : Guest}

/-- A string that ends in guest memory is measured. -/
theorem strlenFrom_ok {n offset i : Nat} (h₁ : offset ≤ i) (h₂ : i < offset + n)
    (hz : g.byte i = 0) : ∃ len, g.strlenFrom n offset = .ok len ∧ offset + len ≤ i := by
  induction n generalizing offset with
  | zero => omega
  | succ n ih =>
    rw [strlenFrom]
    by_cases hb : g.byte offset = 0
    · exact ⟨0, if_pos hb, h₁⟩
    · -- the scan moves on, so the zero byte is further up
      have hne : offset ≠ i := by
        rintro rfl
        exact hb hz
      obtain ⟨len, hlen, hle⟩ := ih (show offset + 1 ≤ i by omega) (by omega)
      refine ⟨len + 1, ?_, by omega⟩
      rw [if_neg hb, hlen]
      rfl

/-- A string without an end in guest memory takes the scan out of it. -/
theorem strlenFrom_outOfRange {n offset : Nat}
    (h : ∀ i, offset ≤ i → i < offset + n → g.byte i ≠ 0) :
    g.strlenFrom n offset = .error .outOfRange := by
  induction n generalizing offset with
  | zero => rfl
  | succ n ih =>
    have hb : g.byte offset ≠ 0 := h offset (Nat.le_refl _) (by omega)
    rw [strlenFrom, if_neg hb, ih fun i h₁ h₂ => h i (by omega) (by omega)]
    rfl

/-- `strlen` leaves guest memory exactly when no zero byte follows in it. -/
theorem strlen_outOfRange_iff {offset : Nat} (ho : offset < g.memSize) :
    g.strlen offset = .error .outOfRange ↔ ¬ ∃ i, offset ≤ i ∧ i < g.memSize ∧
      g.byte i = 0 := by
  constructor
  · rintro h ⟨i, h₁, h₂, hz⟩
    obtain ⟨len, hlen, -⟩ := strlenFrom_ok (n := g.memSize - offset) h₁ (by omega) hz
    rw [strlen, hlen] at h
    cases h
  · intro h
    exact strlenFrom_outOfRange fun i h₁ h₂ hz => h ⟨i, h₁, by omega, hz⟩

theorem strlen_cases {offset : Nat} (ho : offset < g.memSize) :
    g.strlen offset = .error .outOfRange ∨ ∃ len, g.strlen offset = .ok len := by
  by_cases h : ∃ i, offset ≤ i ∧ i < g.memSize ∧ g.byte i = 0
  · obtain ⟨i, h₁, h₂, hz⟩ := h
    obtain ⟨len, hlen, -⟩ := strlenFrom_ok (n := g.memSize - offset) h₁ (by omega) hz
    exact .inr ⟨len, hlen⟩
  · exact .inl ((strlen_outOfRange_iff ho).mpr h)

/-- What `strlen` finds: the first zero byte, inside guest memory. -/
theorem strlenFrom_eq_ok_iff {n : Nat} : ∀ {offset k : Nat}, g.strlenFrom n offset = .ok k ↔
    k < n ∧ g.byte (offset + k) = 0 ∧ ∀ j, j < k → g.byte (offset + j) ≠ 0 := by
  induction n with
  | zero =>
    intro offset k
    exact iff_of_false nofun fun h => absurd h.1 (Nat.not_lt_zero k)
  | succ n ih =>
    intro offset k
    rw [strlenFrom]
    by_cases hb : g.byte offset = 0
    · rw [if_pos hb]
      constructor
      · rintro ⟨⟩
        exact ⟨Nat.succ_pos n, hb, fun j hj => absurd hj (Nat.not_lt_zero j)⟩
      · rintro ⟨-, -, hne⟩
        cases k with
        | zero => rfl
        | succ k => exact absurd hb (hne 0 (Nat.succ_pos k))
    · rw [if_neg hb]
      cases k with
      | zero =>
        refine iff_of_false (fun h => ?_) fun h => hb h.2.1
        obtain ⟨len, -, hlen⟩ := bind_eq_ok.mp h
        cases hlen
      | succ k =>
        have hshift : ∀ j, offset + (j + 1) = offset + 1 + j := fun j => by omega
        have hbind : ((do let len ← g.strlenFrom n (offset + 1); return len + 1) =
            Except.ok (k + 1)) ↔ g.strlenFrom n (offset + 1) = .ok k := by
          refine bind_eq_ok.trans ⟨?_, fun h => ⟨k, h, rfl⟩⟩
          rintro ⟨len, hlen, heq⟩
          cases heq
          exact hlen
        rw [hbind, ih, hshift k]
        refine and_congr (by omega)
          (and_congr_right fun _ => ⟨fun h j hj => ?_, fun h j hj => ?_⟩)
        · cases j with
          | zero => exact hb
          | succ j =>
            rw [hshift]
            exact h j (by omega)
        · rw [← hshift]
          exact h (j + 1) (by omega)

theorem strlen_eq_ok_iff {offset k : Nat} : g.strlen offset = .ok k ↔
    offset + k < g.memSize ∧ g.byte (offset + k) = 0 ∧ ∀ j, j < k →
      g.byte (offset + j) ≠ 0 := by
  rw [strlen, strlenFrom_eq_ok_iff]
  exact and_congr_left' (by omega)

theorem checkOob_pos {offset : Nat} (h : offset < g.memSize) : g.checkOob offset = .ok () :=
  if_pos h

theorem checkOob_neg {offset : Nat} (h : ¬ offset < g.memSize) :
    g.checkOob offset = .error .assertion :=
  if_neg h

theorem word_pos {offset n : Nat} (h : offset + n ≤ g.memSize) :
    g.word offset n = .ok (loadLE g.byte offset n) :=
  if_pos h

theorem word_neg {offset n : Nat} (h : ¬ offset + n ≤ g.memSize) :
    g.word offset n = .error .outOfRange :=
  if_neg h

end Guest

/-! ## What a handler hands to the host -/

/-- The buffer of a call, as offset and length. -/
def HostCall.buffer : HostCall → Option (Nat × Nat)
  | .read _ buf nbytes => some (buf, nbytes)
  | .write _ buf nbytes => some (buf, nbytes)
  | _ => none

/-- A handler that stays in guest memory: it does not itself read behind the end, and the
host gets no buffer that reaches behind it. -/
structure InBounds (g : Guest) (out : Except Halt Action) : Prop where
  reads : out ≠ .error .outOfRange
  buffer : ∀ call after buf n, out = .ok (.host call after) → call.buffer = some (buf, n) →
    buf + n ≤ g.memSize

theorem InBounds.of_error {g : Guest} {e : Halt} (h : e ≠ .outOfRange) :
    InBounds g (.error e) :=
  ⟨fun heq => h (Except.error.inj heq), nofun⟩

theorem InBounds.of_answer {g : Guest} (t : FdMap) (ret : Int) :
    InBounds g (.ok (.answer t ret)) :=
  ⟨nofun, nofun⟩

theorem InBounds.of_host {g : Guest} {call : HostCall} {after : HostReply → FdMap × Int}
    (h : ∀ buf n, call.buffer = some (buf, n) → buf + n ≤ g.memSize) :
    InBounds g (.ok (.host call after)) := by
  refine ⟨nofun, ?_⟩
  rintro _ _ buf n heq
  cases heq
  exact h buf n

/-- `PROCESS_ON_FD` is as safe as its work. -/
theorem InBounds.processOnFd {g : Guest} {t : FdMap} {fd : Int}
    {work : Int → Except Halt HostCall} {t' : FdMap → FdMap}
    (hwork : ∀ realFd, (∃ e, work realFd = .error e ∧ e ≠ .outOfRange) ∨ ∃ call, work realFd =
      .ok call ∧ ∀ buf n, call.buffer = some (buf, n) → buf + n ≤ g.memSize) :
    InBounds g (Kvm.processOnFd t fd work t') := by
  unfold Kvm.processOnFd
  dsimp only
  split
  · exact InBounds.of_answer _ _
  · rcases hwork ((mayInitFdMap t).handle fd.toNat).realFd with ⟨e, he, hne⟩ | ⟨call, hc, hbuf⟩
    · rw [he]
      exact InBounds.of_error hne
    · rw [hc]
      exact InBounds.of_host hbuf

/-! ## The condition -/

/-- The argument of a hypercall lies in guest memory as a whole, or is rejected at once. -/
def ArgsInside (nr : HpNr) (g : Guest) (data : Nat) : Prop :=
  match nr with
  | .openFile | .panic => g.memSize ≤ data ∨ ∃ i, data ≤ i ∧ i < g.memSize ∧ g.byte i = 0
  | .read | .write => g.memSize ≤ data ∨ data + 24 ≤ g.memSize
  | .lseek => g.memSize ≤ data ∨ data + 12 ≤ g.memSize
  | .close | .exit => True

theorem hpHandleOpen_inBounds (t : FdMap) (g : Guest) (data : Nat) :
    InBounds g (hpHandleOpen t g data) ↔ ArgsInside .openFile g data := by
  unfold hpHandleOpen ArgsInside
  by_cases ho : data < g.memSize
  · rw [g.checkOob_pos ho, ok_bind]
    rcases g.strlen_cases ho with herr | ⟨len, hlen⟩
    · rw [herr, error_bind]
      have hno := (g.strlen_outOfRange_iff ho).mp herr
      refine ⟨fun h => absurd rfl h.reads, ?_⟩
      rintro (hle | hex)
      · omega
      · exact absurd hex hno
    · have hex : ∃ i, data ≤ i ∧ i < g.memSize ∧ g.byte i = 0 := by
        by_contra hno
        rw [(g.strlen_outOfRange_iff ho).mpr hno] at hlen
        cases hlen
      refine ⟨fun _ => .inr hex, fun _ => ?_⟩
      rw [hlen, ok_bind]
      by_cases hend : (data + len) % 2 ^ 32 < g.memSize
      · rw [g.checkOob_pos hend, ok_bind]
        dsimp only
        split
        · exact InBounds.of_answer _ _
        · exact InBounds.of_host nofun
      · rw [g.checkOob_neg hend, error_bind]
        exact InBounds.of_error nofun
  · rw [g.checkOob_neg ho, error_bind]
    exact ⟨fun _ => .inl (by omega), fun _ => InBounds.of_error nofun⟩

/-- The range check of `handle_rw` does not wrap. -/
theorem rw_range {paddr nbytes memSize : Nat} (hn : nbytes < 2 ^ 64)
    (h₁ : paddr ≤ (paddr + nbytes) % 2 ^ 64) (h₂ : (paddr + nbytes) % 2 ^ 64 ≤ memSize) :
    paddr + nbytes ≤ memSize := by
  omega

theorem handleRw_inBounds {fptr : Int → Nat → Nat → HostCall}
    (hf : ∀ fd buf n, (fptr fd buf n).buffer = some (buf, n)) (t : FdMap) (g : Guest)
    (data : Nat) :
    InBounds g (handleRw fptr t g data) ↔ g.memSize ≤ data ∨ data + 24 ≤ g.memSize := by
  unfold handleRw
  by_cases ho : data < g.memSize
  · rw [g.checkOob_pos ho, ok_bind]
    by_cases hin : data + 24 ≤ g.memSize
    · refine ⟨fun _ => .inr hin, fun _ => ?_⟩
      rw [g.word_pos (by omega), ok_bind, g.word_pos (by omega), ok_bind,
        g.word_pos (by omega), ok_bind]
      have hlt : loadLE g.byte (data + 16) 8 < 2 ^ 64 := loadLE_lt _ 8 _
      generalize loadLE g.byte (data + 8) 8 = paddr
      generalize loadLE g.byte (data + 16) 8 = nbytes at hlt
      dsimp only
      split
      · exact InBounds.of_answer _ _
      · next hrange =>
        simp only [Bool.not_eq_true, Bool.not_eq_false', Bool.and_eq_true,
          decide_eq_true_eq] at hrange
        refine InBounds.processOnFd fun realFd => ?_
        by_cases hp : paddr < g.memSize
        · refine .inr ⟨fptr realFd paddr nbytes, by rw [g.checkOob_pos hp]; rfl, ?_⟩
          intro buf n hbuf
          rw [hf] at hbuf
          cases hbuf
          exact rw_range hlt hrange.1 hrange.2
        · exact .inl ⟨.assertion, by rw [g.checkOob_neg hp]; rfl, nofun⟩
    · refine ⟨fun h => absurd ?_ h.reads, by rintro (h | h) <;> omega⟩
      -- the block is cut off in its first, second or third word
      by_cases h₀ : data + 8 ≤ g.memSize
      · rw [g.word_pos h₀, ok_bind]
        by_cases h₁ : data + 8 + 8 ≤ g.memSize
        · rw [g.word_pos h₁, ok_bind, g.word_neg (by omega), error_bind]
        · rw [g.word_neg h₁, error_bind]
      · rw [g.word_neg h₀, error_bind]
  · rw [g.checkOob_neg ho, error_bind]
    exact ⟨fun _ => .inl (by omega), fun _ => InBounds.of_error nofun⟩

theorem hpHandleLseek_inBounds (t : FdMap) (g : Guest) (data : Nat) :
    InBounds g (hpHandleLseek t g data) ↔ g.memSize ≤ data ∨ data + 12 ≤ g.memSize := by
  unfold hpHandleLseek
  by_cases ho : data < g.memSize
  · rw [g.checkOob_pos ho, ok_bind]
    by_cases hin : data + 12 ≤ g.memSize
    · refine ⟨fun _ => .inr hin, fun _ => ?_⟩
      rw [g.word_pos (by omega), ok_bind, g.word_pos (by omega), ok_bind,
        g.word_pos (by omega), ok_bind]
      exact InBounds.processOnFd fun realFd => .inr ⟨_, rfl, nofun⟩
    · refine ⟨fun h => absurd ?_ h.reads, by rintro (h | h) <;> omega⟩
      by_cases h₀ : data + 4 ≤ g.memSize
      · rw [g.word_pos h₀, ok_bind]
        by_cases h₁ : data + 4 + 4 ≤ g.memSize
        · rw [g.word_pos h₁, ok_bind, g.word_neg (by omega), error_bind]
        · rw [g.word_neg h₁, error_bind]
      · rw [g.word_neg h₀, error_bind]
  · rw [g.checkOob_neg ho, error_bind]
    exact ⟨fun _ => .inl (by omega), fun _ => InBounds.of_error nofun⟩

theorem hpHandleClose_inBounds (t : FdMap) (g : Guest) (data : Nat) :
    InBounds g (hpHandleClose t data) := by
  unfold hpHandleClose
  refine InBounds.processOnFd fun realFd => ?_
  exact .inr ⟨.close realFd, rfl, nofun⟩

theorem hpHandlePanic_inBounds (g : Guest) (data : Nat) :
    InBounds g (hpHandlePanic g data) ↔ ArgsInside .panic g data := by
  unfold hpHandlePanic ArgsInside
  by_cases ho : data < g.memSize
  · rw [g.checkOob_pos ho, ok_bind]
    rcases g.strlen_cases ho with herr | ⟨len, hlen⟩
    · rw [herr, error_bind]
      have hno := (g.strlen_outOfRange_iff ho).mp herr
      refine ⟨fun h => absurd rfl h.reads, ?_⟩
      rintro (hle | hex)
      · omega
      · exact absurd hex hno
    · rw [hlen, ok_bind]
      refine ⟨fun _ => .inr ?_, fun _ => InBounds.of_error nofun⟩
      by_contra hno
      rw [(g.strlen_outOfRange_iff ho).mpr hno] at hlen
      cases hlen
  · rw [g.checkOob_neg ho, error_bind]
    exact ⟨fun _ => .inl (by omega), fun _ => InBounds.of_error nofun⟩

/-- **The handlers stay in guest memory exactly when their argument block does.** For
every memory, size, table and value written to the port. -/
theorem hpHandler_inBounds (nr : HpNr) (t : FdMap) (g : Guest) (data : Nat) :
    InBounds g (hpHandler nr t g data) ↔ ArgsInside nr g data := by
  cases nr with
  | openFile => exact hpHandleOpen_inBounds t g data
  | read => exact handleRw_inBounds (fun _ _ _ => rfl) t g data
  | write => exact handleRw_inBounds (fun _ _ _ => rfl) t g data
  | close => exact ⟨fun _ => trivial, fun _ => hpHandleClose_inBounds t g data⟩
  | lseek => exact hpHandleLseek_inBounds t g data
  | exit => exact ⟨fun _ => trivial, fun _ => InBounds.of_error nofun⟩
  | panic => exact hpHandlePanic_inBounds g data

/-- **They can leave it**: with the guest's 4 MB of memory, a `read` whose argument block
starts at the last byte passes `CHECK_OOB` and is read behind the end. -/
theorem hpHandler_outOfRange :
    hpHandler .read FdMap.static ⟨fun _ => 0, 0x400000⟩ 0x3fffff = .error .outOfRange := by
  show handleRw .read FdMap.static ⟨fun _ => 0, 0x400000⟩ 0x3fffff = .error .outOfRange
  rw [handleRw, Guest.checkOob_pos (by decide), ok_bind, Guest.word_neg (by decide), error_bind]

end BpfExamples.Kvm
