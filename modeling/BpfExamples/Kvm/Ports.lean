import BpfExamples.Base.Runs
import BpfExamples.Kvm.FdRuns

/-!
# Requests and answers on the hypercall ports (`hypervisor/hypercall.c`)

The guest asks by a write to a port (OUT) and fetches the answer by a read of it (IN). In
between the answer is parked in a `static int ret` of the function that serves the port,
where `UNUSED_VAR` stands for none. `read` and `write` are two ports, but one function,
`handle_rw`, serves both.

A run keeps a log of the accesses. What an IN should deliver is read off the log (`due`):
the answer of the last OUT on the port, unless it was fetched already. What it does deliver
is what the last access on any port with the same variable left there (`parked`).
-/

namespace BpfExamples.Kvm

/-! ## The ports -/

/-- The ports with an answer (hypercall_table.h). -/
inductive Port
  | openFile
  | read
  | write
  | close
  | lseek
deriving DecidableEq, Repr

def Port.nr : Port → HpNr
  | .openFile => .openFile
  | .read => .read
  | .write => .write
  | .close => .close
  | .lseek => .lseek

/-- The variables named `ret`: those of `hp_handle_open`, `handle_rw`, `hp_handle_close` and
`hp_handle_lseek` (hypercall.c:79, 115, 149, 160). -/
inductive Static
  | openRet
  | rwRet
  | closeRet
  | lseekRet
deriving DecidableEq, Repr

/-- The variable of the function that serves a port. -/
def Port.static : Port → Static
  | .openFile => .openRet
  | .read => .rwRet
  | .write => .rwRet
  | .close => .closeRet
  | .lseek => .lseekRet

/-- The static data of hypercall.c. -/
structure HpStatics where
  fds : FdMap
  ret : Static → Int

/-- Before the first hypercall. -/
def HpStatics.initial : HpStatics := ⟨FdMap.static, fun _ => unusedVar⟩

/-- The work behind a `PROCESS` for the value `data`: the table afterwards, and the result. -/
def hpProcess (p : Port) (t : FdMap) (g : Guest) (data : Nat) (reply : HostReply) :
    Except Halt (FdMap × Int) := do
  match ← hpHandler p.nr t g data with
  | .answer t ret => return (t, ret)
  | .host _ after => return after reply

/-- `hp_handler` for an OUT: the result is parked. -/
def hpOut (v : HpStatics) (p : Port) (g : Guest) (data : Nat) (reply : HostReply) :
    Except Halt (HpStatics × Int) := do
  let (t, ret) ← hpProcess p v.fds g data reply
  return (⟨t, Function.update v.ret p.static ret⟩, ret)

/-- What `hp_handler` does for an IN: its result, and the value it stores for the guest. -/
structure InResult where
  code : Int
  stored : Option Int
deriving DecidableEq, Repr

/-- The value is delivered; or the fetch is refused, and nothing stored. -/
def InResult.of : Option Int → InResult
  | some ret => ⟨0, some ret⟩
  | none => ⟨-1, none⟩

theorem InResult.of_inj {a b : Option Int} : InResult.of a = InResult.of b ↔ a = b := by
  refine ⟨fun h => ?_, congrArg _⟩
  have hstored : (InResult.of a).stored = a ∧ (InResult.of b).stored = b := by
    constructor
    · cases a <;> rfl
    · cases b <;> rfl
  rw [← hstored.1, ← hstored.2, h]

/-- `hp_handler` for an IN, that is `THEN_RETURN` (hypercall.c:65–69). -/
def hpIn (v : HpStatics) (p : Port) : HpStatics × InResult :=
  if v.ret p.static = unusedVar then (v, .of none)
  else ({ v with ret := Function.update v.ret p.static unusedVar }, .of (some (v.ret p.static)))

/-! ## Results -/

/-- All results of a request satisfy `P`, for any host whose `errno` is an error number. -/
def Action.Results (P : Int → Prop) : Action → Prop
  | .answer _ ret => P ret
  | .host _ after => ∀ r : HostReply, 0 ≤ r.errno ∧ r.errno ≤ 4095 → P (after r).2

theorem resultOf_ge {r : HostReply} (h : 0 ≤ r.errno ∧ r.errno ≤ 4095) :
    -4095 ≤ resultOf r := by
  unfold resultOf
  split <;> omega

theorem processOnFd_results {t : FdMap} {fd : Int} {work : Int → Except Halt HostCall}
    {t' : FdMap → FdMap} {a : Action} (h : processOnFd t fd work t' = .ok a) :
    a.Results (-4095 ≤ ·) := by
  rcases processOnFd_ok h with ⟨-, rfl⟩ | ⟨-, call, -, rfl⟩
  · show -4095 ≤ -eBADF
    decide
  · exact fun r hr => resultOf_ge hr

theorem handleRw_results {fptr : Int → Nat → Nat → HostCall} {t : FdMap} {g : Guest}
    {data : Nat} {a : Action} (h : handleRw fptr t g data = .ok a) : a.Results (-4095 ≤ ·) := by
  unfold handleRw at h
  obtain ⟨-, -, h⟩ := bind_eq_ok.mp h
  obtain ⟨w₀, -, h⟩ := bind_eq_ok.mp h
  obtain ⟨w₁, -, h⟩ := bind_eq_ok.mp h
  obtain ⟨w₂, -, h⟩ := bind_eq_ok.mp h
  dsimp only at h
  split at h
  · cases h
    show -4095 ≤ -eACCES
    decide
  · exact processOnFd_results h

theorem hpHandleOpen_results {t : FdMap} {g : Guest} {data : Nat} {a : Action}
    (h : hpHandleOpen t g data = .ok a) : a.Results (-4095 ≤ ·) := by
  unfold hpHandleOpen at h
  obtain ⟨-, -, h⟩ := bind_eq_ok.mp h
  obtain ⟨len, -, h⟩ := bind_eq_ok.mp h
  obtain ⟨-, -, h⟩ := bind_eq_ok.mp h
  dsimp only at h
  split at h
  · cases h
    show -4095 ≤ -eNFILE
    decide
  · cases h
    intro r hr
    dsimp only
    split <;> dsimp only <;> omega

/-- **No result is as small as `UNUSED_VAR`.** -/
theorem hpProcess_ge {p : Port} {t t' : FdMap} {g : Guest} {data : Nat} {reply : HostReply}
    {ret : Int} (hreply : 0 ≤ reply.errno ∧ reply.errno ≤ 4095)
    (h : hpProcess p t g data reply = .ok (t', ret)) : -4095 ≤ ret := by
  unfold hpProcess at h
  obtain ⟨a, ha, h⟩ := bind_eq_ok.mp h
  have hres : a.Results (-4095 ≤ ·) := by
    cases p with
    | openFile => exact hpHandleOpen_results ha
    | read => exact handleRw_results ha
    | write => exact handleRw_results ha
    | close =>
      change hpHandleClose t data = .ok a at ha
      unfold hpHandleClose at ha
      exact processOnFd_results ha
    | lseek =>
      change hpHandleLseek t g data = .ok a at ha
      unfold hpHandleLseek at ha
      obtain ⟨-, -, ha⟩ := bind_eq_ok.mp ha
      obtain ⟨w₀, -, ha⟩ := bind_eq_ok.mp ha
      obtain ⟨w₁, -, ha⟩ := bind_eq_ok.mp ha
      obtain ⟨w₂, -, ha⟩ := bind_eq_ok.mp ha
      exact processOnFd_results ha
  cases a with
  | answer t₁ ret₁ =>
    obtain ⟨-, rfl⟩ := Prod.mk.inj (Except.ok.inj h)
    exact hres
  | host call after =>
    have hafter : after reply = (t', ret) := Except.ok.inj h
    have hret := hres reply hreply
    rwa [hafter] at hret

/-! ## Runs -/

/-- An entry of the log: a request with its result, or a fetch. -/
inductive Logged
  | out (p : Port) (ret : Int)
  | inp (p : Port)
deriving DecidableEq, Repr

/-- The port of an access. -/
def Logged.port : Logged → Port
  | .out p _ => p
  | .inp p => p

/-- What an access leaves waiting. -/
def Logged.left : Logged → Option Int
  | .out _ ret => some ret
  | .inp _ => none

/-- The answer that waits after a log (last entry first), going by the accesses to the ports
of `ps` alone: the result of the last of them, if that was a request. -/
def waiting (ps : Port → Bool) : List Logged → Option Int
  | [] => none
  | .out p ret :: log => if ps p then some ret else waiting ps log
  | .inp p :: log => if ps p then none else waiting ps log

/-- What a fetch on `p` should deliver. -/
def due (p : Port) (log : List Logged) : Option Int := waiting (· == p) log

/-- What is parked in a variable. -/
def parked (v : Static) (log : List Logged) : Option Int := waiting (·.static == v) log

/-- The hypervisor, and the log of the accesses so far. -/
structure PortRun where
  statics : HpStatics
  log : List Logged

/-- An access by the guest. Its memory at that moment and the host's reply are whatever they
are. -/
inductive Access
  | out (p : Port) (g : Guest) (data : Nat) (reply : HostReply)
  | inp (p : Port)

def PortRun.step (s : PortRun) : Access → Except Halt PortRun
  | .out p g data reply => do
    let (v, ret) ← hpOut s.statics p g data reply
    return ⟨v, .out p ret :: s.log⟩
  | .inp p => .ok ⟨(hpIn s.statics p).1, .inp p :: s.log⟩

/-- The host's `errno` is an error number. -/
def Access.Fair : Access → Prop
  | .out _ _ _ reply => 0 ≤ reply.errno ∧ reply.errno ≤ 4095
  | .inp _ => True

/-- The states of all runs. -/
def PortRun.Reachable : PortRun → Prop :=
  Reach (· = ⟨HpStatics.initial, []⟩) (fun _ a => a.Fair) PortRun.step

/-! ## What is in the variables -/

/-- Every variable holds what is parked in it, and nothing that is parked looks like
`UNUSED_VAR`. -/
structure PortInv (s : PortRun) : Prop where
  holds : ∀ v, s.statics.ret v = (parked v s.log).getD unusedVar
  proper : ∀ v ret, parked v s.log = some ret → ret ≠ unusedVar

theorem parked_out (v : Static) (p : Port) (ret : Int) (log : List Logged) :
    parked v (.out p ret :: log) = if p.static = v then some ret else parked v log := by
  simp only [parked, waiting, beq_iff_eq]

theorem parked_inp (v : Static) (p : Port) (log : List Logged) :
    parked v (.inp p :: log) = if p.static = v then none else parked v log := by
  simp only [parked, waiting, beq_iff_eq]

/-- A request parks its result. -/
theorem PortInv.out {s : PortRun} (h : PortInv s) {p : Port} {t : FdMap} {ret : Int}
    (hret : -4095 ≤ ret) :
    PortInv ⟨⟨t, Function.update s.statics.ret p.static ret⟩, .out p ret :: s.log⟩ := by
  constructor
  · intro v
    show Function.update s.statics.ret p.static ret v =
      (parked v (.out p ret :: s.log)).getD unusedVar
    rw [parked_out]
    by_cases hv : p.static = v
    · subst hv
      rw [Function.update_self, if_pos rfl, Option.getD_some]
    · rw [Function.update_of_ne (Ne.symm hv), if_neg hv, h.holds v]
  · intro v r hr
    rw [parked_out] at hr
    split at hr
    · obtain rfl := Option.some.inj hr
      have := unusedVar_lt
      omega
    · exact h.proper v r hr

/-- A fetch empties the variable, whether or not something was there. -/
theorem PortInv.inp {s : PortRun} (h : PortInv s) (p : Port) :
    PortInv ⟨(hpIn s.statics p).1, .inp p :: s.log⟩ := by
  constructor
  · intro v
    rw [parked_inp]
    by_cases hv : p.static = v
    · subst hv
      rw [if_pos rfl, Option.getD_none, hpIn]
      split
      · assumption
      · exact Function.update_self _ _ _
    · rw [if_neg hv, hpIn]
      split
      · exact h.holds v
      · exact (Function.update_of_ne (Ne.symm hv) _ _).trans (h.holds v)
  · intro v r hr
    rw [parked_inp] at hr
    split at hr
    · cases hr
    · exact h.proper v r hr

theorem portInv_step {s s' : PortRun} {a : Access} (h : PortInv s) (ha : a.Fair)
    (hs : s.step a = .ok s') : PortInv s' := by
  cases a with
  | out p g data reply =>
    obtain ⟨⟨v, ret⟩, hout, hs⟩ := bind_eq_ok.mp hs
    obtain ⟨⟨t, ret'⟩, hproc, hout⟩ := bind_eq_ok.mp hout
    cases hout
    cases hs
    exact h.out (hpProcess_ge ha hproc)
  | inp p =>
    cases hs
    exact h.inp p

/-- **In every run the variables hold what is parked in them.** -/
theorem PortRun.Reachable.inv {s : PortRun} (h : s.Reachable) : PortInv s :=
  Reach.inv (I := PortInv) (fun s hs => by subst hs; exact ⟨fun _ => rfl, fun _ _ => nofun⟩)
    (fun _ _ _ inv ha hs => portInv_step inv ha hs) h

/-- What a fetch delivers is what is parked in the variable of the port. -/
theorem hpIn_parked {s : PortRun} (h : PortInv s) (p : Port) :
    (hpIn s.statics p).2 = .of (parked p.static s.log) := by
  rw [hpIn, h.holds p.static]
  cases hp : parked p.static s.log with
  | none => rw [Option.getD_none, if_pos rfl]
  | some ret => rw [Option.getD_some, if_neg (h.proper _ _ hp)]

/-! ## Answers that match -/

/-- The answer of a fetch is the one that is due: the result of the last request on the same
port; or, if that was delivered already or there was none, a refusal that stores nothing. -/
def Answered (s : PortRun) (p : Port) : Prop := (hpIn s.statics p).2 = .of (due p s.log)

/-- The last access to a port that is served with the variable `v`. -/
def lastAccess (v : Static) (log : List Logged) : Option Logged :=
  log.find? (·.port.static == v)

/-- The accesses came in turn, whatever their results: the last one to the variable of `p` was
made on `p`, or it was a fetch on the other port, and nothing is due on `p`. -/
def InTurn (log : List Logged) (p : Port) : Prop :=
  ∀ e, lastAccess p.static log = some e → e.port = p ∨ e.left = none ∧ due p log = none

/-- A port with a variable of its own is always in turn. -/
theorem inTurn_own {p : Port} (hp : p.static ≠ .rwRet) (log : List Logged) : InTurn log p := by
  intro e he
  have hfound : (e.port.static == p.static) = true :=
    List.find?_some (p := fun e : Logged => e.port.static == p.static) he
  have hsame := beq_iff_eq.mp hfound
  generalize e.port = q at hsame ⊢
  cases p <;> cases q <;> first | exact .inl rfl | exact absurd rfl hp | cases hsame

/-- The last access was a request that had the result which is due on `p`. -/
def SameResult (log : List Logged) (p : Port) : Prop :=
  ∃ e ret, lastAccess p.static log = some e ∧ e.left = some ret ∧ due p log = some ret

theorem waiting_cons (ps : Port → Bool) (e : Logged) (log : List Logged) :
    waiting ps (e :: log) = if ps e.port then e.left else waiting ps log := by
  cases e <;> rfl

theorem lastAccess_cons (v : Static) (e : Logged) (log : List Logged) :
    lastAccess v (e :: log) = if e.port.static = v then some e else lastAccess v log := by
  by_cases h : e.port.static = v
  · rw [if_pos h]
    exact List.find?_cons_of_pos (beq_iff_eq.mpr h)
  · rw [if_neg h]
    exact List.find?_cons_of_neg fun hb => h (beq_iff_eq.mp hb)

/-- The last access is what is parked. -/
theorem parked_eq (v : Static) (log : List Logged) :
    parked v log = (lastAccess v log).bind Logged.left := by
  induction log with
  | nil => rfl
  | cons e log ih =>
    rw [parked, waiting_cons, lastAccess_cons]
    by_cases h : e.port.static = v
    · rw [if_pos (beq_iff_eq.mpr h), if_pos h, Option.bind_some]
    · rw [if_neg (fun hb => h (beq_iff_eq.mp hb)), if_neg h]
      exact ih

/-- What is due was parked in the variable by the last access, if that was on the port. -/
theorem due_of_lastAccess (p : Port) (log : List Logged)
    (h : ∀ e, lastAccess p.static log = some e → e.port = p) :
    due p log = (lastAccess p.static log).bind Logged.left := by
  induction log with
  | nil => rfl
  | cons d log ih =>
    rw [lastAccess_cons] at h
    rw [due, waiting_cons, lastAccess_cons]
    by_cases hd : d.port.static = p.static
    · rw [if_pos hd] at h
      rw [if_pos hd, if_pos (beq_iff_eq.mpr (h d rfl)), Option.bind_some]
    · rw [if_neg hd] at h
      have hne : d.port ≠ p := fun heq => hd (congrArg Port.static heq)
      rw [if_neg hd, if_neg (fun hb => hne (beq_iff_eq.mp hb))]
      exact ih h

/-- **When a fetch is answered by the request it belongs to**: in every run, for a port with a
variable of its own always, and for `read` and `write` exactly when they were used in turn, or
the request on the other port has had the same result. -/
theorem portRun_answered_iff (s : PortRun) (hs : s.Reachable) (p : Port) :
    Answered s p ↔ InTurn s.log p ∨ SameResult s.log p := by
  rw [Answered, hpIn_parked hs.inv p, InResult.of_inj, parked_eq]
  unfold InTurn SameResult
  cases hlast : lastAccess p.static s.log with
  | none =>
    have hdue := due_of_lastAccess p s.log fun e he => by rw [hlast] at he; cases he
    rw [hdue, hlast]
    exact iff_of_true rfl (.inl fun e he => by cases he)
  | some e =>
    rw [Option.bind_some]
    by_cases hp : e.port = p
    · have hdue := due_of_lastAccess p s.log fun d hd => by
        rw [hlast] at hd
        cases hd
        exact hp
      rw [hdue, hlast]
      refine iff_of_true rfl (.inl fun d hd => ?_)
      cases hd
      exact .inl hp
    -- the last access was on the other port
    constructor
    · intro h
      cases hleft : e.left with
      | none =>
        refine .inl fun d hd => .inr ?_
        cases hd
        exact ⟨hleft, h ▸ hleft⟩
      | some ret => exact .inr ⟨e, ret, rfl, hleft, h ▸ hleft⟩
    · rintro (h | ⟨d, ret, hd, hleft, hdue⟩)
      · obtain ⟨hleft, hdue⟩ := (h e rfl).resolve_left hp
        rw [hleft, hdue]
      · cases hd
        rw [hleft, hdue]

/-- The memory of a guest that asks to read 16 bytes from descriptor 9. -/
def badRead : Guest := ⟨fun i => if i = 0 then 9 else if i = 16 then 16 else 0, 0x400000⟩

/-- Its request is answered, and the answer not fetched yet. -/
def afterBadRead : PortRun :=
  ⟨⟨mayInitFdMap FdMap.static, Function.update (fun _ => unusedVar) .rwRet (-eBADF)⟩,
    [.out .read (-eBADF)]⟩

theorem afterBadRead_reachable : afterBadRead.Reachable :=
  .step (i := .out .read badRead 0 ⟨0, 0, []⟩) (.start rfl)
    (show (0 : Int) ≤ 0 ∧ (0 : Int) ≤ 4095 by decide) rfl

/-- The answer to a `read` that comes right after it. -/
theorem portRun_answered_read : afterBadRead.Reachable ∧ Answered afterBadRead .read :=
  ⟨afterBadRead_reachable, (portRun_answered_iff _ afterBadRead_reachable .read).mpr
    (.inl fun e he => by cases he; exact .inl rfl)⟩

/-- **The answer to a `read`, fetched at the port of `write`**, where there was no request. -/
theorem portRun_read_at_write :
    afterBadRead.Reachable ∧ due .write afterBadRead.log = none ∧
      (hpIn afterBadRead.statics .write).2 = ⟨0, some (-eBADF)⟩ ∧
        ¬ Answered afterBadRead .write := by
  refine ⟨afterBadRead_reachable, rfl, by decide, ?_⟩
  unfold Answered
  decide

end BpfExamples.Kvm
