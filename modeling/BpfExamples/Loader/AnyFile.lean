import BpfExamples.Base.Simulation
import BpfExamples.Loader.Loads

/-!
# The table of programs, whatever the file

For every file, well formed or not, and every kernel: over any sequence of loads, `prog_fd`
lists the descriptors of the programs that the kernel has taken, in their order, and there are
at most 32 of them (`loadRun_recorded`). A load that meets undefined behaviour ends there, with
a `Fault`; what the table is up to that point is part of the result.
-/

namespace BpfExamples.Loader

/-! ## The table -/

section

variable {σ : Type} {c : Copy} {t t' : Sys σ}

/-- The table of programs has what the kernel has taken. -/
structure Recorded (t : Sys σ) : Prop where
  few : t.progCnt ≤ maxProgs
  table : t.progFd.toList.take t.progCnt = answers Request.isLoad t.asked

theorem AskStep.recorded (h : AskStep Request.NoLoad t t') (hr : Recorded t) : Recorded t' := by
  obtain ⟨l, hl, hno⟩ := h.asked
  refine ⟨by rw [h.progCnt]; exact hr.few, ?_⟩
  rw [h.progFd, h.progCnt, hr.table, hl, answers_append, answers_eq_nil hno, List.append_nil]

/-- A program that is refused or taken is recorded. -/
theorem LoadStep.recorded {event : CStr} {prog : List UInt8} (h : LoadStep c event prog t t')
    (hr : Recorded t) : Recorded t' := by
  cases h with
  | none h => exact h ▸ hr
  | refused type reply htype hreply hasked hfd hcnt =>
    have hnone : answers Request.isLoad [(loadRequest t type prog, reply)] = [] := by
      have hneg : ¬ (0 ≤ reply.ret) := by omega
      simp [answers, hneg]
    refine ⟨by rw [hcnt]; exact hr.few, ?_⟩
    rw [hfd, hcnt, hr.table, hasked, answers_append, hnone, List.append_nil]
  | loaded h =>
    obtain ⟨type, reply, t₁, htype, hreply, hroom, hasked, hfd, hcnt, -, -, hrest⟩ := h
    refine (hrest.toAskStep.mono fun _ h => h.1).recorded ⟨by omega, ?_⟩
    have hone : answers Request.isLoad [(loadRequest t type prog, reply)] = [reply.ret] := by
      simp [answers, hreply, loadRequest, Request.isLoad]
    have hlen : t.progCnt < t.progFd.toList.length := by rw [Vector.length_toList]; exact hroom
    rw [hcnt, hfd, Vector.toList_set, List.take_add_one, List.take_set_of_le (Nat.le_refl _),
      hr.table, List.getElem?_set_self hlen, hasked, answers_append, hone]
    rfl

end

/-! ## Parts that load no program -/

section

variable {σ α β : Type} {elf : Elf} {ehdr : Ehdr} {K : Request → Prop}

/-- The part of the loader makes requests of a kind only. -/
abbrev Asks (K : Request → Prop) (x : LoadM σ α) : Prop :=
  Grows (fun s s' : Globals σ => AskStep K s.toSys s'.toSys) x

theorem asks_pure (a : α) : Asks K (pure a : LoadM σ α) := Grows.pure (fun s => .refl s.toSys) a

theorem asks_throw (e : Fault) : Asks K (throw e : LoadM σ α) :=
  Grows.throw (fun s => .refl s.toSys) e

theorem Asks.bind {x : LoadM σ α} {f : α → LoadM σ β} (hx : Asks K x) (hf : ∀ a, Asks K (f a)) :
    Asks K (x >>= f) :=
  Grows.bind (fun s₁ s₂ s₃ => AskStep.trans s₁.toSys s₂.toSys s₃.toSys) hx hf

theorem Asks.mono {K' : Request → Prop} {x : LoadM σ α} (hK : ∀ req, K req → K' req)
    (hx : Asks K x) : Asks K' x :=
  fun s => (hx s).mono (fun _ _ h => h.mono hK) fun _ _ h => h.mono hK

theorem asks_get : Asks K (get : LoadM σ (Globals σ)) := by
  intro s
  have hrun : (get : LoadM σ (Globals σ)) s = .ok s s := rfl
  exact (ends_of_ok hrun).mpr (.refl s.toSys)

theorem asks_modify {f : Globals σ → Globals σ} (h : ∀ s, AskStep K s.toSys (f s).toSys) :
    Asks K (modify f : LoadM σ Unit) := by
  intro s
  have hrun : (modify f : LoadM σ Unit) s = .ok () (f s) := rfl
  exact (ends_of_ok hrun).mpr (h s)

theorem asks_orFault (x : Except Fault α) : Asks K (orFault x : LoadM σ α) := by
  cases x with
  | ok a => exact asks_pure a
  | error e => exact asks_throw e

/-- A part that deals with the kernel, on all variables. -/
theorem ends_onSys {x : SysM σ α} {s : Globals σ} {Q : α → Sys σ → Prop}
    {E : Fault → Sys σ → Prop} (h : Ends x s.toSys Q E) :
    Ends (Loader.onSys x) s (fun a s' => Q a s'.toSys ∧ ∃ t, s' = { s with toSys := t })
      fun e s' => E e s'.toSys ∧ ∃ t, s' = { s with toSys := t } := by
  cases hx : x s.toSys with
  | ok a t =>
    have hrun : Loader.onSys x s = .ok a { s with toSys := t } := by rw [Loader.onSys, hx]
    exact (ends_of_ok hrun).mpr ⟨(ends_of_ok hx).mp h, t, rfl⟩
  | error e t =>
    have hrun : Loader.onSys x s = .error e { s with toSys := t } := by rw [Loader.onSys, hx]
    exact (ends_of_error hrun).mpr ⟨(ends_of_error hx).mp h, t, rfl⟩

theorem Keeps.onSys {x : SysM σ α} (hx : Keeps K x) : Asks K (Loader.onSys x) := by
  intro s
  exact (ends_onSys (hx s.toSys)).mono (fun _ _ h => h.1.toAskStep) fun _ _ h => h.1.toAskStep

theorem setProcessed_asks (i : Nat) : Asks K (setProcessed i : LoadM σ Unit) := by
  unfold setProcessed
  split
  · exact asks_modify fun _ => .of_eq rfl rfl rfl
  · exact asks_throw _

theorem isProcessed_asks (i : Nat) : Asks K (isProcessed i : LoadM σ Bool) := by
  refine asks_get.bind fun s => ?_
  split
  · exact asks_pure _
  · exact asks_throw _

theorem copyLicense_asks (data : Data) : Asks K (copyLicense data : LoadM σ Unit) :=
  Grows.ite (asks_modify fun _ => .of_eq rfl rfl rfl) (asks_throw _)

theorem setVersion_asks (version : Int) :
    Asks K (modify fun s => { s with kernVersion := version } : LoadM σ Unit) :=
  asks_modify fun _ => .of_eq rfl rfl rfl

theorem scanSection_asks (i : Nat) (sec : Sec) (v : Scanned) :
    Asks K (scanSection i sec v : LoadM σ (Option Scanned)) := by
  refine Grows.ite ?_ (Grows.ite ?_ (Grows.ite ?_ (Grows.ite (asks_pure _) (asks_pure _))))
  · exact (setProcessed_asks i).bind fun _ => (copyLicense_asks _).bind fun _ => asks_pure _
  · refine (setProcessed_asks i).bind fun _ => Grows.ite (asks_pure _) ?_
    exact (setVersion_asks _).bind fun _ => asks_pure _
  · refine Asks.bind (asks_modify ?_) fun _ => asks_pure _
    exact fun _ => .of_eq rfl rfl rfl

theorem scanSections_asks (is : List Nat) (v : Scanned) :
    Asks K (scanSections elf ehdr is v : LoadM σ (Option Scanned)) := by
  induction is generalizing v with
  | nil => exact asks_pure _
  | cons i is ih =>
    rw [scanSections]
    split
    · exact ih v
    · refine (scanSection_asks i _ v).bind fun r => ?_
      cases r with
      | none => exact asks_pure _
      | some v => exact ih v

variable (W : World σ)

theorem loadMap_asks (fixup : Option Fixup) (i : Nat) :
    Asks Request.NoLoad (loadMap W fixup i) := by
  intro s
  unfold loadMap
  split
  · next hi =>
    refine ends_get_bind.mpr ?_
    let s₁ : Globals σ :=
      { s with mapData := s.mapData.set i ((fixup.getD fun m _ => m) s.mapData[i] i) hi }
    refine ends_set_bind.mpr ?_
    refine Ends.ite (fun _ => ?_) fun _ => ?_
    · exact ((setMapFd_keeps i _).onSys.bind fun _ => asks_pure true) s₁
    · refine ((createMap_keeps W i _ _).onSys.bind fun r => ?_) s₁
      cases r with
      | none => exact asks_pure _
      | some fd =>
        refine Asks.bind (asks_modify ?_) fun _ => asks_pure _
        exact fun _ => .of_eq rfl rfl rfl
  · exact ends_throw.mpr (.refl s.toSys)

theorem loadMaps_asks (fixup : Option Fixup) (is : List Nat) :
    Asks Request.NoLoad (loadMaps W fixup is) := by
  induction is with
  | nil => exact asks_pure _
  | cons i is ih => exact (loadMap_asks W fixup i).bind fun b => Grows.ite ih (asks_pure _)

theorem makeMaps_asks (fixup : Option Fixup) (v : Scanned) (symbols : Data) :
    Asks Request.NoLoad (makeMaps W fixup elf v symbols) := by
  intro s
  unfold makeMaps
  refine Ends.ite (fun _ => ?_) fun _ => ends_pure.mpr (.refl s.toSys)
  refine ends_get_bind.mpr ?_
  cases loadElfMapsSection W s.mapData v.mapsShndx elf (some symbols) v.strtabidx.toNat with
  | error e => exact (ends_bind_of_error (orFault_error e _)).mpr (.refl s.toSys)
  | ok r =>
    refine (ends_bind_of_ok (orFault_ok _ _)).mpr ?_
    refine ends_set_bind.mpr ?_
    refine Ends.ite (fun _ => ends_pure.mpr (.refl s.toSys)) fun _ => ?_
    refine ((loadMaps_asks W fixup _).bind fun ret => Grows.ite (asks_pure _) ?_)
      { s with mapData := r.2 }
    refine Asks.bind (asks_modify ?_) fun _ => (setProcessed_asks _).bind fun _ => asks_pure _
    exact fun _ => .of_eq rfl rfl rfl

theorem relocateSection_asks (symbols : Data) (nrMaps i : Nat) (elf : Elf) :
    Asks K (relocateSection ehdr symbols nrMaps i elf : LoadM σ Elf) := by
  refine (isProcessed_asks i).bind fun b => Grows.ite (asks_pure _) ?_
  split
  · exact asks_pure _
  · refine Grows.ite ?_ (asks_pure _)
    split
    · exact asks_pure _
    · refine Grows.ite (asks_pure _) ((setProcessed_asks i).bind fun _ => asks_get.bind
        fun s => ?_)
      exact (asks_orFault _).bind fun _ => asks_pure _

theorem relocateSections_asks (symbols : Data) (nrMaps : Nat) (is : List Nat) (elf : Elf) :
    Asks K (relocateSections ehdr symbols nrMaps is elf : LoadM σ Elf) := by
  induction is generalizing elf with
  | nil => exact asks_pure _
  | cons i is ih => exact (relocateSection_asks symbols nrMaps i elf).bind fun elf => ih elf

/-! ## All programs of a file -/

/-- Programs of the file are given to the kernel, one after the other. -/
inductive LoadsFrom (c : Copy) (elf : Elf) (ehdr : Ehdr) : Sys σ → Sys σ → Prop
  | nil (t : Sys σ) : LoadsFrom c elf ehdr t t
  | cons {t t₁ t₂ : Sys σ} {i : Nat} {sec : Sec} (hsec : elf.HasSec ehdr i sec)
      (first : LoadStep c sec.shname sec.data.bytes t t₁) (rest : LoadsFrom c elf ehdr t₁ t₂) :
      LoadsFrom c elf ehdr t t₂

theorem LoadsFrom.recorded {c : Copy} {t t' : Sys σ} (h : LoadsFrom c elf ehdr t t')
    (hr : Recorded t) : Recorded t' := by
  induction h with
  | nil => exact hr
  | cons _ first _ ih => exact ih (first.recorded hr)

/-- The third loop. -/
theorem loadPrograms_spec (c : Copy) (is : List Nat) (hsub : ∀ i ∈ is, i ∈ ehdr.sections)
    (ret : Int) {s : Globals σ} (hr : Recorded s.toSys) :
    Ends (loadPrograms W c elf ehdr is ret) s
      (fun _ s' => LoadsFrom c elf ehdr s.toSys s'.toSys)
      fun _ s' => LoadsFrom c elf ehdr s.toSys s'.toSys := by
  induction is generalizing s ret with
  | nil => exact ends_pure.mpr (.nil s.toSys)
  | cons i is ih =>
    have hrest := fun i hi => hsub i (List.mem_cons_of_mem _ hi)
    have hcheck : Ends (isProcessed i) s (fun _ s' => s' = s) fun _ s' =>
        LoadsFrom c elf ehdr s.toSys s'.toSys := by
      refine (isProcessed_ends i s).mono (fun _ _ h => h) ?_
      rintro _ _ rfl
      exact .nil _
    refine hcheck.bind ?_
    rintro b s' rfl
    refine Ends.ite (fun _ => ih hrest ret hr) fun _ => ?_
    split
    · exact ih hrest ret hr
    · next sec hget =>
      refine Ends.ite (fun _ => ?_) fun _ => ih hrest ret hr
      have hsec : elf.HasSec ehdr i sec := ⟨hsub i (List.mem_cons_self ..), hget⟩
      have hload := ends_onSys (loadAndAttach_spec W c sec.shname sec.data.bytes hr.few)
      refine (hload.mono (fun _ _ h => h) fun _ s₁ h => .cons hsec h.1 (.nil s₁.toSys)).bind ?_
      rintro ret' s₁ ⟨⟨hstep, -⟩, -⟩
      refine Ends.ite (fun _ => ends_pure.mpr (.cons hsec hstep (.nil s₁.toSys))) fun _ => ?_
      exact (ih hrest ret' (hstep.recorded hr)).mono (fun _ _ h => .cons hsec hstep h)
        fun _ _ h => .cons hsec hstep h

end

/-! ## Runs -/

section

variable {σ : Type} (W : World σ) (c : Copy) {elf : Elf} {ehdr : Ehdr} {s : Globals σ}

/-- What is done with the sections keeps the table of programs. -/
theorem loadSections_recorded (fixup : Option Fixup) (v : Scanned) (hr : Recorded s.toSys) :
    Ends (loadSections W c fixup elf ehdr v) s (fun _ s' => Recorded s'.toSys) fun _ s' =>
      Recorded s'.toSys := by
  unfold loadSections
  split
  · exact ends_pure.mpr hr
  next symbols _ =>
  refine ((makeMaps_asks W fixup v symbols s).mono (fun _ _ h => h.recorded hr) fun _ _ h =>
    h.recorded hr).bind ?_
  intro r s₁ hr₁
  cases r with
  | none => exact ends_pure.mpr hr₁
  | some nrMaps =>
    refine ((relocateSections_asks symbols nrMaps ehdr.sections elf s₁).mono (fun _ _ h =>
      h.recorded hr₁) fun _ _ h => h.recorded hr₁).bind ?_
    intro elf' s₂ hr₂
    exact (loadPrograms_spec W c ehdr.sections (fun _ hi => hi) 1 hr₂).mono (fun _ _ h =>
      h.recorded hr₂) fun _ _ h => h.recorded hr₂

/-- A call of the loader keeps the table of programs, however it ends. -/
theorem doLoadBpfFile_recorded (path : List UInt8) (fixup : Option Fixup)
    (hr : Recorded s.toSys) :
    Ends (doLoadBpfFile W c path fixup) s (fun _ s' => Recorded s'.toSys) fun _ s' =>
      Recorded s'.toSys := by
  have hasks : ∀ {α : Type} {x : LoadM σ α}, Asks Request.NoLoad x → ∀ s : Globals σ,
    Recorded s.toSys → Ends x s (fun _ s' => Recorded s'.toSys) fun _ s' => Recorded s'.toSys :=
    fun hx s hr => (hx s).mono (fun _ _ h => h.recorded hr) fun _ _ h => h.recorded hr
  have hask : ∀ req : Request, req.NoLoad → Asks Request.NoLoad (onSys (ask W req)) :=
    fun req h => Keeps.onSys (keeps_ask W h)
  unfold doLoadBpfFile
  refine (hasks (asks_modify ?_) s hr).bind fun _ s₁ hr₁ => ?_
  · exact fun _ => .of_eq rfl rfl rfl
  refine Ends.ite (fun _ => ends_pure.mpr hr₁) fun _ => ?_
  refine (hasks (hask (.open path .rdonly) rfl) s₁ hr₁).bind fun fd s₂ hr₂ => ?_
  refine Ends.ite (fun _ => ends_pure.mpr hr₂) fun _ => ?_
  refine ends_get_bind.mpr ?_
  split
  · exact ends_pure.mpr hr₂
  split
  · exact ends_pure.mpr hr₂
  refine (hasks (Asks.mono (fun _ h => h.1) (writeKprobeEvents_keeps W []).onSys) s₂ hr₂).bind
    fun _ s₃ hr₃ => ?_
  refine (hasks (scanSections_asks _ _) s₃ hr₃).bind fun r s₄ hr₄ => ?_
  cases r with
  | none => exact ends_pure.mpr hr₄
  | some v =>
    refine (loadSections_recorded W c fixup v hr₄).bind fun ret s₅ hr₅ => ?_
    exact (hasks (hask (.close fd.ret) rfl) s₅ hr₅).bind fun _ s₆ hr₆ => ends_pure.mpr hr₆

/-- What a process with the loader can do: load a file, or leave the kernel to others. -/
inductive Call
  | load (path : List UInt8) (ret : Int)
  | elsewhere

/-- One step of such a process. -/
inductive CallStep : Globals σ → Call → Globals σ → Prop
  | load {s s' : Globals σ} (path : List UInt8) (fixup : Option Fixup) (ret : Int)
      (h : doLoadBpfFile W c path fixup s = .ok ret s') : CallStep s (.load path ret) s'
  | elsewhere (s : Globals σ) (kernel : σ) : CallStep s .elsewhere { s with kernel := kernel }

theorem CallStep.recorded {call : Call} {s' : Globals σ} (h : CallStep W c s call s')
    (hr : Recorded s.toSys) : Recorded s'.toSys := by
  cases h with
  | load path fixup ret h => exact (ends_of_ok h).mp (doLoadBpfFile_recorded W c path fixup hr)
  | elsewhere => exact ⟨hr.few, hr.table⟩

theorem recorded_init (kernel : σ) : Recorded (Globals.init kernel).toSys :=
  ⟨Nat.zero_le _, rfl⟩

theorem run_recorded {kernel : σ} {calls : List Call}
    (hrun : Run (CallStep W c) (Globals.init kernel) calls s) : Recorded s.toSys :=
  hrun.inv (I := fun s => Recorded s.toSys) (fun _ _ _ hr h => CallStep.recorded W c h hr)
    (recorded_init kernel)

/-- After any calls of the loader that have returned, and in one more at its end or at the first
undefined behaviour in it, with any files and any kernel, the first `prog_cnt` entries of
`prog_fd` are the descriptors that the kernel has given for programs, in their order; so the
kernel has taken at most 32. -/
theorem loadRun_recorded {kernel : σ} {calls : List Call}
    (hrun : Run (CallStep W c) (Globals.init kernel) calls s) (path : List UInt8)
    (fixup : Option Fixup) :
    Ends (doLoadBpfFile W c path fixup) s
      (fun _ s' => s'.progFd.toList.take s'.progCnt = answers Request.isLoad s'.asked ∧
        (answers Request.isLoad s'.asked).length ≤ 32)
      fun _ s' => s'.progFd.toList.take s'.progCnt = answers Request.isLoad s'.asked ∧
        (answers Request.isLoad s'.asked).length ≤ 32 := by
  have hfew : ∀ s' : Globals σ, Recorded s'.toSys → s'.progFd.toList.take s'.progCnt =
      answers Request.isLoad s'.asked ∧ (answers Request.isLoad s'.asked).length ≤ 32 := by
    intro s' hr
    refine ⟨hr.table, ?_⟩
    rw [← hr.table, List.length_take]
    exact Nat.le_trans (Nat.min_le_left _ _) hr.few
  exact (doLoadBpfFile_recorded W c path fixup (run_recorded W c hrun)).mono
    (fun _ s' => hfew s') fun _ s' => hfew s'

/-- The value that a call returns. -/
def returned {σ : Type} : EStateM.Result Fault (Globals σ) Int → Option Int
  | .ok ret _ => some ret
  | .error _ _ => none

/-- The loader returns 0 for `bpf_test.o`, and so it does a second time. -/
theorem bpfTest_returns : ∃ s s' : Globals Nat,
    Run (CallStep (counting BpfTest.elf) .plain) (Globals.init 3)
      [.load (ascii "bpf_test.o") 0] s ∧
      doLoadBpfFile (counting BpfTest.elf) .plain (ascii "bpf_test.o") none s = .ok 0 s' := by
  let load := doLoadBpfFile (counting BpfTest.elf) .plain (ascii "bpf_test.o") none
  have hfirst : returned (load (Globals.init 3)) = some 0 := by decide +kernel
  have hsecond : returned ((load >>= fun _ => load) (Globals.init 3)) = some 0 := by
    decide +kernel
  have hreturns : ∀ {r : EStateM.Result Fault (Globals Nat) Int}, returned r = some 0 →
      ∃ s, r = .ok 0 s := by
    rintro (⟨ret, s⟩ | ⟨e, s⟩) h
    · obtain rfl : ret = 0 := Option.some.inj h
      exact ⟨s, rfl⟩
    · cases h
  obtain ⟨s, hs⟩ := hreturns hfirst
  rw [bind_of_ok hs] at hsecond
  obtain ⟨s', hs'⟩ := hreturns hsecond
  exact ⟨s, s', .cons (.load _ none 0 hs) (.nil s), hs'⟩

/-- The file is loaded a second time. -/
theorem loadRun_recorded_bpfTest : ∃ s s' : Globals Nat,
    Run (CallStep (counting BpfTest.elf) .plain) (Globals.init 3)
      [.load (ascii "bpf_test.o") 0] s ∧
      doLoadBpfFile (counting BpfTest.elf) .plain (ascii "bpf_test.o") none s = .ok 0 s' ∧
      s'.progFd.toList.take s'.progCnt = answers Request.isLoad s'.asked ∧
      (answers Request.isLoad s'.asked).length ≤ 32 := by
  obtain ⟨s, s', hrun, hload⟩ := bpfTest_returns
  exact ⟨s, s', hrun, hload, (ends_of_ok hload).mp
    (loadRun_recorded (counting BpfTest.elf) .plain hrun (ascii "bpf_test.o") none)⟩

end

end BpfExamples.Loader
