import BpfExamples.Loader.Linking

/-!
# What the loader asks the kernel

Only `load_maps` creates maps and only `load_and_attach` gives programs to the kernel, one at a
time, and changes the table of programs. `Keeps K` is what the parts do that make requests of a
kind `K` (`attach_keeps`, `createMap_keeps` and so on), and `loadAndAttach_spec` says what
`load_and_attach` does itself.

An object that loads leads to one request for each of its maps and one for each of its programs
(`Object.load_asks`).
-/

namespace BpfExamples.Loader

/-- The request gives a program to the kernel. -/
def Request.isLoad : Request → Bool
  | .loadProgram .. => true
  | _ => false

/-- The request creates a map. -/
def Request.isCreate : Request → Bool
  | .createMapNode .. => true
  | .createMapInMapNode .. => true
  | _ => false

/-- The request is for no program. -/
def Request.NoLoad (req : Request) : Prop := req.isLoad = false

/-- The request is neither for a program nor for a map. -/
def Request.Other (req : Request) : Prop := req.isLoad = false ∧ req.isCreate = false

/-- The descriptors that the kernel has given for the requests of a kind. -/
def answers (kind : Request → Bool) (l : List (Request × Reply)) : List Int :=
  l.filterMap fun e => if kind e.1 && decide (0 ≤ e.2.ret) then some e.2.ret else none

theorem answers_append (kind : Request → Bool) (l l' : List (Request × Reply)) :
    answers kind (l ++ l') = answers kind l ++ answers kind l' := List.filterMap_append

theorem answers_eq_nil {kind : Request → Bool} {l : List (Request × Reply)}
    (h : ∀ e ∈ l, kind e.1 = false) : answers kind l = [] := by
  refine List.filterMap_eq_nil_iff.mpr fun e he => ?_
  rw [h e he, Bool.false_and]
  exact if_neg Bool.false_ne_true

/-! ## Parts of the loader -/

section

variable {σ α β : Type} {K K' : Request → Prop}

/-- Requests of a kind have been made, and the table of programs is as it was. -/
structure AskStep (K : Request → Prop) (t t' : Sys σ) : Prop where
  asked : ∃ l, t'.asked = t.asked ++ l ∧ ∀ e ∈ l, K e.1
  progFd : t'.progFd = t.progFd
  progCnt : t'.progCnt = t.progCnt

/-- So are the license and the version. -/
structure KeptStep (K : Request → Prop) (t t' : Sys σ) : Prop extends AskStep K t t' where
  license : t'.license = t.license
  kernVersion : t'.kernVersion = t.kernVersion

/-- A change of other variables. -/
theorem AskStep.of_eq {t t' : Sys σ} (hasked : t'.asked = t.asked) (hfd : t'.progFd = t.progFd)
    (hcnt : t'.progCnt = t.progCnt) : AskStep K t t' :=
  ⟨⟨[], by rw [List.append_nil, hasked], by simp⟩, hfd, hcnt⟩

theorem AskStep.refl (t : Sys σ) : AskStep K t t := .of_eq rfl rfl rfl

theorem AskStep.trans (t₁ t₂ t₃ : Sys σ) (h : AskStep K t₁ t₂) (h' : AskStep K t₂ t₃) :
    AskStep K t₁ t₃ := by
  obtain ⟨l, hl, hk⟩ := h.asked
  obtain ⟨l', hl', hk'⟩ := h'.asked
  refine ⟨⟨l ++ l', by rw [hl', hl, List.append_assoc], fun e he => ?_⟩,
    h'.progFd.trans h.progFd, h'.progCnt.trans h.progCnt⟩
  rcases List.mem_append.mp he with he | he
  · exact hk e he
  · exact hk' e he

theorem AskStep.mono {t t' : Sys σ} (hK : ∀ req, K req → K' req) (h : AskStep K t t') :
    AskStep K' t t' := by
  obtain ⟨l, hl, hk⟩ := h.asked
  exact ⟨⟨l, hl, fun e he => hK e.1 (hk e he)⟩, h.progFd, h.progCnt⟩

theorem KeptStep.refl (t : Sys σ) : KeptStep K t t := ⟨.refl t, rfl, rfl⟩

theorem KeptStep.trans (t₁ t₂ t₃ : Sys σ) (h : KeptStep K t₁ t₂) (h' : KeptStep K t₂ t₃) :
    KeptStep K t₁ t₃ :=
  ⟨h.toAskStep.trans _ _ _ h'.toAskStep, h'.license.trans h.license,
    h'.kernVersion.trans h.kernVersion⟩

/-- The part of the loader makes requests of a kind only. -/
abbrev Keeps (K : Request → Prop) (x : SysM σ α) : Prop := Grows (KeptStep K) x

theorem keeps_pure (a : α) : Keeps K (pure a : SysM σ α) := Grows.pure KeptStep.refl a

theorem keeps_throw (e : Fault) : Keeps K (throw e : SysM σ α) := Grows.throw KeptStep.refl e

theorem Keeps.bind {x : SysM σ α} {f : α → SysM σ β} (hx : Keeps K x)
    (hf : ∀ a, Keeps K (f a)) : Keeps K (x >>= f) :=
  Grows.bind KeptStep.trans hx hf

theorem keeps_orFault (x : Except Fault α) : Keeps K (orFault x : SysM σ α) := by
  cases x with
  | ok a => exact keeps_pure a
  | error e => exact keeps_throw e

theorem keeps_get : Keeps K (get : SysM σ (Sys σ)) := by
  intro t
  have hrun : (get : SysM σ (Sys σ)) t = .ok t t := rfl
  exact (ends_of_ok hrun).mpr (KeptStep.refl t)

theorem keeps_modify {f : Sys σ → Sys σ} (h : ∀ t, KeptStep K t (f t)) :
    Keeps K (modify f : SysM σ Unit) := by
  intro t
  have hrun : (modify f : SysM σ Unit) t = .ok () (f t) := rfl
  exact (ends_of_ok hrun).mpr (h t)

variable (W : World σ)

/-- A request is answered, and noted. -/
def Sys.after (t : Sys σ) (req : Request) : Sys σ :=
  { t with
    kernel := (W.ask t.kernel req).1
    asked := t.asked ++ [(req, (W.ask t.kernel req).2)] }

theorem ask_eq (req : Request) (t : Sys σ) :
    ask W req t = .ok (W.ask t.kernel req).2 (t.after W req) := rfl

theorem after_kept {req : Request} (h : K req) (t : Sys σ) : KeptStep K t (t.after W req) := by
  refine ⟨⟨⟨[_], rfl, fun e he => ?_⟩, rfl, rfl⟩, rfl, rfl⟩
  rw [List.mem_singleton.mp he]
  exact h

theorem keeps_ask {req : Request} (h : K req) : Keeps K (ask W req) :=
  fun t => (ends_of_ok (ask_eq W req t)).mpr (after_kept W h t)

theorem setMapFd_keeps (i : Nat) (fd : Int) : Keeps K (setMapFd i fd : SysM σ Unit) := by
  unfold setMapFd
  split
  · exact keeps_modify fun _ => ⟨.of_eq rfl rfl rfl, rfl, rfl⟩
  · exact keeps_throw _

theorem setEventFd_keeps (efd : Int) : Keeps K (setEventFd efd : SysM σ Unit) := by
  intro t
  unfold setEventFd
  refine ends_get_bind.mpr ?_
  split
  · next h =>
    have hrun : (set { t with eventFd := t.eventFd.set (t.progCnt - 1) efd h.2 } : SysM σ Unit)
      t = .ok () { t with eventFd := t.eventFd.set (t.progCnt - 1) efd h.2 } := rfl
    exact (ends_of_ok hrun).mpr ⟨.of_eq rfl rfl rfl, rfl, rfl⟩
  · exact ends_throw.mpr (KeptStep.refl t)

theorem noteProgArray_keeps (d : MapDef) (fd : Int) :
    Keeps K (noteProgArray d fd : SysM σ Unit) :=
  Grows.ite (keeps_modify fun _ => ⟨.of_eq rfl rfl rfl, rfl, rfl⟩) (keeps_pure _)

theorem populateProgArray_keeps (event : CStr) (fd : Int) :
    Keeps Request.Other (populateProgArray W event fd) := by
  refine keeps_get.bind fun t => (keeps_ask W ⟨rfl, rfl⟩).bind fun err => ?_
  exact Grows.ite (keeps_pure _) (keeps_pure _)

theorem writeKprobeEvents_keeps (val : List UInt8) :
    Keeps Request.Other (writeKprobeEvents W val) := by
  refine (keeps_ask W ⟨rfl, rfl⟩).bind fun _ => (keeps_ask W ⟨rfl, rfl⟩).bind fun _ => ?_
  exact (keeps_ask W ⟨rfl, rfl⟩).bind fun _ => keeps_pure _

theorem registerX64_keeps (isKprobe : Bool) (event : CStr) :
    Keeps Request.Other (registerX64 W isKprobe event) :=
  Grows.ite ((writeKprobeEvents_keeps W _).bind fun _ => keeps_pure _) (keeps_pure _)

theorem registerKprobe_keeps (isKprobe : Bool) (event : CStr) :
    Keeps Request.Other (registerKprobe W isKprobe event) := by
  refine (registerX64_keeps W isKprobe event).bind fun x64 => ?_
  refine Grows.ite (keeps_pure _) ((writeKprobeEvents_keeps W _).bind fun err => ?_)
  exact Grows.ite (keeps_pure _) (keeps_pure _)

theorem eventPath_keeps (event : CStr) (fd : Int) :
    Keeps Request.Other (eventPath W event fd) := by
  refine Grows.ite ((keeps_orFault _).bind fun event => ?_)
    (Grows.ite ((keeps_orFault _).bind fun event => ?_) (keeps_throw _))
  · have hindex := (populateProgArray_keeps W event fd).bind fun r =>
      keeps_pure (.error r : Except Int (List UInt8))
    refine Grows.ite (keeps_pure _) (Grows.ite hindex ?_)
    refine (registerKprobe_keeps W _ event).bind fun r => ?_
    cases r with
    | none => exact keeps_pure _
    | some pre => exact (keeps_orFault _).bind fun _ => keeps_pure _
  · exact Grows.ite (keeps_pure _) ((keeps_orFault _).bind fun _ => keeps_pure _)

theorem enableEvent_keeps (path : List UInt8) (fd : Int) :
    Keeps Request.Other (enableEvent W path fd) := by
  refine (keeps_ask W ⟨rfl, rfl⟩).bind fun efd => Grows.ite (keeps_pure _) ?_
  refine (keeps_ask W ⟨rfl, rfl⟩).bind fun err => Grows.ite (keeps_pure _) ?_
  refine (keeps_ask W ⟨rfl, rfl⟩).bind fun _ => (keeps_ask W ⟨rfl, rfl⟩).bind fun efd => ?_
  refine Grows.ite (keeps_pure _) ((setEventFd_keeps _).bind fun _ => ?_)
  refine (keeps_ask W ⟨rfl, rfl⟩).bind fun err => Grows.ite (keeps_pure _) ?_
  exact (keeps_ask W ⟨rfl, rfl⟩).bind fun err => Grows.ite (keeps_pure _) (keeps_pure _)

theorem attach_keeps (event : CStr) (fd : Int) : Keeps Request.Other (attach W event fd) := by
  refine Grows.ite (keeps_pure _) (Grows.ite ?_ (Grows.ite ?_ ?_))
  · refine (keeps_orFault _).bind fun event => Grows.ite (keeps_pure _) ?_
    refine (keeps_orFault _).bind fun event => Grows.ite (keeps_pure _) ?_
    exact populateProgArray_keeps W event fd
  · refine (keeps_orFault _).bind fun name => (keeps_ask W ⟨rfl, rfl⟩).bind fun efd => ?_
    exact Grows.ite (keeps_pure _) ((setEventFd_keeps _).bind fun _ => keeps_pure _)
  · refine (eventPath_keeps W event fd).bind fun r => ?_
    cases r with
    | error ret => exact keeps_pure _
    | ok path => exact enableEvent_keeps W path fd

theorem createRequest_kind {mapFd : Vector Int maxMaps} {name : List UInt8} {d : MapDef}
    {req : Request} (h : createRequest mapFd name d = .ok req) :
    req.isLoad = false ∧ req.isCreate = true := by
  unfold createRequest at h
  split at h
  · split at h
    · cases h
      exact ⟨rfl, rfl⟩
    · cases h
  · cases h
    exact ⟨rfl, rfl⟩

theorem createMap_keeps (i : Nat) (name : List UInt8) (d : MapDef) :
    Keeps Request.NoLoad (createMap W i name d) := by
  intro t
  refine ends_get_bind.mpr ?_
  cases hreq : createRequest t.mapFd name d with
  | error e => exact (ends_bind_of_error (orFault_error e _)).mpr (KeptStep.refl t)
  | ok req =>
    refine (ends_bind_of_ok (orFault_ok _ _)).mpr ?_
    have hask : Keeps Request.NoLoad (ask W req) := keeps_ask W (createRequest_kind hreq).1
    refine (hask.bind fun fd => (setMapFd_keeps i _).bind fun _ => ?_) t
    exact Grows.ite (keeps_pure _) ((noteProgArray_keeps d _).bind fun _ => keeps_pure _)

/-! ## Programs -/

/-- The request that gives a program to the kernel. -/
def loadRequest (t : Sys σ) (type : ProgType) (prog : List UInt8) : Request :=
  .loadProgram type (prog.take (8 * (prog.length / 8))) t.license.toList t.kernVersion

/-- The kernel has taken a program, which got the next entry of the table and was attached, or
was not. -/
inductive Loaded (c : Copy) (event : CStr) (prog : List UInt8) (t t' : Sys σ) : Prop
  | intro (type : ProgType) (reply : Reply) (t₁ : Sys σ) (htype : progType c event = some type)
      (hreply : 0 ≤ reply.ret) (hroom : t.progCnt < maxProgs)
      (hasked : t₁.asked = t.asked ++ [(loadRequest t type prog, reply)])
      (hfd : t₁.progFd = t.progFd.set t.progCnt reply.ret hroom)
      (hcnt : t₁.progCnt = t.progCnt + 1) (hlicense : t₁.license = t.license)
      (hversion : t₁.kernVersion = t.kernVersion) (hrest : KeptStep Request.Other t₁ t')

/-- What `load_and_attach` can do: it gives no program to the kernel, or one that the kernel
refuses, or one that the kernel takes. -/
inductive LoadStep (c : Copy) (event : CStr) (prog : List UInt8) (t t' : Sys σ) : Prop
  | none (h : t' = t)
  | refused (type : ProgType) (reply : Reply) (htype : progType c event = some type)
      (hreply : reply.ret < 0)
      (hasked : t'.asked = t.asked ++ [(loadRequest t type prog, reply)])
      (hfd : t'.progFd = t.progFd) (hcnt : t'.progCnt = t.progCnt)
  | loaded (h : Loaded c event prog t t')

/-- Where it returns 0, the program has been taken. -/
theorem loadAndAttach_spec (c : Copy) (event : CStr) (prog : List UInt8) {t : Sys σ}
    (hcnt : t.progCnt ≤ maxProgs) :
    Ends (loadAndAttach W c event prog) t
      (fun ret t' => LoadStep c event prog t t' ∧ (ret = 0 → Loaded c event prog t t'))
      fun _ t' => LoadStep c event prog t t' := by
  have hfails : ∀ {t' : Sys σ}, (-1 : Int) = 0 → Loaded c event prog t t' :=
    fun h => absurd h (by decide)
  unfold loadAndAttach
  cases htype : progType c event with
  | none => exact ends_pure.mpr ⟨.none rfl, hfails⟩
  | some type =>
    dsimp only
    refine ends_get_bind.mpr ?_
    refine Ends.ite (fun _ => ends_pure.mpr ⟨.none rfl, hfails⟩) fun hfull => ?_
    have hroom : t.progCnt < maxProgs := Nat.lt_of_le_of_ne hcnt hfull
    let reply := (W.ask t.kernel (loadRequest t type prog)).2
    let t₀ : Sys σ := t.after W (loadRequest t type prog)
    refine (ends_bind_of_ok (show ask W (loadRequest t type prog) t = .ok reply t₀
      from rfl)).mpr ?_
    refine Ends.ite (fun hneg => ends_pure.mpr ⟨?_, hfails⟩) fun hok => ?_
    · exact .refused type reply htype hneg rfl rfl rfl
    let t₁ : Sys σ :=
      { t₀ with progFd := t.progFd.set t.progCnt reply.ret hroom, progCnt := t.progCnt + 1 }
    have hpush : pushProgFd reply.ret t₀ = .ok () t₁ := by
      unfold pushProgFd
      refine (bind_of_ok (show (get : SysM σ (Sys σ)) t₀ = .ok t₀ t₀ from rfl)).trans ?_
      rw [dif_pos (show t₀.progCnt < maxProgs from hroom)]
      rfl
    refine (ends_bind_of_ok hpush).mpr ?_
    have hloaded : ∀ {t' : Sys σ}, KeptStep Request.Other t₁ t' → Loaded c event prog t t' :=
      fun h => .intro type reply t₁ htype (Int.not_lt.mp hok) hroom rfl rfl rfl rfl rfl h
    refine (attach_keeps W event reply.ret t₁).mono (fun _ t' h => ?_) fun _ t' h => ?_
    · exact ⟨.loaded (hloaded h), fun _ => hloaded h⟩
    · exact .loaded (hloaded h)

end

/-! ## Objects -/

/-- The request for a map, whose inner map, if it has one, is one of `fds`. -/
def MapDecl.request (fds : List Int) (d : MapDecl) : Request :=
  if d.mapDef.ofMaps then
    .createMapInMapNode d.mapDef.type d.name d.mapDef.keySize (fds.getD d.mapDef.innerMapIdx 0)
      d.mapDef.maxEntries d.mapDef.mapFlags d.mapDef.node
  else
    .createMapNode d.mapDef.type d.name d.mapDef.keySize d.mapDef.valueSize
      d.mapDef.maxEntries d.mapDef.mapFlags d.mapDef.node

/-- The request for a program that is linked with `fds`, where its event is known. -/
def Program.request (c : Copy) (license : Vector UInt8 128) (version : Int) (fds : List Int)
    (p : Program) : Option Request :=
  (progType c p.event).map fun type =>
    .loadProgram type (codeBytes (p.code.map (Word.link fds))) license.toList version

/-- Maps are only put into maps that come after them. -/
def InnerFirst (maps : List MapDecl) : Prop :=
  ∀ (j : Nat) (d : MapDecl), maps[j]? = some d → d.mapDef.ofMaps = true →
    d.mapDef.innerMapIdx < j

/-- The requests for maps and programs, in order. -/
def mainRequests (l : List (Request × Reply)) : List Request :=
  (l.map Prod.fst).filter fun req => req.isCreate || req.isLoad

theorem mainRequests_append (l l' : List (Request × Reply)) :
    mainRequests (l ++ l') = mainRequests l ++ mainRequests l' := by
  rw [mainRequests, List.map_append, List.filter_append]
  rfl

theorem mainRequests_other {l : List (Request × Reply)} (h : ∀ e ∈ l, e.1.Other) :
    mainRequests l = [] := by
  refine List.filter_eq_nil_iff.mpr fun req hreq => ?_
  obtain ⟨e, he, rfl⟩ := List.mem_map.mp hreq
  rw [(h e he).1, (h e he).2]
  exact Bool.false_ne_true

/-- Maps have been asked for, from the `i`-th on, where `map_fd` had been `mapFd`, and the
kernel has given each of them. -/
inductive AsksMaps : Vector Int maxMaps → Nat → List MapDecl → List (Request × Reply) → Prop
  | nil (mapFd : Vector Int maxMaps) (i : Nat) : AsksMaps mapFd i [] []
  | cons {mapFd : Vector Int maxMaps} {i : Nat} {d : MapDecl} {ds : List MapDecl}
      {req : Request} {reply : Reply} {l : List (Request × Reply)} (hi : i < maxMaps)
      (hreq : createRequest mapFd d.name d.mapDef = .ok req) (hreply : 0 ≤ reply.ret)
      (rest : AsksMaps (mapFd.set i reply.ret hi) (i + 1) ds l) :
      AsksMaps mapFd i (d :: ds) ((req, reply) :: l)

section

variable {mapFd : Vector Int maxMaps} {i : Nat} {ds : List MapDecl} {l : List (Request × Reply)}

theorem AsksMaps.creates (h : AsksMaps mapFd i ds l) :
    ∀ e ∈ l, e.1.isCreate = true ∧ 0 ≤ e.2.ret := by
  induction h with
  | nil => simp
  | cons hi hreq hreply _ ih =>
    intro e he
    rcases List.mem_cons.mp he with rfl | he
    · exact ⟨(createRequest_kind hreq).2, hreply⟩
    · exact ih e he

theorem AsksMaps.answers (h : AsksMaps mapFd i ds l) :
    answers Request.isCreate l = l.map fun e => e.2.ret := by
  induction h with
  | nil => rfl
  | @cons mapFd i d ds req reply l hi hreq hreply _ ih =>
    have hfirst : (if req.isCreate && decide (0 ≤ reply.ret) then some reply.ret else none) =
        some reply.ret := by
      rw [(createRequest_kind hreq).2, decide_eq_true hreply]
      rfl
    rw [List.map_cons, ← ih]
    exact List.filterMap_cons_some hfirst

theorem AsksMaps.mainRequests (h : AsksMaps mapFd i ds l) :
    mainRequests l = l.map Prod.fst := by
  refine List.filter_eq_self.mpr fun req hreq => ?_
  obtain ⟨e, he, rfl⟩ := List.mem_map.mp hreq
  rw [(h.creates e he).1, Bool.true_or]

/-- `map_fd` starts with the descriptors. -/
def Starts (mapFd : Vector Int maxMaps) (fds : List Int) : Prop :=
  ∀ j (h : j < maxMaps), j < fds.length → mapFd[j] = fds.getD j 0

theorem Starts.snoc {fds : List Int} (h : Starts mapFd fds) (hi : fds.length < maxMaps)
    (fd : Int) : Starts (mapFd.set fds.length fd hi) (fds ++ [fd]) := by
  intro j hj hlt
  rw [List.length_append, List.length_singleton] at hlt
  rw [Vector.getElem_set, List.getD_eq_getElem?_getD]
  by_cases hjl : fds.length = j
  · subst hjl
    rw [if_pos rfl, List.getElem?_concat_length]
    rfl
  · rw [if_neg hjl, List.getElem?_append_left (by omega), ← List.getD_eq_getElem?_getD]
    exact h j hj (by omega)

theorem createRequest_eq {fds : List Int} (later : List Int) {d : MapDecl} {req : Request}
    (h : Starts mapFd fds) (hinner : d.mapDef.ofMaps = true → d.mapDef.innerMapIdx < fds.length)
    (hreq : createRequest mapFd d.name d.mapDef = .ok req) :
    req = d.request (fds ++ later) := by
  unfold createRequest at hreq
  unfold MapDecl.request
  split at hreq
  · next hmaps =>
    split at hreq
    · next hlt =>
      cases hreq
      have hin := hinner hmaps
      rw [if_pos hmaps, h _ hlt hin, List.getD_eq_getElem?_getD, List.getD_eq_getElem?_getD,
        List.getElem?_append_left hin]
    · cases hreq
  · next hmaps =>
    cases hreq
    rw [if_neg hmaps]

/-- Each map leads to its request, where inner maps come first. -/
theorem AsksMaps.requests (h : AsksMaps mapFd i ds l) (fds : List Int) (hi : i = fds.length)
    (hs : Starts mapFd fds)
    (hinner : ∀ (j : Nat) (d : MapDecl), ds[j]? = some d → d.mapDef.ofMaps = true →
      d.mapDef.innerMapIdx < i + j) :
    l.map Prod.fst = ds.map (MapDecl.request (fds ++ l.map fun e => e.2.ret)) := by
  induction h generalizing fds with
  | nil => rfl
  | @cons mapFd i d ds req reply l hlt hreq _ _ ih =>
    subst hi
    have hfirst := createRequest_eq (reply.ret :: l.map fun e => e.2.ret) hs
      (fun hm => hinner 0 d rfl hm) hreq
    have hrest := ih (fds ++ [reply.ret]) (by rw [List.length_append, List.length_singleton])
      (hs.snoc hlt reply.ret) fun j d' hd' hm => by
        have hin := hinner (j + 1) d' hd' hm
        omega
    rw [List.append_assoc, List.singleton_append] at hrest
    rw [List.map_cons, List.map_cons, List.map_cons, hrest]
    exact congrArg (· :: _) hfirst

end

section

variable {σ : Type} (W : World σ) {c : Copy}

/-- A map that is created leads to one request. -/
theorem createMap_asks (i : Nat) (name : List UInt8) (d : MapDef) (t : Sys σ) :
    Ends (createMap W i name d) t
      (fun r t' => ∀ fd, r = some fd → ∃ (hi : i < maxMaps) (req : Request) (reply : Reply),
        createRequest t.mapFd name d = .ok req ∧ reply.ret = fd ∧ 0 ≤ fd ∧
          t'.asked = t.asked ++ [(req, reply)] ∧ t'.mapFd = t.mapFd.set i fd hi ∧
            t'.license = t.license ∧ t'.kernVersion = t.kernVersion ∧ t'.progCnt = t.progCnt)
      fun _ _ => True := by
  refine ends_get_bind.mpr ?_
  cases hreq : createRequest t.mapFd name d with
  | error e => exact (ends_bind_of_error (orFault_error e _)).mpr trivial
  | ok req =>
    refine (ends_bind_of_ok (orFault_ok _ _)).mpr ?_
    refine (ends_bind_of_ok (ask_eq W req t)).mpr ?_
    unfold setMapFd
    split
    swap
    · exact (ends_bind_of_error (show (throw _ : SysM σ Unit) _ = .error _ _ from rfl)).mpr
        trivial
    next hi =>
    refine ends_modify_bind.mpr ?_
    refine Ends.ite (fun _ => ends_pure.mpr fun fd h => by cases h) fun hneg => ?_
    have hpos := Int.not_lt.mp hneg
    unfold noteProgArray
    split
    · refine ends_modify_bind.mpr ?_
      refine ends_pure.mpr fun fd h => ?_
      cases h
      exact ⟨hi, req, _, rfl, rfl, hpos, rfl, rfl, rfl, rfl, rfl⟩
    · refine (ends_bind_of_ok (show (pure () : SysM σ Unit) _ = .ok () _ from rfl)).mpr ?_
      refine ends_pure.mpr fun fd h => ?_
      cases h
      exact ⟨hi, req, _, rfl, rfl, hpos, rfl, rfl, rfl, rfl, rfl⟩

/-- Maps that are created lead to one request each. -/
theorem createMaps_asks (i : Nat) (ds : List MapDecl) (t : Sys σ) :
    Ends (createMaps W i ds) t
      (fun r t' => ∀ fds, r = some fds → ∃ l, t'.asked = t.asked ++ l ∧
        AsksMaps t.mapFd i ds l ∧
        (l.map fun e => e.2.ret) = fds ∧ t'.license = t.license ∧
          t'.kernVersion = t.kernVersion ∧
          t'.progCnt = t.progCnt)
      fun _ _ => True := by
  induction ds generalizing i t with
  | nil =>
    refine ends_pure.mpr fun fds h => ?_
    cases h
    exact ⟨[], by rw [List.append_nil], .nil _ _, rfl, rfl, rfl, rfl⟩
  | cons d ds ih =>
    rw [createMaps]
    refine (createMap_asks W i d.name d.mapDef t).bind fun r t₁ h => ?_
    cases r with
    | none => exact ends_pure.mpr fun fds h => by cases h
    | some fd =>
      obtain ⟨hi, req, reply, hreq, rfl, hpos, hasked, hmapFd, hlicense, hversion, hcnt⟩ :=
        h fd rfl
      refine (ih (i + 1) t₁).bind fun r t₂ h => ?_
      cases r with
      | none => exact ends_pure.mpr fun fds h => by cases h
      | some fds =>
        refine ends_pure.mpr fun fds' h' => ?_
        cases h'
        obtain ⟨l, hasked₂, hmaps, rfl, hlicense₂, hversion₂, hcnt₂⟩ := h fds rfl
        rw [hmapFd] at hmaps
        refine ⟨(req, reply) :: l, ?_, .cons hi hreq hpos hmaps, rfl, hlicense₂.trans hlicense,
          hversion₂.trans hversion, hcnt₂.trans hcnt⟩
        rw [hasked₂, hasked, List.append_assoc, List.singleton_append]

theorem take_codeBytes (l : List Insn) :
    (codeBytes l).take (8 * ((codeBytes l).length / 8)) = codeBytes l := by
  have hlen : (codeBytes l).length = 8 * l.length := by
    rw [codeBytes_eq, List.length_map, List.length_range]
  rw [hlen, Nat.mul_div_cancel_left _ (by decide), ← hlen, List.take_length]

/-- Programs that are loaded lead to one request each. -/
theorem loadLinked_asks (fds : List Int) (ps : List Program) (ret : Int) {t : Sys σ}
    (hcnt : t.progCnt ≤ maxProgs) :
    Ends (loadLinked W c fds ps ret) t
      (fun ret' t' => ret' = 0 → ∃ l, t'.asked = t.asked ++ l ∧
        (∀ e ∈ l, e.1.isCreate = false) ∧
        ps.map (Program.request c t.license t.kernVersion fds) = (mainRequests l).map some)
      fun _ _ => True := by
  induction ps generalizing t ret with
  | nil => exact ends_pure.mpr fun _ => ⟨[], by rw [List.append_nil], by simp, rfl⟩
  | cons p ps ih =>
    rw [loadLinked]
    have hfirst := loadAndAttach_spec W c p.event (codeBytes (p.code.map (Word.link fds))) hcnt
    refine (hfirst.mono (fun _ _ h => h.2) fun _ _ _ => trivial).bind fun ret₁ t₁ hloaded => ?_
    refine Ends.ite (fun hne => ends_pure.mpr fun h => absurd h hne) fun hzero => ?_
    obtain ⟨type, reply, t₀, htype, hreply, hroom, hasked, hfd, hcnt₀, hlicense, hversion,
      hrest⟩ := hloaded (not_not.mp hzero)
    obtain ⟨l₁, hl₁, hother⟩ := hrest.asked
    have hcnt₁ : t₁.progCnt ≤ maxProgs := by
      rw [hrest.progCnt, hcnt₀]
      exact hroom
    refine (ih ret₁ hcnt₁).mono (fun ret₂ t₂ h hret => ?_) fun _ _ h => h
    obtain ⟨l₂, hl₂, hnone, hreqs⟩ := h hret
    rw [hrest.license, hlicense, hrest.kernVersion, hversion] at hreqs
    let req := loadRequest t type (codeBytes (p.code.map (Word.link fds)))
    refine ⟨[(req, reply)] ++ (l₁ ++ l₂), ?_, ?_, ?_⟩
    · rw [hl₂, hl₁, hasked, List.append_assoc, List.append_assoc]
    · intro e he
      rcases List.mem_append.mp he with he | he
      · rw [List.mem_singleton.mp he]
        rfl
      · exact (List.mem_append.mp he).elim (fun h => (hother e h).2) (hnone e)
    · have hreq : Program.request c t.license t.kernVersion fds p = some req := by
        rw [Program.request, htype]
        simp only [req, loadRequest, take_codeBytes]
        rfl
      rw [List.map_cons, hreq, hreqs, mainRequests_append, mainRequests_append,
        mainRequests_other hother]
      rfl

/-- The maps and the programs of an object. -/
theorem Object.loadParts_asks (o : Object) (hinner : InnerFirst o.maps) {t : Sys σ}
    (hcnt : t.progCnt ≤ maxProgs) :
    Ends (o.loadParts W c) t
      (fun ret t' => ret = 0 → ∃ l reqs, t'.asked = t.asked ++ l ∧
        o.programs.map
            (Program.request c t.license t.kernVersion (answers Request.isCreate l)) =
          reqs.map some ∧
        mainRequests l = o.maps.map (MapDecl.request (answers Request.isCreate l)) ++ reqs)
      fun _ _ => True := by
  unfold Object.loadParts
  refine (createMaps_asks W 0 o.maps t).bind fun r t₁ h => ?_
  cases r with
  | none => exact ends_pure.mpr fun h => absurd h (by decide)
  | some fds =>
    obtain ⟨l₁, hl₁, hmaps, hfds, hlicense, hversion, hcnt₁⟩ := h fds rfl
    refine (loadLinked_asks W fds o.programs 1 (hcnt₁ ▸ hcnt)).mono (fun ret t₂ h hret => ?_)
      fun _ _ h => h
    obtain ⟨l₂, hl₂, hnone, hreqs⟩ := h hret
    have hanswers : answers Request.isCreate (l₁ ++ l₂) = fds := by
      rw [answers_append, hmaps.answers, hfds, answers_eq_nil hnone, List.append_nil]
    have hasks := hmaps.requests [] rfl (fun _ _ h => absurd h (Nat.not_lt_zero _))
      fun j d hd hm => by
        rw [Nat.zero_add]
        exact hinner j d hd hm
    rw [hlicense, hversion] at hreqs
    refine ⟨l₁ ++ l₂, mainRequests l₂, by rw [hl₂, hl₁, List.append_assoc], by
        rw [hanswers, hreqs], ?_⟩
    rw [mainRequests_append, hmaps.mainRequests, hasks, hanswers, List.nil_append, hfds]

/-- An object that is loaded leads, in this order, to one request for each of its maps and one
for each of its programs, which is linked with the descriptors that the kernel gives for the
maps, and comes with the object's license and version. -/
theorem Object.load_asks (o : Object) (hinner : InnerFirst o.maps) (path : List UInt8)
    {t : Sys σ} (hcnt : t.progCnt ≤ maxProgs) :
    Ends (o.load W c path) t
      (fun ret t' => ret = 0 → ∃ l reqs, t'.asked = t.asked ++ l ∧
        o.programs.map (Program.request c (padded o.license) o.version
          (answers Request.isCreate l)) =
          reqs.map some ∧
        mainRequests l = o.maps.map (MapDecl.request (answers Request.isCreate l)) ++ reqs)
      fun _ _ => True := by
  unfold Object.load
  let t₁ : Sys σ := { t with kernVersion := 0, license := Vector.replicate 128 0 }
  refine ends_modify_bind.mpr ?_
  refine (ends_bind_of_ok (ask_eq W (.open path .rdonly) t₁)).mpr ?_
  refine Ends.ite (fun _ => ends_pure.mpr fun h => absurd h (by decide)) fun _ => ?_
  have hopen : KeptStep Request.Other t₁ (t₁.after W (.open path .rdonly)) :=
    after_kept W ⟨rfl, rfl⟩ t₁
  refine ((writeKprobeEvents_keeps W [] _).mono (fun _ _ h => hopen.trans _ _ _ h)
    fun _ _ _ => trivial).bind fun _ t₂ hkept => ?_
  let t₃ : Sys σ := { t₂ with kernVersion := o.version, license := padded o.license }
  refine ends_modify_bind.mpr ?_
  have hcnt₃ : t₃.progCnt ≤ maxProgs := hkept.progCnt ▸ hcnt
  refine (o.loadParts_asks W hinner hcnt₃).bind fun ret t₄ h => ?_
  refine (ends_bind_of_ok (ask_eq W _ t₄)).mpr (ends_pure.mpr fun hret => ?_)
  obtain ⟨l₀, hl₀, hother₀⟩ := hkept.asked
  obtain ⟨l₁, reqs, hl₁, hreqs, hmain⟩ := h hret
  -- the requests before and after are for neither maps nor programs
  obtain ⟨l₂, hl₂, hother₂⟩ :=
    (after_kept W ⟨rfl, rfl⟩ t₄ : KeptStep Request.Other t₄ (t₄.after W (.close _))).asked
  have hanswers : answers Request.isCreate (l₀ ++ l₁ ++ l₂) = answers Request.isCreate l₁ := by
    rw [answers_append, answers_append, answers_eq_nil fun e he => (hother₀ e he).2,
      answers_eq_nil fun e he => (hother₂ e he).2, List.nil_append, List.append_nil]
  have hasked₃ : t₃.asked = t.asked ++ l₀ := hl₀
  refine ⟨l₀ ++ l₁ ++ l₂, reqs, ?_, ?_, ?_⟩
  · rw [hl₂, hl₁, hasked₃, List.append_assoc, List.append_assoc, List.append_assoc]
  · rw [hanswers]
    exact hreqs
  · rw [hanswers, mainRequests_append, mainRequests_append, mainRequests_other hother₀,
      mainRequests_other hother₂, List.nil_append, List.append_nil]
    exact hmain

end

end BpfExamples.Loader
