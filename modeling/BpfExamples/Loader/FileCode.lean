import Mathlib.Data.List.Induction
import BpfExamples.Loader.AnyFile
import BpfExamples.Loader.Patches

/-!
# No program that is not in the file

What a file says about its programs can be read off any file, well formed or not: `Elf.linked`
are the instructions of a section after the relocations for it, with the maps of the file's
section `maps`. The loader gives to the kernel nothing else: up to the first undefined behaviour
that a file leads it into, each program is `Elf.linked` of a section, where the descriptors are
those that the kernel has given for maps in the same call (`loadRun_code`).
-/

namespace BpfExamples.Loader

/-! ## What a file says -/

/-- The section at an index, where it can be read. -/
def Elf.secAt (elf : Elf) (ehdr : Ehdr) (i : Nat) : Option Sec := (getSec elf ehdr i).toOption

/-- The section of the maps: the last one with this name. -/
def Elf.mapsAt (elf : Elf) (ehdr : Ehdr) : Option Nat :=
  (ehdr.sections.filter fun i => (elf.secAt ehdr i).any fun sec => sec.Named "maps").getLast?

/-- The symbols of a section that is a symbol table. -/
def Sec.symtab (sec : Sec) : Option Data :=
  if ¬ sec.Special ∧ sec.shdr.type = shtSymtab then some sec.data else none

/-- The symbols of the file: those of the last table. -/
def Elf.symtab (elf : Elf) (ehdr : Ehdr) : Option Data :=
  (ehdr.sections.filterMap fun i => (elf.secAt ehdr i).bind Sec.symtab).getLast?

/-- The maps of a section, by their offsets in it, with the descriptors in their order. -/
def tableAt {σ : Type} (W : World σ) (symbols : Data) (fds : List Int) :
    Option Nat → List (Nat × Int)
  | none => []
  | some i => ((W.qsort (symsIn symbols i)).map Sym.value).zip fds

/-- The maps of the file. -/
def Elf.mapTable {σ : Type} (W : World σ) (elf : Elf) (ehdr : Ehdr) (symbols : Data)
    (fds : List Int) : List (Nat × Int) :=
  tableAt W symbols fds (elf.mapsAt ehdr)

/-- The section is used for something else than relocations. -/
def Elf.Used (elf : Elf) (ehdr : Ehdr) (i : Nat) (sec : Sec) : Prop :=
  sec.Named "license" ∨ sec.Named "version" ∨ elf.mapsAt ehdr = some i

instance Elf.decidableUsed (elf : Elf) (ehdr : Ehdr) (i : Nat) (sec : Sec) :
    Decidable (elf.Used ehdr i sec) :=
  inferInstanceAs (Decidable (_ ∨ _))

instance Sec.decidableExecutable (sec : Sec) : Decidable sec.Executable :=
  inferInstanceAs (Decidable (_ ∧ _))

/-- The relocations in the section `r` for the instructions in the section `i`, which is
`sec`. -/
def Elf.relocsFor (elf : Elf) (ehdr : Ehdr) (symbols : Data) (i : Nat) (sec : Sec) (r : Nat) :
    List Reloc :=
  match getSec elf ehdr r with
  | .error _ => []
  | .ok rsec =>
    if ¬ elf.Used ehdr r rsec ∧ rsec.shdr.type = shtRel ∧ rsec.shdr.info = i ∧
      sec.Executable then
      rsec.relocs symbols
    else []

/-- The instructions of a section after the relocations in the sections `rs`. -/
def Elf.linkedBy (elf : Elf) (ehdr : Ehdr) (symbols : Data) (table : List (Nat × Int))
    (rs : List Nat) (i : Nat) (sec : Sec) : List Insn :=
  rs.foldl (fun code r => relink table (elf.relocsFor ehdr symbols i sec r) code) sec.data.insns

/-- The instructions of a section after all relocations of the file. -/
def Elf.linked (elf : Elf) (ehdr : Ehdr) (symbols : Data) (table : List (Nat × Int)) (i : Nat)
    (sec : Sec) : List Insn :=
  elf.linkedBy ehdr symbols table ehdr.sections i sec

/-- A relocation of the file is for the instruction `k` of the section, and its symbol has the
value. -/
def Elf.Names (elf : Elf) (ehdr : Ehdr) (symbols : Data) (i : Nat) (sec : Sec) (k : Nat)
    (value : Option Nat) : Prop :=
  ∃ r ∈ ehdr.sections, ⟨k, value⟩ ∈ elf.relocsFor ehdr symbols i sec r

section

variable {elf : Elf} {ehdr : Ehdr} {symbols : Data} {table : List (Nat × Int)} {i : Nat}
  {sec : Sec}

theorem linkedBy_snoc (rs : List Nat) (r : Nat) :
    elf.linkedBy ehdr symbols table (rs ++ [r]) i sec =
      relink table (elf.relocsFor ehdr symbols i sec r)
        (elf.linkedBy ehdr symbols table rs i sec) :=
  List.foldl_append

theorem length_linkedBy (rs : List Nat) :
    (elf.linkedBy ehdr symbols table rs i sec).length = sec.data.insns.length := by
  induction rs using List.reverseRecOn with
  | nil => rfl
  | append_singleton rs r ih => rw [linkedBy_snoc, length_relink, ih]

/-- Only loads that relocations name are changed. -/
theorem linkedBy_relinked (rs : List Nat) {k : Nat} {old new : Insn}
    (hold : sec.data.insns[k]? = some old)
    (hnew : (elf.linkedBy ehdr symbols table rs i sec)[k]? = some new) :
    Relinked table (fun v => ∃ r ∈ rs, ⟨k, v⟩ ∈ elf.relocsFor ehdr symbols i sec r)
      old new := by
  induction rs using List.reverseRecOn generalizing new with
  | nil =>
    cases hold.symm.trans hnew
    exact .same
  | append_singleton rs r ih =>
    rw [linkedBy_snoc] at hnew
    have hk : k < (elf.linkedBy ehdr symbols table rs i sec).length := by
      rw [length_linkedBy]
      exact (List.getElem?_eq_some_iff.mp hold).1
    have hmid := List.getElem?_eq_getElem hk
    refine ((ih hmid).mono ?_).trans ((relink_getElem _ hmid hnew).mono ?_)
    · rintro v ⟨r', hr', hv⟩
      exact ⟨r', List.mem_append_left _ hr', hv⟩
    · intro v hv
      exact ⟨r, List.mem_append_right _ (List.mem_singleton_self r), hv⟩

end

/-! ## The first loop -/

section

variable {σ : Type} {elf : Elf} {ehdr : Ehdr}

/-- The section is done with in the first loop. -/
def Elf.Taken (elf : Elf) (ehdr : Ehdr) (i : Nat) : Prop :=
  ∃ sec, getSec elf ehdr i = .ok sec ∧ (sec.Named "license" ∨ sec.Named "version")

/-- The section of the maps, where one has been found. -/
def Scanned.maps (v : Scanned) : Option Nat :=
  if v.dataMaps then some v.mapsShndx.toNat else none

/-- Marking a section. -/
theorem setProcessed_marks {s : Globals σ} {P : Nat → Prop} (hm : Marked P s) (i : Nat) :
    Ends (setProcessed i) s
      (fun _ s' => Marked (fun x => P x ∨ x = i) s' ∧ s'.toSys = s.toSys ∧
        s'.mapData = s.mapData)
      fun _ _ => True := by
  by_cases hi : i < 128
  · exact (ends_of_ok (setProcessed_eq hi)).mpr ⟨hm.set hi, rfl, rfl⟩
  · unfold setProcessed
    rw [dif_neg hi]
    exact ends_throw.mpr trivial

/-- Nothing is marked at the start. -/
theorem marked_none {s : Globals σ} (h : s.processedSec = Vector.replicate 128 false) :
    Marked (fun _ => False) s := by
  intro i hi
  simp only [h, Vector.getElem_replicate]
  exact iff_of_false Bool.false_ne_true id

/-- What one section adds to what the first loop has found. -/
structure Finds (i : Nat) (sec : Sec) (v v' : Scanned) (P : Nat → Prop) (s' : Globals σ) :
    Prop where
  maps : v'.maps = if sec.Named "maps" then some i else v.maps
  symbols : v'.symbols = sec.symtab.or v.symbols
  marked : Marked (fun x => P x ∨ (x = i ∧ (sec.Named "license" ∨ sec.Named "version"))) s'

section

variable {i : Nat} {sec : Sec} {v : Scanned} {s s' : Globals σ} {P : Nat → Prop}

theorem Sec.Named.other {lit lit' : String} (h : sec.Named lit) (hne : ascii lit ≠ ascii lit') :
    ¬ sec.Named lit' :=
  fun h' => hne (h.symm.trans h')

theorem symtab_of_special (h : sec.Special) : sec.symtab = none := if_neg fun hno => hno.1 h

/-- A section that is marked adds nothing else, -/
theorem Finds.of_marked (hname : sec.Named "license" ∨ sec.Named "version")
    (hm : Marked (fun x => P x ∨ x = i) s') : Finds i sec v v P s' := by
  have hno : ¬ sec.Named "maps" :=
    hname.elim (fun h => h.other (by decide)) fun h => h.other (by decide)
  refine ⟨(if_neg hno).symm, ?_, hm.congr fun x => by simp [hname]⟩
  rw [symtab_of_special (hname.elim .inl fun h => .inr (.inl h))]
  rfl

/-- and one that is not is the section of the maps, or a symbol table, or nothing. -/
theorem Finds.of_unmarked {v' : Scanned} (hlicense : ¬ sec.Named "license")
    (hversion : ¬ sec.Named "version")
    (hmaps : v'.maps = if sec.Named "maps" then some i else v.maps)
    (hsymbols : v'.symbols = sec.symtab.or v.symbols) (hm : Marked P s') :
    Finds i sec v v' P s' :=
  ⟨hmaps, hsymbols,
    hm.congr fun _ => or_iff_left fun h => h.2.elim hlicense hversion⟩

/-- One section of the first loop. -/
theorem scanSection_finds (hm : Marked P s) :
    Ends (scanSection i sec v) s (fun r s' => ∀ v', r = some v' → Finds i sec v v' P s')
      fun _ _ => True := by
  refine Ends.ite (fun hname => ?_) fun hlicense => Ends.ite (fun hname => ?_)
    fun hversion => ?_
  · refine (setProcessed_marks hm i).bind fun _ s₁ h₁ => ?_
    refine Ends.bind (Q := fun _ s₂ => Marked (fun x => P x ∨ x = i) s₂) ?_ fun _ s₂ hm₂ => ?_
    · refine Ends.ite (fun _ => ?_) fun _ => ends_throw.mpr trivial
      exact (ends_of_ok (show (modify _ : LoadM σ Unit) s₁ = .ok () _ from rfl)).mpr
        (h₁.1.same rfl)
    · refine ends_pure.mpr fun v' h => ?_
      cases h
      exact .of_marked (.inl hname) hm₂
  · refine (setProcessed_marks hm i).bind fun _ s₁ h₁ => ?_
    refine Ends.ite (fun _ => ends_pure.mpr fun v' h => by cases h) fun _ => ?_
    refine ends_modify_bind.mpr (ends_pure.mpr fun v' h => ?_)
    cases h
    exact .of_marked (.inr hname) (h₁.1.same rfl)
  refine Ends.ite (fun hname => ?_) fun hmaps => Ends.ite (fun htype => ?_) fun htype => ?_
  · refine ends_modify_bind.mpr (ends_pure.mpr fun v' h => ?_)
    cases h
    refine .of_unmarked hlicense hversion (if_pos hname).symm ?_ (hm.same rfl)
    rw [symtab_of_special (.inr (.inr hname))]
    rfl
  · refine ends_pure.mpr fun v' h => ?_
    cases h
    refine .of_unmarked hlicense hversion (if_neg hmaps).symm ?_ hm
    have hplain : ¬ sec.Special := fun h => h.elim hlicense fun h => h.elim hversion hmaps
    rw [show sec.symtab = some sec.data from if_pos ⟨hplain, htype⟩]
    rfl
  · refine ends_pure.mpr fun v' h => ?_
    cases h
    refine .of_unmarked hlicense hversion (if_neg hmaps).symm ?_ hm
    rw [show sec.symtab = none from if_neg fun h => htype h.2]
    rfl

end

theorem getLast?_cons_or {α : Type} (a : α) (l : List α) (b : Option α) :
    (a :: l).getLast?.or b = l.getLast?.or (some a) := by
  rw [List.getLast?_cons]
  cases l.getLast? <;> rfl

/-- The first loop finds the last section of the maps and the last symbol table. -/
theorem scanSections_finds (is : List Nat) {v : Scanned} {s : Globals σ} {P : Nat → Prop}
    (hm : Marked P s) :
    Ends (scanSections elf ehdr is v) s
      (fun r s' => ∀ v', r = some v' →
        v'.maps = (is.filter fun i =>
          (elf.secAt ehdr i).any fun sec => sec.Named "maps").getLast?.or v.maps ∧
        v'.symbols =
          (is.filterMap fun i => (elf.secAt ehdr i).bind Sec.symtab).getLast?.or v.symbols ∧
        Marked (fun x => P x ∨ (x ∈ is ∧ elf.Taken ehdr x)) s')
      fun _ _ => True := by
  induction is generalizing v s P with
  | nil =>
    refine ends_pure.mpr fun v' h => ?_
    cases h
    exact ⟨rfl, rfl, hm.congr fun x => by simp⟩
  | cons i is ih =>
    rw [scanSections]
    cases hget : getSec elf ehdr i with
    | error e =>
      have hsec : elf.secAt ehdr i = none := by rw [Elf.secAt, hget]; rfl
      have hno : ¬ elf.Taken ehdr i := by
        rintro ⟨sec, hsec, -⟩
        cases hget.symm.trans hsec
      rw [List.filter_cons_of_neg (by simp [hsec]),
        List.filterMap_cons_none (by rw [hsec]; rfl)]
      refine (ih hm).mono (fun r s' h v' hv => ?_) fun _ _ h => h
      obtain ⟨hmaps, hsymbols, hm'⟩ := h v' hv
      refine ⟨hmaps, hsymbols, hm'.congr fun x => or_congr_right ?_⟩
      rw [List.mem_cons, or_and_right, or_iff_right]
      rintro ⟨rfl, htaken⟩
      exact hno htaken
    | ok sec =>
      have hsec : elf.secAt ehdr i = some sec := by rw [Elf.secAt, hget]; rfl
      have htaken : elf.Taken ehdr i ↔ sec.Named "license" ∨ sec.Named "version" := by
        constructor
        · rintro ⟨sec', hsec', hname⟩
          cases hget.symm.trans hsec'
          exact hname
        · exact fun hname => ⟨sec, hget, hname⟩
      refine (scanSection_finds hm).bind fun r s₁ h => ?_
      cases r with
      | none => exact ends_pure.mpr fun v' h => by cases h
      | some v₁ =>
        obtain ⟨hmaps₁, hsymbols₁, hm₁⟩ := h v₁ rfl
        refine (ih hm₁).mono (fun r s' h v' hv => ?_) fun _ _ h => h
        obtain ⟨hmaps, hsymbols, hm'⟩ := h v' hv
        refine ⟨?_, ?_, hm'.congr fun x => ?_⟩
        · rw [hmaps, hmaps₁]
          by_cases hname : sec.Named "maps"
          · rw [if_pos hname, List.filter_cons_of_pos (by simpa [hsec] using hname),
              getLast?_cons_or]
          · rw [if_neg hname, List.filter_cons_of_neg (by simpa [hsec] using hname)]
        · rw [hsymbols, hsymbols₁]
          cases hdata : sec.symtab with
          | none => rw [List.filterMap_cons_none (by rw [hsec]; exact hdata), Option.none_or]
          | some data =>
            rw [List.filterMap_cons_some (by rw [hsec]; exact hdata), getLast?_cons_or,
              Option.some_or]
        · rw [or_assoc, List.mem_cons, or_and_right]
          refine or_congr_right (or_congr_left (and_congr_right ?_))
          rintro rfl
          exact htaken

end

/-! ## The maps -/

section

variable {σ : Type} (W : World σ) {elf : Elf} {ehdr : Ehdr}

/-- Maps that have been read at the values of symbols are as some declarations say. -/
theorem OffsetsFrom.described {syms : List Sym} {new : Vector MapData maxMaps}
    (h : OffsetsFrom 0 syms new) :
    ∃ decls, syms.length = decls.length ∧ DescribedFrom 0 syms decls new := by
  have hfit : syms.length ≤ maxMaps := by
    rcases Nat.eq_zero_or_pos syms.length with h0 | hpos
    · omega
    · obtain ⟨hlt, -⟩ := h (syms.length - 1) _ (List.getElem?_eq_getElem (by omega))
      omega
  refine ⟨(new.toList.take syms.length).map fun m => ⟨m.name, m.mapDef⟩, ?_, ?_⟩
  · rw [List.length_map, List.length_take, Vector.length_toList, Nat.min_eq_left hfit]
  · intro j sym d hsym hd
    obtain ⟨hlt, hoffset⟩ := h j sym hsym
    have hj : j < syms.length := (List.getElem?_eq_some_iff.mp hsym).1
    rw [List.getElem?_map, List.getElem?_take_of_lt hj, Vector.getElem?_toList,
      Vector.getElem?_eq_getElem (show j < maxMaps by omega)] at hd
    cases hd
    simp only [Nat.zero_add] at hlt hoffset
    simp only [Nat.zero_add]
    exact ⟨hlt, rfl, hoffset, rfl⟩

/-- The maps are created one after the other, and keep their offsets. -/
theorem loadMaps_table {syms : List Sym} {s : Globals σ} (h : OffsetsFrom 0 syms s.mapData) :
    Ends (loadMaps W none (List.range syms.length)) s
      (fun ret s' => ¬ ret ≠ 0 → ∃ l, s'.asked = s.asked ++ l ∧
        s'.processedSec = s.processedSec ∧
        mapTable (s'.mapData.toList.take syms.length) =
          (syms.map Sym.value).zip (answers Request.isCreate l))
      fun _ _ => True := by
  obtain ⟨decls, hlen, hdesc⟩ := h.described
  have hload := loadMaps_mirrors W (s := s) hlen hdesc
  rw [← hlen, ← List.range_eq_range'] at hload
  refine Ends.mono hload (fun ret s' hback hret => ?_) fun _ _ _ => trivial
  obtain ⟨b, hcreate, hproc, ⟨rfl, -⟩ | ⟨-, fds, rfl, hfds, -, hcreated⟩⟩ := hback
  · exact absurd (by decide) hret
  obtain ⟨l, hl, hmaps, hrets, -⟩ :=
    (ends_of_ok hcreate).mp (createMaps_asks W 0 decls s.toSys) fds rfl
  obtain ⟨hoff, hfd⟩ := hcreated.columns (hfds.trans rfl)
  refine ⟨l, hl, hproc, ?_⟩
  rw [hmaps.answers, hrets, mapTable, ← hoff, ← hfd, List.zip_map']

/-- The maps that relocations are resolved with are those of the file, and have the descriptors
that the kernel has given. -/
theorem makeMaps_table {v : Scanned} {symbols : Data} {s : Globals σ} {P : Nat → Prop}
    (hm : Marked P s) :
    Ends (makeMaps W none elf v symbols) s
      (fun r s' => ∀ n, r = some n → ∃ l, s'.asked = s.asked ++ l ∧
        mapTable (s'.mapData.toList.take n) =
          tableAt W symbols (answers Request.isCreate l) v.maps ∧
        Marked (fun x => P x ∨ v.maps = some x) s')
      fun _ _ => True := by
  refine Ends.ite (fun hdata => ?_) fun hdata => ends_pure.mpr fun n hn => ?_
  swap
  · cases hn
    rw [show v.maps = none from if_neg hdata]
    refine ⟨[], by rw [List.append_nil], rfl, hm.congr fun x => ?_⟩
    simp
  rw [show v.maps = some v.mapsShndx.toNat from if_pos hdata]
  simp only [tableAt]
  refine ends_get_bind.mpr ?_
  cases hread : loadElfMapsSection W s.mapData v.mapsShndx elf (some symbols) v.strtabidx.toNat
    with
  | error e => exact (ends_bind_of_error (orFault_error e s)).mpr trivial
  | ok r =>
    obtain ⟨n, new⟩ := r
    refine (ends_bind_of_ok (orFault_ok _ _)).mpr (ends_set_bind.mpr ?_)
    refine Ends.ite (fun _ => ends_pure.mpr fun n h => by cases h) fun hn => ?_
    obtain ⟨hcount, hoffsets⟩ := loadElfMapsSection_offsets W hn hread
    rw [hcount]
    refine (loadMaps_table W hoffsets).bind fun ret s₂ h₂ => ?_
    refine Ends.ite (fun _ => ends_pure.mpr fun n h => by cases h) fun hret => ?_
    obtain ⟨l, hl, hproc, htable⟩ := h₂ hret
    refine ends_modify_bind.mpr ?_
    have hm₂ : Marked P { s₂ with mapDataCount :=
      (W.qsort (symsIn symbols v.mapsShndx.toNat)).length } := hm.same hproc
    refine (setProcessed_marks hm₂ _).bind fun _ s₃ h₃ => ends_pure.mpr fun n' hn' => ?_
    obtain ⟨hm₃, hsys, hmaps⟩ := h₃
    cases hn'
    refine ⟨l, (congrArg Sys.asked hsys).trans hl, ?_, hm₃.congr fun x => or_congr_right ?_⟩
    · rw [hmaps]
      exact htable
    · rw [Option.some.injEq, eq_comm]

end

/-! ## The second loop -/

/-- The file `elf'` is `elf` after the relocations of the sections in `done`. -/
structure LinkedTo (elf elf' : Elf) (ehdr : Ehdr) (symbols : Data) (table : List (Nat × Int))
    (done : List Nat) : Prop where
  error : ∀ i e, getSec elf ehdr i = .error e → getSec elf' ehdr i = .error e
  ok : ∀ i sec, getSec elf ehdr i = .ok sec →
    ∃ d, getSec elf' ehdr i = .ok { sec with data := d } ∧
    d.size = sec.data.size ∧ (¬ sec.Executable → d = sec.data) ∧
      d.insns = elf.linkedBy ehdr symbols table done i sec

section

variable {σ : Type} {elf elf' : Elf} {ehdr : Ehdr} {symbols : Data} {table : List (Nat × Int)}
  {done : List Nat} {s : Globals σ} {nrMaps r : Nat} {P : Nat → Prop}

theorem LinkedTo.refl : LinkedTo elf elf ehdr symbols table [] :=
  ⟨fun _ _ h => h, fun _ sec h => ⟨sec.data, h, rfl, fun _ => rfl, rfl⟩⟩

/-- A section without relocations for instructions. -/
theorem LinkedTo.pass (h : LinkedTo elf elf' ehdr symbols table done)
    (hno : ∀ i sec, getSec elf ehdr i = .ok sec → elf.relocsFor ehdr symbols i sec r = []) :
    LinkedTo elf elf' ehdr symbols table (done ++ [r]) := by
  refine ⟨h.error, fun i sec hsec => ?_⟩
  obtain ⟨d, hd, hsize, hsame, hcode⟩ := h.ok i sec hsec
  refine ⟨d, hd, hsize, hsame, ?_⟩
  rw [linkedBy_snoc, hno i sec hsec, hcode]
  rfl

/-- The relocations of a section have been applied to its target. -/
theorem LinkedTo.apply (h : LinkedTo elf elf' ehdr symbols table done) {rsec prog : Sec}
    {d insn : Data} (hrsec : getSec elf ehdr r = .ok rsec) (hunused : ¬ elf.Used ehdr r rsec)
    (htype : rsec.shdr.type = shtRel) (hprog : getSec elf ehdr rsec.shdr.info = .ok prog)
    (hexec : prog.Executable)
    (hd : getSec elf' ehdr rsec.shdr.info = .ok { prog with data := d })
    (hsize : insn.size = d.size)
    (hlink : relink table (rsec.relocs symbols) d.insns = insn.insns) :
    LinkedTo elf (elf'.setBuf rsec.shdr.info insn.buf) ehdr symbols table (done ++ [r]) := by
  have hrelocs : ∀ i sec, elf.relocsFor ehdr symbols i sec r = if ¬ elf.Used ehdr r rsec ∧
    rsec.shdr.type = shtRel ∧ rsec.shdr.info = i ∧ sec.Executable then
        rsec.relocs symbols else [] := by
    intro i sec
    rw [Elf.relocsFor, hrsec]
  refine ⟨fun i e he => ?_, fun i sec hsec => ?_⟩
  · have hne : i ≠ rsec.shdr.info := by
      rintro rfl
      cases hprog.symm.trans he
    rw [getSec_setBuf, if_neg hne]
    exact h.error i e he
  obtain ⟨d', hd', hsize', hsame, hcode⟩ := h.ok i sec hsec
  rw [linkedBy_snoc, ← hcode, hrelocs, getSec_setBuf]
  by_cases hi : i = rsec.shdr.info
  · subst hi
    cases hprog.symm.trans hsec
    cases Except.ok.inj (hd.symm.trans hd')
    refine ⟨{ d with buf := insn.buf }, ?_, hsize', fun hno => absurd hexec hno, ?_⟩
    · rw [if_pos rfl, hd]
      rfl
    · rw [if_pos ⟨hunused, htype, rfl, hexec⟩, hlink, Data.insns, Data.insns, hsize]
  · refine ⟨d', ?_, hsize', hsame, ?_⟩
    · rw [if_neg hi]
      exact hd'
    · rw [if_neg fun h => hi h.2.2.1.symm]
      rfl

/-- The section has relocations for no instruction. -/
theorem relocsFor_nil
    (h : ∀ rsec, getSec elf ehdr r = .ok rsec → ¬ elf.Used ehdr r rsec → rsec.shdr.type =
      shtRel → ∀ prog, getSec elf ehdr rsec.shdr.info = .ok prog → ¬ prog.Executable) (i : Nat)
    (sec : Sec) (hsec : getSec elf ehdr i = .ok sec) :
    elf.relocsFor ehdr symbols i sec r = [] := by
  unfold Elf.relocsFor
  split
  · rfl
  next rsec hrsec =>
  refine if_neg ?_
  rintro ⟨hunused, htype, rfl, hexec⟩
  exact h rsec hrsec hunused htype sec hsec hexec

/-- A look at the mark of a section. -/
theorem isProcessed_marks (hm : Marked P s) (i : Nat) :
    Ends (isProcessed i) s (fun b s' => s' = s ∧ (b = true ↔ P i)) fun _ _ => True := by
  by_cases hi : i < 128
  · exact (ends_of_ok (isProcessed_eq hi)).mpr ⟨rfl, hm i hi⟩
  · refine ends_get_bind.mpr ?_
    rw [dif_neg hi]
    exact ends_throw.mpr trivial

/-- The second loop has gone over the section `r`, and has marked no other. -/
structure PastSection (elf elf' : Elf) (ehdr : Ehdr) (symbols : Data)
    (table : List (Nat × Int)) (done : List Nat) (r : Nat) (P : Nat → Prop)
    (s s' : Globals σ) : Prop where
  mapData : s'.mapData = s.mapData
  marked : ∃ P', Marked P' s' ∧ ∀ x ≠ r, P' x ↔ P x
  linked : LinkedTo elf elf' ehdr symbols table (done ++ [r])

/-- It passes over a section that has relocations for no instruction, -/
theorem LinkedTo.passes (h : LinkedTo elf elf' ehdr symbols table done) (hm : Marked P s)
    (hno : ∀ rsec, getSec elf ehdr r = .ok rsec → ¬ elf.Used ehdr r rsec →
      rsec.shdr.type = shtRel → ∀ prog, getSec elf ehdr rsec.shdr.info = .ok prog →
      ¬ prog.Executable) :
    PastSection elf elf' ehdr symbols table done r P s s :=
  ⟨rfl, ⟨P, hm, fun _ _ => Iff.rfl⟩, h.pass (relocsFor_nil hno)⟩

/-- and one whose target is executable is marked and applied. -/
theorem LinkedTo.applies (h : LinkedTo elf elf' ehdr symbols table done) (hm : Marked P s)
    (htable : mapTable (s.mapData.toList.take nrMaps) = table) {rsec prog : Sec} {d : Data}
    (hrsec : getSec elf ehdr r = .ok rsec) (hunused : ¬ elf.Used ehdr r rsec)
    (htype : rsec.shdr.type = shtRel) (hprog : getSec elf ehdr rsec.shdr.info = .ok prog)
    (hexec : prog.Executable)
    (hd : getSec elf' ehdr rsec.shdr.info = .ok { prog with data := d }) :
    Ends (setProcessed r >>= fun _ => get >>= fun s : Globals σ =>
        orFault (parseReloAndApply rsec.data symbols rsec.shdr d
          (s.mapData.toList.take nrMaps)) >>= fun res =>
        (pure (elf'.setBuf rsec.shdr.info res.1.buf) : LoadM σ Elf)) s
      (fun elf'' s' => PastSection elf elf'' ehdr symbols table done r P s s')
      fun _ _ => True := by
  refine (setProcessed_marks hm r).bind fun _ s₁ h₁ => ends_get_bind.mpr ?_
  obtain ⟨hm₁, -, hmaps⟩ := h₁
  rw [hmaps]
  cases hparse : parseReloAndApply rsec.data symbols rsec.shdr d
    (s.mapData.toList.take nrMaps) with
  | error e => exact (ends_bind_of_error (orFault_error e s₁)).mpr trivial
  | ok res =>
    obtain ⟨hsize, hlink⟩ := parseReloAndApply_relink hparse
    rw [htable] at hlink
    refine (ends_bind_of_ok (orFault_ok res s₁)).mpr (ends_pure.mpr ⟨hmaps, ⟨_, hm₁, ?_⟩, ?_⟩)
    · exact fun x hx => or_iff_left hx
    · exact h.apply hrsec hunused htype hprog hexec hd hsize hlink

/-- One section of the second loop. -/
theorem relocateSection_linked (hm : Marked P s)
    (hP : P r ↔ ∃ sec, getSec elf ehdr r = .ok sec ∧ elf.Used ehdr r sec)
    (htable : mapTable (s.mapData.toList.take nrMaps) = table)
    (h : LinkedTo elf elf' ehdr symbols table done) :
    Ends (relocateSection ehdr symbols nrMaps r elf') s
      (fun elf'' s' => PastSection elf elf'' ehdr symbols table done r P s s')
      fun _ _ => True := by
  refine (isProcessed_marks hm r).bind ?_
  rintro b _ ⟨rfl, hb⟩
  refine Ends.ite (fun hmark => ends_pure.mpr (h.passes hm ?_)) fun hmark => ?_
  · -- the section is used for something else
    obtain ⟨sec, hsec, hused⟩ := hP.mp (hb.mp hmark)
    intro rsec hrsec hunused
    cases hsec.symm.trans hrsec
    exact absurd hused hunused
  cases hrsec : getSec elf ehdr r with
  | error e =>
    rw [h.error r e hrsec]
    refine ends_pure.mpr (h.passes hm fun rsec hrsec' => ?_)
    cases hrsec.symm.trans hrsec'
  | ok rsec =>
    obtain ⟨d, hd, -, hsame, -⟩ := h.ok r rsec hrsec
    have hunused : ¬ elf.Used ehdr r rsec :=
      fun hused => hmark (hb.mpr (hP.mpr ⟨rsec, hrsec, hused⟩))
    have hsec : ∀ {sec : Sec}, getSec elf ehdr r = .ok sec → rsec = sec :=
      fun hsec => Except.ok.inj (hrsec.symm.trans hsec)
    rw [hd]
    dsimp only
    refine Ends.ite (fun htype => ?_) fun htype => ends_pure.mpr (h.passes hm ?_)
    swap
    · exact fun sec hget _ ht => absurd (hsec hget ▸ ht) htype
    cases hprog : getSec elf ehdr rsec.shdr.info with
    | error e =>
      rw [h.error _ e hprog]
      refine ends_pure.mpr (h.passes hm fun sec hget _ _ prog hprog' => ?_)
      cases hsec hget
      cases hprog.symm.trans hprog'
    | ok prog =>
      obtain ⟨dp, hdp, -, -, -⟩ := h.ok _ prog hprog
      rw [hdp]
      dsimp only
      refine Ends.ite (fun hexec => ends_pure.mpr (h.passes hm ?_)) fun hexec => ?_
      · intro sec hget _ _ prog' hprog'
        cases hsec hget
        cases hprog.symm.trans hprog'
        exact fun h => executable_iff.mp h hexec
      -- the relocations themselves are as they are in the file
      have hdata : d = rsec.data := hsame fun hex => by
        have hbad : shtRel = shtProgbits := htype.symm.trans hex.1
        exact absurd hbad (by decide)
      subst hdata
      exact h.applies hm htable hrsec hunused htype hprog (executable_iff.mpr hexec) hdp

/-- The second loop, on every file. -/
theorem relocateSections_linked (rs : List Nat) (hnodup : rs.Nodup) (hm : Marked P s)
    (hP : ∀ r ∈ rs, P r ↔ ∃ sec, getSec elf ehdr r = .ok sec ∧ elf.Used ehdr r sec)
    (htable : mapTable (s.mapData.toList.take nrMaps) = table)
    (h : LinkedTo elf elf' ehdr symbols table done) :
    Ends (relocateSections ehdr symbols nrMaps rs elf') s
      (fun elf'' _ => LinkedTo elf elf'' ehdr symbols table (done ++ rs)) fun _ _ => True := by
  induction rs generalizing elf' s P done with
  | nil =>
    rw [List.append_nil]
    exact ends_pure.mpr h
  | cons r rs ih =>
    obtain ⟨hfresh, hnodup'⟩ := List.nodup_cons.mp hnodup
    refine (relocateSection_linked hm (hP r (List.mem_cons_self ..)) htable h).bind ?_
    rintro elf₁ s₁ ⟨hmaps, ⟨P', hm₁, hsame⟩, h₁⟩
    have hP₁ : ∀ x ∈ rs, P' x ↔ ∃ sec, getSec elf ehdr x = .ok sec ∧ elf.Used ehdr x sec := by
      intro x hx
      rw [hsame x fun he => hfresh (he ▸ hx)]
      exact hP x (List.mem_cons_of_mem _ hx)
    have hrest := ih hnodup' hm₁ hP₁ (hmaps ▸ htable) h₁
    rw [List.append_assoc, List.singleton_append] at hrest
    exact hrest

end

/-! ## Where the programs come from -/

/-- The request is for a program of the file: the instructions of a section after the
relocations for it, with the descriptors `fds` for the maps of the file. An instruction is as
in the section, or it is a load that a relocation names and now loads the map at the value of
the relocation's symbol, or there is no map at this value and the immediate is that of the
section. -/
def FromFile {σ : Type} (W : World σ) (c : Copy) (elf : Elf) (ehdr : Ehdr) (fds : List Int)
    (req : Request) : Prop :=
  ∃ i sec type symbols license version, elf.HasSec ehdr i sec ∧
    progType c sec.shname = some type ∧
    elf.symtab ehdr = some symbols ∧
    req = .loadProgram type
      (codeBytes (elf.linked ehdr symbols (elf.mapTable W ehdr symbols fds) i sec))
        license version ∧
    ∀ k old new, sec.data.insns[k]? = some old →
      (elf.linked ehdr symbols (elf.mapTable W ehdr symbols fds) i sec)[k]? = some new →
      Relinked (elf.mapTable W ehdr symbols fds) (elf.Names ehdr symbols i sec k) old new

section

variable {σ : Type} {W : World σ} {c : Copy} {elf elf' : Elf} {ehdr : Ehdr} {symbols : Data}
  {fds : List Int} {t t' t₁ : Sys σ}

/-- The requests for programs are for programs of the file, and there are none for maps. -/
def LoadsOf (W : World σ) (c : Copy) (elf : Elf) (ehdr : Ehdr) (fds : List Int)
    (l : List (Request × Reply)) : Prop :=
  ∀ e ∈ l, e.1.isCreate = false ∧ (e.1.isLoad = true → FromFile W c elf ehdr fds e.1)

theorem LoadsOf.append {l l' : List (Request × Reply)} (h : LoadsOf W c elf ehdr fds l)
    (h' : LoadsOf W c elf ehdr fds l') : LoadsOf W c elf ehdr fds (l ++ l') :=
  fun e he => (List.mem_append.mp he).elim (h e) (h' e)

theorem loadsOf_other {l : List (Request × Reply)} (h : ∀ e ∈ l, e.1.Other) :
    LoadsOf W c elf ehdr fds l := by
  refine fun e he => ⟨(h e he).2, fun hload => ?_⟩
  rw [(h e he).1] at hload
  cases hload

/-- One program section. -/
theorem LoadStep.loadsOf {i : Nat} {sec' : Sec} (hsymbols : elf.symtab ehdr = some symbols)
    (hd : LinkedTo elf elf' ehdr symbols (elf.mapTable W ehdr symbols fds) ehdr.sections)
    (hsec : elf'.HasSec ehdr i sec') (h : LoadStep c sec'.shname sec'.data.bytes t t') :
    ∃ l, t'.asked = t.asked ++ l ∧ LoadsOf W c elf ehdr fds l := by
  obtain ⟨sec, hget, hname, hcode⟩ : ∃ sec, getSec elf ehdr i = .ok sec ∧
    sec'.shname = sec.shname ∧
    sec'.data.insns = elf.linked ehdr symbols (elf.mapTable W ehdr symbols fds) i sec := by
    cases hget : getSec elf ehdr i with
    | error e => cases (hd.error i e hget).symm.trans hsec.2
    | ok sec =>
      obtain ⟨d, hdata, -, -, hcode⟩ := hd.ok i sec hget
      cases hdata.symm.trans hsec.2
      exact ⟨sec, rfl, rfl, hcode⟩
  have hrequest : ∀ (type : ProgType) (reply : Reply), progType c sec'.shname = some type →
      LoadsOf W c elf ehdr fds [(loadRequest t type sec'.data.bytes, reply)] := by
    intro type reply htype e he
    rw [List.mem_singleton.mp he]
    refine ⟨rfl,
      fun _ => ⟨i, sec, type, symbols, t.license.toList, t.kernVersion, ⟨hsec.1, hget⟩,
      hname ▸ htype, hsymbols, ?_, fun k old new hold hnew => linkedBy_relinked _ hold hnew⟩⟩
    rw [← hcode, codeBytes_insns]
    rfl
  cases h with
  | none h =>
    subst h
    exact ⟨[], (List.append_nil _).symm, loadsOf_other (by simp)⟩
  | refused type reply htype _ hasked => exact ⟨_, hasked, hrequest type reply htype⟩
  | loaded h =>
    obtain ⟨type, reply, t₁, htype, -, -, hasked, -, -, -, -, hrest⟩ := h
    obtain ⟨l, hl, hother⟩ := hrest.asked
    refine ⟨_ ++ l, ?_, (hrequest type reply htype).append (loadsOf_other hother)⟩
    rw [hl, hasked, List.append_assoc]

theorem LoadsFrom.loadsOf (hsymbols : elf.symtab ehdr = some symbols)
    (hd : LinkedTo elf elf' ehdr symbols (elf.mapTable W ehdr symbols fds) ehdr.sections)
    (h : LoadsFrom c elf' ehdr t t') :
    ∃ l, t'.asked = t.asked ++ l ∧ LoadsOf W c elf ehdr fds l := by
  induction h with
  | nil => exact ⟨[], (List.append_nil _).symm, loadsOf_other (by simp)⟩
  | cons hsec first _ ih =>
    obtain ⟨l₁, hl₁, h₁⟩ := first.loadsOf hsymbols hd hsec
    obtain ⟨l₂, hl₂, h₂⟩ := ih
    exact ⟨l₁ ++ l₂, by rw [hl₂, hl₁, List.append_assoc], h₁.append h₂⟩

/-- Requests have been made, and those for programs are for programs of the file, with the
descriptors that the kernel has given for maps. -/
def CodeStep (W : World σ) (c : Copy) (elf : Elf) (ehdr : Ehdr) (t t' : Sys σ) : Prop :=
  ∃ l, t'.asked = t.asked ++ l ∧
    ∀ e ∈ l, e.1.isLoad = true → FromFile W c elf ehdr (answers Request.isCreate l) e.1

theorem codeStep_noLoad (h : AskStep Request.NoLoad t t') : CodeStep W c elf ehdr t t' := by
  obtain ⟨l, hl, hno⟩ := h.asked
  refine ⟨l, hl, fun e he hload => ?_⟩
  rw [hno e he] at hload
  cases hload

/-- Maps have been created, and then programs loaded. -/
theorem codeStep_loads {l l' : List (Request × Reply)} (hl : t₁.asked = t.asked ++ l)
    (hno : ∀ e ∈ l, e.1.NoLoad) (hl' : t'.asked = t₁.asked ++ l')
    (h : LoadsOf W c elf ehdr (answers Request.isCreate l) l') :
    CodeStep W c elf ehdr t t' := by
  have hanswers : answers Request.isCreate (l ++ l') = answers Request.isCreate l := by
    rw [answers_append, answers_eq_nil fun e he => (h e he).1, List.append_nil]
  refine ⟨l ++ l', by rw [hl', hl, List.append_assoc], fun e he hload => ?_⟩
  rw [hanswers]
  rcases List.mem_append.mp he with he | he
  · rw [hno e he] at hload
    cases hload
  · exact (h e he).2 hload

/-- Other requests before and after. -/
theorem CodeStep.between {t₂ : Sys σ} (h₁ : AskStep Request.Other t t₁)
    (h : CodeStep W c elf ehdr t₁ t₂) (h₂ : AskStep Request.Other t₂ t') :
    CodeStep W c elf ehdr t t' := by
  obtain ⟨l₁, hl₁, hother₁⟩ := h₁.asked
  obtain ⟨l, hl, hcode⟩ := h
  obtain ⟨l₂, hl₂, hother₂⟩ := h₂.asked
  have hanswers : answers Request.isCreate (l₁ ++ l ++ l₂) = answers Request.isCreate l := by
    rw [answers_append, answers_append, answers_eq_nil fun e he => (hother₁ e he).2,
      answers_eq_nil fun e he => (hother₂ e he).2, List.nil_append, List.append_nil]
  refine ⟨l₁ ++ l ++ l₂, by rw [hl₂, hl, hl₁]; simp only [List.append_assoc],
    fun e he hload => ?_⟩
  rw [hanswers]
  rcases List.mem_append.mp he with he | he
  · rcases List.mem_append.mp he with he | he
    · rw [(hother₁ e he).1] at hload
      cases hload
    · exact hcode e he hload
  · rw [(hother₂ e he).1] at hload
    cases hload

end

section

variable {σ : Type} (W : World σ) (c : Copy) {elf : Elf} {ehdr : Ehdr} {s : Globals σ}

/-- What is done with the sections, once the first loop has gone over them. -/
theorem loadSections_code {v : Scanned} (hr : Recorded s.toSys)
    (hm : Marked (fun x => x ∈ ehdr.sections ∧ elf.Taken ehdr x) s)
    (hmaps : v.maps = elf.mapsAt ehdr) (hsymbols : v.symbols = elf.symtab ehdr) :
    Ends (loadSections W c none elf ehdr v) s
      (fun _ s' => CodeStep W c elf ehdr s.toSys s'.toSys)
      fun _ s' => CodeStep W c elf ehdr s.toSys s'.toSys := by
  unfold loadSections
  split
  · exact ends_pure.mpr (codeStep_noLoad (.refl _))
  next symbols hsome =>
  refine (((makeMaps_asks W none v symbols s).and (makeMaps_table W hm)).mono (fun _ _ h => h)
    fun _ _ h => codeStep_noLoad h.1).bind ?_
  rintro r s₁ ⟨hasks, htable⟩
  cases r with
  | none => exact ends_pure.mpr (codeStep_noLoad hasks)
  | some nrMaps =>
    obtain ⟨l, hl, htable, hm₁⟩ := htable nrMaps rfl
    rw [hmaps] at htable hm₁
    -- the sections that are marked are those that are used for something else
    have hused : ∀ x ∈ ehdr.sections,
        (x ∈ ehdr.sections ∧ elf.Taken ehdr x ∨ elf.mapsAt ehdr = some x) ↔
          ∃ sec, getSec elf ehdr x = .ok sec ∧ elf.Used ehdr x sec := by
      intro x hx
      constructor
      · rintro (⟨-, sec, hsec, hname⟩ | hmapsAt)
        · exact ⟨sec, hsec, hname.elim .inl fun h => .inr (.inl h)⟩
        · have hmem := (List.mem_filter.mp (List.mem_of_getLast? hmapsAt)).2
          cases hsec : getSec elf ehdr x with
          | error e => simp [Elf.secAt, hsec, Except.toOption] at hmem
          | ok sec => exact ⟨sec, rfl, .inr (.inr hmapsAt)⟩
      · rintro ⟨sec, hsec, hname | hname | hmapsAt⟩
        · exact .inl ⟨hx, sec, hsec, .inl hname⟩
        · exact .inl ⟨hx, sec, hsec, .inr hname⟩
        · exact .inr hmapsAt
    have hlink := relocateSections_linked ehdr.sections List.nodup_range' hm₁ hused htable
      (.refl : LinkedTo elf elf ehdr symbols _ [])
    rw [List.nil_append] at hlink
    have hsecond : Asks Request.Other
        (relocateSections ehdr symbols nrMaps ehdr.sections elf : LoadM σ Elf) :=
      relocateSections_asks symbols nrMaps ehdr.sections elf
    refine (((hsecond s₁).and hlink).mono (fun _ _ h => h) fun _ s₂ h => ?_).bind ?_
    · exact codeStep_noLoad (hasks.trans _ _ _ (h.1.mono fun _ h => h.1))
    rintro elf' s₂ ⟨hasks₂, hlink⟩
    have hr₂ : Recorded s₂.toSys :=
      (hasks.trans _ _ _ (hasks₂.mono fun _ h => h.1)).recorded hr
    have hprograms : ∀ {s₃ : Globals σ}, LoadsFrom c elf' ehdr s₂.toSys s₃.toSys →
        CodeStep W c elf ehdr s.toSys s₃.toSys := by
      intro s₃ hloads
      obtain ⟨l₂, hl₂, hother⟩ := hasks₂.asked
      obtain ⟨l₃, hl₃, hof⟩ := hloads.loadsOf (hsymbols.symm.trans hsome) hlink
      obtain ⟨l', hl', hno⟩ := hasks.asked
      obtain rfl : l' = l := List.append_cancel_left (hl'.symm.trans hl)
      have hasked : s₃.asked = s₁.asked ++ (l₂ ++ l₃) := by rw [hl₃, hl₂, List.append_assoc]
      exact codeStep_loads hl hno hasked ((loadsOf_other hother).append hof)
    exact (loadPrograms_spec W c ehdr.sections (fun _ hi => hi) 1 hr₂).mono
      (fun _ _ h => hprograms h) fun _ _ h => hprograms h

/-- Every program that a call gives to the kernel is in the file that the call has opened. -/
def CodeFromFile (path : List UInt8) (t t' : Sys σ) : Prop :=
  ∃ l, t'.asked = t.asked ++ l ∧ ∀ e ∈ l, e.1.isLoad = true → ∃ elf ehdr,
    W.elf (W.ask t.kernel (.open path .rdonly)).1 (W.ask t.kernel (.open path .rdonly)).2.ret =
        some elf ∧
      elf.ehdr = some ehdr ∧ FromFile W c elf ehdr (answers Request.isCreate l) e.1

theorem codeFromFile_other {path : List UInt8} {t t' : Sys σ} (h : AskStep Request.Other t t') :
    CodeFromFile W c path t t' := by
  obtain ⟨l, hl, hother⟩ := h.asked
  refine ⟨l, hl, fun e he hload => ?_⟩
  rw [(hother e he).1] at hload
  cases hload

/-- After any calls of the loader that have returned, and whatever the file is and the kernel
answers, up to the end of the call or the first undefined behaviour in it: a program that
`load_bpf_file` gives to the kernel is a section of the file after the relocations for it. So it
has the instructions of the section but for 64-bit loads that a relocation names, and in these
the descriptor that the kernel has given in this call for the map at the value of the
relocation's symbol, or, if there is no map at this value, the immediate of the file. -/
theorem loadRun_code {kernel : σ} {calls : List Call}
    (hrun : Run (CallStep W c) (Globals.init kernel) calls s) (path : List UInt8) :
    Ends (loadBpfFile W c path) s (fun _ s' => CodeFromFile W c path s.toSys s'.toSys)
      fun _ s' => CodeFromFile W c path s.toSys s'.toSys := by
  have hr := run_recorded W c hrun
  have hnone : ∀ {s' : Globals σ}, AskStep Request.Other s.toSys s'.toSys →
      CodeFromFile W c path s.toSys s'.toSys := codeFromFile_other W c
  refine ends_modify_bind.mpr ?_
  set s₁ : Globals σ := { s with
    kernVersion := 0
    license := Vector.replicate 128 0
    processedSec := Vector.replicate 128 false }
  have hs₁ : AskStep Request.Other s.toSys s₁.toSys := .of_eq rfl rfl rfl
  refine Ends.ite (fun _ => ends_pure.mpr (hnone hs₁)) fun _ => ?_
  let s₂ : Globals σ := { s₁ with toSys := s₁.toSys.after W (.open path .rdonly) }
  have hopen : onSys (ask W (.open path .rdonly)) s₁ =
      .ok (W.ask s.kernel (.open path .rdonly)).2 s₂ := rfl
  have hs₂ : AskStep Request.Other s.toSys s₂.toSys :=
    hs₁.trans _ _ _ (after_kept W ⟨rfl, rfl⟩ s₁.toSys).toAskStep
  refine (ends_bind_of_ok hopen).mpr ?_
  refine Ends.ite (fun _ => ends_pure.mpr (hnone hs₂)) fun _ => ends_get_bind.mpr ?_
  split
  · exact ends_pure.mpr (hnone hs₂)
  next elf helf =>
  split
  · exact ends_pure.mpr (hnone hs₂)
  next ehdr hehdr =>
  -- from here on the file is fixed
  have hfile : ∀ {s' : Globals σ}, CodeStep W c elf ehdr s.toSys s'.toSys →
      CodeFromFile W c path s.toSys s'.toSys := by
    rintro s' ⟨l, hl, hcode⟩
    exact ⟨l, hl, fun e he hload => ⟨elf, ehdr, helf, hehdr, hcode e he hload⟩⟩
  have hclear : Ends (onSys (writeKprobeEvents W [])) s₂
      (fun _ s₃ => AskStep Request.Other s.toSys s₃.toSys ∧ Marked (fun _ => False) s₃)
      fun _ s₃ => CodeFromFile W c path s.toSys s₃.toSys := by
    refine (ends_onSys (writeKprobeEvents_keeps W [] s₂.toSys)).mono ?_ ?_
    · rintro _ _ ⟨hkept, t, rfl⟩
      exact ⟨hs₂.trans _ _ _ hkept.toAskStep, marked_none rfl⟩
    · rintro _ _ ⟨hkept, -⟩
      exact hnone (hs₂.trans _ _ _ hkept.toAskStep)
  refine hclear.bind ?_
  rintro - s₃ ⟨hs₃, hm₃⟩
  have hscan : Asks Request.Other
      (scanSections elf ehdr ehdr.sections .init : LoadM σ (Option Scanned)) :=
    scanSections_asks ehdr.sections .init
  refine (((hscan s₃).and (scanSections_finds ehdr.sections hm₃)).mono (fun _ _ h => h)
    fun _ _ h => hnone (hs₃.trans _ _ _ h.1)).bind ?_
  rintro r s₄ ⟨hasks₄, hfinds⟩
  have hs₄ : AskStep Request.Other s.toSys s₄.toSys := hs₃.trans _ _ _ hasks₄
  cases r with
  | none => exact ends_pure.mpr (hnone hs₄)
  | some v =>
    obtain ⟨hmaps, hsymbols, hm₄⟩ := hfinds v rfl
    have hsections := loadSections_code W c (v := v) ((hs₄.mono fun _ h => h.1).recorded hr)
      (hm₄.congr fun x => by rw [false_or]) (hmaps.trans (Option.or_none ..))
      (hsymbols.trans (Option.or_none ..))
    refine (hsections.mono (fun _ _ h => h) fun _ s₅ h =>
      hfile (h.between hs₄ (.refl _))).bind ?_
    intro ret s₅ hcode
    have hclose : ∀ fd, onSys (ask W (.close fd)) s₅ =
        .ok (W.ask s₅.kernel (.close fd)).2 { s₅ with toSys := s₅.toSys.after W (.close fd) } :=
      fun _ => rfl
    refine (ends_bind_of_ok (hclose _)).mpr (ends_pure.mpr ?_)
    exact hfile (hcode.between hs₄ (after_kept W ⟨rfl, rfl⟩ s₅.toSys).toAskStep)

/-- So it is when `bpf_test.o` is loaded a second time. -/
theorem loadRun_code_bpfTest : ∃ s s' : Globals Nat,
    Run (CallStep (counting BpfTest.elf) .plain) (Globals.init 3)
      [.load (ascii "bpf_test.o") 0] s ∧
      loadBpfFile (counting BpfTest.elf) .plain (ascii "bpf_test.o") s = .ok 0 s' ∧
      CodeFromFile (counting BpfTest.elf) .plain (ascii "bpf_test.o") s.toSys s'.toSys := by
  obtain ⟨s, s', hrun, hload⟩ := bpfTest_returns
  have hcode := loadRun_code (counting BpfTest.elf) .plain hrun (ascii "bpf_test.o")
  exact ⟨s, s', hrun, hload, (ends_of_ok hload).mp hcode⟩

end

end BpfExamples.Loader
