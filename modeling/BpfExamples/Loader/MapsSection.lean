import Mathlib.Data.List.Forall2
import BpfExamples.Loader.Linking

/-!
# The maps of a file

The symbols of the section `maps` give the maps their names and, by their order, their numbers.
Where the offsets of the symbols differ, every way to sort them gives the same order, and the
loader reads each declaration as it is meant, whether the declarations of the file are shorter
or longer than its own (`loadElfMapsSection_reads`). It then asks the kernel for the maps that
the object declares, and keeps their descriptors (`makeMaps_mirrors`).
-/

namespace BpfExamples.Loader

/-! ## Reading the declarations -/

theorem mapSymbols_eq (symbols : Data) (shndx : Nat) (is : List Nat) (found : List Sym)
    (h : found.length + ((is.filterMap (gelfGetsym symbols)).filter fun sym =>
      sym.shndx = shndx).length ≤ maxMaps) :
    mapSymbols symbols shndx is found =
      .ok (found ++ (is.filterMap (gelfGetsym symbols)).filter fun sym =>
        sym.shndx = shndx) := by
  induction is generalizing found with
  | nil => simp [mapSymbols]
  | cons i is ih =>
    have hroom : found.length < maxMaps + 1 := by omega
    rw [mapSymbols, if_pos hroom]
    cases hsym : gelfGetsym symbols i with
    | none =>
      rw [List.filterMap_cons_none hsym] at h ⊢
      exact ih found h
    | some sym =>
      rw [List.filterMap_cons_some hsym] at h ⊢
      dsimp only
      by_cases hin : sym.shndx = shndx
      · rw [if_neg (not_not.mpr hin)]
        rw [List.filter_cons_of_pos (by simpa using hin)] at h ⊢
        rw [ih (found ++ [sym]) (by
            rw [List.length_append, List.length_singleton]; rw [List.length_cons] at h; omega),
          List.append_assoc]
        rfl
      · rw [if_pos hin]
        rw [List.filter_cons_of_neg (by simpa using hin)] at h ⊢
        exact ih found h

theorem mapSymbols_of_ok {symbols : Data} {shndx : Nat} {is : List Nat} {found l : List Sym}
    (h : mapSymbols symbols shndx is found = .ok l) :
    l = found ++ (is.filterMap (gelfGetsym symbols)).filter fun sym => sym.shndx = shndx := by
  induction is generalizing found with
  | nil =>
    cases h
    exact (List.append_nil l).symm
  | cons i is ih =>
    rw [mapSymbols] at h
    split at h
    swap
    · cases h
    split at h
    · next hsym =>
      rw [List.filterMap_cons_none hsym]
      exact ih h
    · next sym hsym =>
      rw [List.filterMap_cons_some hsym]
      split at h
      · next hin =>
        rw [List.filter_cons_of_neg (by simpa using hin)]
        exact ih h
      · next hin =>
        rw [List.filter_cons_of_pos (by simpa using hin), ih h, List.append_assoc]
        rfl

theorem restZero_eq (data : Data) (as : List Nat)
    (h : ∀ a ∈ as, a < data.size ∧ data.buf a = 0) : restZero data as = .ok true := by
  induction as with
  | nil => rfl
  | cons a as ih =>
    obtain ⟨hlt, hzero⟩ := h a (List.mem_cons_self ..)
    rw [restZero, if_pos hlt, if_neg (not_not.mpr hzero)]
    exact ih fun b hb => h b (List.mem_cons_of_mem _ hb)

section

variable {σ : Type} {elf : Elf} {strtab stride : Nat} {data : Data}

theorem readMap_eq {sym : Sym} {d : MapDecl} (h : Declares elf strtab data stride sym d)
    (m : MapData) :
    readMap elf strtab data stride sym m =
      .ok ({ m with name := d.name, elfOffset := sym.value, mapDef := d.mapDef }, true) := by
  obtain ⟨p, hp, hname⟩ := h.name
  have hinside := h.inside
  have hcopy : copyDef data sym.value (min stride mapDefSize) = .ok d.mapDef := by
    rw [copyDef, if_pos (by omega), ← h.known]
  have hrest : restZero data (List.range' (sym.value + min stride mapDefSize)
      (stride - min stride mapDefSize)) = .ok true := by
    refine restZero_eq data _ fun a ha => ?_
    obtain ⟨h₁, h₂⟩ := List.mem_range'_1.mp ha
    have hzero := h.unknown (a - sym.value) (by omega) (by omega)
    rw [show sym.value + (a - sym.value) = a by omega] at hzero
    exact ⟨by omega, hzero⟩
  unfold readMap
  simp only [hp, hcopy, hname]
  show (restZero _ _ >>= _) = _
  rw [hrest]
  rfl

/-- The map is as it is declared. -/
structure Described (m : MapData) (sym : Sym) (d : MapDecl) : Prop where
  name : m.name = d.name
  elfOffset : m.elfOffset = sym.value
  mapDef : m.mapDef = d.mapDef

/-- The maps from the `i`-th on are as they are declared. -/
def DescribedFrom (i : Nat) (syms : List Sym) (decls : List MapDecl)
    (maps : Vector MapData maxMaps) : Prop :=
  ∀ j sym d, syms[j]? = some sym → decls[j]? = some d → ∃ h : i + j < maxMaps,
    Described maps[i + j] sym d

theorem DescribedFrom.tail {i : Nat} {sym : Sym} {syms : List Sym} {d : MapDecl}
    {decls : List MapDecl} {maps : Vector MapData maxMaps}
    (h : DescribedFrom i (sym :: syms) (d :: decls) maps) :
    DescribedFrom (i + 1) syms decls maps := by
  intro j sym' d' hsym hd
  obtain ⟨hlt, hdesc⟩ := h (j + 1) sym' d' hsym hd
  have hij : i + (j + 1) = i + 1 + j := by omega
  refine ⟨by omega, ?_⟩
  simp only [hij] at hdesc
  exact hdesc

/-- A list of descriptions holds for the first map and for the others. -/
theorem DescribedFrom.cons {i : Nat} {sym : Sym} {syms : List Sym} {d : MapDecl}
    {decls : List MapDecl} {maps : Vector MapData maxMaps} (hi : i < maxMaps)
    (hfirst : Described maps[i] sym d) (hrest : DescribedFrom (i + 1) syms decls maps) :
    DescribedFrom i (sym :: syms) (d :: decls) maps := by
  intro j sym' d' hsym hd
  cases j with
  | zero =>
    obtain rfl : sym = sym' := Option.some.inj hsym
    obtain rfl : d = d' := Option.some.inj hd
    exact ⟨hi, hfirst⟩
  | succ j =>
    obtain ⟨hlt, hdesc⟩ := hrest j sym' d' hsym hd
    have hij : i + 1 + j = i + (j + 1) := by omega
    simp only [hij] at hdesc
    exact ⟨by omega, hdesc⟩

theorem readMaps_eq {syms : List Sym} {decls : List MapDecl}
    (h : List.Forall₂ (Declares elf strtab data stride) syms decls) (i : Nat)
    (maps : Vector MapData maxMaps) (hfit : i + syms.length ≤ maxMaps) :
    ∃ maps', readMaps elf strtab data stride syms i maps = .ok (true, maps') ∧
      (∀ x (hx : x < maxMaps), x < i → maps'[x] = maps[x]) ∧
        DescribedFrom i syms decls maps' := by
  induction h generalizing i maps with
  | nil =>
    refine ⟨maps, rfl, fun _ _ _ => rfl, ?_⟩
    intro j sym d hsym
    cases hsym
  | @cons sym d syms decls hdecl _ ih =>
    rw [List.length_cons] at hfit
    have hi : i < maxMaps := by omega
    obtain ⟨maps', hread, hbefore, hrest⟩ := ih (i + 1) (maps.set i
      { maps[i] with name := d.name, elfOffset := sym.value, mapDef := d.mapDef } hi) (by omega)
    refine ⟨maps', ?_, fun x hx hlt => ?_, ?_⟩
    · rw [readMaps, dif_pos hi, readMap_eq hdecl]
      exact hread
    · rw [hbefore x hx (by omega), Vector.getElem_set_ne _ _ (by omega)]
    · refine DescribedFrom.cons hi ?_ hrest
      rw [hbefore i hi (by omega), Vector.getElem_set_self]
      exact ⟨rfl, rfl, rfl⟩

end

/-- The order of symbols with different offsets does not depend on how they are sorted. -/
theorem qsort_eq {σ : Type} (W : World σ) {syms found : List Sym} (hperm : syms.Perm found)
    (hinc : syms.Pairwise fun a b => a.value < b.value) : W.qsort found = syms := by
  have hinj : ∀ a ∈ syms, ∀ b ∈ syms, a.value = b.value → a = b := by
    intro a ha b hb hab
    obtain ⟨i, hi, rfl⟩ := List.getElem_of_mem ha
    obtain ⟨j, hj, rfl⟩ := List.getElem_of_mem hb
    have hpair := List.pairwise_iff_getElem.mp hinc
    rcases Nat.lt_trichotomy i j with hlt | rfl | hlt
    · exact absurd hab (Nat.ne_of_lt (hpair i j hi hj hlt))
    · rfl
    · exact absurd hab.symm (Nat.ne_of_lt (hpair j i hj hi hlt))
  have hqsort : (W.qsort found).Perm syms := (W.qsort_perm found).trans hperm.symm
  refine List.Perm.eq_of_pairwise (fun a b ha hb hab hba => ?_) (W.qsort_sorted found)
    (hinc.imp fun h => Nat.le_of_lt h) hqsort
  exact hinj a (hqsort.mem_iff.mp ha) b hb (Nat.le_antisymm hab hba)

section

variable {σ : Type} (W : World σ) {elf : Elf} {ehdr : Ehdr} {L : Layout} {sec : Sec}
  {maps : List MapDecl}

theorem getSec_data {i : Nat} (h : getSec elf ehdr i = .ok sec) :
    ((elf.scn i).bind fun scn => scn.data.head?) = some sec.data := by
  unfold getSec at h
  split at h
  · cases h
  next scn hscn =>
    rw [hscn]
    show scn.data.head? = _
    split at h
    · cases h
    split at h
    · cases h
    split at h
    · cases h
    split at h
    · next data hdata =>
      rw [hdata]
      cases h
      rfl
    · cases h

/-- `load_elf_maps_section` reads what is declared. -/
theorem loadElfMapsSection_reads (H : HoldsMaps elf L sec.data maps)
    (hsec : getSec elf ehdr L.mapsShndx = .ok sec) (old : Vector MapData maxMaps) :
    ∃ new, loadElfMapsSection W old L.mapsShndx elf (some L.symbols) L.strtab =
      .ok ((maps.length : Int), new) ∧
      DescribedFrom 0 L.mapSyms maps new := by
  have hlen : L.mapSyms.length = maps.length := H.declared.length_eq
  have hfound : mapSymbols L.symbols L.mapsShndx (List.range (L.symbols.size / symSize)) [] =
      .ok (symsIn L.symbols L.mapsShndx) := by
    refine mapSymbols_eq _ _ _ _ ?_
    rw [List.length_nil, Nat.zero_add]
    exact H.symbols.length_eq ▸ H.few
  obtain ⟨new, hread, -, hdesc⟩ :=
    readMaps_eq H.declared 0 old (by rw [Nat.zero_add]; exact H.few)
  refine ⟨new, ?_, hdesc⟩
  have hpos : ¬ (L.mapsShndx : Int) < 0 := by omega
  rw [loadElfMapsSection, if_neg hpos, Int.toNat_natCast, getSec_data hsec]
  dsimp only
  rw [hfound]
  show (if W.qsort (symsIn _ _) = [] then _ else _) = _
  rw [qsort_eq W H.symbols H.increasing, if_neg H.nonempty]
  show (readMaps _ _ _ _ _ _ _ >>= _) = _
  rw [hread, ← hlen]
  rfl

/-- One declaration, in any file: the map gets the offset of its symbol. -/
theorem readMap_offset {strtab stride : Nat} {data : Data} {sym : Sym} {m m' : MapData}
    {known : Bool} (h : readMap elf strtab data stride sym m = .ok (m', known)) :
    m'.elfOffset = sym.value := by
  unfold readMap at h
  dsimp only at h
  split at h
  · cases h
  cases hdef : copyDef data sym.value (min stride mapDefSize) with
  | error e =>
    rw [hdef] at h
    cases h
  | ok mapDef =>
    rw [hdef] at h
    change (restZero _ _ >>= _) = _ at h
    generalize restZero _ _ = rest at h
    cases rest with
    | error e => cases h
    | ok known =>
      cases h
      rfl

/-- The maps from the `i`-th on have the offsets of the symbols. -/
def OffsetsFrom (i : Nat) (syms : List Sym) (maps : Vector MapData maxMaps) : Prop :=
  ∀ (j : Nat) (sym : Sym), syms[j]? = some sym → ∃ h : i + j < maxMaps,
    maps[i + j].elfOffset = sym.value

theorem readMaps_offsets {strtab stride : Nat} {data : Data} {syms : List Sym} {i : Nat}
    {old new : Vector MapData maxMaps}
    (h : readMaps elf strtab data stride syms i old = .ok (true, new)) :
    (∀ x (hx : x < maxMaps), x < i → new[x] = old[x]) ∧ OffsetsFrom i syms new := by
  induction syms generalizing i old with
  | nil =>
    cases h
    exact ⟨fun _ _ _ => rfl, fun j sym hsym => by cases hsym⟩
  | cons sym syms ih =>
    rw [readMaps] at h
    split at h
    swap
    · cases h
    next hi =>
    cases hread : readMap elf strtab data stride sym old[i] with
    | error e =>
      rw [hread] at h
      cases h
    | ok r =>
      obtain ⟨m, known⟩ := r
      rw [hread] at h
      change (if known then _ else _) = _ at h
      split at h
      swap
      · cases h
      obtain ⟨hbefore, hrest⟩ := ih h
      refine ⟨fun x hx hlt => ?_, fun j sym' hsym => ?_⟩
      · rw [hbefore x hx (by omega), Vector.getElem_set_ne _ _ (by omega)]
      · cases j with
        | zero =>
          obtain rfl : sym = sym' := Option.some.inj hsym
          have hfirst : new[i].elfOffset = sym.value := by
            rw [hbefore i hi (Nat.lt_succ_self i), Vector.getElem_set_self]
            exact readMap_offset hread
          exact ⟨hi, hfirst⟩
        | succ j =>
          obtain ⟨hlt, hoffset⟩ := hrest j sym' hsym
          have hij : i + 1 + j = i + (j + 1) := by omega
          simp only [hij] at hlt hoffset
          exact ⟨hlt, hoffset⟩

/-- `load_elf_maps_section`, on any file, where it succeeds: the maps are those of the symbols
of the section. -/
theorem loadElfMapsSection_offsets {symbols : Data} {strtab : Nat} {shndx n : Int}
    {old new : Vector MapData maxMaps} (hn : ¬ n < 0)
    (h : loadElfMapsSection W old shndx elf (some symbols) strtab = .ok (n, new)) :
    n.toNat = (W.qsort (symsIn symbols shndx.toNat)).length ∧
      OffsetsFrom 0 (W.qsort (symsIn symbols shndx.toNat)) new := by
  have hfails : (-22 : Int) = n → False := by omega
  unfold loadElfMapsSection at h
  split at h
  · cases h
    exact absurd rfl hfails
  dsimp only at h
  split at h
  · cases h
    exact absurd rfl hfails
  cases hsyms : mapSymbols symbols shndx.toNat (List.range (symbols.size / symSize)) [] with
  | error e =>
    rw [hsyms] at h
    cases h
  | ok found =>
    obtain rfl : found = symsIn symbols shndx.toNat := mapSymbols_of_ok hsyms
    rw [hsyms] at h
    change (if W.qsort _ = [] then _ else _) = _ at h
    split at h
    · cases h
    change (readMaps _ _ _ _ _ _ _ >>= _) = _ at h
    cases hread : readMaps elf strtab _ _ (W.qsort (symsIn symbols shndx.toNat)) 0 old with
    | error e =>
      rw [hread] at h
      cases h
    | ok r =>
      obtain ⟨known, maps⟩ := r
      rw [hread] at h
      cases h
      cases known with
      | false => exact absurd (show (-27 : Int) < 0 by decide) hn
      | true => exact ⟨Int.toNat_natCast _, (readMaps_offsets hread).2⟩

end

/-! ## Creating the maps -/

section

variable {σ : Type} (W : World σ) {s : Globals σ} {syms : List Sym} {decls : List MapDecl}
  {i : Nat}

/-- The maps from the `i`-th on have the offsets of their symbols, and these descriptors. -/
def CreatedFrom (i : Nat) (syms : List Sym) (fds : List Int) (maps : Vector MapData maxMaps) :
    Prop :=
  ∀ j sym, syms[j]? = some sym → ∃ h : i + j < maxMaps, maps[i + j].elfOffset = sym.value ∧
    fds[j]? = some maps[i + j].fd

theorem CreatedFrom.cons {fd : Int} {fds : List Int} {sym : Sym} {maps : Vector MapData maxMaps}
    (hi : i < maxMaps) (hoffset : maps[i].elfOffset = sym.value) (hfd : maps[i].fd = fd)
    (h : CreatedFrom (i + 1) syms fds maps) : CreatedFrom i (sym :: syms) (fd :: fds) maps := by
  intro j sym' hsym
  cases j with
  | zero =>
    obtain rfl : sym = sym' := Option.some.inj hsym
    exact ⟨hi, hoffset, congrArg some hfd.symm⟩
  | succ j =>
    obtain ⟨hlt, h₁, h₂⟩ := h j sym' hsym
    have hij : i + 1 + j = i + (j + 1) := by omega
    simp only [hij] at h₁ h₂
    exact ⟨by omega, h₁, h₂⟩

/-- One turn of `load_maps`. -/
theorem loadMap_mirrors {sym : Sym} {d : MapDecl} (hi : i < maxMaps)
    (hd : Described s.mapData[i] sym d) :
    Mirrors Globals.toSys (loadMap W none i) s (createMap W i d.name d.mapDef) fun a b s' =>
      s'.processedSec = s.processedSec ∧
        ((a = false ∧ b = none) ∨ (a = true ∧ ∃ fd, b = some fd ∧
        s'.mapData = s.mapData.set i { s.mapData[i] with fd := fd } hi)) := by
  have hset : (set { s with mapData := s.mapData.set i s.mapData[i] hi } : LoadM σ Unit) s =
      .ok () s := by
    rw [Vector.set_getElem_self hi]
    rfl
  -- what comes after `createMap`, for its two results
  obtain ⟨keep, hstart, hfail, hkeep⟩ : ∃ keep : Option Int → LoadM σ Bool, loadMap W none i s =
    (onSys (createMap W i d.name d.mapDef) >>= keep) s ∧ keep none = pure false ∧
    ∀ fd, keep (some fd) = (do
          modify fun s' =>
            { s' with mapData := s'.mapData.set i { s.mapData[i] with fd := fd } hi }
          pure true) := by
    rw [← hd.name, ← hd.mapDef]
    unfold loadMap
    rw [dif_pos hi, bind_of_ok (show (get : LoadM σ (Globals σ)) s = .ok s s from rfl)]
    exact ⟨_, bind_of_ok hset, rfl, fun _ => rfl⟩
  refine Mirrors.runsInto hstart rfl ((mirrors_onSys _ s).andThen ?_)
  rintro r r' s' ⟨rfl, t, rfl⟩
  cases r with
  | none =>
    rw [hfail]
    exact ends_pure.mpr ⟨rfl, rfl, .inl ⟨rfl, rfl⟩⟩
  | some fd =>
    have hmodify : (modify fun s' : Globals σ =>
      { s' with mapData := s'.mapData.set i { s.mapData[i] with fd := fd } hi } : LoadM σ Unit)
      { s with toSys := t } = .ok ()
      { s with toSys := t, mapData := s.mapData.set i { s.mapData[i] with fd := fd } hi } := rfl
    rw [hkeep]
    exact (ends_bind_of_ok hmodify).mpr (ends_pure.mpr ⟨rfl, rfl, .inr ⟨rfl, fd, rfl, rfl⟩⟩)

/-- A map that has been created stays described for those after it. -/
theorem DescribedFrom.set {maps : Vector MapData maxMaps} {m : MapData}
    (h : DescribedFrom (i + 1) syms decls maps) (hi : i < maxMaps) :
    DescribedFrom (i + 1) syms decls (maps.set i m hi) := by
  intro j sym d hsym hd
  obtain ⟨hlt, hdesc⟩ := h j sym d hsym hd
  refine ⟨hlt, ?_⟩
  rw [Vector.getElem_set_ne _ _ (by omega)]
  exact hdesc

/-- `load_maps` asks for the maps that are declared, and keeps their descriptors. -/
theorem loadMaps_mirrors (hlen : syms.length = decls.length)
    (hd : DescribedFrom i syms decls s.mapData) :
    Mirrors Globals.toSys (loadMaps W none (List.range' i decls.length)) s
      (createMaps W i decls) fun a b s' =>
      s'.processedSec = s.processedSec ∧
        ((a = 1 ∧ b = none) ∨ (a = 0 ∧ ∃ fds, b = some fds ∧ fds.length = decls.length ∧
        (∀ x (hx : x < maxMaps), x < i → s'.mapData[x] = s.mapData[x]) ∧
          CreatedFrom i syms fds s'.mapData)) := by
  induction decls generalizing i s syms with
  | nil =>
    obtain rfl : syms = [] := List.length_eq_zero_iff.mp hlen
    refine .pure ⟨rfl, .inr ⟨rfl, [], rfl, rfl, fun _ _ _ => rfl, ?_⟩⟩
    intro j sym hsym
    cases hsym
  | cons d decls ih =>
    obtain ⟨sym, syms, rfl⟩ : ∃ sym syms', syms = sym :: syms' := by
      cases syms with
      | nil => cases hlen
      | cons sym syms => exact ⟨sym, syms, rfl⟩
    obtain ⟨hi, hfirst⟩ : ∃ hi : i < maxMaps, Described s.mapData[i] sym d := hd 0 sym d rfl rfl
    rw [List.length_cons, List.range'_succ, loadMaps, createMaps]
    refine (loadMap_mirrors W hi hfirst).bind ?_
    rintro a b s₁ ⟨hproc, ⟨rfl, rfl⟩ | ⟨rfl, fd, rfl, hmaps⟩⟩
    · exact .pure ⟨hproc, .inl ⟨rfl, rfl⟩⟩
    · have hd₁ : DescribedFrom (i + 1) syms decls s₁.mapData := hmaps ▸ hd.tail.set hi
      have hrest := ih (Nat.succ.inj hlen) hd₁
      rw [if_pos rfl, ← bind_pure (loadMaps W none _)]
      refine hrest.bind ?_
      rintro a b s₂ ⟨hproc₂, ⟨rfl, rfl⟩ | ⟨rfl, fds, rfl, hfds, hbefore, hcreated⟩⟩
      · exact .pure ⟨hproc₂.trans hproc, .inl ⟨rfl, rfl⟩⟩
      · have hkeep : s₂.mapData[i] = { s.mapData[i] with fd := fd } := by
          rw [hbefore i hi (Nat.lt_succ_self i), hmaps, Vector.getElem_set_self]
        refine .pure ⟨hproc₂.trans hproc,
          .inr ⟨rfl, fd :: fds, rfl, by rw [List.length_cons, hfds], fun x hx hlt => ?_, ?_⟩⟩
        · rw [hbefore x hx (by omega), hmaps, Vector.getElem_set_ne _ _ (by omega)]
        · refine CreatedFrom.cons hi ?_ ?_ hcreated
          · rw [hkeep]
            exact hfirst.elfOffset
          · rw [hkeep]

/-- The table of the maps, as the relocations use it. -/
theorem CreatedFrom.columns {fds : List Int} {maps : Vector MapData maxMaps}
    (hfds : fds.length = syms.length) (h : CreatedFrom 0 syms fds maps) :
    (maps.toList.take syms.length).map MapData.elfOffset = syms.map Sym.value ∧
      (maps.toList.take syms.length).map MapData.fd = fds := by
  have hget : ∀ (j : Nat) (sym : Sym), syms[j]? = some sym →
      ∃ m : MapData, (maps.toList.take syms.length)[j]? = some m ∧ m.elfOffset = sym.value ∧
        fds[j]? = some m.fd := by
    intro j sym hsym
    have hj : j < syms.length := (List.getElem?_eq_some_iff.mp hsym).1
    obtain ⟨hlt, hoffset, hfd⟩ := h j sym hsym
    simp only [Nat.zero_add] at hlt hoffset hfd
    refine ⟨maps[j], ?_, hoffset, hfd⟩
    rw [List.getElem?_take_of_lt hj, Vector.getElem?_toList]
    exact Vector.getElem?_eq_getElem hlt
  have hnone : ∀ j : Nat, syms[j]? = none →
      (maps.toList.take syms.length)[j]? = none ∧ fds[j]? = none := by
    intro j hj
    have hge := List.getElem?_eq_none_iff.mp hj
    refine ⟨List.getElem?_eq_none ?_, List.getElem?_eq_none (by omega)⟩
    rw [List.length_take]
    omega
  refine ⟨List.ext_getElem? fun j => ?_, List.ext_getElem? fun j => ?_⟩
  · rw [List.getElem?_map, List.getElem?_map]
    cases hsym : syms[j]? with
    | none => rw [(hnone j hsym).1]; rfl
    | some sym =>
      obtain ⟨m, hm, hoffset, -⟩ := hget j sym hsym
      rw [hm]
      exact congrArg some hoffset
  · rw [List.getElem?_map]
    cases hsym : syms[j]? with
    | none => rw [(hnone j hsym).1, (hnone j hsym).2]; rfl
    | some sym =>
      obtain ⟨m, hm, -, hfd⟩ := hget j sym hsym
      rw [hm, hfd]
      rfl

theorem CreatedFrom.created {L : Layout} {fds : List Int} {maps : Vector MapData maxMaps}
    (hfds : fds.length = L.mapSyms.length)
    (hinc : L.mapSyms.Pairwise fun a b => a.value < b.value)
    (h : CreatedFrom 0 L.mapSyms fds maps) :
    Created L fds (maps.toList.take L.mapSyms.length) := by
  obtain ⟨hoffsets, hdescriptors⟩ := h.columns hfds
  exact ⟨hoffsets, hdescriptors, hinc⟩

/-- The maps of a file that has some are created as the object's, and are kept for the
relocations. -/
theorem makeMaps_mirrors {elf : Elf} {ehdr : Ehdr} {L : Layout} {sec : Sec}
    {maps : List MapDecl} {P : Nat → Prop} (H : HoldsMaps elf L sec.data maps)
    (hsec : getSec elf ehdr L.mapsShndx = .ok sec) (h128 : L.mapsShndx < 128)
    (hm : Marked P s) :
    Mirrors Globals.toSys (makeMaps W none elf ⟨L.mapsShndx, true, L.strtab,
      some L.symbols⟩ L.symbols) s (createMaps W 0 maps)
      fun a b s' => (a = none ∧ b = none) ∨ ∃ fds, a = some maps.length ∧ b = some fds ∧
        Created L fds (s'.mapData.toList.take maps.length) ∧
          Marked (fun x => P x ∨ x = L.mapsShndx) s' := by
  have hlen : L.mapSyms.length = maps.length := H.declared.length_eq
  obtain ⟨new, hread, hdesc⟩ := loadElfMapsSection_reads W H hsec s.mapData
  have hstart : makeMaps W none elf ⟨L.mapsShndx, true, L.strtab, some L.symbols⟩ L.symbols s =
      (loadMaps W none (List.range' 0 maps.length) >>= fun ret => if ret ≠ 0 then pure none
        else do
          modify fun s => { s with mapDataCount := maps.length }
          setProcessed L.mapsShndx
          pure (some maps.length)) { s with mapData := new } := by
    unfold makeMaps
    rw [if_pos rfl, bind_of_ok (show (get : LoadM σ (Globals σ)) s = .ok s s from rfl)]
    dsimp only
    rw [Int.toNat_natCast, hread, bind_of_ok
      (show (orFault (.ok ((maps.length : Int), new)) : LoadM σ _) s = .ok _ s from rfl)]
    dsimp only
    refine (bind_of_ok (show (set { s with mapData := new } : LoadM σ Unit) s = .ok ()
      { s with mapData := new } from rfl)).trans ?_
    rw [if_neg (by omega), Int.toNat_natCast, Int.toNat_natCast, List.range_eq_range']
  have hload : Mirrors Globals.toSys (loadMaps W none (List.range' 0 maps.length))
    { s with mapData := new } (createMaps W 0 maps) _ := loadMaps_mirrors W hlen hdesc
  refine Mirrors.runsInto hstart rfl (hload.andThen ?_)
  rintro ret r s₁ ⟨hproc, ⟨rfl, rfl⟩ | ⟨rfl, fds, rfl, hfds, -, hcreated⟩⟩
  · exact ends_pure.mpr ⟨rfl, .inl ⟨rfl, rfl⟩⟩
  · have hm₁ : Marked P { s₁ with mapDataCount := maps.length } := hm.same hproc
    rw [if_neg (by decide)]
    have hcount : (modify fun s => { s with mapDataCount := maps.length } : LoadM σ Unit) s₁ =
        .ok () { s₁ with mapDataCount := maps.length } := rfl
    refine (ends_bind_of_ok hcount).mpr ?_
    refine (ends_bind_of_ok (setProcessed_eq h128)).mpr
      (ends_pure.mpr ⟨rfl, .inr ⟨fds, rfl, rfl, ?_, hm₁.set h128⟩⟩)
    have hc := hcreated.created (hfds.trans hlen.symm) H.increasing
    rw [hlen] at hc
    exact hc

end

end BpfExamples.Loader
