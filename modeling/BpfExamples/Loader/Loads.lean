import Mathlib.Data.List.Sort
import BpfExamples.Loader.MapsSection
import BpfExamples.Loader.Requests

/-!
# Loading a file is loading the object that it holds

The first loop over the sections collects the license, the version, the symbols and the place of
the maps, in whatever order the sections come (`scanSections_collects`). Together with the maps
and the relocations this gives the main result: for a file that holds an object, `load_bpf_file`
asks the kernel for what `Object.load` asks for, whatever the kernel answers, and returns the
same (`loadBpfFile_loads`); where this is 0, these are one request for each map and one for each
program (`loadBpfFile_asks`).
-/

namespace BpfExamples.Loader

/-! ## The first loop -/

section

variable {σ : Type} {elf : Elf} {ehdr : Ehdr} {c : Copy} {L : Layout} {o : Object}

/-- Among the sections `done` there is one that `p` holds of. -/
def Seen (elf : Elf) (ehdr : Ehdr) (done : List Nat) (p : Sec → Prop) : Prop :=
  ∃ i ∈ done, ∃ sec, elf.HasSec ehdr i sec ∧ p sec

theorem seen_snoc {done : List Nat} {p : Sec → Prop} {i : Nat} {sec : Sec}
    (h : elf.HasSec ehdr i sec) :
    Seen elf ehdr (done ++ [i]) p ↔ Seen elf ehdr done p ∨ p sec := by
  have hone : (∃ sec', elf.HasSec ehdr i sec' ∧ p sec') ↔ p sec := by
    constructor
    · rintro ⟨sec', h', hp⟩
      obtain rfl : sec' = sec := Except.ok.inj (h'.2.symm.trans h.2)
      exact hp
    · exact fun hp => ⟨sec, h, hp⟩
  simp only [Seen, List.mem_append, List.mem_singleton, or_and_right, exists_or,
    exists_eq_left, hone]

theorem seen_snoc_error {done : List Nat} {p : Sec → Prop} {i e : Nat}
    (h : getSec elf ehdr i = .error e) :
    Seen elf ehdr (done ++ [i]) p ↔ Seen elf ehdr done p := by
  have hnone : ¬ ∃ sec', elf.HasSec ehdr i sec' ∧ p sec' := by
    rintro ⟨sec', h', -⟩
    rw [h'.2] at h
    cases h
  simp only [Seen, List.mem_append, List.mem_singleton, or_and_right, exists_or, exists_eq_left,
    hnone, or_false]

/-- The section is a table of symbols that the loader takes. -/
def Sec.Symtab (sec : Sec) : Prop := ¬ sec.Special ∧ sec.shdr.type = shtSymtab

/-- What has been collected after the sections `done`. -/
structure Scanning (elf : Elf) (ehdr : Ehdr) (L : Layout) (o : Object) (done : List Nat)
    (t : Sys σ) (v : Scanned) (s : Globals σ) : Prop where
  sys : s.toSys = { t with kernVersion := s.kernVersion, license := s.license }
  license : Seen elf ehdr done (·.Named "license") → s.license = padded o.license
  noLicense : ¬ Seen elf ehdr done (·.Named "license") → s.license = Vector.replicate 128 0
  version : Seen elf ehdr done (·.Named "version") → s.kernVersion = o.version
  noVersion : ¬ Seen elf ehdr done (·.Named "version") → s.kernVersion = 0
  maps : Seen elf ehdr done (·.Named "maps") → v.mapsShndx = L.mapsShndx ∧ v.dataMaps = true
  noMaps : ¬ Seen elf ehdr done (·.Named "maps") → v.dataMaps = false
  symtab : Seen elf ehdr done Sec.Symtab → v.symbols = some L.symbols ∧ v.strtabidx = L.strtab
  marked : Marked (fun x => x ∈ done ∧ ∃ sec, elf.HasSec ehdr x sec ∧
    (sec.Named "license" ∨ sec.Named "version")) s

/-- The license, once its section has been copied over nothing or over itself. -/
theorem padded_eq {data : Data} {license : List UInt8} (hbytes : data.bytes = license)
    {old : Vector UInt8 128} (hold : old = padded license ∨ old = Vector.replicate 128 0) :
    (Vector.ofFn fun j : Fin 128 => if j.val < data.size then data.buf j else old.get j) =
      padded license := by
  have hget : ∀ j : Nat, license.getD j 0 = if j < data.size then data.buf j else 0 := by
    intro j
    rw [← hbytes, Data.bytes, List.getD_eq_getElem?_getD, List.getElem?_map]
    by_cases hj : j < data.size
    · rw [List.getElem?_range hj, if_pos hj]
      rfl
    · rw [List.getElem?_eq_none (by rw [List.length_range]; omega), if_neg hj]
      rfl
  have hrest : ∀ j : Fin 128, ¬ j.val < data.size → old.get j = 0 := by
    intro j hj
    rcases hold with rfl | rfl
    · show (padded license)[j.val] = 0
      rw [padded, Vector.getElem_ofFn, hget, if_neg hj]
    · show (Vector.replicate 128 (0 : UInt8))[j.val] = 0
      rw [Vector.getElem_replicate]
  refine congrArg Vector.ofFn (funext fun j => ?_)
  rw [hget]
  split
  · rfl
  · exact hrest j ‹_›

section

variable {i : Nat} {sec : Sec} {done : List Nat} {p q : Sec → Prop}

/-- A section that is none of a kind adds nothing to it. -/
theorem seen_other (h : elf.HasSec ehdr i sec) (hp : ¬ p sec) :
    Seen elf ehdr (done ++ [i]) p ↔ Seen elf ehdr done p :=
  (seen_snoc h).trans (or_iff_left hp)

theorem seen_this (h : elf.HasSec ehdr i sec) (hp : p sec) : Seen elf ehdr (done ++ [i]) p :=
  (seen_snoc h).mpr (.inr hp)

theorem mem_snoc_iff (h : elf.HasSec ehdr i sec) (x : Nat) :
    (x ∈ done ++ [i] ∧ ∃ sec', elf.HasSec ehdr x sec' ∧ q sec') ↔
      (x ∈ done ∧ ∃ sec', elf.HasSec ehdr x sec' ∧ q sec') ∨ (x = i ∧ q sec) := by
  rw [List.mem_append, List.mem_singleton, or_and_right]
  refine or_congr_right (and_congr_right ?_)
  rintro rfl
  constructor
  · rintro ⟨sec', h', hq⟩
    obtain rfl : sec' = sec := Except.ok.inj (h'.2.symm.trans h.2)
    exact hq
  · exact fun hq => ⟨sec, h, hq⟩

theorem Sec.Named.ne {lit lit' : String} (h : sec.Named lit) (hne : ascii lit ≠ ascii lit') :
    ¬ sec.Named lit' :=
  fun h' => hne (h.symm.trans h')

variable {t : Sys σ} {v : Scanned} {s : Globals σ}

/-- A section whose name is not reserved and that is no table of symbols. -/
theorem Scanning.pass (hs : Scanning elf ehdr L o done t v s) (h : elf.HasSec ehdr i sec)
    (hplain : ¬ sec.Special) {v' : Scanned}
    (hmaps : v'.mapsShndx = v.mapsShndx ∧ v'.dataMaps = v.dataMaps)
    (hsymtab : Seen elf ehdr (done ++ [i]) Sec.Symtab → v'.symbols = some L.symbols ∧
      v'.strtabidx = L.strtab) :
    Scanning elf ehdr L o (done ++ [i]) t v' s := by
  obtain ⟨hl, hv, hm⟩ : ¬ sec.Named "license" ∧ ¬ sec.Named "version" ∧ ¬ sec.Named "maps" := by
    simpa [Sec.Special, not_or] using hplain
  refine ⟨hs.sys, ?_, ?_, ?_, ?_, ?_, ?_, hsymtab, ?_⟩
  · rw [seen_other h hl]; exact hs.license
  · rw [seen_other h hl]; exact hs.noLicense
  · rw [seen_other h hv]; exact hs.version
  · rw [seen_other h hv]; exact hs.noVersion
  · rw [seen_other h hm, hmaps.1, hmaps.2]; exact hs.maps
  · rw [seen_other h hm, hmaps.2]; exact hs.noMaps
  · refine hs.marked.congr fun x => ?_
    rw [mem_snoc_iff h x]
    simp [hl, hv]

theorem not_symtab_of_special (h : sec.Special) : ¬ sec.Symtab := fun hno => hno.1 h

/-- The license is copied. -/
theorem scanSection_license (H : Holds elf ehdr c L o) (h : elf.HasSec ehdr i sec)
    (hi : i < 128) (hs : Scanning elf ehdr L o done t v s) (hl : sec.Named "license") :
    ∃ v' s', scanSection i sec v s = .ok (some v') s' ∧
      Scanning elf ehdr L o (done ++ [i]) t v' s' := by
  obtain ⟨hbytes, hsize⟩ := H.license i sec h hl
  have hv : ¬ sec.Named "version" := hl.ne (by decide)
  have hm : ¬ sec.Named "maps" := hl.ne (by decide)
  have hold : s.license = padded o.license ∨ s.license = Vector.replicate 128 0 := by
    by_cases hseen : Seen elf ehdr done (·.Named "license")
    · exact .inl (hs.license hseen)
    · exact .inr (hs.noLicense hseen)
  have hbranch : scanSection i sec v =
    (do setProcessed i; copyLicense sec.data; pure (some v) : LoadM σ (Option Scanned)) :=
    if_pos hl
  refine ⟨v,
    { s with processedSec := s.processedSec.set i true hi, license := padded o.license }, ?_,
    ?_⟩
  · rw [hbranch, bind_of_ok (setProcessed_eq hi), ← padded_eq hbytes hold]
    unfold copyLicense
    rw [if_pos hsize]
    rfl
  · refine ⟨?_, fun _ => rfl, fun hno => absurd (seen_this h hl) hno, ?_, ?_, ?_, ?_, ?_, ?_⟩
    · rw [hs.sys]
    · rw [seen_other h hv]; exact hs.version
    · rw [seen_other h hv]; exact hs.noVersion
    · rw [seen_other h hm]; exact hs.maps
    · rw [seen_other h hm]; exact hs.noMaps
    · rw [seen_other h (not_symtab_of_special (.inl hl))]; exact hs.symtab
    · refine Marked.congr ((hs.marked.set hi).same rfl) fun x => ?_
      rw [mem_snoc_iff h x]
      simp [hl]

/-- The version is copied. -/
theorem scanSection_version (H : Holds elf ehdr c L o) (h : elf.HasSec ehdr i sec)
    (hi : i < 128) (hs : Scanning elf ehdr L o done t v s) (hv : sec.Named "version") :
    ∃ v' s', scanSection i sec v s = .ok (some v') s' ∧
      Scanning elf ehdr L o (done ++ [i]) t v' s' := by
  obtain ⟨hsize, hversion⟩ := H.version i sec h hv
  have hl : ¬ sec.Named "license" := hv.ne (by decide)
  have hm : ¬ sec.Named "maps" := hv.ne (by decide)
  have hbranch : scanSection i sec v = (do
      setProcessed i
      if sec.data.size ≠ 4 then pure none
      else do
        modify fun s => { s with kernVersion := int32 (sec.data.buf.loadLE 0 4) }
        pure (some v) : LoadM σ (Option Scanned)) := (if_neg hl).trans (if_pos hv)
  refine ⟨v, { s with processedSec := s.processedSec.set i true hi, kernVersion := o.version },
    ?_, ?_⟩
  · rw [hbranch, bind_of_ok (setProcessed_eq hi), if_neg (not_not.mpr hsize), hversion]
    rfl
  · refine ⟨?_, ?_, ?_, fun _ => rfl, fun hno => absurd (seen_this h hv) hno, ?_, ?_, ?_, ?_⟩
    · rw [hs.sys]
    · rw [seen_other h hl]; exact hs.license
    · rw [seen_other h hl]; exact hs.noLicense
    · rw [seen_other h hm]; exact hs.maps
    · rw [seen_other h hm]; exact hs.noMaps
    · rw [seen_other h (not_symtab_of_special (.inr (.inl hv)))]; exact hs.symtab
    · refine Marked.congr ((hs.marked.set hi).same rfl) fun x => ?_
      rw [mem_snoc_iff h x]
      simp [hv]

/-- The place of the maps is noted. -/
theorem scanSection_maps (H : Holds elf ehdr c L o) (h : elf.HasSec ehdr i sec)
    (hs : Scanning elf ehdr L o done t v s) (hm : sec.Named "maps") :
    ∃ v' s', scanSection i sec v s = .ok (some v') s' ∧
      Scanning elf ehdr L o (done ++ [i]) t v' s' := by
  obtain ⟨hindex, -⟩ := H.maps i sec h hm
  have hl : ¬ sec.Named "license" := hm.ne (by decide)
  have hv : ¬ sec.Named "version" := hm.ne (by decide)
  have hbranch : scanSection i sec v = (do
      modify fun s => { s with mapData := s.mapData.map fun m => { m with fd := -1 } }
      pure (some { v with mapsShndx := i, dataMaps := true }) : LoadM σ (Option Scanned)) :=
    (if_neg hl).trans ((if_neg hv).trans (if_pos hm))
  refine ⟨{ v with mapsShndx := i, dataMaps := true },
    { s with mapData := s.mapData.map fun m => { m with fd := -1 } }, by rw [hbranch]; rfl, ?_⟩
  refine ⟨hs.sys, ?_, ?_, ?_, ?_, fun _ => ⟨congrArg Nat.cast hindex, rfl⟩,
    fun hno => absurd (seen_this h hm) hno, ?_, ?_⟩
  · rw [seen_other h hl]; exact hs.license
  · rw [seen_other h hl]; exact hs.noLicense
  · rw [seen_other h hv]; exact hs.version
  · rw [seen_other h hv]; exact hs.noVersion
  · rw [seen_other h (not_symtab_of_special (.inr (.inr hm)))]; exact hs.symtab
  · refine Marked.congr (hs.marked.same rfl) fun x => ?_
    rw [mem_snoc_iff h x]
    simp [hl, hv]

/-- The symbols are noted, and all else is passed over. -/
theorem scanSection_plain (H : Holds elf ehdr c L o) (h : elf.HasSec ehdr i sec)
    (hs : Scanning elf ehdr L o done t v s) (hplain : ¬ sec.Special) :
    ∃ v' s', scanSection i sec v s = .ok (some v') s' ∧
      Scanning elf ehdr L o (done ++ [i]) t v' s' := by
  obtain ⟨hl, hv, hm⟩ : ¬ sec.Named "license" ∧ ¬ sec.Named "version" ∧ ¬ sec.Named "maps" := by
    simpa [Sec.Special, not_or] using hplain
  have hbranch : scanSection i sec v = (if sec.shdr.type = shtSymtab then
      pure (some { v with strtabidx := sec.shdr.link, symbols := some sec.data })
      else pure (some v) : LoadM σ (Option Scanned)) :=
    (if_neg hl).trans ((if_neg hv).trans (if_neg hm))
  rw [hbranch]
  by_cases hst : sec.shdr.type = shtSymtab
  · obtain ⟨hdata, hlink⟩ := H.symbols i sec h hplain hst
    refine ⟨{ v with strtabidx := sec.shdr.link, symbols := some sec.data },
      s, by rw [if_pos hst]; rfl, ?_⟩
    exact hs.pass h hplain ⟨rfl, rfl⟩ fun _ => ⟨congrArg some hdata, congrArg Nat.cast hlink⟩
  · refine ⟨v, s, by rw [if_neg hst]; rfl, hs.pass h hplain ⟨rfl, rfl⟩ ?_⟩
    rw [seen_other h fun hno => hst hno.2]
    exact hs.symtab

/-- One section of the first loop. -/
theorem scanSection_collects (H : Holds elf ehdr c L o) (h : elf.HasSec ehdr i sec)
    (hi : i < 128) (hs : Scanning elf ehdr L o done t v s) :
    ∃ v' s', scanSection i sec v s = .ok (some v') s' ∧
      Scanning elf ehdr L o (done ++ [i]) t v' s' := by
  by_cases hspecial : sec.Special
  · rcases hspecial with hl | hv | hm
    · exact scanSection_license H h hi hs hl
    · exact scanSection_version H h hi hs hv
    · exact scanSection_maps H h hs hm
  · exact scanSection_plain H h hs hspecial

/-- The first loop. -/
theorem scanSections_collects (H : Holds elf ehdr c L o) (is : List Nat)
    (hsub : ∀ i ∈ is, i ∈ ehdr.sections) (hs : Scanning elf ehdr L o done t v s) :
    ∃ v' s', scanSections elf ehdr is v s = .ok (some v') s' ∧
      Scanning elf ehdr L o (done ++ is) t v' s' := by
  induction is generalizing done v s with
  | nil => exact ⟨v, s, rfl, by rw [List.append_nil]; exact hs⟩
  | cons i is ih =>
    have hi : i ∈ ehdr.sections := hsub i (List.mem_cons_self ..)
    have hrest := fun i hi => hsub i (List.mem_cons_of_mem _ hi)
    rw [scanSections, List.append_cons]
    cases hget : getSec elf ehdr i with
    | error e =>
      refine ih hrest ⟨hs.sys, ?_, ?_, ?_, ?_, ?_, ?_, ?_, ?_⟩ <;> try rw [seen_snoc_error hget]
      · exact hs.license
      · exact hs.noLicense
      · exact hs.version
      · exact hs.noVersion
      · exact hs.maps
      · exact hs.noMaps
      · exact hs.symtab
      · refine hs.marked.congr fun x => ?_
        rw [List.mem_append, List.mem_singleton, or_and_right]
        refine or_iff_left ?_
        rintro ⟨rfl, sec, hsec, -⟩
        rw [hsec.2] at hget
        cases hget
    | ok sec =>
      obtain ⟨v₁, s₁, hrun, hs₁⟩ := scanSection_collects H ⟨hi, hget⟩
        (lt_of_mem_sections H hi) hs
      obtain ⟨v₂, s₂, hrun₂, hs₂⟩ := ih hrest hs₁
      refine ⟨v₂, s₂, ?_, hs₂⟩
      dsimp only
      rw [bind_of_ok hrun]
      exact hrun₂

end

/-! ## The whole file -/

variable (W : World σ) {s : Globals σ} {t : Sys σ} {v : Scanned}

/-- Relocations and programs, once the maps are there. -/
theorem relocate_load_mirrors (H : Holds elf ehdr c L o) {fds : List Int} {nrMaps : Nat}
    {P : Nat → Prop} (hc : Created L fds (s.mapData.toList.take nrMaps)) (hm : Marked P s)
    (hP : ∀ i ∈ ehdr.sections, P i ↔ elf.SpecialAt ehdr i)
    (hout : ∀ i, P i → i ∈ ehdr.sections) :
    Mirrors Globals.toSys
      (relocateSections ehdr L.symbols nrMaps ehdr.sections elf >>= fun elf =>
        loadPrograms W c elf ehdr ehdr.sections 1) s
      (loadLinked W c fds o.programs 1) fun a b _ => a = b := by
  obtain ⟨elf', s', hrun, hsys, hm', hr⟩ := relocateSections_links H ehdr.sections
    (fun _ hi => hi) List.nodup_range' hc hm hP Relocating.refl
  refine Mirrors.runsInto (bind_of_ok hrun) hsys ?_
  rw [H.programs]
  refine loadPrograms_mirrors W H (hr.congr fun t k => by simp) ehdr.sections (fun _ hi => hi) 1
    (hm'.congr fun x => ?_)
  constructor
  · rintro (⟨sec, hsec, hspecial⟩ | ⟨sec, prog, hrel⟩)
    · exact .inl ((hP x hsec.1).mpr ⟨sec, hsec, hspecial⟩)
    · exact .inr ⟨hrel.has.1, sec, prog, hrel⟩
  · rintro (hx | ⟨-, hrel⟩)
    · exact .inl ((hP x (hout x hx)).mp hx)
    · exact .inr hrel

/-- What is done once the sections have been looked through. -/
theorem loadSections_mirrors (H : Holds elf ehdr c L o)
    (hs : Scanning elf ehdr L o ehdr.sections t v s) :
    Mirrors Globals.toSys (loadSections W c none elf ehdr v) s (o.loadParts W c)
      fun a b _ => a = b := by
  have hsymtab : v.symbols = some L.symbols ∧ v.strtabidx = L.strtab := by
    obtain ⟨i, sec, hsec, hplain, htype⟩ := H.symtab
    exact hs.symtab ⟨i, hsec.1, sec, hsec, hplain, htype⟩
  unfold loadSections Object.loadParts
  rw [hsymtab.1]
  dsimp only
  by_cases hmaps : Seen elf ehdr ehdr.sections (·.Named "maps")
  · obtain ⟨i, hi, sec, hsec, hnamed⟩ := hmaps
    obtain ⟨rfl, hholds⟩ := H.maps i sec hsec hnamed
    obtain ⟨hshndx, hdata⟩ := hs.maps ⟨_, hi, sec, hsec, hnamed⟩
    have hv : v = ⟨L.mapsShndx, true, L.strtab, some L.symbols⟩ := by
      rw [← hshndx, ← hdata, ← hsymtab.1, ← hsymtab.2]
    rw [hv]
    refine (makeMaps_mirrors W hholds hsec.2 (lt_of_mem_sections H hi) hs.marked).bind ?_
    rintro a b s' (⟨rfl, rfl⟩ | ⟨fds, rfl, rfl, hc, hm⟩)
    · exact .pure rfl
    · refine relocate_load_mirrors W H hc hm (fun x hx => ?_) ?_
      · constructor
        · rintro (⟨-, sec', hsec', hname⟩ | rfl)
          · exact ⟨sec', hsec', hname.elim .inl fun hver => .inr (.inl hver)⟩
          · exact ⟨sec, hsec, .inr (.inr hnamed)⟩
        · rintro ⟨sec', hsec', hl | hver | hma⟩
          · exact .inl ⟨hx, sec', hsec', .inl hl⟩
          · exact .inl ⟨hx, sec', hsec', .inr hver⟩
          · exact .inr (H.maps x sec' hsec' hma).1
      · rintro x (⟨hx, -⟩ | rfl)
        · exact hx
        · exact hi
  · have hno : ∀ i sec, elf.HasSec ehdr i sec → ¬ sec.Named "maps" :=
      fun i sec hsec hnamed => hmaps ⟨i, hsec.1, sec, hsec, hnamed⟩
    obtain ⟨homaps, hsyms⟩ := H.noMaps hno
    have hmake : makeMaps W none elf v L.symbols s = .ok (some 0) s := by
      unfold makeMaps
      rw [hs.noMaps hmaps]
      rfl
    rw [homaps]
    refine Mirrors.runsInto (bind_of_ok hmake) rfl ?_
    have hc : Created L [] (s.mapData.toList.take 0) := by
      refine ⟨?_, rfl, ?_⟩
      · rw [hsyms]
        rfl
      · rw [hsyms]
        exact .nil
    refine relocate_load_mirrors W H hc hs.marked (fun x hx => ?_) fun x hx => hx.1
    constructor
    · rintro ⟨-, sec', hsec', hname⟩
      exact ⟨sec', hsec', hname.elim .inl fun hver => .inr (.inl hver)⟩
    · rintro ⟨sec', hsec', hl | hver | hma⟩
      · exact ⟨hx, sec', hsec', .inl hl⟩
      · exact ⟨hx, sec', hsec', .inr hver⟩
      · exact absurd hma (hno x sec' hsec')

theorem padded_nil : padded [] = Vector.replicate 128 0 := by
  refine Vector.ext fun j hj => ?_
  rw [padded, Vector.getElem_ofFn, Vector.getElem_replicate]
  rfl

/-- The license and the version that the first loop leaves. -/
theorem Scanning.final (H : Holds elf ehdr c L o)
    (hs : Scanning elf ehdr L o ehdr.sections t v s) :
    s.toSys = { t with kernVersion := o.version, license := padded o.license } := by
  have hlicense : s.license = padded o.license := by
    by_cases hseen : Seen elf ehdr ehdr.sections (·.Named "license")
    · exact hs.license hseen
    · rw [hs.noLicense hseen, H.noLicense fun i sec hsec hnamed => hseen ⟨i, hsec.1, sec, hsec,
        hnamed⟩, padded_nil]
  have hversion : s.kernVersion = o.version := by
    by_cases hseen : Seen elf ehdr ehdr.sections (·.Named "version")
    · exact hs.version hseen
    · rw [hs.noVersion hseen, H.noVersion fun i sec hsec hnamed =>
        hseen ⟨i, hsec.1, sec, hsec, hnamed⟩]
  rw [hs.sys, hlicense, hversion]

end

theorem writeKprobeEvents_eq {σ : Type} (W : World σ) (val : List UInt8) (t : Sys σ) :
    ∃ ret kernel asked, writeKprobeEvents W val t =
      .ok ret { t with kernel := kernel, asked := asked } :=
  ⟨_, _, _, rfl⟩

/-- The variables of the first loop, before its first section. -/
theorem Scanning.start {σ : Type} {elf : Elf} {ehdr : Ehdr} {L : Layout} {o : Object}
    {s : Globals σ} (hlicense : s.license = Vector.replicate 128 0)
    (hversion : s.kernVersion = 0) (hm : Marked (fun _ => False) s) :
    Scanning elf ehdr L o [] s.toSys .init s := by
  have hnone : ∀ p, ¬ Seen elf ehdr [] p := by simp [Seen]
  exact ⟨rfl, fun h => absurd h (hnone _), fun _ => hlicense, fun h => absurd h (hnone _),
    fun _ => hversion, fun h => absurd h (hnone _), fun _ => rfl, fun h => absurd h (hnone _),
    hm.congr fun x => by simp⟩

/-- What follows once the file is open. -/
theorem opened_mirrors {σ : Type} (W : World σ) {elf : Elf} {ehdr : Ehdr} {c : Copy}
    {L : Layout} {o : Object} {s : Globals σ} (H : Holds elf ehdr c L o)
    (hlicense : s.license = Vector.replicate 128 0) (hversion : s.kernVersion = 0)
    (hm : Marked (fun _ => False) s) (fd : Int) :
    Mirrors Globals.toSys
      (do
        let _ ← onSys (writeKprobeEvents W [])
        match ← scanSections elf ehdr ehdr.sections .init with
        | none => pure 1
        | some v => do
          let ret ← loadSections W c none elf ehdr v
          let _ ← onSys (ask W (.close fd))
          pure ret)
      s
      (do
        let _ ← writeKprobeEvents W []
        modify fun s => { s with kernVersion := o.version, license := padded o.license }
        let ret ← o.loadParts W c
        let _ ← ask W (.close fd)
        pure ret)
      fun a b _ => a = b := by
  obtain ⟨ret, kernel, asked, hwrite⟩ := writeKprobeEvents_eq W [] s.toSys
  let s₁ : Globals σ := { s with kernel := kernel, asked := asked }
  have hclear : Mirrors Globals.toSys (onSys (writeKprobeEvents W [])) s
      (writeKprobeEvents W []) fun _ _ s' => s' = s₁ := by
    have hrun : onSys (writeKprobeEvents W []) s = .ok ret s₁ := by
      rw [onSys, hwrite]
    exact (ends_of_ok hrun).mpr ⟨ret, hwrite, rfl⟩
  refine hclear.bind ?_
  rintro - - s' rfl
  obtain ⟨v, s₂, hscan, hs₂⟩ := scanSections_collects H ehdr.sections (fun _ hi => hi)
    (Scanning.start (s := s₁) hlicense hversion (hm.same rfl))
  refine Mirrors.bind (Q := fun a _ s' => a = some v ∧ s' = s₂) ?_ ?_
  · exact (ends_of_ok hscan).mpr ⟨⟨⟩, by rw [hs₂.final H]; rfl, rfl, rfl⟩
  rintro a - s' ⟨rfl, rfl⟩
  refine (loadSections_mirrors W H hs₂).bind ?_
  rintro ret' ret'' s₃ rfl
  refine (mirrors_onSys _ s₃).bind ?_
  rintro - - s₄ -
  exact .pure rfl

/-! ### The file of `kprobe_file_read`

The sections of `bpf_test.o`, with the two loads of a map and the end of its program. Its
declarations are those of `struct bpf_map_def`, which has five fields. -/

/-- Contents of a section. -/
def Data.ofList (l : List UInt8) (h : l.length < 2 ^ 31) : Data :=
  ⟨l.length, fun x => l.getD x 0, h⟩

/-- A number of so many bytes, lowest first. -/
def le (n v : Nat) : List UInt8 := (List.range n).map fun j => UInt8.ofNat (v / 256 ^ j)

namespace BpfTest

/-- The table of strings, for sections and symbols. -/
def strings : List UInt8 :=
  [0] ++ ascii "kprobe/__x64_sys_read" ++ [0] ++ ascii ".relkprobe/__x64_sys_read" ++ [0] ++
    ascii "maps" ++ [0] ++
    ascii "license" ++ [0] ++ ascii ".symtab" ++ [0] ++ ascii ".strtab" ++ [0] ++ ascii
      "comm" ++ [0] ++ ascii "written" ++ [0]

def strtab : CStr := ⟨strings, by decide⟩

/-- The instructions, and the maps that they load. -/
def code : List Word :=
  [⟨⟨ldImm64, 1, 0, 0, 0⟩, some 0⟩, ⟨⟨0, 0, 0, 0, 0⟩, none⟩, ⟨⟨ldImm64, 1, 0, 0, 0⟩, some 1⟩,
    ⟨⟨0, 0, 0, 0, 0⟩, none⟩, ⟨⟨0xb7, 0, 0, 0, 0⟩, none⟩, ⟨⟨0x95, 0, 0, 0, 0⟩, none⟩]

/-- The map `comm` (bpf_test.c:34–40). -/
def comm : MapDecl := ⟨ascii "comm", ⟨1, 24, 4, 100, 1, 0, 0⟩⟩

/-- The map `written` (bpf_test.c:42–48). -/
def written : MapDecl := ⟨ascii "written", ⟨1, 4, 4, 100, 1, 0, 0⟩⟩

def program : Data := .ofList (codeBytes (code.map Word.insn)) (by decide)

def relocations : Data :=
  .ofList (le 8 0 ++ le 8 (2 * 2 ^ 32 + 1) ++ le 8 16 ++ le 8 (1 * 2 ^ 32 + 1)) (by decide)

def maps : Data :=
  .ofList (le 4 1 ++ le 4 24 ++ le 4 4 ++ le 4 100 ++ le 4 1 ++ le 4 1 ++ le 4 4 ++ le 4 4 ++ le
    4 100 ++ le 4 1) (by decide)

def license : Data := .ofList (ascii "GPL" ++ [0]) (by decide)

/-- `written` comes before `comm` among the symbols. -/
def symbols : Data :=
  .ofList (le 24 0 ++ (le 4 83 ++ le 2 0x11 ++ le 2 3 ++ le 8 20 ++ le 8 20) ++
    (le 4 78 ++ le 2 0x11 ++ le 2 3 ++ le 8 0 ++ le 8 20))
    (by decide)

/-- The headers of the sections. -/
def shdr : Nat → Option Shdr
  | 1 => some ⟨1, shtProgbits, 6, 0, 0, 48, 0⟩
  | 2 => some ⟨23, shtRel, 0, 5, 1, 32, 16⟩
  | 3 => some ⟨49, shtProgbits, 3, 0, 0, 40, 0⟩
  | 4 => some ⟨54, shtProgbits, 3, 0, 0, 4, 0⟩
  | 5 => some ⟨62, shtSymtab, 0, 6, 0, 72, 24⟩
  | 6 => some ⟨70, 3, 0, 0, 0, 91, 0⟩
  | _ => none

def contents : Nat → List Data
  | 1 => [program]
  | 2 => [relocations]
  | 3 => [maps]
  | 4 => [license]
  | 5 => [symbols]
  | 6 => [.ofList strings (by decide)]
  | _ => []

def ehdr : Ehdr := ⟨7, 6⟩

/-- `bpf_test.o` -/
def elf : Elf where
  ehdr := some ehdr
  scn i := (shdr i).map fun h => ⟨some h, contents i⟩
  strptr ndx offset := if ndx = 6 then (strtab.advance offset).toOption else none

def layout : Layout where
  symbols := symbols
  strtab := 6
  mapsShndx := 3
  mapSyms := [⟨78, 3, 0⟩, ⟨83, 3, 20⟩]
  code i := if i = 1 then code else []

def event : CStr := ⟨strings.drop 1, by decide⟩

/-- What `bpf_test.o` holds. -/
def object : Object := ⟨ascii "GPL" ++ [0], 0, [comm, written], [⟨event, code⟩]⟩

/-- The sections by their numbers. -/
def sec : Nat → Sec
  | 1 => ⟨event, ⟨1, shtProgbits, 6, 0, 0, 48, 0⟩, program⟩
  | 2 => ⟨⟨strings.drop 23, by decide⟩, ⟨23, shtRel, 0, 5, 1, 32, 16⟩, relocations⟩
  | 3 => ⟨⟨strings.drop 49, by decide⟩, ⟨49, shtProgbits, 3, 0, 0, 40, 0⟩, maps⟩
  | 4 => ⟨⟨strings.drop 54, by decide⟩, ⟨54, shtProgbits, 3, 0, 0, 4, 0⟩, license⟩
  | 5 => ⟨⟨strings.drop 62, by decide⟩, ⟨62, shtSymtab, 0, 6, 0, 72, 24⟩, symbols⟩
  | _ => ⟨⟨strings.drop 70, by decide⟩, ⟨70, 3, 0, 0, 0, 91, 0⟩, .ofList strings (by decide)⟩

theorem getSec_eq {i : Nat} (h₁ : 1 ≤ i) (h₂ : i < 7) : getSec elf ehdr i = .ok (sec i) := by
  obtain rfl | rfl | rfl | rfl | rfl | rfl : i = 1 ∨ i = 2 ∨ i = 3 ∨ i = 4 ∨ i = 5 ∨ i = 6 := by
    omega
  all_goals rfl

theorem hasSec_iff {i : Nat} {s : Sec} : elf.HasSec ehdr i s ↔ (1 ≤ i ∧ i < 7) ∧ s = sec i := by
  have hmem : i ∈ ehdr.sections ↔ 1 ≤ i ∧ i < 7 := List.mem_range'_1
  rw [Elf.HasSec, hmem]
  refine and_congr_right fun h => ?_
  rw [getSec_eq h.1 h.2, Except.ok.injEq, eq_comm]

/-- What the sections are. -/
theorem sec_kinds :
    ∀ j < 7, ((sec j).Named "license" ↔ j = 4) ∧ ¬ (sec j).Named "version" ∧
      ((sec j).Named "maps" ↔ j = 3) ∧
    ((sec j).shdr.type = shtSymtab ↔ j = 5) ∧ ((sec j).shdr.type = shtRel ↔ j = 2) ∧
    (isProgram .plain (sec j).shname = true ↔ j = 1) := by
  decide

theorem relocates_iff {i : Nat} {s prog : Sec} :
    elf.Relocates ehdr i s prog ↔ i = 2 ∧ s = sec 2 ∧ prog = sec 1 := by
  constructor
  · rintro ⟨has, -, htype, htarget, -⟩
    obtain ⟨⟨h₁, h₂⟩, rfl⟩ := hasSec_iff.mp has
    obtain rfl := (sec_kinds i h₂).2.2.2.2.1.mp htype
    exact ⟨rfl, rfl,
      (Except.ok.inj ((getSec_eq (by decide) (by decide)).symm.trans htarget)).symm⟩
  · rintro ⟨rfl, rfl, rfl⟩
    exact ⟨hasSec_iff.mpr ⟨by decide, rfl⟩, by decide, rfl, getSec_eq (by decide) (by decide),
      rfl, rfl⟩

theorem holdsMaps : HoldsMaps elf layout maps [comm, written] where
  nonempty := by decide
  few := by decide
  symbols := by decide
  increasing := by decide
  declared := by
    refine .cons ?_ (.cons ?_ .nil)
    · exact ⟨⟨⟨strings.drop 78, by decide⟩, rfl, by decide⟩, by decide, by decide,
        fun x h₁ h₂ => absurd (Nat.lt_of_le_of_lt h₁ h₂) (by decide)⟩
    · exact ⟨⟨⟨strings.drop 83, by decide⟩, rfl, by decide⟩, by decide, by decide,
        fun x h₁ h₂ => absurd (Nat.lt_of_le_of_lt h₁ h₂) (by decide)⟩

theorem holds : Holds elf ehdr .plain layout object where
  few := by decide
  license := by
    intro i s hs hn
    obtain ⟨⟨-, h₂⟩, rfl⟩ := hasSec_iff.mp hs
    obtain rfl := (sec_kinds i h₂).1.mp hn
    decide
  noLicense h := absurd (by decide) (h 4 (sec 4) (hasSec_iff.mpr ⟨by decide, rfl⟩))
  version := by
    intro i s hs hn
    obtain ⟨⟨-, h₂⟩, rfl⟩ := hasSec_iff.mp hs
    exact absurd hn (sec_kinds i h₂).2.1
  noVersion _ := rfl
  symtab := ⟨5, sec 5, hasSec_iff.mpr ⟨by decide, rfl⟩, by decide, rfl⟩
  symbols := by
    intro i s hs _ htype
    obtain ⟨⟨-, h₂⟩, rfl⟩ := hasSec_iff.mp hs
    obtain rfl := (sec_kinds i h₂).2.2.2.1.mp htype
    exact ⟨rfl, rfl⟩
  maps := by
    intro i s hs hn
    obtain ⟨⟨-, h₂⟩, rfl⟩ := hasSec_iff.mp hs
    obtain rfl := (sec_kinds i h₂).2.2.1.mp hn
    exact ⟨rfl, holdsMaps⟩
  noMaps h := absurd (by decide) (h 3 (sec 3) (hasSec_iff.mpr ⟨by decide, rfl⟩))
  programs := rfl
  code := by
    intro i s hs hp
    obtain ⟨⟨-, h₂⟩, rfl⟩ := hasSec_iff.mp hs
    obtain rfl := (sec_kinds i h₂).2.2.2.2.2.mp hp
    decide
  relocated := by
    intro i s hs hp k w hw hne
    obtain ⟨⟨-, h₂⟩, rfl⟩ := hasSec_iff.mp hs
    obtain rfl := (sec_kinds i h₂).2.2.2.2.2.mp hp
    have hrel : elf.Relocates ehdr 2 (sec 2) (sec 1) := relocates_iff.mpr ⟨rfl, rfl, rfl⟩
    have hk : k < 6 := (List.getElem?_eq_some_iff.mp hw).1
    have hload : k = 0 ∨ k = 2 := by
      obtain rfl | rfl | rfl | rfl | rfl | rfl : k = 0 ∨ k = 1 ∨ k = 2 ∨ k = 3 ∨ k = 4 ∨
        k = 5 := by omega
      all_goals first | exact .inl rfl | exact .inr rfl | (cases hw; exact absurd rfl hne)
    rcases hload with rfl | rfl
    · exact ⟨2, sec 2, 0, ⟨0, 2 * 2 ^ 32 + 1⟩, hrel, rfl, by decide, by decide, rfl⟩
    · exact ⟨2, sec 2, 1, ⟨16, 1 * 2 ^ 32 + 1⟩, hrel, rfl, by decide, by decide, rfl⟩
  relocations := by
    intro r rsec prog hrel
    obtain ⟨rfl, rfl, rfl⟩ := relocates_iff.mp hrel
    refine ⟨by decide, by decide, fun j hj => ?_⟩
    have hj2 : j < 2 := hj
    obtain rfl | rfl : j = 0 ∨ j = 1 := by omega
    · exact ⟨⟨0, 2 * 2 ^ 32 + 1⟩, ⟨78, 3, 0⟩, ⟨⟨ldImm64, 1, 0, 0, 0⟩, some 0⟩,
        0, by decide, by decide, rfl, rfl, rfl, rfl, rfl⟩
    · exact ⟨⟨16, 1 * 2 ^ 32 + 1⟩, ⟨83, 3, 20⟩, ⟨⟨ldImm64, 1, 0, 0, 0⟩, some 1⟩,
        1, by decide, by decide, rfl, rfl, rfl, rfl, rfl⟩

end BpfTest

/-- A kernel that answers each request with the next number, and reads the same file
everywhere. -/
def counting (elf : Elf) : World Nat where
  ask n _ := (n + 1, ⟨n, []⟩)
  elf _ _ := some elf
  evCurrent := true
  qsort l := l.insertionSort fun a b => a.value ≤ b.value
  qsort_perm l := List.perm_insertionSort _ l
  qsort_sorted l := by
    have htotal : Std.Total fun a b : Sym => a.value ≤ b.value :=
      ⟨fun a b => Nat.le_total a.value b.value⟩
    have htrans : IsTrans Sym fun a b => a.value ≤ b.value := ⟨fun a b c => Nat.le_trans⟩
    exact List.pairwise_insertionSort _ l

/-- The variables of the loader at the start. -/
def Globals.init {σ : Type} (kernel : σ) : Globals σ where
  kernel := kernel
  asked := []
  license := Vector.replicate 128 0
  kernVersion := 0
  mapFd := Vector.replicate maxMaps 0
  progFd := Vector.replicate maxProgs 0
  eventFd := Vector.replicate maxProgs 0
  progCnt := 0
  progArrayFd := -1
  processedSec := Vector.replicate 128 false
  mapData := Vector.replicate maxMaps ⟨0, [], 0, ⟨0, 0, 0, 0, 0, 0, 0⟩⟩
  mapDataCount := 0

/-! ### The result -/

section

variable {σ : Type} (W : World σ) (c : Copy) (path : List UInt8) (s : Globals σ) {elf : Elf}
  {ehdr : Ehdr} {L : Layout} {o : Object}

theorem loadBpfFile_mirrors (hversion : W.evCurrent = true)
    (hopen : 0 ≤ (W.ask s.kernel (.open path .rdonly)).2.ret → W.elf (W.ask s.kernel
      (.open path .rdonly)).1 (W.ask s.kernel (.open path .rdonly)).2.ret = some elf)
    (hehdr : elf.ehdr = some ehdr) (H : Holds elf ehdr c L o) :
    Mirrors Globals.toSys (loadBpfFile W c path) s (o.load W c path) fun a b _ => a = b := by
  let s₁ : Globals σ := { s with
    kernVersion := 0
    license := Vector.replicate 128 0
    processedSec := Vector.replicate 128 false }
  unfold loadBpfFile doLoadBpfFile Object.load
  refine Mirrors.bind (Mirrors.update (Q := fun _ _ s' => s' = s₁) rfl rfl) ?_
  rintro - - s' rfl
  rw [hversion, Bool.not_true, if_neg Bool.false_ne_true]
  -- the descriptor is the one that the file is read from
  refine Mirrors.bind (Q := fun a b s' => a = b ∧ a = (W.ask s.kernel (.open path .rdonly)).2 ∧
    s' = { s₁ with toSys := s₁.toSys.after W (.open path .rdonly) }) ?_ ?_
  · have hask : onSys (ask W (.open path .rdonly)) s₁ = .ok (W.ask s.kernel
      (.open path .rdonly)).2 { s₁ with toSys := s₁.toSys.after W (.open path .rdonly) } := rfl
    exact (ends_of_ok hask).mpr ⟨_, rfl, rfl, rfl, rfl⟩
  rintro fd fd' s₂ ⟨rfl, hfd, hs₂⟩
  refine Mirrors.ite (fun _ => .pure rfl) fun hopened => ?_
  have helf : W.elf s₂.kernel fd.ret = some elf := by
    rw [hs₂, hfd]
    exact hopen (by rw [← hfd]; omega)
  have hmark : Marked (fun _ => False) s₂ := by
    intro i hi
    rw [hs₂]
    show (Vector.replicate 128 false)[i] = true ↔ False
    rw [Vector.getElem_replicate]
    exact iff_of_false Bool.false_ne_true id
  refine Mirrors.runsInto (bind_of_ok (show (get : LoadM σ (Globals σ)) s₂ = .ok s₂ s₂
    from rfl)) rfl ?_
  rw [helf]
  dsimp only
  rw [hehdr]
  exact opened_mirrors W H (by rw [hs₂]; rfl) (by rw [hs₂]; rfl) hmark fd.ret

/-- Where a file that can be opened holds an object, `load_bpf_file` does to the kernel and
to the tables of descriptors what loading the object does, and returns the same, for every
kernel. -/
theorem loadBpfFile_loads (hversion : W.evCurrent = true)
    (hopen : 0 ≤ (W.ask s.kernel (.open path .rdonly)).2.ret → W.elf (W.ask s.kernel
      (.open path .rdonly)).1 (W.ask s.kernel (.open path .rdonly)).2.ret = some elf)
    (hehdr : elf.ehdr = some ehdr) (H : Holds elf ehdr c L o) :
    Ends (loadBpfFile W c path) s (fun ret s' => o.load W c path s.toSys = .ok ret s'.toSys)
      fun e s' => o.load W c path s.toSys = .error e s'.toSys := by
  refine Ends.mono (loadBpfFile_mirrors W c path s hversion hopen hehdr H) ?_ fun _ _ h => h
  rintro a s' ⟨b, hload, rfl⟩
  exact hload

/-- `bpf_test.o` is loaded so. -/
theorem loadBpfFile_loads_bpfTest :
    Holds BpfTest.elf BpfTest.ehdr .plain BpfTest.layout BpfTest.object ∧
      Ends (loadBpfFile (counting BpfTest.elf) .plain (ascii "bpf_test.o")) (Globals.init 3)
        (fun ret s' => BpfTest.object.load (counting BpfTest.elf) .plain (ascii "bpf_test.o")
          (Globals.init 3).toSys = .ok ret s'.toSys)
        fun e s' => BpfTest.object.load (counting BpfTest.elf) .plain (ascii "bpf_test.o")
          (Globals.init 3).toSys = .error e s'.toSys :=
  ⟨BpfTest.holds, loadBpfFile_loads (counting BpfTest.elf) .plain (ascii "bpf_test.o")
    (Globals.init 3) rfl (fun _ => rfl) rfl BpfTest.holds⟩

/-- Where it returns 0, the kernel has been asked for each map and for each program of the
object, in order. -/
theorem loadBpfFile_asks (hversion : W.evCurrent = true)
    (hopen : 0 ≤ (W.ask s.kernel (.open path .rdonly)).2.ret → W.elf (W.ask s.kernel
      (.open path .rdonly)).1 (W.ask s.kernel (.open path .rdonly)).2.ret = some elf)
    (hehdr : elf.ehdr = some ehdr) (H : Holds elf ehdr c L o) (hinner : InnerFirst o.maps)
    (hcnt : s.progCnt ≤ maxProgs) :
    Ends (loadBpfFile W c path) s
      (fun ret s' => ret = 0 → ∃ l reqs, s'.asked = s.asked ++ l ∧
        o.programs.map (Program.request c (padded o.license) o.version
          (answers Request.isCreate l)) =
          reqs.map some ∧
        mainRequests l = o.maps.map (MapDecl.request (answers Request.isCreate l)) ++ reqs)
      fun _ _ => True := by
  refine Ends.mono (loadBpfFile_mirrors W c path s hversion hopen hehdr H) ?_
    fun _ _ _ => trivial
  rintro a s' ⟨b, hload, rfl⟩
  exact (ends_of_ok hload).mp (o.load_asks W hinner path hcnt)

end

end BpfExamples.Loader
