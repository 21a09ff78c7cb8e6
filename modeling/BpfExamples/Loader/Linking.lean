import BpfExamples.Base.Views
import BpfExamples.Loader.Object

/-!
# Relocations put in the descriptors of the maps

For a file that holds an object, the loop over the relocations leaves each program as
`Word.link` has it: the instructions that name a map get the map's descriptor, and all others
stay as they are (`relocateSections_links`). A relocation that comes twice does no harm, and the
order of the sections does not matter: what a section looks like on the way is determined by the
instructions that have been reached (`Shows`).
-/

namespace BpfExamples.Loader

/-! ## Instructions in memory -/

theorem codeBytes_eq (l : List Insn) :
    codeBytes l = (List.range (8 * l.length)).map fun x =>
      (l.getD (x / 8) default).byte (x % 8) := by
  induction l with
  | nil => rfl
  | cons i l ih =>
    have hrange : List.range (8 * (l.length + 1)) =
        List.range 8 ++ (List.range (8 * l.length)).map (8 + ·) := by
      rw [Nat.mul_succ, Nat.add_comm, List.range_add]
    have hrest : ∀ x, ((i :: l).getD ((8 + x) / 8) default).byte ((8 + x) % 8) =
        (l.getD (x / 8) default).byte (x % 8) := by
      intro x
      rw [show (8 + x) / 8 = x / 8 + 1 by omega, show (8 + x) % 8 = x % 8 by omega,
        List.getD_cons_succ]
    rw [codeBytes, List.flatMap_cons, ← codeBytes, ih, List.length_cons, hrange,
      List.map_append, List.map_map]
    congr 1
    refine List.map_congr_left fun x _ => ?_
    exact (hrest x).symm

/-- What a section is, byte by byte. -/
theorem bytes_eq_code_iff {d : Data} {l : List Insn} :
    d.bytes = codeBytes l ↔ d.size = 8 * l.length ∧
      ∀ x < d.size, d.buf x = (l.getD (x / 8) default).byte (x % 8) := by
  rw [codeBytes_eq, Data.bytes]
  constructor
  · intro h
    have hsize : d.size = 8 * l.length := by
      have hlen := congrArg List.length h
      simpa using hlen
    rw [← hsize] at h
    exact ⟨hsize, fun x hx => List.map_inj_left.mp h x (List.mem_range.mpr hx)⟩
  · rintro ⟨hsize, hbyte⟩
    rw [← hsize]
    exact List.map_congr_left fun x hx => hbyte x (List.mem_range.mp hx)

/-- The byte with the registers, once `src_reg` is set. -/
theorem pseudoMapFd_regs (dst src : BitVec 4) :
    pseudoMapFd (UInt8.ofNat (dst.toNat + 16 * src.toNat)) =
      UInt8.ofNat (dst.toNat + 16 * (1 : BitVec 4).toNat) := by
  revert dst src
  decide

section

variable {fds : List Int} {w : Word} {m : Nat}

theorem link_byte_low (h : w.map = some m) {j : Nat} (hj : j < 4) (hne : j ≠ 1) :
    (w.link fds).byte j = w.insn.byte j := by
  rw [Word.link, h]
  match j, hj, hne with
  | 0, _, _ => rfl
  | 2, _, _ => rfl
  | 3, _, _ => rfl

theorem link_byte_regs (h : w.map = some m) :
    (w.link fds).byte 1 = pseudoMapFd (w.insn.byte 1) := by
  rw [Word.link, h]
  exact (pseudoMapFd_regs w.insn.dst w.insn.src).symm

theorem link_byte_imm (h : w.map = some m) (j : Nat) :
    (w.link fds).byte (j + 4) = UInt8.ofNat ((fds.getD m 0 % 2 ^ 32).toNat / 256 ^ j) := by
  rw [Word.link, h]
  show UInt8.ofNat ((BitVec.ofInt 32 (fds.getD m 0)).toNat / 256 ^ j) = _
  rw [BitVec.toNat_ofInt]
  rfl

/-- The registers come out the same a second time. -/
theorem pseudoMapFd_link (h : w.map = some m) :
    pseudoMapFd ((w.link fds).byte 1) = pseudoMapFd (w.insn.byte 1) := by
  rw [link_byte_regs h]
  show pseudoMapFd (pseudoMapFd (UInt8.ofNat (w.insn.dst.toNat + 16 * w.insn.src.toNat))) =
    pseudoMapFd (UInt8.ofNat _)
  rw [pseudoMapFd_regs, pseudoMapFd_regs]

end

/-! ## One relocation -/

/-- The section shows the instructions, those of `hit` with the descriptors of their maps. -/
structure Shows (fds : List Int) (code : List Word) (hit : Nat → Prop) (d : Data) : Prop where
  size : d.size = 8 * code.length
  linked : ∀ k w, code[k]? = some w → hit k → ∀ j < 8, d.buf (8 * k + j) = (w.link fds).byte j
  raw : ∀ k w, code[k]? = some w → ¬ hit k → ∀ j < 8, d.buf (8 * k + j) = w.insn.byte j

section

variable {fds : List Int} {code : List Word} {hit : Nat → Prop} {d : Data}

theorem Shows.of_bytes (h : d.bytes = codeBytes (code.map Word.insn)) :
    Shows fds code (fun _ => False) d := by
  obtain ⟨hsize, hbyte⟩ := bytes_eq_code_iff.mp h
  rw [List.length_map] at hsize
  refine ⟨hsize, fun _ _ _ hf => hf.elim, fun k w hw _ j hj => ?_⟩
  have hk : k < code.length := (List.getElem?_eq_some_iff.mp hw).1
  rw [hbyte (8 * k + j) (by omega), show (8 * k + j) / 8 = k by omega,
    show (8 * k + j) % 8 = j by omega, List.getD_eq_getElem?_getD, List.getElem?_map, hw]
  rfl

/-- Where all instructions that name a map are reached, the section is as it is to be loaded. -/
theorem Shows.bytes_eq (h : Shows fds code hit d)
    (hall : ∀ k w, code[k]? = some w → w.map ≠ none → hit k) :
    d.bytes = codeBytes (code.map (Word.link fds)) := by
  refine bytes_eq_code_iff.mpr ⟨by rw [List.length_map]; exact h.size, fun x hx => ?_⟩
  have hk : x / 8 < code.length := by
    have hsize := h.size
    omega
  obtain ⟨w, hw⟩ : ∃ w, code[x / 8]? = some w := ⟨_, List.getElem?_eq_getElem hk⟩
  have hx8 : 8 * (x / 8) + x % 8 = x := Nat.div_add_mod x 8
  have hmod : x % 8 < 8 := Nat.mod_lt x (by decide)
  rw [List.getD_eq_getElem?_getD, List.getElem?_map, hw]
  show d.buf x = (w.link fds).byte (x % 8)
  by_cases hhit : hit (x / 8)
  · have hbyte := h.linked (x / 8) w hw hhit (x % 8) hmod
    rw [hx8] at hbyte
    exact hbyte
  · have hbyte := h.raw (x / 8) w hw hhit (x % 8) hmod
    have hnone : w.map = none := by
      by_contra hne
      exact hhit (hall _ w hw hne)
    rw [hx8] at hbyte
    rw [hbyte, Word.link, hnone]

/-- The bytes of a load of a map that are not changed are the same whether it has been reached
or not. -/
theorem Shows.load (h : Shows fds code hit d) {k m : Nat} {w : Word} (hw : code[k]? = some w)
    (hm : w.map = some m) :
    (∀ j < 4, j ≠ 1 → d.buf (8 * k + j) = w.insn.byte j) ∧
      pseudoMapFd (d.buf (8 * k + 1)) = pseudoMapFd (w.insn.byte 1) := by
  by_cases hhit : hit k
  · refine ⟨fun j hj hne => ?_, ?_⟩
    · rw [h.linked k w hw hhit j (by omega), link_byte_low hm hj hne]
    · rw [h.linked k w hw hhit 1 (by decide), pseudoMapFd_link hm]
  · refine ⟨fun j hj _ => h.raw k w hw hhit j (by omega), ?_⟩
    rw [h.raw k w hw hhit 1 (by decide)]

/-- The bytes that a relocation writes, and those it leaves. -/
theorem Shows.patch (h : Shows fds code hit d) {k m : Nat} {w : Word} (hw : code[k]? = some w)
    (hm : w.map = some m) :
    Shows fds code (fun k' => hit k' ∨ k' = k)
      { d with
        buf := Mem.storeLE (Function.update d.buf (8 * k + 1) (pseudoMapFd (d.buf (8 * k + 1))))
          (8 * k + 4) 4 (fds.getD m 0 % 2 ^ 32).toNat } := by
  obtain ⟨hlow, hregs⟩ := h.load hw hm
  have hother : ∀ k' ≠ k, ∀ j < 8,
      Mem.storeLE (Function.update d.buf (8 * k + 1) (pseudoMapFd (d.buf (8 * k + 1))))
        (8 * k + 4) 4 (fds.getD m 0 % 2 ^ 32).toNat (8 * k' + j) = d.buf (8 * k' + j) := by
    intro k' hk' j hj
    rw [Mem.storeLE_of_notMem (by omega), Function.update_of_ne (by omega)]
  refine ⟨h.size, fun k' w' hw' hhit j hj => ?_, fun k' w' hw' hhit j hj => ?_⟩
  · by_cases hk : k' = k
    · subst hk
      obtain rfl : w' = w := Option.some.inj (hw'.symm.trans hw)
      -- the register byte, the rest of the first half, the immediate
      rcases (by omega : j = 1 ∨ (j < 4 ∧ j ≠ 1) ∨ 4 ≤ j) with rfl | ⟨hj4, hne⟩ | hj4
      · show Mem.storeLE _ _ _ _ _ = _
        rw [Mem.storeLE_of_notMem (by omega), Function.update_self, hregs, link_byte_regs hm]
      · show Mem.storeLE _ _ _ _ _ = _
        rw [Mem.storeLE_of_notMem (by omega), Function.update_of_ne (by omega), hlow j hj4 hne,
          link_byte_low hm hj4 hne]
      · obtain ⟨i, rfl⟩ := Nat.exists_eq_add_of_le' hj4
        show Mem.storeLE _ _ _ _ _ = _
        rw [Mem.storeLE_of_mem (by omega) (by omega), link_byte_imm hm,
          show 8 * k' + (i + 4) - (8 * k' + 4) = i by omega]
    · exact (hother k' hk j hj).trans (h.linked k' w' hw' (hhit.resolve_right hk) j hj)
  · have hk : k' ≠ k := fun he => hhit (.inr he)
    exact (hother k' hk j hj).trans (h.raw k' w' hw' (fun hh => hhit (.inl hh)) j hj)

end

/-- The first entry with a key, where keys come once. -/
theorem find?_key {maps : List MapData} (hne : (maps.map MapData.elfOffset).Pairwise (· < ·))
    {m v : Nat} (hm : (maps.map MapData.elfOffset)[m]? = some v) :
    ∃ md, maps[m]? = some md ∧ maps.find? (fun x => x.elfOffset = v) = some md := by
  rw [List.getElem?_map, Option.map_eq_some_iff] at hm
  obtain ⟨md, hmd, rfl⟩ := hm
  obtain ⟨hlt, hget⟩ := List.getElem?_eq_some_iff.mp hmd
  refine ⟨md, hmd, List.find?_eq_some_iff_getElem.mpr ⟨by simp, m, hlt, hget, fun j hj => ?_⟩⟩
  have hlt' : maps[j].elfOffset < maps[m].elfOffset := by
    have hpair := List.pairwise_map.mp hne
    exact List.pairwise_iff_getElem.mp hpair _ _ _ _ hj
  have hnot : ¬ maps[j].elfOffset = md.elfOffset := by
    rw [← hget]
    omega
  simpa using hnot

/-- The maps of the loader are those of the file, with their descriptors. -/
structure Created (L : Layout) (fds : List Int) (maps : List MapData) : Prop where
  offsets : maps.map MapData.elfOffset = L.mapSyms.map Sym.value
  descriptors : maps.map MapData.fd = fds
  increasing : L.mapSyms.Pairwise fun a b => a.value < b.value

section

variable {L : Layout} {fds : List Int} {maps : List MapData} {rsec : Sec} {hit : Nat → Prop}
  {insn : Data}

theorem Created.find (hc : Created L fds maps) {m v : Nat}
    (hm : (L.mapSyms.map Sym.value)[m]? = some v) :
    ∃ md, maps.find? (fun x => x.elfOffset = v) = some md ∧ md.fd = fds.getD m 0 := by
  have hsorted : (maps.map MapData.elfOffset).Pairwise (· < ·) := by
    rw [hc.offsets]
    exact List.pairwise_map.mpr hc.increasing
  rw [← hc.offsets] at hm
  obtain ⟨md, hget, hfind⟩ := find?_key hsorted hm
  refine ⟨md, hfind, ?_⟩
  rw [← hc.descriptors, List.getD_eq_getElem?_getD, List.getElem?_map, hget]
  rfl

/-- A relocation that points to the load of a map completes it. -/
theorem applyRelo_links (hc : Created L fds maps) {j m : Nat} {rel : Rel} {sym : Sym} {w : Word}
    (hp : Points L rsec j rel sym w m) (hs : Shows fds (L.code rsec.shdr.info) hit insn) :
    ∃ insn', applyRelo rsec.data L.symbols maps j insn = .ok (insn', true) ∧
      Shows fds (L.code rsec.shdr.info) (fun k => hit k ∨ k = rel.offset / 8) insn' := by
  obtain ⟨md, hfind, hfd⟩ := hc.find hp.offset
  have hk : rel.offset / 8 < (L.code rsec.shdr.info).length :=
    (List.getElem?_eq_some_iff.mp hp.insn).1
  have hsize := hs.size
  have hsmall := insn.small
  have hidx : rel.offset / 8 % 2 ^ 32 = rel.offset / 8 := Nat.mod_eq_of_lt (by omega)
  have hcode : insn.buf (8 * (rel.offset / 8)) = ldImm64 := by
    have hfirst := (hs.load hp.insn hp.map).1 0 (by decide) (by decide)
    rw [Nat.add_zero] at hfirst
    rw [hfirst]
    exact hp.load
  refine ⟨_, ?_, hs.patch hp.insn hp.map⟩
  have hmaps : maps ≠ [] := by
    rintro rfl
    cases hfind
  have hmap : findMap maps (some sym) = .ok (some md) :=
    (if_neg hmaps).trans (congrArg Except.ok hfind)
  unfold applyRelo
  simp only [hp.getrel, hp.getsym, hidx, hmap, hfd]
  rw [if_pos (by omega), if_neg (not_not.mpr hcode), if_pos (by omega), if_pos (by omega)]

/-- The instructions that relocations of a list are for. -/
def HitBy (rsec : Sec) (js : List Nat) (k : Nat) : Prop :=
  ∃ j ∈ js, ∃ rel, gelfGetrel rsec.data j = some rel ∧ rel.offset / 8 = k

theorem Shows.congr {code : List Word} {hit' : Nat → Prop} (h : Shows fds code hit insn)
    (hh : ∀ k, hit' k ↔ hit k) : Shows fds code hit' insn :=
  ⟨h.size, fun k w hw hk => h.linked k w hw ((hh k).mp hk),
    fun k w hw hk => h.raw k w hw (mt (hh k).mpr hk)⟩

theorem applyRelos_links (hc : Created L fds maps) (js : List Nat)
    (hp : ∀ j ∈ js, ∃ rel sym w m, Points L rsec j rel sym w m)
    (hs : Shows fds (L.code rsec.shdr.info) hit insn) :
    ∃ insn', applyRelos rsec.data L.symbols maps js insn = .ok (insn', true) ∧
      Shows fds (L.code rsec.shdr.info) (fun k => hit k ∨ HitBy rsec js k) insn' := by
  induction js generalizing hit insn with
  | nil =>
    refine ⟨insn, rfl, hs.congr fun k => ?_⟩
    simp [HitBy]
  | cons j js ih =>
    obtain ⟨rel, sym, w, m, hpj⟩ := hp j (List.mem_cons_self ..)
    obtain ⟨insn₁, happly, hs₁⟩ := applyRelo_links hc hpj hs
    obtain ⟨insn', hrest, hs'⟩ := ih (fun j hj => hp j (List.mem_cons_of_mem _ hj)) hs₁
    refine ⟨insn', ?_, hs'.congr fun k => ?_⟩
    · show (applyRelo _ _ _ _ _ >>= _) = _
      rw [happly]
      exact hrest
    · have hcons : HitBy rsec (j :: js) k ↔ k = rel.offset / 8 ∨ HitBy rsec js k := by
        simp [HitBy, hpj.getrel, eq_comm]
      rw [hcons, or_assoc]

end

/-! ## All relocations of a file -/

theorem getSec_setBuf (elf : Elf) (ehdr : Ehdr) (i : Nat) (buf : Mem) (j : Nat) :
    getSec (elf.setBuf i buf) ehdr j =
      if j = i then (getSec elf ehdr j).map fun sec =>
        { sec with data := { sec.data with buf := buf } }
      else getSec elf ehdr j := by
  by_cases hj : j = i
  · rw [if_pos hj]
    simp only [getSec, Elf.setBuf, if_pos hj]
    rcases elf.scn j with _ | scn
    · rfl
    rcases hs : scn.shdr with _ | shdr
    · simp only [Option.map_some, hs]
      rfl
    simp only [Option.map_some, hs]
    rcases elf.strptr ehdr.shstrndx shdr.name with _ | shname
    · rfl
    dsimp only
    split
    · rfl
    · rcases scn.data with _ | ⟨d, _ | ⟨e, l⟩⟩ <;> rfl
  · rw [if_neg hj]
    simp only [getSec, Elf.setBuf, if_neg hj]

theorem isProcessed_eq {σ : Type} {s : Globals σ} {i : Nat} (h : i < 128) :
    isProcessed i s = .ok s.processedSec[i] s := by
  show (get >>= fun s : Globals σ => if h : i < 128 then (pure s.processedSec[i] : LoadM σ Bool)
    else throw .outOfBounds) s = _
  rw [bind_of_ok (show (get : LoadM σ (Globals σ)) s = .ok s s from rfl), dif_pos h]
  rfl

theorem setProcessed_eq {σ : Type} {s : Globals σ} {i : Nat} (h : i < 128) :
    setProcessed i s = .ok () { s with processedSec := s.processedSec.set i true h } := by
  unfold setProcessed
  rw [dif_pos h]
  rfl

/-- Looking at a mark changes nothing. -/
theorem isProcessed_ends {σ : Type} (i : Nat) (s : Globals σ) :
    Ends (isProcessed i) s (fun _ s' => s' = s) fun _ s' => s' = s := by
  refine ends_get_bind.mpr ?_
  split
  · exact ends_pure.mpr rfl
  · exact ends_throw.mpr rfl

/-- The sections that are done with are those of `P`. -/
def Marked {σ : Type} (P : Nat → Prop) (s : Globals σ) : Prop :=
  ∀ i (h : i < 128), s.processedSec[i] = true ↔ P i

theorem Marked.set {σ : Type} {P : Nat → Prop} {s : Globals σ} (hm : Marked P s) {i : Nat}
    (h : i < 128) :
    Marked (fun x => P x ∨ x = i) { s with processedSec := s.processedSec.set i true h } := by
  intro x hx
  show (s.processedSec.set i true h)[x] = true ↔ _
  rw [Vector.getElem_set]
  by_cases hxi : i = x
  · rw [if_pos hxi]
    exact iff_of_true rfl (.inr hxi.symm)
  · rw [if_neg hxi, hm x hx]
    exact (or_iff_left (Ne.symm hxi)).symm

theorem Marked.congr {σ : Type} {P P' : Nat → Prop} {s : Globals σ} (hm : Marked P s)
    (h : ∀ i, P' i ↔ P i) : Marked P' s :=
  fun i hi => (hm i hi).trans (h i).symm

theorem Marked.same {σ : Type} {P : Nat → Prop} {s s' : Globals σ} (hm : Marked P s)
    (h : s'.processedSec = s.processedSec) : Marked P s' := by
  intro i hi
  rw [h]
  exact hm i hi

/-- The section is handled by its name. -/
def Elf.SpecialAt (elf : Elf) (ehdr : Ehdr) (i : Nat) : Prop :=
  ∃ sec, elf.HasSec ehdr i sec ∧ sec.Special

/-- The relocations of the section `r` reach the instruction `k` of the section `t`. -/
def Elf.Hits (elf : Elf) (ehdr : Ehdr) (r t k : Nat) : Prop :=
  ∃ rsec prog, elf.Relocates ehdr r rsec prog ∧ rsec.shdr.info = t ∧
    HitBy rsec (List.range (rsec.shdr.size / rsec.shdr.entsize)) k

/-- The file `elf'` is `elf` with the instructions of `hit` linked. -/
structure Relocating (elf elf' : Elf) (ehdr : Ehdr) (L : Layout) (fds : List Int)
    (hit : Nat → Nat → Prop) : Prop where
  error : ∀ i e, getSec elf ehdr i = .error e → getSec elf' ehdr i = .error e
  ok : ∀ i sec, getSec elf ehdr i = .ok sec →
    ∃ d, getSec elf' ehdr i = .ok { sec with data := d } ∧
    (¬ sec.Executable → d = sec.data) ∧
    (sec.data.bytes = codeBytes ((L.code i).map Word.insn) → Shows fds (L.code i) (hit i) d)

section

variable {σ : Type} {elf elf' : Elf} {ehdr : Ehdr} {c : Copy} {L : Layout} {o : Object}
  {fds : List Int} {hit : Nat → Nat → Prop}

theorem Relocating.refl : Relocating elf elf ehdr L fds fun _ _ => False :=
  ⟨fun _ _ h => h, fun _ sec h => ⟨sec.data, h, fun _ => rfl, Shows.of_bytes⟩⟩

theorem Relocating.congr {hit' : Nat → Nat → Prop} (h : Relocating elf elf' ehdr L fds hit)
    (hh : ∀ t k, hit' t k ↔ hit t k) : Relocating elf elf' ehdr L fds hit' := by
  refine ⟨h.error, fun i sec hsec => ?_⟩
  obtain ⟨d, hd, hsame, hshows⟩ := h.ok i sec hsec
  exact ⟨d, hd, hsame, fun hb => (hshows hb).congr (hh i)⟩

/-- One section gets new contents. -/
theorem Relocating.setBuf (h : Relocating elf elf' ehdr L fds hit) {t : Nat} {prog : Sec}
    {d' : Data} {reached : Nat → Prop} (ht : getSec elf ehdr t = .ok prog)
    (hexec : prog.Executable) (hb : prog.data.bytes = codeBytes ((L.code t).map Word.insn))
    (hs : Shows fds (L.code t) (fun k => hit t k ∨ reached k) d') :
    Relocating elf (elf'.setBuf t d'.buf) ehdr L fds fun i k => hit i k ∨
      (i = t ∧ reached k) := by
  refine ⟨fun i e he => ?_, fun i sec hsec => ?_⟩
  · have hne : i ≠ t := by
      rintro rfl
      rw [ht] at he
      cases he
    rw [getSec_setBuf, if_neg hne]
    exact h.error i e he
  · obtain ⟨d, hd, hsame, hshows⟩ := h.ok i sec hsec
    by_cases hi : i = t
    · subst hi
      obtain rfl : prog = sec := Except.ok.inj (ht.symm.trans hsec)
      have hsize : d.size = d'.size := (hshows hb).size.trans hs.size.symm
      refine ⟨{ d with buf := d'.buf }, ?_, fun hno => absurd hexec hno, fun _ => ?_⟩
      · rw [getSec_setBuf, if_pos rfl, hd]
        rfl
      · have hs' : Shows fds (L.code i) (fun k => hit i k ∨ (i = i ∧ reached k)) d' :=
          hs.congr fun k => by simp
        exact ⟨hsize.trans hs'.size, hs'.linked, hs'.raw⟩
    · refine ⟨d, ?_, hsame, fun hb => (hshows hb).congr fun k => ?_⟩
      · rw [getSec_setBuf, if_neg hi]
        exact hd
      · simp [hi]

variable {s : Globals σ} {P : Nat → Prop} {nrMaps i : Nat}

theorem not_hits (h : ∀ sec prog, ¬ elf.Relocates ehdr i sec prog) (t k : Nat) :
    ¬ elf.Hits ehdr i t k := by
  rintro ⟨rsec, prog, hrel, -⟩
  exact h rsec prog hrel

/-- What the second loop skips by the type and the flags of the target. -/
theorem executable_iff {prog : Sec} :
    prog.Executable ↔
      ¬ (prog.shdr.type ≠ shtProgbits ∨ prog.shdr.flags / shfExecinstr % 2 = 0) := by
  rw [Sec.Executable, not_or, not_not]
  exact and_congr_right fun _ => by omega

/-- A section without relocations for instructions is passed over. -/
theorem relocateSection_stays {symbols : Data} (hi : i ∈ ehdr.sections) (hi128 : i < 128)
    (hm : Marked P s) (hP : P i ↔ elf.SpecialAt ehdr i)
    (hr : Relocating elf elf' ehdr L fds hit)
    (hno : ∀ sec prog, ¬ elf.Relocates ehdr i sec prog) :
    relocateSection ehdr symbols nrMaps i elf' s = .ok elf' s := by
  refine (bind_of_ok (isProcessed_eq hi128)).trans ?_
  by_cases hmark : s.processedSec[i] = true
  · rw [if_pos hmark]
    rfl
  rw [if_neg hmark]
  cases hget : getSec elf ehdr i with
  | error e =>
    rw [hr.error i e hget]
    rfl
  | ok sec =>
    have hplain : ¬ sec.Special :=
      fun hs => hmark ((hm i hi128).mpr (hP.mpr ⟨sec, ⟨hi, hget⟩, hs⟩))
    obtain ⟨d, hd, -⟩ := hr.ok i sec hget
    rw [hd]
    dsimp only
    split
    swap
    · rfl
    next htype =>
    cases htarget : getSec elf ehdr sec.shdr.info with
    | error e =>
      rw [hr.error _ e htarget]
      rfl
    | ok prog =>
      obtain ⟨d', hd', -⟩ := hr.ok _ prog htarget
      rw [hd']
      dsimp only
      split
      · rfl
      next hexec =>
        exact absurd ⟨⟨hi, hget⟩, hplain, htype, htarget, executable_iff.mpr hexec⟩
          (hno sec prog)

/-- The relocations of a section are applied to its target. -/
theorem relocateSection_applies (H : Holds elf ehdr c L o)
    (hc : Created L fds (s.mapData.toList.take nrMaps)) (hi128 : i < 128) (hm : Marked P s)
    (hP : P i ↔ elf.SpecialAt ehdr i) (hr : Relocating elf elf' ehdr L fds hit) {sec prog : Sec}
    (hrel : elf.Relocates ehdr i sec prog) :
    ∃ insn, relocateSection ehdr L.symbols nrMaps i elf' s =
        .ok (elf'.setBuf sec.shdr.info insn.buf)
          { s with processedSec := s.processedSec.set i true hi128 } ∧
      Shows fds (L.code sec.shdr.info)
        (fun k => hit sec.shdr.info k ∨
          HitBy sec (List.range (sec.shdr.size / sec.shdr.entsize)) k) insn := by
  have hmark : ¬ s.processedSec[i] = true := by
    rw [hm i hi128, hP]
    rintro ⟨sec', hsec', hspecial⟩
    obtain rfl : sec' = sec := Except.ok.inj (hsec'.2.symm.trans hrel.has.2)
    exact hrel.plain hspecial
  obtain ⟨d, hd, hsame, -⟩ := hr.ok i sec hrel.has.2
  obtain ⟨d', hd', -, hshows⟩ := hr.ok _ prog hrel.target
  have hdata : d = sec.data := hsame fun hexec => by
    have hbad : shtRel = shtProgbits := hrel.type.symm.trans hexec.1
    exact absurd hbad (by decide)
  obtain ⟨hentsize, hbytes, hpoints⟩ := H.relocations i sec prog hrel
  obtain ⟨insn, happly, hlinked⟩ :=
    applyRelos_links hc (List.range (sec.shdr.size / sec.shdr.entsize))
    (fun j hj => hpoints j (List.mem_range.mp hj)) (hshows hbytes)
  have hparse : parseReloAndApply sec.data L.symbols sec.shdr d'
      (s.mapData.toList.take nrMaps) = .ok (insn, true) := by
    rw [parseReloAndApply, if_neg hentsize]
    exact happly
  refine ⟨insn, (bind_of_ok (isProcessed_eq hi128)).trans ?_, hlinked⟩
  rw [if_neg hmark, hd]
  dsimp only
  rw [if_pos hrel.type, hd']
  dsimp only
  rw [if_neg (executable_iff.mp hrel.executable), hdata, bind_of_ok (setProcessed_eq hi128),
    bind_of_ok (show (get : LoadM σ (Globals σ)) _ = .ok _ _ from rfl), hparse]
  rfl

/-- The second loop at one section, where those that are marked so far are handled by their
names. -/
theorem relocateSection_links (H : Holds elf ehdr c L o)
    (hc : Created L fds (s.mapData.toList.take nrMaps)) (hi : i ∈ ehdr.sections)
    (hi128 : i < 128) (hm : Marked P s) (hP : P i ↔ elf.SpecialAt ehdr i)
    (hr : Relocating elf elf' ehdr L fds hit) :
    ∃ elf'' s', relocateSection ehdr L.symbols nrMaps i elf' s = .ok elf'' s' ∧
      s'.toSys = s.toSys ∧ s'.mapData = s.mapData ∧
      Marked (fun x => P x ∨ (x = i ∧ ∃ sec prog, elf.Relocates ehdr i sec prog)) s' ∧
      Relocating elf elf'' ehdr L fds fun t k => hit t k ∨ elf.Hits ehdr i t k := by
  by_cases hrel : ∃ sec prog, elf.Relocates ehdr i sec prog
  · obtain ⟨sec, prog, hrel⟩ := hrel
    obtain ⟨insn, hrun, hlinked⟩ := relocateSection_applies H hc hi128 hm hP hr hrel
    obtain ⟨-, hbytes, -⟩ := H.relocations i sec prog hrel
    refine ⟨_, _, hrun, rfl, rfl, (hm.set hi128).congr fun x => ?_, ?_⟩
    · have hex : ∃ sec prog, elf.Relocates ehdr i sec prog := ⟨sec, prog, hrel⟩
      simp [hex]
    · refine (hr.setBuf hrel.target hrel.executable hbytes hlinked).congr fun t k =>
        or_congr_right ?_
      constructor
      · rintro ⟨sec', prog', hrel', rfl, hhit⟩
        obtain rfl : sec' = sec := Except.ok.inj (hrel'.has.2.symm.trans hrel.has.2)
        exact ⟨rfl, hhit⟩
      · rintro ⟨rfl, hhit⟩
        exact ⟨sec, prog, hrel, rfl, hhit⟩
  · have hno : ∀ sec prog, ¬ elf.Relocates ehdr i sec prog :=
      fun sec prog h => hrel ⟨sec, prog, h⟩
    refine ⟨elf', s, relocateSection_stays hi hi128 hm hP hr hno, rfl, rfl,
      hm.congr fun x => ?_, hr.congr fun t k => ?_⟩
    · simp [hno]
    · simp [not_hits hno]

theorem lt_of_mem_sections (H : Holds elf ehdr c L o) (hi : i ∈ ehdr.sections) : i < 128 := by
  have hfew := H.few
  obtain ⟨h₁, h₂⟩ := List.mem_range'_1.mp hi
  omega

/-- The second loop: every instruction that a relocation is for is linked. -/
theorem relocateSections_links (H : Holds elf ehdr c L o) (is : List Nat)
    (hsub : ∀ i ∈ is, i ∈ ehdr.sections) (hnodup : is.Nodup)
    (hc : Created L fds (s.mapData.toList.take nrMaps)) (hm : Marked P s)
    (hP : ∀ i ∈ is, P i ↔ elf.SpecialAt ehdr i) (hr : Relocating elf elf' ehdr L fds hit) :
    ∃ elf'' s', relocateSections ehdr L.symbols nrMaps is elf' s = .ok elf'' s' ∧
      s'.toSys = s.toSys ∧
      Marked (fun x => P x ∨ (x ∈ is ∧ ∃ sec prog, elf.Relocates ehdr x sec prog)) s' ∧
      Relocating elf elf'' ehdr L fds fun t k => hit t k ∨ ∃ r ∈ is, elf.Hits ehdr r t k := by
  induction is generalizing elf' s P hit with
  | nil => exact ⟨elf', s, rfl, rfl, hm.congr fun x => by simp, hr.congr fun t k => by simp⟩
  | cons i is ih =>
    have hi : i ∈ ehdr.sections := hsub i (List.mem_cons_self ..)
    obtain ⟨hfresh, hnodup'⟩ := List.nodup_cons.mp hnodup
    obtain ⟨elf₁, s₁, hrun, hsys, hmaps, hm₁, hr₁⟩ := relocateSection_links H hc hi
      (lt_of_mem_sections H hi) hm (hP i (List.mem_cons_self ..)) hr
    have hP₁ : ∀ j ∈ is, (P j ∨ (j = i ∧ ∃ sec prog, elf.Relocates ehdr i sec prog)) ↔
        elf.SpecialAt ehdr j := by
      intro j hj
      have hne : j ≠ i := fun he => hfresh (he ▸ hj)
      rw [← hP j (List.mem_cons_of_mem _ hj)]
      simp [hne]
    obtain ⟨elf₂, s₂, hrest, hsys₂, hm₂, hr₂⟩ :=
      ih (fun j hj => hsub j (List.mem_cons_of_mem _ hj)) hnodup' (hmaps ▸ hc) hm₁ hP₁ hr₁
    refine ⟨elf₂, s₂, ?_, hsys₂.trans hsys, hm₂.congr fun x => ?_, hr₂.congr fun t k => ?_⟩
    · show (relocateSection _ _ _ _ _ >>= _) s = _
      rw [bind_of_ok hrun]
      exact hrest
    · rw [or_assoc, List.mem_cons, or_and_right]
      refine or_congr_right (or_congr_left (and_congr_right ?_))
      rintro rfl
      exact Iff.rfl
    · rw [or_assoc]
      simp

end

/-! ## The programs -/

/-- A string starts with the first character of what it is known to start with. -/
theorem CStr.head_of_starts {p : CStr} {lit : String} (h : p.starts lit = true) {b : UInt8}
    {l : List UInt8} (hlit : ascii lit = b :: l) : p.head = b := by
  rw [CStr.starts, hlit] at h
  unfold CStr.head
  cases hm : p.mem with
  | nil => rw [hm] at h; cases h
  | cons b' l' =>
    rw [hm, List.isPrefixOf_cons_cons, Bool.and_eq_true, beq_iff_eq] at h
    exact h.1.symm

theorem CStr.head_of_text {p : CStr} {b : UInt8} {l : List UInt8} (h : p.text = b :: l) :
    p.head = b := by
  unfold CStr.text at h
  unfold CStr.head
  cases hm : p.mem with
  | nil => rw [hm] at h; cases h
  | cons b' l' =>
    rw [hm, List.takeWhile_cons] at h
    split at h
    · exact (List.cons.inj h).1
    · cases h

theorem isProgram_head {c : Copy} {p : CStr} (h : isProgram c p = true) :
    p.head ∈ ascii "ktrxpscf" := by
  simp only [isProgram, Copy.isF, Bool.or_eq_true, Bool.and_eq_true] at h
  rcases h with ((((((((((h | h) | h) | h) | h) | h) | h) | h) | h) | h) | h) | ⟨-, h⟩ <;>
    rw [CStr.head_of_starts h rfl] <;> decide

theorem Sec.Special.head {sec : Sec} (h : sec.Special) : sec.shname.head ∈ ascii "lvm" := by
  rcases h with h | h | h <;> rw [CStr.head_of_text (h.trans rfl)] <;> decide

/-- No program is in a section with one of the reserved names. -/
theorem not_isProgram_of_special {c : Copy} {sec : Sec} (h : sec.Special) :
    isProgram c sec.shname = false := by
  rw [Bool.eq_false_iff]
  intro hp
  have hdisjoint : (ascii "lvm").all (fun b => b ∉ ascii "ktrxpscf") = true := by decide
  exact of_decide_eq_true (List.all_eq_true.mp hdisjoint _ h.head) (isProgram_head hp)

/-- What deals with the kernel only runs on the kernel's part of the variables. -/
theorem mirrors_onSys {σ α : Type} (x : SysM σ α) (s : Globals σ) :
    Mirrors Globals.toSys (onSys x) s x fun a b s' => a = b ∧
      ∃ t, s' = { s with toSys := t } := by
  cases hx : x s.toSys with
  | ok a t =>
    have hrun : onSys x s = .ok a { s with toSys := t } := by rw [onSys, hx]
    exact (ends_of_ok hrun).mpr ⟨a, hx, rfl, t, rfl⟩
  | error e t =>
    have hrun : onSys x s = .error e { s with toSys := t } := by rw [onSys, hx]
    exact (ends_of_error hrun).mpr hx

section

variable {σ : Type} {elf elf' : Elf} {ehdr : Ehdr} {c : Copy} {L : Layout} {o : Object}
  {fds : List Int} {s : Globals σ}

/-- The third loop gives the kernel what the object has. -/
theorem loadPrograms_mirrors (W : World σ) (H : Holds elf ehdr c L o)
    (hr : Relocating elf elf' ehdr L fds fun t k => ∃ r ∈ ehdr.sections, elf.Hits ehdr r t k)
    (is : List Nat) (hsub : ∀ i ∈ is, i ∈ ehdr.sections) (ret : Int)
    (hm : Marked (fun x => elf.SpecialAt ehdr x ∨
      ∃ sec prog, elf.Relocates ehdr x sec prog) s) :
    Mirrors Globals.toSys (loadPrograms W c elf' ehdr is ret) s
      (loadLinked W c fds (is.filterMap (L.programAt elf ehdr c)) ret)
      fun a b _ => a = b := by
  induction is generalizing s ret with
  | nil => exact .pure rfl
  | cons i is ih =>
    have hi : i ∈ ehdr.sections := hsub i (List.mem_cons_self ..)
    have hrest := fun i hi => hsub i (List.mem_cons_of_mem _ hi)
    have hi128 := lt_of_mem_sections H hi
    have hprocessed : Ends (isProcessed i) s
      (fun b s' => s'.toSys = s.toSys ∧ (b = s.processedSec[i] ∧ s' = s)) fun _ _ => False :=
      (ends_of_ok (isProcessed_eq hi128)).mpr ⟨rfl, rfl, rfl⟩
    refine Mirrors.skip hprocessed ?_
    rintro b s' ⟨rfl, rfl⟩
    cases hget : getSec elf ehdr i with
    | error e =>
      have hnone : L.programAt elf ehdr c i = none := by rw [Layout.programAt, hget]
      rw [List.filterMap_cons_none hnone, hr.error i e hget]
      split
      · exact ih hrest ret hm
      · exact ih hrest ret hm
    | ok sec =>
      obtain ⟨d, hd, -, hshows⟩ := hr.ok i sec hget
      by_cases hprog : isProgram c sec.shname = true
      · have hsome : L.programAt elf ehdr c i = some ⟨sec.shname, L.code i⟩ := by
          rw [Layout.programAt, hget]
          exact if_pos hprog
        obtain ⟨htype, hbytes⟩ := H.code i sec ⟨hi, hget⟩ hprog
        -- neither its name nor its type lets the section be passed over
        have hmark : ¬ s'.processedSec[i] = true := by
          rw [hm i hi128]
          rintro (⟨sec', hsec', hspecial⟩ | ⟨sec', prog, hrel⟩)
          · obtain rfl : sec = sec' := Except.ok.inj (hget.symm.trans hsec'.2)
            rw [not_isProgram_of_special hspecial] at hprog
            cases hprog
          · obtain rfl : sec = sec' := Except.ok.inj (hget.symm.trans hrel.has.2)
            exact htype hrel.type
        have hcode : d.bytes = codeBytes ((L.code i).map (Word.link fds)) := by
          refine (hshows hbytes).bytes_eq fun k w hw hne => ?_
          obtain ⟨r, rsec, j, rel, hrel, rfl, hj, hgetrel, hk⟩ :=
            H.relocated i sec ⟨hi, hget⟩ hprog k w hw hne
          exact ⟨r, hrel.has.1, rsec, sec, hrel, rfl, j, List.mem_range.mpr hj, rel,
            hgetrel, hk⟩
        rw [if_neg hmark, hd, List.filterMap_cons_some hsome]
        dsimp only
        rw [if_pos hprog, hcode]
        refine (mirrors_onSys _ _).bind ?_
        rintro ret' ret'' s'' ⟨rfl, t, rfl⟩
        refine Mirrors.ite (fun _ => .pure rfl) fun _ => ?_
        exact ih hrest ret' hm
      · have hnone : L.programAt elf ehdr c i = none := by
          rw [Layout.programAt, hget]
          exact if_neg hprog
        rw [List.filterMap_cons_none hnone, hd]
        dsimp only
        rw [if_neg hprog]
        split
        · exact ih hrest ret hm
        · exact ih hrest ret hm

end

end BpfExamples.Loader
