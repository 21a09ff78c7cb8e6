import BpfExamples.Kvm.PagingRuns
import BpfExamples.Kvm.SysMmapSpec

/-!
# What the ELF loader does with a file

`loadBinary_spec` says how `load_binary` ends, as a function of the file: every segment has a
`Verdict`, and the first one that is not `loads` decides. As long as all of them load, the
areas of the segments are laid down in order, and the stack behind them.
-/

namespace BpfExamples.Kvm

open Mem

variable {σ : Type} {s s' s'' : Sys σ} {blocks : List Extent} {leaf : Nat → Nat} {host : Host σ}
  {fd rfd errno : Int} {content : List UInt8} {pos : σ → Nat}

/-! ## Segments -/

namespace Phdr

/-- The header holds 64-bit numbers. -/
structure Words (ph : Phdr) : Prop where
  offset : ph.offset < 2 ^ 64
  vaddr : ph.vaddr < 2 ^ 64
  filesz : ph.filesz < 2 ^ 64
  memsz : ph.memsz < 2 ^ 64

/-- There are pages behind those of the file part. -/
def HasBss (ph : Phdr) (load : Nat) : Prop := ph.filesz < ph.memsz ∧ ph.bssEd load ≠ ph.ed load

instance (ph : Phdr) (load : Nat) : Decidable (ph.HasBss load) :=
  inferInstanceAs (Decidable (_ ∧ _))

/-- What becomes of the zero pages. -/
def bssVerdict (load : Nat) (ph : Phdr) : Verdict :=
  if ph.HasBss load then
    if 2 ^ 32 ≤ ph.bssLen load then .rejects (-eNOMEM)
    else if InUser (ph.ed load / 0x1000) (ph.bssLen load / 0x1000) then .loads
    else .bad
  else .loads

/-- What becomes of the file part. -/
def fileVerdict (errno : Int) (load : Nat) (ph : Phdr) : Verdict :=
  mapVerdict errno (ph.st load / 0x1000) ph.fileLen (aligndown ph.offset % 2 ^ 32)

/-- What becomes of the segment. -/
def verdict (errno : Int) (load : Nat) (ph : Phdr) : Verdict :=
  match ph.fileVerdict errno load with
  | .loads => ph.bssVerdict load
  | v => v

/-- The area of the file part. -/
def fileArea (content : List UInt8) (load : Nat) (ph : Phdr) : Area :=
  ⟨ph.st load / 0x1000, alignup ph.fileLen / 0x1000, pfToProt ph.flags,
    fileData content (aligndown ph.offset % 2 ^ 32) ph.fileLen⟩

/-- The area of the zero pages. -/
def bssArea (load : Nat) (ph : Phdr) : Area :=
  ⟨ph.ed load / 0x1000, ph.bssLen load / 0x1000, pfToProt ph.flags, fun _ => 0⟩

@[inherit_doc bssArea] def bssAreas (load : Nat) (ph : Phdr) : List Area :=
  if ph.HasBss load then [ph.bssArea load] else []

/-- The areas of the segment. -/
def areas (content : List UInt8) (load : Nat) (ph : Phdr) : List Area :=
  ph.fileArea content load :: ph.bssAreas load

variable {ph : Phdr} {load : Nat}

theorem st_lt (ph : Phdr) (load : Nat) : ph.st load < 2 ^ 64 := Nat.mod_lt _ (by decide)

theorem fileLen_lt (ph : Phdr) : ph.fileLen < 2 ^ 64 := Nat.mod_lt _ (by decide)

theorem st_page (hload : load % 0x1000 = 0) (ph : Phdr) :
    ph.st load = 0x1000 * (ph.st load / 0x1000) := by
  rw [st, aligndown_eq]
  omega

theorem ed_page (hload : load % 0x1000 = 0) (ph : Phdr) :
    ph.ed load = 0x1000 * (ph.ed load / 0x1000) := by
  have h := (alignup_spec (Nat.mod_lt (ph.vaddr + ph.filesz) (show 0 < 2 ^ 64 by decide))).1
  unfold ed
  omega

theorem bssEd_page (hload : load % 0x1000 = 0) (ph : Phdr) :
    ph.bssEd load = 0x1000 * (ph.bssEd load / 0x1000) := by
  have h := (alignup_spec (Nat.mod_lt (ph.vaddr + ph.memsz) (show 0 < 2 ^ 64 by decide))).1
  unfold bssEd
  omega

theorem ed_lt (ph : Phdr) (load : Nat) : ph.ed load < 2 ^ 64 := Nat.mod_lt _ (by decide)

theorem bssEd_lt (ph : Phdr) (load : Nat) : ph.bssEd load < 2 ^ 64 := Nat.mod_lt _ (by decide)

theorem bssLen_page (hload : load % 0x1000 = 0) (hb : ph.HasBss load) :
    ph.bssLen load = 0x1000 * (ph.bssLen load / 0x1000) ∧ 0 < ph.bssLen load / 0x1000 := by
  have h₁ := ed_page hload ph
  have h₂ := bssEd_page hload ph
  have h₃ := ph.ed_lt load
  have h₄ := ph.bssEd_lt load
  have hne := hb.2
  unfold bssLen
  omega

/-- A file part that loads. -/
theorem fileVerdict_loads {errno : Int} (h : ph.fileVerdict errno load = .loads) :
    0 < ph.fileLen ∧ alignup ph.fileLen ≠ 0 ∧ alignup ph.fileLen < 2 ^ 32 ∧
      InUser (ph.st load / 0x1000) (alignup ph.fileLen / 0x1000) := by
  unfold fileVerdict mapVerdict at h
  split at h
  · cases h
  split at h
  · cases h
  split at h
  · cases h
  split at h
  · cases h
  · next h₁ h₂ h₃ h₄ => exact ⟨by omega, h₂, by omega, by_contra fun hu => h₄ (.inl hu)⟩

theorem fileVerdict_rejects {errno ret : Int} (h : ph.fileVerdict errno load = .rejects ret) :
    -4095 ≤ ret ∧ ret < 0 := by
  have hret : ret = -eINVAL ∨ ret = -eNOMEM := by
    unfold fileVerdict mapVerdict at h
    split at h
    · exact .inl (Verdict.rejects.inj h).symm
    split at h
    · cases h
    split at h
    · exact .inr (Verdict.rejects.inj h).symm
    split at h <;> cases h
  rcases hret with rfl | rfl <;> decide

/-- The end of a file part that is mapped is not address 0, where `mmap` would choose for
itself. -/
theorem ed_ne_zero_of_user (hw : ph.Words) (hload : load % 0x1000 = 0) (hpos : 0 < ph.fileLen)
    (hne : alignup ph.fileLen ≠ 0) (hlt : alignup ph.fileLen < 2 ^ 32)
    (hu : InUser (ph.st load / 0x1000) (alignup ph.fileLen / 0x1000)) : ph.ed load ≠ 0 := by
  obtain ⟨hu₁, hu₂, -⟩ := hu
  have hlen := ((alignup_spec ph.fileLen_lt).2 hne).1
  obtain ⟨r, hr, hup⟩ :=
    alignup_add (Nat.mod_lt (ph.vaddr + ph.filesz) (show 0 < 2 ^ 64 by decide))
  -- the end is the start plus the length, up to two pages
  have hst : ph.st load = (load + (ph.vaddr - ph.vaddr % 0x1000)) % 2 ^ 64 := rfl
  have hfl : ph.fileLen = (ph.filesz + ph.offset % 0x1000) % 2 ^ 64 := rfl
  have hed : ph.ed load = (load + ((ph.vaddr + ph.filesz) % 2 ^ 64 + r) % 2 ^ 64) % 2 ^ 64 := by
    rw [ed, hup]
  have h₁ := hw.vaddr
  have h₂ := hw.filesz
  omega

theorem ed_ne_zero {errno : Int} (hw : ph.Words) (hload : load % 0x1000 = 0)
    (h : ph.fileVerdict errno load = .loads) : ph.ed load ≠ 0 := by
  obtain ⟨hpos, hne, hlt, hu⟩ := fileVerdict_loads h
  exact ed_ne_zero_of_user hw hload hpos hne hlt hu

end Phdr

/-- How a step of the loader ends, by the verdict: it goes on, or returns. `done` holds of
what it has mapped. -/
inductive SegmentEnds (done : Prop) : Verdict → Option Int → Prop
  | loads (h : done) : SegmentEnds done .loads none
  | rejects (ret : Int) : SegmentEnds done (.rejects ret) (some ret)
  | bad {ret : Int} (h : ret < 0) : SegmentEnds done .bad (some ret)

theorem SegmentEnds.mono {done done' : Prop} {v : Verdict} {ret : Option Int}
    (h : SegmentEnds done v ret) (hd : done → done') : SegmentEnds done' v ret := by
  cases h with
  | loads h => exact .loads (hd h)
  | rejects ret => exact .rejects ret
  | bad h => exact .bad h

/-- The zero pages of a segment. -/
theorem loadBss_spec (inv : KernelInv s.heap blocks leaf) (hlast : LastOk s) {load : Nat}
    (hload : load % 0x1000 = 0) {ph : Phdr} (hed : ph.ed load ≠ 0) :
    Ends (loadBss load ph) s
      (fun ret s' => Short (areasCost (ph.bssAreas load)) s s' ∧ ret = some (-eNOMEM) ∨
        s'.refused = s.refused ∧
          SegmentEnds ((∃ blocks' leaf',
            Laid (ph.bssAreas load) s blocks leaf s' blocks' leaf') ∧ LastOk s')
            (ph.bssVerdict load) ret)
      fun _ s' => Short (areasCost (ph.bssAreas load)) s s' ∨
        s'.refused = s.refused ∧ ph.bssVerdict load = .bad := by
  rw [loadBss]
  by_cases hb : ph.HasBss load
  · obtain ⟨hlen, hpos⟩ := Phdr.bssLen_page hload hb
    have hpage := Phdr.ed_page hload ph
    have hlt := ph.ed_lt load
    have hverdict : ph.bssVerdict load = if 2 ^ 32 ≤ ph.bssLen load then .rejects (-eNOMEM)
      else if InUser (ph.ed load / 0x1000) (ph.bssLen load / 0x1000) then .loads
      else .bad := if_pos hb
    have htarget : target (ph.ed load / 0x1000) (ph.bssLen load / 0x1000) =
      ph.ed load / 0x1000 := if_neg (by omega)
    have hmap := doMmap_spec inv hlast (v := ph.ed load / 0x1000)
      (by omega) hpos (pfToProt ph.flags)
    rw [← hpage, ← hlen, htarget, ← hpage] at hmap
    rw [if_pos (show ph.filesz < ph.memsz ∧ ph.bssEd load ≠ ph.ed load from hb)]
    have hareas : ph.bssAreas load = [ph.bssArea load] := if_pos hb
    have hcost : mapCost (ph.bssLen load / 0x1000) ≤ areasCost (ph.bssAreas load) := by
      rw [hareas, areasCost_cons]
      show 0x71b0 * _ + 0x1090 ≤ 0x71b0 * (ph.bssLen load / 0x1000) + 0x3200 + _
      omega
    refine Ends.bind (hmap.mono (fun _ _ h => h) fun e s₁ h => ?_) ?_
    · refine h.imp (fun h => h.mono hcost) fun h => ⟨h.2.2, ?_⟩
      rw [hverdict, if_neg (by omega), if_neg h.2.1]
    rintro a s₁ (⟨c, rfl, hsmall, ha, -, hlast₁⟩ | ⟨rfl, hbig, href⟩ | ⟨rfl, -, hshort⟩)
    · rw [if_neg (fun h => h rfl), ends_pure, hareas, hverdict, if_neg (by omega),
        if_pos (show InUser _ _ from ha.user)]
      exact .inr ⟨ha.refused, .loads ⟨⟨_, _, .single ha⟩, hlast₁ (by omega)⟩⟩
    · rw [if_pos (Ne.symm hed), ends_pure, hverdict, if_pos (by omega)]
      exact .inr ⟨href, .rejects _⟩
    · rw [if_pos (Ne.symm hed), ends_pure]
      exact .inl ⟨hshort.mono hcost, rfl⟩
  · have hareas : ph.bssAreas load = [] := if_neg hb
    rw [if_neg (show ¬ (ph.filesz < ph.memsz ∧ ph.bssEd load ≠ ph.ed load) from hb), ends_pure,
      hareas, Phdr.bssVerdict, if_neg hb]
    exact .inr ⟨rfl, .loads ⟨⟨_, _, .nil _ _ _⟩, hlast⟩⟩

/-- **One segment.** -/
theorem loadSegment_spec (hfile : FileHost host rfd content errno pos)
    (inv : KernelInv s.heap blocks leaf) (hlast : LastOk s) (hfd : Opened s.fds fd rfd)
    {load : Nat} (hload : load % 0x1000 = 0) {ph : Phdr} (hw : ph.Words) :
    Ends (loadSegment host fd load ph) s
      (fun ret s' => Short (areasCost (ph.areas content load)) s s' ∧ ret = some (-eNOMEM) ∨
        s'.refused = s.refused ∧
          SegmentEnds ((∃ blocks' leaf',
            Laid (ph.areas content load) s blocks leaf s' blocks' leaf') ∧ LastOk s')
            (ph.verdict errno load) ret)
      fun _ s' => Short (areasCost (ph.areas content load)) s s' ∨
        s'.refused = s.refused ∧ ph.verdict errno load = .bad := by
  have hpage := Phdr.st_page hload ph
  have hlt := ph.st_lt load
  have hmap := sysMmap_spec hfile inv hlast hfd (v := ph.st load / 0x1000)
    (by omega) ph.fileLen_lt (pfToProt ph.flags) (aligndown ph.offset)
  rw [← hpage] at hmap
  have hbad : ph.fileVerdict errno load = .bad → ph.verdict errno load = .bad := fun h => by
    rw [Phdr.verdict, h]
  have hsum : areasCost (ph.areas content load) =
    areaCost (alignup ph.fileLen / 0x1000) + areasCost (ph.bssAreas load) := areasCost_cons _ _
  rw [loadSegment]
  refine Ends.bind (hmap.mono (fun _ _ h => h) fun e s₁ h =>
    h.imp (fun h => h.mono (by omega)) fun h => ⟨h.1, hbad h.2⟩) ?_
  rintro r s₁ (⟨hshort, rfl⟩ | ⟨href, hends⟩)
  · -- no memory: the error number is not a page
    have hmod := ofInt_neg_mod (x := -eNOMEM) (by decide) (by decide)
    rw [if_pos (by omega), ends_pure]
    exact .inl ⟨hshort.mono (by omega), rfl⟩
  · change MapEnds _ _ (ph.fileVerdict errno load) _ at hends
    generalize hv : ph.fileVerdict errno load = verdict at hends
    cases hends with
    | loads h =>
      obtain ⟨⟨c, ha⟩, hlast₁⟩ := h
      have hverdict : ph.verdict errno load = ph.bssVerdict load := by rw [Phdr.verdict, hv]
      rw [if_neg (fun h => h hpage.symm), hverdict]
      have hafter : ∀ {s₂}, Short (areasCost (ph.bssAreas load)) s₁ s₂ →
          Short (areasCost (ph.areas content load)) s s₂ := fun h =>
        (h.after ha.room).mono (Nat.le_of_eq hsum.symm)
      refine (loadBss_spec ha.inv hlast₁ hload (Phdr.ed_ne_zero hw hload hv)).mono
        (fun ret s₂ h => h.imp (fun h => ⟨hafter h.1, h.2⟩) fun h =>
        ⟨h.1.trans href, h.2.mono ?_⟩) fun _ _ h => h.imp hafter fun h => ⟨h.1.trans href, h.2⟩
      rintro ⟨⟨blocks', leaf', hl⟩, hlast₂⟩
      exact ⟨⟨blocks', leaf', .cons ha hl⟩, hlast₂⟩
    | rejects ret =>
      have hneg := Phdr.fileVerdict_rejects hv
      have hmod := ofInt_neg_mod hneg.1 hneg.2
      rw [if_pos (by omega), ends_pure, Phdr.verdict, hv, toInt32_ofInt_neg hneg.1 hneg.2]
      exact .inr ⟨href, .rejects ret⟩
    | bad other cut =>
      rw [if_pos (fun h => other (h.trans hpage)), ends_pure, hbad hv]
      exact .inr ⟨href, .bad cut⟩

/-! ## The headers of the file -/

/-- The file as memory, with zeros behind its end: what the loader's buffer holds of it. -/
def fileMem (content : List UInt8) : Mem := fun i => content.getD i 0

/-- A field of `n` bytes at offset `off`. -/
def fileField (content : List UInt8) (off n : Nat) : Nat := loadLE (fileMem content) off n

/-- The bytes from `i` on are `l`. -/
def sameAt (m : Mem) : List Nat → Nat → Bool
  | [], _ => true
  | c :: l, i => loadLE m i 1 == c && sameAt m l (i + 1)

/-- The checks of the ELF header: the error, or `e_phnum`. -/
def headerCheck (content : List UInt8) : Except Int Nat :=
  let type := fileField content 16 2
  let phnum := fileField content 56 2
  if sameAt (fileMem content) elfIdent 0 = false then .error (-eNOEXEC)
  else if type ≠ etExec ∧ type ≠ etDyn then .error (-eNOEXEC)
  else if fileField content 32 8 ≠ ehdrSize then .error (-eINVAL)
  else if fileField content 54 2 ≠ phdrSize then .error (-eINVAL)
  else if bufSize < ehdrSize + phdrSize * phnum then .error (-eINVAL)
  else .ok phnum

/-- Where the image is moved to: `load_addr`. -/
def loadAddrOf (content : List UInt8) : Nat :=
  if fileField content 16 2 = etDyn then 0x555555554000 else 0

/-- Program header `i` is a `PT_LOAD`. -/
def isLoad (content : List UInt8) (i : Nat) : Bool :=
  fileField content (ehdrSize + phdrSize * i) 4 == ptLoad

/-- Program header `i`. -/
def phdrAt (content : List UInt8) (i : Nat) : Phdr :=
  let base := ehdrSize + phdrSize * i
  ⟨fileField content (base + 4) 4, fileField content (base + 8) 8, fileField content
    (base + 16) 8, fileField content (base + 32) 8, fileField content (base + 40) 8⟩

/-- The `PT_LOAD` headers among the `n` from header `i` on. -/
def segmentsFrom (content : List UInt8) : Nat → Nat → List Phdr
  | 0, _ => []
  | n + 1, i =>
    if isLoad content i then phdrAt content i :: segmentsFrom content n (i + 1)
    else segmentsFrom content n (i + 1)

theorem phdrAt_words (content : List UInt8) (i : Nat) : (phdrAt content i).Words :=
  ⟨loadLE_lt _ 8 _, loadLE_lt _ 8 _, loadLE_lt _ 8 _, loadLE_lt _ 8 _⟩

theorem loadAddrOf_mod (content : List UInt8) : loadAddrOf content % 0x1000 = 0 := by
  unfold loadAddrOf
  split <;> rfl

theorem headerCheck_ok {n : Nat} (h : headerCheck content = .ok n) :
    n = fileField content 56 2 ∧ ehdrSize + phdrSize * n ≤ bufSize := by
  unfold headerCheck at h
  dsimp only at h
  split at h
  · cases h
  split at h
  · cases h
  split at h
  · cases h
  split at h
  · cases h
  split at h
  · cases h
  · next hle =>
    cases h
    exact ⟨rfl, Nat.not_lt.mp hle⟩

/-! ## The loader's buffer -/

/-- The block `b` is the loader's buffer, with the start of the file in it. -/
structure Buffered (s : Sys σ) (blocks : List Extent) (content : List UInt8) (b : Extent) :
    Prop where
  mem : b ∈ blocks
  fits : 0x1000 + 16 ≤ b.size
  bytes : ∀ i, i < 0x1000 → s.mem (b.addr + 16 + i) = fileMem content i

theorem Buffered.laid {b : Extent} {l : List Area} {blocks' : List Extent} {leaf' : Nat → Nat}
    (h : Buffered s blocks content b) (hl : Laid l s blocks leaf s' blocks' leaf') :
    Buffered s' blocks' content b := by
  refine ⟨hl.sub h.mem, h.fits, fun i hi => ?_⟩
  have hf := h.fits
  rw [hl.kept ⟨b, h.mem, by omega, by unfold Extent.fin; omega⟩, h.bytes i hi]

/-- Reads inside the buffer find the file. -/
theorem field_spec (inv : KernelInv s.heap blocks leaf) {b : Extent}
    (hbuf : Buffered s blocks content b) {off n : Nat} (h : off + n ≤ 0x1000) :
    field (b.addr + 16) off n s = .ok (fileField content off n) s := by
  have hb := inv.bounds hbuf.mem
  have hf := hbuf.fits
  unfold Extent.fin at hb
  rw [field, if_pos (show off + n ≤ bufSize from h), peekLE_window n _ (by omega) (by omega)]
  congr 1
  have hshift := loadLE_shift s.mem (b.addr + 16) n off
  rw [← hshift]
  exact loadLE_congr fun x h₁ h₂ => hbuf.bytes x (by omega)

theorem sameBytes_spec (inv : KernelInv s.heap blocks leaf) {b : Extent}
    (hbuf : Buffered s blocks content b) :
    ∀ (l : List Nat) (i : Nat), i + l.length ≤ 0x1000 →
      sameBytes (b.addr + 16) l i s = .ok (sameAt (fileMem content) l i) s
  | [], i, _ => rfl
  | c :: l, i, h => by
    rw [List.length_cons] at h
    rw [sameBytes, bind_of_ok (field_spec inv hbuf (by omega))]
    by_cases hc : fileField content i 1 = c
    · have hsame : sameAt (fileMem content) (c :: l) i = sameAt (fileMem content) l
          (i + 1) := by
        show (fileField content i 1 == c && _) = _
        rw [beq_iff_eq.mpr hc, Bool.true_and]
      rw [if_pos hc, hsame]
      exact sameBytes_spec inv hbuf l (i + 1) (by omega)
    · have hdiff : sameAt (fileMem content) (c :: l) i = false := by
        show (fileField content i 1 == c && _) = _
        rw [beq_eq_false_iff_ne.mpr hc, Bool.false_and]
      rw [if_neg hc, hdiff]
      rfl

/-- **The header check** is a function of the file. -/
theorem checkHeader_spec (inv : KernelInv s.heap blocks leaf) {b : Extent}
    (hbuf : Buffered s blocks content b) (p : Process) :
    ∃ p', checkHeader (b.addr + 16) p s = .ok (headerCheck content, p') s ∧
      ∀ n, headerCheck content = .ok n →
        p'.loadAddr = loadAddrOf content ∧ p'.entry = fileField content 24 8 := by
  have hphnum : fileField content 56 2 < 2 ^ 16 := loadLE_lt _ 2 _
  unfold checkHeader headerCheck
  rw [bind_of_ok (sameBytes_spec inv hbuf elfIdent 0 (by decide))]
  dsimp only
  split
  · exact ⟨p, rfl, fun n h => by cases h⟩
  rw [bind_of_ok (field_spec inv hbuf (by decide)),
    bind_of_ok (field_spec inv hbuf (by decide))]
  split
  · exact ⟨_, rfl, fun n h => by cases h⟩
  rw [bind_of_ok (field_spec inv hbuf (by decide))]
  split
  · exact ⟨_, rfl, fun n h => by cases h⟩
  next hphoff =>
  rw [bind_of_ok (field_spec inv hbuf (by decide))]
  split
  · exact ⟨_, rfl, fun n h => by cases h⟩
  next hsize =>
  have hmod : (fileField content 32 8 + fileField content 54 2 * fileField content 56 2) % 2 ^
      64 = ehdrSize + phdrSize * fileField content 56 2 := by
    rw [not_not.mp hphoff, not_not.mp hsize]
    unfold ehdrSize phdrSize
    omega
  rw [bind_of_ok (field_spec inv hbuf (by decide)), hmod]
  split
  · exact ⟨_, rfl, fun n h => by cases h⟩
  · exact ⟨_, rfl, fun n _ => ⟨rfl, rfl⟩⟩

theorem readPhdr_spec (inv : KernelInv s.heap blocks leaf) {b : Extent}
    (hbuf : Buffered s blocks content b) {i : Nat}
    (h : ehdrSize + phdrSize * i + phdrSize ≤ 0x1000) :
    readPhdr (b.addr + 16) (ehdrSize + phdrSize * i) s = .ok (phdrAt content i) s := by
  have hsize : phdrSize = 56 := rfl
  unfold readPhdr
  rw [bind_of_ok (field_spec inv hbuf (by omega)), bind_of_ok (field_spec inv hbuf (by omega)),
    bind_of_ok (field_spec inv hbuf (by omega)), bind_of_ok (field_spec inv hbuf (by omega)),
    bind_of_ok (field_spec inv hbuf (by omega))]
  rfl

/-! ## All segments -/

/-- The first segment that does not load decides. -/
def segmentsVerdict (errno : Int) (load : Nat) : List Phdr → Verdict
  | [] => .loads
  | ph :: l =>
    match ph.verdict errno load with
    | .loads => segmentsVerdict errno load l
    | v => v

/-- **The loop over the program headers.** -/
theorem loadSegments_spec (hfile : FileHost host rfd content errno pos) {load : Nat}
    (hload : load % 0x1000 = 0) (b : Extent) :
    ∀ (n i : Nat) {s : Sys σ} {blocks : List Extent} {leaf : Nat → Nat},
      KernelInv s.heap blocks leaf → LastOk s → Opened s.fds fd rfd →
      Buffered s blocks content b → ehdrSize + phdrSize * (i + n) ≤ 0x1000 →
      Ends (loadSegments host fd load (b.addr + 16) n i) s
        (fun ret s' =>
          Short (areasCost ((segmentsFrom content n i).flatMap (Phdr.areas content load)))
            s s' ∧ ret = some (-eNOMEM) ∨
          s'.refused = s.refused ∧ SegmentEnds
            ((∃ blocks' leaf',
              Laid ((segmentsFrom content n i).flatMap (Phdr.areas content load)) s blocks leaf s'
                blocks' leaf') ∧ LastOk s')
            (segmentsVerdict errno load (segmentsFrom content n i)) ret)
        fun _ s' =>
          Short (areasCost ((segmentsFrom content n i).flatMap (Phdr.areas content load)))
            s s' ∨
          s'.refused = s.refused ∧ segmentsVerdict errno load (segmentsFrom content n i) = .bad
  | 0, i, s, blocks, leaf, inv, hlast, hfd, hbuf, hend =>
    ends_pure.mpr (.inr ⟨rfl, .loads ⟨⟨_, _, .nil _ _ _⟩, hlast⟩⟩)
  | n + 1, i, s, blocks, leaf, inv, hlast, hfd, hbuf, hend => by
    change 64 + 56 * (i + (n + 1)) ≤ 0x1000 at hend
    have htail : ehdrSize + phdrSize * (i + 1 + n) ≤ 0x1000 := by
      show 64 + 56 * (i + 1 + n) ≤ 0x1000
      omega
    have hhere : ehdrSize + phdrSize * i + phdrSize ≤ 0x1000 := by
      show 64 + 56 * i + 56 ≤ 0x1000
      omega
    have hword : ehdrSize + phdrSize * i + 4 ≤ 0x1000 := by
      show 64 + 56 * i + 4 ≤ 0x1000
      omega
    have hrest :=
      fun {s : Sys σ} {blocks leaf} (inv : KernelInv s.heap blocks leaf) hlast hfd hbuf =>
        loadSegments_spec hfile hload b n (i + 1) inv hlast hfd hbuf htail
    rw [loadSegments, ends_bind_of_ok (field_spec inv hbuf hword), segmentsFrom]
    by_cases htype : fileField content (ehdrSize + phdrSize * i) 4 = ptLoad
    · rw [if_pos htype, if_pos (show isLoad content i = true from beq_iff_eq.mpr htype),
        ends_bind_of_ok (readPhdr_spec inv hbuf hhere)]
      have hseg := loadSegment_spec hfile inv hlast hfd hload (phdrAt_words content i)
      have hbad : (phdrAt content i).verdict errno load = .bad → segmentsVerdict errno load
          (phdrAt content i :: segmentsFrom content n (i + 1)) = .bad := fun h => by
        rw [segmentsVerdict, h]
      have hsum : areasCost ((phdrAt content i :: segmentsFrom content n (i + 1)).flatMap
          (Phdr.areas content load)) = areasCost ((phdrAt content i).areas content load) +
          areasCost ((segmentsFrom content n (i + 1)).flatMap (Phdr.areas content load)) := by
        rw [List.flatMap_cons, areasCost_append]
      refine Ends.bind (hseg.mono (fun _ _ h => h) fun _ _ h =>
        h.imp (fun h => h.mono (by omega)) fun h => ⟨h.1, hbad h.2⟩) ?_
      rintro ret s₁ (⟨hshort, rfl⟩ | ⟨href, hends⟩)
      · exact ends_pure.mpr (.inl ⟨hshort.mono (by omega), rfl⟩)
      · generalize hv : (phdrAt content i).verdict errno load = verdict at hends
        cases hends with
        | loads h =>
          obtain ⟨⟨blocks₁, leaf₁, hl⟩, hlast₁⟩ := h
          have hverdict : segmentsVerdict errno load (phdrAt content i :: segmentsFrom content n
              (i + 1)) = segmentsVerdict errno load (segmentsFrom content n (i + 1)) := by
            rw [segmentsVerdict, hv]
          have hafter : ∀ {s₂}, Short (areasCost
            ((segmentsFrom content n (i + 1)).flatMap (Phdr.areas content load))) s₁ s₂ →
            Short (areasCost ((phdrAt content i :: segmentsFrom content n (i + 1)).flatMap
            (Phdr.areas content load))) s s₂ :=
            fun h => (h.after hl.room).mono (Nat.le_of_eq hsum.symm)
          rw [hverdict]
          refine (hrest (hl.inv inv) hlast₁ ⟨hfd.1, hl.table ▸ hfd.2⟩ (hbuf.laid hl)).mono
            (fun ret s₂ h => h.imp (fun h => ⟨hafter h.1, h.2⟩) fun h => ⟨h.1.trans href,
            h.2.mono ?_⟩) fun _ _ h => h.imp hafter fun h => ⟨h.1.trans href, h.2⟩
          rintro ⟨⟨blocks', leaf', hl'⟩, hlast₂⟩
          exact ⟨⟨blocks', leaf', hl.append hl'⟩, hlast₂⟩
        | rejects r =>
          rw [segmentsVerdict, hv]
          exact ends_pure.mpr (.inr ⟨href, .rejects r⟩)
        | bad hr =>
          rw [hbad hv]
          exact ends_pure.mpr (.inr ⟨href, .bad hr⟩)
    · rw [if_neg htype,
        if_neg (show ¬ isLoad content i = true from fun h => htype (beq_iff_eq.mp h))]
      exact hrest inv hlast hfd hbuf

/-! ## The stack, and the whole loader -/

/-- The area of the stack. -/
def stackArea : Area := ⟨0x7ffffffbf, 0x40, protRW, fun _ => 0⟩

/-- **The stack.** -/
theorem setUpStack_spec (inv : KernelInv s.heap blocks leaf) (hlast : LastOk s) (p : Process) :
    Ends (setUpStack p) s
      (fun r s' => r.2 =
        { p with stackBase := 0x7ffffffff000, stackSize := 0x40000, rsp := 0x7fffffffe000 } ∧
        (Short (areaCost 0x40) s s' ∧ r.1 = -eNOMEM ∨
          r.1 = 0 ∧ (∃ c, Adds s s' blocks leaf stackArea c) ∧ LastOk s'))
      fun _ => Short (areaCost 0x40) s := by
  have hmap := doMmap_spec inv hlast (show 0x7ffffffbf < 2 ^ 52 by decide)
    (show 0 < 0x40 by decide) protRW
  have hbase : 0x7ffffffff000 - 0x40000 = 0x1000 * 0x7ffffffbf := by decide
  unfold setUpStack
  dsimp only
  rw [hbase]
  refine Ends.bind (hmap.mono (fun _ _ h => h) fun e s₁ h =>
    (h.resolve_right fun h => h.2.1 (by decide)).mono (by decide)) ?_
  rintro a s₁ (⟨c, rfl, -, ha, -, hlast₁⟩ | ⟨rfl, hbig, -⟩ | ⟨rfl, -, hshort⟩)
  · rw [if_neg (fun h => h rfl), ends_pure]
    exact ⟨rfl, .inr ⟨rfl, ⟨c, ha⟩, hlast₁ (by decide)⟩⟩
  · exact absurd hbig (by decide)
  · rw [if_pos (by decide), ends_pure]
    exact ⟨rfl, .inl ⟨hshort.mono (by decide), rfl⟩⟩

/-- What becomes of the file. -/
def elfVerdict (errno : Int) (content : List UInt8) : Verdict :=
  match headerCheck content with
  | .error ret => .rejects ret
  | .ok n => segmentsVerdict errno (loadAddrOf content) (segmentsFrom content n 0)

/-- The areas of the program: its segments in order, and the stack. -/
def elfAreas (content : List UInt8) : List Area :=
  (segmentsFrom content (fileField content 56 2) 0).flatMap
    (Phdr.areas content (loadAddrOf content)) ++ [stackArea]

/-- What the buffer and the request for its bytes can cost of the unused memory. -/
def headCost : Nat := 0x3200

/-- The loader has its buffer, the block `b`, and nothing else has changed. -/
structure HeadRead (s s' : Sys σ) (blocks : List Extent) (leaf : Nat → Nat)
    (content : List UInt8) (b : Extent) : Prop where
  inv : KernelInv s'.heap (b :: blocks) leaf
  buffer : Buffered s' (b :: blocks) content b
  kept : ∀ x, Payload blocks x → s'.mem x = s.mem x
  table : s'.fds.table = s.fds.table
  last : s'.kernel.lastMmapped = s.kernel.lastMmapped
  refused : s'.refused = s.refused
  handed : s'.handed = s.handed
  room : s.room ≤ s'.room + headCost

/-- The program is in memory: first the loader's buffer was filled, then the areas were laid
down. -/
def Loaded (s s' : Sys σ) (blocks : List Extent) (leaf : Nat → Nat) (content : List UInt8)
    (blocks' : List Extent) (leaf' : Nat → Nat) : Prop :=
  ∃ s₀ b, HeadRead s s₀ blocks leaf content b ∧
    Laid (elfAreas content) s₀ (b :: blocks) leaf s' blocks' leaf'

/-- How the loader ends, by the verdict. -/
inductive LoadEnds (done : Prop) : Verdict → Int → Prop
  | loads (h : done) : LoadEnds done .loads 0
  | rejects (ret : Int) : LoadEnds done (.rejects ret) ret
  | bad {ret : Int} (h : ret < 0) : LoadEnds done .bad ret

/-- **The start of the loader**: the buffer holds the first page of the file. -/
theorem readHead_spec (hfile : FileHost host rfd content errno pos)
    (inv : KernelInv s.heap blocks leaf) (hfd : Opened s.fds fd rfd) (hpos : pos s.world = 0)
    {β : Type} {f : Nat → KernelM σ β} {Q : β → Sys σ → Prop} {E : Stop → Sys σ → Prop}
    (hE : ∀ e s', Short headCost s s' → E e s')
    (hf : ∀ b s₁, HeadRead s s₁ blocks leaf content b → Ends (f (b.addr + 16)) s₁ Q E) :
    Ends (do
      let buf ← doKmalloc bufSize mallocNoAlign
      let pa ← ofExec (physical buf)
      let _ ← hpRead host fd pa bufSize
      f buf) s Q E := by
  obtain ⟨tabs, rep⟩ := inv.rep
  rcases doKmalloc_cases rep (.inl rfl) (show bufSize < 2 ^ 32 by decide) with ⟨-, b, s₁, hok,
    ht⟩ | ⟨-, hno⟩
  · have hb := ht.alloc.rep.inv.bounds (e := b) List.mem_cons_self
    have hfits : 0x1000 + 16 ≤ b.size := ht.alloc.fits
    unfold Extent.fin at hb
    obtain ⟨q, hq⟩ : ∃ q, b.addr + 16 = 0x8000000000 + q :=
      ⟨b.addr + 16 - 0x8000000000, by omega⟩
    have hphys : ofExec (physical (b.addr + 16)) s₁ = .ok q s₁ := by
      rw [hq, physical_window (by omega)]
      rfl
    have hown : BufferOwned (b :: blocks) q bufSize := by
      refine ⟨by unfold bufSize; omega, fun x h₁ h₂ => ⟨b, List.mem_cons_self, by omega, ?_⟩⟩
      unfold bufSize at h₂
      unfold Extent.fin
      omega
    have hread := hpRead_file hfile ht.alloc.rep.inv ⟨hfd.1, ht.fds ▸ hfd.2⟩ hown (by decide)
    rw [← hq, show pos s₁.world = 0 from ht.world ▸ hpos] at hread
    rw [ends_bind_of_ok hok, ends_bind_of_ok hphys]
    have hroom : s.room ≤ s₁.room + 0x2090 := by
      have hleft := ht.alloc.room
      have hs : s.room = s.heap.arena.topSize := rfl
      have hs₁ : s₁.room = s₁.heap.arena.topSize := rfl
      have hsize : bufSize = 0x1000 := rfl
      omega
    refine (hread.mono (fun _ _ h => h) fun e s' h =>
      hE e s' ((h.after hroom).mono (by decide))).bind fun _ s₂ h₂ => ?_
    obtain ⟨hsteady, hbytes, -⟩ := h₂
    refine hf b s₂ ⟨hsteady.inv, ⟨List.mem_cons_self, hfits, fun i hi => ?_⟩, fun x hx => ?_,
      ?_, ?_, ?_, ?_, ?_⟩
    · have hzero : s₁.mem (b.addr + 16 + i) = 0 := ht.alloc.zero _ (by omega)
        (by unfold bufSize; omega)
      rw [hbytes i hi, hzero, Nat.zero_add]
      rfl
    · have hnot := hx.not_own tabs
      have hout : ¬ (b.addr + 16 ≤ x ∧ x < b.addr + 16 + bufSize) := fun hin =>
        hnot (ht.alloc.rep.own_of_has
          ⟨by omega, by unfold Extent.fin; unfold bufSize at hin; omega⟩)
      obtain ⟨e, he, hex⟩ := hx
      rw [hsteady.kept x ⟨e, List.mem_cons_of_mem _ he, hex⟩ hout, ht.mem x hnot]
    · rw [hsteady.table, ht.fds]
    · rw [hsteady.last, ht.last]
    · rw [hsteady.refused, ht.refused]
    · rw [hsteady.handed, ht.handed]
    · have hleft := hsteady.room
      have hcost : headCost = 0x3200 := rfl
      omega
  · have hroom : s.room < bufSize + 0x1090 := hno.out (fun _ _ h => h.2.short)
      fun _ _ h => h.1.short
    have hshort : ∀ {s'}, s'.refused = true → Short headCost s s' := fun h =>
      ⟨h, Nat.lt_trans hroom (by decide)⟩
    refine (hno.mono (fun _ _ h => h) fun e s' h => hE e s' (hshort h.1.refused)).bind
      fun p s₁ h₁ => ?_
    have hphys : ofExec (physical p) s₁ = .error (.panic .physicalNonKernel) s₁ := by
      rw [h₁.1, physical_null]
      rfl
    rw [ends_bind_of_error hphys]
    exact hE _ _ (hshort h₁.2.refused)

/-- What the file can cost of the unused memory. -/
def elfCost (content : List UInt8) : Nat := headCost + areasCost (elfAreas content)

/-- **`load_binary`** on a file, unless memory runs out. -/
theorem loadBinary_spec (hfile : FileHost host rfd content errno pos)
    (inv : KernelInv s.heap blocks leaf) (hlast : LastOk s) (hfd : Opened s.fds fd rfd)
    (hpos : pos s.world = 0) (p : Process) :
    Ends (loadBinary host fd p) s
      (fun r s' => Short (elfCost content) s s' ∧ r.1 = -eNOMEM ∨
        s'.refused = s.refused ∧ LoadEnds
          ((∃ blocks' leaf', Loaded s s' blocks leaf content blocks' leaf') ∧ LastOk s' ∧
          r.2.loadAddr = loadAddrOf content ∧ r.2.entry = fileField content 24 8 ∧
            r.2.rsp = 0x7fffffffe000)
          (elfVerdict errno content) r.1)
      fun _ s' => Short (elfCost content) s s' ∨ s'.refused = s.refused ∧
        elfVerdict errno content = .bad := by
  have hcost : elfCost content = headCost + areasCost (elfAreas content) := rfl
  unfold loadBinary
  refine readHead_spec hfile inv hfd hpos (fun _ _ h => .inl (h.mono (by omega)))
    fun b s₁ h₁ => ?_
  obtain ⟨p₁, hcheck, hp₁⟩ := checkHeader_spec h₁.inv h₁.buffer p
  rw [ends_bind_of_ok hcheck]
  cases hhead : headerCheck content with
  | error ret =>
    rw [elfVerdict, hhead]
    exact ends_pure.mpr (.inr ⟨h₁.refused, .rejects ret⟩)
  | ok n =>
    obtain ⟨hn, hend⟩ := headerCheck_ok hhead
    obtain ⟨hload, hentry⟩ := hp₁ n hhead
    have hverdict : elfVerdict errno content =
        segmentsVerdict errno (loadAddrOf content) (segmentsFrom content n 0) := by
      rw [elfVerdict, hhead]
    have hsegs := loadSegments_spec hfile (loadAddrOf_mod content) b n 0 h₁.inv (hlast.imp
      h₁.last.trans h₁.last.trans) ⟨hfd.1, h₁.table ▸ hfd.2⟩ h₁.buffer (by rwa [Nat.zero_add])
    have hsum : areasCost (elfAreas content) = areasCost ((segmentsFrom content n 0).flatMap
        (Phdr.areas content (loadAddrOf content))) + areaCost 0x40 := by
      rw [elfAreas, ← hn, areasCost_append]
      rfl
    simp only [hload]
    rw [hverdict]
    refine Ends.bind (hsegs.mono (fun _ _ h => h) fun _ _ h =>
      h.imp (fun h => (h.after h₁.room).mono (by omega)) fun h =>
        ⟨h.1.trans h₁.refused, h.2⟩) ?_
    rintro ret s₂ (⟨hshort, rfl⟩ | ⟨href, hends⟩)
    · exact ends_pure.mpr (.inl ⟨(hshort.after h₁.room).mono (by omega), rfl⟩)
    · generalize segmentsVerdict errno (loadAddrOf content) (segmentsFrom content n 0) =
        verdict at hends ⊢
      cases hends with
      | loads h =>
        obtain ⟨⟨blocks₂, leaf₂, hl⟩, hlast₂⟩ := h
        have hafter : ∀ {s₃}, Short (areaCost 0x40) s₂ s₃ → Short (elfCost content) s s₃ :=
          fun h => ((h.after hl.room).after h₁.room).mono (by omega)
        refine (setUpStack_spec (hl.inv h₁.inv) hlast₂ p₁).mono (fun r s₃ h => ?_) fun _ _ h =>
          .inl (hafter h)
        obtain ⟨hp, ⟨hshort, hret⟩ | ⟨hret, ⟨c, ha⟩, hlast₃⟩⟩ := h
        · exact .inl ⟨hafter hshort, hret⟩
        · have hall := hl.append (.single ha)
          rw [hn] at hall
          rw [hret, hp]
          exact .inr ⟨ha.refused.trans (href.trans h₁.refused),
            .loads ⟨⟨_, _, s₁, b, h₁, hall⟩, hlast₃, hload, hentry, rfl⟩⟩
      | rejects ret => exact ends_pure.mpr (.inr ⟨href.trans h₁.refused, .rejects ret⟩)
      | bad h => exact ends_pure.mpr (.inr ⟨href.trans h₁.refused, .bad h⟩)

/-- `load_binary` is called for a file that was just opened, by a kernel in order. -/
structure Ready (host : Host σ) (s : Sys σ) (fd rfd : Int) (content : List UInt8) (errno : Int)
    (pos : σ → Nat) : Prop where
  file : FileHost host rfd content errno pos
  kernel : s.kernel.Inv
  last : LastOk s
  opened : Opened s.fds fd rfd
  start : pos s.world = 0

/-! ## What the verdicts say -/

theorem headerCheck_error {ret : Int} (h : headerCheck content = .error ret) :
    -4095 ≤ ret ∧ ret < 0 := by
  have hret : ret = -eNOEXEC ∨ ret = -eINVAL := by
    unfold headerCheck at h
    dsimp only at h
    split at h
    · exact .inl (Except.error.inj h).symm
    split at h
    · exact .inl (Except.error.inj h).symm
    split at h
    · exact .inr (Except.error.inj h).symm
    split at h
    · exact .inr (Except.error.inj h).symm
    split at h
    · exact .inr (Except.error.inj h).symm
    · cases h
  rcases hret with rfl | rfl <;> decide

theorem Phdr.bssVerdict_rejects {ph : Phdr} {load : Nat} {ret : Int}
    (h : ph.bssVerdict load = .rejects ret) : -4095 ≤ ret ∧ ret < 0 := by
  unfold Phdr.bssVerdict at h
  split at h
  · split at h
    · rw [← Verdict.rejects.inj h]
      decide
    · split at h <;> cases h
  · cases h

theorem Phdr.verdict_rejects {ph : Phdr} {load : Nat} {ret : Int}
    (h : ph.verdict errno load = .rejects ret) : -4095 ≤ ret ∧ ret < 0 := by
  unfold Phdr.verdict at h
  split at h
  · exact Phdr.bssVerdict_rejects h
  · exact Phdr.fileVerdict_rejects h

theorem segmentsVerdict_rejects {load : Nat} {ret : Int} :
    ∀ {l : List Phdr}, segmentsVerdict errno load l = .rejects ret → -4095 ≤ ret ∧ ret < 0
  | [], h => by cases h
  | ph :: l, h => by
    rw [segmentsVerdict] at h
    split at h
    · exact segmentsVerdict_rejects h
    · exact Phdr.verdict_rejects h

/-- A file is turned down with a proper error number. -/
theorem elfVerdict_rejects {ret : Int} (h : elfVerdict errno content = .rejects ret) :
    -4095 ≤ ret ∧ ret < 0 := by
  unfold elfVerdict at h
  split at h
  · next hhead => exact Verdict.rejects.inj h ▸ headerCheck_error hhead
  · exact segmentsVerdict_rejects h

theorem segmentsVerdict_loads {load : Nat} :
    ∀ {l : List Phdr}, segmentsVerdict errno load l = .loads →
      ∀ ph ∈ l, ph.fileVerdict errno load = .loads
  | [], _, ph, hph => absurd hph List.not_mem_nil
  | ph :: l, h, ph', hph' => by
    rw [segmentsVerdict] at h
    cases hv : ph.verdict errno load with
    | loads =>
      rw [hv] at h
      rcases List.mem_cons.mp hph' with rfl | hmem
      · unfold Phdr.verdict at hv
        split at hv
        · assumption
        · exact hv
      · exact segmentsVerdict_loads h ph' hmem
    | rejects ret =>
      rw [hv] at h
      cases h
    | bad =>
      rw [hv] at h
      cases h

theorem elfVerdict_loads (h : elfVerdict errno content = .loads) :
    ∀ ph ∈ segmentsFrom content (fileField content 56 2) 0,
      ph.fileVerdict errno (loadAddrOf content) = .loads := by
  unfold elfVerdict at h
  split at h
  · cases h
  · next n hhead =>
    rw [← (headerCheck_ok hhead).1]
    exact segmentsVerdict_loads h

/-! ## Files that cannot be loaded -/

/-- The end of a run: the state. -/
def endState {α : Type} : EStateM.Result Stop (Sys σ) α → Sys σ
  | .ok _ s => s
  | .error _ s => s

/-- `load_binary` deals with the file properly: it returns, and its result is 0 or the error
number of the check that the file fails. -/
def FailsWell (errno : Int) (content : List UInt8) :
    EStateM.Result Stop (Sys σ) (Int × Process) → Prop
  | .ok r _ => r.1 = 0 ∨ -4095 ≤ r.1 ∧ r.1 ≤ -1 ∧ elfVerdict errno content = .rejects r.1
  | .error _ _ => False

/-- **Which files the loader deals with properly**: those for which the first segment that is
not mapped is one that a check turns down. -/
theorem loadBinary_failsWell_iff (host : Host σ) (s : Sys σ) (fd rfd errno : Int)
    (content : List UInt8) (pos : σ → Nat) (p : Process)
    (hready : Ready host s fd rfd content errno pos)
    (hlasts : (endState (loadBinary host fd p s)).refused = false) :
    FailsWell errno content (loadBinary host fd p s) ↔ elfVerdict errno content ≠ .bad := by
  obtain ⟨blocks, leaf, inv⟩ := hready.kernel
  have hspec := loadBinary_spec hready.file inv hready.last hready.opened hready.start p
  cases hrun : loadBinary host fd p s with
  | ok r s' =>
    rw [hrun] at hlasts
    rcases (ends_of_ok hrun).mp hspec with ⟨hshort, -⟩ | ⟨-, hends⟩
    · exact absurd hshort.refused (ne_true_of_eq_false hlasts)
    show (r.1 = 0 ∨ -4095 ≤ r.1 ∧ r.1 ≤ -1 ∧ elfVerdict errno content = .rejects r.1) ↔ _
    generalize hv : elfVerdict errno content = verdict at hends
    generalize r.1 = ret at hends ⊢
    cases hends with
    | loads h => exact ⟨fun _ => nofun, fun _ => .inl rfl⟩
    | rejects ret =>
      have hret := elfVerdict_rejects hv
      exact ⟨fun _ => nofun, fun _ => .inr ⟨hret.1, by omega, rfl⟩⟩
    | bad h =>
      exact ⟨fun hgood => absurd hgood
        (by rintro (h₀ | ⟨-, -, h₁⟩); exacts [h.ne h₀, nomatch h₁]), fun hne => absurd rfl hne⟩
  | error e s' =>
    rw [hrun] at hlasts
    rcases (ends_of_error hrun).mp hspec with hshort | ⟨-, hbad⟩
    · exact absurd hshort.refused (ne_true_of_eq_false hlasts)
    · exact ⟨False.elim, fun hne => absurd hbad hne⟩

/-! ## A kernel that has just booted -/

/-- A fresh kernel has room for every file that costs at most its whole heap. -/
theorem loadBinary_boot (content : List UInt8) (hcost : elfCost content ≤ 0x200000)
    (p : Process) :
    ∃ k : Kernel, Booted k ∧ Ready (fileHost 0 content) (Sys.start k 0) 0 0 content 0 id ∧
      Ends (loadBinary (fileHost 0 content) 0 p) (Sys.start k 0)
        (fun r s' => s'.refused = false ∧ LoadEnds True (elfVerdict 0 content) r.1)
        fun _ s' => s'.refused = false ∧ elfVerdict 0 content = .bad := by
  obtain ⟨k, hk, inv, hlast, harena, -⟩ := kernelBoot_spec (m := fun _ => 0) fun _ _ _ => rfl
  have hroom : (Sys.start k 0).room = 0x200000 := by
    show k.heap.arena.topSize = _
    rw [harena]
  have hready : Ready (fileHost 0 content) (Sys.start k 0) 0 0 content 0 id :=
    ⟨fileHost_file 0 content, ⟨_, _, inv⟩, .inl hlast, ⟨Int.le_refl 0, rfl⟩, rfl⟩
  have hshort : ∀ {s'}, ¬ Short (elfCost content) (Sys.start k 0) s' := fun h => by
    have := h.room
    omega
  refine ⟨k, ⟨_, fun _ _ _ => rfl, hk⟩, hready, ?_⟩
  have hinv : KernelInv (Sys.start k 0).heap [] fun _ => 0 := inv
  refine (loadBinary_spec hready.file hinv hready.last hready.opened hready.start p).mono
    (fun r s' h => ?_) fun _ s' h => h.resolve_left hshort
  obtain ⟨href, hends⟩ := h.resolve_left fun h => hshort h.1
  refine ⟨href, ?_⟩
  generalize elfVerdict 0 content = verdict at hends ⊢
  generalize r.1 = ret at hends ⊢
  cases hends with
  | loads _ => exact .loads trivial
  | rejects ret => exact .rejects ret
  | bad h => exact .bad h

/-- A program of one page, linked to run at `vaddr`. -/
def onePage (vaddr : List UInt8) : List UInt8 :=
  [0x7f, 0x45, 0x4c, 0x46, 2, 1, 1, 0, 0, 0, 0, 0, 0, 0, 0, 0, 2, 0, 0x3e, 0, 1, 0, 0,
    0] ++ vaddr ++
  [64, 0, 0, 0, 0, 0, 0, 0, 0, 0, 0, 0, 0, 0, 0, 0, 0, 0, 0, 0, 64, 0, 56, 0, 1, 0, 0, 0,
    0, 0, 0, 0] ++
  [1, 0, 0, 0, 5, 0, 0, 0, 0, 0, 0, 0, 0, 0, 0, 0] ++ vaddr ++ vaddr ++
  [120, 0, 0, 0, 0, 0, 0, 0, 120, 0, 0, 0, 0, 0, 0, 0, 0, 0x10, 0, 0, 0, 0, 0, 0]

/-- It runs at 0x400000. -/
def helloElf : List UInt8 := onePage [0, 0, 0x40, 0, 0, 0, 0, 0]

/-- It asks for address 0, which `mmap` takes for no wish at all. -/
def zeroElf : List UInt8 := onePage [0, 0, 0, 0, 0, 0, 0, 0]

theorem helloElf_loads : elfVerdict 0 helloElf = .loads := by decide +kernel

theorem zeroElf_bad : elfVerdict 0 zeroElf = .bad := by decide +kernel

/-- The program at 0x400000 is loaded by a fresh kernel. -/
theorem loadBinary_failsWell_hello :
    ∃ k : Kernel, Booted k ∧
      FailsWell 0 helloElf (loadBinary (fileHost 0 helloElf) 0 ⟨0, 0, 0, 0, 0⟩
        (Sys.start k 0)) := by
  obtain ⟨k, hk, hready, hends⟩ := loadBinary_boot helloElf (by decide +kernel) ⟨0, 0, 0, 0, 0⟩
  refine ⟨k, hk, (loadBinary_failsWell_iff _ _ _ _ _ _ _ _ hready ?_).mpr
    (by rw [helloElf_loads]; nofun)⟩
  cases hrun : loadBinary (fileHost 0 helloElf) 0 ⟨0, 0, 0, 0, 0⟩ (Sys.start k 0) with
  | ok r s' => exact ((ends_of_ok hrun).mp hends).1
  | error e s' => exact ((ends_of_error hrun).mp hends).1

/-- **A file that the loader does not deal with properly**, although memory lasts. -/
theorem loadBinary_zero_bad :
    ∃ k : Kernel, Booted k ∧
      let r := loadBinary (fileHost 0 zeroElf) 0 ⟨0, 0, 0, 0, 0⟩ (Sys.start k 0)
      (endState r).refused = false ∧ ¬ FailsWell 0 zeroElf r := by
  obtain ⟨k, hk, -, hends⟩ := loadBinary_boot zeroElf (by decide +kernel) ⟨0, 0, 0, 0, 0⟩
  refine ⟨k, hk, ?_⟩
  cases hrun : loadBinary (fileHost 0 zeroElf) 0 ⟨0, 0, 0, 0, 0⟩ (Sys.start k 0) with
  | ok r s' =>
    obtain ⟨href, hend⟩ := (ends_of_ok hrun).mp hends
    rw [zeroElf_bad] at hend
    refine ⟨href, ?_⟩
    rintro (h₀ | ⟨-, -, hrej⟩)
    · rw [h₀] at hend
      cases hend with
      | bad h => exact h.ne rfl
    · rw [zeroElf_bad] at hrej
      cases hrej
  | error e s' => exact ⟨((ends_of_error hrun).mp hends).1, id⟩

end BpfExamples.Kvm
