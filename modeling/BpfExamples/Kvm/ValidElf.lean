import BpfExamples.Kvm.LoadedImage

/-!
# Which valid ELF files the loader accepts

`ValidElf` says what a loader of this kind has to accept. The file part of a segment is what
decides about it (`Phdr.Proper.verdict`): `sys_mmap` turns an empty one down, everything else
is mapped. The other files that are turned down are those whose identification names an ABI.
-/

namespace BpfExamples.Kvm

open Mem

variable {σ : Type} {s : Sys σ} {errno : Int} {content : List UInt8}

/-! ## The verdict on a proper segment -/

/-- Pages that are all the user's do not reach over the kernel's slot when they are few. -/
theorem inUser_of_pages {v n : Nat} (hn : 0 < n) (hlt : n < 2 ^ 20)
    (h : ∀ q, v ≤ q → q < v + n → userMemRangeOk (0x1000 * q) = true) : InUser v n := by
  have hfirst := userMemRangeOk_iff.mp (h v (Nat.le_refl v) (Nat.lt_add_of_pos_right hn))
  have hlast := userMemRangeOk_iff.mp (h (v + n - 1) (by omega) (by omega))
  refine (inUserRange_iff (by omega) hn hlt).mp fun j hj => ?_
  have hpage : pageAt (0x1000 * v) 0 j = 0x1000 * (v + j) := by
    unfold pageAt
    omega
  rw [hpage]
  exact h _ (Nat.le_add_right v j) (Nat.add_lt_add_left hj v)

namespace Phdr

variable {ph : Phdr} {load : Nat}

/-- The file part of a proper segment is mapped unless it is empty. -/
theorem Proper.fileVerdict (hp : ph.Proper content load) (hload : load % 0x1000 = 0)
    (hpos : 0 < ph.fileLen) (hfew : ph.pageHi load - ph.pageLo load < 2 ^ 20) :
    ph.fileVerdict errno load = .loads := by
  obtain ⟨hst, hlen, hal, hed, hbss, hlt, hhi⟩ := hp.layout hload hpos
  have hsizes := hp.sizes
  have hsmall := hp.small
  have hcong := hp.congruent
  have hlo' : ph.pageLo load = (load + ph.vaddr) / 0x1000 := rfl
  have hhi' : ph.pageHi load = (load + ph.vaddr + ph.memsz + 0xfff) / 0x1000 := rfl
  have hpage : ph.st load / 0x1000 = ph.pageLo load := by omega
  have hcount : alignup ph.fileLen / 0x1000 = (ph.fileLen + 0xfff) / 0x1000 := by omega
  have hin : (ph.fileLen + 0xfff) / 0x1000 ≤ ph.pageHi load - ph.pageLo load := by omega
  have huser : InUser (ph.pageLo load) ((ph.fileLen + 0xfff) / 0x1000) :=
    inUser_of_pages (by omega) (by omega) fun q h₁ h₂ => hp.user q h₁ (by omega)
  have hfirst := hp.user _ (Nat.le_refl _) hlt
  -- the part starts below 2^31, where the host's `lseek` goes
  have hseek : 0 ≤ seekResult errno (aligndown ph.offset % 2 ^ 32) := by
    have hoff : aligndown ph.offset % 2 ^ 32 < 2 ^ 31 := by
      rw [aligndown_eq]
      omega
    rw [seekResult, if_pos hoff]
    exact Int.natCast_nonneg _
  rw [Phdr.fileVerdict, mapVerdict, hpage, hcount, if_neg, if_neg (by omega),
    if_neg (by omega), if_neg]
  · rintro (h | h)
    · exact h huser
    · omega
  · rintro (h | h)
    · omega
    · exact absurd (h.2.symm.trans hfirst) (by decide)

/-- So are the pages behind it. -/
theorem Proper.bssVerdict (hp : ph.Proper content load) (hload : load % 0x1000 = 0)
    (hpos : 0 < ph.fileLen) (hfew : ph.pageHi load - ph.pageLo load < 2 ^ 20) :
    ph.bssVerdict load = .loads := by
  obtain ⟨-, -, -, hed, hbss, hlt, hhi⟩ := hp.layout hload hpos
  have hsizes := hp.sizes
  have hlo' : ph.pageLo load = (load + ph.vaddr) / 0x1000 := rfl
  have hhi' : ph.pageHi load = (load + ph.vaddr + ph.memsz + 0xfff) / 0x1000 := rfl
  rw [Phdr.bssVerdict]
  by_cases hb : ph.HasBss load
  · have hne := hb.2
    have hlen : ph.bssLen load = ph.bssEd load - ph.ed load := by
      unfold bssLen
      omega
    have huser : InUser (ph.ed load / 0x1000) (ph.bssLen load / 0x1000) :=
      inUser_of_pages (by omega) (by omega) fun q h₁ h₂ => hp.user q (by omega) (by omega)
    rw [if_pos hb, if_neg (by omega), if_pos huser]
  · exact if_neg hb

/-- **The verdict on a proper segment**: it loads exactly if its file part is not empty. -/
theorem Proper.verdict (hp : ph.Proper content load) (hload : load % 0x1000 = 0)
    (hfew : ph.pageHi load - ph.pageLo load < 2 ^ 20) :
    ph.verdict errno load = .loads ↔ 0 < ph.fileLen := by
  constructor
  · intro h
    cases hf : ph.fileVerdict errno load with
    | loads => exact (fileVerdict_loads hf).1
    | rejects ret =>
      rw [Phdr.verdict, hf] at h
      cases h
    | bad =>
      rw [Phdr.verdict, hf] at h
      cases h
  · intro hpos
    rw [Phdr.verdict, hp.fileVerdict hload hpos hfew]
    exact hp.bssVerdict hload hpos hfew

end Phdr

/-! ## The verdict on a file -/

/-- All segments load if each one does. -/
theorem segmentsVerdict_eq_loads {load : Nat} {l : List Phdr} :
    segmentsVerdict errno load l = .loads ↔ ∀ ph ∈ l, ph.verdict errno load = .loads := by
  induction l with
  | nil => exact ⟨fun _ _ h => absurd h List.not_mem_nil, fun _ => rfl⟩
  | cons ph l ih =>
    rw [List.forall_mem_cons, ← ih, segmentsVerdict]
    cases ph.verdict errno load with
    | loads => simp
    | rejects ret => simp
    | bad => simp

/-- The identification starts as that of a 64-bit little-endian file: magic number, class,
byte order and version. -/
def elfMagic : List Nat := elfIdent.take 7

/-- The bytes behind it name no ABI: they are zero. -/
def NoAbi (content : List UInt8) : Prop := sameAt (fileMem content) (elfIdent.drop 7) 7 = true

instance (content : List UInt8) : Decidable (NoAbi content) :=
  inferInstanceAs (Decidable (_ = _))

theorem sameAt_append (m : Mem) (l l' : List Nat) (i : Nat) :
    sameAt m (l ++ l') i = (sameAt m l i && sameAt m l' (i + l.length)) := by
  induction l generalizing i with
  | nil => rfl
  | cons c l ih =>
    show (_ && sameAt m (l ++ l') (i + 1)) =
      ((_ && sameAt m l (i + 1)) && sameAt m l' (i + (l.length + 1)))
    rw [ih, Bool.and_assoc, Nat.add_assoc, Nat.add_comm 1]

/-- A valid program: an executable or a shared object with its program headers behind the
header and in the first page, and a proper image without empty segments. -/
structure ValidElf (content : List UInt8) : Prop where
  ident : sameAt (fileMem content) elfMagic 0 = true
  type : fileField content 16 2 = etExec ∨ fileField content 16 2 = etDyn
  phoff : fileField content 32 8 = ehdrSize
  phentsize : fileField content 54 2 = phdrSize
  inPage : ehdrSize + phdrSize * fileField content 56 2 ≤ bufSize
  image : ImageOk content
  nonempty : ∀ i, i < fileField content 56 2 → isLoad content i = true →
    0 < (phdrAt content i).memsz

/-- Of a valid file the loader checks only that it names no ABI. -/
theorem ValidElf.headerCheck (h : ValidElf content) :
    headerCheck content = if NoAbi content then .ok (fileField content 56 2)
      else .error (-eNOEXEC) := by
  have hsplit : sameAt (fileMem content) elfIdent 0 =
      (sameAt (fileMem content) elfMagic 0 && sameAt (fileMem content) (elfIdent.drop 7) 7) :=
    sameAt_append (fileMem content) elfMagic (elfIdent.drop 7) 0
  rw [h.ident, Bool.true_and] at hsplit
  have htype : ¬ (fileField content 16 2 ≠ etExec ∧ fileField content 16 2 ≠ etDyn) :=
    fun hne => h.type.elim hne.1 hne.2
  rw [Kvm.headerCheck, hsplit, if_neg htype, if_neg (not_not.mpr h.phoff),
    if_neg (not_not.mpr h.phentsize), if_neg (Nat.not_lt.mpr h.inPage)]
  by_cases habi : NoAbi content
  · rw [if_pos habi, if_neg (ne_false_of_eq_true habi)]
  · rw [if_neg habi, if_pos (eq_false_of_ne_true habi)]

/-- No segment is larger than what one request can be for. -/
def SegmentsFit (content : List UInt8) : Prop :=
  ∀ i, i < fileField content 56 2 → isLoad content i = true →
    0x1000 * ((phdrAt content i).pageHi (loadAddrOf content) - (phdrAt content i).pageLo
      (loadAddrOf content)) < 2 ^ 32

/-- Every segment has a file part, counted from the start of its first page. -/
def NoBssOnly (content : List UInt8) : Prop :=
  ∀ i, i < fileField content 56 2 → isLoad content i = true →
    0 < (phdrAt content i).filesz + (phdrAt content i).offset % 0x1000

/-- **The verdict on a valid file.** -/
theorem ValidElf.verdict (h : ValidElf content) (hfit : SegmentsFit content) :
    elfVerdict errno content = .loads ↔ NoAbi content ∧ NoBssOnly content := by
  rw [elfVerdict, h.headerCheck]
  by_cases habi : NoAbi content
  · rw [if_pos habi]
    show segmentsVerdict errno _ (segmentsFrom content _ 0) = .loads ↔ _
    rw [segmentsVerdict_eq_loads, and_iff_right habi]
    have hone : ∀ i, i < fileField content 56 2 → isLoad content i = true →
        ((phdrAt content i).verdict errno (loadAddrOf content) = .loads ↔ 0 <
        (phdrAt content i).filesz + (phdrAt content i).offset % 0x1000) := fun i hi hload => by
      have hp := h.image.proper i hi hload
      have hlen : (phdrAt content i).fileLen =
          (phdrAt content i).filesz + (phdrAt content i).offset % 0x1000 := by
        have hsmall := hp.small
        unfold Phdr.fileLen
        omega
      have hfew := hfit i hi hload
      rw [hp.verdict (loadAddrOf_mod content) (by omega), hlen]
    constructor
    · intro hall i hi hload
      exact (hone i hi hload).mp
        (hall _ (mem_segmentsFrom.mpr ⟨i, Nat.zero_le i, by omega, hload, rfl⟩))
    · intro hall ph hph
      obtain ⟨i, -, hi, hload, rfl⟩ := mem_segmentsFrom.mp hph
      exact (hone i (by omega) hload).mpr (hall i (by omega) hload)
  · rw [if_neg habi]
    exact ⟨fun h => (by cases h), fun hboth => absurd hboth.1 habi⟩

/-! ## The loader -/

/-- `load_binary` returns 0. -/
def Loads (r : EStateM.Result Stop (Sys σ) (Int × Process)) : Prop := ∃ p s, r = .ok (0, p) s

/-- While memory lasts, the loader returns 0 for the files that load, and for no others. -/
theorem loadBinary_loads_iff {host : Host σ} {fd rfd : Int} {pos : σ → Nat} (p : Process)
    (hready : Ready host s fd rfd content errno pos)
    (hlasts : (endState (loadBinary host fd p s)).refused = false) :
    Loads (loadBinary host fd p s) ↔ elfVerdict errno content = .loads := by
  obtain ⟨blocks, leaf, inv⟩ := hready.kernel
  have hspec := loadBinary_spec hready.file inv hready.last hready.opened hready.start p
  cases hrun : loadBinary host fd p s with
  | error e s' =>
    rw [hrun] at hlasts
    rcases (ends_of_error hrun).mp hspec with hshort | ⟨-, hbad⟩
    · exact absurd hshort.refused (ne_true_of_eq_false hlasts)
    · rw [hbad]
      exact ⟨fun ⟨_, _, h⟩ => absurd h nofun, nofun⟩
  | ok r s' =>
    obtain ⟨ret, p'⟩ := r
    rw [hrun] at hlasts
    rcases (ends_of_ok hrun).mp hspec with ⟨hshort, -⟩ | ⟨-, hends⟩
    · exact absurd hshort.refused (ne_true_of_eq_false hlasts)
    have hret : Loads (.ok (ret, p') s' : EStateM.Result Stop (Sys σ) (Int × Process)) ↔
        ret = 0 := by
      constructor
      · rintro ⟨p₀, s₀, h⟩
        exact (Prod.mk.inj (EStateM.Result.ok.inj h).1).1
      · rintro rfl
        exact ⟨p', s', rfl⟩
    rw [hret]
    generalize hv : elfVerdict errno content = verdict at hends
    cases hends with
    | loads => exact ⟨fun _ => rfl, fun _ => rfl⟩
    | rejects =>
      have hneg := elfVerdict_rejects hv
      exact ⟨fun h => by omega, nofun⟩
    | bad h => exact ⟨fun h₀ => absurd h₀ h.ne, nofun⟩

/-- A fresh kernel's memory lasts. -/
theorem loadBinary_boot_lasts {host : Host Nat} {s : Sys Nat} {p : Process}
    {Q : Int × Process → Prop} {E : Prop}
    (hends : Ends (loadBinary host 0 p) s (fun r s' => s'.refused = false ∧ Q r) fun _ s' =>
      s'.refused = false ∧ E) :
    (endState (loadBinary host 0 p s)).refused = false := by
  cases hrun : loadBinary host 0 p s with
  | ok r s' => exact ((ends_of_ok hrun).mp hends).1
  | error e s' => exact ((ends_of_error hrun).mp hends).1

/-- **Which valid programs are loaded**: those that name no ABI and have no segment without a
file part. -/
theorem loadBinary_valid_iff (host : Host σ) (s : Sys σ) (fd rfd errno : Int)
    (content : List UInt8) (pos : σ → Nat) (p : Process)
    (hready : Ready host s fd rfd content errno pos) (hvalid : ValidElf content)
    (hfit : SegmentsFit content)
    (hlasts : (endState (loadBinary host fd p s)).refused = false) :
    Loads (loadBinary host fd p s) ↔ NoAbi content ∧ NoBssOnly content :=
  (loadBinary_loads_iff p hready hlasts).trans (hvalid.verdict hfit)

/-- A file with the one segment of `helloElf`, or with less of it in the file. -/
structure HelloLike (content : List UInt8) : Prop where
  ident : sameAt (fileMem content) elfMagic 0 = true
  type : fileField content 16 2 = etExec
  table : fileField content 32 8 = ehdrSize ∧ fileField content 54 2 = phdrSize ∧
    fileField content 56 2 = 1
  size : 120 ≤ content.length
  segment : ∃ n, n ≤ 120 ∧ phdrAt content 0 = ⟨5, 0, 0x400000, n, 120⟩

theorem HelloLike.valid (h : HelloLike content) : ValidElf content ∧ SegmentsFit content := by
  obtain ⟨hident, htype, ⟨hphoff, hphentsize, hnum⟩, hsize, n, hn, hph⟩ := h
  have hload : loadAddrOf content = 0 := by
    rw [loadAddrOf, htype]
    rfl
  have hzero : ∀ {i}, i < fileField content 56 2 → i = 0 := fun hi => by omega
  refine ⟨⟨hident, .inl htype, hphoff, hphentsize, ?_, ImageOk.single hnum hload hph hn hsize,
    ?_⟩, ?_⟩
  · rw [hnum]
    decide
  · intro i hi _
    rw [hzero hi, hph]
    exact (by decide : 0 < 120)
  · intro i hi _
    rw [hzero hi, hph, hload]
    exact (by decide :
      0x1000 * ((0 + 0x400000 + 120 + 0xfff) / 0x1000 - (0 + 0x400000) / 0x1000) < 2 ^ 32)

theorem helloElf_like : HelloLike helloElf :=
  ⟨by decide +kernel, by decide +kernel, by decide +kernel, by decide +kernel,
    120, by decide, by decide +kernel⟩

/-- The program at 0x400000 is a valid one, and a fresh kernel loads it. -/
theorem loadBinary_valid_hello :
    ∃ k : Kernel, Booted k ∧ ValidElf helloElf ∧
      Loads (loadBinary (fileHost 0 helloElf) 0 ⟨0, 0, 0, 0, 0⟩ (Sys.start k 0)) := by
  obtain ⟨k, hk, hready, hends⟩ := loadBinary_boot helloElf (by decide +kernel) ⟨0, 0, 0, 0, 0⟩
  obtain ⟨hvalid, hfit⟩ := helloElf_like.valid
  have hlasts := loadBinary_boot_lasts hends
  refine ⟨k, hk, hvalid,
    (loadBinary_valid_iff _ _ _ _ _ _ _ _ hready hvalid hfit hlasts).mpr ⟨?_, ?_⟩⟩
  · show sameAt _ _ _ = true
    decide +kernel
  · intro i hi _
    have hnum : fileField helloElf 56 2 = 1 := helloElf_like.table.2.2
    obtain rfl : i = 0 := by omega
    decide +kernel

/-- The same program with its segment all zero bytes, and none of them in the file. -/
def bssElf : List UInt8 := helloElf.set 96 0

/-- The same program, for the GNU ABI. -/
def gnuElf : List UInt8 := helloElf.set 7 3

theorem bssElf_like : HelloLike bssElf :=
  ⟨by decide +kernel, by decide +kernel, by decide +kernel, by decide +kernel,
    0, by decide, by decide +kernel⟩

theorem gnuElf_like : HelloLike gnuElf :=
  ⟨by decide +kernel, by decide +kernel, by decide +kernel, by decide +kernel,
    120, by decide, by decide +kernel⟩

theorem bssElf_rejected : elfVerdict 0 bssElf = .rejects (-eINVAL) := by decide +kernel

theorem gnuElf_rejected : elfVerdict 0 gnuElf = .rejects (-eNOEXEC) := by decide +kernel

/-- A valid program that a fresh kernel does not load, although memory lasts. -/
def NotLoaded (content : List UInt8) : Prop :=
  ∃ k : Kernel, Booted k ∧ ValidElf content ∧ SegmentsFit content ∧
    let r := loadBinary (fileHost 0 content) 0 ⟨0, 0, 0, 0, 0⟩ (Sys.start k 0)
    (endState r).refused = false ∧ ¬ Loads r

theorem HelloLike.notLoaded {content : List UInt8} {ret : Int} (hlike : HelloLike content)
    (hcost : elfCost content ≤ 0x200000) (hrej : elfVerdict 0 content = .rejects ret) :
    NotLoaded content := by
  obtain ⟨k, hk, hready, hends⟩ := loadBinary_boot content hcost ⟨0, 0, 0, 0, 0⟩
  have hlasts := loadBinary_boot_lasts hends
  refine ⟨k, hk, hlike.valid.1, hlike.valid.2, hlasts, fun hloads => ?_⟩
  have hv := (loadBinary_loads_iff _ hready hlasts).mp hloads
  exact absurd (hv.symm.trans hrej) nofun

/-- **Two valid programs that are not loaded.** -/
theorem loadBinary_valid_fails : NotLoaded bssElf ∧ NotLoaded gnuElf :=
  ⟨bssElf_like.notLoaded (by decide +kernel) bssElf_rejected,
    gnuElf_like.notLoaded (by decide +kernel) gnuElf_rejected⟩

end BpfExamples.Kvm
