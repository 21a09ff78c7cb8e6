import BpfExamples.Kvm.LoaderSpec

/-!
# The image that the loader leaves in memory

For a file whose `PT_LOAD` headers describe a proper image (`ImageOk`), the areas of its
segments share no page. So all of them are there when `load_binary` has returned 0
(`Laid.region`), and what is left is arithmetic: which byte of which area an address is.
-/

namespace BpfExamples.Kvm

open Mem

variable {σ : Type} {s s' : Sys σ} {blocks : List Extent} {leaf : Nat → Nat} {host : Host σ}
  {fd rfd errno : Int} {content : List UInt8} {pos : σ → Nat}

/-! ## Proper images -/

namespace Phdr

/-- The pages of the segment's memory range. -/
def pageLo (ph : Phdr) (load : Nat) : Nat := (load + ph.vaddr) / 0x1000
@[inherit_doc pageLo] def pageHi (ph : Phdr) (load : Nat) : Nat :=
  (load + ph.vaddr + ph.memsz + 0xfff) / 0x1000

/-- A segment that can be mapped from the file page by page. -/
structure Proper (ph : Phdr) (content : List UInt8) (load : Nat) : Prop where
  congruent : ph.vaddr % 0x1000 = ph.offset % 0x1000
  sizes : ph.filesz ≤ ph.memsz
  nowrap : load + ph.vaddr + ph.memsz < 2 ^ 64
  inside : ph.offset + ph.filesz ≤ content.length
  small : ph.offset + ph.filesz ≤ 2 ^ 31
  user : ∀ q, ph.pageLo load ≤ q → q < ph.pageHi load → userMemRangeOk (0x1000 * q) = true
  stack : ph.pageHi load ≤ 0x7ffffffbf ∨ 0x7ffffffff ≤ ph.pageLo load

/-- The page ranges of two segments are disjoint. -/
def Disjoint (load : Nat) (ph ph' : Phdr) : Prop :=
  ph.pageHi load ≤ ph'.pageLo load ∨ ph'.pageHi load ≤ ph.pageLo load

variable {ph : Phdr} {load : Nat}

/-- The rounded numbers of a proper segment that is not empty in the file. -/
theorem Proper.layout (hp : ph.Proper content load) (hload : load % 0x1000 = 0)
    (hpos : 0 < ph.fileLen) :
    ph.st load = 0x1000 * ph.pageLo load ∧ ph.fileLen = ph.filesz + ph.vaddr % 0x1000 ∧
      alignup ph.fileLen = 0x1000 * ((ph.fileLen + 0xfff) / 0x1000) ∧
      ph.ed load = 0x1000 * ((load + ph.vaddr + ph.filesz + 0xfff) / 0x1000) ∧
      ph.bssEd load = 0x1000 * ph.pageHi load ∧ ph.pageLo load < ph.pageHi load ∧
        ph.pageHi load ≤ 2 ^ 36 := by
  obtain ⟨hcong, hsizes, hwrap, -, hsmall, huser, -⟩ := hp
  have hlen : ph.fileLen = ph.filesz + ph.vaddr % 0x1000 := by
    unfold fileLen
    omega
  have hlo : ph.pageLo load = (load + ph.vaddr) / 0x1000 := rfl
  have hhi : ph.pageHi load = (load + ph.vaddr + ph.memsz + 0xfff) / 0x1000 := rfl
  have hlt : ph.pageLo load < ph.pageHi load := by omega
  -- the last page is a user page, so no rounding up wraps
  have hlast := userMemRangeOk_iff.mp (huser (ph.pageHi load - 1) (by omega) (by omega))
  have hround : ∀ x, x ≤ ph.memsz → (load + alignup ((ph.vaddr + x) % 2 ^ 64)) % 2 ^ 64 =
      0x1000 * ((load + ph.vaddr + x + 0xfff) / 0x1000) := fun x hx => by
    have hsum : (ph.vaddr + x) % 2 ^ 64 = ph.vaddr + x := Nat.mod_eq_of_lt (by omega)
    rw [hsum, alignup_eq (by omega)]
    omega
  refine ⟨?_, hlen, alignup_eq (by omega), hround _ hsizes, hround _ (Nat.le_refl _),
    hlt, by omega⟩
  rw [st, aligndown_eq]
  omega

/-- The areas of a proper segment are inside its page range, the zero pages behind the
others. -/
theorem Proper.areas (hp : ph.Proper content load) (hload : load % 0x1000 = 0)
    (hpos : 0 < ph.fileLen) :
    (∀ A ∈ ph.areas content load, ph.pageLo load ≤ A.page ∧ A.page + A.count ≤ ph.pageHi load) ∧
      (ph.areas content load).Pairwise Area.Apart := by
  obtain ⟨hst, hlen, hal, hed, hbss, hlt, hhi⟩ := hp.layout hload hpos
  have hsizes := hp.sizes
  have hlo' : ph.pageLo load = (load + ph.vaddr) / 0x1000 := rfl
  have hhi' : ph.pageHi load = (load + ph.vaddr + ph.memsz + 0xfff) / 0x1000 := rfl
  have hfile : ph.pageLo load ≤ (ph.fileArea content load).page ∧
      (ph.fileArea content load).page + (ph.fileArea content load).count =
      ph.ed load / 0x1000 := by
    show ph.pageLo load ≤ ph.st load / 0x1000 ∧
      ph.st load / 0x1000 + alignup ph.fileLen / 0x1000 = _
    omega
  have hzero : (ph.bssArea load).page = ph.ed load / 0x1000 ∧
      (ph.bssArea load).page + (ph.bssArea load).count = ph.pageHi load := by
    show _ ∧ ph.ed load / 0x1000 + ph.bssLen load / 0x1000 = _
    refine ⟨rfl, ?_⟩
    unfold bssLen
    omega
  have hedle : ph.ed load / 0x1000 ≤ ph.pageHi load := by omega
  unfold Phdr.areas Phdr.bssAreas
  by_cases hb : ph.HasBss load
  · rw [if_pos hb]
    refine ⟨fun A hA => ?_, ?_⟩
    · rcases List.mem_cons.mp hA with rfl | hA
      · omega
      · rw [List.mem_singleton.mp hA]
        omega
    · refine List.pairwise_cons.mpr ⟨fun B hB => ?_, List.pairwise_singleton _ _⟩
      rw [List.mem_singleton.mp hB]
      exact .inl (by omega)
  · rw [if_neg hb]
    refine ⟨fun A hA => ?_, List.pairwise_singleton _ _⟩
    rw [List.mem_singleton.mp hA]
    omega

end Phdr

/-- The `PT_LOAD` headers of the file describe a proper image. -/
structure ImageOk (content : List UInt8) : Prop where
  proper : ∀ i, i < fileField content 56 2 → isLoad content i = true →
    (phdrAt content i).Proper content (loadAddrOf content)
  disjoint : ∀ i j, i < fileField content 56 2 → j < fileField content 56 2 → i ≠ j →
    isLoad content i = true → isLoad content j = true →
      Phdr.Disjoint (loadAddrOf content) (phdrAt content i) (phdrAt content j)

/-! ## All areas share no page -/

theorem mem_segmentsFrom {ph : Phdr} :
    ∀ {n i : Nat}, ph ∈ segmentsFrom content n i ↔
      ∃ k, i ≤ k ∧ k < i + n ∧ isLoad content k = true ∧ ph = phdrAt content k
  | 0, i => by
    refine ⟨fun h => absurd h List.not_mem_nil, ?_⟩
    rintro ⟨k, h₁, h₂, -⟩
    omega
  | n + 1, i => by
    have ih : ph ∈ segmentsFrom content n (i + 1) ↔ _ := mem_segmentsFrom
    rw [segmentsFrom]
    constructor
    · intro h
      split at h
      · next hload =>
        rcases List.mem_cons.mp h with rfl | h
        · exact ⟨i, Nat.le_refl i, by omega, hload, rfl⟩
        · obtain ⟨k, h₁, h₂, hk⟩ := ih.mp h
          exact ⟨k, by omega, by omega, hk⟩
      · obtain ⟨k, h₁, h₂, hk⟩ := ih.mp h
        exact ⟨k, by omega, by omega, hk⟩
    · rintro ⟨k, h₁, h₂, hload, rfl⟩
      by_cases hk : k = i
      · subst hk
        rw [if_pos hload]
        exact List.mem_cons_self
      · have hrest := ih.mpr ⟨k, by omega, by omega, hload, rfl⟩
        split
        · exact List.mem_cons_of_mem _ hrest
        · exact hrest

theorem segmentsFrom_pairwise {R : Phdr → Phdr → Prop} :
    ∀ {n i : Nat}, (∀ j k, i ≤ j → j < k → k < i + n → isLoad content j = true →
      isLoad content k = true →
      R (phdrAt content j) (phdrAt content k)) → (segmentsFrom content n i).Pairwise R
  | 0, i, _ => List.Pairwise.nil
  | n + 1, i, h => by
    have ih : (segmentsFrom content n (i + 1)).Pairwise R := segmentsFrom_pairwise
      fun j k h₁ h₂ h₃ =>
      h j k (by omega) h₂ (by omega)
    rw [segmentsFrom]
    split
    · next hload =>
      refine List.pairwise_cons.mpr ⟨fun ph hph => ?_, ih⟩
      obtain ⟨k, h₁, h₂, hk, rfl⟩ := mem_segmentsFrom.mp hph
      exact h i k (Nat.le_refl i) (by omega) (by omega) hload hk
    · exact ih

/-- **The areas of a proper image share no page.** -/
theorem ImageOk.areas_apart (himg : ImageOk content)
    (hpos : ∀ ph ∈ segmentsFrom content (fileField content 56 2) 0, 0 < ph.fileLen) :
    (elfAreas content).Pairwise Area.Apart := by
  have hproper : ∀ ph ∈ segmentsFrom content (fileField content 56 2) 0,
      ph.Proper content (loadAddrOf content) := fun ph hph => by
    obtain ⟨k, -, hk, hload, rfl⟩ := mem_segmentsFrom.mp hph
    exact himg.proper k (by omega) hload
  have hareas := fun ph hph => (hproper ph hph).areas (loadAddrOf_mod content) (hpos ph hph)
  refine List.pairwise_append.mpr ⟨List.pairwise_flatMap.mpr ⟨fun ph hph => (hareas ph hph).2,
    ?_⟩, List.pairwise_singleton _ _, fun A hA B hB => ?_⟩
  · -- areas of different segments
    have hdis : (segmentsFrom content (fileField content 56 2) 0).Pairwise
      (Phdr.Disjoint (loadAddrOf content)) := segmentsFrom_pairwise fun j k _ hjk hk =>
      himg.disjoint j k (by omega) (by omega) (by omega)
    refine hdis.imp_of_mem fun {ph ph'} hph hph' hd A hA B hB => ?_
    have hA' := (hareas ph hph).1 A hA
    have hB' := (hareas ph' hph').1 B hB
    unfold Phdr.Disjoint at hd
    unfold Area.Apart
    omega
  · -- the stack
    obtain ⟨ph, hph, hA⟩ := List.mem_flatMap.mp hA
    have hA' := (hareas ph hph).1 A hA
    have hstack := (hproper ph hph).stack
    rw [List.mem_singleton.mp hB]
    show A.page + A.count ≤ 0x7ffffffbf ∨ 0x7ffffffbf + 0x40 ≤ A.page
    omega

/-! ## Bytes -/

/-- What the user finds at an address: a byte, and whether it may be read and written. -/
def UserByte (m : Mem) (a : Nat) (byte : UInt8) (readable writable : Bool) : Prop :=
  ∃ p, p < memSize ∧ m (kernelBaseOffset + p) = byte ∧ translate m a false false = p ∧
    translate m a true false = (if readable then p else minusOne) ∧
    translate m a true true = (if readable && writable then p else minusOne)

theorem Region.userByte {A : Area} (hr : Region s blocks leaf A)
    (inv : KernelInv s.heap blocks leaf) (hu : A.User) {a : Nat} (h₁ : 0x1000 * A.page ≤ a)
    (h₂ : a < 0x1000 * (A.page + A.count)) :
    UserByte s.mem a (A.data (a - 0x1000 * A.page)) (hasFlag A.prot protR)
      (hasFlag A.prot protW) := by
  obtain ⟨p, hbyte, hlt, hwalk⟩ := hr.walk inv hu h₁ h₂
  refine ⟨p, hlt, hbyte, ?_, ?_, ?_⟩
  · rw [translate, hwalk, if_pos ⟨fun h => Bool.noConfusion h, fun h => Bool.noConfusion h⟩,
      Option.getD_some]
  · rw [translate, hwalk]
    cases hasFlag A.prot protR <;> rfl
  · rw [translate, hwalk]
    cases hasFlag A.prot protR <;> cases hasFlag A.prot protW <;> rfl

theorem hasFlag_pfToProt (pf : Nat) :
    hasFlag (pfToProt pf) protR = hasFlag pf pfR ∧
      hasFlag (pfToProt pf) protW = hasFlag pf pfW := by
  unfold pfToProt
  cases hasFlag pf pfR <;> cases hasFlag pf pfW <;> cases hasFlag pf pfX <;> decide

/-- **The bytes of one segment**, from its areas. -/
theorem Phdr.Proper.userByte {ph : Phdr} {load : Nat} (hp : ph.Proper content load)
    (hload : load % 0x1000 = 0) (hpos : 0 < ph.fileLen) (inv : KernelInv s.heap blocks leaf)
    (hreg : ∀ A ∈ ph.areas content load, Region s blocks leaf A ∧ A.User) {a : Nat}
    (h₁ : load + ph.vaddr ≤ a) (h₂ : a < load + ph.vaddr + ph.memsz) :
    UserByte s.mem a
      (if a - (load + ph.vaddr) < ph.filesz then
        content.getD (ph.offset + (a - (load + ph.vaddr))) 0 else 0)
      (hasFlag ph.flags pfR) (hasFlag ph.flags pfW) := by
  obtain ⟨hst, hlen, hal, hed, hbss, hlt, hhi⟩ := hp.layout hload hpos
  have hcong := hp.congruent
  have hsmall := hp.small
  have hlo' : ph.pageLo load = (load + ph.vaddr) / 0x1000 := rfl
  have hhi' : ph.pageHi load = (load + ph.vaddr + ph.memsz + 0xfff) / 0x1000 := rfl
  rw [← (hasFlag_pfToProt ph.flags).1, ← (hasFlag_pfToProt ph.flags).2]
  by_cases hin : a < ph.ed load
  · -- a page that was filled from the file
    obtain ⟨hr, hu⟩ := hreg _ List.mem_cons_self
    have hpage : (ph.fileArea content load).page = ph.pageLo load := by
      show ph.st load / 0x1000 = _
      omega
    have hcount : (ph.fileArea content load).count = (ph.fileLen + 0xfff) / 0x1000 := by
      show alignup ph.fileLen / 0x1000 = _
      omega
    have hbyte := hr.userByte inv hu (a := a) (by omega) (by omega)
    have hdata : (ph.fileArea content load).data (a - 0x1000 *
        (ph.fileArea content load).page) = if a - (load + ph.vaddr) < ph.filesz then
        content.getD (ph.offset + (a - (load + ph.vaddr))) 0 else 0 := by
      rw [hpage]
      show fileData content (aligndown ph.offset % 2 ^ 32) ph.fileLen _ = _
      have hoff : aligndown ph.offset % 2 ^ 32 + (a - 0x1000 * ph.pageLo load) =
          ph.offset + (a - (load + ph.vaddr)) := by
        rw [aligndown_eq]
        omega
      rw [fileData, hoff]
      exact if_congr (by omega) rfl rfl
    rwa [hdata] at hbyte
  · -- a zero page
    have hb : ph.HasBss load := ⟨by omega, by omega⟩
    have hmem : ph.bssArea load ∈ ph.areas content load := by
      refine List.mem_cons_of_mem _ ?_
      rw [Phdr.bssAreas, if_pos hb]
      exact List.mem_singleton_self _
    obtain ⟨hr, hu⟩ := hreg _ hmem
    have hpage : (ph.bssArea load).page = ph.ed load / 0x1000 := rfl
    have hcount : (ph.bssArea load).count = ph.bssLen load / 0x1000 := rfl
    have hlen' : ph.bssLen load = ph.bssEd load - ph.ed load := by
      unfold Phdr.bssLen
      omega
    rw [if_neg (by omega)]
    exact hr.userByte inv hu (by omega) (by omega)

/-! ## The image -/

theorem stackArea_user : 0x1000 * stackArea.page = 0x7ffffffff000 - 0x40000 ∧
    0x1000 * (stackArea.page + stackArea.count) = 0x7ffffffff000 := by decide

/-- **What `load_binary` leaves behind is the image that the file describes.** When it returns
0, every byte of every segment is the file's, or 0 behind the file's part; it can be read and
written as the header's flags say; and the stack is there, zero and writable. -/
theorem loadBinary_image (host : Host σ) (s s' : Sys σ) (fd rfd errno : Int)
    (content : List UInt8) (pos : σ → Nat) (p p' : Process)
    (hready : Ready host s fd rfd content errno pos) (himg : ImageOk content)
    (hrun : loadBinary host fd p s = .ok (0, p') s') :
    (∀ i, i < fileField content 56 2 → isLoad content i = true →
      ∀ a, loadAddrOf content + (phdrAt content i).vaddr ≤ a →
        a < loadAddrOf content + (phdrAt content i).vaddr + (phdrAt content i).memsz →
        UserByte s'.mem a
          (if a - (loadAddrOf content + (phdrAt content i).vaddr) <
            (phdrAt content i).filesz then
            content.getD ((phdrAt content i).offset +
              (a - (loadAddrOf content + (phdrAt content i).vaddr))) 0
          else 0)
          (hasFlag (phdrAt content i).flags pfR) (hasFlag (phdrAt content i).flags pfW)) ∧
      ∀ a, 0x7ffffffff000 - 0x40000 ≤ a → a < 0x7ffffffff000 →
        UserByte s'.mem a 0 true true := by
  obtain ⟨blocks, leaf, inv⟩ := hready.kernel
  have hspec := (ends_of_ok hrun).mp
    (loadBinary_spec hready.file inv hready.last hready.opened hready.start p)
  obtain ⟨-, hends⟩ := hspec.resolve_left fun h =>
    absurd h.2 (show ¬ (0 : Int) = -eNOMEM by decide)
  -- the result 0 means that every segment was mapped
  generalize hv : elfVerdict errno content = verdict at hends
  cases hends with
  | rejects =>
    have := elfVerdict_rejects hv
    omega
  | bad h => exact absurd rfl h.ne
  | loads h =>
    obtain ⟨⟨blocks', leaf', s₀, b, hhead, hlaid⟩, -⟩ := h
    have hpos : ∀ ph ∈ segmentsFrom content (fileField content 56 2) 0, 0 < ph.fileLen :=
      fun ph hph => (Phdr.fileVerdict_loads (elfVerdict_loads hv ph hph)).1
    have hreg := hlaid.region (himg.areas_apart hpos)
    have inv' := hlaid.inv hhead.inv
    constructor
    · intro i hi hload a h₁ h₂
      have hmem : phdrAt content i ∈ segmentsFrom content (fileField content 56 2) 0 :=
        mem_segmentsFrom.mpr ⟨i, Nat.zero_le i, by omega, hload, rfl⟩
      refine (himg.proper i hi hload).userByte (loadAddrOf_mod content)
        (hpos _ hmem) inv' (fun A hA => ?_) h₁ h₂
      exact hreg A (List.mem_append_left _ (List.mem_flatMap.mpr ⟨_, hmem, hA⟩))
    · intro a h₁ h₂
      obtain ⟨hr, hu⟩ := hreg stackArea (List.mem_append_right _ (List.mem_singleton_self _))
      obtain ⟨hlo, hhi⟩ := stackArea_user
      exact hr.userByte inv' hu (a := a) (by omega) (by omega)

/-- A file of one segment, one page at 0x400000. -/
theorem ImageOk.single (hnum : fileField content 56 2 = 1) (hload : loadAddrOf content = 0)
    {n : Nat} (hph : phdrAt content 0 = ⟨5, 0, 0x400000, n, 120⟩) (hn : n ≤ 120)
    (hsize : 120 ≤ content.length) : ImageOk content := by
  have hzero : ∀ {i}, i < fileField content 56 2 → i = 0 := fun h => by omega
  refine ⟨fun i hi _ => ?_, fun i j hi hj hne => absurd ((hzero hi).trans (hzero hj).symm) hne⟩
  rw [hzero hi, hph, hload]
  refine ⟨show 0x400000 % 0x1000 = 0 % 0x1000 by decide, hn, show 0 + 0x400000 + 120 <
    2 ^ 64 by decide, show 0 + n ≤ _ by omega, show 0 + n ≤ _ by omega, fun q h₁ h₂ => ?_,
    .inl (show (0 + 0x400000 + 120 + 0xfff) / 0x1000 ≤ 0x7ffffffbf by decide)⟩
  have hlo : Phdr.pageLo ⟨5, 0, 0x400000, n, 120⟩ 0 = 0x400 :=
    show (0 + 0x400000) / 0x1000 = 0x400 by decide
  have hhi : Phdr.pageHi ⟨5, 0, 0x400000, n, 120⟩ 0 = 0x401 :=
    show (0 + 0x400000 + 120 + 0xfff) / 0x1000 = 0x401 by decide
  obtain rfl : q = 0x400 := by omega
  decide

/-- The headers of `helloElf`. -/
theorem helloElf_headers :
    fileField helloElf 56 2 = 1 ∧ loadAddrOf helloElf = 0 ∧ isLoad helloElf 0 = true ∧
    phdrAt helloElf 0 = ⟨5, 0, 0x400000, 120, 120⟩ := by decide +kernel

theorem helloElf_ok : ImageOk helloElf :=
  .single helloElf_headers.1 helloElf_headers.2.1 helloElf_headers.2.2.2 (Nat.le_refl 120)
    (by decide +kernel)

/-- The first byte of a program that a fresh kernel has loaded. -/
theorem loadBinary_image_hello :
    ∃ (k : Kernel) (p' : Process) (s' : Sys Nat), Booted k ∧
      loadBinary (fileHost 0 helloElf) 0 ⟨0, 0, 0, 0, 0⟩ (Sys.start k 0) = .ok (0, p') s' ∧
      UserByte s'.mem 0x400000 0x7f true false ∧
        UserByte s'.mem 0x7ffffffbf000 0 true true := by
  obtain ⟨k, hk, hready, hends⟩ := loadBinary_boot helloElf (by decide +kernel) ⟨0, 0, 0, 0, 0⟩
  rw [helloElf_loads] at hends
  cases hrun : loadBinary (fileHost 0 helloElf) 0 ⟨0, 0, 0, 0, 0⟩ (Sys.start k 0) with
  | error e s' => exact absurd ((ends_of_error hrun).mp hends).2 nofun
  | ok r s' =>
    obtain ⟨ret, p'⟩ := r
    obtain ⟨-, hend⟩ := (ends_of_ok hrun).mp hends
    obtain rfl : ret = 0 := by
      generalize hv : Verdict.loads = verdict at hend
      cases hend with
      | loads => rfl
      | rejects => cases hv
      | bad => cases hv
    obtain ⟨himage, hstack⟩ := loadBinary_image _ _ _ _ _ _ _ _ _ _ hready helloElf_ok hrun
    refine ⟨k, p', s', hk, hrun, ?_, hstack _ (by decide) (by decide)⟩
    obtain ⟨hnum, hload, htype, hph⟩ := helloElf_headers
    have hbyte := himage 0 (by omega) htype 0x400000
    rw [hload, hph] at hbyte
    exact hbyte (by decide) (by decide)

end BpfExamples.Kvm
