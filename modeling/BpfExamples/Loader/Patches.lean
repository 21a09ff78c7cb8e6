import BpfExamples.Loader.Linking

/-!
# What relocations can change

`relink` is what the relocations of a section mean for a list of instructions: each marks a load
of 64 bits as the load of a map and puts the descriptor of the map at the symbol's value into
it; the first that names anything else, or a value at which there is no map, is the last.
`parse_relo_and_apply` does this to the bytes of every section, well formed or not
(`parseReloAndApply_relink`), and so no instruction changes but loads that a relocation names
(`relink_getElem`).
-/

namespace BpfExamples.Loader

/-! ## Instructions -/

/-- The instruction at an address. -/
def Insn.ofMem (m : Mem) (a : Nat) : Insn where
  code := m a
  dst := BitVec.ofNat 4 (m (a + 1)).toNat
  src := BitVec.ofNat 4 ((m (a + 1)).toNat / 16)
  off := BitVec.ofNat 16 (m.loadLE (a + 2) 2)
  imm := BitVec.ofNat 32 (m.loadLE (a + 4) 4)

/-- The instructions of a section. -/
def Data.insns (d : Data) : List Insn :=
  (List.range (d.size / 8)).map fun k => .ofMem d.buf (8 * k)

theorem Insn.byte_ofMem (m : Mem) (a : Nat) {j : Nat} (hj : j < 8) :
    (Insn.ofMem m a).byte j = m (a + j) := by
  match j, hj with
  | 0, _ => rfl
  | 1, _ =>
    have hb : (m (a + 1)).toNat < 256 := (m (a + 1)).toNat_lt
    show UInt8.ofNat ((BitVec.ofNat 4 (m (a + 1)).toNat).toNat + 16 * (BitVec.ofNat 4
      ((m (a + 1)).toNat / 16)).toNat) = _
    rw [BitVec.toNat_ofNat, BitVec.toNat_ofNat, show (m (a + 1)).toNat % 2 ^ 4 + 16 *
      ((m (a + 1)).toNat / 16 % 2 ^ 4) = (m (a + 1)).toNat by omega]
    exact UInt8.ofNat_toNat
  | 2, _ =>
    have hlt : m.loadLE (a + 2) 2 < 256 ^ 2 := Mem.loadLE_lt m 2 (a + 2)
    show UInt8.ofNat (BitVec.ofNat 16 (m.loadLE (a + 2) 2)).toNat = _
    rw [BitVec.toNat_ofNat, Nat.mod_eq_of_lt (by omega)]
    have hbyte := Mem.loadLE_byte m 2 (a + 2) (j := 0) (by decide)
    rw [Nat.pow_zero, Nat.div_one] at hbyte
    exact hbyte.symm
  | 3, _ =>
    have hlt : m.loadLE (a + 2) 2 < 256 ^ 2 := Mem.loadLE_lt m 2 (a + 2)
    show UInt8.ofNat ((BitVec.ofNat 16 (m.loadLE (a + 2) 2)).toNat / 256) = _
    rw [BitVec.toNat_ofNat, Nat.mod_eq_of_lt (by omega)]
    have hbyte := Mem.loadLE_byte m 2 (a + 2) (j := 1) (by decide)
    rw [Nat.pow_one] at hbyte
    exact hbyte.symm
  | i + 4, hi =>
    have hlt : m.loadLE (a + 4) 4 < 256 ^ 4 := Mem.loadLE_lt m 4 (a + 4)
    show UInt8.ofNat ((BitVec.ofNat 32 (m.loadLE (a + 4) 4)).toNat / 256 ^ i) = _
    rw [BitVec.toNat_ofNat, Nat.mod_eq_of_lt (by omega), ← Mem.loadLE_byte m 4 (a + 4)
      (by omega)]
    congr 1
    omega

/-- What `bpf_load_program` is given is what the section has, without an incomplete instruction
at its end. -/
theorem codeBytes_insns (d : Data) :
    codeBytes d.insns = d.bytes.take (8 * (d.bytes.length / 8)) := by
  have hlen : d.bytes.length = d.size := by rw [Data.bytes, List.length_map, List.length_range]
  have hcount : d.insns.length = d.size / 8 := by
    rw [Data.insns, List.length_map, List.length_range]
  have htake : (List.range d.size).take (8 * (d.size / 8)) = List.range (8 * (d.size / 8)) := by
    rw [List.take_range, Nat.min_eq_left (by omega)]
  rw [codeBytes_eq, hlen, Data.bytes, ← List.map_take, htake, hcount]
  refine List.map_congr_left fun x hx => ?_
  have hx8 : x / 8 < d.size / 8 := by
    have hlt := List.mem_range.mp hx
    omega
  have hget : d.insns.getD (x / 8) default = .ofMem d.buf (8 * (x / 8)) := by
    rw [List.getD_eq_getElem?_getD, Data.insns, List.getElem?_map, List.getElem?_range hx8]
    rfl
  rw [hget, Insn.byte_ofMem _ _ (Nat.mod_lt x (by decide)), Nat.div_add_mod]

/-! ## Relocations of instructions -/

/-- What a relocation is for: an instruction, and the value of its symbol, where the symbol is
there. -/
structure Reloc where
  insn : Nat
  value : Option Nat
deriving DecidableEq, Repr

/-- The `j`-th relocation of a section. -/
def relocAt (data symbols : Data) (j : Nat) : Option Reloc :=
  (gelfGetrel data j).map fun rel =>
    ⟨rel.offset / 8 % 2 ^ 32, (gelfGetsym symbols (gelfRSym rel.info)).map Sym.value⟩

/-- The descriptor of the map at a value. -/
def mapAt (table : List (Nat × Int)) (value : Option Nat) : Option Int :=
  value.bind fun v => table.lookup v

/-- The relocations, in order, up to the first that fails. -/
def relink (table : List (Nat × Int)) : List Reloc → List Insn → List Insn
  | [], code => code
  | r :: rs, code =>
    match code[r.insn]? with
    | none => code
    | some i =>
      if i.code ≠ ldImm64 then code
      else match mapAt table r.value with
        | none => code.set r.insn { i with src := 1 }
        | some fd =>
          relink table rs (code.set r.insn { i with src := 1, imm := BitVec.ofInt 32 fd })

/-- What has become of an instruction that relocations with these values name: nothing, or it
loads the map at one of them, or there is no map at one of them and its immediate is as it
was. -/
inductive Relinked (table : List (Nat × Int)) (values : Option Nat → Prop) (old : Insn) :
    Insn → Prop
  | same : Relinked table values old old
  | linked (v : Option Nat) (fd : Int) (load : old.code = ldImm64) (named : values v)
      (found : mapAt table v = some fd) :
      Relinked table values old { old with src := 1, imm := BitVec.ofInt 32 fd }
  | missing (v : Option Nat) (load : old.code = ldImm64) (named : values v)
      (missing : mapAt table v = none) : Relinked table values old { old with src := 1 }

section

variable {table : List (Nat × Int)} {values values' : Option Nat → Prop} {i₁ i₂ i₃ : Insn}

theorem Relinked.trans (h : Relinked table values i₁ i₂) (h' : Relinked table values i₂ i₃) :
    Relinked table values i₁ i₃ := by
  cases h with
  | same => exact h'
  | linked v fd load named found =>
    cases h' with
    | same => exact .linked v fd load named found
    | linked v' fd' _ named' found' => exact .linked v' fd' load named' found'
    | missing => exact .linked v fd load named found
  | missing v load named missing =>
    cases h' with
    | same => exact .missing v load named missing
    | linked v' fd' _ named' found' => exact .linked v' fd' load named' found'
    | missing => exact .missing v load named missing

theorem Relinked.mono (hv : ∀ v, values v → values' v) (h : Relinked table values i₁ i₂) :
    Relinked table values' i₁ i₂ := by
  cases h with
  | same => exact .same
  | linked v fd load named found => exact .linked v fd load (hv v named) found
  | missing v load named missing => exact .missing v load (hv v named) missing

theorem length_relink (rs : List Reloc) (code : List Insn) :
    (relink table rs code).length = code.length := by
  induction rs generalizing code with
  | nil => rfl
  | cons r rs ih =>
    unfold relink
    split
    · rfl
    split
    · rfl
    split
    · exact List.length_set
    · rw [ih, List.length_set]

/-- The instruction at one place is replaced. -/
theorem relinked_set {code : List Insn} {x k : Nat} {i i' old new : Insn}
    (hi : code[x]? = some i) (h : x = k → Relinked table values i i')
    (hold : code[k]? = some old) (hnew : (code.set x i')[k]? = some new) :
    Relinked table values old new := by
  have hx : x < code.length := (List.getElem?_eq_some_iff.mp hi).1
  by_cases hxk : x = k
  · subst hxk
    rw [List.getElem?_set_self hx] at hnew
    cases hi.symm.trans hold
    cases hnew
    exact h rfl
  · rw [List.getElem?_set_ne hxk] at hnew
    cases hold.symm.trans hnew
    exact .same

/-- Only loads that a relocation names change. -/
theorem relink_getElem (rs : List Reloc) {code : List Insn} {k : Nat} {old new : Insn}
    (hold : code[k]? = some old) (hnew : (relink table rs code)[k]? = some new) :
    Relinked table (fun v => ⟨k, v⟩ ∈ rs) old new := by
  induction rs generalizing code old with
  | nil =>
    cases hold.symm.trans hnew
    exact .same
  | cons r rs ih =>
    have hnamed : ∀ {x : Nat}, r.insn = x → (⟨x, r.value⟩ : Reloc) ∈ r :: rs := by
      rintro x rfl
      exact List.mem_cons_self ..
    have hsame : code[k]? = some new → Relinked table (fun v => ⟨k, v⟩ ∈ r :: rs) old new := by
      intro h
      cases hold.symm.trans h
      exact .same
    unfold relink at hnew
    split at hnew
    · exact hsame hnew
    next i hi =>
    split at hnew
    · exact hsame hnew
    next hload =>
    split at hnew
    · next hmap =>
      exact relinked_set hi (fun hk => .missing r.value (not_not.mp hload)
        (hnamed hk) hmap) hold hnew
    · next fd hmap =>
      have hk : k <
          (code.set r.insn { i with src := 1, imm := BitVec.ofInt 32 fd }).length := by
        rw [List.length_set]
        exact (List.getElem?_eq_some_iff.mp hold).1
      have hmid := List.getElem?_eq_getElem hk
      have hfirst : Relinked table (fun v => ⟨k, v⟩ ∈ r :: rs) old _ := relinked_set hi
        (fun hk => .linked r.value fd (not_not.mp hload) (hnamed hk) hmap) hold hmid
      exact hfirst.trans ((ih hmid hnew).mono fun v hv => List.mem_cons_of_mem _ hv)

end

/-! ## Relocations of bytes -/

theorem Insn.ofMem_congr {m m' : Mem} {a : Nat} (h : ∀ j < 8, m' (a + j) = m (a + j)) :
    Insn.ofMem m' a = Insn.ofMem m a := by
  have hoff : m'.loadLE (a + 2) 2 = m.loadLE (a + 2) 2 :=
    Mem.loadLE_congr fun x h₁ h₂ => by
      have hx := h (x - a) (by omega)
      rwa [show a + (x - a) = x by omega] at hx
  have himm : m'.loadLE (a + 4) 4 = m.loadLE (a + 4) 4 :=
    Mem.loadLE_congr fun x h₁ h₂ => by
      have hx := h (x - a) (by omega)
      rwa [show a + (x - a) = x by omega] at hx
  have hcode : m' a = m a := h 0 (by decide)
  rw [Insn.ofMem, Insn.ofMem, hoff, himm, h 1 (by decide), hcode]

/-- `src_reg` is set, and `dst_reg` stays. -/
theorem pseudoMapFd_halves (b : UInt8) :
    BitVec.ofNat 4 (pseudoMapFd b).toNat = BitVec.ofNat 4 b.toNat ∧
      BitVec.ofNat 4 ((pseudoMapFd b).toNat / 16) = 1 := by
  have hall : ∀ n < 256, BitVec.ofNat 4 (pseudoMapFd (UInt8.ofNat n)).toNat =
      BitVec.ofNat 4 (UInt8.ofNat n).toNat ∧
      BitVec.ofNat 4 ((pseudoMapFd (UInt8.ofNat n)).toNat / 16) = 1 := by
    decide +kernel
  have hb := hall b.toNat b.toNat_lt
  rwa [UInt8.ofNat_toNat] at hb

/-- The load is marked. -/
def marked (m : Mem) (a : Nat) : Mem := Function.update m (a + 1) (pseudoMapFd (m (a + 1)))

theorem ofMem_marked (m : Mem) (a : Nat) :
    Insn.ofMem (marked m a) a = { Insn.ofMem m a with src := 1 } := by
  have hother : ∀ x, x ≠ a + 1 → marked m a x = m x := fun x hx => Function.update_of_ne hx _ _
  have hoff : Mem.loadLE (marked m a) (a + 2) 2 = m.loadLE (a + 2) 2 :=
    Mem.loadLE_congr fun x h₁ _ => hother x (by omega)
  have himm : Mem.loadLE (marked m a) (a + 4) 4 = m.loadLE (a + 4) 4 :=
    Mem.loadLE_congr fun x h₁ _ => hother x (by omega)
  have hregs : marked m a (a + 1) = pseudoMapFd (m (a + 1)) := Function.update_self _ _ _
  obtain ⟨hdst, hsrc⟩ := pseudoMapFd_halves (m (a + 1))
  rw [Insn.ofMem, hoff, himm, hregs, hdst, hsrc, hother a (by omega)]
  rfl

theorem ofMem_storeLE (m : Mem) (a : Nat) (fd : Int) :
    Insn.ofMem (m.storeLE (a + 4) 4 (fd % 2 ^ 32).toNat) a =
      { Insn.ofMem m a with imm := BitVec.ofInt 32 fd } := by
  have hother : ∀ x, x < a + 4 → Mem.storeLE m (a + 4) 4 (fd % 2 ^ 32).toNat x = m x :=
    fun x hx => Mem.storeLE_of_notMem (.inl hx)
  have hoff : Mem.loadLE (m.storeLE (a + 4) 4 (fd % 2 ^ 32).toNat)
    (a + 2) 2 = m.loadLE (a + 2) 2 := Mem.loadLE_congr fun x _ h₂ => hother x (by omega)
  have himm : BitVec.ofNat 32 (Mem.loadLE (m.storeLE (a + 4) 4 (fd % 2 ^ 32).toNat) (a + 4) 4) =
      BitVec.ofInt 32 fd := by
    rw [Mem.loadLE_storeLE]
    refine BitVec.eq_of_toNat_eq ?_
    rw [BitVec.toNat_ofNat, BitVec.toNat_ofInt]
    omega
  rw [Insn.ofMem, hoff, himm, hother a (by omega), hother (a + 1) (by omega)]
  rfl

theorem getElem?_insns (d : Data) (k : Nat) :
    d.insns[k]? = if 8 * k + 8 ≤ d.size then some (.ofMem d.buf (8 * k)) else none := by
  rw [Data.insns, List.getElem?_map]
  split
  · next h =>
    rw [List.getElem?_range (by omega)]
    rfl
  · next h =>
    rw [List.getElem?_eq_none (by rw [List.length_range]; omega)]
    rfl

/-- A change of the bytes of one instruction. -/
theorem insns_set (d d' : Data) (k : Nat) (hsize : d'.size = d.size)
    (h : ∀ x, x < 8 * k ∨ 8 * k + 8 ≤ x → d'.buf x = d.buf x) :
    d'.insns = d.insns.set k (.ofMem d'.buf (8 * k)) := by
  refine List.ext_getElem? fun x => ?_
  have hlen : d.insns.length = d.size / 8 := by
    rw [Data.insns, List.length_map, List.length_range]
  rw [getElem?_insns, hsize, List.getElem?_set, hlen, getElem?_insns]
  by_cases hx : k = x
  · subst hx
    rw [if_pos rfl]
    by_cases hin : 8 * k + 8 ≤ d.size
    · rw [if_pos hin, if_pos (by omega)]
    · rw [if_neg hin, if_neg (by omega)]
  · rw [if_neg hx, Insn.ofMem_congr fun j hj => h (8 * x + j) (by omega)]

/-- The offsets of the loader's maps, with their descriptors. -/
def mapTable (maps : List MapData) : List (Nat × Int) := maps.map fun m => (m.elfOffset, m.fd)

theorem mapTable_lookup (maps : List MapData) (v : Nat) :
    (mapTable maps).lookup v = (maps.find? fun m => m.elfOffset = v).map MapData.fd := by
  induction maps with
  | nil => rfl
  | cons m maps ih =>
    rw [mapTable, List.map_cons, List.lookup_cons, List.find?_cons]
    by_cases hm : m.elfOffset = v
    · simp [hm]
    · have hne : (v == m.elfOffset) = false := beq_eq_false_iff_ne.mpr (Ne.symm hm)
      rw [hne, decide_eq_false hm]
      exact ih

theorem findMap_eq {maps : List MapData} {sym : Option Sym} {r : Option MapData}
    (h : findMap maps sym = .ok r) :
    mapAt (mapTable maps) (sym.map Sym.value) = r.map MapData.fd := by
  unfold findMap at h
  split at h
  · next hnil =>
    subst hnil
    cases h
    cases sym <;> rfl
  · split at h
    · cases h
    · cases h
      exact mapTable_lookup maps _

section

variable {table : List (Nat × Int)} {d : Data} {k : Nat} {value : Option Nat}

/-- At an instruction that is no load the relocations end, -/
theorem relink_other (hcode : (Insn.ofMem d.buf (8 * k)).code ≠ ldImm64) (rs : List Reloc) :
    relink table (⟨k, value⟩ :: rs) d.insns = d.insns := by
  unfold relink
  dsimp only
  rw [getElem?_insns]
  by_cases hin : 8 * k + 8 ≤ d.size
  · rw [if_pos hin]
    exact if_pos hcode
  · rw [if_neg hin]

/-- and so they do at a load for which there is no map, once it is marked. -/
theorem relink_marked (hload : (Insn.ofMem d.buf (8 * k)).code = ldImm64)
    (hmap : mapAt table value = none) (rs : List Reloc) :
    relink table (⟨k, value⟩ :: rs) d.insns =
      ({ d with buf := marked d.buf (8 * k) } : Data).insns := by
  have hset := insns_set d { d with buf := marked d.buf (8 * k) } k rfl fun x hx =>
    Function.update_of_ne (by omega) _ _
  rw [ofMem_marked] at hset
  refine Eq.trans ?_ hset.symm
  unfold relink
  dsimp only
  rw [getElem?_insns, hmap]
  by_cases hin : 8 * k + 8 ≤ d.size
  · rw [if_pos hin]
    exact if_neg (not_not.mpr hload)
  · rw [if_neg hin, List.set_eq_of_length_le]
    rw [Data.insns, List.length_map, List.length_range]
    omega

/-- The load of a map gets its descriptor, and the next relocation comes. -/
theorem relink_linked (hload : (Insn.ofMem d.buf (8 * k)).code = ldImm64)
    (hin : 8 * k + 8 ≤ d.size) {fd : Int} (hmap : mapAt table value = some fd)
    (rs : List Reloc) :
    relink table (⟨k, value⟩ :: rs) d.insns = relink table rs ({ d with
      buf := Mem.storeLE (marked d.buf (8 * k)) (8 * k + 4) 4 (fd % 2 ^ 32).toNat } :
        Data).insns := by
  have hset := insns_set d { d with
    buf := Mem.storeLE (marked d.buf (8 * k)) (8 * k + 4) 4 (fd % 2 ^ 32).toNat } k rfl
    fun x hx => (Mem.storeLE_of_notMem (by omega)).trans (Function.update_of_ne (by omega) _ _)
  rw [ofMem_storeLE, ofMem_marked] at hset
  rw [hset, relink]
  dsimp only
  rw [getElem?_insns, if_pos hin, hmap]
  exact if_neg (not_not.mpr hload)

end

section

variable {data symbols insn insn' : Data} {maps : List MapData}

/-- One relocation, whether it succeeds or not. -/
theorem applyRelo_relink {j : Nat} {next : Bool}
    (h : applyRelo data symbols maps j insn = .ok (insn', next)) :
    insn'.size = insn.size ∧ ∃ r, relocAt data symbols j = some r ∧ ∀ rs,
      relink (mapTable maps) (r :: rs) insn.insns =
        if next then relink (mapTable maps) rs insn'.insns else insn'.insns := by
  unfold applyRelo at h
  split at h
  · cases h
  next rel hrel =>
  have hreloc : relocAt data symbols j = some ⟨rel.offset / 8 % 2 ^ 32,
      (gelfGetsym symbols (gelfRSym rel.info)).map Sym.value⟩ := by
    rw [relocAt, hrel]
    rfl
  dsimp only at h
  split at h
  swap
  · cases h
  split at h
  · next hcode =>
    cases h
    exact ⟨rfl, _, hreloc, relink_other hcode⟩
  next hcode =>
  split at h
  swap
  · cases h
  split at h
  · cases h
  · next hfind =>
    cases h
    exact ⟨rfl, _, hreloc, relink_marked (not_not.mp hcode) (findMap_eq hfind)⟩
  · next m hfind =>
    split at h
    swap
    · cases h
    next hin =>
    cases h
    exact ⟨rfl, _, hreloc, relink_linked (not_not.mp hcode) hin (findMap_eq hfind)⟩

theorem applyRelos_relink {js : List Nat} {done : Bool}
    (h : applyRelos data symbols maps js insn = .ok (insn', done)) :
    insn'.size = insn.size ∧
      relink (mapTable maps) (js.filterMap (relocAt data symbols)) insn.insns =
        insn'.insns := by
  induction js generalizing insn with
  | nil =>
    cases h
    exact ⟨rfl, rfl⟩
  | cons j js ih =>
    change (applyRelo data symbols maps j insn >>= _) = _ at h
    cases hone : applyRelo data symbols maps j insn with
    | error e => rw [hone] at h; cases h
    | ok r =>
      obtain ⟨insn₁, next⟩ := r
      obtain ⟨hsize, r, hreloc, hrelink⟩ := applyRelo_relink hone
      rw [hone] at h
      change (if next then applyRelos data symbols maps js insn₁ else .ok (insn₁, false)) =
        _ at h
      rw [List.filterMap_cons_some hreloc, hrelink]
      split at h
      · next hnext =>
        obtain ⟨hsize', hrest⟩ := ih h
        rw [if_pos hnext]
        exact ⟨hsize'.trans hsize, hrest⟩
      · next hnext =>
        cases h
        rw [if_neg hnext]
        exact ⟨hsize, rfl⟩

end

/-- The relocations of a section. -/
def Sec.relocs (sec : Sec) (symbols : Data) : List Reloc :=
  (List.range (sec.shdr.size / sec.shdr.entsize)).filterMap (relocAt sec.data symbols)

theorem parseReloAndApply_relink {sec : Sec} {symbols insn insn' : Data} {maps : List MapData}
    {done : Bool}
    (h : parseReloAndApply sec.data symbols sec.shdr insn maps = .ok (insn', done)) :
    insn'.size = insn.size ∧ relink (mapTable maps) (sec.relocs symbols) insn.insns =
      insn'.insns := by
  unfold parseReloAndApply at h
  split at h
  · cases h
  · exact applyRelos_relink h

end BpfExamples.Loader
