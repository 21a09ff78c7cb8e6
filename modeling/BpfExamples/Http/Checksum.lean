import BpfExamples.Base.OnesComplement

/-!
# The checksum update (`ebpf-http/http-parse-complete.c`)

`xdp_prog1` is written to change the flags of a TCP header, and then corrects the checksum
without reading the segment. The flags are passed as the 16-bit word of the header that holds
them, but without two of its bits.
-/

namespace BpfExamples.Http

/-- The bit fields of `struct tcphdr` in the word of the flags. -/
structure TcpBits where
  doff : Fin 16
  res1 : Fin 16
  cwr : Bool
  ece : Bool
  urg : Bool
  ack : Bool
  psh : Bool
  rst : Bool
  syn : Bool
  fin : Bool
deriving DecidableEq, Repr

/-- The word as it is in the segment, in network order. -/
def TcpBits.word (h : TcpBits) : UInt16 :=
  UInt16.ofNat (256 * (16 * h.doff.val + h.res1.val) + 128 * h.cwr.toNat + 64 * h.ece.toNat +
    32 * h.urg.toNat + 16 * h.ack.toNat + 8 * h.psh.toNat + 4 * h.rst.toNat + 2 * h.syn.toNat +
    h.fin.toNat)

/-- `get_tcp_flag` (http-parse-complete.c:203–215). -/
def getTcpFlag (tcp : TcpBits) : UInt16 :=
  let flags : Nat := 0
  let flags := flags + tcp.res1.val <<< 8
  let flags := flags + tcp.doff.val <<< 12
  let flags := flags + tcp.urg.toNat <<< 5
  let flags := flags + tcp.ack.toNat <<< 4
  let flags := flags + tcp.psh.toNat <<< 3
  let flags := flags + tcp.rst.toNat <<< 2
  let flags := flags + tcp.syn.toNat <<< 1
  let flags := flags + tcp.fin.toNat
  UInt16.ofNat flags

/-- `csum_incremental_update_modified` (http-parse-complete.c:216–225). The sum of three words
fits into an `unsigned long`. -/
def csumIncrementalUpdateModified (oldCsum oldField newField : UInt16) : UInt16 :=
  let csum := (~~~ oldCsum).toNat + (~~~ oldField).toNat + newField.toNat
  let csum := csum / 2 ^ 16 + csum % 2 ^ 16
  let csum := csum + csum / 2 ^ 16
  ~~~ (UInt16.ofNat csum)

variable {l : List UInt16} {c old new f g : UInt16} {h h' : TcpBits}

theorem toNat_not (x : UInt16) : (~~~ x).toNat = 0xffff - x.toNat := by
  show (~~~ x.toBitVec).toNat = 0xffff - x.toBitVec.toNat
  rw [BitVec.toNat_not]

/-- Folding the carry in twice is enough for a sum of three words. -/
theorem fold_fold {t : Nat} (ht : t ≤ 3 * 0xffff) :
    ∃ q r, (t / 2 ^ 16 + t % 2 ^ 16 + (t / 2 ^ 16 + t % 2 ^ 16) / 2 ^ 16) % 2 ^ 16 = r ∧
      r ≤ 0xffff ∧
      t = 0xffff * q + r := by
  by_cases hcarry : t / 2 ^ 16 + t % 2 ^ 16 < 2 ^ 16
  · rw [Nat.div_eq_of_lt hcarry]
    exact ⟨t / 2 ^ 16, _, rfl, by omega, by omega⟩
  · -- the two halves are `0x10000` together
    have hboth : t / 2 ^ 16 + t % 2 ^ 16 = 2 ^ 16 := by omega
    rw [hboth]
    exact ⟨t / 2 ^ 16 + 1, _, rfl, by omega, by omega⟩

/-- **The update** takes away the old field and adds the new one, up to multiples of
`0xffff`. -/
theorem csum_update_mod (c old new : UInt16) :
    (new.toNat + (csumIncrementalUpdateModified c old new).toNat) % 0xffff =
      (old.toNat + c.toNat) % 0xffff := by
  have hc := c.toNat_lt
  have hold := old.toNat_lt
  have hnew := new.toNat_lt
  obtain ⟨q, r, hfold, hr, hq⟩ :=
    fold_fold (t := 0xffff - c.toNat + (0xffff - old.toNat) + new.toNat) (by omega)
  have hcsum : (csumIncrementalUpdateModified c old new).toNat = 0xffff - r := by
    unfold csumIncrementalUpdateModified
    simp only [toNat_not, UInt16.toNat_ofNat', hfold]
  rw [hcsum]
  omega

/-- So whatever is added to two fields alike does not matter. -/
theorem csum_update_valid (hl : ∃ x ∈ l, x ≠ 0) {d : Nat} (hf : f.toNat = old.toNat + d)
    (hg : g.toNat = new.toNat + d) (hsum : onesSum (l ++ [f, c]) = 0xffff) :
    onesSum (l ++ [g, csumIncrementalUpdateModified c old new]) = 0xffff := by
  have hmod := csum_update_mod c old new
  rw [onesSum_eq_ffff_iff] at hsum ⊢
  obtain ⟨hzero, -⟩ := hsum
  obtain ⟨x, hx, hne⟩ := hl
  refine ⟨?_, x, List.mem_append_left _ hx, hne⟩
  simp only [wordSum_append, wordSum_cons, wordSum_nil, hf, hg] at hzero ⊢
  omega

/-- The headers agree but for the six flags. -/
def TcpBits.SameRest (h h' : TcpBits) : Prop :=
  h.doff = h'.doff ∧ h.res1 = h'.res1 ∧ h.cwr = h'.cwr ∧ h.ece = h'.ece

/-- What `get_tcp_flag` leaves out. -/
theorem word_eq_getTcpFlag (h : TcpBits) :
    h.word.toNat = (getTcpFlag h).toNat + (128 * h.cwr.toNat + 64 * h.ece.toNat) := by
  have hd := h.doff.isLt
  have hr := h.res1.isLt
  have hbit : ∀ b : Bool, b.toNat ≤ 1 := Bool.toNat_le
  have h₁ := hbit h.cwr
  have h₂ := hbit h.ece
  have h₃ := hbit h.urg
  have h₄ := hbit h.ack
  have h₅ := hbit h.psh
  have h₆ := hbit h.rst
  have h₇ := hbit h.syn
  have h₈ := hbit h.fin
  unfold TcpBits.word getTcpFlag
  simp only [UInt16.toNat_ofNat', Nat.shiftLeft_eq]
  omega

/-- **The checksum stays valid**: for any two fields, and for the flags of two headers. -/
theorem csum_update_keeps (l : List UInt16) (hl : ∃ x ∈ l, x ≠ 0) (c : UInt16) :
    (∀ old new : UInt16, onesSum (l ++ [old, c]) = 0xffff →
      onesSum (l ++ [new, csumIncrementalUpdateModified c old new]) = 0xffff) ∧
    ∀ h h' : TcpBits, h.SameRest h' → onesSum (l ++ [h.word, c]) = 0xffff →
      onesSum (l ++ [h'.word, csumIncrementalUpdateModified c (getTcpFlag h) (getTcpFlag h')]) =
        0xffff := by
  constructor
  · intro old new
    exact csum_update_valid hl (Nat.add_zero _).symm (Nat.add_zero _).symm
  · intro h h' hrest
    obtain ⟨-, -, hcwr, hece⟩ := hrest
    refine csum_update_valid hl (word_eq_getTcpFlag h) ?_
    rw [word_eq_getTcpFlag h', hcwr, hece]

/-- Setting `RST` in a header with `ECE`, where the checksum was `0xffff`. -/
theorem csum_update_keeps_rst :
    onesSum ([0xafbf] ++ [TcpBits.word ⟨5, 0, false, true, false, false, false, false, false,
      false⟩, 0xffff]) = 0xffff ∧
      onesSum
        ([0xafbf] ++ [TcpBits.word ⟨5, 0, false, true, false, false, false, true, false, false⟩,
        csumIncrementalUpdateModified 0xffff 0x5000 0x5004]) = 0xffff := by
  have hvalid : onesSum ([0xafbf] ++ [TcpBits.word ⟨5, 0, false, true, false, false, false,
    false, false, false⟩, 0xffff]) = 0xffff := by decide
  refine ⟨hvalid, ?_⟩
  exact (csum_update_keeps [0xafbf] ⟨0xafbf, List.mem_singleton_self _, by decide⟩ 0xffff).2
    ⟨5, 0, false, true, false, false, false, false, false, false⟩
    ⟨5, 0, false, true, false, false, false, true, false, false⟩ ⟨rfl, rfl, rfl, rfl⟩ hvalid

end BpfExamples.Http
