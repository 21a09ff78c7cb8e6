import BpfExamples.Base.Runs
import BpfExamples.Http.Userspace

/-!
# Two parsers of one frame

`http_filter` and the script each take the key of the connection and the place of the payload
from the headers of a frame. The filter looks for the TCP header behind 20 bytes of IP header,
the script behind as many as the header says. For a frame that the filter keeps they agree
exactly if the fields they read there are the same (`httpFilter_agrees_iff`), as they are when
the IP header has no options.
-/

namespace BpfExamples.Http

variable {m : Sessions} {f : Frame} {v : View} {i j : Nat}

/-! ## Reads -/

theorem loadByte_eq_some {n : Nat} : loadByte f i = some n ↔ i < f.length ∧ n = byteAt f i := by
  unfold loadByte byteAt
  rw [List.getD_eq_getElem?_getD]
  by_cases h : i < f.length
  · rw [List.getElem?_eq_getElem h]
    exact ⟨fun hn => ⟨h, (Option.some.inj hn).symm⟩, fun hn => congrArg some hn.2.symm⟩
  · rw [List.getElem?_eq_none (by omega)]
    exact ⟨nofun, fun hn => absurd hn.1 h⟩

theorem loadByte_of_lt (h : i < f.length) : loadByte f i = some (byteAt f i) :=
  loadByte_eq_some.mpr ⟨h, rfl⟩

theorem loadField_eq_some {n x : Nat} :
    loadField f i n = some x ↔ i + n ≤ f.length ∧ x = fromBytesBig (slice f i (i + n)) := by
  unfold loadField
  split
  · next h =>
      exact ⟨fun hx => ⟨h, (Option.some.inj hx).symm⟩, fun hx => congrArg some hx.2.symm⟩
  · next h => exact ⟨nofun, fun hx => absurd hx.1 h⟩

theorem loadField_of_le {n : Nat} (h : i + n ≤ f.length) :
    loadField f i n = some (fromBytesBig (slice f i (i + n))) := loadField_eq_some.mpr ⟨h, rfl⟩

theorem slice_readPacket (h : j ≤ 4096) : slice (readPacket f) i j = slice f i j := by
  unfold slice readPacket
  rw [List.drop_take, List.take_take, Nat.min_eq_left (by omega)]

theorem pyIndex_readPacket (h : i < 4096) :
    pyIndex (readPacket f) i = if i < f.length then .ok (byteAt f i)
      else .error .indexError := by
  unfold pyIndex readPacket byteAt
  rw [List.getElem?_take_of_lt h, List.getD_eq_getElem?_getD]
  split
  · next b hb =>
    have hlt : i < f.length := (List.getElem?_eq_some_iff.mp hb).1
    rw [if_pos hlt, hb]
    rfl
  · next hb => rw [if_neg (by have := List.getElem?_eq_none_iff.mp hb; omega)]

/-! ## The views -/

/-- The length of the IP header, in words. -/
def ihl (f : Frame) : Nat := byteAt f ethHlen % 16

/-- The key of a frame whose TCP header is at `t`. -/
def keyAt (f : Frame) (t : Nat) : Key :=
  ⟨fromBytesBig (slice f 26 30), fromBytesBig (slice f 30 34), fromBytesBig (slice f t (t + 2)),
    fromBytesBig (slice f (t + 2) (t + 4))⟩

/-- The place of the payload of a frame whose TCP header is at `t`. -/
def offsetAt (f : Frame) (t : Nat) : Nat := ethHlen + ihl f * 4 + byteAt f (t + 12) / 16 * 4

theorem offsetAt_le (f : Frame) (t : Nat) : offsetAt f t ≤ 134 := by
  have hbyte : byteAt f (t + 12) < 256 := UInt8.toNat_lt _
  show 14 + byteAt f 14 % 16 * 4 + byteAt f (t + 12) / 16 * 4 ≤ 134
  omega

/-- The view of the filter. -/
theorem parseHeaders_eq (h : parseHeaders f = some v) :
    47 ≤ f.length ∧ byteAt f 23 = 6 ∧ fromBytesBig (slice f 12 14) = 0x0800 ∧
      v.key = keyAt f 34 ∧ v.payloadOffset = offsetAt f 34 ∧
      v.payloadLength = (fromBytesBig (slice f 16 18) + 2 ^ 32 - ihl f * 4 - byteAt f
        46 / 16 * 4) % 2 ^ 32 := by
  unfold parseHeaders at h
  obtain ⟨type, htype, h⟩ := Option.bind_eq_some_iff.mp h
  split at h
  · cases h
  next htype' =>
  obtain ⟨nextp, hnext, h⟩ := Option.bind_eq_some_iff.mp h
  split at h
  · cases h
  next hnext' =>
  obtain ⟨dst, hdst, h⟩ := Option.bind_eq_some_iff.mp h
  obtain ⟨src, hsrc, h⟩ := Option.bind_eq_some_iff.mp h
  obtain ⟨dstPort, hdp, h⟩ := Option.bind_eq_some_iff.mp h
  obtain ⟨srcPort, hsp, h⟩ := Option.bind_eq_some_iff.mp h
  obtain ⟨verHlen, hver, h⟩ := Option.bind_eq_some_iff.mp h
  obtain ⟨offset, hoff, h⟩ := Option.bind_eq_some_iff.mp h
  obtain ⟨tlen, htlen, h⟩ := Option.bind_eq_some_iff.mp h
  obtain rfl := Option.some.inj h
  obtain ⟨-, rfl⟩ := loadField_eq_some.mp htype
  obtain ⟨-, rfl⟩ := loadByte_eq_some.mp hnext
  obtain ⟨-, rfl⟩ := loadField_eq_some.mp hdst
  obtain ⟨-, rfl⟩ := loadField_eq_some.mp hsrc
  obtain ⟨-, rfl⟩ := loadField_eq_some.mp hdp
  obtain ⟨-, rfl⟩ := loadField_eq_some.mp hsp
  obtain ⟨-, rfl⟩ := loadByte_eq_some.mp hver
  obtain ⟨hlen, rfl⟩ := loadByte_eq_some.mp hoff
  obtain ⟨-, rfl⟩ := loadField_eq_some.mp htlen
  exact ⟨hlen, Decidable.not_not.mp hnext', Decidable.not_not.mp htype', rfl, rfl, rfl⟩

/-- A TCP packet gets through the headers. -/
theorem parseHeaders_of (hlen : 47 ≤ f.length) (htype : fromBytesBig (slice f 12 14) = 0x0800)
    (htcp : byteAt f 23 = 6) :
    parseHeaders f = some ⟨keyAt f 34, offsetAt f 34,
      (fromBytesBig (slice f 16 18) + 2 ^ 32 - ihl f * 4 - byteAt f 46 / 16 * 4) % 2 ^ 32⟩ := by
  have heth : ethHlen = 14 := rfl
  unfold parseHeaders
  dsimp only
  rw [loadField_of_le (by omega), loadByte_of_lt (by omega), loadField_of_le (by omega),
    loadField_of_le (by omega), loadField_of_le (by omega), loadField_of_le (by omega),
    loadByte_of_lt (by omega), loadByte_of_lt (by omega), loadField_of_le (by omega)]
  simp only [Option.bind_eq_bind, Option.bind_some]
  rw [if_neg (fun h => h htype), if_neg (fun h => h htcp)]
  rfl

/-- A frame that looks like HTTP. -/
theorem matchHeaders_eq (h : matchHeaders f = some v) :
    parseHeaders f = some v ∧ 7 ≤ v.payloadLength ∧ v.payloadOffset + 7 ≤ f.length ∧
      httpMatch (slice f v.payloadOffset (v.payloadOffset + 7)) = true := by
  unfold matchHeaders at h
  obtain ⟨v', hparse, h⟩ := Option.bind_eq_some_iff.mp h
  split at h
  · cases h
  next hlen =>
  obtain ⟨p, hp, h⟩ := Option.bind_eq_some_iff.mp h
  split at h
  · next hmatch =>
    obtain rfl := Option.some.inj h
    unfold loadPayload at hp
    split at hp
    · next hle =>
      obtain rfl := Option.some.inj hp
      exact ⟨hparse, by omega, hle, hmatch⟩
    · cases hp
  · cases h

theorem matchHeaders_of (hparse : parseHeaders f = some v) (hpay : 7 ≤ v.payloadLength)
    (hlen : v.payloadOffset + 7 ≤ f.length) :
    matchHeaders f = if httpMatch (slice f v.payloadOffset (v.payloadOffset + 7)) then some v
      else none := by
  unfold matchHeaders
  rw [hparse, Option.bind_eq_bind, Option.bind_some, if_neg (by omega), loadPayload,
    if_pos hlen]
  rfl

/-- The view of the script. -/
def pyViewOf (f : Frame) : PyView :=
  let t := ethHlen + ihl f * 4
  { ipSrc := slice f 26 30
    ipDst := slice f 30 34
    portSrc := slice f t (t + 2)
    portDst := slice f (t + 2) (t + 4)
    payloadOffset := offsetAt f t
    payload := (readPacket f).drop (offsetAt f t) }

theorem pyViewOf_key (f : Frame) : (pyViewOf f).currentKey = keyAt f (ethHlen + ihl f * 4) :=
  rfl

/-- The script gets through the headers if the byte with the length of the TCP header is
there. -/
theorem pyHeaders_readPacket (hlen : 34 ≤ f.length) :
    pyHeaders (readPacket f) =
      if ethHlen + ihl f * 4 + 12 < f.length then .ok (pyViewOf f) else .error .indexError := by
  have hihl : ihl f * 4 ≤ 60 := by
    unfold ihl
    omega
  have heth : ethHlen = 14 := rfl
  have hunpack : ∀ i, i + 4 ≤ 34 → unpack4s (slice (readPacket f) i (i + 4)) =
      .ok (slice f i (i + 4)) := by
    intro i hi
    rw [slice_readPacket (by omega), unpack4s, if_pos]
    rw [slice_length (by omega)]
    omega
  have hoff := offsetAt_le f (ethHlen + ihl f * 4)
  unfold pyHeaders
  rw [pyIndex_readPacket (by omega), if_pos (by omega), ok_bind, pyIndex_readPacket (by omega),
    if_pos (by omega), ok_bind, pyIndex_readPacket (by omega), if_pos (by omega), ok_bind,
    hunpack (ethHlen + 12) (by omega), ok_bind, hunpack (ethHlen + 16) (by omega), ok_bind,
    show byteAt f ethHlen % 16 * 4 = ihl f * 4 from rfl]
  dsimp only
  rw [pyIndex_readPacket (by omega)]
  by_cases hin : ethHlen + ihl f * 4 + 12 < f.length
  · rw [if_pos hin, if_pos hin, ok_bind, slice_readPacket (by omega),
      slice_readPacket (by omega)]
    have hpay : slice (readPacket f) (offsetAt f (ethHlen + ihl f * 4)) (readPacket f).length =
        (readPacket f).drop (offsetAt f (ethHlen + ihl f * 4)) := by
      unfold slice
      exact List.take_of_length_le (by rw [List.length_drop])
    exact congrArg Except.ok (congrArg (PyView.mk _ _ _ _ _) hpay)
  · rw [if_neg hin, if_neg hin, error_bind]

/-! ## Agreement -/

/-- The script finds the filter's key and payload in the frame. -/
def AgreeOn (f : Frame) (v : View) : Prop :=
  ∃ w, pyHeaders (readPacket f) = .ok w ∧ w.currentKey = v.key ∧
    w.payloadOffset = v.payloadOffset ∧
    w.payload.take 7 = slice f v.payloadOffset (v.payloadOffset + 7)

/-- The ports and the length in a TCP header at `t`. -/
def tcpAt (f : Frame) (t : Nat) : Option (Nat × Nat × Nat) := do
  let srcPort ← loadField f t 2
  let dstPort ← loadField f (t + 2) 2
  let offset ← loadByte f (t + 12)
  return (srcPort, dstPort, offset / 16)

/-- Where the IP header ends by its own length, there is a TCP header with the fields of the one
behind the first 20 bytes. -/
def SameTcp (f : Frame) : Prop := tcpAt f (ethHlen + ihl f * 4) = tcpAt f (ethHlen + 20)

instance (f : Frame) : Decidable (SameTcp f) := inferInstanceAs (Decidable (_ = _))

theorem tcpAt_of_lt {t : Nat} (h : t + 12 < f.length) :
    tcpAt f t = some ((keyAt f t).srcPort, (keyAt f t).dstPort, byteAt f (t + 12) / 16) := by
  unfold tcpAt
  rw [loadField_of_le (by omega), loadField_of_le (by omega), loadByte_of_lt h]
  rfl

theorem tcpAt_of_ge {t : Nat} (h : f.length ≤ t + 12) : tcpAt f t = none := by
  have hbyte : loadByte f (t + 12) = none := by
    unfold loadByte
    rw [List.getElem?_eq_none h]
    rfl
  unfold tcpAt
  rw [hbyte]
  cases loadField f t 2 <;> cases loadField f (t + 2) 2 <;> rfl

theorem sameTcp_of_ihl (h : ihl f = 5) : SameTcp f := by
  unfold SameTcp
  rw [h]

/-- A frame that looks like HTTP, read by both. -/
theorem agreeOn_iff_sameTcp (hv : matchHeaders f = some v) : AgreeOn f v ↔ SameTcp f := by
  obtain ⟨hparse, -, hlen, -⟩ := matchHeaders_eq hv
  obtain ⟨h47, -, -, hkey, hoff, -⟩ := parseHeaders_eq hparse
  have h34 : ethHlen + 20 = 34 := rfl
  rw [SameTcp, h34, tcpAt_of_lt (t := 34) (by omega), AgreeOn, pyHeaders_readPacket (by omega),
    hkey, hoff]
  generalize ht : ethHlen + ihl f * 4 = t
  by_cases hin : t + 12 < f.length
  · rw [if_pos hin, tcpAt_of_lt hin]
    constructor
    · -- equal keys and payload offsets are equal fields
      rintro ⟨w, hw, hk, ho, -⟩
      obtain rfl := Except.ok.inj hw
      rw [pyViewOf_key, ht] at hk
      have ho' : offsetAt f t = offsetAt f 34 := by
        rw [← ho, ← ht]
        rfl
      unfold offsetAt at ho'
      have hnibble : byteAt f (t + 12) / 16 = byteAt f (34 + 12) / 16 := by omega
      rw [hk, hnibble]
    · intro hsame
      obtain ⟨hsp, hdp, hnibble⟩ : (keyAt f t).srcPort = (keyAt f 34).srcPort ∧
        (keyAt f t).dstPort = (keyAt f 34).dstPort ∧
        byteAt f (t + 12) / 16 = byteAt f (34 + 12) / 16 := by
        injection hsame with hsame
        injection hsame with h₁ h₂
        injection h₂ with h₂ h₃
        exact ⟨h₁, h₂, h₃⟩
      have hk : keyAt f t = keyAt f 34 := by
        show Key.mk _ _ (keyAt f t).srcPort (keyAt f t).dstPort = _
        rw [hsp, hdp]
        rfl
      have ho : offsetAt f t = offsetAt f 34 := by
        unfold offsetAt
        rw [hnibble]
      refine ⟨pyViewOf f, rfl, ?_, ?_, ?_⟩
      · rw [pyViewOf_key, ht, hk]
      · show offsetAt f (ethHlen + ihl f * 4) = _
        rw [ht, ho]
      · show ((readPacket f).drop (offsetAt f (ethHlen + ihl f * 4))).take 7 = _
        have hle := offsetAt_le f 34
        rw [ht, ho, ← slice_readPacket (show offsetAt f 34 + 7 ≤ 4096 by omega), slice,
          Nat.add_sub_cancel_left]
  · rw [if_neg hin, tcpAt_of_ge (by omega)]
    constructor
    · rintro ⟨w, hw, -⟩
      cases hw
    · intro hsame
      cases hsame

/-- **Where filter and script agree**: on a frame that the filter keeps, exactly if the fields
of the TCP header are the same at both places. -/
theorem httpFilter_agrees_iff (bcc : Bcc) (m : Sessions) (f : Frame)
    (h : (httpFilter bcc m f).1 = keepPacket) :
    (∃ v, matchHeaders f = some v ∧ AgreeOn f v) ↔ SameTcp f := by
  obtain ⟨key, hkey, -⟩ := (httpFilter_keeps_iff bcc m f).mp h
  obtain ⟨v, hv, -⟩ := matchKey_eq_some.mp hkey
  constructor
  · rintro ⟨v', hv', hagree⟩
    exact (agreeOn_iff_sameTcp hv').mp hagree
  · exact fun hsame => ⟨v, hv, (agreeOn_iff_sameTcp hv).mpr hsame⟩

/-- A frame with the IP header length `n`, in words, and `options` before the TCP header. Its
payload is `GET / HTTP/1.1`, its acknowledgement number 0x50000000. -/
def getFrame (n : UInt8) (options : List UInt8) : Frame :=
  [0, 0, 0, 0, 0, 0, 0, 0, 0, 0, 0, 0, 8, 0] ++
  [0x40 + n, 0, 0, 80, 0, 0, 0, 0, 64, 6, 0, 0, 10, 0, 0, 1, 100, 100, 100, 200] ++ options ++
  [0x9c, 0x40, 0, 80, 0, 0, 0, 0, 0x50, 0, 0, 0, 0x50, 0x18, 0, 0, 0, 0, 0, 0] ++
  [71, 69, 84, 32, 47, 32, 72, 84, 84, 80, 47, 49, 46, 49, 13, 10]

/-- Without options they agree. -/
theorem httpFilter_agrees_plain :
    (httpFilter .plain ∅ (getFrame 5 [])).1 = keepPacket ∧
      ∃ v, matchHeaders (getFrame 5 []) = some v ∧ AgreeOn (getFrame 5 []) v := by
  have hkeep : (httpFilter .plain ∅ (getFrame 5 [])).1 = keepPacket := by decide +kernel
  exact ⟨hkeep,
    (httpFilter_agrees_iff .plain ∅ _ hkeep).mpr (sameTcp_of_ihl (by decide +kernel))⟩

/-- **With four bytes of options they do not**: the filter takes the options for the ports. -/
theorem httpFilter_agrees_options_not :
    (httpFilter .plain ∅ (getFrame 6 [1, 1, 1, 0])).1 = keepPacket ∧
      ¬ ∃ v, matchHeaders (getFrame 6 [1, 1, 1, 0]) = some v ∧
        AgreeOn (getFrame 6 [1, 1, 1, 0]) v := by
  refine ⟨by decide +kernel, ?_⟩
  rintro ⟨v, hv, hagree⟩
  have hsame := (agreeOn_iff_sameTcp hv).mp hagree
  exact absurd hsame (by decide +kernel)

end BpfExamples.Http
