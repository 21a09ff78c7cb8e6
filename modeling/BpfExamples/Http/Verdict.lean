import BpfExamples.Http.Agreement

/-!
# Two versions of the filter (`http-parse-simple.c`, `http-parse-complete.c` of `ebpf-http`)

The simple version of `http_filter` has the same parser and no map. On an empty map both give
the same verdict, which depends on the headers only (`httpFilter_keeps_empty`). A frame should
be kept if its payload looks like HTTP, where the payload is what the lengths in the headers
delimit; the filter looks for the data offset behind 20 bytes of IP header, and lets a total
length pass that is too small for the headers.

- `httpFilter_verdict_iff`: the frames for which the verdict is right.
-/

namespace BpfExamples.Http

variable {bcc : Bcc} {f : Frame} {v : View}

/-! ## The simple version -/

/-- The headers (http-parse-simple.c:18–53): the offset and the length of the payload. -/
def simpleHeaders (f : Frame) : Option (Nat × Nat) := do
  let type ← loadField f 12 2
  if type ≠ 0x0800 then none
  else do
    let nextp ← loadByte f (ethHlen + 9)
    if nextp ≠ 6 then none
    else do
      let tcp := ethHlen + 20
      let verHlen ← loadByte f ethHlen
      let ipHeaderLength := verHlen % 16 * 4
      let offset ← loadByte f (tcp + 12)
      let tcpHeaderLength := offset / 16 * 4
      let payloadOffset := ethHlen + ipHeaderLength + tcpHeaderLength
      let tlen ← loadField f (ethHlen + 2) 2
      return (payloadOffset, (tlen + 2 ^ 32 - ipHeaderLength - tcpHeaderLength) % 2 ^ 32)

/-- The frames that get to `KEEP`. -/
def simpleMatch (f : Frame) : Option Unit := do
  let (payloadOffset, payloadLength) ← simpleHeaders f
  if payloadLength < 7 then none
  else do
    let p ← loadPayload f payloadOffset
    if httpMatch p then return () else none

/-- `http_filter` of the simple version (http-parse-simple.c:16–108). -/
def httpFilterSimple (f : Frame) : Int :=
  match simpleMatch f with
  | some () => keepPacket
  | none => dropPacket

/-- **The parsers are the same.** -/
theorem simpleHeaders_eq (f : Frame) :
    simpleHeaders f = (parseHeaders f).map fun v => (v.payloadOffset, v.payloadLength) := by
  have heth : ethHlen = 14 := rfl
  cases hp : parseHeaders f with
  | some v =>
    obtain ⟨hlen, hproto, htype, -, hoff, hpay⟩ := parseHeaders_eq hp
    unfold simpleHeaders
    dsimp only
    rw [loadField_of_le (by omega), loadByte_of_lt (by omega), loadByte_of_lt (by omega),
      loadByte_of_lt (by omega), loadField_of_le (by omega)]
    simp only [Option.bind_eq_bind, Option.bind_some, Option.map_some]
    rw [if_neg (fun h => h htype), if_neg (fun h => h hproto), hoff, hpay]
    rfl
  | none =>
    -- what the simple version reads is all that can fail
    by_contra hne
    obtain ⟨x, hx⟩ := Option.ne_none_iff_exists'.mp hne
    unfold simpleHeaders at hx
    obtain ⟨type, htype, hx⟩ := Option.bind_eq_some_iff.mp hx
    split at hx
    · cases hx
    next htype' =>
    obtain ⟨nextp, hnext, hx⟩ := Option.bind_eq_some_iff.mp hx
    split at hx
    · cases hx
    next hnext' =>
    obtain ⟨verHlen, -, hx⟩ := Option.bind_eq_some_iff.mp hx
    obtain ⟨offset, hoff, -⟩ := Option.bind_eq_some_iff.mp hx
    obtain ⟨-, rfl⟩ := loadField_eq_some.mp htype
    obtain ⟨-, rfl⟩ := loadByte_eq_some.mp hnext
    obtain ⟨hlen, -⟩ := loadByte_eq_some.mp hoff
    have hsome := parseHeaders_of hlen (Decidable.not_not.mp htype')
      (Decidable.not_not.mp hnext')
    rw [hp] at hsome
    cases hsome

theorem simpleMatch_eq (f : Frame) : simpleMatch f = (matchHeaders f).map fun _ => () := by
  unfold simpleMatch matchHeaders
  rw [simpleHeaders_eq]
  cases hp : parseHeaders f with
  | none => rfl
  | some v =>
    simp only [Option.map_some, Option.bind_eq_bind, Option.bind_some]
    split
    · rfl
    · cases hl : loadPayload f v.payloadOffset with
      | none => rfl
      | some p =>
        simp only [Option.bind_some]
        split <;> rfl

/-- **With an empty map** the two versions give the same verdict. -/
theorem httpFilter_keeps_empty (bcc : Bcc) (f : Frame) :
    (httpFilter bcc ∅ f).1 = httpFilterSimple f ∧
      ((httpFilter bcc ∅ f).1 = keepPacket ↔ ∃ v, matchHeaders f = some v) := by
  rw [httpFilterSimple, simpleMatch_eq]
  cases hm : matchHeaders f with
  | none =>
    rw [httpFilter_of_none hm]
    refine ⟨rfl, fun h => absurd h dropPacket_ne, ?_⟩
    rintro ⟨v, hv⟩
    cases hv
  | some v =>
    have hempty : Admits ∅ v.key := (admits_of_notMem (AList.notMem_empty _)).mpr (by decide)
    have hkeep : (httpFilter bcc ∅ f).1 = keepPacket :=
      (httpFilter_keeps_iff bcc ∅ f).mpr ⟨v.key, matchKey_eq_some.mpr ⟨v, hm, rfl⟩, hempty⟩
    rw [hkeep]
    exact ⟨rfl, fun _ => ⟨v, rfl⟩, fun _ => rfl⟩

/-! ## What should be kept -/

/-- `tlen`, the length of the IP packet by its header. -/
def totalLength (f : Frame) : Nat := fromBytesBig (slice f 16 18)

/-- A frame of type IPv4 whose IP header says TCP. -/
def Ipv4Tcp (f : Frame) : Prop :=
  24 ≤ f.length ∧ fromBytesBig (slice f 12 14) = 0x0800 ∧ byteAt f 23 = 6

/-- Where the IP header ends by its length field. -/
def tcpStart (f : Frame) : Nat := ethHlen + ihl f * 4

/-- The payload by the lengths in the headers, as far as the frame has it. -/
def payloadOf (f : Frame) : List UInt8 :=
  slice f (offsetAt f (tcpStart f)) (ethHlen + totalLength f)

/-- An IPv4 TCP frame whose payload looks like HTTP. -/
def HttpLooking (f : Frame) : Prop :=
  Ipv4Tcp f ∧ tcpStart f + 12 < f.length ∧ 7 ≤ (payloadOf f).length ∧
    httpMatch (payloadOf f) = true

/-- The seven bytes at `o` look like HTTP. -/
def StartsHttp (f : Frame) (o : Nat) : Prop :=
  o + 7 ≤ f.length ∧ httpMatch (slice f o (o + 7)) = true

/-- With the data offset of a TCP header at `t`: the payload looks like HTTP. -/
def LooksHttp (f : Frame) (t : Nat) : Prop :=
  t + 12 < f.length ∧ offsetAt f t + 7 ≤ ethHlen + totalLength f ∧ StartsHttp f (offsetAt f t)

/-- With the data offset of a TCP header at `t`: the IP packet is shorter than its headers, and
what follows them in the frame looks like HTTP. -/
def Wraps (f : Frame) (t : Nat) : Prop :=
  t + 12 < f.length ∧ ethHlen + totalLength f < offsetAt f t ∧ StartsHttp f (offsetAt f t)

instance (f : Frame) (o : Nat) : Decidable (StartsHttp f o) :=
  inferInstanceAs (Decidable (_ ∧ _))
instance (f : Frame) (t : Nat) : Decidable (LooksHttp f t) :=
  inferInstanceAs (Decidable (_ ∧ _ ∧ _))
instance (f : Frame) (t : Nat) : Decidable (Wraps f t) :=
  inferInstanceAs (Decidable (_ ∧ _ ∧ _))
instance (f : Frame) : Decidable (Ipv4Tcp f) := inferInstanceAs (Decidable (_ ∧ _ ∧ _))
instance (f : Frame) : Decidable (HttpLooking f) := inferInstanceAs (Decidable (_ ∧ _ ∧ _ ∧ _))

/-- No method is longer than what is looked at. -/
theorem httpMatch_take (l : List UInt8) : httpMatch (l.take 7) = httpMatch l := by
  have hone : ∀ m ∈ methods, m.isPrefixOf (l.take 7) = m.isPrefixOf l := by
    intro m hm
    have hlen : m.length ≤ 7 := by
      revert m
      decide
    rw [Bool.eq_iff_iff, List.isPrefixOf_iff_prefix, List.isPrefixOf_iff_prefix]
    constructor
    · exact fun h => h.trans (List.take_prefix 7 l)
    · exact fun h => List.prefix_take_iff.mpr ⟨h, hlen⟩
  rw [Bool.eq_iff_iff, httpMatch, httpMatch, List.any_eq_true, List.any_eq_true]
  exact exists_congr fun m => and_congr_right fun hm => by rw [hone m hm]

/-- **What should be kept**, by the places of the headers. -/
theorem httpLooking_iff (f : Frame) : HttpLooking f ↔ Ipv4Tcp f ∧ LooksHttp f (tcpStart f) := by
  unfold HttpLooking LooksHttp StartsHttp
  refine and_congr_right fun _ => and_congr_right fun _ => ?_
  rw [payloadOf, length_slice]
  constructor
  · rintro ⟨hlen, hmatch⟩
    have hlong : offsetAt f (tcpStart f) + 7 ≤ ethHlen + totalLength f := by omega
    rw [← httpMatch_take, slice_take hlong] at hmatch
    exact ⟨hlong, by omega, hmatch⟩
  · rintro ⟨hlong, hin, hmatch⟩
    refine ⟨by omega, ?_⟩
    rw [← httpMatch_take, slice_take hlong]
    exact hmatch

/-- **What is kept**: the data offset is taken from behind 20 bytes of IP header, and the length
may have wrapped. -/
theorem matchHeaders_iff (f : Frame) :
    (∃ v, matchHeaders f = some v) ↔ Ipv4Tcp f ∧ (LooksHttp f 34 ∨ Wraps f 34) := by
  have heth : ethHlen = 14 := rfl
  have hlt : totalLength f < 65536 := fromBytesBig_slice_lt f 16
  have hbyte : byteAt f 46 < 256 := UInt8.toNat_lt _
  have hihl : ihl f < 16 := Nat.mod_lt _ (by decide)
  have hoff : offsetAt f 34 = 14 + ihl f * 4 + byteAt f 46 / 16 * 4 := rfl
  constructor
  · rintro ⟨v, hv⟩
    obtain ⟨hparse, hpay, hin, hmatch⟩ := matchHeaders_eq hv
    obtain ⟨hlen, hproto, htype, -, hvo, hvl⟩ := parseHeaders_eq hparse
    rw [hvo] at hin hmatch
    rw [hvl, show fromBytesBig (slice f 16 18) = totalLength f from rfl] at hpay
    refine ⟨⟨by omega, htype, hproto⟩, ?_⟩
    by_cases hlong : offsetAt f 34 + 7 ≤ ethHlen + totalLength f
    · exact .inl ⟨by omega, hlong, hin, hmatch⟩
    · exact .inr ⟨by omega, by omega, hin, hmatch⟩
  · rintro ⟨⟨-, htype, hproto⟩, h⟩
    obtain ⟨hlen, hpay, hin, hmatch⟩ : 34 + 12 < f.length ∧
      7 ≤ (totalLength f + 2 ^ 32 - ihl f * 4 - byteAt f 46 / 16 * 4) % 2 ^ 32 ∧
      StartsHttp f (offsetAt f 34) := by
      rcases h with ⟨hlen, hlong, hstart⟩ | ⟨hlen, hshort, hstart⟩
      · exact ⟨hlen, by omega, hstart⟩
      · exact ⟨hlen, by omega, hstart⟩
    have hparse := parseHeaders_of hlen htype hproto
    exact ⟨_, (matchHeaders_of hparse hpay hin).trans (if_pos hmatch)⟩

/-- The key that the filter takes from such a frame. -/
theorem matchKey_iff {k : Key} :
    matchKey f = some k ↔ keyAt f 34 = k ∧ Ipv4Tcp f ∧ (LooksHttp f 34 ∨ Wraps f 34) := by
  rw [matchKey_eq_some, ← matchHeaders_iff]
  constructor
  · rintro ⟨v, hv, rfl⟩
    exact ⟨(parseHeaders_eq (matchHeaders_eq hv).1).2.2.2.1.symm, v, hv⟩
  · rintro ⟨rfl, v, hv⟩
    exact ⟨v, hv, (parseHeaders_eq (matchHeaders_eq hv).1).2.2.2.1⟩

/-- The frame does not mislead the filter: without options the IP packet is not shorter than its
headers with something like HTTP behind them, and with a header of another length the byte that
is taken for the data offset leads to the right verdict. -/
def Plain (f : Frame) : Prop :=
  Ipv4Tcp f → (ihl f = 5 → ¬ Wraps f 34) ∧
    (ihl f ≠ 5 → (LooksHttp f 34 ∨ Wraps f 34 ↔ LooksHttp f (tcpStart f)))

/-- **The verdict is right** for a frame exactly if nothing in it misleads the filter. -/
theorem httpFilter_verdict_iff (bcc : Bcc) (f : Frame) :
    ((httpFilter bcc ∅ f).1 = httpFilterSimple f ∧
      ((httpFilter bcc ∅ f).1 = keepPacket ↔ HttpLooking f)) ↔ Plain f := by
  obtain ⟨hsame, hkeep⟩ := httpFilter_keeps_empty bcc f
  rw [and_iff_right hsame, hkeep, matchHeaders_iff, httpLooking_iff, Plain]
  by_cases hip : Ipv4Tcp f
  · simp only [hip, true_and, true_imp_iff]
    by_cases hihl : ihl f = 5
    · have hstart : tcpStart f = 34 := by
        unfold tcpStart
        rw [hihl]
        rfl
      have hnot : Wraps f 34 → ¬ LooksHttp f 34 := by
        rintro ⟨-, hshort, -⟩ ⟨-, hlong, -⟩
        omega
      rw [hstart]
      tauto
    · tauto
  · simp [hip]

/-- A frame with `GET / HTTP/1.1`: an IP header of `n` words that states `tlen` bytes, and a TCP
header without options whose acknowledgement number starts with `ack`. -/
def statedFrame (n tlen ack : UInt8) (options : List UInt8) : Frame :=
  [0, 0, 0, 0, 0, 0, 0, 0, 0, 0, 0, 0, 8, 0] ++
  [0x40 + n, 0, 0, tlen, 0, 0, 0, 0, 64, 6, 0, 0, 10, 0, 0, 1, 100, 100, 100, 200] ++ options ++
  [0x9c, 0x40, 0, 80, 0, 0, 0, 0, ack, 0, 0, 0, 0x50, 0x18, 0, 0, 0, 0, 0, 0] ++
  [71, 69, 84, 32, 47, 32, 72, 84, 84, 80, 47, 49, 46, 49, 13, 10]

/-- **The verdict is wrong** in both directions: a request is kept that is no part of the IP
packet, which states a length of 0, and a request behind four bytes of options is dropped. -/
theorem httpFilter_verdict_misled :
    ((httpFilter .plain ∅ (statedFrame 5 0 0 [])).1 = keepPacket ∧
      ¬ HttpLooking (statedFrame 5 0 0 [])) ∧
      (httpFilter .plain ∅ (statedFrame 6 60 0 [1, 1, 1, 0])).1 = dropPacket ∧
        HttpLooking (statedFrame 6 60 0 [1, 1, 1, 0]) := by
  refine ⟨⟨?_, ?_⟩, ?_, ?_⟩
  all_goals decide +kernel

end BpfExamples.Http
