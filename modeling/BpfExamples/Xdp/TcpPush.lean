import BpfExamples.Base.OnesComplement
import BpfExamples.Xdp.SecurityGroup

/-!
# The PSH flag (`tcp_push/tcp_push.c`)

`tcp_psh` sets the PSH flag of one TCP packet in ten. It takes the TCP header to be 20 bytes
behind the start of the IP header, and it leaves the checksum as it is.

- `tcpPsh_eq`: a packet that is picked gets one bit in byte 47, whatever that byte is.
- `tcpPsh_intact_iff`: so a packet that is picked comes out intact only if its checksum was not
  valid before and byte 47 is in the flags or the checksum of its TCP header.
-/

namespace BpfExamples.TcpPush

open SecurityGroup (ipEnd Fragmented sizeofEthhdr sizeofIphdr sizeofTcphdr)

/-! ## The program -/

/-- `RATIO`. -/
def ratio : Nat := 10

/-- The flags of `struct tcphdr` that the program uses, as bits of byte 13. -/
def finBit : Nat := 0
@[inherit_doc finBit] def synBit : Nat := 1
@[inherit_doc finBit] def rstBit : Nat := 2
@[inherit_doc finBit] def pshBit : Nat := 3

/-- `tcp_psh` (tcp_push.c:30–54), where `rnd` is what `bpf_get_prandom_u32` gives. -/
def tcpPsh (rnd : UInt32) (f : Frame) : Int × Frame :=
  let iph := sizeofEthhdr
  let tcphdr := iph + sizeofIphdr
  if f.length < tcphdr + sizeofTcphdr then (0, f)
  else if wordAt f 12 ≠ 0x0800 ∨ byteAt f (iph + 9) ≠ 6 then (0, f)
  else
    let flags := byteAt f (tcphdr + 13)
    if flags.testBit synBit ∨ flags.testBit finBit ∨ flags.testBit rstBit ∨
      flags.testBit pshBit then (0, f)
    else if rnd.toNat % ratio = 0 then
      (0, f.set (tcphdr + 13) (UInt8.ofNat (flags ||| 2 ^ pshBit)))
    else (0, f)

/-- `xdp_main` (tcp_push.c:56–66). -/
def xdpMain (rnd : UInt32) (f : Frame) : XdpAction × Frame :=
  let (ret, f) := tcpPsh rnd f
  if ret ≠ 0 then (.drop, f) else (.pass, f)

/-- `TC_ACT_SHOT` and `TC_ACT_OK`. -/
inductive TcAction
  | shot
  | ok
deriving DecidableEq, Repr

/-- `tc_main` (tcp_push.c:68–78). -/
def tcMain (rnd : UInt32) (f : Frame) : TcAction × Frame :=
  let (ret, f) := tcpPsh rnd f
  if ret ≠ 0 then (.shot, f) else (.ok, f)

/-! ## Packets -/

/-- A whole IPv4 packet with a TCP segment. The frame may be longer than the packet. -/
structure TcpPacket (f : Frame) : Prop where
  header : 34 ≤ f.length
  etherType : wordAt f 12 = 0x0800
  version : byteAt f 14 / 16 = 4
  ihl : 5 ≤ byteAt f 14 % 16
  protocol : byteAt f 23 = 6
  whole : ¬ Fragmented f
  tcpHeader : ipEnd f + 20 ≤ 14 + wordAt f 16
  totLen : 14 + wordAt f 16 ≤ f.length

/-- The length of the TCP segment. -/
def tcpLength (f : Frame) : Nat := 14 + wordAt f 16 - ipEnd f

/-- The TCP segment. -/
def segment (f : Frame) : List UInt8 := (f.drop (ipEnd f)).take (tcpLength f)

/-- The addresses, the protocol and the length, which the TCP checksum covers as well. -/
def pseudoHeader (f : Frame) : List UInt16 :=
  [wordAt f 26, wordAt f 28, wordAt f 30, wordAt f 32, byteAt f 23,
    tcpLength f].map UInt16.ofNat

/-- A TCP packet with a valid checksum. -/
def ValidTcp (f : Frame) : Prop :=
  TcpPacket f ∧ onesSum (pseudoHeader f ++ netWords (segment f)) = 0xffff

/-- Nothing differs but the PSH bit and the checksum of the TCP header. -/
def SameButPush (f f' : Frame) : Prop :=
  f'.length = f.length ∧
    (∀ i, i ≠ ipEnd f + 13 → i ≠ ipEnd f + 16 → i ≠ ipEnd f + 17 → byteAt f' i = byteAt f i) ∧
    ∀ k, k ≠ pshBit → (byteAt f' (ipEnd f + 13)).testBit k = (byteAt f (ipEnd f + 13)).testBit k

/-- What the program should do to a packet at most. -/
def Intact (f f' : Frame) : Prop := SameButPush f f' ∧ (ValidTcp f → ValidTcp f')

theorem Intact.refl (f : Frame) : Intact f f := ⟨⟨rfl, fun _ _ _ _ => rfl, fun _ _ => rfl⟩, id⟩

/-! ## What is written -/

/-- The program picks the packet. -/
def Picked (rnd : UInt32) (f : Frame) : Prop :=
  54 ≤ f.length ∧ wordAt f 12 = 0x0800 ∧ byteAt f 23 = 6 ∧ byteAt f 47 % 16 = 0 ∧
    rnd.toNat % ratio = 0

instance (rnd : UInt32) (f : Frame) : Decidable (Picked rnd f) :=
  inferInstanceAs (Decidable (_ ∧ _ ∧ _ ∧ _ ∧ _))

/-- The frame with the bit in byte 47. -/
def pushed (f : Frame) : Frame := f.set 47 (UInt8.ofNat (byteAt f 47 ||| 2 ^ pshBit))

theorem flags_iff (n : Nat) :
    (n.testBit synBit ∨ n.testBit finBit ∨ n.testBit rstBit ∨ n.testBit pshBit) ↔
      n % 16 ≠ 0 := by
  simp only [Nat.testBit_eq_decide_div_mod_eq, decide_eq_true_eq, synBit, finBit,
    rstBit, pshBit]
  omega

theorem or_psh {n : Nat} (h : n % 16 = 0) : n ||| 2 ^ pshBit = n + 8 := by
  have hn : n = 2 ^ 4 * (n / 16) := by omega
  rw [hn]
  exact (Nat.two_pow_add_eq_or_of_lt (by decide : 8 < 2 ^ 4) _).symm

/-- **What the program does**: its result is 0, and the packets that are picked get the bit. -/
theorem tcpPsh_eq (rnd : UInt32) (f : Frame) :
    tcpPsh rnd f = (0, if Picked rnd f then pushed f else f) := by
  unfold tcpPsh
  by_cases hlen : f.length < 54
  · rw [if_neg fun h : Picked rnd f => absurd h.1 (by omega)]
    exact if_pos hlen
  refine (if_neg hlen).trans ?_
  by_cases htcp : wordAt f 12 ≠ 0x0800 ∨ byteAt f 23 ≠ 6
  · rw [if_neg fun h : Picked rnd f => htcp.elim (· h.2.1) (· h.2.2.1)]
    exact if_pos htcp
  refine (if_neg htcp).trans ?_
  obtain ⟨htype, hproto⟩ := not_or.mp htcp
  have hiff := flags_iff (byteAt f 47)
  by_cases hflags : byteAt f 47 % 16 ≠ 0
  · rw [if_neg fun h : Picked rnd f => hflags h.2.2.2.1]
    exact if_pos (hiff.mpr hflags)
  refine (if_neg (mt hiff.mp hflags)).trans ?_
  by_cases hrnd : rnd.toNat % ratio = 0
  · have hpicked : Picked rnd f := ⟨by omega, not_not.mp htype, not_not.mp hproto,
      not_not.mp hflags, hrnd⟩
    rw [if_pos hpicked]
    exact if_pos hrnd
  · rw [if_neg fun h : Picked rnd f => hrnd h.2.2.2.2]
    exact if_neg hrnd

/-- No packet is ever lost. -/
theorem xdpMain_pass (rnd : UInt32) (f : Frame) :
    (xdpMain rnd f).1 = .pass ∧ (tcMain rnd f).1 = .ok := by
  simp [xdpMain, tcMain, tcpPsh_eq]

section Pushed

variable {rnd : UInt32} {f : Frame}

theorem byteAt_pushed_ne {i : Nat} (h : i ≠ 47) : byteAt (pushed f) i = byteAt f i := by
  rw [byteAt, pushed, List.getD_eq_getElem?_getD,
    List.getElem?_set_ne h.symm, ← List.getD_eq_getElem?_getD, byteAt]

theorem wordAt_pushed {i : Nat} (h : i + 1 < 47) : wordAt (pushed f) i = wordAt f i := by
  rw [wordAt, byteAt_pushed_ne (by omega), byteAt_pushed_ne (by omega), wordAt]

theorem ipEnd_pushed : ipEnd (pushed f) = ipEnd f := by
  rw [ipEnd, byteAt_pushed_ne (by decide), ipEnd]

theorem length_pushed : (pushed f).length = f.length := List.length_set

theorem toNat_pushed (h : Picked rnd f) :
    (UInt8.ofNat (byteAt f 47 ||| 2 ^ pshBit)).toNat = byteAt f 47 + 8 := by
  have hlow := h.2.2.2.1
  have hlt := byteAt_lt f 47
  rw [UInt8.toNat_ofNat', or_psh hlow]
  omega

theorem byteAt_pushed (h : Picked rnd f) : byteAt (pushed f) 47 = byteAt f 47 + 8 := by
  have hlen : 47 < f.length := Nat.lt_of_lt_of_le (by decide) h.1
  rw [byteAt, pushed, List.getD_eq_getElem?_getD, List.getElem?_set_self hlen]
  exact toNat_pushed h

/-- The packet without options gets the bit into its flags. -/
theorem segment_pushed (h : ipEnd f = 34) :
    segment (pushed f) = (segment f).set 13 (UInt8.ofNat (byteAt f 47 ||| 2 ^ pshBit)) := by
  have hlen : tcpLength (pushed f) = tcpLength f := by
    rw [tcpLength, ipEnd_pushed, wordAt_pushed (by decide), tcpLength]
  rw [segment, hlen, ipEnd_pushed, h, pushed, List.drop_set, if_neg (by decide),
    List.take_set, segment, h]

theorem pseudoHeader_pushed : pseudoHeader (pushed f) = pseudoHeader f := by
  unfold pseudoHeader tcpLength
  rw [ipEnd_pushed, wordAt_pushed (by decide), wordAt_pushed (by decide),
    wordAt_pushed (by decide), wordAt_pushed (by decide), wordAt_pushed (by decide),
    byteAt_pushed_ne (by decide)]

/-- **A valid checksum is lost**: the sum of the packet grows by 8. -/
theorem not_validTcp_pushed (h : Picked rnd f) (hend : ipEnd f = 34) (hvalid : ValidTcp f) :
    ¬ ValidTcp (pushed f) := by
  rintro ⟨-, hsum'⟩
  obtain ⟨hpacket, hsum⟩ := hvalid
  have hfits := hpacket.tcpHeader
  have htot := hpacket.totLen
  have hlen : 13 < (segment f).length := by
    rw [segment, List.length_take, List.length_drop, tcpLength]
    omega
  have hold : ((segment f).getD 13 0).toNat = byteAt f 47 := by
    rw [segment, hend, List.getD_eq_getElem?_getD, List.getElem?_take_of_lt
      (by rw [tcpLength]; omega), List.getElem?_drop, ← List.getD_eq_getElem?_getD, byteAt]
  have hset := wordSum_netWords_set (UInt8.ofNat (byteAt f 47 ||| 2 ^ pshBit))
    (segment f) 13 hlen
  have hweight : byteWeight 13 = 1 := rfl
  rw [hweight, hold, toNat_pushed h] at hset
  rw [onesSum_eq_ffff_iff, wordSum_append] at hsum hsum'
  rw [pseudoHeader_pushed, segment_pushed hend] at hsum'
  omega

/-- Where byte 47 is for a TCP header that starts where the IP header says. -/
theorem sameButPush_pushed_iff (h : Picked rnd f) :
    SameButPush f (pushed f) ↔ ipEnd f = 34 ∨ ipEnd f = 30 := by
  have hend : ipEnd f = 14 + 4 * (byteAt f 14 % 16) := rfl
  constructor
  · rintro ⟨-, hbytes, -⟩
    by_contra hno
    have hsame : byteAt (pushed f) 47 = byteAt f 47 :=
      hbytes 47 (by omega) (by omega) (by omega)
    rw [byteAt_pushed h] at hsame
    omega
  · intro hwhere
    refine ⟨length_pushed, fun i h₁ _ h₂ => byteAt_pushed_ne (by omega), fun k hk => ?_⟩
    by_cases hflags : ipEnd f + 13 = 47
    · rw [hflags, byteAt_pushed h, ← or_psh h.2.2.2.1, Nat.testBit_or,
        Nat.testBit_two_pow_of_ne hk.symm, Bool.or_false]
    · rw [byteAt_pushed_ne hflags]

end Pushed

/-- **A packet comes out intact** exactly if it is not picked, or byte 47 is in the flags or the
checksum of its TCP header and the checksum was not valid. -/
theorem tcpPsh_intact_iff (rnd : UInt32) (f : Frame) :
    Intact f (tcpPsh rnd f).2 ↔
      (Picked rnd f → (ipEnd f = 34 ∨ ipEnd f = 30) ∧ ¬ ValidTcp f) := by
  rw [tcpPsh_eq]
  by_cases h : Picked rnd f
  · rw [if_pos h, Intact, sameButPush_pushed_iff h]
    refine Iff.trans ?_ (forall_prop_of_true h).symm
    refine and_congr_right fun hwhere =>
      ⟨fun hkeep hvalid => ?_, fun hnot hvalid => absurd hvalid hnot⟩
    -- a valid packet has an IP header of 20 bytes at least, so it is the flags that changed
    have hihl := hvalid.1.ihl
    have hend : ipEnd f = 34 := by
      rcases hwhere with hend | hend
      · exact hend
      · rw [ipEnd] at hend
        omega
    exact not_validTcp_pushed h hend hvalid (hkeep hvalid)
  · rw [if_neg h]
    exact iff_of_true (Intact.refl f) fun hpicked => absurd hpicked h

/-- A segment with nothing but an acknowledgement, from 10.0.0.1 to 10.0.0.2. -/
def ackFrame : Frame :=
  [0, 0, 0, 0, 0, 0, 0, 0, 0, 0, 0, 0, 8, 0] ++
    [0x45, 0, 0, 40, 0, 0, 0, 0, 64, 6, 0x66, 0xce, 10, 0, 0, 1, 10, 0, 0, 2] ++
    [0, 80, 0, 80, 0, 0, 0, 1, 0, 0, 0, 1, 0x50, 0x10, 0x20, 0, 0x7b, 0x30, 0, 0]

/-- It has a valid checksum, and with the random value 0 it comes out without. -/
theorem tcpPsh_breaks_checksum :
    ValidTcp ackFrame ∧ ¬ ValidTcp (tcpPsh 0 ackFrame).2 ∧
      ¬ Intact ackFrame (tcpPsh 0 ackFrame).2 := by
  have hvalid : ValidTcp ackFrame := ⟨⟨by decide, by decide, by decide, by decide, by decide, by
      decide, by decide, by decide⟩, by decide⟩
  have hlost : ¬ ValidTcp (tcpPsh 0 ackFrame).2 := fun h => absurd h.2 (by decide)
  exact ⟨hvalid, hlost, fun h => hlost (h.2 hvalid)⟩

end BpfExamples.TcpPush
