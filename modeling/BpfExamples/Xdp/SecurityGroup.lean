import BpfExamples.Base.Frames

/-!
# The security group (`xdp-security-group/sg.bpf.c`)

The program drops the TCP packets to port 12160 that do not come from port 10216. It looks for
the ports 20 bytes behind the start of the IP header, and at nothing but the protocol before
that.

- `securePolicy_iff`: a frame is dropped exactly if it should be, unless its IP header is not 20
  bytes long or it is a fragment, and the two bytes that the program takes for the ports are
  misleading.
-/

namespace BpfExamples.SecurityGroup

/-! ## The program -/

/-- The sizes of `struct ethhdr`, `struct iphdr` and `struct tcphdr`. -/
def sizeofEthhdr : Nat := 14
@[inherit_doc sizeofEthhdr] def sizeofIphdr : Nat := 20
@[inherit_doc sizeofEthhdr] def sizeofTcphdr : Nat := 20

/-- `is_secure_source` (sg.bpf.c:10–52). Each header is read behind the check that the frame has
all of it. -/
def isSecureSource (f : Frame) : Bool :=
  if f.length < sizeofEthhdr then true
  else if wordAt f 12 ≠ 0x0800 then true
  else
    let ipHeader := sizeofEthhdr
    if f.length < ipHeader + sizeofIphdr then true
    else if byteAt f (ipHeader + 9) ≠ 6 then true
    else
      let tcpHeader := ipHeader + sizeofIphdr
      if f.length < tcpHeader + sizeofTcphdr then true
      else if wordAt f (tcpHeader + 2) = 12160 then
        if wordAt f tcpHeader ≠ 10216 then false else true
      else true

/-- `xdp_secure_policy` (sg.bpf.c:54–64). -/
def xdpSecurePolicy (f : Frame) : XdpAction := if isSecureSource f then .pass else .drop

/-! ## The policy -/

/-- A frame of type IPv4 whose IP header says TCP. -/
def Ipv4Tcp (f : Frame) : Prop := 34 ≤ f.length ∧ wordAt f 12 = 0x0800 ∧ byteAt f 23 = 6

/-- More fragments follow, or it is not the first. -/
def Fragmented (f : Frame) : Prop := wordAt f 20 % 0x4000 ≠ 0

/-- Where the IP header ends by its length field. -/
def ipEnd (f : Frame) : Nat := 14 + 4 * (byteAt f 14 % 16)

/-- A basic TCP header is at `i`, and its ports are not allowed. -/
def Refused (f : Frame) (i : Nat) : Prop :=
  i + 20 ≤ f.length ∧ wordAt f (i + 2) = 12160 ∧ wordAt f i ≠ 10216

instance (f : Frame) : Decidable (Ipv4Tcp f) := inferInstanceAs (Decidable (_ ∧ _ ∧ _))
instance (f : Frame) : Decidable (Fragmented f) := inferInstanceAs (Decidable (_ ≠ _))
instance (f : Frame) (i : Nat) : Decidable (Refused f i) :=
  inferInstanceAs (Decidable (_ ∧ _ ∧ _))

/-- The packets that the security group is to drop. -/
def MustDrop (f : Frame) : Prop := Ipv4Tcp f ∧ ¬ Fragmented f ∧ Refused f (ipEnd f)

instance (f : Frame) : Decidable (MustDrop f) := inferInstanceAs (Decidable (_ ∧ _ ∧ _))

/-- The bytes behind the first 20 of the IP header do not mislead the program: in a fragment
they do not look like ports to refuse, and behind a header of another length they look like the
ports that the packet has. -/
def Plain (f : Frame) : Prop :=
  Ipv4Tcp f → (Fragmented f → ¬ Refused f 34) ∧
    (¬ Fragmented f → ipEnd f ≠ 34 → (Refused f 34 ↔ Refused f (ipEnd f)))

theorem isSecureSource_eq_false_iff (f : Frame) :
    isSecureSource f = false ↔ Ipv4Tcp f ∧ Refused f 34 := by
  have hpass : ∀ {p : Prop}, ¬ p → (true = false ↔ p) := fun hp => iff_of_false (by decide) hp
  unfold isSecureSource
  by_cases h₁ : f.length < 14
  · rw [if_pos (show f.length < sizeofEthhdr from h₁)]
    exact hpass fun h => absurd h.1.1 (by omega)
  rw [if_neg (show ¬ f.length < sizeofEthhdr from h₁)]
  by_cases h₂ : wordAt f 12 = 0x0800
  swap
  · rw [if_pos h₂]
    exact hpass fun h => h₂ h.1.2.1
  rw [if_neg (not_not.mpr h₂)]
  by_cases h₃ : f.length < 34
  · rw [if_pos (show f.length < sizeofEthhdr + sizeofIphdr from h₃)]
    exact hpass fun h => absurd h.1.1 (by omega)
  rw [if_neg (show ¬ f.length < sizeofEthhdr + sizeofIphdr from h₃)]
  by_cases h₄ : byteAt f 23 = 6
  swap
  · rw [if_pos (show byteAt f (sizeofEthhdr + 9) ≠ 6 from h₄)]
    exact hpass fun h => h₄ h.1.2.2
  rw [if_neg (show ¬ byteAt f (sizeofEthhdr + 9) ≠ 6 from not_not.mpr h₄)]
  have hip : Ipv4Tcp f := ⟨by omega, h₂, h₄⟩
  by_cases h₅ : f.length < 54
  · rw [if_pos (show f.length < sizeofEthhdr + sizeofIphdr + sizeofTcphdr from h₅)]
    exact hpass fun h => absurd h.2.1 (by omega)
  rw [if_neg (show ¬ f.length < sizeofEthhdr + sizeofIphdr + sizeofTcphdr from h₅)]
  -- the ports
  by_cases h₆ : wordAt f 36 = 12160
  swap
  · rw [if_neg (show ¬ wordAt f (sizeofEthhdr + sizeofIphdr + 2) = 12160 from h₆)]
    exact hpass fun h => h₆ h.2.2.1
  rw [if_pos (show wordAt f (sizeofEthhdr + sizeofIphdr + 2) = 12160 from h₆)]
  by_cases h₇ : wordAt f 34 = 10216
  · rw [if_neg (show ¬ wordAt f (sizeofEthhdr + sizeofIphdr) ≠ 10216 from not_not.mpr h₇)]
    exact hpass fun h => h.2.2.2 h₇
  · rw [if_pos (show wordAt f (sizeofEthhdr + sizeofIphdr) ≠ 10216 from h₇)]
    exact iff_of_true rfl ⟨hip, by omega, h₆, h₇⟩

/-- **What the program drops.** -/
theorem xdpSecurePolicy_drop_iff (f : Frame) :
    xdpSecurePolicy f = .drop ↔ Ipv4Tcp f ∧ Refused f 34 := by
  rw [← isSecureSource_eq_false_iff, xdpSecurePolicy]
  cases isSecureSource f <;> simp

/-- **The policy holds** for a frame exactly if nothing in it misleads the program. -/
theorem securePolicy_iff (f : Frame) : (xdpSecurePolicy f = .drop ↔ MustDrop f) ↔ Plain f := by
  rw [xdpSecurePolicy_drop_iff, MustDrop, Plain]
  by_cases hip : Ipv4Tcp f
  · by_cases hfrag : Fragmented f
    · simp [hip, hfrag]
    · by_cases hend : ipEnd f = 34
      · simp [hip, hfrag, hend]
      · simp [hip, hfrag, hend]
  · simp [hip]

/-- A frame with an IP header of `20 + options.length` bytes. -/
def packet (verHlen : UInt8) (frag options ports : List UInt8) : Frame :=
  List.replicate 12 0 ++ [8, 0] ++ [verHlen, 0, 0, 0, 0, 0] ++ frag ++ [64,
    6] ++ List.replicate 10 0 ++ options ++ ports ++
    List.replicate 16 0

/-- **Three packets that are treated wrongly**: one to port 12160 behind four bytes of options
passes; one to port 80 whose options end in the bytes of 12160 is dropped; and so is a later
fragment that carries these bytes as data. -/
theorem securePolicy_misled :
    (MustDrop (packet 0x46 [0, 0] [1, 1, 1, 1] [0x80, 0, 0x2f, 0x80]) ∧
      xdpSecurePolicy (packet 0x46 [0, 0] [1, 1, 1, 1] [0x80, 0, 0x2f, 0x80]) = .pass) ∧
    (¬ MustDrop (packet 0x46 [0, 0] [1, 1, 0x2f, 0x80] [0x80, 0, 0, 80]) ∧
      xdpSecurePolicy (packet 0x46 [0, 0] [1, 1, 0x2f, 0x80] [0x80, 0, 0, 80]) = .drop) ∧
    (¬ MustDrop (packet 0x45 [0, 1] [] [0, 0, 0x2f, 0x80]) ∧
      xdpSecurePolicy (packet 0x45 [0, 1] [] [0, 0, 0x2f, 0x80]) = .drop) := by
  decide

end BpfExamples.SecurityGroup
