import BpfExamples.Http.Verdict

/-!
# Requests of several segments

A request that is too long for one segment goes on in others of the same connection. In a run,
frames of any connections pass `http_filter`, and userspace writes to `sessions` as it likes.
The filter keeps a segment only if its payload starts with a method, which few but the first do,
and only if the session is not in the state 1, in which the first segment leaves it
(`segments_kept_iff`).
-/

namespace BpfExamples.Http

variable {bcc : Bcc} {m : Sessions} {f : Frame} {key : Key}

/-! ## Segments -/

/-- A TCP segment of the connection with at least seven bytes of payload. -/
structure IsSegment (key : Key) (f : Frame) : Prop where
  ip : fromBytesBig (slice f 12 14) = 0x0800
  tcp : byteAt f 23 = 6
  ipHeader : 5 ≤ ihl f
  tcpHeader : 5 ≤ byteAt f (ethHlen + ihl f * 4 + 12) / 16
  about : keyAt f (ethHlen + ihl f * 4) = key
  payload : ihl f * 4 + byteAt f (ethHlen + ihl f * 4 + 12) / 16 * 4 + 7 ≤
    fromBytesBig (slice f 16 18)
  whole : ethHlen + fromBytesBig (slice f 16 18) ≤ f.length

instance (key : Key) (f : Frame) : Decidable (IsSegment key f) :=
  decidable_of_iff (fromBytesBig (slice f 12 14) = 0x0800 ∧ byteAt f 23 = 6 ∧ 5 ≤ ihl f ∧
    5 ≤ byteAt f (ethHlen + ihl f * 4 + 12) / 16 ∧ keyAt f (ethHlen + ihl f * 4) = key ∧
    ihl f * 4 + byteAt f (ethHlen + ihl f * 4 + 12) / 16 * 4 + 7 ≤
    fromBytesBig (slice f 16 18) ∧ ethHlen + fromBytesBig (slice f 16 18) ≤ f.length)
    ⟨fun ⟨h₁, h₂, h₃, h₄, h₅, h₆, h₇⟩ => ⟨h₁, h₂, h₃, h₄, h₅, h₆, h₇⟩,
      fun ⟨h₁, h₂, h₃, h₄, h₅, h₆, h₇⟩ => ⟨h₁, h₂, h₃, h₄, h₅, h₆, h₇⟩⟩

/-- What happens to the map. -/
inductive SessionEvent
  /-- A frame passes the filter. -/
  | packet (f : Frame)
  /-- Userspace has written to the map, which is now `m`. -/
  | user (m : Sessions)

def SessionEvent.apply (bcc : Bcc) (m : Sessions) : SessionEvent → Sessions
  | .packet f => (httpFilter bcc m f).2
  | .user m' => m'

/-- The map after some events. -/
def sessionsAfter (bcc : Bcc) (m : Sessions) (es : List SessionEvent) : Sessions :=
  es.foldl (SessionEvent.apply bcc) m

/-- Userspace has not deleted the key in the course of the events. -/
def NotDeleted (bcc : Bcc) (key : Key) : Sessions → List SessionEvent → Prop
  | _, [] => True
  | m, e :: es => (key ∈ m → key ∈ e.apply bcc m) ∧ NotDeleted bcc key (e.apply bcc m) es

/-- `P` holds of every segment of the connection at the moment it arrives, as long as userspace
has not deleted the key. -/
def EverySegment (bcc : Bcc) (key : Key) (P : Sessions → Frame → Prop) (m : Sessions)
    (es : List SessionEvent) : Prop :=
  ∀ before f after, es = before ++ .packet f :: after → NotDeleted bcc key m before →
    IsSegment key f → P (sessionsAfter bcc m before) f

/-- What a segment needs: a method at the place where the filter looks for the payload, and a
session that is not in the state 1, or room for a new one. The filter takes the TCP header to
start at byte 34. -/
def Opens (m : Sessions) (f : Frame) : Prop :=
  (LooksHttp f 34 ∨ Wraps f 34) ∧ Admits m (keyAt f 34)

/-- The run has two segments of the connection without IP options. -/
def TwoSegments (key : Key) (es : List SessionEvent) : Prop :=
  ∃ before f mid g after, es = before ++ .packet f :: (mid ++ .packet g :: after) ∧
    (IsSegment key f ∧ ihl f = 5) ∧ IsSegment key g ∧ ihl g = 5

/-- For a segment without IP options the filter looks at the right place. -/
theorem IsSegment.matchHeaders (hseg : IsSegment key f) (hplain : ihl f = 5) :
    ∃ len, Http.matchHeaders f =
      if httpMatch (slice f (offsetAt f 34) (offsetAt f 34 + 7)) then
        some ⟨key, offsetAt f 34, len⟩ else none := by
  obtain ⟨htype, htcp, -, hdoff, habout, hpay, hwhole⟩ := hseg
  have ht : ethHlen + ihl f * 4 = 34 := by
    rw [hplain]
    rfl
  rw [ht] at hdoff habout hpay
  change 5 ≤ byteAt f 46 / 16 at hdoff
  change ihl f * 4 + byteAt f 46 / 16 * 4 + 7 ≤ _ at hpay
  have heth : ethHlen = 14 := rfl
  have hoff : offsetAt f 34 = 14 + ihl f * 4 + byteAt f 46 / 16 * 4 := rfl
  have htlen : fromBytesBig (slice f 16 18) < 65536 := fromBytesBig_slice_lt f 16
  have hparse := parseHeaders_of (f := f) (by omega) htype htcp
  rw [habout] at hparse
  exact ⟨_, matchHeaders_of hparse (by dsimp only; omega) (by dsimp only; omega)⟩

theorem IsSegment.ipv4Tcp (hseg : IsSegment key f) : Ipv4Tcp f := by
  obtain ⟨htype, htcp, hihl, -, -, hpay, hwhole⟩ := hseg
  have heth : ethHlen = 14 := rfl
  exact ⟨by omega, htype, htcp⟩

/-- **When a segment is kept.** -/
theorem IsSegment.kept_iff (hseg : IsSegment key f) (bcc : Bcc) (m : Sessions) :
    (httpFilter bcc m f).1 = keepPacket ↔ Opens m f := by
  rw [httpFilter_keeps_iff]
  constructor
  · rintro ⟨k, hk, hadm⟩
    obtain ⟨rfl, -, hlooks⟩ := matchKey_iff.mp hk
    exact ⟨hlooks, hadm⟩
  · exact fun h => ⟨_, matchKey_iff.mpr ⟨rfl, hseg.ipv4Tcp, h.1⟩, h.2⟩

/-- A segment without IP options needs a method at the start of its payload. -/
theorem IsSegment.opens_iff (hseg : IsSegment key f) (hplain : ihl f = 5) :
    Opens m f ↔ httpMatch (slice f (offsetAt f 34) (offsetAt f 34 + 7)) = true ∧
      Admits m key := by
  have habout : keyAt f 34 = key := by
    have h := hseg.about
    rwa [hplain] at h
  obtain ⟨len, hmatch⟩ := hseg.matchHeaders hplain
  rw [Opens, habout, ← and_iff_right (a := Ipv4Tcp f)
    (b := LooksHttp f 34 ∨ Wraps f 34) hseg.ipv4Tcp, ← matchHeaders_iff, hmatch]
  refine and_congr_left fun _ => ?_
  split
  · next h => exact iff_of_true ⟨_, rfl⟩ h
  · next h =>
    refine iff_of_false ?_ h
    rintro ⟨v, hv⟩
    cases hv

/-! ## After the first segment -/

theorem notDeleted_of_packets :
    ∀ {es : List SessionEvent} {m : Sessions}, (∀ e ∈ es, ∃ f, e = .packet f) →
      NotDeleted bcc key m es
  | [], _, _ => trivial
  | e :: es, m, hes => by
    obtain ⟨f, rfl⟩ := hes e List.mem_cons_self
    refine ⟨fun hmem => ?_, notDeleted_of_packets fun e he => hes e (List.mem_cons_of_mem _ he)⟩
    obtain ⟨leaf, hl⟩ := Table.mem_iff_lookup.mp hmem
    exact Table.mem_iff_lookup.mpr ⟨leaf, lookup_httpFilter_of_some hl f⟩

/-- The frames of the run leave the state of a session alone, and put a new one into the state
1. -/
theorem lookup_sessionsAfter {P : Option Leaf → Prop} (hone : P (some ⟨1, 0⟩)) :
    ∀ {es : List SessionEvent} {m : Sessions}, P (m.lookup key) →
      (∀ e ∈ es, ∃ f, e = .packet f) →
      P ((sessionsAfter bcc m es).lookup key)
  | [], _, h, _ => h
  | e :: es, m, h, hes => by
    obtain ⟨f, rfl⟩ := hes e List.mem_cons_self
    have hrest : ∀ e ∈ es, ∃ f, e = .packet f := fun e he => hes e (List.mem_cons_of_mem _ he)
    refine lookup_sessionsAfter hone (m := (httpFilter bcc m f).2) ?_ hrest
    rw [lookup_httpFilter]
    split
    · exact hone
    · exact h

/-- **After the first segment the others are lost.** A segment that the filter keeps puts a new
session into the state 1; and then no segment of the connection is kept, until userspace writes
to the map. -/
theorem segment_after_first (hnew : key ∉ m) (hroom : m.size < sessionsSize) {first : Frame}
    (hfirst : matchKey first = some key) {es : List SessionEvent}
    (hes : ∀ e ∈ es, ∃ f, e = .packet f) (hkey : matchKey f = some key) :
    (httpFilter bcc (sessionsAfter bcc m (.packet first :: es)) f).1 = dropPacket := by
  have hone : (httpFilter bcc m first).2.lookup key = some ⟨1, 0⟩ := by
    rw [lookup_httpFilter, if_pos ⟨hfirst, hnew, hroom⟩]
  have hstill : (sessionsAfter bcc m (.packet first :: es)).lookup key = some ⟨1, 0⟩ :=
    lookup_sessionsAfter (P := (· = some ⟨1, 0⟩)) rfl (m := (httpFilter bcc m first).2) hone hes
  rw [httpFilter_of_key hkey, onMatch, hstill]
  rfl

/-- **Two segments of a new connection** are not both kept, unless userspace writes to the
map. -/
theorem segments_lost {es : List SessionEvent} (hnew : key ∉ m)
    (hes : ∀ e ∈ es, ∃ f, e = .packet f) (htwo : TwoSegments key es) :
    ¬ EverySegment bcc key (fun m f => (httpFilter bcc m f).1 = keepPacket) m es := by
  obtain ⟨before, f, mid, g, after, rfl, ⟨hf, hfplain⟩, hg, hgplain⟩ := htwo
  intro hkept
  have hbefore : ∀ e ∈ before, ∃ f, e = .packet f :=
    fun e he => hes e (List.mem_append_left _ he)
  have hmid : ∀ e ∈ mid, ∃ f, e = .packet f := fun e he =>
    hes e (List.mem_append_right _ (List.mem_cons_of_mem _ (List.mem_append_left _ he)))
  -- a plain segment that is kept has the key
  have hplain : ∀ {m f}, IsSegment key f → ihl f = 5 → (httpFilter bcc m f).1 = keepPacket →
      matchKey f = some key ∧ Admits m key := by
    intro m f hseg hihl hkeep
    obtain ⟨k, hk, hadm⟩ := (httpFilter_keeps_iff bcc m f).mp hkeep
    have habout := hseg.about
    rw [hihl] at habout
    obtain rfl : key = k := habout.symm.trans (matchKey_iff.mp hk).1
    exact ⟨hk, hadm⟩
  obtain ⟨hfirst, hadm⟩ :=
    hplain hf hfplain (hkept before f _ rfl (notDeleted_of_packets hbefore) hf)
  -- before the first segment the session is new, or in the state 1
  have hfresh : key ∉ sessionsAfter bcc m before := by
    intro hmem
    obtain ⟨leaf, hl⟩ := Table.mem_iff_lookup.mp hmem
    have hstate : (sessionsAfter bcc m before).lookup key = none ∨
        (sessionsAfter bcc m before).lookup key = some ⟨1, 0⟩ :=
      lookup_sessionsAfter (P := fun o => o = none ∨ o = some ⟨1, 0⟩) (.inr rfl)
        (.inl (AList.lookup_eq_none.mpr hnew)) hbefore
    rcases hstate with h | h
    · rw [h] at hl
      cases hl
    · exact hadm.1 _ h rfl
  have hto : ∀ e ∈ before ++ .packet f :: mid, ∃ f, e = .packet f := by
    intro e he
    rcases List.mem_append.mp he with he | he
    · exact hbefore e he
    · rcases List.mem_cons.mp he with rfl | he
      · exact ⟨f, rfl⟩
      · exact hmid e he
  have hsplit : before ++ .packet f :: (mid ++ .packet g :: after) =
      (before ++ .packet f :: mid) ++ .packet g :: after := by
    rw [List.append_assoc, List.cons_append]
  have hsecond := hkept _ g after hsplit (notDeleted_of_packets hto) hg
  have hkey := (hplain hg hgplain hsecond).1
  rw [sessionsAfter, List.foldl_append] at hsecond
  exact dropPacket_ne
    ((segment_after_first hfresh (hadm.2 hfresh) hfirst hmid hkey).symm.trans hsecond)

/-- **Which requests reach userspace whole**: those of which every segment could be the first.
In a run without writes of userspace these have one segment. -/
theorem segments_kept_iff (bcc : Bcc) (key : Key) (m : Sessions) (es : List SessionEvent) :
    (EverySegment bcc key (fun m f => (httpFilter bcc m f).1 = keepPacket) m es ↔
      EverySegment bcc key Opens m es) ∧
    (key ∉ m → (∀ e ∈ es, ∃ f, e = .packet f) → TwoSegments key es →
      ¬ EverySegment bcc key (fun m f => (httpFilter bcc m f).1 = keepPacket) m es) := by
  refine ⟨⟨?_, ?_⟩, segments_lost⟩
  · intro h before f after hes hnot hseg
    exact (hseg.kept_iff bcc _).mp (h before f after hes hnot hseg)
  · intro h before f after hes hnot hseg
    exact (hseg.kept_iff bcc _).mpr (h before f after hes hnot hseg)

/-- A segment from 10.0.0.1 port 40000 to 100.100.100.200 port 80 with a payload of eight
bytes. -/
def segmentFrame (payload : List UInt8) : Frame :=
  [0, 0, 0, 0, 0, 0, 0, 0, 0, 0, 0, 0, 8, 0] ++
  [0x45, 0, 0, 48, 0, 0, 0, 0, 64, 6, 0, 0, 10, 0, 0, 1, 100, 100, 100, 200] ++
  [0x9c, 0x40, 0, 80, 0, 0, 0, 0, 0, 0, 0, 0, 0x50, 0x18, 0, 0, 0, 0, 0, 0] ++ payload

/-- `GET /abc`, and what follows it. -/
def firstHalf : Frame := segmentFrame [71, 69, 84, 32, 47, 97, 98, 99]
@[inherit_doc firstHalf] def secondHalf : Frame :=
  segmentFrame [100, 101, 102, 103, 104, 13, 10, 13]

/-- The key of this connection. -/
def segmentKey : Key := ⟨0x0a000001, 0x646464c8, 40000, 80⟩

/-- The request `GET /def` on the same connection. -/
def nextRequest : Frame := segmentFrame [71, 69, 84, 32, 47, 100, 101, 102]

/-- Two segments that are both kept: userspace marks the session after the first, and the second
starts with a method. -/
theorem segments_kept_marked :
    EverySegment .plain segmentKey (fun m f => (httpFilter .plain m f).1 = keepPacket) ∅
      [.packet firstHalf, .user ((∅ : Sessions).insert segmentKey ⟨2, 0⟩),
        .packet nextRequest] := by
  refine (segments_kept_iff .plain segmentKey ∅ _).1.mpr fun before f after hes _ hseg => ?_
  rcases before with _ | ⟨e₁, _ | ⟨e₂, _ | ⟨e₃, rest⟩⟩⟩
  · obtain rfl : firstHalf = f := by injection hes with h; injection h
    exact (hseg.opens_iff (by decide +kernel)).mpr (by decide +kernel)
  · injection hes with _ h
    injection h with h
    cases h
  · obtain ⟨rfl, rfl, h⟩ : .packet firstHalf = e₁ ∧
        .user ((∅ : Sessions).insert segmentKey ⟨2, 0⟩) = e₂ ∧ nextRequest = f := by
      injection hes with h₁ h
      injection h with h₂ h
      injection h with h₃
      injection h₃ with h₃
      exact ⟨h₁, h₂, h₃⟩
    obtain rfl := h
    exact (hseg.opens_iff (by decide +kernel)).mpr (by decide +kernel)
  · have hlen := congrArg List.length hes
    simp only [List.length_cons, List.length_nil, List.length_append] at hlen
    omega

/-- **The second half of a request is dropped.** -/
theorem secondHalf_dropped :
    ¬ EverySegment .plain segmentKey (fun m f => (httpFilter .plain m f).1 = keepPacket) ∅
      [.packet firstHalf, .packet secondHalf] := by
  intro h
  have hseg : IsSegment segmentKey secondHalf := by decide +kernel
  have hnot : NotDeleted .plain segmentKey ∅ [.packet firstHalf] :=
    ⟨fun h => absurd h (AList.notMem_empty _), trivial⟩
  have hkept := h [.packet firstHalf] secondHalf [] rfl hnot hseg
  exact absurd hkept (by decide +kernel)

end BpfExamples.Http
