import BpfExamples.Base.Frames
import BpfExamples.Base.Maps

/-!
# The kernel side of the HTTP fault injector (`ebpf-http/http-parse-complete.c`)

Two programs share the map `sessions`. `http_filter` sees every frame of the interface and
decides whether userspace gets a copy; `xdp_prog1` sees the incoming ones before the network
stack and can drop them. What `sessions` holds for a connection is a `Leaf`, whose `timestamp`
the programs use as a state: 1 for a request that userspace has seen, 2 for a connection whose
packets are to be dropped.

A load behind the end of the frame ends `http_filter`, and the frame is dropped as for a
`return 0`. So its reads are in `Option`, and `none` is `DROP`. The filter writes to the map by
a function of bcc that can end it in the same way (`Bcc`).
-/

namespace BpfExamples.Http

/-! ## Loads -/

/-- `load_byte`. -/
def loadByte (f : Frame) (i : Nat) : Option Nat := (f[i]?).map UInt8.toNat

/-- A field of a header, `n` bytes from `i` on. -/
def loadField (f : Frame) (i n : Nat) : Option Nat :=
  if i + n ≤ f.length then some (fromBytesBig (slice f i (i + n))) else none

/-! ## The map -/

/-- `struct Key` (http-parse-complete.c:14–20). -/
structure Key where
  srcIp : Nat
  dstIp : Nat
  srcPort : Nat
  dstPort : Nat
deriving DecidableEq, Repr

/-- `struct Leaf` (http-parse-complete.c:22–26). -/
structure Leaf where
  timestamp : Int
  times : Int
deriving DecidableEq, Repr

/-- `sessions` (http-parse-complete.c:31). -/
abbrev Sessions := Table Key Leaf

/-- The number of entries of `sessions`. -/
def sessionsSize : Nat := 1024

/-- What the filter takes from bcc: `sessions.lookup_or_init`. The result `none` says that it
makes the program which calls it return 0. The laws are the documented ones: an entry that is
there stays as it is, a new one is written if there is room, and on a full map the program
ends. -/
structure Bcc where
  lookupOrInit : Sessions → Key → Leaf → Option Sessions
  present {m : Sessions} {key : Key} (zero : Leaf) : key ∈ m → lookupOrInit m key zero = some m
  added {m : Sessions} {key : Key} (zero : Leaf) : key ∉ m → m.size < sessionsSize →
    ∃ m', lookupOrInit m key zero = some m' ∧
      ∀ k, m'.lookup k = if k = key then some zero else m.lookup k
  full {m : Sessions} {key : Key} (zero : Leaf) : key ∉ m → ¬ m.size < sessionsSize →
    lookupOrInit m key zero = none

/-- A map that puts a new entry first. -/
def Bcc.plain : Bcc where
  lookupOrInit m key zero := if key ∈ m then some m else m.put sessionsSize key zero
  present _ h := if_pos h
  added {m key} zero h hroom := by
    refine ⟨m.insert key zero, ?_, fun k => Table.lookup_insert_eq m key k zero⟩
    rw [if_neg h, Table.put, if_pos (Table.hasRoom_of_lt hroom)]
  full {m key} zero h hroom := by
    rw [if_neg h, Table.put, Table.hasRoom_of_notMem h,
      if_neg fun hlt => hroom (of_decide_eq_true hlt)]

/-! ## `http_filter` -/

/-- `ETH_HLEN`. -/
def ethHlen : Nat := 14

/-- What `http_filter` takes from the headers. -/
structure View where
  key : Key
  payloadOffset : Nat
  payloadLength : Nat
deriving DecidableEq, Repr

/-- The headers (http-parse-complete.c:51–95). The cursor goes on by the size of each struct,
so the TCP header is read behind an IP header of 20 bytes, whatever its `hlen`. -/
def parseHeaders (f : Frame) : Option View := do
  let type ← loadField f 12 2
  if type ≠ 0x0800 then none
  else do
    let nextp ← loadByte f (ethHlen + 9)
    if nextp ≠ 6 then none
    else do
      let tcp := ethHlen + 20
      let dst ← loadField f (ethHlen + 16) 4
      let src ← loadField f (ethHlen + 12) 4
      let dstPort ← loadField f (tcp + 2) 2
      let srcPort ← loadField f tcp 2
      let verHlen ← loadByte f ethHlen
      let offset ← loadByte f (tcp + 12)
      let tlen ← loadField f (ethHlen + 2) 2
      let ipHeaderLength := verHlen % 16 * 4
      let tcpHeaderLength := offset / 16 * 4
      return {
        key := ⟨src, dst, srcPort, dstPort⟩
        payloadOffset := ethHlen + ipHeaderLength + tcpHeaderLength
        -- unsigned, so a `tlen` that is too small wraps
        payloadLength := (tlen + 2 ^ 32 - ipHeaderLength - tcpHeaderLength) % 2 ^ 32 }

/-- The first seven bytes of the payload (http-parse-complete.c:108–115). -/
def loadPayload (f : Frame) (offset : Nat) : Option (List UInt8) :=
  if offset + 7 ≤ f.length then some (slice f offset (offset + 7)) else none

/-- `HTTP`, `GET`, `POST`, `PUT`, `DELETE` and `HEAD`. -/
def methods : List (List UInt8) :=
  [[72, 84, 84, 80], [71, 69, 84], [80, 79, 83, 84], [80, 85, 84], [68, 69, 76, 69, 84, 69],
    [72, 69, 65, 68]]

/-- The payload starts like an HTTP message (http-parse-complete.c:119–147). -/
def httpMatch (p : List UInt8) : Bool := methods.any fun m => m.isPrefixOf p

/-- The headers of a frame that gets to `HTTP_MATCH`. -/
def matchHeaders (f : Frame) : Option View := do
  let v ← parseHeaders f
  if v.payloadLength < 7 then none
  else do
    let p ← loadPayload f v.payloadOffset
    if httpMatch p then return v else none

/-- The result `KEEP`, and `DROP`. -/
def keepPacket : Int := -1
@[inherit_doc keepPacket] def dropPacket : Int := 0

/-- `HTTP_MATCH` (http-parse-complete.c:167–192). -/
def onMatch (bcc : Bcc) (m : Sessions) (key : Key) : Int × Sessions :=
  match m.lookup key with
  | some leaf => if leaf.timestamp = 1 then (dropPacket, m) else (keepPacket, m)
  | none =>
    match bcc.lookupOrInit m key ⟨1, 0⟩ with
    | some m => (keepPacket, m)
    | none => (0, m)

/-- `http_filter` (http-parse-complete.c:45–193). -/
def httpFilter (bcc : Bcc) (m : Sessions) (f : Frame) : Int × Sessions :=
  match matchHeaders f with
  | some v => onMatch bcc m v.key
  | none => (dropPacket, m)

/-! ## `xdp_prog1` -/

/-- The key of an incoming TCP packet (http-parse-complete.c:228–249). The type of the frame is
not checked. -/
def xdpKey (f : Frame) : Option Key := do
  if f.length < ethHlen + 20 then none
  else do
    let protocol ← loadByte f (ethHlen + 9)
    if protocol ≠ 6 then none
    else if f.length < ethHlen + 20 + 20 then none
    else do
      let dst ← loadField f (ethHlen + 16) 4
      let src ← loadField f (ethHlen + 12) 4
      let dstPort ← loadField f (ethHlen + 20 + 2) 2
      let srcPort ← loadField f (ethHlen + 20) 2
      return ⟨src, dst, srcPort, dstPort⟩

/-- `xdp_prog1` (http-parse-complete.c:226–295). The checksum it writes into a packet that it
drops is left out. -/
def xdpProg1 (m : Sessions) (f : Frame) : XdpAction × Sessions :=
  match xdpKey f with
  | none => (.pass, m)
  | some key =>
    match m.lookup key with
    | none => (.pass, m)
    | some leaf =>
      if leaf.timestamp = 2 then
        if leaf.times > 10 then (.pass, m)
        else (.drop, m.insert key { leaf with times := leaf.times + 1 })
      else (.pass, m)

/-! ## What the programs do to the map -/

variable {bcc : Bcc} {m : Sessions} {f : Frame} {v : View} {key k : Key} {leaf : Leaf}

theorem dropPacket_ne : dropPacket ≠ keepPacket := by decide

/-- The map lets a message of the connection through: it is not in the state 1, and if it is new
there is room for it. -/
def Admits (m : Sessions) (key : Key) : Prop :=
  (∀ leaf ∈ m.lookup key, leaf.timestamp ≠ 1) ∧ (key ∉ m → m.size < sessionsSize)

instance decidableAdmits (m : Sessions) (key : Key) : Decidable (Admits m key) :=
  inferInstanceAs (Decidable (_ ∧ _))

theorem admits_of_lookup (h : m.lookup key = some leaf) :
    Admits m key ↔ leaf.timestamp ≠ 1 := by
  have hmem : key ∈ m := Table.mem_iff_lookup.mpr ⟨leaf, h⟩
  refine ⟨fun ha => ha.1 leaf h, fun hone => ⟨fun leaf' h' => ?_, fun hnot => absurd hmem hnot⟩⟩
  rwa [← Option.some.inj (h.symm.trans h')]

theorem admits_of_notMem (h : key ∉ m) : Admits m key ↔ m.size < sessionsSize := by
  refine ⟨fun ha => ha.2 h, fun hroom => ⟨fun leaf hl => ?_, fun _ => hroom⟩⟩
  exact absurd (Table.mem_iff_lookup.mpr ⟨leaf, hl⟩) h

/-- **A message of the connection `key`.** If the map lets it through it is kept, and the
connection gets the state 1 if it is new; otherwise nothing happens. -/
theorem onMatch_cases (bcc : Bcc) (m : Sessions) (key : Key) :
    (Admits m key ∧ (onMatch bcc m key).1 = keepPacket ∧
      ∀ k, (onMatch bcc m key).2.lookup k = if k = key ∧ key ∉ m then some ⟨1, 0⟩
        else m.lookup k) ∨
    (¬ Admits m key ∧ onMatch bcc m key = (dropPacket, m)) := by
  unfold onMatch
  cases hl : m.lookup key with
  | some leaf =>
    have hmem : key ∈ m := Table.mem_iff_lookup.mpr ⟨leaf, hl⟩
    by_cases hone : leaf.timestamp = 1
    · exact .inr ⟨fun ha => (admits_of_lookup hl).mp ha hone, if_pos hone⟩
    · refine .inl ⟨(admits_of_lookup hl).mpr hone, ?_, fun k => ?_⟩
      · exact congrArg Prod.fst (if_neg hone)
      · rw [if_neg fun h => h.2 hmem]
        exact congrArg (fun r : Int × Sessions => r.2.lookup k) (if_neg hone)
  | none =>
    have hnew : key ∉ m := AList.lookup_eq_none.mp hl
    by_cases hroom : m.size < sessionsSize
    · obtain ⟨m', hadd, hlookup⟩ := bcc.added ⟨1, 0⟩ hnew hroom
      refine .inl ⟨(admits_of_notMem hnew).mpr hroom, ?_, fun k => ?_⟩
      · simp only [hadd]
      · simp only [hadd, hlookup, hnew, not_false_eq_true, and_true]
    · refine .inr ⟨fun ha => hroom ((admits_of_notMem hnew).mp ha), ?_⟩
      simp only [bcc.full ⟨1, 0⟩ hnew hroom]
      rfl

theorem httpFilter_of_match (h : matchHeaders f = some v) :
    httpFilter bcc m f = onMatch bcc m v.key := by
  rw [httpFilter, h]

theorem httpFilter_of_none (h : matchHeaders f = none) :
    httpFilter bcc m f = (dropPacket, m) := by
  rw [httpFilter, h]

/-- The key of a frame that looks like HTTP. -/
def matchKey (f : Frame) : Option Key := (matchHeaders f).map View.key

theorem matchKey_eq_some : matchKey f = some k ↔ ∃ v, matchHeaders f = some v ∧ v.key = k :=
  Option.map_eq_some_iff

theorem httpFilter_of_key (h : matchKey f = some key) :
    httpFilter bcc m f = onMatch bcc m key := by
  obtain ⟨v, hv, rfl⟩ := matchKey_eq_some.mp h
  exact httpFilter_of_match hv

/-- **Which frames `http_filter` keeps.** -/
theorem httpFilter_keeps_iff (bcc : Bcc) (m : Sessions) (f : Frame) :
    (httpFilter bcc m f).1 = keepPacket ↔ ∃ key, matchKey f = some key ∧ Admits m key := by
  cases hm : matchHeaders f with
  | none =>
    rw [httpFilter_of_none hm, matchKey, hm]
    refine ⟨fun h => absurd h dropPacket_ne, ?_⟩
    rintro ⟨key, hkey, -⟩
    cases hkey
  | some v =>
    have hkey : matchKey f = some v.key := matchKey_eq_some.mpr ⟨v, hm, rfl⟩
    rw [httpFilter_of_match hm]
    rcases onMatch_cases bcc m v.key with ⟨hadm, hkeep, -⟩ | ⟨hnot, heq⟩
    · exact iff_of_true hkeep ⟨v.key, hkey, hadm⟩
    · rw [heq]
      refine iff_of_false dropPacket_ne ?_
      rintro ⟨key, hk, hadm⟩
      obtain rfl := Option.some.inj (hkey.symm.trans hk)
      exact hnot hadm

/-- **What `http_filter` leaves in the map**: the state 1 for the key of a frame that looks like
HTTP, if it is new and there is room, and everything else. -/
theorem lookup_httpFilter (bcc : Bcc) (m : Sessions) (f : Frame) (k : Key) :
    (httpFilter bcc m f).2.lookup k =
      if matchKey f = some k ∧ k ∉ m ∧ m.size < sessionsSize then some ⟨1, 0⟩
        else m.lookup k := by
  cases hm : matchHeaders f with
  | none =>
    rw [httpFilter_of_none hm, matchKey, hm, if_neg]
    rintro ⟨hk, -⟩
    cases hk
  | some v =>
    have hkey : matchKey f = some v.key := matchKey_eq_some.mpr ⟨v, hm, rfl⟩
    rw [httpFilter_of_match hm, hkey]
    rcases onMatch_cases bcc m v.key with ⟨hadm, -, hlookup⟩ | ⟨hnot, heq⟩
    · rw [hlookup]
      refine if_congr ⟨?_, ?_⟩ rfl rfl
      · rintro ⟨rfl, hnew⟩
        exact ⟨rfl, hnew, hadm.2 hnew⟩
      · rintro ⟨hk, hnew, -⟩
        obtain rfl := Option.some.inj hk
        exact ⟨rfl, hnew⟩
    · rw [heq, if_neg]
      rintro ⟨hk, hnew, hroom⟩
      obtain rfl := Option.some.inj hk
      exact hnot ((admits_of_notMem hnew).mpr hroom)

/-- An entry stays as it is when a frame passes the filter. -/
theorem lookup_httpFilter_of_some (h : m.lookup k = some leaf) (f : Frame) :
    (httpFilter bcc m f).2.lookup k = some leaf := by
  rw [lookup_httpFilter, if_neg, h]
  exact fun hn => hn.2.1 (Table.mem_iff_lookup.mpr ⟨leaf, h⟩)

/-- The packets that `xdp_prog1` drops. -/
def XdpDrops (m : Sessions) (f : Frame) (key : Key) (leaf : Leaf) : Prop :=
  xdpKey f = some key ∧ m.lookup key = some leaf ∧ leaf.timestamp = 2 ∧ leaf.times ≤ 10

/-- **What `xdp_prog1` does**: it drops a packet of a connection in state 2 and counts it, or
passes the packet and leaves the map as it is. -/
theorem xdpProg1_cases (m : Sessions) (f : Frame) :
    (∃ key leaf, XdpDrops m f key leaf ∧
      xdpProg1 m f = (.drop, m.insert key { leaf with times := leaf.times + 1 })) ∨
    ((∀ key leaf, ¬ XdpDrops m f key leaf) ∧ xdpProg1 m f = (.pass, m)) := by
  unfold xdpProg1 XdpDrops
  cases hk : xdpKey f with
  | none =>
    refine .inr ⟨fun _ _ h => ?_, rfl⟩
    cases h.1
  | some key =>
    cases hl : m.lookup key with
    | none =>
      refine .inr ⟨fun key' leaf h => ?_, by simp only [hl]⟩
      obtain rfl := Option.some.inj h.1
      exact nomatch hl.symm.trans h.2.1
    | some leaf =>
      have hsame : ∀ key' leaf', some key = some key' ∧ m.lookup key' = some leaf' ∧
          leaf'.timestamp = 2 ∧ leaf'.times ≤ 10 → leaf.timestamp = 2 ∧ leaf.times ≤ 10 := by
        rintro key' leaf' ⟨h₁, h₂, h₃⟩
        obtain rfl := Option.some.inj h₁
        rwa [Option.some.inj (hl.symm.trans h₂)]
      by_cases hs : leaf.timestamp = 2
      · by_cases ht : leaf.times > 10
        · refine .inr ⟨fun key' leaf' h => absurd (hsame key' leaf' h).2 (by omega), ?_⟩
          simp only [hl, if_pos hs, if_pos ht]
        · refine .inl ⟨key, leaf, ⟨rfl, hl, hs, by omega⟩, ?_⟩
          simp only [hl, if_pos hs, if_neg ht]
      · refine .inr ⟨fun key' leaf' h => absurd (hsame key' leaf' h).1 hs, ?_⟩
        simp only [hl, if_neg hs]

end BpfExamples.Http
