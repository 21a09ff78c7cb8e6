import BpfExamples.Http.Filter

/-!
# The userspace side of the HTTP fault injector (`ebpf-http/http-parse-complete.py`)

The script reads the frames that `http_filter` keeps, at most 4096 bytes of each, and counts
the requests for `threshold_url`. The first three of a round get their connection marked in
`sessions` with the state 2, the fourth starts a new round. From time to time `cleanup` goes
through the map.

An exception outside of a `try` ends the script (`PyError`); one inside only skips the rest of
the `try`. What the script prints is left out, except that `injected` says for which key it
prints `inject error`, which it does after it has marked a connection.
-/

namespace BpfExamples.Http

/-! ## Bytes -/

/-- The exceptions that the header parsing can raise. -/
inductive PyError
  | indexError
  | structError
deriving DecidableEq, Repr

/-- `packet_bytearray[i]`. -/
def pyIndex (packet : Frame) (i : Nat) : Except PyError Nat :=
  match packet[i]? with
  | some b => .ok b.toNat
  | none => .error .indexError

/-- `struct.unpack('>4s', l)`. -/
def unpack4s (l : List UInt8) : Except PyError (List UInt8) :=
  if l.length = 4 then .ok l else .error .structError

/-- `pat in s`. -/
def occursIn (pat : List UInt8) : List UInt8 → Bool
  | [] => pat.isEmpty
  | b :: s => pat.isPrefixOf (b :: s) || occursIn pat s

/-! ## Headers -/

/-- What an iteration takes from the headers of a packet. -/
structure PyView where
  ipSrc : List UInt8
  ipDst : List UInt8
  portSrc : List UInt8
  portDst : List UInt8
  payloadOffset : Nat
  payload : List UInt8
deriving DecidableEq, Repr

/-- The headers of a packet (http-parse-complete.py:198–268). -/
def pyHeaders (packet : Frame) : Except PyError PyView := do
  -- the total length is computed and not used
  let _ ← pyIndex packet (ethHlen + 2)
  let _ ← pyIndex packet (ethHlen + 3)
  let first ← pyIndex packet ethHlen
  let ipHeaderLength := first % 16 * 4
  let ipSrc ← unpack4s (slice packet (ethHlen + 12) (ethHlen + 16))
  let ipDst ← unpack4s (slice packet (ethHlen + 16) (ethHlen + 20))
  let tcp := ethHlen + ipHeaderLength
  let offset ← pyIndex packet (tcp + 12)
  let tcpHeaderLength := offset / 16 * 4
  let payloadOffset := ethHlen + ipHeaderLength + tcpHeaderLength
  return {
    ipSrc := ipSrc
    ipDst := ipDst
    portSrc := slice packet tcp (tcp + 2)
    portDst := slice packet (tcp + 2) (tcp + 4)
    payloadOffset := payloadOffset
    payload := slice packet payloadOffset packet.length }

/-- `current_Key` (http-parse-complete.py:276). -/
def PyView.currentKey (v : PyView) : Key :=
  ⟨fromBytesBig v.ipSrc, fromBytesBig v.ipDst, fromBytesBig v.portSrc, fromBytesBig v.portDst⟩

/-- The key of the other direction (http-parse-complete.py:301). -/
def Key.reverse (k : Key) : Key := ⟨k.dstIp, k.srcIp, k.dstPort, k.srcPort⟩

/-- `os.read(socket_fd, 4096)`. -/
def readPacket (f : Frame) : Frame := f.take 4096

/-! ## The loop -/

/-- `CLEANUP_N_PACKETS`, `MAX_URL_STRING_LEN` and `MAX_AGE_SECONDS`
(http-parse-complete.py:31–33). -/
def cleanupNPackets : Nat := 50
@[inherit_doc cleanupNPackets] def maxUrlStringLen : Nat := 8192
@[inherit_doc cleanupNPackets] def maxAgeSeconds : Int := 30

/-- `threshold_url`, which is `/latest/meta-data/region-id`. -/
def thresholdUrl : List UInt8 :=
  [47, 108, 97, 116, 101, 115, 116, 47, 109, 101, 116, 97, 45, 100, 97, 116, 97, 47, 114, 101,
    103, 105, 111, 110, 45, 105, 100]

/-- `crlf`. -/
def crlf : List UInt8 := [13, 10]

/-- The address 100.100.100.200. -/
def server : List UInt8 := [100, 100, 100, 200]

/-- The variables of `main` that live across iterations. -/
structure Loop where
  packetCount : Nat
  thresholdCnt : Int
  localDictionary : Table Key (List UInt8)

/-- Before the first iteration (http-parse-complete.py:175–182). -/
def Loop.initial : Loop := ⟨0, 3, ∅⟩

/-- The map and the variables, and the key that `inject error` was printed for, if it was. -/
structure Handled where
  sessions : Sessions
  loop : Loop
  injected : Option Key

/-- A request for the threshold URL (http-parse-complete.py:293–315). -/
def onThreshold (needFilter : Bool) (key : Key) (m : Sessions) (st : Loop) : Handled :=
  let st := { st with thresholdCnt := st.thresholdCnt - 1 }
  if needFilter ∧ 0 ≤ st.thresholdCnt then
    match m.put sessionsSize key.reverse ⟨2, 0⟩ with
    | some m => ⟨m, st, some key.reverse⟩
    | none => ⟨m, st, none⟩
  else if key ∈ m then ⟨m.erase key, { st with thresholdCnt := 3 }, none⟩
  else ⟨m, st, none⟩

/-- `del bpf_sessions[key]`, `del local_dictionary[key]` in one `try`. -/
def forget (key : Key) (m : Sessions) (st : Loop) : Sessions × Loop :=
  if key ∈ m then (m.erase key, { st with localDictionary := st.localDictionary.erase key })
    else (m, st)

/-- A packet that is no HTTP message (http-parse-complete.py:321–373). -/
def onOther (needFilter : Bool) (key : Key) (payload : List UInt8) (m : Sessions) (st : Loop) :
    Sessions × Loop :=
  if key ∈ m then
    match st.localDictionary.lookup key with
    | some prev =>
      if occursIn crlf payload then
        -- the leaf `1` is no `Leaf`, so the assignment of line 343 raises
        if needFilter then (m, st) else forget key m st
      else
        let prev := prev ++ payload
        let (m, st) := if maxUrlStringLen < prev.length then forget key m st else (m, st)
        (m, { st with localDictionary := st.localDictionary.insert key prev })
    | none => (m.erase key, st)
  else (m, st)

/-- An iteration up to the check for dirty entries (http-parse-complete.py:184–373). `ip` is the
address of the local host. The second result says whether the check is reached. -/
def handlePacket (ip : List UInt8) (packet : Frame) (m : Sessions) (st : Loop) :
    Except PyError (Handled × Bool) :=
  do
  let st := { st with packetCount := st.packetCount + 1 }
  let v ← pyHeaders packet
  let key := v.currentKey
  let needFilter := v.ipSrc == ip
  if v.ipSrc ≠ server ∧ v.ipDst ≠ server then return (⟨m, st, none⟩, false)
  else if httpMatch v.payload then
    if occursIn crlf v.payload && occursIn thresholdUrl v.payload then
      return (onThreshold needFilter key m st, true)
    else
      return (⟨m, { st with localDictionary := st.localDictionary.insert key v.payload }, none⟩,
        true)
  else
    let (m, st) := onOther needFilter key v.payload m st
    return (⟨m, st, none⟩, true)

/-- One entry of `cleanup` (http-parse-complete.py:84–94). -/
def cleanupKey (now : Int) (m : Sessions) (key : Key) : Sessions :=
  match m.lookup key with
  | none => m
  | some leaf =>
    if leaf.timestamp = 0 then m.insert key ⟨now, 0⟩
    else if now - leaf.timestamp > maxAgeSeconds then m.erase key
    else m

/-- `cleanup` (http-parse-complete.py:77–95). -/
def cleanup (now : Int) (m : Sessions) : Sessions := m.keys.foldl (cleanupKey now) m

/-- One iteration of the loop (http-parse-complete.py:184–377). -/
def iteration (ip : List UInt8) (now : Int) (packet : Frame) (m : Sessions) (st : Loop) :
    Except PyError Handled :=
  do
  let (h, checked) ← handlePacket ip packet m st
  if checked ∧ h.loop.packetCount % cleanupNPackets = 0 then
    return { h with sessions := cleanup now h.sessions }
  else return h

/-! ## `cleanup` -/

variable {m : Sessions} {key k : Key} {leaf : Leaf} {now : Int}

/-- What becomes of one entry. -/
def aged (now : Int) (leaf : Leaf) : Option Leaf :=
  if leaf.timestamp = 0 then some ⟨now, 0⟩
  else if now - leaf.timestamp > maxAgeSeconds then none
  else some leaf

theorem aged_zero (h : leaf.timestamp = 0) : aged now leaf = some ⟨now, 0⟩ := if_pos h

theorem aged_old (h₀ : leaf.timestamp ≠ 0) (h : now - leaf.timestamp > maxAgeSeconds) :
    aged now leaf = none := by
  rw [aged, if_neg h₀, if_pos h]

theorem aged_young (h₀ : leaf.timestamp ≠ 0) (h : ¬ now - leaf.timestamp > maxAgeSeconds) :
    aged now leaf = some leaf := by
  rw [aged, if_neg h₀, if_neg h]

theorem lookup_cleanupKey (now : Int) (m : Sessions) (key k : Key) :
    (cleanupKey now m key).lookup k = if k = key then (m.lookup k).bind (aged now)
      else m.lookup k := by
  unfold cleanupKey
  cases hl : m.lookup key with
  | none =>
    show m.lookup k = _
    split
    · next h => rw [h, hl, Option.bind_none]
    · rfl
  | some leaf =>
    have haged : (m.lookup key).bind (aged now) = aged now leaf := by
      rw [hl]
      rfl
    show (if leaf.timestamp = 0 then m.insert key ⟨now, 0⟩
      else if now - leaf.timestamp > maxAgeSeconds then m.erase key else m).lookup k = _
    by_cases h₀ : leaf.timestamp = 0
    · rw [if_pos h₀, Table.lookup_insert_eq]
      split
      · next h => rw [h, haged, aged_zero h₀]
      · rfl
    · by_cases h₁ : now - leaf.timestamp > maxAgeSeconds
      · rw [if_neg h₀, if_pos h₁, Table.lookup_erase_eq]
        split
        · next h => rw [h, haged, aged_old h₀ h₁]
        · rfl
      · rw [if_neg h₀, if_neg h₁]
        split
        · next h => rw [h, haged, aged_young h₀ h₁, hl]
        · rfl

/-- Visiting an entry twice is visiting it once. -/
theorem aged_aged (now : Int) (leaf : Leaf) :
    (aged now leaf).bind (aged now) = aged now leaf := by
  by_cases h₀ : leaf.timestamp = 0
  · rw [aged_zero h₀, Option.bind_some]
    by_cases hnow : now = 0
    · exact aged_zero hnow
    · exact aged_young hnow (by show ¬ now - now > 30; omega)
  · by_cases h₁ : now - leaf.timestamp > maxAgeSeconds
    · rw [aged_old h₀ h₁, Option.bind_none]
    · rw [aged_young h₀ h₁, Option.bind_some, aged_young h₀ h₁]

theorem lookup_foldl_cleanupKey (now : Int) (k : Key) :
    ∀ (l : List Key) (m : Sessions),
      (l.foldl (cleanupKey now) m).lookup k = if k ∈ l then (m.lookup k).bind (aged now)
        else m.lookup k
  | [], m => (if_neg List.not_mem_nil).symm
  | key :: l, m => by
    rw [List.foldl_cons, lookup_foldl_cleanupKey now k l, lookup_cleanupKey]
    by_cases hk : k = key
    · rw [if_pos hk, if_pos (List.mem_cons.mpr (.inl hk))]
      split
      · rw [Option.bind_assoc]
        exact congrArg _ (funext (aged_aged now))
      · rfl
    · rw [if_neg hk]
      exact if_congr ⟨List.mem_cons_of_mem _,
        fun h => (List.mem_cons.mp h).resolve_left hk⟩ rfl rfl

/-- **What `cleanup` leaves in the map.** -/
theorem lookup_cleanup (now : Int) (m : Sessions) (k : Key) :
    (cleanup now m).lookup k = (m.lookup k).bind (aged now) := by
  rw [cleanup, lookup_foldl_cleanupKey]
  split
  · rfl
  · next h => rw [AList.lookup_eq_none.mpr fun hm => h (AList.mem_keys.mp hm), Option.bind_none]

end BpfExamples.Http
