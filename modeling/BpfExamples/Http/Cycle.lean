import BpfExamples.Http.Segments

/-!
# The cycle of the fault injector

The local host opens connections to 100.100.100.200 and asks for the threshold URL on each. The
script is to mark the reverse key of connections 1, 2, 3, not of 4, of 5, 6, 7, not of 8, and
so on (README.md:63).

A run has the first GET of each connection, GETs sent again, frames of other hosts, packets at
`xdp_prog1`, the script handling what `http_filter` kept, and `cleanup` visiting single entries
at any time: an iteration of the script is one `handle` and then `expire`s (`iteration_steps`).
The run carries along the connections in the order of their first GETs (`conns`), how many
requests the script has counted (`counted`), and the keys it has marked (`marks`).

The script counts what reaches it, so the cycle is right as long as each GET reaches it once, no
other frame is counted, and the map takes what the programs and the script write. `Smooth` says
what this needs of each step; in the runs whose steps are all smooth the cycle is right
(`cycle_right`).
-/

namespace BpfExamples.Http

variable {bcc : Bcc} {ip : List UInt8} {key k : Key} {f : Frame} {m : Sessions}

/-! ## Requests -/

/-- The bytes `GET`. -/
def getBytes : List UInt8 := [71, 69, 84]

/-- A GET for the threshold URL on the connection `key` from `ip` to 100.100.100.200, in one
packet without IP options. -/
structure IsGet (ip : List UInt8) (key : Key) (f : Frame) : Prop where
  segment : IsSegment key f
  plain : ihl f = 5
  source : slice f 26 30 = ip
  target : slice f 30 34 = server
  get : getBytes.isPrefixOf (f.drop (offsetAt f 34)) = true
  url : occursIn thresholdUrl (f.drop (offsetAt f 34)) = true
  line : occursIn crlf (f.drop (offsetAt f 34)) = true

instance (ip : List UInt8) (key : Key) (f : Frame) : Decidable (IsGet ip key f) :=
  decidable_of_iff (IsSegment key f ∧ ihl f = 5 ∧ slice f 26 30 = ip ∧ slice f 30 34 = server ∧
    getBytes.isPrefixOf (f.drop (offsetAt f 34)) = true ∧ occursIn thresholdUrl
    (f.drop (offsetAt f 34)) = true ∧ occursIn crlf (f.drop (offsetAt f 34)) = true)
    ⟨fun ⟨h₁, h₂, h₃, h₄, h₅, h₆, h₇⟩ => ⟨h₁, h₂, h₃, h₄, h₅, h₆, h₇⟩,
      fun ⟨h₁, h₂, h₃, h₄, h₅, h₆, h₇⟩ => ⟨h₁, h₂, h₃, h₄, h₅, h₆, h₇⟩⟩

/-- The URL and the end of its line are in the bytes that the script reads. -/
def ReadsUrl (f : Frame) : Prop :=
  occursIn thresholdUrl (pyViewOf f).payload = true ∧ occursIn crlf (pyViewOf f).payload = true

instance (f : Frame) : Decidable (ReadsUrl f) := inferInstanceAs (Decidable (_ ∧ _))

theorem isPrefixOf_take {p l : List UInt8} {n : Nat} (h : p.isPrefixOf l = true)
    (hn : p.length ≤ n) : p.isPrefixOf (l.take n) = true := by
  rw [List.isPrefixOf_iff_prefix] at h ⊢
  exact List.prefix_take_iff.mpr ⟨h, hn⟩

theorem httpMatch_of_get {p : List UInt8} (h : getBytes.isPrefixOf p = true) :
    httpMatch p = true :=
  List.any_eq_true.mpr ⟨getBytes, by decide, h⟩

/-- **What the two parsers make of a GET.** -/
theorem IsGet.views (h : IsGet ip key f) :
    matchKey f = some key ∧ pyHeaders (readPacket f) = .ok (pyViewOf f) ∧
      (pyViewOf f).currentKey = key ∧
      (pyViewOf f).ipSrc = ip ∧ (pyViewOf f).ipDst = server ∧
        httpMatch (pyViewOf f).payload = true := by
  have hle := offsetAt_le f 34
  have ht : ethHlen + ihl f * 4 = 34 := by
    rw [h.plain]
    rfl
  have hlen : 34 + 12 < f.length := by
    have h₁ := h.segment.payload
    have h₂ := h.segment.tcpHeader
    have h₃ := h.segment.whole
    rw [ht] at h₁ h₂
    have heth : ethHlen = 14 := rfl
    omega
  have hpay : getBytes.isPrefixOf (pyViewOf f).payload = true := by
    show getBytes.isPrefixOf ((f.take 4096).drop (offsetAt f (ethHlen + ihl f * 4))) = true
    rw [ht, List.drop_take]
    exact isPrefixOf_take h.get (by show 3 ≤ 4096 - offsetAt f 34; omega)
  refine ⟨?_, ?_, ?_, h.source, h.target, httpMatch_of_get hpay⟩
  · obtain ⟨len, hm⟩ := h.segment.matchHeaders h.plain
    have hget : httpMatch (slice f (offsetAt f 34) (offsetAt f 34 + 7)) = true :=
      httpMatch_of_get (isPrefixOf_take h.get (by show 3 ≤ _; omega))
    rw [matchKey, hm, if_pos hget]
    rfl
  · rw [pyHeaders_readPacket (by omega), ht, if_pos hlen]
  · rw [pyViewOf_key]
    exact h.segment.about

/-- The script counts a GET that it reads up to the URL. -/
theorem IsGet.handlePacket (h : IsGet ip key f) (hr : ReadsUrl f) (m : Sessions) (st : Loop) :
    handlePacket ip (readPacket f) m st =
      .ok (onThreshold true key m { st with packetCount := st.packetCount + 1 }, true) := by
  obtain ⟨-, hview, hkey, hsrc, hdst, hmatch⟩ := h.views
  unfold Http.handlePacket
  rw [hview, ok_bind]
  dsimp only
  rw [if_neg (fun hc => hc.2 hdst), if_pos hmatch, hr.1, hr.2, hkey, hsrc, beq_self_eq_true]
  rfl

/-- The script takes the packet for a request for the threshold URL. -/
def countsPacket (packet : Frame) : Bool :=
  match pyHeaders packet with
  | .ok w => (w.ipSrc == server || w.ipDst == server) && httpMatch w.payload &&
      occursIn crlf w.payload && occursIn thresholdUrl w.payload
  | .error _ => false

/-- The script gets through the frame and does not count it. -/
def Skipped (f : Frame) : Prop :=
  (pyHeaders (readPacket f)).isOk = true ∧ countsPacket (readPacket f) = false

instance decidableSkipped (f : Frame) : Decidable (Skipped f) :=
  inferInstanceAs (Decidable (_ ∧ _))

theorem forget_spec (key : Key) (m : Sessions) (st : Loop) :
    (∀ k, k ∈ (forget key m st).1 → k ∈ m) ∧ (forget key m st).2.thresholdCnt =
      st.thresholdCnt := by
  unfold forget
  split
  · exact ⟨fun k hk => (AList.mem_erase.mp hk).2, rfl⟩
  · exact ⟨fun k hk => hk, rfl⟩

/-- A packet that is no HTTP message adds no key and leaves the round alone. -/
theorem onOther_spec (needFilter : Bool) (key : Key) (payload : List UInt8) (m : Sessions)
    (st : Loop) :
    (∀ k, k ∈ (onOther needFilter key payload m st).1 → k ∈ m) ∧
      (onOther needFilter key payload m st).2.thresholdCnt = st.thresholdCnt := by
  unfold onOther
  split
  · split
    · split
      · split
        · exact ⟨fun k hk => hk, rfl⟩
        · exact forget_spec key m st
      · dsimp only
        split
        · exact forget_spec key m st
        · exact ⟨fun k hk => hk, rfl⟩
    · exact ⟨fun k hk => (AList.mem_erase.mp hk).2, rfl⟩
  · exact ⟨fun k hk => hk, rfl⟩

/-- **A frame that is not counted** marks nothing, adds no key and leaves the round alone. -/
theorem Skipped.handlePacket (h : Skipped f) (ip : List UInt8) (m : Sessions) (st : Loop) :
    ∃ h' checked, handlePacket ip (readPacket f) m st = .ok (h', checked) ∧ h'.injected = none ∧
      h'.loop.thresholdCnt = st.thresholdCnt ∧ ∀ k, k ∈ h'.sessions → k ∈ m := by
  obtain ⟨hok, hcount⟩ := h
  unfold countsPacket at hcount
  unfold Http.handlePacket
  cases hw : pyHeaders (readPacket f) with
  | error e =>
    rw [hw] at hok
    cases hok
  | ok w =>
    rw [hw] at hcount
    dsimp only at hcount
    rw [ok_bind]
    dsimp only
    by_cases hother : w.ipSrc ≠ server ∧ w.ipDst ≠ server
    · rw [if_pos hother]
      exact ⟨_, _, rfl, rfl, rfl, fun k hk => hk⟩
    rw [if_neg hother]
    have hserver : (w.ipSrc == server || w.ipDst == server) = true := by
      rw [Bool.or_eq_true, beq_iff_eq, beq_iff_eq]
      tauto
    by_cases hmatch : httpMatch w.payload = true
    · rw [if_pos hmatch]
      rw [hserver, hmatch, Bool.true_and, Bool.true_and] at hcount
      rw [if_neg (by rw [hcount]; exact Bool.false_ne_true)]
      exact ⟨_, _, rfl, rfl, rfl, fun k hk => hk⟩
    · rw [if_neg hmatch]
      obtain ⟨hkeys, hcnt⟩ := onOther_spec (w.ipSrc == ip) w.currentKey w.payload m
        { st with packetCount := st.packetCount + 1 }
      exact ⟨_, _, rfl, rfl, hcnt, hkeys⟩

/-! ## Runs -/

structure CycleRun where
  sessions : Sessions
  /-- The frames that `http_filter` kept and the script has not read yet. -/
  queue : List Frame
  loop : Loop
  conns : List Key
  counted : Nat
  marks : List Key

def CycleRun.initial : CycleRun := ⟨∅, [], Loop.initial, [], 0, []⟩

inductive CycleEvent
  /-- The first GET of a new connection. -/
  | connect (key : Key) (f : Frame)
  /-- A GET that is sent again. -/
  | again (key : Key) (f : Frame)
  /-- A frame of another host. -/
  | other (f : Frame)
  /-- The script reads a frame and handles it. -/
  | handle
  /-- `cleanup` visits an entry. -/
  | expire (now : Int) (k : Key)
  /-- A packet comes in. -/
  | xdp (f : Frame)

/-- A frame passes `http_filter`. -/
def CycleRun.arrive (bcc : Bcc) (s : CycleRun) (f : Frame) : CycleRun :=
  { s with
    sessions := (httpFilter bcc s.sessions f).2
    queue := if (httpFilter bcc s.sessions f).1 = keepPacket then s.queue ++ [f] else s.queue }

def CycleRun.step (bcc : Bcc) (ip : List UInt8) (s : CycleRun) :
    CycleEvent → Except PyError CycleRun
  | .connect key f => .ok { s.arrive bcc f with conns := s.conns ++ [key] }
  | .again _ f => .ok (s.arrive bcc f)
  | .other f => .ok (s.arrive bcc f)
  | .handle =>
    match s.queue with
    | [] => .ok s
    | f :: rest => do
      let (h, _) ← handlePacket ip (readPacket f) s.sessions s.loop
      return { s with
        sessions := h.sessions
        queue := rest
        loop := h.loop
        counted := if countsPacket (readPacket f) then s.counted + 1 else s.counted
        marks := h.injected.toList ++ s.marks }
  | .expire now k => .ok { s with sessions := cleanupKey now s.sessions k }
  | .xdp f => .ok { s with sessions := (xdpProg1 s.sessions f).2 }

/-- The runs in question: the connections have different source ports, a GET is only sent again
after it was sent, and other frames come from other hosts. -/
def CycleRun.Allowed (ip : List UInt8) (s : CycleRun) : CycleEvent → Prop
  | .connect key f => IsGet ip key f ∧ ∀ k ∈ s.conns, k.srcPort ≠ key.srcPort
  | .again key f => key ∈ s.conns ∧ IsGet ip key f
  | .other f => slice f 26 30 ≠ ip
  | _ => True

instance (ip : List UInt8) (s : CycleRun) : ∀ e, Decidable (s.Allowed ip e)
  | .connect _ _ => inferInstanceAs (Decidable (_ ∧ _))
  | .again _ _ => inferInstanceAs (Decidable (_ ∧ _))
  | .other _ => inferInstanceAs (Decidable (_ ≠ _))
  | .handle => isTrue trivial
  | .expire _ _ => isTrue trivial
  | .xdp _ => isTrue trivial

/-- The map takes what the script writes for the request at the head of the queue: there is room
for the mark, or, at the end of a round, the request's own key is still there. -/
def CycleRun.Writes (s : CycleRun) : Prop :=
  ∀ f ∈ s.queue.head?, countsPacket (readPacket f) = true →
    if 1 ≤ s.loop.thresholdCnt then
      s.sessions.hasRoom sessionsSize (pyViewOf f).currentKey.reverse = true
    else (pyViewOf f).currentKey ∈ s.sessions

/-- What the cycle needs of a step: there is room for a new connection, whose URL the script can
read; a GET is only sent again while the filter drops it; and of the frames of other hosts those
that look like HTTP are no requests for the URL. -/
def CycleRun.Smooth (s : CycleRun) : CycleEvent → Prop
  | .connect _ f => ReadsUrl f ∧ s.sessions.size < sessionsSize
  | .again key _ => ¬ Admits s.sessions key
  | .other f => matchKey f ≠ none → Skipped f
  | .handle => s.Writes
  | .expire _ _ => True
  | .xdp _ => True

instance CycleRun.decidableSmooth (s : CycleRun) : ∀ e, Decidable (s.Smooth e)
  | .connect _ _ => inferInstanceAs (Decidable (_ ∧ _))
  | .again _ _ => inferInstanceAs (Decidable (¬ _))
  | .other _ => inferInstanceAs (Decidable (_ → _))
  | .handle => inferInstanceAs (Decidable (∀ f ∈ s.queue.head?, _))
  | .expire _ _ => isTrue trivial
  | .xdp _ => isTrue trivial

/-- The states of all runs, and of those with smooth steps. -/
def CycleRun.Reachable (bcc : Bcc) (ip : List UInt8) : CycleRun → Prop :=
  Reach (· = CycleRun.initial) (CycleRun.Allowed ip) (CycleRun.step bcc ip)
@[inherit_doc CycleRun.Reachable]
def CycleRun.Smoothly (bcc : Bcc) (ip : List UInt8) : CycleRun → Prop :=
  Reach (· = CycleRun.initial) (fun s e => s.Allowed ip e ∧ s.Smooth e) (CycleRun.step bcc ip)

/-! ## Keys -/

theorem Key.reverse_inj {k k' : Key} (h : k.reverse = k'.reverse) : k = k' :=
  congrArg Key.reverse h

theorem IsGet.srcIp (h : IsGet ip key f) : key.srcIp = fromBytesBig ip := by
  rw [← h.segment.about, ← h.source]
  rfl

theorem IsGet.dstIp (h : IsGet ip key f) : key.dstIp = fromBytesBig server := by
  rw [← h.segment.about, ← h.target]
  rfl

/-- A frame of another host has another key. -/
theorem matchKey_srcIp_ne (hip : ip.length = 4) (hf : slice f 26 30 ≠ ip)
    (hk : matchKey f = some k) : k.srcIp ≠ fromBytesBig ip := by
  obtain ⟨v, hv, rfl⟩ := matchKey_eq_some.mp hk
  obtain ⟨h47, -, -, hkey, -⟩ := parseHeaders_eq (matchHeaders_eq hv).1
  intro h
  rw [hkey] at h
  refine hf (fromBytesBig_inj ?_ h)
  rw [slice_length (by omega), hip]

/-! ## The queue -/

/-- The queue holds one request for each of the connections `l`, in this order, and frames that
the script does not count. -/
inductive Queued (ip : List UInt8) : List Frame → List Key → Prop
  | nil : Queued ip [] []
  | skipped {f : Frame} {q : List Frame} {l : List Key} (hf : Skipped f) (h : Queued ip q l) :
      Queued ip (f :: q) l
  | get {key : Key} {f : Frame} {q : List Frame} {l : List Key} (hf : IsGet ip key f)
      (hr : ReadsUrl f) (h : Queued ip q l) : Queued ip (f :: q) (key :: l)

theorem Queued.append_skipped {q : List Frame} {l : List Key} (h : Queued ip q l)
    (hf : Skipped f) : Queued ip (q ++ [f]) l := by
  induction h with
  | nil => exact .skipped hf .nil
  | skipped hf' _ ih => exact .skipped hf' ih
  | get hf' hr _ ih => exact .get hf' hr ih

theorem Queued.append_get {q : List Frame} {l : List Key} (h : Queued ip q l)
    (hf : IsGet ip key f) (hr : ReadsUrl f) : Queued ip (q ++ [f]) (l ++ [key]) := by
  induction h with
  | nil => exact .get hf hr .nil
  | skipped hf' _ ih => exact .skipped hf' ih
  | get hf' hr' _ ih => exact .get hf' hr' ih

theorem IsGet.counts (h : IsGet ip key f) (hr : ReadsUrl f) :
    countsPacket (readPacket f) = true := by
  obtain ⟨-, hview, -, -, hdst, hmatch⟩ := h.views
  rw [countsPacket, hview]
  simp only [hdst, hmatch, hr.1, hr.2, beq_self_eq_true, Bool.or_true, Bool.and_true]

/-! ## The invariant -/

structure CycleInv (ip : List UInt8) (s : CycleRun) : Prop where
  /-- What waits are the requests of the connections that are not counted yet. -/
  queue : Queued ip s.queue (s.conns.drop s.counted)
  counted : s.counted ≤ s.conns.length
  /-- Where the script is in its round. -/
  cnt : s.loop.thresholdCnt = 3 - (s.counted % 4 : Nat)
  marks : ∀ k, k ∈ s.marks ↔ ∃ i key, s.conns[i]? = some key ∧ i < s.counted ∧ ¬ 4 ∣ i + 1 ∧
    k = key.reverse
  /-- The local host's keys in the map are those of its connections. -/
  own : ∀ k, k ∈ s.sessions → k.srcIp = fromBytesBig ip → k ∈ s.conns
  local_ : ∀ k ∈ s.conns, k.srcIp = fromBytesBig ip ∧ k.dstIp = fromBytesBig server
  distinct : s.conns.Nodup

variable {s s' : CycleRun}

/-- A frame that the filter sees adds no key but its own. -/
theorem mem_httpFilter (h : k ∈ (httpFilter bcc m f).2) : k ∈ m ∨ matchKey f = some k := by
  obtain ⟨leaf, hl⟩ := Table.mem_iff_lookup.mp h
  rw [lookup_httpFilter] at hl
  split at hl
  · next hn => exact .inr hn.1
  · exact .inl (Table.mem_iff_lookup.mpr ⟨leaf, hl⟩)

theorem mem_cleanupKey {now : Int} (h : k ∈ cleanupKey now m key) : k ∈ m := by
  obtain ⟨leaf, hl⟩ := Table.mem_iff_lookup.mp h
  rw [lookup_cleanupKey] at hl
  split at hl
  · obtain ⟨leaf', hl', -⟩ := Option.bind_eq_some_iff.mp hl
    exact Table.mem_iff_lookup.mpr ⟨leaf', hl'⟩
  · exact Table.mem_iff_lookup.mpr ⟨leaf, hl⟩

theorem mem_xdpProg1 (h : k ∈ (xdpProg1 m f).2) : k ∈ m := by
  rcases xdpProg1_cases m f with ⟨key, leaf, hd, heq⟩ | ⟨-, heq⟩
  · rw [heq] at h
    rcases (AList.mem_insert m).mp h with rfl | h
    · exact Table.mem_iff_lookup.mpr ⟨leaf, hd.2.1⟩
    · exact h
  · rwa [heq] at h

/-- The map changes, and keeps the local host's keys to those of its connections. -/
theorem CycleInv.setSessions (inv : CycleInv ip s) {m : Sessions}
    (h : ∀ k, k ∈ m → k.srcIp = fromBytesBig ip → k ∈ s.sessions) :
    CycleInv ip { s with sessions := m } :=
  { inv with own := fun k hk hip => inv.own k (h k hk hip) hip }

/-- **The first GET of a connection** is kept, since its key is new and there is room for it. -/
theorem CycleInv.connect (inv : CycleInv ip s) (ha : s.Allowed ip (.connect key f))
    (hs : s.Smooth (.connect key f)) :
    CycleInv ip { s.arrive bcc f with conns := s.conns ++ [key] } := by
  obtain ⟨hget, hports⟩ := ha
  obtain ⟨hr, hroom⟩ := hs
  have hkey : matchKey f = some key := hget.views.1
  have hfresh : key ∉ s.conns := fun hmem => hports key hmem rfl
  have hnew : key ∉ s.sessions := fun hmem => hfresh (inv.own key hmem hget.srcIp)
  have hkept : (httpFilter bcc s.sessions f).1 = keepPacket :=
    (httpFilter_keeps_iff bcc _ f).mpr ⟨key, hkey, (admits_of_notMem hnew).mpr hroom⟩
  constructor
  · show Queued ip (if (httpFilter bcc s.sessions f).1 = keepPacket then s.queue ++ [f]
      else s.queue) ((s.conns ++ [key]).drop s.counted)
    rw [if_pos hkept, List.drop_append_of_le_length inv.counted]
    exact inv.queue.append_get hget hr
  · show s.counted ≤ (s.conns ++ [key]).length
    have := inv.counted
    rw [List.length_append]
    omega
  · exact inv.cnt
  · intro k
    refine (inv.marks k).trans ?_
    -- the counted connections are among the old ones
    have hsame : ∀ i, i < s.counted → (s.conns ++ [key])[i]? = s.conns[i]? := fun i hi =>
      List.getElem?_append_left (Nat.lt_of_lt_of_le hi inv.counted)
    constructor
    · rintro ⟨i, key', h₁, h₂, h₃⟩
      exact ⟨i, key', (hsame i h₂).trans h₁, h₂, h₃⟩
    · rintro ⟨i, key', h₁, h₂, h₃⟩
      exact ⟨i, key', (hsame i h₂).symm.trans h₁, h₂, h₃⟩
  · intro k hk hip
    rcases mem_httpFilter hk with hk | hk
    · exact List.mem_append_left _ (inv.own k hk hip)
    · rw [← Option.some.inj (hkey.symm.trans hk)]
      exact List.mem_append_right _ (List.mem_singleton_self _)
  · intro k hk
    rcases List.mem_append.mp hk with hk | hk
    · exact inv.local_ k hk
    · rw [List.mem_singleton.mp hk]
      exact ⟨hget.srcIp, hget.dstIp⟩
  · refine List.nodup_append'.mpr ⟨inv.distinct, List.nodup_singleton _, ?_⟩
    intro k hk hk'
    exact hfresh (List.mem_singleton.mp hk' ▸ hk)

/-- **A GET that is sent again** changes nothing if it is dropped. -/
theorem CycleInv.again (inv : CycleInv ip s) (ha : s.Allowed ip (.again key f))
    (hs : s.Smooth (.again key f)) : CycleInv ip (s.arrive bcc f) := by
  have hfilter : httpFilter bcc s.sessions f = (dropPacket, s.sessions) := by
    rw [httpFilter_of_key ha.2.views.1]
    rcases onMatch_cases bcc s.sessions key with ⟨hadm, -⟩ | ⟨-, heq⟩
    · exact absurd hadm hs
    · exact heq
  have hsame : s.arrive bcc f = s := by
    unfold CycleRun.arrive
    rw [hfilter, if_neg dropPacket_ne]
  rwa [hsame]

/-- A frame of another host. -/
theorem CycleInv.other (hip : ip.length = 4) (inv : CycleInv ip s)
    (ha : s.Allowed ip (.other f)) (hs : s.Smooth (.other f)) :
    CycleInv ip (s.arrive bcc f) := by
  have hq : Queued ip (s.arrive bcc f).queue (s.conns.drop s.counted) := by
    show Queued ip (if (httpFilter bcc s.sessions f).1 = keepPacket then s.queue ++ [f]
      else s.queue) _
    split
    · next hkept =>
      obtain ⟨k, hk, -⟩ := (httpFilter_keeps_iff bcc _ f).mp hkept
      exact inv.queue.append_skipped (hs (by rw [hk]; exact Option.some_ne_none k))
    · exact inv.queue
  refine { inv with queue := hq, own := fun k hk hsrc => ?_ }
  rcases mem_httpFilter hk with hk | hk
  · exact inv.own k hk hsrc
  · exact absurd hsrc (matchKey_srcIp_ne hip ha hk)

/-! ## The script -/

/-- A request within a round: the connection is marked. -/
theorem onThreshold_mark {st : Loop} (hcnt : 1 ≤ st.thresholdCnt)
    (hroom : m.hasRoom sessionsSize key.reverse = true) :
    onThreshold true key m st =
      ⟨m.insert key.reverse ⟨2, 0⟩, { st with thresholdCnt := st.thresholdCnt - 1 },
        some key.reverse⟩ := by
  unfold onThreshold
  dsimp only
  rw [if_pos ⟨rfl, by omega⟩, Table.put, if_pos hroom]

/-- The request that ends a round: the connection is let through. -/
theorem onThreshold_last {st : Loop} (hcnt : ¬ 1 ≤ st.thresholdCnt) (hmem : key ∈ m) :
    onThreshold true key m st = ⟨m.erase key, { st with thresholdCnt := 3 }, none⟩ := by
  unfold onThreshold
  dsimp only
  rw [if_neg (fun h => hcnt (by have := h.2; omega)), if_pos hmem]

theorem getElem?_of_drop {l l' : List Key} {n : Nat} (h : l.drop n = key :: l') :
    l[n]? = some key ∧ l.drop (n + 1) = l' ∧ n + 1 ≤ l.length := by
  have hn : l[n]? = some key := by
    have h₀ := congrArg (·[0]?) h
    simpa only [List.getElem?_drop, Nat.add_zero, List.getElem?_cons_zero] using h₀
  refine ⟨hn, ?_, (List.getElem?_eq_some_iff.mp hn).1⟩
  have htail := congrArg List.tail h
  rwa [List.tail_drop, List.tail_cons] at htail

/-- One more connection is counted, and marked unless it ends a round. -/
theorem CycleInv.count (inv : CycleInv ip s) {rest : List Frame} {l : List Key}
    (hq : Queued ip rest l) (hdrop : s.conns.drop s.counted = key :: l) {m : Sessions}
    {st : Loop} {marks : List Key} (hcnt : st.thresholdCnt = 3 - ((s.counted + 1) % 4 : Nat))
    (hmarks : ∀ k, k ∈ marks ↔ k ∈ s.marks ∨ ¬ 4 ∣ s.counted + 1 ∧ k = key.reverse)
    (hown : ∀ k, k ∈ m → k.srcIp = fromBytesBig ip → k ∈ s.sessions) :
    CycleInv ip { s with
      sessions := m
      queue := rest
      loop := st
      counted := s.counted + 1
      marks := marks } := by
  obtain ⟨hget, hrest, hle⟩ := getElem?_of_drop hdrop
  refine ⟨?_, hle, hcnt, fun k => ?_, fun k hk hip => inv.own k (hown k hk hip) hip, inv.local_,
    inv.distinct⟩
  · rw [← hrest] at hq
    exact hq
  · refine (hmarks k).trans ((or_congr_left (inv.marks k)).trans ?_)
    constructor
    · rintro (⟨i, key', h₁, h₂, h₃⟩ | ⟨h₁, h₂⟩)
      · exact ⟨i, key', h₁, Nat.lt_succ_of_lt h₂, h₃⟩
      · exact ⟨s.counted, key, hget, Nat.lt_succ_self _, h₁, h₂⟩
    · rintro ⟨i, key', h₁, h₂, h₃, h₄⟩
      rcases Nat.lt_succ_iff_lt_or_eq.mp h₂ with h | rfl
      · exact .inl ⟨i, key', h₁, h, h₃, h₄⟩
      · rw [← Option.some.inj (hget.symm.trans h₁)] at h₄
        exact .inr ⟨h₃, h₄⟩

/-- **The script handles a frame**: it gets through it, and counts the requests in order. -/
theorem CycleInv.handle (hne : fromBytesBig ip ≠ fromBytesBig server) (inv : CycleInv ip s)
    (hw : s.Writes) : ∃ s', s.step bcc ip .handle = .ok s' ∧ CycleInv ip s' := by
  unfold CycleRun.step
  have hqueue := inv.queue
  cases hq : s.queue with
  | nil => exact ⟨s, rfl, inv⟩
  | cons f rest =>
    rw [hq] at hqueue
    generalize hd : s.conns.drop s.counted = l at hqueue
    dsimp only
    cases hqueue with
    | skipped hf hrest =>
      obtain ⟨h', checked, hrun, hinj, hcnt, hkeys⟩ := hf.handlePacket ip s.sessions s.loop
      rw [hrun, ok_bind, hf.2, hinj]
      exact ⟨_, rfl, hd ▸ hrest, inv.counted, hcnt.trans inv.cnt, inv.marks,
        fun k hk hip => inv.own k (hkeys k hk) hip, inv.local_, inv.distinct⟩
    | @get key _ _ l hf hr hrest =>
      have hwrite := hw f (by rw [hq]; rfl) (hf.counts hr)
      rw [hf.views.2.2.1] at hwrite
      rw [hf.handlePacket hr, ok_bind, hf.counts hr]
      have hcnt := inv.cnt
      have hdst : key.reverse.srcIp = fromBytesBig server := hf.dstIp
      by_cases hmark : 1 ≤ s.loop.thresholdCnt
      · -- within a round
        rw [if_pos hmark] at hwrite
        have hdone : onThreshold true key s.sessions
          { s.loop with packetCount := s.loop.packetCount + 1 } = _ :=
          onThreshold_mark hmark hwrite
        rw [hdone]
        refine ⟨_, rfl, inv.count hrest hd (by dsimp only; omega) (fun k => ?_)
          fun k hk hip => ?_⟩
        · show k ∈ key.reverse :: s.marks ↔ _
          rw [List.mem_cons, or_comm]
          refine or_congr_right ⟨fun h => ⟨by omega, h⟩, fun h => h.2⟩
        · rcases (AList.mem_insert s.sessions).mp hk with rfl | hk
          · exact absurd (hip.symm.trans hdst) hne
          · exact hk
      · -- the end of a round
        rw [if_neg hmark] at hwrite
        have hdone : onThreshold true key s.sessions
          { s.loop with packetCount := s.loop.packetCount + 1 } = _ :=
          onThreshold_last hmark hwrite
        rw [hdone]
        refine ⟨_, rfl, inv.count hrest hd (by dsimp only; omega) (fun k => ?_)
          fun k hk _ => ?_⟩
        · show k ∈ s.marks ↔ _
          exact ⟨.inl, fun h => h.resolve_right fun h => absurd h.1 (by omega)⟩
        · exact (AList.mem_erase.mp hk).2

theorem cycleInv_step (hip : ip.length = 4) (hne : fromBytesBig ip ≠ fromBytesBig server)
    {e : CycleEvent} (inv : CycleInv ip s) (ha : s.Allowed ip e) (hs : s.Smooth e)
    (hstep : s.step bcc ip e = .ok s') : CycleInv ip s' := by
  cases e with
  | connect key f =>
    cases hstep
    exact inv.connect ha hs
  | again key f =>
    cases hstep
    exact inv.again ha hs
  | other f =>
    cases hstep
    exact inv.other hip ha hs
  | handle =>
    obtain ⟨s₁, hs₁, inv₁⟩ := inv.handle hne hs
    rwa [← Except.ok.inj (hs₁.symm.trans hstep)]
  | expire now k =>
    cases hstep
    exact inv.setSessions fun _ hk _ => mem_cleanupKey hk
  | xdp f =>
    cases hstep
    exact inv.setSessions fun _ hk _ => mem_xdpProg1 hk

theorem cycleInv_initial (ip : List UInt8) : CycleInv ip CycleRun.initial where
  queue := .nil
  counted := Nat.le_refl 0
  cnt := rfl
  marks k := by
    refine ⟨fun h => absurd h List.not_mem_nil, ?_⟩
    rintro ⟨i, key, h, -⟩
    cases h
  own k hk _ := absurd hk (AList.notMem_empty k)
  local_ k hk := absurd hk List.not_mem_nil
  distinct := List.nodup_nil

theorem CycleRun.Smoothly.inv (hip : ip.length = 4)
    (hne : fromBytesBig ip ≠ fromBytesBig server) (h : s.Smoothly bcc ip) : CycleInv ip s :=
  Reach.inv (I := CycleInv ip) (fun s hs => by subst hs; exact cycleInv_initial ip)
    (fun _ _ _ inv he hstep => cycleInv_step hip hne inv he.1 he.2 hstep) h

/-- **An iteration of the script**, with the `cleanup` that may end it, is a step of the run and
then visits of `cleanup` to single entries. -/
theorem iteration_steps {rest : List Frame} {now : Int} {h : Handled} (hq : s.queue = f :: rest)
    (hit : iteration ip now (readPacket f) s.sessions s.loop = .ok h) :
    ∃ (s₁ : CycleRun) (l : List Key), s.step bcc ip .handle = .ok s₁ ∧ s₁.loop = h.loop ∧
      h.sessions = l.foldl (cleanupKey now) s₁.sessions := by
  obtain ⟨⟨h₁, checked⟩, hhandle, hrest⟩ := bind_eq_ok.mp hit
  have hstep : ∃ s₁, s.step bcc ip .handle = .ok s₁ ∧ s₁.loop = h₁.loop ∧
      s₁.sessions = h₁.sessions := by
    rw [CycleRun.step, hq]
    dsimp only
    rw [hhandle, ok_bind]
    exact ⟨_, rfl, rfl, rfl⟩
  obtain ⟨s₁, hs₁, hloop, hsessions⟩ := hstep
  dsimp only at hrest
  split at hrest
  · obtain rfl := Except.ok.inj hrest
    exact ⟨s₁, h₁.sessions.keys, hs₁, hloop, by rw [hsessions]; rfl⟩
  · obtain rfl := Except.ok.inj hrest
    exact ⟨s₁, [], hs₁, hloop, hsessions.symm⟩

/-- The cycle is right: the script has marked the reverse key of connection `i + 1` exactly if
it has counted its request, and it is not a fourth one. -/
def CycleRight (s : CycleRun) : Prop :=
  ∀ i key, s.conns[i]? = some key → (key.reverse ∈ s.marks ↔ i < s.counted ∧ ¬ 4 ∣ i + 1)

theorem CycleInv.right (inv : CycleInv ip s) : CycleRight s := by
  intro i key hi
  rw [inv.marks]
  constructor
  · rintro ⟨j, key', hj, hlt, hdvd, hrev⟩
    have hkey : key = key' := Key.reverse_inj hrev
    obtain ⟨hi', hi''⟩ := List.getElem?_eq_some_iff.mp hi
    obtain ⟨hj', hj''⟩ := List.getElem?_eq_some_iff.mp hj
    obtain rfl : i = j :=
      (List.Nodup.getElem_inj_iff inv.distinct).mp (hi''.trans (hkey.trans hj''.symm))
    exact ⟨hlt, hdvd⟩
  · rintro ⟨hlt, hdvd⟩
    exact ⟨i, key, hi, hlt, hdvd, rfl⟩

end BpfExamples.Http
