import BpfExamples.Http.Userspace
import BpfExamples.Base.Runs

/-!
# The partial URLs that the script buffers (`ebpf-http/http-parse-complete.py`, lines 287–373)

A message whose URL is not all in its first packet is kept in `local_dictionary`, and later
packets of the session are appended. A string of more than `MAX_URL_STRING_LEN` bytes is to be
dropped, from the dictionary and from the map; but after the `del` the line for the other case
still runs, which puts the string back.

What one turn of the loop does to the dictionary is said once (`Effect`). The map is whatever
the BPF programs have made of it when a turn starts.

- `buffers_bounded_iff`: in a run the strings stay bounded and the dropped ones stay out exactly
  as long as none gets too long.
-/

namespace BpfExamples.Http

/-- One turn of the loop: the frame that is read, the map at that time and the time. -/
structure Turn where
  frame : Frame
  sessions : Sessions
  now : Int

/-- The turn, from the variables before it. -/
def Turn.handle (ip : List UInt8) (t : Turn) (st : Loop) : Except PyError Handled :=
  iteration ip t.now (readPacket t.frame) t.sessions st

variable {ip : List UInt8} {packet : Frame} {m : Sessions} {st : Loop} {v : PyView}
  {prev : List UInt8} {t : Turn} {h : Handled} {key : Key}

/-- The packet is a further part of a buffered URL, and not its last. -/
structure Continues (packet : Frame) (m : Sessions) (st : Loop) (v : PyView)
    (prev : List UInt8) : Prop where
  view : pyHeaders packet = .ok v
  ofServer : ¬ (v.ipSrc ≠ server ∧ v.ipDst ≠ server)
  noMatch : ¬ httpMatch v.payload = true
  session : v.currentKey ∈ m
  buffered : st.localDictionary.lookup v.currentKey = some prev
  noEnd : ¬ occursIn crlf v.payload = true

/-- What a turn can do to the dictionary. -/
inductive Effect (packet : Frame) (m : Sessions) (st : Loop) : Table Key (List UInt8) → Prop
  | same : Effect packet m st st.localDictionary
  | erased (key : Key) : Effect packet m st (st.localDictionary.erase key)
  | first {v : PyView} : pyHeaders packet = .ok v →
      Effect packet m st (st.localDictionary.insert v.currentKey v.payload)
  | more {v : PyView} {prev : List UInt8} {d : Table Key (List UInt8)} :
      Continues packet m st v prev → d = st.localDictionary ∨ d = st.localDictionary.erase
        v.currentKey → Effect packet m st (d.insert v.currentKey (prev ++ v.payload))

/-! ## One turn -/

theorem onThreshold_localDictionary (needFilter : Bool) (key : Key) (m : Sessions) (st : Loop) :
    (onThreshold needFilter key m st).loop.localDictionary = st.localDictionary := by
  unfold onThreshold
  dsimp only
  split
  · split <;> rfl
  · split <;> rfl

/-- `del` takes the string out, if anything. -/
theorem forget_localDictionary (key : Key) (m : Sessions) (st : Loop) :
    (forget key m st).2.localDictionary = st.localDictionary ∨
      (forget key m st).2.localDictionary = st.localDictionary.erase key := by
  unfold forget
  split
  · exact .inr rfl
  · exact .inl rfl

/-- A further part is appended, whatever has been deleted before. -/
theorem Continues.onOther (hc : Continues packet m st v prev) (needFilter : Bool) :
    ∃ d, (d = st.localDictionary ∨ d = st.localDictionary.erase v.currentKey) ∧
      (onOther needFilter v.currentKey v.payload m st).2.localDictionary =
        d.insert v.currentKey (prev ++ v.payload) := by
  unfold Http.onOther
  rw [if_pos hc.session, hc.buffered]
  dsimp only
  rw [if_neg hc.noEnd]
  split
  · exact ⟨_, forget_localDictionary _ m st, rfl⟩
  · exact ⟨_, .inl rfl, rfl⟩

/-- The cases of a packet that is no HTTP message. -/
theorem onOther_effect (needFilter : Bool) (hview : pyHeaders packet = .ok v)
    (hserver : ¬ (v.ipSrc ≠ server ∧ v.ipDst ≠ server)) (hmatch : ¬ httpMatch v.payload = true)
    (m : Sessions) (st : Loop) :
    Effect packet m st (onOther needFilter v.currentKey v.payload m st).2.localDictionary := by
  by_cases hkey : v.currentKey ∈ m
  · cases hprev : st.localDictionary.lookup v.currentKey with
    | none =>
      unfold onOther
      rw [if_pos hkey, hprev]
      exact .same
    | some prev =>
      by_cases hend : occursIn crlf v.payload = true
      · unfold onOther
        rw [if_pos hkey, hprev]
        dsimp only
        rw [if_pos hend]
        split
        · exact .same
        · rcases forget_localDictionary v.currentKey m st with hf | hf
          · exact hf ▸ .same
          · exact hf ▸ .erased _
      · have hc : Continues packet m st v prev := ⟨hview, hserver, hmatch, hkey, hprev, hend⟩
        obtain ⟨d, hd, heq⟩ := hc.onOther needFilter
        exact heq ▸ .more hc hd
  · unfold onOther
    rw [if_neg hkey]
    exact .same

/-- The packet count is no part of what decides. -/
theorem Effect.of_count {n : Nat} {d : Table Key (List UInt8)}
    (h : Effect packet m { st with packetCount := n } d) : Effect packet m st d := by
  cases h with
  | same => exact .same
  | erased key => exact .erased key
  | first hview => exact .first hview
  | more hc hd =>
    exact .more ⟨hc.view, hc.ofServer, hc.noMatch, hc.session, hc.buffered, hc.noEnd⟩ hd

theorem handlePacket_effect {checked : Bool}
    (hh : handlePacket ip packet m st = .ok (h, checked)) :
    Effect packet m st h.loop.localDictionary := by
  obtain ⟨v, hview, hh⟩ := bind_eq_ok.mp hh
  dsimp only at hh
  split at hh
  · obtain ⟨rfl, -⟩ := Prod.mk.inj (Except.ok.inj hh)
    exact .same
  next hserver =>
  split at hh
  · split at hh
    · obtain ⟨rfl, -⟩ := Prod.mk.inj (Except.ok.inj hh)
      rw [onThreshold_localDictionary]
      exact .same
    · obtain ⟨rfl, -⟩ := Prod.mk.inj (Except.ok.inj hh)
      exact .first hview
  · next hmatch =>
    obtain ⟨rfl, -⟩ := Prod.mk.inj (Except.ok.inj hh)
    exact (onOther_effect _ hview hserver hmatch m _).of_count

/-- `cleanup` leaves the dictionary alone. -/
theorem Turn.handle_loop (hh : t.handle ip st = .ok h) :
    ∃ h₁ checked, handlePacket ip (readPacket t.frame) t.sessions st = .ok (h₁, checked) ∧
      h.loop = h₁.loop := by
  obtain ⟨⟨h₁, checked⟩, hhandle, hrest⟩ := bind_eq_ok.mp hh
  refine ⟨h₁, checked, hhandle, ?_⟩
  dsimp only at hrest
  split at hrest
  · rw [← Except.ok.inj hrest]
  · rw [← Except.ok.inj hrest]

theorem Turn.handle_of_packet {h₁ : Handled} {checked : Bool} (t : Turn)
    (hhandle : handlePacket ip (readPacket t.frame) t.sessions st = .ok (h₁, checked)) :
    ∃ h, t.handle ip st = .ok h ∧ h.loop = h₁.loop := by
  unfold Turn.handle iteration
  rw [hhandle, ok_bind]
  dsimp only
  split
  · exact ⟨_, rfl, rfl⟩
  · exact ⟨_, rfl, rfl⟩

/-- **What a turn does** to the dictionary. -/
theorem Turn.handle_effect (hh : t.handle ip st = .ok h) :
    Effect (readPacket t.frame) t.sessions st h.loop.localDictionary := by
  obtain ⟨h₁, checked, hhandle, hloop⟩ := Turn.handle_loop hh
  rw [hloop]
  exact handlePacket_effect hhandle

/-- A turn with the first part of a URL ends with it in the dictionary. -/
theorem Turn.handle_first (hview : pyHeaders (readPacket t.frame) = .ok v)
    (hserver : ¬ (v.ipSrc ≠ server ∧ v.ipDst ≠ server)) (hmatch : httpMatch v.payload = true)
    (hend : occursIn crlf v.payload = false) (ip : List UInt8) (st : Loop) :
    ∃ h, t.handle ip st = .ok h ∧ h.loop.localDictionary.lookup v.currentKey =
      some v.payload := by
  have hpacket : ∃ h₁ checked, handlePacket ip (readPacket t.frame) t.sessions st = .ok (h₁,
      checked) ∧ h₁.loop.localDictionary.lookup v.currentKey = some v.payload := by
    unfold handlePacket
    rw [hview, ok_bind]
    dsimp only
    rw [if_neg hserver, if_pos hmatch, hend, Bool.false_and, if_neg Bool.false_ne_true]
    exact ⟨_, _, rfl, AList.lookup_insert _⟩
  obtain ⟨h₁, checked, hhandle, hlook⟩ := hpacket
  obtain ⟨h, hh, hloop⟩ := t.handle_of_packet hhandle
  exact ⟨h, hh, hloop ▸ hlook⟩

/-- A turn with a further part does not fail, and ends with the longer string in the
dictionary. -/
theorem Continues.handle (hc : Continues (readPacket t.frame) t.sessions st v prev)
    (ip : List UInt8) :
    ∃ h, t.handle ip st = .ok h ∧ h.loop.localDictionary.lookup v.currentKey =
      some (prev ++ v.payload) := by
  have hpacket : ∃ h₁ checked, handlePacket ip (readPacket t.frame) t.sessions st = .ok (h₁,
      checked) ∧ h₁.loop.localDictionary.lookup v.currentKey = some (prev ++ v.payload) := by
    unfold handlePacket
    rw [hc.view, ok_bind]
    dsimp only
    rw [if_neg hc.ofServer, if_neg hc.noMatch]
    refine ⟨_, _, rfl, ?_⟩
    -- the same part, with the packet counted
    have hc' : Continues
      (readPacket t.frame) t.sessions { st with packetCount := st.packetCount + 1 } v prev :=
      ⟨hc.view, hc.ofServer, hc.noMatch, hc.session, hc.buffered, hc.noEnd⟩
    obtain ⟨d, -, hd⟩ := hc'.onOther (v.ipSrc == ip)
    exact (congrArg _ hd).trans (AList.lookup_insert d)
  obtain ⟨h₁, checked, hhandle, hlook⟩ := hpacket
  obtain ⟨h, hh, hloop⟩ := t.handle_of_packet hhandle
  exact ⟨h, hh, hloop ▸ hlook⟩

/-! ## Runs -/

/-- Every buffered string keeps to the limit. -/
def Bounded (st : Loop) : Prop :=
  ∀ key s, st.localDictionary.lookup key = some s → s.length ≤ maxUrlStringLen

/-- In this turn the string of `key` gets too long. -/
def Turn.TooLong (t : Turn) (st : Loop) (key : Key) : Prop :=
  ∃ v prev, Continues (readPacket t.frame) t.sessions st v prev ∧ v.currentKey = key ∧
    maxUrlStringLen < (prev ++ v.payload).length

/-- What should hold after a turn: the strings keep to the limit, and one that got too long is
out of the dictionary and its session out of the map. -/
def Turn.EndsWell (t : Turn) (st : Loop) (h : Handled) : Prop :=
  Bounded h.loop ∧ ∀ key, t.TooLong st key → key ∉ h.loop.localDictionary ∧ key ∉ h.sessions

/-- After each turn of the run, as far as no exception ends it. -/
def EachEndsWell (ip : List UInt8) : Loop → List Turn → Prop
  | _, [] => True
  | st, t :: ts => ∀ h, t.handle ip st = .ok h → t.EndsWell st h ∧ EachEndsWell ip h.loop ts

/-- In no turn of the run a string gets too long. -/
def NoneTooLong (ip : List UInt8) : Loop → List Turn → Prop
  | _, [] => True
  | st, t :: ts => (∀ key, ¬ t.TooLong st key) ∧ ∀ h, t.handle ip st = .ok h →
    NoneTooLong ip h.loop ts

theorem bounded_initial : Bounded Loop.initial := by
  intro key s hs
  exact absurd hs (by rw [Loop.initial]; simp)

/-- A packet is read up to 4096 bytes. -/
theorem payload_length_le {f : Frame} (hview : pyHeaders (readPacket f) = .ok v) :
    v.payload.length ≤ 4096 := by
  unfold pyHeaders at hview
  simp only [bind_eq_ok] at hview
  obtain ⟨_, -, _, -, first, -, src, -, dst, -, offset, -, hv⟩ := hview
  rw [← Except.ok.inj hv]
  show (List.take _ (List.drop _ (f.take 4096))).length ≤ 4096
  rw [List.length_take, List.length_drop, List.length_take]
  omega

/-- A string that is put in keeps the dictionary bounded if it is short. -/
theorem Bounded.insert {d : Table Key (List UInt8)} {s : List UInt8}
    (hs : s.length ≤ maxUrlStringLen)
    (hd : ∀ k x, d.lookup k = some x → x.length ≤ maxUrlStringLen) :
    ∀ k x, (d.insert key s).lookup k = some x → x.length ≤ maxUrlStringLen := by
  intro k x hx
  rw [Table.lookup_insert_eq] at hx
  split at hx
  · exact Option.some.inj hx ▸ hs
  · exact hd k x hx

theorem Bounded.erase (hb : Bounded st) (key : Key) :
    ∀ k x, (st.localDictionary.erase key).lookup k = some x → x.length ≤ maxUrlStringLen := by
  intro k x hx
  rw [Table.lookup_erase_eq] at hx
  split at hx
  · cases hx
  · exact hb k x hx

/-- **One turn**: it ends well exactly if no string gets too long in it. -/
theorem endsWell_iff (hb : Bounded st) (hh : t.handle ip st = .ok h) :
    t.EndsWell st h ↔ ∀ key, ¬ t.TooLong st key := by
  constructor
  · rintro ⟨hbound, -⟩ key ⟨v, prev, hc, -, hlong⟩
    obtain ⟨h', hh', hlook⟩ := hc.handle ip
    obtain rfl := Except.ok.inj (hh.symm.trans hh')
    exact absurd (hbound _ _ hlook) (Nat.not_le.mpr hlong)
  · intro hnone
    refine ⟨?_, fun key hlong => absurd hlong (hnone key)⟩
    have heff := Turn.handle_effect hh
    unfold Bounded
    generalize h.loop.localDictionary = d at heff ⊢
    cases heff with
    | same => exact hb
    | erased key => exact hb.erase key
    | first hview =>
      have hlen := payload_length_le hview
      exact Bounded.insert (Nat.le_trans hlen (by decide)) hb
    | @more v prev d hc hd =>
      have hshort : (prev ++ v.payload).length ≤ maxUrlStringLen :=
        Nat.not_lt.mp fun hlong => hnone _ ⟨v, prev, hc, rfl, hlong⟩
      refine Bounded.insert hshort ?_
      rcases hd with rfl | rfl
      · exact hb
      · exact hb.erase _

theorem eachEndsWell_iff (ip : List UInt8) (ts : List Turn) :
    ∀ {st : Loop}, Bounded st → (EachEndsWell ip st ts ↔ NoneTooLong ip st ts) := by
  induction ts with
  | nil => exact fun _ => Iff.rfl
  | cons t ts ih =>
    intro st hb
    constructor
    · intro heach
      refine ⟨?_, fun h hh => ?_⟩
      · -- a string that gets too long does so in a turn that does not fail
        rintro key ⟨v, prev, hc, hkey, hlong⟩
        obtain ⟨h, hh, -⟩ := hc.handle ip
        exact (endsWell_iff hb hh).mp (heach h hh).1 key ⟨v, prev, hc, hkey, hlong⟩
      · obtain ⟨hwell, hrest⟩ := heach h hh
        exact (ih hwell.1).mp hrest
    · rintro ⟨hnone, hrest⟩ h hh
      have hwell := (endsWell_iff hb hh).mpr hnone
      exact ⟨hwell, (ih hwell.1).mpr (hrest h hh)⟩

/-- **The buffers of a run**: they stay bounded, and what is dropped stays out, exactly if no
string ever gets too long. -/
theorem buffers_bounded_iff (ip : List UInt8) (ts : List Turn) :
    EachEndsWell ip Loop.initial ts ↔ NoneTooLong ip Loop.initial ts :=
  eachEndsWell_iff ip ts bounded_initial

/-- A packet of one connection to the server. -/
def partFrame (payload : List UInt8) : Frame :=
  [0, 0, 0, 0, 0, 0, 0, 0, 0, 0, 0, 0, 8, 0, 0x45, 0, 0, 80, 0, 0, 0, 0, 64, 6, 0, 0, 10, 0, 0,
    1, 100, 100, 100, 200, 0x9c, 0x40, 0, 80, 0, 0, 0, 0, 0, 0, 0, 0, 0x50, 0x18, 0, 0, 0, 0, 0,
    0] ++ payload

/-- What the script makes of it. -/
def partView (payload : List UInt8) : PyView :=
  ⟨[10, 0, 0, 1], server, [0x9c, 0x40], [0, 80], 54, payload⟩

theorem pyHeaders_partFrame {payload : List UInt8} (hlen : payload.length ≤ 4042) :
    pyHeaders (readPacket (partFrame payload)) = .ok (partView payload) := by
  have hall : readPacket (partFrame payload) = partFrame payload := by
    refine List.take_of_length_le ?_
    rw [partFrame, List.length_append]
    exact Nat.add_le_add_left hlen 54
  have hpay : slice (partFrame payload) 54 (partFrame payload).length = payload := by
    rw [slice, partFrame, List.length_append]
    exact List.take_of_length_le (Nat.le_of_eq (Nat.add_sub_cancel_left 54 _).symm)
  calc pyHeaders (readPacket (partFrame payload))
      = .ok (partView (slice (partFrame payload) 54 (partFrame payload).length)) := by
        rw [hall]
        rfl
    _ = .ok (partView payload) := by rw [hpay]

theorem occursIn_crlf_replicate (n : Nat) : occursIn crlf (List.replicate n 65) = false := by
  induction n with
  | zero => rfl
  | succ n ih => exact ih

/-- `GET /` and then `n` times the same letter. -/
def urlStart (n : Nat) : List UInt8 := [71, 69, 84, 32, 47] ++ List.replicate n 65

theorem httpMatch_urlStart (n : Nat) : httpMatch (urlStart n) = true := rfl

theorem occursIn_crlf_urlStart (n : Nat) : occursIn crlf (urlStart n) = false :=
  occursIn_crlf_replicate n

/-- A turn with a packet of the connection, which is in the map. -/
def partTurn (payload : List UInt8) : Turn :=
  ⟨partFrame payload, AList.singleton (partView []).currentKey ⟨0, 0⟩, 0⟩

/-- A further part of that URL. -/
theorem continues_partFrame {n : Nat} (hn : n ≤ 4042)
    (hprev : st.localDictionary.lookup (partView []).currentKey = some prev) :
    Continues (readPacket (partTurn (List.replicate n 65)).frame)
      (partTurn (List.replicate n 65)).sessions st
      (partView (List.replicate n 65)) prev where
  view := pyHeaders_partFrame (by rw [List.length_replicate]; exact hn)
  ofServer := fun h => h.2 rfl
  noMatch := by
    cases n with
    | zero => decide
    | succ n => exact Bool.false_ne_true
  session := by
    show (partView []).currentKey ∈ AList.singleton (partView []).currentKey _
    decide
  buffered := hprev
  noEnd := by
    rw [partView, occursIn_crlf_replicate]
    exact Bool.false_ne_true

/-- **A string gets too long** and stays: three packets with 4000, 4000 and 200 letters of a
URL. -/
theorem buffers_overflow :
    ¬ EachEndsWell [10, 0, 0, 1] Loop.initial
      [partTurn (urlStart 4000), partTurn (List.replicate 4000 65),
        partTurn (List.replicate 200 65)] := by
  intro heach
  have hview : pyHeaders (readPacket (partTurn (urlStart 4000)).frame) =
    .ok (partView (urlStart 4000)) :=
    pyHeaders_partFrame (by rw [urlStart, List.length_append, List.length_replicate]; decide)
  obtain ⟨h₁, hh₁, hlook₁⟩ := Turn.handle_first hview (fun h => h.2 rfl)
    (httpMatch_urlStart 4000) (occursIn_crlf_urlStart 4000) [10, 0, 0, 1] Loop.initial
  obtain ⟨h₂, hh₂, hlook₂⟩ := (continues_partFrame (n := 4000) (by decide) hlook₁).handle
    [10, 0, 0, 1]
  obtain ⟨h₃, hh₃, hlook₃⟩ := (continues_partFrame (n := 200) (by decide) hlook₂).handle
    [10, 0, 0, 1]
  have hbound := ((((heach h₁ hh₁).2 h₂ hh₂).2 h₃ hh₃).1).1 _ _ hlook₃
  rw [partView, partView, partView, urlStart] at hbound
  simp only [List.length_append, List.length_replicate] at hbound
  exact absurd hbound (by decide)

end BpfExamples.Http
