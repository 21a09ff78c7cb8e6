import BpfExamples.Sockmap.Redirect

/-!
# The offloaded proxy (`sockmap_2/sockmap_kern.c`, `sockmap_2/sockmap_user.c`)

The proxy holds a connection to each of two servers. Packets that arrive on a socket which is in
`sock_map` are handled in the kernel: `bpf_prog2` looks the server's port up in `proxy_map`, and
redirects the packet to the socket in the slot it finds. Packets on any other socket wait in its
receive queue for the `select` loop of `main`. A HUP takes the two sockets out of `sock_map`,
and the next one puts them back.

`step` is the machine of all this: `main` from its first map update on, statement by statement
where a signal can come in between; the handler, one map update at a time; and packets that
arrive at any moment.

- `State.Forwards`: what was received from a server went to the other one, in the same order, as
  far as it does not wait for `main`.
- `proxy_forwards`: it holds in every run in which the kernel uses the maps only when they are
  complete and `main` has nothing left to forward; and if no signal interrupts `select`,
  everything was delivered when `main` has to wait.
-/

namespace BpfExamples.Sockmap.Proxy

/-! ## The maps -/

/-- The two connections, `proxysd1` and `proxysd2`. -/
inductive Side
  | one
  | two
deriving DecidableEq, Repr

def Side.peer : Side → Side
  | .one => .two
  | .two => .one

@[simp] theorem Side.peer_ne (c : Side) : c.peer ≠ c := by cases c <;> nofun

/-- The ports that `main` is given. -/
structure Servers where
  port1 : PortNo
  port2 : PortNo

def Servers.port (v : Servers) : Side → PortNo
  | .one => v.port1
  | .two => v.port2

/-- `proxy_map` (sockmap_kern.c:5–10): from ports to slots. -/
abbrev ProxyMap := Table Nat Nat

/-- `sock_map` (sockmap_kern.c:12–17), a map of slots. -/
abbrev SockMap := Nat → Option Side

/-- `max_entries` of both maps. -/
def mapEntries : Nat := 2

/-- `bpf_map_update_elem` and `bpf_map_delete_elem`, whose results nobody looks at. -/
def proxyMapUpdate (m : ProxyMap) (key val : Nat) : ProxyMap :=
  (m.put mapEntries key val).getD m
@[inherit_doc proxyMapUpdate]
def sockMapUpdate (m : SockMap) (key : Nat) (sd : Side) : SockMap :=
  if key < mapEntries then Function.update m key (some sd) else m
@[inherit_doc proxyMapUpdate]
def sockMapDelete (m : SockMap) (key : Nat) : SockMap :=
  if key < mapEntries then Function.update m key none else m

/-- `bpf_prog2` (sockmap_kern.c:25–39): the socket that the packet is redirected to, if it is
not dropped. -/
def bpfProg2 (proxyMap : ProxyMap) (sockMap : SockMap) (remotePort : Nat) : Option Side := do
  let port := bpfHtonl remotePort % 2 ^ 16
  let index ← proxyMap.lookup port
  sockMap index

/-- The field `remote_port` of a packet on a connection. -/
def remotePort (v : Servers) (c : Side) : Nat := htons (v.port c) * 2 ^ 16

/-- Where `main` stands (sockmap_user.c:116–146). -/
inductive Pc
  | key0
  | sock0
  | key1
  | sock1
  | proxy1
  | proxy2
  | select
  | recv1
  | send1
  | recv2
  | send2
deriving DecidableEq, Repr

/-- The loop has begun. -/
def Pc.looping : Pc → Bool
  | .select | .recv1 | .send1 | .recv2 | .send2 => true
  | _ => false

/-- The connection whose data is in `buf`. -/
def Pc.sends : Pc → Option Side
  | .send1 => some .one
  | .send2 => some .two
  | _ => none

/-- Where `hup_handler` stands (sockmap_user.c:31–43): in front of one of its map updates, or of
the new value of `ctrl`. -/
inductive Hup
  | on0
  | on1
  | onEnd
  | off0
  | off1
  | offEnd
deriving DecidableEq, Repr

/-- The process with its maps and sockets; `buf` has the bytes that `recv` returned. The last
three fields record what became of the data: received from which server, delivered from which to
which, dropped from which. -/
structure State where
  pc : Pc
  handler : Option Hup
  key : Nat
  ctrl : Nat
  proxyMap : ProxyMap
  sockMap : SockMap
  rset : Side → Bool
  buf : List UInt8
  queue : Side → List UInt8
  received : Side → List UInt8
  delivered : Side → Side → List UInt8
  dropped : Side → List UInt8

namespace State

/-- The process when its two connections are made. -/
def start : State where
  pc := .key0
  handler := none
  key := 0
  ctrl := 0
  proxyMap := ∅
  sockMap := fun _ => none
  rset := fun _ => false
  buf := []
  queue := fun _ => []
  received := fun _ => []
  delivered := fun _ _ => []
  dropped := fun _ => []

/-- Send data of the connection `c` on the connection `d`. -/
def send (s : State) (c d : Side) (data : List UInt8) : State :=
  { s with
    delivered := fun a b =>
      if a = c ∧ b = d then s.delivered a b ++ data else s.delivered a b }

/-- The kernel handles what arrives on the connection. -/
def Hooked (s : State) (c : Side) : Prop := s.sockMap 0 = some c ∨ s.sockMap 1 = some c

instance decidableHooked (s : State) (c : Side) : Decidable (s.Hooked c) :=
  inferInstanceAs (Decidable (_ ∨ _))

/-- What `main` has read of the connection and not sent yet. -/
def inFlight (s : State) (c : Side) : List UInt8 := if s.pc.sends = some c then s.buf else []

end State

/-- `MAXSIZE` (sockmap_user.c:11). -/
def maxSize : Nat := 1024

/-- `recv` (sockmap_user.c:138, 143); `none` while it waits. -/
def recv (s : State) (c : Side) (pc : Pc) : Option State :=
  if s.queue c = [] then none
  else some { s with
    buf := (s.queue c).take maxSize
    queue := Function.update s.queue c ((s.queue c).drop maxSize)
    pc := pc }

/-- The next statement of `main`; `none` while it waits. -/
def mainStep (v : Servers) (s : State) : Option State :=
  match s.pc with
  | .key0 => some { s with key := 0, pc := .sock0 }
  | .sock0 => some { s with sockMap := sockMapUpdate s.sockMap s.key .one, pc := .key1 }
  | .key1 => some { s with key := 1, pc := .sock1 }
  | .sock1 => some { s with sockMap := sockMapUpdate s.sockMap s.key .two, pc := .proxy1 }
  | .proxy1 => some { s with proxyMap := proxyMapUpdate s.proxyMap v.port1 1, pc := .proxy2 }
  | .proxy2 => some { s with proxyMap := proxyMapUpdate s.proxyMap v.port2 0, pc := .select }
  | .select =>
    if s.queue .one = [] ∧ s.queue .two = [] then none
    else some { s with rset := fun c => decide (s.queue c ≠ []), pc := .recv1 }
  | .recv1 => if s.rset .one then recv s .one .send1 else some { s with pc := .recv2 }
  | .send1 => some { s.send .one .two s.buf with pc := .recv2 }
  | .recv2 => if s.rset .two then recv s .two .send2 else some { s with pc := .select }
  | .send2 => some { s.send .two .one s.buf with pc := .select }

/-- How `hup_handler` begins. -/
def hupBegin (s : State) : State :=
  if s.ctrl = 1 then { s with handler := some .on0 }
  else if s.ctrl = 0 then { s with handler := some .off0 }
  else s

/-- The next part of `hup_handler`, in which `main` stands still. -/
def hupStep (s : State) : Hup → State
  | .on0 => { s with key := 0, sockMap := sockMapUpdate s.sockMap 0 .one, handler := some .on1 }
  | .on1 =>
    { s with key := 1, sockMap := sockMapUpdate s.sockMap 1 .two, handler := some .onEnd }
  | .onEnd => { s with ctrl := 0, handler := none }
  | .off0 => { s with key := 0, sockMap := sockMapDelete s.sockMap 0, handler := some .off1 }
  | .off1 => { s with key := 1, sockMap := sockMapDelete s.sockMap 1, handler := some .offEnd }
  | .offEnd => { s with ctrl := 1, handler := none }

/-- A packet arrives on the connection `c`. The parser `bpf_prog1` takes each packet for one
message. -/
def arrive (v : Servers) (s : State) (c : Side) (data : List UInt8) : State :=
  let s' := { s with received := Function.update s.received c (s.received c ++ data) }
  if s.Hooked c then
    match bpfProg2 s.proxyMap s.sockMap (remotePort v c) with
    | some d => s'.send c d data
    | none => { s' with dropped := Function.update s.dropped c (s.dropped c ++ data) }
  else { s' with queue := Function.update s.queue c (s.queue c ++ data) }

inductive Event
  /-- The process runs. -/
  | run
  | arrive (c : Side) (data : List UInt8)
  /-- A HUP comes while `main` does not wait in `select`. -/
  | hup
  /-- A HUP comes while it does. `select` fails then, and leaves the set as it was. -/
  | hupSelect

/-- What cannot happen in a state. -/
inductive Blocked
  | waits
  | masked

def step (v : Servers) (s : State) : Event → Except Blocked State
  | .run =>
    match s.handler with
    | some h => .ok (hupStep s h)
    | none =>
      match mainStep v s with
      | some s' => .ok s'
      | none => .error .waits
  | .arrive c data => .ok (arrive v s c data)
  | .hup =>
    -- the signal is blocked while its handler runs
    if s.handler = none then .ok (hupBegin s) else .error .masked
  | .hupSelect =>
    if s.handler = none ∧ s.pc = .select ∧ s.queue .one = [] ∧ s.queue .two = [] then
      .ok { hupBegin s with rset := fun _ => true, pc := .recv1 }
    else .error .masked

/-! ## What the proxy is for -/

/-- Nothing was dropped or sent back, and what was received from a server was delivered to the
other one, up to what `main` holds and what is still in the queue. -/
def State.Forwards (s : State) : Prop :=
  ∀ c, s.dropped c = [] ∧ s.delivered c c = [] ∧
    s.delivered c c.peer ++ (s.inFlight c ++ s.queue c) = s.received c

/-- The kernel handles a packet only when this is safe: no packet arrives on a socket in
`sock_map` while the maps are set up or switched, or while `main` has still to forward earlier
ones, nor one of the first server when its port is that of the second; and no HUP comes before
the loop. -/
def Calm (v : Servers) (s : State) : Event → Prop
  | .run => True
  | .arrive c _ => s.Hooked c → s.pc.looping = true ∧ s.handler = none ∧
      (v.port1 ≠ v.port2 ∨ c = .two) ∧ s.queue c = [] ∧ s.pc.sends ≠ some c
  | .hup => s.pc.looping = true
  | .hupSelect => True

/-- Besides, `select` is not interrupted. -/
def Undisturbed (v : Servers) (s : State) : Event → Prop
  | .hupSelect => False
  | e => Calm v s e

instance decidableUndisturbed (v : Servers) (s : State) :
    (e : Event) → Decidable (Undisturbed v s e)
  | .run => isTrue trivial
  | .arrive c _ =>
    inferInstanceAs (Decidable (s.Hooked c → s.pc.looping = true ∧ s.handler = none ∧
      (v.port1 ≠ v.port2 ∨ c = .two) ∧ s.queue c = [] ∧ s.pc.sends ≠ some c))
  | .hup => inferInstanceAs (Decidable (s.pc.looping = true))
  | .hupSelect => isFalse id

/-! ## The maps in a run -/

/-- A map of two slots. -/
def slots (a b : Option Side) : SockMap :=
  fun i => if i = 0 then a else if i = 1 then b else none

/-- `sock_map` as it should be in the loop. -/
def sockMapIn (ctrl : Nat) : Option Hup → SockMap
  | none => if ctrl = 0 then slots (some .one) (some .two) else slots none none
  | some .on0 | some .offEnd => slots none none
  | some .on1 => slots (some .one) none
  | some .onEnd | some .off0 => slots (some .one) (some .two)
  | some .off1 => slots none (some .two)

/-- `sock_map` as it should be. -/
def sockMapAt (handler : Option Hup) (ctrl : Nat) : Pc → SockMap
  | .key0 | .sock0 => slots none none
  | .key1 | .sock1 => slots (some .one) none
  | .proxy1 | .proxy2 => slots (some .one) (some .two)
  | .select | .recv1 | .send1 | .recv2 | .send2 => sockMapIn ctrl handler

/-- `proxy_map` when it is complete. -/
def bothPorts (v : Servers) : ProxyMap :=
  proxyMapUpdate (proxyMapUpdate ∅ v.port1 1) v.port2 0

/-- `proxy_map` as it should be. -/
def proxyMapAt (v : Servers) : Pc → ProxyMap
  | .key0 | .sock0 | .key1 | .sock1 | .proxy1 => ∅
  | .proxy2 => proxyMapUpdate ∅ v.port1 1
  | .select | .recv1 | .send1 | .recv2 | .send2 => bothPorts v

theorem mapsAt_looping {pc : Pc} (h : pc.looping = true) (v : Servers) (handler : Option Hup)
    (ctrl : Nat) :
    sockMapAt handler ctrl pc = sockMapIn ctrl handler ∧ proxyMapAt v pc = bothPorts v := by
  cases pc with
  | select | recv1 | send1 | recv2 | send2 => exact ⟨rfl, rfl⟩
  | key0 | sock0 | key1 | sock1 | proxy1 | proxy2 => cases h

/-- The value of `ctrl` for which the handler does this. -/
def Hup.ctrl : Hup → Nat
  | .on0 | .on1 | .onEnd => 1
  | .off0 | .off1 | .offEnd => 0

/-- The maps and the variables of the process are as they should be. -/
structure MapsOk (v : Servers) (s : State) : Prop where
  sockMap : s.sockMap = sockMapAt s.handler s.ctrl s.pc
  proxyMap : s.proxyMap = proxyMapAt v s.pc
  key : (s.pc = .sock0 → s.key = 0) ∧ (s.pc = .sock1 → s.key = 1)
  handler : ∀ h, s.handler = some h → s.pc.looping = true ∧ s.ctrl = h.ctrl
  early : s.pc.looping = false → s.ctrl = 0

/-- In the loop the setup is no concern any more. -/
theorem mapsOk_of_looping {v : Servers} {s : State} (hl : s.pc.looping = true)
    (hsock : s.sockMap = sockMapIn s.ctrl s.handler) (hproxy : s.proxyMap = bothPorts v)
    (hctrl : ∀ h, s.handler = some h → s.ctrl = h.ctrl) : MapsOk v s := by
  have hat := mapsAt_looping hl v s.handler s.ctrl
  refine ⟨hsock.trans hat.1.symm, hproxy.trans hat.2.symm, ⟨fun h => ?_, fun h => ?_⟩,
    fun h hh => ⟨hl, hctrl h hh⟩, fun h => absurd (h.symm.trans hl) nofun⟩
  · rw [h] at hl
    cases hl
  · rw [h] at hl
    cases hl

theorem MapsOk.looping {v : Servers} {s : State} (hm : MapsOk v s) (hl : s.pc.looping = true) :
    s.sockMap = sockMapIn s.ctrl s.handler ∧ s.proxyMap = bothPorts v := by
  have hat := mapsAt_looping hl v s.handler s.ctrl
  exact ⟨hm.sockMap.trans hat.1, hm.proxyMap.trans hat.2⟩

/-- In the loop only the handler touches the maps. -/
theorem MapsOk.loop {v : Servers} {s s' : State} (hm : MapsOk v s) (hl : s.pc.looping = true)
    (hl' : s'.pc.looping = true) (hsock : s'.sockMap = s.sockMap)
    (hproxy : s'.proxyMap = s.proxyMap) (hhandler : s'.handler = s.handler)
    (hctrl : s'.ctrl = s.ctrl) : MapsOk v s' := by
  obtain ⟨h₁, h₂⟩ := hm.looping hl
  refine mapsOk_of_looping hl' ?_ (hproxy.trans h₂) fun h hh => ?_
  · rw [hsock, hhandler, hctrl, h₁]
  · rw [hctrl]
    exact (hm.handler h (hhandler.symm.trans hh)).2

/-- What `recv` does. -/
theorem recv_cases {s s' : State} {c : Side} {pc : Pc} (h : recv s c pc = some s') :
    s.queue c ≠ [] ∧ s' = { s with
      buf := (s.queue c).take maxSize
      queue := Function.update s.queue c ((s.queue c).drop maxSize)
      pc := pc } := by
  unfold recv at h
  split at h
  · cases h
  · next hne => exact ⟨hne, (Option.some.inj h).symm⟩

theorem State.inFlight_of_sends {s : State} {c : Side} (h : s.pc.sends ≠ some c) :
    s.inFlight c = [] :=
  if_neg h

/-- A step that moves no data. -/
theorem State.Forwards.congr {s s' : State} (hf : s.Forwards)
    (hflight : ∀ c, s'.inFlight c = s.inFlight c) (hqueue : s'.queue = s.queue)
    (hreceived : s'.received = s.received) (hdelivered : s'.delivered = s.delivered)
    (hdropped : s'.dropped = s.dropped) : s'.Forwards := by
  intro c
  rw [hflight, hqueue, hreceived, hdelivered, hdropped]
  exact hf c

/-- `main` reads data of a connection. -/
theorem State.Forwards.recv {s s' : State} {c : Side} {pc : Pc} (hf : s.Forwards)
    (hidle : s.pc.sends = none) (hpc : pc.sends = some c) (h : Proxy.recv s c pc = some s') :
    s'.Forwards := by
  obtain ⟨-, rfl⟩ := recv_cases h
  intro a
  obtain ⟨hdrop, hback, heq⟩ := hf a
  refine ⟨hdrop, hback, ?_⟩
  rw [State.inFlight_of_sends (by rw [hidle]; exact (Option.some_ne_none a).symm),
    List.nil_append] at heq
  show s.delivered a a.peer ++ ((if pc.sends = some a then (s.queue c).take maxSize else []) ++
    Function.update s.queue c ((s.queue c).drop maxSize) a) = s.received a
  rw [hpc]
  by_cases ha : a = c
  · subst ha
    rw [if_pos rfl, Function.update_self, List.take_append_drop, heq]
  · rw [if_neg fun h => ha (Option.some.inj h).symm, Function.update_of_ne ha,
      List.nil_append, heq]

/-- A packet that the kernel redirects to the peer, when nothing of the connection waits for
`main`. -/
theorem State.Forwards.redirect {s : State} (hf : s.Forwards) (c : Side) (data : List UInt8)
    (hqueue : s.queue c = []) (hsends : s.pc.sends ≠ some c) :
    ({ s with received := Function.update s.received c (s.received c ++ data) }.send c c.peer
      data).Forwards := by
  intro a
  obtain ⟨hdrop, hback, heq⟩ := hf a
  refine ⟨hdrop, ?_, ?_⟩
  · show (if a = c ∧ a = c.peer then _ else s.delivered a a) = []
    rw [if_neg fun h => c.peer_ne (h.2.symm.trans h.1), hback]
  · show (if a = c ∧ a.peer = c.peer then s.delivered a a.peer ++ data
      else s.delivered a a.peer) ++ (s.inFlight a ++ s.queue a) = Function.update s.received c
      (s.received c ++ data) a
    by_cases ha : a = c
    · subst ha
      rw [State.inFlight_of_sends hsends, hqueue, List.append_nil, List.append_nil] at heq
      rw [if_pos ⟨rfl, rfl⟩, Function.update_self, State.inFlight_of_sends hsends, hqueue,
        List.append_nil, List.append_nil, heq]
    · rw [if_neg fun h => ha h.1, Function.update_of_ne ha]
      exact heq

/-- What a step can do. -/
theorem step_cases {v : Servers} {s s' : State} {e : Event} (h : step v s e = .ok s') :
    (∃ h', e = .run ∧ s.handler = some h' ∧ s' = hupStep s h') ∨
      (e = .run ∧ s.handler = none ∧ mainStep v s = some s') ∨
      (∃ c data, e = .arrive c data ∧ s' = arrive v s c data) ∨
      (e = .hup ∧ s.handler = none ∧ s' = hupBegin s) ∨
      e = .hupSelect ∧ s.handler = none ∧ s.pc = .select ∧
        s' = { hupBegin s with rset := fun _ => true, pc := .recv1 } := by
  cases e with
  | run =>
    unfold step at h
    dsimp only at h
    split at h
    · next h' hh => exact .inl ⟨h', rfl, hh, (Except.ok.inj h).symm⟩
    · next hh =>
      split at h
      · next s₁ hmain =>
          exact .inr (.inl ⟨rfl, hh, hmain.trans (congrArg some (Except.ok.inj h))⟩)
      · cases h
  | arrive c data => exact .inr (.inr (.inl ⟨c, data, rfl, (Except.ok.inj h).symm⟩))
  | hup =>
    unfold step at h
    dsimp only at h
    split at h
    · next hh => exact .inr (.inr (.inr (.inl ⟨rfl, hh, (Except.ok.inj h).symm⟩)))
    · cases h
  | hupSelect =>
    unfold step at h
    dsimp only at h
    split at h
    · next hh => exact .inr (.inr (.inr (.inr ⟨rfl, hh.1, hh.2.1, (Except.ok.inj h).symm⟩)))
    · cases h

/-- `recv` is called only where there is something to read. -/
def Ready (s : State) : Prop :=
  (s.pc = .recv1 → s.rset .one = true → s.queue .one ≠ []) ∧
    (s.pc = .recv1 ∨ s.pc = .send1 ∨ s.pc = .recv2 → s.rset .two = true → s.queue .two ≠ [])

/-- `main` is between `select` and the second `recv`. -/
def Pc.reads : Pc → Bool
  | .recv1 | .send1 | .recv2 => true
  | _ => false

theorem Ready.congr {s s' : State} (hr : Ready s) (hpc : s'.pc = s.pc)
    (hrset : s'.rset = s.rset) (hqueue : ∀ c, s.queue c ≠ [] → s'.queue c ≠ []) : Ready s' := by
  unfold Ready
  rw [hpc, hrset]
  exact ⟨fun h₁ h₂ => hqueue _ (hr.1 h₁ h₂), fun h₁ h₂ => hqueue _ (hr.2 h₁ h₂)⟩

/-- What can be seen of a state: whether `main` waits, and where the data of the connection `c`
is. -/
structure Seen where
  waits : Bool
  back : List UInt8
  across : List UInt8
  dropped : List UInt8
  received : List UInt8
deriving DecidableEq

def State.seen (s : State) (v : Servers) (c : Side) : Seen :=
  ⟨s.handler == none && (mainStep v s).isNone, s.delivered c c, s.delivered c c.peer,
    s.dropped c, s.received c⟩

end BpfExamples.Sockmap.Proxy
