import BpfExamples.Base.Maps
import BpfExamples.Base.Runs

/-!
# Redirection between local sockets (`sockmap_1/bpf_sockops.c`, `sockmap_1/bpf_redir.c`)

`bpf_sockmap` records every IPv4 socket whose connection is established in a hash, under a key
that it builds from the socket's own addresses. `bpf_redir` runs when such a socket sends, and
looks for the other end of the connection under a key that it builds from the sender's
addresses, seen from the other side.

The kernel around the two programs is a machine over `Net`: the live sockets of one network
namespace, whose 4-tuples differ, and the hash. It gives the programs the local port in host
order, and the remote port in network order in the upper half of a word (`opsOf`, `msgOf`).

- `redirect_iff`: in every run the two keys meet exactly for the two ends of one connection.
-/

namespace BpfExamples.Sockmap

/-! ## Words -/

/-- `bpf_htonl` on a little-endian machine: the bytes of a 32-bit word in reverse. -/
def bpfHtonl (x : Nat) : Nat :=
  x % 256 * 2 ^ 24 + x / 2 ^ 8 % 256 * 2 ^ 16 + x / 2 ^ 16 % 256 * 2 ^ 8 + x / 2 ^ 24 % 256

/-- A port number. -/
abbrev PortNo := Fin 65536

instance neZero_ports : NeZero 65536 := ⟨by decide⟩

/-- A port in network order. -/
def htons (p : PortNo) : Nat := p % 256 * 256 + p / 256

theorem htons_inj {p q : PortNo} (h : htons p = htons q) : p = q := by
  unfold htons at h
  have hhigh : (p : Nat) / 256 = q / 256 := by
    have hlow := congrArg (· % 256) h
    omega
  exact Fin.ext (by omega)

theorem bpfHtonl_port (p : PortNo) : bpfHtonl p >>> 16 = htons p := by
  rw [Nat.shiftRight_eq_div_pow]
  unfold bpfHtonl htons
  omega

theorem htons_upper (p : PortNo) : (htons p * 2 ^ 16) >>> 16 = htons p := by
  rw [Nat.shiftRight_eq_div_pow]
  omega

/-! ## The programs -/

/-- `struct sock_key` (bpf_sockops.c:9–18). -/
structure SockKey where
  sip4 : BitVec 32
  dip4 : BitVec 32
  family : Nat
  pad1 : Nat
  pad2 : Nat
  pad3 : Nat
  sport : Nat
  dport : Nat
deriving DecidableEq, Repr

/-- The fields of `struct bpf_sock_ops` that the program reads. -/
structure SockOps where
  op : Nat
  family : Nat
  remoteIp4 : BitVec 32
  localIp4 : BitVec 32
  remotePort : Nat
  localPort : Nat

/-- The fields of `struct sk_msg_md` that the program reads. -/
structure SkMsg where
  remoteIp4 : BitVec 32
  localIp4 : BitVec 32
  remotePort : Nat
  localPort : Nat

/-- `extract_key4_from_ops` (bpf_sockops.c:20–31), into a key of zeros. -/
def extractKey4FromOps (ops : SockOps) : SockKey where
  dip4 := ops.remoteIp4
  sip4 := ops.localIp4
  family := 1
  pad1 := 0
  pad2 := 0
  pad3 := 0
  sport := bpfHtonl ops.localPort >>> 16
  dport := ops.remotePort >>> 16

/-- `extract_key4_from_msg` (bpf_redir.c:32–41), into a key of zeros. -/
def extractKey4FromMsg (msg : SkMsg) : SockKey where
  sip4 := msg.remoteIp4
  dip4 := msg.localIp4
  family := 1
  pad1 := 0
  pad2 := 0
  pad3 := 0
  dport := bpfHtonl msg.localPort >>> 16
  sport := msg.remotePort >>> 16

/-- `max_entries` of `sock_ops_map` (bpf_sockops.c:5). -/
def maxEntries : Nat := 65535

/-- `AF_INET`. -/
def afInet : Nat := 2

/-- `BPF_SOCK_OPS_ACTIVE_ESTABLISHED_CB` and `BPF_SOCK_OPS_PASSIVE_ESTABLISHED_CB`. -/
def activeEstablishedCb : Nat := 4
@[inherit_doc activeEstablishedCb] def passiveEstablishedCb : Nat := 5

variable {ν : Type}

/-- `sock_hash_update` with `BPF_NOEXIST`: the result, and the hash afterwards. -/
def sockHashUpdate (m : Table SockKey ν) (key : SockKey) (sk : ν) : Int × Table SockKey ν :=
  if key ∈ m then (-17, m)
  else if m.size < maxEntries then (0, m.insert key sk)
  else (-7, m)

/-- `bpf_sock_ops_ipv4` (bpf_sockops.c:50–64), without its messages. -/
def bpfSockOpsIpv4 (m : Table SockKey ν) (sk : ν) (skops : SockOps) : Table SockKey ν :=
  (sockHashUpdate m (extractKey4FromOps skops) sk).2

/-- `bpf_sockmap` (bpf_sockops.c:33–47). -/
def bpfSockmap (m : Table SockKey ν) (sk : ν) (skops : SockOps) : Table SockKey ν :=
  if skops.op = passiveEstablishedCb ∨ skops.op = activeEstablishedCb then
    if skops.family = afInet then bpfSockOpsIpv4 m sk skops else m
  else m

/-- `bpf_redir` (bpf_redir.c:23–30): the socket the message is redirected to, if any. The
message passes either way. -/
def bpfRedir (m : Table SockKey ν) (msg : SkMsg) : Option ν := m.lookup (extractKey4FromMsg msg)

/-! ## The kernel around them -/

/-- A socket with an established connection. -/
structure Sock where
  id : Nat
  family : Nat
  localIp : BitVec 32
  localPort : PortNo
  remoteIp : BitVec 32
  remotePort : PortNo
deriving DecidableEq, Repr

/-- What the kernel tells the programs about a socket. -/
def opsOf (op : Nat) (s : Sock) : SockOps :=
  ⟨op, s.family, s.remoteIp, s.localIp, htons s.remotePort * 2 ^ 16, s.localPort⟩
@[inherit_doc opsOf] def msgOf (s : Sock) : SkMsg :=
  ⟨s.remoteIp, s.localIp, htons s.remotePort * 2 ^ 16, s.localPort⟩

/-- The same connection, seen from the same side. -/
def SameEnd (s t : Sock) : Prop :=
  s.localIp = t.localIp ∧ s.localPort = t.localPort ∧ s.remoteIp = t.remoteIp ∧
    s.remotePort = t.remotePort

/-- The same connection, seen from the other side. -/
def OtherEnd (s t : Sock) : Prop :=
  s.localIp = t.remoteIp ∧ s.localPort = t.remotePort ∧ s.remoteIp = t.localIp ∧
    s.remotePort = t.localPort

/-- One network namespace. -/
structure Net where
  live : List Sock
  hash : Table SockKey Sock
  /-- The sockets that the hash had no room for. -/
  missed : List Sock
  /-- The sockets whose establishment `bpf_sockmap` was told. -/
  told : List Sock

inductive Event
  /-- A connection is established at one of its ends. -/
  | connect (s : Sock)
  /-- `bpf_sockmap` is run for a live socket. -/
  | callback (s : Sock) (op : Nat)
  | close (s : Sock)

/-- The callback that reports an established IPv4 connection. -/
def Establishes (s : Sock) (op : Nat) : Prop :=
  (op = passiveEstablishedCb ∨ op = activeEstablishedCb) ∧ s.family = afInet

instance (s : Sock) (op : Nat) : Decidable (Establishes s op) :=
  inferInstanceAs (Decidable (_ ∧ _))

def Net.step (n : Net) : Event → Except Empty Net
  | .connect s => .ok { n with live := s :: n.live }
  | .callback s op => .ok
    { n with
      hash := bpfSockmap n.hash s (opsOf op s)
      told := if Establishes s op then s :: n.told else n.told
      missed := if Establishes s op ∧ ¬ n.hash.size < maxEntries then s :: n.missed
        else n.missed }
  | .close s => .ok
    { live := n.live.filter (· ≠ s)
      -- the kernel removes a closed socket from the hash
      hash := n.hash.keep fun _ t => t ≠ s
      told := n.told.filter (· ≠ s)
      missed := n.missed.filter (· ≠ s) }

/-- What the kernel sees to: live sockets differ, and no two IPv4 sockets have one 4-tuple. -/
def Net.Allowed (n : Net) : Event → Prop
  | .connect s => ∀ t ∈ n.live, t.id ≠ s.id ∧
    (t.family = afInet → s.family = afInet → ¬ SameEnd t s)
  | .callback s _ => s ∈ n.live
  | .close _ => True

/-- The states of all runs. -/
def Net.Reachable : Net → Prop := Reach (· = ⟨[], ∅, [], []⟩) Net.Allowed Net.step

/-! ## Keys -/

/-- The key of a socket's own side. -/
def ownKey (s : Sock) : SockKey :=
  ⟨s.localIp, s.remoteIp, 1, 0, 0, 0, htons s.localPort, htons s.remotePort⟩

theorem extractKey4FromOps_opsOf (op : Nat) (s : Sock) :
    extractKey4FromOps (opsOf op s) = ownKey s := by
  unfold extractKey4FromOps opsOf ownKey
  dsimp only
  rw [bpfHtonl_port, htons_upper]

theorem extractKey4FromMsg_msgOf (s : Sock) :
    extractKey4FromMsg (msgOf s) =
      ⟨s.remoteIp, s.localIp, 1, 0, 0, 0, htons s.remotePort, htons s.localPort⟩ := by
  unfold extractKey4FromMsg msgOf
  dsimp only
  rw [bpfHtonl_port, htons_upper]

theorem ownKey_inj {s t : Sock} : ownKey s = ownKey t ↔ SameEnd s t := by
  unfold ownKey SameEnd
  constructor
  · intro h
    injection h with h₁ h₂ _ _ _ _ h₃ h₄
    exact ⟨h₁, htons_inj h₃, h₂, htons_inj h₄⟩
  · rintro ⟨h₁, h₂, h₃, h₄⟩
    rw [h₁, h₂, h₃, h₄]

/-- **The two keys meet for the two ends of one connection**, and for no others. -/
theorem msgKey_eq_ownKey {s t : Sock} :
    extractKey4FromMsg (msgOf s) = ownKey t ↔ OtherEnd s t := by
  rw [extractKey4FromMsg_msgOf]
  unfold ownKey OtherEnd
  constructor
  · intro h
    injection h with h₁ h₂ _ _ _ _ h₃ h₄
    exact ⟨h₂, htons_inj h₄, h₁, htons_inj h₃⟩
  · rintro ⟨h₁, h₂, h₃, h₄⟩
    rw [h₁, h₂, h₃, h₄]

/-! ## Runs -/

/-- The hash holds live IPv4 sockets under their own keys, no two of which are the same; and
all of them that `bpf_sockmap` was told of while there was room. -/
structure NetInv (n : Net) : Prop where
  distinct : ∀ {s t}, s ∈ n.live → t ∈ n.live → s.family = afInet → t.family = afInet →
    SameEnd s t → s = t
  recorded : ∀ {key t}, n.hash.lookup key = some t → t ∈ n.live ∧ t.family = afInet ∧
    key = ownKey t
  told : ∀ {t}, t ∈ n.told → t ∈ n.live ∧ t.family = afInet ∧
    (t ∈ n.missed ∨ n.hash.lookup (ownKey t) = some t)

/-- `bpf_sockmap` for a socket: what it finds in the hash afterwards. -/
theorem lookup_bpfSockmap (m : Table SockKey Sock) (s : Sock) (op : Nat) (key : SockKey) :
    (bpfSockmap m s (opsOf op s)).lookup key =
      if Establishes s op ∧ ownKey s ∉ m ∧ m.size < maxEntries ∧ key = ownKey s then some s
        else m.lookup key := by
  have hcall : bpfSockmap m s (opsOf op s) =
      if Establishes s op then (sockHashUpdate m (ownKey s) s).2 else m := by
    unfold bpfSockmap bpfSockOpsIpv4
    rw [extractKey4FromOps_opsOf]
    show (if op = passiveEstablishedCb ∨ op = activeEstablishedCb then if s.family = afInet then
      _ else m else m) = _
    by_cases h₁ : op = passiveEstablishedCb ∨ op = activeEstablishedCb
    · by_cases h₂ : s.family = afInet
      · rw [if_pos h₁, if_pos h₂, if_pos ⟨h₁, h₂⟩]
      · rw [if_pos h₁, if_neg h₂, if_neg fun h => h₂ h.2]
    · rw [if_neg h₁, if_neg fun h => h₁ h.1]
  rw [hcall]
  by_cases he : Establishes s op
  · rw [if_pos he]
    unfold sockHashUpdate
    by_cases hmem : ownKey s ∈ m
    · rw [if_pos hmem, if_neg fun h => h.2.1 hmem]
    · rw [if_neg hmem]
      by_cases hroom : m.size < maxEntries
      · rw [if_pos hroom]
        show (m.insert (ownKey s) s).lookup key = _
        rw [Table.lookup_insert_eq]
        exact if_congr ⟨fun h => ⟨he, hmem, hroom, h⟩, fun h => h.2.2.2⟩ rfl rfl
      · rw [if_neg hroom, if_neg fun h => hroom h.2.2.1]
  · rw [if_neg he, if_neg fun h => he h.1]

theorem NetInv.connect {n : Net} (inv : NetInv n) {s : Sock} (h : n.Allowed (.connect s)) :
    NetInv { n with live := s :: n.live } := by
  refine ⟨fun {a b} ha hb h₁ h₂ hsame => ?_, fun hl => ?_, fun ht => ?_⟩
  · rcases List.mem_cons.mp ha with rfl | ha' <;> rcases List.mem_cons.mp hb with rfl | hb'
    · rfl
    · obtain ⟨e₁, e₂, e₃, e₄⟩ := hsame
      exact absurd ⟨e₁.symm, e₂.symm, e₃.symm, e₄.symm⟩ ((h b hb').2 h₂ h₁)
    · exact absurd hsame ((h a ha').2 h₁ h₂)
    · exact inv.distinct ha' hb' h₁ h₂ hsame
  · obtain ⟨hlive, hrest⟩ := inv.recorded hl
    exact ⟨List.mem_cons_of_mem _ hlive, hrest⟩
  · obtain ⟨hlive, hrest⟩ := inv.told ht
    exact ⟨List.mem_cons_of_mem _ hlive, hrest⟩

/-- After a callback that reports it, a socket is in the hash, unless that is full. -/
theorem NetInv.lookup_told {n : Net} (inv : NetInv n) {s : Sock} {op : Nat} (hs : s ∈ n.live)
    (he : Establishes s op) (hroom : n.hash.size < maxEntries) :
    (bpfSockmap n.hash s (opsOf op s)).lookup (ownKey s) = some s := by
  rw [lookup_bpfSockmap]
  by_cases hmem : ownKey s ∈ n.hash
  · -- the key is taken, so it is taken by the socket itself
    obtain ⟨t, ht⟩ := Table.mem_iff_lookup.mp hmem
    obtain ⟨hlive, h4, hkey⟩ := inv.recorded ht
    rw [if_neg fun h => h.2.1 hmem, ht, inv.distinct hs hlive he.2 h4 (ownKey_inj.mp hkey)]
  · rw [if_pos ⟨he, hmem, hroom, rfl⟩]

theorem NetInv.callback {n : Net} (inv : NetInv n) {s : Sock} (op : Nat) (hs : s ∈ n.live) :
    NetInv { n with
      hash := bpfSockmap n.hash s (opsOf op s)
      told := if Establishes s op then s :: n.told else n.told
      missed := if Establishes s op ∧ ¬ n.hash.size < maxEntries then s :: n.missed
        else n.missed } := by
  refine ⟨inv.distinct, fun {key t} hl => ?_, fun {t} ht => ?_⟩
  · replace hl : (bpfSockmap n.hash s (opsOf op s)).lookup key = some t := hl
    rw [lookup_bpfSockmap] at hl
    split at hl
    · next h =>
      obtain rfl := Option.some.inj hl
      exact ⟨hs, h.1.2, h.2.2.2⟩
    · exact inv.recorded hl
  · -- sockets that were told before, and the one of this callback
    have hold : t ∈ n.told → t ∈ n.live ∧ t.family = afInet ∧
        (t ∈ (if Establishes s op ∧ ¬ n.hash.size < maxEntries then s :: n.missed
          else n.missed) ∨ (bpfSockmap n.hash s (opsOf op s)).lookup (ownKey t) = some t) := by
      intro ht
      obtain ⟨hlive, h4, hwhere⟩ := inv.told ht
      refine ⟨hlive, h4, hwhere.imp (fun hm => ?_) fun hl => ?_⟩
      · split
        · exact List.mem_cons_of_mem _ hm
        · exact hm
      · rw [lookup_bpfSockmap, if_neg, hl]
        rintro ⟨-, hnot, -, hkey⟩
        exact hnot (hkey ▸ Table.mem_iff_lookup.mpr ⟨t, hl⟩)
    by_cases he : Establishes s op
    · replace ht : t ∈ s :: n.told := by rwa [if_pos he] at ht
      rcases List.mem_cons.mp ht with rfl | ht
      · refine ⟨hs, he.2, ?_⟩
        by_cases hroom : n.hash.size < maxEntries
        · exact .inr (inv.lookup_told hs he hroom)
        · refine .inl ?_
          rw [if_pos ⟨he, hroom⟩]
          exact List.mem_cons_self
      · exact hold ht
    · exact hold (by rwa [if_neg he] at ht)

theorem NetInv.close {n : Net} (inv : NetInv n) (s : Sock) :
    NetInv ⟨n.live.filter (· ≠ s), n.hash.keep fun _ t => t ≠ s, n.missed.filter (· ≠ s),
      n.told.filter (· ≠ s)⟩ := by
  have hkept : ∀ {l : List Sock} {t : Sock}, t ∈ l.filter (· ≠ s) ↔ t ∈ l ∧ t ≠ s := by
    intro l t
    rw [List.mem_filter, decide_eq_true_iff]
  refine ⟨fun {a b} ha hb => inv.distinct (hkept.mp ha).1 (hkept.mp hb).1, fun {key t} hl => ?_,
    fun {t} ht => ?_⟩
  · replace hl : (n.hash.keep fun _ t => t ≠ s).lookup key = some t := hl
    rw [Table.lookup_keep, Option.filter_eq_some_iff, decide_eq_true_iff] at hl
    obtain ⟨hlive, hrest⟩ := inv.recorded hl.1
    exact ⟨hkept.mpr ⟨hlive, hl.2⟩, hrest⟩
  · obtain ⟨htold, hne⟩ := hkept.mp ht
    obtain ⟨hlive, h4, hwhere⟩ := inv.told htold
    refine ⟨hkept.mpr ⟨hlive, hne⟩, h4, hwhere.imp (fun hm => hkept.mpr ⟨hm, hne⟩) fun hl => ?_⟩
    rw [Table.lookup_keep, hl, Option.filter_some, if_pos (decide_eq_true hne)]

theorem netInv_step {n n' : Net} {e : Event} (inv : NetInv n) (ha : n.Allowed e)
    (hs : n.step e = .ok n') : NetInv n' := by
  cases e with
  | connect s =>
    cases hs
    exact inv.connect ha
  | callback s op =>
    cases hs
    exact inv.callback op ha
  | close s =>
    cases hs
    exact inv.close s

theorem Net.Reachable.inv {n : Net} (h : n.Reachable) : NetInv n :=
  Reach.inv (I := NetInv)
    (fun n hn => by
      subst hn
      exact ⟨fun h => absurd h List.not_mem_nil, nofun, fun h => absurd h List.not_mem_nil⟩)
    (fun _ _ _ inv ha hs => netInv_step inv ha hs) h

/-! ## Redirection -/

/-- **Redirection finds the peer and only the peer.** In every run, for every IPv4 socket that
sends: the key of its message is the key that another socket is recorded under exactly when that
socket is the other end of the connection. So the message goes to the other end if that is
recorded, which it is once `bpf_sockmap` was told of it, unless there was no room. -/
theorem redirect_iff (n : Net) (hn : n.Reachable) (s : Sock) (_ : s ∈ n.live)
    (_ : s.family = afInet) :
    (∀ key t, n.hash.lookup key = some t →
      (extractKey4FromMsg (msgOf s) = key ↔ OtherEnd s t)) ∧
      (∀ t, bpfRedir n.hash (msgOf s) = some t ↔ (∃ key, n.hash.lookup key = some t) ∧
        OtherEnd s t) ∧
      ∀ t ∈ n.told, t ∉ n.missed → OtherEnd s t → bpfRedir n.hash (msgOf s) = some t := by
  have inv := hn.inv
  have hmeet : ∀ key t, n.hash.lookup key = some t →
      (extractKey4FromMsg (msgOf s) = key ↔ OtherEnd s t) := by
    intro key t hl
    obtain ⟨-, -, rfl⟩ := inv.recorded hl
    exact msgKey_eq_ownKey
  refine ⟨hmeet, fun t => ⟨fun hl => ?_, ?_⟩, fun t ht hroom hother => ?_⟩
  · exact ⟨⟨_, hl⟩, (hmeet _ t hl).mp rfl⟩
  · rintro ⟨⟨key, hl⟩, hother⟩
    rwa [bpfRedir, (hmeet key t hl).mpr hother]
  · obtain ⟨-, -, hwhere⟩ := inv.told ht
    rw [bpfRedir, msgKey_eq_ownKey.mpr hother]
    exact hwhere.resolve_left hroom

/-- The two ends of a connection over the loopback interface. -/
def client : Sock := ⟨1, afInet, 0x0100007f, 50932, 0x0100007f, 1001⟩
@[inherit_doc client] def server : Sock := ⟨2, afInet, 0x0100007f, 1001, 0x0100007f, 50932⟩

/-- Both ends are established, and `bpf_sockmap` was told of them. -/
def connected : Net :=
  ⟨[server, client], (((∅ : Table SockKey Sock).insert (ownKey client) client).insert
    (ownKey server) server), [], [server, client]⟩

theorem connected_reachable : connected.Reachable := by
  refine .step (i := .callback server passiveEstablishedCb)
    (.step (i := .connect server) (.step (i := .callback client activeEstablishedCb)
    (.step (i := .connect client) (.start rfl) ?_ rfl) ?_ rfl) ?_ rfl) ?_ rfl
  · exact fun t ht => absurd ht List.not_mem_nil
  · exact List.mem_cons_self
  · intro t ht
    rw [List.mem_singleton.mp ht]
    refine ⟨by decide, fun _ _ h => absurd h.2.1 (by decide)⟩
  · exact List.mem_cons_self

/-- What the client sends goes to the server. -/
theorem redirect_client :
    connected.Reachable ∧ bpfRedir connected.hash (msgOf client) = some server := by
  refine ⟨connected_reachable, ?_⟩
  exact (redirect_iff connected connected_reachable client (by decide) rfl).2.2 server
    (by decide) (by decide) ⟨rfl, rfl, rfl, rfl⟩

end BpfExamples.Sockmap
