import BpfExamples.Base.Runs
import BpfExamples.Http.Userspace

/-!
# How long a block lasts

Userspace blocks a connection by the leaf `⟨2, 0⟩`. From then on `xdp_prog1` is to drop the
first eleven packets of the connection and to pass the others. A run starts with an empty map
and has frames at both programs, calls of `cleanup`, and userspace blocking connections and
deleting keys. It carries along when each entry was stored (`born`), since when the connection
in question is blocked and how many of its packets came (`block`), and what `cleanup` has
removed (`removed`).

`cleanup` takes the state of a leaf for a time in seconds, so to it the leaf is as old as the
epoch. Every leaf is in the state 1 or 2 (`BlockInv.state`), so a call of `cleanup` empties the
map; a block lasts in the runs in which it is only called when all the entries are old
(`Timely`).
-/

namespace BpfExamples.Http

/-! ## Runs -/

structure BlockRun where
  sessions : Sessions
  /-- When the entry of a key was stored. -/
  born : Key → Int
  clock : Int
  /-- When the connection was blocked, and how many of its packets `xdp_prog1` has seen
  since. -/
  block : Option (Int × Nat)
  /-- The keys that `cleanup` has removed, and the ages of their entries. -/
  removed : List (Key × Int)

inductive BlockEvent
  | xdp (f : Frame)
  | filter (f : Frame)
  | cleanup
  /-- Userspace blocks a connection. -/
  | mark (k : Key)
  | delete (k : Key)
deriving DecidableEq

/-- The map after an event at time `t`. -/
def BlockEvent.apply (bcc : Bcc) (t : Int) (m : Sessions) : BlockEvent → Sessions
  | .xdp f => (xdpProg1 m f).2
  | .filter f => (httpFilter bcc m f).2
  | .cleanup => Http.cleanup t m
  | .mark k => (m.put sessionsSize k ⟨2, 0⟩).getD m
  | .delete k => m.erase k

/-- Whether an event that leads from the map `m` to `m'` stores the entry of `k` anew. -/
def BlockEvent.stores (m m' : Sessions) (k : Key) : BlockEvent → Bool
  | .filter _ => decide (k ∉ m) && decide (k ∈ m')
  | .mark k' => decide (k = k') && m.hasRoom sessionsSize k
  | _ => false

/-- The block of the connection `key` after an event. -/
def BlockEvent.block (key : Key) (t : Int) (m : Sessions) (b : Option (Int × Nat)) :
    BlockEvent → Option (Int × Nat)
  | .xdp f => if xdpKey f = some key then b.map fun b => (b.1, b.2 + 1) else b
  | .mark k => if k = key ∧ m.hasRoom sessionsSize k = true then some (t, 0) else b
  | .delete k => if k = key then none else b
  | _ => b

/-- An event at time `t`, in a run about the connection `key`. -/
def BlockRun.step (bcc : Bcc) (key : Key) (s : BlockRun) (e : Int × BlockEvent) :
    Except Empty BlockRun :=
  let m := e.2.apply bcc e.1 s.sessions
  .ok {
    sessions := m
    born := fun k => if e.2.stores s.sessions m k then e.1 else s.born k
    clock := e.1
    block := e.2.block key e.1 s.sessions s.block
    removed := match e.2 with
      | .cleanup =>
        (s.sessions.keys.filter (· ∉ m)).map (fun k => (k, e.1 - s.born k)) ++ s.removed
      | _ => s.removed }

/-- Nothing has happened yet. -/
def BlockRun.Start (s : BlockRun) : Prop := s.sessions = ∅ ∧ s.block = none ∧ s.removed = []

/-- Time goes on. -/
def BlockRun.Allowed (s : BlockRun) (e : Int × BlockEvent) : Prop := s.clock ≤ e.1

/-- When `cleanup` is called, the map has no entry in the state 1 or 2 that was stored in the
last 30 seconds. -/
def BlockRun.Timely (s : BlockRun) (e : Int × BlockEvent) : Prop :=
  e.2 = .cleanup → ∀ k ∈ s.sessions.keys, ∀ leaf ∈ s.sessions.lookup k,
    leaf.timestamp = 1 ∨ leaf.timestamp = 2 → e.1 - s.born k > maxAgeSeconds

instance BlockRun.decidableAllowed (s : BlockRun) (e : Int × BlockEvent) :
    Decidable (s.Allowed e) :=
  inferInstanceAs (Decidable (_ ≤ _))

instance BlockRun.decidableTimely (s : BlockRun) (e : Int × BlockEvent) :
    Decidable (s.Timely e) :=
  inferInstanceAs (Decidable (_ → _))

/-- The states of all runs, and of those in which `cleanup` comes in time. -/
def BlockRun.Reachable (bcc : Bcc) (key : Key) : BlockRun → Prop :=
  Reach BlockRun.Start BlockRun.Allowed (BlockRun.step bcc key)
@[inherit_doc BlockRun.Reachable]
def BlockRun.InTime (bcc : Bcc) (key : Key) : BlockRun → Prop :=
  Reach BlockRun.Start (fun s e => s.Allowed e ∧ s.Timely e) (BlockRun.step bcc key)

/-! ## The leaf of the connection -/

variable {bcc : Bcc} {m : Sessions} {s s' : BlockRun} {key k : Key} {t t₀ : Int} {f : Frame}
  {leaf : Leaf} {n : Nat}

/-- The leaf after `n` packets of the connection. -/
def blockLeaf (n : Nat) : Leaf := ⟨2, (min n 11 : Nat)⟩

/-- **A packet of the connection** is dropped if it is one of the first eleven, and counted. -/
theorem xdpProg1_block (h : m.lookup key = some (blockLeaf n)) (hf : xdpKey f = some key) :
    (xdpProg1 m f).1 = (if n < 11 then .drop else .pass) ∧
      (xdpProg1 m f).2.lookup key = some (blockLeaf (n + 1)) := by
  have hdrops : XdpDrops m f key (blockLeaf n) ↔ n < 11 := by
    refine ⟨fun hd => ?_, fun hn => ⟨hf, h, rfl, ?_⟩⟩
    · have htimes : ((min n 11 : Nat) : Int) ≤ 10 := hd.2.2.2
      omega
    · show ((min n 11 : Nat) : Int) ≤ 10
      omega
  rcases xdpProg1_cases m f with ⟨key', leaf, hd, heq⟩ | ⟨hnot, heq⟩
  · obtain rfl : key' = key := Option.some.inj (hd.1.symm.trans hf)
    obtain rfl : leaf = blockLeaf n := Option.some.inj (hd.2.1.symm.trans h)
    have hn := hdrops.mp hd
    rw [heq, if_pos hn]
    refine ⟨rfl, ?_⟩
    show (m.insert key' ⟨2, (min n 11 : Nat) + 1⟩).lookup key' = _
    rw [Table.lookup_insert_eq, if_pos rfl, blockLeaf]
    refine congrArg some (congrArg (Leaf.mk 2) ?_)
    omega
  · have hn : ¬ n < 11 := fun hn => hnot key _ (hdrops.mpr hn)
    rw [heq, if_neg hn]
    refine ⟨rfl, h.trans (congrArg some (congrArg (Leaf.mk 2) ?_))⟩
    omega

/-- A packet of another connection leaves the leaf alone. -/
theorem xdpProg1_other (hf : xdpKey f ≠ some key) :
    (xdpProg1 m f).2.lookup key = m.lookup key := by
  rcases xdpProg1_cases m f with ⟨key', leaf, hd, heq⟩ | ⟨-, heq⟩
  · have hne : key ≠ key' := fun h => hf (h ▸ hd.1)
    rw [heq, Table.lookup_insert_eq, if_neg hne]
  · rw [heq]

/-- A packet does not change the state of a connection. -/
theorem xdpProg1_timestamp (h : (xdpProg1 m f).2.lookup k = some leaf) :
    ∃ leaf', m.lookup k = some leaf' ∧ leaf'.timestamp = leaf.timestamp := by
  rcases xdpProg1_cases m f with ⟨key, leaf', hd, heq⟩ | ⟨-, heq⟩
  · rw [heq, Table.lookup_insert_eq] at h
    split at h
    · next hk =>
      obtain rfl := Option.some.inj h
      exact ⟨leaf', hk ▸ hd.2.1, rfl⟩
    · exact ⟨leaf, h, rfl⟩
  · rw [heq] at h
    exact ⟨leaf, h, rfl⟩

/-- A connection that is not in state 2 is not touched. -/
theorem xdpProg1_pass
    (h : ∀ leaf, xdpKey f = some k → m.lookup k = some leaf → leaf.timestamp ≠ 2)
    (hf : xdpKey f = some k) : (xdpProg1 m f).1 = .pass := by
  rcases xdpProg1_cases m f with ⟨key', leaf, ⟨hk, hl, htwo, -⟩, -⟩ | ⟨-, heq⟩
  · obtain rfl : key' = k := Option.some.inj (hk.symm.trans hf)
    exact absurd htwo (h leaf hf hl)
  · rw [heq]

/-! ## The block -/

structure BlockInv (key : Key) (s : BlockRun) : Prop where
  /-- Nobody stores a time. -/
  state : ∀ k leaf, s.sessions.lookup k = some leaf → leaf.timestamp = 1 ∨ leaf.timestamp = 2
  /-- For 30 seconds the leaf counts the packets. -/
  leaf : ∀ t₀ n, s.block = some (t₀, n) → s.clock ≤ t₀ + maxAgeSeconds →
    s.sessions.lookup key = some (blockLeaf n) ∧ s.born key = t₀
  old : ∀ k age, (k, age) ∈ s.removed → age > maxAgeSeconds

theorem blockInv_start (h : s.Start) : BlockInv key s := by
  obtain ⟨hm, hb, hr⟩ := h
  refine ⟨fun k leaf hl => ?_, fun t₀ n hblock => ?_, fun k age hk => ?_⟩
  · rw [hm] at hl
    cases hl
  · rw [hb] at hblock
    cases hblock
  · rw [hr] at hk
    cases hk

/-- `cleanup` removes what is in the state 1 or 2, if it is called late enough. -/
theorem aged_of_state (h : leaf.timestamp = 1 ∨ leaf.timestamp = 2) :
    aged t leaf = none ∨ aged t leaf = some leaf := by
  have h₀ : leaf.timestamp ≠ 0 := by omega
  by_cases h₁ : t - leaf.timestamp > maxAgeSeconds
  · exact .inl (aged_old h₀ h₁)
  · exact .inr (aged_young h₀ h₁)

theorem lookup_mark (m : Sessions) (k k' : Key) :
    ((m.put sessionsSize k ⟨2, 0⟩).getD m).lookup k' =
      if k' = k ∧ m.hasRoom sessionsSize k = true then some ⟨2, 0⟩ else m.lookup k' := by
  unfold Table.put
  by_cases hroom : m.hasRoom sessionsSize k = true
  · rw [if_pos hroom, Option.getD_some, Table.lookup_insert_eq]
    exact if_congr (and_iff_left hroom).symm rfl rfl
  · rw [if_neg hroom, Option.getD_none, if_neg fun h => hroom h.2]

/-- **The states** that a leaf can be in. -/
theorem BlockInv.state_step (inv : BlockInv key s) (e : BlockEvent)
    (h : (e.apply bcc t s.sessions).lookup k = some leaf) :
    leaf.timestamp = 1 ∨ leaf.timestamp = 2 := by
  cases e with
  | xdp f =>
    obtain ⟨leaf', hl, hsame⟩ := xdpProg1_timestamp h
    rw [← hsame]
    exact inv.state k leaf' hl
  | filter f =>
    have hl : (httpFilter bcc s.sessions f).2.lookup k = some leaf := h
    rw [lookup_httpFilter] at hl
    split at hl
    · obtain rfl := Option.some.inj hl
      exact .inl rfl
    · exact inv.state k leaf hl
  | cleanup =>
    have hl : (cleanup t s.sessions).lookup k = some leaf := h
    rw [lookup_cleanup] at hl
    obtain ⟨leaf', hl', haged⟩ := Option.bind_eq_some_iff.mp hl
    rcases aged_of_state (t := t) (inv.state k leaf' hl') with hnone | hsome
    · rw [hnone] at haged
      cases haged
    · rw [hsome] at haged
      obtain rfl := Option.some.inj haged
      exact inv.state k leaf' hl'
  | mark k' =>
    have hl : ((s.sessions.put sessionsSize k' ⟨2, 0⟩).getD s.sessions).lookup k = some leaf :=
      h
    rw [lookup_mark] at hl
    split at hl
    · obtain rfl := Option.some.inj hl
      exact .inr rfl
    · exact inv.state k leaf hl
  | delete k' =>
    have hl : (s.sessions.erase k').lookup k = some leaf := h
    rw [Table.lookup_erase_eq] at hl
    split at hl
    · cases hl
    · exact inv.state k leaf hl

/-- **No event touches the leaf** in the 30 seconds, except the packets that it counts. -/
theorem BlockInv.leaf_step {e : Int × BlockEvent} (inv : BlockInv key s) (hnow : s.Allowed e)
    (htimely : s.Timely e) (hstep : s.step bcc key e = .ok s')
    (hblock : s'.block = some (t₀, n)) (hclock : s'.clock ≤ t₀ + maxAgeSeconds) :
    s'.sessions.lookup key = some (blockLeaf n) ∧ s'.born key = t₀ := by
  obtain ⟨t, e⟩ := e
  have hbefore : s.clock ≤ t := hnow
  cases hstep
  have hlate : t ≤ t₀ + maxAgeSeconds := hclock
  cases e with
  | xdp f =>
    have hb : (if xdpKey f = some key then s.block.map fun b => (b.1, b.2 + 1) else s.block) =
      some (t₀, n) := hblock
    show (xdpProg1 s.sessions f).2.lookup key = some (blockLeaf n) ∧ s.born key = t₀
    by_cases hf : xdpKey f = some key
    · rw [if_pos hf] at hb
      obtain ⟨⟨t₁, n₁⟩, hb₁, heq⟩ := Option.map_eq_some_iff.mp hb
      cases heq
      obtain ⟨hleaf, hborn⟩ := inv.leaf _ n₁ hb₁ (by omega)
      exact ⟨(xdpProg1_block hleaf hf).2, hborn⟩
    · rw [if_neg hf] at hb
      rw [xdpProg1_other hf]
      exact inv.leaf t₀ n hb (by omega)
  | filter f =>
    obtain ⟨hleaf, hborn⟩ := inv.leaf t₀ n hblock (by omega)
    have hmem : key ∈ s.sessions := Table.mem_iff_lookup.mpr ⟨_, hleaf⟩
    refine ⟨lookup_httpFilter_of_some hleaf f, ?_⟩
    show (if (decide (key ∉ s.sessions) && _) = true then t else s.born key) = t₀
    rw [decide_eq_false (not_not.mpr hmem)]
    exact hborn
  | cleanup =>
    -- the leaf would have to be older than it is
    obtain ⟨hleaf, hborn⟩ := inv.leaf t₀ n hblock (by omega)
    have hmem : key ∈ s.sessions := Table.mem_iff_lookup.mpr ⟨_, hleaf⟩
    have hage := htimely rfl key (AList.mem_keys.mp hmem) _ hleaf (.inr rfl)
    rw [hborn] at hage
    dsimp only at hage
    omega
  | mark k =>
    have hb : (if k = key ∧ s.sessions.hasRoom sessionsSize k = true then some (t, 0)
      else s.block) = some (t₀, n) := hblock
    show ((s.sessions.put sessionsSize k ⟨2, 0⟩).getD s.sessions).lookup key =
        some (blockLeaf n) ∧
      (if (decide (key = k) && s.sessions.hasRoom sessionsSize key) = true then t
        else s.born key) = t₀
    rw [lookup_mark]
    by_cases hk : k = key ∧ s.sessions.hasRoom sessionsSize k = true
    · rw [if_pos hk] at hb
      cases hb
      obtain ⟨rfl, hroom⟩ := hk
      rw [if_pos ⟨rfl, hroom⟩, if_pos (by rw [decide_eq_true rfl, hroom]; rfl)]
      exact ⟨rfl, rfl⟩
    · rw [if_neg hk] at hb
      have hk' : ¬ (key = k ∧ s.sessions.hasRoom sessionsSize k = true) :=
        fun h => hk ⟨h.1.symm, h.2⟩
      rw [if_neg hk', if_neg]
      · exact inv.leaf t₀ n hb (by omega)
      · intro h
        obtain ⟨h₁, h₂⟩ := Bool.and_eq_true_iff.mp h
        obtain rfl := of_decide_eq_true h₁
        exact hk ⟨rfl, h₂⟩
  | delete k =>
    have hb : (if k = key then none else s.block) = some (t₀, n) := hblock
    show (s.sessions.erase k).lookup key = some (blockLeaf n) ∧ s.born key = t₀
    by_cases hk : k = key
    · rw [if_pos hk] at hb
      cases hb
    · rw [if_neg hk] at hb
      rw [Table.lookup_erase_eq, if_neg (Ne.symm hk)]
      exact inv.leaf t₀ n hb (by omega)

/-- **What `cleanup` removes** is old. -/
theorem BlockInv.old_step {e : Int × BlockEvent} {age : Int} (inv : BlockInv key s)
    (htimely : s.Timely e) (hstep : s.step bcc key e = .ok s') (h : (k, age) ∈ s'.removed) :
    age > maxAgeSeconds := by
  obtain ⟨t, e⟩ := e
  cases hstep
  cases e with
  | cleanup =>
    rcases List.mem_append.mp h with h | h
    · obtain ⟨k', hk', heq⟩ := List.mem_map.mp h
      cases heq
      obtain ⟨leaf, hl⟩ :=
        Table.mem_iff_lookup.mp (AList.mem_keys.mpr (List.mem_filter.mp hk').1)
      exact htimely rfl k (List.mem_filter.mp hk').1 leaf hl (inv.state k leaf hl)
    · exact inv.old k age h
  | xdp f => exact inv.old k age h
  | filter f => exact inv.old k age h
  | mark k' => exact inv.old k age h
  | delete k' => exact inv.old k age h

theorem BlockRun.InTime.inv (h : s.InTime bcc key) : BlockInv key s := by
  refine Reach.inv (I := BlockInv key) (fun _ => blockInv_start)
    (fun s e s' inv he hstep => ?_) h
  refine ⟨fun k leaf hl => ?_, fun t₀ n hb hc => inv.leaf_step he.1 he.2 hstep hb hc,
    fun k age hk => inv.old_step he.2 hstep hk⟩
  cases hstep
  exact inv.state_step e.2 hl

/-- What is promised of the blocks of a connection, in a state of a run. -/
structure BlockHolds (key : Key) (s : BlockRun) : Prop where
  /-- In the 30 seconds after a block the first eleven packets of the connection are dropped,
  and the others pass. -/
  drops : ∀ t₀ n, s.block = some (t₀, n) → s.clock ≤ t₀ + maxAgeSeconds →
    ∀ f, xdpKey f = some key →
    (xdpProg1 s.sessions f).1 = if n < 11 then .drop else .pass
  /-- A packet whose key is not in state 2 passes. -/
  only : ∀ f k, xdpKey f = some k →
    (∀ leaf, s.sessions.lookup k = some leaf → leaf.timestamp ≠ 2) →
    (xdpProg1 s.sessions f).1 = .pass
  /-- What `cleanup` has removed was old. -/
  cleans : ∀ k age, (k, age) ∈ s.removed → age > maxAgeSeconds

/-- **A block lasts for its full budget** in every run in which `cleanup` comes in time. -/
theorem block_holds (bcc : Bcc) (key : Key) (s : BlockRun) (h : s.InTime bcc key) :
    BlockHolds key s := by
  have inv := h.inv
  refine ⟨fun t₀ n hb hc f hf => ?_, fun f k hf hk => ?_, inv.old⟩
  · exact (xdpProg1_block (inv.leaf t₀ n hb hc).1 hf).1
  · exact xdpProg1_pass (fun leaf _ => hk leaf) hf

/-- The connection from port 80 of 100.100.100.200 to port 40000 of 10.0.0.1. -/
def blockedKey : Key := ⟨0x646464c8, 0x0a000001, 80, 40000⟩

/-- A packet of it, with some payload. -/
def blockedFrame (payload : List UInt8) : Frame :=
  [0, 0, 0, 0, 0, 0, 0, 0, 0, 0, 0, 0, 8, 0] ++
  [0x45, 0, 0, 40 + UInt8.ofNat payload.length, 0, 0, 0, 0, 64, 6, 0, 0, 100, 100, 100, 200,
    10, 0, 0, 1] ++
  [0, 80, 0x9c, 0x40, 0, 0, 0, 0, 0, 0, 0, 0, 0x50, 0x10, 0, 0, 0, 0, 0, 0] ++ payload

/-- An empty map, at second 900. -/
def BlockRun.early : BlockRun := ⟨∅, fun _ => 0, 900, none, []⟩

theorem BlockRun.early_start : BlockRun.early.Start := ⟨rfl, rfl, rfl⟩

/-- An answer on the connection goes through the filter, which is then blocked and gets a
packet; `cleanup` comes after 31 seconds; and it is blocked once more and gets ten packets. -/
def blockedTwice : List (Int × BlockEvent) :=
  [(999, .filter (blockedFrame [72, 84, 84, 80, 47, 49, 46, 49])), (1000, .mark blockedKey),
    (1001, .xdp (blockedFrame [])), (1031, .cleanup), (1040, .mark blockedKey)] ++
  List.replicate 10 (1041, .xdp (blockedFrame []))

/-- The eleventh packet of the second block is dropped, and the twelfth passes. -/
theorem block_holds_twice :
    ∃ s s' : BlockRun, s.InTime .plain blockedKey ∧ s.block = some (1040, 10) ∧
      s.removed = [(blockedKey, 31)] ∧ (xdpProg1 s.sessions (blockedFrame [])).1 = .drop ∧
      s.step .plain blockedKey (1042, .xdp (blockedFrame [])) = .ok s' ∧
      (xdpProg1 s'.sessions (blockedFrame [])).1 = .pass := by
  have hrun : (runAlong (fun s e => s.Allowed e ∧ s.Timely e) (BlockRun.step .plain blockedKey)
      BlockRun.early blockedTwice).map (fun s => (s.block, s.removed, s.clock)) =
      some (some (1040, 10), [(blockedKey, 31)], 1041) := by decide +kernel
  obtain ⟨s, hs, hend⟩ := Option.map_eq_some_iff.mp hrun
  obtain ⟨hblock, hrest⟩ := Prod.mk.inj hend
  obtain ⟨hremoved, hclock⟩ := Prod.mk.inj hrest
  have hreach : s.InTime .plain blockedKey := .of_runAlong (.start BlockRun.early_start) hs
  have hkey : xdpKey (blockedFrame []) = some blockedKey := by decide +kernel
  have hallowed : s.Allowed (1042, .xdp (blockedFrame [])) := by
    rw [BlockRun.Allowed, hclock]
    decide
  have htimely : s.Timely (1042, .xdp (blockedFrame [])) := fun h => BlockEvent.noConfusion h
  have hnext := Reach.step hreach ⟨hallowed, htimely⟩ (rfl : s.step .plain blockedKey _ = .ok _)
  have hlate : (1042 : Int) ≤ 1040 + maxAgeSeconds := by decide
  refine ⟨s, _, hreach, hblock, hremoved, ?_, rfl, ?_⟩
  · rw [(block_holds .plain blockedKey s hreach).drops 1040 10 hblock
      (by rw [hclock]; decide) _ hkey]
    rfl
  · refine (block_holds .plain blockedKey _ hnext).drops 1040 11 ?_ hlate _ hkey
    show (if xdpKey (blockedFrame []) = some blockedKey then s.block.map fun b => (b.1, b.2 + 1)
      else s.block) = _
    rw [if_pos hkey, hblock]
    rfl

/-- **A block that `cleanup` ends after one second**, before a packet was dropped. -/
theorem block_cleaned :
    ∃ s : BlockRun, s.Reachable .plain blockedKey ∧ s.block = some (1000, 0) ∧ s.clock = 1001 ∧
      blockedKey ∉ s.sessions ∧ ¬ BlockHolds blockedKey s := by
  have hrun : (runAlong BlockRun.Allowed (BlockRun.step .plain blockedKey) BlockRun.early
      [(1000, .mark blockedKey), (1001, .cleanup)]).map (fun s => (s.block, s.clock,
        decide (blockedKey ∉ s.sessions), (xdpProg1 s.sessions (blockedFrame [])).1)) =
      some (some (1000, 0), 1001, true, .pass) := by decide +kernel
  obtain ⟨s, hs, hend⟩ := Option.map_eq_some_iff.mp hrun
  simp only [Prod.mk.injEq] at hend
  obtain ⟨hblock, hclock, hgone, hpass⟩ := hend
  refine ⟨s, .of_runAlong (.start BlockRun.early_start) hs, hblock, hclock,
    of_decide_eq_true hgone, fun hholds => ?_⟩
  have hdrop := hholds.drops 1000 0 hblock (by rw [hclock]; decide) (blockedFrame [])
    (by decide +kernel)
  rw [hpass] at hdrop
  cases hdrop

end BpfExamples.Http
