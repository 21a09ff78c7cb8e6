import BpfExamples.Kvm.KmallocLimits

/-!
# The runs of the allocator on the machine

The runs of `KmallocRuns`, under the mappings that the kernel boots with. There the null pointer
is an address like any other: it reaches the start of physical memory, up to 2 MB. An arena that
lies behind these 2 MB and in the window is served as in `flat`, with one difference: a request
of more than 2 MB that there is no room for does not return, since `kmalloc` clears the block
that it has not got.

- `heap_represented_machine`: the chunks tile the arena in every state, and only such a request
  stops the kernel.
- `kmalloc_client_machine`, `kmalloc_best_fit_machine`: what a client gets, and where it comes
  from.
-/

namespace BpfExamples.Kvm

open Mem

/-- The arena lies behind the low mapping, in the window. -/
structure InWindow (S : Range) : Prop where
  above : 0x8000200000 ≤ S.base
  within : S.limit ≤ 0x8040000000

theorem inWindow_kernelSpan : InWindow kernelSpan := ⟨by decide, by decide⟩

theorem InWindow.isolated {S : Range} (hS : InWindow S) : Isolated kernelSpace S :=
  isolated_kernelSpace S hS.above hS.within

namespace HeapRun

/-- A client's step on the machine. Only `kmalloc` goes through the mappings: it clears
memory. -/
def machineStep (s : HeapRun) : HeapOp → Exec HeapRun
  | .kmalloc len align => do
    let (h, p) ← Kvm.kmalloc kernelSpace s.heap len align
    return ⟨h, if p = 0 then s.live else ⟨p, len⟩ :: s.live⟩
  | op => s.step op

/-- The states of all runs on `S`. -/
abbrev OnMachine (S : Range) : HeapRun → Prop := Reach (Start S) Allowed machineStep

end HeapRun

section

variable {S : Span} {s s' : HeapRun} {bin : List Extent} {len align : Nat}

/-- `kmalloc` in a run: a block, or none and the arena as it was, or a fault. -/
theorem RunInv.machine_kmalloc (hS : InWindow S) (inv : RunInv S s bin)
    (halign : align = mallocNoAlign ∨ align = mallocPageAlign) :
    (∃ h' c bin', kmalloc kernelSpace s.heap len align = .ok (h', c.addr + 16) ∧
      len + 16 ≤ c.size ∧
      Served S s.heap h' (s.live.map (liveChunk s.heap.mem)) c bin' ∧
      (∀ a, c.addr + 16 ≤ a → a < c.addr + 16 + len → h'.mem a = 0) ∧
      (align = mallocPageAlign → (c.addr + 16) % 0x1000 = 0)) ∨
    (∃ h', kmalloc kernelSpace s.heap len align = .ok (h', 0) ∧ h'.arena = s.heap.arena ∧
      ∀ a, S.base ≤ a → a < s.heap.arena.top → h'.mem a = s.heap.mem a) ∨
    (0x200000 < len ∧ len < 2 ^ 32 ∧ ¬ Room s.heap len align ∧
      kmalloc kernelSpace s.heap len align = .error .fault) := by
  have habove := hS.above
  rcases kmalloc_spec len hS.isolated inv.heap halign with
    ⟨h', c, bin', hok, hlen, -, hs, hzero, hal, -⟩ | ⟨-, hok⟩ | ⟨hlt, -, h₁, href, -, hok⟩
  · exact .inl ⟨h', c, bin', hok, hlen, hs, hzero, hal⟩
  · exact .inr (.inl ⟨s.heap, hok, rfl, fun _ _ _ => rfl⟩)
  by_cases hsmall : len ≤ 0x200000
  · refine .inr (.inl ⟨{ h₁ with mem := fill h₁.mem 0x8000000000 len 0 }, ?_, href.arena,
      fun a ha₁ ha₂ => ?_⟩)
    · rw [hok, memset_null _ hsmall]
      rfl
    · -- the clearing ends where the arena starts
      exact (fill_of_notMem (by omega)).trans (href.mem a (.inl ha₂))
  · have hfault : kmalloc kernelSpace s.heap len align = .error .fault := by
      rw [hok, memset_null_fault _ (Nat.lt_of_not_le hsmall)]
      rfl
    refine .inr (.inr ⟨Nat.lt_of_not_le hsmall, hlt, fun hroom => ?_, hfault⟩)
    obtain ⟨h', p, hserved, -⟩ := (inv.heap.kmalloc_served_iff hS.isolated halign hlt).mpr hroom
    rw [hfault] at hserved
    cases hserved

/-- Every allowed step returns and keeps the invariant, except for a request of more than 2 MB
that there is no room for. -/
theorem RunInv.machineStep_cases (hS : InWindow S) (inv : RunInv S s bin) {op : HeapOp}
    (hop : s.Allowed op) :
    (∃ s' bin', s.machineStep op = .ok s' ∧ RunInv S s' bin') ∨
      ∃ len align, op = .kmalloc len align ∧ 0x200000 < len ∧ len < 2 ^ 32 ∧
        ¬ Room s.heap len align ∧
        s.machineStep op = .error .fault := by
  cases op with
  | kmalloc len align =>
    rcases inv.machine_kmalloc hS hop.2 with
      ⟨h', c, bin', hok, hlen, hs, -⟩ | ⟨h', hok, harena, hm⟩ | ⟨hbig, hlt, hroom, herr⟩
    · refine .inl ⟨⟨h', ⟨c.addr + 16, len⟩ :: s.live⟩, bin', ?_, (inv.served hs hlen).1⟩
      rw [HeapRun.machineStep, hok]
      rfl
    · refine .inl ⟨⟨h', s.live⟩, bin, ?_, (inv.of_chunks harena hm).1⟩
      rw [HeapRun.machineStep, hok]
      rfl
    · refine .inr ⟨len, align, rfl, hbig, hlt, hroom, ?_⟩
      rw [HeapRun.machineStep, herr]
      rfl
  | kfree mem => exact .inl (inv.step hop)
  | write a b => exact .inl (inv.step hop)

theorem runInv_of_onMachine (hS : InWindow S) (hr : HeapRun.OnMachine S s) :
    ∃ bin, RunInv S s bin := by
  refine hr.inv (I := fun s => ∃ bin, RunInv S s bin) (fun s h => ⟨[], runInv_start h⟩) ?_
  rintro s op s' ⟨bin, inv⟩ hop hs
  rcases inv.machineStep_cases hS hop with ⟨s₁, bin₁, hs₁, hinv⟩ |
    ⟨len, align, -, -, -, -, herr⟩
  · obtain rfl : s₁ = s' := Except.ok.inj (hs₁.symm.trans hs)
    exact ⟨bin₁, hinv⟩
  · cases herr.symm.trans hs

/-- **The representation invariant on the machine.** It is that of `heap_represented`, and only
a request of more than 2 MB that there is no room for stops the kernel. -/
theorem heap_represented_machine (hS : InWindow S) (hr : HeapRun.OnMachine S s) :
    (∃ bin, Represents S s bin) ∧ ∀ op, s.Allowed op →
      (∃ s', s.machineStep op = .ok s') ∨
        ∃ len align, op = .kmalloc len align ∧ 0x200000 < len ∧ len < 2 ^ 32 ∧
          ¬ Room s.heap len align ∧
          s.machineStep op = .error .fault := by
  obtain ⟨bin, inv⟩ := runInv_of_onMachine hS hr
  refine ⟨⟨_, inv.represents⟩, fun op hop => ?_⟩
  rcases inv.machineStep_cases hS hop with ⟨s', -, hs, -⟩ | hfault
  · exact .inl ⟨s', hs⟩
  · exact .inr hfault

/-- **The client's guarantee on the machine**, for every request that returns. -/
theorem kmalloc_client_machine (hS : InWindow S) (hr : HeapRun.OnMachine S s) :
    (∀ len align, align = mallocNoAlign ∨ align = mallocPageAlign →
      len ≤ 0x200000 ∨ 2 ^ 32 ≤ len ∨ Room s.heap len align →
      ∃ h p, kmalloc kernelSpace s.heap len align = .ok (h, p) ∧
        (p ≠ 0 → S.base ≤ p ∧ p + len ≤ S.base + S.len ∧
          (∀ b ∈ s.live, ∀ a, b.Has a → ¬ (p ≤ a ∧ a < p + len)) ∧
          (∀ a, p ≤ a → a < p + len → h.mem a = 0) ∧
          (align = mallocPageAlign → p % 0x1000 = 0)) ∧
        ∀ b ∈ s.live, ∀ a, b.Has a → h.mem a = s.heap.mem a) ∧
    ∀ b ∈ s.live, ∃ h, kfree s.heap b.mem = .ok h ∧
      ∀ d ∈ s.live, d ≠ b → ∀ a, d.Has a → h.mem a = s.heap.mem a := by
  obtain ⟨bin, inv⟩ := runInv_of_onMachine hS hr
  refine ⟨fun len align halign hreturns => ?_, fun b hb => inv.kfree_client hb⟩
  rcases inv.machine_kmalloc hS halign with
    ⟨h, c, bin', hok, hlen, hs, hzero, hal⟩ | ⟨h, hok, -, hm⟩ | ⟨hbig, hlt, hroom, -⟩
  · exact ⟨h, c.addr + 16, hok, inv.served_client hs hlen hzero hal⟩
  · exact ⟨h, 0, hok, fun hne => absurd rfl hne, inv.null_client hm⟩
  · rcases hreturns with h | h | h
    · omega
    · omega
    · exact absurd h hroom

/-- **Best fit on the machine**: a request that nothing is large enough for clears the start of
memory, or faults. -/
theorem kmalloc_best_fit_machine (hS : InWindow S) (hr : HeapRun.OnMachine S s)
    (hlen : len < 2 ^ 32) :
    (∃ h' p, kmalloc kernelSpace s.heap len mallocNoAlign = .ok (h', p) ∧
      BestFit s.heap h' len p) ∨
      NothingFits s.heap len ∧ 0x200000 < len ∧
        kmalloc kernelSpace s.heap len mallocNoAlign = .error .fault := by
  obtain ⟨bin, inv⟩ := runInv_of_onMachine hS hr
  rcases inv.heap.bestFit hS.isolated hlen with ⟨hno, hok⟩ | hbest
  · by_cases hsmall : len ≤ 0x200000
    · refine .inl ⟨{ s.heap with mem := fill s.heap.mem 0x8000000000 len 0 }, 0, ?_,
        hno.bestFit⟩
      rw [hok, memset_null _ hsmall]
      rfl
    · refine .inr ⟨hno, Nat.lt_of_not_le hsmall, ?_⟩
      rw [hok, memset_null_fault _ (Nat.lt_of_not_le hsmall)]
      rfl
  · exact .inl hbest

end

end BpfExamples.Kvm
