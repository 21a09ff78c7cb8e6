import BpfExamples.Base.Maps

/-!
# Faked reads (`kprobe_file_read`)

`kprobe_sys_read` runs at every entry of `read`. For a process whose name is in the map `comm`
it answers in place of the system call: it puts `dd` into the buffer and returns its length, and
the next time it returns 0, the end of the file. Whose turn it is stands in the map `written`,
one entry for each process. The map has 100 entries, nothing is ever removed from it, and the
program does not look at the result of its updates.

A process gets data and end of file in turn exactly if it reads at most once or fewer than 100
other processes have been there before its first read (`kprobeSysRead_alternate_iff`). Any other
process gets the data at each of its reads (`repliesTo_of_full`).
-/

namespace BpfExamples.FileRead

/-! ## The probe -/

/-- `struct procName` (my.h). -/
abbrev ProcName := Vector UInt8 24

/-- The map `comm`. -/
abbrev Comm := Table ProcName Int

/-- The map `written`, with the bits of the `int` `pid` as its key. -/
abbrev Written := Table UInt32 Int

/-- `max_entries` of `written` (bpf_test.c:42–48). -/
def writtenEntries : Nat := 100

/-- `bpf_map_update_elem` on `written`, whose result the program ignores. -/
def writtenUpdate (written : Written) (pid : UInt32) (w : Int) : Written :=
  (written.put writtenEntries pid w).getD written

/-- What the probe finds at an entry of `read`: `bpf_get_current_comm`,
`bpf_get_current_pid_tgid`, the address of the registers of the system call and, in them, that
of the buffer. -/
structure ReadCall where
  name : ProcName
  pidTgid : UInt64
  regs : UInt64
  readBuf : UInt64
deriving DecidableEq

/-- `int pid = bpf_get_current_pid_tgid() >> 32` -/
def ReadCall.pid (call : ReadCall) : UInt32 := (call.pidTgid >>> 32).toUInt32

/-- How `read` goes on: as ever, or with the bytes that `bpf_probe_write_user` is given for the
buffer and the value of `bpf_override_return`. -/
inductive Reply
  | untouched
  | overridden (data : List UInt8) (ret : Nat)
deriving DecidableEq, Repr

/-- `char payload[] = "dd"`, with its final zero. -/
def payload : List UInt8 := [0x64, 0x64, 0]

/-- The reply with the data. -/
def Reply.injected : Reply := .overridden payload payload.length

/-- The reply of an exhausted file. -/
def Reply.endOfFile : Reply := .overridden [] 0

/-- `kprobe_sys_read` (bpf_test.c:50–128). -/
def kprobeSysRead (comm : Comm) (written : Written) (call : ReadCall) : Reply × Written :=
  match comm.lookup call.name with
  | none => (.untouched, written)
  | some _ =>
    let pid := call.pid
    let myWritten := written.lookup pid
    if call.regs = 0 then (.untouched, written)
    else if call.readBuf = 0 then (.untouched, written)
    else if myWritten = some 1 then (.endOfFile, writtenUpdate written pid 0)
    else (.injected, writtenUpdate written pid 1)

/-- The calls in the order in which they come, each with its reply. -/
def run (comm : Comm) : Written → List ReadCall → List (ReadCall × Reply)
  | _, [] => []
  | written, call :: calls =>
    let (reply, written) := kprobeSysRead comm written call
    (call, reply) :: run comm written calls

/-! ## What a process sees -/

/-- The read is the probe's to answer. -/
def ReadCall.Intercepted (comm : Comm) (call : ReadCall) : Prop :=
  call.name ∈ comm ∧ call.regs ≠ 0 ∧ call.readBuf ≠ 0

instance (comm : Comm) (call : ReadCall) : Decidable (call.Intercepted comm) :=
  inferInstanceAs (Decidable (_ ∧ _))

/-- The replies to the intercepted reads of the process `p`. -/
def repliesTo (comm : Comm) (p : UInt32) (written : Written) (calls : List ReadCall) :
    List Reply :=
  ((run comm written calls).filter fun e =>
    decide (e.1.Intercepted comm ∧ e.1.pid = p)).map Prod.snd

/-- The processes of the intercepted reads, in order. -/
def readers (comm : Comm) (calls : List ReadCall) : List UInt32 :=
  (calls.filter fun call => decide (call.Intercepted comm)).map ReadCall.pid

/-- The processes that are intercepted before `p` is for the first time. -/
def readersBefore (comm : Comm) (p : UInt32) (calls : List ReadCall) : Finset UInt32 :=
  ((readers comm calls).takeWhile (· ≠ p)).toFinset

/-- The reply that is due, given whether the data has been handed out. -/
def Reply.due (handedOut : Bool) : Reply := if handedOut then .endOfFile else .injected

/-- Data and end of file in turn, where the first reply is the one that is due. -/
def AlternateFrom : Bool → List Reply → Prop
  | _, [] => True
  | handedOut, reply :: replies => reply = .due handedOut ∧ AlternateFrom (!handedOut) replies

/-- The 1st, 3rd, 5th reply and so on is the data, the 2nd, the 4th and so on is end of file. -/
def Alternate (replies : List Reply) : Prop := AlternateFrom false replies

theorem alternate_replicate_iff (n : Nat) : Alternate (List.replicate n .injected) ↔ n ≤ 1 := by
  match n with
  | 0 => simp [Alternate, AlternateFrom]
  | 1 => simp [Alternate, AlternateFrom, Reply.due]
  | n + 2 =>
    simp [List.replicate_succ, Alternate, AlternateFrom, Reply.due, Reply.injected,
      Reply.endOfFile, payload]

/-! ## One step -/

section Step

variable {comm : Comm} {written : Written} {call : ReadCall} {p : UInt32} {w : Int}

/-- The entry for a process says that the data has been handed out. -/
def HandedOut (written : Written) (p : UInt32) : Bool := decide (written.lookup p = some 1)

theorem kprobeSysRead_untouched (h : ¬ call.Intercepted comm) :
    kprobeSysRead comm written call = (.untouched, written) := by
  unfold kprobeSysRead
  split
  · rfl
  · next x hx =>
    have hname : call.name ∈ comm := Table.mem_iff_lookup.mpr ⟨x, hx⟩
    by_cases hregs : call.regs = 0
    · exact if_pos hregs
    · have hbuf : call.readBuf = 0 := by
        by_contra hbuf
        exact h ⟨hname, hregs, hbuf⟩
      exact (if_neg hregs).trans (if_pos hbuf)

theorem kprobeSysRead_intercepted (h : call.Intercepted comm) :
    kprobeSysRead comm written call =
      (.due (HandedOut written call.pid),
        writtenUpdate written call.pid (if HandedOut written call.pid then 0 else 1)) := by
  obtain ⟨hname, hregs, hbuf⟩ := h
  obtain ⟨x, hx⟩ := Table.mem_iff_lookup.mp hname
  unfold kprobeSysRead
  rw [hx]
  simp only [if_neg hregs, if_neg hbuf]
  by_cases hout : written.lookup call.pid = some 1 <;> simp [hout, HandedOut, Reply.due]

theorem writtenUpdate_of_room (h : p ∈ written ∨ written.size < writtenEntries) :
    writtenUpdate written p w = written.insert p w := by
  have hroom : written.hasRoom writtenEntries p = true :=
    h.elim Table.hasRoom_of_mem Table.hasRoom_of_lt
  rw [writtenUpdate, Table.put, if_pos hroom]
  rfl

theorem writtenUpdate_of_full (h : p ∉ written) (hfull : writtenEntries ≤ written.size) :
    writtenUpdate written p w = written := by
  have hroom : ¬ written.hasRoom writtenEntries p = true := by
    simpa [Table.hasRoom_of_notMem h] using hfull
  rw [writtenUpdate, Table.put, if_neg hroom]
  rfl

/-- An update leaves the other processes alone. -/
theorem lookup_writtenUpdate_ne {q : UInt32} (h : p ≠ q) :
    (writtenUpdate written q w).lookup p = written.lookup p := by
  by_cases hroom : q ∈ written ∨ written.size < writtenEntries
  · rw [writtenUpdate_of_room hroom, Table.lookup_insert_eq, if_neg h]
  · obtain ⟨hnot, hfull⟩ := not_or.mp hroom
    rw [writtenUpdate_of_full hnot (Nat.le_of_not_lt hfull)]

theorem mem_writtenUpdate_ne {q : UInt32} (h : p ≠ q) :
    p ∈ writtenUpdate written q w ↔ p ∈ written := by
  rw [Table.mem_iff_lookup, Table.mem_iff_lookup, lookup_writtenUpdate_ne h]

/-- A full map stays full. -/
theorem writtenUpdate_full (hfull : writtenEntries ≤ written.size) :
    writtenEntries ≤ (writtenUpdate written p w).size := by
  by_cases hp : p ∈ written
  · rw [writtenUpdate_of_room (.inl hp), Table.size_insert_of_mem hp]
    exact hfull
  · rw [writtenUpdate_of_full hp hfull]
    exact hfull

end Step

/-! ## Whole runs -/

section Runs

variable {comm : Comm} {written : Written} {call : ReadCall} {calls : List ReadCall}
  {p : UInt32}

theorem repliesTo_cons_untouched (h : ¬ call.Intercepted comm) :
    repliesTo comm p written (call :: calls) = repliesTo comm p written calls := by
  simp [repliesTo, run, kprobeSysRead_untouched h, h]

theorem repliesTo_cons_ne (h : call.Intercepted comm) (hp : call.pid ≠ p) :
    repliesTo comm p written (call :: calls) =
      repliesTo comm p (writtenUpdate written call.pid (if HandedOut written call.pid then 0
        else 1)) calls := by
  simp [repliesTo, run, kprobeSysRead_intercepted h, hp]

theorem repliesTo_cons_self (h : call.Intercepted comm) (hp : call.pid = p) :
    repliesTo comm p written (call :: calls) =
      .due (HandedOut written p) :: repliesTo comm p
        (writtenUpdate written p (if HandedOut written p then 0 else 1)) calls := by
  subst hp
  simp [repliesTo, run, kprobeSysRead_intercepted h, h]

theorem readersBefore_cons_untouched (h : ¬ call.Intercepted comm) :
    readersBefore comm p (call :: calls) = readersBefore comm p calls := by
  simp [readersBefore, readers, h]

theorem readersBefore_cons_ne (h : call.Intercepted comm) (hp : call.pid ≠ p) :
    readersBefore comm p (call :: calls) = insert call.pid (readersBefore comm p calls) := by
  simp [readersBefore, readers, h, hp]

theorem readersBefore_cons_self (h : call.Intercepted comm) (hp : call.pid = p) :
    readersBefore comm p (call :: calls) = ∅ := by
  simp [readersBefore, readers, h, hp]

theorem length_repliesTo (calls : List ReadCall) (written : Written) :
    (repliesTo comm p written calls).length = (readers comm calls).count p := by
  induction calls generalizing written with
  | nil => rfl
  | cons call calls ih =>
    by_cases h : call.Intercepted comm
    · have hreaders : readers comm (call :: calls) = call.pid :: readers comm calls := by
        simp [readers, h]
      by_cases hpid : call.pid = p
      · rw [repliesTo_cons_self h hpid, List.length_cons, ih, hreaders, hpid,
          List.count_cons_self]
      · rw [repliesTo_cons_ne h hpid, ih, hreaders, List.count_cons_of_ne hpid]
    · have hreaders : readers comm (call :: calls) = readers comm calls := by simp [readers, h]
      rw [repliesTo_cons_untouched h, ih, hreaders]

/-- A process with an entry gets the two replies in turn, whatever the others do. -/
theorem repliesTo_of_mem (calls : List ReadCall) (hp : p ∈ written) :
    AlternateFrom (HandedOut written p) (repliesTo comm p written calls) := by
  induction calls generalizing written with
  | nil => trivial
  | cons call calls ih =>
    by_cases h : call.Intercepted comm
    · by_cases hpid : call.pid = p
      · rw [repliesTo_cons_self h hpid, writtenUpdate_of_room (.inl hp)]
        refine ⟨rfl, ?_⟩
        have hturn : HandedOut (written.insert p (if HandedOut written p then 0 else 1)) p =
            !HandedOut written p := by
          unfold HandedOut
          rw [Table.lookup_insert_eq, if_pos rfl]
          by_cases hout : written.lookup p = some 1 <;> simp [hout]
        rw [← hturn]
        exact ih (AList.mem_insert written |>.mpr (.inl rfl))
      · have hother := ih ((mem_writtenUpdate_ne (Ne.symm hpid)
          (w := if HandedOut written call.pid then 0 else 1)).mpr hp)
        rw [repliesTo_cons_ne h hpid]
        rw [HandedOut, lookup_writtenUpdate_ne (Ne.symm hpid)] at hother
        exact hother
    · rw [repliesTo_cons_untouched h]
      exact ih hp

/-- A process that finds the map full never gets to the end of the file. -/
theorem repliesTo_of_full (calls : List ReadCall) (hp : p ∉ written)
    (hfull : writtenEntries ≤ written.size) :
    repliesTo comm p written calls = List.replicate
      (repliesTo comm p written calls).length .injected := by
  induction calls generalizing written with
  | nil => rfl
  | cons call calls ih =>
    by_cases h : call.Intercepted comm
    · by_cases hpid : call.pid = p
      · have hout : HandedOut written p = false := by
          simp [HandedOut, AList.lookup_eq_none.mpr hp]
        rw [repliesTo_cons_self h hpid, writtenUpdate_of_full hp hfull, hout, List.length_cons,
          List.replicate_succ, ← ih hp hfull]
        rfl
      · rw [repliesTo_cons_ne h hpid]
        exact ih (mt (mem_writtenUpdate_ne (Ne.symm hpid)).mp hp) (writtenUpdate_full hfull)
    · rw [repliesTo_cons_untouched h]
      exact ih hp hfull

/-- What the others leave in the map before the first read of `p`: the room that is left for it
does not depend on whether their processes have been there before. -/
theorem keySet_writtenUpdate (q : UInt32) (w : Int) (others : Finset UInt32) :
    ((writtenUpdate written q w).keySet ∪ others).card < writtenEntries ↔
      (written.keySet ∪ insert q others).card < writtenEntries := by
  by_cases hroom : q ∈ written ∨ written.size < writtenEntries
  · rw [writtenUpdate_of_room hroom, Table.keySet_insert, Finset.insert_union,
      Finset.union_insert]
  · obtain ⟨hnot, hfull⟩ := not_or.mp hroom
    have hle (s : Finset UInt32) : writtenEntries ≤ (written.keySet ∪ s).card :=
      calc writtenEntries ≤ written.size := Nat.le_of_not_lt hfull
        _ = written.keySet.card := (Table.card_keySet written).symm
        _ ≤ (written.keySet ∪ s).card := Finset.card_le_card Finset.subset_union_left
    rw [writtenUpdate_of_full hnot (Nat.le_of_not_lt hfull)]
    exact iff_of_false (Nat.not_lt.mpr (hle _)) (Nat.not_lt.mpr (hle _))

/-- The replies to a process without an entry. -/
theorem repliesTo_of_notMem (calls : List ReadCall) (hp : p ∉ written) :
    Alternate (repliesTo comm p written calls) ↔
      (repliesTo comm p written calls).length ≤ 1 ∨
        (written.keySet ∪ readersBefore comm p calls).card < writtenEntries := by
  induction calls generalizing written with
  | nil => exact iff_of_true trivial (.inl (Nat.zero_le 1))
  | cons call calls ih =>
    by_cases h : call.Intercepted comm
    · by_cases hpid : call.pid = p
      · rw [readersBefore_cons_self h hpid, Finset.union_empty, Table.card_keySet]
        by_cases hroom : written.size < writtenEntries
        · -- the entry is made, and from then on the process is on its own
          have hout : HandedOut written p = false := by
            simp [HandedOut, AList.lookup_eq_none.mpr hp]
          have hnext : HandedOut (written.insert p 1) p = true := by
            simp [HandedOut]
          rw [repliesTo_cons_self h hpid, hout, writtenUpdate_of_room (.inr hroom)]
          refine iff_of_true ⟨rfl, ?_⟩ (.inr hroom)
          have hmem : p ∈ written.insert p 1 := (AList.mem_insert written).mpr (.inl rfl)
          have hrest : AlternateFrom (HandedOut (written.insert p 1) p)
            (repliesTo comm p (written.insert p 1) calls) := repliesTo_of_mem calls hmem
          rw [hnext] at hrest
          exact hrest
        · rw [repliesTo_of_full _ hp (Nat.le_of_not_lt hroom), alternate_replicate_iff,
            List.length_replicate]
          exact (or_iff_left hroom).symm
      · rw [repliesTo_cons_ne h hpid, readersBefore_cons_ne h hpid, ← keySet_writtenUpdate]
        exact ih (mt (mem_writtenUpdate_ne (Ne.symm hpid)).mp hp)
    · rw [repliesTo_cons_untouched h, readersBefore_cons_untouched h]
      exact ih hp

end Runs

/-- In every run, the replies to a process alternate exactly if it reads at most once or fewer
than 100 other processes were intercepted before it. -/
theorem kprobeSysRead_alternate_iff (comm : Comm) (calls : List ReadCall) (p : UInt32) :
    Alternate (repliesTo comm p ∅ calls) ↔
      (readers comm calls).count p ≤ 1 ∨ (readersBefore comm p calls).card < 100 := by
  have hempty : (∅ : Written).keySet = ∅ := rfl
  rw [repliesTo_of_notMem calls (AList.notMem_empty p), length_repliesTo, hempty,
    Finset.empty_union]
  rfl

/-- The map `comm` with a name of all zeros. -/
def nameless : Comm := (∅ : Comm).insert (Vector.replicate 24 0) 1

/-- A read of the process `p` under that name. -/
def readBy (p : Nat) : ReadCall := ⟨Vector.replicate 24 0, UInt64.ofNat (p * 2 ^ 32 + p), 1, 1⟩

/-- One read of each of the processes 0 to 100, and another one of the last. -/
def crowd : List ReadCall := (List.range 101).map readBy ++ [readBy 100]

theorem repliesTo_crowd : repliesTo nameless 100 ∅ crowd = [.injected, .injected] := by
  decide +kernel

/-- The last of the processes gets the data twice. -/
theorem kprobeSysRead_never_endOfFile :
    repliesTo nameless 100 ∅ crowd = [.injected, .injected] ∧
      ¬ Alternate (repliesTo nameless 100 ∅ crowd) := by
  refine ⟨repliesTo_crowd, ?_⟩
  rw [repliesTo_crowd]
  exact mt (alternate_replicate_iff 2).mp (by decide)

end BpfExamples.FileRead
