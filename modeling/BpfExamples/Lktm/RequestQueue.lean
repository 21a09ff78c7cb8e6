import BpfExamples.Lktm.Sampleblk

/-!
# The queue of the RAM disk (`lktm/drivers/block/sampleblk/day2`)

`sampleblk_request` takes one request after the other from the queue and completes each of them
with the status `rv`. The variable is declared outside the loop. A request that is turned down
sets it and a segment that is copied clears it, so a request without segments is completed with
whatever the one before it has left.

The requests are independent of one another exactly if no request is in the way of the next
(`sampleblkRequest_independent_iff`): the ones without segments follow a request that ends as
they should, and the position in bytes of the others does not wrap around.
-/

namespace BpfExamples.Lktm

/-! ## The loop -/

/-- `cmd_type`: `REQ_TYPE_FS`, or one of the others. -/
inductive CmdType
  | fs
  | other
deriving DecidableEq, Repr

/-- A request on the queue. `blk_rq_bytes` is the length of its segments, if it has any. -/
structure QueuedRequest extends Request where
  cmdType : CmdType
  bytes : Nat
  bytes_eq : segments ≠ [] → bytes = (segments.map Segment.len).sum

/-- `EIO`. -/
def eio : Int := 5

/-- The loop over the segments (day2/sample_blk.c:89–100) with its status. `sampleblk_handle_io`
returns 0. -/
def segmentsStatus (write : Bool) : List Segment → Nat → Int → Ram → Int × Ram
  | [], _, rv, m => (rv, m)
  | bvec :: segments, pos, _, m =>
    segmentsStatus write segments ((pos + bvec.len) % 2 ^ 64) 0
      (sampleblkHandleIo pos bvec.len bvec.buffer write m)

/-- The body of the loop over the queue (day2/sample_blk.c:71–105), with the `rv` that it
finds. -/
def requestBody (size : Nat) (rq : QueuedRequest) (rv : Int) (m : Ram) : Int × Ram :=
  if rq.cmdType ≠ .fs then (-eio, m)
  else
    let pos := rq.pos * sectSize % 2 ^ 64
    if (pos + rq.bytes) % 2 ^ 64 > size then (-eio, m)
    else segmentsStatus rq.write rq.segments pos rv m

/-- The loop over the queue: what `blk_end_request_all` is called with, in order, and the
memory. -/
def requestLoop (size : Nat) : List QueuedRequest → Int → Ram → List (QueuedRequest × Int) × Ram
  | [], _, m => ([], m)
  | rq :: queue, rv, m =>
    let (rv, m) := requestBody size rq rv m
    let (completed, m) := requestLoop size queue rv m
    ((rq, rv) :: completed, m)

/-- `sampleblk_request` (day2/sample_blk.c:60–107) on a device of `size` bytes. -/
def sampleblkRequestQueue (size : Nat) (queue : List QueuedRequest) (m : Ram) :
    List (QueuedRequest × Int) × Ram :=
  requestLoop size queue 0 m

/-! ## What each request is for -/

variable {size : Nat} {rq : QueuedRequest} {rv : Int} {m : Ram}

namespace QueuedRequest

/-- A file-system request whose range lies in the device. -/
def InDevice (size : Nat) (rq : QueuedRequest) : Prop :=
  rq.cmdType = .fs ∧ rq.pos * sectSize + rq.bytes ≤ size

instance (size : Nat) (rq : QueuedRequest) : Decidable (rq.InDevice size) :=
  inferInstanceAs (Decidable (_ ∧ _))

/-- The status that the request is to be completed with. -/
def status (size : Nat) (rq : QueuedRequest) : Int := if rq.InDevice size then 0 else -eio

/-- The memory behind the request: the bytes of its segments have been copied in order, or
nothing has. -/
def effect (size : Nat) (rq : QueuedRequest) (m : Ram) : Ram :=
  if rq.InDevice size then transfer rq.write (rq.pos * sectSize) rq.cells m else m

/-- The request gets past the two checks, in 64 bits. -/
def Passes (size : Nat) (rq : QueuedRequest) : Prop :=
  rq.cmdType = .fs ∧ (rq.pos * sectSize % 2 ^ 64 + rq.bytes) % 2 ^ 64 ≤ size

instance (size : Nat) (rq : QueuedRequest) : Decidable (rq.Passes size) :=
  inferInstanceAs (Decidable (_ ∧ _))

/-- After a request that has left `rv` this one comes out right: it is turned down, or it has
no segments and is to be completed with the same status, or it has segments and lies in the
device. -/
def ComesOutRight (size : Nat) (rv : Int) (rq : QueuedRequest) : Prop :=
  rq.Passes size → if rq.segments = [] then rv = rq.status size else rq.InDevice size

instance (size : Nat) (rv : Int) (rq : QueuedRequest) : Decidable (rq.ComesOutRight size rv) :=
  inferInstanceAs (Decidable (_ → _))

end QueuedRequest

/-- All requests come out right, the first one after `rv`. -/
def AllRight (size : Nat) : Int → List QueuedRequest → Prop
  | _, [] => True
  | rv, rq :: queue => rq.ComesOutRight size rv ∧ AllRight size (rq.status size) queue

instance decidableAllRight (size : Nat) :
    ∀ (rv : Int) (queue : List QueuedRequest), Decidable (AllRight size rv queue)
  | _, [] => inferInstanceAs (Decidable True)
  | rv, rq :: queue =>
    have := decidableAllRight size (rq.status size) queue
    inferInstanceAs
      (Decidable (rq.ComesOutRight size rv ∧ AllRight size (rq.status size) queue))

/-- Each request of the queue is completed once and in its turn, with its own status, and the
memory is what the requests make of it one after the other. -/
def Independent (size : Nat) (queue : List QueuedRequest) (m : Ram)
    (r : List (QueuedRequest × Int) × Ram) : Prop :=
  r.1 = queue.map (fun rq => (rq, rq.status size)) ∧
    r.2 = queue.foldl (fun m rq => rq.effect size m) m

/-! ## One request -/

theorem segmentsStatus_eq (write : Bool) (segments : List Segment) :
    ∀ (pos : Nat) (rv : Int) (m : Ram), segmentsStatus write segments pos rv m =
      (if segments = [] then rv else 0, sampleblkSegments write segments pos m) := by
  induction segments with
  | nil => exact fun _ _ _ => rfl
  | cons bvec segments ih =>
    intro pos rv m
    rw [segmentsStatus, ih, sampleblkSegments, if_neg (List.cons_ne_nil _ _), ite_self]

theorem requestBody_eq (size : Nat) (rq : QueuedRequest) (rv : Int) (m : Ram) :
    requestBody size rq rv m = if rq.Passes size then
      (if rq.segments = [] then rv else 0,
        sampleblkSegments rq.write rq.segments (rq.pos * sectSize % 2 ^ 64) m)
    else (-eio, m) := by
  unfold requestBody
  by_cases hfs : rq.cmdType = .fs
  · rw [if_neg (not_not.mpr hfs)]
    dsimp only
    by_cases hle : (rq.pos * sectSize % 2 ^ 64 + rq.bytes) % 2 ^ 64 ≤ size
    · rw [if_neg (Nat.not_lt.mpr hle), if_pos ⟨hfs, hle⟩, segmentsStatus_eq]
    · rw [if_pos (Nat.not_le.mp hle), if_neg fun h => hle h.2]
  · rw [if_pos hfs, if_neg fun h => hfs h.1]

/-- What lies in the device passes: nothing wraps around. -/
theorem QueuedRequest.InDevice.passes (h : rq.InDevice size) (hsize : size < 2 ^ 63) :
    rq.Passes size := by
  have hroom := h.2
  exact ⟨h.1, by omega⟩

theorem QueuedRequest.status_eq_zero_iff : rq.status size = 0 ↔ rq.InDevice size := by
  unfold QueuedRequest.status
  split
  · next h => exact iff_of_true rfl h
  · next h => exact iff_of_false (by decide) h

/-- **The status** of one request is its own exactly if it comes out right. -/
theorem requestBody_status_iff (hsize : size < 2 ^ 63) :
    (requestBody size rq rv m).1 = rq.status size ↔ rq.ComesOutRight size rv := by
  rw [requestBody_eq]
  by_cases hpass : rq.Passes size
  · rw [if_pos hpass, QueuedRequest.ComesOutRight, forall_prop_of_true hpass]
    dsimp only
    split
    · rfl
    · rw [eq_comm, QueuedRequest.status_eq_zero_iff]
  · have hout : ¬ rq.InDevice size := fun h => hpass (h.passes hsize)
    rw [if_neg hpass, QueuedRequest.status, if_neg hout]
    exact iff_of_true rfl fun h => absurd h hpass

/-- **The copies** of a request that comes out right. -/
theorem QueuedRequest.ComesOutRight.effect_eq (h : rq.ComesOutRight size rv)
    (hsize : size < 2 ^ 63) (m : Ram) : (requestBody size rq rv m).2 = rq.effect size m := by
  rw [requestBody_eq]
  by_cases hpass : rq.Passes size
  swap
  · rw [if_neg hpass, effect, if_neg fun h => hpass (h.passes hsize)]
  rw [if_pos hpass]
  have h := h hpass
  by_cases hnil : rq.segments = []
  · -- nothing is copied, whatever the status
    have hcells : rq.cells = [] := by rw [Request.cells, hnil, List.flatMap_nil]
    rw [hnil, effect, hcells, transfer_nil, ite_self]
    rfl
  · rw [if_neg hnil] at h
    have hroom := h.2
    have hlen := rq.bytes_eq hnil
    rw [effect, if_pos h, Nat.mod_eq_of_lt (by omega), sampleblkSegments_eq _ _ _ _ (by omega)]
    rfl

/-! ## The queue -/

theorem requestLoop_iff (hsize : size < 2 ^ 63) (queue : List QueuedRequest) :
    ∀ (rv : Int) (m : Ram),
    Independent size queue m (requestLoop size queue rv m) ↔ AllRight size rv queue := by
  induction queue with
  | nil => exact fun _ _ => iff_of_true ⟨rfl, rfl⟩ trivial
  | cons rq queue ih =>
    intro rv m
    have hstatus : (requestBody size rq rv m).1 = rq.status size ↔ rq.ComesOutRight size rv :=
      requestBody_status_iff hsize
    have hstep : Independent size (rq :: queue) m (requestLoop size (rq :: queue) rv m) ↔
        (requestBody size rq rv m).1 = rq.status size ∧
          (requestLoop size queue (requestBody size rq rv m).1 (requestBody size rq rv m).2).1 =
            queue.map (fun rq => (rq, rq.status size)) ∧
          (requestLoop size queue (requestBody size rq rv m).1 (requestBody size rq rv m).2).2 =
            queue.foldl (fun m rq => rq.effect size m) (rq.effect size m) := by
      unfold Independent
      rw [requestLoop, List.map_cons, List.foldl_cons, List.cons.injEq,
        Prod.mk.injEq, and_assoc]
      exact and_congr_left' (and_iff_right rfl)
    rw [hstep, AllRight, ← hstatus]
    refine and_congr_right fun heq => ?_
    -- the rest of the queue starts from what this request was to leave
    rw [(hstatus.mp heq).effect_eq hsize, heq]
    exact ih (rq.status size) (rq.effect size m)

/-- **The requests on the queue are independent** exactly if each of them comes out right after
the one before it. -/
theorem sampleblkRequest_independent_iff (size : Nat) (hsize : size < 2 ^ 63)
    (queue : List QueuedRequest) (m : Ram) :
    Independent size queue m (sampleblkRequestQueue size queue m) ↔ AllRight size 0 queue :=
  requestLoop_iff hsize queue 0 m

/-- A request without segments at the start of the device. -/
def emptyRequest (cmdType : CmdType) : QueuedRequest :=
  ⟨⟨false, 0, []⟩, cmdType, 0, fun h => absurd rfl h⟩

/-- A page to be written from the given sector on. -/
def pageWrite (pos : Nat) : QueuedRequest := ⟨⟨true, pos, [⟨0, 4096⟩]⟩, .fs, 4096, fun _ => rfl⟩

/-- A page behind the end of the device, a page in it, and a request without segments. -/
theorem sampleblkRequest_independent_page :
    diskSize < 2 ^ 63 ∧ AllRight diskSize 0 [pageWrite 10240, pageWrite 0, emptyRequest .fs] ∧
      Independent diskSize [pageWrite 10240, pageWrite 0, emptyRequest .fs]
        ⟨fun _ => 0, fun _ => 1⟩
        (sampleblkRequestQueue diskSize [pageWrite 10240, pageWrite 0, emptyRequest .fs]
          ⟨fun _ => 0, fun _ => 1⟩) := by
  have hright : AllRight diskSize 0 [pageWrite 10240, pageWrite 0, emptyRequest .fs] := by
    decide
  exact ⟨by decide, hright,
    (sampleblkRequest_independent_iff diskSize (by decide) _ _).mpr hright⟩

/-- **An error is passed on** to a request without segments; and a page for a sector that the
device does not have is written to its start, since the position in bytes is a multiple of
`2^64`. -/
theorem sampleblkRequest_stale_status :
    ((emptyRequest .fs).status diskSize = 0 ∧
      (sampleblkRequestQueue diskSize [emptyRequest .other, emptyRequest .fs]
        ⟨fun _ => 0, fun _ => 0⟩).1.map Prod.snd =
        [-eio, -eio] ∧
      ¬ Independent diskSize [emptyRequest .other, emptyRequest .fs] ⟨fun _ => 0, fun _ => 0⟩
        (sampleblkRequestQueue diskSize [emptyRequest .other, emptyRequest .fs]
          ⟨fun _ => 0, fun _ => 0⟩)) ∧
    (pageWrite (2 ^ 55)).status diskSize = -eio ∧
      (sampleblkRequestQueue diskSize [pageWrite (2 ^ 55)] ⟨fun _ => 0, fun _ => 1⟩).2.data 0 =
        1 := by
  refine ⟨⟨by decide, by decide, fun h => ?_⟩, by decide, by decide⟩
  have hstatus := congrArg (List.map Prod.snd) h.1
  exact absurd hstatus (by decide)

end BpfExamples.Lktm
