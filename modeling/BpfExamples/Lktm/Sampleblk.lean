import BpfExamples.Base.Scatter

/-!
# The RAM disk (`lktm/drivers/block/sampleblk`)

A request names a start sector and a list of segments, which are pieces of pages. The driver
copies between the segments and its own data, one `memcpy` for each segment. Two versions of the
loop:

- `sampleblkRequest` (`day2`) copies what each segment has, and serves every request
  (`sampleblkRequest_serves`);
- `myramdiskQueueRq` (`day1`) copies as many sectors for every segment as the first one has,
  since `blk_rq_cur_sectors` belongs to the request and not to the loop.

The data of the device is a store of its own: it comes from `vmalloc`, the segments are in
pages.

A request is served right for every content exactly if the cells that are copied are the cells
of the segments in their order, which leaves requests whose segments have one length and a rare
case in which the device ends in time (`myramdisk_serves_iff`).
-/

namespace BpfExamples.Lktm

/-! ## The driver -/

/-- A segment: `page_address(bv_page) + bv_offset` and `bv_len`. -/
structure Segment where
  buffer : Nat
  len : Nat
deriving DecidableEq, Repr

/-- A request: `rq_data_dir`, `blk_rq_pos` and the segments. -/
structure Request where
  write : Bool
  pos : Nat
  segments : List Segment
deriving DecidableEq, Repr

/-- `blk_status_t`, as far as the driver uses it. -/
inductive Status
  | ok
  | ioerr
deriving DecidableEq, Repr

/-- The data of the device and the memory of the pages. -/
structure Ram where
  data : Nat → UInt8
  memory : Nat → UInt8

/-- `sampleblk_sect_size` (day1/sample_blk.c:34). -/
def sectSize : Nat := 512

/-- `memcpy` between two stores. -/
def memcpy (dst : Nat → UInt8) (d : Nat) (src : Nat → UInt8) (s n : Nat) : Nat → UInt8 :=
  fun a => if d ≤ a ∧ a < d + n then src (s + (a - d)) else dst a

/-- `sampleblk_handle_io` (day2/sample_blk.c:49–58). -/
def sampleblkHandleIo (pos size buffer : Nat) (write : Bool) (m : Ram) : Ram :=
  if write then { m with data := memcpy m.data pos m.memory buffer size }
  else { m with memory := memcpy m.memory buffer m.data pos size }

/-- The loop over the segments of `sampleblk_request` (day2/sample_blk.c:89–100). -/
def sampleblkSegments (write : Bool) : List Segment → Nat → Ram → Ram
  | [], _, m => m
  | bvec :: segments, pos, m =>
    sampleblkSegments write segments ((pos + bvec.len) % 2 ^ 64)
      (sampleblkHandleIo pos bvec.len bvec.buffer write m)

/-- One request in `sampleblk_request` (day2/sample_blk.c:80–103). -/
def sampleblkRequest (size : Nat) (rq : Request) (m : Ram) : Status × Ram :=
  let pos := rq.pos * sectSize % 2 ^ 64
  -- `blk_rq_bytes`
  let bytes := (rq.segments.map Segment.len).sum
  if (pos + bytes) % 2 ^ 64 > size then (.ioerr, m)
  else (.ok, sampleblkSegments rq.write rq.segments pos m)

/-- `blk_rq_cur_sectors`: the first segment, whichever the loop is at. -/
def Request.curSectors (req : Request) : Nat :=
  match req.segments with
  | [] => 0
  | bvec :: _ => bvec.len / sectSize

/-- The loop over the segments of `myramdisk_queue_rq` (day1/sample_blk.c:148–170). -/
def queueSegments (size : Nat) (write : Bool) (numSector : Nat) :
    List Segment → Nat → Ram → Status × Ram
  | [], _, m => (.ok, m)
  | bvec :: segments, rqPos, m =>
    let offset := rqPos * sectSize % 2 ^ 64
    if (offset + numSector * sectSize) % 2 ^ 64 ≤ size then
      let m :=
        if write then { m with
          data := memcpy m.data offset m.memory bvec.buffer (numSector * sectSize) }
        else { m with
          memory := memcpy m.memory bvec.buffer m.data offset (numSector * sectSize) }
      queueSegments size write numSector segments ((rqPos + numSector) % 2 ^ 64) m
    else (.ioerr, m)

/-- `myramdisk_queue_rq` (day1/sample_blk.c:134–175). -/
def myramdiskQueueRq (size : Nat) (req : Request) (m : Ram) : Status × Ram :=
  queueSegments size req.write req.curSectors req.segments req.pos m

/-! ## What a request is for -/

/-- The cells of the segments, one segment behind the other. -/
def Request.cells (r : Request) : List Nat :=
  r.segments.flatMap fun s => List.range' s.buffer s.len

/-- A request that the device has room for. The segments of a read have no cell in common. -/
structure Request.Fits (size : Nat) (r : Request) : Prop where
  size_lt : size < 2 ^ 63
  len_pos : ∀ s ∈ r.segments, 0 < s.len
  len_dvd : ∀ s ∈ r.segments, sectSize ∣ s.len
  room : r.pos * sectSize + r.cells.length ≤ size
  apart : r.write = false → r.cells.Nodup

/-- From `m` to `m'` the request is served: a write replaces the data from the start sector on
by the content of the segments, a read fills each cell of the segments with the data at its
place; nothing else changes. -/
def Request.Served (r : Request) (m m' : Ram) : Prop :=
  if r.write then m'.data = overwrite m.data (r.pos * sectSize) (r.cells.map m.memory) ∧
    m'.memory = m.memory
  else m'.data = m.data ∧
    (∀ x a : Nat, r.cells[x]? = some a → m'.memory a = m.data (r.pos * sectSize + x)) ∧
    ∀ a, a ∉ r.cells → m'.memory a = m.memory a

/-! ## Copies -/

variable {size : Nat} {r : Request} {m : Ram}

/-- A copy between the data from `o` on and a list of cells. -/
def transfer (write : Bool) (o : Nat) (c : List Nat) (m : Ram) : Ram :=
  if write then { m with data := overwrite m.data o (c.map m.memory) }
  else { m with memory := scatter m.data o c m.memory }

theorem memcpy_eq_overwrite (dst : Nat → UInt8) (d : Nat) (src : Nat → UInt8) (s n : Nat) :
    memcpy dst d src s n = overwrite dst d ((List.range' s n).map src) := by
  funext a
  unfold memcpy overwrite
  rw [List.getElem?_map]
  by_cases h₀ : d ≤ a
  · by_cases h₁ : a < d + n
    · rw [if_pos ⟨h₀, h₁⟩, if_pos h₀, List.getElem?_range' (by omega), Nat.one_mul]
      rfl
    · rw [if_neg (fun h => h₁ h.2), if_pos h₀,
        List.getElem?_eq_none (by rw [List.length_range']; omega)]
      rfl
  · rw [if_neg (fun h => h₀ h.1), if_neg h₀]

theorem memcpy_eq_scatter (src : Nat → UInt8) (n : Nat) :
    ∀ (dst : Nat → UInt8) (d s : Nat), memcpy dst d src s n = scatter src s
      (List.range' d n) dst := by
  induction n with
  | zero =>
    intro dst d s
    funext a
    exact if_neg (by omega)
  | succ n ih =>
    intro dst d s
    rw [List.range'_succ, scatter, ← ih]
    funext a
    unfold memcpy
    by_cases h₀ : a = d
    · rw [if_pos (by omega), if_neg (by omega), h₀, Function.update_self, Nat.sub_self]
      rfl
    · rw [Function.update_of_ne h₀]
      by_cases h₁ : d + 1 ≤ a ∧ a < d + 1 + n
      · rw [if_pos (by omega), if_pos h₁, show s + (a - d) = s + 1 + (a - (d + 1)) by omega]
      · rw [if_neg (by omega), if_neg h₁]

theorem sampleblkHandleIo_eq (pos n buffer : Nat) (write : Bool) (m : Ram) :
    sampleblkHandleIo pos n buffer write m = transfer write pos (List.range' buffer n) m := by
  unfold sampleblkHandleIo transfer
  rw [memcpy_eq_overwrite, memcpy_eq_scatter]

theorem transfer_nil (write : Bool) (o : Nat) (m : Ram) : transfer write o [] m = m := by
  unfold transfer
  cases write with
  | true =>
    rw [List.map_nil, overwrite_nil]
    rfl
  | false => rfl

theorem transfer_append (write : Bool) (o : Nat) (c c' : List Nat) (m : Ram) :
    transfer write o (c ++ c') m = transfer write (o + c.length) c' (transfer write o c m) := by
  unfold transfer
  cases write with
  | true =>
    rw [List.map_append, overwrite_append, List.length_map]
    rfl
  | false =>
    rw [scatter_append]
    rfl

instance nontrivial_byte : Nontrivial UInt8 := ⟨0, 1, by decide⟩

/-- **A copy serves the request** for every content exactly if it is of the cells of the
request. -/
theorem served_transfer_iff (hr : r.Fits size) (c : List Nat) :
    (∀ m, r.Served m (transfer r.write (r.pos * sectSize) c m)) ↔ c = r.cells := by
  unfold Request.Served transfer
  cases hw : r.write with
  | true =>
    rw [← overwrite_map_iff (α := UInt8) (r.pos * sectSize)]
    constructor
    · exact fun h f mem => (h ⟨f, mem⟩).1
    · exact fun h m => ⟨h m.data m.memory, rfl⟩
  | false =>
    rw [← scatter_iff (α := UInt8) (r.pos * sectSize) (hr.apart hw)]
    constructor
    · exact fun h src mem => (h ⟨src, mem⟩).2
    · exact fun h m => ⟨rfl, h m.data m.memory⟩

/-! ## The loop with the lengths of the segments -/

theorem length_flatMap_range' (f : Segment → Nat) (l : List Segment) :
    (l.flatMap fun s => List.range' s.buffer (f s)).length = (l.map f).sum := by
  simp [List.length_flatMap]

theorem sampleblkSegments_eq (write : Bool) (segments : List Segment) :
    ∀ (pos : Nat) (m : Ram), pos + (segments.map Segment.len).sum < 2 ^ 64 →
      sampleblkSegments write segments pos m =
        transfer write pos (segments.flatMap fun s => List.range' s.buffer s.len) m := by
  induction segments with
  | nil =>
    intro pos m _
    exact (transfer_nil write pos m).symm
  | cons s segments ih =>
    intro pos m hlt
    rw [List.map_cons, List.sum_cons] at hlt
    rw [sampleblkSegments, Nat.mod_eq_of_lt (by omega), ih _ _ (by omega), sampleblkHandleIo_eq,
      List.flatMap_cons, transfer_append, List.length_range']

/-- **The version of `day2` serves every request.** -/
theorem sampleblkRequest_serves (hr : r.Fits size) (m : Ram) :
    (sampleblkRequest size r m).1 = .ok ∧ r.Served m (sampleblkRequest size r m).2 := by
  have hlen : r.cells.length = (r.segments.map Segment.len).sum :=
    length_flatMap_range' Segment.len r.segments
  have hroom := hr.room
  have hsize := hr.size_lt
  have heq : sampleblkRequest size r m =
      (.ok, transfer r.write (r.pos * sectSize) r.cells m) := by
    unfold sampleblkRequest
    dsimp only
    rw [Nat.mod_eq_of_lt (by omega), ← hlen, Nat.mod_eq_of_lt (by omega), if_neg (by omega),
      sampleblkSegments_eq _ _ _ _ (by omega)]
    rfl
  rw [heq]
  exact ⟨rfl, (served_transfer_iff hr r.cells).mpr rfl m⟩

/-! ## The loop with the length of the first segment -/

/-- The bytes that are copied for each segment. -/
def Request.chunk (r : Request) : Nat := r.curSectors * sectSize

/-- The cells that are copied for `k` segments. -/
def Request.firstCells (r : Request) (k : Nat) : List Nat :=
  (r.segments.take k).flatMap fun s => List.range' s.buffer r.chunk

/-- The number of copies that the data of the device has room for. -/
def Request.copies (size : Nat) (r : Request) : Nat := (size - r.pos * sectSize) / r.chunk

/-- All segments have the length of the first. -/
def Request.Even (r : Request) : Prop := ∀ s ∈ r.segments, s.len = r.chunk

/-- The device ends after `k` copies, which were the cells of all segments already. -/
def Request.CutShort (size : Nat) (r : Request) : Prop :=
  ∃ k < r.segments.length, r.pos * sectSize + k * r.chunk ≤ size ∧
    size < r.pos * sectSize + (k + 1) * r.chunk ∧
    r.firstCells k = r.cells

/-- The status after a loop over `n` segments that has room for `k` copies. -/
def statusFor (n k : Nat) : Status := if n ≤ k then .ok else .ioerr

theorem statusFor_zero (k : Nat) : statusFor 0 k = .ok := if_pos (Nat.zero_le k)

theorem statusFor_short (n : Nat) : statusFor (n + 1) 0 = .ioerr :=
  if_neg (Nat.not_succ_le_zero n)

theorem statusFor_succ (n k : Nat) : statusFor (n + 1) (k + 1) = statusFor n k :=
  if_congr Nat.succ_le_succ_iff rfl rfl

/-- The loop stops where the device ends. -/
theorem queueSegments_eq (write : Bool) {n : Nat} (hn : 0 < n * sectSize)
    (hsize : size < 2 ^ 63) (hlt : n * sectSize < 2 ^ 63) (segments : List Segment) :
    ∀ (rqPos : Nat) (m : Ram), rqPos * sectSize ≤ size →
      queueSegments size write n segments rqPos m =
        (statusFor segments.length ((size - rqPos * sectSize) / (n * sectSize)),
          transfer write (rqPos * sectSize)
            ((segments.take ((size - rqPos * sectSize) / (n * sectSize))).flatMap
            fun s => List.range' s.buffer (n * sectSize)) m) := by
  induction segments with
  | nil =>
    intro rqPos m _
    rw [List.take_nil, List.flatMap_nil, transfer_nil, List.length_nil, statusFor_zero]
    rfl
  | cons s segments ih =>
    intro rqPos m hpos
    have hstep : rqPos < 2 ^ 63 := Nat.lt_of_le_of_lt (Nat.le_mul_of_pos_right _ (by decide))
      (Nat.lt_of_le_of_lt hpos hsize)
    rw [queueSegments]
    dsimp only
    rw [Nat.mod_eq_of_lt (show rqPos * sectSize < 2 ^ 64 by omega),
      Nat.mod_eq_of_lt (show rqPos * sectSize + n * sectSize < 2 ^ 64 by omega)]
    by_cases hfit : rqPos * sectSize + n * sectSize ≤ size
    · -- the copy, and the loop from behind it
      have hnext : (rqPos + n) * sectSize = rqPos * sectSize + n * sectSize := Nat.add_mul _ _ _
      have hcount : (size - rqPos * sectSize) / (n * sectSize) =
          (size - (rqPos + n) * sectSize) / (n * sectSize) + 1 := by
        rw [hnext, ← Nat.add_div_right _ hn]
        congr 1
        omega
      have hmod : (rqPos + n) % 2 ^ 64 = rqPos + n := by
        refine Nat.mod_eq_of_lt ?_
        have : rqPos + n ≤ (rqPos + n) * sectSize := Nat.le_mul_of_pos_right _ (by decide)
        omega
      rw [if_pos hfit, hmod, ih _ _ (by omega), hcount, List.length_cons, statusFor_succ,
        List.take_succ_cons, List.flatMap_cons, transfer_append, List.length_range', hnext]
      exact congrArg (fun m => (_, transfer _ _ _ m)) (sampleblkHandleIo_eq _ _ _ _ _)
    · have hzero : (size - rqPos * sectSize) / (n * sectSize) = 0 := Nat.div_eq_of_lt (by omega)
      rw [if_neg hfit, hzero, List.take_zero, List.flatMap_nil, transfer_nil, List.length_cons,
        statusFor_short]

theorem Request.Fits.chunk_eq (hr : r.Fits size) {s : Segment} {l : List Segment}
    (hs : r.segments = s :: l) : r.chunk = s.len := by
  unfold Request.chunk Request.curSectors
  rw [hs]
  exact Nat.div_mul_cancel (hr.len_dvd s (hs ▸ List.mem_cons_self))

/-- **What the version of `day1` copies**, and the status that it returns. -/
theorem myramdiskQueueRq_eq (hr : r.Fits size) (m : Ram) :
    myramdiskQueueRq size r m = (statusFor r.segments.length (r.copies size),
      transfer r.write (r.pos * sectSize) (r.firstCells (r.copies size)) m) := by
  cases hs : r.segments with
  | nil =>
    unfold myramdiskQueueRq Request.firstCells
    rw [hs, List.take_nil, List.flatMap_nil, transfer_nil, List.length_nil, statusFor_zero]
    rfl
  | cons s l =>
    have hchunk := hr.chunk_eq hs
    have hpos : 0 < r.chunk := hchunk ▸ hr.len_pos s (hs ▸ List.mem_cons_self)
    have hle : r.chunk ≤ r.cells.length := by
      rw [hchunk, Request.cells, length_flatMap_range' Segment.len, hs, List.map_cons,
        List.sum_cons]
      exact Nat.le_add_right _ _
    have hroom := hr.room
    have hsize := hr.size_lt
    rw [← hs]
    exact queueSegments_eq r.write hpos hsize (show r.chunk < _ by omega) r.segments r.pos m
      (by omega)

/-- The number of copies, by where the device ends. -/
theorem copies_eq_iff (hpos : 0 < r.chunk) (hle : r.pos * sectSize ≤ size) (k : Nat) :
    r.copies size = k ↔ r.pos * sectSize + k * r.chunk ≤ size ∧
      size < r.pos * sectSize + (k + 1) * r.chunk := by
  rw [Request.copies, Nat.div_eq_iff hpos, Nat.add_mul, Nat.one_mul]
  omega

/-- With one length the device has room for a copy each. -/
theorem Request.Even.length_le (heven : r.Even) (hr : r.Fits size) (hpos : 0 < r.chunk) :
    r.segments.length ≤ r.copies size := by
  have hlens : r.segments.map Segment.len = r.segments.map fun _ => r.chunk :=
    List.map_congr_left heven
  have hlen : r.cells.length = r.segments.length * r.chunk := by
    rw [Request.cells, length_flatMap_range' Segment.len, hlens, List.map_const',
      List.sum_replicate_nat]
  have hroom := hr.room
  rw [Request.copies, Nat.le_div_iff_mul_le hpos]
  omega

/-- The copies are the cells of the request. -/
theorem firstCells_copies_iff (hr : r.Fits size) :
    r.firstCells (r.copies size) = r.cells ↔ r.Even ∨ r.CutShort size := by
  cases hs : r.segments with
  | nil =>
    have heven : r.Even := fun s h => absurd (hs ▸ h) List.not_mem_nil
    have hnil : r.firstCells (r.copies size) = r.cells := by
      unfold Request.firstCells Request.cells
      rw [hs, List.take_nil]
      rfl
    exact ⟨fun _ => .inl heven, fun _ => hnil⟩
  | cons s l =>
    have hroom := hr.room
    have hpos : 0 < r.chunk := hr.chunk_eq hs ▸ hr.len_pos s (hs ▸ List.mem_cons_self)
    constructor
    · intro h
      by_cases hall : r.segments.length ≤ r.copies size
      · left
        unfold Request.firstCells at h
        rw [List.take_of_length_le hall] at h
        exact rows_inj Segment.buffer Segment.len hpos r.segments hr.len_pos h
      · right
        obtain ⟨hle, hlt⟩ :=
          (copies_eq_iff hpos (show r.pos * sectSize ≤ size by omega) _).mp rfl
        exact ⟨r.copies size, by omega, hle, hlt, h⟩
    · rintro (heven | ⟨k, -, hle, hlt, hcells⟩)
      · unfold Request.firstCells
        rw [List.take_of_length_le (heven.length_le hr hpos)]
        refine List.flatMap_congr fun s hs => ?_
        rw [heven s hs]
      · rw [(copies_eq_iff hpos (by omega) k).mpr ⟨hle, hlt⟩]
        exact hcells

/-- The requests that the version of `day1` serves. -/
def Request.Good (size : Nat) (r : Request) : Prop := r.Fits size ∧ (r.Even ∨ r.CutShort size)

theorem Request.Good.served (hr : r.Good size) (m : Ram) :
    r.Served m (myramdiskQueueRq size r m).2 := by
  rw [myramdiskQueueRq_eq hr.1]
  exact (served_transfer_iff hr.1 _).mpr ((firstCells_copies_iff hr.1).mpr hr.2) m

/-- Which of them is reported as served: one that the device does not cut short. -/
theorem Request.Good.status_iff (hr : r.Good size) (m : Ram) :
    (myramdiskQueueRq size r m).1 = .ok ↔ r.Even := by
  have hpos : ∀ s ∈ r.segments, 0 < r.chunk := fun s hs => by
    cases hsegs : r.segments with
    | nil => rw [hsegs] at hs; cases hs
    | cons t l => exact hr.1.chunk_eq hsegs ▸ hr.1.len_pos t (hsegs ▸ List.mem_cons_self)
  rw [myramdiskQueueRq_eq hr.1]
  show statusFor _ _ = _ ↔ _
  constructor
  · intro h
    refine hr.2.resolve_right ?_
    rintro ⟨k, hk, hle, hlt, -⟩
    have hchunk := hpos _ (List.getElem_mem hk)
    rw [(copies_eq_iff hchunk (by omega) k).mpr ⟨hle, hlt⟩, statusFor, if_neg (by omega)] at h
    cases h
  · intro heven
    cases hsegs : r.segments with
    | nil => exact statusFor_zero _
    | cons t l =>
      rw [← hsegs]
      exact if_pos (heven.length_le hr.1 (hpos t (hsegs ▸ List.mem_cons_self)))

/-! ## Runs -/

/-- The data of the device after a sequence of requests, each with the memory it finds. -/
def dataAfter (size : Nat) : (Nat → UInt8) → List (Request × (Nat → UInt8)) → Nat → UInt8
  | data, [] => data
  | data, (r, mem) :: rs => dataAfter size (myramdiskQueueRq size r ⟨data, mem⟩).2.data rs

/-- What the request writes at the byte `p` of the device, if it does. -/
def Request.writes (r : Request) (mem : Nat → UInt8) (p : Nat) : Option UInt8 :=
  if r.write ∧ r.pos * sectSize ≤ p then (r.cells.map mem)[p - r.pos * sectSize]? else none

/-- What the requests last wrote at the byte `p`, if one did. -/
def lastWritten (p : Nat) : List (Request × (Nat → UInt8)) → Option UInt8
  | [] => none
  | (r, mem) :: rs => (lastWritten p rs).or (r.writes mem p)

/-- One request changes what it writes. -/
theorem Request.Good.data_eq (hr : r.Good size) (m : Ram) (p : Nat) :
    (myramdiskQueueRq size r m).2.data p = (r.writes m.memory p).getD (m.data p) := by
  have hserved := hr.served m
  unfold Request.Served at hserved
  unfold Request.writes
  cases hw : r.write with
  | true =>
    rw [hw, if_pos rfl] at hserved
    rw [hserved.1, overwrite]
    by_cases hp : r.pos * sectSize ≤ p
    · rw [if_pos hp, if_pos ⟨rfl, hp⟩]
    · rw [if_neg hp, if_neg (fun h => hp h.2)]
      rfl
  | false =>
    rw [hw, if_neg Bool.false_ne_true] at hserved
    rw [hserved.1, if_neg (fun h => Bool.false_ne_true h.1)]
    rfl

/-- **After requests that are served** the device holds what was last written. -/
theorem dataAfter_eq (p : Nat) (rs : List (Request × (Nat → UInt8))) :
    ∀ data : Nat → UInt8, (∀ e ∈ rs, e.1.Good size) →
      dataAfter size data rs p = (lastWritten p rs).getD (data p) := by
  induction rs with
  | nil => exact fun _ _ => rfl
  | cons e rs ih =>
    intro data hgood
    obtain ⟨r, mem⟩ := e
    have hr : r.Good size := hgood (r, mem) List.mem_cons_self
    rw [dataAfter, ih _ fun e he => hgood e (List.mem_cons_of_mem _ he), hr.data_eq,
      lastWritten]
    cases lastWritten p rs with
    | none => rfl
    | some b => rfl

/-- **The RAM disk**: a request is served right for every content exactly if its segments have
one length, or the device ends in time, and only the former is reported as served; and in a run
of such requests a read returns what was last written. -/
theorem myramdisk_serves_iff (size : Nat) :
    (∀ r : Request, r.Fits size →
      ((∀ m, r.Served m (myramdiskQueueRq size r m).2) ↔ r.Even ∨ r.CutShort size) ∧
      ((∀ m, (myramdiskQueueRq size r m).1 = .ok ∧ r.Served m (myramdiskQueueRq size r m).2) ↔
        r.Even)) ∧
    ∀ (data : Nat → UInt8) (rs : List (Request × (Nat → UInt8))), (∀ e ∈ rs, e.1.Good size) →
      ∀ (r : Request) (mem : Nat → UInt8), r.Good size → r.write = false →
        ∀ x a : Nat, r.cells[x]? = some a →
        (myramdiskQueueRq size r ⟨dataAfter size data rs, mem⟩).2.memory a =
          (lastWritten (r.pos * sectSize + x) rs).getD (data (r.pos * sectSize + x)) := by
  constructor
  · intro r hr
    have hserved : (∀ m, r.Served m (myramdiskQueueRq size r m).2) ↔
        r.Even ∨ r.CutShort size := by
      rw [← firstCells_copies_iff hr, ← served_transfer_iff hr]
      exact forall_congr' fun m => by rw [myramdiskQueueRq_eq hr]
    refine ⟨hserved, fun h => ?_, fun heven m => ?_⟩
    · have hgood : r.Good size := ⟨hr, hserved.mp fun m => (h m).2⟩
      exact (hgood.status_iff ⟨fun _ => 0, fun _ => 0⟩).mp (h _).1
    · have hgood : r.Good size := ⟨hr, .inl heven⟩
      exact ⟨(hgood.status_iff m).mpr heven, hgood.served m⟩
  · intro data rs hgood r mem hr hread x a hx
    have hserved := hr.served ⟨dataAfter size data rs, mem⟩
    unfold Request.Served at hserved
    rw [hread, if_neg Bool.false_ne_true] at hserved
    rw [hserved.2.1 x a hx]
    exact dataAfter_eq _ rs data hgood

/-- The size of the device: `sampleblk_sect_size * sampleblk_nsects`. -/
def diskSize : Nat := sectSize * (10 * 1024)

/-- A request for sectors 0 and on with segments of these lengths, each at the start of a
page. -/
def pageRequest (write : Bool) (lens : List Nat) : Request :=
  ⟨write, 0, (lens.zipIdx 0).map fun e => ⟨e.2 * 4096, e.1⟩⟩

theorem pageRequest_fits (write : Bool) {k l : Nat} (hk : 0 < k ∧ k ≤ 4096 ∧ sectSize ∣ k)
    (hl : 0 < l ∧ l ≤ 4096 ∧ sectSize ∣ l) : (pageRequest write [k, l]).Fits diskSize where
  size_lt := by decide
  len_pos := by simp [pageRequest, hk, hl]
  len_dvd := by simp [pageRequest, hk, hl]
  room := by
    have hlen : (pageRequest write [k, l]).cells.length = k + l := by
      simp [Request.cells, pageRequest]
    have hpos : (pageRequest write [k, l]).pos * sectSize = 0 := Nat.zero_mul _
    have hsize : diskSize = 5242880 := rfl
    rw [hlen, hpos, hsize, Nat.zero_add]
    omega
  apart := by
    intro _
    simp only [Request.cells, pageRequest, List.zipIdx_cons, List.zipIdx_nil, List.map_cons,
      List.map_nil, List.flatMap_cons, List.flatMap_nil, List.append_nil]
    refine List.nodup_append'.mpr ⟨List.nodup_range', List.nodup_range', ?_⟩
    intro a ha hb
    simp only [List.mem_range'_1] at ha hb
    omega

theorem pageRequest_even (write : Bool) (k : Nat) (hk : sectSize ∣ k) :
    (pageRequest write [k, k]).Even := by
  have hchunk : (pageRequest write [k, k]).chunk = k := Nat.div_mul_cancel hk
  intro s hs
  rw [hchunk]
  simp only [pageRequest, List.zipIdx_cons, List.zipIdx_nil, List.map_cons, List.map_nil,
    List.mem_cons, List.not_mem_nil, or_false] at hs
  rcases hs with rfl | rfl
  · rfl
  · rfl

/-- Two pages are written, and read back. -/
theorem myramdisk_serves_pages :
    (∀ m, (myramdiskQueueRq diskSize (pageRequest true [4096, 4096]) m).1 = .ok ∧
      (pageRequest true [4096, 4096]).Served m
        (myramdiskQueueRq diskSize (pageRequest true [4096, 4096]) m).2) ∧
    ∀ data mem mem' : Nat → UInt8, (myramdiskQueueRq diskSize (pageRequest false [4096, 4096])
      ⟨dataAfter diskSize data [(pageRequest true [4096, 4096], mem)],
        mem'⟩).2.memory 0 = mem 0 := by
  have hfits := fun write => pageRequest_fits write (k := 4096) (l := 4096)
    (by decide) (by decide)
  have heven := fun write => pageRequest_even write 4096 (by decide)
  have hone := (myramdisk_serves_iff diskSize).1
  have hrun := (myramdisk_serves_iff diskSize).2
  have hcell : ∀ write, (pageRequest write [4096, 4096]).cells[0]? = some 0 := by decide +kernel
  refine ⟨(hone _ (hfits true)).2.mpr (heven true), fun data mem mem' => ?_⟩
  have hwritten : (pageRequest true [4096, 4096]).writes mem 0 = some (mem 0) := by
    have hpos : (pageRequest true [4096, 4096]).pos * sectSize = 0 := rfl
    rw [Request.writes, hpos, if_pos ⟨rfl, Nat.le_refl 0⟩, List.getElem?_map, hcell]
    rfl
  have hread := hrun data [(pageRequest true [4096, 4096], mem)]
    (fun e he => List.mem_singleton.mp he ▸ ⟨hfits true, .inl (heven true)⟩) (pageRequest false
    [4096, 4096]) mem' ⟨hfits false, .inl (heven false)⟩ rfl 0 0 (hcell false)
  rw [hread, lastWritten, show (pageRequest false [4096, 4096]).pos * sectSize + 0 = 0 from rfl,
    hwritten]
  rfl

/-- **Segments of two lengths**: a write of 512 and 1024 bytes loses the last 512, and a read of
1024 and 512 bytes writes over the memory behind the second segment. -/
theorem myramdisk_mixed :
    ((pageRequest true [512, 1024]).Fits diskSize ∧
      ¬ ∀ m, (pageRequest true [512, 1024]).Served m
        (myramdiskQueueRq diskSize (pageRequest true [512, 1024]) m).2) ∧
    (pageRequest false [1024, 512]).Fits diskSize ∧
      ¬ ∀ m, (pageRequest false [1024, 512]).Served m
        (myramdiskQueueRq diskSize (pageRequest false [1024, 512]) m).2 := by
  refine ⟨⟨pageRequest_fits true (by decide) (by decide), fun h => ?_⟩,
    pageRequest_fits false (by decide) (by decide), fun h => ?_⟩
  · have hlost := congrFun (h ⟨fun _ => 0, fun _ => 1⟩).1 1024
    exact absurd hlost (by decide +kernel)
  · have hover := (h ⟨fun _ => 1, fun _ => 0⟩).2.2 4608 (by decide +kernel)
    exact absurd hover (by decide +kernel)

end BpfExamples.Lktm
