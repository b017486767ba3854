import Gray386.Floppy.Controller
import Gray386.Floppy.Overhang

/-!
# Disks with sectors of 512 bytes

On most disks a sector of the controller is a block. A request is then never refused: its
blocks are in the track buffer, or there is a command for some of them. The data of a command
goes to the buffer of the request, or through the track buffer behind what it holds.

The controller finds the blocks of a command by counting, up to the end of a side at least.
Only a read goes on to the second side, and only where the numbers of the sectors begin with 1
and the sides are not exchanged.
-/

namespace Gray386.Floppy

open Gray386.Machine

/--
At most two sides, with sectors of 512 bytes. Their numbers begin with 0 or 1, or else they
are all larger than the number of sectors, with which the controller compares them.
-/
structure Plain (floppy : FloppyStruct) : Prop extends SmallGeometry floppy where
  code : floppy.sizecode = 2
  not2m : floppy.is2m = false
  heads_le : floppy.head.toNat ≤ 2
  tracks_pos : 0 < floppy.track.toNat
  tracks_lt : floppy.track.toNat < 256
  numbers : floppy.sectbase.toNat ≤ 1 ∨
    floppy.sects < floppy.sectbase.toNat ∧ floppy.sects + floppy.sectbase.toNat < 256

/-- The formats of the driver that have sectors of 512 bytes. -/
theorem floppyTypes_plain : ∀ floppy ∈ floppyTypes.toList.tail, floppy.sizecode = 2 →
    Plain floppy := by
  have checked : ∀ floppy ∈ floppyTypes.toList.tail, floppy.sizecode = 2 →
      (0 < floppy.sects ∧ 0 < floppy.head.toNat ∧ floppy.cylinder ≤ 255) ∧
        floppy.is2m = false ∧ floppy.head.toNat ≤ 2 ∧ 0 < floppy.track.toNat ∧
        floppy.track.toNat < 256 ∧ floppy.sectbase.toNat ≤ 1 := by
    decide
  intro floppy mem code
  rcases checked floppy mem code with
    ⟨⟨sects, heads, cylinder⟩, not2m, heads_le, tracks_pos, tracks_lt, numbers⟩
  exact ⟨⟨sects, heads, cylinder⟩, code, not2m, heads_le, tracks_pos, tracks_lt, Or.inl numbers⟩

/-- The track buffer is allocated and has room for what it holds. -/
structure BufferState.Roomy (buffer : BufferState) : Prop extends buffer.Valid where
  opened : buffer.maxBufferSectors ≠ 0
  within : buffer.bufferMax ≤ 2 * buffer.maxBufferSectors + buffer.bufferMin

/-- The track buffer when it has just been allocated. -/
theorem roomy_openedBuffer : openedBuffer.Roomy :=
  ⟨⟨by decide, by decide, by decide, by decide, by decide⟩, by decide, by decide⟩

/-- The data of a request does not begin in the track buffer. -/
def Request.Outside (req : Request) (buffer : BufferState) : Prop :=
  (req.buffer.toNat : Int) < buffer.floppyTrackBuffer.toNat ∨
    buffer.floppyTrackBuffer.toNat + buffer.maxBufferSectors * 1024 ≤ (req.buffer.toNat : Int)

/-- The track buffer when it is to hold blocks from `fsector_t` on. -/
inductive Readied (input : RwInput) (buffer : BufferState) (layout : Layout) : BufferState → Prop
  | claimed : Readied input buffer layout { buffer with
      bufferTrack := -1
      bufferDrive := input.currentDrive.toInt
      bufferMin := layout.fsectorT
      bufferMax := layout.fsectorT }
  | kept (track_eq : buffer.bufferTrack = layout.cmd.seekTrack)
      (drive_eq : buffer.bufferDrive = input.currentDrive.toInt)
      (min_le : buffer.bufferMin ≤ layout.fsectorT) (le_max : layout.fsectorT ≤ buffer.bufferMax) :
      Readied input buffer layout buffer

namespace Layout

variable (layout : Layout)

/-- The command as it is started. -/
def started (length : Int) : Layout :=
  { layout with cmd := virtualdmabugWorkaround layout.cmd length }

end Layout

/-- Where a block is in the track buffer. -/
def BufferState.addressOf (buffer : BufferState) (block : Int) : Int :=
  buffer.floppyTrackBuffer.toNat + (block - buffer.bufferMin) * 512

/-- What `make_raw_rw_request` decides. -/
inductive Plan (input : RwInput) (buffer : BufferState) (req : Request) (layout : Layout) :
    RwOutcome → BufferState → Prop
  | held {stop : Int} (reads : layout.reads = true) (here : inBuffer input buffer layout = true)
      (stop_eq : stop = min (min layout.maxSector buffer.bufferMax)
        (layout.fsectorT + req.sectors)) :
      Plan input buffer req layout
        (.copied layout ⟨stop - layout.fsectorT, buffer.bufferMax,
          copySegments buffer true req.segments ((stop - layout.fsectorT) * 512)
            (buffer.addressOf layout.fsectorT)⟩) buffer
  | straight {count : Int} (absent : inBuffer input buffer layout = false) (some : 0 < count)
      (le : layout.fsectorT + count ≤ layout.maxSector)
      (within : InRequest input req req.buffer.toNat (count * 512)) :
      Plan input buffer req layout
        (.programmed (layout.started (count * 512)) req.buffer.toNat (count * 512) count []) buffer
  | load {ready : BufferState} {stop : Int} (reads : layout.reads = true)
      (absent : inBuffer input buffer layout = false) (readied : Readied input buffer layout ready)
      (some : layout.fsectorT < stop)
      (stop_eq : stop = min layout.maxSector (2 * ready.maxBufferSectors + ready.bufferMin)) :
      Plan input buffer req layout
        (.programmed (layout.started ((stop - layout.fsectorT) * 512))
          (ready.addressOf layout.fsectorT) ((stop - layout.fsectorT) * 512)
          (stop - layout.fsectorT) []) ready
  | store {ready : BufferState} {stop : Int} (writes : layout.writes = true)
      (readied : Readied input buffer layout ready) (some : layout.fsectorT < stop)
      (stop_eq : stop = min (min layout.maxSector (2 * ready.maxBufferSectors + ready.bufferMin))
        (layout.fsectorT + req.sectors)) :
      Plan input buffer req layout
        (.programmed (layout.started ((stop - layout.fsectorT) * 512))
          (ready.addressOf layout.fsectorT) ((stop - layout.fsectorT) * 512)
          (stop - layout.fsectorT)
          (copySegments ready false req.segments ((stop - layout.fsectorT) * 512)
            (ready.addressOf layout.fsectorT)))
        { ready with
          bufferTrack := layout.cmd.seekTrack
          bufferDrive := input.currentDrive.toInt
          bufferMax := max stop ready.bufferMax }

section Plan

variable {floppy : FloppyStruct} {input : RwInput} {buffer ready : BufferState} {req : Request}
  {layout : Layout}

namespace Reach

theorem offset_zero (reach : Reach floppy.sects layout 0) : layout.inSectorOffset = 0 := by
  simpa using reach.offset

theorem ssize_one (reach : Reach floppy.sects layout 0) : layout.ssize = 1 := by
  simpa using reach.ssize

theorem aligned_eq (reach : Reach floppy.sects layout 0) :
    layout.alignedSectorT = layout.fsectorT := by
  rw [Layout.alignedSectorT, reach.offset_zero, Int.sub_zero]

theorem transferSize_plain (reach : Reach floppy.sects layout 0) (sects_pos : 0 < floppy.sects)
    {maxSector maxSize : Int} (maxSector_nonneg : 0 ≤ maxSector) (maxSector_le : maxSector ≤ 255)
    (size_ge : 0 ≤ layout.fsectorT + maxSize) (size_lt : layout.fsectorT + maxSize < 2147483648) :
    transferSize floppy.sects layout.fsectorT layout.ssize maxSector maxSize =
      .ok (min maxSector (layout.fsectorT + maxSize)) := by
  rw [reach.transferSize_eq_cut sects_pos maxSector_nonneg maxSector_le size_ge size_lt]
  simp

end Reach

theorem Readied.spec (reach : Reach floppy.sects layout 0) (roomy : buffer.Roomy)
    (readied : Readied input buffer layout ready) :
    ready.floppyTrackBuffer = buffer.floppyTrackBuffer ∧
      ready.maxBufferSectors = buffer.maxBufferSectors ∧ -1 ≤ ready.bufferMin ∧
      ready.bufferMin ≤ layout.fsectorT ∧ layout.fsectorT ≤ ready.bufferMax ∧
      ready.bufferMax ≤ 2 * ready.maxBufferSectors + ready.bufferMin := by
  have nonneg := reach.nonneg
  have size := roomy.size
  have min_ge := roomy.min_ge
  cases readied with
  | claimed => exact ⟨rfl, rfl, by simp only; omega, le_rfl, le_rfl, by simp only; omega⟩
  | kept track_eq drive_eq min_le le_max => exact ⟨rfl, rfl, min_ge, min_le, le_max, roomy.within⟩

/-- It is claimed if there is no room behind what it holds. -/
theorem claimBuffer_readied (input : RwInput) (reach : Reach floppy.sects layout 0)
    (roomy : buffer.Roomy)
    {maxSize : Int} (size_pos : 0 < maxSize) (size_lt : maxSize < 8388608)
    (sectors_pos : 0 < req.sectors) :
    let ready := claimBuffer input buffer req layout maxSize
    Readied input buffer layout ready ∧
      layout.fsectorT < 2 * ready.maxBufferSectors + ready.bufferMin ∧
      (layout.maxSector ≤ 2 * ready.maxBufferSectors + ready.bufferMin ∨
        maxSize + layout.fsectorT ≤ 2 * ready.maxBufferSectors + ready.bufferMin ∨
        ready.bufferMin = layout.fsectorT) := by
  have nonneg := reach.nonneg
  have lt := reach.lt
  have le := reach.le
  have size := roomy.size
  have opened := roomy.opened
  have min_ge := roomy.min_ge
  intro ready
  cases claims : claimsBuffer input buffer req layout maxSize with
  | true =>
      have ready_eq : ready = { buffer with
          bufferTrack := -1
          bufferDrive := input.currentDrive.toInt
          bufferMin := layout.fsectorT
          bufferMax := layout.fsectorT } := by
        simp only [ready, claimBuffer, claims, if_true, reach.aligned_eq]
      rw [ready_eq]
      exact ⟨.claimed, by simp only; omega, Or.inr (Or.inr rfl)⟩
  | false =>
      have ready_eq : ready = buffer := by
        simp only [ready, claimBuffer, claims, Bool.false_eq_true, if_false]
      rcases claimsBuffer_eq_false_iff.mp claims with ⟨track_eq, drive_eq, le_max, min_le, space⟩
      rw [int32_of_bounds (x := 2 * _ + _) (by omega) (by omega),
        int32_of_bounds (by omega) (by omega)] at space
      have fits := space (Or.inr ⟨reach.offset_zero, by rw [reach.ssize_one]; omega⟩)
      rw [ready_eq]
      exact ⟨.kept track_eq drive_eq min_le le_max, by omega, by omega⟩

/-- The checks at the end find nothing wrong. -/
theorem finish_plain (after : BufferState) (reach : Reach floppy.sects layout 0)
    (roomy : buffer.Roomy) (outside : req.Outside buffer)
    (readied : Readied input buffer layout ready)
    (base_eq : after.floppyTrackBuffer = ready.floppyTrackBuffer)
    (size_eq : after.maxBufferSectors = ready.maxBufferSectors)
    (min_eq : after.bufferMin = ready.bufferMin) {stop : Int} (some : layout.fsectorT < stop)
    (stop_le : stop ≤ 2 * ready.maxBufferSectors + ready.bufferMin) (stop_lt : stop ≤ 255)
    (kept : layout.writes = true → stop ≤ after.bufferMax) (copies : List SegmentCopy) :
    finish after req layout (ready.addressOf layout.fsectorT) (stop - layout.fsectorT) copies =
      .ok (.programmed (layout.started ((stop - layout.fsectorT) * 512))
        (ready.addressOf layout.fsectorT) ((stop - layout.fsectorT) * 512)
        (stop - layout.fsectorT) copies) := by
  rcases readied.spec reach roomy with ⟨ready_base, ready_size, min_ge, min_le, le_max, within⟩
  have nonneg := reach.nonneg
  have aligned := reach.aligned_eq
  have room := roomy.room
  have size := roomy.size
  have base_ge := roomy.base_ge
  have proper : layout.Proper := ⟨reach.ssize ▸ two_pow_pos 0, reach.code_le⟩
  have bytes_bounds := sectorBytes_bounds proper
  have whole : (2 : Int) ^ 0 ∣ stop - layout.alignedSectorT := ⟨_, (one_mul _).symm⟩
  have length_eq := reach.dmaLength_whole whole some stop_lt
  have even := reach.bytes_whole whole
  rw [aligned] at length_eq even
  have address_eq : ready.addressOf layout.fsectorT =
      buffer.floppyTrackBuffer.toNat + (layout.fsectorT - ready.bufferMin) * 512 := by
    rw [BufferState.addressOf, ready_base]
  have elsewhere : ready.addressOf layout.fsectorT ≠ req.buffer.toNat := by
    rw [Request.Outside] at outside
    rw [address_eq]
    omega
  have code_lt : layout.cmd.sizecode.toNat < 32 := by
    have := reach.code_le
    omega
  simp only [finish, length_eq, aligned]
  rw [Nat.mod_eq_of_lt code_lt] at bytes_bounds ⊢
  rw [if_neg, int32_of_bounds (x := 128 * _) (by omega) (by omega),
    idiv_of_pos (by omega) (by omega), ok_bind]
  · simp only [even]
    rw [accept, if_neg, if_neg, if_neg, if_neg]
    · rfl
    · omega
    · simp [elsewhere]
    · rw [BufferState.limit, base_eq, size_eq, ready_base, ready_size,
        uint32_of_bounds (by omega) (by omega),
        uint32_of_bounds (by omega) (by omega)]
      simp
      omega
    · simp
      omega
  · rw [int32_of_bounds (by omega) (by omega)]
    cases writing : layout.writes with
    | false => simp
    | true =>
        have := kept writing
        simp
        omega

theorem addressOf_eq (reach : Reach floppy.sects layout 0) (roomy : buffer.Roomy)
    (readied : Readied input buffer layout ready) :
    uint32 (ready.floppyTrackBuffer.toNat + (layout.fsectorT - ready.bufferMin) * 512) =
      ready.addressOf layout.fsectorT := by
  have base_ge := roomy.base_ge
  have room := roomy.room
  rcases readied.spec reach roomy with ⟨base_eq, size_eq, min_ge, min_le, le_max, within⟩
  rw [BufferState.addressOf, base_eq]
  exact uint32_of_bounds (by omega) (by omega)

theorem throughBuffer_load (reach : Reach floppy.sects layout 0) (sects_pos : 0 < floppy.sects)
    (roomy : buffer.Roomy) (formed : req.WellFormed) (outside : req.Outside buffer)
    (reads : layout.reads = true) (absent : inBuffer input buffer layout = false) (maxSize : Int) :
    ∃ outcome after, throughBuffer floppy input buffer req layout maxSize = .ok (outcome, after) ∧
      Plan input buffer req layout outcome after := by
  have nonneg := reach.nonneg
  have lt := reach.lt
  have le := reach.le
  have size := roomy.size
  rcases claimBuffer_readied input reach roomy (by omega : 0 < layout.maxSector)
    (by omega) formed.sectors_pos with ⟨readied, some, fits⟩
  unfold throughBuffer
  simp only [reads, if_true, Layout.writes_of_reads reads, Bool.false_eq_true, if_false,
    reach.aligned_eq]
  generalize claimBuffer input buffer req layout layout.maxSector = ready at *
  rcases readied.spec reach roomy with ⟨base_eq, size_eq, min_ge, min_le, le_max, within⟩
  rw [int32_of_bounds (x := 2 * _ + _) (by omega) (by omega),
    int32_of_bounds (x := _ - layout.fsectorT) (by omega) (by omega),
    reach.transferSize_plain sects_pos (by omega) le (by omega) (by omega), ok_bind,
    add_sub_cancel, addressOf_eq reach roomy readied, int32_of_bounds (by omega) (by omega),
    finish_plain ready reach roomy outside readied rfl rfl rfl (by omega)
      (min_le_right _ _) (by omega) (by simp [Layout.writes_of_reads reads]), ok_bind]
  exact ⟨_, _, rfl, .load reads absent readied (by omega) rfl⟩

/-- The copies do not depend on what the track buffer is said to hold. -/
theorem copySegments_renamed (buffer : BufferState) (track drive : Int) (reads : Bool)
    (segments : List Segment) (remaining dmaBuffer : Int) :
    copySegments { buffer with bufferTrack := track, bufferDrive := drive } reads segments
        remaining dmaBuffer =
      copySegments buffer reads segments remaining dmaBuffer := by
  induction segments generalizing remaining dmaBuffer with
  | nil => rfl
  | cons segment rest ih => simp only [copySegments, ih]

/-- `copy_buffer`, for blocks. -/
theorem copyBuffer_plain (reach : Reach floppy.sects layout 0) (sects_pos : 0 < floppy.sects)
    (sectors_pos : 0 < req.sectors) {limit : Int} (lt : layout.fsectorT < limit)
    (le : limit ≤ 255) :
    let stop := min limit (layout.fsectorT + req.sectors)
    copyBuffer floppy.sects buffer req layout 1 limit = .ok {
      currentCountSectors := stop - layout.fsectorT
      bufferMax := max stop buffer.bufferMax
      copies := copySegments buffer layout.reads req.segments ((stop - layout.fsectorT) * 512)
        (uint32 (buffer.floppyTrackBuffer.toNat +
          (layout.fsectorT - buffer.bufferMin) * 512)) } := by
  intro stop
  have nonneg := reach.nonneg
  have sectors_lt := req.sectors_lt
  have ssize := reach.ssize_one
  have positive : decide (stop - layout.fsectorT ≤ 0) = false := decide_eq_false (by omega)
  rw [← ssize, copyBuffer,
    reach.transferSize_plain sects_pos (by omega) (by omega) (by omega) (by omega), ok_bind,
    int32_of_bounds (x := stop - _) (by omega) (by omega)]
  simp only [positive, Bool.false_and, Bool.false_eq_true, if_false]
  rw [int32_of_bounds (by omega) (by omega)]
  rfl

theorem throughBuffer_store (reach : Reach floppy.sects layout 0) (sects_pos : 0 < floppy.sects)
    (roomy : buffer.Roomy) (formed : req.WellFormed) (outside : req.Outside buffer)
    (reads : layout.reads = false) (writes : layout.writes = true) :
    ∃ outcome after,
      throughBuffer floppy input buffer req layout req.sectors = .ok (outcome, after) ∧
        Plan input buffer req layout outcome after := by
  have nonneg := reach.nonneg
  have lt := reach.lt
  have le := reach.le
  have size := roomy.size
  have sectors_pos := formed.sectors_pos
  have sectors_lt := req.sectors_lt
  have ssize := reach.ssize_one
  rcases claimBuffer_readied input reach roomy sectors_pos sectors_lt sectors_pos with
    ⟨readied, some, fits⟩
  unfold throughBuffer
  simp only [reads, writes, if_true, Bool.false_eq_true, if_false, reach.aligned_eq, ssize]
  generalize claimBuffer input buffer req layout req.sectors = ready at *
  rcases readied.spec reach roomy with ⟨base_eq, size_eq, min_ge, min_le, le_max, within⟩
  rw [int32_of_bounds (x := 2 * _ + _) (by omega) (by omega),
    copyBuffer_plain reach sects_pos sectors_pos (by omega) (by omega), ok_bind]
  simp only [addressOf_eq reach roomy readied, reads]
  rw [copySegments_renamed]
  generalize stop_eq : min (min layout.maxSector
    (2 * ready.maxBufferSectors + ready.bufferMin)) (layout.fsectorT + req.sectors) = stop
  rw [finish_plain { ready with
      bufferTrack := layout.cmd.seekTrack
      bufferDrive := input.currentDrive.toInt
      bufferMax := max stop ready.bufferMax } reach roomy outside readied rfl rfl rfl (by omega)
    (by omega) (by omega) (fun _ => le_max_left _ _), ok_bind]
  exact ⟨_, _, rfl, .store writes readied (by omega) stop_eq.symm⟩

theorem direct_plan (reach : Reach floppy.sects layout 0) (sects_pos : 0 < floppy.sects)
    (roomy : buffer.Roomy) (formed : req.WellFormed)
    (absent : inBuffer input buffer layout = false)
    (below : (req.buffer.toNat : Int) < maxDmaAddress)
    (through : ∃ outcome after,
      throughBuffer floppy input buffer req layout req.sectors = .ok (outcome, after) ∧
        Plan input buffer req layout outcome after) :
    ∃ outcome after, direct floppy input buffer req layout = .ok (outcome, after) ∧
      Plan input buffer req layout outcome after := by
  have nonneg := reach.nonneg
  have lt := reach.lt
  have le := reach.le
  have size := roomy.size
  rcases directLimit_spec input formed below with ⟨limit_nonneg, limit_lt, within⟩
  unfold direct
  simp only
  rw [int32_of_bounds (x := buffer.maxBufferSectors * 2) (by omega) (by omega),
    reach.transferSize_plain sects_pos (by omega) le (by omega) (by omega), ok_bind,
    reach.transferSize_plain sects_pos (by omega) le (by omega) (by omega), ok_bind]
  generalize stop_eq : min layout.maxSector (layout.fsectorT + directLimit input req) = stop
  rw [int32_of_bounds (x := stop - _) (by omega) (by omega),
    int32_of_bounds (x := (stop - _) * 512) (by omega) (by omega)]
  split_ifs with indirect none
  · exact through
  · have zero : stop - layout.fsectorT = 0 := by omega
    simp [zero] at indirect
  · exact ⟨_, _, rfl, .straight absent (by omega) (by omega)
      (within _ (by omega) (by omega) (by omega))⟩

/-- A request for blocks is not refused. -/
theorem transfer_plan (reach : Reach floppy.sects layout 0) (sects_pos : 0 < floppy.sects)
    (roomy : buffer.Roomy) (formed : req.WellFormed) (outside : req.Outside buffer)
    (kind : layout.reads = true ∨ layout.reads = false ∧ layout.writes = true) :
    ∃ outcome after, transfer floppy input buffer req layout = .ok (outcome, after) ∧
      Plan input buffer req layout outcome after := by
  have nonneg := reach.nonneg
  have sectors_pos := formed.sectors_pos
  have ssize := reach.ssize_one
  have offset := reach.offset_zero
  have through (absent : layout.reads = true → inBuffer input buffer layout = false) :
      ∃ outcome after,
        throughBuffer floppy input buffer req layout req.sectors = .ok (outcome, after) ∧
          Plan input buffer req layout outcome after := by
    rcases kind with reads | ⟨reads, writes⟩
    · exact throughBuffer_load reach sects_pos roomy formed outside reads (absent reads) _
    · exact throughBuffer_store reach sects_pos roomy formed outside reads writes
  unfold transfer
  split_ifs with here reads part below
  · have le := reach.le
    have lt := reach.lt
    have inside := here
    simp only [inBuffer, Bool.and_eq_true, decide_eq_true_eq] at inside
    rw [copyBuffer_plain reach sects_pos sectors_pos (by omega) (by omega), ok_bind, reads,
      max_eq_right (by omega)]
    have kept : Readied input buffer layout buffer :=
      .kept inside.1.1.1.symm inside.1.1.2.symm inside.1.2 (by omega)
    rw [addressOf_eq reach roomy kept]
    exact ⟨_, _, rfl, .held reads here rfl⟩
  · exact through fun reading => absurd reading reads
  · simp only [offset, ssize, ne_eq, not_true_eq_false, decide_false, Bool.false_or,
      decide_eq_true_eq] at part
    omega
  · simp only [Bool.not_eq_true] at here
    exact direct_plan reach sects_pos roomy formed here below (through fun _ => here)
  · simp only [Bool.not_eq_true] at here
    exact through fun _ => here

end Plan

end Gray386.Floppy
