import Gray386.Floppy.Window

/-!
# Windows in front of the track buffer

If what is in the track buffer begins inside a sector of the controller, and a command goes on
with it, the window for this sector begins in front of the track buffer. The checks at the end
refuse it, unless the buffer of the request happens to begin at the same address. The length is
then compared with that of the whole request, but the request need not be contiguous.

Nothing else goes wrong. A read of what is held needs no command, and every other command
either has the sector in the track buffer or goes straight to the request.
-/

namespace Gray386.Floppy

open Gray386.Machine

namespace FloppyStruct

variable (floppy : FloppyStruct) (pos : Word)

def trackAt : Int := uchar (pos.toNat / floppy.cylinder)

def sectorAt : Int := pos.toNat % floppy.cylinder

/-- The size of the sector of the controller there. -/
def shiftAt : Nat :=
  blockShift floppy (floppy.trackAt pos) (floppy.sectorAt pos / floppy.sects)
    (floppy.sectorAt pos % floppy.sects)

/-- The first block in the sector of the controller. -/
def startAt : Int :=
  floppy.sectorAt pos - floppy.sectorAt pos % floppy.sects % 2 ^ floppy.shiftAt pos

end FloppyStruct

/-- `max_sector` for a request. -/
def Request.limitAt (req : Request) (floppy : FloppyStruct) (input : RwInput) : Int :=
  let track := floppy.trackAt req.pos
  let head := floppy.sectorAt req.pos / floppy.sects
  runLimit floppy input req track head (floppy.sectorAt req.pos)
    (decide (floppy.sects % 2 ^ (sectorCode floppy track head - 2) ≠ 0))
    (int32 (floppy.sects - floppy.sects % 2 ^ floppy.shiftAt req.pos))

/--
Where a command ends that goes on with what is in the track buffer: a write with the last
sector that there is room for, and what is read with the last one that can be reached.
-/
def windowEnd (sects : Int) (buffer : BufferState) (req : Request)
    (fsectorT ssize maxSector : Int) : Int :=
  if fsectorT < buffer.bufferMax then
    let reached := min (min maxSector (2 * buffer.maxBufferSectors + buffer.bufferMin))
      (fsectorT + req.sectors)
    reached - reached % sects % ssize
  else maxSector

def Request.endAt (req : Request) (floppy : FloppyStruct) (input : RwInput)
    (buffer : BufferState) : Int :=
  windowEnd floppy.sects buffer req (floppy.sectorAt req.pos) (2 ^ floppy.shiftAt req.pos)
    (req.limitAt floppy input)

/--
What is in the track buffer begins inside the sector of the controller, and the command goes on
with it: it is a write to a block that is held, or the block comes next and there is room.
-/
structure StartsInsideSector (floppy : FloppyStruct) (input : RwInput) (buffer : BufferState)
    (req : Request) : Prop where
  opened : buffer.maxBufferSectors ≠ 0
  onDisk : floppy.track = 0 ∨ floppy.trackAt req.pos < floppy.track.toNat
  track_eq : buffer.bufferTrack = floppy.trackAt req.pos * 2 ^ floppy.stretchShift
  drive_eq : buffer.bufferDrive = input.currentDrive.toInt
  before : floppy.startAt req.pos < buffer.bufferMin
  min_le : buffer.bufferMin ≤ floppy.sectorAt req.pos
  kept : req.write = true ∧ floppy.sectorAt req.pos < buffer.bufferMax ∨
    floppy.sectorAt req.pos = buffer.bufferMax ∧
      req.limitAt floppy input ≤ 2 * buffer.maxBufferSectors + buffer.bufferMin

/--
The window in front of the track buffer is taken for one in the buffer of the request, which
begins there and is long enough, and is not one.
-/
structure TakenForDirect (floppy : FloppyStruct) (input : RwInput) (buffer : BufferState)
    (req : Request) : Prop extends StartsInsideSector floppy input buffer req where
  meets : (req.buffer.toNat : Int) =
    buffer.floppyTrackBuffer.toNat + (floppy.startAt req.pos - buffer.bufferMin) * 512
  some : floppy.sectorAt req.pos < req.endAt floppy input buffer
  fits : (req.endAt floppy input buffer - floppy.startAt req.pos) * 512 ≤ req.dataLen.toNat
  outside : ¬InRequest input req req.buffer.toNat
    ((req.endAt floppy input buffer - floppy.startAt req.pos) * 512)

section Place

variable {floppy : FloppyStruct} {input : RwInput} {buffer : BufferState} {req : Request}
  {layout : Layout} {pos : Word}

theorem SmallGeometry.place (small : SmallGeometry floppy) (pos : Word) :
    InCylinder floppy (floppy.sectorAt pos) :=
  small.inCylinder (Int.emod_nonneg _ small.cylinder_pos.ne')
    (Int.emod_lt_of_pos _ small.cylinder_pos)

theorem SmallGeometry.locate_eq (small : SmallGeometry floppy) (pos_lt : pos.toNat < 2147483648) :
    locate floppy pos = .ok (floppy.trackAt pos, floppy.sectorAt pos) := by
  have cylinder_pos := small.cylinder_pos
  have cylinder_le := small.cylinder_le
  have place := small.place pos
  have nonneg := place.nonneg
  have lt : floppy.sectorAt pos < floppy.cylinder := Int.emod_lt_of_pos _ cylinder_pos
  rw [locate, small.maxSector_eq, int32_of_bounds (by omega) (by omega),
    idiv_of_pos (by omega) cylinder_pos, ok_bind]
  simp only []
  rw [← FloppyStruct.sectorAt, uchar_of_bounds nonneg (by omega), FloppyStruct.trackAt]
  rfl

/-- Where there are phantoms, sectors are not larger than a block. -/
theorem plain_of_startAt_lt (begun : floppy.startAt pos < floppy.sectorAt pos) :
    phantoms floppy (floppy.trackAt pos) (floppy.sectorAt pos / floppy.sects) = false := by
  rw [Bool.eq_false_iff]
  intro shown
  have shift_le : floppy.shiftAt pos ≤
      sectorCode floppy (floppy.trackAt pos) (floppy.sectorAt pos / floppy.sects) - 2 :=
    sectorShift_le
  rw [sectorCode, if_pos shown] at shift_le
  have zero : floppy.shiftAt pos = 0 := by omega
  rw [FloppyStruct.startAt, zero] at begun
  simp at begun

/-- The first sector of a request is not a phantom. -/
def Visible (floppy : FloppyStruct) (input : RwInput) (pos : Word) : Prop :=
  phantoms floppy (floppy.trackAt pos) (floppy.sectorAt pos / floppy.sects) = true →
    floppy.sectorAt pos < sideLimit floppy input (floppy.trackAt pos)
      (floppy.sectorAt pos / floppy.sects) (floppy.sectorAt pos)

/-- The layout of a request at its position. -/
abbrev LaidOutAt (floppy : FloppyStruct) (input : RwInput) (req : Request) (layout : Layout) :
    Prop :=
  LaidOut floppy input req (floppy.trackAt req.pos) (floppy.sectorAt req.pos / floppy.sects)
    (floppy.sectorAt req.pos % floppy.sects) (floppy.sectorAt req.pos) layout

theorem makeRawRwRequest_of_small (small : SmallGeometry floppy)
    (pos_lt : req.pos.toNat < 2147483648) (opened : buffer.maxBufferSectors ≠ 0) :
    req.makeRawRwRequest floppy input buffer =
      if floppy.track ≠ 0 && floppy.trackAt req.pos ≥ floppy.track.toNat then
        if req.curSectors % 2 = 1 then .ok (.skipped 1, buffer) else .ok (.refused, buffer)
      else if phantoms floppy (floppy.trackAt req.pos) (floppy.sectorAt req.pos / floppy.sects) &&
          floppy.sectorAt req.pos ≥ sideLimit floppy input (floppy.trackAt req.pos)
            (floppy.sectorAt req.pos / floppy.sects) (floppy.sectorAt req.pos) then
        .ok (.skipped (min (int32 (floppy.sects - floppy.sectorAt req.pos)) req.sectors), buffer)
      else
        layOut floppy input req (floppy.trackAt req.pos) (floppy.sectorAt req.pos / floppy.sects)
            (floppy.sectorAt req.pos % floppy.sects) (floppy.sectorAt req.pos) >>=
          transfer floppy input buffer req := by
  have place := small.place req.pos
  have cylinder_le := small.cylinder_le
  have lt : floppy.sectorAt req.pos < floppy.cylinder := Int.emod_lt_of_pos _ small.cylinder_pos
  have head_le := Int.ediv_le_self floppy.sects place.nonneg
  have head_eq : uchar (floppy.sectorAt req.pos / floppy.sects) =
      floppy.sectorAt req.pos / floppy.sects :=
    uchar_of_bounds place.head_nonneg (by omega)
  rw [Request.makeRawRwRequest, if_neg opened, small.locate_eq pos_lt, ok_bind]
  simp only [udiv_of_pos small.sects_pos, ok_bind, head_eq]
  rfl

/-- A request on the disk is laid out, unless it is for a phantom. -/
theorem makeRawRwRequest_eq_transfer (small : SmallGeometry floppy)
    (pos_lt : req.pos.toNat < 2147483648) (opened : buffer.maxBufferSectors ≠ 0)
    (onDisk : floppy.track = 0 ∨ floppy.trackAt req.pos < floppy.track.toNat)
    (visible : Visible floppy input req.pos) :
    ∃ layout, LaidOutAt floppy input req layout ∧
      req.makeRawRwRequest floppy input buffer = transfer floppy input buffer req layout := by
  have place := small.place req.pos
  have cylinder_le := small.cylinder_le
  have lt : floppy.sectorAt req.pos < floppy.cylinder := Int.emod_lt_of_pos _ small.cylinder_pos
  obtain ⟨layout, run, laidOut⟩ : ∃ layout, layOut floppy input req (floppy.trackAt req.pos)
      (floppy.sectorAt req.pos / floppy.sects) (floppy.sectorAt req.pos % floppy.sects)
      (floppy.sectorAt req.pos) = .ok layout ∧ LaidOutAt floppy input req layout :=
    exists_laidOut input req small.sects_pos place.nonneg (by omega)
  refine ⟨layout, laidOut, ?_⟩
  rw [makeRawRwRequest_of_small small pos_lt opened, if_neg, if_neg, run, ok_bind]
  · simpa [Visible] using visible
  · rcases onDisk with zero | below
    · simp [zero]
    · simp [below]

theorem makeRawRwRequest_stopped_or (small : SmallGeometry floppy) (input : RwInput)
    (buffer : BufferState) (pos_lt : req.pos.toNat < 2147483648) :
    (∃ outcome, req.makeRawRwRequest floppy input buffer = .ok (outcome, buffer) ∧
        outcome.layout? = none) ∨
      buffer.maxBufferSectors ≠ 0 ∧
        (floppy.track = 0 ∨ floppy.trackAt req.pos < floppy.track.toNat) ∧
        Visible floppy input req.pos := by
  by_cases opened : buffer.maxBufferSectors = 0
  · exact Or.inl ⟨.refused, if_pos opened, rfl⟩
  · rw [makeRawRwRequest_of_small small pos_lt opened]
    split_ifs with beyond odd hidden
    · exact Or.inl ⟨_, rfl, rfl⟩
    · exact Or.inl ⟨_, rfl, rfl⟩
    · exact Or.inl ⟨_, rfl, rfl⟩
    · refine Or.inr ⟨opened, ?_, ?_⟩
      · simp only [ne_eq, Bool.and_eq_true, decide_eq_true_eq, not_and, not_le, ge_iff_le] at beyond
        exact or_iff_not_imp_left.mpr beyond
      · simpa [Visible] using hidden

theorem RwOutcome.sound_of_none {outcome : RwOutcome} (absent : outcome.layout? = none) :
    outcome.Sound input buffer req := by
  cases outcome with
  | refused => trivial
  | skipped count => trivial
  | copied layout result => exact nomatch absent
  | programmed layout kernelData length count copies => exact nomatch absent

theorem LaidOut.reads_or_writes {track head inSide fsectorT : Int}
    (laidOut : LaidOut floppy input req track head inSide fsectorT layout) :
    layout.reads = !req.write ∧ layout.writes = req.write := by
  simp only [Layout.reads, Layout.writes, laidOut.command_eq, Request.command]
  cases req.write with
  | true =>
      simp [ct_fmMode floppy]
      decide
  | false =>
      simp [ct_fmMode floppy]
      decide

theorem LaidOutAt.start_eq (laidOut : LaidOutAt floppy input req layout) :
    layout.alignedSectorT = floppy.startAt req.pos := by
  rw [Layout.alignedSectorT, laidOut.sector_eq, laidOut.offset_eq]
  rfl

theorem LaidOutAt.end_eq (laidOut : LaidOutAt floppy input req layout) :
    windowEnd floppy.sects buffer req layout.fsectorT layout.ssize layout.maxSector =
      req.endAt floppy input buffer := by
  rw [laidOut.sector_eq, laidOut.size_eq, laidOut.limit_eq]
  rfl

theorem overhang_of_startsInsideSector (laidOut : LaidOutAt floppy input req layout)
    (inside : StartsInsideSector floppy input buffer req) : Overhang input buffer layout := by
  have limit_eq : layout.maxSector = req.limitAt floppy input := laidOut.limit_eq
  refine ⟨inside.track_eq.trans laidOut.seek_eq.symm, inside.drive_eq, ?_, ?_, ?_⟩
  · rw [laidOut.start_eq]
    exact inside.before
  · rw [laidOut.sector_eq]
    exact inside.min_le
  · rw [laidOut.sector_eq, limit_eq]
    exact inside.kept.imp_left And.right

/-- Whatever the request, the track buffer is left in a state of the kind in which it was. -/
theorem makeRawRwRequest_valid (small : SmallGeometry floppy) (valid : buffer.Valid)
    (pos_lt : req.pos.toNat < 2147483648) :
    Yields (fun result => result.2.Valid) (req.makeRawRwRequest floppy input buffer) := by
  rcases makeRawRwRequest_stopped_or small input buffer pos_lt with
    ⟨outcome, run, -⟩ | ⟨opened, onDisk, visible⟩
  · rw [run]
    exact yields_ok valid
  · rcases makeRawRwRequest_eq_transfer small pos_lt opened onDisk visible with
      ⟨layout, laidOut, run⟩
    rw [run]
    have reach := laidOut.reach small (small.place req.pos) visible
    exact transfer_valid reach small.sects_pos valid opened

end Place

section Stray

variable {floppy : FloppyStruct} {input : RwInput} {buffer : BufferState} {req : Request}
  {layout : Layout} {k : Nat}

theorem Overhang.kernelData_eq (hangs : Overhang input buffer layout)
    (reach : Reach floppy.sects layout k) (sects_pos : 0 < floppy.sects) (valid : buffer.Valid) :
    uint32 (buffer.floppyTrackBuffer.toNat + (layout.alignedSectorT - buffer.bufferMin) * 512) =
      buffer.floppyTrackBuffer.toNat + (layout.alignedSectorT - buffer.bufferMin) * 512 := by
  have bounds := reach.bounds sects_pos
  have before := hangs.before
  have min_le := hangs.min_le
  have base_ge := valid.base_ge
  have base_lt := buffer.floppyTrackBuffer.isLt
  exact uint32_of_bounds (by omega) (by omega)

theorem Overhang.room_eq (hangs : Overhang input buffer layout)
    (reach : Reach floppy.sects layout k) (sects_pos : 0 < floppy.sects) (valid : buffer.Valid) :
    int32 (2 * buffer.maxBufferSectors + buffer.bufferMin) =
      2 * buffer.maxBufferSectors + buffer.bufferMin := by
  have bounds := reach.bounds sects_pos
  have size := valid.size
  have before := hangs.before
  have min_le := hangs.min_le
  exact int32_of_bounds (by omega) (by omega)

theorem finish_programs (reach : Reach floppy.sects layout k) {y : Int}
    (whole : (2 : Int) ^ k ∣ y - layout.alignedSectorT) (lt : layout.fsectorT < y) (le : y ≤ 255)
    (aligned_nonneg : 0 ≤ layout.alignedSectorT)
    (fits : (y - layout.alignedSectorT) * 512 ≤ req.dataLen.toNat) (copies : List SegmentCopy) :
    finish buffer req layout req.buffer.toNat (y - layout.fsectorT) copies =
      .ok (.programmed { layout with
          cmd := virtualdmabugWorkaround layout.cmd ((y - layout.alignedSectorT) * 512) }
        req.buffer.toNat ((y - layout.alignedSectorT) * 512) (y - layout.fsectorT) copies) := by
  have offset := reach.offset_bounds
  have aligned_eq : layout.alignedSectorT = layout.fsectorT - layout.inSectorOffset := rfl
  have proper : layout.Proper := ⟨reach.ssize ▸ two_pow_pos k, reach.code_le⟩
  have bytes_bounds := sectorBytes_bounds proper
  have even := reach.bytes_whole whole
  have sectors_ge : y - layout.alignedSectorT ≤ req.sectors := by
    simp only [Request.sectors]
    omega
  have code_lt : layout.cmd.sizecode.toNat < 32 := by
    have := reach.code_le
    omega
  simp only [finish, reach.dmaLength_whole whole lt le]
  rw [Nat.mod_eq_of_lt code_lt] at bytes_bounds ⊢
  rw [if_neg, int32_of_bounds (x := 128 * _) (by omega) (by omega),
    idiv_of_pos (by omega) (by omega), ok_bind]
  · simp only [even]
    rw [accept, if_neg, if_neg, if_neg, if_neg]
    · rfl
    · omega
    · rw [uint32_of_bounds (by omega) (by omega), uint32_of_bounds (by omega) (by omega)]
      simp
      omega
    · simp
    · simp
      omega
  · rw [int32_of_bounds (by omega) (by omega)]
    simp
    omega

/-- How many sectors a command is for that goes on with what is in the track buffer. -/
structure GoesOn (buffer : BufferState) (req : Request) (fsectorT last count : Int)
    (after : BufferState) : Prop where
  base_eq : after.floppyTrackBuffer = buffer.floppyTrackBuffer
  /-- A part of a sector is written if no whole one is, and all of it is held. -/
  count_eq : count = last - fsectorT ∨
    last ≤ fsectorT ∧ count = req.sectors ∧ fsectorT + req.sectors < buffer.bufferMax

/-- The end of the function for a window in front of the track buffer. -/
def finishInFront (buffer : BufferState) (req : Request) (layout : Layout) (count : Int)
    (copies : List SegmentCopy) (after : BufferState) : Except Stop (RwOutcome × BufferState) := do
  let outcome ← finish after req layout
    (buffer.floppyTrackBuffer.toNat + (layout.alignedSectorT - buffer.bufferMin) * 512) count copies
  return (outcome, after)

theorem throughBuffer_goesOn_of_reads (reach : Reach floppy.sects layout k)
    (sects_pos : 0 < floppy.sects) (valid : buffer.Valid) (hangs : Overhang input buffer layout)
    (reads : layout.reads = true)
    (room : layout.maxSector ≤ 2 * buffer.maxBufferSectors + buffer.bufferMin) (maxSize : Int) :
    throughBuffer floppy input buffer req layout maxSize =
      finishInFront buffer req layout (layout.maxSector - layout.fsectorT) [] buffer := by
  have bounds := reach.bounds sects_pos
  have size := valid.size
  have before := hangs.before
  have min_le := hangs.min_le
  have room_eq := hangs.room_eq reach sects_pos valid
  have kept : claimBuffer input buffer req layout layout.maxSector = buffer := by
    rw [claimBuffer, if_neg]
    rw [Bool.not_eq_true, claimsBuffer_eq_false_iff, room_eq]
    have := hangs.kept
    exact ⟨hangs.track_eq, hangs.drive_eq, by omega, min_le, fun _ => Or.inl room⟩
  unfold throughBuffer
  simp only [reads, if_true, Layout.writes_of_reads reads, Bool.false_eq_true, if_false, kept,
    room_eq]
  rw [int32_of_bounds (x := _ - layout.alignedSectorT) (by omega) (by omega),
    reach.transferSize_eq_cut sects_pos (by omega) reach.le (by omega) (by omega), ok_bind,
    min_eq_left (by omega), reach.whole, Int.sub_zero, int32_of_bounds (by omega) (by omega),
    hangs.kernelData_eq reach sects_pos valid]
  rfl

theorem throughBuffer_goesOn_of_writes (reach : Reach floppy.sects layout k)
    (sects_pos : 0 < floppy.sects) (valid : buffer.Valid)
    (hangs : Overhang input buffer layout) (held : layout.fsectorT < buffer.bufferMax)
    (reads : layout.reads = false) (writes : layout.writes = true) :
    ∃ count copies after,
      throughBuffer floppy input buffer req layout req.sectors =
        finishInFront buffer req layout count copies after ∧
      GoesOn buffer req layout.fsectorT
        (windowEnd floppy.sects buffer req layout.fsectorT layout.ssize layout.maxSector)
        count after := by
  have bounds := reach.bounds sects_pos
  have size := valid.size
  have before := hangs.before
  have min_le := hangs.min_le
  have addressable := valid.held
  have base_ge := valid.base_ge
  have sectors_lt := req.sectors_lt
  have sectors_nonneg := req.sectors_nonneg
  have aligned_eq : layout.alignedSectorT = layout.fsectorT - layout.inSectorOffset := rfl
  have room_eq := hangs.room_eq reach sects_pos valid
  have kept : claimBuffer input buffer req layout req.sectors = buffer := by
    rw [claimBuffer, if_neg]
    rw [Bool.not_eq_true, claimsBuffer_eq_false_iff]
    refine ⟨hangs.track_eq, hangs.drive_eq, by omega, min_le, ?_⟩
    rintro (reading | ⟨zero, -⟩)
    · simp [reads] at reading
    · omega
  have end_eq : windowEnd floppy.sects buffer req layout.fsectorT layout.ssize layout.maxSector =
      min (min layout.maxSector (2 * buffer.maxBufferSectors + buffer.bufferMin))
          (layout.fsectorT + req.sectors) -
        min (min layout.maxSector (2 * buffer.maxBufferSectors + buffer.bufferMin))
          (layout.fsectorT + req.sectors) % floppy.sects % 2 ^ k := by
    rw [windowEnd, if_pos held, reach.ssize]
  generalize x_eq : min (min layout.maxSector (2 * buffer.maxBufferSectors + buffer.bufferMin))
    (layout.fsectorT + req.sectors) = x at end_eq
  rcases reach.cut sects_pos (x := x) (by omega) (by omega) with ⟨y, y_eq, -, y_ge, y_le, -⟩
  unfold throughBuffer
  simp only [reads, writes, if_true, Bool.false_eq_true, if_false, kept, room_eq, copyBuffer]
  rw [reach.transferSize_eq_cut sects_pos (by omega) (by omega) (by omega) (by omega), ok_bind]
  have count_eq : int32 (y - layout.fsectorT) = y - layout.fsectorT :=
    int32_of_bounds (by omega) (by omega)
  simp only [x_eq, y_eq, count_eq, hangs.kernelData_eq reach sects_pos valid]
  refine ⟨_, _, _, rfl, rfl, ?_⟩
  rw [end_eq, y_eq]
  split_ifs with part
  · simp only [Bool.and_eq_true, decide_eq_true_eq, gt_iff_lt] at part
    rw [uint32_of_bounds (x := buffer.bufferMax) (by omega) (by omega),
      uint32_of_bounds (x := _ + req.sectors) (by omega) (by omega)] at part
    rw [int32_of_bounds (x := buffer.bufferMax - _) (by omega) (by omega)]
    exact Or.inr ⟨by omega, min_eq_right (by omega), part.2⟩
  · exact Or.inl rfl

/-- A read of what is held is over. Otherwise a command goes on with it. -/
theorem transfer_goesOn (reach : Reach floppy.sects layout k) (sects_pos : 0 < floppy.sects)
    (valid : buffer.Valid) (hangs : Overhang input buffer layout)
    (kind : layout.reads = !req.write ∧ layout.writes = req.write) :
    (req.write = false ∧ layout.fsectorT < buffer.bufferMax ∧
        Yields (fun result => result.1.Sound input buffer req)
          (transfer floppy input buffer req layout)) ∨
      (req.write = true ∧ layout.fsectorT < buffer.bufferMax ∨
        layout.fsectorT = buffer.bufferMax ∧
          layout.maxSector ≤ 2 * buffer.maxBufferSectors + buffer.bufferMin) ∧
      ∃ cmd count copies after,
        transfer floppy input buffer req layout =
          finishInFront buffer req { layout with cmd := cmd } count copies after ∧
        Reach floppy.sects { layout with cmd := cmd } k ∧
        GoesOn buffer req layout.fsectorT
          (windowEnd floppy.sects buffer req layout.fsectorT layout.ssize layout.maxSector)
          count after := by
  have before := hangs.before
  have min_le := hangs.min_le
  have aligned_eq : layout.alignedSectorT = layout.fsectorT - layout.inSectorOffset := rfl
  have inside : layout.inSectorOffset ≠ 0 := by omega
  unfold transfer
  by_cases held : layout.fsectorT < buffer.bufferMax
  · have found : inBuffer input buffer layout = true := by
      simp [inBuffer, hangs.track_eq, hangs.drive_eq, min_le, held]
    rw [if_pos found, kind.1]
    cases write : req.write with
    | false =>
        refine Or.inl ⟨rfl, held, ?_⟩
        exact yields_bind fun _ _ => yields_ok trivial
    | true =>
        rw [write] at kind
        rcases @throughBuffer_goesOn_of_writes floppy input buffer req layout k reach sects_pos
          valid hangs held kind.1 kind.2 with ⟨count, copies, after, run, goesOn⟩
        exact Or.inr ⟨Or.inl ⟨rfl, held⟩, layout.cmd, count, copies, after, run, reach, goesOn⟩
  · have missing : ¬inBuffer input buffer layout = true := by simp [inBuffer, held]
    have next := hangs.kept.resolve_left held
    rw [if_neg missing, if_pos (by simp [inside]),
      throughBuffer_goesOn_of_reads (reach.readFirst floppy) sects_pos valid
        ⟨hangs.track_eq, hangs.drive_eq, before, min_le, hangs.kept⟩ reads_readFirst next.2]
    refine Or.inr ⟨Or.inr next, _, _, _, _, rfl, reach.readFirst floppy, rfl, Or.inl ?_⟩
    rw [windowEnd, if_neg held]
    rfl

theorem windowEnd_whole (reach : Reach floppy.sects layout k) (sects_pos : 0 < floppy.sects)
    (valid : buffer.Valid) (hangs : Overhang input buffer layout) :
    (2 : Int) ^ k ∣
        windowEnd floppy.sects buffer req layout.fsectorT layout.ssize layout.maxSector -
          layout.alignedSectorT ∧
      windowEnd floppy.sects buffer req layout.fsectorT layout.ssize layout.maxSector ≤ 255 := by
  have bounds := reach.bounds sects_pos
  have size := valid.size
  have before := hangs.before
  have sectors_nonneg := req.sectors_nonneg
  rw [windowEnd, reach.ssize]
  split_ifs
  · dsimp only
    generalize x_eq : min (min layout.maxSector (2 * buffer.maxBufferSectors + buffer.bufferMin))
      (layout.fsectorT + req.sectors) = x
    rcases reach.cut sects_pos (x := x) (by omega) (by omega) with ⟨y, y_eq, whole, -, y_le, -⟩
    rw [y_eq]
    exact ⟨whole, by omega⟩
  · rcases reach.cut sects_pos (x := layout.maxSector) (by omega) le_rfl with
      ⟨y, y_eq, whole, -, -, -⟩
    rw [reach.whole, Int.sub_zero] at y_eq
    rw [y_eq]
    exact ⟨whole, y_eq ▸ reach.le⟩

/-- A window in front of the track buffer passes the checks only if the request begins there. -/
theorem finishInFront_sound {count : Int} {copies : List SegmentCopy} {after : BufferState}
    (base_eq : after.floppyTrackBuffer = buffer.floppyTrackBuffer)
    (before : layout.alignedSectorT < buffer.bufferMin)
    (direct : Checked after req layout req.buffer.toNat count →
      (req.buffer.toNat : Int) =
        buffer.floppyTrackBuffer.toNat + (layout.alignedSectorT - buffer.bufferMin) * 512 →
      dmaLength layout count % (128 * 2 ^ layout.cmd.sizecode.toNat) = 0 ∧
        InRequest input req req.buffer.toNat (dmaLength layout count)) :
    Yields (fun result => result.1.Sound input buffer req)
      (finishInFront buffer req layout count copies after) := by
  unfold finishInFront
  refine yields_bind fun outcome finished =>
    yields_ok ((finish_checked ?_ : Yields (RwOutcome.Sound input buffer req) _) outcome finished)
  intro checked
  by_cases meets : (req.buffer.toNat : Int) =
      buffer.floppyTrackBuffer.toNat + (layout.alignedSectorT - buffer.bufferMin) * 512
  · rw [← meets] at checked ⊢
    exact (direct checked meets).imp_right Or.inr
  · have base_le := (checked.inTrackBuffer (Ne.symm meets)).1
    rw [base_eq] at base_le
    omega

/-- The part of a sector that is written with no whole one is longer than the request. -/
theorem Checked.length_eq {last count : Int} {after : BufferState}
    (checked : Checked after req layout req.buffer.toNat count)
    (goesOn : GoesOn buffer req layout.fsectorT last count after)
    (reach : Reach floppy.sects layout k) (sects_pos : 0 < floppy.sects) (valid : buffer.Valid)
    (before : layout.alignedSectorT < buffer.bufferMin)
    (min_le : buffer.bufferMin ≤ layout.fsectorT)
    (whole : (2 : Int) ^ k ∣ last - layout.alignedSectorT) (le : last ≤ 255) :
    layout.fsectorT < last ∧
      dmaLength layout count = (last - layout.alignedSectorT) * 512 ∧
      (last - layout.alignedSectorT) * 512 ≤ req.dataLen.toNat := by
  have bounds := reach.bounds sects_pos
  have held := valid.held
  have base_ge := valid.base_ge
  have count_pos := checked.count_pos
  have fits := checked.inRequest rfl
  have sectors_eq : req.sectors = req.dataLen.toNat / 512 := rfl
  have aligned_eq : layout.alignedSectorT = layout.fsectorT - layout.inSectorOffset := rfl
  rcases goesOn.count_eq with rfl | ⟨-, rfl, all_held⟩
  · rw [reach.dmaLength_whole whole (by omega) le] at fits ⊢
    rw [uint32_of_bounds (by omega) (by omega)] at fits
    exact ⟨by omega, rfl, fits⟩
  · rcases reach.dmaLength_spec count_pos (by omega) with ⟨blocks, length_eq, -, enough, fewer⟩
    have z_le := two_pow_le reach.shift_le
    rw [length_eq, uint32_of_bounds (by omega) (by omega)] at fits
    omega

theorem finishInFront_programs (reach : Reach floppy.sects layout k) (sects_pos : 0 < floppy.sects)
    {last : Int} (whole : (2 : Int) ^ k ∣ last - layout.alignedSectorT) (le : last ≤ 255)
    (some : layout.fsectorT < last)
    (meets : (req.buffer.toNat : Int) =
      buffer.floppyTrackBuffer.toNat + (layout.alignedSectorT - buffer.bufferMin) * 512)
    (fits : (last - layout.alignedSectorT) * 512 ≤ req.dataLen.toNat) (copies : List SegmentCopy)
    (after : BufferState) :
    ∃ programmed, finishInFront buffer req layout (last - layout.fsectorT) copies after =
      .ok (.programmed programmed req.buffer.toNat ((last - layout.alignedSectorT) * 512)
        (last - layout.fsectorT) copies, after) := by
  rw [finishInFront, ← meets, finish_programs reach whole some le (reach.bounds sects_pos).1 fits,
    ok_bind]
  exact ⟨_, rfl⟩

end Stray

section Request

variable {floppy : FloppyStruct} {input : RwInput} {buffer : BufferState} {req : Request}
  {layout : Layout}

theorem LaidOutAt.startsInsideSector (laidOut : LaidOutAt floppy input req layout)
    (opened : buffer.maxBufferSectors ≠ 0)
    (onDisk : floppy.track = 0 ∨ floppy.trackAt req.pos < floppy.track.toNat)
    (hangs : Overhang input buffer layout)
    (goes : req.write = true ∧ layout.fsectorT < buffer.bufferMax ∨
      layout.fsectorT = buffer.bufferMax ∧
        layout.maxSector ≤ 2 * buffer.maxBufferSectors + buffer.bufferMin) :
    StartsInsideSector floppy input buffer req := by
  have limit_eq : layout.maxSector = req.limitAt floppy input := laidOut.limit_eq
  rw [laidOut.sector_eq, limit_eq] at goes
  exact ⟨opened, onDisk, hangs.track_eq.trans laidOut.seek_eq, hangs.drive_eq,
    laidOut.start_eq ▸ hangs.before, laidOut.sector_eq ▸ hangs.min_le, goes⟩

/-- A window that passes the checks is one in the request, unless it is taken for one. -/
theorem LaidOutAt.inRequest (laidOut : LaidOutAt floppy input req layout)
    (inside : StartsInsideSector floppy input buffer req)
    (clear : ¬TakenForDirect floppy input buffer req)
    (meets : (req.buffer.toNat : Int) =
      buffer.floppyTrackBuffer.toNat + (layout.alignedSectorT - buffer.bufferMin) * 512)
    (some : layout.fsectorT <
      windowEnd floppy.sects buffer req layout.fsectorT layout.ssize layout.maxSector)
    (fits : (windowEnd floppy.sects buffer req layout.fsectorT layout.ssize layout.maxSector -
      layout.alignedSectorT) * 512 ≤ req.dataLen.toNat) :
    InRequest input req req.buffer.toNat
      ((windowEnd floppy.sects buffer req layout.fsectorT layout.ssize layout.maxSector -
        layout.alignedSectorT) * 512) := by
  rw [laidOut.end_eq, laidOut.start_eq] at fits ⊢
  rw [laidOut.end_eq, laidOut.sector_eq] at some
  rw [laidOut.start_eq] at meets
  by_contra outside
  exact clear ⟨inside, meets, some, fits, outside⟩

theorem sound_of_not_takenForDirect (small : SmallGeometry floppy) (valid : buffer.Valid)
    (formed : req.WellFormed) (pos_lt : req.pos.toNat < 2147483648)
    (clear : ¬TakenForDirect floppy input buffer req) :
    ∃ outcome after, req.makeRawRwRequest floppy input buffer = .ok (outcome, after) ∧
      outcome.Sound input buffer req := by
  rcases makeRawRwRequest_stopped_or small input buffer pos_lt with
    ⟨outcome, run, absent⟩ | ⟨opened, onDisk, visible⟩
  · exact ⟨outcome, buffer, run, RwOutcome.sound_of_none absent⟩
  rcases makeRawRwRequest_eq_transfer small pos_lt opened onDisk visible with
    ⟨layout, laidOut, run⟩
  have reach := laidOut.reach small (small.place req.pos) visible
  have kind := laidOut.reads_or_writes
  rcases ends_transfer small.sects_pos laidOut.proper with ⟨⟨outcome, after⟩, ends⟩
  refine ⟨outcome, after, run.trans ends, ?_⟩
  revert ends
  refine (?_ : Yields (fun result => result.1.Sound input buffer req) _) (outcome, after)
  by_cases hangs : Overhang input buffer layout
  swap
  · apply transfer_sound reach small.sects_pos valid opened formed hangs
    rw [kind.1, kind.2]
    cases req.write <;> simp
  rcases transfer_goesOn reach small.sects_pos valid hangs kind with
    ⟨-, -, copied⟩ | ⟨goes, cmd, count, copies, ready, finishes, reach', goesOn⟩
  · exact copied
  rw [finishes]
  refine finishInFront_sound goesOn.base_eq hangs.before fun checked meets => ?_
  have last := @windowEnd_whole floppy input buffer req layout _ reach small.sects_pos valid hangs
  rcases checked.length_eq goesOn reach' small.sects_pos valid hangs.before hangs.min_le last.1
    last.2 with ⟨some, length_eq, fits⟩
  rw [length_eq]
  exact ⟨reach'.bytes_whole last.1, laidOut.inRequest
    (laidOut.startsInsideSector opened onDisk hangs goes) clear meets some fits⟩

theorem not_sound_of_takenForDirect (small : SmallGeometry floppy) (valid : buffer.Valid)
    (pos_lt : req.pos.toNat < 2147483648) (taken : TakenForDirect floppy input buffer req)
    {outcome : RwOutcome} {after : BufferState}
    (run : req.makeRawRwRequest floppy input buffer = .ok (outcome, after)) :
    ¬outcome.Sound input buffer req := by
  have before := taken.before
  have min_le := taken.min_le
  have plain := plain_of_startAt_lt (lt_of_lt_of_le before min_le)
  have visible : Visible floppy input req.pos := fun shown => absurd shown (by simp [plain])
  rcases makeRawRwRequest_eq_transfer small pos_lt taken.opened taken.onDisk visible with
    ⟨layout, laidOut, transfers⟩
  have reach := laidOut.reach small (small.place req.pos) visible
  have hangs := overhang_of_startsInsideSector laidOut taken.toStartsInsideSector
  have last := @windowEnd_whole floppy input buffer req layout _ reach small.sects_pos valid hangs
  have bounds := reach.bounds small.sects_pos
  have some := taken.some
  have fits := taken.fits
  have meets := taken.meets
  have outside := taken.outside
  rw [← laidOut.end_eq, ← laidOut.start_eq] at fits outside
  rw [← laidOut.end_eq, ← laidOut.sector_eq] at some
  rw [← laidOut.start_eq] at meets
  rcases transfer_goesOn reach small.sects_pos valid hangs laidOut.reads_or_writes with
    ⟨isRead, held, -⟩ | ⟨-, cmd, count, copies, ready, finishes, reach', goesOn⟩
  · have kept := taken.kept
    rw [← laidOut.sector_eq, isRead] at kept
    simp at kept
    omega
  have count_eq := goesOn.count_eq.resolve_right fun none => by omega
  rcases finishInFront_programs reach' small.sects_pos last.1 last.2 some meets fits copies ready
    with ⟨programmed, ends⟩
  rw [transfers, finishes, count_eq, show layout.fsectorT =
    { layout with cmd := cmd : Layout }.fsectorT from rfl, ends] at run
  cases run
  rintro ⟨-, -, inTrackBuffer | inRequest⟩
  · have base_le := inTrackBuffer.1
    have hanging := hangs.before
    omega
  · exact outside inRequest

end Request

end Gray386.Floppy
