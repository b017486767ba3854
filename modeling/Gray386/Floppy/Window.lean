import Gray386.Floppy.Reach

/-!
# The memory that a read or write command uses

The controller transfers data from or to a window of memory. It should be a part of the track
buffer, or of the beginning of the buffer of the request as far as that is contiguous, and in
the second case one that DMA can reach.

`make_raw_rw_request` checks a window in the track buffer at the end. It takes a window for
one in the buffer of the request if both begin at the same address, and this is not the case
only if the data goes there directly: what is in the track buffer may begin inside a sector of
the controller, and the window then begins in front of it.
-/

namespace Gray386.Floppy

open Gray386.Machine

/-- The length of the segments that follow one another in memory, from an address on. -/
def leadingBytes : Int → List Segment → Int
  | _, [] => 0
  | next, segment :: rest =>
      if segment.address.toNat = next then
        segment.length.toNat + leadingBytes (next + segment.length.toNat) rest
      else 0

def InTrackBuffer (buffer : BufferState) (kernelData length : Int) : Prop :=
  buffer.floppyTrackBuffer.toNat ≤ kernelData ∧
    kernelData + length ≤ buffer.floppyTrackBuffer.toNat + buffer.maxBufferSectors * 1024

structure InRequest (input : RwInput) (req : Request) (kernelData length : Int) : Prop where
  start : req.buffer.toNat ≤ kernelData
  contiguous :
    kernelData + length ≤ req.buffer.toNat + leadingBytes req.buffer.toNat req.segments
  reachable : kernelData + length ≤ maxDmaAddress
  uncrossed : input.useVirtualDma = false → kernelData / k64 = (kernelData + length - 1) / k64

structure Window (input : RwInput) (buffer : BufferState) (req : Request) (layout : Layout)
    (kernelData length : Int) : Prop where
  positive : 0 < length
  whole : length % (128 * 2 ^ layout.cmd.sizecode.toNat) = 0
  inside : InTrackBuffer buffer kernelData length ∨ InRequest input req kernelData length

/-- If a command is ready, its window is one. -/
def RwOutcome.Sound (input : RwInput) (buffer : BufferState) (req : Request) : RwOutcome → Prop
  | .programmed layout kernelData length _ _ => Window input buffer req layout kernelData length
  | .refused | .skipped _ | .copied _ _ => True

/-- A request as the block layer makes it. -/
structure Request.WellFormed (req : Request) : Prop where
  sectors_pos : 0 < req.sectors
  first : req.segments.head?.map Segment.address = some req.buffer
  segments : ∀ segment ∈ req.segments, 0 < segment.length.toNat ∧ segment.length.toNat % 512 = 0

/-- The track buffer is in kernel memory, and so would be all that it is said to hold. -/
structure BufferState.Valid (buffer : BufferState) : Prop where
  base_ge : 0xc0000000 ≤ buffer.floppyTrackBuffer.toNat
  room : buffer.floppyTrackBuffer.toNat + buffer.maxBufferSectors * 1024 < 4294967296
  size : buffer.maxBufferSectors = 0 ∨ buffer.maxBufferSectors = 16 ∨
    buffer.maxBufferSectors = 32 ∨ buffer.maxBufferSectors = 64
  min_ge : -1 ≤ buffer.bufferMin
  held : buffer.floppyTrackBuffer.toNat + (buffer.bufferMax - buffer.bufferMin) * 512 < 4294967296

namespace Request

variable (req : Request)

theorem sectors_nonneg : 0 ≤ req.sectors := by
  simp only [Request.sectors]
  omega

theorem sectors_lt : req.sectors < 8388608 := by
  simp only [Request.sectors]
  omega

end Request

section Direct

variable {req : Request}

theorem leadingBytes_nonneg (next : Int) (segments : List Segment) :
    0 ≤ leadingBytes next segments := by
  induction segments generalizing next with
  | nil => exact le_rfl
  | cons segment rest ih =>
      rw [leadingBytes]
      split_ifs
      · have := ih (next + segment.length.toNat)
        omega
      · exact le_rfl

theorem int32_int32_add (x y : Int) : int32 (int32 x + y) = int32 (x + y) := by
  simp only [int32, uint32]
  split_ifs <;> omega

theorem uint32_add_int32 {x y : Int} (nonneg : 0 ≤ x + y) (lt : x + y < 4294967296) :
    uint32 (x + int32 y) = x + y := by
  simp only [int32, uint32]
  split_ifs <;> omega

/-- The loop finds the contiguous part, unless that goes up to the end of all memory. -/
theorem chainSize_spec (base size : Int) (segments : List Segment) (base_nonneg : 0 ≤ base)
    (size_nonneg : 0 ≤ size) (lt : base + size < 4294967296) :
    chainSize base segments (int32 size) =
        int32 (size + leadingBytes (base + size) segments) ∨
      4294967296 ≤ base + size + leadingBytes (base + size) segments := by
  induction segments generalizing size with
  | nil =>
      left
      rw [chainSize, leadingBytes, Int.add_zero]
  | cons segment rest ih =>
      rw [chainSize, leadingBytes, uint32_add_int32 (by omega) lt, int32_int32_add]
      by_cases next : (segment.address.toNat : Int) = base + size
      · rw [if_neg (by simpa using next), if_pos next]
        have later := leadingBytes_nonneg (base + size + segment.length.toNat) rest
        rcases lt_or_ge (base + (size + segment.length.toNat)) 4294967296 with below | above
        · have step := ih _ (by omega) below
          rw [← Int.add_assoc base, Int.add_assoc size] at step
          omega
        · right
          omega
      · left
        rw [if_pos (by simpa using next), if_neg next, Int.add_zero]

/-- The first segment at least is in the contiguous part. -/
theorem Request.WellFormed.leadingBytes_ge (formed : req.WellFormed) :
    512 ≤ leadingBytes req.buffer.toNat req.segments := by
  have first := formed.first
  have whole := formed.segments
  cases segments : req.segments with
  | nil => simp [segments] at first
  | cons segment rest =>
      simp only [segments, List.head?_cons, Option.map_some, Option.some.injEq] at first
      have bytes := whole segment (by simp [segments])
      have later := leadingBytes_nonneg (req.buffer.toNat + segment.length.toNat) rest
      rw [leadingBytes, if_pos (by rw [first])]
      omega

theorem Request.WellFormed.bioData_eq (formed : req.WellFormed) : req.bioData = req.buffer := by
  have first := formed.first
  cases segments : req.segments with
  | nil => simp [segments] at first
  | cons segment rest => simpa [Request.bioData, segments] using first

theorem Request.WellFormed.bufferChainSize_spec (formed : req.WellFormed) :
    bufferChainSize req = int32 (leadingBytes req.buffer.toNat req.segments) / 512 ∨
      4294967296 ≤ req.buffer.toNat + leadingBytes req.buffer.toNat req.segments := by
  have spec := chainSize_spec req.buffer.toNat 0 req.segments (by omega) le_rfl (by omega)
  rw [Int.zero_add, Int.add_zero] at spec
  rw [bufferChainSize, formed.bioData_eq]
  rcases spec with exactly | beyond
  · left
    exact congrArg (· / 512) exactly
  · right
    exact beyond

theorem int32_bounds (x : Int) : -2147483648 ≤ int32 x ∧ int32 x < 2147483648 := by
  simp only [int32, uint32]
  split_ifs <;> omega

theorem chainSize_bounds (base : Int) (segments : List Segment) {size : Int}
    (bounds : -2147483648 ≤ size ∧ size < 2147483648) :
    -2147483648 ≤ chainSize base segments size ∧ chainSize base segments size < 2147483648 := by
  induction segments generalizing size with
  | nil => exact bounds
  | cons segment rest ih =>
      rw [chainSize]
      split_ifs
      · exact bounds
      · exact ih (int32_bounds _)

/-- The number of sectors up to the end of the memory for DMA, or of the contiguous part. -/
theorem dmaLimit_spec {chain limit : Int} (chain_ge : -4194304 ≤ chain) (chain_lt : chain < 4194304)
    (limit_nonneg : 0 ≤ limit) (limit_lt : limit < 8388608) :
    let size := if uint32 chain > limit then limit else chain
    0 ≤ size ∧ size ≤ limit ∧ (0 ≤ chain → size = min chain limit) := by
  intro size
  simp only [size, uint32]
  split_ifs <;> omega

/--
The number of sectors up to the next boundary, if there is one before the end. A transfer of
nothing from a boundary is said to cross it.
-/
theorem uncrossed_spec {useVirtualDma : Bool} {address size : Int} (nonneg : 0 ≤ address)
    (below : address < maxDmaAddress) (size_nonneg : 0 ≤ size)
    (size_le : size ≤ (maxDmaAddress - address) / 512) :
    let limit :=
      if cross64kb useVirtualDma address (size * 512) then (k64 - address % k64) / 512 else size
    0 ≤ limit ∧ limit < 8388608 ∧ ∀ count, 0 < count → count ≤ limit →
      address + count * 512 ≤ maxDmaAddress ∧
        (useVirtualDma = false → address / k64 = (address + count * 512 - 1) / k64) ∧
        (count ≤ size ∨ size = 0 ∧ address % k64 = 0) := by
  have crosses_iff : cross64kb useVirtualDma address (size * 512) = true ↔
      useVirtualDma = false ∧ address / k64 ≠ uint32 (address + size * 512 - 1) / k64 := by
    simp [cross64kb]
  simp only [maxDmaAddress, k64, uint32] at *
  by_cases crosses : cross64kb useVirtualDma address (size * 512) = true
  · have apart := (crosses_iff.mp crosses).2
    simp only [crosses, if_true]
    exact ⟨by omega, by omega, fun count positive le => ⟨by omega, fun _ => by omega, by omega⟩⟩
  · simp only [crosses, Bool.false_eq_true, if_false]
    refine ⟨by omega, by omega, fun count positive le => ⟨by omega, fun real => ?_, by omega⟩⟩
    have same := not_not.mp fun apart => crosses (crosses_iff.mpr ⟨real, apart⟩)
    omega

theorem directLimit_spec (input : RwInput) (formed : req.WellFormed)
    (below : (req.buffer.toNat : Int) < maxDmaAddress) :
    0 ≤ directLimit input req ∧ directLimit input req < 8388608 ∧
      ∀ count, 0 < count → count ≤ 255 → count ≤ directLimit input req →
        InRequest input req req.buffer.toNat (count * 512) := by
  have leading := formed.leadingBytes_ge
  have chain := formed.bufferChainSize_spec
  have chain_bounds : -4194304 ≤ bufferChainSize req ∧ bufferChainSize req < 4194304 := by
    have := chainSize_bounds req.bioData.toNat req.segments (by omega : -2147483648 ≤ (0 : Int) ∧ _)
    rw [bufferChainSize]
    omega
  have limit_bounds : 0 ≤ (maxDmaAddress - req.buffer.toNat) / 512 ∧
      (maxDmaAddress - req.buffer.toNat) / 512 < 8388608 := by
    simp only [maxDmaAddress] at below ⊢
    omega
  have size_spec := dmaLimit_spec chain_bounds.1 chain_bounds.2 limit_bounds.1 limit_bounds.2
  rcases size_spec with ⟨size_nonneg, size_le, size_eq⟩
  rcases uncrossed_spec (by omega) below size_nonneg size_le with ⟨limit_nonneg, limit_lt, within⟩
  refine ⟨limit_nonneg, limit_lt, fun count positive le_255 le => ?_⟩
  rcases within count positive le with ⟨reachable, uncrossed, fits⟩
  refine ⟨le_rfl, ?_, reachable, uncrossed⟩
  generalize (if uint32 (bufferChainSize req) > (maxDmaAddress - req.buffer.toNat) / 512 then
    (maxDmaAddress - req.buffer.toNat) / 512 else bufferChainSize req) = size at *
  simp only [maxDmaAddress, k64] at *
  rcases lt_or_ge (leadingBytes req.buffer.toNat req.segments) 2147483648 with small | large
  · rw [int32_of_bounds (by omega) small] at chain
    omega
  · omega

end Direct

/-- What is in the track buffer begins inside the sector of the controller, and is kept. -/
structure Overhang (input : RwInput) (buffer : BufferState) (layout : Layout) : Prop where
  track_eq : buffer.bufferTrack = layout.cmd.seekTrack
  drive_eq : buffer.bufferDrive = input.currentDrive.toInt
  before : layout.alignedSectorT < buffer.bufferMin
  min_le : buffer.bufferMin ≤ layout.fsectorT
  kept : layout.fsectorT < buffer.bufferMax ∨ layout.fsectorT = buffer.bufferMax ∧
    layout.maxSector ≤ 2 * buffer.maxBufferSectors + buffer.bufferMin

/-- The track buffer when it is known where the data goes. -/
structure Ready (buffer : BufferState) (req : Request) (layout : Layout) (maxSize : Int)
    (ready : BufferState) : Prop where
  base_eq : ready.floppyTrackBuffer = buffer.floppyTrackBuffer
  size_eq : ready.maxBufferSectors = buffer.maxBufferSectors
  min_ge : -1 ≤ ready.bufferMin
  min_le : ready.bufferMin ≤ layout.alignedSectorT
  max_ge : layout.alignedSectorT ≤ ready.bufferMax
  held : ready.floppyTrackBuffer.toNat + (ready.bufferMax - ready.bufferMin) * 512 < 4294967296
  behind : ready.bufferMin = layout.alignedSectorT ∧ ready.bufferMax = layout.alignedSectorT ∨
    ((layout.reads = true ∨ layout.inSectorOffset = 0 ∧ layout.ssize ≤ req.sectors) →
      layout.maxSector ≤ 2 * ready.maxBufferSectors + ready.bufferMin ∨
        maxSize + layout.fsectorT ≤ 2 * ready.maxBufferSectors + ready.bufferMin)

section Through

variable {floppy : FloppyStruct} {input : RwInput} {buffer : BufferState} {req : Request}
  {layout : Layout} {k : Nat} {maxSize : Int}

theorem claimsBuffer_eq_false_iff :
    claimsBuffer input buffer req layout maxSize = false ↔
      buffer.bufferTrack = layout.cmd.seekTrack ∧ buffer.bufferDrive = input.currentDrive.toInt ∧
        layout.fsectorT ≤ buffer.bufferMax ∧ buffer.bufferMin ≤ layout.fsectorT ∧
        ((layout.reads = true ∨ layout.inSectorOffset = 0 ∧ layout.ssize ≤ req.sectors) →
          layout.maxSector ≤ int32 (2 * buffer.maxBufferSectors + buffer.bufferMin) ∨
            int32 (maxSize + layout.fsectorT) ≤
              int32 (2 * buffer.maxBufferSectors + buffer.bufferMin)) := by
  simp only [claimsBuffer, Bool.or_eq_false_iff, decide_eq_false_iff_not, not_not, not_lt,
    Bool.and_eq_false_iff, and_assoc, ne_eq, gt_iff_lt, ge_iff_le]
  cases layout.reads <;> grind

/-- Unless there is an overhang, the sector begins in what the track buffer is to hold. -/
theorem claimBuffer_ready (reach : Reach floppy.sects layout k) (sects_pos : 0 < floppy.sects)
    (valid : buffer.Valid) (clear : ¬Overhang input buffer layout)
    (way : layout.reads = true ∧ maxSize = layout.maxSector ∨
      layout.fsectorT < buffer.bufferMax ∨ layout.inSectorOffset = 0)
    (size_nonneg : 0 ≤ maxSize) (size_lt : maxSize < 2147483000) :
    Ready buffer req layout maxSize (claimBuffer input buffer req layout maxSize) := by
  have base_ge := valid.base_ge
  have room := valid.room
  have size := valid.size
  have min_ge := valid.min_ge
  have bounds := reach.bounds sects_pos
  have aligned_eq : layout.alignedSectorT = layout.fsectorT - layout.inSectorOffset := rfl
  cases claims : claimsBuffer input buffer req layout maxSize with
  | true =>
      rw [claimBuffer, if_pos claims]
      exact ⟨rfl, rfl, by simp only; omega, le_rfl, le_rfl, by simp only; omega, Or.inl ⟨rfl, rfl⟩⟩
  | false =>
      rcases claimsBuffer_eq_false_iff.mp claims with ⟨track_eq, drive_eq, max_ge, min_le, space⟩
      rw [int32_of_bounds (x := 2 * _ + _) (by omega) (by omega),
        int32_of_bounds (by omega) (by omega)] at space
      have before : buffer.bufferMin ≤ layout.alignedSectorT := by
        by_contra inside
        apply clear
        refine ⟨track_eq, drive_eq, by omega, min_le, ?_⟩
        rcases way with ⟨reads, rfl⟩ | behind
        · have := space (Or.inl reads)
          omega
        · omega
      rw [claimBuffer, if_neg (by simp [claims])]
      exact ⟨rfl, rfl, min_ge, before, by omega, valid.held, Or.inr space⟩

theorem sizecode_workaround (cmd : RwCmd) (length : Int) :
    (virtualdmabugWorkaround cmd length).sizecode = cmd.sizecode := by
  simp only [virtualdmabugWorkaround]
  split_ifs <;> rfl

/-- A command that passes the checks at the end. -/
structure Checked (buffer : BufferState) (req : Request) (layout : Layout)
    (kernelData count : Int) : Prop where
  count_pos : 0 < count
  length_pos : 0 < dmaLength layout count
  inTrackBuffer : kernelData ≠ req.buffer.toNat →
    buffer.floppyTrackBuffer.toNat ≤ kernelData ∧
      uint32 (kernelData + dmaLength layout count) ≤ buffer.limit ∧
      (layout.writes = true →
        layout.alignedSectorT + dmaLength layout count / 512 ≤ buffer.bufferMax)
  inRequest : kernelData = req.buffer.toNat →
    uint32 (dmaLength layout count) ≤ req.dataLen.toNat

theorem finish_checked {ready : BufferState} {kernelData count : Int} {copies : List SegmentCopy}
    (sound : Checked ready req layout kernelData count →
      dmaLength layout count % (128 * 2 ^ layout.cmd.sizecode.toNat) = 0 ∧
        (InTrackBuffer buffer kernelData (dmaLength layout count) ∨
          InRequest input req kernelData (dmaLength layout count))) :
    Yields (RwOutcome.Sound input buffer req)
      (finish ready req layout kernelData count copies) := by
  unfold finish
  apply yields_ite
  · exact fun _ => yields_ok trivial
  · intro unrefused
    apply yields_bind
    rintro ⟨-, fraction⟩ -
    apply yields_ok
    unfold accept
    split_ifs with uneven outside large zero
    · trivial
    · trivial
    · trivial
    · trivial
    · simp only [Bool.or_eq_true, Bool.and_eq_true, decide_eq_true_eq, not_or, not_and, not_lt,
        not_le] at unrefused uneven outside large
      have checked : Checked ready req layout kernelData count := by
        refine ⟨by omega, by omega, fun apart => ?_, fun same => ?_⟩
        · rcases outside apart with ⟨⟨⟨base_le, -⟩, -⟩, limit_le⟩
          exact ⟨base_le, limit_le, fun writes => (unrefused.2 ⟨apart, writes⟩).1⟩
        · exact (large same).1
      rcases sound checked with ⟨whole, inside⟩
      refine ⟨checked.length_pos, ?_, inside⟩
      rw [sizecode_workaround]
      exact whole

theorem Ready.kernelData_eq {ready : BufferState}
    (ready_spec : Ready buffer req layout maxSize ready)
    (base_ge : 0xc0000000 ≤ buffer.floppyTrackBuffer.toNat) :
    uint32 (ready.floppyTrackBuffer.toNat + (layout.alignedSectorT - ready.bufferMin) * 512) =
      buffer.floppyTrackBuffer.toNat + (layout.alignedSectorT - ready.bufferMin) * 512 := by
  have min_le := ready_spec.min_le
  have max_ge := ready_spec.max_ge
  have held := ready_spec.held
  rw [ready_spec.base_eq] at held ⊢
  exact uint32_of_bounds (by omega) (by omega)

/-- A transfer up to the end of a sector that the track buffer has room for. -/
theorem finish_whole {ready after : BufferState} {copies : List SegmentCopy} {y : Int}
    (reach : Reach floppy.sects layout k) (valid : buffer.Valid)
    (ready_spec : Ready buffer req layout maxSize ready)
    (whole : (2 : Int) ^ k ∣ y - layout.alignedSectorT) (le : y ≤ 255)
    (room : y ≤ 2 * ready.maxBufferSectors + ready.bufferMin) :
    Yields (RwOutcome.Sound input buffer req)
      (finish after req layout
        (uint32 (ready.floppyTrackBuffer.toNat +
          (layout.alignedSectorT - ready.bufferMin) * 512)) (y - layout.fsectorT) copies) := by
  rw [ready_spec.kernelData_eq valid.base_ge]
  apply finish_checked
  intro checked
  have min_le := ready_spec.min_le
  have count_pos := checked.count_pos
  rw [reach.dmaLength_whole whole (by omega) le]
  rw [ready_spec.size_eq] at room
  exact ⟨reach.bytes_whole whole, Or.inl ⟨by omega, by omega⟩⟩

/-- A part of a sector, which the track buffer holds and the checks have found to be in it. -/
theorem finish_part {ready after : BufferState} {copies : List SegmentCopy} {count : Int}
    (reach : Reach floppy.sects layout k) (valid : buffer.Valid)
    (ready_spec : Ready buffer req layout maxSize ready) (writes : layout.writes = true)
    (after_base : after.floppyTrackBuffer = buffer.floppyTrackBuffer)
    (after_size : after.maxBufferSectors = buffer.maxBufferSectors)
    (after_max : after.bufferMax = ready.bufferMax)
    (held : layout.fsectorT + count < ready.bufferMax)
    (part : layout.inSectorOffset = 0 → ¬(2 : Int) ^ k ∣ req.sectors)
    (count_eq : count = req.sectors) :
    Yields (RwOutcome.Sound input buffer req)
      (finish after req layout
        (uint32 (ready.floppyTrackBuffer.toNat +
          (layout.alignedSectorT - ready.bufferMin) * 512)) count copies) := by
  rw [ready_spec.kernelData_eq valid.base_ge]
  apply finish_checked
  intro checked
  have min_le := ready_spec.min_le
  have addressable := ready_spec.held
  have base_ge := valid.base_ge
  have room := valid.room
  have size := valid.size
  have nonneg := reach.nonneg
  have offset := reach.offset_bounds
  have z_le := two_pow_le reach.shift_le
  have le := reach.le
  have lt := reach.lt
  have aligned_eq : layout.alignedSectorT = layout.fsectorT - layout.inSectorOffset := rfl
  rw [ready_spec.base_eq] at addressable
  have count_pos := checked.count_pos
  rcases reach.dmaLength_spec count_pos (by omega) with
    ⟨blocks, length_eq, blocks_whole, enough, fewer⟩
  rw [length_eq]
  refine ⟨reach.bytes_whole blocks_whole, Or.inl ⟨by omega, ?_⟩⟩
  by_cases apart : buffer.floppyTrackBuffer.toNat +
      (layout.alignedSectorT - ready.bufferMin) * 512 = (req.buffer.toNat : Int)
  · -- a length that is not larger than that of the request leaves no part of a sector
    have length_le := checked.inRequest apart
    rw [length_eq, uint32_of_bounds (by omega) (by omega)] at length_le
    have sectors_eq : req.sectors = req.dataLen.toNat / 512 := rfl
    obtain rfl : blocks = count := by omega
    exact absurd (count_eq ▸ blocks_whole) (part (by omega))
  · rcases checked.inTrackBuffer apart with ⟨-, limit_le, max_le⟩
    have max_le := max_le writes
    rw [length_eq] at limit_le max_le
    rw [after_max] at max_le
    rw [BufferState.limit, after_base, after_size, uint32_of_bounds (by omega) (by omega),
      uint32_of_bounds (by omega) (by omega)] at limit_le
    exact limit_le

theorem reads_readFirst : (readFirst floppy layout).reads = true := by
  simp [readFirst, Layout.reads, ct_fmMode]

theorem Layout.writes_of_reads (reads : layout.reads = true) : layout.writes = false := by
  simp only [Layout.reads, Layout.writes, decide_eq_true_eq, decide_eq_false_iff_not] at reads ⊢
  rw [reads]
  decide

theorem BufferState.Valid.size_whole (valid : buffer.Valid) (reach : Reach floppy.sects layout k) :
    (2 : Int) ^ k ∣ 2 * buffer.maxBufferSectors := by
  have size := valid.size
  have sectors : (2 : Int) ^ 5 ∣ 2 * buffer.maxBufferSectors := by
    norm_num
    omega
  exact (pow_dvd_pow 2 reach.shift_le).trans sectors

theorem throughBuffer_reads (reach : Reach floppy.sects layout k) (sects_pos : 0 < floppy.sects)
    (valid : buffer.Valid) (clear : ¬Overhang input buffer layout) (reads : layout.reads = true) :
    Yields (fun result => result.1.Sound input buffer req)
      (throughBuffer floppy input buffer req layout maxSize) := by
  have bounds := reach.bounds sects_pos
  have size := valid.size
  have z_pos := two_pow_pos k
  have ready_spec : Ready buffer req layout layout.maxSector
      (claimBuffer input buffer req layout layout.maxSector) :=
    claimBuffer_ready reach sects_pos valid clear (Or.inl ⟨reads, rfl⟩) (by omega) (by omega)
  unfold throughBuffer
  simp only [reads, if_true, Layout.writes_of_reads reads, Bool.false_eq_true, if_false]
  generalize claimBuffer input buffer req layout layout.maxSector = ready at ready_spec ⊢
  have min_ge := ready_spec.min_ge
  have min_le := ready_spec.min_le
  have size_eq := ready_spec.size_eq
  have space : ready.bufferMin = layout.alignedSectorT ∨
      layout.maxSector ≤ 2 * ready.maxBufferSectors + ready.bufferMin := by
    rcases ready_spec.behind with ⟨claimed, -⟩ | kept
    · exact Or.inl claimed
    · have := kept (Or.inl reads)
      omega
  rw [int32_of_bounds (x := 2 * _ + _) (by omega) (by omega),
    int32_of_bounds (x := _ - layout.alignedSectorT) (by omega) (by omega),
    reach.transferSize_eq_cut sects_pos (by omega) reach.le (by omega) (by omega), ok_bind]
  have lower : layout.alignedSectorT ≤ min layout.maxSector (layout.fsectorT +
      (2 * ready.maxBufferSectors + ready.bufferMin - layout.alignedSectorT)) := by
    omega
  rcases reach.cut sects_pos lower (min_le_left _ _) with
    ⟨y, y_eq, whole, y_ge, y_le, -⟩
  simp only [y_eq]
  have room : y ≤ 2 * ready.maxBufferSectors + ready.bufferMin := by
    rcases space with claimed | fits
    · have rest : (2 : Int) ^ k ∣ y - (2 * ready.maxBufferSectors + ready.bufferMin) := by
        rw [claimed, Int.add_comm, ← Int.sub_sub, size_eq]
        exact Int.dvd_sub whole (valid.size_whole reach)
      exact le_of_dvd_sub rest (by omega)
    · omega
  rw [int32_of_bounds (by omega) (by omega)]
  apply yields_bind
  intro outcome finished
  exact yields_ok (finish_whole reach valid ready_spec whole (by omega) room outcome finished)

/-- A write of which no sector fits behind what is held. -/
theorem part_of_cut_le {ready : BufferState} (reach : Reach floppy.sects layout k)
    (sects_pos : 0 < floppy.sects) (ready_spec : Ready buffer req layout req.sectors ready)
    (held : layout.fsectorT + req.sectors < ready.bufferMax) (sectors_pos : 0 < req.sectors)
    {x : Int}
    (x_eq : x = min (min layout.maxSector (2 * ready.maxBufferSectors + ready.bufferMin))
      (layout.fsectorT + req.sectors))
    (none : x - x % floppy.sects % 2 ^ k ≤ layout.fsectorT) :
    layout.inSectorOffset = 0 → ¬(2 : Int) ^ k ∣ req.sectors := by
  intro zero whole
  have enough := Int.le_of_dvd sectors_pos whole
  have aligned_lt := reach.aligned_lt sects_pos
  have z_pos := two_pow_pos k
  have aligned_eq : layout.alignedSectorT = layout.fsectorT - layout.inSectorOffset := rfl
  rcases ready_spec.behind with ⟨-, claimed⟩ | kept
  · omega
  · have space := kept (Or.inr ⟨zero, by rw [reach.ssize]; exact enough⟩)
    rcases reach.cut sects_pos (x := x) (by omega) (by omega) with ⟨y, y_eq, -, -, -, y_gt⟩
    omega

theorem throughBuffer_writes (reach : Reach floppy.sects layout k) (sects_pos : 0 < floppy.sects)
    (valid : buffer.Valid) (opened : buffer.maxBufferSectors ≠ 0)
    (clear : ¬Overhang input buffer layout) (writes : layout.writes = true)
    (reads : layout.reads = false) (sectors_pos : 0 < req.sectors)
    (way : layout.fsectorT < buffer.bufferMax ∨ layout.inSectorOffset = 0) :
    Yields (fun result => result.1.Sound input buffer req)
      (throughBuffer floppy input buffer req layout req.sectors) := by
  have bounds := reach.bounds sects_pos
  have size := valid.size
  have z_pos := two_pow_pos k
  have sectors_lt := req.sectors_lt
  have ready_spec : Ready buffer req layout req.sectors
      (claimBuffer input buffer req layout req.sectors) :=
    claimBuffer_ready reach sects_pos valid clear (Or.inr way) (by omega) (by omega)
  unfold throughBuffer
  simp only [reads, writes, if_true, Bool.false_eq_true, if_false]
  generalize claimBuffer input buffer req layout req.sectors = ready at ready_spec ⊢
  have min_ge := ready_spec.min_ge
  have min_le := ready_spec.min_le
  have max_ge := ready_spec.max_ge
  have held := ready_spec.held
  have size_eq := ready_spec.size_eq
  rw [int32_of_bounds (x := 2 * _ + _) (by omega) (by omega)]
  apply yields_bind
  intro result copied
  simp only [copyBuffer] at copied
  rw [reach.transferSize_eq_cut sects_pos (by omega) (by omega) (by omega) (by omega), ok_bind]
    at copied
  obtain ⟨rfl⟩ := copied
  generalize x_eq : min (min layout.maxSector (2 * ready.maxBufferSectors + ready.bufferMin))
    (layout.fsectorT + req.sectors) = x
  have rest_nonneg := Int.emod_nonneg (x % floppy.sects) z_pos.ne'
  have rest_lt := Int.emod_lt_of_pos (x % floppy.sects) z_pos
  have z_le := two_pow_le reach.shift_le
  simp only [writes, Bool.and_true, Bool.and_eq_true, decide_eq_true_eq, gt_iff_lt]
  rw [int32_of_bounds (x := x - _ - _) (by omega) (by omega),
    uint32_of_bounds (x := ready.bufferMax) (by omega) (by omega),
    uint32_of_bounds (x := _ + req.sectors) (by omega) (by omega),
    int32_of_bounds (x := ready.bufferMax - _) (by omega) (by omega)]
  refine yields_bind fun outcome finished =>
    yields_ok ((?_ : Yields (RwOutcome.Sound input buffer req) _) outcome finished)
  rcases lt_or_ge layout.fsectorT (x - x % floppy.sects % 2 ^ k) with some | none
  · -- there is a sector that fits behind what is held
    rw [if_neg (by omega)]
    rcases reach.cut sects_pos (x := x) (by omega) (by omega) with ⟨y, rfl, whole, -, -, -⟩
    exact finish_whole reach valid ready_spec whole (by omega) (by omega)
  · by_cases held_all : layout.fsectorT + req.sectors < ready.bufferMax
    · rw [if_pos ⟨by omega, held_all⟩, min_eq_right (by omega)]
      exact finish_part reach valid ready_spec writes ready_spec.base_eq size_eq
        (max_eq_right (by omega)) held_all
        (part_of_cut_le reach sects_pos ready_spec held_all sectors_pos x_eq.symm none) rfl
    · rw [if_neg fun special => held_all special.2]
      apply finish_checked
      intro checked
      have := checked.count_pos
      omega

theorem throughBuffer_sound (reach : Reach floppy.sects layout k) (sects_pos : 0 < floppy.sects)
    (valid : buffer.Valid) (opened : buffer.maxBufferSectors ≠ 0) (sectors_pos : 0 < req.sectors)
    (clear : ¬Overhang input buffer layout)
    (kind : layout.reads = true ∨ layout.writes = true)
    (way : layout.fsectorT < buffer.bufferMax ∨ layout.inSectorOffset = 0) :
    Yields (fun result => result.1.Sound input buffer req)
      (throughBuffer floppy input buffer req layout req.sectors) := by
  cases reads : layout.reads with
  | true => exact throughBuffer_reads reach sects_pos valid clear reads
  | false =>
      have writes := kind.resolve_left (by simp [reads])
      exact throughBuffer_writes reach sects_pos valid opened clear writes reads sectors_pos way

theorem direct_sound (reach : Reach floppy.sects layout k) (sects_pos : 0 < floppy.sects)
    (valid : buffer.Valid) (opened : buffer.maxBufferSectors ≠ 0) (formed : req.WellFormed)
    (clear : ¬Overhang input buffer layout)
    (kind : layout.reads = true ∨ layout.writes = true) (aligned : layout.inSectorOffset = 0)
    (below : (req.buffer.toNat : Int) < maxDmaAddress) :
    Yields (fun result => result.1.Sound input buffer req)
      (direct floppy input buffer req layout) := by
  have bounds := reach.bounds sects_pos
  have aligned_eq : layout.alignedSectorT = layout.fsectorT - layout.inSectorOffset := rfl
  rcases directLimit_spec input formed below with ⟨limit_nonneg, limit_lt, within⟩
  unfold direct
  apply yields_bind
  intro indirectEnd _
  rw [reach.transferSize_eq_cut sects_pos (by omega) reach.le (by omega) (by omega), ok_bind]
  rcases reach.cut sects_pos
    (x := min layout.maxSector (layout.fsectorT + directLimit input req)) (by omega) (by omega) with
    ⟨y, y_eq, whole, y_ge, y_le, -⟩
  simp only [y_eq]
  rw [aligned_eq, aligned, Int.sub_zero] at whole y_ge
  rw [int32_of_bounds (x := y - _) (by omega) (by omega)]
  apply yields_ite
  · intro _
    exact throughBuffer_sound reach sects_pos valid opened formed.sectors_pos clear kind
      (Or.inr aligned)
  · intro straight
    have nonzero : y - layout.fsectorT ≠ 0 := by
      intro zero
      simp [zero] at straight
    rw [int32_of_bounds (x := (y - _) * 512) (by omega) (by omega)]
    apply yields_ite
    · exact fun _ => yields_ok trivial
    · intro _
      apply yields_ok
      refine ⟨by omega, ?_, Or.inr (within _ (by omega) (by omega) (by omega))⟩
      rw [sizecode_workaround]
      exact reach.bytes_whole whole

theorem transfer_sound (reach : Reach floppy.sects layout k) (sects_pos : 0 < floppy.sects)
    (valid : buffer.Valid) (opened : buffer.maxBufferSectors ≠ 0) (formed : req.WellFormed)
    (clear : ¬Overhang input buffer layout)
    (kind : layout.reads = true ∨ layout.writes = true) :
    Yields (fun result => result.1.Sound input buffer req)
      (transfer floppy input buffer req layout) := by
  unfold transfer
  apply yields_ite
  · intro held
    apply yields_ite
    · exact fun _ => yields_bind fun _ _ => yields_ok trivial
    · intro _
      simp only [inBuffer, Bool.and_eq_true, decide_eq_true_eq] at held
      exact throughBuffer_sound reach sects_pos valid opened formed.sectors_pos clear kind
        (Or.inl held.2)
  · intro _
    apply yields_ite
    · intro _
      apply throughBuffer_reads (reach.readFirst floppy) sects_pos valid
      · intro hangs
        exact clear ⟨hangs.track_eq, hangs.drive_eq, hangs.before, hangs.min_le, hangs.kept⟩
      · exact reads_readFirst
    · intro whole
      have aligned : layout.inSectorOffset = 0 := by
        by_contra nonzero
        simp [nonzero] at whole
      apply yields_ite
      · exact direct_sound reach sects_pos valid opened formed clear kind aligned
      · intro _
        exact throughBuffer_sound reach sects_pos valid opened formed.sectors_pos clear kind
          (Or.inr aligned)

theorem claimBuffer_valid (input : RwInput) (req : Request) (maxSize : Int)
    (reach : Reach floppy.sects layout k) (sects_pos : 0 < floppy.sects) (valid : buffer.Valid) :
    (claimBuffer input buffer req layout maxSize).Valid ∧
      (claimBuffer input buffer req layout maxSize).bufferMin ≤ layout.fsectorT ∧
      (claimBuffer input buffer req layout maxSize).maxBufferSectors = buffer.maxBufferSectors := by
  have room := valid.room
  have size := valid.size
  have bounds := reach.bounds sects_pos
  unfold claimBuffer
  split_ifs with claims
  · exact ⟨⟨valid.base_ge, room, size, by simp only; omega, by simp only; omega⟩,
      by simp only; omega, rfl⟩
  · have kept := claimsBuffer_eq_false_iff.mp (Bool.eq_false_iff.mpr claims)
    exact ⟨valid, kept.2.2.2.1, rfl⟩

theorem BufferState.Valid.extend (valid : buffer.Valid) {y : Int}
    (within : y ≤ 2 * buffer.maxBufferSectors + buffer.bufferMin ∨ y ≤ buffer.bufferMax)
    (track drive : Int) :
    BufferState.Valid { buffer with
      bufferTrack := track, bufferDrive := drive, bufferMax := max y buffer.bufferMax } := by
  have room := valid.room
  have held := valid.held
  exact ⟨valid.base_ge, room, valid.size, valid.min_ge, by simp only; omega⟩

/-- A copy makes the track buffer hold no more than it is told to. -/
theorem copyBuffer_le {sects ssize limit : Int} (sects_pos : 0 < sects) (ssize_pos : 0 < ssize)
    (ssize_le : ssize ≤ 32) (limit_nonneg : 0 ≤ limit) (limit_le : limit ≤ 255)
    (nonneg : 0 ≤ layout.fsectorT) (le : layout.fsectorT ≤ 255) :
    Yields (fun result => ∃ y, y ≤ limit ∧ result.bufferMax = max y buffer.bufferMax)
      (copyBuffer sects buffer req layout ssize limit) := by
  have sectors_lt := req.sectors_lt
  have sectors_nonneg := req.sectors_nonneg
  rw [copyBuffer, transferSize_eq sects_pos ssize_pos]
  simp only []
  rw [int32_of_bounds (x := layout.fsectorT + req.sectors) (by omega) (by omega)]
  generalize lim_eq : min limit (layout.fsectorT + req.sectors) = lim
  have over_nonneg := Int.emod_nonneg (uint32 lim % sects) ssize_pos.ne'
  have over_lt := Int.emod_lt_of_pos (uint32 lim % sects) ssize_pos
  rw [int32_of_bounds (x := lim - _) (by omega) (by omega), ok_bind]
  exact yields_ok ⟨_, by omega, rfl⟩

theorem throughBuffer_valid (reach : Reach floppy.sects layout k) (sects_pos : 0 < floppy.sects)
    (valid : buffer.Valid) (opened : buffer.maxBufferSectors ≠ 0) :
    Yields (fun result => result.2.Valid)
      (throughBuffer floppy input buffer req layout maxSize) := by
  have bounds := reach.bounds sects_pos
  unfold throughBuffer
  simp only []
  generalize (if layout.reads = true then layout.maxSector else maxSize) = asked
  have claimed := claimBuffer_valid input req asked reach sects_pos valid
  generalize claimBuffer input buffer req layout asked = ready at *
  rcases claimed with ⟨ready_valid, min_le, size_eq⟩
  have size := ready_valid.size
  have min_ge := ready_valid.min_ge
  apply yields_ite
  · intro _
    apply yields_bind
    intro result copied
    rw [int32_of_bounds (by omega) (by omega)] at copied
    have ssize_pos : 0 < layout.ssize := reach.ssize ▸ two_pow_pos k
    have ssize_le : layout.ssize ≤ 32 := reach.ssize ▸ two_pow_le reach.shift_le
    rcases copyBuffer_le sects_pos ssize_pos ssize_le (by omega) (by omega) reach.nonneg (by omega)
      result copied with ⟨y, y_le, max_eq⟩
    refine yields_bind fun outcome _ => yields_ok ?_
    simp only [max_eq]
    exact ready_valid.extend (Or.inl (by omega)) _ _
  · intro _
    exact yields_bind fun _ _ => yields_bind fun _ _ => yields_ok ready_valid

theorem direct_valid (reach : Reach floppy.sects layout k) (sects_pos : 0 < floppy.sects)
    (valid : buffer.Valid) (opened : buffer.maxBufferSectors ≠ 0) :
    Yields (fun result => result.2.Valid) (direct floppy input buffer req layout) := by
  unfold direct
  refine yields_bind fun indirectEnd _ => yields_bind fun directEnd _ => ?_
  apply yields_ite
  · exact fun _ => throughBuffer_valid reach sects_pos valid opened
  · intro _
    apply yields_ite
    · exact fun _ => yields_ok valid
    · exact fun _ => yields_ok valid

theorem transfer_valid (reach : Reach floppy.sects layout k) (sects_pos : 0 < floppy.sects)
    (valid : buffer.Valid) (opened : buffer.maxBufferSectors ≠ 0) :
    Yields (fun result => result.2.Valid) (transfer floppy input buffer req layout) := by
  have bounds := reach.bounds sects_pos
  unfold transfer
  apply yields_ite
  · intro held
    simp only [inBuffer, Bool.and_eq_true, decide_eq_true_eq] at held
    apply yields_ite
    · intro _
      refine yields_bind fun result copied => yields_ok ?_
      rcases copyBuffer_le sects_pos (by omega) (by omega) (by omega) (by omega) reach.nonneg
        (by omega) result copied with ⟨y, y_le, max_eq⟩
      simp only [max_eq]
      exact valid.extend (Or.inr (by omega)) _ _
    · exact fun _ => throughBuffer_valid reach sects_pos valid opened
  · intro _
    apply yields_ite
    · exact fun _ => throughBuffer_valid (reach.readFirst floppy) sects_pos valid opened
    · intro _
      apply yields_ite
      · exact fun _ => direct_valid reach sects_pos valid opened
      · exact fun _ => throughBuffer_valid reach sects_pos valid opened

end Through

end Gray386.Floppy
