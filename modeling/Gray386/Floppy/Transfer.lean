import Gray386.Floppy.Sectors
import Gray386.Machine.Scatter
import Mathlib.Algebra.Order.BigOperators.Group.List
import Mathlib.Algebra.Order.Ring.Nat
import Mathlib.Logic.Function.Basic

/-!
# Data on its way

A command moves data between memory and the disk, and `copy_buffer` between the track buffer
and the memory of the request. `pass` is one round of the driver: `make_raw_rw_request`, the
command if there is one, and `rw_interrupt` at its end. The request is then done with some of
its blocks, or it is tried again.

A command need not transfer all blocks that it is for. Of a block that could not be read, some
bytes may get into memory.
-/

namespace Gray386.Floppy

open Gray386.Machine

/-- The disks in the drives, sector by sector. -/
abbrev Disks := SectorId → Buffer

/-- Sectors are read, and the data goes to memory. -/
def Disks.load (disks : Disks) (memory : Buffer) : List SectorId → Nat → Buffer
  | [], _ => memory
  | id :: rest, address => load disks (memory.splice (disks id) address 0 512) rest (address + 512)

/-- Sectors are written with data from memory. -/
def Disks.store (memory : Buffer) (disks : Disks) : List SectorId → Nat → Disks
  | [], _ => disks
  | id :: rest, address =>
      store memory (Function.update disks id ((disks id).splice memory 0 address 512)) rest
        (address + 512)

/-- The calls of `memcpy`, one after the other. -/
def runCopies (memory : Buffer) (copies : List SegmentCopy) : Buffer :=
  copies.foldl (fun memory copy =>
    memory.splice memory copy.target.toNat copy.source.toNat copy.size.toNat) memory

/-- What a request works on. -/
structure IoState where
  memory : Buffer
  disks : Disks
  buffer : BufferState

/-- How a command ends. -/
structure Ending where
  /-- The number of sectors, unless all are transferred. -/
  passed : Option Nat
  /-- What is read of the next sector. -/
  noise : List Byte
  verdict : Verdict

/-- The number of sectors that are transferred. -/
def Ending.transferred (ending : Ending) (blocks : Nat) : Nat :=
  ending.passed.elim blocks (min blocks)

/-- How far a round gets. -/
inductive Progress where
  /-- `request_done(0)`. -/
  | refused
  /-- `request_done(1)`, for so many blocks. -/
  | done (currentCountSectors : Int)
  /-- `bad_flp_intr`. -/
  | failed
  /-- The request is tried again. -/
  | again
  deriving DecidableEq, Repr

def RwAction.progress : RwAction → Progress
  | .refused => .refused
  | .done count => .done count
  | .failed => .failed
  | .ignored | .redo | .loaded => .again

section Pass

variable (input : RwInput) (req : Request) (ending : Ending)

/-- A command and its interrupt. -/
def IoState.command (layout : Layout) (kernelData length count : Int) (st : IoState) :
    Progress × IoState :=
  let blocks := (length / 512).toNat
  let passed := ending.transferred blocks
  let sectors := layout.cmd.sectors input.currentDrive passed
  let noise := ending.noise.take ((blocks - passed) * 512)
  let reply := layout.cmd.replyFrom passed layout.cmd.start
  let (action, buffer) :=
    layout.rwInterrupt reply input req kernelData count ending.verdict st.buffer
  if layout.reads then
    let memory := st.disks.load st.memory sectors kernelData.toNat
    let memory := memory.write (kernelData.toNat + passed * 512) noise
    (action.progress, { st with memory, buffer })
  else
    let disks := Disks.store st.memory st.disks sectors kernelData.toNat
    (action.progress, { st with disks, buffer })

/-- One round. -/
def IoState.pass (floppy : FloppyStruct) (st : IoState) : Except Stop (Progress × IoState) := do
  let (outcome, buffer) ← req.makeRawRwRequest floppy input st.buffer
  match outcome with
  | .refused => return (.refused, { st with buffer })
  | .skipped count => return (.done count, { st with buffer })
  | .copied _ result =>
      return (.done result.currentCountSectors,
        { st with memory := runCopies st.memory result.copies, buffer })
  | .programmed layout kernelData length count copies =>
      return IoState.command input req ending layout kernelData length count
        { st with memory := runCopies st.memory copies, buffer }

end Pass

section Sectors

variable {disks : Disks} {memory : Buffer} {sectors : List SectorId} {address : Nat}

theorem Disks.load_of_outside {offset : Nat}
    (outside : ¬(Range.mk address (sectors.length * 512)).Contains offset) :
    disks.load memory sectors address offset = memory offset := by
  induction sectors generalizing memory address with
  | nil => rfl
  | cons id rest ih =>
      simp only [Range.Contains, List.length_cons] at outside ih
      rw [Disks.load, ih (by omega)]
      apply Buffer.splice_of_not
      simp only [Range.Contains]
      omega

theorem Disks.load_sector (i offset : Nat) {id : SectorId} (here : sectors[i]? = some id)
    (lt : offset < 512) :
    disks.load memory sectors address (address + (i * 512 + offset)) = disks id offset := by
  induction sectors generalizing memory address i with
  | nil => simp at here
  | cons first rest ih =>
      rw [Disks.load]
      cases i with
      | zero =>
          obtain rfl : first = id := by simpa using here
          rw [Disks.load_of_outside, Nat.zero_mul, Nat.zero_add, Buffer.splice_of_contains lt,
            Nat.zero_add]
          simp only [Range.Contains]
          omega
      | succ i =>
          have place : address + ((i + 1) * 512 + offset) =
              address + 512 + (i * 512 + offset) := by omega
          rw [place]
          exact ih i (by simpa using here)

theorem Disks.store_of_not_mem {id : SectorId} (absent : id ∉ sectors) :
    Disks.store memory disks sectors address id = disks id := by
  induction sectors generalizing disks address with
  | nil => rfl
  | cons first rest ih =>
      rw [List.mem_cons, not_or] at absent
      rw [Disks.store, ih absent.2, Function.update_of_ne absent.1]

theorem Disks.store_sector (nodup : sectors.Nodup) (i offset : Nat) {id : SectorId}
    (here : sectors[i]? = some id) (lt : offset < 512) :
    Disks.store memory disks sectors address id offset = memory (address + (i * 512 + offset)) := by
  induction sectors generalizing disks address i with
  | nil => simp at here
  | cons first rest ih =>
      rw [List.nodup_cons] at nodup
      rw [Disks.store]
      cases i with
      | zero =>
          obtain rfl : first = id := by simpa using here
          rw [Disks.store_of_not_mem nodup.1, Function.update_self, Nat.zero_mul, Nat.zero_add]
          simp [Buffer.splice, Range.Contains, lt]
      | succ i =>
          rw [ih nodup.2 i (by simpa using here)]
          congr 1
          omega

end Sectors

def Segment.range (segment : Segment) : Range := ⟨segment.address.toNat, segment.length.toNat⟩

def Request.ranges (req : Request) : List Range := req.segments.map Segment.range

/-- The memory of the track buffer. -/
def BufferState.range (buffer : BufferState) : Range :=
  ⟨buffer.floppyTrackBuffer.toNat, (buffer.maxBufferSectors * 1024).toNat⟩

/-- The data of a request is in memory once, and not in the track buffer. -/
structure Request.Placed (req : Request) (buffer : BufferState) : Prop extends
    req.WellFormed where
  whole : req.dataLen.toNat % 512 = 0
  small : req.dataLen.toNat < 2147483648
  total : totalCount req.ranges = req.dataLen.toNat
  scattered : Scattered req.ranges
  apart : AllApart req.ranges buffer.range

section Copies

variable {buffer : BufferState} {req : Request} {memory : Buffer}

theorem copyOut_zero (memory : Buffer) (ranges : List Range) (source : Nat) :
    copyOut memory ranges 0 source = memory := by
  funext address
  exact copyOut_of_ne fun i lt => absurd lt (Nat.not_lt_zero i)

theorem copyIn_zero (memory : Buffer) (ranges : List Range) (target : Nat) :
    copyIn memory ranges 0 target = memory := by
  funext address
  exact copyIn_of_outside fun contains => by simp only [Range.Contains] at contains; omega

/-- Where the loop in `copy_buffer` can go on. -/
structure CopyRoom (buffer : BufferState) (remaining dmaBuffer : Nat) : Prop where
  lower : buffer.floppyTrackBuffer.toNat ≤ dmaBuffer
  upper : (dmaBuffer + remaining : Int) ≤
    buffer.floppyTrackBuffer.toNat + buffer.maxBufferSectors * 1024
  room : buffer.floppyTrackBuffer.toNat + buffer.maxBufferSectors * 1024 < 4294967296

theorem runCopies_cons (memory : Buffer) (copy : SegmentCopy) (copies : List SegmentCopy) :
    runCopies memory (copy :: copies) =
      runCopies (memory.splice memory copy.target.toNat copy.source.toNat copy.size.toNat)
        copies := rfl

/-- One turn of the loop. -/
theorem copySegments_cons (reads : Bool) (segment : Segment) (rest : List Segment)
    {remaining dmaBuffer : Nat} (space : CopyRoom buffer remaining dmaBuffer)
    (short : segment.length.toNat < 2147483648) (some : remaining ≠ 0)
    (few : remaining < 2147483648) :
    let size := min segment.length.toNat remaining
    copySegments buffer reads (segment :: rest) remaining dmaBuffer =
      (if reads then ⟨segment.address.toNat, dmaBuffer, size⟩
        else ⟨dmaBuffer, segment.address.toNat, size⟩) ::
      copySegments buffer reads rest (remaining - size : Nat) (dmaBuffer + size : Nat) := by
  intro size
  rcases space with ⟨lower, upper, room⟩
  have size_eq : min (int32 segment.length.toNat) (remaining : Int) = size := by
    rw [int32_of_bounds (by omega) (by omega)]
    omega
  have next : uint32 (dmaBuffer + size) = (dmaBuffer + size : Nat) := by
    rw [uint32_of_bounds (by omega) (by omega)]
    omega
  have left : int32 (remaining - size) = (remaining - size : Nat) := by
    rw [int32_of_bounds (by omega) (by omega)]
    omega
  rw [copySegments]
  simp only [size_eq, next, left]
  rw [if_neg (by omega), if_neg]
  rw [uint32_of_bounds (by omega) (by omega)]
  simp only [gt_iff_lt, Bool.or_eq_true, decide_eq_true_eq, not_or, not_lt]
  omega

theorem CopyRoom.next {remaining dmaBuffer : Nat} (space : CopyRoom buffer remaining dmaBuffer)
    {size : Nat} (le : size ≤ remaining) :
    CopyRoom buffer (remaining - size) (dmaBuffer + size) := by
  rcases space with ⟨lower, upper, room⟩
  exact ⟨by omega, by omega, room⟩

/-- `copy_buffer` distributes what is in the track buffer. -/
theorem runCopies_reads {segments : List Segment} {remaining dmaBuffer : Nat}
    (space : CopyRoom buffer remaining dmaBuffer) (few : remaining < 2147483648)
    (short : ∀ segment ∈ segments, segment.length.toNat < 2147483648) :
    runCopies memory (copySegments buffer true segments remaining dmaBuffer) =
      copyOut memory (segments.map Segment.range) remaining dmaBuffer := by
  induction segments generalizing memory remaining dmaBuffer with
  | nil => rfl
  | cons segment rest ih =>
      by_cases none : remaining = 0
      · subst none
        rw [copyOut_zero, copySegments]
        simp [runCopies]
      · rw [copySegments_cons true segment rest space (short segment List.mem_cons_self) none few,
          if_pos rfl, runCopies_cons, List.map_cons, copyOut,
          ih (space.next (Nat.min_le_right _ _)) (by omega)
            fun later mem => short later (List.mem_cons_of_mem _ mem)]
        rfl

/-- `copy_buffer` collects the data in the track buffer. -/
theorem runCopies_writes {segments : List Segment} {remaining dmaBuffer : Nat}
    (space : CopyRoom buffer remaining dmaBuffer) (few : remaining < 2147483648)
    (short : ∀ segment ∈ segments, segment.length.toNat < 2147483648) :
    runCopies memory (copySegments buffer false segments remaining dmaBuffer) =
      copyIn memory (segments.map Segment.range) remaining dmaBuffer := by
  induction segments generalizing memory remaining dmaBuffer with
  | nil => rfl
  | cons segment rest ih =>
      by_cases none : remaining = 0
      · subst none
        rw [copyIn_zero, copySegments]
        simp [runCopies]
      · rw [copySegments_cons false segment rest space (short segment List.mem_cons_self) none few,
          if_neg Bool.false_ne_true, runCopies_cons, List.map_cons, copyIn,
          ih (space.next (Nat.min_le_right _ _)) (by omega)
            fun later mem => short later (List.mem_cons_of_mem _ mem)]
        rfl

/-- The contiguous part of a request. -/
theorem addressAt_of_leading (segments : List Segment) (next : Int) {i : Nat}
    (lt : i < leadingBytes next segments) :
    (addressAt (segments.map Segment.range) i : Int) = next + i := by
  induction segments generalizing next i with
  | nil =>
      rw [leadingBytes] at lt
      omega
  | cons segment rest ih =>
      rw [leadingBytes] at lt
      split_ifs at lt with follows
      · rw [List.map_cons, addressAt]
        split_ifs with here
        · simp only [Segment.range]
          omega
        · simp only [Segment.range] at here ⊢
          rw [ih (next + segment.length.toNat) (i := i - segment.length.toNat) (by omega)]
          omega
      · omega

theorem leadingBytes_le (next : Int) (segments : List Segment) :
    leadingBytes next segments ≤ totalCount (segments.map Segment.range) := by
  induction segments generalizing next with
  | nil => simp [leadingBytes, totalCount]
  | cons segment rest ih =>
      rw [leadingBytes, List.map_cons, totalCount_cons]
      have later := ih (next + segment.length.toNat)
      simp only [Segment.range]
      split_ifs <;> omega

namespace Request.Placed

theorem short (placed : req.Placed buffer) :
    ∀ segment ∈ req.segments, segment.length.toNat < 2147483648 := by
  intro segment mem
  have part : segment.length.toNat ≤ totalCount req.ranges := by
    apply List.le_sum_of_mem
    exact List.mem_map.mpr ⟨segment.range, List.mem_map.mpr ⟨segment, mem, rfl⟩, rfl⟩
  have total := placed.total
  have small := placed.small
  omega

theorem outside (placed : req.Placed buffer) (opened : 0 ≤ buffer.maxBufferSectors) :
    req.Outside buffer := by
  have first := placed.first
  cases segments : req.segments with
  | nil => simp [segments] at first
  | cons segment rest =>
      simp only [segments, List.head?_cons, Option.map_some, Option.some.injEq] at first
      have positive := (placed.segments segment (by simp [segments])).1
      have apart := placed.apart segment.range
        (by simp [Request.ranges, segments]) segment.address.toNat
        ⟨le_rfl, by simp only [Segment.range]; omega⟩
      simp only [Range.Contains, BufferState.range, not_and, not_lt, first] at apart
      rw [Request.Outside]
      omega

end Request.Placed

end Copies

end Gray386.Floppy
