import Gray386.Floppy.Interleave

/-!
# Read and write requests

`make_raw_rw_request` turns a request for some sectors into a command for the controller. It
finds the track and the side, then how the track is divided: the sectors of the controller
may be larger than 512 bytes, and the end of a track that they do not fill is filled with
smaller ones. In the end it decides where the data goes, either to the buffer of the request
or to the track buffer, and how much of it.

The variables are integers here, with a conversion wherever the type of the source may be
left. It returns 0 or 1 if the request is over and 2 if a command is ready.
-/

namespace Gray386.Floppy

open Gray386.Machine

def fdRead : Byte := 0xe6
def fdWrite : Byte := 0xc5

/-- `CT`. -/
def ct (command : Byte) : Byte := command ||| 0xc0

/-- A segment of a request, by the address of its first byte. -/
structure Segment where
  address : Word
  length : Word
  deriving DecidableEq, Repr

/-- `current_req`. -/
structure Request where
  pos : Word
  /-- `rq_data_dir` is `WRITE`. -/
  write : Bool
  dataLen : Word
  buffer : Word
  segments : List Segment
  deriving DecidableEq, Repr

namespace Request

variable (req : Request)

/-- `blk_rq_sectors`. -/
def sectors : Int := req.dataLen.toNat / 512

/-- `blk_rq_cur_sectors`. -/
def curSectors : Nat := (req.segments.head?.elim 0 fun segment => segment.length.toNat) / 512

/-- `bio_data(current_req->bio)`. -/
def bioData : Word := req.segments.head?.elim 0 Segment.address

/-- The command with which the function begins. -/
def command (floppy : FloppyStruct) : Byte :=
  fmMode floppy (if req.write then fdWrite else fdRead)

end Request

/-- The track buffer and what it is said to hold. -/
structure BufferState where
  floppyTrackBuffer : Word
  maxBufferSectors : Int
  bufferTrack : Int
  bufferDrive : Int
  bufferMin : Int
  bufferMax : Int
  deriving DecidableEq, Repr

/-- What else the function depends on. -/
structure RwInput where
  /-- `current_drive`, after `set_fdc`. -/
  currentDrive : Word
  probing : Bool
  /-- `FD_NEED_TWADDLE_BIT` is set. -/
  needTwaddle : Bool
  errors : Word
  /-- `DP->max_errors.read_track`. -/
  maxReadTrack : Word
  /-- The bit of `DP->read_track` for the format that is probed. -/
  readTrack : Bool
  useVirtualDma : Bool
  deriving DecidableEq, Repr

/-- The command in `raw_cmd`. -/
structure RwCmd where
  flags : Word
  rate : Byte
  /-- `raw_cmd->track`. -/
  seekTrack : Int
  command : Byte
  drSelect : Int
  track : Int
  head : Int
  sector : Int
  sizecode : Int
  sectPerTrack : Int
  gap : Byte
  sizecode2 : Byte
  deriving DecidableEq, Repr

namespace FloppyStruct

variable (floppy : FloppyStruct)

/-- `_floppy->sect` as a number. -/
def sects : Int := floppy.sect.toNat

/-- `_floppy->sect * _floppy->head`, as the `int` in which it is stored. -/
def maxSector : Int := int32 (floppy.sects * floppy.head.toNat)

end FloppyStruct

/-- `TRACK` and `fsector_t`. -/
def locate (floppy : FloppyStruct) (pos : Word) : Except Stop (Int × Int) := do
  let (track, sector) ← idiv (int32 pos.toNat) floppy.maxSector
  return (uchar track, uchar sector)

/-- How a track is divided, as far as it is known. -/
structure Filling where
  sector : Int
  sectPerTrack : Int
  sizecode : Int
  ssize : Int
  tracksize : Int
  deriving DecidableEq, Repr

section Fill

variable (sects inSide : Int)

/-- A sector of this size does not fit into the track. -/
def tooLarge (filling : Filling) : Bool :=
  uint32 (filling.tracksize + filling.ssize) > sects

def halve (filling : Filling) : Except Stop Filling :=
  .ok { filling with sizecode := uchar (filling.sizecode - 1), ssize := filling.ssize / 2 }

/-- The inner loop, for the size of the next sector. -/
def shrink : Filling → Except Stop Filling :=
  loop (tooLarge sects) halve 32

/-- The sector that is wanted is not reached. -/
def unreached (filling : Filling) : Bool :=
  uint32 filling.tracksize ≤ inSide

def addSector (filling : Filling) : Except Stop Filling := do
  let filling ← shrink sects filling
  return { filling with
    sector := uchar (filling.sector + 1)
    sectPerTrack := uchar (filling.sectPerTrack + 1)
    tracksize := int32 (filling.tracksize + filling.ssize) }

/-- The loop that fills up with smaller sectors, as far as the sector that is wanted. -/
def fillUp : Filling → Except Stop Filling :=
  loop (unreached inSide) (addSector sects) 256

/-- The division of a track, and whether sectors of one size do not fill it. -/
def fillTrack (sectbase sizecode : Int) : Except Stop (Bool × Filling) := do
  let ssize := (2 ^ sizecode.toNat + 3) / 4
  let (_, rest) ← udiv sects ssize
  let filling : Filling :=
    { sector := uchar (inSide * 4 / 2 ^ sizecode.toNat + sectbase)
      sectPerTrack := uchar (uint32 (sects * 4) / 2 ^ sizecode.toNat)
      sizecode := sizecode
      ssize := ssize
      tracksize := int32 (sects - rest) }
  if uint32 filling.tracksize < sects then
    let sector :=
      if uint32 filling.tracksize ≤ inSide then uchar (filling.sector - 1) else filling.sector
    let sectPerTrack := uchar (filling.sectPerTrack + 1)
    let filled ← fillUp sects inSide { filling with sector, sectPerTrack }
    return (true, filled)
  else return (false, filling)

end Fill

/-- What is known when the command bytes are set. -/
structure Layout where
  cmd : RwCmd
  fsectorT : Int
  inSectorOffset : Int
  ssize : Int
  maxSector : Int
  deriving DecidableEq, Repr

namespace Layout

variable (layout : Layout)

def alignedSectorT : Int := layout.fsectorT - layout.inSectorOffset

def reads : Bool := ct layout.cmd.command = fdRead

def writes : Bool := ct layout.cmd.command = fdWrite

end Layout

section Layout

variable (floppy : FloppyStruct) (input : RwInput) (req : Request)

/-- The first side of the first track of a 2M disk has phantom sectors. -/
def phantoms (track head : Int) : Bool :=
  floppy.is2m && track = 0 && head = 0

/-- The size of the sectors with which a track begins. -/
def sectorCode (track head : Int) : Nat :=
  if phantoms floppy track head then 2 else floppy.sizecode

/-- `max_sector`, before it is known how the track is divided. -/
def sideLimit (track head fsectorT : Int) : Int :=
  if phantoms floppy track head then int32 (uint32 (2 * floppy.sects) / 3)
  else if (floppy.stretch &&& (fdSwapsides ||| fdSectbasemask) ≠ 0 || input.needTwaddle) &&
      fsectorT < floppy.sects then int32 floppy.sects
  else floppy.maxSector

/-- `max_sector`, when it is. -/
def runLimit (track head fsectorT : Int) (uneven : Bool) (tracksize : Int) : Int :=
  if uneven then int32 (head * floppy.sects + tracksize)
  else if track = 0 && head = 0 && !floppy.is2m && input.probing then int32 floppy.sects
  else if head = 0 && ct (req.command floppy) = fdWrite then int32 floppy.sects
  else sideLimit floppy input track head fsectorT

/-- The bytes of the command, and the rest of what the geometry decides. -/
def layOut (track head inSide fsectorT : Int) : Except Stop Layout := do
  let sizecode := sectorCode floppy track head
  let rate := floppy.rate &&& 0x43
  let (uneven, filling) ← fillTrack floppy.sects inSide floppy.sectbase.toNat sizecode
  let (_, offset) ← udiv inSide filling.ssize
  let cmd : RwCmd :=
    { flags := fdRawSpin ||| fdRawNeedDisk ||| fdRawNeedSeek |||
        (if req.write then fdRawWrite else fdRawRead)
      rate := if floppy.is2m && (track ≠ 0 || head ≠ 0) && rate = 2 then 1 else rate
      seekTrack := track * 2 ^ floppy.stretchShift
      command := req.command floppy
      drSelect := uchar ((input.currentDrive &&& 3) +
        floppy.phHead (.ofInt 32 head) : Word).toNat
      track := track
      head := head
      sector := filling.sector
      sizecode := filling.sizecode
      sectPerTrack := filling.sectPerTrack
      gap := floppy.gap
      sizecode2 := if sizecode ≠ 0 then 0xff else 0x80 }
  return {
    cmd := cmd
    fsectorT := fsectorT
    inSectorOffset := uchar offset
    ssize := filling.ssize
    maxSector := runLimit floppy input req track head fsectorT uneven filling.tracksize }

end Layout

/-- `MAX_DMA_ADDRESS`. -/
def maxDmaAddress : Int := 0xc1000000

/-- `K_64`. -/
def k64 : Int := 0x10000

/-- The loop in `buffer_chain_size`. -/
def chainSize (base : Int) : List Segment → Int → Int
  | [], size => size
  | segment :: rest, size =>
      if segment.address.toNat ≠ uint32 (base + size) then size
      else chainSize base rest (int32 (size + segment.length.toNat))

/-- `buffer_chain_size`. -/
def bufferChainSize (req : Request) : Int :=
  chainSize req.bioData.toNat req.segments 0 / 512

/-- `CROSS_64KB`. -/
def cross64kb (useVirtualDma : Bool) (address size : Int) : Bool :=
  !useVirtualDma && address / k64 ≠ uint32 (address + size - 1) / k64

/-- `transfer_size`. Also, `current_count_sectors` is set to the difference to `fsector_t`. -/
def transferSize (sects fsectorT ssize maxSector maxSize : Int) : Except Stop Int := do
  let maxSector := min maxSector (int32 (fsectorT + maxSize))
  let (_, inSide) ← udiv (uint32 maxSector) sects
  let (_, rest) ← udiv inSide ssize
  return int32 (maxSector - rest)

/-- One call of `memcpy`. -/
structure SegmentCopy where
  target : Int
  source : Int
  size : Int
  deriving DecidableEq, Repr

/-- The loop in `copy_buffer`. -/
def copySegments (buffer : BufferState) (reads : Bool) :
    List Segment → Int → Int → List SegmentCopy
  | [], _, _ => []
  | segment :: rest, remaining, dmaBuffer =>
      let base : Int := buffer.floppyTrackBuffer.toNat
      let size := min (int32 segment.length.toNat) remaining
      let address : Int := segment.address.toNat
      if remaining = 0 then []
      else if uint32 (dmaBuffer + size) > uint32 (base + buffer.maxBufferSectors * 1024) ||
          dmaBuffer < base then []
      else
        let copy : SegmentCopy :=
          if reads then ⟨address, dmaBuffer, size⟩ else ⟨dmaBuffer, address, size⟩
        copy ::
          copySegments buffer reads rest (int32 (remaining - size)) (uint32 (dmaBuffer + size))

/-- What `copy_buffer` leaves. -/
structure Copied where
  currentCountSectors : Int
  bufferMax : Int
  copies : List SegmentCopy
  deriving DecidableEq, Repr

/-- `copy_buffer`. -/
def copyBuffer (sects : Int) (buffer : BufferState) (req : Request) (layout : Layout)
    (ssize maxSector : Int) : Except Stop Copied := do
  let fsectorT := layout.fsectorT
  let maxSector ← transferSize sects fsectorT ssize maxSector req.sectors
  let count := int32 (maxSector - fsectorT)
  -- the comparison is one of unsigned numbers
  let count :=
    if count ≤ 0 && layout.writes && uint32 buffer.bufferMax > uint32 (fsectorT + req.sectors) then
      min (int32 (buffer.bufferMax - fsectorT)) req.sectors
    else count
  let dmaBuffer :=
    uint32 (buffer.floppyTrackBuffer.toNat + (fsectorT - buffer.bufferMin) * 512)
  return {
    currentCountSectors := count
    bufferMax := max maxSector buffer.bufferMax
    copies := copySegments buffer layout.reads req.segments (int32 (count * 512)) dmaBuffer }

/-- `virtualdmabug_workaround`. -/
def virtualdmabugWorkaround (cmd : RwCmd) (length : Int) : RwCmd :=
  if ct cmd.command = fdWrite then
    let endSector := cmd.sector + length / 2 ^ (7 + cmd.sizecode).toNat - 1
    let cmd := { cmd with command := cmd.command &&& ~~~0x80 }
    if endSector > cmd.sectPerTrack then cmd else { cmd with sectPerTrack := uchar endSector }
  else cmd

/-- What `make_raw_rw_request` returns, and what it has set then. -/
inductive RwOutcome where
  /-- It returns 0. -/
  | refused
  /-- It returns 1, and so many sectors are passed over. -/
  | skipped (currentCountSectors : Int)
  /-- It returns 1, and sectors are copied from the track buffer. -/
  | copied (layout : Layout) (result : Copied)
  /-- It returns 2. -/
  | programmed (layout : Layout) (kernelData length currentCountSectors : Int)
      (copies : List SegmentCopy)
  deriving DecidableEq, Repr

section Decision

variable (floppy : FloppyStruct) (input : RwInput) (buffer : BufferState) (req : Request)

def BufferState.limit : Int :=
  uint32 (buffer.floppyTrackBuffer.toNat + buffer.maxBufferSectors * 1024)

/-- `raw_cmd->length`, from the number of sectors of 512 bytes. -/
def dmaLength (layout : Layout) (count : Int) : Int :=
  int32 ((or32 (layout.inSectorOffset + count - 1) (layout.ssize - 1) + 1) * 512)

/-- The checks at the end, when it is known whether the length is a fraction of a sector. -/
def accept (layout : Layout) (kernelData length count : Int) (copies : List SegmentCopy)
    (fraction : Int) : RwOutcome :=
  if fraction ≠ 0 || length ≤ 0 || count ≤ 0 then .refused
  else if kernelData ≠ req.buffer.toNat &&
      (kernelData < buffer.floppyTrackBuffer.toNat || count < 0 || length < 0 ||
        uint32 (kernelData + length) > buffer.limit) then .refused
  else if kernelData = req.buffer.toNat &&
      (uint32 length > req.dataLen.toNat || uint32 count > req.sectors) then .refused
  else if length = 0 then .refused
  else
    let cmd := virtualdmabugWorkaround layout.cmd length
    .programmed { layout with cmd := cmd } kernelData length count copies

/-- The end of the function, where it checks what has been decided. -/
def finish (layout : Layout) (kernelData count : Int) (copies : List SegmentCopy) :
    Except Stop RwOutcome :=
  let aligned := layout.alignedSectorT
  let length := dmaLength layout count
  if length < int32 (count * 512) ||
      (kernelData ≠ req.buffer.toNat && layout.writes &&
        (aligned + length / 512 > buffer.bufferMax || aligned < buffer.bufferMin)) then
    .ok .refused
  else do
    let (_, fraction) ← idiv length (int32 (128 * 2 ^ (layout.cmd.sizecode.toNat % 32)))
    return accept buffer req layout kernelData length count copies fraction

/-- The data cannot be put behind what is in the track buffer already. -/
def claimsBuffer (layout : Layout) (maxSize : Int) : Bool :=
  let fsectorT := layout.fsectorT
  let space := int32 (2 * buffer.maxBufferSectors + buffer.bufferMin)
  buffer.bufferTrack ≠ layout.cmd.seekTrack || buffer.bufferDrive ≠ input.currentDrive.toInt ||
    fsectorT > buffer.bufferMax || fsectorT < buffer.bufferMin ||
    ((layout.reads || (layout.inSectorOffset = 0 && req.sectors ≥ layout.ssize)) &&
      layout.maxSector > space && int32 (maxSize + fsectorT) > space)

/-- The track buffer, if it is claimed for another part of the disk. -/
def claimBuffer (layout : Layout) (maxSize : Int) : BufferState :=
  if claimsBuffer input buffer req layout maxSize then
    { buffer with
      bufferTrack := -1
      bufferDrive := input.currentDrive.toInt
      bufferMin := layout.alignedSectorT
      bufferMax := layout.alignedSectorT }
  else buffer

/-- The way through the track buffer. -/
def throughBuffer (layout : Layout) (maxSize : Int) : Except Stop (RwOutcome × BufferState) := do
  let maxSize := if layout.reads then layout.maxSector else maxSize
  let buffer := claimBuffer input buffer req layout maxSize
  let aligned := layout.alignedSectorT
  let space := int32 (2 * buffer.maxBufferSectors + buffer.bufferMin)
  let kernelData := uint32 (buffer.floppyTrackBuffer.toNat + (aligned - buffer.bufferMin) * 512)
  if layout.writes then
    let buffer := { buffer with
      bufferTrack := layout.cmd.seekTrack
      bufferDrive := input.currentDrive.toInt }
    let result ← copyBuffer floppy.sects buffer req layout layout.ssize
      (min layout.maxSector space)
    let buffer := { buffer with bufferMax := result.bufferMax }
    let outcome ← finish buffer req layout kernelData result.currentCountSectors result.copies
    return (outcome, buffer)
  else
    let maxSector ← transferSize floppy.sects layout.fsectorT layout.ssize layout.maxSector
      (int32 (space - aligned))
    let outcome ← finish buffer req layout kernelData (int32 (maxSector - layout.fsectorT)) []
    return (outcome, buffer)

/-- How many sectors can go to the buffer of the request. -/
def directLimit : Int :=
  let address : Int := req.buffer.toNat
  let dmaLimit := (maxDmaAddress - address) / 512
  let maxSize := bufferChainSize req
  let maxSize := if uint32 maxSize > dmaLimit then dmaLimit else maxSize
  if cross64kb input.useVirtualDma address (maxSize * 512) then (k64 - address % k64) / 512
  else maxSize

/-- The data goes straight to the buffer of the request, unless the track buffer is better. -/
def direct (layout : Layout) : Except Stop (RwOutcome × BufferState) := do
  let fsectorT := layout.fsectorT
  let indirectEnd ← transferSize floppy.sects fsectorT layout.ssize layout.maxSector
    (int32 (buffer.maxBufferSectors * 2))
  let indirect := int32 (indirectEnd - fsectorT)
  let directEnd ← transferSize floppy.sects fsectorT layout.ssize layout.maxSector
    (directLimit input req)
  let direct := int32 (directEnd - fsectorT)
  if direct = 0 || (int32 (indirect * 2) > int32 (direct * 3) &&
      input.errors.toNat < input.maxReadTrack.toNat && (!input.probing || input.readTrack)) then
    throughBuffer floppy input buffer req layout req.sectors
  else
    let length := int32 (direct * 512)
    if length = 0 then return (.refused, buffer)
    else
      let cmd := virtualdmabugWorkaround layout.cmd length
      return (.programmed { layout with cmd := cmd } req.buffer.toNat length direct [], buffer)

/-- The sectors around a write that does not fill the ones of the controller are read first. -/
def readFirst (layout : Layout) : Layout :=
  { layout with cmd := { layout.cmd with
      flags := (layout.cmd.flags &&& ~~~fdRawWrite) ||| fdRawRead
      command := fmMode floppy fdRead } }

/-- `max_size` for such a write. -/
def readFirstSize (layout : Layout) : Int :=
  if layout.writes then
    let sectors := uint32 (layout.fsectorT + req.sectors)
    if sectors > layout.ssize && sectors < layout.ssize + layout.ssize then
      layout.ssize + layout.ssize
    else layout.ssize
  else req.sectors

/-- The sectors are in the track buffer. -/
def inBuffer (layout : Layout) : Bool :=
  layout.cmd.seekTrack = buffer.bufferTrack && input.currentDrive.toInt = buffer.bufferDrive &&
    layout.fsectorT ≥ buffer.bufferMin && layout.fsectorT < buffer.bufferMax

/-- What to do with a layout. -/
def transfer (layout : Layout) : Except Stop (RwOutcome × BufferState) :=
  if inBuffer input buffer layout then
    if layout.reads then do
      let result ← copyBuffer floppy.sects buffer req layout 1
        (min layout.maxSector buffer.bufferMax)
      return (.copied layout result, { buffer with bufferMax := result.bufferMax })
    else throughBuffer floppy input buffer req layout req.sectors
  else if layout.inSectorOffset ≠ 0 || req.sectors < layout.ssize then
    throughBuffer floppy input buffer req (readFirst floppy layout) (readFirstSize req layout)
  else if req.buffer.toNat < maxDmaAddress then direct floppy input buffer req layout
  else throughBuffer floppy input buffer req layout req.sectors

/-- `make_raw_rw_request`. -/
def Request.makeRawRwRequest : Except Stop (RwOutcome × BufferState) :=
  if buffer.maxBufferSectors = 0 then .ok (.refused, buffer)
  else do
    let (track, fsectorT) ← locate floppy req.pos
    if floppy.track ≠ 0 && track ≥ floppy.track.toNat then
      if req.curSectors % 2 = 1 then return (.skipped 1, buffer) else return (.refused, buffer)
    else
      let (head, inSide) ← udiv fsectorT floppy.sects
      let head := uchar head
      if phantoms floppy track head &&
          fsectorT ≥ sideLimit floppy input track head fsectorT then
        return (.skipped (min (int32 (floppy.sects - fsectorT)) req.sectors), buffer)
      else
        let layout ← layOut floppy input req track head inSide fsectorT
        transfer floppy input buffer req layout

end Decision

end Gray386.Floppy
