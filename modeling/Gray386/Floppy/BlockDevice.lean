import Gray386.Floppy.Service
import Gray386.Machine.Simulation

/-!
# The driver is a block device

A block device is numbered blocks for every drive. What is read is what the blocks have, and a
write replaces those that it is for. There is no track buffer, and no memory: the data is part
of what is read or written.

On disks as in `Gray386.Floppy.Plain` the driver behaves like that in every run, with requests to
different drives in any order, with disks being changed and formatted, and with memory being
used for other things in between. A block that is given back without an error has what was last
written to it. Writes are taken to succeed and not to get to blocks in the track buffer unless
they begin there; reads may fail.

Raw commands do not let go of the track buffer, and `FDSETPRM` need not. They are not among the
inputs.
-/

namespace Gray386.Floppy

open Gray386.Machine

/-- What the driver works on, and the formats of the disks. -/
structure Station where
  formats : Word → FloppyStruct
  io : IoState

inductive DeviceInput where
  | read (params : DriveParams) (req : BlkRequest) (turns : List Turn)
  | write (params : DriveParams) (req : BlkRequest) (turns : List Turn)
  /-- There is another disk, and `floppy_revalidate` is called. -/
  | change (drive : Word) (floppy : FloppyStruct) (disks : Disks)
  /-- `redo_format`, with what it puts in the track buffer and what is then on the disk. -/
  | format (drive : Word) (scratch : Buffer) (disks : Disks)
  /-- Memory other than the track buffer is used. -/
  | elsewhere (memory : Buffer)

inductive DeviceOutput where
  /-- The bios are given back, and the memory of the request has or had some data. -/
  | served (ended : List BioEnd) (data : Nat → Byte)
  | silent
  /-- The request is not given back. -/
  | stuck

/-- `floppy_revalidate` for a drive. -/
def BufferState.revalidate (buffer : BufferState) (drive : Word) : BufferState :=
  if buffer.bufferDrive = drive.toInt then { buffer with bufferTrack := -1 } else buffer

/-- A drive with the contents of another disk. -/
def Disks.exchange (disks others : Disks) (drive : Word) : Disks := fun sector =>
  if sector.drive = drive then others sector else disks sector

/-- The data of a request. -/
def IoState.dataOf (st : IoState) (req : BlkRequest) : Nat → Byte := fun i =>
  st.memory (addressAt req.view.ranges i)

namespace Station

variable (station : Station)

def serve (params : DriveParams) (req : BlkRequest) (turns : List Turn) :
    Option (List BioEnd × IoState) :=
  match station.io.serve params (station.formats params.currentDrive) turns req with
  | .ok (none, ended, io) => some (ended, io)
  | _ => none

def step : DeviceInput → DeviceOutput × Station
  | .read params req turns =>
      match station.serve params req turns with
      | some (ended, io) => (.served ended (io.dataOf req), { station with io })
      | none => (.stuck, station)
  | .write params req turns =>
      match station.serve params req turns with
      | some (ended, io) => (.served ended (station.io.dataOf req), { station with io })
      | none => (.stuck, station)
  | .change drive floppy disks =>
      (.silent, ⟨Function.update station.formats drive floppy, { station.io with
        disks := station.io.disks.exchange disks drive
        buffer := station.io.buffer.revalidate drive }⟩)
  | .format drive scratch disks =>
      let range := station.io.buffer.range
      (.silent, { station with io := {
        memory := station.io.memory.splice scratch range.start range.start range.count
        disks := station.io.disks.exchange disks drive
        buffer := { station.io.buffer with bufferTrack := -1 } } })
  | .elsewhere memory =>
      let range := station.io.buffer.range
      (.silent, { station with io := { station.io with
        memory := memory.splice station.io.memory range.start range.start range.count } })

end Station

/-- The bytes of the blocks in the drives. -/
abbrev Device := Word → Nat → Nat → Byte

def Device.store (device : Device) (drive : Word) (pos blocks : Nat) (data : Nat → Byte) :
    Device := fun other block offset =>
  if other = drive ∧ pos ≤ block ∧ block < pos + blocks then data ((block - pos) * 512 + offset)
  else device other block offset

/-- What a block device does. -/
inductive DeviceStep (device : Device) : DeviceInput → DeviceOutput → Device → Prop
  | read {params : DriveParams} {req : BlkRequest} {turns : List Turn} {fates : List Bool}
      {data : Nat → Byte} (length_eq : fates.length = req.dataLen.toNat)
      (good : ∀ i : Nat, fates[i]? = some true →
        data i = device params.currentDrive (req.pos.toNat + i / 512) (i % 512))
      (healthy : (∀ turn ∈ turns, turn.ending.Complete) → ∀ fate ∈ fates, fate = true) :
      DeviceStep device (.read params req turns) (.served (report req.bios fates) data) device
  | write {params : DriveParams} {req : BlkRequest} {turns : List Turn} {data : Nat → Byte} :
      DeviceStep device (.write params req turns)
        (.served (report req.bios (List.replicate req.dataLen.toNat true)) data)
        (device.store params.currentDrive req.pos.toNat req.view.blocks data)
  | change {drive : Word} {floppy : FloppyStruct} {disks : Disks} {next : Device}
      (others : ∀ other, other ≠ drive → next other = device other) :
      DeviceStep device (.change drive floppy disks) .silent next
  | format {drive : Word} {scratch : Buffer} {disks : Disks} {next : Device}
      (others : ∀ other, other ≠ drive → next other = device other) :
      DeviceStep device (.format drive scratch disks) .silent next
  | elsewhere {memory : Buffer} : DeviceStep device (.elsewhere memory) .silent device

/-- The driver is in a state in which it shows some blocks. -/
structure Station.Presents (station : Station) (device : Device) : Prop where
  coherent : station.io.Coherent station.formats
  plain : ∀ drive, Plain (station.formats drive)
  data_eq : ∀ drive (block : Nat), block < (station.formats drive).blocks → ∀ offset < 512,
    device drive block offset =
      station.io.disks ((station.formats drive).blockSector drive block) offset

/-- A request that may be made. -/
structure Station.Accepts (station : Station) (params : DriveParams) (req : BlkRequest) : Prop where
  placed : req.Placed station.io.buffer
  onDisk : req.pos.toNat + req.view.blocks ≤ (station.formats params.currentDrive).blocks
  fresh : req.errors = 0

/-- What is assumed of an input. -/
def Station.Allows (station : Station) : DeviceInput → Prop
  | .read params req turns =>
      station.Accepts params req ∧ req.write = false ∧ params.maxAbort.toNat < 4294967295 ∧
        (∀ turn ∈ turns, turn.ending.Counted) ∧
        req.view.blocks * (params.maxAbort.toNat + 3) ≤ turns.length
  | .write params req turns =>
      station.Accepts params req ∧ req.write = true ∧ (∀ turn ∈ turns, turn.ending.Complete) ∧
        station.io.buffer.Clear (station.formats params.currentDrive) params.currentDrive req.pos
          req.view.blocks ∧
        req.view.blocks ≤ turns.length
  | .change _ floppy _ => Plain floppy
  | .format _ _ _ | .elsewhere _ => True

section Simulation

variable {station : Station} {device : Device} {params : DriveParams} {req : BlkRequest}
  {turns : List Turn} {drive : Word}

namespace Station

theorem Presents.serving (presents : station.Presents device)
    (accepts : station.Accepts params req) :
    Serving station.formats params.currentDrive req station.io :=
  ⟨presents.coherent, presents.plain _, accepts.placed, accepts.onDisk⟩

theorem Presents.read (presents : station.Presents device)
    (allowed : station.Allows (.read params req turns)) :
    DeviceStep device (.read params req turns) (station.step (.read params req turns)).1 device ∧
      (station.step (.read params req turns)).2.Presents device := by
  rcases allowed with ⟨accepts, reads, limit, counted, enough⟩
  have serving := presents.serving accepts
  rw [← roundsFor_fresh accepts.placed.toWellFormed accepts.fresh] at enough
  rcases serving.reads_from reads limit (by rw [accepts.fresh]; exact Nat.zero_le _) counted .load
    enough with ⟨fates, after, served, back, healthy⟩
  have serve_eq : station.serve params req turns = some (report req.bios fates, after) := by
    rw [Station.serve, served]
  have mul := accepts.placed.blocks_mul
  have onDisk := accepts.onDisk
  simp only [Station.step, serve_eq]
  constructor
  · refine .read back.length_eq (fun i good => ?_) healthy
    have lt : i < req.dataLen.toNat := by
      rw [← back.length_eq]
      exact (List.getElem?_eq_some_iff.mp good).1
    rw [presents.data_eq _ _ (by omega) _ (by omega)]
    exact back.bytes i good
  · refine ⟨back.coherent, presents.plain, ?_⟩
    rw [back.disks_eq]
    exact presents.data_eq

theorem Presents.write (presents : station.Presents device)
    (allowed : station.Allows (.write params req turns)) :
    ∃ next,
      DeviceStep device (.write params req turns) (station.step (.write params req turns)).1 next ∧
      (station.step (.write params req turns)).2.Presents next := by
  rcases allowed with ⟨accepts, writes, complete, clear, enough⟩
  rcases (presents.serving accepts).writes writes complete clear enough with ⟨after, served, back⟩
  have serve_eq : station.serve params req turns =
      some (report req.bios (List.replicate req.dataLen.toNat true), after) := by
    rw [Station.serve, served]
  simp only [Station.step, serve_eq]
  refine ⟨_, .write, back.coherent, presents.plain, fun drive block lt offset offset_lt => ?_⟩
  rw [Device.store]
  split_ifs with inside
  · rcases inside with ⟨rfl, lower, upper⟩
    have byte := back.written.bytes ((block - req.pos.toNat) * 512 + offset) (by omega)
    have block_eq : req.pos.toNat + ((block - req.pos.toNat) * 512 + offset) / 512 = block := by
      omega
    have offset_eq : ((block - req.pos.toNat) * 512 + offset) % 512 = offset := by omega
    rw [show req.view.pos = req.pos from rfl, block_eq, offset_eq] at byte
    exact byte.symm
  · rw [presents.data_eq drive block lt offset offset_lt, back.written.others]
    intro i i_lt same
    obtain rfl : params.currentDrive = drive := congrArg SectorId.drive same
    have := (presents.plain _).blockSector_inj same
    exact inside ⟨rfl, by simp only [BlkRequest.view] at this; omega,
      by simp only [BlkRequest.view] at this; omega⟩

/-- The track buffer is let go of. -/
theorem roomy_invalid {buffer : BufferState} (roomy : buffer.Roomy) :
    BufferState.Roomy { buffer with bufferTrack := -1 } :=
  { roomy with }

theorem coherent_revalidate {formats : Word → FloppyStruct} {st : IoState}
    (coherent : st.Coherent formats) (drive : Word) (floppy : FloppyStruct) (disks : Disks) :
    IoState.Coherent (Function.update formats drive floppy) { st with
      disks := st.disks.exchange disks drive
      buffer := st.buffer.revalidate drive } := by
  rw [BufferState.revalidate]
  split_ifs with same
  · exact coherent_of_invalid (roomy_invalid coherent.roomy) rfl
  · refine ⟨coherent.roomy, fun other track nonneg other_eq track_eq => ?_⟩
    have ne : other ≠ drive := by
      rintro rfl
      exact same other_eq
    rw [Function.update_of_ne ne] at track_eq ⊢
    have holds := coherent.held other track nonneg other_eq track_eq
    refine ⟨holds.min_nonneg, holds.max_le, fun block lower upper offset lt => ?_⟩
    have elsewhere : ((formats other).sectorOf other track block).drive ≠ drive := ne
    simp only [Disks.exchange, if_neg elsewhere]
    exact holds.bytes block lower upper offset lt

/-- The contents of a drive are exchanged, and those of the others are not. -/
theorem Presents.exchange (presents : station.Presents device) (drive : Word) (disks : Disks)
    {io : IoState} {formats : Word → FloppyStruct} (coherent : io.Coherent formats)
    (plain : ∀ drive, Plain (formats drive))
    (formats_eq : ∀ other, other ≠ drive → formats other = station.formats other)
    (disks_eq : io.disks = station.io.disks.exchange disks drive) :
    ∃ next : Device, (∀ other, other ≠ drive → next other = device other) ∧
      Station.Presents ⟨formats, io⟩ next := by
  refine ⟨Function.update device drive fun block offset =>
    io.disks ((formats drive).blockSector drive block) offset,
    fun other ne => Function.update_of_ne ne _ _, coherent, plain,
    fun other block lt offset offset_lt => ?_⟩
  by_cases same : other = drive
  · subst same
    rw [Function.update_self]
  · have elsewhere : ((formats other).blockSector other block).drive ≠ drive := same
    simp only [formats_eq other same] at lt elsewhere
    rw [Function.update_of_ne same, presents.data_eq other block lt offset offset_lt]
    simp only [disks_eq, formats_eq other same, Disks.exchange, if_neg elsewhere]

theorem Presents.step {input : DeviceInput} (presents : station.Presents device)
    (allowed : station.Allows input) :
    ∃ next, DeviceStep device input (station.step input).1 next ∧
      (station.step input).2.Presents next := by
  cases input with
  | read params req turns => exact ⟨device, presents.read allowed⟩
  | write params req turns => exact presents.write allowed
  | change drive floppy disks =>
      have plain (other : Word) : Plain (Function.update station.formats drive floppy other) := by
        by_cases same : other = drive
        · rw [same, Function.update_self]
          exact allowed
        · rw [Function.update_of_ne same]
          exact presents.plain other
      rcases presents.exchange drive disks
        (coherent_revalidate presents.coherent drive floppy disks) plain
        (fun other ne => Function.update_of_ne ne _ _) rfl with ⟨next, others, shows⟩
      exact ⟨next, .change others, shows⟩
  | format drive scratch disks =>
      have coherent :
          (station.step (.format drive scratch disks)).2.io.Coherent station.formats :=
        coherent_of_invalid (roomy_invalid presents.coherent.roomy) rfl
      rcases presents.exchange drive disks coherent presents.plain (fun other _ => rfl) rfl
        with ⟨next, others, shows⟩
      exact ⟨next, .format others, shows⟩
  | elsewhere memory =>
      refine ⟨device, .elsewhere, presents.coherent.of_memory fun address inside => ?_,
        presents.plain, presents.data_eq⟩
      rcases inside with ⟨lower, upper⟩
      obtain ⟨i, rfl⟩ := Nat.exists_eq_add_of_le lower
      exact Buffer.splice_of_contains (by omega)

end Station

/-- Disks that are empty, and a track buffer that has just been allocated. -/
def openedStation (floppy : FloppyStruct) : Station :=
  ⟨fun _ => floppy, ⟨fun _ => 0, fun _ _ => 0, openedBuffer⟩⟩

theorem presents_openedStation {floppy : FloppyStruct} (plain : Plain floppy) :
    (openedStation floppy).Presents fun _ _ _ => 0 :=
  ⟨coherent_opened _ _ _, fun _ => plain, fun _ _ _ _ _ => rfl⟩

def firstDrive : DriveParams := ⟨0, 5, true, false, 5⟩

/-- All blocks are transferred. -/
def fineTurn : Turn := ⟨false, ⟨none, [], .fine⟩⟩

theorem complete_fineTurn (count : Nat) :
    ∀ turn ∈ List.replicate count fineTurn, turn.ending.Complete := by
  intro turn mem
  rw [List.eq_of_mem_replicate mem]
  exact ⟨rfl, Or.inl rfl⟩

/-- A block is written. -/
def writtenBlock : List DeviceInput :=
  [.elsewhere fun _ => 7, .write firstDrive (blockRequest true 0 512) [fineTurn]]

/-- It is then read. -/
theorem allowed_writtenBlock :
    AllowedAlong Station.step Station.Allows (openedStation (floppyTypes.get 7)) (writtenBlock ++
      [.read firstDrive (blockRequest false 0 512) (List.replicate 8 fineTurn)]) := by
  refine ⟨trivial, ⟨⟨placed_blockRequest _ _ rfl, by decide, rfl⟩, rfl, ?_, ?_, by decide⟩,
    ⟨⟨placed_blockRequest _ _ (by decide +kernel), by decide +kernel, rfl⟩, rfl, by decide, ?_,
      by decide⟩, trivial⟩
  · exact complete_fineTurn 1
  · exact Or.inr fun i _ => not_found_of_invalid rfl _ _ _
  · intro turn mem
    rw [List.eq_of_mem_replicate mem]
    exact fun _ => Option.some_ne_none 0 ∘ Eq.symm

/--
The track buffer is filled from block 5 on, and then blocks 0 to 12 are written directly. The
track buffer still has block 5 as it was.
-/
example :
    let turns := List.replicate 2 fineTurn
    (outputs Station.step (openedStation (floppyTypes.get 7))
      [.read firstDrive (blockRequest false 5 512) turns, .elsewhere fun _ => 7,
        .write firstDrive (blockRequest true 0 6656) turns,
        .read firstDrive (blockRequest false 5 512) turns]).map
      (fun output => match output with
        | .served _ data => some (data 0)
        | _ => none) = [some 0, none, some 7, some 0] := by
  decide +kernel

/-- What is known of the blocks: the data that was last written. -/
abbrev Known := Word → Nat → Nat → Option Byte

def Known.note (known : Known) : DeviceInput → DeviceOutput → Known
  | .write params req _, .served _ data => fun drive block offset =>
      if drive = params.currentDrive ∧ req.pos.toNat ≤ block ∧
          block < req.pos.toNat + req.view.blocks then
        some (data ((block - req.pos.toNat) * 512 + offset))
      else known drive block offset
  | .change drive _ _, _ | .format drive _ _, _ => Function.update known drive fun _ _ => none
  | _, _ => known

def knownAfter (inputs : List DeviceInput) (outputs : List DeviceOutput) : Known :=
  (inputs.zip outputs).foldl (fun known event => known.note event.1 event.2) fun _ _ _ => none

/-- The blocks are as it is known. -/
def Device.Agrees (device : Device) (known : Known) : Prop :=
  ∀ drive block offset byte, known drive block offset = some byte →
    device drive block offset = byte

theorem DeviceStep.agrees {next : Device} {input : DeviceInput} {output : DeviceOutput}
    {known : Known} (stepped : DeviceStep device input output next) (agrees : device.Agrees known) :
    next.Agrees (known.note input output) := by
  have exchanged {drive : Word} (others : ∀ other, other ≠ drive → next other = device other) :
      next.Agrees (Function.update known drive fun _ _ => none) := by
    intro other block offset byte noted
    by_cases same : other = drive
    · rw [same, Function.update_self] at noted
      nomatch noted
    · rw [Function.update_of_ne same] at noted
      rw [others other same]
      exact agrees other block offset byte noted
  cases stepped with
  | read => exact agrees
  | elsewhere => exact agrees
  | change others => exact exchanged others
  | format others => exact exchanged others
  | write =>
      intro drive block offset byte noted
      simp only [Known.note] at noted
      rw [Device.store]
      split_ifs at noted ⊢ with inside
      · exact Option.some.inj noted
      · exact agrees drive block offset byte noted

theorem behaves_agrees {last : Device} {inputs : List DeviceInput} {shown : List DeviceOutput}
    (run : Behaves DeviceStep device inputs shown last) :
    last.Agrees (knownAfter inputs shown) := by
  refine (Behaves.invariant (fun past shown (device : Device) => past.length = shown.length ∧
    device.Agrees (knownAfter past shown)) ?_ ⟨rfl, ?_⟩ run).2
  · rintro past shown state input output next ⟨length_eq, agrees⟩ stepped
    refine ⟨by rw [List.length_append, List.length_append, length_eq]; rfl, ?_⟩
    rw [knownAfter, List.zip_append length_eq, List.foldl_append]
    exact stepped.agrees agrees
  · intro drive block offset byte noted
    nomatch noted

end Simulation

end Gray386.Floppy
