import Gray386.Floppy.Transfer

/-!
# The track buffer agrees with the disk

A block in the track buffer is read from there, and the disk is not asked. So it should be as
on the disk, whatever has been read and written in the meantime. Each round is shown to keep
this and to do what it should do with the blocks of its request.

There are two exceptions, and both are about writes. A write that does not begin with a block
in the track buffer may go from the memory of the request to the disk directly, and then the
blocks in the track buffer that it gets to are out of date. So it is assumed that it gets to
none. A write through the track buffer that fails leaves the blocks that have not been written
in it.
-/

namespace Gray386.Floppy

open Gray386.Machine

/-- All that the track buffer holds is as on the disk. -/
structure IoState.Holds (st : IoState) (floppy : FloppyStruct) (drive : Word) (track : Int) :
    Prop where
  min_nonneg : 0 ≤ st.buffer.bufferMin
  max_le : st.buffer.bufferMax ≤ floppy.cylinder
  bytes : ∀ block, st.buffer.bufferMin ≤ block → block < st.buffer.bufferMax →
    ∀ offset < 512, st.memory ((st.buffer.addressOf block).toNat + offset) =
      st.disks (floppy.sectorOf drive track block) offset

/-- If the track buffer is for a track, it holds blocks of that track. -/
structure IoState.Coherent (formats : Word → FloppyStruct) (st : IoState) : Prop where
  roomy : st.buffer.Roomy
  held : ∀ drive track, 0 ≤ track → st.buffer.bufferDrive = drive.toInt →
    st.buffer.bufferTrack = track * 2 ^ (formats drive).stretchShift →
      st.Holds (formats drive) drive track

/-- The blocks of a request. -/
def Request.blocks (req : Request) : Nat := req.dataLen.toNat / 512

/--
The memory of a request has the first blocks of the disk from a position on. The other memory
is as before, except for that of some more blocks.
-/
structure Delivered (floppy : FloppyStruct) (drive : Word) (req : Request) (blocks touched : Nat)
    (disks : Disks) (before after : Buffer) : Prop where
  le : blocks ≤ touched
  bytes : ∀ i < blocks * 512, after (addressAt req.ranges i) =
    disks (floppy.blockSector drive (req.pos.toNat + i / 512)) (i % 512)
  others : ∀ address, (∀ i < touched * 512, addressAt req.ranges i ≠ address) →
    after address = before address

/-- The first blocks of a request are on the disk, and the other sectors are as before. -/
structure Written (floppy : FloppyStruct) (drive : Word) (req : Request) (blocks : Nat)
    (memory : Buffer) (before after : Disks) : Prop where
  bytes : ∀ i < blocks * 512,
    after (floppy.blockSector drive (req.pos.toNat + i / 512)) (i % 512) =
      memory (addressAt req.ranges i)
  others : ∀ sector, (∀ i < blocks, floppy.blockSector drive (req.pos.toNat + i) ≠ sector) →
    after sector = before sector

/-- Memory outside of a range is as before. -/
def KeptOutside (range : Range) (before after : Buffer) : Prop :=
  ∀ address, ¬range.Contains address → after address = before address

/-- A command that gets nothing done, by the number of the blocks that were transferred. -/
inductive Verdict.Loses (passed : Nat) : Verdict → Progress → Prop
  | idle (none : passed = 0) : Loses passed .fine .again
  | bad (none : passed = 0) : Loses passed .bad .failed
  | polled : Loses passed .polled .failed
  | refused : Loses passed .refused .refused

/-- All blocks are transferred, and the controller says so. -/
structure Ending.Complete (ending : Ending) : Prop where
  all : ending.passed = none
  heeded : ending.verdict = .fine ∨ ending.verdict = .bad

/-- No blocks of a command are transferred, or not so that it counts. -/
def Ending.Lost (ending : Ending) (progress : Progress) : Prop :=
  ∃ blocks, 0 < blocks ∧ ending.verdict.Loses (ending.transferred blocks) progress

/-- The first block of a request is in the track buffer. -/
def BufferState.Found (buffer : BufferState) (floppy : FloppyStruct) (drive pos : Word) : Prop :=
  buffer.bufferTrack = floppy.trackAt pos * 2 ^ floppy.stretchShift ∧
    buffer.bufferDrive = drive.toInt ∧ buffer.bufferMin ≤ floppy.sectorAt pos ∧
    floppy.sectorAt pos < buffer.bufferMax

/-- Some blocks are not in the track buffer, or it has the first one. -/
def BufferState.Clear (buffer : BufferState) (floppy : FloppyStruct) (drive pos : Word)
    (blocks : Nat) : Prop :=
  buffer.Found floppy drive pos ∨
    ∀ i < blocks, ¬buffer.Found floppy drive (pos + BitVec.ofNat 32 i)

/-- What a round does. -/
inductive Effect (floppy : FloppyStruct) (drive : Word) (req : Request) (ending : Ending)
    (st : IoState) : Progress → IoState → Prop
  | read {blocks : Nat} {memory : Buffer} (reads : req.write = false) (some : 0 < blocks)
      (delivered : Delivered floppy drive req blocks req.blocks st.disks st.memory memory) :
      Effect floppy drive req ending st (.done blocks) { st with memory }
  | unread {progress : Progress} {memory : Buffer} (reads : req.write = false)
      (absent : ¬st.buffer.Found floppy drive req.pos) (lost : ending.Lost progress)
      (delivered : Delivered floppy drive req 0 req.blocks st.disks st.memory memory) :
      Effect floppy drive req ending st progress { st with memory }
  | loaded {memory : Buffer} {buffer : BufferState} (reads : req.write = false)
      (absent : ¬st.buffer.Found floppy drive req.pos)
      (kept : KeptOutside st.buffer.range st.memory memory)
      (range_eq : buffer.range = st.buffer.range) (found : buffer.Found floppy drive req.pos) :
      Effect floppy drive req ending st .again { st with memory, buffer }
  | unloaded {progress : Progress} {memory : Buffer} {buffer : BufferState}
      (reads : req.write = false) (absent : ¬st.buffer.Found floppy drive req.pos)
      (lost : ending.Lost progress) (kept : KeptOutside st.buffer.range st.memory memory)
      (range_eq : buffer.range = st.buffer.range) :
      Effect floppy drive req ending st progress { st with memory, buffer }
  | written {blocks : Nat} {memory : Buffer} {disks : Disks} {buffer : BufferState}
      (writes : req.write = true) (some : 0 < blocks) (le : blocks ≤ req.blocks)
      (kept : KeptOutside st.buffer.range st.memory memory)
      (range_eq : buffer.range = st.buffer.range)
      (written : Written floppy drive req blocks st.memory st.disks disks)
      (clear : buffer.Clear floppy drive (req.pos + BitVec.ofNat 32 blocks) (req.blocks - blocks)) :
      Effect floppy drive req ending st (.done blocks) ⟨memory, disks, buffer⟩

section Inject

variable {floppy : FloppyStruct}

theorem side_ne (floppy : FloppyStruct) : floppy.side 0 ≠ floppy.side 1 := by
  simp only [FloppyStruct.side, FloppyStruct.phHead]
  rcases swap_cases floppy with zero | one
  · rw [zero]
    decide
  · rw [one]
    decide

theorem side_inj {head other : Int} (nonneg : 0 ≤ head) (lt : head < 2) (other_nonneg : 0 ≤ other)
    (other_lt : other < 2) (same : floppy.side head = floppy.side other) : head = other := by
  obtain rfl | rfl : head = 0 ∨ head = 1 := by omega
  · obtain rfl | rfl : other = 0 ∨ other = 1 := by omega
    · rfl
    · exact absurd same (side_ne floppy)
  · obtain rfl | rfl : other = 0 ∨ other = 1 := by omega
    · exact absurd same.symm (side_ne floppy)
    · rfl

/-- Different blocks of a disk are in different sectors. -/
theorem Plain.sectorOf_inj (plain : Plain floppy) {drive : Word} {track other block next : Int}
    (nonneg : 0 ≤ block) (lt : block < floppy.cylinder) (next_nonneg : 0 ≤ next)
    (next_lt : next < floppy.cylinder)
    (same : floppy.sectorOf drive track block = floppy.sectorOf drive other next) :
    track = other ∧ block = next := by
  have sects_pos := plain.sects_pos
  simp only [FloppyStruct.sectorOf, SectorId.mk.injEq, true_and] at same
  rcases same with ⟨seek, side, number⟩
  have head := side_inj (Int.ediv_nonneg nonneg sects_pos.le) (plain.head_lt lt)
    (Int.ediv_nonneg next_nonneg sects_pos.le) (plain.head_lt next_lt) side
  refine ⟨Int.eq_of_mul_eq_mul_right (two_pow_pos _).ne' seek, ?_⟩
  rw [← Int.emod_add_mul_ediv block floppy.sects, ← Int.emod_add_mul_ediv next floppy.sects, head]
  omega

theorem Plain.blockSector_inj (plain : Plain floppy) {drive : Word} {block other : Nat}
    (same : floppy.blockSector drive block = floppy.blockSector drive other) : block = other := by
  have cylinder_pos := plain.cylinder_pos
  rcases plain.sectorOf_inj (Int.emod_nonneg _ cylinder_pos.ne')
    (Int.emod_lt_of_pos _ cylinder_pos) (Int.emod_nonneg _ cylinder_pos.ne')
    (Int.emod_lt_of_pos _ cylinder_pos) same with ⟨quotient, remainder⟩
  have left := Int.emod_add_mul_ediv (block : Int) floppy.cylinder
  have right := Int.emod_add_mul_ediv (other : Int) floppy.cylinder
  rw [quotient, remainder] at left
  omega

end Inject

section Places

variable {floppy : FloppyStruct} {pos : Word} {i : Nat}

theorem Plain.toNat_add (plain : Plain floppy) (onDisk : pos.toNat + i < floppy.blocks) :
    (pos + BitVec.ofNat 32 i).toNat = pos.toNat + i := by
  have few := plain.blocks_lt
  rw [BitVec.toNat_add, BitVec.toNat_ofNat]
  omega

theorem Plain.place_add (plain : Plain floppy) (onDisk : pos.toNat + i < floppy.blocks)
    (lt : floppy.sectorAt pos + i < floppy.cylinder) :
    floppy.trackAt (pos + BitVec.ofNat 32 i) = floppy.trackAt pos ∧
      floppy.sectorAt (pos + BitVec.ofNat 32 i) = floppy.sectorAt pos + i := by
  have sum := plain.toNat_add onDisk
  rcases plain.ediv_emod_add lt with ⟨quotient, remainder⟩
  constructor
  · rw [(plain.trackAt_eq (by omega)).1, (plain.trackAt_eq (by omega)).1, sum, quotient]
  · rw [← remainder, ← sum, FloppyStruct.sectorAt]

theorem Plain.place_behind (plain : Plain floppy) (onDisk : pos.toNat + i < floppy.blocks)
    (ge : floppy.cylinder ≤ floppy.sectorAt pos + i) :
    floppy.trackAt pos < floppy.trackAt (pos + BitVec.ofNat 32 i) := by
  have split := Int.emod_add_mul_ediv (pos.toNat : Int) floppy.cylinder
  rw [FloppyStruct.sectorAt] at ge
  rw [(plain.trackAt_eq (by omega)).1, (plain.trackAt_eq (by rw [plain.toNat_add onDisk]; omega)).1,
    plain.toNat_add onDisk, Int.lt_iff_add_one_le, Int.le_ediv_iff_mul_le plain.cylinder_pos,
    Int.add_mul, Int.one_mul, Int.mul_comm]
  omega

end Places

/-- What `rw_interrupt` does when it has counted the blocks. -/
inductive Concluded (layout : Layout) (input : RwInput) (req : Request) (kernelData : Int)
    (passed : Nat) (verdict : Verdict) (buffer : BufferState) : Progress → BufferState → Prop
  | lost {progress : Progress} (loses : verdict.Loses passed progress) :
      Concluded layout input req kernelData passed verdict buffer progress buffer
  | done (some : 0 < passed) (direct : layout.reads = false ∨ kernelData = req.buffer.toNat) :
      Concluded layout input req kernelData passed verdict buffer (.done passed) buffer
  | loaded (some : 0 < passed) (reads : layout.reads = true)
      (elsewhere : kernelData ≠ req.buffer.toNat) :
      Concluded layout input req kernelData passed verdict buffer .again { buffer with
        bufferTrack := layout.cmd.seekTrack
        bufferDrive := input.currentDrive.toInt
        bufferMax := max buffer.bufferMax (passed + layout.fsectorT) }

theorem rwInterrupt_concluded {layout : Layout} {reply : RwReply} {blocks passed : Nat}
    (le : passed ≤ blocks) (counted : layout.nrSectors reply = passed) (heeded : reply.rHead < 2)
    (input : RwInput) (req : Request) (kernelData : Int) (verdict : Verdict)
    (buffer : BufferState) :
    let result := layout.rwInterrupt reply input req kernelData blocks verdict buffer
    Concluded layout input req kernelData passed verdict buffer result.1.progress result.2 := by
  have count_eq : min (blocks : Int) passed = passed := by omega
  simp only [Layout.rwInterrupt, counted, count_eq]
  rw [if_neg (by omega)]
  split_ifs with refused polled none bad direct
  · exact .lost (refused ▸ .refused)
  · exact .lost (polled ▸ .polled)
  · exact .lost (bad ▸ .bad (by omega))
  · have fine : verdict = .fine := by cases verdict <;> simp_all
    exact .lost (fine ▸ .idle (by omega))
  · simp only [Bool.or_eq_true, Bool.not_eq_true', decide_eq_true_eq] at direct
    exact .done (by omega) direct
  · simp only [Bool.or_eq_true, Bool.not_eq_true', decide_eq_true_eq, not_or,
      Bool.not_eq_false] at direct
    exact .loaded (by omega) direct.1 direct.2

theorem Ending.transferred_le (ending : Ending) (blocks : Nat) :
    ending.transferred blocks ≤ blocks := by
  rw [Ending.transferred]
  cases ending.passed with
  | none => exact le_rfl
  | some passed => exact Nat.min_le_left _ _

theorem Ending.Complete.transferred_eq {ending : Ending} (complete : ending.Complete)
    (blocks : Nat) : ending.transferred blocks = blocks := by
  rw [Ending.transferred, complete.all]
  rfl

theorem Ending.Complete.not_loses {ending : Ending} (complete : ending.Complete) {blocks : Nat}
    (some : 0 < blocks) {progress : Progress} : ¬ending.verdict.Loses blocks progress := by
  intro loses
  rcases complete.heeded with fine | bad
  · rw [fine] at loses
    cases loses
    omega
  · rw [bad] at loses
    cases loses
    omega

theorem Ending.Complete.not_lost {ending : Ending} (complete : ending.Complete)
    {progress : Progress} : ¬ending.Lost progress := by
  rintro ⟨blocks, some, loses⟩
  rw [complete.transferred_eq] at loses
  exact complete.not_loses some loses

/-- The sectors of some blocks. -/
def FloppyStruct.sectorsFrom (floppy : FloppyStruct) (drive : Word) (pos blocks : Nat) :
    List SectorId :=
  (List.range blocks).map fun i => floppy.blockSector drive (pos + i)

/-- Memory after a read. -/
def IoState.fetched (st : IoState) (sectors : List SectorId) (noise : List Byte) (address : Nat) :
    Buffer :=
  (st.disks.load st.memory sectors address).write (address + sectors.length * 512) noise

section Command

variable {floppy : FloppyStruct} {drive : Word} {pos : Nat} {st : IoState}

theorem getElem?_sectorsFrom {blocks i : Nat} (lt : i < blocks) :
    (floppy.sectorsFrom drive pos blocks)[i]? = some (floppy.blockSector drive (pos + i)) := by
  simp [FloppyStruct.sectorsFrom, lt]

theorem length_sectorsFrom (blocks : Nat) :
    (floppy.sectorsFrom drive pos blocks).length = blocks := by
  simp [FloppyStruct.sectorsFrom]

theorem fetched_block {passed : Nat} (noise : List Byte) (address : Nat) {i : Nat}
    (lt : i < passed * 512) :
    st.fetched (floppy.sectorsFrom drive pos passed) noise address (address + i) =
      st.disks (floppy.blockSector drive (pos + i / 512)) (i % 512) := by
  have place : i / 512 * 512 + i % 512 = i := by omega
  have here : (floppy.sectorsFrom drive pos passed)[i / 512]? =
      some (floppy.blockSector drive (pos + i / 512)) := getElem?_sectorsFrom (by omega)
  have loaded : st.disks.load st.memory (floppy.sectorsFrom drive pos passed) address
      (address + (i / 512 * 512 + i % 512)) =
        st.disks (floppy.blockSector drive (pos + i / 512)) (i % 512) :=
    Disks.load_sector (i / 512) (i % 512) here (Nat.mod_lt i (by omega))
  rw [place] at loaded
  rw [IoState.fetched, length_sectorsFrom, Buffer.write_of_lt (by omega), loaded]

theorem fetched_of_outside {passed blocks : Nat} (le : passed ≤ blocks) {noise : List Byte}
    (few : noise.length ≤ (blocks - passed) * 512) {address other : Nat}
    (outside : ¬(Range.mk address (blocks * 512)).Contains other) :
    st.fetched (floppy.sectorsFrom drive pos passed) noise address other = st.memory other := by
  rw [IoState.fetched, length_sectorsFrom]
  have unread : ¬(Range.mk address ((floppy.sectorsFrom drive pos passed).length * 512)).Contains
      other := by
    rw [length_sectorsFrom]
    rintro ⟨lower, upper⟩
    exact outside ⟨lower, lt_of_lt_of_le upper (by simp only; omega)⟩
  simp only [Range.Contains] at outside
  rcases lt_or_ge other (address + passed * 512) with before | behind
  · rw [Buffer.write_of_lt before, Disks.load_of_outside unread]
  · rw [Buffer.write_of_ge (by omega), Disks.load_of_outside unread]

theorem nodup_sectorsFrom (plain : Plain floppy) (blocks : Nat) :
    (floppy.sectorsFrom drive pos blocks).Nodup := by
  apply List.Nodup.map_on _ List.nodup_range
  intro i _ j _ same
  have := plain.blockSector_inj same
  omega

theorem store_block (plain : Plain floppy) (memory : Buffer) (disks : Disks) (address : Nat)
    {blocks i : Nat} (lt : i < blocks * 512) :
    Disks.store memory disks (floppy.sectorsFrom drive pos blocks) address
      (floppy.blockSector drive (pos + i / 512)) (i % 512) = memory (address + i) := by
  have place : i / 512 * 512 + i % 512 = i := by omega
  rw [Disks.store_sector (nodup_sectorsFrom plain blocks) (i / 512) (i % 512)
    (getElem?_sectorsFrom (by omega)) (by omega), place]

theorem store_of_ne (memory : Buffer) (disks : Disks) (address : Nat) {blocks : Nat}
    {sector : SectorId} (ne : ∀ i < blocks, floppy.blockSector drive (pos + i) ≠ sector) :
    Disks.store memory disks (floppy.sectorsFrom drive pos blocks) address sector =
      disks sector := by
  apply Disks.store_of_not_mem
  intro mem
  rcases List.mem_map.mp mem with ⟨i, inRange, same⟩
  exact ne i (List.mem_range.mp inRange) same

/-- A command that finds its blocks. -/
theorem command_eq (st : IoState) {input : RwInput} {req : Request} {layout : Layout} {blocks : Nat}
    (addresses : layout.Addresses floppy input.currentDrive req.pos blocks) (ending : Ending)
    (kernelData : Nat) :
    let passed := ending.transferred blocks
    let sectors := floppy.sectorsFrom input.currentDrive req.pos.toNat passed
    let noise := ending.noise.take ((blocks - passed) * 512)
    ∃ progress buffer,
      Concluded layout input req kernelData passed ending.verdict st.buffer progress buffer ∧
      st.command input req ending layout kernelData (blocks * 512) blocks = (progress,
        if layout.reads then { st with memory := st.fetched sectors noise kernelData, buffer }
        else { st with disks := Disks.store st.memory st.disks sectors kernelData, buffer }) := by
  intro passed sectors noise
  have le : passed ≤ blocks := ending.transferred_le blocks
  have blocks_eq : ((blocks * 512 : Int) / 512).toNat = blocks := by omega
  have concluded := rwInterrupt_concluded le (addresses.counted passed le)
    (addresses.heeded passed le) input req kernelData ending.verdict st.buffer
  refine ⟨_, _, concluded, ?_⟩
  have length : sectors.length = passed := length_sectorsFrom _
  simp only [IoState.command, blocks_eq, addresses.sectors_eq _ (ending.transferred_le blocks),
    IoState.fetched, length]
  split_ifs <;> rfl

end Command

theorem Request.sectors_eq (req : Request) : req.sectors = req.blocks := by
  rw [Request.sectors, Request.blocks]
  omega

/-- What is assumed of a round. -/
structure Round (formats : Word → FloppyStruct) (input : RwInput) (req : Request) (st : IoState) :
    Prop where
  coherent : st.Coherent formats
  plain : Plain (formats input.currentDrive)
  placed : req.Placed st.buffer
  onDisk : req.pos.toNat + req.blocks ≤ (formats input.currentDrive).blocks

section Rounds

variable {formats : Word → FloppyStruct} {input : RwInput} {req : Request} {st : IoState}
  {layout : Layout} {ending : Ending}

theorem BufferState.Roomy.contains {buffer : BufferState} (roomy : buffer.Roomy) {block : Int}
    (lower : buffer.bufferMin ≤ block) (upper : block < buffer.bufferMax) {offset : Nat}
    (lt : offset < 512) : buffer.range.Contains ((buffer.addressOf block).toNat + offset) := by
  have within := roomy.within
  simp only [Range.Contains, BufferState.range, BufferState.addressOf]
  omega

theorem IoState.Coherent.of_held (coherent : st.Coherent formats) {memory : Buffer}
    (same : ∀ block, st.buffer.bufferMin ≤ block → block < st.buffer.bufferMax →
      ∀ offset < 512, memory ((st.buffer.addressOf block).toNat + offset) =
        st.memory ((st.buffer.addressOf block).toNat + offset)) :
    IoState.Coherent formats { st with memory } := by
  refine ⟨coherent.roomy, fun drive track nonneg drive_eq track_eq => ?_⟩
  have holds := coherent.held drive track nonneg drive_eq track_eq
  refine ⟨holds.min_nonneg, holds.max_le, fun block lower upper offset lt => ?_⟩
  rw [← holds.bytes block lower upper offset lt]
  exact same block lower upper offset lt

theorem IoState.Coherent.of_memory (coherent : st.Coherent formats) {memory : Buffer}
    (same : ∀ address, st.buffer.range.Contains address → memory address = st.memory address) :
    IoState.Coherent formats { st with memory } :=
  coherent.of_held fun _ lower upper _ lt => same _ (coherent.roomy.contains lower upper lt)

/-- The track buffer of a track agrees if it does for that track. -/
theorem coherent_of_holds {drive : Word} {track : Int} (roomy : st.buffer.Roomy)
    (drive_eq : st.buffer.bufferDrive = drive.toInt)
    (track_eq : st.buffer.bufferTrack = track * 2 ^ (formats drive).stretchShift)
    (holds : st.Holds (formats drive) drive track) : st.Coherent formats := by
  refine ⟨roomy, fun other next _ other_eq next_eq => ?_⟩
  obtain rfl : drive = other := BitVec.eq_of_toInt_eq (drive_eq.symm.trans other_eq)
  obtain rfl : track = next :=
    Int.eq_of_mul_eq_mul_right (two_pow_pos _).ne' (track_eq.symm.trans next_eq)
  exact holds

theorem coherent_of_invalid (roomy : st.buffer.Roomy) (invalid : st.buffer.bufferTrack = -1) :
    st.Coherent formats := by
  refine ⟨roomy, fun drive track nonneg _ track_eq => ?_⟩
  have := Int.mul_nonneg nonneg (two_pow_pos (formats drive).stretchShift).le
  omega

theorem not_found_of_invalid {buffer : BufferState} (invalid : buffer.bufferTrack = -1)
    (floppy : FloppyStruct) (drive pos : Word) : ¬buffer.Found floppy drive pos := by
  rintro ⟨track_eq, -⟩
  have := Int.mul_nonneg (trackAt_nonneg floppy pos) (two_pow_pos floppy.stretchShift).le
  omega

theorem IoState.Coherent.of_disks (coherent : st.Coherent formats) {disks : Disks}
    (same : ∀ drive track block, st.buffer.bufferDrive = drive.toInt →
      st.buffer.bufferTrack = track * 2 ^ (formats drive).stretchShift →
      st.buffer.bufferMin ≤ block → block < st.buffer.bufferMax →
      st.Holds (formats drive) drive track →
        disks ((formats drive).sectorOf drive track block) =
          st.disks ((formats drive).sectorOf drive track block)) :
    IoState.Coherent formats { st with disks } := by
  refine ⟨coherent.roomy, fun drive track nonneg drive_eq track_eq => ?_⟩
  have holds := coherent.held drive track nonneg drive_eq track_eq
  refine ⟨holds.min_nonneg, holds.max_le, fun block lower upper offset lt => ?_⟩
  have kept := same drive track block drive_eq track_eq lower upper holds
  simp only [kept]
  exact holds.bytes block lower upper offset lt

theorem BufferState.addressOf_toNat {buffer : BufferState} {block : Int}
    (lower : buffer.bufferMin ≤ block) :
    ((buffer.addressOf block).toNat : Int) = buffer.addressOf block := by
  simp only [BufferState.addressOf]
  omega

/-- A byte behind the beginning of a block, by its own block. -/
theorem BufferState.addressOf_add {buffer : BufferState} {block : Int}
    (lower : buffer.bufferMin ≤ block) (i : Nat) :
    (buffer.addressOf (block + (i / 512 : Nat))).toNat + i % 512 =
      (buffer.addressOf block).toNat + i := by
  simp only [BufferState.addressOf]
  omega

/-- Room for some blocks in the track buffer. -/
theorem BufferState.Roomy.copyRoom {buffer : BufferState} (roomy : buffer.Roomy) {block : Int}
    {blocks : Nat} (lower : buffer.bufferMin ≤ block)
    (upper : block + blocks ≤ 2 * buffer.maxBufferSectors + buffer.bufferMin) :
    CopyRoom buffer (blocks * 512) (buffer.addressOf block).toNat := by
  have room := roomy.room
  refine ⟨?_, ?_, room⟩
  all_goals
    simp only [BufferState.addressOf]
    omega

namespace Round

theorem pos_lt (round : Round formats input req st) :
    req.pos.toNat < (formats input.currentDrive).blocks := by
  have onDisk := round.onDisk
  have sectors_pos := round.placed.sectors_pos
  rw [req.sectors_eq] at sectors_pos
  omega

theorem total_eq (round : Round formats input req st) :
    totalCount req.ranges = req.blocks * 512 := by
  have whole := round.placed.whole
  rw [round.placed.total, Request.blocks]
  omega

theorem sectorOf_eq (round : Round formats input req st)
    (laid : PlainLayout (formats input.currentDrive) input req layout) {i : Nat}
    (lt : layout.fsectorT + i < (formats input.currentDrive).cylinder) :
    (formats input.currentDrive).sectorOf input.currentDrive
        ((formats input.currentDrive).trackAt req.pos) (layout.fsectorT + i) =
      (formats input.currentDrive).blockSector input.currentDrive (req.pos.toNat + i) := by
  rw [laid.sector_eq] at lt ⊢
  exact round.plain.sectorOf_eq round.pos_lt _ lt

/-- A part of the track buffer does not meet the request. -/
theorem apart_window (round : Round formats input req st) {buffer : BufferState}
    (range_eq : buffer.range = st.buffer.range) {block : Int} {blocks : Nat}
    (lower : buffer.bufferMin ≤ block)
    (upper : block + blocks ≤ 2 * buffer.maxBufferSectors + buffer.bufferMin) :
    AllApart req.ranges ⟨(buffer.addressOf block).toNat, blocks * 512⟩ := by
  intro range mem address inRange inWindow
  refine round.placed.apart range mem address inRange ?_
  rw [← range_eq]
  simp only [Range.Contains, BufferState.addressOf, BufferState.range] at inWindow ⊢
  omega

/-- Blocks are copied from the track buffer. -/
theorem held_effect (round : Round formats input req st)
    (laid : PlainLayout (formats input.currentDrive) input req layout)
    (reads : layout.reads = true) (here : inBuffer input st.buffer layout = true) {stop : Int}
    (stop_eq : stop = min (min layout.maxSector st.buffer.bufferMax)
      (layout.fsectorT + req.sectors)) :
    let copies := copySegments st.buffer true req.segments ((stop - layout.fsectorT) * 512)
      (st.buffer.addressOf layout.fsectorT)
    let after : IoState := { st with memory := runCopies st.memory copies }
    after.Coherent formats ∧ Effect (formats input.currentDrive) input.currentDrive req ending st
      (.done (stop - layout.fsectorT)) after := by
  intro copies after
  have roomy := round.coherent.roomy
  have within := roomy.within
  have lt := laid.reach.lt
  have sectors_eq := req.sectors_eq
  have sectors_pos := round.placed.sectors_pos
  have small := round.placed.small
  have maxSector_le := laid.maxSector_le round.plain
  have blocks_eq : req.blocks = req.dataLen.toNat / 512 := rfl
  simp only [inBuffer, Bool.and_eq_true, decide_eq_true_eq] at here
  rcases here with ⟨⟨⟨track_eq, drive_eq⟩, min_le⟩, lt_max⟩
  obtain ⟨blocks, blocks_int⟩ : ∃ blocks : Nat, stop - layout.fsectorT = blocks :=
    ⟨(stop - layout.fsectorT).toNat, by omega⟩
  have address_eq := BufferState.addressOf_toNat min_le
  have space : CopyRoom st.buffer (blocks * 512) (st.buffer.addressOf layout.fsectorT).toNat :=
    roomy.copyRoom min_le (by omega)
  have bytes_eq : (stop - layout.fsectorT) * 512 = (blocks * 512 : Nat) := by omega
  have copied : runCopies st.memory copies =
      copyOut st.memory req.ranges (blocks * 512) (st.buffer.addressOf layout.fsectorT).toNat := by
    simp only [copies]
    rw [bytes_eq, ← address_eq]
    exact runCopies_reads space (by omega) round.placed.short
  have apart : AllApart req.ranges ⟨_, blocks * 512⟩ :=
    round.apart_window rfl min_le (by omega)
  have total := round.total_eq
  constructor
  · apply round.coherent.of_memory
    intro address inside
    rw [copied]
    exact copyOut_of_ne fun i _ inData same =>
      round.placed.apart.addressAt inData (same ▸ inside)
  · rw [blocks_int]
    have write : req.write = false := by simpa [reads] using laid.reads_eq.1
    have le : blocks ≤ req.blocks := by omega
    refine .read write (by omega) ⟨le, fun i i_lt => ?_, fun address ne => ?_⟩
    · have holds := round.coherent.held input.currentDrive _ (trackAt_nonneg _ req.pos)
        drive_eq.symm (track_eq.symm.trans laid.seek_eq)
      have read := holds.bytes (layout.fsectorT + (i / 512 : Nat)) (by omega) (by omega) (i % 512)
        (by omega)
      rw [copied, copyOut_addressAt round.placed.scattered apart i_lt (by omega),
        ← BufferState.addressOf_add min_le i, read, round.sectorOf_eq laid (by omega)]
    · rw [copied]
      exact copyOut_of_ne fun i i_lt _ => ne i (i_lt.trans_le (Nat.mul_le_mul_right 512 le))

/-- The beginning of a request that is contiguous. -/
theorem direct_address (round : Round formats input req st) {blocks : Nat}
    (within : InRequest input req req.buffer.toNat (blocks * 512)) :
    blocks ≤ req.blocks ∧
      ∀ i < blocks * 512, addressAt req.ranges i = req.buffer.toNat + i := by
  have contiguous := within.contiguous
  have total := round.total_eq
  have leading_le : leadingBytes req.buffer.toNat req.segments ≤ totalCount req.ranges :=
    leadingBytes_le _ _
  refine ⟨by omega, fun i lt => ?_⟩
  have := addressAt_of_leading req.segments req.buffer.toNat (i := i) (by omega)
  rw [Request.ranges]
  omega

theorem not_found (laid : PlainLayout (formats input.currentDrive) input req layout)
    (absent : inBuffer input st.buffer layout = false) :
    ¬st.buffer.Found (formats input.currentDrive) input.currentDrive req.pos := by
  rintro ⟨track_eq, drive_eq, min_le, lt_max⟩
  simp [inBuffer, laid.seek_eq, laid.sector_eq, track_eq, drive_eq, min_le, lt_max] at absent

/-- The memory of a request is filled directly. -/
theorem straight_read (round : Round formats input req st)
    (laid : PlainLayout (formats input.currentDrive) input req layout) {blocks : Nat}
    (some : 0 < blocks) (le : layout.fsectorT + blocks ≤ layout.maxSector)
    (within : InRequest input req req.buffer.toNat (blocks * 512)) (reads : req.write = false)
    (absent : inBuffer input st.buffer layout = false) :
    let result := st.command input req ending (layout.started (blocks * 512)) req.buffer.toNat
      (blocks * 512) blocks
    result.2.Coherent formats ∧
      Effect (formats input.currentDrive) input.currentDrive req ending st result.1 result.2 := by
  intro result
  have addresses := laid.addresses round.plain round.pos_lt input.currentDrive some le
  have kind : (layout.started (blocks * 512)).reads = true := by
    rw [(PlainLayout.started_kind layout _).1, laid.reads_eq.1, reads]
    rfl
  rcases round.direct_address within with ⟨blocks_le, address_eq⟩
  have total := round.total_eq
  have passed_le := ending.transferred_le blocks
  rcases command_eq st addresses ending req.buffer.toNat with
    ⟨progress, buffer, concluded, command⟩
  simp only [kind, if_true] at command
  have result_eq : result = _ := command
  generalize memory_eq : st.fetched _ _ _ = memory at result_eq
  have few : (ending.noise.take ((blocks - ending.transferred blocks) * 512)).length ≤
      (blocks - ending.transferred blocks) * 512 := List.length_take_le _ _
  have others (address : Nat) (ne : ∀ i < blocks * 512, addressAt req.ranges i ≠ address) :
      memory address = st.memory address := by
    rw [← memory_eq]
    apply fetched_of_outside passed_le few
    rintro ⟨lower, upper⟩
    simp only at lower upper
    refine ne (address - req.buffer.toNat) (by omega) ?_
    rw [address_eq _ (by omega)]
    omega
  have coherent : IoState.Coherent formats { st with memory } := by
    apply round.coherent.of_memory
    intro address inside
    apply others
    intro i lt same
    exact round.placed.apart.addressAt (by omega) (same ▸ inside)
  have rest (address : Nat) (ne : ∀ i < req.blocks * 512, addressAt req.ranges i ≠ address) :
      memory address = st.memory address :=
    others address fun i lt => ne i (lt.trans_le (Nat.mul_le_mul_right 512 blocks_le))
  cases concluded with
  | lost loses =>
      rw [result_eq]
      exact ⟨coherent, .unread reads (not_found laid absent) ⟨blocks, some, loses⟩
        ⟨Nat.zero_le _, by simp, rest⟩⟩
  | done positive direct =>
      rw [result_eq]
      refine ⟨coherent, .read reads positive ⟨by omega, fun i lt => ?_, rest⟩⟩
      rw [address_eq i (lt.trans_le (Nat.mul_le_mul_right 512 passed_le)), ← memory_eq]
      exact fetched_block _ _ lt
  | loaded positive _ elsewhere => exact absurd rfl elsewhere

/-- A block of the request in the same cylinder. -/
theorem place_add (round : Round formats input req st)
    (laid : PlainLayout (formats input.currentDrive) input req layout) {i : Nat}
    (inside : i < req.blocks)
    (lt : layout.fsectorT + i < (formats input.currentDrive).cylinder) :
    (formats input.currentDrive).trackAt (req.pos + BitVec.ofNat 32 i) =
        (formats input.currentDrive).trackAt req.pos ∧
      (formats input.currentDrive).sectorAt (req.pos + BitVec.ofNat 32 i) =
        layout.fsectorT + i := by
  have onDisk := round.onDisk
  rw [laid.sector_eq] at lt ⊢
  exact round.plain.place_add (by omega) lt

/-- Other sectors than those of the request. -/
theorem sector_ne (round : Round formats input req st)
    (laid : PlainLayout (formats input.currentDrive) input req layout) {i : Nat}
    (lt : layout.fsectorT + i < (formats input.currentDrive).cylinder) {drive : Word}
    {track block : Int} (nonneg : 0 ≤ block) (block_lt : block < (formats drive).cylinder)
    (ne : drive = input.currentDrive → track = (formats input.currentDrive).trackAt req.pos →
      block ≠ layout.fsectorT + i) :
    (formats input.currentDrive).blockSector input.currentDrive (req.pos.toNat + i) ≠
      (formats drive).sectorOf drive track block := by
  intro same
  have fsectorT_nonneg := laid.reach.nonneg
  rw [← round.sectorOf_eq laid lt] at same
  obtain rfl : input.currentDrive = drive := congrArg SectorId.drive same
  rcases round.plain.sectorOf_inj (by omega) lt nonneg block_lt same with ⟨rfl, rfl⟩
  exact ne rfl rfl rfl

/-- The memory of a request is written directly. -/
theorem straight_write (round : Round formats input req st)
    (laid : PlainLayout (formats input.currentDrive) input req layout) {blocks : Nat}
    (some : 0 < blocks) (le : layout.fsectorT + blocks ≤ layout.maxSector)
    (within : InRequest input req req.buffer.toNat (blocks * 512)) (writes : req.write = true)
    (complete : ending.Complete) (absent : inBuffer input st.buffer layout = false)
    (clear : st.buffer.Clear (formats input.currentDrive) input.currentDrive req.pos req.blocks) :
    let result := st.command input req ending (layout.started (blocks * 512)) req.buffer.toNat
      (blocks * 512) blocks
    result.2.Coherent formats ∧
      Effect (formats input.currentDrive) input.currentDrive req ending st result.1 result.2 := by
  intro result
  have addresses := laid.addresses round.plain round.pos_lt input.currentDrive some le
  have maxSector_le := laid.maxSector_le round.plain
  have kind : (layout.started (blocks * 512)).reads = false := by
    rw [(PlainLayout.started_kind layout _).1, laid.reads_eq.1, writes]
    rfl
  rcases round.direct_address within with ⟨blocks_le, address_eq⟩
  have unmet := clear.resolve_left (not_found laid absent)
  rcases command_eq st addresses ending req.buffer.toNat with
    ⟨progress, buffer, concluded, command⟩
  simp only [kind, Bool.false_eq_true, if_false, complete.transferred_eq] at command concluded
  have result_eq : result = _ := command
  cases concluded with
  | lost loses => exact absurd loses (complete.not_loses some)
  | done positive direct =>
      rw [result_eq]
      constructor
      · apply round.coherent.of_disks
        intro drive track block drive_eq track_eq lower upper holds
        apply store_of_ne
        intro i lt
        refine round.sector_ne laid (by omega) (by have := holds.min_nonneg; omega)
          (by have := holds.max_le; omega) ?_
        rintro rfl rfl rfl
        refine unmet i (by omega) ?_
        rcases round.place_add laid (i := i) (by omega) (by omega) with ⟨place_track, place_sector⟩
        rw [BufferState.Found, place_track, place_sector]
        exact ⟨track_eq, drive_eq, lower, upper⟩
      · refine .written writes some blocks_le (fun _ _ => rfl) rfl
          ⟨fun i lt => ?_, fun sector ne => ?_⟩ (Or.inr fun i lt => ?_)
        · rw [store_block round.plain _ _ _ lt, address_eq i lt]
        · exact store_of_ne _ _ _ ne
        · rw [BitVec.add_assoc, ← BitVec.ofNat_add]
          exact unmet _ (by omega)
  | loaded positive reads elsewhere => simp [kind] at reads

/-- What is said of the track buffer when a command is for some blocks behind what it holds. -/
theorem readied_holds (round : Round formats input req st)
    (laid : PlainLayout (formats input.currentDrive) input req layout) {ready : BufferState}
    (readied : Readied input st.buffer layout ready) :
    0 ≤ ready.bufferMin ∧ ready.bufferMax ≤ (formats input.currentDrive).cylinder ∧
      ready.range = st.buffer.range ∧
      ∀ block, ready.bufferMin ≤ block → block < ready.bufferMax → ∀ offset < 512,
        st.memory ((ready.addressOf block).toNat + offset) =
          st.disks ((formats input.currentDrive).sectorOf input.currentDrive
            ((formats input.currentDrive).trackAt req.pos) block) offset := by
  have lt := laid.reach.lt
  have maxSector_le := laid.maxSector_le round.plain
  cases readied with
  | claimed =>
      refine ⟨laid.reach.nonneg, by simp only; omega, rfl, fun block lower upper => ?_⟩
      simp only at lower upper
      omega
  | kept track_eq drive_eq min_le le_max =>
      have holds := round.coherent.held input.currentDrive _ (trackAt_nonneg _ req.pos) drive_eq
        (track_eq.trans laid.seek_eq)
      exact ⟨holds.min_nonneg, holds.max_le, rfl, holds.bytes⟩

/-- Room for the blocks of a command. -/
theorem roomy_of_readied (round : Round formats input req st)
    (laid : PlainLayout (formats input.currentDrive) input req layout) {ready : BufferState}
    (readied : Readied input st.buffer layout ready) {stop : Int}
    (stop_le : stop ≤ 2 * ready.maxBufferSectors + ready.bufferMin) (track drive : Int) :
    BufferState.Roomy { ready with
      bufferTrack := track, bufferDrive := drive, bufferMax := max ready.bufferMax stop } := by
  have roomy := round.coherent.roomy
  have room := roomy.room
  rcases readied.spec laid.reach roomy with ⟨base_eq, size_eq, min_ge, min_le, le_max, within⟩
  rw [← base_eq, ← size_eq] at room
  refine ⟨⟨?_, room, ?_, min_ge, ?_⟩, ?_, ?_⟩
  · simp only [base_eq]
    exact roomy.base_ge
  · simp only [size_eq]
    exact roomy.size
  · simp only
    omega
  · simp only [size_eq]
    exact roomy.opened
  · simp only
    omega

/-- A command that uses the track buffer does not use the memory of the request. -/
theorem window_elsewhere (round : Round formats input req st)
    (laid : PlainLayout (formats input.currentDrive) input req layout) {ready : BufferState}
    (readied : Readied input st.buffer layout ready)
    (room : layout.fsectorT < 2 * ready.maxBufferSectors + ready.bufferMin) :
    ((ready.addressOf layout.fsectorT).toNat : Int) ≠ req.buffer.toNat := by
  have roomy := round.coherent.roomy
  have size := roomy.size
  have outside := round.placed.outside (by omega)
  rcases readied.spec laid.reach roomy with ⟨base_eq, size_eq, min_ge, min_le, le_max, within⟩
  simp only [Request.Outside] at outside
  rw [BufferState.addressOf_toNat min_le, BufferState.addressOf, base_eq]
  omega

/-- A block of the disk arrives at its place in the track buffer. -/
theorem fetched_at {ready : BufferState} (min_le : ready.bufferMin ≤ layout.fsectorT)
    {floppy : FloppyStruct} {drive : Word} {pos passed : Nat} {noise : List Byte} {i : Nat}
    (lt : i < passed) {offset : Nat} (offset_lt : offset < 512) :
    st.fetched (floppy.sectorsFrom drive pos passed) noise
        (ready.addressOf layout.fsectorT).toNat
        ((ready.addressOf (layout.fsectorT + i)).toNat + offset) =
      st.disks (floppy.blockSector drive (pos + i)) offset := by
  have block : (i * 512 + offset) / 512 = i := by omega
  have inside : (i * 512 + offset) % 512 = offset := by omega
  have place := BufferState.addressOf_add min_le (i * 512 + offset)
  rw [block, inside] at place
  have inCommand : i * 512 + offset < passed * 512 := by omega
  rw [place, fetched_block noise _ inCommand, block, inside]

/-- A block in the track buffer is written to its place on the disk. -/
theorem stored_at {ready : BufferState} (min_le : ready.bufferMin ≤ layout.fsectorT)
    {floppy : FloppyStruct} (plain : Plain floppy) {drive : Word} {pos blocks : Nat}
    {memory : Buffer} {disks : Disks} {i : Nat} (lt : i < blocks) {offset : Nat}
    (offset_lt : offset < 512) :
    Disks.store memory disks (floppy.sectorsFrom drive pos blocks)
        (ready.addressOf layout.fsectorT).toNat (floppy.blockSector drive (pos + i)) offset =
      memory ((ready.addressOf (layout.fsectorT + i)).toNat + offset) := by
  have block : (i * 512 + offset) / 512 = i := by omega
  have inside : (i * 512 + offset) % 512 = offset := by omega
  have place := BufferState.addressOf_add min_le (i * 512 + offset)
  have inCommand : i * 512 + offset < blocks * 512 := by omega
  have stored : Disks.store memory disks (floppy.sectorsFrom drive pos blocks)
      (ready.addressOf layout.fsectorT).toNat _ _ = _ := store_block plain memory disks _ inCommand
  rw [block, inside] at stored place
  rw [stored, place]

/-- Blocks are read into the track buffer. -/
theorem load_effect (round : Round formats input req st)
    (laid : PlainLayout (formats input.currentDrive) input req layout) {ready : BufferState}
    (absent : inBuffer input st.buffer layout = false)
    (readied : Readied input st.buffer layout ready) {blocks : Nat} (some : 0 < blocks)
    (le : layout.fsectorT + blocks ≤ layout.maxSector)
    (room : layout.fsectorT + blocks ≤ 2 * ready.maxBufferSectors + ready.bufferMin)
    (reads : req.write = false) :
    let result := IoState.command input req ending (layout.started (blocks * 512))
      (ready.addressOf layout.fsectorT).toNat (blocks * 512) blocks { st with buffer := ready }
    result.2.Coherent formats ∧
      Effect (formats input.currentDrive) input.currentDrive req ending st result.1 result.2 := by
  intro result
  have roomy := round.coherent.roomy
  have addresses := laid.addresses round.plain round.pos_lt input.currentDrive some le
  have maxSector_le := laid.maxSector_le round.plain
  have kind : (layout.started (blocks * 512)).reads = true := by
    rw [(PlainLayout.started_kind layout _).1, laid.reads_eq.1, reads]
    rfl
  rcases readied.spec laid.reach roomy with ⟨base_eq, size_eq, min_ge, min_le, le_max, within⟩
  rcases round.readied_holds laid readied with ⟨min_nonneg, max_le, range_eq, bytes⟩
  -- what the track buffer holds ends where the command begins
  have max_eq : ready.bufferMax = layout.fsectorT := by
    cases readied with
    | claimed => rfl
    | kept track_eq drive_eq min_le le_max =>
        by_contra less
        have found : inBuffer input st.buffer layout = true := by
          simp only [inBuffer, track_eq, drive_eq, decide_true, Bool.true_and, Bool.and_eq_true,
            decide_eq_true_eq]
          omega
        rw [found] at absent
        exact Bool.noConfusion absent
  have passed_le := ending.transferred_le blocks
  rcases command_eq { st with buffer := ready } addresses ending
    (ready.addressOf layout.fsectorT).toNat with ⟨progress, buffer, concluded, command⟩
  simp only [kind, if_true] at command
  have result_eq : result = _ := command
  generalize memory_eq : IoState.fetched { st with buffer := ready } _ _ _ = memory at result_eq
  have few : (ending.noise.take ((blocks - ending.transferred blocks) * 512)).length ≤
      (blocks - ending.transferred blocks) * 512 := List.length_take_le _ _
  have others (address : Nat) (outside : ¬(Range.mk (ready.addressOf layout.fsectorT).toNat
      (blocks * 512)).Contains address) : memory address = st.memory address := by
    rw [← memory_eq]
    exact fetched_of_outside passed_le few outside
  have kept : KeptOutside st.buffer.range st.memory memory := by
    intro address outside
    apply others
    rw [← range_eq] at outside
    simp only [Range.Contains, BufferState.range, BufferState.addressOf] at outside ⊢
    omega
  have before (block : Int) (lower : ready.bufferMin ≤ block) (upper : block < ready.bufferMax)
      (offset : Nat) (lt : offset < 512) : memory ((ready.addressOf block).toNat + offset) =
        st.memory ((ready.addressOf block).toNat + offset) := by
    apply others
    simp only [Range.Contains, BufferState.addressOf]
    omega
  cases concluded with
  | lost loses =>
      rw [result_eq]
      refine ⟨?_, .unloaded reads (not_found laid absent) ⟨blocks, some, loses⟩ kept range_eq⟩
      cases readied with
      | claimed =>
          have ready_roomy := round.roomy_of_readied laid .claimed within (-1)
            input.currentDrive.toInt
          rw [max_self] at ready_roomy
          exact coherent_of_invalid ready_roomy rfl
      | kept track_eq drive_eq min_le le_max => exact round.coherent.of_held before
  | done positive direct =>
      rcases direct with writing | same
      · rw [kind] at writing
        exact Bool.noConfusion writing
      · exact absurd same (round.window_elsewhere laid readied (by omega))
  | loaded positive _ elsewhere =>
      rw [result_eq]
      have seek_eq : (layout.started (blocks * 512)).cmd.seekTrack =
          (formats input.currentDrive).trackAt req.pos *
            2 ^ (formats input.currentDrive).stretchShift :=
        (PlainLayout.started_fields layout _).2.1.trans laid.seek_eq
      constructor
      · refine coherent_of_holds (round.roomy_of_readied laid readied ?_ _ _) rfl seek_eq
          ⟨min_nonneg, ?_, fun block lower upper offset lt => ?_⟩
        · simp only [Layout.started]
          omega
        · simp only [Layout.started]
          omega
        · simp only [Layout.started] at lower upper
          rcases lt_or_ge block ready.bufferMax with old | new
          · exact (before block lower old offset lt).trans (bytes block lower old offset lt)
          · obtain ⟨i, rfl⟩ : ∃ i : Nat, block = layout.fsectorT + i :=
              ⟨(block - layout.fsectorT).toNat, by omega⟩
            rw [round.sectorOf_eq laid (by omega)]
            rw [← memory_eq]
            exact fetched_at min_le (by omega) lt
      · refine .loaded reads (not_found laid absent) kept range_eq ⟨seek_eq, rfl, ?_, ?_⟩
        · rw [← laid.sector_eq]
          exact min_le
        · rw [← laid.sector_eq]
          simp only [Layout.started]
          omega

/-- The blocks behind those that have been written by way of the track buffer. -/
theorem clear_behind (round : Round formats input req st)
    (laid : PlainLayout (formats input.currentDrive) input req layout) {buffer : BufferState}
    {blocks : Nat} (blocks_le : blocks ≤ req.blocks)
    (track_eq : buffer.bufferTrack = layout.cmd.seekTrack)
    (drive_eq : buffer.bufferDrive = input.currentDrive.toInt)
    (min_le : buffer.bufferMin ≤ layout.fsectorT + blocks)
    (le_max : layout.fsectorT + blocks ≤ buffer.bufferMax)
    (max_le : buffer.bufferMax ≤ (formats input.currentDrive).cylinder) :
    buffer.Clear (formats input.currentDrive) input.currentDrive
      (req.pos + BitVec.ofNat 32 blocks) (req.blocks - blocks) := by
  have onDisk := round.onDisk
  by_cases none : req.blocks ≤ blocks
  · exact Or.inr fun i lt => by omega
  by_cases more : layout.fsectorT + blocks < buffer.bufferMax
  · rcases round.place_add laid (i := blocks) (by omega) (by omega) with ⟨place_track, place_sector⟩
    left
    rw [BufferState.Found, place_track, place_sector, track_eq, laid.seek_eq]
    exact ⟨rfl, drive_eq, min_le, more⟩
  · right
    rintro i lt ⟨found_track, -, -, found_lt⟩
    rw [BitVec.add_assoc, ← BitVec.ofNat_add] at found_track found_lt
    by_cases here : layout.fsectorT + (blocks + i : Nat) < (formats input.currentDrive).cylinder
    · rw [(round.place_add laid (by omega) here).2] at found_lt
      omega
    · rw [laid.sector_eq] at here
      have behind : (formats input.currentDrive).trackAt req.pos <
          (formats input.currentDrive).trackAt (req.pos + BitVec.ofNat 32 (blocks + i)) :=
        round.plain.place_behind (by omega) (by omega)
      rw [track_eq, laid.seek_eq] at found_track
      exact behind.ne (Int.eq_of_mul_eq_mul_right (two_pow_pos _).ne' found_track)

/-- The data of a write is collected in the track buffer. -/
theorem store_copies (round : Round formats input req st)
    (laid : PlainLayout (formats input.currentDrive) input req layout) {ready : BufferState}
    (readied : Readied input st.buffer layout ready) {blocks : Nat}
    (le : layout.fsectorT + blocks ≤ layout.maxSector)
    (room : layout.fsectorT + blocks ≤ 2 * ready.maxBufferSectors + ready.bufferMin) :
    runCopies st.memory (copySegments ready false req.segments (blocks * 512)
        (ready.addressOf layout.fsectorT)) =
      copyIn st.memory req.ranges (blocks * 512) (ready.addressOf layout.fsectorT).toNat := by
  have nonneg := laid.reach.nonneg
  have maxSector_le := laid.reach.le
  rcases readied.spec laid.reach round.coherent.roomy with ⟨-, -, -, min_le, -, -⟩
  have space := (round.roomy_of_readied laid readied room 0 0).copyRoom min_le room
  have space : CopyRoom ready (blocks * 512) (ready.addressOf layout.fsectorT).toNat :=
    ⟨space.lower, space.upper, space.room⟩
  have bytes_eq : (blocks * 512 : Int) = (blocks * 512 : Nat) := by omega
  rw [bytes_eq, ← BufferState.addressOf_toNat min_le]
  exact runCopies_writes space (by omega) round.placed.short

/-- Blocks are written by way of the track buffer. -/
theorem store_effect (round : Round formats input req st)
    (laid : PlainLayout (formats input.currentDrive) input req layout) {ready : BufferState}
    (readied : Readied input st.buffer layout ready) {blocks : Nat} (some : 0 < blocks)
    (le : layout.fsectorT + blocks ≤ layout.maxSector)
    (room : layout.fsectorT + blocks ≤ 2 * ready.maxBufferSectors + ready.bufferMin)
    (blocks_le : blocks ≤ req.blocks) (writes : req.write = true) (complete : ending.Complete)
    {memory : Buffer} (copied : memory = copyIn st.memory req.ranges (blocks * 512)
      (ready.addressOf layout.fsectorT).toNat) :
    let buffer : BufferState := { ready with
      bufferTrack := layout.cmd.seekTrack
      bufferDrive := input.currentDrive.toInt
      bufferMax := max ready.bufferMax (layout.fsectorT + blocks) }
    let result := IoState.command input req ending (layout.started (blocks * 512))
      (ready.addressOf layout.fsectorT).toNat (blocks * 512) blocks { st with memory, buffer }
    result.2.Coherent formats ∧
      Effect (formats input.currentDrive) input.currentDrive req ending st result.1 result.2 := by
  intro buffer result
  have roomy := round.coherent.roomy
  have addresses := laid.addresses round.plain round.pos_lt input.currentDrive some le
  have maxSector_le := laid.maxSector_le round.plain
  have total := round.total_eq
  have kind : (layout.started (blocks * 512)).reads = false := by
    rw [(PlainLayout.started_kind layout _).1, laid.reads_eq.1, writes]
    rfl
  rcases readied.spec laid.reach roomy with ⟨base_eq, size_eq, min_ge, min_le, le_max, within⟩
  rcases round.readied_holds laid readied with ⟨min_nonneg, max_le, range_eq, bytes⟩
  have apart : AllApart req.ranges ⟨_, blocks * 512⟩ := round.apart_window range_eq min_le room
  have others (address : Nat) (outside : ¬(Range.mk (ready.addressOf layout.fsectorT).toNat
      (blocks * 512)).Contains address) : memory address = st.memory address := by
    rw [copied]
    exact copyIn_of_outside outside
  rcases command_eq { st with memory, buffer } addresses ending
    (ready.addressOf layout.fsectorT).toNat with ⟨progress, after, concluded, command⟩
  simp only [kind, Bool.false_eq_true, if_false, complete.transferred_eq] at command concluded
  have result_eq : result = _ := command
  cases concluded with
  | lost loses => exact absurd loses (complete.not_loses some)
  | done positive direct =>
      rw [result_eq]
      constructor
      · refine coherent_of_holds (round.roomy_of_readied laid readied room _ _) rfl laid.seek_eq
          ⟨min_nonneg, ?_, fun block lower upper offset lt => ?_⟩
        · simp only [buffer]
          omega
        · simp only [buffer] at lower upper
          by_cases new : layout.fsectorT ≤ block ∧ block < layout.fsectorT + blocks
          · obtain ⟨i, rfl⟩ : ∃ i : Nat, block = layout.fsectorT + i :=
              ⟨(block - layout.fsectorT).toNat, by omega⟩
            rw [round.sectorOf_eq laid (by omega)]
            exact (stored_at min_le round.plain (by omega) lt).symm
          · have old : block < ready.bufferMax := by omega
            have unwritten : memory ((ready.addressOf block).toNat + offset) =
                st.memory ((ready.addressOf block).toNat + offset) := by
              apply others
              simp only [Range.Contains, BufferState.addressOf]
              omega
            have ne (i : Nat) (i_lt : i < blocks) :
                (formats input.currentDrive).blockSector input.currentDrive
                    (req.pos.toNat + i) ≠
                  (formats input.currentDrive).sectorOf input.currentDrive
                    ((formats input.currentDrive).trackAt req.pos) block :=
              round.sector_ne laid (by omega) (by omega) (by omega) fun _ _ => by omega
            simp only [store_of_ne memory st.disks _ ne]
            exact unwritten.trans (bytes block lower old offset lt)
      · refine .written writes some blocks_le ?_ range_eq ⟨fun i lt => ?_, fun sector ne => ?_⟩
          (round.clear_behind laid (by omega) rfl rfl (by simp only [buffer]; omega)
            (by simp only [buffer]; omega) (by simp only [buffer]; omega))
        · intro address outside
          apply others
          rw [← range_eq] at outside
          simp only [Range.Contains, BufferState.range, BufferState.addressOf] at outside ⊢
          omega
        · rw [store_block round.plain _ _ _ lt, copied]
          exact copyIn_add apart lt (by omega)
        · exact store_of_ne _ _ _ ne
  | loaded positive reads elsewhere => simp [kind] at reads

/-- What a round does, and that it keeps the track buffer as it should be. -/
theorem pass_effect (round : Round formats input req st) (ending : Ending)
    (safe : req.write = true → ending.Complete ∧
      st.buffer.Clear (formats input.currentDrive) input.currentDrive req.pos req.blocks) :
    ∃ progress after,
      st.pass input req ending (formats input.currentDrive) = .ok (progress, after) ∧
      after.Coherent formats ∧
      Effect (formats input.currentDrive) input.currentDrive req ending st progress after := by
  have roomy := round.coherent.roomy
  have size := roomy.size
  rcases round.plain.exists_plan input roomy round.placed.toWellFormed
    (round.placed.outside (by omega)) round.pos_lt with ⟨layout, outcome, buffer, laid, run, plan⟩
  rw [IoState.pass, run, ok_bind]
  have nonneg := laid.reach.nonneg
  cases plan with
  | held reads here stop_eq =>
      exact ⟨_, _, rfl, round.held_effect laid reads here stop_eq⟩
  | @straight count absent some le within =>
      obtain ⟨blocks, rfl⟩ : ∃ blocks : Nat, count = blocks := ⟨count.toNat, by omega⟩
      refine ⟨_, _, rfl, ?_⟩
      cases writes : req.write with
      | false => exact round.straight_read laid (by omega) le within writes absent
      | true =>
          rcases safe writes with ⟨complete, clear⟩
          exact round.straight_write laid (by omega) le within writes complete absent clear
  | @load ready stop reads absent readied some stop_eq =>
      obtain ⟨blocks, blocks_eq⟩ : ∃ blocks : Nat, stop - layout.fsectorT = blocks :=
        ⟨(stop - layout.fsectorT).toNat, by omega⟩
      have min_le := (readied.spec laid.reach roomy).2.2.2.1
      have write : req.write = false := by simpa [reads] using laid.reads_eq.1
      refine ⟨_, _, rfl, ?_⟩
      rw [blocks_eq, ← BufferState.addressOf_toNat min_le]
      exact round.load_effect laid absent readied (by omega) (by omega) (by omega) write
  | @store ready stop writing readied some stop_eq =>
      obtain ⟨blocks, blocks_eq⟩ : ∃ blocks : Nat, stop - layout.fsectorT = blocks :=
        ⟨(stop - layout.fsectorT).toNat, by omega⟩
      have min_le := (readied.spec laid.reach roomy).2.2.2.1
      have write : req.write = true := laid.reads_eq.2.symm.trans writing
      have sectors_eq := req.sectors_eq
      have stop_int : stop = layout.fsectorT + blocks := by omega
      have le : layout.fsectorT + blocks ≤ layout.maxSector := by omega
      have copied := round.store_copies laid readied le (by omega)
      refine ⟨_, _, rfl, ?_⟩
      rw [blocks_eq, copied, ← BufferState.addressOf_toNat min_le, max_comm, stop_int]
      exact round.store_effect laid readied (by omega) le (by omega) (by omega) write
        (safe write).1 rfl

end Round

end Rounds

end Gray386.Floppy
