import Gray386.Floppy.Plain

/-!
# The sectors of a command

The blocks of a disk are numbered through, and a request is for some of them in a row. The
controller finds a sector by the cylinder over which the heads are, by the side and by its
number there. Here it is shown that the sectors of a command are those of the blocks that it is
meant for, in their order, and that as many of them are counted by `rw_interrupt` as were
transferred.
-/

namespace Gray386.Floppy

open Gray386.Machine

/-- A sector of a disk, by what selects it. -/
structure SectorId where
  drive : Word
  cylinder : Int
  side : Int
  sector : Int
  deriving DecidableEq, Repr

namespace FloppyStruct

variable (floppy : FloppyStruct)

/-- The place of a block in its cylinder. -/
def position (track block : Int) : Position :=
  ⟨track, block / floppy.sects, block % floppy.sects + floppy.sectbase.toNat⟩

/-- The side with which a head reads. -/
def side (head : Int) : Int := (floppy.phHead (.ofInt 32 head)).toNat / 4

/-- The sector of a block in its cylinder. -/
def sectorOf (drive : Word) (track block : Int) : SectorId :=
  ⟨drive, track * 2 ^ floppy.stretchShift, floppy.side (block / floppy.sects),
    block % floppy.sects + floppy.sectbase.toNat⟩

end FloppyStruct

/-- The sector at which the controller is. It begins with the side that is selected. -/
def RwCmd.sectorAt (cmd : RwCmd) (drive : Word) (here : Position) : SectorId :=
  let side := cmd.drSelect / 4
  ⟨drive, cmd.seekTrack, if here.head = cmd.head then side else 1 - side, here.sector⟩

/-- The sectors that a command transfers. -/
def RwCmd.sectors (cmd : RwCmd) (drive : Word) (count : Nat) : List SectorId :=
  (cmd.passes count cmd.start).map (cmd.sectorAt drive)

/-- What the command says, and how far it may go. -/
structure PlainLayout (floppy : FloppyStruct) (input : RwInput) (req : Request) (layout : Layout) :
    Prop where
  reach : Reach floppy.sects layout 0
  start_eq : layout.cmd.start = floppy.position (floppy.trackAt req.pos) layout.fsectorT
  sector_eq : layout.fsectorT = floppy.sectorAt req.pos
  last_eq : layout.cmd.sectPerTrack = floppy.sects
  code_eq : layout.cmd.sizecode = 2
  seek_eq : layout.cmd.seekTrack = floppy.trackAt req.pos * 2 ^ floppy.stretchShift
  select_eq : layout.cmd.drSelect / 4 = floppy.side (layout.fsectorT / floppy.sects)
  command_eq : layout.cmd.command = req.command floppy
  limit : layout.maxSector ≤ layout.fsectorT / floppy.sects * floppy.sects + floppy.sects ∨
    layout.maxSector = floppy.cylinder ∧ layout.fsectorT < floppy.sects ∧ req.write = false ∧
      floppy.stretch &&& (fdSwapsides ||| fdSectbasemask) = 0

section Layout

variable {floppy : FloppyStruct} {input : RwInput} {req : Request} {layout : Layout}

/-- Sectors of one size fill the side. -/
theorem fillTrack_plain {sects inSide sectbase : Int} (positive : 0 < sects) (le : sects ≤ 255)
    (nonneg : 0 ≤ inSide + sectbase) (lt : inSide + sectbase < 256) :
    fillTrack sects inSide sectbase (2 : Nat) =
      .ok (false, ⟨inSide + sectbase, sects, 2, 1, sects⟩) := by
  have quarters : (2 : Int) ^ ((2 : Nat) : Int).toNat = 4 := rfl
  have blocks : ((4 : Int) + 3) / 4 = 1 := rfl
  have number : uchar (inSide * 4 / 4 + sectbase) = inSide + sectbase := by
    rw [Int.mul_ediv_cancel _ (by omega)]
    exact uchar_of_bounds nonneg lt
  have count : uchar (uint32 (sects * 4) / 4) = sects := by
    rw [uint32_of_bounds (by omega) (by omega), Int.mul_ediv_cancel _ (by omega)]
    exact uchar_of_bounds (by omega) (by omega)
  have size : int32 sects = sects := int32_of_bounds (by omega) (by omega)
  have full : ¬uint32 sects < sects := by
    rw [uint32_of_bounds (by omega) (by omega)]
    omega
  simp only [fillTrack, quarters, blocks, udiv_of_pos Int.one_pos, ok_bind, Int.emod_one,
    Int.sub_zero, number, count, size, full, if_false]
  rfl

theorem trackAt_nonneg (floppy : FloppyStruct) (pos : Word) : 0 ≤ floppy.trackAt pos :=
  uchar_nonneg _

namespace Plain

theorem sectorCode_eq (plain : Plain floppy) (track head : Int) :
    sectorCode floppy track head = 2 := by
  rw [sectorCode, phantoms, plain.not2m]
  simp [plain.code]

theorem blockShift_eq (plain : Plain floppy) (track head inSide : Int) :
    blockShift floppy track head inSide = 0 := by
  rw [blockShift, plain.sectorCode_eq]
  rfl

theorem sects_le (plain : Plain floppy) : floppy.sects ≤ floppy.cylinder := by
  have heads := plain.heads_pos
  have sects_pos := plain.sects_pos
  have := Int.mul_le_mul_of_nonneg_left (by omega : (1 : Int) ≤ floppy.head.toNat) sects_pos.le
  rw [FloppyStruct.cylinder]
  omega

end Plain

theorem swap_cases (floppy : FloppyStruct) :
    (floppy.stretch &&& fdSwapsides) >>> 1 = 0 ∨ (floppy.stretch &&& fdSwapsides) >>> 1 = 1 := by
  have bit : (floppy.stretch &&& fdSwapsides).toNat ≤ 2 := by
    rw [BitVec.toNat_and]
    exact Nat.and_le_right
  have half : ((floppy.stretch &&& fdSwapsides) >>> 1).toNat ≤ 1 := by
    rw [BitVec.toNat_ushiftRight, Nat.shiftRight_eq_div_pow]
    omega
  rcases Nat.le_one_iff_eq_zero_or_eq_one.mp half with zero | one
  · exact Or.inl (BitVec.eq_of_toNat_eq zero)
  · exact Or.inr (BitVec.eq_of_toNat_eq one)

/-- The bit for the head is 0 or 1, next to the two bits for the drive. -/
theorem phHead_cases (floppy : FloppyStruct) {head : Int} (nonneg : 0 ≤ head) (lt : head < 2) :
    (floppy.phHead (.ofInt 32 head)).toNat = 0 ∨ (floppy.phHead (.ofInt 32 head)).toNat = 4 := by
  rw [FloppyStruct.phHead]
  obtain rfl | rfl : head = 0 ∨ head = 1 := by omega
  all_goals rcases swap_cases floppy with zero | one
  all_goals simp_all

theorem drSelect_eq (floppy : FloppyStruct) (drive : Word) {head : Int} (nonneg : 0 ≤ head)
    (lt : head < 2) :
    uchar ((drive &&& 3) + floppy.phHead (.ofInt 32 head) : Word).toNat / 4 = floppy.side head := by
  have unit : (drive &&& 3).toNat ≤ 3 := by
    rw [BitVec.toNat_and]
    exact Nat.and_le_right
  have bit := phHead_cases floppy nonneg lt
  rw [FloppyStruct.side, BitVec.toNat_add, uchar]
  omega

namespace Plain

theorem cylinder_le_two (plain : Plain floppy) : floppy.cylinder ≤ 2 * floppy.sects := by
  have heads_le := plain.heads_le
  rw [FloppyStruct.cylinder, Int.mul_comm]
  exact Int.mul_le_mul_of_nonneg_right (by omega) plain.sects_pos.le

theorem head_lt (plain : Plain floppy) {block : Int} (lt : block < floppy.cylinder) :
    block / floppy.sects < 2 := by
  have both := plain.cylinder_le_two
  rw [Int.ediv_lt_iff_lt_mul plain.sects_pos]
  omega

/-- A command goes to the end of the side, or it is a read that goes on to the second side. -/
theorem limit (plain : Plain floppy) (track tracksize : Int) :
    let fsectorT := floppy.sectorAt req.pos
    let maxSector := runLimit floppy input req track (fsectorT / floppy.sects) fsectorT false
      tracksize
    maxSector ≤ fsectorT / floppy.sects * floppy.sects + floppy.sects ∨
      maxSector = floppy.cylinder ∧ fsectorT < floppy.sects ∧ req.write = false ∧
        floppy.stretch &&& (fdSwapsides ||| fdSectbasemask) = 0 := by
  intro fsectorT maxSector
  have place := plain.place req.pos
  have bounds := place.bounds plain.toSmallGeometry
  have exact_int : int32 floppy.sects = floppy.sects := int32_of_bounds (by omega) (by omega)
  have side : floppy.sects ≤ fsectorT / floppy.sects * floppy.sects + floppy.sects := by
    have before : 0 ≤ fsectorT / floppy.sects * floppy.sects := bounds.2.1
    omega
  have plainly : phantoms floppy track (fsectorT / floppy.sects) = false := by
    rw [phantoms, plain.not2m, Bool.false_and, Bool.false_and]
  simp only [maxSector, runLimit, sideLimit, plainly, Bool.false_eq_true, if_false, exact_int,
    plain.maxSector_eq]
  split_ifs with probed written narrow
  · exact Or.inl side
  · exact Or.inl side
  · exact Or.inl side
  · simp only [Bool.and_eq_true, Bool.or_eq_true, decide_eq_true_eq, not_and] at written narrow
    by_cases first : fsectorT < floppy.sects
    · right
      refine ⟨rfl, first, ?_, ?_⟩
      · rw [Bool.eq_false_iff]
        intro writing
        apply written (Int.ediv_eq_zero_of_lt place.nonneg first)
        rw [Request.command, writing]
        exact (ct_fmMode floppy).1
      · by_contra flags
        exact narrow (Or.inl flags) first
    · left
      have one : 1 ≤ fsectorT / floppy.sects :=
        (Int.le_ediv_iff_mul_le bounds.1).mpr (by omega)
      have one_side := Int.mul_le_mul_of_nonneg_right one bounds.1.le
      have both := plain.cylinder_le_two
      omega

theorem exists_layout (plain : Plain floppy) (input : RwInput) (req : Request) :
    ∃ layout, layOut floppy input req (floppy.trackAt req.pos)
        (floppy.sectorAt req.pos / floppy.sects) (floppy.sectorAt req.pos % floppy.sects)
        (floppy.sectorAt req.pos) = .ok layout ∧ PlainLayout floppy input req layout := by
  have place := plain.place req.pos
  have bounds := place.bounds plain.toSmallGeometry
  have lt : floppy.sectorAt req.pos < floppy.cylinder := Int.emod_lt_of_pos _ plain.cylinder_pos
  have numbers := plain.numbers
  have inSide_nonneg := place.inSide_nonneg
  have inSide_lt := place.inSide_lt
  have visible : phantoms floppy (floppy.trackAt req.pos)
      (floppy.sectorAt req.pos / floppy.sects) = true →
      floppy.sectorAt req.pos < sideLimit floppy input (floppy.trackAt req.pos)
        (floppy.sectorAt req.pos / floppy.sects) (floppy.sectorAt req.pos) := by
    simp [phantoms, plain.not2m]
  rcases exists_laidOut input req plain.sects_pos place.nonneg (by omega) with
    ⟨layout, run, laidOut⟩
  have reach := laidOut.reach plain.toSmallGeometry place visible
  rw [plain.blockShift_eq] at reach
  refine ⟨layout, run, ?_⟩
  rw [layOut, plain.sectorCode_eq, fillTrack_plain plain.sects_pos (by omega) (by omega) (by omega),
    ok_bind] at run
  simp only [udiv_of_pos Int.one_pos, ok_bind] at run
  obtain rfl := Except.ok.inj run
  exact ⟨reach, rfl, rfl, rfl, rfl, rfl,
    drSelect_eq floppy _ place.head_nonneg (plain.head_lt lt), rfl, plain.limit _ floppy.sects⟩

end Plain

end Layout

section Steps

variable {floppy : FloppyStruct} {input : RwInput} {req : Request} {layout : Layout} {track : Int}

/-- The next block of a side has the next number. -/
theorem position_succ (sects_pos : 0 < floppy.sects) {block : Int}
    (inside : block % floppy.sects + 1 < floppy.sects) :
    floppy.position track (block + 1) =
      { floppy.position track block with sector := (floppy.position track block).sector + 1 } := by
  have nonneg := Int.emod_nonneg block sects_pos.ne'
  have split := Int.emod_add_mul_ediv block floppy.sects
  have next := Int.ediv_emod_unique sects_pos (a := block + 1) (q := block / floppy.sects)
    (r := block % floppy.sects + 1)
  rcases next.mpr ⟨by omega, by omega, inside⟩ with ⟨quotient, remainder⟩
  simp only [FloppyStruct.position, quotient, remainder]
  congr 1
  omega

theorem step_inside {cmd : RwCmd} (sects_pos : 0 < floppy.sects) {block : Int}
    (inside : block % floppy.sects + 1 < floppy.sects)
    (ne : block % floppy.sects + floppy.sectbase.toNat ≠ cmd.sectPerTrack) :
    cmd.goesOn (floppy.position track block) = true ∧
      cmd.next (floppy.position track block) = floppy.position track (block + 1) := by
  constructor
  · simp [RwCmd.goesOn, FloppyStruct.position, ne]
  · rw [position_succ sects_pos inside]
    exact if_pos ne

/-- Behind the last block of the first side comes the first block of the second one. -/
theorem step_across {cmd : RwCmd} (sects_pos : 0 < floppy.sects) (both : cmd.multiTrack = true)
    (last_eq : cmd.sectPerTrack = floppy.sects) (base_eq : floppy.sectbase.toNat = 1) :
    cmd.goesOn (floppy.position track (floppy.sects - 1)) = true ∧
      cmd.next (floppy.position track (floppy.sects - 1)) =
        floppy.position track floppy.sects := by
  have quotient : (floppy.sects - 1) / floppy.sects = 0 :=
    Int.ediv_eq_zero_of_lt (by omega) (by omega)
  have remainder : (floppy.sects - 1) % floppy.sects = floppy.sects - 1 :=
    Int.emod_eq_of_lt (by omega) (by omega)
  have here : floppy.position track (floppy.sects - 1) = ⟨track, 0, floppy.sects⟩ := by
    rw [FloppyStruct.position, quotient, remainder, base_eq]
    simp
  have behind : floppy.position track floppy.sects = ⟨track, 1, 1⟩ := by
    rw [FloppyStruct.position, Int.ediv_self sects_pos.ne', Int.emod_self, base_eq]
    rfl
  rw [here, behind]
  constructor
  · simp [RwCmd.goesOn, both]
  · simp [RwCmd.next, both, last_eq]

/-- Where the sides are not exchanged, the first side is side 0 and its first sector is 1. -/
theorem unexchanged (flags : floppy.stretch &&& (fdSwapsides ||| fdSectbasemask) = 0) :
    floppy.sectbase.toNat = 1 ∧ floppy.side 0 = 0 ∧ floppy.side 1 = 1 := by
  have base : floppy.stretch &&& fdSectbasemask =
      floppy.stretch &&& (fdSwapsides ||| fdSectbasemask) &&& fdSectbasemask := by
    rw [BitVec.and_assoc]
    rfl
  have swap : floppy.stretch &&& fdSwapsides =
      floppy.stretch &&& (fdSwapsides ||| fdSectbasemask) &&& fdSwapsides := by
    rw [BitVec.and_assoc]
    rfl
  rw [flags] at base swap
  simp only [FloppyStruct.sectbase, FloppyStruct.side, FloppyStruct.phHead, base, swap]
  decide

theorem mod_of_inside {block sects : Int} (q : Int) (lower : q * sects ≤ block)
    (upper : block < q * sects + sects) : block % sects = block - q * sects := by
  have unique := Int.ediv_emod_unique (by omega : 0 < sects) (a := block) (q := q)
    (r := block - q * sects)
  exact (unique.mpr ⟨by rw [Int.mul_comm]; omega, by omega, by omega⟩).2

namespace PlainLayout

theorem reads_eq (laid : PlainLayout floppy input req layout) :
    layout.reads = !req.write ∧ layout.writes = req.write := by
  have modes := ct_fmMode floppy
  rw [Layout.reads, Layout.writes, laid.command_eq, Request.command]
  cases req.write with
  | false =>
      simp only [Bool.false_eq_true, if_false, modes.2]
      decide
  | true =>
      simp only [if_true, modes.1]
      decide

theorem started_of_reads (laid : PlainLayout floppy input req layout) (reads : req.write = false)
    (length : Int) : layout.started length = layout := by
  have command : ct layout.cmd.command = fdRead := by
    rw [laid.command_eq, Request.command, reads]
    exact (ct_fmMode floppy).2
  rw [Layout.started, virtualdmabugWorkaround, command]
  rfl

/-- The last sector of a write is the last one of the side for the controller. -/
theorem last_of_writes (laid : PlainLayout floppy input req layout) (writes : req.write = true)
    (count : Int) :
    let last := layout.cmd.sector + count - 1
    (layout.started (count * 512)).cmd.sectPerTrack =
      if last > floppy.sects then floppy.sects else uchar last := by
  have command : ct layout.cmd.command = fdWrite := by
    rw [laid.command_eq, Request.command, writes]
    exact (ct_fmMode floppy).1
  have bytes : (2 : Int) ^ (7 + (2 : Int)).toNat = 512 := rfl
  simp only [Layout.started, virtualdmabugWorkaround, command, laid.code_eq, bytes,
    Int.mul_ediv_cancel _ (by omega : (512 : Int) ≠ 0), laid.last_eq, if_true]
  split_ifs <;> rfl

theorem started_kind (layout : Layout) (length : Int) :
    (layout.started length).reads = layout.reads ∧
      (layout.started length).writes = layout.writes := by
  have kept : ∀ command : Byte, ct (command &&& ~~~0x80) = ct command := by decide
  simp only [Layout.started, virtualdmabugWorkaround, Layout.reads, Layout.writes]
  split_ifs <;> simp only [kept, and_self]

theorem started_start (layout : Layout) (length : Int) :
    (layout.started length).cmd.start = layout.cmd.start := by
  simp only [Layout.started, virtualdmabugWorkaround]
  split_ifs <;> rfl

/-- The steps of a command that stays on one side. -/
theorem step_of_side (plain : Plain floppy) (laid : PlainLayout floppy input req layout)
    {count : Int} {block : Int} (lower : layout.fsectorT ≤ block)
    (upper : block + 1 < layout.fsectorT + count)
    (side : layout.fsectorT + count ≤
      layout.fsectorT / floppy.sects * floppy.sects + floppy.sects) :
    let cmd := (layout.started (count * 512)).cmd
    cmd.goesOn (floppy.position track block) = true ∧
      cmd.next (floppy.position track block) = floppy.position track (block + 1) := by
  have split := Int.emod_add_mul_ediv layout.fsectorT floppy.sects
  rw [Int.mul_comm] at split
  have inSide_nonneg := Int.emod_nonneg layout.fsectorT plain.sects_pos.ne'
  have numbers := plain.numbers
  have le := plain.cylinder_le
  have sects_le := plain.sects_le
  have sector_eq : layout.cmd.sector =
      layout.fsectorT % floppy.sects + floppy.sectbase.toNat :=
    congrArg Position.sector laid.start_eq
  have inside : block % floppy.sects = block - layout.fsectorT / floppy.sects * floppy.sects :=
    mod_of_inside _ (by omega) (by omega)
  apply step_inside plain.sects_pos
  · omega
  · cases writes : req.write with
    | false =>
        rw [laid.started_of_reads writes, laid.last_eq]
        omega
    | true =>
        rw [laid.last_of_writes writes]
        split_ifs with beyond
        · omega
        · rw [uchar_of_bounds (by omega) (by omega)]
          omega

/-- The steps of a read that may go on to the second side. -/
theorem step_of_cylinder (plain : Plain floppy) (laid : PlainLayout floppy input req layout)
    (reads : req.write = false)
    (flags : floppy.stretch &&& (fdSwapsides ||| fdSectbasemask) = 0) {block : Int}
    (nonneg : 0 ≤ block) (lt : block + 1 < floppy.cylinder) (length : Int) :
    let cmd := (layout.started length).cmd
    cmd.goesOn (floppy.position track block) = true ∧
      cmd.next (floppy.position track block) = floppy.position track (block + 1) := by
  have base_eq := (unexchanged flags).1
  have sects_pos := plain.sects_pos
  have two := plain.cylinder_le_two
  have both : layout.cmd.multiTrack = true := by
    have modes : ∀ rate : Byte, (fdRead &&& ~~~((rate &&& 0x80) >>> 1)) &&& 0x80 ≠ 0 := by decide
    rw [RwCmd.multiTrack, laid.command_eq, Request.command, reads]
    exact decide_eq_true (modes floppy.rate)
  rw [laid.started_of_reads reads]
  by_cases inside : block % floppy.sects + 1 < floppy.sects
  · apply step_inside sects_pos inside
    rw [laid.last_eq]
    omega
  · obtain rfl : block = floppy.sects - 1 := by
      rcases lt_or_ge block floppy.sects with first | second
      · rw [Int.emod_eq_of_lt nonneg first] at inside
        omega
      · rw [mod_of_inside 1 (by omega) (by omega)] at inside
        omega
    rw [Int.sub_add_cancel]
    exact step_across sects_pos both laid.last_eq base_eq

/-- The controller goes from block to block. -/
theorem passes_eq (plain : Plain floppy) (laid : PlainLayout floppy input req layout) {count : Nat}
    (le : layout.fsectorT + count ≤ layout.maxSector) {passed : Nat} (passed_le : passed ≤ count) :
    (layout.started (count * 512)).cmd.passes passed layout.cmd.start =
      (List.range passed).map
        fun i : Nat => floppy.position (floppy.trackAt req.pos) (layout.fsectorT + i) := by
  have nonneg := laid.reach.nonneg
  have first : layout.cmd.start =
      floppy.position (floppy.trackAt req.pos) (layout.fsectorT + (0 : Nat)) := by
    rw [Int.natCast_zero, Int.add_zero]
    exact laid.start_eq
  rw [first]
  apply RwCmd.passes_of_steps
    fun i : Nat => floppy.position (floppy.trackAt req.pos) (layout.fsectorT + i)
  intro i lt
  rw [Int.natCast_succ, ← Int.add_assoc]
  rcases laid.limit with side | ⟨limit_eq, -, reads, flags⟩
  · exact laid.step_of_side plain (by omega) (by omega) (by omega)
  · exact laid.step_of_cylinder plain reads flags (by omega) (by omega) _

theorem started_fields (layout : Layout) (length : Int) :
    (layout.started length).cmd.drSelect = layout.cmd.drSelect ∧
      (layout.started length).cmd.seekTrack = layout.cmd.seekTrack ∧
      (layout.started length).cmd.head = layout.cmd.head ∧
      (layout.started length).cmd.sizecode = layout.cmd.sizecode := by
  simp only [Layout.started, virtualdmabugWorkaround]
  split_ifs <;> exact ⟨rfl, rfl, rfl, rfl⟩

theorem div_of_inside {block sects : Int} (q : Int) (lower : q * sects ≤ block)
    (upper : block < q * sects + sects) : block / sects = q := by
  have unique := Int.ediv_emod_unique (by omega : 0 < sects) (a := block) (q := q)
    (r := block - q * sects)
  exact (unique.mpr ⟨by rw [Int.mul_comm]; omega, by omega, by omega⟩).1

/-- The controller is on the side of the block. -/
theorem sectorAt_eq (plain : Plain floppy) (laid : PlainLayout floppy input req layout)
    (drive : Word) {block : Int} (lower : layout.fsectorT ≤ block)
    (upper : block < layout.maxSector)
    (length : Int) :
    (layout.started length).cmd.sectorAt drive (floppy.position (floppy.trackAt req.pos) block) =
      floppy.sectorOf drive (floppy.trackAt req.pos) block := by
  have nonneg := laid.reach.nonneg
  have split := Int.emod_add_mul_ediv layout.fsectorT floppy.sects
  rw [Int.mul_comm] at split
  have inSide_nonneg := Int.emod_nonneg layout.fsectorT plain.sects_pos.ne'
  have head_eq : layout.cmd.head = layout.fsectorT / floppy.sects :=
    congrArg Position.head laid.start_eq
  rcases started_fields layout length with ⟨select, seek, head, -⟩
  simp only [RwCmd.sectorAt, FloppyStruct.sectorOf, FloppyStruct.position, select, seek, head,
    head_eq, laid.seek_eq, laid.select_eq]
  congr 1
  rcases laid.limit with side | ⟨limit_eq, first, -, flags⟩
  · rw [div_of_inside (layout.fsectorT / floppy.sects) (by omega) (by omega), if_pos rfl]
  · rcases unexchanged flags with ⟨-, side_zero, side_one⟩
    rw [Int.ediv_eq_zero_of_lt nonneg first, side_zero]
    rcases lt_or_ge block floppy.sects with same | other
    · rw [Int.ediv_eq_zero_of_lt (by omega) same, if_pos rfl, side_zero]
    · have both := plain.cylinder_le_two
      rw [div_of_inside 1 (by omega) (by omega), if_neg (by decide), side_one]
      rfl

/-- The result has room for every place that the controller gets to. -/
theorem countable (plain : Plain floppy) (laid : PlainLayout floppy input req layout)
    (track_lt : floppy.trackAt req.pos < 255) {count : Nat} (some : 0 < count)
    (le : layout.fsectorT + count ≤ layout.maxSector) {passed : Nat} (passed_le : passed ≤ count) :
    (layout.started (count * 512)).cmd.Countable layout.cmd.start passed := by
  have nonneg := laid.reach.nonneg
  have lt := laid.reach.lt
  have inSide_nonneg := Int.emod_nonneg layout.fsectorT plain.sects_pos.ne'
  have inSide_lt := Int.emod_lt_of_pos layout.fsectorT plain.sects_pos
  have split := Int.emod_add_mul_ediv layout.fsectorT floppy.sects
  rw [Int.mul_comm] at split
  have numbers := plain.numbers
  have cylinder_le := plain.cylinder_le
  have sects_le := plain.sects_le
  have sector_eq : layout.cmd.sector =
      layout.fsectorT % floppy.sects + floppy.sectbase.toNat :=
    congrArg Position.sector laid.start_eq
  have head_lt : layout.fsectorT / floppy.sects < 2 := plain.head_lt (by
    have sector_lt : floppy.sectorAt req.pos < floppy.cylinder :=
      Int.emod_lt_of_pos _ plain.cylinder_pos
    rw [laid.sector_eq]
    exact sector_lt)
  have side : floppy.sectbase.toNat ≠ 1 ∨ req.write = true →
      layout.fsectorT % floppy.sects + count ≤ floppy.sects := by
    intro narrow
    rcases laid.limit with side | ⟨-, -, reads, flags⟩
    · omega
    · have base_eq := (unexchanged flags).1
      rw [reads] at narrow
      simp [base_eq] at narrow
  have place : (layout.cmd.sector + passed < 256 ∨
      0 < (layout.started (count * 512)).cmd.sectPerTrack ∧
        layout.cmd.sector ≤ (layout.started (count * 512)).cmd.sectPerTrack) ∧
      (layout.started (count * 512)).cmd.sectPerTrack < 256 := by
    cases writes : req.write with
    | false =>
        rw [laid.started_of_reads writes, laid.last_eq]
        by_cases one : floppy.sectbase.toNat = 1
        · omega
        · have := side (Or.inl one)
          omega
    | true =>
        have one_side := side (Or.inr writes)
        rw [laid.last_of_writes writes]
        split_ifs with beyond
        · omega
        · rw [uchar_of_bounds (by omega) (by omega)]
          omega
  have track_nonneg := trackAt_nonneg floppy req.pos
  have head_nonneg := Int.ediv_nonneg nonneg plain.sects_pos.le
  rw [laid.start_eq]
  rw [sector_eq] at place
  exact ⟨track_nonneg, track_lt, head_nonneg, head_lt,
    by simp only [FloppyStruct.position]; omega, place.1, place.2⟩

/-- So many sectors are counted as were transferred. -/
theorem nrSectors_eq (plain : Plain floppy) (laid : PlainLayout floppy input req layout)
    (track_lt : floppy.trackAt req.pos < 255) {count : Nat} (some : 0 < count)
    (le : layout.fsectorT + count ≤ layout.maxSector) {passed : Nat} (passed_le : passed ≤ count) :
    let started := layout.started (count * 512)
    started.nrSectors (started.cmd.replyFrom passed started.cmd.start) = passed := by
  intro started
  have start_eq : started.cmd.start = layout.cmd.start := started_start layout _
  have counted := sectorsPassed_replyFrom started passed (by
    rw [start_eq]
    exact laid.countable plain track_lt some le passed_le)
  have offset : started.inSectorOffset = 0 := laid.reach.offset_zero
  have code : started.cmd.sizecode = 2 := (started_fields layout _).2.2.2.trans laid.code_eq
  have length : (started.cmd.passes passed started.cmd.start).length = passed := by
    rw [start_eq, laid.passes_eq plain le passed_le, List.length_map, List.length_range]
  have quarters : (2 : Int) ^ (2 : Int).toNat = 4 := rfl
  rw [Layout.nrSectors, counted, offset, length, code, quarters,
    Int.mul_ediv_cancel _ (by omega), Int.sub_zero]
  omega

end PlainLayout

end Steps

/-- The sector of a block of the disk. -/
def FloppyStruct.blockSector (floppy : FloppyStruct) (drive : Word) (block : Nat) : SectorId :=
  floppy.sectorOf drive (block / floppy.cylinder) (block % floppy.cylinder)

/-- The number of blocks of the disk. -/
def FloppyStruct.blocks (floppy : FloppyStruct) : Int := floppy.cylinder * floppy.track.toNat

section Request

variable {floppy : FloppyStruct} {buffer : BufferState} {req : Request}

namespace Plain

theorem trackAt_eq (plain : Plain floppy) {pos : Word} (onDisk : pos.toNat < floppy.blocks) :
    floppy.trackAt pos = pos.toNat / floppy.cylinder ∧
      floppy.trackAt pos < floppy.track.toNat := by
  have tracks_lt := plain.tracks_lt
  have quotient_lt : (pos.toNat : Int) / floppy.cylinder < floppy.track.toNat := by
    rw [Int.ediv_lt_iff_lt_mul plain.cylinder_pos, Int.mul_comm]
    exact onDisk
  have quotient_nonneg : 0 ≤ (pos.toNat : Int) / floppy.cylinder :=
    Int.ediv_nonneg (by omega) plain.cylinder_pos.le
  have track_eq : floppy.trackAt pos = pos.toNat / floppy.cylinder :=
    uchar_of_bounds quotient_nonneg (by omega)
  exact ⟨track_eq, track_eq ▸ quotient_lt⟩

/-- A later block has the same track, as long as it is in the cylinder. -/
theorem ediv_emod_add (plain : Plain floppy) {pos : Word} {i : Nat}
    (lt : floppy.sectorAt pos + i < floppy.cylinder) :
    ((pos.toNat + i : Nat) : Int) / floppy.cylinder = pos.toNat / floppy.cylinder ∧
      ((pos.toNat + i : Nat) : Int) % floppy.cylinder = floppy.sectorAt pos + i := by
  have split := Int.emod_add_mul_ediv (pos.toNat : Int) floppy.cylinder
  have sector_nonneg : 0 ≤ floppy.sectorAt pos := Int.emod_nonneg _ plain.cylinder_pos.ne'
  rw [FloppyStruct.sectorAt] at sector_nonneg lt ⊢
  exact (Int.ediv_emod_unique plain.cylinder_pos).mpr ⟨by omega, by omega, lt⟩

/-- A block of the cylinder with which a request begins. -/
theorem sectorOf_eq (plain : Plain floppy) {pos : Word} (onDisk : pos.toNat < floppy.blocks)
    (drive : Word) {i : Nat} (lt : floppy.sectorAt pos + i < floppy.cylinder) :
    floppy.sectorOf drive (floppy.trackAt pos) (floppy.sectorAt pos + i) =
      floppy.blockSector drive (pos.toNat + i) := by
  rcases plain.ediv_emod_add lt with ⟨quotient, remainder⟩
  rw [FloppyStruct.blockSector, quotient, remainder, (plain.trackAt_eq onDisk).1]

theorem blocks_lt (plain : Plain floppy) : floppy.blocks < 65536 := by
  have tracks_lt := plain.tracks_lt
  have product := Int.mul_le_mul plain.cylinder_le (by omega : (floppy.track.toNat : Int) ≤ 255)
    (by omega) (by omega)
  rw [FloppyStruct.blocks]
  omega

/-- What `make_raw_rw_request` decides about a request for blocks of the disk. -/
theorem exists_plan (plain : Plain floppy) (input : RwInput) (roomy : buffer.Roomy)
    (formed : req.WellFormed) (outside : req.Outside buffer)
    (onDisk : req.pos.toNat < floppy.blocks) :
    ∃ layout outcome after, PlainLayout floppy input req layout ∧
      req.makeRawRwRequest floppy input buffer = .ok (outcome, after) ∧
      Plan input buffer req layout outcome after := by
  have blocks_lt := plain.blocks_lt
  have tracked := plain.trackAt_eq onDisk
  rcases plain.exists_layout input req with ⟨layout, run, laid⟩
  have kind : layout.reads = true ∨ layout.reads = false ∧ layout.writes = true := by
    rw [laid.reads_eq.1, laid.reads_eq.2]
    cases req.write with
    | false => exact Or.inl rfl
    | true => exact Or.inr ⟨rfl, rfl⟩
  rcases transfer_plan laid.reach plain.sects_pos roomy formed outside kind with
    ⟨outcome, after, transferred, plan⟩
  refine ⟨layout, outcome, after, laid, ?_, plan⟩
  rw [makeRawRwRequest_of_small plain.toSmallGeometry (by omega) roomy.opened, if_neg, if_neg, run,
    ok_bind, transferred]
  · simp [phantoms, plain.not2m]
  · simp only [ne_eq, ge_iff_le, Bool.and_eq_true, decide_eq_true_eq, not_and]
    omega

end Plain

/-- The controller transfers the blocks from a position on, and what it transfers is counted. -/
structure Layout.Addresses (layout : Layout) (floppy : FloppyStruct) (drive pos : Word)
    (blocks : Nat) : Prop where
  sectors_eq : ∀ passed ≤ blocks, layout.cmd.sectors drive passed =
    (List.range passed).map fun i => floppy.blockSector drive (pos.toNat + i)
  counted : ∀ passed ≤ blocks,
    layout.nrSectors (layout.cmd.replyFrom passed layout.cmd.start) = passed
  /-- The interrupt is not taken for a bogus one. -/
  heeded : ∀ passed ≤ blocks, (layout.cmd.replyFrom passed layout.cmd.start).rHead < 2

theorem PlainLayout.maxSector_le {input : RwInput} {layout : Layout} (plain : Plain floppy)
    (laid : PlainLayout floppy input req layout) : layout.maxSector ≤ floppy.cylinder := by
  have place := plain.place req.pos
  have side_le := place.side_le
  rcases laid.limit with side | ⟨limit_eq, -⟩
  · rw [laid.sector_eq] at side
    omega
  · exact limit_eq.le

theorem PlainLayout.addresses {input : RwInput} {layout : Layout} (plain : Plain floppy)
    (laid : PlainLayout floppy input req layout) (onDisk : req.pos.toNat < floppy.blocks)
    (drive : Word) {blocks : Nat} (some : 0 < blocks)
    (le : layout.fsectorT + blocks ≤ layout.maxSector) :
    (layout.started (blocks * 512)).Addresses floppy drive req.pos blocks := by
  have tracks_lt := plain.tracks_lt
  have tracked := plain.trackAt_eq onDisk
  have cylinder := laid.maxSector_le plain
  constructor
  · intro passed passed_le
    rw [RwCmd.sectors, PlainLayout.started_start, laid.passes_eq plain le passed_le, List.map_map]
    apply List.map_congr_left
    intro i mem
    rw [List.mem_range] at mem
    rw [Function.comp_apply, laid.sectorAt_eq plain drive (by omega) (by omega)]
    have lt : floppy.sectorAt req.pos + i < floppy.cylinder := by
      rw [← laid.sector_eq]
      omega
    rw [laid.sector_eq, plain.sectorOf_eq onDisk drive lt]
  · intro passed passed_le
    exact laid.nrSectors_eq plain (by omega) some le passed_le
  · intro passed passed_le
    rw [PlainLayout.started_start]
    exact (laid.countable plain (by omega) some le passed_le).rHead_lt

/-- Blocks are copied, or there is a command for blocks. -/
def RwOutcome.Addresses (floppy : FloppyStruct) (drive pos : Word) : RwOutcome → Prop
  | .refused | .skipped _ => False
  | .copied _ result => 0 < result.currentCountSectors
  | .programmed layout _ length count _ =>
      0 < count ∧ length = count * 512 ∧ layout.Addresses floppy drive pos count.toNat

end Request

end Gray386.Floppy
