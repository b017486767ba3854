import Gray386.Floppy.Geometry
import Gray386.Floppy.RawCommand
import Mathlib.Logic.Function.Basic

/-!
# Setting the geometry

`set_geometry` is what `FDSETPRM` and `FDDEFPRM` call. Through a device for one of the fixed
types a user changes the table for all drives. Through a device for any type he gives the
drive a geometry of its own, and here the sectors that have been read already are dropped
only when needed, that is when their numbers change.

They are dropped by `invalidate_drive`. It pretends that the disk has been changed, so that
`check_disk_change` has the buffer cache flushed and the track buffer given up.
-/

namespace Gray386.Floppy

open Gray386.Machine

def eperm : Int := 1

abbrev nDrive : Nat := 8

/-- What `current_type` may point to. -/
inductive TypePointer where
  | userParams
  | floppyType (index : Fin 32)
  deriving DecidableEq, Repr

/-- The variables of one drive that have to do with its geometry. -/
structure DriveGeometry where
  /-- `UDP->tracks`. -/
  tracks : Byte
  fdDevice : Word
  /-- The device is open, `opened_bdev[drive]`. -/
  opened : Bool
  diskChanged : Bool
  verify : Bool
  maxblock : BitVec 16
  maxtrack : BitVec 16
  keepData : Int
  fakeChange : Bool
  currentType : Option TypePointer
  userParams : FloppyStruct

/-- `ITYPE`. -/
def itype (device : Word) : Fin 32 :=
  ⟨((device >>> 2) &&& 0x1f).toNat, by
    rw [BitVec.toNat_and]
    exact Nat.lt_of_le_of_lt Nat.and_le_right (by decide)⟩

/-- The calls by which the rest of the kernel learns of a new geometry. -/
inductive GeometryCall where
  | processFdRequest
  | invalidateDrive (drive : Fin nDrive)
  | flushDisk (drive : Fin nDrive)
  | invalidateDevice (drive : Fin nDrive)
  deriving DecidableEq, Repr

structure GeometryState where
  drives : Fin nDrive → DriveGeometry
  floppyType : Fin 32 → FloppyStruct
  floppySizes : Nat → Word
  bufferTrack : Int
  bufferDrive : Int
  bufferMax : Int
  calls : List GeometryCall

/-- What `set_geometry` meets. -/
structure GeometryInput where
  /-- The command is `FDDEFPRM`. -/
  fddefprm : Bool
  capable : Bool
  /-- A signal arrives in `lock_fdc`, or in `poll_drive`. -/
  lockInterrupted : Bool
  pollInterrupted : Bool
  /-- The drive is due for a look at the disk-change line, and what it says then. -/
  checkDue : Bool
  checkChanged : Bool

namespace GeometryState

variable (st : GeometryState) (input : GeometryInput) (drive : Fin nDrive)

/-- The geometry that `current_type` points to. -/
def geometry : Option FloppyStruct :=
  (st.drives drive).currentType.map fun
    | .userParams => (st.drives drive).userParams
    | .floppyType index => st.floppyType index

def call (made : GeometryCall) : GeometryState :=
  { st with calls := st.calls ++ [made] }

def modify (change : DriveGeometry → DriveGeometry) : GeometryState :=
  { st with drives := Function.update st.drives drive (change (st.drives drive)) }

/-- The tests of `floppy_check_events` and `floppy_revalidate`. -/
def changeNoticed : Bool :=
  let info := st.drives drive
  info.diskChanged || info.verify || info.fakeChange ||
    (info.currentType.isNone && itype info.fdDevice = 0)

/-- `floppy_check_events`, and whether it tells of another disk. -/
def floppyCheckEvents : Bool × GeometryState :=
  let info := st.drives drive
  if info.diskChanged || info.verify then (true, st)
  else
    let st :=
      if input.checkDue then
        (st.modify drive fun info =>
          { info with diskChanged := info.diskChanged || input.checkChanged }).call
            .processFdRequest
      else st
    (st.changeNoticed drive, st)

/-- `floppy_revalidate`. -/
def floppyRevalidate : GeometryState :=
  if st.changeNoticed drive then
    let st := st.modify drive fun info =>
      { info with maxblock := 0, maxtrack := 0, fakeChange := false, diskChanged := false }
    let st := if st.bufferDrive = drive then { st with bufferTrack := -1 } else st
    st.call .processFdRequest
  else st

/-- `check_disk_change`. -/
def checkDiskChange : GeometryState :=
  let (changed, st) := st.floppyCheckEvents input drive
  if changed then (st.call (.flushDisk drive)).floppyRevalidate drive else st

/-- `invalidate_drive`. -/
def invalidateDrive : GeometryState :=
  let st := st.call (.invalidateDrive drive)
  let st := st.modify drive fun info => { info with fakeChange := true }
  (st.call .processFdRequest).checkDiskChange input drive

/-- `set_geometry` for a fixed type. -/
def setTypeGeometry (g : FloppyStruct) (type : Fin 32) : GeometryState :=
  let st := { st with
    floppyType := Function.update st.floppyType type { g with name := some "user format" }
    floppySizes := fun index =>
      if index % 128 / 4 = type ∧ index < 256 then g.size + 1 else st.floppySizes index }
  let st := st.call .processFdRequest
  (List.finRange nDrive).foldl (fun st other =>
    if (st.drives other).opened && itype (st.drives other).fdDevice = type then
      st.call (.invalidateDevice other)
    else st) st

/-- `set_geometry` for one drive, before it decides what to drop. -/
def storeGeometry (g : FloppyStruct) : GeometryState :=
  let st := st.modify drive fun info =>
    { info with
      userParams := g
      currentType := some .userParams
      keepData := if input.fddefprm then -1 else 1 }
  { st with
    bufferMax :=
      if st.bufferDrive = drive then min st.bufferMax (int32 g.sect.toNat) else st.bufferMax
    floppySizes := fun index => if index = drive then g.size else st.floppySizes index }

/-- The sectors that have been read get other numbers, as `set_geometry` sees it. -/
def needsInvalidation (oldStretch : Word) : Bool :=
  let info := st.drives drive
  info.userParams.sect.toNat < uint32 info.maxblock.toInt || info.maxtrack ≠ 0 ||
    (info.userParams.sect ^^^ oldStretch) &&& (fdSwapsides ||| fdSectbasemask) ≠ 0

/-- `set_geometry`. -/
def setGeometry (g : FloppyStruct) (type : Fin 32) : Int × GeometryState :=
  if !g.sane (st.drives drive).tracks then (-einval, st)
  else if type ≠ 0 then
    if !input.capable then (-eperm, st)
    else if input.lockInterrupted then (-eintr, st)
    else (0, st.setTypeGeometry g type)
  else if input.lockInterrupted then (-eintr, st)
  else if !input.fddefprm && input.pollInterrupted then (-eintr, st)
  else
    let oldStretch := g.stretch
    let st := st.storeGeometry input drive g
    (0, if st.needsInvalidation drive oldStretch then st.invalidateDrive input drive
      else st.call .processFdRequest)

/--
A drive is invalidated: `invalidate_drive` is called, the buffer cache is flushed, and no
sector of the drive is left in the track buffer.
-/
structure Invalidated (st after : GeometryState) (drive : Fin nDrive) : Prop where
  calls : ∃ made, after.calls = st.calls ++ made ∧
    .invalidateDrive drive ∈ made ∧ .flushDisk drive ∈ made
  buffer : after.bufferDrive = drive → after.bufferTrack = -1

variable {st : GeometryState} {drive : Fin nDrive}

theorem changeNoticed_of_fakeChange (fake : (st.drives drive).fakeChange = true) :
    st.changeNoticed drive = true := by
  simp [changeNoticed, fake]

/-- Where a change is pretended, `floppy_check_events` tells of it. -/
theorem floppyCheckEvents_of_fakeChange (input : GeometryInput)
    (fake : (st.drives drive).fakeChange = true) :
    ∃ checked made, st.floppyCheckEvents input drive = (true, checked) ∧
      (checked.drives drive).fakeChange = true ∧ checked.calls = st.calls ++ made := by
  simp only [floppyCheckEvents]
  split_ifs with known due
  · exact ⟨st, [], rfl, fake, by simp⟩
  · have still : ((((st.modify drive fun info => { info with
        diskChanged := info.diskChanged || input.checkChanged }).call
          .processFdRequest).drives drive).fakeChange) = true := by
      simpa [modify, call] using fake
    exact ⟨_, [.processFdRequest], by rw [changeNoticed_of_fakeChange still], still, rfl⟩
  · exact ⟨st, [], by rw [changeNoticed_of_fakeChange fake], fake, by simp⟩

theorem floppyRevalidate_of_fakeChange (fake : (st.drives drive).fakeChange = true) :
    (st.floppyRevalidate drive).calls = st.calls ++ [.processFdRequest] ∧
      ((st.floppyRevalidate drive).bufferDrive = drive →
        (st.floppyRevalidate drive).bufferTrack = -1) := by
  simp only [floppyRevalidate, changeNoticed_of_fakeChange fake, if_true]
  split_ifs with buffered
  · exact ⟨rfl, fun _ => rfl⟩
  · exact ⟨rfl, fun same => absurd same buffered⟩

theorem invalidated_invalidateDrive (st : GeometryState) (input : GeometryInput)
    (drive : Fin nDrive) : Invalidated st (st.invalidateDrive input drive) drive := by
  generalize pretended_eq : ((st.call (.invalidateDrive drive)).modify drive fun info =>
    { info with fakeChange := true }).call .processFdRequest = pretended
  have fake : (pretended.drives drive).fakeChange = true := by
    rw [← pretended_eq]
    simp [call, modify]
  have calls : pretended.calls = st.calls ++ [.invalidateDrive drive, .processFdRequest] := by
    rw [← pretended_eq]
    simp [call, modify]
  rcases floppyCheckEvents_of_fakeChange input fake with
    ⟨checked, made, told, stillFake, checkedCalls⟩
  have flushed : ((checked.call (.flushDisk drive)).drives drive).fakeChange = true := stillFake
  have revalidated := floppyRevalidate_of_fakeChange flushed
  have invalidated : st.invalidateDrive input drive =
      (checked.call (.flushDisk drive)).floppyRevalidate drive := by
    simp only [invalidateDrive, pretended_eq, checkDiskChange, told, if_true]
  rw [invalidated]
  refine ⟨⟨[.invalidateDrive drive, .processFdRequest] ++ made ++
    [.flushDisk drive, .processFdRequest], ?_, by simp, by simp⟩, revalidated.2⟩
  rw [revalidated.1]
  simp [call, checkedCalls, calls]

/-- What the decision of `set_geometry` comes to, in terms of the state before. -/
def NeedsInvalidation (st : GeometryState) (drive : Fin nDrive) (g : FloppyStruct) : Prop :=
  g.sect.toNat < uint32 (st.drives drive).maxblock.toInt ∨ (st.drives drive).maxtrack ≠ 0 ∨
    (g.sect ^^^ g.stretch) &&& (fdSwapsides ||| fdSectbasemask) ≠ 0

theorem needsInvalidation_storeGeometry (st : GeometryState) (input : GeometryInput)
    (drive : Fin nDrive) (g : FloppyStruct) :
    (st.storeGeometry input drive g).needsInvalidation drive g.stretch = true ↔
      NeedsInvalidation st drive g := by
  simp [needsInvalidation, storeGeometry, modify, NeedsInvalidation, or_assoc]

/-- Another side or another sector number belongs to the same place. -/
def Renumbered (old new : FloppyStruct) : Prop :=
  (old.stretch ^^^ new.stretch) &&& (fdSwapsides ||| fdSectbasemask) ≠ 0

instance (old new : FloppyStruct) : Decidable (Renumbered old new) :=
  inferInstanceAs (Decidable (_ ≠ _))

theorem setGeometry_of_accepted {input : GeometryInput} {g : FloppyStruct}
    (accepted : (st.setGeometry input drive g 0).1 = 0) :
    (st.setGeometry input drive g 0).2 =
      if (st.storeGeometry input drive g).needsInvalidation drive g.stretch = true then
        (st.storeGeometry input drive g).invalidateDrive input drive
      else (st.storeGeometry input drive g).call .processFdRequest := by
  revert accepted
  simp only [setGeometry, ne_eq, not_true, if_false]
  split_ifs <;> simp [einval, eintr]

/--
For every state of a drive and every geometry that `set_geometry` accepts for it: where
sides or sector numbers change against the geometry so far, the drive is invalidated, if
and only if in that case more sectors than the new track has or a second track have been
read before, or the new number of sectors differs from the new `stretch` in one of the bits
for sides and sector numbers.
-/
theorem setGeometry_invalidates_iff (st : GeometryState) (input : GeometryInput)
    (drive : Fin nDrive) (g : FloppyStruct)
    (accepted : (st.setGeometry input drive g 0).1 = 0) :
    (∀ old, st.geometry drive = some old → Renumbered old g →
        Invalidated st (st.setGeometry input drive g 0).2 drive) ↔
      ((∃ old, st.geometry drive = some old ∧ Renumbered old g) →
        NeedsInvalidation st drive g) := by
  have result := setGeometry_of_accepted accepted
  have decided := needsInvalidation_storeGeometry st input drive g
  have stored : (st.storeGeometry input drive g).calls = st.calls := rfl
  constructor
  · rintro invalidates ⟨old, previous, renumbered⟩
    rcases invalidates old previous renumbered with ⟨⟨made, calls, invalidated, -⟩, -⟩
    by_contra unnoticed
    rw [result, if_neg (fun noticed => unnoticed (decided.mp noticed))] at calls
    -- the only call is that of `process_fd_request`
    have only : made = [.processFdRequest] :=
      (List.append_cancel_left (calls.symm.trans (congrArg (· ++ _) stored)))
    rw [only] at invalidated
    simp at invalidated
  · intro noticed old previous renumbered
    rw [result, if_pos (decided.mpr (noticed ⟨old, previous, renumbered⟩))]
    rcases invalidated_invalidateDrive (st.storeGeometry input drive g) input drive with
      ⟨calls, buffer⟩
    rw [stored] at calls
    exact ⟨calls, buffer⟩

/-- A drive with one track of nine sectors read so far, under a geometry of the user. -/
def nineSectors (maxblock : BitVec 16) : GeometryState where
  drives _ :=
    { tracks := 80, fdDevice := 0, opened := true, diskChanged := false, verify := false
      maxblock := maxblock, maxtrack := 0, keepData := 1, fakeChange := false
      currentType := some .userParams
      userParams := entry 720 9 1 80 0 0x2a 0x02 0xdf 0x50 "user" }
  floppyType index := floppyTypes.get index
  floppySizes _ := 0
  bufferTrack := 0
  bufferDrive := 0
  bufferMax := 9
  calls := []

def plainInput : GeometryInput := ⟨false, true, false, false, false, false⟩

/-- The sides are swapped, and nine differs from two in the bit for that. -/
theorem setGeometry_invalidates_iff_swapped :
    Invalidated (nineSectors 2)
      ((nineSectors 2).setGeometry plainInput 0
        (entry 720 9 1 80 2 0x2a 0x02 0xdf 0x50 "new") 0).2 0 := by
  apply (setGeometry_invalidates_iff (nineSectors 2) plainInput 0
    (entry 720 9 1 80 2 0x2a 0x02 0xdf 0x50 "new") (by decide)).mpr _ _ rfl
  · decide
  · rintro -
    exact Or.inr (Or.inr (by decide))

/--
The first sector gets the number 3 instead of 1, `stretch` is 8 instead of 0. Nine and eight
do not differ in the bits that are compared, and nothing is dropped.
-/
theorem sectorBase_not_invalidated :
    ((nineSectors 2).setGeometry plainInput 0
        (entry 720 9 1 80 8 0x2a 0x02 0xdf 0x50 "new") 0).1 = 0 ∧
      (nineSectors 2).geometry 0 = some (entry 720 9 1 80 0 0x2a 0x02 0xdf 0x50 "user") ∧
      Renumbered (entry 720 9 1 80 0 0x2a 0x02 0xdf 0x50 "user")
        (entry 720 9 1 80 8 0x2a 0x02 0xdf 0x50 "new") ∧
      ¬Invalidated (nineSectors 2)
        ((nineSectors 2).setGeometry plainInput 0
          (entry 720 9 1 80 8 0x2a 0x02 0xdf 0x50 "new") 0).2 0 := by
  refine ⟨by decide, rfl, by decide, ?_⟩
  rintro ⟨⟨made, calls, invalidated, -⟩, -⟩
  have only : made = [.processFdRequest] := calls.symm
  rw [only] at invalidated
  exact absurd invalidated (by decide)

end GeometryState

end Gray386.Floppy
