import Gray386.Floppy.SetGeometry

/-!
# Which entries of the format table are used

The type of a disk may be given by the device through which it is opened. If it is not, the
driver tries the formats that the parameters of the drive list in `autodetect`, one after
another, and remembers in `probed_format` where it is. The name of a drive is that of its
`native_format`. All of these are indices into `floppy_type`, and nothing looks at them
before they are used: `FDSETDRVPRM` stores the parameters as they come.

A step of the driver is one event here, and every access to `floppy_type` or `autodetect`
with its index is recorded.
-/

namespace Gray386.Floppy

open Gray386.Machine

/-- The members of `struct floppy_drive_params` that have to do with formats. -/
structure DriveFormats where
  autodetect : Vector (BitVec 16) 8
  nativeFormat : Word
  deriving DecidableEq, Repr

/-- These members in `default_drive_params`. -/
def defaultDriveFormats : Vector DriveFormats 7 := #v[
  ⟨#v[7, 4, 8, 2, 1, 5, 3, 10], 0⟩,
  ⟨#v[1, 0, 0, 0, 0, 0, 0, 0], 1⟩,
  ⟨#v[2, 5, 6, 23, 10, 20, 12, 0], 2⟩,
  ⟨#v[4, 22, 21, 30, 3, 0, 0, 0], 4⟩,
  ⟨#v[7, 4, 25, 22, 31, 21, 29, 11], 7⟩,
  ⟨#v[7, 8, 4, 25, 28, 22, 31, 21], 8⟩,
  ⟨#v[7, 8, 4, 25, 28, 22, 31, 21], 8⟩]

/-- An access to one of the two tables. -/
inductive Lookup where
  | floppyType (index : Int)
  | autodetect (index : Int)
  deriving DecidableEq, Repr

/-- The index is one of the table. -/
def Lookup.InRange : Lookup → Prop
  | .floppyType index => 0 ≤ index ∧ index < 32
  | .autodetect index => 0 ≤ index ∧ index < 8

instance (lookup : Lookup) : Decidable lookup.InRange := by
  cases lookup <;> exact inferInstanceAs (Decidable (_ ∧ _))

structure FormatState where
  params : Fin nDrive → DriveFormats
  /-- `probed_format` of each drive. -/
  probedFormat : Fin nDrive → BitVec 16
  fdDevice : Fin nDrive → Word
  floppyType : Fin 32 → FloppyStruct
  probing : Bool
  currentDrive : Fin nDrive

/-- What is found where a table has no entry. -/
structure Elsewhere where
  sect : Int → Word
  autodetect : Int → BitVec 16

namespace FormatState

variable (st : FormatState) (elsewhere : Elsewhere)

/-- `floppy_type[index].sect`. -/
def sectAt (index : Int) : Word :=
  if range : 0 ≤ index ∧ index < 32 then (st.floppyType ⟨index.toNat, by omega⟩).sect
  else elsewhere.sect index

/-- `DP->autodetect[index]`. -/
def autodetectAt (index : Int) : Int :=
  if range : 0 ≤ index ∧ index < 8 then
    ((st.params st.currentDrive).autodetect.get ⟨index.toNat, by omega⟩).toInt
  else (elsewhere.autodetect index).toInt

/--
The loop in `next_valid_format`, with so many indices left up to 8: what it returns, the
`probed_format` that it leaves and the accesses.
-/
def tryFormats : Nat → Bool × Int × List Lookup
  | 0 => (true, 0, [])
  | left + 1 =>
      let probed : Int := 8 - (left + 1)
      let format := st.autodetectAt elsewhere probed
      if format = 0 then (true, 0, [.autodetect probed])
      else if st.sectAt elsewhere format ≠ 0 then
        (false, probed, [.autodetect probed, .floppyType format])
      else
        let (ret, left, lookups) := tryFormats left
        (ret, left, .autodetect probed :: .floppyType format :: lookups)

def withProbedFormat (probed : Int) : FormatState :=
  { st with probedFormat := Function.update st.probedFormat st.currentDrive (.ofInt 16 probed) }

/-- `next_valid_format`: whether there is no valid format left. -/
def nextValidFormat : Bool × FormatState × List Lookup :=
  let probed := (st.probedFormat st.currentDrive).toInt
  let (ret, probed, lookups) := st.tryFormats elsewhere (8 - probed).toNat
  (ret, st.withProbedFormat probed, lookups)

/-- `bad_flp_intr`, as far as formats are concerned. -/
def badFlpIntr : FormatState × List Lookup :=
  if st.probing then
    let st := st.withProbedFormat ((st.probedFormat st.currentDrive).toInt + 1)
    (st.nextValidFormat elsewhere).2
  else (st, [])

/-- `set_floppy`: whether a type is known, and the access. -/
def setFloppy (drive : Fin nDrive) (currentType : Bool) : Bool × List Lookup :=
  let type := (itype (st.fdDevice drive)).val
  if type ≠ 0 then (true, [.floppyType type]) else (currentType, [])

/-- The first format of a probe, unless one is going on already. -/
def firstFormat : Bool × FormatState × List Lookup :=
  if st.probing then (false, st, []) else (st.withProbedFormat 0).nextValidFormat elsewhere

/-- The branch of `redo_fd_request` for a disk of unknown type. -/
def autodetection : FormatState × List Lookup :=
  let (exhausted, st, lookups) := st.firstFormat elsewhere
  if exhausted then ({ st with probing := false }, lookups)
  else
    let probed := (st.probedFormat st.currentDrive).toInt
    ({ st with probing := true },
      lookups ++ [.autodetect probed, .floppyType (st.autodetectAt elsewhere probed)])

/-- `redo_fd_request`, for a request to a drive whose disk spins and is the same. -/
def redoFdRequest (drive : Fin nDrive) (currentType : Bool) : FormatState × List Lookup :=
  let st := { st with currentDrive := drive }
  let (known, typeLookups) := st.setFloppy drive currentType
  if known then ({ st with probing := false }, typeLookups)
  else
    let (st, lookups) := st.autodetection elsewhere
    (st, typeLookups ++ lookups)

/-- `drive_name`. -/
def driveName (drive : Fin nDrive) : List Lookup :=
  let type := (itype (st.fdDevice drive)).val
  if type ≠ 0 then [.floppyType type]
  else
    let native := (st.params drive).nativeFormat.toInt
    if native ≠ 0 then [.floppyType native] else []

end FormatState

/-- What can happen to a driver that is set up. -/
inductive FormatEvent where
  | floppyOpen (drive : Fin nDrive) (device : Word)
  | fdsetdrvprm (drive : Fin nDrive) (params : DriveFormats)
  | fdgetdrvtyp (drive : Fin nDrive)
  /-- `FDSETPRM` or `FDDEFPRM`, through a device for a fixed type. -/
  | fdsetprm (type : Fin 32) (g : FloppyStruct)
  /-- Any other ioctl. It may select another drive. -/
  | otherIoctl (drive : Fin nDrive)
  /-- A request to a drive, and whether `current_type` is not null. -/
  | redoFdRequest (drive : Fin nDrive) (currentType : Bool)
  | badFlpIntr
  /-- `request_done`, and `rw_interrupt` after a successful transfer. -/
  | probingEnds

namespace FormatState

def step (elsewhere : Elsewhere) (st : FormatState) : FormatEvent → FormatState × List Lookup
  | .floppyOpen drive device =>
      ({ st with fdDevice := Function.update st.fdDevice drive device }, [])
  | .fdsetdrvprm drive params =>
      ({ st with params := Function.update st.params drive params }, [])
  | .fdgetdrvtyp drive => (st, st.driveName drive)
  | .fdsetprm type g => ({ st with floppyType := Function.update st.floppyType type g }, [])
  | .otherIoctl drive => ({ st with currentDrive := drive }, [])
  | .redoFdRequest drive currentType => st.redoFdRequest elsewhere drive currentType
  | .badFlpIntr => st.badFlpIntr elsewhere
  | .probingEnds => ({ st with probing := false }, [])

/-- A run and the accesses in it. -/
def run (elsewhere : Elsewhere) : FormatState → List FormatEvent → FormatState × List Lookup
  | st, [] => (st, [])
  | st, event :: rest =>
      let (st, lookups) := st.step elsewhere event
      let (st, later) := run elsewhere st rest
      (st, lookups ++ later)

/-- After `do_floppy_init`, whatever the types of the drives are. -/
def booted (types : Fin nDrive → Fin 7) : FormatState where
  params drive := defaultDriveFormats.get (types drive)
  probedFormat _ := 0
  fdDevice _ := -1
  floppyType index := floppyTypes.get index
  probing := false
  currentDrive := 0

end FormatState

/-- All formats that the parameters name are entries of the table. -/
structure DriveFormats.Valid (formats : DriveFormats) : Prop where
  autodetect : ∀ index : Fin 8,
    0 ≤ (formats.autodetect.get index).toInt ∧ (formats.autodetect.get index).toInt < 32
  nativeFormat : 0 ≤ formats.nativeFormat.toInt ∧ formats.nativeFormat.toInt < 32

theorem valid_defaultDriveFormats (type : Fin 7) : (defaultDriveFormats.get type).Valid := by
  have autodetect : ∀ (type : Fin 7) (index : Fin 8),
      0 ≤ ((defaultDriveFormats.get type).autodetect.get index).toInt ∧
        ((defaultDriveFormats.get type).autodetect.get index).toInt < 32 := by decide
  have nativeFormat : ∀ type : Fin 7, 0 ≤ (defaultDriveFormats.get type).nativeFormat.toInt ∧
      (defaultDriveFormats.get type).nativeFormat.toInt < 32 := by decide
  exact ⟨autodetect type, nativeFormat type⟩

/-- `FDSETDRVPRM` comes with formats of the table. -/
def FormatEvent.Valid : FormatEvent → Prop
  | .fdsetdrvprm _ params => params.Valid
  | _ => True

namespace FormatState

/-- A position in `autodetect`. -/
def Position (probed : BitVec 16) : Prop :=
  0 ≤ probed.toInt ∧ probed.toInt < 8

structure Sound (st : FormatState) : Prop where
  params : ∀ drive, (st.params drive).Valid
  probed : ∀ drive, Position (st.probedFormat drive)

variable {st : FormatState} (elsewhere : Elsewhere)

theorem autodetectAt_inRange (params : ∀ drive, (st.params drive).Valid) {index : Int}
    (lower : 0 ≤ index) (upper : index < 8) :
    0 ≤ st.autodetectAt elsewhere index ∧ st.autodetectAt elsewhere index < 32 := by
  rw [autodetectAt, dif_pos ⟨lower, upper⟩]
  exact (params st.currentDrive).autodetect _

/-- The indices left are in the table, and so are the formats there. -/
theorem tryFormats_inRange (params : ∀ drive, (st.params drive).Valid) {left : Nat}
    (left_le : left ≤ 8) :
    (0 ≤ (st.tryFormats elsewhere left).2.1 ∧ (st.tryFormats elsewhere left).2.1 < 8) ∧
      ∀ lookup ∈ (st.tryFormats elsewhere left).2.2, lookup.InRange := by
  induction left with
  | zero => simp [tryFormats]
  | succ left ih =>
      have lower : (0 : Int) ≤ 8 - (left + 1) := by omega
      have upper : (8 : Int) - (left + 1) < 8 := by omega
      have position : (Lookup.autodetect (8 - (left + 1))).InRange := ⟨lower, upper⟩
      have format : (Lookup.floppyType
          (st.autodetectAt elsewhere (8 - (left + 1)))).InRange :=
        autodetectAt_inRange elsewhere params lower upper
      rcases ih (by omega) with ⟨later, laterLookups⟩
      simp only [tryFormats]
      split_ifs with unset present
      · exact ⟨by simp, by simpa using position⟩
      · exact ⟨⟨lower, upper⟩, by simpa using ⟨position, format⟩⟩
      · refine ⟨later, ?_⟩
        simp only [List.mem_cons, forall_eq_or_imp]
        exact ⟨position, format, laterLookups⟩

theorem position_ofInt {probed : Int} (lower : 0 ≤ probed) (upper : probed < 8) :
    Position (.ofInt 16 probed) := by
  rw [Position, BitVec.toInt_ofInt, Int.bmod_eq_of_le (by simp; omega) (by simp; omega)]
  exact ⟨lower, upper⟩

/-- A new position for the current drive leaves those of the others as they are. -/
theorem sound_withProbedFormat (params : ∀ drive, (st.params drive).Valid)
    (others : ∀ drive ≠ st.currentDrive, Position (st.probedFormat drive)) {probed : Int}
    (lower : 0 ≤ probed) (upper : probed < 8) : (st.withProbedFormat probed).Sound := by
  refine ⟨params, ?_⟩
  intro drive
  by_cases current : drive = st.currentDrive
  · subst current
    simpa [withProbedFormat] using position_ofInt lower upper
  · simpa [withProbedFormat, current] using others drive current

/-- `probed_format` may be one too high when `next_valid_format` is called. -/
theorem nextValidFormat_sound (params : ∀ drive, (st.params drive).Valid)
    (others : ∀ drive ≠ st.currentDrive, Position (st.probedFormat drive))
    (nonneg : 0 ≤ (st.probedFormat st.currentDrive).toInt) :
    (st.nextValidFormat elsewhere).2.1.Sound ∧
      ∀ lookup ∈ (st.nextValidFormat elsewhere).2.2, lookup.InRange := by
  have left_le : (8 - (st.probedFormat st.currentDrive).toInt).toNat ≤ 8 := by omega
  rcases tryFormats_inRange elsewhere params left_le with ⟨⟨lower, upper⟩, lookups⟩
  exact ⟨sound_withProbedFormat params others lower upper, lookups⟩

theorem badFlpIntr_sound (sound : st.Sound) :
    (st.badFlpIntr elsewhere).1.Sound ∧
      ∀ lookup ∈ (st.badFlpIntr elsewhere).2, lookup.InRange := by
  unfold badFlpIntr
  split_ifs with probing
  · rcases sound.probed st.currentDrive with ⟨lower, upper⟩
    apply nextValidFormat_sound elsewhere
    · exact sound.params
    · intro drive other
      simpa [withProbedFormat, show drive ≠ st.currentDrive from other]
        using sound.probed drive
    · have bmod : (BitVec.ofInt 16 ((st.probedFormat st.currentDrive).toInt + 1)).toInt =
          (st.probedFormat st.currentDrive).toInt + 1 := by
        rw [BitVec.toInt_ofInt, Int.bmod_eq_of_le (by simp; omega) (by simp; omega)]
      simp only [withProbedFormat, Function.update_self, bmod]
      omega
  · exact ⟨sound, by simp⟩

theorem inRange_floppyType (type : Fin 32) : (Lookup.floppyType type).InRange := by
  simp only [Lookup.InRange]
  omega

theorem setFloppy_inRange (st : FormatState) (drive : Fin nDrive) (currentType : Bool) :
    ∀ lookup ∈ (st.setFloppy drive currentType).2, lookup.InRange := by
  simp only [setFloppy]
  split_ifs with typed
  · simpa using inRange_floppyType (itype (st.fdDevice drive))
  · simp

theorem driveName_inRange (params : ∀ drive, (st.params drive).Valid) (drive : Fin nDrive) :
    ∀ lookup ∈ st.driveName drive, lookup.InRange := by
  simp only [driveName]
  split_ifs with typed native
  · simpa using inRange_floppyType (itype (st.fdDevice drive))
  · simpa [Lookup.InRange] using (params drive).nativeFormat
  · simp

theorem firstFormat_sound (sound : st.Sound) :
    (st.firstFormat elsewhere).2.1.Sound ∧
      ∀ lookup ∈ (st.firstFormat elsewhere).2.2, lookup.InRange := by
  unfold firstFormat
  split_ifs with probing
  · exact ⟨sound, by simp⟩
  · have first : (st.withProbedFormat 0).Sound :=
      sound_withProbedFormat sound.params (fun drive _ => sound.probed drive) (by omega) (by omega)
    exact nextValidFormat_sound elsewhere first.params (fun drive _ => first.probed drive)
      (first.probed _).1

theorem autodetection_sound (sound : st.Sound) :
    (st.autodetection elsewhere).1.Sound ∧
      ∀ lookup ∈ (st.autodetection elsewhere).2, lookup.InRange := by
  rcases firstFormat_sound elsewhere sound with ⟨first, lookups⟩
  simp only [autodetection]
  split_ifs with exhausted
  · exact ⟨⟨first.params, first.probed⟩, lookups⟩
  · refine ⟨⟨first.params, first.probed⟩, ?_⟩
    rcases first.probed (st.firstFormat elsewhere).2.1.currentDrive with ⟨lower, upper⟩
    intro lookup mem
    simp only [List.mem_append, List.mem_cons, List.not_mem_nil, or_false] at mem
    rcases mem with earlier | rfl | rfl
    · exact lookups lookup earlier
    · exact ⟨lower, upper⟩
    · exact autodetectAt_inRange elsewhere first.params lower upper

theorem redoFdRequest_sound (sound : st.Sound) (drive : Fin nDrive) (currentType : Bool) :
    (st.redoFdRequest elsewhere drive currentType).1.Sound ∧
      ∀ lookup ∈ (st.redoFdRequest elsewhere drive currentType).2, lookup.InRange := by
  have typeLookups := ({ st with currentDrive := drive } : FormatState).setFloppy_inRange
    drive currentType
  have selected : ({ st with currentDrive := drive } : FormatState).Sound :=
    ⟨sound.params, sound.probed⟩
  rcases autodetection_sound elsewhere selected with ⟨probed, lookups⟩
  simp only [redoFdRequest]
  split_ifs with known
  · exact ⟨⟨sound.params, sound.probed⟩, typeLookups⟩
  · refine ⟨probed, ?_⟩
    intro lookup mem
    rcases List.mem_append.mp mem with type | format
    · exact typeLookups lookup type
    · exact lookups lookup format

/-- No event makes a format or a position invalid that was not, apart from `FDSETDRVPRM`. -/
theorem step_sound (sound : st.Sound) {event : FormatEvent} (valid : event.Valid) :
    (st.step elsewhere event).1.Sound ∧
      ∀ lookup ∈ (st.step elsewhere event).2, lookup.InRange := by
  cases event with
  | floppyOpen drive device => exact ⟨⟨sound.params, sound.probed⟩, by simp [step]⟩
  | fdsetdrvprm drive params =>
      refine ⟨⟨?_, sound.probed⟩, by simp [step]⟩
      intro other
      by_cases same : other = drive
      · subst same
        simpa [step, FormatEvent.Valid] using valid
      · simpa [step, same] using sound.params other
  | fdgetdrvtyp drive => exact ⟨sound, driveName_inRange sound.params drive⟩
  | fdsetprm type g => exact ⟨⟨sound.params, sound.probed⟩, by simp [step]⟩
  | otherIoctl drive => exact ⟨⟨sound.params, sound.probed⟩, by simp [step]⟩
  | redoFdRequest drive currentType => exact redoFdRequest_sound elsewhere sound drive currentType
  | badFlpIntr => exact badFlpIntr_sound elsewhere sound
  | probingEnds => exact ⟨⟨sound.params, sound.probed⟩, by simp [step]⟩

theorem run_sound (sound : st.Sound) {events : List FormatEvent}
    (valid : ∀ event ∈ events, event.Valid) :
    (st.run elsewhere events).1.Sound ∧
      ∀ lookup ∈ (st.run elsewhere events).2, lookup.InRange := by
  induction events generalizing st with
  | nil => exact ⟨sound, by simp [run]⟩
  | cons event rest ih =>
      rcases step_sound elsewhere sound (valid event (by simp)) with ⟨stepSound, stepLookups⟩
      rcases ih stepSound (fun later mem => valid later (by simp [mem])) with
        ⟨restSound, restLookups⟩
      refine ⟨restSound, ?_⟩
      intro lookup mem
      rcases List.mem_append.mp mem with here | later
      · exact stepLookups lookup here
      · exact restLookups lookup later

theorem sound_booted (types : Fin nDrive → Fin 7) : (booted types).Sound :=
  ⟨fun drive => valid_defaultDriveFormats (types drive), fun _ => by simp [booted, Position]⟩

/--
As long as `FDSETDRVPRM` is only given formats of the table, every access after booting is to
an entry that exists.
-/
theorem run_lookups_inRange (types : Fin nDrive → Fin 7) (elsewhere : Elsewhere)
    (events : List FormatEvent) (valid : ∀ event ∈ events, event.Valid) :
    ∀ lookup ∈ ((booted types).run elsewhere events).2, lookup.InRange :=
  (run_sound elsewhere (sound_booted types) valid).2

/-- Memory around the tables that is all zero. -/
def zeroElsewhere : Elsewhere := ⟨fun _ => 0, fun _ => 0⟩

/-- A 1.44M drive whose parameters become those of a 2.88M drive is probed twice. -/
theorem run_lookups_inRange_probes :
    let events := [.fdsetdrvprm 0 (defaultDriveFormats.get 5), .floppyOpen 0 0,
      .redoFdRequest 0 false, .badFlpIntr, .redoFdRequest 0 false]
    ((booted fun _ => 4).run zeroElsewhere events).2 =
        [.autodetect 0, .floppyType 7, .autodetect 0, .floppyType 7, .autodetect 1,
          .floppyType 8, .autodetect 1, .floppyType 8] ∧
      ∀ lookup ∈ ((booted fun _ => 4).run zeroElsewhere events).2, lookup.InRange := by
  refine ⟨by decide, run_lookups_inRange _ _ _ ?_⟩
  simp [FormatEvent.Valid, valid_defaultDriveFormats]

/-- Stored by `FDSETDRVPRM`, format 1000 is used to find the name of the drive. -/
theorem native_format_beyond_table :
    ((booted fun _ => 4).run zeroElsewhere
        [.floppyOpen 0 0, .fdsetdrvprm 0 { defaultDriveFormats.get 4 with nativeFormat := 1000 },
          .fdgetdrvtyp 0]).2 = [.floppyType 1000] ∧
      ¬(Lookup.floppyType 1000).InRange := by
  decide

end FormatState

end Gray386.Floppy
