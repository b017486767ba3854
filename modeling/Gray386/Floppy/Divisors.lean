import Gray386.Floppy.TrackLayout
import Mathlib.Tactic.IntervalCases

/-!
# Divisors from a geometry of the user

The position of a request is divided by the number of sectors of a cylinder, which is a
product of two numbers that a user may have set and is kept in an `int`. A track is formatted
with a number of sectors that is kept in a byte. Both may become zero although the numbers
themselves have been checked. Nothing else stops `make_raw_rw_request`.
-/

namespace Gray386.Floppy

open Gray386.Machine

/-- The size of the sectors is one that the controller has. -/
structure Layout.Proper (layout : Layout) : Prop where
  ssize : 0 < layout.ssize
  sizecode : layout.cmd.sizecode.toNat ≤ 7

section Ends

variable {floppy : FloppyStruct} {input : RwInput} {buffer : BufferState} {req : Request}
  {layout : Layout}

theorem LaidOut.proper {track head inSide fsectorT : Int}
    (laidOut : LaidOut floppy input req track head inSide fsectorT layout) : layout.Proper := by
  have code_le : sectorCode floppy track head ≤ 7 := sectorCode_le
  have shift_le : blockShift floppy track head inSide ≤ sectorCode floppy track head - 2 :=
    sectorShift_le
  refine ⟨?_, ?_⟩
  · rw [laidOut.size_eq]
    exact two_pow_pos _
  · rw [laidOut.code_eq]
    omega

theorem transferSize_eq {sects fsectorT ssize maxSector maxSize : Int} (sects_pos : 0 < sects)
    (ssize_pos : 0 < ssize) :
    transferSize sects fsectorT ssize maxSector maxSize =
      let limit := min maxSector (int32 (fsectorT + maxSize))
      .ok (int32 (limit - uint32 limit % sects % ssize)) := by
  simp only [transferSize, udiv_of_pos sects_pos, udiv_of_pos ssize_pos, ok_bind]
  rfl

theorem ends_transferSize {sects fsectorT ssize maxSector maxSize : Int} (sects_pos : 0 < sects)
    (ssize_pos : 0 < ssize) : Ends (transferSize sects fsectorT ssize maxSector maxSize) :=
  ⟨_, transferSize_eq sects_pos ssize_pos⟩

theorem ends_copyBuffer {sects ssize maxSector : Int} (sects_pos : 0 < sects)
    (ssize_pos : 0 < ssize) : Ends (copyBuffer sects buffer req layout ssize maxSector) :=
  ends_bind (ends_transferSize sects_pos ssize_pos) (fun _ _ => ends_ok _)

theorem Layout.Proper.readFirst (proper : layout.Proper) : (readFirst floppy layout).Proper :=
  ⟨proper.ssize, proper.sizecode⟩

theorem sectorBytes_bounds (proper : layout.Proper) :
    0 < (128 * 2 ^ (layout.cmd.sizecode.toNat % 32) : Int) ∧
      (128 * 2 ^ (layout.cmd.sizecode.toNat % 32) : Int) ≤ 16384 := by
  have le := proper.sizecode
  generalize layout.cmd.sizecode.toNat = code at le ⊢
  interval_cases code <;> norm_num

theorem ends_finish (proper : layout.Proper) (kernelData count : Int)
    (copies : List SegmentCopy) : Ends (finish buffer req layout kernelData count copies) := by
  have bounds := sectorBytes_bounds proper
  unfold finish
  apply ends_ite
  · exact fun _ => ends_ok _
  · intro _
    apply ends_bind
    · rw [int32_of_bounds (by omega) (by omega), idiv, if_neg (by omega), if_neg (by omega)]
      exact ends_ok _
    · exact fun _ _ => ends_ok _

theorem ends_throughBuffer (sects_pos : 0 < floppy.sects) (proper : layout.Proper)
    (maxSize : Int) : Ends (throughBuffer floppy input buffer req layout maxSize) := by
  unfold throughBuffer
  apply ends_ite
  · intro _
    apply ends_bind (ends_copyBuffer sects_pos proper.ssize)
    intro result _
    exact ends_bind (ends_finish proper _ _ _) (fun _ _ => ends_ok _)
  · intro _
    apply ends_bind (ends_transferSize sects_pos proper.ssize)
    intro maxSector _
    exact ends_bind (ends_finish proper _ _ _) (fun _ _ => ends_ok _)

theorem ends_direct (sects_pos : 0 < floppy.sects) (proper : layout.Proper) :
    Ends (direct floppy input buffer req layout) := by
  unfold direct
  apply ends_bind (ends_transferSize sects_pos proper.ssize)
  intro indirectEnd _
  apply ends_bind (ends_transferSize sects_pos proper.ssize)
  intro directEnd _
  apply ends_ite
  · exact fun _ => ends_throughBuffer sects_pos proper _
  · exact fun _ => ends_ite (fun _ => ends_ok _) (fun _ => ends_ok _)

theorem ends_transfer (sects_pos : 0 < floppy.sects) (proper : layout.Proper) :
    Ends (transfer floppy input buffer req layout) := by
  unfold transfer
  apply ends_ite
  · intro _
    apply ends_ite
    · exact fun _ => ends_bind (ends_copyBuffer sects_pos (by omega)) (fun _ _ => ends_ok _)
    · exact fun _ => ends_throughBuffer sects_pos proper _
  · intro _
    apply ends_ite
    · exact fun _ => ends_throughBuffer sects_pos proper.readFirst _
    · intro _
      exact ends_ite (fun _ => ends_direct sects_pos proper)
        (fun _ => ends_throughBuffer sects_pos proper _)

end Ends

theorem locate_bounds (floppy : FloppyStruct) (pos : Word) :
    Yields (fun place => (0 ≤ place.1 ∧ place.1 < 256) ∧ 0 ≤ place.2 ∧ place.2 < 256)
      (locate floppy pos) :=
  yields_bind fun _ _ => yields_ok
    ⟨⟨uchar_nonneg _, uchar_lt _⟩, uchar_nonneg _, uchar_lt _⟩

/-- Every block that a byte can number is laid out. -/
theorem exists_laidOut {floppy : FloppyStruct} (input : RwInput) (req : Request)
    (sects_pos : 0 < floppy.sects) {track head fsectorT : Int} (nonneg : 0 ≤ fsectorT)
    (lt : fsectorT < 256) :
    ∃ layout, layOut floppy input req track head (fsectorT % floppy.sects) fsectorT = .ok layout ∧
      LaidOut floppy input req track head (fsectorT % floppy.sects) fsectorT layout := by
  have whole := Int.emod_add_mul_ediv fsectorT floppy.sects
  have before := Int.mul_nonneg sects_pos.le (Int.ediv_nonneg nonneg sects_pos.le)
  apply layOut_spec
  · exact Int.emod_nonneg fsectorT sects_pos.ne'
  · omega
  · exact Int.emod_lt_of_pos fsectorT sects_pos

/-- Once the track is known, nothing stops the function. -/
theorem ends_makeRawRwRequest {floppy : FloppyStruct} {input : RwInput} {buffer : BufferState}
    {req : Request} (sects_pos : 0 < floppy.sects) (located : Ends (locate floppy req.pos)) :
    Ends (req.makeRawRwRequest floppy input buffer) := by
  unfold Request.makeRawRwRequest
  apply ends_ite
  · exact fun _ => ends_ok _
  · intro _
    apply ends_bind located
    rintro ⟨track, fsectorT⟩ place
    apply ends_ite
    · exact fun _ => ends_ite (fun _ => ends_ok _) (fun _ => ends_ok _)
    · intro _
      rw [udiv_of_pos sects_pos, ok_bind]
      apply ends_ite
      · exact fun _ => ends_ok _
      · intro _
        rcases locate_bounds floppy req.pos _ place with ⟨-, nonneg, lt⟩
        rcases exists_laidOut input req sects_pos nonneg lt with ⟨layout, run, laidOut⟩
        rw [run, ok_bind]
        exact ends_transfer sects_pos laidOut.proper

/-- Neither formatting nor a request divides by zero. -/
def NoZeroDivisor (floppy : FloppyStruct) : Prop :=
  (∀ tracks descr currentDrive rawCmd trackBuffer memory,
      doFormat true (some floppy) tracks descr = .ok floppy →
        descr.redoFormat floppy currentDrive rawCmd trackBuffer memory ≠ .error .divideByZero) ∧
    ∀ (input : RwInput) (buffer : BufferState) (req : Request),
      req.makeRawRwRequest floppy input buffer ≠ .error .divideByZero

section Divisors

variable {floppy : FloppyStruct}

theorem toNat_formatSectors (floppy : FloppyStruct) :
    floppy.formatSectors.toNat =
      floppy.sect.toNat * 4 % 2 ^ 32 / 2 ^ floppy.sizecode % 256 := by
  simp [FloppyStruct.formatSectors, Nat.shiftLeft_eq, Nat.shiftRight_eq_div_pow]

theorem redoFormat_divides_iff (descr : FormatDescr) (currentDrive : Word)
    (rawCmd : FloppyRawCmd) (trackBuffer : Word) (memory : List Fparm) :
    descr.redoFormat floppy currentDrive rawCmd trackBuffer memory = .error .divideByZero ↔
      floppy.formatSectors.toNat = 0 := by
  by_cases zero : floppy.formatSectors.toNat = 0
  · refine iff_of_true ?_ zero
    simp only [FormatDescr.redoFormat, setupFormatParams, startSlot, zero, udiv]
    rfl
  · simp only [FormatDescr.redoFormat, setupFormatParams, startSlot, udiv_of_pos
      (by omega : (0 : Int) < floppy.formatSectors.toNat)]
    exact iff_of_false (fun stopped => nomatch stopped) zero

/-- `do_format` for a geometry that `set_geometry` has accepted. -/
theorem doFormat_ok_iff {tracks : Byte} {descr : FormatDescr} :
    doFormat true (some floppy) tracks descr = .ok floppy ↔
      floppy.track.toNat ≤ tracks.toNat ∧ descr.track.toNat < floppy.track.toNat ∧
        descr.head.toNat < floppy.head.toNat ∧
        floppy.sect.toNat * 4 % 2 ^ 32 % 2 ^ floppy.sizecode = 0 ∧ floppy.fmtGap ≠ 0 := by
  simp [doFormat, Nat.shiftLeft_eq, and_assoc]

theorem maxSector_eq_zero_iff :
    floppy.maxSector = 0 ↔ floppy.sect.toNat * floppy.head.toNat % 2 ^ 32 = 0 := by
  simp only [FloppyStruct.maxSector, FloppyStruct.sects, int32, uint32]
  split_ifs <;> omega

theorem locate_error {pos : Word} {stop : Stop} (stopped : locate floppy pos = .error stop) :
    stop = .divideByZero ∧ floppy.maxSector = 0 ∨
      stop = .divideOverflow ∧ floppy.maxSector = -1 := by
  unfold locate idiv at stopped
  split_ifs at stopped with zero overflow
  · left
    exact ⟨(Except.error.inj stopped).symm, zero⟩
  · right
    exact ⟨(Except.error.inj stopped).symm, overflow.2⟩
  · exact nomatch stopped

theorem locate_of_zero (zero : floppy.maxSector = 0) (pos : Word) :
    locate floppy pos = .error .divideByZero := by
  rw [locate, idiv, if_pos zero]
  rfl

theorem makeRawRwRequest_of_error {input : RwInput} {buffer : BufferState} {req : Request}
    {stop : Stop} (stopped : locate floppy req.pos = .error stop)
    (opened : buffer.maxBufferSectors ≠ 0) :
    req.makeRawRwRequest floppy input buffer = .error stop := by
  rw [Request.makeRawRwRequest, if_neg opened, stopped]
  rfl

/-- The product is the only divisor of a request that may be zero. -/
theorem makeRawRwRequest_divides (sects_pos : 0 < floppy.sects) (input : RwInput)
    (buffer : BufferState) (req : Request)
    (stopped : req.makeRawRwRequest floppy input buffer = .error .divideByZero) :
    floppy.maxSector = 0 := by
  by_cases opened : buffer.maxBufferSectors = 0
  · rw [Request.makeRawRwRequest, if_pos opened] at stopped
    exact nomatch stopped
  · cases located : locate floppy req.pos with
    | ok place =>
        rcases ends_makeRawRwRequest sects_pos ⟨place, located⟩ with ⟨result, ends⟩
        rw [ends] at stopped
        exact nomatch stopped
    | error stop =>
        rw [makeRawRwRequest_of_error located opened] at stopped
        rcases locate_error located with ⟨-, zero⟩ | ⟨overflow, -⟩
        · exact zero
        · rw [overflow] at stopped
          exact nomatch stopped

theorem toNat_pos_of_ne_zero {word : Word} (nonzero : word ≠ 0) : 0 < word.toNat :=
  Nat.pos_of_ne_zero fun zero => nonzero (BitVec.eq_of_toNat_eq zero)

theorem sane_spec {tracks : Byte} (sane : floppy.sane tracks = true) :
    0 < floppy.sect.toNat ∧ 0 < floppy.head.toNat ∧ 0 < floppy.track.toNat ∧
      floppy.track.toNat ≤ tracks.toNat := by
  simp only [FloppyStruct.sane, Bool.and_eq_true, decide_eq_true_eq] at sane
  rcases sane with ⟨⟨⟨⟨sect, head⟩, track⟩, tracks_le⟩, -⟩
  refine ⟨toNat_pos_of_ne_zero sect, toNat_pos_of_ne_zero head, toNat_pos_of_ne_zero track, ?_⟩
  calc
    floppy.track.toNat ≤ tracks.toNat >>> floppy.stretchShift := tracks_le
    _ ≤ tracks.toNat := by
        rw [Nat.shiftRight_eq_div_pow]
        exact Nat.div_le_self _ _

/-- An opened drive with no sector in the track buffer, and a request for one sector. -/
def openedBuffer : BufferState := ⟨0xc0100000, 16, -1, -1, -1, -1⟩

def plainRwInput : RwInput := ⟨0, false, false, 0, 0, false, false⟩

def sectorRequest (pos : Word) : Request :=
  ⟨pos, false, 512, 0xc0200000, [⟨0xc0200000, 512⟩]⟩

/--
For a geometry that `set_geometry` has accepted, no divisor is zero if and only if the
product is not a multiple of the number of values of an `int`, and the number of sectors to
be formatted not one of those of a byte.
-/
theorem noZeroDivisor_iff (tracks : Byte) (accepted : floppy.sane tracks = true) :
    NoZeroDivisor floppy ↔
      floppy.sect.toNat * floppy.head.toNat % 2 ^ 32 ≠ 0 ∧
        (floppy.fmtGap = 0 ∨
          floppy.sect.toNat * 4 % 2 ^ 32 % 2 ^ floppy.sizecode ≠ 0 ∨
          floppy.sect.toNat * 4 % 2 ^ 32 / 2 ^ floppy.sizecode % 256 ≠ 0) := by
  rcases sane_spec accepted with ⟨sect_pos, head_pos, track_pos, track_le⟩
  have sects_pos : 0 < floppy.sects := Int.natCast_pos.mpr sect_pos
  constructor
  · rintro ⟨formats, requests⟩
    constructor
    · intro zero
      have zero := maxSector_eq_zero_iff.mpr zero
      exact requests plainRwInput openedBuffer (sectorRequest 0)
        (makeRawRwRequest_of_error (locate_of_zero zero _) (by decide))
    · by_contra divides
      push Not at divides
      rcases divides with ⟨gap, whole, zero⟩
      rw [← toNat_formatSectors] at zero
      have first : doFormat true (some floppy) tracks ⟨0, 0, 0⟩ = .ok floppy := by
        rw [doFormat_ok_iff]
        exact ⟨track_le, track_pos, head_pos, whole, gap⟩
      exact formats tracks ⟨0, 0, 0⟩ 0 (.ofBytes fun _ => 0) 0 [] first
        ((redoFormat_divides_iff _ _ _ _ _).mpr zero)
  · rintro ⟨product, sectors⟩
    constructor
    · intro tracks descr currentDrive rawCmd trackBuffer memory formatted divides
      rw [redoFormat_divides_iff, toNat_formatSectors] at divides
      rcases doFormat_ok_iff.mp formatted with ⟨-, -, -, whole, gap⟩
      rcases sectors with none | fraction | nonzero
      · exact gap none
      · exact fraction whole
      · exact nonzero divides
    · intro input buffer req divides
      exact product (maxSector_eq_zero_iff.mp (makeRawRwRequest_divides sects_pos _ _ _ divides))

/-- The usual disk with 18 sectors. -/
theorem noZeroDivisor_iff_h1440 : NoZeroDivisor (floppyTypes.get 7) :=
  (noZeroDivisor_iff 83 (by decide)).mpr (by decide)

/--
65536 sectors on each of 65536 sides make a product of zero. 64 sectors of 512 bytes are
formatted as 256 of 128 bytes, of which none is left in a byte.
-/
theorem accepted_geometry_divides :
    let cylinder := entry 0 65536 65536 80 0 0x1b 0x00 0xcf 0x6c "user"
    let track := entry 0 64 2 80 0 0x1b 0x30 0xcf 0x6c "user"
    (cylinder.sane 80 = true ∧
        (sectorRequest 0).makeRawRwRequest cylinder plainRwInput openedBuffer =
          .error .divideByZero) ∧
      track.sane 80 = true ∧ doFormat true (some track) 80 ⟨0, 0, 0⟩ = .ok track ∧
      FormatDescr.redoFormat ⟨0, 0, 0⟩ track 0 (.ofBytes fun _ => 0) 0xc0100000 [] =
        .error .divideByZero := by
  intro cylinder track
  have zero : cylinder.maxSector = 0 := by decide
  exact ⟨⟨by decide, makeRawRwRequest_of_error (locate_of_zero zero _) (by decide)⟩, by decide,
    doFormat_ok_iff.mpr (by decide), (redoFormat_divides_iff _ _ _ _ _).mpr (by decide)⟩

end Divisors

end Gray386.Floppy
