import Gray386.Floppy.Divisors
import Mathlib.Tactic.LinearCombination

/-!
# Which sector of the disk a request goes to

The controller is given a track and a side, and the sector in the cylinder decides about the
rest. The quotient and the remainder of the position are computed with an `int` for the
number of sectors of a cylinder and are kept in a byte each. So the place is not always the
one that is meant.
-/

namespace Gray386.Floppy

open Gray386.Machine

/-- What is set when a request goes on to transfer data. -/
def RwOutcome.layout? : RwOutcome → Option Layout
  | .refused | .skipped _ => none
  | .copied layout _ | .programmed layout _ _ _ _ => some layout

/-- The place that the function has found is not changed any more. -/
structure SamePlace (before after : Layout) : Prop where
  fsectorT : after.fsectorT = before.fsectorT
  track : after.cmd.track = before.cmd.track
  head : after.cmd.head = before.cmd.head

section Place

variable {floppy : FloppyStruct} {input : RwInput} {buffer : BufferState} {req : Request}
  {layout : Layout}

theorem samePlace_workaround (length : Int) :
    SamePlace layout { layout with cmd := virtualdmabugWorkaround layout.cmd length } := by
  simp only [virtualdmabugWorkaround]
  split_ifs <;> exact ⟨rfl, rfl, rfl⟩

theorem samePlace_accept (kernelData length count : Int) (copies : List SegmentCopy)
    (fraction : Int) :
    ∀ after ∈ (accept buffer req layout kernelData length count copies fraction).layout?,
      SamePlace layout after := by
  unfold accept
  split_ifs <;> simp only [RwOutcome.layout?, Option.mem_def, reduceCtorEq, false_implies,
    implies_true, Option.some.injEq, forall_eq']
  exact samePlace_workaround length

theorem samePlace_finish (kernelData count : Int) (copies : List SegmentCopy) :
    Yields (fun outcome => ∀ after ∈ outcome.layout?, SamePlace layout after)
      (finish buffer req layout kernelData count copies) := by
  unfold finish
  apply yields_ite
  · exact fun _ => yields_ok (by simp [RwOutcome.layout?])
  · intro _
    apply yields_bind
    rintro ⟨-, fraction⟩ -
    exact yields_ok (samePlace_accept _ _ _ _ _)

theorem samePlace_throughBuffer (maxSize : Int) :
    Yields (fun result => ∀ after ∈ result.1.layout?, SamePlace layout after)
      (throughBuffer floppy input buffer req layout maxSize) := by
  unfold throughBuffer
  apply yields_ite
  · intro _
    apply yields_bind
    intro result _
    apply yields_bind
    intro outcome finished
    exact yields_ok (samePlace_finish _ _ _ _ finished)
  · intro _
    apply yields_bind
    intro maxSector _
    apply yields_bind
    intro outcome finished
    exact yields_ok (samePlace_finish _ _ _ _ finished)

theorem samePlace_direct :
    Yields (fun result => ∀ after ∈ result.1.layout?, SamePlace layout after)
      (direct floppy input buffer req layout) := by
  unfold direct
  apply yields_bind
  intro indirectEnd _
  apply yields_bind
  intro directEnd _
  apply yields_ite
  · exact fun _ => samePlace_throughBuffer _
  · intro _
    apply yields_ite
    · exact fun _ => yields_ok (by simp [RwOutcome.layout?])
    · intro _
      apply yields_ok
      rintro after ⟨⟩
      exact samePlace_workaround _

theorem samePlace_transfer :
    Yields (fun result => ∀ after ∈ result.1.layout?, SamePlace layout after)
      (transfer floppy input buffer req layout) := by
  unfold transfer
  apply yields_ite
  · intro _
    apply yields_ite
    · intro _
      apply yields_bind
      intro result _
      apply yields_ok
      rintro after ⟨⟩
      exact ⟨rfl, rfl, rfl⟩
    · exact fun _ => samePlace_throughBuffer _
  · intro _
    apply yields_ite
    · intro _ result ended after mem
      have same := samePlace_throughBuffer _ result ended after mem
      exact ⟨same.fsectorT, same.track, same.head⟩
    · intro _
      exact yields_ite (fun _ => samePlace_direct) (fun _ => samePlace_throughBuffer _)

end Place

/-- Where a request that transfers data has been located. -/
structure Located (floppy : FloppyStruct) (pos : Word) (layout : Layout) : Prop where
  place : locate floppy pos = .ok (layout.cmd.track, layout.fsectorT)
  head : layout.cmd.head = uchar (layout.fsectorT / floppy.sects)
  track : floppy.track ≠ 0 → layout.cmd.track < floppy.track.toNat

theorem makeRawRwRequest_located {floppy : FloppyStruct} {input : RwInput} {buffer : BufferState}
    {req : Request} (sects_pos : 0 < floppy.sects) :
    Yields (fun result => ∀ layout ∈ result.1.layout?, Located floppy req.pos layout)
      (req.makeRawRwRequest floppy input buffer) := by
  unfold Request.makeRawRwRequest
  apply yields_ite
  · exact fun _ => yields_ok (by simp [RwOutcome.layout?])
  · intro _
    apply yields_bind
    rintro ⟨track, fsectorT⟩ place
    apply yields_ite
    · intro _
      apply yields_ite <;> exact fun _ => yields_ok (by simp [RwOutcome.layout?])
    · intro onDisk
      rw [udiv_of_pos sects_pos, ok_bind]
      apply yields_ite
      · exact fun _ => yields_ok (by simp [RwOutcome.layout?])
      · intro _
        rcases locate_bounds floppy req.pos _ place with ⟨-, nonneg, lt⟩
        rcases exists_laidOut input req sects_pos nonneg lt with ⟨layout, run, laidOut⟩
        rw [run, ok_bind]
        intro result ended after mem
        have same := samePlace_transfer result ended after mem
        refine ⟨?_, ?_, ?_⟩
        · rw [same.track, same.fsectorT, laidOut.track_eq, laidOut.sector_eq, place]
        · rw [same.head, same.fsectorT, laidOut.head_eq, laidOut.sector_eq]
        · intro numbered
          rw [same.track, laidOut.track_eq]
          have below : ¬floppy.track = 0 → track < floppy.track.toNat := by simpa using onDisk
          exact below numbered

/-- The number of sectors of a cylinder, however large. -/
def FloppyStruct.cylinder (floppy : FloppyStruct) : Int := floppy.sects * floppy.head.toNat

/-- The place in the command is that of the position. -/
structure Addressed (floppy : FloppyStruct) (pos : Int) (layout : Layout) : Prop where
  pos_eq : pos = (layout.cmd.track * floppy.head.toNat + layout.cmd.head) * floppy.sects +
    layout.fsectorT % floppy.sects
  head_lt : layout.cmd.head < floppy.head.toNat
  track_lt : layout.cmd.track < floppy.track.toNat

/-- It is if the track and the sector are the quotient and the remainder. -/
theorem addressed_iff_division {floppy : FloppyStruct} {pos : Int} {layout : Layout}
    (sects_pos : 0 < floppy.sects) (heads_pos : 0 < floppy.head.toNat)
    (nonneg : 0 ≤ layout.fsectorT) (lt : layout.fsectorT < 256)
    (head : layout.cmd.head = uchar (layout.fsectorT / floppy.sects))
    (track_lt : layout.cmd.track < floppy.track.toNat) :
    Addressed floppy pos layout ↔
      layout.cmd.track = pos / floppy.cylinder ∧ layout.fsectorT = pos % floppy.cylinder := by
  have whole := Int.emod_add_mul_ediv layout.fsectorT floppy.sects
  have side_nonneg := Int.ediv_nonneg nonneg sects_pos.le
  have side_le := Int.ediv_le_self floppy.sects nonneg
  rw [uchar_of_bounds side_nonneg (by omega)] at head
  have cylinder_pos : 0 < floppy.cylinder :=
    Int.mul_pos sects_pos (Int.natCast_pos.mpr heads_pos)
  have place : (layout.cmd.track * floppy.head.toNat + layout.cmd.head) * floppy.sects +
      layout.fsectorT % floppy.sects =
        layout.fsectorT + floppy.cylinder * layout.cmd.track := by
    rw [head, FloppyStruct.cylinder]
    linear_combination whole
  have side : layout.cmd.head < floppy.head.toNat ↔ layout.fsectorT < floppy.cylinder := by
    rw [head, Int.ediv_lt_iff_lt_mul sects_pos, FloppyStruct.cylinder, mul_comm]
  have unique := Int.ediv_emod_unique cylinder_pos (a := pos) (q := layout.cmd.track)
    (r := layout.fsectorT)
  constructor
  · rintro ⟨pos_eq, head_lt, -⟩
    rcases unique.mpr ⟨(pos_eq.trans place).symm, nonneg, side.mp head_lt⟩ with ⟨quotient, rest⟩
    exact ⟨quotient.symm, rest.symm⟩
  · rintro ⟨quotient, rest⟩
    rcases unique.mp ⟨quotient.symm, rest.symm⟩ with ⟨pos_eq, -, below⟩
    exact ⟨pos_eq.symm.trans place.symm, side.mpr below, track_lt⟩

section Division

variable {cylinder pos tracks : Int}

/-- A position and a cylinder that are both positive as an `int`. -/
theorem division_of_small (cylinder_pos : 0 < cylinder) (cylinder_lt : cylinder < 2147483648)
    (nonneg : 0 ≤ pos) (pos_lt : pos < 2147483648) (tracks_le : tracks ≤ 255)
    (track_lt : uchar ((int32 pos).tdiv (int32 cylinder)) < tracks) :
    (uchar ((int32 pos).tdiv (int32 cylinder)) = pos / cylinder ∧
        uchar ((int32 pos).tmod (int32 cylinder)) = pos % cylinder) ↔
      pos < cylinder * tracks ∧ pos % cylinder < 256 := by
  rw [int32_of_bounds (by omega) (by omega), int32_of_bounds (by omega) (by omega),
    Int.tdiv_eq_ediv_of_nonneg nonneg] at track_lt
  rw [int32_of_bounds (by omega) (by omega), int32_of_bounds (by omega) (by omega),
    Int.tdiv_eq_ediv_of_nonneg nonneg, Int.tmod_eq_emod_of_nonneg nonneg, mul_comm,
    ← Int.ediv_lt_iff_lt_mul cylinder_pos]
  have quotient := Int.ediv_nonneg nonneg cylinder_pos.le
  have rest := Int.emod_nonneg pos cylinder_pos.ne'
  constructor
  · rintro ⟨track, sector⟩
    have := uchar_lt (pos % cylinder)
    omega
  · rintro ⟨track, sector⟩
    exact ⟨uchar_of_bounds quotient (by omega), uchar_of_bounds rest sector⟩

/--
A position that is negative as an `int`. The quotient is counted downwards from 256, and
so it is right only if there are 256 cylinders in all positions.
-/
theorem division_of_negative (cylinder_pos : 0 < cylinder) (cylinder_lt : cylinder < 2147483648)
    (pos_ge : 2147483648 ≤ pos) (pos_lt : pos < 4294967296) (tracks_le : tracks ≤ 255)
    (track_lt : uchar ((int32 pos).tdiv (int32 cylinder)) < tracks) :
    (uchar ((int32 pos).tdiv (int32 cylinder)) = pos / cylinder ∧
        uchar ((int32 pos).tmod (int32 cylinder)) = pos % cylinder) ↔
      pos < cylinder * tracks ∧ pos % cylinder < 256 ∧
        256 * cylinder + pos % cylinder ≤ 4294967296 ∧
        4294967296 < 257 * cylinder + pos % cylinder := by
  have negative : int32 pos = -(4294967296 - pos) := by
    simp only [int32, uint32]
    split_ifs <;> omega
  have nonneg : 0 ≤ 4294967296 - pos := by omega
  rw [negative, int32_of_bounds (by omega) (by omega), Int.neg_tdiv,
    Int.tdiv_eq_ediv_of_nonneg nonneg] at track_lt
  rw [negative, int32_of_bounds (by omega) (by omega), Int.neg_tdiv, Int.neg_tmod,
    Int.tdiv_eq_ediv_of_nonneg nonneg, Int.tmod_eq_emod_of_nonneg nonneg, mul_comm cylinder,
    ← Int.ediv_lt_iff_lt_mul cylinder_pos]
  have up := Int.emod_add_mul_ediv pos cylinder
  have down := Int.emod_add_mul_ediv (4294967296 - pos) cylinder
  have up_rest := Int.emod_nonneg pos cylinder_pos.ne'
  have down_rest := Int.emod_nonneg (4294967296 - pos) cylinder_pos.ne'
  have down_lt := Int.emod_lt_of_pos (4294967296 - pos) cylinder_pos
  have quotient := Int.ediv_nonneg (by omega : 0 ≤ pos) cylinder_pos.le
  have down_quotient := Int.ediv_nonneg nonneg cylinder_pos.le
  have unique := Int.ediv_emod_unique cylinder_pos (a := 4294967296 - pos)
    (q := 256 - pos / cylinder) (r := 4294967296 - 256 * cylinder - pos % cylinder)
  generalize pos / cylinder = t at *
  generalize pos % cylinder = f at *
  generalize (4294967296 - pos) / cylinder = k at *
  generalize (4294967296 - pos) % cylinder = e at *
  constructor
  · rintro ⟨track, sector⟩
    have both : cylinder * (t + k) = 4294967296 - f - e := by linear_combination up + down
    have sector_lt := uchar_lt (-e)
    -- more than 256 cylinders would be so small that the position is not reached
    have turns_lt : t + k < 512 := by
      by_contra many
      have := Int.mul_le_mul_of_nonneg_left (by omega : 512 ≤ t + k) cylinder_pos.le
      have := mul_le_mul (by omega : cylinder ≤ 8388608) (by omega : t ≤ 254) quotient (by omega)
      omega
    have turns_pos : 0 < t := by
      by_contra none
      obtain rfl : t = 0 := by omega
      omega
    have turns : t + k = 256 := by
      simp only [uchar] at track
      omega
    rw [turns] at both
    omega
  · rintro ⟨track, sector, lower, upper⟩
    rcases unique.mpr ⟨by linear_combination -up, by omega, by omega⟩ with ⟨k_eq, e_eq⟩
    subst k_eq e_eq
    simp only [uchar]
    omega

theorem tdiv_eq_zero_iff {dividend divisor : Int} (nonzero : divisor ≠ 0) :
    dividend.tdiv divisor = 0 ↔ dividend.natAbs < divisor.natAbs := by
  have quotient : (dividend.tdiv divisor).natAbs = dividend.natAbs / divisor.natAbs :=
    Int.natAbs_tdiv dividend divisor
  rw [← Int.natAbs_eq_zero, quotient, Nat.div_eq_zero_iff]
  omega

/-- A cylinder that is not positive as an `int`, or that wraps around. -/
theorem division_of_large (cylinder_ge : 2147483648 ≤ cylinder) (nonzero : int32 cylinder ≠ 0)
    (nonneg : 0 ≤ pos) (pos_lt : pos < 4294967296) (tracks_pos : 0 < tracks)
    (track_lt : uchar ((int32 pos).tdiv (int32 cylinder)) < tracks) :
    (uchar ((int32 pos).tdiv (int32 cylinder)) = pos / cylinder ∧
        uchar ((int32 pos).tmod (int32 cylinder)) = pos % cylinder) ↔
      pos < cylinder * tracks ∧ pos % cylinder < 256 ∧
        (pos < (int32 cylinder).natAbs ∨ pos = cylinder) := by
  have at_least_one := Int.mul_le_mul_of_nonneg_left (by omega : 1 ≤ tracks)
    (by omega : 0 ≤ cylinder)
  rcases lt_or_ge pos cylinder with below | above
  · -- the quotient is zero, and the position is the sector
    rw [Int.ediv_eq_zero_of_lt nonneg below, Int.emod_eq_of_lt nonneg below]
    constructor
    · rintro ⟨track, sector⟩
      have pos_small : pos < 256 := by
        have := uchar_lt ((int32 pos).tmod (int32 cylinder))
        omega
      refine ⟨by omega, pos_small, Or.inl ?_⟩
      rw [int32_of_bounds (by omega) (by omega)] at track
      by_contra reached
      have quotient : (pos.tdiv (int32 cylinder)).natAbs = pos.natAbs / (int32 cylinder).natAbs :=
        Int.natAbs_tdiv pos (int32 cylinder)
      have not_zero : pos.tdiv (int32 cylinder) ≠ 0 :=
        (tdiv_eq_zero_iff nonzero).not.mpr (by omega)
      have := Nat.div_le_self pos.natAbs (int32 cylinder).natAbs
      simp only [uchar] at track
      omega
    · rintro ⟨-, pos_small, reach | same⟩
      · rw [int32_of_bounds (by omega) (by omega : pos < 2147483648)]
        have quotient : pos.tdiv (int32 cylinder) = 0 := (tdiv_eq_zero_iff nonzero).mpr (by omega)
        have rest := Int.tmod_add_mul_tdiv pos (int32 cylinder)
        rw [quotient, Int.mul_zero, Int.add_zero] at rest
        rw [quotient, rest]
        exact ⟨rfl, uchar_of_bounds nonneg pos_small⟩
      · omega
  · have one : pos / cylinder = 1 ∧ pos % cylinder = pos - cylinder := by
      rw [Int.ediv_emod_unique (by omega)]
      omega
    have wrapped : int32 cylinder = cylinder - 4294967296 := by
      simp only [int32, uint32]
      split_ifs <;> omega
    have negative : int32 pos = pos - 4294967296 := by
      simp only [int32, uint32]
      split_ifs <;> omega
    rw [one.1, one.2]
    constructor
    · rintro ⟨track, sector⟩
      rw [track] at track_lt
      have more := Int.mul_le_mul_of_nonneg_left (by omega : 2 ≤ tracks) (by omega : 0 ≤ cylinder)
      have not_zero : (int32 pos).tdiv (int32 cylinder) ≠ 0 := by
        intro zero
        rw [zero] at track
        exact absurd track (by decide)
      have reached := (tdiv_eq_zero_iff nonzero).not.mp not_zero
      omega
    · rintro ⟨within, -, reach | same⟩
      · omega
      · subst same
        rw [Int.tdiv_self nonzero, Int.tmod_self, Int.sub_self]
        exact ⟨rfl, rfl⟩

end Division

/--
The position is on the disk, and the product, the quotient and the remainder are what they
should be. The cases apart from the first are those in which two errors make up for each
other.
-/
def Mapped (floppy : FloppyStruct) (pos : Int) : Prop :=
  pos < floppy.cylinder * floppy.track.toNat ∧ pos % floppy.cylinder < 256 ∧
    (floppy.cylinder < 2147483648 ∧
        (pos < 2147483648 ∨
          256 * floppy.cylinder + pos % floppy.cylinder ≤ 4294967296 ∧
            4294967296 < 257 * floppy.cylinder + pos % floppy.cylinder) ∨
      2147483648 ≤ floppy.cylinder ∧
        (pos < (int32 floppy.cylinder).natAbs ∨ pos = floppy.cylinder))

instance (floppy : FloppyStruct) (pos : Int) : Decidable (Mapped floppy pos) :=
  inferInstanceAs (Decidable (_ ∧ _))

/-- Some call for a request at this position goes on to transfer data. -/
def TransfersAt (floppy : FloppyStruct) (pos : Word) (layout : Layout) : Prop :=
  ∃ (input : RwInput) (buffer after : BufferState) (req : Request) (outcome : RwOutcome),
    req.pos = pos ∧ req.makeRawRwRequest floppy input buffer = .ok (outcome, after) ∧
      outcome.layout? = some layout

theorem locate_ok {floppy : FloppyStruct} {pos : Word} {track fsectorT : Int}
    (located : locate floppy pos = .ok (track, fsectorT)) :
    int32 floppy.cylinder ≠ 0 ∧ track = uchar ((int32 pos.toNat).tdiv (int32 floppy.cylinder)) ∧
      fsectorT = uchar ((int32 pos.toNat).tmod (int32 floppy.cylinder)) := by
  unfold locate idiv at located
  split_ifs at located with zero overflow
  · exact nomatch located
  · exact nomatch located
  · injection located with place
    injection place with track_eq sector_eq
    exact ⟨zero, track_eq.symm, sector_eq.symm⟩

theorem addressed_iff_mapped {floppy : FloppyStruct} {tracks : Byte} {pos : Word}
    {layout : Layout} (accepted : floppy.sane tracks = true)
    (located : Located floppy pos layout) :
    Addressed floppy pos.toNat layout ↔ Mapped floppy pos.toNat := by
  rcases sane_spec accepted with ⟨sect_pos, head_pos, track_pos, track_le⟩
  have sects_pos : 0 < floppy.sects := Int.natCast_pos.mpr sect_pos
  have cylinder_pos : 0 < floppy.cylinder :=
    Int.mul_pos sects_pos (Int.natCast_pos.mpr head_pos)
  have tracks_lt := tracks.isLt
  have pos_lt := pos.isLt
  have numbered : floppy.track ≠ 0 := by
    intro zero
    simp [zero] at track_pos
  have track_lt := located.track numbered
  rcases locate_bounds floppy pos _ located.place with ⟨-, nonneg, lt⟩
  rcases locate_ok located.place with ⟨nonzero, track_eq, sector_eq⟩
  rw [addressed_iff_division sects_pos head_pos nonneg lt located.head track_lt, track_eq,
    sector_eq,
    Mapped]
  rw [track_eq] at track_lt
  rcases lt_or_ge floppy.cylinder 2147483648 with small | large
  · rcases lt_or_ge (pos.toNat : Int) 2147483648 with positive | negative
    · rw [division_of_small cylinder_pos small (by omega) positive (by omega) track_lt]
      omega
    · rw [division_of_negative cylinder_pos small negative (by omega) (by omega) track_lt]
      omega
  · rw [division_of_large large nonzero (by omega) (by omega) (by omega) track_lt]
    simp only [large, not_lt.mpr large, true_and, false_and, false_or]

/--
For a geometry that `set_geometry` has accepted, a transfer goes to the place of its position
if and only if the position is mapped. Where it is, no other position has that place.
-/
theorem transfer_addressed_iff (floppy : FloppyStruct) (tracks : Byte)
    (accepted : floppy.sane tracks = true) :
    (∀ pos layout, TransfersAt floppy pos layout →
        (Addressed floppy pos.toNat layout ↔ Mapped floppy pos.toNat)) ∧
      ∀ pos other layout layout', TransfersAt floppy pos layout →
        TransfersAt floppy other layout' → Mapped floppy pos.toNat → Mapped floppy other.toNat →
        layout.cmd.track = layout'.cmd.track → layout.cmd.head = layout'.cmd.head →
        layout.fsectorT % floppy.sects = layout'.fsectorT % floppy.sects → pos = other := by
  have sects_pos : 0 < floppy.sects := Int.natCast_pos.mpr (sane_spec accepted).1
  have addressed_iff : ∀ pos layout, TransfersAt floppy pos layout →
      (Addressed floppy pos.toNat layout ↔ Mapped floppy pos.toNat) := by
    rintro pos layout ⟨input, buffer, after, req, outcome, rfl, ended, laidOut⟩
    exact addressed_iff_mapped accepted
      (makeRawRwRequest_located sects_pos _ ended layout laidOut)
  refine ⟨addressed_iff, ?_⟩
  intro pos other layout layout' first second mapped mapped' track head sector
  have pos_eq := ((addressed_iff _ _ first).mpr mapped).pos_eq
  have other_eq := ((addressed_iff _ _ second).mpr mapped').pos_eq
  rw [track, head, sector, ← other_eq] at pos_eq
  exact BitVec.eq_of_toNat_eq (Int.ofNat.inj pos_eq)

/-- Sector 10 on the second side of track 2. -/
def sector100 : Layout :=
  ⟨⟨0xd1, 0, 2, 0xe6, 4, 2, 1, 11, 2, 18, 0x1b, 0xff⟩, 28, 0, 1, 36⟩

theorem transfer_addressed_iff_h1440 :
    TransfersAt (floppyTypes.get 7) 100 sector100 ∧
      Addressed (floppyTypes.get 7) (100 : Word).toNat sector100 := by
  have transfers : TransfersAt (floppyTypes.get 7) 100 sector100 :=
    ⟨plainRwInput, openedBuffer, openedBuffer, sectorRequest 100,
      .programmed sector100 0xc0200000 512 1 [], rfl, by decide +kernel, rfl⟩
  exact ⟨transfers, ((transfer_addressed_iff (floppyTypes.get 7) 83 (by decide)).1 _ _
    transfers).mpr (by decide +kernel)⟩

/-- The first sector of a disk. -/
def sector0 : Layout :=
  ⟨⟨0xd1, 0, 0, 0xe6, 0, 0, 0, 1, 2, 18, 0x1b, 0xff⟩, 0, 0, 1, 36⟩

/-- Track 256 of a disk with 80 tracks is the first one again. -/
theorem track256_is_track0 :
    80 * (floppyTypes.get 7).cylinder < (9216 : Word).toNat ∧
      TransfersAt (floppyTypes.get 7) 0 sector0 ∧ TransfersAt (floppyTypes.get 7) 9216 sector0 ∧
      ¬Addressed (floppyTypes.get 7) (9216 : Word).toNat sector0 := by
  refine ⟨by decide, ?_, ?_, ?_⟩
  · exact ⟨plainRwInput, openedBuffer, openedBuffer, sectorRequest 0,
      .programmed sector0 0xc0200000 512 1 [], rfl, by decide +kernel, rfl⟩
  · exact ⟨plainRwInput, openedBuffer, openedBuffer, sectorRequest 9216,
      .programmed sector0 0xc0200000 512 1 [], rfl, by decide +kernel, rfl⟩
  · rintro ⟨pos_eq, -, -⟩
    exact absurd pos_eq (by decide)

end Gray386.Floppy
