import Gray386.Floppy.Addressing

/-!
# How far a command goes

A command begins with the sector of the controller that holds the first block of a request,
and ends with the side or with the last sector of that size. The disks considered have so few
sectors that nothing is lost in a byte.
-/

namespace Gray386.Floppy

open Gray386.Machine

/-- A cylinder has less sectors than a byte has values. -/
structure SmallGeometry (floppy : FloppyStruct) : Prop where
  sects_pos : 0 < floppy.sects
  heads_pos : 0 < floppy.head.toNat
  cylinder_le : floppy.cylinder ≤ 255

/-- The size of the sectors, and where a command begins and ends. -/
structure Reach (sects : Int) (layout : Layout) (k : Nat) : Prop where
  shift_le : k ≤ 5
  ssize : layout.ssize = 2 ^ k
  code_le : layout.cmd.sizecode.toNat ≤ 7
  bytes : (128 * 2 ^ layout.cmd.sizecode.toNat : Int) ∣ 512 * 2 ^ k
  nonneg : 0 ≤ layout.fsectorT
  lt : layout.fsectorT < layout.maxSector
  le : layout.maxSector ≤ 255
  offset : layout.inSectorOffset = layout.fsectorT % sects % 2 ^ k
  whole : layout.maxSector % sects % 2 ^ k = 0
  /-- Sectors of the size fill a side, or the command does not get to the end of it. -/
  side : (2 : Int) ^ k ∣ sects ∨ layout.maxSector < layout.fsectorT / sects * sects + sects

theorem le_of_dvd_sub {a b z : Int} (whole : z ∣ a - b) (lt : a < b + z) : a ≤ b := by
  by_contra less
  have := Int.le_of_dvd (by omega) whole
  omega

namespace Reach

variable {sects : Int} {layout : Layout} {k : Nat}

theorem offset_bounds (reach : Reach sects layout k) :
    0 ≤ layout.inSectorOffset ∧ layout.inSectorOffset < 2 ^ k := by
  rw [reach.offset]
  exact ⟨Int.emod_nonneg _ (two_pow_pos k).ne', Int.emod_lt_of_pos _ (two_pow_pos k)⟩

theorem aligned_nonneg (reach : Reach sects layout k) (sects_pos : 0 < sects) :
    0 ≤ layout.alignedSectorT := by
  have inSide_nonneg := Int.emod_nonneg layout.fsectorT sects_pos.ne'
  have split := Int.emod_add_mul_ediv layout.fsectorT sects
  have before := Int.mul_nonneg sects_pos.le (Int.ediv_nonneg reach.nonneg sects_pos.le)
  have offset_le := (leftover_bounds inSide_nonneg k).2.1
  rw [Layout.alignedSectorT, reach.offset]
  omega

theorem bounds (reach : Reach sects layout k) (sects_pos : 0 < sects) :
    0 ≤ layout.alignedSectorT ∧ layout.alignedSectorT ≤ layout.fsectorT ∧
      layout.fsectorT < layout.alignedSectorT + 2 ^ k ∧ layout.fsectorT < layout.maxSector ∧
      layout.maxSector ≤ 255 := by
  have offset := reach.offset_bounds
  have aligned_eq : layout.alignedSectorT = layout.fsectorT - layout.inSectorOffset := rfl
  exact ⟨reach.aligned_nonneg sects_pos, by omega, by omega, reach.lt, reach.le⟩

/-- The sectors of the controller that the command may reach are counted from one origin. -/
theorem exists_origin (reach : Reach sects layout k) (sects_pos : 0 < sects) :
    ∃ origin, ∀ x, layout.alignedSectorT ≤ x → x ≤ layout.maxSector →
      x % sects % 2 ^ k = (x - origin) % 2 ^ k := by
  rcases reach.side with divides | before
  · refine ⟨0, fun x _ _ => ?_⟩
    rw [Int.emod_emod_of_dvd x divides, Int.sub_zero]
  · refine ⟨layout.fsectorT / sects * sects, fun x lower upper => ?_⟩
    have whole := Int.emod_add_mul_ediv layout.fsectorT sects
    have rest_nonneg := Int.emod_nonneg layout.fsectorT sects_pos.ne'
    have offset_le : layout.inSectorOffset ≤ layout.fsectorT % sects := by
      rw [reach.offset]
      exact (leftover_bounds rest_nonneg k).2.1
    simp only [Layout.alignedSectorT] at lower
    rw [mul_comm] at before ⊢
    have in_side : x % sects = x - sects * (layout.fsectorT / sects) := by
      have unique := Int.ediv_emod_unique sects_pos (a := x) (q := layout.fsectorT / sects)
        (r := x - sects * (layout.fsectorT / sects))
      exact (unique.mpr ⟨by omega, by omega, by omega⟩).2
    rw [in_side]

/-- The place that was found, rounded down to a sector of the controller. -/
theorem cut (reach : Reach sects layout k) (sects_pos : 0 < sects) {x : Int}
    (lower : layout.alignedSectorT ≤ x) (upper : x ≤ layout.maxSector) :
    ∃ y, x - x % sects % 2 ^ k = y ∧ (2 : Int) ^ k ∣ y - layout.alignedSectorT ∧
      layout.alignedSectorT ≤ y ∧ y ≤ x ∧ x < y + 2 ^ k := by
  have z_pos := two_pow_pos k
  have offset := reach.offset_bounds
  have lt := reach.lt
  rcases reach.exists_origin sects_pos with ⟨origin, counted⟩
  have offset_eq := reach.offset
  rw [counted layout.fsectorT (by rw [Layout.alignedSectorT]; omega) lt.le] at offset_eq
  have whole : (2 : Int) ^ k ∣ x - (x - origin) % 2 ^ k - layout.alignedSectorT := by
    refine ⟨(x - origin) / 2 ^ k - (layout.fsectorT - origin) / 2 ^ k, ?_⟩
    have here := Int.emod_add_mul_ediv (x - origin) (2 ^ k)
    have first := Int.emod_add_mul_ediv (layout.fsectorT - origin) (2 ^ k)
    rw [Layout.alignedSectorT, offset_eq, Int.mul_sub]
    omega
  have rest_nonneg := Int.emod_nonneg (x - origin) z_pos.ne'
  have rest_lt := Int.emod_lt_of_pos (x - origin) z_pos
  refine ⟨x - (x - origin) % 2 ^ k, by rw [counted x lower upper], whole, ?_, by omega, by omega⟩
  have back : (2 : Int) ^ k ∣ layout.alignedSectorT - (x - (x - origin) % 2 ^ k) := by
    rw [← Int.neg_sub]
    exact Int.dvd_neg.mpr whole
  exact le_of_dvd_sub back (by omega)

/-- There is a whole sector before the end. -/
theorem aligned_lt (reach : Reach sects layout k) (sects_pos : 0 < sects) :
    layout.alignedSectorT + 2 ^ k ≤ layout.maxSector := by
  have z_pos := two_pow_pos k
  have offset := reach.offset_bounds
  have lt := reach.lt
  rcases reach.cut sects_pos (by rw [Layout.alignedSectorT]; omega) le_rfl with
    ⟨y, rfl, whole, -, -, -⟩
  rw [reach.whole, Int.sub_zero] at whole
  by_contra less
  have := le_of_dvd_sub whole (by omega)
  rw [Layout.alignedSectorT] at this
  omega

/-- The length is the one of the whole sectors that hold the data. -/
theorem dmaLength_spec (reach : Reach sects layout k) {count : Int} (positive : 0 < count)
    (le : count ≤ 3000000) :
    ∃ blocks, dmaLength layout count = blocks * 512 ∧ (2 : Int) ^ k ∣ blocks ∧
      layout.inSectorOffset + count ≤ blocks ∧ blocks < layout.inSectorOffset + count + 2 ^ k := by
  have z_pos := two_pow_pos k
  have z_le := two_pow_le reach.shift_le
  have shift_le := reach.shift_le
  have offset := reach.offset_bounds
  have rest_nonneg := Int.emod_nonneg (layout.inSectorOffset + count - 1) z_pos.ne'
  have rest_lt := Int.emod_lt_of_pos (layout.inSectorOffset + count - 1) z_pos
  have split := Int.emod_add_mul_ediv (layout.inSectorOffset + count - 1) (2 ^ k)
  rw [Int.mul_comm] at split
  refine ⟨(layout.inSectorOffset + count - 1) / 2 ^ k * 2 ^ k + 2 ^ k, ?_, ?_, by omega, by omega⟩
  · rw [dmaLength, reach.ssize, or32_two_pow_sub_one (by omega) (by omega) (by omega),
      int32_of_bounds (by omega) (by omega)]
    ring
  · exact Int.dvd_add (Int.dvd_mul_left _ _) (Int.dvd_refl _)

/-- Up to the end of a sector, no more is transferred. -/
theorem dmaLength_whole (reach : Reach sects layout k) {y : Int}
    (whole : (2 : Int) ^ k ∣ y - layout.alignedSectorT) (lt : layout.fsectorT < y) (le : y ≤ 255) :
    dmaLength layout (y - layout.fsectorT) = (y - layout.alignedSectorT) * 512 := by
  have nonneg := reach.nonneg
  have aligned_eq : layout.alignedSectorT = layout.fsectorT - layout.inSectorOffset := rfl
  rcases reach.dmaLength_spec (by omega : 0 < y - layout.fsectorT) (by omega) with
    ⟨blocks, length_eq, blocks_whole, enough, fewer⟩
  have blocks_le : blocks ≤ y - layout.alignedSectorT :=
    le_of_dvd_sub (Int.dvd_sub blocks_whole whole) (by omega)
  obtain rfl : blocks = y - layout.alignedSectorT := by omega
  exact length_eq

theorem readFirst (reach : Reach sects layout k) (floppy : FloppyStruct) :
    Reach sects (Floppy.readFirst floppy layout) k :=
  ⟨reach.shift_le, reach.ssize, reach.code_le, reach.bytes, reach.nonneg, reach.lt, reach.le,
    reach.offset, reach.whole, reach.side⟩

/-- Whole sectors are whole for the controller. -/
theorem bytes_whole (reach : Reach sects layout k) {blocks : Int} (whole : (2 : Int) ^ k ∣ blocks) :
    blocks * 512 % (128 * 2 ^ layout.cmd.sizecode.toNat) = 0 := by
  apply Int.emod_eq_zero_of_dvd
  rw [Int.mul_comm blocks]
  exact reach.bytes.trans (Int.mul_dvd_mul_left 512 whole)

theorem transferSize_eq_cut (reach : Reach sects layout k) (sects_pos : 0 < sects)
    {maxSector maxSize : Int} (maxSector_nonneg : 0 ≤ maxSector) (maxSector_le : maxSector ≤ 255)
    (size_ge : 0 ≤ layout.fsectorT + maxSize) (size_lt : layout.fsectorT + maxSize < 2147483648) :
    transferSize sects layout.fsectorT layout.ssize maxSector maxSize =
      let limit := min maxSector (layout.fsectorT + maxSize)
      .ok (limit - limit % sects % 2 ^ k) := by
  have z_pos := two_pow_pos k
  have z_le := two_pow_le reach.shift_le
  rw [reach.ssize, transferSize_eq sects_pos z_pos]
  simp only
  rw [int32_of_bounds (by omega) size_lt, uint32_of_bounds (by omega) (by omega)]
  have rest_nonneg := Int.emod_nonneg
    (min maxSector (layout.fsectorT + maxSize) % sects) z_pos.ne'
  have rest_lt := Int.emod_lt_of_pos (min maxSector (layout.fsectorT + maxSize) % sects) z_pos
  rw [int32_of_bounds (by omega) (by omega)]

end Reach

section Small

variable {floppy : FloppyStruct} {input : RwInput} {req : Request} {track fsectorT : Int}
  {layout : Layout}

/-- A block in its cylinder, by its side and its place there. -/
structure InCylinder (floppy : FloppyStruct) (fsectorT : Int) : Prop where
  nonneg : 0 ≤ fsectorT
  head_nonneg : 0 ≤ fsectorT / floppy.sects
  inSide_nonneg : 0 ≤ fsectorT % floppy.sects
  inSide_lt : fsectorT % floppy.sects < floppy.sects
  split : fsectorT = fsectorT / floppy.sects * floppy.sects + fsectorT % floppy.sects
  side_le : fsectorT / floppy.sects * floppy.sects + floppy.sects ≤ floppy.cylinder

theorem SmallGeometry.inCylinder (small : SmallGeometry floppy) (nonneg : 0 ≤ fsectorT)
    (lt : fsectorT < floppy.cylinder) : InCylinder floppy fsectorT := by
  have sects_pos := small.sects_pos
  have whole := Int.emod_add_mul_ediv fsectorT floppy.sects
  have head_lt : fsectorT / floppy.sects < floppy.head.toNat := by
    rw [Int.ediv_lt_iff_lt_mul sects_pos, mul_comm]
    exact lt
  refine ⟨nonneg, Int.ediv_nonneg nonneg sects_pos.le, Int.emod_nonneg _ sects_pos.ne',
    Int.emod_lt_of_pos _ sects_pos, ?_, ?_⟩
  · rw [mul_comm]
    omega
  · have := Int.mul_le_mul_of_nonneg_right (by omega : fsectorT / floppy.sects + 1 ≤
      floppy.head.toNat) sects_pos.le
    rw [FloppyStruct.cylinder]
    linarith

theorem SmallGeometry.cylinder_pos (small : SmallGeometry floppy) : 0 < floppy.cylinder :=
  Int.mul_pos small.sects_pos (Int.natCast_pos.mpr small.heads_pos)

theorem SmallGeometry.maxSector_eq (small : SmallGeometry floppy) :
    floppy.maxSector = floppy.cylinder := by
  have cylinder_pos := small.cylinder_pos
  have cylinder_le := small.cylinder_le
  rw [FloppyStruct.maxSector, ← FloppyStruct.cylinder]
  exact int32_of_bounds (by omega) (by omega)

/-- The side of a block begins and ends in the cylinder. -/
theorem InCylinder.bounds (place : InCylinder floppy fsectorT) (small : SmallGeometry floppy) :
    0 < floppy.sects ∧ 0 ≤ fsectorT / floppy.sects * floppy.sects ∧
      fsectorT / floppy.sects * floppy.sects + floppy.sects ≤ floppy.cylinder ∧
      floppy.cylinder ≤ 255 :=
  ⟨small.sects_pos, Int.mul_nonneg place.head_nonneg small.sects_pos.le, place.side_le,
    small.cylinder_le⟩

/-- Where a command ends at the latest, if sectors of one size fill the side. -/
inductive EndsWith (floppy : FloppyStruct) (track fsectorT : Int) : Int → Prop where
  | side (first : fsectorT < floppy.sects) : EndsWith floppy track fsectorT floppy.sects
  | cylinder : EndsWith floppy track fsectorT floppy.cylinder
  | shown (shown : phantoms floppy track (fsectorT / floppy.sects) = true)
      (visible : fsectorT < 2 * floppy.sects / 3) :
      EndsWith floppy track fsectorT (2 * floppy.sects / 3)

theorem sideLimit_endsWith (small : SmallGeometry floppy) (place : InCylinder floppy fsectorT)
    (visible : phantoms floppy track (fsectorT / floppy.sects) = true →
      fsectorT < sideLimit floppy input track (fsectorT / floppy.sects) fsectorT) :
    EndsWith floppy track fsectorT
      (sideLimit floppy input track (fsectorT / floppy.sects) fsectorT) := by
  have bounds := place.bounds small
  unfold sideLimit at visible ⊢
  split_ifs at visible ⊢ with shown narrow
  · rw [uint32_of_bounds (by omega) (by omega), int32_of_bounds (by omega) (by omega)] at visible ⊢
    exact .shown shown (visible shown)
  · rw [int32_of_bounds (by omega) (by omega)]
    simp only [Bool.and_eq_true, decide_eq_true_eq] at narrow
    exact .side narrow.2
  · rw [small.maxSector_eq]
    exact .cylinder

theorem runLimit_endsWith (small : SmallGeometry floppy) (place : InCylinder floppy fsectorT)
    (visible : phantoms floppy track (fsectorT / floppy.sects) = true →
      fsectorT < sideLimit floppy input track (fsectorT / floppy.sects) fsectorT)
    (tracksize : Int) :
    EndsWith floppy track fsectorT
      (runLimit floppy input req track (fsectorT / floppy.sects) fsectorT false tracksize) := by
  have bounds := place.bounds small
  have exact_int : int32 floppy.sects = floppy.sects := int32_of_bounds (by omega) (by omega)
  have first : fsectorT / floppy.sects = 0 → fsectorT < floppy.sects := by
    intro zero
    have split := place.split
    have inSide_lt := place.inSide_lt
    rw [zero] at split
    omega
  simp only [runLimit, Bool.false_eq_true, if_false, exact_int]
  split_ifs with probed written
  · simp only [Bool.and_eq_true, decide_eq_true_eq] at probed
    exact .side (first probed.1.1.2)
  · simp only [Bool.and_eq_true, decide_eq_true_eq] at written
    exact .side (first written.1)
  · exact sideLimit_endsWith small place visible

theorem runLimit_uneven (small : SmallGeometry floppy) (place : InCylinder floppy fsectorT)
    (k : Nat) :
    runLimit floppy input req track (fsectorT / floppy.sects) fsectorT true
        (int32 (floppy.sects - floppy.sects % 2 ^ k)) =
      fsectorT / floppy.sects * floppy.sects + (floppy.sects - floppy.sects % 2 ^ k) := by
  have bounds := place.bounds small
  have leftover := leftover_bounds small.sects_pos.le k
  have exact_int : int32 (floppy.sects - floppy.sects % 2 ^ k) =
      floppy.sects - floppy.sects % 2 ^ k := int32_of_bounds (by omega) (by omega)
  rw [runLimit, if_pos rfl, exact_int, int32_of_bounds (by omega) (by omega)]

theorem bytes_dvd (track head inSide : Int) {code : Int}
    (code_eq : code = sectorCode floppy track head -
      (sectorCode floppy track head - 2 : Nat) + blockShift floppy track head inSide) :
    (128 * 2 ^ code.toNat : Int) ∣ 512 * 2 ^ blockShift floppy track head inSide := by
  have shift_le : blockShift floppy track head inSide ≤ sectorCode floppy track head - 2 :=
    sectorShift_le
  have code_le : sectorCode floppy track head ≤ 7 := sectorCode_le
  generalize blockShift floppy track head inSide = k at *
  generalize sectorCode floppy track head = c at *
  rcases Nat.lt_or_ge c 2 with below | above
  · -- sectors of less than 512 bytes
    obtain rfl : k = 0 := by omega
    obtain rfl | rfl : c = 0 ∨ c = 1 := by omega
    all_goals
      subst code_eq
      decide
  · obtain rfl : code = (2 + k : Nat) := by omega
    rw [Int.toNat_natCast, pow_add]
    exact dvd_of_eq (by ring)

theorem EndsWith.limits (small : SmallGeometry floppy) (place : InCylinder floppy fsectorT)
    {maxSector : Int} (ends : EndsWith floppy track fsectorT maxSector) {k : Nat}
    (fine : phantoms floppy track (fsectorT / floppy.sects) = true → k = 0) :
    fsectorT < maxSector ∧ maxSector ≤ 255 ∧ maxSector % floppy.sects % 2 ^ k = 0 := by
  have bounds := place.bounds small
  have split := place.split
  have inSide_lt := place.inSide_lt
  cases ends with
  | side first => exact ⟨first, by omega, by simp⟩
  | cylinder => exact ⟨by omega, small.cylinder_le, by simp [FloppyStruct.cylinder]⟩
  | shown shown visible => exact ⟨visible, by omega, by simp [fine shown]⟩

theorem uneven_limits (small : SmallGeometry floppy) (place : InCylinder floppy fsectorT) {k : Nat}
    (before : fsectorT % floppy.sects < floppy.sects - floppy.sects % 2 ^ k) {maxSector : Int}
    (limit : maxSector =
      fsectorT / floppy.sects * floppy.sects + (floppy.sects - floppy.sects % 2 ^ k)) :
    (fsectorT < maxSector ∧ maxSector ≤ 255 ∧ maxSector % floppy.sects % 2 ^ k = 0) ∧
      ((2 : Int) ^ k ∣ floppy.sects ∨
        maxSector < fsectorT / floppy.sects * floppy.sects + floppy.sects) := by
  have bounds := place.bounds small
  have split := place.split
  have leftover := leftover_bounds small.sects_pos.le k
  by_cases whole : floppy.sects % 2 ^ k = 0
  · have ends : maxSector = (fsectorT / floppy.sects + 1) * floppy.sects := by
      rw [limit, whole]
      ring
    exact ⟨⟨by omega, by omega, by simp [ends]⟩, Or.inl (Int.dvd_of_emod_eq_zero whole)⟩
  · have multiple := Int.emod_add_mul_ediv floppy.sects (2 ^ k)
    have in_side : maxSector % floppy.sects = 2 ^ k * (floppy.sects / 2 ^ k) := by
      rw [limit, Int.mul_add_emod_self_right, Int.emod_eq_of_lt (by omega) (by omega)]
      omega
    exact ⟨⟨by omega, by omega, by rw [in_side, Int.mul_emod_right]⟩, Or.inr (by omega)⟩

/-- The layout of a request on a small disk. -/
theorem LaidOut.reach (small : SmallGeometry floppy) (place : InCylinder floppy fsectorT)
    (laidOut : LaidOut floppy input req track (fsectorT / floppy.sects)
      (fsectorT % floppy.sects) fsectorT layout)
    (visible : phantoms floppy track (fsectorT / floppy.sects) = true →
      fsectorT < sideLimit floppy input track (fsectorT / floppy.sects) fsectorT) :
    Reach floppy.sects layout
      (blockShift floppy track (fsectorT / floppy.sects) (fsectorT % floppy.sects)) := by
  have limit_eq := laidOut.limit_eq
  have before : fsectorT % floppy.sects < floppy.sects - floppy.sects % 2 ^ blockShift floppy track
      (fsectorT / floppy.sects) (fsectorT % floppy.sects) := lt_of_sectorShift place.inSide_lt
  have shift_le : blockShift floppy track (fsectorT / floppy.sects) (fsectorT % floppy.sects) ≤
      sectorCode floppy track (fsectorT / floppy.sects) - 2 := sectorShift_le
  have limits : (layout.fsectorT < layout.maxSector ∧ layout.maxSector ≤ 255 ∧
        layout.maxSector % floppy.sects % 2 ^ blockShift floppy track (fsectorT / floppy.sects)
          (fsectorT % floppy.sects) = 0) ∧
      ((2 : Int) ^ blockShift floppy track (fsectorT / floppy.sects) (fsectorT % floppy.sects) ∣
          floppy.sects ∨
        layout.maxSector < layout.fsectorT / floppy.sects * floppy.sects + floppy.sects) := by
    rw [laidOut.sector_eq]
    by_cases even : floppy.sects % 2 ^ (sectorCode floppy track (fsectorT / floppy.sects) - 2) = 0
    · rw [decide_eq_false (by simpa using even)] at limit_eq
      have fine : phantoms floppy track (fsectorT / floppy.sects) = true →
          blockShift floppy track (fsectorT / floppy.sects) (fsectorT % floppy.sects) = 0 := by
        intro shown
        simp only [sectorCode, shown, if_true] at shift_le
        omega
      rw [limit_eq]
      exact ⟨(runLimit_endsWith small place visible _).limits small place fine,
        Or.inl ((pow_dvd_pow 2 shift_le).trans (Int.dvd_of_emod_eq_zero even))⟩
    · rw [decide_eq_true (by simpa using even), runLimit_uneven small place] at limit_eq
      exact uneven_limits small place before limit_eq
  rcases limits with ⟨⟨lt, le, whole⟩, side⟩
  exact ⟨blockShift_le, laidOut.size_eq, laidOut.proper.sizecode,
    bytes_dvd _ _ _ laidOut.code_eq, laidOut.sector_eq ▸ place.nonneg, lt, le,
    by rw [laidOut.offset_eq, laidOut.sector_eq], whole, side⟩

theorem ct_fmMode (floppy : FloppyStruct) :
    ct (fmMode floppy fdWrite) = fdWrite ∧ ct (fmMode floppy fdRead) = fdRead := by
  have modes : ∀ rate : Byte, ct (fdWrite &&& ~~~((rate &&& 0x80) >>> 1)) = fdWrite ∧
      ct (fdRead &&& ~~~((rate &&& 0x80) >>> 1)) = fdRead := by decide
  exact modes floppy.rate

end Small

end Gray386.Floppy
