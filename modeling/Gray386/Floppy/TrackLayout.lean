import Gray386.Floppy.Request
import Mathlib.Tactic.Linarith
import Mathlib.Tactic.Ring

/-!
# How a track is divided

A track is divided into sectors of the controller from its beginning, each of them as large
as allowed and as there is space for. So the sizes are powers of two which fall towards the
end, and every sector begins at a multiple of its size. The two loops in
`make_raw_rw_request` find the one that holds a given block of 512 bytes.
-/

namespace Gray386.Floppy

open Gray386.Machine

theorem emod_two_pow_of_lt {n : Int} {i k : Nat} (le : k ≤ i) (lt : n % 2 ^ i < 2 ^ k) :
    n % 2 ^ k = n % 2 ^ i := by
  rw [← Int.emod_emod_of_dvd n (pow_dvd_pow 2 le)]
  exact Int.emod_eq_of_lt (Int.emod_nonneg n (by positivity)) lt

theorem emod_two_pow_of_ge {n : Int} {i k : Nat} (le : k ≤ i) (ge : 2 ^ k ≤ n % 2 ^ i)
    (lt : n % 2 ^ i < 2 ^ (k + 1)) : n % 2 ^ k = n % 2 ^ i - 2 ^ k := by
  have double : (2 : Int) ^ (k + 1) = 2 ^ k + 2 ^ k := by ring
  rw [← Int.emod_emod_of_dvd n (pow_dvd_pow 2 le), ← Int.sub_emod_right]
  exact Int.emod_eq_of_lt (by omega) (by omega)

theorem two_pow_pos (k : Nat) : 0 < (2 : Int) ^ k := by positivity

theorem two_pow_le {k : Nat} (le : k ≤ 5) : (2 : Int) ^ k ≤ 32 := by
  calc
    (2 : Int) ^ k ≤ 2 ^ 5 := pow_le_pow_right₀ (by omega) le
    _ = 32 := by norm_num

theorem leftover_bounds {n : Int} (nonneg : 0 ≤ n) (k : Nat) :
    0 ≤ n % 2 ^ k ∧ n % 2 ^ k ≤ n ∧ n % 2 ^ k < 2 ^ k := by
  have positive := two_pow_pos k
  refine ⟨Int.emod_nonneg n positive.ne', ?_, Int.emod_lt_of_pos n positive⟩
  have whole := Int.emod_add_mul_ediv n (2 ^ k)
  have := Int.mul_nonneg positive.le (Int.ediv_nonneg nonneg positive.le)
  omega

/--
The size of the sector of the controller that holds a block, as a power of two, if the size
is at most the one given. A size does if the block is before what it leaves over.
-/
def sectorShift (sects inSide : Int) : Nat → Nat
  | 0 => 0
  | largest + 1 =>
      if inSide < sects - sects % 2 ^ (largest + 1) then largest + 1
      else sectorShift sects inSide largest

section Shift

variable {sects inSide : Int} {largest : Nat}

theorem sectorShift_le : sectorShift sects inSide largest ≤ largest := by
  induction largest with
  | zero => exact Nat.le_refl 0
  | succ largest ih =>
      rw [sectorShift]
      split_ifs
      · exact Nat.le_refl _
      · omega

theorem lt_of_sectorShift (inside : inSide < sects) :
    inSide < sects - sects % 2 ^ sectorShift sects inSide largest := by
  induction largest with
  | zero => simpa [sectorShift] using inside
  | succ largest ih =>
      rw [sectorShift]
      split_ifs with fits
      · exact fits
      · exact ih

theorem sectorShift_eq {k : Nat} (le : k ≤ largest) (fits : inSide < sects - sects % 2 ^ k)
    (passed : ∀ i, k < i → i ≤ largest → sects - sects % 2 ^ i ≤ inSide) :
    sectorShift sects inSide largest = k := by
  induction largest with
  | zero => simp only [sectorShift]; omega
  | succ largest ih =>
      rw [sectorShift]
      rcases Nat.lt_or_eq_of_le le with lt | rfl
      · have := passed (largest + 1) lt (Nat.le_refl _)
        rw [if_neg (by omega)]
        exact ih (by omega) (fun i above below => passed i above (by omega))
      · rw [if_pos fits]

end Shift

/-- The loops are at sectors of this size. Larger ones end before the block. -/
structure Divided (sects inSide : Int) (largest : Nat) (filling : Filling) (k : Nat) : Prop where
  le : k ≤ largest
  ssize : filling.ssize = 2 ^ k
  sizecode : filling.sizecode = 2 + k
  tracksize : filling.tracksize = sects - sects % 2 ^ k
  passed : ∀ i, k < i → i ≤ largest → sects - sects % 2 ^ i ≤ inSide

section Loops

variable {sects inSide : Int} {largest : Nat} {filling : Filling} {k : Nat}

/-- The next smaller size that fits into what is left of the track. -/
theorem shrink_spec (k_le : k ≤ 5) (nonneg : 0 ≤ filling.tracksize)
    (before : filling.tracksize < sects) (rest : sects < filling.tracksize + 2 ^ k)
    (small : sects < 2147483648) (ssize : filling.ssize = 2 ^ k)
    (sizecode : filling.sizecode = 2 + k) :
    ∃ m < k, shrink sects filling = .ok { filling with sizecode := 2 + m, ssize := 2 ^ m } ∧
      filling.tracksize + 2 ^ m ≤ sects ∧ sects < filling.tracksize + 2 ^ (m + 1) := by
  have step : ∀ state, (∃ m ≤ k, state = { filling with sizecode := 2 + m, ssize := 2 ^ m } ∧
        sects < filling.tracksize + 2 ^ (m + 1)) → tooLarge sects state = true →
      ∃ next, halve state = .ok next ∧
        (∃ m ≤ k, next = { filling with sizecode := 2 + m, ssize := 2 ^ m } ∧
          sects < filling.tracksize + 2 ^ (m + 1)) ∧
        next.ssize.toNat < state.ssize.toNat := by
    rintro state ⟨m, m_le, rfl, -⟩ large
    have bound := two_pow_le (show m ≤ 5 by omega)
    simp only [tooLarge, decide_eq_true_eq] at large
    rw [uint32_of_bounds (by positivity) (by omega)] at large
    -- a sector of 512 bytes would fit
    cases m with
    | zero => simp at large; omega
    | succ m =>
        have double : (2 : Int) ^ (m + 1) = 2 * 2 ^ m := by ring
        have positive := two_pow_pos m
        have half : (2 : Int) ^ (m + 1) / 2 = 2 ^ m := by omega
        refine ⟨_, rfl, ⟨m, by omega, ?_, large⟩, ?_⟩
        · rw [uchar_of_bounds (by push_cast; omega) (by push_cast; omega), half]
          congr 1
          push_cast
          omega
        · simp only [half]
          omega
  have start : filling = { filling with sizecode := 2 + (k : Int), ssize := 2 ^ k } := by
    rw [← ssize, ← sizecode]
  have enough : filling.ssize.toNat ≤ 32 := by
    have := two_pow_le k_le
    omega
  have double : (2 : Int) ^ (k + 1) = 2 * 2 ^ k := by ring
  rcases loop_rule (tooLarge sects) halve _ _ step ⟨k, Nat.le_refl k, start, by omega⟩ enough with
    ⟨last, run, ⟨m, m_le, rfl, below⟩, ended⟩
  have bound := two_pow_le (show m ≤ 5 by omega)
  simp only [tooLarge, decide_eq_false_iff_not] at ended
  rw [uint32_of_bounds (by positivity) (by omega)] at ended
  refine ⟨m, ?_, run, by omega, below⟩
  rcases Nat.lt_or_eq_of_le m_le with lt | rfl
  · exact lt
  · omega

/-- One more sector, which is smaller than all before it. -/
theorem Divided.addSector (divided : Divided sects inSide largest filling k)
    (largest_le : largest ≤ 5) (inside : inSide < sects) (small : sects < 2147483648)
    (nonneg : 0 ≤ sects) (before : filling.tracksize ≤ inSide) :
    ∃ next m, addSector sects filling = .ok next ∧ Divided sects inSide largest next m ∧
      filling.tracksize < next.tracksize := by
  have tracksize := divided.tracksize
  have leftover := leftover_bounds nonneg k
  rcases shrink_spec (by have := divided.le; omega) (by omega) (by omega) (by omega) small
    divided.ssize divided.sizecode with ⟨m, m_lt, run, fits, most⟩
  have positive := two_pow_pos m
  -- what is left is at least this size and less than twice of it
  have rest := emod_two_pow_of_ge (n := sects) m_lt.le (by omega) (by omega)
  refine ⟨_, m, by rw [Floppy.addSector, run]; rfl, ⟨?_, rfl, rfl, ?_, ?_⟩, ?_⟩
  · have := divided.le
    omega
  · show int32 (filling.tracksize + 2 ^ m) = _
    rw [int32_of_bounds (by omega) (by omega)]
    omega
  · intro i above below
    rcases Nat.lt_or_ge k i with larger | smaller
    · exact divided.passed i larger below
    · have double : (2 : Int) ^ (m + 1) ≤ 2 ^ i := pow_le_pow_right₀ (by omega) above
      have same := emod_two_pow_of_lt (n := sects) smaller (by omega)
      omega
  · show filling.tracksize < int32 (filling.tracksize + 2 ^ m)
    rw [int32_of_bounds (by omega) (by omega)]
    omega

/-- The loop stops at the sector that holds the block. -/
theorem fillUp_spec (divided : Divided sects inSide largest filling k) (largest_le : largest ≤ 5)
    (inside : inSide < sects) (small : sects < 2147483648) (nonneg : 0 ≤ inSide)
    (inSide_lt : inSide < 256) :
    ∃ filled, fillUp sects inSide filling = .ok filled ∧
      Divided sects inSide largest filled (sectorShift sects inSide largest) := by
  have bounds : ∀ {state m}, Divided sects inSide largest state m →
      uint32 state.tracksize = state.tracksize := by
    intro state m holds
    have tracksize := holds.tracksize
    have leftover := leftover_bounds (by omega : 0 ≤ sects) m
    exact uint32_of_bounds (by omega) (by omega)
  have step : ∀ state, (∃ m, Divided sects inSide largest state m) →
      unreached inSide state = true → ∃ next, addSector sects state = .ok next ∧
        (∃ m, Divided sects inSide largest next m) ∧
        (inSide + 1 - next.tracksize).toNat < (inSide + 1 - state.tracksize).toNat := by
    rintro state ⟨m, holds⟩ again
    simp only [unreached, decide_eq_true_eq, bounds holds] at again
    rcases holds.addSector largest_le inside small (by omega) again with
      ⟨next, n, run, kept, grows⟩
    exact ⟨next, run, ⟨n, kept⟩, by omega⟩
  have enough : (inSide + 1 - filling.tracksize).toNat ≤ 256 := by
    have tracksize := divided.tracksize
    have leftover := leftover_bounds (by omega : 0 ≤ sects) k
    omega
  rcases loop_rule (unreached inSide) (addSector sects) _ _ step ⟨k, divided⟩ enough with
    ⟨filled, run, ⟨m, holds⟩, ended⟩
  simp only [unreached, decide_eq_false_iff_not, bounds holds] at ended
  have fits : inSide < sects - sects % 2 ^ m := by
    have tracksize := holds.tracksize
    omega
  refine ⟨filled, run, ?_⟩
  rw [sectorShift_eq holds.le fits holds.passed]
  exact holds

end Loops

theorem ssize_eq {sizecode : Nat} (sizecode_le : sizecode ≤ 7) :
    ((2 : Int) ^ sizecode + 3) / 4 = 2 ^ (sizecode - 2) := by
  interval_cases sizecode <;> rfl

/-- The sector that holds a block, by the division of the track. -/
structure HoldsBlock (sects inSide : Int) (sizecode : Nat) (filling : Filling) : Prop where
  ssize : filling.ssize = 2 ^ sectorShift sects inSide (sizecode - 2)
  code : filling.sizecode =
    sizecode - (sizecode - 2 : Nat) + sectorShift sects inSide (sizecode - 2)
  tracksize : filling.tracksize =
    int32 (sects - sects % 2 ^ sectorShift sects inSide (sizecode - 2))

section Track

variable {sects inSide : Int} {sizecode : Nat} {filling : Filling}

theorem holds_of_largest (inside : inSide < sects - sects % 2 ^ (sizecode - 2))
    (ssize : filling.ssize = 2 ^ (sizecode - 2)) (code : filling.sizecode = sizecode)
    (tracksize : filling.tracksize = int32 (sects - sects % 2 ^ (sizecode - 2))) :
    HoldsBlock sects inSide sizecode filling := by
  have largest : sectorShift sects inSide (sizecode - 2) = sizecode - 2 :=
    sectorShift_eq (Nat.le_refl _) inside (fun i above below => absurd above (by omega))
  refine ⟨by rw [largest, ssize], ?_, by rw [largest, tracksize]⟩
  rw [largest, code]
  omega

theorem Divided.holds (divided : Divided sects inSide (sizecode - 2) filling
      (sectorShift sects inSide (sizecode - 2))) (large : 2 ≤ sizecode)
    (nonneg : 0 ≤ sects) (small : sects < 2147483648) :
    HoldsBlock sects inSide sizecode filling := by
  have leftover := leftover_bounds nonneg (sectorShift sects inSide (sizecode - 2))
  refine ⟨divided.ssize, ?_, ?_⟩
  · rw [divided.sizecode]
    omega
  · rw [divided.tracksize, int32_of_bounds (by omega) (by omega)]

/-- However large the track is said to be, its division is found. -/
theorem fillTrack_spec (sizecode_le : sizecode ≤ 7) (nonneg : 0 ≤ inSide) (inSide_lt : inSide < 256)
    (inside : inSide < sects) (sects_lt : sects < 4294967296) (sectbase : Int) :
    ∃ filling, fillTrack sects inSide sectbase sizecode =
        .ok (decide (sects % 2 ^ (sizecode - 2) ≠ 0), filling) ∧
      HoldsBlock sects inSide sizecode filling := by
  have leftover := leftover_bounds (by omega : 0 ≤ sects) (sizecode - 2)
  have bound := two_pow_le (by omega : sizecode - 2 ≤ 5)
  have tracksize : uint32 (int32 (sects - sects % 2 ^ (sizecode - 2))) =
      sects - sects % 2 ^ (sizecode - 2) := by
    rw [uint32_int32, uint32_of_bounds (by omega) (by omega)]
  simp only [fillTrack, Int.toNat_natCast, ssize_eq sizecode_le, udiv_of_pos (two_pow_pos _),
    ok_bind, tracksize]
  by_cases even : sects % 2 ^ (sizecode - 2) = 0
  · rw [if_neg (by omega), decide_eq_false (by simpa using even)]
    exact ⟨_, rfl, holds_of_largest (by omega) rfl rfl rfl⟩
  · rw [if_pos (by omega), decide_eq_true (by simpa using even)]
    by_cases reached : inSide < sects - sects % 2 ^ (sizecode - 2)
    · rw [fillUp,
        loop_of_false (by simp only [unreached, tracksize, decide_eq_false_iff_not]; omega)]
      exact ⟨_, rfl, holds_of_largest reached rfl rfl rfl⟩
    · -- the block is among the last ones, so there are not many
      have large : 2 ≤ sizecode := by
        by_contra none
        obtain rfl | rfl : sizecode = 0 ∨ sizecode = 1 := by omega
        all_goals simp at even
      have small : sects < 2147483648 := by omega
      have exact_int : int32 (sects - sects % 2 ^ (sizecode - 2)) =
          sects - sects % 2 ^ (sizecode - 2) := int32_of_bounds (by omega) (by omega)
      have start : ∀ sector sectPerTrack, Divided sects inSide (sizecode - 2)
          ⟨sector, sectPerTrack, sizecode, 2 ^ (sizecode - 2),
            int32 (sects - sects % 2 ^ (sizecode - 2))⟩ (sizecode - 2) := by
        intro sector sectPerTrack
        exact ⟨Nat.le_refl _, rfl, by simp only; omega, exact_int,
          fun i above below => absurd above (by omega)⟩
      rcases fillUp_spec (start _ _) (by omega) inside small nonneg inSide_lt with
        ⟨filled, run, divided⟩
      exact ⟨filled, by rw [run]; rfl, divided.holds large (by omega) small⟩

end Track

section Command

variable (floppy : FloppyStruct) (input : RwInput) (req : Request)
  (track head inSide fsectorT : Int)

/-- The size of the sector of the controller that holds a block, as a power of two. -/
def blockShift : Nat :=
  sectorShift floppy.sects inSide (sectorCode floppy track head - 2)

/-- What the bytes of the command and the limits come to. -/
structure LaidOut (layout : Layout) : Prop where
  sector_eq : layout.fsectorT = fsectorT
  track_eq : layout.cmd.track = track
  head_eq : layout.cmd.head = head
  seek_eq : layout.cmd.seekTrack = track * 2 ^ floppy.stretchShift
  command_eq : layout.cmd.command = req.command floppy
  code_eq : layout.cmd.sizecode = sectorCode floppy track head -
    (sectorCode floppy track head - 2 : Nat) + blockShift floppy track head inSide
  size_eq : layout.ssize = 2 ^ blockShift floppy track head inSide
  offset_eq : layout.inSectorOffset = inSide % 2 ^ blockShift floppy track head inSide
  limit_eq : layout.maxSector = runLimit floppy input req track head fsectorT
    (decide (floppy.sects % 2 ^ (sectorCode floppy track head - 2) ≠ 0))
    (int32 (floppy.sects - floppy.sects % 2 ^ blockShift floppy track head inSide))

variable {floppy track head inSide}

theorem sectorCode_le : sectorCode floppy track head ≤ 7 := by
  rw [sectorCode]
  split_ifs
  · omega
  · exact Nat.le_of_lt_succ (Nat.mod_lt _ (by omega))

theorem blockShift_le : blockShift floppy track head inSide ≤ 5 := by
  have shift_le : blockShift floppy track head inSide ≤ sectorCode floppy track head - 2 :=
    sectorShift_le
  have code_le : sectorCode floppy track head ≤ 7 := sectorCode_le
  omega

theorem layOut_spec (nonneg : 0 ≤ inSide) (inSide_lt : inSide < 256)
    (inside : inSide < floppy.sects) :
    ∃ layout, layOut floppy input req track head inSide fsectorT = .ok layout ∧
      LaidOut floppy input req track head inSide fsectorT layout := by
  have sects_lt : floppy.sects < 4294967296 := by
    have := floppy.sect.isLt
    simp only [FloppyStruct.sects]
    omega
  rcases fillTrack_spec sectorCode_le nonneg inSide_lt inside sects_lt floppy.sectbase.toNat with
    ⟨filling, run, holds⟩
  have ssize : filling.ssize = 2 ^ blockShift floppy track head inSide := holds.ssize
  have bound : (2 : Int) ^ blockShift floppy track head inSide ≤ 32 := two_pow_le blockShift_le
  have offset := Int.emod_lt_of_pos inSide (two_pow_pos (blockShift floppy track head inSide))
  have offset_nonneg := Int.emod_nonneg inSide
    (two_pow_pos (blockShift floppy track head inSide)).ne'
  simp only [layOut, run, ok_bind, ssize, udiv_of_pos (two_pow_pos _)]
  exact ⟨_, rfl, rfl, rfl, rfl, rfl, rfl, holds.code, rfl,
    uchar_of_bounds offset_nonneg (by omega), by simp only [holds.tracksize]; rfl⟩

end Command

end Gray386.Floppy
