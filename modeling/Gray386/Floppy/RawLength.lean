import Gray386.Floppy.RawCommand

/-!
# How long the buffer of a raw command may be

`raw_cmd_copyin` refuses a length from `MAX_LEN` on, which is meant to keep it from asking
the page allocator for more than there can be in one block. But the blocks have orders
below `MAX_ORDER`, so that the largest one has half the size of `MAX_LEN`. For a length in
between `get_order` is `MAX_ORDER`, and the allocator warns.
-/

namespace Gray386.Floppy

open Gray386.Machine

def maxOrder : Nat := 11
def pageShift : Nat := 12

/-- The bytes of the largest block, `2^(MAX_ORDER - 1)` pages. -/
def largestBlock : Nat := 2 ^ (maxOrder - 1) * 2 ^ pageShift

/-- The position of the highest bit that is set, counted from 1. -/
def fls (x : Word) : Nat :=
  if x = 0 then 0 else x.toNat.log2 + 1

/-- `__get_order`, to which `get_order` leads if the size is not a constant. -/
def getOrder (size : Word) : Nat :=
  fls ((size - 1) >>> pageShift)

/-- `fd_dma_mem_alloc`: the order of the pages that are asked for, unless `vmalloc` is used. -/
def fdDmaMemAllocOrder (useVirtualDma : Bool) (size : Word) : Option Nat :=
  if useVirtualDma then none else some (getOrder size)

/-- `__alloc_pages_slowpath` warns. No block of such an order is on a free list before. -/
def slowpathWarns (order : Nat) : Bool :=
  maxOrder ≤ order

theorem fls_le_iff (x : Word) (bound : Nat) : fls x ≤ bound ↔ x.toNat < 2 ^ bound := by
  simp only [fls]
  split_ifs with zero
  · subst zero
    simp
  · have positive : x.toNat ≠ 0 := by simpa [BitVec.toNat_eq] using zero
    rw [Nat.add_one_le_iff, Nat.log2_lt positive]

/-- A size has an order of the allocator if and only if it fits the largest block. -/
theorem getOrder_lt_maxOrder_iff {size : Word} (positive : 0 < size.toNat) :
    getOrder size < maxOrder ↔ size.toNat ≤ largestBlock := by
  have pred : (size - 1).toNat = size.toNat - 1 := by
    have := size.isLt
    rw [BitVec.toNat_sub]
    simp
    omega
  rw [show getOrder size < maxOrder ↔ getOrder size ≤ maxOrder - 1 from
    Nat.lt_iff_le_pred (by decide), getOrder, fls_le_iff, BitVec.toNat_ushiftRight, pred,
    Nat.shiftRight_eq_div_pow]
  simp only [maxOrder, pageShift, largestBlock]
  omega

/-- The length of a record is not refused. -/
def PastLengthCheck (supply : Supply) (canUseVirtualDma : Nat) (record : FloppyRawCmd) : Prop :=
  (supply.provide canUseVirtualDma record).1 ≠ -einval

theorem pastLengthCheck_iff {record : FloppyRawCmd}
    (transfers : record.has (fdRawRead ||| fdRawWrite) = true) (supply : Supply)
    (canUseVirtualDma : Nat) :
    PastLengthCheck supply canUseVirtualDma record ↔
      0 < record.length.toNat ∧ record.length.toNat < 2 * largestBlock := by
  have refused : (record.length.toInt ≤ 0 ∨ maxLen ≤ record.length) ↔
      ¬(0 < record.length.toNat ∧ record.length.toNat < 2 * largestBlock) := by
    have limit : maxLen.toNat = 2 * largestBlock := by decide
    have := record.length.isLt
    rw [BitVec.le_def, limit, BitVec.toInt_eq_toNat_cond]
    simp only [largestBlock, maxOrder, pageShift]
    split_ifs <;> omega
  simp only [PastLengthCheck, Supply.provide, transfers, if_true, refused]
  by_cases within : 0 < record.length.toNat ∧ record.length.toNat < 2 * largestBlock
  · rw [if_neg (not_not_intro within)]
    refine iff_of_true ?_ within
    split_ifs <;> simp [einval, enomem, efault]
  · rw [if_pos within]
    exact iff_of_false (fun differs => differs rfl) within

/--
The limit of `raw_cmd_copyin` is that of the allocator: a length that is let through has an
order that the allocator has, so that it does not warn, and a length that fits the largest
block is let through.
-/
structure LimitFits (supply : Supply) (canUseVirtualDma : Nat) (record : FloppyRawCmd) :
    Prop where
  order_lt : PastLengthCheck supply canUseVirtualDma record →
    getOrder record.length < maxOrder
  quiet : PastLengthCheck supply canUseVirtualDma record →
    ∀ useVirtualDma, ∀ order ∈ fdDmaMemAllocOrder useVirtualDma record.length,
      slowpathWarns order = false
  passes : 0 < record.length.toInt → record.length.toInt ≤ largestBlock →
    PastLengthCheck supply canUseVirtualDma record

/-- For every record that transfers data the limit fits unless the length is between. -/
theorem limitFits_iff {record : FloppyRawCmd}
    (transfers : record.has (fdRawRead ||| fdRawWrite) = true) (supply : Supply)
    (canUseVirtualDma : Nat) :
    LimitFits supply canUseVirtualDma record ↔
      ¬(largestBlock < record.length.toNat ∧ record.length.toNat < 2 * largestBlock) := by
  have past := pastLengthCheck_iff transfers supply canUseVirtualDma
  constructor
  · rintro ⟨order_lt, -, -⟩ ⟨lower, upper⟩
    have positive : 0 < record.length.toNat := by omega
    have fits := (getOrder_lt_maxOrder_iff positive).mp (order_lt (past.mpr ⟨positive, upper⟩))
    omega
  · intro outside
    have order_lt : PastLengthCheck supply canUseVirtualDma record →
        getOrder record.length < maxOrder := by
      intro passed
      rcases past.mp passed with ⟨positive, upper⟩
      exact (getOrder_lt_maxOrder_iff positive).mpr (by omega)
    refine ⟨order_lt, ?_, ?_⟩
    · intro passed useVirtualDma order asked
      simp only [fdDmaMemAllocOrder, Option.mem_def, Option.ite_none_left_eq_some] at asked
      rw [slowpathWarns, ← Option.some.inj asked.2]
      simpa using order_lt passed
    · intro positive fits
      rw [past]
      rw [BitVec.toInt_eq_toNat_cond] at positive fits
      split_ifs at positive fits <;> omega

/-- A record that reads so many bytes. -/
def readOf (length : Word) : FloppyRawCmd :=
  { FloppyRawCmd.ofBytes (fun _ => 0) with flags := fdRawRead, length := length }

/-- A page is let through, and the allocator does not warn. -/
theorem limitFits_iff_page :
    (readOf 0x1000).has (fdRawRead ||| fdRawWrite) = true ∧
      ∀ supply canUseVirtualDma, LimitFits supply canUseVirtualDma (readOf 0x1000) := by
  refine ⟨by decide, ?_⟩
  intro supply canUseVirtualDma
  exact (limitFits_iff (by decide) supply canUseVirtualDma).mpr (by decide)

/-- One byte more than the largest block is let through, and the allocator warns. -/
theorem length_beyond_largestBlock_warns :
    (readOf 0x400001).length.toNat = largestBlock + 1 ∧
      ∀ supply canUseVirtualDma, PastLengthCheck supply canUseVirtualDma (readOf 0x400001) ∧
        fdDmaMemAllocOrder false (readOf 0x400001).length = some maxOrder ∧
        slowpathWarns maxOrder = true ∧
        ¬LimitFits supply canUseVirtualDma (readOf 0x400001) := by
  refine ⟨by decide, ?_⟩
  intro supply canUseVirtualDma
  have past : PastLengthCheck supply canUseVirtualDma (readOf 0x400001) :=
    (pastLengthCheck_iff (by decide) supply canUseVirtualDma).mpr (by decide)
  refine ⟨past, by decide, by decide, ?_⟩
  rintro ⟨order_lt, -, -⟩
  exact absurd (order_lt past) (by decide)

end Gray386.Floppy
