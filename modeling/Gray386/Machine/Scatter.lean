import Gray386.Machine.Buffer

/-!
# Ranges of memory

Data need not be in one place: it may be scattered over some ranges, one after the other.
`addressAt` is where a byte of it is. `copyOut` distributes contiguous bytes to the ranges and
`copyIn` collects them, range by range and up to a number of bytes that need not be that of all
ranges.

A byte is at a different address than any other byte if no two ranges meet, and a copy leaves
everything else in memory as it is.
-/

namespace Gray386.Machine

/-- Some bytes, by the address of the first one and their number. -/
structure Range where
  start : Nat
  count : Nat
  deriving DecidableEq, Repr

namespace Range

def Contains (range : Range) (address : Nat) : Prop :=
  range.start ≤ address ∧ address < range.start + range.count

instance (range : Range) (address : Nat) : Decidable (range.Contains address) :=
  inferInstanceAs (Decidable (_ ∧ _))

/-- No address is in both. -/
def Apart (range other : Range) : Prop :=
  ∀ address, range.Contains address → ¬other.Contains address

theorem Apart.symm {range other : Range} (apart : range.Apart other) : other.Apart range :=
  fun address inOther inRange => apart address inRange inOther

end Range

namespace Buffer

/-- A range of one buffer in the place of a range of another one. -/
def splice (buffer other : Buffer) (target source count : Nat) : Buffer := fun offset =>
  if (Range.mk target count).Contains offset then other (source + (offset - target))
  else buffer offset

theorem splice_of_contains {buffer other : Buffer} {target source count : Nat} {i : Nat}
    (lt : i < count) :
    buffer.splice other target source count (target + i) = other (source + i) := by
  rw [splice, if_pos ⟨Nat.le_add_right _ _, Nat.add_lt_add_left lt _⟩, Nat.add_sub_cancel_left]

theorem splice_of_not {buffer other : Buffer} {target source count offset : Nat}
    (outside : ¬(Range.mk target count).Contains offset) :
    buffer.splice other target source count offset = buffer offset :=
  if_neg outside

end Buffer

/-- Where a byte of the data is. -/
def addressAt : List Range → Nat → Nat
  | [], _ => 0
  | range :: rest, i =>
      if i < range.count then range.start + i else addressAt rest (i - range.count)

/-- The number of bytes. -/
def totalCount (ranges : List Range) : Nat := (ranges.map Range.count).sum

theorem totalCount_cons (range : Range) (rest : List Range) :
    totalCount (range :: rest) = range.count + totalCount rest := rfl

/-- No two ranges meet. -/
def Scattered (ranges : List Range) : Prop := ranges.Pairwise Range.Apart

/-- The ranges do not meet another one. -/
def AllApart (ranges : List Range) (other : Range) : Prop := ∀ range ∈ ranges, range.Apart other

theorem addressAt_mem {ranges : List Range} {i : Nat} (lt : i < totalCount ranges) :
    ∃ range ∈ ranges, range.Contains (addressAt ranges i) := by
  induction ranges generalizing i with
  | nil => simp [totalCount] at lt
  | cons range rest ih =>
      rw [addressAt]
      split_ifs with here
      · exact ⟨range, by simp, by omega, by omega⟩
      · rw [totalCount_cons] at lt
        rcases ih (i := i - range.count) (by omega) with ⟨found, mem, contains⟩
        exact ⟨found, by simp [mem], contains⟩

theorem AllApart.addressAt {ranges : List Range} {other : Range} (apart : AllApart ranges other)
    {i : Nat} (lt : i < totalCount ranges) : ¬other.Contains (addressAt ranges i) := by
  rcases addressAt_mem lt with ⟨range, mem, contains⟩
  exact apart range mem _ contains

/-- No byte is at the address of another one. -/
theorem addressAt_inj {ranges : List Range} (scattered : Scattered ranges) {i j : Nat}
    (i_lt : i < totalCount ranges) (j_lt : j < totalCount ranges)
    (same : addressAt ranges i = addressAt ranges j) : i = j := by
  induction ranges generalizing i j with
  | nil => simp [totalCount] at i_lt
  | cons range rest ih =>
      rcases List.pairwise_cons.mp scattered with ⟨first, others⟩
      have elsewhere {k : Nat} (behind : range.count ≤ k) (k_lt : k < totalCount (range :: rest)) :
          ¬range.Contains (addressAt rest (k - range.count)) := by
        rw [totalCount_cons] at k_lt
        exact AllApart.addressAt (fun later mem => (first later mem).symm) (by omega)
      rw [addressAt, addressAt] at same
      split_ifs at same with i_here j_here j_here
      · omega
      · exact absurd ⟨by omega, by omega⟩ (same ▸ elsewhere (by omega) j_lt)
      · exact absurd ⟨by omega, by omega⟩ (same ▸ elsewhere (by omega) i_lt)
      · rw [totalCount_cons] at i_lt j_lt
        have := ih others (by omega) (by omega) same
        omega

/-- The ranges without the first bytes. -/
def dropBytes : List Range → Nat → List Range
  | [], _ => []
  | range :: rest, n =>
      if n < range.count then ⟨range.start + n, range.count - n⟩ :: rest
      else dropBytes rest (n - range.count)

theorem totalCount_dropBytes (ranges : List Range) (n : Nat) :
    totalCount (dropBytes ranges n) = totalCount ranges - n := by
  induction ranges generalizing n with
  | nil => simp [dropBytes, totalCount]
  | cons range rest ih =>
      rw [dropBytes, totalCount_cons]
      split_ifs
      · rw [totalCount_cons]
        simp only
        omega
      · rw [ih]
        omega

theorem addressAt_dropBytes (ranges : List Range) (n i : Nat) :
    addressAt (dropBytes ranges n) i = addressAt ranges (n + i) := by
  induction ranges generalizing n i with
  | nil => rfl
  | cons range rest ih =>
      rw [dropBytes, addressAt]
      by_cases inside : n < range.count
      · rw [if_pos inside, addressAt]
        by_cases here : n + i < range.count
        · rw [if_pos here, if_pos (by simp only; omega)]
          simp only
          omega
        · rw [if_neg here, if_neg (by simp only; omega)]
          congr 1
          simp only
          omega
      · rw [if_neg inside, if_neg (by omega), ih]
        congr 1
        omega

/-- What is left lies in the ranges there were. -/
theorem mem_dropBytes {ranges : List Range} {n : Nat} {range : Range}
    (mem : range ∈ dropBytes ranges n) :
    ∃ whole ∈ ranges, whole.start ≤ range.start ∧
      range.start + range.count = whole.start + whole.count := by
  induction ranges generalizing n with
  | nil => simp [dropBytes] at mem
  | cons first rest ih =>
      rw [dropBytes] at mem
      split_ifs at mem with inside
      · rcases List.mem_cons.mp mem with rfl | later
        · exact ⟨first, List.mem_cons_self, by simp only; omega, by simp only; omega⟩
        · exact ⟨range, List.mem_cons_of_mem _ later, le_rfl, rfl⟩
      · rcases ih mem with ⟨whole, found, bounds⟩
        exact ⟨whole, List.mem_cons_of_mem _ found, bounds⟩

theorem Scattered.dropBytes {ranges : List Range} (scattered : Scattered ranges) (n : Nat) :
    Scattered (dropBytes ranges n) := by
  induction ranges generalizing n with
  | nil => exact List.Pairwise.nil
  | cons range rest ih =>
      rcases List.pairwise_cons.mp scattered with ⟨first, others⟩
      rw [Machine.dropBytes]
      split_ifs
      · refine List.pairwise_cons.mpr ⟨fun later mem address contains => ?_, others⟩
        simp only [Range.Contains] at contains
        exact first later mem address ⟨by omega, by omega⟩
      · exact ih others _

/-- The ranges have some units each. -/
def Whole (unit : Nat) (ranges : List Range) : Prop :=
  ∀ range ∈ ranges, 0 < range.count ∧ unit ∣ range.count

instance (unit : Nat) (ranges : List Range) : Decidable (Whole unit ranges) :=
  inferInstanceAs (Decidable (∀ range ∈ ranges, _))

theorem Whole.tail {unit : Nat} {range : Range} {rest : List Range}
    (whole : Whole unit (range :: rest)) : Whole unit rest :=
  fun later mem => whole later (List.mem_cons_of_mem _ mem)

theorem Whole.dvd_totalCount {unit : Nat} {ranges : List Range} (whole : Whole unit ranges) :
    unit ∣ totalCount ranges := by
  induction ranges with
  | nil => exact Nat.dvd_zero unit
  | cons range rest ih =>
      rw [totalCount_cons]
      exact Nat.dvd_add (whole range List.mem_cons_self).2 (ih whole.tail)

theorem dropBytes_zero {unit : Nat} {ranges : List Range} (whole : Whole unit ranges) :
    dropBytes ranges 0 = ranges := by
  cases ranges with
  | nil => rfl
  | cons range rest => rw [dropBytes, if_pos (whole range List.mem_cons_self).1]; rfl

theorem Whole.dropBytes {unit : Nat} {ranges : List Range} (whole : Whole unit ranges) {n : Nat}
    (dvd : unit ∣ n) : Whole unit (dropBytes ranges n) := by
  induction ranges generalizing n with
  | nil => exact whole
  | cons range rest ih =>
      have first := whole range List.mem_cons_self
      rw [Machine.dropBytes]
      split_ifs with inside
      · intro later mem
        rcases List.mem_cons.mp mem with rfl | mem
        · exact ⟨Nat.sub_pos_of_lt inside, Nat.dvd_sub first.2 dvd⟩
        · exact whole later (List.mem_cons_of_mem _ mem)
      · exact ih whole.tail (Nat.dvd_sub dvd first.2)

theorem totalCount_append (ranges others : List Range) :
    totalCount (ranges ++ others) = totalCount ranges + totalCount others := by
  simp [totalCount]

theorem dropBytes_append_of_lt {ranges : List Range} (others : List Range) {n : Nat}
    (lt : n < totalCount ranges) :
    dropBytes (ranges ++ others) n = dropBytes ranges n ++ others := by
  induction ranges generalizing n with
  | nil => simp [totalCount] at lt
  | cons range rest ih =>
      rw [totalCount_cons] at lt
      rw [List.cons_append, dropBytes, dropBytes]
      split_ifs with inside
      · rfl
      · exact ih (by omega)

theorem dropBytes_append_of_ge {ranges : List Range} (others : List Range) {n : Nat}
    (ge : totalCount ranges ≤ n) :
    dropBytes (ranges ++ others) n = dropBytes others (n - totalCount ranges) := by
  induction ranges generalizing n with
  | nil => rfl
  | cons range rest ih =>
      rw [totalCount_cons] at ge ⊢
      rw [List.cons_append, dropBytes, if_neg (by omega), ih (by omega), Nat.sub_sub]

theorem AllApart.dropBytes {ranges : List Range} {other : Range} (apart : AllApart ranges other)
    (n : Nat) : AllApart (dropBytes ranges n) other := by
  intro range mem address contains
  rcases mem_dropBytes mem with ⟨whole, found, lower, upper⟩
  simp only [Range.Contains] at contains
  exact apart whole found address ⟨by omega, by omega⟩

/-- Distribute so many bytes, from `source` on. -/
def copyOut (memory : Buffer) : List Range → Nat → Nat → Buffer
  | [], _, _ => memory
  | range :: rest, remaining, source =>
      let count := min range.count remaining
      copyOut (memory.splice memory range.start source count) rest (remaining - count)
        (source + count)

/-- Collect so many bytes, from `target` on. -/
def copyIn (memory : Buffer) : List Range → Nat → Nat → Buffer
  | [], _, _ => memory
  | range :: rest, remaining, target =>
      let count := min range.count remaining
      copyIn (memory.splice memory target range.start count) rest (remaining - count)
        (target + count)

theorem copyOut_of_outside {memory : Buffer} {ranges : List Range} {remaining source address : Nat}
    (outside : ∀ range ∈ ranges, ¬range.Contains address) :
    copyOut memory ranges remaining source address = memory address := by
  induction ranges generalizing memory remaining source with
  | nil => rfl
  | cons range rest ih =>
      rw [copyOut, ih fun later mem => outside later (List.mem_cons_of_mem _ mem)]
      apply Buffer.splice_of_not
      intro inside
      apply outside range List.mem_cons_self
      simp only [Range.Contains] at inside ⊢
      omega

/-- Only so many bytes are written. -/
theorem copyOut_of_ne {memory : Buffer} {ranges : List Range} {remaining source address : Nat}
    (ne : ∀ i < remaining, i < totalCount ranges → addressAt ranges i ≠ address) :
    copyOut memory ranges remaining source address = memory address := by
  induction ranges generalizing memory remaining source with
  | nil => rfl
  | cons range rest ih =>
      rw [copyOut, ih]
      · apply Buffer.splice_of_not
        rintro ⟨lower, upper⟩
        simp only at lower upper
        refine ne (address - range.start) (by omega) (by rw [totalCount_cons]; omega) ?_
        rw [addressAt, if_pos (by omega)]
        omega
      · intro i lt inside
        have there := ne (range.count + i) (by omega) (by rw [totalCount_cons]; omega)
        rw [addressAt, if_neg (by omega), Nat.add_sub_cancel_left] at there
        exact there

/-- The bytes arrive where the data is. -/
theorem copyOut_addressAt {memory : Buffer} {ranges : List Range} {remaining source i : Nat}
    (scattered : Scattered ranges) (apart : AllApart ranges ⟨source, remaining⟩)
    (lt : i < remaining) (inside : i < totalCount ranges) :
    copyOut memory ranges remaining source (addressAt ranges i) = memory (source + i) := by
  induction ranges generalizing memory remaining source i with
  | nil => simp [totalCount] at inside
  | cons range rest ih =>
      rcases List.pairwise_cons.mp scattered with ⟨first, others⟩
      have range_apart := apart range List.mem_cons_self
      rw [copyOut, addressAt]
      split_ifs with here
      · rw [copyOut_of_outside, Buffer.splice_of_contains (by omega)]
        intro later mem contains
        exact first later mem _ ⟨by omega, by omega⟩ contains
      · rw [totalCount_cons] at inside
        have count_eq : min range.count remaining = range.count := by omega
        rw [count_eq, ih others _ (by omega) (by omega), Buffer.splice_of_not]
        · congr 1
          omega
        · intro contains
          refine range_apart _ contains ⟨?_, ?_⟩ <;> simp only <;> omega
        · intro later mem address inLater inSource
          refine apart later (List.mem_cons_of_mem _ mem) address inLater ?_
          simp only [Range.Contains] at inSource ⊢
          omega

theorem copyIn_of_outside {memory : Buffer} {ranges : List Range} {remaining target address : Nat}
    (outside : ¬(Range.mk target remaining).Contains address) :
    copyIn memory ranges remaining target address = memory address := by
  induction ranges generalizing memory remaining target with
  | nil => rfl
  | cons range rest ih =>
      simp only [Range.Contains] at outside ih
      rw [copyIn, ih (by omega)]
      apply Buffer.splice_of_not
      simp only [Range.Contains]
      omega

/-- The data is collected. -/
theorem copyIn_add {memory : Buffer} {ranges : List Range} {remaining target i : Nat}
    (apart : AllApart ranges ⟨target, remaining⟩) (lt : i < remaining)
    (inside : i < totalCount ranges) :
    copyIn memory ranges remaining target (target + i) = memory (addressAt ranges i) := by
  induction ranges generalizing memory remaining target i with
  | nil => simp [totalCount] at inside
  | cons range rest ih =>
      have rest_apart : AllApart rest ⟨target, remaining⟩ :=
        fun later mem => apart later (List.mem_cons_of_mem _ mem)
      rw [copyIn, addressAt]
      split_ifs with here
      · rw [copyIn_of_outside, Buffer.splice_of_contains (by omega)]
        simp only [Range.Contains]
        omega
      · rw [totalCount_cons] at inside
        have count_eq : min range.count remaining = range.count := by omega
        obtain ⟨k, rfl⟩ : ∃ k, i = range.count + k := ⟨i - range.count, by omega⟩
        rw [count_eq, ← Nat.add_assoc, ih _ (by omega) (by omega), Nat.add_sub_cancel_left,
          Buffer.splice_of_not]
        · intro contains
          refine rest_apart.addressAt (i := k) (by omega) ?_
          simp only [Range.Contains] at contains ⊢
          omega
        · intro later mem address inLater inTarget
          refine rest_apart later mem address inLater ?_
          simp only [Range.Contains] at inTarget ⊢
          omega

end Gray386.Machine
