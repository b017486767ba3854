import Gray386.Floppy.RawOwnership

/-!
# What the replies to raw commands reveal

`raw_cmd_copyout` returns the records of the kernel as they are, with the address of the
buffer and the address of the next record in them.

Two calls are compared that differ only in what the allocators return. They copy the same
chain and the driver does the same to it, record by record, so that the records differ in
these two fields only. What the user sees is then the same as far as the addresses are.
-/

namespace Gray386.Floppy

open Gray386.Machine Gray386.Machine.Heap

/-- A record without what the allocators have returned. -/
def FloppyRawCmd.blank (record : FloppyRawCmd) : FloppyRawCmd :=
  { record with kernelData := 0, next := 0 }

/-- The address and the length of its buffer. -/
def FloppyRawCmd.area (record : FloppyRawCmd) : Word × Word :=
  (record.kernelData, record.bufferLength)

/-- The allocators may return other addresses, but fail in the same cases. -/
structure Supply.Twin (one two : Supply) : Prop where
  user : one.user = two.user
  copied : one.copied = two.copied
  fdCopyin : one.fdCopyin = two.fdCopyin
  kmalloc : one.kmalloc = 0 ↔ two.kmalloc = 0
  fdDmaMemAlloc : one.fdDmaMemAlloc = 0 ↔ two.fdDmaMemAlloc = 0
  nodmaMemAlloc : one.nodmaMemAlloc = 0 ↔ two.nodmaMemAlloc = 0

theorem has_eq_of_blank_eq {left right : FloppyRawCmd} (alike : left.blank = right.blank)
    (mask : Word) : left.has mask = right.has mask := by
  have flags : left.flags = right.flags :=
    (congrArg FloppyRawCmd.flags alike : left.blank.flags = right.blank.flags)
  rw [FloppyRawCmd.has, FloppyRawCmd.has, flags]

/-- The end of the loop in `raw_cmd_copyin`. -/
def maskRate (settled : Int × FloppyRawCmd × Option (Word × Word)) :
    Int × FloppyRawCmd × Option (Word × Word) :=
  if settled.1 = 0 && settled.2.1.has fdRawMore then
    (settled.1, { settled.2.1 with rate := settled.2.1.rate &&& 0x43 }, settled.2.2)
  else settled

theorem settle_eq_maskRate (supply : Supply) (canUseVirtualDma : Nat) (record : FloppyRawCmd) :
    supply.settle canUseVirtualDma record =
      if 33 < record.cmdCount.toNat then
        (-einval, { record with next := 0, bufferLength := 0 }, none)
      else
        maskRate (supply.provide canUseVirtualDma { record with
          next := 0
          bufferLength := 0
          reply := Vector.replicate 16 0
          resultcode := 0
          kernelData := 0 }) := rfl

/-- The record of the kernel, when it has been copied. -/
def Supply.settled (supply : Supply) (canUseVirtualDma : Nat) :
    Int × FloppyRawCmd × Option (Word × Word) :=
  supply.settle canUseVirtualDma (supply.copyFromUser true).2

namespace Supply.Twin

variable {one two : Supply} {canUseVirtualDma : Nat}

theorem copyFromUser_eq (twin : one.Twin two) (accessOk : Bool) :
    one.copyFromUser accessOk = two.copyFromUser accessOk := by
  simp only [Supply.copyFromUser, twin.user, twin.copied]

theorem allocate_eq_zero_iff (twin : one.Twin two) :
    one.allocate canUseVirtualDma = 0 ↔ two.allocate canUseVirtualDma = 0 := by
  have dma := twin.fdDmaMemAlloc
  have nodma := twin.nodmaMemAlloc
  simp only [Supply.allocate]
  split_ifs <;> tauto

theorem provide_eq (twin : one.Twin two) (record : FloppyRawCmd) :
    (one.provide canUseVirtualDma record).1 = (two.provide canUseVirtualDma record).1 ∧
      (one.provide canUseVirtualDma record).2.1.blank =
        (two.provide canUseVirtualDma record).2.1.blank := by
  have null : one.allocate canUseVirtualDma = 0 ↔ two.allocate canUseVirtualDma = 0 :=
    twin.allocate_eq_zero_iff
  have writes : ∀ data, FloppyRawCmd.has
      { record with kernelData := data, bufferLength := record.length } fdRawWrite =
        record.has fdRawWrite := fun _ => rfl
  simp only [Supply.provide, null, twin.fdCopyin, writes]
  split_ifs <;> exact ⟨rfl, rfl⟩

/-- The rate is masked in a record that is followed by another one. -/
theorem maskRate_eq {left right : Int × FloppyRawCmd × Option (Word × Word)}
    (ret_eq : left.1 = right.1) (alike : left.2.1.blank = right.2.1.blank) :
    (maskRate left).1 = (maskRate right).1 ∧
      (maskRate left).2.1.blank = (maskRate right).2.1.blank := by
  have more : left.2.1.has fdRawMore = right.2.1.has fdRawMore := has_eq_of_blank_eq alike fdRawMore
  simp only [maskRate, ret_eq, more]
  split_ifs
  · exact ⟨rfl, congrArg (fun record => { record with rate := record.rate &&& 0x43 }) alike⟩
  · exact ⟨ret_eq, alike⟩

theorem settled_eq (twin : one.Twin two) (canUseVirtualDma : Nat) :
    (one.settled canUseVirtualDma).1 = (two.settled canUseVirtualDma).1 ∧
      (one.settled canUseVirtualDma).2.1.blank = (two.settled canUseVirtualDma).2.1.blank := by
  rw [Supply.settled, Supply.settled, twin.copyFromUser_eq, settle_eq_maskRate, settle_eq_maskRate]
  split_ifs
  · exact ⟨rfl, rfl⟩
  · rcases twin.provide_eq _ with ⟨ret_eq, alike⟩
    exact maskRate_eq ret_eq alike

end Supply.Twin

/-- A record of the kernel with its link, when there are so many of them. -/
def linkedRecord (canUseVirtualDma : Nat) (supply : Nat → Supply) (count index : Nat) :
    FloppyRawCmd :=
  { ((supply index).settled canUseVirtualDma).2.1 with
    next := if index + 1 < count then (supply (index + 1)).kmalloc else 0 }

/-- So many records have been copied, and the next one is to be linked to the last. -/
structure Copyin.Holds (st : Copyin) (canUseVirtualDma : Nat) (supply : Nat → Supply)
    (count : Nat) : Prop where
  row : Row FloppyRawCmd.next 0 st.heap count (fun index => (supply index).kmalloc)
    (linkedRecord canUseVirtualDma supply count)
  head_eq : st.head = if 0 < count then (supply 0).kmalloc else 0
  slot_eq : st.slot = if 0 < count then some (supply (count - 1)).kmalloc else none

section Holds

variable {canUseVirtualDma : Nat} {supply : Nat → Supply} {count : Nat} {st : Copyin}

theorem holds_start : Copyin.start.Holds canUseVirtualDma supply 0 where
  row := ⟨by simp, by simp, by simp, by simp⟩
  head_eq := rfl
  slot_eq := rfl

theorem Copyin.Holds.lookup_publish (holds : st.Holds canUseVirtualDma supply count) (ptr : Word)
    {index : Nat} (index_lt : index < count) :
    (st.publish ptr).heap.lookup (supply index).kmalloc =
      some { ((supply index).settled canUseVirtualDma).2.1 with
        next := if index + 1 < count then (supply (index + 1)).kmalloc else ptr } := by
  have slot_eq := holds.slot_eq
  rw [if_pos (by omega)] at slot_eq
  simp only [Copyin.publish, slot_eq, holds.row.found (count - 1) (by omega)]
  by_cases last : index = count - 1
  · subst last
    rw [AList.lookup_insert, if_neg (by omega)]
    rfl
  · have ne : (supply index).kmalloc ≠ (supply (count - 1)).kmalloc := fun same =>
      last (holds.row.apart index index_lt (count - 1) (by omega) same)
    rw [AList.lookup_insert_ne ne, holds.row.found index index_lt, linkedRecord,
      if_pos (by omega), if_pos (by omega)]

theorem Copyin.Holds.head_publish (holds : st.Holds canUseVirtualDma supply count) :
    (st.publish (supply count).kmalloc).head = (supply 0).kmalloc := by
  have slot_eq := holds.slot_eq
  cases count with
  | zero => simp only [Copyin.publish, slot_eq, Nat.lt_irrefl, if_false]
  | succ count =>
      rw [if_pos (by omega), Nat.add_sub_cancel] at slot_eq
      simp only [Copyin.publish, slot_eq, holds.row.found count (by omega), holds.head_eq]
      rw [if_pos (by omega)]

theorem settled_next (supply : Supply) (canUseVirtualDma : Nat) :
    (supply.settled canUseVirtualDma).2.1.next = 0 :=
  (settle_buffer supply canUseVirtualDma _).1

theorem Copyin.Holds.succ (holds : st.Holds canUseVirtualDma supply count)
    (distinct : ∀ {first second}, (supply first).kmalloc = (supply second).kmalloc →
      (supply first).kmalloc ≠ 0 → first = second)
    (allocated : (supply count).kmalloc ≠ 0) (buffer : Option (Word × Word)) :
    { (st.publish (supply count).kmalloc).hold (supply count).kmalloc
        ((supply count).settled canUseVirtualDma).2.1 buffer with
      slot := some (supply count).kmalloc }.Holds canUseVirtualDma supply (count + 1) := by
  have ne_null : ∀ index < count + 1, (supply index).kmalloc ≠ 0 := by
    intro index index_lt
    by_cases new : index = count
    · exact new ▸ allocated
    · exact holds.row.ne_null index (by omega)
  refine ⟨⟨ne_null, ?_, ?_, fun _ _ => rfl⟩, ?_, by simp⟩
  · intro first first_lt second second_lt same
    exact distinct same (ne_null first first_lt)
  · intro index index_lt
    by_cases new : index = count
    · subst new
      simp only [Copyin.hold, AList.lookup_insert, linkedRecord, Nat.lt_irrefl, if_false,
        ← settled_next (supply index) canUseVirtualDma]
    · have ne : (supply index).kmalloc ≠ (supply count).kmalloc := fun same =>
        new (distinct same (ne_null index index_lt))
      simp only [Copyin.hold, AList.lookup_insert_ne ne]
      rw [holds.lookup_publish _ (by omega), linkedRecord,
        if_pos (by omega : index + 1 < count + 1)]
      by_cases last : index + 1 = count
      · rw [if_neg (by omega), last]
      · rw [if_pos (by omega)]
  · rw [if_pos (by omega)]
    exact holds.head_publish

end Holds

/-- The same chain is copied in both calls, if it is copied at all. -/
structure CopiedAlike (canUseVirtualDma : Nat) (supply supply' : Nat → Supply)
    (result result' : Int × Copyin) : Prop where
  ret_eq : result.1 = result'.1
  chain : result.1 = 0 → ∃ count, 0 < count ∧ result.2.Holds canUseVirtualDma supply count ∧
    result'.2.Holds canUseVirtualDma supply' count ∧
    ∀ index < count, ((supply index).settled canUseVirtualDma).1 = 0

section Copyin

variable {canUseVirtualDma : Nat} {supply supply' : Nat → Supply}

theorem copiedAlike_of_failed {ret : Int} (failed : ret ≠ 0) (st st' : Copyin) :
    CopiedAlike canUseVirtualDma supply supply' (ret, st) (ret, st') :=
  ⟨rfl, fun succeeded => absurd succeeded failed⟩

theorem rawCmdCopyin_alike (twin : ∀ index, (supply index).Twin (supply' index))
    (distinct : ∀ {first second}, (supply first).kmalloc = (supply second).kmalloc →
      (supply first).kmalloc ≠ 0 → first = second)
    (distinct' : ∀ {first second}, (supply' first).kmalloc = (supply' second).kmalloc →
      (supply' first).kmalloc ≠ 0 → first = second)
    {room index : Nat} {st st' : Copyin} (holds : st.Holds canUseVirtualDma supply index)
    (holds' : st'.Holds canUseVirtualDma supply' index)
    (earlier : ∀ before < index, ((supply before).settled canUseVirtualDma).1 = 0) :
    CopiedAlike canUseVirtualDma supply supply'
      (rawCmdCopyin canUseVirtualDma supply room index st)
      (rawCmdCopyin canUseVirtualDma supply' room index st') := by
  induction room generalizing index st st' with
  | zero =>
      by_cases null : (supply index).kmalloc = 0
      · rw [rawCmdCopyin_of_null null, rawCmdCopyin_of_null ((twin index).kmalloc.mp null)]
        exact copiedAlike_of_failed (by decide) _ _
      · have null' := mt (twin index).kmalloc.mpr null
        rw [rawCmdCopyin_of_short (by simp) null (copyFromUser_of_not_accessOk _).1,
          rawCmdCopyin_of_short (by simp) null' (copyFromUser_of_not_accessOk _).1]
        exact copiedAlike_of_failed (by decide) _ _
  | succ room ih =>
      by_cases null : (supply index).kmalloc = 0
      · rw [rawCmdCopyin_of_null null, rawCmdCopyin_of_null ((twin index).kmalloc.mp null)]
        exact copiedAlike_of_failed (by decide) _ _
      have null' := mt (twin index).kmalloc.mpr null
      have copied_eq := (twin index).copyFromUser_eq true
      cases copied : ((supply index).copyFromUser true).1 with
      | false =>
          rw [rawCmdCopyin_of_short (by simp) null copied,
            rawCmdCopyin_of_short (by simp) null' (copied_eq ▸ copied)]
          exact copiedAlike_of_failed (by decide) _ _
      | true =>
          rcases (twin index).settled_eq canUseVirtualDma with ⟨ret_eq, alike⟩
          have more_eq := has_eq_of_blank_eq alike fdRawMore
          have next := holds.succ distinct null ((supply index).settled canUseVirtualDma).2.2
          have next' := holds'.succ distinct' null' ((supply' index).settled canUseVirtualDma).2.2
          simp only [rawCmdCopyin, copyRecord_of_complete null copied rfl,
            copyRecord_of_complete null' (copied_eq ▸ copied) rfl]
          rw [← Supply.settled, ← Supply.settled, ← ret_eq, ← more_eq]
          have accepted : ((supply index).settled canUseVirtualDma).1 = 0 →
              ∀ before < index + 1, ((supply before).settled canUseVirtualDma).1 = 0 := by
            intro zero before before_lt
            by_cases new : before = index
            · exact new ▸ zero
            · exact earlier before (by omega)
          split_ifs with more
          · rw [Bool.and_eq_true, decide_eq_true_iff] at more
            exact ih next next' (accepted more.1)
          · exact ⟨rfl, fun succeeded => ⟨index + 1, by omega, next, next', accepted succeeded⟩⟩

end Copyin

namespace DriverStep

/-- A step looks at the link to see whether there is another record, but keeps it. -/
theorem apply_alike {left right : FloppyRawCmd} (alike : left.blank = right.blank)
    (step : DriverStep) (rawCmd rawCmd' : Word) :
    (step.apply rawCmd left).1.blank = (step.apply rawCmd' right).1.blank := by
  have same : ∀ record : FloppyRawCmd, ∀ ptr,
      (step.apply ptr record).1.blank = (step.apply 0 record.blank).1.blank := by
    intro record ptr
    cases step with
    | needSeek => rfl
    | rawCmdDone flag completion => cases flag <;> rfl
  rw [same left, same right, alike]

theorem apply_area (step : DriverStep) (rawCmd : Word) (record : FloppyRawCmd) :
    (step.apply rawCmd record).1.area = record.area := by
  cases step with
  | needSeek => rfl
  | rawCmdDone flag completion => cases flag <;> rfl

theorem goesOn_alike {left right : FloppyRawCmd} (alike : left.blank = right.blank)
    (ends : left.next = 0 ↔ right.next = 0) : left.goesOn = right.goesOn := by
  simp only [FloppyRawCmd.goesOn, has_eq_of_blank_eq alike, ne_eq, ends]

/-- Both stay, or both go on to the next record. -/
theorem apply_rawCmd_alike {left right : FloppyRawCmd} (alike : left.blank = right.blank)
    (ends : left.next = 0 ↔ right.next = 0) (step : DriverStep) (rawCmd rawCmd' : Word) :
    (step.apply rawCmd left).2 = rawCmd ∧ (step.apply rawCmd' right).2 = rawCmd' ∨
      (step.apply rawCmd left).2 = left.next ∧ (step.apply rawCmd' right).2 = right.next ∧
        left.next ≠ 0 := by
  cases step with
  | needSeek => exact Or.inl ⟨rfl, rfl⟩
  | rawCmdDone flag completion =>
      cases flag with
      | false => exact Or.inl ⟨rfl, rfl⟩
      | true =>
          have completed : (left.complete completion).blank = (right.complete completion).blank :=
            apply_alike alike (.rawCmdDone true completion) 0 0
          have same : (left.complete completion).goesOn = (right.complete completion).goesOn :=
            goesOn_alike completed ends
          simp only [DriverStep.apply, same]
          split_ifs with goesOn
          · rw [← same, FloppyRawCmd.goesOn] at goesOn
            simp only [Bool.and_eq_true, decide_eq_true_iff] at goesOn
            exact Or.inr ⟨rfl, rfl, goesOn.1.1⟩
          · exact Or.inl ⟨rfl, rfl⟩

end DriverStep

/-- Two heaps with the same chain, apart from the addresses. -/
structure ChainAlike (count : Nat) (location location' : Nat → Word) (heap heap' : RawHeap)
    (record record' : Nat → FloppyRawCmd) : Prop where
  row : Row FloppyRawCmd.next 0 heap count location record
  row' : Row FloppyRawCmd.next 0 heap' count location' record'
  alike : ∀ index < count, (record index).blank = (record' index).blank

section Drive

variable {count : Nat} {location location' : Nat → Word}

theorem ChainAlike.ends {heap heap' : RawHeap} {record record' : Nat → FloppyRawCmd}
    (chain : ChainAlike count location location' heap heap' record record') {index : Nat}
    (index_lt : index < count) : (record index).next = 0 ↔ (record' index).next = 0 := by
  rw [chain.row.link_eq index index_lt, chain.row'.link_eq index index_lt]
  split_ifs with more
  · exact iff_of_false (chain.row.ne_null _ more) (chain.row'.ne_null _ more)
  · rfl

theorem ChainAlike.step {heap heap' : RawHeap} {record record' : Nat → FloppyRawCmd}
    (chain : ChainAlike count location location' heap heap' record record') {index : Nat}
    (index_lt : index < count) (step : DriverStep) :
    ChainAlike count location location'
      (heap.insert (location index) (step.apply (location index) (record index)).1)
      (heap'.insert (location' index) (step.apply (location' index) (record' index)).1)
      (Function.update record index (step.apply (location index) (record index)).1)
      (Function.update record' index (step.apply (location' index) (record' index)).1) where
  row := chain.row.update index_lt (apply_keeps step _ _).1
  row' := chain.row'.update index_lt (apply_keeps step _ _).1
  alike other other_lt := by
    by_cases same : other = index
    · subst same
      rw [Function.update_self, Function.update_self]
      exact DriverStep.apply_alike (chain.alike other other_lt) step _ _
    · rw [Function.update_of_ne same, Function.update_of_ne same]
      exact chain.alike other other_lt

theorem update_area (record : Nat → FloppyRawCmd) (index : Nat) (step : DriverStep)
    (rawCmd : Word) (other : Nat) :
    (Function.update record index (step.apply rawCmd (record index)).1 other).area =
      (record other).area := by
  by_cases same : other = index
  · subst same
    rw [Function.update_self, DriverStep.apply_area]
  · rw [Function.update_of_ne same]

/-- The driver does the same to both chains. -/
theorem drive_alike (steps : List DriverStep) {heap heap' : RawHeap}
    {record record' : Nat → FloppyRawCmd}
    (chain : ChainAlike count location location' heap heap' record record') {index : Nat}
    (index_lt : index < count) :
    ∃ final final', ChainAlike count location location' (drive steps heap (location index)).1
        (drive steps heap' (location' index)).1 final final' ∧
      ∀ index < count, (final index).area = (record index).area ∧
        (final' index).area = (record' index).area := by
  induction steps generalizing heap heap' record record' index with
  | nil => exact ⟨record, record', chain, fun _ _ => ⟨rfl, rfl⟩⟩
  | cons step rest ih =>
      have stepped := chain.step index_lt step
      have kept := update_area record index step (location index)
      have kept' := update_area record' index step (location' index)
      obtain ⟨next, next_lt, moved, moved'⟩ : ∃ next < count,
          (step.apply (location index) (record index)).2 = location next ∧
            (step.apply (location' index) (record' index)).2 = location' next := by
        rcases DriverStep.apply_rawCmd_alike (chain.alike index index_lt) (chain.ends index_lt) step
          (location index) (location' index) with ⟨stays, stays'⟩ | ⟨moved, moved', ne⟩
        · exact ⟨index, index_lt, stays, stays'⟩
        · rw [chain.row.link_eq index index_lt] at moved ne
          rw [chain.row'.link_eq index index_lt] at moved'
          split_ifs at moved moved' ne with more
          · exact ⟨index + 1, more, moved, moved'⟩
          · exact absurd rfl ne
      simp only [drive, chain.row.found index index_lt, chain.row'.found index index_lt]
      rw [moved, moved']
      rcases ih stepped next_lt with ⟨final, final', driven, same⟩
      refine ⟨final, final', driven, fun other other_lt => ?_⟩
      rw [(same other other_lt).1, (same other other_lt).2, kept, kept']
      exact ⟨rfl, rfl⟩

end Drive

/-- So many bytes of two addresses are the same. -/
def SameBytes (count : Nat) (left right : Word) : Prop :=
  (wordBytes left).take count = (wordBytes right).take count

instance (count : Nat) (left right : Word) : Decidable (SameBytes count left right) :=
  inferInstanceAs (Decidable (_ = _))

theorem length_toBytes (record : FloppyRawCmd) : record.toBytes.length = rawCmdSize := by
  simp [FloppyRawCmd.toBytes, wordBytes, rawCmdSize]

theorem toBytes_eq (record : FloppyRawCmd) :
    record.toBytes = record.blank.toBytes.take 8 ++ (wordBytes record.kernelData ++
      (wordBytes record.next ++ record.blank.toBytes.drop 16)) := by
  simp [FloppyRawCmd.toBytes, FloppyRawCmd.blank, wordBytes]

theorem take_toBytes_eq_iff {left right : FloppyRawCmd} (alike : left.blank = right.blank)
    (copied : Nat) :
    left.toBytes.take copied = right.toBytes.take copied ↔
      SameBytes (copied - 8) left.kernelData right.kernelData ∧
        SameBytes (copied - 12) left.next right.next := by
  have length_take : (right.blank.toBytes.take 8).length = 8 := by
    simp [length_toBytes, rawCmdSize]
  have length_word : ∀ word : Word, (wordBytes word).length = 4 := fun _ => rfl
  rw [toBytes_eq left, toBytes_eq right, alike]
  simp only [List.take_append, length_take, length_word, List.append_cancel_left_eq, SameBytes]
  rw [Nat.sub_sub]
  constructor
  · intro same
    rcases List.append_inj same (by simp [length_word]) with ⟨data_eq, rest_eq⟩
    exact ⟨data_eq, (List.append_inj rest_eq (by simp [length_word])).1⟩
  · rintro ⟨data_eq, next_eq⟩
    rw [data_eq, next_eq]

/-- A record and its data are copied to the end. -/
def SentWhole (kernel : Word → Byte) (copied : Nat × Nat) (record : FloppyRawCmd) : Prop :=
  rawCmdSize ≤ copied.1 ∧ ∀ bytes ∈ record.dataRead kernel, bytes.length ≤ copied.2

/-- What is written of the data of a record. -/
def dataSent (kernel : Word → Byte) (copied : Nat × Nat) (record : FloppyRawCmd) :
    List (Word × List Byte) :=
  (record.dataRead kernel).toList.map fun bytes => (record.data, bytes.take copied.2)

section Sent

variable {kernel : Word → Byte} {copied : Nat → Nat × Nat} {index : Nat} {record : FloppyRawCmd}

theorem written_of_sentWhole (param ptr : Word) (rest : List (Word × Option FloppyRawCmd))
    (sent : SentWhole kernel (copied index) record) :
    (rawCmdCopyout kernel copied index param ((ptr, some record) :: rest)).2.2 =
      (param, record.toBytes.take (copied index).1) :: (dataSent kernel (copied index) record ++
        (rawCmdCopyout kernel copied (index + 1) (param + BitVec.ofNat 32 rawCmdSize)
          rest).2.2) := by
  rcases sent with ⟨whole, data_whole⟩
  cases read : record.dataRead kernel with
  | none => simp [rawCmdCopyout, copyToUser, length_toBytes, whole, read, dataSent]
  | some bytes =>
      have data_whole := data_whole bytes read
      simp [rawCmdCopyout, copyToUser, length_toBytes, whole, read, dataSent, data_whole]

theorem written_of_not_sentWhole (param ptr : Word) (rest : List (Word × Option FloppyRawCmd))
    (stopped : ¬SentWhole kernel (copied index) record) :
    (rawCmdCopyout kernel copied index param ((ptr, some record) :: rest)).2.2 =
      (param, record.toBytes.take (copied index).1) ::
        (if rawCmdSize ≤ (copied index).1 then dataSent kernel (copied index) record else []) := by
  by_cases whole : rawCmdSize ≤ (copied index).1
  · cases read : record.dataRead kernel with
    | none => exact absurd ⟨whole, by simp [read]⟩ stopped
    | some bytes =>
        have part : ¬bytes.length ≤ (copied index).2 := fun le => stopped ⟨whole, by simpa [read]⟩
        simp [rawCmdCopyout, copyToUser, length_toBytes, whole, read, dataSent, part]
  · simp [rawCmdCopyout, copyToUser, length_toBytes, whole]

end Sent

section Copyout

variable {kernel kernel' : Word → Byte} {copied : Nat → Nat × Nat}
  {location location' : Nat → Word} {record record' : Nat → FloppyRawCmd}

/-- What is written is the same if it is for each record to which the loop comes. -/
theorem rawCmdCopyout_written_eq_iff {start count : Nat} (param : Word)
    (data_eq : ∀ index, start ≤ index → index < start + count →
      (record index).data = (record' index).data ∧
        (record index).dataRead kernel = (record' index).dataRead kernel') :
    (rawCmdCopyout kernel copied start param ((List.range' start count).map fun index =>
          (location index, some (record index)))).2.2 =
        (rawCmdCopyout kernel' copied start param ((List.range' start count).map fun index =>
          (location' index, some (record' index)))).2.2 ↔
      ∀ index, start ≤ index → index < start + count →
        (∀ earlier, start ≤ earlier → earlier < index →
          SentWhole kernel (copied earlier) (record earlier)) →
        (record index).toBytes.take (copied index).1 =
          (record' index).toBytes.take (copied index).1 := by
  induction count generalizing start param with
  | zero =>
      refine iff_of_true rfl fun index ge lt => ?_
      omega
  | succ count ih =>
      rcases data_eq start le_rfl (by omega) with ⟨address_eq, read_eq⟩
      have sent_iff : SentWhole kernel (copied start) (record start) ↔
          SentWhole kernel' (copied start) (record' start) := by
        rw [SentWhole, SentWhole, read_eq]
      have data_eq' : dataSent kernel (copied start) (record start) =
          dataSent kernel' (copied start) (record' start) := by
        rw [dataSent, dataSent, read_eq, address_eq]
      rw [List.range'_succ, List.map_cons, List.map_cons]
      by_cases sent : SentWhole kernel (copied start) (record start)
      · rw [written_of_sentWhole _ _ _ sent, written_of_sentWhole _ _ _ (sent_iff.mp sent),
          data_eq']
        simp only [List.cons.injEq, Prod.mk.injEq, true_and, List.append_cancel_left_eq]
        rw [ih _ fun index ge lt => data_eq index (by omega) (by omega)]
        constructor
        · rintro ⟨here, later⟩ index ge lt earlier
          by_cases first : index = start
          · exact first ▸ here
          · exact later index (by omega) (by omega) fun before before_ge =>
              earlier before (by omega)
        · intro all
          refine ⟨all start le_rfl (by omega) fun before ge lt => by omega, ?_⟩
          intro index ge lt earlier
          refine all index (by omega) (by omega) fun before before_ge before_lt => ?_
          by_cases first : before = start
          · exact first ▸ sent
          · exact earlier before (by omega) before_lt
      · rw [written_of_not_sentWhole _ _ _ sent,
          written_of_not_sentWhole _ _ _ (mt sent_iff.mpr sent), data_eq']
        simp only [List.cons.injEq, Prod.mk.injEq, true_and, and_true]
        constructor
        · intro here index ge lt earlier
          by_cases first : index = start
          · exact first ▸ here
          · exact absurd (earlier start le_rfl (by omega)) sent
        · intro all
          exact all start le_rfl (by omega) fun before ge lt => by omega

end Copyout

/-- What has been transferred is not longer than the buffer. -/
theorem toNat_transferred_le {record : FloppyRawCmd} (nonneg : 0 ≤ record.length.toInt)
    (le : record.length.toInt ≤ record.bufferLength.toInt) :
    (record.bufferLength - record.length).toNat ≤ record.bufferLength.toNat := by
  have := record.length.isLt
  have := record.bufferLength.isLt
  rw [BitVec.toInt_eq_toNat_cond] at nonneg le
  rw [BitVec.toInt_eq_toNat_cond] at le
  rw [BitVec.toNat_sub]
  split_ifs at nonneg le <;> omega

theorem dataRead_eq {left right : FloppyRawCmd} (alike : left.blank = right.blank)
    {kernel kernel' : Word → Byte}
    (same : left.bufferLength ≠ 0 → ∀ offset < left.bufferLength.toNat,
      kernel (left.kernelData + BitVec.ofNat 32 offset) =
        kernel' (right.kernelData + BitVec.ofNat 32 offset)) :
    left.dataRead kernel = right.dataRead kernel' := by
  have length_eq : left.length = right.length :=
    (congrArg FloppyRawCmd.length alike : left.blank.length = right.blank.length)
  have buffer_eq : left.bufferLength = right.bufferLength :=
    (congrArg FloppyRawCmd.bufferLength alike : left.blank.bufferLength = right.blank.bufferLength)
  simp only [FloppyRawCmd.dataRead, ← has_eq_of_blank_eq alike, ← length_eq, ← buffer_eq]
  split_ifs with reads
  · simp only [Bool.and_eq_true, decide_eq_true_eq] at reads
    rcases reads with ⟨⟨⟨-, buffered⟩, nonneg⟩, le⟩
    congr 1
    apply List.map_congr_left
    intro offset offset_mem
    have := toNat_transferred_le nonneg le
    have := List.mem_range.mp offset_mem
    exact same buffered offset (by omega)
  · rfl

theorem maskRate_area (settled : Int × FloppyRawCmd × Option (Word × Word)) :
    (maskRate settled).1 = settled.1 ∧ (maskRate settled).2.1.area = settled.2.1.area := by
  unfold maskRate
  split_ifs <;> exact ⟨rfl, rfl⟩

theorem provide_area {supply : Supply} {canUseVirtualDma : Nat} {record : FloppyRawCmd}
    (empty : record.area = (0, 0)) (accepted : (supply.provide canUseVirtualDma record).1 = 0) :
    (supply.provide canUseVirtualDma record).2.1.area =
      if record.has (fdRawRead ||| fdRawWrite) then
        (supply.allocate canUseVirtualDma, record.length)
      else (0, 0) := by
  simp only [Supply.provide] at accepted ⊢
  split_ifs at accepted ⊢ with transfers
  · simp [einval] at accepted
  · simp [enomem] at accepted
  · simp [efault] at accepted
  · rfl
  · exact empty

theorem settled_area {supply : Supply} {canUseVirtualDma : Nat}
    (accepted : (supply.settled canUseVirtualDma).1 = 0) :
    (supply.settled canUseVirtualDma).2.1.area =
      if (supply.copyFromUser true).2.has (fdRawRead ||| fdRawWrite) then
        (supply.allocate canUseVirtualDma, (supply.copyFromUser true).2.length)
      else (0, 0) := by
  rw [Supply.settled, settle_eq_maskRate] at accepted ⊢
  by_cases long : 33 < (supply.copyFromUser true).2.cmdCount.toNat
  · simp [long, einval] at accepted
  · rw [if_neg long] at accepted ⊢
    rw [(maskRate_area _).1] at accepted
    rw [(maskRate_area _).2]
    exact provide_area rfl accepted

namespace RawCmdCall

variable (call : RawCmdCall)

/-- The chain of nodes when `raw_cmd_copyout` is called. -/
def chain : List (Word × Option FloppyRawCmd) :=
  if call.reset || call.copyin.1 ≠ 0 then []
  else visit FloppyRawCmd.next 0 (drive call.steps call.copyin.2.heap call.copyin.2.head).1
    call.copyin.2.head

/-- `raw_cmd_copyout` comes to a record. -/
def CopiesOut (index : Nat) : Prop :=
  index < call.chain.length ∧ ∀ earlier < index, ∀ ptr record,
    call.chain[earlier]? = some (ptr, some record) →
      SentWhole call.kernel (call.copiedOut earlier) record

theorem written_eq :
    (rawCmdIoctl call).written =
      (rawCmdCopyout call.kernel call.copiedOut 0 call.param call.chain).2.2 := by
  cases reset : call.reset with
  | true => simp [rawCmdIoctl, chain, reset, rawCmdCopyout]
  | false =>
      by_cases failed : call.copyin.1 = 0
      · have succeeded := failed
        rw [copyin] at succeeded
        simp [rawCmdIoctl, chain, reset, succeeded, copyin]
      · rw [rawCmdIoctl_of_failed reset failed]
        simp [chain, reset, failed, rawCmdCopyout]

/-- The buffer that is allocated for a record. -/
def areaOf (index : Nat) : Word × Word :=
  if ((call.supply index).copyFromUser true).2.has (fdRawRead ||| fdRawWrite) then
    ((call.supply index).allocate call.canUseVirtualDma,
      ((call.supply index).copyFromUser true).2.length)
  else (0, 0)

/-- A chain of so many records, with the addresses that were allocated for them. -/
structure Replies (count : Nat) (record : Nat → FloppyRawCmd) : Prop where
  chain_eq : call.chain =
    (List.range count).map fun index => ((call.supply index).kmalloc, some (record index))
  area_eq : ∀ index < count, (record index).area = call.areaOf index
  next_eq : ∀ index < count, (record index).next =
    if index + 1 < count then (call.supply (index + 1)).kmalloc else 0

/-- A record of the user asks for a transfer. -/
def Transfers (index : Nat) : Prop :=
  ((call.supply index).copyFromUser true).2.has (fdRawRead ||| fdRawWrite) = true

end RawCmdCall

/-- Two calls that differ only in the addresses that the allocators return. -/
structure RawCmdCall.Twin (one two : RawCmdCall) : Prop where
  reset : one.reset = two.reset
  addrLimit : one.addrLimit = two.addrLimit
  param : one.param = two.param
  canUseVirtualDma : one.canUseVirtualDma = two.canUseVirtualDma
  supply : ∀ index, (one.supply index).Twin (two.supply index)
  steps : one.steps = two.steps
  waited : one.waited = two.waited
  resetAfter : one.resetAfter = two.resetAfter
  /-- The buffers of the records have the same contents at the end. -/
  kernel : ∀ index < one.chain.length, one.Transfers index →
    ∀ offset < ((one.supply index).copyFromUser true).2.length.toNat,
      one.kernel ((one.supply index).allocate one.canUseVirtualDma + BitVec.ofNat 32 offset) =
        two.kernel ((two.supply index).allocate two.canUseVirtualDma + BitVec.ofNat 32 offset)
  copiedOut : one.copiedOut = two.copiedOut

section Twin

variable {one two : RawCmdCall}

theorem RawCmdCall.Twin.copyin_alike (twin : one.Twin two) :
    CopiedAlike one.canUseVirtualDma one.supply two.supply one.copyin two.copyin := by
  have room_eq : one.room = two.room := by
    rw [RawCmdCall.room, RawCmdCall.room, twin.addrLimit, twin.param]
  rw [RawCmdCall.copyin, RawCmdCall.copyin, ← twin.canUseVirtualDma, ← room_eq]
  exact rawCmdCopyin_alike twin.supply one.fresh two.fresh holds_start holds_start (by simp)

theorem replies_of_row {call : RawCmdCall} {count : Nat} {final : Nat → FloppyRawCmd}
    (started : call.reset = false) (succeeded : call.copyin.1 = 0) (count_pos : 0 < count)
    (holds : call.copyin.2.Holds call.canUseVirtualDma call.supply count)
    (accepted : ∀ index < count, ((call.supply index).settled call.canUseVirtualDma).1 = 0)
    (row : Row FloppyRawCmd.next 0
      (drive call.steps call.copyin.2.heap (call.supply 0).kmalloc).1 count
      (fun index => (call.supply index).kmalloc) final)
    (kept : ∀ index < count, (final index).area =
      (linkedRecord call.canUseVirtualDma call.supply count index).area) :
    call.Replies count final := by
  have head_eq := holds.head_eq
  rw [if_pos count_pos] at head_eq
  refine ⟨?_, ?_, row.link_eq⟩
  · have visited := row.visit_eq
    rw [if_pos count_pos] at visited
    simp only [RawCmdCall.chain, started, succeeded, head_eq]
    exact visited
  · intro index index_lt
    rw [kept index index_lt]
    exact settled_area (accepted index index_lt)

theorem RawCmdCall.Twin.replies (twin : one.Twin two) (started : one.reset = false)
    (succeeded : one.copyin.1 = 0) :
    ∃ count record record', one.Replies count record ∧ two.Replies count record' ∧
      ∀ index < count, (record index).blank = (record' index).blank := by
  have started' := twin.reset ▸ started
  have copied := twin.copyin_alike
  have succeeded' := copied.ret_eq ▸ succeeded
  rcases copied.chain succeeded with ⟨count, count_pos, holds, holds', accepted⟩
  have accepted' : ∀ index < count, ((two.supply index).settled two.canUseVirtualDma).1 = 0 := by
    intro index index_lt
    rw [← twin.canUseVirtualDma, ← ((twin.supply index).settled_eq _).1]
    exact accepted index index_lt
  have linked : ChainAlike count (fun index => (one.supply index).kmalloc)
      (fun index => (two.supply index).kmalloc) one.copyin.2.heap two.copyin.2.heap
      (linkedRecord one.canUseVirtualDma one.supply count)
      (linkedRecord one.canUseVirtualDma two.supply count) :=
    ⟨holds.row, holds'.row, fun index _ => ((twin.supply index).settled_eq _).2⟩
  rcases drive_alike one.steps linked count_pos with ⟨final, final', driven, kept⟩
  refine ⟨count, final, final', ?_, ?_, driven.alike⟩
  · exact replies_of_row started succeeded count_pos holds accepted driven.row
      fun index index_lt => (kept index index_lt).1
  · rw [twin.canUseVirtualDma] at holds' kept
    rw [twin.steps] at driven
    exact replies_of_row started' succeeded' count_pos holds' accepted' driven.row'
      fun index index_lt => (kept index index_lt).2

theorem RawCmdCall.chain_eq_nil {call : RawCmdCall}
    (stopped : ¬(call.reset = false ∧ call.copyin.1 = 0)) : call.chain = [] := by
  rw [RawCmdCall.chain, if_pos]
  cases reset : call.reset with
  | true => rfl
  | false => simpa [reset] using stopped

theorem RawCmdCall.Replies.copiesOut_iff {count : Nat} {record : Nat → FloppyRawCmd}
    (replies : one.Replies count record) (index : Nat) :
    one.CopiesOut index ↔ index < count ∧
      ∀ earlier < index, SentWhole one.kernel (one.copiedOut earlier) (record earlier) := by
  rw [RawCmdCall.CopiesOut, replies.chain_eq, List.length_map, List.length_range]
  refine and_congr_right fun index_lt => forall₂_congr fun earlier earlier_lt => ?_
  simp [List.getElem?_range (by omega : earlier < count)]

section Addresses

variable {count index : Nat} {record record' : Nat → FloppyRawCmd}

theorem RawCmdCall.Replies.area_of_transfers (twin : one.Twin two)
    (replies : one.Replies count record) (replies' : two.Replies count record')
    (index_lt : index < count)
    (transfers : one.Transfers index) :
    (record index).kernelData = (one.supply index).allocate one.canUseVirtualDma ∧
      (record' index).kernelData = (two.supply index).allocate two.canUseVirtualDma ∧
      (record index).bufferLength = ((one.supply index).copyFromUser true).2.length := by
  have area_eq := replies.area_eq index index_lt
  have area_eq' := replies'.area_eq index index_lt
  rw [RawCmdCall.Transfers] at transfers
  rw [RawCmdCall.areaOf, if_pos transfers] at area_eq
  rw [RawCmdCall.areaOf, ← (twin.supply index).copyFromUser_eq, if_pos transfers] at area_eq'
  rcases Prod.mk.inj area_eq with ⟨address_eq, length_eq⟩
  exact ⟨address_eq, (Prod.mk.inj area_eq').1, length_eq⟩

theorem RawCmdCall.Replies.area_of_not_transfers (twin : one.Twin two)
    (replies : one.Replies count record) (replies' : two.Replies count record')
    (index_lt : index < count)
    (nothing : ¬one.Transfers index) :
    (record index).kernelData = 0 ∧ (record' index).kernelData = 0 ∧
      (record index).bufferLength = 0 := by
  have area_eq := replies.area_eq index index_lt
  have area_eq' := replies'.area_eq index index_lt
  rw [RawCmdCall.Transfers] at nothing
  rw [RawCmdCall.areaOf, if_neg nothing] at area_eq
  rw [RawCmdCall.areaOf, ← (twin.supply index).copyFromUser_eq, if_neg nothing] at area_eq'
  rcases Prod.mk.inj area_eq with ⟨address_eq, length_eq⟩
  exact ⟨address_eq, (Prod.mk.inj area_eq').1, length_eq⟩

theorem RawCmdCall.Replies.kernelData_iff (twin : one.Twin two)
    (replies : one.Replies count record) (replies' : two.Replies count record')
    (index_lt : index < count) {bytes : Nat} :
    SameBytes bytes (record index).kernelData (record' index).kernelData ↔
      (one.Transfers index →
        SameBytes bytes ((one.supply index).allocate one.canUseVirtualDma)
          ((two.supply index).allocate two.canUseVirtualDma)) := by
  by_cases transfers : one.Transfers index
  · rcases replies.area_of_transfers twin replies' index_lt transfers with
      ⟨address_eq, address_eq', -⟩
    rw [address_eq, address_eq']
    exact ⟨fun same _ => same, fun same => same transfers⟩
  · rcases replies.area_of_not_transfers twin replies' index_lt transfers with
      ⟨address_eq, address_eq', -⟩
    rw [address_eq, address_eq']
    exact iff_of_true rfl fun holds => absurd holds transfers

theorem RawCmdCall.Replies.next_iff (replies : one.Replies count record)
    (replies' : two.Replies count record') (index_lt : index < count) {bytes : Nat} :
    SameBytes bytes (record index).next (record' index).next ↔
      (index + 1 < count → SameBytes bytes (one.supply (index + 1)).kmalloc
        (two.supply (index + 1)).kmalloc) := by
  rw [replies.next_eq index index_lt, replies'.next_eq index index_lt]
  split_ifs with more
  · exact ⟨fun same _ => same, fun same => same more⟩
  · exact iff_of_true rfl fun holds => absurd holds more

end Addresses

/-- The records of the two calls agree in the data that is copied out. -/
theorem RawCmdCall.Replies.dataRead_eq (twin : one.Twin two) {count : Nat}
    {record record' : Nat → FloppyRawCmd} (replies : one.Replies count record)
    (replies' : two.Replies count record')
    (alike : ∀ index < count, (record index).blank = (record' index).blank) {index : Nat}
    (index_lt : index < count) :
    (record index).data = (record' index).data ∧
      (record index).dataRead one.kernel = (record' index).dataRead two.kernel := by
  have alike := alike index index_lt
  have reached : index < one.chain.length := by simpa [replies.chain_eq] using index_lt
  refine ⟨(congrArg FloppyRawCmd.data alike :
    (record index).blank.data = (record' index).blank.data), ?_⟩
  apply Floppy.dataRead_eq alike
  intro buffered offset offset_lt
  by_cases transfers : one.Transfers index
  · rcases replies.area_of_transfers twin replies' index_lt transfers with
      ⟨address_eq, address_eq', length_eq⟩
    rw [length_eq] at offset_lt
    rw [address_eq, address_eq']
    exact twin.kernel index reached transfers offset offset_lt
  · exact absurd (replies.area_of_not_transfers twin replies' index_lt transfers).2.2 buffered

end Twin

/--
The replies to two calls that differ only in the addresses are the same if and only if the
addresses are, as far as they are copied out: that of the buffer of each record to which
`raw_cmd_copyout` comes, and that of the record behind it.
-/
theorem written_eq_iff_sameBytes {one two : RawCmdCall} (twin : one.Twin two) :
    (rawCmdIoctl one).written = (rawCmdIoctl two).written ↔
      ∀ index, one.CopiesOut index →
        (one.Transfers index →
          SameBytes ((one.copiedOut index).1 - 8)
            ((one.supply index).allocate one.canUseVirtualDma)
            ((two.supply index).allocate two.canUseVirtualDma)) ∧
        (index + 1 < one.chain.length →
          SameBytes ((one.copiedOut index).1 - 12) (one.supply (index + 1)).kmalloc
            (two.supply (index + 1)).kmalloc) := by
  rw [one.written_eq, two.written_eq]
  by_cases onward : one.reset = false ∧ one.copyin.1 = 0
  · rcases twin.replies onward.1 onward.2 with ⟨count, record, record', replies, replies', alike⟩
    have length_eq : one.chain.length = count := by simp [replies.chain_eq]
    have data_eq : ∀ index, 0 ≤ index → index < 0 + count →
        (record index).data = (record' index).data ∧
          (record index).dataRead one.kernel = (record' index).dataRead two.kernel :=
      fun index _ index_lt => replies.dataRead_eq twin replies' alike (by omega)
    rw [length_eq, replies.chain_eq, replies'.chain_eq, ← twin.copiedOut, ← twin.param,
      List.range_eq_range', rawCmdCopyout_written_eq_iff one.param data_eq]
    refine forall_congr' fun index => ?_
    rw [replies.copiesOut_iff]
    constructor
    · rintro same ⟨index_lt, earlier⟩
      have taken := same (by omega) (by omega) fun before _ => earlier before
      rw [take_toBytes_eq_iff (alike index index_lt),
        replies.kernelData_iff twin replies' index_lt, replies.next_iff replies' index_lt] at taken
      exact taken
    · intro same _ index_lt earlier
      rw [Nat.zero_add] at index_lt
      rw [take_toBytes_eq_iff (alike index index_lt),
        replies.kernelData_iff twin replies' index_lt, replies.next_iff replies' index_lt]
      exact same ⟨index_lt, fun before => earlier before (by omega)⟩
  · have nil := one.chain_eq_nil onward
    have nil' : two.chain = [] := by
      apply two.chain_eq_nil
      rw [← twin.reset, ← twin.copyin_alike.ret_eq]
      exact onward
    rw [nil, nil']
    refine iff_of_true rfl fun index copies => ?_
    have := copies.1
    rw [nil] at this
    exact absurd this (by simp)

/-- A record with these flags and a length of 512, and behind it an empty one. -/
def replySupply (flags node following buffer : Word) (index : Nat) : Supply where
  kmalloc := if index = 0 then node else if index = 1 then following else 0
  user offset :=
    if index = 0 then (wordBytes flags ++ List.replicate 12 0 ++ wordBytes 512).getD offset 0 else 0
  copied := 80
  fdDmaMemAlloc := buffer
  nodmaMemAlloc := 0
  fdCopyin := true

/-- The controller replies with seven bytes, and all is copied out. -/
def replyCall (flags node following buffer : Word) (apart : node ≠ following) : RawCmdCall where
  reset := false
  addrLimit := 0xc0000000
  param := 0xbffff000
  canUseVirtualDma := 0
  supply := replySupply flags node following buffer
  fresh := by
    intro first second same allocated
    simp only [replySupply] at same allocated
    split_ifs at same allocated <;> simp_all
  steps := [.rawCmdDone true ⟨7, [0, 0, 0, 0, 0, 1, 2], 0, false⟩]
  waited := 0
  resetAfter := false
  kernel _ := 0x5a
  copiedOut _ := (80, 512)

theorem replyCall_twin (flags : Word) {node node' following following' buffer buffer' : Word}
    (apart : node ≠ following) (apart' : node' ≠ following')
    (node_iff : node = 0 ↔ node' = 0) (following_iff : following = 0 ↔ following' = 0)
    (buffer_iff : buffer = 0 ↔ buffer' = 0) :
    (replyCall flags node following buffer apart).Twin
      (replyCall flags node' following' buffer' apart') := by
  refine ⟨rfl, rfl, rfl, rfl, fun index => ⟨rfl, rfl, rfl, ?_, buffer_iff, Iff.rfl⟩, rfl, rfl, rfl,
    fun _ _ _ _ _ => rfl, rfl⟩
  simp only [replyCall, replySupply]
  split_ifs
  · exact node_iff
  · exact following_iff
  · rfl

/-- A command without data and without a successor has no address in its reply. -/
theorem written_eq_of_seek :
    (rawCmdIoctl (replyCall 0 0xc1000000 0 0xc0200000 (by decide))).written =
      (rawCmdIoctl (replyCall 0 0xc1230000 0 0xc0210000 (by decide))).written := by
  refine (written_eq_iff_sameBytes
    (replyCall_twin 0 _ _ (by decide) (by decide) (by decide))).mpr ?_
  have single : (replyCall 0 0xc1000000 0 0xc0200000 (by decide)).chain.length = 1 := by
    decide +kernel
  intro index copies
  have index_lt := copies.1
  rw [single] at index_lt ⊢
  obtain rfl : index = 0 := by omega
  refine ⟨fun transfers => ?_, fun more => absurd more (by decide)⟩
  rw [RawCmdCall.Transfers] at transfers
  exact absurd transfers (by decide +kernel)

/--
With a buffer and a successor, the eight bytes behind `data` are the addresses of the buffer
and of the next record.
-/
theorem reply_reveals_addresses :
    let one := replyCall 0x101 0xc1000000 0xc1000060 0xc0200000 (by decide)
    let two := replyCall 0x101 0xc1230000 0xc1230060 0xc0210000 (by decide)
    one.Twin two ∧
      (rawCmdIoctl one).written.head?.map (fun written => (written.2.drop 8).take 8) =
        some [0x00, 0x00, 0x20, 0xc0, 0x60, 0x00, 0x00, 0xc1] ∧
      (rawCmdIoctl two).written.head?.map (fun written => (written.2.drop 8).take 8) =
        some [0x00, 0x00, 0x21, 0xc0, 0x60, 0x00, 0x23, 0xc1] ∧
      (rawCmdIoctl one).written ≠ (rawCmdIoctl two).written := by
  intro one two
  have first : (rawCmdIoctl one).written.head?.map (fun written => (written.2.drop 8).take 8) =
      some [0x00, 0x00, 0x20, 0xc0, 0x60, 0x00, 0x00, 0xc1] := by
    decide +kernel
  have second : (rawCmdIoctl two).written.head?.map (fun written => (written.2.drop 8).take 8) =
      some [0x00, 0x00, 0x21, 0xc0, 0x60, 0x00, 0x23, 0xc1] := by
    decide +kernel
  refine ⟨replyCall_twin _ _ _ (by decide) (by decide) (by decide), first, second, fun same => ?_⟩
  rw [same, second] at first
  exact absurd first (by decide)

end Gray386.Floppy
