import Gray386.Printk.Ring

/-!
# Cursors of the readers

Every reader of the log remembers the number and the index of the record that it will read
next: the users of /dev/kmsg, syslog, the console, and the position of the last clear
(`kernel/printk.c`). An index is only as good as the buffer behind it. A cursor is sound if
its index is where its number is, unless the record is gone; a reader finds that out by
comparing its number with `log_first_seq`.

Cursors start at the first record or behind the last one and are moved on by `log_next`. They
stay sound when records are stored, also if the one that they wait for is stored at the start
of the buffer, and when the console changes the flags of a record in the buffer.
-/

namespace Gray386.Printk

open Gray386.Machine

/-- A pair like `console_seq` and `console_idx`. -/
structure Cursor where
  seq : Nat
  idx : Nat
  deriving DecidableEq

namespace Log

def firstCursor (log : Log) : Cursor := ⟨log.logFirstSeq, log.logFirstIdx⟩
def nextCursor (log : Log) : Cursor := ⟨log.logNextSeq, log.logNextIdx⟩

/-- The cursor behind the record that was read. -/
def advance (log : Log) (cursor : Cursor) : Cursor :=
  ⟨cursor.seq + 1, logNext log.logBuf cursor.idx⟩

/-- `msg->flags &= ~mask` for the record at an index. -/
def clearFlags (log : Log) (idx : Nat) (mask : LogFlags) : Log :=
  let msg := logFromIdx log.logBuf idx
  { log with
    logBuf := log.logBuf.write (msg + 15)
      [setFlags (log.logBuf (msg + 15)) (msgFlags log.logBuf msg &&& ~~~mask)] }

end Log

/-- The record without some of its flags. -/
def Record.without (record : Record) (mask : LogFlags) : Record :=
  { record with flags := record.flags &&& ~~~mask }

@[simp]
theorem Record.size_without (record : Record) (mask : LogFlags) :
    (record.without mask).size = record.size := rfl

/-- Unless the record is gone, the index is the one of the record with this number. -/
def Cursor.Sound (cursor : Cursor) (log : Log) : Prop :=
  log.logFirstSeq ≤ cursor.seq →
    cursor.seq ≤ log.logNextSeq ∧ cursor.idx = log.position (cursor.seq - log.logFirstSeq)

namespace Arranged

variable {log : Log} {high low : List Record} {cursor : Cursor}

theorem sound_firstCursor (arranged : Arranged log high low) : log.firstCursor.Sound log := by
  intro _
  have counted := arranged.counted
  simp only [Log.firstCursor, Nat.sub_self]
  exact ⟨by omega, rfl⟩

theorem sound_nextCursor (arranged : Arranged log high low) : log.nextCursor.Sound log := by
  intro _
  have counted := arranged.counted
  have distance : log.logNextSeq - log.logFirstSeq = high.length + low.length := by omega
  exact ⟨Nat.le_refl _, by simp only [Log.nextCursor, distance, arranged.position_end]⟩

/-- What a reader finds at a cursor that is not too old. -/
theorem recordAt_cursor (arranged : Arranged log high low) (sound : cursor.Sound log)
    (kept : log.logFirstSeq ≤ cursor.seq) (stored : cursor.seq < log.logNextSeq) :
    log.records[cursor.seq - log.logFirstSeq]? = some (log.recordAt cursor.idx) := by
  have counted := arranged.counted
  have within : cursor.seq - log.logFirstSeq < (high ++ low).length := by
    rw [List.length_append]
    omega
  rw [arranged.records_eq, List.getElem?_eq_getElem within, (sound kept).2,
    arranged.recordAt_position within]

theorem sound_advance (sound : cursor.Sound log) (kept : log.logFirstSeq ≤ cursor.seq)
    (stored : cursor.seq < log.logNextSeq) : (log.advance cursor).Sound log := by
  intro _
  refine ⟨stored, ?_⟩
  change logNext log.logBuf cursor.idx = log.position (cursor.seq + 1 - log.logFirstSeq)
  rw [(sound kept).2, Nat.sub_add_comm kept, Log.position, Log.position,
    Function.iterate_succ_apply']

/-- A cursor stays sound when a record is stored. -/
theorem sound_store (arranged : Arranged log high low) {record : Record}
    (fits : Fits log.logBufLen record) (sound : cursor.Sound log) :
    cursor.Sound (log.store record) := by
  have counted := arranged.counted
  rcases arranged.store fits with ⟨dropped, high', low', stores⟩
  intro kept
  rw [stores.first] at kept
  have before := sound (by omega)
  rw [Log.logNextSeq_store, stores.first]
  refine ⟨by omega, ?_⟩
  rw [before.2, ← stores.positions _ (by omega) (by rw [List.length_append]; omega)]
  congr 1
  omega

end Arranged

/-- The bytes in front of the flags, and those behind them. -/
def Record.front (record : Record) : List Byte :=
  leBytes 8 record.tsNsec.toNat ++ leBytes 2 record.size ++ leBytes 2 record.text.1.length ++
    leBytes 2 record.dict.1.length ++ [record.facility]

def Record.back (record : Record) : List Byte :=
  record.text.1 ++ record.dict.1 ++ List.replicate (padLen record.bareSize) 0

theorem Record.bytes_eq (record : Record) :
    record.bytes = record.front ++ ([record.level ++ record.flags] ++ record.back) := by
  simp [bytes, header, front, back]

@[simp]
theorem Record.length_front (record : Record) : record.front.length = 15 := by
  simp [front]

variable {buffer : Buffer} {start : Nat} {records : List Record} {index : Nat}

theorem slice_write_flags {record : Record} {msg : Nat} (mask : LogFlags)
    (held : buffer.slice msg record.size = record.bytes) :
    (buffer.write (msg + 15) [setFlags (buffer (msg + 15)) (msgFlags buffer msg &&& ~~~mask)]).slice
      msg record.size = (record.without mask).bytes := by
  have whole := held
  rw [← Record.length_bytes, Record.bytes_eq, Buffer.slice_append_iff, Buffer.slice_append_iff,
    Record.length_front] at held
  rcases held with ⟨front, flags, back⟩
  have byte : buffer (msg + 15) = record.level ++ record.flags := by
    simpa [Buffer.slice] using flags
  have old : msgFlags buffer msg = record.flags := by
    rw [msgFlags, byte, setWidth_level_append_flags]
  have new : setFlags (buffer (msg + 15)) (msgFlags buffer msg &&& ~~~mask) =
      (record.without mask).level ++ (record.without mask).flags := by
    rw [setFlags, byte, extract_level_append_flags, old]
    rfl
  rw [new, ← Record.size_without record mask, ← Record.length_bytes, Record.bytes_eq,
    Buffer.slice_append_iff, Buffer.slice_append_iff, Record.length_front]
  refine ⟨?_, Buffer.slice_write _ _ _, ?_⟩
  · rw [Buffer.slice_write_of_disjoint (Or.inl (Nat.le_refl _))]
    exact front
  · rw [Buffer.slice_write_of_disjoint (Or.inr (Nat.le_refl _))]
    exact back

theorem total_congr {first second : List Record}
    (same : first.map Record.size = second.map Record.size) : total first = total second := by
  rw [total, total, same]

theorem map_size_set (inside : index < records.length) (mask : LogFlags) :
    (records.set index (records[index].without mask)).map Record.size =
      records.map Record.size := by
  rw [List.map_set, Record.size_without]
  apply List.ext_getElem (by simp)
  intro other _ _
  rw [List.getElem_set]
  split_ifs with here
  · subst here
    simp
  · rfl

/-- The flags of one record of a run are changed. -/
theorem Held.write_flags (held : Held buffer start records) (inside : index < records.length)
    (mask : LogFlags) {msg : Nat} (here : msg = start + total (records.take index)) :
    Held (buffer.write (msg + 15)
      [setFlags (buffer (msg + 15)) (msgFlags buffer msg &&& ~~~mask)]) start
      (records.set index (records[index].without mask)) := by
  subst here
  have header := records[index].sizeofLog_le_size
  have split : records = records.take index ++ records[index] :: records.drop (index + 1) := by
    simp
  have parts := held
  rw [split, held_append] at parts
  rw [List.set_eq_take_append_cons_drop, if_pos inside]
  refine held_append.mpr ⟨?_, ?_, ?_⟩
  · exact parts.1.congr fun offset lower upper => Buffer.write_of_lt (by omega)
  · rw [Record.size_without]
    exact slice_write_flags mask parts.2.1
  · refine parts.2.2.congr fun offset lower upper => Buffer.write_of_ge ?_
    rw [sizeofLog] at header
    rw [List.length_singleton]
    omega

namespace Arranged

variable {log : Log} {high low : List Record}

/-- The indices depend on the sizes of the records only. -/
theorem position_congr {log' : Log} {high' low' : List Record} (arranged : Arranged log high low)
    (other : Arranged log' high' low') (first : log'.logFirstIdx = log.logFirstIdx)
    (upper : high'.map Record.size = high.map Record.size)
    (lower : low'.map Record.size = low.map Record.size) {count : Nat}
    (within : count ≤ (high ++ low).length) : log'.position count = log.position count := by
  have sameHigh : high'.length = high.length := by
    simpa using congrArg List.length upper
  have sameLow : low'.length = low.length := by
    simpa using congrArg List.length lower
  rw [List.length_append] at within
  rcases Nat.lt_or_ge high.length count with inLow | inHigh
  · obtain ⟨rest, rfl⟩ := Nat.exists_eq_add_of_lt inLow
    have position : log'.position (high'.length + (rest + 1)) = _ :=
      other.position_low (by omega)
    rw [sameHigh] at position
    rw [Nat.add_assoc, position, arranged.position_low (by omega)]
    exact total_congr (by rw [List.map_take, List.map_take, lower])
  · rw [other.position_high (by omega), arranged.position_high inHigh, first]
    congr 1
    exact total_congr (by rw [List.map_take, List.map_take, upper])

theorem size_lt_of_map_eq {first second : List Record}
    (same : first.map Record.size = second.map Record.size)
    (short : ∀ record ∈ second, record.size < 65536) : ∀ record ∈ first, record.size < 65536 := by
  intro record mem
  have sizes : record.size ∈ second.map Record.size := by
    rw [← same]
    exact List.mem_map_of_mem mem
  rcases List.mem_map.mp sizes with ⟨other, inSecond, equal⟩
  rw [← equal]
  exact short other inSecond

/-- The arrangement is one of other records of the same sizes. -/
theorem of_sizes {high' low' : List Record} {buffer : Buffer} (arranged : Arranged log high low)
    (upperSizes : high'.map Record.size = high.map Record.size)
    (lowerSizes : low'.map Record.size = low.map Record.size)
    (upper : Held buffer log.logFirstIdx high') (lower : Held buffer 0 low')
    (mark : low ≠ [] → ∀ offset, log.logFirstIdx + total high ≤ offset →
      buffer offset = log.logBuf offset) :
    Arranged { log with logBuf := buffer } high' low' := by
  have sameHigh : high'.length = high.length := by
    simpa using congrArg List.length upperSizes
  have sameLow : low'.length = low.length := by
    simpa using congrArg List.length lowerSizes
  have empty : low' = [] ↔ low = [] := by
    rw [← List.length_eq_zero_iff, ← List.length_eq_zero_iff, sameLow]
  refine ⟨?_, ?_, upper, lower, ?_, fun wrapped => ?_, fun wrapped => ?_, ?_⟩
  · rw [sameHigh, sameLow]
    exact arranged.counted
  · refine size_lt_of_map_eq ?_ arranged.short
    rw [List.map_append, List.map_append, upperSizes, lowerSizes]
  · rw [total_congr upperSizes, total_congr lowerSizes]
    simp only [empty]
    exact arranged.next
  · have before := (not_congr empty).mp wrapped
    change msgLen buffer (log.logFirstIdx + total high') = 0
    rw [total_congr upperSizes, msgLen,
      Buffer.slice_congr (fun offset above _ => mark before offset (by omega)), ← msgLen]
    exact arranged.mark before
  · rw [total_congr lowerSizes]
    exact arranged.below ((not_congr empty).mp wrapped)
  · rw [total_congr upperSizes]
    exact arranged.inside

/-- The header of a record is inside of the buffer. -/
theorem logFromIdx_inside (arranged : Arranged log high low) {steps : Nat}
    (within : steps < (high ++ low).length) :
    logFromIdx log.logBuf (log.position steps) + sizeofLog ≤ log.logBufLen := by
  have inside := arranged.inside
  rcases arranged.logFromIdx_position within with ⟨_, address⟩ | ⟨rest, lower, rfl, address⟩
  · have bound := total_take_le high steps
    omega
  · have bound := total_take_le low rest
    have below := arranged.below (List.ne_nil_of_length_pos (by omega))
    omega

/-- The flags of a record are cleared in the buffer; the indices stay. -/
theorem clearFlags (arranged : Arranged log high low) {steps : Nat}
    (within : steps < (high ++ low).length) (mask : LogFlags) :
    ∃ high' low', Arranged (log.clearFlags (log.position steps) mask) high' low' ∧
      high' ++ low' = (high ++ low).set steps ((high ++ low)[steps].without mask) ∧
      ∀ count ≤ (high ++ low).length,
        (log.clearFlags (log.position steps) mask).position count = log.position count := by
  rcases arranged.logFromIdx_position within with ⟨upper, address⟩ | ⟨rest, lower, rfl, address⟩
  · have sizes := map_size_set upper mask
    have header := high[steps].sizeofLog_le_size
    rw [sizeofLog] at header
    have bound : total (high.take (steps + 1)) ≤ total high := total_take_le high _
    rw [total_take_succ upper] at bound
    have placed : Arranged (log.clearFlags (log.position steps) mask)
        (high.set steps (high[steps].without mask)) low := by
      rw [Log.clearFlags, address]
      refine arranged.of_sizes sizes rfl (arranged.upper.write_flags upper mask rfl) ?_ ?_
      · refine arranged.lower.congr fun offset _ below => Buffer.write_of_lt ?_
        by_cases flat : low = []
        · subst flat
          simp at below
        · have := arranged.below flat
          omega
      · intro _ offset above
        refine Buffer.write_of_ge ?_
        rw [List.length_singleton]
        omega
    refine ⟨_, _, placed, ?_, fun count inside => ?_⟩
    · rw [List.getElem_append_left upper, List.set_append_left _ _ upper]
    · exact arranged.position_congr placed rfl sizes rfl inside
  · have sizes := map_size_set lower mask
    have header := low[rest].sizeofLog_le_size
    rw [sizeofLog] at header
    have wrapped : low ≠ [] := List.ne_nil_of_length_pos (by omega)
    have below := arranged.below wrapped
    have bound : total (low.take (rest + 1)) ≤ total low := total_take_le low _
    rw [total_take_succ lower] at bound
    have kept : ∀ offset, log.logFirstIdx ≤ offset →
        (log.clearFlags (log.position (high.length + rest)) mask).logBuf offset =
          log.logBuf offset := by
      intro offset above
      rw [Log.clearFlags, address]
      refine Buffer.write_of_ge ?_
      rw [List.length_singleton]
      omega
    have placed : Arranged (log.clearFlags (log.position (high.length + rest)) mask) high
        (low.set rest (low[rest].without mask)) := by
      refine arranged.of_sizes rfl sizes
        (arranged.upper.congr fun offset above _ => kept offset above) ?_
        (fun _ offset above => kept offset (by omega))
      have written := arranged.lower.write_flags lower mask (Nat.zero_add _).symm
      rw [← address] at written
      exact written
    refine ⟨_, _, placed, ?_, fun count inside => ?_⟩
    · rw [List.set_append_right _ _ (by omega), List.getElem_append_right (by omega)]
      simp only [Nat.add_sub_cancel_left]
    · exact arranged.position_congr placed rfl rfl sizes inside

end Arranged

end Gray386.Printk
