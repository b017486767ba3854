import Gray386.Printk.Record

/-!
# The ring of log records

`log_buf` holds records of different sizes one behind the other. `log_store` appends one and,
where there is no room, gives up the oldest ones. A record is never split: if it does not fit
in front of the end of the buffer, then a header of zeros is left there and the record goes to
the start of the buffer (`kernel/printk.c`).

So the records are at most two runs. The upper one begins at `log_first_idx`; the lower one,
if there is any, begins at offset 0 and ends at `log_next_idx`, and a header of zeros stands
behind the upper one. `Arranged` says this. It is kept by every call of `log_store` whose
record takes less than half of the buffer (`Fits`). A larger record can overwrite the header
of zeros that the readers are sent to, if the whole buffer had to be given up for it.

The indices are below `log_buf_len`, which is at most `2 ^ 31`, and sums of them are formed
without overflow. The sequence numbers have 64 bits and are not taken to overflow either.
-/

namespace Gray386.Printk

open Gray386.Machine

/-- The static variables of the record buffer. -/
structure Log where
  logBuf : Buffer
  logBufLen : Nat
  logFirstSeq : Nat
  logFirstIdx : Nat
  logNextSeq : Nat
  logNextIdx : Nat

/-- The arguments of `log_store`, and the value of `local_clock()` in it. -/
structure StoreCall where
  facility : Int
  level : Int
  flags : LogFlags
  tsNsec : BitVec 64
  clock : BitVec 64
  dict : Text
  text : Text
  deriving DecidableEq

/-- What is stored: of the facility eight bits and of the level three. -/
def StoreCall.record (call : StoreCall) : Record where
  tsNsec := if call.tsNsec > 0 then call.tsNsec else call.clock
  facility := BitVec.ofInt 8 call.facility
  flags := call.flags
  level := BitVec.ofInt 3 call.level
  text := call.text
  dict := call.dict

/-- `log_from_idx`. -/
def logFromIdx (buffer : Buffer) (idx : Nat) : Nat :=
  if msgLen buffer idx = 0 then 0 else idx

/-- `log_next`. -/
def logNext (buffer : Buffer) (idx : Nat) : Nat :=
  if msgLen buffer idx = 0 then msgLen buffer 0 else idx + msgLen buffer idx

namespace Log

/-- The largest free range, as `log_store` computes it while there are records. -/
def free (log : Log) : Nat :=
  if log.logNextIdx > log.logFirstIdx then
    max (log.logBufLen - log.logNextIdx) log.logFirstIdx
  else log.logFirstIdx - log.logNextIdx

/-- The body of the loop of `log_store`, when there is not enough room. -/
def dropOldest (log : Log) : Log :=
  { log with
    logFirstIdx := logNext log.logBuf log.logFirstIdx
    logFirstSeq := log.logFirstSeq + 1 }

/-- The loop of `log_store`; it ends at the latest when no record is left. -/
def makeRoom (size : Nat) : Nat → Log → Log
  | 0, log => log
  | turns + 1, log =>
      if log.logFirstSeq < log.logNextSeq then
        if log.free > size + sizeofLog then log else makeRoom size turns log.dropOldest
      else log

/-- The header of zeros at the end of the buffer. -/
def wrap (log : Log) (size : Nat) : Log :=
  if log.logNextIdx + size + sizeofLog ≥ log.logBufLen then
    { log with
      logBuf := log.logBuf.write log.logNextIdx (List.replicate sizeofLog 0)
      logNextIdx := 0 }
  else log

/-- The record is filled in and counted. -/
def insert (log : Log) (record : Record) : Log :=
  let buffer := fillMessage log.logBuf log.logNextIdx record
  { log with
    logBuf := buffer
    logNextIdx := log.logNextIdx + msgLen buffer log.logNextIdx
    logNextSeq := log.logNextSeq + 1 }

/-- The statements of `log_store`, given the record that its arguments make up. -/
def store (log : Log) (record : Record) : Log :=
  let room := makeRoom record.size (log.logNextSeq - log.logFirstSeq) log
  (room.wrap record.size).insert record

/-- `log_store`. -/
def logStore (log : Log) (call : StoreCall) : Log := log.store call.record

/-- The index that a reader has after so many steps from the first record. -/
def position (log : Log) (steps : Nat) : Nat :=
  (logNext log.logBuf)^[steps] log.logFirstIdx

/-- The record at an index. -/
def recordAt (log : Log) (idx : Nat) : Record :=
  messageAt log.logBuf (logFromIdx log.logBuf idx)

/-- The records, as a reader sees them that begins with the first one. -/
def records (log : Log) : List Record :=
  (List.range (log.logNextSeq - log.logFirstSeq)).map fun steps =>
    log.recordAt (log.position steps)

/-- Nothing has been stored. -/
def empty (buffer : Buffer) (length : Nat) : Log := ⟨buffer, length, 0, 0, 0, 0⟩

end Log

/-- The record is short enough for its length field and for the buffer. -/
structure Fits (length : Nat) (record : Record) : Prop where
  field : record.size < 65536
  half : 2 * record.size + sizeofLog ≤ length

instance (length : Nat) (record : Record) : Decidable (Fits length record) :=
  decidable_of_iff (record.size < 65536 ∧ 2 * record.size + sizeofLog ≤ length)
    ⟨fun fits => ⟨fits.1, fits.2⟩, fun fits => ⟨fits.field, fits.half⟩⟩

/-- The bytes that these records take. -/
def total (records : List Record) : Nat := (records.map Record.size).sum

@[simp]
theorem total_nil : total [] = 0 := rfl

@[simp]
theorem total_cons (record : Record) (records : List Record) :
    total (record :: records) = record.size + total records := by
  simp [total]

@[simp]
theorem total_append (first second : List Record) :
    total (first ++ second) = total first + total second := by
  simp [total]

/-- The records stand one behind the other. -/
def Held (buffer : Buffer) : Nat → List Record → Prop
  | _, [] => True
  | start, record :: rest =>
      buffer.slice start record.size = record.bytes ∧ Held buffer (start + record.size) rest

variable {buffer other : Buffer} {start : Nat} {records : List Record}

theorem held_append {first second : List Record} :
    Held buffer start (first ++ second) ↔
      Held buffer start first ∧ Held buffer (start + total first) second := by
  induction first generalizing start with
  | nil => simp [Held]
  | cons record rest ih => simp [Held, ih, and_assoc, Nat.add_assoc]

theorem Held.congr (held : Held buffer start records)
    (same : ∀ offset, start ≤ offset → offset < start + total records →
      other offset = buffer offset) : Held other start records := by
  induction records generalizing start with
  | nil => trivial
  | cons record rest ih =>
      rw [total_cons] at same
      refine ⟨?_, ih held.2 (fun offset lower upper => same offset (by omega) (by omega))⟩
      rw [← held.1]
      exact Buffer.slice_congr fun offset lower upper => same offset lower (by omega)

/-- The record behind a part of a run. -/
theorem Held.getElem (held : Held buffer start records) {index : Nat}
    (inside : index < records.length) :
    buffer.slice (start + total (records.take index)) records[index].size =
      records[index].bytes := by
  have split : records = records.take index ++ records[index] :: records.drop (index + 1) := by
    simp
  rw [split, held_append] at held
  exact held.2.1

theorem total_take_succ {index : Nat} (inside : index < records.length) :
    total (records.take (index + 1)) = total (records.take index) + records[index].size := by
  rw [List.take_succ_eq_append_getElem inside, total_append, total_cons, total_nil,
    Nat.add_zero]

theorem total_take_le (records : List Record) (index : Nat) :
    total (records.take index) ≤ total records := by
  calc
    total (records.take index) ≤ total (records.take index) + total (records.drop index) := by
        omega
    _ = total records := by rw [← total_append, List.take_append_drop]

theorem msgLen_eq_size {msg : Nat} {record : Record} (short : record.size < 65536)
    (held : buffer.slice msg record.size = record.bytes) : msgLen buffer msg = record.size := by
  rw [msgLen_of_slice held, Nat.mod_eq_of_lt short]

theorem Record.size_pos (record : Record) : 0 < record.size :=
  Nat.lt_of_lt_of_le (by decide) record.sizeofLog_le_size

theorem logFromIdx_of_held {idx : Nat} {record : Record} (short : record.size < 65536)
    (held : buffer.slice idx record.size = record.bytes) : logFromIdx buffer idx = idx := by
  rw [logFromIdx, msgLen_eq_size short held, if_neg (Nat.ne_of_gt record.size_pos)]

theorem logNext_of_held {idx : Nat} {record : Record} (short : record.size < 65536)
    (held : buffer.slice idx record.size = record.bytes) :
    logNext buffer idx = idx + record.size := by
  rw [logNext, msgLen_eq_size short held, if_neg (Nat.ne_of_gt record.size_pos)]

theorem logFromIdx_of_mark {idx : Nat} (mark : msgLen buffer idx = 0) :
    logFromIdx buffer idx = 0 :=
  if_pos mark

theorem logNext_of_mark {idx : Nat} {record : Record} (short : record.size < 65536)
    (mark : msgLen buffer idx = 0) (held : buffer.slice 0 record.size = record.bytes) :
    logNext buffer idx = record.size := by
  rw [logNext, if_pos mark, msgLen_eq_size short held]

theorem msgLen_write_zeros (buffer : Buffer) (idx : Nat) :
    msgLen (buffer.write idx (List.replicate sizeofLog 0)) idx = 0 := by
  have zeros := Buffer.slice_write buffer idx
    (List.replicate 8 0 ++ (List.replicate 2 0 ++ List.replicate 6 0))
  rw [Buffer.slice_append_iff, Buffer.slice_append_iff] at zeros
  exact congrArg leNat zeros.2.1

/-- The upper run, and the lower one if the buffer has been wrapped. -/
structure Arranged (log : Log) (high low : List Record) : Prop where
  counted : log.logNextSeq = log.logFirstSeq + (high.length + low.length)
  short : ∀ record ∈ high ++ low, record.size < 65536
  upper : Held log.logBuf log.logFirstIdx high
  lower : Held log.logBuf 0 low
  next : log.logNextIdx = if low = [] then log.logFirstIdx + total high else total low
  mark : low ≠ [] → msgLen log.logBuf (log.logFirstIdx + total high) = 0
  below : low ≠ [] → total low ≤ log.logFirstIdx
  inside : log.logFirstIdx + total high + sizeofLog ≤ log.logBufLen

namespace Arranged

variable {log : Log} {high low : List Record}

theorem empty (buffer : Buffer) {length : Nat} (header : sizeofLog ≤ length) :
    Arranged (Log.empty buffer length) [] [] where
  counted := rfl
  short := by simp
  upper := trivial
  lower := trivial
  next := rfl
  mark := fun wrapped => absurd rfl wrapped
  below := fun wrapped => absurd rfl wrapped
  inside := by simpa [Log.empty] using header

/-- The index after some steps in the upper run. -/
theorem position_high (arranged : Arranged log high low) {steps : Nat}
    (within : steps ≤ high.length) :
    log.position steps = log.logFirstIdx + total (high.take steps) := by
  induction steps with
  | zero => simp [Log.position]
  | succ steps ih =>
      have here := arranged.upper.getElem within
      have short := arranged.short high[steps] (by simp)
      rw [Log.position, Function.iterate_succ_apply', ← Log.position, ih (by omega),
        logNext_of_held short here, total_take_succ within, Nat.add_assoc]

/-- The index after some steps in the lower run; its first record is reached from the mark. -/
theorem position_low (arranged : Arranged log high low) {steps : Nat}
    (within : steps < low.length) :
    log.position (high.length + (steps + 1)) = total (low.take (steps + 1)) := by
  have wrapped : low ≠ [] := List.ne_nil_of_length_pos (by omega)
  induction steps with
  | zero =>
      have first := arranged.lower.getElem within
      have short := arranged.short low[0] (by simp)
      rw [List.take_zero, total_nil, Nat.add_zero] at first
      rw [Log.position, ← Nat.add_assoc, Function.iterate_succ_apply', Nat.add_zero,
        ← Log.position, arranged.position_high (Nat.le_refl _), List.take_length,
        logNext_of_mark short (arranged.mark wrapped) first, total_take_succ within,
        List.take_zero, total_nil, Nat.zero_add]
  | succ steps ih =>
      have here := arranged.lower.getElem within
      have short := arranged.short low[steps + 1] (by simp)
      rw [Nat.zero_add] at here
      rw [Log.position, ← Nat.add_assoc, Function.iterate_succ_apply', ← Log.position,
        ih (by omega), logNext_of_held short here, total_take_succ within]

/-- The last step leads to where the next record will be stored, or to the mark there. -/
theorem position_end (arranged : Arranged log high low) :
    log.position (high.length + low.length) = log.logNextIdx := by
  rw [arranged.next]
  cases low with
  | nil => rw [if_pos rfl, List.length_nil, Nat.add_zero,
      arranged.position_high (Nat.le_refl _), List.take_length]
  | cons record rest =>
      rw [if_neg (List.cons_ne_nil _ _), List.length_cons,
        arranged.position_low (by simp), ← List.length_cons, List.take_length]

/-- The address of the record after some steps; from the mark it is the start of the buffer. -/
theorem logFromIdx_position (arranged : Arranged log high low) {steps : Nat}
    (within : steps < (high ++ low).length) :
    (steps < high.length ∧ logFromIdx log.logBuf (log.position steps) =
      log.logFirstIdx + total (high.take steps)) ∨
    ∃ rest, rest < low.length ∧ steps = high.length + rest ∧
      logFromIdx log.logBuf (log.position steps) = total (low.take rest) := by
  rcases Nat.lt_or_ge steps high.length with upper | lower
  · left
    have here := arranged.upper.getElem upper
    have short := arranged.short high[steps] (by simp)
    refine ⟨upper, ?_⟩
    rw [arranged.position_high (by omega), logFromIdx_of_held short here]
  · right
    obtain ⟨rest, rfl⟩ := Nat.exists_eq_add_of_le lower
    have inLow : rest < low.length := by simpa using within
    have here := arranged.lower.getElem inLow
    have short := arranged.short low[rest] (by simp)
    rw [Nat.zero_add] at here
    refine ⟨rest, inLow, rfl, ?_⟩
    cases rest with
    | zero =>
        have wrapped : low ≠ [] := List.ne_nil_of_length_pos (by omega)
        change logFromIdx log.logBuf (log.position high.length) = _
        rw [arranged.position_high (Nat.le_refl _), List.take_length,
          logFromIdx_of_mark (arranged.mark wrapped), List.take_zero, total_nil]
    | succ rest =>
        rw [arranged.position_low (by omega), logFromIdx_of_held short here]

theorem recordAt_position (arranged : Arranged log high low) {steps : Nat}
    (within : steps < (high ++ low).length) :
    log.recordAt (log.position steps) = (high ++ low)[steps] := by
  rw [Log.recordAt]
  rcases arranged.logFromIdx_position within with ⟨upper, address⟩ | ⟨rest, lower, rfl, address⟩
  · rw [address, messageAt_of_slice (arranged.upper.getElem upper),
      List.getElem_append_left upper]
  · have here := arranged.lower.getElem lower
    rw [Nat.zero_add] at here
    rw [address, messageAt_of_slice here, List.getElem_append_right (by omega)]
    simp only [Nat.add_sub_cancel_left]

/-- A reader that begins with the first record sees the two runs. -/
theorem records_eq (arranged : Arranged log high low) : log.records = high ++ low := by
  apply List.ext_getElem
  · simp [Log.records, arranged.counted]
  · intro steps _ within
    simp only [Log.records, List.getElem_map, List.getElem_range]
    exact arranged.recordAt_position within

theorem dropOldest_high {record : Record} (arranged : Arranged log (record :: high) low) :
    Arranged log.dropOldest high low := by
  have first := arranged.upper.1
  have short := arranged.short record (by simp)
  have moved : log.dropOldest.logFirstIdx = log.logFirstIdx + record.size :=
    logNext_of_held short first
  have stop : log.dropOldest.logFirstIdx + total high =
      log.logFirstIdx + total (record :: high) := by
    rw [moved, total_cons, Nat.add_assoc]
  refine ⟨?_, ?_, ?_, arranged.lower, ?_, ?_, ?_, ?_⟩
  · have := arranged.counted
    simp only [Log.dropOldest, List.length_cons] at *
    omega
  · intro later mem
    exact arranged.short later (by simp_all)
  · rw [moved]
    exact arranged.upper.2
  · rw [stop]
    exact arranged.next
  · rw [stop]
    exact arranged.mark
  · intro wrapped
    rw [moved]
    exact Nat.le_trans (arranged.below wrapped) (Nat.le_add_right _ _)
  · rw [stop]
    exact arranged.inside

/-- If the upper run is used up, the lower one takes its place. -/
theorem dropOldest_low {record : Record} (arranged : Arranged log [] (record :: low)) :
    Arranged log.dropOldest low [] := by
  have wrapped : record :: low ≠ [] := List.cons_ne_nil _ _
  have first := arranged.lower.1
  have short := arranged.short record (by simp)
  have mark := arranged.mark wrapped
  rw [total_nil, Nat.add_zero] at mark
  have moved : log.dropOldest.logFirstIdx = record.size := logNext_of_mark short mark first
  have below := arranged.below wrapped
  rw [total_cons] at below
  have inside := arranged.inside
  have next := arranged.next
  rw [if_neg wrapped, total_cons] at next
  refine ⟨?_, ?_, ?_, trivial, ?_, fun nonempty => absurd rfl nonempty,
    fun nonempty => absurd rfl nonempty, ?_⟩
  · have := arranged.counted
    simp only [Log.dropOldest, List.length_cons, List.length_nil] at *
    omega
  · intro later mem
    exact arranged.short later (by simp_all)
  · have rest := arranged.lower.2
    rw [Nat.zero_add] at rest
    rw [moved]
    exact rest
  · rw [if_pos rfl, moved]
    exact next
  · rw [moved]
    change _ ≤ log.logBufLen
    rw [total_nil] at inside
    omega

end Arranged

/-- What is left after some of the oldest records have been given up. -/
theorem Arranged.iterate_dropOldest {log : Log} {high low : List Record}
    (arranged : Arranged log high low) (count : Nat) (within : count ≤ (high ++ low).length) :
    ∃ high' low', Arranged (Log.dropOldest^[count] log) high' low' ∧
      high' ++ low' = (high ++ low).drop count ∧
      (low' ≠ [] → low ≠ [] ∧ (Log.dropOldest^[count] log).logFirstIdx + total high' =
        log.logFirstIdx + total high) := by
  induction count generalizing log high low with
  | zero => exact ⟨high, low, arranged, rfl, fun wrapped => ⟨wrapped, rfl⟩⟩
  | succ count ih =>
      rw [Function.iterate_succ_apply]
      cases high with
      | cons record high =>
          have next := arranged.dropOldest_high
          rcases ih next (by simp at *; omega) with ⟨high', low', left, same, stop⟩
          refine ⟨high', low', left, same, fun wrapped => ⟨(stop wrapped).1, ?_⟩⟩
          have moved : log.dropOldest.logFirstIdx = log.logFirstIdx + record.size :=
            logNext_of_held (arranged.short record (by simp)) arranged.upper.1
          rw [(stop wrapped).2, moved, total_cons, Nat.add_assoc]
      | nil =>
          cases low with
          | nil => simp at within
          | cons record low =>
              rcases ih arranged.dropOldest_low (by simp at *; omega)
                with ⟨high', low', left, same, stop⟩
              refine ⟨high', low', left, by simpa using same, fun wrapped => ?_⟩
              exact absurd rfl (stop wrapped).1

namespace Log

theorem iterate_dropOldest (log : Log) (count : Nat) :
    (dropOldest^[count] log).logBuf = log.logBuf ∧
      (dropOldest^[count] log).logBufLen = log.logBufLen ∧
      (dropOldest^[count] log).logFirstSeq = log.logFirstSeq + count ∧
      (dropOldest^[count] log).logNextSeq = log.logNextSeq ∧
      (dropOldest^[count] log).logNextIdx = log.logNextIdx ∧
      ∀ steps, (dropOldest^[count] log).position steps = log.position (steps + count) := by
  induction count generalizing log with
  | zero => exact ⟨rfl, rfl, rfl, rfl, rfl, fun _ => rfl⟩
  | succ count ih =>
      rw [Function.iterate_succ_apply]
      rcases ih log.dropOldest with ⟨buffer, length, first, next, nextIdx, positions⟩
      refine ⟨buffer, length, ?_, next, nextIdx, fun steps => ?_⟩
      · rw [first]
        change log.logFirstSeq + 1 + count = _
        omega
      · rw [positions, ← Nat.add_assoc]
        rfl

/-- The loop gives up records until there is room or none is left, and none without need. -/
theorem makeRoom_eq (log : Log) (size : Nat) {turns : Nat}
    (enough : turns = log.logNextSeq - log.logFirstSeq) :
    ∃ dropped ≤ turns, log.makeRoom size turns = dropOldest^[dropped] log ∧
      (dropped = turns ∨ size + sizeofLog < (dropOldest^[dropped] log).free) ∧
      ∀ earlier < dropped, (dropOldest^[earlier] log).free ≤ size + sizeofLog := by
  induction turns generalizing log with
  | zero => exact ⟨0, Nat.le_refl _, rfl, Or.inl rfl, fun _ none => absurd none (by omega)⟩
  | succ turns ih =>
      rw [makeRoom, if_pos (by omega)]
      split_ifs with room
      · exact ⟨0, Nat.zero_le _, rfl, Or.inr room, fun _ none => absurd none (by omega)⟩
      · rcases ih log.dropOldest (by simp only [dropOldest]; omega)
          with ⟨dropped, within, same, ends, crowded⟩
        refine ⟨dropped + 1, by omega, same, ?_, fun earlier before => ?_⟩
        · rcases ends with all | room
          · exact Or.inl (by omega)
          · exact Or.inr room
        · cases earlier with
          | zero => exact Nat.le_of_not_gt room
          | succ earlier => exact crowded earlier (by omega)

end Log

namespace Arranged

variable {log : Log} {high low : List Record} {record : Record}

theorem insert_nextIdx (short : record.size < 65536) :
    (log.insert record).logNextIdx = log.logNextIdx + record.size := by
  change log.logNextIdx + msgLen _ _ = _
  rw [msgLen_eq_size short (slice_fillMessage _ _ _)]

theorem short_append (arranged : Arranged log high low) (short : record.size < 65536) :
    ∀ later ∈ high ++ low ++ [record], later.size < 65536 := by
  intro later mem
  rcases List.mem_append.mp mem with old | new
  · exact arranged.short later old
  · rw [List.mem_singleton.mp new]
    exact short

/-- The upper run is continued. -/
theorem insert_high (arranged : Arranged log high []) (short : record.size < 65536)
    (room : log.logNextIdx + record.size + sizeofLog ≤ log.logBufLen) :
    Arranged (log.insert record) (high ++ [record]) [] := by
  have next := arranged.next
  rw [if_pos rfl] at next
  refine ⟨?_, ?_, ?_, trivial, ?_, fun wrapped => absurd rfl wrapped,
    fun wrapped => absurd rfl wrapped, ?_⟩
  · have counted := arranged.counted
    simp only [Log.insert, List.length_append, List.length_cons, List.length_nil] at *
    omega
  · simpa using arranged.short_append short
  · refine held_append.mpr ⟨?_, ?_, trivial⟩
    · apply arranged.upper.congr
      intro offset lower upper
      exact fillMessage_outside (Or.inl (by omega))
    · change (fillMessage _ _ _).slice (log.logFirstIdx + total high) _ = _
      rw [← next, slice_fillMessage]
  · rw [insert_nextIdx short, if_pos rfl, next, total_append, total_cons, total_nil]
    exact Nat.add_assoc _ _ _
  · rw [total_append, total_cons, total_nil]
    change log.logFirstIdx + _ + _ ≤ log.logBufLen
    omega

/-- The lower run is continued. -/
theorem insert_low (arranged : Arranged log high low) (wrapped : low ≠ [])
    (short : record.size < 65536)
    (room : log.logNextIdx + record.size ≤ log.logFirstIdx) :
    Arranged (log.insert record) high (low ++ [record]) := by
  have next := arranged.next
  rw [if_neg wrapped] at next
  have both : low ++ [record] ≠ [] := by simp
  have kept : ∀ offset, log.logFirstIdx ≤ offset →
      (log.insert record).logBuf offset = log.logBuf offset := by
    intro offset above
    exact fillMessage_outside (Or.inr (by omega))
  refine ⟨?_, ?_, ?_, ?_, ?_, fun _ => ?_, fun _ => ?_, arranged.inside⟩
  · have counted := arranged.counted
    simp only [Log.insert, List.length_append, List.length_cons, List.length_nil] at *
    omega
  · simpa using arranged.short_append short
  · exact arranged.upper.congr fun offset lower _ => kept offset lower
  · refine held_append.mpr ⟨?_, ?_, trivial⟩
    · apply arranged.lower.congr
      intro offset lower upper
      exact fillMessage_outside (Or.inl (by omega))
    · rw [Nat.zero_add, ← next]
      exact slice_fillMessage _ _ _
  · rw [insert_nextIdx short, if_neg both, next, total_append, total_cons, total_nil]
    rfl
  · change msgLen (log.insert record).logBuf (log.logFirstIdx + total high) = 0
    rw [msgLen, Buffer.slice_congr (fun offset lower _ => kept offset (by omega)), ← msgLen]
    exact arranged.mark wrapped
  · rw [total_append, total_cons, total_nil]
    change _ ≤ log.logFirstIdx
    omega

/-- A lower run is begun. -/
theorem insert_wrapped (arranged : Arranged log high []) (short : record.size < 65536)
    (room : record.size ≤ log.logFirstIdx) :
    Arranged ({ log with
      logBuf := log.logBuf.write log.logNextIdx (List.replicate sizeofLog 0)
      logNextIdx := 0 }.insert record) high [record] := by
  have next := arranged.next
  rw [if_pos rfl] at next
  have wrapped : [record] ≠ [] := List.cons_ne_nil _ _
  have kept : ∀ offset, log.logFirstIdx ≤ offset → offset < log.logNextIdx →
      fillMessage (log.logBuf.write log.logNextIdx (List.replicate sizeofLog 0)) 0 record offset =
        log.logBuf offset := by
    intro offset above below
    rw [fillMessage_outside (Or.inr (by omega)), Buffer.write_of_lt below]
  refine ⟨?_, ?_, ?_, ?_, ?_, fun _ => ?_, fun _ => ?_, arranged.inside⟩
  · have counted := arranged.counted
    simp only [Log.insert, List.length_cons, List.length_nil] at *
    omega
  · simpa using arranged.short_append short
  · exact arranged.upper.congr fun offset lower upper => kept offset lower (by omega)
  · exact ⟨slice_fillMessage _ _ _, trivial⟩
  · rw [insert_nextIdx short, if_neg wrapped, total_cons, total_nil]
    exact Nat.zero_add _
  · change msgLen (fillMessage _ 0 record) (log.logFirstIdx + total high) = 0
    rw [← next, msgLen, Buffer.slice_congr (fun offset lower _ =>
      fillMessage_outside (Or.inr (by omega))), ← msgLen]
    exact msgLen_write_zeros _ _
  · rw [total_cons, total_nil]
    exact room

/-- With enough room the record comes behind the others, and the indices of these stay. -/
theorem insert_wrap (arranged : Arranged log high low) (fits : Fits log.logBufLen record)
    (room : high ++ low = [] ∨ record.size + sizeofLog < log.free) :
    ∃ high' low', Arranged ((log.wrap record.size).insert record) high' low' ∧
      high' ++ low' = high ++ low ++ [record] ∧
      (low' ≠ [] → high' = high ∧
        (low = [] → log.logBufLen ≤ log.logNextIdx + record.size + sizeofLog)) ∧
      ∀ steps ≤ (high ++ low).length,
        ((log.wrap record.size).insert record).position steps = log.position steps := by
  have header := arranged.inside
  have next := arranged.next
  cases low with
  | nil =>
      rw [if_pos rfl] at next
      by_cases behind : log.logNextIdx + record.size + sizeofLog ≥ log.logBufLen
      · -- The free range is the one in front of the first record, or all of the buffer.
        have front : record.size ≤ log.logFirstIdx := by
          have half := fits.half
          rcases room with none | some
          · simp only [List.append_nil] at none
            subst none
            rw [total_nil] at next
            omega
          · rw [Log.free] at some
            split_ifs at some <;> omega
        have placed := arranged.insert_wrapped fits.field front
        rw [Log.wrap, if_pos behind]
        refine ⟨high, [record], placed, by simp, fun _ => ⟨rfl, fun _ => behind⟩,
          fun steps within => ?_⟩
        simp only [List.append_nil] at within
        rw [placed.position_high within, arranged.position_high within]
        rfl
      · have placed := arranged.insert_high fits.field (by omega)
        rw [Log.wrap, if_neg behind]
        refine ⟨high ++ [record], [], placed, by simp, fun flat => absurd rfl flat,
          fun steps within => ?_⟩
        simp only [List.append_nil] at within
        rw [placed.position_high (by simp; omega), arranged.position_high within,
          List.take_append_of_le_length within]
        rfl
  | cons first rest =>
      have wrapped : first :: rest ≠ [] := List.cons_ne_nil _ _
      rw [if_neg wrapped] at next
      have below := arranged.below wrapped
      have between : record.size + sizeofLog < log.logFirstIdx - log.logNextIdx := by
        rcases room with none | some
        · simp at none
        · rwa [Log.free, if_neg (by omega)] at some
      have placed := arranged.insert_low wrapped fits.field (by omega)
      rw [Log.wrap, if_neg (by omega)]
      refine ⟨high, first :: rest ++ [record], placed, by simp,
        fun _ => ⟨rfl, fun flat => absurd flat wrapped⟩, fun steps within => ?_⟩
      rcases Nat.lt_or_ge high.length steps with inLow | inHigh
      · obtain ⟨more, rfl⟩ := Nat.exists_eq_add_of_lt inLow
        rw [List.length_append] at within
        rw [Nat.add_assoc, placed.position_low (by simp at *; omega),
          arranged.position_low (by omega), List.take_append_of_le_length (by omega)]
      · rw [placed.position_high inHigh, arranged.position_high inHigh]
        rfl

/-- Some of the oldest records are given up and one is appended. -/
structure Stores (log : Log) (high low : List Record) (record : Record) (dropped : Nat)
    (high' low' : List Record) : Prop where
  arranged : Arranged (log.store record) high' low'
  within : dropped ≤ (high ++ low).length
  joined : high' ++ low' = (high ++ low).drop dropped ++ [record]
  first : (log.store record).logFirstSeq = log.logFirstSeq + dropped
  /-- A reader that has not lost its record has the same index. -/
  positions : ∀ steps, dropped ≤ steps → steps ≤ (high ++ low).length →
    (log.store record).position (steps - dropped) = log.position steps
  /-- No record is given up without need. -/
  crowded : ∀ earlier < dropped,
    (Log.dropOldest^[earlier] log).free ≤ record.size + sizeofLog
  /-- Where the buffer was wrapped. -/
  turn : low' ≠ [] →
    low ≠ [] ∧ (log.store record).logFirstIdx + total high' = log.logFirstIdx + total high ∨
      log.logBufLen ≤
        (log.store record).logFirstIdx + total high' + record.size + sizeofLog

theorem store (arranged : Arranged log high low) (fits : Fits log.logBufLen record) :
    ∃ dropped high' low', Stores log high low record dropped high' low' := by
  have counted := arranged.counted
  rcases log.makeRoom_eq record.size rfl with ⟨dropped, within, room, ends, crowded⟩
  rcases log.iterate_dropOldest dropped with ⟨-, length, first, -, -, positions⟩
  rcases arranged.iterate_dropOldest dropped (by rw [List.length_append]; omega)
    with ⟨upper, lower, left, same, turned⟩
  have space : upper ++ lower = [] ∨
      record.size + sizeofLog < (Log.dropOldest^[dropped] log).free := by
    rcases ends with all | room
    · left
      rw [same, List.drop_eq_nil_of_le]
      rw [List.length_append]
      omega
    · exact Or.inr room
  rw [← length] at fits
  rcases left.insert_wrap fits space with ⟨high', low', placed, joined, turn, kept⟩
  have stored : log.store record =
      ((Log.dropOldest^[dropped] log).wrap record.size).insert record := by
    rw [Log.store, room]
  have sameFirst : (log.store record).logFirstIdx = (Log.dropOldest^[dropped] log).logFirstIdx ∧
      (log.store record).logFirstSeq = (Log.dropOldest^[dropped] log).logFirstSeq := by
    rw [stored, Log.wrap]
    split_ifs <;> exact ⟨rfl, rfl⟩
  refine ⟨dropped, high', low', ?_, ?_, ?_, ?_, ?_, crowded, fun wrapped => ?_⟩
  · rw [stored]
    exact placed
  · rw [List.length_append]
    omega
  · rw [joined, same]
  · rw [sameFirst.2, first]
  · intro steps lower upper
    rw [stored, kept _ (by rw [same, List.length_drop]; omega), positions,
      Nat.sub_add_cancel lower]
  · rcases turn wrapped with ⟨rfl, begun⟩
    rw [sameFirst.1]
    by_cases flat : lower = []
    · right
      have next := left.next
      rw [if_pos flat] at next
      rw [← length, ← next]
      exact begun flat
    · exact Or.inl (turned flat)

/-- Only bytes of the buffer are written. -/
theorem store_outside (arranged : Arranged log high low) (fits : Fits log.logBufLen record)
    {offset : Nat} (outside : log.logBufLen ≤ offset) :
    (log.store record).logBuf offset = log.logBuf offset := by
  rcases log.makeRoom_eq record.size rfl with ⟨dropped, within, room, -, -⟩
  rcases log.iterate_dropOldest dropped with ⟨buffer, length, -, -, nextIdx, -⟩
  have half := fits.half
  have next := arranged.next
  have inside := arranged.inside
  have header : log.logNextIdx + sizeofLog ≤ log.logBufLen := by
    split_ifs at next with flat
    · omega
    · have := arranged.below flat
      omega
  rw [Log.store, room, Log.wrap, nextIdx, length]
  split_ifs with behind
  · change fillMessage (Buffer.write _ _ _) 0 record offset = _
    rw [fillMessage_outside (Or.inr (by omega)), Buffer.write_of_ge, buffer]
    rw [List.length_replicate]
    omega
  · change fillMessage _ _ record offset = _
    rw [fillMessage_outside (Or.inr (by rw [nextIdx]; omega)), buffer]

end Arranged

namespace Log

theorem logBufLen_store (log : Log) (record : Record) :
    (log.store record).logBufLen = log.logBufLen := by
  rcases log.makeRoom_eq record.size rfl with ⟨dropped, -, room, -, -⟩
  rw [store, room, wrap]
  split_ifs <;> exact (log.iterate_dropOldest dropped).2.1

theorem logNextSeq_store (log : Log) (record : Record) :
    (log.store record).logNextSeq = log.logNextSeq + 1 := by
  rcases log.makeRoom_eq record.size rfl with ⟨dropped, -, room, -, -⟩
  have same := (log.iterate_dropOldest dropped).2.2.2.1
  rw [store, room, wrap]
  split_ifs <;> exact congrArg (· + 1) same

/-- The calls of `log_store` in their order. -/
def logStoreAll (log : Log) (calls : List StoreCall) : Log := calls.foldl logStore log

/-- What a run of calls keeps: the newest records are there, and only the buffer is written. -/
structure Keeps (buffer : Buffer) (length : Nat) (stored : List Record) (log : Log) : Prop where
  arranged : ∃ high low, Arranged log high low
  capacity : log.logBufLen = length
  next : log.logNextSeq = stored.length
  records : log.records = stored.drop log.logFirstSeq
  outside : ∀ offset, length ≤ offset → log.logBuf offset = buffer offset

theorem Keeps.store {buffer : Buffer} {length : Nat} {stored : List Record} {log : Log}
    (keeps : Keeps buffer length stored log) {record : Record} (fits : Fits length record) :
    Keeps buffer length (stored ++ [record]) (log.store record) := by
  rcases keeps.arranged with ⟨high, low, arranged⟩
  rw [← keeps.capacity] at fits
  rcases arranged.store fits with ⟨dropped, high', low', stores⟩
  refine ⟨⟨high', low', stores.arranged⟩, ?_, ?_, ?_, ?_⟩
  · rw [logBufLen_store, keeps.capacity]
  · rw [logNextSeq_store, keeps.next, List.length_append, List.length_singleton]
  · have before := keeps.records
    rw [arranged.records_eq] at before
    have bound : log.logFirstSeq + dropped ≤ stored.length := by
      have counted := arranged.counted
      have within := stores.within
      rw [List.length_append] at within
      have := keeps.next
      omega
    rw [stores.arranged.records_eq, stores.joined, before, List.drop_drop, stores.first,
      List.drop_append_of_le_length bound]
  · intro offset outside
    rw [arranged.store_outside fits (by rw [keeps.capacity]; exact outside),
      keeps.outside offset outside]

theorem Keeps.logStoreAll {buffer : Buffer} {length : Nat} {stored : List Record} {log : Log}
    (keeps : Keeps buffer length stored log) {calls : List StoreCall}
    (fits : ∀ call ∈ calls, Fits length call.record) :
    Keeps buffer length (stored ++ calls.map StoreCall.record) (log.logStoreAll calls) := by
  induction calls generalizing stored log with
  | nil => simpa [Log.logStoreAll] using keeps
  | cons call calls ih =>
      have next := ih (keeps.store (fits call List.mem_cons_self))
        (fun later mem => fits later (List.mem_cons_of_mem _ mem))
      simpa [Log.logStoreAll, Log.logStore] using next

/-- A call with a text of four bytes. -/
def shortCall (byte : Byte) : StoreCall :=
  ⟨0, 6, logNewline, 0, 1000, Text.empty, ⟨[byte, byte, byte, byte], by simp⟩⟩

end Log

end Gray386.Printk
