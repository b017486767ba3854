import Gray386.Machine.Buffer

/-!
# Records of the kernel log

A record of the log buffer is a `struct log` with its text and its dictionary behind it,
padded so that the next header is aligned (`kernel/printk.c`). The header has the length of
the whole record, the lengths of the two parts, the time and, in one byte, the flags and the
level.

`fillMessage` is what `log_store` does to the buffer, in the order of its assignments, and
`messageAt` reads a record through the pointers that the readers use. In between are the
bytes of a record, `Record.bytes`.
-/

namespace Gray386.Printk

open Gray386.Machine

/-- `enum log_flags`, in the five bits that a record has for them. -/
abbrev LogFlags := BitVec 5

def logNocons : LogFlags := 1
def logNewline : LogFlags := 2
def logPrefix : LogFlags := 4
def logCont : LogFlags := 8

/-- `flags & mask`, as a condition. -/
def LogFlags.has (flags mask : LogFlags) : Bool := flags &&& mask != 0

/-- `LOG_LINE_MAX`. -/
def logLineMax : Nat := 992

/-- Bytes whose number fits into a `u16`. -/
abbrev Text := { bytes : List Byte // bytes.length < 65536 }

def Text.empty : Text := ⟨[], Nat.zero_lt_succ _⟩

/-- What a record says. -/
structure Record where
  tsNsec : BitVec 64
  facility : Byte
  flags : LogFlags
  level : BitVec 3
  text : Text
  dict : Text
  deriving DecidableEq

/-- `sizeof(struct log)`. -/
def sizeofLog : Nat := 16

/-- `LOG_ALIGN`, with `CONFIG_HAVE_EFFICIENT_UNALIGNED_ACCESS`. -/
def logAlign : Nat := 4

/-- `(-size) & (LOG_ALIGN - 1)`. -/
def padLen (size : Nat) : Nat := (4294967296 - size) % logAlign

namespace Record

/-- `(msg->facility << 3) | msg->level`. -/
def priority (record : Record) : Nat := 8 * record.facility.toNat + record.level.toNat

theorem priority_lt (record : Record) : record.priority < 2048 := by
  have := record.facility.isLt
  have := record.level.isLt
  rw [priority]
  omega

/-- The size without the padding. -/
def bareSize (record : Record) : Nat :=
  sizeofLog + record.text.1.length + record.dict.1.length

/-- The size that `log_store` computes. -/
def size (record : Record) : Nat :=
  record.bareSize + padLen record.bareSize

end Record

variable (buffer : Buffer) (msg : Nat)

def msgTsNsec : BitVec 64 := BitVec.ofNat 64 (leNat (buffer.slice msg 8))
def msgLen : Nat := leNat (buffer.slice (msg + 8) 2)
def msgTextLen : Nat := leNat (buffer.slice (msg + 10) 2)
def msgDictLen : Nat := leNat (buffer.slice (msg + 12) 2)
def msgFacility : Byte := buffer (msg + 14)
def msgFlags : LogFlags := (buffer (msg + 15)).setWidth 5
def msgLevel : BitVec 3 := (buffer (msg + 15)).extractLsb' 5 3

/-- `log_text`. -/
def logText (msg : Nat) : Nat := msg + sizeofLog

/-- `log_dict`. -/
def logDict : Nat := msg + sizeofLog + msgTextLen buffer msg

theorem leNat_slice_two_lt (start : Nat) : leNat (buffer.slice start 2) < 65536 := by
  have bound := leNat_lt (buffer.slice start 2)
  rw [Buffer.length_slice] at bound
  omega

/-- The record that a reader finds. -/
def messageAt : Record where
  tsNsec := msgTsNsec buffer msg
  facility := msgFacility buffer msg
  flags := msgFlags buffer msg
  level := msgLevel buffer msg
  text := ⟨buffer.slice (logText msg) (msgTextLen buffer msg), by
    rw [Buffer.length_slice]
    exact leNat_slice_two_lt buffer _⟩
  dict := ⟨buffer.slice (logDict buffer msg) (msgDictLen buffer msg), by
    rw [Buffer.length_slice]
    exact leNat_slice_two_lt buffer _⟩

/-- An assignment to the bit field `level`. -/
def setLevel (byte : Byte) (level : BitVec 3) : Byte := level ++ byte.setWidth 5

/-- An assignment to the bit field `flags`. -/
def setFlags (byte : Byte) (flags : LogFlags) : Byte := byte.extractLsb' 5 3 ++ flags

/-- The part of `log_store` from "fill message" to "insert message". -/
def fillMessage (record : Record) : Buffer :=
  let buffer := buffer.write (logText msg) record.text.1
  let buffer := buffer.write (msg + 10) (leBytes 2 record.text.1.length)
  let buffer := buffer.write (logDict buffer msg) record.dict.1
  let buffer := buffer.write (msg + 12) (leBytes 2 record.dict.1.length)
  let buffer := buffer.write (msg + 14) [record.facility]
  let buffer := buffer.write (msg + 15) [setLevel (buffer (msg + 15)) record.level]
  let buffer := buffer.write (msg + 15) [setFlags (buffer (msg + 15)) record.flags]
  let buffer := buffer.write msg (leBytes 8 record.tsNsec.toNat)
  let padLen := padLen record.bareSize
  let buffer :=
    buffer.write (logDict buffer msg + record.dict.1.length) (List.replicate padLen 0)
  buffer.write (msg + 8) (leBytes 2 (record.bareSize + padLen))

namespace Record

def header (record : Record) : List Byte :=
  leBytes 8 record.tsNsec.toNat ++ leBytes 2 record.size ++ leBytes 2 record.text.1.length ++
    leBytes 2 record.dict.1.length ++ [record.facility, record.level ++ record.flags]

def bytes (record : Record) : List Byte :=
  record.header ++ record.text.1 ++ record.dict.1 ++ List.replicate (padLen record.bareSize) 0

@[simp]
theorem length_header (record : Record) : record.header.length = sizeofLog := by
  simp [header, sizeofLog]

@[simp]
theorem length_bytes (record : Record) : record.bytes.length = record.size := by
  simp only [bytes, size, bareSize, List.length_append, length_header, List.length_replicate]

theorem sizeofLog_le_size (record : Record) : sizeofLog ≤ record.size := by
  simp only [size, bareSize]
  omega

end Record

theorem setWidth_level_append_flags (level : BitVec 3) (flags : LogFlags) :
    (level ++ flags : Byte).setWidth 5 = flags := by
  apply BitVec.eq_of_getLsbD_eq
  intro bit bit_lt
  rw [BitVec.getLsbD_setWidth, BitVec.getLsbD_append]
  simp [bit_lt]

theorem extract_level_append_flags (level : BitVec 3) (flags : LogFlags) :
    (level ++ flags : Byte).extractLsb' 5 3 = level := by
  apply BitVec.eq_of_getLsbD_eq
  intro bit bit_lt
  rw [BitVec.getLsbD_extractLsb', BitVec.getLsbD_append]
  simp [bit_lt]

variable {buffer msg}

/-- The fields of the header that is in the buffer. -/
theorem header_of_slice {record : Record} (held : buffer.slice msg 16 = record.header) :
    msgTsNsec buffer msg = record.tsNsec ∧ msgLen buffer msg = record.size % 65536 ∧
      msgTextLen buffer msg = record.text.1.length ∧
      msgDictLen buffer msg = record.dict.1.length ∧ msgFacility buffer msg = record.facility ∧
      msgFlags buffer msg = record.flags ∧ msgLevel buffer msg = record.level := by
  have split : buffer.slice msg 8 = leBytes 8 record.tsNsec.toNat ∧
      buffer.slice (msg + 8) 2 = leBytes 2 record.size ∧
      buffer.slice (msg + 10) 2 = leBytes 2 record.text.1.length ∧
      buffer.slice (msg + 12) 2 = leBytes 2 record.dict.1.length ∧
      buffer.slice (msg + 14) 2 = [record.facility, record.level ++ record.flags] := by
    rw [show 16 = 8 + 2 + 2 + 2 + 2 by rfl, Buffer.slice_add, Buffer.slice_add, Buffer.slice_add,
      Buffer.slice_add, Record.header] at held
    have first := List.append_inj held (by simp)
    have second := List.append_inj first.1 (by simp)
    have third := List.append_inj second.1 (by simp)
    have fourth := List.append_inj third.1 (by simp)
    exact ⟨fourth.1, fourth.2, third.2, second.2, first.2⟩
  rcases split with ⟨ts, len, textLen, dictLen, last⟩
  simp only [Buffer.slice, List.cons.injEq, and_true] at last
  refine ⟨?_, ?_, ?_, ?_, last.1, ?_, ?_⟩
  · rw [msgTsNsec, ts, leNat_leBytes_of_lt record.tsNsec.isLt, BitVec.ofNat_toNat,
      BitVec.setWidth_eq]
  · rw [msgLen, len, leNat_leBytes]
    rfl
  · rw [msgTextLen, textLen, leNat_leBytes_of_lt record.text.2]
  · rw [msgDictLen, dictLen, leNat_leBytes_of_lt record.dict.2]
  · rw [msgFlags, last.2]
    exact setWidth_level_append_flags _ _
  · rw [msgLevel, last.2]
    exact extract_level_append_flags _ _

/-- A record that is in the buffer is what a reader finds. -/
theorem messageAt_of_slice {record : Record}
    (held : buffer.slice msg record.size = record.bytes) : messageAt buffer msg = record := by
  rw [← Record.length_bytes, Record.bytes] at held
  have unpadded := (Buffer.slice_append_iff.mp held).1
  rcases Buffer.slice_append_iff.mp unpadded with ⟨front, dict⟩
  rcases Buffer.slice_append_iff.mp front with ⟨header, text⟩
  rw [Record.length_header] at header
  rcases header_of_slice header with ⟨ts, -, textLen, dictLen, facility, flags, level⟩
  have dictStart : logDict buffer msg = msg + (record.header ++ record.text.1).length := by
    rw [logDict, textLen, List.length_append, Record.length_header, Nat.add_assoc]
  rw [Record.length_header] at text
  unfold messageAt
  simp only [ts, facility, flags, level, textLen, dictLen, logText, dictStart, text, dict]

theorem msgLen_of_slice {record : Record}
    (held : buffer.slice msg record.size = record.bytes) :
    msgLen buffer msg = record.size % 65536 := by
  rw [← Record.length_bytes, Record.bytes, List.append_assoc, List.append_assoc] at held
  have header := (Buffer.slice_append_iff.mp held).1
  rw [Record.length_header] at header
  exact (header_of_slice header).2.1

theorem setFlags_setLevel (byte : Byte) (level : BitVec 3) (flags : LogFlags) :
    setFlags (setLevel byte level) flags = level ++ flags := by
  rw [setFlags, setLevel, extract_level_append_flags]

/-- The pointer to the dictionary, once the length of the text is stored. -/
theorem logDict_of_slice {length : Nat} (fits : length < 65536)
    (stored : buffer.slice (msg + 10) 2 = leBytes 2 length) :
    logDict buffer msg = msg + sizeofLog + length := by
  rw [logDict, msgTextLen, stored, leNat_leBytes_of_lt fits]

theorem logDict_write {address : Nat} {bytes : List Byte}
    (apart : msg + 12 ≤ address ∨ address + bytes.length ≤ msg + 10) :
    logDict (buffer.write address bytes) msg = logDict buffer msg := by
  rw [logDict, logDict, msgTextLen, msgTextLen, Buffer.slice_write_of_disjoint apart]

/-- The writes with their addresses; `byte` is what the assignment of the level leaves. -/
def storeWrites (msg : Nat) (record : Record) (byte : Byte) : List (Nat × List Byte) :=
  [(msg + 16, record.text.1), (msg + 10, leBytes 2 record.text.1.length),
    (msg + 16 + record.text.1.length, record.dict.1), (msg + 12, leBytes 2 record.dict.1.length),
    (msg + 14, [record.facility]), (msg + 15, [byte]), (msg + 15, [record.level ++ record.flags]),
    (msg, leBytes 8 record.tsNsec.toNat),
    (msg + 16 + record.text.1.length + record.dict.1.length,
      List.replicate (padLen record.bareSize) 0), (msg + 8, leBytes 2 record.size)]

theorem fillMessage_eq_writeAll (buffer : Buffer) (msg : Nat) (record : Record) :
    ∃ byte, fillMessage buffer msg record = buffer.writeAll (storeWrites msg record byte) := by
  have stored : ∀ before : Buffer,
      logDict (before.write (msg + 10) (leBytes 2 record.text.1.length)) msg =
        msg + 16 + record.text.1.length := by
    intro before
    apply logDict_of_slice record.text.2
    simpa using Buffer.slice_write before (msg + 10) (leBytes 2 record.text.1.length)
  have assigned : ∀ (before : Buffer) (byte : Byte),
      before.write (msg + 15) [byte] (msg + 15) = byte := by
    intro before byte
    simp [Buffer.write]
  refine ⟨?_, ?_⟩
  rotate_left
  · simp only [fillMessage, stored, logText, sizeofLog]
    rw [logDict_write (Or.inr (by simp)), logDict_write (Or.inl (by omega)),
      logDict_write (Or.inl (by omega)), logDict_write (Or.inl (by omega)),
      logDict_write (Or.inl (by omega)), logDict_write (Or.inl (by omega)), stored, assigned,
      setFlags_setLevel]
    rfl

/-- Outside of the record nothing is written. -/
theorem fillMessage_outside {record : Record} {offset : Nat}
    (outside : offset < msg ∨ msg + record.size ≤ offset) :
    fillMessage buffer msg record offset = buffer offset := by
  rcases fillMessage_eq_writeAll buffer msg record with ⟨byte, writes⟩
  rw [writes]
  apply Buffer.writeAll_of_outside
  simp only [Record.size, Record.bareSize, sizeofLog] at outside
  simp [storeWrites, Record.bareSize, sizeofLog]
  omega

/-- What is written is the record. -/
theorem slice_fillMessage (buffer : Buffer) (msg : Nat) (record : Record) :
    (fillMessage buffer msg record).slice msg record.size = record.bytes := by
  rcases fillMessage_eq_writeAll buffer msg record with ⟨byte, writes⟩
  have stored : ∀ (index : Nat) {start : Nat} {bytes : List Byte},
      (storeWrites msg record byte)[index]? = some (start, bytes) →
      (∀ later ∈ (storeWrites msg record byte).drop (index + 1),
        start + bytes.length ≤ later.1 ∨ later.1 + later.2.length ≤ start) →
      (fillMessage buffer msg record).slice start bytes.length = bytes := by
    intro index start bytes here apart
    rw [writes]
    exact Buffer.slice_writeAll index here apart
  -- Each part of the record is written once and not met by a later write.
  have ts := stored 7 rfl (by simp [storeWrites]; omega)
  have len := stored 9 rfl (by simp [storeWrites])
  have textLen := stored 1 rfl (by simp [storeWrites]; omega)
  have dictLen := stored 3 rfl (by simp [storeWrites]; omega)
  have facility := stored 4 rfl (by simp [storeWrites]; omega)
  have last := stored 6 rfl (by simp [storeWrites]; omega)
  have text := stored 0 rfl (by simp [storeWrites])
  have dict := stored 2 rfl (by simp [storeWrites]; omega)
  have pad := stored 8 rfl (by simp [storeWrites]; omega)
  have ends := Buffer.slice_append_iff.mpr ⟨facility, last⟩
  rw [← Record.length_bytes, Record.bytes, Record.header]
  simp only [List.append_assoc, Buffer.slice_append_iff]
  simp only [length_leBytes] at *
  exact ⟨ts, len, textLen, dictLen, ends, text, dict, pad⟩

end Gray386.Printk
