import Gray386.Machine.Format
import Gray386.Printk.Record

/-!
# The lines of /dev/kmsg

`devkmsg_read` formats one record into a buffer of 8192 bytes: a header with the priority,
the number of the record, its time in microseconds and a mark for continuation lines, then
the text and, line by line, the dictionary. Bytes that are not printable, and the backslash,
are written in hexadecimal (`kernel/printk.c`).

The format is meant to be read by programs, so everything has to be found again in a line.
`Line.parse` is the reader that `Documentation/ABI/testing/dev-kmsg` describes; it recovers
what the record says, whatever bytes the text and the dictionary have.
-/

namespace Gray386.Printk

open Gray386.Machine

/-- The mark for continuation lines. -/
def contMark (prev flags : LogFlags) : Byte :=
  if flags.has logCont && !prev.has logCont then ascii 'c'
  else if flags.has logCont || prev.has logCont && !flags.has logPrefix then ascii '+'
  else ascii '-'

/-- `c < ' ' || c >= 127 || c == '\\'`. -/
def NotPrintable (c : Byte) : Prop := c.toNat < 32 ∨ 127 ≤ c.toNat ∨ c = 92

instance (c : Byte) : Decidable (NotPrintable c) := inferInstanceAs (Decidable (_ ∨ _))

/-- One byte of the text or of the dictionary. -/
def escape (c : Byte) : List Byte :=
  if NotPrintable c then 92 :: ascii 'x' :: hexByte c else [c]

/-- The loop over the dictionary; `line` is the variable of that name. -/
def exportDict : Bool → List Byte → List Byte
  | _, [] => [10]
  | line, c :: rest =>
      (if line then [32] else []) ++
        (if c = 0 then 10 :: exportDict true rest else escape c ++ exportDict false rest)

/-- `sprintf(user->buf, "%u,%llu,%llu,%c;", ...)`. -/
def exportHeader (prev : LogFlags) (seq : Nat) (record : Record) : List Byte :=
  decimal record.priority ++ ascii ',' :: (decimal seq ++ ascii ',' ::
    (decimal (record.tsNsec.toNat / 1000) ++ [ascii ',', contMark prev record.flags, ascii ';']))

/-- What `devkmsg_read` puts into `user->buf`. -/
def exportRecord (prev : LogFlags) (seq : Nat) (record : Record) : List Byte :=
  exportHeader prev seq record ++ (record.text.1.flatMap escape ++ 10 ::
    (if record.dict.1 = [] then [] else exportDict true record.dict.1))

/-- The bytes up to a separator, and those behind it. -/
def field (separator : Byte) (bytes : List Byte) : List Byte × List Byte :=
  (bytes.takeWhile (· ≠ separator), (bytes.dropWhile (· ≠ separator)).drop 1)

/-- The text that was escaped. -/
def unescape : List Byte → List Byte
  | [] => []
  | c :: rest =>
      if c = 92 then
        match rest with
        | _ :: high :: low :: rest => hexValue high low :: unescape rest
        | _ => []
      else c :: unescape rest

/-- The dictionary; the flag says whether a line begins. -/
def readDict : Bool → List Byte → List Byte
  | _, [] => []
  | line, c :: rest =>
      if c = 10 then
        if rest = [] then [] else 0 :: readDict true rest
      else if line = true ∧ c = 32 then readDict false rest
      else if c = 92 then
        match rest with
        | _ :: high :: low :: rest => hexValue high low :: readDict false rest
        | _ => []
      else c :: readDict false rest

/-- What is said in a line. -/
structure Line where
  priority : Nat
  seq : Nat
  usec : Nat
  mark : List Byte
  text : List Byte
  dict : List Byte
  deriving DecidableEq

/-- What is said about a record. -/
def Record.line (record : Record) (seq : Nat) (mark : Byte) : Line :=
  ⟨record.priority, seq, record.tsNsec.toNat / 1000, [mark], record.text.1, record.dict.1⟩

def Line.parse (bytes : List Byte) : Line :=
  let (priority, bytes) := field (ascii ',') bytes
  let (seq, bytes) := field (ascii ',') bytes
  let (usec, bytes) := field (ascii ',') bytes
  let (mark, bytes) := field (ascii ';') bytes
  let (text, bytes) := field 10 bytes
  ⟨decimalValue priority, decimalValue seq, decimalValue usec, mark, unescape text,
    readDict true bytes⟩

theorem field_append {separator : Byte} {bytes rest : List Byte}
    (without : ∀ byte ∈ bytes, byte ≠ separator) :
    field separator (bytes ++ separator :: rest) = (bytes, rest) := by
  have all : ∀ byte ∈ bytes, decide (byte ≠ separator) = true := by
    simpa using without
  rw [field, List.takeWhile_append_of_pos all, List.dropWhile_append_of_pos all]
  simp

theorem field_decimal {separator : Byte} (number : Nat) (rest : List Byte)
    (outside : separator.toNat < 48 ∨ 57 < separator.toNat) :
    field separator (decimal number ++ separator :: rest) = (decimal number, rest) := by
  apply field_append
  rintro byte mem rfl
  have digit := isDigit_of_mem_decimal mem
  rw [IsDigit] at digit
  omega

theorem hexDigit_printable {value : Nat} (small : value < 16) :
    32 ≤ (hexDigit value).toNat ∧ (hexDigit value).toNat < 127 := by
  rw [hexDigit]
  split_ifs <;> rw [BitVec.toNat_ofNat, Nat.mod_eq_of_lt (by omega)] <;> omega

/-- An escaped byte is never a newline. -/
theorem ne_newline_of_mem_escape {c byte : Byte} (mem : byte ∈ escape c) : byte ≠ 10 := by
  have small := c.isLt
  have printable : 32 ≤ byte.toNat := by
    rw [escape] at mem
    split_ifs at mem with special
    · simp only [hexByte, List.mem_cons, List.not_mem_nil, or_false] at mem
      rcases mem with rfl | rfl | rfl | rfl
      · decide
      · decide
      · exact (hexDigit_printable (by omega)).1
      · exact (hexDigit_printable (by omega)).1
    · rw [List.mem_singleton.mp mem]
      simp only [NotPrintable, not_or] at special
      omega
  rintro rfl
  simp at printable

theorem unescape_of_ne {c : Byte} (plain : c ≠ 92) (rest : List Byte) :
    unescape (c :: rest) = c :: unescape rest := by
  rw [unescape.eq_def]
  exact if_neg plain

theorem readDict_newline (line : Bool) {rest : List Byte} (more : rest ≠ []) :
    readDict line (10 :: rest) = 0 :: readDict true rest := by
  rw [readDict.eq_def]
  simp [more]

theorem readDict_space (rest : List Byte) : readDict true (32 :: rest) = readDict false rest := by
  rw [readDict.eq_def]
  simp

theorem readDict_of_ne {c : Byte} (newline : c ≠ 10) (plain : c ≠ 92) (rest : List Byte) :
    readDict false (c :: rest) = c :: readDict false rest := by
  rw [readDict.eq_def]
  exact (if_neg newline).trans ((if_neg (by simp)).trans (if_neg plain))

theorem unescape_escape (c : Byte) (rest : List Byte) :
    unescape (escape c ++ rest) = c :: unescape rest := by
  rw [escape]
  split_ifs with special
  · simp only [hexByte, List.cons_append, List.nil_append]
    rw [unescape, if_pos rfl, hexValue_hexByte]
  · simp only [NotPrintable, not_or] at special
    exact unescape_of_ne special.2.2 rest

theorem unescape_flatMap (text : List Byte) : unescape (text.flatMap escape) = text := by
  induction text with
  | nil => rfl
  | cons c text ih => rw [List.flatMap_cons, unescape_escape, ih]

theorem exportDict_ne_nil (line : Bool) (dict : List Byte) : exportDict line dict ≠ [] := by
  cases dict with
  | nil => simp [exportDict]
  | cons c rest =>
      rw [exportDict]
      split_ifs
      · simp
      · simp
      · simp
      · rw [escape]
        split_ifs <;> simp

theorem readDict_escape {c : Byte} (nonzero : c ≠ 0) (rest : List Byte) :
    readDict false (escape c ++ rest) = c :: readDict false rest := by
  rw [escape]
  split_ifs with special
  · simp only [hexByte, List.cons_append, List.nil_append]
    rw [readDict, if_neg (by decide), if_neg (by simp), if_pos rfl, hexValue_hexByte]
  · simp only [NotPrintable, not_or] at special
    have notNewline : c ≠ 10 := by
      rintro rfl
      simp at special
    exact readDict_of_ne notNewline special.2.2 rest

theorem readDict_exportDict (line : Bool) (dict : List Byte) :
    readDict line (exportDict line dict) = dict := by
  induction dict generalizing line with
  | nil => cases line <;> rfl
  | cons c rest ih =>
      have inside : readDict false (if c = 0 then 10 :: exportDict true rest
          else escape c ++ exportDict false rest) = c :: rest := by
        split_ifs with zero
        · rw [readDict_newline _ (exportDict_ne_nil _ _), ih, zero]
        · rw [readDict_escape zero, ih]
      rw [exportDict]
      cases line with
      | false => simpa using inside
      | true =>
          simp only [if_true, List.singleton_append]
          rw [readDict_space, inside]

/-- A line of /dev/kmsg says what the record says. -/
theorem parse_exportRecord (prev : LogFlags) (seq : Nat) (record : Record) :
    Line.parse (exportRecord prev seq record) =
      record.line seq (contMark prev record.flags) := by
  have mark : ∀ byte ∈ [contMark prev record.flags], byte ≠ ascii ';' := by
    intro byte mem
    rw [List.mem_singleton.mp mem, contMark]
    split_ifs <;> decide
  have text : ∀ byte ∈ record.text.1.flatMap escape, byte ≠ 10 := by
    intro byte mem
    rcases List.mem_flatMap.mp mem with ⟨c, -, inside⟩
    exact ne_newline_of_mem_escape inside
  have dict : readDict true (if record.dict.1 = [] then [] else exportDict true record.dict.1) =
      record.dict.1 := by
    split_ifs with none
    · rw [none, readDict]
    · exact readDict_exportDict true record.dict.1
  rw [exportRecord, exportHeader, Line.parse]
  simp only [List.append_assoc, List.cons_append, List.nil_append]
  rw [field_decimal _ _ (by decide)]
  simp only
  rw [field_decimal _ _ (by decide)]
  simp only
  rw [field_decimal _ _ (by decide)]
  simp only
  rw [← List.singleton_append, field_append mark]
  simp only
  rw [field_append text]
  simp only [decimalValue_decimal, unescape_flatMap, dict]
  rfl

theorem length_escape_le (c : Byte) : (escape c).length ≤ 4 := by
  rw [escape]
  split_ifs <;> simp [hexByte]

theorem length_flatMap_escape_le (text : List Byte) :
    (text.flatMap escape).length ≤ 4 * text.length := by
  induction text with
  | nil => simp
  | cons c text ih =>
      have first := length_escape_le c
      rw [List.flatMap_cons, List.length_append, List.length_cons]
      omega

/-- A byte takes four bytes at most; the space in front of a line is paid by the newline. -/
theorem length_exportDict_le (line : Bool) (dict : List Byte) :
    (exportDict line dict).length ≤ 4 * dict.length + (if line ∧ dict ≠ [] then 2 else 1) := by
  induction dict generalizing line with
  | nil => simp [exportDict]
  | cons c rest ih =>
      have first := length_escape_le c
      have again := ih true
      have within := ih false
      rw [exportDict, List.length_append, List.length_cons]
      split_ifs at * <;> simp_all <;> omega

/-- The buffer of `struct devkmsg_user`. -/
def devkmsgBufSize : Nat := 8192

/--
The buffer is large enough for every text that `vprintk_emit` stores, with a dictionary of
at most 1043 bytes.
-/
theorem length_exportRecord_le (prev : LogFlags) {seq : Nat} {record : Record}
    (counted : seq < 2 ^ 64) (text : record.text.1.length ≤ logLineMax)
    (dict : record.dict.1.length ≤ 1043) :
    (exportRecord prev seq record).length ≤ devkmsgBufSize := by
  have priority : (decimal record.priority).length ≤ 4 := by
    have := record.priority_lt
    exact length_decimal_le (by omega) (by omega)
  have number : (decimal seq).length ≤ 20 := length_decimal_le (by omega) (by omega)
  have time : (decimal (record.tsNsec.toNat / 1000)).length ≤ 17 := by
    have := record.tsNsec.isLt
    exact length_decimal_le (by omega) (by omega)
  have textLength := length_flatMap_escape_le record.text.1
  have dictLength : (if record.dict.1 = [] then []
      else exportDict true record.dict.1).length ≤ 4 * 1043 + 2 := by
    have whole := length_exportDict_le true record.dict.1
    by_cases none : record.dict.1 = []
    · simp [none]
    · rw [if_neg none]
      rw [if_pos ⟨rfl, none⟩] at whole
      omega
  simp only [logLineMax] at text
  simp only [exportRecord, exportHeader, List.length_append, List.length_cons, List.length_nil,
    devkmsgBufSize]
  omega

/-- A record with a byte that is escaped and a dictionary of two properties. -/
def bellRecord : Record :=
  ⟨1500, 1, logNewline, 6, ⟨[7, 98], by decide⟩, ⟨[65, 0, 66], by decide⟩⟩

theorem length_exportRecord_le_bell : (exportRecord 0 5 bellRecord).length ≤ devkmsgBufSize :=
  length_exportRecord_le 0 (by decide) (by decide) (by decide)

end Gray386.Printk
