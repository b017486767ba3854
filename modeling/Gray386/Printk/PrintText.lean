import Gray386.Machine.Format
import Gray386.Printk.Record

/-!
# The text of a record for syslog and the console

`msg_print_text` writes the lines of a record one by one, each with the priority and the time
in front of it. Called without a buffer it only counts the bytes. Callers count first and
print afterwards, so the two ways have to agree; and as a line is written only if it fits with
a prefix and a newline, the buffer is never exceeded (`kernel/printk.c`).

`wholeText` is what is printed into a buffer that is large enough, line by line. The count is
its length, and what is printed into a shorter buffer consists of the first of these lines.
-/

namespace Gray386.Printk

open Gray386.Machine

/-- What the lines of a record begin with: `printk_time`, and whether syslog is the reader. -/
structure PrefixStyle where
  printkTime : Bool
  syslog : Bool
  deriving DecidableEq

/-- The two parts of `do_div(ts, 1000000000)`; the quotient is used as an `unsigned long`. -/
def seconds (ts : Nat) : Nat := ts / 1000000000 % 4294967296
def remNsec (ts : Nat) : Nat := ts % 1000000000

/-- `print_time` with a buffer. -/
def printTime (style : PrefixStyle) (ts : Nat) : List Byte :=
  if style.printkTime then
    ascii '[' :: (padded 5 (ascii ' ') (decimal (seconds ts)) ++ ascii '.' ::
      (padded 6 (ascii '0') (decimal (remNsec ts / 1000)) ++ [ascii ']', ascii ' ']))
  else []

/-- `print_time` without a buffer: the length of `"[%5lu.000000] "`. -/
def printTimeLen (style : PrefixStyle) (ts : Nat) : Nat :=
  if style.printkTime then
    1 + (padded 5 (ascii ' ') (decimal (seconds ts))).length + 9
  else 0

/-- `print_prefix` with a buffer. -/
def printPrefix (style : PrefixStyle) (record : Record) : List Byte :=
  (if style.syslog then ascii '<' :: (decimal (record.priority) ++ [ascii '>']) else []) ++
    printTime style record.tsNsec.toNat

/-- `print_prefix` without a buffer. -/
def printPrefixLen (style : PrefixStyle) (record : Record) : Nat :=
  (if style.syslog then
    3 + (if record.priority > 999 then 3
      else if record.priority > 99 then 2
      else if record.priority > 9 then 1 else 0)
  else 0) + printTimeLen style record.tsNsec.toNat

/-- Whether the first line gets a prefix. -/
def startsLine (prev flags : LogFlags) : Bool :=
  !(prev.has logCont && !flags.has logPrefix) &&
    !(flags.has logCont && (prev.has logCont && !prev.has logNewline))

/-- Whether the last line gets a newline. -/
def endsLine (flags : LogFlags) : Bool := !(flags.has logCont && !flags.has logNewline)

/-- The lines that the loop finds with `memchr`; the last one has no newline behind it. -/
def textLines : List Byte → List (List Byte)
  | [] => [[]]
  | c :: rest =>
      if c = 10 then [] :: textLines rest
      else match textLines rest with
        | [] => [[c]]
        | line :: lines => (c :: line) :: lines

variable (style : PrefixStyle) (record : Record)

/-- One line: the prefix, the text, and the newline if there is one or it is asked for. -/
def printLine (starts : Bool) (line : List Byte) (ends : Bool) : List Byte :=
  (if starts then printPrefix style record else []) ++ line ++ (if ends then [10] else [])

/-- The loop with a buffer of this size, of which `len` bytes are used. -/
def printLines (size : Nat) : Bool → Nat → List (List Byte) → List Byte
  | _, _, [] => []
  | starts, len, line :: rest =>
      if printPrefixLen style record + line.length + 1 ≥ size - len then []
      else
        let printed := printLine style record starts line (rest ≠ [] || endsLine record.flags)
        printed ++ printLines size true (len + printed.length) rest

/-- The loop without a buffer. -/
def countLines : Bool → List (List Byte) → Nat
  | _, [] => 0
  | starts, line :: rest =>
      (if starts then printPrefixLen style record else 0) + line.length +
        (if rest ≠ [] || endsLine record.flags then 1 else 0) + countLines true rest

/-- `msg_print_text` with a buffer: the bytes that are written. -/
def msgPrintText (prev : LogFlags) (size : Nat) : List Byte :=
  printLines style record size (startsLine prev record.flags) 0 (textLines record.text.1)

/-- `msg_print_text` without a buffer: the value. -/
def msgPrintTextLen (prev : LogFlags) : Nat :=
  countLines style record (startsLine prev record.flags) (textLines record.text.1)

/-- The lines of the whole text. -/
def printedLines : Bool → List (List Byte) → List (List Byte)
  | _, [] => []
  | starts, line :: rest =>
      printLine style record starts line (rest ≠ [] || endsLine record.flags) ::
        printedLines true rest

def wholeLines (starts : Bool) (lines : List (List Byte)) : List Byte :=
  (printedLines style record starts lines).flatten

/-- All lines of a record. -/
def recordLines (prev : LogFlags) : List (List Byte) :=
  printedLines style record (startsLine prev record.flags) (textLines record.text.1)

def wholeText (prev : LogFlags) : List Byte :=
  wholeLines style record (startsLine prev record.flags) (textLines record.text.1)

theorem wholeLines_cons (starts : Bool) (line : List Byte) (rest : List (List Byte)) :
    wholeLines style record starts (line :: rest) =
      printLine style record starts line (rest ≠ [] || endsLine record.flags) ++
        wholeLines style record true rest :=
  List.flatten_cons

theorem printTimeLen_eq (ts : Nat) : printTimeLen style ts = (printTime style ts).length := by
  rw [printTimeLen, printTime]
  split_ifs
  · have short : (decimal (remNsec ts / 1000)).length ≤ 6 := by
      apply length_decimal_le (by omega)
      rw [remNsec]
      omega
    simp only [List.length_cons, List.length_append, length_padded, List.length_nil]
    omega
  · rfl

theorem length_decimal_priority : (decimal (record.priority)).length =
    1 + (if record.priority > 999 then 3 else if record.priority > 99 then 2
      else if record.priority > 9 then 1 else 0) := by
  have bound := record.priority_lt
  split_ifs with thousand hundred ten
  · exact length_decimal 3 (by omega) (by omega)
  · exact length_decimal 2 (by omega) (by omega)
  · exact length_decimal 1 (by omega) (by omega)
  · rw [decimal, digits, if_pos (by omega)]
    rfl

/-- The length of a prefix is computed as it is printed. -/
theorem printPrefixLen_eq : printPrefixLen style record = (printPrefix style record).length := by
  rw [printPrefixLen, printPrefix, List.length_append, printTimeLen_eq]
  cases style.syslog with
  | true =>
      rw [if_pos rfl, if_pos rfl, List.length_cons, List.length_append,
        length_decimal_priority, List.length_singleton]
      omega
  | false => rfl

theorem length_printLine (starts : Bool) (line : List Byte) (ends : Bool) :
    (printLine style record starts line ends).length =
      (if starts then printPrefixLen style record else 0) + line.length +
        (if ends then 1 else 0) := by
  rw [printLine, List.length_append, List.length_append, printPrefixLen_eq]
  cases starts <;> cases ends <;> rfl

theorem countLines_eq (starts : Bool) (lines : List (List Byte)) :
    countLines style record starts lines = (wholeLines style record starts lines).length := by
  induction lines generalizing starts with
  | nil => rfl
  | cons line rest ih =>
      rw [countLines, wholeLines_cons, List.length_append, length_printLine, ih]

/-- Into a buffer the first lines are printed, each one whole, and they fit. -/
theorem printLines_spec (size : Nat) (starts : Bool) (len : Nat) (lines : List (List Byte))
    (used : len ≤ size) :
    (∃ count, printLines style record size starts len lines =
        ((printedLines style record starts lines).take count).flatten) ∧
      len + (printLines style record size starts len lines).length ≤ size := by
  induction lines generalizing starts len with
  | nil => exact ⟨⟨0, rfl⟩, used⟩
  | cons line rest ih =>
      rw [printLines, printedLines]
      split_ifs with full
      · exact ⟨⟨0, rfl⟩, used⟩
      · have bound : (printLine style record starts line
            (rest ≠ [] || endsLine record.flags)).length ≤
              printPrefixLen style record + line.length + 1 := by
          rw [length_printLine]
          split_ifs <;> omega
        rcases ih true (len + (printLine style record starts line
          (rest ≠ [] || endsLine record.flags)).length) (by omega) with ⟨⟨count, lines_eq⟩, fits⟩
        refine ⟨⟨count + 1, ?_⟩, ?_⟩
        · dsimp only
          rw [lines_eq, List.take_succ_cons, List.flatten_cons]
        · dsimp only
          rw [List.length_append]
          omega

/-- If there is room for one more prefix and newline, then all lines are printed. -/
theorem printLines_eq_wholeLines (size : Nat) (starts : Bool) (len : Nat)
    (lines : List (List Byte))
    (room : len + (wholeLines style record starts lines).length +
      printPrefixLen style record + 1 < size) :
    printLines style record size starts len lines = wholeLines style record starts lines := by
  induction lines generalizing starts len with
  | nil => rfl
  | cons line rest ih =>
      rw [wholeLines_cons, List.length_append, length_printLine] at room
      rw [printLines, wholeLines_cons, if_neg (by split_ifs at room <;> omega)]
      simp only
      rw [ih _ _ (by rw [length_printLine]; split_ifs at * <;> omega)]

/--
`msg_print_text` without a buffer counts the bytes of the whole text, which is the lines of the
record one behind the other. With a buffer it prints the first lines, each one whole, never
more than there is room for, and all of them if there is room for one prefix and one newline
more.
-/
theorem msgPrintText_spec (prev : LogFlags) :
    wholeText style record prev = (recordLines style record prev).flatten ∧
      msgPrintTextLen style record prev = (wholeText style record prev).length ∧
      ∀ size, msgPrintText style record prev size <+: wholeText style record prev ∧
        (∃ count, msgPrintText style record prev size =
          ((recordLines style record prev).take count).flatten) ∧
        (msgPrintText style record prev size).length ≤ size ∧
        ((wholeText style record prev).length + printPrefixLen style record + 1 < size →
          msgPrintText style record prev size = wholeText style record prev) := by
  refine ⟨rfl, countLines_eq style record _ _, fun size => ?_⟩
  rcases printLines_spec style record size (startsLine prev record.flags) 0
    (textLines record.text.1) (Nat.zero_le size) with ⟨⟨count, first⟩, fits⟩
  have begins : msgPrintText style record prev size <+: wholeText style record prev := by
    refine ⟨((recordLines style record prev).drop count).flatten, ?_⟩
    change printLines style record size _ 0 _ ++ _ = _
    rw [first, ← List.flatten_append]
    exact congrArg List.flatten (List.take_append_drop _ _)
  refine ⟨begins, ⟨count, first⟩, by simpa [msgPrintText] using fits, fun room => ?_⟩
  exact printLines_eq_wholeLines style record size _ 0 _ (by simpa [wholeText] using room)

end Gray386.Printk
