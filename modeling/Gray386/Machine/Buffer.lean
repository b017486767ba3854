import Gray386.Machine.Word
import Mathlib.Data.List.Basic

/-!
# Byte buffers

A buffer has a byte at every natural offset. `slice` reads a range of it and `write` replaces
one; a range that a write does not meet keeps its bytes, and this is the only thing that is
said about the order of writes. Whether a write stays inside of the memory that the code has
allocated is a question about its offsets.

Numbers are stored with the least significant byte first.
-/

namespace Gray386.Machine

/-- The bytes from some address on. -/
abbrev Buffer := Nat → Byte

namespace Buffer

/-- The bytes of a range. -/
def slice (buffer : Buffer) (start : Nat) : Nat → List Byte
  | 0 => []
  | count + 1 => buffer start :: slice buffer (start + 1) count

/-- Replace the bytes from `start` on. -/
def write (buffer : Buffer) (start : Nat) (bytes : List Byte) : Buffer := fun offset =>
  if start ≤ offset then (bytes[offset - start]?).getD (buffer offset) else buffer offset

variable {buffer other : Buffer} {start count : Nat}

@[simp]
theorem length_slice (buffer : Buffer) (start count : Nat) :
    (buffer.slice start count).length = count := by
  induction count generalizing start with
  | zero => rfl
  | succ count ih => simp [slice, ih]

theorem slice_congr (same : ∀ offset, start ≤ offset → offset < start + count →
    buffer offset = other offset) : buffer.slice start count = other.slice start count := by
  induction count generalizing start with
  | zero => rfl
  | succ count ih =>
      rw [slice, slice, same start (by omega) (by omega)]
      rw [ih (fun offset lower upper => same offset (by omega) (by omega))]

theorem slice_add (buffer : Buffer) (start first second : Nat) :
    buffer.slice start (first + second) =
      buffer.slice start first ++ buffer.slice (start + first) second := by
  induction first generalizing start with
  | zero => simp [slice]
  | succ first ih =>
      rw [Nat.succ_add, slice, slice, ih, List.cons_append, Nat.succ_add_eq_add_succ]

theorem write_of_lt {bytes : List Byte} {offset : Nat} (before : offset < start) :
    buffer.write start bytes offset = buffer offset :=
  if_neg (by omega)

theorem write_of_ge {bytes : List Byte} {offset : Nat} (behind : start + bytes.length ≤ offset) :
    buffer.write start bytes offset = buffer offset := by
  rw [write, if_pos (by omega), List.getElem?_eq_none (by omega)]
  rfl

/-- A range that a write does not meet is as before. -/
theorem slice_write_of_disjoint {bytes : List Byte} {at_ : Nat}
    (disjoint : start + count ≤ at_ ∨ at_ + bytes.length ≤ start) :
    (buffer.write at_ bytes).slice start count = buffer.slice start count := by
  apply slice_congr
  intro offset lower upper
  rcases disjoint with before | behind
  · exact write_of_lt (by omega)
  · exact write_of_ge (by omega)

theorem write_cons (buffer : Buffer) (start : Nat) (byte : Byte) (bytes : List Byte) :
    buffer.write start (byte :: bytes) =
      (buffer.write (start + 1) bytes).write start [byte] := by
  funext offset
  simp only [write]
  rcases Nat.lt_trichotomy offset start with before | here | behind
  · simp [Nat.not_le.mpr before, Nat.not_le.mpr (Nat.lt_succ_of_lt before)]
  · simp [here]
  · obtain ⟨distance, rfl⟩ : ∃ distance, offset = start + (distance + 1) :=
      ⟨offset - start - 1, by omega⟩
    have step : start + (distance + 1) - (start + 1) = distance := by omega
    simp [step]

/-- What is written is read. -/
@[simp]
theorem slice_write (buffer : Buffer) (start : Nat) (bytes : List Byte) :
    (buffer.write start bytes).slice start bytes.length = bytes := by
  induction bytes generalizing start with
  | nil => rfl
  | cons byte bytes ih =>
      rw [write_cons, List.length_cons, slice, slice_write_of_disjoint (by simp), ih]
      simp [write]

/-- Writes in their order, each with its address. -/
def writeAll (buffer : Buffer) (writes : List (Nat × List Byte)) : Buffer :=
  writes.foldl (fun buffer write => buffer.write write.1 write.2) buffer

theorem writeAll_of_outside {writes : List (Nat × List Byte)} {offset : Nat}
    (outside : ∀ write ∈ writes, offset < write.1 ∨ write.1 + write.2.length ≤ offset) :
    buffer.writeAll writes offset = buffer offset := by
  induction writes generalizing buffer with
  | nil => rfl
  | cons write rest ih =>
      rw [writeAll, List.foldl_cons, ← writeAll, ih (fun later mem =>
        outside later (List.mem_cons_of_mem _ mem))]
      rcases outside write List.mem_cons_self with before | behind
      · exact write_of_lt before
      · exact write_of_ge behind

/-- What one of the writes has stored is read if no later one meets it. -/
theorem slice_writeAll {writes : List (Nat × List Byte)} {bytes : List Byte} (index : Nat)
    (here : writes[index]? = some (start, bytes))
    (apart : ∀ later ∈ writes.drop (index + 1),
      start + bytes.length ≤ later.1 ∨ later.1 + later.2.length ≤ start) :
    (buffer.writeAll writes).slice start bytes.length = bytes := by
  induction writes generalizing buffer index with
  | nil => simp at here
  | cons write rest ih =>
      rw [writeAll, List.foldl_cons, ← writeAll]
      cases index with
      | zero =>
          obtain rfl : write = (start, bytes) := by simpa using here
          calc
            _ = (buffer.write start bytes).slice start bytes.length := by
                apply slice_congr
                intro offset lower upper
                apply writeAll_of_outside
                intro later mem
                rcases apart later (by simpa using mem) with below | above <;> omega
            _ = bytes := slice_write _ _ _
      | succ index => exact ih index (by simpa using here) (by simpa using apart)

/-- Two lists stand one behind the other. -/
theorem slice_append_iff {first second : List Byte} :
    buffer.slice start (first ++ second).length = first ++ second ↔
      buffer.slice start first.length = first ∧
        buffer.slice (start + first.length) second.length = second := by
  rw [List.length_append, slice_add]
  constructor
  · intro whole
    exact List.append_inj whole (length_slice _ _ _)
  · rintro ⟨front, back⟩
    rw [front, back]

end Buffer

/-- The bytes of a number, the least significant one first; higher ones are lost. -/
def leBytes : Nat → Nat → List Byte
  | 0, _ => []
  | width + 1, number => BitVec.ofNat 8 number :: leBytes width (number / 256)

/-- The number with these bytes. -/
def leNat : List Byte → Nat
  | [] => 0
  | byte :: rest => byte.toNat + 256 * leNat rest

@[simp]
theorem length_leBytes (width number : Nat) : (leBytes width number).length = width := by
  induction width generalizing number with
  | zero => rfl
  | succ width ih => simp [leBytes, ih]

theorem leNat_lt (bytes : List Byte) : leNat bytes < 256 ^ bytes.length := by
  induction bytes with
  | nil => simp [leNat]
  | cons byte rest ih =>
      have low := byte.isLt
      rw [leNat, List.length_cons, Nat.pow_succ]
      omega

theorem leNat_leBytes (width number : Nat) :
    leNat (leBytes width number) = number % 256 ^ width := by
  induction width generalizing number with
  | zero => simp [leBytes, leNat, Nat.mod_one]
  | succ width ih =>
      have split : 256 ^ (width + 1) = 256 * 256 ^ width := Nat.pow_succ'
      rw [leBytes, leNat, ih, BitVec.toNat_ofNat, split, Nat.mod_mul]

theorem leNat_leBytes_of_lt {width number : Nat} (fits : number < 256 ^ width) :
    leNat (leBytes width number) = number := by
  rw [leNat_leBytes, Nat.mod_eq_of_lt fits]

end Gray386.Machine
