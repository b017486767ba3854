import Gray386.Machine.Word
import Mathlib.Data.List.Basic

/-!
# Numbers in text

The conversions `%u`, `%5lu`, `%06lu` and `%02x` of `printf`, as lists of bytes. A number is
found again from its digits, there are no other bytes than digits among them, and their
number is bounded by that of the digits of a power of ten.
-/

namespace Gray386.Machine

/-- The code of a character. -/
def ascii (character : Char) : Byte := BitVec.ofNat 8 character.toNat

def digit (value : Nat) : Byte := BitVec.ofNat 8 (48 + value)

/-- The digits of a number, with a bound on how many there are. -/
def digits : Nat → Nat → List Byte
  | 0, _ => []
  | bound + 1, number =>
      if number < 10 then [digit number] else digits bound (number / 10) ++ [digit (number % 10)]

/-- `%u` and `%llu`. -/
def decimal (number : Nat) : List Byte := digits (number + 1) number

/-- Padding on the left, as in `%5lu` and `%06lu`. -/
def padded (width : Nat) (fill : Byte) (text : List Byte) : List Byte :=
  List.replicate (width - text.length) fill ++ text

theorem length_padded (width : Nat) (fill : Byte) (text : List Byte) :
    (padded width fill text).length = max width text.length := by
  rw [padded, List.length_append, List.length_replicate]
  omega

/-- The number that is read. -/
def decimalValue (text : List Byte) : Nat :=
  text.foldl (fun value byte => 10 * value + (byte.toNat - 48)) 0

def IsDigit (byte : Byte) : Prop := 48 ≤ byte.toNat ∧ byte.toNat ≤ 57

theorem toNat_digit {value : Nat} (small : value < 10) : (digit value).toNat = 48 + value := by
  rw [digit, BitVec.toNat_ofNat, Nat.mod_eq_of_lt (by omega)]

theorem isDigit_digit {value : Nat} (small : value < 10) : IsDigit (digit value) := by
  rw [IsDigit, toNat_digit small]
  omega

theorem isDigit_of_mem_digits {bound number : Nat} {byte : Byte}
    (mem : byte ∈ digits bound number) : IsDigit byte := by
  induction bound generalizing number with
  | zero => simp [digits] at mem
  | succ bound ih =>
      rw [digits] at mem
      split_ifs at mem with small
      · rw [List.mem_singleton.mp mem]
        exact isDigit_digit small
      · rcases List.mem_append.mp mem with earlier | last
        · exact ih earlier
        · rw [List.mem_singleton.mp last]
          exact isDigit_digit (Nat.mod_lt _ (by omega))

theorem isDigit_of_mem_decimal {number : Nat} {byte : Byte} (mem : byte ∈ decimal number) :
    IsDigit byte :=
  isDigit_of_mem_digits mem

theorem decimalValue_append (text : List Byte) {value : Nat} (small : value < 10) :
    decimalValue (text ++ [digit value]) = 10 * decimalValue text + value := by
  rw [decimalValue, List.foldl_append, ← decimalValue, List.foldl_cons, List.foldl_nil,
    toNat_digit small]
  omega

theorem decimalValue_digits {bound number : Nat} (enough : number < bound) :
    decimalValue (digits bound number) = number := by
  induction bound generalizing number with
  | zero => omega
  | succ bound ih =>
      rw [digits]
      split_ifs with small
      · simpa [decimalValue] using decimalValue_append [] small
      · rw [decimalValue_append _ (Nat.mod_lt _ (by omega)), ih (by omega)]
        omega

@[simp]
theorem decimalValue_decimal (number : Nat) : decimalValue (decimal number) = number :=
  decimalValue_digits (Nat.lt_succ_self number)

theorem length_digits_le {bound number exponent : Nat} (positive : 0 < exponent)
    (small : number < 10 ^ exponent) : (digits bound number).length ≤ exponent := by
  induction bound generalizing number exponent with
  | zero => simp [digits]
  | succ bound ih =>
      rw [digits]
      split_ifs with one
      · exact positive
      · rw [List.length_append, List.length_singleton]
        obtain ⟨rest, rfl⟩ := Nat.exists_eq_add_of_lt positive
        rw [Nat.zero_add] at *
        have further : 0 < rest := by
          rcases Nat.eq_zero_or_pos rest with rfl | further
          · simp at small
            omega
          · exact further
        have next := ih further (Nat.div_lt_of_lt_mul (by rwa [Nat.pow_succ'] at small))
        omega

theorem length_decimal_le {number exponent : Nat} (positive : 0 < exponent)
    (small : number < 10 ^ exponent) : (decimal number).length ≤ exponent :=
  length_digits_le positive small

theorem lt_length_digits {bound number exponent : Nat} (enough : number < bound)
    (large : 10 ^ exponent ≤ number) : exponent < (digits bound number).length := by
  induction bound generalizing number exponent with
  | zero => omega
  | succ bound ih =>
      rw [digits]
      split_ifs with one
      · rw [List.length_singleton]
        cases exponent with
        | zero => omega
        | succ exponent =>
            have : 10 ≤ 10 ^ (exponent + 1) := Nat.le_self_pow (by omega) 10
            omega
      · rw [List.length_append, List.length_singleton]
        cases exponent with
        | zero => omega
        | succ exponent =>
            have shorter : 10 ^ exponent ≤ number / 10 :=
              (Nat.le_div_iff_mul_le (by omega)).mpr (by rwa [Nat.pow_succ] at large)
            have next := ih (by omega) shorter
            omega

/-- How many digits a number has. -/
theorem length_decimal {number : Nat} (exponent : Nat) (large : 10 ^ exponent ≤ number)
    (small : number < 10 ^ (exponent + 1)) : (decimal number).length = exponent + 1 := by
  have upper := length_decimal_le (Nat.succ_pos exponent) small
  have lower : exponent < (decimal number).length :=
    lt_length_digits (Nat.lt_succ_self number) large
  omega

def hexDigit (value : Nat) : Byte :=
  if value < 10 then BitVec.ofNat 8 (48 + value) else BitVec.ofNat 8 (87 + value)

/-- `%02x`. -/
def hexByte (byte : Byte) : List Byte := [hexDigit (byte.toNat / 16), hexDigit (byte.toNat % 16)]

def hexDigitValue (byte : Byte) : Nat :=
  if byte.toNat < 58 then byte.toNat - 48 else byte.toNat - 87

theorem hexDigitValue_hexDigit {value : Nat} (small : value < 16) :
    hexDigitValue (hexDigit value) = value := by
  rw [hexDigitValue, hexDigit]
  split_ifs with low first second <;> rw [BitVec.toNat_ofNat, Nat.mod_eq_of_lt (by omega)] at * <;>
    omega

/-- The byte that two hexadecimal digits stand for. -/
def hexValue (high low : Byte) : Byte :=
  BitVec.ofNat 8 (16 * hexDigitValue high + hexDigitValue low)

theorem hexValue_hexByte (byte : Byte) :
    hexValue (hexDigit (byte.toNat / 16)) (hexDigit (byte.toNat % 16)) = byte := by
  have bound := byte.isLt
  rw [hexValue, hexDigitValue_hexDigit (by omega), hexDigitValue_hexDigit (by omega),
    Nat.div_add_mod, BitVec.ofNat_toNat, BitVec.setWidth_eq]

end Gray386.Machine
