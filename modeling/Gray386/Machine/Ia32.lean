import Gray386.Machine.Memory
import Mathlib.Data.Nat.Basic
import Mathlib.Tactic.SplitIfs

/-!
# Reference semantics of the emulated IA-32 instructions

This file states what a 486 does on the instructions a 386 does not have. It is
the specification against which the emulator is compared, and it is written in
the terms of the instruction set: eight general registers numbered by a
three-bit field, an instruction pointer, a flags register and a flat memory.

An operand is resolved when the instruction is decoded. `modrmOperand` computes
it from the ModRM byte, the optional SIB byte and the displacement, with all
address arithmetic modulo `2 ^ 32` and one-byte displacements sign-extended. The
execution functions then work on resolved operands, so an instruction whose
source register is also the base of its address needs no special treatment.
-/

namespace Gray386.Machine.Ia32

/-- The general registers. -/
inductive Reg where
  | eax | ecx | edx | ebx | esp | ebp | esi | edi
  deriving DecidableEq, Repr

/-- The register selected by a three-bit field. -/
def Reg.ofField : Nat → Reg
  | 0 => .eax
  | 1 => .ecx
  | 2 => .edx
  | 3 => .ebx
  | 4 => .esp
  | 5 => .ebp
  | 6 => .esi
  | _ => .edi

/-- The architectural state an instruction reads and changes. -/
@[ext]
structure Arch where
  gpr : Reg → Word
  eip : Word
  eflags : Word
  mem : Word → Byte

/-- A resolved destination operand. -/
inductive Dest where
  | reg (register : Reg)
  | mem (address : Word)
  deriving DecidableEq, Repr

def cf : Word := 0x001
def pf : Word := 0x004
def af : Word := 0x010
def zf : Word := 0x040
def sf : Word := 0x080
def of : Word := 0x800

/-- The six flags that an addition or subtraction sets. -/
def arithFlags : Word := cf ||| pf ||| af ||| zf ||| sf ||| of

/-- A flag bit under a condition. -/
def flagIf (condition : Bool) (flag : Word) : Word :=
  if condition then flag else 0

/-- The parity flag looks at the least significant byte only. -/
def evenParity (result : Word) : Bool :=
  ((List.range 8).countP fun index => result.getLsbD index) % 2 = 0

/-- The three flags that depend on the result alone. -/
def resultFlags (result : Word) : Word :=
  flagIf (evenParity result) pf ||| flagIf (result = 0) zf ||| flagIf result.msb sf

/-- Flags of `ADD dest, src`. -/
def addFlags (dest src : Word) : Word :=
  flagIf (2 ^ 32 ≤ dest.toNat + src.toNat) cf |||
    flagIf (16 ≤ dest.toNat % 16 + src.toNat % 16) af |||
    flagIf (dest.msb = src.msb ∧ (dest + src).msb ≠ dest.msb) of |||
    resultFlags (dest + src)

/-- Flags of `CMP left, right`, that is of `left - right`. -/
def cmpFlags (left right : Word) : Word :=
  flagIf (left.toNat < right.toNat) cf |||
    flagIf (left.toNat % 16 < right.toNat % 16) af |||
    flagIf (left.msb ≠ right.msb ∧ (left - right).msb ≠ left.msb) of |||
    resultFlags (left - right)

/-- Replace the arithmetic flags and keep every other bit. -/
def setArithFlags (eflags flags : Word) : Word :=
  (eflags &&& ~~~arithFlags) ||| flags

theorem flagIf_and (condition : Bool) (flag mask : Word) :
    flagIf condition flag &&& mask = flagIf condition (flag &&& mask) := by
  cases condition with
  | false => exact BitVec.zero_and
  | true => rfl

theorem flagIf_zero (condition : Bool) : flagIf condition 0#32 = 0#32 := by
  cases condition with
  | false => rfl
  | true => rfl

theorem addFlags_and_arithFlags (dest src : Word) :
    addFlags dest src &&& arithFlags = addFlags dest src := by
  simp only [addFlags, resultFlags, BitVec.and_or_distrib_right, flagIf_and]
  rfl

theorem addFlags_comm (dest src : Word) : addFlags dest src = addFlags src dest := by
  simp only [addFlags, BitVec.add_comm dest src, Nat.add_comm dest.toNat,
    Nat.add_comm (dest.toNat % 16)]
  congr 3
  rw [decide_eq_decide, @eq_comm _ dest.msb]
  constructor
  · rintro ⟨same, changed⟩
    exact ⟨same, same ▸ changed⟩
  · rintro ⟨same, changed⟩
    exact ⟨same, same ▸ changed⟩

theorem cmpFlags_and_zf (left right : Word) :
    cmpFlags left right &&& zf = flagIf (left = right) zf := by
  simp only [cmpFlags, resultFlags, BitVec.and_or_distrib_right, flagIf_and,
    show cf &&& zf = 0#32 by decide, show af &&& zf = 0#32 by decide,
    show of &&& zf = 0#32 by decide, show pf &&& zf = 0#32 by decide,
    show sf &&& zf = 0#32 by decide, BitVec.and_self, flagIf_zero, BitVec.or_zero,
    BitVec.zero_or]
  congr 1
  rw [decide_eq_decide, BitVec.sub_eq_iff_eq_add,
    show (0 : Word) + right = right from BitVec.zero_add right]

theorem cmpFlags_and_not_arithFlags (left right : Word) :
    cmpFlags left right &&& ~~~arithFlags = 0#32 := by
  simp only [cmpFlags, resultFlags, BitVec.and_or_distrib_right, flagIf_and,
    show cf &&& ~~~arithFlags = 0#32 by decide, show af &&& ~~~arithFlags = 0#32 by decide,
    show of &&& ~~~arithFlags = 0#32 by decide, show pf &&& ~~~arithFlags = 0#32 by decide,
    show sf &&& ~~~arithFlags = 0#32 by decide, show zf &&& ~~~arithFlags = 0#32 by decide,
    flagIf_zero, BitVec.or_zero]

/-- Masking all arithmetic flags but the zero flag splits a flags register in two. -/
theorem and_not_besides_zf (eflags : Word) :
    eflags &&& ~~~(arithFlags &&& ~~~zf) = (eflags &&& ~~~arithFlags) ||| (eflags &&& zf) := by
  rw [show ~~~(arithFlags &&& ~~~zf) = ~~~arithFlags ||| zf by decide, BitVec.and_or_distrib_left]

/-- The flags of a comparison, as far as the zero flag and the non-arithmetic ones go. -/
theorem setArithFlags_cmpFlags (eflags left right : Word) :
    setArithFlags eflags (cmpFlags left right) &&& ~~~(arithFlags &&& ~~~zf) =
      (eflags &&& ~~~arithFlags) ||| flagIf (left = right) zf := by
  rw [and_not_besides_zf, setArithFlags, BitVec.and_or_distrib_right,
    BitVec.and_or_distrib_right, BitVec.and_assoc, BitVec.and_assoc, BitVec.and_self,
    show ~~~arithFlags &&& zf = 0#32 by decide, BitVec.and_zero, cmpFlags_and_not_arithFlags,
    cmpFlags_and_zf, BitVec.or_zero, BitVec.zero_or]

theorem setArithFlags_and_arithFlags {flags : Word} (arith : flags &&& arithFlags = flags)
    (eflags : Word) : setArithFlags eflags flags &&& arithFlags = flags := by
  rw [setArithFlags, BitVec.and_or_distrib_right, BitVec.and_assoc,
    show ~~~arithFlags &&& arithFlags = 0#32 by decide, BitVec.and_zero, BitVec.zero_or, arith]

namespace Arch

/-- The word of memory at an address. -/
def loadWord (arch : Arch) (address : Word) : Word :=
  ofBytes (arch.mem address) (arch.mem (address + 1)) (arch.mem (address + 2))
    (arch.mem (address + 3))

/-- Memory after a word has been stored. -/
def storeWord (arch : Arch) (address value : Word) : Arch :=
  { arch with
    mem := fun other =>
      if other = address then byte value 0
      else if other = address + 1 then byte value 1
      else if other = address + 2 then byte value 2
      else if other = address + 3 then byte value 3
      else arch.mem other }

/-- Registers after one has been written. -/
def setReg (arch : Arch) (register : Reg) (value : Word) : Arch :=
  { arch with gpr := Function.update arch.gpr register value }

/-- The value of a destination operand. -/
def readDest (arch : Arch) : Dest → Word
  | .reg register => arch.gpr register
  | .mem address => arch.loadWord address

/-- The state after a destination operand has been written. -/
def writeDest (arch : Arch) : Dest → Word → Arch
  | .reg register, value => arch.setReg register value
  | .mem address, value => arch.storeWord address value

end Arch

/-- The `mod` field of a ModRM byte. -/
def modField (modrm : Byte) : Nat := modrm.toNat / 64

/-- The `reg` field of a ModRM byte. -/
def regField (modrm : Byte) : Nat := modrm.toNat / 8 % 8

/-- The `rm` field of a ModRM byte. -/
def rmField (modrm : Byte) : Nat := modrm.toNat % 8

/-- A four-byte displacement. -/
def disp32 (code : Nat → Byte) (index : Nat) : Word :=
  ofBytes (code index) (code (index + 1)) (code (index + 2)) (code (index + 3))

/-- A one-byte displacement, sign-extended. -/
def disp8 (code : Nat → Byte) (index : Nat) : Word :=
  (code index).signExtend 32

/-- Base, scaled index and length of the address bytes when a SIB byte follows. -/
def sibOperand (gpr : Reg → Word) (code : Nat → Byte) : Dest × Nat :=
  let mod := modField (code 0)
  let sib := (code 1).toNat
  let index := if sib / 8 % 8 = 4 then 0 else gpr (Reg.ofField (sib / 8 % 8)) <<< (sib / 64)
  let base := gpr (Reg.ofField (sib % 8)) + index
  if mod = 0 then
    if sib % 8 = 5 then (.mem (disp32 code 2 + index), 6) else (.mem base, 2)
  else if mod = 1 then (.mem (base + disp8 code 2), 3)
  else (.mem (base + disp32 code 2), 6)

/--
The destination operand and the number of bytes its encoding takes, where
`code 0` is the ModRM byte.
-/
def modrmOperand (gpr : Reg → Word) (code : Nat → Byte) : Dest × Nat :=
  let mod := modField (code 0)
  let rm := rmField (code 0)
  if mod = 3 then (.reg (Reg.ofField rm), 1)
  else if rm = 4 then sibOperand gpr code
  else if mod = 0 then
    if rm = 5 then (.mem (disp32 code 1), 5) else (.mem (gpr (Reg.ofField rm)), 1)
  else if mod = 1 then (.mem (gpr (Reg.ofField rm) + disp8 code 1), 2)
  else (.mem (gpr (Reg.ofField rm) + disp32 code 1), 5)

/-- The number of bytes of ModRM, SIB and displacement. -/
def modrmLength (code : Nat → Byte) : Nat :=
  let mod := modField (code 0)
  let rm := rmField (code 0)
  if mod = 3 then 1
  else if rm = 4 then
    if mod = 0 then if (code 1).toNat % 8 = 5 then 6 else 2
    else if mod = 1 then 3 else 6
  else if mod = 0 then if rm = 5 then 5 else 1
  else if mod = 1 then 2 else 5

theorem modrmOperand_length (gpr : Reg → Word) (code : Nat → Byte) :
    (modrmOperand gpr code).2 = modrmLength code := by
  simp only [modrmOperand, sibOperand, modrmLength]
  split_ifs <;> rfl

theorem modrmLength_pos (code : Nat → Byte) : 0 < modrmLength code := by
  simp only [modrmLength]
  split_ifs <;> exact Nat.succ_pos _

/-- The length of an instruction that has neither a lock nor a repeat prefix. -/
def unprefixedLength (code : Nat → Byte) : Nat :=
  if code 0 = 0x0f then
    -- `CMPXCHG` and `XADD`
    if code 1 = 0xb1 ∨ code 1 = 0xc1 then 2 + modrmLength fun index => code (2 + index)
    else 2
  else 1

/--
The length of the instruction at the start of the bytes: exactly, for `ENDBR32` and
the other no-operations `F3 0F 1E`, for `BSWAP` and for `CMPXCHG` and `XADD` with or
without a lock prefix. For any other instruction it is the number of bytes that tell
it from these, which is never more than its length.
-/
def instructionLength (code : Nat → Byte) : Nat :=
  if code 0 = 0xf0 then 1 + unprefixedLength fun index => code (1 + index)
  else if code 0 = 0xf3 then
    if code 1 = 0x0f then
      if code 2 = 0x1e then 3 + modrmLength fun index => code (3 + index)
      else 3
    else 2
  else unprefixedLength code

/-- `XADD dest, src`: exchange the operands, then store their sum in `dest`. -/
def xadd (arch : Arch) (dest : Dest) (src : Reg) : Arch :=
  let destValue := arch.readDest dest
  let srcValue := arch.gpr src
  let exchanged := (arch.setReg src destValue).writeDest dest (destValue + srcValue)
  { exchanged with eflags := setArithFlags arch.eflags (addFlags destValue srcValue) }

/-- `CMPXCHG dest, src`: compare with `eax` and store `src` if they are equal. -/
def cmpxchg (arch : Arch) (dest : Dest) (src : Reg) : Arch :=
  let destValue := arch.readDest dest
  let accumulator := arch.gpr .eax
  let exchanged :=
    if accumulator = destValue then arch.writeDest dest (arch.gpr src)
    else arch.setReg .eax destValue
  { exchanged with eflags := setArithFlags arch.eflags (cmpFlags accumulator destValue) }

theorem cmpxchg_of_eq {arch : Arch} {dest : Dest} {src : Reg}
    (equal : arch.gpr .eax = arch.readDest dest) :
    cmpxchg arch dest src =
      { arch.writeDest dest (arch.gpr src) with
        eflags := setArithFlags arch.eflags (cmpFlags (arch.gpr .eax) (arch.readDest dest)) } := by
  simp only [cmpxchg, if_pos equal]

theorem cmpxchg_of_ne {arch : Arch} {dest : Dest} {src : Reg}
    (differ : ¬arch.gpr .eax = arch.readDest dest) :
    cmpxchg arch dest src =
      { arch.setReg .eax (arch.readDest dest) with
        eflags := setArithFlags arch.eflags (cmpFlags (arch.gpr .eax) (arch.readDest dest)) } := by
  simp only [cmpxchg, if_neg differ]

/-- The two read-modify-write instructions with a ModRM operand. -/
inductive AtomicOp where
  | cmpxchg | xadd
  deriving DecidableEq, Repr

/-- The second opcode byte, after `0F`. -/
def AtomicOp.opcode : AtomicOp → Byte
  | .cmpxchg => 0xb1
  | .xadd => 0xc1

/-- Effect of an instruction of `length` bytes. -/
def AtomicOp.exec (op : AtomicOp) (arch : Arch) (dest : Dest) (src : Reg) (length : Nat) : Arch :=
  let executed :=
    match op with
    | .cmpxchg => Ia32.cmpxchg arch dest src
    | .xadd => Ia32.xadd arch dest src
  { executed with eip := arch.eip + BitVec.ofNat 32 length }

theorem AtomicOp.exec_eq (op : AtomicOp) (arch : Arch) (dest : Dest) (src : Reg) (length : Nat) :
    op.exec arch dest src length =
      let advanced := { arch with eip := arch.eip + BitVec.ofNat 32 length }
      match op with
      | .cmpxchg => Ia32.cmpxchg advanced dest src
      | .xadd => Ia32.xadd advanced dest src := by
  cases op with
  | xadd =>
      cases dest with
      | reg register => rfl
      | mem address => rfl
  | cmpxchg =>
      by_cases equal : arch.gpr .eax = arch.readDest dest
      · simp only [exec]
        rw [cmpxchg_of_eq equal, cmpxchg_of_eq (by cases dest <;> exact equal)]
        cases dest with
        | reg register => rfl
        | mem address => rfl
      · simp only [exec]
        rw [cmpxchg_of_ne equal, cmpxchg_of_ne (by cases dest <;> exact equal)]
        cases dest with
        | reg register => rfl
        | mem address => rfl

/-- Two states agree up to the flags in a mask. -/
def Arch.EqExceptFlags (mask : Word) (left right : Arch) : Prop :=
  left.gpr = right.gpr ∧ left.eip = right.eip ∧ left.mem = right.mem ∧
    left.eflags &&& ~~~mask = right.eflags &&& ~~~mask

theorem Arch.readDest_withFlags (arch : Arch) (eflags : Word) (dest : Dest) :
    ({ arch with eflags := eflags } : Arch).readDest dest = arch.readDest dest := by
  cases dest with
  | reg register => rfl
  | mem address => rfl

theorem Arch.writeDest_withFlags (arch : Arch) (eflags : Word) (dest : Dest) (value : Word) :
    ({ arch with eflags := eflags } : Arch).writeDest dest value =
      { arch.writeDest dest value with eflags := eflags } := by
  cases dest with
  | reg register => rfl
  | mem address => rfl

end Gray386.Machine.Ia32
