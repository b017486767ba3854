import Gray386.Emu.Uaccess

/-!
# The instruction emulator

The functions of `arch/x86/kernel/i486_emu.c`, statement by statement. A
`struct parser_state` is passed and returned by value; its `regs` member is the
frame of the trap context and is not repeated. Members that the source leaves
uninitialised start as null pointers and zeros and are written before they are
read.

The inline assembly of `parse_emu_xadd` adds, pushes the flags register and pops
it into a variable: the arithmetic flags in that variable are those of the
addition and every other bit is the kernel's own. Disabling interrupts and the
messages printed on a failed range check have no effect on the modelled state.
-/

namespace Gray386.Emu

open Gray386.Machine

/-- `MODRM_REG`. -/
def modrmReg (b : Word) : Word := (b >>> 3) &&& 7

/-- `MODRM_MOD`. -/
def modrmMod (b : Word) : Word := (b >>> 6) &&& 3

/-- `MODRM_RM`. -/
def modrmRm (b : Word) : Word := b &&& 7

/-- `struct parser_state`. -/
structure ParserState where
  instSrc : Ptr
  instDest : Ptr
  origIp : Word
  insts : Word
  insts2 : Word
  regsOnly : Word
  lockPrefix : Word
  deriving DecidableEq, Repr

/-- `parse_reg`: the return value and the pointer left in `*inst_src`. -/
def parseReg (reg : Word) (instSrc : Ptr) : Int × Ptr :=
  match reg.toNat with
  | 0 => (1, .slot .ax)
  | 1 => (1, .slot .cx)
  | 2 => (1, .slot .dx)
  | 3 => (1, .slot .bx)
  | 4 => (1, .slot .sp)
  | 5 => (1, .slot .bp)
  | 6 => (1, .slot .si)
  | 7 => (1, .slot .di)
  | _ => (-eopnotsupp, instSrc)

/-- The register switch of `parse_modrm_register` for a memory operand. -/
def parseBase (rm : Word) : Option Slot :=
  match rm.toNat with
  | 0 => some .ax
  | 1 => some .cx
  | 2 => some .dx
  | 3 => some .bx
  -- 4 announces a SIB byte, which is not supported
  | 5 => some .bp
  | 6 => some .si
  | 7 => some .di
  | _ => none

/--
The 32-bit displacement, which starts in `insts` when the instruction has no lock
prefix and is all of `insts2` when it has one. Leaves the displacement in `insts`.
-/
def fetchDisp32 (pstate : ParserState) (instSize : Word) : Kernel ParserState := do
  updateSlot .ip (· + (4 - instSize))
  if instSize < 4 then
    updateSlot .ip (· + 3)
    return { pstate with insts := pstate.insts ||| (pstate.insts2 <<< 8) }
  else
    updateSlot .ip (· + 4)
    return { pstate with insts := pstate.insts2 }

/--
The second half of `parse_modrm_register`, which turns the pointer to the saved
base register into the address of the operand.
-/
def parseDisplacement (ctx : TrapContext) (pstate : ParserState) (mod rm : Word) :
    Kernel (Int × ParserState) := do
  let pstate := { pstate with insts := pstate.insts >>> 8 }
  updateSlot .ip (· + 1)
  let instSize := (← get).regs.ip - pstate.origIp
  match mod.toNat with
  | 0 =>
      -- without a displacement `inst_dest` still points at the saved register
      if rm ≠ 5 then return (1, pstate)
      let pstate ← fetchDisp32 pstate instSize
      return (1, { pstate with instDest := .user pstate.insts })
  | 1 =>
      let insts := if instSize = 4 then pstate.insts2 else pstate.insts
      updateSlot .ip (· + 1)
      let base ← deref ctx pstate.instDest
      return (1, { pstate with insts := insts, instDest := .user (base + (insts &&& 0xff)) })
  | 2 =>
      let pstate ← fetchDisp32 pstate instSize
      let base ← deref ctx pstate.instDest
      return (1, { pstate with instDest := .user (base + pstate.insts) })
  | _ => return (-eopnotsupp, pstate)

/-- `parse_modrm_register`. -/
def parseModrmRegister (ctx : TrapContext) (pstate : ParserState) :
    Kernel (Int × ParserState) := do
  let mod := modrmMod pstate.insts
  let rm := modrmRm pstate.insts
  let reg := modrmReg pstate.insts
  let (ret, src) := parseReg reg pstate.instSrc
  let pstate := { pstate with instSrc := src }
  if ret < 0 then return (-eopnotsupp, pstate)
  if mod = 3 then
    let (ret, dest) := parseReg rm pstate.instDest
    let pstate := { pstate with instDest := dest }
    if ret < 0 then return (-eopnotsupp, pstate)
    updateSlot .ip (· + 1)
    return (1, { pstate with regsOnly := 1 })
  let pstate := { pstate with regsOnly := 0 }
  match parseBase rm with
  | none => return (-eopnotsupp, pstate)
  | some base => parseDisplacement ctx { pstate with instDest := .slot base } mod rm

/-- Log an access through `inst_dest` when it is a memory operand. -/
def recordDest (pstate : ParserState) (access : BusAccess) : Kernel Unit :=
  if pstate.regsOnly = 0 then record access else pure ()

/-- `*(pstate->inst_dest)` as a value. -/
def loadDest (ctx : TrapContext) (pstate : ParserState) : Kernel Word := do
  recordDest pstate (.read (pstate.instDest.address ctx))
  deref ctx pstate.instDest

/-- `*(pstate->inst_dest) = value`. -/
def storeDest (ctx : TrapContext) (pstate : ParserState) (value : Word) : Kernel Unit := do
  recordDest pstate (.write (pstate.instDest.address ctx))
  assign ctx pstate.instDest value

/-- The range check that precedes every use of a memory operand. -/
def checkDest (ctx : TrapContext) (pstate : ParserState) : Kernel Bool := do
  if pstate.regsOnly = 0 then
    record (.check (pstate.instDest.address ctx))
    return accessOk ctx (pstate.instDest.address ctx) 4
  else return true

/--
The common beginning of `parse_emu_cmpxchg` and `parse_emu_xadd`: decode the
operands, check the range of a memory operand, and go on with `operate`.
-/
def parseOperands (ctx : TrapContext) (pstate : ParserState)
    (operate : ParserState → Kernel Int) : Kernel Int := do
  let (ret, pstate) ← parseModrmRegister ctx pstate
  if ret < 0 then return -eopnotsupp
  if !(← checkDest ctx pstate) then return -enomem
  operate pstate

/-- `parse_emu_cmpxchg` once its operands are known. -/
def operateCmpxchg (ctx : TrapContext) (pstate : ParserState) : Kernel Int := do
  let dest ← loadDest ctx pstate
  if (← get).regs.ax = dest then
    updateSlot .flags (· ||| Ia32.zf)
    storeDest ctx pstate (← deref ctx pstate.instSrc)
  else
    updateSlot .flags (· &&& ~~~Ia32.zf)
    setSlot .ax (← loadDest ctx pstate)
  return 1

/-- `parse_emu_cmpxchg`. -/
def parseEmuCmpxchg (ctx : TrapContext) (pstate : ParserState) : Kernel Int :=
  parseOperands ctx pstate (operateCmpxchg ctx)

/-- `addl`, `pushfl`, `popl`: the sum and the flags register. -/
def addlPushfl (ctx : TrapContext) (dest src : Word) : Word × Word :=
  (src + dest, Ia32.setArithFlags ctx.kernelFlags (Ia32.addFlags src dest))

/-- The operand that `parse_emu_xadd` adds to. -/
def xaddDest (ctx : TrapContext) (pstate : ParserState) : Kernel Word := do
  if pstate.regsOnly = 0 then
    record (.read (pstate.instDest.address ctx))
    -- the return value of `get_user` is ignored
    let (_, dest) ← getUser ctx (pstate.instDest.address ctx)
    return dest
  else deref ctx pstate.instDest

/-- The store of the sum at the end of `parse_emu_xadd`. -/
def xaddStore (ctx : TrapContext) (pstate : ParserState) (resultDest : Word) : Kernel Unit := do
  if pstate.regsOnly = 0 then
    record (.write (pstate.instDest.address ctx))
    -- the return value of `put_user` is ignored
    let _ ← putUser ctx resultDest (pstate.instDest.address ctx)
  else assign ctx pstate.instDest resultDest

/-- `parse_emu_xadd` once its operands are known. -/
def operateXadd (ctx : TrapContext) (pstate : ParserState) : Kernel Int := do
  let dest ← xaddDest ctx pstate
  let src ← deref ctx pstate.instSrc
  let (resultDest, flags) := addlPushfl ctx dest src
  updateSlot .flags (· &&& ~~~Ia32.arithFlags)
  updateSlot .flags (· ||| (flags &&& Ia32.arithFlags))
  assign ctx pstate.instSrc (← loadDest ctx pstate)
  xaddStore ctx pstate resultDest
  return 1

/-- `parse_emu_xadd`. -/
def parseEmuXadd (ctx : TrapContext) (pstate : ParserState) : Kernel Int :=
  parseOperands ctx pstate (operateXadd ctx)

/-- The mask-and-shift expression of `parse_emu_bswap`. -/
def swapBytes (value : Word) : Word :=
  ((value &&& 0x000000FF) <<< 24) ||| ((value &&& 0x0000FF00) <<< 8) |||
    ((value &&& 0x00FF0000) >>> 8) ||| ((value &&& 0xFF000000) >>> 24)

/-- `parse_emu_bswap`. -/
def parseEmuBswap (ctx : TrapContext) (pstate : ParserState) : Kernel Int := do
  if pstate.lockPrefix = 1 then return -eopnotsupp
  let (ret, dest) := parseReg (modrmRm pstate.insts) pstate.instDest
  if ret < 0 then return -eopnotsupp
  updateSlot .ip (· + 1)
  assign ctx dest (swapBytes (← deref ctx dest))
  return 1

/-- The opcode switch, reached with `insts` at the byte after `0F`. -/
def parseOpcode (ctx : TrapContext) (pstate : ParserState) : Kernel Int := do
  let opcode := (pstate.insts &&& 0xff).toNat
  if opcode = 0xb1 then
    updateSlot .ip (· + 1)
    parseEmuCmpxchg ctx { pstate with insts := pstate.insts >>> 8 }
  else if opcode = 0xc1 then
    updateSlot .ip (· + 1)
    parseEmuXadd ctx { pstate with insts := pstate.insts >>> 8 }
  -- 0xcc and 0xcd, bswap of esp and ebp, are not in the list of the source
  else if opcode ∈ [0xc8, 0xc9, 0xca, 0xcb, 0xce, 0xcf] then
    parseEmuBswap ctx pstate
  else return -eopnotsupp

/-- What `parse_emu_instruction` does between the fetch and the label `end`. -/
def emulate (ctx : TrapContext) (insts insts2 : Word) : Kernel Int := do
  let regs := (← get).regs
  -- endbr32
  if insts = 0xfb1e0ff3 then
    setSlot .ip (regs.ip + 4)
    return 1
  let pstate : ParserState :=
    { instSrc := .user 0, instDest := .user 0, origIp := regs.ip, insts := insts,
      insts2 := insts2, regsOnly := 0, lockPrefix := 0 }
  let pstate ←
    if (insts &&& 0xff) = 0xf0 then do
      updateSlot .ip (· + 1)
      pure { pstate with insts := insts >>> 8, lockPrefix := 1 }
    else pure pstate
  if (pstate.insts &&& 0xff) ≠ 0x0f then return -eopnotsupp
  updateSlot .ip (· + 1)
  parseOpcode ctx { pstate with insts := pstate.insts >>> 8 }

/-- `parse_emu_instruction`. -/
def parseEmuInstruction (ctx : TrapContext) : Kernel Int := do
  let origIp := (← get).regs.ip
  let (ret, insts) ← getUser ctx origIp
  if ret = -efault then return -enomem
  let (ret, insts2) ← getUser ctx (origIp + 4)
  if ret = -efault then return -enomem
  let ret ← emulate ctx insts insts2
  if ret < 0 then
    -- rollback in case of failure
    setSlot .ip origIp
  return ret

end Gray386.Emu
