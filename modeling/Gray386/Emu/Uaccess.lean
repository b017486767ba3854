import Gray386.Emu.Frame

/-!
# Access to user memory from the trap handler

The emulator reaches memory in three ways, and the difference matters: through
`get_user`, which checks the address range and returns `-EFAULT` when a page
fault cannot be resolved; through `put_user`, which on a kernel built for the 386
is `__copy_to_user_ll` and checks the pages but not the range; and by plain
dereference of a pointer, which has no entry in the exception table, so that a
fault there is an oops. A plain store of a 386 also ignores the write-protect
bit of the page (`wp_works_ok` is zero).

The saved frame lies in the same address space as everything else. An address
that falls into the frame reads and writes the saved registers, whatever the
address limit says; that user addresses never do so is a theorem and not part of
the model.

The state carries a log of the accesses made through a memory operand. It is
written by the model only and nothing reads it.
-/

namespace Gray386.Emu

open Gray386.Machine

def efault : Int := 14
def enomem : Int := 12
def eopnotsupp : Int := 95

/-- `TASK_SIZE` with the 3G/1G split of the configuration. -/
def taskSize : Word := 0xC0000000

/-- What the handler of one trap finds and does not change. -/
structure TrapContext where
  /-- The address of the frame on the kernel stack. -/
  regsAddr : Word
  /-- `current_thread_info()->addr_limit.seg`. -/
  addrLimit : Word
  /-- `boot_cpu_data.wp_works_ok`: supervisor stores honour write protection. -/
  wpWorksOk : Bool
  /-- The flags register of the kernel while it emulates. -/
  kernelFlags : Word
  frame_fits : regsAddr.toNat + PtRegs.size ≤ 2 ^ 32

namespace TrapContext

/-- The trap came from user mode: the frame lies at or above the address limit. -/
def FromUser (ctx : TrapContext) : Prop :=
  ctx.addrLimit.toNat ≤ ctx.regsAddr.toNat

/-- The byte at this address belongs to the saved frame. -/
def InFrame (ctx : TrapContext) (address : Word) : Prop :=
  ctx.regsAddr.toNat ≤ address.toNat ∧ address.toNat < ctx.regsAddr.toNat + PtRegs.size

instance (ctx : TrapContext) (address : Word) : Decidable (ctx.InFrame address) :=
  inferInstanceAs (Decidable (_ ∧ _))

instance (ctx : TrapContext) : Decidable ctx.FromUser :=
  inferInstanceAs (Decidable (_ ≤ _))

end TrapContext

/-- A pointer of the emulator: the address of a frame member, or a computed address. -/
inductive Ptr where
  | slot (member : Slot)
  | user (address : Word)
  deriving DecidableEq, Repr

/-- The pointer as a number. -/
def Ptr.address (ctx : TrapContext) : Ptr → Word
  | .slot member => ctx.regsAddr + BitVec.ofNat 32 (4 * member.index)
  | .user address => address

/-- One entry of the log of accesses through a memory operand. -/
inductive BusAccess where
  | check (address : Word)
  | read (address : Word)
  | write (address : Word)
  deriving DecidableEq, Repr

/-- The address of the word that is accessed. -/
def BusAccess.address : BusAccess → Word
  | .check address | .read address | .write address => address

/-- The saved frame, user memory and the log. -/
@[ext]
structure State where
  regs : PtRegs
  mem : Memory
  bus : List BusAccess

/-- `Unable to handle kernel paging request`: a fault without a fixup. -/
structure Oops where
  address : Word
  deriving DecidableEq, Repr

/-- Code that runs in the trap handler. -/
abbrev Kernel := EStateM Oops State

namespace State

/-- The byte at an address as the kernel reads it, if no fault occurs. -/
def readByte (ctx : TrapContext) (st : State) (address : Word) : Option Byte :=
  if ctx.InFrame address then
    some (st.regs.byteAt (address.toNat - ctx.regsAddr.toNat))
  else if st.mem.present (page address) then some (st.mem.byteAt address)
  else none

/-- The word at an address as the kernel reads it, if no fault occurs. -/
def load (ctx : TrapContext) (st : State) (address : Word) : Option Word := do
  let b₀ ← st.readByte ctx address
  let b₁ ← st.readByte ctx (address + 1)
  let b₂ ← st.readByte ctx (address + 2)
  let b₃ ← st.readByte ctx (address + 3)
  return ofBytes b₀ b₁ b₂ b₃

/-- Replace the byte at an address. -/
def writeByte (ctx : TrapContext) (st : State) (address : Word) (value : Byte) : State :=
  if ctx.InFrame address then
    { st with regs := st.regs.setByte (address.toNat - ctx.regsAddr.toNat) value }
  else { st with mem := st.mem.setByte address value }

/-- Replace consecutive bytes. -/
def writeBytes (ctx : TrapContext) (st : State) (address : Word) : List Byte → State
  | [] => st
  | value :: rest => (st.writeByte ctx address value).writeBytes ctx (address + 1) rest

/-- A plain kernel store to this byte does not fault. -/
def storable (ctx : TrapContext) (st : State) (address : Word) : Bool :=
  ctx.InFrame address ||
    (st.mem.present (page address) && (st.mem.writable (page address) || !ctx.wpWorksOk))

/-- A plain kernel store of a word, if no fault occurs. -/
def store (ctx : TrapContext) (st : State) (address value : Word) : Option State :=
  if st.storable ctx address && st.storable ctx (address + 1) &&
      st.storable ctx (address + 2) && st.storable ctx (address + 3) then
    some (st.writeBytes ctx address [byte value 0, byte value 1, byte value 2, byte value 3])
  else none

end State

/-- `*ptr` as a value. -/
def deref (ctx : TrapContext) (ptr : Ptr) : Kernel Word := fun st =>
  match ptr with
  | .slot member => .ok (st.regs.get member) st
  | .user address =>
      match st.load ctx address with
      | some value => .ok value st
      | none => .error ⟨address⟩ st

/-- `*ptr = value`. -/
def assign (ctx : TrapContext) (ptr : Ptr) (value : Word) : Kernel Unit := fun st =>
  match ptr with
  | .slot member => .ok () { st with regs := st.regs.set member value }
  | .user address =>
      match st.store ctx address value with
      | some stored => .ok () stored
      | none => .error ⟨address⟩ st

/-- `regs->member = value`. -/
def setSlot (member : Slot) (value : Word) : Kernel Unit := fun st =>
  .ok () { st with regs := st.regs.set member value }

/-- A compound assignment to `regs->member`. -/
def updateSlot (member : Slot) (f : Word → Word) : Kernel Unit := fun st =>
  .ok () { st with regs := st.regs.set member (f (st.regs.get member)) }

/-- Add an entry to the log. -/
def record (access : BusAccess) : Kernel Unit := fun st =>
  .ok () { st with bus := st.bus ++ [access] }

/--
`__range_not_ok`: `add` leaves the carry in `flag` as 0 or -1, and the comparison
of the limit with the sum subtracts its borrow.
-/
def rangeNotOk (addr size limit : Word) : Word :=
  let carry := 2 ^ 32 ≤ addr.toNat + size.toNat
  let roksum := addr + size
  let flag : Word := if carry then -1 else 0
  flag - (if limit < roksum then 1 else 0)

/-- `access_ok` for a write; the type of the access is ignored on this machine. -/
def accessOk (ctx : TrapContext) (addr size : Word) : Bool :=
  rangeNotOk addr size ctx.addrLimit = 0

/-- `get_user` of a word: the return value and the value left in the variable. -/
def getUser (ctx : TrapContext) (address : Word) : Kernel (Int × Word) := fun st =>
  -- `__get_user_4`: `add $3`, `jc`, `cmp` with the limit, `jae`
  if 2 ^ 32 ≤ address.toNat + 3 then .ok (-efault, 0) st
  else if ctx.addrLimit ≤ address + 3 then .ok (-efault, 0) st
  else
    match st.load ctx address with
    | some value => .ok (0, value) st
    | none => .ok (-efault, 0) st

/--
The page-wise loop of `__copy_to_user_ll` for a processor without write
protection in supervisor mode; the result is the number of bytes not copied.
`in_atomic()` does not hold here: the handler runs in the context of the process
that trapped, and disabled interrupts do not count.
-/
def copyToUserPages (ctx : TrapContext) :
    Nat → Word → List Byte → State → Nat × State
  | 0, _, bytes, st => (bytes.length, st)
  | fuel + 1, target, bytes, st =>
      if bytes = [] then (0, st)
      else
        let offset := target.toNat % 4096
        let len := min (4096 - offset) bytes.length
        -- `get_user_pages` with `write` set fails on an absent or read-only page
        if st.mem.UserWritable target then
          copyToUserPages ctx fuel (target + BitVec.ofNat 32 len) (bytes.drop len)
            (st.writeBytes ctx target (bytes.take len))
        else (bytes.length, st)

/-- `__copy_user` for at most seven bytes: `rep movsb` with a fixup. -/
def copyUser (ctx : TrapContext) : Word → List Byte → State → Nat × State
  | _, [], st => (0, st)
  | target, value :: rest, st =>
      if st.storable ctx target then
        copyUser ctx (target + 1) rest (st.writeByte ctx target value)
      else (rest.length + 1, st)

/-- `__copy_to_user_ll`; every round of the page loop copies at least one byte. -/
def copyToUserLl (ctx : TrapContext) (target : Word) (bytes : List Byte) (st : State) :
    Nat × State :=
  if ctx.wpWorksOk = false ∧ target < taskSize then
    copyToUserPages ctx bytes.length target bytes st
  else copyUser ctx target bytes st

/-- `put_user` of a word. -/
def putUser (ctx : TrapContext) (value address : Word) : Kernel Int := fun st =>
  let copied := copyToUserLl ctx address
    [byte value 0, byte value 1, byte value 2, byte value 3] st
  if copied.1 ≠ 0 then .ok (-efault) copied.2 else .ok 0 copied.2

end Gray386.Emu
