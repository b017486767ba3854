import Gray386.Emu.Confinement

/-!
# The emulator against the instruction set

`State.arch` forgets what the instruction set does not know: the segment members
of the frame, page permissions and the log. Along it, the emulator is compared
with the reference semantics.

The comparison has two halves. For the encodings in `RefinedForm` the decoder of
the emulator finds the operand that the instruction set prescribes. And on an
operand that is a register or a writable word of user memory, each handler makes
the transition of its instruction, whatever registers coincide: both sides fix the
operand address before they write, and both write the source register before the
destination.
-/

namespace Gray386.Emu

open Gray386.Machine

/-- The architectural state that a saved frame and user memory represent. -/
def State.arch (st : State) : Ia32.Arch :=
  { gpr := fun register => st.regs.get (Slot.ofReg register)
    eip := st.regs.ip
    eflags := st.regs.flags
    mem := st.mem.byteAt }

/-- The bytes at the saved instruction pointer. -/
def State.codeAt (st : State) : Nat → Byte :=
  fun index => st.mem.byteAt (st.regs.ip + BitVec.ofNat 32 index)

namespace State

/-- The log after an access to the operand. -/
def logDest (st : State) (access : Word → BusAccess) : Ia32.Dest → State
  | .reg _ => st
  | .mem address => st.log (access address)

/-- The state after the operand has been written. -/
def writeDest (st : State) : Ia32.Dest → Word → State
  | .reg register, value => { st with regs := st.regs.set (Slot.ofReg register) value }
  | .mem address, value => { st with mem := st.mem.store address value }

/-- The state after the saved flags have been written. -/
def withFlags (st : State) (value : Word) : State :=
  { st with regs := st.regs.set .flags value }

@[simp]
theorem mem_withFlags (st : State) (value : Word) : (st.withFlags value).mem = st.mem := rfl

@[simp]
theorem mem_writeDest_reg (st : State) (register : Ia32.Reg) (value : Word) :
    (st.writeDest (.reg register) value).mem = st.mem := rfl

@[simp]
theorem arch_logDest (st : State) (access : Word → BusAccess) (dest : Ia32.Dest) :
    (st.logDest access dest).arch = st.arch := by
  cases dest with
  | reg register => rfl
  | mem address => rfl

@[simp]
theorem mem_logDest (st : State) (access : Word → BusAccess) (dest : Ia32.Dest) :
    (st.logDest access dest).mem = st.mem := by
  cases dest with
  | reg register => rfl
  | mem address => rfl

@[simp]
theorem regs_logDest (st : State) (access : Word → BusAccess) (dest : Ia32.Dest) :
    (st.logDest access dest).regs = st.regs := by
  cases dest with
  | reg register => rfl
  | mem address => rfl

theorem arch_setReg (st : State) (register : Ia32.Reg) (value : Word) :
    ({ st with regs := st.regs.set (Slot.ofReg register) value } : State).arch =
      st.arch.setReg register value := by
  ext1
  · funext other
    simp only [arch, Ia32.Arch.setReg, PtRegs.get_set, Slot.ofReg_inj, Function.update_apply]
  · exact PtRegs.get_set_of_ne _ (Slot.ofReg_ne_ip register).symm value
  · exact PtRegs.get_set_of_ne _ (Slot.ofReg_ne_flags register).symm value
  · rfl

theorem arch_store (st : State) (address value : Word) :
    ({ st with mem := st.mem.store address value } : State).arch =
      st.arch.storeWord address value := by
  ext1
  · rfl
  · rfl
  · rfl
  · funext other
    exact Memory.byteAt_store st.mem address value other

theorem arch_writeDest (st : State) (dest : Ia32.Dest) (value : Word) :
    (st.writeDest dest value).arch = st.arch.writeDest dest value := by
  cases dest with
  | reg register => exact arch_setReg st register value
  | mem address => exact arch_store st address value

theorem arch_withFlags (st : State) (value : Word) :
    (st.withFlags value).arch = { st.arch with eflags := value } := by
  ext1
  · funext other
    exact PtRegs.get_set_of_ne _ (Slot.ofReg_ne_flags other) value
  · rfl
  · rfl
  · rfl

theorem arch_begun (st : State) (ctx : TrapContext) (skip : Nat) (operand : Operand) :
    (st.begun ctx skip operand).arch =
      { st.arch with eip := st.arch.eip + BitVec.ofNat 32 (skip + operand.length) } := by
  ext1
  · funext other
    simp only [arch, regs_begun]
    exact get_advance_of_ne st _ (Slot.ofReg_ne_ip other)
  · simp only [arch, regs_begun]
    rfl
  · simp only [arch, regs_begun]
    rfl
  · simp only [arch, mem_begun]

end State

/-- A memory operand is mapped and writable from user mode. -/
def Accessible (memory : Memory) : Ia32.Dest → Prop
  | .reg _ => True
  | .mem address => ∀ other, InWord address other → memory.UserWritable other

theorem Accessible.begun {ctx : TrapContext} {st : State} {dest : Ia32.Dest}
    (accessible : Accessible st.mem dest) (skip : Nat) (operand : Operand) :
    Accessible (st.begun ctx skip operand).mem dest := by
  rw [State.mem_begun]
  exact accessible

section Access

variable {ctx : TrapContext} {pstate : ParserState} {src : Slot} {operand : Operand}
  {dest : Ia32.Dest} {st : State}

theorem readWrite_of_accessible {memory : Memory} {address : Word}
    (below : address.toNat + 4 ≤ ctx.addrLimit.toNat) (outside : OutsideFrame ctx address)
    (accessible : Accessible memory (.mem address)) : ReadWrite ctx memory address :=
  { below := bytes_lt_of_add_four_le below
    outside := outside
    present := fun other inside => (accessible other inside).1
    writable := fun other inside => (accessible other inside).2 }

theorem loadDest_run (decoded : Decoded pstate src operand) (denotes : operand.Denotes ctx dest)
    (accessible : Accessible st.mem dest) :
    loadDest ctx pstate st = .ok (st.arch.readDest dest) (st.logDest .read dest) := by
  simp only [loadDest, recordDest, decoded.regsOnly, decoded.instDest]
  cases denotes with
  | register register dest_eq notInMemory =>
      rw [notInMemory, dest_eq]
      rfl
  | memory address dest_eq inMemory below outside =>
      have operandWord := readWrite_of_accessible below outside accessible
      rw [inMemory, dest_eq]
      exact deref_of_readable (st.log (.read address)) operandWord.toReadable

theorem xaddDest_run (decoded : Decoded pstate src operand) (denotes : operand.Denotes ctx dest)
    (accessible : Accessible st.mem dest) :
    xaddDest ctx pstate st = .ok (st.arch.readDest dest) (st.logDest .read dest) := by
  simp only [xaddDest, decoded.regsOnly, decoded.instDest]
  cases denotes with
  | register register dest_eq notInMemory =>
      rw [notInMemory, dest_eq]
      rfl
  | memory address dest_eq inMemory below outside =>
      have operandWord := readWrite_of_accessible below outside accessible
      rw [inMemory, dest_eq]
      exact run_bind_ok (getUser_of_readable (st.log (.read address)) operandWord.toReadable)

theorem storeDest_run (decoded : Decoded pstate src operand) (denotes : operand.Denotes ctx dest)
    (accessible : Accessible st.mem dest) (value : Word) :
    storeDest ctx pstate value st = .ok () ((st.logDest .write dest).writeDest dest value) := by
  simp only [storeDest, recordDest, decoded.regsOnly, decoded.instDest]
  cases denotes with
  | register register dest_eq notInMemory =>
      rw [notInMemory, dest_eq]
      rfl
  | memory address dest_eq inMemory below outside =>
      have operandWord := readWrite_of_accessible below outside accessible
      rw [inMemory, dest_eq]
      exact assign_of_readWrite (st.log (.write address)) operandWord value

theorem xaddStore_run (decoded : Decoded pstate src operand) (denotes : operand.Denotes ctx dest)
    (accessible : Accessible st.mem dest) (value : Word) :
    xaddStore ctx pstate value st = .ok () ((st.logDest .write dest).writeDest dest value) := by
  simp only [xaddStore, decoded.regsOnly, decoded.instDest]
  cases denotes with
  | register register dest_eq notInMemory =>
      rw [notInMemory, dest_eq]
      rfl
  | memory address dest_eq inMemory below outside =>
      have operandWord := readWrite_of_accessible below outside accessible
      rw [inMemory, dest_eq]
      exact run_bind_ok (putUser_of_readWrite (st.log (.write address)) operandWord value)

theorem deref_src_run (decoded : Decoded pstate src operand) {register : Ia32.Reg}
    (src_eq : src = Slot.ofReg register) :
    deref ctx pstate.instSrc st = .ok (st.arch.gpr register) st := by
  rw [decoded.instSrc, src_eq]
  rfl

theorem run_updateFlags (f : Word → Word) (st : State) :
    updateSlot .flags f st = .ok () (st.withFlags (f st.arch.eflags)) := rfl

end Access

/-- The flags that `parse_emu_xadd` assembles are those of the addition. -/
theorem assembled_flags (ctx : TrapContext) (eflags dest src : Word) :
    (eflags &&& ~~~Ia32.arithFlags) ||| ((addlPushfl ctx dest src).2 &&& Ia32.arithFlags) =
      Ia32.setArithFlags eflags (Ia32.addFlags dest src) := by
  rw [addlPushfl, Ia32.setArithFlags_and_arithFlags (Ia32.addFlags_and_arithFlags src dest),
    Ia32.addFlags_comm src dest]
  rfl

theorem or_zf_masked (flags : Word) :
    (flags ||| Ia32.zf) &&& ~~~(Ia32.arithFlags &&& ~~~Ia32.zf) =
      (flags &&& ~~~Ia32.arithFlags) ||| Ia32.zf := by
  have absorbs : (flags ||| Ia32.zf) &&& Ia32.zf = Ia32.zf := by
    ext index
    simp only [BitVec.getElem_and, BitVec.getElem_or]
    cases Ia32.zf[index] with
    | false => simp
    | true => simp
  rw [Ia32.and_not_besides_zf, or_zf_keeps, absorbs]

theorem and_not_zf_masked (flags : Word) :
    flags &&& ~~~Ia32.zf &&& ~~~(Ia32.arithFlags &&& ~~~Ia32.zf) =
      flags &&& ~~~Ia32.arithFlags := by
  rw [Ia32.and_not_besides_zf, and_not_zf_keeps, BitVec.and_assoc,
    show ~~~Ia32.zf &&& Ia32.zf = 0#32 by decide, BitVec.and_zero, BitVec.or_zero]

section Handlers

variable {ctx : TrapContext} {pstate : ParserState} {register : Ia32.Reg} {operand : Operand}
  {dest : Ia32.Dest} {st : State}

theorem assign_src_run (decoded : Decoded pstate (Slot.ofReg register) operand) (value : Word)
    (st : State) :
    assign ctx pstate.instSrc value st = .ok () (st.writeDest (.reg register) value) := by
  rw [decoded.instSrc]
  rfl

/-- `parse_emu_xadd` from `get_user` to the assignment of the source register. -/
def xaddFetch (ctx : TrapContext) (pstate : ParserState) : Kernel Word := do
  let dest ← xaddDest ctx pstate
  let src ← deref ctx pstate.instSrc
  let (resultDest, flags) := addlPushfl ctx dest src
  updateSlot .flags (· &&& ~~~Ia32.arithFlags)
  updateSlot .flags (· ||| (flags &&& Ia32.arithFlags))
  assign ctx pstate.instSrc (← loadDest ctx pstate)
  return resultDest

theorem operateXadd_eq_fetch_store (ctx : TrapContext) (pstate : ParserState) :
    operateXadd ctx pstate = (do
      let resultDest ← xaddFetch ctx pstate
      xaddStore ctx pstate resultDest
      return 1) := by
  simp only [operateXadd, xaddFetch, bind_assoc, pure_bind]

theorem xaddFetch_run (decoded : Decoded pstate (Slot.ofReg register) operand)
    (denotes : operand.Denotes ctx dest) (accessible : Accessible st.mem dest) :
    ∃ fetched, xaddFetch ctx pstate st =
        .ok (st.arch.gpr register + st.arch.readDest dest) fetched ∧ fetched.mem = st.mem ∧
      fetched.arch = { st.arch.setReg register (st.arch.readDest dest) with
        eflags := Ia32.setArithFlags st.arch.eflags
          (Ia32.addFlags (st.arch.readDest dest) (st.arch.gpr register)) } := by
  have sum_eq : (addlPushfl ctx (st.arch.readDest dest)
      ((st.logDest .read dest).arch.gpr register)).1 =
        st.arch.gpr register + st.arch.readDest dest := by
    rw [State.arch_logDest, addlPushfl]
  simp only [xaddFetch]
  rw [run_bind_ok (xaddDest_run decoded denotes accessible),
    run_bind_ok (deref_src_run decoded rfl), run_bind_ok (run_updateFlags _ _),
    run_bind_ok (run_updateFlags _ _),
    run_bind_ok (loadDest_run decoded denotes (by simpa using accessible)),
    run_bind_ok (assign_src_run decoded _ _), run_pure]
  refine ⟨_, congrArg (EStateM.Result.ok · _) sum_eq, ?_, ?_⟩
  · simp only [State.mem_writeDest_reg, State.mem_logDest, State.mem_withFlags]
  · simp only [State.arch_writeDest, State.arch_logDest, State.arch_withFlags,
      Ia32.Arch.readDest_withFlags, Ia32.Arch.writeDest_withFlags, assembled_flags]
    rfl

theorem operateXadd_refines (decoded : Decoded pstate (Slot.ofReg register) operand)
    (denotes : operand.Denotes ctx dest) (accessible : Accessible st.mem dest) :
    ∃ final, operateXadd ctx pstate st = .ok 1 final ∧
      final.arch = Ia32.xadd st.arch dest register := by
  rcases xaddFetch_run decoded denotes accessible with ⟨fetched, run, mem_eq, arch_eq⟩
  have stillAccessible : Accessible fetched.mem dest := by
    rw [mem_eq]
    exact accessible
  rw [operateXadd_eq_fetch_store, run_bind_ok run,
    run_bind_ok (xaddStore_run decoded denotes stillAccessible _)]
  refine ⟨_, rfl, ?_⟩
  rw [State.arch_writeDest, State.arch_logDest, arch_eq, Ia32.Arch.writeDest_withFlags,
    BitVec.add_comm]
  rfl

theorem operateCmpxchg_refines (decoded : Decoded pstate (Slot.ofReg register) operand)
    (denotes : operand.Denotes ctx dest) (accessible : Accessible st.mem dest) :
    ∃ final, operateCmpxchg ctx pstate st = .ok 1 final ∧
      final.arch.EqExceptFlags (Ia32.arithFlags &&& ~~~Ia32.zf)
        (Ia32.cmpxchg st.arch dest register) := by
  simp only [operateCmpxchg]
  rw [run_bind_ok (loadDest_run decoded denotes accessible), run_get_bind, State.regs_logDest]
  by_cases equal : st.arch.gpr .eax = st.arch.readDest dest
  · rw [if_pos (show st.regs.ax = st.arch.readDest dest from equal),
      run_bind_ok (run_updateFlags _ _), run_bind_ok (deref_src_run decoded rfl),
      run_bind_ok (storeDest_run decoded denotes (by simpa using accessible) _),
      Ia32.cmpxchg_of_eq equal]
    refine ⟨_, rfl, ?_⟩
    simp only [State.arch_writeDest, State.arch_logDest, State.arch_withFlags,
      Ia32.Arch.writeDest_withFlags]
    refine ⟨rfl, rfl, rfl, ?_⟩
    rw [Ia32.setArithFlags_cmpFlags, or_zf_masked, decide_eq_true equal]
    rfl
  · have assigned : ∀ (value : Word) (before : State), setSlot .ax value before =
        .ok () (before.writeDest (.reg .eax) value) := fun _ _ => rfl
    rw [if_neg (show ¬st.regs.ax = st.arch.readDest dest from equal),
      run_bind_ok (run_updateFlags _ _),
      run_bind_ok (loadDest_run decoded denotes (by simpa using accessible)),
      run_bind_ok (assigned _ _), Ia32.cmpxchg_of_ne equal]
    refine ⟨_, rfl, ?_⟩
    simp only [State.arch_writeDest, State.arch_logDest, State.arch_withFlags,
      Ia32.Arch.readDest_withFlags, Ia32.Arch.writeDest_withFlags]
    refine ⟨rfl, rfl, rfl, ?_⟩
    rw [Ia32.setArithFlags_cmpFlags, and_not_zf_masked, decide_eq_false equal]
    exact BitVec.or_zero.symm

end Handlers

/-- The operand that the instruction set prescribes, with the length of its encoding. -/
def State.isaOperand (st : State) (locked : Bool) : Ia32.Dest × Nat :=
  Ia32.modrmOperand st.arch.gpr (operandCode st.codeAt locked)

/-- The source register that the instruction set prescribes. -/
def State.isaSource (st : State) (locked : Bool) : Ia32.Reg :=
  Ia32.Reg.ofField (Ia32.regField (operandCode st.codeAt locked 0))

/-- Length of the instruction. -/
def State.isaLength (st : State) (locked : Bool) : Nat :=
  lockLength locked + 2 + (st.isaOperand locked).2

/-- The ModRM forms that the emulator decodes as the instruction set does. -/
def RefinedForm (modrm : Byte) (locked : Bool) : Prop :=
  (Ia32.modField modrm = 3 ∧ locked = false) ∨
    (Ia32.modField modrm = 2 ∧ Ia32.rmField modrm ≠ 4) ∨
    (Ia32.modField modrm = 0 ∧ Ia32.rmField modrm = 5)

instance (modrm : Byte) (locked : Bool) : Decidable (RefinedForm modrm locked) :=
  inferInstanceAs (Decidable (_ ∨ _))

/-- A register pointer for a register, a computed address for a word of memory. -/
def Operand.Matches (operand : Operand) : Ia32.Dest → Prop
  | .reg register => operand.dest = .slot (Slot.ofReg register) ∧ operand.inMemory = false
  | .mem address => operand.dest = .user address ∧ operand.inMemory = true

theorem decodeOperand_of_refinedForm {st : State} {code : Nat → Byte} {locked : Bool}
    (form : RefinedForm (code 0) locked) :
    ∃ operand, decodeOperand st.regs code = some operand ∧
      operand.Matches (Ia32.modrmOperand st.arch.gpr code).1 ∧
      operand.length = (Ia32.modrmOperand st.arch.gpr code).2 := by
  simp only [decodeOperand, Ia32.modrmOperand]
  rcases form with ⟨mod_eq, -⟩ | ⟨mod_eq, rm_ne⟩ | ⟨mod_eq, rm_eq⟩
  · rw [if_pos mod_eq, if_pos mod_eq]
    exact ⟨_, rfl, ⟨rfl, rfl⟩, rfl⟩
  · simp only [mod_eq, if_neg rm_ne]
    exact ⟨_, rfl, ⟨rfl, rfl⟩, rfl⟩
  · simp only [mod_eq, rm_eq]
    exact ⟨_, rfl, ⟨rfl, rfl⟩, rfl⟩

/-- The segment members of the frame and the page permissions. -/
structure SameSystem (before after : State) : Prop where
  slots : ∀ member : Slot, ¬member.IsGeneral → member ≠ .ip → member ≠ .flags →
    after.regs.get member = before.regs.get member
  present : after.mem.present = before.mem.present
  writable : after.mem.writable = before.mem.writable

/-- An instruction at the saved instruction pointer, with both fetch windows mapped. -/
structure InstructionAt (ctx : TrapContext) (st : State) (locked : Bool) (op : Ia32.AtomicOp) :
    Prop where
  encodes : Encodes st.codeAt locked op.opcode
  first : Readable ctx st.mem st.regs.ip
  second : Readable ctx st.mem (st.regs.ip + 4)

section Call

variable {ctx : TrapContext} {st : State} {locked : Bool} {op : Ia32.AtomicOp}

theorem State.disp32_codeAt_zero (st : State) :
    Ia32.disp32 st.codeAt 0 = st.mem.load st.regs.ip := by
  simp only [Memory.load, Ia32.disp32, State.codeAt]
  rw [BitVec.add_zero]
  rfl

theorem State.disp32_codeAt_four (st : State) :
    Ia32.disp32 st.codeAt 4 = st.mem.load (st.regs.ip + 4) := by
  simp only [Memory.load, Ia32.disp32, State.codeAt]
  rw [BitVec.add_assoc, BitVec.add_assoc, BitVec.add_assoc]
  rfl

theorem fetches_of_readable (first : Readable ctx st.mem st.regs.ip)
    (second : Readable ctx st.mem (st.regs.ip + 4)) : Fetches ctx st st.codeAt := by
  refine ⟨?_, ?_⟩
  · rw [getUser_of_readable st first, st.disp32_codeAt_zero]
  · rw [getUser_of_readable st second, st.disp32_codeAt_four]

theorem denotes_of_matches {operand : Operand} {dest : Ia32.Dest}
    (matches_dest : operand.Matches dest)
    (readWrite : ∀ address, dest = .mem address → ReadWrite ctx st.mem address) :
    operand.Denotes ctx dest ∧ Accessible st.mem dest ∧
      (operand.inMemory = true → accessOk ctx (operand.dest.address ctx) 4 = true) := by
  cases dest with
  | reg register =>
      rcases matches_dest with ⟨dest_eq, notInMemory⟩
      refine ⟨.register register dest_eq notInMemory, trivial, ?_⟩
      rw [notInMemory]
      simp
  | mem address =>
      rcases matches_dest with ⟨dest_eq, inMemory⟩
      have mapped := readWrite address rfl
      refine ⟨.memory address dest_eq inMemory mapped.add_four_le mapped.outside, ?_, ?_⟩
      · intro other inside
        exact ⟨mapped.present other inside, mapped.writable other inside⟩
      · intro _
        rw [dest_eq, Ptr.address, accessOk_iff]
        exact mapped.add_four_le

/-- A refined form reaches its handler with the operands of the instruction set. -/
theorem parseEmuInstruction_of_refinedForm (instruction : InstructionAt ctx st locked op)
    (form : RefinedForm (operandCode st.codeAt locked 0) locked)
    (readWrite : ∀ address, (st.isaOperand locked).1 = .mem address →
      ReadWrite ctx st.mem address) :
    ∃ pstate operand, Decoded pstate (Slot.ofReg (st.isaSource locked)) operand ∧
      operand.Denotes ctx (st.isaOperand locked).1 ∧
      Accessible st.mem (st.isaOperand locked).1 ∧
      operand.length = (st.isaOperand locked).2 ∧
      parseEmuInstruction ctx st =
        operate ctx op pstate (st.begun ctx (lockLength locked + 2) operand) := by
  rcases decodeOperand_of_refinedForm form with ⟨operand, decodes, matches_isa, length_eq⟩
  rcases denotes_of_matches matches_isa readWrite with ⟨denotes, accessible, inRange⟩
  have fetches := fetches_of_readable instruction.first instruction.second
  rcases parseEmuInstruction_operated fetches instruction.encodes decodes inRange
    with ⟨pstate, decoded, run⟩
  exact ⟨pstate, operand, decoded, denotes, accessible, length_eq, run⟩

theorem sameSystem_of_operated (op : Ia32.AtomicOp) {pstate : ParserState} {operand : Operand}
    {dest : Ia32.Dest} {src : Slot} (decoded : Decoded pstate src operand) (general : src.IsGeneral)
    (denotes : operand.Denotes ctx dest) {skip : Nat} {ret : Int} {final : State}
    (run : operate ctx op pstate (st.begun ctx skip operand) = .ok ret final) :
    SameSystem st final := by
  have operated := within_operate op (Confined.permitted denotes) decoded general
    (st.begun ctx skip operand)
  rw [run] at operated
  have confined := (confined_begun denotes skip).trans operated
  exact ⟨confined.slots, confined.present, confined.writable⟩

/-- `XADD` is emulated exactly. -/
theorem parseEmuInstruction_xadd_refines (ctx : TrapContext) (st : State) (locked : Bool)
    (instruction : InstructionAt ctx st locked .xadd)
    (form : RefinedForm (operandCode st.codeAt locked 0) locked)
    (readWrite : ∀ address, (st.isaOperand locked).1 = .mem address →
      ReadWrite ctx st.mem address) :
    ∃ final, parseEmuInstruction ctx st = .ok 1 final ∧ SameSystem st final ∧
      final.arch = Ia32.AtomicOp.xadd.exec st.arch (st.isaOperand locked).1
        (st.isaSource locked) (st.isaLength locked) := by
  rcases parseEmuInstruction_of_refinedForm instruction form readWrite
    with ⟨pstate, operand, decoded, denotes, accessible, length_eq, run⟩
  rcases operateXadd_refines decoded denotes (accessible.begun _ _) with ⟨final, operated, arch_eq⟩
  refine ⟨final, run.trans operated, ?_, ?_⟩
  · exact sameSystem_of_operated .xadd decoded (Slot.isGeneral_ofReg _) denotes operated
  · rw [arch_eq, State.arch_begun, length_eq, Ia32.AtomicOp.exec_eq]
    rfl

theorem lockXadd_instructionAt :
    InstructionAt sampleContext (sampleState lockXaddCode fun _ => true) true .xadd :=
  { encodes := ⟨by decide, by decide, by decide⟩
    first := sampleState_readable _ _ (by decide)
    second := sampleState_readable _ _ (by decide) }

theorem sampleState_readWrite (code : List Byte) {address : Word}
    (below : address.toNat + 4 ≤ sampleContext.addrLimit.toNat) :
    ReadWrite sampleContext (sampleState code fun _ => true).mem address :=
  { sampleState_readable code (fun _ => true) below with writable := fun _ _ => rfl }

theorem parseEmuInstruction_xadd_refines_lockXadd :
    ∃ final, parseEmuInstruction sampleContext (sampleState lockXaddCode fun _ => true) =
        .ok 1 final ∧ SameSystem (sampleState lockXaddCode fun _ => true) final ∧
      final.arch = Ia32.AtomicOp.xadd.exec (sampleState lockXaddCode fun _ => true).arch
        (.mem 0x0804a000) .eax 8 :=
  parseEmuInstruction_xadd_refines sampleContext (sampleState lockXaddCode fun _ => true) true
    lockXadd_instructionAt (by decide) (by
      rintro address ⟨⟩
      exact sampleState_readWrite _ (by decide))

/-- `CMPXCHG` is emulated up to the arithmetic flags other than the zero flag. -/
theorem parseEmuInstruction_cmpxchg_refines (ctx : TrapContext) (st : State) (locked : Bool)
    (instruction : InstructionAt ctx st locked .cmpxchg)
    (form : RefinedForm (operandCode st.codeAt locked 0) locked)
    (readWrite : ∀ address, (st.isaOperand locked).1 = .mem address →
      ReadWrite ctx st.mem address) :
    ∃ final, parseEmuInstruction ctx st = .ok 1 final ∧ SameSystem st final ∧
      final.arch.EqExceptFlags (Ia32.arithFlags &&& ~~~Ia32.zf)
        (Ia32.AtomicOp.cmpxchg.exec st.arch (st.isaOperand locked).1
          (st.isaSource locked) (st.isaLength locked)) := by
  rcases parseEmuInstruction_of_refinedForm instruction form readWrite
    with ⟨pstate, operand, decoded, denotes, accessible, length_eq, run⟩
  rcases operateCmpxchg_refines decoded denotes (accessible.begun _ _)
    with ⟨final, operated, arch_eq⟩
  refine ⟨final, run.trans operated, ?_, ?_⟩
  · exact sameSystem_of_operated .cmpxchg decoded (Slot.isGeneral_ofReg _) denotes operated
  · rw [State.arch_begun, length_eq] at arch_eq
    rw [Ia32.AtomicOp.exec_eq]
    exact arch_eq

/-- `cmpxchg %ecx, 0x80(%edx)` with a four-byte displacement. -/
def cmpxchgCode : List Byte := [0x0f, 0xb1, 0x8a, 0x80, 0x00, 0x00, 0x00]

theorem parseEmuInstruction_cmpxchg_refines_disp32 :
    ∃ final, parseEmuInstruction sampleContext (sampleState cmpxchgCode fun _ => true) =
        .ok 1 final ∧ SameSystem (sampleState cmpxchgCode fun _ => true) final ∧
      final.arch.EqExceptFlags (Ia32.arithFlags &&& ~~~Ia32.zf)
        (Ia32.AtomicOp.cmpxchg.exec (sampleState cmpxchgCode fun _ => true).arch
          (.mem 0x0804a080) .ecx 7) :=
  parseEmuInstruction_cmpxchg_refines sampleContext (sampleState cmpxchgCode fun _ => true) false
    { encodes := ⟨by decide, by decide, by decide⟩
      first := sampleState_readable _ _ (by decide)
      second := sampleState_readable _ _ (by decide) }
    (by decide) (by
      rintro address ⟨⟩
      exact sampleState_readWrite _ (by decide))

end Call

end Gray386.Emu
