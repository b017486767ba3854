import Gray386.Emu.Refinement

/-!
# Where the emulator departs from the instruction set

Outside the forms and the memories of the refinement theorems the emulator does
something else than the processor it stands for. This file says what, and on
exactly which inputs.

* With `mod = 0` and a base register, `inst_dest` is left pointing at the saved
  register instead of the word it holds the address of. The range check catches
  the kernel pointer and the instruction is refused.
* With `mod = 1` the displacement byte is added without sign extension.
-/

namespace Gray386.Emu

open Gray386.Machine

/-- `mod = 0` with a base register and no displacement. -/
def RegisterIndirect (modrm : Byte) : Prop :=
  Ia32.modField modrm = 0 ∧ Ia32.rmField modrm ≠ 4 ∧ Ia32.rmField modrm ≠ 5

instance (modrm : Byte) : Decidable (RegisterIndirect modrm) :=
  inferInstanceAs (Decidable (_ ∧ _))

/-- The call succeeds and leaves memory as the instruction does. -/
def Performed (ctx : TrapContext) (st : State) (locked : Bool) (op : Ia32.AtomicOp) : Prop :=
  ∃ final, parseEmuInstruction ctx st = .ok 1 final ∧
    final.arch.mem = (op.exec st.arch (st.isaOperand locked).1 (st.isaSource locked)
      (st.isaLength locked)).mem

theorem State.mem_load_of_load {ctx : TrapContext} {st : State} {address value : Word}
    (outside : OutsideFrame ctx address) (loaded : st.load ctx address = some value) :
    value = st.mem.load address := by
  by_cases present : ∀ other, InWord address other → st.mem.present (page other) = true
  · rw [State.load_of_present outside present, Option.some.injEq] at loaded
    exact loaded.symm
  · push Not at present
    rcases present with ⟨other, inside, absent⟩
    rw [State.load_of_absent outside inside (by simpa using absent)] at loaded
    exact absurd loaded (by simp)

/-- A call that has failed has not succeeded. -/
theorem not_pos_of_failed {result : EStateM.Result Oops State Int} {failed ret : Int}
    {refused final : State} (fails : result = .ok failed refused) (negative : failed < 0)
    (run : result = .ok ret final) : ¬0 < ret := by
  rw [fails] at run
  injection run with ret_eq
  omega

section Indirect

variable {ctx : TrapContext} {st : State} {locked : Bool} {op : Ia32.AtomicOp}

/-- In a trap from user mode the fetch fails or yields the bytes of the instruction. -/
theorem fetches_or_fault (fromUser : ctx.FromUser) :
    parseEmuInstruction ctx st = .ok (-enomem) st ∨ Fetches ctx st st.codeAt := by
  rcases getUser_cases ctx st.regs.ip st with fault | ⟨insts, below, loaded, first⟩
  · exact Or.inl (parseEmuInstruction_of_first_fault fault)
  rcases getUser_cases ctx (st.regs.ip + 4) st with fault | ⟨insts2, below2, loaded2, second⟩
  · exact Or.inl (parseEmuInstruction_of_second_fault first fault)
  rw [State.mem_load_of_load (outsideFrame_of_fromUser fromUser below) loaded,
    ← st.disp32_codeAt_zero] at first
  rw [State.mem_load_of_load (outsideFrame_of_fromUser fromUser below2) loaded2,
    ← st.disp32_codeAt_four] at second
  exact Or.inr ⟨first, second⟩

theorem decodeOperand_of_registerIndirect {regs : PtRegs} {code : Nat → Byte}
    (form : RegisterIndirect (code 0)) :
    decodeOperand regs code = some ⟨.slot (fieldSlot (Ia32.rmField (code 0))), true, 1⟩ := by
  rcases form with ⟨mod_eq, notSib, notAbsolute⟩
  simp only [decodeOperand, mod_eq, if_neg notSib, if_neg notAbsolute]
  rfl

theorem registerIndirect_refused (fromUser : ctx.FromUser)
    (encodes : Encodes st.codeAt locked op.opcode)
    (form : RegisterIndirect (operandCode st.codeAt locked 0)) :
    ∃ final, parseEmuInstruction ctx st = .ok (-enomem) final ∧
      final.regs = st.regs ∧ final.mem = st.mem := by
  rcases @fetches_or_fault ctx st fromUser with fault | fetches
  · exact ⟨st, fault, rfl, rfl⟩
  · rw [parseEmuInstruction_out_of_range fetches encodes
      (decodeOperand_of_registerIndirect form) rfl (slot_accessOk_of_fromUser fromUser _)]
    exact ⟨_, rfl, rfl, rfl⟩

/-- No register-indirect instruction is ever performed, however good its operand is. -/
theorem registerIndirect_not_performed (ctx : TrapContext) (fromUser : ctx.FromUser) (st : State)
    (locked : Bool) (op : Ia32.AtomicOp) (encodes : Encodes st.codeAt locked op.opcode)
    (form : RegisterIndirect (operandCode st.codeAt locked 0)) : ¬Performed ctx st locked op := by
  rintro ⟨final, performed, -⟩
  rcases registerIndirect_refused fromUser encodes form with ⟨refused, run, -, -⟩
  rw [run] at performed
  injection performed with ret_eq
  exact absurd ret_eq (by decide)

/-- `xadd %eax, (%edx)`. -/
def xaddIndirectCode : List Byte := [0x0f, 0xc1, 0x02]

theorem registerIndirect_not_performed_xadd :
    ¬Performed sampleContext (sampleState xaddIndirectCode fun _ => true) false .xadd :=
  registerIndirect_not_performed sampleContext (by decide) _ false .xadd
    ⟨by decide, by decide, by decide⟩ (by decide)

/-- The register holds the address of a writable word, and the call returns `-ENOMEM`. -/
theorem xaddIndirect_refused :
    ((sampleState xaddIndirectCode fun _ => true).isaOperand false).1 = .mem 0x0804a000 ∧
      ReadWrite sampleContext (sampleState xaddIndirectCode fun _ => true).mem 0x0804a000 ∧
      returned (parseEmuInstruction sampleContext (sampleState xaddIndirectCode fun _ => true)) =
        some (-enomem) ∧
      ¬Performed sampleContext (sampleState xaddIndirectCode fun _ => true) false .xadd := by
  have refused : returned (parseEmuInstruction sampleContext
      (sampleState xaddIndirectCode fun _ => true)) = some (-enomem) := by
    decide
  refine ⟨by decide, sampleState_readWrite _ (by decide), refused, ?_⟩
  rintro ⟨final, performed, -⟩
  rw [performed] at refused
  exact absurd refused (by simp [returned, enomem])

end Indirect

/-- `mod = 1` without a SIB byte. -/
def ByteDisplacement (modrm : Byte) : Prop :=
  Ia32.modField modrm = 1 ∧ Ia32.rmField modrm ≠ 4

instance (modrm : Byte) : Decidable (ByteDisplacement modrm) :=
  inferInstanceAs (Decidable (_ ∧ _))

/-- The call checks, reads and writes the operand of the instruction set, and nothing else. -/
def AccessesOperand (ctx : TrapContext) (st : State) (locked : Bool) : Prop :=
  ∃ accesses, (finalState (parseEmuInstruction ctx st)).bus = st.bus ++ accesses ∧
    accesses ≠ [] ∧ ∀ access ∈ accesses, (st.isaOperand locked).1 = .mem access.address

/-- The log has grown by accesses to one word. -/
def LogsOnly (address : Word) (before after : State) : Prop :=
  ∃ accesses, after.bus = before.bus ++ accesses ∧
    ∀ access ∈ accesses, access.address = address

namespace LogsOnly

variable {address : Word}

theorem of_bus_eq {before after : State} (bus_eq : after.bus = before.bus) :
    LogsOnly address before after :=
  ⟨[], by rw [bus_eq, List.append_nil], by simp⟩

theorem logged (st : State) {access : BusAccess} (here : access.address = address) :
    LogsOnly address st (st.log access) := by
  refine ⟨[access], rfl, ?_⟩
  intro other other_mem
  rw [List.mem_singleton] at other_mem
  exact other_mem ▸ here

theorem trans {first second third : State} (left : LogsOnly address first second)
    (right : LogsOnly address second third) : LogsOnly address first third := by
  rcases left with ⟨accesses, bus_eq, here⟩
  rcases right with ⟨later, bus_eq', there⟩
  refine ⟨accesses ++ later, by rw [bus_eq', bus_eq, List.append_assoc], ?_⟩
  intro access access_mem
  rcases List.mem_append.mp access_mem with access_mem | access_mem
  · exact here access access_mem
  · exact there access access_mem

instance : IsPreorder State (LogsOnly address) where
  refl _ := of_bus_eq rfl
  trans _ _ _ := trans

theorem permitted (ctx : TrapContext) (operand : Operand) :
    Permitted (LogsOnly (operand.dest.address ctx)) ctx operand where
  record _ access here := by
    intro st
    exact logged st here
  flags f _ := by
    intro st
    exact of_bus_eq rfl
  register member _ value := by
    intro st
    exact of_bus_eq rfl
  store value := by
    intro st
    apply of_bus_eq
    cases operand.dest with
    | slot member => rfl
    | user address =>
        simp only [assign, State.store]
        split_ifs
        · exact State.bus_writeBytes ctx st address _
        · rfl
  put _ value := by
    intro st
    rcases putUser_eq_take ctx value (operand.dest.address ctx) st with ⟨ret, count, copied⟩
    rw [copied]
    exact of_bus_eq (State.bus_writeBytes ctx st _ _)

end LogsOnly

section Displacement

variable {ctx : TrapContext} {st : State} {locked : Bool} {op : Ia32.AtomicOp}

theorem accesses_operand {code : Nat → Byte} (fetches : Fetches ctx st code)
    (encodes : Encodes code locked op.opcode) {operand : Operand}
    (decodes : decodeOperand st.regs (operandCode code locked) = some operand)
    (inMemory : operand.inMemory = true) :
    ∃ accesses, (finalState (parseEmuInstruction ctx st)).bus =
        st.bus ++ .check (operand.dest.address ctx) :: accesses ∧
      ∀ access ∈ accesses, access.address = operand.dest.address ctx := by
  cases checked : accessOk ctx (operand.dest.address ctx) 4 with
  | false =>
      rw [parseEmuInstruction_out_of_range fetches encodes decodes inMemory checked]
      exact ⟨[], rfl, by simp⟩
  | true =>
      rcases parseEmuInstruction_operated fetches encodes decodes (fun _ => checked)
        with ⟨pstate, decoded, run⟩
      have operated := within_operate op (LogsOnly.permitted ctx operand) decoded
        (Slot.isGeneral_ofReg _) (st.begun ctx (lockLength locked + 2) operand)
      rcases operated with ⟨accesses, bus_eq, here⟩
      refine ⟨accesses, ?_, here⟩
      rw [run, bus_eq]
      simp only [State.begun, inMemory, if_true, State.log, State.bus_advance, List.append_assoc]
      rfl

/-- Adding the byte without sign extension is right for half of the bytes. -/
theorem setWidth_eq_signExtend_iff (displacement : Byte) :
    displacement.setWidth 32 = displacement.signExtend 32 ↔ displacement.toNat < 0x80 := by
  revert displacement
  decide

theorem decodeOperand_of_byteDisplacement {regs : PtRegs} {code : Nat → Byte}
    (form : ByteDisplacement (code 0)) :
    decodeOperand regs code = some
      ⟨.user (regs.get (fieldSlot (Ia32.rmField (code 0))) + (code 1).setWidth 32), true, 2⟩ := by
  rcases form with ⟨mod_eq, notSib⟩
  simp only [decodeOperand, mod_eq, if_neg notSib]
  rfl

/-- The operand is the right one exactly if the displacement is not negative. -/
theorem byteDisplacement_iff (ctx : TrapContext) (st : State) (locked : Bool)
    (op : Ia32.AtomicOp) (instruction : InstructionAt ctx st locked op)
    (form : ByteDisplacement (operandCode st.codeAt locked 0)) :
    AccessesOperand ctx st locked ↔ (operandCode st.codeAt locked 1).toNat < 0x80 := by
  have isa_eq : (st.isaOperand locked).1 =
      .mem (st.regs.get (fieldSlot (Ia32.rmField (operandCode st.codeAt locked 0))) +
        (operandCode st.codeAt locked 1).signExtend 32) := by
    rcases form with ⟨mod_eq, notSib⟩
    simp only [State.isaOperand, Ia32.modrmOperand, mod_eq, if_neg notSib]
    rfl
  rcases accesses_operand (fetches_of_readable instruction.first instruction.second)
    instruction.encodes (decodeOperand_of_byteDisplacement form) rfl with ⟨accesses, bus_eq, here⟩
  rw [← setWidth_eq_signExtend_iff, ← BitVec.add_right_inj
    (st.regs.get (fieldSlot (Ia32.rmField (operandCode st.codeAt locked 0))))]
  constructor
  · rintro ⟨accesses', bus_eq', -, isa⟩
    rw [bus_eq] at bus_eq'
    have checked := isa _ (List.append_cancel_left bus_eq' ▸ List.mem_cons_self)
    rw [isa_eq] at checked
    injection checked with address_eq
    exact address_eq.symm
  · intro same
    refine ⟨_, bus_eq, by simp, ?_⟩
    intro access access_mem
    rw [isa_eq, ← same]
    rcases List.mem_cons.mp access_mem with rfl | access_mem
    · rfl
    · rw [here access access_mem]
      rfl

/-- `xadd %eax, 8(%edx)`. -/
def xaddDisp8Code : List Byte := [0x0f, 0xc1, 0x42, 0x08]

theorem byteDisplacement_iff_xadd :
    AccessesOperand sampleContext (sampleState xaddDisp8Code fun _ => true) false ↔
      (0x08 : Byte).toNat < 0x80 :=
  byteDisplacement_iff sampleContext (sampleState xaddDisp8Code fun _ => true) false .xadd
    { encodes := ⟨by decide, by decide, by decide⟩
      first := sampleState_readable _ _ (by decide)
      second := sampleState_readable _ _ (by decide) }
    (by decide)

/-- `xadd %eax, -4(%edx)`. -/
def xaddNegativeDisp8Code : List Byte := [0x0f, 0xc1, 0x42, 0xfc]

/-- The word 256 bytes further up is exchanged, and the call reports success. -/
theorem xaddNegativeDisp8_wrong_word :
    ((sampleState xaddNegativeDisp8Code fun _ => true).isaOperand false).1 = .mem 0x08049ffc ∧
      (finalState (parseEmuInstruction sampleContext
        (sampleState xaddNegativeDisp8Code fun _ => true))).bus =
          [.check 0x0804a0fc, .read 0x0804a0fc, .read 0x0804a0fc, .write 0x0804a0fc] ∧
      returned (parseEmuInstruction sampleContext
        (sampleState xaddNegativeDisp8Code fun _ => true)) = some 1 ∧
      ¬AccessesOperand sampleContext (sampleState xaddNegativeDisp8Code fun _ => true) false := by
  have accessed : (finalState (parseEmuInstruction sampleContext
      (sampleState xaddNegativeDisp8Code fun _ => true))).bus =
        [.check 0x0804a0fc, .read 0x0804a0fc, .read 0x0804a0fc, .write 0x0804a0fc] := by
    decide
  refine ⟨by decide, accessed, by decide, ?_⟩
  rintro ⟨accesses, bus_eq, -, isa⟩
  rw [accessed] at bus_eq
  have accesses_eq : accesses =
      [.check 0x0804a0fc, .read 0x0804a0fc, .read 0x0804a0fc, .write 0x0804a0fc] := bus_eq.symm
  have checked := isa (.check 0x0804a0fc) (by rw [accesses_eq]; exact List.mem_cons_self)
  exact absurd checked (by decide)

end Displacement

end Gray386.Emu
