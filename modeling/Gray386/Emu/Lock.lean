import Gray386.Emu.Coupling

/-!
# The lock prefix

A prefix moves every later byte of the instruction by one, across the boundary
between the two fetch words. The decoder has separate branches for both layouts.
This file shows that they agree: an instruction and the same instruction behind
`F0` have the same outcome, the same accesses and the same effect, except that the
instruction pointer ends up one byte further.

The two calls run on different memories, since the instruction bytes differ. They
are compared by `Shifted`, which relates the registers and the bytes and
permissions of the operand word. Every statement of the handlers maintains it, on
failing paths too.

While a handler runs, the two saved instruction pointers differ. An operand must
therefore not be that member of the frame. No word of user memory is, and no saved
general register.
-/

namespace Gray386.Emu

open Gray386.Machine

/-- Two states that agree on all an operation looks at, one byte of code apart. -/
structure Shifted (word : Word → Prop) (plain locked : State) : Prop where
  regs : locked.regs = plain.regs.set .ip (plain.regs.ip + 1)
  bus : locked.bus = plain.bus
  words : ∀ address, word address → SameWord plain.mem locked.mem address

/-- No byte of the word belongs to the saved instruction pointer. -/
def ClearOfIp (ctx : TrapContext) (address : Word) : Prop :=
  ∀ other, InWord address other → ctx.InFrame other →
    Slot.ofIndex ((other.toNat - ctx.regsAddr.toNat) / 4) ≠ .ip

theorem clearOfIp_of_outsideFrame {ctx : TrapContext} {address : Word}
    (outside : OutsideFrame ctx address) : ClearOfIp ctx address := by
  intro other inside inFrame
  exact absurd inFrame (outside other inside)

theorem clearOfIp_slot (ctx : TrapContext) {member : Slot} (ne : member ≠ .ip) :
    ClearOfIp ctx ((Ptr.slot member).address ctx) := by
  intro other inside _
  rcases (inWord_iff_exists_offset _ _).mp inside with ⟨offset, offset_lt, rfl⟩
  have fits := ctx.frame_fits
  have index_lt := member.index_lt
  have position : (((Ptr.slot member).address ctx + BitVec.ofNat 32 offset).toNat -
      ctx.regsAddr.toNat) / 4 = member.index := by
    simp only [PtRegs.size] at fits
    simp only [Ptr.address, BitVec.toNat_add, BitVec.toNat_ofNat]
    omega
  rw [position, Slot.ofIndex_index]
  exact ne

namespace Shifted

variable {ctx : TrapContext} {word : Word → Prop} {plain locked : State}

theorem get (states : Shifted word plain locked) {member : Slot} (ne : member ≠ .ip) :
    locked.regs.get member = plain.regs.get member := by
  rw [states.regs]
  exact PtRegs.get_set_of_ne plain.regs ne _

theorem set (states : Shifted word plain locked) {member : Slot} (ne : member ≠ .ip)
    (value : Word) :
    Shifted word { plain with regs := plain.regs.set member value }
      { locked with regs := locked.regs.set member value } := by
  have ip_eq : (plain.regs.set member value).ip = plain.regs.ip :=
    PtRegs.get_set_of_ne plain.regs ne.symm value
  refine ⟨?_, states.bus, states.words⟩
  simp only [states.regs, ip_eq]
  apply PtRegs.eq_of_get_eq
  intro other
  simp only [PtRegs.get_set]
  by_cases here : other = member
  · rw [if_pos here, if_neg (fun ip => ne (here.symm.trans ip)), if_pos here]
  · rw [if_neg here, if_neg here]

theorem log (states : Shifted word plain locked) (access : BusAccess) :
    Shifted word (plain.log access) (locked.log access) := by
  refine ⟨states.regs, ?_, states.words⟩
  simp only [State.log, states.bus]

theorem readByte (states : Shifted word plain locked) {address other : Word}
    (here : word address) (clear : ClearOfIp ctx address) (inside : InWord address other) :
    locked.readByte ctx other = plain.readByte ctx other := by
  have agrees := states.words address here
  by_cases inFrame : ctx.InFrame other
  · rw [State.readByte, State.readByte, if_pos inFrame, if_pos inFrame, PtRegs.byteAt,
      PtRegs.byteAt, states.get (clear other inside inFrame)]
  · rw [State.readByte_of_not_inFrame inFrame, State.readByte_of_not_inFrame inFrame,
      agrees.bytes other inside, agrees.present other inside]

theorem writeByte (states : Shifted word plain locked) {address target : Word}
    (clear : ClearOfIp ctx address) (inside : InWord address target) (value : Byte) :
    Shifted word (plain.writeByte ctx target value) (locked.writeByte ctx target value) := by
  by_cases inFrame : ctx.InFrame target
  · have ne := clear target inside inFrame
    rw [State.writeByte, State.writeByte, if_pos inFrame, if_pos inFrame]
    simp only [PtRegs.setByte, states.get ne]
    exact states.set ne _
  · rw [State.writeByte_of_not_inFrame inFrame, State.writeByte_of_not_inFrame inFrame]
    refine ⟨states.regs, states.bus, ?_⟩
    intro other here
    exact (states.words other here).setByte target value

theorem sharesFrame : SharesFrame (Shifted word) where
  get states _ ne := states.get ne
  set states _ ne value := states.set ne value
  log states access := states.log access

theorem sharesWord {address : Word} (here : word address) (clear : ClearOfIp ctx address) :
    SharesWord ctx (Shifted word) address where
  readByte states _ inside := states.readByte here clear inside
  storable states _ inside := (states.words address here).storable ctx inside
  userWritable states _ inside := (states.words address here).userWritable inside
  writeByte states _ inside value := states.writeByte clear inside value

end Shifted

/-- An operand that the handlers access in the same way with and without a prefix. -/
structure Operand.Apart (ctx : TrapContext) (operand : Operand) : Prop where
  pointer : (∃ register, operand.dest = .slot (Slot.ofReg register)) ∨
    ∃ address, operand.dest = .user address ∧ operand.inMemory = true
  clear : ClearOfIp ctx (operand.dest.address ctx)

theorem Operand.Apart.shared {ctx : TrapContext} {operand : Operand} (apart : operand.Apart ctx) :
    operand.Shared ctx (Shifted (operand.word ctx)) where
  frame := Shifted.sharesFrame
  pointer := apart.pointer
  word inMemory := Shifted.sharesWord ⟨inMemory, rfl⟩ apart.clear

/-- Nothing of memory but some words has changed. -/
structure UnchangedOutside (word : Word → Prop) (before after : State) : Prop where
  bytes : ∀ other, (∀ address, word address → ¬InWord address other) →
    after.mem.byteAt other = before.mem.byteAt other
  present : after.mem.present = before.mem.present
  writable : after.mem.writable = before.mem.writable

namespace UnchangedOutside

variable {word : Word → Prop}

theorem of_mem_eq {before after : State} (mem_eq : after.mem = before.mem) :
    UnchangedOutside word before after := by
  refine ⟨?_, by rw [mem_eq], by rw [mem_eq]⟩
  intro other _
  rw [mem_eq]

theorem trans {first second third : State} (left : UnchangedOutside word first second)
    (right : UnchangedOutside word second third) : UnchangedOutside word first third := by
  refine ⟨?_, right.present.trans left.present, right.writable.trans left.writable⟩
  intro other outside
  rw [right.bytes other outside, left.bytes other outside]

instance : IsPreorder State (UnchangedOutside word) where
  refl _ := of_mem_eq rfl
  trans _ _ _ := trans

theorem written (ctx : TrapContext) (st : State) {address : Word} {bytes : List Byte}
    (here : word address) (short : bytes.length ≤ 4) :
    UnchangedOutside word st (st.writeBytes ctx address bytes) := by
  rcases State.mem_perms_writeBytes ctx st address bytes with ⟨present_eq, writable_eq⟩
  refine ⟨?_, present_eq, writable_eq⟩
  intro other elsewhere
  apply State.byteAt_writeBytes_of_ne
  rintro offset offset_lt rfl
  exact elsewhere address here ((inWord_iff_exists_offset _ _).mpr ⟨offset, by omega, rfl⟩)

/-- The statements of a handler change no other word than that of its operand. -/
theorem permitted {ctx : TrapContext} {operand : Operand} (apart : operand.Apart ctx) :
    Permitted (UnchangedOutside (operand.word ctx)) ctx operand where
  record _ access _ := by
    intro st
    exact of_mem_eq rfl
  flags f _ := by
    intro st
    exact of_mem_eq rfl
  register member _ value := by
    intro st
    exact of_mem_eq rfl
  store value := by
    intro st
    rcases apart.pointer with ⟨register, dest_eq⟩ | ⟨address, dest_eq, inMemory⟩
    · rw [dest_eq]
      exact of_mem_eq rfl
    · have here : operand.word ctx address := ⟨inMemory, by rw [dest_eq, Ptr.address]⟩
      rw [dest_eq]
      simp only [assign, State.store]
      split_ifs
      · exact written ctx st here (by simp)
      · exact of_mem_eq rfl
  put inMemory value := by
    intro st
    rcases putUser_eq_take ctx value (operand.dest.address ctx) st with ⟨ret, count, copied⟩
    rw [copied]
    apply written ctx st ⟨inMemory, rfl⟩
    rw [List.length_take]
    exact Nat.min_le_right _ _

end UnchangedOutside

/-- Both calls have had the same effect, with their instruction pointers `shift` apart. -/
structure SameEffect (word : Word → Prop) (shift : Word)
    (plain locked plainAfter lockedAfter : State) : Prop where
  regs : lockedAfter.regs = plainAfter.regs.set .ip (plainAfter.regs.ip + shift)
  bus : lockedAfter.bus = plainAfter.bus
  words : ∀ address, word address → SameWord plainAfter.mem lockedAfter.mem address
  plainRest : UnchangedOutside word plain plainAfter
  lockedRest : UnchangedOutside word locked lockedAfter

/--
The outcomes of two calls that differ in a lock prefix only. The log is part of the
effect, so that both calls have accessed the same operand.
-/
inductive LockInvariant (word : Word → Prop) (plain locked : State) :
    EStateM.Result Oops State Int → EStateM.Result Oops State Int → Prop where
  | refused {ret : Int} {plainAfter lockedAfter : State} (negative : ret < 0)
      (effect : SameEffect (fun _ => False) 0 plain locked plainAfter lockedAfter) :
      LockInvariant word plain locked (.ok ret plainAfter) (.ok ret lockedAfter)
  | emulated {plainAfter lockedAfter : State}
      (effect : SameEffect word 1 plain locked plainAfter lockedAfter) :
      LockInvariant word plain locked (.ok 1 plainAfter) (.ok 1 lockedAfter)
  | oopsed {stop : Oops} {plainAfter lockedAfter : State}
      (effect : SameEffect word 1 plain locked plainAfter lockedAfter) :
      LockInvariant word plain locked (.error stop plainAfter) (.error stop lockedAfter)

/-- The word in memory, if any, that the emulator takes for the operand. -/
def State.decodedWord (ctx : TrapContext) (st : State) (locked : Bool) (address : Word) : Prop :=
  ∃ operand, decodeOperand st.regs (operandCode st.codeAt locked) = some operand ∧
    operand.word ctx address

theorem State.decodedWord_eq {ctx : TrapContext} {st : State} {locked : Bool} {operand : Operand}
    (decodes : decodeOperand st.regs (operandCode st.codeAt locked) = some operand) :
    st.decodedWord ctx locked = operand.word ctx := by
  funext address
  apply propext
  constructor
  · rintro ⟨other, decodes', here⟩
    rw [decodes] at decodes'
    injection decodes' with operand_eq
    exact operand_eq ▸ here
  · intro here
    exact ⟨operand, decodes, here⟩

section Call

variable {ctx : TrapContext} {op : Ia32.AtomicOp} {plain locked : State}

theorem lockInvariant_of_refused {word : Word → Prop} {ret : Int} {access : List BusAccess}
    (negative : ret < 0) (sameRegs : locked.regs = plain.regs)
    (sameBus : locked.bus = plain.bus) :
    LockInvariant word plain locked (.ok ret { plain with bus := plain.bus ++ access })
      (.ok ret { locked with bus := locked.bus ++ access }) := by
  apply LockInvariant.refused negative
  refine ⟨?_, ?_, fun _ here => here.elim, .of_mem_eq rfl, .of_mem_eq rfl⟩
  · simp only [sameRegs]
    rw [show plain.regs.ip + 0 = plain.regs.ip from BitVec.add_zero _]
    rfl
  · simp only [sameBus]

theorem shifted_begun (ctx : TrapContext) {word : Word → Prop} (sameRegs : locked.regs = plain.regs)
    (sameBus : locked.bus = plain.bus) (operand : Operand)
    (words : ∀ address, word address → SameWord plain.mem locked.mem address) :
    Shifted word (plain.begun ctx 2 operand) (locked.begun ctx 3 operand) := by
  refine ⟨?_, ?_, ?_⟩
  · rw [State.regs_begun, State.regs_begun, Nat.add_right_comm 2 1, ← State.advance_advance]
    simp only [State.advance, sameRegs]
    rfl
  · simp only [State.begun]
    split_ifs
    · exact congrArg (· ++ _) sameBus
    · exact sameBus
  · intro address here
    rw [State.mem_begun, State.mem_begun]
    exact words address here

theorem lockInvariant_of_operated {pstate pstate' : ParserState} {code : Nat → Byte}
    {operand : Operand} (decoded : Decoded pstate (decodeSource code) operand)
    (decoded' : Decoded pstate' (decodeSource code) operand) (apart : operand.Apart ctx)
    (sameRegs : locked.regs = plain.regs) (sameBus : locked.bus = plain.bus)
    (words : ∀ address, operand.word ctx address → SameWord plain.mem locked.mem address) :
    LockInvariant (operand.word ctx) plain locked
      (operate ctx op pstate (plain.begun ctx 2 operand))
      (operate ctx op pstate' (locked.begun ctx 3 operand)) := by
  have general : (decodeSource code).IsGeneral := Slot.isGeneral_ofReg _
  have outcome := coupled_operate op decoded (fieldSlot_ne_ip _) apart.shared _ _
    (shifted_begun ctx sameRegs sameBus operand words)
  have returns := operate_returns ctx op pstate (plain.begun ctx 2 operand)
  have rest : ∀ (st : State) (skip : Nat), UnchangedOutside (operand.word ctx) st
      (finalState (operate ctx op pstate (st.begun ctx skip operand))) := by
    intro st skip
    have begun : UnchangedOutside (operand.word ctx) st (st.begun ctx skip operand) :=
      .of_mem_eq (State.mem_begun st ctx skip operand)
    exact begun.trans (within_operate op (UnchangedOutside.permitted apart) decoded general _)
  have plainRest := rest plain 2
  have lockedRest := rest locked 3
  rw [operate_congr op decoded decoded']
  generalize operate ctx op pstate (plain.begun ctx 2 operand) = plainResult at *
  generalize operate ctx op pstate (locked.begun ctx 3 operand) = lockedResult at *
  cases outcome with
  | ok value states =>
      rw [returns value _ rfl]
      exact .emulated ⟨states.regs, states.bus, states.words, plainRest, lockedRest⟩
  | error stop states =>
      exact .oopsed ⟨states.regs, states.bus, states.words, plainRest, lockedRest⟩

theorem lockedCode_spec (encodes : Encodes plain.codeAt false op.opcode)
    (lockByte : locked.codeAt 0 = 0xf0)
    (sameCode : ∀ index < plain.isaLength false, locked.codeAt (index + 1) = plain.codeAt index) :
    Encodes locked.codeAt true op.opcode ∧
      ∀ index < Ia32.modrmLength (operandCode plain.codeAt false),
        operandCode locked.codeAt true index = operandCode plain.codeAt false index := by
  have length_eq : plain.isaLength false =
      2 + Ia32.modrmLength (operandCode plain.codeAt false) := by
    simp [State.isaLength, State.isaOperand, Ia32.modrmOperand_length, lockLength]
  refine ⟨⟨fun _ => lockByte, ?_, ?_⟩, ?_⟩
  · exact (sameCode 0 (by omega)).trans encodes.escape
  · exact (sameCode 1 (by omega)).trans encodes.opcode_eq
  · intro index index_lt
    have shifted := sameCode (2 + index) (by omega)
    rw [Nat.add_right_comm] at shifted
    exact shifted

/-- A lock prefix changes nothing but the length of the instruction. -/
theorem parseEmuInstruction_lockInvariant (ctx : TrapContext) (op : Ia32.AtomicOp)
    (plain locked : State) (sameRegs : locked.regs = plain.regs)
    (sameBus : locked.bus = plain.bus) (instruction : InstructionAt ctx plain false op)
    (first : Readable ctx locked.mem locked.regs.ip)
    (second : Readable ctx locked.mem (locked.regs.ip + 4))
    (lockByte : locked.codeAt 0 = 0xf0)
    (sameCode : ∀ index < plain.isaLength false, locked.codeAt (index + 1) = plain.codeAt index)
    (sameOperand : ∀ address, plain.decodedWord ctx false address →
      accessOk ctx address 4 = true → SameWord plain.mem locked.mem address)
    (clear : ∀ address length, decodeOperand plain.regs (operandCode plain.codeAt false) =
      some ⟨.user address, true, length⟩ → accessOk ctx address 4 = true →
        ClearOfIp ctx address) :
    LockInvariant (plain.decodedWord ctx false) plain locked (parseEmuInstruction ctx plain)
      (parseEmuInstruction ctx locked) := by
  rcases lockedCode_spec instruction.encodes lockByte sameCode with ⟨encodes, operandBytes⟩
  have fetches := fetches_of_readable instruction.first instruction.second
  have fetches' := fetches_of_readable first second
  have decodes_eq : decodeOperand locked.regs (operandCode locked.codeAt true) =
      decodeOperand plain.regs (operandCode plain.codeAt false) := by
    rw [sameRegs]
    exact decodeOperand_congr _ operandBytes
  have source_eq : decodeSource (operandCode locked.codeAt true) =
      decodeSource (operandCode plain.codeAt false) := by
    simp only [decodeSource]
    rw [operandBytes 0 (Ia32.modrmLength_pos _)]
  cases decodes : decodeOperand plain.regs (operandCode plain.codeAt false) with
  | none =>
      rw [parseEmuInstruction_unsupported fetches instruction.encodes decodes,
        parseEmuInstruction_unsupported fetches' encodes (decodes_eq.trans decodes)]
      have refused := @lockInvariant_of_refused plain locked (plain.decodedWord ctx false)
        (-eopnotsupp) [] (by decide) sameRegs sameBus
      rw [List.append_nil, List.append_nil] at refused
      exact refused
  | some operand =>
      rcases operand.outOfRange_or_inRange ctx with ⟨inMemory, outOfRange⟩ | inRange
      · rw [parseEmuInstruction_out_of_range fetches instruction.encodes decodes inMemory
            outOfRange,
          parseEmuInstruction_out_of_range fetches' encodes (decodes_eq.trans decodes) inMemory
            outOfRange]
        exact lockInvariant_of_refused (by decide) sameRegs sameBus
      · have apart : operand.Apart ctx := by
          refine ⟨decodeOperand_dest decodes, ?_⟩
          rcases decodeOperand_dest decodes with ⟨register, dest_eq⟩ | ⟨address, dest_eq, inMemory⟩
          · rw [dest_eq]
            exact clearOfIp_slot ctx (Slot.ofReg_ne_ip register)
          · have checked := inRange inMemory
            rcases operand with ⟨dest, placed, length⟩
            subst dest_eq
            subst inMemory
            exact clear address length decodes checked
        rcases parseEmuInstruction_operated fetches instruction.encodes decodes inRange
          with ⟨pstate, decoded, run⟩
        rcases parseEmuInstruction_operated fetches' encodes (decodes_eq.trans decodes) inRange
          with ⟨pstate', decoded', run'⟩
        rw [source_eq] at decoded'
        rw [run, run', State.decodedWord_eq decodes]
        apply lockInvariant_of_operated decoded decoded' apart sameRegs sameBus
        rintro address ⟨inMemory, rfl⟩
        exact sameOperand _ ⟨operand, decodes, inMemory, rfl⟩ (inRange inMemory)

/-- `xadd %eax, 0x0804a000`. -/
def xaddCode : List Byte := [0x0f, 0xc1, 0x05, 0x00, 0xa0, 0x04, 0x08]

theorem parseEmuInstruction_lockInvariant_xadd :
    LockInvariant ((sampleState xaddCode fun _ => true).decodedWord sampleContext false)
      (sampleState xaddCode fun _ => true) (sampleState lockXaddCode fun _ => true)
      (parseEmuInstruction sampleContext (sampleState xaddCode fun _ => true))
      (parseEmuInstruction sampleContext (sampleState lockXaddCode fun _ => true)) :=
  parseEmuInstruction_lockInvariant sampleContext .xadd _ _ rfl rfl
    { encodes := ⟨by decide, by decide, by decide⟩
      first := sampleState_readable _ _ (by decide)
      second := sampleState_readable _ _ (by decide) }
    lockXadd_instructionAt.first lockXadd_instructionAt.second (by decide) (by decide)
    (by
      rintro address ⟨operand, ⟨⟩, -, rfl⟩ -
      refine ⟨?_, fun _ _ => rfl, fun _ _ => rfl⟩
      rintro other (rfl | rfl | rfl | rfl) <;> rfl)
    (by
      rintro address length ⟨⟩ -
      exact clearOfIp_of_outsideFrame (outsideFrame_of_fromUser (by decide) (by decide)))

end Call

end Gray386.Emu
