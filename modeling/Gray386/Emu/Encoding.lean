import Gray386.Emu.Deviations

/-!
# Which bytes are accepted

The dispatcher looks at eight bytes. Here its answers are compared with the encodings
of the instruction set: how long the instruction is after which the program resumes,
which byte sequences are emulated at all, and what the fetch of eight bytes means for
an instruction that is shorter than that.

* The instruction pointer moves by the length of the instruction in every accepted
  form, prefixes and displacements included.
* `parse_emu_bswap` is the only handler that looks at the lock prefix, so a locked
  instruction with a register destination is emulated where a processor raises an
  exception. Nothing else is accepted that should not be.
* The list of `BSWAP` opcodes leaves out two of the eight registers.
* Both words are fetched before anything is decoded. An instruction near the end of
  the mapped text is not emulated, however short it is.
-/

namespace Gray386.Emu

open Gray386.Machine

theorem decodeOperand_length {regs : PtRegs} {code : Nat → Byte} {operand : Operand}
    (decodes : decodeOperand regs code = some operand) :
    operand.length = Ia32.modrmLength code := by
  simp only [decodeOperand] at decodes
  simp only [Ia32.modrmLength]
  split_ifs at decodes with register sib zero absolute one
  · cases decodes
    rw [if_pos register]
  · cases decodes
    rw [if_neg register, if_neg sib, if_pos zero, if_pos absolute]
  · cases decodes
    rw [if_neg register, if_neg sib, if_pos zero, if_neg absolute]
  · cases decodes
    rw [if_neg register, if_neg sib, if_neg zero, if_pos one]
  · cases decodes
    rw [if_neg register, if_neg sib, if_neg zero, if_neg one]

theorem unprefixedLength_of_atomic {code : Nat → Byte} {op : Ia32.AtomicOp}
    (escape : code 0 = 0x0f) (opcode : code 1 = op.opcode) :
    Ia32.unprefixedLength code = 2 + Ia32.modrmLength (after code 2) := by
  have listed : code 1 = 0xb1 ∨ code 1 = 0xc1 := by
    rw [opcode]
    cases op with
    | cmpxchg => exact Or.inl rfl
    | xadd => exact Or.inr rfl
  rw [Ia32.unprefixedLength, if_pos escape, if_pos listed]
  rfl

theorem instructionLength_of_encodes {code : Nat → Byte} {locked : Bool} {op : Ia32.AtomicOp}
    (encodes : Encodes code locked op.opcode) :
    Ia32.instructionLength code =
      lockLength locked + 2 + Ia32.modrmLength (operandCode code locked) := by
  cases locked with
  | false =>
      have escape : code 0 = 0x0f := encodes.escape
      have length_eq := unprefixedLength_of_atomic escape encodes.opcode_eq
      rw [Ia32.instructionLength, escape, if_neg (by decide), if_neg (by decide), length_eq]
      rfl
  | true =>
      have length_eq := @unprefixedLength_of_atomic (fun index => code (1 + index)) op
        encodes.escape encodes.opcode_eq
      rw [Ia32.instructionLength, if_pos (encodes.lock rfl), length_eq, ← Nat.add_assoc]
      have shifted : after (fun index => code (1 + index)) 2 = operandCode code true := by
        funext index
        exact congrArg code (Nat.add_assoc 1 2 index).symm
      rw [shifted]
      rfl

/-- The saved instruction pointer has not moved. -/
def KeepsIp (before after : State) : Prop :=
  after.regs.ip = before.regs.ip

namespace KeepsIp

instance : IsPreorder State KeepsIp where
  refl _ := rfl
  trans _ _ _ left right := right.trans left

theorem of_regs_eq {before after : State} (regs_eq : after.regs = before.regs) :
    KeepsIp before after :=
  congrArg PtRegs.ip regs_eq

theorem set (st : State) {member : Slot} (ne : member ≠ .ip) (value : Word) :
    KeepsIp st { st with regs := st.regs.set member value } :=
  PtRegs.get_set_of_ne st.regs ne.symm value

/-- No handler moves the instruction pointer once its operand has passed the checks. -/
theorem permitted {ctx : TrapContext} {operand : Operand} {dest : Ia32.Dest}
    (denotes : operand.Denotes ctx dest) : Permitted KeepsIp ctx operand where
  record _ access _ := by
    intro st
    exact of_regs_eq rfl
  flags f _ := by
    intro st
    exact set st (by decide) _
  register member general value := by
    intro st
    apply set st
    rintro rfl
    exact absurd general (by decide)
  store value := by
    intro st
    cases denotes with
    | register register dest_eq notInMemory =>
        rw [dest_eq]
        exact set st (Slot.ofReg_ne_ip register) value
    | memory address dest_eq inMemory below outside =>
        rw [dest_eq]
        rcases assign_user_cases outside value st with stored | oops
        · rw [stored]
          exact of_regs_eq rfl
        · rw [oops]
          exact of_regs_eq rfl
  put inMemory value := by
    intro st
    cases denotes with
    | register register dest_eq notInMemory => simp [notInMemory] at inMemory
    | memory address dest_eq _ below outside =>
        rw [dest_eq, Ptr.address]
        rcases putUser_eq_take ctx value address st with ⟨ret, count, copied⟩
        rw [copied]
        apply of_regs_eq
        apply State.regs_writeBytes
        intro offset offset_lt
        rw [List.length_take] at offset_lt
        have short : offset < 4 := lt_of_lt_of_le offset_lt (Nat.min_le_right _ _)
        exact outside _ ((inWord_iff_exists_offset _ _).mpr ⟨offset, short, rfl⟩)

end KeepsIp

section Length

variable {ctx : TrapContext} {st : State}

theorem ip_eq_of_perform (fromUser : ctx.FromUser) {code : Nat → Byte} {decision : Decision}
    (decides : Decides st.regs code decision) {ret : Int} {final : State}
    (run : decision.perform ctx st = .ok ret final) (positive : 0 < ret) :
    final.regs.ip = st.regs.ip + BitVec.ofNat 32 (Ia32.instructionLength code) := by
  cases decides with
  | unsupported => exact absurd positive (not_pos_of_failed rfl (by decide) run)
  | endbr32 bytes =>
      injection run with ret_eq final_eq
      rcases bytes with ⟨first, second, third, fourth⟩
      have length_eq : Ia32.instructionLength code = 4 := by
        rw [Ia32.instructionLength, first, if_neg (by decide), if_pos rfl, if_pos second,
          if_pos third, Ia32.modrmLength, show code (3 + 0) = 0xfb from fourth]
        rfl
      rw [← final_eq, length_eq]
      rfl
  | bswap escape opcode =>
      injection run with ret_eq final_eq
      have notAtomic : ¬(code 1 = 0xb1 ∨ code 1 = 0xc1) := by
        rintro (equal | equal) <;> rw [equal] at opcode <;> exact absurd opcode (by decide)
      have length_eq : Ia32.instructionLength code = 2 := by
        rw [Ia32.instructionLength, escape, if_neg (by decide), if_neg (by decide),
          Ia32.unprefixedLength, if_pos escape, if_neg notAtomic]
      rw [← final_eq, length_eq]
      exact PtRegs.get_set_of_ne _ (fieldSlot_ne_ip _).symm _
  | @atomic op locked encodes operand decodes =>
      rcases operand.outOfRange_or_inRange ctx with outOfRange | inRange
      · simp only [Decision.perform, if_pos outOfRange] at run
        exact absurd positive (not_pos_of_failed rfl (by decide) run)
      · rw [Decision.perform_of_inRange op _ _ inRange] at run
        rcases denotes_of_fromUser fromUser decodes inRange with ⟨dest, denotes⟩
        have general : (decodeSource (operandCode code locked)).IsGeneral :=
          Slot.isGeneral_ofReg _
        have kept := within_operate op (KeepsIp.permitted denotes) (operand.decoded_parsed _)
          general (st.begun ctx (lockLength locked + 2) operand)
        rw [run] at kept
        rw [instructionLength_of_encodes encodes, ← decodeOperand_length decodes]
        refine Eq.trans kept ?_
        rw [State.regs_begun]
        rfl

/-- A successful call moves the instruction pointer by the length of the instruction. -/
theorem parseEmuInstruction_length (ctx : TrapContext) (fromUser : ctx.FromUser) (st : State)
    (ret : Int) (final : State) (run : parseEmuInstruction ctx st = .ok ret final)
    (positive : 0 < ret) :
    final.regs.ip - st.regs.ip = BitVec.ofNat 32 (Ia32.instructionLength st.codeAt) := by
  rcases @fetches_or_fault ctx st fromUser with fault | fetches
  · exact absurd positive (not_pos_of_failed fault (by decide) run)
  · rw [parseEmuInstruction_eq_perform fetches] at run
    rw [ip_eq_of_perform fromUser (decides_decodeInstruction _ _) run positive,
      BitVec.add_comm, BitVec.add_sub_cancel]

theorem parseEmuInstruction_length_lockXadd :
    (finalState (parseEmuInstruction sampleContext
        (sampleState lockXaddCode fun _ => true))).regs.ip - 0x08048000 = 8 :=
  parseEmuInstruction_length sampleContext (by decide) (sampleState lockXaddCode fun _ => true) 1
    _ (eq_ok_of_returned (by decide)) (by decide)

end Length

/-- The encodings that a processor with these instructions executes without `#UD`. -/
inductive LegalEncoding (code : Nat → Byte) : Prop where
  | endbr32 (bytes : code 0 = 0xf3 ∧ code 1 = 0x0f ∧ code 2 = 0x1e ∧ code 3 = 0xfb)
  | bswap (escape : code 0 = 0x0f) (low : 0xc8 ≤ (code 1).toNat) (high : (code 1).toNat ≤ 0xcf)
  | register (op : Ia32.AtomicOp) (encodes : Encodes code false op.opcode)
      (form : Ia32.modField (operandCode code false 0) = 3)
  | memory (op : Ia32.AtomicOp) (locked : Bool) (encodes : Encodes code locked op.opcode)
      (form : Ia32.modField (operandCode code locked 0) ≠ 3)

/-- A lock prefix on an atomic instruction whose destination is a register. -/
def LockedRegister (code : Nat → Byte) : Prop :=
  ∃ op : Ia32.AtomicOp, Encodes code true op.opcode ∧
    Ia32.modField (operandCode code true 0) = 3

/-- A call succeeds on legal encodings only and refuses every other one. -/
structure AcceptsSoundly (ctx : TrapContext) (st : State) : Prop where
  accepted : ∀ ret final, parseEmuInstruction ctx st = .ok ret final → 0 < ret →
    LegalEncoding st.codeAt
  refused : ¬LegalEncoding st.codeAt →
    ∃ ret final, parseEmuInstruction ctx st = .ok ret final ∧ ret < 0

section Acceptance

variable {ctx : TrapContext} {st : State}

theorem readable_of_getUser (fromUser : ctx.FromUser) {address value : Word}
    (fetch : getUser ctx address st = .ok (0, value) st) : Readable ctx st.mem address := by
  rcases getUser_cases ctx address st with fault | ⟨loaded, below, load_eq, -⟩
  · rw [fault] at fetch
    injection fetch with pair_eq
    injection pair_eq with ret_eq
    exact absurd ret_eq (by decide)
  have outside := outsideFrame_of_fromUser fromUser below
  refine ⟨bytes_lt_of_add_four_le below, outside, ?_⟩
  intro other inside
  by_contra absent
  rw [State.load_of_absent outside inside (by simpa using absent)] at load_eq
  exact absurd load_eq (by simp)

/-- Whatever is decided to be an instruction is one, or has a lock prefix too many. -/
theorem legal_or_lockedRegister {regs : PtRegs} {code : Nat → Byte} {decision : Decision}
    (decides : Decides regs code decision) (supported : decision ≠ .unsupported) :
    LegalEncoding code ∨ LockedRegister code := by
  cases decides with
  | unsupported => exact absurd rfl supported
  | endbr32 bytes => exact Or.inl (.endbr32 bytes)
  | bswap escape opcode =>
      left
      simp only [List.mem_cons, List.not_mem_nil, or_false] at opcode
      exact .bswap escape (by omega) (by omega)
  | atomic op locked encodes decodes =>
      by_cases form : Ia32.modField (operandCode code locked 0) = 3
      · cases locked with
        | false => exact Or.inl (.register op encodes form)
        | true => exact Or.inr ⟨op, encodes, form⟩
      · exact Or.inl (.memory op locked encodes form)

theorem not_legal_of_lockedRegister {code : Nat → Byte} (form : LockedRegister code) :
    ¬LegalEncoding code := by
  rcases form with ⟨op, encodes, register⟩
  have lockByte := encodes.lock rfl
  intro legal
  cases legal with
  | endbr32 bytes =>
      rw [lockByte] at bytes
      exact absurd bytes.1 (by decide)
  | bswap escape low high =>
      rw [lockByte] at escape
      exact absurd escape (by decide)
  | register other unlocked form =>
      have escape : code 0 = 0x0f := unlocked.escape
      rw [lockByte] at escape
      exact absurd escape (by decide)
  | memory other locked encodes' form =>
      have locked_eq : locked = true := encodes'.lock_iff.mpr lockByte
      subst locked_eq
      exact form register

theorem decodeOperand_of_register {regs : PtRegs} {code : Nat → Byte}
    (form : Ia32.modField (code 0) = 3) :
    decodeOperand regs code = some ⟨.slot (fieldSlot (Ia32.rmField (code 0))), false, 1⟩ := by
  simp only [decodeOperand, if_pos form]

theorem parseEmuInstruction_of_register {code : Nat → Byte} {locked : Bool}
    {op : Ia32.AtomicOp} (fetches : Fetches ctx st code) (encodes : Encodes code locked op.opcode)
    (form : Ia32.modField (operandCode code locked 0) = 3) :
    ∃ final, parseEmuInstruction ctx st = .ok 1 final := by
  have decodes := @decodeOperand_of_register st.regs _ form
  rcases parseEmuInstruction_operated fetches encodes decodes (by simp)
    with ⟨pstate, decoded, run⟩
  have denotes : Operand.Denotes ctx
      ⟨.slot (fieldSlot (Ia32.rmField (operandCode code locked 0))), false, 1⟩ (.reg _) :=
    .register _ rfl rfl
  rw [run]
  cases op with
  | cmpxchg =>
      rcases operateCmpxchg_refines decoded denotes trivial with ⟨final, operated, -⟩
      exact ⟨final, operated⟩
  | xadd =>
      rcases operateXadd_refines decoded denotes trivial with ⟨final, operated, -⟩
      exact ⟨final, operated⟩

/-- Acceptance is sound on exactly the bytes that are not a locked register form. -/
theorem acceptsSoundly_iff (ctx : TrapContext) (fromUser : ctx.FromUser) (st : State) :
    AcceptsSoundly ctx st ↔
      ¬(Readable ctx st.mem st.regs.ip ∧ Readable ctx st.mem (st.regs.ip + 4) ∧
        LockedRegister st.codeAt) := by
  constructor
  · rintro sound ⟨first, second, form⟩
    rcases form with ⟨op, encodes, register⟩
    rcases parseEmuInstruction_of_register (fetches_of_readable first second) encodes register
      with ⟨final, run⟩
    exact not_legal_of_lockedRegister ⟨op, encodes, register⟩
      (sound.accepted 1 final run (by decide))
  · intro notLocked
    rcases @fetches_or_fault ctx st fromUser with fault | fetches
    · refine ⟨?_, fun _ => ⟨_, _, fault, by decide⟩⟩
      intro ret final run positive
      exact absurd positive (not_pos_of_failed fault (by decide) run)
    have illegal : ¬LockedRegister st.codeAt := by
      intro form
      exact notLocked ⟨readable_of_getUser fromUser fetches.first,
        readable_of_getUser fromUser fetches.second, form⟩
    have run_eq := parseEmuInstruction_eq_perform fetches
    have decides := decides_decodeInstruction st.regs st.codeAt
    by_cases supported : decodeInstruction st.regs st.codeAt = .unsupported
    · rw [supported] at run_eq
      refine ⟨?_, fun _ => ⟨_, _, run_eq, by decide⟩⟩
      intro ret final run positive
      exact absurd positive (not_pos_of_failed run_eq (by decide) run)
    · have legal := (legal_or_lockedRegister decides supported).resolve_right illegal
      exact ⟨fun _ _ _ _ => legal, fun notLegal => absurd legal notLegal⟩

theorem acceptsSoundly_iff_lockXadd :
    sampleContext.FromUser ∧
      (AcceptsSoundly sampleContext (sampleState lockXaddCode fun _ => true) ↔
        ¬(Readable sampleContext (sampleState lockXaddCode fun _ => true).mem 0x08048000 ∧
          Readable sampleContext (sampleState lockXaddCode fun _ => true).mem 0x08048004 ∧
          LockedRegister (sampleState lockXaddCode fun _ => true).codeAt)) :=
  ⟨by decide, acceptsSoundly_iff sampleContext (by decide)
    (sampleState lockXaddCode fun _ => true)⟩

/-- `lock xadd %eax, %ebx`. -/
def lockXaddRegisterCode : List Byte := [0xf0, 0x0f, 0xc1, 0xc3]

/-- The processor raises `#UD` on these bytes, and the call exchanges the registers. -/
theorem lockXaddRegister_accepted :
    returned (parseEmuInstruction sampleContext
        (sampleState lockXaddRegisterCode fun _ => true)) = some 1 ∧
      (finalState (parseEmuInstruction sampleContext
        (sampleState lockXaddRegisterCode fun _ => true))).regs.bx = 8 ∧
      ¬LegalEncoding (sampleState lockXaddRegisterCode fun _ => true).codeAt ∧
      ¬AcceptsSoundly sampleContext (sampleState lockXaddRegisterCode fun _ => true) := by
  have succeeded : returned (parseEmuInstruction sampleContext
      (sampleState lockXaddRegisterCode fun _ => true)) = some 1 := by
    decide
  have illegal : ¬LegalEncoding (sampleState lockXaddRegisterCode fun _ => true).codeAt :=
    not_legal_of_lockedRegister ⟨.xadd, ⟨by decide, by decide, by decide⟩, by decide⟩
  refine ⟨succeeded, by decide, illegal, ?_⟩
  intro sound
  exact illegal (sound.accepted 1 _ (eq_ok_of_returned succeeded) (by decide))

end Acceptance

/-- The four bytes of a word in reverse order. -/
def reverseBytes (value : Word) : Word :=
  ofBytes (byte value 3) (byte value 2) (byte value 1) (byte value 0)

theorem reverseBytes_reverseBytes (value : Word) : reverseBytes (reverseBytes value) = value := by
  simp only [reverseBytes, byte_zero_ofBytes, byte_one_ofBytes, byte_two_ofBytes,
    byte_three_ofBytes]
  exact ofBytes_bytes value

/-- Masks and shifts put each byte in the place of its mirror image. -/
theorem swapBytes_eq_reverseBytes (value : Word) : swapBytes value = reverseBytes value := by
  apply BitVec.eq_of_getLsbD_eq
  intro index index_lt
  simp only [swapBytes, reverseBytes, getLsbD_ofBytes, byte, BitVec.getLsbD_or,
    BitVec.getLsbD_and, BitVec.getLsbD_shiftLeft, BitVec.getLsbD_ushiftRight,
    BitVec.getLsbD_extractLsb']
  interval_cases index <;> simp

/-- `bswap` of a register stands at the instruction pointer, with both words mapped. -/
structure BswapAt (ctx : TrapContext) (st : State) (register : Nat) : Prop where
  escape : st.codeAt 0 = 0x0f
  opcode : (st.codeAt 1).toNat = 0xc8 + register
  first : Readable ctx st.mem st.regs.ip
  second : Readable ctx st.mem (st.regs.ip + 4)

/--
The register is reversed and nothing else changes but the instruction pointer; and
the same instruction on the reversed value restores the register.
-/
structure Swaps (ctx : TrapContext) (st : State) (register : Nat) : Prop where
  once : ∃ final, parseEmuInstruction ctx st = .ok 1 final ∧ final.mem = st.mem ∧
    final.regs = (st.regs.set (fieldSlot register)
      (reverseBytes (st.regs.get (fieldSlot register)))).set .ip (st.regs.ip + 2)
  twice : ∀ final again, parseEmuInstruction ctx st = .ok 1 final →
    BswapAt ctx again register →
    again.regs.get (fieldSlot register) = final.regs.get (fieldSlot register) →
    ∃ restored, parseEmuInstruction ctx again = .ok 1 restored ∧
      restored.regs.get (fieldSlot register) = st.regs.get (fieldSlot register)

section Bswap

variable {ctx : TrapContext} {st : State} {register : Nat}

theorem decodeInstruction_bswap {regs : PtRegs} {code : Nat → Byte} (escape : code 0 = 0x0f)
    (register_lt : register < 8) (opcode : (code 1).toNat = 0xc8 + register) :
    decodeInstruction regs code =
      if register = 4 ∨ register = 5 then .unsupported else .bswap (fieldSlot register) := by
  have unlocked : decide (code 0 = 0xf0) = false := by
    rw [escape]
    decide
  have notAtomic : ∀ op : Ia32.AtomicOp, ¬code 1 = op.opcode := by
    intro op equal
    rw [equal] at opcode
    cases op with
    | cmpxchg => exact absurd opcode (by simp [Ia32.AtomicOp.opcode]; omega)
    | xadd => exact absurd opcode (by simp [Ia32.AtomicOp.opcode]; omega)
  have field_eq : Ia32.rmField (code 1) = register := by
    simp only [Ia32.rmField]
    omega
  have listed : (code 1).toNat ∈ [0xc8, 0xc9, 0xca, 0xcb, 0xce, 0xcf] ↔
      ¬(register = 4 ∨ register = 5) := by
    simp only [List.mem_cons, List.not_mem_nil, or_false]
    omega
  simp only [decodeInstruction, unlocked]
  refine Eq.trans (if_pos escape) (Eq.trans (if_neg (notAtomic _)) ?_)
  refine Eq.trans (if_neg (notAtomic _)) ?_
  by_cases unlisted : register = 4 ∨ register = 5
  · rw [if_pos unlisted]
    refine if_neg ?_
    rintro ⟨-, member⟩
    exact listed.mp member unlisted
  · rw [if_neg unlisted]
    refine Eq.trans (if_pos ⟨trivial, listed.mpr unlisted⟩) ?_
    exact congrArg (fun field => Decision.bswap (fieldSlot field)) field_eq

theorem parseEmuInstruction_bswap (register_lt : register < 8)
    (listed : ¬(register = 4 ∨ register = 5)) (instruction : BswapAt ctx st register) :
    ∃ final, parseEmuInstruction ctx st = .ok 1 final ∧ final.mem = st.mem ∧
      final.regs = (st.regs.set (fieldSlot register)
        (reverseBytes (st.regs.get (fieldSlot register)))).set .ip (st.regs.ip + 2) := by
  have fetches := fetches_of_readable instruction.first instruction.second
  have run := parseEmuInstruction_eq_perform fetches
  rw [decodeInstruction_bswap instruction.escape register_lt instruction.opcode, if_neg listed]
    at run
  refine ⟨_, run, rfl, ?_⟩
  apply PtRegs.eq_of_get_eq
  intro member
  simp only [State.advance, PtRegs.get_set, swapBytes_eq_reverseBytes]
  by_cases ip : member = .ip
  · subst ip
    rw [if_neg (fieldSlot_ne_ip register).symm, if_pos rfl]
    rfl
  · rw [if_neg ip, if_neg ip]

theorem parseEmuInstruction_bswap_unlisted (register_lt : register < 8)
    (unlisted : register = 4 ∨ register = 5) (instruction : BswapAt ctx st register) :
    parseEmuInstruction ctx st = .ok (-eopnotsupp) st := by
  have fetches := fetches_of_readable instruction.first instruction.second
  rw [parseEmuInstruction_eq_perform fetches,
    decodeInstruction_bswap instruction.escape register_lt instruction.opcode, if_pos unlisted]
  rfl

/-- `BSWAP` is emulated for every register except the stack and the frame pointer. -/
theorem swaps_iff (ctx : TrapContext) (st : State) (register : Nat) (register_lt : register < 8)
    (instruction : BswapAt ctx st register) :
    Swaps ctx st register ↔ ¬(register = 4 ∨ register = 5) := by
  constructor
  · intro swaps unlisted
    rcases swaps.once with ⟨final, run, -⟩
    rw [parseEmuInstruction_bswap_unlisted register_lt unlisted instruction] at run
    injection run with ret_eq
    exact absurd ret_eq (by decide)
  · intro listed
    rcases parseEmuInstruction_bswap register_lt listed instruction
      with ⟨final, run, mem_eq, regs_eq⟩
    refine ⟨⟨final, run, mem_eq, regs_eq⟩, ?_⟩
    intro final' again run' instruction' register_eq
    rw [run] at run'
    injection run' with _ final_eq
    subst final_eq
    rcases parseEmuInstruction_bswap register_lt listed instruction'
      with ⟨restored, run'', -, regs_eq'⟩
    refine ⟨restored, run'', ?_⟩
    rw [regs_eq', PtRegs.get_set_of_ne _ (fieldSlot_ne_ip register), PtRegs.get_set_self,
      register_eq, regs_eq, PtRegs.get_set_of_ne _ (fieldSlot_ne_ip register),
      PtRegs.get_set_self, reverseBytes_reverseBytes]

/-- `bswap %edx`. -/
def bswapCode : List Byte := [0x0f, 0xca]

theorem swaps_iff_edx :
    Swaps sampleContext (sampleState bswapCode fun _ => true) 2 ↔ ¬(2 = 4 ∨ 2 = 5) :=
  swaps_iff sampleContext (sampleState bswapCode fun _ => true) 2 (by decide)
    { escape := by decide
      opcode := by decide
      first := sampleState_readable _ _ (by decide)
      second := sampleState_readable _ _ (by decide) }

/-- `bswap %ebp`. -/
def bswapEbpCode : List Byte := [0x0f, 0xcd]

/-- The process gets `SIGILL` for an instruction that a compiler may well emit. -/
theorem bswapEbp_refused :
    BswapAt sampleContext (sampleState bswapEbpCode fun _ => true) 5 ∧
      returned (parseEmuInstruction sampleContext (sampleState bswapEbpCode fun _ => true)) =
        some (-eopnotsupp) ∧
      ¬Swaps sampleContext (sampleState bswapEbpCode fun _ => true) 5 := by
  have refused : returned (parseEmuInstruction sampleContext
      (sampleState bswapEbpCode fun _ => true)) = some (-eopnotsupp) := by
    decide
  refine ⟨?_, refused, ?_⟩
  · exact
      { escape := by decide
        opcode := by decide
        first := sampleState_readable _ _ (by decide)
        second := sampleState_readable _ _ (by decide) }
  · intro swaps
    rcases swaps.once with ⟨final, run, -⟩
    rw [run] at refused
    injection refused with ret_eq
    exact absurd ret_eq (by decide)

end Bswap

/-- The kernel cannot read a byte for the user. -/
def Unreadable (ctx : TrapContext) (st : State) (address : Word) : Prop :=
  ctx.addrLimit.toNat ≤ address.toNat ∨ st.readByte ctx address = none

/-- The emulated instructions that need no more than four bytes of code. -/
inductive ShortForm (code : Nat → Byte) : Prop where
  | endbr32 (bytes : code 0 = 0xf3 ∧ code 1 = 0x0f ∧ code 2 = 0x1e ∧ code 3 = 0xfb)
  | bswap (escape : code 0 = 0x0f)
      (opcode : (code 1).toNat ∈ [0xc8, 0xc9, 0xca, 0xcb, 0xce, 0xcf])
  | register (op : Ia32.AtomicOp) (encodes : Encodes code false op.opcode)
      (form : Ia32.modField (operandCode code false 0) = 3)

/-- The instruction is readable, and one of the eight bytes at its address is not. -/
structure AtEndOfText (ctx : TrapContext) (st : State) (code : Nat → Byte) : Prop where
  form : ShortForm code
  bytes : ∀ index < Ia32.instructionLength code,
    st.readByte ctx (st.regs.ip + BitVec.ofNat 32 index) = some (code index) ∧
      (st.regs.ip + BitVec.ofNat 32 index).toNat < ctx.addrLimit.toNat
  beyond : ∃ index, Ia32.instructionLength code ≤ index ∧ index < 8 ∧
    Unreadable ctx st (st.regs.ip + BitVec.ofNat 32 index)

/-- The call returns 1 and does what it does where all eight bytes can be fetched. -/
def EmulatedAsIfMapped (ctx : TrapContext) (st : State) (code : Nat → Byte) : Prop :=
  ∃ final, parseEmuInstruction ctx st = .ok 1 final ∧ final.mem = st.mem ∧
    ∀ mapped mappedFinal, mapped.regs = st.regs → Fetches ctx mapped code →
      parseEmuInstruction ctx mapped = .ok 1 mappedFinal → final.regs = mappedFinal.regs

section EndOfText

variable {ctx : TrapContext} {st : State}

theorem load_of_unreadable_byte {address other : Word} (inside : InWord address other)
    (unread : st.readByte ctx other = none) : st.load ctx address = none := by
  simp only [State.load]
  rcases inside with rfl | rfl | rfl | rfl
  · rw [unread]
    rfl
  · cases st.readByte ctx address with
    | none => rfl
    | some b₀ =>
        rw [unread]
        rfl
  · cases st.readByte ctx address with
    | none => rfl
    | some b₀ =>
        cases st.readByte ctx (address + 1) with
        | none => rfl
        | some b₁ =>
            rw [unread]
            rfl
  · cases st.readByte ctx address with
    | none => rfl
    | some b₀ =>
        cases st.readByte ctx (address + 1) with
        | none => rfl
        | some b₁ =>
            cases st.readByte ctx (address + 2) with
            | none => rfl
            | some b₂ =>
                rw [unread]
                rfl

theorem getUser_of_unreadable {address other : Word} (inside : InWord address other)
    (unreadable : Unreadable ctx st other) : getUser ctx address st = .ok (-efault, 0) st := by
  rcases getUser_cases ctx address st with fault | ⟨value, below, loaded, -⟩
  · exact fault
  · exfalso
    rcases unreadable with beyond | unread
    · have other_lt := bytes_lt_of_add_four_le below other inside
      omega
    · rw [load_of_unreadable_byte inside unread] at loaded
      exact absurd loaded (by simp)

theorem parseEmuInstruction_of_unreadable {index : Nat} (index_lt : index < 8)
    (unreadable : Unreadable ctx st (st.regs.ip + BitVec.ofNat 32 index)) :
    parseEmuInstruction ctx st = .ok (-enomem) st := by
  by_cases first : index < 4
  · apply parseEmuInstruction_of_first_fault
    exact getUser_of_unreadable ((inWord_iff_exists_offset _ _).mpr ⟨index, first, rfl⟩) unreadable
  · have split : st.regs.ip + BitVec.ofNat 32 index =
        st.regs.ip + 4 + BitVec.ofNat 32 (index - 4) := by
      rw [BitVec.add_assoc, show (4 : Word) = BitVec.ofNat 32 4 from rfl, ← BitVec.ofNat_add]
      congr 2
      omega
    have fault : getUser ctx (st.regs.ip + 4) st = .ok (-efault, 0) st := by
      rw [split] at unreadable
      exact getUser_of_unreadable
        ((inWord_iff_exists_offset _ _).mpr ⟨index - 4, by omega, rfl⟩) unreadable
    rcases getUser_cases ctx st.regs.ip st with firstFault | ⟨insts, -, -, fetch⟩
    · exact parseEmuInstruction_of_first_fault firstFault
    · exact parseEmuInstruction_of_second_fault fetch fault

/-- No instruction at the end of the mapped text is emulated. -/
theorem endOfText_not_emulated (ctx : TrapContext) (st : State) (code : Nat → Byte)
    (atEnd : AtEndOfText ctx st code) : ¬EmulatedAsIfMapped ctx st code := by
  rcases atEnd.beyond with ⟨index, -, index_lt, unreadable⟩
  rintro ⟨final, run, -⟩
  rw [parseEmuInstruction_of_unreadable index_lt unreadable] at run
  injection run with ret_eq
  exact absurd ret_eq (by decide)

def endbr32Code : List Byte := [0xf3, 0x0f, 0x1e, 0xfb]

/-- `endbr32` in the last four bytes of the only page that is mapped. -/
def endOfPageState : State :=
  { regs := { sampleRegs with ip := 0x08048ffc }
    mem :=
      { byteAt := fun address => endbr32Code.getD (address - 0x08048ffc).toNat 0
        present := fun other => other = page 0x08048ffc
        writable := fun _ => true }
    bus := [] }

theorem endOfPage_atEndOfText :
    AtEndOfText sampleContext endOfPageState (fun index => endbr32Code.getD index 0) :=
  { form := .endbr32 (by decide)
    bytes := by decide
    beyond := ⟨4, by decide, by decide, Or.inr (by decide)⟩ }

theorem endOfText_not_emulated_endbr32 :
    ¬EmulatedAsIfMapped sampleContext endOfPageState (fun index => endbr32Code.getD index 0) :=
  endOfText_not_emulated sampleContext endOfPageState _ endOfPage_atEndOfText

/-- The process is killed by an instruction that is there only to be skipped. -/
theorem endbr32_endOfPage_refused :
    AtEndOfText sampleContext endOfPageState (fun index => endbr32Code.getD index 0) ∧
      returned (parseEmuInstruction sampleContext endOfPageState) = some (-enomem) ∧
      ¬EmulatedAsIfMapped sampleContext endOfPageState
        (fun index => endbr32Code.getD index 0) := by
  have refused : returned (parseEmuInstruction sampleContext endOfPageState) =
      some (-enomem) := by
    decide
  refine ⟨endOfPage_atEndOfText, refused, ?_⟩
  rintro ⟨final, run, -⟩
  rw [run] at refused
  injection refused with ret_eq
  exact absurd ret_eq (by decide)

/-- The position alone is to blame: where both windows can be read, every short form is emulated. -/
theorem parseEmuInstruction_of_shortForm {code : Nat → Byte} (form : ShortForm code)
    (fetches : Fetches ctx st code) : ∃ final, parseEmuInstruction ctx st = .ok 1 final := by
  cases form with
  | endbr32 bytes =>
      exact ⟨_, parseEmuInstruction_of_success fetches
        (emulate_endbr32 ctx code st ((endbr32_iff code).mpr bytes))⟩
  | bswap escape opcode =>
      exact ⟨_, parseEmuInstruction_of_success fetches
        (emulate_bswap ctx code st escape opcode)⟩
  | register op encodes form => exact parseEmuInstruction_of_register fetches encodes form

end EndOfText

end Gray386.Emu
