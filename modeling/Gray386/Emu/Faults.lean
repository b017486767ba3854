import Gray386.Emu.Deviations

/-!
# The word that the emulator works on

For a negative byte displacement the emulator works on the word 256 bytes behind the operand,
and for all other operands in memory that it takes up on the operand itself. The pages of that
word need not allow what the handlers do, and nothing is reported then: the results of
`get_user` and `put_user` are dropped and a plain access has no fixup. So a handler stops the
kernel or returns 1, and what it leaves in the frame is a function of the frame and the word.

From this it follows on which inputs a failing access is reported as a failure, and that
`CMPXCHG`, which sets the zero flag and leaves the other arithmetic flags as they were, has the
flags of the comparison only if they were right before.
-/

namespace Gray386.Emu

open Gray386.Machine

/-- A negative byte displacement. -/
def Misplaced (code : Nat → Byte) : Prop :=
  ByteDisplacement (code 0) ∧ 0x80 ≤ (code 1).toNat

instance (code : Nat → Byte) : Decidable (Misplaced code) :=
  inferInstanceAs (Decidable (_ ∧ _))

/-- The word that the emulator works on, for an operand at this address. -/
def usedWord (code : Nat → Byte) (address : Word) : Word :=
  if Misplaced code then address + 0x100 else address

/--
The emulator works on a word for the operand at this address: there is a displacement and no
SIB byte, and the word passes the range check.
-/
structure TakesUp (ctx : TrapContext) (code : Nat → Byte) (address : Word) : Prop where
  noSib : Ia32.rmField (code 0) ≠ 4
  direct : ¬RegisterIndirect (code 0)
  below : (usedWord code address).toNat + 4 ≤ ctx.addrLimit.toNat

instance (ctx : TrapContext) (code : Nat → Byte) (address : Word) :
    Decidable (TakesUp ctx code address) :=
  decidable_of_iff (Ia32.rmField (code 0) ≠ 4 ∧ ¬RegisterIndirect (code 0) ∧
      (usedWord code address).toNat + 4 ≤ ctx.addrLimit.toNat)
    ⟨fun ⟨noSib, direct, below⟩ => ⟨noSib, direct, below⟩,
      fun takes => ⟨takes.noSib, takes.direct, takes.below⟩⟩

theorem usedWord_of_not_misplaced {code : Nat → Byte} (placed : ¬Misplaced code) (address : Word) :
    usedWord code address = address :=
  if_neg placed

theorem usedWord_of_misplaced {code : Nat → Byte} (misplaced : Misplaced code) (address : Word) :
    usedWord code address = address + 0x100 :=
  if_pos misplaced

/-- The two words have no byte in common. -/
theorem not_inWord_of_inWord {address other : Word} (inside : InWord address other) :
    ¬InWord (address + 0x100) other := by
  simp only [InWord] at inside ⊢
  rcases inside with rfl | rfl | rfl | rfl <;> bv_omega

theorem setWidth_of_negative :
    ∀ displacement : Byte, 0x80 ≤ displacement.toNat →
      displacement.setWidth 32 = displacement.signExtend 32 + (0x100 : Word) := by
  decide

section Decoder

variable {st : State} {code : Nat → Byte} {address : Word} {length : Nat}

theorem decodeOperand_of_mem
    (isa : Ia32.modrmOperand st.arch.gpr code = (.mem address, length))
    (noSib : Ia32.rmField (code 0) ≠ 4) (direct : ¬RegisterIndirect (code 0)) :
    decodeOperand st.regs code = some ⟨.user (usedWord code address), true, length⟩ := by
  simp only [Ia32.modrmOperand] at isa
  simp only [decodeOperand]
  by_cases register : Ia32.modField (code 0) = 3
  · rw [if_pos register] at isa
    cases isa
  rw [if_neg register, if_neg noSib] at isa ⊢
  by_cases zero : Ia32.modField (code 0) = 0
  · have absolute : Ia32.rmField (code 0) = 5 := by
      by_contra relative
      exact direct ⟨zero, noSib, relative⟩
    have placed : ¬Misplaced code := fun misplaced =>
      absurd (misplaced.1.1.symm.trans zero) (by decide)
    rw [if_pos zero, if_pos absolute] at isa ⊢
    cases isa
    rw [usedWord_of_not_misplaced placed]
  rw [if_neg zero] at isa ⊢
  by_cases one : Ia32.modField (code 0) = 1
  · rw [if_pos one] at isa ⊢
    cases isa
    by_cases negative : 0x80 ≤ (code 1).toNat
    · rw [usedWord_of_misplaced ⟨⟨one, noSib⟩, negative⟩, setWidth_of_negative _ negative,
        ← BitVec.add_assoc]
      rfl
    · rw [usedWord_of_not_misplaced (fun misplaced => negative misplaced.2),
        (setWidth_eq_signExtend_iff _).mpr (Nat.lt_of_not_le negative)]
      rfl
  · have placed : ¬Misplaced code := fun misplaced => one misplaced.1.1
    rw [if_neg one] at isa ⊢
    cases isa
    rw [usedWord_of_not_misplaced placed]
    rfl

theorem decodeOperand_of_sib
    (isa : Ia32.modrmOperand st.arch.gpr code = (.mem address, length))
    (sib : Ia32.rmField (code 0) = 4) : decodeOperand st.regs code = none := by
  simp only [Ia32.modrmOperand] at isa
  simp only [decodeOperand]
  by_cases register : Ia32.modField (code 0) = 3
  · rw [if_pos register] at isa
    cases isa
  · rw [if_neg register, if_pos sib]

/-- What the decoder finds is the operand, a saved register that holds its address, or a word. -/
theorem decodeOperand_cases {operand : Operand}
    (decodes : decodeOperand st.regs code = some operand) :
    (∃ register, (Ia32.modrmOperand st.arch.gpr code).1 = .reg register ∧
        operand.dest = .slot (Slot.ofReg register) ∧ operand.inMemory = false) ∨
      (∃ member, operand.dest = .slot member ∧ operand.inMemory = true) ∨
      ∃ address, (Ia32.modrmOperand st.arch.gpr code).1 = .mem address ∧
        (Ia32.rmField (code 0) ≠ 4 ∧ ¬RegisterIndirect (code 0)) ∧
        operand.dest = .user (usedWord code address) ∧ operand.inMemory = true := by
  by_cases register : Ia32.modField (code 0) = 3
  · simp only [decodeOperand, if_pos register, Option.some.injEq] at decodes
    subst decodes
    refine Or.inl ⟨Ia32.Reg.ofField (Ia32.rmField (code 0)), ?_, rfl, rfl⟩
    simp only [Ia32.modrmOperand, if_pos register]
  by_cases sib : Ia32.rmField (code 0) = 4
  · simp only [decodeOperand, if_neg register, if_pos sib] at decodes
    cases decodes
  by_cases indirect : RegisterIndirect (code 0)
  · rw [decodeOperand_of_registerIndirect indirect, Option.some.injEq] at decodes
    subst decodes
    exact Or.inr (Or.inl ⟨_, rfl, rfl⟩)
  · obtain ⟨address, isa⟩ : ∃ address, (Ia32.modrmOperand st.arch.gpr code).1 = .mem address := by
      simp only [Ia32.modrmOperand, if_neg register, if_neg sib]
      split_ifs <;> exact ⟨_, rfl⟩
    rw [decodeOperand_of_mem (Prod.ext isa rfl) sib indirect, Option.some.injEq] at decodes
    subst decodes
    exact Or.inr (Or.inr ⟨address, isa, ⟨sib, indirect⟩, rfl, rfl⟩)

end Decoder

section Refused

variable {ctx : TrapContext} {st : State} {locked : Bool} {op : Ia32.AtomicOp} {address : Word}

/-- An instruction that the emulator does not take up fails without an effect. -/
theorem refused_of_not_takesUp (fromUser : ctx.FromUser)
    (instruction : InstructionAt ctx st locked op) (isa : (st.isaOperand locked).1 = .mem address)
    (declines : ¬TakesUp ctx (operandCode st.codeAt locked) address) :
    ∃ ret final, parseEmuInstruction ctx st = .ok ret final ∧ ret < 0 ∧
      final.regs = st.regs ∧ final.mem = st.mem := by
  have operand_eq : Ia32.modrmOperand st.arch.gpr (operandCode st.codeAt locked) =
      (.mem address, (st.isaOperand locked).2) := Prod.ext isa rfl
  have fetches := fetches_of_readable instruction.first instruction.second
  by_cases sib : Ia32.rmField (operandCode st.codeAt locked 0) = 4
  · rw [parseEmuInstruction_of_atomic fetches instruction.encodes, decodeAtomic,
      decodeOperand_of_sib operand_eq sib]
    exact ⟨_, _, rfl, by decide, rfl, rfl⟩
  by_cases indirect : RegisterIndirect (operandCode st.codeAt locked 0)
  · rcases registerIndirect_refused fromUser instruction.encodes indirect with
      ⟨final, run, regs_eq, mem_eq⟩
    exact ⟨_, final, run, by decide, regs_eq, mem_eq⟩
  · have outOfRange : accessOk ctx (usedWord (operandCode st.codeAt locked) address) 4 = false := by
      rw [accessOk_eq_false_iff]
      by_contra inRange
      exact declines ⟨sib, indirect, Nat.le_of_not_lt inRange⟩
    rw [parseEmuInstruction_out_of_range fetches instruction.encodes
      (decodeOperand_of_mem operand_eq sib indirect) rfl outOfRange]
    exact ⟨_, _, rfl, by decide, rfl, rfl⟩

/-- Otherwise a handler goes to work on the word. -/
theorem operated_of_takesUp (instruction : InstructionAt ctx st locked op)
    (isa : (st.isaOperand locked).1 = .mem address)
    (takes : TakesUp ctx (operandCode st.codeAt locked) address) :
    ∃ pstate operand, Decoded pstate (Slot.ofReg (st.isaSource locked)) operand ∧
      operand.dest = .user (usedWord (operandCode st.codeAt locked) address) ∧
      operand.inMemory = true ∧ operand.length = (st.isaOperand locked).2 ∧
      parseEmuInstruction ctx st =
        operate ctx op pstate (st.begun ctx (lockLength locked + 2) operand) := by
  have fetches := fetches_of_readable instruction.first instruction.second
  rcases parseEmuInstruction_operated fetches instruction.encodes
    (decodeOperand_of_mem (Prod.ext isa rfl) takes.noSib takes.direct)
    (fun _ => (accessOk_iff ctx _).mpr takes.below) with ⟨pstate, decoded, run⟩
  exact ⟨pstate, _, decoded, rfl, rfl, rfl, run⟩

end Refused

/-- A plain access of the handler to this word is not possible, and the kernel stops. -/
def State.Stops (ctx : TrapContext) (st : State) (op : Ia32.AtomicOp) (used : Word) : Prop :=
  (∃ other, InWord used other ∧ st.mem.present (page other) = false) ∨
    op = .cmpxchg ∧ st.regs.ax = st.mem.load used ∧
      ∃ other, InWord used other ∧ st.storable ctx other = false

theorem State.present_of_not_stops {ctx : TrapContext} {st : State} {op : Ia32.AtomicOp}
    {used other : Word} (proceeds : ¬st.Stops ctx op used) (inside : InWord used other) :
    st.mem.present (page other) = true := by
  by_contra absent
  exact proceeds (Or.inl ⟨other, inside, by simpa using absent⟩)

theorem State.storable_of_not_stops {ctx : TrapContext} {st : State} {used other : Word}
    (proceeds : ¬st.Stops ctx .cmpxchg used) (equal : st.regs.ax = st.mem.load used)
    (inside : InWord used other) : st.storable ctx other = true := by
  by_contra refused
  exact proceeds (Or.inr ⟨rfl, equal, other, inside, by simpa using refused⟩)

/-- The frame that a handler leaves, for a word with this value. -/
def PtRegs.after (regs : PtRegs) (op : Ia32.AtomicOp) (src : Slot) (value : Word) : PtRegs :=
  match op with
  | .cmpxchg =>
      if regs.ax = value then regs.set .flags (regs.flags ||| Ia32.zf)
      else (regs.set .flags (regs.flags &&& ~~~Ia32.zf)).set .ax value
  | .xadd =>
      (regs.set .flags
        (Ia32.setArithFlags regs.flags (Ia32.addFlags value (regs.get src)))).set src value

/-- The value that the instruction gives a word with this value. -/
def PtRegs.result (regs : PtRegs) (op : Ia32.AtomicOp) (src : Slot) (value : Word) : Word :=
  match op with
  | .cmpxchg => if regs.ax = value then regs.get src else value
  | .xadd => value + regs.get src

/-- The instruction leaves a word with this value as it is. -/
def PtRegs.Idle (regs : PtRegs) (op : Ia32.AtomicOp) (src : Slot) (value : Word) : Prop :=
  regs.result op src value = value

instance (regs : PtRegs) (op : Ia32.AtomicOp) (src : Slot) (value : Word) :
    Decidable (regs.Idle op src value) :=
  inferInstanceAs (Decidable (_ = _))

theorem PtRegs.idle_xadd_iff (regs : PtRegs) (src : Slot) (value : Word) :
    regs.Idle .xadd src value ↔ regs.get src = 0 :=
  BitVec.add_right_eq_self

/-- What a handler that returns has done, if it worked on this word. -/
structure WorkedOn (used : Word) (op : Ia32.AtomicOp) (src : Slot) (before final : State) :
    Prop where
  regs : final.regs = before.regs.after op src (before.mem.load used)
  elsewhere : ∀ other, ¬InWord used other → final.mem.byteAt other = before.mem.byteAt other
  idle : before.regs.Idle op src (before.mem.load used) → final.mem.byteAt = before.mem.byteAt
  compared : op = .cmpxchg →
    final.mem.load used = before.regs.result op src (before.mem.load used)

/-- Writing the bytes that are there already changes nothing. -/
theorem State.byteAt_writeBytes_of_same (ctx : TrapContext) (st : State) {target : Word}
    {bytes : List Byte}
    (same : ∀ offset (offset_lt : offset < bytes.length),
      bytes[offset] = st.mem.byteAt (target + BitVec.ofNat 32 offset)) :
    (st.writeBytes ctx target bytes).mem.byteAt = st.mem.byteAt := by
  induction bytes generalizing st target with
  | nil => rfl
  | cons value rest ih =>
      have unchanged : (st.writeByte ctx target value).mem.byteAt = st.mem.byteAt := by
        have value_eq : value = st.mem.byteAt target :=
          (same 0 (by simp)).trans (congrArg st.mem.byteAt (BitVec.add_zero target))
        rw [State.writeByte]
        split_ifs
        · rfl
        · rw [value_eq]
          exact Function.update_eq_self target st.mem.byteAt
      rw [State.writeBytes, ih, unchanged]
      intro offset offset_lt
      rw [unchanged, add_one_add_ofNat]
      exact same (offset + 1) (by simpa using offset_lt)

theorem lt_four_of_lt_take {value : Word} {count offset : Nat}
    (offset_lt : offset <
      ([byte value 0, byte value 1, byte value 2, byte value 3].take count).length) :
    offset < 4 := by
  rw [List.length_take] at offset_lt
  exact lt_of_lt_of_le offset_lt (Nat.min_le_right _ _)

/-- Any number of bytes of the word that is there already. -/
theorem State.byteAt_writeBytes_load (ctx : TrapContext) (st : State) {address value : Word}
    (value_eq : value = st.mem.load address) (count : Nat) :
    (st.writeBytes ctx address
      ([byte value 0, byte value 1, byte value 2, byte value 3].take count)).mem.byteAt =
        st.mem.byteAt := by
  subst value_eq
  apply State.byteAt_writeBytes_of_same
  intro offset offset_lt
  have lt_four := lt_four_of_lt_take offset_lt
  rw [List.getElem_take]
  interval_cases offset
  · exact (byte_ofBytes _ _ _ _ 0).trans (congrArg st.mem.byteAt (BitVec.add_zero address).symm)
  · exact byte_ofBytes _ _ _ _ 1
  · exact byte_ofBytes _ _ _ _ 2
  · exact byte_ofBytes _ _ _ _ 3

theorem Operand.Denotes.outside {ctx : TrapContext} {operand : Operand} {address : Word}
    (denotes : operand.Denotes ctx (.mem address)) : OutsideFrame ctx address := by
  cases denotes with
  | memory address dest inMemory below outside => exact outside

section Handlers

variable {ctx : TrapContext} {pstate : ParserState} {register : Ia32.Reg} {operand : Operand}
  {used : Word} {st : State} (decoded : Decoded pstate (Slot.ofReg register) operand)
  (denotes : operand.Denotes ctx (.mem used))

include decoded denotes

theorem loadDest_of_present
    (present : ∀ other, InWord used other → st.mem.present (page other) = true) :
    loadDest ctx pstate st = .ok (st.mem.load used) (st.log (.read used)) := by
  simp only [loadDest, recordDest, decoded.regsOnly, decoded.instDest]
  cases denotes with
  | memory address dest inMemory below outside =>
      rw [inMemory, dest]
      exact deref_of_readable (st.log (.read used))
        ⟨bytes_lt_of_add_four_le below, outside, present⟩

theorem loadDest_of_absent {other : Word} (inside : InWord used other)
    (absent : st.mem.present (page other) = false) :
    loadDest ctx pstate st = .error ⟨used⟩ (st.log (.read used)) := by
  simp only [loadDest, recordDest, decoded.regsOnly, decoded.instDest]
  cases denotes with
  | memory address dest inMemory below outside =>
      have oops : deref ctx (.user used) (st.log (.read used)) =
          .error ⟨used⟩ (st.log (.read used)) := by
        simp only [deref,
          @State.load_of_absent ctx (st.log (.read used)) used other outside inside absent]
      rw [inMemory, dest]
      exact oops

theorem storeDest_of_storable
    (storable : ∀ other, InWord used other → st.storable ctx other = true) (value : Word) :
    storeDest ctx pstate value st =
      .ok () { st.log (.write used) with mem := st.mem.store used value } := by
  simp only [storeDest, recordDest, decoded.regsOnly, decoded.instDest]
  cases denotes with
  | memory address dest inMemory below outside =>
      have allowed : ((st.log (.write used)).storable ctx used &&
          (st.log (.write used)).storable ctx (used + 1) &&
          (st.log (.write used)).storable ctx (used + 2) &&
          (st.log (.write used)).storable ctx (used + 3)) = true := by
        simp only [Bool.and_eq_true]
        exact ⟨⟨⟨storable _ (by simp [InWord]), storable _ (by simp [InWord])⟩,
          storable _ (by simp [InWord])⟩, storable _ (by simp [InWord])⟩
      have stores : assign ctx (.user used) value (st.log (.write used)) =
          .ok () { st.log (.write used) with mem := st.mem.store used value } := by
        simp only [assign, State.store, if_pos allowed, State.writeBytes_of_outside outside]
        rfl
      rw [inMemory, dest]
      exact stores

theorem storeDest_of_not_storable {other : Word} (inside : InWord used other)
    (refused : st.storable ctx other = false) (value : Word) :
    storeDest ctx pstate value st = .error ⟨used⟩ (st.log (.write used)) := by
  simp only [storeDest, recordDest, decoded.regsOnly, decoded.instDest]
  cases denotes with
  | memory address dest inMemory below outside =>
      have forbidden : ¬((st.log (.write used)).storable ctx used &&
          (st.log (.write used)).storable ctx (used + 1) &&
          (st.log (.write used)).storable ctx (used + 2) &&
          (st.log (.write used)).storable ctx (used + 3)) = true := by
        have refused' : (st.log (.write used)).storable ctx other = false := refused
        simp only [Bool.and_eq_true]
        rintro ⟨⟨⟨zero, one⟩, two⟩, three⟩
        rcases inside with rfl | rfl | rfl | rfl <;> simp_all
      have oops : assign ctx (.user used) value (st.log (.write used)) =
          .error ⟨used⟩ (st.log (.write used)) := by
        simp only [assign, State.store, if_neg forbidden]
      rw [inMemory, dest]
      exact oops

theorem xaddDest_of_present
    (present : ∀ other, InWord used other → st.mem.present (page other) = true) :
    xaddDest ctx pstate st = .ok (st.mem.load used) (st.log (.read used)) := by
  simp only [xaddDest, decoded.regsOnly, decoded.instDest]
  cases denotes with
  | memory address dest inMemory below outside =>
      rw [inMemory, dest]
      exact run_bind_ok (getUser_of_readable (st.log (.read used))
        ⟨bytes_lt_of_add_four_le below, outside, present⟩)

/-- `get_user` never stops the kernel. -/
theorem xaddDest_ok : ∃ value, xaddDest ctx pstate st = .ok value (st.log (.read used)) := by
  simp only [xaddDest, decoded.regsOnly, decoded.instDest]
  cases denotes with
  | memory address dest inMemory below outside =>
      rw [inMemory, dest]
      rcases getUser_cases ctx used (st.log (.read used)) with fault | ⟨value, -, -, fetch⟩
      · exact ⟨_, run_bind_ok fault⟩
      · exact ⟨_, run_bind_ok fetch⟩

/-- Nor does `put_user`, which writes as many bytes as it can. -/
theorem xaddStore_ok (value : Word) :
    ∃ count, xaddStore ctx pstate value st = .ok () ((st.log (.write used)).writeBytes ctx used
      ([byte value 0, byte value 1, byte value 2, byte value 3].take count)) := by
  simp only [xaddStore, decoded.regsOnly, decoded.instDest]
  cases denotes with
  | memory address dest inMemory below outside =>
      rw [inMemory, dest]
      rcases putUser_eq_take ctx value used (st.log (.write used)) with ⟨ret, count, copied⟩
      exact ⟨count, run_bind_ok copied⟩

theorem operateCmpxchg_stops (stops : st.Stops ctx .cmpxchg used) :
    ∃ stop final, operateCmpxchg ctx pstate st = .error stop final := by
  simp only [operateCmpxchg]
  by_cases present : ∀ other, InWord used other → st.mem.present (page other) = true
  · rcases stops with ⟨other, inside, absent⟩ | ⟨-, equal, other, inside, refused⟩
    · exact absurd (present other inside) (by simp [absent])
    rw [run_bind_ok (loadDest_of_present decoded denotes present), run_get_bind,
      if_pos (show (st.log (.read used)).regs.ax = st.mem.load used from equal),
      run_bind_ok (run_updateFlags _ _), run_bind_ok (deref_src_run decoded rfl),
      run_bind_error (storeDest_of_not_storable decoded denotes inside (by exact refused) _)]
    exact ⟨_, _, rfl⟩
  · push Not at present
    rcases present with ⟨other, inside, absent⟩
    rw [run_bind_error (loadDest_of_absent decoded denotes inside (by simpa using absent))]
    exact ⟨_, _, rfl⟩

theorem operateXadd_stops (stops : st.Stops ctx .xadd used) :
    ∃ stop final, operateXadd ctx pstate st = .error stop final := by
  rcases stops with ⟨other, inside, absent⟩ | ⟨isCmpxchg, -⟩
  · rcases @xaddDest_ok ctx pstate register operand used st decoded denotes with ⟨value, fetched⟩
    simp only [operateXadd]
    rw [run_bind_ok fetched, run_bind_ok (deref_src_run decoded rfl),
      run_bind_ok (run_updateFlags _ _), run_bind_ok (run_updateFlags _ _),
      run_bind_error (loadDest_of_absent decoded denotes inside (by exact absent))]
    exact ⟨_, _, rfl⟩
  · cases isCmpxchg

theorem operateCmpxchg_workedOn (proceeds : ¬st.Stops ctx .cmpxchg used) :
    ∃ final, operateCmpxchg ctx pstate st = .ok 1 final ∧
      WorkedOn used .cmpxchg (Slot.ofReg register) st final := by
  have present : ∀ other, InWord used other → st.mem.present (page other) = true :=
    fun _ => State.present_of_not_stops proceeds
  simp only [operateCmpxchg]
  rw [run_bind_ok (loadDest_of_present decoded denotes present), run_get_bind]
  by_cases equal : st.regs.ax = st.mem.load used
  · have storable : ∀ other, InWord used other → st.storable ctx other = true :=
      fun _ => State.storable_of_not_stops proceeds equal
    rw [if_pos (show (st.log (.read used)).regs.ax = st.mem.load used from equal),
      run_bind_ok (run_updateFlags _ _), run_bind_ok (deref_src_run decoded rfl),
      run_bind_ok (storeDest_of_storable decoded denotes (by exact storable) _)]
    have src_eq : ((st.log (.read used)).withFlags
        ((st.log (.read used)).arch.eflags ||| Ia32.zf)).arch.gpr register =
          st.regs.get (Slot.ofReg register) :=
      PtRegs.get_set_of_ne _ (Slot.ofReg_ne_flags register) _
    refine ⟨_, rfl, ?_, ?_, ?_, ?_⟩
    · rw [PtRegs.after, if_pos equal]
      rfl
    · intro other elsewhere
      exact Memory.byteAt_store_of_not_inWord elsewhere _
    · intro idle
      rw [PtRegs.Idle, PtRegs.result, if_pos equal] at idle
      rw [src_eq, idle]
      exact Memory.byteAt_store_load st.mem used
    · intro _
      rw [PtRegs.result, if_pos equal, src_eq]
      exact Memory.load_store st.mem used _
  · rw [if_neg (show ¬(st.log (.read used)).regs.ax = st.mem.load used from equal),
      run_bind_ok (run_updateFlags _ _),
      run_bind_ok (loadDest_of_present decoded denotes (by exact present))]
    refine ⟨_, rfl, ?_, fun _ _ => rfl, fun _ => rfl, ?_⟩
    · rw [PtRegs.after, if_neg equal]
      rfl
    · intro _
      rw [PtRegs.result, if_neg equal]
      rfl

theorem operateXadd_workedOn (proceeds : ¬st.Stops ctx .xadd used) :
    ∃ final, operateXadd ctx pstate st = .ok 1 final ∧
      WorkedOn used .xadd (Slot.ofReg register) st final := by
  have present : ∀ other, InWord used other → st.mem.present (page other) = true :=
    fun _ => State.present_of_not_stops proceeds
  simp only [operateXadd]
  rw [run_bind_ok (xaddDest_of_present decoded denotes present),
    run_bind_ok (deref_src_run decoded rfl), run_bind_ok (run_updateFlags _ _),
    run_bind_ok (run_updateFlags _ _),
    run_bind_ok (loadDest_of_present decoded denotes (by exact present)),
    run_bind_ok (assign_src_run decoded _ _)]
  generalize fetched_eq : State.writeDest _ (.reg register) _ = fetched
  have mem_eq : fetched.mem = st.mem := by
    rw [← fetched_eq]
    rfl
  rcases @xaddStore_ok ctx pstate register operand used fetched decoded denotes
    (addlPushfl ctx (st.mem.load used) ((st.log (.read used)).arch.gpr register)).1
    with ⟨count, stored⟩
  rw [run_bind_ok stored]
  refine ⟨_, rfl, ?_, ?_, ?_, ?_⟩
  · rw [State.regs_writeBytes]
    · rw [← fetched_eq, PtRegs.after, ← assembled_flags ctx]
      rfl
    · intro offset offset_lt
      exact denotes.outside _ ((inWord_iff_exists_offset _ _).mpr
        ⟨offset, lt_four_of_lt_take offset_lt, rfl⟩)
  · intro other elsewhere
    rw [State.byteAt_writeBytes_of_ne]
    · exact congrArg (Memory.byteAt · other) mem_eq
    · rintro offset offset_lt rfl
      exact elsewhere ((inWord_iff_exists_offset _ _).mpr
        ⟨offset, lt_four_of_lt_take offset_lt, rfl⟩)
  · intro idle
    rw [State.byteAt_writeBytes_load]
    · exact congrArg Memory.byteAt mem_eq
    · have source : (st.log (.read used)).arch.gpr register = 0 :=
        (PtRegs.idle_xadd_iff _ _ _).mp idle
      rw [addlPushfl, source]
      exact (BitVec.zero_add _).trans (congrArg (Memory.load · used) mem_eq.symm)
  · intro isCmpxchg
    cases isCmpxchg

theorem operate_stops {op : Ia32.AtomicOp} (stops : st.Stops ctx op used) :
    ∃ stop final, operate ctx op pstate st = .error stop final := by
  cases op with
  | cmpxchg => exact operateCmpxchg_stops decoded denotes stops
  | xadd => exact operateXadd_stops decoded denotes stops

theorem operate_workedOn {op : Ia32.AtomicOp} (proceeds : ¬st.Stops ctx op used) :
    ∃ final, operate ctx op pstate st = .ok 1 final ∧
      WorkedOn used op (Slot.ofReg register) st final := by
  cases op with
  | cmpxchg => exact operateCmpxchg_workedOn decoded denotes proceeds
  | xadd => exact operateXadd_workedOn decoded denotes proceeds

end Handlers

/-- An instruction with its operand in memory stops the kernel or works on the word. -/
theorem Decision.perform_workedOn {ctx : TrapContext} {operand : Operand} {used : Word}
    (denotes : operand.Denotes ctx (.mem used)) (op : Ia32.AtomicOp) (register : Ia32.Reg)
    (skip : Nat) (st : State) :
    (st.Stops ctx op used → ∃ stop final,
        (Decision.atomic op (Slot.ofReg register) skip operand).perform ctx st =
          .error stop final) ∧
      (¬st.Stops ctx op used → ∃ final,
        (Decision.atomic op (Slot.ofReg register) skip operand).perform ctx st = .ok 1 final ∧
          WorkedOn used op (Slot.ofReg register) (st.advance (skip + operand.length)) final) := by
  cases denotes with
  | memory address dest inMemory below outside =>
      have decoded := operand.decoded_parsed (Slot.ofReg register)
      have denotes : operand.Denotes ctx (.mem used) := .memory used dest inMemory below outside
      have begun_eq : st.begun ctx skip operand =
          (st.advance (skip + operand.length)).log (.check (operand.dest.address ctx)) :=
        if_pos inMemory
      rw [Decision.perform_of_inRange op _ _ (fun _ => by rwa [dest, Ptr.address, accessOk_iff]),
        begun_eq]
      refine ⟨fun stops => operate_stops decoded denotes (by exact stops), ?_⟩
      intro proceeds
      rcases operate_workedOn decoded denotes (show ¬State.Stops ctx
        ((st.advance (skip + operand.length)).log (.check (operand.dest.address ctx))) op used
          from proceeds) with ⟨final, operated, worked⟩
      exact ⟨final, operated, worked.regs, worked.elsewhere, worked.idle, worked.compared⟩

theorem State.result_advance (st : State) (op : Ia32.AtomicOp) (register : Ia32.Reg)
    (value : Word) (count : Nat) :
    (st.advance count).regs.result op (Slot.ofReg register) value =
      st.regs.result op (Slot.ofReg register) value := by
  cases op with
  | cmpxchg =>
      simp only [PtRegs.result, State.get_advance_of_ne st count (Slot.ofReg_ne_ip register)]
      rfl
  | xadd => simp only [PtRegs.result, State.get_advance_of_ne st count (Slot.ofReg_ne_ip register)]

/-- The memory that the instruction leaves. -/
theorem State.mem_exec (st : State) (op : Ia32.AtomicOp) (address : Word) (register : Ia32.Reg)
    (length : Nat) :
    (op.exec st.arch (.mem address) register length).mem =
      (st.mem.store address
        (st.regs.result op (Slot.ofReg register) (st.mem.load address))).byteAt := by
  rw [Ia32.AtomicOp.exec_eq]
  cases op with
  | xadd =>
      funext other
      exact (Memory.byteAt_store st.mem address _ other).symm
  | cmpxchg =>
      by_cases equal : st.regs.ax = st.mem.load address
      · rw [PtRegs.result, if_pos equal]
        dsimp only
        rw [Ia32.cmpxchg_of_eq (by exact equal)]
        funext other
        exact (Memory.byteAt_store st.mem address _ other).symm
      · rw [PtRegs.result, if_neg equal, Memory.byteAt_store_load]
        dsimp only
        rw [Ia32.cmpxchg_of_ne (by exact equal)]
        rfl

section Call

variable {ctx : TrapContext} {st : State} {locked : Bool} {op : Ia32.AtomicOp} {address : Word}

/-- The call stops the kernel or works on the word. -/
theorem parseEmuInstruction_workedOn (fromUser : ctx.FromUser)
    (instruction : InstructionAt ctx st locked op) (isa : (st.isaOperand locked).1 = .mem address)
    (takes : TakesUp ctx (operandCode st.codeAt locked) address) :
    (st.Stops ctx op (usedWord (operandCode st.codeAt locked) address) →
        ∃ stop final, parseEmuInstruction ctx st = .error stop final) ∧
      (¬st.Stops ctx op (usedWord (operandCode st.codeAt locked) address) →
        ∃ final, parseEmuInstruction ctx st = .ok 1 final ∧
          WorkedOn (usedWord (operandCode st.codeAt locked) address) op
            (Slot.ofReg (st.isaSource locked)) (st.advance (st.isaLength locked)) final) := by
  rw [parseEmuInstruction_of_atomic (fetches_of_readable instruction.first instruction.second)
    instruction.encodes, decodeAtomic,
    decodeOperand_of_mem (Prod.ext isa rfl) takes.noSib takes.direct]
  exact Decision.perform_workedOn (.memory _ rfl rfl takes.below
    (outsideFrame_of_fromUser fromUser takes.below)) op (st.isaSource locked) _ st

/-- If only the operand has changed, neither word has. -/
theorem WorkedOn.idle_of_byteAt_eq {used : Word} {src : Slot} {before final : State}
    (worked : WorkedOn used op src before final)
    (disjoint : ∀ other, InWord address other → ¬InWord used other)
    (byteAt_eq : final.mem.byteAt = (before.mem.store address
      (before.regs.result op src (before.mem.load address))).byteAt) :
    before.regs.Idle op src (before.mem.load address) ∧
      before.regs.Idle op src (before.mem.load used) := by
  have idle : before.regs.Idle op src (before.mem.load address) := by
    rw [PtRegs.Idle, ← Memory.load_store before.mem address (before.regs.result _ _ _)]
    apply Memory.load_congr
    intro other inside
    rw [← byteAt_eq, worked.elsewhere other (disjoint other inside)]
  refine ⟨idle, ?_⟩
  cases op with
  | xadd =>
      rw [PtRegs.idle_xadd_iff] at idle ⊢
      exact idle
  | cmpxchg =>
      rw [PtRegs.Idle, ← worked.compared rfl]
      apply Memory.load_congr
      intro other inside
      rw [byteAt_eq, Memory.byteAt_store_of_not_inWord]
      intro inAddress
      exact disjoint other inAddress inside

theorem operate_refines_mem {pstate : ParserState} {register : Ia32.Reg} {operand : Operand}
    {dest : Ia32.Dest} (decoded : Decoded pstate (Slot.ofReg register) operand)
    (denotes : operand.Denotes ctx dest) (accessible : Accessible st.mem dest) (skip : Nat) :
    ∃ final, operate ctx op pstate (st.begun ctx skip operand) = .ok 1 final ∧
      final.arch.mem = (op.exec st.arch dest register (skip + operand.length)).mem := by
  cases op with
  | cmpxchg =>
      rcases operateCmpxchg_refines decoded denotes (accessible.begun _ _)
        with ⟨final, run, -, -, mem_eq, -⟩
      refine ⟨final, run, ?_⟩
      rw [mem_eq, State.arch_begun, Ia32.AtomicOp.exec_eq]
  | xadd =>
      rcases operateXadd_refines decoded denotes (accessible.begun _ _) with ⟨final, run, arch_eq⟩
      refine ⟨final, run, ?_⟩
      rw [arch_eq, State.arch_begun, Ia32.AtomicOp.exec_eq]

/--
A failed access to the operand is reported as a failure without effect, and success
means that the instruction has been carried out on memory.
-/
structure ReportsFaults (ctx : TrapContext) (st : State) (locked : Bool) (op : Ia32.AtomicOp)
    (address : Word) : Prop where
  reported : (∃ other, InWord address other ∧ ¬st.mem.UserWritable other) →
    ∃ ret final, parseEmuInstruction ctx st = .ok ret final ∧ ret < 0 ∧
      final.regs = st.regs ∧ final.mem = st.mem
  stored : ∀ ret final, parseEmuInstruction ctx st = .ok ret final → 0 < ret →
    final.arch.mem = (op.exec st.arch (.mem address) (st.isaSource locked)
      (st.isaLength locked)).mem

/-- A handler that has gone to work never reports a failure. -/
theorem ReportsFaults.writable (reports : ReportsFaults ctx st locked op address)
    (fromUser : ctx.FromUser) (instruction : InstructionAt ctx st locked op)
    (isa : (st.isaOperand locked).1 = .mem address)
    (takes : TakesUp ctx (operandCode st.codeAt locked) address) {other : Word}
    (inside : InWord address other) : st.mem.UserWritable other := by
  rcases parseEmuInstruction_workedOn fromUser instruction isa takes with ⟨stops, works⟩
  by_contra faults
  rcases reports.reported ⟨other, inside, faults⟩ with ⟨ret, final, run, negative, -, -⟩
  by_cases stopped : st.Stops ctx op (usedWord (operandCode st.codeAt locked) address)
  · rcases stops stopped with ⟨stop, halted, oops⟩
    rw [oops] at run
    cases run
  · rcases works stopped with ⟨worked, succeeds, -⟩
    exact not_pos_of_failed run negative succeeds (by decide)

/-- Nor does it store to the operand if that is not the word that it works on. -/
theorem ReportsFaults.stops_or_idle (reports : ReportsFaults ctx st locked op address)
    (fromUser : ctx.FromUser) (instruction : InstructionAt ctx st locked op)
    (isa : (st.isaOperand locked).1 = .mem address)
    (takes : TakesUp ctx (operandCode st.codeAt locked) address)
    (misplaced : Misplaced (operandCode st.codeAt locked)) :
    st.Stops ctx op (address + 0x100) ∨
      st.regs.Idle op (Slot.ofReg (st.isaSource locked)) (st.mem.load address) ∧
      st.regs.Idle op (Slot.ofReg (st.isaSource locked)) (st.mem.load (address + 0x100)) := by
  have works := (parseEmuInstruction_workedOn fromUser instruction isa takes).2
  rw [usedWord_of_misplaced misplaced] at works
  by_cases stopped : st.Stops ctx op (address + 0x100)
  · exact Or.inl stopped
  rcases works stopped with ⟨final, succeeds, worked⟩
  have stored := reports.stored 1 final succeeds (by decide)
  rw [State.mem_exec, ← State.result_advance st op _ _ (st.isaLength locked)] at stored
  have idle := worked.idle_of_byteAt_eq (fun _ => not_inWord_of_inWord) stored
  simp only [PtRegs.Idle, State.result_advance] at idle
  exact Or.inr idle

/-- A misplaced access stops the kernel, or the instruction had nothing to store. -/
theorem mem_eq_exec_of_idle (fromUser : ctx.FromUser)
    (instruction : InstructionAt ctx st locked op) (isa : (st.isaOperand locked).1 = .mem address)
    (takes : TakesUp ctx (operandCode st.codeAt locked) address)
    (misplaced : Misplaced (operandCode st.codeAt locked))
    (idle : st.Stops ctx op (address + 0x100) ∨
      st.regs.Idle op (Slot.ofReg (st.isaSource locked)) (st.mem.load address) ∧
      st.regs.Idle op (Slot.ofReg (st.isaSource locked)) (st.mem.load (address + 0x100)))
    {ret : Int} {final : State} (run : parseEmuInstruction ctx st = .ok ret final) :
    final.arch.mem =
      (op.exec st.arch (.mem address) (st.isaSource locked) (st.isaLength locked)).mem := by
  rcases parseEmuInstruction_workedOn fromUser instruction isa takes with ⟨stops, works⟩
  rw [usedWord_of_misplaced misplaced] at stops works
  by_cases stopped : st.Stops ctx op (address + 0x100)
  · rcases stops stopped with ⟨stop, halted, oops⟩
    rw [oops] at run
    cases run
  rcases works stopped with ⟨worked, succeeds, worksOn⟩
  rcases idle.resolve_left stopped with ⟨idleOperand, idleUsed⟩
  rw [succeeds] at run
  injection run with ret_eq final_eq
  rw [State.mem_exec, idleOperand, Memory.byteAt_store_load, ← final_eq]
  apply worksOn.idle
  rw [PtRegs.Idle, State.result_advance]
  exact idleUsed

/-- On a writable operand the instruction is carried out. -/
theorem mem_eq_exec_of_writable (fromUser : ctx.FromUser)
    (instruction : InstructionAt ctx st locked op) (isa : (st.isaOperand locked).1 = .mem address)
    (takes : TakesUp ctx (operandCode st.codeAt locked) address)
    (placed : ¬Misplaced (operandCode st.codeAt locked))
    (writable : ∀ other, InWord address other → st.mem.UserWritable other)
    {ret : Int} {final : State} (run : parseEmuInstruction ctx st = .ok ret final) :
    final.arch.mem =
      (op.exec st.arch (.mem address) (st.isaSource locked) (st.isaLength locked)).mem := by
  rcases operated_of_takesUp instruction isa takes with
    ⟨pstate, operand, decoded, dest, inMemory, length_eq, operates⟩
  have below := takes.below
  rw [usedWord_of_not_misplaced placed] at dest below
  rcases operate_refines_mem decoded
    (.memory address dest inMemory below (outsideFrame_of_fromUser fromUser below))
    writable (lockLength locked + 2) with ⟨performed, operated, mem_eq⟩
  rw [operates, operated] at run
  injection run with ret_eq final_eq
  rw [← final_eq, mem_eq, length_eq]
  rfl

/--
Faults are reported exactly if the emulator refuses the instruction or there are none. With a
negative byte displacement it must also stop at the word that it takes for the operand, or the
instruction must leave that word and the operand as they are.
-/
theorem reportsFaults_iff (ctx : TrapContext) (fromUser : ctx.FromUser) (st : State)
    (locked : Bool) (op : Ia32.AtomicOp) (instruction : InstructionAt ctx st locked op)
    (address : Word) (isa : (st.isaOperand locked).1 = .mem address) :
    ReportsFaults ctx st locked op address ↔
      (TakesUp ctx (operandCode st.codeAt locked) address →
        (∀ other, InWord address other → st.mem.UserWritable other) ∧
        (Misplaced (operandCode st.codeAt locked) →
          st.Stops ctx op (address + 0x100) ∨
            st.regs.Idle op (Slot.ofReg (st.isaSource locked)) (st.mem.load address) ∧
            st.regs.Idle op (Slot.ofReg (st.isaSource locked))
              (st.mem.load (address + 0x100)))) := by
  constructor
  · intro reports takes
    exact ⟨fun _ => reports.writable fromUser instruction isa takes,
      reports.stops_or_idle fromUser instruction isa takes⟩
  · intro condition
    by_cases takes : TakesUp ctx (operandCode st.codeAt locked) address
    · rcases condition takes with ⟨writable, placed⟩
      refine ⟨?_, ?_⟩
      · rintro ⟨other, inside, faults⟩
        exact absurd (writable other inside) faults
      · intro ret final run _
        by_cases misplaced : Misplaced (operandCode st.codeAt locked)
        · exact mem_eq_exec_of_idle fromUser instruction isa takes misplaced (placed misplaced) run
        · exact mem_eq_exec_of_writable fromUser instruction isa takes misplaced writable run
    · rcases refused_of_not_takesUp fromUser instruction isa takes with
        ⟨ret, final, run, negative, unchanged⟩
      refine ⟨fun _ => ⟨ret, final, run, negative, unchanged⟩, ?_⟩
      intro ret' final' run' positive
      exact absurd positive (not_pos_of_failed run negative run')

theorem reportsFaults_iff_lockXadd :
    ReportsFaults sampleContext (sampleState lockXaddCode fun _ => true) true .xadd 0x0804a000 ↔
      (TakesUp sampleContext
          (operandCode (sampleState lockXaddCode fun _ => true).codeAt true) 0x0804a000 →
        (∀ other, InWord 0x0804a000 other →
          (sampleState lockXaddCode fun _ => true).mem.UserWritable other) ∧
        (Misplaced (operandCode (sampleState lockXaddCode fun _ => true).codeAt true) →
          (sampleState lockXaddCode fun _ => true).Stops sampleContext .xadd 0x0804a100 ∨
            sampleRegs.Idle .xadd .ax ((sampleState lockXaddCode fun _ => true).mem.load
              0x0804a000) ∧
            sampleRegs.Idle .xadd .ax ((sampleState lockXaddCode fun _ => true).mem.load
              0x0804a100))) :=
  reportsFaults_iff sampleContext (by decide) (sampleState lockXaddCode fun _ => true) true .xadd
    lockXadd_instructionAt 0x0804a000 (by decide)

/--
On a page that user mode may not write, `put_user` fails, the registers have
changed, the word has not, and the call reports success.
-/
theorem lockXadd_readOnly_reports_success :
    ((sampleState lockXaddCode fun _ => false).isaOperand true).1 = .mem 0x0804a000 ∧
      returned (parseEmuInstruction sampleContext (sampleState lockXaddCode fun _ => false)) =
        some 1 ∧
      (finalState (parseEmuInstruction sampleContext
        (sampleState lockXaddCode fun _ => false))).mem.load 0x0804a000 = 0 ∧
      (finalState (parseEmuInstruction sampleContext
        (sampleState lockXaddCode fun _ => false))).regs.ax = 0 ∧
      ¬ReportsFaults sampleContext (sampleState lockXaddCode fun _ => false) true .xadd
        0x0804a000 := by
  have succeeded : returned (parseEmuInstruction sampleContext
      (sampleState lockXaddCode fun _ => false)) = some 1 := by
    decide
  refine ⟨by decide, succeeded, by decide, by decide, ?_⟩
  intro reports
  rcases reports.reported ⟨0x0804a000, Or.inl rfl, by decide⟩ with ⟨ret, final, run, negative, -, -⟩
  rw [run] at succeeded
  injection succeeded with ret_eq
  omega

end Call

/-- The arithmetic flags that `parse_emu_cmpxchg` does not compute. -/
def neglectedFlags : Word := Ia32.arithFlags &&& ~~~Ia32.zf

/-- The saved flags are those of `CMP eax, destination`, and no other bit has changed. -/
def FlagsOfCmp (before final : State) (destination : Word) : Prop :=
  final.regs.flags =
    Ia32.setArithFlags before.regs.flags (Ia32.cmpFlags before.regs.ax destination)

section Flags

theorem eq_iff_and_eq_and_not (left right mask : Word) :
    left = right ↔ left &&& mask = right &&& mask ∧ left &&& ~~~mask = right &&& ~~~mask := by
  constructor
  · rintro rfl
    exact ⟨rfl, rfl⟩
  · rintro ⟨inside, outside⟩
    have split : ∀ word : Word, word = (word &&& mask) ||| (word &&& ~~~mask) := by
      intro word
      rw [← BitVec.and_or_distrib_left, BitVec.or_not_self, BitVec.and_allOnes]
    rw [split left, split right, inside, outside]

/-- The zero flag as the handler leaves it; the other flags are not touched. -/
def withZf (flags : Word) (equal : Bool) : Word :=
  if equal then flags ||| Ia32.zf else flags &&& ~~~Ia32.zf

theorem withZf_and_not_neglected (flags : Word) (equal : Bool) :
    withZf flags equal &&& ~~~neglectedFlags =
      (flags &&& ~~~Ia32.arithFlags) ||| Ia32.flagIf equal Ia32.zf := by
  cases equal with
  | false => exact (and_not_zf_masked flags).trans BitVec.or_zero.symm
  | true => exact or_zf_masked flags

theorem withZf_and_neglected (flags : Word) (equal : Bool) :
    withZf flags equal &&& neglectedFlags = flags &&& neglectedFlags := by
  cases equal with
  | false =>
      simp only [withZf, Bool.false_eq_true, if_false, BitVec.and_assoc,
        show ~~~Ia32.zf &&& neglectedFlags = neglectedFlags by decide]
  | true =>
      simp only [withZf, if_true, BitVec.and_or_distrib_right,
        show Ia32.zf &&& neglectedFlags = 0#32 by decide, BitVec.or_zero]

theorem setArithFlags_and_neglected (flags arith : Word) :
    Ia32.setArithFlags flags arith &&& neglectedFlags = arith &&& neglectedFlags := by
  rw [Ia32.setArithFlags, BitVec.and_or_distrib_right, BitVec.and_assoc,
    show ~~~Ia32.arithFlags &&& neglectedFlags = 0#32 by decide, BitVec.and_zero, BitVec.zero_or]

theorem or_flagIf_zf_inj (flags : Word) (one other : Bool) :
    ((flags &&& ~~~Ia32.arithFlags) ||| Ia32.flagIf one Ia32.zf) =
        ((flags &&& ~~~Ia32.arithFlags) ||| Ia32.flagIf other Ia32.zf) ↔ one = other := by
  constructor
  · intro same
    have masked : ∀ equal : Bool, ((flags &&& ~~~Ia32.arithFlags) |||
        Ia32.flagIf equal Ia32.zf) &&& Ia32.zf = Ia32.flagIf equal Ia32.zf := by
      intro equal
      rw [BitVec.and_or_distrib_right, BitVec.and_assoc,
        show ~~~Ia32.arithFlags &&& Ia32.zf = 0#32 by decide, BitVec.and_zero, BitVec.zero_or]
      cases equal with
      | false => decide
      | true => decide
    have distinct : ∀ one other : Bool,
        Ia32.flagIf one Ia32.zf = Ia32.flagIf other Ia32.zf → one = other := by
      decide
    apply distinct
    rw [← masked one, ← masked other, same]
  · rintro rfl
    rfl

/--
Setting the zero flag is enough exactly if the other flags are right already and it is
the zero flag of the same comparison.
-/
theorem withZf_eq_iff (flags left right : Word) (equal : Bool) :
    withZf flags equal = Ia32.setArithFlags flags (Ia32.cmpFlags left right) ↔
      flags &&& neglectedFlags = Ia32.cmpFlags left right &&& neglectedFlags ∧
        equal = decide (left = right) := by
  rw [eq_iff_and_eq_and_not _ _ neglectedFlags, withZf_and_neglected, setArithFlags_and_neglected,
    withZf_and_not_neglected]
  apply and_congr_right
  intro _
  rw [← or_flagIf_zf_inj flags]
  exact Iff.of_eq (congrArg _ (Ia32.setArithFlags_cmpFlags flags left right))

end Flags

section Cmpxchg

variable {ctx : TrapContext} {pstate : ParserState} {src : Slot} {operand : Operand}
  {dest : Ia32.Dest} {st : State}

theorem loadDest_cases (decoded : Decoded pstate src operand) (denotes : operand.Denotes ctx dest)
    (st : State) :
    loadDest ctx pstate st = .ok (st.arch.readDest dest) (st.logDest .read dest) ∨
      ∃ stop, loadDest ctx pstate st = .error stop (st.logDest .read dest) := by
  simp only [loadDest, recordDest, decoded.regsOnly, decoded.instDest]
  cases denotes with
  | register register dest_eq notInMemory =>
      rw [notInMemory, dest_eq]
      exact Or.inl rfl
  | memory address dest_eq inMemory below outside =>
      rw [inMemory, dest_eq]
      cases loaded : (st.log (.read address)).load ctx address with
      | none =>
          right
          refine ⟨⟨address⟩, ?_⟩
          have faults : deref ctx (.user address) (st.log (.read address)) =
              .error ⟨address⟩ (st.log (.read address)) := by
            simp only [deref, loaded]
          exact faults
      | some value =>
          left
          have reads : deref ctx (.user address) (st.log (.read address)) =
              .ok value (st.log (.read address)) := by
            simp only [deref, loaded]
          rw [State.mem_load_of_load outside loaded] at reads
          exact reads

theorem storeDest_cases (decoded : Decoded pstate src operand)
    (denotes : operand.Denotes ctx dest) (value : Word) (st : State) :
    storeDest ctx pstate value st = .ok () ((st.logDest .write dest).writeDest dest value) ∨
      ∃ stop, storeDest ctx pstate value st = .error stop (st.logDest .write dest) := by
  simp only [storeDest, recordDest, decoded.regsOnly, decoded.instDest]
  cases denotes with
  | register register dest_eq notInMemory =>
      rw [notInMemory, dest_eq]
      exact Or.inl rfl
  | memory address dest_eq inMemory below outside =>
      rw [inMemory, dest_eq]
      rcases assign_user_cases outside value (st.log (.write address)) with stored | oops
      · exact Or.inl stored
      · exact Or.inr ⟨_, oops⟩

theorem eflags_writeDest (arch : Ia32.Arch) (dest : Ia32.Dest) (value : Word) :
    (arch.writeDest dest value).eflags = arch.eflags := by
  cases dest with
  | reg register => rfl
  | mem address => rfl

/-- Whenever the handler returns, it has set or cleared the zero flag and no other. -/
theorem operateCmpxchg_flags (decoded : Decoded pstate src operand)
    (denotes : operand.Denotes ctx dest) {ret : Int} {final : State}
    (run : operateCmpxchg ctx pstate st = .ok ret final) :
    final.arch.eflags = withZf st.arch.eflags (st.arch.gpr .eax = st.arch.readDest dest) := by
  simp only [operateCmpxchg] at run
  rcases loadDest_cases decoded denotes st with loaded | ⟨stop, oops⟩
  swap
  · rw [run_bind_error oops] at run
    exact absurd run (by simp)
  rw [run_bind_ok loaded, run_get_bind, State.regs_logDest] at run
  by_cases equal : st.arch.gpr .eax = st.arch.readDest dest
  · have source : ∀ other : State,
        deref ctx pstate.instSrc other = .ok (other.regs.get src) other := by
      intro other
      rw [decoded.instSrc]
      rfl
    rw [if_pos (show st.regs.ax = st.arch.readDest dest from equal),
      run_bind_ok (run_updateFlags _ _), run_bind_ok (source _)] at run
    generalize before_eq : (st.logDest .read dest).withFlags
      ((st.logDest .read dest).arch.eflags ||| Ia32.zf) = before at run
    have flags_eq : before.arch.eflags = st.arch.eflags ||| Ia32.zf := by
      rw [← before_eq, State.arch_withFlags, State.arch_logDest]
    rcases storeDest_cases decoded denotes (before.regs.get src) before with stored | ⟨stop, oops⟩
    · rw [run_bind_ok stored] at run
      injection run with ret_eq final_eq
      rw [← final_eq, State.arch_writeDest, eflags_writeDest, State.arch_logDest, flags_eq,
        decide_eq_true equal]
      rfl
    · rw [run_bind_error oops] at run
      exact absurd run (by simp)
  · rw [if_neg (show ¬st.regs.ax = st.arch.readDest dest from equal),
      run_bind_ok (run_updateFlags _ _)] at run
    generalize before_eq : (st.logDest .read dest).withFlags
      ((st.logDest .read dest).arch.eflags &&& ~~~Ia32.zf) = before at run
    have flags_eq : before.arch.eflags = st.arch.eflags &&& ~~~Ia32.zf := by
      rw [← before_eq, State.arch_withFlags, State.arch_logDest]
    rcases loadDest_cases decoded denotes before with reread | ⟨stop, oops⟩
    · rw [run_bind_ok reread] at run
      injection run with ret_eq final_eq
      rw [← final_eq, decide_eq_false equal]
      exact (congrArg Ia32.Arch.eflags (State.arch_logDest before .read dest)).trans flags_eq
    · rw [run_bind_error oops] at run
      exact absurd run (by simp)

/-- An emulated instruction has an operand, which is the one of the instruction set or a word. -/
theorem denotes_of_succeeds {locked : Bool} {op : Ia32.AtomicOp} (fromUser : ctx.FromUser)
    (encodes : Encodes st.codeAt locked op.opcode) {ret : Int} {final : State}
    (run : parseEmuInstruction ctx st = .ok ret final) (succeeded : 0 < ret) :
    ∃ pstate operand dest, Decoded pstate (decodeSource (operandCode st.codeAt locked)) operand ∧
      operand.Denotes ctx dest ∧
      operate ctx op pstate (st.begun ctx (lockLength locked + 2) operand) = .ok ret final ∧
      ((∃ register, (st.isaOperand locked).1 = .reg register ∧ dest = .reg register) ∨
        ∃ address, (st.isaOperand locked).1 = .mem address ∧
          dest = .mem (usedWord (operandCode st.codeAt locked) address)) := by
  rcases @fetches_or_fault ctx st fromUser with fault | fetches
  · exact absurd succeeded (not_pos_of_failed fault (by decide) run)
  cases decodes : decodeOperand st.regs (operandCode st.codeAt locked) with
  | none =>
      rw [parseEmuInstruction_of_atomic fetches encodes, decodeAtomic, decodes] at run
      exact absurd succeeded (not_pos_of_failed rfl (by decide) run)
  | some operand =>
      rcases operand.outOfRange_or_inRange ctx with ⟨inMemory, outOfRange⟩ | inRange
      · exact absurd succeeded (not_pos_of_failed
          (parseEmuInstruction_out_of_range fetches encodes decodes inMemory outOfRange)
          (by decide) run)
      rcases parseEmuInstruction_operated fetches encodes decodes inRange
        with ⟨pstate, decoded, operated⟩
      rw [operated] at run
      rcases decodeOperand_cases decodes with ⟨register, isa, dest, notInMemory⟩ |
        ⟨member, dest, inMemory⟩ | ⟨address, isa, -, dest, inMemory⟩
      · exact ⟨pstate, operand, _, decoded, .register register dest notInMemory, run,
          Or.inl ⟨register, isa, rfl⟩⟩
      · have checked := inRange inMemory
        rw [dest, slot_accessOk_of_fromUser fromUser] at checked
        exact absurd checked (by decide)
      · have below := inRange inMemory
        rw [dest, Ptr.address, accessOk_iff] at below
        exact ⟨pstate, operand, _, decoded,
          .memory _ dest inMemory below (outsideFrame_of_fromUser fromUser below), run,
          Or.inr ⟨address, isa, rfl⟩⟩

/--
After a successful `CMPXCHG` the saved flags are those of the comparison if and only
if the five flags that the handler neglects were so before, and the comparison with the
word 256 bytes further up, where a negative byte displacement leads it, comes out the same.
-/
theorem cmpxchgFlags_iff (ctx : TrapContext) (fromUser : ctx.FromUser) (st : State)
    (locked : Bool) (encodes : Encodes st.codeAt locked Ia32.AtomicOp.cmpxchg.opcode)
    (ret : Int) (final : State) (run : parseEmuInstruction ctx st = .ok ret final)
    (succeeded : 0 < ret) :
    FlagsOfCmp st final (st.arch.readDest (st.isaOperand locked).1) ↔
      st.regs.flags &&& neglectedFlags =
          Ia32.cmpFlags st.regs.ax (st.arch.readDest (st.isaOperand locked).1) &&&
            neglectedFlags ∧
        ∀ address, (st.isaOperand locked).1 = .mem address →
          Misplaced (operandCode st.codeAt locked) →
            (st.regs.ax = st.mem.load (address + 0x100) ↔ st.regs.ax = st.mem.load address) := by
  rcases @denotes_of_succeeds ctx st locked .cmpxchg fromUser encodes ret final run succeeded with
    ⟨pstate, operand, dest, decoded, denotes, operated, places⟩
  have flags_eq := operateCmpxchg_flags decoded denotes operated
  rw [State.arch_begun] at flags_eq
  rw [FlagsOfCmp, show final.regs.flags = final.arch.eflags from rfl, flags_eq]
  rcases places with ⟨register, isa, rfl⟩ | ⟨address, isa, rfl⟩
  · rw [isa]
    refine (withZf_eq_iff _ _ _ _).trans (and_congr_right fun _ => ?_)
    exact ⟨fun _ _ isMem => Ia32.Dest.noConfusion isMem, fun _ => rfl⟩
  · rw [isa]
    refine (withZf_eq_iff _ _ _ _).trans (and_congr_right fun _ => ?_)
    refine decide_eq_decide.trans ?_
    by_cases misplaced : Misplaced (operandCode st.codeAt locked)
    · rw [usedWord_of_misplaced misplaced]
      constructor
      · rintro same _ ⟨⟩ _
        exact same
      · intro same
        exact same address rfl misplaced
    · rw [usedWord_of_not_misplaced misplaced]
      exact ⟨fun _ _ _ isMisplaced => absurd isMisplaced misplaced, fun _ => Iff.rfl⟩

theorem cmpxchgFlags_iff_disp32 :
    FlagsOfCmp (sampleState cmpxchgCode fun _ => true)
        (finalState (parseEmuInstruction sampleContext (sampleState cmpxchgCode fun _ => true))) 0 ↔
      sampleRegs.flags &&& neglectedFlags = Ia32.cmpFlags 5 0 &&& neglectedFlags ∧
        ∀ address, ((sampleState cmpxchgCode fun _ => true).isaOperand false).1 = .mem address →
          Misplaced (operandCode (sampleState cmpxchgCode fun _ => true).codeAt false) →
            (sampleRegs.ax = (sampleState cmpxchgCode fun _ => true).mem.load (address + 0x100) ↔
              sampleRegs.ax = (sampleState cmpxchgCode fun _ => true).mem.load address) :=
  cmpxchgFlags_iff sampleContext (by decide) (sampleState cmpxchgCode fun _ => true) false
    ⟨by decide, by decide, by decide⟩ 1 _ (eq_ok_of_returned (by decide)) (by decide)

/-- `cmpxchg %ecx, %ebx`. -/
def cmpxchgRegisterCode : List Byte := [0x0f, 0xb1, 0xcb]

/-- The comparison of 5 with 3 has odd parity, and the saved parity flag stays set. -/
theorem cmpxchgRegister_stale_parity :
    returned (parseEmuInstruction sampleContext
        (sampleState cmpxchgRegisterCode fun _ => true)) = some 1 ∧
      ((sampleState cmpxchgRegisterCode fun _ => true).isaOperand false).1 = .reg .ebx ∧
      (finalState (parseEmuInstruction sampleContext
        (sampleState cmpxchgRegisterCode fun _ => true))).regs.flags = 0x206 ∧
      ¬FlagsOfCmp (sampleState cmpxchgRegisterCode fun _ => true)
        (finalState (parseEmuInstruction sampleContext
          (sampleState cmpxchgRegisterCode fun _ => true)))
        ((sampleState cmpxchgRegisterCode fun _ => true).arch.readDest
          ((sampleState cmpxchgRegisterCode fun _ => true).isaOperand false).1) := by
  refine ⟨by decide, by decide, by decide, ?_⟩
  unfold FlagsOfCmp
  decide

end Cmpxchg

end Gray386.Emu
