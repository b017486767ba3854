import Gray386.Emu.Coupling
import Gray386.Emu.Encoding
import Gray386.Emu.Faults

/-!
# Bytes behind the instruction

Eight bytes are fetched for every instruction, and most instructions are shorter. The
remaining bytes belong to the instructions that follow. They reach the decoder in the
same two words, which are shifted and masked at every stage to get rid of them.

`decodeInstruction_congr` says that this succeeds: what the dispatcher makes of the
bytes is a function of the frame and of the bytes of the instruction. After that the
outcome is a function of the frame and of the word that the emulator works on.

So two calls with one frame reply in the same way, in two memories that agree on the
instruction and on its operand and differ anywhere else, as long as that word is the
operand. With a negative byte displacement it is not, and the reply shows what the word
holds.
-/

namespace Gray386.Emu

open Gray386.Machine

section Bytes

variable {code code' : Nat → Byte}

theorem lockLength_lt_instructionLength {locked : Bool} (lock : locked = true ↔ code 0 = 0xf0) :
    lockLength locked < Ia32.instructionLength code := by
  simp only [Ia32.instructionLength, Ia32.unprefixedLength]
  cases locked with
  | true =>
      rw [if_pos (lock.mp rfl), show lockLength true = 1 from rfl]
      split_ifs <;> omega
  | false =>
      rw [if_neg (fun first => absurd (lock.mpr first) (by decide)),
        show lockLength false = 0 from rfl]
      split_ifs <;> omega

theorem instructionLength_of_escape {locked : Bool} (lock : locked = true ↔ code 0 = 0xf0)
    (escape : code (lockLength locked) = 0x0f) :
    lockLength locked + 1 < Ia32.instructionLength code := by
  simp only [Ia32.instructionLength]
  cases locked with
  | true =>
      have second : code (1 + 0) = 0x0f := escape
      rw [if_pos (lock.mp rfl), Ia32.unprefixedLength, if_pos second,
        show lockLength true = 1 from rfl]
      split_ifs <;> omega
  | false =>
      have first : code 0 = 0x0f := escape
      rw [first, if_neg (by decide), if_neg (by decide), Ia32.unprefixedLength, if_pos first,
        show lockLength false = 0 from rfl]
      split_ifs <;> omega

theorem instructionLength_of_endbr32 (first : code 0 = 0xf3) :
    1 < Ia32.instructionLength code ∧
      (code 1 = 0x0f → 2 < Ia32.instructionLength code ∧
        (code 2 = 0x1e → 3 < Ia32.instructionLength code)) := by
  have length_pos := Ia32.modrmLength_pos fun index => code (3 + index)
  rw [Ia32.instructionLength, first, if_neg (by decide), if_pos rfl]
  refine ⟨?_, ?_⟩
  · split_ifs <;> omega
  · intro second
    rw [if_pos second]
    refine ⟨?_, ?_⟩
    · split_ifs <;> omega
    · intro third
      rw [if_pos third]
      omega

variable (same : ∀ index < Ia32.instructionLength code, code' index = code index)

include same

theorem endbr32_congr :
    Ia32.disp32 code' 0 = 0xfb1e0ff3 ↔ Ia32.disp32 code 0 = 0xfb1e0ff3 := by
  have zero : code' 0 = code 0 := by
    apply same
    have := @lockLength_lt_instructionLength code (decide (code 0 = 0xf0)) decide_eq_true_iff
    omega
  rw [endbr32_iff, endbr32_iff, zero]
  apply and_congr_right
  intro first
  rcases instructionLength_of_endbr32 first with ⟨one_lt, longer⟩
  rw [same 1 one_lt]
  apply and_congr_right
  intro second
  rcases longer second with ⟨two_lt, longest⟩
  rw [same 2 two_lt]
  apply and_congr_right
  intro third
  rw [same 3 (longest third)]

theorem decodeAtomic_congr (regs : PtRegs) {locked : Bool} {op : Ia32.AtomicOp}
    (encodes : Encodes code locked op.opcode) :
    decodeAtomic regs code' locked op = decodeAtomic regs code locked op := by
  have length_eq := instructionLength_of_encodes encodes
  have operandBytes : ∀ index < Ia32.modrmLength (operandCode code locked),
      operandCode code' locked index = operandCode code locked index := by
    intro index index_lt
    apply same
    omega
  have source : decodeSource (operandCode code' locked) =
      decodeSource (operandCode code locked) := by
    simp only [decodeSource]
    rw [operandBytes 0 (Ia32.modrmLength_pos _)]
  simp only [decodeAtomic, decodeOperand_congr regs operandBytes, source]

/-- The dispatcher looks at no byte behind the instruction. -/
theorem decodeInstruction_congr (regs : PtRegs) :
    decodeInstruction regs code' = decodeInstruction regs code := by
  generalize lock_eq : decide (code 0 = 0xf0) = locked
  have lock : locked = true ↔ code 0 = 0xf0 := by
    rw [← lock_eq]
    exact decide_eq_true_iff
  have lock_lt := lockLength_lt_instructionLength lock
  have zero : code' 0 = code 0 := same 0 (by omega)
  simp only [decodeInstruction, zero, lock_eq, same _ lock_lt]
  by_cases escape : code (lockLength locked) = 0x0f
  · rw [if_pos escape, if_pos escape, same _ (instructionLength_of_escape lock escape)]
    by_cases cmpxchg : code (lockLength locked + 1) = Ia32.AtomicOp.cmpxchg.opcode
    · rw [if_pos cmpxchg, if_pos cmpxchg]
      exact decodeAtomic_congr same regs ⟨lock.mp, escape, cmpxchg⟩
    rw [if_neg cmpxchg, if_neg cmpxchg]
    by_cases xadd : code (lockLength locked + 1) = Ia32.AtomicOp.xadd.opcode
    · rw [if_pos xadd, if_pos xadd]
      exact decodeAtomic_congr same regs ⟨lock.mp, escape, xadd⟩
    · rw [if_neg xadd, if_neg xadd]
  · simp only [if_neg escape, endbr32_congr same]

end Bytes

/-- Two states that differ in memory only, and there not in certain words. -/
structure Agree (word : Word → Prop) (left right : State) : Prop where
  regs : right.regs = left.regs
  bus : right.bus = left.bus
  words : ∀ address, word address → SameWord left.mem right.mem address

namespace Agree

variable {ctx : TrapContext} {word : Word → Prop} {left right : State}

theorem withRegs (states : Agree word left right) (f : PtRegs → PtRegs) :
    Agree word { left with regs := f left.regs } { right with regs := f right.regs } :=
  ⟨congrArg f states.regs, states.bus, states.words⟩

theorem advance (states : Agree word left right) (count : Nat) :
    Agree word (left.advance count) (right.advance count) :=
  states.withRegs fun regs => regs.set .ip (regs.ip + BitVec.ofNat 32 count)

theorem log (states : Agree word left right) (access : BusAccess) :
    Agree word (left.log access) (right.log access) :=
  ⟨states.regs, congrArg (· ++ [access]) states.bus, states.words⟩

theorem begun (states : Agree word left right) (skip : Nat) (operand : Operand) :
    Agree word (left.begun ctx skip operand) (right.begun ctx skip operand) := by
  have advanced := states.advance (skip + operand.length)
  simp only [State.begun]
  split_ifs
  · exact advanced.log _
  · exact advanced

theorem readByte (states : Agree word left right) {address other : Word} (here : word address)
    (inside : InWord address other) : right.readByte ctx other = left.readByte ctx other := by
  have agrees := states.words address here
  simp only [State.readByte, states.regs, agrees.bytes other inside,
    agrees.present other inside]

theorem writeByte (states : Agree word left right) (target : Word) (value : Byte) :
    Agree word (left.writeByte ctx target value) (right.writeByte ctx target value) := by
  by_cases inFrame : ctx.InFrame target
  · rw [State.writeByte, State.writeByte, if_pos inFrame, if_pos inFrame]
    exact states.withRegs fun regs =>
      regs.setByte (target.toNat - ctx.regsAddr.toNat) value
  · rw [State.writeByte_of_not_inFrame inFrame, State.writeByte_of_not_inFrame inFrame]
    refine ⟨states.regs, states.bus, ?_⟩
    intro address here
    exact (states.words address here).setByte target value

theorem sharesFrame : SharesFrame (Agree word) where
  get states member _ := by rw [states.regs]
  set states member _ value := states.withRegs fun regs => regs.set member value
  log states access := states.log access

theorem sharesWord {address : Word} (here : word address) :
    SharesWord ctx (Agree word) address where
  readByte states _ inside := states.readByte here inside
  storable states _ inside := (states.words address here).storable ctx inside
  userWritable states _ inside := (states.words address here).userWritable inside
  writeByte states other _ value := states.writeByte other value

end Agree

/-- The word of memory, if any, that a decision leads to an access of. -/
def Decision.word (ctx : TrapContext) : Decision → Word → Prop
  | .atomic _ _ _ operand, address => operand.word ctx address ∧ accessOk ctx address 4 = true
  | _, _ => False

/-- A decision is carried out in the same way wherever its word is the same. -/
theorem Decision.perform_agree {ctx : TrapContext} {regs : PtRegs} {code : Nat → Byte}
    {decision : Decision} (decides : Decides regs code decision) {word : Word → Prop}
    (covered : ∀ address, decision.word ctx address → word address) {left right : State}
    (states : Agree word left right) :
    SameOutcome (Agree word) (decision.perform ctx left) (decision.perform ctx right) := by
  cases decides with
  | unsupported => exact SameOutcome.ok _ states
  | endbr32 bytes => exact SameOutcome.ok _ (states.advance 4)
  | bswap escape opcode =>
      apply SameOutcome.ok
      rw [states.regs]
      exact (states.advance 2).withRegs fun regs => regs.set _ _
  | @atomic op locked encodes operand decodes =>
      rcases operand.outOfRange_or_inRange ctx with outOfRange | inRange
      · simp only [Decision.perform, if_pos outOfRange]
        exact SameOutcome.ok _ (states.log _)
      · rw [Decision.perform_of_inRange op _ _ inRange, Decision.perform_of_inRange op _ _ inRange]
        have shared : operand.Shared ctx (Agree word) := by
          refine ⟨Agree.sharesFrame, decodeOperand_dest decodes, ?_⟩
          intro inMemory
          exact Agree.sharesWord (covered _ ⟨⟨inMemory, rfl⟩, inRange inMemory⟩)
        exact coupled_operate op (operand.decoded_parsed _) (fieldSlot_ne_ip _) shared _ _
          (states.begun _ operand)

/-- The word of memory, if any, that is the operand of the instruction at the pointer. -/
def State.isaWord (st : State) (address : Word) : Prop :=
  ∃ (locked : Bool) (op : Ia32.AtomicOp), Encodes st.codeAt locked op.opcode ∧
    (st.isaOperand locked).1 = .mem address

/-- The call works on this word, which is not the operand. -/
def State.Strays (ctx : TrapContext) (st : State) (op : Ia32.AtomicOp) (used : Word) : Prop :=
  ∃ locked address, Encodes st.codeAt locked op.opcode ∧
    (st.isaOperand locked).1 = .mem address ∧
    TakesUp ctx (operandCode st.codeAt locked) address ∧
    Misplaced (operandCode st.codeAt locked) ∧ used = address + 0x100

/-- Two calls return the same, with the same frame and the same words, or neither returns. -/
inductive SameReply (word : Word → Prop) :
    EStateM.Result Oops State Int → EStateM.Result Oops State Int → Prop where
  | returned (ret : Int) {left right : State} (regs : right.regs = left.regs)
      (bytes : ∀ address, word address → ∀ other, InWord address other →
        right.mem.byteAt other = left.mem.byteAt other) :
      SameReply word (.ok ret left) (.ok ret right)
  | stopped (stop stop' : Oops) (left right : State) :
      SameReply word (.error stop left) (.error stop' right)

theorem SameReply.of_sameOutcome {word : Word → Prop}
    {left right : EStateM.Result Oops State Int}
    (outcome : SameOutcome (Agree word) left right) : SameReply word left right := by
  cases outcome with
  | ok ret states =>
      exact .returned ret states.regs fun address here => (states.words address here).bytes
  | error stop states => exact .stopped _ _ _ _

/-- The word makes no difference for the handler. -/
structure SameUse (ctx : TrapContext) (op : Ia32.AtomicOp) (used : Word) (left right : State) :
    Prop where
  stops : left.Stops ctx op used ↔ right.Stops ctx op used
  value : ¬left.Stops ctx op used → right.mem.load used = left.mem.load used

/-- The frame that a handler leaves shows the value of the word. -/
theorem PtRegs.after_inj {regs : PtRegs} {op : Ia32.AtomicOp} {register : Ia32.Reg}
    {value value' : Word}
    (same : regs.after op (Slot.ofReg register) value' =
      regs.after op (Slot.ofReg register) value) : value' = value := by
  cases op with
  | xadd =>
      have source := congrArg (PtRegs.get · (Slot.ofReg register)) same
      simpa only [PtRegs.after, PtRegs.get_set_self] using source
  | cmpxchg =>
      have differ : ∀ flags : Word, flags ||| Ia32.zf ≠ flags &&& ~~~Ia32.zf := by
        intro flags equal
        have bit := congrArg (BitVec.getLsbD · 6) equal
        simp [show Ia32.zf[6] = true by decide] at bit
      simp only [PtRegs.after] at same
      split_ifs at same with here there there
      · exact here.symm.trans there
      · exact absurd (congrArg PtRegs.flags same) (differ regs.flags)
      · exact absurd (congrArg PtRegs.flags same).symm (differ regs.flags)
      · exact congrArg PtRegs.ax same

section Call

variable {ctx : TrapContext} {left right : State}

theorem sameReply_iff_sameUse {operand : Operand} {used : Word}
    (denotes : operand.Denotes ctx (.mem used)) (op : Ia32.AtomicOp) (register : Ia32.Reg)
    (skip : Nat) {word : Word → Prop} (states : Agree word left right)
    (disjoint : ∀ address, word address → ∀ other, InWord address other → ¬InWord used other) :
    SameReply word ((Decision.atomic op (Slot.ofReg register) skip operand).perform ctx left)
        ((Decision.atomic op (Slot.ofReg register) skip operand).perform ctx right) ↔
      SameUse ctx op used left right := by
  rcases Decision.perform_workedOn denotes op register skip left with ⟨stops, works⟩
  rcases Decision.perform_workedOn denotes op register skip right with ⟨stops', works'⟩
  by_cases stopped : left.Stops ctx op used
  · rcases stops stopped with ⟨stop, halted, oops⟩
    by_cases stopped' : right.Stops ctx op used
    · rcases stops' stopped' with ⟨stop', halted', oops'⟩
      rw [oops, oops']
      exact ⟨fun _ => ⟨iff_of_true stopped stopped', fun proceeds => absurd stopped proceeds⟩,
        fun _ => .stopped _ _ _ _⟩
    · rcases works' stopped' with ⟨final', run', -⟩
      rw [oops, run']
      refine ⟨?_, fun same => absurd (same.stops.mp stopped) stopped'⟩
      rintro ⟨⟩
  · rcases works stopped with ⟨final, run, worked⟩
    by_cases stopped' : right.Stops ctx op used
    · rcases stops' stopped' with ⟨stop', halted', oops'⟩
      rw [run, oops']
      refine ⟨?_, fun same => absurd (same.stops.mpr stopped') stopped⟩
      rintro ⟨⟩
    · rcases works' stopped' with ⟨final', run', worked'⟩
      have regs_eq := (states.advance (skip + operand.length)).regs
      rw [run, run']
      constructor
      · intro reply
        cases reply with
        | returned _ regs bytes =>
            rw [worked'.regs, worked.regs, regs_eq] at regs
            exact ⟨iff_of_false stopped stopped', fun _ => PtRegs.after_inj regs⟩
      · intro same
        refine .returned 1 ?_ ?_
        · rw [worked'.regs, worked.regs, regs_eq]
          exact congrArg (PtRegs.after _ op _) (same.value stopped)
        · intro address here other inside
          have elsewhere := disjoint address here other inside
          exact (worked'.elsewhere other elsewhere).trans
            (((states.words address here).bytes other inside).trans
              (worked.elsewhere other elsewhere).symm)

/-- Unless it strays, a call works on the operand, if on any word. -/
theorem isaWord_of_word (fromUser : ctx.FromUser) {st : State}
    (stays : ∀ op used, ¬st.Strays ctx op used) {decision : Decision}
    (decides : Decides st.regs st.codeAt decision) {address : Word}
    (works : decision.word ctx address) : st.isaWord address := by
  cases decides with
  | unsupported => exact works.elim
  | endbr32 bytes => exact works.elim
  | bswap escape opcode => exact works.elim
  | @atomic op locked encodes operand decodes =>
      rcases works with ⟨⟨inMemory, rfl⟩, inRange⟩
      rcases decodeOperand_cases decodes with ⟨register, -, -, notInMemory⟩ | ⟨member, dest, -⟩ |
        ⟨address, isa, ⟨noSib, direct⟩, dest, -⟩
      · rw [notInMemory] at inMemory
        exact absurd inMemory (by decide)
      · rw [dest, slot_accessOk_of_fromUser fromUser] at inRange
        exact absurd inRange (by decide)
      · rw [dest, Ptr.address] at inRange ⊢
        have placed : ¬Misplaced (operandCode st.codeAt locked) := by
          intro misplaced
          exact stays op _ ⟨locked, address, encodes, isa,
            ⟨noSib, direct, (accessOk_iff ctx _).mp inRange⟩, misplaced, rfl⟩
        rw [usedWord_of_not_misplaced placed]
        exact ⟨locked, op, encodes, isa⟩

end Call

theorem encodes_congr {code code' : Nat → Byte}
    (same : ∀ index < Ia32.instructionLength code, code' index = code index) {locked : Bool}
    {op : Ia32.AtomicOp} (encodes : Encodes code locked op.opcode) :
    Encodes code' locked op.opcode := by
  have length_eq := instructionLength_of_encodes encodes
  refine ⟨?_, ?_, ?_⟩
  · intro isLocked
    rw [same 0 (by omega)]
    exact encodes.lock isLocked
  · rw [same _ (by omega)]
    exact encodes.escape
  · rw [same _ (by omega)]
    exact encodes.opcode_eq

/-- A stray word is not the operand, which the encoding determines. -/
theorem State.Strays.disjoint {ctx : TrapContext} {st : State} {op : Ia32.AtomicOp} {used : Word}
    (strays : st.Strays ctx op used) {address : Word} (here : st.isaWord address) {other : Word}
    (inside : InWord address other) : ¬InWord used other := by
  rcases strays with ⟨locked, operandAddress, encodes, isa, -, -, rfl⟩
  rcases here with ⟨locked', op', encodes', isa'⟩
  have locked_eq : locked' = locked := by
    cases locked with
    | false =>
        cases locked' with
        | false => rfl
        | true => exact absurd ((encodes'.lock rfl).symm.trans encodes.escape) (by decide)
    | true =>
        cases locked' with
        | true => rfl
        | false => exact absurd ((encodes.lock rfl).symm.trans encodes'.escape) (by decide)
  rw [locked_eq, isa] at isa'
  injection isa' with address_eq
  rw [address_eq]
  exact not_inWord_of_inWord inside

/--
Two calls with one frame reply in the same way, in memories that agree on the bytes of the
instruction and on its operand, if and only if no other word is used or it makes no difference.
-/
theorem parseEmuInstruction_trailing_iff (ctx : TrapContext) (fromUser : ctx.FromUser)
    (regs : PtRegs) (bus : List BusAccess) (left right : Memory)
    (first : Readable ctx left regs.ip) (second : Readable ctx left (regs.ip + 4))
    (first' : Readable ctx right regs.ip) (second' : Readable ctx right (regs.ip + 4))
    (sameCode : ∀ index < Ia32.instructionLength (State.codeAt ⟨regs, left, bus⟩),
      State.codeAt ⟨regs, right, bus⟩ index = State.codeAt ⟨regs, left, bus⟩ index)
    (sameOperand : ∀ address, State.isaWord ⟨regs, left, bus⟩ address →
      SameWord left right address) :
    SameReply (State.isaWord ⟨regs, left, bus⟩) (parseEmuInstruction ctx ⟨regs, left, bus⟩)
        (parseEmuInstruction ctx ⟨regs, right, bus⟩) ↔
      ∀ op used, State.Strays ctx ⟨regs, left, bus⟩ op used →
        SameUse ctx op used ⟨regs, left, bus⟩ ⟨regs, right, bus⟩ := by
  have states : Agree (State.isaWord ⟨regs, left, bus⟩) ⟨regs, left, bus⟩ ⟨regs, right, bus⟩ :=
    ⟨rfl, rfl, sameOperand⟩
  have fetches := @fetches_of_readable ctx ⟨regs, left, bus⟩ first second
  have fetches' := @fetches_of_readable ctx ⟨regs, right, bus⟩ first' second'
  have straying : ∀ op used, State.Strays ctx ⟨regs, left, bus⟩ op used →
      (SameReply (State.isaWord ⟨regs, left, bus⟩) (parseEmuInstruction ctx ⟨regs, left, bus⟩)
          (parseEmuInstruction ctx ⟨regs, right, bus⟩) ↔
        SameUse ctx op used ⟨regs, left, bus⟩ ⟨regs, right, bus⟩) := by
    intro op used strays
    rcases strays with ⟨locked, address, encodes, isa, takes, misplaced, used_eq⟩
    have below := takes.below
    have decodes := decodeOperand_of_mem (Prod.ext isa rfl) takes.noSib takes.direct
    rw [usedWord_of_misplaced misplaced, ← used_eq] at below decodes
    rw [parseEmuInstruction_of_atomic fetches encodes,
      parseEmuInstruction_of_atomic fetches' (encodes_congr sameCode encodes),
      decodeAtomic_congr sameCode regs encodes, decodeAtomic, decodes]
    exact sameReply_iff_sameUse
      (.memory used rfl rfl below (outsideFrame_of_fromUser fromUser below)) op _ _ states
      fun address here other => State.Strays.disjoint
        ⟨locked, _, encodes, isa, takes, misplaced, used_eq⟩ here
  constructor
  · intro reply op used strays
    exact (straying op used strays).mp reply
  · intro uses
    by_cases stays : ∀ op used, ¬State.Strays ctx ⟨regs, left, bus⟩ op used
    · apply SameReply.of_sameOutcome
      rw [parseEmuInstruction_eq_perform fetches, parseEmuInstruction_eq_perform fetches',
        decodeInstruction_congr sameCode]
      have decides := decides_decodeInstruction regs (State.codeAt ⟨regs, left, bus⟩)
      exact Decision.perform_agree decides (fun _ => isaWord_of_word fromUser stays decides) states
    · push Not at stays
      rcases stays with ⟨op, used, strays⟩
      exact (straying op used strays).mpr (uses op used strays)

/-- The same `cmpxchg` before a `ret` and before a zero byte. -/
theorem parseEmuInstruction_trailing_iff_cmpxchg :
    SameReply (sampleState cmpxchgCode fun _ => true).isaWord
        (parseEmuInstruction sampleContext (sampleState cmpxchgCode fun _ => true))
        (parseEmuInstruction sampleContext (sampleState (cmpxchgCode ++ [0xc3]) fun _ => true)) ↔
      ∀ op used, (sampleState cmpxchgCode fun _ => true).Strays sampleContext op used →
        SameUse sampleContext op used (sampleState cmpxchgCode fun _ => true)
          (sampleState (cmpxchgCode ++ [0xc3]) fun _ => true) :=
  parseEmuInstruction_trailing_iff sampleContext (by decide) sampleRegs []
    (sampleState cmpxchgCode fun _ => true).mem
    (sampleState (cmpxchgCode ++ [0xc3]) fun _ => true).mem
    (sampleState_readable _ _ (by decide)) (sampleState_readable _ _ (by decide))
    (sampleState_readable _ _ (by decide)) (sampleState_readable _ _ (by decide)) (by decide)
    (by
      rintro address ⟨locked, op, encodes, isa⟩
      cases locked with
      | true => exact absurd (encodes.lock rfl) (by decide)
      | false =>
          injection isa with address_eq
          rw [← address_eq]
          refine ⟨?_, fun _ _ => rfl, fun _ _ => rfl⟩
          rintro other (rfl | rfl | rfl | rfl) <;> rfl)

/-- Where `xadd %eax, -4(%edx)` is, with 7 in the byte 256 bytes behind the operand. -/
def strayedState : State :=
  { sampleState xaddNegativeDisp8Code fun _ => true with
    mem := (sampleState xaddNegativeDisp8Code fun _ => true).mem.setByte 0x0804a0fc 7 }

/-- That byte is neither of the instruction nor of its operand, and it ends up in `eax`. -/
theorem xaddNegativeDisp8_shows_other_word :
    (∀ index < Ia32.instructionLength (sampleState xaddNegativeDisp8Code fun _ => true).codeAt,
        strayedState.codeAt index =
          (sampleState xaddNegativeDisp8Code fun _ => true).codeAt index) ∧
      ((sampleState xaddNegativeDisp8Code fun _ => true).isaOperand false).1 = .mem 0x08049ffc ∧
      SameWord (sampleState xaddNegativeDisp8Code fun _ => true).mem strayedState.mem
        0x08049ffc ∧
      (finalState (parseEmuInstruction sampleContext
        (sampleState xaddNegativeDisp8Code fun _ => true))).regs.ax = 0 ∧
      (finalState (parseEmuInstruction sampleContext strayedState)).regs.ax = 7 ∧
      ¬SameReply (sampleState xaddNegativeDisp8Code fun _ => true).isaWord
        (parseEmuInstruction sampleContext (sampleState xaddNegativeDisp8Code fun _ => true))
        (parseEmuInstruction sampleContext strayedState) := by
  have before : (finalState (parseEmuInstruction sampleContext
      (sampleState xaddNegativeDisp8Code fun _ => true))).regs.ax = 0 := by
    decide
  have after : (finalState (parseEmuInstruction sampleContext strayedState)).regs.ax = 7 := by
    decide
  have succeeds : returned (parseEmuInstruction sampleContext strayedState) = some 1 := by
    decide
  refine ⟨by decide, by decide, ⟨?_, fun _ _ => rfl, fun _ _ => rfl⟩, before, after, ?_⟩
  · rintro other (rfl | rfl | rfl | rfl) <;> decide
  · intro reply
    generalize parseEmuInstruction sampleContext
      (sampleState xaddNegativeDisp8Code fun _ => true) = left at reply before
    generalize parseEmuInstruction sampleContext strayedState = right at reply after succeeds
    cases reply with
    | returned ret regs bytes =>
        have same : (0 : Word) = 7 := before.symm.trans ((congrArg PtRegs.ax regs.symm).trans after)
        exact absurd same (by decide)
    | stopped => cases succeeds

end Gray386.Emu
