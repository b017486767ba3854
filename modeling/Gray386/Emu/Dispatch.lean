import Gray386.Emu.Decode

/-!
# What the dispatcher can do

`parse_emu_instruction` fetches eight bytes, looks at a prefix and an opcode and
hands over to one of three handlers. This file describes it twice. Given the
bytes, `decodeInstruction` says which handler is chosen with which operands, and
`parseEmuInstruction_eq_perform` that the call does nothing else. Given nothing,
`Behaviour` lists everything that one call can do, rejections and oopses included,
and `parseEmuInstruction_behaviour` says that the list is complete; every statement
about all traps is proved by going through it.
-/

namespace Gray386.Emu

open Gray386.Machine

/-- Bytes of an instruction from a position on. -/
def after (code : Nat → Byte) (skip : Nat) : Nat → Byte :=
  fun index => code (skip + index)

/-- The eight bytes in two fetch words. -/
def window (insts insts2 : Word) : Nat → Byte :=
  fun index => if index < 4 then byte insts index else byte insts2 (index - 4)

theorem disp32_window_zero (insts insts2 : Word) :
    Ia32.disp32 (window insts insts2) 0 = insts :=
  ofBytes_bytes insts

theorem disp32_window_four (insts insts2 : Word) :
    Ia32.disp32 (window insts insts2) 4 = insts2 :=
  ofBytes_bytes insts2

/-- A `0F xx` instruction stands at the start of the bytes, with or without lock prefix. -/
structure Encodes (code : Nat → Byte) (locked : Bool) (opcode : Byte) : Prop where
  lock : locked = true → code 0 = 0xf0
  escape : code (lockLength locked) = 0x0f
  opcode_eq : code (lockLength locked + 1) = opcode

/-- The ModRM byte and what follows it. -/
def operandCode (code : Nat → Byte) (locked : Bool) : Nat → Byte :=
  after code (lockLength locked + 2)

/-- The part of a handler that works on decoded operands. -/
def operate (ctx : TrapContext) : Ia32.AtomicOp → ParserState → Kernel Int
  | .cmpxchg => operateCmpxchg ctx
  | .xadd => operateXadd ctx

section Bytes

variable (ctx : TrapContext) (code : Nat → Byte) (st : State)

theorem first_byte_iff (index : Nat) (value : Byte) :
    Ia32.disp32 code index &&& 0xff = value.setWidth 32 ↔ code index = value :=
  ofBytes_and_ff_eq_iff _ _ _ _ _

theorem lock_byte_iff {locked : Bool} (lock : locked = true ↔ code 0 = 0xf0) :
    Ia32.disp32 code 0 &&& 0xff = 0xf0 ↔ locked = true :=
  (first_byte_iff code 0 0xf0).trans lock.symm

theorem disp32_ushiftRight (index : Nat) :
    Ia32.disp32 code index >>> 8 =
      ofBytes (code (index + 1)) (code (index + 2)) (code (index + 3)) 0 :=
  ofBytes_ushiftRight_eight _ _ _ _

theorem endbr32_iff :
    Ia32.disp32 code 0 = 0xfb1e0ff3 ↔
      code 0 = 0xf3 ∧ code 1 = 0x0f ∧ code 2 = 0x1e ∧ code 3 = 0xfb := by
  rw [show (0xfb1e0ff3 : Word) = ofBytes 0xf3 0x0f 0x1e 0xfb by decide]
  exact ofBytes_inj

/-- The parser state in which the opcode switch is entered. -/
def opcodeState (locked : Bool) : ParserState :=
  { instSrc := .user 0
    instDest := .user 0
    origIp := st.regs.ip
    insts :=
      if locked then ofBytes (code 2) (code 3) 0 0 else ofBytes (code 1) (code 2) (code 3) 0
    insts2 := Ia32.disp32 code 4
    regsOnly := 0
    lockPrefix := if locked then 1 else 0 }

/-- After the escape byte the opcode switch runs, one byte later with a prefix. -/
theorem emulate_of_escape {locked : Bool} (lock : locked = true ↔ code 0 = 0xf0)
    (escape : code (lockLength locked) = 0x0f) :
    emulate ctx (Ia32.disp32 code 0) (Ia32.disp32 code 4) st =
      parseOpcode ctx (opcodeState code st locked) (st.advance (lockLength locked + 1)) := by
  have notEndbr : ¬Ia32.disp32 code 0 = 0xfb1e0ff3 := by
    rw [endbr32_iff]
    rintro ⟨first, -⟩
    cases locked with
    | false =>
        simp only [lockLength, Bool.false_eq_true, if_false] at escape
        rw [escape] at first
        exact absurd first (by decide)
    | true =>
        rw [lock.mp rfl] at first
        exact absurd first (by decide)
  simp only [emulate]
  rw [run_get_bind, if_neg notEndbr]
  cases locked with
  | false =>
      have unlocked : ¬Ia32.disp32 code 0 &&& 0xff = 0xf0 := by
        rw [lock_byte_iff code lock]
        exact Bool.false_ne_true
      have escaped : Ia32.disp32 code 0 &&& 0xff = 0x0f :=
        (first_byte_iff code 0 0x0f).mpr escape
      rw [if_neg unlocked]
      simp only [pure_bind, ne_eq, escaped, not_true_eq_false, if_false]
      rw [run_bind_ok (run_ip_succ st), disp32_ushiftRight]
      rfl
  | true =>
      have masked := (lock_byte_iff code lock).mpr rfl
      have escaped : ofBytes (code 1) (code 2) (code 3) 0 &&& 0xff = 0x0f :=
        (ofBytes_and_ff_eq_iff _ _ _ _ 0x0f).mpr escape
      rw [if_pos masked]
      simp only [pure_bind, disp32_ushiftRight, ne_eq, Nat.zero_add, escaped,
        not_true_eq_false, if_false, ofBytes_ushiftRight_eight]
      rw [run_bind_ok (run_ip_succ st), run_bind_ok (run_ip_succ _), State.advance_advance]
      rfl

theorem Encodes.lock_iff {code : Nat → Byte} {locked : Bool} {opcode : Byte}
    (encodes : Encodes code locked opcode) : locked = true ↔ code 0 = 0xf0 := by
  constructor
  · exact encodes.lock
  · intro prefixed
    cases locked with
    | true => rfl
    | false =>
        have escape : code 0 = 0x0f := encodes.escape
        rw [escape] at prefixed
        exact absurd prefixed (by decide)

theorem opcodeState_opcode (locked : Bool) :
    ((opcodeState code st locked).insts &&& 0xff).toNat =
      (code (lockLength locked + 1)).toNat := by
  cases locked with
  | false =>
      have := (code 1).isLt
      simp only [opcodeState, lockLength, Bool.false_eq_true, if_false, ofBytes_and_ff,
        BitVec.toNat_setWidth, Nat.zero_add]
      omega
  | true =>
      have := (code 2).isLt
      simp only [opcodeState, lockLength, if_true, ofBytes_and_ff, BitVec.toNat_setWidth,
        Nat.reduceAdd]
      omega

theorem opcodeState_atModrm (locked : Bool) :
    AtModrm
      { opcodeState code st locked with insts := (opcodeState code st locked).insts >>> 8 }
      (operandCode code locked) (st.advance (lockLength locked + 2)).regs.ip locked := by
  cases locked with
  | false =>
      refine ⟨?_, rfl, rfl⟩
      simp only [opcodeState, Bool.false_eq_true, if_false, ofBytes_ushiftRight_eight]
      rfl
  | true =>
      refine ⟨?_, rfl, rfl⟩
      simp only [opcodeState, if_true, ofBytes_ushiftRight_eight]
      rfl

/-- The two atomic instructions reach their handler just before the ModRM byte. -/
theorem emulate_atomic {locked : Bool} {op : Ia32.AtomicOp}
    (encodes : Encodes code locked op.opcode) :
    ∃ pstate, AtModrm pstate (operandCode code locked)
        (st.advance (lockLength locked + 2)).regs.ip locked ∧
      emulate ctx (Ia32.disp32 code 0) (Ia32.disp32 code 4) st =
        parseOperands ctx pstate (operate ctx op) (st.advance (lockLength locked + 2)) := by
  refine ⟨_, opcodeState_atModrm code st locked, ?_⟩
  have opcode := opcodeState_opcode code st locked
  rw [encodes.opcode_eq] at opcode
  rw [emulate_of_escape ctx code st encodes.lock_iff encodes.escape]
  simp only [parseOpcode, opcode]
  cases op with
  | cmpxchg =>
      rw [if_pos (by decide), run_bind_ok (run_ip_succ _), State.advance_advance]
      rfl
  | xadd =>
      rw [if_neg (by decide), if_pos (by decide), run_bind_ok (run_ip_succ _),
        State.advance_advance]
      rfl

theorem emulate_bswap (escape : code 0 = 0x0f)
    (opcode : (code 1).toNat ∈ [0xc8, 0xc9, 0xca, 0xcb, 0xce, 0xcf]) :
    emulate ctx (Ia32.disp32 code 0) (Ia32.disp32 code 4) st =
      .ok 1 { st.advance 2 with
        regs := (st.advance 2).regs.set (fieldSlot (Ia32.rmField (code 1)))
          (swapBytes (st.regs.get (fieldSlot (Ia32.rmField (code 1))))) } := by
  have notLocked : false = true ↔ code 0 = 0xf0 := by
    rw [escape]
    decide
  have opcode_eq : ((opcodeState code st false).insts &&& 0xff).toNat = (code 1).toNat :=
    opcodeState_opcode code st false
  have register := toNat_modrmRm (code 1) (code 2) (code 3) 0
  have dest := parseReg_of_lt (modrmRm (ofBytes (code 1) (code 2) (code 3) 0))
    (by rw [register]; exact rmField_lt _) (.user 0)
  rw [register] at dest
  rw [emulate_of_escape ctx code st notLocked escape]
  simp only [parseOpcode, opcode_eq]
  have notCmpxchg : ¬(code 1).toNat = 0xb1 := by
    intro equal
    rw [equal] at opcode
    exact absurd opcode (by decide)
  have notXadd : ¬(code 1).toNat = 0xc1 := by
    intro equal
    rw [equal] at opcode
    exact absurd opcode (by decide)
  rw [if_neg notCmpxchg, if_neg notXadd, if_pos opcode]
  have swapped : deref ctx (.slot (fieldSlot (Ia32.rmField (code 1)))) (st.advance 2) =
      .ok (st.regs.get (fieldSlot (Ia32.rmField (code 1)))) (st.advance 2) := by
    simp only [deref, State.get_advance_of_ne _ _ (fieldSlot_ne_ip _)]
  simp only [parseEmuBswap, opcodeState, Bool.false_eq_true, if_false, dest]
  rw [if_neg (by decide), if_neg (by decide), run_bind_ok (run_ip_succ _),
    State.advance_advance, show lockLength false + 1 + 1 = 2 from rfl, run_bind_ok swapped]
  rfl

theorem emulate_of_other_opcode {locked : Bool} (lock : locked = true ↔ code 0 = 0xf0)
    (escape : code (lockLength locked) = 0x0f)
    (notAtomic : ∀ op : Ia32.AtomicOp, code (lockLength locked + 1) ≠ op.opcode)
    (notBswap : locked = false →
      (code (lockLength locked + 1)).toNat ∉ [0xc8, 0xc9, 0xca, 0xcb, 0xce, 0xcf]) :
    emulate ctx (Ia32.disp32 code 0) (Ia32.disp32 code 4) st =
      .ok (-eopnotsupp) (st.advance (lockLength locked + 1)) := by
  have opcode_eq := opcodeState_opcode code st locked
  have notCmpxchg : ¬(code (lockLength locked + 1)).toNat = 0xb1 := by
    intro equal
    exact notAtomic .cmpxchg (BitVec.eq_of_toNat_eq equal)
  have notXadd : ¬(code (lockLength locked + 1)).toNat = 0xc1 := by
    intro equal
    exact notAtomic .xadd (BitVec.eq_of_toNat_eq equal)
  rw [emulate_of_escape ctx code st lock escape]
  simp only [parseOpcode, opcode_eq]
  rw [if_neg notCmpxchg, if_neg notXadd]
  cases locked with
  | false =>
      rw [if_neg (notBswap rfl)]
      rfl
  | true =>
      split_ifs
      · rfl
      · rfl

theorem emulate_of_no_escape {locked : Bool} (lock : locked = true ↔ code 0 = 0xf0)
    (noEscape : code (lockLength locked) ≠ 0x0f)
    (notEndbr : ¬Ia32.disp32 code 0 = 0xfb1e0ff3) :
    emulate ctx (Ia32.disp32 code 0) (Ia32.disp32 code 4) st =
      .ok (-eopnotsupp) (st.advance (lockLength locked)) := by
  simp only [emulate]
  rw [run_get_bind, if_neg notEndbr]
  cases locked with
  | false =>
      have unlocked : ¬Ia32.disp32 code 0 &&& 0xff = 0xf0 := by
        rw [lock_byte_iff code lock]
        exact Bool.false_ne_true
      have unescaped : Ia32.disp32 code 0 &&& 0xff ≠ 0x0f := by
        intro masked
        exact noEscape ((first_byte_iff code 0 0x0f).mp masked)
      rw [if_neg unlocked]
      simp only [pure_bind]
      rw [if_pos unescaped, show lockLength false = 0 from rfl, State.advance_zero]
      rfl
  | true =>
      have masked := (lock_byte_iff code lock).mpr rfl
      have unescaped : ofBytes (code 1) (code 2) (code 3) 0 &&& 0xff ≠ 0x0f := by
        intro masked
        exact noEscape ((ofBytes_and_ff_eq_iff _ _ _ _ 0x0f).mp masked)
      rw [if_pos masked]
      simp only [pure_bind, disp32_ushiftRight, Nat.zero_add]
      rw [run_bind_ok (run_ip_succ st), if_pos unescaped]
      rfl

theorem emulate_endbr32 (endbr : Ia32.disp32 code 0 = 0xfb1e0ff3) :
    emulate ctx (Ia32.disp32 code 0) (Ia32.disp32 code 4) st = .ok 1 (st.advance 4) := by
  simp only [emulate]
  rw [run_get_bind, if_pos endbr]
  rfl

end Bytes

namespace State

/-- The state in which a handler starts to work on its decoded operands. -/
def begun (st : State) (ctx : TrapContext) (skip : Nat) (operand : Operand) : State :=
  let advanced := st.advance (skip + operand.length)
  if operand.inMemory then advanced.log (.check (operand.dest.address ctx)) else advanced

@[simp]
theorem mem_begun (st : State) (ctx : TrapContext) (skip : Nat) (operand : Operand) :
    (st.begun ctx skip operand).mem = st.mem := by
  simp only [begun]
  split_ifs
  · rfl
  · rfl

@[simp]
theorem regs_begun (st : State) (ctx : TrapContext) (skip : Nat) (operand : Operand) :
    (st.begun ctx skip operand).regs = (st.advance (skip + operand.length)).regs := by
  simp only [begun]
  split_ifs
  · rfl
  · rfl

end State

section Operands

variable (ctx : TrapContext) {pstate : ParserState} {code : Nat → Byte} {st : State}
  {locked : Bool} {skip : Nat}

theorem decodeOperand_advance (st : State) (count : Nat) (code : Nat → Byte) :
    decodeOperand (st.advance count).regs code = decodeOperand st.regs code := by
  simp only [decodeOperand, State.get_advance_of_ne _ _ (fieldSlot_ne_ip _)]

theorem checkDest_of_decoded {src : Slot} {operand : Operand}
    (decoded : Decoded pstate src operand) (st : State) :
    checkDest ctx pstate st =
      if operand.inMemory then
        .ok (accessOk ctx (operand.dest.address ctx) 4) (st.log (.check (operand.dest.address ctx)))
      else .ok true st := by
  simp only [checkDest, decoded.regsOnly, decoded.instDest]
  cases operand.inMemory with
  | false => rfl
  | true => rfl

theorem parseOperands_of_none (operation : ParserState → Kernel Int)
    (at_modrm : AtModrm pstate code st.regs.ip locked)
    (refuses : decodeOperand st.regs code = none) :
    parseOperands ctx pstate operation st = .ok (-eopnotsupp) st := by
  rcases parseModrmRegister_of_none ctx at_modrm refuses with ⟨decoded, run⟩
  simp only [parseOperands]
  rw [run_bind_ok run]
  rfl

theorem parseOperands_of_out_of_range (operation : ParserState → Kernel Int) {operand : Operand}
    (at_modrm : AtModrm pstate code (st.advance skip).regs.ip locked)
    (decodes : decodeOperand st.regs code = some operand) (inMemory : operand.inMemory = true)
    (outOfRange : accessOk ctx (operand.dest.address ctx) 4 = false) :
    parseOperands ctx pstate operation (st.advance skip) =
      .ok (-enomem) (st.begun ctx skip operand) := by
  rw [← decodeOperand_advance st skip] at decodes
  rcases parseModrmRegister_of_some ctx at_modrm decodes with ⟨found, run, decoded⟩
  have check := checkDest_of_decoded ctx decoded
    ((st.advance skip).advance operand.length)
  rw [if_pos inMemory, outOfRange] at check
  simp only [parseOperands]
  rw [run_bind_ok run]
  simp only
  rw [if_neg (by decide), run_bind_ok check, State.advance_advance]
  simp only [State.begun, inMemory, if_true]
  rfl

theorem parseOperands_of_some (operation : ParserState → Kernel Int) {operand : Operand}
    (at_modrm : AtModrm pstate code (st.advance skip).regs.ip locked)
    (decodes : decodeOperand st.regs code = some operand)
    (inRange : operand.inMemory = true → accessOk ctx (operand.dest.address ctx) 4 = true) :
    ∃ found, Decoded found (decodeSource code) operand ∧
      parseOperands ctx pstate operation (st.advance skip) =
        operation found (st.begun ctx skip operand) := by
  rw [← decodeOperand_advance st skip] at decodes
  rcases parseModrmRegister_of_some ctx at_modrm decodes with ⟨found, run, decoded⟩
  refine ⟨found, decoded, ?_⟩
  have check : checkDest ctx found ((st.advance skip).advance operand.length) =
      .ok true (st.begun ctx skip operand) := by
    rw [checkDest_of_decoded ctx decoded, State.advance_advance]
    simp only [State.begun]
    by_cases inMemory : operand.inMemory = true
    · rw [if_pos inMemory, if_pos inMemory, inRange inMemory]
    · rw [if_neg inMemory, if_neg inMemory]
  simp only [parseOperands]
  rw [run_bind_ok run]
  simp only
  rw [if_neg (by decide), run_bind_ok check]
  rfl

end Operands

theorem operateCmpxchg_returns (ctx : TrapContext) (pstate : ParserState) :
    Returns (· = 1) (operateCmpxchg ctx pstate) := by
  apply Returns.bind
  intro dest
  apply Returns.bind
  intro current
  apply Returns.ite
  · apply Returns.bind
    intro _
    apply Returns.bind
    intro src
    apply Returns.bind
    intro _
    exact Returns.pure rfl
  · apply Returns.bind
    intro _
    apply Returns.bind
    intro reread
    apply Returns.bind
    intro _
    exact Returns.pure rfl

theorem operateXadd_returns (ctx : TrapContext) (pstate : ParserState) :
    Returns (· = 1) (operateXadd ctx pstate) := by
  apply Returns.bind
  intro dest
  apply Returns.bind
  intro src
  apply Returns.bind
  intro _
  apply Returns.bind
  intro _
  apply Returns.bind
  intro reread
  apply Returns.bind
  intro _
  apply Returns.bind
  intro _
  exact Returns.pure rfl

/-- Once an operation works on its operands it returns 1 or does not return. -/
theorem operate_returns (ctx : TrapContext) (op : Ia32.AtomicOp) (pstate : ParserState) :
    Returns (· = 1) (operate ctx op pstate) := by
  cases op with
  | cmpxchg => exact operateCmpxchg_returns ctx pstate
  | xadd => exact operateXadd_returns ctx pstate

section Call

variable {ctx : TrapContext} {st : State}

theorem parseEmuInstruction_of_first_fault
    (fault : getUser ctx st.regs.ip st = .ok (-efault, 0) st) :
    parseEmuInstruction ctx st = .ok (-enomem) st := by
  simp only [parseEmuInstruction]
  rw [run_get_bind, run_bind_ok fault]
  rfl

theorem parseEmuInstruction_of_second_fault {insts : Word}
    (fetch : getUser ctx st.regs.ip st = .ok (0, insts) st)
    (fault : getUser ctx (st.regs.ip + 4) st = .ok (-efault, 0) st) :
    parseEmuInstruction ctx st = .ok (-enomem) st := by
  simp only [parseEmuInstruction]
  rw [run_get_bind, run_bind_ok fetch]
  simp only
  rw [if_neg (by decide), run_bind_ok fault]
  rfl

variable {insts insts2 : Word}

theorem parseEmuInstruction_of_fetched (fetch : getUser ctx st.regs.ip st = .ok (0, insts) st)
    (fetch2 : getUser ctx (st.regs.ip + 4) st = .ok (0, insts2) st) :
    parseEmuInstruction ctx st =
      (do
        let ret ← emulate ctx insts insts2
        if ret < 0 then setSlot .ip st.regs.ip
        return ret : Kernel Int) st := by
  simp only [parseEmuInstruction]
  rw [run_get_bind, run_bind_ok fetch]
  simp only
  rw [if_neg (by decide), run_bind_ok fetch2]
  simp only
  rw [if_neg (by decide)]

/-- A negative result rolls the instruction pointer back. -/
theorem parseEmuInstruction_of_refused (checks : List BusAccess) {ret : Int} {count : Nat}
    (fetch : getUser ctx st.regs.ip st = .ok (0, insts) st)
    (fetch2 : getUser ctx (st.regs.ip + 4) st = .ok (0, insts2) st) (negative : ret < 0)
    (run : emulate ctx insts insts2 st =
      .ok ret { st.advance count with bus := st.bus ++ checks }) :
    parseEmuInstruction ctx st = .ok ret { st with bus := st.bus ++ checks } := by
  rw [parseEmuInstruction_of_fetched fetch fetch2, run_bind_ok run, if_pos negative]
  rfl

/-- A refusal before the operand was checked leaves no trace. -/
theorem parseEmuInstruction_of_unmoved {ret : Int} {count : Nat}
    (fetch : getUser ctx st.regs.ip st = .ok (0, insts) st)
    (fetch2 : getUser ctx (st.regs.ip + 4) st = .ok (0, insts2) st) (negative : ret < 0)
    (run : emulate ctx insts insts2 st = .ok ret (st.advance count)) :
    parseEmuInstruction ctx st = .ok ret st := by
  have refused := @parseEmuInstruction_of_refused ctx st insts insts2 [] ret count fetch fetch2
    negative (by rw [run, List.append_nil]; rfl)
  rw [List.append_nil] at refused
  exact refused

theorem parseEmuInstruction_of_not_refused
    (fetch : getUser ctx st.regs.ip st = .ok (0, insts) st)
    (fetch2 : getUser ctx (st.regs.ip + 4) st = .ok (0, insts2) st)
    (accepted : ∀ ret next, emulate ctx insts insts2 st = .ok ret next → ret = 1) :
    parseEmuInstruction ctx st = emulate ctx insts insts2 st := by
  rw [parseEmuInstruction_of_fetched fetch fetch2]
  cases run : emulate ctx insts insts2 st with
  | ok ret next =>
      have ret_eq := accepted ret next run
      subst ret_eq
      rw [run_bind_ok run]
      rfl
  | error stop next => rw [run_bind_error run]

end Call

/-- Both fetch words of a call, as bytes. -/
structure Fetches (ctx : TrapContext) (st : State) (code : Nat → Byte) : Prop where
  first : getUser ctx st.regs.ip st = .ok (0, Ia32.disp32 code 0) st
  second : getUser ctx (st.regs.ip + 4) st = .ok (0, Ia32.disp32 code 4) st

section Atomic

variable {ctx : TrapContext} {st : State} {code : Nat → Byte} {locked : Bool}
  {op : Ia32.AtomicOp}

theorem parseEmuInstruction_unsupported (fetches : Fetches ctx st code)
    (encodes : Encodes code locked op.opcode)
    (refuses : decodeOperand st.regs (operandCode code locked) = none) :
    parseEmuInstruction ctx st = .ok (-eopnotsupp) st := by
  rcases emulate_atomic ctx code st encodes with ⟨pstate, at_modrm, run⟩
  rw [parseOperands_of_none ctx _ at_modrm (by rw [decodeOperand_advance]; exact refuses)] at run
  exact parseEmuInstruction_of_unmoved fetches.first fetches.second (by decide) run

theorem parseEmuInstruction_out_of_range (fetches : Fetches ctx st code)
    (encodes : Encodes code locked op.opcode) {operand : Operand}
    (decodes : decodeOperand st.regs (operandCode code locked) = some operand)
    (inMemory : operand.inMemory = true)
    (outOfRange : accessOk ctx (operand.dest.address ctx) 4 = false) :
    parseEmuInstruction ctx st = .ok (-enomem) (st.log (.check (operand.dest.address ctx))) := by
  rcases emulate_atomic ctx code st encodes with ⟨pstate, at_modrm, run⟩
  rw [parseOperands_of_out_of_range ctx _ at_modrm decodes inMemory outOfRange] at run
  simp only [State.begun, inMemory, if_true] at run
  exact parseEmuInstruction_of_refused _ fetches.first fetches.second (by decide) run

theorem parseEmuInstruction_operated (fetches : Fetches ctx st code)
    (encodes : Encodes code locked op.opcode) {operand : Operand}
    (decodes : decodeOperand st.regs (operandCode code locked) = some operand)
    (inRange : operand.inMemory = true → accessOk ctx (operand.dest.address ctx) 4 = true) :
    ∃ pstate, Decoded pstate (decodeSource (operandCode code locked)) operand ∧
      parseEmuInstruction ctx st =
        operate ctx op pstate (st.begun ctx (lockLength locked + 2) operand) := by
  rcases emulate_atomic ctx code st encodes with ⟨pstate, at_modrm, run⟩
  rcases parseOperands_of_some ctx (operate ctx op) at_modrm decodes inRange
    with ⟨found, decoded, handed⟩
  rw [handed] at run
  refine ⟨found, decoded, ?_⟩
  rw [parseEmuInstruction_of_not_refused fetches.first fetches.second, run]
  intro ret next stopped
  rw [run] at stopped
  exact operate_returns ctx op found _ ret next stopped

end Atomic

/-- What the dispatcher makes of the bytes at the instruction pointer. -/
inductive Decision where
  | unsupported
  | endbr32
  | bswap (member : Slot)
  | atomic (op : Ia32.AtomicOp) (src : Slot) (skip : Nat) (operand : Operand)
  deriving DecidableEq, Repr

/-- An atomic instruction whose operand can be decoded. -/
def decodeAtomic (regs : PtRegs) (code : Nat → Byte) (locked : Bool) (op : Ia32.AtomicOp) :
    Decision :=
  match decodeOperand regs (operandCode code locked) with
  | none => .unsupported
  | some operand =>
      .atomic op (decodeSource (operandCode code locked)) (lockLength locked + 2) operand

/-- The instruction that starts with an optional lock prefix and `0F`, or `endbr32`. -/
def decodeInstruction (regs : PtRegs) (code : Nat → Byte) : Decision :=
  let locked := decide (code 0 = 0xf0)
  if code (lockLength locked) = 0x0f then
    let opcode := code (lockLength locked + 1)
    if opcode = Ia32.AtomicOp.cmpxchg.opcode then decodeAtomic regs code locked .cmpxchg
    else if opcode = Ia32.AtomicOp.xadd.opcode then decodeAtomic regs code locked .xadd
    else if locked = false ∧ opcode.toNat ∈ [0xc8, 0xc9, 0xca, 0xcb, 0xce, 0xcf] then
      .bswap (fieldSlot (Ia32.rmField opcode))
    else .unsupported
  else if Ia32.disp32 code 0 = 0xfb1e0ff3 then .endbr32
  else .unsupported

/-- A parser state with these operands and nothing else in it. -/
def Operand.parsed (operand : Operand) (src : Slot) : ParserState :=
  { instSrc := .slot src
    instDest := operand.dest
    origIp := 0
    insts := 0
    insts2 := 0
    regsOnly := if operand.inMemory then 0 else 1
    lockPrefix := 0 }

theorem Operand.decoded_parsed (operand : Operand) (src : Slot) :
    Decoded (operand.parsed src) src operand :=
  ⟨rfl, rfl, rfl⟩

/-- The outcome of a call once it is decided what the bytes are. -/
def Decision.perform (ctx : TrapContext) (st : State) :
    Decision → EStateM.Result Oops State Int
  | .unsupported => .ok (-eopnotsupp) st
  | .endbr32 => .ok 1 (st.advance 4)
  | .bswap member => .ok 1 { st.advance 2 with
      regs := (st.advance 2).regs.set member (swapBytes (st.regs.get member)) }
  | .atomic op src skip operand =>
      if operand.inMemory = true ∧ accessOk ctx (operand.dest.address ctx) 4 = false then
        .ok (-enomem) (st.log (.check (operand.dest.address ctx)))
      else operate ctx op (operand.parsed src) (st.begun ctx skip operand)

/-- A handler looks at its operands and at nothing else of the parser state. -/
theorem operate_congr {ctx : TrapContext} (op : Ia32.AtomicOp) {pstate other : ParserState}
    {src : Slot} {operand : Operand} (decoded : Decoded pstate src operand)
    (decoded' : Decoded other src operand) : operate ctx op other = operate ctx op pstate := by
  cases op with
  | cmpxchg =>
      simp only [operate, operateCmpxchg, loadDest, storeDest, recordDest, decoded.instSrc,
        decoded.instDest, decoded.regsOnly, decoded'.instSrc, decoded'.instDest, decoded'.regsOnly]
  | xadd =>
      simp only [operate, operateXadd, xaddDest, xaddStore, loadDest, recordDest, decoded.instSrc,
        decoded.instDest, decoded.regsOnly, decoded'.instSrc, decoded'.instDest, decoded'.regsOnly]

/-- The range check is failed or passed; an operand that is a register has none. -/
theorem Operand.outOfRange_or_inRange (ctx : TrapContext) (operand : Operand) :
    (operand.inMemory = true ∧ accessOk ctx (operand.dest.address ctx) 4 = false) ∨
      (operand.inMemory = true → accessOk ctx (operand.dest.address ctx) 4 = true) := by
  cases checked : accessOk ctx (operand.dest.address ctx) 4 with
  | true => exact Or.inr fun _ => rfl
  | false =>
      cases operand.inMemory with
      | true => exact Or.inl ⟨rfl, rfl⟩
      | false => exact Or.inr fun inMemory => absurd inMemory (by decide)

section Decisions

variable {ctx : TrapContext} {st : State} {code : Nat → Byte} {locked : Bool}

theorem Decision.perform_of_inRange (op : Ia32.AtomicOp) (src : Slot) (skip : Nat)
    {operand : Operand}
    (inRange : operand.inMemory = true → accessOk ctx (operand.dest.address ctx) 4 = true) :
    (Decision.atomic op src skip operand).perform ctx st =
      operate ctx op (operand.parsed src) (st.begun ctx skip operand) := by
  refine if_neg ?_
  rintro ⟨inMemory, outOfRange⟩
  rw [inRange inMemory] at outOfRange
  exact absurd outOfRange (by decide)

theorem parseEmuInstruction_of_atomic {op : Ia32.AtomicOp} (fetches : Fetches ctx st code)
    (encodes : Encodes code locked op.opcode) :
    parseEmuInstruction ctx st = (decodeAtomic st.regs code locked op).perform ctx st := by
  unfold decodeAtomic
  cases decodes : decodeOperand st.regs (operandCode code locked) with
  | none => exact parseEmuInstruction_unsupported fetches encodes decodes
  | some operand =>
      rcases operand.outOfRange_or_inRange ctx with outOfRange | inRange
      · rw [parseEmuInstruction_out_of_range fetches encodes decodes outOfRange.1 outOfRange.2]
        exact (if_pos outOfRange).symm
      · rcases parseEmuInstruction_operated fetches encodes decodes inRange
          with ⟨pstate, decoded, run⟩
        rw [run, operate_congr op (operand.decoded_parsed _) decoded]
        exact (Decision.perform_of_inRange op _ _ inRange).symm

theorem parseEmuInstruction_of_success {final : State} (fetches : Fetches ctx st code)
    (run : emulate ctx (Ia32.disp32 code 0) (Ia32.disp32 code 4) st = .ok 1 final) :
    parseEmuInstruction ctx st = .ok 1 final := by
  rw [parseEmuInstruction_of_not_refused fetches.first fetches.second, run]
  intro ret next stopped
  rw [run] at stopped
  injection stopped with ret_eq
  exact ret_eq.symm

theorem parseEmuInstruction_of_escape (fetches : Fetches ctx st code)
    (lock : decide (code 0 = 0xf0) = locked) (escape : code (lockLength locked) = 0x0f) :
    parseEmuInstruction ctx st = (decodeInstruction st.regs code).perform ctx st := by
  have lock_iff : locked = true ↔ code 0 = 0xf0 := by
    rw [← lock]
    exact decide_eq_true_iff
  simp only [decodeInstruction, lock, if_pos escape]
  by_cases cmpxchg : code (lockLength locked + 1) = Ia32.AtomicOp.cmpxchg.opcode
  · rw [if_pos cmpxchg]
    exact parseEmuInstruction_of_atomic fetches ⟨lock_iff.mp, escape, cmpxchg⟩
  rw [if_neg cmpxchg]
  by_cases xadd : code (lockLength locked + 1) = Ia32.AtomicOp.xadd.opcode
  · rw [if_pos xadd]
    exact parseEmuInstruction_of_atomic fetches ⟨lock_iff.mp, escape, xadd⟩
  rw [if_neg xadd]
  by_cases bswap : locked = false ∧
      (code (lockLength locked + 1)).toNat ∈ [0xc8, 0xc9, 0xca, 0xcb, 0xce, 0xcf]
  · rw [if_pos bswap]
    rcases bswap with ⟨rfl, opcode⟩
    exact parseEmuInstruction_of_success fetches (emulate_bswap ctx code st escape opcode)
  · rw [if_neg bswap]
    refine parseEmuInstruction_of_unmoved fetches.first fetches.second (by decide)
      (emulate_of_other_opcode ctx code st lock_iff escape ?_ ?_)
    · intro op
      cases op with
      | cmpxchg => exact cmpxchg
      | xadd => exact xadd
    · intro unlocked listed
      exact bswap ⟨unlocked, listed⟩

/-- With both words fetched, a call does what its bytes decide. -/
theorem parseEmuInstruction_eq_perform (fetches : Fetches ctx st code) :
    parseEmuInstruction ctx st = (decodeInstruction st.regs code).perform ctx st := by
  generalize lock : decide (code 0 = 0xf0) = locked
  by_cases escape : code (lockLength locked) = 0x0f
  · exact parseEmuInstruction_of_escape fetches lock escape
  have lock_iff : locked = true ↔ code 0 = 0xf0 := by
    rw [← lock]
    exact decide_eq_true_iff
  simp only [decodeInstruction, lock, if_neg escape]
  by_cases endbr : Ia32.disp32 code 0 = 0xfb1e0ff3
  · rw [if_pos endbr]
    exact parseEmuInstruction_of_success fetches (emulate_endbr32 ctx code st endbr)
  · rw [if_neg endbr]
    exact parseEmuInstruction_of_unmoved fetches.first fetches.second (by decide)
      (emulate_of_no_escape ctx code st lock_iff escape endbr)

theorem parseEmuInstruction_cases (ctx : TrapContext) (st : State) :
    parseEmuInstruction ctx st = .ok (-enomem) st ∨ ∃ code, Fetches ctx st code := by
  rcases getUser_cases ctx st.regs.ip st with fault | ⟨insts, -, -, first⟩
  · exact Or.inl (parseEmuInstruction_of_first_fault fault)
  rcases getUser_cases ctx (st.regs.ip + 4) st with fault | ⟨insts2, -, -, second⟩
  · exact Or.inl (parseEmuInstruction_of_second_fault first fault)
  rw [← disp32_window_zero insts insts2] at first
  rw [← disp32_window_four insts insts2] at second
  exact Or.inr ⟨_, first, second⟩

/-- What a decision says about the bytes. -/
inductive Decides (regs : PtRegs) (code : Nat → Byte) : Decision → Prop where
  | unsupported : Decides regs code .unsupported
  | endbr32 (bytes : code 0 = 0xf3 ∧ code 1 = 0x0f ∧ code 2 = 0x1e ∧ code 3 = 0xfb) :
      Decides regs code .endbr32
  | bswap (escape : code 0 = 0x0f)
      (opcode : (code 1).toNat ∈ [0xc8, 0xc9, 0xca, 0xcb, 0xce, 0xcf]) :
      Decides regs code (.bswap (fieldSlot (Ia32.rmField (code 1))))
  | atomic (op : Ia32.AtomicOp) (locked : Bool) (encodes : Encodes code locked op.opcode)
      {operand : Operand}
      (decodes : decodeOperand regs (operandCode code locked) = some operand) :
      Decides regs code (.atomic op (decodeSource (operandCode code locked))
        (lockLength locked + 2) operand)

theorem decides_decodeAtomic {regs : PtRegs} {op : Ia32.AtomicOp}
    (encodes : Encodes code locked op.opcode) :
    Decides regs code (decodeAtomic regs code locked op) := by
  unfold decodeAtomic
  cases decodes : decodeOperand regs (operandCode code locked) with
  | none => exact Decides.unsupported
  | some operand => exact Decides.atomic op locked encodes decodes

theorem decides_decodeInstruction (regs : PtRegs) (code : Nat → Byte) :
    Decides regs code (decodeInstruction regs code) := by
  have lock : decide (code 0 = 0xf0) = true → code 0 = 0xf0 := decide_eq_true_iff.mp
  simp only [decodeInstruction]
  generalize decide (code 0 = 0xf0) = locked at lock ⊢
  split_ifs with escape cmpxchg xadd bswap endbr
  · exact decides_decodeAtomic ⟨lock, escape, cmpxchg⟩
  · exact decides_decodeAtomic ⟨lock, escape, xadd⟩
  · rcases bswap with ⟨rfl, opcode⟩
    exact Decides.bswap escape opcode
  · exact Decides.unsupported
  · exact Decides.endbr32 ((endbr32_iff code).mp endbr)
  · exact Decides.unsupported

end Decisions

/-- Everything that one call of `parse_emu_instruction` can do. -/
inductive Behaviour (ctx : TrapContext) (st : State) : EStateM.Result Oops State Int → Prop where
  /-- A negative return value; at most a range check has been made. -/
  | refused {ret : Int} {checks : List BusAccess} (negative : ret < 0)
      (onlyChecks : ∀ access ∈ checks, ∃ address, access = .check address) :
      Behaviour ctx st (.ok ret { st with bus := st.bus ++ checks })
  | endbr32 : Behaviour ctx st (.ok 1 (st.advance 4))
  | bswap (member : Slot) (general : member.IsGeneral) :
      Behaviour ctx st (.ok 1 { st.advance 2 with
        regs := (st.advance 2).regs.set member (swapBytes (st.regs.get member)) })
  | operated (op : Ia32.AtomicOp) (code : Nat → Byte) (skip : Nat) {operand : Operand}
      {pstate : ParserState} (decodes : decodeOperand st.regs code = some operand)
      (decoded : Decoded pstate (decodeSource code) operand)
      (inRange : operand.inMemory = true → accessOk ctx (operand.dest.address ctx) 4 = true) :
      Behaviour ctx st (operate ctx op pstate (st.begun ctx skip operand))

theorem Behaviour.refused_unchanged {ctx : TrapContext} {st : State} {ret : Int}
    (negative : ret < 0) : Behaviour ctx st (.ok ret st) := by
  have refused : Behaviour ctx st (.ok ret { st with bus := st.bus ++ [] }) :=
    Behaviour.refused negative (by simp)
  rw [List.append_nil] at refused
  exact refused

/-- The list of behaviours is complete. -/
theorem parseEmuInstruction_behaviour (ctx : TrapContext) (st : State) :
    Behaviour ctx st (parseEmuInstruction ctx st) := by
  rcases parseEmuInstruction_cases ctx st with fault | ⟨code, fetches⟩
  · rw [fault]
    exact Behaviour.refused_unchanged (by decide)
  rw [parseEmuInstruction_eq_perform fetches]
  have decides := decides_decodeInstruction st.regs code
  generalize decodeInstruction st.regs code = decision at decides
  cases decides with
  | unsupported => exact Behaviour.refused_unchanged (by decide)
  | endbr32 bytes => exact Behaviour.endbr32
  | bswap escape opcode => exact Behaviour.bswap _ (Slot.isGeneral_ofReg _)
  | @atomic op locked encodes operand decodes =>
      rcases operand.outOfRange_or_inRange ctx with outOfRange | inRange
      · simp only [Decision.perform, if_pos outOfRange]
        refine Behaviour.refused (by decide) ?_
        intro access access_mem
        rw [List.mem_singleton] at access_mem
        exact ⟨_, access_mem⟩
      · rw [Decision.perform_of_inRange op _ _ inRange]
        exact Behaviour.operated op _ _ decodes (operand.decoded_parsed _) inRange

end Gray386.Emu
