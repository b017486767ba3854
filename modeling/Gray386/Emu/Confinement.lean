import Gray386.Emu.Dispatch

/-!
# What a user-mode trap can touch

A handler stays within every bound on its effect that its statements stay within,
no matter which values it computes and where it stops. `Permitted` lists these
statements, so a new bound needs one lemma for each of them and no walk through
the handlers.

The operand pointer is computed from registers and bytes that the user chose, and
the kernel dereferences it directly. Nothing goes wrong because the decoder leaves
either the address of a general register in it or a word that has passed the range
check, and because a frame that lies above the address limit cannot be hit by such
a word. `Operand.Denotes` is that statement about the decoder.

`Confined` is the effect that such an operand permits.
-/

namespace Gray386.Emu

open Gray386.Machine

section Flags

theorem and_not_arith_keeps (flags : Word) :
    flags &&& ~~~Ia32.arithFlags &&& ~~~Ia32.arithFlags = flags &&& ~~~Ia32.arithFlags := by
  rw [BitVec.and_assoc, BitVec.and_self]

theorem or_arith_keeps (flags other : Word) :
    (flags ||| (other &&& Ia32.arithFlags)) &&& ~~~Ia32.arithFlags =
      flags &&& ~~~Ia32.arithFlags := by
  ext index
  simp only [BitVec.getElem_and, BitVec.getElem_or, BitVec.getElem_not]
  cases Ia32.arithFlags[index] with
  | false => simp
  | true => simp

theorem zf_and_arithFlags : Ia32.zf = Ia32.zf &&& Ia32.arithFlags := by
  decide

theorem or_zf_keeps (flags : Word) :
    (flags ||| Ia32.zf) &&& ~~~Ia32.arithFlags = flags &&& ~~~Ia32.arithFlags := by
  rw [zf_and_arithFlags]
  exact or_arith_keeps flags Ia32.zf

theorem and_not_zf_keeps (flags : Word) :
    flags &&& ~~~Ia32.zf &&& ~~~Ia32.arithFlags = flags &&& ~~~Ia32.arithFlags := by
  rw [BitVec.and_assoc, show ~~~Ia32.zf &&& ~~~Ia32.arithFlags = ~~~Ia32.arithFlags by decide]

end Flags

/--
The statements from which the handlers are built stay within a bound: an access
is logged, the arithmetic flags or a general register is written, the operand is
written in one of the two ways.
-/
structure Permitted (allowed : State → State → Prop) (ctx : TrapContext) (operand : Operand) :
    Prop where
  record : operand.inMemory = true → ∀ access : BusAccess,
    access.address = operand.dest.address ctx → Within allowed (record access)
  flags : ∀ f : Word → Word,
    (∀ flags, f flags &&& ~~~Ia32.arithFlags = flags &&& ~~~Ia32.arithFlags) →
      Within allowed (updateSlot .flags f)
  register : ∀ member : Slot, member.IsGeneral → ∀ value, Within allowed (setSlot member value)
  store : ∀ value, Within allowed (assign ctx operand.dest value)
  put : operand.inMemory = true → ∀ value,
    Within allowed (putUser ctx value (operand.dest.address ctx))

section Handlers

variable {ctx : TrapContext}

theorem finalState_deref (ptr : Ptr) (st : State) : finalState (deref ctx ptr st) = st := by
  cases ptr with
  | slot member => rfl
  | user address =>
      simp only [deref]
      cases st.load ctx address with
      | none => rfl
      | some value => rfl

theorem finalState_getUser (address : Word) (st : State) :
    finalState (getUser ctx address st) = st := by
  rcases getUser_cases ctx address st with fault | ⟨value, -, -, fetch⟩
  · rw [fault]
    rfl
  · rw [fetch]
    rfl

variable {allowed : State → State → Prop} [IsPreorder State allowed]

theorem within_deref (ptr : Ptr) : Within allowed (deref ctx ptr) := by
  intro st
  rw [finalState_deref]
  exact refl_of allowed st

theorem within_getUser (address : Word) : Within allowed (getUser ctx address) := by
  intro st
  rw [finalState_getUser]
  exact refl_of allowed st

variable {pstate : ParserState} {src : Slot} {operand : Operand}

theorem within_recordDest (permitted : Permitted allowed ctx operand)
    (decoded : Decoded pstate src operand) {access : BusAccess}
    (here : access.address = pstate.instDest.address ctx) :
    Within allowed (recordDest pstate access) := by
  rw [decoded.instDest] at here
  simp only [recordDest, decoded.regsOnly]
  cases inMemory : operand.inMemory with
  | false => exact Within.pure ()
  | true => exact permitted.record inMemory access here

theorem within_loadDest (permitted : Permitted allowed ctx operand)
    (decoded : Decoded pstate src operand) : Within allowed (loadDest ctx pstate) := by
  apply Within.bind
  · exact within_recordDest permitted decoded rfl
  intro _
  exact within_deref pstate.instDest

theorem within_storeDest (permitted : Permitted allowed ctx operand)
    (decoded : Decoded pstate src operand) (value : Word) :
    Within allowed (storeDest ctx pstate value) := by
  apply Within.bind
  · exact within_recordDest permitted decoded rfl
  intro _
  rw [decoded.instDest]
  exact permitted.store value

theorem within_operateCmpxchg (permitted : Permitted allowed ctx operand)
    (decoded : Decoded pstate src operand) : Within allowed (operateCmpxchg ctx pstate) := by
  apply Within.bind (within_loadDest permitted decoded)
  intro found
  apply Within.bind
  · exact Within.get
  intro current
  apply Within.ite
  · apply Within.bind (permitted.flags _ or_zf_keeps)
    intro _
    apply Within.bind
    · exact within_deref pstate.instSrc
    intro value
    apply Within.bind (within_storeDest permitted decoded value)
    intro _
    exact Within.pure 1
  · apply Within.bind (permitted.flags _ and_not_zf_keeps)
    intro _
    apply Within.bind (within_loadDest permitted decoded)
    intro reread
    apply Within.bind (permitted.register .ax (by decide) reread)
    intro _
    exact Within.pure 1

theorem within_xaddDest (permitted : Permitted allowed ctx operand)
    (decoded : Decoded pstate src operand) : Within allowed (xaddDest ctx pstate) := by
  simp only [xaddDest, decoded.regsOnly, decoded.instDest]
  cases inMemory : operand.inMemory with
  | false => exact within_deref operand.dest
  | true =>
      apply Within.bind (permitted.record inMemory _ rfl)
      intro _
      apply Within.bind
      · exact within_getUser _
      intro fetched
      exact Within.pure fetched.2

theorem within_xaddStore (permitted : Permitted allowed ctx operand)
    (decoded : Decoded pstate src operand) (value : Word) :
    Within allowed (xaddStore ctx pstate value) := by
  simp only [xaddStore, decoded.regsOnly, decoded.instDest]
  cases inMemory : operand.inMemory with
  | false => exact permitted.store value
  | true =>
      apply Within.bind (permitted.record inMemory _ rfl)
      intro _
      apply Within.bind (permitted.put inMemory value)
      intro _
      exact Within.pure ()

theorem within_operateXadd (permitted : Permitted allowed ctx operand)
    (decoded : Decoded pstate src operand) (general : src.IsGeneral) :
    Within allowed (operateXadd ctx pstate) := by
  apply Within.bind (within_xaddDest permitted decoded)
  intro found
  apply Within.bind
  · exact within_deref pstate.instSrc
  intro value
  apply Within.bind (permitted.flags _ and_not_arith_keeps)
  intro _
  apply Within.bind (permitted.flags _ fun flags => or_arith_keeps flags _)
  intro _
  apply Within.bind (within_loadDest permitted decoded)
  intro reread
  apply Within.bind
  · rw [decoded.instSrc]
    exact permitted.register src general reread
  intro _
  apply Within.bind (within_xaddStore permitted decoded _)
  intro _
  exact Within.pure 1

/-- A handler stays within every bound that its statements stay within. -/
theorem within_operate (op : Ia32.AtomicOp) (permitted : Permitted allowed ctx operand)
    (decoded : Decoded pstate src operand) (general : src.IsGeneral) :
    Within allowed (operate ctx op pstate) := by
  cases op with
  | cmpxchg => exact within_operateCmpxchg permitted decoded
  | xadd => exact within_operateXadd permitted decoded general

end Handlers

/-- An operand that a handler may work on, as a destination of the instruction set. -/
inductive Operand.Denotes (ctx : TrapContext) (operand : Operand) : Ia32.Dest → Prop where
  | register (register : Ia32.Reg) (dest : operand.dest = .slot (Slot.ofReg register))
      (notInMemory : operand.inMemory = false) : Denotes ctx operand (.reg register)
  | memory (address : Word) (dest : operand.dest = .user address)
      (inMemory : operand.inMemory = true) (below : address.toNat + 4 ≤ ctx.addrLimit.toNat)
      (outside : OutsideFrame ctx address) : Denotes ctx operand (.mem address)

/-- The address of the operand, if it is a word of memory. -/
def operandWord : Ia32.Dest → Word → Prop
  | .reg _, _ => False
  | .mem address, other => other = address

theorem Operand.Denotes.below {ctx : TrapContext} {operand : Operand} {dest : Ia32.Dest}
    (denotes : operand.Denotes ctx dest) :
    ∀ address, dest = .mem address → address.toNat + 4 ≤ ctx.addrLimit.toNat := by
  cases denotes with
  | register register dest_eq notInMemory => simp
  | memory address dest_eq inMemory below outside =>
      rintro other ⟨⟩
      exact below

theorem operandWord_mem (address : Word) : operandWord (.mem address) address :=
  rfl

theorem decodeOperand_dest {regs : PtRegs} {code : Nat → Byte} {operand : Operand}
    (decodes : decodeOperand regs code = some operand) :
    (∃ register, operand.dest = .slot (Slot.ofReg register)) ∨
      ∃ address, operand.dest = .user address ∧ operand.inMemory = true := by
  simp only [decodeOperand] at decodes
  split_ifs at decodes
  · cases decodes
    exact Or.inl ⟨_, rfl⟩
  · cases decodes
    exact Or.inr ⟨_, rfl, rfl⟩
  · cases decodes
    exact Or.inl ⟨_, rfl⟩
  · cases decodes
    exact Or.inr ⟨_, rfl, rfl⟩
  · cases decodes
    exact Or.inr ⟨_, rfl, rfl⟩

/-- A register that was left in the operand of a memory form fails the range check. -/
theorem denotes_of_fromUser {ctx : TrapContext} (fromUser : ctx.FromUser) {regs : PtRegs}
    {code : Nat → Byte} {operand : Operand} (decodes : decodeOperand regs code = some operand)
    (inRange : operand.inMemory = true → accessOk ctx (operand.dest.address ctx) 4 = true) :
    ∃ dest, operand.Denotes ctx dest := by
  rcases decodeOperand_dest decodes with ⟨register, dest⟩ | ⟨address, dest, inMemory⟩
  · cases placed : operand.inMemory with
    | false => exact ⟨_, .register register dest placed⟩
    | true =>
        have checked := inRange placed
        rw [dest, slot_accessOk_of_fromUser fromUser] at checked
        exact absurd checked (by decide)
  · have checked := inRange inMemory
    rw [dest, Ptr.address, accessOk_iff] at checked
    exact ⟨_, .memory address dest inMemory checked (outsideFrame_of_fromUser fromUser checked)⟩

/--
The general registers, the instruction pointer, the arithmetic flags and the bytes
of the operand word may change, and the log grows by accesses to that word.
-/
structure Confined (word : Word → Prop) (before after : State) : Prop where
  slots : ∀ member : Slot, ¬member.IsGeneral → member ≠ .ip → member ≠ .flags →
    after.regs.get member = before.regs.get member
  flags : after.regs.flags &&& ~~~Ia32.arithFlags = before.regs.flags &&& ~~~Ia32.arithFlags
  bytes : ∀ other, (∀ address, word address → ¬InWord address other) →
    after.mem.byteAt other = before.mem.byteAt other
  present : after.mem.present = before.mem.present
  writable : after.mem.writable = before.mem.writable
  log : ∃ accesses, after.bus = before.bus ++ accesses ∧
    ∀ access ∈ accesses, word access.address

namespace Confined

variable {word : Word → Prop}

theorem refl (st : State) : Confined word st st :=
  ⟨fun _ _ _ _ => rfl, rfl, fun _ _ => rfl, rfl, rfl, [], by simp, by simp⟩

theorem trans {first second third : State} (left : Confined word first second)
    (right : Confined word second third) : Confined word first third := by
  rcases left.log with ⟨accesses, bus_eq, here⟩
  rcases right.log with ⟨later, bus_eq', there⟩
  refine ⟨?_, right.flags.trans left.flags, ?_, right.present.trans left.present,
    right.writable.trans left.writable, accesses ++ later, ?_, ?_⟩
  · intro member special notIp notFlags
    rw [right.slots member special notIp notFlags, left.slots member special notIp notFlags]
  · intro other outside
    rw [right.bytes other outside, left.bytes other outside]
  · rw [bus_eq', bus_eq, List.append_assoc]
  · intro access access_mem
    rcases List.mem_append.mp access_mem with access_mem | access_mem
    · exact here access access_mem
    · exact there access access_mem

instance : IsPreorder State (Confined word) where
  refl := refl
  trans _ _ _ := trans

theorem set {st : State} {member : Slot} {value : Word}
    (permitted : member.IsGeneral ∨ member = .ip) :
    Confined word st { st with regs := st.regs.set member value } := by
  have flags_ne : Slot.flags ≠ member := by
    rintro rfl
    exact absurd permitted (by decide)
  have flags_eq : (st.regs.set member value).flags = st.regs.flags :=
    PtRegs.get_set_of_ne st.regs flags_ne value
  refine ⟨?_, ?_, fun _ _ => rfl, rfl, rfl, [], by simp, by simp⟩
  · intro other special notIp _
    apply PtRegs.get_set_of_ne
    rintro rfl
    exact permitted.elim special notIp
  · simp only [flags_eq]

theorem setFlags {st : State} {value : Word}
    (kept : value &&& ~~~Ia32.arithFlags = st.regs.flags &&& ~~~Ia32.arithFlags) :
    Confined word st { st with regs := st.regs.set .flags value } := by
  refine ⟨?_, kept, fun _ _ => rfl, rfl, rfl, [], by simp, by simp⟩
  intro other _ _ notFlags
  exact PtRegs.get_set_of_ne _ notFlags _

theorem logged {st : State} {access : BusAccess} (here : word access.address) :
    Confined word st (st.log access) := by
  refine ⟨fun _ _ _ _ => rfl, rfl, fun _ _ => rfl, rfl, rfl, [access], rfl, ?_⟩
  intro other other_mem
  rw [List.mem_singleton] at other_mem
  exact other_mem ▸ here

theorem stored {st : State} {address value : Word} (here : word address) :
    Confined word st { st with mem := st.mem.store address value } := by
  refine ⟨fun _ _ _ _ => rfl, rfl, ?_, rfl, rfl, [], by simp, by simp⟩
  intro other outside
  exact Memory.byteAt_store_of_not_inWord (outside address here) value

theorem written {ctx : TrapContext} {st : State} {address : Word} {bytes : List Byte}
    (here : word address) (outside : OutsideFrame ctx address) (short : bytes.length ≤ 4) :
    Confined word st (st.writeBytes ctx address bytes) := by
  have inWord : ∀ offset < bytes.length, InWord address (address + BitVec.ofNat 32 offset) := by
    intro offset offset_lt
    exact (inWord_iff_exists_offset _ _).mpr ⟨offset, by omega, rfl⟩
  have outsideBytes : ∀ offset < bytes.length,
      ¬ctx.InFrame (address + BitVec.ofNat 32 offset) := by
    intro offset offset_lt
    exact outside _ (inWord offset offset_lt)
  have regs_eq := State.regs_writeBytes st outsideBytes
  rcases State.mem_perms_writeBytes ctx st address bytes with ⟨present_eq, writable_eq⟩
  refine ⟨?_, by rw [regs_eq], ?_, present_eq, writable_eq, [], ?_, by simp⟩
  · intro member _ _ _
    rw [regs_eq]
  · intro other elsewhere
    apply State.byteAt_writeBytes_of_ne
    rintro offset offset_lt rfl
    exact elsewhere address here (inWord offset offset_lt)
  · rw [State.bus_writeBytes, List.append_nil]

end Confined

/-- On an operand that passed the checks every statement is confined. -/
theorem Confined.permitted {ctx : TrapContext} {operand : Operand} {dest : Ia32.Dest}
    (denotes : operand.Denotes ctx dest) :
    Permitted (Confined (operandWord dest)) ctx operand where
  record inMemory access here := by
    intro st
    apply Confined.logged
    cases denotes with
    | register register dest_eq notInMemory => simp [notInMemory] at inMemory
    | memory address dest_eq _ below outside =>
        rw [dest_eq] at here
        exact here
  flags f kept := by
    intro st
    exact Confined.setFlags (kept st.regs.flags)
  register member general value := by
    intro st
    exact Confined.set (Or.inl general)
  store value := by
    intro st
    cases denotes with
    | register register dest_eq notInMemory =>
        rw [dest_eq]
        exact Confined.set (Or.inl (Slot.isGeneral_ofReg register))
    | memory address dest_eq inMemory below outside =>
        rw [dest_eq]
        rcases assign_user_cases outside value st with stored | oops
        · rw [stored]
          exact Confined.stored (operandWord_mem address)
        · rw [oops]
          exact Confined.refl st
  put inMemory value := by
    intro st
    cases denotes with
    | register register dest_eq notInMemory => simp [notInMemory] at inMemory
    | memory address dest_eq _ below outside =>
        rw [dest_eq, Ptr.address]
        rcases putUser_eq_take ctx value address st with ⟨ret, count, copied⟩
        rw [copied]
        apply Confined.written (operandWord_mem address) outside
        rw [List.length_take]
        exact Nat.min_le_right _ _

/-- Everything that a trap from user mode may change, and every word it may access. -/
structure ConfinedToUser (ctx : TrapContext) (before after : State) : Prop where
  slots : ∀ member : Slot, ¬member.IsGeneral → member ≠ .ip → member ≠ .flags →
    after.regs.get member = before.regs.get member
  flags : after.regs.flags &&& ~~~Ia32.arithFlags = before.regs.flags &&& ~~~Ia32.arithFlags
  bytes : after.mem.byteAt = before.mem.byteAt ∨
    ∃ address : Word, address.toNat + 4 ≤ ctx.addrLimit.toNat ∧
      ∀ other, ¬InWord address other → after.mem.byteAt other = before.mem.byteAt other
  present : after.mem.present = before.mem.present
  writable : after.mem.writable = before.mem.writable
  log : ∃ accesses, after.bus = before.bus ++ accesses ∧
    ∀ access ∈ accesses, (∃ address, access = .check address) ∨
      access.address.toNat + 4 ≤ ctx.addrLimit.toNat

theorem Confined.toUser {ctx : TrapContext} {dest : Ia32.Dest} {before after : State}
    (below : ∀ address, dest = .mem address → address.toNat + 4 ≤ ctx.addrLimit.toNat)
    (confined : Confined (operandWord dest) before after) : ConfinedToUser ctx before after := by
  rcases confined.log with ⟨accesses, bus_eq, here⟩
  refine ⟨confined.slots, confined.flags, ?_, confined.present, confined.writable,
    accesses, bus_eq, ?_⟩
  · cases dest with
    | reg register =>
        left
        funext other
        apply confined.bytes
        rintro address ⟨⟩
    | mem address =>
        right
        refine ⟨address, below address rfl, ?_⟩
        intro other elsewhere
        apply confined.bytes
        rintro operandAddress rfl
        exact elsewhere
  · intro access access_mem
    have here_access := here access access_mem
    cases dest with
    | reg register => exact here_access.elim
    | mem address =>
        right
        rw [show access.address = address from here_access]
        exact below address rfl

/-- Until a handler starts, the instruction pointer has moved and the operand was checked. -/
theorem confined_begun {ctx : TrapContext} {st : State} {operand : Operand} {dest : Ia32.Dest}
    (denotes : operand.Denotes ctx dest) (skip : Nat) :
    Confined (operandWord dest) st (st.begun ctx skip operand) := by
  have advanced : Confined (operandWord dest) st (st.advance (skip + operand.length)) :=
    Confined.set (Or.inr rfl)
  simp only [State.begun]
  cases denotes with
  | register register dest_eq notInMemory =>
      rw [notInMemory]
      exact advanced
  | memory address dest_eq inMemory below outside =>
      rw [inMemory, dest_eq]
      exact advanced.trans (Confined.logged (operandWord_mem address))

/-- The effect of a call is confined wherever it stops, also if it stops with an oops. -/
theorem parseEmuInstruction_confined (ctx : TrapContext) (fromUser : ctx.FromUser) (st : State) :
    ConfinedToUser ctx st (finalState (parseEmuInstruction ctx st)) := by
  have behaviour := parseEmuInstruction_behaviour ctx st
  generalize parseEmuInstruction ctx st = result at behaviour ⊢
  cases behaviour with
  | @refused ret checks negative onlyChecks =>
      refine ⟨fun _ _ _ _ => rfl, rfl, Or.inl rfl, rfl, rfl, checks, rfl, ?_⟩
      intro access access_mem
      exact Or.inl (onlyChecks access access_mem)
  | endbr32 =>
      have advanced : Confined (operandWord (.reg .eax)) st (st.advance 4) :=
        Confined.set (Or.inr rfl)
      exact advanced.toUser (by simp)
  | bswap member general =>
      have advanced : Confined (operandWord (.reg .eax)) st (st.advance 2) :=
        Confined.set (Or.inr rfl)
      exact (advanced.trans (Confined.set (Or.inl general))).toUser (by simp)
  | operated op code skip decodes decoded inRange =>
      rcases denotes_of_fromUser fromUser decodes inRange with ⟨dest, denotes⟩
      have operated := within_operate op (Confined.permitted denotes) decoded
        (Slot.isGeneral_ofReg _)
      exact ((confined_begun denotes skip).trans (operated _)).toUser denotes.below

/-- A trap from user mode on a 386, with the frame on the kernel stack. -/
def sampleContext : TrapContext :=
  { regsAddr := 0xc7000000
    addrLimit := taskSize
    wpWorksOk := false
    kernelFlags := 0x246
    frame_fits := by decide }

/-- A frame in which every general register has a value of its own. -/
def sampleRegs : PtRegs :=
  { bx := 3, cx := 1, dx := 0x0804a000, si := 6, di := 7, bp := 0x0804a080, ax := 5,
    ds := 0x7b, es := 0x7b, fs := 0, gs := 0x33, origAx := 0xffffffff, ip := 0x08048000,
    cs := 0x73, flags := 0x246, sp := 0xbffff000, ss := 0x7b }

/-- Code at the instruction pointer, zeros elsewhere, and the given writable pages. -/
def sampleState (code : List Byte) (writable : Page → Bool) : State :=
  { regs := sampleRegs
    mem :=
      { byteAt := fun address => code.getD (address - sampleRegs.ip).toNat 0
        present := fun _ => true
        writable := writable }
    bus := [] }

theorem sampleState_readable (code : List Byte) (writable : Page → Bool) {address : Word}
    (below : address.toNat + 4 ≤ sampleContext.addrLimit.toNat) :
    Readable sampleContext (sampleState code writable).mem address :=
  { below := bytes_lt_of_add_four_le below
    outside := outsideFrame_of_fromUser (by decide) below
    present := fun _ _ => rfl }

/-- `lock xadd %eax, 0x0804a000`. -/
def lockXaddCode : List Byte := [0xf0, 0x0f, 0xc1, 0x05, 0x00, 0xa0, 0x04, 0x08]

theorem parseEmuInstruction_confined_lockXadd :
    sampleContext.FromUser ∧
      ConfinedToUser sampleContext (sampleState lockXaddCode fun _ => true)
        (finalState (parseEmuInstruction sampleContext (sampleState lockXaddCode fun _ => true))) :=
  ⟨by decide, parseEmuInstruction_confined sampleContext (by decide) _⟩

end Gray386.Emu
