import Gray386.Emu.Refinement

/-!
# Two calls on different memories

Two calls that decode the same operands are compared statement by statement. Their
memories need not be equal. It is enough that a relation on the two states makes the
members of the frame and the bytes of the operand look the same, and that it survives
a write of the same value on both sides. `SharesFrame` and `SharesWord` say so, and
under them every statement of the handlers, and so every handler, has the same outcome
on both sides, on failing paths too.

The instruction pointer is left out of what must look the same. No handler reads it
once its operands are decoded.

The file also shows which bytes the decoder looks at, so that two calls decode the same
operands in the first place.
-/

namespace Gray386.Emu

open Gray386.Machine

/-- Two memories agree on a word, bytes and permissions. -/
structure SameWord (left right : Memory) (address : Word) : Prop where
  bytes : ∀ other, InWord address other → right.byteAt other = left.byteAt other
  present : ∀ other, InWord address other →
    right.present (page other) = left.present (page other)
  writable : ∀ other, InWord address other →
    right.writable (page other) = left.writable (page other)

namespace SameWord

variable {left right : State} {address : Word} (same : SameWord left.mem right.mem address)

include same

theorem storable (ctx : TrapContext) {other : Word} (inside : InWord address other) :
    right.storable ctx other = left.storable ctx other := by
  simp only [State.storable, same.present other inside, same.writable other inside]

theorem userWritable {other : Word} (inside : InWord address other) :
    right.mem.UserWritable other ↔ left.mem.UserWritable other := by
  simp only [Memory.UserWritable, same.present other inside, same.writable other inside]

theorem setByte (target : Word) (value : Byte) :
    SameWord (left.mem.setByte target value) (right.mem.setByte target value) address := by
  refine ⟨?_, same.present, same.writable⟩
  intro other inside
  simp only [Memory.byteAt_setByte, same.bytes other inside]

end SameWord

/-- Every member but the instruction pointer is the same in related states. -/
structure SharesFrame (related : State → State → Prop) : Prop where
  get : ∀ {left right : State}, related left right → ∀ {member : Slot}, member ≠ .ip →
    right.regs.get member = left.regs.get member
  set : ∀ {left right : State}, related left right → ∀ {member : Slot}, member ≠ .ip →
    ∀ value, related { left with regs := left.regs.set member value }
      { right with regs := right.regs.set member value }
  log : ∀ {left right : State}, related left right → ∀ access,
    related (left.log access) (right.log access)

/-- A word has the same bytes and the same permissions in related states. -/
structure SharesWord (ctx : TrapContext) (related : State → State → Prop) (address : Word) :
    Prop where
  readByte : ∀ {left right : State}, related left right → ∀ {other : Word},
    InWord address other → right.readByte ctx other = left.readByte ctx other
  storable : ∀ {left right : State}, related left right → ∀ {other : Word},
    InWord address other → right.storable ctx other = left.storable ctx other
  userWritable : ∀ {left right : State}, related left right → ∀ {other : Word},
    InWord address other → (right.mem.UserWritable other ↔ left.mem.UserWritable other)
  writeByte : ∀ {left right : State}, related left right → ∀ {other : Word},
    InWord address other → ∀ value,
      related (left.writeByte ctx other value) (right.writeByte ctx other value)

namespace SharesWord

variable {ctx : TrapContext} {related : State → State → Prop} {address : Word}
  (shares : SharesWord ctx related address)

include shares

theorem load {left right : State} (states : related left right) :
    right.load ctx address = left.load ctx address := by
  simp only [State.load]
  rw [shares.readByte states (show InWord address address by simp [InWord]),
    shares.readByte states (show InWord address (address + 1) by simp [InWord]),
    shares.readByte states (show InWord address (address + 2) by simp [InWord]),
    shares.readByte states (show InWord address (address + 3) by simp [InWord])]

theorem writeBytes {bytes : List Byte} {target : Word} {left right : State}
    (states : related left right)
    (inside : ∀ offset < bytes.length, InWord address (target + BitVec.ofNat 32 offset)) :
    related (left.writeBytes ctx target bytes) (right.writeBytes ctx target bytes) := by
  induction bytes generalizing left right target with
  | nil => exact states
  | cons value rest ih =>
      have first : InWord address target := by
        simpa using inside 0 (by simp)
      apply ih (shares.writeByte states first value)
      intro offset offset_lt
      rw [add_one_add_ofNat]
      exact inside (offset + 1) (by simpa using offset_lt)

theorem copyUser_related {bytes : List Byte} {target : Word} {left right : State}
    (states : related left right)
    (inside : ∀ offset < bytes.length, InWord address (target + BitVec.ofNat 32 offset)) :
    (copyUser ctx target bytes right).1 = (copyUser ctx target bytes left).1 ∧
      related (copyUser ctx target bytes left).2 (copyUser ctx target bytes right).2 := by
  induction bytes generalizing left right target with
  | nil => exact ⟨rfl, states⟩
  | cons value rest ih =>
      have first : InWord address target := by
        simpa using inside 0 (by simp)
      simp only [copyUser, shares.storable states first]
      by_cases allowed : left.storable ctx target = true
      · rw [if_pos allowed, if_pos allowed]
        apply ih (shares.writeByte states first value)
        intro offset offset_lt
        rw [add_one_add_ofNat]
        exact inside (offset + 1) (by simpa using offset_lt)
      · rw [if_neg allowed, if_neg allowed]
        exact ⟨rfl, states⟩

theorem copyToUserPages_related {fuel : Nat} {bytes : List Byte} {target : Word}
    {left right : State} (states : related left right)
    (inside : ∀ offset < bytes.length, InWord address (target + BitVec.ofNat 32 offset)) :
    (copyToUserPages ctx fuel target bytes right).1 =
        (copyToUserPages ctx fuel target bytes left).1 ∧
      related (copyToUserPages ctx fuel target bytes left).2
        (copyToUserPages ctx fuel target bytes right).2 := by
  induction fuel generalizing left right target bytes with
  | zero => exact ⟨rfl, states⟩
  | succ fuel ih =>
      by_cases empty : bytes = []
      · subst empty
        exact ⟨rfl, states⟩
      · have first : InWord address target := by
          simpa using inside 0 (List.length_pos_iff.mpr empty)
        simp only [copyToUserPages, if_neg empty]
        by_cases allowed : left.mem.UserWritable target
        · rw [if_pos allowed, if_pos ((shares.userWritable states first).mpr allowed)]
          generalize len_eq : min (4096 - target.toNat % 4096) bytes.length = len
          have len_le : len ≤ bytes.length := by omega
          apply ih
          · apply shares.writeBytes states
            intro offset offset_lt
            rw [List.length_take] at offset_lt
            exact inside offset (by omega)
          · intro offset offset_lt
            rw [List.length_drop] at offset_lt
            rw [BitVec.add_assoc, ← BitVec.ofNat_add]
            exact inside (len + offset) (by omega)
        · have allowed' : ¬right.mem.UserWritable target := by
            rw [shares.userWritable states first]
            exact allowed
          rw [if_neg allowed, if_neg allowed']
          exact ⟨rfl, states⟩

theorem coupled_putUser (value : Word) :
    Coupled related (putUser ctx value address) (putUser ctx value address) := by
  intro left right states
  have inside : ∀ offset < [byte value 0, byte value 1, byte value 2, byte value 3].length,
      InWord address (address + BitVec.ofNat 32 offset) := by
    intro offset offset_lt
    exact (inWord_iff_exists_offset _ _).mpr ⟨offset, offset_lt, rfl⟩
  have copied : (copyToUserLl ctx address [byte value 0, byte value 1, byte value 2, byte value 3]
        right).1 = (copyToUserLl ctx address
          [byte value 0, byte value 1, byte value 2, byte value 3] left).1 ∧
      related (copyToUserLl ctx address
          [byte value 0, byte value 1, byte value 2, byte value 3] left).2
        (copyToUserLl ctx address
          [byte value 0, byte value 1, byte value 2, byte value 3] right).2 := by
    simp only [copyToUserLl]
    split_ifs
    · exact shares.copyToUserPages_related states inside
    · exact shares.copyUser_related states inside
  simp only [putUser, copied.1]
  split_ifs
  · exact SameOutcome.ok _ copied.2
  · exact SameOutcome.ok _ copied.2

theorem coupled_getUser :
    Coupled related (getUser ctx address) (getUser ctx address) := by
  intro left right states
  by_cases below : address.toNat + 4 ≤ ctx.addrLimit.toNat
  · rw [getUser_of_le below, getUser_of_le below, shares.load states]
    cases left.load ctx address with
    | none => exact SameOutcome.ok _ states
    | some value => exact SameOutcome.ok _ states
  · rw [getUser_of_not_le below, getUser_of_not_le below]
    exact SameOutcome.ok _ states

theorem coupled_deref_user :
    Coupled related (deref ctx (.user address)) (deref ctx (.user address)) := by
  intro left right states
  simp only [deref, shares.load states]
  cases left.load ctx address with
  | none => exact SameOutcome.error _ states
  | some value => exact SameOutcome.ok _ states

theorem coupled_assign_user (value : Word) :
    Coupled related (assign ctx (.user address) value)
      (assign ctx (.user address) value) := by
  intro left right states
  have storable : ∀ other, InWord address other →
      right.storable ctx other = left.storable ctx other := by
    intro other inside
    exact shares.storable states inside
  simp only [assign, State.store]
  rw [storable address (by simp [InWord]), storable (address + 1) (by simp [InWord]),
    storable (address + 2) (by simp [InWord]), storable (address + 3) (by simp [InWord])]
  split_ifs
  · apply SameOutcome.ok
    apply shares.writeBytes states
    intro offset offset_lt
    exact (inWord_iff_exists_offset _ _).mpr ⟨offset, offset_lt, rfl⟩
  · exact SameOutcome.error _ states

end SharesWord

namespace SharesFrame

variable {related : State → State → Prop} (shares : SharesFrame related)

include shares

theorem coupled_deref_slot (ctx : TrapContext) {member : Slot} (ne : member ≠ .ip) :
    Coupled related (deref ctx (.slot member)) (deref ctx (.slot member)) := by
  intro left right states
  simp only [deref, shares.get states ne]
  exact SameOutcome.ok _ states

theorem coupled_setSlot {member : Slot} (ne : member ≠ .ip) (value : Word) :
    Coupled related (setSlot member value) (setSlot member value) := by
  intro left right states
  exact SameOutcome.ok _ (shares.set states ne value)

theorem coupled_assign_slot (ctx : TrapContext) {member : Slot} (ne : member ≠ .ip)
    (value : Word) :
    Coupled related (assign ctx (.slot member) value) (assign ctx (.slot member) value) :=
  shares.coupled_setSlot ne value

theorem coupled_updateSlot {member : Slot} (ne : member ≠ .ip) (f : Word → Word) :
    Coupled related (updateSlot member f) (updateSlot member f) := by
  intro left right states
  simp only [updateSlot, shares.get states ne]
  exact SameOutcome.ok _ (shares.set states ne _)

theorem coupled_record (access : BusAccess) :
    Coupled related (record access) (record access) := by
  intro left right states
  exact SameOutcome.ok _ (shares.log states access)

theorem coupled_recordDest (pstate : ParserState) (access : BusAccess) :
    Coupled related (recordDest pstate access) (recordDest pstate access) := by
  apply Coupled.ite Iff.rfl
  · exact shares.coupled_record access
  · exact Coupled.pure ()

end SharesFrame

/-- The word of a memory operand. -/
def Operand.word (ctx : TrapContext) (operand : Operand) (address : Word) : Prop :=
  operand.inMemory = true ∧ address = operand.dest.address ctx

/-- An operand that the handlers find the same on both sides. -/
structure Operand.Shared (ctx : TrapContext) (related : State → State → Prop)
    (operand : Operand) : Prop where
  frame : SharesFrame related
  pointer : (∃ register, operand.dest = .slot (Slot.ofReg register)) ∨
    ∃ address, operand.dest = .user address ∧ operand.inMemory = true
  word : operand.inMemory = true → SharesWord ctx related (operand.dest.address ctx)

section Handlers

variable {ctx : TrapContext} {related : State → State → Prop} {pstate : ParserState}
  {src : Slot} {operand : Operand}

theorem coupled_derefDest (shared : operand.Shared ctx related) :
    Coupled related (deref ctx operand.dest) (deref ctx operand.dest) := by
  have word := shared.word
  rcases shared.pointer with ⟨register, dest_eq⟩ | ⟨address, dest_eq, inMemory⟩
  · rw [dest_eq]
    exact shared.frame.coupled_deref_slot ctx (Slot.ofReg_ne_ip register)
  · rw [dest_eq] at word ⊢
    exact (word inMemory).coupled_deref_user

theorem coupled_assignDest (shared : operand.Shared ctx related) (value : Word) :
    Coupled related (assign ctx operand.dest value)
      (assign ctx operand.dest value) := by
  have word := shared.word
  rcases shared.pointer with ⟨register, dest_eq⟩ | ⟨address, dest_eq, inMemory⟩
  · rw [dest_eq]
    exact shared.frame.coupled_assign_slot ctx (Slot.ofReg_ne_ip register) value
  · rw [dest_eq] at word ⊢
    exact (word inMemory).coupled_assign_user value

theorem coupled_loadDest (decoded : Decoded pstate src operand)
    (shared : operand.Shared ctx related) :
    Coupled related (loadDest ctx pstate) (loadDest ctx pstate) := by
  apply Coupled.bind (shared.frame.coupled_recordDest pstate _)
  intro _
  rw [decoded.instDest]
  exact coupled_derefDest shared

theorem coupled_storeDest (decoded : Decoded pstate src operand)
    (shared : operand.Shared ctx related)
    (value : Word) :
    Coupled related (storeDest ctx pstate value)
      (storeDest ctx pstate value) := by
  apply Coupled.bind (shared.frame.coupled_recordDest pstate _)
  intro _
  rw [decoded.instDest]
  exact coupled_assignDest shared value

theorem coupled_xaddDest (decoded : Decoded pstate src operand)
    (shared : operand.Shared ctx related) :
    Coupled related (xaddDest ctx pstate) (xaddDest ctx pstate) := by
  simp only [xaddDest, decoded.regsOnly, decoded.instDest]
  cases inMemory : operand.inMemory with
  | false => exact coupled_derefDest shared
  | true =>
      apply Coupled.bind (shared.frame.coupled_record _)
      intro _
      apply Coupled.bind ((shared.word inMemory).coupled_getUser)
      intro fetched
      exact Coupled.pure fetched.2

theorem coupled_xaddStore (decoded : Decoded pstate src operand)
    (shared : operand.Shared ctx related)
    (value : Word) :
    Coupled related (xaddStore ctx pstate value)
      (xaddStore ctx pstate value) := by
  simp only [xaddStore, decoded.regsOnly, decoded.instDest]
  cases inMemory : operand.inMemory with
  | false => exact coupled_assignDest shared value
  | true =>
      apply Coupled.bind (shared.frame.coupled_record _)
      intro _
      apply Coupled.bind ((shared.word inMemory).coupled_putUser value)
      intro _
      exact Coupled.pure ()

theorem coupled_operateCmpxchg (decoded : Decoded pstate src operand) (src_ne : src ≠ .ip)
    (shared : operand.Shared ctx related) :
    Coupled related (operateCmpxchg ctx pstate)
      (operateCmpxchg ctx pstate) := by
  apply Coupled.bind (coupled_loadDest decoded shared)
  intro found
  apply Coupled.get_bind
  intro left right states
  have accumulator : right.regs.ax = left.regs.ax :=
    shared.frame.get states (show Slot.ax ≠ .ip by decide)
  apply Coupled.ite (by rw [accumulator])
  · apply Coupled.bind (shared.frame.coupled_updateSlot (by decide) _)
    intro _
    apply Coupled.bind
    · rw [decoded.instSrc]
      exact shared.frame.coupled_deref_slot ctx src_ne
    intro value
    apply Coupled.bind (coupled_storeDest decoded shared value)
    intro _
    exact Coupled.pure 1
  · apply Coupled.bind (shared.frame.coupled_updateSlot (by decide) _)
    intro _
    apply Coupled.bind (coupled_loadDest decoded shared)
    intro reread
    apply Coupled.bind (shared.frame.coupled_setSlot (by decide) reread)
    intro _
    exact Coupled.pure 1

theorem coupled_operateXadd (decoded : Decoded pstate src operand) (src_ne : src ≠ .ip)
    (shared : operand.Shared ctx related) :
    Coupled related (operateXadd ctx pstate) (operateXadd ctx pstate) := by
  apply Coupled.bind (coupled_xaddDest decoded shared)
  intro found
  apply Coupled.bind
  · rw [decoded.instSrc]
    exact shared.frame.coupled_deref_slot ctx src_ne
  intro value
  apply Coupled.bind (shared.frame.coupled_updateSlot (by decide) _)
  intro _
  apply Coupled.bind (shared.frame.coupled_updateSlot (by decide) _)
  intro _
  apply Coupled.bind (coupled_loadDest decoded shared)
  intro reread
  apply Coupled.bind
  · rw [decoded.instSrc]
    exact shared.frame.coupled_assign_slot ctx src_ne reread
  intro _
  apply Coupled.bind (coupled_xaddStore decoded shared _)
  intro _
  exact Coupled.pure 1

theorem coupled_operate (op : Ia32.AtomicOp) (decoded : Decoded pstate src operand)
    (src_ne : src ≠ .ip) (shared : operand.Shared ctx related) :
    Coupled related (operate ctx op pstate) (operate ctx op pstate) := by
  cases op with
  | cmpxchg => exact coupled_operateCmpxchg decoded src_ne shared
  | xadd => exact coupled_operateXadd decoded src_ne shared

end Handlers

theorem disp32_congr {code code' : Nat → Byte} (same : ∀ index < 5, code' index = code index) :
    Ia32.disp32 code' 1 = Ia32.disp32 code 1 := by
  simp only [Ia32.disp32]
  rw [same 1 (by decide), same (1 + 1) (by decide), same (1 + 2) (by decide),
    same (1 + 3) (by decide)]

/-- The decoder looks at no byte behind the instruction. -/
theorem decodeOperand_congr (regs : PtRegs) {code code' : Nat → Byte}
    (same : ∀ index < Ia32.modrmLength code, code' index = code index) :
    decodeOperand regs code' = decodeOperand regs code := by
  have modrm : code' 0 = code 0 := same 0 (Ia32.modrmLength_pos code)
  simp only [Ia32.modrmLength] at same
  simp only [decodeOperand, modrm]
  by_cases register : Ia32.modField (code 0) = 3
  · rw [if_pos register, if_pos register]
  rw [if_neg register] at same
  rw [if_neg register, if_neg register]
  by_cases sib : Ia32.rmField (code 0) = 4
  · rw [if_pos sib, if_pos sib]
  rw [if_neg sib] at same
  rw [if_neg sib, if_neg sib]
  by_cases zero : Ia32.modField (code 0) = 0
  · rw [if_pos zero] at same
    rw [if_pos zero, if_pos zero]
    by_cases five : Ia32.rmField (code 0) = 5
    · rw [if_pos five] at same
      rw [if_pos five, if_pos five, disp32_congr same]
    · rw [if_neg five, if_neg five]
  rw [if_neg zero] at same
  rw [if_neg zero, if_neg zero]
  by_cases one : Ia32.modField (code 0) = 1
  · rw [if_pos one] at same
    rw [if_pos one, if_pos one, same 1 (Nat.lt_succ_self 1)]
  · rw [if_neg one] at same
    rw [if_neg one, if_neg one, disp32_congr same]

end Gray386.Emu
