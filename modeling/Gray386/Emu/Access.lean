import Gray386.Emu.Instruction
import Gray386.Machine.Effect
import Mathlib.Tactic.IntervalCases
import Mathlib.Tactic.SplitIfs

/-!
# What the accessors do on user memory

The range checks of `access_ok` and `get_user` are written with carries and
borrows; both say that a word lies entirely below the address limit, and neither
is fooled by an address near `2 ^ 32`. On a word outside the saved frame every
accessor works on user memory alone. The lemmas below state this once, so that
the proofs about instructions never open an accessor.
-/

namespace Gray386.Emu

open Gray386.Machine

/-- The range check is a comparison in 33 bits. -/
theorem accessOk_iff (ctx : TrapContext) (address : Word) :
    accessOk ctx address 4 = true ↔ address.toNat + 4 ≤ ctx.addrLimit.toNat := by
  have limit_lt := ctx.addrLimit.isLt
  have size_eq : (4 : Word).toNat = 4 := rfl
  simp only [accessOk, rangeNotOk, size_eq, decide_eq_true_eq]
  by_cases carry : 2 ^ 32 ≤ address.toNat + 4
  · rw [if_pos carry]
    constructor
    · intro flagZero
      split_ifs at flagZero
      · exact absurd flagZero (by decide)
      · exact absurd flagZero (by decide)
    · intro fits
      omega
  · rw [if_neg carry]
    have sum_eq : (address + 4).toNat = address.toNat + 4 := by
      rw [BitVec.toNat_add, size_eq]
      omega
    have borrow_iff : ctx.addrLimit < address + 4 ↔ ctx.addrLimit.toNat < address.toNat + 4 := by
      rw [BitVec.lt_def, sum_eq]
    constructor
    · intro flagZero
      by_contra exceeds
      rw [if_pos (borrow_iff.mpr (by omega))] at flagZero
      exact absurd flagZero (by decide)
    · intro fits
      rw [if_neg (fun borrow => absurd (borrow_iff.mp borrow) (by omega))]
      decide

theorem accessOk_eq_false_iff (ctx : TrapContext) (address : Word) :
    accessOk ctx address 4 = false ↔ ctx.addrLimit.toNat < address.toNat + 4 := by
  rw [← Bool.not_eq_true, accessOk_iff]
  omega

theorem getUser_of_le {ctx : TrapContext} {address : Word}
    (below : address.toNat + 4 ≤ ctx.addrLimit.toNat) (st : State) :
    getUser ctx address st =
      match st.load ctx address with
      | some value => .ok (0, value) st
      | none => .ok (-efault, 0) st := by
  have limit_lt := ctx.addrLimit.isLt
  have noCarry : ¬2 ^ 32 ≤ address.toNat + 3 := by omega
  have last_eq : (address + 3).toNat = address.toNat + 3 := by
    rw [BitVec.toNat_add, show (3 : Word).toNat = 3 from rfl]
    omega
  have inRange : ¬ctx.addrLimit ≤ address + 3 := by
    rw [BitVec.le_def, last_eq]
    omega
  cases loaded : st.load ctx address with
  | none => simp only [getUser, if_neg noCarry, if_neg inRange, loaded]
  | some value => simp only [getUser, if_neg noCarry, if_neg inRange, loaded]

theorem getUser_of_not_le {ctx : TrapContext} {address : Word}
    (exceeds : ¬address.toNat + 4 ≤ ctx.addrLimit.toNat) (st : State) :
    getUser ctx address st = .ok (-efault, 0) st := by
  by_cases carry : 2 ^ 32 ≤ address.toNat + 3
  · simp only [getUser, if_pos carry]
  · have last_eq : (address + 3).toNat = address.toNat + 3 := by
      rw [BitVec.toNat_add, show (3 : Word).toNat = 3 from rfl]
      omega
    have outOfRange : ctx.addrLimit ≤ address + 3 := by
      rw [BitVec.le_def, last_eq]
      omega
    simp only [getUser, if_neg carry, if_pos outOfRange]

theorem getUser_cases (ctx : TrapContext) (address : Word) (st : State) :
    getUser ctx address st = .ok (-efault, 0) st ∨
      ∃ value, address.toNat + 4 ≤ ctx.addrLimit.toNat ∧ st.load ctx address = some value ∧
        getUser ctx address st = .ok (0, value) st := by
  by_cases below : address.toNat + 4 ≤ ctx.addrLimit.toNat
  · rw [getUser_of_le below]
    cases loaded : st.load ctx address with
    | none => exact Or.inl rfl
    | some value => exact Or.inr ⟨value, below, rfl, rfl⟩
  · exact Or.inl (getUser_of_not_le below st)

/-- No byte of the word belongs to the saved frame. -/
def OutsideFrame (ctx : TrapContext) (address : Word) : Prop :=
  ∀ other, InWord address other → ¬ctx.InFrame other

/-- The four bytes are mapped bytes of user memory below the address limit. -/
structure Readable (ctx : TrapContext) (memory : Memory) (address : Word) : Prop where
  below : ∀ other, InWord address other → other.toNat < ctx.addrLimit.toNat
  outside : OutsideFrame ctx address
  present : ∀ other, InWord address other → memory.present (page other) = true

/-- The four bytes may also be written from user mode. -/
structure ReadWrite (ctx : TrapContext) (memory : Memory) (address : Word) : Prop
    extends Readable ctx memory address where
  writable : ∀ other, InWord address other → memory.writable (page other) = true

/--
If all four bytes lie below the limit, the word does not wrap around: the last
address of the address space is not below any limit.
-/
theorem add_four_le_of_bytes_lt {limit address : Word}
    (below : ∀ other, InWord address other → other.toNat < limit.toNat) :
    address.toNat + 4 ≤ limit.toNat := by
  have limit_lt := limit.isLt
  have noWrap : address.toNat + 3 < 2 ^ 32 := by
    by_contra wraps
    have gap_lt : 2 ^ 32 - 1 - address.toNat < 4 := by
      have := address.isLt
      omega
    have last := below (address + BitVec.ofNat 32 (2 ^ 32 - 1 - address.toNat))
      ((inWord_iff_exists_offset _ _).mpr ⟨_, gap_lt, rfl⟩)
    rw [BitVec.toNat_add, BitVec.toNat_ofNat] at last
    have := address.isLt
    omega
  have last := below (address + 3) (by simp [InWord])
  rw [BitVec.toNat_add, show (3 : Word).toNat = 3 from rfl] at last
  omega

theorem bytes_lt_of_add_four_le {limit address : Word}
    (below : address.toNat + 4 ≤ limit.toNat) :
    ∀ other, InWord address other → other.toNat < limit.toNat := by
  intro other inside
  have limit_lt := limit.isLt
  rcases (inWord_iff_exists_offset _ _).mp inside with ⟨offset, offset_lt, rfl⟩
  rw [BitVec.toNat_add, BitVec.toNat_ofNat]
  omega

theorem Readable.add_four_le {ctx : TrapContext} {memory : Memory} {address : Word}
    (readable : Readable ctx memory address) :
    address.toNat + 4 ≤ ctx.addrLimit.toNat :=
  add_four_le_of_bytes_lt readable.below

/-- In a trap from user mode no word below the limit touches the frame. -/
theorem outsideFrame_of_fromUser {ctx : TrapContext} (fromUser : ctx.FromUser) {address : Word}
    (below : address.toNat + 4 ≤ ctx.addrLimit.toNat) : OutsideFrame ctx address := by
  intro other inside inFrame
  have other_lt := bytes_lt_of_add_four_le below other inside
  simp only [TrapContext.FromUser] at fromUser
  have := inFrame.1
  omega

/-- In a trap from user mode the address of a frame member fails the range check. -/
theorem slot_accessOk_of_fromUser {ctx : TrapContext} (fromUser : ctx.FromUser) (member : Slot) :
    accessOk ctx ((Ptr.slot member).address ctx) 4 = false := by
  rw [accessOk_eq_false_iff]
  have fits := ctx.frame_fits
  have index_lt := member.index_lt
  simp only [TrapContext.FromUser] at fromUser
  simp only [PtRegs.size] at fits
  simp only [Ptr.address, BitVec.toNat_add, BitVec.toNat_ofNat]
  omega

namespace State

theorem readByte_of_not_inFrame {ctx : TrapContext} {st : State} {address : Word}
    (outside : ¬ctx.InFrame address) :
    st.readByte ctx address =
      if st.mem.present (page address) then some (st.mem.byteAt address) else none := by
  rw [readByte, if_neg outside]

theorem load_of_present {ctx : TrapContext} {st : State} {address : Word}
    (outside : OutsideFrame ctx address)
    (present : ∀ other, InWord address other → st.mem.present (page other) = true) :
    st.load ctx address = some (st.mem.load address) := by
  have readBytes : ∀ other, InWord address other →
      st.readByte ctx other = some (st.mem.byteAt other) := by
    intro other inside
    rw [readByte_of_not_inFrame (outside other inside), if_pos (present other inside)]
  simp only [load]
  rw [readBytes address (by simp [InWord]), readBytes (address + 1) (by simp [InWord]),
    readBytes (address + 2) (by simp [InWord]), readBytes (address + 3) (by simp [InWord])]
  rfl

theorem load_of_absent {ctx : TrapContext} {st : State} {address other : Word}
    (outside : OutsideFrame ctx address) (inside : InWord address other)
    (absent : st.mem.present (page other) = false) :
    st.load ctx address = none := by
  have missing : st.readByte ctx other = none := by
    rw [readByte_of_not_inFrame (outside other inside), absent]
    rfl
  simp only [load]
  rcases inside with rfl | rfl | rfl | rfl
  · simp only [missing, Option.bind_eq_bind, Option.bind_none]
  · simp only [missing, Option.bind_eq_bind, Option.bind_none, Option.bind_fun_none]
  · simp only [missing, Option.bind_eq_bind, Option.bind_none, Option.bind_fun_none]
  · simp only [missing, Option.bind_eq_bind, Option.bind_none, Option.bind_fun_none]

theorem writeByte_of_not_inFrame {ctx : TrapContext} {st : State} {address : Word}
    (outside : ¬ctx.InFrame address) (value : Byte) :
    st.writeByte ctx address value = { st with mem := st.mem.setByte address value } := by
  rw [writeByte, if_neg outside]

/-- Writing the four bytes of a word outside the frame stores it in user memory. -/
theorem writeBytes_of_outside {ctx : TrapContext} {st : State} {address : Word}
    (outside : OutsideFrame ctx address) (value : Word) :
    st.writeBytes ctx address [byte value 0, byte value 1, byte value 2, byte value 3] =
      { st with mem := st.mem.store address value } := by
  have two : address + 1 + 1 = address + 2 := by
    rw [BitVec.add_assoc]
    rfl
  have three : address + 2 + 1 = address + 3 := by
    rw [BitVec.add_assoc]
    rfl
  simp only [writeBytes, two, three]
  rw [writeByte_of_not_inFrame (outside address (by simp [InWord])),
    writeByte_of_not_inFrame (outside (address + 1) (by simp [InWord])),
    writeByte_of_not_inFrame (outside (address + 2) (by simp [InWord])),
    writeByte_of_not_inFrame (outside (address + 3) (by simp [InWord]))]
  rfl

theorem writeBytes_append (ctx : TrapContext) (st : State) (address : Word)
    (front back : List Byte) :
    st.writeBytes ctx address (front ++ back) =
      (st.writeBytes ctx address front).writeBytes ctx
        (address + BitVec.ofNat 32 front.length) back := by
  induction front generalizing st address with
  | nil => simp [writeBytes]
  | cons value rest ih =>
      simp only [List.cons_append, writeBytes]
      rw [ih, add_one_add_ofNat, List.length_cons]

theorem mem_perms_writeByte (ctx : TrapContext) (st : State) (address : Word) (value : Byte) :
    (st.writeByte ctx address value).mem.present = st.mem.present ∧
      (st.writeByte ctx address value).mem.writable = st.mem.writable := by
  rw [writeByte]
  split_ifs
  · exact ⟨rfl, rfl⟩
  · exact ⟨rfl, rfl⟩

theorem mem_perms_writeBytes (ctx : TrapContext) (st : State) (address : Word)
    (bytes : List Byte) :
    (st.writeBytes ctx address bytes).mem.present = st.mem.present ∧
      (st.writeBytes ctx address bytes).mem.writable = st.mem.writable := by
  induction bytes generalizing st address with
  | nil => exact ⟨rfl, rfl⟩
  | cons value rest ih =>
      have head := mem_perms_writeByte ctx st address value
      have tail := ih (st.writeByte ctx address value) (address + 1)
      exact ⟨tail.1.trans head.1, tail.2.trans head.2⟩

theorem bus_writeBytes (ctx : TrapContext) (st : State) (address : Word) (bytes : List Byte) :
    (st.writeBytes ctx address bytes).bus = st.bus := by
  induction bytes generalizing st address with
  | nil => rfl
  | cons value rest ih =>
      simp only [writeBytes, ih, writeByte]
      split_ifs
      · rfl
      · rfl

theorem regs_writeBytes {ctx : TrapContext} (st : State) {address : Word} {bytes : List Byte}
    (outside : ∀ offset < bytes.length, ¬ctx.InFrame (address + BitVec.ofNat 32 offset)) :
    (st.writeBytes ctx address bytes).regs = st.regs := by
  induction bytes generalizing st address with
  | nil => rfl
  | cons value rest ih =>
      have headOutside : ¬ctx.InFrame address := by
        simpa using outside 0 (by simp)
      simp only [writeBytes]
      rw [ih, writeByte_of_not_inFrame headOutside]
      intro offset offset_lt
      rw [add_one_add_ofNat]
      exact outside (offset + 1) (by simpa using offset_lt)

theorem byteAt_writeByte_of_ne (ctx : TrapContext) (st : State) {address other : Word}
    (ne : other ≠ address) (value : Byte) :
    (st.writeByte ctx address value).mem.byteAt other = st.mem.byteAt other := by
  rw [writeByte]
  split_ifs
  · rfl
  · simp only [Memory.byteAt_setByte, if_neg ne]

theorem byteAt_writeBytes_of_ne (ctx : TrapContext) (st : State) {address other : Word}
    {bytes : List Byte}
    (distinct : ∀ offset < bytes.length, other ≠ address + BitVec.ofNat 32 offset) :
    (st.writeBytes ctx address bytes).mem.byteAt other = st.mem.byteAt other := by
  induction bytes generalizing st address with
  | nil => rfl
  | cons value rest ih =>
      have ne : other ≠ address := by
        simpa using distinct 0 (by simp)
      simp only [writeBytes]
      rw [ih, byteAt_writeByte_of_ne ctx st ne]
      intro offset offset_lt
      rw [add_one_add_ofNat]
      exact distinct (offset + 1) (by simpa using offset_lt)

end State

/-- The page loop stops after some number of bytes and has copied exactly those. -/
theorem copyToUserPages_eq_take (ctx : TrapContext) (fuel : Nat) (target : Word)
    (bytes : List Byte) (st : State) :
    ∃ count ≤ bytes.length, copyToUserPages ctx fuel target bytes st =
      (bytes.length - count, st.writeBytes ctx target (bytes.take count)) := by
  induction fuel generalizing target bytes st with
  | zero => exact ⟨0, by omega, by simp [copyToUserPages, State.writeBytes]⟩
  | succ fuel ih =>
      by_cases empty : bytes = []
      · subst empty
        exact ⟨0, by simp, by simp [copyToUserPages, State.writeBytes]⟩
      · simp only [copyToUserPages, if_neg empty]
        by_cases allowed : st.mem.UserWritable target
        · rw [if_pos allowed]
          generalize len_eq : min (4096 - target.toNat % 4096) bytes.length = len
          have len_le : len ≤ bytes.length := by omega
          rcases ih (target + BitVec.ofNat 32 len) (bytes.drop len)
            (st.writeBytes ctx target (bytes.take len)) with ⟨count, count_le, copied⟩
          rw [List.length_drop] at count_le
          refine ⟨len + count, by omega, ?_⟩
          rw [copied, List.take_add, State.writeBytes_append, List.length_take,
            Nat.min_eq_left len_le, List.length_drop]
          congr 1
          omega
        · rw [if_neg allowed]
          exact ⟨0, by omega, by simp [State.writeBytes]⟩

theorem copyUser_eq_take (ctx : TrapContext) (target : Word) (bytes : List Byte) (st : State) :
    ∃ count ≤ bytes.length, copyUser ctx target bytes st =
      (bytes.length - count, st.writeBytes ctx target (bytes.take count)) := by
  induction bytes generalizing target st with
  | nil => exact ⟨0, by simp, by simp [copyUser, State.writeBytes]⟩
  | cons value rest ih =>
      simp only [copyUser]
      by_cases allowed : st.storable ctx target = true
      · rw [if_pos allowed]
        rcases ih (target + 1) (st.writeByte ctx target value) with ⟨count, count_le, copied⟩
        refine ⟨count + 1, by simpa using count_le, ?_⟩
        rw [copied, List.take_succ_cons, State.writeBytes, List.length_cons]
        congr 1
        omega
      · rw [if_neg allowed]
        exact ⟨0, by omega, by simp [State.writeBytes]⟩

theorem copyToUserLl_eq_take (ctx : TrapContext) (target : Word) (bytes : List Byte)
    (st : State) :
    ∃ count ≤ bytes.length, copyToUserLl ctx target bytes st =
      (bytes.length - count, st.writeBytes ctx target (bytes.take count)) := by
  rw [copyToUserLl]
  split_ifs
  · exact copyToUserPages_eq_take ctx bytes.length target bytes st
  · exact copyUser_eq_take ctx target bytes st

/-- Where every byte may be written from user mode, the page loop copies all. -/
theorem copyToUserPages_of_userWritable {ctx : TrapContext} {fuel : Nat} {target : Word}
    {bytes : List Byte} {st : State} (enough : bytes.length ≤ fuel)
    (allowed : ∀ offset < bytes.length,
      st.mem.UserWritable (target + BitVec.ofNat 32 offset)) :
    copyToUserPages ctx fuel target bytes st = (0, st.writeBytes ctx target bytes) := by
  induction fuel generalizing target bytes st with
  | zero =>
      have empty : bytes = [] := List.eq_nil_of_length_eq_zero (by omega)
      subst empty
      rfl
  | succ fuel ih =>
      by_cases empty : bytes = []
      · subst empty
        rfl
      · have length_pos := List.length_pos_iff.mpr empty
        have first : st.mem.UserWritable target := by
          simpa using allowed 0 length_pos
        simp only [copyToUserPages, if_neg empty, if_pos first]
        generalize len_eq : min (4096 - target.toNat % 4096) bytes.length = len
        have len_pos : 0 < len := by omega
        have len_le : len ≤ bytes.length := by omega
        have perms := State.mem_perms_writeBytes ctx st target (bytes.take len)
        rw [ih (by rw [List.length_drop]; omega) (by
          intro offset offset_lt
          rw [List.length_drop] at offset_lt
          have shifted := allowed (len + offset) (by omega)
          rw [BitVec.ofNat_add, ← BitVec.add_assoc] at shifted
          simpa only [Memory.UserWritable, perms.1, perms.2] using shifted)]
        have rejoin := State.writeBytes_append ctx st target (bytes.take len) (bytes.drop len)
        rw [List.take_append_drop, List.length_take, Nat.min_eq_left len_le] at rejoin
        rw [rejoin]

theorem copyUser_of_storable {ctx : TrapContext} {target : Word} {bytes : List Byte} {st : State}
    (allowed : ∀ offset < bytes.length,
      st.mem.UserWritable (target + BitVec.ofNat 32 offset)) :
    copyUser ctx target bytes st = (0, st.writeBytes ctx target bytes) := by
  induction bytes generalizing target st with
  | nil => rfl
  | cons value rest ih =>
      have first : st.mem.UserWritable target := by
        simpa using allowed 0 (by simp)
      have storable : st.storable ctx target = true := by
        simp [State.storable, first.1, first.2]
      have perms := State.mem_perms_writeByte ctx st target value
      simp only [copyUser, if_pos storable]
      rw [ih (by
        intro offset offset_lt
        have shifted := allowed (offset + 1) (by simpa using offset_lt)
        rw [← add_one_add_ofNat] at shifted
        simpa only [Memory.UserWritable, perms.1, perms.2] using shifted)]
      rfl

theorem putUser_eq_take (ctx : TrapContext) (value address : Word) (st : State) :
    ∃ ret count, putUser ctx value address st =
      .ok ret (st.writeBytes ctx address
        ([byte value 0, byte value 1, byte value 2, byte value 3].take count)) := by
  rcases copyToUserLl_eq_take ctx address
    [byte value 0, byte value 1, byte value 2, byte value 3] st with ⟨count, _, copied⟩
  simp only [putUser, copied]
  split_ifs
  · exact ⟨-efault, count, rfl⟩
  · exact ⟨0, count, rfl⟩

theorem putUser_of_readWrite {ctx : TrapContext} (st : State) {address : Word}
    (operand : ReadWrite ctx st.mem address) (value : Word) :
    putUser ctx value address st = .ok 0 { st with mem := st.mem.store address value } := by
  have allowed : ∀ offset < 4, st.mem.UserWritable (address + BitVec.ofNat 32 offset) := by
    intro offset offset_lt
    have inside := (inWord_iff_exists_offset address _).mpr ⟨offset, offset_lt, rfl⟩
    exact ⟨operand.present _ inside, operand.writable _ inside⟩
  have copied : copyToUserLl ctx address
      [byte value 0, byte value 1, byte value 2, byte value 3] st =
        (0, { st with mem := st.mem.store address value }) := by
    rw [← State.writeBytes_of_outside operand.outside, copyToUserLl]
    split_ifs
    · exact copyToUserPages_of_userWritable (by simp) allowed
    · exact copyUser_of_storable allowed
  simp only [putUser, copied]
  rfl

theorem getUser_of_readable {ctx : TrapContext} (st : State) {address : Word}
    (readable : Readable ctx st.mem address) :
    getUser ctx address st = .ok (0, st.mem.load address) st := by
  rw [getUser_of_le readable.add_four_le, State.load_of_present readable.outside readable.present]

theorem deref_of_readable {ctx : TrapContext} (st : State) {address : Word}
    (readable : Readable ctx st.mem address) :
    deref ctx (.user address) st = .ok (st.mem.load address) st := by
  simp only [deref, State.load_of_present readable.outside readable.present]

theorem assign_user_cases {ctx : TrapContext} {address : Word}
    (outside : OutsideFrame ctx address) (value : Word) (st : State) :
    assign ctx (.user address) value st =
        .ok () { st with mem := st.mem.store address value } ∨
      assign ctx (.user address) value st = .error ⟨address⟩ st := by
  simp only [assign, State.store]
  split_ifs with allowed
  · left
    rw [State.writeBytes_of_outside outside]
  · right
    rfl

theorem assign_of_readWrite {ctx : TrapContext} (st : State) {address : Word}
    (operand : ReadWrite ctx st.mem address) (value : Word) :
    assign ctx (.user address) value st =
      .ok () { st with mem := st.mem.store address value } := by
  have storable : ∀ other, InWord address other → st.storable ctx other = true := by
    intro other inside
    simp [State.storable, operand.present other inside, operand.writable other inside]
  have allowed : (st.storable ctx address && st.storable ctx (address + 1) &&
      st.storable ctx (address + 2) && st.storable ctx (address + 3)) = true := by
    rw [storable address (by simp [InWord]), storable (address + 1) (by simp [InWord]),
      storable (address + 2) (by simp [InWord]), storable (address + 3) (by simp [InWord])]
    rfl
  simp only [assign, State.store, if_pos allowed, State.writeBytes_of_outside operand.outside]

end Gray386.Emu
