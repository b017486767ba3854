import Gray386.Emu.Access

/-!
# What the decoder computes

The emulator fetches two words and then shifts, masks and merges them. This file
says what comes out of that in terms of the eight bytes that were fetched: which
register slot is the source, which pointer is the destination, and how far the
instruction pointer has moved. `decodeOperand` is the decoder as a function of
the bytes; it is derived from the source and not from the instruction set, and
the two are compared elsewhere.

The two fetch words hold the operand bytes in two different places, depending on
the lock prefix. `AtModrm` describes both, and from there on no statement depends
on the prefix any more.
-/

namespace Gray386.Emu

open Gray386.Machine

namespace State

/-- The state with the saved instruction pointer moved on. -/
def advance (st : State) (count : Nat) : State :=
  { st with regs := st.regs.set .ip (st.regs.ip + BitVec.ofNat 32 count) }

/-- The state with one more entry in the log. -/
def log (st : State) (access : BusAccess) : State :=
  { st with bus := st.bus ++ [access] }

@[simp]
theorem bus_advance (st : State) (count : Nat) : (st.advance count).bus = st.bus := rfl

@[simp]
theorem ip_advance (st : State) (count : Nat) :
    (st.advance count).regs.ip = st.regs.ip + BitVec.ofNat 32 count := rfl

theorem get_advance_of_ne (st : State) (count : Nat) {member : Slot} (ne : member ≠ .ip) :
    (st.advance count).regs.get member = st.regs.get member :=
  PtRegs.get_set_of_ne st.regs ne _

theorem advance_advance (st : State) (first second : Nat) :
    (st.advance first).advance second = st.advance (first + second) := by
  simp only [advance, PtRegs.set]
  rw [BitVec.ofNat_add, BitVec.add_assoc]

theorem advance_zero (st : State) : st.advance 0 = st := by
  simp only [advance, BitVec.add_zero]
  rfl

end State

theorem run_ip_succ (st : State) : updateSlot .ip (· + 1) st = .ok () (st.advance 1) := rfl

theorem toNat_modrmMod (b₀ b₁ b₂ b₃ : Byte) :
    (modrmMod (ofBytes b₀ b₁ b₂ b₃)).toNat = Ia32.modField b₀ := by
  have low := toNat_ofBytes_mod b₀ b₁ b₂ b₃
  simp only [modrmMod, Ia32.modField]
  rw [BitVec.toNat_and, show (3 : Word).toNat = 2 ^ 2 - 1 by rfl,
    Nat.and_two_pow_sub_one_eq_mod, BitVec.toNat_ushiftRight, Nat.shiftRight_eq_div_pow]
  omega

theorem toNat_modrmReg (b₀ b₁ b₂ b₃ : Byte) :
    (modrmReg (ofBytes b₀ b₁ b₂ b₃)).toNat = Ia32.regField b₀ := by
  have low := toNat_ofBytes_mod b₀ b₁ b₂ b₃
  simp only [modrmReg, Ia32.regField]
  rw [BitVec.toNat_and, show (7 : Word).toNat = 2 ^ 3 - 1 by rfl,
    Nat.and_two_pow_sub_one_eq_mod, BitVec.toNat_ushiftRight, Nat.shiftRight_eq_div_pow]
  omega

theorem toNat_modrmRm (b₀ b₁ b₂ b₃ : Byte) :
    (modrmRm (ofBytes b₀ b₁ b₂ b₃)).toNat = Ia32.rmField b₀ := by
  have low := toNat_ofBytes_mod b₀ b₁ b₂ b₃
  simp only [modrmRm, Ia32.rmField]
  rw [BitVec.toNat_and, show (7 : Word).toNat = 2 ^ 3 - 1 by rfl,
    Nat.and_two_pow_sub_one_eq_mod]
  omega

theorem modField_lt (modrm : Byte) : Ia32.modField modrm < 4 := by
  have := modrm.isLt
  simp only [Ia32.modField]
  omega

theorem regField_lt (modrm : Byte) : Ia32.regField modrm < 8 := by
  simp only [Ia32.regField]
  omega

theorem rmField_lt (modrm : Byte) : Ia32.rmField modrm < 8 := by
  simp only [Ia32.rmField]
  omega

/-- The slot of the register that a three-bit field selects. -/
def fieldSlot (field : Nat) : Slot :=
  Slot.ofReg (Ia32.Reg.ofField field)

theorem parseReg_of_lt (reg : Word) (field_lt : reg.toNat < 8) (instSrc : Ptr) :
    parseReg reg instSrc = (1, .slot (fieldSlot reg.toNat)) := by
  simp only [parseReg]
  generalize reg.toNat = field at field_lt
  interval_cases field <;> rfl

theorem parseBase_of_lt (rm : Word) (field_lt : rm.toNat < 8) :
    parseBase rm = if rm.toNat = 4 then none else some (fieldSlot rm.toNat) := by
  simp only [parseBase]
  generalize rm.toNat = field at field_lt
  interval_cases field <;> rfl

theorem fieldSlot_ne_ip (field : Nat) : fieldSlot field ≠ .ip :=
  Slot.ofReg_ne_ip _

/-- A decoded destination operand. -/
structure Operand where
  /-- `inst_dest`. -/
  dest : Ptr
  /-- `regs_only` is zero. -/
  inMemory : Bool
  /-- Bytes taken by ModRM and displacement. -/
  length : Nat
  deriving DecidableEq, Repr

/-- The operand that `parse_modrm_register` finds, where `code 0` is the ModRM byte. -/
def decodeOperand (regs : PtRegs) (code : Nat → Byte) : Option Operand :=
  let mod := Ia32.modField (code 0)
  let rm := Ia32.rmField (code 0)
  let base := regs.get (fieldSlot rm)
  if mod = 3 then some ⟨.slot (fieldSlot rm), false, 1⟩
  else if rm = 4 then none
  else if mod = 0 then
    if rm = 5 then some ⟨.user (Ia32.disp32 code 1), true, 5⟩
    else some ⟨.slot (fieldSlot rm), true, 1⟩
  else if mod = 1 then some ⟨.user (base + (code 1).setWidth 32), true, 2⟩
  else some ⟨.user (base + Ia32.disp32 code 1), true, 5⟩

/-- The slot of the source register. -/
def decodeSource (code : Nat → Byte) : Slot :=
  fieldSlot (Ia32.regField (code 0))

/-- The number of bytes of an optional lock prefix. -/
def lockLength (locked : Bool) : Nat :=
  if locked then 1 else 0

/-- The fetch words when the parser has arrived at the ModRM byte. -/
structure AtModrm (pstate : ParserState) (code : Nat → Byte) (ip : Word) (locked : Bool) :
    Prop where
  insts : pstate.insts =
    if locked then ofBytes (code 0) 0 0 0 else ofBytes (code 0) (code 1) 0 0
  insts2 : pstate.insts2 =
    if locked then ofBytes (code 1) (code 2) (code 3) (code 4)
    else ofBytes (code 2) (code 3) (code 4) (code 5)
  ip_eq : ip = pstate.origIp + BitVec.ofNat 32 (lockLength locked + 2)

/-- The decoder has left these operands in the parser state. -/
structure Decoded (pstate : ParserState) (src : Slot) (operand : Operand) : Prop where
  instSrc : pstate.instSrc = .slot src
  instDest : pstate.instDest = operand.dest
  regsOnly : pstate.regsOnly = if operand.inMemory then 0 else 1

section Displacement

variable {pstate : ParserState} {code : Nat → Byte} {st : State} {locked : Bool}

theorem AtModrm.instSize_eq (at_modrm : AtModrm pstate code st.regs.ip locked) :
    (st.advance 1).regs.ip - pstate.origIp = BitVec.ofNat 32 (lockLength locked + 3) := by
  rw [State.ip_advance, at_modrm.ip_eq, BitVec.add_assoc, ← BitVec.ofNat_add,
    BitVec.add_comm, BitVec.add_sub_cancel]

/-- Both layouts of the fetch words yield the same displacement and the same length. -/
theorem fetchDisp32_spec (at_modrm : AtModrm pstate code st.regs.ip locked) :
    fetchDisp32 { pstate with insts := pstate.insts >>> 8 }
        ((st.advance 1).regs.ip - pstate.origIp) (st.advance 1) =
      .ok { pstate with insts := Ia32.disp32 code 1 } (st.advance 5) := by
  rw [at_modrm.instSize_eq]
  cases locked with
  | false =>
      have merged : pstate.insts >>> 8 ||| pstate.insts2 <<< 8 = Ia32.disp32 code 1 := by
        rw [at_modrm.insts, at_modrm.insts2]
        simp only [Bool.false_eq_true, if_false, ofBytes_ushiftRight_eight,
          ofBytes_or_shiftLeft_eight, Ia32.disp32]
      have run : fetchDisp32 { pstate with insts := pstate.insts >>> 8 }
          (BitVec.ofNat 32 (lockLength false + 3)) (st.advance 1) =
            .ok { pstate with insts := pstate.insts >>> 8 ||| pstate.insts2 <<< 8 }
              (((st.advance 1).advance 1).advance 3) := rfl
      rw [run, merged, State.advance_advance, State.advance_advance]
  | true =>
      have whole : pstate.insts2 = Ia32.disp32 code 1 := by
        rw [at_modrm.insts2]
        rfl
      have run : fetchDisp32 { pstate with insts := pstate.insts >>> 8 }
          (BitVec.ofNat 32 (lockLength true + 3)) (st.advance 1) =
            .ok { pstate with insts := pstate.insts2 }
              (((st.advance 1).advance 0).advance 4) := rfl
      rw [run, whole, State.advance_advance, State.advance_advance]

theorem disp8_insts (at_modrm : AtModrm pstate code st.regs.ip locked) :
    (if (st.advance 1).regs.ip - pstate.origIp = 4 then pstate.insts2 else pstate.insts >>> 8) &&&
      0xff = (code 1).setWidth 32 := by
  rw [at_modrm.instSize_eq]
  cases locked with
  | false =>
      rw [if_neg (by decide), at_modrm.insts]
      simp only [Bool.false_eq_true, if_false, ofBytes_ushiftRight_eight, ofBytes_and_ff]
  | true =>
      rw [if_pos (by decide), at_modrm.insts2]
      simp only [if_true, ofBytes_and_ff]

variable (ctx : TrapContext) {base : Slot} {mod : Word} (rm : Word)

theorem parseDisplacement_none (pstate : ParserState) (st : State) (mod_eq : mod.toNat = 0)
    (rm_ne : rm ≠ 5) :
    ∃ decoded, parseDisplacement ctx pstate mod rm st = .ok (1, decoded) (st.advance 1) ∧
      decoded.instSrc = pstate.instSrc ∧ decoded.regsOnly = pstate.regsOnly ∧
      decoded.instDest = pstate.instDest := by
  refine ⟨{ pstate with insts := pstate.insts >>> 8 }, ?_, rfl, rfl, rfl⟩
  simp only [parseDisplacement]
  rw [run_bind_ok (run_ip_succ st), run_get_bind]
  simp only [mod_eq, if_pos rm_ne]
  rfl

theorem parseDisplacement_absolute (at_modrm : AtModrm pstate code st.regs.ip locked)
    (mod_eq : mod.toNat = 0) (rm_eq : rm = 5) :
    ∃ decoded, parseDisplacement ctx pstate mod rm st = .ok (1, decoded) (st.advance 5) ∧
      decoded.instSrc = pstate.instSrc ∧ decoded.regsOnly = pstate.regsOnly ∧
      decoded.instDest = .user (Ia32.disp32 code 1) := by
  refine ⟨{ pstate with insts := Ia32.disp32 code 1, instDest := .user (Ia32.disp32 code 1) },
    ?_, rfl, rfl, rfl⟩
  simp only [parseDisplacement]
  rw [run_bind_ok (run_ip_succ st), run_get_bind]
  simp only [mod_eq, rm_eq, ne_eq, not_true_eq_false, if_false]
  rw [run_bind_ok (fetchDisp32_spec at_modrm)]
  rfl

theorem parseDisplacement_byte (at_modrm : AtModrm pstate code st.regs.ip locked)
    (mod_eq : mod.toNat = 1) (dest_eq : pstate.instDest = .slot base) (base_ne : base ≠ .ip) :
    ∃ decoded, parseDisplacement ctx pstate mod rm st = .ok (1, decoded) (st.advance 2) ∧
      decoded.instSrc = pstate.instSrc ∧ decoded.regsOnly = pstate.regsOnly ∧
      decoded.instDest = .user (st.regs.get base + (code 1).setWidth 32) := by
  have baseValue : deref ctx pstate.instDest ((st.advance 1).advance 1) =
      .ok (st.regs.get base) ((st.advance 1).advance 1) := by
    rw [dest_eq]
    simp only [deref, State.get_advance_of_ne _ _ base_ne]
  simp only [parseDisplacement]
  rw [run_bind_ok (run_ip_succ st), run_get_bind]
  simp only [mod_eq]
  rw [run_bind_ok (run_ip_succ (st.advance 1)), run_bind_ok baseValue,
    disp8_insts at_modrm, State.advance_advance]
  exact ⟨_, rfl, rfl, rfl, rfl⟩

theorem parseDisplacement_word (at_modrm : AtModrm pstate code st.regs.ip locked)
    (mod_eq : mod.toNat = 2) (dest_eq : pstate.instDest = .slot base) (base_ne : base ≠ .ip) :
    ∃ decoded, parseDisplacement ctx pstate mod rm st = .ok (1, decoded) (st.advance 5) ∧
      decoded.instSrc = pstate.instSrc ∧ decoded.regsOnly = pstate.regsOnly ∧
      decoded.instDest = .user (st.regs.get base + Ia32.disp32 code 1) := by
  have baseValue : deref ctx pstate.instDest (st.advance 5) =
      .ok (st.regs.get base) (st.advance 5) := by
    rw [dest_eq]
    simp only [deref, State.get_advance_of_ne _ _ base_ne]
  simp only [parseDisplacement]
  rw [run_bind_ok (run_ip_succ st), run_get_bind]
  simp only [mod_eq]
  rw [run_bind_ok (fetchDisp32_spec at_modrm), run_bind_ok baseValue]
  exact ⟨_, rfl, rfl, rfl, rfl⟩

end Displacement

section Modrm

variable (ctx : TrapContext) {pstate : ParserState} {code : Nat → Byte} {st : State}
  {locked : Bool}

/-- The fields the source extracts from `insts` are those of the ModRM byte. -/
theorem AtModrm.fields {ip : Word} (at_modrm : AtModrm pstate code ip locked) :
    (modrmMod pstate.insts).toNat = Ia32.modField (code 0) ∧
      (modrmRm pstate.insts).toNat = Ia32.rmField (code 0) ∧
      (modrmReg pstate.insts).toNat = Ia32.regField (code 0) := by
  have shape : ∃ b₁ b₂ b₃, pstate.insts = ofBytes (code 0) b₁ b₂ b₃ := by
    rw [at_modrm.insts]
    cases locked with
    | false => exact ⟨code 1, 0, 0, rfl⟩
    | true => exact ⟨0, 0, 0, rfl⟩
  rcases shape with ⟨b₁, b₂, b₃, insts_eq⟩
  rw [insts_eq]
  exact ⟨toNat_modrmMod _ _ _ _, toNat_modrmRm _ _ _ _, toNat_modrmReg _ _ _ _⟩

theorem AtModrm.withOperands {ip : Word} (at_modrm : AtModrm pstate code ip locked)
    (instSrc instDest : Ptr) (regsOnly : Word) :
    AtModrm { pstate with instSrc := instSrc, instDest := instDest, regsOnly := regsOnly }
      code ip locked :=
  ⟨at_modrm.insts, at_modrm.insts2, at_modrm.ip_eq⟩

theorem parseModrmRegister_of_some (at_modrm : AtModrm pstate code st.regs.ip locked)
    {operand : Operand} (decodes : decodeOperand st.regs code = some operand) :
    ∃ decoded, parseModrmRegister ctx pstate st =
        .ok (1, decoded) (st.advance operand.length) ∧
      Decoded decoded (decodeSource code) operand := by
  rcases at_modrm.fields with ⟨mod_eq, rm_eq, reg_eq⟩
  have mod_lt := modField_lt (code 0)
  have src := parseReg_of_lt (modrmReg pstate.insts)
    (by rw [reg_eq]; exact regField_lt _) pstate.instSrc
  have dest := parseReg_of_lt (modrmRm pstate.insts)
    (by rw [rm_eq]; exact rmField_lt _) pstate.instDest
  have base := parseBase_of_lt (modrmRm pstate.insts)
    (by rw [rm_eq]; exact rmField_lt _)
  rw [reg_eq] at src
  rw [rm_eq] at dest base
  have mod_iff : modrmMod pstate.insts = 3 ↔ Ia32.modField (code 0) = 3 := by
    rw [← mod_eq, ← BitVec.toNat_inj]
    rfl
  have rm_iff : modrmRm pstate.insts = 5 ↔ Ia32.rmField (code 0) = 5 := by
    rw [← rm_eq, ← BitVec.toNat_inj]
    rfl
  simp only [decodeOperand] at decodes
  simp only [parseModrmRegister, src, dest, base]
  rw [if_neg (by decide)]
  by_cases register : Ia32.modField (code 0) = 3
  · rw [if_pos register, Option.some.injEq] at decodes
    subst decodes
    rw [if_pos (mod_iff.mpr register), if_neg (by decide), run_bind_ok (run_ip_succ st)]
    exact ⟨_, rfl, rfl, rfl, rfl⟩
  · rw [if_neg register] at decodes
    rw [if_neg (fun mod_three => register (mod_iff.mp mod_three))]
    by_cases sib : Ia32.rmField (code 0) = 4
    · rw [if_pos sib] at decodes
      exact absurd decodes (by simp)
    · rw [if_neg sib] at decodes ⊢
      have moved := at_modrm.withOperands (.slot (fieldSlot (Ia32.regField (code 0))))
        (.slot (fieldSlot (Ia32.rmField (code 0)))) 0
      by_cases zero : Ia32.modField (code 0) = 0
      · rw [if_pos zero] at decodes
        by_cases five : Ia32.rmField (code 0) = 5
        · rw [if_pos five, Option.some.injEq] at decodes
          subst decodes
          rcases parseDisplacement_absolute ctx _ moved (mod_eq.trans zero)
            (rm_iff.mpr five) with ⟨decoded, run, src_eq, only_eq, dest_eq⟩
          exact ⟨decoded, run, src_eq, dest_eq, only_eq⟩
        · rw [if_neg five, Option.some.injEq] at decodes
          subst decodes
          rcases parseDisplacement_none ctx _
            { pstate with
              instSrc := .slot (fieldSlot (Ia32.regField (code 0)))
              instDest := .slot (fieldSlot (Ia32.rmField (code 0)))
              regsOnly := 0 } st
            (mod_eq.trans zero) (fun rm_five => five (rm_iff.mp rm_five))
            with ⟨decoded, run, src_eq, only_eq, dest_eq⟩
          exact ⟨decoded, run, src_eq, dest_eq, only_eq⟩
      · rw [if_neg zero] at decodes
        by_cases one : Ia32.modField (code 0) = 1
        · rw [if_pos one, Option.some.injEq] at decodes
          subst decodes
          rcases parseDisplacement_byte ctx (modrmRm pstate.insts) moved
            (mod_eq.trans one) rfl (fieldSlot_ne_ip _) with ⟨decoded, run, src_eq, only_eq, dest_eq⟩
          exact ⟨decoded, run, src_eq, dest_eq, only_eq⟩
        · rw [if_neg one, Option.some.injEq] at decodes
          subst decodes
          have two : (modrmMod pstate.insts).toNat = 2 := by omega
          rcases parseDisplacement_word ctx (modrmRm pstate.insts) moved
            two rfl (fieldSlot_ne_ip _) with ⟨decoded, run, src_eq, only_eq, dest_eq⟩
          exact ⟨decoded, run, src_eq, dest_eq, only_eq⟩

/-- A SIB byte is the only thing the decoder refuses, and it has not moved by then. -/
theorem parseModrmRegister_of_none (at_modrm : AtModrm pstate code st.regs.ip locked)
    (refuses : decodeOperand st.regs code = none) :
    ∃ decoded, parseModrmRegister ctx pstate st = .ok (-eopnotsupp, decoded) st := by
  rcases at_modrm.fields with ⟨mod_eq, rm_eq, reg_eq⟩
  have src := parseReg_of_lt (modrmReg pstate.insts)
    (by rw [reg_eq]; exact regField_lt _) pstate.instSrc
  have base := parseBase_of_lt (modrmRm pstate.insts)
    (by rw [rm_eq]; exact rmField_lt _)
  rw [rm_eq] at base
  simp only [decodeOperand] at refuses
  split_ifs at refuses with register sib
  have mod_ne : ¬modrmMod pstate.insts = 3 := by
    intro mod_three
    rw [mod_three] at mod_eq
    exact register mod_eq.symm
  simp only [parseModrmRegister, src, base, if_pos sib]
  rw [if_neg (by decide), if_neg mod_ne]
  exact ⟨_, rfl⟩

end Modrm

end Gray386.Emu
