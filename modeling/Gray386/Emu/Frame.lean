import Gray386.Machine.Ia32

/-!
# The saved register frame

`struct pt_regs` of the i386 kernel: seventeen words, in the order in which the
entry code pushes them. The emulator reaches its fields in two ways, by member
access and through pointers to single members, so the fields are also indexed
by `Slot`, and the frame is also an array of bytes for an address that happens
to fall into it.
-/

namespace Gray386.Emu

open Gray386.Machine

/-- The members of `struct pt_regs`, in memory order. -/
inductive Slot where
  | bx | cx | dx | si | di | bp | ax | ds | es | fs | gs | origAx | ip | cs | flags | sp | ss
  deriving DecidableEq, Repr

namespace Slot

/-- The members in memory order. -/
def all : List Slot :=
  [.bx, .cx, .dx, .si, .di, .bp, .ax, .ds, .es, .fs, .gs, .origAx, .ip, .cs, .flags, .sp, .ss]

/-- Position of a member in the frame, in words. -/
def index : Slot → Nat
  | .bx => 0
  | .cx => 1
  | .dx => 2
  | .si => 3
  | .di => 4
  | .bp => 5
  | .ax => 6
  | .ds => 7
  | .es => 8
  | .fs => 9
  | .gs => 10
  | .origAx => 11
  | .ip => 12
  | .cs => 13
  | .flags => 14
  | .sp => 15
  | .ss => 16

/-- The member at a word position. -/
def ofIndex (position : Nat) : Slot :=
  all.getD position .ss

theorem index_lt (slot : Slot) : slot.index < 17 := by
  cases slot <;> decide

theorem ofIndex_index (slot : Slot) : ofIndex slot.index = slot := by
  cases slot <;> rfl

/-- The members that hold general registers. -/
def IsGeneral (slot : Slot) : Prop :=
  slot ∈ [Slot.ax, .cx, .dx, .bx, .sp, .bp, .si, .di]

instance (slot : Slot) : Decidable slot.IsGeneral :=
  inferInstanceAs (Decidable (_ ∈ _))

/-- The member in which the entry code saves a general register. -/
def ofReg : Ia32.Reg → Slot
  | .eax => .ax
  | .ecx => .cx
  | .edx => .dx
  | .ebx => .bx
  | .esp => .sp
  | .ebp => .bp
  | .esi => .si
  | .edi => .di

@[simp]
theorem ofReg_inj {left right : Ia32.Reg} : ofReg left = ofReg right ↔ left = right := by
  cases left <;> cases right <;> decide

theorem isGeneral_ofReg (register : Ia32.Reg) : (ofReg register).IsGeneral := by
  cases register <;> decide

@[simp]
theorem ofReg_ne_ip (register : Ia32.Reg) : ofReg register ≠ .ip := by
  cases register <;> decide

@[simp]
theorem ofReg_ne_flags (register : Ia32.Reg) : ofReg register ≠ .flags := by
  cases register <;> decide

end Slot

/-- `struct pt_regs`. -/
@[ext]
structure PtRegs where
  bx : Word
  cx : Word
  dx : Word
  si : Word
  di : Word
  bp : Word
  ax : Word
  ds : Word
  es : Word
  fs : Word
  gs : Word
  origAx : Word
  ip : Word
  cs : Word
  flags : Word
  sp : Word
  ss : Word
  deriving DecidableEq, Repr

namespace PtRegs

/-- Read a member. -/
def get (regs : PtRegs) : Slot → Word
  | .bx => regs.bx
  | .cx => regs.cx
  | .dx => regs.dx
  | .si => regs.si
  | .di => regs.di
  | .bp => regs.bp
  | .ax => regs.ax
  | .ds => regs.ds
  | .es => regs.es
  | .fs => regs.fs
  | .gs => regs.gs
  | .origAx => regs.origAx
  | .ip => regs.ip
  | .cs => regs.cs
  | .flags => regs.flags
  | .sp => regs.sp
  | .ss => regs.ss

/-- Write a member. -/
def set (regs : PtRegs) (slot : Slot) (value : Word) : PtRegs :=
  match slot with
  | .bx => { regs with bx := value }
  | .cx => { regs with cx := value }
  | .dx => { regs with dx := value }
  | .si => { regs with si := value }
  | .di => { regs with di := value }
  | .bp => { regs with bp := value }
  | .ax => { regs with ax := value }
  | .ds => { regs with ds := value }
  | .es => { regs with es := value }
  | .fs => { regs with fs := value }
  | .gs => { regs with gs := value }
  | .origAx => { regs with origAx := value }
  | .ip => { regs with ip := value }
  | .cs => { regs with cs := value }
  | .flags => { regs with flags := value }
  | .sp => { regs with sp := value }
  | .ss => { regs with ss := value }

@[simp]
theorem get_set_self (regs : PtRegs) (slot : Slot) (value : Word) :
    (regs.set slot value).get slot = value := by
  cases slot <;> rfl

theorem get_set_of_ne (regs : PtRegs) {slot other : Slot} (ne : other ≠ slot) (value : Word) :
    (regs.set slot value).get other = regs.get other := by
  cases slot <;> cases other <;> first | rfl | exact absurd rfl ne

theorem get_set (regs : PtRegs) (slot other : Slot) (value : Word) :
    (regs.set slot value).get other = if other = slot then value else regs.get other := by
  by_cases same : other = slot
  · subst same
    simp
  · rw [if_neg same, get_set_of_ne regs same]

theorem eq_of_get_eq {left right : PtRegs} (agree : ∀ slot, left.get slot = right.get slot) :
    left = right := by
  ext1
  · exact agree .bx
  · exact agree .cx
  · exact agree .dx
  · exact agree .si
  · exact agree .di
  · exact agree .bp
  · exact agree .ax
  · exact agree .ds
  · exact agree .es
  · exact agree .fs
  · exact agree .gs
  · exact agree .origAx
  · exact agree .ip
  · exact agree .cs
  · exact agree .flags
  · exact agree .sp
  · exact agree .ss

/-- Size of the frame in bytes. -/
def size : Nat := 68

/-- Byte `position` of the frame. -/
def byteAt (regs : PtRegs) (position : Nat) : Byte :=
  byte (regs.get (Slot.ofIndex (position / 4))) (position % 4)

/-- Replace byte `position` of the frame. -/
def setByte (regs : PtRegs) (position : Nat) (value : Byte) : PtRegs :=
  let slot := Slot.ofIndex (position / 4)
  let old := regs.get slot
  let pick := fun index => if index = position % 4 then value else byte old index
  regs.set slot (ofBytes (pick 0) (pick 1) (pick 2) (pick 3))

end PtRegs

end Gray386.Emu
