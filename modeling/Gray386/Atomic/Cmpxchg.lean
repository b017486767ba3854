import Gray386.Machine.Word

/-!
# Compare and exchange without the instruction

On a processor without `cmpxchg` the kernel's macro of that name calls `cmpxchg_386`, which
disables interrupts and goes on in plain C. The arguments are converted to `unsigned long`,
then to the type with the size of the variable, and the previous value takes the same way
back. There is a function for each of the sizes 1, 2 and 4. For any other size
`cmpxchg_386` falls through its `switch` and returns the value that was expected, whereas
the macro with the instruction has a fourth case for eight bytes and does not link for
anything else.

The values of a type are the bit patterns of its size. Whether the type is signed decides
only how it is converted to a wider one.
-/

namespace Gray386.Atomic

open Gray386.Machine

/-- The sizes that the macro is used with. -/
inductive Size where
  | one | two | four | eight
  deriving DecidableEq, Repr

def Size.bits : Size → Nat
  | .one => 8
  | .two => 16
  | .four => 32
  | .eight => 64

/-- An integer type, `__typeof__(*(ptr))`. -/
structure Pointee where
  size : Size
  signed : Bool
  deriving DecidableEq, Repr

abbrev Pointee.Value (type : Pointee) : Type := BitVec type.size.bits

namespace Pointee

def int : Pointee := ⟨.four, true⟩

variable (type : Pointee)

/-- The conversion to `unsigned long`. -/
def toUnsignedLong (value : type.Value) : Word :=
  if type.signed then value.signExtend 32 else value.setWidth 32

/-- The conversion from `unsigned long`. -/
def ofUnsignedLong (long : Word) : type.Value :=
  long.setWidth type.size.bits

end Pointee

/-- What they do with interrupts disabled: the previous value, and what is stored then. -/
def compareAndStore {width : Nat} (prev old new : BitVec width) : Word × BitVec width :=
  (prev.setWidth 32, if prev = old then new else prev)

def cmpxchg386U8 (ptr old new : BitVec 8) : Word × BitVec 8 := compareAndStore ptr old new
def cmpxchg386U16 (ptr old new : BitVec 16) : Word × BitVec 16 := compareAndStore ptr old new
def cmpxchg386U32 (ptr old new : BitVec 32) : Word × BitVec 32 := compareAndStore ptr old new

/-- `cmpxchg_386`. -/
def cmpxchg386 (size : Size) (ptr : BitVec size.bits) (old new : Word) :
    Word × BitVec size.bits :=
  match size with
  | .one => cmpxchg386U8 ptr (old.setWidth 8) (new.setWidth 8)
  | .two => cmpxchg386U16 ptr (old.setWidth 16) (new.setWidth 16)
  | .four => cmpxchg386U32 ptr (old.setWidth 32) (new.setWidth 32)
  | .eight => (old, ptr)

/-- The macro `cmpxchg`: its value, and the variable after it. -/
def cmpxchg (type : Pointee) (ptr o n : type.Value) : type.Value × type.Value :=
  let (ret, ptr) := cmpxchg386 type.size ptr (type.toUnsignedLong o) (type.toUnsignedLong n)
  (type.ofUnsignedLong ret, ptr)

/--
The loop of `__atomic_add_unless`, for a type of any size. Other code may run between two
statements: the list holds what the variable is when it is exchanged, attempt by attempt.
The result is the value of `c` and, unless the loop is left because of `u`, the variable
before and after the last attempt. The loop still runs when the list ends.
-/
def addUnless (type : Pointee) (a u : type.Value) :
    type.Value → List type.Value → Option (type.Value × Option (type.Value × type.Value))
  | c, [] => if c = u then some (c, none) else none
  | c, v :: rest =>
      if c = u then some (c, none)
      else
        let (old, after) := cmpxchg type v c (c + a)
        if old = c then some (c, some (v, after)) else addUnless type a u old rest

/-- `__atomic_add_unless`, from `atomic_read` on. -/
def atomicAddUnless (v a u : BitVec 32) (attempts : List (BitVec 32)) :
    Option (BitVec 32 × Option (BitVec 32 × BitVec 32)) :=
  addUnless .int a u v attempts

/--
The previous value is returned, the new one is stored if that is the expected one, and the
test of the caller says whether it has been.
-/
structure Exchanges (type : Pointee) (ptr o n : type.Value) : Prop where
  returned : (cmpxchg type ptr o n).1 = ptr
  stored : (cmpxchg type ptr o n).2 = if ptr = o then n else ptr
  tested : (cmpxchg type ptr o n).1 = o ↔ ptr = o

/--
The variable has at most four bytes. Or it has the value that the lower half of the
expected one has, and need not be changed.
-/
def Harmless (type : Pointee) (ptr o n : type.Value) : Prop :=
  type.size ≠ .eight ∨
    ptr = type.ofUnsignedLong (type.toUnsignedLong o) ∧ (ptr = o → n = ptr)

theorem setWidth_setWidth_cancel {width : Nat} (narrow : width ≤ 32) (value : BitVec width) :
    (value.setWidth 32).setWidth width = value := by
  rw [BitVec.setWidth_setWidth_of_le value narrow, BitVec.setWidth_eq]

theorem setWidth_signExtend_cancel {width : Nat} (narrow : width ≤ 32) (value : BitVec width) :
    (value.signExtend 32).setWidth width = value := by
  apply BitVec.eq_of_getLsbD_eq
  intro index index_lt
  have inLong : index < 32 := by omega
  rw [BitVec.getLsbD_setWidth, BitVec.getLsbD_signExtend]
  simp only [index_lt, inLong, decide_true, Bool.true_and, if_true]

theorem Size.bits_le {size : Size} (narrow : size ≠ .eight) : size.bits ≤ 32 := by
  cases size with
  | one => decide
  | two => decide
  | four => decide
  | eight => contradiction

/-- Up to four bytes nothing is lost on the way through `unsigned long`. -/
theorem setWidth_toUnsignedLong {type : Pointee} (narrow : type.size ≠ .eight)
    (value : type.Value) : (type.toUnsignedLong value).setWidth type.size.bits = value := by
  have fits := Size.bits_le narrow
  simp only [Pointee.toUnsignedLong]
  split_ifs
  · exact setWidth_signExtend_cancel fits value
  · exact setWidth_setWidth_cancel fits value

/-- The functions for the sizes are one function. -/
theorem cmpxchg386_of_narrow {size : Size} (narrow : size ≠ .eight) (ptr : BitVec size.bits)
    (old new : Word) :
    cmpxchg386 size ptr old new =
      compareAndStore ptr (old.setWidth size.bits) (new.setWidth size.bits) := by
  cases size with
  | one => rfl
  | two => rfl
  | four => rfl
  | eight => contradiction

theorem cmpxchg_of_narrow {type : Pointee} (narrow : type.size ≠ .eight)
    (ptr o n : type.Value) : cmpxchg type ptr o n = (ptr, if ptr = o then n else ptr) := by
  simp only [cmpxchg, cmpxchg386_of_narrow narrow, compareAndStore,
    setWidth_toUnsignedLong narrow, Pointee.ofUnsignedLong,
    setWidth_setWidth_cancel (Size.bits_le narrow)]

theorem cmpxchg_of_eight {type : Pointee} (wide : type.size = .eight) (ptr o n : type.Value) :
    cmpxchg type ptr o n = (type.ofUnsignedLong (type.toUnsignedLong o), ptr) := by
  rcases type with ⟨size, signed⟩
  subst wide
  rfl

theorem exchanges_iff_harmless (type : Pointee) (ptr o n : type.Value) :
    Exchanges type ptr o n ↔ Harmless type ptr o n := by
  by_cases wide : type.size = .eight
  · constructor
    · rintro ⟨returned, stored, -⟩
      rw [cmpxchg_of_eight wide] at returned stored
      refine Or.inr ⟨returned.symm, ?_⟩
      intro expected
      rw [if_pos expected] at stored
      exact stored.symm
    · rintro (narrow | ⟨lower, unchanged⟩)
      · exact absurd wide narrow
      · have returned : (cmpxchg type ptr o n).1 = ptr := by
          rw [cmpxchg_of_eight wide, lower]
        refine ⟨returned, ?_, by rw [returned]⟩
        rw [cmpxchg_of_eight wide]
        split_ifs with expected
        · exact (unchanged expected).symm
        · rfl
  · have exchanged := cmpxchg_of_narrow wide ptr o n
    refine iff_of_true ⟨?_, ?_, ?_⟩ (Or.inl wide) <;> rw [exchanged]

/-- A loop that is left on the test has found what it expected. -/
theorem addUnless_exit {type : Pointee} {a u c result before after : type.Value}
    {attempts : List type.Value}
    (exit : addUnless type a u c attempts = some (result, some (before, after))) :
    cmpxchg type before result (result + a) = (result, after) := by
  induction attempts generalizing c with
  | nil =>
      simp only [addUnless] at exit
      split_ifs at exit
      simp at exit
  | cons v rest ih =>
      simp only [addUnless] at exit
      split_ifs at exit with excepted passed
      · simp at exit
      · simp only [Option.some.injEq, Prod.mk.injEq] at exit
        rcases exit with ⟨rfl, rfl, rfl⟩
        exact Prod.ext passed rfl
      · exact ih exit

/-- The loop has made its update if and only if its last attempt is harmless. -/
theorem updated_iff_harmless {type : Pointee} {a result before after : type.Value}
    (last : cmpxchg type before result (result + a) = (result, after)) :
    (before = result ∧ after = result + a) ↔
      Harmless type before result (result + a) := by
  rw [← exchanges_iff_harmless]
  constructor
  · rintro ⟨rfl, rfl⟩
    refine ⟨?_, ?_, ?_⟩ <;> simp [last]
  · rintro ⟨returned, stored, -⟩
    rw [last] at returned stored
    have expected : before = result := returned.symm
    exact ⟨expected, stored.trans (if_pos expected)⟩

/--
For every integer type and all values `cmpxchg` is compare and exchange if and only if the
type has at most four bytes, or the value of the variable is that of the lower half of the
expected one and need not be changed. A loop like `__atomic_add_unless` that is left on the
test has made its update if and only if that is so in its last attempt, whatever other
code has done to the variable in between.
-/
theorem cmpxchg_exchanges_iff (type : Pointee) :
    (∀ ptr o n : type.Value, Exchanges type ptr o n ↔ Harmless type ptr o n) ∧
      ∀ (a u c result before after : type.Value) (attempts : List type.Value),
        addUnless type a u c attempts = some (result, some (before, after)) →
          ((before = result ∧ after = result + a) ↔
            Harmless type before result (result + a)) := by
  refine ⟨exchanges_iff_harmless type, ?_⟩
  intro a u c result before after attempts exit
  exact updated_iff_harmless (addUnless_exit exit)

/-- An `int` that an interrupt has changed from 3 to 4 is counted up in the second attempt. -/
theorem cmpxchg_exchanges_iff_int :
    addUnless .int 1 0 3 [4, 4] = some (4, some (4, 5)) ∧
      Exchanges .int 4 4 5 ∧ ((4 : BitVec 32) = 4 ∧ (5 : BitVec 32) = 4 + 1) := by
  have exit : addUnless .int 1 0 3 [4, 4] = some (4, some (4, 5)) := by decide
  have holds := cmpxchg_exchanges_iff .int
  exact ⟨exit, (holds.1 4 4 5).mpr (Or.inl (by decide)),
    (holds.2 1 0 3 4 4 5 [4, 4] exit).mpr (Or.inl (by decide))⟩

/-- A counter of eight bytes: the caller is told that 5 has become 6, and it is still 5. -/
theorem cmpxchg_u64_stores_nothing :
    cmpxchg ⟨.eight, false⟩ 5 5 6 = (5, 5) ∧ ¬Exchanges ⟨.eight, false⟩ 5 5 6 ∧
      addUnless ⟨.eight, false⟩ 1 0 5 [5] = some (5, some (5, 5)) := by
  refine ⟨by decide, ?_, by decide⟩
  rintro ⟨-, stored, -⟩
  exact absurd stored (by decide)

/-- An `atomic_t` has four bytes, so `__atomic_add_unless` has made its update. -/
theorem atomicAddUnless_updated {v a u result before after : BitVec 32}
    {attempts : List (BitVec 32)}
    (exit : atomicAddUnless v a u attempts = some (result, some (before, after))) :
    before = result ∧ after = result + a :=
  (updated_iff_harmless (addUnless_exit exit)).mpr (Or.inl (by decide))

end Gray386.Atomic
