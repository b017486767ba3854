import Gray386.Machine.Word
import Mathlib.Logic.Function.Basic

/-!
# Paged byte memory

A memory has one byte at every address and, for every page, the two bits that
decide what an access from user mode may do: whether the page is there at all
and whether it may be written. The bytes of an absent page are kept, so that
"unchanged" can be said of the whole address space, but no access returns them.

Words are stored and loaded bytewise with wrap-around at the top of the address
space. Permission checks are made by the accessors of the layers above.
-/

namespace Gray386.Machine

/-- Bytes of an address space together with its page permissions. -/
structure Memory where
  byteAt : Word → Byte
  present : Page → Bool
  writable : Page → Bool

namespace Memory

/-- The word at an address. -/
def load (memory : Memory) (address : Word) : Word :=
  ofBytes (memory.byteAt address) (memory.byteAt (address + 1))
    (memory.byteAt (address + 2)) (memory.byteAt (address + 3))

/-- Replace one byte. -/
def setByte (memory : Memory) (address : Word) (value : Byte) : Memory :=
  { memory with byteAt := Function.update memory.byteAt address value }

/-- Replace the four bytes of the word at an address. -/
def store (memory : Memory) (address value : Word) : Memory :=
  (((memory.setByte address (byte value 0)).setByte (address + 1) (byte value 1)).setByte
    (address + 2) (byte value 2)).setByte (address + 3) (byte value 3)

/-- The page of an address is there and, for user mode, writable. -/
def UserWritable (memory : Memory) (address : Word) : Prop :=
  memory.present (page address) = true ∧ memory.writable (page address) = true

instance (memory : Memory) (address : Word) : Decidable (memory.UserWritable address) :=
  inferInstanceAs (Decidable (_ ∧ _))

theorem byteAt_setByte (memory : Memory) (address other : Word) (value : Byte) :
    (memory.setByte address value).byteAt other =
      if other = address then value else memory.byteAt other := by
  simp [setByte, Function.update_apply]

private theorem offsets_ne (address : Word) :
    address ≠ address + 1 ∧ address ≠ address + 2 ∧ address ≠ address + 3 ∧
      address + 1 ≠ address + 2 ∧ address + 1 ≠ address + 3 ∧ address + 2 ≠ address + 3 := by
  refine ⟨?_, ?_, ?_, ?_, ?_, ?_⟩ <;> bv_omega

theorem byteAt_store (memory : Memory) (address value other : Word) :
    (memory.store address value).byteAt other =
      if other = address then byte value 0
      else if other = address + 1 then byte value 1
      else if other = address + 2 then byte value 2
      else if other = address + 3 then byte value 3
      else memory.byteAt other := by
  have distinct := offsets_ne address
  simp only [store, byteAt_setByte]
  split_ifs <;> simp_all

theorem byteAt_store_of_not_inWord {memory : Memory} {address other : Word}
    (outside : ¬InWord address other) (value : Word) :
    (memory.store address value).byteAt other = memory.byteAt other := by
  simp only [InWord, not_or] at outside
  rcases outside with ⟨ne₀, ne₁, ne₂, ne₃⟩
  rw [byteAt_store, if_neg ne₀, if_neg ne₁, if_neg ne₂, if_neg ne₃]

@[simp]
theorem load_store (memory : Memory) (address value : Word) :
    (memory.store address value).load address = value := by
  have distinct := offsets_ne address
  rcases distinct with ⟨ne₁, ne₂, ne₃, ne₁₂, ne₁₃, ne₂₃⟩
  simp only [load, byteAt_store, if_pos, if_neg ne₁.symm, if_neg ne₂.symm, if_neg ne₃.symm,
    if_neg ne₁₂.symm, if_neg ne₁₃.symm, if_neg ne₂₃.symm]
  exact ofBytes_bytes value

/-- Storing the word that is there already changes nothing. -/
theorem byteAt_store_load (memory : Memory) (address : Word) :
    (memory.store address (memory.load address)).byteAt = memory.byteAt := by
  funext other
  rw [byteAt_store, load]
  split_ifs with first second third fourth
  · exact first ▸ byte_ofBytes _ _ _ _ 0
  · exact second ▸ byte_ofBytes _ _ _ _ 1
  · exact third ▸ byte_ofBytes _ _ _ _ 2
  · exact fourth ▸ byte_ofBytes _ _ _ _ 3
  · rfl

theorem load_congr {left right : Memory} {address : Word}
    (same : ∀ other, InWord address other → right.byteAt other = left.byteAt other) :
    right.load address = left.load address := by
  simp only [load]
  rw [same address (by simp [InWord]), same (address + 1) (by simp [InWord]),
    same (address + 2) (by simp [InWord]), same (address + 3) (by simp [InWord])]

end Memory

end Gray386.Machine
