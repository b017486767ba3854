import Mathlib.Tactic.Common
import Mathlib.Tactic.IntervalCases

/-!
# Words, bytes and pages of a 32-bit little-endian machine

This file fixes the representation of machine words shared by the reference
semantics and by the kernel model. A word is a bit vector of width 32, so that
all arithmetic wraps as it does on the machine, and a word is read from memory
as four bytes, the least significant one first.

`ofBytes` assembles a word and `byte` takes one of its bytes. The lemmas below
say what the shifts, masks and merges of an instruction fetch buffer do to the
bytes it was assembled from; no later proof opens the bit vectors again.
-/

namespace Gray386.Machine

/-- An eight-bit byte. -/
abbrev Byte := BitVec 8

/-- A 32-bit machine word. -/
abbrev Word := BitVec 32

/-- The number of a 4 KiB page. -/
abbrev Page := BitVec 20

/-- The page in which an address lies. -/
def page (address : Word) : Page :=
  address.extractLsb' 12 20

/-- The word whose bytes, least significant first, are the arguments. -/
def ofBytes (b₀ b₁ b₂ b₃ : Byte) : Word :=
  b₃ ++ b₂ ++ b₁ ++ b₀

/-- Byte `index` of a word, counted from the least significant one. -/
def byte (word : Word) (index : Nat) : Byte :=
  word.extractLsb' (8 * index) 8

/-- The four byte addresses of the word at `base`, with wrap-around. -/
def InWord (base address : Word) : Prop :=
  address = base ∨ address = base + 1 ∨ address = base + 2 ∨ address = base + 3

instance (base address : Word) : Decidable (InWord base address) :=
  inferInstanceAs (Decidable (_ ∨ _))

theorem inWord_iff_exists_offset (base address : Word) :
    InWord base address ↔ ∃ offset < 4, address = base + BitVec.ofNat 32 offset := by
  constructor
  · rintro (rfl | rfl | rfl | rfl)
    · exact ⟨0, by omega, by simp⟩
    · exact ⟨1, by omega, rfl⟩
    · exact ⟨2, by omega, rfl⟩
    · exact ⟨3, by omega, rfl⟩
  · rintro ⟨offset, offset_lt, rfl⟩
    interval_cases offset
    · exact Or.inl (by simp)
    · exact Or.inr (Or.inl rfl)
    · exact Or.inr (Or.inr (Or.inl rfl))
    · exact Or.inr (Or.inr (Or.inr rfl))

theorem add_one_add_ofNat (address : Word) (offset : Nat) :
    address + 1 + BitVec.ofNat 32 offset = address + BitVec.ofNat 32 (offset + 1) := by
  rw [Nat.add_comm, BitVec.ofNat_add, BitVec.add_assoc]
  rfl

theorem getLsbD_ofBytes (b₀ b₁ b₂ b₃ : Byte) (index : Nat) :
    (ofBytes b₀ b₁ b₂ b₃).getLsbD index =
      if index < 8 then b₀.getLsbD index
      else if index < 16 then b₁.getLsbD (index - 8)
      else if index < 24 then b₂.getLsbD (index - 16)
      else b₃.getLsbD (index - 24) := by
  simp only [ofBytes, BitVec.getLsbD_append]
  grind

theorem byte_ofBytes (b₀ b₁ b₂ b₃ : Byte) (index : Fin 4) :
    byte (ofBytes b₀ b₁ b₂ b₃) index = [b₀, b₁, b₂, b₃].get index := by
  apply BitVec.eq_of_getLsbD_eq
  intro bit bit_lt
  simp only [byte, BitVec.getLsbD_extractLsb', getLsbD_ofBytes]
  match index with
  | 0 => grind
  | 1 => grind
  | 2 => grind
  | 3 => grind

@[simp]
theorem byte_zero_ofBytes (b₀ b₁ b₂ b₃ : Byte) : byte (ofBytes b₀ b₁ b₂ b₃) 0 = b₀ :=
  byte_ofBytes b₀ b₁ b₂ b₃ 0

@[simp]
theorem byte_one_ofBytes (b₀ b₁ b₂ b₃ : Byte) : byte (ofBytes b₀ b₁ b₂ b₃) 1 = b₁ :=
  byte_ofBytes b₀ b₁ b₂ b₃ 1

@[simp]
theorem byte_two_ofBytes (b₀ b₁ b₂ b₃ : Byte) : byte (ofBytes b₀ b₁ b₂ b₃) 2 = b₂ :=
  byte_ofBytes b₀ b₁ b₂ b₃ 2

@[simp]
theorem byte_three_ofBytes (b₀ b₁ b₂ b₃ : Byte) : byte (ofBytes b₀ b₁ b₂ b₃) 3 = b₃ :=
  byte_ofBytes b₀ b₁ b₂ b₃ 3

@[simp]
theorem ofBytes_bytes (word : Word) :
    ofBytes (byte word 0) (byte word 1) (byte word 2) (byte word 3) = word := by
  apply BitVec.eq_of_getLsbD_eq
  intro index index_lt
  simp only [byte, BitVec.getLsbD_extractLsb', getLsbD_ofBytes]
  grind

/-- Dropping the first byte of a buffer shifts in a zero byte at the top. -/
@[simp]
theorem ofBytes_ushiftRight_eight (b₀ b₁ b₂ b₃ : Byte) :
    ofBytes b₀ b₁ b₂ b₃ >>> 8 = ofBytes b₁ b₂ b₃ 0 := by
  apply BitVec.eq_of_getLsbD_eq
  intro index index_lt
  simp only [BitVec.getLsbD_ushiftRight, getLsbD_ofBytes]
  grind

/-- Merging one remaining byte with the next buffer drops that buffer's last byte. -/
@[simp]
theorem ofBytes_or_shiftLeft_eight (b c₀ c₁ c₂ c₃ : Byte) :
    ofBytes b 0 0 0 ||| ofBytes c₀ c₁ c₂ c₃ <<< 8 = ofBytes b c₀ c₁ c₂ := by
  apply BitVec.eq_of_getLsbD_eq
  intro index index_lt
  simp only [BitVec.getLsbD_or, BitVec.getLsbD_shiftLeft, getLsbD_ofBytes]
  grind

/-- Masking with `0xff` leaves the zero-extended first byte. -/
@[simp]
theorem ofBytes_and_ff (b₀ b₁ b₂ b₃ : Byte) :
    ofBytes b₀ b₁ b₂ b₃ &&& 0xff = b₀.setWidth 32 := by
  have mask : (0xff : Word) = ofBytes 0xff 0 0 0 := by decide
  have ones : ∀ index < 8, (0xff#8).getLsbD index = true := by decide
  apply BitVec.eq_of_getLsbD_eq
  intro index index_lt
  rw [mask]
  simp only [BitVec.getLsbD_and, getLsbD_ofBytes, BitVec.getLsbD_setWidth]
  grind

theorem toNat_ofBytes_mod (b₀ b₁ b₂ b₃ : Byte) :
    (ofBytes b₀ b₁ b₂ b₃).toNat % 256 = b₀.toNat := by
  have masked := congrArg BitVec.toNat (ofBytes_and_ff b₀ b₁ b₂ b₃)
  rw [BitVec.toNat_and, show (0xff : Word).toNat = 2 ^ 8 - 1 by rfl,
    Nat.and_two_pow_sub_one_eq_mod, BitVec.toNat_setWidth] at masked
  have := b₀.isLt
  omega

/-- Comparing the masked first byte with a constant compares the byte itself. -/
theorem ofBytes_and_ff_eq_iff (b₀ b₁ b₂ b₃ value : Byte) :
    ofBytes b₀ b₁ b₂ b₃ &&& 0xff = value.setWidth 32 ↔ b₀ = value := by
  rw [ofBytes_and_ff]
  constructor
  · intro extended
    apply BitVec.eq_of_toNat_eq
    have equal := congrArg BitVec.toNat extended
    rw [BitVec.toNat_setWidth, BitVec.toNat_setWidth] at equal
    have := b₀.isLt
    have := value.isLt
    omega
  · rintro rfl
    rfl

theorem ofBytes_inj {b₀ b₁ b₂ b₃ c₀ c₁ c₂ c₃ : Byte} :
    ofBytes b₀ b₁ b₂ b₃ = ofBytes c₀ c₁ c₂ c₃ ↔ b₀ = c₀ ∧ b₁ = c₁ ∧ b₂ = c₂ ∧ b₃ = c₃ := by
  constructor
  · intro equal
    refine ⟨?_, ?_, ?_, ?_⟩
    · simpa using congrArg (byte · 0) equal
    · simpa using congrArg (byte · 1) equal
    · simpa using congrArg (byte · 2) equal
    · simpa using congrArg (byte · 3) equal
  · rintro ⟨rfl, rfl, rfl, rfl⟩
    rfl

end Gray386.Machine
