import Mathlib.Algebra.Order.Ring.Int
import Mathlib.Tactic.Common

/-!
# Integers of C on a 32-bit machine

The value of a C expression is an integer in the range of its type. Arithmetic is done on
the integers, and a conversion brings the result back into the range: `uint32` and `uchar`
take a remainder, and `int32` the one nearest to zero. The lemmas say that a conversion does
nothing to a value that is in the range already.

Division rounds towards zero. The instruction for it traps if the divisor is zero, and also
if the quotient is out of range. A loop need not end either, so code has a result or a reason
why there is none.
-/

namespace Gray386.Machine

/-- Conversion to `unsigned int`. -/
def uint32 (x : Int) : Int := x % 4294967296

/-- Conversion to `int`. -/
def int32 (x : Int) : Int :=
  if uint32 x < 2147483648 then uint32 x else uint32 x - 4294967296

/-- Conversion to `unsigned char`. -/
def uchar (x : Int) : Int := x % 256

theorem uint32_of_bounds {x : Int} (lower : 0 ≤ x) (upper : x < 4294967296) :
    uint32 x = x := by
  simp only [uint32]
  omega

theorem int32_of_bounds {x : Int} (lower : -2147483648 ≤ x) (upper : x < 2147483648) :
    int32 x = x := by
  simp only [int32, uint32]
  split_ifs <;> omega

theorem uchar_of_bounds {x : Int} (lower : 0 ≤ x) (upper : x < 256) : uchar x = x := by
  simp only [uchar]
  omega

theorem uchar_nonneg (x : Int) : 0 ≤ uchar x := by
  simp only [uchar]
  omega

theorem uchar_lt (x : Int) : uchar x < 256 := by
  simp only [uchar]
  omega

theorem uint32_int32 (x : Int) : uint32 (int32 x) = uint32 x := by
  simp only [int32, uint32]
  split_ifs <;> omega

/-- Bitwise or of the two's complements. -/
def or32 (x y : Int) : Int := (BitVec.ofInt 32 x ||| BitVec.ofInt 32 y).toInt

theorem or_two_pow_sub_one (x i : Nat) :
    x ||| (2 ^ i - 1) = x / 2 ^ i * 2 ^ i + (2 ^ i - 1) := by
  have positive : 0 < 2 ^ i := Nat.two_pow_pos i
  have split : x = 2 ^ i * (x / 2 ^ i) ||| x % 2 ^ i := by
    rw [← Nat.two_pow_add_eq_or_of_lt (Nat.mod_lt x positive), Nat.div_add_mod]
  have low : x % 2 ^ i ||| (2 ^ i - 1) = 2 ^ i - 1 := by
    apply Nat.eq_of_testBit_eq
    intro bit
    simp only [Nat.testBit_or, Nat.testBit_mod_two_pow, Nat.testBit_two_pow_sub_one]
    rcases Nat.lt_or_ge bit i with below | above
    · simp [below]
    · simp [Nat.not_lt.mpr above]
  calc
    x ||| (2 ^ i - 1) = 2 ^ i * (x / 2 ^ i) ||| x % 2 ^ i ||| (2 ^ i - 1) := by rw [← split]
    _ = 2 ^ i * (x / 2 ^ i) ||| (2 ^ i - 1) := by rw [Nat.or_assoc, low]
    _ = x / 2 ^ i * 2 ^ i + (2 ^ i - 1) := by
        rw [← Nat.two_pow_add_eq_or_of_lt (by omega), Nat.mul_comm]

/-- With the low bits set, a number is one below the next multiple. -/
theorem or32_two_pow_sub_one {x : Int} (lower : 0 ≤ x) (upper : x < 2147483648) {i : Nat}
    (low : i < 31) : or32 x (2 ^ i - 1) = x / 2 ^ i * 2 ^ i + (2 ^ i - 1) := by
  rcases Int.eq_ofNat_of_zero_le lower with ⟨n, rfl⟩
  have positive := Nat.two_pow_pos i
  have mask : (2 : Int) ^ i - 1 = ((2 ^ i - 1 : Nat) : Int) := by
    rw [Int.ofNat_sub positive, Int.natCast_pow]
    rfl
  have small : 2 ^ i - 1 < 2 ^ 31 := by
    have := Nat.pow_lt_pow_right (by omega : 1 < 2) low
    omega
  have or_small : n ||| (2 ^ i - 1) < 2 ^ 31 := Nat.or_lt_two_pow (by omega) small
  rw [or32, mask, BitVec.ofInt_natCast, BitVec.ofInt_natCast, ← BitVec.ofNat_or,
    BitVec.toInt_eq_toNat_of_lt, BitVec.toNat_ofNat, Nat.mod_eq_of_lt (by omega),
    or_two_pow_sub_one]
  · rw [Int.natCast_add, Int.natCast_mul, Int.natCast_ediv, Int.natCast_pow]
    rfl
  · rw [BitVec.toNat_ofNat, Nat.mod_eq_of_lt (by omega)]
    omega

inductive Stop where
  | divideByZero | divideOverflow
  /-- A loop does not end. -/
  | endless
  deriving DecidableEq, Repr

/-- Signed division: the quotient and the remainder. -/
def idiv (dividend divisor : Int) : Except Stop (Int × Int) :=
  if divisor = 0 then .error .divideByZero
  else if dividend = -2147483648 ∧ divisor = -1 then .error .divideOverflow
  else .ok (dividend.tdiv divisor, dividend.tmod divisor)

/-- Unsigned division. -/
def udiv (dividend divisor : Int) : Except Stop (Int × Int) :=
  if divisor = 0 then .error .divideByZero else .ok (dividend / divisor, dividend % divisor)

theorem udiv_of_pos {dividend divisor : Int} (positive : 0 < divisor) :
    udiv dividend divisor = .ok (dividend / divisor, dividend % divisor) :=
  if_neg (by omega)

theorem idiv_of_pos {dividend divisor : Int} (nonneg : 0 ≤ dividend) (positive : 0 < divisor) :
    idiv dividend divisor = .ok (dividend / divisor, dividend % divisor) := by
  rw [idiv, if_neg (by omega), if_neg (by omega), Int.tdiv_eq_ediv_of_nonneg nonneg,
    Int.tmod_eq_emod_of_nonneg nonneg]

theorem ok_bind {α β : Type} (value : α) (rest : α → Except Stop β) :
    (Except.ok value >>= rest) = rest value := rfl

/-- What the code computes, if it gets to its end. -/
def Yields {α : Type} (expected : α → Prop) (code : Except Stop α) : Prop :=
  ∀ value, code = .ok value → expected value

theorem yields_ok {α : Type} {expected : α → Prop} {value : α} (holds : expected value) :
    Yields expected (.ok value) := by
  rintro _ ⟨⟩
  exact holds

theorem yields_bind {α β : Type} {expected : β → Prop} {code : Except Stop α}
    {rest : α → Except Stop β} (second : ∀ value, code = .ok value → Yields expected (rest value)) :
    Yields expected (code >>= rest) := by
  intro result ok
  cases code with
  | ok value => exact second value rfl result ok
  | error stop => exact absurd ok (by simp [bind, Except.bind])

theorem yields_ite {α : Type} {expected : α → Prop} {p : Prop} [Decidable p]
    {left right : Except Stop α} (first : p → Yields expected left)
    (second : ¬p → Yields expected right) : Yields expected (if p then left else right) := by
  split_ifs with holds
  · exact first holds
  · exact second holds

/-- The code gets to its end. -/
def Ends {α : Type} (code : Except Stop α) : Prop := ∃ value, code = .ok value

theorem ends_ok {α : Type} (value : α) : Ends (.ok value) := ⟨value, rfl⟩

theorem ends_bind {α β : Type} {code : Except Stop α} {rest : α → Except Stop β}
    (first : Ends code) (second : ∀ value, code = .ok value → Ends (rest value)) :
    Ends (code >>= rest) := by
  rcases first with ⟨value, rfl⟩
  exact second value rfl

theorem ends_ite {α : Type} {p : Prop} [Decidable p] {left right : Except Stop α}
    (first : p → Ends left) (second : ¬p → Ends right) : Ends (if p then left else right) := by
  split_ifs with holds
  · exact first holds
  · exact second holds

section Loop

variable {σ : Type} (test : σ → Bool) (body : σ → Except Stop σ)

/-- `while (test) body`. It is taken for endless after so many turns. -/
def loop : Nat → σ → Except Stop σ
  | 0, state => if test state then .error .endless else .ok state
  | turns + 1, state => if test state then body state >>= loop turns else .ok state

variable {test body}

theorem loop_of_false {turns : Nat} {state : σ} (ended : test state = false) :
    loop test body turns state = .ok state := by
  cases turns <;> simp [loop, ended]

variable (test body) in
/-- An invariant that the body keeps while a variant falls. -/
theorem loop_rule (invariant : σ → Prop) (variant : σ → Nat)
    (step : ∀ state, invariant state → test state = true →
      ∃ next, body state = .ok next ∧ invariant next ∧ variant next < variant state)
    {turns : Nat} {state : σ} (holds : invariant state) (enough : variant state ≤ turns) :
    ∃ last, loop test body turns state = .ok last ∧ invariant last ∧ test last = false := by
  induction turns generalizing state with
  | zero =>
      cases again : test state with
      | false => exact ⟨state, loop_of_false again, holds, again⟩
      | true =>
          rcases step state holds again with ⟨next, -, -, falls⟩
          omega
  | succ turns ih =>
      cases again : test state with
      | false => exact ⟨state, loop_of_false again, holds, again⟩
      | true =>
          rcases step state holds again with ⟨next, turn, kept, falls⟩
          rcases ih kept (by omega) with ⟨last, rest, result⟩
          refine ⟨last, ?_, result⟩
          rw [loop, if_pos again, turn, ok_bind, rest]

end Loop

end Gray386.Machine
