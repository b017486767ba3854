import Gray386.Printk.Pending

/-!
# Operations on a per-CPU variable

`include/linux/percpu.h` defines `this_cpu_write`, `this_cpu_or`, `this_cpu_add` and
`this_cpu_xchg` twice: portably, with interrupts disabled around plain C, and as a
choice among functions for the sizes 1, 2 and 4 that an architecture may supply.
`arch/x86/include/asm/percpu.h` supplies all of them. Here both families are run on
one variable, call by call, and the values they return are compared.

The calls that return nothing agree. The exchange does not: `percpu_xchg_op` lost its
loop in this repository and returns the value it was to store. A run tells the two
families apart as soon as an exchange is to store a value that the variable does not
hold already.

An argument is a C `int`, which both families convert to the type of the variable.
-/

namespace Gray386.Percpu

open Gray386.Machine

/-- The sizes of a variable for which x86 supplies the operations. -/
inductive Size where
  | one | two | four
  deriving DecidableEq, Repr

def Size.bits : Size → Nat
  | .one => 8
  | .two => 16
  | .four => 32

/-- One call; `constant` is `__builtin_constant_p` of the argument. -/
inductive Call where
  | thisCpuWrite (val : Word)
  | thisCpuOr (val : Word)
  | thisCpuAdd (val : Word) (constant : Bool)
  | thisCpuXchg (nval : Word)
  deriving DecidableEq, Repr

variable {size : Size}

/-- The value of an expression after conversion to the type of the variable. -/
def convert (size : Size) (val : Word) : BitVec size.bits :=
  val.setWidth size.bits

/-- `_this_cpu_generic_to_op`. -/
def thisCpuGenericToOp (op : BitVec size.bits → BitVec size.bits → BitVec size.bits)
    (pcp : BitVec size.bits) (val : Word) : BitVec size.bits :=
  op pcp (convert size val)

/-- `_this_cpu_generic_xchg`: the result and the variable. -/
def thisCpuGenericXchg (pcp : BitVec size.bits) (nval : Word) :
    BitVec size.bits × BitVec size.bits :=
  (pcp, convert size nval)

/-- The portable call: the result, if it has one, and the variable. -/
def Call.generic (pcp : BitVec size.bits) : Call → Option (BitVec size.bits) × BitVec size.bits
  | .thisCpuWrite val => (none, thisCpuGenericToOp (fun _ new => new) pcp val)
  | .thisCpuOr val => (none, thisCpuGenericToOp (· ||| ·) pcp val)
  | .thisCpuAdd val _ => (none, thisCpuGenericToOp (· + ·) pcp val)
  | .thisCpuXchg nval =>
      let (ret, stored) := thisCpuGenericXchg pcp nval
      (some ret, stored)

/-- `percpu_to_op`: one instruction with the converted value as its operand. -/
def percpuToOp (op : BitVec size.bits → BitVec size.bits → BitVec size.bits)
    (var : BitVec size.bits) (val : Word) : BitVec size.bits :=
  op var (convert size val)

/-- `percpu_add_op`: `inc` and `dec` for the constants 1 and -1. -/
def percpuAddOp (var : BitVec size.bits) (val : Word) (constant : Bool) : BitVec size.bits :=
  if constant = true ∧ val = 1 then var + 1
  else if constant = true ∧ val = -1 then var - 1
  else var + convert size val

/--
`percpu_xchg_op`, which does not mention the variable. Its value has the type of
`nval` and is converted where `this_cpu_xchg` selects among the sizes.
-/
def percpuXchgOp (var : BitVec size.bits) (nval : Word) : Word × BitVec size.bits :=
  (nval, var)

/-- The call of x86: the result, if it has one, and the variable. -/
def Call.x86 (var : BitVec size.bits) : Call → Option (BitVec size.bits) × BitVec size.bits
  | .thisCpuWrite val => (none, percpuToOp (fun _ new => new) var val)
  | .thisCpuOr val => (none, percpuToOp (· ||| ·) var val)
  | .thisCpuAdd val constant => (none, percpuAddOp var val constant)
  | .thisCpuXchg nval =>
      let (ret, left) := percpuXchgOp var nval
      (some (convert size ret), left)

/-- The results of a sequence of calls and the variable after it. -/
def run (call : BitVec size.bits → Call → Option (BitVec size.bits) × BitVec size.bits) :
    BitVec size.bits → List Call → List (Option (BitVec size.bits)) × BitVec size.bits
  | var, [] => ([], var)
  | var, first :: rest =>
      let (result, next) := call var first
      let (results, last) := run call next rest
      (result :: results, last)

/-- An exchange that stores what is there already; any other call. -/
def Call.Harmless (var : BitVec size.bits) : Call → Prop
  | .thisCpuXchg nval => var = convert size nval
  | _ => True

theorem convert_one : convert size 1 = 1 := by
  cases size with
  | one => rfl
  | two => rfl
  | four => rfl

theorem convert_neg_one : convert size (-1) = -1 := by
  cases size with
  | one => rfl
  | two => rfl
  | four => rfl

theorem percpuAddOp_eq (var : BitVec size.bits) (val : Word) (constant : Bool) :
    percpuAddOp var val constant = thisCpuGenericToOp (· + ·) var val := by
  unfold percpuAddOp thisCpuGenericToOp
  split_ifs with increments decrements
  · rw [increments.2, convert_one]
  · rw [decrements.2, convert_neg_one]
    exact BitVec.sub_eq_add_neg var 1
  · rfl

/-- The two families agree on a call exactly if it is harmless. -/
theorem x86_eq_generic_iff (var : BitVec size.bits) (call : Call) :
    call.x86 var = call.generic var ↔ call.Harmless var := by
  cases call with
  | thisCpuWrite val => exact iff_of_true rfl trivial
  | thisCpuOr val => exact iff_of_true rfl trivial
  | thisCpuAdd val constant =>
      refine iff_of_true ?_ trivial
      simp only [Call.x86, Call.generic, percpuAddOp_eq]
  | thisCpuXchg nval =>
      simp only [Call.x86, Call.generic, percpuXchgOp, thisCpuGenericXchg, Call.Harmless,
        Prod.mk.injEq, Option.some.injEq]
      constructor
      · rintro ⟨-, kept⟩
        exact kept
      · intro held
        exact ⟨held.symm, held⟩

theorem x86_result_eq_iff (var : BitVec size.bits) (call : Call) :
    (call.x86 var).1 = (call.generic var).1 ↔ call.Harmless var := by
  constructor
  · intro same
    cases call with
    | thisCpuXchg nval =>
        injection same with returned
        exact returned.symm
    | thisCpuWrite val => trivial
    | thisCpuOr val => trivial
    | thisCpuAdd val constant => trivial
  · intro harmless
    rw [(x86_eq_generic_iff var call).mpr harmless]

/-- The variable after some calls of the portable family. -/
def valueAfter (var : BitVec size.bits) (calls : List Call) : BitVec size.bits :=
  (run Call.generic var calls).2

/-- Every exchange of a run is to store the value that the variable has by then. -/
def ExchangesNothing (var : BitVec size.bits) (calls : List Call) : Prop :=
  ∀ before nval after, calls = before ++ .thisCpuXchg nval :: after →
    valueAfter var before = convert size nval

theorem exchangesNothing_cons (var : BitVec size.bits) (call : Call) (rest : List Call) :
    ExchangesNothing var (call :: rest) ↔
      call.Harmless var ∧ ExchangesNothing (call.generic var).2 rest := by
  constructor
  · intro nothing
    refine ⟨?_, ?_⟩
    · cases call with
      | thisCpuXchg nval => exact nothing [] nval rest rfl
      | thisCpuWrite val => trivial
      | thisCpuOr val => trivial
      | thisCpuAdd val constant => trivial
    · intro before nval after split
      exact nothing (call :: before) nval after (by rw [split, List.cons_append])
  · rintro ⟨harmless, nothing⟩ before nval after split
    cases before with
    | nil =>
        injection split with head tail
        subst head
        exact harmless
    | cons first middle =>
        injection split with head tail
        subst head
        exact nothing middle nval after tail

/--
For every size, value and sequence of calls, the x86 operations return what the
portable ones return and leave the same variable if and only if every exchange
in the sequence is to store the value that the variable already has.
-/
theorem run_x86_eq_generic_iff (size : Size) (var : BitVec size.bits) (calls : List Call) :
    run Call.x86 var calls = run Call.generic var calls ↔ ExchangesNothing var calls := by
  induction calls generalizing var with
  | nil =>
      refine iff_of_true rfl ?_
      intro before nval after split
      exact absurd split (by simp)
  | cons call rest ih =>
      rw [exchangesNothing_cons]
      constructor
      · intro same
        simp only [run, Prod.mk.injEq, List.cons.injEq] at same
        rcases same with ⟨⟨result, results⟩, last⟩
        have harmless := (x86_result_eq_iff var call).mp result
        rw [(x86_eq_generic_iff var call).mpr harmless] at results last
        exact ⟨harmless, (ih _).mp (Prod.ext results last)⟩
      · rintro ⟨harmless, nothing⟩
        simp only [run, (x86_eq_generic_iff var call).mpr harmless, (ih _).mpr nothing]

/--
`perf_event_task_tick` after one throttled event: the tick reads no event, and the
count that it should have cleared is still there.
-/
theorem perfThrottledCount_lost :
    @run .four Call.x86 0 [.thisCpuAdd 1 true, .thisCpuXchg 0] = ([none, some 0], 1) ∧
      @run .four Call.generic 0 [.thisCpuAdd 1 true, .thisCpuXchg 0] = ([none, some 1], 0) ∧
      @run .four Call.x86 0 [.thisCpuAdd 1 true, .thisCpuXchg 0] ≠
        @run .four Call.generic 0 [.thisCpuAdd 1 true, .thisCpuXchg 0] := by
  decide

/-- `printk_tick` takes its flags with the exchange for variables of four bytes. -/
theorem printk_xchg_x86 (printkPending nval : Word) :
    @Call.x86 .four printkPending (.thisCpuXchg nval) =
      (some (Printk.percpuXchgOp printkPending nval).1,
        (Printk.percpuXchgOp printkPending nval).2) := by
  simp only [Call.x86, percpuXchgOp, convert, Printk.percpuXchgOp]
  rw [show nval.setWidth Size.four.bits = nval from BitVec.setWidth_eq nval]
  rfl

theorem printk_xchg_generic (printkPending nval : Word) :
    @Call.generic .four printkPending (.thisCpuXchg nval) =
      (some (Printk.thisCpuGenericXchg printkPending nval).1,
        (Printk.thisCpuGenericXchg printkPending nval).2) := by
  simp only [Call.generic, thisCpuGenericXchg, convert, Printk.thisCpuGenericXchg]
  rw [show nval.setWidth Size.four.bits = nval from BitVec.setWidth_eq nval]
  rfl

end Gray386.Percpu
