import Mathlib.Order.Defs.Unbundled

/-!
# Effects of stateful code that may stop

Code is a function from a state to a result and a state, or to the state in which
it was stopped. Three kinds of facts about it are composed here.

A run is computed by peeling one statement at a time off a `bind`. An effect is
bounded by a preorder on states: `Within allowed code` says that wherever the
code stops, normally or not, the state is one that `allowed` permits from the
initial one. Such a bound needs no knowledge of the values that are computed, so
it holds of a whole program as soon as it holds of its primitive statements. And
two runs are compared by a relation on states: `Coupled related left right` says
that from related states both sides stop in the same way, with the same value, in
related states.
-/

namespace Gray386.Machine

universe u

variable {ε σ α β : Type u}

/-- The state in which a run stopped. -/
def finalState : EStateM.Result ε σ α → σ
  | .ok _ state | .error _ state => state

/-- The value that a run returned, unless it was stopped. -/
def returned : EStateM.Result ε σ α → Option α
  | .ok value _ => some value
  | .error _ _ => none

theorem eq_ok_of_returned {result : EStateM.Result ε σ α} {value : α}
    (returns : returned result = some value) : result = .ok value (finalState result) := by
  cases result with
  | ok other state =>
      injection returns with value_eq
      rw [value_eq]
      rfl
  | error stop state => exact absurd returns (by simp [returned])

theorem run_bind_ok {code : EStateM ε σ α} {rest : α → EStateM ε σ β} {state next : σ}
    {value : α} (run : code state = .ok value next) :
    (code >>= rest) state = rest value next := by
  simp [bind, EStateM.bind, run]

theorem run_bind_error {code : EStateM ε σ α} {rest : α → EStateM ε σ β} {state next : σ}
    {stop : ε} (run : code state = .error stop next) :
    (code >>= rest) state = .error stop next := by
  simp [bind, EStateM.bind, run]

theorem run_pure (value : α) (state : σ) :
    (pure value : EStateM ε σ α) state = .ok value state := rfl

theorem run_get_bind (rest : σ → EStateM ε σ β) (state : σ) :
    ((get : EStateM ε σ σ) >>= rest) state = rest state state := rfl

/-- Every value that the code can return satisfies a predicate. -/
def Returns (accepted : α → Prop) (code : EStateM ε σ α) : Prop :=
  ∀ state value next, code state = .ok value next → accepted value

namespace Returns

variable {accepted : β → Prop}

theorem pure {value : β} (holds : accepted value) :
    Returns accepted (pure value : EStateM ε σ β) := by
  intro state other next run
  rw [run_pure] at run
  injection run with value_eq
  exact value_eq ▸ holds

/-- Only the last statement decides what is returned. -/
theorem bind {code : EStateM ε σ α} {rest : α → EStateM ε σ β}
    (second : ∀ value, Returns accepted (rest value)) : Returns accepted (code >>= rest) := by
  intro state other last run
  cases first : code state with
  | ok value next =>
      rw [run_bind_ok first] at run
      exact second value next other last run
  | error stop next =>
      rw [run_bind_error first] at run
      exact absurd run (by simp)

theorem ite {condition : Prop} [Decidable condition] {left right : EStateM ε σ β}
    (onTrue : Returns accepted left) (onFalse : Returns accepted right) :
    Returns accepted (if condition then left else right) := by
  by_cases holds : condition
  · rw [if_pos holds]
    exact onTrue
  · rw [if_neg holds]
    exact onFalse

end Returns

/-- Every state in which the code can stop is allowed from the initial one. -/
def Within (allowed : σ → σ → Prop) (code : EStateM ε σ α) : Prop :=
  ∀ state, allowed state (finalState (code state))

namespace Within

variable {allowed : σ → σ → Prop}

theorem pure [IsPreorder σ allowed] (value : α) :
    Within allowed (pure value : EStateM ε σ α) := by
  intro state
  exact refl_of allowed state

theorem get [IsPreorder σ allowed] : Within allowed (get : EStateM ε σ σ) := by
  intro state
  exact refl_of allowed state

/-- A bound on both halves bounds the whole, also when the first half stops. -/
theorem bind [IsPreorder σ allowed] {code : EStateM ε σ α} {rest : α → EStateM ε σ β}
    (first : Within allowed code) (second : ∀ value, Within allowed (rest value)) :
    Within allowed (code >>= rest) := by
  intro state
  have reached := first state
  cases run : code state with
  | ok value next =>
      rw [run] at reached
      rw [run_bind_ok run]
      exact trans_of allowed reached (second value next)
  | error stop next =>
      rw [run] at reached
      rw [run_bind_error run]
      exact reached

theorem ite {condition : Prop} [Decidable condition] {left right : EStateM ε σ α}
    (onTrue : Within allowed left) (onFalse : Within allowed right) :
    Within allowed (if condition then left else right) := by
  by_cases holds : condition
  · rw [if_pos holds]
    exact onTrue
  · rw [if_neg holds]
    exact onFalse

end Within

/-- Two runs stopped in the same way, in related states. -/
inductive SameOutcome (related : σ → σ → Prop) :
    EStateM.Result ε σ α → EStateM.Result ε σ α → Prop where
  | ok (value : α) {left right : σ} (states : related left right) :
      SameOutcome related (.ok value left) (.ok value right)
  | error (stop : ε) {left right : σ} (states : related left right) :
      SameOutcome related (.error stop left) (.error stop right)

/-- From related states two pieces of code have the same outcome. -/
def Coupled (related : σ → σ → Prop) (left right : EStateM ε σ α) : Prop :=
  ∀ first second, related first second → SameOutcome related (left first) (right second)

namespace Coupled

variable {related : σ → σ → Prop}

theorem pure (value : α) :
    Coupled related (pure value : EStateM ε σ α) (Pure.pure value) := by
  intro first second states
  exact SameOutcome.ok value states

theorem bind {left right : EStateM ε σ α} {leftRest rightRest : α → EStateM ε σ β}
    (head : Coupled related left right)
    (tail : ∀ value, Coupled related (leftRest value) (rightRest value)) :
    Coupled related (left >>= leftRest) (right >>= rightRest) := by
  intro first second states
  have outcome := head first second states
  generalize leftRun : left first = leftResult at outcome
  generalize rightRun : right second = rightResult at outcome
  cases outcome with
  | ok value next =>
      rw [run_bind_ok leftRun, run_bind_ok rightRun]
      exact tail value _ _ next
  | error stop next =>
      rw [run_bind_error leftRun, run_bind_error rightRun]
      exact SameOutcome.error stop next

/-- Code that looks at the state is coupled if it is for every two related states. -/
theorem get_bind {leftRest rightRest : σ → EStateM ε σ β}
    (tail : ∀ first second, related first second →
      Coupled related (leftRest first) (rightRest second)) :
    Coupled related (get >>= leftRest) (get >>= rightRest) := by
  intro first second states
  exact tail first second states first second states

theorem ite {condition condition' : Prop} [Decidable condition] [Decidable condition']
    {left right left' right' : EStateM ε σ α} (same : condition ↔ condition')
    (onTrue : Coupled related left left') (onFalse : Coupled related right right') :
    Coupled related (if condition then left else right)
      (if condition' then left' else right') := by
  by_cases holds : condition
  · rw [if_pos holds, if_pos (same.mp holds)]
    exact onTrue
  · rw [if_neg holds, if_neg (fun holds' => holds (same.mpr holds'))]
    exact onFalse

end Coupled

end Gray386.Machine
