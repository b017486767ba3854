import Mathlib.Tactic.Common

/-!
# Simulation between two levels of a design

A program takes inputs one after the other, and each has an output. `outputs` is what it
shows in a whole run. A design says for every state and input which outputs are right and
which states may follow; it need not say it uniquely. `Behaves` collects the runs of a design.

If a relation between the states is kept by every input that is allowed, then a run of the
program is a run of the design, and what holds of all runs of the design holds of the program.
-/

namespace Gray386.Machine

universe u v

variable {σ : Type u} {τ : Type v} {ε ο : Type}

section Program

variable (step : σ → ε → ο × σ)

/-- The state after some inputs. -/
def stateAfter (start : σ) (inputs : List ε) : σ :=
  inputs.foldl (fun state input => (step state input).2) start

/-- The outputs, input by input. -/
def outputs : σ → List ε → List ο
  | _, [] => []
  | state, input :: rest => (step state input).1 :: outputs (step state input).2 rest

theorem stateAfter_append (start : σ) (inputs others : List ε) :
    stateAfter step start (inputs ++ others) =
      stateAfter step (stateAfter step start inputs) others :=
  List.foldl_append

/-- Every input is allowed in the state that it finds. -/
def AllowedAlong (allowed : σ → ε → Prop) : σ → List ε → Prop
  | _, [] => True
  | state, input :: rest => allowed state input ∧ AllowedAlong allowed (step state input).2 rest

theorem allowedAlong_of_forall {allowed : ε → Prop} (start : σ) {inputs : List ε}
    (all : ∀ input ∈ inputs, allowed input) :
    AllowedAlong step (fun _ => allowed) start inputs := by
  induction inputs generalizing start with
  | nil => trivial
  | cons input rest ih =>
      exact ⟨all input List.mem_cons_self,
        ih _ fun later mem => all later (List.mem_cons_of_mem _ mem)⟩

theorem AllowedAlong.append {allowed : σ → ε → Prop} {start : σ} {inputs others : List ε}
    (guarded : AllowedAlong step allowed start (inputs ++ others)) :
    AllowedAlong step allowed start inputs ∧
      AllowedAlong step allowed (stateAfter step start inputs) others := by
  induction inputs generalizing start with
  | nil => exact ⟨trivial, guarded⟩
  | cons input rest ih => exact ⟨⟨guarded.1, (ih guarded.2).1⟩, (ih guarded.2).2⟩

theorem AllowedAlong.and {allowed others : σ → ε → Prop} {start : σ} {inputs : List ε}
    (left : AllowedAlong step allowed start inputs)
    (right : AllowedAlong step others start inputs) :
    AllowedAlong step (fun state input => allowed state input ∧ others state input) start
      inputs := by
  induction inputs generalizing start with
  | nil => trivial
  | cons input rest ih => exact ⟨⟨left.1, right.1⟩, ih left.2 right.2⟩

end Program

/-- The runs of a design. -/
inductive Behaves (design : τ → ε → ο → τ → Prop) : τ → List ε → List ο → τ → Prop
  | nil (state : τ) : Behaves design state [] [] state
  | cons {state next last : τ} {input : ε} {output : ο} {rest : List ε} {others : List ο}
      (first : design state input output next) (tail : Behaves design next rest others last) :
      Behaves design state (input :: rest) (output :: others) last

section History

variable {design : τ → ε → ο → τ → Prop} (history : List ε → List ο → τ → Prop)
  (kept : ∀ past shown state input output next, history past shown state →
    design state input output next → history (past ++ [input]) (shown ++ [output]) next)

include kept

theorem Behaves.invariant_from {state last : τ} {past inputs : List ε} {shown others : List ο}
    (holds : history past shown state) (run : Behaves design state inputs others last) :
    history (past ++ inputs) (shown ++ others) last := by
  induction run generalizing past shown with
  | nil state =>
      rw [List.append_nil, List.append_nil]
      exact holds
  | cons first tail ih =>
      have next := ih (kept _ _ _ _ _ _ holds first)
      rw [List.append_assoc, List.append_assoc] at next
      exact next

/-- What every step of a design keeps, of what has been done and shown so far and the state. -/
theorem Behaves.invariant {state last : τ} {inputs : List ε} {others : List ο}
    (holds : history [] [] state) (run : Behaves design state inputs others last) :
    history inputs others last :=
  Behaves.invariant_from history kept holds run

end History

/-- A program is a design that leaves no choice. -/
theorem behaves_outputs (step : σ → ε → ο × σ) (start : σ) (inputs : List ε) :
    Behaves (fun state input output next => step state input = (output, next)) start inputs
      (outputs step start inputs) (stateAfter step start inputs) := by
  induction inputs generalizing start with
  | nil => exact .nil start
  | cons input rest ih => exact .cons rfl (ih _)

/-- What every step of a program keeps, of what has been done and shown so far and the state. -/
theorem outputs_invariant {step : σ → ε → ο × σ} (history : List ε → List ο → σ → Prop)
    (kept : ∀ past shown state input, history past shown state →
      history (past ++ [input]) (shown ++ [(step state input).1]) (step state input).2)
    {start : σ} (holds : history [] [] start) (inputs : List ε) :
    history inputs (outputs step start inputs) (stateAfter step start inputs) := by
  refine Behaves.invariant history ?_ holds (behaves_outputs step start inputs)
  intro past shown state input output next before stepped
  have after := kept past shown state input before
  rw [stepped] at after
  exact after

/-- The program is related to the design in every state, and every step is one of the design. -/
theorem behaves_of_allowedAlong {step : σ → ε → ο × σ} {design : τ → ε → ο → τ → Prop}
    {relation : σ → τ → Prop} {allowed : σ → ε → Prop}
    (simulates : ∀ state abstract input, relation state abstract → allowed state input →
      ∃ next, design abstract input (step state input).1 next ∧
        relation (step state input).2 next)
    {start : σ} {abstract : τ} (related : relation start abstract) {inputs : List ε}
    (guarded : AllowedAlong step allowed start inputs) :
    ∃ last, Behaves design abstract inputs (outputs step start inputs) last ∧
      relation (stateAfter step start inputs) last := by
  induction inputs generalizing start abstract with
  | nil => exact ⟨abstract, .nil abstract, related⟩
  | cons input rest ih =>
      rcases simulates start abstract input related guarded.1 with ⟨next, first, stays⟩
      rcases ih stays guarded.2 with ⟨last, tail, ends⟩
      exact ⟨last, .cons first tail, ends⟩

/-- The same, if it does not depend on the state what is allowed. -/
theorem behaves_of_simulates {step : σ → ε → ο × σ} {design : τ → ε → ο → τ → Prop}
    {relation : σ → τ → Prop} {allowed : ε → Prop}
    (simulates : ∀ state abstract input, relation state abstract → allowed input →
      ∃ next, design abstract input (step state input).1 next ∧
        relation (step state input).2 next)
    {start : σ} {abstract : τ} (related : relation start abstract) {inputs : List ε}
    (all : ∀ input ∈ inputs, allowed input) :
    ∃ last, Behaves design abstract inputs (outputs step start inputs) last ∧
      relation (stateAfter step start inputs) last :=
  behaves_of_allowedAlong simulates related (allowedAlong_of_forall step start all)

end Gray386.Machine
