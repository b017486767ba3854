import Mathlib.Data.List.Basic
import Mathlib.Logic.Function.Basic

/-!
# Operations that are interrupted between read and write

Threads have a state of their own and share another one. They run programs of
operations. An operation reads the shared state and then writes it. Some operations
do both at once; others can be interrupted in between, so that the write is based on
what the shared state was before.

What an interrupted operation has computed depends on its own thread and on the value
that it has read. Only that value is kept, and the operation takes its effect on the
thread when it writes.

The reference is the serial machine, in which every operation is carried out as a
whole. An interleaved run agrees with a serial one as long as no write is based on
an outdated value. `System.forget` removes what interrupted operations have read and
is the simulation between the two machines.
-/

namespace Gray386.Machine

universe u v w

/-- A function of the own state and the shared state that is read. -/
structure Operation (σ : Type u) (τ : Type v) where
  apply : τ → σ → τ × σ
  /-- Other threads may run between the read and the write. -/
  yields : Bool

structure Thread (σ : Type u) (τ : Type v) where
  program : List (Operation σ τ)
  locals : τ
  /-- The own state before each operation that is complete. -/
  history : List τ
  /-- What the first operation of the program has read, if it was interrupted. -/
  pending : Option σ

structure System (ι : Type w) (σ : Type u) (τ : Type v) where
  shared : σ
  threads : ι → Thread σ τ

namespace System

variable {ι : Type w} {σ : Type u} {τ : Type v}

/-- No thread has started. -/
def initial (shared : σ) (locals : ι → τ) (programs : ι → List (Operation σ τ)) :
    System ι σ τ :=
  { shared := shared, threads := fun thread => ⟨programs thread, locals thread, [], none⟩ }

/-- Every program has come to its end. -/
def Complete (system : System ι σ τ) : Prop :=
  ∀ thread, (system.threads thread).program = []

/-- The system without the readings of interrupted operations. -/
def forget (system : System ι σ τ) : System ι σ τ :=
  { system with threads := fun thread => { system.threads thread with pending := none } }

variable [DecidableEq ι]

/-- The first operation of a thread takes effect, based on what it has read. -/
def finish (system : System ι σ τ) (thread : ι) (operation : Operation σ τ)
    (rest : List (Operation σ τ)) (seen : σ) : System ι σ τ :=
  let before := system.threads thread
  let after := operation.apply before.locals seen
  { shared := after.2
    threads := Function.update system.threads thread
      ⟨rest, after.1, before.history ++ [before.locals], none⟩ }

/-- A thread runs until it may be interrupted again. -/
def step (system : System ι σ τ) (thread : ι) : System ι σ τ :=
  match (system.threads thread).program with
  | [] => system
  | operation :: rest =>
      match (system.threads thread).pending with
      | some seen => system.finish thread operation rest seen
      | none =>
          if operation.yields then
            { system with
              threads := Function.update system.threads thread
                { system.threads thread with pending := some system.shared } }
          else system.finish thread operation rest system.shared

/-- A thread carries out a whole operation. -/
def serialStep (system : System ι σ τ) (thread : ι) : System ι σ τ :=
  match (system.threads thread).program with
  | [] => system
  | operation :: rest => system.finish thread operation rest system.shared

/-- An interleaved run. -/
def run (system : System ι σ τ) (schedule : List ι) : System ι σ τ :=
  schedule.foldl step system

/-- A serial run. -/
def serialRun (system : System ι σ τ) (order : List ι) : System ι σ τ :=
  order.foldl serialStep system

/-- If this thread is about to write, then the shared state is still what it has read. -/
def Undisturbed (system : System ι σ τ) (thread : ι) : Prop :=
  ∀ seen, (system.threads thread).pending = some seen → system.shared = seen

/-- Every step of the run is undisturbed. -/
def UndisturbedRun (system : System ι σ τ) : List ι → Prop
  | [] => True
  | thread :: rest => system.Undisturbed thread ∧ (system.step thread).UndisturbedRun rest

theorem forget_finish (system : System ι σ τ) (thread : ι) (operation : Operation σ τ)
    (rest : List (Operation σ τ)) (seen : σ) :
    (system.finish thread operation rest seen).forget =
      system.forget.finish thread operation rest seen := by
  simp only [finish, forget, mk.injEq, true_and]
  funext other
  by_cases here : other = thread
  · subst here
    simp only [Function.update_self]
  · simp only [Function.update_of_ne here]

/-- An undisturbed step has no visible effect, or that of a whole operation. -/
theorem forget_step {system : System ι σ τ} {thread : ι}
    (undisturbed : system.Undisturbed thread) :
    (system.step thread).forget = system.forget ∨
      (system.step thread).forget = system.forget.serialStep thread := by
  cases program : (system.threads thread).program with
  | nil =>
      left
      simp only [step, program]
  | cons operation rest =>
      have serial : system.forget.serialStep thread =
          system.forget.finish thread operation rest system.shared := by
        simp only [serialStep, forget, program]
      rw [serial]
      cases pending : (system.threads thread).pending with
      | some seen =>
          right
          simp only [step, program, pending]
          rw [forget_finish, undisturbed seen pending]
      | none =>
          simp only [step, program, pending]
          by_cases yields : operation.yields = true
          · left
            rw [if_pos yields]
            simp only [forget, mk.injEq, true_and]
            funext other
            by_cases here : other = thread
            · subst here
              simp only [Function.update_self, program]
            · simp only [Function.update_of_ne here]
          · right
            rw [if_neg yields, forget_finish]

/-- An undisturbed run is a serial run of the operations that have written. -/
theorem forget_run {system : System ι σ τ} {schedule : List ι}
    (undisturbed : system.UndisturbedRun schedule) :
    ∃ order, order.Sublist schedule ∧
      (system.run schedule).forget = system.forget.serialRun order := by
  induction schedule generalizing system with
  | nil => exact ⟨[], List.Sublist.refl [], rfl⟩
  | cons thread rest ih =>
      rcases undisturbed with ⟨first, later⟩
      rcases ih later with ⟨order, sublist, serial⟩
      rcases forget_step first with stutters | executes
      · refine ⟨order, sublist.cons thread, ?_⟩
        rw [stutters] at serial
        exact serial
      · refine ⟨thread :: order, sublist.cons_cons thread, ?_⟩
        rw [executes] at serial
        exact serial

/-- What a whole operation preserves, a serial run preserves. -/
theorem serialRun_preserves {property : System ι σ τ → Prop}
    (preserved : ∀ system thread, property system → property (system.serialStep thread))
    {system : System ι σ τ} (holds : property system) (order : List ι) :
    property (system.serialRun order) := by
  induction order generalizing system with
  | nil => exact holds
  | cons thread rest ih => exact ih (preserved system thread holds)

end System

end Gray386.Machine
