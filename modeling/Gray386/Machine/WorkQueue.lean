import Mathlib.Data.List.Basic

/-!
# Work items that wait for work items

An ordered work queue runs one item at a time. The function of an item is a stack of
statements; a call replaces itself by the statements of the function that is called.
Functions queue further items and remove items from the queue. They can also remove an
item and wait until it is not running, and in an ordered queue that wait has an end
unless the item waits for itself. From then on no item makes progress.

Between any two statements anything may happen that is not part of an item, such as an
interrupt. It changes the state and queues items but not what is running.

Which statements an item can come to is a question about the calls only. `Closed` says
that a set of statements contains the functions that are queued and is closed under
calls, as long as each call is `quiet`. The values that are computed do not matter.
-/

namespace Gray386.Machine

universe u

/-- A statement of a function that a work item runs. -/
inductive Statement (Item Code : Type u) where
  | call (code : Code)
  /-- Remove an item from the queue and wait until it does not run. -/
  | cancelSync (item : Item)
  deriving DecidableEq, Repr

/-- The functions of a queue, and what happens besides them. -/
structure QueueSystem (σ Item Code Input Action : Type u) where
  /-- The function with which an item is queued. -/
  pending : σ → Item → Option Code
  /-- The state without the item in the queue. -/
  take : Item → σ → σ
  /-- The statements of a function, or none if it faults. -/
  exec : Code → Input → σ → Option (σ × List (Statement Item Code))
  act : Action → Option Item → σ → σ

/-- The state, the item that is running and what is left of it. -/
structure Worker (σ Item Code : Type u) where
  state : σ
  running : Option Item
  stack : List (Statement Item Code)

inductive QueueEvent (Item Input Action : Type u) where
  | exec (input : Input)
  | dispatch (item : Item)
  | act (action : Action)

namespace Worker

variable {σ Item Code Input Action : Type u}

/-- The worker is in a synchronous wait for the item that it runs. -/
def SelfWaits (worker : Worker σ Item Code) : Prop :=
  ∃ item rest, worker.running = some item ∧ worker.stack = .cancelSync item :: rest

/-- All that is left of the running item is allowed. -/
def StackWithin (allowed : Item → Statement Item Code → Prop) (worker : Worker σ Item Code) :
    Prop :=
  ∀ item, worker.running = some item → ∀ statement ∈ worker.stack, allowed item statement

theorem StackWithin.not_selfWaits {allowed : Item → Statement Item Code → Prop}
    {worker : Worker σ Item Code} (within : worker.StackWithin allowed)
    (never : ∀ item, ¬allowed item (.cancelSync item)) : ¬worker.SelfWaits := by
  rintro ⟨item, rest, running, stack⟩
  apply never item
  apply within item running
  rw [stack]
  exact List.mem_cons_self

variable [DecidableEq Item] (system : QueueSystem σ Item Code Input Action)

/-- The next statement of the running item. -/
def execute (worker : Worker σ Item Code) (item : Item) (input : Input) : Worker σ Item Code :=
  match worker.stack with
  | [] => { worker with running := none }
  | .cancelSync other :: rest =>
      if other = item then worker
      else { worker with state := system.take other worker.state, stack := rest }
  | .call code :: rest =>
      match system.exec code input worker.state with
      | none => worker
      | some (state, called) => { worker with state := state, stack := called ++ rest }

/-- One step. An event that is not possible changes nothing. -/
def step (worker : Worker σ Item Code) : QueueEvent Item Input Action → Worker σ Item Code
  | .exec input =>
      match worker.running with
      | none => worker
      | some item => worker.execute system item input
  | .dispatch item =>
      match worker.running, system.pending worker.state item with
      | none, some code => ⟨system.take item worker.state, some item, [.call code]⟩
      | _, _ => worker
  | .act action => { worker with state := system.act action worker.running worker.state }

def run (worker : Worker σ Item Code) (events : List (QueueEvent Item Input Action)) :
    Worker σ Item Code :=
  events.foldl (step system) worker

/-- A property of every state of a run, the first and the last included. -/
def Throughout (property : Worker σ Item Code → Prop) :
    Worker σ Item Code → List (QueueEvent Item Input Action) → Prop
  | worker, [] => property worker
  | worker, event :: rest => property worker ∧ Throughout property (worker.step system event) rest

/-- A property of the calls that are made in a run, and of what is read in them. -/
def EachCall (quiet : Item → Code → Input → σ → Prop) :
    Worker σ Item Code → List (QueueEvent Item Input Action) → Prop
  | _, [] => True
  | worker, event :: rest =>
      (∀ input item code stack, event = .exec input → worker.running = some item →
        worker.stack = .call code :: stack → quiet item code input worker.state) ∧
      EachCall quiet (worker.step system event) rest

variable {system} in
theorem throughout_run {property : Worker σ Item Code → Prop} {worker : Worker σ Item Code}
    {events : List (QueueEvent Item Input Action)}
    (holds : worker.Throughout system property events) : property (worker.run system events) := by
  induction events generalizing worker with
  | nil => exact holds
  | cons event rest ih => exact ih holds.2

theorem SelfWaits.step {worker : Worker σ Item Code} (waits : worker.SelfWaits)
    (event : QueueEvent Item Input Action) : (worker.step system event).SelfWaits := by
  rcases waits with ⟨item, rest, running, stack⟩
  cases event with
  | exec input =>
      simp only [Worker.step, running, execute, stack, if_true]
      exact ⟨item, rest, running, stack⟩
  | dispatch other =>
      simp only [Worker.step, running]
      exact ⟨item, rest, running, stack⟩
  | act action => exact ⟨item, rest, running, stack⟩

theorem SelfWaits.run {worker : Worker σ Item Code} (waits : worker.SelfWaits)
    (events : List (QueueEvent Item Input Action)) : (worker.run system events).SelfWaits := by
  induction events generalizing worker with
  | nil => exact waits
  | cons event rest ih => exact ih (waits.step system event)

/-- The allowed statements contain what is queued and what quiet calls lead to. -/
structure Closed (allowed : Item → Statement Item Code → Prop)
    (quiet : Item → Code → Input → σ → Prop) : Prop where
  queued : ∀ {state item code}, system.pending state item = some code → allowed item (.call code)
  called : ∀ {item code input state next statements}, allowed item (.call code) →
    quiet item code input state → system.exec code input state = some (next, statements) →
      ∀ statement ∈ statements, allowed item statement

variable {system} {allowed : Item → Statement Item Code → Prop}
  {quiet : Item → Code → Input → σ → Prop}

theorem StackWithin.execute (closed : Closed system allowed quiet) {worker : Worker σ Item Code}
    (within : worker.StackWithin allowed) {item : Item} (running : worker.running = some item)
    {input : Input}
    (calm : ∀ code stack, worker.stack = .call code :: stack →
      quiet item code input worker.state) :
    (worker.execute system item input).StackWithin allowed := by
  have left : ∀ statement ∈ worker.stack, allowed item statement := within item running
  simp only [Worker.execute]
  cases stack : worker.stack with
  | nil =>
      intro other nothing
      exact absurd nothing (by simp)
  | cons statement rest =>
      rw [stack] at left
      have rest_allowed : ∀ other ∈ rest, allowed item other := by
        intro other other_mem
        exact left other (List.mem_cons_of_mem statement other_mem)
      cases statement with
      | cancelSync other =>
          simp only
          split_ifs
          · exact within
          · intro same same_running
            rw [Option.some.inj (running.symm.trans same_running)] at rest_allowed
            exact rest_allowed
      | call code =>
          simp only
          cases executed : system.exec code input worker.state with
          | none => exact within
          | some outcome =>
              rcases outcome with ⟨next, called⟩
              intro same same_running other other_mem
              rw [← Option.some.inj (running.symm.trans same_running)]
              rcases List.mem_append.mp other_mem with new | old
              · exact closed.called (left _ List.mem_cons_self) (calm code rest stack) executed
                  other new
              · exact rest_allowed other old

theorem StackWithin.step (closed : Closed system allowed quiet) {worker : Worker σ Item Code}
    (within : worker.StackWithin allowed) (event : QueueEvent Item Input Action)
    (calm : ∀ input item code stack, event = .exec input → worker.running = some item →
      worker.stack = .call code :: stack → quiet item code input worker.state) :
    (worker.step system event).StackWithin allowed := by
  cases event with
  | exec input =>
      simp only [Worker.step]
      cases running : worker.running with
      | none => exact within
      | some item =>
          apply within.execute closed running
          intro code stack stack_eq
          exact calm input item code stack rfl running stack_eq
  | dispatch item =>
      simp only [Worker.step]
      cases running : worker.running with
      | some other => exact within
      | none =>
          cases queued : system.pending worker.state item with
          | none => exact within
          | some code =>
              intro same same_eq statement statement_mem
              rw [List.mem_singleton] at statement_mem
              rw [← Option.some.inj same_eq, statement_mem]
              exact closed.queued queued
  | act action => exact within

/--
If the calls that are not quiet are those that lead to a wait of an item for itself, then
the runs without such a wait are the runs in which every call is quiet.
-/
theorem throughout_not_selfWaits_iff (closed : Closed system allowed quiet)
    (never : ∀ item, ¬allowed item (.cancelSync item))
    (loud : ∀ {item code input state}, ¬quiet item code input state →
      ∃ next rest, system.exec code input state = some (next, .cancelSync item :: rest))
    {worker : Worker σ Item Code} (within : worker.StackWithin allowed)
    (events : List (QueueEvent Item Input Action)) :
    worker.Throughout system (fun reached => ¬reached.SelfWaits) events ↔
      worker.EachCall system quiet events := by
  induction events generalizing worker with
  | nil => exact ⟨fun _ => trivial, fun _ => within.not_selfWaits never⟩
  | cons event rest ih =>
      constructor
      · rintro ⟨-, later⟩
        have calm : ∀ input item code stack, event = .exec input → worker.running = some item →
            worker.stack = .call code :: stack → quiet item code input worker.state := by
          rintro input item code stack rfl running stack_eq
          by_contra notQuiet
          rcases loud notQuiet with ⟨next, called, executed⟩
          have waits : (worker.step system (.exec input)).SelfWaits := by
            simp only [Worker.step, running, Worker.execute, stack_eq, executed]
            exact ⟨item, _, rfl, rfl⟩
          cases rest with
          | nil => exact later waits
          | cons _ _ => exact later.1 waits
        exact ⟨calm, (ih (within.step closed event calm)).mp later⟩
      · rintro ⟨calm, later⟩
        exact ⟨within.not_selfWaits never, (ih (within.step closed event calm)).mpr later⟩

end Worker

end Gray386.Machine
