import Gray386.Emu.Atomicity

/-!
# Threads that run the handlers

Here the handlers themselves run in several threads. Every thread has a frame of its
own, on its own kernel stack, and all share one user memory. A thread traps with the
registers that its program has computed, and the handler of its instruction runs
until it may sleep: in front of the store of `put_user`, where the sum is kept in a
local variable of the kernel, or at its end.

Such a system is simulated by the system of transitions on one word. In this way the
results about the latter are results about the code.
-/

namespace Gray386.Emu

open Gray386.Machine

/-- The general registers in a frame. -/
def PtRegs.gpr (regs : PtRegs) : Registers :=
  fun register => regs.get (Slot.ofReg register)

/-- The frame of a trap with these general registers. -/
def PtRegs.setGpr (regs : PtRegs) (registers : Registers) : PtRegs :=
  { regs with
    ax := registers .eax
    cx := registers .ecx
    dx := registers .edx
    bx := registers .ebx
    sp := registers .esp
    bp := registers .ebp
    si := registers .esi
    di := registers .edi }

theorem PtRegs.gpr_setGpr (regs : PtRegs) (registers : Registers) :
    (regs.setGpr registers).gpr = registers := by
  funext register
  cases register <;> rfl

/-- What the decoder leaves for an instruction on the shared word. -/
def AtomicInstruction.parsed (instruction : AtomicInstruction) (address : Word) : ParserState :=
  { instSrc := .slot (Slot.ofReg instruction.src), instDest := .user address, origIp := 0,
    insts := 0, insts2 := 0, regsOnly := 0, lockPrefix := 1 }

/-- The state in which a thread traps, given the frame that it was resumed with. -/
def AtomicInstruction.trapped (instruction : AtomicInstruction) (regs : PtRegs) (mem : Memory) :
    State :=
  { regs := regs.setGpr (instruction.prepare regs.gpr), mem := mem, bus := [] }

structure KernelThread where
  program : List AtomicInstruction
  regs : PtRegs
  /-- The sum that `put_user` is about to store. -/
  resultDest : Option Word

structure KernelSystem (ι : Type) where
  mem : Memory
  threads : ι → KernelThread

namespace KernelSystem

variable {ι : Type}

/-- No thread has trapped yet. -/
def initial (mem : Memory) (frames : ι → PtRegs) (programs : ι → List AtomicInstruction) :
    KernelSystem ι :=
  { mem := mem, threads := fun thread => ⟨programs thread, frames thread, none⟩ }

variable [DecidableEq ι]

/-- A thread leaves the processor. -/
def leave (system : KernelSystem ι) (thread : ι) (mem : Memory) (left : KernelThread) :
    KernelSystem ι :=
  { mem := mem, threads := Function.update system.threads thread left }

/-- A thread runs until it may sleep. -/
def step (ctx : ι → TrapContext) (address : Word) (system : KernelSystem ι) (thread : ι) :
    KernelSystem ι :=
  let current := system.threads thread
  match current.program with
  | [] => system
  | instruction :: rest =>
      let pstate := instruction.parsed address
      match current.resultDest with
      | some resultDest =>
          match xaddStore (ctx thread) pstate resultDest ⟨current.regs, system.mem, []⟩ with
          | .ok _ st => system.leave thread st.mem ⟨rest, st.regs, none⟩
          | .error _ _ => system
      | none =>
          match instruction.op with
          | .xadd =>
              match xaddFetch (ctx thread) pstate (instruction.trapped current.regs system.mem) with
              | .ok resultDest st =>
                  system.leave thread st.mem ⟨instruction :: rest, st.regs, some resultDest⟩
              | .error _ _ => system
          | .cmpxchg =>
              match operateCmpxchg (ctx thread) pstate
                (instruction.trapped current.regs system.mem) with
              | .ok _ st => system.leave thread st.mem ⟨rest, st.regs, none⟩
              | .error _ _ => system

def run (ctx : ι → TrapContext) (address : Word) (system : KernelSystem ι) (schedule : List ι) :
    KernelSystem ι :=
  schedule.foldl (step ctx address) system

end KernelSystem

/-- A thread in the kernel and the thread that it represents. -/
inductive Represents : KernelThread → Thread Word Registers → Prop where
  | idle {program : List AtomicInstruction} {regs : PtRegs} {history : List Registers} :
      Represents ⟨program, regs, none⟩
        ⟨program.map AtomicInstruction.operation, regs.gpr, history, none⟩
  | asleep {instruction : AtomicInstruction} {rest : List AtomicInstruction} {regs : PtRegs}
      {resultDest seen : Word} {locals : Registers} {history : List Registers}
      (computed : instruction.transition locals seen = (regs.gpr, resultDest)) :
      Represents ⟨instruction :: rest, regs, some resultDest⟩
        ⟨(instruction :: rest).map AtomicInstruction.operation, locals, history, some seen⟩

structure Simulates {ι : Type} (address : Word) (kernel : KernelSystem ι)
    (system : System ι Word Registers) : Prop where
  shared : system.shared = kernel.mem.load address
  accessible : Accessible kernel.mem (.mem address)
  threads : ∀ thread, Represents (kernel.threads thread) (system.threads thread)

section Step

variable {ι : Type} [DecidableEq ι] {ctx : ι → TrapContext} {address : Word}
  {kernel : KernelSystem ι} {system : System ι Word Registers}

theorem Simulates.leave (simulates : Simulates address kernel system) (thread : ι)
    {mem : Memory} {shared : Word} {current : KernelThread} {model : Thread Word Registers}
    (shared_eq : shared = mem.load address) (accessible : Accessible mem (.mem address))
    (represents : Represents current model) :
    Simulates address (kernel.leave thread mem current)
      ⟨shared, Function.update system.threads thread model⟩ := by
  refine ⟨shared_eq, accessible, ?_⟩
  intro other
  simp only [KernelSystem.leave]
  by_cases here : other = thread
  · subst here
    simp only [Function.update_self]
    exact represents
  · simp only [Function.update_of_ne here]
    exact simulates.threads other

theorem parsed_decoded (instruction : AtomicInstruction) (address : Word) :
    Decoded (instruction.parsed address) (Slot.ofReg instruction.src) ⟨.user address, true, 0⟩ :=
  ⟨rfl, rfl, rfl⟩

/-- The shared word is a word of user memory for every thread. -/
def SharedWord (ctx : ι → TrapContext) (address : Word) : Prop :=
  ∀ thread, address.toNat + 4 ≤ (ctx thread).addrLimit.toNat ∧ OutsideFrame (ctx thread) address

omit [DecidableEq ι] in
theorem SharedWord.denotes (sharedWord : SharedWord ctx address) (thread : ι) :
    Operand.Denotes (ctx thread) ⟨.user address, true, 0⟩ (.mem address) :=
  .memory address rfl rfl (sharedWord thread).1 (sharedWord thread).2

omit [DecidableEq ι] in
/-- What the handler of a trap computes, in terms of the system that is represented. -/
theorem Simulates.transition_trapped (simulates : Simulates address kernel system)
    (instruction : AtomicInstruction) (regs : PtRegs) :
    AtomicInstruction.transition ⟨instruction.op, instruction.src, id⟩
        (instruction.trapped regs kernel.mem).arch.gpr (kernel.mem.load address) =
      instruction.transition regs.gpr system.shared := by
  have gpr_eq : (instruction.trapped regs kernel.mem).arch.gpr = instruction.prepare regs.gpr :=
    PtRegs.gpr_setGpr _ _
  rw [gpr_eq, simulates.shared]
  rfl

/-- A thread that wakes up in `put_user` stores its sum. -/
theorem Simulates.step_asleep (sharedWord : SharedWord ctx address)
    (simulates : Simulates address kernel system) {thread : ι} {instruction : AtomicInstruction}
    {rest : List AtomicInstruction} {regs : PtRegs} {resultDest seen : Word}
    {locals : Registers} {history : List Registers}
    (here : kernel.threads thread = ⟨instruction :: rest, regs, some resultDest⟩)
    (there : system.threads thread =
      ⟨(instruction :: rest).map AtomicInstruction.operation, locals, history, some seen⟩)
    (computed : instruction.transition locals seen = (regs.gpr, resultDest)) :
    Simulates address (kernel.step ctx address thread) (system.step thread) := by
  rcases xaddStore_step ⟨regs, kernel.mem, []⟩ (parsed_decoded instruction address)
    (sharedWord.denotes thread) simulates.accessible resultDest
    with ⟨stored, run, mem_eq, regs_eq⟩
  have applied : instruction.operation.apply locals seen = (regs.gpr, resultDest) := computed
  simp only [KernelSystem.step, here, run, System.step, there, List.map_cons, System.finish,
    applied]
  apply simulates.leave thread
  · rw [mem_eq, Memory.load_store]
  · rw [mem_eq]
    exact simulates.accessible
  · rw [regs_eq]
    exact Represents.idle

section Trap

variable {thread : ι} {instruction : AtomicInstruction} {rest : List AtomicInstruction}
  {regs : PtRegs} {history : List Registers}

variable (sharedWord : SharedWord ctx address) (simulates : Simulates address kernel system)
  (here : kernel.threads thread = ⟨instruction :: rest, regs, none⟩)
  (there : system.threads thread =
    ⟨(instruction :: rest).map AtomicInstruction.operation, regs.gpr, history, none⟩)

include sharedWord simulates here there

/-- A thread traps with an `xadd` and falls asleep in `put_user`. -/
theorem Simulates.step_xadd (isXadd : instruction.op = .xadd) :
    Simulates address (kernel.step ctx address thread) (system.step thread) := by
  have computes := simulates.transition_trapped instruction regs
  rcases xaddFetch_step (instruction.trapped regs kernel.mem)
    (parsed_decoded instruction address) (sharedWord.denotes thread) simulates.accessible
    with ⟨fetched, run, mem_eq, gpr_eq⟩
  rw [isXadd] at computes
  rw [show (instruction.trapped regs kernel.mem).mem = kernel.mem from rfl] at run gpr_eq mem_eq
  rw [computes] at run gpr_eq
  have yields : instruction.operation.yields = true := by
    simp [AtomicInstruction.operation, isXadd]
  simp only [KernelSystem.step, here, isXadd, run, System.step, there, List.map_cons, yields,
    if_true]
  apply simulates.leave thread
  · rw [mem_eq]
    exact simulates.shared
  · rw [mem_eq]
    exact simulates.accessible
  · have computed : instruction.transition regs.gpr system.shared =
        (fetched.regs.gpr, (instruction.transition regs.gpr system.shared).2) :=
      Prod.ext gpr_eq.symm rfl
    exact Represents.asleep computed

/-- A thread traps with a `cmpxchg`, which does not sleep. -/
theorem Simulates.step_cmpxchg (isCmpxchg : instruction.op = .cmpxchg) :
    Simulates address (kernel.step ctx address thread) (system.step thread) := by
  have computes := simulates.transition_trapped instruction regs
  rcases operateCmpxchg_step (instruction.trapped regs kernel.mem)
    (parsed_decoded instruction address) (sharedWord.denotes thread) simulates.accessible
    with ⟨final, run, accessible, load_eq, gpr_eq⟩
  rw [isCmpxchg] at computes
  rw [show (instruction.trapped regs kernel.mem).mem = kernel.mem from rfl, computes]
    at load_eq gpr_eq
  have model : (instruction.operation.apply regs.gpr system.shared) =
      (final.regs.gpr, final.mem.load address) := Prod.ext gpr_eq.symm load_eq.symm
  have notYielding : instruction.operation.yields = false := by
    simp [AtomicInstruction.operation, isCmpxchg]
  simp only [KernelSystem.step, here, isCmpxchg, run, System.step, there, List.map_cons,
    notYielding, System.finish, model]
  exact simulates.leave thread rfl accessible Represents.idle

end Trap

/-- The handlers make the steps of the system that they represent. -/
theorem Simulates.step (sharedWord : SharedWord ctx address)
    (simulates : Simulates address kernel system) (thread : ι) :
    Simulates address (kernel.step ctx address thread) (system.step thread) := by
  have represents := simulates.threads thread
  generalize here : kernel.threads thread = current at represents
  generalize there : system.threads thread = model at represents
  cases represents with
  | asleep computed => exact simulates.step_asleep sharedWord here there computed
  | @idle program regs history =>
      cases program with
      | nil =>
          simp only [KernelSystem.step, here, System.step, there, List.map_nil]
          exact simulates
      | cons instruction rest =>
          cases operation : instruction.op with
          | xadd => exact Simulates.step_xadd sharedWord simulates here there operation
          | cmpxchg => exact Simulates.step_cmpxchg sharedWord simulates here there operation

theorem Simulates.run (sharedWord : SharedWord ctx address)
    (simulates : Simulates address kernel system) (schedule : List ι) :
    Simulates address (kernel.run ctx address schedule) (system.run schedule) := by
  induction schedule generalizing kernel system with
  | nil => exact simulates
  | cons thread rest ih => exact ih (simulates.step sharedWord thread)

theorem Represents.locals_eq {current : KernelThread} {model : Thread Word Registers}
    (represents : Represents current model) (awake : current.resultDest = none) :
    model.locals = current.regs.gpr := by
  cases represents with
  | idle => rfl
  | asleep computed => exact absurd awake (by simp)

omit [DecidableEq ι] in
theorem simulates_initial {mem : Memory} (accessible : Accessible mem (.mem address))
    (frames : ι → PtRegs) (programs : ι → List AtomicInstruction) :
    Simulates address (KernelSystem.initial mem frames programs)
      (start (mem.load address) (fun thread => (frames thread).gpr) programs) :=
  ⟨rfl, accessible, fun _ => Represents.idle⟩

/--
If no word is changed under a thread that sleeps in `put_user`, the handlers leave
the word and the registers that some serial order of the instructions leaves.
-/
theorem KernelSystem.run_serializable (sharedWord : SharedWord ctx address) {mem : Memory}
    (accessible : Accessible mem (.mem address)) (frames : ι → PtRegs)
    (programs : ι → List AtomicInstruction) (schedule : List ι)
    (undisturbed : (start (mem.load address) (fun thread => (frames thread).gpr)
      programs).UndisturbedRun schedule) :
    let final := (KernelSystem.initial mem frames programs).run ctx address schedule
    ∃ order, let serial := (start (mem.load address) (fun thread => (frames thread).gpr)
        programs).serialRun order
      final.mem.load address = serial.shared ∧
        ∀ thread, (final.threads thread).resultDest = none →
          (final.threads thread).regs.gpr = (serial.threads thread).locals := by
  have simulates := (simulates_initial accessible frames programs).run sharedWord schedule
  rcases serializable_of_undisturbed undisturbed with ⟨order, same⟩
  refine ⟨order, ?_, ?_⟩
  · rw [← simulates.shared, same.shared]
  · intro thread awake
    rw [← (simulates.threads thread).locals_eq awake, same.locals]

end Step

end Gray386.Emu
