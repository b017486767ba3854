import Gray386.Emu.Refinement
import Gray386.Machine.Interleaving
import Mathlib.Algebra.BigOperators.Group.Finset.Basic
import Mathlib.Algebra.BigOperators.Group.Finset.Piecewise
import Mathlib.Data.BitVec

/-!
# Emulated atomics in several threads

A lock prefix promises that no other processor comes between the read and the write
of an instruction. On the one processor of a 386 the emulator only has to keep the
scheduler out, and it disables interrupts for that. But `get_user` and `put_user`
may sleep on a page fault, and then other threads run.

The kernel can be left before the access inside `get_user` and before the access
inside `put_user`. Between these two points `parse_emu_xadd` reads the operand
twice, once for the sum and once for the source register, and nobody else runs.
So an emulated `xadd` has two steps, and the second one stores a sum that was
computed from the operand as it was in the first. `cmpxchg` is one step.
-/

namespace Gray386.Emu

open Gray386.Machine

/-- The general registers of a thread. -/
abbrev Registers := Ia32.Reg → Word

/-- An atomic instruction on the shared word. -/
structure AtomicInstruction where
  op : Ia32.AtomicOp
  src : Ia32.Reg
  /-- What the thread has done to its registers since its last atomic instruction. -/
  prepare : Registers → Registers

namespace AtomicInstruction

/-- The registers and the word, given the word that the emulator has read. -/
def transition (instruction : AtomicInstruction) (before : Registers) (word : Word) :
    Registers × Word :=
  let registers := instruction.prepare before
  match instruction.op with
  | .xadd => (Function.update registers instruction.src word, registers instruction.src + word)
  | .cmpxchg =>
      if registers .eax = word then (registers, registers instruction.src)
      else (Function.update registers .eax word, word)

/-- Only `parse_emu_xadd` may sleep between its read and its write. -/
def operation (instruction : AtomicInstruction) : Operation Word Registers :=
  { apply := instruction.transition
    yields := instruction.op = .xadd }

/-- What an `xadd` adds to the word. -/
def increment (instruction : AtomicInstruction) (before : Registers) : Word :=
  instruction.prepare before instruction.src

end AtomicInstruction

section Steps

variable {ctx : TrapContext} {pstate : ParserState} {register : Ia32.Reg} {operand : Operand}
  {address : Word} (st : State)

/-- The first step of `xadd` computes the transition and leaves memory alone. -/
theorem xaddFetch_step (decoded : Decoded pstate (Slot.ofReg register) operand)
    (denotes : operand.Denotes ctx (.mem address))
    (accessible : Accessible st.mem (.mem address)) :
    let after := AtomicInstruction.transition ⟨.xadd, register, id⟩ st.arch.gpr
      (st.mem.load address)
    ∃ fetched, xaddFetch ctx pstate st = .ok after.2 fetched ∧ fetched.mem = st.mem ∧
      fetched.arch.gpr = after.1 := by
  rcases xaddFetch_run decoded denotes accessible with ⟨fetched, run, mem_eq, arch_eq⟩
  refine ⟨fetched, run, mem_eq, ?_⟩
  rw [arch_eq]
  rfl

theorem xaddStore_step (decoded : Decoded pstate (Slot.ofReg register) operand)
    (denotes : operand.Denotes ctx (.mem address))
    (accessible : Accessible st.mem (.mem address)) (resultDest : Word) :
    ∃ stored, xaddStore ctx pstate resultDest st = .ok () stored ∧
      stored.mem = st.mem.store address resultDest ∧ stored.regs = st.regs := by
  rw [xaddStore_run decoded denotes accessible]
  exact ⟨_, rfl, rfl, rfl⟩

theorem operateCmpxchg_step (decoded : Decoded pstate (Slot.ofReg register) operand)
    (denotes : operand.Denotes ctx (.mem address))
    (accessible : Accessible st.mem (.mem address)) :
    let after := AtomicInstruction.transition ⟨.cmpxchg, register, id⟩ st.arch.gpr
      (st.mem.load address)
    ∃ final, operateCmpxchg ctx pstate st = .ok 1 final ∧ Accessible final.mem (.mem address) ∧
      final.mem.load address = after.2 ∧ final.arch.gpr = after.1 := by
  rcases operateCmpxchg_refines decoded denotes accessible with ⟨final, run, gpr_eq, -, mem_eq, -⟩
  have confined := within_operateCmpxchg (Confined.permitted denotes) decoded st
  rw [run] at confined
  have present_eq : final.mem.present = st.mem.present := confined.present
  have writable_eq : final.mem.writable = st.mem.writable := confined.writable
  have stillAccessible : Accessible final.mem (.mem address) := by
    intro other inside
    rw [Memory.UserWritable, present_eq, writable_eq]
    exact accessible other inside
  have load_eq : final.mem.load address =
      (Ia32.cmpxchg st.arch (.mem address) register).loadWord address := by
    simp only [Ia32.Arch.loadWord]
    rw [← mem_eq]
    rfl
  refine ⟨final, run, stillAccessible, ?_⟩
  rw [load_eq, gpr_eq]
  by_cases equal : st.arch.gpr .eax = st.mem.load address
  · have isaEqual : st.arch.gpr .eax = st.arch.readDest (.mem address) := equal
    rw [Ia32.cmpxchg_of_eq isaEqual]
    simp only [AtomicInstruction.transition, id, if_pos equal]
    refine ⟨?_, rfl⟩
    simp only [Ia32.Arch.writeDest, ← State.arch_store]
    exact Memory.load_store st.mem address _
  · have isaDistinct : ¬st.arch.gpr .eax = st.arch.readDest (.mem address) := equal
    rw [Ia32.cmpxchg_of_ne isaDistinct]
    simp only [AtomicInstruction.transition, id, if_neg equal]
    exact ⟨rfl, rfl⟩

end Steps

section Runs

variable {ι : Type} [DecidableEq ι]

/-- Threads that are about to run their instructions on a word. -/
def start (word : Word) (registers : ι → Registers) (programs : ι → List AtomicInstruction) :
    System ι Word Registers :=
  System.initial word registers fun thread =>
    (programs thread).map AtomicInstruction.operation

/-- The same word, and in every thread the same registers after every instruction. -/
structure SameResults (left right : System ι Word Registers) : Prop where
  shared : left.shared = right.shared
  locals : ∀ thread, (left.threads thread).locals = (right.threads thread).locals
  history : ∀ thread, (left.threads thread).history = (right.threads thread).history
  program : ∀ thread, (left.threads thread).program = (right.threads thread).program

/-- A run has the outcome of a serial execution of whole instructions. -/
def Serializable (initial : System ι Word Registers) (schedule : List ι) : Prop :=
  ∃ order, SameResults (initial.run schedule) (initial.serialRun order)

variable {word : Word} {registers : ι → Registers} {programs : ι → List AtomicInstruction}
  {schedule : List ι}

theorem serializable_of_undisturbed
    (undisturbed : (start word registers programs).UndisturbedRun schedule) :
    Serializable (start word registers programs) schedule := by
  rcases System.forget_run undisturbed with ⟨order, -, forget_eq⟩
  have started : (start word registers programs).forget = start word registers programs := rfl
  rw [started] at forget_eq
  refine ⟨order, ?_⟩
  rw [← forget_eq]
  exact ⟨rfl, fun _ => rfl, fun _ => rfl, fun _ => rfl⟩

/-- The sum of what the completed instructions of a thread have added. -/
def increments (program : List AtomicInstruction) (history : List Registers) : Word :=
  (List.zipWith AtomicInstruction.increment program history).sum

theorem increments_append {done rest : List AtomicInstruction} {next : AtomicInstruction}
    {history : List Registers} (same : done.length = history.length) (before : Registers) :
    increments (done ++ next :: rest) (history ++ [before]) =
      increments (done ++ next :: rest) history + next.increment before := by
  have completed : List.zipWith AtomicInstruction.increment (done ++ next :: rest) history =
      List.zipWith AtomicInstruction.increment done history := by
    have split := @List.zipWith_append _ _ _ AtomicInstruction.increment done (next :: rest)
      history [] same
    rw [List.append_nil] at split
    rw [split]
    simp
  simp only [increments, completed]
  rw [List.zipWith_append same]
  simp

/-- Which instructions of a thread are complete, and which are still to come. -/
def Progress (program : List AtomicInstruction) (thread : Thread Word Registers) : Prop :=
  ∃ done rest, program = done ++ rest ∧ thread.program = rest.map AtomicInstruction.operation ∧
    done.length = thread.history.length

variable [Fintype ι]

/-- The word is the initial one plus what the completed instructions have added. -/
structure Accounts (word : Word) (programs : ι → List AtomicInstruction)
    (system : System ι Word Registers) : Prop where
  progress : ∀ thread, Progress (programs thread) (system.threads thread)
  balance : system.shared =
    word + ∑ thread, increments (programs thread) (system.threads thread).history

theorem sum_eq_sum_add {before after : ι → Word} (thread : ι) (value : Word)
    (here : after thread = before thread + value)
    (others : ∀ other, other ≠ thread → after other = before other) :
    ∑ other, after other = ∑ other, before other + value := by
  have rest : ∑ other ∈ Finset.univ.erase thread, after other =
      ∑ other ∈ Finset.univ.erase thread, before other := by
    apply Finset.sum_congr rfl
    intro other other_mem
    exact others other (Finset.ne_of_mem_erase other_mem)
  rw [← Finset.add_sum_erase Finset.univ after (Finset.mem_univ thread),
    ← Finset.add_sum_erase Finset.univ before (Finset.mem_univ thread), here, rest]
  ac_rfl

section Finish

variable (system : System ι Word Registers) {thread : ι} {done rest : List AtomicInstruction}
  {next : AtomicInstruction} (split : programs thread = done ++ next :: rest)
  (same : done.length = (system.threads thread).history.length) (seen : Word)

include split same

omit [Fintype ι] in
theorem progress_finish :
    Progress (programs thread) ((system.finish thread next.operation
      (rest.map AtomicInstruction.operation) seen).threads thread) := by
  refine ⟨done ++ [next], rest, by simp [split], ?_, ?_⟩
  · simp only [System.finish, Function.update_self]
  · simp [System.finish, same]

theorem sum_increments_finish :
    ∑ other, increments (programs other) ((system.finish thread next.operation
        (rest.map AtomicInstruction.operation) seen).threads other).history =
      ∑ other, increments (programs other) (system.threads other).history +
        next.increment (system.threads thread).locals := by
  apply sum_eq_sum_add thread
  · simp only [System.finish, Function.update_self, split]
    exact increments_append same _
  · intro other elsewhere
    simp only [System.finish, Function.update_of_ne elsewhere]

end Finish

theorem accounts_serialStep
    (onlyXadds : ∀ thread, ∀ instruction ∈ programs thread, instruction.op = .xadd)
    (system : System ι Word Registers) (thread : ι) (accounts : Accounts word programs system) :
    Accounts word programs (system.serialStep thread) := by
  rcases accounts.progress thread with ⟨done, rest, split, program, same⟩
  cases rest with
  | nil =>
      simp only [System.serialStep, program, List.map_nil]
      exact accounts
  | cons next rest =>
      have isXadd : next.op = .xadd := onlyXadds thread next (by simp [split])
      simp only [System.serialStep, program, List.map_cons]
      refine ⟨?_, ?_⟩
      · intro other
        by_cases here : other = thread
        · subst here
          exact progress_finish system split same system.shared
        · simp only [System.finish, Function.update_of_ne here]
          exact accounts.progress other
      · rw [sum_increments_finish system split same system.shared, ← BitVec.add_assoc,
          ← accounts.balance, BitVec.add_comm]
        simp only [System.finish, AtomicInstruction.operation, AtomicInstruction.transition, isXadd]
        rfl

omit [DecidableEq ι] in
theorem accounts_start (word : Word) (registers : ι → Registers)
    (programs : ι → List AtomicInstruction) :
    Accounts word programs (start word registers programs) := by
  refine ⟨?_, ?_⟩
  · intro thread
    exact ⟨[], programs thread, rfl, rfl, rfl⟩
  · simp [start, System.initial, increments]

/-- A serializable run of additions accounts for all of them. -/
theorem accounts_of_serializable
    (onlyXadds : ∀ thread, ∀ instruction ∈ programs thread, instruction.op = .xadd)
    (serializable : Serializable (start word registers programs) schedule) :
    Accounts word programs ((start word registers programs).run schedule) := by
  rcases serializable with ⟨order, same⟩
  have serial := System.serialRun_preserves (accounts_serialStep onlyXadds)
    (accounts_start word registers programs) order
  refine ⟨?_, ?_⟩
  · intro thread
    rcases serial.progress thread with ⟨done, rest, split, program, length_eq⟩
    exact ⟨done, rest, split, (same.program thread).trans program,
      length_eq.trans (congrArg List.length (same.history thread).symm)⟩
  · rw [same.shared, serial.balance]
    simp only [same.history]

/--
If no word is changed between the two accesses of an `xadd`, the instructions have
the outcome of a serial execution, and additions are not lost.
-/
theorem atomics_serializable (word : Word) (registers : ι → Registers)
    (programs : ι → List AtomicInstruction) (schedule : List ι)
    (undisturbed : (start word registers programs).UndisturbedRun schedule) :
    Serializable (start word registers programs) schedule ∧
      ((∀ thread, ∀ instruction ∈ programs thread, instruction.op = .xadd) →
        Accounts word programs ((start word registers programs).run schedule)) := by
  have serializable := serializable_of_undisturbed undisturbed
  refine ⟨serializable, ?_⟩
  intro onlyXadds
  exact accounts_of_serializable onlyXadds serializable

end Runs

/-- Two threads that each add one. -/
def twoIncrements : System Bool Word Registers :=
  start 0 (fun _ _ => 1) fun _ => [⟨.xadd, .eax, id⟩]

theorem atomics_serializable_sequential :
    twoIncrements.UndisturbedRun [false, false, true, true] ∧
      Serializable twoIncrements [false, false, true, true] := by
  have undisturbed : twoIncrements.UndisturbedRun [false, false, true, true] := by
    refine ⟨?_, ?_, ?_, ?_, trivial⟩
    · rintro seen ⟨⟩
    · rintro seen ⟨⟩
      rfl
    · rintro seen ⟨⟩
    · rintro seen ⟨⟩
      rfl
  exact ⟨undisturbed, (atomics_serializable 0 _ _ _ undisturbed).1⟩

/-- The second thread runs while the first one sleeps in `put_user`. -/
def overlapping : List Bool := [false, true, true, false]

/-- One of the two additions is lost, and both threads are told that they were first. -/
theorem overlapping_loses_update :
    (twoIncrements.run overlapping).Complete ∧
      (twoIncrements.run overlapping).shared = 1 ∧
      (∀ thread, ((twoIncrements.run overlapping).threads thread).locals .eax = 0) ∧
      ¬Serializable twoIncrements overlapping := by
  have lost : (twoIncrements.run overlapping).shared = 1 := rfl
  refine ⟨?_, lost, ?_, ?_⟩
  · intro thread
    cases thread <;> rfl
  · intro thread
    cases thread <;> rfl
  · intro serializable
    have accounts := accounts_of_serializable (by simp) serializable
    have kept := accounts.balance
    rw [show (start 0 _ _).run overlapping = twoIncrements.run overlapping from rfl, lost] at kept
    exact absurd kept (by decide)

end Gray386.Emu
