import Gray386.Emu.Confinement

/-!
# The invalid-opcode trap

`do_invalid_op` of `arch/x86/kernel/traps.c` first lets the emulator try and then
falls back to what every kernel does with an invalid opcode. What the trap does to
the rest of the system is a list of events: the die notifiers are called with the
frame, interrupts are enabled, the task records the trap, a signal is forced, the
kernel dies.

The notifier chain, the exception table and the vm86 monitor are not part of the
repository's changes; they are parameters. `exception_enter` and `exception_exit`
only mark the context for RCU.
-/

namespace Gray386.Emu

open Gray386.Machine

def sigill : Nat := 4
def illIllopn : Nat := 0x30002
def xTrapUd : Nat := 6
def eflagsIf : Word := 0x00000200
def vmMask : Word := 0x00020000

/-- The members of `siginfo_t` that the trap fills in. -/
structure SigInfo where
  signo : Nat
  errno : Int
  code : Nat
  addr : Word
  deriving DecidableEq, Repr

/-- What a trap does outside the frame and user memory. -/
inductive TrapEvent where
  | notifyDie (trapnr signr : Nat) (errorCode : Word) (regs : PtRegs)
  | localIrqEnable
  | recordTrap (errorCode : Word) (trapnr : Nat)
  | die (regs : PtRegs)
  | forceSigInfo (info : SigInfo)
  deriving DecidableEq, Repr

/-- The parts of the kernel that decide what becomes of a trap. -/
structure TrapEnvironment where
  /-- A die notifier returned `NOTIFY_STOP`. -/
  notifyStop : PtRegs → Bool
  /-- The fixup of an instruction in the exception table. -/
  searchExceptionTables : Word → Option Word
  /-- `handle_vm86_trap`. -/
  handleVm86Trap : PtRegs → Word → Nat → Int

/-- `user_mode`. -/
def userMode (regs : PtRegs) : Bool :=
  regs.cs &&& 3 = 3

/-- `conditional_sti`. -/
def conditionalSti (regs : PtRegs) : List TrapEvent :=
  if regs.flags &&& eflagsIf ≠ 0 then [.localIrqEnable] else []

/-- `do_trap_no_signal`: zero means that no signal is due. -/
def doTrapNoSignal (env : TrapEnvironment) (trapnr : Nat) (errorCode : Word) :
    Kernel (Int × List TrapEvent) := do
  let regs := (← get).regs
  if regs.flags &&& vmMask ≠ 0 then
    if trapnr < xTrapUd ∧ env.handleVm86Trap regs errorCode trapnr = 0 then return (0, [])
    return (-1, [])
  if userMode regs then return (-1, [])
  match env.searchExceptionTables regs.ip with
  | some fixup =>
      setSlot .ip fixup
      return (0, [])
  | none => return (0, [.recordTrap errorCode trapnr, .die regs])

/-- `do_trap`. -/
def doTrap (env : TrapEnvironment) (trapnr : Nat) (errorCode : Word) (info : SigInfo) :
    Kernel (List TrapEvent) := do
  let (ret, events) ← doTrapNoSignal env trapnr errorCode
  if ret = 0 then return events
  return events ++ [.recordTrap errorCode trapnr, .forceSigInfo info]

/-- The second half of `do_invalid_op`, as in a kernel without the emulator. -/
def reportInvalidOp (env : TrapEnvironment) (errorCode : Word) (info : SigInfo) :
    Kernel (List TrapEvent) := do
  let regs := (← get).regs
  let notified := TrapEvent.notifyDie xTrapUd sigill errorCode regs
  if env.notifyStop regs then return [notified]
  let events ← doTrap env xTrapUd errorCode info
  return notified :: (conditionalSti regs ++ events)

/-- The signal of an invalid opcode at an address. -/
def invalidOpInfo (address : Word) : SigInfo :=
  { signo := sigill, errno := 0, code := illIllopn, addr := address }

/-- `do_invalid_op`. -/
def doInvalidOp (env : TrapEnvironment) (ctx : TrapContext) (errorCode : Word) :
    Kernel (List TrapEvent) := do
  let info := invalidOpInfo (← get).regs.ip
  let ret ← parseEmuInstruction ctx
  if ret > 0 then return []
  reportInvalidOp env errorCode info

section Emulator

variable {ctx : TrapContext} {st final : State} {ret : Int}

/-- A result is negative and without effect, or it is 1. -/
theorem parseEmuInstruction_result (run : parseEmuInstruction ctx st = .ok ret final) :
    (ret < 0 ∧ final.regs = st.regs ∧ final.mem = st.mem) ∨ ret = 1 := by
  have behaviour := parseEmuInstruction_behaviour ctx st
  rw [run] at behaviour
  generalize result : EStateM.Result.ok ret final = outcome at behaviour
  cases behaviour with
  | refused negative onlyChecks =>
      injection result with ret_eq final_eq
      subst ret_eq final_eq
      exact Or.inl ⟨negative, rfl, rfl⟩
  | endbr32 =>
      injection result with ret_eq
      exact Or.inr ret_eq
  | bswap member general =>
      injection result with ret_eq
      exact Or.inr ret_eq
  | operated op code skip decodes decoded inRange =>
      exact Or.inr (operate_returns ctx op _ _ ret final result.symm)

end Emulator

section Report

variable {env : TrapEnvironment} {errorCode : Word} {st : State}

/-- The interrupted code ran in user mode or in a vm86 task. -/
def InterruptedUser (regs : PtRegs) : Prop :=
  regs.flags &&& vmMask ≠ 0 ∨ userMode regs = true

theorem doTrapNoSignal_user (user : InterruptedUser st.regs) :
    doTrapNoSignal env xTrapUd errorCode st = .ok (-1, []) st := by
  simp only [doTrapNoSignal]
  rw [run_get_bind]
  by_cases vm86 : st.regs.flags &&& vmMask ≠ 0
  · rw [if_pos vm86, if_neg (fun forwarded => absurd forwarded.1 (by decide))]
    rfl
  · rw [if_neg vm86, if_pos (user.resolve_left vm86)]
    rfl

theorem doTrapNoSignal_kernel (kernel : ¬InterruptedUser st.regs) :
    ∃ events last, doTrapNoSignal env xTrapUd errorCode st = .ok (0, events) last ∧
      ∀ info, .forceSigInfo info ∉ events := by
  simp only [InterruptedUser, not_or] at kernel
  simp only [doTrapNoSignal]
  rw [run_get_bind, if_neg kernel.1, if_neg kernel.2]
  cases env.searchExceptionTables st.regs.ip with
  | none => exact ⟨_, st, rfl, by simp⟩
  | some fixup => exact ⟨[], _, rfl, by simp⟩

theorem doTrap_spec (info : SigInfo) :
    ∃ events last, doTrap env xTrapUd errorCode info st = .ok events last ∧
      (∀ other, .forceSigInfo other ∈ events → other = info) ∧
      (InterruptedUser st.regs → .forceSigInfo info ∈ events) := by
  simp only [doTrap]
  by_cases user : InterruptedUser st.regs
  · rw [run_bind_ok (doTrapNoSignal_user user)]
    exact ⟨_, st, rfl, by simp, by simp⟩
  · rcases @doTrapNoSignal_kernel env errorCode st user with ⟨events, last, run, noSignal⟩
    rw [run_bind_ok run]
    refine ⟨events, last, rfl, ?_, ?_⟩
    · intro other signalled
      exact absurd signalled (noSignal other)
    · intro interrupted
      exact absurd interrupted user

theorem reportInvalidOp_spec (info : SigInfo) :
    ∃ events last, reportInvalidOp env errorCode info st =
        .ok (.notifyDie xTrapUd sigill errorCode st.regs :: events) last ∧
      (∀ other, .forceSigInfo other ∈ events → other = info) ∧
      (env.notifyStop st.regs = false → InterruptedUser st.regs →
        .forceSigInfo info ∈ events) := by
  simp only [reportInvalidOp]
  rw [run_get_bind]
  cases stop : env.notifyStop st.regs with
  | true => exact ⟨[], st, rfl, by simp, by simp⟩
  | false =>
      rcases @doTrap_spec env errorCode st info with ⟨events, last, run, onlyInfo, signalled⟩
      rw [if_neg (by decide), run_bind_ok run]
      refine ⟨_, last, rfl, ?_, ?_⟩
      · intro other other_mem
        rcases List.mem_append.mp other_mem with sti | other_mem
        · simp only [conditionalSti] at sti
          split_ifs at sti
          · exact absurd sti (by simp)
          · exact absurd sti (by simp)
        · exact onlyInfo other other_mem
      · intro _ user
        exact List.mem_append_right _ (signalled user)

end Report

/-- A refused instruction is reported as if the emulator had never run. -/
structure FailureAtomic (env : TrapEnvironment) (ctx : TrapContext) (errorCode : Word)
    (st : State) : Prop where
  nonzero : ∀ ret final, parseEmuInstruction ctx st = .ok ret final → ret ≠ 0
  unchanged : ∀ ret final, parseEmuInstruction ctx st = .ok ret final → ret < 0 →
    final.regs = st.regs ∧ final.mem = st.mem
  reported : ∀ ret final, parseEmuInstruction ctx st = .ok ret final → ret < 0 →
    ∃ events last, doInvalidOp env ctx errorCode st =
        .ok (.notifyDie xTrapUd sigill errorCode st.regs :: events) last ∧
      (∀ info, .forceSigInfo info ∈ events → info = invalidOpInfo st.regs.ip) ∧
      (env.notifyStop st.regs = false → InterruptedUser st.regs →
        .forceSigInfo (invalidOpInfo st.regs.ip) ∈ events)
  silent : ∀ ret final, parseEmuInstruction ctx st = .ok ret final → 0 < ret →
    doInvalidOp env ctx errorCode st = .ok [] final

theorem doInvalidOp_failureAtomic (env : TrapEnvironment) (ctx : TrapContext) (errorCode : Word)
    (st : State) : FailureAtomic env ctx errorCode st := by
  refine ⟨?_, ?_, ?_, ?_⟩
  · intro ret final run
    rcases parseEmuInstruction_result run with ⟨negative, -, -⟩ | success
    · omega
    · omega
  · intro ret final run negative
    rcases parseEmuInstruction_result run with ⟨-, unchanged⟩ | success
    · exact unchanged
    · omega
  · intro ret final run negative
    rcases parseEmuInstruction_result run with ⟨-, regs_eq, -⟩ | success
    · rcases @reportInvalidOp_spec env errorCode final (invalidOpInfo st.regs.ip)
        with ⟨events, last, report, onlyInfo, signalled⟩
      rw [regs_eq] at report signalled
      refine ⟨events, last, ?_, onlyInfo, signalled⟩
      simp only [doInvalidOp]
      rw [run_get_bind, run_bind_ok run, if_neg (by omega)]
      exact report
    · omega
  · intro ret final run positive
    simp only [doInvalidOp]
    rw [run_get_bind, run_bind_ok run, if_pos positive]
    rfl

/-- A kernel without die notifiers and vm86 tasks. -/
def plainEnvironment : TrapEnvironment :=
  { notifyStop := fun _ => false
    searchExceptionTables := fun _ => none
    handleVm86Trap := fun _ _ _ => -1 }

/-- `lock xadd %eax, (%esp)`, which has a SIB byte. -/
def xaddSibCode : List Byte := [0xf0, 0x0f, 0xc1, 0x04, 0x24]

theorem doInvalidOp_failureAtomic_sib :
    returned (parseEmuInstruction sampleContext (sampleState xaddSibCode fun _ => true)) =
        some (-eopnotsupp) ∧
      FailureAtomic plainEnvironment sampleContext 0 (sampleState xaddSibCode fun _ => true) ∧
      returned (doInvalidOp plainEnvironment sampleContext 0
        (sampleState xaddSibCode fun _ => true)) =
          some [.notifyDie xTrapUd sigill 0 sampleRegs, .localIrqEnable, .recordTrap 0 xTrapUd,
            .forceSigInfo (invalidOpInfo 0x08048000)] :=
  ⟨by decide, doInvalidOp_failureAtomic plainEnvironment sampleContext 0 _, by decide⟩

end Gray386.Emu
