import Gray386.Machine.Word

/-!
# Pending work of the kernel log

A CPU that cannot wake the readers of the kernel log at once, or cannot print at
all because it holds the run queue lock, leaves a flag in `printk_pending` and, for
a message, its text in `printk_sched_buf`. The timer interrupt calls `printk_tick`,
which takes the flags and does what they ask for (`kernel/printk.c`).

Taking the flags is an exchange: the old flags have to be returned and the variable
has to be cleared. The functions are stated for any exchange, with two instances.
`_this_cpu_generic_xchg` is the definition of `include/linux/percpu.h`;
`percpu_xchg_op` is the one of `arch/x86/include/asm/percpu.h`, which replaces it on
x86 and in this repository was stripped of its `cmpxchg` loop.

The intended behaviour is a machine of its own, whose state is the set of requests
posted since the previous tick. With the generic exchange the code is that machine
on every sequence of calls. With the x86 exchange no tick ever has an effect, and
the code agrees with the machine exactly on the sequences that post nothing before
a tick.
-/

namespace Gray386.Printk

open Gray386.Machine

def printkPendingWakeup : Word := 0x01
def printkPendingSched : Word := 0x02
def printkBufSize : Nat := 512

/-- An exchange maps a variable and a value to the result and the new variable. -/
abbrev Exchange := Word → Word → Word × Word

/-- `percpu_xchg_op`: the variable does not occur in the body of the macro. -/
def percpuXchgOp : Exchange := fun var nval => (nval, var)

/-- `_this_cpu_generic_xchg`. -/
def thisCpuGenericXchg : Exchange := fun pcp nval => (pcp, nval)

/-- The per-CPU variables; of the buffer, the text up to the terminating null byte. -/
structure Cpu where
  printkPending : Word
  printkSchedBuf : List Char
  deriving DecidableEq, Repr

/-- What a tick does for others. -/
inductive Effect where
  | printk (message : List Char)
  | wakeUpInterruptible
  deriving DecidableEq, Repr

/-- `KERN_WARNING "[sched_delayed] %s"`. -/
def delayedMessage (text : List Char) : List Char :=
  "\x014[sched_delayed] ".toList ++ text

/-- The text that `vsnprintf` leaves in a buffer, next to the null byte. -/
def truncated (text : List Char) : List Char :=
  text.take (printkBufSize - 1)

namespace Cpu

/-- `this_cpu_or(printk_pending, flags)`. -/
def thisCpuOr (cpu : Cpu) (flags : Word) : Cpu :=
  { cpu with printkPending := cpu.printkPending ||| flags }

/-- `wake_up_klogd`; `waiter` is the value of `waitqueue_active(&log_wait)`. -/
def wakeUpKlogd (cpu : Cpu) (waiter : Bool) : Cpu :=
  if waiter then cpu.thisCpuOr printkPendingWakeup else cpu

/-- `printk_sched`, given the formatted text. -/
def printkSched (cpu : Cpu) (text : List Char) : Cpu :=
  { cpu with printkSchedBuf := truncated text }.thisCpuOr printkPendingSched

/--
`printk_tick`. The message it prints reaches `console_unlock`, which may call
`wake_up_klogd` in turn; `waiter` says whether it does and finds a waiter.
-/
def printkTick (xchg : Exchange) (cpu : Cpu) (waiter : Bool) : List Effect × Cpu :=
  if cpu.printkPending ≠ 0 then
    let (pending, left) := xchg cpu.printkPending 0
    let cpu := { cpu with printkPending := left }
    let (printed, cpu) :=
      if pending &&& printkPendingSched ≠ 0 then
        ([.printk (delayedMessage cpu.printkSchedBuf)], cpu.wakeUpKlogd waiter)
      else ([], cpu)
    let woken := if pending &&& printkPendingWakeup ≠ 0 then [.wakeUpInterruptible] else []
    (printed ++ woken, cpu)
  else ([], cpu)

end Cpu

/-- The calls that touch the pending flags of one CPU. -/
inductive Step where
  | wakeUpKlogd (waiter : Bool)
  | printkSched (text : List Char)
  | printkTick (waiter : Bool)
  deriving DecidableEq, Repr

/-- What is observed of a tick: its effects, and the flags when it returns. -/
structure Tick where
  effects : List Effect
  pending : Word
  deriving DecidableEq, Repr

/-- The ticks of a sequence of calls, in order. -/
def ticks (xchg : Exchange) : Cpu → List Step → List Tick
  | _, [] => []
  | cpu, .wakeUpKlogd waiter :: rest => ticks xchg (cpu.wakeUpKlogd waiter) rest
  | cpu, .printkSched text :: rest => ticks xchg (cpu.printkSched text) rest
  | cpu, .printkTick waiter :: rest =>
      let (effects, next) := cpu.printkTick xchg waiter
      ⟨effects, next.printkPending⟩ :: ticks xchg next rest

/-- The requests posted since the previous tick, and the last delayed message. -/
structure Posted where
  wakeup : Bool
  sched : Bool
  text : List Char
  deriving DecidableEq, Repr

namespace Posted

/-- Nothing has been posted since the CPU was started. -/
def nothing : Posted := ⟨false, false, []⟩

/-- The flags that stand for the requests. -/
def flags (posted : Posted) : Word :=
  (if posted.wakeup then printkPendingWakeup else 0) |||
    (if posted.sched then printkPendingSched else 0)

/-- A tick does what was asked for, the message first. -/
def effects (posted : Posted) : List Effect :=
  (if posted.sched then [.printk (delayedMessage posted.text)] else []) ++
    (if posted.wakeup then [.wakeUpInterruptible] else [])

def addWakeup (posted : Posted) (waiter : Bool) : Posted :=
  { posted with wakeup := posted.wakeup || waiter }

def addSched (posted : Posted) (text : List Char) : Posted :=
  { posted with sched := true, text := truncated text }

/-- After a tick only the wakeup that its own message asked for is posted. -/
def afterTick (posted : Posted) (waiter : Bool) : Posted :=
  { posted with wakeup := posted.sched && waiter, sched := false }

end Posted

/-- The ticks as they should be: each acts on what was posted since the one before. -/
def intendedTicks : Posted → List Step → List Tick
  | _, [] => []
  | posted, .wakeUpKlogd waiter :: rest => intendedTicks (posted.addWakeup waiter) rest
  | posted, .printkSched text :: rest => intendedTicks (posted.addSched text) rest
  | posted, .printkTick waiter :: rest =>
      ⟨posted.effects, (posted.afterTick waiter).flags⟩ ::
        intendedTicks (posted.afterTick waiter) rest

/-- The per-CPU variables that record a set of requests. -/
def Posted.cpu (posted : Posted) : Cpu :=
  ⟨posted.flags, posted.text⟩

/-- Every tick of a sequence of calls, made from the start of the CPU, is as intended. -/
def TicksAsIntended (xchg : Exchange) (steps : List Step) : Prop :=
  ticks xchg Posted.nothing.cpu steps = intendedTicks Posted.nothing steps

namespace Posted

theorem flags_addWakeup (posted : Posted) :
    (posted.addWakeup true).flags = posted.flags ||| printkPendingWakeup := by
  rcases posted with ⟨wakeup, sched, text⟩
  cases wakeup <;> cases sched <;>
    simp [addWakeup, flags, printkPendingWakeup, printkPendingSched]

theorem flags_addSched (posted : Posted) (text : List Char) :
    (posted.addSched text).flags = posted.flags ||| printkPendingSched := by
  rcases posted with ⟨wakeup, sched, old⟩
  cases wakeup <;> cases sched <;>
    simp [addSched, flags, printkPendingWakeup, printkPendingSched]

theorem wakeUpKlogd_cpu (posted : Posted) (waiter : Bool) :
    posted.cpu.wakeUpKlogd waiter = (posted.addWakeup waiter).cpu := by
  cases waiter with
  | false => simp [Cpu.wakeUpKlogd, addWakeup]
  | true =>
      simp only [Cpu.wakeUpKlogd, Cpu.thisCpuOr, cpu, flags_addWakeup, if_true]
      rfl

theorem printkSched_cpu (posted : Posted) (text : List Char) :
    posted.cpu.printkSched text = (posted.addSched text).cpu := by
  simp only [Cpu.printkSched, Cpu.thisCpuOr, cpu, flags_addSched]
  rfl

theorem printkTick_generic (posted : Posted) (waiter : Bool) :
    posted.cpu.printkTick thisCpuGenericXchg waiter =
      (posted.effects, (posted.afterTick waiter).cpu) := by
  rcases posted with ⟨wakeup, sched, text⟩
  cases wakeup <;> cases sched <;> cases waiter <;>
    simp [Cpu.printkTick, thisCpuGenericXchg, Cpu.wakeUpKlogd, Cpu.thisCpuOr, cpu, effects,
      afterTick, flags, printkPendingWakeup, printkPendingSched]

/-- Some request has been posted. -/
def Requested (posted : Posted) : Prop :=
  posted.wakeup = true ∨ posted.sched = true

theorem Requested.addWakeup {posted : Posted} (requested : posted.Requested) (waiter : Bool) :
    (posted.addWakeup waiter).Requested := by
  rcases requested with wakeup | sched
  · exact Or.inl (by simp [Posted.addWakeup, wakeup])
  · exact Or.inr sched

theorem Requested.effects_ne_nil {posted : Posted} (requested : posted.Requested) :
    posted.effects ≠ [] := by
  rcases requested with wakeup | sched
  · simp [effects, wakeup]
  · simp [effects, sched]

end Posted

/-- The x86 exchange returns the new value, so that a tick sees no flag and clears none. -/
theorem Cpu.printkTick_percpu (cpu : Cpu) (waiter : Bool) :
    cpu.printkTick percpuXchgOp waiter = ([], cpu) := by
  unfold printkTick percpuXchgOp
  by_cases pending : cpu.printkPending ≠ 0
  · rw [if_pos pending]
    simp
  · rw [if_neg pending]

theorem ticks_generic (posted : Posted) (steps : List Step) :
    ticks thisCpuGenericXchg posted.cpu steps = intendedTicks posted steps := by
  induction steps generalizing posted with
  | nil => rfl
  | cons step rest ih =>
      cases step with
      | wakeUpKlogd waiter =>
          rw [ticks, intendedTicks, posted.wakeUpKlogd_cpu]
          exact ih _
      | printkSched text =>
          rw [ticks, intendedTicks, posted.printkSched_cpu]
          exact ih _
      | printkTick waiter =>
          rw [ticks, intendedTicks, posted.printkTick_generic]
          exact congrArg _ (ih _)

/-- The tick handler itself is right: an exchange that exchanges makes every run so. -/
theorem ticksAsIntended_generic (steps : List Step) :
    TicksAsIntended thisCpuGenericXchg steps :=
  ticks_generic Posted.nothing steps

/-- On x86 no tick of any run prints or wakes anyone. -/
theorem ticks_percpu_effects (cpu : Cpu) (steps : List Step) :
    ∀ tick ∈ ticks percpuXchgOp cpu steps, tick.effects = [] := by
  induction steps generalizing cpu with
  | nil =>
      intro tick member
      exact absurd member (by simp [ticks])
  | cons step rest ih =>
      cases step with
      | wakeUpKlogd waiter => exact ih _
      | printkSched text => exact ih _
      | printkTick waiter =>
          intro tick member
          rw [ticks, cpu.printkTick_percpu] at member
          rcases List.mem_cons.mp member with rfl | later
          · rfl
          · exact ih _ tick later

/-- Once a request is posted, the code and the intended machine part at the next tick. -/
theorem ticks_percpu_eq_iff_of_requested {posted : Posted} (requested : posted.Requested)
    (steps : List Step) :
    ticks percpuXchgOp posted.cpu steps = intendedTicks posted steps ↔
      ∀ waiter, Step.printkTick waiter ∉ steps := by
  induction steps generalizing posted with
  | nil => simp [ticks, intendedTicks]
  | cons step rest ih =>
      cases step with
      | wakeUpKlogd waiter =>
          rw [ticks, intendedTicks, posted.wakeUpKlogd_cpu, ih (requested.addWakeup waiter)]
          simp
      | printkSched text =>
          rw [ticks, intendedTicks, posted.printkSched_cpu, ih (Or.inr rfl)]
          simp
      | printkTick waiter =>
          constructor
          · intro same
            rw [ticks, intendedTicks, Cpu.printkTick_percpu] at same
            have effects : [] = posted.effects := by
              injection same with first later
              injection first
            exact absurd effects.symm requested.effects_ne_nil
          · intro noTick
            exact absurd List.mem_cons_self (noTick waiter)

/-- A call that sets a flag. -/
def Step.Posts : Step → Prop
  | .wakeUpKlogd waiter => waiter = true
  | .printkSched _ => True
  | .printkTick _ => False

/-- Nothing is posted before a tick. -/
def NothingPostedBeforeTicks (steps : List Step) : Prop :=
  ∀ before waiter after, steps = before ++ .printkTick waiter :: after →
    ∀ step ∈ before, ¬step.Posts

theorem nothingPostedBeforeTicks_cons_of_posts {step : Step} (posts : step.Posts)
    (rest : List Step) :
    NothingPostedBeforeTicks (step :: rest) ↔ ∀ waiter, Step.printkTick waiter ∉ rest := by
  constructor
  · intro nothing waiter member
    rcases List.append_of_mem member with ⟨before, after, rfl⟩
    exact nothing (step :: before) waiter after rfl step List.mem_cons_self posts
  · intro noTick before waiter after split
    cases before with
    | nil =>
        injection split with head tail
        exact absurd (head ▸ posts) (by simp [Step.Posts])
    | cons first middle =>
        injection split with head tail
        exact absurd (by simp [tail]) (noTick waiter)

theorem nothingPostedBeforeTicks_cons_of_not_posts {step : Step} (silent : ¬step.Posts)
    (rest : List Step) :
    NothingPostedBeforeTicks (step :: rest) ↔ NothingPostedBeforeTicks rest := by
  constructor
  · intro nothing before waiter after split other member
    exact nothing (step :: before) waiter after (by rw [split]; rfl) other
      (List.mem_cons_of_mem _ member)
  · intro nothing before waiter after split
    cases before with
    | nil =>
        intro other member
        exact absurd member (by simp)
    | cons first middle =>
        injection split with head tail
        intro other member
        rcases List.mem_cons.mp member with rfl | later
        · exact head ▸ silent
        · exact nothing middle waiter after tail other later

/--
On x86 the ticks of a run are as intended if and only if no tick comes after a call
that posted something.
-/
theorem ticksAsIntended_percpu_iff (steps : List Step) :
    TicksAsIntended percpuXchgOp steps ↔ NothingPostedBeforeTicks steps := by
  unfold TicksAsIntended
  induction steps with
  | nil =>
      refine iff_of_true rfl ?_
      intro before waiter after split
      exact absurd split (by simp)
  | cons step rest ih =>
      cases step with
      | wakeUpKlogd waiter =>
          cases waiter with
          | false =>
              rw [nothingPostedBeforeTicks_cons_of_not_posts (by simp [Step.Posts])]
              exact ih
          | true =>
              rw [nothingPostedBeforeTicks_cons_of_posts (by simp [Step.Posts]), ticks,
                intendedTicks, Posted.wakeUpKlogd_cpu]
              exact ticks_percpu_eq_iff_of_requested (Or.inl rfl) rest
      | printkSched text =>
          rw [nothingPostedBeforeTicks_cons_of_posts (by simp [Step.Posts]), ticks, intendedTicks,
            Posted.printkSched_cpu]
          exact ticks_percpu_eq_iff_of_requested (Or.inr rfl) rest
      | printkTick waiter =>
          rw [nothingPostedBeforeTicks_cons_of_not_posts (by simp [Step.Posts]), ← ih, ticks,
            intendedTicks, Cpu.printkTick_percpu]
          exact List.cons_inj_right _

/-- A reader waits for the log, is to be woken at the next tick, and sleeps on. -/
theorem wakeup_lost :
    ticks percpuXchgOp Posted.nothing.cpu [.wakeUpKlogd true, .printkTick false] =
        [⟨[], printkPendingWakeup⟩] ∧
      ¬TicksAsIntended percpuXchgOp [.wakeUpKlogd true, .printkTick false] := by
  unfold TicksAsIntended
  decide

end Gray386.Printk
