import Gray386.Floppy.Callers
import Gray386.Floppy.Quiescence
import Gray386.Floppy.Watchdog

/-!
# Who drives the controller

`poll_drive`, `__floppy_read_block_0`, `process_fd_request` and the other commands write
`raw_cmd`, `cont` and `command_status`. A caller may do so between the moment it has set
`fdc_busy` and the moment it hands over to the bottom half. This holds of every caller
that looks at the result of `lock_fdc`. `floppy_check_events` and `floppy_revalidate`
do not look at it, and `lock_fdc` can be interrupted by a signal whatever its argument
says. After that they go on as if they had the lock.

The bottom half must not clear `fdc_busy` under a caller either. So the invariant says
that the bottom half is quiescent while the lock is free or a caller holds it.
-/

namespace Gray386.Floppy

open Gray386.Machine

/-- The caller is between `lock_fdc` and the point where it hands over. -/
def Program.holds : Program → Bool
  | .done | .lockFdc _ _ | .testAndSetBit _ => false
  | .pollDrive _ _ _ | .command _ _ | .waitTilDone _ _ | .cancelActivity
  | .processFdRequest _ | .readBlock0 _ => true
  | .choose left right => left.holds || right.holds

/-- The next statement of the caller is one that drives the controller. -/
def Program.Drives : Program → Prop
  | .pollDrive _ _ _ | .command _ _ | .processFdRequest _ | .readBlock0 _ => True
  | _ => False

/-- Whether the lock is held is clear at every point of the program. -/
def Program.Sound : Program → Prop
  | .done | .cancelActivity => True
  | .lockFdc _ next | .testAndSetBit next | .pollDrive _ _ next | .command _ next
  | .waitTilDone _ next => next.holds = true ∧ next.Sound
  | .processFdRequest next | .readBlock0 next => next.holds = false ∧ next.Sound
  | .choose left right => left.holds = right.holds ∧ left.Sound ∧ right.Sound

theorem Program.holds_of_drives {program : Program} (drives : program.Drives) :
    program.holds = true := by
  cases program with
  | pollDrive | command | processFdRequest | readBlock0 => rfl
  | done | lockFdc | testAndSetBit | waitTilDone | cancelActivity | choose =>
      exact drives.elim

theorem Entry.holds_program (entry : Entry) : entry.program.holds = false := by
  cases entry <;> rfl

theorem Entry.sound_program (entry : Entry) : entry.program.Sound := by
  cases entry <;>
    simp [Entry.program, setGeometry, getFloppyGeometry, lockedCommand, invalidateDrive,
      checkDiskChange, Floppy.floppyCheckEvents, Floppy.floppyRevalidate, Program.Sound,
      Program.holds]

section Invariant

variable {ι : Type}

/-- Callers that hold the lock own it, and no request is served before they hand over. -/
structure Guarded (system : System ι) : Prop where
  sound : ∀ caller, (system.callers caller).Sound
  holder : ∀ caller, (system.callers caller).holds = true →
    system.owner = some caller ∧ system.busy = true
  quiescent : (system.busy = false ∨ ∃ caller, (system.callers caller).holds = true) →
    Quiescent system.worker

namespace Guarded

variable {system : System ι}

theorem work {event : QueueEvent WorkItem Input Action} (guarded : Guarded system)
    (tame : Tame system.worker (system.worker.step floppyWq event)) :
    Guarded (system.work event) := by
  refine ⟨guarded.sound, ?_, ?_⟩
  · intro caller holds
    rcases guarded.holder caller holds with ⟨owned, busy⟩
    have same := (tame.1 (guarded.quiescent (Or.inr ⟨caller, holds⟩))).2
    have stillBusy := same.trans busy
    refine ⟨?_, stillBusy⟩
    simp only [System.work, stillBusy, if_true]
    exact owned
  · rintro (free | held)
    · rcases tame.2 with same | quiescent
      · exact (tame.1 (guarded.quiescent (Or.inl (same.symm.trans free)))).1
      · exact quiescent
    · exact (tame.1 (guarded.quiescent (Or.inr held))).1

theorem withState {st : State} (guarded : Guarded system) (kept : Keeps system.worker.state st) :
    Guarded { system with worker := { system.worker with state := st } } := by
  refine ⟨guarded.sound, ?_, ?_⟩
  · intro caller holds
    rcases guarded.holder caller holds with ⟨owned, busy⟩
    exact ⟨owned, kept.1.trans busy⟩
  · intro calm
    have quiescent : Quiescent system.worker := by
      apply guarded.quiescent
      rcases calm with free | held
      · exact Or.inl (kept.1.symm.trans free)
      · exact Or.inr held
    exact ⟨kept.2 quiescent.1, quiescent.2⟩

variable [DecidableEq ι]

theorem sound_resume {caller : ι} {next : Program} (guarded : Guarded system)
    (sound : next.Sound) (other : ι) : ((system.resume caller next).callers other).Sound := by
  by_cases eq : other = caller
  · simpa [System.resume, eq] using sound
  · simpa [System.resume, eq] using guarded.sound other

theorem resume {caller : ι} {next : Program} (guarded : Guarded system) (sound : next.Sound)
    (holds : next.holds = (system.callers caller).holds) :
    Guarded (system.resume caller next) := by
  have same : ∀ other, ((system.resume caller next).callers other).holds =
      (system.callers other).holds := by
    intro other
    by_cases eq : other = caller
    · simp [System.resume, eq, holds]
    · simp [System.resume, eq]
  refine ⟨guarded.sound_resume sound, ?_, ?_⟩
  · intro other otherHolds
    exact guarded.holder other (same other ▸ otherHolds)
  · simp only [same]
    exact guarded.quiescent

theorem act {caller : ι} {action : Action} {next : Program} (guarded : Guarded system)
    (kept : Keeps system.worker.state
      (perform system.worker.running system.worker.state action))
    (sound : next.Sound) (holds : next.holds = (system.callers caller).holds) :
    Guarded (system.act caller action next) :=
  (guarded.resume sound holds).withState kept

theorem acquire {caller : ι} {input : Input} {next : Program} (guarded : Guarded system)
    (free : system.busy = false) (sound : next.Sound) :
    Guarded (system.acquire caller input next) := by
  have nobody : ∀ other, (system.callers other).holds = false := by
    intro other
    rw [Bool.eq_false_iff]
    intro holds
    rw [(guarded.holder other holds).2] at free
    exact absurd free (by simp)
  have idle : system.worker.state.fdcBusy = false := free
  have locked : (system.acquire caller input next).busy = true := by
    simp [System.acquire, System.act, System.busy, Worker.step, floppyWq, perform, idle,
      State.setFdc, State.rescheduleTimeout]
  refine ⟨guarded.sound_resume sound, ?_, ?_⟩
  · intro other holds
    refine ⟨?_, locked⟩
    by_cases eq : other = caller
    · rw [eq]
      rfl
    · simp [System.acquire, System.act, System.resume, eq, nobody] at holds
  · intro _
    have quiescent := guarded.quiescent (Or.inl free)
    simpa [Quiescent, State.Quiet, System.acquire, System.act, Worker.step, floppyWq, perform,
      idle, State.setFdc, State.rescheduleTimeout] using quiescent

theorem handOver {caller : ι} {action : Action} {next : Program} (guarded : Guarded system)
    (holds : (system.callers caller).holds = true)
    (busy : (perform system.worker.running system.worker.state action).fdcBusy =
      system.worker.state.fdcBusy)
    (sound : next.Sound) (released : next.holds = false) :
    Guarded (system.handOver caller action next) := by
  rcases guarded.holder caller holds with ⟨owned, isBusy⟩
  have nobody : ∀ other, ((system.handOver caller action next).callers other).holds = false := by
    intro other
    by_cases eq : other = caller
    · simpa [System.handOver, System.act, System.resume, eq] using released
    · rw [Bool.eq_false_iff]
      intro otherHolds
      have otherHolds : (system.callers other).holds = true := by
        simpa [System.handOver, System.act, System.resume, eq] using otherHolds
      have same := (guarded.holder other otherHolds).1.symm.trans owned
      exact eq (Option.some.inj same)
  refine ⟨guarded.sound_resume sound, ?_, ?_⟩
  · intro other otherHolds
    rw [nobody other] at otherHolds
    exact absurd otherHolds (by simp)
  · rintro (free | ⟨other, otherHolds⟩)
    · exact absurd (free.symm.trans (busy.trans isBusy)) (by simp)
    · rw [nobody other] at otherHolds
      exact absurd otherHolds (by simp)

end Guarded

variable [DecidableEq ι]

/--
What must not happen besides. No signal ends the wait for the lock of a caller that does
not look at the result.
-/
def Undisturbed (system : System ι) : Event ι → Prop
  | .exec input => OnTime system.worker input
  | .signal caller =>
      match system.callers caller with
      | .lockFdc false _ => system.busy = false
      | _ => True
  | .dispatch _ | .interrupt _ | .enter _ _ | .step _ _ _ => True

theorem Keeps.command {st mid : State} (kept : Keeps st mid) {cont : Cont} (notRw : cont ≠ .rw)
    (notIntr : cont ≠ .intr) {handler : Handler} (ne : handler ≠ .redoFdRequest) :
    Keeps st ({ mid with cont := some cont }.scheduleBh handler) := by
  have set : Keeps st { mid with cont := some cont } :=
    kept.cont (by simpa using notRw) (by simpa using notIntr)
  exact set.scheduleBh ne

theorem keeps_pollDrive (running : Option WorkItem) (st : State) (flag : Word) (cmd : RawCmd) :
    Keeps st (perform running st (.pollDrive flag cmd)) := by
  have set : Keeps st { st with
      rawCmd := [{ cmd with flags := flag, track := 0, cmdCount := 0 }]
      drive := { st.drive with newChange := true } } := Keeps.refl st
  exact set.command (show Cont.poll ≠ .rw by decide) (by decide) (by decide)

theorem keeps_command (running : Option WorkItem) (st : State) (command : Command) :
    Keeps st (perform running st command.action) := by
  cases command with
  | format =>
      have set : Keeps st { st with errors := 0 } := Keeps.refl st
      exact set.command (show Cont.format ≠ .rw by decide) (by decide) (by decide)
  | reset =>
      have set : Keeps st { st with reset := true } := Keeps.refl st
      exact set.command (show Cont.reset ≠ .rw by decide) (by decide) (by decide)
  | raw cmd next =>
      have set : Keeps st { st with rawCmd := cmd :: next } := Keeps.refl st
      exact set.command (show Cont.raw ≠ .rw by decide) (by decide) (by decide)

theorem keeps_commandDone (running : Option WorkItem) (st : State) :
    Keeps st (perform running st .commandDone) := by
  simp only [perform]
  split_ifs <;> exact Keeps.refl st

theorem keeps_signalled (running : Option WorkItem) (st : State) :
    Keeps st (perform running st .signalled) := by
  have canceled := (Keeps.refl st).cancelActivity
  simp only [perform]
  split_ifs
  · exact canceled.trans (keeps_take .floppyWork st.cancelActivity)
  · exact Keeps.refl st

theorem fdcBusy_activityCanceled (running : Option WorkItem) (st : State) :
    (perform running st .activityCanceled).fdcBusy = st.fdcBusy := by
  simp only [perform]
  split_ifs <;> rfl

theorem Guarded.advance {system : System ι} (guarded : Guarded system) (caller : ι)
    (input : Input) (left : Bool) : Guarded (system.advance caller input left) := by
  have sound := guarded.sound caller
  have holds : ∀ {program next : Program}, system.callers caller = program →
      next.holds = program.holds → next.holds = (system.callers caller).holds := by
    rintro program next rfl same
    exact same
  simp only [System.advance]
  cases program : system.callers caller with
  | done => exact guarded
  | lockFdc checked next =>
      rw [program] at sound
      simp only
      split_ifs with busy
      · exact guarded
      · exact guarded.acquire (Bool.eq_false_iff.mpr busy) sound.2
  | testAndSetBit next =>
      rw [program] at sound
      simp only
      split_ifs with busy
      · exact guarded.resume trivial (holds program rfl)
      · exact guarded.acquire (Bool.eq_false_iff.mpr busy) sound.2
  | pollDrive interruptible flag next =>
      rw [program] at sound
      exact guarded.act (keeps_pollDrive _ _ _ _) sound (holds program rfl)
  | command command next =>
      rw [program] at sound
      exact guarded.act (keeps_command _ _ _) sound (holds program rfl)
  | waitTilDone interruptible next =>
      rw [program] at sound
      simp only
      split_ifs
      · exact guarded.act (keeps_commandDone _ _) sound.2 (holds program sound.1)
      · exact guarded
  | cancelActivity =>
      simp only
      split_ifs
      · exact guarded
      · exact guarded.handOver (by rw [program]; rfl) (fdcBusy_activityCanceled _ _) trivial rfl
  | processFdRequest next =>
      rw [program] at sound
      exact guarded.handOver (by rw [program]; rfl) (fdcBusy_scheduleBh _ _) sound.2 sound.1
  | readBlock0 next =>
      rw [program] at sound
      exact guarded.resume sound (holds program rfl)
  | choose first second =>
      rw [program] at sound
      rcases sound with ⟨same, firstSound, secondSound⟩
      have either : second.holds = (Program.choose first second).holds := by
        simp [Program.holds, same]
      cases left with
      | true => exact guarded.resume firstSound (holds program (same.trans either))
      | false => exact guarded.resume secondSound (holds program either)

theorem Guarded.interruptCaller {system : System ι} (guarded : Guarded system) (caller : ι)
    (undisturbed : Undisturbed system (.signal caller)) :
    Guarded (system.interruptCaller caller) := by
  simp only [Undisturbed] at undisturbed
  simp only [System.interruptCaller]
  split
  next checked next program =>
    rw [program] at undisturbed
    split_ifs with busy checks
    · exact guarded.resume trivial (by rw [program]; rfl)
    · rw [Bool.eq_false_iff.mpr checks] at undisturbed
      exact absurd busy (Bool.eq_false_iff.mp undisturbed)
    · exact guarded
  next program =>
    split_ifs
    · exact guarded.act (keeps_signalled _ _) trivial (by rw [program]; rfl)
    · exact guarded
  next => exact guarded

theorem Guarded.step {system : System ι} (guarded : Guarded system) (event : Event ι)
    (undisturbed : Undisturbed system event) : Guarded (system.step event) := by
  cases event with
  | exec input => exact guarded.work (tame_exec undisturbed)
  | dispatch item => exact guarded.work (tame_dispatch system.worker item)
  | interrupt inputs => exact guarded.work (tame_interrupt system.worker inputs)
  | enter caller entry =>
      simp only [System.step]
      split
      next program =>
        exact guarded.resume entry.sound_program (by rw [program]; exact entry.holds_program)
      next => exact guarded
  | step caller input left => exact guarded.advance caller input left
  | signal caller => exact guarded.interruptCaller caller undisturbed

/-- Every step of a run is undisturbed. -/
def UndisturbedRun : System ι → List (Event ι) → Prop
  | _, [] => True
  | system, event :: rest => Undisturbed system event ∧ UndisturbedRun (system.step event) rest

theorem Guarded.run {system : System ι} (guarded : Guarded system) {events : List (Event ι)}
    (undisturbed : UndisturbedRun system events) : Guarded (system.run events) := by
  induction events generalizing system with
  | nil => exact guarded
  | cons event rest ih => exact ih (guarded.step event undisturbed.1) undisturbed.2

omit [DecidableEq ι] in
theorem guarded_booted (st : State) : Guarded (System.booted st : System ι) := by
  refine ⟨fun _ => trivial, ?_, ?_⟩
  · intro caller holds
    exact absurd holds (by simp [System.booted, Program.holds])
  · intro _
    simp [Quiescent, State.Quiet, System.booted]

/--
A caller drives the controller only if it has set `fdc_busy` and the bit has not been
cleared since. So no two callers do so at a time.
-/
def System.Exclusive (system : System ι) : Prop :=
  (∀ caller, (system.callers caller).Drives → system.owner = some caller ∧ system.busy = true) ∧
    ∀ first second, (system.callers first).Drives → (system.callers second).Drives →
      first = second

/-- In a run without disturbances only the holder of the lock drives the controller. -/
theorem run_exclusive (st : State) (events : List (Event ι))
    (undisturbed : UndisturbedRun (System.booted st) events) :
    ((System.booted st).run events).Exclusive := by
  have guarded := (guarded_booted st).run undisturbed
  have owner : ∀ caller, (((System.booted st).run events).callers caller).Drives →
      ((System.booted st).run events).owner = some caller ∧
        ((System.booted st).run events).busy = true := by
    intro caller drives
    exact guarded.holder caller (Program.holds_of_drives drives)
  refine ⟨owner, ?_⟩
  intro first second firstDrives secondDrives
  have same := (owner first firstDrives).1.symm.trans (owner second secondDrives).1
  exact Option.some.inj same

end Invariant

/-- Nothing is left to do for the block layer. -/
def idleInput : Input := { smoothInput false with requestPending := false }

/-- A caller checks for events while another caller's request is served. -/
def checkedInTurn : List (Event (Fin 2)) :=
  [.enter 0 .doFdRequest, .step 0 idleInput false, .step 0 idleInput false,
    .step 0 idleInput false, .enter 1 .floppyCheckEvents, .step 1 idleInput false,
    .step 1 idleInput false, .dispatch .floppyWork, .exec idleInput, .exec idleInput,
    .step 1 idleInput false]

theorem run_exclusive_checkedInTurn :
    UndisturbedRun (System.booted { readState with currentReq := false }) checkedInTurn ∧
      (((System.booted { readState with currentReq := false }).run checkedInTurn).callers 1).Drives
        ∧ ((System.booted { readState with currentReq := false }).run checkedInTurn).Exclusive := by
  have undisturbed :
      UndisturbedRun (System.booted { readState with currentReq := false }) checkedInTurn := by
    refine ⟨trivial, trivial, trivial, trivial, trivial, trivial, trivial, trivial, trivial, ?_,
      trivial, trivial⟩
    intro _ _
    exact ⟨by decide, by decide, by simp⟩
  exact ⟨undisturbed, trivial, run_exclusive _ _ undisturbed⟩

/-- A signal reaches a process that opens the device while a request is served. -/
def openInterrupted : List (Event (Fin 2)) :=
  [.enter 0 .doFdRequest, .step 0 idleInput false, .step 0 idleInput false,
    .step 0 idleInput false, .dispatch .floppyWork, .exec (smoothInput false),
    .exec (smoothInput false), .enter 1 .floppyOpen, .step 1 idleInput false,
    .step 1 idleInput true, .step 1 idleInput false, .step 1 idleInput false, .signal 1,
    .step 1 idleInput false, .step 1 idleInput false, .step 1 idleInput true]

/-- The process is about to poll the drive, and replaces the continuation of the request. -/
theorem openInterrupted_not_exclusive :
    ¬((System.booted { readState with currentReq := false }).run openInterrupted).Exclusive ∧
      ((System.booted { readState with currentReq := false }).run
        openInterrupted).worker.state.cont = some .rw ∧
      ((System.booted { readState with currentReq := false }).run
        (openInterrupted ++ [.step 1 idleInput false])).worker.state.cont = some .poll := by
  refine ⟨?_, rfl, rfl⟩
  rintro ⟨owner, -⟩
  exact absurd (owner 1 trivial).1 (by decide)

end Gray386.Floppy
