import Gray386.Floppy.CallGraph

/-!
# The watchdog and the work queue

`cancel_activity` waits for `floppy_work`. Two functions call it: `floppy_shutdown`,
which runs as `fd_timeout` only, and `fd_watchdog`. The watchdog is meant for the timer,
but `setup_rw_floppy` also calls it directly at the end of the chain, and the chain
mostly runs as `floppy_work`. If the disk has been removed by then, the item waits for
itself, the queue is stuck and with it every drive.

The other cancellations do not wait. So this is the only way in which an item of the
driver can wait for itself.
-/

namespace Gray386.Floppy

open Gray386.Machine

/-- No wait for the item itself, and no shutdown in `floppy_work`. -/
def Allowed (item : WorkItem) : Call → Prop
  | .call code => item = .floppyWork → code ≠ .floppyShutdown
  | .cancelSync other => other ≠ item

/-- The watchdog finds the disk in its place if it is called in `floppy_work`. -/
def DiskInPlace (item : WorkItem) (code : Code) (input : Input) (st : State) : Prop :=
  item = .floppyWork → code = .handler .fdWatchdog → (st.diskChange input).1 = false

theorem allowed_of_ordinary {call : Call} (item : WorkItem) (ordinary : Ordinary call) :
    Allowed item call := by
  cases call with
  | call code => exact fun _ => ordinary.1
  | cancelSync other => exact ordinary.elim

/-- The functions that wait do so for `floppy_work` and go on with ordinary calls. -/
theorem allowed_of_waiting {item : WorkItem} (elsewhere : item ≠ .floppyWork) {calls : List Call}
    (ordinary : ∀ call ∈ calls, Ordinary call) :
    ∀ call ∈ .cancelSync .floppyWork :: calls, Allowed item call := by
  intro call call_mem
  rcases List.mem_cons.mp call_mem with rfl | later
  · exact elsewhere.symm
  · exact allowed_of_ordinary item (ordinary call later)

theorem allowed_of_special {item : WorkItem} {code : Code} {input : Input} {st next : State}
    {calls : List Call} (special : Special input st code) (allowed : Allowed item (.call code))
    (inPlace : DiskInPlace item code input st) (outcome : exec input st code = some (next, calls)) :
    ∀ call ∈ calls, Allowed item call := by
  cases code with
  | floppyShutdown =>
      cases outcome
      exact allowed_of_waiting (fun here => allowed here rfl) (by simp [Ordinary])
  | doRequest =>
      intro call call_mem
      rw [doRequest_calls input st outcome call call_mem]
      exact fun _ => by simp
  | redo =>
      have rw : st.cont = some .rw := special
      simp only [exec, contRedo, rw] at outcome
      cases outcome
      simp [Allowed]
  | handler handler =>
      cases handler with
      | fdWatchdog =>
          have changed : (st.diskChange input).1 = true := special
          have elsewhere : item ≠ .floppyWork := by
            intro here
            exact absurd (inPlace here rfl) (by simp [changed])
          rw [exec, execHandler, fdWatchdog_of_changed changed] at outcome
          cases outcome
          exact allowed_of_waiting elsewhere (by simp [Ordinary])
      | redoFdRequest =>
          cases outcome
          simp [Allowed]
      | floppyStart | floppyReady | setupRwFloppy | mainCommandInterrupt | seekInterrupt
      | recalInterrupt | resetInterrupt | resetFdc | redoFormat => exact special.elim
  | interrupt | error | done | successAndWakeup | formatInterrupt | rwInterrupt | badFlpIntr
  | tallyError | needRecal | perpendicularMode | specifyAndSeek | seekFloppy | setupDma | setReset
  | rwCommand | shutdownRest => exact special.elim

theorem closed_floppyWq : Worker.Closed floppyWq Allowed DiskInPlace where
  queued := by
    intro st item code queued here
    subst here
    simp only [floppyWq, pending, Option.map_eq_some_iff] at queued
    rcases queued with ⟨handler, -, rfl⟩
    simp
  called := by
    intro item code input st next calls allowed inPlace executed
    have outcome : exec input st code = some (next, calls) := executed
    by_cases special : Special input st code
    · exact allowed_of_special special allowed inPlace outcome
    · have orderly := orderly_exec input st special
      rw [outcome] at orderly
      intro call call_mem
      exact allowed_of_ordinary item (orderly call call_mem)

/-- A watchdog in `floppy_work` that finds no disk is about to wait for `floppy_work`. -/
theorem waits_of_not_diskInPlace {item : WorkItem} {code : Code} {input : Input} {st : State}
    (removed : ¬DiskInPlace item code input st) :
    ∃ next rest, floppyWq.exec code input st = some (next, .cancelSync item :: rest) := by
  simp only [DiskInPlace, Classical.not_imp, Bool.not_eq_false] at removed
  rcases removed with ⟨rfl, rfl, changed⟩
  exact ⟨_, _, fdWatchdog_of_changed changed⟩

theorem stackWithin_started (st : State) : (started st).StackWithin Allowed := by
  intro item nothing
  exact absurd nothing (by simp [started])

/--
From `schedule_bh(floppy_start)` on, no work item ever waits for itself if and only if
each time the watchdog is called in `floppy_work` it finds the disk in its place.
-/
theorem neverSelfWaits_iff (st : State) (events : List (QueueEvent WorkItem Input Action)) :
    (started st).Throughout floppyWq (fun reached => ¬reached.SelfWaits) events ↔
      (started st).EachCall floppyWq DiskInPlace events :=
  Worker.throughout_not_selfWaits_iff closed_floppyWq (fun _ same => same rfl)
    waits_of_not_diskInPlace (stackWithin_started st) events

/-- A drive that is spinning with its head on track 5. -/
def spinningDrive : DriveState where
  unit := 0
  track := 5
  newChange := false
  diskChanged := false
  verify := false
  maxblock := 0
  brokenDcl := false
  silentDclClear := false
  maxErrorsAbort := 5
  maxErrorsReset := 3
  maxErrorsRecal := 2

/-- The command that reads a sector on track 5. -/
def readCmd : RawCmd where
  flags := fdRawRead ||| fdRawSpin ||| fdRawNeedDisk ||| fdRawNeedSeek
  rate := 0
  track := 5
  length := 512
  cmdCount := 9
  aligned := true

/-- `redo_fd_request` has set up the command. -/
def readState : State where
  floppyWork := none
  fdTimer := none
  fdTimeout := true
  canceling := false
  doFloppy := none
  cont := some .rw
  rawCmd := [readCmd]
  commandStatus := fdCommandNone
  fdcBusy := true
  reset := false
  dtr := 0
  inr := 0
  replyBuffer := []
  drive := spinningDrive
  blindSeek := false
  currentReq := true
  probing := false
  errors := 0

/-- No delay is needed, and the controller does as it is told. -/
def smoothInput (line : Bool) : Input where
  line := line
  deselects := false
  deselectLine := false
  elapsed := true
  dtrElapsed := true
  longSpinup := false
  accepts := true
  reply := []
  replyOk := true
  ready := true
  dmaStarts := true
  drive := spinningDrive
  requestPending := true
  requestFinished := true
  block := 0
  requestErrors := 0
  fakeChange := false
  floppyKnown := true
  validFormat := true
  rwResult := 2
  rwWrites := false
  rwCmd := readCmd
  transferred := true
  direct := true
  residue := 0

/-- The command is set up in one go, and the disk is removed just before the end. -/
def diskRemoved : List (QueueEvent WorkItem Input Action) :=
  .dispatch .floppyWork ::
    (List.replicate 8 (.exec (smoothInput false)) ++ [.exec (smoothInput true)])

/-- The queue waits for its own item and does so for ever. -/
theorem diskRemoved_selfWaits :
    ¬(started readState).Throughout floppyWq (fun reached => ¬reached.SelfWaits) diskRemoved ∧
      ∀ later, ((started readState).run floppyWq (diskRemoved ++ later)).SelfWaits := by
  have waits : ((started readState).run floppyWq diskRemoved).SelfWaits := ⟨_, _, rfl, rfl⟩
  refine ⟨?_, ?_⟩
  · intro never
    exact Worker.throughout_run never waits
  · intro later
    rw [Worker.run, List.foldl_append]
    exact waits.run floppyWq later

end Gray386.Floppy
