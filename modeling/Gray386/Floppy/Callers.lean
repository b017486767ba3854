import Gray386.Floppy.Handlers

/-!
# The callers of the floppy driver

Processes enter the driver through its `ioctl` and through the checks for a changed
disk, and the block layer enters it with requests. All of them have to set `fdc_busy`
before they touch the controller. Nobody clears it again on the way out. A caller ends
with `process_fd_request`, or is interrupted in the middle of a command, and in both
cases the bottom half goes on and clears the bit when it has served all requests.

A caller is a program of the statements that matter for this. Its other decisions are
left open. The bottom half is that of `floppyWq`. The ghost `owner` is the last caller
that has set the bit, until it hands over or the bit is cleared.
-/

namespace Gray386.Floppy

open Gray386.Machine

/-- The commands for which a process waits, other than a poll of the drive. -/
inductive Command where
  | format
  | reset
  | raw (cmd : RawCmd) (next : List RawCmd)

def Command.action : Command → Action
  | .format => .doFormat
  | .reset => .userResetFdc
  | .raw cmd next => .rawCmdIoctl cmd next

/-- What a caller has yet to do. -/
inductive Program where
  | done
  /-- `lock_fdc`; a caller that checks the result returns if it is not zero. -/
  | lockFdc (checked : Bool) (next : Program)
  /-- `test_and_set_bit(0, &fdc_busy)`, and a return if it was set. -/
  | testAndSetBit (next : Program)
  | pollDrive (interruptible : Bool) (flag : Word) (next : Program)
  | command (command : Command) (next : Program)
  /-- The wait in `wait_til_done`; a caller that is interrupted there returns. -/
  | waitTilDone (interruptible : Bool) (next : Program)
  /-- The wait in `cancel_activity`, before the caller returns `-EINTR`. -/
  | cancelActivity
  | processFdRequest (next : Program)
  | readBlock0 (next : Program)
  | choose (left right : Program)

/-- `floppy_check_events`. Both results are ignored. -/
def floppyCheckEvents (next : Program) : Program :=
  .choose next (.lockFdc false (.pollDrive false 0 (.processFdRequest next)))

/-- `floppy_revalidate`. The result of `lock_fdc` is ignored. -/
def floppyRevalidate (next : Program) : Program :=
  .choose next (.lockFdc false
    (.choose (.processFdRequest next)
      (.choose (.readBlock0 next)
        (.choose (.pollDrive false fdRawNeedDisk (.processFdRequest next))
          (.processFdRequest next)))))

/-- `check_disk_change`, as the block layer defines it with the two functions above. -/
def checkDiskChange (next : Program) : Program :=
  floppyCheckEvents (.choose next (floppyRevalidate next))

def invalidateDrive (next : Program) : Program :=
  .processFdRequest (checkDiskChange next)

def setGeometry : Program :=
  let finish := Program.choose (invalidateDrive .done) (.processFdRequest .done)
  .choose .done
    (.choose (.lockFdc true (.processFdRequest .done))
      (.lockFdc true (.choose finish (.pollDrive true fdRawNeedDisk finish))))

def getFloppyGeometry : Program :=
  .choose .done (.lockFdc true (.pollDrive false 0 (.processFdRequest .done)))

/-- A command for which a process waits unless its arguments are refused. -/
def lockedCommand (command : Command) : Program :=
  .lockFdc true (.choose (.processFdRequest .done)
    (.command command (.processFdRequest .done)))

/-- The functions through which the driver is entered. -/
inductive Entry where
  | fdEject | fdClrPrm | fdSetPrm | fdGetPrm | fdFmtBeg | fdFmtTrk | fdFlush | fdPollDrvStat
  | fdReset | fdRawCmd (cmd : RawCmd) (next : List RawCmd) | fdTwaddle
  | floppyCheckEvents | floppyRevalidate | floppyOpen | doFdRequest

/-- The commands of `fd_ioctl` that lock the controller, and the other functions. -/
def Entry.program : Entry → Program
  | .fdEject => .choose .done (.lockFdc true (.processFdRequest .done))
  | .fdClrPrm | .fdFlush => .lockFdc true (invalidateDrive .done)
  | .fdSetPrm => setGeometry
  | .fdGetPrm => getFloppyGeometry
  | .fdFmtBeg | .fdPollDrvStat =>
      .lockFdc true (.pollDrive true fdRawNeedDisk (.processFdRequest .done))
  | .fdFmtTrk => .choose .done (lockedCommand .format)
  | .fdReset => lockedCommand .reset
  | .fdRawCmd cmd next => .choose .done (lockedCommand (.raw cmd next))
  | .fdTwaddle => .lockFdc true (.processFdRequest .done)
  | .floppyCheckEvents => Floppy.floppyCheckEvents .done
  | .floppyRevalidate => Floppy.floppyRevalidate .done
  | .floppyOpen => .choose .done (checkDiskChange .done)
  | .doFdRequest => .choose .done (.testAndSetBit (.processFdRequest .done))

structure System (ι : Type) where
  worker : Worker State WorkItem Code
  owner : Option ι
  callers : ι → Program

inductive Event (ι : Type) where
  | exec (input : Input)
  | dispatch (item : WorkItem)
  | interrupt (inputs : Nat → Input)
  | enter (caller : ι) (entry : Entry)
  | step (caller : ι) (input : Input) (left : Bool)
  | signal (caller : ι)

namespace System

variable {ι : Type} [DecidableEq ι]

def busy (system : System ι) : Bool := system.worker.state.fdcBusy

/-- A step of the bottom half. -/
def work (system : System ι) (event : QueueEvent WorkItem Input Action) : System ι :=
  let worker := system.worker.step floppyWq event
  { system with
    worker := worker
    owner := if worker.state.fdcBusy then system.owner else none }

/-- A caller goes on without touching the controller. -/
def resume (system : System ι) (caller : ι) (next : Program) : System ι :=
  { system with callers := Function.update system.callers caller next }

/-- A caller acts on the driver. -/
def act (system : System ι) (caller : ι) (action : Action) (next : Program) : System ι :=
  { system.resume caller next with worker := system.worker.step floppyWq (.act action) }

/-- A caller sets `fdc_busy`. -/
def acquire (system : System ι) (caller : ι) (input : Input) (next : Program) : System ι :=
  { system.act caller (.lockFdc input) next with owner := some caller }

/-- A caller leaves the rest to the bottom half, and the lock with it. -/
def handOver (system : System ι) (caller : ι) (action : Action) (next : Program) : System ι :=
  { system.act caller action next with
    owner := if system.owner = some caller then none else system.owner }

/-- The next statement of a caller. Waiting changes nothing. -/
def advance (system : System ι) (caller : ι) (input : Input) (left : Bool) : System ι :=
  match system.callers caller with
  | .done => system
  | .lockFdc _ next =>
      if system.busy then system else system.acquire caller input next
  | .testAndSetBit next =>
      if system.busy then system.resume caller .done else system.acquire caller input next
  | .pollDrive interruptible flag next =>
      system.act caller (.pollDrive flag input.rwCmd) (.waitTilDone interruptible next)
  | .command command next => system.act caller command.action (.waitTilDone true next)
  | .waitTilDone _ next =>
      if 2 ≤ system.worker.state.commandStatus then system.act caller .commandDone next
      else system
  | .cancelActivity =>
      if system.worker.running = some .floppyWork then system
      else system.handOver caller .activityCanceled .done
  | .processFdRequest next => system.handOver caller .processFdRequest next
  | .readBlock0 next => system.resume caller (.processFdRequest next)
  | .choose first second => system.resume caller (if left then first else second)

/-- A signal ends the wait of a caller for `fdc_busy` or for its command. -/
def interruptCaller (system : System ι) (caller : ι) : System ι :=
  match system.callers caller with
  | .lockFdc checked next =>
      if system.busy then system.resume caller (if checked then .done else next) else system
  | .waitTilDone true _ =>
      if system.worker.state.commandStatus < 2 then system.act caller .signalled .cancelActivity
      else system
  | _ => system

def step (system : System ι) : Event ι → System ι
  | .exec input => system.work (.exec input)
  | .dispatch item => system.work (.dispatch item)
  | .interrupt inputs => system.work (.act (.floppyInterrupt inputs))
  | .enter caller entry =>
      match system.callers caller with
      | .done => system.resume caller entry.program
      | _ => system
  | .step caller input left => system.advance caller input left
  | .signal caller => system.interruptCaller caller

def run (system : System ι) (events : List (Event ι)) : System ι :=
  events.foldl step system

/-- The driver is loaded and nobody has entered it. -/
def booted (st : State) : System ι where
  worker :=
    { state := { st with
        floppyWork := none
        fdTimer := none
        canceling := false
        doFloppy := none
        cont := none
        fdcBusy := false }
      running := none
      stack := [] }
  owner := none
  callers _ := .done

end System

end Gray386.Floppy
