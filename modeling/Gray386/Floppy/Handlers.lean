import Gray386.Machine.Word
import Gray386.Machine.WorkQueue

/-!
# The bottom half of the floppy driver

A command of the controller is carried out by a chain of functions: the motor is
started, the disk-change line is looked at, the head is moved, the transfer is set up.
Wherever the controller or a delay has to be awaited the chain ends and its next
function is stored, in `do_floppy` for the next interrupt or in the timer `fd_timer`.
An interrupt queues the stored function as `floppy_work`. So the same function runs
now as one work item and now as another. When a command is over, or is to be tried
again, the functions of the current `cont` are called.

The functions of the chain call each other and call through `cont`. Here each of them
is one statement that lists its calls, and a function that goes on after a call is cut
there. What the driver reads from outside comes with every statement as an `Input`:
the controller's answers, the disk-change line, whether a date has passed, what the
block layer has to offer. Dates themselves, the motor and the data that is transferred
are left out.
-/

namespace Gray386.Floppy

open Gray386.Machine

inductive WorkItem where
  | floppyWork | fdTimer | fdTimeout
  deriving DecidableEq, Repr

/-- The functions that are stored for an interrupt or a timer or are queued. -/
inductive Handler where
  | floppyStart | floppyReady | setupRwFloppy | fdWatchdog
  | mainCommandInterrupt | seekInterrupt | recalInterrupt | resetInterrupt
  | resetFdc | redoFdRequest | redoFormat
  deriving DecidableEq, Repr

/-- The continuations, `struct cont_t`. -/
inductive Cont where
  | wakeup | intr | format | rw | poll | reset | raw
  deriving DecidableEq, Repr

def fdRawRead : Word := 1
def fdRawWrite : Word := 2
def fdRawNoMotor : Word := 4
def fdRawDiskChange : Word := 4
def fdRawIntr : Word := 8
def fdRawSpin : Word := 0x10
def fdRawNoMotorAfter : Word := 0x20
def fdRawNeedDisk : Word := 0x40
def fdRawNeedSeek : Word := 0x80
def fdRawStopIfFailure : Word := 0x200
def fdRawStopIfSuccess : Word := 0x400
def fdRawSoftfailure : Word := 0x800
def fdRawFailure : Word := 0x10000
def fdRawHardfailure : Word := 0x20000

/-- The members of `struct floppy_raw_cmd` that the bottom half looks at. -/
structure RawCmd where
  flags : Word
  rate : Byte
  track : Int
  length : Int
  cmdCount : Nat
  /-- `kernel_data` lies on a sector boundary. -/
  aligned : Bool
  deriving DecidableEq, Repr

/-- Some of the flags are set. -/
def RawCmd.has (cmd : RawCmd) (mask : Word) : Bool :=
  cmd.flags &&& mask ≠ 0

def noTrack : Int := -1
def need1Recal : Int := -2
def need2Recal : Int := -3

/-- State and parameters of the selected drive, `DRS` and `DP`. -/
structure DriveState where
  /-- `UNIT(current_drive)`. -/
  unit : Byte
  track : Int
  newChange : Bool
  diskChanged : Bool
  verify : Bool
  maxblock : Nat
  brokenDcl : Bool
  silentDclClear : Bool
  maxErrorsAbort : Nat
  maxErrorsReset : Nat
  maxErrorsRecal : Nat
  deriving DecidableEq, Repr

def fdCommandNone : Int := -1

structure State where
  /-- The function with which `floppy_work` is queued. -/
  floppyWork : Option Handler
  fdTimer : Option Handler
  fdTimeout : Bool
  /-- A process is in `cancel_work_sync(&floppy_work)`, which keeps it from being queued. -/
  canceling : Bool
  doFloppy : Option Handler
  cont : Option Cont
  /-- The current command and those that follow it; there is none if `raw_cmd` is null. -/
  rawCmd : List RawCmd
  commandStatus : Int
  fdcBusy : Bool
  /-- `FDCS->reset`. -/
  reset : Bool
  /-- `FDCS->dtr`. -/
  dtr : Byte
  inr : Int
  replyBuffer : List Byte
  drive : DriveState
  blindSeek : Bool
  currentReq : Bool
  probing : Bool
  errors : Nat
  deriving DecidableEq, Repr

/-- What a statement reads from outside the driver. -/
structure Input where
  /-- The disk-change line says that there is no disk or another one. -/
  line : Bool
  /-- The current drive is deselected, upon which the line is read once more. -/
  deselects : Bool
  deselectLine : Bool
  /-- The date for which a function waits has passed. -/
  elapsed : Bool
  /-- The data rate that was just set is stable. -/
  dtrElapsed : Bool
  /-- The motor needs longer than the selection of the drive. -/
  longSpinup : Bool
  /-- The controller takes the bytes of a command. -/
  accepts : Bool
  /-- The bytes of a result phase. -/
  reply : List Byte
  /-- The result phase comes to its end. -/
  replyOk : Bool
  /-- The status register reads ready when the controller is selected. -/
  ready : Bool
  dmaStarts : Bool
  /-- The drive that is selected. -/
  drive : DriveState
  requestPending : Bool
  /-- The block layer has no more sectors in the request that is reported done. -/
  requestFinished : Bool
  /-- The last sector of the request. -/
  block : Nat
  requestErrors : Nat
  fakeChange : Bool
  /-- The type of the disk is known. -/
  floppyKnown : Bool
  validFormat : Bool
  /-- What `make_raw_rw_request` returns and the command that it makes. -/
  rwResult : Nat
  rwWrites : Bool
  rwCmd : RawCmd
  /-- Some sectors have been transferred. -/
  transferred : Bool
  /-- The transfer was into the buffer of the request. -/
  direct : Bool
  residue : Int

/-- The functions of the bottom half, and the rests of functions behind a call. -/
inductive Code where
  | handler (handler : Handler)
  | interrupt
  | redo
  | error
  | done (result : Bool)
  | successAndWakeup
  | formatInterrupt
  | rwInterrupt
  | badFlpIntr
  | tallyError (count : Nat)
  | needRecal
  | perpendicularMode
  | specifyAndSeek
  | seekFloppy
  | setupDma
  | setReset
  | rwCommand (flags : Word)
  | doRequest
  | floppyShutdown
  | shutdownRest
  deriving DecidableEq, Repr

abbrev Call := Statement WorkItem Code

/-- The state after a statement and the calls it makes, unless it follows a null pointer. -/
abbrev Outcome := Option (State × List Call)

namespace State

variable (st : State) (input : Input)

def st0 : Byte := st.replyBuffer.getD 0 0
def st1 : Byte := st.replyBuffer.getD 1 0
def st2 : Byte := st.replyBuffer.getD 2 0
def rHead : Byte := st.replyBuffer.getD 4 0

/-- `output_byte`, for each of `count` bytes. It fails for good once `reset` is set. -/
def outputBytes (count : Nat) : Bool × State :=
  if count = 0 then (true, st)
  else if st.reset || !input.accepts then (false, { st with reset := true })
  else (true, st)

def result : Int × State :=
  if st.reset then (-1, st)
  else
    let read := { st with replyBuffer := input.reply ++ st.replyBuffer.drop input.reply.length }
    if input.replyOk then (input.reply.length, read) else (-1, { read with reset := true })

/-- `disk_change`, of the current drive. -/
def diskChange : Bool × State :=
  if st.drive.brokenDcl then (st.drive.diskChanged, st)
  else if input.line then
    (true, { st with drive := { st.drive with
      verify := true
      diskChanged := st.drive.diskChanged || st.drive.maxblock ≠ 0 } })
  else (false, { st with drive := { st.drive with newChange := false } })

/-- `set_dor`, when it switches the motor off or selects a drive. -/
def setDor : State :=
  if input.deselects then (st.diskChange { input with line := input.deselectLine }).2 else st

/-- `set_fdc`. The state of the drive that is selected is not known before. -/
def setFdc : State :=
  { st with drive := input.drive, reset := st.reset || !input.ready }

/-- `fdc_specify`, and the end of `perpendicular_mode`. -/
def configure : State :=
  { st with reset := st.reset || !input.accepts }

def rescheduleTimeout : State := { st with fdTimeout := true }

def scheduleBh (handler : Handler) : State :=
  if st.canceling then st else { st with floppyWork := some handler }

def resetFdc : State :=
  { st with
    doFloppy := some .resetInterrupt
    reset := false
    drive := { st.drive with
      track := if st.drive.track = need1Recal then need1Recal else need2Recal } }

/-- `fd_wait_for_completion`, and whether the caller has to return. -/
def fdWaitForCompletion (elapsed : Bool) (function : Handler) : Bool × State :=
  if st.reset then (true, st.resetFdc)
  else if elapsed then (false, st)
  else (true, { st with fdTimer := some function })

def startMotor (function : Handler) : Bool × State :=
  (st.setDor input).fdWaitForCompletion input.elapsed function

def fdcDtr (cmd : RawCmd) : Bool × State :=
  if cmd.rate &&& 3 = st.dtr then (false, st)
  else { st with dtr := cmd.rate &&& 3 }.fdWaitForCompletion input.dtrElapsed .floppyReady

/-- The part of `cancel_activity` before it waits for `floppy_work`. -/
def cancelActivity : State :=
  { st with doFloppy := none, fdTimer := none }

def unlockFdc : State :=
  { st with
    rawCmd := []
    commandStatus := fdCommandNone
    fdTimeout := false
    doFloppy := none
    cont := none
    fdcBusy := false }

def checkWp : State :=
  if st.drive.verify then
    match (st.outputBytes input 2).2.result input with
    | (1, read) => { read with drive := { read.drive with verify := false } }
    | (_, read) => { read with reset := true }
  else st

end State

section Chain

variable (input : Input) (st : State)

def fdWatchdog : Outcome :=
  let (changed, st) := st.diskChange input
  if changed then
    some (st.cancelActivity,
      [.cancelSync .floppyWork, .call (.done false), .call (.handler .resetFdc)])
  else some ({ st with fdTimer := some .fdWatchdog }, [])

def mainCommandInterrupt : Outcome :=
  some ({ st with fdTimer := none }, [.call .interrupt])

def setupDma : Outcome :=
  match st.rawCmd with
  | [] => none
  | cmd :: _ =>
      if cmd.length = 0 || !cmd.aligned || !input.dmaStarts then
        some (st, [.call (.done false), .call .setReset])
      else some (st, [])

/-- `setup_rw_floppy`, up to the point where the disk spins. -/
def setupRwFloppy : Outcome :=
  match st.rawCmd with
  | [] => none
  | cmd :: _ =>
      let transfers := cmd.has (fdRawRead ||| fdRawWrite)
      let flags := if transfers then cmd.flags ||| fdRawIntr else cmd.flags
      let (waits, st) :=
        if cmd.has fdRawSpin && !cmd.has fdRawNoMotor then
          st.fdWaitForCompletion input.elapsed
            (if input.longSpinup then .floppyStart else .setupRwFloppy)
        else (false, st)
      if waits then some (st, [])
      else if transfers then some (st, [.call .setupDma, .call (.rwCommand flags)])
      else some (st, [.call (.rwCommand flags)])

/-- The rest of `setup_rw_floppy`. -/
def rwCommand (flags : Word) : Outcome :=
  match st.rawCmd with
  | [] => none
  | cmd :: _ =>
      let interrupts : Bool := flags &&& fdRawIntr ≠ 0
      let st := if interrupts then { st with doFloppy := some .mainCommandInterrupt } else st
      let (sent, st) := st.outputBytes input cmd.cmdCount
      if !sent then some (st, [.call .error, .call (.handler .resetFdc)])
      else if !interrupts then
        let (inr, st) := st.result input
        some ({ st with inr := inr }, [.call .interrupt])
      else if flags &&& fdRawNeedDisk ≠ 0 then some (st, [.call (.handler .fdWatchdog)])
      else some (st, [])

def seekInterrupt : Outcome :=
  if st.inr ≠ 2 ∨ st.st0 &&& 0xf8 ≠ 0x20 then
    some ({ st with drive := { st.drive with track := need2Recal } }, [.call .error, .call .redo])
  else
    let moved : Bool :=
      decide (0 ≤ st.drive.track) && decide (st.drive.track ≠ st.st1.toNat) && !st.blindSeek
    some ({ st with drive := { st.drive with
      track := st.st1.toNat
      newChange := st.drive.newChange && !moved } }, [.call (.handler .floppyReady)])

/-- The seek command at the end of `seek_floppy`. -/
def seek : Outcome :=
  let (sent, st) := { st with doFloppy := some .seekInterrupt }.outputBytes input 3
  some (if sent then st else st.resetFdc, [])

def recalibrateFloppy : Outcome :=
  let (sent, st) := { st with doFloppy := some .recalInterrupt }.outputBytes input 2
  some (if sent then st else st.resetFdc, [])

def seekFloppy : Outcome :=
  match st.rawCmd with
  | [] => none
  | cmd :: next =>
      let st := { st with blindSeek := false }
      let (changed, st) := if st.drive.newChange then (false, st) else st.diskChange input
      if changed && cmd.has fdRawNeedDisk then
        some ({ st with drive := { st.drive with diskChanged := true } },
          [.call (.done false), .call .redo])
      else if st.drive.track ≤ need1Recal then recalibrateFloppy input st
      else if st.drive.newChange && cmd.has fdRawNeedDisk &&
          (decide (st.drive.track ≤ noTrack) || decide (st.drive.track = cmd.track)) then
        -- a seek clears the disk-change condition, to track 1 if the head is at track 0
        if cmd.track = 0 && st.drive.silentDclClear then
          seek input { st.setDor input with
            blindSeek := true
            rawCmd := { cmd with flags := cmd.flags ||| fdRawNeedSeek } :: next }
        else seek input st
      else
        let st := st.checkWp input
        if cmd.track ≠ st.drive.track && cmd.has fdRawNeedSeek then seek input st
        else some (st, [.call (.handler .setupRwFloppy)])

def recalInterrupt : Outcome :=
  if st.inr ≠ 2 then some ({ st with reset := true }, [.call (.handler .floppyReady)])
  else if st.st0 &&& 0x10 = 0 then
    some ({ st with drive := { st.drive with track := st.st1.toNat } },
      [.call (.handler .floppyReady)])
  else if st.drive.track = need1Recal then some (st, [.call .error, .call .redo])
  else
    some ({ st with drive := { st.drive with
      track := need1Recal
      newChange := st.drive.newChange && st.drive.track ≠ need2Recal } },
      [.call (.handler .floppyReady)])

def resetInterrupt : Outcome :=
  let (_, st) := st.result input
  if st.reset then some (st, [.call .error, .call .redo]) else some (st, [.call .redo])

def perpendicularMode : Outcome :=
  match st.rawCmd with
  | [] => none
  | cmd :: _ =>
      if cmd.rate &&& 0x40 ≠ 0 && cmd.rate &&& 3 ≠ 0 && cmd.rate &&& 3 ≠ 3 then
        some (st, [.call (.done false), .call .setReset])
      else some (st.configure input, [])

def floppyReady : Outcome :=
  if st.reset then some (st.resetFdc, [])
  else
    match st.rawCmd with
    | [] => none
    | cmd :: _ =>
        let (waits, st) := st.startMotor input .floppyReady
        if waits then some (st, [])
        else
          let (waits, st) := st.fdcDtr input cmd
          if waits then some (st, [])
          else
            let st := if cmd.has fdRawNoMotor then st else (st.diskChange input).2
            if cmd.has (fdRawNeedSeek ||| fdRawNeedDisk) then
              some (st, [.call .perpendicularMode, .call .specifyAndSeek])
            else if cmd.has (fdRawRead ||| fdRawWrite) then
              some (st.configure input, [.call (.handler .setupRwFloppy)])
            else some (st, [.call (.handler .setupRwFloppy)])

/-- `floppy_start`. The scan of the drives selects each of them in turn. -/
def floppyStart : Outcome :=
  let st := st.rescheduleTimeout.setFdc input
  some ({ st with drive := { st.drive with newChange := true } },
    [.call (.handler .floppyReady)])

/-- `floppy_shutdown`, up to the wait in `cancel_activity`. -/
def floppyShutdown : Outcome :=
  some (st.cancelActivity, [.cancelSync .floppyWork, .call .shutdownRest])

end Chain

section Continuations

variable (input : Input) (st : State)

def doWakeup : State :=
  { st.rescheduleTimeout with cont := none, commandStatus := st.commandStatus + 2 }

def processFdRequest : State :=
  { st with cont := some .rw }.scheduleBh .redoFdRequest

def genericDone (result : Bool) : State :=
  { st with commandStatus := if result then 1 else 0, cont := some .wakeup }

def requestDone (uptodate : Bool) : State :=
  let st := { st.rescheduleTimeout with probing := false }
  if st.currentReq then
    { st with
      currentReq := !input.requestFinished
      drive := { st.drive with
        maxblock := if uptodate then max st.drive.maxblock input.block else st.drive.maxblock } }
  else st

/-- `raw_cmd_done`. The next command of the chain becomes the current one. -/
def rawCmdDone (flag : Bool) : Outcome :=
  match st.rawCmd with
  | [] => none
  | cmd :: next =>
      if flag then
        let replyCount := if 0 ≤ st.inr ∧ st.inr ≤ 16 then st.inr else 0
        let length := if cmd.has (fdRawRead ||| fdRawWrite) then input.residue else cmd.length
        let flags :=
          if cmd.has fdRawSoftfailure && (replyCount = 0 || st.st0 &&& 0xc0 ≠ 0) then
            cmd.flags ||| fdRawFailure
          else cmd.flags
        let (changed, st) := st.diskChange input
        let flags := if changed then flags ||| fdRawDiskChange else flags &&& ~~~fdRawDiskChange
        let cmd := { cmd with flags := flags, length := length }
        let st := if cmd.has fdRawNoMotorAfter then st.setDor input else st
        if !next.isEmpty && (!cmd.has fdRawFailure || !cmd.has fdRawStopIfFailure) &&
            (cmd.has fdRawFailure || !cmd.has fdRawStopIfSuccess) then
          some ({ st with rawCmd := next }, [])
        else some (genericDone { st with rawCmd := cmd :: next } true, [])
      else
        let cmd := { cmd with flags := cmd.flags ||| fdRawFailure ||| fdRawHardfailure }
        some (genericDone { st with rawCmd := cmd :: next } false, [])

/-- `cont->done`. -/
def contDone (result : Bool) : Outcome :=
  match st.cont with
  | none => none
  | some .wakeup | some .intr => some (st, [])
  | some .format | some .poll | some .reset => some (genericDone st result, [])
  | some .rw => some (requestDone input st result, [])
  | some .raw => rawCmdDone input st result

/-- `cont->error`. -/
def contError : Outcome :=
  match st.cont with
  | none => none
  | some .wakeup | some .intr => some (st, [])
  | some .format | some .rw => some (st, [.call .badFlpIntr])
  | some .poll | some .reset | some .raw => some (st, [.call (.done false)])

/-- `cont->redo`. -/
def contRedo : Outcome :=
  match st.cont with
  | none => none
  | some .wakeup => some (doWakeup st, [])
  | some .intr => some (processFdRequest st, [])
  | some .format => some (st, [.call (.handler .redoFormat)])
  | some .rw => some (st, [.call (.handler .redoFdRequest)])
  | some .poll => some (st, [.call (.handler .floppyReady)])
  | some .reset => some (st, [.call .successAndWakeup])
  | some .raw => some (st, [.call (.handler .floppyStart)])

/-- `cont->interrupt`. -/
def contInterrupt : Outcome :=
  match st.cont with
  | none => none
  | some .wakeup | some .intr | some .reset => some (st, [])
  | some .format => some (st, [.call .formatInterrupt])
  | some .rw => some (st, [.call .rwInterrupt])
  | some .poll | some .raw => some (st, [.call .successAndWakeup])

def successAndWakeup : Outcome :=
  some (st, [.call (.done true), .call .redo])

/-- `interpret_errors`: what it calls, and what it returns. -/
def interpretErrors : State × List Call × Nat :=
  if st.inr ≠ 7 then ({ st with reset := true }, [], 1)
  else
    let kind := st.st0 &&& 0xc0
    if kind = 0x40 then
      let recal : List Call := if st.st2 &&& 0x12 ≠ 0 then [.call .needRecal] else []
      if st.st1 &&& 0x80 ≠ 0 then (st, [], 0)
      else if st.st1 &&& 0x02 ≠ 0 then (st, .call (.done false) :: recal, 2)
      else if st.st1 &&& 0x04 ≠ 0 then (st, recal, 1)
      else if st.st1 &&& 0x10 ≠ 0 then (st, recal, 0)
      else (st, recal, 1)
    else if kind = 0x80 then (st, [.call (.done false)], 2)
    else if kind = 0xc0 then (st, [.call .error], 2)
    else (st, [], 0)

def formatInterrupt : Outcome :=
  let (st, calls, ret) := interpretErrors st
  match ret with
  | 0 => some (st, calls ++ [.call (.done true), .call .redo])
  | 1 => some (st, calls ++ [.call .error, .call .redo])
  | _ => some (st, calls ++ [.call .redo])

def rwInterrupt : Outcome :=
  if 2 ≤ st.rHead.toNat then some (st, [])
  else
    let (st, calls, ret) := interpretErrors st
    if ret = 2 then some (st, calls ++ [.call .redo])
    else if !input.transferred then
      if ret = 1 then some (st, calls ++ [.call .error, .call .redo])
      else some (st, calls ++ [.call .redo])
    else if input.direct then
      some ({ st with probing := false }, calls ++ [.call (.done true), .call .redo])
    else some ({ st with probing := false }, calls ++ [.call .redo])

def badFlpIntr : Outcome :=
  if st.probing && input.validFormat then some (st, [])
  else
    let count := st.errors + 1
    let st := { st with errors := count }
    if st.drive.maxErrorsAbort < count then
      some (st, [.call (.done false), .call (.tallyError count)])
    else some (st, [.call (.tallyError count)])

/-- The rest of `bad_flp_intr`. -/
def tallyError (count : Nat) : State :=
  if st.drive.maxErrorsReset < count then { st with reset := true }
  else if st.drive.maxErrorsRecal < count then
    { st with drive := { st.drive with track := need2Recal } }
  else st

def redoFormat : Outcome :=
  let flags := fdRawWrite ||| fdRawIntr ||| fdRawSpin ||| fdRawNeedDisk ||| fdRawNeedSeek
  some ({ st with rawCmd := [{ input.rwCmd with flags := flags, cmdCount := 6 }] },
    [.call (.handler .floppyStart)])

/-- `make_raw_rw_request`, with the drive that it selects. -/
def makeRawRwRequest : State :=
  let direction := if input.rwWrites then fdRawWrite else fdRawRead
  let flags := fdRawSpin ||| fdRawNeedDisk ||| fdRawNeedSeek ||| direction
  { st.setFdc input with rawCmd := [{ input.rwCmd with flags := flags, cmdCount := 9 }] }

/-- The loop of `redo_fd_request`, once through. -/
def doRequest : Outcome :=
  if !st.currentReq && !input.requestPending then some (st.unlockFdc, [])
  else
    let st := ({ st with currentReq := true }.setFdc input).rescheduleTimeout
    let st := { st with rawCmd := [{ input.rwCmd with flags := 0 }] }
    let (waits, st) := st.startMotor input .redoFdRequest
    if waits then some (st, [])
    else
      let st := (st.diskChange input).2
      if input.fakeChange || st.drive.diskChanged then
        some (requestDone input st false, [.call .doRequest])
      else if !input.floppyKnown && !st.probing && !input.validFormat then
        some (requestDone input st false, [.call .doRequest])
      else
        let st := { st with probing := !input.floppyKnown, errors := input.requestErrors }
        let st := makeRawRwRequest input st
        if input.rwResult < 2 then
          some (requestDone input st (input.rwResult = 1), [.call .doRequest])
        else some (st.scheduleBh .floppyStart, [])

def shutdownRest : Outcome :=
  let st := { st with reset := true }
  match st.cont with
  | none => some (processFdRequest st, [])
  | some _ => some (st, [.call (.done false), .call .redo])

end Continuations

/-- The statements of a function. -/
def execHandler (input : Input) (st : State) : Handler → Outcome
  | .floppyStart => floppyStart input st
  | .floppyReady => floppyReady input st
  | .setupRwFloppy => setupRwFloppy input st
  | .fdWatchdog => fdWatchdog input st
  | .mainCommandInterrupt => mainCommandInterrupt st
  | .seekInterrupt => seekInterrupt st
  | .recalInterrupt => recalInterrupt st
  | .resetInterrupt => resetInterrupt input st
  | .resetFdc => some (st.resetFdc, [])
  | .redoFdRequest => some (st, [.call .doRequest])
  | .redoFormat => redoFormat input st

def exec (input : Input) (st : State) : Code → Outcome
  | .handler handler => execHandler input st handler
  | .interrupt => contInterrupt st
  | .redo => contRedo st
  | .error => contError st
  | .done result => contDone input st result
  | .successAndWakeup => successAndWakeup st
  | .formatInterrupt => formatInterrupt st
  | .rwInterrupt => rwInterrupt input st
  | .badFlpIntr => badFlpIntr input st
  | .tallyError count => some (tallyError st count, [])
  | .needRecal => some ({ st with drive := { st.drive with track := need2Recal } }, [])
  | .perpendicularMode => perpendicularMode input st
  | .specifyAndSeek => some (st.configure input, [.call .seekFloppy])
  | .seekFloppy => seekFloppy input st
  | .setupDma => setupDma input st
  | .setReset => some ({ st with reset := true }, [])
  | .rwCommand flags => rwCommand input st flags
  | .doRequest => doRequest input st
  | .floppyShutdown => floppyShutdown st
  | .shutdownRest => shutdownRest st

/--
What interrupts and processes do to the driver. Of the functions of a process these are
the parts between two points where it decides or waits.
-/
inductive Action where
  | floppyInterrupt (inputs : Nat → Input)
  | lockFdc (input : Input)
  | doFdRequest (input : Input)
  | processFdRequest
  | pollDrive (flag : Word) (cmd : RawCmd)
  | userResetFdc
  | doFormat
  | rawCmdIoctl (cmd : RawCmd) (next : List RawCmd)
  /-- `wait_til_done`, woken up when the command is done. -/
  | commandDone
  /-- `wait_til_done`, woken up by a signal. -/
  | signalled
  /-- The rest of that, once `cancel_work_sync` has returned. -/
  | activityCanceled

/-- The loop of `floppy_interrupt` that asks for the interrupt status. -/
def sensei (inputs : Nat → Input) : Nat → State → State
  | 0, st => st
  | count + 1, st =>
      let input := inputs (count + 1)
      let (inr, st) := (st.outputBytes input 1).2.result input
      let st := { st with inr := inr }
      if st.st0 &&& 0x83 ≠ st.drive.unit ∧ inr = 2 then sensei inputs count st else st

def floppyInterrupt (inputs : Nat → Input) (st : State) : State :=
  let handler := st.doFloppy
  let (inr, st) := { st with doFloppy := none, reset := false }.result (inputs 0)
  let st := { st with inr := inr }
  let st := if inr = 0 then sensei inputs 4 st else st
  match handler with
  | none => { st with reset := true }
  | some handler => st.scheduleBh handler

def perform (running : Option WorkItem) (st : State) : Action → State
  | .floppyInterrupt inputs => floppyInterrupt inputs st
  | .lockFdc input =>
      if st.fdcBusy then st
      else ({ st with fdcBusy := true, commandStatus := fdCommandNone }.rescheduleTimeout).setFdc
        input
  | .doFdRequest input =>
      if st.fdcBusy then st
      else
        let st := { st with fdcBusy := true, commandStatus := fdCommandNone }.rescheduleTimeout
        processFdRequest (st.setFdc input)
  | .processFdRequest => processFdRequest st
  | .pollDrive flag cmd =>
      { st with
        rawCmd := [{ cmd with flags := flag, track := 0, cmdCount := 0 }]
        cont := some .poll
        drive := { st.drive with newChange := true } }.scheduleBh .floppyReady
  | .userResetFdc => { st with reset := true, cont := some .reset }.scheduleBh .resetFdc
  | .doFormat => { st with errors := 0, cont := some .format }.scheduleBh .redoFormat
  | .rawCmdIoctl cmd next =>
      { st with rawCmd := cmd :: next, cont := some .raw }.scheduleBh .floppyStart
  | .commandDone =>
      if 2 ≤ st.commandStatus then { st with commandStatus := fdCommandNone } else st
  | .signalled =>
      if st.commandStatus < 2 then
        { st.cancelActivity with floppyWork := none, canceling := true }
      else st
  | .activityCanceled =>
      if st.canceling ∧ running ≠ some .floppyWork then
        { st with canceling := false, cont := some .intr }.resetFdc
      else st

def pending (st : State) : WorkItem → Option Code
  | .floppyWork => st.floppyWork.map .handler
  | .fdTimer => st.fdTimer.map .handler
  | .fdTimeout => if st.fdTimeout then some .floppyShutdown else none

def take : WorkItem → State → State
  | .floppyWork, st => { st with floppyWork := none }
  | .fdTimer, st => { st with fdTimer := none }
  | .fdTimeout, st => { st with fdTimeout := false }

/-- The driver as the user of the work queue `floppy_wq`. -/
def floppyWq : QueueSystem State WorkItem Code Input Action where
  pending := pending
  take := take
  exec code input st := exec input st code
  act action running st := perform running st action

/-- The driver when `floppy_start` has just been queued and nothing is running. -/
def started (st : State) : Worker State WorkItem Code :=
  ⟨st.scheduleBh .floppyStart, none, []⟩

end Gray386.Floppy
