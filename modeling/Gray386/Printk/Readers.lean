import Gray386.Printk.Cursor
import Gray386.Printk.Export
import Gray386.Printk.PrintText

/-!
# The readers of the kernel log

Several readers go through the log at their own pace, while records are stored and old ones
are given up: any number of users of /dev/kmsg, syslog, and the console. Each has a cursor.
All of them hold `logbuf_lock` while they use it, so that the system takes one step after the
other: a call of `log_store`, a call of one of the file operations of /dev/kmsg, one turn of
the loop of `syslog_print` or of that of `console_unlock` (`kernel/printk.c`).
-/

namespace Gray386.Printk

open Gray386.Machine

/-- `struct devkmsg_user`, without its buffer and its lock. -/
structure DevkmsgUser where
  cursor : Cursor
  prev : LogFlags
  deriving DecidableEq

/-- The log and all cursors; `users` has the open files. -/
structure Kmsg (ι : Type) where
  log : Log
  clear : Cursor
  console : Cursor
  consolePrev : LogFlags
  syslog : Cursor
  syslogPrev : LogFlags
  syslogPartial : Nat
  users : ι → Option DevkmsgUser

inductive Whence where
  | seekSet | seekData | seekEnd | other
  deriving DecidableEq

/-- What a step shows to its caller: an error, that there are records, or bytes. -/
inductive Seen where
  | nothing | badf | spipe | inval | again | pipe | fault | ready
  | bytes (text : List Byte)
  | console (level : BitVec 3) (text : List Byte)
  deriving DecidableEq

/-- The steps of the system, with what they depend on. -/
inductive KmsgStep (ι : Type) where
  | logStore (call : StoreCall)
  /-- The memory for `struct devkmsg_user` is not cleared, so `prev` is arbitrary. -/
  | devkmsgOpen (user : ι) (prev : LogFlags)
  | devkmsgRelease (user : ι)
  /-- A read that does not wait; `fault` says that `copy_to_user` fails. -/
  | devkmsgRead (user : ι) (count : Nat) (fault : Bool)
  | devkmsgLlseek (user : ι) (offset : Int) (whence : Whence)
  | devkmsgPoll (user : ι)
  /--
  One turn of `syslog_print`; `started` says that it has copied something before, and `fault`
  that `copy_to_user` fails.
  -/
  | syslogPrint (size : Nat) (started fault : Bool)
  /-- The beginning and the end of `syslog_print_all`, where `clear_seq` is assigned. -/
  | clearCatchUp
  | clear
  /-- One turn of the loop of `console_unlock`. -/
  | consoleUnlock

/-- `LOG_LINE_MAX + PREFIX_MAX`. -/
def textSize : Nat := 1024

/--
The end of a turn of `syslog_print`, when the position has been moved: EFAULT is returned only
if nothing has been copied before, and no bytes need no copy.
-/
def copied (text : List Byte) (started fault : Bool) : Seen :=
  if fault ∧ text ≠ [] then (if started then .nothing else .fault) else .bytes text

variable {ι : Type} [DecidableEq ι]

namespace Kmsg

def setUser (kmsg : Kmsg ι) (user : ι) (state : Option DevkmsgUser) : Kmsg ι :=
  { kmsg with users := Function.update kmsg.users user state }

/-- `devkmsg_read`, from the test for new records on. -/
def devkmsgRead (kmsg : Kmsg ι) (who : ι) (count : Nat) (fault : Bool) : Seen × Kmsg ι :=
  match kmsg.users who with
  | none => (.badf, kmsg)
  | some user =>
      if user.cursor.seq = kmsg.log.logNextSeq then (.again, kmsg)
      else if user.cursor.seq < kmsg.log.logFirstSeq then
        (.pipe, kmsg.setUser who (some { user with cursor := kmsg.log.firstCursor }))
      else
        let msg := kmsg.log.recordAt user.cursor.idx
        let line := exportRecord user.prev user.cursor.seq msg
        let kmsg := kmsg.setUser who (some ⟨kmsg.log.advance user.cursor, msg.flags⟩)
        if line.length > count then (.inval, kmsg)
        else if fault then (.fault, kmsg)
        else (.bytes line, kmsg)

/-- `devkmsg_llseek`. -/
def devkmsgLlseek (kmsg : Kmsg ι) (who : ι) (offset : Int) (whence : Whence) :
    Seen × Kmsg ι :=
  match kmsg.users who with
  | none => (.badf, kmsg)
  | some user =>
      if offset ≠ 0 then (.spipe, kmsg)
      else match whence with
        | .seekSet =>
            (.nothing, kmsg.setUser who (some { user with cursor := kmsg.log.firstCursor }))
        | .seekData => (.nothing, kmsg.setUser who (some { user with cursor := kmsg.clear }))
        | .seekEnd =>
            (.nothing, kmsg.setUser who (some { user with cursor := kmsg.log.nextCursor }))
        | .other => (.inval, kmsg)

/-- `devkmsg_poll`; the second assignment to `ret` takes the error bits back. -/
def devkmsgPoll (kmsg : Kmsg ι) (who : ι) : Seen :=
  match kmsg.users who with
  | none => .badf
  | some user => if user.cursor.seq < kmsg.log.logNextSeq then .ready else .nothing

/-- "messages are gone, move to first one", for syslog. -/
def syslogCatchUp (kmsg : Kmsg ι) : Kmsg ι :=
  if kmsg.syslog.seq < kmsg.log.logFirstSeq then
    { kmsg with syslog := kmsg.log.firstCursor, syslogPrev := 0, syslogPartial := 0 }
  else kmsg

/-- One turn of `syslog_print`, behind the test for lost messages. -/
def syslogNext (printkTime : Bool) (kmsg : Kmsg ι) (size : Nat) (started fault : Bool) :
    Seen × Kmsg ι :=
  if kmsg.syslog.seq = kmsg.log.logNextSeq then (.nothing, kmsg)
  else
    let skip := kmsg.syslogPartial
    let msg := kmsg.log.recordAt kmsg.syslog.idx
    let text := msgPrintText ⟨printkTime, true⟩ msg kmsg.syslogPrev textSize
    if text.length - skip ≤ size then
      (copied (text.drop skip) started fault,
        { kmsg with
          syslog := kmsg.log.advance kmsg.syslog
          syslogPrev := msg.flags
          syslogPartial := 0 })
    else if !started then
      (copied ((text.drop skip).take size) started fault,
        { kmsg with syslogPartial := skip + size })
    else (.nothing, kmsg)

/-- "messages are gone, move to first one", for the console. -/
def consoleCatchUp (kmsg : Kmsg ι) : Kmsg ι :=
  if kmsg.console.seq < kmsg.log.logFirstSeq then
    { kmsg with console := kmsg.log.firstCursor, consolePrev := 0 }
  else kmsg

/-- The records that are skipped because they have been printed already. -/
def consoleSkip : Nat → Kmsg ι → Kmsg ι
  | 0, kmsg => kmsg
  | turns + 1, kmsg =>
      if kmsg.console.seq = kmsg.log.logNextSeq then kmsg
      else
        let msg := kmsg.log.recordAt kmsg.console.idx
        if msg.flags.has logNocons then
          consoleSkip turns
            { kmsg with
              log := kmsg.log.clearFlags kmsg.console.idx logNocons
              console := kmsg.log.advance kmsg.console
              consolePrev := msg.flags &&& ~~~logNocons }
        else kmsg

/-- One turn of `console_unlock`, behind the label `skip`. -/
def consoleNext (printkTime : Bool) (kmsg : Kmsg ι) : Seen × Kmsg ι :=
  if kmsg.console.seq = kmsg.log.logNextSeq then (.nothing, kmsg)
  else
    let msg := kmsg.log.recordAt kmsg.console.idx
    (.console msg.level (msgPrintText ⟨printkTime, false⟩ msg kmsg.consolePrev textSize),
      { kmsg with console := kmsg.log.advance kmsg.console, consolePrev := msg.flags })

/-- One step. -/
def step (printkTime : Bool) (kmsg : Kmsg ι) : KmsgStep ι → Seen × Kmsg ι
  | .logStore call => (.nothing, { kmsg with log := kmsg.log.logStore call })
  | .devkmsgOpen user prev => (.nothing, kmsg.setUser user (some ⟨kmsg.log.firstCursor, prev⟩))
  | .devkmsgRelease user => (.nothing, kmsg.setUser user none)
  | .devkmsgRead user count fault => kmsg.devkmsgRead user count fault
  | .devkmsgLlseek user offset whence => kmsg.devkmsgLlseek user offset whence
  | .devkmsgPoll user => (kmsg.devkmsgPoll user, kmsg)
  | .syslogPrint size started fault =>
      kmsg.syslogCatchUp.syslogNext printkTime size started fault
  | .clearCatchUp =>
      (.nothing, if kmsg.clear.seq < kmsg.log.logFirstSeq then
        { kmsg with clear := kmsg.log.firstCursor } else kmsg)
  | .clear => (.nothing, { kmsg with clear := kmsg.log.nextCursor })
  | .consoleUnlock =>
      let kmsg := kmsg.consoleCatchUp
      (kmsg.consoleSkip (kmsg.log.logNextSeq - kmsg.console.seq)).consoleNext printkTime

/-- The static variables when the kernel starts. -/
def initial (buffer : Buffer) (length : Nat) : Kmsg ι :=
  ⟨Log.empty buffer length, ⟨0, 0⟩, ⟨0, 0⟩, 0, ⟨0, 0⟩, 0, 0, fun _ => none⟩

end Kmsg

end Gray386.Printk
