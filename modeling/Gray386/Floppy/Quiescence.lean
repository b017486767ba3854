import Gray386.Floppy.CallGraph

/-!
# When the bottom half leaves the lock alone

The bottom half clears `fdc_busy` in `redo_fd_request` only, when there are no requests
left. It is called directly, through `cont->redo`, from a timer and as `floppy_work`.
`Quiet` and `Quiescent` say that no such call is stored anywhere and that none is under
way. Every statement and every interrupt preserves this, with one exception. When the
timeout of a command expires and there is no `cont`, `floppy_shutdown` starts to serve
requests, no matter who has set `fdc_busy`.

After the controller has been released the driver is quiescent too, unless a second
`redo_fd_request` has been queued, which `unlock_fdc` does not take back.
-/

namespace Gray386.Floppy

open Gray386.Machine

/-- The calls that serve requests and release the controller in the end. -/
def IsRedo (call : Call) : Prop :=
  call = .call .doRequest ∨ call = .call (.handler .redoFdRequest)

theorem not_isRedo_of_ordinary {call : Call} (ordinary : Ordinary call) : ¬IsRedo call := by
  rintro (rfl | rfl)
  · exact ordinary.2.1 rfl
  · exact ordinary.2.2 rfl

/-- Nothing is stored that will serve requests. -/
def State.Quiet (st : State) : Prop :=
  st.cont ≠ some .rw ∧ st.cont ≠ some .intr ∧ st.floppyWork ≠ some .redoFdRequest ∧
    st.fdTimer ≠ some .redoFdRequest ∧ st.doFloppy ≠ some .redoFdRequest

/-- The lock is left alone, and a quiet driver stays quiet. -/
def Keeps (st next : State) : Prop :=
  next.fdcBusy = st.fdcBusy ∧ (st.Quiet → next.Quiet)

theorem Keeps.refl (st : State) : Keeps st st :=
  ⟨rfl, id⟩

theorem Keeps.trans {first second third : State} (left : Keeps first second)
    (right : Keeps second third) : Keeps first third :=
  ⟨right.1.trans left.1, right.2 ∘ left.2⟩

theorem fdcBusy_scheduleBh (st : State) (handler : Handler) :
    (st.scheduleBh handler).fdcBusy = st.fdcBusy := by
  simp only [State.scheduleBh]
  split_ifs <;> rfl

theorem keeps_take (item : WorkItem) (st : State) : Keeps st (take item st) := by
  cases item with
  | floppyWork =>
      refine ⟨rfl, ?_⟩
      rintro ⟨notRw, notIntr, -, timer, stored⟩
      exact ⟨notRw, notIntr, by simp [take], timer, stored⟩
  | fdTimer =>
      refine ⟨rfl, ?_⟩
      rintro ⟨notRw, notIntr, work, -, stored⟩
      exact ⟨notRw, notIntr, work, by simp [take], stored⟩
  | fdTimeout => exact Keeps.refl st

namespace Keeps

variable (input : Input) {st mid : State} (kept : Keeps st mid)

include kept

theorem outputBytes (count : Nat) : Keeps st (mid.outputBytes input count).2 := by
  apply kept.trans
  simp only [State.outputBytes]
  split_ifs <;> exact refl mid

theorem result : Keeps st (mid.result input).2 := by
  apply kept.trans
  simp only [State.result]
  split_ifs <;> exact refl mid

theorem diskChange : Keeps st (mid.diskChange input).2 := by
  apply kept.trans
  simp only [State.diskChange]
  split_ifs <;> exact refl mid

theorem setDor : Keeps st (mid.setDor input) := by
  simp only [State.setDor]
  split_ifs
  · exact kept.diskChange _
  · exact kept

theorem checkWp : Keeps st (mid.checkWp input) := by
  have replied := (kept.outputBytes input 2).result input
  simp only [State.checkWp]
  generalize (mid.outputBytes input 2).2.result input = reply at replied ⊢
  split_ifs
  · split <;> exact replied
  · exact kept

theorem scheduleBh {handler : Handler} (ne : handler ≠ .redoFdRequest) :
    Keeps st (mid.scheduleBh handler) := by
  apply kept.trans
  simp only [State.scheduleBh]
  split_ifs
  · exact refl mid
  · refine ⟨rfl, ?_⟩
    rintro ⟨notRw, notIntr, -, timer, stored⟩
    exact ⟨notRw, notIntr, by simpa using ne, timer, stored⟩

theorem doFloppy {handler : Handler} (ne : handler ≠ .redoFdRequest) :
    Keeps st { mid with doFloppy := some handler } := by
  apply kept.trans
  refine ⟨rfl, ?_⟩
  rintro ⟨notRw, notIntr, work, timer, -⟩
  exact ⟨notRw, notIntr, work, timer, by simpa using ne⟩

theorem fdTimer {handler : Handler} (ne : handler ≠ .redoFdRequest) :
    Keeps st { mid with fdTimer := some handler } := by
  apply kept.trans
  refine ⟨rfl, ?_⟩
  rintro ⟨notRw, notIntr, work, -, stored⟩
  exact ⟨notRw, notIntr, work, by simpa using ne, stored⟩

theorem cont {cont : Option Cont} (notRw : cont ≠ some .rw) (notIntr : cont ≠ some .intr) :
    Keeps st { mid with cont := cont } := by
  apply kept.trans
  refine ⟨rfl, ?_⟩
  rintro ⟨-, -, work, timer, stored⟩
  exact ⟨notRw, notIntr, work, timer, stored⟩

theorem resetFdc : Keeps st mid.resetFdc :=
  kept.doFloppy (show Handler.resetInterrupt ≠ .redoFdRequest by decide)

theorem cancelActivity : Keeps st mid.cancelActivity := by
  apply kept.trans
  refine ⟨rfl, ?_⟩
  rintro ⟨notRw, notIntr, work, -, -⟩
  exact ⟨notRw, notIntr, work, by simp [State.cancelActivity], by simp [State.cancelActivity]⟩

theorem fdWaitForCompletion (elapsed : Bool) {function : Handler}
    (ne : function ≠ .redoFdRequest) :
    Keeps st (mid.fdWaitForCompletion elapsed function).2 := by
  simp only [State.fdWaitForCompletion]
  split_ifs
  · exact kept.resetFdc
  · exact kept
  · exact kept.fdTimer ne

theorem startMotor {function : Handler} (ne : function ≠ .redoFdRequest) :
    Keeps st (mid.startMotor input function).2 :=
  (kept.setDor input).fdWaitForCompletion input.elapsed ne

theorem fdcDtr (cmd : RawCmd) : Keeps st (mid.fdcDtr input cmd).2 := by
  simp only [State.fdcDtr]
  split_ifs
  · exact kept
  · have set : Keeps st { mid with dtr := cmd.rate &&& 3 } := kept
    exact set.fdWaitForCompletion _ (by decide)

theorem requestDone (uptodate : Bool) : Keeps st (requestDone input mid uptodate) := by
  simp only [Floppy.requestDone]
  split_ifs <;> exact kept

theorem genericDone (result : Bool) : Keeps st (genericDone mid result) :=
  kept.cont (show some Cont.wakeup ≠ some .rw by decide)
    (show some Cont.wakeup ≠ some .intr by decide)

theorem doWakeup : Keeps st (doWakeup mid) :=
  kept.cont (show none ≠ some Cont.rw by decide) (show none ≠ some Cont.intr by decide)

end Keeps

/-- A function lets a quiet driver be. -/
def Steady (st : State) : Outcome → Prop
  | none => True
  | some (next, _) => Keeps st next

section Functions

variable (input : Input) (st : State)

theorem steady_fdWatchdog : Steady st (fdWatchdog input st) := by
  have read := (Keeps.refl st).diskChange input
  simp only [fdWatchdog]
  split_ifs
  · exact read.cancelActivity
  · exact read.fdTimer (by decide)

theorem steady_setupRwFloppy : Steady st (setupRwFloppy input st) := by
  have function : (if input.longSpinup then Handler.floppyStart else .setupRwFloppy) ≠
      .redoFdRequest := by
    split_ifs <;> decide
  have waited := (Keeps.refl st).fdWaitForCompletion input.elapsed function
  simp only [setupRwFloppy]
  split
  · trivial
  · generalize st.fdWaitForCompletion input.elapsed _ = completed at waited ⊢
    split_ifs <;> first | exact waited | exact Keeps.refl st

theorem steady_rwCommand (flags : Word) : Steady st (rwCommand input st flags) := by
  have stored : Keeps st { st with doFloppy := some .mainCommandInterrupt } :=
    (Keeps.refl st).doFloppy (by decide)
  simp only [rwCommand]
  split
  · trivial
  · split_ifs <;>
      first
      | exact stored.outputBytes input _
      | exact (stored.outputBytes input _).result input
      | exact (Keeps.refl st).outputBytes input _
      | exact ((Keeps.refl st).outputBytes input _).result input

/-- A command whose end is signalled by an interrupt. If it cannot be sent there is a reset. -/
theorem steady_sent {st mid : State} (kept : Keeps st mid) {handler : Handler}
    (ne : handler ≠ .redoFdRequest) (count : Nat) :
    Steady st (some
      (if ({ mid with doFloppy := some handler }.outputBytes input count).1 then
        ({ mid with doFloppy := some handler }.outputBytes input count).2
      else ({ mid with doFloppy := some handler }.outputBytes input count).2.resetFdc, [])) := by
  have sent := (kept.doFloppy ne).outputBytes input count
  split_ifs
  · exact sent
  · exact sent.resetFdc

theorem steady_seek {st mid : State} (kept : Keeps st mid) : Steady st (seek input mid) :=
  steady_sent input kept (show Handler.seekInterrupt ≠ .redoFdRequest by decide) 3

theorem steady_recalibrateFloppy {st mid : State} (kept : Keeps st mid) :
    Steady st (recalibrateFloppy input mid) :=
  steady_sent input kept (show Handler.recalInterrupt ≠ .redoFdRequest by decide) 2

theorem steady_seekFloppy : Steady st (seekFloppy input st) := by
  have same : Keeps st { st with blindSeek := false } := Keeps.refl st
  have read := same.diskChange input
  have looked : Keeps st (if st.drive.newChange then (false, { st with blindSeek := false })
      else { st with blindSeek := false }.diskChange input).2 := by
    split_ifs
    · exact same
    · exact read
  simp only [seekFloppy]
  split
  · trivial
  · generalize (if st.drive.newChange then (false, { st with blindSeek := false })
      else { st with blindSeek := false }.diskChange input) = change at looked ⊢
    split_ifs
    · exact looked
    · exact steady_recalibrateFloppy input looked
    · exact steady_seek input (looked.setDor input)
    · exact steady_seek input looked
    · exact steady_seek input (looked.checkWp input)
    · exact looked.checkWp input

theorem steady_floppyReady : Steady st (floppyReady input st) := by
  have started : Keeps st (st.startMotor input .floppyReady).2 :=
    (Keeps.refl st).startMotor input (by decide)
  have reset := (Keeps.refl st).resetFdc
  simp only [floppyReady]
  cases st.rawCmd with
  | nil => split_ifs <;> first | exact reset | trivial
  | cons cmd next =>
      have rated := started.fdcDtr input cmd
      simp only
      split_ifs <;>
        first
        | exact reset
        | exact started
        | exact rated
        | exact rated.diskChange input

theorem steady_rawCmdDone (flag : Bool) : Steady st (rawCmdDone input st flag) := by
  have read := (Keeps.refl st).diskChange input
  simp only [rawCmdDone]
  split
  · trivial
  · split_ifs <;>
      first
      | exact read.setDor input
      | exact read
      | exact (read.setDor input).genericDone true
      | exact read.genericDone true
      | exact (Keeps.refl st).genericDone false

theorem steady_contDone (result : Bool) : Steady st (contDone input st result) := by
  have same := Keeps.refl st
  simp only [contDone]
  split
  · trivial
  · exact same
  · exact same
  · exact same.genericDone result
  · exact same.genericDone result
  · exact same.genericDone result
  · exact same.requestDone input result
  · exact steady_rawCmdDone input st result

theorem keeps_interpretErrors : Keeps st (interpretErrors st).1 := by
  simp only [interpretErrors]
  split_ifs <;> exact Keeps.refl st

/--
Apart from the service of requests, and from `floppy_shutdown` when there is no `cont`,
every statement leaves the lock and a quiet driver alone.
-/
theorem steady_exec {code : Code} (notRedo : ¬IsRedo (.call code))
    (notShutdown : code = .shutdownRest → st.cont ≠ none) : Steady st (exec input st code) := by
  have same := Keeps.refl st
  cases code with
  | doRequest => exact absurd (Or.inl rfl) notRedo
  | handler handler =>
      cases handler with
      | redoFdRequest => exact absurd (Or.inr rfl) notRedo
      | fdWatchdog => exact steady_fdWatchdog input st
      | setupRwFloppy => exact steady_setupRwFloppy input st
      | floppyReady => exact steady_floppyReady input st
      | seekInterrupt =>
          simp only [exec, execHandler, seekInterrupt]
          split_ifs <;> exact same
      | recalInterrupt =>
          simp only [exec, execHandler, recalInterrupt]
          split_ifs <;> exact same
      | resetInterrupt =>
          simp only [exec, execHandler, resetInterrupt]
          split_ifs <;> exact same.result input
      | resetFdc => exact same.resetFdc
      | floppyStart | redoFormat => exact same
      | mainCommandInterrupt => exact keeps_take .fdTimer st
  | interrupt =>
      simp only [exec, contInterrupt]
      split <;> first | exact same | trivial
  | redo =>
      simp only [exec, contRedo]
      split
      · trivial
      · exact same.doWakeup
      next isIntr =>
        exact ⟨fdcBusy_scheduleBh _ _, fun quiet => absurd isIntr quiet.2.1⟩
      all_goals exact same
  | error =>
      simp only [exec, contError]
      split <;> first | exact same | trivial
  | done result => exact steady_contDone input st result
  | formatInterrupt =>
      have interpreted := keeps_interpretErrors st
      simp only [exec, formatInterrupt]
      split <;> exact interpreted
  | rwInterrupt =>
      have interpreted := keeps_interpretErrors st
      simp only [exec, rwInterrupt]
      split_ifs <;> first | exact same | exact interpreted
  | badFlpIntr =>
      simp only [exec, badFlpIntr]
      split_ifs <;> exact same
  | tallyError count =>
      simp only [exec, tallyError]
      split_ifs <;> exact same
  | perpendicularMode =>
      simp only [exec, perpendicularMode]
      split
      · trivial
      · split_ifs <;> exact same
  | seekFloppy => exact steady_seekFloppy input st
  | setupDma =>
      simp only [exec, setupDma]
      split
      · trivial
      · split_ifs <;> exact same
  | rwCommand flags => exact steady_rwCommand input st flags
  | floppyShutdown => exact same.cancelActivity
  | shutdownRest =>
      simp only [exec, shutdownRest]
      split
      next noCont => exact absurd noCont (notShutdown rfl)
      next => exact same
  | successAndWakeup | needRecal | specifyAndSeek | setReset => exact same

theorem keeps_sensei (inputs : Nat → Input) (count : Nat) {st mid : State}
    (kept : Keeps st mid) : Keeps st (sensei inputs count mid) := by
  induction count generalizing mid with
  | zero => exact kept
  | succ count ih =>
      have replied := (kept.outputBytes (inputs (count + 1)) 1).result (inputs (count + 1))
      simp only [sensei]
      split_ifs
      · exact ih replied
      · exact replied

theorem keeps_floppyInterrupt (inputs : Nat → Input) : Keeps st (floppyInterrupt inputs st) := by
  have taken : Keeps st { st with doFloppy := none, reset := false } := by
    refine ⟨rfl, ?_⟩
    rintro ⟨notRw, notIntr, work, timer, -⟩
    exact ⟨notRw, notIntr, work, timer, by simp⟩
  have replied := taken.result (inputs 0)
  simp only [floppyInterrupt]
  generalize { st with doFloppy := none, reset := false }.result (inputs 0) = reply
    at replied ⊢
  have numbered : Keeps st { reply.2 with inr := reply.1 } := replied
  have polled : Keeps st (if reply.1 = 0 then sensei inputs 4 { reply.2 with inr := reply.1 }
      else { reply.2 with inr := reply.1 }) := by
    split_ifs
    · exact keeps_sensei inputs 4 numbered
    · exact numbered
  split
  · exact polled
  next handler stored =>
    refine ⟨(fdcBusy_scheduleBh _ handler).trans polled.1, ?_⟩
    intro quiet
    have ne : handler ≠ .redoFdRequest := by
      rintro rfl
      exact quiet.2.2.2.2 stored
    exact (polled.scheduleBh ne).2 quiet

end Functions

/-- Nothing that serves requests is stored or under way. -/
def Quiescent (worker : Worker State WorkItem Code) : Prop :=
  worker.state.Quiet ∧ ∀ call ∈ worker.stack, ¬IsRedo call

/-- While the driver is quiet, only a call that serves requests leads to another one. -/
theorem not_isRedo_of_mem {input : Input} {st next : State} {code : Code} {calls : List Call}
    (quiet : st.Quiet) (notRedo : ¬IsRedo (.call code))
    (executed : exec input st code = some (next, calls)) : ∀ call ∈ calls, ¬IsRedo call := by
  by_cases special : Special input st code
  · cases code with
    | doRequest => exact absurd (Or.inl rfl) notRedo
    | redo => exact absurd special quiet.1
    | floppyShutdown =>
        simp only [exec, floppyShutdown, Option.some.injEq, Prod.mk.injEq] at executed
        simp [← executed.2, IsRedo]
    | handler handler =>
        cases handler with
        | redoFdRequest => exact absurd (Or.inr rfl) notRedo
        | fdWatchdog =>
            have waited := (fdWatchdog_of_changed special).symm.trans executed
            simp only [Option.some.injEq, Prod.mk.injEq] at waited
            simp [← waited.2, IsRedo]
        | _ => exact special.elim
    | _ => exact special.elim
  · have orderly := orderly_exec input st special
    rw [executed] at orderly
    intro call call_mem
    exact not_isRedo_of_ordinary (orderly call call_mem)

/-- A step that is no disturbance to a quiescent driver, and that releases to a quiescent one. -/
def Tame (worker next : Worker State WorkItem Code) : Prop :=
  (Quiescent worker → Quiescent next ∧ next.state.fdcBusy = worker.state.fdcBusy) ∧
    (next.state.fdcBusy = worker.state.fdcBusy ∨ Quiescent next)

theorem tame_of_keeps {worker next : Worker State WorkItem Code}
    (kept : Keeps worker.state next.state)
    (calm : Quiescent worker → ∀ call ∈ next.stack, ¬IsRedo call) : Tame worker next := by
  refine ⟨?_, Or.inl kept.1⟩
  intro quiescent
  exact ⟨⟨kept.2 quiescent.1, calm quiescent⟩, kept.1⟩

theorem tame_refl (worker : Worker State WorkItem Code) : Tame worker worker :=
  tame_of_keeps (Keeps.refl worker.state) fun quiescent => quiescent.2

theorem tame_interrupt (worker : Worker State WorkItem Code) (inputs : Nat → Input) :
    Tame worker (worker.step floppyWq (.act (.floppyInterrupt inputs))) :=
  tame_of_keeps (keeps_floppyInterrupt worker.state inputs) fun quiescent => quiescent.2

theorem not_isRedo_of_pending {st : State} {item : WorkItem} {code : Code} (quiet : st.Quiet)
    (queued : pending st item = some code) : ¬IsRedo (.call code) := by
  rcases quiet with ⟨-, -, work, timer, -⟩
  cases item with
  | floppyWork =>
      rcases Option.map_eq_some_iff.mp queued with ⟨handler, stored, rfl⟩
      simpa [IsRedo, stored] using work
  | fdTimer =>
      rcases Option.map_eq_some_iff.mp queued with ⟨handler, stored, rfl⟩
      simpa [IsRedo, stored] using timer
  | fdTimeout =>
      simp only [pending, Option.ite_none_right_eq_some] at queued
      simp [← Option.some.inj queued.2, IsRedo]

theorem tame_dispatch (worker : Worker State WorkItem Code) (item : WorkItem) :
    Tame worker (worker.step floppyWq (.dispatch item)) := by
  simp only [Worker.step]
  split
  next queued =>
    apply tame_of_keeps (keeps_take item worker.state)
    intro quiescent call call_mem
    rw [List.mem_singleton.mp call_mem]
    exact not_isRedo_of_pending quiescent.1 queued
  next => exact tame_refl worker

/--
What must not happen in a step of the running item: that the timeout of a command expires
when there is no `cont`, and that the controller is released while a `redo_fd_request` is
still queued or under way.
-/
def OnTime (worker : Worker State WorkItem Code) (input : Input) : Prop :=
  match worker.stack with
  | .call .shutdownRest :: _ => worker.state.cont ≠ none
  | .call .doRequest :: rest =>
      worker.state.currentReq = false → input.requestPending = false →
        worker.state.floppyWork ≠ some .redoFdRequest ∧
          worker.state.fdTimer ≠ some .redoFdRequest ∧ ∀ call ∈ rest, ¬IsRedo call
  | _ => True

theorem fdcBusy_startMotor (input : Input) (st : State) (function : Handler) :
    (st.startMotor input function).2.fdcBusy = st.fdcBusy := by
  have selected := ((Keeps.refl st).setDor input).1
  simp only [State.startMotor, State.fdWaitForCompletion]
  split_ifs <;> exact selected

/-- As long as there are requests the controller is not released. -/
theorem fdcBusy_doRequest (input : Input) (st : State)
    (requests : (!st.currentReq && !input.requestPending) = false) {outcome : State × List Call}
    (served : doRequest input st = some outcome) : outcome.1.fdcBusy = st.fdcBusy := by
  simp only [doRequest, requests, Bool.false_eq_true, if_false] at served
  generalize motor_eq : State.startMotor _ input .redoFdRequest = motor at served
  have busy : motor.2.fdcBusy = st.fdcBusy := by
    rw [← motor_eq]
    exact fdcBusy_startMotor input _ .redoFdRequest
  have read := (Keeps.refl motor.2).diskChange input
  split_ifs at served <;> cases served
  · exact busy
  · exact (read.requestDone input false).1.trans busy
  · exact (read.requestDone input false).1.trans busy
  · have made : Keeps motor.2 (makeRawRwRequest input { (motor.2.diskChange input).2 with
        probing := !input.floppyKnown
        errors := input.requestErrors }) := read
    exact (made.requestDone input _).1.trans busy
  · exact (fdcBusy_scheduleBh _ .floppyStart).trans (read.1.trans busy)

theorem doRequest_of_idle {input : Input} {st : State} (noCurrent : st.currentReq = false)
    (noPending : input.requestPending = false) :
    doRequest input st = some (st.unlockFdc, []) := by
  simp [doRequest, noCurrent, noPending]

/-- The last request has been served, and the lock is released. -/
theorem quiescent_unlock {worker : Worker State WorkItem Code} {rest : List Call}
    (work : worker.state.floppyWork ≠ some .redoFdRequest)
    (timer : worker.state.fdTimer ≠ some .redoFdRequest) (noRedo : ∀ call ∈ rest, ¬IsRedo call) :
    Quiescent { worker with state := worker.state.unlockFdc, stack := rest } :=
  ⟨⟨by simp [State.unlockFdc], by simp [State.unlockFdc], work, timer,
    by simp [State.unlockFdc]⟩, noRedo⟩

theorem tame_call {worker : Worker State WorkItem Code} {input : Input} {code : Code}
    {rest calls : List Call} {next : State} (onTime : OnTime worker input)
    (stack : worker.stack = .call code :: rest)
    (executed : exec input worker.state code = some (next, calls)) :
    Tame worker { worker with state := next, stack := calls ++ rest } := by
  simp only [OnTime, stack] at onTime
  by_cases redo : IsRedo (.call code)
  · -- the service of requests is under way, so only the lock is in question
    have notQuiescent : ¬Quiescent worker := by
      rintro ⟨-, noRedo⟩
      exact noRedo _ (stack ▸ List.mem_cons_self) redo
    refine ⟨fun quiescent => absurd quiescent notQuiescent, ?_⟩
    rcases redo with isDoRequest | isRedoFdRequest
    · cases isDoRequest
      by_cases idle : worker.state.currentReq = false ∧ input.requestPending = false
      · rcases idle with ⟨noCurrent, noPending⟩
        rcases onTime noCurrent noPending with ⟨work, timer, noRedo⟩
        cases (doRequest_of_idle noCurrent noPending).symm.trans executed
        exact Or.inr (quiescent_unlock work timer noRedo)
      · refine Or.inl (fdcBusy_doRequest input worker.state ?_ executed)
        simpa [imp_iff_not_or] using idle
    · cases isRedoFdRequest
      cases executed
      exact Or.inl rfl
  · have notShutdown : code = .shutdownRest → worker.state.cont ≠ none := by
      rintro rfl
      exact onTime
    have kept : Keeps worker.state next := by
      have steady := steady_exec input worker.state redo notShutdown
      rwa [executed] at steady
    apply tame_of_keeps kept
    rintro ⟨quiet, noRedo⟩ call call_mem
    rcases List.mem_append.mp call_mem with new | old
    · exact not_isRedo_of_mem quiet redo executed call new
    · exact noRedo call (stack ▸ List.mem_cons_of_mem _ old)

theorem tame_exec {worker : Worker State WorkItem Code} {input : Input}
    (onTime : OnTime worker input) : Tame worker (worker.step floppyWq (.exec input)) := by
  simp only [Worker.step]
  cases worker.running with
  | none => exact tame_refl worker
  | some item =>
      simp only [Worker.execute]
      split
      · exact tame_of_keeps (Keeps.refl worker.state) fun quiescent => quiescent.2
      next other rest stack =>
        split_ifs
        · exact tame_refl worker
        · apply tame_of_keeps (keeps_take other worker.state)
          rintro ⟨-, noRedo⟩ call call_mem
          exact noRedo call (stack ▸ List.mem_cons_of_mem _ call_mem)
      next code rest stack =>
        split
        · exact tame_refl worker
        next executed => exact tame_call onTime stack executed

end Gray386.Floppy
