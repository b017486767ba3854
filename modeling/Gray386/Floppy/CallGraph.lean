import Gray386.Floppy.Handlers

/-!
# The calls of the bottom half

Most calls lead from one function of the chain to the next. A few do more than that.
The watchdog and `floppy_shutdown` wait for `floppy_work`. `redo_fd_request`, which
`cont->redo` stands for while requests of the block layer are served, goes on to the
next request and releases the controller when there is none.

Here it is shown once, for every function, that it makes no such call unless it is one
of these few. Facts about the whole bottom half that depend on these calls need no
other look at the functions.
-/

namespace Gray386.Floppy

open Gray386.Machine

/-- Neither a wait nor the service of requests, nor the function that leads to both. -/
def Ordinary : Call → Prop
  | .call code => code ≠ .floppyShutdown ∧ code ≠ .doRequest ∧ code ≠ .handler .redoFdRequest
  | .cancelSync _ => False

/-- All calls of a statement are ordinary. -/
def Orderly : Outcome → Prop
  | none => True
  | some (_, calls) => ∀ call ∈ calls, Ordinary call

section Functions

variable (input : Input) (st : State)

theorem orderly_setupRwFloppy : Orderly (setupRwFloppy input st) := by
  simp only [setupRwFloppy]
  cases st.rawCmd with
  | nil => trivial
  | cons cmd next =>
      simp only
      split_ifs <;> simp [Orderly, Ordinary]

theorem orderly_rwCommand (flags : Word) : Orderly (rwCommand input st flags) := by
  simp only [rwCommand]
  cases st.rawCmd with
  | nil => trivial
  | cons cmd next =>
      simp only
      split_ifs <;> simp [Orderly, Ordinary]

theorem orderly_seekFloppy : Orderly (seekFloppy input st) := by
  simp only [seekFloppy]
  cases st.rawCmd with
  | nil => trivial
  | cons cmd next =>
      simp only
      split_ifs <;> simp [Orderly, Ordinary, recalibrateFloppy, seek]

theorem orderly_floppyReady : Orderly (floppyReady input st) := by
  simp only [floppyReady]
  cases st.rawCmd with
  | nil => split_ifs <;> simp [Orderly]
  | cons cmd next =>
      simp only
      split_ifs <;> simp [Orderly, Ordinary]

theorem ordinary_interpretErrors : ∀ call ∈ (interpretErrors st).2.1, Ordinary call := by
  simp only [interpretErrors]
  split_ifs <;> simp [Ordinary]

theorem orderly_formatInterrupt : Orderly (formatInterrupt st) := by
  have interpreted := ordinary_interpretErrors st
  simp only [formatInterrupt]
  generalize interpretErrors st = outcome at interpreted
  rcases outcome with ⟨next, calls, ret⟩
  simp only
  split <;> simp_all [Orderly, Ordinary, or_imp]

theorem orderly_rwInterrupt : Orderly (rwInterrupt input st) := by
  have interpreted := ordinary_interpretErrors st
  simp only [rwInterrupt]
  generalize interpretErrors st = outcome at interpreted
  rcases outcome with ⟨next, calls, ret⟩
  simp only
  split_ifs <;> simp_all [Orderly, Ordinary, or_imp]

theorem orderly_contDone (result : Bool) : Orderly (contDone input st result) := by
  simp only [contDone]
  cases st.cont with
  | none => trivial
  | some cont =>
      cases cont with
      | raw =>
          simp only [rawCmdDone]
          cases st.rawCmd with
          | nil => trivial
          | cons cmd next =>
              simp only
              split_ifs <;> simp [Orderly]
      | wakeup | intr | format | rw | poll | reset => simp [Orderly]

/-- The watchdog with a disk in the drive makes no call at all. -/
theorem orderly_fdWatchdog (inPlace : (st.diskChange input).1 = false) :
    Orderly (fdWatchdog input st) := by
  simp [fdWatchdog, inPlace, Orderly]

/-- The statements with calls that are not ordinary. -/
def Special : Code → Prop
  | .handler .fdWatchdog => (st.diskChange input).1 = true
  | .handler .redoFdRequest | .doRequest | .floppyShutdown => True
  | .redo => st.cont = some .rw
  | _ => False

/-- Every call of every other statement is ordinary. -/
theorem orderly_exec {code : Code} (notSpecial : ¬Special input st code) :
    Orderly (exec input st code) := by
  cases code with
  | floppyShutdown | doRequest => exact absurd trivial notSpecial
  | handler handler =>
      cases handler with
      | fdWatchdog => exact orderly_fdWatchdog input st (Bool.eq_false_iff.mpr notSpecial)
      | redoFdRequest => exact absurd trivial notSpecial
      | setupRwFloppy => exact orderly_setupRwFloppy input st
      | floppyReady => exact orderly_floppyReady input st
      | seekInterrupt =>
          simp only [exec, execHandler, seekInterrupt]
          split_ifs <;> simp [Orderly, Ordinary]
      | recalInterrupt =>
          simp only [exec, execHandler, recalInterrupt]
          split_ifs <;> simp [Orderly, Ordinary]
      | resetInterrupt =>
          simp only [exec, execHandler, resetInterrupt]
          split_ifs <;> simp [Orderly, Ordinary]
      | floppyStart | mainCommandInterrupt | resetFdc | redoFormat =>
          simp [exec, execHandler, floppyStart, mainCommandInterrupt, redoFormat, Orderly,
            Ordinary]
  | interrupt =>
      simp only [exec, contInterrupt]
      split <;> simp [Orderly, Ordinary]
  | redo =>
      have notRw : st.cont ≠ some .rw := notSpecial
      simp only [exec, contRedo]
      split <;> simp_all [Orderly, Ordinary]
  | error =>
      simp only [exec, contError]
      split <;> simp [Orderly, Ordinary]
  | done result => exact orderly_contDone input st result
  | formatInterrupt => exact orderly_formatInterrupt st
  | rwInterrupt => exact orderly_rwInterrupt input st
  | badFlpIntr =>
      simp only [exec, badFlpIntr]
      split_ifs <;> simp [Orderly, Ordinary]
  | perpendicularMode =>
      simp only [exec, perpendicularMode]
      cases st.rawCmd with
      | nil => trivial
      | cons cmd next =>
          simp only
          split_ifs <;> simp [Orderly, Ordinary]
  | seekFloppy => exact orderly_seekFloppy input st
  | setupDma =>
      simp only [exec, setupDma]
      cases st.rawCmd with
      | nil => trivial
      | cons cmd next =>
          simp only
          split_ifs <;> simp [Orderly, Ordinary]
  | rwCommand flags => exact orderly_rwCommand input st flags
  | shutdownRest =>
      simp only [exec, shutdownRest]
      split <;> simp [Orderly, Ordinary]
  | successAndWakeup | tallyError count | needRecal | specifyAndSeek | setReset =>
      simp [exec, successAndWakeup, Orderly, Ordinary]

theorem fdWatchdog_of_changed {input : Input} {st : State}
    (changed : (st.diskChange input).1 = true) :
    fdWatchdog input st = some ((st.diskChange input).2.cancelActivity,
      [.cancelSync .floppyWork, .call (.done false), .call (.handler .resetFdc)]) := by
  simp [fdWatchdog, changed]

theorem doRequest_calls {next : State} {calls : List Call}
    (served : doRequest input st = some (next, calls)) :
    ∀ call ∈ calls, call = .call .doRequest := by
  have within : ∀ outcome, doRequest input st = some outcome →
      ∀ call ∈ outcome.2, call = .call .doRequest := by
    simp only [doRequest]
    split_ifs <;> simp
  exact within _ served

end Functions

end Gray386.Floppy
