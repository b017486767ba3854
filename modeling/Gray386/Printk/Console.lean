import Mathlib.Data.List.Forall2
import Gray386.Printk.Delivery

/-!
# What the console prints

The loop of `console_unlock` prints the records that follow `console_seq`. Records with
`LOG_NOCONS` have been printed before they were stored, and are passed over; when records are
gone it goes on with the first one that is left (`kernel/printk.c`).

So after any run the records up to `console_seq` have been printed once each, in their order,
but for those with the flag and those that the buffer has lost.
-/

namespace Gray386.Printk

open Gray386.Machine

variable {ι : Type}

/-- What was given to the console drivers. -/
def consoleLines (seen : List Seen) : List (BitVec 3 × List Byte) :=
  seen.filterMap fun output => match output with
    | .console level text => some (level, text)
    | _ => none

theorem consoleLines_append (seen others : List Seen) :
    consoleLines (seen ++ others) = consoleLines seen ++ consoleLines others :=
  List.filterMap_append

/-- The flags that a record is printed after: those of the one before it, or none. -/
def ConsolePrev (calls : List StoreCall) (number : Nat) (prev : LogFlags) : Prop :=
  prev = 0 ∨ ∃ earlier, 0 < number ∧ calls[number - 1]? = some earlier ∧
    prev = earlier.record.plain.flags

/-- A line of the console is the text of a record. -/
def Printed (printkTime : Bool) (calls : List StoreCall) (number : Nat)
    (line : BitVec 3 × List Byte) : Prop :=
  ∃ call prev, calls[number]? = some call ∧ ConsolePrev calls number prev ∧
    line = (call.record.level,
      msgPrintText ⟨printkTime, false⟩ call.record prev textSize)

/-- The record was stored with `LOG_NOCONS`. -/
def WithNocons (calls : List StoreCall) (number : Nat) : Prop :=
  ∃ call, calls[number]? = some call ∧ call.record.flags.has logNocons

/-- Up to `console` every record has been printed, or is gone, or did not have to be. -/
structure Consoled (printkTime : Bool) (calls : List StoreCall) (gone console : Nat)
    (lines : List (BitVec 3 × List Byte)) (numbers : List Nat) : Prop where
  sorted : numbers.Pairwise (· < ·)
  below : ∀ number ∈ numbers, number < console
  printed : List.Forall₂ (Printed printkTime calls) numbers lines
  covered : ∀ number < console, number ∈ numbers ∨ number < gone ∨ WithNocons calls number

section Consoled

variable {printkTime : Bool} {calls : List StoreCall} {gone console : Nat}
  {lines : List (BitVec 3 × List Byte)} {numbers : List Nat}

theorem getElem?_append_of_some {calls : List StoreCall} {number : Nat} {call : StoreCall}
    (stored : calls[number]? = some call) (later : List StoreCall) :
    (calls ++ later)[number]? = some call := by
  rw [List.getElem?_append_left (List.getElem?_eq_some_iff.mp stored).1, stored]

theorem ConsolePrev.append {number : Nat} {prev : LogFlags} (before : ConsolePrev calls number prev)
    (later : List StoreCall) : ConsolePrev (calls ++ later) number prev := by
  rcases before with none | ⟨earlier, positive, stored, flags⟩
  · exact Or.inl none
  · exact Or.inr ⟨earlier, positive, getElem?_append_of_some stored later, flags⟩

theorem Printed.append {number : Nat} {line : BitVec 3 × List Byte}
    (printed : Printed printkTime calls number line) (later : List StoreCall) :
    Printed printkTime (calls ++ later) number line := by
  rcases printed with ⟨call, prev, stored, before, same⟩
  exact ⟨call, prev, getElem?_append_of_some stored later, before.append later, same⟩

namespace Consoled

theorem append (consoled : Consoled printkTime calls gone console lines numbers)
    (later : List StoreCall) {more : Nat} (lost : gone ≤ more) :
    Consoled printkTime (calls ++ later) more console lines numbers where
  sorted := consoled.sorted
  below := consoled.below
  printed := consoled.printed.imp fun _ _ printed => printed.append later
  covered := fun number before => by
    rcases consoled.covered number before with printed | old | ⟨call, stored, flag⟩
    · exact Or.inl printed
    · exact Or.inr (Or.inl (by omega))
    · exact Or.inr (Or.inr ⟨call, getElem?_append_of_some stored later, flag⟩)

/-- The console goes on with the first record that is left. -/
theorem catchUp (consoled : Consoled printkTime calls gone console lines numbers)
    (lost : console < gone) : Consoled printkTime calls gone gone lines numbers where
  sorted := consoled.sorted
  below := fun number mem => Nat.lt_trans (consoled.below number mem) lost
  printed := consoled.printed
  covered := fun _ before => Or.inr (Or.inl before)

theorem skip (consoled : Consoled printkTime calls gone console lines numbers)
    (flagged : WithNocons calls console) :
    Consoled printkTime calls gone (console + 1) lines numbers where
  sorted := consoled.sorted
  below := fun number mem => Nat.lt_succ_of_lt (consoled.below number mem)
  printed := consoled.printed
  covered := fun number before => by
    rcases Nat.lt_succ_iff_lt_or_eq.mp before with earlier | rfl
    · exact consoled.covered number earlier
    · exact Or.inr (Or.inr flagged)

theorem print (consoled : Consoled printkTime calls gone console lines numbers)
    {line : BitVec 3 × List Byte} (printed : Printed printkTime calls console line) :
    Consoled printkTime calls gone (console + 1) (lines ++ [line]) (numbers ++ [console]) where
  sorted := by
    rw [List.pairwise_append]
    refine ⟨consoled.sorted, List.pairwise_singleton _ _, fun number mem last => ?_⟩
    rintro here
    rw [List.mem_singleton.mp here]
    exact consoled.below number mem
  below := fun number mem => by
    rcases List.mem_append.mp mem with earlier | last
    · exact Nat.lt_succ_of_lt (consoled.below number earlier)
    · rw [List.mem_singleton.mp last]
      exact Nat.lt_succ_self _
  printed := List.rel_append consoled.printed (.cons printed .nil)
  covered := fun number before => by
    rcases Nat.lt_succ_iff_lt_or_eq.mp before with earlier | rfl
    · rcases consoled.covered number earlier with printed | rest
      · exact Or.inl (List.mem_append_left _ printed)
      · exact Or.inr rest
    · exact Or.inl (List.mem_append_right _ List.mem_cons_self)

end Consoled

end Consoled

theorem plain_flags {record : Record} (unflagged : record.flags.has logNocons = false) :
    record.plain.flags = record.flags := by
  revert unflagged
  change record.flags.has logNocons = false → record.flags &&& ~~~logNocons = record.flags
  generalize record.flags = flags
  revert flags
  decide

namespace Journal

/-- The records from `console` on are as they were stored. -/
structure ConsoleAt (printkTime : Bool) (calls : List StoreCall) (journal : Journal ι)
    (lines : List (BitVec 3 × List Byte)) : Prop where
  done : ∃ numbers, Consoled printkTime calls journal.gone journal.console lines numbers
  rest : journal.records.drop journal.console =
    (calls.map StoreCall.record).drop journal.console
  length : journal.records.length = calls.length
  bound : journal.console ≤ calls.length
  gone : journal.gone ≤ calls.length
  prev : ConsolePrev calls journal.console journal.consolePrev

namespace ConsoleAt

variable {printkTime : Bool} {calls : List StoreCall} {journal : Journal ι}
  {lines : List (BitVec 3 × List Byte)}

/-- The next record of the console is the one that was stored. -/
theorem stored (place : ConsoleAt printkTime calls journal lines) {record : Record}
    (found : journal.records[journal.console]? = some record) :
    ∃ call, calls[journal.console]? = some call ∧ call.record = record := by
  have first := congrArg List.head? place.rest
  rw [List.head?_drop, List.head?_drop, found, List.getElem?_map] at first
  exact Option.map_eq_some_iff.mp first.symm

theorem consoleCatchUp (place : ConsoleAt printkTime calls journal lines) :
    ConsoleAt printkTime calls journal.consoleCatchUp lines := by
  rw [Journal.consoleCatchUp]
  split_ifs with lost
  · rcases place.done with ⟨numbers, consoled⟩
    have rest := congrArg (List.drop (journal.gone - journal.console)) place.rest
    rw [List.drop_drop, List.drop_drop, Nat.add_sub_cancel' (Nat.le_of_lt lost)] at rest
    exact ⟨⟨numbers, consoled.catchUp lost⟩, rest, place.length, place.gone, place.gone, Or.inl rfl⟩
  · exact place

/-- The console clears the flag of a record only when it has passed it. -/
theorem consoleSkip (turns : Nat) (place : ConsoleAt printkTime calls journal lines) :
    ConsoleAt printkTime calls (journal.consoleSkip turns) lines := by
  induction turns generalizing journal with
  | zero => exact place
  | succ turns ih =>
      rw [Journal.consoleSkip]
      split
      · exact place
      · next msg found =>
        split_ifs with flag
        · rcases place.stored found with ⟨call, stored, rfl⟩
          rcases place.done with ⟨numbers, consoled⟩
          refine ih ⟨⟨numbers, consoled.skip ⟨call, stored, flag⟩⟩, ?_, ?_, ?_, place.gone, ?_⟩
          · have rest := congrArg (List.drop 1) place.rest
            rw [List.drop_drop, List.drop_drop] at rest
            rw [List.drop_set_of_lt (Nat.lt_succ_self _), rest]
          · rw [List.length_set, place.length]
          · exact (List.getElem?_eq_some_iff.mp stored).1
          · exact Or.inr ⟨call, Nat.succ_pos _, stored, rfl⟩
        · exact place

theorem consoleNext (place : ConsoleAt printkTime calls journal lines)
    (stops : ∀ record, journal.records[journal.console]? = some record →
      record.flags.has logNocons = false) :
    ConsoleAt printkTime calls (journal.consoleNext printkTime).2
      (lines ++ consoleLines [(journal.consoleNext printkTime).1]) := by
  rw [Journal.consoleNext]
  cases found : journal.records[journal.console]? with
  | none =>
      simp only [consoleLines, List.filterMap_cons, List.filterMap_nil, List.append_nil]
      exact place
  | some msg =>
      rcases place.stored found with ⟨call, stored, rfl⟩
      rcases place.done with ⟨numbers, consoled⟩
      have printed : Printed printkTime calls journal.console (call.record.level,
          msgPrintText ⟨printkTime, false⟩ call.record journal.consolePrev textSize) :=
        ⟨call, _, stored, place.prev, rfl⟩
      have rest := congrArg (List.drop 1) place.rest
      rw [List.drop_drop, List.drop_drop] at rest
      exact ⟨⟨_, consoled.print printed⟩, rest, place.length,
        (List.getElem?_eq_some_iff.mp stored).1, place.gone,
        Or.inr ⟨call, Nat.succ_pos _, stored, (plain_flags (stops _ found)).symm⟩⟩

/-- Other steps leave the console where it is; records may be stored, and some be lost. -/
theorem of_changes [DecidableEq ι] {gone : Nat} {input : KmsgStep ι} {next : Journal ι}
    (place : ConsoleAt printkTime calls journal lines)
    (changes : journal.Changes gone input next) (other : input ≠ .consoleUnlock)
    (lost : journal.gone ≤ gone) (bound : gone ≤ journal.records.length) :
    ConsoleAt printkTime (calls ++ storeCalls [input]) next lines := by
  cases changes with
  | store call =>
      rcases place.done with ⟨numbers, consoled⟩
      have calledOne : storeCalls [(.logStore call : KmsgStep ι)] = [call] := rfl
      rw [calledOne]
      refine ⟨⟨numbers, consoled.append _ lost⟩, ?_, ?_, ?_, ?_, place.prev.append _⟩
      · have inside : journal.console ≤ journal.records.length := by
          rw [place.length]
          exact place.bound
        have there : journal.console ≤ (calls.map StoreCall.record).length := by
          rw [List.length_map]
          exact place.bound
        rw [List.map_append, List.drop_append_of_le_length inside,
          List.drop_append_of_le_length there, place.rest]
        rfl
      · simp [place.length]
      · rw [List.length_append]
        exact Nat.le_add_right_of_le place.bound
      · rw [List.length_append, ← place.length]
        exact Nat.le_add_right_of_le bound
  | user about state =>
      rw [storeCalls_of_user about, List.append_nil]
      exact ⟨place.done, place.rest, place.length, place.bound, place.gone, place.prev⟩
  | syslog size started fault only =>
      rcases only with ⟨_, _, _, rfl⟩
      have none : storeCalls [(.syslogPrint size started fault : KmsgStep ι)] = [] := rfl
      rw [none, List.append_nil]
      exact ⟨place.done, place.rest, place.length, place.bound, place.gone, place.prev⟩
  | clear about clear =>
      have none : storeCalls [input] = [] := by
        rcases about with rfl | rfl <;> rfl
      rw [none, List.append_nil]
      exact ⟨place.done, place.rest, place.length, place.bound, place.gone, place.prev⟩
  | console => exact absurd rfl other

end ConsoleAt

/-- Where the console stops, the next record has to be printed. -/
theorem consoleSkip_stops (turns : Nat) {journal : Journal ι}
    (enough : journal.records.length - journal.console ≤ turns) {record : Record}
    (found : (journal.consoleSkip turns).records[(journal.consoleSkip turns).console]? =
      some record) : record.flags.has logNocons = false := by
  induction turns generalizing journal with
  | zero =>
      have inside := (List.getElem?_eq_some_iff.mp found).1
      rw [Journal.consoleSkip] at inside
      omega
  | succ turns ih =>
      rw [Journal.consoleSkip] at found
      split at found
      · next none =>
        rw [none] at found
        cases found
      · next msg here =>
        split_ifs at found with flag
        · refine ih ?_ found
          rw [List.length_set]
          change journal.records.length - (journal.console + 1) ≤ turns
          omega
        · rw [here] at found
          cases found
          exact Bool.eq_false_iff.mpr flag

/-- Only the console gives anything to its drivers. -/
theorem consoleLines_step [DecidableEq ι] (printkTime : Bool) (journal : Journal ι) (gone : Nat)
    {input : KmsgStep ι} (other : input ≠ .consoleUnlock) :
    consoleLines [(journal.step printkTime gone input).1] = [] := by
  cases input with
  | logStore | devkmsgOpen | devkmsgRelease | clearCatchUp | clear => rfl
  | devkmsgRead who count fault =>
      rw [step, devkmsgRead]
      split
      · rfl
      · split
        · rfl
        · split
          · rfl
          · dsimp only
            split_ifs <;> rfl
  | devkmsgLlseek who offset whence =>
      rw [step, devkmsgLlseek]
      split
      · rfl
      · split_ifs
        · rfl
        · cases whence <;> rfl
  | devkmsgPoll who =>
      rw [step, devkmsgPoll]
      split
      · rfl
      · dsimp only
        split_ifs <;> rfl
  | syslogPrint size started fault =>
      rw [step, syslogNext]
      split
      · rfl
      · dsimp only [copied]
        split_ifs <;> rfl
  | consoleUnlock => exact absurd rfl other

theorem consoleAt_step [DecidableEq ι] {printkTime : Bool} {calls : List StoreCall}
    {journal next : Journal ι} {lines : List (BitVec 3 × List Byte)} {input : KmsgStep ι}
    {seen : Seen} (place : ConsoleAt printkTime calls journal lines)
    (step : journal.Step printkTime input seen next) :
    ConsoleAt printkTime (calls ++ storeCalls [input]) next (lines ++ consoleLines [seen]) := by
  rcases step.changes with ⟨more, lost, bound, changes⟩
  rcases step with ⟨gone, -, -, stepped⟩
  by_cases console : input = .consoleUnlock
  · subst console
    have none : storeCalls [(.consoleUnlock : KmsgStep ι)] = [] := rfl
    rw [none, List.append_nil]
    have shown := (place.consoleCatchUp.consoleSkip _).consoleNext
      fun record found => consoleSkip_stops _ (Nat.le_refl _) found
    rw [Journal.step] at stepped
    rw [stepped] at shown
    exact shown
  · have quiet := consoleLines_step printkTime journal gone console
    rw [stepped] at quiet
    rw [quiet, List.append_nil]
    exact place.of_changes changes console lost bound

end Journal

variable [DecidableEq ι]

/--
After any run, there are lines on the console for a growing list of records, each with the
level and the text that it was stored with. All records before `console_seq` are in the list
but those with `LOG_NOCONS` and those that are gone.
-/
theorem Kmsg.consoleUnlock_prints (printkTime : Bool) (buffer : Buffer) {length : Nat}
    (header : sizeofLog ≤ length) (inputs : List (KmsgStep ι))
    (allowed : ∀ input ∈ inputs, Allowed length input) :
    let kmsg := stateAfter (step printkTime) (initial buffer length) inputs
    ∃ numbers, Consoled printkTime (storeCalls inputs) kmsg.log.logFirstSeq kmsg.console.seq
      (consoleLines (outputs (step printkTime) (initial buffer length) inputs)) numbers := by
  intro kmsg
  rcases (initial_shows buffer header).run printkTime allowed with ⟨last, run, shows⟩
  have place : last.ConsoleAt printkTime (storeCalls inputs)
      (consoleLines (outputs (step printkTime) (initial buffer length) inputs)) := by
    refine Behaves.invariant (fun past shown journal =>
      journal.ConsoleAt printkTime (storeCalls past) (consoleLines shown)) ?_ ?_ run
    · intro past shown journal input seen next place step
      rw [storeCalls_append, consoleLines_append]
      exact Journal.consoleAt_step place step
    · exact ⟨⟨[], .nil, nofun, .nil, nofun⟩, rfl, rfl, Nat.le_refl _, Nat.le_refl _, Or.inl rfl⟩
  rw [show kmsg.log.logFirstSeq = last.gone by rw [← shows.2]; rfl,
    show kmsg.console.seq = last.console by rw [← shows.2]; rfl]
  exact place.done

/-- Three records, of which the console prints the first one in time. -/
theorem Kmsg.consoleUnlock_prints_three :
    let inputs : List (KmsgStep Bool) := [.logStore (Log.shortCall 97), .consoleUnlock,
      .logStore (Log.shortCall 98), .logStore (Log.shortCall 99), .consoleUnlock]
    let kmsg := stateAfter (step true) (initial (fun _ => 0) 64) inputs
    ∃ numbers, Consoled true (storeCalls inputs) kmsg.log.logFirstSeq kmsg.console.seq
      (consoleLines (outputs (step true) (initial (fun _ => 0) 64) inputs)) numbers :=
  consoleUnlock_prints true (fun _ => 0) (by decide) _ (by decide)

end Gray386.Printk
