import Gray386.Printk.Emit

/-!
# Lines that reach the console in pieces

`console_cont_flush` prints what is in the buffer of `vprintk_emit` before it is stored. Once
a part of a line has been printed this way, the record is stored with `LOG_NOCONS`, which
keeps `console_unlock` from printing it again, and the rest has to come from the buffer, too
(`kernel/printk.c`).

In every run the console has got from the buffer the texts of the records with `LOG_NOCONS`,
each of them whole and once, up to the line that is being printed.
-/

namespace Gray386.Printk

open Gray386.Machine

variable {τ : Type}

/-- The texts of the records that `console_unlock` will not print. -/
def noconsTexts (stored : List (Stored τ)) : List Byte :=
  stored.flatMap fun entry => if entry.call.flags.has logNocons then entry.call.text.1 else []

@[simp]
theorem noconsTexts_append (stored others : List (Stored τ)) :
    noconsTexts (stored ++ others) = noconsTexts stored ++ noconsTexts others :=
  List.flatMap_append

theorem noconsTexts_singleton {entry : Stored τ}
    (without : entry.call.flags.has logNocons = false) : noconsTexts [entry] = [] := by
  simp [noconsTexts, without]

/-- The parts of lines that were printed. -/
def chunks (shown : List (Emitted τ)) : List Byte :=
  shown.flatMap fun output => (output.fragment.map Fragment.chunk).getD []

theorem chunks_append (shown others : List (Emitted τ)) :
    chunks (shown ++ others) = chunks shown ++ chunks others :=
  List.flatMap_append

namespace Cont

variable (cont : Cont τ)

/-- What has been printed of a line that is not stored. -/
def begun : List Byte := if cont.flushed then [] else cont.buf.1.take cont.cons

/-- What is still to be printed of a line that is stored. -/
def rest : List Byte := if cont.flushed then cont.buf.1.drop cont.cons else []

/-- What is printed and what is stored without being printed later. -/
structure Balanced (cont : Cont τ) (shown stored : List Byte) : Prop where
  texts : shown ++ cont.rest = stored ++ cont.begun
  counted : cont.len ≠ 0 → cont.cons ≤ cont.len

variable {cont} {shown stored : List Byte}

theorem Balanced.eq_of_empty (balanced : cont.Balanced shown stored) (empty : cont.len = 0) :
    shown = stored := by
  have texts := balanced.texts
  rw [rest, begun, cont.buf_eq_nil empty, List.take_nil, List.drop_nil] at texts
  simpa using texts

theorem has_nocons_or (flags : LogFlags) :
    LogFlags.has (flags ||| logNocons) logNocons = true := by
  revert flags
  decide

theorem Balanced.flush (balanced : cont.Balanced shown stored) {flags : LogFlags}
    (without : flags.has logNocons = false) (clock : BitVec 64) :
    (cont.flush flags clock).2.Balanced shown
      (stored ++ noconsTexts (cont.flush flags clock).1) := by
  have texts := balanced.texts
  rw [Cont.flush]
  split_ifs with flushed empty printed
  · simpa [noconsTexts] using balanced
  · simpa [noconsTexts] using balanced
  · rw [rest, begun, if_neg flushed, if_neg flushed, List.append_nil] at texts
    refine ⟨?_, balanced.counted⟩
    rw [texts, List.append_assoc]
    simp [rest, begun, noconsTexts, storedLine, has_nocons_or, LineText.text]
  · have none : cont.cons = 0 := not_not.mp printed
    rw [rest, begun, if_neg flushed, if_neg flushed, none] at texts
    refine ⟨?_, fun used => absurd rfl used⟩
    rw [noconsTexts_singleton (by simpa [storedLine] using without)]
    simpa [rest, begun, LineText.empty] using texts

theorem Balanced.grow (balanced : cont.Balanced shown stored)
    (usable : ¬(cont.len ≠ 0 ∧ cont.flushed)) (current : τ) (facility level : Int)
    (text : List Byte) (clock : BitVec 64) (room : cont.len + text.length ≤ logLineMax) :
    (cont.grow current facility level text clock room).Balanced shown stored := by
  by_cases empty : cont.len = 0
  · have same := balanced.eq_of_empty empty
    subst same
    refine ⟨?_, fun _ => ?_⟩ <;> simp [rest, begun, Cont.grow, take, empty]
  · have kept : cont.take current facility level clock = cont := if_neg empty
    have unflushed : ¬cont.flushed := fun flushed => usable ⟨empty, flushed⟩
    have counted := balanced.counted empty
    have texts := balanced.texts
    rw [rest, begun, if_neg unflushed, if_neg unflushed] at texts
    refine ⟨?_, fun _ => ?_⟩
    · simp only [rest, begun, Cont.grow, kept, if_neg unflushed]
      rw [List.take_append_of_le_length counted]
      exact texts
    · simp only [Cont.grow, kept, len, List.length_append]
      exact Nat.le_add_right_of_le counted

theorem Balanced.add (balanced : cont.Balanced shown stored) (current : τ) (facility level : Int)
    (text : List Byte) (clock : BitVec 64) :
    (cont.add current facility level text clock).2.2.Balanced shown
      (stored ++ noconsTexts (cont.add current facility level text clock).2.1) := by
  rcases cont.add_cases current facility level text clock
    with ⟨-, -, same⟩ | ⟨usable, same | ⟨room, same | same⟩⟩
  · rw [same]
    simpa [noconsTexts] using balanced
  · rw [same]
    exact balanced.flush (by decide) clock
  · rw [same]
    simpa [noconsTexts] using balanced.grow usable current facility level text clock room
  · rw [same]
    exact (balanced.grow usable current facility level text clock room).flush (by decide) clock

theorem length_printTime_le (style : PrefixStyle) (ts : Nat) :
    (printTime style ts).length ≤ 20 := by
  have secs : (decimal (seconds ts)).length ≤ 10 :=
    length_decimal_le (by decide) (by rw [seconds]; omega)
  have usecs : (decimal (remNsec ts / 1000)).length ≤ 6 :=
    length_decimal_le (by decide) (by rw [remNsec]; omega)
  rw [printTime]
  split_ifs
  · simp only [List.length_cons, List.length_append, length_padded, List.length_nil]
    omega
  · exact Nat.zero_le _

/-- The buffer of `console_unlock` is large enough for all that has not been printed. -/
theorem chunk_printText (printkTime : Bool) (cont : Cont τ) (prev : LogFlags) :
    (cont.printText printkTime prev 1024).1.chunk = cont.buf.1.drop cont.cons := by
  have inside : cont.len ≤ 992 := cont.buf.2
  rw [printText]
  dsimp only
  generalize timed : (if cont.cons = 0 ∧ prev.has logNewline then
    printTime ⟨printkTime, false⟩ cont.tsNsec.toNat else []) = time
  have short : time.length ≤ 20 := by
    rw [← timed]
    split_ifs
    · exact length_printTime_le _ _
    · exact Nat.zero_le _
  rw [if_neg (by omega)]
  apply List.take_of_length_le
  rw [List.length_drop]
  exact Nat.le_refl _

theorem Balanced.printText (balanced : cont.Balanced shown stored) (used : cont.len ≠ 0)
    (printkTime : Bool) (prev : LogFlags) :
    (cont.printText printkTime prev 1024).2.Balanced
      (shown ++ (cont.printText printkTime prev 1024).1.chunk) stored := by
  have texts := balanced.texts
  have counted := balanced.counted used
  have all : (if cont.len - cont.cons > 0 then { cont with cons := cont.len } else cont) =
      { cont with cons := cont.len } := by
    split_ifs with more
    · rfl
    · rw [show cont.len = cont.cons by omega]
  rw [chunk_printText, Cont.printText]
  dsimp only
  rw [all]
  by_cases flushed : cont.flushed
  · rw [rest, begun, if_pos flushed, if_pos flushed] at texts
    rw [if_pos flushed]
    refine ⟨?_, fun used => absurd rfl used⟩
    rw [texts]
    simp [rest, begun, LineText.empty]
  · rw [rest, begun, if_neg flushed, if_neg flushed, List.append_nil] at texts
    rw [if_neg flushed]
    refine ⟨?_, fun _ => Nat.le_refl _⟩
    rw [texts, List.append_assoc stored, List.take_append_drop]
    simp [rest, begun, flushed, len]

theorem Balanced.consoleContFlush (balanced : cont.Balanced shown stored) (printkTime : Bool)
    (queued : Bool) (prev : LogFlags) :
    (cont.consoleContFlush printkTime queued prev 1024).2.Balanced
      (shown ++ ((cont.consoleContFlush printkTime queued prev 1024).1.map Fragment.chunk).getD [])
      stored := by
  rw [Cont.consoleContFlush]
  split_ifs with empty waits
  · simpa using balanced
  · simpa using balanced
  · exact balanced.printText empty printkTime prev

end Cont

theorem lflags_without (call : PrintkCall τ) :
    call.lflags.has logNocons = false ∧
      LogFlags.has (call.lflags ||| logCont) logNocons = false := by
  rw [PrintkCall.lflags]
  split_ifs <;> decide

/-- A record of its own is printed by `console_unlock`. -/
theorem noconsTexts_own (default : Int) (call : PrintkCall τ) {flags : LogFlags}
    (without : flags.has logNocons = false) (added : Bool) :
    noconsTexts (if added then [] else [call.stored default flags]) = [] := by
  cases added with
  | true => rfl
  | false => exact noconsTexts_singleton without

namespace Emitter

variable [DecidableEq τ] {cont : Cont τ} {shown stored : List Byte}

theorem balanced_emitFragment (balanced : cont.Balanced shown stored) (default : Int)
    (call : PrintkCall τ) :
    (emitFragment default cont call).2.Balanced shown
      (stored ++ noconsTexts (emitFragment default cont call).1) := by
  rw [emitFragment]
  dsimp only
  rw [noconsTexts_append, noconsTexts_append,
    noconsTexts_own default call (lflags_without call).2, List.append_nil, ← List.append_assoc]
  refine Cont.Balanced.add ?_ call.current call.facility (call.storedLevel default) call.message
    call.clock
  split
  · exact balanced.flush (by decide) call.clock
  · simpa [noconsTexts] using balanced

theorem balanced_emitLine (balanced : cont.Balanced shown stored) (default : Int)
    (call : PrintkCall τ) :
    (emitLine default cont call).2.Balanced shown
      (stored ++ noconsTexts (emitLine default cont call).1) := by
  rw [emitLine]
  dsimp only
  rw [noconsTexts_append, noconsTexts_own default call (lflags_without call).1, List.append_nil]
  split
  · dsimp only
    rw [noconsTexts_append, ← List.append_assoc]
    refine Cont.Balanced.flush ?_ (by decide) call.clock
    split
    · simpa [noconsTexts] using balanced
    · exact balanced.add call.current call.facility (call.storedLevel default) call.message
        call.clock
  · simpa [noconsTexts] using balanced

theorem balanced_vprintkEmit {emitter : Emitter τ} (balanced : emitter.cont.Balanced shown stored)
    (default : Int) (call : PrintkCall τ) :
    (emitter.vprintkEmit default call).2.2.cont.Balanced shown
      (stored ++ noconsTexts (emitter.vprintkEmit default call).2.1) := by
  have silent : noconsTexts (emitter.recursion call.clock) = [] := by
    rw [recursion]
    split_ifs
    · exact noconsTexts_singleton
        (show LogFlags.has (logPrefix ||| logNewline) logNocons = false by decide)
    · rfl
  rw [vprintkEmit]
  dsimp only
  rw [noconsTexts_append, silent, List.nil_append]
  split
  · exact balanced_emitLine balanced default call
  · exact balanced_emitFragment balanced default call

/--
In every run of `vprintk_emit` and `console_cont_flush`, the parts of lines that were printed
from the buffer, and the rest of the line that is stored already, are the texts of the records
with `LOG_NOCONS`, and the part of a line that will be stored.
-/
theorem fragments_conserve (default : Int) (printkTime : Bool) (inputs : List (EmitStep τ)) :
    let shown := outputs (step default printkTime) initial inputs
    let last := stateAfter (step default printkTime) initial inputs
    chunks shown ++ last.cont.rest =
      noconsTexts (shown.flatMap Emitted.stored) ++ last.cont.begun := by
  intro shown last
  have balanced : last.cont.Balanced (chunks shown)
      (noconsTexts (shown.flatMap Emitted.stored)) := by
    refine outputs_invariant (fun _ shown (emitter : Emitter τ) =>
      emitter.cont.Balanced (chunks shown) (noconsTexts (shown.flatMap Emitted.stored)))
      ?_ ⟨rfl, fun used => absurd rfl used⟩ inputs
    intro past shown emitter input before
    rw [List.flatMap_append, noconsTexts_append, chunks_append]
    cases input with
    | vprintkEmit call =>
        have after := balanced_vprintkEmit before default call
        simpa [step, chunks, noconsTexts] using after
    | recursed => simpa [step, chunks, noconsTexts] using before
    | consoleContFlush queued prev =>
        have after := before.consoleContFlush printkTime queued prev
        simpa [step, chunks, noconsTexts] using after
  exact balanced.texts

end Emitter

end Gray386.Printk
