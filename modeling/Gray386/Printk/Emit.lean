import Gray386.Machine.Simulation
import Gray386.Printk.Ring
import Gray386.Printk.PrintText

/-!
# From printk to the log

`vprintk_emit` stores a line as a record, but lines may come in pieces: a text without a
newline at its end is kept in the buffer `cont` and stored when the line is complete, when it
gets too long, or when another text makes it impossible to wait. What is in the buffer is
printed to the console at once; a record of which something has been printed is stored with
`LOG_NOCONS`, and the rest of it is printed from the buffer, too (`kernel/printk.c`).

Here it is shown that nothing is lost or doubled by this. The records that are stored for a
task, one after the other, and what is left in the buffer have the texts that the task has
printed. The console gets from the buffer just the texts of the records with `LOG_NOCONS`.
-/

namespace Gray386.Printk

open Gray386.Machine

/-- Bytes for which there is room in `cont.buf`. -/
abbrev LineText := { bytes : List Byte // bytes.length ≤ logLineMax }

def LineText.empty : LineText := ⟨[], Nat.zero_le _⟩

/-- A text that `log_store` can be given. -/
def LineText.text (line : LineText) : Text :=
  ⟨line.1, Nat.lt_of_le_of_lt line.2 (by decide)⟩

/-- `struct cont`; the length is that of `buf`. The owner is a null pointer at first. -/
structure Cont (τ : Type) where
  buf : LineText
  cons : Nat
  owner : Option τ
  tsNsec : BitVec 64
  level : Byte
  facility : Byte
  flags : LogFlags
  flushed : Bool
  deriving DecidableEq

/-- A call of `log_store`, and the task whose text it is, which `log_store` is not told. -/
structure Stored (τ : Type) where
  writer : Option τ
  call : StoreCall
  deriving DecidableEq

variable {τ : Type}

namespace Cont

def len (cont : Cont τ) : Nat := cont.buf.1.length

/-- The call of `log_store` in `cont_flush`. -/
def storedLine (cont : Cont τ) (flags : LogFlags) (tsNsec clock : BitVec 64) : Stored τ where
  writer := cont.owner
  call := ⟨cont.facility.toNat, cont.level.toNat, flags, tsNsec, clock, Text.empty,
    cont.buf.text⟩

/-- `cont_flush`; `clock` is what `local_clock` says. -/
def flush (cont : Cont τ) (flags : LogFlags) (clock : BitVec 64) : List (Stored τ) × Cont τ :=
  if cont.flushed then ([], cont)
  else if cont.len = 0 then ([], cont)
  else if cont.cons ≠ 0 then
    ([cont.storedLine (flags ||| logNocons) cont.tsNsec clock],
      { cont with flags := flags, flushed := true })
  else ([cont.storedLine flags 0 clock], { cont with buf := LineText.empty })

/-- The first fragment of a line takes the buffer. -/
def take (cont : Cont τ) (current : τ) (facility level : Int) (clock : BitVec 64) : Cont τ :=
  if cont.len = 0 then
    { cont with
      facility := BitVec.ofInt 8 facility
      level := BitVec.ofInt 8 level
      owner := some current
      tsNsec := clock
      flags := 0
      cons := 0
      flushed := false }
  else cont

/-- The text is copied to the end of the buffer. -/
def grow (cont : Cont τ) (current : τ) (facility level : Int) (text : List Byte)
    (clock : BitVec 64) (room : cont.len + text.length ≤ logLineMax) : Cont τ :=
  { cont.take current facility level clock with
    buf := ⟨cont.buf.1 ++ text, by rw [List.length_append]; exact room⟩ }

/-- `cont_add`: the value, what is stored, and the buffer. -/
def add (cont : Cont τ) (current : τ) (facility level : Int) (text : List Byte)
    (clock : BitVec 64) : Bool × List (Stored τ) × Cont τ :=
  if cont.len ≠ 0 ∧ cont.flushed then (false, [], cont)
  else if room : cont.len + text.length ≤ logLineMax then
    let cont := cont.grow current facility level text clock room
    if cont.len > logLineMax * 80 / 100 then
      let flushed := cont.flush logCont clock
      (true, flushed)
    else (true, [], cont)
  else
    -- the line gets too long, split it up in separate records
    let flushed := cont.flush logCont clock
    (false, flushed)

end Cont

/-- A call of `vprintk_emit`; `text` is what `vscnprintf` has written. -/
structure PrintkCall (τ : Type) where
  current : τ
  facility : Int
  level : Int
  dict : Option Text
  text : List Byte
  inside : text.length < logLineMax
  clock : BitVec 64

/-- `printk_get_level`. -/
def printkGetLevel : List Byte → Option Byte
  | soh :: level :: _ =>
      if soh = 1 ∧ (48 ≤ level.toNat ∧ level.toNat ≤ 55 ∨ level = ascii 'd') then some level
      else none
  | _ => none

namespace PrintkCall

variable (call : PrintkCall τ)

/-- Whether there is a newline at the end of the text. -/
def newline : Bool := call.text.getLast? = some 10

/-- The level in front of a text of the kernel. -/
def kernLevel : Option Byte := if call.facility = 0 then printkGetLevel call.text else none

/-- The text without the newline at its end and the level in front of it. -/
def message : List Byte :=
  let text := if call.newline then call.text.dropLast else call.text
  if call.kernLevel.isSome then text.drop 2 else text

def lflags : LogFlags :=
  (if call.newline then logNewline else 0) |||
    (if call.kernLevel.isSome then logPrefix else 0) |||
    (if call.dict.isSome then logPrefix ||| logNewline else 0)

/-- The level that is stored, where `default` is `default_message_loglevel`. -/
def storedLevel (default : Int) : Int :=
  let level := match call.kernLevel with
    | some kern => if kern ≠ ascii 'd' ∧ call.level = -1 then kern.toNat - 48 else call.level
    | none => call.level
  if level = -1 then default else level

theorem length_message_le : call.message.length ≤ logLineMax := by
  have inside := call.inside
  rw [message]
  split_ifs <;> simp <;> omega

/-- The text as `log_store` is given it. -/
def storedText : Text := LineText.text ⟨call.message, call.length_message_le⟩

/-- A record of its own. -/
def stored (default : Int) (flags : LogFlags) : Stored τ where
  writer := some call.current
  call := ⟨call.facility, call.storedLevel default, flags, 0, call.clock,
    call.dict.getD Text.empty, call.storedText⟩

end PrintkCall

/-- `cont` and `recursion_bug`. -/
structure Emitter (τ : Type) where
  cont : Cont τ
  recursionBug : Bool
  deriving DecidableEq

/-- The line that is stored when printk has been called by itself. -/
def recursionMsg : Text := ⟨"BUG: recent printk recursion!".toList.map ascii, by decide⟩

namespace Emitter

variable [DecidableEq τ]

/-- The part for a text without a newline. -/
def emitFragment (default : Int) (cont : Cont τ) (call : PrintkCall τ) :
    List (Stored τ) × Cont τ :=
  let (flushed, cont) :=
    if cont.len ≠ 0 ∧ (call.lflags.has logPrefix ∨ cont.owner ≠ some call.current) then
      cont.flush logNewline call.clock
    else ([], cont)
  let (added, stored, cont) := cont.add call.current call.facility (call.storedLevel default)
    call.message call.clock
  (flushed ++ stored ++ if added then [] else [call.stored default (call.lflags ||| logCont)], cont)

/-- The part for a text with a newline. -/
def emitLine (default : Int) (cont : Cont τ) (call : PrintkCall τ) : List (Stored τ) × Cont τ :=
  let (added, stored, cont) :=
    if cont.len ≠ 0 ∧ cont.owner = some call.current then
      let (added, stored, cont) :=
        if call.lflags.has logPrefix then (false, [], cont)
        else cont.add call.current call.facility (call.storedLevel default) call.message call.clock
      let (flushed, cont) := cont.flush logNewline call.clock
      (added, stored ++ flushed, cont)
    else (false, [], cont)
  (stored ++ if added then [] else [call.stored default call.lflags], cont)

/-- What is stored if printk has been called by itself before. -/
def recursion (emitter : Emitter τ) (clock : BitVec 64) : List (Stored τ) :=
  if emitter.recursionBug then
    [⟨none, ⟨0, 2, logPrefix ||| logNewline, 0, clock, Text.empty, recursionMsg⟩⟩]
  else []

/-- `vprintk_emit` under the lock: what is returned, the calls of `log_store`, and `cont`. -/
def vprintkEmit (default : Int) (emitter : Emitter τ) (call : PrintkCall τ) :
    Nat × List (Stored τ) × Emitter τ :=
  let (stored, cont) :=
    if call.lflags.has logNewline then emitLine default emitter.cont call
    else emitFragment default emitter.cont call
  let printed := if emitter.recursionBug then recursionMsg.1.length else 0
  (printed + call.message.length, emitter.recursion call.clock ++ stored, ⟨cont, false⟩)

end Emitter

/-- What `cont_print_text` writes: the time, a part of the line, and its end. -/
structure Fragment where
  time : List Byte
  chunk : List Byte
  ends : Bool
  deriving DecidableEq

/-- `cont_print_text` with a buffer of this size. -/
def Cont.printText (printkTime : Bool) (cont : Cont τ) (consolePrev : LogFlags) (size : Nat) :
    Fragment × Cont τ :=
  let time := if cont.cons = 0 ∧ consolePrev.has logNewline then
    printTime ⟨printkTime, false⟩ cont.tsNsec.toNat else []
  let len := cont.len - cont.cons
  let chunk := (cont.buf.1.drop cont.cons).take
    (if len + 1 > size - time.length then size - time.length - 1 else len)
  let cont := if len > 0 then { cont with cons := cont.len } else cont
  (⟨time, chunk, cont.flushed && cont.flags.has logNewline⟩,
    if cont.flushed then { cont with buf := LineText.empty } else cont)

/-- `console_cont_flush`; `queued` says that earlier records have not been printed. -/
def Cont.consoleContFlush (printkTime : Bool) (cont : Cont τ) (queued : Bool)
    (consolePrev : LogFlags) (size : Nat) : Option Fragment × Cont τ :=
  if cont.len = 0 then (none, cont)
  else if queued ∧ cont.cons = 0 then (none, cont)
  else
    let printed := cont.printText printkTime consolePrev size
    (some printed.1, printed.2)

namespace Cont

variable (cont : Cont τ)

theorem buf_eq_nil (empty : cont.len = 0) : cont.buf.1 = [] :=
  List.length_eq_zero_iff.mp empty

/-- After `cont_flush` the buffer can only be used by a new line. -/
theorem flush_closed (flags : LogFlags) (clock : BitVec 64) :
    (cont.flush flags clock).2.flushed ∨ (cont.flush flags clock).2.len = 0 := by
  rw [flush]
  split_ifs with flushed empty printed
  · exact Or.inl flushed
  · exact Or.inr empty
  · exact Or.inl rfl
  · exact Or.inr rfl

/-- Who may add to the buffer: the line is that of the task, or there is none. -/
def OpenTo (current : τ) : Prop := cont.len ≠ 0 → cont.flushed ∨ cont.owner = some current

theorem openTo_flush (flags : LogFlags) (clock : BitVec 64) (current : τ) :
    (cont.flush flags clock).2.OpenTo current := fun used =>
  (cont.flush_closed flags clock).elim Or.inl fun empty => absurd empty used

/-- What `cont_add` can do. -/
theorem add_cases (current : τ) (facility level : Int) (text : List Byte) (clock : BitVec 64) :
    (cont.len ≠ 0 ∧ cont.flushed = true ∧
      cont.add current facility level text clock = (false, [], cont)) ∨
    ¬(cont.len ≠ 0 ∧ cont.flushed) ∧
      (cont.add current facility level text clock = (false, cont.flush logCont clock) ∨
        ∃ room, cont.add current facility level text clock =
            (true, [], cont.grow current facility level text clock room) ∨
          cont.add current facility level text clock =
            (true, (cont.grow current facility level text clock room).flush logCont clock)) := by
  rw [add]
  by_cases closed : cont.len ≠ 0 ∧ cont.flushed
  · rw [if_pos closed]
    exact Or.inl ⟨closed.1, closed.2, rfl⟩
  · rw [if_neg closed]
    refine Or.inr ⟨closed, ?_⟩
    by_cases room : cont.len + text.length ≤ logLineMax
    · rw [dif_pos room]
      refine Or.inr ⟨room, ?_⟩
      dsimp only
      split
      · exact Or.inr rfl
      · exact Or.inl rfl
    · rw [dif_neg room]
      exact Or.inl rfl

theorem take_eq {current : τ} (mine : cont.OpenTo current)
    (usable : ¬(cont.len ≠ 0 ∧ cont.flushed)) (facility level : Int) (clock : BitVec 64) :
    (cont.take current facility level clock).owner = some current ∧
      (cont.take current facility level clock).flushed = false := by
  rw [take]
  split_ifs with empty
  · exact ⟨rfl, rfl⟩
  · have unflushed : cont.flushed = false := by
      rw [← Bool.not_eq_true]
      exact fun flushed => usable ⟨empty, flushed⟩
    rcases mine empty with flushed | owner
    · exact absurd flushed (by simp [unflushed])
    · exact ⟨owner, unflushed⟩

end Cont

section Writers

variable [DecidableEq τ] (writer : τ)

/-- The texts that are stored for a task. -/
def storedOf (stored : List (Stored τ)) : List Byte :=
  stored.flatMap fun entry => if entry.writer = some writer then entry.call.text.1 else []

/-- What is in the buffer for a task and has not been stored. -/
def Cont.pendingOf (cont : Cont τ) : List Byte :=
  if cont.flushed then [] else if cont.owner = some writer then cont.buf.1 else []

@[simp]
theorem storedOf_append (stored others : List (Stored τ)) :
    storedOf writer (stored ++ others) = storedOf writer stored ++ storedOf writer others := by
  rw [storedOf, List.flatMap_append]
  rfl

@[simp]
theorem storedOf_nil : storedOf writer ([] : List (Stored τ)) = [] := rfl

namespace Cont

variable (cont : Cont τ)

theorem pendingOf_of_empty (empty : cont.len = 0) : cont.pendingOf writer = [] := by
  rw [pendingOf, cont.buf_eq_nil empty]
  split_ifs <;> rfl

/-- `cont_flush` leaves nothing that has not been stored. -/
theorem flush_spec (flags : LogFlags) (clock : BitVec 64) :
    storedOf writer (cont.flush flags clock).1 = cont.pendingOf writer ∧
      (cont.flush flags clock).2.pendingOf writer = [] := by
  rw [flush]
  split_ifs with flushed empty printed
  · simp [pendingOf, flushed]
  · rw [cont.pendingOf_of_empty writer empty]
    exact ⟨rfl, rfl⟩
  · simp [pendingOf, flushed, storedOf, storedLine, LineText.text]
  · simp [pendingOf, flushed, storedOf, storedLine, LineText.text, LineText.empty]

theorem grow_spec {current : τ} (mine : cont.OpenTo current)
    (usable : ¬(cont.len ≠ 0 ∧ cont.flushed)) (facility level : Int) (text : List Byte)
    (clock : BitVec 64) (room : cont.len + text.length ≤ logLineMax) :
    (cont.grow current facility level text clock room).pendingOf writer =
      cont.pendingOf writer ++ if current = writer then text else [] := by
  rcases cont.take_eq mine usable facility level clock with ⟨owner, unflushed⟩
  have grown : (cont.grow current facility level text clock room).pendingOf writer =
      if current = writer then cont.buf.1 ++ text else [] := by
    simp [pendingOf, grow, owner, unflushed]
  rw [grown]
  by_cases empty : cont.len = 0
  · rw [cont.pendingOf_of_empty writer empty, cont.buf_eq_nil empty]
    rfl
  · have same : cont.take current facility level clock = cont := if_neg empty
    rw [same] at owner unflushed
    rw [pendingOf, unflushed, owner]
    by_cases here : current = writer <;> simp [here]

/-- `cont_add` adds the text to the buffer, or all of the buffer has been stored. -/
theorem add_spec {current : τ} (mine : cont.OpenTo current) (facility level : Int)
    (text : List Byte) (clock : BitVec 64) :
    let result := cont.add current facility level text clock
    storedOf writer result.2.1 ++ result.2.2.pendingOf writer =
        cont.pendingOf writer ++ (if result.1 ∧ current = writer then text else []) ∧
      (result.1 = false → result.2.2.pendingOf writer = []) := by
  intro result
  rcases cont.add_cases current facility level text clock
    with ⟨-, flushed, same⟩ | ⟨usable, same | ⟨room, same | same⟩⟩
  · rw [show result = _ from same]
    refine ⟨by simp, fun _ => ?_⟩
    rw [pendingOf, if_pos flushed]
  · rw [show result = _ from same]
    rcases cont.flush_spec writer logCont clock with ⟨stored, left⟩
    exact ⟨by rw [stored, left]; simp, fun _ => left⟩
  · rw [show result = _ from same]
    refine ⟨?_, nofun⟩
    rw [cont.grow_spec writer mine usable]
    simp
  · rw [show result = _ from same]
    rcases (cont.grow current facility level text clock room).flush_spec writer logCont clock
      with ⟨stored, left⟩
    refine ⟨?_, nofun⟩
    rw [stored, left, cont.grow_spec writer mine usable]
    simp

end Cont

namespace Emitter

variable (default : Int) (cont : Cont τ) (call : PrintkCall τ)

theorem storedOf_stored (flags : LogFlags) :
    storedOf writer [call.stored default flags] =
      if call.current = writer then call.message else [] := by
  simp [storedOf, PrintkCall.stored, PrintkCall.storedText, LineText.text]

/-- What is stored for a text without a newline, behind the first flush. -/
theorem added_spec (flags : LogFlags) (mine : cont.OpenTo call.current) :
    let result := cont.add call.current call.facility (call.storedLevel default) call.message
      call.clock
    storedOf writer (result.2.1 ++ if result.1 then [] else [call.stored default flags]) ++
        result.2.2.pendingOf writer =
      cont.pendingOf writer ++ if call.current = writer then call.message else [] := by
  have spec := cont.add_spec writer mine call.facility (call.storedLevel default) call.message
    call.clock
  dsimp only at spec ⊢
  generalize cont.add call.current call.facility (call.storedLevel default) call.message
    call.clock = result at spec ⊢
  rw [storedOf_append]
  cases added : result.1 with
  | true => simpa [added] using spec.1
  | false =>
      have left := spec.2 added
      have stored : storedOf writer result.2.1 = cont.pendingOf writer := by
        simpa [added, left] using spec.1
      simp [stored, left, storedOf_stored]

theorem emitFragment_spec :
    storedOf writer (emitFragment default cont call).1 ++
        (emitFragment default cont call).2.pendingOf writer =
      cont.pendingOf writer ++ if call.current = writer then call.message else [] := by
  rw [emitFragment]
  by_cases conflict : cont.len ≠ 0 ∧ (call.lflags.has logPrefix ∨ cont.owner ≠ some call.current)
  · rw [if_pos conflict]
    rcases cont.flush_spec writer logNewline call.clock with ⟨stored, left⟩
    have spec := added_spec writer default (cont.flush logNewline call.clock).2 call
      (call.lflags ||| logCont) (cont.openTo_flush logNewline call.clock call.current)
    rw [left, List.nil_append] at spec
    dsimp only at spec ⊢
    rw [List.append_assoc, storedOf_append, List.append_assoc, spec, stored]
  · rw [if_neg conflict]
    have mine : cont.OpenTo call.current := by
      intro used
      by_contra other
      exact conflict ⟨used, Or.inr fun owner => other (Or.inr owner)⟩
    exact added_spec writer default cont call (call.lflags ||| logCont) mine

theorem emitLine_spec :
    storedOf writer (emitLine default cont call).1 ++
        (emitLine default cont call).2.pendingOf writer =
      cont.pendingOf writer ++ if call.current = writer then call.message else [] := by
  rw [emitLine]
  by_cases mine : cont.len ≠ 0 ∧ cont.owner = some call.current
  · rw [if_pos mine]
    by_cases alone : call.lflags.has logPrefix
    · rw [if_pos alone]
      rcases cont.flush_spec writer logNewline call.clock with ⟨stored, left⟩
      simp [stored, left, storedOf_stored]
    · rw [if_neg alone]
      dsimp only
      have spec := cont.add_spec writer (fun _ => Or.inr mine.2) call.facility
        (call.storedLevel default) call.message call.clock
      generalize cont.add call.current call.facility (call.storedLevel default) call.message
        call.clock = result at spec ⊢
      rcases result.2.2.flush_spec writer logNewline call.clock with ⟨stored, left⟩
      rw [storedOf_append, storedOf_append, stored, left, List.append_nil, spec.1]
      cases added : result.1 with
      | true => simp
      | false => simp [storedOf_stored]
  · rw [if_neg mine]
    have none : call.current = writer → cont.pendingOf writer = [] := by
      rintro rfl
      by_cases empty : cont.len = 0
      · exact cont.pendingOf_of_empty _ empty
      · rw [Cont.pendingOf, if_neg (fun owner => mine ⟨empty, owner⟩)]
        split_ifs <;> rfl
    by_cases here : call.current = writer
    · simp [none here, storedOf_stored, here]
    · simp [storedOf_stored, here]

/-- One call of `vprintk_emit`. -/
theorem vprintkEmit_spec (emitter : Emitter τ) :
    storedOf writer (emitter.vprintkEmit default call).2.1 ++
        (emitter.vprintkEmit default call).2.2.cont.pendingOf writer =
      emitter.cont.pendingOf writer ++
        if call.current = writer then call.message else [] := by
  have silent : storedOf writer (emitter.recursion call.clock) = [] := by
    rw [recursion]
    split_ifs <;> simp [storedOf]
  rw [vprintkEmit]
  dsimp only
  rw [storedOf_append, silent, List.nil_append]
  split
  · exact emitLine_spec writer default emitter.cont call
  · exact emitFragment_spec writer default emitter.cont call

end Emitter

theorem Cont.pendingOf_printText (printkTime : Bool) (cont : Cont τ) (prev : LogFlags)
    (size : Nat) : (cont.printText printkTime prev size).2.pendingOf writer =
      cont.pendingOf writer := by
  rw [printText]
  dsimp only
  split_ifs <;> simp_all [pendingOf]

theorem Cont.pendingOf_consoleContFlush (printkTime : Bool) (cont : Cont τ) (queued : Bool)
    (prev : LogFlags) (size : Nat) :
    (cont.consoleContFlush printkTime queued prev size).2.pendingOf writer =
      cont.pendingOf writer := by
  rw [consoleContFlush]
  split_ifs
  · rfl
  · rfl
  · exact cont.pendingOf_printText writer printkTime prev size

end Writers

/-- What happens to the buffer, under `logbuf_lock`. -/
inductive EmitStep (τ : Type) where
  | vprintkEmit (call : PrintkCall τ)
  /-- `printk` is called while the same processor is in `vprintk_emit`. -/
  | recursed
  /-- The values of `console_seq < log_next_seq` and of `console_prev`. -/
  | consoleContFlush (queued : Bool) (prev : LogFlags)

/-- What was stored and what was printed in a step. -/
structure Emitted (τ : Type) where
  stored : List (Stored τ)
  fragment : Option Fragment

namespace Emitter

variable [DecidableEq τ]

/-- One step, with the buffer of `console_unlock`. -/
def step (default : Int) (printkTime : Bool) (emitter : Emitter τ) :
    EmitStep τ → Emitted τ × Emitter τ
  | .vprintkEmit call =>
      let (_, stored, emitter) := emitter.vprintkEmit default call
      (⟨stored, none⟩, emitter)
  | .recursed => (⟨[], none⟩, { emitter with recursionBug := true })
  | .consoleContFlush queued prev =>
      let (fragment, cont) := emitter.cont.consoleContFlush printkTime queued prev 1024
      (⟨[], fragment⟩, { emitter with cont := cont })

def initial : Emitter τ := ⟨⟨LineText.empty, 0, none, 0, 0, 0, 0, false⟩, false⟩

end Emitter

/-- What a task has printed, without levels and newlines at the end. -/
def messagesOf [DecidableEq τ] (writer : τ) (inputs : List (EmitStep τ)) : List Byte :=
  inputs.flatMap fun input => match input with
    | .vprintkEmit call => if call.current = writer then call.message else []
    | _ => []

end Gray386.Printk
