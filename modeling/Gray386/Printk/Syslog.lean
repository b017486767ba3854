import Gray386.Printk.Delivery

/-!
# The stream that syslog reads

`syslog_print` copies the texts of the records into buffers of any size. A text that is too
long for the rest of the buffer waits for the next call, and one that is too long for a whole
buffer is continued at `syslog_partial` (`kernel/printk.c`).

The sizes must not matter: as long as no record is lost and no copy to the caller fails, what
has been read and what is still to be read make up the texts of all records, one behind the
other. The bytes of a copy that fails are lost, as the position has been moved before.
-/

namespace Gray386.Printk

open Gray386.Machine

variable {ι : Type}

section Plain

variable (style : PrefixStyle) (record : Record)

theorem has_plain (flags : LogFlags) :
    LogFlags.has (flags &&& ~~~logNocons) logNewline = flags.has logNewline ∧
      LogFlags.has (flags &&& ~~~logNocons) logPrefix = flags.has logPrefix ∧
      LogFlags.has (flags &&& ~~~logNocons) logCont = flags.has logCont := by
  revert flags
  decide

theorem startsLine_plain (prev flags : LogFlags) :
    startsLine (prev &&& ~~~logNocons) (flags &&& ~~~logNocons) = startsLine prev flags := by
  simp only [startsLine, has_plain]

theorem endsLine_plain : endsLine record.plain.flags = endsLine record.flags := by
  simp only [endsLine, Record.plain, Record.without, has_plain]

theorem printLines_plain (size : Nat) (starts : Bool) (len : Nat) (lines : List (List Byte)) :
    printLines style record.plain size starts len lines =
      printLines style record size starts len lines := by
  induction lines generalizing starts len with
  | nil => rfl
  | cons line rest ih =>
      simp only [printLines, ih, endsLine_plain]
      rfl

/-- The text of a record does not depend on `LOG_NOCONS`. -/
theorem msgPrintText_congr {style : PrefixStyle} {record other : Record} {prev prev' : LogFlags}
    (same : record.plain = other.plain)
    (before : prev &&& ~~~logNocons = prev' &&& ~~~logNocons) (size : Nat) :
    msgPrintText style record prev size = msgPrintText style other prev' size := by
  have flags : record.plain.flags = other.plain.flags := congrArg Record.flags same
  change record.flags &&& ~~~logNocons = other.flags &&& ~~~logNocons at flags
  have text : record.plain.text = other.plain.text := congrArg Record.text same
  change record.text = other.text at text
  rw [msgPrintText, msgPrintText, ← printLines_plain, ← printLines_plain style other, same, text,
    ← startsLine_plain prev, ← startsLine_plain prev', before, flags]

end Plain

/-- The texts of some records, one behind the other. -/
def stream (style : PrefixStyle) : LogFlags → List Record → List Byte
  | _, [] => []
  | prev, record :: rest =>
      msgPrintText style record prev textSize ++ stream style record.flags rest

theorem stream_congr {style : PrefixStyle} {prev prev' : LogFlags}
    (before : prev &&& ~~~logNocons = prev' &&& ~~~logNocons) (records : List Record) :
    stream style prev records = stream style prev' records := by
  cases records with
  | nil => rfl
  | cons record rest => rw [stream, stream, msgPrintText_congr rfl before]

/-- What syslog copied to its caller in a step. -/
def syslogShown : KmsgStep ι → Seen → List Byte
  | .syslogPrint .., .bytes text => text
  | _, _ => []

def syslogBytes (inputs : List (KmsgStep ι)) (seen : List Seen) : List Byte :=
  (List.zipWith syslogShown inputs seen).flatten

/-- The texts from a record on, without what has been read of it. -/
def textFrom (printkTime : Bool) (calls : List StoreCall) (seq : Nat) (prev : LogFlags)
    (done : Nat) : List Byte :=
  (stream ⟨printkTime, true⟩ prev ((calls.drop seq).map StoreCall.record)).drop done

/-- What syslog has still to read of the records of some calls. -/
def Journal.pending (printkTime : Bool) (journal : Journal ι) (calls : List StoreCall) :
    List Byte :=
  textFrom printkTime calls journal.syslog journal.syslogPrev journal.syslogPartial

/-- The part of a record that has been read is not longer than its text. -/
def Journal.PartialInside (printkTime : Bool) (journal : Journal ι) (calls : List StoreCall) :
    Prop :=
  journal.syslogPartial = 0 ∨ ∃ call, calls[journal.syslog]? = some call ∧
    journal.syslogPartial ≤
      (msgPrintText ⟨printkTime, true⟩ call.record journal.syslogPrev textSize).length

namespace Journal

variable {printkTime : Bool} {journal : Journal ι} {calls : List StoreCall} {later : List Record}

@[simp]
theorem copied_false (text : List Byte) (started : Bool) :
    copied text started false = .bytes text := rfl

/-- The position is moved before the copy. -/
theorem syslogNext_fault (printkTime : Bool) (journal : Journal ι) (size : Nat)
    (started fault : Bool) :
    (journal.syslogNext printkTime size started fault).2 =
      (journal.syslogNext printkTime size started false).2 := by
  rw [syslogNext, syslogNext]
  split
  · rfl
  · dsimp only
    split_ifs <;> rfl

/-- One turn of `syslog_print` shows the next of the bytes that are to be read. -/
theorem syslogNext_pending
    (contents : journal.records.map Record.plain ++ later =
      calls.map fun call => call.record.plain)
    (inside : journal.PartialInside printkTime calls) (size : Nat) (started : Bool) :
    syslogShown (.syslogPrint size started false : KmsgStep ι)
        (journal.syslogNext printkTime size started false).1 ++
        (journal.syslogNext printkTime size started false).2.pending printkTime calls =
      journal.pending printkTime calls ∧
    (journal.syslogNext printkTime size started false).2.PartialInside printkTime calls := by
  rw [syslogNext]
  cases here : journal.records[journal.syslog]? with
  | none => exact ⟨rfl, inside⟩
  | some msg =>
      rcases stored_of_found contents here with ⟨call, stored, same⟩
      dsimp only [copied_false]
      rw [msgPrintText_congr same rfl]
      have read : journal.syslogPartial ≤
          (msgPrintText ⟨printkTime, true⟩ call.record journal.syslogPrev textSize).length := by
        rcases inside with none | ⟨other, there, bound⟩
        · omega
        · rw [stored] at there
          cases there
          exact bound
      have next : calls.drop journal.syslog = call :: calls.drop (journal.syslog + 1) := by
        rcases List.getElem?_eq_some_iff.mp stored with ⟨bound, value⟩
        rw [List.drop_eq_getElem_cons bound, value]
      have flags : msg.plain.flags = call.record.plain.flags := congrArg Record.flags same
      have whole : journal.pending printkTime calls =
          (msgPrintText ⟨printkTime, true⟩ call.record journal.syslogPrev textSize).drop
            journal.syslogPartial ++ stream ⟨printkTime, true⟩ msg.flags
              ((calls.drop (journal.syslog + 1)).map StoreCall.record) := by
        rw [pending, textFrom, next, List.map_cons, stream, List.drop_append_of_le_length read,
          stream_congr flags]
      generalize printed : msgPrintText ⟨printkTime, true⟩ call.record journal.syslogPrev
        textSize = text at read whole ⊢
      split_ifs with fits first
      · refine ⟨?_, Or.inl rfl⟩
        rw [whole]
        rfl
      · refine ⟨?_, Or.inr ⟨call, stored, ?_⟩⟩
        · have shorter : size ≤ (text.drop journal.syslogPartial).length := by
            rw [List.length_drop]
            omega
          have rest : pending printkTime { journal with
              syslogPartial := journal.syslogPartial + size } calls =
              (journal.pending printkTime calls).drop size := by
            rw [pending, pending, textFrom, textFrom, List.drop_drop]
          rw [rest, syslogShown, ← List.take_append_of_le_length shorter, ← whole,
            List.take_append_drop]
        · rw [printed]
          change journal.syslogPartial + size ≤ _
          omega
      · exact ⟨rfl, inside⟩

theorem syslogCatchUp_inside (inside : journal.PartialInside printkTime calls) :
    journal.syslogCatchUp.PartialInside printkTime calls := by
  rw [syslogCatchUp]
  split_ifs
  · exact Or.inl rfl
  · exact inside

/-- Other steps do not touch what syslog has to read. -/
theorem Changes.syslog_eq [DecidableEq ι] {gone : Nat} {input : KmsgStep ι} {next : Journal ι}
    (changes : journal.Changes gone input next)
    (other : ∀ size started fault, input ≠ .syslogPrint size started fault) :
    next.syslog = journal.syslog ∧ next.syslogPrev = journal.syslogPrev ∧
      next.syslogPartial = journal.syslogPartial := by
  cases changes with
  | store | user | clear => exact ⟨rfl, rfl, rfl⟩
  | syslog size started fault => exact absurd rfl (other size started fault)
  | console only =>
      rcases only with ⟨_, _, _, rfl, _⟩
      exact ⟨rfl, rfl, rfl⟩

/-- Syslog does not find its record gone, and the copy does not fail. -/
def Safe (journal : Journal ι) : KmsgStep ι → Prop
  | .syslogPrint _ _ fault => journal.gone ≤ journal.syslog ∧ fault = false
  | _ => True

variable [DecidableEq ι] {next last : Journal ι} {input : KmsgStep ι} {seen : Seen}

theorem inside_step (step : journal.Step printkTime input seen next)
    (contents : journal.records.map Record.plain ++ later =
      calls.map fun call => call.record.plain)
    (inside : journal.PartialInside printkTime calls) :
    next.PartialInside printkTime calls := by
  rcases step.changes with ⟨_, -, -, changes⟩
  rcases step with ⟨gone, -, -, stepped⟩
  by_cases printing : ∃ size started fault, input = .syslogPrint size started fault
  · rcases printing with ⟨size, started, fault, rfl⟩
    have same : journal.syslogCatchUp.records = journal.records := by
      rcases journal.syslogCatchUp_only with ⟨_, _, _, same⟩
      rw [same]
    rw [← same] at contents
    have after := (syslogNext_pending contents (syslogCatchUp_inside inside) size started).2
    rw [Journal.step] at stepped
    rw [← syslogNext_fault _ _ _ _ fault, stepped] at after
    exact after
  · rcases changes.syslog_eq
      (fun size started fault same => printing ⟨size, started, fault, same⟩)
      with ⟨seq, prev, done⟩
    rw [PartialInside, seq, prev, done]
    exact inside

/-- A step of the journal in which syslog loses nothing. -/
theorem pending_step (step : journal.Step printkTime input seen next)
    (contents : journal.records.map Record.plain ++ later =
      calls.map fun call => call.record.plain)
    (inside : journal.PartialInside printkTime calls) (safe : journal.Safe input) :
    syslogShown input seen ++ next.pending printkTime calls =
      journal.pending printkTime calls := by
  rcases step.changes with ⟨_, -, -, changes⟩
  rcases step with ⟨gone, -, -, stepped⟩
  by_cases printing : ∃ size started fault, input = .syslogPrint size started fault
  · rcases printing with ⟨size, started, fault, rfl⟩
    rcases safe with ⟨kept, rfl⟩
    have caught : journal.syslogCatchUp = journal := by
      rw [syslogCatchUp, if_neg (Nat.not_lt.mpr kept)]
    rw [Journal.step, caught] at stepped
    have shown := (syslogNext_pending contents inside size started).1
    rw [stepped] at shown
    exact shown
  · have silent : syslogShown input seen = [] := by
      rw [syslogShown]
      exact fun size started fault text same _ => printing ⟨size, started, fault, same⟩
    rcases changes.syslog_eq
      (fun size started fault same => printing ⟨size, started, fault, same⟩)
      with ⟨seq, prev, done⟩
    rw [silent, List.nil_append, pending, seq, prev, done]
    rfl

theorem pending_run {inputs : List (KmsgStep ι)} {shown : List Seen}
    (run : Behaves (fun journal input seen next =>
      Journal.Step printkTime journal input seen next ∧ journal.Safe input) journal inputs shown
        last)
    (contents : journal.records.map Record.plain ++
      (storeCalls inputs).map (fun call => call.record.plain) =
        calls.map fun call => call.record.plain)
    (inside : journal.PartialInside printkTime calls) :
    syslogBytes inputs shown ++ last.pending printkTime calls =
      journal.pending printkTime calls := by
  induction run with
  | nil => rfl
  | @cons journal next last input output rest others first tail ih =>
      rcases first with ⟨step, safe⟩
      have same := pending_step step contents inside safe
      have inside' := inside_step step contents inside
      rcases step.changes with ⟨_, -, -, changes⟩
      have rest := ih (changes.contents_tail contents) inside'
      rw [← same, ← rest, ← List.append_assoc]
      rfl

end Journal

/-- What was read before is not affected by records that are stored later. -/
theorem Journal.PartialInside.append {printkTime : Bool} {journal : Journal ι}
    {calls : List StoreCall} (inside : journal.PartialInside printkTime calls)
    (more : List StoreCall) : journal.PartialInside printkTime (calls ++ more) := by
  rcases inside with none | ⟨call, stored, bound⟩
  · exact Or.inl none
  · refine Or.inr ⟨call, ?_, bound⟩
    rw [List.getElem?_append_left (List.getElem?_eq_some_iff.mp stored).1, stored]

variable [DecidableEq ι]

theorem Journal.inside_run {printkTime : Bool} {last : Journal ι} {inputs : List (KmsgStep ι)}
    {seen : List Seen} (run : Behaves (Journal.Step printkTime) Journal.initial inputs seen last) :
    last.PartialInside printkTime (storeCalls inputs) := by
  refine (Behaves.invariant (fun past _ journal =>
    journal.records.map Record.plain = ((storeCalls past).map fun call => call.record.plain) ∧
      journal.PartialInside printkTime (storeCalls past)) ?_ ⟨rfl, Or.inl rfl⟩ run).2
  rintro past _ journal input _ next ⟨contents, inside⟩ step
  rcases step.changes with ⟨_, -, -, changes⟩
  have grown : journal.records.map Record.plain ++
      (storeCalls [input]).map (fun call => call.record.plain) =
        (storeCalls past ++ storeCalls [input]).map fun call => call.record.plain := by
    rw [contents, ← List.map_append]
  rw [storeCalls_append]
  exact ⟨changes.contents.trans grown, inside_step step grown (inside.append _)⟩

/-- Syslog does not find its record gone, and the copy does not fail. -/
def Kmsg.Safe (kmsg : Kmsg ι) : KmsgStep ι → Prop
  | .syslogPrint _ _ fault => kmsg.log.logFirstSeq ≤ kmsg.syslog.seq ∧ fault = false
  | _ => True

omit [DecidableEq ι] in
theorem Kmsg.Shows.safe {kmsg : Kmsg ι} {buffer : Buffer} {length : Nat} {journal : Journal ι}
    (shows : kmsg.Shows buffer length journal) {input : KmsgStep ι} (safe : kmsg.Safe input) :
    journal.Safe input := by
  rw [← shows.2]
  cases input with
  | syslogPrint size started fault => exact safe
  | _ => trivial

/-- The run of the journal, with what is known of the states that the steps find. -/
theorem Kmsg.Shows.run_safe (printkTime : Bool) {kmsg : Kmsg ι} {buffer : Buffer} {length : Nat}
    {journal : Journal ι} (shows : kmsg.Shows buffer length journal) {inputs : List (KmsgStep ι)}
    (allowed : ∀ input ∈ inputs, Allowed length input)
    (safe : AllowedAlong (step printkTime) Kmsg.Safe kmsg inputs) :
    ∃ last, Behaves (fun journal input seen next =>
        Journal.Step printkTime journal input seen next ∧ journal.Safe input) journal inputs
        (outputs (step printkTime) kmsg inputs) last ∧
      (stateAfter (step printkTime) kmsg inputs).Shows buffer length last := by
  refine behaves_of_allowedAlong ?_ shows
    ((allowedAlong_of_forall (step printkTime) kmsg allowed).and _ safe)
  rintro kmsg journal input shows ⟨allowed, safe⟩
  rcases step_simulates printkTime shows allowed with ⟨next, stepped, after⟩
  exact ⟨next, ⟨stepped, shows.safe safe⟩, after⟩

/--
Between two states of a run syslog reads the texts of the records one behind the other, in
pieces of whatever sizes its callers ask for: what it has read since then, and what it has
still to read, is what it had to read. This holds unless a turn of `syslog_print` finds that
its record is gone, or the copy to its caller fails.
-/
theorem Kmsg.syslogPrint_stream (printkTime : Bool) (buffer : Buffer) {length : Nat}
    (header : sizeofLog ≤ length) (before after : List (KmsgStep ι))
    (allowed : ∀ input ∈ before ++ after, Allowed length input) :
    let start := stateAfter (step printkTime) (initial buffer length) before
    let last := stateAfter (step printkTime) start after
    let calls := storeCalls (before ++ after)
    AllowedAlong (step printkTime) Kmsg.Safe start after →
      syslogBytes after (outputs (step printkTime) start after) ++
          textFrom printkTime calls last.syslog.seq last.syslogPrev last.syslogPartial =
        textFrom printkTime calls start.syslog.seq start.syslogPrev start.syslogPartial := by
  intro start last calls safe
  rcases (initial_shows buffer header).run printkTime
    (fun input mem => allowed input (List.mem_append_left _ mem)) with ⟨journal, run, shows⟩
  rcases shows.run_safe printkTime (fun input mem => allowed input (List.mem_append_right _ mem))
    safe with ⟨final, later, ends⟩
  have contents : journal.records.map Record.plain ++
      (storeCalls after).map (fun call => call.record.plain) =
        calls.map fun call => call.record.plain := by
    rw [Journal.contents_run run, ← List.map_append, ← storeCalls_append]
  have inside : journal.PartialInside printkTime calls := by
    have sofar := (Journal.inside_run run).append (storeCalls after)
    rw [← storeCalls_append] at sofar
    exact sofar
  have same := Journal.pending_run later contents inside
  rw [← shows.2, ← ends.2] at same
  exact same

/-- Two records, read in pieces of at most ten bytes. -/
theorem Kmsg.syslogPrint_stream_two :
    let start := stateAfter (step true) (initial (fun _ => 0) 256)
      [(.logStore (Log.shortCall 97) : KmsgStep Bool)]
    let after := [.syslogPrint 10 false false, .logStore (Log.shortCall 98),
      .syslogPrint 10 false false]
    let last := stateAfter (step true) start after
    let calls := storeCalls ([.logStore (Log.shortCall 97)] ++ after)
    syslogBytes after (outputs (step true) start after) ++
        textFrom true calls last.syslog.seq last.syslogPrev last.syslogPartial =
      textFrom true calls start.syslog.seq start.syslogPrev start.syslogPartial :=
  syslogPrint_stream true (fun _ => 0) (by decide) [.logStore (Log.shortCall 97)] _ (by decide)
    ⟨⟨by decide, rfl⟩, trivial, ⟨by decide, rfl⟩, trivial⟩

end Gray386.Printk
