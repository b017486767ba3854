import Gray386.Printk.Journal

/-!
# What the readers of the kernel log get

The journal of `Gray386.Printk.Journal` shows the readers its own records. Here it is said
what that means for those who called `log_store`, whatever the order of the steps: a user of
/dev/kmsg comes to the records one by one, with the numbers, times and texts that they were
stored with, and is told when some are gone.
-/

namespace Gray386.Printk

open Gray386.Machine

variable {ι : Type}

/-- The calls of `log_store` among some steps. -/
def storeCalls (inputs : List (KmsgStep ι)) : List StoreCall :=
  inputs.filterMap fun input => match input with
    | .logStore call => some call
    | _ => none

theorem storeCalls_append (inputs others : List (KmsgStep ι)) :
    storeCalls (inputs ++ others) = storeCalls inputs ++ storeCalls others :=
  List.filterMap_append

/-- What readers see of a record: the console clears the flag in the buffer. -/
def Record.plain (record : Record) : Record := record.without logNocons

@[simp]
theorem Record.plain_without (record : Record) :
    (record.without logNocons).plain = record.plain := by
  simp only [Record.plain, Record.without]
  congr 1
  generalize record.flags = flags
  revert flags
  decide

/-- The user whose file a step is about. -/
def KmsgStep.user : KmsgStep ι → Option ι
  | .devkmsgOpen user _ | .devkmsgRelease user | .devkmsgRead user _ _
  | .devkmsgLlseek user _ _ | .devkmsgPoll user => some user
  | .logStore _ | .syslogPrint .. | .clearCatchUp | .clear | .consoleUnlock => none

theorem storeCalls_of_user {input : KmsgStep ι} {who : ι} (about : input.user = some who) :
    storeCalls [input] = [] := by
  cases input with
  | logStore call => exact absurd about nofun
  | _ => rfl

namespace Journal

/-- Only the place of syslog is another one. -/
def SyslogOnly (journal next : Journal ι) : Prop :=
  ∃ syslog prev done,
    next = { journal with syslog := syslog, syslogPrev := prev, syslogPartial := done }

/-- Only the place of the console is another one, and the flag that it clears. -/
def ConsoleOnly (journal next : Journal ι) : Prop :=
  ∃ records console prev,
    next = { journal with records := records, console := console, consolePrev := prev } ∧
      records.map Record.plain = journal.records.map Record.plain

theorem SyslogOnly.trans {first second third : Journal ι} (before : first.SyslogOnly second)
    (after : second.SyslogOnly third) : first.SyslogOnly third := by
  rcases before with ⟨_, _, _, rfl⟩
  rcases after with ⟨syslog, prev, done, rfl⟩
  exact ⟨syslog, prev, done, rfl⟩

theorem ConsoleOnly.trans {first second third : Journal ι} (before : first.ConsoleOnly second)
    (after : second.ConsoleOnly third) : first.ConsoleOnly third := by
  rcases before with ⟨_, _, _, rfl, plain⟩
  rcases after with ⟨records, console, prev, rfl, plain'⟩
  exact ⟨records, console, prev, rfl, plain'.trans plain⟩

theorem syslogCatchUp_only (journal : Journal ι) : journal.SyslogOnly journal.syslogCatchUp := by
  rw [syslogCatchUp]
  split_ifs <;> exact ⟨_, _, _, rfl⟩

theorem syslogNext_only (printkTime : Bool) (journal : Journal ι) (size : Nat)
    (started fault : Bool) :
    journal.SyslogOnly (journal.syslogNext printkTime size started fault).2 := by
  rw [syslogNext]
  split
  · exact ⟨_, _, _, rfl⟩
  · dsimp only
    split_ifs <;> exact ⟨_, _, _, rfl⟩

theorem map_plain_set {records : List Record} {number : Nat} {record : Record}
    (found : records[number]? = some record) :
    (records.set number (record.without logNocons)).map Record.plain =
      records.map Record.plain := by
  rw [List.map_set, Record.plain_without]
  refine List.ext_getElem? fun index => ?_
  rw [List.getElem?_set]
  split_ifs with here inside
  · rw [← here, List.getElem?_map, found, Option.map_some]
  · rw [List.getElem?_eq_none]
    omega
  · rfl

theorem consoleCatchUp_only (journal : Journal ι) :
    journal.ConsoleOnly journal.consoleCatchUp := by
  rw [consoleCatchUp]
  split_ifs <;> exact ⟨_, _, _, rfl, rfl⟩

theorem consoleSkip_only (turns : Nat) (journal : Journal ι) :
    journal.ConsoleOnly (journal.consoleSkip turns) := by
  induction turns generalizing journal with
  | zero => exact ⟨_, _, _, rfl, rfl⟩
  | succ turns ih =>
      rw [consoleSkip]
      split
      · exact ⟨_, _, _, rfl, rfl⟩
      · next msg found =>
        split_ifs
        · exact ConsoleOnly.trans ⟨_, _, _, rfl, map_plain_set found⟩ (ih _)
        · exact ⟨_, _, _, rfl, rfl⟩

theorem consoleNext_only (printkTime : Bool) (journal : Journal ι) :
    journal.ConsoleOnly (journal.consoleNext printkTime).2 := by
  rw [consoleNext]
  split <;> exact ⟨_, _, _, rfl, rfl⟩

variable [DecidableEq ι] (journal : Journal ι)

/-- The parts of the journal that a step may change. -/
inductive Changes (gone : Nat) : KmsgStep ι → Journal ι → Prop
  | store (call : StoreCall) :
      Changes gone (.logStore call)
        { journal with records := journal.records ++ [call.record], gone := gone }
  | user {input : KmsgStep ι} {who : ι} (about : input.user = some who)
      (state : Option (Nat × LogFlags)) : Changes gone input (journal.setUser who state)
  | syslog (size : Nat) (started fault : Bool) {next : Journal ι}
      (only : journal.SyslogOnly next) : Changes gone (.syslogPrint size started fault) next
  | clear {input : KmsgStep ι} (about : input = .clearCatchUp ∨ input = .clear) (clear : Nat) :
      Changes gone input { journal with clear := clear }
  | console {next : Journal ι} (only : journal.ConsoleOnly next) :
      Changes gone .consoleUnlock next

theorem setUser_self (who : ι) : journal.setUser who (journal.users who) = journal := by
  rw [setUser, Function.update_eq_self]

theorem devkmsgRead_changes (who : ι) (count : Nat) (fault : Bool) :
    ∃ state, (journal.devkmsgRead who count fault).2 = journal.setUser who state := by
  rw [devkmsgRead]
  split
  · exact ⟨_, (journal.setUser_self who).symm⟩
  · split
    · exact ⟨_, rfl⟩
    · split
      · exact ⟨_, (journal.setUser_self who).symm⟩
      · dsimp only
        split_ifs <;> exact ⟨_, rfl⟩

theorem devkmsgLlseek_changes (who : ι) (offset : Int) (whence : Whence) :
    ∃ state, (journal.devkmsgLlseek who offset whence).2 = journal.setUser who state := by
  rw [devkmsgLlseek]
  split
  · exact ⟨_, (journal.setUser_self who).symm⟩
  · split_ifs
    · exact ⟨_, (journal.setUser_self who).symm⟩
    · cases whence with
      | seekSet | seekData | seekEnd => exact ⟨_, rfl⟩
      | other => exact ⟨_, (journal.setUser_self who).symm⟩

theorem step_changes (printkTime : Bool) (gone : Nat) (input : KmsgStep ι) :
    journal.Changes gone input (journal.step printkTime gone input).2 := by
  cases input with
  | logStore call => exact .store call
  | devkmsgOpen who prev => exact .user rfl _
  | devkmsgRelease who => exact .user rfl _
  | devkmsgRead who count fault =>
      rcases journal.devkmsgRead_changes who count fault with ⟨state, same⟩
      rw [step, same]
      exact .user rfl _
  | devkmsgLlseek who offset whence =>
      rcases journal.devkmsgLlseek_changes who offset whence with ⟨state, same⟩
      rw [step, same]
      exact .user rfl _
  | devkmsgPoll who =>
      have same : (journal.step printkTime gone (.devkmsgPoll who)).2 =
          journal.setUser who (journal.users who) := (journal.setUser_self who).symm
      rw [same]
      exact .user rfl _
  | syslogPrint size started fault =>
      exact .syslog size started fault (journal.syslogCatchUp_only.trans (syslogNext_only ..))
  | clearCatchUp =>
      rw [step]
      dsimp only
      split_ifs
      · exact .clear (Or.inl rfl) _
      · exact .clear (Or.inl rfl) journal.clear
  | clear => exact .clear (Or.inr rfl) _
  | consoleUnlock =>
      exact .console ((journal.consoleCatchUp_only.trans (consoleSkip_only _ _)).trans
        (consoleNext_only printkTime _))

variable {journal} {gone : Nat} {input : KmsgStep ι} {next : Journal ι}

theorem Step.changes {printkTime : Bool} {seen : Seen}
    (step : journal.Step printkTime input seen next) :
    ∃ gone, journal.gone ≤ gone ∧ gone ≤ journal.records.length ∧
      journal.Changes gone input next := by
  rcases step with ⟨gone, lost, bound, stepped⟩
  have changes := journal.step_changes printkTime gone input
  rw [stepped] at changes
  exact ⟨gone, lost, bound, changes⟩

/-- Records are only appended, but for the flag that the console clears. -/
theorem Changes.contents (changes : journal.Changes gone input next) :
    next.records.map Record.plain = journal.records.map Record.plain ++
      (storeCalls [input]).map fun call => call.record.plain := by
  cases changes with
  | store call => simp [storeCalls]
  | user about state => simp [storeCalls_of_user about, setUser]
  | syslog _ _ _ only =>
      rcases only with ⟨_, _, _, rfl⟩
      simp [storeCalls]
  | clear about => rcases about with rfl | rfl <;> simp [storeCalls]
  | console only =>
      rcases only with ⟨_, _, _, rfl, contents⟩
      simp [storeCalls, contents]

theorem Changes.length_le (changes : journal.Changes gone input next) :
    journal.records.length ≤ next.records.length := by
  have lengths := congrArg List.length changes.contents
  simp only [List.length_append, List.length_map] at lengths
  omega

/-- Together with what is stored later, the records stay the same. -/
theorem Changes.contents_tail (changes : journal.Changes gone input next)
    {rest : List (KmsgStep ι)} {records : List Record}
    (contents : journal.records.map Record.plain ++
      (storeCalls (input :: rest)).map (fun call => call.record.plain) = records) :
    next.records.map Record.plain ++
      (storeCalls rest).map (fun call => call.record.plain) = records := by
  rw [changes.contents, List.append_assoc, ← List.map_append, ← storeCalls_append]
  exact contents

theorem Changes.users (changes : journal.Changes gone input next) {who : ι}
    (quiet : input.user ≠ some who) : next.users who = journal.users who := by
  cases changes with
  | store call => rfl
  | user about state =>
      refine Function.update_of_ne (fun same => quiet ?_) _ _
      rw [about, same]
  | syslog _ _ _ only =>
      rcases only with ⟨_, _, _, rfl⟩
      rfl
  | clear => rfl
  | console only =>
      rcases only with ⟨_, _, _, rfl, _⟩
      rfl

end Journal

/--
What a step shows, and what the log has before it: the numbers of the first record that is
kept and of the next one that will be stored.
-/
structure Moment where
  first : Nat
  next : Nat
  seen : Seen

/-- A read with the size of the buffer, and whether `copy_to_user` fails. -/
structure Read extends Moment where
  count : Nat
  fault : Bool

/-- The reads of a user. -/
def readsOf [DecidableEq ι] (who : ι) : List (KmsgStep ι) → List Moment → List Read
  | .devkmsgRead user count fault :: inputs, moment :: others =>
      if user = who then ⟨moment, count, fault⟩ :: readsOf who inputs others
      else readsOf who inputs others
  | _ :: inputs, _ :: others => readsOf who inputs others
  | _, _ => []

/-- The file of a user is not opened, closed or moved in a step. -/
def KmsgStep.Leaves (who : ι) : KmsgStep ι → Prop
  | .devkmsgOpen user _ | .devkmsgRelease user | .devkmsgLlseek user _ _ => user ≠ who
  | _ => True

/--
What a user reads that is at some record. It waits exactly at the end of the log, it is told
when its record is gone and goes on with the first one that is kept, and otherwise it is given
the line of its record. If the buffer is too short for the line or cannot be written, there is
an error instead of the line, and the record is passed over all the same.
-/
inductive Follows (calls : List StoreCall) : Nat → List Read → Prop
  | done (number : Nat) : Follows calls number []
  | wait {number : Nat} {read : Read} {rest : List Read} (last : number = read.next)
      (seen : read.seen = .again) (tail : Follows calls number rest) :
      Follows calls number (read :: rest)
  | lost {number : Nat} {read : Read} {rest : List Read} (gone : number < read.first)
      (seen : read.seen = .pipe) (tail : Follows calls read.first rest) :
      Follows calls number (read :: rest)
  | record {number : Nat} {read : Read} {rest : List Read} {call : StoreCall} {text : List Byte}
      {mark : Byte} (kept : read.first ≤ number) (stored : number < read.next)
      (called : calls[number]? = some call)
      (content : Line.parse text = call.record.line number mark)
      (seen : read.seen = if text.length > read.count then .inval
        else if read.fault then .fault else .bytes text)
      (tail : Follows calls (number + 1) rest) : Follows calls number (read :: rest)

variable [DecidableEq ι]

theorem readsOf_cons_of_ne {who : ι} {input : KmsgStep ι} (other : input.user ≠ some who)
    (inputs : List (KmsgStep ι)) (moment : Moment) (others : List Moment) :
    readsOf who (input :: inputs) (moment :: others) = readsOf who inputs others := by
  cases input with
  | devkmsgRead user count fault =>
      have ne : user ≠ who := fun same => other (by rw [same]; rfl)
      rw [readsOf, if_neg ne]
  | _ => rfl

theorem plain_line {record other : Record} (same : record.plain = other.plain) :
    record.line = other.line := by
  have parts := same
  simp only [Record.plain, Record.without, Record.mk.injEq] at parts
  funext number mark
  simp only [Record.line, Record.priority, parts]

/-- A record of the journal is that of the call with its number. -/
theorem stored_of_found {records later : List Record} {calls : List StoreCall}
    (contents : records.map Record.plain ++ later = calls.map fun call => call.record.plain)
    {number : Nat} {record : Record} (found : records[number]? = some record) :
    ∃ call, calls[number]? = some call ∧ record.plain = call.record.plain := by
  have inside := (List.getElem?_eq_some_iff.mp found).1
  have entry := congrArg (fun list => list[number]?) contents
  simp only [List.getElem?_map] at entry
  rw [List.getElem?_append_left (by rw [List.length_map]; exact inside), List.getElem?_map, found,
    Option.map_some] at entry
  rcases Option.map_eq_some_iff.mp entry.symm with ⟨call, stored, same⟩
  exact ⟨call, stored, same.symm⟩

/-- A step of the journal, with the numbers that its state has. -/
def Journal.Watched (printkTime : Bool) (journal : Journal ι) (input : KmsgStep ι)
    (moment : Moment) (next : Journal ι) : Prop :=
  journal.Step printkTime input moment.seen next ∧ moment.first = journal.gone ∧
    moment.next = journal.records.length ∧ journal.gone ≤ journal.records.length

/-- One read of a user, for what follows. -/
theorem Journal.follows_read {journal : Journal ι} {who : ι} {number : Nat} {prev : LogFlags}
    {calls : List StoreCall} (reading : journal.users who = some (number, prev))
    (behind : number ≤ journal.records.length) (first : journal.gone ≤ journal.records.length)
    (count : Nat) (fault : Bool) {later : List Record}
    (contents : journal.records.map Record.plain ++ later =
      calls.map fun call => call.record.plain) {rest : List Read}
    (tail : ∀ number prev, (journal.devkmsgRead who count fault).2.users who =
      some (number, prev) → number ≤ journal.records.length → Follows calls number rest) :
    Follows calls number (⟨⟨journal.gone, journal.records.length,
      (journal.devkmsgRead who count fault).1⟩, count, fault⟩ :: rest) := by
  have moved : ∀ state, (journal.setUser who (some state)).users who = some state :=
    fun state => Function.update_self ..
  rw [Journal.devkmsgRead, reading] at tail ⊢
  dsimp only at tail ⊢
  by_cases lost : number < journal.gone
  · rw [if_pos lost] at tail ⊢
    exact .lost lost rfl (tail _ _ (moved _) first)
  · rw [if_neg lost] at tail ⊢
    cases found : journal.records[number]? with
    | none =>
        rw [found] at tail
        have last : number = journal.records.length :=
          Nat.le_antisymm behind (List.getElem?_eq_none_iff.mp found)
        exact .wait last rfl (tail _ _ reading behind)
    | some msg =>
        rw [found] at tail
        dsimp only at tail ⊢
        have inside := (List.getElem?_eq_some_iff.mp found).1
        rcases stored_of_found contents found with ⟨call, called, same⟩
        have content := parse_exportRecord prev number msg
        rw [plain_line same] at content
        refine .record (Nat.le_of_not_lt lost) inside called content ?_ (tail _ msg.flags ?_ inside)
        · dsimp only
          split_ifs <;> rfl
        · split_ifs <;> exact moved _

/-- All reads of a user whose file is left alone. -/
theorem Journal.follows_run {printkTime : Bool} {journal last : Journal ι}
    {inputs : List (KmsgStep ι)} {moments : List Moment}
    (run : Behaves (Journal.Watched printkTime) journal inputs moments last) {who : ι}
    {number : Nat} {prev : LogFlags} (reading : journal.users who = some (number, prev))
    (behind : number ≤ journal.records.length)
    (leaves : ∀ input ∈ inputs, input.Leaves who) {calls : List StoreCall}
    (contents : journal.records.map Record.plain ++
      (storeCalls inputs).map (fun call => call.record.plain) =
        calls.map fun call => call.record.plain) :
    Follows calls number (readsOf who inputs moments) := by
  induction run generalizing number prev with
  | nil state => exact .done number
  | @cons journal next last input moment rest others first tail ih =>
      rcases first with ⟨step, first_eq, next_eq, first_le⟩
      rcases step.changes with ⟨_, -, -, changes⟩
      rcases step with ⟨gone, -, -, stepped⟩
      have afterwards : ∀ number prev, next.users who = some (number, prev) →
          number ≤ journal.records.length → Follows calls number (readsOf who rest others) :=
        fun number prev reading behind => ih reading (Nat.le_trans behind changes.length_le)
          (fun input mem => leaves input (List.mem_cons_of_mem _ mem))
          (changes.contents_tail contents)
      by_cases about : input.user = some who
      · have alone := leaves input List.mem_cons_self
        cases input with
        | devkmsgOpen user _ | devkmsgRelease user | devkmsgLlseek user _ _ =>
            exact absurd (Option.some.inj about) alone
        | devkmsgRead user count fault =>
            cases Option.some.inj about
            rw [readsOf, if_pos rfl]
            rcases moment with ⟨start, stop, seen⟩
            change journal.devkmsgRead who count fault = (seen, next) at stepped
            cases first_eq
            cases next_eq
            have shown : (journal.devkmsgRead who count fault).1 = seen := by rw [stepped]
            rw [← shown]
            refine follows_read reading behind first_le count fault contents ?_
            rw [stepped]
            exact afterwards
        | devkmsgPoll user =>
            have same : next = journal := (congrArg Prod.snd stepped).symm
            subst same
            exact afterwards number prev reading behind
        | logStore | syslogPrint | clearCatchUp | clear | consoleUnlock => exact absurd about nofun
      · rw [readsOf_cons_of_ne about]
        exact afterwards number prev (by rw [changes.users about, reading]) behind

/-- What the calls of `log_store` have left in the journal. -/
theorem Journal.contents_run {printkTime : Bool} {last : Journal ι} {inputs : List (KmsgStep ι)}
    {seen : List Seen} (run : Behaves (Journal.Step printkTime) Journal.initial inputs seen last) :
    last.records.map Record.plain = (storeCalls inputs).map fun call => call.record.plain := by
  refine Behaves.invariant (fun past _ journal => journal.records.map Record.plain =
    (storeCalls past).map fun call => call.record.plain) ?_ rfl run
  intro past _ journal input _ next contents step
  rcases step.changes with ⟨_, -, -, changes⟩
  rw [changes.contents, contents, storeCalls_append, List.map_append]

/-- A file that was just opened is at the first record that is left. -/
theorem Kmsg.users_devkmsgOpen (printkTime : Bool) {kmsg : Kmsg ι} {who : ι} {prev : LogFlags}
    {buffer : Buffer} {length : Nat} {journal : Journal ι}
    (shows : (kmsg.step printkTime (.devkmsgOpen who prev)).2.Shows buffer length journal) :
    journal.users who = some (kmsg.log.logFirstSeq, prev) := by
  rw [← shows.2]
  simp [Kmsg.journal, Kmsg.step, Kmsg.setUser, Log.firstCursor]

/-- A step of the system, with the numbers that its log has. -/
def Kmsg.watched (printkTime : Bool) (kmsg : Kmsg ι) (input : KmsgStep ι) : Moment × Kmsg ι :=
  (⟨kmsg.log.logFirstSeq, kmsg.log.logNextSeq, (kmsg.step printkTime input).1⟩,
    (kmsg.step printkTime input).2)

theorem Kmsg.Shows.watched (printkTime : Bool) {kmsg : Kmsg ι} {buffer : Buffer} {length : Nat}
    {journal : Journal ι} (shows : kmsg.Shows buffer length journal) {inputs : List (KmsgStep ι)}
    (allowed : ∀ input ∈ inputs, Allowed length input) :
    ∃ last, Behaves (Journal.Watched printkTime) journal inputs
      (outputs (Kmsg.watched printkTime) kmsg inputs) last := by
  have simulated : ∀ (kmsg : Kmsg ι) (journal : Journal ι) (input : KmsgStep ι),
      kmsg.Shows buffer length journal → Allowed length input →
        ∃ next, journal.Watched printkTime input (kmsg.watched printkTime input).1 next ∧
          (kmsg.watched printkTime input).2.Shows buffer length next := by
    intro kmsg journal input shows allowed
    rcases step_simulates printkTime shows allowed with ⟨next, step, after⟩
    have first : kmsg.log.logFirstSeq = journal.gone := congrArg Journal.gone shows.2
    have length_eq := shows.1.keeps.next
    refine ⟨next, ⟨step, first, length_eq, ?_⟩, after⟩
    rw [← first, ← length_eq]
    exact shows.1.first_le
  rcases behaves_of_simulates simulated shows allowed with ⟨last, run, -⟩
  exact ⟨last, run⟩

end Gray386.Printk
