import Gray386.Machine.Simulation
import Gray386.Printk.Readers

/-!
# The journal behind the kernel log

What the log and its readers are for is said by `Journal`: the list of all records that were
ever stored, the number of those that are gone, and for each reader the number of the record
that it reads next. There are no indices and no buffer in it.

Every run of the system of `Gray386.Printk.Readers` is one of the journal. So every reader
comes to the records in their order, to none twice, and passes one over only in three cases:
the record is gone, the buffer of the caller is too short for a line of /dev/kmsg, or the copy
to the caller fails. In the last two cases the number has been moved on before.
-/

namespace Gray386.Printk

open Gray386.Machine

/-- All records, how many of them are gone, and the number that each reader reads next. -/
structure Journal (ι : Type) where
  records : List Record
  gone : Nat
  clear : Nat
  console : Nat
  consolePrev : LogFlags
  syslog : Nat
  syslogPrev : LogFlags
  syslogPartial : Nat
  users : ι → Option (Nat × LogFlags)

namespace Journal

variable {ι : Type} [DecidableEq ι]

def setUser (journal : Journal ι) (user : ι) (state : Option (Nat × LogFlags)) : Journal ι :=
  { journal with users := Function.update journal.users user state }

/-- A user is shown the record with its number, or told that it is gone. -/
def devkmsgRead (journal : Journal ι) (who : ι) (count : Nat) (fault : Bool) :
    Seen × Journal ι :=
  match journal.users who with
  | none => (.badf, journal)
  | some (seq, prev) =>
      if seq < journal.gone then (.pipe, journal.setUser who (some (journal.gone, prev)))
      else match journal.records[seq]? with
        | none => (.again, journal)
        | some msg =>
            let line := exportRecord prev seq msg
            let journal := journal.setUser who (some (seq + 1, msg.flags))
            if line.length > count then (.inval, journal)
            else if fault then (.fault, journal)
            else (.bytes line, journal)

def devkmsgLlseek (journal : Journal ι) (who : ι) (offset : Int) (whence : Whence) :
    Seen × Journal ι :=
  match journal.users who with
  | none => (.badf, journal)
  | some (_, prev) =>
      if offset ≠ 0 then (.spipe, journal)
      else match whence with
        | .seekSet => (.nothing, journal.setUser who (some (journal.gone, prev)))
        | .seekData => (.nothing, journal.setUser who (some (journal.clear, prev)))
        | .seekEnd => (.nothing, journal.setUser who (some (journal.records.length, prev)))
        | .other => (.inval, journal)

def devkmsgPoll (journal : Journal ι) (who : ι) : Seen :=
  match journal.users who with
  | none => .badf
  | some (seq, _) => if seq < journal.records.length then .ready else .nothing

def syslogCatchUp (journal : Journal ι) : Journal ι :=
  if journal.syslog < journal.gone then
    { journal with syslog := journal.gone, syslogPrev := 0, syslogPartial := 0 }
  else journal

/-- The rest of the text of the record, or as much of it as there is room for. -/
def syslogNext (printkTime : Bool) (journal : Journal ι) (size : Nat) (started fault : Bool) :
    Seen × Journal ι :=
  match journal.records[journal.syslog]? with
  | none => (.nothing, journal)
  | some msg =>
      let skip := journal.syslogPartial
      let text := msgPrintText ⟨printkTime, true⟩ msg journal.syslogPrev textSize
      if text.length - skip ≤ size then
        (copied (text.drop skip) started fault,
          { journal with
            syslog := journal.syslog + 1
            syslogPrev := msg.flags
            syslogPartial := 0 })
      else if !started then
        (copied ((text.drop skip).take size) started fault,
          { journal with syslogPartial := skip + size })
      else (.nothing, journal)

def consoleCatchUp (journal : Journal ι) : Journal ι :=
  if journal.console < journal.gone then
    { journal with console := journal.gone, consolePrev := 0 }
  else journal

def consoleSkip : Nat → Journal ι → Journal ι
  | 0, journal => journal
  | turns + 1, journal =>
      match journal.records[journal.console]? with
      | none => journal
      | some msg =>
          if msg.flags.has logNocons then
            consoleSkip turns
              { journal with
                records := journal.records.set journal.console (msg.without logNocons)
                console := journal.console + 1
                consolePrev := msg.flags &&& ~~~logNocons }
          else journal

def consoleNext (printkTime : Bool) (journal : Journal ι) : Seen × Journal ι :=
  match journal.records[journal.console]? with
  | none => (.nothing, journal)
  | some msg =>
      (.console msg.level (msgPrintText ⟨printkTime, false⟩ msg journal.consolePrev textSize),
        { journal with console := journal.console + 1, consolePrev := msg.flags })

/-- One step; when a record is stored, `gone` is the number of those that are gone then. -/
def step (printkTime : Bool) (journal : Journal ι) (gone : Nat) : KmsgStep ι → Seen × Journal ι
  | .logStore call =>
      (.nothing, { journal with records := journal.records ++ [call.record], gone := gone })
  | .devkmsgOpen user prev => (.nothing, journal.setUser user (some (journal.gone, prev)))
  | .devkmsgRelease user => (.nothing, journal.setUser user none)
  | .devkmsgRead user count fault => journal.devkmsgRead user count fault
  | .devkmsgLlseek user offset whence => journal.devkmsgLlseek user offset whence
  | .devkmsgPoll user => (journal.devkmsgPoll user, journal)
  | .syslogPrint size started fault =>
      journal.syslogCatchUp.syslogNext printkTime size started fault
  | .clearCatchUp =>
      (.nothing, if journal.clear < journal.gone then
        { journal with clear := journal.gone } else journal)
  | .clear => (.nothing, { journal with clear := journal.records.length })
  | .consoleUnlock =>
      let journal := journal.consoleCatchUp
      (journal.consoleSkip (journal.records.length - journal.console)).consoleNext printkTime

/-- What a step may do: whenever a record is stored, some of the oldest ones may go. -/
def Step (printkTime : Bool) (journal : Journal ι) (input : KmsgStep ι) (seen : Seen)
    (next : Journal ι) : Prop :=
  ∃ gone, journal.gone ≤ gone ∧ gone ≤ journal.records.length ∧
    journal.step printkTime gone input = (seen, next)

def initial : Journal ι := ⟨[], 0, 0, 0, 0, 0, 0, 0, fun _ => none⟩

end Journal

/-- The console clears flags of a record that is kept, and nothing else. -/
theorem Log.Keeps.clearFlags {buffer : Buffer} {length : Nat} {stored : List Record} {log : Log}
    (keeps : Keeps buffer length stored log) {cursor : Cursor} (sound : cursor.Sound log)
    (kept : log.logFirstSeq ≤ cursor.seq) {record : Record}
    (found : stored[cursor.seq]? = some record) (mask : LogFlags) :
    Keeps buffer length (stored.set cursor.seq (record.without mask))
        (log.clearFlags cursor.idx mask) ∧
      ∀ other : Cursor, other.Sound log → other.Sound (log.clearFlags cursor.idx mask) := by
  rcases keeps.arranged with ⟨high, low, arranged⟩
  have counted := arranged.counted
  have bound := (List.getElem?_eq_some_iff.mp found).1
  have next := keeps.next
  have within : cursor.seq - log.logFirstSeq < (high ++ low).length := by
    rw [List.length_append]
    omega
  have records := keeps.records
  rw [arranged.records_eq] at records
  have same : (high ++ low)[cursor.seq - log.logFirstSeq] = record := by
    apply Option.some.inj
    rw [← List.getElem?_eq_getElem within, records, List.getElem?_drop,
      Nat.add_sub_cancel' kept, found]
  have address := arranged.logFromIdx_inside within
  rcases arranged.clearFlags within mask with ⟨high', low', placed, joined, positions⟩
  rw [← (sound kept).2] at placed positions address
  rw [same, records] at joined
  refine ⟨⟨⟨high', low', placed⟩, keeps.capacity, ?_, ?_, fun offset outside => ?_⟩,
    fun other otherSound above => ?_⟩
  · rw [List.length_set]
    exact next
  · rw [placed.records_eq, joined, List.drop_set, if_neg]
    · rfl
    · exact Nat.not_lt.mpr kept
  · rw [keeps.capacity, sizeofLog] at address
    rw [← keeps.outside offset outside]
    refine Buffer.write_of_ge ?_
    rw [List.length_singleton]
    omega
  · have before := otherSound above
    refine ⟨before.1, ?_⟩
    rw [before.2]
    exact (positions _ (by rw [List.length_append]; omega)).symm

namespace Kmsg

variable {ι : Type}

/-- The journal of a state, given the records that were stored. -/
def journal (kmsg : Kmsg ι) (records : List Record) : Journal ι where
  records := records
  gone := kmsg.log.logFirstSeq
  clear := kmsg.clear.seq
  console := kmsg.console.seq
  consolePrev := kmsg.consolePrev
  syslog := kmsg.syslog.seq
  syslogPrev := kmsg.syslogPrev
  syslogPartial := kmsg.syslogPartial
  users := fun user => (kmsg.users user).map fun state => (state.cursor.seq, state.prev)

/-- The buffer has the records that are not gone, and every cursor is sound. -/
structure Sound (buffer : Buffer) (length : Nat) (kmsg : Kmsg ι) (records : List Record) :
    Prop where
  keeps : Log.Keeps buffer length records kmsg.log
  clear : kmsg.clear.Sound kmsg.log
  console : kmsg.console.Sound kmsg.log
  syslog : kmsg.syslog.Sound kmsg.log
  users : ∀ user state, kmsg.users user = some state → state.cursor.Sound kmsg.log

/-- The state is sound, and this is its journal. -/
def Shows (buffer : Buffer) (length : Nat) (kmsg : Kmsg ι) (journal : Journal ι) : Prop :=
  kmsg.Sound buffer length journal.records ∧ kmsg.journal journal.records = journal

/-- Both levels show the same, and the states agree afterwards. -/
def Agrees (buffer : Buffer) (length : Nat) (here : Seen × Kmsg ι) (there : Seen × Journal ι) :
    Prop :=
  here.1 = there.1 ∧ here.2.Shows buffer length there.2

variable {kmsg : Kmsg ι} {buffer : Buffer} {length : Nat} {records : List Record}

namespace Sound

variable {cursor : Cursor}

theorem first_le (sound : kmsg.Sound buffer length records) :
    kmsg.log.logFirstSeq ≤ kmsg.log.logNextSeq := by
  rcases sound.keeps.arranged with ⟨high, low, arranged⟩
  rw [arranged.counted]
  exact Nat.le_add_right _ _

theorem firstCursor (sound : kmsg.Sound buffer length records) :
    kmsg.log.firstCursor.Sound kmsg.log := by
  rcases sound.keeps.arranged with ⟨high, low, arranged⟩
  exact arranged.sound_firstCursor

theorem nextCursor (sound : kmsg.Sound buffer length records) :
    kmsg.log.nextCursor.Sound kmsg.log := by
  rcases sound.keeps.arranged with ⟨high, low, arranged⟩
  exact arranged.sound_nextCursor

/-- The record that a reader finds is the one with its number. -/
theorem recordAt (sound : kmsg.Sound buffer length records) (cursorSound : cursor.Sound kmsg.log)
    (kept : kmsg.log.logFirstSeq ≤ cursor.seq) (stored : cursor.seq ≠ kmsg.log.logNextSeq) :
    records[cursor.seq]? = some (kmsg.log.recordAt cursor.idx) ∧
      (kmsg.log.advance cursor).Sound kmsg.log := by
  rcases sound.keeps.arranged with ⟨high, low, arranged⟩
  have bound := (cursorSound kept).1
  have found := arranged.recordAt_cursor cursorSound kept (by omega)
  rw [sound.keeps.records, List.getElem?_drop, Nat.add_sub_cancel' kept] at found
  exact ⟨found, Arranged.sound_advance cursorSound kept (by omega)⟩

theorem getElem?_eq_none (sound : kmsg.Sound buffer length records)
    (behind : cursor.seq = kmsg.log.logNextSeq) : records[cursor.seq]? = none := by
  rw [behind, sound.keeps.next]
  exact List.getElem?_eq_none (Nat.le_refl _)

end Sound

theorem devkmsgPoll_journal (sound : kmsg.Sound buffer length records) (who : ι) :
    kmsg.devkmsgPoll who = (kmsg.journal records).devkmsgPoll who := by
  rw [Kmsg.devkmsgPoll, Journal.devkmsgPoll]
  cases open? : kmsg.users who with
  | none => simp only [journal, open?, Option.map_none]
  | some user =>
      simp only [journal, open?, Option.map_some, sound.keeps.next]
      rfl

theorem syslogCatchUp_shows (sound : kmsg.Sound buffer length records) :
    kmsg.syslogCatchUp.Shows buffer length (kmsg.journal records).syslogCatchUp ∧
      kmsg.syslogCatchUp.log.logFirstSeq ≤ kmsg.syslogCatchUp.syslog.seq := by
  rw [Kmsg.syslogCatchUp, Journal.syslogCatchUp]
  change Shows buffer length _ (if kmsg.syslog.seq < kmsg.log.logFirstSeq then _ else _) ∧ _
  by_cases lost : kmsg.syslog.seq < kmsg.log.logFirstSeq
  · rw [if_pos lost, if_pos lost]
    exact ⟨⟨⟨sound.keeps, sound.clear, sound.console, sound.firstCursor, sound.users⟩, rfl⟩,
      Nat.le_refl _⟩
  · rw [if_neg lost, if_neg lost]
    exact ⟨⟨sound, rfl⟩, Nat.le_of_not_lt lost⟩

theorem agrees_syslogNext (printkTime : Bool) (sound : kmsg.Sound buffer length records)
    (kept : kmsg.log.logFirstSeq ≤ kmsg.syslog.seq) (size : Nat) (started fault : Bool) :
    Agrees buffer length (kmsg.syslogNext printkTime size started fault)
      ((kmsg.journal records).syslogNext printkTime size started fault) := by
  rw [Kmsg.syslogNext, Journal.syslogNext]
  change Agrees buffer length _ (match records[kmsg.syslog.seq]? with
    | none => _ | some msg => _)
  by_cases last : kmsg.syslog.seq = kmsg.log.logNextSeq
  · rw [if_pos last, sound.getElem?_eq_none last]
    exact ⟨rfl, sound, rfl⟩
  · rcases sound.recordAt sound.syslog kept last with ⟨found, next⟩
    rw [if_neg last, found]
    dsimp only [journal]
    split_ifs
    · exact ⟨rfl, ⟨sound.keeps, sound.clear, sound.console, next, sound.users⟩, rfl⟩
    · exact ⟨rfl, ⟨sound.keeps, sound.clear, sound.console, sound.syslog, sound.users⟩, rfl⟩
    · exact ⟨rfl, sound, rfl⟩

theorem consoleCatchUp_shows (sound : kmsg.Sound buffer length records) :
    kmsg.consoleCatchUp.Shows buffer length (kmsg.journal records).consoleCatchUp ∧
      kmsg.consoleCatchUp.log.logFirstSeq ≤ kmsg.consoleCatchUp.console.seq := by
  rw [Kmsg.consoleCatchUp, Journal.consoleCatchUp]
  change Shows buffer length _ (if kmsg.console.seq < kmsg.log.logFirstSeq then _ else _) ∧ _
  by_cases lost : kmsg.console.seq < kmsg.log.logFirstSeq
  · rw [if_pos lost, if_pos lost]
    exact ⟨⟨⟨sound.keeps, sound.clear, sound.firstCursor, sound.syslog, sound.users⟩, rfl⟩,
      Nat.le_refl _⟩
  · rw [if_neg lost, if_neg lost]
    exact ⟨⟨sound, rfl⟩, Nat.le_of_not_lt lost⟩

theorem consoleSkip_shows (turns : Nat) (sound : kmsg.Sound buffer length records)
    (kept : kmsg.log.logFirstSeq ≤ kmsg.console.seq) :
    (kmsg.consoleSkip turns).Shows buffer length ((kmsg.journal records).consoleSkip turns) ∧
      (kmsg.consoleSkip turns).log.logFirstSeq ≤ (kmsg.consoleSkip turns).console.seq := by
  induction turns generalizing kmsg records with
  | zero => exact ⟨⟨sound, rfl⟩, kept⟩
  | succ turns ih =>
      rw [Kmsg.consoleSkip, Journal.consoleSkip]
      change Shows buffer length _ (match records[kmsg.console.seq]? with
        | none => _ | some msg => _) ∧ _
      by_cases last : kmsg.console.seq = kmsg.log.logNextSeq
      · rw [if_pos last, sound.getElem?_eq_none last]
        exact ⟨⟨sound, rfl⟩, kept⟩
      · rcases sound.recordAt sound.console kept last with ⟨found, next⟩
        rw [if_neg last, found]
        dsimp only
        by_cases printed : (kmsg.log.recordAt kmsg.console.idx).flags.has logNocons
        · rw [if_pos printed, if_pos printed]
          rcases sound.keeps.clearFlags sound.console kept found logNocons with ⟨keeps, cursors⟩
          exact ih ⟨keeps, cursors _ sound.clear, cursors _ next, cursors _ sound.syslog,
            fun user state present => cursors _ (sound.users user state present)⟩
            (Nat.le_succ_of_le kept)
        · rw [if_neg printed, if_neg printed]
          exact ⟨⟨sound, rfl⟩, kept⟩

theorem agrees_consoleNext (printkTime : Bool) (sound : kmsg.Sound buffer length records)
    (kept : kmsg.log.logFirstSeq ≤ kmsg.console.seq) :
    Agrees buffer length (kmsg.consoleNext printkTime)
      ((kmsg.journal records).consoleNext printkTime) := by
  rw [Kmsg.consoleNext, Journal.consoleNext]
  change Agrees buffer length _ (match records[kmsg.console.seq]? with
    | none => _ | some msg => _)
  by_cases last : kmsg.console.seq = kmsg.log.logNextSeq
  · rw [if_pos last, sound.getElem?_eq_none last]
    exact ⟨rfl, sound, rfl⟩
  · rcases sound.recordAt sound.console kept last with ⟨found, next⟩
    rw [if_neg last, found]
    exact ⟨rfl, ⟨sound.keeps, sound.clear, next, sound.syslog, sound.users⟩, rfl⟩

/-- Storing keeps the cursors and gives up no record that is not there. -/
theorem logStore_shows (sound : kmsg.Sound buffer length records) {call : StoreCall}
    (fits : Fits length call.record) :
    Sound buffer length { kmsg with log := kmsg.log.logStore call } (records ++ [call.record]) ∧
      kmsg.log.logFirstSeq ≤ (kmsg.log.logStore call).logFirstSeq ∧
      (kmsg.log.logStore call).logFirstSeq ≤ records.length := by
  rcases sound.keeps.arranged with ⟨high, low, arranged⟩
  have held := fits
  rw [← sound.keeps.capacity] at held
  have kept : ∀ cursor : Cursor, cursor.Sound kmsg.log → cursor.Sound (kmsg.log.logStore call) :=
    fun cursor cursorSound => arranged.sound_store held cursorSound
  refine ⟨⟨sound.keeps.store fits, kept _ sound.clear, kept _ sound.console, kept _ sound.syslog,
    fun user state present => kept _ (sound.users user state present)⟩, ?_⟩
  rcases arranged.store held with ⟨dropped, high', low', stores⟩
  have within := stores.within
  have counted := arranged.counted
  rw [List.length_append] at within
  rw [Log.logStore, stores.first, ← sound.keeps.next]
  omega

/-- Whether a step can be taken: a record that is stored has to fit. -/
def Allowed (length : Nat) : KmsgStep ι → Prop
  | .logStore call => Fits length call.record
  | _ => True

instance (length : Nat) : (input : KmsgStep ι) → Decidable (Allowed length input)
  | .logStore call => inferInstanceAs (Decidable (Fits length call.record))
  | .devkmsgOpen .. | .devkmsgRelease _ | .devkmsgRead .. | .devkmsgLlseek .. | .devkmsgPoll _
  | .syslogPrint .. | .clearCatchUp | .clear | .consoleUnlock => .isTrue trivial

variable [DecidableEq ι]

theorem Sound.setUser (sound : kmsg.Sound buffer length records) {user : ι}
    {state : Option DevkmsgUser}
    (stateSound : ∀ new, state = some new → new.cursor.Sound kmsg.log) :
    (kmsg.setUser user state).Sound buffer length records := by
  refine ⟨sound.keeps, sound.clear, sound.console, sound.syslog, fun other found present => ?_⟩
  change Function.update kmsg.users user state other = some found at present
  by_cases here : other = user
  · subst here
    rw [Function.update_self] at present
    exact stateSound found present
  · rw [Function.update_of_ne here] at present
    exact sound.users other found present

theorem journal_setUser (kmsg : Kmsg ι) (records : List Record) (user : ι)
    (state : Option DevkmsgUser) :
    (kmsg.setUser user state).journal records = (kmsg.journal records).setUser user
      (state.map fun new => (new.cursor.seq, new.prev)) := by
  simp only [journal, setUser, Journal.setUser, Journal.mk.injEq, true_and]
  funext other
  by_cases here : other = user
  · subst here
    simp
  · simp [here]

/-- A user's cursor is moved, to the record with some number. -/
theorem Shows.setUser (sound : kmsg.Sound buffer length records) {user : ι} {state : DevkmsgUser}
    (stateSound : state.cursor.Sound kmsg.log) :
    (kmsg.setUser user (some state)).Shows buffer length
      ((kmsg.journal records).setUser user (some (state.cursor.seq, state.prev))) :=
  ⟨sound.setUser fun _ same => Option.some.inj same ▸ stateSound,
    journal_setUser kmsg records user (some state)⟩

theorem agrees_devkmsgRead (sound : kmsg.Sound buffer length records) (who : ι) (count : Nat)
    (fault : Bool) :
    Agrees buffer length (kmsg.devkmsgRead who count fault)
      ((kmsg.journal records).devkmsgRead who count fault) := by
  rw [Kmsg.devkmsgRead, Journal.devkmsgRead]
  cases open? : kmsg.users who with
  | none =>
      simp only [journal, open?, Option.map_none]
      exact ⟨rfl, sound, rfl⟩
  | some user =>
      have userSound := sound.users who user open?
      have shown : (kmsg.journal records).users who = some (user.cursor.seq, user.prev) := by
        simp [journal, open?]
      rw [shown]
      change Agrees buffer length (if _ then _ else if _ then _ else _)
        (if user.cursor.seq < kmsg.log.logFirstSeq then _ else match records[user.cursor.seq]? with
          | none => _ | some msg => _)
      by_cases last : user.cursor.seq = kmsg.log.logNextSeq
      · rw [if_pos last, sound.getElem?_eq_none last, if_neg]
        · exact ⟨rfl, sound, rfl⟩
        · rw [last]
          exact Nat.not_lt.mpr sound.first_le
      · rw [if_neg last]
        by_cases lost : user.cursor.seq < kmsg.log.logFirstSeq
        · rw [if_pos lost, if_pos lost]
          exact ⟨rfl, Shows.setUser sound sound.firstCursor⟩
        · rcases sound.recordAt userSound (Nat.le_of_not_lt lost) last with ⟨found, next⟩
          rw [if_neg lost, if_neg lost, found]
          dsimp only
          split_ifs <;> exact ⟨rfl, Shows.setUser sound next⟩

theorem agrees_devkmsgLlseek (sound : kmsg.Sound buffer length records) (who : ι) (offset : Int)
    (whence : Whence) :
    Agrees buffer length (kmsg.devkmsgLlseek who offset whence)
      ((kmsg.journal records).devkmsgLlseek who offset whence) := by
  rw [Kmsg.devkmsgLlseek, Journal.devkmsgLlseek]
  cases open? : kmsg.users who with
  | none =>
      simp only [journal, open?, Option.map_none]
      exact ⟨rfl, sound, rfl⟩
  | some user =>
      have shown : (kmsg.journal records).users who = some (user.cursor.seq, user.prev) := by
        simp [journal, open?]
      rw [shown]
      dsimp only
      by_cases moved : offset ≠ 0
      · rw [if_pos moved, if_pos moved]
        exact ⟨rfl, sound, rfl⟩
      · rw [if_neg moved, if_neg moved]
        cases whence with
        | seekSet => exact ⟨rfl, Shows.setUser sound sound.firstCursor⟩
        | seekData => exact ⟨rfl, Shows.setUser sound sound.clear⟩
        | seekEnd =>
            have shows : (kmsg.setUser who (some ⟨kmsg.log.nextCursor, user.prev⟩)).Shows buffer
                length ((kmsg.journal records).setUser who
                  (some (kmsg.log.logNextSeq, user.prev))) :=
              Shows.setUser sound sound.nextCursor
            rw [sound.keeps.next] at shows
            exact ⟨rfl, shows⟩
        | other => exact ⟨rfl, sound, rfl⟩

/-- One step of the system, and the same step of its journal. -/
theorem agrees_step (printkTime : Bool) (sound : kmsg.Sound buffer length records)
    {input : KmsgStep ι} (allowed : Allowed length input) :
    ∃ gone, kmsg.log.logFirstSeq ≤ gone ∧ gone ≤ records.length ∧
      Agrees buffer length (kmsg.step printkTime input)
        ((kmsg.journal records).step printkTime gone input) := by
  have first : kmsg.log.logFirstSeq ≤ records.length := by
    rw [← sound.keeps.next]
    exact sound.first_le
  cases input with
  | logStore call =>
      rcases logStore_shows sound allowed with ⟨stored, more, bound⟩
      exact ⟨_, more, bound, rfl, stored, rfl⟩
  | devkmsgOpen user prev =>
      exact ⟨_, Nat.le_refl _, first, rfl, Shows.setUser sound sound.firstCursor⟩
  | devkmsgRelease user =>
      exact ⟨_, Nat.le_refl _, first, rfl, sound.setUser (fun _ absurd => nomatch absurd),
        journal_setUser kmsg records user none⟩
  | devkmsgRead user count fault =>
      exact ⟨_, Nat.le_refl _, first, agrees_devkmsgRead sound user count fault⟩
  | devkmsgLlseek user offset whence =>
      exact ⟨_, Nat.le_refl _, first, agrees_devkmsgLlseek sound user offset whence⟩
  | devkmsgPoll user =>
      exact ⟨_, Nat.le_refl _, first, devkmsgPoll_journal sound user, sound, rfl⟩
  | syslogPrint size started fault =>
      rcases syslogCatchUp_shows sound with ⟨⟨caught, same⟩, kept⟩
      refine ⟨_, Nat.le_refl _, first, ?_⟩
      have agrees := agrees_syslogNext printkTime caught kept size started fault
      rw [same] at agrees
      exact agrees
  | clearCatchUp =>
      refine ⟨_, Nat.le_refl _, first, rfl, ?_⟩
      change Shows buffer length (if _ then _ else _)
        (if kmsg.clear.seq < kmsg.log.logFirstSeq then _ else _)
      split_ifs
      · exact ⟨⟨sound.keeps, sound.firstCursor, sound.console, sound.syslog, sound.users⟩, rfl⟩
      · exact ⟨sound, rfl⟩
  | clear =>
      refine ⟨_, Nat.le_refl _, first, rfl,
        ⟨sound.keeps, sound.nextCursor, sound.console, sound.syslog, sound.users⟩, ?_⟩
      change _ = { kmsg.journal records with clear := records.length }
      rw [← sound.keeps.next]
      rfl
  | consoleUnlock =>
      refine ⟨_, Nat.le_refl _, first, ?_⟩
      rcases consoleCatchUp_shows sound with ⟨⟨caught, same⟩, kept⟩
      rcases consoleSkip_shows (kmsg.consoleCatchUp.log.logNextSeq -
        kmsg.consoleCatchUp.console.seq) caught kept with ⟨⟨skipped, still⟩, left⟩
      have turns : kmsg.consoleCatchUp.log.logNextSeq - kmsg.consoleCatchUp.console.seq =
          (kmsg.journal records).consoleCatchUp.records.length -
            (kmsg.journal records).consoleCatchUp.console := by
        rw [caught.keeps.next, ← congrArg Journal.console same]
        rfl
      have agrees := agrees_consoleNext printkTime skipped left
      rw [still, same, turns] at agrees
      change Agrees buffer length ((kmsg.consoleCatchUp.consoleSkip
        (kmsg.consoleCatchUp.log.logNextSeq - kmsg.consoleCatchUp.console.seq)).consoleNext _) _
      rw [turns]
      exact agrees

/-- One step of the system is one of the journal. -/
theorem step_simulates (printkTime : Bool) {journal : Journal ι}
    (shows : kmsg.Shows buffer length journal) {input : KmsgStep ι}
    (allowed : Allowed length input) :
    ∃ next, journal.Step printkTime input (kmsg.step printkTime input).1 next ∧
      (kmsg.step printkTime input).2.Shows buffer length next := by
  rcases shows with ⟨sound, same⟩
  rcases agrees_step printkTime sound allowed with ⟨gone, more, bound, seen, after⟩
  rw [same] at seen after
  have first : journal.gone = kmsg.log.logFirstSeq := by
    rw [← same]
    rfl
  exact ⟨_, ⟨gone, by omega, bound, by rw [seen]⟩, after⟩

omit [DecidableEq ι] in
theorem initial_shows (buffer : Buffer) {length : Nat} (header : sizeofLog ≤ length) :
    (initial buffer length : Kmsg ι).Shows buffer length Journal.initial := by
  have arranged := Arranged.empty buffer header
  have start : Cursor.Sound ⟨0, 0⟩ (Log.empty buffer length) := arranged.sound_firstCursor
  exact ⟨⟨⟨⟨[], [], arranged⟩, rfl, rfl, rfl, fun _ _ => rfl⟩, start, start, start,
    fun _ _ absurd => nomatch absurd⟩, rfl⟩

/-- Every run from a state is one from its journal. -/
theorem Shows.run (printkTime : Bool) {journal : Journal ι}
    (shows : kmsg.Shows buffer length journal) {inputs : List (KmsgStep ι)}
    (allowed : ∀ input ∈ inputs, Allowed length input) :
    ∃ last, Behaves (Journal.Step printkTime) journal inputs
        (outputs (step printkTime) kmsg inputs) last ∧
      (stateAfter (step printkTime) kmsg inputs).Shows buffer length last :=
  behaves_of_simulates (fun _ _ _ shows allowed => step_simulates printkTime shows allowed)
    shows allowed

/--
Whatever the readers and writers of the log do, and in whatever order: what they are shown is
what the journal shows, and the buffer has the records of the journal that are not gone.
-/
theorem outputs_behaves (printkTime : Bool) (buffer : Buffer) {length : Nat}
    (header : sizeofLog ≤ length) {inputs : List (KmsgStep ι)}
    (allowed : ∀ input ∈ inputs, Allowed length input) :
    ∃ last, Behaves (Journal.Step printkTime) Journal.initial inputs
        (outputs (step printkTime) (initial buffer length) inputs) last ∧
      (stateAfter (step printkTime) (initial buffer length) inputs).Shows buffer length last :=
  (initial_shows buffer header).run printkTime allowed

/-- Two records in a buffer of 64 bytes, while a user reads and the console prints. -/
theorem outputs_behaves_two :
    ∃ last, Behaves (Journal.Step true) Journal.initial
        [.logStore (Log.shortCall 97), .devkmsgOpen true 0, .logStore (Log.shortCall 98),
          .devkmsgRead true 100 false, .consoleUnlock]
        (outputs (step true) (initial (fun _ => 0) 64)
          [.logStore (Log.shortCall 97), .devkmsgOpen true 0, .logStore (Log.shortCall 98),
            .devkmsgRead true 100 false, .consoleUnlock]) last ∧
      (stateAfter (step true) (initial (fun _ => 0) 64)
        [.logStore (Log.shortCall 97), .devkmsgOpen true 0, .logStore (Log.shortCall 98),
          .devkmsgRead true 100 false, .consoleUnlock]).Shows (fun _ => 0) 64 last :=
  outputs_behaves true _ (by decide) (by decide)

end Kmsg

end Gray386.Printk
