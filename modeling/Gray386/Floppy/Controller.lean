import Gray386.Floppy.Request
import Mathlib.Tactic.Linarith
import Mathlib.Tactic.Ring

/-!
# What the controller reports

A read or write command names the first sector, and the controller then counts up the number
of the sector by itself. Behind the last sector of a side, which is the one that the command
says it is, comes the first sector of the other side if the command is for both sides; there
is nothing behind the second side. The result has the place behind the last sector that was
transferred or, if the controller wanted to go on where nothing follows, the place of that
sector and a bit for it.

`rw_interrupt` gets the number of sectors back from the result. It depends on nothing else how
much of a request is done and what the track buffer holds.
-/

namespace Gray386.Floppy

open Gray386.Machine

/-- The place of a sector, as the controller counts. -/
structure Position where
  track : Int
  head : Int
  sector : Int
  deriving DecidableEq, Repr

namespace RwCmd

variable (cmd : RwCmd)

/-- The command is for both sides. -/
def multiTrack : Bool := cmd.command &&& 0x80 ≠ 0

def start : Position := ⟨cmd.track, cmd.head, cmd.sector⟩

/-- The place behind a sector. -/
def next (here : Position) : Position :=
  if here.sector ≠ cmd.sectPerTrack then { here with sector := here.sector + 1 }
  else if !cmd.multiTrack then ⟨here.track + 1, here.head, 1⟩
  else if here.head % 2 = 0 then ⟨here.track, here.head + 1, 1⟩
  else ⟨here.track + 1, here.head - 1, 1⟩

/-- A sector follows that belongs to the command. -/
def goesOn (here : Position) : Bool :=
  here.sector ≠ cmd.sectPerTrack || (cmd.multiTrack && here.head % 2 = 0)

/-- The sectors that are transferred, if there is data for so many. -/
def passes : Nat → Position → List Position
  | 0, _ => []
  | count + 1, here => here :: if cmd.goesOn here then passes count (cmd.next here) else []

end RwCmd

/-- The bytes of the result that `rw_interrupt` looks at. -/
structure RwReply where
  rTrack : Int
  rHead : Int
  rSector : Int
  /-- `ST1_EOC` is set. -/
  eoc : Bool
  deriving DecidableEq, Repr

namespace Position

/-- The result at a place. -/
def reply (here : Position) (eoc : Bool) : RwReply :=
  ⟨uchar here.track, uchar here.head, uchar here.sector, eoc⟩

end Position

/-- The result of a command that had data for so many sectors from a place on. -/
def RwCmd.replyFrom (cmd : RwCmd) : Nat → Position → RwReply
  | 0, here => here.reply false
  | count + 1, here =>
      if cmd.goesOn here then replyFrom cmd count (cmd.next here)
      else if count = 0 then (cmd.next here).reply false
      else here.reply true

/-- What `interpret_errors` finds, and what it does. -/
inductive Verdict where
  /-- It returns 0. -/
  | fine
  /-- It returns 1. -/
  | bad
  /-- It calls `cont->done(0)` and returns 2. -/
  | refused
  /-- It calls `cont->error` and returns 2. -/
  | polled
  deriving DecidableEq, Repr

/-- What `rw_interrupt` calls, by itself or in `interpret_errors`. -/
inductive RwAction where
  /-- It returns at once. -/
  | ignored
  /-- `cont->redo`. -/
  | redo
  /-- `cont->done(0)` and `cont->redo`. -/
  | refused
  /-- `cont->error` and `cont->redo`. -/
  | failed
  /-- `cont->done(1)` and `cont->redo`, for so many sectors. -/
  | done (currentCountSectors : Int)
  /-- `cont->redo`, when the data is in the track buffer. -/
  | loaded
  deriving DecidableEq, Repr

namespace Layout

variable (layout : Layout) (reply : RwReply)

/-- `nr_sectors`, before the part of the first sector that was not asked for is taken off. -/
def sectorsPassed : Int :=
  let cmd := layout.cmd
  let heads := if cmd.multiTrack then 2 else 1
  (((reply.rTrack - cmd.track) * heads + reply.rHead - cmd.head) * cmd.sectPerTrack +
    reply.rSector - cmd.sector + reply.eoc.toNat) * 2 ^ cmd.sizecode.toNat / 4

/-- `nr_sectors`. -/
def nrSectors : Int := max (layout.sectorsPassed reply - layout.inSectorOffset) 0

/-- `rw_interrupt`, as far as the data is concerned. -/
def rwInterrupt (input : RwInput) (req : Request) (kernelData count : Int) (verdict : Verdict)
    (buffer : BufferState) : RwAction × BufferState :=
  let count := min count (layout.nrSectors reply)
  if reply.rHead ≥ 2 then (.ignored, buffer)
  else if verdict = .refused then (.refused, buffer)
  else if verdict = .polled then (.failed, buffer)
  else if count = 0 then
    if verdict = .bad then (.failed, buffer) else (.redo, buffer)
  else if !layout.reads || kernelData = req.buffer.toNat then (.done count, buffer)
  else
    (.loaded, { buffer with
      bufferTrack := layout.cmd.seekTrack
      bufferDrive := input.currentDrive.toInt
      bufferMax := max buffer.bufferMax (layout.nrSectors reply + layout.fsectorT) })

end Layout

/-- A command that goes on from place to place. -/
theorem RwCmd.passes_of_steps {cmd : RwCmd} {count : Nat} (place : Nat → Position)
    (steps : ∀ i, i + 1 < count →
      cmd.goesOn (place i) = true ∧ cmd.next (place i) = place (i + 1)) :
    cmd.passes count (place 0) = (List.range count).map place := by
  induction count generalizing place with
  | zero => rfl
  | succ count ih =>
      rw [RwCmd.passes, List.range_succ_eq_map, List.map_cons, List.map_map]
      congr 1
      cases count with
      | zero => simp [RwCmd.passes]
      | succ count =>
          rcases steps 0 (by omega) with ⟨on, next_eq⟩
          rw [if_pos on, next_eq]
          exact ih _ fun i lt => steps (i + 1) (by omega)

/-- The bytes of the result are enough for every place that the controller gets to. -/
structure RwCmd.Countable (cmd : RwCmd) (here : Position) (count : Nat) : Prop where
  track_nonneg : 0 ≤ here.track
  track_lt : here.track < 255
  head_nonneg : 0 ≤ here.head
  head_lt : here.head < 2
  sector_nonneg : 0 ≤ here.sector
  sector_lt : here.sector + count < 256 ∨ 0 < cmd.sectPerTrack ∧ here.sector ≤ cmd.sectPerTrack
  last_lt : cmd.sectPerTrack < 256

section Count

variable {cmd : RwCmd} {here : Position} {count : Nat}

/-- The sectors of a command are numbered through. -/
def Position.number (cmd : RwCmd) (here : Position) : Int :=
  (here.track * (if cmd.multiTrack then 2 else 1) + here.head) * cmd.sectPerTrack + here.sector

def RwReply.number (cmd : RwCmd) (reply : RwReply) : Int :=
  (reply.rTrack * (if cmd.multiTrack then 2 else 1) + reply.rHead) * cmd.sectPerTrack +
    reply.rSector + reply.eoc.toNat

theorem RwCmd.number_next (cmd : RwCmd) (here : Position) :
    (cmd.next here).number cmd = here.number cmd + 1 := by
  unfold RwCmd.next Position.number
  cases both : cmd.multiTrack with
  | false => split_ifs <;> simp_all <;> ring
  | true => split_ifs <;> simp_all <;> ring

theorem Position.number_reply (eoc : Bool) (track : 0 ≤ here.track ∧ here.track < 256)
    (head : 0 ≤ here.head ∧ here.head < 256) (sector : 0 ≤ here.sector ∧ here.sector < 256) :
    (here.reply eoc).number cmd = here.number cmd + eoc.toNat := by
  simp only [Position.reply, RwReply.number, Position.number]
  rw [uchar_of_bounds track.1 track.2, uchar_of_bounds head.1 head.2,
    uchar_of_bounds sector.1 sector.2]

namespace RwCmd.Countable

theorem number_reply (countable : cmd.Countable here count) (eoc : Bool) :
    (here.reply eoc).number cmd = here.number cmd + eoc.toNat := by
  rcases countable with ⟨track_nonneg, track_lt, head_nonneg, head_lt, sector_nonneg, sector_lt,
    last_lt⟩
  exact Position.number_reply eoc (by omega) (by omega) (by omega)

/-- The place behind the last sector of a command. -/
theorem number_reply_next (countable : cmd.Countable here (count + 1)) :
    ((cmd.next here).reply false).number cmd = here.number cmd + 1 := by
  rcases countable with ⟨track_nonneg, track_lt, head_nonneg, head_lt, sector_nonneg, sector_lt,
    last_lt⟩
  rw [← RwCmd.number_next, Position.number_reply false]
  · simp
  all_goals
    unfold RwCmd.next
    split_ifs <;> simp only <;> omega

theorem next (countable : cmd.Countable here (count + 1)) (on : cmd.goesOn here = true) :
    cmd.Countable (cmd.next here) count := by
  rcases countable with ⟨track_nonneg, track_lt, head_nonneg, head_lt, sector_nonneg, sector_lt,
    last_lt⟩
  simp only [RwCmd.goesOn, Bool.or_eq_true, Bool.and_eq_true, decide_eq_true_eq] at on
  unfold RwCmd.next
  split_ifs with inside single first
  · exact ⟨track_nonneg, track_lt, head_nonneg, head_lt, by simp only; omega, by simp only; omega,
      last_lt⟩
  · simp_all
  · exact ⟨track_nonneg, track_lt, by simp only; omega, by simp only; omega, by simp only; omega,
      by simp only; omega, last_lt⟩
  · simp_all

/-- The result counts the sectors that were transferred. -/
theorem number_replyFrom (countable : cmd.Countable here count) :
    (cmd.replyFrom count here).number cmd =
      here.number cmd + (cmd.passes count here).length := by
  induction count generalizing here with
  | zero => simp [RwCmd.replyFrom, RwCmd.passes, countable.number_reply]
  | succ count ih =>
      rw [RwCmd.replyFrom, RwCmd.passes]
      split_ifs with on last
      · rw [ih (countable.next on), RwCmd.number_next, List.length_cons]
        omega
      · rw [countable.number_reply_next]
        simp
      · rw [countable.number_reply]
        simp

/-- The head in the result is one of the two that there are. -/
theorem rHead_lt (countable : cmd.Countable here count) :
    (cmd.replyFrom count here).rHead < 2 := by
  have head_nonneg := countable.head_nonneg
  have head_lt := countable.head_lt
  induction count generalizing here with
  | zero =>
      simp only [RwCmd.replyFrom, Position.reply, uchar]
      omega
  | succ count ih =>
      rw [RwCmd.replyFrom]
      split_ifs with on last
      · have next := countable.next on
        exact ih next next.head_nonneg next.head_lt
      · simp only [Position.reply, RwCmd.next, uchar]
        split_ifs <;> simp only <;> omega
      · simp only [Position.reply, uchar]
        omega

end RwCmd.Countable

/-- `rw_interrupt` counts the sectors that were transferred, in blocks of 512 bytes. -/
theorem sectorsPassed_replyFrom (layout : Layout) (count : Nat)
    (countable : layout.cmd.Countable layout.cmd.start count) :
    layout.sectorsPassed (layout.cmd.replyFrom count layout.cmd.start) =
      (layout.cmd.passes count layout.cmd.start).length * 2 ^ layout.cmd.sizecode.toNat / 4 := by
  have counted := countable.number_replyFrom
  simp only [RwReply.number, Position.number, RwCmd.start] at counted
  rw [Layout.sectorsPassed]
  congr 2
  rw [RwCmd.start]
  generalize (if layout.cmd.multiTrack = true then (2 : Int) else 1) = heads at counted ⊢
  linarith

end Count

end Gray386.Floppy
