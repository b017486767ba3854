import Gray386.Floppy.Geometry
import Gray386.Floppy.RawCommand
import Mathlib.Data.Nat.ModEq

/-!
# Formatting a track

For a track that is formatted the controller is given four bytes for each sector.
`setup_format_params` writes them to the beginning of the track buffer, in the order of the
slots of the track. The sector numbers are interleaved: it goes on by one or two slots, and
where that slot is busy it takes the one behind it. Only if this is the end of the track does
it look for a slot that is free.

The memory from the beginning of the track buffer on is a list, and a search that leaves it
has no result.
-/

namespace Gray386.Floppy

open Gray386.Machine

/-- `struct format_descr`. -/
structure FormatDescr where
  device : Word
  head : Word
  track : Word
  deriving DecidableEq, Repr

/-- `struct fparm`. -/
structure Fparm where
  track : Byte
  head : Byte
  sect : Byte
  size : Byte
  deriving DecidableEq, Repr

/-- `F_SECT_PER_TRACK`, as `setup_format_params` computes it. -/
def FloppyStruct.formatSectors (floppy : FloppyStruct) : Byte :=
  ((floppy.sect <<< 2) >>> floppy.sizecode).setWidth 8

/-- `here[n].sect` is not zero. -/
def busy (here : List Fparm) (n : Nat) : Bool :=
  here[n]?.any fun entry => entry.sect ≠ 0

/--
`while (here[n].sect) ++n` over the entries from `n` on: where it stops, and which entries
it looks at.
-/
def searchFree : List Fparm → Nat → Option Nat × List Nat
  | [], _ => (none, [])
  | entry :: rest, n =>
      if entry.sect ≠ 0 then
        let (found, seen) := searchFree rest (n + 1)
        (found, n :: seen)
      else (some n, [n])

section Placement

variable (sectors il : Nat)

/-- The slot for the next sector, and the entries that are looked at. -/
def nextSlot (here : List Fparm) (n : Nat) : Option Nat × List Nat :=
  let n := (n + il) % sectors
  if busy here n then
    if n + 1 ≥ sectors then
      let start := n + 1 - sectors
      let (found, seen) := searchFree (here.drop start) start
      (found, n :: seen)
    else (some (n + 1), [n])
  else (some n, [n])

def storeSect (here : List Fparm) (n count : Nat) : List Fparm :=
  here.modify n fun entry => { entry with sect := .ofNat 8 count }

structure Placement where
  here : List Fparm
  /-- `n` at the end, unless a search has not ended. -/
  slot : Option Nat
  inspected : List Nat

/-- The loop that places the logical sectors, with so many of them left. -/
def placeSectors : Nat → List Fparm → Nat → Placement
  | 0, here, n => ⟨here, some n, []⟩
  | left + 1, here, n =>
      let here := storeSect here n (sectors - left)
      match nextSlot sectors il here n with
      | (none, seen) => ⟨here, none, seen⟩
      | (some n, seen) =>
          let placed := placeSectors left here n
          { placed with inspected := seen ++ placed.inspected }

end Placement

/-- The loop that initialises the entries. -/
def clearEntries (sectors : Nat) (req : FormatDescr) (size : Byte) (memory : List Fparm) :
    List Fparm :=
  memory.mapIdx fun count entry =>
    if count < sectors then ⟨req.track.setWidth 8, req.head.setWidth 8, 0, size⟩ else entry

/-- The loop that makes the first sector another one than 1. -/
def addSectbase (floppy : FloppyStruct) (sectors : Nat) (here : List Fparm) : List Fparm :=
  if floppy.stretch &&& fdSectbasemask ≠ 0 then
    here.mapIdx fun count entry =>
      if count < sectors then
        { entry with sect := entry.sect + (floppy.sectbase - 1).setWidth 8 }
      else entry
  else here

def fdFormat : Byte := 0x4d
def fdFillByte : Byte := 0xf6

/-- `FM_MODE`. -/
def fmMode (floppy : FloppyStruct) (command : Byte) : Byte :=
  command &&& ~~~((floppy.rate &&& 0x80) >>> 1)

section Setup

variable (floppy : FloppyStruct) (req : FormatDescr)

/-- The command, for the track buffer at an address. -/
def formatCommand (currentDrive track : Word) (rawCmd : FloppyRawCmd)
    (floppyTrackBuffer : Word) : FloppyRawCmd :=
  let drSelect := (currentDrive &&& 3) + floppy.phHead req.head
  let cmd := rawCmd.cmd |>.set 0 (fmMode floppy fdFormat) |>.set 1 (drSelect.setWidth 8)
    |>.set 2 (.ofNat 8 floppy.sizecode) |>.set 3 floppy.formatSectors |>.set 4 floppy.fmtGap
    |>.set 5 fdFillByte
  { rawCmd with
    track := track
    flags := fdRawWrite ||| fdRawIntr ||| fdRawSpin ||| fdRawNeedDisk ||| fdRawNeedSeek
    rate := floppy.rate &&& 0x43
    cmdCount := 6
    cmd := cmd
    kernelData := floppyTrackBuffer
    length := .ofNat 32 (4 * floppy.formatSectors.toNat) }

/-- Where the first sector goes, so that there is time to get to the next track. -/
def startSlot : Except Stop Nat := do
  let sectors := floppy.formatSectors.toNat
  let headShift := (sectors + 5) / 6
  let trackShift := 2 * headShift + 3
  let skew : Word := .ofNat 32 trackShift * req.track + .ofNat 32 headShift * req.head
  let (_, n) ← udiv skew.toNat sectors
  return n.toNat

/-- The loops, from the slot for the first sector. -/
def formatTrack (n : Nat) (memory : List Fparm) : Placement :=
  let sectors := floppy.formatSectors.toNat
  let il := if floppy.fmtGap.toNat < 0x22 then 2 else 1
  let here := clearEntries sectors req (.ofNat 8 floppy.sizecode) memory
  let placed := placeSectors sectors il sectors here n
  match placed.slot with
  | none => placed
  | some _ => { placed with here := addSectbase floppy sectors placed.here }

/-- `setup_format_params`. -/
def setupFormatParams (currentDrive track : Word) (rawCmd : FloppyRawCmd)
    (floppyTrackBuffer : Word) (memory : List Fparm) :
    Except Stop (FloppyRawCmd × Placement) := do
  let n ← startSlot floppy req
  return (formatCommand floppy req currentDrive track rawCmd floppyTrackBuffer,
    formatTrack floppy req n memory)

end Setup

/--
`do_format`, up to where it waits for `redo_format`. The lock may not be got because of a
signal, and a type need not be known.
-/
def doFormat (locked : Bool) (floppy : Option FloppyStruct) (tracks : Byte) (req : FormatDescr) :
    Except Int FloppyStruct :=
  if !locked then .error (-eintr)
  else
    match floppy with
    | none => .error (-einval)
    | some floppy =>
        if floppy.track.toNat > tracks.toNat || req.track.toNat ≥ floppy.track.toNat ||
            req.head.toNat ≥ floppy.head.toNat ||
            (floppy.sect <<< 2).toNat % 2 ^ floppy.sizecode ≠ 0 || floppy.fmtGap = 0 then
          .error (-einval)
        else .ok floppy

/-- `redo_format`, for what `do_format` has accepted. -/
def FormatDescr.redoFormat (req : FormatDescr) (floppy : FloppyStruct) (currentDrive : Word)
    (rawCmd : FloppyRawCmd) (floppyTrackBuffer : Word) (memory : List Fparm) :
    Except Stop (FloppyRawCmd × Placement) :=
  setupFormatParams floppy req currentDrive (req.track <<< floppy.stretchShift) rawCmd
    floppyTrackBuffer memory

/--
The slot of the sector after so many others. With an interleave of two and an even number of
slots, those of the other parity come second.
-/
def slotOf (sectors il n placed : Nat) : Nat :=
  (n + il * placed + if il = 2 ∧ sectors % 2 = 0 ∧ sectors ≤ 2 * placed then 1 else 0) % sectors

section Slots

variable {sectors il n : Nat}

theorem slotOf_lt (positive : 0 < sectors) (placed : Nat) : slotOf sectors il n placed < sectors :=
  Nat.mod_lt _ positive

theorem slotOf_zero (positive : 0 < sectors) (start : n < sectors) : slotOf sectors il n 0 = n := by
  simp only [slotOf, Nat.mul_zero, Nat.add_zero]
  rw [if_neg (by omega), Nat.add_zero, Nat.mod_eq_of_lt start]

/-- Numbers with the same remainder that are less than two turns apart. -/
theorem eq_or_add_of_mod_eq {a b : Nat} (same : a % sectors = b % sectors) (le : a ≤ b)
    (lt : b < a + 2 * sectors) : b = a ∨ b = a + sectors := by
  rcases (Nat.modEq_iff_dvd' le).mp same with ⟨turns, apart⟩
  have few : turns < 2 := by
    apply Nat.lt_of_mul_lt_mul_left (a := sectors)
    omega
  have cases : turns = 0 ∨ turns = 1 := by omega
  rcases cases with rfl | rfl
  · left
    omega
  · right
    omega

theorem slotOf_inj_of_le (interleave : il = 1 ∨ il = 2) {i j : Nat} (le : i ≤ j)
    (lt : j < sectors) (same : slotOf sectors il n i = slotOf sectors il n j) : i = j := by
  rcases interleave with rfl | rfl
  · have cases := eq_or_add_of_mod_eq same (by simp; omega) (by simp; omega)
    simp at cases
    omega
  · have cases := eq_or_add_of_mod_eq same (by split_ifs <;> omega) (by split_ifs <;> omega)
    -- half a turn apart, one of the two slots is moved on and the other one is not
    split_ifs at cases <;> omega

theorem slotOf_inj (interleave : il = 1 ∨ il = 2) {i j : Nat} (left : i < sectors)
    (right : j < sectors) (same : slotOf sectors il n i = slotOf sectors il n j) : i = j := by
  rcases Nat.le_total i j with le | le
  · exact slotOf_inj_of_le interleave le right same
  · exact (slotOf_inj_of_le interleave le left same.symm).symm

/-- One slot further on, unless all slots of the first parity are taken. -/
theorem slotOf_step (placed : Nat)
    (unmoved : ¬(il = 2 ∧ sectors % 2 = 0 ∧ sectors = 2 * (placed + 1))) :
    (slotOf sectors il n placed + il) % sectors = slotOf sectors il n (placed + 1) := by
  simp only [slotOf, Nat.mod_add_mod]
  congr 1
  split_ifs <;> grind

/-- When they are taken, the next slot would be the first one again. -/
theorem slotOf_turn {placed : Nat} (turn : sectors = 2 * (placed + 1)) :
    (slotOf sectors 2 n placed + 2) % sectors = n % sectors ∧
      slotOf sectors 2 n (placed + 1) = (n + 1) % sectors := by
  have first : ¬sectors ≤ 2 * placed := by omega
  have second : sectors % 2 = 0 ∧ sectors ≤ 2 * (placed + 1) := by omega
  have around : n + 2 * (placed + 1) = n + sectors := by omega
  constructor
  · simp only [slotOf, first, and_false, if_false, Nat.add_zero, Nat.mod_add_mod]
    rw [Nat.add_assoc, ← Nat.mul_succ, Nat.succ_eq_add_one, around, Nat.add_mod_right]
  · simp only [slotOf, second, and_self, if_true]
    rw [around, Nat.add_right_comm, Nat.add_mod_right]

end Slots

/-- The sector that a slot has, if there is the slot. -/
def sectOf (here : List Fparm) (slot : Nat) : Option Byte :=
  here[slot]?.map Fparm.sect

/-- So many sectors are in their slots, and the slots of the others are free. -/
structure Filled (sectors il n : Nat) (here : List Fparm) (placed : Nat) : Prop where
  room : sectors ≤ here.length
  done : ∀ i < placed, sectOf here (slotOf sectors il n i) = some (.ofNat 8 (i + 1))
  free : ∀ i, placed ≤ i → i < sectors → sectOf here (slotOf sectors il n i) = some 0

section Loop

variable {sectors il n placed : Nat} {here : List Fparm}

theorem sectOf_storeSect (slot other count : Nat) :
    sectOf (storeSect here slot count) other =
      if slot = other then (sectOf here other).map (fun _ => .ofNat 8 count)
      else sectOf here other := by
  simp only [sectOf, storeSect, List.getElem?_modify]
  split_ifs
  · cases here[other]? <;> rfl
  · simp

theorem busy_of_sectOf {slot : Nat} {sect : Byte} (at_slot : sectOf here slot = some sect) :
    busy here slot = decide (sect ≠ 0) := by
  rcases Option.map_eq_some_iff.mp at_slot with ⟨entry, found, rfl⟩
  simp [busy, found]

theorem filled_clearEntries (req : FormatDescr) (size : Byte) {memory : List Fparm}
    (positive : 0 < sectors) (room : sectors ≤ memory.length) :
    Filled sectors il n (clearEntries sectors req size memory) 0 := by
  refine ⟨by simpa [clearEntries] using room, by simp, ?_⟩
  intro i _ _
  have slot_lt : slotOf sectors il n i < sectors := slotOf_lt positive i
  have present : slotOf sectors il n i < memory.length := by omega
  simp [sectOf, clearEntries, slot_lt, present]

theorem Filled.store (filled : Filled sectors il n here placed) (interleave : il = 1 ∨ il = 2)
    (left : placed < sectors) :
    Filled sectors il n (storeSect here (slotOf sectors il n placed) (placed + 1))
      (placed + 1) := by
  refine ⟨by simpa [storeSect] using filled.room, ?_, ?_⟩
  · intro i i_lt
    rw [sectOf_storeSect]
    rcases Nat.lt_succ_iff_lt_or_eq.mp i_lt with earlier | rfl
    · rw [if_neg, filled.done i earlier]
      intro same
      have := slotOf_inj interleave left (by omega) same
      omega
    · rw [if_pos rfl, filled.free i (by omega) left]
      rfl
  · intro i i_ge i_lt
    rw [sectOf_storeSect, if_neg, filled.free i (by omega) i_lt]
    intro same
    have := slotOf_inj interleave left i_lt same
    omega

theorem Filled.busy_of_lt (filled : Filled sectors il n here placed) (fits : sectors < 256)
    (placed_le : placed ≤ sectors) {i : Nat} (earlier : i < placed) :
    busy here (slotOf sectors il n i) = true := by
  rw [busy_of_sectOf (filled.done i earlier), decide_eq_true_iff]
  intro zero
  have := congrArg BitVec.toNat zero
  simp at this
  omega

theorem Filled.free_of_le (filled : Filled sectors il n here placed) {i : Nat} (later : placed ≤ i)
    (lt : i < sectors) : busy here (slotOf sectors il n i) = false := by
  simp [busy_of_sectOf (filled.free i later lt)]

theorem searchFree_of_free {slot : Nat} (present : slot < here.length)
    (free : busy here slot = false) : (searchFree (here.drop slot) slot).1 = some slot := by
  rw [List.drop_eq_getElem_cons present]
  have zero : here[slot].sect = 0 := by simpa [busy, present] using free
  simp [searchFree, zero]

/-- As long as there is a sector left, its slot is found. -/
theorem Filled.nextSlot (filled : Filled sectors il n here (placed + 1))
    (interleave : il = 1 ∨ il = 2) (fits : sectors < 256) (start : n < sectors)
    (left : placed + 1 < sectors) :
    (nextSlot sectors il here (slotOf sectors il n placed)).1 =
      some (slotOf sectors il n (placed + 1)) := by
  have next_free := filled.free_of_le (Nat.le_refl _) left
  by_cases turn : il = 2 ∧ sectors % 2 = 0 ∧ sectors = 2 * (placed + 1)
  · rcases turn with ⟨rfl, -, turn⟩
    rcases slotOf_turn (n := n) turn with ⟨around, next⟩
    have first : slotOf sectors 2 n 0 = n := slotOf_zero (by omega) start
    have first_busy := filled.busy_of_lt fits (by omega) (Nat.succ_pos placed)
    rw [first] at first_busy
    rw [Nat.mod_eq_of_lt start] at around
    rw [next] at next_free ⊢
    simp only [Floppy.nextSlot, around, first_busy, if_true]
    split_ifs with last
    · have whole : n + 1 = sectors := by omega
      rw [whole, Nat.mod_self] at next_free ⊢
      rw [Nat.sub_self]
      exact searchFree_of_free (by have := filled.room; omega) next_free
    · rw [Nat.mod_eq_of_lt (by omega)]
  · have step := slotOf_step (n := n) placed turn
    simp [Floppy.nextSlot, step, next_free]

theorem placeSectors_of_found {left slot next : Nat}
    (found : (nextSlot sectors il (storeSect here slot (sectors - left)) slot).1 = some next) :
    (placeSectors sectors il (left + 1) here slot).here =
      (placeSectors sectors il left (storeSect here slot (sectors - left)) next).here := by
  simp only [placeSectors]
  split
  · simp_all
  · simp_all

/-- The search after the last sector does not change an entry. -/
theorem placeSectors_last (slot : Nat) :
    (placeSectors sectors il 1 here slot).here = storeSect here slot sectors := by
  simp only [placeSectors]
  split <;> rfl

/-- The loop places all sectors that are left. -/
theorem Filled.placeSectors (interleave : il = 1 ∨ il = 2) (fits : sectors < 256)
    (start : n < sectors) {left : Nat} (filled : Filled sectors il n here placed)
    (all : placed + left = sectors) :
    Filled sectors il n
      (placeSectors sectors il left here (slotOf sectors il n placed)).here sectors := by
  induction left generalizing here placed with
  | zero =>
      obtain rfl : placed = sectors := by omega
      exact filled
  | succ left ih =>
      have count : sectors - left = placed + 1 := by omega
      have stored := filled.store interleave (by omega)
      cases left with
      | zero =>
          obtain rfl : placed + 1 = sectors := by omega
          rw [placeSectors_last]
          exact stored
      | succ left =>
          have found := stored.nextSlot interleave fits start (by omega)
          rw [← count] at found
          rw [placeSectors_of_found found, count]
          exact ih stored (by omega)

theorem searchFree_eq_none {entries : List Fparm} {slot : Nat}
    (none_found : (searchFree entries slot).1 = none) : ∀ entry ∈ entries, entry.sect ≠ 0 := by
  induction entries generalizing slot with
  | nil => simp
  | cons entry rest ih =>
      simp only [searchFree] at none_found
      split_ifs at none_found with taken
      simp only [List.mem_cons, forall_eq_or_imp]
      exact ⟨taken, ih none_found⟩

/-- A search begins with the first entry. If it does not end, nothing in memory is free. -/
theorem nextSlot_eq_none (positive : 0 < sectors) {slot : Nat}
    (none_found : (nextSlot sectors il here slot).1 = none) : ∀ entry ∈ here, entry.sect ≠ 0 := by
  have lt := Nat.mod_lt (slot + il) positive
  simp only [nextSlot] at none_found
  split_ifs at none_found with taken last
  have first : (slot + il) % sectors + 1 - sectors = 0 := by omega
  rw [first] at none_found
  exact searchFree_eq_none none_found

theorem placeSectors_eq_none (positive : 0 < sectors) {left slot : Nat}
    (none_found : (placeSectors sectors il left here slot).slot = none) :
    ∀ entry ∈ (placeSectors sectors il left here slot).here, entry.sect ≠ 0 := by
  induction left generalizing here slot with
  | zero => simp [placeSectors] at none_found
  | succ left ih =>
      simp only [placeSectors] at none_found ⊢
      split at none_found
      case h_1 seen stuck => exact nextSlot_eq_none positive (congrArg Prod.fst stuck)
      case h_2 next seen found => exact ih none_found

/-- Numbers that are all in a list of the same length are the whole list. -/
theorem Filled.perm (filled : Filled sectors il n here sectors) (fits : sectors < 256) :
    ((here.take sectors).map fun entry => entry.sect.toNat).Perm (List.range' 1 sectors) := by
  apply List.Perm.symm
  apply List.Subperm.perm_of_length_le
  · apply List.subperm_of_subset (List.nodup_range' ..)
    intro sector mem
    rw [List.mem_range'_1] at mem
    have slot_lt : slotOf sectors il n (sector - 1) < sectors := slotOf_lt (by omega) _
    have at_slot := filled.done (sector - 1) (by omega)
    rcases Option.map_eq_some_iff.mp at_slot with ⟨entry, found, sect⟩
    rw [List.mem_map]
    refine ⟨entry, ?_, ?_⟩
    · have taken : (here.take sectors)[slotOf sectors il n (sector - 1)]? = some entry := by
        rw [List.getElem?_take_of_lt slot_lt, found]
      exact List.mem_of_getElem? taken
    · rw [sect, BitVec.toNat_ofNat]
      omega
  · simp

end Loop

/--
After the loop of `setup_format_params` the slots of the track hold each of the sectors once,
and the first one is where the track begins. Nothing is assumed about what was in memory.
-/
theorem placeSectors_perm (sectors il n : Nat) (positive : 1 ≤ sectors) (fits : sectors ≤ 255)
    (start : n < sectors) (interleave : il = 1 ∨ il = 2) (req : FormatDescr) (size : Byte)
    (memory : List Fparm) (room : sectors ≤ memory.length) :
    let placed := placeSectors sectors il sectors (clearEntries sectors req size memory) n
    ((placed.here.take sectors).map fun entry => entry.sect.toNat).Perm
        (List.range' 1 sectors) ∧
      (placed.here[n]?.map fun entry => entry.sect.toNat) = some 1 ∧
      (placed.slot = none → ∀ entry ∈ placed.here, entry.sect ≠ 0) := by
  intro placed
  have cleared : Filled sectors il n (clearEntries sectors req size memory) 0 :=
    filled_clearEntries req size positive room
  have first : slotOf sectors il n 0 = n := slotOf_zero positive start
  have filled := cleared.placeSectors interleave (by omega) start (Nat.zero_add sectors)
  rw [first] at filled
  refine ⟨filled.perm (by omega), ?_, placeSectors_eq_none positive⟩
  have at_start := filled.done 0 (by omega)
  rw [first] at at_start
  rcases Option.map_eq_some_iff.mp at_start with ⟨entry, found, sect⟩
  simp [placed, found, sect]

/-- Four slots with an interleave of two, beginning in the last one. -/
theorem placeSectors_perm_fourSectors :
    let memory := List.replicate 5 (⟨7, 7, 7, 7⟩ : Fparm)
    let placed := placeSectors 4 2 4 (clearEntries 4 ⟨0, 1, 5⟩ 2 memory) 3
    (placed.here.map fun entry => entry.sect) = [3, 2, 4, 1, 7] ∧
      ((placed.here.take 4).map fun entry => entry.sect.toNat).Perm (List.range' 1 4) :=
  ⟨by decide, (placeSectors_perm 4 2 3 (by omega) (by omega) (by omega) (Or.inr rfl)
    ⟨0, 1, 5⟩ 2 (List.replicate 5 ⟨7, 7, 7, 7⟩) (by decide)).1⟩

end Gray386.Floppy
