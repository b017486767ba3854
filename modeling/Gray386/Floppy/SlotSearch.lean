import Gray386.Floppy.Interleave

/-!
# The search for a free slot

`setup_format_params` looks for the slot of the next sector after every sector, and so also
after the last one, when all slots are taken. Mostly this does no harm, since the slot behind
a busy one is not looked at. But from the end of the track the search begins again at the
first slot, and goes on until it finds an entry that is free.

Where the last search begins depends on the slot of the first sector, and this on the track
and the side.
-/

namespace Gray386.Floppy

open Gray386.Machine

/-- A search comes to its end, and looks at no entry behind those of the track. -/
structure StaysInTrack (sectors : Nat) (slot : Option Nat) (inspected : List Nat) : Prop where
  ends : slot ≠ none
  inside : ∀ index ∈ inspected, index < sectors

/--
By how many slots a track is turned: `track_shift` for each track before it, and `head_shift`
for each side.
-/
def trackSkew (sectors track head : Nat) : Nat :=
  let headShift := (sectors + 5) / 6
  ((2 * headShift + 3) * track + headShift * head) % 2 ^ 32

/-- The slot that the last search finds busy first is the last one of the track. -/
def SearchesFromEnd (sectors fmtGap track head : Nat) : Prop :=
  sectors ∣ trackSkew sectors track head +
    if fmtGap < 0x22 ∧ sectors % 2 = 0 then 2 else 1

instance (sectors fmtGap track head : Nat) :
    Decidable (SearchesFromEnd sectors fmtGap track head) :=
  inferInstanceAs (Decidable (_ ∣ _))

section Search

variable {sectors il n slot : Nat} {here : List Fparm}

/-- A search that ends has not been further than where it ends. -/
theorem searchFree_le {entries : List Fparm} {found : Nat}
    (ended : (searchFree entries slot).1 = some found) :
    slot ≤ found ∧ ∀ index ∈ (searchFree entries slot).2, index ≤ found := by
  induction entries generalizing slot with
  | nil => simp [searchFree] at ended
  | cons entry rest ih =>
      simp only [searchFree] at ended ⊢
      split_ifs at ended ⊢ with taken
      · rcases ih ended with ⟨lower, seen⟩
        refine ⟨by omega, ?_⟩
        intro index index_mem
        rcases List.mem_cons.mp index_mem with rfl | later
        · omega
        · exact seen index later
      · obtain rfl : slot = found := Option.some.inj ended
        simp

/-- Over entries that are taken the search goes on. -/
theorem searchFree_append {front : List Fparm} (back : List Fparm) (slot : Nat)
    (taken : ∀ entry ∈ front, entry.sect ≠ 0) :
    searchFree (front ++ back) slot =
      ((searchFree back (slot + front.length)).1,
        List.range' slot front.length ++ (searchFree back (slot + front.length)).2) := by
  induction front generalizing slot with
  | nil => rfl
  | cons entry rest ih =>
      have later : ∀ entry ∈ rest, entry.sect ≠ 0 := fun other other_mem =>
        taken other (List.mem_cons_of_mem entry other_mem)
      have next : slot + 1 + rest.length = slot + (entry :: rest).length := by
        simp
        omega
      rw [List.cons_append, searchFree, if_pos (taken entry List.mem_cons_self),
        ih (slot + 1) later, next]
      rfl

theorem nextSlot_inside (positive : 0 < sectors) {next : Nat}
    (found : (nextSlot sectors il here slot).1 = some next) (next_lt : next < sectors) :
    ∀ index ∈ (nextSlot sectors il here slot).2, index < sectors := by
  have lt := Nat.mod_lt (slot + il) positive
  simp only [nextSlot] at found ⊢
  split_ifs at found ⊢ with taken last
  · intro index index_mem
    rcases List.mem_cons.mp index_mem with rfl | searched
    · exact lt
    · exact lt_of_le_of_lt ((searchFree_le found).2 index searched) next_lt
  · simpa using lt
  · simpa using lt

theorem Filled.taken (filled : Filled sectors il n here sectors) (fits : sectors < 256) :
    ∀ entry ∈ here.take sectors, entry.sect ≠ 0 := by
  intro entry entry_mem zero
  have mem : entry.sect.toNat ∈ (here.take sectors).map fun entry => entry.sect.toNat :=
    List.mem_map_of_mem entry_mem
  rw [(filled.perm fits).mem_iff, List.mem_range'_1, zero] at mem
  simp at mem

theorem Filled.busy_of_full (filled : Filled sectors il n here sectors) (fits : sectors < 256)
    (inside : slot < sectors) : busy here slot = true := by
  have room := filled.room
  have present : slot < here.length := by omega
  have entry_mem : here[slot] ∈ here.take sectors := by
    apply List.mem_of_getElem? (i := slot)
    rw [List.getElem?_take_of_lt inside, List.getElem?_eq_getElem present]
  have taken := filled.taken fits here[slot] entry_mem
  simpa [busy, present] using taken

/-- Behind a full track the search meets what is in memory there. -/
theorem Filled.searchFree_strays (filled : Filled sectors il n here sectors)
    (fits : sectors < 256) :
    ¬StaysInTrack sectors (searchFree here 0).1 (searchFree here 0).2 := by
  have length_eq : (here.take sectors).length = sectors := List.length_take_of_le filled.room
  have searched := searchFree_append (here.drop sectors) 0 (filled.taken fits)
  rw [List.take_append_drop, length_eq, Nat.zero_add] at searched
  rw [searched]
  rintro ⟨ends, inside⟩
  cases behind : here.drop sectors with
  | nil =>
      rw [behind] at ends
      exact ends rfl
  | cons entry rest =>
      have looked : sectors ∈ (searchFree (entry :: rest) sectors).2 := by
        simp only [searchFree]
        split_ifs <;> simp
      rw [behind] at inside
      exact Nat.lt_irrefl _ (inside sectors (List.mem_append_right _ looked))

/-- The search after the last sector stays in the track unless it comes to the end of it. -/
theorem Filled.nextSlot_staysInTrack_iff (filled : Filled sectors il n here sectors)
    (fits : sectors < 256) (positive : 0 < sectors) (slot : Nat) :
    StaysInTrack sectors (Floppy.nextSlot sectors il here slot).1
        (Floppy.nextSlot sectors il here slot).2 ↔
      (slot + il) % sectors + 1 ≠ sectors := by
  have lt := Nat.mod_lt (slot + il) positive
  have taken := filled.busy_of_full fits lt
  constructor
  · intro stays last
    apply filled.searchFree_strays fits
    simp only [Floppy.nextSlot, taken, if_true, last, ge_iff_le, le_refl, Nat.sub_self,
      List.drop_zero] at stays
    refine ⟨stays.ends, ?_⟩
    intro index index_mem
    exact stays.inside index (List.mem_cons_of_mem _ index_mem)
  · intro before
    have next : (Floppy.nextSlot sectors il here slot).1 = some ((slot + il) % sectors + 1) := by
      simp only [Floppy.nextSlot, taken, if_true]
      rw [if_neg (by omega)]
    refine ⟨by simp [next], ?_⟩
    exact nextSlot_inside positive next (by omega)

end Search

section Loop

variable {sectors il n placed : Nat} {here : List Fparm}

/-- The last sector is as many slots before the first one as the interleave, or one less. -/
theorem slotOf_last (positive : 0 < sectors) :
    (slotOf sectors il n (sectors - 1) + il) % sectors =
      (n + if il = 2 ∧ sectors % 2 = 0 then 1 else 0) % sectors := by
  have second : (il = 2 ∧ sectors % 2 = 0 ∧ sectors ≤ 2 * (sectors - 1)) ↔
      il = 2 ∧ sectors % 2 = 0 := by
    omega
  have turns : il * (sectors - 1) + il = sectors * il := by
    rw [← Nat.mul_succ, Nat.succ_eq_add_one, Nat.sub_add_cancel positive, Nat.mul_comm]
  simp only [slotOf, second, Nat.mod_add_mod]
  calc
    (n + il * (sectors - 1) + (if il = 2 ∧ sectors % 2 = 0 then 1 else 0) + il) % sectors
      = ((n + if il = 2 ∧ sectors % 2 = 0 then 1 else 0) +
          (il * (sectors - 1) + il)) % sectors := by
        congr 1
        omega
    _ = (n + if il = 2 ∧ sectors % 2 = 0 then 1 else 0) % sectors := by
        rw [turns, Nat.add_mul_mod_self_left]

/-- What the loop inspects for one sector, and for the others. -/
theorem placeSectors_staysInTrack_iff {left slot next : Nat} (positive : 0 < sectors)
    (found : (nextSlot sectors il (storeSect here slot (sectors - left)) slot).1 = some next)
    (next_lt : next < sectors) :
    StaysInTrack sectors (placeSectors sectors il (left + 1) here slot).slot
        (placeSectors sectors il (left + 1) here slot).inspected ↔
      StaysInTrack sectors
        (placeSectors sectors il left (storeSect here slot (sectors - left)) next).slot
        (placeSectors sectors il left (storeSect here slot (sectors - left)) next).inspected := by
  have inside := nextSlot_inside positive found next_lt
  simp only [placeSectors]
  generalize nextSlot sectors il (storeSect here slot (sectors - left)) slot = searched
    at found inside ⊢
  rcases searched with ⟨_, seen⟩
  obtain rfl := found
  constructor
  · intro stays
    refine ⟨stays.ends, ?_⟩
    intro index index_mem
    exact stays.inside index (List.mem_append_right seen index_mem)
  · intro stays
    refine ⟨stays.ends, ?_⟩
    intro index index_mem
    rcases List.mem_append.mp index_mem with now | later
    · exact inside index now
    · exact stays.inside index later

theorem placeSectors_one (slot : Nat) :
    (placeSectors sectors il 1 here slot).slot =
        (nextSlot sectors il (storeSect here slot sectors) slot).1 ∧
      (placeSectors sectors il 1 here slot).inspected =
        (nextSlot sectors il (storeSect here slot sectors) slot).2 := by
  simp only [placeSectors, Nat.sub_zero]
  cases nextSlot sectors il (storeSect here slot sectors) slot with
  | mk found seen => cases found <;> simp

/-- Only the search after the last sector can leave the track. -/
theorem Filled.staysInTrack_iff (interleave : il = 1 ∨ il = 2) (fits : sectors < 256)
    (start : n < sectors) (left : Nat) (filled : Filled sectors il n here placed)
    (all : placed + (left + 1) = sectors) :
    StaysInTrack sectors
        (Floppy.placeSectors sectors il (left + 1) here (slotOf sectors il n placed)).slot
        (Floppy.placeSectors sectors il (left + 1) here (slotOf sectors il n placed)).inspected ↔
      (n + if il = 2 ∧ sectors % 2 = 0 then 1 else 0) % sectors + 1 ≠ sectors := by
  have positive : 0 < sectors := by omega
  have stored := filled.store interleave (by omega)
  induction left generalizing here placed with
  | zero =>
      obtain rfl : placed = sectors - 1 := by omega
      rw [Nat.sub_add_cancel positive] at stored
      rw [(placeSectors_one _).1, (placeSectors_one _).2,
        stored.nextSlot_staysInTrack_iff fits positive, slotOf_last positive]
  | succ left ih =>
      have count : sectors - (left + 1) = placed + 1 := by omega
      have found := stored.nextSlot interleave fits start (by omega)
      rw [← count] at found
      rw [placeSectors_staysInTrack_iff positive found (slotOf_lt positive _), count]
      exact ih stored (by omega) (stored.store interleave (by omega))

end Loop

section Format

variable {floppy : FloppyStruct} {req : FormatDescr}

theorem startSlot_eq (positive : 0 < floppy.formatSectors.toNat) :
    startSlot floppy req = .ok
      (trackSkew floppy.formatSectors.toNat req.track.toNat req.head.toNat %
        floppy.formatSectors.toNat) := by
  have sectors_pos : (0 : Int) < floppy.formatSectors.toNat := Int.natCast_pos.mpr positive
  simp only [startSlot, udiv_of_pos sectors_pos, ok_bind, ← Int.natCast_emod, Int.toNat_natCast,
    BitVec.toNat_add, BitVec.toNat_mul, BitVec.toNat_ofNat, Nat.mod_mul_mod, Nat.mod_add_mod,
    Nat.add_mod_mod]
  rfl

theorem formatTrack_inspected (n : Nat) (memory : List Fparm) :
    let sectors := floppy.formatSectors.toNat
    let il := if floppy.fmtGap.toNat < 0x22 then 2 else 1
    let placed := placeSectors sectors il sectors
      (clearEntries sectors req (.ofNat 8 floppy.sizecode) memory) n
    (formatTrack floppy req n memory).slot = placed.slot ∧
      (formatTrack floppy req n memory).inspected = placed.inspected := by
  simp only [formatTrack]
  generalize placeSectors _ _ _ _ n = placed
  rcases placed with ⟨here, slot, inspected⟩
  cases slot with
  | none => exact ⟨rfl, rfl⟩
  | some slot => exact ⟨rfl, rfl⟩

theorem mod_add_one_eq_iff {sectors : Nat} (positive : 0 < sectors) (slots : Nat) :
    slots % sectors + 1 = sectors ↔ sectors ∣ slots + 1 := by
  obtain ⟨last, rfl⟩ : ∃ last, sectors = last + 1 := ⟨sectors - 1, by omega⟩
  rw [Nat.dvd_iff_mod_eq_zero, Nat.succ_mod_succ_eq_zero_iff]
  omega

theorem formatTrack_staysInTrack_iff (req : FormatDescr)
    (positive : 0 < floppy.formatSectors.toNat) {n : Nat}
    (start : n < floppy.formatSectors.toNat) {memory : List Fparm}
    (room : floppy.formatSectors.toNat ≤ memory.length) :
    StaysInTrack floppy.formatSectors.toNat (formatTrack floppy req n memory).slot
        (formatTrack floppy req n memory).inspected ↔
      ¬floppy.formatSectors.toNat ∣
        n + if floppy.fmtGap.toNat < 0x22 ∧ floppy.formatSectors.toNat % 2 = 0 then 2 else 1 := by
  have fits : floppy.formatSectors.toNat < 256 := floppy.formatSectors.isLt
  rw [(formatTrack_inspected n memory).1, (formatTrack_inspected n memory).2]
  generalize floppy.formatSectors.toNat = sectors at *
  generalize il_eq : (if floppy.fmtGap.toNat < 0x22 then 2 else 1) = il
  have interleave : il = 1 ∨ il = 2 := by
    rw [← il_eq]
    split_ifs <;> simp
  have narrow : floppy.fmtGap.toNat < 0x22 ↔ il = 2 := by
    rw [← il_eq]
    split_ifs with narrow <;> simp [narrow]
  have cleared : Filled sectors il n
      (clearEntries sectors req (.ofNat 8 floppy.sizecode) memory) 0 :=
    filled_clearEntries req _ positive room
  have stays := cleared.staysInTrack_iff interleave fits start (sectors - 1) (by omega)
  rw [slotOf_zero positive start, Nat.sub_add_cancel positive, ne_eq,
    mod_add_one_eq_iff positive] at stays
  rw [stays, Nat.add_assoc]
  simp only [narrow]
  split_ifs <;> rfl

end Format

/--
For every geometry with a sector, every track and side and whatever is in memory: formatting
gets through the placement, and looks at no entry behind those of the track, if and only if
the last search does not begin at the end of the track.
-/
theorem redoFormat_staysInTrack_iff (floppy : FloppyStruct) (req : FormatDescr)
    (positive : 1 ≤ floppy.formatSectors.toNat) (memory : List Fparm)
    (room : floppy.formatSectors.toNat ≤ memory.length) (currentDrive : Word)
    (rawCmd : FloppyRawCmd) (trackBuffer : Word) :
    (∃ cmd placed, req.redoFormat floppy currentDrive rawCmd trackBuffer memory =
          .ok (cmd, placed) ∧
        StaysInTrack floppy.formatSectors.toNat placed.slot placed.inspected) ↔
      ¬SearchesFromEnd floppy.formatSectors.toNat floppy.fmtGap.toNat req.track.toNat
        req.head.toNat := by
  generalize skew_eq :
    trackSkew floppy.formatSectors.toNat req.track.toNat req.head.toNat = skew
  have run : req.redoFormat floppy currentDrive rawCmd trackBuffer memory = .ok
      (formatCommand floppy req currentDrive (req.track <<< floppy.stretchShift) rawCmd trackBuffer,
        formatTrack floppy req (skew % floppy.formatSectors.toNat) memory) := by
    rw [FormatDescr.redoFormat, setupFormatParams, startSlot_eq positive, skew_eq]
    rfl
  have stays := formatTrack_staysInTrack_iff req positive (Nat.mod_lt skew positive) room
  rw [Nat.dvd_iff_mod_eq_zero, Nat.mod_add_mod, ← Nat.dvd_iff_mod_eq_zero] at stays
  rw [run, SearchesFromEnd, skew_eq, ← stays]
  constructor
  · rintro ⟨cmd, placed, ended, inside⟩
    obtain ⟨rfl, rfl⟩ := Prod.mk.inj (Except.ok.inj ended)
    exact inside
  · intro inside
    exact ⟨_, _, rfl, inside⟩

example : SearchesFromEnd 9 0x50 5 0 := by decide

/-- With 18 sectors the first one is in a slot whose number is a multiple of three. -/
theorem not_searchesFromEnd_h1440 {track head : Nat} (track_lt : track < 80)
    (head_lt : head < 2) : ¬SearchesFromEnd 18 0x6c track head := by
  have skew : trackSkew 18 track head = 9 * track + 3 * head := by
    simp only [trackSkew]
    omega
  rw [SearchesFromEnd, skew, if_neg (by decide)]
  omega

/-- The last track of the usual disk. -/
theorem redoFormat_staysInTrack_iff_h1440 :
    let req : FormatDescr := ⟨0, 1, 79⟩
    doFormat true (some (floppyTypes.get 7)) 80 req = .ok (floppyTypes.get 7) ∧
      ∃ cmd placed, req.redoFormat (floppyTypes.get 7) 0 (.ofBytes fun _ => 0) 0xc0100000
          (List.replicate 4096 ⟨7, 7, 7, 7⟩) = .ok (cmd, placed) ∧
        StaysInTrack 18 placed.slot placed.inspected := by
  intro req
  have stays := redoFormat_staysInTrack_iff (floppyTypes.get 7) req (by decide)
    (List.replicate 4096 ⟨7, 7, 7, 7⟩) (by rw [List.length_replicate]; decide) 0
    (.ofBytes fun _ => 0) 0xc0100000
  exact ⟨by decide, stays.mpr (not_searchesFromEnd_h1440 (by decide) (by decide))⟩

/--
Track 5 of a disk with nine sectors begins with the last slot. When all are taken, the search
goes over them and on behind the track, to a free entry there if there is one.
-/
theorem search_leaves_track :
    let floppy := floppyTypes.get 4
    let req : FormatDescr := ⟨0, 0, 5⟩
    let search := fun memory =>
      (req.redoFormat floppy 0 (.ofBytes fun _ => 0) 0xc0100000 memory).map fun formatted =>
        (formatted.2.slot, formatted.2.inspected)
    let track := List.replicate 9 (⟨7, 7, 7, 7⟩ : Fparm)
    doFormat true (some floppy) 80 req = .ok floppy ∧ floppy.formatSectors = 9 ∧
      search (track ++ [⟨7, 7, 7, 7⟩, ⟨0, 0, 0, 0⟩]) =
        .ok (some 10, List.range 9 ++ List.range 11) ∧
      ¬StaysInTrack 9 (some 10) (List.range 9 ++ List.range 11) ∧
      search (track ++ [⟨7, 7, 7, 7⟩, ⟨7, 7, 7, 7⟩]) = .ok (none, List.range 9 ++ List.range 11) ∧
      ¬StaysInTrack 9 none (List.range 9 ++ List.range 11) := by
  intro floppy req search track
  refine ⟨by decide, by decide, by decide, ?_, by decide, ?_⟩
  · intro stays
    exact absurd (stays.inside 9 (by decide)) (by decide)
  · intro stays
    exact stays.ends rfl

end Gray386.Floppy
