import Gray386.Floppy.Transfer

/-!
# A request is given back in parts

The block layer makes a request from bios that are next to each other on the disk, and each
bio has vectors, which are places in memory. The driver reports so many sectors at a time as
done or failed. `blk_update_request` takes them off: bios that are through are given back, and
the request goes on with the vector, and the byte in it, that comes next.

However the sectors are divided up, every bio should be given back once, and without an error
exactly if there was none for any of its bytes.
-/

namespace Gray386.Floppy

open Gray386.Machine

/-- A bio of a request. -/
structure Bio where
  tag : Nat
  size : Nat
  /-- The vectors from `bi_idx` on. -/
  vecs : List Segment
  uptodate : Bool
  deriving DecidableEq, Repr

/-- A bio is given back, by `bio_endio`. -/
structure BioEnd where
  tag : Nat
  good : Bool
  deriving DecidableEq, Repr

/-- `req_bio_endio`. -/
def Bio.reqBioEndio (bio : Bio) (nbytes : Nat) (error : Bool) : Bio × List BioEnd :=
  let bio := { bio with size := bio.size - nbytes, uptodate := bio.uptodate && !error }
  (bio, if bio.size = 0 then [⟨bio.tag, bio.uptodate⟩] else [])

/-- Where the loop in `blk_update_request` is in a bio that is not through. -/
structure VecsDone where
  nextIdx : Nat
  bioNbytes : Nat
  /-- What is left of `nr_bytes`. -/
  nrBytes : Nat
  deriving DecidableEq, Repr

/-- The loop, as long as it is in one bio. -/
def vecsDone : List Segment → Nat → VecsDone
  | [], nrBytes => ⟨0, 0, nrBytes⟩
  | vec :: rest, nrBytes =>
      let nbytes := vec.length.toNat
      if nrBytes < nbytes then ⟨0, nrBytes, nrBytes⟩
      else if nrBytes - nbytes = 0 then ⟨1, nbytes, 0⟩
      else
        let later := vecsDone rest (nrBytes - nbytes)
        ⟨later.nextIdx + 1, nbytes + later.bioNbytes, later.nrBytes⟩

/-- The first vector goes on behind some bytes. -/
def trimFirst (nrBytes : Nat) : List Segment → List Segment
  | [] => []
  | vec :: rest =>
      ⟨vec.address + BitVec.ofNat 32 nrBytes, vec.length - BitVec.ofNat 32 nrBytes⟩ :: rest

/-- The bio that is not through. -/
def Bio.advance (bio : Bio) (done : VecsDone) (error : Bool) : Bio × List BioEnd :=
  if done.bioNbytes = 0 then (bio, [])
  else
    let (bio, ended) := bio.reqBioEndio done.bioNbytes error
    ({ bio with vecs := trimFirst done.nrBytes (bio.vecs.drop done.nextIdx) }, ended)

/-- What the loop leaves. -/
structure Updated where
  bios : List Bio
  totalBytes : Nat
  ended : List BioEnd
  deriving DecidableEq, Repr

/-- The loop. -/
def updateBios (error : Bool) : List Bio → Nat → Updated
  | [], _ => ⟨[], 0, []⟩
  | bio :: rest, nrBytes =>
      if bio.size ≤ nrBytes then
        let ended := (bio.reqBioEndio bio.size error).2
        -- The loop ends here if nothing is left, but not behind the last bio.
        if rest ≠ [] ∧ nrBytes - bio.size = 0 then ⟨rest, bio.size, ended⟩
        else
          let later := updateBios error rest (nrBytes - bio.size)
          ⟨later.bios, bio.size + later.totalBytes, ended ++ later.ended⟩
      else
        let done := vecsDone bio.vecs nrBytes
        let (bio, ended) := bio.advance done error
        ⟨bio :: rest, done.bioNbytes, ended⟩

/-- `struct request`. -/
structure BlkRequest where
  pos : Word
  write : Bool
  dataLen : Word
  buffer : Word
  bios : List Bio
  errors : Word
  deriving DecidableEq, Repr

namespace BlkRequest

variable (req : BlkRequest)

/-- What the driver sees of it. -/
def view : Request :=
  ⟨req.pos, req.write, req.dataLen, req.buffer, req.bios.flatMap Bio.vecs⟩

/-- `blk_rq_cur_bytes`. -/
def curBytes : Nat :=
  req.bios.head?.elim 0 fun bio => bio.vecs.head?.elim bio.size fun vec => vec.length.toNat

/-- `blk_update_request`. Nothing is left if it returns false. -/
def blkUpdateRequest (error : Bool) (nrBytes : Nat) : Option BlkRequest × List BioEnd :=
  let updated := updateBios error req.bios nrBytes
  if updated.bios = [] then (none, updated.ended)
  else
    let rest := { req with
      bios := updated.bios
      dataLen := req.dataLen - BitVec.ofNat 32 updated.totalBytes
      pos := req.pos + BitVec.ofNat 32 (updated.totalBytes / 512)
      errors := 0 }
    let rest := { rest with buffer := rest.view.bioData }
    -- "request botched"
    if rest.dataLen.toNat < rest.curBytes then
      (some { rest with dataLen := BitVec.ofNat 32 rest.curBytes }, updated.ended)
    else (some rest, updated.ended)

/-- The parts that are reported, one after the other, until nothing is left. -/
def updates : BlkRequest → List (Bool × Nat) → Option BlkRequest × List BioEnd
  | req, [] => (some req, [])
  | req, (error, nrBytes) :: parts =>
      match req.blkUpdateRequest error nrBytes with
      | (none, ended) => (none, ended)
      | (some rest, ended) =>
          let later := updates rest parts
          (later.1, ended ++ later.2)

end BlkRequest

def Bio.ranges (bio : Bio) : List Range := bio.vecs.map Segment.range

structure Bio.WellFormed (bio : Bio) : Prop where
  size_pos : 0 < bio.size
  size_eq : bio.size = totalCount bio.ranges
  whole : Whole 512 bio.ranges
  fits : ∀ range ∈ bio.ranges, range.start + range.count < 4294967296

instance (bio : Bio) : Decidable bio.WellFormed :=
  decidable_of_iff (0 < bio.size ∧ bio.size = totalCount bio.ranges ∧ Whole 512 bio.ranges ∧
      ∀ range ∈ bio.ranges, range.start + range.count < 4294967296)
    ⟨fun ⟨size_pos, size_eq, whole, fits⟩ => ⟨size_pos, size_eq, whole, fits⟩,
      fun formed => ⟨formed.size_pos, formed.size_eq, formed.whole, formed.fits⟩⟩

structure BlkRequest.WellFormed (req : BlkRequest) : Prop where
  nonempty : req.bios ≠ []
  bios : ∀ bio ∈ req.bios, bio.WellFormed
  first : req.view.segments.head?.map Segment.address = some req.buffer
  total : totalCount req.view.ranges = req.dataLen.toNat

/-- What should be reported to the bios, by what became of each byte. -/
def report : List Bio → List Bool → List BioEnd
  | [], _ => []
  | bio :: rest, fates =>
      ⟨bio.tag, bio.uptodate && (fates.take bio.size).all id⟩ :: report rest (fates.drop bio.size)

section Vecs

variable {vecs : List Segment} {n : Nat}

theorem range_trimFirst {vec : Segment} {rest : List Segment} (lt : n < vec.length.toNat)
    (fits : vec.address.toNat + vec.length.toNat < 4294967296) :
    (trimFirst n (vec :: rest)).map Segment.range =
      ⟨vec.address.toNat + n, vec.length.toNat - n⟩ :: rest.map Segment.range := by
  have small : (BitVec.ofNat 32 n).toNat = n := by
    rw [BitVec.toNat_ofNat]
    omega
  have address_eq : (vec.address + BitVec.ofNat 32 n).toNat = vec.address.toNat + n := by
    rw [BitVec.toNat_add, small]
    omega
  have length_eq : (vec.length - BitVec.ofNat 32 n).toNat = vec.length.toNat - n := by
    rw [BitVec.toNat_sub, small]
    omega
  rw [trimFirst, List.map_cons, Segment.range, address_eq, length_eq]

theorem range_trimFirst_zero (vecs : List Segment) :
    (trimFirst 0 vecs).map Segment.range = vecs.map Segment.range := by
  cases vecs with
  | nil => rfl
  | cons vec rest => simp [trimFirst]

/-- The loop finds the byte that comes next. -/
theorem vecsDone_spec (whole : Whole 512 (vecs.map Segment.range))
    (fits : ∀ range ∈ vecs.map Segment.range, range.start + range.count < 4294967296)
    (lt : n < totalCount (vecs.map Segment.range)) :
    (vecsDone vecs n).bioNbytes = n ∧
      (trimFirst (vecsDone vecs n).nrBytes (vecs.drop (vecsDone vecs n).nextIdx)).map
        Segment.range = dropBytes (vecs.map Segment.range) n := by
  induction vecs generalizing n with
  | nil => simp [totalCount] at lt
  | cons vec rest ih =>
      rw [List.map_cons] at whole fits lt ⊢
      have count_eq : vec.range.count = vec.length.toNat := rfl
      rw [totalCount_cons, count_eq] at lt
      rw [dropBytes, vecsDone, count_eq]
      by_cases inside : n < vec.length.toNat
      · rw [if_pos inside, if_pos inside]
        exact ⟨rfl, range_trimFirst inside (fits vec.range List.mem_cons_self)⟩
      rw [if_neg inside, if_neg inside]
      by_cases last : n - vec.length.toNat = 0
      · rw [if_pos last, last, dropBytes_zero whole.tail]
        refine ⟨by simp only; omega, ?_⟩
        simp only [List.drop_succ_cons, List.drop_zero, range_trimFirst_zero]
      · rcases ih (n := n - vec.length.toNat) whole.tail
          (fun range mem => fits range (List.mem_cons_of_mem _ mem)) (by omega)
          with ⟨bytes_eq, ranges_eq⟩
        rw [if_neg last]
        refine ⟨by simp only [bytes_eq]; omega, ?_⟩
        simp only [List.drop_succ_cons, ranges_eq]

end Vecs

section Bios

variable {bio : Bio} {bios : List Bio} {n : Nat} {error : Bool}

/-- All memory of some bios. -/
def rangesOf (bios : List Bio) : List Range := bios.flatMap Bio.ranges

/-- A bio of which a part is through. -/
structure Bio.Rest (bio rest : Bio) (n : Nat) (error : Bool) : Prop where
  tag_eq : rest.tag = bio.tag
  size_eq : rest.size = bio.size - n
  ranges_eq : rest.ranges = dropBytes bio.ranges n
  uptodate_eq : rest.uptodate = (bio.uptodate && !error)

theorem Bio.WellFormed.advance (formed : bio.WellFormed) (some : 0 < n) (lt : n < bio.size)
    (error : Bool) : ∃ rest, bio.advance (vecsDone bio.vecs n) error = (rest, []) ∧
      bio.Rest rest n error := by
  rw [formed.size_eq] at lt
  rcases vecsDone_spec formed.whole formed.fits lt with ⟨bytes_eq, ranges_eq⟩
  rw [Bio.advance, if_neg (by omega), Bio.reqBioEndio, bytes_eq]
  rw [← formed.size_eq] at lt
  simp only [if_neg (show ¬bio.size - n = 0 by omega)]
  exact ⟨_, rfl, rfl, rfl, ranges_eq, rfl⟩

theorem Bio.Rest.wellFormed {rest : Bio} (left : bio.Rest rest n error) (formed : bio.WellFormed)
    (lt : n < bio.size) (dvd : 512 ∣ n) : rest.WellFormed := by
  refine ⟨?_, ?_, ?_, ?_⟩
  · rw [left.size_eq]
    omega
  · rw [left.ranges_eq, left.size_eq, totalCount_dropBytes, formed.size_eq]
  · rw [left.ranges_eq]
    exact formed.whole.dropBytes dvd
  · intro range mem
    rw [left.ranges_eq] at mem
    rcases mem_dropBytes mem with ⟨whole, found, lower, upper⟩
    have := formed.fits whole found
    omega

theorem Bio.WellFormed.dvd (formed : bio.WellFormed) : 512 ∣ bio.size := by
  rw [formed.size_eq]
  exact formed.whole.dvd_totalCount

theorem Bio.WellFormed.exists_vec (formed : bio.WellFormed) :
    ∃ vec vecs, bio.vecs = vec :: vecs := by
  have size_pos := formed.size_pos
  apply List.exists_cons_of_ne_nil
  intro none
  rw [formed.size_eq, Bio.ranges, none] at size_pos
  exact lt_irrefl _ size_pos

theorem whole_rangesOf (formed : ∀ bio ∈ bios, bio.WellFormed) : Whole 512 (rangesOf bios) := by
  intro range mem
  rcases List.mem_flatMap.mp mem with ⟨bio, found, inside⟩
  exact (formed bio found).whole range inside

/-- What the loop does. -/
structure UpdatedBy (bios : List Bio) (n : Nat) (error : Bool) (updated : Updated) : Prop where
  formed : ∀ bio ∈ updated.bios, bio.WellFormed
  total_eq : updated.totalBytes = n
  ranges_eq : rangesOf updated.bios = dropBytes (rangesOf bios) n
  reported : ∀ fates, report bios (List.replicate n (!error) ++ fates) =
    updated.ended ++ report updated.bios fates

theorem report_through (size_pos : 0 < bio.size) (le : bio.size ≤ n) (rest : List Bio)
    (fates : List Bool) :
    report (bio :: rest) (List.replicate n (!error) ++ fates) =
      ⟨bio.tag, bio.uptodate && !error⟩ ::
        report rest (List.replicate (n - bio.size) (!error) ++ fates) := by
  rw [report, List.take_append_of_le_length (by simpa using le),
    List.drop_append_of_le_length (by simpa using le), List.take_replicate, List.drop_replicate,
    Nat.min_eq_left le, List.all_replicate, if_neg (by omega), id]

theorem report_rest {rest : Bio} (left : bio.Rest rest n error) (some : 0 < n) (lt : n < bio.size)
    (others : List Bio) (fates : List Bool) :
    report (bio :: others) (List.replicate n (!error) ++ fates) =
      report (rest :: others) fates := by
  rw [report, report, left.tag_eq, left.size_eq, left.uptodate_eq, List.take_append,
    List.drop_append]
  simp [List.all_append, show min bio.size n = n by omega, show n - bio.size = 0 by omega,
    show n ≠ 0 by omega, Bool.and_assoc]

theorem reqBioEndio_through (bio : Bio) (error : Bool) :
    (bio.reqBioEndio bio.size error).2 = [⟨bio.tag, bio.uptodate && !error⟩] := by
  simp [Bio.reqBioEndio]

/-- The loop ends with a bio, whether or not another one follows. -/
theorem updateBios_size (bio : Bio) (rest : List Bio) (error : Bool) :
    updateBios error (bio :: rest) bio.size =
      ⟨rest, bio.size, [⟨bio.tag, bio.uptodate && !error⟩]⟩ := by
  rw [updateBios, if_pos le_rfl, reqBioEndio_through]
  cases rest with
  | nil => simp [updateBios]
  | cons next later => simp

theorem updateBios_of_lt (rest : List Bio) (error : Bool) (lt : bio.size < n) :
    updateBios error (bio :: rest) n =
      ⟨(updateBios error rest (n - bio.size)).bios,
        bio.size + (updateBios error rest (n - bio.size)).totalBytes,
        ⟨bio.tag, bio.uptodate && !error⟩ :: (updateBios error rest (n - bio.size)).ended⟩ := by
  rw [updateBios, if_pos lt.le, reqBioEndio_through, if_neg (by omega)]
  rfl

theorem updateBios_spec (formed : ∀ bio ∈ bios, bio.WellFormed) (some : 0 < n)
    (le : n ≤ totalCount (rangesOf bios)) (dvd : 512 ∣ n) (error : Bool) :
    UpdatedBy bios n error (updateBios error bios n) := by
  induction bios generalizing n with
  | nil =>
      simp [rangesOf, totalCount] at le
      omega
  | cons bio rest ih =>
      have first := formed bio List.mem_cons_self
      have others (later : Bio) (mem : later ∈ rest) : later.WellFormed :=
        formed later (List.mem_cons_of_mem _ mem)
      have ranges_cons : rangesOf (bio :: rest) = bio.ranges ++ rangesOf rest :=
        List.flatMap_cons
      have size_pos := first.size_pos
      have size_eq := first.size_eq
      rw [ranges_cons, totalCount_append, ← size_eq] at le
      rcases lt_trichotomy n bio.size with inside | rfl | behind
      · rcases first.advance some inside error with ⟨left, advance_eq, rest_of⟩
        have bytes_eq := (vecsDone_spec first.whole first.fits (size_eq ▸ inside)).1
        rw [updateBios, if_neg (by omega)]
        simp only [advance_eq, bytes_eq]
        refine ⟨?_, rfl, ?_, fun fates => ?_⟩
        · intro later mem
          rcases List.mem_cons.mp mem with rfl | mem
          · exact rest_of.wellFormed first inside dvd
          · exact others later mem
        · rw [ranges_cons, dropBytes_append_of_lt _ (by omega), ← rest_of.ranges_eq]
          rfl
        · rw [report_rest rest_of some inside]
          rfl
      · rw [updateBios_size]
        refine ⟨others, rfl, ?_, fun fates => ?_⟩
        · rw [ranges_cons, dropBytes_append_of_ge _ (by omega), ← size_eq, Nat.sub_self,
            dropBytes_zero (whole_rangesOf others)]
        · rw [report_through size_pos le_rfl, Nat.sub_self]
          rfl
      · rcases ih others (n := n - bio.size) (by omega) (by omega) (Nat.dvd_sub dvd first.dvd)
          with ⟨later_formed, total_eq, later_eq, reported⟩
        rw [updateBios_of_lt rest error behind]
        refine ⟨later_formed, by simp only [total_eq]; omega, ?_, fun fates => ?_⟩
        · rw [ranges_cons, dropBytes_append_of_ge _ (by omega), ← size_eq]
          exact later_eq
        · rw [report_through size_pos behind.le, reported]
          rfl

end Bios

section Requests

variable {req rest : BlkRequest} {n : Nat} {error : Bool}

theorem BlkRequest.ranges_eq (req : BlkRequest) : req.view.ranges = rangesOf req.bios := by
  rw [BlkRequest.view, Request.ranges, List.map_flatMap]
  rfl

/-- The rest of a request of which some bytes are through. -/
structure BlkRequest.Rest (req rest : BlkRequest) (n : Nat) : Prop where
  formed : rest.WellFormed
  ranges_eq : rest.view.ranges = dropBytes req.view.ranges n
  dataLen_eq : rest.dataLen.toNat = req.dataLen.toNat - n
  pos_eq : rest.pos = req.pos + BitVec.ofNat 32 (n / 512)
  write_eq : rest.write = req.write
  errors_eq : rest.errors = 0

/-- A part of a request is through. -/
inductive BlkRequest.Part (req : BlkRequest) (n : Nat) (error : Bool) :
    Option BlkRequest × List BioEnd → Prop
  | finished {ended : List BioEnd} (all : n = req.dataLen.toNat)
      (reported : ended = report req.bios (List.replicate n (!error))) :
      Part req n error (none, ended)
  | left {rest : BlkRequest} {ended : List BioEnd} (lt : n < req.dataLen.toNat)
      (rest_of : req.Rest rest n)
      (reported : ∀ fates, report req.bios (List.replicate n (!error) ++ fates) =
        ended ++ report rest.bios fates) :
      Part req n error (some rest, ended)

theorem BlkRequest.WellFormed.dataLen_pos (formed : req.WellFormed) : 0 < req.dataLen.toNat := by
  rcases List.exists_cons_of_ne_nil formed.nonempty with ⟨bio, others, bios_eq⟩
  have first := formed.bios bio (by rw [bios_eq]; exact List.mem_cons_self)
  have size_pos := first.size_pos
  rw [← formed.total, req.ranges_eq, bios_eq, rangesOf, List.flatMap_cons, totalCount_append,
    ← first.size_eq]
  omega

theorem BlkRequest.WellFormed.part (formed : req.WellFormed) (some : 0 < n)
    (le : n ≤ req.dataLen.toNat) (dvd : 512 ∣ n) (error : Bool) :
    req.Part n error (req.blkUpdateRequest error n) := by
  have total := formed.total
  rw [req.ranges_eq] at total
  have updated := updateBios_spec formed.bios some (by omega) dvd error
  have left_total : totalCount (rangesOf (updateBios error req.bios n).bios) =
      req.dataLen.toNat - n := by
    rw [updated.ranges_eq, totalCount_dropBytes, total]
  rw [BlkRequest.blkUpdateRequest]
  generalize updateBios error req.bios n = result at updated left_total
  rcases result with ⟨bios, totalBytes, ended⟩
  obtain rfl : totalBytes = n := updated.total_eq
  cases bios with
  | nil =>
      have all : totalBytes = req.dataLen.toNat := by
        simp [rangesOf, totalCount] at left_total
        omega
      have reported := updated.reported []
      rw [List.append_nil, report, List.append_nil] at reported
      exact .finished all reported.symm
  | cons bio others =>
      have first := updated.formed bio List.mem_cons_self
      rcases first.exists_vec with ⟨vec, vecs, vecs_eq⟩
      have cur_le : vec.length.toNat ≤ req.dataLen.toNat - totalBytes := by
        rw [← left_total, rangesOf, List.flatMap_cons, Bio.ranges, vecs_eq, List.map_cons,
          List.cons_append, totalCount_cons]
        exact Nat.le_add_right _ _
      have cur_pos : 0 < vec.length.toNat := by
        refine (first.whole vec.range ?_).1
        rw [Bio.ranges, vecs_eq]
        exact List.mem_cons_self
      have dataLen_eq : (req.dataLen - BitVec.ofNat 32 totalBytes).toNat =
          req.dataLen.toNat - totalBytes := by
        rw [BitVec.toNat_sub, BitVec.toNat_ofNat]
        omega
      rw [if_neg (List.cons_ne_nil _ _), if_neg]
      · refine .left (by omega) ⟨⟨List.cons_ne_nil _ _, updated.formed, ?_, ?_⟩, ?_, dataLen_eq,
          rfl,
          rfl, rfl⟩ updated.reported
        · simp [BlkRequest.view, Request.bioData, vecs_eq]
        · rw [BlkRequest.ranges_eq, left_total, dataLen_eq]
        · rw [BlkRequest.ranges_eq, req.ranges_eq]
          exact updated.ranges_eq
      · simp only [BlkRequest.curBytes, List.head?_cons, Option.elim_some, vecs_eq, dataLen_eq]
        omega

/-- What became of each byte, if so many bytes at a time are reported. -/
def fatesOf (parts : List (Bool × Nat)) : List Bool :=
  parts.flatMap fun part => List.replicate part.2 (!part.1)

/--
Every bio is given back once, and in order. It is given back without an error exactly if there
has been none and all parts it was in are reported without one.
-/
theorem BlkRequest.updates_report {parts : List (Bool × Nat)} (formed : req.WellFormed)
    (whole : ∀ part ∈ parts, 0 < part.2 ∧ 512 ∣ part.2)
    (all : (parts.map Prod.snd).sum = req.dataLen.toNat) :
    req.updates parts = (none, report req.bios (fatesOf parts)) := by
  induction parts generalizing req with
  | nil => exact absurd all formed.dataLen_pos.ne
  | cons part later ih =>
      rcases part with ⟨error, n⟩
      rcases whole (error, n) List.mem_cons_self with ⟨some, dvd⟩
      have later_whole : ∀ part ∈ later, 0 < part.2 ∧ 512 ∣ part.2 :=
        fun part mem => whole part (List.mem_cons_of_mem _ mem)
      rw [List.map_cons, List.sum_cons] at all
      rw [fatesOf, List.flatMap_cons, ← fatesOf, BlkRequest.updates]
      have through := formed.part some (by omega) dvd error
      generalize req.blkUpdateRequest error n = result at through
      cases through with
      | finished last reported =>
          have none : later = [] := by
            cases later with
            | nil => rfl
            | cons next _ =>
                have := (later_whole next List.mem_cons_self).1
                rw [List.map_cons, List.sum_cons] at all
                omega
          rw [none, reported]
          simp [fatesOf]
      | left lt rest_of reported =>
          rw [reported]
          simp only [ih rest_of.formed later_whole (by rw [rest_of.dataLen_eq]; omega)]

/-- The second bio is partly in what has failed. -/
theorem updates_report_two :
    let req : BlkRequest := ⟨0, false, 2048, 0xc0200000,
      [⟨0, 512, [⟨0xc0200000, 512⟩], true⟩,
        ⟨1, 1536, [⟨0xc0300000, 512⟩, ⟨0xc0400000, 1024⟩], true⟩], 0⟩
    req.updates [(false, 1536), (true, 512)] = (none, [⟨0, true⟩, ⟨1, false⟩]) := by
  intro req
  have formed : req.WellFormed := ⟨by decide, by decide, by decide, by decide⟩
  have reported := BlkRequest.updates_report formed
    (by decide : ∀ part ∈ [(false, 1536), (true, 512)], 0 < part.2 ∧ 512 ∣ part.2) (by decide)
  rw [reported]
  decide +kernel

end Requests

end Gray386.Floppy
