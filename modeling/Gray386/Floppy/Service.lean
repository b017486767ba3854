import Gray386.Floppy.Coherence
import Gray386.Floppy.EndRequest

/-!
# A request from its first round to its last

The driver goes on with a request, round by round, until all of it is given back to the block
layer. A round may be done with some blocks or fail. Failures are counted, and after too many
of them `bad_flp_intr` gives up the vector that is next. The count begins anew whenever
something is given back.

A request to read needs no more than a fixed number of rounds for each block, whatever the
drive does, as long as every command that gets nothing done is counted. `interpret_errors`
does not have all of them counted: a command with an overrun at the first sector is repeated
as if it had not been there. All bytes that are given back without an error are as on the disk.

A request to write is followed only for commands that get all blocks done.
-/

namespace Gray386.Floppy

open Gray386.Machine

/-- What is the same in all rounds. -/
structure DriveParams where
  currentDrive : Word
  /-- `DP->max_errors.read_track`. -/
  maxReadTrack : Word
  readTrack : Bool
  useVirtualDma : Bool
  /-- `DP->max_errors.abort`. -/
  maxAbort : Word
  deriving DecidableEq, Repr

/-- What is new in a round. -/
structure Turn where
  needTwaddle : Bool
  ending : Ending

/-- The format of the drive is known. -/
def DriveParams.input (params : DriveParams) (turn : Turn) (errors : Word) : RwInput where
  currentDrive := params.currentDrive
  probing := false
  needTwaddle := turn.needTwaddle
  errors := errors
  maxReadTrack := params.maxReadTrack
  readTrack := params.readTrack
  useVirtualDma := params.useVirtualDma

namespace BlkRequest

variable (req : BlkRequest)

/-- `floppy_end_request`. -/
def floppyEndRequest (error : Bool) (currentCountSectors : Int) :
    Option BlkRequest × List BioEnd :=
  let nrSectors := if error then req.curBytes / 512 else currentCountSectors.toNat
  req.blkUpdateRequest error (nrSectors * 512)

/-- `bad_flp_intr`, as far as the request is concerned. -/
def badFlpIntr (maxAbort : Word) : Option BlkRequest × List BioEnd :=
  let req := { req with errors := req.errors + 1 }
  if maxAbort.toNat < req.errors.toNat then req.floppyEndRequest true 0 else (some req, [])

/-- What becomes of the request after a round. -/
def conclude (maxAbort : Word) : Progress → Option BlkRequest × List BioEnd
  | .refused => req.floppyEndRequest true 0
  | .done count => req.floppyEndRequest false count
  | .failed => req.badFlpIntr maxAbort
  | .again => (some req, [])

end BlkRequest

section Serve

variable (params : DriveParams) (floppy : FloppyStruct)

/-- Rounds, until nothing is left of the request. -/
def IoState.serve : List Turn → BlkRequest → IoState →
    Except Stop (Option BlkRequest × List BioEnd × IoState)
  | [], req, st => .ok (some req, [], st)
  | turn :: turns, req, st => do
      let (progress, st) ← st.pass (params.input turn req.errors) req.view turn.ending floppy
      match req.conclude params.maxAbort progress with
      | (none, ended) => return (none, ended, st)
      | (some rest, ended) =>
          let (left, later, st) ← serve turns rest st
          return (left, ended ++ later, st)

end Serve

/-- The data of a request is in memory once, and not in the track buffer. -/
structure BlkRequest.Placed (req : BlkRequest) (buffer : BufferState) : Prop extends
    req.WellFormed where
  small : req.dataLen.toNat < 2147483648
  scattered : Scattered req.view.ranges
  apart : AllApart req.view.ranges buffer.range

/-- What is assumed of a request. -/
structure Serving (formats : Word → FloppyStruct) (drive : Word) (req : BlkRequest)
    (st : IoState) : Prop where
  coherent : st.Coherent formats
  plain : Plain (formats drive)
  placed : req.Placed st.buffer
  onDisk : req.pos.toNat + req.view.blocks ≤ (formats drive).blocks

section Serving

variable {formats : Word → FloppyStruct} {drive : Word} {req rest : BlkRequest}
  {st after : IoState} {n : Nat}

theorem BlkRequest.WellFormed.blocks_mul (formed : req.WellFormed) :
    req.view.blocks * 512 = req.dataLen.toNat := by
  have dvd := (whole_rangesOf formed.bios).dvd_totalCount
  rw [← req.ranges_eq, formed.total] at dvd
  exact Nat.div_mul_cancel dvd

theorem BlkRequest.Placed.view {buffer : BufferState} (placed : req.Placed buffer) :
    req.view.Placed buffer := by
  have mul := placed.blocks_mul
  have pos := placed.dataLen_pos
  have whole := whole_rangesOf placed.bios
  rw [← req.ranges_eq] at whole
  refine ⟨⟨?_, placed.first, fun segment mem => ?_⟩, ?_, placed.small, placed.total,
    placed.scattered, placed.apart⟩
  · rw [Request.sectors_eq]
    omega
  · rcases whole segment.range (List.mem_map_of_mem mem) with ⟨some, dvd⟩
    exact ⟨some, Nat.mod_eq_zero_of_dvd dvd⟩
  · simp only [BlkRequest.view]
    omega

theorem Serving.round {params : DriveParams} (serving : Serving formats params.currentDrive req st)
    (turn : Turn) : Round formats (params.input turn req.errors) req.view st :=
  ⟨serving.coherent, serving.plain, serving.placed.view, serving.onDisk⟩

/-- The place of the rest of a request. -/
theorem Serving.pos_rest (serving : Serving formats drive req st) (rest_of : req.Rest rest n)
    (lt : n < req.dataLen.toNat) : rest.pos.toNat = req.pos.toNat + n / 512 := by
  have onDisk := serving.onDisk
  have mul := serving.placed.blocks_mul
  have few := serving.plain.blocks_lt
  rw [rest_of.pos_eq, BitVec.toNat_add, BitVec.toNat_ofNat]
  omega

theorem Serving.left (serving : Serving formats drive req st) (rest_of : req.Rest rest n)
    (lt : n < req.dataLen.toNat) (dvd : 512 ∣ n) (coherent : after.Coherent formats)
    (range_eq : after.buffer.range = st.buffer.range) : Serving formats drive rest after := by
  have onDisk := serving.onDisk
  have mul := serving.placed.blocks_mul
  have small := serving.placed.small
  have pos_eq := serving.pos_rest rest_of lt
  have placed : rest.Placed after.buffer := by
    refine ⟨rest_of.formed, ?_, ?_, ?_⟩
    · rw [rest_of.dataLen_eq]
      omega
    · rw [rest_of.ranges_eq]
      exact serving.placed.scattered.dropBytes n
    · rw [rest_of.ranges_eq, range_eq]
      exact serving.placed.apart.dropBytes n
  have left_mul := placed.blocks_mul
  rw [rest_of.dataLen_eq] at left_mul
  exact ⟨coherent, serving.plain, placed, by omega⟩

/-- Nothing is given back. -/
theorem Serving.again (serving : Serving formats drive req st) (coherent : after.Coherent formats)
    (range_eq : after.buffer.range = st.buffer.range) (errors : Word) :
    Serving formats drive { req with errors } after := by
  have placed := serving.placed
  refine ⟨coherent, serving.plain, ⟨⟨placed.nonempty, placed.bios, placed.first, placed.total⟩,
    placed.small, placed.scattered, ?_⟩, serving.onDisk⟩
  rw [range_eq]
  exact placed.apart

/-- Some blocks are done. -/
theorem BlkRequest.Placed.part_of_done {buffer : BufferState} (placed : req.Placed buffer)
    {blocks : Nat} (some : 0 < blocks) (le : blocks ≤ req.view.blocks) :
    req.Part (blocks * 512) false (req.floppyEndRequest false blocks) := by
  have mul := placed.blocks_mul
  exact placed.part (by omega) (by omega) (Nat.dvd_mul_left 512 blocks) false

theorem BlkRequest.WellFormed.curBytes (formed : req.WellFormed) :
    0 < req.curBytes ∧ 512 ∣ req.curBytes ∧ req.curBytes ≤ req.dataLen.toNat := by
  rcases List.exists_cons_of_ne_nil formed.nonempty with ⟨bio, others, bios_eq⟩
  have first := formed.bios bio (by rw [bios_eq]; exact List.mem_cons_self)
  rcases first.exists_vec with ⟨vec, vecs, vecs_eq⟩
  have cur_eq : req.curBytes = vec.range.count := by
    rw [BlkRequest.curBytes, bios_eq, List.head?_cons, Option.elim_some, vecs_eq, List.head?_cons,
      Option.elim_some]
    rfl
  have whole := first.whole vec.range (by rw [Bio.ranges, vecs_eq]; exact List.mem_cons_self)
  rw [cur_eq]
  refine ⟨whole.1, whole.2, ?_⟩
  rw [← formed.total, req.ranges_eq, bios_eq, rangesOf, List.flatMap_cons, Bio.ranges, vecs_eq,
    List.map_cons, List.cons_append, totalCount_cons]
  exact Nat.le_add_right _ _

/-- The vector that is next is given up. -/
theorem BlkRequest.WellFormed.part_of_error (formed : req.WellFormed) :
    req.Part req.curBytes true (req.floppyEndRequest true 0) := by
  rcases formed.curBytes with ⟨some, dvd, le⟩
  rw [BlkRequest.floppyEndRequest, if_pos rfl, Nat.div_mul_cancel dvd]
  exact formed.part some le dvd true

end Serving

section Turns

variable {params : DriveParams} {floppy : FloppyStruct} {turn : Turn} {turns : List Turn}
  {req rest : BlkRequest} {st middle after : IoState} {progress : Progress}
  {ended later : List BioEnd}

theorem serve_last
    (run : st.pass (params.input turn req.errors) req.view turn.ending floppy =
      .ok (progress, middle))
    (concluded : req.conclude params.maxAbort progress = (none, ended)) :
    st.serve params floppy (turn :: turns) req = .ok (none, ended, middle) := by
  rw [IoState.serve, run, ok_bind]
  simp only [concluded]
  rfl

theorem serve_next
    (run : st.pass (params.input turn req.errors) req.view turn.ending floppy =
      .ok (progress, middle))
    (concluded : req.conclude params.maxAbort progress = (some rest, ended))
    (goesOn : middle.serve params floppy turns rest = .ok (none, later, after)) :
    st.serve params floppy (turn :: turns) req = .ok (none, ended ++ later, after) := by
  rw [IoState.serve, run, ok_bind]
  simp only [concluded, goesOn]
  rfl

end Turns

/-- The disk is as before, and so is memory apart from the track buffer and the request. -/
structure Quiet (req : Request) (st after : IoState) : Prop where
  disks_eq : after.disks = st.disks
  range_eq : after.buffer.range = st.buffer.range
  others : ∀ address, ¬st.buffer.range.Contains address →
    (∀ i < req.blocks * 512, addressAt req.ranges i ≠ address) →
      after.memory address = st.memory address

/-- The bytes that are given back without an error are as on the disk. -/
structure ReadBack (formats : Word → FloppyStruct) (drive : Word) (req : BlkRequest)
    (fates : List Bool) (st after : IoState) : Prop extends Quiet req.view st after where
  coherent : after.Coherent formats
  length_eq : fates.length = req.dataLen.toNat
  bytes : ∀ i : Nat, fates[i]? = some true → after.memory (addressAt req.view.ranges i) =
    st.disks ((formats drive).blockSector drive (req.pos.toNat + i / 512)) (i % 512)

/-- A request to read is served, and without an error if there is none. -/
def ReadServed (formats : Word → FloppyStruct) (params : DriveParams) (turns : List Turn)
    (req : BlkRequest) (st : IoState) : Prop :=
  ∃ fates after,
    st.serve params (formats params.currentDrive) turns req =
      .ok (none, report req.bios fates, after) ∧
    ReadBack formats params.currentDrive req fates st after ∧
    ((∀ turn ∈ turns, turn.ending.Complete) → ∀ fate ∈ fates, fate = true)

section Reading

variable {formats : Word → FloppyStruct} {params : DriveParams} {turn : Turn} {turns : List Turn}
  {req rest : BlkRequest} {st middle after : IoState} {progress : Progress} {n : Nat}
  {error : Bool}

theorem Effect.quiet {floppy : FloppyStruct} {drive : Word} {req : Request} {ending : Ending}
    (effect : Effect floppy drive req ending st progress after) (reads : req.write = false) :
    Quiet req st after := by
  cases effect with
  | read _ _ delivered => exact ⟨rfl, rfl, fun address _ ne => delivered.others address ne⟩
  | unread _ _ _ delivered => exact ⟨rfl, rfl, fun address _ ne => delivered.others address ne⟩
  | loaded _ _ kept range_eq => exact ⟨rfl, range_eq, fun address outside _ => kept address outside⟩
  | unloaded _ _ _ kept range_eq =>
      exact ⟨rfl, range_eq, fun address outside _ => kept address outside⟩
  | written writes => simp [reads] at writes

/-- A part of a request and then the rest. -/
theorem ReadBack.of_rest {fates : List Bool}
    (serving : Serving formats params.currentDrive req st) (quiet : Quiet req.view st middle)
    (bytes : error = false → ∀ i < n, middle.memory (addressAt req.view.ranges i) =
      st.disks ((formats params.currentDrive).blockSector params.currentDrive
        (req.pos.toNat + i / 512)) (i % 512))
    (rest_of : req.Rest rest n) (lt : n < req.dataLen.toNat) (dvd : 512 ∣ n)
    (back : ReadBack formats params.currentDrive rest fates middle after) :
    ReadBack formats params.currentDrive req (List.replicate n (!error) ++ fates) st after := by
  have placed := serving.placed
  have mul := placed.blocks_mul
  have ranges_eq (i : Nat) : addressAt rest.view.ranges i = addressAt req.view.ranges (n + i) := by
    rw [rest_of.ranges_eq, addressAt_dropBytes]
  have rest_mul := rest_of.formed.blocks_mul
  rw [rest_of.dataLen_eq] at rest_mul
  refine ⟨⟨?_, ?_, ?_⟩, back.coherent, ?_, ?_⟩
  · rw [back.disks_eq, quiet.disks_eq]
  · rw [back.range_eq, quiet.range_eq]
  · intro address outside ne
    rw [back.others address (quiet.range_eq ▸ outside) fun i i_lt => ?_,
      quiet.others address outside ne]
    rw [ranges_eq]
    exact ne _ (by omega)
  · rw [List.length_append, List.length_replicate, back.length_eq, rest_of.dataLen_eq]
    omega
  · intro i good
    by_cases first : i < n
    · rw [List.getElem?_append_left (by simpa using first)] at good
      have fine : error = false := by simpa [first] using good
      rw [← bytes fine i first]
      apply back.others
      · rw [quiet.range_eq]
        exact placed.apart.addressAt (by rw [placed.total]; omega)
      · intro j j_lt same
        rw [ranges_eq] at same
        have := addressAt_inj placed.scattered (by rw [placed.total]; omega)
          (by rw [placed.total]; omega) same
        omega
    · obtain ⟨j, rfl⟩ : ∃ j, i = n + j := ⟨i - n, by omega⟩
      rw [List.getElem?_append_right (by simp), List.length_replicate,
        Nat.add_sub_cancel_left] at good
      have there := back.bytes j good
      rw [ranges_eq, quiet.disks_eq, serving.pos_rest rest_of lt] at there
      have block_eq : req.pos.toNat + n / 512 + j / 512 = req.pos.toNat + (n + j) / 512 := by omega
      have byte_eq : j % 512 = (n + j) % 512 := by omega
      rw [there, block_eq, byte_eq]

/-- A part of a request in this round and the rest in the others. -/
theorem ReadServed.of_part (serving : Serving formats params.currentDrive req st)
    (run : st.pass (params.input turn req.errors) req.view turn.ending
      (formats params.currentDrive) = .ok (progress, middle))
    (part : req.Part n error (req.conclude params.maxAbort progress)) (dvd : 512 ∣ n)
    (coherent : middle.Coherent formats) (quiet : Quiet req.view st middle)
    (blame : turn.ending.Complete → error = false)
    (bytes : error = false → ∀ i < n, middle.memory (addressAt req.view.ranges i) =
      st.disks ((formats params.currentDrive).blockSector params.currentDrive
        (req.pos.toNat + i / 512)) (i % 512))
    (goesOn : n < req.dataLen.toNat → ∀ rest, req.Rest rest n →
      Serving formats params.currentDrive rest middle →
        ReadServed formats params turns rest middle) :
    ReadServed formats params (turn :: turns) req st := by
  generalize concluded : req.conclude params.maxAbort progress = result at part
  cases part with
  | finished all reported =>
      refine ⟨List.replicate n (!error), middle, ?_, ⟨quiet, coherent, ?_, ?_⟩,
        fun complete fate mem => ?_⟩
      · rw [← reported]
        exact serve_last run concluded
      · rw [List.length_replicate, all]
      · intro i good
        rw [List.getElem?_replicate] at good
        split_ifs at good with lt
        exact bytes (by simpa using good) i lt
      · rw [List.eq_of_mem_replicate mem, blame (complete turn List.mem_cons_self)]
        rfl
  | left lt rest_of reported =>
      rcases goesOn lt _ rest_of (serving.left rest_of lt dvd coherent quiet.range_eq)
        with ⟨fates, after, served, back, healthy⟩
      refine ⟨List.replicate n (!error) ++ fates, after, ?_,
        .of_rest serving quiet bytes rest_of lt dvd back, fun complete fate mem => ?_⟩
      · rw [reported]
        exact serve_next run concluded served
      · rcases List.mem_append.mp mem with first | later
        · rw [List.eq_of_mem_replicate first, blame (complete turn List.mem_cons_self)]
          rfl
        · exact healthy (fun turn mem => complete turn (List.mem_cons_of_mem _ mem)) fate later

/-- The request is as before, and the other rounds are for it. -/
theorem ReadServed.of_same {errors : Word}
    (run : st.pass (params.input turn req.errors) req.view turn.ending
      (formats params.currentDrive) = .ok (progress, middle))
    (concluded : req.conclude params.maxAbort progress = (some { req with errors }, []))
    (quiet : Quiet req.view st middle)
    (served : ReadServed formats params turns { req with errors } middle) :
    ReadServed formats params (turn :: turns) req st := by
  rcases served with ⟨fates, after, goesOn, back, healthy⟩
  refine ⟨fates, after, serve_next run concluded goesOn, ⟨⟨?_, ?_, ?_⟩, back.coherent,
    back.length_eq, ?_⟩, fun complete =>
      healthy fun turn mem => complete turn (List.mem_cons_of_mem _ mem)⟩
  · rw [back.disks_eq, quiet.disks_eq]
  · rw [back.range_eq, quiet.range_eq]
  · intro address outside ne
    rw [back.others address (quiet.range_eq ▸ outside) ne, quiet.others address outside ne]
  · rw [← quiet.disks_eq]
    exact back.bytes

/-- A command that gets nothing done is counted. -/
def Ending.Counted (ending : Ending) : Prop := ending.verdict = .fine → ending.passed ≠ some 0

theorem Ending.Counted.not_lost {ending : Ending} (counted : ending.Counted) :
    ¬ending.Lost .again := by
  rintro ⟨blocks, some, loses⟩
  generalize verdict_eq : ending.verdict = verdict at loses
  cases loses with
  | idle none =>
      have := counted verdict_eq
      rw [Ending.transferred] at none
      cases passed : ending.passed with
      | none =>
          rw [passed] at none
          exact some.ne' none
      | some k =>
          rw [passed, Option.elim_some] at none
          rw [passed] at this
          exact this (by congr; omega)

theorem Ending.not_lost_done (ending : Ending) {count : Int} : ¬ending.Lost (.done count) := by
  rintro ⟨_, _, loses⟩
  generalize ending.verdict = verdict at loses
  nomatch loses

/-- Rounds for the blocks behind the next one, for failures at that one, and to get at it. -/
def DriveParams.roundsFor (params : DriveParams) (req : BlkRequest) (wait : Nat) : Nat :=
  (req.view.blocks - 1) * (params.maxAbort.toNat + 3) +
    (params.maxAbort.toNat + 1 - req.errors.toNat) + wait

theorem BlkRequest.WellFormed.exists_blocks (formed : req.WellFormed) :
    ∃ k, req.view.blocks = k + 1 := by
  have mul := formed.blocks_mul
  have := formed.dataLen_pos
  exact ⟨req.view.blocks - 1, by omega⟩

theorem roundsFor_fresh (formed : req.WellFormed) (fresh : req.errors = 0) :
    params.roundsFor req 2 = req.view.blocks * (params.maxAbort.toNat + 3) := by
  rcases formed.exists_blocks with ⟨k, blocks_eq⟩
  rw [DriveParams.roundsFor, blocks_eq, fresh, Nat.add_one_mul, Nat.add_sub_cancel, Nat.add_assoc]
  rfl

/-- One round pays for every block that is through. -/
theorem roundsFor_rest (formed : req.WellFormed) (rest_of : req.Rest rest n) (some : 0 < n)
    (lt : n < req.dataLen.toNat) (dvd : 512 ∣ n) {wait : Nat} (positive : 0 < wait) :
    params.roundsFor rest 2 + 1 ≤ params.roundsFor req wait := by
  have mul := formed.blocks_mul
  have rest_mul := rest_of.formed.blocks_mul
  have fewer : rest.view.blocks ≤ req.view.blocks - 1 := by
    rw [rest_of.dataLen_eq] at rest_mul
    omega
  have saved := Nat.mul_le_mul_right (params.maxAbort.toNat + 3) fewer
  rw [roundsFor_fresh rest_of.formed rest_of.errors_eq, DriveParams.roundsFor]
  omega

/-- The block that is next is in the track buffer, or there is a round to get it there. -/
inductive Waits (floppy : FloppyStruct) (drive : Word) (req : BlkRequest) (st : IoState) :
    Nat → Prop
  | load : Waits floppy drive req st 2
  | held (found : st.buffer.Found floppy drive req.pos) : Waits floppy drive req st 1

/-- A request to read, with any number of failures behind it. -/
theorem Serving.reads_from {wait : Nat} (serving : Serving formats params.currentDrive req st)
    (reads : req.write = false) (limit : params.maxAbort.toNat < 4294967295)
    (errors_le : req.errors.toNat ≤ params.maxAbort.toNat)
    (counted : ∀ turn ∈ turns, turn.ending.Counted)
    (waits : Waits (formats params.currentDrive) params.currentDrive req st wait)
    (enough : params.roundsFor req wait ≤ turns.length) :
    ReadServed formats params turns req st := by
  have positive : 0 < wait := by
    cases waits <;> decide
  induction turns generalizing req st wait with
  | nil =>
      simp only [DriveParams.roundsFor, List.length_nil] at enough
      omega
  | cons turn turns ih =>
      have later_counted : ∀ turn ∈ turns, turn.ending.Counted :=
        fun later mem => counted later (List.mem_cons_of_mem _ mem)
      have placed := serving.placed
      rw [List.length_cons] at enough
      rcases (serving.round turn).pass_effect turn.ending
        (fun writes => absurd (reads.symm.trans writes) Bool.false_ne_true)
        with ⟨progress, middle, run, coherent, effect⟩
      have quiet := effect.quiet reads
      have goesOn {n : Nat} (some : 0 < n) (lt : n < req.dataLen.toNat) (dvd : 512 ∣ n)
          (rest : BlkRequest) (rest_of : req.Rest rest n)
          (left : Serving formats params.currentDrive rest middle) :
          ReadServed formats params turns rest middle := by
        have paid : params.roundsFor rest 2 + 1 ≤ params.roundsFor req wait :=
          roundsFor_rest placed.toWellFormed rest_of some lt dvd positive
        refine ih left (rest_of.write_eq.trans reads) ?_ later_counted .load (by omega) (by decide)
        rw [rest_of.errors_eq]
        exact Nat.zero_le _
      have given_up (lost : turn.ending.Lost progress)
          (concluded : req.conclude params.maxAbort progress = req.floppyEndRequest true 0) :
          ReadServed formats params (turn :: turns) req st := by
        rcases placed.curBytes with ⟨some, dvd, -⟩
        exact .of_part serving run (concluded ▸ placed.part_of_error) dvd coherent quiet
          (fun complete => absurd lost complete.not_lost) (fun fine => Bool.noConfusion fine)
          fun lt => goesOn some lt dvd
      have lost_round (lost : turn.ending.Lost progress)
          (absent : ¬st.buffer.Found (formats params.currentDrive) params.currentDrive req.pos) :
          ReadServed formats params (turn :: turns) req st := by
        obtain rfl : wait = 2 := by
          cases waits with
          | load => rfl
          | held found => exact absurd found absent
        cases progress with
        | refused => exact given_up lost rfl
        | done => exact absurd lost turn.ending.not_lost_done
        | again => exact absurd lost (counted turn List.mem_cons_self).not_lost
        | failed =>
            have errors_eq : (req.errors + 1).toNat = req.errors.toNat + 1 := by
              rw [BitVec.toNat_add, show BitVec.toNat (1 : Word) = 1 from rfl]
              omega
            by_cases many : params.maxAbort.toNat < req.errors.toNat + 1
            · exact given_up lost (if_pos (by simpa only [errors_eq] using many))
            · have fewer : params.roundsFor { req with errors := req.errors + 1 } 2 + 1 =
                  params.roundsFor req 2 := by
                simp only [DriveParams.roundsFor, errors_eq, BlkRequest.view]
                omega
              refine .of_same run (if_neg (by simpa only [errors_eq] using many)) quiet
                (ih (serving.again coherent quiet.range_eq _) reads ?_ later_counted .load
                  (by omega) (by decide))
              simp only [errors_eq]
              omega
      cases effect with
      | read _ some delivered =>
          exact .of_part serving run (placed.part_of_done some delivered.le)
            (Nat.dvd_mul_left 512 _) coherent quiet (fun _ => rfl) (fun _ => delivered.bytes)
            fun lt => goesOn (by omega) lt (Nat.dvd_mul_left 512 _)
      | unread _ absent lost => exact lost_round lost absent
      | loaded _ absent _ _ found =>
          cases waits with
          | load =>
              exact .of_same run rfl quiet (ih (serving.again coherent quiet.range_eq req.errors)
                reads errors_le later_counted (.held found) (Nat.le_of_succ_le_succ enough)
                (by decide))
          | held here => exact absurd here absent
      | unloaded _ absent lost => exact lost_round lost absent
      | written writes => exact absurd (reads.symm.trans writes) Bool.false_ne_true

/-- Contiguous blocks, as one bio. -/
def blockRequest (write : Bool) (pos dataLen : Word) : BlkRequest :=
  ⟨pos, write, dataLen, 0xc0200000, [⟨0, dataLen.toNat, [⟨0xc0200000, dataLen⟩], true⟩], 0⟩

theorem placed_blockRequest {buffer : BufferState} (write : Bool) (pos : Word)
    (range_eq : buffer.range = openedBuffer.range) :
    (blockRequest write pos 512).Placed buffer := by
  refine ⟨⟨List.cons_ne_nil _ _, ?_, rfl, rfl⟩, ?_, List.pairwise_singleton _ _, ?_⟩
  · intro bio mem
    rw [List.mem_singleton.mp mem]
    decide
  · exact (by decide : (512 : Word).toNat < 2147483648)
  · rw [range_eq]
    intro range mem address inside other
    rw [List.mem_singleton.mp mem] at inside
    exact absurd (inside.1.trans_lt other.2) (by decide)

theorem coherent_opened (formats : Word → FloppyStruct) (memory : Buffer) (disks : Disks) :
    IoState.Coherent formats ⟨memory, disks, openedBuffer⟩ :=
  coherent_of_invalid roomy_openedBuffer rfl

end Reading

/-- All of a request is on the disk. -/
structure WrittenBack (formats : Word → FloppyStruct) (drive : Word) (req : BlkRequest)
    (st after : IoState) : Prop where
  coherent : after.Coherent formats
  range_eq : after.buffer.range = st.buffer.range
  kept : KeptOutside st.buffer.range st.memory after.memory
  written : Written (formats drive) drive req.view req.view.blocks st.memory st.disks after.disks

/-- A request to write is served. -/
def WriteServed (formats : Word → FloppyStruct) (params : DriveParams) (turns : List Turn)
    (req : BlkRequest) (st : IoState) : Prop :=
  ∃ after,
    st.serve params (formats params.currentDrive) turns req =
      .ok (none, report req.bios (List.replicate req.dataLen.toNat true), after) ∧
    WrittenBack formats params.currentDrive req st after

section Writing

variable {formats : Word → FloppyStruct} {params : DriveParams} {turn : Turn} {turns : List Turn}
  {req rest : BlkRequest} {st middle after : IoState} {blocks : Nat}

theorem Effect.of_write {floppy : FloppyStruct} {drive : Word} {req : Request} {ending : Ending}
    {progress : Progress} (effect : Effect floppy drive req ending st progress after)
    (writes : req.write = true) :
    ∃ blocks : Nat, progress = .done blocks ∧ 0 < blocks ∧ blocks ≤ req.blocks ∧
      KeptOutside st.buffer.range st.memory after.memory ∧
      after.buffer.range = st.buffer.range ∧
      Written floppy drive req blocks st.memory st.disks after.disks ∧
      after.buffer.Clear floppy drive (req.pos + BitVec.ofNat 32 blocks) (req.blocks - blocks) := by
  cases effect with
  | read reads => simp [reads] at writes
  | unread reads => simp [reads] at writes
  | loaded reads => simp [reads] at writes
  | unloaded reads => simp [reads] at writes
  | written _ some le kept range_eq written ahead =>
      exact ⟨_, rfl, some, le, kept, range_eq, written, ahead⟩

/-- Some blocks of a request and then the rest. -/
theorem WrittenBack.of_rest (serving : Serving formats params.currentDrive req st)
    (range_eq : middle.buffer.range = st.buffer.range)
    (kept : KeptOutside st.buffer.range st.memory middle.memory)
    (written : Written (formats params.currentDrive) params.currentDrive req.view blocks st.memory
      st.disks middle.disks)
    (rest_of : req.Rest rest (blocks * 512)) (lt : blocks * 512 < req.dataLen.toNat)
    (back : WrittenBack formats params.currentDrive rest middle after) :
    WrittenBack formats params.currentDrive req st after := by
  have placed := serving.placed
  have onDisk := serving.onDisk
  have mul := placed.blocks_mul
  have rest_mul := rest_of.formed.blocks_mul
  rw [rest_of.dataLen_eq] at rest_mul
  have pos_eq := serving.pos_rest rest_of lt
  rw [Nat.mul_div_cancel _ (by decide)] at pos_eq
  have range_rest : KeptOutside st.buffer.range middle.memory after.memory := range_eq ▸ back.kept
  refine ⟨back.coherent, back.range_eq.trans range_eq, fun address outside => ?_,
    fun i i_lt => ?_, fun sector ne => ?_⟩
  · rw [range_rest address outside, kept address outside]
  · by_cases first : i < blocks * 512
    · rw [back.written.others, written.bytes i first]
      intro j j_lt same
      rw [show rest.view.pos.toNat = _ from pos_eq] at same
      have := serving.plain.blockSector_inj same
      simp only [BlkRequest.view] at this
      omega
    · obtain ⟨j, rfl⟩ : ∃ j, i = blocks * 512 + j := ⟨i - blocks * 512, by omega⟩
      have there := back.written.bytes j (by omega)
      rw [show rest.view.pos.toNat = _ from pos_eq, rest_of.ranges_eq, addressAt_dropBytes] at there
      have block_eq : req.pos.toNat + blocks + j / 512 =
          req.pos.toNat + (blocks * 512 + j) / 512 := by omega
      have byte_eq : j % 512 = (blocks * 512 + j) % 512 := by omega
      rw [block_eq, byte_eq] at there
      refine there.trans (kept _ (placed.apart.addressAt ?_))
      rw [placed.total, ← mul]
      exact i_lt
  · rw [back.written.others sector fun i i_lt => ?_, written.others sector fun i i_lt => ?_]
    · exact ne i (by omega)
    · rw [show rest.view.pos.toNat = _ from pos_eq, Nat.add_assoc]
      exact ne _ (by omega)

/-- A request to write, one part in every round. -/
theorem Serving.writes (serving : Serving formats params.currentDrive req st)
    (writes : req.write = true) (complete : ∀ turn ∈ turns, turn.ending.Complete)
    (clear : st.buffer.Clear (formats params.currentDrive) params.currentDrive req.pos
      req.view.blocks)
    (enough : req.view.blocks ≤ turns.length) : WriteServed formats params turns req st := by
  induction turns generalizing req st with
  | nil =>
      rcases serving.placed.exists_blocks with ⟨k, blocks_eq⟩
      rw [List.length_nil] at enough
      omega
  | cons turn turns ih =>
      have placed := serving.placed
      have mul := placed.blocks_mul
      rcases (serving.round turn).pass_effect turn.ending
        (fun _ => ⟨complete turn List.mem_cons_self, clear⟩)
        with ⟨progress, middle, run, coherent, effect⟩
      rcases effect.of_write writes with ⟨blocks, rfl, some, le, kept, range_eq, written, ahead⟩
      have part : req.Part (blocks * 512) false (req.conclude params.maxAbort (.done blocks)) :=
        placed.part_of_done some le
      generalize concluded : req.conclude params.maxAbort (.done blocks) = result at part
      cases part with
      | finished all reported =>
          obtain rfl : blocks = req.view.blocks := by omega
          refine ⟨middle, ?_, coherent, range_eq, kept, written⟩
          rw [← all]
          exact reported ▸ serve_last run concluded
      | @left rest ended lt rest_of reported =>
          have rest_mul := rest_of.formed.blocks_mul
          rw [rest_of.dataLen_eq] at rest_mul
          have blocks_eq : rest.view.blocks = req.view.blocks - blocks := by omega
          have pos_eq := rest_of.pos_eq
          rw [Nat.mul_div_cancel _ (by decide)] at pos_eq
          rcases ih (serving.left rest_of lt (Nat.dvd_mul_left 512 blocks) coherent range_eq)
            (rest_of.write_eq.trans writes)
            (fun later mem => complete later (List.mem_cons_of_mem _ mem))
            (by rw [pos_eq, blocks_eq]; exact ahead)
            (by rw [List.length_cons] at enough; omega) with ⟨after, served, back⟩
          refine ⟨after, ?_, .of_rest serving range_eq kept written rest_of lt back⟩
          have sum : List.replicate req.dataLen.toNat true =
              List.replicate (blocks * 512) true ++ List.replicate rest.dataLen.toNat true := by
            rw [List.replicate_append_replicate, rest_of.dataLen_eq]
            congr 1
            omega
          rw [sum]
          exact (reported _).symm ▸ serve_next run concluded served

end Writing

end Gray386.Floppy
