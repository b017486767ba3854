import Mathlib.Data.List.Perm.Basic
import Mathlib.Logic.Function.Basic

/-!
# Taking turns among the drives

All drives share one controller, and each has a queue of requests of its own. When the
driver is done with a request, `set_next_request` looks for the next one. It starts at the
drive `fdc_queue`, which it moves on before it looks into the queue, and stops at the first
request or when it has come round.

So after a request has been taken, `fdc_queue` is the drive behind the one that was served.
A drive with requests that was not served has come nearer, and this limits how often it can
be passed over.
-/

namespace Gray386.Floppy

variable {n : Nat} {Request : Type}

/-- The queues of the drives, and the variables of `set_next_request`. -/
structure Queues (n : Nat) (Request : Type) where
  /-- `disks[drive]->queue`, which may be null. -/
  queue : Fin n → Option (List Request)
  fdcQueue : Fin n
  currentReq : Option Request

/-- `blk_fetch_request`: the request at the top, if there is one, and the queue without it. -/
def blkFetchRequest : List Request → Option Request × List Request
  | [] => (none, [])
  | request :: rest => (some request, rest)

/-- `++fdc_queue`, and 0 instead of `N_DRIVE`. -/
def nextDrive (drive : Fin n) : Fin n :=
  ⟨if drive.val + 1 = n then 0 else drive.val + 1, by split <;> omega⟩

namespace Queues

variable (st : Queues n Request)

/-- The body of the loop in `set_next_request`, and whether the loop is left by `break`. -/
def lookAt : Bool × Queues n Request :=
  match st.queue st.fdcQueue with
  | none => (false, { st with fdcQueue := nextDrive st.fdcQueue })
  | some q =>
      let (req, rest) := blkFetchRequest q
      (req.isSome,
        { queue := Function.update st.queue st.fdcQueue (some rest)
          fdcQueue := nextDrive st.fdcQueue
          currentReq := req })

end Queues

/-- The loop in `set_next_request`, so many times at most. -/
def searchRequest (oldPos : Fin n) : Nat → Queues n Request → Option (Queues n Request)
  | 0, _ => none
  | rounds + 1, st =>
      let (found, st) := st.lookAt
      if found then some st
      else if st.fdcQueue = oldPos then some st
      else searchRequest oldPos rounds st

/-- `set_next_request`. -/
def setNextRequest (st : Queues n Request) : Option (Bool × Queues n Request) :=
  (searchRequest st.fdcQueue n st).map fun st => (st.currentReq.isSome, st)

/-- The drive that many places behind another one. -/
def driveBehind (drive : Fin n) (places : Nat) (places_lt : places < n) : Fin n :=
  ⟨if drive.val + places < n then drive.val + places else drive.val + places - n, by
    split <;> omega⟩

/-- How many places a drive is behind another one. -/
def placesBehind (drive other : Fin n) : Nat :=
  if drive ≤ other then other.val - drive.val else other.val + n - drive.val

theorem placesBehind_lt (drive other : Fin n) : placesBehind drive other < n := by
  simp only [placesBehind, Fin.le_def]
  split <;> omega

theorem driveBehind_placesBehind (drive other : Fin n) :
    driveBehind drive (placesBehind drive other) (placesBehind_lt drive other) = other := by
  ext
  simp only [driveBehind, placesBehind, Fin.le_def]
  split <;> split <;> omega

theorem placesBehind_driveBehind (drive : Fin n) {places : Nat} (places_lt : places < n) :
    placesBehind drive (driveBehind drive places places_lt) = places := by
  simp only [driveBehind, placesBehind, Fin.le_def]
  split <;> split at * <;> omega

theorem driveBehind_zero (drive : Fin n) (positive : 0 < n) :
    driveBehind drive 0 positive = drive := by
  ext
  simp [driveBehind]

theorem nextDrive_driveBehind (drive : Fin n) {places : Nat} (places_lt : places + 1 < n) :
    nextDrive (driveBehind drive places (by omega)) =
      driveBehind drive (places + 1) places_lt := by
  ext
  simp only [nextDrive, driveBehind]
  split <;> split <;> split at * <;> omega

theorem nextDrive_driveBehind_eq_iff (drive : Fin n) {places : Nat} (places_lt : places < n) :
    nextDrive (driveBehind drive places places_lt) = drive ↔ places + 1 = n := by
  rw [Fin.ext_iff]
  simp only [nextDrive, driveBehind]
  split <;> split at * <;> omega

/-- A drive that is passed over has come nearer. -/
theorem placesBehind_nextDrive {drive served other : Fin n}
    (passed : placesBehind drive served < placesBehind drive other) :
    placesBehind (nextDrive served) other < placesBehind drive other := by
  simp only [placesBehind, nextDrive, Fin.le_def] at *
  split at passed <;> split at passed <;> split <;> split <;> omega

namespace Queues

/-- There is a request for a drive. -/
def HasRequest (st : Queues n Request) (drive : Fin n) : Prop :=
  ∃ request rest, st.queue drive = some (request :: rest)

/-- The request at the top of one queue is taken, and nothing else changes in the queues. -/
def Takes (st next : Queues n Request) (drive : Fin n) : Prop :=
  ∃ request rest, st.queue drive = some (request :: rest) ∧ next.currentReq = some request ∧
    next.queue = Function.update st.queue drive (some rest)

/-- What a call does: it serves the first drive with a request, or there is none. -/
inductive Served (st next : Queues n Request) : Prop where
  | one (drive : Fin n) (takes : st.Takes next drive)
      (cursor : next.fdcQueue = nextDrive drive)
      (first : ∀ other, st.HasRequest other →
        placesBehind st.fdcQueue drive ≤ placesBehind st.fdcQueue other)
  | nothing (empty : ∀ drive, ¬st.HasRequest drive) (unchanged : next = st)

/-- The cursor is put on another drive. -/
def withCursor (st : Queues n Request) (drive : Fin n) : Queues n Request :=
  { st with fdcQueue := drive }

theorem lookAt_of_empty (st : Queues n Request) (idle : st.currentReq = none)
    (empty : ¬st.HasRequest st.fdcQueue) :
    st.lookAt = (false, st.withCursor (nextDrive st.fdcQueue)) := by
  cases queued : st.queue st.fdcQueue with
  | none => simp only [lookAt, queued, withCursor]
  | some q =>
      cases q with
      | nil =>
          have kept : Function.update st.queue st.fdcQueue (some []) = st.queue := by
            rw [← queued]
            exact Function.update_eq_self st.fdcQueue st.queue
          simp only [lookAt, queued, blkFetchRequest, withCursor, kept, idle, Option.isSome_none]
      | cons request rest => exact absurd ⟨request, rest, queued⟩ empty

theorem lookAt_of_hasRequest (st : Queues n Request) {request : Request}
    {rest : List Request} (queued : st.queue st.fdcQueue = some (request :: rest)) :
    st.lookAt = (true,
      { queue := Function.update st.queue st.fdcQueue (some rest)
        fdcQueue := nextDrive st.fdcQueue
        currentReq := some request }) := by
  simp only [lookAt, queued, blkFetchRequest, Option.isSome_some]

end Queues

open Queues

theorem empty_before_succ {st : Queues n Request} {places : Nat} (places_lt : places < n)
    (empty : ∀ other, placesBehind st.fdcQueue other < places → ¬st.HasRequest other)
    (emptyHere : ¬st.HasRequest (driveBehind st.fdcQueue places places_lt)) :
    ∀ other, placesBehind st.fdcQueue other < places + 1 → ¬st.HasRequest other := by
  intro other before
  rcases Nat.lt_succ_iff_lt_or_eq.mp before with earlier | rfl
  · exact empty other earlier
  · rwa [driveBehind_placesBehind] at emptyHere

/-- One round of the search: a drive is served, or the search goes on at the next one. -/
theorem searchRequest_round {st : Queues n Request} (idle : st.currentReq = none)
    {places : Nat} (places_lt : places < n)
    (empty : ∀ other, placesBehind st.fdcQueue other < places → ¬st.HasRequest other)
    (rounds : Nat) :
    let here := driveBehind st.fdcQueue places places_lt
    (∃ next, searchRequest st.fdcQueue (rounds + 1) (st.withCursor here) = some next ∧
      st.Served next) ∨
    (∀ other, placesBehind st.fdcQueue other < places + 1 → ¬st.HasRequest other) ∧
      searchRequest st.fdcQueue (rounds + 1) (st.withCursor here) =
        if nextDrive here = st.fdcQueue then some (st.withCursor (nextDrive here))
        else searchRequest st.fdcQueue rounds (st.withCursor (nextDrive here)) := by
  intro here
  by_cases has : st.HasRequest here
  · left
    rcases has with ⟨request, rest, queued⟩
    have looked := lookAt_of_hasRequest (st.withCursor here) queued
    refine ⟨_, by rw [searchRequest, looked]; rfl, ?_⟩
    refine .one here ⟨request, rest, queued, rfl, rfl⟩ rfl ?_
    intro other requested
    rw [placesBehind_driveBehind]
    exact Nat.le_of_not_lt fun before => empty other before requested
  · right
    refine ⟨empty_before_succ places_lt empty has, ?_⟩
    rw [searchRequest, lookAt_of_empty (st.withCursor here) idle has]
    rfl

/--
The rest of the search, when the drives so far have no request. The loop is left before the
rounds are used up.
-/
theorem searchRequest_served {st : Queues n Request} (idle : st.currentReq = none)
    (rounds places : Nat) (together : places + rounds + 1 = n)
    (empty : ∀ other, placesBehind st.fdcQueue other < places → ¬st.HasRequest other) :
    ∃ next, searchRequest st.fdcQueue (rounds + 1)
      (st.withCursor (driveBehind st.fdcQueue places (by omega))) = some next ∧
        st.Served next := by
  induction rounds generalizing places with
  | zero =>
      have places_lt : places < n := by omega
      rcases searchRequest_round idle places_lt empty 0 with served | ⟨emptyNow, searched⟩
      · exact served
      · -- the last drive is behind us, and the cursor is back where it was
        have back := (nextDrive_driveBehind_eq_iff st.fdcQueue places_lt).mpr (by omega)
        rw [if_pos back, back] at searched
        refine ⟨_, searched, .nothing ?_ rfl⟩
        intro drive
        apply emptyNow
        have := placesBehind_lt st.fdcQueue drive
        omega
  | succ rounds ih =>
      have places_lt : places < n := by omega
      rcases searchRequest_round idle places_lt empty (rounds + 1) with
        served | ⟨emptyNow, searched⟩
      · exact served
      · have onwards : nextDrive (driveBehind st.fdcQueue places places_lt) ≠ st.fdcQueue := by
          rw [Ne, nextDrive_driveBehind_eq_iff]
          omega
        rw [if_neg onwards, nextDrive_driveBehind st.fdcQueue (by omega)] at searched
        rw [searched]
        exact ih (places + 1) (by omega) emptyNow

/-- A call comes to its end, and serves the first drive with a request. -/
theorem setNextRequest_served {st : Queues n Request} (idle : st.currentReq = none) :
    ∃ next, setNextRequest st = some (next.currentReq.isSome, next) ∧ st.Served next := by
  have positive : 0 < n := Nat.zero_lt_of_lt st.fdcQueue.isLt
  rcases searchRequest_served idle (n - 1) 0 (by omega) (by simp) with ⟨next, searched, served⟩
  rw [driveBehind_zero st.fdcQueue positive, Nat.sub_add_cancel positive] at searched
  refine ⟨next, ?_, served⟩
  have found : searchRequest st.fdcQueue n st = some next := searched
  rw [setNextRequest, found]
  rfl

/-- The value returned says whether there is a request for some drive. -/
theorem Queues.Served.returns_iff {st next : Queues n Request} (idle : st.currentReq = none)
    (served : st.Served next) :
    next.currentReq.isSome = true ↔ ∃ drive, st.HasRequest drive := by
  cases served with
  | one drive takes cursor first =>
      rcases takes with ⟨request, rest, queued, taken, -⟩
      exact iff_of_true (by simp [taken]) ⟨drive, request, rest, queued⟩
  | nothing empty unchanged =>
      refine iff_of_false ?_ ?_
      · simp [unchanged, idle]
      · rintro ⟨drive, has⟩
        exact empty drive has

theorem Queues.Takes.unique {st next : Queues n Request} {drive other : Fin n}
    (takes : st.Takes next drive) (takesOther : st.Takes next other) : other = drive := by
  by_contra differ
  rcases takes with ⟨-, rest, -, -, queues⟩
  rcases takesOther with ⟨request', rest', queued', -, queues'⟩
  have here : next.queue other = some (request' :: rest') := by
    rw [queues, Function.update_of_ne differ, queued']
  have there : next.queue other = some rest' := by
    rw [queues', Function.update_self]
  simp [here] at there

/-- Requests arrive in a queue. The scheduler of the block layer may put them anywhere. -/
def Arrives (queue later : Option (List Request)) : Prop :=
  match queue with
  | none => later = none
  | some q => ∃ new q', later = some q' ∧ q'.Perm (q ++ new)

/--
A sequence of calls of `set_next_request`. Between two of them the request that was taken is
done with, and others arrive.
-/
structure Service (n : Nat) (Request : Type) where
  before : Nat → Queues n Request
  returned : Nat → Bool
  after : Nat → Queues n Request
  idle : ∀ k, (before k).currentReq = none
  call : ∀ k, setNextRequest (before k) = some (returned k, after k)
  cursor : ∀ k, (before (k + 1)).fdcQueue = (after k).fdcQueue
  arrives : ∀ k drive, Arrives ((after k).queue drive) ((before (k + 1)).queue drive)

namespace Service

/-- The state at the next call, if the requests that arrive are put behind the others. -/
def nextCall (st : Queues n Request) (arrivals : Fin n → List Request) : Queues n Request :=
  let next := ((setNextRequest st).getD (false, st)).2
  { queue := fun drive => (next.queue drive).map (· ++ arrivals drive)
    fdcQueue := next.fdcQueue
    currentReq := none }

def stateAt (start : Queues n Request) (arrivals : Nat → Fin n → List Request) :
    Nat → Queues n Request
  | 0 => { start with currentReq := none }
  | k + 1 => nextCall (stateAt start arrivals k) (arrivals k)

theorem stateAt_idle (start : Queues n Request) (arrivals : Nat → Fin n → List Request) (k : Nat) :
    (stateAt start arrivals k).currentReq = none := by
  cases k <;> rfl

/-- Every state and everything that may arrive give a sequence of calls. -/
def ofArrivals (start : Queues n Request) (arrivals : Nat → Fin n → List Request) :
    Service n Request where
  before := stateAt start arrivals
  returned k := ((setNextRequest (stateAt start arrivals k)).getD (false, start)).1
  after k := ((setNextRequest (stateAt start arrivals k)).getD (false, start)).2
  idle k := stateAt_idle start arrivals k
  call k := by
    rcases setNextRequest_served (stateAt_idle start arrivals k) with ⟨next, called, -⟩
    rw [called]
    rfl
  cursor k := by
    rcases setNextRequest_served (stateAt_idle start arrivals k) with ⟨next, called, -⟩
    simp only [stateAt, nextCall, called, Option.getD_some]
  arrives k drive := by
    rcases setNextRequest_served (stateAt_idle start arrivals k) with ⟨next, called, -⟩
    simp only [stateAt, nextCall, called, Option.getD_some, Arrives]
    cases next.queue drive with
    | none => rfl
    | some q => exact ⟨arrivals k drive, _, rfl, List.Perm.refl _⟩

variable (service : Service n Request)

theorem served (k : Nat) :
    service.returned k = (service.after k).currentReq.isSome ∧
      (service.before k).Served (service.after k) := by
  rcases setNextRequest_served (service.idle k) with ⟨next, called, served⟩
  rw [service.call k] at called
  simp only [Option.some.injEq, Prod.mk.injEq] at called
  rcases called with ⟨returned, after⟩
  rw [after]
  exact ⟨returned, served⟩

/-- A request that is not taken is still there at the next call. -/
theorem hasRequest_succ {k : Nat} {drive : Fin n} {request : Request} {rest : List Request}
    (left : (service.after k).queue drive = some (request :: rest)) :
    (service.before (k + 1)).HasRequest drive := by
  have arrives := service.arrives k drive
  rw [left] at arrives
  rcases arrives with ⟨new, later, queued, perm⟩
  cases later with
  | nil => exact absurd perm.length_eq (by simp)
  | cons first others => exact ⟨first, others, queued⟩

/-- A drive with a request is served, or it is nearer to the cursor at the next call. -/
theorem takes_or_nearer {k : Nat} {drive : Fin n}
    (has : (service.before k).HasRequest drive) :
    (service.before k).Takes (service.after k) drive ∨
      (service.before (k + 1)).HasRequest drive ∧
        placesBehind (service.before (k + 1)).fdcQueue drive <
          placesBehind (service.before k).fdcQueue drive := by
  cases (service.served k).2 with
  | nothing empty unchanged => exact absurd has (empty drive)
  | one served takes cursor first =>
      by_cases same : drive = served
      · subst same
        exact Or.inl takes
      · right
        refine ⟨?_, ?_⟩
        · rcases has with ⟨request, rest, queued⟩
          rcases takes with ⟨_, _, _, _, queues⟩
          have left : (service.after k).queue drive = some (request :: rest) := by
            rw [queues, Function.update_of_ne same, queued]
          exact service.hasRequest_succ left
        · rw [service.cursor k, cursor]
          apply placesBehind_nextDrive
          apply Nat.lt_of_le_of_ne (first drive has)
          intro level
          apply same
          rw [← driveBehind_placesBehind (service.before k).fdcQueue drive,
            ← driveBehind_placesBehind (service.before k).fdcQueue served]
          simp only [level]

/-- A drive is served before it can be passed over more often than it is behind the cursor. -/
theorem takes_within {places k : Nat} {drive : Fin n}
    (has : (service.before k).HasRequest drive)
    (near : placesBehind (service.before k).fdcQueue drive ≤ places) :
    ∃ later ≤ places,
      (service.before (k + later)).Takes (service.after (k + later)) drive := by
  induction places generalizing k with
  | zero =>
      rcases service.takes_or_nearer has with takes | ⟨-, nearer⟩
      · exact ⟨0, Nat.le_refl 0, takes⟩
      · omega
  | succ places ih =>
      rcases service.takes_or_nearer has with takes | ⟨still, nearer⟩
      · exact ⟨0, by omega, takes⟩
      · rcases ih still (by omega) with ⟨later, later_le, takes⟩
        refine ⟨later + 1, by omega, ?_⟩
        rwa [show k + (later + 1) = k + 1 + later by omega]

end Service

/--
For every number of drives, every sequence of calls and whatever arrives in between: a call
returns nonzero if and only if there is a request for some drive, and takes exactly one
then and none otherwise. A drive that has a request at some call is served by one of the
next `n` calls, that one included.
-/
theorem setNextRequest_roundRobin (service : Service n Request) (k : Nat) :
    (service.returned k = true ↔ ∃ drive, (service.before k).HasRequest drive) ∧
      (service.returned k = true →
        ∃! drive, (service.before k).Takes (service.after k) drive) ∧
      (service.returned k = false → (service.after k).queue = (service.before k).queue) ∧
      ∀ drive, (service.before k).HasRequest drive →
        ∃ later < n,
          (service.before (k + later)).Takes (service.after (k + later)) drive := by
  rcases service.served k with ⟨returned, served⟩
  have returns := served.returns_iff (service.idle k)
  rw [← returned] at returns
  refine ⟨returns, ?_, ?_, ?_⟩
  · intro nonzero
    cases served with
    | one drive takes cursor first => exact ⟨drive, takes, fun _ other => takes.unique other⟩
    | nothing empty unchanged =>
        rcases returns.mp nonzero with ⟨drive, has⟩
        exact absurd has (empty drive)
  · intro zero
    cases served with
    | one drive takes cursor first =>
        rcases takes with ⟨request, rest, queued, -, -⟩
        exact absurd (returns.mpr ⟨drive, request, rest, queued⟩) (by simp [zero])
    | nothing empty unchanged => rw [unchanged]
  · intro drive has
    have places_lt := placesBehind_lt (service.before k).fdcQueue drive
    rcases service.takes_within has (Nat.le_refl _) with ⟨later, later_le, takes⟩
    exact ⟨later, by omega, takes⟩

/--
The first of two drives gets a request before every call, and the second one has a single
request. It is taken at the second call.
-/
theorem setNextRequest_roundRobin_twoDrives :
    let service : Service 2 Nat := .ofArrivals ⟨fun _ => some [7], 0, none⟩
      (fun _ drive => if drive = 0 then [7] else [])
    (service.before 0).HasRequest 1 ∧
      ∃ later < 2, (service.before (0 + later)).Takes (service.after (0 + later)) 1 := by
  intro service
  have has : (service.before 0).HasRequest 1 := ⟨7, [], rfl⟩
  exact ⟨has, (setNextRequest_roundRobin service 0).2.2.2 1 has⟩

end Gray386.Floppy
