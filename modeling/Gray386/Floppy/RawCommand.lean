import Gray386.Floppy.Handlers
import Gray386.Machine.LinkedHeap
import Mathlib.Tactic.IntervalCases

/-!
# Raw commands

`FDRAWCMD` takes a chain of records from user memory. The kernel copies each of them into
a node of its own and links the nodes. A node also has the address and the length of a
buffer for the data of the command. So the same record holds what the user says and what
the kernel has to remember, and `copy_from_user` writes all of it.

At the end the nodes and the buffers are freed along the chain, also if the copying has
failed half-way. A copy that fails has written a part of the record from user memory and
filled the rest with zeros.

Everything that is allocated is recorded in a ghost, in the order of the calls.
-/

namespace Gray386.Floppy

open Gray386.Machine

/-- `struct floppy_raw_cmd`, with the padding in front of `track`. -/
structure FloppyRawCmd where
  flags : Word
  data : Word
  kernelData : Word
  next : Word
  length : Word
  physLength : Word
  bufferLength : Word
  rate : Byte
  cmdCount : Byte
  cmd : Vector Byte 16
  replyCount : Byte
  reply : Vector Byte 16
  padding : Byte
  track : Word
  resultcode : Word
  reserved1 : Word
  reserved2 : Word
  deriving DecidableEq

def fdRawMore : Word := 0x100

/-- `sizeof(struct floppy_raw_cmd)`. -/
def rawCmdSize : Nat := 80

/-- The word that begins at an offset. -/
def wordAt (bytes : Nat → Byte) (offset : Nat) : Word :=
  ofBytes (bytes offset) (bytes (offset + 1)) (bytes (offset + 2)) (bytes (offset + 3))

def wordBytes (word : Word) : List Byte :=
  [byte word 0, byte word 1, byte word 2, byte word 3]

namespace FloppyRawCmd

def ofBytes (bytes : Nat → Byte) : FloppyRawCmd where
  flags := wordAt bytes 0
  data := wordAt bytes 4
  kernelData := wordAt bytes 8
  next := wordAt bytes 12
  length := wordAt bytes 16
  physLength := wordAt bytes 20
  bufferLength := wordAt bytes 24
  rate := bytes 28
  cmdCount := bytes 29
  cmd := Vector.ofFn fun index => bytes (30 + index)
  replyCount := bytes 46
  reply := Vector.ofFn fun index => bytes (47 + index)
  padding := bytes 63
  track := wordAt bytes 64
  resultcode := wordAt bytes 68
  reserved1 := wordAt bytes 72
  reserved2 := wordAt bytes 76

variable (record : FloppyRawCmd)

def toBytes : List Byte :=
  wordBytes record.flags ++ wordBytes record.data ++ wordBytes record.kernelData ++
    wordBytes record.next ++ wordBytes record.length ++ wordBytes record.physLength ++
    wordBytes record.bufferLength ++ [record.rate, record.cmdCount] ++ record.cmd.toList ++
    [record.replyCount] ++ record.reply.toList ++ [record.padding] ++ wordBytes record.track ++
    wordBytes record.resultcode ++ wordBytes record.reserved1 ++ wordBytes record.reserved2

/-- Some of the flags are set. -/
def has (mask : Word) : Bool :=
  record.flags &&& mask ≠ 0

/-- The buffer that the record says it has. -/
def buffer : Option (Word × Word) :=
  if record.bufferLength = 0 then none else some (record.kernelData, record.bufferLength)

end FloppyRawCmd

inductive HeapEvent where
  /-- The address is taken for that of a node. -/
  | follow (address : Word)
  | dmaFree (address length : Word)
  | kfree (address : Word)
  deriving DecidableEq, Repr

abbrev RawHeap := Heap Word FloppyRawCmd

/-- The body of the loop in `raw_cmd_free`, for a node with or without a buffer. -/
def freeNode (address : Word) : Option (Word × Word) → List HeapEvent
  | none => [.follow address, .kfree address]
  | some (data, length) => [.follow address, .dmaFree data length, .kfree address]

/-- `raw_cmd_free`, as far as there are nodes. What lies elsewhere is not known. -/
def rawCmdFree (heap : RawHeap) (ptr : Word) : List HeapEvent :=
  (Heap.visit FloppyRawCmd.next 0 heap ptr).flatMap fun visited =>
    match visited.2 with
    | none => [.follow visited.1]
    | some this => freeNode visited.1 this.buffer

def eintr : Int := 4
def eio : Int := 5
def enomem : Int := 12
def efault : Int := 14
def einval : Int := 22

/-- `MAX_LEN`. -/
def maxLen : Word := 1 <<< 11 <<< 12

/-- What the functions that may fail return for one record. A null pointer is zero. -/
structure Supply where
  kmalloc : Word
  /-- The bytes of the record in user memory. -/
  user : Nat → Byte
  /-- How many of them are copied before a fault. -/
  copied : Nat
  fdDmaMemAlloc : Word
  nodmaMemAlloc : Word
  /-- `fd_copyin` copies all of the data. -/
  fdCopyin : Bool

namespace Supply

variable (supply : Supply)

/-- `copy_from_user`: whether it is complete, and what it writes. -/
def copyFromUser (accessOk : Bool) : Bool × FloppyRawCmd :=
  let copied := if accessOk then supply.copied else 0
  (rawCmdSize ≤ copied,
    .ofBytes fun offset => if offset < copied then supply.user offset else 0)

/-- `fd_dma_mem_alloc`, and `fallback_on_nodma_alloc`. -/
def allocate (canUseVirtualDma : Nat) : Word :=
  if supply.fdDmaMemAlloc ≠ 0 then supply.fdDmaMemAlloc
  else if canUseVirtualDma = 2 then supply.nodmaMemAlloc
  else 0

/-- What `raw_cmd_copyin` does for the data of a record, and the buffer that is allocated. -/
def provide (canUseVirtualDma : Nat) (record : FloppyRawCmd) :
    Int × FloppyRawCmd × Option (Word × Word) :=
  if record.has (fdRawRead ||| fdRawWrite) then
    if record.length.toInt ≤ 0 ∨ maxLen ≤ record.length then (-einval, record, none)
    else
      let data := supply.allocate canUseVirtualDma
      if data = 0 then (-enomem, record, none)
      else
        let record := { record with kernelData := data, bufferLength := record.length }
        if record.has fdRawWrite && !supply.fdCopyin then
          (-efault, record, some (data, record.length))
        else (0, record, some (data, record.length))
  else (0, record, none)

/-- The rest of the loop in `raw_cmd_copyin`, for a record that has been copied. -/
def settle (canUseVirtualDma : Nat) (record : FloppyRawCmd) :
    Int × FloppyRawCmd × Option (Word × Word) :=
  let record := { record with next := 0, bufferLength := 0 }
  if 33 < record.cmdCount.toNat then (-einval, record, none)
  else
    let record := { record with
      reply := Vector.replicate 16 0
      resultcode := 0
      kernelData := 0 }
    let (ret, record, buffer) := supply.provide canUseVirtualDma record
    if ret = 0 && record.has fdRawMore then
      (ret, { record with rate := record.rate &&& 0x43 }, buffer)
    else (ret, record, buffer)

end Supply

structure Copyin where
  heap : RawHeap
  /-- `my_raw_cmd`. -/
  head : Word
  /-- The node whose `next` is `*rcmd`, unless that is `my_raw_cmd`. -/
  slot : Option Word
  /-- The nodes and buffers that have been allocated. -/
  allocs : List (Word × Option (Word × Word))

namespace Copyin

def start : Copyin := ⟨∅, 0, none, []⟩

variable (st : Copyin)

/-- `*rcmd = ptr`. -/
def publish (ptr : Word) : Copyin :=
  match st.slot with
  | none => { st with head := ptr }
  | some node =>
      match st.heap.lookup node with
      | none => st
      | some record => { st with heap := st.heap.insert node { record with next := ptr } }

/-- A record is written to a node, with the buffer that has been allocated for it. -/
def hold (ptr : Word) (record : FloppyRawCmd) (buffer : Option (Word × Word)) : Copyin :=
  { st with heap := st.heap.insert ptr record, allocs := st.allocs ++ [(ptr, buffer)] }

/-- The loop in `raw_cmd_copyin`, once through, and whether it is run again. -/
def copyRecord (canUseVirtualDma : Nat) (supply : Supply) (accessOk : Bool) :
    Int × Bool × Copyin :=
  if supply.kmalloc = 0 then (-enomem, false, st)
  else
    let st := st.publish supply.kmalloc
    match supply.copyFromUser accessOk with
    | (false, record) => (-efault, false, st.hold supply.kmalloc record none)
    | (true, record) =>
        let (ret, record, buffer) := supply.settle canUseVirtualDma record
        (ret, ret = 0 && record.has fdRawMore,
          { st.hold supply.kmalloc record buffer with slot := some supply.kmalloc })

end Copyin

/--
`raw_cmd_copyin`. So many records lie in user space from here on. Behind them `access_ok`
fails, and with it the copy.
-/
def rawCmdCopyin (canUseVirtualDma : Nat) (supply : Nat → Supply) :
    Nat → Nat → Copyin → Int × Copyin
  | 0, index, st =>
      let (ret, _, st) := st.copyRecord canUseVirtualDma (supply index) false
      (ret, st)
  | room + 1, index, st =>
      let (ret, more, st) := st.copyRecord canUseVirtualDma (supply index) true
      if more then rawCmdCopyin canUseVirtualDma supply room (index + 1) st else (ret, st)

/-- What `raw_cmd_done` finds when a command is over. -/
structure Completion where
  inr : Int
  replyBuffer : List Byte
  residue : Word
  diskChange : Bool

namespace FloppyRawCmd

variable (record : FloppyRawCmd)

/-- `raw_cmd_done(1)`, on the record. -/
def complete (completion : Completion) : FloppyRawCmd :=
  let count : Byte := BitVec.ofInt 8 completion.inr
  let count := if 16 < count.toNat then 0 else count
  let reply := Vector.ofFn fun index : Fin 16 =>
    if index < count.toNat then completion.replyBuffer.getD index 0 else record.reply.get index
  let length :=
    if record.has (fdRawRead ||| fdRawWrite) then completion.residue else record.length
  let flags :=
    if record.has fdRawSoftfailure && (count = 0 || reply.get 0 &&& 0xc0 ≠ 0) then
      record.flags ||| fdRawFailure
    else record.flags
  let flags :=
    if completion.diskChange then flags ||| fdRawDiskChange else flags &&& ~~~fdRawDiskChange
  { record with replyCount := count, reply := reply, length := length, flags := flags }

/-- `raw_cmd_done(0)`, on the record. -/
def fail : FloppyRawCmd :=
  { record with flags := record.flags ||| fdRawFailure ||| fdRawHardfailure }

/-- The next command of the chain is to follow. -/
def goesOn : Bool :=
  record.next ≠ 0 && (!record.has fdRawFailure || !record.has fdRawStopIfFailure) &&
    (record.has fdRawFailure || !record.has fdRawStopIfSuccess)

end FloppyRawCmd

/-- What the driver does to the command that `raw_cmd` points to. -/
inductive DriverStep where
  /-- `seek_floppy`, when it moves the head away from track 0. -/
  | needSeek
  | rawCmdDone (flag : Bool) (completion : Completion)

/-- The record after a step, and where `raw_cmd` points to then. -/
def DriverStep.apply (step : DriverStep) (rawCmd : Word) (record : FloppyRawCmd) :
    FloppyRawCmd × Word :=
  match step with
  | .needSeek => ({ record with flags := record.flags ||| fdRawNeedSeek }, rawCmd)
  | .rawCmdDone true completion =>
      let record := record.complete completion
      (record, if record.goesOn then record.next else rawCmd)
  | .rawCmdDone false _ => (record.fail, rawCmd)

/-- The commands are carried out. The addresses are those that `raw_cmd` has had. -/
def drive : List DriverStep → RawHeap → Word → RawHeap × List Word
  | [], heap, _ => (heap, [])
  | step :: rest, heap, rawCmd =>
      match heap.lookup rawCmd with
      | none => (heap, [rawCmd])
      | some record =>
          let (record, rawCmd') := step.apply rawCmd record
          let (heap, followed) := drive rest (heap.insert rawCmd record) rawCmd'
          (heap, rawCmd :: followed)

/-- What the bottom half sees of a record. -/
def FloppyRawCmd.view (record : FloppyRawCmd) : RawCmd where
  flags := record.flags
  rate := record.rate
  track := record.track.toInt
  length := record.length.toInt
  cmdCount := record.cmdCount.toNat
  aligned := record.kernelData.toNat % 512 = 0

/-- What a completed command leaves for `raw_cmd_done` to find. -/
structure Completion.Matches (completion : Completion) (input : Input) (st : State) : Prop where
  inr : completion.inr = st.inr
  replyBuffer : completion.replyBuffer = st.replyBuffer
  residue : completion.residue.toInt = input.residue
  diskChange : completion.diskChange = (st.diskChange input).1

/-- The reply is that of the controller as far as there is one. -/
theorem softFailure_iff {inr : Int} (lower : -1 ≤ inr) (upper : inr ≤ 16) (old new : Byte) :
    let count : Byte := if 16 < (BitVec.ofInt 8 inr).toNat then 0 else BitVec.ofInt 8 inr
    (count = 0 ∨ (if 0 < count.toNat then new else old) &&& 0xc0 ≠ 0) ↔
      ((if 0 ≤ inr ∧ inr ≤ 16 then inr else 0) = 0 ∨ new &&& 0xc0 ≠ 0) := by
  interval_cases inr <;> simp

theorem complete_flags {input : Input} {st : State} {completion : Completion}
    (found : completion.Matches input st) (lower : -1 ≤ st.inr) (upper : st.inr ≤ 16)
    (record : FloppyRawCmd) :
    (record.complete completion).flags =
      (let flags :=
        if record.view.has fdRawSoftfailure &&
            ((if 0 ≤ st.inr ∧ st.inr ≤ 16 then st.inr else 0) = 0 || st.st0 &&& 0xc0 ≠ 0) then
          record.flags ||| fdRawFailure
        else record.flags
      if (st.diskChange input).1 then flags ||| fdRawDiskChange
      else flags &&& ~~~fdRawDiskChange) := by
  have soft := softFailure_iff lower upper (record.reply.get 0) (st.replyBuffer.getD 0 0)
  have first : ∀ f : Fin 16 → Byte, (Vector.ofFn f).get 0 = f 0 := by
    intro f
    simp only [Vector.get, Vector.toArray_ofFn, Array.getElem_ofFn]
    rfl
  simp only [FloppyRawCmd.complete, found.inr, found.replyBuffer, found.diskChange, first]
  simp only [Fin.val_zero, ← Bool.decide_or, soft]
  rfl

theorem rawCmdDone_view {input : Input} {st : State} {record : FloppyRawCmd}
    {rest : List FloppyRawCmd} {completion : Completion} (found : completion.Matches input st)
    (lower : -1 ≤ st.inr) (upper : st.inr ≤ 16)
    (chain : st.rawCmd = record.view :: rest.map FloppyRawCmd.view)
    (last : record.next = 0 ↔ rest = []) (flag : Bool) :
    ∃ next, rawCmdDone input st flag = some (next, []) ∧
      next.rawCmd =
        (if flag then
          if (record.complete completion).goesOn then rest else record.complete completion :: rest
        else record.fail :: rest).map FloppyRawCmd.view := by
  cases flag with
  | false =>
      simp only [rawCmdDone, chain]
      exact ⟨_, rfl, rfl⟩
  | true =>
      have flags := complete_flags found lower upper record
      have length : (record.complete completion).length.toInt =
          if record.view.has (fdRawRead ||| fdRawWrite) then input.residue
          else record.view.length := by
        rw [← found.residue]
        simp only [FloppyRawCmd.complete]
        split_ifs <;> first | rfl | contradiction
      have completed : { record.view with
          flags := (record.complete completion).flags
          length := (record.complete completion).length.toInt } =
            (record.complete completion).view := rfl
      have goesOn_eq : (record.complete completion).goesOn =
          (!(rest.map FloppyRawCmd.view).isEmpty &&
            (!(record.complete completion).view.has fdRawFailure ||
              !(record.complete completion).view.has fdRawStopIfFailure) &&
            ((record.complete completion).view.has fdRawFailure ||
              !(record.complete completion).view.has fdRawStopIfSuccess)) := by
        have next : (record.complete completion).next = record.next := rfl
        rw [FloppyRawCmd.goesOn, next]
        congr 2
        rw [Bool.eq_iff_iff]
        simpa using not_congr last
      simp only [rawCmdDone, chain, if_true]
      have view_flags : record.view.flags = record.flags := rfl
      simp only [view_flags]
      simp only [← flags, ← length, completed, ← goesOn_eq]
      split_ifs <;> exact ⟨_, rfl, rfl⟩

/-- The bytes that arrive when so many of them are copied, and whether these are all. -/
def copyToUser (address : Word) (bytes : List Byte) (copied : Nat) :
    Bool × Word × List Byte :=
  (bytes.length ≤ copied, address, bytes.take copied)

/-- The data that `raw_cmd_copyout` returns for a record. -/
def FloppyRawCmd.dataRead (record : FloppyRawCmd) (kernel : Word → Byte) :
    Option (List Byte) :=
  if record.has fdRawRead && record.bufferLength ≠ 0 && 0 ≤ record.length.toInt &&
      record.length.toInt ≤ record.bufferLength.toInt then
    some ((List.range (record.bufferLength - record.length).toNat).map fun offset =>
      kernel (record.kernelData + BitVec.ofNat 32 offset))
  else none

/--
`raw_cmd_copyout`, along the nodes of the chain: what it returns, the addresses of nodes
that it follows and what it writes.
-/
def rawCmdCopyout (kernel : Word → Byte) (copied : Nat → Nat × Nat) :
    Nat → Word → List (Word × Option FloppyRawCmd) → Int × List Word × List (Word × List Byte)
  | _, _, [] => (0, [], [])
  | _, _, (ptr, none) :: _ => (0, [ptr], [])
  | index, param, (ptr, some record) :: rest =>
      let (sent, written) := copyToUser param record.toBytes (copied index).1
      if !sent then (-efault, [ptr], [written])
      else
        let (dataSent, dataWritten) :=
          match record.dataRead kernel with
          | none => (true, [])
          | some bytes =>
              let (dataSent, dataWritten) := copyToUser record.data bytes (copied index).2
              (dataSent, [dataWritten])
        if !dataSent then (-efault, [ptr], written :: dataWritten)
        else
          let (ret, followed, later) :=
            rawCmdCopyout kernel copied (index + 1) (param + BitVec.ofNat 32 rawCmdSize) rest
          (ret, ptr :: followed, written :: dataWritten ++ later)

/-- A call of `raw_cmd_ioctl`, with all that it meets. -/
structure RawCmdCall where
  /-- `FDCS->reset`. -/
  reset : Bool
  addrLimit : Word
  param : Word
  canUseVirtualDma : Nat
  supply : Nat → Supply
  /-- A node is not allocated a second time while it is in use. -/
  fresh : ∀ {first second}, (supply first).kmalloc = (supply second).kmalloc →
    (supply first).kmalloc ≠ 0 → first = second
  steps : List DriverStep
  /-- What `wait_til_done` returns, and `FDCS->reset` after it. -/
  waited : Int
  resetAfter : Bool
  /-- The bytes of the kernel when the results are copied out. -/
  kernel : Word → Byte
  copiedOut : Nat → Nat × Nat

/-- The records that lie in user space. -/
def RawCmdCall.room (call : RawCmdCall) : Nat :=
  (call.addrLimit.toNat - call.param.toNat) / rawCmdSize

structure RawCmdRun where
  ret : Int
  allocs : List (Word × Option (Word × Word))
  /-- The addresses of nodes that are followed before the chain is freed. -/
  followed : List Word
  written : List (Word × List Byte)
  freed : List HeapEvent

/-- `raw_cmd_ioctl`. -/
def rawCmdIoctl (call : RawCmdCall) : RawCmdRun :=
  if call.reset then ⟨-eio, [], [], [], []⟩
  else
    let (ret, st) := rawCmdCopyin call.canUseVirtualDma call.supply call.room 0 .start
    if ret ≠ 0 then ⟨ret, st.allocs, [], [], rawCmdFree st.heap st.head⟩
    else
      let (heap, driven) := drive call.steps st.heap st.head
      let ret := if call.waited ≠ -eintr && call.resetAfter then -eio else call.waited
      let (ret2, copied, written) :=
        rawCmdCopyout call.kernel call.copiedOut 0 call.param
          (Heap.visit FloppyRawCmd.next 0 heap st.head)
      ⟨if ret = 0 then ret2 else ret, st.allocs, driven ++ copied, written,
        rawCmdFree heap st.head⟩

end Gray386.Floppy
