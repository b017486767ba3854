import Gray386.Floppy.RawCommand

/-!
# Who owns the nodes and buffers of raw commands

`raw_cmd_free` has nothing to go by but the records. It frees what was allocated, and
nothing else, if from `my_raw_cmd` the links lead along the allocated nodes to null, and
each node says of its buffer what is true. The loop of `raw_cmd_copyin` preserves this at
every exit but one. When `copy_from_user` fails, the node is already part of the chain,
and `next` and `buffer_length` have not been cleared yet. They are as the user has
written them, if the copy came that far.
-/

namespace Gray386.Floppy

open Gray386.Machine Gray386.Machine.Heap

/-- The links along nodes with their buffers. -/
abbrev ChainTo (heap : RawHeap) (first : Word) (nodes : List (Word × Option (Word × Word)))
    (last : Word) : Prop :=
  Linked FloppyRawCmd.next 0 FloppyRawCmd.buffer heap first nodes last

/-- The frees of what has been allocated, each node followed and freed once. -/
def ownFrees (allocs : List (Word × Option (Word × Word))) : List HeapEvent :=
  allocs.flatMap fun alloc => freeNode alloc.1 alloc.2

/-- The body of the loop, by the buffer of the node if there is a node. -/
def freeVisited (visited : Word × Option (Option (Word × Word))) : List HeapEvent :=
  match visited.2 with
  | none => [.follow visited.1]
  | some buffer => freeNode visited.1 buffer

theorem rawCmdFree_eq (heap : RawHeap) (ptr : Word) :
    rawCmdFree heap ptr =
      ((visit FloppyRawCmd.next 0 heap ptr).map
        (Prod.map id (Option.map FloppyRawCmd.buffer))).flatMap freeVisited := by
  rw [rawCmdFree, List.flatMap_map]
  congr 1
  funext visited
  rcases visited with ⟨address, node | node⟩ <;> rfl

/-- What is freed along a chain, and behind it. -/
theorem rawCmdFree_of_chainTo {heap : RawHeap} {first last : Word}
    {nodes : List (Word × Option (Word × Word))} (chain : ChainTo heap first nodes last)
    (nodup : (nodes.map Prod.fst).Nodup) :
    ∃ heap', rawCmdFree heap first = ownFrees nodes ++ rawCmdFree heap' last := by
  rcases chain.visit_eq nodup with ⟨heap', visited⟩
  refine ⟨heap', ?_⟩
  rw [rawCmdFree_eq, visited, List.flatMap_append, rawCmdFree_eq, List.flatMap_map]
  rfl

theorem rawCmdFree_zero (heap : RawHeap) : rawCmdFree heap 0 = [] := by
  rw [rawCmdFree, visit_null]
  rfl

theorem rawCmdFree_ne_nil (heap : RawHeap) {ptr : Word} (ne : ptr ≠ 0) :
    rawCmdFree heap ptr ≠ [] := by
  have visited := visit_ne_nil FloppyRawCmd.next 0 heap ne
  rw [rawCmdFree_eq]
  cases list : visit FloppyRawCmd.next 0 heap ptr with
  | nil => exact absurd list visited
  | cons head rest =>
      rcases head with ⟨address, node | node⟩
      · simp [freeVisited]
      · rcases buffer : node.buffer with - | owned <;> simp [freeVisited, freeNode, buffer]

/-- The chain is that of the allocated nodes. -/
structure Copyin.Owned (st : Copyin) : Prop where
  chain : ChainTo st.heap st.head st.allocs 0
  nodup : (st.allocs.map Prod.fst).Nodup

/-- A node that is published comes behind the allocated nodes. -/
def Copyin.Extensible (st : Copyin) : Prop :=
  ∀ ptr, ChainTo (st.publish ptr).heap (st.publish ptr).head st.allocs ptr

/-- The last node says of itself what is not true. -/
structure Copyin.Spoiled (st : Copyin) : Prop where
  split : ∃ nodes node, ∃ record : FloppyRawCmd, st.allocs = nodes ++ [(node, none)] ∧
    ChainTo st.heap st.head (nodes ++ [(node, record.buffer)]) record.next ∧
    ¬(record.next = 0 ∧ record.bufferLength = 0)
  nodup : (st.allocs.map Prod.fst).Nodup

theorem Copyin.Owned.freed {st : Copyin} (owned : st.Owned) :
    rawCmdFree st.heap st.head = ownFrees st.allocs := by
  rcases rawCmdFree_of_chainTo owned.chain owned.nodup with ⟨heap', freed⟩
  rw [freed, rawCmdFree_zero, List.append_nil]

/-- More is freed than there was. -/
theorem Copyin.Spoiled.length_lt {st : Copyin} (spoiled : st.Spoiled) :
    (ownFrees st.allocs).length < (rawCmdFree st.heap st.head).length := by
  rcases spoiled with ⟨⟨nodes, node, record, allocs_eq, chain, unclean⟩, nodup⟩
  have nodup : ((nodes ++ [(node, record.buffer)]).map Prod.fst).Nodup := by
    simpa [allocs_eq] using nodup
  rcases rawCmdFree_of_chainTo chain nodup with ⟨heap', freed⟩
  rw [freed, allocs_eq]
  simp only [ownFrees, List.flatMap_append, List.length_append, List.flatMap_singleton]
  by_cases length : record.bufferLength = 0
  · have behind := List.length_pos_iff.mpr
      (rawCmdFree_ne_nil heap' fun next => unclean ⟨next, length⟩)
    simp only [FloppyRawCmd.buffer, length, if_true]
    omega
  · simp only [FloppyRawCmd.buffer, length, if_false, freeNode, List.length_cons, List.length_nil]
    omega

section Loop

variable {st : Copyin} {ptr : Word} {record : FloppyRawCmd} {buffer : Option (Word × Word)}

theorem allocs_publish (st : Copyin) (ptr : Word) : (st.publish ptr).allocs = st.allocs := by
  simp only [Copyin.publish]
  split
  · rfl
  · split <;> rfl

theorem chainTo_hold (chain : ChainTo st.heap st.head st.allocs ptr) (ne : ptr ≠ 0)
    (fresh : ptr ∉ st.allocs.map Prod.fst) :
    ChainTo (st.hold ptr record buffer).heap (st.hold ptr record buffer).head
      (st.allocs ++ [(ptr, record.buffer)]) record.next :=
  (chain.insert_elsewhere fresh).snoc ne (AList.lookup_insert st.heap)

theorem extensible_hold (chain : ChainTo st.heap st.head st.allocs ptr) (ne : ptr ≠ 0)
    (fresh : ptr ∉ st.allocs.map Prod.fst) (own : record.buffer = buffer) :
    { st.hold ptr record buffer with slot := some ptr }.Extensible := by
  intro next
  have linked : ChainTo ((st.heap.insert ptr record).insert ptr { record with next := next })
      st.head st.allocs ptr :=
    (chain.insert_elsewhere fresh).insert_elsewhere fresh
  have longer := linked.snoc ne (AList.lookup_insert _)
  simp only [Copyin.publish, Copyin.hold, AList.lookup_insert, ← own]
  exact longer

end Loop

/-- The checks of `raw_cmd_copyin` on a record that has been copied. -/
def Supply.Accepts (supply : Supply) (canUseVirtualDma : Nat) (record : FloppyRawCmd) : Prop :=
  record.cmdCount.toNat ≤ 33 ∧
    (record.has (fdRawRead ||| fdRawWrite) = true →
      0 < record.length.toInt ∧ record.length < maxLen ∧ supply.allocate canUseVirtualDma ≠ 0 ∧
        (record.has fdRawWrite = true → supply.fdCopyin = true))

/-- All goes well with a record, and another one is to follow. -/
def Supply.Passes (supply : Supply) (canUseVirtualDma : Nat) : Prop :=
  supply.kmalloc ≠ 0 ∧ rawCmdSize ≤ supply.copied ∧
    supply.Accepts canUseVirtualDma (supply.copyFromUser true).2 ∧
    (supply.copyFromUser true).2.has fdRawMore = true

/-- The part of the record that is copied has no address of a node and no length of a buffer. -/
def Supply.Clean (supply : Supply) : Prop :=
  (supply.copyFromUser true).2.next = 0 ∧ (supply.copyFromUser true).2.bufferLength = 0

section Record

variable (supply : Supply) (canUseVirtualDma : Nat) (record : FloppyRawCmd)

theorem length_ne_zero_of_toInt {length : Word} (positive : ¬length.toInt ≤ 0) : length ≠ 0 := by
  rintro rfl
  exact positive (by decide)

theorem provide_buffer (next : record.next = 0) (empty : record.bufferLength = 0) :
    (supply.provide canUseVirtualDma record).2.1.next = 0 ∧
      (supply.provide canUseVirtualDma record).2.1.buffer =
        (supply.provide canUseVirtualDma record).2.2 := by
  simp only [Supply.provide]
  split_ifs with transfers bad null unwritten
  · exact ⟨next, by simp [FloppyRawCmd.buffer, empty]⟩
  · exact ⟨next, by simp [FloppyRawCmd.buffer, empty]⟩
  · exact ⟨next, if_neg (length_ne_zero_of_toInt fun low => bad (Or.inl low))⟩
  · exact ⟨next, if_neg (length_ne_zero_of_toInt fun low => bad (Or.inl low))⟩
  · exact ⟨next, by simp [FloppyRawCmd.buffer, empty]⟩

theorem settle_buffer :
    (supply.settle canUseVirtualDma record).2.1.next = 0 ∧
      (supply.settle canUseVirtualDma record).2.1.buffer =
        (supply.settle canUseVirtualDma record).2.2 := by
  simp only [Supply.settle]
  split_ifs
  · exact ⟨rfl, rfl⟩
  · exact provide_buffer supply canUseVirtualDma _ rfl rfl
  · exact provide_buffer supply canUseVirtualDma _ rfl rfl

theorem settle_flags : (supply.settle canUseVirtualDma record).2.1.flags = record.flags := by
  simp only [Supply.settle, Supply.provide]
  split_ifs <;> rfl

theorem provide_eq_zero_iff :
    (supply.provide canUseVirtualDma record).1 = 0 ↔
      (record.has (fdRawRead ||| fdRawWrite) = true →
        0 < record.length.toInt ∧ record.length < maxLen ∧
          supply.allocate canUseVirtualDma ≠ 0 ∧
          (record.has fdRawWrite = true → supply.fdCopyin = true)) := by
  simp only [Supply.provide]
  split_ifs with transfers bad null unwritten
  · have refused : ¬(0 < record.length.toInt ∧ record.length < maxLen) := by
      rintro ⟨positive, small⟩
      rcases bad with low | large
      · omega
      · exact absurd small (BitVec.not_lt.mpr large)
    simp only [transfers, einval]
    tauto
  · simp [transfers, enomem, null]
  · have refused : ¬(record.has fdRawWrite = true → supply.fdCopyin = true) := by
      simpa [FloppyRawCmd.has] using unwritten
    simp only [transfers, efault]
    tauto
  · have accepted : record.has fdRawWrite = true → supply.fdCopyin = true := by
      simpa [FloppyRawCmd.has, imp_iff_not_or] using unwritten
    rw [not_or, not_le, BitVec.not_le] at bad
    exact ⟨fun _ _ => ⟨bad.1, bad.2, null, accepted⟩, fun _ => rfl⟩
  · simp [transfers]

theorem settle_eq_zero_iff :
    (supply.settle canUseVirtualDma record).1 = 0 ↔ supply.Accepts canUseVirtualDma record := by
  simp only [Supply.settle, Supply.Accepts]
  split_ifs with long
  · simp [einval, Nat.not_le.mpr long]
  all_goals
    rw [provide_eq_zero_iff]
    simp only [Nat.le_of_not_lt long, true_and]
    rfl

end Record

/-- What holds whenever the loop begins anew. -/
structure Copyin.Ready (st : Copyin) (supply : Nat → Supply) (index : Nat) : Prop where
  owned : st.Owned
  extensible : st.Extensible
  fresh : ∀ later, index ≤ later → (supply later).kmalloc ≠ 0 →
    (supply later).kmalloc ∉ st.allocs.map Prod.fst

theorem ready_start (supply : Nat → Supply) : Copyin.start.Ready supply 0 where
  owned := ⟨rfl, List.nodup_nil⟩
  extensible _ := rfl
  fresh _ _ _ := by simp [Copyin.start]

section Step

variable {canUseVirtualDma : Nat} {supply : Nat → Supply} {index : Nat} {st : Copyin}

theorem copyRecord_of_null (accessOk : Bool) (null : (supply index).kmalloc = 0) :
    st.copyRecord canUseVirtualDma (supply index) accessOk = (-enomem, false, st) := by
  simp [Copyin.copyRecord, null]

theorem copyRecord_of_short {accessOk : Bool} (allocated : (supply index).kmalloc ≠ 0)
    (short : ((supply index).copyFromUser accessOk).1 = false) :
    st.copyRecord canUseVirtualDma (supply index) accessOk =
      (-efault, false, (st.publish (supply index).kmalloc).hold (supply index).kmalloc
        ((supply index).copyFromUser accessOk).2 none) := by
  simp only [Copyin.copyRecord, allocated, if_false]
  split
  next record copied => rw [copied]
  next record copied =>
    rw [copied] at short
    exact absurd short (by simp)

theorem copyRecord_of_complete {accessOk : Bool} (allocated : (supply index).kmalloc ≠ 0)
    (complete : ((supply index).copyFromUser accessOk).1 = true)
    {settled : Int × FloppyRawCmd × Option (Word × Word)}
    (settled_eq : (supply index).settle canUseVirtualDma
      ((supply index).copyFromUser accessOk).2 = settled) :
    st.copyRecord canUseVirtualDma (supply index) accessOk =
      (settled.1, settled.1 = 0 && settled.2.1.has fdRawMore,
        { (st.publish (supply index).kmalloc).hold (supply index).kmalloc settled.2.1
            settled.2.2 with slot := some (supply index).kmalloc }) := by
  simp only [Copyin.copyRecord, allocated, if_false]
  split
  next record copied =>
    rw [copied] at complete
    exact absurd complete (by simp)
  next record copied =>
    rw [copied] at settled_eq
    rw [← settled_eq]

theorem Copyin.Ready.chain_publish (ready : st.Ready supply index) :
    ChainTo (st.publish (supply index).kmalloc).heap (st.publish (supply index).kmalloc).head
      (st.publish (supply index).kmalloc).allocs (supply index).kmalloc := by
  rw [allocs_publish]
  exact ready.extensible _

variable {record : FloppyRawCmd} {buffer : Option (Word × Word)}
variable (ready : st.Ready supply index) (allocated : (supply index).kmalloc ≠ 0)

include ready allocated

theorem Copyin.Ready.fresh_publish :
    (supply index).kmalloc ∉ (st.publish (supply index).kmalloc).allocs.map Prod.fst := by
  rw [allocs_publish]
  exact ready.fresh index le_rfl allocated

theorem Copyin.Ready.nodup_hold :
    (((st.publish (supply index).kmalloc).hold (supply index).kmalloc record
      buffer).allocs.map Prod.fst).Nodup := by
  have fresh := ready.fresh index le_rfl allocated
  simp only [Copyin.hold, allocs_publish, List.map_append]
  rw [List.nodup_append']
  refine ⟨ready.owned.nodup, by simp, ?_⟩
  simpa using fresh

theorem Copyin.Ready.owned_hold (next : record.next = 0) (own : record.buffer = buffer) :
    ((st.publish (supply index).kmalloc).hold (supply index).kmalloc record buffer).Owned := by
  have chain : ChainTo ((st.publish (supply index).kmalloc).hold (supply index).kmalloc record
      buffer).heap (st.publish (supply index).kmalloc).head
      ((st.publish (supply index).kmalloc).allocs ++ [((supply index).kmalloc, record.buffer)])
      record.next :=
    chainTo_hold ready.chain_publish allocated (ready.fresh_publish allocated)
  rw [next, own] at chain
  exact ⟨chain, ready.nodup_hold allocated⟩

theorem Copyin.Ready.spoiled_hold (unclean : ¬(record.next = 0 ∧ record.bufferLength = 0)) :
    ((st.publish (supply index).kmalloc).hold (supply index).kmalloc record none).Spoiled where
  split := ⟨_, _, record, rfl,
    chainTo_hold ready.chain_publish allocated (ready.fresh_publish allocated), unclean⟩
  nodup := ready.nodup_hold allocated

theorem Copyin.Ready.succ_hold
    (distinct : ∀ {first second}, (supply first).kmalloc = (supply second).kmalloc →
      (supply first).kmalloc ≠ 0 → first = second)
    (next : record.next = 0) (own : record.buffer = buffer) :
    { (st.publish (supply index).kmalloc).hold (supply index).kmalloc record buffer with
      slot := some (supply index).kmalloc }.Ready supply (index + 1) where
  owned :=
    have owned := ready.owned_hold allocated next own
    ⟨owned.chain, owned.nodup⟩
  extensible :=
    extensible_hold ready.chain_publish allocated (ready.fresh_publish allocated) own
  fresh later later_ge later_ne := by
    have old := ready.fresh later (by omega) later_ne
    have new : (supply later).kmalloc ≠ (supply index).kmalloc := by
      intro same
      have := distinct same later_ne
      omega
    simp only [Copyin.hold, allocs_publish, List.map_append, List.map_cons, List.map_nil,
      List.mem_append, List.mem_singleton, not_or]
    exact ⟨old, new⟩

end Step

/-- A fault in one of these records, if it is reached, leaves a clean record behind. -/
def HarmlessFaults (canUseVirtualDma : Nat) (supply : Nat → Supply) (index room : Nat) : Prop :=
  ∀ count < room, (∀ earlier < count, (supply (index + earlier)).Passes canUseVirtualDma) →
    (supply (index + count)).kmalloc ≠ 0 → (supply (index + count)).copied < rawCmdSize →
      (supply (index + count)).Clean

section Loop

variable {canUseVirtualDma : Nat} {supply : Nat → Supply} {index room : Nat} {st : Copyin}

theorem harmlessFaults_succ_of_passes (passes : (supply index).Passes canUseVirtualDma) :
    HarmlessFaults canUseVirtualDma supply index (room + 1) ↔
      HarmlessFaults canUseVirtualDma supply (index + 1) room := by
  have moved : ∀ count, index + 1 + count = index + (count + 1) := by
    intro count
    omega
  simp only [HarmlessFaults, moved]
  constructor
  · intro harmless count count_lt earlier
    apply harmless (count + 1) (by omega)
    rintro (- | before) before_lt
    · exact passes
    · exact earlier before (by omega)
  · intro harmless count count_lt earlier allocated short
    cases count with
    | zero => exact absurd passes.2.1 (Nat.not_le.mpr short)
    | succ count =>
        apply harmless count (by omega) ?_ allocated short
        intro before before_lt
        exact earlier (before + 1) (by omega)

theorem harmlessFaults_succ_of_not_passes (stops : ¬(supply index).Passes canUseVirtualDma) :
    HarmlessFaults canUseVirtualDma supply index (room + 1) ↔
      ((supply index).kmalloc ≠ 0 → (supply index).copied < rawCmdSize →
        (supply index).Clean) := by
  constructor
  · intro harmless
    exact harmless 0 (by omega) (by simp)
  · intro clean count count_lt earlier
    cases count with
    | zero => exact clean
    | succ count => exact absurd (earlier 0 (by omega)) stops

theorem complete_iff (supply : Supply) :
    (supply.copyFromUser true).1 = true ↔ rawCmdSize ≤ supply.copied := by
  simp [Supply.copyFromUser]

theorem rawCmdCopyin_of_null (null : (supply index).kmalloc = 0) :
    rawCmdCopyin canUseVirtualDma supply room index st = (-enomem, st) := by
  cases room with
  | zero => simp only [rawCmdCopyin, copyRecord_of_null false null]
  | succ room =>
      simp only [rawCmdCopyin, copyRecord_of_null true null, Bool.false_eq_true, if_false]

theorem rawCmdCopyin_of_short {accessOk : Bool} (inReach : accessOk = decide (0 < room))
    (allocated : (supply index).kmalloc ≠ 0)
    (short : ((supply index).copyFromUser accessOk).1 = false) :
    rawCmdCopyin canUseVirtualDma supply room index st =
      (-efault, (st.publish (supply index).kmalloc).hold (supply index).kmalloc
        ((supply index).copyFromUser accessOk).2 none) := by
  subst inReach
  cases room with
  | zero =>
      simp only [Nat.lt_irrefl, decide_false] at short ⊢
      simp only [rawCmdCopyin, copyRecord_of_short allocated short]
  | succ room =>
      simp only [Nat.zero_lt_succ, decide_true] at short ⊢
      simp only [rawCmdCopyin, copyRecord_of_short allocated short, Bool.false_eq_true, if_false]

theorem copyFromUser_of_not_accessOk (supply : Supply) :
    (supply.copyFromUser false).1 = false ∧ (supply.copyFromUser false).2.next = 0 ∧
      (supply.copyFromUser false).2.bufferLength = 0 := by
  refine ⟨by simp [Supply.copyFromUser, rawCmdSize], ?_, ?_⟩ <;>
    simp [Supply.copyFromUser, FloppyRawCmd.ofBytes, wordAt] <;> rfl

theorem passes_iff_more (canUseVirtualDma : Nat) (allocated : (supply index).kmalloc ≠ 0)
    (complete : rawCmdSize ≤ (supply index).copied) :
    (supply index).Passes canUseVirtualDma ↔
      (decide (((supply index).settle canUseVirtualDma
          ((supply index).copyFromUser true).2).1 = 0) &&
        ((supply index).settle canUseVirtualDma
          ((supply index).copyFromUser true).2).2.1.has fdRawMore) = true := by
  have more : ((supply index).settle canUseVirtualDma
      ((supply index).copyFromUser true).2).2.1.has fdRawMore =
        ((supply index).copyFromUser true).2.has fdRawMore := by
    rw [FloppyRawCmd.has, settle_flags]
    rfl
  rw [more, Bool.and_eq_true, decide_eq_true_iff, settle_eq_zero_iff]
  exact ⟨fun passes => passes.2.2, fun accepted => ⟨allocated, complete, accepted⟩⟩

/--
Every exit of `raw_cmd_copyin` leaves the chain of what was allocated, unless a fault has
left a record that is not clean.
-/
theorem rawCmdCopyin_owned_or_spoiled (canUseVirtualDma room : Nat)
    (distinct : ∀ {first second}, (supply first).kmalloc = (supply second).kmalloc →
      (supply first).kmalloc ≠ 0 → first = second) (ready : st.Ready supply index) :
    (HarmlessFaults canUseVirtualDma supply index room →
      (rawCmdCopyin canUseVirtualDma supply room index st).2.Owned) ∧
    (¬HarmlessFaults canUseVirtualDma supply index room →
      (rawCmdCopyin canUseVirtualDma supply room index st).1 ≠ 0 ∧
        (rawCmdCopyin canUseVirtualDma supply room index st).2.Spoiled) := by
  induction room generalizing index st with
  | zero =>
      have harmless : HarmlessFaults canUseVirtualDma supply index 0 := by
        intro count count_lt
        omega
      refine ⟨fun _ => ?_, fun harmful => absurd harmless harmful⟩
      rcases copyFromUser_of_not_accessOk (supply index) with ⟨short, next, empty⟩
      by_cases null : (supply index).kmalloc = 0
      · rw [rawCmdCopyin_of_null null]
        exact ready.owned
      · rw [rawCmdCopyin_of_short (by simp) null short]
        exact ready.owned_hold null next (by simp [FloppyRawCmd.buffer, empty])
  | succ room ih =>
      by_cases null : (supply index).kmalloc = 0
      · have stops : ¬(supply index).Passes canUseVirtualDma := fun passes => passes.1 null
        rw [harmlessFaults_succ_of_not_passes stops, rawCmdCopyin_of_null null]
        refine ⟨fun _ => ready.owned, fun harmful => absurd ?_ harmful⟩
        intro allocated
        exact absurd null allocated
      by_cases complete : rawCmdSize ≤ (supply index).copied
      · have copied := (complete_iff (supply index)).mpr complete
        have passes_iff := passes_iff_more canUseVirtualDma null complete
        have own := settle_buffer (supply index) canUseVirtualDma
          ((supply index).copyFromUser true).2
        simp only [rawCmdCopyin, copyRecord_of_complete null copied rfl]
        generalize (supply index).settle canUseVirtualDma
          ((supply index).copyFromUser true).2 = settled at passes_iff own ⊢
        have following := ready.succ_hold null distinct own.1 own.2
        split_ifs with more
        · rw [harmlessFaults_succ_of_passes (passes_iff.mpr more)]
          exact ih following
        · rw [harmlessFaults_succ_of_not_passes (mt passes_iff.mp more)]
          refine ⟨fun _ => following.owned, fun harmful => absurd ?_ harmful⟩
          intro _ short
          omega
      · have short : ((supply index).copyFromUser true).1 = false := by
          rw [Bool.eq_false_iff]
          exact mt (complete_iff (supply index)).mp complete
        have stops : ¬(supply index).Passes canUseVirtualDma := fun passes => complete passes.2.1
        rw [harmlessFaults_succ_of_not_passes stops, rawCmdCopyin_of_short (by simp) null short]
        refine ⟨fun harmless => ?_, fun harmful => ⟨by simp [efault], ?_⟩⟩
        · rcases harmless null (by omega) with ⟨next, empty⟩
          exact ready.owned_hold null next (by simp [FloppyRawCmd.buffer, empty])
        · apply ready.spoiled_hold null
          intro clean
          exact harmful fun _ _ => clean

theorem rawCmdCopyin_allocs_ne_nil
    (succeeded : (rawCmdCopyin canUseVirtualDma supply room index st).1 = 0) :
    (rawCmdCopyin canUseVirtualDma supply room index st).2.allocs ≠ [] := by
  induction room generalizing index st with
  | zero =>
      have short := (copyFromUser_of_not_accessOk (supply index)).1
      by_cases null : (supply index).kmalloc = 0
      · rw [rawCmdCopyin_of_null null] at succeeded
        exact absurd succeeded (by simp [enomem])
      · rw [rawCmdCopyin_of_short (by simp) null short] at succeeded
        exact absurd succeeded (by simp [efault])
  | succ room ih =>
      by_cases null : (supply index).kmalloc = 0
      · rw [rawCmdCopyin_of_null null] at succeeded
        exact absurd succeeded (by simp [enomem])
      cases copied : ((supply index).copyFromUser true).1 with
      | false =>
          rw [rawCmdCopyin_of_short (by simp) null copied] at succeeded
          exact absurd succeeded (by simp [efault])
      | true =>
          simp only [rawCmdCopyin, copyRecord_of_complete null copied rfl] at succeeded ⊢
          split_ifs at succeeded ⊢
          · exact ih succeeded
          · simp [Copyin.hold]

end Loop

theorem apply_keeps (step : DriverStep) (rawCmd : Word) (record : FloppyRawCmd) :
    (step.apply rawCmd record).1.next = record.next ∧
      (step.apply rawCmd record).1.buffer = record.buffer := by
  cases step with
  | needSeek => exact ⟨rfl, rfl⟩
  | rawCmdDone flag completion => cases flag <;> exact ⟨rfl, rfl⟩

theorem apply_rawCmd (step : DriverStep) (rawCmd : Word) (record : FloppyRawCmd) :
    (step.apply rawCmd record).2 = rawCmd ∨
      (step.apply rawCmd record).2 = record.next ∧ record.next ≠ 0 := by
  cases step with
  | needSeek => exact Or.inl rfl
  | rawCmdDone flag completion =>
      cases flag with
      | false => exact Or.inl rfl
      | true =>
          simp only [DriverStep.apply]
          split_ifs with goesOn
          · simp only [FloppyRawCmd.goesOn, Bool.and_eq_true, decide_eq_true_iff] at goesOn
            exact Or.inr ⟨rfl, goesOn.1.1⟩
          · exact Or.inl rfl

/-- The driver stays on the chain and does not change it. -/
theorem drive_chain {heap : RawHeap} {first rawCmd : Word}
    {nodes : List (Word × Option (Word × Word))} (steps : List DriverStep)
    (chain : ChainTo heap first nodes 0) (rawCmd_mem : rawCmd ∈ nodes.map Prod.fst) :
    ChainTo (drive steps heap rawCmd).1 first nodes 0 ∧
      ∀ address ∈ (drive steps heap rawCmd).2, address ∈ nodes.map Prod.fst := by
  induction steps generalizing heap rawCmd with
  | nil => exact ⟨chain, by simp [drive]⟩
  | cons step rest ih =>
      rcases chain.exists_lookup rawCmd_mem with ⟨record, found, onward⟩
      rcases apply_keeps step rawCmd record with ⟨next_eq, buffer_eq⟩
      have kept := chain.insert_same found next_eq buffer_eq
      have stays : (step.apply rawCmd record).2 ∈ nodes.map Prod.fst := by
        rcases apply_rawCmd step rawCmd record with same | ⟨moved, ne⟩
        · rwa [same]
        · rw [moved]
          exact onward.resolve_left ne
      rcases ih kept stays with ⟨later, followed⟩
      simp only [drive, found]
      refine ⟨later, ?_⟩
      intro address address_mem
      rcases List.mem_cons.mp address_mem with rfl | laterMem
      · exact rawCmd_mem
      · exact followed address laterMem

theorem followed_mem_visited (kernel : Word → Byte) (copied : Nat → Nat × Nat) (index : Nat)
    (param : Word) (visited : List (Word × Option FloppyRawCmd)) :
    ∀ address ∈ (rawCmdCopyout kernel copied index param visited).2.1,
      address ∈ visited.map Prod.fst := by
  induction visited generalizing index param with
  | nil => simp [rawCmdCopyout]
  | cons head rest ih =>
      rcases head with ⟨ptr, - | record⟩
      · simp [rawCmdCopyout]
      · have later := ih (index + 1) (param + BitVec.ofNat 32 rawCmdSize)
        simp only [rawCmdCopyout]
        split_ifs
        · simp
        · simp
        · intro address address_mem
          rcases List.mem_cons.mp address_mem with rfl | laterMem
          · simp
          · exact List.mem_cons_of_mem _ (later address laterMem)

theorem map_fst_visit {heap : RawHeap} {first : Word}
    {nodes : List (Word × Option (Word × Word))} (chain : ChainTo heap first nodes 0)
    (nodup : (nodes.map Prod.fst).Nodup) :
    (visit FloppyRawCmd.next 0 heap first).map Prod.fst = nodes.map Prod.fst := by
  rcases chain.visit_eq nodup with ⟨heap', visited⟩
  rw [visit_null] at visited
  have addresses := congrArg (List.map Prod.fst) visited
  simpa [Function.comp_def] using addresses

/-- What is freed is what was allocated, and no other node is ever followed. -/
structure RawCmdRun.Owned (run : RawCmdRun) : Prop where
  freed : run.freed.Perm (ownFrees run.allocs)
  followed : ∀ address ∈ run.followed, address ∈ run.allocs.map Prod.fst

/-- The records in user space are those at which `access_ok` succeeds. -/
theorem lt_room_iff (call : RawCmdCall) (index : Nat) :
    index < call.room ↔
      call.param.toNat + rawCmdSize * index + rawCmdSize ≤ call.addrLimit.toNat := by
  simp only [RawCmdCall.room, rawCmdSize]
  omega

/-- The copy of the chain that a call makes. -/
def RawCmdCall.copyin (call : RawCmdCall) : Int × Copyin :=
  rawCmdCopyin call.canUseVirtualDma call.supply call.room 0 .start

theorem rawCmdIoctl_of_failed {call : RawCmdCall} (started : call.reset = false)
    (failed : call.copyin.1 ≠ 0) :
    rawCmdIoctl call =
      ⟨call.copyin.1, call.copyin.2.allocs, [], [],
        rawCmdFree call.copyin.2.heap call.copyin.2.head⟩ := by
  simp only [RawCmdCall.copyin] at failed ⊢
  simp [rawCmdIoctl, started, failed]

theorem rawCmdIoctl_of_succeeded {call : RawCmdCall} (started : call.reset = false)
    (succeeded : call.copyin.1 = 0) :
    ∃ ret written, rawCmdIoctl call =
      ⟨ret, call.copyin.2.allocs,
        (drive call.steps call.copyin.2.heap call.copyin.2.head).2 ++
          (rawCmdCopyout call.kernel call.copiedOut 0 call.param
            (visit FloppyRawCmd.next 0 (drive call.steps call.copyin.2.heap call.copyin.2.head).1
              call.copyin.2.head)).2.1,
        written,
        rawCmdFree (drive call.steps call.copyin.2.heap call.copyin.2.head).1
          call.copyin.2.head⟩ := by
  simp only [RawCmdCall.copyin] at succeeded ⊢
  exact ⟨_, _, by simp only [rawCmdIoctl, started, succeeded]; rfl⟩

theorem head_mem_of_chainTo {heap : RawHeap} {first last : Word}
    {nodes : List (Word × Option (Word × Word))} (chain : ChainTo heap first nodes last)
    (notEmpty : nodes ≠ []) : first ∈ nodes.map Prod.fst := by
  cases nodes with
  | nil => exact absurd rfl notEmpty
  | cons node rest =>
      rw [chain.1]
      simp

theorem rawCmdIoctl_owned {call : RawCmdCall} (started : call.reset = false)
    (owned : call.copyin.2.Owned) : (rawCmdIoctl call).Owned := by
  by_cases failed : call.copyin.1 ≠ 0
  · rw [rawCmdIoctl_of_failed started failed]
    exact ⟨List.Perm.of_eq owned.freed, by simp⟩
  · have succeeded : call.copyin.1 = 0 := not_not.mp failed
    have head_mem := head_mem_of_chainTo owned.chain (rawCmdCopyin_allocs_ne_nil succeeded)
    rcases drive_chain call.steps owned.chain head_mem with ⟨chain, driven⟩
    have kept : { call.copyin.2 with
        heap := (drive call.steps call.copyin.2.heap call.copyin.2.head).1 }.Owned :=
      ⟨chain, owned.nodup⟩
    rcases rawCmdIoctl_of_succeeded started succeeded with ⟨ret, written, run⟩
    rw [run]
    refine ⟨List.Perm.of_eq kept.freed, ?_⟩
    intro address address_mem
    rcases List.mem_append.mp address_mem with byDriver | byCopyout
    · exact driven address byDriver
    · rw [← map_fst_visit chain owned.nodup]
      exact followed_mem_visited _ _ _ _ _ address byCopyout

/-- Exactly a fault behind a part of a record that is not clean breaks the ownership. -/
theorem rawCmdIoctl_owned_iff (call : RawCmdCall) :
    (rawCmdIoctl call).Owned ↔
      (call.reset = false → ∀ index < call.room,
        (∀ earlier < index, (call.supply earlier).Passes call.canUseVirtualDma) →
          (call.supply index).kmalloc ≠ 0 → (call.supply index).copied < rawCmdSize →
            (call.supply index).Clean) := by
  by_cases reset : call.reset = true
  · simp only [rawCmdIoctl, reset, if_true]
    exact ⟨fun _ started => by simp at started, fun _ => ⟨List.Perm.refl _, by simp⟩⟩
  have started : call.reset = false := Bool.eq_false_iff.mpr reset
  have outcome := rawCmdCopyin_owned_or_spoiled call.canUseVirtualDma call.room call.fresh
    (ready_start call.supply)
  have condition : HarmlessFaults call.canUseVirtualDma call.supply 0 call.room ↔
      (call.reset = false → ∀ index < call.room,
        (∀ earlier < index, (call.supply earlier).Passes call.canUseVirtualDma) →
          (call.supply index).kmalloc ≠ 0 → (call.supply index).copied < rawCmdSize →
            (call.supply index).Clean) := by
    simp [HarmlessFaults, started]
  rw [← condition]
  constructor
  · intro owned
    by_contra harmful
    rcases outcome.2 harmful with ⟨failed, spoiled⟩
    have more := spoiled.length_lt
    have freed := owned.freed.length_eq
    rw [rawCmdIoctl_of_failed started failed] at freed
    exact absurd freed (Nat.ne_of_gt more)
  · intro harmless
    exact rawCmdIoctl_owned started (outcome.1 harmless)

/-- The copy of the first record stops behind `buffer_length`, and the user has chosen all. -/
def faultedSupply (index : Nat) : Supply where
  kmalloc := if index = 0 then 0xc1000000 else 0
  user _ := 0x41
  copied := 28
  fdDmaMemAlloc := 0
  nodmaMemAlloc := 0
  fdCopyin := false

def faultedCall : RawCmdCall where
  reset := false
  addrLimit := 0xc0000000
  param := 0x08049fe4
  canUseVirtualDma := 2
  supply := faultedSupply
  fresh := by
    intro first second same allocated
    simp only [faultedSupply] at same allocated
    split_ifs at same allocated <;> simp_all
  steps := []
  waited := 0
  resetAfter := false
  kernel _ := 0
  copiedOut _ := (0, 0)

/-- Pages at an address of the user are freed, and another such address is followed. -/
theorem faultedCall_frees_userAddress :
    (rawCmdIoctl faultedCall).allocs = [(0xc1000000, none)] ∧
      (rawCmdIoctl faultedCall).freed =
        [.follow 0xc1000000, .dmaFree 0x41414141 0x41414141, .kfree 0xc1000000,
          .follow 0x41414141] ∧
      ¬(rawCmdIoctl faultedCall).Owned := by
  have inReach : true = decide (0 < faultedCall.room) := by decide
  have copyin : faultedCall.copyin = _ :=
    rawCmdCopyin_of_short inReach (show (faultedSupply 0).kmalloc ≠ 0 by decide) (by decide)
  have failed : faultedCall.copyin.1 ≠ 0 := by
    rw [copyin]
    decide
  have run := rawCmdIoctl_of_failed rfl failed
  rw [copyin] at run
  have allocs : (rawCmdIoctl faultedCall).allocs = [(0xc1000000, none)] := by
    rw [run]
    rfl
  have freed : (rawCmdIoctl faultedCall).freed =
      [.follow 0xc1000000, .dmaFree 0x41414141 0x41414141, .kfree 0xc1000000,
        .follow 0x41414141] := by
    rw [run]
    decide
  refine ⟨allocs, freed, ?_⟩
  intro owned
  have length_eq := owned.freed.length_eq
  rw [allocs, freed] at length_eq
  exact absurd length_eq (by decide)

end Gray386.Floppy
