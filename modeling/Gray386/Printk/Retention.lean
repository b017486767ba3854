import Gray386.Printk.Ring

/-!
# How much of the log is kept

A record is given up only if the largest free range is too small for a new one. The free
ranges that cannot be used are then shorter than the new record with one more header, and so
is the range that was left behind when the buffer was wrapped. Hence, if no record takes more
than `limit` bytes, all but `2 * (limit + 16)` bytes of the buffer are in use whenever a
record is given up, and the newest records that take no more than this are always there.
-/

namespace Gray386.Printk

open Gray386.Machine

/-- The range behind the upper run is too short for a record of the largest size. -/
structure Packed (limit : Nat) (log : Log) (high low : List Record) : Prop where
  arranged : Arranged log high low
  close : low ≠ [] → log.logBufLen ≤ log.logFirstIdx + total high + limit + sizeofLog

theorem total_pos {records : List Record} (nonempty : records ≠ []) : 0 < total records := by
  cases records with
  | nil => exact absurd rfl nonempty
  | cons record rest =>
      have := record.size_pos
      rw [total_cons]
      omega

namespace Packed

variable {limit : Nat} {log : Log} {high low : List Record} {record : Record}

/-- If the free ranges are short, most of the buffer is in use. -/
theorem le_total (packed : Packed limit log high low) (nonempty : high ++ low ≠ [])
    (crowded : log.free ≤ limit + sizeofLog) :
    log.logBufLen ≤ total (high ++ low) + 2 * (limit + sizeofLog) := by
  have next := packed.arranged.next
  have inside := packed.arranged.inside
  rw [total_append]
  by_cases flat : low = []
  · subst flat
    rw [List.append_nil] at nonempty
    have positive := total_pos nonempty
    rw [if_pos rfl] at next
    rw [Log.free, if_pos (by omega)] at crowded
    rw [total_nil]
    omega
  · have close := packed.close flat
    have below := packed.arranged.below flat
    rw [if_neg flat] at next
    rw [Log.free, if_neg (by omega)] at crowded
    omega

theorem iterate_dropOldest (packed : Packed limit log high low) (count : Nat)
    (within : count ≤ (high ++ low).length) :
    ∃ high' low', Packed limit (Log.dropOldest^[count] log) high' low' ∧
      high' ++ low' = (high ++ low).drop count := by
  rcases packed.arranged.iterate_dropOldest count within with ⟨high', low', left, same, stop⟩
  refine ⟨high', low', ⟨left, fun wrapped => ?_⟩, same⟩
  rw [(log.iterate_dropOldest count).2.1, (stop wrapped).2]
  exact packed.close (stop wrapped).1

/-- A record that is given up had many bytes behind it. -/
theorem le_total_of_dropped (packed : Packed limit log high low) (short : record.size ≤ limit)
    {dropped : Nat} {high' low' : List Record}
    (stores : Arranged.Stores log high low record dropped high' low') (earlier : Nat)
    (given : earlier < dropped) :
    log.logBufLen ≤ total ((high ++ low).drop earlier) + 2 * (limit + sizeofLog) := by
  have within := stores.within
  rcases packed.iterate_dropOldest earlier (by omega) with ⟨upper, lower, left, same⟩
  have nonempty : upper ++ lower ≠ [] := by
    rw [same]
    exact List.ne_nil_of_length_pos (by rw [List.length_drop]; omega)
  have crowded := stores.crowded earlier given
  have enough := left.le_total nonempty (by omega)
  rwa [same, (log.iterate_dropOldest earlier).2.1] at enough

theorem store (packed : Packed limit log high low) (short : record.size ≤ limit)
    {dropped : Nat} {high' low' : List Record}
    (stores : Arranged.Stores log high low record dropped high' low') :
    Packed limit (log.store record) high' low' := by
  refine ⟨stores.arranged, fun wrapped => ?_⟩
  rw [Log.logBufLen_store]
  rcases stores.turn wrapped with ⟨before, stop⟩ | begun
  · rw [stop]
    exact packed.close before
  · omega

end Packed

/-- What a run keeps: for every record that was given up there are many newer bytes. -/
structure Retains (limit : Nat) (stored : List Record) (log : Log) : Prop where
  packed : ∃ high low, Packed limit log high low
  next : log.logNextSeq = stored.length
  records : log.records = stored.drop log.logFirstSeq
  lost : ∀ index < log.logFirstSeq,
    log.logBufLen < total (stored.drop index) + 2 * (limit + sizeofLog)

theorem Retains.store {limit : Nat} {stored : List Record} {log : Log}
    (retains : Retains limit stored log) {record : Record} (short : record.size ≤ limit)
    (fits : Fits log.logBufLen record) :
    Retains limit (stored ++ [record]) (log.store record) := by
  rcases retains.packed with ⟨high, low, packed⟩
  rcases packed.arranged.store fits with ⟨dropped, high', low', stores⟩
  have records := retains.records
  rw [packed.arranged.records_eq] at records
  have counted := packed.arranged.counted
  have within := stores.within
  have next := retains.next
  rw [List.length_append] at within
  refine ⟨⟨high', low', packed.store short stores⟩, ?_, ?_, ?_⟩
  · rw [Log.logNextSeq_store, next, List.length_append, List.length_singleton]
  · rw [stores.arranged.records_eq, stores.joined, records, List.drop_drop, stores.first,
      List.drop_append_of_le_length (by omega)]
  · intro index lost
    rw [stores.first] at lost
    rw [Log.logBufLen_store, List.drop_append_of_le_length (by omega), total_append]
    have positive := record.size_pos
    rw [total_cons, total_nil]
    rcases Nat.lt_or_ge index log.logFirstSeq with before | now
    · have := retains.lost index before
      omega
    · obtain ⟨earlier, rfl⟩ := Nat.exists_eq_add_of_le now
      have enough := packed.le_total_of_dropped short stores earlier (by omega)
      rw [records, List.drop_drop] at enough
      omega

theorem Retains.logStoreAll {limit : Nat} {stored : List Record} {log : Log}
    (retains : Retains limit stored log) (field : limit < 65536)
    (half : 2 * limit + sizeofLog ≤ log.logBufLen) {calls : List StoreCall}
    (short : ∀ call ∈ calls, call.record.size ≤ limit) :
    Retains limit (stored ++ calls.map StoreCall.record) (log.logStoreAll calls) := by
  induction calls generalizing stored log with
  | nil => simpa [Log.logStoreAll] using retains
  | cons call calls ih =>
      have first := short call List.mem_cons_self
      have stored := retains.store first ⟨by omega, by omega⟩
      have rest := ih stored (by rwa [Log.logBufLen_store])
        (fun later mem => short later (List.mem_cons_of_mem _ mem))
      simpa [Log.logStoreAll, Log.logStore] using rest

theorem Log.logBufLen_logStoreAll (log : Log) (calls : List StoreCall) :
    (log.logStoreAll calls).logBufLen = log.logBufLen := by
  induction calls generalizing log with
  | nil => rfl
  | cons call calls ih => exact (ih (log.logStore call)).trans (log.logBufLen_store call.record)

/-- Only as many records are given up as have to be. -/
theorem Packed.logStore {limit : Nat} {log : Log} {high low : List Record}
    (packed : Packed limit log high low) {call : StoreCall}
    (fits : Fits log.logBufLen call.record) :
    ∃ dropped ≤ log.records.length,
      (log.logStore call).records = log.records.drop dropped ++ [call.record] ∧
      ∀ earlier < dropped, (Log.dropOldest^[earlier] log).free ≤ call.record.size + sizeofLog := by
  rcases packed.arranged.store fits with ⟨dropped, high', low', stores⟩
  rw [packed.arranged.records_eq]
  refine ⟨dropped, stores.within, ?_, stores.crowded⟩
  exact stores.arranged.records_eq.trans stores.joined

/--
If no record takes more than `limit` bytes, then the newest records that together leave
`2 * (limit + 16)` bytes of the buffer free are always there. And whenever one more is stored,
an old record is given up only while the largest free range is too small for the new one with
a header behind it.
-/
theorem Log.logStoreAll_retains (buffer : Buffer) {length : Nat} (limit : Nat)
    (field : limit < 65536)
    (half : 2 * limit + sizeofLog ≤ length) {calls : List StoreCall}
    (short : ∀ call ∈ calls, call.record.size ≤ limit) :
    let log := (Log.empty buffer length).logStoreAll calls
    (∀ index, total ((calls.map StoreCall.record).drop index) + 2 * (limit + sizeofLog) ≤ length →
      (calls.map StoreCall.record).drop index <:+ log.records) ∧
      ∀ call : StoreCall, call.record.size ≤ limit →
        ∃ dropped ≤ log.records.length,
          (log.logStore call).records = log.records.drop dropped ++ [call.record] ∧
          ∀ earlier < dropped,
            (Log.dropOldest^[earlier] log).free ≤ call.record.size + sizeofLog := by
  intro log
  have start : Retains limit [] (Log.empty buffer length) :=
    ⟨⟨[], [], Arranged.empty buffer (by omega), fun wrapped => absurd rfl wrapped⟩, rfl, rfl,
      fun _ none => absurd none (by simp [Log.empty])⟩
  have retains : Retains limit (calls.map StoreCall.record) log := by
    simpa using start.logStoreAll field half short
  have capacity : log.logBufLen = length := Log.logBufLen_logStoreAll _ _
  refine ⟨fun index recent => ?_, fun call small => ?_⟩
  · have kept : log.logFirstSeq ≤ index := by
      by_contra before
      have lost := retains.lost index (Nat.lt_of_not_le before)
      omega
    rw [retains.records]
    obtain ⟨more, rfl⟩ := Nat.exists_eq_add_of_le kept
    rw [← List.drop_drop]
    exact List.drop_suffix _ _
  · rcases retains.packed with ⟨high, low, packed⟩
    exact packed.logStore ⟨by omega, by omega⟩

theorem Log.logStoreAll_retains_two :
    let log := (Log.empty (fun _ => 0) 112).logStoreAll [shortCall 97, shortCall 98, shortCall 99]
    ([shortCall 97, shortCall 98, shortCall 99].map StoreCall.record).drop 1 <:+ log.records ∧
      ∃ dropped ≤ log.records.length,
        (log.logStore (shortCall 100)).records =
          log.records.drop dropped ++ [(shortCall 100).record] ∧
        ∀ earlier < dropped,
          (Log.dropOldest^[earlier] log).free ≤ (shortCall 100).record.size + sizeofLog := by
  have retained := Log.logStoreAll_retains (fun _ => 0) 20 (by decide)
    (by decide : 2 * 20 + sizeofLog ≤ 112)
    (by decide : ∀ call ∈ [shortCall 97, shortCall 98, shortCall 99], call.record.size ≤ 20)
  exact ⟨retained.1 1 (by decide), retained.2 (shortCall 100) (by decide)⟩

end Gray386.Printk
