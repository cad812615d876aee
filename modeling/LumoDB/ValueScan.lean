import LumoDB.Lib.Scan
import LumoDB.ObjectRebuild

namespace LumoDB
open ByteCodec Effects LinearProbing LinearScan

section Records
variable {v value : Bytes} {offset valueSize : Nat} {k : ObjectKey}

/-- The column, the key and the value size of the record that the scan of the
value file accepts at `offset`. Its size may have wrapped. -/
def acceptedRecord (v : Bytes) (offset : Nat) : Option (ObjectKey × Nat) :=
  let h := ValueRecordHeader.decode (slice v offset 24)
  if offset + (24 + h.columnSize + h.keySize) ≤ v.length ∧ isValidRecordHeader h ∧
      u64 (24 + h.columnSize + h.keySize + h.valueSize) ≤ v.length - offset then
    some ((slice v (offset + 24) h.columnSize, slice v (offset + 24 + h.columnSize) h.keySize), h.valueSize)
  else none

/-- The size of a record in the sum the code computes it by, before it is
wrapped. -/
def recordSize (k : ObjectKey) (valueSize : Nat) : Nat := 24 + k.1.length + k.2.length + valueSize

/-- How far the scan goes on behind a record it accepts. -/
def recordStep (v : Bytes) (offset : Nat) : Option Nat := (acceptedRecord v offset).map fun r => u64 (recordSize r.1 r.2)

theorem recordStep_some {n : Nat} :
    recordStep v offset = some n ↔ ∃ k valueSize, acceptedRecord v offset = some (k, valueSize) ∧ u64 (recordSize k valueSize) = n := by
  simp [recordStep]

theorem acceptedRecord_some (accepted : acceptedRecord v offset = some (k, valueSize)) :
    RecordHead v offset k valueSize ∧ k.Fits ∧ u64 (recordSize k valueSize) ≤ v.length - offset := by
  unfold acceptedRecord at accepted
  simp only at accepted
  split at accepted
  · rename_i conditions
    obtain ⟨inside, valid, room⟩ := conditions
    simp only [Option.some.injEq, Prod.mk.injEq] at accepted
    obtain ⟨rfl, rfl⟩ := accepted
    set h := ValueRecordHeader.decode (slice v offset 24) with header
    have columnLength : (slice v (offset + 24) h.columnSize).length = h.columnSize := slice_length_of_le (by omega)
    have keyLength : (slice v (offset + 24 + h.columnSize) h.keySize).length = h.keySize := slice_length_of_le (by omega)
    simp only [isValidRecordHeader, decide_eq_true_eq] at valid
    obtain ⟨magic, version, headerSize⟩ := valid
    have columnBound : h.columnSize < 256 ^ 4 := natAt_lt _ _ _
    have keyBound : h.keySize < 256 ^ 4 := natAt_lt _ _ _
    refine ⟨⟨?_, ?_, ?_, ?_⟩, ⟨?_, ?_⟩, ?_⟩
    · simp only [columnLength, keyLength]
      omega
    · simp only [columnLength, keyLength]
      rw [← header, ← magic, ← version, ← headerSize]
    · rw [columnLength]
    · simp only [columnLength, keyLength]
    · rw [columnLength]
      omega
    · rw [keyLength]
      omega
    · simp only [recordSize, columnLength, keyLength]
      exact room
  · cases accepted

theorem RecordHead.accepted (head : RecordHead v offset k valueSize)
    (room : u64 (recordSize k valueSize) ≤ v.length - offset) : acceptedRecord v offset = some (k, valueSize) := by
  unfold acceptedRecord
  simp only [head.header, head.column, head.key]
  rw [if_pos ⟨head.inside, isValidRecordHeader_default _ _ _, room⟩]

theorem RecordAt.accepted (rec : RecordAt v offset k value) (small : v.length < 2 ^ 63) :
    acceptedRecord v offset = some (k, value.length) := by
  have inside := rec.inside
  refine (rec.head (by omega)).accepted ?_
  unfold recordSize
  rw [u64_of_lt (by omega)]
  omega

/-- A record whose size has not wrapped is complete. -/
theorem RecordHead.recordAt (head : RecordHead v offset k valueSize) (fits : k.Fits)
    (inside : offset + recordSize k valueSize ≤ v.length) :
    ∃ value, value.length = valueSize ∧ RecordAt v offset k value := by
  unfold recordSize at inside
  have length : (slice v (offset + 24 + k.1.length + k.2.length) valueSize).length = valueSize :=
    slice_length_of_le (by omega)
  refine ⟨_, length, fits, by rw [length]; exact inside, ?_⟩
  have front : slice v offset 24 =
      { columnSize := k.1.length, keySize := k.2.length, valueSize := valueSize : ValueRecordHeader }.encode := by
    rw [← head.header, ValueRecordHeader.encode_decode (slice_length_of_le (by omega))]
  rw [length, encodeRecord, length, ← front, slice_add, slice_add, slice_add, head.column, ← Nat.add_assoc, head.key]
  simp only [List.append_assoc, Nat.add_assoc]

end Records

section Rejected
variable {H : HashFunctions} {w : World} {v : Bytes} {offset size : Nat}

theorem readValueAt_fails (reads : ReadsValues w v) (positive : 0 < size) (bound : offset < 2 ^ 64)
    (outside : v.length < offset + size) : ∃ status, run system (readValueAt offset size) w = .error status w := by
  unfold readValueAt
  rw [Prog.bind_eq, (getMembers_runs w).bind]
  rcases reads.map with unmapped | ⟨writable, map⟩
  · rw [unmapped]
    exact readAllAt_fails reads.content positive bound outside
  · rw [map]
    simp only
    rw [if_pos (by omega)]
    exact ⟨_, rfl⟩

theorem readRecordColumnKey_fails {h : ValueRecordHeader} (reads : ReadsValues w v) (columnBound : h.columnSize < 2 ^ 32)
    (below : offset + 24 ≤ v.length) (outside : v.length < offset + (24 + h.columnSize + h.keySize)) :
    ∃ status, run system (readRecordColumnKey offset h) w = .error status w := by
  have small := reads.small
  unfold readRecordColumnKey
  rw [u64_of_lt (by omega), u64_of_lt (by omega)]
  simp only [Prog.bind_eq]
  by_cases column : offset + 24 + h.columnSize ≤ v.length
  · rw [(readValueAt_runs reads column).bind]
    obtain ⟨status, failed⟩ := readValueAt_fails reads (by omega) (by omega)
      (show v.length < offset + 24 + h.columnSize + h.keySize by omega)
    exact ⟨status, run_bind_error _ failed _⟩
  · obtain ⟨status, failed⟩ := readValueAt_fails reads (by omega) (by omega)
      (show v.length < offset + 24 + h.columnSize by omega)
    exact ⟨status, run_bind_error _ failed _⟩

/-- A record that is not accepted ends the scan with an error. -/
theorem rebuildRecord_rejected (reads : ReadsValues w v) (below : offset < v.length)
    (rejected : acceptedRecord v offset = none) :
    ∃ status, run system (rebuildRecord H v.length offset) w = .error status w := by
  have small := reads.small
  unfold rebuildRecord
  rw [Prog.bind_eq]
  by_cases front : offset + 24 ≤ v.length
  · rw [(readAllAt_runs reads.content front small).bind]
    unfold acceptedRecord at rejected
    simp only at rejected
    have columnBound : (ValueRecordHeader.decode (slice v offset 24)).columnSize < 256 ^ 4 := natAt_lt _ _ _
    set h := ValueRecordHeader.decode (slice v offset 24)
    split at rejected
    · cases rejected
    rename_i refused
    by_cases valid : isValidRecordHeader h
    · rw [if_neg (not_not.mpr valid)]
      simp only
      by_cases room : v.length - offset < u64 (24 + h.columnSize + h.keySize + h.valueSize)
      · rw [if_pos room]
        exact ⟨_, rfl⟩
      · rw [if_neg room, Prog.bind_eq]
        obtain ⟨status, failed⟩ := readRecordColumnKey_fails (h := h) reads (by omega) front
          (Nat.not_le.mp fun inside => refused ⟨inside, valid, Nat.not_lt.mp room⟩)
        exact ⟨status, run_bind_error _ failed _⟩
    · rw [if_pos valid]
      exact ⟨_, rfl⟩
  · obtain ⟨status, failed⟩ := readAllAt_fails reads.content (by decide) (by omega) (show v.length < offset + 24 by omega)
    exact ⟨status, run_bind_error _ failed _⟩

end Rejected

section Scan
variable {H : HashFunctions} {w : World} {v b : Bytes} {passed : List Nat} {offset n d valueSize : Nat}
  {slot : Nat → Option ObjectKey} {off : ObjectKey → Nat} {k : ObjectKey}

/-- The path of the scan of the value file `v`. -/
abbrev ScanReaches (v : Bytes) (passed : List Nat) (offset : Nat) : Prop :=
  LinearScan.Reaches 24 v.length (recordStep v) passed offset

theorem contained_recordStep (v : Bytes) : LinearScan.Contained v.length (recordStep v) := by
  intro offset n below item
  obtain ⟨k, valueSize, accepted, rfl⟩ := recordStep_some.mp item
  have room := (acceptedRecord_some accepted).2.2
  omega

def keyAt (v : Bytes) (offset : Nat) : Option ObjectKey := (acceptedRecord v offset).map Prod.fst

/-- The last of the offsets where a record of `k` was accepted. -/
def lastAt (v : Bytes) (passed : List Nat) (k : ObjectKey) : Option Nat :=
  (passed.filter fun o => keyAt v o = some k).getLast?

theorem lastAt_append (v : Bytes) (passed : List Nat) (offset : Nat) (k : ObjectKey) :
    lastAt v (passed ++ [offset]) k = if keyAt v offset = some k then some offset else lastAt v passed k := by
  unfold lastAt
  rw [List.filter_append]
  by_cases here : keyAt v offset = some k
  · rw [if_pos here, List.filter_cons_of_pos (by simpa using here), List.filter_nil, List.getLast?_append]
    rfl
  · rw [if_neg here, List.filter_cons_of_neg (by simpa using here), List.filter_nil, List.append_nil]

/-- The index of a scan points the bucket of each key it has met at the last
of its records. -/
structure Scanned (H : HashFunctions) (v b : Bytes) (passed : List Nat) (n : Nat) (slot : Nat → Option ObjectKey)
    (off : ObjectKey → Nat) : Prop where
  table : IndexTable H b n slot off
  named : Named v n slot off
  indexed : ∀ k offset, lastAt v passed k = some offset ↔ Stored n slot k ∧ off k = offset

/-- The scan of `v` meets a record of `k`. -/
def Meets (v : Bytes) (k : ObjectKey) : Prop := ∃ passed offset, ScanReaches v passed offset ∧ ∃ o ∈ passed, keyAt v o = some k

/-- The index may grow to `2 ^ d` buckets, which take every key that the scan
meets and one more. -/
structure Roomy (w : World) (v : Bytes) (d : Nat) : Prop where
  load : LoadFactorOk w.members.options.maxLoadFactor
  room : ∀ ks : List ObjectKey, ks.Nodup → (∀ k ∈ ks, Meets v k) → Growable w (ks.length + 1) d

theorem Scanned.meets (scanned : Scanned H v b passed n slot off) (reaches : ScanReaches v passed offset)
    (stored : Stored n slot k) : Meets v k := by
  have last := (scanned.indexed k (off k)).mpr ⟨stored, rfl⟩
  have member := List.mem_of_getLast? last
  rw [List.mem_filter, decide_eq_true_eq] at member
  exact ⟨passed, offset, reaches, _, member⟩

/-- There are no more keys than places to find them at. -/
theorem roomy_of_length (load : LoadFactorOk w.members.options.maxLoadFactor) (room : Growable w (v.length + 1) d) :
    Roomy w v d where
  load := load
  room ks nodup meets := by
    have found : ks.map some ⊆ (List.range v.length).map (keyAt v) := by
      intro key member
      obtain ⟨k, given, rfl⟩ := List.mem_map.mp member
      obtain ⟨passed, offset, reaches, o, visited, here⟩ := meets k given
      exact List.mem_map.mpr ⟨o, List.mem_range.mpr (reaches.mem_lt visited), here⟩
    have few := ((nodup.map (Option.some_injective _)).subperm found).length_le
    rw [List.length_map, List.length_map, List.length_range] at few
    have fewer : (toDouble (ks.length + 1) : ℚ) ≤ toDouble (v.length + 1) := by
      exact_mod_cast toDouble_mono (Nat.succ_le_succ few)
    exact ⟨room.small, fewer.trans room.enough⟩

theorem rebuildRecord_scanned (reads : ReadsValues w v) (roomy : Roomy w v d)
    (scanned : Scanned H v b passed n slot off) (reaches : ScanReaches v passed offset)
    (accepted : acceptedRecord v offset = some (k, valueSize)) :
    ∃ b' n' slot' off', Runs (rebuildRecord H v.length offset) (w.withMapped .index b) (u64 (recordSize k valueSize))
        (w.withMapped .index b') ∧ Scanned H v b' (passed ++ [offset]) n' slot' off' := by
  obtain ⟨head, fits, inside⟩ := acceptedRecord_some accepted
  have here : keyAt v offset = some k := by rw [keyAt, accepted]; rfl
  have count := scanned.table.count_lt
  have short := scanned.table.filled_lt
  have room := roomy.room (keys n slot) scanned.table.table.arranged.keys_nodup fun k member =>
    scanned.meets reaches (mem_keys.mp member)
  rw [← filled_eq_length_keys] at room
  obtain ⟨b₁, n₁, slot₁, ensured, table₁, stored₁, count₁, load₁⟩ :=
    ensureCapacityForInsert_growable scanned.table roomy.load.1.le room (by omega)
  have named₁ : Named v n₁ slot₁ off := by
    intro i below k at_i
    obtain ⟨j, below', at_j⟩ := (stored₁ k).mp ⟨i, below, at_i⟩
    exact scanned.named j below' k at_j
  have vacant : filled n₁ slot₁ + 1 < n₁ := by
    rw [count₁]
    exact lt_of_rounded_load roomy.load table₁.positive load₁
  obtain ⟨b', lookup, ran, looked, table'⟩ := rebuildRecord_head reads head inside ensured table₁ named₁ vacant
  have fresh := stored_update looked.inside looked.free
  refine ⟨b', _, _, _, ran, table', ?_, fun k' o => ?_⟩
  · intro i below k' at_i
    by_cases same : k' = k
    · subst same
      rw [Function.update_self]
      exact ⟨_, head⟩
    · rw [Function.update_of_ne same]
      by_cases at_bucket : i = lookup.index
      · subst at_bucket
        rw [Function.update_self, Option.some.injEq] at at_i
        exact absurd at_i.symm same
      · rw [Function.update_of_ne at_bucket] at at_i
        exact named₁ i below k' at_i
  · rw [lastAt_append, fresh k', here]
    by_cases same : k = k'
    · subst same
      rw [if_pos rfl, Function.update_self]
      simp
    · rw [if_neg fun equal => same (Option.some.inj equal), scanned.indexed k' o, Function.update_of_ne (Ne.symm same), stored₁ k']
      simp [Ne.symm same]

theorem scanned_empty (H : HashFunctions) (v : Bytes) {e : Nat} (power : n = 2 ^ e) (small : 64 + 16 * n < 2 ^ 63) :
    Scanned H v (emptyIndex n) [] n (fun _ => none) fun _ => 0 where
  table := emptyIndex_table H _ power small
  named _ _ _ at_i := nomatch at_i
  indexed _ _ := iff_of_false nofun fun stored => stored_none stored.1

/-- The loop follows the path of the scan, with one round for each record. -/
theorem rebuildLoop_reaches {e : Nat} (reads : ReadsValues w v) (roomy : Roomy w v d) (power : n = 2 ^ e)
    (small : 64 + 16 * n < 2 ^ 63) (whole : 24 ≤ v.length) (reaches : ScanReaches v passed offset) :
    ∃ b n' slot off, Scanned H v b passed n' slot off ∧
      ∀ rounds, run system (rebuildLoop H v.length (rounds + passed.length) 24) (w.withMapped .index (emptyIndex n)) =
        run system (rebuildLoop H v.length rounds offset) (w.withMapped .index b) := by
  induction reaches with
  | start => exact ⟨_, n, _, _, scanned_empty H v power small, fun _ => rfl⟩
  | @next passed offset step before below item ih =>
    obtain ⟨b, n', slot, off, scanned, loops⟩ := ih
    obtain ⟨k, valueSize, accepted, rfl⟩ := recordStep_some.mp item
    obtain ⟨b', n₂, slot', off', ran, scanned'⟩ := rebuildRecord_scanned reads roomy scanned before accepted
    refine ⟨b', n₂, slot', off', scanned', fun rounds => ?_⟩
    have bound := (before.next below item).le_length (contained_recordStep v) whole
    have exact : u64 (offset + u64 (recordSize k valueSize)) = offset + u64 (recordSize k valueSize) :=
      u64_of_lt (by have := reads.small; omega)
    rw [List.length_append, List.length_singleton, ← Nat.add_assoc, Nat.add_right_comm, loops (rounds + 1), rebuildLoop,
      if_pos below, Prog.bind_eq, ran.bind, exact]

/-- A record without a size keeps the loop where it is, however many rounds it
is given. -/
theorem rebuildLoop_stays (reads : ReadsValues w v) (roomy : Roomy w v d) (below : offset < v.length)
    (stays : recordStep v offset = some 0) (rounds : Nat) (reaches : ScanReaches v passed offset)
    (scanned : Scanned H v b passed n slot off) :
    run system (rebuildLoop H v.length rounds offset) (w.withMapped .index b) = .overflow := by
  induction rounds generalizing passed b n slot off with
  | zero => rfl
  | succ rounds ih =>
    obtain ⟨k, valueSize, accepted, size⟩ := recordStep_some.mp stays
    obtain ⟨b', n', slot', off', ran, scanned'⟩ := rebuildRecord_scanned reads roomy scanned reaches accepted
    have exact : u64 (offset + 0) = offset := u64_of_lt (by have := reads.small; omega)
    rw [size] at ran
    rw [rebuildLoop, if_pos below, Prog.bind_eq, ran.bind, exact]
    exact ih (reaches.next below stays) scanned'

end Scan

section Grammar
variable {v value : Bytes} {log done rest : ObjectLog} {passed : List Nat} {offset : Nat} {k : ObjectKey}

/-- Behind its header, `v` is a concatenation of records: each a valid header
followed by a column, a key and a value of the sizes it says. -/
def IsValueFile (v : Bytes) (log : ObjectLog) : Prop := (∀ r ∈ log, r.1.Fits) ∧ v.drop 24 = encodeLog log

/-- The last record of `k` in a value file is at `offset`. -/
def LastRecord (log : ObjectLog) (k : ObjectKey) (offset : Nat) : Prop :=
  ∃ before value after, log = before ++ (k, value) :: after ∧ (∀ r ∈ after, r.1 ≠ k) ∧
    offset = 24 + (encodeLog before).length

theorem lastRecord_append {k' : ObjectKey} :
    LastRecord (log ++ [(k', value)]) k offset ↔
      if k' = k then offset = 24 + (encodeLog log).length else LastRecord log k offset := by
  constructor
  · rintro ⟨before, value', after, split, none, rfl⟩
    rcases List.eq_nil_or_concat after with rfl | ⟨after', last, rfl⟩
    · obtain ⟨rfl, same⟩ := List.append_inj' split rfl
      simp only [List.cons.injEq, Prod.mk.injEq, and_true] at same
      rw [if_pos same.1]
    · rw [List.concat_eq_append, ← List.cons_append, ← List.append_assoc] at split
      obtain ⟨rfl, same⟩ := List.append_inj' split rfl
      simp only [List.cons.injEq, and_true] at same
      subst same
      have other := none (k', value) (by simp)
      rw [if_neg other]
      exact ⟨before, value', after', rfl, fun r member => none r (by simp [member]), rfl⟩
  · split
    · rename_i same
      rintro rfl
      subst same
      exact ⟨log, value, [], rfl, nofun, rfl⟩
    · rename_i other
      rintro ⟨before, value', after, rfl, none, rfl⟩
      refine ⟨before, value', after ++ [(k', value)], by simp, fun r member => ?_, rfl⟩
      rcases List.mem_append.mp member with earlier | last
      · exact none r earlier
      · rw [List.mem_singleton.mp last]
        exact other

theorem IsValueFile.record (file : IsValueFile v log) (whole : 24 ≤ v.length) (split : log = done ++ (k, value) :: rest) :
    RecordAt v (24 + (encodeLog done).length) k value := by
  have content : v = v.take 24 ++ encodeLog done ++ (encodeRecord k value ++ encodeLog rest) := by
    conv_lhs => rw [← List.take_append_drop 24 v, file.2, split, encodeLog_append, encodeLog_cons, ← List.append_assoc]
  have fits := file.1 (k, value) (by simp [split])
  have length : (v.take 24 ++ encodeLog done).length = 24 + (encodeLog done).length := by
    rw [List.length_append, List.length_take, Nat.min_eq_left whole]
  have record := @recordAt_split (v.take 24 ++ encodeLog done) (encodeLog rest) value _ fits
  rwa [← content, length] at record

theorem IsValueFile.record_of_lt (file : IsValueFile v log) (whole : 24 ≤ v.length) (split : log = done ++ rest)
    (below : 24 + (encodeLog done).length < v.length) :
    ∃ k value later, rest = (k, value) :: later ∧ RecordAt v (24 + (encodeLog done).length) k value := by
  cases rest with
  | nil =>
    have length := congrArg List.length file.2
    rw [List.length_drop, split, List.append_nil] at length
    omega
  | cons r later => exact ⟨r.1, r.2, later, rfl, file.record whole split⟩

/-- The scan of a well-formed file passes its records in turn. -/
theorem IsValueFile.path (file : IsValueFile v log) (whole : 24 ≤ v.length) (small : v.length < 2 ^ 63)
    (reaches : ScanReaches v passed offset) :
    ∃ done rest, log = done ++ rest ∧ offset = 24 + (encodeLog done).length ∧
      ∀ k o, lastAt v passed k = some o ↔ LastRecord done k o := by
  induction reaches with
  | start => exact ⟨[], log, rfl, rfl, fun k o => iff_of_false nofun fun ⟨_, _, _, split, _⟩ => by simp at split⟩
  | @next passed offset step before below item ih =>
    obtain ⟨done, rest, split, rfl, last⟩ := ih
    obtain ⟨k, value, later, rfl, record⟩ := file.record_of_lt whole split below
    have accepted := record.accepted small
    have inside := record.inside
    obtain ⟨k', valueSize, accepted', rfl⟩ := recordStep_some.mp item
    rw [accepted, Option.some.injEq, Prod.mk.injEq] at accepted'
    obtain ⟨rfl, rfl⟩ := accepted'
    refine ⟨done ++ [(k, value)], later, by rw [split, List.append_assoc]; rfl, ?_, fun k' o => ?_⟩
    · have exact : u64 (recordSize k value.length) = recordSize k value.length :=
        u64_of_lt (by unfold recordSize; omega)
      rw [encodeLog_append, encodeLog_singleton, List.length_append, encodeRecord_length, exact]
      simp only [recordSize]
      omega
    · have here : keyAt v (24 + (encodeLog done).length) = some k := by rw [keyAt, accepted]; rfl
      rw [lastAt_append, lastRecord_append, here]
      by_cases same : k = k'
      · subst same
        rw [if_pos rfl, if_pos rfl, Option.some.injEq, eq_comm]
      · rw [if_neg same, if_neg fun equal => same (Option.some.inj equal)]
        exact last k' o

/-- The size of no record that the scan accepts has wrapped. -/
def SizesFit (v : Bytes) : Prop := ∀ passed offset k valueSize, ScanReaches v passed offset → offset < v.length →
  acceptedRecord v offset = some (k, valueSize) → recordSize k valueSize < 2 ^ 64

/-- The scan comes to a record that it rejects. -/
def Rejects (v : Bytes) : Prop := ∃ passed offset, ScanReaches v passed offset ∧ offset < v.length ∧ acceptedRecord v offset = none

/-- The records on the path of a scan that ends, none of which has a wrapped
size, make up the file. -/
theorem exists_isValueFile (fit : SizesFit v) (reaches : ScanReaches v passed v.length) : ∃ log, IsValueFile v log := by
  suffices upto : ∀ passed offset, ScanReaches v passed offset →
      ∃ log : ObjectLog, (∀ r ∈ log, r.1.Fits) ∧ slice v 24 (offset - 24) = encodeLog log by
    obtain ⟨log, fits, same⟩ := upto _ _ reaches
    refine ⟨log, fits, ?_⟩
    rw [← same, slice, List.take_of_length_le]
    rw [List.length_drop]
  intro passed offset path
  induction path with
  | start => exact ⟨[], List.forall_mem_nil _, by rw [Nat.sub_self, slice_zero]; rfl⟩
  | @next passed offset step before below item ih =>
    obtain ⟨log, fits, same⟩ := ih
    obtain ⟨k, valueSize, accepted, rfl⟩ := recordStep_some.mp item
    obtain ⟨head, keyFits, inside⟩ := acceptedRecord_some accepted
    have exact : u64 (recordSize k valueSize) = recordSize k valueSize :=
      u64_of_lt (fit _ _ _ _ before below accepted)
    obtain ⟨value, rfl, record⟩ := head.recordAt keyFits (by omega)
    have start := before.start_le
    have bytes := record.bytes
    rw [exact]
    refine ⟨log ++ [(k, value)], ?_, ?_⟩
    · intro r member
      rcases List.mem_append.mp member with earlier | last
      · exact fits r earlier
      · rw [List.mem_singleton.mp last]
        exact keyFits
    · rw [encodeLog_append, encodeLog_singleton, ← same, ← bytes,
        show offset + recordSize k value.length - 24 = offset - 24 + recordSize k value.length by omega, slice_add,
        Nat.add_sub_cancel' start]
      rfl

end Grammar

section Outcomes
variable {H : HashFunctions} {w : World} {v : Bytes} {passed : List Nat} {offset n d e : Nat}

/-- The rebuild from an index of `n` empty buckets. -/
abbrev rebuilding (H : HashFunctions) (w : World) (n : Nat) : Outcome Status Unit World :=
  run system (rebuildIndexFromValues H) (w.withMapped .index (emptyIndex n))

/-- The index `b` points the bucket of each key in the records `log` at the last
of its records, and has no others. -/
def MapsLast (H : HashFunctions) (b : Bytes) (log : ObjectLog) : Prop :=
  ∃ n slot off, IndexTable H b n slot off ∧ ∀ k offset, LastRecord log k offset ↔ Stored n slot k ∧ off k = offset

/-- The scan ends when it is given enough rounds, it accepts exactly the
well-formed files, and it indexes these. -/
structure ScansGrammar (H : HashFunctions) (w : World) (v : Bytes) (n : Nat) : Prop where
  ends : ∃ rounds, (run system (rebuildLoop H v.length rounds 24) (w.withMapped .index (emptyIndex n))).state? ≠ none
  accepts : (∃ w', rebuilding H w n = .ok () w') ↔ ∃ log, IsValueFile v log
  maps : ∀ log w', IsValueFile v log → rebuilding H w n = .ok () w' → ∃ b, w'.Sees .index b ∧ MapsLast H b log

theorem rebuilding_eq (reads : ReadsValues w v) :
    rebuilding H w n = (run system (rebuildLoop H v.length (v.length + 1) 24) (w.withMapped .index (emptyIndex n))).andThen
      fun _ s => run system (setAppendOffset v.length) s := by
  have reads' := reads.withIndex (emptyIndex n)
  unfold rebuilding rebuildIndexFromValues
  rw [Prog.bind_eq, (getFileSize_runs reads'.content).bind, Prog.bind_eq, run_bind]

theorem rebuildLoop_rejects (reads : ReadsValues w v) (roomy : Roomy w v d) (power : n = 2 ^ e)
    (small : 64 + 16 * n < 2 ^ 63) (whole : 24 ≤ v.length) (reaches : ScanReaches v passed offset)
    (below : offset < v.length) (rejected : acceptedRecord v offset = none) :
    ∃ status b n' slot off, Scanned H v b passed n' slot off ∧ ∀ rounds,
      run system (rebuildLoop H v.length (rounds + 1 + passed.length) 24) (w.withMapped .index (emptyIndex n)) =
        .error status (w.withMapped .index b) := by
  obtain ⟨b, n', slot, off, scanned, loops⟩ := rebuildLoop_reaches (H := H) reads roomy power small whole reaches
  obtain ⟨status, failed⟩ := rebuildRecord_rejected (H := H) (reads.withIndex b) below rejected
  refine ⟨status, b, n', slot, off, scanned, fun rounds => ?_⟩
  rw [loops (rounds + 1), rebuildLoop, if_pos below, Prog.bind_eq, run_bind_error _ failed]

theorem rebuildLoop_ends (reads : ReadsValues w v) (roomy : Roomy w v d) (power : n = 2 ^ e) (small : 64 + 16 * n < 2 ^ 63)
    (whole : 24 ≤ v.length) (reaches : ScanReaches v passed v.length) :
    ∃ b n' slot off, Scanned H v b passed n' slot off ∧ ∀ rounds,
      run system (rebuildLoop H v.length (rounds + 1 + passed.length) 24) (w.withMapped .index (emptyIndex n)) =
        .ok () (w.withMapped .index b) := by
  obtain ⟨b, n', slot, off, scanned, loops⟩ := rebuildLoop_reaches (H := H) reads roomy power small whole reaches
  refine ⟨b, n', slot, off, scanned, fun rounds => ?_⟩
  rw [loops (rounds + 1), rebuildLoop, if_neg (Nat.lt_irrefl _)]
  rfl

theorem rebuildLoop_endless (reads : ReadsValues w v) (roomy : Roomy w v d) (power : n = 2 ^ e)
    (small : 64 + 16 * n < 2 ^ 63) (whole : 24 ≤ v.length) (reaches : ScanReaches v passed offset)
    (below : offset < v.length) (stays : recordStep v offset = some 0) (rounds : Nat) :
    run system (rebuildLoop H v.length rounds 24) (w.withMapped .index (emptyIndex n)) = .overflow := by
  by_cases more : passed.length ≤ rounds
  · obtain ⟨b, n', slot, off, scanned, loops⟩ := rebuildLoop_reaches (H := H) reads roomy power small whole reaches
    rw [← Nat.sub_add_cancel more, loops]
    exact rebuildLoop_stays reads roomy below stays _ reaches scanned
  · obtain ⟨o, earlier⟩ := reaches.take (Nat.le_of_not_le more)
    obtain ⟨b, n', slot, off, _, loops⟩ := rebuildLoop_reaches (H := H) reads roomy power small whole earlier
    have length : (passed.take rounds).length = rounds := List.length_take_of_le (Nat.le_of_not_le more)
    have loop := loops 0
    rw [length, Nat.zero_add] at loop
    exact loop

theorem IsValueFile.sizesFit {log : ObjectLog} (file : IsValueFile v log) (whole : 24 ≤ v.length)
    (small : v.length < 2 ^ 63) : SizesFit v := by
  intro passed offset k valueSize reaches below accepted
  obtain ⟨done, rest, split, rfl, _⟩ := file.path whole small reaches
  obtain ⟨k', value, later, rfl, record⟩ := file.record_of_lt whole split below
  have inside := record.inside
  rw [record.accepted small, Option.some.injEq, Prod.mk.injEq] at accepted
  obtain ⟨rfl, rfl⟩ := accepted
  unfold recordSize
  omega

/-- A file whose scan comes to a rejected record is not well-formed. -/
theorem not_isValueFile {log : ObjectLog} (whole : 24 ≤ v.length) (small : v.length < 2 ^ 63)
    (reaches : ScanReaches v passed offset) (below : offset < v.length) (rejected : acceptedRecord v offset = none) :
    ¬ IsValueFile v log := by
  intro file
  obtain ⟨done, rest, split, rfl, _⟩ := file.path whole small reaches
  obtain ⟨k, value, later, rfl, record⟩ := file.record_of_lt whole split below
  cases rejected.symm.trans (record.accepted small)

theorem scansGrammar_of_rejects (reads : ReadsValues w v) (roomy : Roomy w v d) (power : n = 2 ^ e)
    (small : 64 + 16 * n < 2 ^ 63) (whole : 24 ≤ v.length) (reaches : ScanReaches v passed offset)
    (few : 24 + passed.length ≤ offset) (below : offset < v.length) (rejected : acceptedRecord v offset = none) :
    ScansGrammar H w v n := by
  obtain ⟨status, b, _, _, _, _, loops⟩ := rebuildLoop_rejects (H := H) reads roomy power small whole reaches below rejected
  have fails : rebuilding H w n = .error status (w.withMapped .index b) := by
    rw [rebuilding_eq reads, show v.length + 1 = v.length - passed.length + 1 + passed.length by omega, loops]
    rfl
  refine ⟨⟨0 + 1 + passed.length, by rw [loops 0]; nofun⟩, iff_of_false ?_ ?_, fun log _ file => ?_⟩
  · rintro ⟨w'', ran⟩
    cases fails.symm.trans ran
  · rintro ⟨log, file⟩
    exact not_isValueFile whole reads.small reaches below rejected file
  · exact absurd file (not_isValueFile whole reads.small reaches below rejected)

theorem scansGrammar_of_ends (reads : ReadsValues w v) (roomy : Roomy w v d) (power : n = 2 ^ e)
    (small : 64 + 16 * n < 2 ^ 63) (whole : 24 ≤ v.length) (reaches : ScanReaches v passed v.length)
    (few : 24 + passed.length ≤ v.length) (fit : SizesFit v) : ScansGrammar H w v n := by
  obtain ⟨b, n', slot, off, scanned, loops⟩ := rebuildLoop_ends (H := H) reads roomy power small whole reaches
  have returns : rebuilding H w n = .ok ()
      ((w.withMapped .index b).setMembers fun m => { m with appendOffset := v.length }) := by
    rw [rebuilding_eq reads, show v.length + 1 = v.length - passed.length + 1 + passed.length by omega, loops]
    rfl
  refine ⟨⟨0 + 1 + passed.length, by rw [loops 0]; nofun⟩,
    iff_of_true ⟨_, returns⟩ (exists_isValueFile fit reaches), fun log w' file ran => ?_⟩
  obtain ⟨_, rfl⟩ := Runs.unique returns ran
  refine ⟨b, w.sees_withMapped .index b, n', slot, off, scanned.table, fun k o => ?_⟩
  obtain ⟨done, rest, rfl, length, last⟩ := file.path whole reads.small reaches
  have total := congrArg List.length file.2
  have amount := encodeLog_length_ge rest
  rw [List.length_drop, encodeLog_append, List.length_append] at total
  obtain rfl : rest = [] := List.eq_nil_of_length_eq_zero (by omega)
  rw [List.append_nil, ← last k o, scanned.indexed k o]

/-- The rebuild does what it should exactly on the files whose scan meets no
record with a wrapped size, or comes to a record that it rejects. -/
theorem scansGrammar_iff (reads : ReadsValues w v) (roomy : Roomy w v d) (power : n = 2 ^ e)
    (small : 64 + 16 * n < 2 ^ 63) (whole : 24 ≤ v.length) : ScansGrammar H w v n ↔ SizesFit v ∨ Rejects v := by
  rcases ends_or_stops_or_stays (contained_recordStep v) whole with
    ⟨passed, reaches, few⟩ | ⟨passed, offset, reaches, few, below, stops⟩ | ⟨passed, offset, reaches, below, stays⟩
  · obtain ⟨b, n', slot, off, _, loops⟩ := rebuildLoop_ends (H := H) reads roomy power small whole reaches
    constructor
    · intro scans
      left
      have returns : rebuilding H w n = .ok ()
          ((w.withMapped .index b).setMembers fun m => { m with appendOffset := v.length }) := by
        rw [rebuilding_eq reads, show v.length + 1 = v.length - passed.length + 1 + passed.length by omega, loops]
        rfl
      obtain ⟨log, file⟩ := scans.accepts.mp ⟨_, returns⟩
      exact file.sizesFit whole reads.small
    · rintro (fit | ⟨passed', offset, reaches', below, rejected⟩)
      · exact scansGrammar_of_ends reads roomy power small whole reaches few fit
      · obtain ⟨status, b', _, _, _, _, fails⟩ := rebuildLoop_rejects (H := H) reads roomy power small whole reaches' below rejected
        have first := loops passed'.length
        have second := fails passed.length
        rw [show passed.length + 1 + passed'.length = passed'.length + 1 + passed.length by omega] at second
        cases first.symm.trans second
  · have rejected : acceptedRecord v offset = none := Option.map_eq_none_iff.mp stops
    exact iff_of_true (scansGrammar_of_rejects reads roomy power small whole reaches few below rejected)
      (Or.inr ⟨passed, offset, reaches, below, rejected⟩)
  · have endless := rebuildLoop_endless (H := H) reads roomy power small whole reaches below stays
    refine iff_of_false (fun scans => ?_) ?_
    · obtain ⟨rounds, ends⟩ := scans.ends
      rw [endless rounds] at ends
      exact ends rfl
    · rintro (fit | ⟨passed', offset', reaches', below', rejected⟩)
      · obtain ⟨k, valueSize, accepted, size⟩ := recordStep_some.mp stays
        rw [u64_of_lt (fit _ _ _ _ reaches below accepted)] at size
        unfold recordSize at size
        omega
      · obtain ⟨status, b, _, _, _, _, fails⟩ := rebuildLoop_rejects (H := H) reads roomy power small whole reaches' below' rejected
        cases (endless _).symm.trans (fails 0)

/-- Two versions of one record, and a record of another key between them. -/
def threeRecords : ObjectLog := [(([2], [1]), [7]), (([2], [3]), [8]), (([2], [1]), [9])]

theorem scansGrammar_sample : LastRecord threeRecords ([2], [1]) 78 ∧
    ScansGrammar .shipped (({} : World).setFile .values (some (valueFileBytes threeRecords)))
      (valueFileBytes threeRecords) 16 := by
  have reads : ReadsValues (({} : World).setFile .values (some (valueFileBytes threeRecords)))
      (valueFileBytes threeRecords) := ⟨rfl, by decide, Or.inl rfl⟩
  have roomy := roomy_of_length (w := ({} : World).setFile .values (some (valueFileBytes threeRecords)))
    (v := valueFileBytes threeRecords) (d := 8) ⟨by decide +kernel, by decide +kernel⟩ ⟨by decide, by decide +kernel⟩
  have fits : ∀ r ∈ threeRecords, r.1.1.length < 2 ^ 32 ∧ r.1.2.length < 2 ^ 32 := by decide
  have file : IsValueFile (valueFileBytes threeRecords) threeRecords := ⟨fits, by decide⟩
  exact ⟨⟨threeRecords.take 2, [9], [], rfl, List.forall_mem_nil _, by decide⟩,
    (scansGrammar_iff reads roomy (e := 4) rfl (by decide) (by decide)).mpr
      (Or.inl (file.sizesFit (by decide) (by decide)))⟩

/-- A file header and the header of a record whose size wraps to 0. -/
def sizelessRecord : Bytes :=
  { : ValueFileHeader }.encode ++ { valueSize := 2 ^ 64 - 24 : ValueRecordHeader }.encode

theorem sizeless_record_scanned_for_ever : ¬ ∀ (H : HashFunctions) w v n d e, ReadsValues w v → 24 ≤ v.length →
    isValidFileHeader kValueFileMagic (ValueFileHeader.decode (slice v 0 24)) → Roomy w v d → n = 2 ^ e →
    64 + 16 * n < 2 ^ 63 → ScansGrammar H w v n := by
  intro scans
  have reads : ReadsValues (({} : World).setFile .values (some sizelessRecord)) sizelessRecord := ⟨rfl, by decide, Or.inl rfl⟩
  have roomy := roomy_of_length (w := ({} : World).setFile .values (some sizelessRecord)) (v := sizelessRecord) (d := 7)
    ⟨by decide +kernel, by decide +kernel⟩ ⟨by decide, by decide +kernel⟩
  obtain ⟨rounds, ends⟩ := (scans .shipped _ _ _ _ _ reads (by decide) (by decide) roomy (rfl : 2 ^ 4 = 2 ^ 4) (by decide)).ends
  rw [rebuildLoop_endless reads roomy rfl (by decide) (by decide) .start (by decide) (by decide)] at ends
  exact ends rfl

end Outcomes

end LumoDB
