import LumoDB.Diagnostics
import LumoDB.RowStore

namespace LumoDB
open ByteCodec Effects LinearProbing Ordered

/-- What the dump passed to its deserializer for a line. -/
def DumpLine.passed : DumpLine → Option DumpValue
  | object _ value _ _ _ _ _ _ _ => some value
  | rowEntry value _ => some value
  | _ => none

/-- The lines a column filter lets through. -/
def Passes (columnFilter : Option Bytes) (column : Bytes) : Prop := columnFilter.isNone ∨ some column = columnFilter

instance (columnFilter : Option Bytes) (column : Bytes) : Decidable (Passes columnFilter column) :=
  inferInstanceAs (Decidable (_ ∨ _))

/-- A deserializer that never fails, or none. -/
def Total (deserialize : Option DumpDeserializer) : Prop :=
  ∀ convert, deserialize = some convert → ∀ value, ∃ text, convert value = .ok text

theorem not_passes_iff {columnFilter : Option Bytes} {column : Bytes} :
    ¬ Passes columnFilter column ↔ columnFilter.isSome ∧ some column ≠ columnFilter := by
  cases columnFilter <;> simp [Passes]

theorem deserializeIf_runs {deserialize : Option DumpDeserializer} (total : Total deserialize) (value : DumpValue)
    (w : World) : ∃ text, Runs (deserializeIf deserialize value) w text w := by
  cases chosen : deserialize with
  | none => exact ⟨none, rfl⟩
  | some convert =>
    obtain ⟨text, converted⟩ := total convert chosen value
    refine ⟨some text, ?_⟩
    unfold deserializeIf Runs
    simp only [converted, checked]
    rfl

section Objects
variable {H : HashFunctions} {w : World} {v b : Bytes} {n : Nat} {slot : Nat → Option ObjectKey}
  {off : ObjectKey → Nat} {m : ObjectKey → Option Bytes} {columnFilter : Option Bytes}
  {deserialize : Option DumpDeserializer}

theorem readIndexedObject_runs {hash offset : Nat} {k : ObjectKey} {value : Bytes} (reads : ReadsValues w v)
    (rec : RecordAt v offset k value) :
    Runs (readIndexedObject ⟨hash, offset⟩) w
      ({ columnSize := k.1.length, keySize := k.2.length, valueSize := value.length }, k) w := by
  unfold Runs readIndexedObject
  rw [Prog.bind_eq, (readRecordHeader_runs reads rec).bind, if_pos (isValidRecordHeader_default _ _ _), Prog.bind_eq,
    (readRecordColumnKey_runs reads rec).bind]
  rfl

/-- The first loop of the statistics counts the column of every indexed key. -/
theorem ObjectView.countObjects (view : ObjectView H w v b n slot off m) {rounds i : Nat} (sum : i + rounds = n)
    (columns : ColumnMap) :
    Runs (countObjects rounds i columns) w
      (((List.range' i rounds).filterMap slot).foldl (fun columns k => countColumn columns k.1 1 0) columns) w := by
  induction rounds generalizing i columns with
  | zero => rfl
  | succ rounds ih =>
    have inside : i < n := by omega
    unfold Runs LumoDB.countObjects
    rw [Prog.bind_eq, (view.table.toIndexFile.loadBucket view.sees inside).bind, List.range'_succ, List.filterMap_cons]
    cases at_i : slot i with
    | none =>
      rw [if_pos (view.table.empty i inside at_i)]
      exact ih (by omega) columns
    | some k =>
      obtain ⟨value, rec⟩ := view.represents.located i inside k at_i
      rw [view.table.stored i inside k at_i]
      simp only
      rw [if_neg (objectHash_ne_zero H k), Prog.bind_eq, (readIndexedObject_runs view.reads rec).bind]
      exact ih (by omega) _

/-- What the dump shows for an indexed key. -/
def objectValue (m : ObjectKey → Option Bytes) (k : ObjectKey) : DumpValue := ⟨k.1, none, k.2, (m k).getD []⟩

/-- The dump shows every indexed key of its columns with the current value. -/
theorem ObjectView.dumpObjects (view : ObjectView H w v b n slot off m) (total : Total deserialize) {rounds i : Nat}
    (sum : i + rounds = n) :
    ∃ lines, Runs (dumpObjects H columnFilter deserialize rounds i) w lines w ∧
      lines.filterMap DumpLine.passed =
        (((List.range' i rounds).filterMap slot).filter fun k => Passes columnFilter k.1).map (objectValue m) := by
  induction rounds generalizing i with
  | zero => exact ⟨[], rfl, rfl⟩
  | succ rounds ih =>
    have inside : i < n := by omega
    obtain ⟨later, ran, shown⟩ := ih (show i + 1 + rounds = n by omega)
    unfold Runs LumoDB.dumpObjects
    rw [Prog.bind_eq, (view.table.toIndexFile.loadBucket view.sees inside).bind, List.range'_succ, List.filterMap_cons]
    cases at_i : slot i with
    | none =>
      refine ⟨later, ?_, shown⟩
      rw [if_pos (view.table.empty i inside at_i)]
      exact ran
    | some k =>
      have stored : Stored n slot k := ⟨i, inside, at_i⟩
      obtain ⟨value, held⟩ := Option.ne_none_iff_exists'.mp ((view.represents.stored_iff k).mp stored)
      have record := ((view.represents k).2 value held).2
      rw [view.table.stored i inside k at_i]
      simp only
      rw [if_neg (objectHash_ne_zero H k), Prog.bind_eq, (readIndexedObject_runs view.reads record).bind]
      by_cases passes : Passes columnFilter k.1
      · have small := view.reads.small
        have within := record.inside
        have read := @readValueAt_runs w _ (off k + 24 + k.1.length + k.2.length) value.length view.reads (by omega)
        rw [record.valueBytes] at read
        obtain ⟨text, converted⟩ := deserializeIf_runs total ⟨k.1, none, k.2, value⟩ w
        refine ⟨.object i ⟨k.1, none, k.2, value⟩ (H.hashString k.1) (H.hashString k.2) (objectHash H k) (off k)
          (off k + 24 + k.1.length + k.2.length) (u64 (24 + k.1.length + k.2.length + value.length)) text :: later, ?_, ?_⟩
        · simp only
          rw [if_neg (fun skipped => not_passes_iff.mpr skipped passes), u64_of_lt (by omega), Prog.bind_eq, read.bind,
            Prog.bind_eq, converted.bind, Prog.bind_eq, ran.bind]
          rfl
        · rw [List.filter_cons_of_pos (by simpa using passes), List.map_cons, ← shown, objectValue, held]
          rfl
      · refine ⟨later, ?_, ?_⟩
        · rw [if_pos (not_passes_iff.mp passes)]
          exact ran
        · rw [List.filter_cons_of_neg (by simpa using passes)]
          exact shown

end Objects

section Rows
variable {H : HashFunctions} {w : World} {shards : Nat → Bytes} {count : Nat} {r : BlockRef} {k : RowKey}
  {content : RowMap} {block : Bytes} {columnFilter : Option Bytes} {deserialize : Option DumpDeserializer}

/-- The entries a row is decoded to, each key once. -/
structure RowEntries (H : HashFunctions) (w : World) (k : RowKey) (content : RowMap) (block : Bytes)
    (entries : List RowStructEntry) : Prop where
  decoded : Runs (decodeRowBlockEntries H block k.1 k.2) w entries w
  nodup : (entries.map StructEntry.key).Nodup
  content : rowMap entries = content

/-- The statistics read the column of a row and the number of its entries. -/
theorem readIndexedRow_runs (reads : ReadsShards w shards count) (at_r : BlockAt H shards count r k content block) :
    ∃ entries, RowEntries H w k content block entries ∧
      Runs (readIndexedRow (rowBucket H k r)) w (k.1, entries.length) w := by
  obtain ⟨n, keySize, valueSize, slot, t⟩ := at_r.row
  have members := reads.shardCount
  have shard := at_r.shard
  have length := t.shape.length
  have small := t.shape.small
  have offset := at_r.offset_lt reads
  have front := readBlock_runs 0 72 reads at_r (by omega)
  rw [Nat.add_zero] at front
  obtain ⟨entries, decoded, nodup, same, items⟩ := decodeRowBlockEntries_runs (w := w) t
  refine ⟨entries, ⟨decoded, nodup, same⟩, ?_⟩
  unfold Runs readIndexedRow
  rw [Prog.bind_eq, (getMembers_runs w).bind, if_neg (by simp only [rowBucket]; omega), Prog.bind_eq,
    readRowBlockHeader, Prog.bind_eq, Prog.bind_assoc]
  simp only [rowBucket]
  rw [front.bind, Prog.pure_eq, Prog.ret_bind, t.shape.header]
  simp only [isValidRowBlockHeader_of _ _ _ _ t.shape.power length small, at_r.size]
  rw [if_neg (by simp), Prog.bind_eq, readRowBlockColumn]
  simp only
  rw [Nat.add_assoc, u64_of_lt (by omega), (readBlock_runs _ _ reads at_r (by omega)).bind, t.shape.columnBytes, items]
  rfl

theorem dumpRowEntries_runs (total : Total deserialize) (column : Bytes) (rowId : Nat) (entries : List RowStructEntry) :
    ∃ lines, Runs (dumpRowEntries deserialize column rowId entries) w lines w ∧
      lines.filterMap DumpLine.passed = entries.map fun entry => ⟨column, some rowId, entry.key, entry.flatBufferBytes⟩ := by
  induction entries with
  | nil => exact ⟨[], rfl, rfl⟩
  | cons entry later ih =>
    obtain ⟨lines, ran, shown⟩ := ih
    obtain ⟨text, converted⟩ := deserializeIf_runs total ⟨column, some rowId, entry.key, entry.flatBufferBytes⟩ w
    refine ⟨.rowEntry ⟨column, some rowId, entry.key, entry.flatBufferBytes⟩ text :: lines, ?_, ?_⟩
    · unfold Runs dumpRowEntries
      rw [Prog.bind_eq, converted.bind, Prog.bind_eq, ran.bind]
      rfl
    · rw [List.map_cons, ← shown]
      rfl

/-- What the dump shows for a row with the given entries. -/
def rowValues (k : RowKey) (entries : List RowStructEntry) : List DumpValue :=
  entries.map fun entry => ⟨k.1, some k.2, entry.key, entry.flatBufferBytes⟩

theorem dumpRow_runs (reads : ReadsShards w shards count) (at_r : BlockAt H shards count r k content block)
    (total : Total deserialize) (index : Nat) {entries : List RowStructEntry}
    (held : RowEntries H w k content block entries) :
    ∃ lines, Runs (dumpRow H columnFilter deserialize index (rowBucket H k r)) w lines w ∧
      lines.filterMap DumpLine.passed = if Passes columnFilter k.1 then rowValues k entries else [] := by
  obtain ⟨n, keySize, valueSize, slot, t⟩ := at_r.row
  have length := t.shape.length
  have small := t.shape.small
  obtain ⟨lines, ran, shown⟩ := dumpRowEntries_runs (w := w) total k.1 k.2 entries
  unfold Runs dumpRow
  rw [Prog.bind_eq, (loadRowBlock_runs reads at_r).bind, if_neg (by omega)]
  simp only [t.header_take, isValidRowBlockHeader_of _ _ _ _ t.shape.power length small, rowBucket]
  rw [if_neg (by simp), Prog.bind_eq, blockBytes_runs (by omega), Prog.ret_bind, t.shape.columnBytes]
  by_cases passes : Passes columnFilter k.1
  · refine ⟨.row index k.1 (rowBucket H k r) (filled n slot) :: lines, ?_, ?_⟩
    · rw [if_neg (fun skipped => not_passes_iff.mpr skipped passes), Prog.bind_eq, held.decoded.bind, Prog.bind_eq, ran.bind]
      rfl
    · rw [if_pos passes, rowValues, ← shown]
      rfl
  · refine ⟨[], ?_, ?_⟩
    · rw [if_pos (not_passes_iff.mp passes)]
      rfl
    · rw [if_neg passes]
      rfl

end Rows

section Traversal
variable {H : HashFunctions} {w : World} {shards : Nat → Bytes} {count n : Nat} {b : Bytes} {slot : Nat → Option RowKey}
  {ref : RowKey → BlockRef} {m : RowKey → Option RowMap} {columnFilter : Option Bytes}
  {deserialize : Option DumpDeserializer}

/-- The decoded entries of every indexed row. -/
def DecodesRows (H : HashFunctions) (w : World) (shards : Nat → Bytes) (count n : Nat) (slot : Nat → Option RowKey)
    (ref : RowKey → BlockRef) (m : RowKey → Option RowMap) (entriesOf : RowKey → List RowStructEntry) : Prop :=
  ∀ k, Stored n slot k → ∃ content block, m k = some content ∧ BlockAt H shards count (ref k) k content block ∧
    RowEntries H w k content block (entriesOf k) ∧
    Runs (readIndexedRow (rowBucket H k (ref k))) w (k.1, (entriesOf k).length) w

theorem RowView.decodes (view : RowView H w shards count b n slot ref m) :
    ∃ entriesOf, DecodesRows H w shards count n slot ref m entriesOf := by
  have each : ∀ k, ∃ entries, Stored n slot k → ∃ content block, m k = some content ∧
      BlockAt H shards count (ref k) k content block ∧ RowEntries H w k content block entries ∧
      Runs (readIndexedRow (rowBucket H k (ref k))) w (k.1, entries.length) w := by
    intro k
    by_cases stored : Stored n slot k
    · obtain ⟨i, inside, at_i⟩ := stored
      obtain ⟨content, block, held, at_ref⟩ := view.represents.located inside at_i
      obtain ⟨entries, decoded, ran⟩ := readIndexedRow_runs view.reads at_ref
      exact ⟨entries, fun _ => ⟨content, block, held, at_ref, decoded, ran⟩⟩
    · exact ⟨[], fun impossible => absurd impossible stored⟩
  choose entriesOf decodes using each
  exact ⟨entriesOf, decodes⟩

theorem RowView.loadIfPresent (view : RowView H w shards count b n slot ref m) (retries : Nat) {i : Nat} (inside : i < n) :
    Runs (loadFilledRowBucketSnapshotIfPresent i (retries + 1)) w ((slot i).map fun k => rowBucket H k (ref k)) w := by
  obtain ⟨onEmpty, onFilled⟩ := view.table.toRowIndexFile.loadRowBucketSnapshot view.sees inside
  unfold Runs loadFilledRowBucketSnapshotIfPresent
  rw [Prog.bind_eq]
  cases at_i : slot i with
  | none =>
    rw [(onEmpty (view.table.empty i inside at_i)).bind]
    rfl
  | some k =>
    have bucket := view.table.stored i inside k at_i
    rw [bucket] at onFilled
    rw [(onFilled rfl).bind]
    rfl

/-- The second loop of the statistics counts every indexed row with its
entries. -/
theorem RowView.countRows (view : RowView H w shards count b n slot ref m) {entriesOf : RowKey → List RowStructEntry}
    (decodes : DecodesRows H w shards count n slot ref m entriesOf) (retries : Nat) {rounds i : Nat}
    (sum : i + rounds = n) (columns : ColumnMap) :
    Runs (countRows (retries + 1) rounds i columns) w
      (((List.range' i rounds).filterMap slot).foldl
        (fun columns k => countColumn columns k.1 (entriesOf k).length 1) columns) w := by
  induction rounds generalizing i columns with
  | zero => rfl
  | succ rounds ih =>
    have inside : i < n := by omega
    have loaded := view.loadIfPresent retries inside
    unfold Runs LumoDB.countRows
    rw [Prog.bind_eq, loaded.bind, List.range'_succ, List.filterMap_cons]
    cases at_i : slot i with
    | none => exact ih (by omega) columns
    | some k =>
      obtain ⟨_, _, _, _, _, ran⟩ := decodes k ⟨i, inside, at_i⟩
      rw [Option.map_some]
      simp only
      rw [Prog.bind_eq, ran.bind]
      exact ih (by omega) _

/-- The dump shows the entries of every indexed row of its columns. -/
theorem RowView.dumpRows (view : RowView H w shards count b n slot ref m) {entriesOf : RowKey → List RowStructEntry}
    (decodes : DecodesRows H w shards count n slot ref m entriesOf) (retries : Nat) (total : Total deserialize)
    {rounds i : Nat} (sum : i + rounds = n) :
    ∃ lines, Runs (dumpRows H (retries + 1) columnFilter deserialize rounds i) w lines w ∧
      lines.filterMap DumpLine.passed =
        (((List.range' i rounds).filterMap slot).filter fun k => Passes columnFilter k.1).flatMap
          fun k => rowValues k (entriesOf k) := by
  induction rounds generalizing i with
  | zero => exact ⟨[], rfl, rfl⟩
  | succ rounds ih =>
    have inside : i < n := by omega
    have loaded := view.loadIfPresent retries inside
    obtain ⟨later, ran, shown⟩ := ih (show i + 1 + rounds = n by omega)
    unfold Runs LumoDB.dumpRows
    rw [Prog.bind_eq, loaded.bind, List.range'_succ, List.filterMap_cons]
    cases at_i : slot i with
    | none => exact ⟨later, ran, shown⟩
    | some k =>
      obtain ⟨_, _, _, at_ref, held, _⟩ := decodes k ⟨i, inside, at_i⟩
      obtain ⟨lines, dumped, row⟩ := @dumpRow_runs _ w _ _ _ _ _ _ columnFilter _ view.reads at_ref total i _ held
      refine ⟨lines ++ later, ?_, ?_⟩
      · rw [Option.map_some]
        simp only
        rw [Prog.bind_eq, dumped.bind, Prog.bind_eq, ran.bind]
        rfl
      · rw [List.filterMap_append, row, shown]
        by_cases passes : Passes columnFilter k.1
        · rw [if_pos passes, List.filter_cons_of_pos (by simpa using passes), List.flatMap_cons]
        · rw [if_neg passes, List.filter_cons_of_neg (by simpa using passes), List.nil_append]

end Traversal

end LumoDB
