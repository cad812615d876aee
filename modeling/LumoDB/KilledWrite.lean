import LumoDB.FailedResize
import LumoDB.KilledIndex

namespace LumoDB
open ByteCodec Effects LinearProbing

section Records
variable {H : HashFunctions} {w t : World} {b v tail column done : Bytes} {n : Nat} {slot : Nat → Option ObjectKey}
  {off : ObjectKey → Nat} {m : ObjectKey → Option Bytes} {entries : List StructEntry}

/-- The index `x` represents `m` over the value file `v`. -/
def IndexesMap (H : HashFunctions) (v : Bytes) (m : ObjectKey → Option Bytes) (x : Bytes) : Prop :=
  ∃ n slot off, IndexTable H x n slot off ∧ Represents v n slot off m

/-- A kill inside the update of one record leaves the index as it was or
updated, or with a bucket that is not counted. -/
theorem killed_indexRecord (keysAreUnique : Bool) (k : ObjectKey) {value : Bytes} (offset : Nat) (r : PendingRecord)
    (key : r.key = k.2) (hash : r.keyHash = H.hashString k.2) (at_offset : r.recordOffset = offset)
    (table : IndexTable H b n slot off) (reads : ReadsValues w (v ++ tail)) (rep : Represents v n slot off m)
    (record : RecordAt v offset k value) (fresh : keysAreUnique = true → m k = none) (room : filled n slot + 1 < n)
    (killed : Killed (indexRecord H k.1 (H.hashString k.1) keysAreUnique r) (w.withMapped .index b) t) :
    ∃ x, FileLeft .index w t x ∧ (Discarded x ∨ IndexesMap H v m x ∨ IndexesMap H v (Function.update m k (some value)) x) := by
  have bound : offset < 2 ^ 64 := by
    have inside := record.inside
    have small := reads.small
    rw [List.length_append] at small
    omega
  have old : FileLeft .index w (w.withMapped .index b) b ∧ IndexesMap H v m b := ⟨.withMapped w b, n, slot, off, table, rep⟩
  have updated : ∀ {lookup : BucketLookup}, Looked H n slot k lookup →
      IndexesMap H v (Function.update m k (some value)) (pointed b lookup ⟨objectHash H k, offset⟩) :=
    fun looked => ⟨n, _, _, table.point looked room bound, rep.update looked.inside looked.free record⟩
  unfold indexRecord at killed
  rw [hash, at_offset, key] at killed
  cases keysAreUnique with
  | true =>
    obtain ⟨i, placed, looked⟩ := @placeBucket_runs _ _ _ _ _ w "index table is full during unique insert" k offset table
      ((rep k).1 (fresh rfl))
    rcases Indivisible.cutOff (whole_placeBucket _ _) killed placed with rfl | killed
    · exact ⟨b, old.1, Or.inr (Or.inl old.2)⟩
    rcases whole_incrementItemCount.last killed
      (incrementItemCount_runs w (table.toIndexFile.putBucket _ looked.inside)) with rfl | rfl
    · exact ⟨_, .withMapped w _, Or.inl (discarded_uncounted table looked bound)⟩
    · exact ⟨_, .withMapped w _, Or.inr (Or.inr (updated looked))⟩
  | false =>
    obtain ⟨lookup, found, looked⟩ := findBucket_runs table (rep.append tail).located reads k
    rcases cutOff_after killed found with early | killed
    · obtain rfl := silent_reads.cutOff (reads_only.findBucket _ _ _ _) early
      exact ⟨b, old.1, Or.inr (Or.inl old.2)⟩
    rcases Indivisible.cutOff (whole_storeBucket _ _) killed
      (storeBucket_runs w ⟨objectHash H k, offset⟩ table.toIndexFile looked.inside) with rfl | killed
    · exact ⟨b, old.1, Or.inr (Or.inl old.2)⟩
    rcases (whole_countUnless _).last killed
      (countUnless_runs w (table.toIndexFile.putBucket ⟨objectHash H k, offset⟩ looked.inside) lookup.found) with rfl | rfl
    · refine ⟨_, .withMapped w _, ?_⟩
      obtain ⟨i, present⟩ := lookup
      cases present with
      | false => exact Or.inl (discarded_uncounted table looked bound)
      | true => exact Or.inr (Or.inr (updated looked))
    · exact ⟨_, .withMapped w _, Or.inr (Or.inr (updated looked))⟩

/-- A kill among the index updates of a batch leaves the first records
indexed, or a bucket that is not counted. -/
theorem killed_indexRecords (keysAreUnique : Bool) (batch : BatchWritten H w v tail column entries done b n slot off m)
    (fresh : keysAreUnique = true → NewKeys m column entries)
    (killed : Killed (indexRecords H column (H.hashString column) keysAreUnique
      (pendingRecords H column entries done.length).1) (w.withMapped .index b) t) :
    ∃ x, FileLeft .index w t x ∧ (Discarded x ∨
      ∃ j ≤ entries.length, IndexesMap H v (putAll m ((recordsOf column entries).take j)) x) := by
  induction entries generalizing b slot off m done with
  | nil =>
    cases killed
    exact ⟨b, .withMapped w b, Or.inr ⟨0, le_rfl, n, slot, off, batch.table, batch.represents⟩⟩
  | cons entry later ih =>
    have room := batch.room
    rw [List.length_cons] at room
    obtain ⟨r, pending, key, hash, at_offset⟩ := batch.pending
    have absent : keysAreUnique = true → m (column, entry.key) = none :=
      fun unique => (fresh unique).2 entry List.mem_cons_self
    obtain ⟨b₁, slot₁, off₁, runs, table, represents, count⟩ := indexRecord_runs keysAreUnique (column, entry.key) done.length
      r key hash at_offset batch.table batch.reads batch.represents batch.record absent (by omega)
    rw [pending, indexRecords] at killed
    rcases cutOff_after killed runs with early | killed
    · obtain ⟨x, left, discarded | same | updated⟩ := killed_indexRecord keysAreUnique (column, entry.key) done.length r key
        hash at_offset batch.table batch.reads batch.represents batch.record absent (by omega) early
      · exact ⟨x, left, Or.inl discarded⟩
      · exact ⟨x, left, Or.inr ⟨0, Nat.zero_le _, same⟩⟩
      · exact ⟨x, left, Or.inr ⟨1, by rw [List.length_cons]; omega, updated⟩⟩
    · obtain ⟨x, left, state⟩ := ih (batch.next table represents count) (fun unique => (fresh unique).next) killed
      refine ⟨x, left, state.imp_right ?_⟩
      rintro ⟨j, bound, indexed⟩
      exact ⟨j + 1, by rw [List.length_cons]; omega, indexed⟩

end Records

section Append
variable {w t : World} {file : FileId} {bytes data : Bytes}

/-- A kill inside an append leaves a part of the bytes at the end of the
file. -/
theorem killed_append (content : w.disk file = some bytes) (fits : bytes.length + data.length < 2 ^ 63)
    (killed : Killed (writeAllAt file bytes.length data) w t) :
    t = w ∨ ∃ count ≤ data.length, t = w.setFile file (some (bytes ++ data.take count)) := by
  have exact : u64 bytes.length = bytes.length := u64_of_lt (by omega)
  rcases killed with rfl | ⟨bytes', count, content', bound, _, _, rfl⟩ | ⟨r, w', step, later⟩
  · exact Or.inl rfl
  · rw [content, Option.some.injEq] at content'
    subst content'
    exact Or.inr ⟨count, bound, by rw [exact, patch_end]⟩
  · obtain rfl := cutOff_idle (by cases r <;> exact trivial) later
    simp only [Handler.steps, system, content, exact, if_pos fits, patch_end] at step
    split at step
    · cases step
      exact Or.inl rfl
    · cases step
      exact Or.inr ⟨data.length, le_rfl, by rw [List.take_length]⟩

end Append

section Write
variable {H : HashFunctions} {w w' t : World} {objects : ObjectLog} {column b v x : Bytes} {entries : List StructEntry} {n : Nat}
  {slot : Nat → Option ObjectKey} {off : ObjectKey → Nat} {keysAreUnique : Bool}

/-- The kill has left the value file `v` and the index `x`, and the other
files as they were. -/
structure ObjectsLeft (w t : World) (v x : Bytes) : Prop where
  disk : t.disk = Function.update (Function.update w.disk .values (some v)) .index (some x)
  directory : t.directory = w.directory

theorem FileLeft.withValues (left : FileLeft .index w t x) (content : w.disk .values = some v) : ObjectsLeft w t v x :=
  ⟨by rw [← content, Function.update_eq_self, left.disk], left.directory⟩

theorem FileLeft.appended (left : FileLeft .index ((w.withMapped .index b).setFile .values (some v)) t x) : ObjectsLeft w t v x := by
  refine ⟨?_, left.directory⟩
  rw [left.disk]
  simp only [World.withMapped, World.setFile, World.setMembers]
  rw [Function.update_comm (by decide), Function.update_idem, Function.update_comm (by decide)]

/-- What a killed write of `records` can leave of the files with the records
`objects`. -/
inductive WriteLeft (H : HashFunctions) (off : ObjectKey → Nat) (objects records : ObjectLog) (held : ObjectKey → Prop)
    (resizes : Prop) (v x : Bytes) : Prop where
  | kept {j tail} (bound : j ≤ records.length) (begins : v = valueFileBytes objects ++ tail)
      (indexed : IndexesMap H v (putAll (fun _ => none) (objects ++ records.take j)) x)
  | discarded {j} (bound : j ≤ records.length) (complete : v = valueFileBytes (objects ++ records.take j))
      (fits : ∀ r ∈ objects ++ records.take j, r.1.Fits) (rejected : Discarded x)
  | emptied (resized : resizes) (same : v = valueFileBytes objects) (fewer : HoldsSome H off held x)

section Left
variable {records : ObjectLog} {tail : Bytes} {held : ObjectKey → Prop} {resizes : Prop}

/-- A kill has left the files in one of these states. -/
def LeavesWrite (H : HashFunctions) (off : ObjectKey → Nat) (objects records : ObjectLog) (held : ObjectKey → Prop)
    (resizes : Prop) (w t : World) : Prop :=
  ∃ v x, ObjectsLeft w t v x ∧ v.length < 2 ^ 63 ∧ WriteLeft H off objects records held resizes v x

/-- None of the new records is indexed. -/
theorem ObjectsLeft.unindexed (left : ObjectsLeft w t v b) (begins : v = valueFileBytes objects ++ tail)
    (small : v.length < 2 ^ 63) (table : IndexTable H b n slot off)
    (represents : Represents (valueFileBytes objects) n slot off (putAll (fun _ => none) objects)) :
    LeavesWrite H off objects records held resizes w t := by
  refine ⟨v, b, left, small, .kept (j := 0) (Nat.zero_le _) begins ⟨n, slot, off, table, ?_⟩⟩
  rw [List.take_zero, List.append_nil, begins]
  exact represents.append tail

end Left

/-- What `WriteStructs` does once the arguments are checked. -/
abbrev appendAndIndex (H : HashFunctions) (column : Bytes) (entries : List StructEntry) (keysAreUnique : Bool) (m : Members) :
    Db Unit :=
  (ensureCapacityForInsert entries.length).bind fun _ =>
    (writeAllAt .values m.appendOffset (encodeLog (recordsOf column entries))).bind fun _ =>
    (indexRecords H column (H.hashString column) keysAreUnique (pendingRecords H column entries m.appendOffset).1).bind fun _ =>
    setMembers fun m' => { m' with appendOffset := (pendingRecords H column entries m.appendOffset).2 }

/-- A kill after the arguments were checked. -/
theorem killed_writeAccepted (files : ObjectFiles H w objects b n slot off) (serving : Serving w)
    (accepted : AcceptsStructs column entries) (given : entries ≠ [])
    (fresh : keysAreUnique = true → FreshKeys objects column entries)
    (bounded : Bounded (appendAndIndex H column entries keysAreUnique w.members) w)
    (killed : Killed (appendAndIndex H column entries keysAreUnique w.members) w t) :
    LeavesWrite H off objects (recordsOf column entries) (Stored n slot) (w.Resizes entries.length) w t := by
  have small := files.small
  have values := (List.append_nil (valueFileBytes objects)).symm
  obtain ⟨b₁, n₁, slot₁, ensured, written, files₂, room⟩ := files.tailed.writeBatch serving.load given bounded
  have files₁ := (files.tailed.withIndex files₂.table files₂.represents).untailed
  have fits := Bounded.writeAllAt (bounded.rest ensured).first
  rw [files.appendOffset] at fits
  rw [List.drop_nil] at written files₂
  set records := recordsOf column entries
  have whole : records.take records.length = records := List.take_length
  have counted : records.length = entries.length := List.length_map _
  rcases cutOff_after killed ensured with early | killed
  · rw [← files.self] at early
    obtain ⟨x, left, rfl | ⟨⟨grown, grow, other⟩, state⟩⟩ := killed_ensureCapacityForInsert files.table serving.load
      (by rw [files.self]; exact bounded.first) early
    · exact (left.withValues files.content).unindexed values small files.table files.represents
    · refine ⟨_, x, left.withValues files.content, small, ?_⟩
      rcases state with rejected | fewer
      · refine .discarded (j := 0) (Nat.zero_le _) ?_ ?_ rejected
        · rw [List.take_zero, List.append_nil]
        · rw [List.take_zero, List.append_nil]
          exact files.fits
      · exact .emptied ⟨n, filled n slot, grown, bucketCount_runs files, files.view.entryCount, grow, other⟩ rfl fewer
  rcases cutOff_after killed written with early | killed
  · rw [files.appendOffset] at early
    rcases killed_append files₁.content fits early with rfl | ⟨count, bound, rfl⟩
    · exact ((FileLeft.withMapped w b₁).withValues files.content).unindexed values small files₂.table files₂.represents
    · refine ObjectsLeft.unindexed (FileLeft.refl ?_).appended rfl ?_ files₂.table files₂.represents
      · simp [World.setFile]
      · rw [List.length_append, List.length_take]
        omega
  have complete : valueFileBytes objects ++ (encodeLog records ++ []) = valueFileBytes (objects ++ records) := by
    rw [List.append_nil, valueFileBytes_append]
  have larger : (valueFileBytes (objects ++ records)).length < 2 ^ 63 := by
    rw [valueFileBytes_append, List.length_append]
    exact fits
  have batch := files₂.batchWritten accepted room
  obtain ⟨b₂, slot₂, off₂, indexed, files₃⟩ := files₂.indexRecords keysAreUnique accepted fresh room
  rcases cutOff_after killed (p := indexRecords _ _ _ _ _) indexed with early | killed
  · rw [← files₂.self] at early
    obtain ⟨x, left, state⟩ := killed_indexRecords keysAreUnique batch (fun unique => (fresh unique).newKeys)
      (by rw [← files.appendOffset]; exact early)
    have left := left.appended
    rw [complete] at left
    refine ⟨_, x, left, larger, ?_⟩
    rcases state with rejected | ⟨j, bound, indexes⟩
    · exact .discarded le_rfl (by rw [whole]) (by rw [whole]; exact files₃.fits) rejected
    · rw [← putAll_append] at indexes
      exact .kept (counted ▸ bound) (valueFileBytes_append _ _) indexes
  · have left : ObjectsLeft w t (valueFileBytes (objects ++ records)) b₂ := by
      rw [← complete]
      rcases Indivisible.last (indivisible_perform fun _ _ => id) killed (setMembers_runs _ _) with rfl | rfl
      · exact (FileLeft.withMapped _ b₂).appended
      · exact ⟨(FileLeft.withMapped _ b₂).appended.disk, rfl⟩
    refine ⟨_, b₂, left, larger, .kept le_rfl (valueFileBytes_append _ _) ⟨n₁, slot₂, off₂, files₃.table, ?_⟩⟩
    rw [whole]
    exact files₃.represents

/-- A kill inside `WriteStructs` leaves the files of before with more bytes
behind the records and some of the new ones indexed, or complete records and an
index that the next `Open` discards, or in a resize an index with fewer keys. -/
theorem killed_writeStructs (files : ObjectFiles H w objects b n slot off) (serving : Serving w)
    (fresh : keysAreUnique = true → FreshKeys objects column entries)
    (bounded : Bounded (writeStructs H column entries keysAreUnique) w)
    (killed : Killed (writeStructs H column entries keysAreUnique) w t) :
    LeavesWrite H off objects (recordsOf column entries) (Stored n slot) (w.Resizes entries.length) w t := by
  have small := files.small
  have values := (List.append_nil (valueFileBytes objects)).symm
  have unchanged : LeavesWrite H off objects (recordsOf column entries) (Stored n slot) (w.Resizes entries.length) w w :=
    ((FileLeft.refl files.index).withValues files.content).unindexed values small files.table files.represents
  by_cases accepted : AcceptsStructs column entries
  rotate_left
  · obtain ⟨steps, split, same⟩ := @writeStructs_rejected H _ _ keysAreUnique accepted
    obtain ⟨message, refused⟩ := same w.members serving.isOpen serving.writable
    rw [split] at killed
    rcases cutOff_after killed (getMembers_runs w) with early | killed
    · obtain rfl := silent_reads.cutOff reads_only.members early
      exact unchanged
    · rw [refused] at killed
      cases killed
      exact unchanged
  by_cases given : entries = []
  · subst given
    obtain ⟨steps, split, same⟩ := @writeStructs_empty H _ keysAreUnique accepted
    rw [split] at killed
    rcases cutOff_after killed (getMembers_runs w) with early | killed
    · obtain rfl := silent_reads.cutOff reads_only.members early
      exact unchanged
    · rw [same _ serving.isOpen serving.writable] at killed
      cases killed
      exact unchanged
  obtain ⟨steps, split, same⟩ := @writeStructs_accepted H _ _ keysAreUnique accepted given
  rw [split] at bounded killed
  replace bounded := bounded.rest (getMembers_runs w)
  rcases cutOff_after killed (getMembers_runs w) with early | killed
  · obtain rfl := silent_reads.cutOff reads_only.members early
    exact unchanged
  rw [same _ serving.isOpen serving.writable] at bounded killed
  exact killed_writeAccepted files serving accepted given fresh bounded killed

end Write

end LumoDB
