import LumoDB.ObjectIndex

namespace LumoDB
open ByteCodec Effects

/-- What holds of the operations that read the value file. -/
structure ReadsRecords (P : (α : Type) → Db α → Prop) : Prop extends Compositional P where
  members : P _ getMembers
  loadValues : ∀ offset size, P _ (loadBytes .values offset size)
  readAllAt : ∀ offset size, P _ (readAllAt .values offset size)

/-- What also holds of the loads from the mapped index. -/
structure ReadsObjects (P : (α : Type) → Db α → Prop) : Prop extends ReadsRecords P where
  load : ∀ offset width, P _ (load .index offset width)
  loadBytes : ∀ offset size, P _ (LumoDB.loadBytes .index offset size)

/-- What also holds of the stores to the mapped index. -/
structure UpdatesIndex (P : (α : Type) → Db α → Prop) : Prop extends ReadsObjects P where
  store : ∀ offset width value, P _ (store .index offset width value)
  storeBytes : ∀ offset data, P _ (storeBytes .index offset data)

/-- What also holds of the system calls that replace the index. -/
structure ReplacesIndex (P : (α : Type) → Db α → Prop) : Prop extends UpdatesIndex P where
  unmap : P _ (unmap .index)
  truncateFile : ∀ size, P _ (truncateFile .index size)
  mapFile : ∀ size, P _ (mapFile .index size)

/-- What also holds of the appends to the value file. -/
structure WritesObjects (P : (α : Type) → Db α → Prop) : Prop extends ReplacesIndex P where
  writeAllAt : ∀ offset data, P _ (writeAllAt .values offset data)
  setAppendOffset : ∀ offset, P _ (setMembers fun m => { m with appendOffset := offset })

section Records
variable {P : (α : Type) → Db α → Prop} (reads : ReadsRecords P)
include reads

theorem ReadsRecords.readValueAt (offset size : Nat) : P _ (readValueAt offset size) := by
  refine reads.bind reads.members fun m => ?_
  cases m.maps .values with
  | none => exact reads.readAllAt offset size
  | some mapping =>
    simp only
    split
    · exact reads.fail _
    · split
      · exact reads.loadValues offset size
      · exact reads.ret _

theorem ReadsRecords.readRecordHeader (offset : Nat) : P _ (readRecordHeader offset) :=
  reads.bind (reads.readValueAt _ _) fun _ => reads.ret _

theorem ReadsRecords.readRecordColumnKey (offset : Nat) (h : ValueRecordHeader) : P _ (readRecordColumnKey offset h) :=
  reads.bind (reads.readValueAt _ _) fun _ => reads.bind (reads.readValueAt _ _) fun _ => reads.ret _

theorem ReadsRecords.recordMatches (bucket : IndexBucket) (column key : Bytes) : P _ (recordMatches bucket column key) := by
  refine reads.bind (reads.readRecordHeader _) fun h => ?_
  split
  · split
    · exact reads.ret _
    · exact reads.bind (reads.readRecordColumnKey _ _) fun _ => reads.ret _
  · exact reads.fail _

end Records

section Reads
variable {P : (α : Type) → Db α → Prop} {H : HashFunctions} (reads : ReadsObjects P)
include reads

theorem ReadsObjects.loadBucket (index : Nat) : P _ (loadBucket index) :=
  reads.bind (reads.loadBytes _ _) fun _ => reads.ret _

theorem ReadsObjects.findBucketLoop (column key : Bytes) (hash mask rounds probe : Nat) :
    P _ (findBucketLoop column key hash mask rounds probe) := by
  induction rounds generalizing probe with
  | zero => exact reads.fail _
  | succ rounds ih =>
    refine reads.bind (reads.loadBucket _) fun bucket => ?_
    split
    · exact reads.ret _
    · split
      · exact ih _
      · refine reads.bind (reads.recordMatches _ _ _) fun isMatch => ?_
        split
        · exact reads.ret _
        · exact ih _

theorem ReadsObjects.findBucket (column key : Bytes) (columnHash keyHash : Nat) :
    P _ (findBucket H column key columnHash keyHash) :=
  reads.bind (reads.load _ _) fun _ => reads.findBucketLoop _ _ _ _ _ _

theorem ReadsObjects.collectBuckets (rounds index : Nat) : P _ (collectBuckets rounds index) := by
  induction rounds generalizing index with
  | zero => exact reads.ret _
  | succ rounds ih =>
    exact reads.bind (reads.loadBucket _) fun _ => reads.bind (ih _) fun _ => reads.ret _

theorem ReadsObjects.getStruct (column key : Bytes) : P _ (getStruct H column key) := by
  refine reads.bind reads.members fun m => ?_
  split
  · exact reads.fail _
  · refine reads.bind (reads.findBucket _ _ _ _) fun lookup => ?_
    split
    · exact reads.fail _
    · refine reads.bind (reads.loadBucket _) fun bucket => reads.bind (reads.readRecordHeader _) fun h => ?_
      split
      · exact reads.readValueAt _ _
      · exact reads.fail _

end Reads

section Updates
variable {P : (α : Type) → Db α → Prop} {H : HashFunctions} (updates : UpdatesIndex P)
include updates

theorem UpdatesIndex.countUnless (found : Bool) : P _ (countUnless found) := by
  cases found
  · exact updates.bind (updates.load _ _) fun _ => updates.store _ _ _
  · exact updates.ret _

theorem UpdatesIndex.placeBucketLoop (message : String) (bucket : IndexBucket) (mask rounds probe : Nat) :
    P _ (placeBucketLoop message bucket mask rounds probe) := by
  induction rounds generalizing probe with
  | zero => exact updates.fail _
  | succ rounds ih =>
    refine updates.bind (updates.loadBucket _) fun present => ?_
    split
    · exact updates.storeBytes _ _
    · exact ih _

theorem UpdatesIndex.placeBucket (message : String) (bucket : IndexBucket) : P _ (placeBucket message bucket) :=
  updates.bind (updates.load _ _) fun _ => updates.placeBucketLoop _ _ _ _ _

theorem UpdatesIndex.placeBuckets (buckets : List IndexBucket) : P _ (placeBuckets buckets) := by
  induction buckets with
  | nil => exact updates.ret _
  | cons bucket later ih =>
    exact updates.bind (updates.placeBucket _ _) fun _ => updates.bind (updates.countUnless false) fun _ => ih

theorem UpdatesIndex.indexRecord (column : Bytes) (columnHash : Nat) (keysAreUnique : Bool) (r : PendingRecord) :
    P _ (indexRecord H column columnHash keysAreUnique r) := by
  unfold LumoDB.indexRecord
  split
  · exact updates.bind (updates.placeBucket _ _) fun _ => updates.countUnless false
  · exact updates.bind (updates.findBucket _ _ _ _) fun _ => updates.bind (updates.storeBytes _ _) fun _ =>
      updates.countUnless _

theorem UpdatesIndex.indexRecords (column : Bytes) (columnHash : Nat) (keysAreUnique : Bool) (records : List PendingRecord) :
    P _ (indexRecords H column columnHash keysAreUnique records) := by
  induction records with
  | nil => exact updates.ret _
  | cons r later ih => exact updates.bind (updates.indexRecord _ _ _ _) fun _ => ih

end Updates

section Replaces
variable {P : (α : Type) → Db α → Prop} {H : HashFunctions} (replaces : ReplacesIndex P)
include replaces

theorem ReplacesIndex.orOverflow {α : Type} (answer : Option α) : P _ (orOverflow answer) := by
  cases answer with
  | none => exact replaces.overflow
  | some a => exact replaces.ret a

theorem ReplacesIndex.createEmptyIndex (bucketCount : Nat) : P _ (createEmptyIndex bucketCount) :=
  replaces.bind (replaces.orOverflow _) fun _ => replaces.bind replaces.unmap fun _ => replaces.bind (replaces.truncateFile _) fun _ =>
    replaces.bind (replaces.mapFile _) fun _ => replaces.bind (replaces.storeBytes _ _) fun _ => replaces.storeBytes _ _

theorem ReplacesIndex.resizeIndex (newBucketCount : Nat) : P _ (resizeIndex newBucketCount) :=
  replaces.bind (replaces.load _ _) fun _ => replaces.bind (replaces.collectBuckets _ _) fun _ =>
    replaces.bind (replaces.load _ _) fun _ => replaces.bind (replaces.createEmptyIndex _) fun _ =>
    replaces.bind (replaces.store _ _ _) fun _ => replaces.placeBuckets _

theorem ReplacesIndex.ensureCapacityForInsert (insertCount : Nat) : P _ (ensureCapacityForInsert insertCount) := by
  refine replaces.bind replaces.members fun m => replaces.bind (replaces.load _ _) fun bucketCount =>
    replaces.bind (replaces.load _ _) fun itemCount => replaces.bind (replaces.orOverflow _) fun grown => ?_
  split
  · exact replaces.ret _
  · exact replaces.resizeIndex _

end Replaces

section Writes
variable {P : (α : Type) → Db α → Prop} {H : HashFunctions} (writes : WritesObjects P)
include writes

theorem WritesObjects.writeStructs (column : Bytes) (entries : List StructEntry) (keysAreUnique : Bool) :
    P _ (writeStructs H column entries keysAreUnique) := by
  refine writes.bind writes.members fun m => ?_
  split
  · exact writes.fail _
  · split
    · exact writes.fail _
    · split
      · exact writes.fail _
      · split
        · exact writes.ret _
        · split
          · exact writes.fail _
          · exact writes.bind (writes.ensureCapacityForInsert _) fun _ => writes.bind (writes.writeAllAt _ _) fun _ =>
              writes.bind (writes.indexRecords _ _ _ _) fun _ => writes.setAppendOffset _

end Writes

end LumoDB
