import LumoDB.Diagnostics
import LumoDB.Faults
import LumoDB.ObjectSteps

namespace LumoDB
open ByteCodec Effects

/-- What holds of the operations that read the shard files. -/
structure ReadsBlocks (P : (α : Type) → Db α → Prop) : Prop extends Compositional P where
  members : P _ getMembers
  loadShard : ∀ shardId offset size, P _ (loadBytes (.rowShard shardId) offset size)
  readShard : ∀ shardId offset size, P _ (readAllAt (.rowShard shardId) offset size)

/-- What also holds of the loads from an index of `n` buckets and a row index
of `rowCount` buckets, inside the two. -/
structure ReadsBuckets (P : (α : Type) → Db α → Prop) (n rowCount : Nat) : Prop
    extends ReadsRecords P, ReadsBlocks P where
  load : ∀ offset width, offset + width ≤ 64 + 16 * n → P _ (load .index offset width)
  loadBytes : ∀ offset size, offset + size ≤ 64 + 16 * n → P _ (LumoDB.loadBytes .index offset size)
  loadRow : ∀ offset width, offset + width ≤ 64 + 64 * rowCount → P _ (LumoDB.load .rowIndex offset width)

section Blocks
variable {P : (α : Type) → Db α → Prop} {H : HashFunctions} (reads : ReadsBlocks P)
include reads

theorem ReadsBlocks.readRowValueAt (shardId offset size : Nat) : P _ (readRowValueAt shardId offset size) := by
  refine reads.bind reads.members fun m => reads.ite (reads.fail _) ?_
  cases m.maps (.rowShard shardId) with
  | none => exact reads.readShard _ _ _
  | some mapping => exact reads.ite (reads.fail _) (reads.ite (reads.loadShard _ _ _) (reads.ret _))

theorem ReadsBlocks.readRowBlockHeader (shardId blockOffset : Nat) : P _ (readRowBlockHeader shardId blockOffset) :=
  reads.bind (reads.readRowValueAt _ _ _) fun _ => reads.ret _

theorem ReadsBlocks.rowBlockMatches (bucket : RowIndexBucket) (column : Bytes) (rowId : Nat) :
    P _ (rowBlockMatches bucket column rowId) :=
  reads.bind reads.members fun _ => reads.ite (reads.fail _) (reads.bind (reads.readRowBlockHeader _ _) fun _ =>
    reads.ite (reads.fail _) (reads.ite (reads.ret _) (reads.bind (reads.readRowValueAt _ _ _) fun _ => reads.ret _)))

theorem ReadsBlocks.loadRowBlock (bucket : RowIndexBucket) : P _ (loadRowBlock bucket) :=
  reads.bind reads.members fun _ => reads.ite (reads.fail _) (reads.readRowValueAt _ _ _)

theorem ReadsBlocks.findValueLoop (bucket : RowIndexBucket) (h : RowBlockHeader) (key : Bytes)
    (keyHash mask start keyBytesOffset valueBytesOffset rounds probe : Nat) :
    P _ (findValueLoop bucket h key keyHash mask start keyBytesOffset valueBytesOffset rounds probe) := by
  induction rounds generalizing probe with
  | zero => exact reads.fail _
  | succ rounds ih =>
    refine reads.bind (reads.readRowValueAt _ _ _) fun _ => reads.ite (reads.fail _) (reads.ite (reads.fail _)
      (reads.ite (ih _) (reads.ite (reads.fail _) (reads.bind (reads.readRowValueAt _ _ _) fun _ => ?_))))
    exact reads.ite (ih _) (reads.readRowValueAt _ _ _)

theorem ReadsBlocks.findValueInRowBlockAt (bucket : RowIndexBucket) (h : RowBlockHeader) (key : Bytes) :
    P _ (findValueInRowBlockAt H bucket h key) :=
  reads.bind reads.members fun _ => reads.ite (reads.fail _) (reads.ite (reads.fail _)
    (reads.findValueLoop _ _ _ _ _ _ _ _ _ _))

theorem ReadsBlocks.blockBytes (block : Bytes) (offset size : Nat) : P _ (blockBytes block offset size) :=
  reads.ite (reads.ret _) (reads.ite (reads.ret _) reads.fault)

theorem ReadsBlocks.keyBucketField (block : Bytes) (index field size : Nat) :
    P _ (keyBucketField block index field size) :=
  reads.bind (reads.blockBytes _ _ _) fun _ => reads.ret _

theorem ReadsBlocks.decodeBuckets (block : Bytes) (h : RowBlockHeader)
    (keyBytesOffset valueBytesOffset rounds index : Nat) :
    P _ (decodeBuckets block h keyBytesOffset valueBytesOffset rounds index) := by
  induction rounds generalizing index with
  | zero => exact reads.ret _
  | succ rounds ih =>
    refine reads.bind (reads.keyBucketField _ _ _ _) fun _ => reads.ite (ih _) (reads.ite (reads.fail _) ?_)
    refine reads.bind (reads.keyBucketField _ _ _ _) fun _ => reads.bind (reads.keyBucketField _ _ _ _) fun _ =>
      reads.ite (reads.fail _) ?_
    refine reads.bind (reads.keyBucketField _ _ _ _) fun _ => reads.bind (reads.keyBucketField _ _ _ _) fun _ =>
      reads.ite (reads.fail _) (reads.bind (reads.blockBytes _ _ _) fun _ => ?_)
    exact reads.bind (reads.blockBytes _ _ _) fun _ => reads.bind (ih _) fun _ => reads.ret _

theorem ReadsBlocks.decodeRowBlockEntries (block column : Bytes) (rowId : Nat) :
    P _ (decodeRowBlockEntries H block column rowId) :=
  reads.ite (reads.fail _) (reads.ite (reads.fail _) (reads.ite (reads.fail _)
    (reads.bind (reads.blockBytes _ _ _) fun _ => reads.ite (reads.fail _)
      (reads.bind (reads.decodeBuckets _ _ _ _ _ _) fun _ => reads.ite (reads.fail _) (reads.ret _)))))

theorem ReadsBlocks.readIndexedRow (bucket : RowIndexBucket) : P _ (readIndexedRow bucket) :=
  reads.bind reads.members fun _ => reads.ite (reads.fail _) (reads.bind (reads.readRowBlockHeader _ _) fun _ =>
    reads.ite (reads.fail _) (reads.bind (reads.readRowValueAt _ _ _) fun _ => reads.ret _))

variable {columnFilter : Option Bytes} {deserialize : Option DumpDeserializer}

theorem ReadsBlocks.deserializeIf (value : DumpValue) : P _ (deserializeIf deserialize value) := by
  cases deserialize with
  | none => exact reads.ret _
  | some convert =>
    refine reads.bind ?_ fun _ => reads.ret _
    cases convert value with
    | ok text => exact reads.ret _
    | error e => exact reads.fail _

theorem ReadsBlocks.dumpRowEntries (column : Bytes) (rowId : Nat) (entries : List RowStructEntry) :
    P _ (dumpRowEntries deserialize column rowId entries) := by
  induction entries with
  | nil => exact reads.ret _
  | cons entry later ih =>
    exact reads.bind (reads.deserializeIf _) fun _ => reads.bind ih fun _ => reads.ret _

theorem ReadsBlocks.dumpRow (index : Nat) (bucket : RowIndexBucket) :
    P _ (dumpRow H columnFilter deserialize index bucket) :=
  reads.bind (reads.loadRowBlock _) fun _ => reads.ite (reads.fail _) (reads.ite (reads.fail _)
    (reads.bind (reads.blockBytes _ _ _) fun _ => reads.ite (reads.ret _)
      (reads.bind (reads.decodeRowBlockEntries _ _ _) fun _ => reads.bind (reads.dumpRowEntries _ _ _) fun _ => reads.ret _)))

end Blocks

section Buckets
variable {P : (α : Type) → Db α → Prop} {H : HashFunctions} {n rowCount retries : Nat} (reads : ReadsBuckets P n rowCount)
include reads

theorem ReadsBuckets.loadBucket {index : Nat} (inside : index < n) : P _ (loadBucket index) :=
  reads.bind (reads.loadBytes _ _ (by unfold indexBucketOffset; omega)) fun _ => reads.ret _

theorem ReadsBuckets.findBucketLoop {mask : Nat} (inside : mask < n) (column key : Bytes) (hash rounds probe : Nat) :
    P _ (findBucketLoop column key hash mask rounds probe) := by
  induction rounds generalizing probe with
  | zero => exact reads.fail _
  | succ rounds ih =>
    refine reads.bind (reads.loadBucket (lt_of_le_of_lt Nat.and_le_right inside)) fun bucket =>
      reads.ite (reads.ret _) (reads.ite (ih _) ?_)
    exact reads.bind (reads.recordMatches _ _ _) fun isMatch => reads.ite (reads.ret _) (ih _)

theorem ReadsBuckets.loadRowBucketSnapshot {index : Nat} (inside : index < rowCount) :
    P _ (loadRowBucketSnapshot index) := by
  have field : ∀ d width, d + width ≤ 64 → P _ (LumoDB.load .rowIndex (rowBucketOffset index + d) width) :=
    fun d width bound => reads.loadRow _ _ (by unfold rowBucketOffset; omega)
  refine reads.bind (field 0 4 (by decide)) fun _ => reads.ite (reads.ret _) (reads.ite (reads.ret _)
    (reads.ite (reads.fail _) ?_))
  exact reads.bind (field 4 4 (by decide)) fun _ => reads.bind (field 8 8 (by decide)) fun _ =>
    reads.bind (field 16 8 (by decide)) fun _ => reads.bind (field 24 8 (by decide)) fun _ =>
    reads.bind (field 32 8 (by decide)) fun _ => reads.bind (field 40 8 (by decide)) fun _ =>
    reads.bind (field 0 4 (by decide)) fun _ => reads.ite (reads.ret _) (reads.ret _)

theorem ReadsBuckets.loadIfPresent {index : Nat} (inside : index < rowCount) (retries : Nat) :
    P _ (loadFilledRowBucketSnapshotIfPresent index retries) := by
  induction retries with
  | zero => exact reads.spin
  | succ retries ih =>
    refine reads.bind (reads.loadRowBucketSnapshot inside) fun snapshot => ?_
    cases snapshot with
    | filled bucket => exact reads.ret _
    | empty => exact reads.ret _
    | writing => exact ih

theorem ReadsBuckets.findRowPass {mask : Nat} (inside : mask < rowCount) (column : Bytes)
    (rowId columnHash start rounds probe : Nat) : P _ (findRowPass column rowId columnHash mask start rounds probe) := by
  induction rounds generalizing probe with
  | zero => exact reads.fail _
  | succ rounds ih =>
    refine reads.bind (reads.loadRowBucketSnapshot (lt_of_le_of_lt Nat.and_le_right inside)) fun snapshot => ?_
    cases snapshot with
    | empty => exact reads.ret _
    | writing => exact reads.ret _
    | filled bucket =>
      refine reads.ite (ih _) (reads.bind (reads.rowBlockMatches _ _ _) fun same => ?_)
      cases same with
      | none => exact ih _
      | some h => exact reads.ret _

theorem ReadsBuckets.findRowLoop {bucketCount : Nat} (inside : u64 (bucketCount + 2 ^ 64 - 1) < rowCount) (column : Bytes)
    (rowId columnHash retries : Nat) : P _ (findRowLoop H column rowId columnHash bucketCount retries) := by
  induction retries with
  | zero => exact reads.spin
  | succ retries ih =>
    refine reads.bind (reads.findRowPass inside _ _ _ _ _ _) fun looked => ?_
    cases looked with
    | some lookup => exact reads.ret _
    | none => exact ih

theorem ReadsBuckets.loadFilled {index : Nat} (inside : index < rowCount) (retries : Nat) :
    P _ (loadFilledRowBucketSnapshot index retries) := by
  induction retries with
  | zero => exact reads.spin
  | succ retries ih =>
    refine reads.bind (reads.loadRowBucketSnapshot inside) fun snapshot => ?_
    cases snapshot with
    | filled bucket => exact reads.ret _
    | empty => exact reads.fail _
    | writing => exact ih

theorem ReadsBuckets.readIndexedObject (bucket : IndexBucket) : P _ (readIndexedObject bucket) :=
  reads.bind (reads.readRecordHeader _) fun _ => reads.ite
    (reads.bind (reads.readRecordColumnKey _ _) fun _ => reads.ret _) (reads.fail _)

theorem ReadsBuckets.countObjects {rounds index : Nat} (inside : index + rounds ≤ n) (columns : ColumnMap) :
    P _ (countObjects rounds index columns) := by
  induction rounds generalizing index columns with
  | zero => exact reads.ret _
  | succ rounds ih =>
    exact reads.bind (reads.loadBucket (by omega)) fun _ => reads.ite (ih (by omega) _)
      (reads.bind (reads.readIndexedObject _) fun _ => ih (by omega) _)

theorem ReadsBuckets.countRows {rounds index : Nat} (inside : index + rounds ≤ rowCount) (columns : ColumnMap) :
    P _ (countRows retries rounds index columns) := by
  induction rounds generalizing index columns with
  | zero => exact reads.ret _
  | succ rounds ih =>
    refine reads.bind (reads.loadIfPresent (by omega) _) fun bucket => ?_
    cases bucket with
    | none => exact ih (by omega) _
    | some bucket => exact reads.bind (reads.readIndexedRow _) fun _ => ih (by omega) _

variable {columnFilter : Option Bytes} {deserialize : Option DumpDeserializer}

theorem ReadsBuckets.dumpObjects {rounds index : Nat} (inside : index + rounds ≤ n) :
    P _ (dumpObjects H columnFilter deserialize rounds index) := by
  induction rounds generalizing index with
  | zero => exact reads.ret _
  | succ rounds ih =>
    refine reads.bind (reads.loadBucket (by omega)) fun _ => reads.ite (ih (by omega))
      (reads.bind (reads.readIndexedObject _) fun _ => reads.ite (ih (by omega)) ?_)
    exact reads.bind (reads.readValueAt _ _) fun _ => reads.bind (reads.deserializeIf _) fun _ =>
      reads.bind (ih (by omega)) fun _ => reads.ret _

theorem ReadsBuckets.dumpRows {rounds index : Nat} (inside : index + rounds ≤ rowCount) :
    P _ (dumpRows H retries columnFilter deserialize rounds index) := by
  induction rounds generalizing index with
  | zero => exact reads.ret _
  | succ rounds ih =>
    refine reads.bind (reads.loadIfPresent (by omega) _) fun bucket => ?_
    cases bucket with
    | none => exact ih (by omega)
    | some bucket => exact reads.bind (reads.dumpRow _ _) fun _ => reads.bind (ih (by omega)) fun _ => reads.ret _

end Buckets

/-- `LoadRowEntries` is made of the readers, whatever bucket count it loads. -/
theorem loadRowEntries_of_reads {P : (α : Type) → Db α → Prop} (reads : ∀ n rowCount, ReadsBuckets P n rowCount)
    (H : HashFunctions) (column : Bytes) (rowId columnHash retries : Nat) :
    P _ (loadRowEntries H retries column rowId columnHash) := by
  have all := reads 0 0
  have find : P _ (findRowBucket H column rowId columnHash retries) :=
    all.bind (all.loadRow _ _ (by decide)) fun bucketCount =>
      (reads 0 (u64 (bucketCount + 2 ^ 64 - 1) + 1)).findRowLoop (Nat.lt_succ_self _) _ _ _ _
  exact all.bind find fun lookup => all.ite (all.ret _)
    (all.bind ((reads 0 (lookup.index + 1)).loadFilled (Nat.lt_succ_self _) _) fun bucket =>
      all.bind (all.loadRowBlock _) fun block => all.bind (all.decodeRowBlockEntries _ _ _) fun _ => all.ret _)

section Reads
variable {H : HashFunctions} {retries : Nat}

theorem reads_readAllAt (file : FileId) (offset size : Nat) : (readAllAt file offset size).Only Op.Reads :=
  ⟨trivial, fun answer => by cases answer <;> exact trivial⟩

/-- The readers have no other operations than reads, whatever the bucket
counts they load. -/
theorem reads_buckets (n rowCount : Nat) : ReadsBuckets (fun _ p => p.Only Op.Reads) n rowCount where
  toCompositional := compositional_only _
  members := ⟨trivial, fun _ => trivial⟩
  loadValues _ _ := ⟨trivial, fun _ => trivial⟩
  readAllAt _ _ := reads_readAllAt _ _ _
  loadShard _ _ _ := ⟨trivial, fun _ => trivial⟩
  readShard _ _ _ := reads_readAllAt _ _ _
  load _ _ _ := ⟨trivial, fun _ => trivial⟩
  loadBytes _ _ _ := ⟨trivial, fun _ => trivial⟩
  loadRow _ _ _ := ⟨trivial, fun _ => trivial⟩

theorem reads_members : getMembers.Only Op.Reads := ⟨trivial, fun _ => trivial⟩

theorem reads_load (file : FileId) (offset width : Nat) : (load file offset width).Only Op.Reads :=
  ⟨trivial, fun _ => trivial⟩

theorem reads_countObjects (rounds : Nat) (columns : ColumnMap) : (countObjects rounds 0 columns).Only Op.Reads :=
  (reads_buckets rounds 0).countObjects (Nat.zero_add _).le columns

theorem reads_countRows (rounds : Nat) (columns : ColumnMap) : (countRows retries rounds 0 columns).Only Op.Reads :=
  (reads_buckets 0 rounds).countRows (Nat.zero_add _).le columns

theorem reads_getColumnStats : (getColumnStats retries).Only Op.Reads :=
  .bind reads_members fun _ => .ite trivial (.bind (reads_load _ _ _) fun _ => .bind (reads_countObjects _ _) fun _ =>
    .bind (reads_load _ _ _) fun _ => .bind (reads_countRows _ _) fun _ => trivial)

variable {columnFilter : Option Bytes} {deserialize : Option DumpDeserializer}

theorem reads_dumpObjects (rounds : Nat) : (dumpObjects H columnFilter deserialize rounds 0).Only Op.Reads :=
  (reads_buckets rounds 0).dumpObjects (Nat.zero_add _).le

theorem reads_dumpRows (rounds : Nat) : (dumpRows H retries columnFilter deserialize rounds 0).Only Op.Reads :=
  (reads_buckets 0 rounds).dumpRows (Nat.zero_add _).le

theorem reads_counted {file : FileId} {p : Db Nat} (only : p.Only Op.Reads) :
    (do
      let m ← getMembers
      if (m.maps file).isNone then return 0 else p : Db Nat).Only Op.Reads :=
  .bind reads_members fun _ => .ite trivial only

theorem reads_unfiltered {p : Db Nat} (only : p.Only Op.Reads) : (unfiltered columnFilter p).Only Op.Reads := by
  cases columnFilter with
  | none => exact .bind only fun _ => trivial
  | some column => exact trivial

end Reads

end LumoDB
