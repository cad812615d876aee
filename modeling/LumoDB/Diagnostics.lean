import LumoDB.Lib.OrderedMap
import LumoDB.Open

namespace LumoDB
open ByteCodec Effects Ordered

structure ColumnStats where
  column : Bytes := []
  objectCount : Nat := 0
  rowCount : Nat := 0
  deriving DecidableEq

abbrev ColumnMap := OrderedMap Bytes ColumnStats

/-- Counts objects and rows of a column, which gets an entry with the first. -/
def countColumn (columns : ColumnMap) (column : Bytes) (objects rows : Nat) : ColumnMap :=
  columns.adjust column {} fun s =>
    { column := column
      objectCount := u64 (s.objectCount + objects)
      rowCount := u64 (s.rowCount + rows) }

/-- A value as the dump hands it to its deserializer. -/
structure DumpValue where
  column : Bytes
  rowId : Option Nat
  key : Bytes
  flatBufferBytes : Bytes
  deriving DecidableEq

abbrev DumpDeserializer := DumpValue → Except Status Bytes

/-- The lines of a dump, each with what it shows. -/
inductive DumpLine where
  | title (columnFilter : Option Bytes)
  | objectIndex (entries : Option Nat) (buckets : Nat)
  | objects
  | object (bucket : Nat) (value : DumpValue) (columnHash keyHash indexHash recordOffset valueOffset recordSize : Nat)
      (deserialized : Option Bytes)
  | rowIndex (rows : Option Nat) (buckets shards : Nat) (nextSequence : Option Nat)
  | rows
  | row (bucket : Nat) (column : Bytes) (indexBucket : RowIndexBucket) (objectCount : Nat)
  | rowEntry (value : DumpValue) (deserialized : Option Bytes)
  | columnStatistics
  | columnStats (stats : ColumnStats)

section Objects

/-- The object a bucket points to, without its value. -/
def readIndexedObject (bucket : IndexBucket) : Db (ValueRecordHeader × Bytes × Bytes) := do
  let h ← readRecordHeader bucket.recordOffset
  if isValidRecordHeader h then do
    let stored ← readRecordColumnKey bucket.recordOffset h
    return (h, stored)
  else .fail (.corruption "object index points to an invalid value record")

/-- The first loop of `GetColumnStats`. -/
def countObjects : Nat → Nat → ColumnMap → Db ColumnMap
  | 0, _, columns => return columns
  | rounds + 1, index, columns => do
    let bucket ← loadBucket index
    if bucket.hash = 0 then countObjects rounds (index + 1) columns
    else do
      let (_, column, _) ← readIndexedObject bucket
      countObjects rounds (index + 1) (countColumn columns column 1 0)

end Objects

section Rows

/-- The column of the block a bucket points to, with the number of its
entries. -/
def readIndexedRow (bucket : RowIndexBucket) : Db (Bytes × Nat) := do
  let m ← getMembers
  if m.rowShards ≤ bucket.shardId then .fail (.corruption "row index points to an invalid shard")
  else do
    let h ← readRowBlockHeader bucket.shardId bucket.blockOffset
    if isValidRowBlockHeader h = false ∨ h.blockSize ≠ bucket.blockSize ∨ h.columnHash ≠ bucket.columnHash ∨
        h.rowId ≠ bucket.rowId then
      .fail (.corruption "row index points to an invalid row block")
    else do
      let column ← readRowBlockColumn bucket.shardId bucket.blockOffset h
      return (column, h.itemCount)

/-- The second loop of `GetColumnStats`. -/
def countRows (retries : Nat) : Nat → Nat → ColumnMap → Db ColumnMap
  | 0, _, columns => return columns
  | rounds + 1, index, columns => do
    match ← loadFilledRowBucketSnapshotIfPresent index retries with
    | none => countRows retries rounds (index + 1) columns
    | some bucket => do
      let (column, itemCount) ← readIndexedRow bucket
      countRows retries rounds (index + 1) (countColumn columns column itemCount 1)

end Rows

section Stats
variable (retries : Nat)

def getColumnStats : Db (List ColumnStats) := do
  let m ← getMembers
  if ¬ m.isOpen then .fail (.notOpen "database is not open")
  else do
    let bucketCount ← loadBucketCount
    let columns ← countObjects bucketCount 0 .empty
    let rowBucketCount ← loadRowBucketCount
    let columns ← countRows retries rowBucketCount 0 columns
    return columns.bindings.map Prod.snd

def dumpColumnStats : Db (List DumpLine) := do
  let stats ← getColumnStats retries
  return stats.map .columnStats

end Stats

section Dump
variable (H : HashFunctions) (retries : Nat) (columnFilter : Option Bytes) (deserialize : Option DumpDeserializer)

def deserializeIf (value : DumpValue) : Db (Option Bytes) :=
  match deserialize with
  | none => return none
  | some convert => do
    let text ← checked (convert value)
    return some text

/-- The objects of a dump. A column that does not pass the filter is left
out before its value is read. -/
def dumpObjects : Nat → Nat → Db (List DumpLine)
  | 0, _ => return []
  | rounds + 1, index => do
    let bucket ← loadBucket index
    if bucket.hash = 0 then dumpObjects rounds (index + 1)
    else do
      let (h, column, key) ← readIndexedObject bucket
      if columnFilter.isSome ∧ some column ≠ columnFilter then dumpObjects rounds (index + 1)
      else do
        let valueOffset := u64 (bucket.recordOffset + 24 + h.columnSize + h.keySize)
        let recordSize := u64 (24 + h.columnSize + h.keySize + h.valueSize)
        let bytes ← readValueAt valueOffset h.valueSize
        let value : DumpValue := ⟨column, none, key, bytes⟩
        let text ← deserializeIf deserialize value
        let later ← dumpObjects rounds (index + 1)
        return .object index value (H.hashString column) (H.hashString key) bucket.hash bucket.recordOffset valueOffset
          recordSize text :: later

def dumpRowEntries (column : Bytes) (rowId : Nat) : List RowStructEntry → Db (List DumpLine)
  | [] => return []
  | entry :: later => do
    let value : DumpValue := ⟨column, some rowId, entry.key, entry.flatBufferBytes⟩
    let text ← deserializeIf deserialize value
    let lines ← dumpRowEntries column rowId later
    return .rowEntry value text :: lines

def dumpRow (index : Nat) (bucket : RowIndexBucket) : Db (List DumpLine) := do
  let block ← loadRowBlock bucket
  if block.length < 72 then .fail (.corruption "row block is truncated")
  else
    let h := RowBlockHeader.decode (block.take 72)
    if isValidRowBlockHeader h = false ∨ h.blockSize ≠ block.length ∨ h.columnHash ≠ bucket.columnHash ∨
        h.rowId ≠ bucket.rowId then
      .fail (.corruption "row index points to an invalid row block")
    else do
      let column ← blockBytes block (72 + h.bucketCount * 48) h.columnSize
      if columnFilter.isSome ∧ some column ≠ columnFilter then return []
      else do
        let entries ← decodeRowBlockEntries H block column bucket.rowId
        let lines ← dumpRowEntries deserialize column bucket.rowId entries
        return .row index column bucket h.itemCount :: lines

def dumpRows : Nat → Nat → Db (List DumpLine)
  | 0, _ => return []
  | rounds + 1, index => do
    match ← loadFilledRowBucketSnapshotIfPresent index retries with
    | none => dumpRows rounds (index + 1)
    | some bucket => do
      let lines ← dumpRow H columnFilter deserialize index bucket
      let later ← dumpRows rounds (index + 1)
      return lines ++ later

/-- What only a dump of all columns shows. -/
def unfiltered (p : Db Nat) : Db (Option Nat) :=
  match columnFilter with
  | none => do
    let shown ← p
    return some shown
  | some _ => return none

def dumpInternal : Db (List DumpLine) := do
  let m ← getMembers
  if ¬ m.isOpen then .fail (.notOpen "database is not open")
  else do
    let entries ← unfiltered columnFilter entryCount
    let buckets ← bucketCount
    let bucketCount ← loadBucketCount
    let objectLines ← dumpObjects H columnFilter deserialize bucketCount 0
    let rows ← unfiltered columnFilter rowCount
    let rowBuckets ← rowBucketCount
    let nextSequence ← unfiltered columnFilter (load .rowIndex 32 8)
    let rowBucketCount ← loadRowBucketCount
    let rowLines ← dumpRows H retries columnFilter deserialize rowBucketCount 0
    let stats ← getColumnStats retries
    return .title columnFilter :: .objectIndex entries buckets :: .objects :: objectLines ++
      .rowIndex rows rowBuckets m.rowShards nextSequence :: .rows :: rowLines ++ .columnStatistics ::
      (stats.filter fun s => columnFilter.isNone ∨ some s.column = columnFilter).map .columnStats

def dump : Db (List DumpLine) := dumpInternal H retries none none

def dumpColumn (column : Bytes) (deserialize : Option DumpDeserializer) : Db (List DumpLine) :=
  dumpInternal H retries (some column) deserialize

end Dump

end LumoDB
